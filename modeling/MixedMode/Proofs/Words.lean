import MixedMode.Stack
/-!
# Words — an operand stack is a list under a limit

The words of a stack from the bottom up (`words`) and its limit are all there is to it (`ext_words`).  Each operation
is stated once on the list, and every proof about calls argues on the list.
-/
namespace MixedMode
namespace OperandStack

/-- The words of a stack, from the bottom up. -/
def words (s : OperandStack) : List Word := s.slots.toList

theorem depth_eq_length (s : OperandStack) : s.depth = s.words.length := rfl

theorem ext_words {s t : OperandStack} (hw : s.words = t.words) (hl : s.limit = t.limit) : s = t :=
  ext (Array.toList_inj.1 hw) hl

theorem get?_eq (s : OperandStack) (slot : Nat) : s.get? slot = s.words[slot]? :=
  Array.getElem?_toList.symm

@[simp]
theorem words_truncate (s : OperandStack) (depth : Nat) : (s.truncate depth).words = s.words.take depth :=
  Array.toList_shrink

@[simp]
theorem toList_sliceFrom (s : OperandStack) (base : Nat) : (s.sliceFrom base).toList = s.words.drop base := by
  unfold sliceFrom words
  rw [Array.toList_extract, List.extract_eq_take_drop, List.take_of_length_le]
  simp

@[simp]
theorem limit_push : ∀ (s : OperandStack) (w : Word), (s.push w).2.limit = s.limit
  | ⟨slots, limit, _⟩, w => by by_cases h : slots.size < limit <;> simp [push, h]

@[simp]
theorem limit_pop (s : OperandStack) : s.pop.2.limit = s.limit := by
  unfold pop
  dsimp only
  split <;> rfl

@[simp]
theorem limit_extend : ∀ (s : OperandStack) (ws : Array Word), (s.extend ws).2.limit = s.limit
  | ⟨slots, limit, _⟩, ws => by by_cases h : slots.size + ws.size ≤ limit <;> simp [extend, h]

theorem words_push {s : OperandStack} (h : s.depth < s.limit) (w : Word) : (s.push w).2.words = s.words ++ [w] := by
  unfold words
  rw [(push_of_lt h w).2, Array.toList_push]

theorem words_extend {s : OperandStack} {ws : Array Word} (h : s.depth + ws.size ≤ s.limit) :
    (s.extend ws).2.words = s.words ++ ws.toList := by
  unfold words
  rw [(extend_of_le h).2, Array.toList_append]

theorem pop_of_words {s : OperandStack} {low : List Word} {w : Word} (h : s.words = low ++ [w]) :
    s.pop.1 = .ok w ∧ s.pop.2.words = low := by
  obtain ⟨⟨slots⟩, limit, size_le⟩ := s
  obtain rfl : slots = low ++ [w] := h
  have hb : (Array.mk (low ++ [w])).back? = some w := by simp
  unfold pop
  dsimp only
  rw [hb]
  exact ⟨rfl, by simp [words]⟩

theorem peek_eq (s : OperandStack) (distance : Nat) :
    s.peek distance = match s.words.reverse[distance]? with
      | some w => .ok w
      | none   => .error .stackUnderflow := by
  unfold peek
  split
  · rename_i h
    have h' : distance < s.words.length := h
    rw [List.getElem?_reverse h', List.getElem?_eq_getElem (by omega)]
    rfl
  · rename_i h
    rw [List.getElem?_eq_none (by simpa [words] using h)]

end OperandStack
end MixedMode
