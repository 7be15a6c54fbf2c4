import MixedMode.Proofs.Words
/-!
# BoundedList — every history of a stack is one of a list of words under a limit

What can be asked of a stack (`OperandStack.Operation`) is answered from its words and its limit alone
(`OperandStack.perform_spec`), so any sequence of operations gets the answers that a list of words gives, and the room
asked for in advance shows in none of them.  The bulk operations are the single-word ones done in a row: `extend`
pushes all words or none (`OperandStack.extend_eq`), what `splitOff` takes away `extend` puts back, and `peek` is the
last of several pops (`OperandStack.peek_eq_popPast`).
-/
namespace MixedMode
namespace OperandStack

/-! ## Operations, on a stack and on a list -/

/-- What can be asked of a stack: to change it, then to look at it. -/
inductive Operation
  | push (w : Word)
  | pop
  | extend (ws : Array Word)
  | truncate (keep : Nat)
  | splitOff (base : Nat)
  | reset
  | peek (distance : Nat)
  | get (slot : Nat)
  | top
  | sliceFrom (base : Nat)
  | depth

namespace Operation

def Answer : Operation → Type
  | push _ | extend _        => Except RuntimeError Unit
  | pop | peek _             => Except RuntimeError Word
  | truncate _ | reset       => Unit
  | splitOff _ | sliceFrom _ => Array Word
  | get _ | top              => Option Word
  | depth                    => Nat

def failure? {α : Type} : Except RuntimeError α → Option RuntimeError
  | .error e => some e
  | .ok _    => none

/-- The error that an answer is, if it is one. -/
def error? : (op : Operation) → op.Answer → Option RuntimeError
  | push _, r | extend _, r => failure? (show Except RuntimeError Unit from r)
  | pop, r | peek _, r      => failure? (show Except RuntimeError Word from r)
  | truncate _, _ | splitOff _, _ | reset, _ | get _, _ | top, _ | sliceFrom _, _ | depth, _ => none

/-- An operation on a list of words, the uppermost last, that holds no more than `limit` of them. -/
def onList (limit : Nat) (ws : List Word) : (op : Operation) → op.Answer × List Word
  | push w =>
    if ws.length < limit then (.ok (), ws ++ [w]) else (.error (.stackOverflow limit), ws)
  | pop =>
    match ws.getLast? with
    | some w => (.ok w, ws.dropLast)
    | none   => (.error .stackUnderflow, ws)
  | extend more =>
    if ws.length + more.size ≤ limit then (.ok (), ws ++ more.toList) else (.error (.stackOverflow limit), ws)
  | truncate keep => ((), ws.take keep)
  | splitOff base  => ((ws.drop base).toArray, ws.take base)
  | reset          => ((), [])
  | peek distance =>
    match ws.reverse[distance]? with
    | some w => (.ok w, ws)
    | none   => (.error .stackUnderflow, ws)
  | get slot       => (ws[slot]?, ws)
  | top            => (ws.getLast?, ws)
  | sliceFrom base => ((ws.drop base).toArray, ws)
  | depth          => (ws.length, ws)

end Operation

/-- An operation with the answer it got. -/
structure Performed where
  op : Operation
  answer : op.Answer

def perform (s : OperandStack) : (op : Operation) → op.Answer × OperandStack
  | .push w          => s.push w
  | .pop             => s.pop
  | .extend ws       => s.extend ws
  | .truncate keep   => ((), s.truncate keep)
  | .splitOff base   => s.splitOff base
  | .reset           => ((), s.reset)
  | .peek distance   => (s.peek distance, s)
  | .get slot        => (s.get? slot, s)
  | .top             => (s.top?, s)
  | .sliceFrom base  => (s.sliceFrom base, s)
  | .depth           => (s.depth, s)

def performAll : OperandStack → List Operation → List Performed × OperandStack
  | s, []        => ([], s)
  | s, op :: ops =>
    let (done, s') := (s.perform op).2.performAll ops
    (⟨op, (s.perform op).1⟩ :: done, s')

def Operation.allOnList (limit : Nat) : List Word → List Operation → List Performed × List Word
  | ws, []        => ([], ws)
  | ws, op :: ops =>
    let (done, ws') := allOnList limit (op.onList limit ws).2 ops
    (⟨op, (op.onList limit ws).1⟩ :: done, ws')

/-! ## A stack answers what its words say -/

theorem words_pop (s : OperandStack) :
    (∃ low w, s.words = low ++ [w] ∧ s.pop.1 = .ok w ∧ s.pop.2.words = low) ∨
    (s.words = [] ∧ s.pop = (.error .stackUnderflow, s)) := by
  rcases List.eq_nil_or_concat s.words with hnil | ⟨low, w, hw⟩
  · refine .inr ⟨hnil, ?_⟩
    have hback : s.slots.back? = none := by
      rw [Array.back?_eq_none_iff]
      exact Array.toList_eq_nil_iff.1 hnil
    obtain ⟨slots, limit, size_le⟩ := s
    unfold pop
    dsimp only at hback ⊢
    rw [hback]
  · rw [List.concat_eq_append] at hw
    exact .inl ⟨low, w, hw, (pop_of_words hw).1, (pop_of_words hw).2⟩

theorem top?_eq (s : OperandStack) : s.top? = s.words.getLast? := by
  rw [List.getLast?_eq_getElem?, ← depth_eq_length, ← get?_eq]
  exact Array.back?_eq_getElem?

theorem sliceFrom_eq (s : OperandStack) (base : Nat) : s.sliceFrom base = (s.words.drop base).toArray := by
  rw [← toList_sliceFrom, Array.toArray_toList]

/-- **A stack is its words under its limit**: an operation answers what the list answers and leaves what the list
leaves. -/
theorem perform_spec (s : OperandStack) (op : Operation) :
    (s.perform op).1 = (op.onList s.limit s.words).1 ∧
      (s.perform op).2.words = (op.onList s.limit s.words).2 ∧ (s.perform op).2.limit = s.limit := by
  cases op with
  | push w =>
    refine ⟨?_, ?_, limit_push s w⟩ <;> dsimp only [perform, Operation.onList] <;> split
    · exact (push_of_lt ‹_› w).1
    · rw [push_of_le (Nat.not_lt.1 ‹_›)]
    · exact words_push ‹_› w
    · rw [push_of_le (Nat.not_lt.1 ‹_›)]
  | pop =>
    dsimp only [perform, Operation.onList]
    rcases words_pop s with ⟨low, w, hw, hanswer, hwords⟩ | ⟨hnil, hpop⟩
    · rw [show s.words.getLast? = some w by rw [hw, List.getLast?_concat]]
      exact ⟨hanswer, by rw [hwords, hw, List.dropLast_concat], limit_pop s⟩
    · rw [hpop, hnil]
      exact ⟨rfl, rfl, rfl⟩
  | extend ws =>
    refine ⟨?_, ?_, limit_extend s ws⟩ <;> dsimp only [perform, Operation.onList] <;> split
    · exact (extend_of_le ‹_›).1
    · rw [extend_of_lt (Nat.not_le.1 ‹_›)]
    · exact words_extend ‹_›
    · rw [extend_of_lt (Nat.not_le.1 ‹_›)]
  | truncate keep => exact ⟨rfl, words_truncate s keep, rfl⟩
  | splitOff base => exact ⟨sliceFrom_eq s base, words_truncate s base, rfl⟩
  | reset => exact ⟨rfl, words_truncate s 0, rfl⟩
  | peek distance =>
    dsimp only [perform, Operation.onList]
    rw [peek_eq]
    cases s.words.reverse[distance]? <;> exact ⟨rfl, rfl, rfl⟩
  | get slot => exact ⟨get?_eq s slot, rfl, rfl⟩
  | top => exact ⟨top?_eq s, rfl, rfl⟩
  | sliceFrom base => exact ⟨sliceFrom_eq s base, rfl, rfl⟩
  | depth => exact ⟨rfl, rfl, rfl⟩

/-- **A history of a stack is one of a list**: one operation after the other. -/
theorem performAll_spec : ∀ (ops : List Operation) (s : OperandStack),
    (s.performAll ops).1 = (Operation.allOnList s.limit s.words ops).1 ∧
      (s.performAll ops).2.words = (Operation.allOnList s.limit s.words ops).2 ∧
      (s.performAll ops).2.limit = s.limit
  | [], _ => ⟨rfl, rfl, rfl⟩
  | op :: ops, s => by
    obtain ⟨hanswer, hwords, hlimit⟩ := perform_spec s op
    obtain ⟨hdone, hleft, hkept⟩ := performAll_spec ops (s.perform op).2
    rw [hwords, hlimit] at hdone hleft
    dsimp only [performAll, Operation.allOnList]
    exact ⟨by rw [hanswer, hdone], hleft, hkept.trans hlimit⟩

/-- **An operation that fails does nothing.** -/
theorem perform_of_error {s : OperandStack} {op : Operation} {e : RuntimeError}
    (h : op.error? (s.perform op).1 = some e) : (s.perform op).2 = s := by
  cases op with
  | push w =>
    have herror : Operation.failure? (s.push w).1 = some e := h
    rcases Nat.lt_or_ge s.depth s.limit with hlt | hle
    · rw [(push_of_lt hlt w).1] at herror
      cases herror
    · exact congrArg Prod.snd (push_of_le hle w)
  | pop =>
    have herror : Operation.failure? s.pop.1 = some e := h
    rcases words_pop s with ⟨low, w, -, hanswer, -⟩ | ⟨-, hpop⟩
    · rw [hanswer] at herror
      cases herror
    · exact congrArg Prod.snd hpop
  | extend ws =>
    have herror : Operation.failure? (s.extend ws).1 = some e := h
    rcases Nat.lt_or_ge s.limit (s.depth + ws.size) with hlt | hle
    · exact congrArg Prod.snd (extend_of_lt hlt)
    · rw [(extend_of_le hle).1] at herror
      cases herror
  | peek _ | get _ | top | sliceFrom _ | depth => rfl
  | truncate _ | splitOff _ | reset => cases h

/-! ## Bulk operations, word by word -/

/-- Push words one by one, up to the first that is refused. -/
def pushAll : OperandStack → List Word → Except RuntimeError Unit × OperandStack
  | s, []      => (.ok (), s)
  | s, w :: ws =>
    match s.push w with
    | (.ok (), s')   => s'.pushAll ws
    | (.error e, s') => (.error e, s')

/-- Pop `n` words and then one more, up to the first pop that is refused; the answer is the last one's. -/
def popPast : OperandStack → Nat → Except RuntimeError Word × OperandStack
  | s, 0     => s.pop
  | s, n + 1 =>
    match s.pop with
    | (.ok _, s')    => s'.popPast n
    | (.error e, s') => (.error e, s')

theorem push_eq_of_lt {s : OperandStack} (h : s.depth < s.limit) (w : Word) : s.push w = (.ok (), (s.push w).2) :=
  Prod.ext (push_of_lt h w).1 rfl

theorem depth_push {s : OperandStack} (h : s.depth < s.limit) (w : Word) : (s.push w).2.depth = s.depth + 1 := by
  rw [depth_eq_length, words_push h, List.length_append]
  rfl

theorem extend_push {s : OperandStack} (h : s.depth < s.limit) (w : Word) {ws : List Word}
    (hws : s.depth + (w :: ws).length ≤ s.limit) :
    (s.push w).2.extend ws.toArray = s.extend (w :: ws).toArray := by
  have hroom : (s.push w).2.depth + ws.toArray.size ≤ (s.push w).2.limit := by
    rw [depth_push h, limit_push]
    simpa [Nat.add_assoc, Nat.add_comm 1] using hws
  have hall : s.depth + (w :: ws).toArray.size ≤ s.limit := hws
  refine Prod.ext ((extend_of_le hroom).1.trans (extend_of_le hall).1.symm) (ext_words ?_ ?_)
  · rw [words_extend hroom, words_extend hall, words_push h, List.append_assoc]
    rfl
  · rw [limit_extend, limit_extend, limit_push]

/-- **Words that fit are pushed one by one as they are all at once.** -/
theorem pushAll_of_le : ∀ (ws : List Word) {s : OperandStack}, s.depth + ws.length ≤ s.limit →
    s.pushAll ws = s.extend ws.toArray
  | [], s, h => by
    refine Prod.ext (extend_of_le h).1.symm (ext_words ?_ (limit_extend s _).symm)
    rw [words_extend h]
    exact (List.append_nil _).symm
  | w :: ws, s, h => by
    have hlt : s.depth < s.limit := by
      rw [List.length_cons] at h
      omega
    have hrest : (s.push w).2.depth + ws.length ≤ (s.push w).2.limit := by
      rw [depth_push hlt, limit_push]
      rw [List.length_cons] at h
      omega
    unfold pushAll
    rw [push_eq_of_lt hlt]
    exact (pushAll_of_le ws hrest).trans (extend_push hlt w h)

/-- **Of words that do not fit one is refused**, for the limit. -/
theorem pushAll_of_lt : ∀ (ws : List Word) {s : OperandStack}, s.limit < s.depth + ws.length →
    (s.pushAll ws).1 = .error (.stackOverflow s.limit)
  | [], s, h => absurd s.depth_le (Nat.not_le.2 h)
  | w :: ws, s, h => by
    unfold pushAll
    by_cases hlt : s.depth < s.limit
    · rw [push_eq_of_lt hlt]
      have hrest : (s.push w).2.limit < (s.push w).2.depth + ws.length := by
        rw [depth_push hlt, limit_push]
        rw [List.length_cons] at h
        omega
      exact (pushAll_of_lt ws hrest).trans (by rw [limit_push])
    · rw [push_of_le (Nat.not_lt.1 hlt)]

/-- **`extend` is all of its pushes, or none of them.** -/
theorem extend_eq (s : OperandStack) (ws : Array Word) :
    s.extend ws = match s.pushAll ws.toList with
      | (.ok (), t)  => (.ok (), t)
      | (.error _, _) => (.error (.stackOverflow s.limit), s) := by
  by_cases h : s.depth + ws.size ≤ s.limit
  · rw [pushAll_of_le ws.toList h, Array.toArray_toList]
    rw [show s.extend ws = (.ok (), (s.extend ws).2) from Prod.ext (extend_of_le h).1 rfl]
  · have hpush := pushAll_of_lt ws.toList (Nat.not_le.1 h)
    rw [show s.pushAll ws.toList = (_, (s.pushAll ws.toList).2) from Prod.ext hpush rfl]
    exact extend_of_lt (Nat.not_le.1 h)

/-- **What was split off can always be put back**, and then nothing has changed. -/
theorem extend_splitOff (s : OperandStack) (base : Nat) :
    (s.splitOff base).2.extend (s.splitOff base).1 = (.ok (), s) := by
  have hroom : (s.truncate base).depth + (s.sliceFrom base).size ≤ (s.truncate base).limit := by
    have hlen : s.words.length ≤ s.limit := s.depth_le
    rw [depth_eq_length, words_truncate, sliceFrom_eq, List.size_toArray, List.length_take, List.length_drop,
      limit_truncate]
    omega
  refine Prod.ext (extend_of_le hroom).1 (ext_words ?_ (limit_extend _ _))
  refine (words_extend hroom).trans ?_
  rw [words_truncate, toList_sliceFrom, List.take_append_drop]

/-- **A word at a distance is the one that so many pops uncover.** -/
theorem peek_eq_popPast : ∀ (n : Nat) (s : OperandStack), s.peek n = (s.popPast n).1
  | 0, s => by
    unfold popPast
    rw [peek_eq]
    rcases words_pop s with ⟨low, w, hw, hanswer, -⟩ | ⟨hnil, hpop⟩
    · rw [hw, hanswer]
      simp
    · rw [hnil, hpop]
      rfl
  | n + 1, s => by
    unfold popPast
    rw [peek_eq]
    rcases words_pop s with ⟨low, w, hw, hanswer, hwords⟩ | ⟨hnil, hpop⟩
    · rw [show s.pop = (.ok w, s.pop.2) from Prod.ext hanswer rfl]
      have hlast := peek_eq_popPast n s.pop.2
      rw [peek_eq, hwords] at hlast
      rw [hw]
      simpa using hlast
    · rw [hnil, hpop]
      rfl

/-- A slot counted from the bottom is a distance from the top. -/
theorem get?_of_lt {s : OperandStack} {slot : Nat} (h : slot < s.depth) :
    ∃ w, s.get? slot = some w ∧ s.peek (s.depth - 1 - slot) = .ok w := by
  have h' : slot < s.words.length := h
  refine ⟨s.words[slot], by rw [get?_eq, List.getElem?_eq_getElem h'], ?_⟩
  rw [peek_eq, depth_eq_length, List.getElem?_reverse (by omega),
    show s.words.length - 1 - (s.words.length - 1 - slot) = slot by omega, List.getElem?_eq_getElem h']

theorem get?_of_le {s : OperandStack} {slot : Nat} (h : s.depth ≤ slot) : s.get? slot = none := by
  rw [get?_eq]
  exact List.getElem?_eq_none h

/-! ## The stack and the list -/

/-- **A stack is a bounded list, and its bulk operations are the single-word ones.**  From an empty stack, with any room
asked for in advance, every sequence of operations gets the answers of a list of words that holds no more than `limit`,
and leaves the words that the list has; the depth never passes the limit.  In every state: an operation that fails
changes nothing; `extend` succeeds just when all the pushes do, with the stack that they leave, and is otherwise refused
for the limit with nothing added; `splitOff` answers what `sliceFrom` does and leaves what `truncate` does, and the
words can be put back; `peek n` is the last of `n + 1` pops; a slot below the top is at the distance counted from the
other end, and there is none above. -/
theorem is_bounded_list (limit : Nat) :
    (∀ (capacity : Nat) (ops : List Operation),
      ((withCapacity capacity limit).performAll ops).1 = (Operation.allOnList limit [] ops).1 ∧
      ((withCapacity capacity limit).performAll ops).2.words = (Operation.allOnList limit [] ops).2 ∧
      ((withCapacity capacity limit).performAll ops).2.limit = limit ∧
      ((withCapacity capacity limit).performAll ops).2.depth ≤ limit) ∧
    ∀ s : OperandStack,
      (∀ op e, op.error? (s.perform op).1 = some e → (s.perform op).2 = s) ∧
      (∀ ws : Array Word, s.extend ws = match s.pushAll ws.toList with
        | (.ok (), t)   => (.ok (), t)
        | (.error _, _) => (.error (.stackOverflow s.limit), s)) ∧
      (∀ base, s.splitOff base = (s.sliceFrom base, s.truncate base) ∧
        (s.splitOff base).1.toList = s.words.drop base ∧ (s.splitOff base).2.words = s.words.take base ∧
        (s.splitOff base).2.extend (s.splitOff base).1 = (.ok (), s)) ∧
      (∀ n, s.peek n = (s.popPast n).1) ∧
      (∀ slot, slot < s.depth → ∃ w, s.get? slot = some w ∧ s.peek (s.depth - 1 - slot) = .ok w) ∧
      (∀ slot, s.depth ≤ slot → s.get? slot = none) := by
  refine ⟨fun capacity ops => ?_, fun s => ⟨fun op e => perform_of_error, extend_eq s, fun base => ?_,
    fun n => peek_eq_popPast n s, fun slot => get?_of_lt, fun slot => get?_of_le⟩⟩
  · obtain ⟨hanswers, hwords, hlimit⟩ := performAll_spec ops (withCapacity capacity limit)
    refine ⟨hanswers, hwords, hlimit, ?_⟩
    have hdepth := ((withCapacity capacity limit).performAll ops).2.depth_le
    rwa [hlimit] at hdepth
  · exact ⟨rfl, toList_sliceFrom s base, words_truncate s base, extend_splitOff s base⟩

/-- A full stack: a third word is refused and no words are added, though adding none would do. -/
theorem is_bounded_list_full :
    let (done, s) := (withCapacity 7 2).performAll [.push 1, .push 2, .push 3, .extend #[]]
    done = [⟨.push 1, .ok ()⟩, ⟨.push 2, .ok ()⟩, ⟨.push 3, .error (.stackOverflow 2)⟩, ⟨.extend #[], .ok ()⟩] ∧
    s.words = [1, 2] ∧ s.peek 1 = (s.popPast 1).1 ∧ (s.perform (.push 4)).2 = s := by
  obtain ⟨hruns, hstates⟩ := is_bounded_list 2
  obtain ⟨hanswers, hwords, -, -⟩ := hruns 7 [.push 1, .push 2, .push 3, .extend #[]]
  obtain ⟨hfails, -, -, hpeek, -, -⟩ := hstates
    ((withCapacity 7 2).performAll [.push 1, .push 2, .push 3, .extend #[]]).2
  exact ⟨hanswers, hwords, hpeek 1, hfails (.push 4) (.stackOverflow 2) rfl⟩

end OperandStack
end MixedMode
