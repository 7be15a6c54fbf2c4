import MixedMode.Call.Frame
import MixedMode.Proofs.Words
/-!
# Placing — where the arguments of a call go

Arguments come from the top of the stack, from the caller's own words, or from outside.  All three ways put them in the
same place (`Entry.Placed`): in registers for a native callee that is passed registers, and on the stack above the words
of the caller unless the convention keeps them off it.  A call that is refused before that leaves the state as it was.
-/
namespace MixedMode

variable {β σ : Type}

namespace Convention

/-- The callee finds its arguments in registers. -/
def inRegisters (c : Convention) (f : Function β σ) : Bool :=
  (CallTarget.resolve c f).isNative && c.passesInRegisters

/-- The operand stack holds the arguments for as long as the callee runs. -/
def onStack (c : Convention) (f : Function β σ) : Bool := !c.inRegisters f || c.keepsStack

theorem keepsStack_of_ne {c : Convention} (h : c ≠ passParameter) : c.keepsStack = true := by
  cases c with
  | passParameter => exact absurd rfl h
  | _ => rfl

theorem onStack_of_keepsStack {c : Convention} (h : c.keepsStack = true) (f : Function β σ) : c.onStack f = true := by
  rw [onStack, h, Bool.or_true]

theorem onStack_of_not_inRegisters {c : Convention} {f : Function β σ} (h : c.inRegisters f = false) :
    c.onStack f = true := by
  rw [onStack, h, Bool.not_false, Bool.true_or]

theorem onStack_of_not_compiled (c : Convention) {f : Function β σ} (h : f.isCompiled = false) :
    c.onStack f = true := by
  refine onStack_of_not_inRegisters ?_
  rw [inRegisters, CallTarget.isNative_resolve, h, Bool.and_false, Bool.false_and]

theorem onStack_passParameter {f : Function β σ} (h : f.isCompiled = true) : passParameter.onStack f = false := by
  rw [onStack, inRegisters, CallTarget.isNative_resolve, h]
  rfl

end Convention

/-- The arguments `passed` of a callee are in place, above the words `under` of its caller, and nothing but the operand
stack has changed. -/
structure Entry.Placed (c : Convention) (f : Function β σ) (passed under : List Word) (s s' : CallState σ)
    (entry : Entry β σ) : Prop where
  function : entry.function = f
  target : entry.target = CallTarget.resolve c f
  floor : entry.floor = under.length
  args : entry.args = if c.inRegisters f then .registers passed.toArray else .stack under.length
  words : s'.stack.words = if c.onStack f then under ++ passed else under
  limit : s'.stack.limit = s.stack.limit
  rest : s' = { s with stack := s'.stack }

namespace Entry

/-- The same words placed as high are the same for the callee. -/
theorem Placed.entry_eq {c : Convention} {f : Function β σ} {passed under under' : List Word} {s s' t t' : CallState σ}
    {entry entry' : Entry β σ} (h : Placed c f passed under s t entry) (h' : Placed c f passed under' s' t' entry')
    (hlength : under'.length = under.length) : entry' = entry := by
  cases entry with
  | mk function target args floor =>
    cases entry' with
    | mk function' target' args' floor' =>
      obtain rfl : function = f := h.function
      obtain rfl : target = _ := h.target
      obtain rfl : function' = function := h'.function
      obtain rfl : target' = _ := h'.target
      obtain rfl : args = _ := h.args
      obtain rfl : args' = _ := h'.args
      obtain rfl : floor = _ := h.floor
      obtain rfl : floor' = _ := h'.floor
      rw [hlength]

theorem placed_fromStack (c : Convention) (f : Function β σ) {base : Nat} {s : CallState σ}
    (h : base ≤ s.stack.depth) :
    Placed c f (s.stack.words.drop base) (s.stack.words.take base) s (fromStack c f base s).2
      (fromStack c f base s).1 := by
  have hbase : (s.stack.words.take base).length = base := by
    rw [List.length_take, ← OperandStack.depth_eq_length, Nat.min_eq_left h]
  have hslice : s.stack.sliceFrom base = (s.stack.words.drop base).toArray := by
    rw [← OperandStack.toList_sliceFrom, Array.toArray_toList]
  have hwords : s.stack.words = s.stack.words.take base ++ s.stack.words.drop base := (List.take_append_drop _ _).symm
  by_cases hr : c.inRegisters f
  · have hr' : ((CallTarget.resolve c f).isNative && c.passesInRegisters) = true := hr
    by_cases hk : c.keepsStack
    · have ho : c.onStack f = true := Convention.onStack_of_keepsStack hk f
      constructor <;> simp [fromStack, hr, hr', hk, ho, hbase, hslice]
    · have ho : c.onStack f = false := by simp [Convention.onStack, hr, hk]
      constructor <;> simp [fromStack, OperandStack.splitOff, hr, hr', hk, ho, hbase, hslice]
  · have hr' : ((CallTarget.resolve c f).isNative && c.passesInRegisters) = false := Bool.eq_false_iff.2 hr
    have ho : c.onStack f = true := by simp [Convention.onStack, hr]
    constructor <;> simp [fromStack, hr, hr', ho, hbase]

/-- Words that the caller holds are placed, or refused only because the stack has no room for them. -/
theorem placed_fromWords (c : Convention) (f : Function β σ) (args : Array Word) (s : CallState σ) :
    (∃ entry s', fromWords c f args s = (.ok entry, s') ∧ Placed c f args.toList s.stack.words s s' entry ∧
      (c.onStack f = true → s.stack.depth + args.size ≤ s.stack.limit)) ∨
    (fromWords c f args s = (.error (.stackOverflow s.stack.limit), s) ∧ c.onStack f = true ∧
      s.stack.limit < s.stack.depth + args.size) := by
  have hin : ((CallTarget.resolve c f).isNative && c.passesInRegisters) = c.inRegisters f := rfl
  cases ho : c.onStack f with
  | false =>
    obtain ⟨hr, hk⟩ : c.inRegisters f = true ∧ c.keepsStack = false := by simpa [Convention.onStack] using ho
    refine .inl ⟨_, s, by simp only [fromWords, hin, hr, hk]; rfl, ?_, fun h => by cases h⟩
    constructor <;> simp [hr, ho, OperandStack.depth_eq_length]
  | true =>
    have hns : (c.inRegisters f && !c.keepsStack) = false := by
      cases hr : c.inRegisters f <;> simp [Convention.onStack, hr] at ho ⊢
      exact ho
    by_cases hroom : s.stack.depth + args.size ≤ s.stack.limit
    · obtain ⟨t, he⟩ : ∃ t, s.stack.extend args = (.ok (), t) := ⟨_, Prod.ext (OperandStack.extend_of_le hroom).1 rfl⟩
      have hwords : t.words = s.stack.words ++ args.toList := by
        rw [← OperandStack.words_extend hroom, he]
      have hlimit : t.limit = s.stack.limit := by
        rw [← OperandStack.limit_extend s.stack args, he]
      refine .inl ⟨_, { s with stack := t }, by simp only [fromWords, hin, hns, CallState.onStack, he]; rfl, ?_,
        fun _ => hroom⟩
      constructor <;> simp [ho, OperandStack.depth_eq_length, hwords, hlimit]
    · have hfull := OperandStack.extend_of_lt (Nat.lt_of_not_le hroom)
      refine .inr ⟨?_, rfl, Nat.lt_of_not_le hroom⟩
      simp only [fromWords, hin, hns, CallState.onStack, hfull]
      rfl

/-- The same for a call from outside, which always needs the room. -/
theorem placed_fromOutside (c : Convention) (f : Function β σ) (args : Array Word) (s : CallState σ) :
    (∃ entry s', fromOutside c f args s = (.ok entry, s') ∧ Placed c f args.toList s.stack.words s s' entry ∧
      s.stack.depth + args.size ≤ s.stack.limit) ∨
    (fromOutside c f args s = (.error (.stackOverflow s.stack.limit), s) ∧
      s.stack.limit < s.stack.depth + args.size) := by
  by_cases hroom : s.stack.depth + args.size ≤ s.stack.limit
  · obtain ⟨t, he⟩ : ∃ t, s.stack.extend args = (.ok (), t) := ⟨_, Prod.ext (OperandStack.extend_of_le hroom).1 rfl⟩
    have hwords : t.words = s.stack.words ++ args.toList := by
      rw [← OperandStack.words_extend hroom, he]
    have hlimit : t.limit = s.stack.limit := by
      rw [← OperandStack.limit_extend s.stack args, he]
    have hdepth : s.stack.depth ≤ t.depth := by
      rw [OperandStack.depth_eq_length, OperandStack.depth_eq_length, hwords, List.length_append]
      exact Nat.le_add_right _ _
    have hp := placed_fromStack c f (s := { s with stack := t }) hdepth
    simp only [hwords, OperandStack.depth_eq_length, List.drop_left, List.take_left] at hp
    refine .inl ⟨_, _, by simp only [fromOutside, CallState.onStack, he]; rfl, ?_, hroom⟩
    exact { hp with limit := hp.limit.trans hlimit, rest := hp.rest }
  · have hfull := OperandStack.extend_of_lt (Nat.lt_of_not_le hroom)
    refine .inr ⟨?_, Nat.lt_of_not_le hroom⟩
    simp only [fromOutside, CallState.onStack, hfull]

end Entry

namespace Frame

/-- **What `call` does before its callee is entered**: the index is unknown, words are missing, or the top words are
placed. -/
theorem placeCall_cases (cx : Context β σ) (f : Frame β σ) (index : Nat) (s : CallState σ) :
    (cx.module.function? index = none ∧ f.placeCall cx index s = (.error (.unknownFunction index), s)) ∨
    (∃ callee, cx.module.function? index = some callee ∧ f.available s.stack < callee.arity ∧
      f.placeCall cx index s = (.error .stackUnderflow, s)) ∨
    (∃ callee entry s', cx.module.function? index = some callee ∧ callee.arity ≤ f.available s.stack ∧
      f.placeCall cx index s = (.ok entry, s') ∧
      Entry.Placed cx.convention callee (s.stack.words.drop (s.stack.depth - callee.arity))
        (s.stack.words.take (s.stack.depth - callee.arity)) s s' entry) := by
  unfold placeCall
  cases hc : cx.module.function? index with
  | none => exact .inl ⟨rfl, rfl⟩
  | some callee =>
    by_cases ha : f.available s.stack < callee.arity
    · exact .inr (.inl ⟨callee, rfl, ha, by simp only [ha, if_true]⟩)
    · exact .inr (.inr ⟨callee, _, _, rfl, Nat.le_of_not_lt ha, by simp only [ha, if_false],
        Entry.placed_fromStack cx.convention callee (Nat.sub_le _ _)⟩)

/-- **What `callWith` does before its callee is entered**: the index is unknown, the count is wrong, there is no room,
or the words are placed. -/
theorem placeCallWith_cases (cx : Context β σ) (index : Nat) (args : Array Word) (s : CallState σ) :
    (cx.module.function? index = none ∧ placeCallWith cx index args s = (.error (.unknownFunction index), s)) ∨
    (∃ callee, cx.module.function? index = some callee ∧ args.size ≠ callee.arity ∧
      placeCallWith cx index args s = (.error (.arityMismatch callee.name callee.arity args.size), s)) ∨
    (∃ callee, cx.module.function? index = some callee ∧ args.size = callee.arity ∧
      cx.convention.onStack callee = true ∧ s.stack.limit < s.stack.depth + args.size ∧
      placeCallWith cx index args s = (.error (.stackOverflow s.stack.limit), s)) ∨
    (∃ callee entry s', cx.module.function? index = some callee ∧ args.size = callee.arity ∧
      (cx.convention.onStack callee = true → s.stack.depth + args.size ≤ s.stack.limit) ∧
      placeCallWith cx index args s = (.ok entry, s') ∧
      Entry.Placed cx.convention callee args.toList s.stack.words s s' entry) := by
  cases hc : cx.module.function? index with
  | none => exact .inl ⟨rfl, by simp only [placeCallWith, hc]⟩
  | some callee =>
    by_cases ha : args.size = callee.arity
    · have hif : placeCallWith cx index args s = Entry.fromWords cx.convention callee args s := by
        simp only [placeCallWith, hc, ha, if_true]
      rcases Entry.placed_fromWords cx.convention callee args s with ⟨entry, s', he, hp, hroom⟩ | ⟨he, ho, hroom⟩
      · exact .inr (.inr (.inr ⟨callee, entry, s', rfl, ha, hroom, hif.trans he, hp⟩))
      · exact .inr (.inr (.inl ⟨callee, rfl, ha, ho, hroom, hif.trans he⟩))
    · exact .inr (.inl ⟨callee, rfl, ha, by simp only [placeCallWith, hc, ha, if_false]⟩)

end Frame
end MixedMode
