import MixedMode.Proofs.Balance
/-!
# StackEffect — what a call does to the operand stack of its caller

No operation of a frame takes a word from below the frame's base, and a call cuts the stack back to where its arguments
began, so whatever runs in between leaves the words below as they were (`Context.enter_keeps`, by induction on the
bound of `enter` and on the body).  Hence the exact effect of `call` and `callWith`, outcome by outcome.
-/
namespace MixedMode

variable {β σ α : Type}

/-- Running a callee leaves the words it finds on the stack where they are, and the limit. -/
def Enter.Keeps (enter : Enter β σ) : Prop :=
  ∀ (entry : Entry β σ) (s : CallState σ),
    s.stack.words <+: (enter entry s).2.stack.words ∧ (enter entry s).2.stack.limit = s.stack.limit

/-- **A callee that is left leaves the words of its caller**, those passed taken off. -/
theorem Enter.Keeps.leave_placed {enter : Enter β σ} (he : enter.Keeps) {c : Convention} {f : Function β σ}
    {passed under : List Word} {s s' : CallState σ} {entry : Entry β σ}
    (hp : Entry.Placed c f passed under s s' entry) :
    (enter.leave entry s').1 = (enter entry s').1 ∧ (enter.leave entry s').2.stack.words = under ∧
      (enter.leave entry s').2.stack.limit = s.stack.limit := by
  obtain ⟨hwords, hlimit⟩ := he entry s'
  have hunder : under <+: (enter entry s').2.stack.words := by
    refine List.IsPrefix.trans ?_ hwords
    rw [hp.words]
    split
    · exact List.prefix_append _ _
    · exact List.prefix_rfl
  refine ⟨rfl, ?_, hlimit.trans hp.limit⟩
  show ((enter entry s').2.stack.truncate entry.floor).words = under
  rw [OperandStack.words_truncate, hp.floor]
  exact (List.prefix_iff_eq_take.1 hunder).symm

namespace Frame

variable {cx : Context β σ} {enter : Enter β σ} {f : Frame β σ} {index : Nat} {s : CallState σ}

/-- The words that a call of `callee` leaves of the stack: those passed are off. -/
def wordsWithout (callee : Function β σ) (stack : OperandStack) : List Word :=
  stack.words.take (stack.depth - callee.arity)

/-- A call whose callee fails answers the error; the words passed are gone. -/
theorem call_of_error (he : enter.Keeps) {callee : Function β σ} {entry : Entry β σ} {s' : CallState σ}
    {e : RuntimeError} (hplace : f.placeCall cx index s = (.ok entry, s'))
    (hp : Entry.Placed cx.convention callee (s.stack.words.drop (s.stack.depth - callee.arity))
      (wordsWithout callee s.stack) s s' entry) (hr : (enter entry s').1 = .error e) :
    (f.call cx enter index s).1 = .error e ∧ (f.call cx enter index s).2.stack.words = wordsWithout callee s.stack ∧
      (f.call cx enter index s).2.stack.limit = s.stack.limit := by
  obtain ⟨h1, h2, h3⟩ := he.leave_placed hp
  have hcall : f.call cx enter index s = (.error e, (enter.leave entry s').2) := by
    simp only [call, hplace]
    rw [← Prod.eta (enter.leave entry s'), h1, hr]
  rw [hcall]
  exact ⟨rfl, h2, h3⟩

/-- A call whose callee returns a word puts it in the place of those passed, if there is room. -/
theorem call_of_ok (he : enter.Keeps) {callee : Function β σ} {entry : Entry β σ} {s' : CallState σ} {w : Word}
    (hplace : f.placeCall cx index s = (.ok entry, s'))
    (hp : Entry.Placed cx.convention callee (s.stack.words.drop (s.stack.depth - callee.arity))
      (wordsWithout callee s.stack) s s' entry) (hr : (enter entry s').1 = .ok w) :
    ((wordsWithout callee s.stack).length < s.stack.limit ∧ (f.call cx enter index s).1 = .ok () ∧
      (f.call cx enter index s).2.stack.words = wordsWithout callee s.stack ++ [w] ∧
      (f.call cx enter index s).2.stack.limit = s.stack.limit) ∨
    (s.stack.limit ≤ (wordsWithout callee s.stack).length ∧
      (f.call cx enter index s).1 = .error (.stackOverflow s.stack.limit) ∧
      (f.call cx enter index s).2.stack.words = wordsWithout callee s.stack ∧
      (f.call cx enter index s).2.stack.limit = s.stack.limit) := by
  obtain ⟨h1, h2, h3⟩ := he.leave_placed hp
  have hcall : f.call cx enter index s = (enter.leave entry s').2.onStack (·.push w) := by
    simp only [call, hplace]
    rw [← Prod.eta (enter.leave entry s'), h1, hr]
  rw [hcall, CallState.onStack_fst, CallState.onStack_snd, ← h2, ← h3]
  by_cases hroom : (enter.leave entry s').2.stack.depth < (enter.leave entry s').2.stack.limit
  · refine .inl ⟨hroom, (OperandStack.push_of_lt hroom w).1, OperandStack.words_push hroom w, ?_⟩
    exact OperandStack.limit_push _ w
  · have hfull := OperandStack.push_of_le (Nat.le_of_not_lt hroom) w
    refine .inr ⟨Nat.le_of_not_lt hroom, ?_, ?_, ?_⟩ <;> rw [hfull]

/-- **`callWith` leaves the stack as it was**, whatever its outcome. -/
theorem stack_callWith (cx : Context β σ) (he : enter.Keeps) (index : Nat) (args : Array Word) (s : CallState σ) :
    (callWith cx enter index args s).2.stack = s.stack := by
  rcases placeCallWith_cases cx index args s with
    ⟨-, hplace⟩ | ⟨callee, -, -, hplace⟩ | ⟨callee, -, -, -, -, hplace⟩ | ⟨callee, entry, s', -, -, -, hplace, hp⟩
  · rw [callWith, hplace]
  · rw [callWith, hplace]
  · rw [callWith, hplace]
  · obtain ⟨-, h2, h3⟩ := he.leave_placed hp
    rw [callWith, hplace]
    exact OperandStack.ext_words h2 h3

theorem keeps_pop {low : List Word} (hlow : low <+: s.stack.words) (hbase : low.length ≤ f.base) :
    low <+: (f.pop s).2.stack.words ∧ (f.pop s).2.stack.limit = s.stack.limit := by
  unfold pop
  split
  · exact ⟨hlow, rfl⟩
  · rename_i ha
    have hdepth : f.base < s.stack.words.length := by
      rw [← OperandStack.depth_eq_length]
      exact Nat.lt_of_sub_ne_zero ha
    have hne : s.stack.words ≠ [] := List.ne_nil_of_length_pos (Nat.zero_lt_of_lt hdepth)
    have hw := (List.dropLast_concat_getLast hne).symm
    refine ⟨?_, OperandStack.limit_pop _⟩
    rw [CallState.onStack_snd, (OperandStack.pop_of_words hw).2]
    rw [hw] at hlow
    refine List.prefix_of_prefix_length_le hlow (List.prefix_append _ _) ?_
    rw [List.length_dropLast]
    omega

theorem keeps_push {low : List Word} (hlow : low <+: s.stack.words) (w : Word) :
    low <+: (s.stack.push w).2.words := by
  by_cases hroom : s.stack.depth < s.stack.limit
  · rw [OperandStack.words_push hroom]
    exact hlow.trans (List.prefix_append _ _)
  · rw [OperandStack.push_of_le (Nat.le_of_not_lt hroom)]
    exact hlow

theorem prefix_wordsWithout {low : List Word} (hlow : low <+: s.stack.words) (hbase : low.length ≤ f.base)
    {callee : Function β σ} (harity : callee.arity ≤ f.available s.stack) : low <+: wordsWithout callee s.stack := by
  refine List.prefix_of_prefix_length_le hlow (List.take_prefix _ _) ?_
  have := hlow.length_le
  rw [available, OperandStack.depth_eq_length] at harity
  rw [wordsWithout, List.length_take, OperandStack.depth_eq_length]
  omega

theorem keeps_call (cx : Context β σ) (he : enter.Keeps) (index : Nat) {low : List Word}
    (hlow : low <+: s.stack.words) (hbase : low.length ≤ f.base) :
    low <+: (f.call cx enter index s).2.stack.words ∧ (f.call cx enter index s).2.stack.limit = s.stack.limit := by
  rcases placeCall_cases cx f index s with
    ⟨-, hplace⟩ | ⟨callee, -, -, hplace⟩ | ⟨callee, entry, s', -, harity, hplace, hp⟩
  · rw [call, hplace]
    exact ⟨hlow, rfl⟩
  · rw [call, hplace]
    exact ⟨hlow, rfl⟩
  · have hpre := prefix_wordsWithout hlow hbase harity
    cases hr : (enter entry s').1 with
    | error e =>
      obtain ⟨-, hwords, hlimit⟩ := call_of_error he hplace hp hr
      rw [hwords]
      exact ⟨hpre, hlimit⟩
    | ok w =>
      rcases call_of_ok he hplace hp hr with ⟨-, -, hwords, hlimit⟩ | ⟨-, -, hwords, hlimit⟩
      · rw [hwords]
        exact ⟨hpre.trans (List.prefix_append _ _), hlimit⟩
      · rw [hwords]
        exact ⟨hpre, hlimit⟩

end Frame

namespace Context

variable (cx : Context β σ) {enter : Enter β σ}

/-- **An operation of a frame leaves the words below its base as they were**, and the base. -/
theorem perform_keeps (he : enter.Keeps) (op : Op σ) (f : Frame β σ) (s : CallState σ) {low : List Word}
    (hlow : low <+: s.stack.words) (hbase : low.length ≤ f.base) :
    low <+: (cx.perform enter op f s).2.2.stack.words ∧
      (cx.perform enter op f s).2.2.stack.limit = s.stack.limit ∧ (cx.perform enter op f s).2.1.base = f.base := by
  cases op with
  | setLocal index value =>
    refine ⟨hlow, rfl, ?_⟩
    simp only [perform, Frame.setLocal]
    split <;> rfl
  | push value => exact ⟨Frame.keeps_push hlow value, OperandStack.limit_push _ value, rfl⟩
  | pop =>
    obtain ⟨h1, h2⟩ := Frame.keeps_pop (f := f) hlow hbase
    exact ⟨h1, h2, rfl⟩
  | call index =>
    obtain ⟨h1, h2⟩ := Frame.keeps_call cx he index hlow hbase
    exact ⟨h1, h2, rfl⟩
  | callWith index args =>
    have h := Frame.stack_callWith cx he index args s
    refine ⟨?_, ?_, rfl⟩
    · show low <+: (Frame.callWith cx enter index args s).2.stack.words
      rw [h]
      exact hlow
    · exact congrArg OperandStack.limit h
  | _ => exact ⟨hlow, rfl, rfl⟩

theorem run_keeps (he : enter.Keeps) {low : List Word} : ∀ (p : Program σ α) (f : Frame β σ) (s : CallState σ),
    low <+: s.stack.words → low.length ≤ f.base →
    low <+: (p.run (cx.perform enter) f s).2.2.stack.words ∧
      (p.run (cx.perform enter) f s).2.2.stack.limit = s.stack.limit
  | .done _, _, _, hlow, _       => ⟨hlow, rfl⟩
  | .step op k, f, s, hlow, hbase => by
    obtain ⟨h1, h2, h3⟩ := perform_keeps cx he op f s hlow hbase
    obtain ⟨h4, h5⟩ := run_keeps he (k (cx.perform enter op f s).1) (cx.perform enter op f s).2.1
      (cx.perform enter op f s).2.2 h1 (h3 ▸ hbase)
    exact ⟨h4, h5.trans h2⟩

/-- **A callee leaves the words it finds on the stack**, whatever its body does and however deep it calls. -/
theorem enter_keeps : ∀ levels : Nat, (cx.enter levels).Keeps
  | 0, _, _             => ⟨List.prefix_rfl, rfl⟩
  | levels + 1, entry, s => by
    have hlow : s.stack.words <+: (s.countEntry cx.convention entry.function entry.target).stack.words :=
      ⟨[], by rw [List.append_nil, CallState.stack_countEntry]⟩
    obtain ⟨h1, h2⟩ := run_keeps cx (enter_keeps levels) (cx.bodyOf entry.function entry.target)
      (entry.frame (s.countEntry cx.convention entry.function entry.target).stack.depth)
      (s.countEntry cx.convention entry.function entry.target).deeper hlow hlow.length_le
    rw [enter]
    split
    · exact ⟨List.prefix_rfl, rfl⟩
    · exact ⟨h1, h2.trans (congrArg OperandStack.limit (CallState.stack_countEntry ..))⟩

end Context

namespace Frame

variable {cx : Context β σ} {f : Frame β σ} {index : Nat} {s : CallState σ}

/-- The base of the frame is on the stack, and arguments that it finds there are below the base. -/
def Seated (f : Frame β σ) (stack : OperandStack) : Prop :=
  f.base ≤ stack.depth ∧ ∀ base, f.args = .stack base → base + f.arity ≤ f.base

/-- Arguments are read from the words below the base only. -/
theorem arg_of_prefix {low : List Word} {t t' : OperandStack} (h : low <+: t.words) (h' : low <+: t'.words)
    (hargs : ∀ base, f.args = .stack base → base + f.arity ≤ low.length) (j : Nat) : f.arg t j = f.arg t' j := by
  obtain ⟨above, ht⟩ := h
  obtain ⟨above', ht'⟩ := h'
  unfold arg
  by_cases hj : j < f.arity
  · cases ha : f.args with
    | registers ws => rfl
    | stack base =>
      have hslot : base + j < low.length := Nat.lt_of_lt_of_le (Nat.add_lt_add_left hj base) (hargs base ha)
      simp only [OperandStack.get?_eq]
      rw [← ht, ← ht', List.getElem?_append_left hslot, List.getElem?_append_left hslot]
  · simp only [hj, if_false]

theorem arity_le_depth {callee : Function β σ} (h : callee.arity ≤ f.available s.stack) :
    callee.arity ≤ s.stack.depth :=
  Nat.le_trans h (Nat.sub_le _ _)

end Frame

/-- **The exact stack effect of a call**, for every frame, every state, wherever its nesting counter stands, and every
bound on the recursion.  An unknown index and missing words leave the state as it was.  A call that fails, of its own or
because the counter refuses it, leaves the stack without the words passed,
one that returns puts the word in their place; only a call without arguments on a full stack has no room for it, and
then the stack is as it was.  `callWith` leaves the stack as it was whatever its outcome.  The caller's frame is the
same after either call, and reads the same arguments. -/
theorem Context.stack_effect (cx : Context β σ) (levels : Nat) (f : Frame β σ) (index : Nat) (s : CallState σ) :
    (cx.module.function? index = none →
      f.call cx (cx.enter levels) index s = (.error (.unknownFunction index), s)) ∧
    (∀ callee, cx.module.function? index = some callee → f.available s.stack < callee.arity →
      f.call cx (cx.enter levels) index s = (.error .stackUnderflow, s)) ∧
    (∀ callee, cx.module.function? index = some callee → callee.arity ≤ f.available s.stack →
      ∃ entry s', f.placeCall cx index s = (.ok entry, s') ∧ entry.function = callee ∧ s'.nesting = s.nesting ∧
        (levels = 0 ∨ cx.maxDepth ≤ s.nesting →
          (cx.enter levels entry s').1 = .error (.recursionLimit cx.maxDepth)) ∧
        (∀ e, (cx.enter levels entry s').1 = .error e →
          (f.call cx (cx.enter levels) index s).1 = .error e ∧
          (f.call cx (cx.enter levels) index s).2.stack.words = Frame.wordsWithout callee s.stack) ∧
        (∀ w, (cx.enter levels entry s').1 = .ok w →
          ((Frame.wordsWithout callee s.stack).length < s.stack.limit ∧
            (f.call cx (cx.enter levels) index s).1 = .ok () ∧
            (f.call cx (cx.enter levels) index s).2.stack.words = Frame.wordsWithout callee s.stack ++ [w]) ∨
          (callee.arity = 0 ∧ s.stack.depth = s.stack.limit ∧
            (f.call cx (cx.enter levels) index s).1 = .error (.stackOverflow s.stack.limit) ∧
            (f.call cx (cx.enter levels) index s).2.stack = s.stack))) ∧
    (f.call cx (cx.enter levels) index s).2.stack.limit = s.stack.limit ∧
    (∀ args, (Frame.callWith cx (cx.enter levels) index args s).2.stack = s.stack) ∧
    (∀ op, op = .call index ∨ (∃ args, op = .callWith index args) →
      (cx.perform (cx.enter levels) op f s).2.1 = f ∧
      (f.Seated s.stack → ∀ j, f.arg (cx.perform (cx.enter levels) op f s).2.2.stack j = f.arg s.stack j)) := by
  have he := cx.enter_keeps levels
  refine ⟨fun hc => ?_, fun callee hc ha => ?_, fun callee hc ha => ?_, ?_,
    fun args => Frame.stack_callWith cx he index args s, fun op hop => ⟨?_, fun hseat j => ?_⟩⟩
  · simp only [Frame.call, Frame.placeCall, hc]
  · simp only [Frame.call, Frame.placeCall, hc, ha, if_true]
  · rcases Frame.placeCall_cases cx f index s with ⟨hn, -⟩ | ⟨c, hs, hlt, -⟩ | ⟨c, entry, s', hs, -, hplace, hp⟩
    · rw [hc] at hn
      cases hn
    · obtain rfl := Option.some.inj (hc.symm.trans hs)
      exact absurd ha (Nat.not_le.2 hlt)
    · obtain rfl := Option.some.inj (hc.symm.trans hs)
      refine ⟨entry, s', hplace, hp.function, hp.nesting, fun hfull => ?_, fun e hr => ?_, fun w hr => ?_⟩
      · rw [← hp.nesting] at hfull
        rw [cx.enter_refuses hfull]
      · obtain ⟨h1, h2, -⟩ := Frame.call_of_error he hplace hp hr
        exact ⟨h1, h2⟩
      · rcases Frame.call_of_ok he hplace hp hr with ⟨hroom, h1, h2, -⟩ | ⟨hfull, h1, h2, h3⟩
        · exact .inl ⟨hroom, h1, h2⟩
        · have harity := Frame.arity_le_depth ha
          have hle := s.stack.depth_le
          rw [Frame.wordsWithout, List.length_take, ← OperandStack.depth_eq_length] at hfull
          have h0 : callee.arity = 0 := by omega
          refine .inr ⟨h0, by omega, h1, OperandStack.ext_words ?_ h3⟩
          rw [h2, Frame.wordsWithout, h0, Nat.sub_zero]
          exact List.take_length
  · exact (Frame.keeps_call cx he index (List.nil_prefix (l := s.stack.words)) (Nat.zero_le _)).2
  · rcases hop with rfl | ⟨args, rfl⟩ <;> rfl
  · have hlow : s.stack.words.take f.base <+: s.stack.words := List.take_prefix _ _
    have hlen : (s.stack.words.take f.base).length = f.base := by
      rw [List.length_take, ← OperandStack.depth_eq_length, Nat.min_eq_left hseat.1]
    have hkeep := perform_keeps cx he op f s hlow (Nat.le_of_eq hlen)
    exact Frame.arg_of_prefix hkeep.1 hlow (fun base hb => by rw [hlen]; exact hseat.2 base hb) j

end MixedMode
