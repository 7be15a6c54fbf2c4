import MixedMode.Proofs.Chain
import MixedMode.Proofs.Counterpart
/-!
# Twin — one operation of two runs that differ in where arguments are

Two states are twins when their stacks hold the same words above two lists `low` and `low'`.  These differ when only one
of two runs keeps arguments on its stack; that stack is then the deeper one (`Shorter`), and what finds room on it finds
room on the other.  A frame that has `low` below its base and one that has `low'` below its base, in contexts that are
counterparts, come to the same with every operation (`Counterpart.advance_alike`), unless it overflows the deeper stack
only.
-/
namespace MixedMode

variable {β σ : Type}

/-! ## Operations refused for want of room -/

def failure? {α : Type} : Except RuntimeError α → Option RuntimeError
  | .error e => some e
  | .ok _    => none

/-- The error with which an operation was refused. -/
def Answered.refusal? : Answered σ → Option RuntimeError
  | ⟨.arg _, r⟩ | ⟨.getLocal _, r⟩ | ⟨.pop, r⟩ | ⟨.peek _, r⟩ | ⟨.callWith _ _, r⟩ => failure? r
  | ⟨.setLocal _ _, r⟩ | ⟨.push _, r⟩ | ⟨.call _, r⟩                               => failure? r
  | _ => none

theorem Waiting.refusal?_resume_error (waiting : Waiting σ) (e : RuntimeError) (s : CallState σ) :
    (waiting.resume (.error e) s).1.refusal? = some e := by
  cases waiting <;> rfl

/-- The operation met a stack overflow. -/
def Answered.Overflows (a : Answered σ) : Prop := ∃ limit, a.refusal? = some (.stackOverflow limit)

instance (a : Answered σ) : Decidable a.Overflows :=
  match h : a.refusal? with
  | some (.stackOverflow limit) => .isTrue ⟨limit, h⟩
  | some .stackUnderflow | some (.recursionLimit _) | some (.unknownFunction _) | some (.arityMismatch ..)
  | some (.argumentOutOfRange ..) | some (.localOutOfRange ..) | some (.raised _) | none =>
    .isFalse fun ⟨_, hl⟩ => by rw [h] at hl; cases hl

/-- The operation met a stack overflow before another body ran. -/
def Advance.Overflows : Advance β σ → Prop
  | .answered a _ _ _ => a.Overflows
  | .placed ..        => False

theorem CallState.failure?_push {s : CallState σ} (h : s.stack.limit ≤ s.stack.depth) (w : Word) :
    failure? (s.onStack (·.push w)).1 = some (.stackOverflow s.stack.limit) := by
  rw [onStack_fst, OperandStack.push_of_le h]
  rfl

/-! ## Two states with the same words above their bases -/

/-- The words `low'` are at most as many as `low`, and as many when the convention keeps arguments on the stack. -/
def Shorter (c : Convention) (low low' : List Word) : Prop :=
  low'.length ≤ low.length ∧ (c.keepsStack = true → low'.length = low.length)

/-- Two states whose stacks hold the same words above `low` and above `low'`. -/
structure CallState.Twin (low low' : List Word) (s s' : CallState σ) : Prop where
  words : ∃ window, s.stack.words = low ++ window ∧ s'.stack.words = low' ++ window
  limit : s'.stack.limit = s.stack.limit
  kept : s'.kept = s.kept

theorem Frame.available_of_words {f : Frame β σ} {stack : OperandStack} {low window : List Word}
    (h : stack.words = low ++ window) (hbase : f.base = low.length) : f.available stack = window.length := by
  rw [available, OperandStack.depth_eq_length, h, hbase, List.length_append, Nat.add_sub_cancel_left]

/-- The top words of a stack are the top words of a window that has as many. -/
theorem OperandStack.split_window {stack : OperandStack} {low window : List Word} {count : Nat}
    (h : stack.words = low ++ window) (hle : count ≤ window.length) :
    stack.words.take (stack.depth - count) = low ++ window.take (window.length - count) ∧
      stack.words.drop (stack.depth - count) = window.drop (window.length - count) := by
  have hslot : stack.depth - count = low.length + (window.length - count) := by
    rw [depth_eq_length, h, List.length_append]
    omega
  rw [hslot, h, List.take_length_add_append, List.drop_length_add_append]
  exact ⟨rfl, rfl⟩

namespace CallState.Twin

variable {c : Convention} {low low' : List Word} {s s' : CallState σ} {f f' : Frame β σ}

theorem available_eq (h : s.Twin low low' s') (hbase : f.base = low.length) (hbase' : f'.base = low'.length) :
    f'.available s'.stack = f.available s.stack := by
  obtain ⟨window, hw, hw'⟩ := h.words
  rw [Frame.available_of_words hw hbase, Frame.available_of_words hw' hbase']

/-- What finds room on the deeper stack finds room on the other. -/
theorem depth_le (h : s.Twin low low' s') (hlow : Shorter c low low') :
    s'.stack.depth ≤ s.stack.depth ∧ (c.keepsStack = true → s'.stack.depth = s.stack.depth) := by
  obtain ⟨window, hw, hw'⟩ := h.words
  rw [OperandStack.depth_eq_length, OperandStack.depth_eq_length, hw, hw', List.length_append, List.length_append]
  exact ⟨Nat.add_le_add_right hlow.1 _, fun hk => by rw [hlow.2 hk]⟩

theorem push (h : s.Twin low low' s') (hlow : Shorter c low low') (w : Word)
    (hroom : c.keepsStack = true ∨ s.stack.depth < s.stack.limit) :
    (s'.onStack (·.push w)).1 = (s.onStack (·.push w)).1 ∧
      (s.onStack (·.push w)).2.Twin low low' (s'.onStack (·.push w)).2 := by
  obtain ⟨hle, heq⟩ := h.depth_le hlow
  rw [CallState.onStack_fst, CallState.onStack_fst, CallState.onStack_snd, CallState.onStack_snd]
  by_cases hlt : s.stack.depth < s.stack.limit
  · have hlt' : s'.stack.depth < s'.stack.limit := by rw [h.limit]; exact Nat.lt_of_le_of_lt hle hlt
    obtain ⟨window, hw, hw'⟩ := h.words
    refine ⟨?_, ⟨window ++ [w], ?_, ?_⟩, ?_, h.kept⟩
    · rw [(OperandStack.push_of_lt hlt w).1, (OperandStack.push_of_lt hlt' w).1]
    · rw [OperandStack.words_push hlt, hw, List.append_assoc]
    · rw [OperandStack.words_push hlt', hw', List.append_assoc]
    · rw [OperandStack.limit_push, OperandStack.limit_push, h.limit]
  · have hdepth := heq (hroom.resolve_right hlt)
    have hge := Nat.le_of_not_lt hlt
    have hge' : s'.stack.limit ≤ s'.stack.depth := by rw [h.limit, hdepth]; exact hge
    rw [OperandStack.push_of_le hge, OperandStack.push_of_le hge', h.limit]
    exact ⟨rfl, h⟩

theorem pop (h : s.Twin low low' s') (hbase : f.base = low.length) (hbase' : f'.base = low'.length) :
    (f'.pop s').1 = (f.pop s).1 ∧ (f.pop s).2.Twin low low' (f'.pop s').2 := by
  unfold Frame.pop
  rw [h.available_eq hbase hbase']
  obtain ⟨window, hw, hw'⟩ := h.words
  rw [Frame.available_of_words hw hbase]
  rcases List.eq_nil_or_concat window with rfl | ⟨window, w, rfl⟩
  · exact ⟨rfl, h⟩
  · rw [List.concat_eq_append] at hw hw'
    rw [← List.append_assoc] at hw hw'
    obtain ⟨hr, hs⟩ := OperandStack.pop_of_words hw
    obtain ⟨hr', hs'⟩ := OperandStack.pop_of_words hw'
    rw [if_neg (by simp), if_neg (by simp)]
    refine ⟨hr'.trans hr.symm, ⟨window, hs, hs'⟩, ?_, h.kept⟩
    exact (OperandStack.limit_pop _).trans (h.limit.trans (OperandStack.limit_pop _).symm)

theorem peek (h : s.Twin low low' s') (hbase : f.base = low.length) (hbase' : f'.base = low'.length)
    (distance : Nat) : f'.peek s'.stack distance = f.peek s.stack distance := by
  unfold Frame.peek
  rw [h.available_eq hbase hbase']
  obtain ⟨window, hw, hw'⟩ := h.words
  rw [Frame.available_of_words hw hbase]
  split
  · rename_i hlt
    have hlt' : distance < window.reverse.length := by rwa [List.length_reverse]
    rw [OperandStack.peek_eq, OperandStack.peek_eq, hw, hw', List.reverse_append, List.reverse_append,
      List.getElem?_append_left hlt', List.getElem?_append_left hlt']
  · rfl

end CallState.Twin

/-! ## One operation -/

/-- Two frames of the same function, but for its native entry, with the same locals, passed the same words. -/
structure OpenFrame.Alike (o o' : OpenFrame β σ) : Prop where
  function : o'.frame.function.uncompiled = o.frame.function.uncompiled
  locals : o'.frame.locals = o.frame.locals
  passed : o'.passed = o.passed

/-- However the body that waits is answered, it avoids the operations that are `bad`. -/
def Waiting.Avoids (bad : Op σ → Bool) : Waiting σ → Prop
  | .call _ next       => ∀ r, (next r).Avoids bad
  | .callWith _ _ next => ∀ r, (next r).Avoids bad

/-- An operation comes to the same in both runs: the same answer, or callees that are the same without their native
entries, passed the same words. -/
inductive Advance.Alike (bad : Op σ → Bool) (cx cx' : Context β σ) (low low' : List Word) (f f' : Frame β σ)
    (s s' : CallState σ) : Advance β σ → Advance β σ → Prop
  | answered {a : Answered σ} {body : Body σ} {g g' : Frame β σ} {t t' : CallState σ}
      (hframe : ∃ locals, g = { f with locals } ∧ g' = { f' with locals }) (havoids : body.Avoids bad)
      (htwin : t.Twin low low' t') :
      Alike bad cx cx' low low' f f' s s' (.answered a body g t) (.answered a body g' t')
  | placed {callee callee' : Function β σ} {entry entry' : Entry β σ} {passed under under' : List Word}
      {waiting : Waiting σ} {t t' : CallState σ} (hcallee : callee ∈ cx.module.functions)
      (hcallee' : callee' ∈ cx'.module.functions) (heq : callee.uncompiled = callee'.uncompiled)
      (harity : passed.length = callee.arity) (hplaced : Entry.Placed cx.convention callee passed under s t entry)
      (hplaced' : Entry.Placed cx'.convention callee' passed under' s' t' entry')
      (hunder : ∃ window, under = low ++ window ∧ under' = low' ++ window) (havoids : waiting.Avoids bad) :
      Alike bad cx cx' low low' f f' s s' (.placed entry passed under waiting t)
        (.placed entry' passed under' waiting t')

theorem Frame.withLocals_self {f f' : Frame β σ} (h : f'.locals = f.locals) :
    ∃ locals, f = { f with locals } ∧ f' = { f' with locals } :=
  ⟨f.locals, rfl, by rw [← h]⟩

namespace Context.Counterpart

variable {bad : Op σ → Bool} {cx cx' : Context β σ} {low low' : List Word} {f f' : Frame β σ} {s s' : CallState σ}

theorem advance_call (h : cx.Counterpart bad cx') (hs : s.Twin low low' s') (hbase : f.base = low.length)
    (hbase' : f'.base = low'.length) (hlocals : f'.locals = f.locals) (index : Nat)
    {k : Except RuntimeError Unit → Body σ} (hk : ∀ answer, (k answer).Avoids bad) :
    Advance.Alike bad cx cx' low low' f f' s s' (cx.advance f s (.call index) k)
      (cx'.advance f' s' (.call index) k) := by
  have havailable := hs.available_eq hbase hbase'
  rcases Module.function?_of_uncompiled_eq h.module index with ⟨hc, hc'⟩ | ⟨callee, callee', hc, hc', heq⟩
  · have hp : f.placeCall cx index s = (.error (.unknownFunction index), s) := by rw [Frame.placeCall, hc]
    have hp' : f'.placeCall cx' index s' = (.error (.unknownFunction index), s') := by rw [Frame.placeCall, hc']
    simp only [advance, hp, hp']
    exact .answered (Frame.withLocals_self hlocals) (hk _) hs
  · have harity := Function.arity_eq heq
    by_cases hlt : f.available s.stack < callee.arity
    · have hlt' : f'.available s'.stack < callee'.arity := by rwa [havailable, ← harity]
      have hp : f.placeCall cx index s = (.error .stackUnderflow, s) := by
        simp only [Frame.placeCall, hc, if_pos hlt]
      have hp' : f'.placeCall cx' index s' = (.error .stackUnderflow, s') := by
        simp only [Frame.placeCall, hc', if_pos hlt']
      simp only [advance, hp, hp']
      exact .answered (Frame.withLocals_self hlocals) (hk _) hs
    · have hlt' : ¬ f'.available s'.stack < callee.arity := by rwa [havailable]
      have hp := Entry.placed_fromStack cx.convention callee (Nat.sub_le s.stack.depth callee.arity)
      have hp' := Entry.placed_fromStack cx'.convention callee' (Nat.sub_le s'.stack.depth callee.arity)
      obtain ⟨window, hw, hw'⟩ := hs.words
      have hle : callee.arity ≤ window.length := by
        rw [← Frame.available_of_words hw hbase]
        exact Nat.le_of_not_lt hlt
      obtain ⟨htake, hdrop⟩ := OperandStack.split_window hw hle
      obtain ⟨htake', hdrop'⟩ := OperandStack.split_window hw' hle
      simp only [advance, Frame.placeCall, hc, hc', if_neg hlt, if_neg hlt', ← harity, hp.function, hp'.function]
      rw [htake, hdrop] at hp ⊢
      rw [htake', hdrop'] at hp' ⊢
      refine .placed (Module.mem_of_function? hc) (Module.mem_of_function? hc') heq ?_ hp hp' ⟨_, rfl, rfl⟩ hk
      rw [List.length_drop]
      exact Nat.sub_sub_self hle

theorem advance_callWith (h : cx.Counterpart bad cx') (hs : s.Twin low low' s') (hlow : Shorter cx'.convention low low')
    (hlocals : f'.locals = f.locals) (index : Nat) (args : Array Word) {k : Except RuntimeError Word → Body σ}
    (hk : ∀ answer, (k answer).Avoids bad)
    (hroom : cx'.convention.keepsStack = true ∨ ¬ (cx.advance f s (.callWith index args) k).Overflows) :
    Advance.Alike bad cx cx' low low' f f' s s' (cx.advance f s (.callWith index args) k)
      (cx'.advance f' s' (.callWith index args) k) := by
  obtain ⟨hdepth, hsame⟩ := hs.depth_le hlow
  simp only [advance, Frame.placeCallWith] at hroom ⊢
  rcases Module.function?_of_uncompiled_eq h.module index with ⟨hc, hc'⟩ | ⟨callee, callee', hc, hc', heq⟩
  · simp only [hc, hc']
    exact .answered (Frame.withLocals_self hlocals) (hk _) hs
  · have harity := Function.arity_eq heq
    by_cases hsize : args.size = callee.arity
    · have hsize' : args.size = callee'.arity := hsize.trans harity
      simp only [hc, hc', if_pos hsize, if_pos hsize'] at hroom ⊢
      rcases Entry.placed_fromWords cx.convention callee args s with ⟨entry, t, he, hp, hfits⟩ | ⟨he, -, hfull⟩
      -- the deeper stack has room, so the other one has it too
      · have hfits := hfits (Convention.onStack_of_keepsStack h.keeps callee)
        rcases Entry.placed_fromWords cx'.convention callee' args s' with ⟨entry', t', he', hp', -⟩ | ⟨he', -, hfull'⟩
        · rw [he, he']
          have hlength : args.toList.length = callee.arity := hsize
          exact .placed (Module.mem_of_function? hc) (Module.mem_of_function? hc') heq hlength hp hp' hs.words hk
        · rw [hs.limit] at hfull'
          omega
      -- it has none: that is allowed only where the stacks are as deep, and then the other one has none either
      · have hkeeps : cx'.convention.keepsStack = true := by
          refine hroom.resolve_right fun hno => hno ?_
          rw [he]
          exact ⟨_, rfl⟩
        have hfull' : s'.stack.limit < s'.stack.depth + args.size := by rwa [hs.limit, hsame hkeeps]
        rcases Entry.placed_fromWords cx'.convention callee' args s' with ⟨entry', t', he', hp', hfits'⟩ | ⟨he', -, -⟩
        · exact absurd (hfits' (Convention.onStack_of_keepsStack hkeeps callee')) (Nat.not_le_of_lt hfull')
        · rw [he, he', hs.limit]
          exact .answered (Frame.withLocals_self hlocals) (hk _) hs
    · simp only [hc, hc', if_neg hsize, ← harity, ← Function.name_eq heq]
      exact .answered (Frame.withLocals_self hlocals) (hk _) hs

/-- **Counterparts advance alike**, unless only the first is short of room. -/
theorem advance_alike (h : cx.Counterpart bad cx') {o o' : OpenFrame β σ} (ho : o.Alike o')
    (hsound : o.Sound cx.convention) (hsound' : o'.Sound cx'.convention)
    (hs : s.Twin (o.below cx.convention) (o'.below cx'.convention) s')
    (hlow : Shorter cx'.convention (o.below cx.convention) (o'.below cx'.convention)) {op : Op σ}
    (hop : bad op = false) {k : op.Answer → Body σ} (hk : ∀ answer, (k answer).Avoids bad)
    (hroom : cx'.convention.keepsStack = true ∨ ¬ (cx.advance o.frame s op k).Overflows) :
    Advance.Alike bad cx cx' (o.below cx.convention) (o'.below cx'.convention) o.frame o'.frame s s'
      (cx.advance o.frame s op k) (cx'.advance o'.frame s' op k) := by
  have hreveals : ∀ op : Op σ, bad op = false → op.revealsEntry = false := by
    intro op hop
    cases hr : op.revealsEntry with
    | false => rfl
    | true => rw [h.entry op hr] at hop; cases hop
  have hname := Function.name_eq ho.function
  have hmissing : ∀ index, o'.frame.localOutOfRange index = o.frame.localOutOfRange index := by
    intro index
    rw [Frame.localOutOfRange, Frame.localOutOfRange, hname, ho.locals]
  cases op with
  | arg index =>
    have hbelow : o.below cx.convention <+: s.stack.words := by
      obtain ⟨window, hw, -⟩ := hs.words
      exact ⟨window, hw.symm⟩
    have hbelow' : o'.below cx'.convention <+: s'.stack.words := by
      obtain ⟨window, -, hw'⟩ := hs.words
      exact ⟨window, hw'.symm⟩
    have harity : o'.frame.arity = o.frame.arity := Function.arity_eq ho.function
    have heq : o'.frame.arg s'.stack index = o.frame.arg s.stack index := by
      rw [hsound.arg hbelow, hsound'.arg hbelow', ho.passed, hname, harity]
    simp only [advance, perform, heq]
    exact .answered (Frame.withLocals_self ho.locals) (hk _) hs
  | getLocal index =>
    have heq : o'.frame.getLocal index = o.frame.getLocal index := by
      rw [Frame.getLocal, Frame.getLocal, ho.locals, hmissing]
    simp only [advance, perform, heq]
    exact .answered (Frame.withLocals_self ho.locals) (hk _) hs
  | setLocal index value =>
    simp only [advance, perform, Frame.setLocal, ho.locals, hmissing]
    split
    · exact .answered ⟨_, rfl, rfl⟩ (hk _) hs
    · exact .answered (Frame.withLocals_self ho.locals) (hk _) hs
  | push value =>
    have hfits : cx'.convention.keepsStack = true ∨ s.stack.depth < s.stack.limit := by
      refine hroom.imp_right fun hno => ?_
      by_contra hlt
      exact hno ⟨s.stack.limit, CallState.failure?_push (Nat.le_of_not_lt hlt) value⟩
    obtain ⟨heq, hs'⟩ := hs.push hlow value hfits
    simp only [advance, perform, heq]
    exact .answered (Frame.withLocals_self ho.locals) (hk _) hs'
  | pop =>
    obtain ⟨heq, hs'⟩ := hs.pop hsound.base hsound'.base
    simp only [advance, perform, heq]
    exact .answered (Frame.withLocals_self ho.locals) (hk _) hs'
  | peek distance =>
    have heq := hs.peek hsound.base hsound'.base distance
    simp only [advance, perform, heq]
    exact .answered (Frame.withLocals_self ho.locals) (hk _) hs
  | call index => exact h.advance_call hs hsound.base hsound'.base ho.locals index hk
  | callWith index args => exact h.advance_callWith hs hlow ho.locals index args hk hroom
  | depth =>
    have heq : s'.stack.depth = s.stack.depth := by
      refine (hs.depth_le hlow).2 (h.depth.resolve_right fun hd => ?_)
      rw [hop] at hd
      cases hd
    simp only [advance, perform, heq]
    exact .answered (Frame.withLocals_self ho.locals) (hk _) hs
  | convention => cases hreveals _ hop
  | argsInRegisters => cases hreveals _ hop
  | describe => cases hreveals _ hop
  | self =>
    simp only [advance, perform, Function.signature_eq ho.function]
    exact .answered (Frame.withLocals_self ho.locals) (hk _) hs
  | moduleName =>
    simp only [advance, perform, ← Module.name_of_uncompiled_eq h.module]
    exact .answered (Frame.withLocals_self ho.locals) (hk _) hs
  | moduleSize =>
    simp only [advance, perform, ← Module.size_of_uncompiled_eq h.module]
    exact .answered (Frame.withLocals_self ho.locals) (hk _) hs
  | signature index =>
    have heq : (cx'.module.function? index).map (·.signature) = (cx.module.function? index).map (·.signature) := by
      rcases Module.function?_of_uncompiled_eq h.module index with ⟨hc, hc'⟩ | ⟨callee, callee', hc, hc', heq⟩
      · rw [hc, hc']
      · rw [hc, hc', Option.map_some, Option.map_some, Function.signature_eq heq]
    simp only [advance, perform, heq]
    exact .answered (Frame.withLocals_self ho.locals) (hk _) hs
  | compiled index => cases hreveals _ hop
  | selfCompiled => cases hreveals _ hop
  | memory =>
    simp only [advance, perform, hs.kept]
    exact .answered (Frame.withLocals_self ho.locals) (hk _) hs
  | keep kept => exact .answered (Frame.withLocals_self ho.locals) (hk _) ⟨hs.words, hs.limit, rfl⟩

end Context.Counterpart

end MixedMode
