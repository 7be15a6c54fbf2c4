import MixedMode.Proofs.Lockstep
/-!
# Layout — where the frames of a run lie on the operand stack

The bases of the open frames grow along the chain of calls, from the depth before the run up to the depth at the moment
(`Chained.bases`), and what a frame was passed lies between its base and the base of the frame that called it
(`Chained.laidOut`).  So what a frame counts from its base is never below zero or off the stack, and the stack fails in
no operation that the frame has let through (`Frame.LaidOut.safe`).
-/
namespace MixedMode

variable {β σ : Type}

namespace Frame

/-- The frame lies above a depth, at which its caller has its base: its base is no lower, it was passed as many words as
it takes, which are right below the base if the stack holds them, and it has the locals of its function. -/
structure LaidOut (ground : Nat) (f : Frame β σ) : Prop where
  ground_le : ground ≤ f.base
  onStack : ∀ base, f.args = .stack base → ground ≤ base ∧ base + f.arity = f.base
  inRegisters : ∀ words, f.args = .registers words → words.size = f.arity
  locals : f.locals.size = f.function.signature.locals

/-- Nothing that the frame counts on this stack is below zero or off the stack, and where the frame lets an operation
through the stack has the word. -/
structure Safe (f : Frame β σ) (stack : OperandStack) : Prop where
  available : f.base + f.available stack = stack.depth
  /-- The words that a call takes off are all above the base. -/
  call : ∀ arity ≤ f.available stack, f.base ≤ stack.depth - arity ∧ stack.depth - arity + arity = stack.depth
  slot : ∀ base j, f.args = .stack base → j < f.arity → base + j < f.base ∧ base + j < stack.depth
  distance : ∀ d < f.available stack, f.base ≤ stack.depth - 1 - d ∧ stack.depth - 1 - d + d + 1 = stack.depth
  arg : ∀ j, f.arg stack j ≠ .error .stackUnderflow
  pop : f.available stack ≠ 0 → ∃ w, stack.pop.1 = .ok w
  peek : ∀ d < f.available stack, ∃ w, stack.peek d = .ok w

/-- A frame that lies on the stack finds each argument where it looks for it. -/
theorem LaidOut.arg_ne_underflow {ground : Nat} {f : Frame β σ} {stack : OperandStack} (h : f.LaidOut ground)
    (hbase : f.base ≤ stack.depth) (j : Nat) : f.arg stack j ≠ .error .stackUnderflow := by
  rw [arg]
  by_cases hj : j < f.arity
  · rw [if_pos hj]
    cases ha : f.args with
    | stack base =>
      obtain ⟨-, harity⟩ := h.onStack base ha
      have hslot : base + j < stack.words.length := by
        rw [← OperandStack.depth_eq_length]
        omega
      dsimp only
      rw [OperandStack.get?_eq, List.getElem?_eq_getElem hslot]
      exact nofun
    | registers words =>
      have hsize := h.inRegisters words ha
      dsimp only
      rw [Array.getElem?_eq_getElem (hsize ▸ hj)]
      exact nofun
  · rw [if_neg hj]
    exact nofun

/-- **A frame that lies on the stack is safe.** -/
theorem LaidOut.safe {ground : Nat} {f : Frame β σ} {stack : OperandStack} (h : f.LaidOut ground)
    (hbase : f.base ≤ stack.depth) : f.Safe stack where
  available := Nat.add_sub_cancel' hbase
  call := by
    intro arity harity
    rw [Frame.available] at harity
    omega
  slot := by
    intro base j ha hj
    obtain ⟨-, harity⟩ := h.onStack base ha
    omega
  distance := by
    intro d hd
    rw [Frame.available] at hd
    omega
  arg := h.arg_ne_underflow hbase
  pop := by
    intro ha
    have hne : stack.words ≠ [] := fun hnil => ha (by
      rw [Frame.available, OperandStack.depth_eq_length, hnil]
      exact Nat.zero_sub _)
    exact ⟨_, (OperandStack.pop_of_words (List.dropLast_concat_getLast hne).symm).1⟩
  peek := by
    intro d hd
    have hd' : d < stack.words.reverse.length := by
      rw [List.length_reverse, ← OperandStack.depth_eq_length]
      exact Nat.lt_of_lt_of_le hd (Nat.sub_le _ _)
    rw [OperandStack.peek_eq, List.getElem?_eq_getElem hd']
    exact ⟨_, rfl⟩

end Frame

/-! ## The chain of calls -/

/-- The base of the innermost of these frames, or the depth on which the first of them was opened. -/
def groundOf (ground : Nat) : List (OpenFrame β σ) → Nat
  | []     => ground
  | o :: _ => o.frame.base

theorem OpenFrame.Sound.laidOut {c : Convention} {o : OpenFrame β σ} (ho : o.Sound c) {ground : Nat}
    (hground : ground ≤ o.under.length) : o.frame.LaidOut ground where
  ground_le := by
    rw [ho.base]
    exact Nat.le_trans hground (o.under_prefix_below c).length_le
  onStack := by
    intro base hargs
    obtain ⟨hbase, harity⟩ := ho.base_of_onStack hargs
    exact ⟨hbase ▸ hground, harity⟩
  inRegisters := by
    intro words hargs
    rw [ho.args] at hargs
    split at hargs
    · cases hargs
      exact ho.arity
    · cases hargs
  locals := ho.locals

theorem Chained.groundOf_le {c : Convention} {ground words : List Word} {chain : List (OpenFrame β σ)}
    (h : Chained c ground words chain) : groundOf ground.length chain ≤ words.length := by
  cases chain with
  | nil => exact Nat.le_of_eq (congrArg List.length h.symm)
  | cons o rest =>
    obtain ⟨hsound, hbelow, -⟩ := h
    rw [groundOf, hsound.base]
    exact hbelow.length_le

/-- **Each open frame lies above the base of the one that called it.** -/
theorem Chained.laidOut {c : Convention} {ground : List Word} {o : OpenFrame β σ} {outer : List (OpenFrame β σ)} :
    ∀ {inner : List (OpenFrame β σ)} {words : List Word}, Chained c ground words (inner ++ o :: outer) →
      o.frame.LaidOut (groundOf ground.length outer)
  | [], _, ⟨hsound, _, houter⟩  => hsound.laidOut houter.groundOf_le
  | _ :: _, _, ⟨_, _, hinner⟩ => hinner.laidOut

/-- **The bases grow along the chain of calls.** -/
theorem Chained.bases {c : Convention} {ground : List Word} : ∀ {chain : List (OpenFrame β σ)} {words : List Word},
    Chained c ground words chain →
    (words.length :: (chain.map (·.frame.base) ++ [ground.length])).Pairwise (· ≥ ·)
  | [], words, h => by
    have hwords : words = ground := h
    simp [hwords]
  | o :: chain, words, ⟨hsound, hbelow, hrest⟩ => by
    -- the innermost base is between the depth and the words under the frame, where the rest of the chain ends
    have hbases := hrest.bases
    have hlow : o.under.length ≤ o.frame.base := by
      rw [hsound.base]
      exact (o.under_prefix_below c).length_le
    have hbase : o.frame.base ≤ words.length := by
      rw [hsound.base]
      exact hbelow.length_le
    obtain ⟨hunder, hchain⟩ := List.pairwise_cons.1 hbases
    have hle : ∀ b ∈ chain.map (·.frame.base) ++ [ground.length], b ≤ o.frame.base :=
      fun b hb => Nat.le_trans (hunder b hb) hlow
    refine List.pairwise_cons.2 ⟨fun b hb => ?_, List.pairwise_cons.2 ⟨hle, hchain⟩⟩
    rcases List.mem_cons.1 hb with rfl | hb
    · exact hbase
    · exact Nat.le_trans (hle b hb) hbase

/-! ## What the frames are answered -/

/-- The frame asked for an argument and was told that the stack is short. -/
def Answered.MissesArgument (a : Answered σ) : Prop := ∃ j, a = ⟨.arg j, Except.error .stackUnderflow⟩

theorem Waiting.not_missesArgument_resume (waiting : Waiting σ) (r : Except RuntimeError Word) (s : CallState σ) :
    ¬ (waiting.resume r s).1.MissesArgument := by
  rintro ⟨j, h⟩
  have hop := congrArg Answered.op h
  cases waiting <;> cases r <;> cases hop

theorem Context.not_missesArgument_advance {cx : Context β σ} {f f' : Frame β σ} {s s' : CallState σ} {op : Op σ}
    {k : op.Answer → Body σ} {a : Answered σ} {body : Body σ} (h : cx.advance f s op k = .answered a body f' s')
    (hfound : ∀ j, f.arg s.stack j ≠ .error .stackUnderflow) : ¬ a.MissesArgument := by
  rintro ⟨j, rfl⟩
  obtain ⟨answer, ha, -⟩ := Context.advance_answered h
  cases op with
  | arg i =>
    cases ha
    obtain ⟨-, hanswer⟩ := Answered.mk.inj (Advance.answered.inj h).1
    exact hfound j (eq_of_heq hanswer)
  | _ => cases ha

namespace Moment

variable {cx : Context β σ} {f : Function β σ} {args : Array Word} {ground : OperandStack} {m : Moment β σ}

theorem Sound.laidOut {c : Convention} (hm : m.Sound c ground) {inner outer : List (OpenFrame β σ)} {o : OpenFrame β σ}
    (h : m.frames = inner ++ o :: outer) : o.frame.LaidOut (groundOf ground.depth outer) := by
  have hchain := hm.chain
  rw [h] at hchain
  exact hchain.laidOut

theorem Sound.safe {c : Convention} (hm : m.Sound c ground) {o : OpenFrame β σ} (ho : o ∈ m.frames) :
    o.frame.Safe m.state.stack := by
  obtain ⟨hsound, hbelow⟩ := hm.chain.mem o ho
  exact (hsound.laidOut (Nat.zero_le _)).safe (hsound.seated hbelow).1

/-- **The bases of the open frames grow from the depth before the run up to the depth, which is within the limit.** -/
theorem Sound.bases {c : Convention} (hm : m.Sound c ground) :
    (ground.depth :: m.bases.reverse ++ [m.state.stack.depth, ground.limit]).Pairwise (· ≤ ·) := by
  have hbases := hm.chain.bases
  have hdepth : m.state.stack.depth ≤ ground.limit := hm.limit ▸ m.state.stack.depth_le
  have hlimit : ∀ b ∈ m.state.stack.words.length :: (m.frames.map (·.frame.base) ++ [ground.words.length]),
      b ≤ ground.limit := by
    intro b hb
    rcases List.mem_cons.1 hb with rfl | hb
    · exact hdepth
    · exact Nat.le_trans ((List.pairwise_cons.1 hbases).1 b hb) hdepth
  have hlist : (ground.limit :: m.state.stack.words.length ::
      (m.frames.map (·.frame.base) ++ [ground.words.length])).reverse =
        ground.depth :: m.bases.reverse ++ [m.state.stack.depth, ground.limit] := by
    simp [Moment.bases, OperandStack.depth_eq_length]
  rw [← hlist]
  exact List.pairwise_reverse.2 (List.pairwise_cons.2 ⟨hlimit, hbases⟩)

theorem answers_leave_cases (m : Moment β σ) (more next floor : Nat) (r : Except RuntimeError Word) (s : CallState σ)
    (callers : List (Caller β σ)) {a : Answered σ} (ha : a ∈ (m.leave more next floor r s callers).answers) :
    a ∈ m.answers ∨ ¬ a.MissesArgument := by
  cases callers with
  | nil => cases r <;> exact .inl ha
  | cons c callers =>
    rcases List.mem_cons.1 ha with rfl | ha
    · exact .inr (c.waiting.not_missesArgument_resume r _)
    · exact .inl ha

theorem answers_attempt_cases (cx : Context β σ) (m : Moment β σ) (more next : Nat) (entry : Entry β σ)
    (passed under : List Word) (callers : List (Caller β σ)) (s : CallState σ) {a : Answered σ}
    (ha : a ∈ (m.attempt cx more next entry passed under callers s).answers) :
    a ∈ m.answers ∨ ¬ a.MissesArgument := by
  unfold attempt at ha
  split at ha
  · exact .inl ha
  · exact answers_leave_cases _ _ _ _ _ _ _ ha

/-- **No step tells a frame that the stack is too short for its argument.** -/
theorem Sound.step_answers {c : Convention} (hm : m.Sound c ground) {a : Answered σ}
    (ha : a ∈ (m.step cx f args).answers) : a ∈ m.answers ∨ ¬ a.MissesArgument := by
  have hstep := stepped cx f args m
  generalize m.step cx f args = m' at hstep ha
  cases hstep with
  | ended | finished | refused => exact .inl ha
  | invoked | called => exact answers_attempt_cases _ _ _ _ _ _ _ _ _ ha
  | left => exact answers_leave_cases _ _ _ _ _ _ _ ha
  | answered hstage hadvance =>
    rcases List.mem_cons.1 ha with rfl | ha
    · have hactive := hm.safe (by rw [frames_of_stage hstage]; exact .head _)
      exact .inr (Context.not_missesArgument_advance hadvance hactive.arg)
    · exact .inl ha

end Moment

namespace Machine

variable {m : Machine β σ} {index : Nat} {args : Array Word} {w : World σ} {n : Nat} {mo : Moment β σ}

theorem not_missesArgument (h : m.moment index args w n = some mo) : ∀ a ∈ mo.answers, ¬ a.MissesArgument := by
  refine (moment_induction (P := fun mo => mo.Sound m.config.callStyle m.stack ∧ ∀ a ∈ mo.answers, ¬ a.MissesArgument)
    (fun module f _ => ?_) (fun module f mo hr hm => ?_) h).2
  · exact ⟨Moment.sound_start _ _ (s := m.startState f index w) rfl, fun a ha => absurd ha List.not_mem_nil⟩
  · obtain ⟨hsound, hfound⟩ := hm
    have hsound : mo.Sound (m.context module).convention m.stack := hsound
    refine ⟨hsound.step (runnable_spec hr).2.2, fun a ha => ?_⟩
    exact (hsound.step_answers ha).elim (hfound a) id

/-- **The frames of a run lie in order on the operand stack.**  At every moment the bases of the open frames, from the
outermost on, grow from the depth before the run up to the depth, which is within the limit.  Each frame was passed as
many words as it takes; on the stack they are right below its base and not below the base of the frame that called it;
and it has the locals of its function.  So no difference that a frame counts is below zero, no argument is looked for
off the stack or found missing, and the stack never fails to answer what the frame has let through.  Each moment leads
to the last one, off which is read what `runWith` answers and leaves. -/
theorem frames_laid_out (h : m.moment index args w n = some mo) :
    (m.stack.depth :: mo.bases.reverse ++ [mo.state.stack.depth, m.stack.limit]).Pairwise (· ≤ ·) ∧
    (∀ inner o outer, mo.frames = inner ++ o :: outer → o.frame.LaidOut (groundOf m.stack.depth outer)) ∧
    (∀ o ∈ mo.frames, o.frame.Safe mo.state.stack) ∧
    (∀ j, (⟨.arg j, Except.error .stackUnderflow⟩ : Answered σ) ∉ mo.answers) ∧
    (∃ f N last r, n ≤ N ∧ m.moment index args w N = some last ∧ last.stage = .ended r ∧
      m.runWith index args w = m.outcome f r last.state) := by
  have hsound := sound_moment h
  obtain ⟨module, f, hrun, -⟩ := moment_spec h
  exact ⟨hsound.bases, fun inner o outer => hsound.laidOut, fun o => hsound.safe,
    fun j hj => not_missesArgument h _ hj ⟨j, rfl⟩, f, exists_last hrun w n⟩

theorem frames_laid_out_difference :
    ∃ mo o outer, (ofPrograms .operandStack 16 samplePrograms (· == 0)).moment 1 #[9] ⟨#[], ()⟩ 7 = some mo ∧
      mo.frames = o :: outer ∧ mo.bases = [3, 1] ∧ o.frame.LaidOut 1 ∧ o.frame.args = .registers #[9, 2] := by
  refine ⟨_, _, _, rfl, rfl, rfl, ?_, rfl⟩
  obtain ⟨-, hlaid, -⟩ := @frames_laid_out _ _ (ofPrograms .operandStack 16 samplePrograms (· == 0)) 1 #[9]
    ⟨#[], ()⟩ 7 _ rfl
  exact hlaid [] _ _ rfl

end Machine
end MixedMode
