import MixedMode.Proofs.Chain
import MixedMode.Proofs.Counterpart
/-!
# Arguments — what a frame was passed is what it reads

Each open frame of a run was opened by a call that passed it words, and has been open since (`Moment.opened_since`).  As
long as it is open it reads these words, wherever the convention put them, and a copy of them on the stack stays the
same copy (`Machine.arguments_intact`).
-/
namespace MixedMode

variable {β σ : Type}

def OpenFrame.withLocals (o : OpenFrame β σ) (locals : Array Word) : OpenFrame β σ :=
  { o with frame := { o.frame with locals } }

namespace Moment

/-- The run is about to call the function of `o`, passing it the words that `o` was passed and leaving those that `o` has
under it: from outside, from the top of the stack, or from the caller's own words. -/
def Passes (cx : Context β σ) (f : Function β σ) (args : Array Word) (mo : Moment β σ) (o : OpenFrame β σ) : Prop :=
  match mo.stage with
  | .between .. => o.frame.function = f ∧ o.passed = args.toList ∧ o.under = mo.state.stack.words
  | .inside _ _ _ (.step (.call index) _) _ =>
    cx.module.function? index = some o.frame.function ∧ o.passed.length = o.frame.arity ∧
      o.under ++ o.passed = mo.state.stack.words
  | .inside _ _ _ (.step (.callWith index ws) _) _ =>
    cx.module.function? index = some o.frame.function ∧ o.passed = ws.toList ∧ o.under = mo.state.stack.words
  | _ => False

variable {cx : Context β σ} {f : Function β σ} {args : Array Word}

theorem Passes.withLocals {mo : Moment β σ} {o : OpenFrame β σ} (h : mo.Passes cx f args o) (locals : Array Word) :
    mo.Passes cx f args (o.withLocals locals) := h

theorem frames_leave (m : Moment β σ) (more next floor : Nat) (r : Except RuntimeError Word) (s : CallState σ)
    (callers : List (Caller β σ)) : (m.leave more next floor r s callers).frames = callers.map (·.opened) := by
  cases callers with
  | nil => cases r <;> rfl
  | cons c callers => rfl

theorem frames_attempt (cx : Context β σ) (m : Moment β σ) (more next : Nat) (entry : Entry β σ)
    (passed under : List Word) (callers : List (Caller β σ)) (s : CallState σ) :
    (m.attempt cx more next entry passed under callers s).frames =
        ⟨entry.frame s.stack.depth, entry.floor, passed, under⟩ :: callers.map (·.opened) ∨
      (m.attempt cx more next entry passed under callers s).frames = callers.map (·.opened) := by
  unfold attempt
  split
  · exact .inl rfl
  · exact .inr (frames_leave ..)

theorem passes_of_placed {mo : Moment β σ} {more next : Nat} {active : OpenFrame β σ} {op : Op σ}
    {k : op.Answer → Body σ} {callers : List (Caller β σ)} {entry : Entry β σ} {passed under : List Word}
    {waiting : Waiting σ} {s : CallState σ} (hstage : mo.stage = .inside more next active (.step op k) callers)
    (ha : cx.advance active.frame mo.state op k = .placed entry passed under waiting s) :
    mo.Passes cx f args ⟨entry.frame s.stack.depth, entry.floor, passed, under⟩ := by
  obtain ⟨index, callee, hc, harity, hplaced, -, hwords⟩ := Context.advance_placed_spec ha
  have hfunction : cx.module.function? index = some entry.function := by rw [hc, hplaced.function]
  unfold Passes
  rw [hstage]
  rcases hwords with ⟨rfl, hwords⟩ | ⟨ws, rfl, hpassed, hunder⟩
  · refine ⟨hfunction, ?_, hwords⟩
    show passed.length = entry.function.arity
    rw [harity, hplaced.function]
  · exact ⟨hfunction, hpassed, hunder⟩

/-- **What a step does to the open frames**: nothing, or the innermost is left, or its locals change, or a call opens
one. -/
theorem frames_step (cx : Context β σ) (f : Function β σ) (args : Array Word) (mo : Moment β σ) :
    (mo.step cx f args).frames = mo.frames ∨ (mo.step cx f args).frames = mo.frames.tail ∨
    (∃ o rest locals, mo.frames = o :: rest ∧ (mo.step cx f args).frames = o.withLocals locals :: rest) ∨
    (∃ o, (mo.step cx f args).frames = o :: mo.frames ∧ mo.Passes cx f args o) := by
  have hstep := stepped cx f args mo
  generalize mo.step cx f args = mo' at hstep ⊢
  cases hstep with
  | ended => exact .inl rfl
  | finished hstage | refused hstage =>
    rw [frames, frames, hstage]
    exact .inl rfl
  | @invoked more next _ entry s hstage _ hplaced =>
    have hframes : mo.frames = [] := by rw [frames, hstage]
    rw [hframes]
    rcases frames_attempt cx mo more next entry args.toList mo.state.stack.words [] s with h | h
    · exact .inr (.inr (.inr ⟨_, h, by rw [Passes, hstage]; exact ⟨hplaced.function, rfl, rfl⟩⟩))
    · exact .inl h
  | left hstage =>
    rw [frames_of_stage hstage]
    exact .inr (.inl (frames_leave ..))
  | @answered _ _ active _ _ callers _ _ _ _ hstage hadvance =>
    obtain ⟨⟨locals, rfl, -⟩, -, -⟩ :=
      Context.advance_answered_keeps hadvance (List.nil_prefix (l := mo.state.stack.words)) (Nat.zero_le _)
    exact .inr (.inr (.inl ⟨active, callers.map (·.opened), locals, frames_of_stage hstage, rfl⟩))
  | @called more next active _ _ callers entry passed under waiting s hstage hadvance =>
    rw [frames_of_stage hstage]
    rcases frames_attempt cx mo more next entry passed under (⟨active, waiting⟩ :: callers) s with h | h
    · exact .inr (.inr (.inr ⟨_, h, passes_of_placed hstage hadvance⟩))
    · exact .inl h

/-- The frame at this height of the chain, the outermost at 0. -/
def frameAt? (mo : Moment β σ) (height : Nat) : Option (OpenFrame β σ) := mo.frames.reverse[height]?

theorem frameAt?_of_cons {mo : Moment β σ} {rest : List (OpenFrame β σ)} {o : OpenFrame β σ} {height : Nat}
    (h : mo.frames = o :: rest) (hlt : height < rest.length) : mo.frameAt? height = rest.reverse[height]? := by
  have hlt' : height < rest.reverse.length := by rwa [List.length_reverse]
  rw [frameAt?, h, List.reverse_cons, List.getElem?_append_left hlt']

theorem frameAt?_length {mo : Moment β σ} {rest : List (OpenFrame β σ)} {o : OpenFrame β σ}
    (h : mo.frames = o :: rest) : mo.frameAt? rest.length = some o := by
  rw [frameAt?, h, List.reverse_cons, List.getElem?_append_right (Nat.le_of_eq List.length_reverse),
    List.length_reverse, Nat.sub_self]
  rfl

theorem lt_of_frameAt? {mo : Moment β σ} {o : OpenFrame β σ} {height : Nat} (h : mo.frameAt? height = some o) :
    height < mo.frames.length := by
  rw [← List.length_reverse]
  exact (List.getElem?_eq_some_iff.1 h).1

/-- After `n` steps the frame `o` at this height has been open since a call passed it its words. -/
def OpenSince (cx : Context β σ) (f : Function β σ) (args : Array Word) (mo : Moment β σ) (n height : Nat)
    (o : OpenFrame β σ) : Prop :=
  ∃ n₀ < n, ((step cx f args)^[n₀] mo).Passes cx f args o ∧ ((step cx f args)^[n₀] mo).frames.length = height ∧
    ∀ t, n₀ < t → t ≤ n → ∃ locals, ((step cx f args)^[t] mo).frameAt? height = some (o.withLocals locals)

theorem OpenSince.succ {mo : Moment β σ} {n height : Nat} {o : OpenFrame β σ}
    (h : OpenSince cx f args mo n height o) (locals : Array Word)
    (ho : ((step cx f args)^[n + 1] mo).frameAt? height = some (o.withLocals locals)) :
    OpenSince cx f args mo (n + 1) height (o.withLocals locals) := by
  obtain ⟨n₀, hn₀, hpasses, hheight, hopen⟩ := h
  refine ⟨n₀, Nat.lt_succ_of_lt hn₀, hpasses.withLocals locals, hheight, fun t hlt hle => ?_⟩
  rcases Nat.lt_or_eq_of_le hle with hle' | rfl
  · obtain ⟨locals', h⟩ := hopen t hlt (Nat.le_of_lt_succ hle')
    exact ⟨locals', h⟩
  · exact ⟨locals, ho⟩

/-- **Every open frame of a run was opened by a call that passed it its words, and has been open since.** -/
theorem opened_since {mo : Moment β σ} (hstart : mo.frames = []) :
    ∀ (n height : Nat) (o : OpenFrame β σ), ((step cx f args)^[n] mo).frameAt? height = some o →
      OpenSince cx f args mo n height o
  | 0, height, o, ho => by
    have := lt_of_frameAt? ho
    rw [Function.iterate_zero, id, hstart] at this
    cases this
  | n + 1, height, o, ho => by
    have ih := opened_since hstart n
    have ho' := ho
    rw [Function.iterate_succ_apply'] at ho'
    have hlt := lt_of_frameAt? ho'
    -- below the innermost frame the chain is what it was before the step
    rcases frames_step cx f args ((step cx f args)^[n] mo) with
      h | h | ⟨o₁, rest, locals, h₁, h⟩ | ⟨o₁, h, hpasses⟩
    · rw [frameAt?, h] at ho'
      exact (ih height o ho').succ o.frame.locals ho
    · refine (ih height o ?_).succ o.frame.locals ho
      rw [h] at hlt
      rw [frameAt?, h] at ho'
      cases hf : ((step cx f args)^[n] mo).frames with
      | nil =>
        rw [hf] at hlt
        cases hlt
      | cons o₁ rest =>
        rw [hf, List.tail_cons] at hlt ho'
        rw [frameAt?_of_cons hf hlt]
        exact ho'
    · rw [h, List.length_cons] at hlt
      rcases Nat.lt_or_eq_of_le (Nat.le_of_lt_succ hlt) with hlt' | rfl
      · rw [frameAt?_of_cons h hlt', ← frameAt?_of_cons h₁ hlt'] at ho'
        exact (ih height o ho').succ o.frame.locals ho
      · obtain rfl := Option.some.inj (ho'.symm.trans (frameAt?_length h))
        exact (ih rest.length o₁ (frameAt?_length h₁)).succ locals ho
    · rw [h, List.length_cons] at hlt
      rcases Nat.lt_or_eq_of_le (Nat.le_of_lt_succ hlt) with hlt' | rfl
      · rw [frameAt?_of_cons h hlt'] at ho'
        exact (ih height o ho').succ o.frame.locals ho
      · obtain rfl := Option.some.inj (ho'.symm.trans (frameAt?_length h))
        refine ⟨n, Nat.lt_succ_self n, hpasses, rfl, fun t hlt hle => ?_⟩
        obtain rfl : t = n + 1 := by omega
        exact ⟨o.frame.locals, ho⟩

end Moment

/-- **Arguments stay what they were passed.**  A frame that is open at some moment of a run was opened by a call, which
passed it the words `o.passed` and left `o.under` of its caller's stack, and it has been open since.  It reads argument
`j` as the `j`-th of these words, and beyond its arity it is told so.  Where the convention keeps arguments on the stack
they are the words right below its base, also when it reads a copy from registers; a native callee that is passed its
arguments in registers only has below its base just what its caller has left.  So it is on the way to the moment that
is the last one, off which is read what `runWith` answers and leaves. -/
theorem Machine.arguments_intact {m : Machine β σ} {index : Nat} {args : Array Word} {w : World σ}
    {module : Module β σ} {f : Function β σ} (hrun : m.runnable index args.size = .ok (module, f)) {n : Nat}
    {mo : Moment β σ} (hmo : m.moment index args w n = some mo) {height : Nat} {o : OpenFrame β σ}
    (ho : mo.frameAt? height = some o) :
    (∃ n₀ < n, ∃ mo₀, m.moment index args w n₀ = some mo₀ ∧ mo₀.Passes (m.context module) f args o ∧
      mo₀.frames.length = height ∧ ∀ t, n₀ < t → t ≤ n →
        ∃ mo' locals, m.moment index args w t = some mo' ∧ mo'.frameAt? height = some (o.withLocals locals)) ∧
    o.passed.length = o.frame.arity ∧
    (∀ (j : Nat) (hj : j < o.passed.length), o.frame.arg mo.state.stack j = .ok o.passed[j]) ∧
    (∀ j, o.frame.arity ≤ j →
      o.frame.arg mo.state.stack j = .error (.argumentOutOfRange o.frame.function.name j o.frame.arity)) ∧
    (m.config.callStyle ≠ .passParameter ∨ o.frame.function.isCompiled = false →
      mo.state.stack.words.take o.frame.base = o.under ++ o.passed ∧
        (mo.state.stack.words.take o.frame.base).drop (o.frame.base - o.frame.arity) = o.passed) ∧
    (m.config.callStyle = .operandStack → o.frame.function.isCompiled = true →
      o.frame.args = .registers o.passed.toArray) ∧
    (m.config.callStyle = .passParameter → o.frame.function.isCompiled = true →
      o.frame.base = o.under.length ∧ mo.state.stack.words.take o.frame.base = o.under) ∧
    (∃ N last r, n ≤ N ∧ m.moment index args w N = some last ∧ last.stage = .ended r ∧
      m.runWith index args w = m.outcome f r last.state) := by
  have hlast := Machine.exists_last hrun w n
  have hmem : o ∈ mo.frames := List.mem_reverse.1 (List.mem_of_getElem? ho)
  obtain ⟨hsound, hbelow⟩ := (Machine.sound_moment hmo).chain.mem o hmem
  have htake : mo.state.stack.words.take o.frame.base = o.below m.config.callStyle := by
    rw [hsound.base]
    exact (List.prefix_iff_eq_take.1 hbelow).symm
  refine ⟨?_, hsound.arity, fun j hj => ?_, fun j hj => ?_, fun hkeep => ?_, fun hc hcompiled => ?_,
    fun hc hcompiled => ?_, hlast⟩
  · rw [Machine.moment_of_runnable hrun] at hmo
    obtain rfl := Option.some.inj hmo
    obtain ⟨n₀, hn₀, hpasses, hheight, hopen⟩ := Moment.opened_since rfl n height o ho
    refine ⟨n₀, hn₀, _, Machine.moment_of_runnable hrun n₀, hpasses, hheight, fun t hlt hle => ?_⟩
    obtain ⟨locals, h⟩ := hopen t hlt hle
    exact ⟨_, locals, Machine.moment_of_runnable hrun t, h⟩
  · rw [hsound.arg hbelow, List.getElem?_eq_getElem hj]
  · rw [hsound.arg hbelow, List.getElem?_eq_none (by rw [hsound.arity]; exact hj)]
  · have hon : m.config.callStyle.onStack o.frame.function = true := by
      rcases hkeep with hc | hcompiled
      · exact Convention.onStack_of_keepsStack (Convention.keepsStack_of_ne hc) _
      · exact Convention.onStack_of_not_compiled _ hcompiled
    have hwords : o.below m.config.callStyle = o.under ++ o.passed := by rw [OpenFrame.below, hon, if_pos rfl]
    refine ⟨htake.trans hwords, ?_⟩
    rw [htake, hsound.base, hwords, List.length_append, ← hsound.arity, Nat.add_sub_cancel]
    exact List.drop_left
  · rw [hsound.args, hc, Convention.inRegisters, CallTarget.isNative_resolve, hcompiled]
    rfl
  · have hwords : o.below m.config.callStyle = o.under := by
      rw [OpenFrame.below, hc, Convention.onStack_passParameter hcompiled]
      rfl
    exact ⟨by rw [hsound.base, hwords], htake.trans hwords⟩

theorem Machine.arguments_intact_difference :
    ∃ mo o, (ofPrograms .operandStack 16 samplePrograms (· == 0)).moment 1 #[9] ⟨#[], ()⟩ 7 = some mo ∧
      mo.frameAt? 1 = some o ∧ o.passed = [9, 2] ∧ o.frame.args = .registers #[9, 2] ∧
      mo.state.stack.words.take o.frame.base = o.under ++ o.passed := by
  refine ⟨_, _, rfl, rfl, rfl, rfl, ?_⟩
  obtain ⟨-, -, -, -, hkeeps, -⟩ := @arguments_intact _ _ (ofPrograms .operandStack 16 samplePrograms (· == 0)) 1 #[9]
    ⟨#[], ()⟩ _ _ rfl 7 _ rfl 1 _ rfl
  exact (hkeeps (.inl (by decide))).1

end MixedMode
