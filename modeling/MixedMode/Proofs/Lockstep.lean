import MixedMode.Proofs.Alike
import MixedMode.Proofs.Tally
/-!
# Lockstep — when the convention makes no difference

Two machines are counterparts when they differ at most in their convention and in which functions of their modules have
a native entry, while every entry runs the same program as the bytecode.  Two that keep arguments on the stack run in
lockstep, down to each word of the stack (`Machine.lockstep`).  A machine that keeps them off it runs in lockstep with
one that does not, down to what each frame can see, as long as the latter meets no stack overflow
(`Machine.lockstep_of_room`).
-/
namespace MixedMode

variable {β σ : Type}

/-! ## What can be seen of a run -/

/-- What a body can see of its frame. -/
structure FrameView (β σ : Type) where
  /-- The function that runs, but for its native entry. -/
  function : Function β σ
  arg : Nat → Except RuntimeError Word
  locals : Array Word
  /-- The words above the base of the frame, up to those that the frame above it has to give back. -/
  window : List Word

/-- What can be seen of a run without asking how arguments are passed. -/
structure RunView (β σ : Type) where
  frames : List (FrameView β σ)
  result : Option (Except RuntimeError Word)
  /-- The functions entered so far, but for their native entries, the latest first. -/
  entered : List (Function β σ)
  answers : List (Answered σ)
  kept : σ

/-- The views of the open frames, innermost first, the first of which sees the stack up to slot `top`. -/
def frameViews (stack : OperandStack) : Nat → List (OpenFrame β σ) → List (FrameView β σ)
  | _, []          => []
  | top, o :: rest =>
    ⟨o.frame.function.uncompiled, o.frame.arg stack, o.frame.locals, (stack.words.take top).drop o.frame.base⟩ ::
      frameViews stack o.floor rest

def Moment.view (m : Moment β σ) : RunView β σ :=
  ⟨frameViews m.state.stack m.state.stack.depth m.frames, m.result?, m.entries.map (·.function.uncompiled), m.answers,
    m.state.kept⟩

def Moment.bases (m : Moment β σ) : List Nat := m.frames.map (·.frame.base)

theorem ChainAlike.frameViews_eq {c c' : Convention} {ground ground' : List Word} {stack stack' : OperandStack} :
    ∀ {words words' : List Word} {chain chain' : List (OpenFrame β σ)}, ChainAlike c c' words words' chain chain' →
      Chained c ground words chain → Chained c' ground' words' chain' → words <+: stack.words →
      words' <+: stack'.words → frameViews stack' words'.length chain' = frameViews stack words.length chain
  | _, _, [], [], _, _, _, _, _ => rfl
  | words, words', o :: rest, o' :: rest', ⟨ho, ⟨window, hw, hw'⟩, hrest⟩, ⟨hsound, hbelow, hchain⟩,
      ⟨hsound', hbelow', hchain'⟩, hwords, hwords' => by
    have harg : o'.frame.arg stack' = o.frame.arg stack := by
      funext j
      have hname := Function.name_eq ho.function
      have harity : o'.frame.arity = o.frame.arity := Function.arity_eq ho.function
      rw [hsound.arg (hbelow.trans hwords), hsound'.arg (hbelow'.trans hwords'), ho.passed, hname, harity]
    have hwindow : (stack.words.take words.length).drop o.frame.base = window := by
      rw [← List.prefix_iff_eq_take.1 hwords, hsound.base, hw]
      exact List.drop_left
    have hwindow' : (stack'.words.take words'.length).drop o'.frame.base = window := by
      rw [← List.prefix_iff_eq_take.1 hwords', hsound'.base, hw']
      exact List.drop_left
    have hunder := ((o.under_prefix_below c).trans hbelow).trans hwords
    have hunder' := ((o'.under_prefix_below c').trans hbelow').trans hwords'
    rw [frameViews, frameViews, ho.function, harg, ho.locals, hwindow, hwindow', hsound.floor, hsound'.floor,
      hrest.frameViews_eq hchain hchain' hunder hunder']

theorem ChainAlike.bases_eq {c c' : Convention} {ground ground' : List Word} (hkeeps : c.keepsStack = true)
    (hkeeps' : c'.keepsStack = true) : ∀ {words words' : List Word} {chain chain' : List (OpenFrame β σ)},
      ChainAlike c c' words words' chain chain' → Chained c ground words chain → Chained c' ground' words' chain' →
      chain'.map (·.frame.base) = chain.map (·.frame.base)
  | _, _, [], [], _, _, _ => rfl
  | _, _, o :: rest, o' :: rest', ⟨ho, _, hrest⟩, ⟨hsound, _, hchain⟩, ⟨hsound', _, hchain'⟩ => by
    have hbase : o'.frame.base = o.frame.base := by
      rw [hsound.base, hsound'.base]
      exact (ho.shorter_below hkeeps (hrest.shorter hkeeps)).2 hkeeps'
    rw [List.map_cons, List.map_cons, hbase, hrest.bases_eq hkeeps hkeeps' hchain hchain']

namespace Moment

variable {bad : Op σ → Bool} {c c' : Convention} {ground : OperandStack} {m m' : Moment β σ}

theorem Alike.result_eq (h : m.Alike bad c c' m') : m'.result? = m.result? := by
  have hstages := h.stage
  rw [result?, result?]
  generalize m.stage = stage at hstages
  generalize m'.stage = stage' at hstages
  cases hstages <;> rfl

/-- **Runs that are alike look alike.** -/
theorem Alike.view_eq (h : m.Alike bad c c' m') (hm : m.Sound c ground) (hm' : m'.Sound c' ground) :
    m'.view = m.view := by
  rw [view, view, h.result_eq, h.entered, h.answers, h.kept, OperandStack.depth_eq_length, OperandStack.depth_eq_length,
    h.chain.frameViews_eq hm.chain hm'.chain List.prefix_rfl List.prefix_rfl]

theorem Alike.stack_eq (h : m.Alike bad c c' m') (hm : m.Sound c ground) (hm' : m'.Sound c' ground)
    (hkeeps : c.keepsStack = true) (hkeeps' : c'.keepsStack = true) : m'.state.stack = m.state.stack :=
  OperandStack.ext_words (h.chain.words_eq hkeeps hkeeps') (hm'.limit.trans hm.limit.symm)

theorem Alike.total_eq (h : m.Alike bad c c' m') {before before' : CallStats} (hm : m.Tallied c before)
    (hm' : m'.Tallied c' before') :
    m'.state.stats.total + before.total = m.state.stats.total + before'.total := by
  have hentries : m'.entries.length = m.entries.length := by
    have := congrArg List.length h.entered
    rwa [List.length_map, List.length_map] at this
  rw [hm.total, hm'.total, hentries]
  omega

theorem Sound.stack_of_ended (hm : m.Sound c ground) {r : Except RuntimeError Word} (hr : m.stage = .ended r) :
    m.state.stack = ground := by
  have hchain := hm.chain
  rw [frames, hr] at hchain
  exact OperandStack.ext_words hchain hm.limit

end Moment

/-! ## Two machines -/

theorem rel_imp {α β : Type} {R S : α → β → Prop} (h : ∀ a b, R a b → S a b) :
    ∀ {x : Option α} {y : Option β}, Option.Rel R x y → Option.Rel S x y
  | _, _, .none    => .none
  | _, _, .some hr => .some (h _ _ hr)

namespace Machine

variable {bad : Op σ → Bool} {m m' : Machine β σ}

/-- An operation of the run meets a stack overflow. -/
def MeetsOverflow (m : Machine β σ) (index : Nat) (args : Array Word) (w : World σ) : Prop :=
  ∃ n mo, m.moment index args w n = some mo ∧ ∃ a ∈ mo.answers, a.Overflows

/-- A run that is over has met what it ever meets. -/
theorem not_meetsOverflow_of_ended {index : Nat} {args : Array Word} {w : World σ} {n : Nat} {mo : Moment β σ}
    {r : Except RuntimeError Word} (hmo : m.moment index args w n = some mo) (hr : mo.stage = .ended r)
    (h : ∀ a ∈ mo.answers, ¬ a.Overflows) : ¬ m.MeetsOverflow index args w := by
  rintro ⟨n', mo', hmo', a, ha, hover⟩
  obtain ⟨module, f, hrun, rfl⟩ := moment_spec hmo
  rw [moment_of_runnable hrun] at hmo'
  obtain rfl := Option.some.inj hmo'
  have hlater := Moment.extends_iterate (m.context module) f args
    ((Moment.step (m.context module) f args)^[n'] (.start m.config.loopCount.toNat (m.startState f index w))) n
  rw [← Function.iterate_add_apply, Nat.add_comm, Function.iterate_add_apply, Moment.iterate_step_ended hr] at hlater
  exact h a (hlater.answers.subset ha) hover

section Alike

variable (index : Nat) (args : Array Word) (w : World σ) (h : m.Counterpart bad m')
  (hkeeps : m.config.callStyle.keepsStack = true)
  (hentry : ∀ op : Op σ, op.revealsEntry = true → bad op = true)
  (hdepth : m'.config.callStyle.keepsStack = true ∨ bad .depth = true)
  (hroom : m'.config.callStyle.keepsStack = true ∨ ¬ m.MeetsOverflow index args w)

include h hkeeps hentry hdepth hroom

/-- **The runs of counterparts are alike at every step**, as long as no operation overflows the deeper stack only. -/
theorem Counterpart.alike (n : Nat) :
    Option.Rel (fun mo' mo => mo.Alike bad m.config.callStyle m'.config.callStyle mo' ∧
        (mo.Sound m.config.callStyle m.stack ∧ mo'.Sound m'.config.callStyle m.stack) ∧
        mo.Tallied m.config.callStyle m.stats ∧ mo'.Tallied m'.config.callStyle m'.stats)
      (m'.moment index args w n) (m.moment index args w n) := by
  rcases h.runnable index args.size with ⟨e, hr, hr'⟩ | ⟨M, f, M', f', hr, hr', hM, hf⟩
  · rw [moment, moment, hr, hr']
    exact .none
  · have hmo := moment_of_runnable (w := w) hr
    have hmo' := moment_of_runnable (w := w) hr'
    obtain ⟨hmodule, hindex, hargs⟩ := runnable_spec hr
    obtain ⟨hmodule', hindex', -⟩ := runnable_spec hr'
    have hcx := h.context hkeeps hentry hdepth hmodule hmodule' hM
    have hstart : (Moment.start m.config.loopCount.toNat (m.startState f index w) : Moment β σ).Alike bad
        (m.context M).convention (m'.context M').convention
        (Moment.start m'.config.loopCount.toNat (m'.startState f' index w)) := by
      rw [h.loopCount]
      exact Moment.alike_start _ (congrArg OperandStack.words h.stack.symm) rfl
    have hsound : (Moment.start m.config.loopCount.toNat (m.startState f index w) : Moment β σ).Sound
        (m.context M).convention m.stack := Moment.sound_start _ _ (s := m.startState f index w) rfl
    have hsound' : (Moment.start m'.config.loopCount.toNat (m'.startState f' index w) : Moment β σ).Sound
        (m'.context M').convention m.stack := by
      rw [h.stack]
      exact Moment.sound_start _ _ (s := m'.startState f' index w) rfl
    have hargs' : args.size = f'.arity := hargs.trans (Function.arity_eq hf)
    have hroom' : m'.config.callStyle.keepsStack = true ∨ ∀ n, ∀ a ∈ ((Moment.step (m.context M) f args)^[n]
        (Moment.start m.config.loopCount.toNat (m.startState f index w))).answers, ¬ a.Overflows :=
      hroom.imp_right fun hno n a ha hover => hno ⟨n, _, hmo n, a, ha, hover⟩
    rw [hmo, hmo']
    refine .some ⟨?_, ⟨Moment.sound_iterate hsound hargs n, Moment.sound_iterate hsound' hargs' n⟩,
      tallied_moment (hmo n), tallied_moment (hmo' n)⟩
    exact hstart.iterate hcx hsound hsound' (Module.mem_of_function? hindex) (Module.mem_of_function? hindex') hf hargs
      hroom' n

/-- **Counterparts answer the same and leave the same.** -/
theorem Counterpart.runWith_eq :
    (m'.runWith index args w).1 = (m.runWith index args w).1 ∧
    (m'.runWith index args w).2.1.stack = (m.runWith index args w).2.1.stack ∧
    (m'.runWith index args w).2.2.kept = (m.runWith index args w).2.2.kept ∧
    (m'.runWith index args w).2.1.stats.total + m.stats.total =
      (m.runWith index args w).2.1.stats.total + m'.stats.total := by
  rcases h.runnable index args.size with ⟨e, hr, hr'⟩ | ⟨M, f, M', f', hr, hr', hM, hf⟩
  · simp only [runWith, hr, hr']
    exact ⟨trivial, h.stack.symm, trivial, Nat.add_comm _ _⟩
  · obtain ⟨n, mo, r, hmo, hended⟩ := exists_moment_ended w hr
    have halike := h.alike index args w hkeeps hentry hdepth hroom n
    rw [hmo] at halike
    generalize hmo' : m'.moment index args w n = found at halike
    cases halike with
    | some halike =>
      rename_i mo'
      obtain ⟨halike, ⟨hsound, hsound'⟩, htallied, htallied'⟩ := halike
      have hended' : mo'.stage = .ended r := by
        have hstages := halike.stage
        rw [hended] at hstages
        generalize mo'.stage = stage at hstages
        cases hstages
        rfl
      rw [runWith_of_ended hr hmo hended, runWith_of_ended hr' hmo' hended', outcome_machine, outcome_machine]
      refine ⟨?_, ?_, ?_, ?_⟩
      · rw [outcome_fst, outcome_fst, Function.name_eq hf]
      · exact (hsound'.stack_of_ended hended').trans (hsound.stack_of_ended hended).symm
      · rw [outcome_kept, outcome_kept, halike.kept]
      · exact halike.total_eq htallied htallied'

end Alike

/-- **Conventions that keep arguments on the stack run in lockstep.**  Let every native entry run the same program as
the bytecode of its function, and let no body ask about conventions or about what is compiled.  Then it makes no
difference which of these conventions a machine has, nor which functions of its module are compiled: runs have the same
outcome, the same error included, and after any number of steps they have entered the same functions in the same order,
got the same answers, and have the same stack and the same frames. -/
theorem lockstep (h : m.Counterpart Op.revealsEntry m') (hstyle : m.config.callStyle ≠ .passParameter)
    (hstyle' : m'.config.callStyle ≠ .passParameter) (index : Nat) (args : Array Word) (w : World σ) :
    (m'.runWith index args w).1 = (m.runWith index args w).1 ∧
    (m'.runWith index args w).2.1.stack = (m.runWith index args w).2.1.stack ∧
    (m'.runWith index args w).2.2.kept = (m.runWith index args w).2.2.kept ∧
    (m'.runWith index args w).2.1.stats.total + m.stats.total =
      (m.runWith index args w).2.1.stats.total + m'.stats.total ∧
    ∀ n, Option.Rel (fun mo' mo => mo'.view = mo.view ∧ mo'.state.stack = mo.state.stack ∧ mo'.bases = mo.bases ∧
        mo'.state.stats.total + m.stats.total = mo.state.stats.total + m'.stats.total)
      (m'.moment index args w n) (m.moment index args w n) := by
  have hkeeps := Convention.keepsStack_of_ne hstyle
  have hkeeps' := Convention.keepsStack_of_ne hstyle'
  obtain ⟨hanswer, hstack, hkept, htotal⟩ :=
    h.runWith_eq index args w hkeeps (fun _ hop => hop) (.inl hkeeps') (.inl hkeeps')
  refine ⟨hanswer, hstack, hkept, htotal, fun n => ?_⟩
  refine rel_imp ?_ (h.alike index args w hkeeps (fun _ hop => hop) (.inl hkeeps') (.inl hkeeps') n)
  rintro mo' mo ⟨halike, ⟨hsound, hsound'⟩, htallied, htallied'⟩
  exact ⟨halike.view_eq hsound hsound', halike.stack_eq hsound hsound' hkeeps hkeeps',
    halike.chain.bases_eq hkeeps hkeeps' hsound.chain hsound'.chain, halike.total_eq htallied htallied'⟩

theorem lockstep_differences :
    ((ofPrograms .operandStack 16 samplePrograms (· == 0)).runWith 1 #[9] ⟨#[], ()⟩).1 =
      ((ofPrograms .interpreter 16 samplePrograms fun _ => false).runWith 1 #[9] ⟨#[], ()⟩).1 ∧
    ((ofPrograms .interpreter 16 samplePrograms fun _ => false).runWith 1 #[9] ⟨#[], ()⟩).1.toOption = some 6 := by
  have havoids : ∀ p ∈ samplePrograms, p.2.Avoids Op.revealsEntry :=
    fun p hp => (samplePrograms_avoid p hp).mono Op.revealsPlacement_of_revealsEntry
  have h := counterpart_ofPrograms havoids .interpreter .operandStack 16 (fun _ => false) (· == 0)
  exact ⟨(lockstep h (by decide) (by decide) 1 #[9] ⟨#[], ()⟩).1, by decide +kernel⟩

/-- **Nor does it make a difference that arguments are kept off the stack**, to bodies that do not ask how deep it is, as
long as the machine that keeps them on it meets no stack overflow.  Then the other machine, whatever its convention,
meets none either; runs have the same outcome, the same error included, and after any number of steps they have entered
the same functions in the same order and got the same answers, every frame sees the same arguments, locals and words
above its base, and the other stack is not the deeper one. -/
theorem lockstep_of_room (h : m.Counterpart Op.revealsPlacement m') (hstyle : m.config.callStyle ≠ .passParameter)
    (index : Nat) (args : Array Word) (w : World σ) (hroom : ¬ m.MeetsOverflow index args w) :
    ¬ m'.MeetsOverflow index args w ∧
    (m'.runWith index args w).1 = (m.runWith index args w).1 ∧
    (m'.runWith index args w).2.1.stack = (m.runWith index args w).2.1.stack ∧
    (m'.runWith index args w).2.2.kept = (m.runWith index args w).2.2.kept ∧
    (m'.runWith index args w).2.1.stats.total + m.stats.total =
      (m.runWith index args w).2.1.stats.total + m'.stats.total ∧
    ∀ n, Option.Rel (fun mo' mo => mo'.view = mo.view ∧ mo'.state.stack.depth ≤ mo.state.stack.depth ∧
        mo'.state.stats.total + m.stats.total = mo.state.stats.total + m'.stats.total)
      (m'.moment index args w n) (m.moment index args w n) := by
  have hkeeps := Convention.keepsStack_of_ne hstyle
  have halikes := h.alike index args w hkeeps Op.revealsPlacement_of_revealsEntry (.inr rfl) (.inr hroom)
  refine ⟨?_, ?_⟩
  · rintro ⟨n, mo', hmo', a, ha, hover⟩
    have halike := halikes n
    rw [hmo'] at halike
    generalize hmo : m.moment index args w n = found at halike
    cases halike with
    | some halike =>
      refine hroom ⟨n, _, hmo, a, ?_, hover⟩
      rw [← halike.1.answers]
      exact ha
  · obtain ⟨hanswer, hstack, hkept, htotal⟩ :=
      h.runWith_eq index args w hkeeps Op.revealsPlacement_of_revealsEntry (.inr rfl) (.inr hroom)
    refine ⟨hanswer, hstack, hkept, htotal, fun n => ?_⟩
    refine rel_imp ?_ (halikes n)
    rintro mo' mo ⟨halike, ⟨hsound, hsound'⟩, htallied, htallied'⟩
    exact ⟨halike.view_eq hsound hsound', (halike.chain.shorter hkeeps).1, halike.total_eq htallied htallied'⟩

theorem lockstep_of_room_differences :
    ¬ (ofPrograms .operandStack 16 samplePrograms (· == 0)).MeetsOverflow 1 #[9] ⟨#[], ()⟩ ∧
    ((ofPrograms .passParameter 16 samplePrograms fun _ => true).runWith 1 #[9] ⟨#[], ()⟩).1 =
      ((ofPrograms .operandStack 16 samplePrograms (· == 0)).runWith 1 #[9] ⟨#[], ()⟩).1 := by
  have hroom : ¬ (ofPrograms .operandStack 16 samplePrograms (· == 0)).MeetsOverflow 1 #[9] ⟨#[], ()⟩ :=
    not_meetsOverflow_of_ended (n := 15) rfl rfl (by decide +kernel)
  have h := counterpart_ofPrograms samplePrograms_avoid .operandStack .passParameter 16 (· == 0) fun _ => true
  exact ⟨hroom, (lockstep_of_room h (by decide) 1 #[9] ⟨#[], ()⟩ hroom).2.1⟩

end Machine
end MixedMode
