import MixedMode.Proofs.Accounting
import MixedMode.Proofs.Invocations
import MixedMode.Proofs.Twin
/-!
# Nesting — the counter of the bodies that are open

The nesting counter is part of the state: one more when a body is entered, one less when it is left, and nothing else
moves it.  At every moment of a run it is the number of bodies entered and not left, never above its limit
(`Moment.nesting_step_balance`, `Moment.nesting_step_le`).  A frame that calls is below every frame that opens until its
call is answered, and then it is the innermost again with the same frames under it (`Moment.exists_answer`), so the
counter stands where it stood before the call.  So it is after each operation of a body, whatever they came to
(`Moment.exists_after`), and no level is ever used up or freed (`Machine.nesting_is_exact`).
-/
namespace MixedMode

variable {β σ : Type}

namespace Moment

/-- The next step leaves a body. -/
def leaves (m : Moment β σ) : Bool :=
  match m.stage with
  | .inside _ _ _ (.done _) _ => true
  | _                         => false

variable {cx : Context β σ} {f : Function β σ} {args : Array Word} {m : Moment β σ}

/-! ## Entered, left, open -/

/-- **A step that enters a body moves the counter up, one that leaves a body moves it down, and no other does.** -/
theorem nesting_step_balance (cx : Context β σ) (f : Function β σ) (args : Array Word)
    (h : m.state.nesting = m.frames.length) :
    (m.step cx f args).entries.length + m.state.nesting =
      m.entries.length + (m.step cx f args).state.nesting + m.leaves.toNat := by
  have hattempt : ∀ (more next : Nat) (entry : Entry β σ) (passed under : List Word) (callers : List (Caller β σ))
      (s : CallState σ), s.nesting = m.state.nesting →
      (m.attempt cx more next entry passed under callers s).entries.length + m.state.nesting =
        m.entries.length + (m.attempt cx more next entry passed under callers s).state.nesting := by
    intro more next entry passed under callers s hs
    rcases Nat.lt_or_ge s.nesting cx.maxDepth with hlevels | hlevels
    · rw [attempt_of_lt hlevels, CallState.nesting_entered, hs, List.length_cons]
      omega
    · rw [attempt_of_le hlevels, entries_leave, nesting_leave, hs]
  have hstep := stepped cx f args m
  generalize m.step cx f args = m' at hstep ⊢
  cases hstep with
  | ended hstage =>
    rw [leaves, hstage]
    rfl
  | finished hstage | refused hstage =>
    rw [leaves, hstage]
    rfl
  | invoked hstage _ hplaced =>
    have hleaves : m.leaves = false := by rw [leaves, hstage]
    rw [hleaves]
    exact hattempt _ _ _ _ _ _ _ hplaced.nesting
  | left hstage =>
    have hleaves : m.leaves = true := by rw [leaves, hstage]
    have hpositive : m.state.nesting = m.state.shallower.nesting + 1 := by
      rw [length_frames_of_stage hstage] at h
      rw [CallState.shallower, h]
      rfl
    rw [hleaves, entries_leave, nesting_leave, hpositive]
    rfl
  | answered hstage hadvance =>
    have hleaves : m.leaves = false := by rw [leaves, hstage]
    rw [hleaves, Context.rest_of_answered hadvance]
    rfl
  | called hstage hadvance =>
    have hleaves : m.leaves = false := by rw [leaves, hstage]
    rw [hleaves]
    exact hattempt _ _ _ _ _ _ _ (by rw [Context.rest_of_placed hadvance])

/-- **The counter never passes its limit.** -/
theorem nesting_step_le (h : m.state.nesting ≤ cx.maxDepth) : (m.step cx f args).state.nesting ≤ cx.maxDepth := by
  have hattempt : ∀ (more next : Nat) (entry : Entry β σ) (passed under : List Word) (callers : List (Caller β σ))
      (s : CallState σ), s.nesting = m.state.nesting →
      (m.attempt cx more next entry passed under callers s).state.nesting ≤ cx.maxDepth := by
    intro more next entry passed under callers s hs
    rcases Nat.lt_or_ge s.nesting cx.maxDepth with hlevels | hlevels
    · rw [attempt_of_lt hlevels, CallState.nesting_entered]
      exact hlevels
    · rw [attempt_of_le hlevels, nesting_leave, hs]
      exact h
  have hstep := stepped cx f args m
  generalize m.step cx f args = m' at hstep ⊢
  cases hstep with
  | ended | finished | refused => exact h
  | invoked _ _ hplaced => exact hattempt _ _ _ _ _ _ _ hplaced.nesting
  | left =>
    rw [nesting_leave]
    exact Nat.le_trans (Nat.sub_le _ 1) h
  | answered _ hadvance =>
    rw [Context.rest_of_answered hadvance]
    exact h
  | called _ hadvance => exact hattempt _ _ _ _ _ _ _ (by rw [Context.rest_of_placed hadvance])

/-! ## What becomes of a call that has its arguments in place -/

theorem rest_fromOutside {c : Convention} {s s' : CallState σ} {entry : Entry β σ}
    (h : Entry.fromOutside c f args s = (.ok entry, s')) : s' = { s with stack := s'.stack } := by
  rcases Entry.placed_fromOutside c f args s with ⟨entry', t, he, hplaced, -⟩ | ⟨he, -⟩
  · obtain ⟨-, rfl⟩ := Prod.mk.inj (h.symm.trans he)
    exact hplaced.rest
  · cases h.symm.trans he

/-- What the next moment is where a call, from a frame or from outside, has its arguments in place: the callee is
entered and the counter moves up when it is below its limit, and otherwise the call fails and nothing is entered or
counted. -/
structure Nested (cx : Context β σ) (f : Function β σ) (args : Array Word) (m m' : Moment β σ) : Prop where
  entered : ∀ {more next active op k callers entry passed under waiting s},
    m.stage = .inside more next active (.step op k) callers →
    cx.advance active.frame m.state op k = .placed entry passed under waiting s → m.state.nesting < cx.maxDepth →
      m'.stage = .inside more next ⟨entry.frame s.stack.depth, entry.floor, passed, under⟩
        (cx.bodyOf entry.function entry.target) (⟨active, waiting⟩ :: callers) ∧
      m'.entries = entry :: m.entries ∧ m'.answers = m.answers ∧ m'.state.nesting = m.state.nesting + 1
  refused : ∀ {more next active op k callers entry passed under waiting s},
    m.stage = .inside more next active (.step op k) callers →
    cx.advance active.frame m.state op k = .placed entry passed under waiting s → cx.maxDepth ≤ m.state.nesting →
      ∃ answer, (⟨op, answer⟩ : Answered σ).refusal? = some (.recursionLimit cx.maxDepth) ∧
        m'.stage = .inside more next active (k answer) callers ∧ m'.answers = ⟨op, answer⟩ :: m.answers ∧
        m'.entries = m.entries ∧ m'.state = { m.state with stack := m'.state.stack }
  enteredOutside : ∀ {more next last entry s}, m.stage = .between (more + 1) next last →
    Entry.fromOutside cx.convention f args m.state = (.ok entry, s) → m.state.nesting < cx.maxDepth →
      m'.stage = .inside more next ⟨entry.frame s.stack.depth, entry.floor, args.toList, m.state.stack.words⟩
        (cx.bodyOf entry.function entry.target) [] ∧
      m'.entries = entry :: m.entries ∧ m'.answers = m.answers ∧ m'.state.nesting = m.state.nesting + 1
  refusedOutside : ∀ {more next last entry s}, m.stage = .between (more + 1) next last →
    Entry.fromOutside cx.convention f args m.state = (.ok entry, s) → cx.maxDepth ≤ m.state.nesting →
      m'.stage = .ended (.error (.recursionLimit cx.maxDepth)) ∧ m'.entries = m.entries ∧
        m'.state = { m.state with stack := m'.state.stack }

theorem nested_step (cx : Context β σ) (f : Function β σ) (args : Array Word) (m : Moment β σ) :
    m.Nested cx f args (m.step cx f args) where
  entered := by
    intro more next active op k callers entry passed under waiting s hstage ha hlevels
    have hs : s.nesting = m.state.nesting := by rw [Context.rest_of_placed ha]
    rw [step_placed hstage ha, attempt_of_lt (hs ▸ hlevels)]
    exact ⟨rfl, rfl, rfl, (s.nesting_entered ..).trans (congrArg (· + 1) hs)⟩
  refused := by
    intro more next active op k callers entry passed under waiting s hstage ha hlevels
    have hrest : s = { m.state with stack := s.stack } := Context.rest_of_placed ha
    have hs : s.nesting = m.state.nesting := by rw [hrest]
    obtain ⟨answer, hanswer, hnext⟩ :=
      Context.advance_placed ha (.error (.recursionLimit cx.maxDepth)) (s.truncate entry.floor)
    rw [step_placed hstage ha, attempt_of_le (hs ▸ hlevels)]
    refine ⟨answer, ?_, ?_, ?_, rfl, ?_⟩
    · rw [← hanswer, waiting.refusal?_resume_error]
    · exact congrArg (Stage.inside more next active · callers) hnext
    · exact congrArg (· :: m.answers) hanswer
    · rw [leave, hrest]
      cases waiting <;> rfl
  enteredOutside := by
    intro more next last entry s hstage hp hlevels
    have hs : s.nesting = m.state.nesting := by rw [rest_fromOutside hp]
    rw [step_between_ok hstage hp, attempt_of_lt (hs ▸ hlevels)]
    exact ⟨rfl, rfl, rfl, (s.nesting_entered ..).trans (congrArg (· + 1) hs)⟩
  refusedOutside := by
    intro more next last entry s hstage hp hlevels
    have hrest : s = { m.state with stack := s.stack } := rest_fromOutside hp
    have hs : s.nesting = m.state.nesting := by rw [hrest]
    rw [step_between_ok hstage hp, attempt_of_le (hs ▸ hlevels)]
    refine ⟨rfl, rfl, ?_⟩
    rw [leave, hrest]
    rfl

/-! ## Back from a call -/

/-- The caller `c` waits under the innermost frame, in invocation `next`, with `callers` under it. -/
def Above (more next : Nat) (c : Caller β σ) (callers : List (Caller β σ)) (m : Moment β σ) : Prop :=
  ∃ top body above, m.stage = .inside more next top body (above ++ c :: callers)

variable {more next : Nat} {c : Caller β σ} {callers : List (Caller β σ)}

theorem Above.lt_length_frames (h : m.Above more next c callers) : callers.length + 1 < m.frames.length := by
  obtain ⟨top, body, above, hstage⟩ := h
  rw [length_frames_of_stage hstage, List.length_append, List.length_cons]
  omega

/-- A caller that waits goes on waiting, or the frame right above it is left and it goes on. -/
theorem Above.step (cx : Context β σ) (f : Function β σ) (args : Array Word) (h : m.Above more next c callers) :
    (m.step cx f args).Above more next c callers ∨
    (∃ r s, (m.step cx f args).stage = .inside more next c.opened (c.waiting.resume r s).2.1 callers ∧
      (m.step cx f args).answers = (c.waiting.resume r s).1 :: m.answers) := by
  obtain ⟨top, body, above, hstage⟩ := h
  cases body with
  | done r =>
    rw [step_done hstage]
    cases above with
    | nil => exact .inr ⟨r, _, rfl, rfl⟩
    | cons c' above => exact .inl ⟨c'.opened, _, above, rfl⟩
  | step op k =>
    cases ha : cx.advance top.frame m.state op k with
    | answered a body frame s =>
      rw [step_answered hstage ha]
      exact .inl ⟨_, body, above, rfl⟩
    | placed entry passed under waiting s =>
      rw [step_placed hstage ha, attempt]
      split
      · exact .inl ⟨_, _, ⟨top, waiting⟩ :: above, rfl⟩
      · exact .inl ⟨top, _, above, rfl⟩

/-- **A caller that waits goes on**, in a run that comes to its end; until then there are frames above it. -/
theorem Above.exists_return : ∀ (N : Nat) {m : Moment β σ} {r : Except RuntimeError Word},
    m.Above more next c callers → ((Moment.step cx f args)^[N] m).stage = .ended r →
    ∃ j r s older, ((Moment.step cx f args)^[j + 1] m).stage =
        .inside more next c.opened (c.waiting.resume r s).2.1 callers ∧
      ((Moment.step cx f args)^[j + 1] m).answers = (c.waiting.resume r s).1 :: older ∧
      ∀ t ≤ j, ((Moment.step cx f args)^[t] m).Above more next c callers
  | 0, m, r, ⟨top, body, above, hstage⟩, hended => by
    cases hstage.symm.trans hended
  | N + 1, m, r, h, hended => by
    -- by the steps left: the run cannot end while a caller waits
    rcases h.step cx f args with habove | ⟨r', s, hstage, hanswers⟩
    · obtain ⟨j, r', s, older, hstage, hanswers, hwaits⟩ := habove.exists_return N hended
      refine ⟨j + 1, r', s, older, hstage, hanswers, fun t ht => ?_⟩
      cases t with
      | zero => exact h
      | succ t => exact hwaits t (Nat.le_of_succ_le_succ ht)
    · refine ⟨0, r', s, m.answers, hstage, hanswers, fun t ht => ?_⟩
      obtain rfl := Nat.le_zero.1 ht
      exact h

/-- The run that goes on from here comes to its end. -/
def Ends (cx : Context β σ) (f : Function β σ) (args : Array Word) (m : Moment β σ) : Prop :=
  ∃ N r, ((Moment.step cx f args)^[N] m).stage = .ended r

theorem Ends.iterate (h : m.Ends cx f args) (n : Nat) : ((Moment.step cx f args)^[n] m).Ends cx f args := by
  obtain ⟨N, r, hended⟩ := h
  refine ⟨N, r, ?_⟩
  rw [← Function.iterate_add_apply, Nat.add_comm, Function.iterate_add_apply, iterate_step_ended hended, hended]

variable {active : OpenFrame β σ}

/-- **Each operation of a body is answered**, and then the frame is the innermost again, with the same frames under it;
until then there are frames above it. -/
theorem exists_answer (hends : m.Ends cx f args) {op : Op σ} {k : op.Answer → Body σ}
    (hstage : m.stage = .inside more next active (.step op k) callers) :
    ∃ j answer locals older,
      ((Moment.step cx f args)^[j + 1] m).stage = .inside more next (active.withLocals locals) (k answer) callers ∧
      ((Moment.step cx f args)^[j + 1] m).answers = ⟨op, answer⟩ :: older ∧
      ∀ t, 0 < t → t ≤ j → callers.length + 1 < ((Moment.step cx f args)^[t] m).frames.length := by
  cases ha : cx.advance active.frame m.state op k with
  | answered a body frame s =>
    obtain ⟨answer, rfl, rfl⟩ := Context.advance_answered ha
    obtain ⟨⟨locals, rfl, -⟩, -, -⟩ :=
      Context.advance_answered_keeps ha (List.nil_prefix (l := m.state.stack.words)) (Nat.zero_le _)
    have hstep : (Moment.step cx f args)^[0 + 1] m = _ := step_answered hstage ha
    exact ⟨0, answer, locals, m.answers, congrArg stage hstep, congrArg answers hstep, fun t ht ht' => by omega⟩
  | placed entry passed under waiting s =>
    have hresume := Context.advance_placed ha
    by_cases hlevels : m.state.nesting < cx.maxDepth
    · obtain ⟨hentered, -, -⟩ := (nested_step cx f args m).entered hstage ha hlevels
      have habove : (m.step cx f args).Above more next ⟨active, waiting⟩ callers := ⟨_, _, [], hentered⟩
      obtain ⟨N, r, hended⟩ := hends.iterate 1
      obtain ⟨j, r', s', older, hstage', hanswers, hwaits⟩ := habove.exists_return N hended
      obtain ⟨answer, hanswer, hnext⟩ := hresume r' s'
      rw [hnext] at hstage'
      rw [hanswer] at hanswers
      refine ⟨j + 1, answer, active.frame.locals, older, hstage', hanswers, fun t ht ht' => ?_⟩
      obtain ⟨t, rfl⟩ := Nat.exists_eq_succ_of_ne_zero (Nat.ne_of_gt ht)
      exact (hwaits t (Nat.le_of_succ_le_succ ht')).lt_length_frames
    · obtain ⟨answer, -, hstage', hanswers, -⟩ := (nested_step cx f args m).refused hstage ha (Nat.le_of_not_lt hlevels)
      exact ⟨0, answer, active.frame.locals, m.answers, hstage', hanswers, fun t ht ht' => by omega⟩

end Moment

/-- So many operations of a body were answered, and this is what is left of it. -/
inductive Program.After {α : Type} : Nat → Program σ α → Program σ α → Prop
  | none (p : Program σ α) : After 0 p p
  | answered {count : Nat} {op : Op σ} {k : op.Answer → Program σ α} {answer : op.Answer} {p : Program σ α}
      (h : After count (k answer) p) : After (count + 1) (.step op k) p

namespace Moment

variable {cx : Context β σ} {f : Function β σ} {args : Array Word}

/-- **After any number of operations of a body, whatever they came to, the same frames are open**, unless it has come to
its end after fewer. -/
theorem exists_after {more next : Nat} {callers : List (Caller β σ)} : ∀ (count : Nat) {m : Moment β σ}
    {active : OpenFrame β σ} {body : Body σ}, m.Ends cx f args → m.stage = .inside more next active body callers →
    ∃ j locals rest done, done ≤ count ∧ body.After done rest ∧ (done = count ∨ ∃ r, rest = .done r) ∧
      ((Moment.step cx f args)^[j] m).stage = .inside more next (active.withLocals locals) rest callers ∧
      ∀ t ≤ j, callers.length + 1 ≤ ((Moment.step cx f args)^[t] m).frames.length
  | 0, m, active, body, _, hstage => by
    refine ⟨0, active.frame.locals, body, 0, Nat.le_refl 0, .none body, .inl rfl, hstage, fun t ht => ?_⟩
    obtain rfl := Nat.le_zero.1 ht
    exact Nat.le_of_eq (length_frames_of_stage hstage).symm
  | count + 1, m, active, .done r, _, hstage => by
    refine ⟨0, active.frame.locals, .done r, 0, Nat.zero_le _, .none _, .inr ⟨r, rfl⟩, hstage, fun t ht => ?_⟩
    obtain rfl := Nat.le_zero.1 ht
    exact Nat.le_of_eq (length_frames_of_stage hstage).symm
  | count + 1, m, active, .step op k, hends, hstage => by
    obtain ⟨j, answer, locals, older, hstage', -, habove⟩ := exists_answer hends hstage
    obtain ⟨j', locals', rest, done, hle, hafter, hdone, hstage'', hopen⟩ :=
      exists_after count (hends.iterate (j + 1)) hstage'
    refine ⟨j' + (j + 1), locals', rest, done + 1, Nat.succ_le_succ hle, .answered hafter, ?_, ?_, fun t ht => ?_⟩
    · exact hdone.imp_left fun h => by rw [h]
    · rw [Function.iterate_add_apply]
      exact hstage''
    · rcases Nat.lt_or_ge j t with hlt | hge
      · obtain ⟨t', rfl⟩ := Nat.exists_eq_add_of_le' hlt
        rw [Function.iterate_add_apply]
        exact hopen t' (by omega)
      · cases t with
        | zero => exact Nat.le_of_eq (length_frames_of_stage hstage).symm
        | succ t => exact Nat.le_of_lt (habove _ (Nat.succ_pos t) hge)

end Moment

namespace Machine

variable {m : Machine β σ} {index : Nat} {args : Array Word} {w : World σ} {module : Module β σ} {f : Function β σ}

/-- How many bodies have been left in the first `n` steps of a run. -/
def left (m : Machine β σ) (index : Nat) (args : Array Word) (w : World σ) (n : Nat) : Nat :=
  m.happened index args w Moment.leaves n

theorem nesting_eq_length_frames {n : Nat} {mo : Moment β σ} (h : m.moment index args w n = some mo) :
    mo.state.nesting = mo.frames.length :=
  (sound_moment h).nesting

theorem nesting_of_stage {n more next : Nat} {mo : Moment β σ} {active : OpenFrame β σ} {body : Body σ}
    {callers : List (Caller β σ)} (h : m.moment index args w n = some mo)
    (hstage : mo.stage = .inside more next active body callers) : mo.state.nesting = callers.length + 1 :=
  (nesting_eq_length_frames h).trans (Moment.length_frames_of_stage hstage)

/-- **At every moment of a run the counter is the number of bodies entered and not left**, and within its limit. -/
theorem nesting_moment (hrun : m.runnable index args.size = .ok (module, f)) (w : World σ) : ∀ n : Nat,
    ∃ mo, m.moment index args w n = some mo ∧ mo.entries.length = m.left index args w n + mo.state.nesting ∧
      mo.state.nesting ≤ (m.context module).maxDepth
  | 0     => ⟨_, moment_of_runnable hrun 0, rfl, Nat.zero_le _⟩
  | n + 1 => by
    obtain ⟨mo, hmo, hbalance, hle⟩ := nesting_moment hrun w n
    refine ⟨_, moment_add hrun hmo 1, ?_, Moment.nesting_step_le hle⟩
    have hstep := Moment.nesting_step_balance (m.context module) f args (nesting_eq_length_frames hmo)
    have hleft : m.left index args w (n + 1) = m.left index args w n + mo.leaves.toNat := happened_succ hmo _
    rw [Function.iterate_one, hleft]
    omega

theorem ends_moment (hrun : m.runnable index args.size = .ok (module, f)) {n : Nat} {mo : Moment β σ}
    (hmo : m.moment index args w n = some mo) : mo.Ends (m.context module) f args := by
  obtain ⟨N, mo', r, hmo', hended⟩ := exists_moment_ended w hrun
  rw [moment_of_runnable hrun] at hmo hmo'
  have hends : (Moment.start m.config.loopCount.toNat (m.startState f index w)).Ends (m.context module) f args :=
    ⟨N, r, by rw [Option.some.inj hmo', hended]⟩
  rw [← Option.some.inj hmo]
  exact hends.iterate n

/-- What is left of the invocation under way is what the open bodies come to. -/
theorem exists_conclude (hrun : m.runnable index args.size = .ok (module, f)) {n : Nat} {mo : Moment β σ}
    (hmo : m.moment index args w n = some mo) {more next : Nat} {active : OpenFrame β σ} {body : Body σ}
    {callers : List (Caller β σ)} (hstage : mo.stage = .inside more next active body callers) :
    ∃ s, (m.context module).conclude callers active body mo.state = (m.context module).invoke f args s := by
  obtain ⟨mo', hmo', hcourse⟩ := course_moment hrun w n
  obtain rfl := Option.some.inj (hmo.symm.trans hmo')
  generalize m.begun index args w n = begun at hcourse
  cases hcourse with
  | @inside _ _ s _ _ _ hstage' _ _ hconclude =>
    rw [hstage] at hstage'
    cases hstage'
    exact ⟨s, hconclude⟩
  | between hstage' | returned hstage' | failed hstage' => cases hstage.symm.trans hstage'

end Machine

/-! ## A chain of calls -/

/-- Call the function that runs, without arguments. -/
def Program.selfCall : Body Unit := .step (.callWith 0 #[]) .done

/-- A machine that has loaded a function that calls itself. -/
def Machine.selfCalling (config : MachineConfig) (compiled : Bool) : Machine (Body Unit) Unit :=
  { ofPrograms config.callStyle config.limits.maxStackSize.toNat #[(⟨"self", 0, 0⟩, .selfCall)] fun _ => compiled with
    config }

namespace Machine

variable {config : MachineConfig} {compiled : Bool}

/-- **As long as the counter is below its limit, a function that calls itself is entered once more.** -/
theorem selfCalling_frames (hloop : config.loopCount ≠ 0) (w : World Unit) : ∀ k : Nat,
    k < config.limits.maxRecursionDepth.toNat →
    ∃ mo more next active callers, (selfCalling config compiled).moment 0 #[] w (k + 1) = some mo ∧
      mo.stage = .inside more next active .selfCall callers ∧ callers.length = k := by
  intro k
  obtain ⟨M, f, hrun, hindex, hbodies⟩ : ∃ M f,
      (selfCalling config compiled).runnable 0 (#[] : Array Word).size = .ok (M, f) ∧
      M.function? 0 = some f ∧ M.EachBody .ofPrograms (· = .selfCall) :=
    ⟨_, _, rfl, rfl, Module.eachBody_ofPrograms (by simp)⟩
  have hbodies : ((selfCalling config compiled).context M).module.EachBody
      ((selfCalling config compiled).context M).interpreter (· = .selfCall) := hbodies
  have harity : (#[] : Array Word).size = f.arity := (runnable_spec hrun).2.2
  have hmem : f ∈ ((selfCalling config compiled).context M).module.functions := Module.mem_of_function? hindex
  induction k with
  | zero =>
    intro hlevels
    obtain ⟨more, hmore⟩ := Nat.exists_eq_succ_of_ne_zero fun h => hloop (UInt64.toNat_inj.1 h)
    have hstart := moment_of_runnable (w := w) hrun 0
    have hstage : (Moment.start config.loopCount.toNat ((selfCalling config compiled).startState f 0 w) :
        Moment (Body Unit) Unit).stage = .between (more + 1) 0 0 := by
      rw [hmore]
      rfl
    rcases Entry.placed_fromOutside config.callStyle f #[] ((selfCalling config compiled).startState f 0 w) with
      ⟨entry, s, he, hp, -⟩ | ⟨-, hfull⟩
    · obtain ⟨hstage', -, -⟩ :=
        (Moment.nested_step ((selfCalling config compiled).context M) f #[] _).enteredOutside hstage he hlevels
      rw [hp.target, hp.function, hbodies.bodyOf hmem] at hstage'
      exact ⟨_, _, _, _, _, moment_add hrun hstart 1, hstage', rfl⟩
    · exact absurd hfull (Nat.not_lt_of_le (OperandStack.depth_le _))
  | succ k ih =>
    intro hlevels
    obtain ⟨mo, more, next, active, callers, hmo, hstage, hcallers⟩ := ih (Nat.lt_of_succ_lt hlevels)
    have hnesting : mo.state.nesting < ((selfCalling config compiled).context M).maxDepth := by
      rw [nesting_of_stage hmo hstage, hcallers]
      exact hlevels
    rcases Frame.placeCallWith_cases ((selfCalling config compiled).context M) 0 #[] mo.state with
      ⟨hnone, -⟩ | ⟨callee, hcallee, hcount, -⟩ | ⟨callee, -, -, -, hfull, -⟩ |
        ⟨callee, entry, s, hcallee, -, -, hp, hplaced⟩
    · cases hnone.symm.trans hindex
    · obtain rfl := Option.some.inj (hcallee.symm.trans hindex)
      exact absurd harity hcount
    · exact absurd hfull (Nat.not_lt_of_le (OperandStack.depth_le _))
    · obtain rfl := Option.some.inj (hcallee.symm.trans hindex)
      obtain ⟨passed, under, ha⟩ := Context.advance_callWith_of_ok active.frame hp .done
      obtain ⟨hstage', -, -⟩ := (Moment.nested_step _ callee #[] mo).entered hstage ha hnesting
      rw [hplaced.target, hplaced.function, hbodies.bodyOf hmem] at hstage'
      exact ⟨_, _, _, _, _, moment_add hrun hmo 1, hstage', by rw [List.length_cons, hcallers]⟩

variable {m : Machine β σ} {index : Nat} {args : Array Word} {module : Module β σ} {f : Function β σ}

/-- **The nesting counter is exact.**  At every moment of a run it is the number of bodies entered and not left, which
are the frames that are open, and never above its limit; what is left of the invocation under way is what the open bodies
come to.  A call that has its arguments in place enters its callee and moves the counter up if it is below its limit, and
is refused otherwise.  Each call, whatever it comes to, is answered in the end; until then the counter is higher than
before it, and then it is where it was, with the same frames open; and so it is after any number of operations of a
body.  A callee, an operation of a frame and an invocation leave the counter as they find it, in every state, and it is
the counter alone that refuses a callee.  Hence a chain of `k` calls below the first body is possible just when `k` is
less than the limit. -/
theorem nesting_is_exact (hrun : m.runnable index args.size = .ok (module, f)) (w : World σ) :
    (∀ n mo, m.moment index args w n = some mo →
      mo.entries.length = m.left index args w n + mo.state.nesting ∧ mo.state.nesting = mo.frames.length ∧
      mo.state.nesting ≤ m.config.limits.maxRecursionDepth.toNat ∧
      (∃ mo', m.moment index args w (n + 1) = some mo' ∧ mo.Nested (m.context module) f args mo') ∧
      ∀ more next active body callers, mo.stage = .inside more next active body callers →
        (∃ s, (m.context module).conclude callers active body mo.state = (m.context module).invoke f args s) ∧
        (∀ op k, body = .step op k → ∃ j mo' answer locals older, m.moment index args w (n + (j + 1)) = some mo' ∧
          mo'.stage = .inside more next (active.withLocals locals) (k answer) callers ∧
          mo'.answers = ⟨op, answer⟩ :: older ∧ mo'.state.nesting = mo.state.nesting ∧
          ∀ t mo'', 0 < t → t ≤ j → m.moment index args w (n + t) = some mo'' →
            mo.state.nesting < mo''.state.nesting) ∧
        (∀ count, ∃ j mo' locals rest done, m.moment index args w (n + j) = some mo' ∧ done ≤ count ∧
          body.After done rest ∧ (done = count ∨ ∃ r, rest = .done r) ∧
          mo'.stage = .inside more next (active.withLocals locals) rest callers ∧
          mo'.state.nesting = mo.state.nesting ∧
          ∀ t mo'', t ≤ j → m.moment index args w (n + t) = some mo'' →
            mo.state.nesting ≤ mo''.state.nesting)) ∧
    (∀ (cx : Context β σ) (levels : Nat) (s : CallState σ),
      (∀ entry, (cx.enter levels entry s).2.nesting = s.nesting) ∧
      (∀ op f, (cx.perform (cx.enter levels) op f s).2.2.nesting = s.nesting) ∧
      (∀ f args, (cx.invoke f args s).2.nesting = s.nesting) ∧
      (cx.maxDepth ≤ s.nesting + levels → ∀ entry, cx.enter levels entry s = cx.enter cx.maxDepth entry s)) ∧
    ∀ (config : MachineConfig) (compiled : Bool) (w : World Unit) (k : Nat), config.loopCount ≠ 0 →
      ((∃ n mo, (selfCalling config compiled).moment 0 #[] w n = some mo ∧ mo.state.nesting = k + 1) ↔
        k < config.limits.maxRecursionDepth.toNat) := by
  refine ⟨fun n mo hmo => ?_, fun cx levels s => ?_, fun config compiled w k hloop => ⟨?_, fun hlevels => ?_⟩⟩
  · obtain ⟨mo', hmo', hbalance, hle⟩ := nesting_moment hrun w n
    obtain rfl := Option.some.inj (hmo.symm.trans hmo')
    have hends := ends_moment hrun hmo
    refine ⟨hbalance, nesting_eq_length_frames hmo, hle,
      ⟨_, moment_add hrun hmo 1, Moment.nested_step _ f args mo⟩, ?_⟩
    intro more next active body callers hstage
    have hnesting : mo.state.nesting = callers.length + 1 := nesting_of_stage hmo hstage
    have hlater : ∀ {t mo''}, m.moment index args w (n + t) = some mo'' →
        mo'' = (Moment.step (m.context module) f args)^[t] mo :=
      fun h => Option.some.inj (h.symm.trans (moment_add hrun hmo _))
    refine ⟨exists_conclude hrun hmo hstage, ?_, fun count => ?_⟩
    · rintro op k rfl
      obtain ⟨j, answer, locals, older, hstage', hanswers, habove⟩ := Moment.exists_answer hends hstage
      refine ⟨j, _, answer, locals, older, moment_add hrun hmo (j + 1), hstage', hanswers, ?_,
        fun t mo'' ht ht' h => ?_⟩
      · rw [hnesting, nesting_of_stage (moment_add hrun hmo (j + 1)) hstage']
      · rw [hnesting, nesting_eq_length_frames h, hlater h]
        exact habove t ht ht'
    · obtain ⟨j, locals, rest, done, hdone, hafter, hrest, hstage', habove⟩ := Moment.exists_after count hends hstage
      refine ⟨j, _, locals, rest, done, moment_add hrun hmo j, hdone, hafter, hrest, hstage', ?_, fun t mo'' ht h => ?_⟩
      · rw [hnesting, nesting_of_stage (moment_add hrun hmo j) hstage']
      · rw [hnesting, nesting_eq_length_frames h, hlater h]
        exact habove t ht
  · exact ⟨fun entry => cx.enter_balanced levels entry s,
      fun op f => cx.nesting_perform (cx.enter_balanced levels) op f s, fun f args => cx.nesting_invoke f args s,
      fun h entry => cx.enter_of_le levels cx.maxDepth entry s h (Nat.le_add_left _ _)⟩
  · rintro ⟨n, mo, hmo, hnesting⟩
    obtain ⟨M, f, hrun⟩ : ∃ M f, (selfCalling config compiled).runnable 0 (#[] : Array Word).size = .ok (M, f) :=
      ⟨_, _, rfl⟩
    obtain ⟨mo', hmo', -, hle⟩ := nesting_moment hrun w n
    obtain rfl := Option.some.inj (hmo.symm.trans hmo')
    rw [hnesting] at hle
    exact hle
  · obtain ⟨mo, more, next, active, callers, hmo, hstage, hcallers⟩ := selfCalling_frames hloop w k hlevels
    exact ⟨k + 1, mo, hmo, by rw [nesting_of_stage hmo hstage, hcallers]⟩

/-- The seventh step is in the second body entered; none has been left. -/
theorem nesting_is_exact_difference :
    ∃ mo, (ofPrograms .operandStack 16 samplePrograms (· == 0)).moment 1 #[9] ⟨#[], ()⟩ 7 = some mo ∧
      mo.entries.length = 2 ∧ mo.state.nesting = 2 ∧
      (ofPrograms .operandStack 16 samplePrograms (· == 0)).left 1 #[9] ⟨#[], ()⟩ 7 = 0 ∧
      ¬ ∃ n mo, (selfCalling { limits := ⟨16, 3⟩ } true).moment 0 #[] ⟨#[], ()⟩ n = some mo ∧
        mo.state.nesting = 4 := by
  obtain ⟨hmoments, -, hchain⟩ :=
    @nesting_is_exact _ _ (ofPrograms .operandStack 16 samplePrograms (· == 0)) 1 #[9] _ _ rfl ⟨#[], ()⟩
  obtain ⟨hbalance, hopen, -⟩ := hmoments 7 _ rfl
  have hleft : (ofPrograms .operandStack 16 samplePrograms (· == 0)).left 1 #[9] ⟨#[], ()⟩ 7 = 0 := by decide +kernel
  refine ⟨_, rfl, ?_, hopen.trans rfl, hleft, ?_⟩
  · rw [hbalance, hleft, hopen]
    rfl
  · rw [hchain _ _ _ 3 (by decide)]
    decide

end Machine
end MixedMode
