import MixedMode.Proofs.Outcome
import MixedMode.Proofs.Sequences
/-!
# Diagnostics — settings that no run can tell apart

Of the settings of a machine only three are read when something runs: the convention, the loop count and the limits.
Machines that agree on these answer every operation the same, and each run of one is step by step a run of the other
(`Machine.perform_withConfig`, `Machine.moment_withConfig`).  A run that has to find its module logs all its settings
before it asks the loader.  No body reads the log (`Moment.Ahead.step`), so from there on the runs differ in nothing
else, as long as the loader does not read it either (`diagnostics_do_not_interfere`).
-/
namespace MixedMode

variable {β σ : Type}

/-! ## Steps on different logs -/

/-- An operation comes to the same on both states, whatever was counted and logged before. -/
inductive Advance.Ahead (more : CallStats) : Advance β σ → Advance β σ → Prop
  | answered {a : Answered σ} {body : Body σ} {frame : Frame β σ} {s s' : CallState σ} (hs : s.Ahead more s') :
      Ahead more (.answered a body frame s) (.answered a body frame s')
  | placed {entry : Entry β σ} {passed under : List Word} {waiting : Waiting σ} {s s' : CallState σ}
      (hs : s.Ahead more s') :
      Ahead more (.placed entry passed under waiting s) (.placed entry passed under waiting s')

section

variable {more : CallStats} {s s' : CallState σ}

theorem Context.advance_blind (cx : Context β σ) (f : Frame β σ) (h : s.Ahead more s') (op : Op σ)
    (k : op.Answer → Body σ) : (cx.advance f s op k).Ahead more (cx.advance f s' op k) := by
  have hperform := cx.perform_blind (cx.enter_blind 0) op f h
  cases op with
  | call index =>
    obtain ⟨r, t, t', heq, heq', ht⟩ := (h.placeCall cx f index).exists_eq
    simp only [advance, heq, heq', h.stack]
    cases r with
    | error e => exact .answered ht
    | ok entry => exact .placed ht
  | callWith index args =>
    obtain ⟨r, t, t', heq, heq', ht⟩ := (h.placeCallWith cx index args).exists_eq
    simp only [advance, heq, heq', h.stack]
    cases r with
    | error e => exact .answered ht
    | ok entry => exact .placed ht
  | _ =>
    obtain ⟨hanswer, hframe, hstate⟩ := hperform
    simp only [advance, hanswer, hframe]
    exact .answered hstate

theorem Waiting.resume_blind (waiting : Waiting σ) (r : Except RuntimeError Word) (h : s.Ahead more s') :
    (waiting.resume r s').1 = (waiting.resume r s).1 ∧ (waiting.resume r s').2.1 = (waiting.resume r s).2.1 ∧
      (waiting.resume r s).2.2.Ahead more (waiting.resume r s').2.2 := by
  cases waiting with
  | call index next =>
    cases r with
    | error e => exact ⟨rfl, rfl, h⟩
    | ok w =>
      obtain ⟨r, t, t', heq, heq', ht⟩ := (h.onStack (·.push w)).exists_eq
      simp only [resume, heq, heq']
      exact ⟨trivial, trivial, ht⟩
  | callWith index args next => exact ⟨rfl, rfl, h⟩

end

namespace Moment

/-- Two runs that have come equally far, on logs of their own. -/
structure Ahead (more : CallStats) (m m' : Moment β σ) : Prop where
  stage : m'.stage = m.stage
  entries : m'.entries = m.entries
  answers : m'.answers = m.answers
  state : m.state.Ahead more m'.state

variable {cx : Context β σ} {f : Function β σ} {args : Array Word} {m m' : Moment β σ} {extra : CallStats}
  {s s' : CallState σ}

theorem Ahead.leave (h : m.Ahead extra m') (more next floor : Nat) (r : Except RuntimeError Word)
    (hs : s.Ahead extra s') (callers : List (Caller β σ)) :
    (m.leave more next floor r s callers).Ahead extra (m'.leave more next floor r s' callers) := by
  have hcut := hs.truncate floor
  cases callers with
  | nil =>
    cases r with
    | error e => exact ⟨rfl, h.entries, h.answers, hcut⟩
    | ok w => exact ⟨rfl, h.entries, h.answers, hcut.stack, hcut.kept, hcut.nesting, hcut.stats⟩
  | cons c callers =>
    obtain ⟨hanswer, hbody, hstate⟩ := c.waiting.resume_blind r hcut
    simp only [Moment.leave, hanswer, hbody]
    exact ⟨rfl, h.entries, by rw [h.answers], hstate⟩

theorem Ahead.attempt (h : m.Ahead extra m') (cx : Context β σ) (more next : Nat) (entry : Entry β σ)
    (passed under : List Word) (callers : List (Caller β σ)) (hs : s.Ahead extra s') :
    (m.attempt cx more next entry passed under callers s).Ahead extra
      (m'.attempt cx more next entry passed under callers s') := by
  unfold Moment.attempt
  rw [hs.nesting]
  split
  · rw [hs.stack]
    exact ⟨rfl, by rw [h.entries], h.answers, (hs.countEntry _ _ _).deeper⟩
  · exact h.leave more next _ _ hs callers

/-- **A step is the same whatever was counted and logged before it.** -/
theorem Ahead.step (h : m.Ahead extra m') : (m.step cx f args).Ahead extra (m'.step cx f args) := by
  have hstages := h.stage
  cases hstage : m.stage with
  | ended r =>
    rw [hstage] at hstages
    rw [step_ended hstage, step_ended hstages]
    exact h
  | between more next last =>
    rw [hstage] at hstages
    cases more with
    | zero =>
      rw [step_between_zero hstage, step_between_zero hstages]
      exact ⟨rfl, h.entries, h.answers, h.state⟩
    | succ more =>
      obtain ⟨r, t, t', heq, heq', ht⟩ := (h.state.fromOutside cx.convention f args).exists_eq
      cases r with
      | error e =>
        rw [step_between_error hstage heq, step_between_error hstages heq']
        exact ⟨rfl, h.entries, h.answers, ht⟩
      | ok entry =>
        rw [step_between_ok hstage heq, step_between_ok hstages heq', h.state.stack]
        exact h.attempt cx more next entry _ _ [] ht
  | inside more next active body callers =>
    rw [hstage] at hstages
    cases body with
    | done r =>
      rw [step_done hstage, step_done hstages]
      exact h.leave more next active.floor r h.state.shallower callers
    | step op k =>
      have hadvance := cx.advance_blind active.frame h.state op k
      cases ha : cx.advance active.frame m.state op k with
      | answered a body frame t =>
        rw [ha] at hadvance
        generalize ha' : cx.advance active.frame m'.state op k = x at hadvance
        cases hadvance with
        | answered ht =>
          rw [step_answered hstage ha, step_answered hstages ha']
          exact ⟨rfl, h.entries, by rw [h.answers], ht⟩
      | placed entry passed under waiting t =>
        rw [ha] at hadvance
        generalize ha' : cx.advance active.frame m'.state op k = x at hadvance
        cases hadvance with
        | placed ht =>
          rw [step_placed hstage ha, step_placed hstages ha']
          exact h.attempt cx more next entry _ _ _ ht

theorem Ahead.iterate (h : m.Ahead extra m') (n : Nat) :
    ((Moment.step cx f args)^[n] m).Ahead extra ((Moment.step cx f args)^[n] m') := by
  induction n with
  | zero => exact h
  | succ n ih =>
    rw [Function.iterate_succ_apply', Function.iterate_succ_apply']
    exact ih.step

/-- A moment without its log. -/
def unlogged (m : Moment β σ) : Moment β σ := { m with state.events := #[] }

theorem Ahead.unlogged_eq (h : m.Ahead 0 m') : m'.unlogged = m.unlogged := by
  obtain ⟨stage, ⟨stack, stats, events, kept, nesting⟩, entries, answers⟩ := m
  obtain ⟨stage', ⟨stack', stats', events', kept', nesting'⟩, entries', answers'⟩ := m'
  obtain ⟨rfl, rfl, rfl, rfl, rfl, rfl, hstats⟩ := h
  obtain rfl : stats' = stats := hstats.trans (add_zero stats)
  rfl

end Moment

/-! ## Settings that agree on what is run -/

/-- The settings are the same but for those that only say what is told about a run, how far to inline, and how much
stack to set aside. -/
structure MachineConfig.Agrees (c c' : MachineConfig) : Prop where
  callStyle : c'.jit.callStyle = c.jit.callStyle
  loopCount : c'.loopCount = c.loopCount
  limits : c'.limits = c.limits

theorem MachineConfig.Agrees.validate_eq {c c' : MachineConfig} (h : c.Agrees c') : c'.validate = c.validate := by
  rw [validate, validate, fault?, fault?, h.loopCount, h.limits]

structure RunConfig.Agrees (c c' : RunConfig) : Prop where
  machine : c.machine.Agrees c'.machine
  module : c'.module = c.module
  entry : c'.entry = c.entry

namespace Machine

/-- The same machine with other settings. -/
def withConfig (m : Machine β σ) (c : MachineConfig) : Machine β σ := { m with config := c }

theorem new_withConfig {c c' : MachineConfig} (h : c.Agrees c') (interpreter : Interpreter β σ) :
    new c' interpreter = (new c interpreter).withConfig c' := by
  rw [new, h.limits]
  rfl

variable {m : Machine β σ} {c : MachineConfig}

theorem context_withConfig (h : m.config.Agrees c) (module : Module β σ) :
    (m.withConfig c).context module = m.context module := by
  simp only [context, withConfig, MachineConfig.callStyle, h.callStyle, h.limits]

theorem startState_withConfig (h : m.config.Agrees c) (f : Function β σ) (index : Nat) (w : World σ) :
    (m.withConfig c).startState f index w = m.startState f index w := by
  simp only [startState, withConfig, MachineConfig.callStyle, h.callStyle, h.loopCount]

theorem runnable_withConfig (m : Machine β σ) (c : MachineConfig) (index count : Nat) :
    (m.withConfig c).runnable index count = m.runnable index count := rfl

/-- **Runs on settings that agree are the same run, step by step.** -/
theorem moment_withConfig (h : m.config.Agrees c) (index : Nat) (args : Array Word) (w : World σ) (n : Nat) :
    (m.withConfig c).moment index args w n = m.moment index args w n := by
  have hloop : (m.withConfig c).config.loopCount = m.config.loopCount := h.loopCount
  simp only [moment, runnable_withConfig, context_withConfig h, startState_withConfig h, hloop]

theorem outcome_withConfig (m : Machine β σ) (c : MachineConfig) (f : Function β σ) (r : Except RuntimeError Word)
    (s : CallState σ) : (m.withConfig c).outcome f r s =
      ((m.outcome f r s).1, (m.outcome f r s).2.1.withConfig c, (m.outcome f r s).2.2) := by
  cases r <;> rfl

theorem runWith_withConfig (h : m.config.Agrees c) (index : Nat) (args : Array Word) (w : World σ) :
    (m.withConfig c).runWith index args w =
      ((m.runWith index args w).1, (m.runWith index args w).2.1.withConfig c, (m.runWith index args w).2.2) := by
  cases hrun : m.runnable index args.size with
  | error e => rw [runWith_of_runnable_error hrun, runWith_of_runnable_error ((runnable_withConfig ..).trans hrun)]
  | ok mf =>
    obtain ⟨module, f⟩ := mf
    obtain ⟨n, mo, r, hmo, hended⟩ := exists_moment_ended w hrun
    rw [runWith_of_ended hrun hmo hended, runWith_of_ended ((runnable_withConfig ..).trans hrun)
      ((moment_withConfig h ..).trans hmo) hended, outcome_withConfig]

theorem prepare_withConfig (h : m.config.Agrees c) (w : World σ) :
    (m.withConfig c).prepare w = ((m.prepare w).1, (m.prepare w).2.1.withConfig c, (m.prepare w).2.2) := by
  have hvalidate : (m.withConfig c).config.validate = m.config.validate := h.validate_eq
  have hcallStyle : (m.withConfig c).config.callStyle = m.config.callStyle := h.callStyle
  have hloop : (m.withConfig c).config.loopCount = m.config.loopCount := h.loopCount
  have hlimits : (m.withConfig c).config.limits = m.config.limits := h.limits
  -- how much of the stack was set aside shows in no stack
  simp only [prepare, hvalidate, hcallStyle, hloop, hlimits, OperandStack.withCapacity_eq_empty]
  show (if m.ready then _ else _) = _
  split
  · rfl
  · cases m.config.validate <;> rfl

theorem load_withConfig (m : Machine β σ) (c : MachineConfig) (module : Module β σ) (w : World σ) :
    (m.withConfig c).load module w =
      ((m.load module w).1, (m.load module w).2.1.withConfig c, (m.load module w).2.2) := by
  unfold load
  show (if !m.ready then _ else _) = _
  split
  · rfl
  · split <;> rfl

theorem runEntry_withConfig (h : m.config.Agrees c) (w : World σ) :
    (m.withConfig c).runEntry w = ((m.runEntry w).1, (m.runEntry w).2.1.withConfig c, (m.runEntry w).2.2) := by
  have hready : (m.withConfig c).ready = m.ready := rfl
  have hmodule : (m.withConfig c).module = m.module := rfl
  rw [runEntry, runEntry, hready, hmodule]
  cases m.ready with
  | false => rfl
  | true =>
    cases m.module with
    | none => rfl
    | some module =>
      cases hentry : module.entryIndex? with
      | none => simp [hentry]
      | some index => simpa [hentry, run] using runWith_withConfig h index #[] w

/-- **An operation is the same under settings that agree**: it answers the same, leaves the same world, and leaves
the machines the same but for their settings. -/
theorem perform_withConfig (h : m.config.Agrees c) (op : Operation β σ) (w : World σ) :
    (m.withConfig c).perform op w =
      ((m.perform op w).1, (m.perform op w).2.1.withConfig c, (m.perform op w).2.2) := by
  cases op with
  | prepare => exact prepare_withConfig h w
  | load module => exact load_withConfig m c module w
  | run index => exact runWith_withConfig h index #[] w
  | runWith index args => exact runWith_withConfig h index args w
  | runEntry => exact runEntry_withConfig h w
  | reset => rfl

/-- An operation leaves the settings as they are. -/
theorem config_perform (m : Machine β σ) (op : Operation β σ) (w : World σ) :
    (m.perform op w).2.1.config = m.config := by
  cases op with
  | prepare => rcases m.prepare_cases w with ⟨-, he⟩ | ⟨_, -, -, he⟩ | ⟨-, -, he⟩ <;> rw [perform, he]
  | load module => rcases m.load_cases w module with ⟨-, he⟩ | ⟨-, -, he⟩ | ⟨-, -, he⟩ <;> rw [perform, he]
  | run index => rw [perform, run, runWith_machine]
  | runWith index args => rw [perform, runWith_machine]
  | runEntry => rw [perform, runEntry_machine]
  | reset => rfl

/-- **A sequence of operations is the same under settings that agree.** -/
theorem performAll_withConfig : ∀ (ops : List (Bool × Operation β σ)) {m : Machine β σ} (w : World σ),
    m.config.Agrees c → (m.withConfig c).performAll ops w =
      ((m.performAll ops w).1, (m.performAll ops w).2.1.withConfig c, (m.performAll ops w).2.2)
  | [], _, _, _                  => rfl
  | (stays, op) :: ops, m, w, h => by
    have hnext : (m.perform op w).2.1.config.Agrees c := by
      rw [config_perform]
      exact h
    rw [performAll_cons, performAll_cons, perform_withConfig h op w, performAll_withConfig ops _ hnext]

end Machine

/-! ## Runs of a module at hand -/

namespace RunConfig

/-- The run of a module at hand after `n` steps; there is none when it is refused. -/
def moment (config : RunConfig) (module : Module β σ) (interpreter : Interpreter β σ) (args : Array Word) (w : World σ)
    (n : Nat) : Option (Moment β σ) :=
  match config.validate with
  | .error _ => none
  | .ok ()   => (config.ready module interpreter).moment (config.index module) args (config.loaded module w) n

variable {config config' : RunConfig} {module : Module β σ} {interpreter : Interpreter β σ} {args : Array Word}
  {w w' : World σ} {n : Nat}

theorem moment_of_valid (hvalid : config.validate = .ok ()) (n : Nat) :
    config.moment module interpreter args w n =
      (config.ready module interpreter).moment (config.index module) args (config.loaded module w) n := by
  rw [moment, hvalid]

/-- **What a run answers is read off the moment that is over.** -/
theorem runModule_of_ended {mo : Moment β σ} {r : Except RuntimeError Word}
    (hmo : config.moment module interpreter args w n = some mo) (hended : mo.stage = .ended r) :
    (runModule config module interpreter args w).1 = match r with
      | .error e  => .error (.runtime config.module (config.index module) config.callStyle e)
      | .ok value =>
        .ok { value, functionIndex := config.index module, iterations := config.machine.loopCount.toNat,
              convention := config.callStyle, stats := mo.state.stats } := by
  cases hvalid : config.validate with
  | error e =>
    rw [moment, hvalid] at hmo
    cases hmo
  | ok u =>
    rw [moment_of_valid hvalid] at hmo
    obtain ⟨module', f, hrun, -⟩ := Machine.moment_spec hmo
    obtain ⟨hmodule, hindex, -⟩ := Machine.runnable_spec hrun
    obtain rfl := Option.some.inj hmodule
    rw [runModule_of_valid hvalid (Nat.zero_lt_of_lt (Module.lt_size_of_function? hindex)),
      Machine.runWith_of_ended hrun hmo hended]
    cases r <;> rfl

namespace Agrees

theorem validate_eq (h : config.Agrees config') : config'.validate = config.validate := h.machine.validate_eq

theorem callStyle_eq (h : config.Agrees config') : config'.callStyle = config.callStyle := h.machine.callStyle

theorem index_eq (h : config.Agrees config') (module : Module β σ) : config'.index module = config.index module := by
  rw [index, index, h.entry]

theorem prepared_eq (h : config.Agrees config') (w : World σ) : config'.prepared w = config.prepared w := by
  rw [prepared, prepared, h.callStyle_eq, h.machine.loopCount, h.machine.limits]

theorem loaded_eq (h : config.Agrees config') (module : Module β σ) (w : World σ) :
    config'.loaded module w = config.loaded module w := by
  rw [loaded, loaded, h.prepared_eq]

theorem ready_eq (h : config.Agrees config') (module : Module β σ) (interpreter : Interpreter β σ) :
    config'.ready module interpreter = (config.ready module interpreter).withConfig config'.machine := by
  rw [ready, Machine.new_withConfig h.machine]
  rfl

/-- **A run of a module at hand is the same under settings that agree**: it answers the same and leaves the same world,
log and all. -/
theorem runModule_eq (h : config.Agrees config') (module : Module β σ) (interpreter : Interpreter β σ)
    (args : Array Word) (w : World σ) :
    runModule config' module interpreter args w = runModule config module interpreter args w := by
  cases hvalid : config.validate with
  | error e =>
    have hvalid' := h.validate_eq.trans hvalid
    rw [runModule, runModule, hvalid, hvalid']
  | ok u =>
    have hvalid' := h.validate_eq.trans hvalid
    rcases Nat.eq_zero_or_pos module.size with hsize | hsize
    · rw [runModule_of_empty hvalid hsize, runModule_of_empty hvalid' hsize, h.module, h.callStyle_eq, h.entry,
        h.prepared_eq]
    · rw [runModule_of_valid hvalid hsize, runModule_of_valid hvalid' hsize, h.index_eq, h.ready_eq, h.loaded_eq,
        Machine.runWith_withConfig h.machine, h.module, h.callStyle_eq, h.machine.loopCount]
      cases (config.ready module interpreter).runWith (config.index module) args (config.loaded module w) with
      | mk r rest => cases r <;> rfl

theorem moment_eq (h : config.Agrees config') (module : Module β σ) (interpreter : Interpreter β σ)
    (args : Array Word) (w : World σ) (n : Nat) :
    config'.moment module interpreter args w n = config.moment module interpreter args w n := by
  rw [moment, moment, h.validate_eq, h.index_eq, h.ready_eq, h.loaded_eq, Machine.moment_withConfig h.machine]

end Agrees
end RunConfig

/-! ## Runs that find their module -/

/-- The loader may write to the log but does not read it: it answers the same, and leaves bodies the same kept, whatever
was logged before. -/
def Loader.Blind (loader : Loader β σ) : Prop :=
  ∀ path w w', w'.kept = w.kept →
    (loader path w').1 = (loader path w).1 ∧ (loader path w').2.kept = (loader path w).2.kept

/-- A loader that keeps a note of every path it is asked for. -/
def Loader.noting (note : Path → σ → σ) (inner : Loader β σ) : Loader β σ := fun path w =>
  inner path { w with kept := note path w.kept }

theorem Registry.blind_loader (r : Registry β σ) : r.loader.Blind := by
  intro path w w' hkept
  unfold Registry.loader
  cases r.get? path <;> exact ⟨rfl, hkept⟩

theorem Loader.Blind.refusing {loader : Loader β σ} (h : loader.Blind) (failures : List (String × LoadError)) :
    (loader.refusing failures).Blind := by
  intro path w w' hkept
  unfold Loader.refusing
  cases (Path.named failures).lookup path with
  | some e => exact ⟨rfl, hkept⟩
  | none => exact h path w w' hkept

theorem Loader.Blind.noting {loader : Loader β σ} (h : loader.Blind) (note : Path → σ → σ) :
    (loader.noting note).Blind :=
  fun path _ _ hkept => h path _ _ (congrArg (note path) hkept)

theorem Machine.moment_blind (m : Machine β σ) (index : Nat) (args : Array Word) {w w' : World σ}
    (hkept : w'.kept = w.kept) (n : Nat) :
    (m.moment index args w' n).map Moment.unlogged = (m.moment index args w n).map Moment.unlogged := by
  unfold moment
  cases m.runnable index args.size with
  | error e => rfl
  | ok mf =>
    obtain ⟨module, f⟩ := mf
    have hstart : Moment.Ahead 0 (Moment.start m.config.loopCount.toNat (m.startState f index w) : Moment β σ)
        (.start m.config.loopCount.toNat (m.startState f index w')) :=
      ⟨rfl, rfl, rfl, rfl, hkept, rfl, (add_zero m.stats).symm⟩
    exact congrArg some (hstart.iterate n).unlogged_eq

namespace RunConfig

variable {config config' : RunConfig} {interpreter : Interpreter β σ} {loader : Loader β σ} {w w' : World σ}

/-- **A run of a module at hand is the same whatever was logged before it.** -/
theorem runModule_blind (config : RunConfig) (module : Module β σ) (interpreter : Interpreter β σ) (args : Array Word)
    (hkept : w'.kept = w.kept) :
    (runModule config module interpreter args w').1 = (runModule config module interpreter args w).1 ∧
      (runModule config module interpreter args w').2.kept = (runModule config module interpreter args w).2.kept := by
  cases hvalid : config.validate with
  | error e =>
    rw [runModule, runModule, hvalid]
    exact ⟨rfl, hkept⟩
  | ok u =>
    rcases Nat.eq_zero_or_pos module.size with hsize | hsize
    · rw [runModule_of_empty hvalid hsize, runModule_of_empty hvalid hsize]
      refine ⟨rfl, ?_⟩
      dsimp only
      split <;> exact hkept
    · have hahead : Machine.Ahead 0 (config.ready module interpreter, config.loaded module w)
          (config.ready module interpreter, config.loaded module w') :=
        ⟨by rw [add_zero], hkept⟩
      obtain ⟨hanswer, hmachine, hkept'⟩ := hahead.runWith (config.index module) args
      rw [runModule_of_valid hvalid hsize, runModule_of_valid hvalid hsize]
      generalize (config.ready module interpreter).runWith (config.index module) args (config.loaded module w) = x
        at hanswer hmachine hkept' ⊢
      generalize (config.ready module interpreter).runWith (config.index module) args (config.loaded module w') = x'
        at hanswer hmachine hkept' ⊢
      obtain ⟨r, m, v⟩ := x
      obtain ⟨r', m', v'⟩ := x'
      obtain rfl : r' = r := hanswer
      obtain rfl : m' = m := hmachine.trans (by rw [add_zero])
      cases r' with
      | error e => exact ⟨rfl, hkept'⟩
      | ok value => exact ⟨rfl, hkept'⟩

theorem moment_blind (config : RunConfig) (module : Module β σ) (interpreter : Interpreter β σ) (args : Array Word)
    (hkept : w'.kept = w.kept) (n : Nat) :
    (config.moment module interpreter args w' n).map Moment.unlogged =
      (config.moment module interpreter args w n).map Moment.unlogged := by
  unfold moment
  cases config.validate with
  | error e => rfl
  | ok u =>
    have hloaded : (config.loaded module w').kept = (config.loaded module w).kept := hkept
    exact (config.ready module interpreter).moment_blind (config.index module) args hloaded n

/-- The run of the module that is found after `n` steps; there is none when none is found or the run is refused. -/
def foundMoment (config : RunConfig) (loader : Loader β σ) (interpreter : Interpreter β σ) (w : World σ) (n : Nat) :
    Option (Moment β σ) :=
  match config.validate with
  | .error _ => none
  | .ok ()   =>
    match loader config.module (w.log (.configured config.summary)) with
    | (.error _, _)   => none
    | (.ok module, w) => config.moment module interpreter #[] w n

/-- **A run that finds its module is the same under settings that agree**, but for the log. -/
theorem Agrees.run_eq (h : config.Agrees config') (hloader : loader.Blind) (interpreter : Interpreter β σ)
    (w : World σ) :
    (run config' loader interpreter w).1 = (run config loader interpreter w).1 ∧
      (run config' loader interpreter w).2.kept = (run config loader interpreter w).2.kept ∧
      ∀ n, (config'.foundMoment loader interpreter w n).map Moment.unlogged =
        (config.foundMoment loader interpreter w n).map Moment.unlogged := by
  cases hvalid : config.validate with
  | error e =>
    have hvalid' := h.validate_eq.trans hvalid
    rw [run_of_invalid hvalid, run_of_invalid hvalid']
    exact ⟨rfl, rfl, fun n => by rw [foundMoment, foundMoment, hvalid, hvalid']⟩
  | ok u =>
    have hvalid' := h.validate_eq.trans hvalid
    obtain ⟨hanswer, hkept⟩ := hloader config.module (w.log (.configured config.summary))
      (w.log (.configured config'.summary)) rfl
    cases hload : loader config.module (w.log (.configured config.summary)) with
    | mk r v =>
      cases hload' : loader config'.module (w.log (.configured config'.summary)) with
      | mk r' v' =>
        rw [← h.module, hload', h.module, hload] at hanswer hkept
        obtain rfl : r' = r := hanswer
        cases r' with
        | error e =>
          rw [run_of_load_error hvalid hload, run_of_load_error hvalid' hload', h.module, h.callStyle_eq]
          refine ⟨rfl, hkept, fun n => ?_⟩
          simp only [foundMoment, hvalid, hvalid', hload, hload']
        | ok module =>
          rw [run_of_load_ok hvalid hload, run_of_load_ok hvalid' hload', h.runModule_eq]
          obtain ⟨hsame, hsame'⟩ := runModule_blind config module interpreter #[] hkept
          refine ⟨hsame, hsame', fun n => ?_⟩
          simp only [foundMoment, hvalid, hvalid', hload, hload', h.moment_eq]
          exact moment_blind config module interpreter #[] hkept n

end RunConfig

/-- **Diagnostic settings do not interfere.**  Let settings agree but for what is told about a run, how far to inline
and how much stack to set aside.  Then a run of a module at hand is the same in all respects, log included: the same
bodies are entered, and all that they do is answered the same, step by step.  A run that has to find its module asks for
the same, whatever notes the loader keeps, and it is then the same but for what was logged before the loader was asked.
A machine answers every sequence of operations the same, and is the same after each of them but for its settings. -/
theorem diagnostics_do_not_interfere {config config' : RunConfig} (h : config.Agrees config') :
    (∀ (module : Module β σ) (interpreter : Interpreter β σ) (args : Array Word) (w : World σ),
      runModule config' module interpreter args w = runModule config module interpreter args w ∧
      ∀ n, config'.moment module interpreter args w n = config.moment module interpreter args w n) ∧
    (∀ loader : Loader β σ, loader.Blind → ∀ (interpreter : Interpreter β σ) (w : World σ),
      (run config' loader interpreter w).1 = (run config loader interpreter w).1 ∧
      (run config' loader interpreter w).2.kept = (run config loader interpreter w).2.kept ∧
      (∀ note, (run config' (loader.noting note) interpreter w).2.kept =
        (run config (loader.noting note) interpreter w).2.kept) ∧
      ∀ n, (config'.foundMoment loader interpreter w n).map Moment.unlogged =
        (config.foundMoment loader interpreter w n).map Moment.unlogged) ∧
    (∀ (interpreter : Interpreter β σ) (ops : List (Bool × Machine.Operation β σ)) (w : World σ),
      let (answers, m, w') := (Machine.new config.machine interpreter).performAll ops w
      (Machine.new config'.machine interpreter).performAll ops w = (answers, m.withConfig config'.machine, w')) ∧
    (∀ m : Machine β σ, m.config = config.machine →
      (∀ op w, let (answer, m', w') := m.perform op w
        (m.withConfig config'.machine).perform op w = (answer, m'.withConfig config'.machine, w')) ∧
      ∀ index args w n, (m.withConfig config'.machine).moment index args w n = m.moment index args w n) := by
  refine ⟨fun module interpreter args w => ⟨h.runModule_eq module interpreter args w,
    h.moment_eq module interpreter args w⟩, fun loader hloader interpreter w => ?_, fun interpreter ops w => ?_,
    fun m hm => ?_⟩
  · obtain ⟨hanswer, hkept, hmoments⟩ := h.run_eq hloader interpreter w
    exact ⟨hanswer, hkept, fun note => (h.run_eq (hloader.noting note) interpreter w).2.1, hmoments⟩
  · rw [Machine.new_withConfig h.machine]
    exact Machine.performAll_withConfig ops w h.machine
  · have hagrees : m.config.Agrees config'.machine := hm ▸ h.machine
    exact ⟨Machine.perform_withConfig hagrees, Machine.moment_withConfig hagrees⟩

/-- Settings that differ from the given ones in all that makes no difference. -/
def RunConfig.loud (config : RunConfig) : RunConfig :=
  { config with machine := { config.machine with
      jit := { config.machine.jit with maxInlineDepth := 7, debug := true, verbose := true },
      initialStackSize := 4, debug := true, verbose := true } }

theorem diagnostics_do_not_interfere_loud :
    let quiet : RunConfig := { module := "programs", entry := some 1, machine := .withConvention .operandStack }
    let programs : Module (Body Unit) Unit := .ofPrograms "programs" samplePrograms (· == 0)
    let loader := (Registry.ofList [("programs", programs)]).loader
    quiet.Agrees quiet.loud ∧ loader.Blind ∧ quiet.loud.summary ≠ quiet.summary ∧
    (runModule quiet.loud programs .ofPrograms #[9] ⟨#[], ()⟩).1.toOption.map (·.value) = some 6 ∧
    (run quiet.loud loader .ofPrograms ⟨#[], ()⟩).1 = (run quiet loader .ofPrograms ⟨#[], ()⟩).1 := by
  intro quiet programs loader
  have hagrees : quiet.Agrees quiet.loud := ⟨⟨rfl, rfl, rfl⟩, rfl, rfl⟩
  obtain ⟨hmodule, hrun, -, -⟩ := @diagnostics_do_not_interfere (Body Unit) Unit quiet quiet.loud hagrees
  refine ⟨hagrees, Registry.blind_loader _, by decide +kernel, ?_, (hrun loader (Registry.blind_loader _) _ _).1⟩
  rw [(hmodule programs .ofPrograms #[9] ⟨#[], ()⟩).1]
  decide +kernel

end MixedMode
