import MixedMode.Proofs.Counterpart
import MixedMode.Proofs.Iterations
import MixedMode.Proofs.Steps
/-!
# LifeCycle — operations on a machine, in any order

A `History` is what was asked of a new machine so far, with the answers; between two operations the world outside may
become any other.  What is true of a new machine and kept by every operation is true after every history
(`History.orderly`): the settings are the given ones, the stack is empty and as large as they say, a machine that is
ready has valid settings, and a machine with a module is ready and the module has a function.
-/
namespace MixedMode

variable {β σ : Type}

theorem Module.isEmpty_iff (module : Module β σ) : module.isEmpty = true ↔ module.size = 0 := by
  unfold isEmpty size
  exact Array.isEmpty_iff_size_eq_zero

namespace Machine

/-! ## Operations and histories -/

/-- What can be asked of a machine. -/
inductive Operation (β σ : Type) where
  | prepare
  | load (module : Module β σ)
  | run (index : Nat)
  | runWith (index : Nat) (args : Array Word)
  | runEntry
  | reset

def Operation.Answer : Operation β σ → Type
  | .prepare | .load _               => Except MachineError Unit
  | .run _ | .runWith .. | .runEntry => Except MachineError Word
  | .reset                           => Unit

def perform (m : Machine β σ) : (op : Operation β σ) → World σ → op.Answer × Machine β σ × World σ
  | .prepare, w            => m.prepare w
  | .load module, w        => m.load module w
  | .run index, w          => m.run index w
  | .runWith index args, w => m.runWith index args w
  | .runEntry, w           => m.runEntry w
  | .reset, w              => ((), m.reset, w)

/-- An operation with the answer it got. -/
structure Performed (β σ : Type) where
  op : Operation β σ
  answer : op.Answer

/-- A new machine has come to be `m` by these operations, the latest first. -/
inductive History (config : MachineConfig) (interpreter : Interpreter β σ) :
    List (Performed β σ) → Machine β σ → Prop
  | new : History config interpreter [] (.new config interpreter)
  | next {past : List (Performed β σ)} {m : Machine β σ} (before : History config interpreter past m)
      (op : Operation β σ) (w : World σ) :
      History config interpreter (⟨op, (m.perform op w).1⟩ :: past) (m.perform op w).2.1

/-! ## What each operation does -/

variable (m : Machine β σ) (w : World σ)

/-- **What `prepare` does**: it is refused because it was done already, or for the settings, or it is done. -/
theorem prepare_cases :
    (m.ready = true ∧ m.prepare w = (.error .alreadyInitialized, m, w)) ∨
    (∃ e, m.ready = false ∧ m.config.validate = .error e ∧ m.prepare w = (.error (.config e), m, w)) ∨
    (m.ready = false ∧ m.config.validate = .ok () ∧
      m.prepare w = (.ok (), { m with stack := .empty m.config.limits.maxStackSize.toNat, ready := true },
        w.log (.prepared m.config.callStyle m.config.loopCount.toNat m.config.limits.maxStackSize.toNat
          m.config.limits.maxRecursionDepth.toNat))) := by
  unfold prepare
  cases hready : m.ready with
  | true => exact .inl ⟨rfl, rfl⟩
  | false =>
    cases hvalid : m.config.validate with
    | error e => exact .inr (.inl ⟨e, rfl, rfl, rfl⟩)
    | ok u => exact .inr (.inr ⟨rfl, rfl, rfl⟩)

/-- **What `load` does**: it is refused on a machine that is not ready, or for a module without functions, or it
attaches the module. -/
theorem load_cases (module : Module β σ) :
    (m.ready = false ∧ m.load module w = (.error .notInitialized, m, w)) ∨
    (m.ready = true ∧ module.size = 0 ∧ m.load module w = (.error (.emptyModule module.name), m, w)) ∨
    (m.ready = true ∧ 0 < module.size ∧
      m.load module w = (.ok (), { m with module := some module },
        w.log (.loaded module.name module.size module.compiledCount))) := by
  unfold load
  cases hready : m.ready with
  | false => exact .inl ⟨rfl, rfl⟩
  | true =>
    by_cases hsize : module.size = 0
    · have hempty := module.isEmpty_iff.2 hsize
      exact .inr (.inl ⟨rfl, hsize, by simp [hempty]⟩)
    · have hempty : module.isEmpty = false := by
        rw [← Bool.not_eq_true, module.isEmpty_iff]
        exact hsize
      exact .inr (.inr ⟨rfl, Nat.pos_of_ne_zero hsize, by simp [hempty]⟩)

/-- **What `runEntry` does**: it is refused on a machine that is not ready, without a module, or for a module without
functions, or it runs the last function. -/
theorem runEntry_cases :
    (m.ready = false ∧ m.runEntry w = (.error .notInitialized, m, w)) ∨
    (m.ready = true ∧ m.module = none ∧ m.runEntry w = (.error .noModuleLoaded, m, w)) ∨
    (∃ module, m.ready = true ∧ m.module = some module ∧ module.size = 0 ∧
      m.runEntry w = (.error (.emptyModule module.name), m, w)) ∨
    (∃ module, m.ready = true ∧ m.module = some module ∧ 0 < module.size ∧
      m.runEntry w = m.run (module.size - 1) w) := by
  unfold runEntry
  cases hready : m.ready with
  | false => exact .inl ⟨rfl, rfl⟩
  | true =>
    cases hmodule : m.module with
    | none => exact .inr (.inl ⟨rfl, rfl, rfl⟩)
    | some module =>
      by_cases hsize : module.size = 0
      · exact .inr (.inr (.inl ⟨module, rfl, rfl, hsize, by simp [Module.entryIndex?, hsize]⟩))
      · exact .inr (.inr (.inr ⟨module, rfl, rfl, Nat.pos_of_ne_zero hsize, by simp [Module.entryIndex?, hsize]⟩))

/-- **When a machine can run a function**: it is ready, it has a module, the index names one of its functions, and that
takes so many arguments; the first of these that fails is the answer. -/
theorem runnable_cases (index count : Nat) :
    (m.ready = false ∧ m.runnable index count = .error .notInitialized) ∨
    (m.ready = true ∧ m.module = none ∧ m.runnable index count = .error .noModuleLoaded) ∨
    (∃ module, m.ready = true ∧ m.module = some module ∧ module.size ≤ index ∧
      m.runnable index count = .error (.indexOutOfRange module.name index module.size)) ∨
    (∃ module f, m.ready = true ∧ m.module = some module ∧ module.function? index = some f ∧ count ≠ f.arity ∧
      m.runnable index count = .error (.arityMismatch f.name f.arity count)) ∨
    (∃ module f, m.ready = true ∧ m.module = some module ∧ module.function? index = some f ∧ count = f.arity ∧
      m.runnable index count = .ok (module, f)) := by
  unfold runnable
  cases hready : m.ready with
  | false => exact .inl ⟨rfl, rfl⟩
  | true =>
    cases hmodule : m.module with
    | none => exact .inr (.inl ⟨rfl, rfl, rfl⟩)
    | some module =>
      cases hf : module.function? index with
      | none =>
        have hsize : module.size ≤ index := Array.getElem?_eq_none_iff.1 hf
        exact .inr (.inr (.inl ⟨module, rfl, rfl, hsize, by simp [hf]⟩))
      | some f =>
        by_cases hcount : count = f.arity
        · exact .inr (.inr (.inr (.inr ⟨module, f, rfl, rfl, hf, hcount, by simp [hf, hcount]⟩)))
        · exact .inr (.inr (.inr (.inl ⟨module, f, rfl, rfl, hf, hcount, by simp [hf, hcount]⟩)))

theorem runEntry_of_runnable {module : Module β σ} {f : Function β σ} {count : Nat}
    (h : m.runnable (module.size - 1) count = .ok (module, f)) : m.runEntry w = m.run (module.size - 1) w := by
  have hmodule := (runnable_spec h).1
  rcases m.runEntry_cases w with ⟨hready, -⟩ | ⟨-, hm, -⟩ | ⟨_, -, hm, hsize, -⟩ | ⟨_, -, hm, -, he⟩
  · rw [runnable, hready] at h
    cases h
  · rw [hmodule] at hm
    cases hm
  · obtain rfl := Option.some.inj (hmodule.symm.trans hm)
    have hindex := (Array.getElem?_eq_some_iff.1 (runnable_spec h).2.1).1
    have hsize : module.functions.size = 0 := hsize
    omega
  · obtain rfl := Option.some.inj (hmodule.symm.trans hm)
    exact he

/-- Running the entry point changes nothing of the machine but its counters. -/
theorem runEntry_machine : (m.runEntry w).2.1 = { m with stats := (m.runEntry w).2.1.stats } := by
  rcases m.runEntry_cases w with ⟨-, h⟩ | ⟨-, -, h⟩ | ⟨_, -, -, -, h⟩ | ⟨module, -, -, -, h⟩
  · rw [h]
  · rw [h]
  · rw [h]
  · rw [h]
    exact m.runWith_machine _ _ w

/-- Only `prepare` makes a machine ready, and nothing undoes it. -/
theorem ready_perform {op : Operation β σ} (hop : op ≠ .prepare) : (m.perform op w).2.1.ready = m.ready := by
  cases op with
  | prepare => exact absurd rfl hop
  | load module =>
    rcases m.load_cases w module with ⟨-, h⟩ | ⟨-, -, h⟩ | ⟨-, -, h⟩ <;> rw [perform, h]
  | run index => rw [perform, run, m.runWith_machine]
  | runWith index args => rw [perform, m.runWith_machine]
  | runEntry => rw [perform, m.runEntry_machine]
  | reset => rfl

/-! ## What every operation keeps -/

/-- What holds of a machine with these settings before and after every operation. -/
structure Orderly (config : MachineConfig) (interpreter : Interpreter β σ) (m : Machine β σ) : Prop where
  settings : m.config = config
  collaborator : m.interpreter = interpreter
  stack : m.stack = .empty config.limits.maxStackSize.toNat
  valid : m.ready = true → config.validate = .ok ()
  loaded : ∀ module, m.module = some module → m.ready = true ∧ 0 < module.size

variable {m w} {config : MachineConfig} {interpreter : Interpreter β σ} {past : List (Performed β σ)}

theorem orderly_new (config : MachineConfig) (interpreter : Interpreter β σ) :
    (new config interpreter).Orderly config interpreter where
  settings := rfl
  collaborator := rfl
  stack := rfl
  valid := fun h => by cases h
  loaded := fun _ h => by cases h

theorem Orderly.withStats (h : m.Orderly config interpreter) (stats : CallStats) :
    { m with stats }.Orderly config interpreter :=
  ⟨h.settings, h.collaborator, h.stack, h.valid, h.loaded⟩

/-- Between operations the stack is empty already. -/
theorem Orderly.reset_eq (h : m.Orderly config interpreter) : m.reset = m := by
  have hdepth : m.stack.depth ≤ 0 := by
    rw [h.stack]
    exact Nat.le_refl 0
  have hstack : m.stack.reset = m.stack := OperandStack.truncate_of_le hdepth
  rw [reset, hstack]

/-- **Every operation keeps a machine orderly**, whatever its outcome. -/
theorem Orderly.perform (h : m.Orderly config interpreter) (op : Operation β σ) (w : World σ) :
    (m.perform op w).2.1.Orderly config interpreter := by
  cases op with
  | prepare =>
    rcases m.prepare_cases w with ⟨-, he⟩ | ⟨e, -, -, he⟩ | ⟨-, hvalid, he⟩ <;> rw [Machine.perform, he]
    · exact h
    · exact h
    · rw [h.settings] at hvalid ⊢
      exact ⟨rfl, h.collaborator, rfl, fun _ => hvalid, fun module hm => ⟨rfl, (h.loaded module hm).2⟩⟩
  | load module =>
    rcases m.load_cases w module with ⟨-, he⟩ | ⟨-, -, he⟩ | ⟨hready, hsize, he⟩ <;> rw [Machine.perform, he]
    · exact h
    · exact h
    · refine ⟨h.settings, h.collaborator, h.stack, h.valid, fun module' hm => ?_⟩
      obtain rfl := Option.some.inj hm
      exact ⟨hready, hsize⟩
  | run index =>
    have hrun := m.runWith_machine index #[] w
    rw [Machine.perform, run, hrun]
    exact h.withStats _
  | runWith index args =>
    rw [Machine.perform, m.runWith_machine index args w]
    exact h.withStats _
  | runEntry =>
    rw [Machine.perform, m.runEntry_machine w]
    exact h.withStats _
  | reset =>
    rw [Machine.perform, h.reset_eq]
    exact h

/-- **A machine is orderly after every history.** -/
theorem History.orderly (h : History config interpreter past m) : m.Orderly config interpreter := by
  induction h with
  | new => exact orderly_new config interpreter
  | next _ op w ih => exact ih.perform op w

/-! ## What follows -/

/-- No run ends because the module has no functions. -/
theorem runWith_ne_emptyModule (m : Machine β σ) (index : Nat) (args : Array Word) (w : World σ) (name : String) :
    (m.runWith index args w).1 ≠ .error (.emptyModule name) := by
  intro heq
  rcases m.runnable_cases index args.size with
    ⟨-, h⟩ | ⟨-, -, h⟩ | ⟨_, -, -, -, h⟩ | ⟨_, _, -, -, -, -, h⟩ | ⟨module, f, -, -, -, -, h⟩
  · rw [runWith, h] at heq
    cases heq
  · rw [runWith, h] at heq
    cases heq
  · rw [runWith, h] at heq
    cases heq
  · rw [runWith, h] at heq
    cases heq
  · rw [runWith_of_runnable h, outcome_fst] at heq
    generalize (iterate (m.context module) f args m.config.loopCount.toNat 0 0 (m.startState f index w)).1 = r at heq
    cases r <;> cases heq

theorem Orderly.runEntry_ne_emptyModule (h : m.Orderly config interpreter) (w : World σ) (name : String) :
    (m.runEntry w).1 ≠ .error (.emptyModule name) := by
  intro heq
  rcases m.runEntry_cases w with ⟨-, he⟩ | ⟨-, -, he⟩ | ⟨module, -, hm, hsize, he⟩ | ⟨module, -, -, -, he⟩
  · rw [he] at heq
    cases heq
  · rw [he] at heq
    cases heq
  · have hpos := (h.loaded module hm).2
    omega
  · rw [he] at heq
    exact m.runWith_ne_emptyModule _ _ w name heq

/-- Machines whose settings are refused are never ready, and `prepare` says so at every attempt. -/
theorem Orderly.prepare_of_invalid (h : m.Orderly config interpreter) {e : ConfigError}
    (hinvalid : config.validate = .error e) (w : World σ) : (m.prepare w).1 = .error (.config e) := by
  have hready : m.ready = false := by
    cases hr : m.ready with
    | false => rfl
    | true =>
      have hvalid := h.valid hr
      rw [hinvalid] at hvalid
      cases hvalid
  rcases m.prepare_cases w with ⟨hr, -⟩ | ⟨e', -, he', hp⟩ | ⟨-, hvalid, -⟩
  · rw [hready] at hr
    cases hr
  · rw [h.settings, hinvalid] at he'
    rw [hp, Except.error.inj he']
  · rw [h.settings, hinvalid] at hvalid
    cases hvalid

/-- The machine was prepared. -/
def Performed.prepares : Performed β σ → Bool
  | ⟨.prepare, answer⟩ => Except.isOk (show Except MachineError Unit from answer)
  | _                  => false

/-- **A machine is ready after it was prepared once, and it was never prepared more than once.** -/
theorem History.countP_prepares (h : History config interpreter past m) :
    past.countP Performed.prepares = m.ready.toNat := by
  induction h with
  | new => rfl
  | @next past m before op w ih =>
    rw [List.countP_cons, ih]
    cases op with
    | prepare =>
      rcases m.prepare_cases w with ⟨hr, he⟩ | ⟨e, hr, -, he⟩ | ⟨hr, -, he⟩ <;>
        simp [Performed.prepares, Machine.perform, he, hr, Except.isOk, Except.toBool]
    | _ =>
      rw [m.ready_perform w (by intro h; cases h)]
      rfl

theorem History.prepare_answers (h : History config interpreter past m) {e : ConfigError}
    (hinvalid : config.validate = .error e) :
    ∀ answer, ⟨.prepare, answer⟩ ∈ past → answer = Except.error (.config e) := by
  induction h with
  | new =>
    intro answer hmem
    cases hmem
  | @next past m before op w ih =>
    intro answer hmem
    rcases List.mem_cons.1 hmem with heq | hmem
    · cases heq
      exact before.orderly.prepare_of_invalid hinvalid w
    · exact ih answer hmem

/-- **A run that is not refused begins with an invocation**: its function is entered in the first step, unless the stack
has no room for the arguments. -/
theorem exists_first_invocation (hloop : m.config.loopCount ≠ 0) (hdepth : m.config.limits.maxRecursionDepth ≠ 0)
    {index : Nat} {args : Array Word} {module : Module β σ} {f : Function β σ}
    (hrun : m.runnable index args.size = .ok (module, f)) (w : World σ) :
    ∃ mo, m.moment index args w 1 = some mo ∧
      ((∃ entry, mo.entries = [entry] ∧ entry.function = f) ∨
        (m.stack.limit < m.stack.depth + args.size ∧ mo.stage = .ended (.error (.stackOverflow m.stack.limit)))) := by
  obtain ⟨more, hmore⟩ : ∃ more, m.config.loopCount.toNat = more + 1 :=
    Nat.exists_eq_succ_of_ne_zero fun h => hloop (UInt64.toNat_inj.1 h)
  have hlevels : 0 < (m.context module).maxDepth := Nat.pos_of_ne_zero fun h => hdepth (UInt64.toNat_inj.1 h)
  refine ⟨_, moment_of_runnable hrun 1, ?_⟩
  have hstage : (Moment.start m.config.loopCount.toNat (m.startState f index w) : Moment β σ).stage =
      .between (more + 1) 0 0 := by rw [hmore]; rfl
  rw [Function.iterate_one]
  rcases Entry.placed_fromOutside (m.context module).convention f args (m.startState f index w) with
    ⟨entry, s, he, hp, -⟩ | ⟨he, hfull⟩
  · refine .inl ⟨entry, ?_, hp.function⟩
    have hbelow : s.nesting < (m.context module).maxDepth := by
      rw [hp.nesting]
      exact hlevels
    rw [Moment.step_between_ok hstage he, Moment.attempt_of_lt hbelow]
    rfl
  · refine .inr ⟨hfull, ?_⟩
    rw [Moment.step_between_error hstage he]
    rfl

/-- A run of `f` that comes to this outcome has invoked `f`: the first body it entered is that of `f`, unless the stack
has no room for the arguments, and then it answers just that. -/
def Invokes (m : Machine β σ) (f : Function β σ) (index : Nat) (args : Array Word) (w : World σ)
    (outcome : Except MachineError Word × Machine β σ × World σ) : Prop :=
  ∃ n mo r, m.moment index args w n = some mo ∧ mo.stage = .ended r ∧ outcome = m.outcome f r mo.state ∧
    ((∃ entry, entry.function = f ∧ [entry] <:+ mo.entries) ∨
      (m.stack.limit < m.stack.depth + args.size ∧ r = .error (.stackOverflow m.stack.limit)))

theorem invokes_runWith (hloop : m.config.loopCount ≠ 0) (hdepth : m.config.limits.maxRecursionDepth ≠ 0)
    {index : Nat} {args : Array Word} {module : Module β σ} {f : Function β σ}
    (hrun : m.runnable index args.size = .ok (module, f)) (w : World σ) :
    m.Invokes f index args w (m.runWith index args w) := by
  obtain ⟨mo₁, hmo₁, hfirst⟩ := exists_first_invocation hloop hdepth hrun w
  obtain ⟨n, mo, r, hmo, hended⟩ := exists_moment_ended w hrun
  refine ⟨n, mo, r, hmo, hended, runWith_of_ended hrun hmo hended, ?_⟩
  have hlast : m.moment index args w (1 + n) = some mo := by
    rw [Nat.add_comm, moment_add hrun hmo 1, Function.iterate_one, Moment.step_ended hended]
  rw [moment_add hrun hmo₁ n] at hlast
  obtain rfl := Option.some.inj hlast
  rcases hfirst with ⟨entry, hentries, hentry⟩ | ⟨hfull, hstage⟩
  · have hlater := (Moment.extends_iterate (m.context module) f args mo₁ n).entries
    rw [hentries] at hlater
    exact .inl ⟨entry, hentry, hlater⟩
  · rw [Moment.iterate_step_ended hstage] at hended
    exact .inr ⟨hfull, Stage.ended.inj (hended.symm.trans hstage)⟩

/-- **What holds between any two operations on a machine**, whatever was asked of it before and whatever came of it.
The stack is empty and as large as the settings say, the settings are the ones it was made with, a machine that is ready
has valid settings, and a machine with a module is ready and the module has a function.  Hence `runEntry` never finds a
module empty; a run that is not refused begins with an invocation, whichever operation asks for it; the machine was
prepared at most once; and with settings that are not valid every attempt to prepare it fails, and fails for the same
reason. -/
theorem holds_between_operations (h : History config interpreter past m) :
    m.stack.words = [] ∧ m.stack.limit = config.limits.maxStackSize.toNat ∧ m.config = config ∧
    (m.ready = true → m.config.validate = .ok ()) ∧
    (∀ module, m.module = some module → m.ready = true ∧ 0 < module.size) ∧
    (∀ w name, (m.runEntry w).1 ≠ .error (.emptyModule name)) ∧
    (∀ index args w module f, m.runnable index args.size = .ok (module, f) →
      0 < m.config.loopCount.toNat ∧ ∃ mo, m.moment index args w 1 = some mo ∧
        ((∃ entry, mo.entries = [entry] ∧ entry.function = f) ∨
          (m.stack.limit < args.size ∧ mo.stage = .ended (.error (.stackOverflow m.stack.limit))))) ∧
    (∀ index args w module f, m.runnable index args.size = .ok (module, f) →
      m.Invokes f index args w (m.runWith index args w)) ∧
    (∀ index w module f, m.runnable index 0 = .ok (module, f) → m.Invokes f index #[] w (m.run index w)) ∧
    (∀ w module f, m.runnable (module.size - 1) 0 = .ok (module, f) →
      m.Invokes f (module.size - 1) #[] w (m.runEntry w)) ∧
    past.countP Performed.prepares ≤ 1 ∧
    (∀ e, config.validate = .error e →
      (∀ answer, ⟨.prepare, answer⟩ ∈ past → answer = Except.error (.config e)) ∧
      ∀ w, (m.prepare w).1 = .error (.config e)) := by
  have ho := h.orderly
  have hwords : m.stack.words = [] := congrArg OperandStack.words ho.stack
  have hvalid : m.ready = true → m.config.validate = .ok () := fun hr => by rw [ho.settings]; exact ho.valid hr
  have hpositive : ∀ {index count module f}, m.runnable index count = .ok (module, f) →
      m.config.loopCount ≠ 0 ∧ m.config.limits.maxRecursionDepth ≠ 0 := by
    intro index count module f hrun
    obtain ⟨hloop, -, hlevels⟩ := m.config.validate_eq_ok.1 (hvalid (ho.loaded module (runnable_spec hrun).1).1)
    exact ⟨hloop, hlevels⟩
  have hinvokes : ∀ index args w module f, m.runnable index args.size = .ok (module, f) →
      m.Invokes f index args w (m.runWith index args w) := fun _ _ w _ _ hrun =>
    invokes_runWith (hpositive hrun).1 (hpositive hrun).2 hrun w
  refine ⟨hwords, congrArg OperandStack.limit ho.stack, ho.settings, hvalid, ho.loaded,
    fun w name => ho.runEntry_ne_emptyModule w name, ?_, hinvokes,
    fun index w module f hrun => hinvokes index #[] w module f hrun, ?_, ?_, ?_⟩
  · intro index args w module f hrun
    obtain ⟨hloop, hlevels⟩ := hpositive hrun
    obtain ⟨mo, hmo, hfirst⟩ := exists_first_invocation hloop hlevels hrun w
    rw [OperandStack.depth_eq_length, hwords, List.length_nil, Nat.zero_add] at hfirst
    exact ⟨Nat.pos_of_ne_zero fun h => hloop (UInt64.toNat_inj.1 h), mo, hmo, hfirst⟩
  · intro w module f hrun
    rw [m.runEntry_of_runnable w hrun]
    exact hinvokes _ #[] w module f hrun
  · rw [h.countP_prepares]
    cases m.ready <;> decide
  · intro e hinvalid
    exact ⟨h.prepare_answers hinvalid, fun w => ho.prepare_of_invalid hinvalid w⟩

/-- A run that fails in a body, after a call from it was refused, leaves the stack empty. -/
theorem holds_between_operations_differences :
    ∃ (past : List (Performed (Body Unit) Unit)) (m : Machine (Body Unit) Unit),
      History { limits := { maxRecursionDepth := 1 } } .ofPrograms past m ∧
      ⟨.runWith 1 #[9], Except.error (.runtime "differences" .stackUnderflow)⟩ ∈ past ∧
      m.stack.words = [] ∧ past.countP Performed.prepares ≤ 1 := by
  have h : History { limits := { maxRecursionDepth := 1 } } (.ofPrograms : Interpreter (Body Unit) Unit) _ _ :=
    ((History.new.next .prepare ⟨#[], ()⟩).next (.load (.ofPrograms "programs" samplePrograms (· == 0)))
      ⟨#[], ()⟩).next (.runWith 1 #[9]) ⟨#[], ()⟩
  obtain ⟨hwords, -, -, -, -, -, -, -, -, -, hcount, -⟩ := holds_between_operations h
  exact ⟨_, _, h, List.mem_cons.2 (.inl rfl), hwords, hcount⟩

end Machine
end MixedMode
