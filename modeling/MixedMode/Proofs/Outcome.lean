import MixedMode.Proofs.LifeCycle
import MixedMode.Run
/-!
# Outcome — what a run comes to

A run of a module at hand decides in a fixed order: the settings, whether the module has a function, the index, the
number of arguments; then it invokes the function until an invocation fails or the loop count is reached.
`RunConfig.Outcome` has one case for each way to end, and a run ends in a way just when that is its outcome
(`runModule_eq_iff`).  What is refused depends on no body (`Outcome.of_interface_eq`).  A run that also has to find its
module asks the loader in between (`run_decides`).
-/
namespace MixedMode

variable {β σ : Type}

namespace RunConfig

/-- The function that is run: the one named, or else the last. -/
def index (config : RunConfig) (module : Module β σ) : Nat :=
  match config.entry with
  | some index => index.toNat
  | none       => module.size - 1

/-- The world once the machine is prepared. -/
def prepared (config : RunConfig) (w : World σ) : World σ :=
  w.log (.prepared config.callStyle config.machine.loopCount.toNat config.machine.limits.maxStackSize.toNat
    config.machine.limits.maxRecursionDepth.toNat)

/-- The world once the machine has its module. -/
def loaded (config : RunConfig) (module : Module β σ) (w : World σ) : World σ :=
  (config.prepared w).log (.loaded module.name module.size module.compiledCount)

/-- The machine on which a module is run. -/
def ready (config : RunConfig) (module : Module β σ) (interpreter : Interpreter β σ) : Machine β σ :=
  { Machine.new config.machine interpreter with module := some module, ready := true }

/-- What a run of a module at hand comes to, and the world it leaves.  The cases exclude each other.  The first four
name all that they depend on, which is no body. -/
inductive Outcome (config : RunConfig) (interpreter : Interpreter β σ) (module : Module β σ) (args : Array Word)
    (w : World σ) : Except RunError RunResult → World σ → Prop
  | invalid {e : ConfigError} (hinvalid : config.validate = .error e) :
      Outcome config interpreter module args w (.error (.config e)) w
  | empty (hvalid : config.validate = .ok ()) (hempty : module.size = 0) :
      Outcome config interpreter module args w (.error (.emptyModule config.module config.callStyle))
        (if config.entry.isSome then config.prepared w else w)
  | outOfRange (hvalid : config.validate = .ok ()) (hsize : 0 < module.size)
      (hindex : module.size ≤ config.index module) :
      Outcome config interpreter module args w
        (.error (.indexOutOfRange config.module (config.index module) module.size config.callStyle))
        (config.loaded module w)
  | wrongCount {f : Function β σ} (hvalid : config.validate = .ok ())
      (hf : module.function? (config.index module) = some f) (hcount : args.size ≠ f.arity) :
      Outcome config interpreter module args w
        (.error (.arityMismatch config.module (config.index module) f.arity args.size config.callStyle))
        (config.loaded module w)
  /-- So many invocations return, fewer than the loop count, and the next one fails. -/
  | failed {f : Function β σ} {words : List Word} {s s' : CallState σ} {e : RuntimeError}
      (hvalid : config.validate = .ok ()) (hf : module.function? (config.index module) = some f)
      (hcount : args.size = f.arity) (hlength : words.length < config.machine.loopCount.toNat)
      (hreturned : Machine.Iterated ((config.ready module interpreter).context module) f args
        ((config.ready module interpreter).startState f (config.index module) (config.loaded module w)) words s)
      (hfailed : ((config.ready module interpreter).context module).invoke f args s = (.error e, s')) :
      Outcome config interpreter module args w
        (.error (.runtime config.module (config.index module) config.callStyle e)) ⟨s'.events, s'.kept⟩
  /-- As many invocations return as the loop count says, the last one this value. -/
  | finished {f : Function β σ} {words : List Word} {s : CallState σ} {value : Word}
      (hvalid : config.validate = .ok ()) (hf : module.function? (config.index module) = some f)
      (hcount : args.size = f.arity) (hlength : (value :: words).length = config.machine.loopCount.toNat)
      (hreturned : Machine.Iterated ((config.ready module interpreter).context module) f args
        ((config.ready module interpreter).startState f (config.index module) (config.loaded module w))
        (value :: words) s) :
      Outcome config interpreter module args w
        (.ok { value, functionIndex := config.index module, iterations := config.machine.loopCount.toNat,
               convention := config.callStyle, stats := s.stats })
        ⟨(s.events.push (.finished f.name value s.stats)).push
          (.completed config.module (config.index module) config.callStyle value s.stats), s.kept⟩

end RunConfig

/-! ## Each run has its outcome -/

section

variable {config : RunConfig} {interpreter : Interpreter β σ} {module : Module β σ} {args : Array Word} {w w' : World σ}
  {f : Function β σ} {r : Except RunError RunResult}

theorem Module.lt_size_of_function? {index : Nat} (h : module.function? index = some f) : index < module.size :=
  (Array.getElem?_eq_some_iff.1 h).1

theorem RunConfig.entry_or_entryIndex? (hsize : 0 < module.size) :
    (config.entry.map UInt64.toNat).or module.entryIndex? = some (config.index module) := by
  unfold RunConfig.index Module.entryIndex?
  cases config.entry with
  | some index => rfl
  | none => rw [if_neg (Nat.ne_of_gt hsize)]; rfl

theorem RunConfig.prepare_new (hvalid : config.validate = .ok ()) :
    (Machine.new config.machine interpreter).prepare w =
      (.ok (), { Machine.new config.machine interpreter with ready := true }, config.prepared w) := by
  have hmachine : config.machine.validate = .ok () := hvalid
  rw [Machine.prepare]
  simp only [Machine.new, hmachine]
  rfl

theorem RunConfig.runnable_ready (index count : Nat) :
    (config.ready module interpreter).runnable index count =
      match module.function? index with
      | none   => .error (.indexOutOfRange module.name index module.size)
      | some f => if count = f.arity then .ok (module, f) else .error (.arityMismatch f.name f.arity count) :=
  rfl

theorem RunConfig.runnable_ready_ok (config : RunConfig) (interpreter : Interpreter β σ) {index count : Nat}
    (hf : module.function? index = some f) (hcount : count = f.arity) :
    (config.ready module interpreter).runnable index count = .ok (module, f) := by
  rw [runnable_ready, hf]
  exact if_pos hcount

/-- With valid settings and a module that has a function, everything is left to the machine. -/
theorem runModule_of_valid (hvalid : config.validate = .ok ()) (hsize : 0 < module.size) :
    runModule config module interpreter args w =
      match (config.ready module interpreter).runWith (config.index module) args (config.loaded module w) with
      | (.error e, _, w)  => (.error (.ofMachine config.module (config.index module) config.callStyle e), w)
      | (.ok value, m, w) =>
        (.ok { value, functionIndex := config.index module, iterations := config.machine.loopCount.toNat,
               convention := config.callStyle, stats := m.stats },
          w.log (.completed config.module (config.index module) config.callStyle value m.stats)) := by
  have hload : ({ Machine.new config.machine interpreter with ready := true } : Machine β σ).load module
      (config.prepared w) = (.ok (), config.ready module interpreter, config.loaded module w) := by
    rcases Machine.load_cases { Machine.new config.machine interpreter with ready := true } (config.prepared w) module
      with ⟨hready, -⟩ | ⟨-, hempty, -⟩ | ⟨-, -, he⟩
    · cases hready
    · omega
    · exact he
  rw [runModule, hvalid]
  dsimp only
  rw [RunConfig.entry_or_entryIndex? hsize]
  dsimp only
  rw [RunConfig.prepare_new hvalid]
  dsimp only
  generalize Machine.load _ module (config.prepared w) = answer at hload ⊢
  obtain rfl := hload
  rfl

/-- A module without functions is refused by the run itself, or by the machine when the settings name an index. -/
theorem runModule_of_empty (hvalid : config.validate = .ok ()) (hempty : module.size = 0) :
    runModule config module interpreter args w =
      (.error (.emptyModule config.module config.callStyle), if config.entry.isSome then config.prepared w else w) := by
  rw [runModule, hvalid]
  dsimp only
  cases hentry : config.entry with
  | none =>
    rw [module.entryIndex?_eq_none.2 hempty]
    rfl
  | some index =>
    dsimp only [Option.map_some, Option.some_or]
    rw [RunConfig.prepare_new hvalid]
    dsimp only
    rcases Machine.load_cases { Machine.new config.machine interpreter with ready := true } (config.prepared w) module
      with ⟨hready, -⟩ | ⟨-, -, he⟩ | ⟨-, hsize, -⟩
    · cases hready
    · rw [he]
      rfl
    · omega

namespace RunConfig.Outcome

/-- **A run comes to its outcome.** -/
theorem runModule_eq (h : config.Outcome interpreter module args w r w') :
    runModule config module interpreter args w = (r, w') := by
  cases h with
  | invalid hinvalid => rw [runModule, hinvalid]
  | empty hvalid hempty => exact runModule_of_empty hvalid hempty
  | outOfRange hvalid hsize hindex =>
    have hf : module.function? (config.index module) = none := Array.getElem?_eq_none_iff.2 hindex
    have hrun : (config.ready module interpreter).runnable (config.index module) args.size =
        .error (.indexOutOfRange module.name (config.index module) module.size) := by
      rw [runnable_ready, hf]
    rw [runModule_of_valid hvalid hsize, Machine.runWith, hrun]
    rfl
  | @wrongCount f hvalid hf hcount =>
    have hrun : (config.ready module interpreter).runnable (config.index module) args.size =
        .error (.arityMismatch f.name f.arity args.size) := by
      rw [runnable_ready, hf]
      exact if_neg hcount
    rw [runModule_of_valid hvalid (Nat.zero_lt_of_lt (Module.lt_size_of_function? hf)), Machine.runWith, hrun]
    rfl
  | @failed f words s s' e hvalid hf hcount hlength hreturned hfailed =>
    have hrun := runnable_ready_ok config interpreter hf hcount
    rw [runModule_of_valid hvalid (Nat.zero_lt_of_lt (Module.lt_size_of_function? hf)),
      Machine.runWith_of_runnable hrun]
    have hiterate := hreturned.iterate_of_error 0 hlength hfailed
    rw [show (config.ready module interpreter).config.loopCount = config.machine.loopCount from rfl, hiterate]
    rfl
  | @finished f words s value hvalid hf hcount hlength hreturned =>
    have hrun := runnable_ready_ok config interpreter hf hcount
    rw [runModule_of_valid hvalid (Nat.zero_lt_of_lt (Module.lt_size_of_function? hf)),
      Machine.runWith_of_runnable hrun]
    have hiterate := hreturned.iterate_of_length 0
    rw [show (config.ready module interpreter).config.loopCount = config.machine.loopCount from rfl, ← hlength,
      hiterate]
    rfl

/-- No outcome is a failure of the machine's life cycle. -/
theorem ne_machine (h : config.Outcome interpreter module args w r w') (cause : MachineError) :
    r ≠ .error (.machine cause) := by
  intro hr
  cases h <;> cases hr

end RunConfig.Outcome

/-- **There is an outcome for every run.** -/
theorem RunConfig.exists_outcome (config : RunConfig) (interpreter : Interpreter β σ) (module : Module β σ)
    (args : Array Word) (w : World σ) : ∃ r w', config.Outcome interpreter module args w r w' := by
  cases hvalid : config.validate with
  | error e => exact ⟨_, _, .invalid hvalid⟩
  | ok u =>
    by_cases hempty : module.size = 0
    · exact ⟨_, _, .empty hvalid hempty⟩
    cases hf : module.function? (config.index module) with
    | none => exact ⟨_, _, .outOfRange hvalid (Nat.pos_of_ne_zero hempty) (Array.getElem?_eq_none_iff.1 hf)⟩
    | some f =>
      by_cases hcount : args.size = f.arity
      · rcases Machine.exists_iterated ((config.ready module interpreter).context module) f args
            ((config.ready module interpreter).startState f (config.index module) (config.loaded module w))
            config.machine.loopCount.toNat with
          ⟨words, s, hlength, hreturned⟩ | ⟨words, s, e, s', hlength, hreturned, hfailed⟩
        · -- the loop count is not 0, so there is a last word
          have hloop := (config.machine.validate_eq_ok.1 hvalid).1
          cases words with
          | nil => exact absurd (UInt64.toNat_inj.1 hlength.symm) hloop
          | cons value words => exact ⟨_, _, .finished hvalid hf hcount hlength hreturned⟩
        · exact ⟨_, _, .failed hvalid hf hcount hlength hreturned hfailed⟩
      · exact ⟨_, _, .wrongCount hvalid hf hcount⟩

/-- **A run ends in a way if and only if that is its outcome.** -/
theorem runModule_eq_iff :
    runModule config module interpreter args w = (r, w') ↔ config.Outcome interpreter module args w r w' := by
  constructor
  · intro hrun
    obtain ⟨r₀, w₀, h⟩ := config.exists_outcome interpreter module args w
    rw [h.runModule_eq] at hrun
    obtain ⟨rfl, rfl⟩ := Prod.mk.inj hrun
    exact h
  · intro h
    exact h.runModule_eq

end

/-! ## A run that is refused enters no body -/

namespace Module

/-- All of a module but its bodies. -/
def interface (module : Module β σ) : String × Array (Signature × Bool) :=
  (module.name, module.functions.map fun f => (f.signature, f.isCompiled))

variable {γ : Type} {M : Module β σ} {N : Module γ σ}

theorem size_of_interface_eq (h : M.interface = N.interface) : M.size = N.size := by
  have hsize := congrArg Array.size (Prod.mk.inj h).2
  rwa [Array.size_map, Array.size_map] at hsize

theorem compiledCount_of_interface_eq (h : M.interface = N.interface) : M.compiledCount = N.compiledCount := by
  have hcount := congrArg (Array.countP (·.2)) (Prod.mk.inj h).2
  rwa [Array.countP_map, Array.countP_map] at hcount

theorem function?_of_interface_eq (h : M.interface = N.interface) {index : Nat} {f : Function β σ}
    (hf : M.function? index = some f) : ∃ g, N.function? index = some g ∧ g.arity = f.arity := by
  have hat := congrArg (·[index]?) (Prod.mk.inj h).2
  simp only [Array.getElem?_map] at hat
  rw [show M.functions[index]? = some f from hf] at hat
  obtain ⟨g, hg, heq⟩ := Option.map_eq_some_iff.1 hat.symm
  exact ⟨g, hg, congrArg (·.1.arity) heq⟩

end Module

/-- The run was refused: every failure but one of a body. -/
def RunError.isRefusal : RunError → Bool
  | runtime .. => false
  | _          => true

namespace RunConfig

variable {γ : Type} {config : RunConfig} {interpreter : Interpreter β σ} {interpreter' : Interpreter γ σ}
  {M : Module β σ} {N : Module γ σ} {args : Array Word} {w w' : World σ} {e : RunError}

theorem index_of_interface_eq (config : RunConfig) (h : M.interface = N.interface) : config.index M = config.index N := by
  unfold index
  rw [Module.size_of_interface_eq h]

theorem loaded_of_interface_eq (config : RunConfig) (h : M.interface = N.interface) (w : World σ) :
    config.loaded M w = config.loaded N w := by
  unfold loaded
  rw [Module.size_of_interface_eq h, Module.compiledCount_of_interface_eq h, (Prod.mk.inj h).1]

/-- **A refusal does not depend on any body**: it is the same for a module with other bodies, and for any other
interpreter. -/
theorem Outcome.of_interface_eq (h : config.Outcome interpreter M args w (.error e) w') (hrefusal : e.isRefusal = true)
    (heq : M.interface = N.interface) : config.Outcome interpreter' N args w (.error e) w' := by
  have hsize := Module.size_of_interface_eq heq
  have hindex := index_of_interface_eq config heq
  have hloaded := loaded_of_interface_eq config heq w
  cases h with
  | invalid hinvalid => exact .invalid hinvalid
  | empty hvalid hempty => exact .empty hvalid (hsize ▸ hempty)
  | outOfRange hvalid hpos hout =>
    rw [hloaded, hindex, hsize]
    rw [hindex] at hout
    exact .outOfRange hvalid (hsize ▸ hpos) (hsize ▸ hout)
  | @wrongCount f hvalid hf hcount =>
    obtain ⟨g, hg, harity⟩ := Module.function?_of_interface_eq heq hf
    rw [hloaded, ← harity, hindex]
    rw [hindex] at hg
    exact .wrongCount hvalid hg (harity ▸ hcount)
  | failed => cases hrefusal

/-- A refusal leaves alone what the bodies keep. -/
theorem Outcome.kept_of_isRefusal (h : config.Outcome interpreter M args w (.error e) w')
    (hrefusal : e.isRefusal = true) : w'.kept = w.kept := by
  cases h with
  | empty => split <;> rfl
  | failed => cases hrefusal
  | _ => rfl

end RunConfig

/-! ## Runs that find their module -/

section

variable {config : RunConfig} {interpreter : Interpreter β σ} {loader : Loader β σ} {w w' : World σ}

theorem run_of_invalid {e : ConfigError} (hinvalid : config.validate = .error e) :
    run config loader interpreter w = (.error (.config e), w) := by
  rw [run, hinvalid]

theorem run_of_load_error (hvalid : config.validate = .ok ()) {e : LoadError}
    (hload : loader config.module (w.log (.configured config.summary)) = (.error e, w')) :
    run config loader interpreter w = (.error (.load config.module config.callStyle e), w') := by
  rw [run, hvalid]
  dsimp only
  rw [hload]

theorem run_of_load_ok (hvalid : config.validate = .ok ()) {module : Module β σ}
    (hload : loader config.module (w.log (.configured config.summary)) = (.ok module, w')) :
    run config loader interpreter w = runModule config module interpreter #[] w' := by
  rw [run, hvalid]
  dsimp only
  rw [hload]

theorem runModule_ne_machine (config : RunConfig) (module : Module β σ) (interpreter : Interpreter β σ)
    (args : Array Word) (w : World σ) (cause : MachineError) :
    (runModule config module interpreter args w).1 ≠ .error (.machine cause) :=
  (runModule_eq_iff.1 (Prod.eta _)).ne_machine cause

theorem run_ne_machine (config : RunConfig) (loader : Loader β σ) (interpreter : Interpreter β σ) (w : World σ)
    (cause : MachineError) : (run config loader interpreter w).1 ≠ .error (.machine cause) := by
  intro hrun
  cases hvalid : config.validate with
  | error e =>
    rw [run_of_invalid hvalid] at hrun
    cases hrun
  | ok u =>
    cases hload : loader config.module (w.log (.configured config.summary)) with
    | mk answer w' =>
      cases answer with
      | error e =>
        rw [run_of_load_error hvalid hload] at hrun
        cases hrun
      | ok module =>
        rw [run_of_load_ok hvalid hload] at hrun
        exact runModule_ne_machine config module interpreter #[] w' cause hrun

end

/-- **What a run decides, and in which order.**  Settings that are not valid end it at once, whatever the loader.
Otherwise all it learns from the loader is one answer, to the path that the settings name: an error is reported with the
path and the convention, and a module is run as one at hand, without arguments.  A module at hand is run to exactly its
outcome, on a machine whose counters begin at zero.  A refused run enters no body: it leaves alone what the bodies keep,
and any other bodies and any other interpreter in their place make no difference.  No failure of the machine's life cycle
gets out. -/
theorem run_decides (config : RunConfig) (interpreter : Interpreter β σ) (w : World σ) :
    (∀ e, config.validate = .error e → ∀ loader, run config loader interpreter w = (.error (.config e), w)) ∧
    (config.validate = .ok () → ∀ loader : Loader β σ,
      (∀ e w', loader config.module (w.log (.configured config.summary)) = (.error e, w') →
        run config loader interpreter w = (.error (.load config.module config.callStyle e), w')) ∧
      (∀ module w', loader config.module (w.log (.configured config.summary)) = (.ok module, w') →
        ∀ r w'', run config loader interpreter w = (r, w'') ↔ config.Outcome interpreter module #[] w' r w'')) ∧
    (∀ module args r w', runModule config module interpreter args w = (r, w') ↔
      config.Outcome interpreter module args w r w') ∧
    (∀ module f index w, ((config.ready module interpreter).startState f index w).stats = .zero) ∧
    (∀ module args e w', runModule config module interpreter args w = (.error e, w') → e.isRefusal = true →
      w'.kept = w.kept ∧ ∀ (γ : Type) (interpreter' : Interpreter γ σ) (module' : Module γ σ),
        module.interface = module'.interface → runModule config module' interpreter' args w = (.error e, w')) ∧
    (∀ module args cause, (runModule config module interpreter args w).1 ≠ .error (.machine cause)) ∧
    (∀ loader cause, (run config loader interpreter w).1 ≠ .error (.machine cause)) := by
  refine ⟨fun e hinvalid loader => run_of_invalid hinvalid, fun hvalid loader => ⟨?_, ?_⟩, ?_, ?_, ?_, ?_, ?_⟩
  · intro e w' hload
    exact run_of_load_error hvalid hload
  · intro module w' hload r w''
    rw [run_of_load_ok hvalid hload]
    exact runModule_eq_iff
  · intro module args r w'
    exact runModule_eq_iff
  · intro module f index w
    rfl
  · intro module args e w' hrun hrefusal
    have houtcome := runModule_eq_iff.1 hrun
    refine ⟨houtcome.kept_of_isRefusal hrefusal, fun γ interpreter' module' heq => ?_⟩
    exact (houtcome.of_interface_eq hrefusal heq).runModule_eq
  · intro module args cause
    exact runModule_ne_machine config module interpreter args w cause
  · intro loader cause
    exact run_ne_machine config loader interpreter w cause

end MixedMode
