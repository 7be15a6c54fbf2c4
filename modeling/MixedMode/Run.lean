import MixedMode.Loader
import MixedMode.Report
/-!
# Runs — from settings to a result

A run checks its settings, asks the loader for the module, and runs one function of it on a new machine as often as
the loop count says.
-/
namespace MixedMode

variable {β σ : Type}

/-- What a run that succeeds answers with. -/
structure RunResult where
  value : Word
  functionIndex : Nat
  iterations : Nat
  convention : Convention
  /-- The counters over all iterations. -/
  stats : CallStats
  deriving DecidableEq, Repr, Inhabited

/-- Run a function of a module that is already at hand. -/
def runModule (config : RunConfig) (module : Module β σ) (interpreter : Interpreter β σ) (args : Array Word)
    (w : World σ) : Except RunError RunResult × World σ :=
  match config.validate with
  | .error e => (.error (.config e), w)
  | .ok ()   =>
    let convention := config.callStyle
    match (config.entry.map UInt64.toNat).or module.entryIndex? with
    | none       => (.error (.emptyModule config.module convention), w)
    | some index =>
      let failed (e : MachineError) (w : World σ) := (.error (.ofMachine config.module index convention e), w)
      match (Machine.new config.machine interpreter).prepare w with
      | (.error e, _, w) => failed e w
      | (.ok (), m, w)   =>
        match m.load module w with
        | (.error e, _, w) => failed e w
        | (.ok (), m, w)   =>
          match m.runWith index args w with
          | (.error e, _, w)  => failed e w
          | (.ok value, m, w) =>
            (.ok { value, functionIndex := index, iterations := config.machine.loopCount.toNat, convention,
                   stats := m.stats },
              w.log (.completed config.module index convention value m.stats))

/-- Resolve the module that the settings name and run a function of it that takes no arguments. -/
def run (config : RunConfig) (loader : Loader β σ) (interpreter : Interpreter β σ) (w : World σ) :
    Except RunError RunResult × World σ :=
  match config.validate with
  | .error e => (.error (.config e), w)
  | .ok ()   =>
    match loader config.module (w.log (.configured config.summary)) with
    | (.error e, w)   => (.error (.load config.module config.callStyle e), w)
    | (.ok module, w) => runModule config module interpreter #[] w

end MixedMode
