import MixedMode.Call.Enter
import MixedMode.Config.Basic
/-!
# The machine — its life cycle and the run loop

A machine is prepared once, then loads modules and runs their functions.  It owns the operand stack, which is empty
between runs, and the counters, which only grow.  An operation that is refused leaves the machine as it was.
-/
namespace MixedMode

variable {β σ : Type}

/-- What is outside the machine: the log, and what the bodies keep. -/
structure World (σ : Type) where
  events : Array Event
  kept : σ

namespace World

def log (w : World σ) (e : Event) : World σ := { w with events := w.events.push e }

end World

structure Machine (β σ : Type) where
  config : MachineConfig
  interpreter : Interpreter β σ
  stack : OperandStack
  module : Option (Module β σ)
  stats : CallStats
  ready : Bool

namespace Machine

def new (config : MachineConfig) (interpreter : Interpreter β σ) : Machine β σ :=
  { config, interpreter, stack := .empty config.limits.maxStackSize.toNat, module := none, stats := .zero,
    ready := false }

/-- Check the settings and prepare the operand stack; done once, before any module is loaded. -/
def prepare (m : Machine β σ) (w : World σ) : Except MachineError Unit × Machine β σ × World σ :=
  if m.ready then (.error .alreadyInitialized, m, w)
  else
    match m.config.validate with
    | .error e => (.error (.config e), m, w)
    | .ok ()   =>
      let limits := m.config.limits
      let stack := .withCapacity m.config.initialStackSize.toNat limits.maxStackSize.toNat
      (.ok (), { m with stack, ready := true }, w.log (.prepared m.config.callStyle m.config.loopCount.toNat
        limits.maxStackSize.toNat limits.maxRecursionDepth.toNat))

/-- Attach a module, in place of any other. -/
def load (m : Machine β σ) (module : Module β σ) (w : World σ) :
    Except MachineError Unit × Machine β σ × World σ :=
  if !m.ready then (.error .notInitialized, m, w)
  else if module.isEmpty then (.error (.emptyModule module.name), m, w)
  else (.ok (), { m with module := some module }, w.log (.loaded module.name module.size module.compiledCount))

def context (m : Machine β σ) (module : Module β σ) : Context β σ :=
  { module, interpreter := m.interpreter, convention := m.config.callStyle,
    maxDepth := m.config.limits.maxRecursionDepth.toNat }

/-- Invoke a function so many more times, numbering the iterations from `next`; the answer is the last result, or
the error of the first iteration that fails. -/
def iterate (cx : Context β σ) (f : Function β σ) (args : Array Word) :
    (more next : Nat) → (last : Word) → CallState σ → Except RuntimeError Word × CallState σ
  | 0, _, last, s           => (.ok last, s)
  | more + 1, next, _, s =>
    match cx.invoke f args s with
    | (.error e, s) => (.error e, s)
    | (.ok w, s)    => iterate cx f args more (next + 1) w { s with events := s.events.push (.iterated next w) }

/-- The function that a run is about, when the machine can run it on this many arguments. -/
def runnable (m : Machine β σ) (index count : Nat) : Except MachineError (Module β σ × Function β σ) :=
  if !m.ready then .error .notInitialized
  else
    match m.module with
    | none => .error .noModuleLoaded
    | some module =>
      match module.function? index with
      | none   => .error (.indexOutOfRange module.name index module.size)
      | some f =>
        if count = f.arity then .ok (module, f) else .error (.arityMismatch f.name f.arity count)

/-- Run a function as often as the loop count says and answer with the last result.  All its invocations share one
state; no body is open when the first begins. -/
def runWith (m : Machine β σ) (index : Nat) (args : Array Word) (w : World σ) :
    Except MachineError Word × Machine β σ × World σ :=
  match m.runnable index args.size with
  | .error e => (.error e, m, w)
  | .ok (module, f) =>
    let cx := m.context module
    let loopCount := m.config.loopCount.toNat
    let w := w.log (.started f.name index cx.convention loopCount)
    match iterate cx f args loopCount 0 0 ⟨m.stack, m.stats, w.events, w.kept, 0⟩ with
    | (.error e, s) =>
      (.error (.runtime f.name e), { m with stack := s.stack, stats := s.stats }, ⟨s.events, s.kept⟩)
    | (.ok result, s) =>
      (.ok result, { m with stack := s.stack, stats := s.stats },
        ⟨s.events.push (.finished f.name result s.stats), s.kept⟩)

def run (m : Machine β σ) (index : Nat) (w : World σ) : Except MachineError Word × Machine β σ × World σ :=
  m.runWith index #[] w

def runEntry (m : Machine β σ) (w : World σ) : Except MachineError Word × Machine β σ × World σ :=
  if !m.ready then (.error .notInitialized, m, w)
  else
    match m.module with
    | none => (.error .noModuleLoaded, m, w)
    | some module =>
      match module.entryIndex? with
      | none       => (.error (.emptyModule module.name), m, w)
      | some index => m.run index w

def reset (m : Machine β σ) : Machine β σ := { m with stack := m.stack.reset }

end Machine
end MixedMode
