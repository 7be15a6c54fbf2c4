import MixedMode.Config.Basic
import MixedMode.Log.Event
/-!
# Filters — which events are shown

A log configuration has a level for everything and may have another one for a phase.  A target is governed by the
longest listed name that it begins with, else by the default, and an event is shown when it is no more verbose than
the level that governs its target.
-/
namespace MixedMode

/-- Levels by the beginning of a target, over a default. -/
structure Targets where
  default : Level
  directives : List (String × Level)
  deriving DecidableEq, Repr, Inhabited

namespace Targets

def withDefault (l : Level) : Targets := ⟨l, []⟩

def withTarget (t : Targets) (name : String) (l : Level) : Targets :=
  { t with directives := (t.directives.filter fun (other, _) => other != name) ++ [(name, l)] }

/-- Does the target begin with this name, taken as plain characters? -/
def covers (name target : String) : Bool := name.toList.isPrefixOf target.toList

/-- Of two directives the one with the longer name, the first when they are equally long. -/
def longer : Option (String × Level) → String × Level → Option (String × Level)
  | none, d   => some d
  | some c, d => if c.1.length < d.1.length then some d else some c

/-- The level that governs a target. -/
def governing (t : Targets) (target : String) : Level :=
  match (t.directives.filter fun (name, _) => covers name target).foldl longer none with
  | some (_, l) => l
  | none        => t.default

def enables (t : Targets) (target : String) (l : Level) : Bool :=
  l.verbosity ≤ (t.governing target).verbosity

end Targets

structure LogConfig where
  global : Level := .warn
  loader : Option Level := none
  vm : Option Level := none
  call : Option Level := none
  deriving DecidableEq, Repr, Inhabited

namespace LogConfig

/-- The level for a pair of switches; `debug` wins over `verbose`. -/
def ofFlags (verbose debug : Bool) : LogConfig :=
  { global := if debug then .trace else if verbose then .debug else .warn }

/-- The level that a machine's settings ask for, its own or its compiler's. -/
def ofMachineConfig (c : MachineConfig) : LogConfig :=
  ofFlags (c.verbose || c.jit.verbose) (c.debug || c.jit.debug)

def override? (c : LogConfig) : Phase → Option Level
  | .loader => c.loader
  | .vm     => c.vm
  | .call   => c.call

def levelFor (c : LogConfig) (p : Phase) : Level := (c.override? p).getD c.global

/-- The filter with one directive for each phase. -/
def targets (c : LogConfig) : Targets :=
  Phase.all.foldl (fun t p => t.withTarget p.target (c.levelFor p)) (.withDefault c.global)

def shows (c : LogConfig) (e : Event) : Bool := c.targets.enables e.target e.level

end LogConfig
end MixedMode
