import MixedMode.Convention
import MixedMode.Stack
import MixedMode.Stats
/-!
# Log events — what is reported while modules load and run

An event is a fact with the values it carries.  Its level, the phase that reports it, its message and its fields, in
the order in which they are written, are functions of it.
-/
namespace MixedMode

/-- The phases of an execution; each logs under its own target. -/
inductive Phase where
  | loader
  | vm
  | call
  deriving DecidableEq, Repr, Inhabited

namespace Phase

def all : List Phase := [loader, vm, call]

theorem mem_all (p : Phase) : p ∈ all := by cases p <;> decide

def name : Phase → String
  | loader => "loader"
  | vm     => "vm"
  | call   => "call"

def target : Phase → String
  | loader => "tandem::loader"
  | vm     => "tandem::vm"
  | call   => "tandem::call"

end Phase

/-- How much a reader of the log wants to know, from the least to the most verbose. -/
inductive Level where
  | error
  | warn
  | info
  | debug
  | trace
  deriving DecidableEq, Repr, Inhabited

namespace Level

def all : List Level := [error, warn, info, debug, trace]

theorem mem_all (l : Level) : l ∈ all := by cases l <;> decide

def name : Level → String
  | error => "ERROR"
  | warn  => "WARN"
  | info  => "INFO"
  | debug => "DEBUG"
  | trace => "TRACE"

/-- How verbose the level is; `trace` is the most. -/
def verbosity : Level → Nat
  | error => 0
  | warn  => 1
  | info  => 2
  | debug => 3
  | trace => 4

end Level

/-- The value of a field: a number, a text that is data, or the text of a named thing, which is shown bare. -/
inductive FieldValue where
  | number (value : Int)
  | text (value : String)
  | bare (value : String)
  deriving DecidableEq, Repr, Inhabited

inductive Event where
  /-- A run is about to resolve its module; `summary` is the text of its configuration. -/
  | configured (summary : String)
  | resolved (path : String) (functions compiled : Nat)
  | prepared (convention : Convention) (loopCount maxStack maxDepth : Nat)
  | loaded (module : String) (functions compiled : Nat)
  | started (function : String) (index : Nat) (convention : Convention) (loopCount : Nat)
  /-- A callee without a native entry is interpreted under a convention that uses native entries. -/
  | fellBack (function : String) (convention : Convention)
  | iterated (iteration : Nat) (result : Word)
  | finished (function : String) (result : Word) (stats : CallStats)
  | completed (module : String) (index : Nat) (convention : Convention) (value : Word) (stats : CallStats)
  deriving DecidableEq, Repr, Inhabited

namespace Event

def phase : Event → Phase
  | configured _ | resolved .. => .loader
  | fellBack ..                => .call
  | _                          => .vm

def target (e : Event) : String := e.phase.target

def level : Event → Level
  | fellBack .. | iterated .. => .trace
  | completed ..              => .info
  | _                         => .debug

def message : Event → String
  | configured summary => s!"run configuration\n{summary}"
  | resolved ..        => "module resolved"
  | prepared ..        => "virtual machine initialized"
  | loaded ..          => "module loaded"
  | started ..         => "run started"
  | fellBack ..        => "no native entry, interpreting"
  | iterated ..        => "iteration finished"
  | finished ..        => "run finished"
  | completed ..       => "execution completed"

def statsFields (s : CallStats) : List (String × FieldValue) :=
  [("interpreted", .number s.interpreted), ("native", .number s.native), ("fallbacks", .number s.fallbacks)]

def fields : Event → List (String × FieldValue)
  | configured _ => []
  | resolved path functions compiled =>
    [("path", .bare path), ("functions", .number functions), ("compiled", .number compiled)]
  | prepared convention loopCount maxStack maxDepth =>
    [("convention", .bare convention.name), ("loop_count", .number loopCount), ("max_stack_size", .number maxStack),
      ("max_recursion_depth", .number maxDepth)]
  | loaded module functions compiled =>
    [("module", .text module), ("functions", .number functions), ("compiled", .number compiled)]
  | started function index convention loopCount =>
    [("function", .text function), ("index", .number index), ("convention", .bare convention.name),
      ("loop_count", .number loopCount)]
  | fellBack function convention => [("function", .text function), ("convention", .bare convention.name)]
  | iterated iteration result => [("iteration", .number iteration), ("result", .number result.toInt)]
  | finished function result stats =>
    [("function", .text function), ("result", .number result.toInt)] ++ statsFields stats
  | completed module index convention value stats =>
    [("module", .bare module), ("index", .number index), ("convention", .bare convention.name),
      ("value", .number value.toInt)] ++ statsFields stats

end Event
end MixedMode
