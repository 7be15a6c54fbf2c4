import MixedMode.Convention
import MixedMode.Error
import MixedMode.Json.Record
/-!
# Run failures and their reports

`RunError` is everything a run can fail with, together with the run's own context: the module's path, the function's
index and the convention, as far as the run got.  A `Report` is its structured form for people and for other programs.
-/
namespace MixedMode

inductive RunError where
  | config (cause : ConfigError)
  | load (path : String) (convention : Convention) (cause : LoadError)
  | emptyModule (path : String) (convention : Convention)
  | indexOutOfRange (path : String) (index size : Nat) (convention : Convention)
  | arityMismatch (path : String) (index expected actual : Nat) (convention : Convention)
  | runtime (path : String) (index : Nat) (convention : Convention) (cause : RuntimeError)
  | machine (cause : MachineError)
  deriving DecidableEq, Repr, Inhabited

structure Report where
  phase : String
  kind : String
  message : String
  module : Option String
  functionIndex : Option Nat
  convention : Option String
  deriving DecidableEq, Repr, Inhabited

namespace RunError

/-- A failure of the machine in the context of a run. -/
def ofMachine (path : String) (index : Nat) (convention : Convention) : MachineError → RunError
  | .config e                          => config e
  | .emptyModule _                     => emptyModule path convention
  | .indexOutOfRange _ index size      => indexOutOfRange path index size convention
  | .arityMismatch _ expected actual   => arityMismatch path index expected actual convention
  | .runtime _ cause                   => runtime path index convention cause
  | e                                  => machine e

def message : RunError → String
  | config cause       => s!"Config error: {cause.message}"
  | load _ _ cause     => s!"Load error: {cause.message}"
  | emptyModule path _ => s!"Load error: module {path} contains no functions"
  | indexOutOfRange path index size _ =>
    s!"Resolution error: function index {index} out of range for {path} ({size} functions)"
  | arityMismatch path index expected actual _ =>
    s!"Resolution error: function {index} in {path} expects {expected} arguments, got {actual}"
  | runtime path index convention cause =>
    s!"Runtime error in {path} function {index} ({convention.name}): {cause.message}"
  | machine cause => s!"VM error: {cause.message}"

/-- The texts of the causes below this failure, outermost first. -/
def causes : RunError → List String
  | config cause        => [cause.message]
  | load _ _ cause      => [cause.message]
  | runtime _ _ _ cause => [cause.message]
  | _                   => []

/-- How far the run had got. -/
def phase : RunError → String
  | config _                              => "config"
  | load .. | emptyModule ..              => "load"
  | indexOutOfRange .. | arityMismatch .. => "resolve"
  | runtime .. | machine _                => "runtime"

def module? : RunError → Option String
  | load path .. | emptyModule path .. | indexOutOfRange path .. | arityMismatch path .. | runtime path .. =>
    some path
  | config _ | machine _ => none

def functionIndex? : RunError → Option Nat
  | indexOutOfRange _ index .. | arityMismatch _ index .. | runtime _ index .. => some index
  | _ => none

def convention? : RunError → Option Convention
  | load _ convention _ | emptyModule _ convention | indexOutOfRange _ _ _ convention
  | arityMismatch _ _ _ _ convention | runtime _ _ convention _ => some convention
  | config _ | machine _ => none

/-- The name of the cause, for programs. -/
def kind : RunError → String
  | config cause        => cause.kind
  | load _ _ cause      => cause.kind
  | emptyModule ..      => "EmptyModule"
  | indexOutOfRange ..  => "IndexOutOfRange"
  | arityMismatch ..    => "ArityMismatch"
  | runtime _ _ _ cause => cause.kind
  | machine _           => "VmError"

/-- The message without what the report says elsewhere. -/
def detail : RunError → String
  | config cause                    => cause.message
  | load _ _ cause                  => cause.message
  | emptyModule path _              => s!"module {path} contains no functions"
  | indexOutOfRange _ index size _  => s!"function index {index} out of range ({size} functions)"
  | arityMismatch _ index expected actual _ => s!"function {index} expects {expected} arguments, got {actual}"
  | runtime _ _ _ cause             => cause.message
  | machine cause                   => cause.message

def report (e : RunError) : Report :=
  { phase := e.phase, kind := e.kind, message := e.detail, module := e.module?, functionIndex := e.functionIndex?,
    convention := e.convention?.map Convention.name }

end RunError

namespace Report

def line (r : Report) : String :=
  let head := s!"[{r.phase}] {r.phase} error: {r.message}"
  match r.module, r.functionIndex with
  | some module, some index => s!"{head} ({module}, function {index})"
  | some module, none       => s!"{head} ({module})"
  | none, _                 => head

def short (r : Report) : String := s!"{r.phase}: {r.message}"

def toJson (r : Report) : Json :=
  .ofFields [("phase", .ofString r.phase), ("error_kind", .ofString r.kind), ("message", .ofString r.message),
    ("module", .ofOption Json.ofString r.module), ("function_index", .ofOption Json.ofNat r.functionIndex),
    ("convention", .ofOption Json.ofString r.convention)]

def json (r : Report) : String := r.toJson.compact

end Report
end MixedMode
