import MixedMode.Path
/-!
# Errors — one cause type per layer

A failure is a cause with the values it names; its wording is `message`.  From the inside out: `RuntimeError` ends a
call chain, `ConfigError` refuses settings, `LoadError` refuses a module, `MachineError` refuses an operation of the
machine or wraps what ended a run.
-/
namespace MixedMode

/-- Why settings were refused, before anything ran. -/
inductive ConfigError where
  | unknownConvention (name : String)
  | invalidLoopCount (count : Nat)
  | invalidLimit (name : String)
  | malformed (reason : String)
  deriving DecidableEq, Repr, Inhabited

/-- What ended a call chain. -/
inductive RuntimeError where
  | stackUnderflow
  | stackOverflow (limit : Nat)
  | recursionLimit (limit : Nat)
  | unknownFunction (index : Nat)
  | arityMismatch (function : String) (expected actual : Nat)
  | argumentOutOfRange (function : String) (index arity : Nat)
  | localOutOfRange (function : String) (index count : Nat)
  | raised (text : String)
  deriving DecidableEq, Repr, Inhabited

/-- Why a path did not become a module. -/
inductive LoadError where
  | notFound (path : Path)
  | invalidFormat (path : Path) (reason : String)
  | symbolResolution (path : Path) (symbol : String)
  deriving DecidableEq, Repr, Inhabited

/-- Why the machine refused an operation, or how a run on it failed. -/
inductive MachineError where
  | notInitialized
  | alreadyInitialized
  | config (cause : ConfigError)
  | emptyModule (module : String)
  | noModuleLoaded
  | indexOutOfRange (module : String) (index size : Nat)
  | arityMismatch (function : String) (expected actual : Nat)
  | runtime (function : String) (cause : RuntimeError)
  deriving DecidableEq, Repr, Inhabited

namespace ConfigError

def message : ConfigError → String
  | unknownConvention name =>
    s!"unrecognized calling convention '{name}' (expected interpreter, direct, passparameter or operandstack)"
  | invalidLoopCount count => s!"loop count must be at least 1, got {count}"
  | invalidLimit name      => s!"limit '{name}' must be greater than zero"
  | malformed reason       => s!"failed to parse configuration: {reason}"

/-- The name of the cause in a structured report. -/
def kind : ConfigError → String
  | unknownConvention _ => "UnknownConvention"
  | invalidLoopCount _  => "InvalidLoopCount"
  | invalidLimit _      => "InvalidLimit"
  | malformed _         => "ConfigParse"

end ConfigError

namespace RuntimeError

def message : RuntimeError → String
  | stackUnderflow        => "operand stack underflow"
  | stackOverflow limit   => s!"operand stack overflow (limit {limit} words)"
  | recursionLimit limit  => s!"recursion depth limit {limit} exceeded"
  | unknownFunction index => s!"unknown function index {index}"
  | arityMismatch function expected actual => s!"function '{function}' expects {expected} arguments, got {actual}"
  | argumentOutOfRange function index arity =>
    s!"argument {index} out of range for '{function}' (arity {arity})"
  | localOutOfRange function index count =>
    s!"local slot {index} out of range for '{function}' ({count} locals)"
  | raised text => text

def kind : RuntimeError → String
  | stackUnderflow     => "StackUnderflow"
  | stackOverflow ..   => "StackOverflow"
  | recursionLimit ..  => "RecursionLimit"
  | unknownFunction .. => "UnknownFunction"
  | arityMismatch ..   => "ArityMismatch"
  | argumentOutOfRange .. => "ArgumentOutOfRange"
  | localOutOfRange .. => "LocalOutOfRange"
  | raised ..          => "RuntimeError"

end RuntimeError

namespace LoadError

def message : LoadError → String
  | notFound path                => s!"module not found: {path}"
  | invalidFormat path reason    => s!"invalid module format in {path}: {reason}"
  | symbolResolution path symbol => s!"failed to resolve symbol '{symbol}' in {path}"

def kind : LoadError → String
  | notFound ..         => "ModuleNotFound"
  | invalidFormat ..    => "InvalidFormat"
  | symbolResolution .. => "SymbolResolution"

/-- The path the load was tried for, as it is shown. -/
def path : LoadError → String
  | notFound path | invalidFormat path _ | symbolResolution path _ => path.text

end LoadError

namespace MachineError

def message : MachineError → String
  | notInitialized     => "virtual machine is not initialized"
  | alreadyInitialized => "virtual machine is already initialized"
  | config cause       => s!"invalid configuration: {cause.message}"
  | emptyModule module => s!"module '{module}' contains no functions"
  | noModuleLoaded     => "no module loaded"
  | indexOutOfRange module index size =>
    s!"function index {index} out of range for module '{module}' ({size} functions)"
  | arityMismatch function expected actual =>
    s!"entry function '{function}' expects {expected} arguments, got {actual}"
  | runtime function cause => s!"execution of '{function}' failed: {cause.message}"

/-- The texts of the causes below this one, outermost first. -/
def causes : MachineError → List String
  | config cause    => [cause.message]
  | runtime _ cause => [cause.message]
  | _               => []

end MachineError

end MixedMode
