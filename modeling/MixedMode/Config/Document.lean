import MixedMode.Config.Basic
import MixedMode.Json.Record
/-!
# Settings as documents

Settings are written as JSON objects with their fields in the order of the records and read from any spelling of the
same fields.  `ofJson?` reads without checking; `MachineConfig.ofText` and `RunConfig.ofText` read a text and then
check the settings.  What is said of a text that holds no settings is up to the reader of the text, who is given as
`complaint`: nothing here depends on the words.
-/
namespace MixedMode

namespace Convention

def toJson (c : Convention) : Json := .ofString c.name

/-- The convention with this spelling, case and blanks included. -/
def ofSpelling? (name : String) : Option Convention := all.find? fun c => c.spellings.contains name

/-- A convention is its name, or an object with the name as its only member and nothing in it. -/
def ofJson? : Json → Option Convention
  | .object [(key, .null)] => (Json.string? (.text key)).bind ofSpelling?
  | v                      => v.string?.bind ofSpelling?

end Convention

namespace JitConfig

def toJson (c : JitConfig) : Json :=
  .ofFields [("call_style", c.callStyle.toJson), ("max_inline_depth", .ofNat c.maxInlineDepth.toNat),
    ("debug", .bool c.debug), ("verbose", .bool c.verbose)]

def fieldNames : List String := ["call_style", "max_inline_depth", "debug", "verbose"]

def ofJson? (v : Json) : Option JitConfig := do
  let given ← v.fields? fieldNames
  let callStyle ← given.get? "call_style" Convention.ofJson? .interpreter
  let maxInlineDepth ← given.get? "max_inline_depth" Json.uint32? 0
  let debug ← given.get? "debug" Json.bool? false
  let verbose ← given.get? "verbose" Json.bool? false
  return { callStyle, maxInlineDepth, debug, verbose }

end JitConfig

namespace LimitConfig

def toJson (c : LimitConfig) : Json :=
  .ofFields [("max_stack_size", .ofNat c.maxStackSize.toNat),
    ("max_recursion_depth", .ofNat c.maxRecursionDepth.toNat)]

def fieldNames : List String := ["max_stack_size", "max_recursion_depth"]

def ofJson? (v : Json) : Option LimitConfig := do
  let default : LimitConfig := {}
  let given ← v.fields? fieldNames
  let maxStackSize ← given.get? "max_stack_size" Json.uint64? default.maxStackSize
  let maxRecursionDepth ← given.get? "max_recursion_depth" Json.uint64? default.maxRecursionDepth
  return { maxStackSize, maxRecursionDepth }

end LimitConfig

namespace MachineConfig

def toJson (c : MachineConfig) : Json :=
  .ofFields [("jit", c.jit.toJson), ("loop_count", .ofNat c.loopCount.toNat),
    ("initial_stack_size", .ofNat c.initialStackSize.toNat), ("debug", .bool c.debug), ("verbose", .bool c.verbose),
    ("limits", c.limits.toJson)]

def fieldNames : List String := ["jit", "loop_count", "initial_stack_size", "debug", "verbose", "limits"]

def ofJson? (v : Json) : Option MachineConfig := do
  let default : MachineConfig := {}
  let given ← v.fields? fieldNames
  let jit ← given.get? "jit" JitConfig.ofJson? default.jit
  let loopCount ← given.get? "loop_count" Json.uint64? default.loopCount
  let initialStackSize ← given.get? "initial_stack_size" Json.uint64? default.initialStackSize
  let debug ← given.get? "debug" Json.bool? default.debug
  let verbose ← given.get? "verbose" Json.bool? default.verbose
  let limits ← given.get? "limits" LimitConfig.ofJson? default.limits
  return { jit, loopCount, initialStackSize, debug, verbose, limits }

/-- Read settings from a text and check them. -/
def ofText (text : String) (complaint : String → String := fun _ => "not a configuration document") :
    Except ConfigError MachineConfig :=
  match (Json.parse? text).bind ofJson? with
  | none   => .error (.malformed (complaint text))
  | some c =>
    match c.validate with
    | .error e => .error e
    | .ok ()   => .ok c

end MachineConfig

namespace RunConfig

def toJson (c : RunConfig) : Json :=
  .ofFields [("vm", c.machine.toJson), ("module", .ofString c.module),
    ("entry", .ofOption (fun n : UInt64 => .ofNat n.toNat) c.entry)]

def fieldNames : List String := ["vm", "module", "entry"]

def ofJson? (v : Json) : Option RunConfig := do
  let given ← v.fields? fieldNames
  let machine ← given.get? "vm" MachineConfig.ofJson? {}
  let module ← given.get? "module" Json.string? defaultModule
  let entry ← given.get? "entry" (Json.option? Json.uint64?) none
  return { machine, module, entry }

/-- Read settings from a text and check them. -/
def ofText (text : String) (complaint : String → String := fun _ => "not a configuration document") :
    Except ConfigError RunConfig :=
  match (Json.parse? text).bind ofJson? with
  | none   => .error (.malformed (complaint text))
  | some c =>
    match c.validate with
    | .error e => .error e
    | .ok ()   => .ok c

end RunConfig
end MixedMode
