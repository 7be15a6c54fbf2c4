import MixedMode.Convention
/-!
# Settings — what a machine and a run are told

Each record carries its defaults.  Settings are checked once, before anything runs (`validate`); the first fault in
the order loop count, stack size, recursion depth is the one reported.
-/
namespace MixedMode

structure JitConfig where
  callStyle : Convention := .interpreter
  maxInlineDepth : UInt32 := 0
  debug : Bool := false
  verbose : Bool := false
  deriving DecidableEq, Repr, Inhabited

structure LimitConfig where
  /-- Operand stack size, in words. -/
  maxStackSize : UInt64 := 1024
  /-- How many bodies may be entered and not yet left. -/
  maxRecursionDepth : UInt64 := 256
  deriving DecidableEq, Repr, Inhabited

structure MachineConfig where
  jit : JitConfig := {}
  loopCount : UInt64 := 1
  /-- Words of operand stack to set aside in advance. -/
  initialStackSize : UInt64 := 256
  debug : Bool := false
  verbose : Bool := false
  limits : LimitConfig := {}
  deriving DecidableEq, Repr, Inhabited

/-- The module that is run when none is named. -/
def defaultModule : String := "program.so"

/-- Settings of a run: the machine's, the module to load, and the function to run, the last one when absent. -/
structure RunConfig where
  machine : MachineConfig := {}
  module : String := defaultModule
  entry : Option UInt64 := none
  deriving DecidableEq, Repr, Inhabited

namespace MachineConfig

def callStyle (c : MachineConfig) : Convention := c.jit.callStyle

def withConvention (convention : Convention) : MachineConfig := { jit := { callStyle := convention } }

/-- The first fault of the settings, if there is one. -/
def fault? (c : MachineConfig) : Option ConfigError :=
  if c.loopCount = 0 then some (.invalidLoopCount c.loopCount.toNat)
  else if c.limits.maxStackSize = 0 then some (.invalidLimit "max_stack_size")
  else if c.limits.maxRecursionDepth = 0 then some (.invalidLimit "max_recursion_depth")
  else none

def validate (c : MachineConfig) : Except ConfigError Unit :=
  match c.fault? with
  | some e => .error e
  | none   => .ok ()

theorem validate_eq_ok (c : MachineConfig) :
    c.validate = .ok () ↔ c.loopCount ≠ 0 ∧ c.limits.maxStackSize ≠ 0 ∧ c.limits.maxRecursionDepth ≠ 0 := by
  unfold validate fault?
  by_cases h1 : c.loopCount = 0 <;> by_cases h2 : c.limits.maxStackSize = 0 <;>
    by_cases h3 : c.limits.maxRecursionDepth = 0 <;> simp [h1, h2, h3]

end MachineConfig

namespace RunConfig

def ofModule (module : String) : RunConfig := { module }

def callStyle (c : RunConfig) : Convention := c.machine.callStyle

def withConvention (c : RunConfig) (convention : Convention) : RunConfig :=
  { c with machine.jit.callStyle := convention }

def withLoopCount (c : RunConfig) (count : UInt64) : RunConfig := { c with machine.loopCount := count }

def withEntry (c : RunConfig) (index : UInt64) : RunConfig := { c with entry := some index }

def validate (c : RunConfig) : Except ConfigError Unit := c.machine.validate

def summary (c : RunConfig) : String :=
  let entry := match c.entry with
    | some index => s!"function {index}"
    | none       => "last function"
  "\n".intercalate [
    s!"Loading:      {c.module}",
    s!"Executing:    {entry}",
    s!"Looping:      {c.machine.loopCount} times",
    s!"Inline depth: {c.machine.jit.maxInlineDepth}",
    s!"Call Style:   {c.callStyle.name}"]

end RunConfig
end MixedMode
