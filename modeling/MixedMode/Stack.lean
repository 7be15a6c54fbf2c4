import MixedMode.Error
/-!
# The operand stack — words under a hard limit

Slots are counted from the bottom, distances from the top.  A stack never holds more words than its limit: the limit
and the bound are part of the type.  An operation that can be refused returns the stack it leaves beside its answer,
so that a refusal that changes nothing is a statement about its result.
-/
namespace MixedMode

/-- A signed 64-bit machine word; arithmetic wraps. -/
abbrev Word := Int64

structure OperandStack where
  slots : Array Word
  limit : Nat
  size_le : slots.size ≤ limit
  deriving DecidableEq

namespace OperandStack

@[ext]
theorem ext : ∀ {s t : OperandStack}, s.slots = t.slots → s.limit = t.limit → s = t
  | ⟨_, _, _⟩, ⟨_, _, _⟩, rfl, rfl => rfl

/-- An empty stack; `capacity` asks for room in advance and shows in no answer. -/
def withCapacity (capacity limit : Nat) : OperandStack :=
  ⟨Array.emptyWithCapacity (min capacity limit), limit, Nat.zero_le _⟩

def empty (limit : Nat) : OperandStack := withCapacity 0 limit

instance : Inhabited OperandStack := ⟨empty 0⟩

@[simp]
theorem slots_withCapacity (capacity limit : Nat) : (withCapacity capacity limit).slots = #[] := rfl

@[simp]
theorem limit_withCapacity (capacity limit : Nat) : (withCapacity capacity limit).limit = limit := rfl

theorem withCapacity_eq_empty (capacity limit : Nat) : withCapacity capacity limit = empty limit := rfl

def depth (s : OperandStack) : Nat := s.slots.size

def isEmpty (s : OperandStack) : Bool := s.slots.isEmpty

theorem depth_le (s : OperandStack) : s.depth ≤ s.limit := s.size_le

/-- The word at a slot, counted from the bottom. -/
def get? (s : OperandStack) (slot : Nat) : Option Word := s.slots[slot]?

def top? (s : OperandStack) : Option Word := s.slots.back?

/-- The word at a distance from the top, which has distance 0. -/
def peek (s : OperandStack) (distance : Nat) : Except RuntimeError Word :=
  if h : distance < s.slots.size then
    have : s.slots.size - 1 - distance < s.slots.size := by omega
    .ok s.slots[s.slots.size - 1 - distance]
  else .error .stackUnderflow

/-- Put one word on top; refused when the limit is reached. -/
def push : OperandStack → Word → Except RuntimeError Unit × OperandStack
  | ⟨slots, limit, size_le⟩, w =>
    if h : slots.size < limit then (.ok (), ⟨slots.push w, limit, by simp only [Array.size_push]; omega⟩)
    else (.error (.stackOverflow limit), ⟨slots, limit, size_le⟩)

/-- Take the top word off; refused when there is none. -/
def pop : OperandStack → Except RuntimeError Word × OperandStack
  | ⟨slots, limit, size_le⟩ =>
    match slots.back? with
    | some w => (.ok w, ⟨slots.pop, limit, by simp only [Array.size_pop]; omega⟩)
    | none   => (.error .stackUnderflow, ⟨slots, limit, size_le⟩)

/-- Put words on top, the last one uppermost: all of them or, past the limit, none. -/
def extend : OperandStack → Array Word → Except RuntimeError Unit × OperandStack
  | ⟨slots, limit, size_le⟩, ws =>
    if h : slots.size + ws.size ≤ limit then (.ok (), ⟨slots ++ ws, limit, by simpa using h⟩)
    else (.error (.stackOverflow limit), ⟨slots, limit, size_le⟩)

/-- Drop the words from slot `depth` upwards. -/
def truncate : OperandStack → Nat → OperandStack
  | ⟨slots, limit, size_le⟩, depth => ⟨slots.shrink depth, limit, by simp only [Array.size_shrink]; omega⟩

/-- The words from slot `base` to the top, in slot order. -/
def sliceFrom (s : OperandStack) (base : Nat) : Array Word := s.slots.extract base s.slots.size

/-- Take the words from slot `base` upwards off and hand them over, in slot order. -/
def splitOff (s : OperandStack) (base : Nat) : Array Word × OperandStack := (s.sliceFrom base, s.truncate base)

def reset (s : OperandStack) : OperandStack := s.truncate 0

/-! ## What each operation does to the slots -/

theorem push_of_lt {s : OperandStack} (h : s.depth < s.limit) (w : Word) :
    (s.push w).1 = .ok () ∧ (s.push w).2.slots = s.slots.push w := by
  have h' : s.slots.size < s.limit := h
  simp [push, h']

theorem push_of_le {s : OperandStack} (h : s.limit ≤ s.depth) (w : Word) :
    s.push w = (.error (.stackOverflow s.limit), s) := by
  have h' : ¬ s.slots.size < s.limit := Nat.not_lt.2 h
  simp [push, h']

theorem extend_of_le {s : OperandStack} {ws : Array Word} (h : s.depth + ws.size ≤ s.limit) :
    (s.extend ws).1 = .ok () ∧ (s.extend ws).2.slots = s.slots ++ ws := by
  have h' : s.slots.size + ws.size ≤ s.limit := h
  simp [extend, h']

theorem extend_of_lt {s : OperandStack} {ws : Array Word} (h : s.limit < s.depth + ws.size) :
    s.extend ws = (.error (.stackOverflow s.limit), s) := by
  have h' : ¬ s.slots.size + ws.size ≤ s.limit := Nat.not_le.2 h
  simp [extend, h']

@[simp]
theorem slots_truncate (s : OperandStack) (depth : Nat) : (s.truncate depth).slots = s.slots.take depth := by
  simp [truncate]

@[simp]
theorem limit_truncate (s : OperandStack) (depth : Nat) : (s.truncate depth).limit = s.limit := rfl

theorem truncate_of_le {s : OperandStack} {depth : Nat} (h : s.depth ≤ depth) : s.truncate depth = s := by
  have h' : s.slots.size ≤ depth := h
  exact ext (by simp [h']) rfl

theorem pop_push {s : OperandStack} (h : s.depth < s.limit) (w : Word) : (s.push w).2.pop = (.ok w, s) := by
  have h' : s.slots.size < s.limit := h
  simp [push, pop, h']

theorem depth_truncate (s : OperandStack) (depth : Nat) : (s.truncate depth).depth = min depth s.depth := by
  simp [OperandStack.depth]

end OperandStack
end MixedMode
