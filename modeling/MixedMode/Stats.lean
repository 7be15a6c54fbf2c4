/-!
# Call counters

Every body entry is counted once, as `native` or as `interpreted`; an interpreted entry is a fallback as well when
the convention would have entered a native one and the callee had none.  The counters are numbers without a bound; they
are kept in 64-bit words without loss as long as there are fewer entries than words (`CallStats.Fits`).
-/
namespace MixedMode

structure CallStats where
  interpreted : Nat
  native : Nat
  fallbacks : Nat
  deriving DecidableEq, Repr, Inhabited

namespace CallStats

def zero : CallStats := ⟨0, 0, 0⟩

def total (s : CallStats) : Nat := s.interpreted + s.native

def countNative (s : CallStats) : CallStats := { s with native := s.native + 1 }

/-- Each counter, and the sum of the entries, fits in a 64-bit word. -/
structure Fits (s : CallStats) : Prop where
  interpreted : s.interpreted < UInt64.size
  native : s.native < UInt64.size
  fallbacks : s.fallbacks < UInt64.size
  total : s.total < UInt64.size

/-- One more interpreted entry, a fallback or not. -/
def countInterpreted (s : CallStats) (fallback : Bool) : CallStats :=
  { s with interpreted := s.interpreted + 1, fallbacks := s.fallbacks + fallback.toNat }

@[simp]
theorem total_countNative (s : CallStats) : s.countNative.total = s.total + 1 := by
  simp [total, countNative, Nat.add_assoc]

@[simp]
theorem total_countInterpreted (s : CallStats) (fallback : Bool) :
    (s.countInterpreted fallback).total = s.total + 1 := by
  simp [total, countInterpreted, Nat.add_assoc, Nat.add_comm 1]

end CallStats
end MixedMode
