import Mathlib.Algebra.Order.Ring.Int

/-! Signed numbers of 64 bits. A sum, difference or product that does not fit is undefined. -/
namespace SignedInts

def minInt64 : Int := -9223372036854775808

def maxInt64 : Int := 9223372036854775807

theorem minInt64_le_of_nonneg {z : Int} (hNonneg : 0 ≤ z) : minInt64 ≤ z := by
  rw [minInt64]
  omega

def checked (z : Int) : Option Int := if minInt64 ≤ z ∧ z ≤ maxInt64 then some z else none

theorem checked_eq_some {z y : Int} : checked z = some y ↔ y = z ∧ minInt64 ≤ z ∧ z ≤ maxInt64 := by
  rw [checked]
  split_ifs with hFits
  · rw [Option.some.injEq, eq_comm]
    exact ⟨fun hEq => ⟨hEq, hFits⟩, fun hBoth => hBoth.1⟩
  · exact ⟨fun hNone => (nomatch hNone), fun hBoth => absurd hBoth.2 hFits⟩

end SignedInts
