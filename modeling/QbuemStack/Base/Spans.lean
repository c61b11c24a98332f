import Mathlib.Algebra.Ring.Nat
import Mathlib.Order.Lattice
import Mathlib.Tactic.Tauto

/-! Spans of addresses and the rounding of an address to an alignment. -/

structure Span where
  start : Nat
  size : Nat
deriving DecidableEq

namespace Span

def stop (s : Span) : Nat := s.start + s.size

def Within (s t : Span) : Prop := t.start ≤ s.start ∧ s.stop ≤ t.stop

def Apart (s t : Span) : Prop := s.stop ≤ t.start ∨ t.stop ≤ s.start ∨ s.size = 0 ∨ t.size = 0

instance (s t : Span) : Decidable (Within s t) := inferInstanceAs (Decidable (_ ∧ _))
instance (s t : Span) : Decidable (Apart s t) := inferInstanceAs (Decidable (_ ∨ _))

variable {s t u : Span}

theorem Apart.symm (hApart : Apart s t) : Apart t s := by
  simp only [Apart] at hApart ⊢
  tauto

theorem Within.trans (hFirst : Within s t) (hSecond : Within t u) : Within s u :=
  ⟨hSecond.1.trans hFirst.1, hFirst.2.trans hSecond.2⟩

theorem Within.refl (s : Span) : Within s s := ⟨le_refl _, le_refl _⟩

theorem Apart.of_within (hApart : Apart s t) (hWithin : Within u t) : Apart s u := by
  simp only [Apart, Within, stop] at hApart hWithin ⊢
  omega

theorem Apart.empty_of_start (hApart : Apart s t) (hStart : s.start = t.start) : s.size = 0 ∨ t.size = 0 := by
  simp only [Apart, stop] at hApart
  omega

section Alignment

variable {alignment p : Nat}

def padding (alignment p : Nat) : Nat := (alignment - p % alignment) % alignment

section

variable (hPos : 0 < alignment)
include hPos

theorem padding_cases (p : Nat) : ∃ q, (p = alignment * q ∧ padding alignment p = 0) ∨
    (alignment * q < p ∧ p + padding alignment p = alignment * (q + 1)) := by
  have hLt := Nat.mod_lt p hPos
  have hDiv := Nat.div_add_mod p alignment
  refine ⟨p / alignment, ?_⟩
  rw [padding]
  rcases Nat.eq_zero_or_pos (p % alignment) with hZero | hRest
  · left
    rw [hZero, Nat.sub_zero, Nat.mod_self]
    exact ⟨by omega, rfl⟩
  · right
    rw [Nat.mod_eq_of_lt (by omega), Nat.mul_add, Nat.mul_one]
    omega

theorem dvd_add_padding (p : Nat) : alignment ∣ p + padding alignment p := by
  obtain ⟨q, ⟨hp, hNone⟩ | ⟨-, hSum⟩⟩ := padding_cases hPos p
  · rw [hNone, Nat.add_zero, hp]
    exact Nat.dvd_mul_right _ _
  · rw [hSum]
    exact Nat.dvd_mul_right _ _

theorem add_padding_le {limit : Nat} (hLe : p ≤ limit) (hDvd : alignment ∣ limit) :
    p + padding alignment p ≤ limit := by
  obtain ⟨m, rfl⟩ := hDvd
  obtain ⟨q, ⟨-, hNone⟩ | ⟨hLt, hSum⟩⟩ := padding_cases hPos p
  · rwa [hNone]
  · rw [hSum]
    apply Nat.mul_le_mul_left
    exact Nat.lt_of_mul_lt_mul_left (hLt.trans_le hLe)

theorem padding_lt (p : Nat) : padding alignment p < alignment := Nat.mod_lt _ hPos

end

end Alignment

end Span
