import Mathlib.Order.Basic

/-! A loop whose body either leaves with a result or goes round with a new state. -/
namespace Iteration

variable {σ ρ : Type*} {body : σ → ρ ⊕ σ} (rounds : Nat)

def run (body : σ → ρ ⊕ σ) : Nat → σ → Option ρ
  | 0, _ => none
  | rounds + 1, s =>
    match body s with
    | .inl result => some result
    | .inr next => run body rounds next

theorem run_exit {s : σ} {result : ρ} (h : body s = .inl result) : run body (rounds + 1) s = some result := by
  simp [run, h]

theorem run_round {s next : σ} (h : body s = .inr next) : run body (rounds + 1) s = run body rounds next := by
  simp [run, h]

/-- Spare rounds do not change a result. -/
theorem run_mono (body : σ → ρ ⊕ σ) (rounds spare : Nat) (s : σ) (result : ρ)
    (h : run body rounds s = some result) : run body (rounds + spare) s = some result := by
  induction rounds generalizing s with
  | zero => cases h
  | succ rounds ih =>
    rw [Nat.succ_add]
    cases hBody : body s with
    | inl r =>
      rw [run_exit _ hBody] at h ⊢
      exact h
    | inr next =>
      rw [run_round _ hBody] at h ⊢
      exact ih next h

/-- The result does not depend on the number of rounds allowed. -/
theorem run_unique {rounds rounds' : Nat} {s : σ} {result result' : ρ}
    (h : run body rounds s = some result) (h' : run body rounds' s = some result') : result = result' := by
  have hLeft := run_mono body rounds rounds' s result h
  have hRight := run_mono body rounds' rounds s result' h'
  rw [Nat.add_comm, hLeft] at hRight
  exact Option.some.inj hRight

/-- A measure that every further round decreases bounds the rounds needed. -/
theorem run_total (body : σ → ρ ⊕ σ) (inv : σ → Prop) (measure : σ → Nat)
    (step : ∀ s next, inv s → body s = .inr next → inv next ∧ measure next < measure s)
    (rounds : Nat) (s : σ) (hInv : inv s) (hRounds : measure s < rounds) :
    ∃ result, run body rounds s = some result := by
  induction rounds generalizing s with
  | zero => omega
  | succ rounds ih =>
    cases hBody : body s with
    | inl r => exact ⟨r, run_exit _ hBody⟩
    | inr next =>
      obtain ⟨hNext, hLess⟩ := step s next hInv hBody
      rw [run_round _ hBody]
      exact ih next hNext (by omega)

/-- An invariant of the body holds at the exit. -/
theorem run_invariant (body : σ → ρ ⊕ σ) (inv : σ → Prop) (post : ρ → Prop)
    (step : ∀ s next, inv s → body s = .inr next → inv next)
    (exit : ∀ s result, inv s → body s = .inl result → post result) (rounds : Nat) (s : σ) (result : ρ) (hInv : inv s)
    (h : run body rounds s = some result) : post result := by
  induction rounds generalizing s with
  | zero => cases h
  | succ rounds ih =>
    cases hBody : body s with
    | inl r =>
      rw [run_exit _ hBody, Option.some.injEq] at h
      exact h ▸ exit s r hInv hBody
    | inr next =>
      rw [run_round _ hBody] at h
      exact ih next (step s next hInv hBody) h

/-- Replace the body by one that differs only in states from which the first loop leaves with an
open result. -/
theorem run_replace (first second : σ → ρ ⊕ σ) (inv : σ → Prop) (isOpen : ρ → Prop)
    (step : ∀ s next, inv s → first s = .inr next → inv next) (agree : ∀ s, inv s → second s = first s ∨
      ∀ rounds result, run first rounds s = some result → isOpen result)
    (rounds : Nat) (s : σ) (result : ρ) (hInv : inv s)
    (h : run first rounds s = some result) (hClosed : ¬isOpen result) : run second rounds s = some result := by
  induction rounds generalizing s with
  | zero => cases h
  | succ rounds ih =>
    rcases agree s hInv with hSame | hOpen
    · cases hBody : first s with
      | inl r =>
        rw [run_exit _ hBody] at h
        rw [run_exit _ (hSame.trans hBody)]
        exact h
      | inr next =>
        rw [run_round _ hBody] at h
        rw [run_round _ (hSame.trans hBody)]
        exact ih next (step s next hInv hBody) h
    · exact absurd (hOpen _ _ h) hClosed

end Iteration
