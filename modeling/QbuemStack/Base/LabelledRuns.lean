import Mathlib.Init

/-! Machines with labelled steps. A step may be impossible; a run is a list of labels whose steps
are possible one after the other. -/
namespace LabelledRuns

variable {σ ι : Type} (next : σ → ι → Option σ)

def run : List ι → σ → Option σ
  | [], s => some s
  | label :: labels, s => (next s label).bind (run labels)

/-- Every step of the run is taken in a state that allows its label. -/
def Meets (allowed : σ → ι → Prop) : List ι → σ → Prop
  | [], _ => True
  | label :: labels, s => allowed s label ∧ ∀ s', next s label = some s' → Meets allowed labels s'

/-- The property holds in every state of the run, the first and the last among them. -/
def Always (P : σ → Prop) : List ι → σ → Prop
  | [], s => P s
  | label :: labels, s => P s ∧ ∀ s', next s label = some s' → Always P labels s'

variable {next} {allowed : σ → ι → Prop} {P Q I : σ → Prop} {labels : List ι} {s s' : σ}

instance decidableMeets [∀ s label, Decidable (allowed s label)] :
    ∀ labels s, Decidable (Meets next allowed labels s)
  | [], _ => .isTrue trivial
  | label :: labels, s =>
    match h : next s label with
    | none => decidable_of_iff (allowed s label) (by simp [Meets, h])
    | some s' =>
      have := decidableMeets labels s'
      decidable_of_iff (allowed s label ∧ Meets next allowed labels s') (by simp [Meets, h])

theorem Meets.step {label : ι} (hAllowed : allowed s label) (hNext : next s label = some s')
    (hRest : Meets next allowed labels s') : Meets next allowed (label :: labels) s := by
  refine ⟨hAllowed, fun other hOther => ?_⟩
  cases hNext.symm.trans hOther
  exact hRest

/-- What every allowed step preserves holds at the end of a run of allowed steps. -/
theorem run_invariant_of (hStep : ∀ s label s', P s → allowed s label → next s label = some s' → P s') (hInit : P s)
    (hMeets : Meets next allowed labels s) (hRun : run next labels s = some s') : P s' := by
  induction labels generalizing s with
  | nil =>
    cases hRun
    exact hInit
  | cons label labels ih =>
    rw [run, Option.bind_eq_some_iff] at hRun
    obtain ⟨middle, hNext, hRun⟩ := hRun
    exact ih (hStep s label middle hInit hMeets.1 hNext) (hMeets.2 middle hNext) hRun

/-- What every step preserves holds at the end of every run. -/
theorem run_invariant (hStep : ∀ s label s', P s → next s label = some s' → P s') (hInit : P s)
    (hRun : run next labels s = some s') : P s' := by
  induction labels generalizing s with
  | nil =>
    cases hRun
    exact hInit
  | cons label labels ih =>
    rw [run, Option.bind_eq_some_iff] at hRun
    obtain ⟨middle, hNext, hRun⟩ := hRun
    exact ih (hStep s label middle hInit hNext) hRun

/-- If a step that is not allowed makes a property true for good, a run that ends without it took
allowed steps only. -/
theorem meets_of_unspoiled (hStep : ∀ s label s', P s → next s label = some s' → P s')
    (hBreak : ∀ s label s', P s → ¬allowed s label → next s label = some s' → Q s')
    (hKeep : ∀ s label s', P s → Q s → next s label = some s' → Q s') (hInit : P s)
    (hRun : run next labels s = some s') (hFine : ¬Q s') : Meets next allowed labels s := by
  induction labels generalizing s with
  | nil => trivial
  | cons label labels ih =>
    rw [run, Option.bind_eq_some_iff] at hRun
    obtain ⟨middle, hNext, hRun⟩ := hRun
    have hMiddle := hStep s label middle hInit hNext
    constructor
    · refine Classical.byContradiction fun hNot => ?_
      have hSpoiled : P middle ∧ Q middle := ⟨hMiddle, hBreak s label middle hInit hNot hNext⟩
      have hBoth : ∀ a l b, P a ∧ Q a → next a l = some b → P b ∧ Q b :=
        fun a l b ha hab => ⟨hStep a l b ha.1 hab, hKeep a l b ha.1 ha.2 hab⟩
      exact hFine (run_invariant (P := fun a => P a ∧ Q a) hBoth hSpoiled hRun).2
    · intro other hOther
      cases hNext.symm.trans hOther
      exact ih hMiddle hRun

theorem Always.first (hAlways : Always next P labels s) : P s := by
  cases labels with
  | nil => exact hAlways
  | cons label labels => exact hAlways.1

/-- What holds at the end of every run holds throughout every run. -/
theorem always_of_run (hEnd : ∀ labels s', run next labels s = some s' → P s') (labels : List ι) :
    Always next P labels s := by
  induction labels generalizing s with
  | nil => exact hEnd [] s rfl
  | cons label labels ih =>
    refine ⟨hEnd [] s rfl, fun s' hNext => ih fun more last hRun => hEnd (label :: more) last ?_⟩
    rw [run, hNext]
    exact hRun

section

variable (hHolds : ∀ s, I s → P s) (hStep : ∀ s label s', I s → allowed s label → next s label = some s' → I s')
include hHolds hStep

/-- If allowed steps keep an invariant that gives the property, the property holds throughout every
run of allowed steps. -/
theorem always_of_meets (hInit : I s) (hMeets : Meets next allowed labels s) : Always next P labels s := by
  induction labels generalizing s with
  | nil => exact hHolds s hInit
  | cons label labels ih =>
    refine ⟨hHolds s hInit, fun s' hNext => ?_⟩
    exact ih (hStep s label s' hInit hMeets.1 hNext) (hMeets.2 s' hNext)

/-- If allowed steps keep an invariant that gives the property, and any other step loses the
property at once, the property holds throughout exactly the runs of allowed steps. -/
theorem always_iff_meets (hBreak : ∀ s label, I s → ¬allowed s label → ∃ s', next s label = some s' ∧ ¬P s')
    (hInit : I s) : Always next P labels s ↔ Meets next allowed labels s := by
  refine ⟨fun hAlways => ?_, always_of_meets hHolds hStep hInit⟩
  induction labels generalizing s with
  | nil => trivial
  | cons label labels ih =>
    have hAllowed : allowed s label := by
      refine Classical.byContradiction fun hNot => ?_
      obtain ⟨s', hNext, hLost⟩ := hBreak s label hInit hNot
      exact hLost (Always.first (hAlways.2 s' hNext))
    exact ⟨hAllowed, fun s' hNext => ih (hStep s label s' hInit hAllowed hNext) (hAlways.2 s' hNext)⟩

end

/-- Two conditions that agree in the states of an invariant of the allowed steps are met by the same
runs. -/
theorem meets_congr {proper : σ → ι → Prop} (hAgree : ∀ s label, I s → (proper s label ↔ allowed s label))
    (hStep : ∀ s label s', I s → allowed s label → next s label = some s' → I s') (hInit : I s) :
    Meets next proper labels s ↔ Meets next allowed labels s := by
  induction labels generalizing s with
  | nil => rfl
  | cons label labels ih =>
    rw [Meets, Meets, hAgree s label hInit]
    exact and_congr_right fun hAllowed => forall_congr' fun s' => imp_congr_right fun hNext =>
      ih (hStep s label s' hInit hAllowed hNext)

end LabelledRuns
