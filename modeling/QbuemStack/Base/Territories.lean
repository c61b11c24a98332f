import Mathlib.Data.List.Perm.Basic
import Mathlib.Logic.Equiv.Basic
import QbuemStack.Base.Spans

/-! Holders of memory. A holder has a territory, a list of spans, and hands out parts of those that
are free. -/

structure Holding where
  territory : List Span
  free : List Span

namespace Holding

open Span Function

variable {ι : Type} {held : ι → Holding} {live : List Span}

def nothing : Holding := ⟨[], []⟩

/-- The territories are apart, and so are the free spans in them and what is handed out. -/
structure Parted (held : ι → Holding) (live : List Span) : Prop where
  handed : live.Pairwise Apart
  own : ∀ i, (held i).territory.Pairwise Apart
  others : ∀ i j, i ≠ j → ∀ t ∈ (held i).territory, ∀ u ∈ (held j).territory, Apart t u
  within : ∀ i, ∀ f ∈ (held i).free, ∃ t ∈ (held i).territory, Within f t
  free : ∀ i, (held i).free.Pairwise Apart
  clear : ∀ i, ∀ f ∈ (held i).free, ∀ s ∈ live, Apart s f
  lives : ∀ s ∈ live, ∃ i, ∃ t ∈ (held i).territory, Within s t

def outside (territory : List Span) (s : Span) : Bool := territory.all fun t => !decide (Within s t)

theorem Parted.perm (hParted : Parted held live) {live' : List Span} (hPerm : live.Perm live') : Parted held live' :=
  { hParted with
    handed := (hPerm.pairwise_iff fun hApart => hApart.symm).mp hParted.handed
    clear := fun i f hf s hs => hParted.clear i f hf s (hPerm.mem_iff.mpr hs)
    lives := fun s hs => hParted.lives s (hPerm.mem_iff.mpr hs) }

variable [DecidableEq ι] (i : ι)

theorem Parted.replace (hParted : Parted held live) (h : Holding) {live' : List Span} (hLive : live'.Pairwise Apart)
    (hOwn : h.territory.Pairwise Apart) (hOthers : ∀ j, j ≠ i → ∀ t ∈ h.territory, ∀ u ∈ (held j).territory, Apart t u)
    (hWithin : ∀ f ∈ h.free, ∃ t ∈ h.territory, Within f t) (hFree : h.free.Pairwise Apart)
    (hClear : ∀ f ∈ h.free, ∀ s ∈ live', Apart s f) (hRest : ∀ j, j ≠ i → ∀ f ∈ (held j).free, ∀ s ∈ live', Apart s f)
    (hLives : ∀ s ∈ live', (∃ t ∈ h.territory, Within s t) ∨ ∃ j, j ≠ i ∧ ∃ t ∈ (held j).territory, Within s t) :
    Parted (update held i h) live' := by
  constructor
  case handed => exact hLive
  case own =>
    exact (forall_update_iff held fun _ h => h.territory.Pairwise Apart).mpr ⟨hOwn, fun j _ => hParted.own j⟩
  case others =>
    intro j k hjk t ht u hu
    by_cases hj : j = i
    · have hk : k ≠ i := fun hEq => hjk (hj.trans hEq.symm)
      rw [hj, update_self] at ht
      rw [update_of_ne hk] at hu
      exact hOthers k hk t ht u hu
    · rw [update_of_ne hj] at ht
      by_cases hk : k = i
      · rw [hk, update_self] at hu
        exact (hOthers j hj u hu t ht).symm
      · rw [update_of_ne hk] at hu
        exact hParted.others j k hjk t ht u hu
  case within =>
    exact (forall_update_iff held fun _ h => ∀ f ∈ h.free, ∃ t ∈ h.territory, Within f t).mpr
      ⟨hWithin, fun j _ => hParted.within j⟩
  case free =>
    exact (forall_update_iff held fun _ h => h.free.Pairwise Apart).mpr ⟨hFree, fun j _ => hParted.free j⟩
  case clear =>
    exact (forall_update_iff held fun _ h => ∀ f ∈ h.free, ∀ s ∈ live', Apart s f).mpr ⟨hClear, hRest⟩
  case lives =>
    intro s hs
    rcases hLives s hs with ⟨t, ht, hst⟩ | ⟨j, hj, t, ht, hst⟩
    · exact ⟨i, t, by rwa [update_self], hst⟩
    · exact ⟨j, t, by rwa [update_of_ne hj], hst⟩

variable {i} {s : Span} {territory : List Span}

theorem Parted.lives_or (hParted : Parted held live) (i : ι) (hs : s ∈ live) :
    (∃ t ∈ (held i).territory, Within s t) ∨ ∃ j, j ≠ i ∧ ∃ t ∈ (held j).territory, Within s t := by
  obtain ⟨j, t, ht, hst⟩ := hParted.lives s hs
  by_cases hj : j = i
  · exact .inl ⟨t, hj ▸ ht, hst⟩
  · exact .inr ⟨j, hj, t, ht, hst⟩

/-- A part of what was free, or a fresh span of the heap, is handed out. What is left is apart from it. -/
theorem Parted.grant (hParted : Parted held live) {h : Holding} {added supply : List Span}
    (hTerritory : h.territory = (held i).territory ++ added) (hOwn : h.territory.Pairwise Apart)
    (hFresh : ∀ j, ∀ t ∈ (held j).territory, ∀ u ∈ added, Apart t u)
    (hSupply : ∀ f ∈ supply, f ∈ (held i).free ∨ f ∈ added) (hTaken : ∃ f ∈ supply, Within s f)
    (hFree : h.free.Pairwise Apart) (hLeft : ∀ f' ∈ h.free, Apart s f' ∧ ∃ f ∈ supply, Within f' f) :
    Parted (update held i h) (s :: live) := by
  have hBase : ∀ f ∈ supply, (∃ t ∈ h.territory, Within f t) ∧ ∀ g ∈ live, Apart g f := by
    intro f hf
    rcases hSupply f hf with hOld | hNew
    · obtain ⟨t, ht, hft⟩ := hParted.within i f hOld
      exact ⟨⟨t, hTerritory ▸ List.mem_append_left _ ht, hft⟩, hParted.clear i f hOld⟩
    · refine ⟨⟨f, hTerritory ▸ List.mem_append_right _ hNew, Within.refl f⟩, fun g hg => ?_⟩
      obtain ⟨j, t, ht, hgt⟩ := hParted.lives g hg
      exact ((hFresh j t ht f hNew).symm.of_within hgt).symm
  have hOthers : ∀ j, j ≠ i → ∀ t ∈ h.territory, ∀ u ∈ (held j).territory, Apart t u := by
    intro j hj t ht u hu
    rw [hTerritory] at ht
    rcases List.mem_append.mp ht with hOld | hNew
    · exact (hParted.others j i hj u hu t hOld).symm
    · exact (hFresh j u hu t hNew).symm
  obtain ⟨f, hf, hsf⟩ := hTaken
  obtain ⟨⟨t, ht, hft⟩, hClear⟩ := hBase f hf
  apply hParted.replace i h
  · exact List.pairwise_cons.mpr ⟨fun g hg => ((hClear g hg).of_within hsf).symm, hParted.handed⟩
  · exact hOwn
  · exact hOthers
  · intro f' hf'
    obtain ⟨-, g, hg, hf'g⟩ := hLeft f' hf'
    obtain ⟨⟨u, hu, hgu⟩, -⟩ := hBase g hg
    exact ⟨u, hu, hf'g.trans hgu⟩
  · exact hFree
  · intro f' hf' g hg
    obtain ⟨hApart, k, hk, hf'k⟩ := hLeft f' hf'
    rcases List.mem_cons.mp hg with rfl | hOld
    · exact hApart
    · exact ((hBase k hk).2 g hOld).of_within hf'k
  · intro j hj k hk g hg
    rcases List.mem_cons.mp hg with rfl | hOld
    · obtain ⟨u, hu, hku⟩ := hParted.within j k hk
      have hApart := (hOthers j hj t ht u hu).of_within hku
      exact (hApart.symm.of_within (hsf.trans hft)).symm
    · exact hParted.clear j k hk g hOld
  · intro g hg
    rcases List.mem_cons.mp hg with rfl | hOld
    · exact .inl ⟨t, ht, hsf.trans hft⟩
    · rcases hParted.lives_or i hOld with ⟨u, hu, hgu⟩ | hElse
      · exact .inl ⟨u, hTerritory ▸ List.mem_append_left _ hu, hgu⟩
      · exact .inr hElse

/-- A span comes back to the holder in whose territory it is. -/
theorem Parted.release (hParted : Parted held (s :: live)) (hWithin : ∃ t ∈ (held i).territory, Within s t) :
    Parted (update held i ⟨(held i).territory, s :: (held i).free⟩) live := by
  obtain ⟨hFirst, hLive⟩ := List.pairwise_cons.mp hParted.handed
  apply hParted.replace i ⟨(held i).territory, s :: (held i).free⟩ hLive (hParted.own i)
  · exact fun j hj t ht u hu => hParted.others i j (fun hEq => hj hEq.symm) t ht u hu
  · exact List.forall_mem_cons.mpr ⟨hWithin, hParted.within i⟩
  · exact List.pairwise_cons.mpr ⟨fun f hf => hParted.clear i f hf s List.mem_cons_self, hParted.free i⟩
  · intro f hf g hg
    rcases List.mem_cons.mp hf with rfl | hOld
    · exact (hFirst g hg).symm
    · exact hParted.clear i f hOld g (List.mem_cons_of_mem _ hg)
  · exact fun j _ f hf g hg => hParted.clear j f hf g (List.mem_cons_of_mem _ hg)
  · exact fun g hg => hParted.lives_or i (List.mem_cons_of_mem _ hg)

theorem mem_outside (hs : s ∈ live.filter (outside territory)) : s ∈ live ∧ ∀ t ∈ territory, ¬Within s t := by
  obtain ⟨hLive, hOut⟩ := List.mem_filter.mp hs
  refine ⟨hLive, fun t ht => ?_⟩
  have hNot := List.all_eq_true.mp hOut t ht
  simpa using hNot

/-- What stays after the spans in a territory are given up is in the territories of others. -/
theorem Parted.remaining (hParted : Parted held live) (hs : s ∈ live.filter (outside (held i).territory)) :
    ∃ j, j ≠ i ∧ ∃ t ∈ (held j).territory, Within s t := by
  obtain ⟨hLive, hOut⟩ := mem_outside hs
  rcases hParted.lives_or i hLive with ⟨t, ht, hst⟩ | hElse
  · exact absurd hst (hOut t ht)
  · exact hElse

/-- A holder whose spans are all given up starts again with a territory of its own, all of it free. -/
theorem Parted.restart (hParted : Parted held live) (hOwn : territory.Pairwise Apart)
    (hOthers : ∀ j, j ≠ i → ∀ t ∈ territory, ∀ u ∈ (held j).territory, Apart t u) {free : List Span}
    (hFree : free.Pairwise Apart) (hWithin : ∀ f ∈ free, ∃ t ∈ territory, Within f t) :
    Parted (update held i ⟨territory, free⟩) (live.filter (outside (held i).territory)) := by
  apply hParted.replace i ⟨territory, free⟩
  · exact hParted.handed.filter _
  · exact hOwn
  · exact hOthers
  · exact hWithin
  · exact hFree
  · intro f hf s hs
    obtain ⟨t, ht, hft⟩ := hWithin f hf
    obtain ⟨j, hj, u, hu, hsu⟩ := hParted.remaining hs
    exact ((hOthers j hj t ht u hu).of_within hsu).symm.of_within hft
  · exact fun j _ f hf s hs => hParted.clear j f hf s (mem_outside hs).1
  · exact fun s hs => .inr (hParted.remaining hs)

theorem outside_nil : live.filter (outside []) = live := List.filter_eq_self.mpr fun _ _ => rfl

theorem Parted.create (hParted : Parted held live) (hNothing : held i = nothing) {free : List Span}
    (hOwn : territory.Pairwise Apart) (hOthers : ∀ j, ∀ t ∈ territory, ∀ u ∈ (held j).territory, Apart t u)
    (hFree : free.Pairwise Apart) (hWithin : ∀ f ∈ free, ∃ t ∈ territory, Within f t) :
    Parted (update held i ⟨territory, free⟩) live := by
  have hRestart := hParted.restart (i := i) hOwn (fun j _ => hOthers j) hFree hWithin
  rw [hNothing] at hRestart
  rwa [nothing, outside_nil] at hRestart

theorem Parted.giveUp (hParted : Parted held live) :
    Parted (update held i nothing) (live.filter (outside (held i).territory)) := by
  apply hParted.restart (i := i) List.Pairwise.nil _ List.Pairwise.nil
  · exact nofun
  · exact nofun

/-- Passing everything on to a holder that has nothing exchanges the two holders. -/
theorem passed_eq {j : ι} (hNothing : held j = nothing) :
    update (update held j (held i)) i nothing = held ∘ Equiv.swap i j := by
  funext k
  rw [comp_apply]
  by_cases hki : k = i
  · rw [hki, update_self, Equiv.swap_apply_left, hNothing]
  · rw [update_of_ne hki]
    by_cases hkj : k = j
    · rw [hkj, update_self, Equiv.swap_apply_right]
    · rw [update_of_ne hkj, Equiv.swap_apply_of_ne_of_ne hki hkj]

theorem Parted.swap (hParted : Parted held live) (i j : ι) : Parted (held ∘ Equiv.swap i j) live := by
  constructor
  case handed => exact hParted.handed
  case own => exact fun k => hParted.own _
  case others => exact fun a b hab => hParted.others _ _ fun hEq => hab ((Equiv.swap i j).injective hEq)
  case within => exact fun k => hParted.within _
  case free => exact fun k => hParted.free _
  case clear => exact fun k => hParted.clear _
  case lives =>
    intro s hs
    obtain ⟨k, t, ht, hst⟩ := hParted.lives s hs
    exact ⟨Equiv.swap i j k, t, by rwa [comp_apply, Equiv.swap_apply_self], hst⟩

end Holding
