import QbuemStack.Core.Arena

/-! The runs of one arena. As long as every result lands in a block, the results since the last
reset are apart. -/
namespace Arenas

open SequenceRing Span

section Runs

structure Grant where
  span : Span
  alignment : Nat

structure World where
  arena : Arena
  live : List Grant

inductive Op where
  | allocate (r : Request) (offer : Option Nat)
  | reset

def heap (a : Arena) (r : Request) (offer : Option Nat) : Option Nat :=
  offer.filter fun base => fresh a.blocks ⟨base, freshSize a r⟩

def next (w : World) : Op → Option World
  | .allocate r offer =>
    match allocate w.arena r (heap w.arena r offer) with
    | some (p, a) => some ⟨a, ⟨⟨p, r.size⟩, r.alignment⟩ :: w.live⟩
    | none => some w
  | .reset => some ⟨reset w.arena, []⟩

def start (initialSize base : Nat) : World := ⟨new initialSize base, []⟩

/-- Every result is aligned and lies in a block of the arena, and no two of them overlap. -/
structure Safe (w : World) : Prop where
  aligned : ∀ g ∈ w.live, g.alignment ∣ g.span.start
  inside : ∀ g ∈ w.live, ∃ b ∈ w.arena.blocks, Within g.span b
  apart : w.live.Pairwise fun g h => Apart g.span h.span

/-- The result lies, by chance, in an unused part of another block. -/
def Elsewhere (w : World) (s : Span) : Prop :=
  (∃ b ∈ w.arena.blocks, Within s b) ∧ ∀ g ∈ w.live, Apart s g.span

/-- Nothing wraps around; a fresh block has room for the padding, or the result lies elsewhere. -/
def Lands (w : World) : Op → Prop
  | .allocate r offer => r.size < 2 ^ 63 → Fits w.arena r (heap w.arena r offer) ∨
      hasRoom w.arena r = false ∧ ∀ base, heap w.arena r offer = some base →
        Elsewhere w ⟨(bump (allocateBlock w.arena ⟨base, freshSize w.arena r⟩) r).1, r.size⟩
  | .reset => True

structure Sound (w : World) : Prop where
  laid : Laid w.arena.blocks
  current : ∃ b, Current w.arena b
  safe : Safe w
  clear : ∀ g ∈ w.live, ∀ s ∈ unused w.arena, Apart g.span s

end Runs

section Steps

variable {w w' : World} {a a' : Arena} {r : Request} {offer : Option Nat} {p : Nat}

theorem heap_fresh {base : Nat} (hHeap : heap a r offer = some base) :
    fresh a.blocks ⟨base, freshSize a r⟩ = true := (Option.filter_eq_some_iff.mp hHeap).2

theorem not_within_of_wrap {b : Span} (hStart : 0 < b.start) (hStop : b.stop < 2 ^ 64) (hPtr : a.ptr < 2 ^ 64)
    (hWrap : 2 ^ 64 ≤ a.ptr + totalSize a r) : ¬Within ⟨(bump a r).1, r.size⟩ b := by
  rintro ⟨hLow, hHigh⟩
  have hPadded := add_padding_le (alignment_pos r) hPtr.le (alignment_dvd r)
  rw [totalSize] at hWrap
  simp only [bump, wrap, stop] at hLow hHigh hStop
  rcases Nat.lt_or_ge (a.ptr + padding r.alignment a.ptr) (2 ^ 64) with hLt | hGe
  · rw [Nat.mod_eq_of_lt hLt] at hHigh
    omega
  · rw [Nat.le_antisymm hPadded hGe, Nat.mod_self] at hLow
    omega

theorem not_within_of_spill {b : Span} (hStart : 0 < b.start) (hStop : b.stop < 2 ^ 64) (hPtr : a.ptr < 2 ^ 64)
    (hSpill : b.stop < a.ptr + totalSize a r) : ¬Within ⟨(bump a r).1, r.size⟩ b := by
  rcases Nat.lt_or_ge (a.ptr + totalSize a r) (2 ^ 64) with hLt | hGe
  · rw [bump_eq hLt]
    rintro ⟨-, hHigh⟩
    rw [totalSize] at hSpill
    simp only [stop] at hHigh hSpill
    omega
  · exact not_within_of_wrap hStart hStop hPtr hGe

theorem Sound.grant (hSound : Sound w) {added supply : List Span}
    (hSource : Source w.arena r (heap w.arena r offer) added supply)
    (hBlocks : a'.blocks = w.arena.blocks ++ added) (hLaid : Laid a'.blocks) (hGranted : Granted supply r p a')
    (hCurrent : ∃ b, Current a' b) : Sound ⟨a', ⟨⟨p, r.size⟩, r.alignment⟩ :: w.live⟩ := by
  have hClear : ∀ g ∈ w.live, ∀ s ∈ supply, Apart g.span s := by
    intro g hg s hs
    cases hSource with
    | owned => exact hSound.clear g hg s hs
    | fresh base hHeap =>
      obtain ⟨b, hb, hWithin⟩ := hSound.safe.inside g hg
      have hApart := (fresh_iff.mp (heap_fresh hHeap)).2 b hb
      rw [List.mem_singleton.mp hs]
      exact (hApart.symm.of_within hWithin).symm
  obtain ⟨from', hFrom, hWithin⟩ := hGranted.taken
  refine ⟨hLaid, hCurrent, ⟨?_, ?_, ?_⟩, ?_⟩
  · exact List.forall_mem_cons.mpr ⟨hGranted.aligned, hSound.safe.aligned⟩
  · intro g hg
    rcases List.mem_cons.mp hg with rfl | hOld
    · exact hGranted.inside
    · obtain ⟨b, hb, hInside⟩ := hSound.safe.inside g hOld
      exact ⟨b, hBlocks ▸ List.mem_append_left _ hb, hInside⟩
  · refine List.pairwise_cons.mpr ⟨fun g hg => ?_, hSound.safe.apart⟩
    exact ((hClear g hg from' hFrom).of_within hWithin).symm
  · intro g hg s hs
    rcases List.mem_cons.mp hg with rfl | hOld
    · exact (hGranted.left s hs).1
    · obtain ⟨-, t, ht, hst⟩ := hGranted.left s hs
      exact (hClear g hOld t ht).of_within hst

theorem Sound.elsewhere (hSound : Sound w) {block : Span} (hFresh : fresh w.arena.blocks block = true)
    (hElsewhere : Elsewhere w ⟨(bump (allocateBlock w.arena block) r).1, r.size⟩)
    (hSpill : block.size < totalSize (allocateBlock w.arena block) r) :
    let out := bump (allocateBlock w.arena block) r
    Sound ⟨out.2, ⟨⟨out.1, r.size⟩, r.alignment⟩ :: w.live⟩ := by
  have hLaid := hSound.laid.allocateBlock hFresh
  have hCurrent := Current.allocateBlock hLaid
  obtain ⟨⟨b, hb, hWithin⟩, hApart⟩ := hElsewhere
  have hBounds := hSound.laid.bounds b hb
  have hNoWrap : (allocateBlock w.arena block).ptr + totalSize (allocateBlock w.arena block) r < 2 ^ 64 := by
    by_contra hWrap
    exact not_within_of_wrap hBounds.1 hBounds.2 hCurrent.ptr_lt (Nat.le_of_not_lt hWrap) hWithin
  have hAligned := bump_aligned (allocateBlock w.arena block) r
  rw [bump_eq hNoWrap] at hAligned hWithin hApart ⊢
  refine ⟨hLaid, ⟨block, hCurrent.block, rfl, ?_, hNoWrap⟩, ⟨?_, ?_, ?_⟩, ?_⟩
  · exact Nat.le_add_right _ _
  · exact List.forall_mem_cons.mpr ⟨hAligned, hSound.safe.aligned⟩
  · intro g hg
    rcases List.mem_cons.mp hg with rfl | hOld
    · exact ⟨b, List.mem_append_left _ hb, hWithin⟩
    · obtain ⟨c, hc, hInside⟩ := hSound.safe.inside g hOld
      exact ⟨c, List.mem_append_left _ hc, hInside⟩
  · exact List.pairwise_cons.mpr ⟨hApart, hSound.safe.apart⟩
  · intro g hg s hs
    have hDrop : (allocateBlock w.arena block).blocks.drop (w.arena.blocks.length + 1) = [] :=
      List.drop_eq_nil_of_le (by simp [allocateBlock])
    rcases List.mem_cons.mp hs with rfl | hBehind
    · have hEmpty : block.stop - (block.start + totalSize (allocateBlock w.arena block) r) = 0 := by
        rw [stop]
        omega
      exact .inr (.inr (.inr hEmpty))
    · exact absurd (hDrop ▸ hBehind) List.not_mem_nil

theorem sound_start {initialSize base : Nat} (hFresh : fresh [] ⟨base, initialSize⟩ = true) :
    Sound (start initialSize base) := by
  have hLaid : Laid (new initialSize base).blocks := Laid.allocateBlock ⟨by simp, List.Pairwise.nil⟩ hFresh
  refine ⟨hLaid, ⟨_, Current.allocateBlock hLaid⟩, ⟨by simp [start], by simp [start], List.Pairwise.nil⟩, ?_⟩
  exact nofun

theorem Sound.reset (hSound : Sound w) : Sound ⟨reset w.arena, []⟩ := by
  obtain ⟨b, hCurrent⟩ := hSound.current
  have hLen : 0 < w.arena.blocks.length := List.length_pos_of_mem hCurrent.mem
  have hFirst := List.getElem?_eq_getElem hLen
  have hBounds := hSound.laid.bounds _ (List.getElem_mem hLen)
  have hReset : Arenas.reset w.arena =
      { w.arena with index := 0, ptr := w.arena.blocks[0].start, blockEnd := w.arena.blocks[0].stop } := by
    rw [Arenas.reset, if_neg (by simpa using List.ne_nil_of_length_pos hLen), setupBlock, hFirst]
  rw [hReset]
  refine ⟨hSound.laid, ⟨_, hFirst, rfl, le_refl _, ?_⟩, ⟨by simp, by simp, List.Pairwise.nil⟩, by simp⟩
  exact (Nat.le_add_right _ _).trans_lt hBounds.2

/-- A call that lands keeps the invariant. -/
theorem sound_next {op : Op} (hSound : Sound w) (hLands : Lands w op) (hNext : next w op = some w') : Sound w' := by
  cases op with
  | reset =>
    cases hNext
    exact hSound.reset
  | allocate r offer =>
    rw [next] at hNext
    cases hAllocate : allocate w.arena r (heap w.arena r offer) with
    | none =>
      rw [hAllocate] at hNext
      cases hNext
      exact hSound
    | some out =>
      obtain ⟨p, a'⟩ := out
      rw [hAllocate] at hNext
      cases hNext
      have hSize : r.size < 2 ^ 63 := by
        by_contra hBig
        rw [allocate, if_pos (Nat.le_of_not_lt hBig)] at hAllocate
        cases hAllocate
      by_cases hFits : Fits w.arena r (heap w.arena r offer)
      · obtain ⟨added, supply, hSource, hBlocks, hLaid, hGranted, b, hCurrent, -⟩ := granted_allocate hSound.laid
          (fun _ => hSound.current) (fun base hBase => heap_fresh hBase) hFits hAllocate
        exact hSound.grant hSource hBlocks hLaid hGranted ⟨b, hCurrent⟩
      · obtain ⟨hRoom, hElsewhere⟩ := (hLands hSize).resolve_left hFits
        rw [Fits, if_neg (by rw [hRoom]; exact Bool.false_ne_true)] at hFits
        simp only [Classical.not_imp, not_forall, Nat.not_le] at hFits
        obtain ⟨hNone, base, hHeap, hSpill⟩ := hFits
        rw [allocate, if_neg (Nat.not_le.mpr hSize), if_neg (by rw [hRoom]; exact Bool.false_ne_true), hNone,
          hHeap] at hAllocate
        cases hAllocate
        exact hSound.elsewhere (heap_fresh hHeap) (hElsewhere base hHeap) hSpill

/-- A call that does not land breaks safety at once. -/
theorem spilled_next {op : Op} (hSound : Sound w) (hLost : ¬Lands w op) : ∃ w', next w op = some w' ∧ ¬Safe w' := by
  cases op with
  | reset => exact absurd trivial hLost
  | allocate r offer =>
    simp only [Lands, Classical.not_imp, not_or] at hLost
    obtain ⟨hSize, hFits, hNowhere⟩ := hLost
    obtain ⟨b, hCurrent⟩ := hSound.current
    rw [next, allocate, if_neg (Nat.not_le.mpr hSize)]
    by_cases hRoom : hasRoom w.arena r = true
    · rw [if_pos hRoom]
      refine ⟨_, rfl, fun hSafe => ?_⟩
      rw [Fits, if_pos hRoom, Nat.not_lt] at hFits
      obtain ⟨c, hc, hWithin⟩ := hSafe.inside _ List.mem_cons_self
      have hBounds := hSound.laid.bounds c hc
      exact not_within_of_wrap hBounds.1 hBounds.2 hCurrent.ptr_lt hFits hWithin
    · rw [if_neg hRoom]
      rw [Fits, if_neg hRoom] at hFits
      simp only [Classical.not_imp, not_forall, Nat.not_le] at hFits
      obtain ⟨hNone, base, hHeap, hSpill⟩ := hFits
      rw [hNone, hHeap]
      refine ⟨_, rfl, fun hSafe => hNowhere ⟨(Bool.not_eq_true _).mp hRoom, fun other hOther => ?_⟩⟩
      cases hHeap.symm.trans hOther
      have hLaid := hSound.laid.allocateBlock (heap_fresh hHeap)
      have hFresh := Current.allocateBlock hLaid
      refine ⟨?_, (List.pairwise_cons.mp hSafe.apart).1⟩
      obtain ⟨c, hc, hWithin⟩ := hSafe.inside _ List.mem_cons_self
      rcases List.mem_append.mp hc with hOld | hNew
      · exact ⟨c, hOld, hWithin⟩
      · have hBounds := hLaid.bounds c hc
        obtain rfl := List.mem_singleton.mp hNew
        exact absurd hWithin (not_within_of_spill hBounds.1 hBounds.2 hFresh.ptr_lt (Nat.add_lt_add_left hSpill _))

/-- The results are aligned, in bounds and disjoint throughout a run exactly if every result lands. -/
theorem safe_iff_lands {initialSize base : Nat} (hFresh : fresh [] ⟨base, initialSize⟩ = true) (ops : List Op) :
    LabelledRuns.Always next Safe ops (start initialSize base) ↔
      LabelledRuns.Meets next Lands ops (start initialSize base) :=
  LabelledRuns.always_iff_meets (I := Sound) (fun _ hSound => hSound.safe) (fun _ _ _ => sound_next)
    (fun _ _ => spilled_next) (sound_start hFresh)

/-- Two requests that the first block has room for; both results are live together. -/
theorem safe_small_request : LabelledRuns.Always next Safe
    [.allocate ⟨8, 3, by decide⟩ none, .allocate ⟨16, 4, by decide⟩ none, .reset] (start 64 16) := by
  refine (safe_iff_lands (by decide) _).mpr (.step (fun _ => .inl ?_) rfl (.step (fun _ => .inl ?_) rfl
    (.step trivial rfl trivial)))
  all_goals
    rw [Fits, if_pos (by decide +kernel)]
    decide +kernel

def Fitting (w : World) : Op → Prop
  | .allocate r offer => r.size < 2 ^ 63 → Fits w.arena r (heap w.arena r offer)
  | .reset => True

/-- Where every request fits the block that it is served from, the results are aligned, in bounds
and disjoint. -/
theorem safe_of_fitting {initialSize base : Nat} (hFresh : fresh [] ⟨base, initialSize⟩ = true) {ops : List Op}
    (hFits : LabelledRuns.Meets next Fitting ops (start initialSize base)) :
    LabelledRuns.Always next Safe ops (start initialSize base) := by
  refine LabelledRuns.always_of_meets (I := Sound) (fun _ hSound => hSound.safe) (fun w op w' hSound hFitting => ?_)
    (sound_start hFresh) hFits
  refine sound_next hSound ?_
  cases op with
  | allocate r offer => exact fun hSize => .inl (hFitting hSize)
  | reset => trivial

/-- A request for 16 bytes at a multiple of 4096: the fresh block of 32 bytes is at 48, the result
at 4096. -/
theorem page_outside_blocks :
    ∃ w, LabelledRuns.run next [.allocate ⟨16, 12, by decide⟩ (some 48)] (start 16 16) = some w ∧
    w.arena.blocks = [⟨16, 16⟩, ⟨48, 32⟩] ∧ w.live.map (fun g => g.span) = [⟨4096, 16⟩] ∧ ¬Safe w := by
  refine ⟨_, rfl, rfl, rfl, fun hSafe => ?_⟩
  obtain ⟨b, hb, hWithin⟩ := hSafe.inside _ List.mem_cons_self
  have hNone : ∀ b ∈ [(⟨16, 16⟩ : Span), ⟨48, 32⟩], ¬Within ⟨4096, 16⟩ b := by decide
  exact hNone b hb hWithin

end Steps

end Arenas
