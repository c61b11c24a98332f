import QbuemStack.Core.AllocatorMoves

/-! What objects that allocate from their own memory hand out never overlaps, over any moves. -/
namespace Allocators

open Span Holding Function
open Arenas (Arena Request Fits Laid Current unused hasRoom freshSize)
open FixedPool (Pool Layout Memory Threaded)
open List (map_cons mem_cons_self mem_map mem_singleton)

section Frames

variable {w : World} {free : Nat → List Nat} {i : Nat} {memory' : Memory} {heap' : List Span} {live' : List Grant}

section

variable (hSound : Sound w free)
include hSound

theorem Sound.apart_fresh {b : Span} (hFresh : ∀ other ∈ w.heap, Apart other b) (o : Nat ⊕ Nat) (t : Span)
    (ht : t ∈ (holding w free o).territory) : Apart t b := by
  rcases hSound.heap o t ht with hEmpty | hMem
  · exact .inr (.inr (.inl hEmpty))
  · exact hFresh t hMem

theorem Sound.territories {o : Nat ⊕ Nat} {h : Holding}
    (hBlocks : ∀ t ∈ h.territory, 0 < t.start ∧ (t.size = 0 ∨ t ∈ heap'))
    (hHeap : ∀ k, k ≠ o → ∀ t ∈ (holding w free k).territory, t.size = 0 ∨ t ∈ heap') :
    ∀ k, ∀ t ∈ (update (holding w free) o h k).territory, 0 < t.start ∧ (t.size = 0 ∨ t ∈ heap') :=
  (forall_update_iff (holding w free) fun _ h => ∀ t ∈ h.territory, 0 < t.start ∧ (t.size = 0 ∨ t ∈ heap')).mpr
    ⟨hBlocks, fun k hk t ht => ⟨hSound.positive k t ht, hHeap k hk t ht⟩⟩

theorem Sound.setArena (o : Option Arena)
    (hParted : Parted (update (holding w free) (.inl i) (arenaHolding o)) (live'.map Grant.span))
    (hArena : ∀ a, o = some a → a.blocks ≠ [] → Laid a.blocks ∧ ∃ b, Current a b ∧ a.ptr ≤ b.stop)
    (hBlocks : ∀ t ∈ arenaBlocks o, 0 < t.start ∧ (t.size = 0 ∨ t ∈ heap'))
    (hHeap : ∀ k, k ≠ .inl i → ∀ t ∈ (holding w free k).territory, t.size = 0 ∨ t ∈ heap') :
    Sound { w.setArena i o with heap := heap', live := live' } free := by
  have hTerritory := hSound.territories (territory_arena o ▸ hBlocks) hHeap
  rw [← holding_setArena] at hParted hTerritory
  refine ⟨hParted, ?_, hSound.threaded, fun k t ht => (hTerritory k t ht).1, fun k t ht => (hTerritory k t ht).2⟩
  exact (forall_update_iff w.arenas fun _ o => ∀ a, o = some a → a.blocks ≠ [] →
    Laid a.blocks ∧ ∃ b, Current a b ∧ a.ptr ≤ b.stop).mpr ⟨hArena, fun j _ => hSound.arenas j⟩

theorem Sound.setPool (o : Option Pool) (l : List Nat)
    (hParted : Parted (update (holding w free) (.inr i) (poolHolding o l)) (live'.map Grant.span))
    (hThreaded : ∀ p, o = some p → p.storage ≠ none → Threaded memory' p.freeList l)
    (hMemory : ∀ j, j ≠ i → ∀ p, w.pools j = some p → p.storage ≠ none → ∀ x ∈ free j, memory' x = w.memory x)
    (hBlocks : ∀ t ∈ poolBlocks o, 0 < t.start ∧ (t.size = 0 ∨ t ∈ heap'))
    (hHeap : ∀ k, k ≠ .inr i → ∀ t ∈ (holding w free k).territory, t.size = 0 ∨ t ∈ heap') :
    Sound { w.setPool i o with memory := memory', heap := heap', live := live' } (update free i l) := by
  have hTerritory := hSound.territories (territory_pool o l ▸ hBlocks) hHeap
  rw [← holding_setPool] at hParted hTerritory
  refine ⟨hParted, hSound.arenas, fun j p hj hStorage => ?_, fun k t ht => (hTerritory k t ht).1,
    fun k t ht => (hTerritory k t ht).2⟩
  change update w.pools i o j = some p at hj
  by_cases hji : j = i
  · rw [hji, update_self] at hj ⊢
    exact hThreaded p hj hStorage
  · rw [update_of_ne hji] at hj ⊢
    exact (hSound.threaded j p hj hStorage).frame (hMemory j hji p hj hStorage)

theorem Sound.heap_append (added : List Span) (k : Nat ⊕ Nat) (t : Span) (ht : t ∈ (holding w free k).territory) :
    t.size = 0 ∨ t ∈ w.heap ++ added :=
  (hSound.heap k t ht).imp_right fun hMem => List.mem_append_left _ hMem

theorem Sound.heap_discard {o : Nat ⊕ Nat} {blocks : List Span} (hBlocks : (holding w free o).territory = blocks)
    (k : Nat ⊕ Nat) (hk : k ≠ o) (t : Span) (ht : t ∈ (holding w free k).territory) :
    t.size = 0 ∨ t ∈ w.heap.filter fun b => !blocks.elem b := by
  rcases hSound.heap k t ht with hEmpty | hMem
  · exact .inl hEmpty
  · by_cases hFreed : t ∈ blocks
    · have hApart := hSound.parted.others k o hk t ht t (hBlocks ▸ hFreed)
      exact .inl (or_self_iff.mp (hApart.empty_of_start rfl))
    · exact .inr (List.mem_filter.mpr ⟨hMem, by simpa using hFreed⟩)

end

theorem map_span_filter (blocks : List Span) (live : List Grant) :
    (live.filter fun g => outside blocks g.span).map Grant.span = (live.map Grant.span).filter (outside blocks) := by
  rw [List.filter_map]
  rfl

theorem Sound.free_ne (hSound : Sound w free) {j : Nat} {p : Pool} (hPool : w.pools j = some p)
    (hStorage : p.storage ≠ none) {x : Nat} (hx : x ∈ free j) {g : Grant} (hg : g ∈ w.live) {a : Nat}
    (hMeets : ¬Apart ⟨a, 8⟩ g.span) : x ≠ a := by
  rintro rfl
  have hHolding : holding w free (.inr j) = ⟨poolBlocks (some p), (free j).map fun y => ⟨y, p.layout.slot⟩⟩ := by
    simp only [holding, hPool, poolHolding, if_neg hStorage]
  have hMem : (⟨x, p.layout.slot⟩ : Span) ∈ (holding w free (.inr j)).free := by
    rw [hHolding]
    exact mem_map.mpr ⟨x, hx, rfl⟩
  have hApart := hSound.parted.clear _ _ hMem g.span (mem_map.mpr ⟨g, hg, rfl⟩)
  have hWord : Within ⟨x, 8⟩ ⟨x, p.layout.slot⟩ := ⟨le_refl _, Nat.add_le_add_left p.layout.room x⟩
  exact hMeets (hApart.of_within hWord).symm

end Frames

section ArenaSteps

variable {w w' : World} {free : Nat → List Nat} {i : Nat}

section

variable (hSound : Sound w free)
include hSound

theorem sound_newArena {initialSize base : Nat} (hNext : newArena w i initialSize base = some w') : Sound w' free := by
  rw [newArena] at hNext
  split_ifs at hNext with hGuard
  cases hNext
  rw [Bool.and_eq_true, Option.isNone_iff_eq_none] at hGuard
  obtain ⟨hNone, hFresh⟩ := hGuard
  have hAway := hSound.apart_fresh (Arenas.fresh_iff.mp hFresh).2
  have hLaid : Laid (Arenas.new initialSize base).blocks := Laid.allocateBlock ⟨by simp, List.Pairwise.nil⟩ (by
    rw [Arenas.fresh_iff] at hFresh ⊢
    exact ⟨hFresh.1, by simp⟩)
  have hCurrent := Current.allocateBlock hLaid
  have hUnused : unused (Arenas.new initialSize base) = [⟨base, initialSize⟩] := Arenas.unused_allocateBlock
  apply hSound.setArena
  · have hHolding : arenaHolding (some (Arenas.new initialSize base)) =
        ⟨[⟨base, initialSize⟩], [⟨base, initialSize⟩]⟩ := by
      have hBlocks : (Arenas.new initialSize base).blocks = [⟨base, initialSize⟩] := rfl
      rw [arenaHolding, hUnused, hBlocks, if_neg (List.cons_ne_nil _ _)]
    rw [hHolding]
    apply hSound.parted.create
    · simp only [holding, hNone, arenaHolding]
    · exact List.pairwise_singleton _ _
    · intro o t ht u hu
      rw [mem_singleton.mp ht]
      exact (hAway o u hu).symm
    · exact List.pairwise_singleton _ _
    · exact fun f hf => ⟨f, hf, Within.refl f⟩
  · intro a ha _
    cases ha
    exact ⟨hLaid, _, hCurrent, Nat.le_add_right _ _⟩
  · intro t ht
    obtain rfl := mem_singleton.mp ht
    exact ⟨(Arenas.fresh_iff.mp hFresh).1.1.1, .inr (List.mem_append_right _ mem_cons_self)⟩
  · exact fun k _ => hSound.heap_append _ k

theorem sound_allocate {r : Request} {offer : Option Nat} (hOwned : Owned w (.allocate i r offer))
    (hNext : allocate w i r offer = some w') : Sound w' free := by
  rw [allocate] at hNext
  split at hNext
  case h_2 => cases hNext
  case h_1 a hArena =>
    split at hNext
    case h_2 =>
      cases hNext
      exact hSound
    case h_1 p a' hAllocate =>
      cases hNext
      obtain ⟨hBlocksOwned, hFits⟩ := hOwned a hArena
      have hTerritory : (holding w free (.inl i)).territory = a.blocks := by
        rw [holding, hArena, territory_arena, arenaBlocks]
      have hAway : ∀ base, w.offered a r offer = some base →
          ∀ o, ∀ t ∈ (holding w free o).territory, Apart t ⟨base, freshSize a r⟩ := fun base hBase =>
        hSound.apart_fresh (Arenas.fresh_iff.mp (Option.filter_eq_some_iff.mp hBase).2).2
      have hLaid : Laid a.blocks := by
        by_cases hEmpty : a.blocks = []
        · rw [hEmpty]
          exact ⟨by simp, List.Pairwise.nil⟩
        · exact (hSound.arenas i a hArena hEmpty).1
      have hCurrent : hasRoom a r = true → ∃ b, Current a b := by
        intro hRoom
        obtain ⟨-, b, hb, -⟩ := hSound.arenas i a hArena (hBlocksOwned hRoom)
        exact ⟨b, hb⟩
      have hFresh : ∀ base, w.offered a r offer = some base → Arenas.fresh a.blocks ⟨base, freshSize a r⟩ = true := by
        intro base hBase
        have hBounds := (Arenas.fresh_iff.mp (Option.filter_eq_some_iff.mp hBase).2).1
        exact Arenas.fresh_iff.mpr ⟨hBounds, fun t ht => hAway base hBase (.inl i) t (hTerritory ▸ ht)⟩
      obtain ⟨added, supply, hSource, hBlocks, hLaid', hGranted, b, hCurrent', hInside⟩ :=
        Arenas.granted_allocate hLaid hCurrent hFresh hFits hAllocate
      have hSome : a'.blocks ≠ [] := List.ne_nil_of_mem hCurrent'.mem
      have hHolding : arenaHolding (some a') = ⟨a'.blocks, unused a'⟩ := if_neg hSome
      apply hSound.setArena
      · rw [hHolding, map_cons]
        have hGrown : a'.blocks = (holding w free (.inl i)).territory ++ added := by rw [hTerritory, hBlocks]
        refine hSound.parted.grant hGrown ?_ ?_ ?_ hGranted.taken ?_ hGranted.left
        · exact hLaid'.apart
        · intro o t ht u hu
          cases hSource with
          | owned => cases hu
          | fresh base hBase =>
            rw [mem_singleton.mp hu]
            exact hAway base hBase o t ht
        · intro f hf
          cases hSource with
          | owned =>
            have hOld : a.blocks ≠ [] := by
              rw [hBlocks, List.append_nil] at hSome
              exact hSome
            left
            simp only [holding, hArena, arenaHolding, if_neg hOld]
            exact hf
          | fresh base hBase => exact .inr hf
        · exact hLaid'.unused_apart hCurrent' hInside
      · intro c hc _
        cases hc
        exact ⟨hLaid', b, hCurrent', hInside⟩
      · intro t ht
        refine ⟨(hLaid'.bounds t ht).1, ?_⟩
        simp only [arenaBlocks] at ht
        rw [hBlocks] at ht ⊢
        rw [List.drop_left]
        rcases List.mem_append.mp ht with hOld | hNew
        · exact hSound.heap_append _ (.inl i) t (hTerritory ▸ hOld)
        · exact .inr (List.mem_append_right _ hNew)
      · exact fun k _ => hSound.heap_append _ k

theorem sound_reset (hNext : reset w i = some w') : Sound w' free := by
  rw [reset] at hNext
  split at hNext
  case h_2 => cases hNext
  case h_1 a hArena =>
    cases hNext
    have hTerritory : (holding w free (.inl i)).territory = a.blocks := by
      rw [holding, hArena, territory_arena, arenaBlocks]
    have hLive : Parted (update (holding w free) (.inl i) (arenaHolding (some (Arenas.reset a))))
        ((w.live.filter fun g => outside a.blocks g.span).map Grant.span) ∧
        (Arenas.reset a).blocks = a.blocks ∧ ((Arenas.reset a).blocks ≠ [] →
          Laid (Arenas.reset a).blocks ∧ ∃ b, Current (Arenas.reset a) b ∧ (Arenas.reset a).ptr ≤ b.stop) := by
      rw [map_span_filter]
      by_cases hEmpty : a.blocks = []
      · have hSame : Arenas.reset a = a := if_pos (by rw [hEmpty]; rfl)
        have hNothing : holding w free (.inl i) = arenaHolding (some a) := by rw [holding, hArena]
        rw [hSame, ← hNothing, update_eq_self, hEmpty, outside_nil]
        exact ⟨hSound.parted, rfl, fun hNe => absurd rfl hNe⟩
      · obtain ⟨hLaid, -⟩ := hSound.arenas i a hArena hEmpty
        obtain ⟨first, rest, hBlocks⟩ := List.exists_cons_of_ne_nil hEmpty
        have hReset : Arenas.reset a = { a with index := 0, ptr := first.start, blockEnd := first.stop } := by
          rw [Arenas.reset, if_neg (by simp [hEmpty]), Arenas.setupBlock, hBlocks]
          rfl
        have hBounds := hLaid.bounds first (hBlocks ▸ mem_cons_self)
        have hCurrent : Current (Arenas.reset a) first := by
          rw [hReset]
          refine ⟨?_, rfl, le_refl _, (Nat.le_add_right _ _).trans_lt hBounds.2⟩
          simp only [hBlocks, List.getElem?_cons_zero]
        have hInside : (Arenas.reset a).ptr ≤ first.stop := by
          rw [hReset]
          exact Nat.le_add_right _ _
        have hSame : (Arenas.reset a).blocks = a.blocks := by rw [hReset]
        have hHolding : arenaHolding (some (Arenas.reset a)) = ⟨a.blocks, unused (Arenas.reset a)⟩ := by
          rw [arenaHolding, hSame, if_neg hEmpty]
        refine ⟨?_, hSame, fun _ => ⟨hSame ▸ hLaid, first, hCurrent, hInside⟩⟩
        rw [hHolding]
        have hWithin : ∀ f ∈ unused (Arenas.reset a), ∃ t ∈ a.blocks, Within f t :=
          List.forall_mem_cons.mpr ⟨⟨first, hSame ▸ hCurrent.mem, hCurrent.rest_within hInside⟩,
            fun f hBehind => ⟨f, hSame ▸ List.mem_of_mem_drop hBehind, Within.refl f⟩⟩
        have hRestart := hSound.parted.restart (i := .inl i) hLaid.apart
          (fun k hk t ht u hu => (hSound.parted.others k (.inl i) hk u hu t (hTerritory ▸ ht)).symm)
          (Laid.unused_apart (hSame ▸ hLaid) hCurrent hInside) hWithin
        rwa [hTerritory] at hRestart
    obtain ⟨hParted, hSame, hCurrent⟩ := hLive
    apply hSound.setArena
    · exact hParted
    · intro c hc hNe
      cases hc
      exact hCurrent hNe
    · intro t ht
      have hOld : t ∈ (holding w free (.inl i)).territory := hTerritory ▸ hSame ▸ ht
      exact ⟨hSound.positive _ t hOld, hSound.heap _ t hOld⟩
    · exact fun k _ => hSound.heap k

theorem sound_discardArena (i : Nat) : Sound ((w.discard (arenaBlocks (w.arenas i))).setArena i none) free := by
  have hTerritory : (holding w free (.inl i)).territory = arenaBlocks (w.arenas i) := by
    rw [holding, territory_arena]
  refine hSound.setArena none ?_ (by rintro _ ⟨⟩) (List.forall_mem_nil _)
    (hSound.heap_discard hTerritory)
  rw [World.discard, map_span_filter, ← hTerritory]
  exact hSound.parted.giveUp

theorem Sound.passArena {src dst : Nat} {a : Arena} (hArena : w.arenas src = some a) (hNone : w.arenas dst = none) :
    Sound ((w.setArena dst (some a)).setArena src (some { a with blocks := [] })) free := by
  have hNothing : holding w free (.inl dst) = nothing := by rw [holding, hNone, arenaHolding]
  have hHolding : holding ((w.setArena dst (some a)).setArena src (some { a with blocks := [] })) free =
      holding w free ∘ Equiv.swap (.inl src) (.inl dst) := by
    rw [← passed_eq hNothing, holding_setArena, holding_setArena]
    rw [holding, hArena]
    rfl
  constructor
  case parted =>
    rw [hHolding]
    exact hSound.parted.swap _ _
  case arenas =>
    intro j c hj hSome
    change update (update w.arenas dst (some a)) src (some { a with blocks := [] }) j = some c at hj
    by_cases hjs : j = src
    · rw [hjs, update_self] at hj
      cases hj
      exact absurd rfl hSome
    · rw [update_of_ne hjs] at hj
      by_cases hjd : j = dst
      · rw [hjd, update_self] at hj
        cases hj
        exact hSound.arenas src a hArena hSome
      · rw [update_of_ne hjd] at hj
        exact hSound.arenas j c hj hSome
  case threaded => exact hSound.threaded
  case positive =>
    rw [hHolding]
    exact fun k => hSound.positive _
  case heap =>
    rw [hHolding]
    exact fun k => hSound.heap _

theorem sound_moveArena {src dst : Nat} (hNext : moveArena w src dst = some w') : Sound w' free := by
  rw [moveArena] at hNext
  split at hNext
  case h_2 => cases hNext
  case h_1 a hArena =>
    split_ifs at hNext with hNe
    cases hNext
    have hPassed := (sound_discardArena hSound dst).passArena ((update_of_ne hNe _ _).trans hArena)
      (update_self _ _ _)
    have hSame : ((w.discard (arenaBlocks (w.arenas dst))).setArena dst none).setArena dst (some a) =
        (w.discard (arenaBlocks (w.arenas dst))).setArena dst (some a) := by
      simp only [World.setArena, update_idem]
    rwa [hSame] at hPassed

theorem sound_destroyArena (hNext : destroyArena w i = some w') : Sound w' free := by
  rw [destroyArena] at hNext
  split at hNext
  case h_2 => cases hNext
  case h_1 a hArena =>
    cases hNext
    have hDiscarded := sound_discardArena hSound i
    rwa [hArena] at hDiscarded

end

end ArenaSteps

section PoolSteps

variable {w w' : World} {free : Nat → List Nat} {i : Nat}

theorem holding_pool (free : Nat → List Nat) {p : Pool} (hPool : w.pools i = some p) (hStorage : p.storage ≠ none) :
    holding w free (.inr i) = ⟨poolBlocks (some p), (free i).map fun x => ⟨x, p.layout.slot⟩⟩ := by
  simp only [holding, hPool, poolHolding, if_neg hStorage]

section

variable (hSound : Sound w free)
include hSound

theorem sound_newPool {layout : Layout} {capacity base : Nat} (hOwned : Owned w (.newPool i layout capacity base))
    (hNext : newPool w i layout capacity base = some w') : ∃ free', Sound w' free' := by
  obtain ⟨hCapacity, hFits⟩ := hOwned
  rw [newPool] at hNext
  split_ifs at hNext with hGuard
  cases hNext
  simp only [aligned, Bool.and_eq_true, Option.isNone_iff_eq_none, decide_eq_true_eq, List.all_eq_true] at hGuard
  obtain ⟨hNone, ⟨⟨hStart, -⟩, hStop⟩, hFresh⟩ := hGuard
  have hAway := hSound.apart_fresh hFresh
  have hEnd : base + layout.slot * capacity < 2 ^ 64 := by
    rw [Span.stop, FixedPool.block, SequenceRing.wrap, Nat.mod_eq_of_lt hFits] at hStop
    exact hStop
  obtain ⟨hThreaded, hOther⟩ := FixedPool.new_threaded w.memory hCapacity hStart hEnd
  refine ⟨update free i (FixedPool.slots layout capacity base), hSound.setPool _ _ ?_ ?_ ?_ ?_ ?_⟩
  · apply hSound.parted.create
    · simp only [holding, hNone, poolHolding]
    · exact List.pairwise_singleton _ _
    · intro o t ht u hu
      rw [mem_singleton.mp ht]
      exact (hAway o u hu).symm
    · exact FixedPool.slots_apart layout capacity base
    · intro f hf
      obtain ⟨x, hx, rfl⟩ := mem_map.mp hf
      exact ⟨_, mem_singleton.mpr rfl, FixedPool.slots_within hFits hx⟩
  · intro p hp _
    cases hp
    exact hThreaded
  · intro j _ p hPool hStorage x hx
    refine hOther x fun hIn => ?_
    have hFree : (⟨x, p.layout.slot⟩ : Span) ∈ (holding w free (.inr j)).free := by
      rw [holding_pool free hPool hStorage]
      exact mem_map.mpr ⟨x, hx, rfl⟩
    obtain ⟨t, ht, hxt⟩ := hSound.parted.within _ _ hFree
    have hApart := ((hAway _ t ht).of_within (FixedPool.slots_within hFits hIn)).symm.of_within hxt
    rcases hApart.empty_of_start rfl with hEmpty | hEmpty
    · exact absurd hEmpty (FixedPool.slot_pos layout).ne'
    · exact absurd hEmpty (FixedPool.slot_pos p.layout).ne'
  · intro t ht
    obtain rfl := mem_singleton.mp ht
    exact ⟨hStart, .inr (List.mem_append_right _ mem_cons_self)⟩
  · exact fun k _ => hSound.heap_append _ k

theorem sound_take (hOwned : Owned w (.take i)) (hNext : take w i = some w') : ∃ free', Sound w' free' := by
  rw [take] at hNext
  split at hNext
  case h_2 => cases hNext
  case h_1 p hPool =>
    by_cases hStorage : p.storage = none
    · have hNull := hOwned p hPool hStorage
      rw [FixedPool.allocate, if_pos hNull] at hNext
      cases hNext
      exact ⟨free, hSound⟩
    · obtain ⟨p', hAllocate, hRest, hKept⟩ := FixedPool.allocate_threaded (hSound.threaded i p hPool hStorage)
      have hHolding := holding_pool free hPool hStorage
      rw [hAllocate] at hNext
      cases hList : free i with
      | nil =>
        rw [hList] at hNext
        cases hNext
        exact ⟨free, hSound⟩
      | cons x l =>
        rw [hList] at hNext hRest
        cases hNext
        have hBlocks : poolBlocks (some p') = poolBlocks (some p) := by
          simp only [poolBlocks, hKept.1, hKept.2.1, hKept.2.2]
        have hTerritory : (holding w free (.inr i)).territory = poolBlocks (some p) := by rw [hHolding]
        have hNew : poolHolding (some p') l = ⟨poolBlocks (some p), l.map fun x => ⟨x, p.layout.slot⟩⟩ := by
          rw [poolHolding, hKept.1, if_neg hStorage, hBlocks, hKept.2.1]
        have hFree := hSound.parted.free (.inr i)
        rw [hHolding, hList, map_cons, List.pairwise_cons] at hFree
        refine ⟨update free i l, hSound.setPool _ _ ?_ ?_ ?_ ?_ ?_⟩
        · rw [hNew, map_cons]
          have hTaken : ∃ f ∈ (holding w free (.inr i)).free, Within ⟨x, p.layout.slot⟩ f := by
            refine ⟨⟨x, p.layout.slot⟩, ?_, Within.refl _⟩
            rw [hHolding, hList]
            exact mem_cons_self
          have hNone : ∀ j, ∀ t ∈ (holding w free j).territory, ∀ u ∈ ([] : List Span), Apart t u :=
            fun _ _ _ => List.forall_mem_nil _
          refine hSound.parted.grant ?_ ?_ hNone (fun f hf => .inl hf) hTaken hFree.2 ?_
          · rw [hTerritory, List.append_nil]
          · exact hTerritory ▸ hSound.parted.own (.inr i)
          · intro f hf
            refine ⟨hFree.1 f hf, f, ?_, Within.refl f⟩
            rw [hHolding, hList]
            exact List.mem_cons_of_mem _ hf
        · intro q hq _
          cases hq
          exact hRest
        · exact fun j _ q _ _ x _ => rfl
        · intro t ht
          have hOld : t ∈ (holding w free (.inr i)).territory := by rwa [hTerritory, ← hBlocks]
          exact ⟨hSound.positive _ t hOld, hSound.heap _ t hOld⟩
        · exact fun k _ => hSound.heap k

theorem sound_give {ptr : Nat} (hOwned : Owned w (.give i ptr)) (hNext : give w i ptr = some w') :
    ∃ free', Sound w' free' := by
  rw [give] at hNext
  split at hNext
  case h_2 => cases hNext
  case h_1 p hPool =>
    split_ifs at hNext with hLive
    cases hNext
    rw [List.elem_iff] at hLive
    obtain ⟨t, ht, hWithin⟩ := hOwned p hPool
    have hStorage : p.storage ≠ none := by
      intro hNone
      simp [poolBlocks, hNone] at ht
    have hHolding := holding_pool free hPool hStorage
    have hTerritory : (holding w free (.inr i)).territory = poolBlocks (some p) := by rw [hHolding]
    have hMeets : ¬Apart ⟨ptr, 8⟩ ⟨ptr, p.layout.slot⟩ := by
      intro hApart
      rcases hApart.empty_of_start rfl with hEmpty | hEmpty
      · exact absurd hEmpty (Nat.succ_ne_zero 7)
      · exact absurd hEmpty (FixedPool.slot_pos p.layout).ne'
    have hNotFree : ∀ j q, w.pools j = some q → q.storage ≠ none → ∀ x ∈ free j, x ≠ ptr :=
      fun j q hq hs x hx => hSound.free_ne hq hs hx hLive hMeets
    have hNull : ptr ≠ 0 := by
      have hPositive := hSound.positive (.inr i) t (hTerritory ▸ ht)
      exact Nat.ne_of_gt (Nat.lt_of_lt_of_le hPositive hWithin.1)
    refine ⟨update free i (ptr :: free i), hSound.setPool _ _ ?_ ?_ ?_ ?_ ?_⟩
    · have hPerm := (List.perm_cons_erase hLive).map Grant.span
      have hReleased := (hSound.parted.perm hPerm).release (i := .inr i) ⟨t, hTerritory ▸ ht, hWithin⟩
      have hNew : poolHolding (some (FixedPool.deallocate w.memory p ptr).1) (ptr :: free i) =
          ⟨(holding w free (.inr i)).territory, ⟨ptr, p.layout.slot⟩ :: (holding w free (.inr i)).free⟩ := by
        rw [hHolding]
        exact if_neg hStorage
      rw [hNew]
      exact hReleased
    · intro q hq _
      cases hq
      exact FixedPool.deallocate_threaded (hSound.threaded i p hPool hStorage) hNull
        fun hIn => hNotFree i p hPool hStorage ptr hIn rfl
    · intro j _ q hq hs x hx
      exact update_of_ne (hNotFree j q hq hs x hx) _ _
    · intro u hu
      have hOld : u ∈ (holding w free (.inr i)).territory := hTerritory ▸ hu
      exact ⟨hSound.positive _ u hOld, hSound.heap _ u hOld⟩
    · exact fun k _ => hSound.heap k

theorem sound_discardPool (i : Nat) :
    Sound ((w.discard (poolBlocks (w.pools i))).setPool i none) (update free i []) := by
  have hTerritory : (holding w free (.inr i)).territory = poolBlocks (w.pools i) := by
    rw [holding, territory_pool]
  refine hSound.setPool none [] ?_ (by rintro _ ⟨⟩) (fun j _ p _ _ x _ => rfl)
    (List.forall_mem_nil _) (hSound.heap_discard hTerritory)
  rw [World.discard, map_span_filter, ← hTerritory]
  exact hSound.parted.giveUp

theorem Sound.passPool {src dst : Nat} {p : Pool} (hPool : w.pools src = some p) (hNone : w.pools dst = none) :
    Sound ((w.setPool dst (some p)).setPool src (some { p with storage := none }))
      (update (update free dst (free src)) src []) := by
  have hNothing : holding w free (.inr dst) = nothing := by rw [holding, hNone, poolHolding]
  have hHolding : holding ((w.setPool dst (some p)).setPool src (some { p with storage := none }))
      (update (update free dst (free src)) src []) =
      holding w free ∘ Equiv.swap (.inr src) (.inr dst) := by
    rw [← passed_eq hNothing, holding_setPool, holding_setPool]
    rw [holding, hPool]
    rfl
  constructor
  case parted =>
    rw [hHolding]
    exact hSound.parted.swap _ _
  case arenas => exact hSound.arenas
  case threaded =>
    intro j q hj hStorage
    change update (update w.pools dst (some p)) src (some { p with storage := none }) j = some q at hj
    by_cases hjs : j = src
    · rw [hjs, update_self] at hj
      cases hj
      exact absurd rfl hStorage
    · rw [update_of_ne hjs] at hj ⊢
      by_cases hjd : j = dst
      · rw [hjd, update_self] at hj ⊢
        cases hj
        exact hSound.threaded src p hPool hStorage
      · rw [update_of_ne hjd] at hj ⊢
        exact hSound.threaded j q hj hStorage
  case positive =>
    rw [hHolding]
    exact fun k => hSound.positive _
  case heap =>
    rw [hHolding]
    exact fun k => hSound.heap _

theorem sound_movePool {src dst : Nat} (hNext : movePool w src dst = some w') : ∃ free', Sound w' free' := by
  rw [movePool] at hNext
  split at hNext
  case h_2 => cases hNext
  case h_1 p hPool =>
    split_ifs at hNext with hNe
    cases hNext
    have hPassed := (sound_discardPool hSound dst).passPool ((update_of_ne hNe _ _).trans hPool)
      (update_self _ _ _)
    have hSame : ((w.discard (poolBlocks (w.pools dst))).setPool dst none).setPool dst (some p) =
        (w.discard (poolBlocks (w.pools dst))).setPool dst (some p) := by
      simp only [World.setPool, update_idem]
    rw [hSame] at hPassed
    exact ⟨_, hPassed⟩

theorem sound_destroyPool (hNext : destroyPool w i = some w') : ∃ free', Sound w' free' := by
  rw [destroyPool] at hNext
  split at hNext
  case h_2 => cases hNext
  case h_1 p hPool =>
    cases hNext
    have hDiscarded := sound_discardPool hSound i
    rw [hPool] at hDiscarded
    exact ⟨_, hDiscarded⟩

theorem sound_store {address value : Nat} (hNext : store w address value = some w') : Sound w' free := by
  rw [store] at hNext
  split_ifs at hNext with hGuard
  cases hNext
  obtain ⟨g, hg, hMeets⟩ := List.any_eq_true.mp hGuard
  have hMeets' : ¬Apart ⟨address, 8⟩ g.span := by simpa using hMeets
  refine { hSound with threaded := ?_ }
  intro j p hPool hStorage
  refine (hSound.threaded j p hPool hStorage).update fun hIn => ?_
  exact hSound.free_ne hPool hStorage hIn hg hMeets' rfl

end

end PoolSteps

section Runs

variable {w w' : World} {op : Op}

theorem sound_next (hSound : ∃ free, Sound w free) (hOwned : Owned w op) (hNext : next w op = some w') :
    ∃ free, Sound w' free := by
  obtain ⟨free, hSound⟩ := hSound
  cases op with
  | newArena i initialSize base => exact ⟨free, sound_newArena hSound hNext⟩
  | allocate i r offer => exact ⟨free, sound_allocate hSound hOwned hNext⟩
  | reset i => exact ⟨free, sound_reset hSound hNext⟩
  | moveArena src dst => exact ⟨free, sound_moveArena hSound hNext⟩
  | destroyArena i => exact ⟨free, sound_destroyArena hSound hNext⟩
  | newPool i layout capacity base => exact sound_newPool hSound hOwned hNext
  | take i => exact sound_take hSound hOwned hNext
  | give i ptr => exact sound_give hSound hOwned hNext
  | movePool src dst => exact sound_movePool hSound hNext
  | destroyPool i => exact sound_destroyPool hSound hNext
  | store address value => exact ⟨free, sound_store hSound hNext⟩

theorem sound_empty : Sound World.empty fun _ => [] := by
  have hNothing : ∀ k, holding World.empty (fun _ => []) k = nothing := by
    intro k
    cases k <;> rfl
  constructor
  case parted =>
    constructor
    case handed => exact List.Pairwise.nil
    case lives => exact List.forall_mem_nil _
    all_goals simp [hNothing, nothing]
  case arenas => rintro _ _ ⟨⟩
  case threaded => rintro _ _ ⟨⟩
  case positive => simp [hNothing, nothing]
  case heap => simp [hNothing, nothing]

/-- Live allocations never overlap in a run in which every object uses memory of its own, and a pool that was moved
from has a slot to give just if it had one before. -/
theorem no_overlap_of_owned (ops : List Op) :
    (LabelledRuns.Meets next Owned ops World.empty → LabelledRuns.Always next NoOverlap ops World.empty) ∧
    ∀ w w' src dst p, w.pools src = some p → movePool w src dst = some w' → ∃ moved, w'.pools src = some moved ∧
      ((FixedPool.allocate w'.memory moved).1 = none ↔ p.freeList = 0) := by
  constructor
  · intro hMeets
    refine LabelledRuns.always_of_meets (I := fun w => ∃ free, Sound w free) ?_ ?_ ⟨_, sound_empty⟩ hMeets
    · rintro w ⟨free, hSound⟩
      exact hSound.parted.handed
    · exact fun w op w' => sound_next
  · intro w w' src dst p hPool hMove
    simp only [movePool, hPool] at hMove
    split_ifs at hMove with hNe
    cases hMove
    refine ⟨{ p with storage := none }, update_self _ _ _, ?_⟩
    rw [FixedPool.allocate]
    split_ifs with hNull
    · exact iff_of_true rfl hNull
    · exact iff_of_false nofun hNull

def words : Layout := ⟨8, 3, by decide +kernel⟩

def movedRun : List Op :=
  [.newPool 0 words 2 16, .movePool 0 1, .take 1, .take 1, .newArena 0 64 64, .moveArena 0 1,
    .allocate 1 ⟨8, 3, by decide⟩ none, .allocate 1 ⟨8, 3, by decide⟩ none]

/-- The four allocations are live at the end and do not overlap. -/
theorem no_overlap_moved : LabelledRuns.Always next NoOverlap movedRun World.empty ∧
    ∃ w, LabelledRuns.run next movedRun World.empty = some w ∧
      w.live.map Grant.span = [⟨72, 8⟩, ⟨64, 8⟩, ⟨24, 8⟩, ⟨16, 8⟩] := by
  refine ⟨(no_overlap_of_owned _).1 ⟨⟨by decide, by decide +kernel⟩, ?_⟩, _, rfl, rfl⟩
  rintro _ ⟨⟩
  refine ⟨trivial, ?_⟩
  rintro _ ⟨⟩
  refine ⟨by rintro _ ⟨⟩ ⟨⟩, ?_⟩
  rintro _ ⟨⟩
  refine ⟨by rintro _ ⟨⟩ ⟨⟩, ?_⟩
  rintro _ ⟨⟩
  refine ⟨trivial, ?_⟩
  rintro _ ⟨⟩
  refine ⟨trivial, ?_⟩
  rintro _ ⟨⟩
  refine ⟨by rintro _ ⟨⟩; exact ⟨by decide, (if_pos rfl).mpr (by decide)⟩, ?_⟩
  rintro _ ⟨⟩
  exact ⟨by rintro _ ⟨⟩; exact ⟨by decide, (if_pos rfl).mpr (by decide)⟩, fun _ _ => trivial⟩

/-- After a move both objects hand out the same memory: a pool its first slot, an arena its first
bytes. -/
theorem moved_from_overlaps :
    (∃ w, LabelledRuns.run next [.newPool 0 words 2 16, .movePool 0 1, .take 0, .take 1] World.empty = some w ∧
      w.live.map Grant.span = [⟨16, 8⟩, ⟨16, 8⟩] ∧ ¬NoOverlap w) ∧
    ∃ w, LabelledRuns.run next [.newArena 0 64 16, .moveArena 0 1, .allocate 0 ⟨8, 3, by decide⟩ none,
        .allocate 1 ⟨8, 3, by decide⟩ none] World.empty = some w ∧
      w.live.map Grant.span = [⟨16, 8⟩, ⟨16, 8⟩] ∧ ¬NoOverlap w := by
  have hTwice : ¬[(⟨16, 8⟩ : Span), ⟨16, 8⟩].Pairwise Apart := by decide
  exact ⟨⟨_, rfl, rfl, hTwice⟩, ⟨_, rfl, rfl, hTwice⟩⟩

end Runs

end Allocators
