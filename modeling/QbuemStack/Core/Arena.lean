import Mathlib.Data.List.Basic
import QbuemStack.Base.LabelledRuns
import QbuemStack.Base.SequenceRing
import QbuemStack.Base.Spans

/-! The bump allocator. The test for room in the current block is made before a further block is
chosen, and not again after that. -/
namespace Arenas

open SequenceRing Span

section Model

structure Arena where
  blockSize : Nat
  blocks : List Span
  index : Nat
  ptr : Nat
  blockEnd : Nat

structure Request where
  size : Nat
  bits : Nat
  bits_le : bits ≤ 63

def Request.alignment (r : Request) : Nat := 2 ^ r.bits

variable (a : Arena) (r : Request)

def allocateBlock (block : Span) : Arena :=
  { a with blocks := a.blocks ++ [block], index := a.blocks.length, ptr := block.start, blockEnd := block.stop }

def setupBlock (index : Nat) : Arena :=
  match a.blocks[index]? with
  | some block => { a with index := index, ptr := block.start, blockEnd := block.stop }
  | none => a

def advanceToExistingBlock (need : Nat) : Option Arena :=
  ((a.blocks.drop (a.index + 1)).findIdx? fun block => need ≤ block.size).map fun k => setupBlock a (a.index + 1 + k)

def totalSize : Nat := r.size + padding r.alignment a.ptr

def hasRoom : Bool := wrap (a.ptr + totalSize a r) ≤ a.blockEnd

def bump : Nat × Arena := (wrap (a.ptr + padding r.alignment a.ptr), { a with ptr := wrap (a.ptr + totalSize a r) })

def freshSize : Nat := max (2 * r.size) a.blockSize

def allocate (fresh : Option Nat) : Option (Nat × Arena) :=
  if 2 ^ 63 ≤ r.size then none
  else if hasRoom a r then some (bump a r)
  else match advanceToExistingBlock a (r.size + r.alignment) with
    | some b => some (bump b r)
    | none => fresh.map fun base => bump (allocateBlock a ⟨base, freshSize a r⟩) r

def reset : Arena := if a.blocks.isEmpty then a else setupBlock a 0

def new (initialSize base : Nat) : Arena := allocateBlock ⟨initialSize, [], 0, 0, 0⟩ ⟨base, initialSize⟩

def fresh (used : List Span) (block : Span) : Bool :=
  0 < block.start && block.start % 16 = 0 && block.stop < 2 ^ 64 && used.all fun other => Apart other block

end Model

section Blocks

variable {a : Arena} {r : Request} {b : Span}

structure Laid (blocks : List Span) : Prop where
  bounds : ∀ b ∈ blocks, 0 < b.start ∧ b.stop < 2 ^ 64
  apart : blocks.Pairwise Apart

structure Current (a : Arena) (b : Span) : Prop where
  block : a.blocks[a.index]? = some b
  blockEnd : a.blockEnd = b.stop
  start_le : b.start ≤ a.ptr
  ptr_lt : a.ptr < 2 ^ 64

def rest (a : Arena) : Span := ⟨a.ptr, a.blockEnd - a.ptr⟩

def unused (a : Arena) : List Span := rest a :: a.blocks.drop (a.index + 1)

theorem fresh_iff {used : List Span} : fresh used b = true ↔
    ((0 < b.start ∧ b.start % 16 = 0) ∧ b.stop < 2 ^ 64) ∧ ∀ other ∈ used, Apart other b := by
  simp only [fresh, Bool.and_eq_true, decide_eq_true_eq, List.all_eq_true]

theorem Laid.allocateBlock (hLaid : Laid a.blocks) (hFresh : fresh a.blocks b = true) :
    Laid (allocateBlock a b).blocks := by
  obtain ⟨⟨⟨hStart, -⟩, hStop⟩, hApart⟩ := fresh_iff.mp hFresh
  constructor
  case bounds =>
    exact List.forall_mem_append.mpr ⟨hLaid.bounds, List.forall_mem_singleton.mpr ⟨hStart, hStop⟩⟩
  case apart =>
    refine List.pairwise_append.mpr ⟨hLaid.apart, List.pairwise_singleton _ _, fun other hOld block hNew => ?_⟩
    obtain rfl := List.mem_singleton.mp hNew
    exact hApart other hOld

theorem Current.allocateBlock (hLaid : Laid (allocateBlock a b).blocks) : Current (allocateBlock a b) b := by
  have hMem : b ∈ (Arenas.allocateBlock a b).blocks := List.mem_append_right _ List.mem_cons_self
  have hBounds := hLaid.bounds b hMem
  refine ⟨List.getElem?_concat_length, rfl, le_refl _, ?_⟩
  exact (Nat.le_add_right _ _).trans_lt hBounds.2

theorem unused_allocateBlock : unused (allocateBlock a b) = [b] := by
  have hRest : rest (allocateBlock a b) = b := by
    rw [rest]
    simp [Arenas.allocateBlock, stop]
  have hDrop : (allocateBlock a b).blocks.drop ((allocateBlock a b).index + 1) = [] :=
    List.drop_eq_nil_of_le (by simp [Arenas.allocateBlock])
  rw [unused, hRest, hDrop]

theorem Current.mem (hCurrent : Current a b) : b ∈ a.blocks := List.mem_of_getElem? hCurrent.block

theorem Current.rest_within (hCurrent : Current a b) (hInside : a.ptr ≤ b.stop) : Within (rest a) b := by
  refine ⟨hCurrent.start_le, ?_⟩
  rw [rest, stop, hCurrent.blockEnd]
  simp only
  omega

theorem drop_eq_cons {blocks : List Span} {i : Nat} (hBlock : blocks[i]? = some b) :
    blocks.drop i = b :: blocks.drop (i + 1) := by
  obtain ⟨hLt, hEq⟩ := List.getElem?_eq_some_iff.mp hBlock
  rw [List.drop_eq_getElem_cons hLt, hEq]

theorem Laid.apart_drop (hLaid : Laid a.blocks) {i : Nat} (hBlock : a.blocks[i]? = some b) {other : Span}
    (hMem : other ∈ a.blocks.drop (i + 1)) : Apart b other := by
  have hPairwise := hLaid.apart.sublist (List.drop_sublist i _)
  rw [drop_eq_cons hBlock] at hPairwise
  exact (List.pairwise_cons.mp hPairwise).1 other hMem

theorem Laid.unused_apart (hLaid : Laid a.blocks) (hCurrent : Current a b) (hInside : a.ptr ≤ b.stop) :
    (unused a).Pairwise Apart := by
  refine List.pairwise_cons.mpr ⟨fun s hs => ?_, hLaid.apart.sublist (List.drop_sublist _ _)⟩
  exact ((hLaid.apart_drop hCurrent.block hs).symm.of_within (hCurrent.rest_within hInside)).symm

/-- An owned block behind the current one is chosen only if the request fits in it with any padding. -/
theorem advance_some {need : Nat} {a' : Arena} (hAdvance : advanceToExistingBlock a need = some a') :
    ∃ i block, a.index < i ∧ a.blocks[i]? = some block ∧ need ≤ block.size ∧
      a' = { a with index := i, ptr := block.start, blockEnd := block.stop } := by
  rw [advanceToExistingBlock, Option.map_eq_some_iff] at hAdvance
  obtain ⟨k, hFind, rfl⟩ := hAdvance
  obtain ⟨hLt, hNeed, -⟩ := List.findIdx?_eq_some_iff_getElem.mp hFind
  rw [decide_eq_true_eq, List.getElem_drop] at hNeed
  rw [List.length_drop] at hLt
  have hBlock := List.getElem?_eq_getElem (l := a.blocks) (i := a.index + 1 + k) (by omega)
  refine ⟨a.index + 1 + k, _, by omega, hBlock, hNeed, ?_⟩
  rw [setupBlock, hBlock]

end Blocks

section Results

variable {a a' : Arena} {r : Request} {b : Span} {p : Nat} {supply : List Span}

theorem alignment_pos (r : Request) : 0 < r.alignment := Nat.two_pow_pos r.bits

theorem alignment_dvd (r : Request) : r.alignment ∣ 2 ^ 64 := Nat.pow_dvd_pow 2 (r.bits_le.trans (by decide))

structure Granted (supply : List Span) (r : Request) (p : Nat) (a' : Arena) : Prop where
  aligned : r.alignment ∣ p
  inside : ∃ b ∈ a'.blocks, Within ⟨p, r.size⟩ b
  taken : ∃ s ∈ supply, Within ⟨p, r.size⟩ s
  left : ∀ s' ∈ unused a', Apart ⟨p, r.size⟩ s' ∧ ∃ s ∈ supply, Within s' s

theorem Granted.mono {more : List Span} (hGranted : Granted supply r p a')
    (hMore : ∀ s ∈ supply, ∃ t ∈ more, Within s t) : Granted more r p a' := by
  refine ⟨hGranted.aligned, hGranted.inside, ?_, ?_⟩
  · obtain ⟨s, hs, hWithin⟩ := hGranted.taken
    obtain ⟨t, ht, hst⟩ := hMore s hs
    exact ⟨t, ht, hWithin.trans hst⟩
  · intro s' hs'
    obtain ⟨hApart, s, hs, hWithin⟩ := hGranted.left s' hs'
    obtain ⟨t, ht, hst⟩ := hMore s hs
    exact ⟨hApart, t, ht, hWithin.trans hst⟩

theorem bump_aligned (a : Arena) (r : Request) : r.alignment ∣ (bump a r).1 :=
  (Nat.dvd_mod_iff (alignment_dvd r)).mpr (dvd_add_padding (alignment_pos r) a.ptr)

theorem bump_eq (hFit : a.ptr + totalSize a r < 2 ^ 64) :
    bump a r = (a.ptr + padding r.alignment a.ptr, { a with ptr := a.ptr + totalSize a r }) := by
  rw [totalSize] at hFit
  rw [bump, wrap, wrap, totalSize, Nat.mod_eq_of_lt hFit, Nat.mod_eq_of_lt (by omega)]

/-- Where the padded request fits into the current block, the result is taken from what is left of
it. -/
theorem granted_bump (hLaid : Laid a.blocks) (hCurrent : Current a b) (hFit : a.ptr + totalSize a r ≤ b.stop) :
    Granted (unused a) r (bump a r).1 (bump a r).2 ∧ Current (bump a r).2 b ∧ (bump a r).2.ptr ≤ b.stop := by
  have hBounds := hLaid.bounds b hCurrent.mem
  have hStart := hCurrent.start_le
  have hEnd := hCurrent.blockEnd
  have hTotal : totalSize a r = r.size + padding r.alignment a.ptr := rfl
  have hAligned := bump_aligned a r
  rw [bump_eq (hFit.trans_lt hBounds.2)] at hAligned ⊢
  have hRest : Within ⟨a.ptr + padding r.alignment a.ptr, r.size⟩ (rest a) := by
    simp only [Within, rest, stop]
    constructor
    · exact Nat.le_add_right _ _
    · omega
  have hInside : Within (rest a) b := hCurrent.rest_within (by omega)
  refine ⟨⟨hAligned, ⟨b, hCurrent.mem, hRest.trans hInside⟩, ⟨rest a, List.mem_cons_self, hRest⟩, ?_⟩, ?_, hFit⟩
  · intro s' hs'
    rcases List.mem_cons.mp hs' with rfl | hBehind
    · refine ⟨.inl ?_, rest a, List.mem_cons_self, ?_⟩
      · simp only [stop, rest]
        omega
      · simp only [Within, rest, stop]
        omega
    · have hApart := hLaid.apart_drop hCurrent.block hBehind
      exact ⟨(hApart.symm.of_within (hRest.trans hInside)).symm, s', List.mem_cons_of_mem _ hBehind, Within.refl s'⟩
  · exact ⟨hCurrent.block, hEnd, hStart.trans (Nat.le_add_right _ _), hFit.trans_lt hBounds.2⟩

theorem allocate_cases {offer : Option Nat} (hAllocate : allocate a r offer = some (p, a')) :
    (hasRoom a r = true ∧ (p, a') = bump a r) ∨
    (hasRoom a r = false ∧ ∃ c, advanceToExistingBlock a (r.size + r.alignment) = some c ∧ (p, a') = bump c r) ∨
    (hasRoom a r = false ∧ advanceToExistingBlock a (r.size + r.alignment) = none ∧
      ∃ base, offer = some base ∧ (p, a') = bump (allocateBlock a ⟨base, freshSize a r⟩) r) := by
  rw [allocate] at hAllocate
  split_ifs at hAllocate with hSize hRoom
  · exact .inl ⟨hRoom, (Option.some.inj hAllocate).symm⟩
  · rw [Bool.not_eq_true] at hRoom
    right
    split at hAllocate
    case h_1 c hAdvance => exact .inl ⟨hRoom, c, hAdvance, (Option.some.inj hAllocate).symm⟩
    case h_2 hNone =>
      rw [Option.map_eq_some_iff] at hAllocate
      obtain ⟨base, hOffer, hBump⟩ := hAllocate
      exact .inr ⟨hRoom, hNone, base, hOffer, hBump.symm⟩

/-- The sum of the pointer and the size does not wrap, and a fresh block has room for the padding. -/
def Fits (a : Arena) (r : Request) (offer : Option Nat) : Prop :=
  if hasRoom a r then a.ptr + totalSize a r < 2 ^ 64
  else advanceToExistingBlock a (r.size + r.alignment) = none →
    ∀ base, offer = some base → totalSize (allocateBlock a ⟨base, freshSize a r⟩) r ≤ freshSize a r

theorem granted_advance (hLaid : Laid a.blocks) (hAdvance : advanceToExistingBlock a (r.size + r.alignment) = some a') :
    a'.blocks = a.blocks ∧ Granted (unused a) r (bump a' r).1 (bump a' r).2 ∧
      ∃ b, Current (bump a' r).2 b ∧ (bump a' r).2.ptr ≤ b.stop := by
  obtain ⟨i, block, hBehind, hBlock, hNeed, rfl⟩ := advance_some hAdvance
  have hBounds := hLaid.bounds block (List.mem_of_getElem? hBlock)
  have hCurrent : Current { a with index := i, ptr := block.start, blockEnd := block.stop } block :=
    ⟨hBlock, rfl, le_refl _, (Nat.le_add_right _ _).trans_lt hBounds.2⟩
  have hPadding := padding_lt (alignment_pos r) block.start
  have hFit : block.start + (r.size + padding r.alignment block.start) ≤ block.stop := by
    rw [stop]
    omega
  obtain ⟨hGranted, hAfter⟩ := granted_bump (r := r)
    (a := { a with index := i, ptr := block.start, blockEnd := block.stop })
    hLaid hCurrent hFit
  refine ⟨rfl, hGranted.mono ?_, block, hAfter⟩
  have hDrop : ∀ s ∈ a.blocks.drop i, s ∈ unused a := fun s hs =>
    List.mem_cons_of_mem _ ((List.drop_subset_drop_left _ hBehind) hs)
  rw [drop_eq_cons hBlock] at hDrop
  intro s hs
  rcases List.mem_cons.mp hs with rfl | hLater
  · refine ⟨block, hDrop _ List.mem_cons_self, hCurrent.rest_within (Nat.le_add_right _ _)⟩
  · exact ⟨s, hDrop s (List.mem_cons_of_mem _ hLater), Within.refl s⟩

theorem granted_fresh {block : Span} (hLaid : Laid a.blocks) (hFresh : fresh a.blocks block = true)
    (hFit : totalSize (allocateBlock a block) r ≤ block.size) :
    let out := bump (allocateBlock a block) r
    Granted [block] r out.1 out.2 ∧ Current out.2 block ∧ out.2.ptr ≤ block.stop := by
  have hLater := hLaid.allocateBlock hFresh
  have hGranted := granted_bump (r := r) hLater (Current.allocateBlock hLater) (Nat.add_le_add_left hFit _)
  rwa [unused_allocateBlock] at hGranted

inductive Source (a : Arena) (r : Request) (offer : Option Nat) : List Span → List Span → Prop where
  | owned : Source a r offer [] (unused a)
  | fresh (base : Nat) (hOffer : offer = some base) :
      Source a r offer [⟨base, freshSize a r⟩] [⟨base, freshSize a r⟩]

/-- A call that returns takes its result from what was left of the blocks or from a fresh block. -/
theorem granted_allocate {offer : Option Nat} (hLaid : Laid a.blocks) (hOwned : hasRoom a r = true → ∃ b, Current a b)
    (hFresh : ∀ base, offer = some base → fresh a.blocks ⟨base, freshSize a r⟩ = true) (hFits : Fits a r offer)
    (hAllocate : allocate a r offer = some (p, a')) :
    ∃ added supply, Source a r offer added supply ∧ a'.blocks = a.blocks ++ added ∧ Laid a'.blocks ∧
      Granted supply r p a' ∧ ∃ b, Current a' b ∧ a'.ptr ≤ b.stop := by
  rw [Fits] at hFits
  rcases allocate_cases hAllocate with
    ⟨hRoom, hBump⟩ | ⟨hRoom, c, hAdvance, hBump⟩ | ⟨hRoom, hNone, base, hOffer, hBump⟩
  · obtain ⟨b, hCurrent⟩ := hOwned hRoom
    rw [if_pos hRoom] at hFits
    have hFit : a.ptr + totalSize a r ≤ b.stop := by
      rw [hasRoom, decide_eq_true_eq, wrap, Nat.mod_eq_of_lt hFits, hCurrent.blockEnd] at hRoom
      exact hRoom
    obtain ⟨hGranted, hAfter⟩ := granted_bump hLaid hCurrent hFit
    rw [← hBump] at hGranted hAfter
    obtain rfl : a' = (bump a r).2 := congrArg Prod.snd hBump
    exact ⟨[], unused a, .owned, (List.append_nil _).symm, hLaid, hGranted, b, hAfter⟩
  · obtain ⟨hBlocks, hGranted, hAfter⟩ := granted_advance hLaid hAdvance
    rw [← hBump] at hGranted hAfter
    have hSame : a'.blocks = a.blocks := (congrArg (fun out : Nat × Arena => out.2.blocks) hBump).trans hBlocks
    exact ⟨[], unused a, .owned, by rw [hSame, List.append_nil], hSame ▸ hLaid, hGranted, hAfter⟩
  · rw [if_neg (by rw [hRoom]; exact Bool.false_ne_true)] at hFits
    have hLater := hLaid.allocateBlock (hFresh base hOffer)
    obtain ⟨hGranted, hAfter⟩ := granted_fresh hLaid (hFresh base hOffer) (hFits hNone base hOffer)
    rw [← hBump] at hGranted hAfter
    have hSame : a'.blocks = (allocateBlock a ⟨base, freshSize a r⟩).blocks :=
      congrArg (fun out : Nat × Arena => out.2.blocks) hBump
    exact ⟨_, _, .fresh base hOffer, hSame, hSame ▸ hLater, hGranted, _, hAfter⟩

end Results

end Arenas
