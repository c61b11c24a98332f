import QbuemStack.Base.Territories
import QbuemStack.Core.Arena
import QbuemStack.Core.FixedPool

/-! Arenas and pools that are moved. A move takes the blocks or the storage away, but the pointer of
an arena and the free list of a pool are copied. -/
namespace Allocators

open Span Holding Function
open Arenas (Arena Request Fits Laid Current unused hasRoom freshSize)
open FixedPool (Pool Layout Memory Threaded)

section Model

structure Grant where
  span : Span
  slot : Bool
deriving DecidableEq

/-- The objects, the words of the memory, the blocks of the heap, and the live allocations. -/
structure World where
  arenas : Nat → Option Arena
  pools : Nat → Option Pool
  memory : Memory
  heap : List Span
  live : List Grant

/-- A move constructs its target if there is none, and assigns to it otherwise. -/
inductive Op where
  | newArena (i initialSize base : Nat)
  | allocate (i : Nat) (r : Request) (offer : Option Nat)
  | reset (i : Nat)
  | moveArena (src dst : Nat)
  | destroyArena (i : Nat)
  | newPool (i : Nat) (layout : Layout) (capacity base : Nat)
  | take (i : Nat)
  | give (i ptr : Nat)
  | movePool (src dst : Nat)
  | destroyPool (i : Nat)
  | store (address value : Nat)

def arenaBlocks : Option Arena → List Span
  | some a => a.blocks
  | none => []

def poolBlocks : Option Pool → List Span
  | some p => p.storage.toList.map fun base => FixedPool.block p.layout p.capacity base
  | none => []

def World.discard (w : World) (blocks : List Span) : World :=
  { w with heap := w.heap.filter fun b => !blocks.elem b, live := w.live.filter fun g => outside blocks g.span }

def World.offered (w : World) (a : Arena) (r : Request) (offer : Option Nat) : Option Nat :=
  offer.filter fun base => Arenas.fresh w.heap ⟨base, freshSize a r⟩

def aligned (used : List Span) (bits : Nat) (b : Span) : Bool :=
  0 < b.start && b.start % 2 ^ bits = 0 && b.stop < 2 ^ 64 && used.all fun other => Apart other b

def World.setArena (w : World) (i : Nat) (o : Option Arena) : World := { w with arenas := Function.update w.arenas i o }

def World.setPool (w : World) (i : Nat) (o : Option Pool) : World := { w with pools := Function.update w.pools i o }

def newArena (w : World) (i initialSize base : Nat) : Option World :=
  if (w.arenas i).isNone && Arenas.fresh w.heap ⟨base, initialSize⟩ then
    some { w.setArena i (some (Arenas.new initialSize base)) with heap := w.heap ++ [⟨base, initialSize⟩] }
  else none

def allocate (w : World) (i : Nat) (r : Request) (offer : Option Nat) : Option World :=
  match w.arenas i with
  | some a =>
    match Arenas.allocate a r (w.offered a r offer) with
    | some (p, a') =>
      some { w.setArena i (some a') with
        heap := w.heap ++ a'.blocks.drop a.blocks.length, live := ⟨⟨p, r.size⟩, false⟩ :: w.live }
    | none => some w
  | none => none

def reset (w : World) (i : Nat) : Option World :=
  match w.arenas i with
  | some a =>
    some { w.setArena i (some (Arenas.reset a)) with live := w.live.filter fun g => outside a.blocks g.span }
  | none => none

/-- The vector of the blocks is empty after the move; the other members are copied. -/
def moveArena (w : World) (src dst : Nat) : Option World :=
  match w.arenas src with
  | some a =>
    if src = dst then none
    else
      some (((w.discard (arenaBlocks (w.arenas dst))).setArena dst (some a)).setArena src
        (some { a with blocks := [] }))
  | none => none

def destroyArena (w : World) (i : Nat) : Option World :=
  match w.arenas i with
  | some a => some ((w.discard a.blocks).setArena i none)
  | none => none

def newPool (w : World) (i : Nat) (layout : Layout) (capacity base : Nat) : Option World :=
  if (w.pools i).isNone && aligned w.heap layout.bits (FixedPool.block layout capacity base) then
    let out := FixedPool.new layout capacity base w.memory
    some { w.setPool i (some out.1) with
      memory := out.2, heap := w.heap ++ [FixedPool.block layout capacity base] }
  else none

def take (w : World) (i : Nat) : Option World :=
  match w.pools i with
  | some p =>
    match FixedPool.allocate w.memory p with
    | (some x, p') => some { w.setPool i (some p') with live := ⟨⟨x, p.layout.slot⟩, true⟩ :: w.live }
    | (none, _) => some w
  | none => none

def give (w : World) (i ptr : Nat) : Option World :=
  match w.pools i with
  | some p =>
    if w.live.elem ⟨⟨ptr, p.layout.slot⟩, true⟩ then
      let out := FixedPool.deallocate w.memory p ptr
      some { w.setPool i (some out.1) with memory := out.2, live := w.live.erase ⟨⟨ptr, p.layout.slot⟩, true⟩ }
    else none
  | none => none

def movePool (w : World) (src dst : Nat) : Option World :=
  match w.pools src with
  | some p =>
    if src = dst then none
    else
      some (((w.discard (poolBlocks (w.pools dst))).setPool dst (some p)).setPool src
        (some { p with storage := none }))
  | none => none

def destroyPool (w : World) (i : Nat) : Option World :=
  match w.pools i with
  | some p => some ((w.discard (poolBlocks (some p))).setPool i none)
  | none => none

def store (w : World) (address value : Nat) : Option World :=
  if w.live.any fun g => !decide (Apart ⟨address, 8⟩ g.span) then
    some { w with memory := Function.update w.memory address value }
  else none

def next (w : World) : Op → Option World
  | .newArena i initialSize base => newArena w i initialSize base
  | .allocate i r offer => allocate w i r offer
  | .reset i => reset w i
  | .moveArena src dst => moveArena w src dst
  | .destroyArena i => destroyArena w i
  | .newPool i layout capacity base => newPool w i layout capacity base
  | .take i => take w i
  | .give i ptr => give w i ptr
  | .movePool src dst => movePool w src dst
  | .destroyPool i => destroyPool w i
  | .store address value => store w address value

def World.empty : World := ⟨fun _ => none, fun _ => none, fun _ => 0, [], []⟩

def NoOverlap (w : World) : Prop := (w.live.map Grant.span).Pairwise Apart

/-- An arena allocates within its own blocks, a pool has room for all its slots, one without storage
has an empty free list when it is asked, and a slot goes back to its own pool. -/
def Owned (w : World) : Op → Prop
  | .allocate i r offer => ∀ a, w.arenas i = some a →
      (hasRoom a r = true → a.blocks ≠ []) ∧ Fits a r (w.offered a r offer)
  | .newPool _ layout capacity _ => 0 < capacity ∧ layout.slot * capacity < 2 ^ 64
  | .take i => ∀ p, w.pools i = some p → p.storage = none → p.freeList = 0
  | .give i ptr => ∀ p, w.pools i = some p → ∃ t ∈ poolBlocks (some p), Within ⟨ptr, p.layout.slot⟩ t
  | _ => True

end Model

section Holdings

variable {w : World} {free : Nat → List Nat}

def arenaHolding : Option Arena → Holding
  | some a => if a.blocks = [] then nothing else ⟨a.blocks, unused a⟩
  | none => nothing

def poolHolding (o : Option Pool) (free : List Nat) : Holding :=
  match o with
  | some p => if p.storage = none then nothing else ⟨poolBlocks o, free.map fun x => ⟨x, p.layout.slot⟩⟩
  | none => nothing

def holding (w : World) (free : Nat → List Nat) : Nat ⊕ Nat → Holding
  | .inl i => arenaHolding (w.arenas i)
  | .inr i => poolHolding (w.pools i) (free i)

theorem holding_setArena (w : World) (free : Nat → List Nat) (i : Nat) (o : Option Arena) :
    holding (w.setArena i o) free = update (holding w free) (.inl i) (arenaHolding o) := by
  funext k
  cases k with
  | inl j =>
    by_cases hj : j = i
    all_goals simp [holding, World.setArena, hj]
  | inr j => simp [holding, World.setArena]

theorem holding_setPool (w : World) (free : Nat → List Nat) (i : Nat) (o : Option Pool) (l : List Nat) :
    holding (w.setPool i o) (update free i l) = update (holding w free) (.inr i) (poolHolding o l) := by
  funext k
  cases k with
  | inl j => simp [holding, World.setPool]
  | inr j =>
    by_cases hj : j = i
    all_goals simp [holding, World.setPool, hj]

theorem territory_arena (o : Option Arena) : (arenaHolding o).territory = arenaBlocks o := by
  cases o with
  | none => rfl
  | some a =>
    simp only [arenaHolding, arenaBlocks]
    split_ifs with hNone
    · exact hNone.symm
    · rfl

theorem territory_pool (o : Option Pool) (l : List Nat) : (poolHolding o l).territory = poolBlocks o := by
  cases o with
  | none => rfl
  | some p =>
    simp only [poolHolding]
    split_ifs with hNone
    · simp [poolBlocks, hNone, nothing]
    · rfl

structure Sound (w : World) (free : Nat → List Nat) : Prop where
  parted : Parted (holding w free) (w.live.map Grant.span)
  arenas : ∀ i a, w.arenas i = some a → a.blocks ≠ [] → Laid a.blocks ∧ ∃ b, Current a b ∧ a.ptr ≤ b.stop
  threaded : ∀ i p, w.pools i = some p → p.storage ≠ none → Threaded w.memory p.freeList (free i)
  positive : ∀ o, ∀ t ∈ (holding w free o).territory, 0 < t.start
  heap : ∀ o, ∀ t ∈ (holding w free o).territory, t.size = 0 ∨ t ∈ w.heap

end Holdings

end Allocators
