import Mathlib.Data.List.Nodup
import Mathlib.Data.Nat.Log
import QbuemStack.Base.LabelledRuns
import QbuemStack.Base.SequenceRing

/-! The hash map with linear probing, in runs of one thread. What an insertion does not see is a
slot of its own key behind a tombstone. -/
namespace LockFreeHashMap

open SequenceRing Function

variable {K V : Type}

section Model

inductive SlotState where
  | empty
  | busy
  | committed
  | tombstone
deriving DecidableEq

structure Slot (K V : Type) where
  state : SlotState
  key : K
  value : V

structure Table (K V : Type) where
  cast : K → UInt64
  bits : Nat
  bits_le : bits ≤ 63
  slots : Nat → Slot K V

def new [Inhabited K] [Inhabited V] (cast : K → UInt64) (capacity : Nat) : Option (Table K V) :=
  if hBits : Nat.clog 2 capacity ≤ 63 then
    some ⟨cast, Nat.clog 2 capacity, hBits, fun _ => ⟨.empty, default, default⟩⟩
  else none

def Table.capacity (m : Table K V) : Nat := 2 ^ m.bits

def hash (key : UInt64) : UInt64 :=
  let h := key ^^^ (key >>> 33)
  let h := h * 0xff51afd7ed558ccd
  let h := h ^^^ (h >>> 33)
  let h := h * 0xc4ceb9fe1a85ec53
  h ^^^ (h >>> 33)

variable (m : Table K V)

def probes (key : K) : List Nat :=
  (List.range m.capacity).map fun i => cell m.capacity (wrap ((hash (m.cast key)).toNat + i))

variable [DecidableEq K]

def live (key : K) (j : Nat) : Bool := (m.slots j).state = .committed && (m.slots j).key = key

def locate (key : K) : List Nat → Option Nat
  | [] => none
  | j :: rest =>
    if (m.slots j).state = .empty then none
    else if live m key j then some j
    else locate key rest

def free (j : Nat) : Bool := (m.slots j).state = .empty || (m.slots j).state = .tombstone

def claim (key : K) : List Nat → Option Nat
  | [] => none
  | j :: rest => if free m j then some j else if live m key j then some j else claim key rest

def write (j : Nat) (slot : Slot K V) : Table K V := { m with slots := fun i => if i = j then slot else m.slots i }

def put (key : K) (value : V) : Bool × Table K V :=
  match claim m key (probes m key) with
  | some j => (true, write m j ⟨.committed, key, value⟩)
  | none => (false, m)

def get (key : K) : Option V := (locate m key (probes m key)).map fun j => (m.slots j).value

def remove (key : K) : Bool × Table K V :=
  match locate m key (probes m key) with
  | some j => (true, write m j { m.slots j with state := .tombstone })
  | none => (false, m)

end Model

section Sequences

variable {m : Table K V} {key : K}

theorem probes_eq (m : Table K V) (key : K) :
    probes m key = (List.range m.capacity).map fun i => ((hash (m.cast key)).toNat + i) % m.capacity := by
  apply List.map_congr_left
  intro i hi
  exact cell_wrap m.bits_le _

theorem capacity_pos (m : Table K V) : 0 < m.capacity := Nat.two_pow_pos m.bits

theorem mem_probes {j : Nat} : j ∈ probes m key ↔ j < m.capacity := by
  rw [probes_eq, List.mem_map]
  have hPos := capacity_pos m
  constructor
  · rintro ⟨i, -, rfl⟩
    exact Nat.mod_lt _ hPos
  · intro hLt
    have hStart := Nat.mod_lt (hash (m.cast key)).toNat hPos
    by_cases hBefore : (hash (m.cast key)).toNat % m.capacity ≤ j
    · refine ⟨j - (hash (m.cast key)).toNat % m.capacity, List.mem_range.mpr (by omega), ?_⟩
      rw [Nat.add_mod, Nat.mod_eq_of_lt (a := j - _) (by omega), Nat.add_sub_cancel' hBefore, Nat.mod_eq_of_lt hLt]
    · refine ⟨j + m.capacity - (hash (m.cast key)).toNat % m.capacity, List.mem_range.mpr (by omega), ?_⟩
      rw [Nat.add_mod, Nat.mod_eq_of_lt (a := j + m.capacity - _) (by omega), Nat.add_sub_cancel' (by omega),
        Nat.add_mod_right, Nat.mod_eq_of_lt hLt]

theorem nodup_probes (m : Table K V) (key : K) : (probes m key).Nodup := by
  rw [probes_eq]
  refine List.Nodup.map_on ?_ List.nodup_range
  intro i hi j hj hSame
  rw [List.mem_range] at hi hj
  have hModEq : i ≡ j [MOD m.capacity] := Nat.ModEq.add_left_cancel' _ hSame
  rwa [Nat.ModEq, Nat.mod_eq_of_lt hi, Nat.mod_eq_of_lt hj] at hModEq

theorem mem_takeWhile_of_append {p : Nat → Bool} {before after : List Nat} {j : Nat} (hAll : ∀ i ∈ before, p i = true)
    (hThis : p j = true) : j ∈ (before ++ j :: after).takeWhile p := by
  rw [List.takeWhile_append_of_pos hAll, List.takeWhile_cons_of_pos hThis]
  exact List.mem_append_right _ List.mem_cons_self

theorem mem_takeWhile_mono {p q : Nat → Bool} (hImp : ∀ i, p i = true → q i = true) {l : List Nat} {j : Nat}
    (hMem : j ∈ l.takeWhile p) : j ∈ l.takeWhile q := by
  induction l with
  | nil => exact hMem
  | cons i l ih =>
    by_cases hp : p i = true
    · rw [List.takeWhile_cons_of_pos hp] at hMem
      rw [List.takeWhile_cons_of_pos (hImp i hp)]
      rcases List.mem_cons.mp hMem with rfl | hRest
      · exact List.mem_cons_self
      · exact List.mem_cons_of_mem _ (ih hRest)
    · rw [List.takeWhile_cons_of_neg hp] at hMem
      cases hMem

def occupied (m : Table K V) (j : Nat) : Bool := (m.slots j).state ≠ .empty

theorem occupied_of_not_free {m : Table K V} {j : Nat} (hFree : free m j = false) : occupied m j = true := by
  simp only [free, Bool.or_eq_false_iff, decide_eq_false_iff_not] at hFree
  exact decide_eq_true hFree.1

theorem occupied_write {m : Table K V} {j : Nat} {slot : Slot K V} (hState : slot.state ≠ .empty) (i : Nat)
    (hOccupied : occupied m i = true) : occupied (write m j slot) i = true := by
  simp only [occupied, write]
  split_ifs
  · exact decide_eq_true hState
  · exact hOccupied

variable [DecidableEq K]

theorem locate_eq (m : Table K V) (key : K) (l : List Nat) :
    locate m key l = (l.takeWhile (occupied m)).find? (live m key) := by
  induction l with
  | nil => rfl
  | cons j l ih =>
    rw [locate]
    split_ifs with hEmpty hLive
    · rw [List.takeWhile_cons_of_neg (by simp [occupied, hEmpty]), List.find?_nil]
    · rw [List.takeWhile_cons_of_pos (by simp [occupied, hEmpty]), List.find?_cons_of_pos hLive]
    · rw [List.takeWhile_cons_of_pos (by simp [occupied, hEmpty]), List.find?_cons_of_neg hLive]
      exact ih

theorem claim_eq (m : Table K V) (key : K) (l : List Nat) :
    claim m key l = l.find? fun j => free m j || live m key j := by
  induction l with
  | nil => rfl
  | cons j l ih =>
    rw [claim]
    split_ifs with hFree hLive
    · rw [List.find?_cons_of_pos (by simp [hFree])]
    · rw [List.find?_cons_of_pos (by simp [hLive])]
    · rw [List.find?_cons_of_neg (by simp [hFree, hLive])]
      exact ih

end Sequences

section Invariants

variable [DecidableEq K] {m : Table K V} {key other : K} {value : V} {j : Nat}

/-- No slot is being written, and none before one that holds a key is empty on its probe sequence. -/
structure Sound (m : Table K V) : Prop where
  settled : ∀ j, (m.slots j).state ≠ .busy
  reached : ∀ key j, live m key j = true → j ∈ (probes m key).takeWhile (occupied m)

theorem Sound.locate_none (hSound : Sound m) : locate m key (probes m key) = none ↔ ∀ j, live m key j = false := by
  rw [locate_eq, List.find?_eq_none]
  constructor
  · intro hNone j
    rw [← Bool.not_eq_true]
    intro hLive
    exact hNone j (hSound.reached key j hLive) hLive
  · intro hNone j _ hLive
    rw [hNone j] at hLive
    cases hLive

theorem locate_live (hLocate : locate m key (probes m key) = some j) : live m key j = true := by
  rw [locate_eq] at hLocate
  exact List.find?_some hLocate

theorem claim_cases (hClaim : claim m key (probes m key) = some j) :
    (free m j = true ∨ live m key j = true) ∧ ∃ before after, probes m key = before ++ j :: after ∧
      ∀ i ∈ before, free m i = false ∧ live m key i = false := by
  rw [claim_eq, List.find?_eq_some_iff_append] at hClaim
  obtain ⟨hThis, before, after, hProbes, hBefore⟩ := hClaim
  refine ⟨by simpa using hThis, before, after, hProbes, fun i hi => ?_⟩
  have hNot := hBefore i hi
  rw [Bool.not_eq_true', Bool.or_eq_false_iff] at hNot
  exact hNot

theorem live_write (slot : Slot K V) (i : Nat) : live (write m j slot) other i =
    if i = j then (decide (slot.state = .committed) && decide (slot.key = other)) else live m other i := by
  simp only [live, write]
  split_ifs <;> rfl

theorem live_write_committed (i : Nat) :
    live (write m j ⟨.committed, key, value⟩) other i = if i = j then decide (key = other) else live m other i :=
  live_write _ i

theorem live_unique_key {first second : K} (hFirst : live m first j = true) (hSecond : live m second j = true) :
    first = second := by
  simp only [live, Bool.and_eq_true, decide_eq_true_eq] at hFirst hSecond
  exact hFirst.2.symm.trans hSecond.2

theorem not_live_of_free (hFree : free m j = true) : live m key j = false := by
  simp only [free, Bool.or_eq_true, decide_eq_true_eq] at hFree
  rcases hFree with hState | hState <;> simp [live, hState]

/-- Writing a slot that is in use and not being written keeps the invariant, if the key it then
holds is reached. -/
theorem Sound.write (hSound : Sound m) {slot : Slot K V} (hEmpty : slot.state ≠ .empty) (hBusy : slot.state ≠ .busy)
    (hHere : slot.state = .committed → j ∈ (probes m slot.key).takeWhile (occupied (write m j slot))) :
    Sound (write m j slot) := by
  constructor
  case settled =>
    intro i
    simp only [LockFreeHashMap.write]
    split_ifs
    · exact hBusy
    · exact hSound.settled i
  case reached =>
    intro other i hLive
    rw [live_write] at hLive
    split_ifs at hLive with hSlot
    · simp only [Bool.and_eq_true, decide_eq_true_eq] at hLive
      obtain ⟨hState, rfl⟩ := hLive
      exact hSlot ▸ hHere hState
    · exact mem_takeWhile_mono (occupied_write hEmpty) (hSound.reached other i hLive)

theorem Sound.put (hSound : Sound m) : Sound (put m key value).2 := by
  rw [LockFreeHashMap.put]
  split
  case h_2 => exact hSound
  case h_1 c hClaim =>
    obtain ⟨-, before, after, hProbes, hBefore⟩ := claim_cases hClaim
    refine hSound.write nofun nofun fun _ => ?_
    rw [hProbes]
    apply mem_takeWhile_of_append
    · intro a ha
      exact occupied_write (by simp) a (occupied_of_not_free (hBefore a ha).1)
    · simp [occupied, LockFreeHashMap.write]

theorem Sound.remove (hSound : Sound m) : Sound (remove m key).2 := by
  rw [LockFreeHashMap.remove]
  split
  case h_2 => exact hSound
  case h_1 => exact hSound.write nofun nofun nofun

end Invariants

section Refinement

variable [DecidableEq K] {m : Table K V} {content : K → Option V} {key : K} {value : V}

structure Represents (m : Table K V) (content : K → Option V) : Prop where
  sound : Sound m
  unique : ∀ key i j, live m key i = true → live m key j = true → i = j
  content : ∀ key value, content key = some value ↔ ∃ j, live m key j = true ∧ (m.slots j).value = value

/-- What the calls answer is what a finite map with this content would answer. -/
structure Refines (m : Table K V) (content : K → Option V) : Prop where
  get : ∀ key, get m key = content key
  remove : ∀ key, (remove m key).1 = (content key).isSome ∧ LockFreeHashMap.get (remove m key).2 key = none
  put : ∀ key value, (put m key value).1 = false →
    ∃ keys : List K, keys.Nodup ∧ keys.length = m.capacity ∧ ∀ k ∈ keys, (content k).isSome = true

section

variable (hRep : Represents m content)
include hRep

theorem Represents.absent : content key = none ↔ ∀ j, live m key j = false := by
  constructor
  · intro hNone j
    rw [← Bool.not_eq_true]
    intro hLive
    have hSome := (hRep.content key _).mpr ⟨j, hLive, rfl⟩
    exact nomatch hNone.symm.trans hSome
  · intro hNone
    cases hContent : content key with
    | none => rfl
    | some value =>
      obtain ⟨j, hLive, -⟩ := (hRep.content key value).mp hContent
      rw [hNone j] at hLive
      cases hLive

theorem Represents.get : LockFreeHashMap.get m key = content key := by
  rw [LockFreeHashMap.get]
  cases hLocate : locate m key (probes m key) with
  | none => exact (hRep.absent.mpr (hRep.sound.locate_none.mp hLocate)).symm
  | some j => exact ((hRep.content key _).mpr ⟨j, locate_live hLocate, rfl⟩).symm

/-- A table in which this key is written at `c`, where it was or where no key was. -/
theorem Represents.write {c : Nat} (hFree : free m c = true ∨ live m key c = true)
    (hOnly : ∀ j, live m key j = true → j = c) (hSound : Sound (write m c ⟨.committed, key, value⟩)) :
    Represents (write m c ⟨.committed, key, value⟩) (update content key (some value)) := by
  have hHere : live (LockFreeHashMap.write m c ⟨.committed, key, value⟩) key c = true := by
    rw [live_write_committed, if_pos rfl, decide_eq_true rfl]
  have hElsewhere : ∀ other, other ≠ key → ∀ j, live m other j = true → j ≠ c := by
    rintro other hNe j hLive rfl
    rcases hFree with hFree | hKey
    · rw [not_live_of_free hFree] at hLive
      cases hLive
    · exact hNe (live_unique_key hLive hKey)
  have hOther : ∀ other i, other ≠ key →
      live (LockFreeHashMap.write m c ⟨.committed, key, value⟩) other i = live m other i := by
    intro other i hNe
    rw [live_write_committed]
    split_ifs with hAt
    · rw [decide_eq_false fun hEq => hNe hEq.symm]
      exact (Bool.eq_false_iff.mpr fun hLive => hElsewhere other hNe i hLive hAt).symm
    · rfl
  have hThis : ∀ i, live (LockFreeHashMap.write m c ⟨.committed, key, value⟩) key i = true → i = c := by
    intro i hLive
    rw [live_write_committed] at hLive
    split_ifs at hLive with hAt
    · exact hAt
    · exact hOnly i hLive
  constructor
  case sound => exact hSound
  case unique =>
    intro other i j hi hj
    by_cases hSame : other = key
    · subst hSame
      exact (hThis i hi).trans (hThis j hj).symm
    · rw [hOther other i hSame] at hi
      rw [hOther other j hSame] at hj
      exact hRep.unique other i j hi hj
  case content =>
    intro other stored
    by_cases hSame : other = key
    · subst hSame
      rw [update_self, Option.some.injEq]
      constructor
      · rintro rfl
        exact ⟨c, hHere, by simp [LockFreeHashMap.write]⟩
      · rintro ⟨j, hLive, hValue⟩
        rw [hThis j hLive] at hValue
        simpa [LockFreeHashMap.write] using hValue
    · rw [update_of_ne hSame, hRep.content]
      constructor <;> rintro ⟨j, hLive, hValue⟩
      · refine ⟨j, by rw [hOther other j hSame, hLive], ?_⟩
        rw [LockFreeHashMap.write]
        simp only [if_neg (hElsewhere other hSame j hLive), hValue]
      · rw [hOther other j hSame] at hLive
        rw [LockFreeHashMap.write] at hValue
        simp only [if_neg (hElsewhere other hSame j hLive)] at hValue
        exact ⟨j, hLive, hValue⟩

theorem Represents.put (hSeen : ∀ c, claim m key (probes m key) = some c → ∀ j, live m key j = true → j = c) :
    Represents (put m key value).2 (if (put m key value).1 then update content key (some value) else content) := by
  have hSound : Sound (LockFreeHashMap.put m key value).2 := hRep.sound.put
  rw [LockFreeHashMap.put] at hSound ⊢
  split at hSound
  case h_2 => exact hRep
  case h_1 c hClaim => exact hRep.write (claim_cases hClaim).1 (hSeen c hClaim) hSound

theorem Represents.remove : Represents (remove m key).2 (update content key none) := by
  have hSound : Sound (LockFreeHashMap.remove m key).2 := hRep.sound.remove
  rw [LockFreeHashMap.remove] at hSound ⊢
  split at hSound
  case h_2 hNone =>
    have hAbsent := hRep.absent.mpr (hRep.sound.locate_none.mp hNone)
    rwa [← hAbsent, update_eq_self]
  case h_1 c hLocate =>
    have hHere := locate_live hLocate
    have hLive : ∀ other i, live (LockFreeHashMap.write m c { m.slots c with state := .tombstone }) other i =
        if i = c then false else live m other i := fun other i => live_write _ i
    constructor
    case sound => exact hSound
    case unique =>
      intro other i j hi hj
      rw [hLive] at hi hj
      split_ifs at hi hj
      exact hRep.unique other i j hi hj
    case content =>
      intro other stored
      by_cases hSame : other = key
      · subst hSame
        rw [update_self]
        refine iff_of_false (fun hEq => nomatch hEq) ?_
        rintro ⟨j, hj, -⟩
        rw [hLive] at hj
        split_ifs at hj with hAt
        exact hAt (hRep.unique other j c hj hHere)
      · rw [update_of_ne hSame, hRep.content]
        apply exists_congr
        intro j
        rw [hLive, LockFreeHashMap.write]
        by_cases hAt : j = c
        · subst hAt
          have hNot : live m other j = false := by
            rw [← Bool.not_eq_true]
            exact fun hThis => hSame (live_unique_key hThis hHere)
          rw [hNot, if_pos rfl]
          simp
        · simp only [if_neg hAt]

theorem Represents.full (hClaim : claim m key (probes m key) = none) :
    ∃ keys : List K, keys.Nodup ∧ keys.length = m.capacity ∧ ∀ k ∈ keys, (content k).isSome = true := by
  have hLive : ∀ j ∈ List.range m.capacity, live m (m.slots j).key j = true := by
    intro j hj
    rw [claim_eq, List.find?_eq_none] at hClaim
    have hNot := hClaim j (mem_probes.mpr (List.mem_range.mp hj))
    have hBusy := hRep.sound.settled j
    cases hState : (m.slots j).state with
    | empty | tombstone => simp [free, hState] at hNot
    | busy => exact absurd hState hBusy
    | committed => simp [live, hState]
  refine ⟨(List.range m.capacity).map fun j => (m.slots j).key, ?_, by rw [List.length_map, List.length_range], ?_⟩
  · refine List.Nodup.map_on ?_ List.nodup_range
    intro i hi j hj hSame
    have hFirst := hLive i hi
    rw [hSame] at hFirst
    exact hRep.unique _ i j hFirst (hLive j hj)
  · intro k hk
    obtain ⟨j, hj, rfl⟩ := List.mem_map.mp hk
    rw [(hRep.content _ _).mpr ⟨j, hLive j hj, rfl⟩]
    rfl

theorem Represents.refines : Refines m content := by
  constructor
  case get => exact fun key => hRep.get
  case remove =>
    intro key
    refine ⟨?_, by rw [hRep.remove.get, update_self]⟩
    rw [← hRep.get, LockFreeHashMap.remove, LockFreeHashMap.get]
    cases locate m key (probes m key) <;> rfl
  case put =>
    intro key value hFail
    rw [LockFreeHashMap.put] at hFail
    split at hFail
    case h_1 => cases hFail
    case h_2 hNone => exact hRep.full hNone

end

theorem not_refines_of_twice (hSound : Sound m) {i j : Nat} (hNe : i ≠ j) (hFirst : live m key i = true)
    (hSecond : live m key j = true) : ¬Refines m content := by
  intro hRefines
  have hGone := (hRefines.remove key).2
  have hAfter : Sound (remove m key).2 := hSound.remove
  have hLeft : ∃ a, live (remove m key).2 key a = true := by
    rw [LockFreeHashMap.remove]
    split
    case h_2 => exact ⟨i, hFirst⟩
    case h_1 c _ =>
      by_cases hAt : i = c
      · refine ⟨j, ?_⟩
        rw [live_write, if_neg fun hEq => hNe (hAt.trans hEq.symm), hSecond]
      · exact ⟨i, by rw [live_write, if_neg hAt, hFirst]⟩
  obtain ⟨a, hLive⟩ := hLeft
  rw [LockFreeHashMap.get, Option.map_eq_none_iff, hAfter.locate_none] at hGone
  rw [hGone a] at hLive
  cases hLive

end Refinement

section Runs

variable [DecidableEq K]

inductive Op (K V : Type) where
  | put (key : K) (value : V)
  | get (key : K)
  | remove (key : K)

structure World (K V : Type) where
  table : Table K V
  content : K → Option V

def next (w : World K V) : Op K V → Option (World K V)
  | .put key value =>
    let out := put w.table key value
    some ⟨out.2, if out.1 then Function.update w.content key (some value) else w.content⟩
  | .get _ => some w
  | .remove key => some ⟨(remove w.table key).2, Function.update w.content key none⟩

/-- An insertion meets no tombstone before the slot that holds its key. -/
def Unhidden (w : World K V) : Op K V → Prop
  | .put key _ => ∀ before j after, probes w.table key = before ++ j :: after → live w.table key j = true →
      ∀ i ∈ before, (w.table.slots i).state ≠ .tombstone
  | _ => True

variable {w : World K V} {key : K} {value : V}

theorem Unhidden.claimed (hUnhidden : Unhidden w (.put key value)) (hRep : Represents w.table w.content) {c : Nat}
    (hClaim : claim w.table key (probes w.table key) = some c) {j : Nat}
    (hLive : live w.table key j = true) : j = c := by
  obtain ⟨hTaken, before, after, hProbes, hBefore⟩ := claim_cases hClaim
  rcases hTaken with hFree | hHere
  swap
  · exact hRep.unique key j c hLive hHere
  have hReached := hRep.sound.reached key j hLive
  have hMem := List.takeWhile_subset _ hReached
  rw [hProbes, List.mem_append, List.mem_cons] at hMem
  rcases hMem with hIn | hEq | hIn
  · rw [(hBefore j hIn).2] at hLive
    cases hLive
  · exact hEq
  · obtain ⟨between, rest, rfl⟩ := List.append_of_mem hIn
    have hSplit : probes w.table key = (before ++ c :: between) ++ j :: rest := by
      rw [hProbes, List.append_assoc, List.cons_append]
    have hNotTomb := hUnhidden _ j rest hSplit hLive c (List.mem_append_right _ List.mem_cons_self)
    have hEmpty : occupied w.table c = false := by
      simpa [free, hNotTomb, occupied] using hFree
    rw [hProbes] at hReached
    have hStop : (before ++ c :: (between ++ j :: rest)).takeWhile (occupied w.table) = before := by
      rw [List.takeWhile_append_of_pos fun a ha => occupied_of_not_free (hBefore a ha).1,
        List.takeWhile_cons_of_neg (by rw [hEmpty]; exact Bool.false_ne_true), List.append_nil]
    rw [hStop] at hReached
    rw [(hBefore j hReached).2] at hLive
    cases hLive

/-- A step that is not hidden keeps the table standing for the map. -/
theorem represents_next {op : Op K V} {w' : World K V} (hRep : Represents w.table w.content) (hUnhidden : Unhidden w op)
    (hNext : next w op = some w') : Represents w'.table w'.content := by
  cases op with cases hNext
  | put key value =>
    exact hRep.put fun c hClaim j hLive => Unhidden.claimed hUnhidden hRep hClaim hLive
  | get key =>
    exact hRep
  | remove key =>
    exact hRep.remove

/-- After a hidden insertion the table no longer answers as the map. -/
theorem hidden_next {op : Op K V} (hRep : Represents w.table w.content) (hHidden : ¬Unhidden w op) :
    ∃ w', next w op = some w' ∧ ¬Refines w'.table w'.content := by
  cases op with
  | get key | remove key => exact absurd trivial hHidden
  | put key value =>
    refine ⟨_, rfl, ?_⟩
    simp only [Unhidden, not_forall, Classical.not_not] at hHidden
    obtain ⟨before, j, after, hProbes, hLive, i, hi, hTomb⟩ := hHidden
    have hSound : Sound (put w.table key value).2 := hRep.sound.put
    have hFree : free w.table i = true := by simp [free, hTomb]
    have hNodup := nodup_probes w.table key
    obtain ⟨c, hClaim, hc⟩ : ∃ c, claim w.table key (probes w.table key) = some c ∧ c ∈ before := by
      cases hFind : before.find? fun a => free w.table a || live w.table key a with
      | none =>
        have hNot := List.find?_eq_none.mp hFind i hi
        simp [hFree] at hNot
      | some c =>
        refine ⟨c, ?_, List.mem_of_find?_eq_some hFind⟩
        rw [claim_eq, hProbes, List.find?_append, hFind, Option.some_or]
    have hNe : c ≠ j := by
      rintro rfl
      rw [hProbes] at hNodup
      exact (List.nodup_append.mp hNodup).2.2 c hc c List.mem_cons_self rfl
    have hPut : put w.table key value = (true, write w.table c ⟨.committed, key, value⟩) := by
      rw [put, hClaim]
    change ¬Refines (put w.table key value).2 _
    rw [hPut] at hSound ⊢
    refine not_refines_of_twice (hSound : Sound (write w.table c ⟨.committed, key, value⟩)) hNe
      (?_ : live _ key c = true) ?_
    · rw [live_write_committed, if_pos rfl, decide_eq_true rfl]
    · rw [live_write_committed, if_neg hNe.symm, hLive]

variable [Inhabited K] [Inhabited V]

theorem represents_new {cast : K → UInt64} {capacity : Nat} {m : Table K V} (hNew : new cast capacity = some m) :
    Represents m fun _ => none := by
  rw [new] at hNew
  split at hNew
  case isFalse => cases hNew
  case isTrue =>
    cases hNew
    constructor
    case sound => exact ⟨fun j hEq => (nomatch hEq), fun key j hLive => (nomatch hLive)⟩
    case unique => exact fun key i j hLive => nomatch hLive
    case content =>
      refine fun key value => iff_of_false (fun hEq => nomatch hEq) ?_
      rintro ⟨j, hLive, -⟩
      exact nomatch hLive

/-- The calls answer as a finite map throughout a run exactly if no insertion meets a tombstone
before the slot that holds its key. -/
theorem refines_iff_unhidden {cast : K → UInt64} {capacity : Nat} {m : Table K V} (hNew : new cast capacity = some m)
    (ops : List (Op K V)) : LabelledRuns.Always next (fun w => Refines w.table w.content) ops ⟨m, fun _ => none⟩ ↔
      LabelledRuns.Meets next Unhidden ops ⟨m, fun _ => none⟩ := by
  apply LabelledRuns.always_iff_meets (I := fun w => Represents w.table w.content)
  · exact fun w hRep => hRep.refines
  · exact fun w op w' => represents_next
  · exact fun w op => hidden_next
  · exact represents_new hNew

/-- Two keys share a table of two slots: the second is removed and stored again, then the first is
overwritten. -/
theorem refines_reinserted : ∃ m : Table UInt64 Nat, new id 2 = some m ∧
    LabelledRuns.Always next (fun w => Refines w.table w.content)
      [.put 1 7, .put 3 8, .remove 3, .put 3 9, .put 1 6] ⟨m, fun _ => none⟩ := by
  have hNew : (new id 2 : Option (Table UInt64 Nat)) =
      some ⟨id, 1, by decide, fun _ => ⟨.empty, default, default⟩⟩ := by
    have hBits : Nat.clog 2 2 = 1 := by decide
    simp only [new, hBits]
    rfl
  have hSeen : ∀ {w : World UInt64 Nat} {key value}, (∀ j ∈ probes w.table key, live w.table key j = true →
      ∀ i ∈ probes w.table key, (w.table.slots i).state ≠ .tombstone) → Unhidden w (.put key value) := by
    intro w key value hAll before j after hSplit hLive i hBefore
    rw [hSplit] at hAll
    exact hAll j (by simp) hLive i (List.mem_append_left _ hBefore)
  refine ⟨_, hNew, (refines_iff_unhidden hNew _).mpr ?_⟩
  refine .step (hSeen ?_) rfl (.step (hSeen ?_) rfl (.step trivial rfl (.step (hSeen ?_) rfl
    (.step (hSeen ?_) rfl trivial))))
  all_goals decide +kernel

/-- A key is stored again in the slot of a removed one before its own, and once removed it is still found there. -/
theorem found_after_remove : ∃ (m : Table UInt64 Nat) (w : World UInt64 Nat), new id 2 = some m ∧
    LabelledRuns.run next [.put 1 7, .put 3 8, .remove 1, .put 3 9] ⟨m, fun _ => none⟩ = some w ∧
    (remove w.table 3).1 = true ∧ get (remove w.table 3).2 3 = some 8 := by
  have hBits : Nat.clog 2 2 = 1 := by decide
  refine ⟨⟨id, 1, by decide, fun _ => ⟨.empty, default, default⟩⟩, _, ?_, rfl, ?_, ?_⟩
  · simp only [new, hBits]
    rfl
  all_goals decide +kernel

end Runs

end LockFreeHashMap
