import Mathlib.Data.List.Range
import Mathlib.Tactic.Ring
import QbuemStack.Base.SequenceRing
import QbuemStack.Base.Spans

/-! The pool of slots of one size. The first word of a free slot holds the address of the next one. -/
namespace FixedPool

open SequenceRing Function

section Model

def slotSize (objectSize bits : Nat) : Nat := wrap (objectSize + (2 ^ bits - 1)) &&& (2 ^ 64 - 2 ^ bits)

structure Layout where
  objectSize : Nat
  bits : Nat
  room : 8 ≤ slotSize objectSize bits
deriving DecidableEq

def Layout.slot (layout : Layout) : Nat := slotSize layout.objectSize layout.bits

structure Pool where
  layout : Layout
  capacity : Nat
  storage : Option Nat
  freeList : Nat
  used : Nat

abbrev Memory := Nat → Nat

def linkSlots (memory : Memory) (base slot : Nat) : Nat → Memory
  | 0 => memory
  | n + 1 => Function.update (linkSlots memory base slot n) (wrap (base + n * slot)) (wrap (base + (n + 1) * slot))

def block (layout : Layout) (capacity base : Nat) : Span := ⟨base, wrap (layout.slot * capacity)⟩

/-- The last slot ends the list. Without any slot its index wraps around. -/
def new (layout : Layout) (capacity base : Nat) (memory : Memory) : Pool × Memory :=
  let last := wrap (capacity + (2 ^ 64 - 1))
  (⟨layout, capacity, some base, base, 0⟩,
    Function.update (linkSlots memory base layout.slot (capacity - 1)) (wrap (base + last * layout.slot)) 0)

def allocate (memory : Memory) (p : Pool) : Option Nat × Pool :=
  if p.freeList = 0 then (none, p)
  else (some p.freeList, { p with freeList := memory p.freeList, used := wrap (p.used + 1) })

def deallocate (memory : Memory) (p : Pool) (ptr : Nat) : Pool × Memory :=
  ({ p with freeList := ptr, used := wrap (p.used + (2 ^ 64 - 1)) }, Function.update memory ptr p.freeList)

end Model

section FreeList

variable {memory : Memory} {head : Nat} {l : List Nat}

def Threaded (memory : Memory) : Nat → List Nat → Prop
  | head, [] => head = 0
  | head, x :: l => head = x ∧ x ≠ 0 ∧ Threaded memory (memory x) l

theorem Threaded.frame {memory' : Memory} (hThreaded : Threaded memory head l) (hSame : ∀ x ∈ l, memory' x = memory x) :
    Threaded memory' head l := by
  induction l generalizing head with
  | nil => exact hThreaded
  | cons x l ih =>
    obtain ⟨hHead, hNull, hRest⟩ := hThreaded
    refine ⟨hHead, hNull, ?_⟩
    rw [hSame x List.mem_cons_self]
    exact ih hRest fun y hy => hSame y (List.mem_cons_of_mem _ hy)

theorem Threaded.update {a value : Nat} (hThreaded : Threaded memory head l) (hNot : a ∉ l) :
    Threaded (update memory a value) head l := by
  apply hThreaded.frame
  intro x hx
  have hNe : x ≠ a := fun hEq => hNot (hEq ▸ hx)
  exact update_of_ne hNe _ _

theorem allocate_threaded {p : Pool} (hThreaded : Threaded memory p.freeList l) :
    ∃ p', allocate memory p = (l.head?, p') ∧ Threaded memory p'.freeList l.tail ∧
      p'.storage = p.storage ∧ p'.layout = p.layout ∧ p'.capacity = p.capacity := by
  cases l with
  | nil =>
    have hNull : p.freeList = 0 := hThreaded
    exact ⟨p, if_pos hNull, hThreaded, rfl, rfl, rfl⟩
  | cons x l =>
    obtain ⟨rfl, hNull, hRest⟩ := hThreaded
    exact ⟨_, if_neg hNull, hRest, rfl, rfl, rfl⟩

theorem deallocate_threaded {p : Pool} {ptr : Nat} (hThreaded : Threaded memory p.freeList l) (hPtr : ptr ≠ 0)
    (hNot : ptr ∉ l) : Threaded (deallocate memory p ptr).2 (deallocate memory p ptr).1.freeList (ptr :: l) := by
  refine ⟨rfl, hPtr, ?_⟩
  simp only [deallocate, update_self]
  exact hThreaded.update hNot

variable {layout : Layout} {capacity base : Nat}

theorem slot_pos (layout : Layout) : 0 < layout.slot := Nat.lt_of_lt_of_le (by decide) layout.room

def slots (layout : Layout) (capacity base : Nat) : List Nat :=
  (List.range capacity).map fun i => base + i * layout.slot

theorem linkSlots_apply {slot n : Nat} (hSlot : 0 < slot) (hFits : base + (n + 1) * slot < 2 ^ 64 + slot) :
    (∀ i, i < n → linkSlots memory base slot n (base + i * slot) = base + (i + 1) * slot) ∧
      ∀ a, (∀ i, i < n → a ≠ base + i * slot) → linkSlots memory base slot n a = memory a := by
  induction n with
  | zero => exact ⟨fun i hi => absurd hi (Nat.not_lt_zero i), fun _ _ => rfl⟩
  | succ n ih =>
    have hExpand : (n + 1 + 1) * slot = (n + 1) * slot + slot := by ring
    have hBefore : (n + 1) * slot = n * slot + slot := by ring
    obtain ⟨hLinks, hOther⟩ := ih (by omega)
    have hHere : wrap (base + n * slot) = base + n * slot := Nat.mod_eq_of_lt (by omega)
    have hNext : wrap (base + (n + 1) * slot) = base + (n + 1) * slot := Nat.mod_eq_of_lt (by omega)
    constructor
    · intro i hi
      rw [linkSlots, hHere, hNext]
      rcases Nat.lt_succ_iff_lt_or_eq.mp hi with hLt | rfl
      · have hNe : base + i * slot ≠ base + n * slot := by
          have := Nat.mul_lt_mul_of_pos_right hLt hSlot
          omega
        rw [update_of_ne hNe, hLinks i hLt]
      · rw [update_self]
    · intro a hAway
      rw [linkSlots, hHere, update_of_ne (hAway n (Nat.lt_succ_self n))]
      exact hOther a fun i hi => hAway i (Nat.lt_succ_of_lt hi)

theorem new_threaded (memory : Memory) (hCapacity : 0 < capacity) (hBase : 0 < base)
    (hFits : base + layout.slot * capacity < 2 ^ 64) :
    Threaded (new layout capacity base memory).2 base (slots layout capacity base) ∧
      ∀ a, a ∉ slots layout capacity base → (new layout capacity base memory).2 a = memory a := by
  obtain ⟨n, rfl⟩ := Nat.exists_eq_add_of_lt hCapacity
  rw [Nat.zero_add] at hFits ⊢
  have hSlot := slot_pos layout
  have hProduct : layout.slot * (n + 1) = n * layout.slot + layout.slot := by ring
  have hLast : wrap (n + 1 + (2 ^ 64 - 1)) = n := by
    have hSmall : n ≤ n * layout.slot := Nat.le_mul_of_pos_right n hSlot
    have hSum : n + 1 + (2 ^ 64 - 1) = n + 2 ^ 64 := by omega
    rw [wrap, hSum, Nat.add_mod_right, Nat.mod_eq_of_lt (by omega)]
  have hHere : wrap (base + n * layout.slot) = base + n * layout.slot := Nat.mod_eq_of_lt (by omega)
  have hMemory : (new layout (n + 1) base memory).2 =
      update (linkSlots memory base layout.slot n) (base + n * layout.slot) 0 := by
    simp only [new, hLast, hHere, Nat.add_sub_cancel]
  have hSucc : (n + 1) * layout.slot = n * layout.slot + layout.slot := by ring
  obtain ⟨hLinks, hOther⟩ : (∀ i, i < n → linkSlots memory base layout.slot n (base + i * layout.slot) =
      base + (i + 1) * layout.slot) ∧ _ := linkSlots_apply hSlot (by omega)
  rw [hMemory]
  constructor
  · have hFrom : ∀ k i, i + k = n + 1 → Threaded
        (update (linkSlots memory base layout.slot n) (base + n * layout.slot) 0)
        (if k = 0 then 0 else base + i * layout.slot) ((List.range' i k).map fun i => base + i * layout.slot) := by
      intro k
      induction k with
      | zero => exact fun i hi => rfl
      | succ k ih =>
        intro i hi
        rw [if_neg (Nat.succ_ne_zero k), List.range'_succ, List.map_cons]
        refine ⟨rfl, by omega, ?_⟩
        have hRest := ih (i + 1) (by omega)
        rcases Nat.eq_zero_or_pos k with rfl | hMore
        · obtain rfl : i = n := by omega
          rwa [update_self]
        · have hLt : i < n := by omega
          have hNe : base + i * layout.slot ≠ base + n * layout.slot := by
            have := Nat.mul_lt_mul_of_pos_right hLt hSlot
            omega
          rw [update_of_ne hNe, hLinks i hLt]
          rwa [if_neg (by omega)] at hRest
    have hAll := hFrom (n + 1) 0 (Nat.zero_add _)
    rw [if_neg (Nat.succ_ne_zero n), Nat.zero_mul, Nat.add_zero, ← List.range_eq_range'] at hAll
    exact hAll
  · intro a hAway
    have hNot : ∀ i, i < n + 1 → a ≠ base + i * layout.slot := fun i hi hEq =>
      hAway (List.mem_map.mpr ⟨i, List.mem_range.mpr hi, hEq.symm⟩)
    rw [update_of_ne (hNot n (Nat.lt_succ_self n))]
    exact hOther a fun i hi => hNot i (Nat.lt_succ_of_lt hi)

theorem slots_apart (layout : Layout) (capacity base : Nat) :
    ((slots layout capacity base).map fun x => (⟨x, layout.slot⟩ : Span)).Pairwise Span.Apart := by
  rw [slots, List.map_map, List.pairwise_map]
  refine List.pairwise_lt_range.imp fun {i j} hLt => .inl ?_
  have hNext : (i + 1) * layout.slot ≤ j * layout.slot := Nat.mul_le_mul_right _ hLt
  have hExpand : (i + 1) * layout.slot = i * layout.slot + layout.slot := by ring
  simp only [Span.stop, comp_apply]
  omega

theorem slots_within (hFits : layout.slot * capacity < 2 ^ 64) {x : Nat} (hx : x ∈ slots layout capacity base) :
    Span.Within ⟨x, layout.slot⟩ (block layout capacity base) := by
  obtain ⟨i, hi, rfl⟩ := List.mem_map.mp hx
  have hNext : (i + 1) * layout.slot ≤ capacity * layout.slot := Nat.mul_le_mul_right _ (List.mem_range.mp hi)
  have hExpand : (i + 1) * layout.slot = i * layout.slot + layout.slot := by ring
  rw [Nat.mul_comm capacity] at hNext
  simp only [Span.Within, Span.stop, block, wrap]
  rw [Nat.mod_eq_of_lt hFits]
  omega

end FreeList

end FixedPool
