import QbuemStack.Pipeline.AsyncChannel

/-! The channel for one sender and one receiver: a ring without sequence numbers. -/
namespace Pipeline

open SequenceRing

structure SpscChannel (α : Type) where
  mask : Nat
  buffer : Nat → α
  head : Nat
  tail : Nat
  closed : Bool

namespace SpscChannel

variable {α : Type}

def new [Inhabited α] (capacity : Nat) : Option (SpscChannel α) :=
  (AsyncChannel.nextPow2 (max capacity 2)).map fun cap => ⟨cap - 1, fun _ => default, 0, 0, false⟩

def capacity (c : SpscChannel α) : Nat := c.mask + 1

def trySendImpl (c : SpscChannel α) (item : α) : Bool × SpscChannel α :=
  if c.closed then (false, c)
  else if c.capacity ≤ wrap (c.tail + 2 ^ 64 - c.head) then (false, c)
  else (true, { c with buffer := Function.update c.buffer (c.tail &&& c.mask) item, tail := wrap (c.tail + 1) })

def tryRecv (c : SpscChannel α) : Option α × SpscChannel α :=
  if c.head = c.tail then (none, c)
  else (some (c.buffer (c.head &&& c.mask)), { c with head := wrap (c.head + 1) })

def close (c : SpscChannel α) : SpscChannel α := { c with closed := true }

end SpscChannel

section SpscRing

variable {α : Type} {c : SpscChannel α} {ch : Channel α}

structure SpscRing (k h : Nat) (c : SpscChannel α) (ch : Channel α) : Prop where
  small : k ≤ 63
  mask : c.mask = 2 ^ k - 1
  capacity : ch.capacity = 2 ^ k
  fits : ch.items.length ≤ 2 ^ k
  head : c.head = wrap h
  tail : c.tail = wrap (h + ch.items.length)
  stored : ∀ j item, ch.items[j]? = some item → c.buffer ((h + j) % 2 ^ k) = item
  closed : c.closed = ch.closed

theorem spscRing_new [Inhabited α] {capacity : Nat} (hNew : SpscChannel.new capacity = some c) :
    ∃ k, SpscRing k 0 c (Channel.new c.capacity) := by
  rw [SpscChannel.new, AsyncChannel.nextPow2, if_neg (by omega), Option.map_eq_some_iff] at hNew
  obtain ⟨cap, hCap, rfl⟩ := hNew
  obtain ⟨k, hk, rfl, -⟩ := roundUp_some (k := 0) (Nat.zero_le 63) hCap
  refine ⟨k, hk, rfl, Nat.sub_add_cancel (Nat.two_pow_pos k), Nat.zero_le _, rfl, rfl, fun j item hj => ?_, rfl⟩
  simp [Channel.new] at hj

variable {k h : Nat}

section

variable (hRing : SpscRing k h c ch)
include hRing

theorem SpscRing.place (pos : Nat) : wrap pos &&& c.mask = pos % 2 ^ k := by
  rw [hRing.mask]
  exact cell_wrap hRing.small pos

theorem SpscRing.count : wrap (c.tail + 2 ^ 64 - c.head) = ch.items.length := by
  have hFits := hRing.fits
  have hSmall : 2 ^ k ≤ 2 ^ 63 := Nat.pow_le_pow_right (by omega) hRing.small
  rw [hRing.tail, hRing.head, wrap, wrap, wrap]
  omega

theorem SpscRing.trySend (item : α) :
    (c.trySendImpl item).1 = (ch.trySend item).result ∧
        SpscRing k h (c.trySendImpl item).2 (ch.trySend item).state := by
  have hCapacity : c.capacity = ch.capacity := by
    rw [SpscChannel.capacity, hRing.mask, hRing.capacity, Nat.sub_add_cancel (Nat.two_pow_pos k)]
  rw [SpscChannel.trySendImpl, Channel.trySend, hRing.count, hCapacity, hRing.closed, Channel.isFull]
  cases hClosed : ch.closed with
  | true => exact ⟨rfl, hRing⟩
  | false =>
    by_cases hFull : ch.capacity ≤ ch.items.length
    · rw [if_neg Bool.false_ne_true, if_pos hFull, decide_eq_true hFull]
      exact ⟨rfl, hRing⟩
    · rw [if_neg Bool.false_ne_true, if_neg hFull, decide_eq_false hFull, Bool.or_false, if_neg Bool.false_ne_true]
      rw [hRing.capacity] at hFull
      refine ⟨rfl, hRing.small, hRing.mask, hRing.capacity, ?_, hRing.head, ?_, fun j value hj => ?_, hClosed.symm⟩
      · simp only [Channel.push, List.length_append, List.length_singleton]
        omega
      · simp only [Channel.push, List.length_append, List.length_singleton, hRing.tail, wrap_succ]
        rfl
      · simp only [hRing.tail, hRing.place]
        exact stored_push hRing.stored (by omega) item j value hj

theorem SpscRing.tryRecv : c.tryRecv.1 = ch.tryRecv.result ∧ ∃ h', SpscRing k h' c.tryRecv.2 ch.tryRecv.state := by
  have hFits := hRing.fits
  have hSmall : 2 ^ k ≤ 2 ^ 63 := Nat.pow_le_pow_right (by omega) hRing.small
  rw [SpscChannel.tryRecv, Channel.tryRecv]
  cases hItems : ch.items with
  | nil =>
    have hSame : c.head = c.tail := by rw [hRing.head, hRing.tail, hItems]; rfl
    rw [if_pos hSame]
    exact ⟨rfl, h, hRing⟩
  | cons item items =>
    rw [hItems, List.length_cons] at hFits
    have hTail := hRing.tail
    rw [hItems, List.length_cons] at hTail
    have hMore : c.head ≠ c.tail := by
      rw [hRing.head, hTail, wrap, wrap]
      omega
    rw [if_neg hMore]
    refine ⟨?_, h + 1, hRing.small, hRing.mask, hRing.capacity, Nat.le_of_succ_le hFits, ?_, ?_,
      fun j value hj => ?_, hRing.closed⟩
    · simp only [hRing.head, hRing.place]
      exact congrArg some (hRing.stored 0 item (by rw [hItems]; rfl))
    · simp only [hRing.head, wrap_succ]
    · simp only [hTail]
      rw [Nat.add_right_comm, Nat.add_assoc]
    · rw [Nat.add_right_comm, Nat.add_assoc]
      exact hRing.stored (j + 1) value (by rw [hItems, List.getElem?_cons_succ]; exact hj)

end

end SpscRing

section SpscRuns

inductive SpscOp (α : Type) where
  | trySend (item : α)
  | tryRecv
  | close

inductive SpscAnswer (α : Type) where
  | sent (ok : Bool)
  | received (item : Option α)
  | closed

variable {α : Type} {c : SpscChannel α} {ch : Channel α} {k h : Nat}

def SpscChannel.answers (c : SpscChannel α) : List (SpscOp α) → List (SpscAnswer α)
  | [] => []
  | .trySend item :: ops => .sent (c.trySendImpl item).1 :: (c.trySendImpl item).2.answers ops
  | .tryRecv :: ops => .received c.tryRecv.1 :: c.tryRecv.2.answers ops
  | .close :: ops => .closed :: c.close.answers ops

def Channel.spscAnswers (ch : Channel α) : List (SpscOp α) → List (SpscAnswer α)
  | [] => []
  | .trySend item :: ops => .sent (ch.trySend item).result :: (ch.trySend item).state.spscAnswers ops
  | .tryRecv :: ops => .received ch.tryRecv.result :: ch.tryRecv.state.spscAnswers ops
  | .close :: ops => .closed :: ch.close.state.spscAnswers ops

theorem SpscRing.answers (hRing : SpscRing k h c ch) (ops : List (SpscOp α)) : c.answers ops = ch.spscAnswers ops := by
  induction ops generalizing c ch h with
  | nil => rfl
  | cons op ops ih =>
    cases op with
    | trySend item =>
      obtain ⟨hAnswer, hNext⟩ := hRing.trySend item
      rw [SpscChannel.answers, Channel.spscAnswers, hAnswer, ih hNext]
    | tryRecv =>
      obtain ⟨hAnswer, h', hNext⟩ := hRing.tryRecv
      rw [SpscChannel.answers, Channel.spscAnswers, hAnswer, ih hNext]
    | close =>
      have hNext : SpscRing k h c.close ch.close.state := { hRing with closed := rfl }
      rw [SpscChannel.answers, Channel.spscAnswers, ih hNext]

/-- From its construction on the ring answers as the queue does. -/
theorem spsc_answers [Inhabited α] (capacity : Nat) (ops : List (SpscOp α)) :
    let made := @SpscChannel.new α _ capacity
    (made.map fun c => c.answers ops) = made.map fun c => (Channel.new c.capacity).spscAnswers ops := by
  cases hNew : @SpscChannel.new α _ capacity with
  | none => rfl
  | some c =>
    obtain ⟨k, hRing⟩ := spscRing_new hNew
    exact congrArg some (hRing.answers ops)

end SpscRuns

end Pipeline
