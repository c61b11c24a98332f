import QbuemStack.Base.SequenceRing

/-! The channel between coroutines, given twice: as the queue with waiting coroutines that it stands
for, and as the ring of numbered slots that the code works on. An operation is one stretch of code
without suspension. -/
namespace Pipeline

open SequenceRing Function

structure Reply (ρ σ : Type) where
  result : ρ
  woken : List Nat
  state : σ

inductive Stretch (ρ : Type) where
  | returned (result : ρ)
  | suspended
deriving DecidableEq

inductive SendResult where
  | ok
  | brokenPipe
deriving DecidableEq

/-- The queue that a channel stands for. The last waiter to come is the first of its list. -/
structure Channel (α : Type) where
  capacity : Nat
  items : List α
  closed : Bool
  recvWaiters : List Nat
  sendWaiters : List Nat
deriving DecidableEq

namespace Channel

variable {α : Type} (ch : Channel α) (id : Nat)

def new (capacity : Nat) : Channel α := ⟨capacity, [], false, [], []⟩

def isFull (ch : Channel α) : Bool := ch.capacity ≤ ch.items.length

def push (ch : Channel α) (item : α) : Channel α :=
  { ch with items := ch.items ++ [item], recvWaiters := ch.recvWaiters.drop 1 }

def trySend (ch : Channel α) (item : α) : Reply Bool (Channel α) :=
  if ch.closed || ch.isFull then ⟨false, [], ch⟩ else ⟨true, ch.recvWaiters.take 1, ch.push item⟩

def tryRecv (ch : Channel α) : Reply (Option α) (Channel α) :=
  match ch.items with
  | [] => ⟨none, [], ch⟩
  | item :: items => ⟨some item, ch.sendWaiters.take 1, { ch with items, sendWaiters := ch.sendWaiters.drop 1 }⟩

def send (id : Nat) (ch : Channel α) (item : α) : Reply (Stretch SendResult) (Channel α) :=
  if ch.closed then ⟨.returned .brokenPipe, [], ch⟩
  else if ch.isFull then ⟨.suspended, [], { ch with sendWaiters := id :: ch.sendWaiters }⟩
  else ⟨.returned .ok, ch.recvWaiters.take 1, ch.push item⟩

def recv (id : Nat) (ch : Channel α) : Reply (Stretch (Option α)) (Channel α) :=
  match ch.items with
  | [] =>
    if ch.closed then ⟨.returned none, [], ch⟩
    else ⟨.suspended, [], { ch with recvWaiters := id :: ch.recvWaiters }⟩
  | item :: items =>
    ⟨.returned (some item), ch.sendWaiters.take 1, { ch with items, sendWaiters := ch.sendWaiters.drop 1 }⟩

def close (ch : Channel α) : Reply Unit (Channel α) :=
  ⟨(), ch.recvWaiters ++ ch.sendWaiters, { ch with closed := true, recvWaiters := [], sendWaiters := [] }⟩

def waits (ch : Channel α) (id : Nat) : Nat := ch.recvWaiters.count id + ch.sendWaiters.count id

theorem count_take_drop (l : List Nat) (n id : Nat) : (l.drop n).count id + (l.take n).count id = l.count id := by
  rw [Nat.add_comm, ← List.count_append, List.take_append_drop]

theorem push_waits (item : α) (id : Nat) :
    (ch.push item).waits id + (ch.recvWaiters.take 1).count id = ch.waits id := by
  have hCount := count_take_drop ch.recvWaiters 1 id
  simp only [waits, push]
  omega

theorem tryRecv_waits : ch.tryRecv.state.waits id + ch.tryRecv.woken.count id = ch.waits id := by
  rw [tryRecv]
  split
  · rfl
  · have hCount := count_take_drop ch.sendWaiters 1 id
    simp only [waits]
    omega

theorem close_waits : ch.close.state.waits id + ch.close.woken.count id = ch.waits id := by
  simp only [close, waits, List.count_nil, List.count_append, Nat.zero_add]

end Channel

structure Slot (α : Type) where
  sequence : Nat
  storage : α

/-- The channel as the code has it. -/
structure AsyncChannel (α : Type) where
  capacity : Nat
  slots : Nat → Slot α
  head : Nat
  tail : Nat
  closed : Bool
  recvWaiters : List Nat
  sendWaiters : List Nat

namespace AsyncChannel

variable {α : Type}

def nextPow2 (n : Nat) : Option Nat := if n = 0 then some 1 else roundUp n 65 1

def new [Inhabited α] (capacity : Nat) : Option (AsyncChannel α) :=
  (nextPow2 (max capacity 2)).map fun cap => ⟨cap, fun i => ⟨i, default⟩, 0, 0, false, [], []⟩

def isFull (c : AsyncChannel α) : Bool := c.capacity ≤ wrap (c.tail + 2 ^ 64 - c.head)

def isEmpty (c : AsyncChannel α) : Bool := c.tail = c.head

def wakeOneReceiver (c : AsyncChannel α) : Reply Unit (AsyncChannel α) :=
  ⟨(), c.recvWaiters.take 1, { c with recvWaiters := c.recvWaiters.drop 1 }⟩

def wakeOneSender (c : AsyncChannel α) : Reply Unit (AsyncChannel α) :=
  ⟨(), c.sendWaiters.take 1, { c with sendWaiters := c.sendWaiters.drop 1 }⟩

def trySendInner (item : α) : Nat → Nat → AsyncChannel α → Option (Bool × AsyncChannel α)
  | 0, _, _ => none
  | rounds + 1, pos, c =>
    let i := cell c.capacity pos
    let order := diff (c.slots i).sequence pos
    if order = 0 then
      if c.tail = pos then
        some (true, { c with tail := wrap (pos + 1), slots := Function.update c.slots i ⟨wrap (pos + 1), item⟩ })
      else trySendInner item rounds c.tail c
    else if order < 0 then some (false, c)
    else trySendInner item rounds c.tail c

def trySend (rounds : Nat) (c : AsyncChannel α) (item : α) : Option (Reply Bool (AsyncChannel α)) :=
  if c.closed then some ⟨false, [], c⟩
  else (trySendInner item rounds c.tail c).map fun out =>
    if out.1 then ⟨true, out.2.wakeOneReceiver.woken, out.2.wakeOneReceiver.state⟩ else ⟨false, [], out.2⟩

def tryRecvLoop : Nat → Nat → AsyncChannel α → Option (Reply (Option α) (AsyncChannel α))
  | 0, _, _ => none
  | rounds + 1, pos, c =>
    let i := cell c.capacity pos
    let order := diff (c.slots i).sequence (wrap (pos + 1))
    if order = 0 then
      if c.head = pos then
        let taken := { c with
          head := wrap (pos + 1)
          slots := Function.update c.slots i ⟨wrap (pos + c.capacity), (c.slots i).storage⟩ }
        some ⟨some (c.slots i).storage, taken.wakeOneSender.woken, taken.wakeOneSender.state⟩
      else tryRecvLoop rounds c.head c
    else if order < 0 then some ⟨none, [], c⟩
    else tryRecvLoop rounds c.head c

def tryRecv (rounds : Nat) (c : AsyncChannel α) : Option (Reply (Option α) (AsyncChannel α)) :=
  tryRecvLoop rounds c.head c

/-- The awaiter does not suspend if there is room; it looks again after it has registered, and
withdraws. -/
def send (id rounds : Nat) (item : α) : Nat → AsyncChannel α → Option (Reply (Stretch SendResult) (AsyncChannel α))
  | 0, _ => none
  | turns + 1, c =>
    if c.closed then some ⟨.returned .brokenPipe, [], c⟩
    else (trySendInner item rounds c.tail c).bind fun out =>
      if out.1 then some ⟨.returned .ok, out.2.wakeOneReceiver.woken, out.2.wakeOneReceiver.state⟩
      else if !out.2.isFull || out.2.closed then send id rounds item turns out.2
      else
        let registered := { out.2 with sendWaiters := id :: out.2.sendWaiters }
        if !registered.isFull || registered.closed then
          send id rounds item turns { registered with sendWaiters := registered.sendWaiters.erase id }
        else some ⟨.suspended, [], registered⟩

def recv (id rounds : Nat) : Nat → AsyncChannel α → Option (Reply (Stretch (Option α)) (AsyncChannel α))
  | 0, _ => none
  | turns + 1, c =>
    (tryRecv rounds c).bind fun out =>
      if out.result.isSome then some ⟨.returned out.result, out.woken, out.state⟩
      else if out.state.closed then some ⟨.returned none, out.woken, out.state⟩
      else if !out.state.isEmpty || out.state.closed then recv id rounds turns out.state
      else
        let registered := { out.state with recvWaiters := id :: out.state.recvWaiters }
        if !registered.isEmpty || registered.closed then
          recv id rounds turns { registered with recvWaiters := registered.recvWaiters.erase id }
        else some ⟨.suspended, out.woken, registered⟩

def close (c : AsyncChannel α) : Reply Unit (AsyncChannel α) :=
  ⟨(), c.recvWaiters ++ c.sendWaiters, { c with closed := true, recvWaiters := [], sendWaiters := [] }⟩

end AsyncChannel

section Layout

variable {α : Type} {k h : Nat} {c : AsyncChannel α} {items : List α} (slots : Nat → Slot α) (i : Nat) (slot : Slot α)

structure Layout (k h : Nat) (c : AsyncChannel α) (items : List α) : Prop where
  two : 1 ≤ k
  small : k ≤ 63
  capacity : c.capacity = 2 ^ k
  turns : Turns k (fun i => (c.slots i).sequence) c.head c.tail h items.length
  stored : ∀ j item, items[j]? = some item → (c.slots ((h + j) % 2 ^ k)).storage = item

def filledRing (c : AsyncChannel α) (item : α) : AsyncChannel α :=
  { c with
    tail := wrap (c.tail + 1)
    slots := Function.update c.slots (cell c.capacity c.tail) ⟨wrap (c.tail + 1), item⟩ }

def takenRing (c : AsyncChannel α) : AsyncChannel α :=
  { c with
    head := wrap (c.head + 1)
    slots := Function.update c.slots (cell c.capacity c.head)
      ⟨wrap (c.head + c.capacity), (c.slots (cell c.capacity c.head)).storage⟩ }

theorem sequence_update :
    (fun j => (update slots i slot j).sequence) = update (fun j => (slots j).sequence) i slot.sequence :=
  funext (apply_update (fun _ => Slot.sequence) slots i slot)

theorem storage_update (j : Nat) :
    (update slots i slot j).storage = update (fun j => (slots j).storage) i slot.storage j :=
  apply_update (fun _ => Slot.storage) slots i slot j

theorem Layout.tailCell (hLayout : Layout k h c items) : cell c.capacity c.tail = (h + items.length) % 2 ^ k := by
  rw [hLayout.capacity, hLayout.turns.tail, cell_wrap hLayout.small]

theorem Layout.headCell (hLayout : Layout k h c items) : cell c.capacity c.head = h % 2 ^ k := by
  rw [hLayout.capacity, hLayout.turns.head, cell_wrap hLayout.small]

theorem Layout.fill (hLayout : Layout k h c items) (hRoom : items.length < 2 ^ k) (item : α) :
    Layout k h (filledRing c item) (items ++ [item]) := by
  have hTurns := hLayout.turns.push hLayout.small hRoom
  refine { hLayout with turns := ?turns, stored := ?stored }
  case turns =>
    rw [List.length_append, List.length_singleton]
    simp only [filledRing, sequence_update, hLayout.capacity]
    exact hTurns
  case stored =>
    simp only [filledRing, hLayout.tailCell, storage_update]
    exact stored_push hLayout.stored hRoom item

theorem Layout.take {item : α} (hLayout : Layout k h c (item :: items)) : Layout k (h + 1) (takenRing c) items := by
  have hLe := hLayout.turns.le
  rw [List.length_cons] at hLe
  have hTurns := hLayout.turns.pop hLayout.small (by rw [List.length_cons]; omega)
  refine { hLayout with turns := ?turns, stored := ?stored }
  case turns =>
    rw [Nat.add_assoc, Nat.sub_add_cancel (Nat.two_pow_pos k), List.length_cons, Nat.add_sub_cancel] at hTurns
    simp only [takenRing, sequence_update, hLayout.capacity]
    exact hTurns
  case stored =>
    intro j value hj
    simp only [takenRing, storage_update, update_eq_self]
    rw [Nat.add_right_comm, Nat.add_assoc h]
    exact hLayout.stored (j + 1) value hj

section

variable (hLayout : Layout k h c items)
include hLayout

theorem Layout.isFull : c.isFull = decide (2 ^ k ≤ items.length) := by
  have hLe := hLayout.turns.le
  have hSmall : 2 ^ k ≤ 2 ^ 63 := Nat.pow_le_pow_right (by omega) hLayout.small
  have hCount : wrap (c.tail + 2 ^ 64 - c.head) = items.length := by
    rw [hLayout.turns.tail, hLayout.turns.head, wrap, wrap, wrap]
    omega
  rw [AsyncChannel.isFull, hCount, hLayout.capacity]

theorem Layout.isEmpty : c.isEmpty = decide (items.length = 0) := by
  have hLe := hLayout.turns.le
  have hSmall : 2 ^ k ≤ 2 ^ 63 := Nat.pow_le_pow_right (by omega) hLayout.small
  rw [AsyncChannel.isEmpty, hLayout.turns.tail, hLayout.turns.head, wrap, wrap]
  exact decide_eq_decide.mpr (by omega)

theorem Layout.trySendInner (item : α) (rounds : Nat) : c.trySendInner item (rounds + 1) c.tail =
    if 2 ^ k ≤ items.length then some (false, c) else some (true, filledRing c item) := by
  rw [AsyncChannel.trySendInner, filledRing, hLayout.capacity]
  by_cases hFull : 2 ^ k ≤ items.length
  · have hBehind := hLayout.turns.pushFull hLayout.small hLayout.two (Nat.le_antisymm hLayout.turns.le hFull)
    simp only [Int.ne_of_lt hBehind, hBehind, hFull, if_true, if_false]
  · have hReady := hLayout.turns.pushReady hLayout.small (Nat.lt_of_not_le hFull)
    simp only [hReady, hFull, if_true, if_false]

end

theorem Layout.tryRecv_item {item : α} (hLayout : Layout k h c (item :: items)) (rounds : Nat) :
    c.tryRecv (rounds + 1) =
      some ⟨some item, c.sendWaiters.take 1, { takenRing c with sendWaiters := c.sendWaiters.drop 1 }⟩ := by
  have hReady := hLayout.turns.popReady hLayout.small (Nat.succ_pos _)
  have hItem : (c.slots (cell c.capacity c.head)).storage = item := by
    rw [hLayout.headCell]
    exact hLayout.stored 0 item rfl
  rw [hLayout.capacity] at hItem
  rw [AsyncChannel.tryRecv, AsyncChannel.tryRecvLoop, takenRing, hLayout.capacity]
  simp only [hReady, if_true, hItem, AsyncChannel.wakeOneSender]

theorem Layout.tryRecv_empty (hLayout : Layout k h c []) (rounds : Nat) :
    c.tryRecv (rounds + 1) = some ⟨none, [], c⟩ := by
  have hBehind := hLayout.turns.popEmpty hLayout.small rfl
  rw [AsyncChannel.tryRecv, AsyncChannel.tryRecvLoop, hLayout.capacity]
  simp only [Int.ne_of_lt hBehind, hBehind, if_true, if_false]

end Layout

section Refinement

variable {α : Type} {c : AsyncChannel α} {ch : Channel α}

structure Represents (c : AsyncChannel α) (ch : Channel α) : Prop where
  layout : ∃ k h, ch.capacity = 2 ^ k ∧ Layout k h c ch.items
  closed : c.closed = ch.closed
  recvWaiters : c.recvWaiters = ch.recvWaiters
  sendWaiters : c.sendWaiters = ch.sendWaiters

/-- The operation on the ring ends, and does what the one on the queue does. -/
def Agrees {ρ : Type} (ring : Option (Reply ρ (AsyncChannel α))) (queue : Reply ρ (Channel α)) : Prop :=
  ∃ c, ring = some ⟨queue.result, queue.woken, c⟩ ∧ Represents c queue.state

theorem represents_new [Inhabited α] {capacity : Nat} (hNew : AsyncChannel.new capacity = some c) :
    Represents c (Channel.new c.capacity) := by
  rw [AsyncChannel.new, AsyncChannel.nextPow2, if_neg (by omega), Option.map_eq_some_iff] at hNew
  obtain ⟨cap, hCap, rfl⟩ := hNew
  obtain ⟨k, hk, rfl, hLe⟩ := roundUp_some (k := 0) (Nat.zero_le 63) hCap
  have hTwo : 1 ≤ k := by
    by_contra hNot
    obtain rfl : k = 0 := by omega
    omega
  refine ⟨⟨k, 0, rfl, hTwo, hk, rfl, turns_initial (fun i _ => rfl) hk, fun j item hj => ?_⟩, rfl, rfl, rfl⟩
  simp [Channel.new] at hj

section

variable (hRep : Represents c ch)
include hRep

variable (id : Nat) (item : α) (rounds turns : Nat)

theorem Represents.withRest (closed : Bool) (receivers senders : List Nat) :
    Represents { c with closed, recvWaiters := receivers, sendWaiters := senders }
      { ch with closed, recvWaiters := receivers, sendWaiters := senders } := by
  obtain ⟨k, h, hCap, hLayout⟩ := hRep.layout
  exact ⟨⟨k, h, hCap, { hLayout with }⟩, rfl, rfl, rfl⟩

theorem Represents.isFull : c.isFull = ch.isFull := by
  obtain ⟨k, h, hCap, hLayout⟩ := hRep.layout
  rw [hLayout.isFull, Channel.isFull, hCap]

theorem Represents.push (hRoom : ch.isFull = false) (item : α) :
    Represents { filledRing c item with recvWaiters := c.recvWaiters.drop 1 } (ch.push item) := by
  obtain ⟨k, h, hCap, hLayout⟩ := hRep.layout
  rw [Channel.isFull, hCap, decide_eq_false_iff_not, Nat.not_le] at hRoom
  exact ⟨⟨k, h, hCap, { hLayout.fill hRoom item with }⟩, hRep.closed, congrArg (List.drop 1) hRep.recvWaiters,
    hRep.sendWaiters⟩

theorem Represents.trySendInner : c.trySendInner item (rounds + 1) c.tail =
      if ch.isFull then some (false, c) else some (true, filledRing c item) := by
  obtain ⟨k, h, hCap, hLayout⟩ := hRep.layout
  simp only [hLayout.trySendInner, Channel.isFull, hCap, decide_eq_true_eq]

theorem Represents.trySend : Agrees (c.trySend (rounds + 1) item) (ch.trySend item) := by
  rw [AsyncChannel.trySend, Channel.trySend, hRep.trySendInner, hRep.closed]
  cases hClosed : ch.closed with
  | true => exact ⟨c, rfl, hRep⟩
  | false =>
    cases hFull : ch.isFull with
    | true => exact ⟨c, rfl, hRep⟩
    | false =>
      refine ⟨{ filledRing c item with recvWaiters := c.recvWaiters.drop 1 }, ?_, hRep.push hFull item⟩
      rw [Bool.or_false, if_neg Bool.false_ne_true, ← hRep.recvWaiters]
      rfl

theorem Represents.tryRecv : Agrees (c.tryRecv (rounds + 1)) ch.tryRecv := by
  obtain ⟨k, h, hCap, hLayout⟩ := hRep.layout
  rw [Channel.tryRecv]
  cases hItems : ch.items with rw [hItems] at hLayout
  | nil =>
    exact ⟨c, hLayout.tryRecv_empty rounds, hRep⟩
  | cons item items =>
    refine ⟨{ takenRing c with sendWaiters := c.sendWaiters.drop 1 }, ?_, ⟨⟨k, h + 1, hCap, { hLayout.take with }⟩,
      hRep.closed, hRep.recvWaiters, congrArg (List.drop 1) hRep.sendWaiters⟩⟩
    rw [hLayout.tryRecv_item rounds, hRep.sendWaiters]

theorem Represents.send : Agrees (c.send id (rounds + 1) item (turns + 1)) (ch.send id item) := by
  rw [AsyncChannel.send, Channel.send, hRep.trySendInner, hRep.closed]
  cases hClosed : ch.closed with
  | true => exact ⟨c, rfl, hRep⟩
  | false =>
    cases hFull : ch.isFull with
    | true =>
      have hAgain : ({ c with sendWaiters := id :: c.sendWaiters } : AsyncChannel α).isFull = true :=
        hRep.isFull.trans hFull
      simp only [hRep.closed, hClosed, hRep.recvWaiters, hRep.sendWaiters] at hAgain
      refine ⟨_, ?_, hRep.withRest false ch.recvWaiters (id :: ch.sendWaiters)⟩
      simp [hRep.isFull, hFull, hRep.closed, hClosed, hAgain, hRep.recvWaiters, hRep.sendWaiters]
    | false =>
      refine ⟨{ filledRing c item with recvWaiters := c.recvWaiters.drop 1 }, ?_, hRep.push hFull item⟩
      rw [if_neg Bool.false_ne_true, if_neg Bool.false_ne_true, ← hRep.recvWaiters]
      rfl

theorem Represents.recv : Agrees (c.recv id (rounds + 1) (turns + 1)) (ch.recv id) := by
  obtain ⟨k, h, hCap, hLayout⟩ := hRep.layout
  obtain ⟨c', hPoll, hRep'⟩ := hRep.tryRecv rounds
  rw [AsyncChannel.recv, Channel.recv]
  rw [Channel.tryRecv] at hRep' hPoll
  cases hItems : ch.items with simp only [hItems] at hRep' hPoll ⊢
  | nil =>
    rw [hItems] at hLayout
    rw [hLayout.tryRecv_empty, Option.bind_some]
    cases hClosed : ch.closed with
    | true =>
      refine ⟨c, ?_, hRep⟩
      simp [hRep.closed, hClosed]
    | false =>
      have hEmpty := hLayout.isEmpty
      rw [AsyncChannel.isEmpty] at hEmpty
      have hWaiting := hRep.withRest false (id :: ch.recvWaiters) ch.sendWaiters
      rw [hItems] at hWaiting
      refine ⟨_, ?_, hWaiting⟩
      simp [AsyncChannel.isEmpty, hEmpty, hRep.closed, hClosed, hRep.recvWaiters, hRep.sendWaiters]
  | cons item items =>
    rw [hPoll]
    exact ⟨c', rfl, hRep'⟩

theorem Represents.close : Agrees (some c.close) ch.close := by
  refine ⟨c.close.state, ?_, hRep.withRest true [] []⟩
  rw [AsyncChannel.close, Channel.close, hRep.recvWaiters, hRep.sendWaiters]

end

end Refinement

section Runs

inductive ChannelOp (α : Type) where
  | trySend (item : α)
  | tryRecv
  | send (id : Nat) (item : α)
  | recv (id : Nat)
  | close

inductive ChannelAnswer (α : Type) where
  | tried (ok : Bool)
  | polled (item : Option α)
  | sent (stretch : Stretch SendResult)
  | received (stretch : Stretch (Option α))
  | closed

variable {α : Type}

def Reply.map {ρ ρ' σ : Type} (f : ρ → ρ') (reply : Reply ρ σ) : Reply ρ' σ :=
  ⟨f reply.result, reply.woken, reply.state⟩

def Channel.perform (ch : Channel α) : ChannelOp α → Reply (ChannelAnswer α) (Channel α)
  | .trySend item => (ch.trySend item).map .tried
  | .tryRecv => ch.tryRecv.map .polled
  | .send id item => (ch.send id item).map .sent
  | .recv id => (ch.recv id).map .received
  | .close => ch.close.map fun _ => .closed

def AsyncChannel.perform (rounds : Nat) (c : AsyncChannel α) :
    ChannelOp α → Option (Reply (ChannelAnswer α) (AsyncChannel α))
  | .trySend item => (c.trySend rounds item).map (Reply.map .tried)
  | .tryRecv => (c.tryRecv rounds).map (Reply.map .polled)
  | .send id item => (c.send id rounds item rounds).map (Reply.map .sent)
  | .recv id => (c.recv id rounds rounds).map (Reply.map .received)
  | .close => some (c.close.map fun _ => .closed)

def Channel.answers (ch : Channel α) : List (ChannelOp α) → List (ChannelAnswer α × List Nat)
  | [] => []
  | op :: ops => ((ch.perform op).result, (ch.perform op).woken) :: (ch.perform op).state.answers ops

def AsyncChannel.answers (rounds : Nat) (c : AsyncChannel α) :
    List (ChannelOp α) → Option (List (ChannelAnswer α × List Nat))
  | [] => some []
  | op :: ops => (c.perform rounds op).bind fun out =>
    (out.state.answers rounds ops).map ((out.result, out.woken) :: ·)

theorem Agrees.map {ρ ρ' : Type} {ring : Option (Reply ρ (AsyncChannel α))} {queue : Reply ρ (Channel α)}
    (hAgrees : Agrees ring queue) (f : ρ → ρ') : Agrees (ring.map (Reply.map f)) (queue.map f) := by
  obtain ⟨c, rfl, hRep⟩ := hAgrees
  exact ⟨c, rfl, hRep⟩

/-- One operation on the ring answers as the one on the queue. -/
theorem Represents.perform {c : AsyncChannel α} {ch : Channel α} (hRep : Represents c ch) (rounds : Nat)
    (op : ChannelOp α) :
    Agrees (c.perform (rounds + 1) op) (ch.perform op) := by
  cases op with
  | trySend item => exact (hRep.trySend item rounds).map _
  | tryRecv => exact (hRep.tryRecv rounds).map _
  | send id item => exact (hRep.send id item rounds rounds).map _
  | recv id => exact (hRep.recv id rounds rounds).map _
  | close => exact hRep.close.map _

theorem Represents.answers {c : AsyncChannel α} {ch : Channel α} (hRep : Represents c ch) (rounds : Nat)
    (ops : List (ChannelOp α)) : c.answers (rounds + 1) ops = some (ch.answers ops) := by
  induction ops generalizing c ch with
  | nil => rfl
  | cons op ops ih =>
    obtain ⟨c', hPerform, hRep'⟩ := hRep.perform rounds op
    rw [AsyncChannel.answers, hPerform, Option.bind_some, ih hRep']
    rfl

/-- From its construction on the ring answers as the queue does, and no loop of it needs a second
round. -/
theorem ring_answers [Inhabited α] (capacity rounds : Nat) (ops : List (ChannelOp α)) :
    let made := @AsyncChannel.new α _ capacity
    (made.bind fun c => c.answers (rounds + 1) ops) = made.map fun c => (Channel.new c.capacity).answers ops := by
  cases hNew : @AsyncChannel.new α _ capacity with
  | none => rfl
  | some c => exact (represents_new hNew).answers rounds ops

end Runs

end Pipeline
