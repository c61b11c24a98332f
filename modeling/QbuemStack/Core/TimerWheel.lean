import Mathlib.Algebra.Ring.Nat
import QbuemStack.Base.LinkedList

/-! The hierarchical timer wheel. An address stands for one allocation, so that an entry returned to
the pool is never confused with a later one in the same place. A use of an entry that is gone is
undefined and ends the run in the state reached. Callbacks are names; what one does to the wheel is
a script. The log is not part of the program. -/
namespace TimerWheel

open LinkedList

def LEVELS : Nat := 4

def SLOTS_PER_LEVEL : Nat := 256

def kInvalid : Nat := 0

def kSlotMs : Nat → Nat
  | 0 => 1
  | 1 => 256
  | 2 => 65536
  | _ => 16777216

structure Entry (κ : Type) where
  fn : Option κ
  id : Nat
  expiryMs : Nat
  level : Nat := 0
  slot : Nat := 0

/-- A cancellation is noted with the entry that a running `fire_slot` has saved, if a callback makes
it. -/
inductive Event where
  | scheduled (entry : Addr) (delay time : Nat)
  | cancelled (entry : Addr) (time : Nat) (saved : Option (Option Addr))
  | fired (entry : Addr) (time : Nat)
  | returned (entry : Addr)
deriving DecidableEq

structure State (κ : Type) where
  heap : Heap (Entry κ)
  slots : Nat → Nat → Option Addr
  index : List (Nat × Addr)
  capacity : Nat
  used : Nat
  fresh : Addr
  nextId : Nat
  currentMs : Nat
  count : Nat
  minValid : Bool
  cachedMinExpiry : Nat
  log : List Event

variable {κ : Type}

def initial (κ : Type) (capacity : Nat) : State κ where
  heap := fun _ => none
  slots := fun _ _ => none
  index := []
  capacity := capacity
  used := 0
  fresh := 0
  nextId := 1
  currentMs := 0
  count := 0
  minValid := false
  cachedMinExpiry := 0
  log := []

abbrev Result (κ α : Type) := Except (State κ) (State κ × α)

def last {α : Type} : Result κ α → State κ
  | .ok (s, _) => s
  | .error s => s

/-- A step that is undefined when it uses an entry that is gone. -/
def State.use {α β : Type} (s : State κ) (x : Option α) (f : α → Result κ β) : Result κ β :=
  x.elim (.error s) f

namespace State

def noteEvent (s : State κ) (e : Event) : State κ := { s with log := e :: s.log }

def setSlot (s : State κ) (lv sl : Nat) (head : Option Addr) : State κ :=
  { s with slots := fun l x => if l = lv ∧ x = sl then head else s.slots l x }

def indexSet (s : State κ) (id : Nat) (a : Addr) : State κ :=
  { s with index := (id, a) :: s.index.filter fun entry => entry.1 != id }

def indexErase (s : State κ) (id : Nat) : State κ :=
  { s with index := s.index.filter fun entry => entry.1 != id }

def dropMin (s : State κ) (expiry : Nat) : State κ :=
  { s with minValid := s.minValid && !(expiry ≤ s.cachedMinExpiry) }

def release (s : State κ) (a : Addr) : Result κ Unit :=
  s.use (s.heap a) fun _ =>
    .ok ({ s with heap := s.heap.free a, used := s.used - 1, count := s.count - 1 }.noteEvent (.returned a), ())

end State

def levelFor (delta : Nat) : Nat :=
  if delta ≥ kSlotMs 3 then 3 else if delta ≥ kSlotMs 2 then 2 else if delta ≥ kSlotMs 1 then 1 else 0

def slotFor (lv expiry : Nat) : Nat := expiry / kSlotMs lv % SLOTS_PER_LEVEL

def levelAt (now expiry : Nat) : Nat := levelFor (if expiry > now then expiry - now else 0)

def Entry.at (e : Entry κ) (now : Nat) : Entry κ :=
  { e with level := levelAt now e.expiryMs, slot := slotFor (levelAt now e.expiryMs) e.expiryMs }

def State.record (s : State κ) (a : Addr) (n : Node (Entry κ)) : State κ :=
  { s with heap := s.heap.write a { n with val := n.val.at s.currentMs } }.indexSet n.val.id a

def link (s : State κ) (lv sl : Nat) (a : Addr) : Result κ Unit :=
  s.use (s.heap.pushFront (s.slots lv sl) a) fun heap => .ok ({ s with heap := heap }.setSlot lv sl (some a), ())

def insert (s : State κ) (a : Addr) : Result κ Unit :=
  s.use (s.heap a) fun n =>
    link (s.record a n) (n.val.at s.currentMs).level (n.val.at s.currentMs).slot a

def unlink (s : State κ) (lv sl : Nat) (a : Addr) : Result κ Unit :=
  s.use (s.heap.unlink (s.slots lv sl) a) fun (heap, head) =>
    .ok ({ s with heap := heap }.setSlot lv sl head, ())

def wrap (n : Nat) : Nat := n % 2 ^ 64

def State.takeId (s : State κ) : Nat := if s.nextId = kInvalid then 1 else s.nextId

def State.allocate (s : State κ) (delay : Nat) (fn : Option κ) : State κ :=
  { s with heap := s.heap.write s.fresh
             ⟨{ fn := fn, id := s.takeId, expiryMs := wrap (s.currentMs + delay) }, none, none⟩
           used := s.used + 1
           fresh := s.fresh + 1
           nextId := wrap (s.takeId + 1) }.noteEvent (.scheduled s.fresh delay s.currentMs)

def State.countTimer (s : State κ) (expiry : Nat) : State κ :=
  { s with count := s.count + 1
           cachedMinExpiry := if s.minValid && expiry < s.cachedMinExpiry then expiry else s.cachedMinExpiry }

def schedule (s : State κ) (delay : Nat) (fn : Option κ) : Result κ Nat :=
  if s.used ≥ s.capacity then .ok (s, kInvalid)
  else (insert (s.allocate delay fn) s.fresh).bind fun out =>
    .ok (out.1.countTimer (wrap (s.currentMs + delay)), s.takeId)

def State.beginCancel (s : State κ) (saved : Option (Option Addr)) (id : Nat) (a : Addr) : State κ :=
  (s.indexErase id).noteEvent (.cancelled a s.currentMs saved)

def cancel (s : State κ) (saved : Option (Option Addr)) (id : Nat) : Result κ Bool :=
  if id = kInvalid then .ok (s, false)
  else (s.index.lookup id).elim (.ok (s, false)) fun a =>
    (s.beginCancel saved id a).use (s.heap a) fun n =>
      (unlink (s.beginCancel saved id a) n.val.level n.val.slot a).bind fun out =>
        ((out.1.dropMin n.val.expiryMs).release a).bind fun out => .ok (out.1, true)

/-- The calls a callback makes, in order, each depending on the answers before. -/
inductive Script (κ : Type) where
  | done
  | schedule (delay : Nat) (fn : Option κ) (next : Nat → Script κ)
  | cancel (id : Nat) (next : Bool → Script κ)

abbrev Behaviour (κ : Type) := κ → State κ → Script κ

def runScript (saved : Option Addr) : Script κ → State κ → Result κ Unit
  | .done, s => .ok (s, ())
  | .schedule delay fn next, s => (schedule s delay fn).bind fun out => runScript saved (next out.2) out.1
  | .cancel id next, s => (cancel s (some saved) id).bind fun out => runScript saved (next out.2) out.1

def State.beginFire (s : State κ) (a : Addr) (e : Entry κ) : State κ :=
  ((s.indexErase e.id).dropMin e.expiryMs).noteEvent (.fired a s.currentMs)

def callback (behaviour : Behaviour κ) (s : State κ) (fn : Option κ) (saved : Option Addr) : Result κ Unit :=
  fn.elim (.ok (s, ())) fun f => runScript saved (behaviour f s) s

def fireEntry (behaviour : Behaviour κ) (s : State κ) (a : Addr) (e : Entry κ) (saved : Option Addr) :
    Result κ Unit :=
  (callback behaviour (s.beginFire a e) e.fn saved).bind fun out => out.1.release a

def State.clearLinks (s : State κ) (a : Addr) (n : Node (Entry κ)) : State κ :=
  { s with heap := s.heap.write a { n with next := none, prev := none } }

def fireWalk (behaviour : Behaviour κ) : Nat → State κ → Option Addr → Nat → Result κ Nat
  | _, s, none, fired => .ok (s, fired)
  | 0, s, some _, _ => .error s
  | rounds + 1, s, some a, fired =>
    s.use (s.heap a) fun n =>
      if n.val.expiryMs ≤ s.currentMs then
        (fireEntry behaviour (s.clearLinks a n) a n.val n.next).bind fun out =>
          fireWalk behaviour rounds out.1 n.next (fired + 1)
      else (insert (s.clearLinks a n) a).bind fun out => fireWalk behaviour rounds out.1 n.next fired

/-- The entries of a slot never exceed the allocations made, which bounds the walk. -/
def fireSlot (behaviour : Behaviour κ) (s : State κ) (level slot : Nat) : Result κ Nat :=
  fireWalk behaviour s.fresh (s.setSlot level slot none) (s.slots level slot) 0

def cascadeWalk : Nat → State κ → Option Addr → Result κ Unit
  | _, s, none => .ok (s, ())
  | 0, s, some _ => .error s
  | rounds + 1, s, some a =>
    s.use (s.heap a) fun n =>
      (insert (s.clearLinks a n) a).bind fun out => cascadeWalk rounds out.1 n.next

def cascade (s : State κ) (level slot : Nat) : Result κ Unit :=
  cascadeWalk s.fresh (s.setSlot level slot none) (s.slots level slot)

def cascades : Nat → State κ → Nat → Result κ Unit
  | 0, s, _ => .ok (s, ())
  | levels + 1, s, lv =>
    if s.currentMs % kSlotMs lv = 0 then
      (cascade s lv (slotFor lv s.currentMs)).bind fun out => cascades levels out.1 (lv + 1)
    else .ok (s, ())

def State.advance (s : State κ) : State κ := { s with currentMs := s.currentMs + 1 }

def tickStep (behaviour : Behaviour κ) (s : State κ) : Result κ Nat :=
  (fireSlot behaviour s.advance 0 (s.advance.currentMs % SLOTS_PER_LEVEL)).bind fun out =>
    (cascades (LEVELS - 1) out.1 1).bind fun out' => .ok (out'.1, out.2)

def tickSteps (behaviour : Behaviour κ) : Nat → State κ → Nat → Result κ Nat
  | 0, s, fired => .ok (s, fired)
  | steps + 1, s, fired =>
    (tickStep behaviour s).bind fun out => tickSteps behaviour steps out.1 (fired + out.2)

def tick (behaviour : Behaviour κ) (s : State κ) (elapsed : Nat) : Result κ Nat :=
  tickSteps behaviour (wrap (s.currentMs + elapsed) - s.currentMs) s 0

inductive Op (κ : Type) where
  | schedule (delay : Nat) (fn : Option κ)
  | cancel (id : Nat)
  | tick (elapsed : Nat)

def apply (behaviour : Behaviour κ) (s : State κ) : Op κ → Result κ Unit
  | .schedule delay fn => (schedule s delay fn).bind fun out => .ok (out.1, ())
  | .cancel id => (cancel s none id).bind fun out => .ok (out.1, ())
  | .tick elapsed => (tick behaviour s elapsed).bind fun out => .ok (out.1, ())

def run (behaviour : Behaviour κ) (capacity : Nat) : List (Op κ) → Result κ Unit
  | [] => .ok (initial κ capacity, ())
  | op :: past => (run behaviour capacity past).bind fun out => apply behaviour out.1 op

end TimerWheel
