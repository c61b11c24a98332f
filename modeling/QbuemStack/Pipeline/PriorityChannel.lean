import QbuemStack.Base.LabelledRuns
import QbuemStack.Pipeline.AsyncChannel

/-! The channel with three levels of priority. A receiver that finds all levels empty waits on the
highest level only, so only items of the other two levels can be slept on. -/
namespace Pipeline

open Function LabelledRuns

inductive Priority where
  | high
  | normal
  | low
deriving DecidableEq

structure PriorityChannel (α : Type) where
  levels : Priority → Channel α
  closed : Bool

namespace PriorityChannel

variable {α : Type}

def new (capacity : Nat) : PriorityChannel α := ⟨fun _ => Channel.new capacity, false⟩

def setLevel (pc : PriorityChannel α) (p : Priority) (ch : Channel α) : PriorityChannel α :=
  { pc with levels := Function.update pc.levels p ch }

def lift {ρ : Type} (pc : PriorityChannel α) (p : Priority) (reply : Reply ρ (Channel α)) :
    Reply ρ (PriorityChannel α) :=
  ⟨reply.result, reply.woken, pc.setLevel p reply.state⟩

def trySend (pc : PriorityChannel α) (item : α) (p : Priority) : Reply Bool (PriorityChannel α) :=
  if pc.closed then ⟨false, [], pc⟩ else pc.lift p ((pc.levels p).trySend item)

def pollLevels (pc : PriorityChannel α) : List Priority → Reply (Option α) (PriorityChannel α)
  | [] => ⟨none, [], pc⟩
  | p :: ps => if (pc.levels p).tryRecv.result.isSome then pc.lift p (pc.levels p).tryRecv else pc.pollLevels ps

def tryRecv (pc : PriorityChannel α) : Reply (Option α) (PriorityChannel α) := pc.pollLevels [.high, .normal, .low]

def send (id : Nat) (pc : PriorityChannel α) (item : α) (p : Priority) :
    Reply (Stretch SendResult) (PriorityChannel α) :=
  if pc.closed then ⟨.returned .brokenPipe, [], pc⟩ else pc.lift p ((pc.levels p).send id item)

/-- At the end of stream of the highest level the other levels are polled. -/
def recvHigh (id : Nat) (pc : PriorityChannel α) : Reply (Stretch (Option α)) (PriorityChannel α) :=
  match ((pc.levels .high).recv id).result with
  | .returned none => (pc.pollLevels [.normal, .low]).map .returned
  | _ => pc.lift .high ((pc.levels .high).recv id)

def recv (id : Nat) (pc : PriorityChannel α) : Reply (Stretch (Option α)) (PriorityChannel α) :=
  if pc.tryRecv.result.isSome then pc.tryRecv.map .returned
  else if pc.closed then pc.tryRecv.state.tryRecv.map .returned
  else pc.recvHigh id

def close (pc : PriorityChannel α) : Reply Unit (PriorityChannel α) :=
  ⟨(), (pc.levels .high).close.woken ++ (pc.levels .normal).close.woken ++ (pc.levels .low).close.woken,
    ⟨fun p => (pc.levels p).close.state, true⟩⟩

section Levels

variable {pc pc' : PriorityChannel α} {p : Priority} {ch : Channel α} {woken : List Nat}

@[simp] theorem setLevel_same : (pc.setLevel p ch).levels p = ch := update_self ..

theorem setLevel_other {q : Priority} (hq : q ≠ p) : (pc.setLevel p ch).levels q = pc.levels q :=
  update_of_ne hq ..

def waits (pc : PriorityChannel α) (id : Nat) : Nat :=
  (pc.levels .high).waits id + (pc.levels .normal).waits id + (pc.levels .low).waits id

theorem setLevel_waits (pc : PriorityChannel α) (p : Priority) (ch : Channel α) (id : Nat) :
    (pc.setLevel p ch).waits id + (pc.levels p).waits id = pc.waits id + ch.waits id := by
  cases p <;> simp only [waits, setLevel, update_self, ne_eq, reduceCtorEq, not_false_eq_true, update_of_ne] <;> omega

def debt (pc : PriorityChannel α) : Nat :=
  if (pc.levels .high).recvWaiters.isEmpty then 0 else (pc.levels .high).items.length

structure Calm (pc : PriorityChannel α) : Prop where
  flags : ∀ p, (pc.levels p).closed = pc.closed
  others : ∀ p, p ≠ .high → (pc.levels p).recvWaiters = []
  silent : pc.closed = true → (pc.levels .high).recvWaiters = []

theorem Calm.setLevel (hCalm : pc.Calm) (hFlag : ch.closed = (pc.levels p).closed)
    (hNone : (p = .high → pc.closed = true) → (pc.levels p).recvWaiters = [] → ch.recvWaiters = []) :
    (pc.setLevel p ch).Calm := by
  have hLevel : ∀ q, (q = .high → pc.closed = true) → ((pc.setLevel p ch).levels q).recvWaiters = [] := by
    intro q hq
    have hBefore : (pc.levels q).recvWaiters = [] := by
      by_cases hHigh : q = .high
      · rw [hHigh]
        exact hCalm.silent (hq hHigh)
      · exact hCalm.others q hHigh
    by_cases hp : q = p
    · subst hp
      rw [setLevel_same]
      exact hNone hq hBefore
    · rwa [setLevel_other hp]
  refine ⟨fun q => ?_, fun q hq => hLevel q (absurd · hq), fun hClosed => hLevel .high fun _ => hClosed⟩
  by_cases hq : q = p
  · subst hq
    rw [setLevel_same, hFlag]
    exact hCalm.flags q
  · rw [setLevel_other hq]
    exact hCalm.flags q

structure Steady (pc : PriorityChannel α) (woken : List Nat) (pc' : PriorityChannel α) : Prop where
  waits : ∀ id, pc'.waits id + woken.count id = pc.waits id
  kept : ∀ id ∈ (pc'.levels .high).recvWaiters, id ∈ (pc.levels .high).recvWaiters
  moved : ∀ id ∈ (pc.levels .high).recvWaiters, id ∈ (pc'.levels .high).recvWaiters ∨ id ∈ woken
  calm : pc.Calm → pc'.Calm

theorem steady_refl : Steady pc [] pc :=
  ⟨fun _ => rfl, fun _ hMem => hMem, fun _ hMem => .inl hMem, fun hCalm => hCalm⟩

theorem steady_setLevel (hWaits : ∀ id, ch.waits id + woken.count id = (pc.levels p).waits id)
    (hKept : ∀ id ∈ ch.recvWaiters, id ∈ (pc.levels p).recvWaiters)
    (hMoved : ∀ id ∈ (pc.levels p).recvWaiters, id ∈ ch.recvWaiters ∨ id ∈ woken)
    (hFlag : ch.closed = (pc.levels p).closed) : Steady pc woken (pc.setLevel p ch) := by
  constructor
  case waits =>
    intro id
    have hLevel := setLevel_waits pc p ch id
    have hHere := hWaits id
    omega
  case kept =>
    intro id hMem
    by_cases hp : .high = p
    · subst hp
      exact hKept id hMem
    · rwa [setLevel_other hp] at hMem
  case moved =>
    intro id hMem
    by_cases hp : .high = p
    · subst hp
      exact hMoved id hMem
    · rw [setLevel_other hp]
      exact .inl hMem
  case calm =>
    refine fun hCalm => hCalm.setLevel hFlag fun _ hNone => List.eq_nil_iff_forall_not_mem.mpr fun id hMem => ?_
    have hBefore := hKept id hMem
    rw [hNone] at hBefore
    exact List.not_mem_nil hBefore

theorem steady_push (p : Priority) (item : α) :
    Steady pc ((pc.levels p).recvWaiters.take 1) (pc.setLevel p ((pc.levels p).push item)) := by
  refine steady_setLevel (fun id => Channel.push_waits _ item id) (fun id hMem => List.mem_of_mem_drop hMem) ?_ rfl
  intro id hMem
  rw [← List.take_append_drop 1 (pc.levels p).recvWaiters, List.mem_append] at hMem
  exact hMem.symm

theorem steady_tryRecv (p : Priority) :
    Steady pc (pc.levels p).tryRecv.woken (pc.setLevel p (pc.levels p).tryRecv.state) := by
  have hSame : (pc.levels p).tryRecv.state.recvWaiters = (pc.levels p).recvWaiters ∧
      (pc.levels p).tryRecv.state.closed = (pc.levels p).closed := by
    rw [Channel.tryRecv]
    split <;> exact ⟨rfl, rfl⟩
  refine steady_setLevel (fun id => Channel.tryRecv_waits _ id) (fun id hMem => ?_) (fun id hMem => ?_) hSame.2
  · rwa [hSame.1] at hMem
  · rw [hSame.1]
    exact .inl hMem

theorem debt_other (hp : p ≠ .high) : (pc.setLevel p ch).debt = pc.debt := by
  rw [debt, setLevel_other (Ne.symm hp), debt]

theorem debt_push (p : Priority) (item : α) :
    (pc.setLevel p ((pc.levels p).push item)).debt ≤ pc.debt + ((pc.levels p).recvWaiters.take 1).length := by
  by_cases hp : p = .high
  · subst hp
    simp only [debt, setLevel_same, Channel.push]
    cases (pc.levels .high).recvWaiters with
    | nil => simp
    | cons waiter waiters =>
      simp only [List.drop_succ_cons, List.drop_zero, List.isEmpty_cons, Bool.false_eq_true, if_false,
        List.length_append, List.length_cons, List.length_nil, List.take_succ_cons, List.take_zero]
      split <;> omega
  · rw [debt_other hp]
    exact Nat.le_add_right _ _

theorem debt_tryRecv (p : Priority) : (pc.setLevel p (pc.levels p).tryRecv.state).debt ≤ pc.debt ∧
      (p = .high → (pc.setLevel p (pc.levels p).tryRecv.state).debt ≤ pc.debt - 1) := by
  by_cases hp : p = .high
  · subst hp
    simp only [debt, setLevel_same, Channel.tryRecv]
    cases hItems : (pc.levels .high).items with
    | nil => simp [hItems]
    | cons item items =>
      simp only [List.length_cons]
      split <;> simp
  · rw [debt_other hp]
    exact ⟨Nat.le_refl _, fun hHigh => absurd hHigh hp⟩

theorem pollLevels_cases (pc : PriorityChannel α) (ps : List Priority) :
    (pc.pollLevels ps = ⟨none, [], pc⟩ ∧ ∀ p ∈ ps, (pc.levels p).items = []) ∨ ∃ p ∈ ps, ∃ item, pc.pollLevels ps =
        ⟨some item, (pc.levels p).tryRecv.woken, pc.setLevel p (pc.levels p).tryRecv.state⟩ := by
  induction ps with
  | nil => exact .inl ⟨rfl, nofun⟩
  | cons p ps ih =>
    rw [pollLevels]
    cases hItems : (pc.levels p).items with
    | nil =>
      have hNone : (pc.levels p).tryRecv.result = none := by rw [Channel.tryRecv, hItems]
      rw [hNone, if_neg (by simp)]
      rcases ih with ⟨hPoll, hEmpty⟩ | ⟨q, hq, item, hPoll⟩
      · exact .inl ⟨hPoll, List.forall_mem_cons.mpr ⟨hItems, hEmpty⟩⟩
      · exact .inr ⟨q, List.mem_cons_of_mem p hq, item, hPoll⟩
    | cons item items =>
      have hSome : (pc.levels p).tryRecv.result = some item := by rw [Channel.tryRecv, hItems]
      refine .inr ⟨p, List.mem_cons_self, item, ?_⟩
      rw [hSome, Option.isSome_some, if_pos rfl, lift, hSome]

theorem steady_poll (pc : PriorityChannel α) (ps : List Priority) :
    Steady pc (pc.pollLevels ps).woken (pc.pollLevels ps).state ∧ (pc.pollLevels ps).state.debt ≤ pc.debt := by
  rcases pc.pollLevels_cases ps with ⟨hPoll, -⟩ | ⟨p, -, item, hPoll⟩
  · rw [hPoll]
    exact ⟨steady_refl, Nat.le_refl _⟩
  · rw [hPoll]
    exact ⟨steady_tryRecv p, (debt_tryRecv p).1⟩

theorem steady_close (pc : PriorityChannel α) : Steady pc pc.close.woken pc.close.state ∧ pc.close.state.debt = 0 := by
  constructor
  · constructor
    case waits =>
      intro id
      have hHigh := (pc.levels .high).close_waits id
      have hNormal := (pc.levels .normal).close_waits id
      have hLow := (pc.levels .low).close_waits id
      simp only [close, PriorityChannel.waits, List.count_append] at *
      omega
    case kept =>
      intro id hMem
      cases hMem
    case moved =>
      intro id hMem
      exact .inr (List.mem_append_left _ (List.mem_append_left _ (List.mem_append_left _ hMem)))
    case calm => exact fun _ => ⟨fun p => rfl, fun p _ => rfl, fun _ => rfl⟩
  · rfl

def parkSender (pc : PriorityChannel α) (p : Priority) (id : Nat) : PriorityChannel α :=
  pc.setLevel p { pc.levels p with sendWaiters := id :: (pc.levels p).sendWaiters }

def parkReceiver (pc : PriorityChannel α) (id : Nat) : PriorityChannel α :=
  pc.setLevel .high { pc.levels .high with recvWaiters := id :: (pc.levels .high).recvWaiters }

theorem setLevel_self (pc : PriorityChannel α) (p : Priority) : pc.setLevel p (pc.levels p) = pc := by
  rw [setLevel, update_eq_self]

/-- What a stretch on the highest level does: it takes an item there, waits on an empty level, or
polls the other levels of a closed channel. -/
theorem recvHigh_cases (pc : PriorityChannel α) (id : Nat) : (∃ item, pc.recvHigh id =
        ⟨.returned (some item), (pc.levels .high).tryRecv.woken, pc.setLevel .high (pc.levels .high).tryRecv.state⟩) ∨
      ((pc.levels .high).items = [] ∧ (pc.levels .high).closed = false ∧
        pc.recvHigh id = ⟨.suspended, [], pc.parkReceiver id⟩) ∨
      (∃ result, (pc.levels .high).closed = true ∧
        pc.recvHigh id = ⟨.returned result, (pc.pollLevels [.normal, .low]).woken,
        (pc.pollLevels [.normal, .low]).state⟩) := by
  cases hItems : (pc.levels .high).items with
  | cons item items =>
    refine .inl ⟨item, ?_⟩
    simp only [recvHigh, Channel.recv, Channel.tryRecv, hItems, lift]
  | nil =>
    cases hClosed : (pc.levels .high).closed with
    | false =>
      refine .inr (.inl ⟨rfl, rfl, ?_⟩)
      simp only [recvHigh, Channel.recv, hItems, hClosed, lift, parkReceiver, Bool.false_eq_true, if_false]
    | true =>
      refine .inr (.inr ⟨(pc.pollLevels [.normal, .low]).result, rfl, ?_⟩)
      simp only [recvHigh, Channel.recv, hItems, hClosed, if_true, Reply.map]

/-- What the first stretch of `recv` does: it takes an item, ends on a closed channel, or waits when
all levels are empty. -/
theorem recv_cases (pc : PriorityChannel α) (hCalm : pc.Calm) (id : Nat) :
    (∃ result, pc.recv id = ⟨.returned result, pc.tryRecv.woken, pc.tryRecv.state⟩) ∨
      ((∀ p, (pc.levels p).items = []) ∧ pc.closed = false ∧ pc.recv id = ⟨.suspended, [], pc.parkReceiver id⟩) := by
  rcases pc.pollLevels_cases [.high, .normal, .low] with ⟨hPoll, hEmpty⟩ | ⟨p, -, item, hPoll⟩
  · have hAll : ∀ p, (pc.levels p).items = [] := fun p => hEmpty p (by cases p <;> simp)
    have hTry : pc.tryRecv = ⟨none, [], pc⟩ := hPoll
    cases hClosed : pc.closed with
    | true =>
      refine .inl ⟨none, ?_⟩
      rw [recv, hTry]
      simp only [Option.isSome_none, Bool.false_eq_true, if_false, hClosed, if_true, hTry]
      rfl
    | false =>
      refine .inr ⟨hAll, rfl, ?_⟩
      rw [recv, hTry]
      simp only [Option.isSome_none, Bool.false_eq_true, if_false, hClosed]
      rcases pc.recvHigh_cases id with ⟨item, hRecv⟩ | ⟨-, -, hRecv⟩ | ⟨result, hFlag, -⟩
      · exfalso
        simp only [recvHigh, Channel.recv, hAll .high, hCalm.flags .high, hClosed, Bool.false_eq_true,
          if_false, lift] at hRecv
        cases hRecv
      · exact hRecv
      · rw [hCalm.flags .high, hClosed] at hFlag
        cases hFlag
  · refine .inl ⟨some item, ?_⟩
    have hTry : pc.tryRecv = ⟨some item, (pc.levels p).tryRecv.woken,
      pc.setLevel p (pc.levels p).tryRecv.state⟩ := hPoll
    rw [recv, hTry]
    rfl

end Levels

end PriorityChannel

namespace PriorityRuns

inductive Job (α : Type) where
  | idle
  | receiving
  | sending (p : Priority) (item : α)

structure State (α : Type) where
  channel : PriorityChannel α
  jobs : Nat → Job α
  posted : List Nat

inductive Label (α : Type) where
  | trySend (item : α) (p : Priority)
  | tryRecv
  | send (id : Nat) (item : α) (p : Priority)
  | recv (id : Nat)
  | wake (id : Nat)
  | close

variable {α : Type}

def initial (capacity : Nat) : State α := ⟨PriorityChannel.new capacity, fun _ => .idle, []⟩

def post {ρ : Type} (s : State α) (reply : Reply ρ (PriorityChannel α)) : State α :=
  { s with channel := reply.state, posted := s.posted ++ reply.woken }

def stretch {ρ : Type} (s : State α) (id : Nat) (job : Job α)
    (reply : Reply (Stretch ρ) (PriorityChannel α)) : State α :=
  { post s reply with
    jobs := Function.update s.jobs id (match reply.result with | .returned _ => .idle | .suspended => job) }

def next (s : State α) : Label α → Option (State α)
  | .trySend item p => some (post s (s.channel.trySend item p))
  | .tryRecv => some (post s s.channel.tryRecv)
  | .send id item p =>
    match s.jobs id with
    | .idle => some (stretch s id (.sending p item) (s.channel.send id item p))
    | _ => none
  | .recv id =>
    match s.jobs id with
    | .idle => some (stretch s id .receiving (s.channel.recv id))
    | _ => none
  | .wake id =>
    if s.posted.contains id then
      match s.jobs id with
      | .idle => none
      | .receiving => some (stretch { s with posted := s.posted.erase id } id .receiving (s.channel.recvHigh id))
      | .sending p item =>
        some (stretch { s with posted := s.posted.erase id } id (.sending p item)
          (s.channel.lift p ((s.channel.levels p).send id item)))
    else none
  | .close => some (post s s.channel.close)

section Invariant

open PriorityChannel

variable {s : State α} {pc : PriorityChannel α} {woken : List Nat} {id extra : Nat} {running : Option Nat}

def isReceiving : Job α → Bool
  | .receiving => true
  | _ => false

def receivers (jobs : Nat → Job α) (ids : List Nat) : Nat := ids.countP fun id => isReceiving (jobs id)

/-- Who waits is registered or posted exactly once, and the items that receivers are kept from are
covered by posted ones; a running coroutine may stand for `extra` items. -/
structure Orderly (s : State α) (running : Option Nat) (extra : Nat) : Prop where
  calm : s.channel.Calm
  once : ∀ j, s.channel.waits j + s.posted.count j ≤ 1
  absent : ∀ j, running = some j → s.channel.waits j + s.posted.count j = 0
  idle : ∀ j, running ≠ some j → s.jobs j = .idle → s.channel.waits j + s.posted.count j = 0
  registered : ∀ j, j ∈ (s.channel.levels .high).recvWaiters → isReceiving (s.jobs j) = true
  parked : ∀ j, running ≠ some j → isReceiving (s.jobs j) = true →
    j ∈ (s.channel.levels .high).recvWaiters ∨ j ∈ s.posted
  covered : s.channel.debt ≤ receivers s.jobs s.posted + extra

theorem orderly_initial (capacity : Nat) : Orderly (initial capacity : State α) none 0 where
  calm := ⟨fun _ => rfl, fun _ _ => rfl, fun _ => rfl⟩
  once _ := Nat.zero_le 1
  absent := nofun
  idle _ _ _ := rfl
  registered _ hMem := absurd hMem List.not_mem_nil
  parked := nofun
  covered := Nat.le_refl 0

theorem Orderly.start (hOrd : Orderly s none 0) (hIdle : s.jobs id = .idle) : Orderly s (some id) 0 := by
  refine { hOrd with
    absent := fun j hj => ?_
    idle := fun j _ hJob => hOrd.idle j (by simp) hJob
    parked := fun j _ hJob => hOrd.parked j (by simp) hJob }
  cases hj
  exact hOrd.idle id (by simp) hIdle

theorem Orderly.wake (hOrd : Orderly s none 0) (hPosted : id ∈ s.posted) :
    Orderly { s with posted := s.posted.erase id } (some id) (if isReceiving (s.jobs id) then 1 else 0) := by
  have hErase : ∀ j, s.channel.waits j + (s.posted.erase id).count j ≤ s.channel.waits j + s.posted.count j :=
    fun j => Nat.add_le_add_left (List.erase_sublist.count_le j) _
  refine { hOrd with
    once := fun j => Nat.le_trans (hErase j) (hOrd.once j)
    absent := ?absent
    idle := fun j _ hJob => Nat.le_zero.mp (hOrd.idle j (by simp) hJob ▸ hErase j)
    parked := ?parked
    covered := ?covered }
  case absent =>
    rintro j ⟨⟩
    have hOnce := hOrd.once id
    have hPos : 0 < s.posted.count id := List.count_pos_iff.mpr hPosted
    simp only [List.count_erase_self]
    omega
  case parked =>
    intro j hj hJob
    refine (hOrd.parked j (by simp) hJob).imp_right fun hMem => ?_
    exact (List.mem_erase_of_ne fun hEq => hj (by rw [hEq])).mpr hMem
  case covered =>
    have hCovered := hOrd.covered
    rw [receivers, (List.perm_cons_erase hPosted).countP_eq, List.countP_cons] at hCovered
    exact hCovered

/-- Coroutines are woken. Those of a reply are registered before, so the running one is not among
them. -/
theorem Orderly.post (hOrd : Orderly s running extra) (hSteady : Steady s.channel woken pc)
    (hDebt : pc.debt ≤ s.channel.debt - extra + receivers s.jobs woken) :
    Orderly { s with channel := pc, posted := s.posted ++ woken } running 0 := by
  have hSame : ∀ j, pc.waits j + (s.posted ++ woken).count j = s.channel.waits j + s.posted.count j := by
    intro j
    rw [← hSteady.waits j, List.count_append]
    omega
  refine ⟨hSteady.calm hOrd.calm, ?once, ?absent, ?idle, fun j hMem => hOrd.registered j (hSteady.kept j hMem), ?parked,
    ?covered⟩
  case once => simpa only [hSame] using hOrd.once
  case absent => simpa only [hSame] using hOrd.absent
  case idle => simpa only [hSame] using hOrd.idle
  case parked =>
    intro j hj hJob
    rcases hOrd.parked j hj hJob with hMem | hMem
    · exact (hSteady.moved j hMem).imp_right fun hWoken => List.mem_append_right _ hWoken
    · exact .inr (List.mem_append_left _ hMem)
  case covered =>
    have hCovered := hOrd.covered
    simp only [receivers, List.countP_append] at hCovered hDebt ⊢
    omega

theorem receivers_update {jobs : Nat → Job α} {ids : List Nat} (hAbsent : id ∉ ids) (job : Job α) :
    receivers (update jobs id job) ids = receivers jobs ids := by
  refine List.countP_congr fun j hMem => ?_
  have hj : j ≠ id := fun hEq => hAbsent (hEq ▸ hMem)
  rw [update_of_ne hj]

theorem Orderly.not_posted (hOrd : Orderly s (some id) extra) : id ∉ s.posted := by
  have hAbsent := hOrd.absent id rfl
  exact List.count_eq_zero.mp (by omega)

theorem Orderly.not_registered (hOrd : Orderly s (some id) extra) : id ∉ (s.channel.levels .high).recvWaiters := by
  have hAbsent := hOrd.absent id rfl
  simp only [PriorityChannel.waits, Channel.waits] at hAbsent
  exact List.count_eq_zero.mp (by omega)

theorem Orderly.finish (hOrd : Orderly s (some id) 0) : Orderly { s with jobs := update s.jobs id .idle } none 0 where
  calm := hOrd.calm
  once := hOrd.once
  absent := nofun
  idle j _ hJob := by
    by_cases hj : j = id
    · exact hOrd.absent j (by rw [hj])
    · simp only [update_of_ne hj] at hJob
      exact hOrd.idle j (by simpa using Ne.symm hj) hJob
  registered j hMem := by
    have hj : j ≠ id := fun hEq => hOrd.not_registered (hEq ▸ hMem)
    simp only [update_of_ne hj]
    exact hOrd.registered j hMem
  parked j _ hJob := by
    by_cases hj : j = id
    · subst hj
      simp [isReceiving] at hJob
    · simp only [update_of_ne hj] at hJob
      exact hOrd.parked j (by simpa using Ne.symm hj) hJob
  covered := by
    simp only [receivers_update hOrd.not_posted]
    exact hOrd.covered

theorem Orderly.park (hOrd : Orderly s (some id) extra) {job : Job α} (hJob : job ≠ .idle) {p : Priority}
    {ch : Channel α}
    (hCalm : (s.channel.setLevel p ch).Calm)
    (hWaits : ∀ j, ch.waits j = (s.channel.levels p).waits j + if id = j then 1 else 0)
    (hReceivers : ((s.channel.setLevel p ch).levels .high).recvWaiters =
      (if isReceiving job then [id] else []) ++ (s.channel.levels .high).recvWaiters)
    (hDebt : (s.channel.setLevel p ch).debt ≤ receivers s.jobs s.posted) :
    Orderly { s with channel := s.channel.setLevel p ch, jobs := update s.jobs id job } none 0 := by
  have hWaits : ∀ j, (s.channel.setLevel p ch).waits j = s.channel.waits j + if id = j then 1 else 0 := by
    intro j
    have hLevel := setLevel_waits s.channel p ch j
    have hHere := hWaits j
    omega
  generalize s.channel.setLevel p ch = pc at *
  refine ⟨hCalm, ?once, nofun, ?idle, ?registered, ?parked, ?covered⟩
  case once =>
    intro j
    have hHere := hWaits j
    have hOnce := hOrd.once j
    simp only
    split_ifs at hHere with hj
    · have hAbsent := hOrd.absent j (by rw [hj])
      omega
    · omega
  case idle =>
    intro j _ hIdle
    have hHere := hWaits j
    by_cases hj : j = id
    · subst hj
      simp only [update_self] at hIdle
      exact absurd hIdle hJob
    · simp only [update_of_ne hj] at hIdle
      have hBefore := hOrd.idle j (by simpa using Ne.symm hj) hIdle
      rw [if_neg (Ne.symm hj)] at hHere
      simp only
      omega
  case registered =>
    intro j hMem
    simp only [hReceivers, List.mem_append] at hMem
    by_cases hj : j = id
    · subst hj
      simp only [update_self]
      by_contra hNot
      rw [if_neg hNot] at hMem
      exact hMem.elim List.not_mem_nil hOrd.not_registered
    · simp only [update_of_ne hj]
      refine hOrd.registered j (hMem.resolve_left fun hHere => ?_)
      split_ifs at hHere
      · exact hj (List.mem_singleton.mp hHere)
      · exact List.not_mem_nil hHere
  case parked =>
    intro j _ hHere
    simp only [hReceivers, List.mem_append]
    by_cases hj : j = id
    · subst hj
      simp only [update_self] at hHere
      exact .inl (.inl (by rw [if_pos hHere]; exact List.mem_singleton_self j))
    · simp only [update_of_ne hj] at hHere
      exact (hOrd.parked j (by simpa using Ne.symm hj) hHere).imp_left .inr
  case covered =>
    simp only [receivers_update hOrd.not_posted]
    exact hDebt

theorem Orderly.parkReceiver (hOrd : Orderly s (some id) extra) (hEmpty : (s.channel.levels .high).items = [])
    (hOpen : s.channel.closed = false) :
    Orderly { s with channel := s.channel.parkReceiver id, jobs := update s.jobs id .receiving } none 0 := by
  refine hOrd.park (by simp) ?_ (fun j => ?_) ?_ ?_
  · refine hOrd.calm.setLevel rfl fun hClosed => ?_
    rw [hOpen] at hClosed
    cases hClosed rfl
  · simp only [Channel.waits, List.count_cons, beq_iff_eq]
    omega
  · rfl
  · simp only [debt, setLevel_same, hEmpty]
    exact Nat.zero_le _

theorem Orderly.parkSender (hOrd : Orderly s (some id) 0) (p : Priority) (item : α) :
    Orderly { s with channel := s.channel.parkSender p id, jobs := update s.jobs id (.sending p item) } none 0 := by
  have hSame : ((s.channel.parkSender p id).levels .high).recvWaiters = (s.channel.levels .high).recvWaiters ∧
      ((s.channel.parkSender p id).levels .high).items = (s.channel.levels .high).items := by
    by_cases hp : .high = p
    · subst hp
      simp only [PriorityChannel.parkSender, setLevel_same, and_self]
    · rw [PriorityChannel.parkSender, setLevel_other hp]
      exact ⟨rfl, rfl⟩
  refine hOrd.park (by simp) (hOrd.calm.setLevel rfl fun _ hNone => hNone) (fun j => ?_) hSame.1 ?_
  · simp only [Channel.waits, List.count_cons, beq_iff_eq]
    omega
  · have hCovered := hOrd.covered
    change (s.channel.parkSender p id).debt ≤ _
    rw [debt] at hCovered ⊢
    rw [hSame.1, hSame.2]
    exact hCovered

theorem Orderly.push (hOrd : Orderly s running 0) (p : Priority) (item : α) : Orderly { s with
      channel := s.channel.setLevel p ((s.channel.levels p).push item)
      posted := s.posted ++ (s.channel.levels p).recvWaiters.take 1 } running 0 := by
  refine hOrd.post (steady_push p item) ?_
  have hAll : receivers s.jobs ((s.channel.levels p).recvWaiters.take 1) =
      ((s.channel.levels p).recvWaiters.take 1).length := by
    refine List.countP_eq_length.mpr fun j hMem => ?_
    have hWaiting := List.mem_of_mem_take hMem
    by_cases hp : p = .high
    · subst hp
      exact hOrd.registered j hWaiting
    · rw [hOrd.calm.others p hp] at hWaiting
      cases hWaiting
  rw [hAll]
  exact debt_push p item

theorem Orderly.same (hOrd : Orderly s running 0) : Orderly { s with posted := s.posted ++ [] } running 0 := by
  rw [List.append_nil]
  exact hOrd

theorem Orderly.poll (hOrd : Orderly s running 0) (ps : List Priority) : Orderly { s with
      channel := (s.channel.pollLevels ps).state
      posted := s.posted ++ (s.channel.pollLevels ps).woken } running 0 :=
  hOrd.post (steady_poll s.channel ps).1 (Nat.le_add_right_of_le (steady_poll s.channel ps).2)

/-- A stretch of `send` at a level keeps the order. -/
theorem Orderly.sendStretch (hOrd : Orderly s (some id) 0) (p : Priority) (item : α) :
    Orderly (stretch s id (.sending p item) (s.channel.lift p ((s.channel.levels p).send id item))) none 0 := by
  rw [Channel.send]
  split_ifs
  · rw [lift, setLevel_self]
    exact hOrd.same.finish
  · simp only [stretch, PriorityRuns.post, lift, List.append_nil]
    exact hOrd.parkSender p item
  · exact (hOrd.push p item).finish

theorem Orderly.recvHighStretch (hOrd : Orderly s (some id) 1) :
    Orderly (stretch s id .receiving (s.channel.recvHigh id)) none 0 := by
  rcases s.channel.recvHigh_cases id with ⟨item, hRecv⟩ | ⟨hEmpty, hOpen, hRecv⟩ | ⟨result, hClosed, hRecv⟩
  · rw [hRecv]
    exact (hOrd.post (steady_tryRecv .high) (Nat.le_add_right_of_le ((debt_tryRecv .high).2 rfl))).finish
  · rw [hRecv]
    simp only [stretch, PriorityRuns.post, List.append_nil]
    exact hOrd.parkReceiver hEmpty (hOpen ▸ (hOrd.calm.flags .high).symm)
  · rw [hRecv]
    have hDebt : s.channel.debt = 0 := by
      rw [debt, hOrd.calm.silent (hClosed ▸ (hOrd.calm.flags .high).symm)]
      rfl
    have hPoll := steady_poll s.channel [.normal, .low]
    exact (hOrd.post hPoll.1 (by omega)).finish

/-- Every step keeps the order. -/
theorem Orderly.next {s' : State α} {label : Label α} (hOrd : Orderly s none 0) (hNext : next s label = some s') :
    Orderly s' none 0 := by
  cases label with rw [PriorityRuns.next] at hNext
  | trySend item p =>
    cases hNext
    rw [PriorityChannel.trySend, Channel.trySend]
    split_ifs
    · exact hOrd.same
    · rw [lift, setLevel_self]
      exact hOrd.same
    · exact hOrd.push p item
  | tryRecv =>
    cases hNext
    exact hOrd.poll _
  | send id item p =>
    split at hNext
    case h_1 hIdle =>
      cases hNext
      rw [PriorityChannel.send]
      split_ifs
      · exact (hOrd.start hIdle).same.finish
      · exact (hOrd.start hIdle).sendStretch p item
    case h_2 => cases hNext
  | recv id =>
    split at hNext
    case h_1 hIdle =>
      cases hNext
      rcases s.channel.recv_cases hOrd.calm id with ⟨result, hRecv⟩ | ⟨hEmpty, hOpen, hRecv⟩
      · rw [hRecv]
        exact ((hOrd.start hIdle).poll _).finish
      · rw [hRecv]
        simp only [stretch, PriorityRuns.post, List.append_nil]
        exact (hOrd.start hIdle).parkReceiver (hEmpty .high) hOpen
    case h_2 => cases hNext
  | wake id =>
    split at hNext
    case isTrue hPosted =>
      have hOrd' := hOrd.wake (List.contains_iff_mem.mp hPosted)
      split at hNext
      case h_1 => cases hNext
      case h_2 hJob =>
        cases hNext
        rw [hJob] at hOrd'
        exact hOrd'.recvHighStretch
      case h_3 p item hJob =>
        cases hNext
        rw [hJob] at hOrd'
        exact hOrd'.sendStretch p item
    case isFalse => cases hNext
  | close =>
    cases hNext
    obtain ⟨hSteady, hDebt⟩ := steady_close s.channel
    exact hOrd.post hSteady (by omega)

end Invariant

section Awake

variable {s s' : State α} {label : Label α} {labels : List (Label α)} {capacity : Nat}

/-- If no wake-up is pending, no `recv` is suspended while a level holds an item. -/
def Awake (s : State α) : Prop :=
  s.posted = [] → ∀ id, isReceiving (s.jobs id) = true → ∀ p, (s.channel.levels p).items = []

/-- A step that puts no item into the two lower levels while a `recv` is suspended. -/
def Considerate (s : State α) (label : Label α) : Prop :=
  ∀ s', next s label = some s' → ∀ id, isReceiving (s.jobs id) = true → ∀ p, p ≠ .high →
    (s'.channel.levels p).items.length ≤ (s.channel.levels p).items.length

/-- With nothing posted, a waiting receiver means an empty highest level. -/
theorem Orderly.high_empty (hOrd : Orderly s none 0) (hPosted : s.posted = []) {id : Nat}
    (hJob : isReceiving (s.jobs id) = true) : (s.channel.levels .high).items = [] := by
  have hCovered := hOrd.covered
  rcases hOrd.parked id (by simp) hJob with hMem | hMem
  · have hSome : (s.channel.levels .high).recvWaiters.isEmpty = false := by
      rw [List.isEmpty_eq_false_iff]
      exact List.ne_nil_of_mem hMem
    rw [hPosted, PriorityChannel.debt, hSome] at hCovered
    exact List.eq_nil_of_length_eq_zero (Nat.le_zero.mp hCovered)
  · rw [hPosted] at hMem
    cases hMem

theorem receiving_of_stretch {ρ : Type} {id j : Nat} {job : Job α} {reply : Reply (Stretch ρ) (PriorityChannel α)}
    (hJob : isReceiving ((stretch s id job reply).jobs j) = true) :
    isReceiving (s.jobs j) = true ∨ (isReceiving job = true ∧ reply.result = .suspended) := by
  simp only [stretch] at hJob
  by_cases hj : j = id
  · subst hj
    rw [update_self] at hJob
    split at hJob
    · cases hJob
    case h_2 hResult => exact .inr ⟨hJob, hResult⟩
  · rw [update_of_ne hj] at hJob
    exact .inl hJob

/-- Who comes to be suspended in `recv` found all levels empty. -/
theorem receiving_of_next (hOrd : Orderly s none 0) (hNext : next s label = some s') {id : Nat}
    (hJob : isReceiving (s'.jobs id) = true) :
    (∃ j, isReceiving (s.jobs j) = true) ∨ ∀ p, (s'.channel.levels p).items = [] := by
  cases label with rw [next] at hNext
  | trySend item p | tryRecv | close =>
    cases hNext
    exact .inl ⟨id, hJob⟩
  | send sender item p =>
    split at hNext
    case h_1 =>
      cases hNext
      rcases receiving_of_stretch hJob with hBefore | ⟨hSender, -⟩
      · exact .inl ⟨id, hBefore⟩
      · cases hSender
    case h_2 => cases hNext
  | recv receiver =>
    split at hNext
    case h_1 =>
      cases hNext
      rcases receiving_of_stretch hJob with hBefore | ⟨-, hSuspended⟩
      · exact .inl ⟨id, hBefore⟩
      · rcases s.channel.recv_cases hOrd.calm receiver with ⟨result, hRecv⟩ | ⟨hEmpty, -, hRecv⟩
        · rw [hRecv] at hSuspended
          cases hSuspended
        · refine .inr fun p => ?_
          simp only [stretch, post, hRecv, PriorityChannel.parkReceiver]
          by_cases hp : p = .high
          · subst hp
            exact hEmpty .high
          · rw [PriorityChannel.setLevel_other hp]
            exact hEmpty p
    case h_2 => cases hNext
  | wake waiter =>
    split at hNext
    case isTrue =>
      split at hNext
      case h_1 => cases hNext
      case h_2 hReceiver => exact .inl ⟨waiter, by rw [hReceiver]; rfl⟩
      case h_3 p item hSender =>
        cases hNext
        rcases receiving_of_stretch hJob with hBefore | ⟨hSender, -⟩
        · exact .inl ⟨id, hBefore⟩
        · cases hSender
    case isFalse => cases hNext

def LowerEmpty (s : State α) : Prop :=
  ∀ id, isReceiving (s.jobs id) = true → ∀ p, p ≠ .high → (s.channel.levels p).items = []

theorem lowerEmpty_next (hOrd : Orderly s none 0) (hEmpty : LowerEmpty s) (hConsiderate : Considerate s label)
    (hNext : next s label = some s') : LowerEmpty s' := by
  intro id hJob p hp
  rcases receiving_of_next hOrd hNext hJob with ⟨j, hBefore⟩ | hAll
  · have hLength := hConsiderate s' hNext j hBefore p hp
    rw [hEmpty j hBefore p hp] at hLength
    exact List.eq_nil_of_length_eq_zero (Nat.le_zero.mp hLength)
  · exact hAll p

theorem run_orderly (hRun : run next labels (initial capacity) = some s) : Orderly s none 0 :=
  run_invariant (P := (Orderly · none 0)) (fun _ _ _ => Orderly.next) (orderly_initial capacity) hRun

/-- No available item is slept on exactly if, with no wake-up pending and a `recv` suspended, the two lower levels
hold nothing; so it is if nothing is put into them while a `recv` is suspended. -/
theorem awake_iff (hRun : LabelledRuns.run next labels (initial capacity) = some s) :
    (Awake s ↔ (s.posted = [] → ∀ id, isReceiving (s.jobs id) = true →
      (s.channel.levels .normal).items = [] ∧ (s.channel.levels .low).items = [])) ∧
    (LabelledRuns.Meets next Considerate labels (initial capacity) → Awake s) := by
  have hOrd := run_orderly hRun
  constructor
  · constructor
    · exact fun hAwake hPosted id hJob => ⟨hAwake hPosted id hJob .normal, hAwake hPosted id hJob .low⟩
    · intro hLower hPosted id hJob p
      obtain ⟨hNormal, hLow⟩ := hLower hPosted id hJob
      cases p with
      | high => exact hOrd.high_empty hPosted hJob
      | normal => exact hNormal
      | low => exact hLow
  · intro hMeets hPosted id hJob p
    have hKept : Orderly s none 0 ∧ LowerEmpty s := by
      refine run_invariant_of (P := fun s => Orderly s none 0 ∧ LowerEmpty s) ?_
        ⟨orderly_initial capacity, nofun⟩ hMeets hRun
      intro before label after hBefore hConsiderate hStep
      exact ⟨hBefore.1.next hStep, lowerEmpty_next hBefore.1 hBefore.2 hConsiderate hStep⟩
    by_cases hp : p = .high
    · subst hp
      exact hOrd.high_empty hPosted hJob
    · exact hKept.2 id hJob p hp

/-- No coroutine is forgotten or resumed twice: it is registered or posted at most once, while it
waits in `recv` exactly once, and without a call not at all. -/
theorem resumed_once (capacity id : Nat) (labels : List (Label α)) : Always next (fun s =>
    s.channel.waits id + s.posted.count id ≤ 1 ∧
      (isReceiving (s.jobs id) = true → s.channel.waits id + s.posted.count id = 1) ∧
      (s.jobs id = .idle → s.channel.waits id + s.posted.count id = 0)) labels (initial capacity) := by
  refine always_of_run (fun labels s hRun => ?_) labels
  have hOrd := run_orderly hRun
  have hOnce := hOrd.once id
  refine ⟨hOnce, fun hJob => ?_, hOrd.idle id (by simp)⟩
  rcases hOrd.parked id (by simp) hJob with hWaits | hPosted
  · have hCount := List.count_pos_iff.mpr hWaits
    rw [PriorityChannel.waits, Channel.waits] at hOnce ⊢
    omega
  · have hCount := List.count_pos_iff.mpr hPosted
    omega

/-- An item of the highest level wakes one of two receivers, which takes it; the other goes on
waiting. -/
theorem awake_high : ∃ s, LabelledRuns.run next [.recv 0, .recv 1, .trySend 7 .high, .wake 1]
    (initial 2 : State Nat) = some s ∧ s.posted = [] ∧ isReceiving (s.jobs 1) = false ∧
      isReceiving (s.jobs 0) = true ∧ Awake s := by
  have hRun : run next [.recv 0, .recv 1, .trySend 7 .high, .wake 1] (initial 2 : State Nat) = some _ := rfl
  exact ⟨_, hRun, rfl, rfl, rfl, (awake_iff hRun).1.mpr fun _ _ _ => ⟨rfl, rfl⟩⟩

/-- An item of a lower level wakes nobody: the receiver stays suspended with the item queued. -/
theorem awake_normal :
    ∃ s, LabelledRuns.run next [.recv 0, .trySend 7 .normal] (initial 2 : State Nat) = some s ∧ s.posted = [] ∧
      isReceiving (s.jobs 0) = true ∧ (s.channel.levels .normal).items = [7] ∧ ¬Awake s := by
  refine ⟨_, rfl, rfl, rfl, rfl, fun hAwake => ?_⟩
  have hItems := hAwake rfl 0 rfl .normal
  cases hItems

end Awake

end PriorityRuns

end Pipeline
