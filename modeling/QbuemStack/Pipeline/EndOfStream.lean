import QbuemStack.Base.LabelledRuns
import QbuemStack.Pipeline.AsyncChannel

/-! The end of a stream. Each attempt to send, each poll, the close and each test of the closed flag
is one step. The three channels differ in their senders: the first tests the flag and then sends
whatever the flag is by then, the second tests it again with the send, the third tests it only with
the send and after a failure. -/
namespace Pipeline

open Function
open List (any_append any_cons any_eq_true countP_append)

namespace EndOfStream

inductive Kind where
  | async
  | spsc
  | shm
deriving DecidableEq

inductive Event (α : Type) where
  | sent (item : α)
  | received (item : α)
  | polledEmpty (receiver : Nat)
  | closed
  | endOfStream (receiver : Nat)

inductive Sender (α : Type) where
  | idle
  | testing (item : α)
  | trying (item : α)

inductive Receiver where
  | idle
  | polling
  | testing
deriving DecidableEq

structure State (α : Type) where
  channel : Channel α
  senders : Nat → Sender α
  receivers : Nat → Receiver
  log : List (Event α)

inductive Label (α : Type) where
  | send (sender : Nat) (item : α)
  | testSender (sender : Nat)
  | attempt (sender : Nat)
  | trySend (item : α)
  | recv (receiver : Nat)
  | poll (receiver : Nat)
  | testReceiver (receiver : Nat)
  | tryRecv
  | close

variable {α : Type}

def initial (capacity : Nat) : State α := ⟨Channel.new capacity, fun _ => .idle, fun _ => .idle, []⟩

def accept (s : State α) (item : α) : State α :=
  { s with channel := s.channel.push item, log := s.log ++ [.sent item] }

/-- An attempt fails on a full ring; only `try_send_inner` does not look at the flag. -/
def refuses (kind : Kind) (channel : Channel α) : Bool := (kind != .async && channel.closed) || channel.isFull

def next (kind : Kind) (s : State α) : Label α → Option (State α)
  | .send p item =>
    match s.senders p with
    | .idle =>
      some { s with senders := Function.update s.senders p (if kind = .shm then .trying item else .testing item) }
    | _ => none
  | .testSender p =>
    match s.senders p with
    | .testing item =>
      some { s with senders := Function.update s.senders p (if s.channel.closed then .idle else .trying item) }
    | _ => none
  | .attempt p =>
    match s.senders p with
    | .trying item =>
      if refuses kind s.channel then some { s with senders := Function.update s.senders p (.testing item) }
      else some (accept { s with senders := Function.update s.senders p .idle } item)
    | _ => none
  | .trySend item => if (s.channel.trySend item).result then some (accept s item) else some s
  | .recv c =>
    match s.receivers c with
    | .idle => some { s with receivers := Function.update s.receivers c .polling }
    | _ => none
  | .poll c =>
    match s.receivers c, s.channel.tryRecv.result with
    | .polling, some item =>
      some { s with
        channel := s.channel.tryRecv.state
        receivers := Function.update s.receivers c .idle
        log := s.log ++ [.received item] }
    | .polling, none =>
      some { s with receivers := Function.update s.receivers c .testing, log := s.log ++ [.polledEmpty c] }
    | _, _ => none
  | .testReceiver c =>
    match s.receivers c with
    | .testing =>
      if s.channel.closed then
        some { s with receivers := Function.update s.receivers c .idle, log := s.log ++ [.endOfStream c] }
      else some { s with receivers := Function.update s.receivers c .polling }
    | _ => none
  | .tryRecv =>
    match s.channel.tryRecv.result with
    | some item => some { s with channel := s.channel.tryRecv.state, log := s.log ++ [.received item] }
    | none => some s
  | .close =>
    if s.channel.closed then none else some { s with channel := s.channel.close.state, log := s.log ++ [.closed] }

section Histories

def isClosed : Event α → Bool
  | .closed => true
  | _ => false

def isPoll (c : Nat) : Event α → Bool
  | .polledEmpty receiver => receiver == c
  | _ => false

def sentIn (log : List (Event α)) : List α :=
  log.filterMap fun
    | .sent item => some item
    | _ => none

def receivedIn (log : List (Event α)) : List α :=
  log.filterMap fun
    | .received item => some item
    | _ => none

def beforeClose (log : List (Event α)) : List (Event α) := log.takeWhile fun event => !isClosed event

def sincePoll (c : Nat) (log : List (Event α)) : List (Event α) :=
  (log.reverse.takeWhile fun event => !isPoll c event).reverse

/-- The channel is closed, and every item sent before the close was received. -/
def Drained (log : List (Event α)) : Prop :=
  log.any isClosed = true ∧ sentIn (beforeClose log) <+: receivedIn log

/-- What was sent between the last empty poll of a receiver and a close after it. -/
def overtaking (c : Nat) (log : List (Event α)) : List α :=
  if (sincePoll c log).any isClosed then sentIn (beforeClose (sincePoll c log)) else []

end Histories

section Steps

variable {kind : Kind} {s s' : State α}

def NoneTests (s s' : State α) : Prop := ∀ c, s'.receivers c = .testing → s.receivers c = .testing

inductive Effect (s s' : State α) : Prop where
  | silent (hChannel : s'.channel = s.channel) (hLog : s'.log = s.log) (hTests : NoneTests s s')
  | sent (item : α) (hChannel : s'.channel = s.channel.push item) (hLog : s'.log = s.log ++ [.sent item])
      (hTests : NoneTests s s')
  | received (item : α) (hItems : s.channel.items = item :: s'.channel.items)
    (hFlag : s'.channel.closed = s.channel.closed)
      (hLog : s'.log = s.log ++ [.received item]) (hTests : NoneTests s s')
  | polledEmpty (c : Nat) (hEmpty : s.channel.items = []) (hChannel : s'.channel = s.channel)
      (hLog : s'.log = s.log ++ [.polledEmpty c]) (hTests : s'.receivers = Function.update s.receivers c .testing)
  | endOfStream (c : Nat) (hFlag : s.channel.closed = true) (hChannel : s'.channel = s.channel)
      (hLog : s'.log = s.log ++ [.endOfStream c]) (hTests : NoneTests s s')
  | closed (hOpen : s.channel.closed = false) (hItems : s'.channel.items = s.channel.items)
      (hFlag : s'.channel.closed = true) (hLog : s'.log = s.log ++ [.closed]) (hTests : NoneTests s s')

theorem noneTests_update {receivers : Nat → Receiver} {c : Nat} {phase : Receiver} (hPhase : phase ≠ .testing)
    {senders : Nat → Sender α} {channel : Channel α} {log : List (Event α)} (hSame : s.receivers = receivers) :
    NoneTests s ⟨channel, senders, update receivers c phase, log⟩ := by
  intro d hd
  by_cases hc : d = c
  · subst hc
    simp only [update_self] at hd
    exact absurd hd hPhase
  · simp only [update_of_ne hc] at hd
    rw [hSame]
    exact hd

theorem tryRecv_result (ch : Channel α) : (ch.tryRecv.result = none ∧ ch.items = []) ∨
      ∃ item, ch.tryRecv.result = some item ∧ ch.items = item :: ch.tryRecv.state.items ∧
        ch.tryRecv.state.closed = ch.closed := by
  rw [Channel.tryRecv]
  cases ch.items with
  | nil => exact .inl ⟨rfl, rfl⟩
  | cons item items => exact .inr ⟨item, rfl, rfl, rfl⟩

theorem next_effect {label : Label α} (hNext : next kind s label = some s') : Effect s s' := by
  cases label with rw [next] at hNext
  | send p item | testSender p =>
    split at hNext <;> cases hNext
    exact .silent rfl rfl fun c hc => hc
  | attempt p =>
    split at hNext
    case h_1 item hPhase =>
      split at hNext <;> cases hNext
      · exact .silent rfl rfl fun c hc => hc
      · exact .sent item rfl rfl fun c hc => hc
    case h_2 => cases hNext
  | trySend item =>
    split at hNext <;> cases hNext
    · exact .sent item rfl rfl fun c hc => hc
    · exact .silent rfl rfl fun c hc => hc
  | recv c =>
    split at hNext <;> cases hNext
    exact .silent rfl rfl (noneTests_update (by decide) rfl)
  | poll c =>
    rcases tryRecv_result s.channel with ⟨hNone, hEmpty⟩ | ⟨item, hSome, hItems, hFlag⟩
    · rw [hNone] at hNext
      split at hNext
      case h_1 found hPhase hFound => cases hFound
      case h_2 =>
        cases hNext
        exact .polledEmpty c hEmpty rfl rfl rfl
      case h_3 => cases hNext
    · rw [hSome] at hNext
      split at hNext
      case h_1 found hPhase hFound =>
        cases hFound
        cases hNext
        exact .received item hItems hFlag rfl (noneTests_update (by decide) rfl)
      case h_2 hFound => cases hFound
      case h_3 => cases hNext
  | testReceiver c =>
    split at hNext
    case h_1 hPhase =>
      split at hNext
      case isTrue hFlag =>
        cases hNext
        exact .endOfStream c hFlag rfl rfl (noneTests_update (by decide) rfl)
      case isFalse =>
        cases hNext
        exact .silent rfl rfl (noneTests_update (by decide) rfl)
    case h_2 => cases hNext
  | tryRecv =>
    rcases tryRecv_result s.channel with ⟨hNone, hEmpty⟩ | ⟨item, hSome, hItems, hFlag⟩
    · rw [hNone] at hNext
      cases hNext
      exact .silent rfl rfl fun c hc => hc
    · rw [hSome] at hNext
      cases hNext
      exact .received item hItems hFlag rfl fun c hc => hc
  | close =>
    split at hNext
    case isTrue => cases hNext
    case isFalse hOpen =>
      cases hNext
      exact .closed (Bool.eq_false_iff.mpr hOpen) rfl rfl rfl fun c hc => hc

end Steps

section Invariant

variable {kind : Kind} {s s' : State α} {c : Nat} {log : List (Event α)}

theorem sentIn_append (log more : List (Event α)) : sentIn (log ++ more) = sentIn log ++ sentIn more :=
  List.filterMap_append

theorem receivedIn_append (log more : List (Event α)) : receivedIn (log ++ more) = receivedIn log ++ receivedIn more :=
  List.filterMap_append

def PolledEmpty (c : Nat) (log : List (Event α)) : Prop :=
  ∃ before after, log = before ++ .polledEmpty c :: after ∧ after.any (isPoll c) = false ∧
    sentIn before = receivedIn before

theorem PolledEmpty.append (hPolled : PolledEmpty c log) {event : Event α} (hOther : isPoll c event = false) :
    PolledEmpty c (log ++ [event]) := by
  obtain ⟨before, after, rfl, hLast, hEmpty⟩ := hPolled
  refine ⟨before, after ++ [event], by rw [List.append_assoc, List.cons_append], ?_, hEmpty⟩
  rw [any_append, hLast, any_cons, hOther]
  rfl

structure Consistent (s : State α) : Prop where
  balance : sentIn s.log = receivedIn s.log ++ s.channel.items
  flag : s.log.any isClosed = s.channel.closed
  once : s.log.countP isClosed ≤ 1
  polled : ∀ c, s.receivers c = .testing → PolledEmpty c s.log

theorem consistent_initial (capacity : Nat) : Consistent (initial capacity : State α) where
  balance := rfl
  flag := rfl
  once := Nat.zero_le 1
  polled := nofun

theorem Consistent.note (hCons : Consistent s) {event : Event α} (hLog : s'.log = s.log ++ [event])
    (hBalance : sentIn (s.log ++ [event]) = receivedIn (s.log ++ [event]) ++ s'.channel.items)
    (hFlag : s'.channel.closed = s.channel.closed) (hClosed : isClosed event = false)
    (hPoll : ∀ c, isPoll c event = false) (hTests : NoneTests s s') : Consistent s' where
  balance := by rw [hLog, hBalance]
  flag := by rw [hLog, any_append, hCons.flag, any_cons, hClosed, hFlag]; simp
  once := by
    rw [hLog, countP_append, List.countP_singleton, hClosed]
    exact hCons.once
  polled c hc := by
    rw [hLog]
    exact (hCons.polled c (hTests c hc)).append (hPoll c)

/-- Every step keeps the books and what the receivers know. -/
theorem Consistent.next (hCons : Consistent s) {label : Label α} (hNext : next kind s label = some s') :
    Consistent s' := by
  cases next_effect hNext with
  | silent hChannel hLog hTests =>
    obtain ⟨hBalance, hFlag, hOnce, hPolled⟩ := hCons
    exact ⟨by rw [hLog, hChannel, hBalance], by rw [hLog, hChannel, hFlag], by rw [hLog]; exact hOnce,
      fun c hc => by rw [hLog]; exact hPolled c (hTests c hc)⟩
  | sent item hChannel hLog hTests =>
    refine hCons.note hLog ?_ (by rw [hChannel]; rfl) rfl (fun c => rfl) hTests
    rw [sentIn_append, receivedIn_append, hCons.balance, hChannel, List.append_assoc]
    simp [sentIn, receivedIn, Channel.push]
  | received item hItems hFlag hLog hTests =>
    refine hCons.note hLog ?_ hFlag rfl (fun c => rfl) hTests
    rw [sentIn_append, receivedIn_append, hCons.balance, hItems]
    simp [sentIn, receivedIn]
  | polledEmpty c hEmpty hChannel hLog hTests =>
    constructor
    case balance =>
      rw [hLog, sentIn_append, receivedIn_append, hCons.balance, hChannel]
      simp [sentIn, receivedIn, hEmpty]
    case flag =>
      rw [hLog, any_append, hCons.flag, hChannel]
      simp [isClosed]
    case once =>
      rw [hLog, countP_append]
      exact hCons.once
    case polled =>
      intro d hd
      rw [hLog]
      by_cases hc : d = c
      · subst hc
        refine ⟨s.log, [], rfl, rfl, ?_⟩
        rw [hCons.balance, hEmpty, List.append_nil]
      · rw [hTests, update_of_ne hc] at hd
        refine (hCons.polled d hd).append ?_
        rw [isPoll]
        exact beq_false_of_ne (Ne.symm hc)
  | endOfStream c hFlag hChannel hLog hTests =>
    refine hCons.note hLog ?_ (by rw [hChannel]) rfl (fun c => rfl) hTests
    rw [sentIn_append, receivedIn_append, hCons.balance, hChannel]
    simp [sentIn, receivedIn]
  | closed hOpen hItems hFlag hLog hTests =>
    have hNone : s.log.countP isClosed = 0 := by
      rw [List.countP_eq_zero]
      intro event hMem hClosed
      have hAny : s.log.any isClosed = true := any_eq_true.mpr ⟨event, hMem, hClosed⟩
      rw [hCons.flag, hOpen] at hAny
      cases hAny
    constructor
    case balance =>
      rw [hLog, sentIn_append, receivedIn_append, hCons.balance, hItems]
      simp [sentIn, receivedIn]
    case flag => rw [hLog, any_append, hFlag]; simp [isClosed]
    case once =>
      rw [hLog, countP_append, hNone]
      exact Nat.le_refl 1
    case polled =>
      intro d hd
      rw [hLog]
      exact (hCons.polled d (hTests d hd)).append rfl

end Invariant

section Drained

variable {kind : Kind} {s s' : State α} {c capacity : Nat} {labels : List (Label α)} {before after : List (Event α)}

theorem sincePoll_eq (hLast : after.any (isPoll c) = false) :
    sincePoll c (before ++ .polledEmpty c :: after) = after := by
  have hNone : ∀ event ∈ after.reverse, (!isPoll c event) = true := by
    intro event hMem
    rw [Bool.not_eq_true', ← Bool.not_eq_true]
    intro hPoll
    have hAny : after.any (isPoll c) = true := any_eq_true.mpr ⟨event, List.mem_reverse.mp hMem, hPoll⟩
    rw [hLast] at hAny
    cases hAny
  have hHere : isPoll c (.polledEmpty c : Event α) = true := beq_self_eq_true c
  rw [sincePoll, List.reverse_append, List.reverse_cons, List.append_assoc, List.takeWhile_append_of_pos hNone,
    List.singleton_append, List.takeWhile_cons, hHere]
  simp

theorem beforeClose_append (hOpen : before.any isClosed = false) :
    beforeClose (before ++ after) = before ++ beforeClose after := by
  refine List.takeWhile_append_of_pos fun event hMem => ?_
  rw [Bool.not_eq_true', ← Bool.not_eq_true]
  intro hClosed
  have hAny : before.any isClosed = true := any_eq_true.mpr ⟨event, hMem, hClosed⟩
  rw [hOpen] at hAny
  cases hAny

theorem beforeClose_of_closed (hClosed : before.any isClosed = true) : beforeClose (before ++ after) <+: before := by
  induction before with
  | nil => cases hClosed
  | cons event before ih =>
    rw [beforeClose, List.cons_append, List.takeWhile_cons]
    cases hEvent : isClosed event with
    | true => exact List.nil_prefix
    | false =>
      rw [any_cons, hEvent, Bool.false_or] at hClosed
      exact List.cons_prefix_cons.mpr ⟨rfl, ih hClosed⟩

theorem sentIn_prefix {log more : List (Event α)} (hPrefix : log <+: more) : sentIn log <+: sentIn more := by
  obtain ⟨rest, rfl⟩ := hPrefix
  rw [sentIn_append]
  exact List.prefix_append _ _

theorem testing_of_end (hNext : next kind s (.testReceiver c) = some s')
    (hEnd : s'.log = s.log ++ [.endOfStream c]) : s.receivers c = .testing ∧ s.channel.closed = true := by
  rw [next] at hNext
  split at hNext
  case h_1 hPhase =>
    split at hNext
    case isTrue hFlag => exact ⟨hPhase, hFlag⟩
    case isFalse =>
      cases hNext
      simp at hEnd
  case h_2 => cases hNext

/-- At the end of the stream every item sent before the close was received exactly if those sent between the
receiver's last empty poll and the close were received by others. -/
theorem drained_iff (hRun : LabelledRuns.run (next kind) labels (initial capacity) = some s)
    (hNext : next kind s (.testReceiver c) = some s') (hEnd : s'.log = s.log ++ [.endOfStream c]) :
    Drained s.log ↔ overtaking c s.log <+: receivedIn (sincePoll c s.log) := by
  have hCons := LabelledRuns.run_invariant (fun _ _ _ hBefore hStep => Consistent.next hBefore hStep)
    (consistent_initial capacity) hRun
  obtain ⟨hTesting, hFlag⟩ := testing_of_end hNext hEnd
  obtain ⟨before, after, hLog, hLast, hEmpty⟩ := hCons.polled c hTesting
  have hAny : s.log.any isClosed = true := hCons.flag.trans hFlag
  have hReceived : receivedIn s.log = receivedIn before ++ receivedIn after := by
    rw [hLog, receivedIn_append]
    rfl
  rw [hLog, any_append, any_cons] at hAny
  have hOnce := hCons.once
  rw [hLog, countP_append, List.countP_cons] at hOnce
  rw [Drained, overtaking, hReceived, hLog, sincePoll_eq hLast, any_append, any_cons]
  cases hBefore : before.any isClosed with
  | true =>
    have hAfter : after.any isClosed = false := by
      obtain ⟨event, hMem, hClosed⟩ := any_eq_true.mp hBefore
      have hPos : 0 < before.countP isClosed := List.countP_pos_iff.mpr ⟨event, hMem, hClosed⟩
      rw [← Bool.not_eq_true]
      intro hAgain
      obtain ⟨again, hMem', hClosed'⟩ := any_eq_true.mp hAgain
      have hMore : 0 < after.countP isClosed := List.countP_pos_iff.mpr ⟨again, hMem', hClosed'⟩
      omega
    rw [hAfter]
    have hGone : sentIn (beforeClose (before ++ .polledEmpty c :: after)) <+: receivedIn before :=
      hEmpty ▸ sentIn_prefix (beforeClose_of_closed hBefore)
    exact ⟨fun _ => List.nil_prefix, fun _ => ⟨rfl, hGone.trans (List.prefix_append _ _)⟩⟩
  | false =>
    rw [hBefore] at hAny
    have hAfter : after.any isClosed = true := hAny
    have hSplit : sentIn (beforeClose (before ++ .polledEmpty c :: after)) =
        receivedIn before ++ sentIn (beforeClose after) := by
      rw [beforeClose_append hBefore, sentIn_append, hEmpty]
      rfl
    rw [hAfter, hSplit, List.prefix_append_right_inj]
    exact ⟨fun h => h.2, fun h => ⟨rfl, h⟩⟩

def lateState : State Nat :=
  ⟨⟨2, [], true, [], []⟩, fun _ => .idle, Function.update (Function.update (fun _ => .idle) 0 .polling) 0 .testing,
    [.sent 7, .received 7, .closed, .polledEmpty 0]⟩

/-- A receiver that polls after the close returns the end of the stream only when the channel is
drained. -/
theorem drained_iff_late :
    LabelledRuns.run (next .async) [.trySend 7, .tryRecv, .close, .recv 0, .poll 0] (initial 2) = some lateState ∧
      Drained lateState.log := by
  have hRun : LabelledRuns.run (next .async) [.trySend 7, .tryRecv, .close, .recv 0, .poll 0] (initial 2) =
      some lateState := rfl
  obtain ⟨s', hNext, hEnd⟩ : ∃ s', next .async lateState (.testReceiver 0) = some s' ∧
      s'.log = lateState.log ++ [.endOfStream 0] := ⟨_, rfl, rfl⟩
  exact ⟨hRun, (drained_iff hRun hNext hEnd).mpr List.nil_prefix⟩

/-- The receiver returns the end of the stream while an item sent before the close is queued. -/
def Overtaken (kind : Kind) : Prop :=
  ∃ s, LabelledRuns.run (next kind) [.recv 0, .poll 0, .trySend 7, .close, .testReceiver 0]
      (initial 2 : State Nat) = some s ∧ s.channel.items = [7] ∧ .endOfStream 0 ∈ s.log ∧ ¬Drained s.log

/-- This happens in each of the three channels. -/
theorem drained_overtaken : Overtaken .async ∧ Overtaken .spsc ∧ Overtaken .shm := by
  have hLeft : ¬Drained [.polledEmpty 0, .sent 7, .closed, (.endOfStream 0 : Event Nat)] := by
    rintro ⟨-, hPrefix⟩
    exact absurd (List.IsPrefix.length_le hPrefix) (by decide)
  refine ⟨⟨_, rfl, rfl, ?_, hLeft⟩, ⟨_, rfl, rfl, ?_, hLeft⟩, ⟨_, rfl, rfl, ?_, hLeft⟩⟩
  all_goals simp

end Drained

end EndOfStream

end Pipeline
