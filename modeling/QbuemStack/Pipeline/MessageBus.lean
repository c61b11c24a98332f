import Mathlib.Data.List.AList
import QbuemStack.Base.LabelledRuns
import QbuemStack.Pipeline.AsyncChannel

/-! The bus with topics in one process. A publication works on the list of subscriptions that it
found, and other calls run while it awaits a handler. A message is a value with its type. -/
namespace Pipeline

open List (mem_append mem_singleton)
open Option (any_some getD_some map_id')

namespace Bus

variable {τ α : Type}

section Source

structure Msg (τ α : Type) where
  type : τ
  value : α
deriving DecidableEq

structure StreamChannel (τ α : Type) where
  type : τ
  channel : Channel α
  taken : List α

structure Sub where
  id : Nat
  handler : Bool
  channel : Option Nat
  directSender : Option Nat
deriving DecidableEq

structure TopicState where
  subs : List Sub
  nextId : Nat
  closed : Bool

structure MessageBus (τ α : Type) where
  topics : AList fun _ : String => TopicState
  streams : List (StreamChannel τ α)
  queues : List (Channel (Msg τ α))

structure Subscription where
  topic : String
  id : Nat
  active : Bool

inductive Outcome where
  | refused
  | finished
  | awaiting (rest : List Sub)
deriving DecidableEq

structure Sent where
  took : List Nat
  outcome : Outcome

namespace TopicState

def new : TopicState := ⟨[], 1, false⟩

def addSub (state : TopicState) (sub : Sub) : TopicState := { state with subs := state.subs ++ [sub] }

def removeSub (state : TopicState) (id : Nat) : TopicState :=
  { state with subs := state.subs.filter fun sub => sub.id != id }

end TopicState

namespace MessageBus

def empty : MessageBus τ α := ⟨∅, [], []⟩

def getOrCreateTopic (bus : MessageBus τ α) (topic : String) : TopicState :=
  (bus.topics.lookup topic).getD TopicState.new

def setTopic (bus : MessageBus τ α) (topic : String) (state : TopicState) : MessageBus τ α :=
  { bus with topics := bus.topics.insert topic state }

def register (topic : String) (sub : Nat → Sub) (bus : MessageBus τ α) : Nat × MessageBus τ α :=
  let state := bus.getOrCreateTopic topic
  let numbered := { state with nextId := state.nextId + 1 }
  (state.nextId, bus.setTopic topic (numbered.addSub (sub state.nextId)))

def subscribe (topic : String) (bus : MessageBus τ α) : Subscription × MessageBus τ α :=
  let out := bus.register topic fun id => ⟨id, true, none, none⟩
  (⟨topic, out.1, true⟩, out.2)

/-- The new channel is known to the direct sender only. -/
def subscribeStream (type : τ) (topic : String) (cap : Nat) (bus : MessageBus τ α) :
    Option (Nat × MessageBus τ α) :=
  (AsyncChannel.nextPow2 (max cap 2)).map fun capacity =>
    let withChannel : MessageBus τ α := { bus with streams := bus.streams ++ [⟨type, Channel.new capacity, []⟩] }
    withChannel.register topic fun id => ⟨id, false, none, some bus.streams.length⟩

def unsubscribe (topic : String) (id : Nat) (bus : MessageBus τ α) : MessageBus τ α :=
  match bus.topics.lookup topic with
  | none => bus
  | some state => bus.setTopic topic (state.removeSub id)

def closeQueues : List Sub → List (Channel (Msg τ α)) → List (Channel (Msg τ α))
  | [], queues => queues
  | sub :: subs, queues => closeQueues subs (sub.channel.elim queues fun i => queues.modify i fun ch => ch.close.state)

def closeTopic (topic : String) (bus : MessageBus τ α) : MessageBus τ α :=
  match bus.topics.lookup topic with
  | none => bus
  | some state =>
    { bus.setTopic topic { state with closed := true } with queues := closeQueues state.subs bus.queues }

def drain (bus : MessageBus τ α) : MessageBus τ α := bus.topics.keys.foldl (fun bus topic => bus.closeTopic topic) bus

variable [DecidableEq τ]

def directSend (msg : Msg τ α) (stream : StreamChannel τ α) : Bool × StreamChannel τ α :=
  if stream.type = msg.type then
    let out := stream.channel.trySend msg.value
    (out.result, { stream with channel := out.state })
  else (false, stream)

def sendDirect (msg : Msg τ α) : List Sub → List (StreamChannel τ α) → List Nat × List (StreamChannel τ α)
  | [], streams => ([], streams)
  | sub :: subs, streams =>
    match sub.directSender with
    | none => sendDirect msg subs streams
    | some i =>
      let sent := (streams[i]?).any fun stream => (directSend msg stream).1
      let out := sendDirect msg subs (streams.modify i fun stream => (directSend msg stream).2)
      (if sent then sub.id :: out.1 else out.1, out.2)

def publish (topic : String) (msg : Msg τ α) (bus : MessageBus τ α) : Sent × MessageBus τ α :=
  match bus.topics.lookup topic with
  | none => (⟨[], .finished⟩, bus)
  | some state =>
    if state.closed then (⟨[], .refused⟩, bus)
    else
      let out := sendDirect msg state.subs bus.streams
      (⟨out.1, .awaiting (state.subs.filter fun sub => sub.directSender.isNone && sub.handler)⟩,
        { bus with streams := out.2 })

def tryLoop (msg : Msg τ α) : List Sub → Bool → MessageBus τ α → (List Nat × Bool) × MessageBus τ α
  | [], allOk, bus => (([], allOk), bus)
  | sub :: subs, allOk, bus =>
    match sub.directSender with
    | some i =>
      let sent := (bus.streams[i]?).any fun stream => (directSend msg stream).1
      let out := tryLoop msg subs (allOk && sent)
        { bus with streams := bus.streams.modify i fun stream => (directSend msg stream).2 }
      ((if sent then sub.id :: out.1.1 else out.1.1, out.1.2), out.2)
    | none =>
      match sub.channel with
      | some i =>
        let sent := (bus.queues[i]?).any fun ch => (ch.trySend msg).result
        let out := tryLoop msg subs (allOk && sent)
          { bus with queues := bus.queues.modify i fun ch => (ch.trySend msg).state }
        ((if sent then sub.id :: out.1.1 else out.1.1, out.1.2), out.2)
      | none => tryLoop msg subs allOk bus

def tryPublish (topic : String) (msg : Msg τ α) (bus : MessageBus τ α) : Sent × MessageBus τ α :=
  match bus.topics.lookup topic with
  | none => (⟨[], .finished⟩, bus)
  | some state =>
    if state.closed then (⟨[], .refused⟩, bus)
    else
      let out := tryLoop msg state.subs true bus
      (⟨out.1.1, if out.1.2 then .finished else .refused⟩, out.2)

end MessageBus

end Source

section Runs

structure Entry (τ : Type) where
  topic : String
  id : Nat
  stream : Option (τ × Nat)
deriving DecidableEq

structure Call (τ α : Type) where
  topic : String
  msg : Msg τ α
  active : List (Entry τ)

structure Delivery (τ α : Type) where
  call : Nat
  topic : String
  id : Nat
  msg : Msg τ α
deriving DecidableEq

structure Pending (τ α : Type) where
  topic : String
  msg : Msg τ α
  rest : List Sub

structure Account (τ α : Type) where
  calls : List (Call τ α)
  log : List (Delivery τ α)
  pending : Nat → Option (Pending τ α)
  succeeded : List Nat

structure World (τ α : Type) where
  bus : MessageBus τ α
  handles : List Subscription
  ledger : List (Entry τ)
  cancelled : List (String × Nat)
  account : Account τ α

inductive Label (τ α : Type) where
  | subscribe (topic : String)
  | subscribeStream (topic : String) (type : τ) (cap : Nat)
  | cancel (handle : Nat)
  | publish (topic : String) (msg : Msg τ α)
  | invoke (call : Nat)
  | tryPublish (topic : String) (msg : Msg τ α)
  | receive (stream : Nat)
  | closeTopic (topic : String)
  | drain

def activeOf (ledger : List (Entry τ)) (cancelled : List (String × Nat)) (topic : String) : List (Entry τ) :=
  ledger.filter fun entry => entry.topic = topic && !cancelled.contains (entry.topic, entry.id)

abbrev World.active (w : World τ α) (topic : String) : List (Entry τ) := activeOf w.ledger w.cancelled topic

def StreamChannel.receive (stream : StreamChannel τ α) : StreamChannel τ α :=
  let out := stream.channel.tryRecv
  { stream with channel := out.state, taken := stream.taken ++ out.result.toList }

namespace Account

def empty : Account τ α := ⟨[], [], fun _ => none, []⟩

def called (acc : Account τ α) (call : Call τ α) (sent : Sent) : Account τ α :=
  let number := acc.calls.length
  let noted := { acc with
    calls := acc.calls ++ [call]
    log := acc.log ++ sent.took.map fun id => ⟨number, call.topic, id, call.msg⟩ }
  match sent.outcome with
  | .refused => noted
  | .finished => { noted with succeeded := acc.succeeded ++ [number] }
  | .awaiting rest => { noted with pending := Function.update acc.pending number (some ⟨call.topic, call.msg, rest⟩) }

def invoke (acc : Account τ α) (call : Nat) : Option (Account τ α) :=
  match acc.pending call with
  | none => none
  | some current =>
    match current.rest with
    | [] => some { acc with
        pending := Function.update acc.pending call none
        succeeded := acc.succeeded ++ [call] }
    | sub :: rest => some { acc with
        pending := Function.update acc.pending call (some { current with rest })
        log := acc.log ++ [⟨call, current.topic, sub.id, current.msg⟩] }

end Account

namespace World

def start : World τ α := ⟨MessageBus.empty, [], [], [], Account.empty⟩

def publication (w : World τ α) (topic : String) (msg : Msg τ α) (out : Sent × MessageBus τ α) : World τ α :=
  { w with bus := out.2, account := w.account.called ⟨topic, msg, activeOf w.ledger w.cancelled topic⟩ out.1 }

def next [DecidableEq τ] (w : World τ α) : Label τ α → Option (World τ α)
  | .subscribe topic =>
    let out := w.bus.subscribe topic
    some { w with
      bus := out.2
      handles := w.handles ++ [out.1]
      ledger := w.ledger ++ [⟨topic, out.1.id, none⟩] }
  | .subscribeStream topic type cap => (w.bus.subscribeStream type topic cap).map fun out =>
    { w with bus := out.2, ledger := w.ledger ++ [⟨topic, out.1, some (type, w.bus.streams.length)⟩] }
  | .cancel handle => (w.handles[handle]?).map fun subscription =>
    if subscription.active then
      { w with
        bus := w.bus.unsubscribe subscription.topic subscription.id
        handles := w.handles.set handle { subscription with active := false }
        cancelled := w.cancelled ++ [(subscription.topic, subscription.id)] }
    else w
  | .publish topic msg => some (w.publication topic msg (w.bus.publish topic msg))
  | .invoke call => (w.account.invoke call).map fun account => { w with account }
  | .tryPublish topic msg => some (w.publication topic msg (w.bus.tryPublish topic msg))
  | .receive stream =>
    some { w with bus := { w.bus with streams := w.bus.streams.modify stream StreamChannel.receive } }
  | .closeTopic topic => some { w with bus := w.bus.closeTopic topic }
  | .drain => some { w with bus := w.bus.drain }

end World

end Runs

section Sending

variable [DecidableEq τ] {msg : Msg τ α} {streams : List (StreamChannel τ α)} {subs : List Sub}

def StreamChannel.takes (msg : Msg τ α) (stream : StreamChannel τ α) : Bool := (MessageBus.directSend msg stream).1

def Sub.takes (msg : Msg τ α) (streams : List (StreamChannel τ α)) (sub : Sub) : Bool :=
  sub.directSender.any fun i => (streams[i]?).any (StreamChannel.takes msg)

theorem StreamChannel.takes_iff (stream : StreamChannel τ α) : stream.takes msg = true ↔
      stream.type = msg.type ∧ stream.channel.closed = false ∧ stream.channel.isFull = false := by
  rw [takes, MessageBus.directSend]
  split_ifs with hType
  · simp only [Channel.trySend, hType, true_and]
    split_ifs with hShut
    · rw [Bool.or_eq_true] at hShut
      rcases hShut with hShut | hShut <;> simp [hShut]
    · rw [Bool.or_eq_true, not_or, Bool.not_eq_true, Bool.not_eq_true] at hShut
      simp [hShut]
  · simp [hType]

theorem directSend_snd (msg : Msg τ α) (stream : StreamChannel τ α) : (MessageBus.directSend msg stream).2 =
      if stream.takes msg then { stream with channel := stream.channel.push msg.value } else stream := by
  rw [StreamChannel.takes, MessageBus.directSend]
  split_ifs with hType hTakes hTakes
  · simp only [Channel.trySend] at hTakes ⊢
    split_ifs at hTakes ⊢ with hShut
    rfl
  · simp only [Channel.trySend] at hTakes ⊢
    split_ifs at hTakes ⊢ with hShut
    · rfl
    · exact absurd rfl hTakes
  · exact hTakes.elim
  · rfl

theorem takes_modify {i : Nat} {sub : Sub} (f : StreamChannel τ α → StreamChannel τ α)
    (hOther : sub.directSender ≠ some i) : sub.takes msg (streams.modify i f) = sub.takes msg streams := by
  rw [Sub.takes, Sub.takes]
  cases hSender : sub.directSender with
  | none => rfl
  | some j =>
    have hNe : i ≠ j := fun hEq => hOther (by rw [hSender, hEq])
    rw [any_some, any_some, List.getElem?_modify_ne f _ hNe]

/-- The direct senders of a list have streams of their own, so each finds its stream as it was
before. -/
theorem sendDirect_took (hOwn : (subs.filterMap Sub.directSender).Nodup) :
    (MessageBus.sendDirect msg subs streams).1 = (subs.filter (Sub.takes msg streams)).map Sub.id := by
  induction subs generalizing streams with
  | nil => rfl
  | cons sub subs ih =>
    rw [MessageBus.sendDirect]
    cases hSender : sub.directSender with
    | none =>
      rw [List.filterMap_cons_none hSender] at hOwn
      have hNot : sub.takes msg streams = false := by rw [Sub.takes, hSender, Option.any_none]
      rw [List.filter_cons_of_neg (by rw [hNot]; exact Bool.false_ne_true)]
      exact ih hOwn
    | some i =>
      rw [List.filterMap_cons_some hSender, List.nodup_cons] at hOwn
      have hSame : ∀ other ∈ subs, other.takes msg (streams.modify i fun stream =>
          (MessageBus.directSend msg stream).2) = other.takes msg streams := by
        intro other hOther
        exact takes_modify _ fun hEq => hOwn.1 (List.mem_filterMap.mpr ⟨other, hOther, hEq⟩)
      have hTakes : sub.takes msg streams = (streams[i]?).any fun stream => (MessageBus.directSend msg stream).1 := by
        rw [Sub.takes, hSender, any_some]
        rfl
      simp only [ih hOwn.2, List.filter_congr hSame, ← hTakes, List.filter_cons]
      split_ifs <;> rfl

theorem sendDirect_streams (hOwn : (subs.filterMap Sub.directSender).Nodup) (i : Nat) :
    (MessageBus.sendDirect msg subs streams).2[i]? =
      if i ∈ subs.filterMap Sub.directSender then (streams[i]?).map fun stream => (MessageBus.directSend msg stream).2
      else streams[i]? := by
  induction subs generalizing streams with
  | nil => rfl
  | cons sub subs ih =>
    rw [MessageBus.sendDirect]
    cases hSender : sub.directSender with
    | none =>
      rw [List.filterMap_cons_none hSender] at hOwn ⊢
      exact ih hOwn
    | some j =>
      rw [List.filterMap_cons_some hSender, List.nodup_cons] at hOwn
      simp only [List.filterMap_cons_some hSender, List.mem_cons, ih hOwn.2]
      by_cases hFirst : j = i
      · subst hFirst
        rw [if_neg hOwn.1, if_pos (.inl rfl), List.getElem?_modify_eq]
        rfl
      · have hNot : ¬i = j := fun hEq => hFirst hEq.symm
        rw [List.getElem?_modify_ne _ _ hFirst]
        simp only [hNot, false_or]

theorem sendDirect_length : (MessageBus.sendDirect msg subs streams).2.length = streams.length := by
  induction subs generalizing streams with
  | nil => rfl
  | cons sub subs ih =>
    rw [MessageBus.sendDirect]
    split
    · exact ih
    · rw [ih, List.length_modify]

/-- Without channels of type-erased messages, `try_publish` sends as `publish` does and looks at the
results. -/
theorem tryLoop_eq (hNone : ∀ sub ∈ subs, sub.channel = none) (hOwn : (subs.filterMap Sub.directSender).Nodup)
    (allOk : Bool) (bus : MessageBus τ α) : MessageBus.tryLoop msg subs allOk bus =
      (((MessageBus.sendDirect msg subs bus.streams).1,
          allOk && subs.all fun sub => sub.directSender.isNone || sub.takes msg bus.streams),
        { bus with streams := (MessageBus.sendDirect msg subs bus.streams).2 }) := by
  induction subs generalizing allOk bus with
  | nil => simp [MessageBus.tryLoop, MessageBus.sendDirect]
  | cons sub subs ih =>
    have hRest : ∀ other ∈ subs, other.channel = none := fun other hOther => hNone other (List.mem_cons_of_mem _ hOther)
    rw [MessageBus.tryLoop, MessageBus.sendDirect]
    cases hSender : sub.directSender with
    | none =>
      rw [List.filterMap_cons_none hSender] at hOwn
      simp only [hNone sub List.mem_cons_self, ih hRest hOwn, List.all_cons, hSender, Option.isNone_none,
        Bool.true_or, Bool.true_and]
    | some i =>
      rw [List.filterMap_cons_some hSender, List.nodup_cons] at hOwn
      have hSame : (subs.all fun other => other.directSender.isNone || other.takes msg (bus.streams.modify i
          fun stream => (MessageBus.directSend msg stream).2)) =
          subs.all fun other => other.directSender.isNone || other.takes msg bus.streams := by
        rw [Bool.eq_iff_iff, List.all_eq_true, List.all_eq_true]
        refine forall₂_congr fun other hOther => ?_
        rw [takes_modify _ fun hEq => hOwn.1 (List.mem_filterMap.mpr ⟨other, hOther, hEq⟩)]
      have hTakes : sub.takes msg bus.streams =
          (bus.streams[i]?).any fun stream => (MessageBus.directSend msg stream).1 := by
        rw [Sub.takes, hSender, any_some]
        rfl
      simp only [ih hRest hOwn.2, hSame, ← hTakes, List.all_cons, hSender, Option.isNone_some, Bool.false_or,
        Bool.and_assoc]

end Sending

section Registry

variable {bus : MessageBus τ α} {handles : List Subscription} {ledger : List (Entry τ)}
  {cancelled : List (String × Nat)} {topic other : String}

def Entry.sub (entry : Entry τ) : Sub := ⟨entry.id, entry.stream.isNone, none, entry.stream.map Prod.snd⟩

def Entry.index (entry : Entry τ) : Option Nat := entry.stream.map Prod.snd

def Entry.key (entry : Entry τ) : String × Nat := (entry.topic, entry.id)

theorem getOrCreateTopic_self (state : TopicState) : (bus.setTopic topic state).getOrCreateTopic topic = state := by
  rw [MessageBus.getOrCreateTopic, MessageBus.setTopic, AList.lookup_insert, getD_some]

theorem getOrCreateTopic_other (state : TopicState) (hNe : other ≠ topic) :
    (bus.setTopic topic state).getOrCreateTopic other = bus.getOrCreateTopic other := by
  rw [MessageBus.getOrCreateTopic, MessageBus.setTopic, AList.lookup_insert_ne hNe]
  rfl

structure Listed (bus : MessageBus τ α) (handles : List Subscription) (ledger : List (Entry τ))
    (cancelled : List (String × Nat)) : Prop where
  subs : ∀ topic, (bus.getOrCreateTopic topic).subs = (activeOf ledger cancelled topic).map Entry.sub
  fresh : ∀ entry ∈ ledger, entry.id < (bus.getOrCreateTopic entry.topic).nextId
  keys : (ledger.map Entry.key).Nodup
  held : ∀ handle ∈ handles, handle.id < (bus.getOrCreateTopic handle.topic).nextId
  past : ∀ key ∈ cancelled, key.2 < (bus.getOrCreateTopic key.1).nextId

theorem Listed.unknown (hListed : Listed bus handles ledger cancelled)
    (hState : bus.topics.lookup topic = none) : activeOf ledger cancelled topic = [] := by
  have hSubs := hListed.subs topic
  rw [MessageBus.getOrCreateTopic, hState, Option.getD_none] at hSubs
  exact List.map_eq_nil_iff.mp hSubs.symm

theorem Listed.frame {bus' : MessageBus τ α} (hListed : Listed bus handles ledger cancelled)
    (hSubs : ∀ topic, (bus'.getOrCreateTopic topic).subs = (bus.getOrCreateTopic topic).subs)
    (hNext : ∀ topic, (bus.getOrCreateTopic topic).nextId ≤ (bus'.getOrCreateTopic topic).nextId) :
    Listed bus' handles ledger cancelled where
  subs topic := by rw [hSubs, hListed.subs]
  fresh entry hEntry := Nat.lt_of_lt_of_le (hListed.fresh entry hEntry) (hNext _)
  keys := hListed.keys
  held handle hHandle := Nat.lt_of_lt_of_le (hListed.held handle hHandle) (hNext _)
  past key hKey := Nat.lt_of_lt_of_le (hListed.past key hKey) (hNext _)

theorem register_topic (sub : Nat → Sub) (other : String) : ((bus.register topic sub).2.getOrCreateTopic other).nextId =
        (bus.getOrCreateTopic other).nextId + (if other = topic then 1 else 0) ∧
      ((bus.register topic sub).2.getOrCreateTopic other).subs =
        (bus.getOrCreateTopic other).subs ++
          if other = topic then [sub (bus.getOrCreateTopic topic).nextId] else [] := by
  rw [MessageBus.register]
  by_cases hTopic : other = topic
  · subst hTopic
    rw [getOrCreateTopic_self, if_pos rfl, if_pos rfl]
    exact ⟨rfl, rfl⟩
  · rw [getOrCreateTopic_other _ hTopic, if_neg hTopic, if_neg hTopic, List.append_nil]
    exact ⟨rfl, rfl⟩

theorem activeOf_append (entry : Entry τ) (hNew : entry.key ∉ cancelled) :
    activeOf (ledger ++ [entry]) cancelled other =
      activeOf ledger cancelled other ++ if other = entry.topic then [entry] else [] := by
  have hKept : cancelled.contains (entry.topic, entry.id) = false := by
    rw [← Bool.not_eq_true, List.contains_iff_mem]
    exact hNew
  rw [activeOf, List.filter_append, activeOf, List.filter_singleton, hKept, Bool.not_false, Bool.and_true]
  congr 1
  by_cases hTopic : entry.topic = other
  · simp only [hTopic, decide_true, cond_true, if_true]
  · rw [if_neg fun hEq => hTopic hEq.symm, decide_eq_false hTopic, cond_false]

theorem Listed.newKey (hListed : Listed bus handles ledger cancelled) (topic : String) :
    (topic, (bus.getOrCreateTopic topic).nextId) ∉ ledger.map Entry.key := by
  intro hOld
  obtain ⟨entry, hEntry, hKey⟩ := List.mem_map.mp hOld
  have hLt := hListed.fresh entry hEntry
  have hTopic : entry.topic = topic := congrArg Prod.fst hKey
  have hId : entry.id = (bus.getOrCreateTopic topic).nextId := congrArg Prod.snd hKey
  rw [hTopic, hId] at hLt
  exact Nat.lt_irrefl _ hLt

theorem Listed.register (hListed : Listed bus handles ledger cancelled) (topic : String) (sub : Nat → Sub)
    (stream : Option (τ × Nat)) (hSub : ∀ id, sub id = Entry.sub ⟨topic, id, stream⟩) :
    Listed (bus.register topic sub).2 handles (ledger ++ [⟨topic, (bus.register topic sub).1, stream⟩]) cancelled := by
  have hNext : ∀ other, (bus.getOrCreateTopic other).nextId ≤
      ((bus.register topic sub).2.getOrCreateTopic other).nextId := by
    intro other
    rw [(register_topic sub other).1]
    exact Nat.le_add_right _ _
  constructor
  case subs =>
    intro other
    have hNew : (topic, (bus.getOrCreateTopic topic).nextId) ∉ cancelled := by
      intro hOld
      exact absurd (hListed.past _ hOld) (Nat.lt_irrefl _)
    rw [(register_topic sub other).2, activeOf_append _ hNew, List.map_append, hListed.subs, hSub]
    split_ifs <;> rfl
  case fresh =>
    intro entry hEntry
    rcases mem_append.mp hEntry with hOld | hNew
    · exact Nat.lt_of_lt_of_le (hListed.fresh entry hOld) (hNext _)
    · obtain rfl := mem_singleton.mp hNew
      rw [(register_topic sub topic).1, if_pos rfl]
      exact Nat.lt_succ_self _
  case keys =>
    rw [List.map_append, List.map_singleton, ← List.concat_eq_append]
    exact hListed.keys.concat (hListed.newKey topic)
  case held => exact fun handle hHandle => Nat.lt_of_lt_of_le (hListed.held handle hHandle) (hNext _)
  case past => exact fun key hKey => Nat.lt_of_lt_of_le (hListed.past key hKey) (hNext _)

theorem unsubscribe_topic (id : Nat) :
    ((bus.unsubscribe topic id).getOrCreateTopic other).nextId = (bus.getOrCreateTopic other).nextId ∧
      ((bus.unsubscribe topic id).getOrCreateTopic other).subs =
        (bus.getOrCreateTopic other).subs.filter fun sub => !(other = topic && sub.id = id) := by
  have hKeep : ∀ subs : List Sub, other ≠ topic → subs = subs.filter fun sub => !(other = topic && sub.id = id) := by
    intro subs hNe
    exact (List.filter_eq_self.mpr fun sub _ => by simp [hNe]).symm
  rw [MessageBus.unsubscribe]
  cases hState : bus.topics.lookup topic with
  | none =>
    refine ⟨rfl, ?_⟩
    by_cases hTopic : other = topic
    · subst hTopic
      simp [MessageBus.getOrCreateTopic, hState, TopicState.new]
    · exact hKeep _ hTopic
  | some state =>
    by_cases hTopic : other = topic
    · subst hTopic
      have hNow : bus.getOrCreateTopic other = state := by rw [MessageBus.getOrCreateTopic, hState, getD_some]
      simp only [getOrCreateTopic_self, hNow, TopicState.removeSub, decide_true, Bool.true_and, true_and]
      rfl
    · simp only [getOrCreateTopic_other _ hTopic]
      exact ⟨trivial, hKeep _ hTopic⟩

theorem activeOf_cancel (id : Nat) : (activeOf ledger (cancelled ++ [(topic, id)]) other).map Entry.sub =
      ((activeOf ledger cancelled other).map Entry.sub).filter fun sub => !(other = topic && sub.id = id) := by
  rw [List.filter_map, activeOf, activeOf, List.filter_filter]
  congr 1
  refine List.filter_congr fun entry _ => ?_
  rw [Bool.eq_iff_iff]
  simp only [Bool.and_eq_true, Bool.not_eq_true', Function.comp, Entry.sub, ← Bool.not_eq_true,
    List.contains_iff_mem, mem_append, mem_singleton, Prod.mk.injEq, decide_eq_true_eq]
  constructor
  · rintro ⟨rfl, hNot⟩
    exact ⟨fun hEq => hNot (.inr ⟨hEq.1, of_decide_eq_true hEq.2⟩), rfl, fun hOld => hNot (.inl hOld)⟩
  · rintro ⟨hNot, rfl, hOld⟩
    exact ⟨rfl, fun hEq => hEq.elim hOld fun hThis => hNot ⟨hThis.1, decide_eq_true hThis.2⟩⟩

theorem Listed.unsubscribe (hListed : Listed bus handles ledger cancelled) (id : Nat)
    (hPast : id < (bus.getOrCreateTopic topic).nextId) :
    Listed (bus.unsubscribe topic id) handles ledger (cancelled ++ [(topic, id)]) := by
  constructor
  case subs =>
    intro other
    rw [(unsubscribe_topic id).2, hListed.subs, activeOf_cancel]
  case fresh =>
    intro entry hEntry
    rw [(unsubscribe_topic id).1]
    exact hListed.fresh entry hEntry
  case keys => exact hListed.keys
  case held =>
    intro handle hHandle
    rw [(unsubscribe_topic id).1]
    exact hListed.held handle hHandle
  case past =>
    intro key hKey
    rw [(unsubscribe_topic id).1]
    rcases mem_append.mp hKey with hOld | hNew
    · exact hListed.past key hOld
    · obtain rfl := mem_singleton.mp hNew
      exact hPast

theorem closeTopic_other (hNe : other ≠ topic) :
    (bus.closeTopic topic).getOrCreateTopic other = bus.getOrCreateTopic other := by
  rw [MessageBus.closeTopic]
  split
  · rfl
  · exact getOrCreateTopic_other _ hNe

theorem closeTopic_self {state : TopicState} (hState : bus.topics.lookup topic = some state) :
    (bus.closeTopic topic).getOrCreateTopic topic = { state with closed := true } := by
  rw [MessageBus.closeTopic, hState]
  exact getOrCreateTopic_self _

theorem closeTopic_topic :
    ((bus.closeTopic topic).getOrCreateTopic other).nextId = (bus.getOrCreateTopic other).nextId ∧
      ((bus.closeTopic topic).getOrCreateTopic other).subs = (bus.getOrCreateTopic other).subs := by
  by_cases hTopic : other = topic
  · subst hTopic
    cases hState : bus.topics.lookup other with
    | none =>
      rw [MessageBus.closeTopic, hState]
      exact ⟨rfl, rfl⟩
    | some state =>
      have hNow : bus.getOrCreateTopic other = state := by rw [MessageBus.getOrCreateTopic, hState, getD_some]
      rw [closeTopic_self hState, hNow]
      exact ⟨rfl, rfl⟩
  · rw [closeTopic_other hTopic]
    exact ⟨rfl, rfl⟩

theorem Listed.closeTopic (hListed : Listed bus handles ledger cancelled) :
    Listed (bus.closeTopic topic) handles ledger cancelled :=
  hListed.frame (fun _ => closeTopic_topic.2) fun _ => Nat.le_of_eq closeTopic_topic.1.symm

end Registry

section Streams

variable {streams : List (StreamChannel τ α)} {ledger : List (Entry τ)}

structure Wired (streams : List (StreamChannel τ α)) (ledger : List (Entry τ)) : Prop where
  numbered : ledger.filterMap Entry.index = List.range streams.length
  typed : ∀ entry ∈ ledger, ∀ type i, entry.stream = some (type, i) →
    ∃ stream, streams[i]? = some stream ∧ stream.type = type
  unclosed : ∀ stream ∈ streams, stream.channel.closed = false

section

variable (hWired : Wired streams ledger)
include hWired

theorem Wired.own {first second : Entry τ} (hFirst : first ∈ ledger) (hSecond : second ∈ ledger) {i : Nat}
    (hIndex : first.index = some i) (hSame : second.index = some i) : first = second := by
  have hNodup : (ledger.filterMap Entry.index).Nodup := by
    rw [hWired.numbered]
    exact List.nodup_range
  rw [List.nodup_iff_pairwise_ne, List.pairwise_filterMap] at hNodup
  by_contra hNe
  have hSymm : Std.Symm fun a b : Entry τ => ∀ i, a.index = some i → ∀ j, b.index = some j → i ≠ j :=
    ⟨fun a b hPair i hi j hj hEq => hPair j hj i hi hEq.symm⟩
  exact hNodup.forall hFirst hSecond hNe i hIndex i hSame rfl

theorem Wired.nodup (cancelled : List (String × Nat)) (topic : String) :
    ((activeOf ledger cancelled topic).filterMap Entry.index).Nodup := by
  have hAll : (ledger.filterMap Entry.index).Nodup := by
    rw [hWired.numbered]
    exact List.nodup_range
  exact hAll.sublist (List.filter_sublist.filterMap _)

theorem Wired.handler (topic : String) (id : Nat) : Wired streams (ledger ++ [⟨topic, id, none⟩]) := by
  constructor
  case numbered =>
    rw [List.filterMap_append, hWired.numbered]
    exact List.append_nil _
  case typed =>
    intro entry hEntry type i hStream
    rcases mem_append.mp hEntry with hOld | hNew
    · exact hWired.typed entry hOld type i hStream
    · obtain rfl := mem_singleton.mp hNew
      cases hStream
  case unclosed => exact hWired.unclosed

theorem Wired.stream (topic : String) (id capacity : Nat) (type : τ) :
    Wired (streams ++ [⟨type, Channel.new capacity, []⟩]) (ledger ++ [⟨topic, id, some (type, streams.length)⟩]) := by
  constructor
  case numbered =>
    rw [List.filterMap_append, hWired.numbered, List.length_append, List.length_singleton, List.range_succ]
    rfl
  case typed =>
    intro entry hEntry type' i hStream
    rcases mem_append.mp hEntry with hOld | hNew
    · obtain ⟨stream, hStream', hType⟩ := hWired.typed entry hOld type' i hStream
      exact ⟨stream, List.getElem?_append_left (List.getElem?_eq_some_iff.mp hStream').1 ▸ hStream', hType⟩
    · obtain rfl := mem_singleton.mp hNew
      cases hStream
      exact ⟨_, List.getElem?_concat_length, rfl⟩
  case unclosed =>
    intro stream hStream
    rcases mem_append.mp hStream with hOld | hNew
    · exact hWired.unclosed stream hOld
    · obtain rfl := mem_singleton.mp hNew
      rfl

theorem Wired.frame {streams' : List (StreamChannel τ α)} (hLength : streams'.length = streams.length)
    (hEach : ∀ (i : Nat) (stream' : StreamChannel τ α), streams'[i]? = some stream' →
      ∃ stream : StreamChannel τ α, streams[i]? = some stream ∧ stream'.type = stream.type ∧
        stream'.channel.closed = stream.channel.closed) :
    Wired streams' ledger := by
  constructor
  case numbered => rw [hLength, hWired.numbered]
  case typed =>
    intro entry hEntry type i hStream
    obtain ⟨stream, hOld, hType⟩ := hWired.typed entry hEntry type i hStream
    have hLt : i < streams'.length := by
      rw [hLength]
      exact (List.getElem?_eq_some_iff.mp hOld).1
    obtain ⟨stream₂, hOld₂, hType', -⟩ := hEach i _ (List.getElem?_eq_getElem hLt)
    cases hOld.symm.trans hOld₂
    exact ⟨_, List.getElem?_eq_getElem hLt, hType'.trans hType⟩
  case unclosed =>
    intro stream' hStream'
    obtain ⟨i, hi⟩ := List.getElem?_of_mem hStream'
    obtain ⟨stream, hOld, -, hClosed⟩ := hEach i stream' hi
    rw [hClosed]
    exact hWired.unclosed stream (List.mem_of_getElem? hOld)

end

end Streams

section Publication

variable [DecidableEq τ] {msg : Msg τ α} {streams streams' : List (StreamChannel τ α)} {ledger : List (Entry τ)}
  {reached : List (Entry τ)} {took : List Nat} {topic : String}

def StreamChannel.accept (msg : Msg τ α) (stream : StreamChannel τ α) : StreamChannel τ α :=
  { stream with channel := stream.channel.push msg.value }

structure Offered (streams : List (StreamChannel τ α)) (msg : Msg τ α) (reached : List (Entry τ)) (took : List Nat)
    (streams' : List (StreamChannel τ α)) : Prop where
  takers : took = (reached.filter fun entry => entry.sub.takes msg streams).map Entry.id
  length : streams'.length = streams.length
  get : ∀ i, streams'[i]? = (streams[i]?).map fun stream =>
    if i ∈ reached.filterMap Entry.index ∧ stream.takes msg then stream.accept msg else stream

theorem offered_nil : Offered streams msg [] [] streams := by
  refine ⟨rfl, rfl, fun i => ?_⟩
  simp only [List.filterMap_nil, List.not_mem_nil, false_and, if_false, map_id']

theorem offered_sendDirect (hOwn : (reached.filterMap Entry.index).Nodup) :
    Offered streams msg reached (MessageBus.sendDirect msg (reached.map Entry.sub) streams).1
      (MessageBus.sendDirect msg (reached.map Entry.sub) streams).2 := by
  have hSenders : (reached.map Entry.sub).filterMap Sub.directSender = reached.filterMap Entry.index := by
    rw [List.filterMap_map]
    rfl
  constructor
  case takers =>
    rw [sendDirect_took (by rw [hSenders]; exact hOwn), List.filter_map, List.map_map]
    rfl
  case length => exact sendDirect_length
  case get =>
    intro i
    rw [sendDirect_streams (by rw [hSenders]; exact hOwn), hSenders]
    split_ifs with hReached
    · simp only [directSend_snd, hReached, true_and]
      rfl
    · simp only [hReached, false_and, if_false, map_id']

structure Sends (w : World τ α) (topic : String) (msg : Msg τ α) (out : Sent × MessageBus τ α)
    (reached : List (Entry τ)) : Prop where
  among : reached.Sublist (activeOf w.ledger w.cancelled topic)
  offered : Offered w.bus.streams msg reached out.1.took out.2.streams
  topics : out.2.topics = w.bus.topics
  finished : out.1.outcome = .finished → reached = activeOf w.ledger w.cancelled topic ∧
    ∀ entry ∈ reached, entry.stream.isSome → entry.sub.takes msg w.bus.streams
  awaiting : ∀ rest, out.1.outcome = .awaiting rest → reached = activeOf w.ledger w.cancelled topic ∧
    rest = (reached.filter fun entry => entry.stream.isNone).map Entry.sub

variable {w : World τ α} (hListed : Listed w.bus w.handles w.ledger w.cancelled)
    (hWired : Wired w.bus.streams w.ledger) (topic : String) (msg : Msg τ α)

include hListed in
theorem sends_unknown (hState : w.bus.topics.lookup topic = none) : Sends w topic msg (⟨[], .finished⟩, w.bus) [] := by
  refine ⟨List.nil_sublist _, offered_nil, rfl, fun _ => ?_, fun rest hRest => (nomatch hRest)⟩
  exact ⟨(hListed.unknown hState).symm, nofun⟩

theorem sends_closed : Sends w topic msg (⟨[], .refused⟩, w.bus) [] :=
  ⟨List.nil_sublist _, offered_nil, rfl, fun hOutcome => (nomatch hOutcome), fun _ hRest => (nomatch hRest)⟩

include hListed hWired

theorem publish_sends : ∃ reached, Sends w topic msg (w.bus.publish topic msg) reached := by
  rw [MessageBus.publish]
  cases hState : w.bus.topics.lookup topic with
  | none => exact ⟨[], sends_unknown hListed topic msg hState⟩
  | some state =>
    have hSubs := hListed.subs topic
    rw [MessageBus.getOrCreateTopic, hState, getD_some] at hSubs
    by_cases hClosed : state.closed
    · simp only [hClosed, if_true]
      exact ⟨[], sends_closed topic msg⟩
    · simp only [hClosed, Bool.false_eq_true, if_false, hSubs]
      refine ⟨w.active topic, List.Sublist.refl _,
        offered_sendDirect (hWired.nodup _ _), rfl, fun hOutcome => (nomatch hOutcome), ?_⟩
      intro rest hRest
      obtain rfl := Outcome.awaiting.inj hRest
      refine ⟨rfl, ?_⟩
      rw [List.filter_map]
      congr 1
      refine List.filter_congr fun entry _ => ?_
      cases hStream : entry.stream <;> simp [Function.comp, Entry.sub, hStream]

theorem tryPublish_sends : ∃ reached, Sends w topic msg (w.bus.tryPublish topic msg) reached := by
  rw [MessageBus.tryPublish]
  cases hState : w.bus.topics.lookup topic with
  | none => exact ⟨[], sends_unknown hListed topic msg hState⟩
  | some state =>
    have hSubs := hListed.subs topic
    rw [MessageBus.getOrCreateTopic, hState, getD_some] at hSubs
    have hOwn : ((w.active topic).filterMap Entry.index).Nodup := hWired.nodup _ _
    by_cases hClosed : state.closed
    · simp only [hClosed, if_true]
      exact ⟨[], sends_closed topic msg⟩
    · have hNone : ∀ sub ∈ (w.active topic).map Entry.sub, sub.channel = none := by
        intro sub hSub
        obtain ⟨entry, -, rfl⟩ := List.mem_map.mp hSub
        rfl
      have hSenders : (((w.active topic).map Entry.sub).filterMap Sub.directSender).Nodup := by
        rw [List.filterMap_map]
        exact hOwn
      simp only [hClosed, Bool.false_eq_true, if_false, hSubs, tryLoop_eq hNone hSenders]
      refine ⟨w.active topic, List.Sublist.refl _, offered_sendDirect hOwn, rfl, ?_, ?_⟩
      · intro hOutcome
        refine ⟨rfl, fun entry hEntry hSome => ?_⟩
        split_ifs at hOutcome with hAll
        rw [Bool.true_and, List.all_eq_true] at hAll
        have hThis := hAll entry.sub (List.mem_map_of_mem hEntry)
        have hSender : entry.sub.directSender.isNone = false := by
          rw [Entry.sub, Option.isNone_map, ← Option.not_isSome, hSome, Bool.not_true]
        rwa [hSender, Bool.false_or] at hThis
      · intro rest hRest
        split_ifs at hRest

end Publication

end Bus

end Pipeline
