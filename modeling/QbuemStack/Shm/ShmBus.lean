import QbuemStack.Base.LabelledRuns
import QbuemStack.Pipeline.AsyncChannel
import QbuemStack.Shm.ShmFifo

/-! The bus over channels. A topic has one channel, and every subscription of the topic reads that
same channel. -/
namespace Shm

open SharedCode
open Option (bind_eq_some_iff map_eq_some_iff)

section Bus

inductive TopicScope where
  | localOnly
  | systemWide
deriving DecidableEq

structure TypeInfo where
  size : Nat
  align : Nat

inductive Backend where
  | inProcess (channel : Pipeline.Channel (List UInt8))
  | shared (channel : Channel) (memory : Memory)

structure TopicDescriptor where
  name : List UInt8
  scope : TopicScope
  typeId : Nat
  capacity : Nat
  backend : Backend

structure Bus where
  topics : List TopicDescriptor

structure Subscription where
  topic : Nat
  name : List UInt8

def kMaxTopics : Nat := 64

def kMaxNameLen : Nat := 63

def setName (name : List UInt8) : List UInt8 := name.take kMaxNameLen

def getName (desc : TopicDescriptor) : List UInt8 := desc.name.takeWhile (· != 0)

def makeTypeId (T : TypeInfo) : Nat := (T.size <<< 32 ||| T.align) % 2 ^ 64

namespace Bus

def empty : Bus := ⟨[]⟩

def findTopic (bus : Bus) (name : List UInt8) : Option Nat := bus.topics.findIdx? fun desc => getName desc == name

/-- The system may refuse a segment; then there is no backend. The outer option is for a rounding
that never ends. -/
def makeBackend (cap : Nat) (granted : Bool) : TopicScope → Option (Option Backend)
  | .localOnly => (Pipeline.AsyncChannel.nextPow2 (max cap 2)).map fun capacity =>
    some (.inProcess (Pipeline.Channel.new capacity))
  | .systemWide =>
    if granted then (createCapacity cap).bind fun capacity =>
      (exec (createChannel capacity) zeroMemory).map fun out => some (.shared out.1 out.2)
    else some none

def declare (T : TypeInfo) (name : List UInt8) (scope : TopicScope) (cap : Nat) (granted : Bool) (bus : Bus) :
    Option (Bool × Bus) :=
  if kMaxTopics ≤ bus.topics.length then some (false, bus)
  else if (bus.findTopic name).isSome then some (false, bus)
  else (makeBackend cap granted scope).map fun made =>
    made.elim (false, bus) fun backend => (true, ⟨bus.topics ++ [⟨setName name, scope, makeTypeId T, cap, backend⟩]⟩)

def lookup (T : TypeInfo) (name : List UInt8) (bus : Bus) : Option (Nat × TopicDescriptor) :=
  (bus.findTopic name).bind fun topic =>
    (bus.topics[topic]?).bind fun desc => if desc.typeId = makeTypeId T then some (topic, desc) else none

def setBackend (bus : Bus) (topic : Nat) (desc : TopicDescriptor) (backend : Backend) : Bus :=
  ⟨bus.topics.set topic { desc with backend }⟩

def offer (rounds : Nat) {sz : Nat} (msg : Message sz) : Backend → Option (Bool × Backend)
  | .inProcess channel => some ((channel.trySend msg.1).result, .inProcess (channel.trySend msg.1).state)
  | .shared channel memory => (exec (trySend channel msg rounds) memory).map fun out => (out.1, .shared channel out.2)

def poll (rounds sz : Nat) : Backend → Option (Option (List UInt8) × Backend)
  | .inProcess channel => some (channel.tryRecv.result, .inProcess channel.tryRecv.state)
  | .shared channel memory => (exec (tryRecv channel sz rounds) memory).map fun out => (out.1, .shared channel out.2)

def tryPublish (rounds : Nat) (T : TypeInfo) (name : List UInt8) (msg : Message T.size) (bus : Bus) :
    Option (Option Nat × Bus) :=
  match bus.lookup T name with
  | none => some (none, bus)
  | some (topic, desc) => (offer rounds msg desc.backend).map fun out =>
    (if out.1 then some topic else none, bus.setBackend topic desc out.2)

def subscribe (T : TypeInfo) (name : List UInt8) (bus : Bus) : Option Subscription :=
  (bus.lookup T name).map fun found => ⟨found.1, name.take 63⟩

def tryRecv (rounds sz : Nat) (sub : Subscription) (bus : Bus) : Option (Option (List UInt8) × Bus) :=
  match bus.topics[sub.topic]? with
  | none => some (none, bus)
  | some desc => (poll rounds sz desc.backend).map fun out => (out.1, bus.setBackend sub.topic desc out.2)

end Bus

end Bus

section Runs

inductive BusEvent where
  | subscribed (sub topic : Nat)
  | published (topic : Nat) (msg : List UInt8)
  | received (sub topic : Nat) (msg : List UInt8)
deriving DecidableEq

structure World where
  bus : Bus
  subs : List Subscription
  log : List BusEvent

inductive BusOp where
  | declare (T : TypeInfo) (name : List UInt8) (scope : TopicScope) (cap : Nat) (granted : Bool)
  | subscribe (T : TypeInfo) (name : List UInt8)
  | tryPublish (T : TypeInfo) (name : List UInt8) (msg : Message T.size)
  | tryRecv (sub sz : Nat)

namespace World

def initial : World := ⟨Bus.empty, [], []⟩

def apply (rounds : Nat) (w : World) : BusOp → Option World
  | .declare T name scope cap granted => (w.bus.declare T name scope cap granted).map fun out => { w with bus := out.2 }
  | .subscribe T name => some <| (w.bus.subscribe T name).elim w fun sub =>
    { w with subs := w.subs ++ [sub], log := w.log ++ [.subscribed w.subs.length sub.topic] }
  | .tryPublish T name msg => (w.bus.tryPublish rounds T name msg).map fun out =>
    { w with bus := out.2, log := w.log ++ (out.1.map fun topic => .published topic msg.1).toList }
  | .tryRecv i sz =>
    match w.subs[i]? with
    | none => some w
    | some sub => (w.bus.tryRecv rounds sz sub).map fun out =>
      { w with bus := out.2, log := w.log ++ (out.1.map (.received i sub.topic)).toList }

def run (rounds : Nat) : List BusOp → World → Option World := LabelledRuns.run (apply rounds)

end World

def publishedTo (topic : Nat) (log : List BusEvent) : List (List UInt8) :=
  log.filterMap fun
    | .published t msg => if t = topic then some msg else none
    | _ => none

def deliveriesOf (topic : Nat) (log : List BusEvent) : List (Nat × List UInt8) :=
  log.filterMap fun
    | .received sub t msg => if t = topic then some (sub, msg) else none
    | _ => none

def receivedBy (sub topic : Nat) (log : List BusEvent) : List (List UInt8) :=
  ((deliveriesOf topic log).filter fun delivery => delivery.1 == sub).map (·.2)

def Early (sub topic : Nat) (log : List BusEvent) : Prop :=
  ∃ before after, log = before ++ .subscribed sub topic :: after ∧ publishedTo topic before = []

def Bus.localChannel (bus : Bus) (topic : Nat) : Option (Pipeline.Channel (List UInt8)) :=
  (bus.topics[topic]?).bind fun desc =>
    match desc.backend with
    | .inProcess channel => some channel
    | .shared _ _ => none

end Runs

section Books

variable {rounds topic : Nat} {w : World}

theorem publishedTo_append (topic : Nat) (log events : List BusEvent) :
    publishedTo topic (log ++ events) = publishedTo topic log ++ publishedTo topic events := List.filterMap_append

theorem deliveriesOf_append (topic : Nat) (log events : List BusEvent) :
    deliveriesOf topic (log ++ events) = deliveriesOf topic log ++ deliveriesOf topic events := List.filterMap_append

variable {channel : Pipeline.Channel (List UInt8)} {desc : TopicDescriptor} {backend : Backend} {T : TypeInfo}
    {name : List UInt8} {sz : Nat}

variable {bus : Bus} {cap : Nat} {scope : TopicScope} {granted : Bool} {w' : World}

theorem Bus.localChannel_eq :
    bus.localChannel topic = some channel ↔
        ∃ desc, bus.topics[topic]? = some desc ∧ desc.backend = .inProcess channel := by
  rw [localChannel, bind_eq_some_iff]
  refine exists_congr fun desc => and_congr_right fun _ => ?_
  cases desc.backend <;> simp

/-- What was published to a topic was received by some subscription or waits in the channel. -/
structure Books (w : World) : Prop where
  conserved : ∀ topic channel, w.bus.localChannel topic = some channel →
    publishedTo topic w.log = (deliveriesOf topic w.log).map (·.2) ++ channel.items
  undeclared : ∀ topic, w.bus.topics.length ≤ topic → publishedTo topic w.log = [] ∧ deliveriesOf topic w.log = []

theorem books_initial : Books .initial where
  conserved := nofun
  undeclared _ _ := ⟨rfl, rfl⟩

theorem Books.exchange (hBooks : Books w) {about : Nat} (hDesc : w.bus.topics[about]? = some desc)
    {events : List BusEvent}
    (hOther : ∀ topic, about ≠ topic → publishedTo topic events = [] ∧ deliveriesOf topic events = [])
    (hHere : ∀ channel, backend = .inProcess channel → publishedTo about w.log ++ publishedTo about events =
      (deliveriesOf about w.log ++ deliveriesOf about events).map (·.2) ++ channel.items) :
    Books ⟨w.bus.setBackend about desc backend, w.subs, w.log ++ events⟩ := by
  have hLt : about < w.bus.topics.length := (List.getElem?_eq_some_iff.mp hDesc).1
  constructor
  case conserved =>
    intro topic channel hChannel
    obtain ⟨desc', hDesc', hBackend⟩ := Bus.localChannel_eq.mp hChannel
    rw [publishedTo_append, deliveriesOf_append]
    by_cases hTopic : about = topic
    · subst hTopic
      rw [Bus.setBackend, List.getElem?_set_self hLt] at hDesc'
      cases hDesc'
      exact hHere channel hBackend
    · rw [Bus.setBackend, List.getElem?_set_ne hTopic] at hDesc'
      obtain ⟨hPublished, hDeliveries⟩ := hOther topic hTopic
      rw [hPublished, hDeliveries, List.append_nil, List.append_nil]
      exact hBooks.conserved topic channel (Bus.localChannel_eq.mpr ⟨desc', hDesc', hBackend⟩)
  case undeclared =>
    intro topic hTopic
    rw [Bus.setBackend, List.length_set] at hTopic
    obtain ⟨hPublished, hDeliveries⟩ := hBooks.undeclared topic hTopic
    rw [publishedTo_append, deliveriesOf_append, hPublished, hDeliveries]
    exact hOther topic (by omega)

theorem makeBackend_empty
    (hMade : Bus.makeBackend cap granted scope = some (some (.inProcess channel))) : channel.items = [] := by
  cases scope with
  | localOnly =>
    rw [Bus.makeBackend, map_eq_some_iff] at hMade
    obtain ⟨capacity, -, hNew⟩ := hMade
    cases hNew
    rfl
  | systemWide =>
    rw [Bus.makeBackend] at hMade
    split_ifs at hMade
    · rw [bind_eq_some_iff] at hMade
      obtain ⟨capacity, -, hNew⟩ := hMade
      rw [map_eq_some_iff] at hNew
      obtain ⟨made, -, hNew⟩ := hNew
      cases hNew
    · cases hMade

theorem Books.addTopic (hBooks : Books w) (hEmpty : ∀ channel, desc.backend = .inProcess channel → channel.items = []) :
    Books { w with bus := ⟨w.bus.topics ++ [desc]⟩ } := by
  constructor
  case conserved =>
    intro topic channel hChannel
    obtain ⟨desc', hDesc', hBackend⟩ := Bus.localChannel_eq.mp hChannel
    have hBound := (List.getElem?_eq_some_iff.mp hDesc').1
    rw [List.length_append, List.length_singleton] at hBound
    rcases Nat.lt_or_ge topic w.bus.topics.length with hLt | hGe
    · rw [List.getElem?_append_left hLt] at hDesc'
      exact hBooks.conserved topic channel (Bus.localChannel_eq.mpr ⟨desc', hDesc', hBackend⟩)
    · obtain rfl : topic = w.bus.topics.length := by omega
      obtain ⟨hPublished, hDeliveries⟩ := hBooks.undeclared _ hGe
      rw [List.getElem?_concat_length] at hDesc'
      cases hDesc'
      rw [hPublished, hDeliveries, hEmpty channel hBackend]
      rfl
  case undeclared =>
    intro topic hTopic
    rw [List.length_append, List.length_singleton] at hTopic
    exact hBooks.undeclared topic (by omega)

theorem Books.declare (hBooks : Books w) {out : Bool × Bus}
    (hDeclare : w.bus.declare T name scope cap granted = some out) : Books { w with bus := out.2 } := by
  unfold Bus.declare at hDeclare
  split_ifs at hDeclare with hFull hKnown
  · cases hDeclare
    exact hBooks
  · cases hDeclare
    exact hBooks
  · rw [map_eq_some_iff] at hDeclare
    obtain ⟨made, hMade, rfl⟩ := hDeclare
    cases made with
    | none => exact hBooks
    | some backend =>
      refine hBooks.addTopic fun channel hBackend => ?_
      obtain rfl : backend = .inProcess channel := hBackend
      exact makeBackend_empty hMade

theorem lookup_some {found : Nat × TopicDescriptor} (hFound : bus.lookup T name = some found) :
    bus.topics[found.1]? = some found.2 := by
  rw [Bus.lookup, bind_eq_some_iff] at hFound
  obtain ⟨topic, -, hFound⟩ := hFound
  rw [bind_eq_some_iff] at hFound
  obtain ⟨desc, hDesc, hFound⟩ := hFound
  split_ifs at hFound
  cases hFound
  exact hDesc

theorem offer_inProcess {msg : Message sz} {out : Bool × Backend} (hOffer : Bus.offer rounds msg backend = some out)
    (hOut : out.2 = .inProcess channel) :
    ∃ before, backend = .inProcess before ∧ channel.items = before.items ++ if out.1 then [msg.1] else [] := by
  cases backend with
  | inProcess before =>
    cases hOffer
    refine ⟨before, rfl, ?_⟩
    obtain rfl := Backend.inProcess.inj hOut
    simp only [Pipeline.Channel.trySend]
    split_ifs <;> simp_all [Pipeline.Channel.push]
  | shared c memory =>
    rw [Bus.offer, map_eq_some_iff] at hOffer
    obtain ⟨done, -, rfl⟩ := hOffer
    cases hOut

theorem poll_inProcess {out : Option (List UInt8) × Backend} (hPoll : Bus.poll rounds sz backend = some out)
    (hOut : out.2 = .inProcess channel) :
    ∃ before, backend = .inProcess before ∧ before.items = out.1.toList ++ channel.items := by
  cases backend with
  | inProcess before =>
    cases hPoll
    refine ⟨before, rfl, ?_⟩
    obtain rfl := Backend.inProcess.inj hOut
    simp only [Pipeline.Channel.tryRecv]
    cases hItems : before.items <;> simp [hItems]
  | shared c memory =>
    rw [Bus.poll, map_eq_some_iff] at hPoll
    obtain ⟨done, -, rfl⟩ := hPoll
    cases hOut

theorem Books.tryPublish (hBooks : Books w) {msg : Message T.size} {out : Option Nat × Bus}
    (hPublish : w.bus.tryPublish rounds T name msg = some out) :
    Books { w with bus := out.2, log := w.log ++ (out.1.map fun topic => .published topic msg.1).toList } := by
  unfold Bus.tryPublish at hPublish
  cases hFound : w.bus.lookup T name with
  | none =>
    rw [hFound] at hPublish
    cases hPublish
    simpa using hBooks
  | some found =>
    obtain ⟨about, desc⟩ := found
    have hDesc : w.bus.topics[about]? = some desc := lookup_some hFound
    rw [hFound] at hPublish
    simp only [map_eq_some_iff] at hPublish
    obtain ⟨⟨ok, backend⟩, hOffer, rfl⟩ := hPublish
    refine hBooks.exchange hDesc (fun topic hNe => ?_) fun channel hBackend => ?_
    · cases ok <;> simp [publishedTo, deliveriesOf, hNe]
    · obtain ⟨before, hBefore, hItems⟩ := offer_inProcess hOffer hBackend
      have hKept := hBooks.conserved about before (Bus.localChannel_eq.mpr ⟨desc, hDesc, hBefore⟩)
      rw [hKept, hItems]
      cases ok <;> simp [publishedTo, deliveriesOf]

theorem Books.tryRecv (hBooks : Books w) {i : Nat} {sub : Subscription} {out : Option (List UInt8) × Bus}
    (hRecv : w.bus.tryRecv rounds sz sub = some out) :
    Books { w with bus := out.2, log := w.log ++ (out.1.map (.received i sub.topic)).toList } := by
  unfold Bus.tryRecv at hRecv
  cases hDesc : w.bus.topics[sub.topic]? with rw [hDesc] at hRecv
  | none =>
    cases hRecv
    simpa using hBooks
  | some desc =>
    simp only [map_eq_some_iff] at hRecv
    obtain ⟨⟨taken, backend⟩, hPoll, rfl⟩ := hRecv
    refine hBooks.exchange hDesc (fun topic hNe => ?_) fun channel hBackend => ?_
    · cases taken <;> simp [publishedTo, deliveriesOf, hNe]
    · obtain ⟨before, hBefore, hItems⟩ := poll_inProcess hPoll hBackend
      have hKept := hBooks.conserved sub.topic before (Bus.localChannel_eq.mpr ⟨desc, hDesc, hBefore⟩)
      rw [hKept, hItems]
      cases taken <;> simp [publishedTo, deliveriesOf]

/-- Every call keeps the books of the bus. -/
theorem Books.apply (hBooks : Books w) {op : BusOp} (hApply : w.apply rounds op = some w') : Books w' := by
  cases op with
  | declare T name scope cap granted =>
    rw [World.apply, map_eq_some_iff] at hApply
    obtain ⟨out, hDeclare, rfl⟩ := hApply
    exact hBooks.declare hDeclare
  | subscribe T name =>
    cases hApply
    cases w.bus.subscribe T name with
    | none => exact hBooks
    | some sub =>
      constructor
      case conserved =>
        intro topic channel hChannel
        simpa [publishedTo_append, deliveriesOf_append, publishedTo, deliveriesOf] using
          hBooks.conserved topic channel hChannel
      case undeclared =>
        intro topic hTopic
        simpa [publishedTo_append, deliveriesOf_append, publishedTo, deliveriesOf] using
          hBooks.undeclared topic hTopic
  | tryPublish T name msg =>
    rw [World.apply, map_eq_some_iff] at hApply
    obtain ⟨out, hPublish, rfl⟩ := hApply
    exact hBooks.tryPublish hPublish
  | tryRecv i sz =>
    rw [World.apply] at hApply
    cases hSub : w.subs[i]? with rw [hSub] at hApply
    | none =>
      cases hApply
      exact hBooks
    | some sub =>
      simp only [map_eq_some_iff] at hApply
      obtain ⟨out, hRecv, rfl⟩ := hApply
      exact hBooks.tryRecv hRecv

end Books

section Queue

/-- What the subscriptions of a topic have received, all together and in this order, followed by what waits in the
channel, is what was published. -/
theorem shared_queue (rounds : Nat) (ops : List BusOp) :
    LabelledRuns.Always (World.apply rounds) (fun w => ∀ topic channel, w.bus.localChannel topic = some channel →
      (deliveriesOf topic w.log).map (·.2) ++ channel.items = publishedTo topic w.log) ops .initial := by
  refine LabelledRuns.always_of_run (fun ops w hRun topic channel hChannel => ?_) ops
  have hBooks : Books w := LabelledRuns.run_invariant
    (fun _ _ _ hBefore hApply => hBefore.apply hApply) books_initial hRun
  exact (hBooks.conserved topic channel hChannel).symm

def byteWorld (items : List (List UInt8)) (subs : Nat) (log : List BusEvent) : World :=
  ⟨⟨[⟨[116], .localOnly, makeTypeId ⟨1, 1⟩, 4, .inProcess ⟨4, items, false, [], []⟩⟩]⟩,
    List.replicate subs ⟨0, [116]⟩, log⟩

/-- Two subscriptions share the one message: the first takes it, and nothing is left for the second. -/
theorem fanOut_shared :
    World.run 1 [.declare ⟨1, 1⟩ [116] .localOnly 4 true, .subscribe ⟨1, 1⟩ [116], .subscribe ⟨1, 1⟩ [116],
        .tryPublish ⟨1, 1⟩ [116] ⟨[7], rfl⟩, .tryRecv 0 1, .tryRecv 1 1] .initial =
      some (byteWorld [] 2 [.subscribed 0 0, .subscribed 1 0, .published 0 [7], .received 0 0 [7]]) ∧
    Early 1 0 [.subscribed 0 0, .subscribed 1 0, .published 0 [7], .received 0 0 [7]] ∧
    receivedBy 1 0 [.subscribed 0 0, .subscribed 1 0, .published 0 [7], .received 0 0 [7]] ++ [] ≠
      publishedTo 0 [.subscribed 0 0, .subscribed 1 0, .published 0 [7], .received 0 0 [7]] :=
  ⟨rfl, ⟨[.subscribed 0 0], [.published 0 [7], .received 0 0 [7]], rfl, rfl⟩, by decide⟩

end Queue

end Shm
