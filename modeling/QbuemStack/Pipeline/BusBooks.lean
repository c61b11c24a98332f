import QbuemStack.Pipeline.MessageBus

/-! The books of a run. Every delivery is written down with the number of its publication, so that
equal messages are told apart. -/
namespace Pipeline

open Function
open List (mem_append mem_cons_self mem_filter mem_map mem_singleton)
open Option (any_some map_eq_some_iff)

namespace Bus

variable {τ α : Type}

section Account

variable {acc acc' : Account τ α} {call : Call τ α} {sent : Sent} {n : Nat} {p : Pending τ α}

theorem called_calls : (acc.called call sent).calls = acc.calls ++ [call] := by
  rw [Account.called]
  split <;> rfl

theorem called_log : (acc.called call sent).log =
    acc.log ++ sent.took.map fun id => ⟨acc.calls.length, call.topic, id, call.msg⟩ := by
  rw [Account.called]
  split <;> rfl

theorem called_succeeded : n ∈ (acc.called call sent).succeeded ↔
    n ∈ acc.succeeded ∨ (sent.outcome = .finished ∧ n = acc.calls.length) := by
  rw [Account.called]
  split
  case h_2 hOutcome => simp [hOutcome]
  all_goals
    rename_i hOutcome
    simp [hOutcome]

theorem called_pending_old (hOld : n ≠ acc.calls.length) : (acc.called call sent).pending n = acc.pending n := by
  rw [Account.called]
  split
  case h_3 => exact update_of_ne hOld _ _
  all_goals rfl

theorem called_pending (hPending : (acc.called call sent).pending n = some p) :
    acc.pending n = some p ∨ (n = acc.calls.length ∧ p.topic = call.topic ∧ p.msg = call.msg ∧
      sent.outcome = .awaiting p.rest) := by
  rw [Account.called] at hPending
  split at hPending
  case h_3 rest hOutcome =>
    by_cases hNew : n = acc.calls.length
    · subst hNew
      simp only [update_self] at hPending
      cases hPending
      exact .inr ⟨rfl, rfl, rfl, hOutcome⟩
    · exact .inl ((update_of_ne hNew _ _).symm.trans hPending)
  all_goals exact .inl hPending

theorem called_awaiting {rest : List Sub} (hOutcome : sent.outcome = .awaiting rest) :
    (acc.called call sent).pending acc.calls.length = some ⟨call.topic, call.msg, rest⟩ := by
  rw [Account.called, hOutcome]
  exact update_self _ _ _

theorem invoke_cases (hInvoke : acc.invoke n = some acc') : ∃ current, acc.pending n = some current ∧
    ((current.rest = [] ∧ acc' = { acc with
        pending := update acc.pending n none
        succeeded := acc.succeeded ++ [n] }) ∨
      ∃ sub rest, current.rest = sub :: rest ∧ acc' = { acc with
        pending := update acc.pending n (some { current with rest })
        log := acc.log ++ [⟨n, current.topic, sub.id, current.msg⟩] }) := by
  rw [Account.invoke] at hInvoke
  split at hInvoke
  case h_1 => cases hInvoke
  case h_2 current hCurrent =>
    refine ⟨current, hCurrent, ?_⟩
    split at hInvoke
    case h_1 hRest => exact .inl ⟨hRest, (Option.some.inj hInvoke).symm⟩
    case h_2 sub rest hRest => exact .inr ⟨sub, rest, hRest, (Option.some.inj hInvoke).symm⟩

/-- After a step of one call the pending calls are those from before, except that this one has fewer
handlers. -/
theorem invoke_pending {m : Nat} {current : Pending τ α} (hCurrent : acc.pending n = some current)
    (hInvoke : acc.invoke n = some acc') (hPending : acc'.pending m = some p) :
    acc.pending m = some p ∨ (m = n ∧ p.topic = current.topic ∧ p.msg = current.msg ∧
      ∃ sub, current.rest = sub :: p.rest) := by
  obtain ⟨before, hBefore, hCases⟩ := invoke_cases hInvoke
  cases hCurrent.symm.trans hBefore
  by_cases hSame : m = n
  · subst hSame
    obtain ⟨-, rfl⟩ | ⟨sub, rest, hRest, rfl⟩ := hCases
    · simp only [update_self] at hPending
      cases hPending
    · simp only [update_self] at hPending
      cases hPending
      exact .inr ⟨rfl, rfl, rfl, sub, hRest⟩
  · refine .inl ?_
    obtain ⟨-, rfl⟩ | ⟨sub, rest, hRest, rfl⟩ := hCases <;>
      exact (update_of_ne hSame _ _).symm.trans hPending

end Account

section Books

variable {ledger : List (Entry τ)} {acc acc' : Account τ α} {call : Call τ α} {sent : Sent} {w w' : World τ α}

def Delivery.key (delivery : Delivery τ α) : String × Nat := (delivery.topic, delivery.id)

def heardBy (log : List (Delivery τ α)) (key : String × Nat) : List (Delivery τ α) :=
  log.filter fun delivery => delivery.key = key

def Heard (streams : List (StreamChannel τ α)) (ledger : List (Entry τ)) (log : List (Delivery τ α)) : Prop :=
  ∀ entry ∈ ledger, ∀ i stream, entry.index = some i → streams[i]? = some stream →
    stream.taken ++ stream.channel.items = (heardBy log entry.key).map fun delivery => delivery.msg.value

theorem heardBy_append (log more : List (Delivery τ α)) (key : String × Nat) :
    heardBy (log ++ more) key = heardBy log key ++ heardBy more key := by
  rw [heardBy, List.filter_append]
  rfl

variable {log : List (Delivery τ α)} {key : String × Nat} {cancelled : List (String × Nat)} {topic : String}
    {bus : MessageBus τ α} {handles : List Subscription} {i n : Nat} {streams : List (StreamChannel τ α)}

theorem heardBy_nil (hNone : ∀ d ∈ log, d.key ≠ key) :
    heardBy log key = [] := List.filter_eq_nil_iff.mpr fun d hd => by simp [hNone d hd]

theorem heardBy_took (n : Nat) (topic : String) (msg : Msg τ α) {took : List Nat} (hNodup : took.Nodup)
    (key : String × Nat) : heardBy (took.map fun id => ⟨n, topic, id, msg⟩) key =
      if key.1 = topic ∧ key.2 ∈ took then [⟨n, topic, key.2, msg⟩] else [] := by
  rw [heardBy, List.filter_map]
  by_cases hTopic : key.1 = topic
  · have hId : ((fun d : Delivery τ α => decide (d.key = key)) ∘ fun id => ⟨n, topic, id, msg⟩) = (· = key.2) := by
      funext id
      simp [Delivery.key, Prod.ext_iff, hTopic]
    rw [hId, List.filter_eq, hNodup.count]
    split_ifs <;> simp_all
  · rw [if_neg fun h => hTopic h.1, List.map_eq_nil_iff, List.filter_eq_nil_iff]
    rintro id - hKey
    exact hTopic (congrArg Prod.fst (of_decide_eq_true hKey)).symm

theorem disordered_append (more : List (Delivery τ α))
    (hOrder : ¬((heardBy log key).map Delivery.call).Pairwise (· < ·)) :
    ¬((heardBy (log ++ more) key).map Delivery.call).Pairwise (· < ·) := by
  rw [heardBy_append, List.map_append, List.pairwise_append]
  exact fun hBoth => hOrder hBoth.1

theorem mem_activeOf {entry : Entry τ} :
    entry ∈ activeOf ledger cancelled topic ↔ entry ∈ ledger ∧ entry.topic = topic ∧ entry.key ∉ cancelled := by
  rw [activeOf, mem_filter, Bool.and_eq_true, decide_eq_true_eq, Bool.not_eq_true', ← Bool.not_eq_true,
    List.contains_iff_mem]
  rfl

theorem Listed.key_inj (hListed : Listed bus handles ledger cancelled) {first second : Entry τ}
    (hFirst : first ∈ ledger) (hSecond : second ∈ ledger) (hTopic : first.topic = second.topic)
    (hId : first.id = second.id) : first = second :=
  List.inj_on_of_nodup_map hListed.keys hFirst hSecond (by rw [Entry.key, Entry.key, hTopic, hId])

theorem Listed.ids_nodup (hListed : Listed bus handles ledger cancelled) {entries : List (Entry τ)}
    (hEntries : entries.Sublist ledger) (hTopic : ∀ entry ∈ entries, entry.topic = topic) :
    (entries.map Entry.id).Nodup := by
  have hKeys : (entries.map Entry.key).Nodup := hListed.keys.sublist (hEntries.map _)
  have hSplit : entries.map Entry.key = (entries.map Entry.id).map fun id => (topic, id) := by
    rw [List.map_map]
    exact List.map_congr_left fun entry hEntry => by rw [Entry.key, hTopic entry hEntry]; rfl
  rw [hSplit] at hKeys
  exact hKeys.of_map _

theorem getElem?_append_of_some {β : Type} {l more : List β} {x : β} (hGet : l[i]? = some x) :
    (l ++ more)[i]? = some x := by
  rw [List.getElem?_append_left (List.getElem?_eq_some_iff.mp hGet).1]
  exact hGet

theorem Heard.handler (hHeard : Heard streams ledger log) (topic : String) (id : Nat) :
    Heard streams (ledger ++ [⟨topic, id, none⟩]) log := by
  intro entry hEntry i stream hIndex hStream
  rcases mem_append.mp hEntry with hOld | hNew
  · exact hHeard entry hOld i stream hIndex hStream
  · obtain rfl := mem_singleton.mp hNew
    cases hIndex

theorem receive_all (stream : StreamChannel τ α) :
    stream.receive.taken ++ stream.receive.channel.items = stream.taken ++ stream.channel.items := by
  rw [StreamChannel.receive, Channel.tryRecv]
  cases hItems : stream.channel.items <;> simp [hItems]

theorem receive_same (stream : StreamChannel τ α) :
    stream.receive.type = stream.type ∧ stream.receive.channel.closed = stream.channel.closed := by
  rw [StreamChannel.receive, Channel.tryRecv]
  cases hItems : stream.channel.items <;> simp

theorem modify_receive {j : Nat} {stream' : StreamChannel τ α}
    (hGet : (streams.modify j StreamChannel.receive)[i]? = some stream') :
    ∃ stream, streams[i]? = some stream ∧ (stream' = stream ∨ stream' = stream.receive) := by
  by_cases hSame : j = i
  · subst hSame
    rw [List.getElem?_modify_eq] at hGet
    obtain ⟨stream, hStream, rfl⟩ := map_eq_some_iff.mp hGet
    exact ⟨stream, hStream, .inr rfl⟩
  · rw [List.getElem?_modify_ne _ _ hSame] at hGet
    exact ⟨stream', hGet, .inl rfl⟩

theorem closeTopic_streams : (bus.closeTopic topic).streams = bus.streams := by
  rw [MessageBus.closeTopic]
  split <;> rfl

theorem foldl_closeTopic {P : MessageBus τ α → Prop} (hClose : ∀ bus topic, P bus → P (bus.closeTopic topic))
    (names : List String) (hBus : P bus) : P (names.foldl (fun bus topic => bus.closeTopic topic) bus) := by
  induction names generalizing bus with
  | nil => exact hBus
  | cons topic names ih => exact ih (hClose bus topic hBus)

variable [DecidableEq τ]

def Entry.addressed (msg : Msg τ α) (entry : Entry τ) : Bool := entry.stream.all fun stream => stream.1 = msg.type

structure Noted (ledger : List (Entry τ)) (acc : Account τ α) : Prop where
  active : ∀ call ∈ acc.calls, call.active.Sublist ledger ∧ ∀ entry ∈ call.active, entry.topic = call.topic
  waiting : ∀ n p, acc.pending n = some p → ∃ call, acc.calls[n]? = some call ∧ p.topic = call.topic ∧
    p.msg = call.msg ∧ p.rest.Sublist ((call.active.filter fun entry => entry.stream.isNone).map Entry.sub)
  noted : ∀ delivery ∈ acc.log, ∃ call, acc.calls[delivery.call]? = some call ∧ delivery.topic = call.topic ∧
    delivery.msg = call.msg ∧ ∃ entry ∈ call.active, entry.id = delivery.id ∧ entry.addressed call.msg = true
  past : ∀ n ∈ acc.succeeded, n < acc.calls.length ∧ acc.pending n = none

structure Books (w : World τ α) : Prop where
  listed : Listed w.bus w.handles w.ledger w.cancelled
  wired : Wired w.bus.streams w.ledger
  heard : Heard w.bus.streams w.ledger w.account.log
  noted : Noted w.ledger w.account

section

variable (hNoted : Noted ledger acc)
include hNoted

theorem Noted.frame {ledger' : List (Entry τ)} (hGrown : ledger.Sublist ledger') : Noted ledger' acc :=
  { hNoted with active := fun call hCall => (hNoted.active call hCall).imp_left fun hOld => hOld.trans hGrown }

theorem Noted.lt_length {p : Pending τ α} (hPending : acc.pending n = some p) : n < acc.calls.length := by
  obtain ⟨call, hCall, -⟩ := hNoted.waiting n p hPending
  exact (List.getElem?_eq_some_iff.mp hCall).1

theorem Noted.called (hActive : call.active.Sublist ledger) (hTopic : ∀ entry ∈ call.active, entry.topic = call.topic)
    (hTook : ∀ id ∈ sent.took, ∃ entry ∈ call.active, entry.id = id ∧ entry.addressed call.msg = true)
    (hRest : ∀ rest, sent.outcome = .awaiting rest →
      rest.Sublist ((call.active.filter fun entry => entry.stream.isNone).map Entry.sub)) :
    Noted ledger (acc.called call sent) := by
  constructor
  case active =>
    intro other hOther
    rw [called_calls] at hOther
    rcases mem_append.mp hOther with hOld | hNew
    · exact hNoted.active other hOld
    · obtain rfl := mem_singleton.mp hNew
      exact ⟨hActive, hTopic⟩
  case waiting =>
    intro n p hPending
    rw [called_calls]
    rcases called_pending hPending with hOld | ⟨rfl, hEqTopic, hEqMsg, hOutcome⟩
    · obtain ⟨other, hOther, hFacts⟩ := hNoted.waiting n p hOld
      exact ⟨other, getElem?_append_of_some hOther, hFacts⟩
    · exact ⟨call, List.getElem?_concat_length, hEqTopic, hEqMsg, hRest _ hOutcome⟩
  case noted =>
    intro delivery hDelivery
    rw [called_log] at hDelivery
    rw [called_calls]
    rcases mem_append.mp hDelivery with hOld | hNew
    · obtain ⟨other, hOther, hFacts⟩ := hNoted.noted delivery hOld
      exact ⟨other, getElem?_append_of_some hOther, hFacts⟩
    · obtain ⟨id, hId, rfl⟩ := mem_map.mp hNew
      exact ⟨call, List.getElem?_concat_length, rfl, rfl, hTook id hId⟩
  case past =>
    intro n hn
    rw [called_calls, List.length_append, List.length_singleton]
    rcases called_succeeded.mp hn with hOld | ⟨hOutcome, rfl⟩
    · obtain ⟨hLt, hNone⟩ := hNoted.past n hOld
      exact ⟨Nat.lt_succ_of_lt hLt, (called_pending_old (Nat.ne_of_lt hLt)).trans hNone⟩
    · refine ⟨Nat.lt_succ_self _, Option.eq_none_iff_forall_ne_some.mpr fun p hPending => ?_⟩
      rcases called_pending hPending with hOld | ⟨-, -, -, hAwaiting⟩
      · exact Nat.lt_irrefl _ (hNoted.lt_length hOld)
      · rw [hOutcome] at hAwaiting
        cases hAwaiting

theorem Noted.invoke (hInvoke : acc.invoke n = some acc') : Noted ledger acc' := by
  obtain ⟨current, hCurrent, hCases⟩ := invoke_cases hInvoke
  obtain ⟨call, hCall, hTopic, hMsg, hRest⟩ := hNoted.waiting n current hCurrent
  have hCalls : acc'.calls = acc.calls := by obtain ⟨-, rfl⟩ | ⟨sub, rest, -, rfl⟩ := hCases <;> rfl
  constructor
  case active =>
    rw [hCalls]
    exact hNoted.active
  case waiting =>
    intro m p hPending
    rw [hCalls]
    rcases invoke_pending hCurrent hInvoke hPending with hOld | ⟨rfl, hSameTopic, hSameMsg, sub, hBefore⟩
    · exact hNoted.waiting m p hOld
    · refine ⟨call, hCall, hSameTopic.trans hTopic, hSameMsg.trans hMsg, ?_⟩
      rw [hBefore] at hRest
      exact (List.sublist_cons_self _ _).trans hRest
  case noted =>
    obtain ⟨-, rfl⟩ | ⟨sub, rest, hBefore, rfl⟩ := hCases
    · exact hNoted.noted
    · intro delivery hDelivery
      rcases mem_append.mp hDelivery with hOld | hNew
      · exact hNoted.noted delivery hOld
      · obtain rfl := mem_singleton.mp hNew
        have hSub := hRest.subset (hBefore ▸ mem_cons_self)
        obtain ⟨entry, hEntry, rfl⟩ := mem_map.mp hSub
        obtain ⟨hMem, hHandler⟩ := mem_filter.mp hEntry
        refine ⟨call, hCall, hTopic, hMsg, entry, hMem, rfl, ?_⟩
        rw [Entry.addressed, Option.isNone_iff_eq_none.mp hHandler, Option.all_none]
  case past =>
    rw [hCalls]
    have hStill : ∀ m, acc.pending m = none → acc'.pending m = none := by
      intro m hNone
      refine Option.eq_none_iff_forall_ne_some.mpr fun p hPending => ?_
      rcases invoke_pending hCurrent hInvoke hPending with hOld | ⟨rfl, -⟩
      · exact nomatch hNone.symm.trans hOld
      · exact nomatch hNone.symm.trans hCurrent
    intro m hm
    have hOld : m ∈ acc.succeeded ∨ (m = n ∧ acc'.pending m = none) := by
      obtain ⟨-, rfl⟩ | ⟨sub, rest, -, rfl⟩ := hCases
      · rcases mem_append.mp hm with hOld | hNew
        · exact .inl hOld
        · obtain rfl := mem_singleton.mp hNew
          exact .inr ⟨rfl, update_self _ _ _⟩
      · exact .inl hm
    rcases hOld with hOld | ⟨rfl, hNone⟩
    · exact ⟨(hNoted.past m hOld).1, hStill m (hNoted.past m hOld).2⟩
    · exact ⟨hNoted.lt_length hCurrent, hNone⟩

end

section Stream

variable {streams : List (StreamChannel τ α)} {entry : Entry τ} {msg : Msg τ α} {i : Nat} {stream : StreamChannel τ α}

theorem sub_takes (hIndex : entry.index = some i) (hStream : streams[i]? = some stream) :
    entry.sub.takes msg streams = stream.takes msg := by
  have hSender : entry.sub.directSender = some i := hIndex
  rw [Sub.takes, hSender, any_some, hStream, any_some]

theorem stream_of_takes (hTakes : entry.sub.takes msg streams = true) :
    ∃ i stream, entry.index = some i ∧ streams[i]? = some stream ∧ stream.takes msg = true := by
  rw [Sub.takes, Option.any_eq_true] at hTakes
  obtain ⟨i, hIndex, hAny⟩ := hTakes
  obtain ⟨stream, hStream, hStreamTakes⟩ := (Option.any_eq_true _ _).mp hAny
  exact ⟨i, stream, hIndex, hStream, hStreamTakes⟩

end Stream

section Publication

variable {topic : String} {msg : Msg τ α} {out : Sent × MessageBus τ α} {reached : List (Entry τ)} {entry : Entry τ}

section

variable (hSends : Sends w topic msg out reached)
include hSends

theorem Sends.mem (hEntry : entry ∈ reached) : entry ∈ w.ledger ∧ entry.topic = topic :=
  have hActive := mem_activeOf.mp (hSends.among.subset hEntry)
  ⟨hActive.1, hActive.2.1⟩

theorem Sends.mem_took {id : Nat} : id ∈ out.1.took ↔
    ∃ entry ∈ reached, entry.sub.takes msg w.bus.streams = true ∧ entry.id = id := by
  rw [hSends.offered.takers, mem_map]
  simp only [mem_filter, and_assoc]

theorem Sends.took_nodup (hListed : Listed w.bus w.handles w.ledger w.cancelled) : out.1.took.Nodup := by
  have hIds := hListed.ids_nodup (hSends.among.trans List.filter_sublist) fun entry hEntry => (hSends.mem hEntry).2
  rw [hSends.offered.takers]
  exact hIds.sublist (List.filter_sublist.map _)

end

section

variable (hBooks : Books w) (hSends : Sends w topic msg out reached)
include hBooks hSends

theorem Sends.accepted (hEntry : entry ∈ w.ledger) {i : Nat} {stream : StreamChannel τ α}
    (hIndex : entry.index = some i) (hStream : w.bus.streams[i]? = some stream) :
    (i ∈ reached.filterMap Entry.index ∧ stream.takes msg = true) ↔ (entry.topic = topic ∧ entry.id ∈ out.1.took) := by
  constructor
  · rintro ⟨hReached, hTakes⟩
    obtain ⟨other, hOther, hSame⟩ := List.mem_filterMap.mp hReached
    obtain rfl := hBooks.wired.own (hSends.mem hOther).1 hEntry hSame hIndex
    refine ⟨(hSends.mem hOther).2, hSends.mem_took.mpr ⟨other, hOther, ?_, rfl⟩⟩
    rw [sub_takes hIndex hStream]
    exact hTakes
  · rintro ⟨hTopic, hTook⟩
    obtain ⟨other, hOther, hTakes, hId⟩ := hSends.mem_took.mp hTook
    obtain ⟨hMem, hOtherTopic⟩ := hSends.mem hOther
    obtain rfl := hBooks.listed.key_inj hMem hEntry (hOtherTopic.trans hTopic.symm) hId
    rw [sub_takes hIndex hStream] at hTakes
    exact ⟨List.mem_filterMap.mpr ⟨other, hOther, hIndex⟩, hTakes⟩

theorem Heard.publication (n : Nat) :
    Heard out.2.streams w.ledger (w.account.log ++ out.1.took.map fun id => ⟨n, topic, id, msg⟩) := by
  intro entry hEntry i stream' hIndex hGet
  rw [hSends.offered.get] at hGet
  obtain ⟨stream, hStream, rfl⟩ := map_eq_some_iff.mp hGet
  have hBefore := hBooks.heard entry hEntry i stream hIndex hStream
  rw [heardBy_append, List.map_append, heardBy_took n topic msg (hSends.took_nodup hBooks.listed), ← hBefore]
  have hAccepted := hSends.accepted hBooks hEntry hIndex hStream
  by_cases hTook : entry.key.1 = topic ∧ entry.key.2 ∈ out.1.took
  · rw [if_pos (hAccepted.mpr hTook), if_pos hTook]
    exact (List.append_assoc _ _ _).symm
  · rw [if_neg fun hBoth => hTook (hAccepted.mp hBoth), if_neg hTook, List.map_nil, List.append_nil]

theorem Wired.publication : Wired out.2.streams w.ledger := by
  refine hBooks.wired.frame hSends.offered.length fun i stream' hGet => ?_
  rw [hSends.offered.get] at hGet
  obtain ⟨stream, hStream, rfl⟩ := map_eq_some_iff.mp hGet
  refine ⟨stream, hStream, ?_⟩
  split_ifs <;> exact ⟨rfl, rfl⟩

end

theorem Wired.addressed {streams : List (StreamChannel τ α)} (hWired : Wired streams ledger) (hEntry : entry ∈ ledger)
    (hTakes : entry.sub.takes msg streams = true) : entry.addressed msg = true := by
  obtain ⟨i, stream, hIndex, hStream, hStreamTakes⟩ := stream_of_takes hTakes
  obtain ⟨⟨type, j⟩, hPair, rfl⟩ := map_eq_some_iff.mp hIndex
  obtain ⟨same, hSame, hType⟩ := hWired.typed entry hEntry type j hPair
  cases hStream.symm.trans hSame
  rw [Entry.addressed, hPair, Option.all_some, decide_eq_true_eq, ← hType]
  exact (stream.takes_iff.mp hStreamTakes).1

theorem Books.publication (hBooks : Books w) (hSends : Sends w topic msg out reached) :
    Books (w.publication topic msg out) := by
  have hTopics : ∀ other, (w.publication topic msg out).bus.getOrCreateTopic other = w.bus.getOrCreateTopic other := by
    intro other
    rw [MessageBus.getOrCreateTopic, World.publication, hSends.topics]
    rfl
  constructor
  case listed => exact hBooks.listed.frame (fun other => by rw [hTopics]) fun other => by rw [hTopics]
  case wired =>
    have hWired := Wired.publication hBooks hSends
    exact hWired
  case heard =>
    rw [World.publication, called_log]
    exact Heard.publication hBooks hSends _
  case noted =>
    refine hBooks.noted.called List.filter_sublist (fun entry hEntry => (mem_activeOf.mp hEntry).2.1) ?_ ?_
    · intro id hId
      obtain ⟨entry, hEntry, hTakes, rfl⟩ := hSends.mem_took.mp hId
      exact ⟨entry, hSends.among.subset hEntry, rfl, hBooks.wired.addressed (hSends.mem hEntry).1 hTakes⟩
    · intro rest hRest
      obtain ⟨hAll, rfl⟩ := hSends.awaiting rest hRest
      rw [hAll]

end Publication

section

variable (hBooks : Books w)
include hBooks

theorem Heard.invoke {acc' : Account τ α} (hInvoke : w.account.invoke n = some acc') :
    Heard w.bus.streams w.ledger acc'.log := by
  obtain ⟨current, hCurrent, ⟨-, rfl⟩ | ⟨sub, rest, hRest, rfl⟩⟩ := invoke_cases hInvoke
  · exact hBooks.heard
  · intro entry hEntry i stream hIndex hStream
    obtain ⟨call, hCall, hTopic, -, hSublist⟩ := hBooks.noted.waiting n current hCurrent
    obtain ⟨handler, hHandler, rfl⟩ := mem_map.mp (hSublist.subset (hRest ▸ mem_cons_self))
    obtain ⟨hMem, hNoStream⟩ := mem_filter.mp hHandler
    obtain ⟨hLedger, hTopics⟩ := hBooks.noted.active call (List.mem_of_getElem? hCall)
    have hOther : ∀ d ∈ [(⟨n, current.topic, handler.sub.id, current.msg⟩ : Delivery τ α)], d.key ≠ entry.key := by
      intro d hd hKey
      obtain rfl := mem_singleton.mp hd
      have hSame : handler = entry := by
        refine hBooks.listed.key_inj (hLedger.subset hMem) hEntry ?_ (congrArg Prod.snd hKey)
        rw [hTopics handler hMem, ← hTopic]
        exact congrArg Prod.fst hKey
      rw [hSame] at hNoStream
      rw [Entry.index, Option.isNone_iff_eq_none.mp hNoStream] at hIndex
      cases hIndex
    rw [heardBy_append, heardBy_nil hOther, List.append_nil]
    exact hBooks.heard entry hEntry i stream hIndex hStream

theorem Books.unheard (hNew : key ∉ w.ledger.map Entry.key) : heardBy w.account.log key = [] := by
  refine heardBy_nil fun d hd hKey => hNew ?_
  obtain ⟨call, hCall, hTopic, -, entry, hEntry, hId, -⟩ := hBooks.noted.noted d hd
  obtain ⟨hLedger, hTopics⟩ := hBooks.noted.active call (List.mem_of_getElem? hCall)
  refine mem_map.mpr ⟨entry, hLedger.subset hEntry, ?_⟩
  rw [← hKey, Entry.key, Delivery.key, hTopics entry hEntry, hTopic, hId]

theorem Heard.stream (topic : String) (type : τ) (capacity : Nat) :
    Heard (w.bus.streams ++ [⟨type, Channel.new capacity, []⟩])
      (w.ledger ++ [⟨topic, (w.bus.getOrCreateTopic topic).nextId, some (type, w.bus.streams.length)⟩])
      w.account.log := by
  intro entry hEntry i stream hIndex hStream
  rcases mem_append.mp hEntry with hOld | hNew
  · have hLt : i < w.bus.streams.length := by
      have hMem : i ∈ w.ledger.filterMap Entry.index := List.mem_filterMap.mpr ⟨entry, hOld, hIndex⟩
      rw [hBooks.wired.numbered] at hMem
      exact List.mem_range.mp hMem
    rw [List.getElem?_append_left hLt] at hStream
    exact hBooks.heard entry hOld i stream hIndex hStream
  · obtain rfl := mem_singleton.mp hNew
    cases hIndex
    cases List.getElem?_concat_length.symm.trans hStream
    rw [Entry.key, hBooks.unheard (hBooks.listed.newKey topic)]
    rfl

theorem Books.receive (j : Nat) :
    Books { w with bus := { w.bus with streams := w.bus.streams.modify j StreamChannel.receive } } := by
  constructor
  case listed => exact hBooks.listed.frame (fun _ => rfl) fun _ => Nat.le_refl _
  case wired =>
    refine hBooks.wired.frame (List.length_modify _ _ _) fun i stream' hGet => ?_
    obtain ⟨stream, hStream, rfl | rfl⟩ := modify_receive hGet
    · exact ⟨_, hStream, rfl, rfl⟩
    · exact ⟨stream, hStream, receive_same stream⟩
  case heard =>
    intro entry hEntry i stream' hIndex hGet
    obtain ⟨stream, hStream, rfl | rfl⟩ := modify_receive hGet
    · exact hBooks.heard entry hEntry i _ hIndex hStream
    · rw [receive_all]
      exact hBooks.heard entry hEntry i stream hIndex hStream
  case noted => exact hBooks.noted

theorem Books.subscribe (topic : String) : Books { w with
    bus := (w.bus.subscribe topic).2
    handles := w.handles ++ [(w.bus.subscribe topic).1]
    ledger := w.ledger ++ [⟨topic, (w.bus.subscribe topic).1.id, none⟩] } := by
  have hListed := hBooks.listed.register topic (fun id => ⟨id, true, none, none⟩) none fun _ => rfl
  constructor
  case listed =>
    refine { hListed with held := fun handle hHandle => ?_ }
    rcases mem_append.mp hHandle with hOld | hNew
    · exact hListed.held handle hOld
    · obtain rfl := mem_singleton.mp hNew
      exact hListed.fresh ⟨topic, _, none⟩ (List.mem_append_right _ mem_cons_self)
  case wired => exact hBooks.wired.handler _ _
  case heard => exact hBooks.heard.handler _ _
  case noted => exact hBooks.noted.frame (List.sublist_append_left _ _)

theorem Books.subscribeStream (topic : String) (type : τ) (capacity : Nat) : Books { w with
    bus := (MessageBus.register topic (fun id => ⟨id, false, none, some w.bus.streams.length⟩)
      { w.bus with streams := w.bus.streams ++ [⟨type, Channel.new capacity, []⟩] }).2
    ledger := w.ledger ++ [⟨topic, (w.bus.getOrCreateTopic topic).nextId, some (type, w.bus.streams.length)⟩] } := by
  constructor
  case listed =>
    have hSame : Listed { w.bus with streams := w.bus.streams ++ [⟨type, Channel.new capacity, []⟩] } w.handles
        w.ledger w.cancelled := hBooks.listed.frame (fun _ => rfl) fun _ => Nat.le_refl _
    exact hSame.register topic _ (some (type, w.bus.streams.length)) fun _ => rfl
  case wired => exact hBooks.wired.stream _ _ _ _
  case heard => exact Heard.stream hBooks topic type capacity
  case noted => exact hBooks.noted.frame (List.sublist_append_left _ _)

theorem Books.cancel {handle : Subscription} (hHandle : w.handles[i]? = some handle) : Books { w with
      bus := w.bus.unsubscribe handle.topic handle.id
      handles := w.handles.set i { handle with active := false }
      cancelled := w.cancelled ++ [(handle.topic, handle.id)] } := by
  have hPast := hBooks.listed.held handle (List.mem_of_getElem? hHandle)
  have hListed := hBooks.listed.unsubscribe handle.id hPast
  have hStreams : (w.bus.unsubscribe handle.topic handle.id).streams = w.bus.streams := by
    rw [MessageBus.unsubscribe]
    split <;> rfl
  constructor
  case listed =>
    refine { hListed with held := fun other hOther => ?_ }
    rcases List.mem_or_eq_of_mem_set hOther with hOld | rfl
    · exact hListed.held other hOld
    · exact hListed.held handle (List.mem_of_getElem? hHandle)
  case wired =>
    rw [hStreams]
    exact hBooks.wired
  case heard =>
    rw [hStreams]
    exact hBooks.heard
  case noted => exact hBooks.noted

theorem Books.closeTopic (topic : String) : Books { w with bus := w.bus.closeTopic topic } := by
  refine ⟨hBooks.listed.closeTopic, ?_, ?_, hBooks.noted⟩
  · rw [closeTopic_streams]
    exact hBooks.wired
  · rw [closeTopic_streams]
    exact hBooks.heard

/-- Every step keeps the books. -/
theorem Books.next {label : Label τ α} (hNext : w.next label = some w') : Books w' := by
  cases label with
  | subscribe topic =>
    cases hNext
    exact hBooks.subscribe topic
  | subscribeStream topic type cap =>
    rw [World.next, MessageBus.subscribeStream, Option.map_map] at hNext
    obtain ⟨capacity, -, rfl⟩ := map_eq_some_iff.mp hNext
    exact hBooks.subscribeStream topic type capacity
  | cancel i =>
    obtain ⟨handle, hHandle, rfl⟩ := map_eq_some_iff.mp hNext
    split_ifs
    · exact hBooks.cancel hHandle
    · exact hBooks
  | publish topic msg =>
    cases hNext
    obtain ⟨reached, hSends⟩ := publish_sends hBooks.listed hBooks.wired topic msg
    exact hBooks.publication hSends
  | invoke n =>
    obtain ⟨acc', hInvoke, rfl⟩ := map_eq_some_iff.mp hNext
    exact ⟨hBooks.listed, hBooks.wired, Heard.invoke hBooks hInvoke, hBooks.noted.invoke hInvoke⟩
  | tryPublish topic msg =>
    cases hNext
    obtain ⟨reached, hSends⟩ := tryPublish_sends hBooks.listed hBooks.wired topic msg
    exact hBooks.publication hSends
  | receive j =>
    cases hNext
    exact hBooks.receive j
  | closeTopic topic =>
    cases hNext
    exact hBooks.closeTopic topic
  | drain =>
    cases hNext
    exact foldl_closeTopic (P := fun bus => Books { w with bus }) (fun bus topic hBus => hBus.closeTopic topic) _
      hBooks

theorem Books.call_lt {d : Delivery τ α} (hd : d ∈ w.account.log) : d.call < w.account.calls.length := by
  obtain ⟨call, hCall, -⟩ := hBooks.noted.noted d hd
  exact (List.getElem?_eq_some_iff.mp hCall).1

end

theorem next_account {label : Label τ α} (hNext : w.next label = some w') : w'.account = w.account ∨
      (∃ topic msg, label = .publish topic msg ∧ w' = w.publication topic msg (w.bus.publish topic msg)) ∨
      (∃ topic msg, label = .tryPublish topic msg ∧ w' = w.publication topic msg (w.bus.tryPublish topic msg)) ∨
      ∃ n, label = .invoke n ∧ w.account.invoke n = some w'.account := by
  cases label with
  | publish topic msg => exact .inr (.inl ⟨topic, msg, rfl, (Option.some.inj hNext).symm⟩)
  | tryPublish topic msg => exact .inr (.inr (.inl ⟨topic, msg, rfl, (Option.some.inj hNext).symm⟩))
  | invoke n =>
    obtain ⟨acc', hInvoke, rfl⟩ := map_eq_some_iff.mp hNext
    exact .inr (.inr (.inr ⟨n, rfl, hInvoke⟩))
  | subscribeStream topic type cap =>
    obtain ⟨_, -, rfl⟩ := map_eq_some_iff.mp hNext
    exact .inl rfl
  | cancel i =>
    obtain ⟨handle, -, rfl⟩ := map_eq_some_iff.mp hNext
    split_ifs <;> exact .inl rfl
  | subscribe | receive | closeTopic | drain => exact .inl (congrArg World.account (Option.some.inj hNext)).symm

theorem books_start : Books (World.start : World τ α) := by
  have hNew : ∀ topic, (World.start : World τ α).bus.getOrCreateTopic topic = TopicState.new := fun topic => rfl
  refine ⟨⟨fun topic => ?_, ?_, List.nodup_nil, ?_, ?_⟩, ⟨rfl, ?_, ?_⟩, ?_, ⟨?_, ?_, ?_, ?_⟩⟩
  · rfl
  all_goals exact nofun

theorem books_run {labels : List (Label τ α)} (hRun : LabelledRuns.run World.next labels World.start = some w) :
    Books w :=
  LabelledRuns.run_invariant (fun _ _ _ hBooks hNext => Books.next hBooks hNext) books_start hRun

end Books

end Bus

end Pipeline
