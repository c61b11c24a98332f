import QbuemStack.Pipeline.BusBooks

/-! What the publications of a run deliver. Each condition is stated for one step, and together they
are exact. -/
namespace Pipeline

open Function LabelledRuns
open List (mem_append mem_append_left mem_cons_self mem_filter mem_map mem_singleton)

namespace Bus

variable {τ α : Type}

section Contract

variable [DecidableEq τ] {w w' : World τ α} {topic : String} {msg : Msg τ α} {out : Sent × MessageBus τ α}
  {reached : List (Entry τ)} {acc' : Account τ α} {n : Nat}

/-- Successful publications reached every active and addressed subscription and no other, in their
order and at most once, and a stream holds what it heard. -/
structure Contract (w : World τ α) : Prop where
  received : ∀ n ∈ w.account.succeeded, ∀ call, w.account.calls[n]? = some call → ∀ entry ∈ call.active,
    entry.addressed call.msg = true → ⟨n, call.topic, entry.id, call.msg⟩ ∈ w.account.log
  active : ∀ delivery ∈ w.account.log, ∃ call, w.account.calls[delivery.call]? = some call ∧
    delivery.topic = call.topic ∧ delivery.msg = call.msg ∧
    ∃ entry ∈ call.active, entry.id = delivery.id ∧ entry.addressed call.msg = true
  ordered : ∀ key, ((heardBy w.account.log key).map Delivery.call).Pairwise (· < ·)
  readable : Heard w.bus.streams w.ledger w.account.log

/-- A publication finds room in every stream of its type, one that does not wait finds no handler,
and no handler is awaited before an earlier publication has awaited it. -/
def Suits (w : World τ α) : Label τ α → Prop
  | .publish topic msg => (∃ state, w.bus.topics.lookup topic = some state ∧ state.closed = false) →
      ∀ entry ∈ activeOf w.ledger w.cancelled topic, ∀ i stream, entry.index = some i →
        w.bus.streams[i]? = some stream → stream.type = msg.type → stream.channel.isFull = false
  | .tryPublish topic msg => (w.bus.tryPublish topic msg).1.outcome = .finished →
      ∀ entry ∈ activeOf w.ledger w.cancelled topic, entry.stream.isSome = true
  | .invoke n => ∀ current sub rest, w.account.pending n = some current → current.rest = sub :: rest →
      ∀ m < n, ∀ earlier, w.account.pending m = some earlier → earlier.topic = current.topic →
        ∀ other ∈ earlier.rest, other.id ≠ sub.id
  | _ => True

variable {bus : MessageBus τ α} {label : Label τ α}

theorem publish_finished (hOutcome : (bus.publish topic msg).1.outcome = .finished) :
    bus.topics.lookup topic = none := by
  rw [MessageBus.publish] at hOutcome
  split at hOutcome
  case h_1 hState => exact hState
  case h_2 => split_ifs at hOutcome

theorem publish_awaiting {rest : List Sub} (hOutcome : (bus.publish topic msg).1.outcome = .awaiting rest) :
    ∃ state, bus.topics.lookup topic = some state ∧ state.closed = false := by
  rw [MessageBus.publish] at hOutcome
  split at hOutcome
  case h_1 => cases hOutcome
  case h_2 state hState =>
    split_ifs at hOutcome with hClosed
    exact ⟨state, hState, Bool.not_eq_true _ ▸ hClosed⟩

theorem publish_of_open (hOpen : ∃ state, bus.topics.lookup topic = some state ∧ state.closed = false) :
    ∃ rest, (bus.publish topic msg).1.outcome = .awaiting rest := by
  obtain ⟨state, hState, hClosed⟩ := hOpen
  rw [MessageBus.publish, hState]
  simp only [hClosed, Bool.false_eq_true, if_false]
  exact ⟨_, rfl⟩

theorem tryPublish_outcome {rest : List Sub} : (bus.tryPublish topic msg).1.outcome ≠ .awaiting rest := by
  intro hOutcome
  rw [MessageBus.tryPublish] at hOutcome
  split at hOutcome
  case h_1 => cases hOutcome
  case h_2 =>
    split_ifs at hOutcome
    simp only at hOutcome
    split_ifs at hOutcome

structure Faithful (acc : Account τ α) : Prop where
  received : ∀ n ∈ acc.succeeded, ∀ call, acc.calls[n]? = some call → ∀ entry ∈ call.active,
    entry.addressed call.msg = true → ⟨n, call.topic, entry.id, call.msg⟩ ∈ acc.log
  awaiting : ∀ n p, acc.pending n = some p → ∀ call, acc.calls[n]? = some call → ∀ entry ∈ call.active,
    entry.addressed call.msg = true → ⟨n, call.topic, entry.id, call.msg⟩ ∈ acc.log ∨ entry.sub ∈ p.rest
  ordered : ∀ key, ((heardBy acc.log key).map Delivery.call).Pairwise (· < ·)
  ahead : ∀ n p, acc.pending n = some p → ∀ sub ∈ p.rest, ∀ d ∈ acc.log, d.key = (p.topic, sub.id) → d.call < n

theorem Books.handler (hBooks : Books w) {p : Pending τ α} (hPending : w.account.pending n = some p) {sub : Sub}
    (hSub : sub ∈ p.rest) : ∃ entry ∈ w.ledger, entry.topic = p.topic ∧ entry.sub = sub ∧ entry.stream = none := by
  obtain ⟨call, hCall, hTopic, -, hSublist⟩ := hBooks.noted.waiting n p hPending
  obtain ⟨entry, hEntry, rfl⟩ := mem_map.mp (hSublist.subset hSub)
  obtain ⟨hMem, hNone⟩ := mem_filter.mp hEntry
  obtain ⟨hLedger, hTopics⟩ := hBooks.noted.active call (List.mem_of_getElem? hCall)
  exact ⟨entry, hLedger.subset hMem, (hTopics entry hMem).trans hTopic.symm, rfl, Option.isNone_iff_eq_none.mp hNone⟩

theorem Books.rest_nodup (hBooks : Books w) {p : Pending τ α} (hPending : w.account.pending n = some p) :
    (p.rest.map Sub.id).Nodup := by
  obtain ⟨call, hCall, -, -, hSublist⟩ := hBooks.noted.waiting n p hPending
  obtain ⟨hLedger, hTopics⟩ := hBooks.noted.active call (List.mem_of_getElem? hCall)
  have hIds := hSublist.map Sub.id
  rw [List.map_map] at hIds
  exact (hBooks.listed.ids_nodup hLedger hTopics).sublist (hIds.trans (List.filter_sublist.map Entry.id))

theorem Sends.taker (hSends : Sends w topic msg out reached) {id : Nat} (hTook : id ∈ out.1.took) :
    ∃ entry ∈ w.ledger, entry.topic = topic ∧ entry.id = id ∧ entry.stream ≠ none ∧
      entry.sub.takes msg w.bus.streams = true := by
  obtain ⟨entry, hEntry, hTakes, rfl⟩ := hSends.mem_took.mp hTook
  obtain ⟨i, -, hIndex, -⟩ := stream_of_takes hTakes
  refine ⟨entry, (hSends.mem hEntry).1, (hSends.mem hEntry).2, rfl, fun hNone => ?_, hTakes⟩
  rw [Entry.index, hNone] at hIndex
  cases hIndex

theorem Sends.not_handler (hBooks : Books w) (hSends : Sends w topic msg out reached) {entry : Entry τ}
    (hEntry : entry ∈ w.ledger) (hTopic : entry.topic = topic) (hHandler : entry.stream = none) :
    entry.id ∉ out.1.took := by
  intro hTook
  obtain ⟨other, hOther, hOtherTopic, hId, hStream, -⟩ := hSends.taker hTook
  obtain rfl := hBooks.listed.key_inj hOther hEntry (hOtherTopic.trans hTopic.symm) hId
  exact hStream hHandler

section

variable (hBooks : Books w) (hFaithful : Faithful w.account)
include hBooks hFaithful

theorem Faithful.publication (hSends : Sends w topic msg out reached)
    (hHandlers : out.1.outcome = .finished → ∀ entry ∈ activeOf w.ledger w.cancelled topic, entry.stream.isSome = true)
    (hRoom : ∀ rest, out.1.outcome = .awaiting rest → ∀ entry ∈ activeOf w.ledger w.cancelled topic,
      entry.addressed msg = true → entry.stream.isSome = true → entry.sub.takes msg w.bus.streams = true) :
    Faithful (w.publication topic msg out).account := by
  have hOld : ∀ {m call}, m < w.account.calls.length →
      (w.account.called ⟨topic, msg, w.active topic⟩ out.1).calls[m]? = some call →
      w.account.calls[m]? = some call := by
    intro m call hLt hCall
    rwa [called_calls, List.getElem?_append_left hLt] at hCall
  have hNew : ∀ {call}, (w.account.called ⟨topic, msg, w.active topic⟩ out.1).calls[
      w.account.calls.length]? = some call → call = ⟨topic, msg, w.active topic⟩ := by
    intro call hCall
    rw [called_calls, List.getElem?_concat_length] at hCall
    exact (Option.some.inj hCall).symm
  have hTaken : ∀ entry ∈ reached, entry.sub.takes msg w.bus.streams = true →
      (⟨w.account.calls.length, topic, entry.id, msg⟩ : Delivery τ α) ∈
        (w.account.called ⟨topic, msg, w.active topic⟩ out.1).log := by
    intro entry hEntry hTakes
    rw [called_log]
    exact List.mem_append_right _ (mem_map.mpr ⟨entry.id, hSends.mem_took.mpr ⟨entry, hEntry, hTakes, rfl⟩, rfl⟩)
  constructor
  case received =>
    intro n hn call hCall entry hEntry hAddressed
    rcases called_succeeded.mp hn with hBefore | ⟨hOutcome, rfl⟩
    · rw [World.publication, called_log]
      exact mem_append_left _
        (hFaithful.received n hBefore call (hOld (hBooks.noted.past n hBefore).1 hCall) entry hEntry hAddressed)
    · obtain rfl := hNew hCall
      obtain ⟨rfl, hTakes⟩ := hSends.finished hOutcome
      exact hTaken entry hEntry (hTakes entry hEntry (hHandlers hOutcome entry hEntry))
  case awaiting =>
    intro n p hPending call hCall entry hEntry hAddressed
    rcases called_pending hPending with hBefore | ⟨rfl, -, -, hOutcome⟩
    · have hCall' := hOld (hBooks.noted.lt_length hBefore) hCall
      refine (hFaithful.awaiting n p hBefore call hCall' entry hEntry hAddressed).imp_left fun hLogged => ?_
      rw [World.publication, called_log]
      exact mem_append_left _ hLogged
    · obtain rfl := hNew hCall
      obtain ⟨rfl, hRest⟩ := hSends.awaiting _ hOutcome
      cases hStream : entry.stream with
      | none =>
        refine .inr ?_
        rw [hRest]
        exact List.mem_map_of_mem (mem_filter.mpr ⟨hEntry, by rw [hStream]; rfl⟩)
      | some pair =>
        refine .inl (hTaken entry hEntry ?_)
        exact hRoom _ hOutcome entry hEntry hAddressed (by rw [hStream]; rfl)
  case ordered =>
    intro key
    rw [World.publication, called_log, heardBy_append, List.map_append, List.pairwise_append]
    refine ⟨hFaithful.ordered key, ?_, ?_⟩
    · rw [heardBy_took _ _ _ (hSends.took_nodup hBooks.listed)]
      split_ifs <;> simp
    · intro m hm m' hm'
      obtain ⟨d, hd, rfl⟩ := mem_map.mp hm
      obtain ⟨d', hd', rfl⟩ := mem_map.mp hm'
      obtain ⟨id, -, rfl⟩ := mem_map.mp (List.mem_of_mem_filter hd')
      exact hBooks.call_lt (List.mem_of_mem_filter hd)
  case ahead =>
    intro n p hPending sub hSub d hd hKey
    rw [World.publication, called_log] at hd
    rcases called_pending hPending with hBefore | ⟨rfl, hTopic, -, hOutcome⟩
    · rcases mem_append.mp hd with hLogged | hFresh
      · exact hFaithful.ahead n p hBefore sub hSub d hLogged hKey
      · obtain ⟨id, hId, rfl⟩ := mem_map.mp hFresh
        obtain ⟨entry, hEntry, hTopic, rfl, hNone⟩ := hBooks.handler hBefore hSub
        have hIds : id = entry.id := congrArg Prod.snd hKey
        rw [hIds] at hId
        exact absurd hId (hSends.not_handler hBooks hEntry (hTopic.trans (congrArg Prod.fst hKey).symm) hNone)
    · rcases mem_append.mp hd with hLogged | hFresh
      · exact hBooks.call_lt hLogged
      · obtain ⟨id, hId, rfl⟩ := mem_map.mp hFresh
        obtain ⟨rfl, hRest⟩ := hSends.awaiting _ hOutcome
        rw [hRest] at hSub
        obtain ⟨entry, hEntry, rfl⟩ := mem_map.mp hSub
        obtain ⟨hMem, hNone⟩ := mem_filter.mp hEntry
        have hIds : id = entry.id := congrArg Prod.snd hKey
        rw [hIds] at hId
        exact absurd hId (hSends.not_handler hBooks (hSends.mem hMem).1 (hSends.mem hMem).2
          (Option.isNone_iff_eq_none.mp hNone))

theorem Faithful.invoke (hSuits : Suits w (.invoke n)) (hInvoke : w.account.invoke n = some acc') : Faithful acc' := by
  obtain ⟨current, hCurrent, ⟨hRest, rfl⟩ | ⟨sub, rest, hRest, rfl⟩⟩ := invoke_cases hInvoke
  · have hPending : ∀ {m p}, update w.account.pending n none m = some p → w.account.pending m = some p := by
      intro m p hp
      rcases invoke_pending hCurrent hInvoke hp with hOld | ⟨-, -, -, sub, hSub⟩
      · exact hOld
      · rw [hRest] at hSub
        cases hSub
    refine ⟨?_, fun m p hp => hFaithful.awaiting m p (hPending hp), hFaithful.ordered,
      fun m p hp => hFaithful.ahead m p (hPending hp)⟩
    intro m hm call hCall entry hEntry hAddressed
    rcases mem_append.mp hm with hOld | hNew
    · exact hFaithful.received m hOld call hCall entry hEntry hAddressed
    · obtain rfl := mem_singleton.mp hNew
      rcases hFaithful.awaiting m current hCurrent call hCall entry hEntry hAddressed with hLogged | hLeft
      · exact hLogged
      · rw [hRest] at hLeft
        cases hLeft
  · obtain ⟨thisCall, hThisCall, hThisTopic, hThisMsg, -⟩ := hBooks.noted.waiting n current hCurrent
    have hHead : sub ∈ current.rest := hRest ▸ mem_cons_self
    constructor
    case received =>
      intro m hm call hCall entry hEntry hAddressed
      exact mem_append_left _ (hFaithful.received m hm call hCall entry hEntry hAddressed)
    case awaiting =>
      intro m p hp call hCall entry hEntry hAddressed
      rcases invoke_pending hCurrent hInvoke hp with hOld | ⟨rfl, -, -, sub', hSub'⟩
      · exact (hFaithful.awaiting m p hOld call hCall entry hEntry hAddressed).imp_left (mem_append_left _)
      · cases hThisCall.symm.trans hCall
        rcases hFaithful.awaiting m current hCurrent thisCall hThisCall entry hEntry hAddressed with hLogged | hLeft
        · exact .inl (mem_append_left _ hLogged)
        · rw [hSub'] at hLeft hRest
          obtain ⟨rfl, rfl⟩ := List.cons.inj hRest
          rcases List.mem_cons.mp hLeft with rfl | hLater
          · refine .inl (List.mem_append_right _ (mem_singleton.mpr ?_))
            rw [hThisTopic, hThisMsg]
            rfl
          · exact .inr hLater
    case ordered =>
      intro key
      rw [heardBy_append, List.map_append, List.pairwise_append]
      refine ⟨hFaithful.ordered key, ?_, ?_⟩
      · exact (List.pairwise_singleton _ _).sublist ((List.filter_sublist (l := [_])).map Delivery.call)
      · intro m hm m' hm'
        obtain ⟨d, hd, rfl⟩ := mem_map.mp hm
        obtain ⟨d', hd', rfl⟩ := mem_map.mp hm'
        obtain ⟨hMem, hKey⟩ := mem_filter.mp hd
        obtain ⟨hMem', hKey'⟩ := mem_filter.mp hd'
        obtain rfl := mem_singleton.mp hMem'
        exact hFaithful.ahead n current hCurrent sub hHead d hMem
          ((of_decide_eq_true hKey).trans (of_decide_eq_true hKey').symm)
    case ahead =>
      intro m p hp other hOther d hd hKey
      rcases invoke_pending hCurrent hInvoke hp with hOld | ⟨rfl, hTopic, -, sub', hSub'⟩
      · rcases mem_append.mp hd with hLogged | hFresh
        · exact hFaithful.ahead m p hOld other hOther d hLogged hKey
        · obtain rfl := mem_singleton.mp hFresh
          have hTopic : p.topic = current.topic := (congrArg Prod.fst hKey).symm
          have hId : other.id = sub.id := (congrArg Prod.snd hKey).symm
          rcases Nat.lt_trichotomy m n with hLt | rfl | hLt
          · exact absurd hId (hSuits current sub rest hCurrent hRest m hLt p hOld hTopic other hOther)
          · simp only [update_self] at hp
            cases hp
            have hNodup := hBooks.rest_nodup hCurrent
            rw [hRest, List.map_cons, List.nodup_cons] at hNodup
            exact absurd (mem_map.mpr ⟨other, hOther, hId⟩) hNodup.1
          · exact hLt
      · rw [hSub'] at hRest
        obtain ⟨rfl, rfl⟩ := List.cons.inj hRest
        rcases mem_append.mp hd with hLogged | hFresh
        · refine hFaithful.ahead m current hCurrent other ?_ d hLogged (by rw [hKey, hTopic])
          rw [hSub']
          exact List.mem_cons_of_mem _ hOther
        · obtain rfl := mem_singleton.mp hFresh
          have hNodup := hBooks.rest_nodup hCurrent
          rw [hSub', List.map_cons, List.nodup_cons] at hNodup
          have hId : other.id = sub'.id := (congrArg Prod.snd hKey).symm
          exact absurd (mem_map.mpr ⟨other, hOther, hId⟩) hNodup.1

/-- A suitable step keeps what was heard complete and in order. -/
theorem Faithful.next (hSuits : Suits w label) (hNext : w.next label = some w') : Faithful w'.account := by
  obtain hSame | ⟨topic, msg, rfl, rfl⟩ | ⟨topic, msg, rfl, rfl⟩ | ⟨n, rfl, hInvoke⟩ := next_account hNext
  · rw [hSame]
    exact hFaithful
  · obtain ⟨reached, hSends⟩ := publish_sends hBooks.listed hBooks.wired topic msg
    refine hFaithful.publication hBooks hSends (fun hOutcome entry hEntry => ?_) ?_
    · rw [hBooks.listed.unknown (publish_finished hOutcome)] at hEntry
      cases hEntry
    · intro rest hOutcome entry hEntry hAddressed hSome
      obtain ⟨pair, hPair⟩ := Option.isSome_iff_exists.mp hSome
      have hMem := (mem_activeOf.mp hEntry).1
      obtain ⟨stream, hStream, hType⟩ := hBooks.wired.typed entry hMem pair.1 pair.2 hPair
      have hIndex : entry.index = some pair.2 := by
        rw [Entry.index, hPair]
        rfl
      rw [Entry.addressed, hPair, Option.all_some, decide_eq_true_eq, ← hType] at hAddressed
      have hFree := hSuits (publish_awaiting hOutcome) entry hEntry pair.2 stream hIndex hStream hAddressed
      rw [sub_takes hIndex hStream, StreamChannel.takes_iff]
      exact ⟨hAddressed, hBooks.wired.unclosed stream (List.mem_of_getElem? hStream), hFree⟩
  · obtain ⟨reached, hSends⟩ := tryPublish_sends hBooks.listed hBooks.wired topic msg
    exact hFaithful.publication hBooks hSends hSuits fun rest hOutcome => absurd hOutcome tryPublish_outcome
  · exact hFaithful.invoke hBooks hSuits hInvoke

end

/-- What no later step can repair: a subscription left out, or an order that is or will be broken. -/
inductive Spoiled (acc : Account τ α) : Prop where
  | missed (n : Nat) (call : Call τ α) (entry : Entry τ) (hCall : acc.calls[n]? = some call)
      (hEntry : entry ∈ call.active) (hAddressed : entry.addressed call.msg = true)
      (hLog : ∀ d ∈ acc.log, d.call = n → d.id ≠ entry.id)
      (hOver : n ∈ acc.succeeded ∨ ∃ p, acc.pending n = some p ∧ ∀ sub ∈ p.rest, sub.id ≠ entry.id)
  | overtaken (n : Nat) (p : Pending τ α) (sub : Sub) (d : Delivery τ α) (hPending : acc.pending n = some p)
      (hSub : sub ∈ p.rest) (hd : d ∈ acc.log) (hKey : d.key = (p.topic, sub.id)) (hLater : n < d.call)
  | disordered (key : String × Nat) (hOrder : ¬((heardBy acc.log key).map Delivery.call).Pairwise (· < ·))

section

variable (hBooks : Books w) (hSpoiled : Spoiled w.account)
include hBooks hSpoiled

theorem Spoiled.called (call : Call τ α) (sent : Sent) : Spoiled (w.account.called call sent) := by
  cases hSpoiled with
  | missed n missedCall entry hCall hEntry hAddressed hLog hOver =>
    have hLt := (List.getElem?_eq_some_iff.mp hCall).1
    refine .missed n missedCall entry ?_ hEntry hAddressed ?_ ?_
    · rw [called_calls]
      exact getElem?_append_of_some hCall
    · intro d hd hn
      rw [called_log] at hd
      rcases mem_append.mp hd with hOld | hNew
      · exact hLog d hOld hn
      · obtain ⟨id, -, rfl⟩ := mem_map.mp hNew
        exact absurd hn (Nat.ne_of_gt hLt)
    · refine hOver.imp (fun hDone => called_succeeded.mpr (.inl hDone)) ?_
      rintro ⟨p, hPending, hRest⟩
      exact ⟨p, (called_pending_old (Nat.ne_of_lt hLt)).trans hPending, hRest⟩
  | overtaken n p sub d hPending hSub hd hKey hLater =>
    have hLt := hBooks.noted.lt_length hPending
    refine .overtaken n p sub d ((called_pending_old (Nat.ne_of_lt hLt)).trans hPending) hSub ?_ hKey hLater
    rw [called_log]
    exact mem_append_left _ hd
  | disordered key hOrder =>
    refine .disordered key ?_
    rw [called_log]
    exact disordered_append _ hOrder

theorem Spoiled.invoke (hInvoke : w.account.invoke n = some acc') : Spoiled acc' := by
  obtain ⟨current, hCurrent, hCases⟩ := invoke_cases hInvoke
  cases hSpoiled with
  | missed m call entry hCall hEntry hAddressed hLog hOver =>
    by_cases hSame : m = n
    · subst hSame
      have hRest : ∀ sub ∈ current.rest, sub.id ≠ entry.id := by
        rcases hOver with hDone | ⟨p, hPending, hRest⟩
        · exact nomatch (hBooks.noted.past m hDone).2.symm.trans hCurrent
        · cases hCurrent.symm.trans hPending
          exact hRest
      obtain ⟨-, rfl⟩ | ⟨sub, rest, hSplit, rfl⟩ := hCases
      · refine .missed m call entry hCall hEntry hAddressed hLog (.inl ?_)
        exact List.mem_append_right _ mem_cons_self
      · rw [hSplit] at hRest
        refine .missed m call entry hCall hEntry hAddressed ?_ (.inr ⟨_, update_self _ _ _, ?_⟩)
        · intro d hd hm
          rcases mem_append.mp hd with hOld | hNew
          · exact hLog d hOld hm
          · obtain rfl := mem_singleton.mp hNew
            exact hRest sub mem_cons_self
        · exact fun other hOther => hRest other (List.mem_cons_of_mem _ hOther)
    · obtain ⟨-, rfl⟩ | ⟨sub, rest, -, rfl⟩ := hCases
      · refine .missed m call entry hCall hEntry hAddressed hLog (hOver.imp (mem_append_left _) ?_)
        rintro ⟨p, hPending, hRest⟩
        exact ⟨p, (update_of_ne hSame _ _).trans hPending, hRest⟩
      · refine .missed m call entry hCall hEntry hAddressed ?_ (hOver.imp_right ?_)
        · intro d hd hm
          rcases mem_append.mp hd with hOld | hNew
          · exact hLog d hOld hm
          · obtain rfl := mem_singleton.mp hNew
            exact absurd hm.symm hSame
        · rintro ⟨p, hPending, hRest⟩
          exact ⟨p, (update_of_ne hSame _ _).trans hPending, hRest⟩
  | overtaken m p sub d hPending hSub hd hKey hLater =>
    obtain ⟨hRest, rfl⟩ | ⟨head, rest, hSplit, rfl⟩ := hCases
    · have hSame : m ≠ n := by
        rintro rfl
        cases hCurrent.symm.trans hPending
        rw [hRest] at hSub
        cases hSub
      exact .overtaken m p sub d ((update_of_ne hSame _ _).trans hPending) hSub hd hKey hLater
    · by_cases hSame : m = n
      · subst hSame
        cases hCurrent.symm.trans hPending
        rw [hSplit] at hSub
        rcases List.mem_cons.mp hSub with rfl | hLeft
        · refine .disordered d.key ?_
          rw [heardBy_append, List.map_append, List.pairwise_append]
          rintro ⟨-, -, hAll⟩
          have hFirst : d.call ∈ (heardBy w.account.log d.key).map Delivery.call :=
            List.mem_map_of_mem (mem_filter.mpr ⟨hd, decide_eq_true rfl⟩)
          have hSecond : m ∈ (heardBy [(⟨m, current.topic, sub.id, current.msg⟩ : Delivery τ α)] d.key).map
              Delivery.call := by
            refine mem_map.mpr ⟨_, mem_filter.mpr ⟨mem_cons_self, ?_⟩, rfl⟩
            exact decide_eq_true hKey.symm
          exact Nat.lt_asymm (hAll _ hFirst _ hSecond) hLater
        · exact .overtaken m _ sub d (update_self _ _ _) hLeft (mem_append_left _ hd) hKey hLater
      · exact .overtaken m p sub d ((update_of_ne hSame _ _).trans hPending) hSub
          (mem_append_left _ hd) hKey hLater
  | disordered key hOrder =>
    refine .disordered key ?_
    obtain ⟨-, rfl⟩ | ⟨sub, rest, -, rfl⟩ := hCases
    · exact hOrder
    · exact disordered_append _ hOrder

theorem Spoiled.next (hNext : w.next label = some w') : Spoiled w'.account := by
  obtain hSame | ⟨topic, msg, rfl, rfl⟩ | ⟨topic, msg, rfl, rfl⟩ | ⟨n, rfl, hInvoke⟩ := next_account hNext
  · rw [hSame]
    exact hSpoiled
  · exact hSpoiled.called hBooks _ _
  · exact hSpoiled.called hBooks _ _
  · exact hSpoiled.invoke hBooks hInvoke

end

theorem spoiled_publication (hBooks : Books w) {entry : Entry τ}
    (hEntry : entry ∈ w.active topic) (hAddressed : entry.addressed msg = true) (hTook : entry.id ∉ out.1.took)
    (hOver : out.1.outcome = .finished ∨ ∃ rest, out.1.outcome = .awaiting rest ∧ ∀ sub ∈ rest, sub.id ≠ entry.id) :
    Spoiled (w.publication topic msg out).account := by
  refine .missed w.account.calls.length ⟨topic, msg, w.active topic⟩ entry ?_ hEntry hAddressed
    ?_ ?_
  · rw [World.publication, called_calls]
    exact List.getElem?_concat_length
  · intro d hd hCall
    rw [World.publication, called_log] at hd
    rcases mem_append.mp hd with hOld | hNew
    · exact absurd hCall (Nat.ne_of_lt (hBooks.call_lt hOld))
    · obtain ⟨id, hId, rfl⟩ := mem_map.mp hNew
      exact fun hEq => hTook (hEq ▸ hId)
  · rcases hOver with hOutcome | ⟨rest, hOutcome, hRest⟩
    · exact .inl (called_succeeded.mpr (.inr ⟨hOutcome, rfl⟩))
    · exact .inr ⟨_, called_awaiting hOutcome, hRest⟩

/-- A step that is not suitable spoils the run. -/
theorem spoiled_of_unsuitable (hBooks : Books w) (hUnsuitable : ¬Suits w label) (hNext : w.next label = some w') :
    Spoiled w'.account := by
  cases label with
  | publish topic msg =>
    cases hNext
    obtain ⟨reached, hSends⟩ := publish_sends hBooks.listed hBooks.wired topic msg
    simp only [Suits, not_forall] at hUnsuitable
    obtain ⟨hOpen, entry, hEntry, i, stream, hIndex, hStream, hType, hFull⟩ := hUnsuitable
    obtain ⟨rest, hOutcome⟩ := publish_of_open hOpen
    obtain ⟨hMem, hTopic, -⟩ := mem_activeOf.mp hEntry
    obtain ⟨pair, hPair, hPairIndex⟩ := Option.map_eq_some_iff.mp hIndex
    refine spoiled_publication hBooks hEntry ?_ ?_ (.inr ⟨rest, hOutcome, ?_⟩)
    · obtain ⟨same, hSame, hSameType⟩ := hBooks.wired.typed entry hMem pair.1 pair.2 hPair
      rw [hPairIndex] at hSame
      cases hStream.symm.trans hSame
      rw [Entry.addressed, hPair, Option.all_some, decide_eq_true_eq, ← hSameType, hType]
    · intro hTook
      obtain ⟨other, hOther, hOtherTopic, hId, -, hTakes⟩ := hSends.taker hTook
      obtain rfl := hBooks.listed.key_inj hOther hMem (hOtherTopic.trans hTopic.symm) hId
      rw [sub_takes hIndex hStream, StreamChannel.takes_iff] at hTakes
      exact hFull hTakes.2.2
    · intro sub hSub hId
      obtain ⟨rfl, rfl⟩ := hSends.awaiting rest hOutcome
      obtain ⟨handler, hHandler, rfl⟩ := mem_map.mp hSub
      obtain ⟨hReached, hNone⟩ := mem_filter.mp hHandler
      obtain ⟨hLedger, hHandlerTopic⟩ := hSends.mem hReached
      obtain rfl := hBooks.listed.key_inj hLedger hMem (hHandlerTopic.trans hTopic.symm) hId
      rw [Option.isNone_iff_eq_none.mp hNone] at hPair
      cases hPair
  | tryPublish topic msg =>
    cases hNext
    obtain ⟨reached, hSends⟩ := tryPublish_sends hBooks.listed hBooks.wired topic msg
    simp only [Suits, not_forall] at hUnsuitable
    obtain ⟨hOutcome, entry, hEntry, hSome⟩ := hUnsuitable
    have hNone : entry.stream = none := by rwa [Option.not_isSome_iff_eq_none] at hSome
    obtain ⟨hMem, hTopic, -⟩ := mem_activeOf.mp hEntry
    refine spoiled_publication hBooks hEntry ?_ (hSends.not_handler hBooks hMem hTopic hNone) (.inl hOutcome)
    rw [Entry.addressed, hNone, Option.all_none]
  | invoke n =>
    obtain ⟨acc', hInvoke, rfl⟩ := Option.map_eq_some_iff.mp hNext
    simp only [Suits, not_forall, ne_eq, not_not] at hUnsuitable
    obtain ⟨current, sub, rest, hCurrent, hRest, m, hLt, earlier, hEarlier, hTopic, other, hOther, hId⟩ :=
      hUnsuitable
    obtain ⟨before, hBefore, ⟨hNil, -⟩ | ⟨head, tail, hSplit, rfl⟩⟩ := invoke_cases hInvoke
    · cases hCurrent.symm.trans hBefore
      rw [hNil] at hRest
      cases hRest
    · cases hCurrent.symm.trans hBefore
      obtain ⟨rfl, rfl⟩ := List.cons.inj (hRest.symm.trans hSplit)
      refine .overtaken m earlier other _ ((update_of_ne (Nat.ne_of_lt hLt) _ _).trans hEarlier) hOther
        (List.mem_append_right _ mem_cons_self) ?_ hLt
      rw [Delivery.key, hTopic, hId]
  | subscribe | subscribeStream | cancel | receive | closeTopic | drain => exact absurd trivial hUnsuitable

/-- At the end of a run whose steps are all suitable the contract is kept, also while calls are
going on. And once every call has returned it is kept in no other run. -/
theorem contract_iff {labels : List (Label τ α)} (hRun : LabelledRuns.run World.next labels World.start = some w) :
    (LabelledRuns.Meets World.next Suits labels World.start → Contract w) ∧
      ((∀ n, w.account.pending n = none) → Contract w → LabelledRuns.Meets World.next Suits labels World.start) := by
  have hBooks := books_run hRun
  constructor
  · intro hMeets
    have hStart : Books (World.start : World τ α) ∧ Faithful (World.start : World τ α).account := by
      refine ⟨books_start, ?_, ?_, fun key => List.Pairwise.nil, ?_⟩
      · exact nofun
      all_goals exact fun n p hPending => nomatch hPending
    have hFaithful : Faithful w.account :=
      (run_invariant_of (P := fun w => Books w ∧ Faithful w.account)
        (fun a label b hBoth hSuits hNext => ⟨hBoth.1.next hNext, hBoth.2.next hBoth.1 hSuits hNext⟩)
        hStart hMeets hRun).2
    exact ⟨hFaithful.received, hBooks.noted.noted, hFaithful.ordered, hBooks.heard⟩
  · intro hDone hContract
    refine meets_of_unspoiled (P := Books) (Q := fun w => Spoiled w.account)
      (fun _ _ _ hBooks hNext => hBooks.next hNext)
      (fun _ _ _ hBooks hNot hNext => spoiled_of_unsuitable hBooks hNot hNext)
      (fun _ _ _ hBooks hSpoiled hNext => hSpoiled.next hBooks hNext) books_start hRun ?_
    intro hSpoiled
    cases hSpoiled with
    | missed n call entry hCall hEntry hAddressed hLog hOver =>
      rcases hOver with hSucceeded | ⟨p, hPending, -⟩
      · exact hLog _ (hContract.received n hSucceeded call hCall entry hEntry hAddressed) rfl rfl
      · exact nomatch (hDone n).symm.trans hPending
    | overtaken n p sub d hPending => exact nomatch (hDone n).symm.trans hPending
    | disordered key hOrder => exact hOrder (hContract.ordered key)

def roomy : List (Label Nat Nat) :=
  [.subscribe "ticks", .subscribeStream "ticks" 0 2, .publish "ticks" ⟨0, 7⟩, .invoke 0, .invoke 0,
    .publish "ticks" ⟨0, 8⟩, .invoke 1, .invoke 1]

theorem contract_roomy : ∃ w : World Nat Nat, LabelledRuns.run World.next roomy World.start = some w ∧
    w.account.succeeded = [0, 1] ∧ Contract w := by
  have hRun : run World.next roomy World.start = some _ := rfl
  refine ⟨_, hRun, rfl, (contract_iff hRun).1 ?_⟩
  have hRoom : ∀ {w : World Nat Nat} {topic msg}, (∀ stream ∈ w.bus.streams, stream.channel.isFull = false) →
      Suits w (.publish topic msg) :=
    fun hAll _ _ _ _ stream _ hStream _ => hAll stream (List.mem_of_getElem? hStream)
  have hFirst : ∀ {w : World Nat Nat} {n}, (∀ m < n, w.account.pending m = none) → Suits w (.invoke n) :=
    fun hNone _ _ _ _ _ m hLt _ hPending => nomatch (hNone m hLt).symm.trans hPending
  refine .step trivial rfl <| .step trivial rfl <| .step (hRoom ?_) rfl <| .step (hFirst ?_) rfl <|
    .step (hFirst ?_) rfl <| .step (hRoom ?_) rfl <| .step (hFirst ?_) rfl <| .step (hFirst ?_) rfl trivial
  all_goals decide

/-- A publication that does not wait returns success and leaves the handler out. -/
theorem contract_passed_over : ∃ w : World Nat Nat,
    LabelledRuns.run World.next [.subscribe "ticks", .tryPublish "ticks" ⟨0, 7⟩] World.start = some w ∧
        ¬Contract w := by
  refine ⟨_, rfl, fun hContract => ?_⟩
  have hHeard := hContract.received 0 mem_cons_self _ rfl ⟨"ticks", 1, none⟩ (by decide) rfl
  cases hHeard

end Contract

end Bus

end Pipeline
