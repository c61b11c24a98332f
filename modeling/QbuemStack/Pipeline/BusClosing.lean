import QbuemStack.Pipeline.BusBooks

/-! The end of the streams of a topic. Closing a topic closes the channels of type-erased messages,
of which there are none. -/
namespace Pipeline

open LabelledRuns

namespace Bus

variable {τ α : Type}

section Closing

variable [DecidableEq τ] {w w' : World τ α} {topic : String}

def readToEnd : Nat → Channel α → Option (List α)
  | 0, _ => none
  | turns + 1, ch =>
    match (ch.recv 0).result with
    | .suspended => none
    | .returned none => some []
    | .returned (some item) => (readToEnd turns (ch.recv 0).state).map fun items => item :: items

/-- The streams that the topic had when it was closed are closed and read to their end, and nothing
is delivered later. -/
structure EndsStreams (topic : String) (closing w : World τ α) : Prop where
  closed : ∀ entry ∈ closing.ledger, entry.topic = topic → ∀ i, entry.index = some i →
    ∃ stream, w.bus.streams[i]? = some stream ∧ stream.channel.closed = true ∧
      ∃ turns, readToEnd turns stream.channel = some stream.channel.items
  silent : ∀ d ∈ w.account.log, d.topic = topic → d.call < closing.account.calls.length

structure Shut (topic : String) (n : Nat) (w : World τ α) : Prop where
  closed : (w.bus.getOrCreateTopic topic).closed = true
  calls : n ≤ w.account.calls.length
  pending : ∀ m p, w.account.pending m = some p → p.topic = topic → m < n
  silent : ∀ d ∈ w.account.log, d.topic = topic → d.call < n

section Topics

variable {bus : MessageBus τ α} {other : String}

omit [DecidableEq τ]

theorem lookup_of_closed (hClosed : (bus.getOrCreateTopic topic).closed = true) :
    ∃ state, bus.topics.lookup topic = some state ∧ state.closed = true := by
  rw [MessageBus.getOrCreateTopic] at hClosed
  cases hState : bus.topics.lookup topic with rw [hState] at hClosed
  | none =>
    cases hClosed
  | some state =>
    exact ⟨state, rfl, hClosed⟩

theorem register_closed (sub : Nat → Sub) :
    ((bus.register topic sub).2.getOrCreateTopic other).closed = (bus.getOrCreateTopic other).closed := by
  rw [MessageBus.register]
  by_cases hTopic : other = topic
  · subst hTopic
    rw [getOrCreateTopic_self]
    rfl
  · rw [getOrCreateTopic_other _ hTopic]

theorem unsubscribe_closed (id : Nat) :
    ((bus.unsubscribe topic id).getOrCreateTopic other).closed = (bus.getOrCreateTopic other).closed := by
  rw [MessageBus.unsubscribe]
  cases hState : bus.topics.lookup topic with
  | none => rfl
  | some state =>
    by_cases hTopic : other = topic
    · subst hTopic
      simp only [getOrCreateTopic_self]
      rw [MessageBus.getOrCreateTopic, hState]
      rfl
    · exact congrArg TopicState.closed (getOrCreateTopic_other _ hTopic)

theorem closeTopic_closed (hClosed : (bus.getOrCreateTopic other).closed = true) :
    ((bus.closeTopic topic).getOrCreateTopic other).closed = true := by
  by_cases hTopic : other = topic
  · subst hTopic
    obtain ⟨state, hState, -⟩ := lookup_of_closed hClosed
    rw [closeTopic_self hState]
  · rw [closeTopic_other hTopic]
    exact hClosed

theorem closeTopic_known (hKnown : (bus.topics.lookup other).isSome = true) :
    ((bus.closeTopic topic).topics.lookup other).isSome = true := by
  rw [MessageBus.closeTopic]
  split
  · exact hKnown
  · by_cases hTopic : other = topic
    · subst hTopic
      simp [MessageBus.setTopic]
    · simp only [MessageBus.setTopic]
      rw [AList.lookup_insert_ne hTopic]
      exact hKnown

theorem foldl_closes {names : List String} (hKnown : (bus.topics.lookup topic).isSome = true) (hMem : topic ∈ names) :
    ((names.foldl (fun bus name => bus.closeTopic name) bus).getOrCreateTopic topic).closed = true := by
  induction names generalizing bus with
  | nil => cases hMem
  | cons name names ih =>
    rw [List.foldl_cons]
    by_cases hName : name = topic
    · subst hName
      obtain ⟨state, hState⟩ := Option.isSome_iff_exists.mp hKnown
      refine foldl_closeTopic (P := fun bus => (bus.getOrCreateTopic name).closed = true)
        (fun _ _ => closeTopic_closed) names ?_
      rw [closeTopic_self hState]
    · have hRest : topic ∈ names := (List.mem_cons.mp hMem).resolve_left fun hEq => hName hEq.symm
      exact ih (closeTopic_known hKnown) hRest

end Topics

variable {label : Label τ α}

theorem closed_next (hBooks : Books w) (hClosed : (w.bus.getOrCreateTopic topic).closed = true)
    (hNext : w.next label = some w') : (w'.bus.getOrCreateTopic topic).closed = true := by
  have hSent : ∀ {other msg out reached}, Sends w other msg out reached →
      ((w.publication other msg out).bus.getOrCreateTopic topic).closed = true := by
    intro other msg out reached hSends
    rw [MessageBus.getOrCreateTopic, World.publication, hSends.topics]
    exact hClosed
  cases label with
  | subscribe other =>
    cases hNext
    have hKept := @register_closed τ α other w.bus topic fun id => ⟨id, true, none, none⟩
    exact hKept.trans hClosed
  | subscribeStream other type cap =>
    rw [World.next, MessageBus.subscribeStream, Option.map_map] at hNext
    obtain ⟨capacity, -, rfl⟩ := Option.map_eq_some_iff.mp hNext
    have hKept := @register_closed τ α other
      { w.bus with streams := w.bus.streams ++ [⟨type, Channel.new capacity, []⟩] } topic
      fun id => ⟨id, false, none, some w.bus.streams.length⟩
    exact hKept.trans hClosed
  | cancel i =>
    obtain ⟨handle, -, rfl⟩ := Option.map_eq_some_iff.mp hNext
    split_ifs
    · exact (unsubscribe_closed _).trans hClosed
    · exact hClosed
  | publish other msg =>
    cases hNext
    obtain ⟨reached, hSends⟩ := publish_sends hBooks.listed hBooks.wired other msg
    exact hSent hSends
  | tryPublish other msg =>
    cases hNext
    obtain ⟨reached, hSends⟩ := tryPublish_sends hBooks.listed hBooks.wired other msg
    exact hSent hSends
  | invoke n =>
    obtain ⟨acc', -, rfl⟩ := Option.map_eq_some_iff.mp hNext
    exact hClosed
  | receive j =>
    cases hNext
    exact hClosed
  | closeTopic other =>
    cases hNext
    exact closeTopic_closed hClosed
  | drain =>
    cases hNext
    exact foldl_closeTopic (P := fun bus => (bus.getOrCreateTopic topic).closed = true)
      (fun _ _ => closeTopic_closed) _ hClosed

theorem refused_of_closed {bus : MessageBus τ α} (hClosed : (bus.getOrCreateTopic topic).closed = true)
    (msg : Msg τ α) : bus.publish topic msg = (⟨[], .refused⟩, bus) ∧
        bus.tryPublish topic msg = (⟨[], .refused⟩, bus) := by
  obtain ⟨state, hState, hFlag⟩ := lookup_of_closed hClosed
  rw [MessageBus.publish, MessageBus.tryPublish, hState]
  simp only [hFlag, if_true, and_self]

omit [DecidableEq τ] in
theorem Shut.publication {n : Nat} (hShut : Shut topic n w) {other : String} {msg : Msg τ α}
    {out : Sent × MessageBus τ α} (hClosed : ((w.publication other msg out).bus.getOrCreateTopic topic).closed = true)
    (hRefused : other = topic → out.1 = ⟨[], .refused⟩) : Shut topic n (w.publication other msg out) := by
  rw [World.publication] at hClosed ⊢
  refine ⟨hClosed, ?_, fun m p hp hTopic => ?_, fun d hd hTopic => ?_⟩
  · rw [called_calls, List.length_append]
    exact Nat.le_add_right_of_le hShut.calls
  · rcases called_pending hp with hOld | ⟨-, hSame, -, hOutcome⟩
    · exact hShut.pending m p hOld hTopic
    · rw [hRefused (hSame.symm.trans hTopic)] at hOutcome
      cases hOutcome
  · rw [called_log] at hd
    rcases List.mem_append.mp hd with hOld | hNew
    · exact hShut.silent d hOld hTopic
    · obtain ⟨id, hId, rfl⟩ := List.mem_map.mp hNew
      rw [hRefused hTopic] at hId
      cases hId

/-- Nothing opens a closed topic again. -/
theorem Shut.next {n : Nat} (hBooks : Books w) (hShut : Shut topic n w) (hNext : w.next label = some w') :
    Shut topic n w' := by
  have hClosed := closed_next hBooks hShut.closed hNext
  obtain hSame | ⟨other, msg, rfl, rfl⟩ | ⟨other, msg, rfl, rfl⟩ | ⟨m, rfl, hInvoke⟩ := next_account hNext
  · exact ⟨hClosed, by rw [hSame]; exact hShut.calls, by rw [hSame]; exact hShut.pending,
      by rw [hSame]; exact hShut.silent⟩
  · refine hShut.publication hClosed ?_
    rintro rfl
    rw [(refused_of_closed hShut.closed msg).1]
  · refine hShut.publication hClosed ?_
    rintro rfl
    rw [(refused_of_closed hShut.closed msg).2]
  · obtain ⟨current, hCurrent, hCases⟩ := invoke_cases hInvoke
    refine ⟨hClosed, ?_, fun k p hp hTopic => ?_, fun d hd hTopic => ?_⟩
    · obtain ⟨-, hAcc⟩ | ⟨sub, rest, -, hAcc⟩ := hCases <;>
        · rw [hAcc]
          exact hShut.calls
    · rcases invoke_pending hCurrent hInvoke hp with hOld | ⟨rfl, hSame, -⟩
      · exact hShut.pending k p hOld hTopic
      · exact hShut.pending k current hCurrent (hSame.symm.trans hTopic)
    · obtain ⟨-, hAcc⟩ | ⟨sub, rest, -, hAcc⟩ := hCases
      · rw [hAcc] at hd
        exact hShut.silent d hd hTopic
      · rw [hAcc] at hd
        rcases List.mem_append.mp hd with hOld | hNew
        · exact hShut.silent d hOld hTopic
        · obtain rfl := List.mem_singleton.mp hNew
          exact hShut.pending m current hCurrent hTopic

/-- A call that closes the topic: `close_topic`, or `drain` if the topic exists. -/
def Closes (w : World τ α) (topic : String) (label : Label τ α) : Prop :=
  label = .closeTopic topic ∨ (label = .drain ∧ (w.bus.topics.lookup topic).isSome = true)

theorem closes_account (hCloses : Closes w topic label) (hNext : w.next label = some w') :
    w'.account = w.account ∧ w'.ledger = w.ledger := by
  obtain rfl | ⟨rfl, -⟩ := hCloses <;>
    · cases hNext
      exact ⟨rfl, rfl⟩

theorem closes_closed (hCloses : Closes w topic label) (hKnown : (w.bus.topics.lookup topic).isSome = true)
    (hNext : w.next label = some w') : (w'.bus.getOrCreateTopic topic).closed = true := by
  obtain rfl | ⟨rfl, -⟩ := hCloses
  · cases hNext
    obtain ⟨state, hState⟩ := Option.isSome_iff_exists.mp hKnown
    exact congrArg TopicState.closed (closeTopic_self hState)
  · cases hNext
    exact foldl_closes hKnown (AList.lookup_isSome.mp hKnown)

/-- If the topic does not exist, closing it does nothing, and a subscriber that comes later gets the
messages. -/
theorem unknown_delivers (hUnknown : w.bus.topics.lookup topic = none) (msg : Msg τ α) :
    ∃ w', run World.next [.subscribe topic, .publish topic msg, .invoke w.account.calls.length] w = some w' ∧
      (⟨w.account.calls.length, topic, 1, msg⟩ : Delivery τ α) ∈ w'.account.log := by
  have hNew : w.bus.getOrCreateTopic topic = TopicState.new := by
    rw [MessageBus.getOrCreateTopic, hUnknown]
    rfl
  have hState : (w.bus.subscribe topic).2.topics.lookup topic = some ⟨[⟨1, true, none, none⟩], 2, false⟩ := by
    simp only [MessageBus.subscribe, MessageBus.register, MessageBus.setTopic, AList.lookup_insert, hNew]
    rfl
  have hPublish : (w.bus.subscribe topic).2.publish topic msg =
      (⟨[], .awaiting [⟨1, true, none, none⟩]⟩, (w.bus.subscribe topic).2) := by
    rw [MessageBus.publish, hState]
    rfl
  simp only [run, World.next, Option.bind_some, World.publication, hPublish, Account.called,
    Account.invoke, Function.update_self, Option.map_some]
  exact ⟨_, rfl, List.mem_append_right _ List.mem_cons_self⟩

/-- A topic that is closed ends its streams in every later state exactly if it exists by then and
has no stream subscription: a stream that was opened for it is never closed. -/
theorem endsStreams_iff [Inhabited τ] [Inhabited α] {labels : List (Label τ α)} {label : Label τ α}
    (hRun : LabelledRuns.run World.next labels World.start = some w) (hCloses : Closes w topic label)
    (hNext : w.next label = some w') :
    (∀ more after, LabelledRuns.run World.next more w' = some after → EndsStreams topic w after) ↔
      (w.bus.topics.lookup topic).isSome = true ∧ ∀ entry ∈ w.ledger, entry.topic = topic → entry.stream = none := by
  have hBooks := books_run hRun
  have hBooks' := hBooks.next hNext
  obtain ⟨hAccount, hLedger⟩ := closes_account hCloses hNext
  constructor
  · intro hEnds
    constructor
    · by_contra hUnknown
      rw [Option.not_isSome_iff_eq_none] at hUnknown
      obtain rfl | ⟨rfl, hKnown⟩ := hCloses
      · have hSame : w' = w := by
          rw [World.next, MessageBus.closeTopic, hUnknown] at hNext
          exact (Option.some.inj hNext).symm
        subst hSame
        obtain ⟨after, hAfter, hDelivery⟩ := unknown_delivers hUnknown ⟨default, default⟩
        exact Nat.lt_irrefl _ ((hEnds _ after hAfter).silent _ hDelivery rfl)
      · rw [hUnknown] at hKnown
        cases hKnown
    · intro entry hEntry hTopic
      by_contra hStream
      obtain ⟨pair, hPair⟩ := Option.ne_none_iff_exists'.mp hStream
      have hIndex : entry.index = some pair.2 := by
        rw [Entry.index, hPair]
        rfl
      obtain ⟨stream, hGet, hClosed, -⟩ := (hEnds [] w' rfl).closed entry hEntry hTopic pair.2 hIndex
      rw [hBooks'.wired.unclosed stream (List.mem_of_getElem? hGet)] at hClosed
      cases hClosed
  · rintro ⟨hKnown, hNoStream⟩ more after hMore
    have hShut : Shut topic w.account.calls.length w' := by
      refine ⟨closes_closed hCloses hKnown hNext, ?_, ?_, ?_⟩
      · rw [hAccount]
      · rw [hAccount]
        exact fun m p hPending _ => hBooks.noted.lt_length hPending
      · rw [hAccount]
        exact fun d hd _ => hBooks.call_lt hd
    have hEnd : Books after ∧ Shut topic w.account.calls.length after :=
      run_invariant (P := fun w' => Books w' ∧ Shut topic w.account.calls.length w')
        (fun a l b hBoth hStep => ⟨hBoth.1.next hStep, hBoth.2.next hBoth.1 hStep⟩) ⟨hBooks', hShut⟩ hMore
    refine ⟨fun entry hEntry hTopic i hIndex => ?_, hEnd.2.silent⟩
    rw [Entry.index, hNoStream entry hEntry hTopic] at hIndex
    cases hIndex

/-- A topic with a handler and no stream ends well. -/
theorem endsStreams_handler : ∃ w w' : World Nat Nat,
    LabelledRuns.run World.next [.subscribe "ticks"] World.start = some w ∧ w.next (.closeTopic "ticks") = some w' ∧
      ∀ more after, LabelledRuns.run World.next more w' = some after → EndsStreams "ticks" w after := by
  refine ⟨_, _, rfl, rfl, ?_⟩
  refine (endsStreams_iff (rfl : run World.next [.subscribe "ticks"] World.start = some _) (.inl rfl)
    rfl).mpr ⟨rfl, fun entry hEntry _ => ?_⟩
  obtain rfl := List.mem_singleton.mp hEntry
  rfl

/-- The channel of a stream subscription stays open when its topic is closed. -/
theorem endsStreams_left_open : ∃ w w' : World Nat Nat,
    LabelledRuns.run World.next [.subscribeStream "ticks" 0 2] World.start = some w ∧
      w.next (.closeTopic "ticks") = some w' ∧ ¬EndsStreams "ticks" w w' := by
  refine ⟨_, _, rfl, rfl, fun hEnds => ?_⟩
  obtain ⟨stream, hGet, hClosed, -⟩ := hEnds.closed ⟨"ticks", 1, some (0, 0)⟩ List.mem_cons_self rfl 0 rfl
  cases hGet
  cases hClosed

end Closing

end Bus

end Pipeline
