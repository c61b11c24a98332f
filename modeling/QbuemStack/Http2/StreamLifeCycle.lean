import QbuemStack.Http2.SendWindows

/-! The life of a stream between its creation and its erasure. The frame handlers do not look at the
state of the stream, so END_STREAM ends a request only as long as the peer sends nothing after it. -/
namespace QbuemStack.Http2

open Octets Http Http2Handler AList Step

def Http2Stream.RemoteEnded (stream : Http2Stream) : Prop :=
  stream.state = .halfClosedRemote ∨ stream.state = .closed

instance (stream : Http2Stream) : Decidable stream.RemoteEnded := inferInstanceAs (Decidable (_ ∨ _))

def Step.invocationsOn (sid : UInt32) (t : Step) : Nat :=
  ((t.next.invocations.drop t.before.invocations.length).filter fun i => i.streamId = sid).length

def Http2Frame.IsRequest (f : Http2Frame) : Prop :=
  f.type = .headers ∨ f.type = .continuation ∨ f.type = .data

def Step.KeepsEnded (t : Step) : Prop :=
  ∀ f ∈ t.received, f.IsRequest → ∀ stream ∈ t.before.streams.lookup f.streamId, stream.RemoteEnded →
    (∀ stream' ∈ t.next.streams.lookup f.streamId,
      stream'.state ≠ .opened ∧ stream'.requestBody = stream.requestBody) ∧
    t.invocationsOn f.streamId = 0

/-- At most one call of the handler for each life of a stream, and nothing after END_STREAM. -/
structure Orderly (start : Http2Handler) (calls : List Call) : Prop where
  defined : ∀ t ∈ steps start calls, t.result ≠ .undefined
  once : ∀ past, past <:+ calls → ∀ sid,
    total (Step.invocationsOn sid) (incarnation sid (steps start past)) ≤ 1
  ended : ∀ t ∈ steps start calls, t.KeepsEnded

/-- A frame that the handler takes although its stream is ended: one that completes a header block,
ends the stream once more or has content. -/
def Late (s : Http2Handler) (f : Http2Frame) : Prop :=
  ∃ stream ∈ s.streams.lookup f.streamId, stream.RemoteEnded ∧
    (f.type = .headers ∧ f.streamId ≠ 0 ∧
        (if f.has flagEndStream then s.handler = true else f.has flagEndHeaders = true) ∧
        (∃ span ∈ headerSpan f, span.1 + span.2 ≤ f.payload.length ∧
          (f.has flagEndHeaders = false →
            (s.pendingBlock f.streamId).length + span.2 ≤ maxHeaderBlock)) ∨
      f.type = .continuation ∧ f.has flagEndHeaders = true ∧
        (∃ buf ∈ s.continuationBuffer.lookup f.streamId, buf.length + f.payload.length ≤ maxHeaderBlock) ∨
      f.type = .data ∧ f.streamId ≠ 0 ∧ (f.payload.length : Int) ≤ s.connRecvWindow ∧
        (f.payload.length : Int) ≤ stream.recvWindow ∧
        ∃ content ∈ dataContent f, stream.requestBody.length + content.length ≤ maxRequestBody ∧
          (content ≠ [] ∨ f.has flagEndStream = true ∧ s.handler = true))

instance (s : Http2Handler) (f : Http2Frame) : Decidable (Late s f) :=
  inferInstanceAs (Decidable (∃ stream ∈ s.streams.lookup f.streamId, _))

def newCalls (s t : Http2Handler) (sid : UInt32) : Nat :=
  ((t.invocations.drop s.invocations.length).filter fun i => i.streamId = sid).length

variable {s t : Http2Handler} {f : Http2Frame} {stream : Http2Stream} {sid : UInt32}

theorem newCalls_same (h : t.invocations = s.invocations) (sid : UInt32) : newCalls s t sid = 0 := by
  simp [newCalls, h]

theorem newCalls_append {new : List Invocation} (h : t.invocations = s.invocations ++ new) (sid : UInt32) :
    newCalls s t sid = (new.filter fun i => i.streamId = sid).length := by
  rw [newCalls, h, List.drop_left]

theorem calls_other (hNe : sid ≠ f.streamId) : ((calls s f stream).filter fun i => i.streamId = sid).length = 0 := by
  unfold calls
  split_ifs
  · simp [Ne.symm hNe]
  · rfl

theorem calls_none (hMore : f.has flagEndStream = false) :
    ((calls s f stream).filter fun i => i.streamId = sid).length = 0 := by
  simp [calls, hMore]

theorem calls_noHandler (hHandler : s.handler = false) :
    ((calls s f stream).filter fun i => i.streamId = sid).length = 0 := by
  simp [calls, hHandler]

theorem calls_le_one (s : Http2Handler) (f : Http2Frame) (stream : Http2Stream) (sid : UInt32) :
    ((calls s f stream).filter fun i => i.streamId = sid).length ≤ 1 := by
  refine (List.length_filter_le ..).trans ?_
  unfold calls
  split_ifs <;> simp

theorem calls_end (hHandler : s.handler = true) (hEnd : f.has flagEndStream = true) :
    ((calls s f stream).filter fun i => i.streamId = f.streamId).length = 1 := by
  simp [calls, hHandler, hEnd]

inductive LifeChange (s : Http2Handler) (sid : UInt32) (stream : Http2Stream) (new : Nat) : Prop
  | kept (old : Http2Stream) (hOld : s.streams.lookup sid = some old) (hNew : new = 0)
      (hEnded : old.RemoteEnded → stream.RemoteEnded)
  | created (hOld : s.streams.lookup sid = none) (hNew : new = 0)
  | ends (hOld : ∀ old, s.streams.lookup sid = some old → ¬old.RemoteEnded) (hNew : new ≤ 1)
      (hEnded : stream.RemoteEnded)

theorem ended_of_end (hEnd : f.has flagEndStream = true) :
    Http2Handler.ended f stream = { stream with state := .halfClosedRemote } := by
  simp [Http2Handler.ended, hEnd]

theorem ended_of_more (hMore : f.has flagEndStream = false) : Http2Handler.ended f stream = stream := by
  simp [Http2Handler.ended, hMore]

theorem endLocal_remoteEnded (h : stream.RemoteEnded) : (endLocal stream).RemoteEnded := by
  unfold endLocal
  split
  · rename_i hState
    rcases h with h | h <;> rw [hState] at h <;> cases h
  · exact .inr rfl
  · exact h

/-- The frame stores its stream, and the handler is called for it at most. -/
theorem LifeChange.of_stored {stored : Http2Stream} (hCalls : t.invocations = s.invocations ++ calls s f stored)
    (hStream : (s.streams.insert f.streamId (Http2Handler.ended f stored)).lookup sid = some stream)
    (hEndedOnly : ∀ old, s.streams.lookup f.streamId = some old → old.RemoteEnded →
      if f.has flagEndStream then s.handler = false else stored.RemoteEnded) :
    LifeChange s sid stream (newCalls s t sid) := by
  rw [newCalls_append hCalls]
  obtain ⟨rfl, rfl⟩ | ⟨hNe, hOther⟩ := lookup_insert_cases hStream
  swap
  · exact .kept stream hOther (calls_other hNe) id
  cases hEnd : f.has flagEndStream with
  | true =>
    simp only [hEnd, if_true] at hEndedOnly
    cases hHandler : s.handler with
    | true =>
      refine .ends ?_ (calls_le_one ..) (.inl (by rw [ended_of_end hEnd]))
      intro old hOld hEnded
      exact absurd (hEndedOnly old hOld hEnded) (by simp [hHandler])
    | false =>
      cases hOld : s.streams.lookup f.streamId with
      | none => exact .created hOld (calls_noHandler hHandler)
      | some old => exact .kept old hOld (calls_noHandler hHandler) fun _ => .inl (by rw [ended_of_end hEnd])
  | false =>
    simp only [hEnd, Bool.false_eq_true, if_false] at hEndedOnly
    cases hOld : s.streams.lookup f.streamId with
    | none => exact .created hOld (calls_none hEnd)
    | some old =>
      refine .kept old hOld (calls_none hEnd) fun hEnded => ?_
      rw [ended_of_more hEnd]
      exact hEndedOnly old hOld hEnded

/-- What a call does to the life of a stream, outcome by outcome. -/
theorem Outcome.life {call : Call} {r : Result} (h : Outcome s call t r) (hDefined : r ≠ .undefined)
    (hLate : ∀ f, call = .handleFrame f → ¬Late s f) (hStream : t.streams.lookup sid = some stream) :
    LifeChange s sid stream (newCalls s t sid) := by
  have hSame : ∀ {old : Http2Stream}, t.invocations = s.invocations → s.streams.lookup sid = some old →
      (old.RemoteEnded → stream.RemoteEnded) → LifeChange s sid stream (newCalls s t sid) :=
    fun hCalls hOld hEnded => .kept _ hOld (newCalls_same hCalls sid) hEnded
  have hStored : ∀ {other old stored}, t.invocations = s.invocations → s.streams.lookup other = some old →
      (s.streams.insert other stored).lookup sid = some stream → (old.RemoteEnded → stored.RemoteEnded) →
      LifeChange s sid stream (newCalls s t sid) := by
    intro other old stored hCalls hOld hLookup hEnded
    rcases lookup_insert_cases hLookup with ⟨rfl, rfl⟩ | ⟨-, hOther⟩
    · exact hSame hCalls hOld hEnded
    · exact hSame hCalls hOther id
  cases h with
  | settings hType h =>
    obtain ⟨delta, hLookup⟩ := h.resettled.streams sid
    have hOld := hStream
    rw [hLookup, Option.map_eq_some_iff] at hOld
    obtain ⟨old, hOld, rfl⟩ := hOld
    exact hSame h.resettled.invocations hOld id
  | @headers f _ _ hType h =>
    have hPlain : ∀ {stored}, t.invocations = s.invocations →
        stored = s.getOrCreateStream f.streamId →
        (s.streams.insert f.streamId stored).lookup sid = some stream →
        LifeChange s sid stream (newCalls s t sid) := by
      intro stored hCalls hStored hLookup
      rcases lookup_insert_cases hLookup with ⟨rfl, rfl⟩ | ⟨-, hOld⟩
      · cases hOld : s.streams.lookup f.streamId with
        | none => exact .created hOld (newCalls_same hCalls _)
        | some old =>
          refine hSame hCalls hOld fun hEnded => ?_
          rw [hStored]
          simpa [getOrCreateStream, hOld] using hEnded
      · exact hSame hCalls hOld id
    cases h with
    | overrun => exact absurd rfl hDefined
    | onZero | refused => exact hSame rfl hStream id
    | malformed | tooLarge => exact hPlain rfl rfl hStream
    | buffered offset size hSid hAdmits hSpan hOpen hInside hSmall =>
      refine .of_stored rfl hStream fun old hOld hEnded => ?_
      split_ifs with hEnd
      · by_contra hHandler
        exact hLate f rfl ⟨old, hOld, hEnded, .inl ⟨hType, hSid, by simpa [hEnd] using hHandler,
          (offset, size), hSpan, hInside, fun _ => hSmall⟩⟩
      · simpa [getOrCreateStream, hOld] using hEnded
    | complete offset size hSid hAdmits hSpan hClosed hInside =>
      refine .of_stored rfl hStream fun old hOld hEnded => ?_
      by_contra hTaken
      refine hLate f rfl ⟨old, hOld, hEnded, .inl ⟨hType, hSid, ?_, (offset, size), hSpan,
        hInside, fun hOpen => ?_⟩⟩
      · split_ifs with hEnd
        · simpa [hEnd] using hTaken
        · exact hClosed
      · rw [hClosed] at hOpen
        cases hOpen
  | @continuation f _ _ hType h =>
    cases h with
    | complete buf old hBuf hSmall hClosed hOld =>
      refine hStored rfl hOld hStream fun hEnded => ?_
      exact absurd ⟨old, hOld, hEnded, .inr (.inl ⟨hType, hClosed, buf, hBuf, hSmall⟩)⟩ (hLate f rfl)
    | unexpected | tooLarge | continued | orphaned => exact hSame rfl hStream id
  | @data f _ _ hType h =>
    cases h with
    | onZero | unknown => exact hSame rfl hStream id
    | connectionUnderflow old _ hOld | malformed old _ hOld | collected old _ _ hOld =>
      exact hStored rfl hOld hStream id
    | streamUnderflow | bodyTooLarge => exact hSame rfl (lookup_erase_cases hStream).2 id
    | ended old content hSid hOld hConn hWindow hContent hSmall hEnd =>
      rw [← @ended_of_end f { charged old f with requestBody := old.requestBody ++ content } hEnd] at hStream
      refine .of_stored rfl hStream fun old' hOld' hEnded => ?_
      cases hOld.symm.trans hOld'
      rw [if_pos hEnd]
      by_contra hHandler
      exact hLate f rfl ⟨old, hOld, hEnded, .inr (.inr ⟨hType, hSid, hConn, hWindow, content,
        hContent, hSmall, .inr ⟨hEnd, by simpa using hHandler⟩⟩)⟩
  | rstStream hType h => cases h <;> exact hSame rfl (lookup_erase_cases hStream).2 id
  | windowUpdate hType h =>
    cases h with
    | streamOverflow => exact hSame rfl (lookup_erase_cases hStream).2 id
    | stream old _ _ hOld => exact hStored rfl hOld hStream id
    | failed | zero | connectionOverflow | connection | unknown => exact hSame rfl hStream id
  | other | drain => exact hSame rfl hStream id
  | @sendHeaders _ _ _ endStream _ h =>
    cases h with
    | unknown => exact hSame rfl hStream id
    | known old hOld =>
      cases endStream with
      | false => exact hSame rfl hStream id
      | true => exact hStored rfl hOld hStream endLocal_remoteEnded
  | @sendData _ _ endStream _ _ h =>
    cases h with
    | blocked | tooLong | unknown => exact hSame rfl hStream id
    | known old hOld =>
      refine hStored rfl hOld hStream fun hEnded => ?_
      cases endStream
      · exact hEnded
      · exact endLocal_remoteEnded hEnded

def Untouched (s t : Http2Handler) (f : Http2Frame) (old : Http2Stream) : Prop :=
  (∀ stream ∈ t.streams.lookup f.streamId,
    stream.state ≠ .opened ∧ stream.requestBody = old.requestBody) ∧ newCalls s t f.streamId = 0

section Ended

variable {s t : Http2Handler} {f : Http2Frame} {r : Result} {old : Http2Stream} {stream : Http2Stream}

theorem Http2Stream.RemoteEnded.ne_opened (h : stream.RemoteEnded) : stream.state ≠ .opened := by
  rcases h with h | h <;> simp [h]

theorem untouched_of_lookup (hEnded : old.RemoteEnded) (hCalls : t.invocations = s.invocations)
    (hLookup : t.streams.lookup f.streamId = some stream) (hState : stream.state = old.state)
    (hBody : stream.requestBody = old.requestBody) : Untouched s t f old := by
  refine ⟨?_, newCalls_same hCalls _⟩
  intro stream' hStream'
  cases hLookup.symm.trans hStream'
  exact ⟨hState ▸ hEnded.ne_opened, hBody⟩

theorem untouched_of_erase (hCalls : t.invocations = s.invocations)
    (hGone : t.streams.lookup f.streamId = none) : Untouched s t f old := by
  refine ⟨?_, newCalls_same hCalls _⟩
  intro stream hStream
  rw [hGone] at hStream
  cases hStream

theorem untouched_ended_iff {new : Http2Stream} (hEnd : f.has flagEndStream = true)
    (hLookup : t.streams.lookup f.streamId = some (Http2Handler.ended f new))
    (hCalls : t.invocations = s.invocations ++ calls s f new) (hBody : new.requestBody = old.requestBody) :
    Untouched s t f old ↔ ¬s.handler = true := by
  unfold Untouched
  rw [newCalls_append hCalls]
  constructor
  · rintro ⟨-, hNone⟩ hHandler
    rw [calls_end hHandler hEnd] at hNone
    cases hNone
  · intro hHandler
    refine ⟨?_, calls_noHandler (by simpa using hHandler)⟩
    intro stream hStream
    cases hLookup.symm.trans hStream
    rw [ended_of_end hEnd]
    exact ⟨StreamState.noConfusion, hBody⟩

theorem not_untouched_of_opened (hLookup : t.streams.lookup f.streamId = some stream)
    (hOpened : stream.state = .opened) :
    ¬Untouched s t f old :=
  fun h => (h.1 stream hLookup).1 hOpened

theorem not_untouched_of_content {content : Bytes} (hContent : content ≠ [])
    (hLookup : t.streams.lookup f.streamId = some stream) (hBody : stream.requestBody = old.requestBody ++ content) :
    ¬Untouched s t f old := by
  intro h
  have hSame := (h.1 stream hLookup).2
  rw [hBody] at hSame
  exact hContent (List.append_right_eq_self.mp hSame)

variable (hOld : s.streams.lookup f.streamId = some old) (hEnded : old.RemoteEnded)
include hOld hEnded

theorem Http2Handler.HeadersOutcome.untouched_iff (h : HeadersOutcome s f t r) (hType : f.type = .headers)
    (hDefined : r ≠ .undefined) : Untouched s t f old ↔ ¬Late s f := by
  have hStored : s.getOrCreateStream f.streamId = old := by simp [getOrCreateStream, hOld]
  have hLate : Late s f ↔ f.streamId ≠ 0 ∧
      (if f.has flagEndStream then s.handler = true else f.has flagEndHeaders = true) ∧ ∃ span ∈ headerSpan f,
        span.1 + span.2 ≤ f.payload.length ∧
        (f.has flagEndHeaders = false → (s.pendingBlock f.streamId).length + span.2 ≤ maxHeaderBlock) := by
    simp [Late, hType, hOld, hEnded]
  rw [hLate]
  cases h with
  | overrun => exact absurd rfl hDefined
  | refused _ hNew => rw [hNew] at hOld; cases hOld
  | onZero hZero =>
    refine iff_of_true (untouched_of_lookup hEnded rfl hOld rfl rfl) ?_
    exact fun h => h.1 hZero
  | malformed _ _ hSpan =>
    refine iff_of_true (untouched_of_lookup hEnded rfl (lookup_insert _) (by rw [hStored])
      (by rw [hStored])) ?_
    rintro ⟨-, -, span, hSome, -⟩
    rw [hSpan] at hSome
    cases hSome
  | tooLarge offset size _ _ hSpan hOpen hLarge =>
    refine iff_of_true (untouched_of_lookup hEnded rfl (lookup_insert _) (by rw [hStored])
      (by rw [hStored])) ?_
    rintro ⟨-, -, span, hSome, hInside, hSmall⟩
    cases hSpan.symm.trans hSome
    rw [bufferedSize, if_neg (Nat.not_lt.mpr hInside)] at hLarge
    exact absurd (hSmall hOpen) (Nat.not_le.mpr hLarge)
  | buffered offset size hSid _ hSpan hOpen hInside hSmall =>
    cases hEnd : f.has flagEndStream with
    | true =>
      rw [untouched_ended_iff hEnd (lookup_insert _) rfl (by rw [hStored])]
      exact not_congr ⟨fun hHandler => ⟨hSid, hHandler, (offset, size), hSpan, hInside, fun _ => hSmall⟩,
        fun h => h.2.1⟩
    | false =>
      refine iff_of_true ⟨?_, ?_⟩ ?_
      · intro stream hStream
        rw [lookup_insert, ended_of_more hEnd, hStored] at hStream
        cases hStream
        exact ⟨hEnded.ne_opened, rfl⟩
      · rw [newCalls_append rfl, calls_none hEnd]
      · rintro ⟨-, hClosed, -⟩
        simp [hOpen] at hClosed
  | complete offset size hSid _ hSpan hClosed hInside =>
    have hFits : f.has flagEndHeaders = false →
        (s.pendingBlock f.streamId).length + size ≤ maxHeaderBlock := by simp [hClosed]
    cases hEnd : f.has flagEndStream with
    | true =>
      rw [untouched_ended_iff hEnd (lookup_insert _) rfl (by rw [hStored]; rfl)]
      exact not_congr ⟨fun hHandler => ⟨hSid, hHandler, (offset, size), hSpan, hInside, hFits⟩,
        fun h => h.2.1⟩
    | false =>
      refine iff_of_false (not_untouched_of_opened (lookup_insert _) ?_)
        (not_not_intro ⟨hSid, by simpa using hClosed, (offset, size), hSpan, hInside, hFits⟩)
      rw [ended_of_more hEnd]
      rfl

theorem Http2Handler.ContinuationOutcome.untouched_iff (h : ContinuationOutcome s f t r)
    (hType : f.type = .continuation) : Untouched s t f old ↔ ¬Late s f := by
  have hLate : Late s f ↔ f.has flagEndHeaders = true ∧
      ∃ buf ∈ s.continuationBuffer.lookup f.streamId, buf.length + f.payload.length ≤ maxHeaderBlock := by
    simp [Late, hType, hOld, hEnded]
  rw [hLate]
  cases h with
  | unexpected hNone =>
    refine iff_of_true (untouched_of_lookup hEnded rfl hOld rfl rfl) ?_
    rintro ⟨-, buf, hBuf, -⟩
    rw [hNone] at hBuf
    cases hBuf
  | tooLarge buf hBuf hLarge =>
    refine iff_of_true (untouched_of_lookup hEnded rfl hOld rfl rfl) ?_
    rintro ⟨-, buf', hBuf', hSmall⟩
    cases hBuf.symm.trans hBuf'
    exact absurd hSmall (Nat.not_le.mpr hLarge)
  | continued _ _ _ hOpen =>
    refine iff_of_true (untouched_of_lookup hEnded rfl hOld rfl rfl) ?_
    rintro ⟨hClosed, -⟩
    rw [hOpen] at hClosed
    cases hClosed
  | orphaned _ _ _ _ hGone => rw [hGone] at hOld; cases hOld
  | complete buf stream hBuf hSmall hClosed =>
    exact iff_of_false (not_untouched_of_opened (lookup_insert _) rfl)
      (not_not_intro ⟨hClosed, buf, hBuf, hSmall⟩)

theorem Http2Handler.DataOutcome.untouched_iff (h : DataOutcome s f t r) (hType : f.type = .data) :
    Untouched s t f old ↔ ¬Late s f := by
  have hLate : Late s f ↔ f.streamId ≠ 0 ∧ (f.payload.length : Int) ≤ s.connRecvWindow ∧
      (f.payload.length : Int) ≤ old.recvWindow ∧ ∃ content ∈ dataContent f,
        old.requestBody.length + content.length ≤ maxRequestBody ∧
          (content ≠ [] ∨ f.has flagEndStream = true ∧ s.handler = true) := by
    simp [Late, hType, hOld, hEnded]
  rw [hLate]
  cases h with
  | unknown _ hNone => rw [hNone] at hOld; cases hOld
  | onZero hZero =>
    exact iff_of_true (untouched_of_lookup hEnded rfl hOld rfl rfl) fun h => h.1 hZero
  | connectionUnderflow stream _ hStream hUnder =>
    cases hOld.symm.trans hStream
    refine iff_of_true (untouched_of_lookup hEnded rfl (lookup_insert _) rfl rfl) ?_
    exact fun h => absurd h.2.1 (Int.not_le.mpr hUnder)
  | streamUnderflow stream _ hStream _ hUnder =>
    cases hOld.symm.trans hStream
    refine iff_of_true (untouched_of_erase rfl (lookup_erase _ _)) ?_
    exact fun h => absurd h.2.2.1 (Int.not_le.mpr hUnder)
  | malformed stream _ hStream _ _ hContent =>
    cases hOld.symm.trans hStream
    refine iff_of_true (untouched_of_lookup hEnded rfl (lookup_insert _) rfl rfl) ?_
    rintro ⟨-, -, -, content, hSome, -⟩
    rw [hContent] at hSome
    cases hSome
  | bodyTooLarge stream content _ hStream _ _ hContent hLarge =>
    cases hOld.symm.trans hStream
    refine iff_of_true (untouched_of_erase rfl (lookup_erase _ _)) ?_
    rintro ⟨-, -, -, content', hSome, hSmall, -⟩
    cases hContent.symm.trans hSome
    exact absurd hSmall (Nat.not_le.mpr hLarge)
  | ended stream content hSid hStream hConn hWindow hContent hSmall hEnd =>
    cases hOld.symm.trans hStream
    by_cases hEmpty : content = []
    · rw [untouched_ended_iff hEnd (by rw [lookup_insert, ended_of_end hEnd]) rfl (by simp [hEmpty])]
      refine not_congr ⟨fun hHandler => ⟨hSid, hConn, hWindow, content, hContent, hSmall,
        .inr ⟨hEnd, hHandler⟩⟩, ?_⟩
      rintro ⟨-, -, -, content', hSome, -, hNonempty | hHandler⟩
      · cases hContent.symm.trans hSome
        exact absurd hEmpty hNonempty
      · exact hHandler.2
    · exact iff_of_false (not_untouched_of_content hEmpty (lookup_insert _) rfl)
        (not_not_intro ⟨hSid, hConn, hWindow, content, hContent, hSmall, .inl hEmpty⟩)
  | collected stream content hSid hStream hConn hWindow hContent hSmall hMore =>
    cases hOld.symm.trans hStream
    by_cases hEmpty : content = []
    · refine iff_of_true (untouched_of_lookup hEnded rfl (lookup_insert _) rfl ?_) ?_
      · simp [hEmpty]
      · rintro ⟨-, -, -, content', hSome, -, hNonempty | ⟨hEnd, -⟩⟩
        · cases hContent.symm.trans hSome
          exact hNonempty hEmpty
        · rw [hMore] at hEnd
          cases hEnd
    · exact iff_of_false (not_untouched_of_content hEmpty (lookup_insert _) rfl)
        (not_not_intro ⟨hSid, hConn, hWindow, content, hContent, hSmall, .inl hEmpty⟩)

end Ended

theorem Late.isRequest (h : Late s f) : f.IsRequest := by
  obtain ⟨_, _, _, ⟨hType, -⟩ | ⟨hType, -⟩ | ⟨hType, -⟩⟩ := h
  · exact .inl hType
  · exact .inr (.inl hType)
  · exact .inr (.inr hType)

theorem Outcome.untouched_iff {r : Result} {old : Http2Stream} (h : Outcome s (.handleFrame f) t r)
    (hRequest : f.IsRequest) (hDefined : r ≠ .undefined) (hOld : s.streams.lookup f.streamId = some old)
    (hEnded : old.RemoteEnded) : Untouched s t f old ↔ ¬Late s f := by
  rcases hRequest with hType | hType | hType
  · exact (h.byType.headers hType).untouched_iff hOld hEnded hType hDefined
  · exact (h.byType.continuation hType).untouched_iff hOld hEnded hType
  · exact (h.byType.data hType).untouched_iff hOld hEnded hType

theorem Step.keepsEnded_iff {t : Step} (hDefined : t.result ≠ .undefined) :
    t.KeepsEnded ↔ ∀ f ∈ t.received, ¬Late t.before f := by
  have hStep := step_cases t
  refine forall₂_congr fun f hf => ?_
  rw [received_eq_some.mp hf] at hStep
  constructor
  · intro hKeeps hLate
    obtain ⟨old, hOld, hEnded, -⟩ := id hLate
    have hRequest := hLate.isRequest
    exact (hStep.untouched_iff hRequest hDefined hOld hEnded).mp
      (hKeeps hRequest old hOld hEnded) hLate
  · intro hLate hRequest old hOld hEnded
    exact (hStep.untouched_iff hRequest hDefined hOld hEnded).mpr hLate

def Step.Quiet (t : Step) : Prop := t.result ≠ .undefined ∧ ∀ f ∈ t.received, ¬Late t.before f

/-- As long as nothing comes late, the handler is called for a stream only by the frame that ends
it. -/
theorem invocations_le {start : Http2Handler} (hStart : start.streams = ∅) {calls : List Call}
    (hQuiet : ∀ t ∈ steps start calls, t.Quiet)
    {sid : UInt32} {stream : Http2Stream} (hStream : (after start calls).streams.lookup sid = some stream) :
    total (invocationsOn sid) (incarnation sid (steps start calls)) ≤ if stream.RemoteEnded then 1 else 0 := by
  induction calls generalizing stream with
  | nil =>
    rw [after, hStart] at hStream
    cases hStream
  | cons call past ih =>
    have hPast := @ih fun t ht => hQuiet t (List.mem_cons_of_mem _ ht)
    obtain ⟨hDefined, hLate⟩ := hQuiet ⟨after start past, call⟩ List.mem_cons_self
    have hLive : sid ∈ (mk (after start past) call).next.streams := mem_of_lookup hStream
    have hNew : invocationsOn sid ⟨after start past, call⟩ =
      newCalls (after start past) (after start (call :: past)) sid := rfl
    have hFrames : ∀ f, call = .handleFrame f → ¬Late (after start past) f :=
      fun f hCall => hLate f (received_eq_some.mpr hCall)
    rw [steps, incarnation_cons hLive, total_cons, hNew]
    cases (step_cases ⟨after start past, call⟩).life hDefined hFrames hStream with
    | created hOld hNone =>
      rw [incarnation_of_notMem (lookup_eq_none.mp hOld)]
      exact (Nat.add_eq_zero_iff.mpr ⟨hNone, rfl⟩).le.trans (Nat.zero_le _)
    | kept old hOld hNone hEnded =>
      have hBefore := hPast hOld
      have hZero : newCalls (after start past) (after start (call :: past)) sid = 0 := hNone
      rw [hZero, Nat.zero_add]
      refine hBefore.trans ?_
      split_ifs with hOldEnded hStreamEnded
      · exact le_rfl
      · exact absurd (hEnded hOldEnded) hStreamEnded
      · exact Nat.zero_le _
      · exact le_rfl
    | ends hOld hOne hEnded =>
      have hCalls : newCalls (after start past) (after start (call :: past)) sid ≤ 1 := hOne
      rw [if_pos hEnded]
      have hBefore : total (invocationsOn sid) (incarnation sid (steps start past)) = 0 := by
        cases hLookup : (after start past).streams.lookup sid with
        | none => rw [incarnation_of_notMem (lookup_eq_none.mp hLookup)]; rfl
        | some old => simpa [hOld old hLookup] using hPast hLookup
      omega

/-- A run is orderly exactly when no HEADERS frame has more padding than payload and no frame comes
late. -/
theorem orderly_iff (installed : Bool) (calls : List Call) :
    Orderly { handler := installed } calls ↔
      ∀ t ∈ steps { handler := installed } calls, ∀ f ∈ t.received,
        (f.type = .headers → ¬Overruns t.before f) ∧ ¬Late t.before f := by
  have hDefinedIff : ∀ t : Step, t.result ≠ .undefined ↔
      ∀ f ∈ t.received, f.type = .headers → ¬Overruns t.before f := by
    intro t
    rw [Ne, (step_cases t).undefined_iff]
    simp only [not_exists, not_and, received_eq_some]
  constructor
  · intro h t ht f hf
    refine ⟨(hDefinedIff t).mp (h.defined t ht) f hf, ?_⟩
    exact (t.keepsEnded_iff (h.defined t ht)).mp (h.ended t ht) f hf
  · intro h
    have hQuiet : ∀ t ∈ steps { handler := installed } calls, t.Quiet :=
      fun t ht => ⟨(hDefinedIff t).mpr fun f hf => (h t ht f hf).1, fun f hf => (h t ht f hf).2⟩
    refine ⟨fun t ht => (hQuiet t ht).1, ?_, fun t ht => (t.keepsEnded_iff (hQuiet t ht).1).mpr (hQuiet t ht).2⟩
    intro past hPast sid
    have hBefore : ∀ t ∈ steps { handler := installed } past, t.Quiet :=
      mem_steps_iff.mpr fun call earlier hSuffix =>
        mem_steps_iff.mp hQuiet call earlier (hSuffix.trans hPast)
    cases hLookup : (after { handler := installed } past).streams.lookup sid with
    | none =>
      rw [incarnation_of_notMem (lookup_eq_none.mp hLookup)]
      exact Nat.zero_le _
    | some stream =>
      refine (invocations_le rfl hBefore hLookup).trans ?_
      split_ifs <;> omega

def repeatedHeaders : List Call :=
  List.replicate 2 (.handleFrame { type := .headers, streamId := 1, flags := flagEndHeaders ||| flagEndStream })

def lastBlock : Http2Frame := { type := .continuation, streamId := 1, flags := flagEndHeaders }

def reopened : List Call :=
  [.handleFrame lastBlock, .handleFrame { type := .headers, streamId := 1, flags := flagEndStream }]

/-- The handler is called twice in one life of the stream; an ended stream is opened again. -/
theorem lateFrames_disorderly : (¬Orderly {} repeatedHeaders ∧
      total (Step.invocationsOn 1) (incarnation 1 (steps {} repeatedHeaders)) = 2) ∧ ¬Orderly {} reopened ∧
      ((after {} reopened).streams.lookup 1).map Http2Stream.state = some .opened := by
  have hTwice : total (invocationsOn 1) (incarnation 1 (steps {} repeatedHeaders)) = 2 := by
    decide +kernel
  refine ⟨⟨fun h => ?_, hTwice⟩, fun h => ?_, by decide +kernel⟩
  · have hOnce := h.once repeatedHeaders (List.suffix_refl _) 1
    omega
  · have hLate : Late (after {} reopened.tail) lastBlock := by decide +kernel
    have hStep : mk (after {} reopened.tail) (.handleFrame lastBlock) ∈ steps {} reopened :=
      List.mem_cons_self
    exact (keepsEnded_iff (h.defined _ hStep)).mp (h.ended _ hStep) lastBlock rfl hLate

end QbuemStack.Http2
