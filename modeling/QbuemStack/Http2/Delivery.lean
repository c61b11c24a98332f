import QbuemStack.Http2.Outcomes

/-! The delivery of a request: its header block, its body, and what the request handler is called
with. -/
namespace QbuemStack.Http2

open Octets Http Http2Handler AList
open List (append_nil length_append length_nil)

def marked (flag : UInt8) (set : Bool) : UInt8 := if set then flag else 0

def frameOf (type : Http2FrameType) (sid : UInt32) (flags : UInt8) (payload : Bytes) : Http2Frame :=
  { type := type, streamId := sid, flags := flags, payload := payload,
    length := UInt32.ofNat payload.length }

def sequence (type : Http2FrameType) (flag : UInt8) (sid : UInt32) : List Bytes → List Http2Frame
  | [] => []
  | piece :: rest => frameOf type sid (marked flag rest.isEmpty) piece :: sequence type flag sid rest

/-- A header block cut into HEADERS and CONTINUATION payloads, and a body into DATA payloads. -/
structure Segmented (order : MapOrder) (headers : HeaderMap) (body : Bytes) where
  first : Bytes
  rest : List Bytes
  datas : List Bytes
  block_eq : first ++ rest.flatten = Hpack.encode order headers
  body_eq : datas.flatten = body
  bodyless : body = [] → datas = []
  sized : first.length < 2 ^ 64

namespace Segmented

variable {order : MapOrder} {headers : HeaderMap} {body : Bytes}

def opening (split : Segmented order headers body) (sid : UInt32) : Http2Frame :=
  frameOf .headers sid
    (marked flagEndHeaders split.rest.isEmpty ||| marked flagEndStream split.datas.isEmpty) split.first

def frames (split : Segmented order headers body) (sid : UInt32) : List Http2Frame :=
  split.opening sid ::
    (sequence .continuation flagEndHeaders sid split.rest ++ sequence .data flagEndStream sid split.datas)

theorem datas_eq_nil_iff (split : Segmented order headers body) : split.datas = [] ↔ body = [] := by
  refine ⟨fun h => ?_, split.bodyless⟩
  rw [← split.body_eq, h]
  rfl

end Segmented

def feed (s : Http2Handler) (frames : List Http2Frame) : Http2Handler :=
  frames.foldl (fun s f => (s.handleFrame f).1) s

/-- Every DATA frame fits the windows of the handler when it comes. -/
def WithinRecvWindows (s : Http2Handler) : List Http2Frame → Prop
  | [] => True
  | f :: rest =>
    (f.type = .data → (f.payload.length : Int) ≤ s.connRecvWindow ∧
      ∀ stream ∈ s.streams.lookup f.streamId, (f.payload.length : Int) ≤ stream.recvWindow) ∧
    WithinRecvWindows (s.handleFrame f).1 rest

def decideWithinRecvWindows : (frames : List Http2Frame) → (s : Http2Handler) →
    Decidable (WithinRecvWindows s frames)
  | [], _ => isTrue trivial
  | f :: rest, s =>
    have := decideWithinRecvWindows rest (s.handleFrame f).1
    inferInstanceAs (Decidable ((f.type = .data → (f.payload.length : Int) ≤ s.connRecvWindow ∧
      ∀ stream ∈ s.streams.lookup f.streamId, (f.payload.length : Int) ≤ stream.recvWindow) ∧
      WithinRecvWindows (s.handleFrame f).1 rest))

instance (s : Http2Handler) (frames : List Http2Frame) : Decidable (WithinRecvWindows s frames) :=
  decideWithinRecvWindows frames s

/-- The stream can be opened and has not been used before. -/
structure Ready (s : Http2Handler) (sid : UInt32) : Prop where
  handler : s.handler = true
  nonzero : sid ≠ 0
  unused : s.streams.lookup sid = none
  noBlock : s.continuationBuffer.lookup sid = none
  room : s.streams.keys.length < maxConcurrentStreams

/-- One call of the handler, with the request; the stream is half closed. -/
structure Delivered (s t : Http2Handler) (sid : UInt32) (headers : HeaderMap) (body : Bytes) : Prop where
  once : ∃ call, t.invocations = s.invocations ++ [call] ∧ call.streamId = sid ∧ call.body = body ∧
    ∀ name, call.headers.find name = headers.find name
  state : ∃ stream ∈ t.streams.lookup sid, stream.state = .halfClosedRemote

section

variable (sid : UInt32) (set : Bool) (payload : Bytes)
include sid set payload

theorem frameOf_endHeaders :
    (frameOf .continuation sid (marked flagEndHeaders set) payload).has flagEndHeaders = set := by
  simp only [Http2Frame.has, frameOf]
  cases set <;> decide

theorem frameOf_endStream : (frameOf .data sid (marked flagEndStream set) payload).has flagEndStream = set := by
  simp only [Http2Frame.has, frameOf]
  cases set <;> decide

theorem dataContent_frameOf : dataContent (frameOf .data sid (marked flagEndStream set) payload) = some payload := by
  have hPlain : (frameOf .data sid (marked flagEndStream set) payload).has flagPadded = false := by
    simp only [Http2Frame.has, frameOf]
    cases set <;> decide
  rw [dataContent, if_neg (by simp [hPlain])]
  rfl

end

section Opening

variable {order : MapOrder} {headers : HeaderMap} {body : Bytes} (split : Segmented order headers body)
  (sid : UInt32)

theorem opening_flags : (split.opening sid).has flagEndHeaders = split.rest.isEmpty ∧
    (split.opening sid).has flagEndStream = split.datas.isEmpty ∧
    (split.opening sid).has flagPadded = false ∧ (split.opening sid).has flagPriority = false := by
  simp only [Segmented.opening, Http2Frame.has, frameOf]
  cases split.rest.isEmpty <;> cases split.datas.isEmpty <;> decide

theorem headerSpan_opening : headerSpan (split.opening sid) = some (0, split.first.length) := by
  obtain ⟨-, -, hPadded, hPriority⟩ := opening_flags split sid
  have hPayload : (split.opening sid).payload = split.first := rfl
  simpa [headerSpan, hPadded, hPriority, hPayload] using split.sized

end Opening

theorem feed_append (s : Http2Handler) (first second : List Http2Frame) :
    feed s (first ++ second) = feed (feed s first) second := List.foldl_append

theorem feed_cons (s : Http2Handler) (f : Http2Frame) (rest : List Http2Frame) :
    feed s (f :: rest) = feed (s.handleFrame f).1 rest := rfl

variable {s : Http2Handler} {stream : Http2Stream} {sid : UInt32}

theorem withinRecvWindows_append {first second : List Http2Frame} (h : WithinRecvWindows s (first ++ second)) :
    WithinRecvWindows (feed s first) second := by
  induction first generalizing s with
  | nil => exact h
  | cons f first ih => exact ih h.2

theorem data_taken {t : Http2Handler} {f : Http2Frame} {r : Result} {content : Bytes} (h : DataOutcome s f t r)
    (hSid : f.streamId ≠ 0) (hStream : s.streams.lookup f.streamId = some stream)
    (hConn : (f.payload.length : Int) ≤ s.connRecvWindow) (hWindow : (f.payload.length : Int) ≤ stream.recvWindow)
    (hContent : dataContent f = some content) (hSmall : stream.requestBody.length + content.length ≤ maxRequestBody) :
    t.handler = s.handler ∧
      t.invocations = s.invocations ++
        calls s f { charged stream f with requestBody := stream.requestBody ++ content } ∧
      ∃ next ∈ t.streams.lookup f.streamId, next.requestHeaders = stream.requestHeaders ∧
        next.requestBody = stream.requestBody ++ content ∧
        (f.has flagEndStream = true → next.state = .halfClosedRemote) := by
  cases h with
  | onZero hZero => exact absurd hZero hSid
  | unknown _ hNone => rw [hNone] at hStream; cases hStream
  | connectionUnderflow _ _ _ hUnder => exact absurd hConn (Int.not_le.mpr hUnder)
  | streamUnderflow _ _ hOther _ hUnder =>
    cases hOther.symm.trans hStream
    exact absurd hWindow (Int.not_le.mpr hUnder)
  | malformed _ _ _ _ _ hNone => rw [hNone] at hContent; cases hContent
  | bodyTooLarge _ _ _ hOther _ _ hOther' hLarge =>
    cases hOther.symm.trans hStream
    cases hOther'.symm.trans hContent
    exact absurd hSmall (Nat.not_le.mpr hLarge)
  | ended _ _ _ hOther _ _ hOther' _ hEnd =>
    cases hOther.symm.trans hStream
    cases hOther'.symm.trans hContent
    exact ⟨rfl, rfl, _, lookup_insert _, rfl, rfl, fun _ => rfl⟩
  | collected _ _ _ hOther _ _ hOther' _ hMore =>
    cases hOther.symm.trans hStream
    cases hOther'.symm.trans hContent
    refine ⟨rfl, ?_, _, lookup_insert _, rfl, rfl, ?_⟩
    · simp [calls, hMore, chargedConnection]
    · simp [hMore]

/-- DATA frames within the windows add up to the body, and the last one calls the handler. -/
theorem feed_datas {datas : List Bytes} (hDatas : datas ≠ []) (hHandler : s.handler = true) (hSid : sid ≠ 0)
    (hStream : s.streams.lookup sid = some stream)
    (hWindows : WithinRecvWindows s (sequence .data flagEndStream sid datas))
    (hSmall : stream.requestBody.length + datas.flatten.length ≤ maxRequestBody) :
    let t := feed s (sequence .data flagEndStream sid datas)
    t.invocations = s.invocations ++ [⟨stream.requestHeaders, stream.requestBody ++ datas.flatten, sid⟩] ∧
      ∃ final ∈ t.streams.lookup sid, final.state = .halfClosedRemote := by
  induction datas generalizing s stream with
  | nil => exact absurd rfl hDatas
  | cons piece rest ih =>
    rw [sequence] at hWindows ⊢
    obtain ⟨hFits, hRest⟩ := hWindows
    obtain ⟨hConn, hWindow⟩ := hFits rfl
    rw [List.flatten_cons, length_append] at hSmall
    obtain ⟨hSame, hCalls, next, hNext, hHeaders, hBody, hEnded⟩ :=
      data_taken ((apply_handleFrame_cases s _).byType.data rfl) hSid hStream hConn (hWindow stream hStream)
        (dataContent_frameOf sid rest.isEmpty piece) (by omega)
    rw [feed_cons]
    cases rest with
    | nil =>
      refine ⟨?_, next, hNext, hEnded (frameOf_endStream sid _ piece)⟩
      show (s.handleFrame _).1.invocations = _
      rw [hCalls, calls, frameOf_endStream, hHandler, List.flatten_cons, List.flatten_nil, append_nil]
      rfl
    | cons second rest =>
      obtain ⟨hLast, hState⟩ := ih (List.cons_ne_nil _ _) (hSame.trans hHandler) hNext hRest
        (by rw [hBody, length_append]; omega)
      refine ⟨?_, hState⟩
      rw [hLast, hCalls, hBody, hHeaders, List.append_assoc]
      simp [calls, frameOf_endStream]

theorem continuationOutcome (s : Http2Handler) (flags : UInt8) (piece : Bytes) :
    ContinuationOutcome s (frameOf .continuation sid flags piece)
      (s.handleFrame (frameOf .continuation sid flags piece)).1
      (s.handleFrame (frameOf .continuation sid flags piece)).2 :=
  (apply_handleFrame_cases s _).byType.continuation rfl

/-- Without a pending block CONTINUATION frames are errors. -/
theorem feed_strayBlocks (pieces : List Bytes) (hNone : s.continuationBuffer.lookup sid = none) :
    let t := feed s (sequence .continuation flagEndHeaders sid pieces)
    t.streams = s.streams ∧ t.invocations = s.invocations ∧ t.handler = s.handler := by
  induction pieces generalizing s with
  | nil => exact ⟨rfl, rfl, rfl⟩
  | cons piece rest ih =>
    rw [sequence, feed_cons]
    have hStep := @continuationOutcome sid s (marked flagEndHeaders rest.isEmpty) piece
    generalize s.handleFrame (frameOf .continuation sid (marked flagEndHeaders rest.isEmpty) piece) =
      result at hStep ⊢
    obtain ⟨t, r⟩ := result
    cases hStep with
    | unexpected => exact ih hNone
    | tooLarge _ hBuf | continued _ hBuf | orphaned _ hBuf | complete _ _ hBuf =>
      exact absurd (hBuf.symm.trans hNone) (by simp)

/-- CONTINUATION frames complete a pending block that stays below the cap, and otherwise leave the
stream as it was. -/
theorem feed_blocks {buf : Bytes} {pieces : List Bytes} (hPieces : pieces ≠ [])
    (hStream : s.streams.lookup sid = some stream) (hBuf : s.continuationBuffer.lookup sid = some buf) :
    let t := feed s (sequence .continuation flagEndHeaders sid pieces)
    t.streams.lookup sid = some (if buf.length + pieces.flatten.length ≤ maxHeaderBlock then
        receiveBlock stream (buf ++ pieces.flatten) else stream) ∧
      t.invocations = s.invocations ∧ t.handler = s.handler := by
  induction pieces generalizing s buf with
  | nil => exact absurd rfl hPieces
  | cons piece rest ih =>
    rw [sequence, feed_cons, List.flatten_cons, length_append]
    have hStep := @continuationOutcome sid s (marked flagEndHeaders rest.isEmpty) piece
    have hLast := frameOf_endHeaders sid rest.isEmpty piece
    generalize hFrame : frameOf .continuation sid (marked flagEndHeaders rest.isEmpty) piece = f
      at hStep hLast ⊢
    have hId : f.streamId = sid := by rw [← hFrame]; rfl
    have hPayload : f.payload = piece := by rw [← hFrame]; rfl
    subst hId hPayload
    generalize s.handleFrame f = result at hStep ⊢
    obtain ⟨t, r⟩ := result
    cases hStep with
    | unexpected hNone => exact absurd (hBuf.symm.trans hNone) (by simp)
    | orphaned _ _ _ _ hNone => exact absurd (hStream.symm.trans hNone) (by simp)
    | tooLarge _ hOther hLarge =>
      cases hOther.symm.trans hBuf
      rw [if_neg (by omega)]
      have hNone : (s.continuationBuffer.erase f.streamId).lookup f.streamId = none :=
        lookup_erase _ _
      obtain ⟨hStreams, hCalls, hHandler⟩ := @feed_strayBlocks
        { s with
          continuationBuffer := s.continuationBuffer.erase f.streamId
          pendingFrames := s.pendingFrames ++ [goawayFrame s 0xb "Header block too large"] } _ rest hNone
      exact ⟨(congrArg (AList.lookup _) hStreams).trans hStream, hCalls, hHandler⟩
    | continued _ hOther hSmall hOpen =>
      cases hOther.symm.trans hBuf
      have hMore : rest ≠ [] := by
        rintro rfl
        rw [hOpen] at hLast
        cases hLast
      obtain ⟨hLookup, hRest⟩ := @ih
        { s with continuationBuffer := s.continuationBuffer.insert f.streamId (buf ++ f.payload) }
        (buf ++ f.payload) hMore hStream (lookup_insert _)
      refine ⟨?_, hRest⟩
      rw [hLookup, length_append, List.append_assoc, Nat.add_assoc]
    | complete _ _ hOther hSmall hClosed hOther' =>
      cases hOther.symm.trans hBuf
      cases hOther'.symm.trans hStream
      have hDone : rest = [] := List.isEmpty_iff.mp (hLast.symm.trans hClosed)
      subst hDone
      rw [List.flatten_nil, length_nil, Nat.add_zero, if_pos hSmall, append_nil]
      exact ⟨lookup_insert _, rfl, rfl⟩

section Delivery

variable {s : Http2Handler} {sid : UInt32} {order : MapOrder} {headers : HeaderMap} {body : Bytes}

theorem find_receiveBlock {stream : Http2Stream} (hNew : stream.requestHeaders = .empty) (block name : Bytes) :
    (receiveBlock stream block).requestHeaders.find name = (Hpack.decode block).find name := by
  show ((Hpack.decode block).entries.foldl _ stream.requestHeaders).find name = _
  rw [hNew, Hpack.find_foldl_set _ (Hpack.decode block).nodup]
  exact Option.or_none

theorem encode_eq_nil (order : MapOrder) (hEmpty : ∀ name, HeaderMap.empty.find name = headers.find name) :
    Hpack.encode order headers = [] := by
  have hEntries : headers.entries = [] := by
    rw [List.eq_nil_iff_forall_not_mem]
    intro field hIn
    have hFound : headers.find field.1 = some field.2 := HeaderMap.find_eq_some_iff.mpr hIn
    rw [← hEmpty] at hFound
    cases hFound
  have hNil := (order.perm headers.entries).length_eq
  rw [hEntries, length_nil, List.length_eq_zero_iff] at hNil
  rw [Hpack.encode, hEntries, hNil]
  rfl

inductive Opened (s : Http2Handler) (sid : UInt32) (split : Segmented order headers body) (t : Http2Handler) :
    Prop
  | complete (stream : Http2Stream) (hNew : stream.requestHeaders = .empty) (hBody : stream.requestBody = [])
      (hRest : split.rest = [])
      (hStream : t.streams.lookup sid =
        some (Http2Handler.ended (split.opening sid) (receiveBlock stream split.first)))
      (hCalls : t.invocations =
        s.invocations ++ calls s (split.opening sid) (receiveBlock stream split.first))
  | pending (stream : Http2Stream) (hNew : stream.requestHeaders = .empty) (hBody : stream.requestBody = [])
      (hRest : split.rest ≠ [])
      (hStream : t.streams.lookup sid = some (Http2Handler.ended (split.opening sid) stream))
      (hCalls : t.invocations = s.invocations ++ calls s (split.opening sid) stream)
      (hBuf : t.continuationBuffer.lookup sid = some split.first)
  | tooLarge (stream : Http2Stream) (hNew : stream.requestHeaders = .empty) (hBody : stream.requestBody = [])
      (hRest : split.rest ≠ [])
      (hStream : t.streams.lookup sid = some stream) (hCalls : t.invocations = s.invocations)
      (hBuf : t.continuationBuffer.lookup sid = none) (hLarge : maxHeaderBlock < split.first.length)

theorem opened (hReady : Ready s sid) (split : Segmented order headers body) :
    Opened s sid split (s.handleFrame (split.opening sid)).1 ∧
      (s.handleFrame (split.opening sid)).1.handler = true := by
  have hStep : HeadersOutcome s (split.opening sid) (s.handleFrame (split.opening sid)).1
      (s.handleFrame (split.opening sid)).2 :=
    (apply_handleFrame_cases s (split.opening sid)).byType.headers rfl
  obtain ⟨hEndHeaders, -⟩ := opening_flags split sid
  have hSpan := headerSpan_opening split sid
  have hNew : (s.getOrCreateStream sid).requestHeaders = .empty ∧ (s.getOrCreateStream sid).requestBody = [] := by
    rw [getOrCreateStream, hReady.unused]
    exact ⟨rfl, rfl⟩
  have hPending : s.pendingBlock sid = [] := by
    rw [pendingBlock, hReady.noBlock]
    rfl
  have hWhole : slice split.first 0 split.first.length = split.first := by simp [slice]
  have hOpenRest : (split.opening sid).has flagEndHeaders = false → split.rest ≠ [] := by
    intro hOpen hNil
    rw [hEndHeaders, hNil] at hOpen
    cases hOpen
  have hInside : ¬(split.opening sid).payload.length < 0 + split.first.length := by
    show ¬split.first.length < 0 + split.first.length
    omega
  generalize s.handleFrame (split.opening sid) = result at hStep ⊢
  obtain ⟨t, r⟩ := result
  cases hStep with
  | onZero hZero => exact absurd hZero hReady.nonzero
  | refused _ _ hFull => exact absurd hReady.room (Nat.not_lt.mpr hFull)
  | malformed _ _ hNone => exact absurd (hSpan.symm.trans hNone) (by simp)
  | overrun _ hOver =>
    obtain ⟨-, -, offset, size, hOther, hOutside, -⟩ := hOver
    cases hOther.symm.trans hSpan
    exact absurd hOutside hInside
  | tooLarge offset size _ _ hOther hOpen hLarge =>
    cases hOther.symm.trans hSpan
    refine ⟨.tooLarge _ hNew.1 hNew.2 (hOpenRest hOpen) (lookup_insert _) rfl
      (lookup_erase _ _) ?_, hReady.handler⟩
    have hSize : s.pendingBlock (split.opening sid).streamId = [] := hPending
    rw [bufferedSize, if_neg hInside, hSize, length_nil, Nat.zero_add] at hLarge
    exact hLarge
  | buffered offset size _ _ hOther hOpen _ hSmall =>
    cases hOther.symm.trans hSpan
    refine ⟨.pending _ hNew.1 hNew.2 (hOpenRest hOpen) (lookup_insert _) rfl ?_, hReady.handler⟩
    show (s.continuationBuffer.insert sid (s.pendingBlock sid ++ slice split.first 0 split.first.length)).lookup
      sid = _
    rw [lookup_insert, hPending, hWhole]
    rfl
  | complete offset size _ _ hOther hClosed =>
    cases hOther.symm.trans hSpan
    have hRest : split.rest = [] := List.isEmpty_iff.mp (hEndHeaders.symm.trans hClosed)
    have hBlock : slice (split.opening sid).payload 0 split.first.length = split.first := hWhole
    refine ⟨.complete (s.getOrCreateStream sid) hNew.1 hNew.2 hRest ?_ ?_, hReady.handler⟩
    · rw [hBlock]
      exact lookup_insert _
    · rw [hBlock]
      rfl

theorem delivered_iff {t : Http2Handler} {given : HeaderMap}
    (hCalls : t.invocations = s.invocations ++ [⟨given, body, sid⟩])
    (hState : ∃ stream ∈ t.streams.lookup sid, stream.state = .halfClosedRemote) :
    Delivered s t sid headers body ↔ ∀ name, given.find name = headers.find name := by
  constructor
  · rintro ⟨⟨call, hOther, -, -, hSame⟩, -⟩
    have hCall := List.append_cancel_left (hCalls.symm.trans hOther)
    cases hCall
    exact hSame
  · exact fun hSame => ⟨⟨_, hCalls, rfl, rfl, hSame⟩, hState⟩

theorem not_delivered_of_large {given : HeaderMap} (order : MapOrder) (hGiven : given = .empty)
    (hLarge : maxHeaderBlock < (Hpack.encode order headers).length) : ¬∀ name, given.find name = headers.find name := by
  intro hSame
  rw [encode_eq_nil order (hGiven ▸ hSame)] at hLarge
  exact absurd hLarge (Nat.not_lt_zero _)

theorem find_block_iff {stream : Http2Stream} (hNew : stream.requestHeaders = .empty) (order : MapOrder) :
    (∀ name, (receiveBlock stream (Hpack.encode order headers)).requestHeaders.find name =
      headers.find name) ↔ Hpack.Fits headers := by
  simp only [find_receiveBlock hNew]
  exact ⟨Hpack.fits_of_find_decode _ headers, Hpack.find_decode_encode order headers⟩

/-- Without CONTINUATION frames the request is delivered if its headers fit. -/
theorem delivered_single_iff (hReady : Ready s sid) (hSmall : body.length ≤ maxRequestBody)
    (split : Segmented order headers body) (hWindows : WithinRecvWindows s (split.frames sid))
    (hRest : split.rest = []) : Delivered s (feed s (split.frames sid)) sid headers body ↔ Hpack.Fits headers := by
  obtain ⟨hOpened, hHandler⟩ := opened hReady split
  obtain ⟨-, hEndStream, -⟩ := opening_flags split sid
  have hBlock : split.first = Hpack.encode order headers := by
    rw [← split.block_eq, hRest, List.flatten_nil, append_nil]
  rw [Segmented.frames, hRest, sequence, List.nil_append] at hWindows ⊢
  rw [feed_cons]
  cases hOpened with
  | pending _ _ _ hMore | tooLarge _ _ _ hMore => exact absurd hRest hMore
  | complete stream hNew hBody _ hStream hCalls =>
    rw [hBlock] at hStream hCalls
    cases hDatas : split.datas with
    | nil =>
      rw [hDatas] at hEndStream
      have hNil : body = [] := split.datas_eq_nil_iff.mp hDatas
      rw [← find_block_iff hNew order]
      refine delivered_iff ?_ ⟨_, hStream, ?_⟩
      · show (s.handleFrame (split.opening sid)).1.invocations = _
        have hGiven : (receiveBlock stream (Hpack.encode order headers)).requestBody = body :=
          hBody.trans hNil.symm
        rw [hCalls, calls, hEndStream, hReady.handler, hGiven]
        rfl
      · rw [Http2Handler.ended, hEndStream]
        rfl
    | cons piece more =>
      have hMore : (split.opening sid).has flagEndStream = false := by rw [hEndStream, hDatas]; rfl
      have hStored : Http2Handler.ended (split.opening sid) (receiveBlock stream (Hpack.encode order headers)) =
          receiveBlock stream (Hpack.encode order headers) := by simp [Http2Handler.ended, hMore]
      have hFlat : (piece :: more).flatten = body := hDatas ▸ split.body_eq
      have hEmpty : (receiveBlock stream (Hpack.encode order headers)).requestBody = [] := hBody
      rw [hStored] at hStream
      rw [hDatas] at hWindows
      obtain ⟨hLast, hState⟩ := feed_datas (List.cons_ne_nil _ _) hHandler hReady.nonzero hStream
        hWindows.2 (by rw [hFlat, hEmpty, length_nil]; omega)
      rw [← find_block_iff hNew order]
      refine delivered_iff ?_ hState
      rw [hLast, hCalls, hFlat, hEmpty]
      simp [calls, hMore]

/-- What the CONTINUATION frames leave behind: a stream with the headers if the block is not too
large, and without them otherwise. -/
theorem feed_block (hReady : Ready s sid) (split : Segmented order headers body) (hRest : split.rest ≠ []) :
    let t := feed s (split.opening sid :: sequence .continuation flagEndHeaders sid split.rest)
    ∃ stream, t.streams.lookup sid = some stream ∧ t.handler = true ∧ stream.requestBody = [] ∧
      (if (Hpack.encode order headers).length ≤ maxHeaderBlock then stream.state = .opened ∧
          ((∀ name, stream.requestHeaders.find name = headers.find name) ↔ Hpack.Fits headers)
      else stream.requestHeaders = .empty) ∧
      ∃ new, t.invocations = s.invocations ++ new ∧ (∀ call ∈ new, call.headers = .empty) ∧
          (split.datas ≠ [] → new = []) := by
  obtain ⟨hOpened, hHandler⟩ := opened hReady split
  obtain ⟨-, hEndStream, -⟩ := opening_flags split sid
  have hLength : split.first.length + split.rest.flatten.length = (Hpack.encode order headers).length := by
    rw [← split.block_eq, length_append]
  rw [feed_cons]
  cases hOpened with
  | complete _ _ _ hNone => exact absurd hNone hRest
  | tooLarge stream hNew hBody _ hStream hCalls hBuf hLarge =>
    obtain ⟨hStreams, hSame, hKept⟩ := feed_strayBlocks split.rest hBuf
    refine ⟨stream, by rw [hStreams, hStream], hKept.trans hHandler, hBody, ?_, [], ?_, by simp, fun _ => rfl⟩
    · rw [if_neg (by omega)]
      exact hNew
    · rw [hSame, hCalls, append_nil]
  | pending stream hNew hBody _ hStream hCalls hBuf =>
    obtain ⟨hLookup, hSame, hKept⟩ := feed_blocks hRest hStream hBuf
    have hStored : (Http2Handler.ended (split.opening sid) stream).requestHeaders = .empty ∧
        (Http2Handler.ended (split.opening sid) stream).requestBody = [] := by
      unfold Http2Handler.ended
      split_ifs
      all_goals exact ⟨hNew, hBody⟩
    rw [hLength, split.block_eq] at hLookup
    refine ⟨_, hLookup, hKept.trans hHandler, ?_, ?_, _, hSame.trans hCalls, ?_, ?_⟩
    · split_ifs
      all_goals exact hStored.2
    · split_ifs
      · exact ⟨rfl, find_block_iff hStored.1 order⟩
      · exact hStored.1
    · intro call hCall
      unfold calls at hCall
      split_ifs at hCall
      · rw [List.mem_singleton.mp hCall]
        exact hNew
      · cases hCall
    · intro hDatas
      rw [calls, hEndStream, List.isEmpty_eq_false_iff.mpr hDatas]
      rfl

/-- A request is delivered exactly when its names and values fit the length prefix and its block is in the HEADERS
frame alone, or is at most 64 KiB long and followed by a body. -/
theorem delivery_iff (hReady : Ready s sid) (hSmall : body.length ≤ maxRequestBody)
    (split : Segmented order headers body) (hWindows : WithinRecvWindows s (split.frames sid)) :
    Delivered s (feed s (split.frames sid)) sid headers body ↔ Hpack.Fits headers ∧ (split.rest = [] ∨
        (Hpack.encode order headers).length ≤ maxHeaderBlock ∧ body ≠ []) := by
  by_cases hRest : split.rest = []
  · rw [delivered_single_iff hReady hSmall split hWindows hRest]
    simp [hRest]
  obtain ⟨stream, hStream, hHandler, hBody, hBlock, new, hCalls, hGiven, hQuiet⟩ :=
    feed_block hReady split hRest
  have hFrames : split.frames sid = (split.opening sid :: sequence .continuation flagEndHeaders sid split.rest) ++
      sequence .data flagEndStream sid split.datas := rfl
  rw [hFrames] at hWindows ⊢
  rw [feed_append]
  by_cases hDatas : split.datas = []
  · have hNil : body = [] := split.datas_eq_nil_iff.mp hDatas
    refine iff_of_false ?_ (by simp [hRest, hNil])
    rw [hDatas]
    rintro ⟨⟨call, hOther, -, -, hSame⟩, other, hOther', hState⟩
    have hCall : new = [call] := List.append_cancel_left (hCalls.symm.trans hOther)
    cases hStream.symm.trans hOther'
    by_cases hFits : (Hpack.encode order headers).length ≤ maxHeaderBlock
    · rw [if_pos hFits] at hBlock
      rw [hBlock.1] at hState
      cases hState
    · exact not_delivered_of_large order (hGiven call (hCall ▸ List.mem_singleton_self call))
        (Nat.not_le.mp hFits) hSame
  · have hSome : body ≠ [] := fun h => hDatas (split.datas_eq_nil_iff.mpr h)
    rw [hQuiet hDatas, append_nil] at hCalls
    obtain ⟨hLast, hState⟩ := feed_datas hDatas hHandler hReady.nonzero hStream
      (withinRecvWindows_append hWindows) (by rw [split.body_eq, hBody, length_nil]; omega)
    rw [hCalls, hBody, split.body_eq, List.nil_append] at hLast
    rw [delivered_iff hLast hState]
    by_cases hFits : (Hpack.encode order headers).length ≤ maxHeaderBlock
    · rw [if_pos hFits] at hBlock
      rw [hBlock.2]
      simp [hFits, hSome]
    · rw [if_neg hFits] at hBlock
      exact iff_of_false (not_delivered_of_large order hBlock (Nat.not_le.mp hFits)) (by simp [hRest, hFits])

end Delivery

def indexHeaders : HeaderMap :=
  ⟨[(ascii ":method", ascii "GET"), (ascii ":path", ascii "/")], by decide⟩

theorem ready_new : Ready {} 1 := ⟨rfl, by decide, rfl, rfl, by decide⟩

def uploaded : Segmented ⟨id, List.Perm.refl⟩ indexHeaders [1, 2, 3] where
  first := [0x82]
  rest := [[0x84]]
  datas := [[1], [2, 3]]
  block_eq := by decide +kernel
  body_eq := rfl
  bodyless := by decide
  sized := by decide

theorem delivery_uploaded : Delivered {} (feed {} (uploaded.frames 1)) 1 indexHeaders [1, 2, 3] :=
  (delivery_iff ready_new (by decide) uploaded (by decide +kernel)).mpr
    ⟨by decide, .inr ⟨by decide +kernel, by decide⟩⟩

def bodylessInTwo : Segmented ⟨id, List.Perm.refl⟩ indexHeaders [] where
  first := [0x82]
  rest := [[0x84]]
  datas := []
  block_eq := by decide +kernel
  body_eq := rfl
  bodyless := fun _ => rfl
  sized := by decide

/-- The handler is called before the headers are there, and the stream is left open. -/
theorem bodylessInTwo_undelivered : (feed {} (bodylessInTwo.frames 1)).invocations = [⟨.empty, [], 1⟩] ∧
      ((feed {} (bodylessInTwo.frames 1)).streams.lookup 1).map Http2Stream.state = some .opened ∧
      ¬Delivered {} (feed {} (bodylessInTwo.frames 1)) 1 indexHeaders [] := by
  have hState : ((feed {} (bodylessInTwo.frames 1)).streams.lookup 1).map Http2Stream.state =
      some .opened := by decide +kernel
  refine ⟨by decide +kernel, hState, ?_⟩
  rintro ⟨-, stream, hStream, hClosed⟩
  rw [Option.mem_def.mp hStream, Option.map_some, hClosed] at hState
  cases hState

end QbuemStack.Http2
