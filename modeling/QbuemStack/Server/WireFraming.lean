import QbuemStack.Server.StreamedResponse

/-! When the bytes on the socket are one message with everything that was set, for every way of
producing a response. -/
namespace QbuemStack.Server

open Octets Numerals Http StreamOp

def Blank (r : Response) : Prop :=
  ∃ code hs cs o, r = { statusCode := code, headers := hs, cookies := cs, streamOpen := o }

def streamIntended (r : Response) (ops : List StreamOp) : Intended :=
  { status := r.statusCode, fields := setFields r, body := (streamChunks ops).flatten, trailers := [] }

/-- The calls leave a message that ends where the client looks for its end. -/
def StreamFramed (env : SendEnv) (rq : Request) (r : Response) (ops : List StreamOp) : Prop :=
  (200 ≤ r.statusCode ∧ r.statusCode < 1000) ∧
  if r.streamOpen = true ∧ ops.any StreamOp.flushes = true then
    if bodiless r.statusCode then .flushEnd ∉ ops ∧ streamChunks ops = []
    else .flushEnd ∈ ops ∧ streamChunks (afterEnd ops) = []
  else Unaltered env rq r ∧ .endChunks ∉ ops ∧ streamChunks ops = []

section Stream

variable {fs : FileSystem} {r : Response} {ops : List StreamOp} (hSound : Sound fs r)
  (hZero : .flushEnd ∈ ops → .endChunks ∉ beforeEnd ops)
  (hBodiless : bodiless r.statusCode = true → .endChunks ∉ ops)

theorem setFields_sub (order : MapOrder) (r : Response) :
    ∀ f ∈ setFields r, trimmed f ∈ (r.wireFields order).map trimmed := by
  intro f hf
  apply List.mem_map_of_mem
  rw [mem_wireFields]
  rcases List.mem_append.mp hf with hHeader | hCookie
  · exact .inl hHeader
  · obtain ⟨c, hc, rfl⟩ := List.mem_map.mp hCookie
    exact .inr (.inl ⟨c, hc, rfl⟩)

theorem piece_eq_none (hOpen : .endChunks ∉ ops) (hNone : streamChunks ops = []) : ∀ op ∈ ops, op.piece = none := by
  intro op hop
  cases op with
  | chunk data =>
    by_cases hData : data = []
    · simp [piece, hData]
    · have hIn : data ∈ streamChunks ops := List.mem_filterMap.mpr ⟨_, hop, by simp [hData]⟩
      rw [hNone] at hIn
      cases hIn
  | endChunks => exact absurd hop hOpen
  | flush | flushEnd => rfl

theorem pieces_nil_iff (hOpen : .endChunks ∉ ops) : (pieces [] ops).flatMap Piece.bytes = [] ∧ streamChunks ops = [] ↔
      .flushEnd ∉ ops ∧ streamChunks ops = [] := by
  constructor
  · rintro ⟨hNil, hNone⟩
    refine ⟨fun hEnd => ?_, hNone⟩
    rw [pieces_ended [] ops hEnd, List.flatMap_append] at hNil
    have hLast := (List.append_eq_nil_iff.mp hNil).2
    simp [Piece.bytes, ascii] at hLast
  · rintro ⟨hEnd, hNone⟩
    refine ⟨?_, hNone⟩
    rw [List.flatMap_eq_nil_iff]
    intro p hp
    rcases mem_pieces_open hEnd hp with hNil | ⟨op, hop, hPiece⟩
    · cases hNil
    · rw [piece_eq_none hOpen hNone op hop] at hPiece
      cases hPiece

include hZero hBodiless in
theorem content_stream_iff : readContent { r with chunked := true } ((pieces [] ops).flatMap Piece.bytes) =
        some ((streamChunks ops).flatten, [], []) ↔
      if bodiless r.statusCode then .flushEnd ∉ ops ∧ streamChunks ops = []
      else .flushEnd ∈ ops ∧ streamChunks (afterEnd ops) = [] := by
  have hRead := readChunks_stream ops hZero _ rfl
  unfold readContent
  cases hCode : bodiless r.statusCode with
  | true =>
    simp only [if_true, Option.some.injEq, Prod.mk.injEq, true_and]
    rw [← pieces_nil_iff (hBodiless hCode), eq_comm (a := []), flatten_streamChunks, and_comm]
  | false =>
    simp only [Bool.false_eq_true, if_false, if_true, hRead]
    split_ifs with hEnd
    · rw [split_end ops, List.flatten_append]
      simp only [Option.some.injEq, Prod.mk.injEq, and_true, List.self_eq_append_right,
        flatten_streamChunks, hEnd, true_and]
    · simp [hEnd]

include hSound hZero hBodiless in
theorem obtains_flushed_iff (order : MapOrder) :
    Obtains (streamHeader order r ++ (pieces [] ops).flatMap Piece.bytes) (streamIntended r ops) ↔
      (200 ≤ r.statusCode ∧ r.statusCode < 1000) ∧ if bodiless r.statusCode then .flushEnd ∉ ops ∧ streamChunks ops = []
      else .flushEnd ∈ ops ∧ streamChunks (afterEnd ops) = [] := by
  have hObtains := obtains_iff order { r with chunked := true } ((pieces [] ops).flatMap Piece.bytes)
    hSound.headers hSound.cookies (streamIntended r ops)
  have hFields := setFields_sub order { r with chunked := true }
  have hContent := content_stream_iff hZero hBodiless
  constructor
  · intro hWire
    obtain ⟨hCode, -, -, hRead⟩ := hObtains.mp hWire
    exact ⟨hCode, hContent.mp hRead⟩
  · rintro ⟨hCode, hFramed⟩
    exact hObtains.mpr ⟨hCode, rfl, hFields, hContent.mpr hFramed⟩

include hBodiless in
theorem content_unflushed_iff (hBlank : Blank r) : readContent (gathered r ops)
        (payload fs (gathered r ops)) =
        some ((streamChunks ops).flatten, [], []) ↔ .endChunks ∉ ops ∧ streamChunks ops = [] := by
  obtain ⟨code, hs, cs, o, rfl⟩ := hBlank
  by_cases hEnds : .endChunks ∈ ops
  · have hCode : bodiless code = false := Bool.eq_false_iff.mpr fun hCode => hBodiless hCode hEnds
    have hLast : .last ∉ ops.filterMap piece := by
      intro hIn
      obtain ⟨op, -, hPiece⟩ := List.mem_filterMap.mp hIn
      exact op.piece_ne_last hPiece
    simp [payload, gathered, collect, hEnds, Response.hasSendfile, readContent, hCode,
      readChunks_unterminated _ _ hLast]
  · have hRead : readContent (gathered { statusCode := code, headers := hs, cookies := cs, streamOpen := o } ops) [] =
        some ([], [], []) := by
      simp [readContent, gathered, collect, hEnds, Response.contentLength]
    have hEmpty : payload fs
        (gathered { statusCode := code, headers := hs, cookies := cs, streamOpen := o } ops) = [] := by
      simp [payload, gathered, collect, hEnds, Response.hasSendfile]
    rw [hEmpty, hRead, Option.some.injEq, Prod.mk.injEq, eq_comm, flatten_streamChunks]
    simp [hEnds]

def drivenBytes (fs : FileSystem) (env : SendEnv) (rq : Request) (r : Response)
    (finish : Response → Response) (ops : List StreamOp) : Bytes :=
  ((drive env.order r ops).2 ++ sendResponse env rq (finish (drive env.order r ops).1)).flatMap
    (WriteCall.bytes fs)

theorem drivenBytes_flushed (env : SendEnv) (rq : Request) (finish : Response → Response)
    (hFinish : ∀ r, (finish r).streamed = r.streamed) (hBlank : Blank r) (hOpen : r.streamOpen = true)
    (hFlushes : ops.any flushes = true) : drivenBytes fs env rq r finish ops =
      streamHeader env.order r ++ (pieces [] ops).flatMap Piece.bytes := by
  have hFresh : r.chunkBuf = [] ∧ r.headerSent = false := by
    obtain ⟨_, _, _, _, rfl⟩ := hBlank
    exact ⟨rfl, rfl⟩
  obtain ⟨hBytes, hStreamed⟩ := drive_open fs env.order r ops [] hOpen hFresh.1
  rw [hFresh.2, hFlushes] at hBytes hStreamed
  have hNone : sendResponse env rq (finish (drive env.order r ops).1) = [] := by
    rw [sendResponse, if_pos (by rw [hFinish, hStreamed]; simp)]
  rw [drivenBytes, hNone, List.append_nil, hBytes]
  simp

theorem drive_unflushed (order : MapOrder) (hQuiet : ¬(r.streamOpen = true ∧ ops.any flushes = true)) :
    drive order r ops = (gathered r ops, []) := by
  apply drive_collects
  rcases Bool.eq_false_or_eq_true r.streamOpen with hOpen | hClosed
  · right
    intro op hop
    have hNone : ¬ops.any flushes = true := fun hAny => hQuiet ⟨hOpen, hAny⟩
    exact Bool.eq_false_iff.mpr fun hFlush => hNone (List.any_eq_true.mpr ⟨op, hop, hFlush⟩)
  · exact .inl hClosed

theorem drivenBytes_unflushed (env : SendEnv) (rq : Request) (finish : Response → Response)
    (hFinish : ∀ r, (finish r).streamed = r.streamed) (hStreamed : r.streamed = false)
    (hQuiet : ¬(r.streamOpen = true ∧ ops.any flushes = true)) : drivenBytes fs env rq r finish ops =
      (answered env rq (finish (drive env.order r ops).1)).serializeHeader env.order ++
        payload fs (answered env rq (finish (drive env.order r ops).1)) := by
  have hCollects := drive_unflushed env.order hQuiet
  rw [drivenBytes, List.flatMap_append, sendResponse_bytes fs env rq _ (by
    rw [hFinish, hCollects]
    exact hStreamed), hCollects]
  rfl

include hSound hZero hBodiless in
theorem obtains_stream_iff (env : SendEnv) (rq : Request) (hBlank : Blank r) :
    Obtains (drivenBytes fs env rq r id ops) (streamIntended r ops) ↔ StreamFramed env rq r ops := by
  unfold StreamFramed
  by_cases hLive : r.streamOpen = true ∧ ops.any flushes = true
  · rw [drivenBytes_flushed env rq id (fun _ => rfl) hBlank hLive.1 hLive.2, if_pos hLive]
    exact obtains_flushed_iff hSound hZero hBodiless env.order
  · have hStreamed : r.streamed = false := by
      obtain ⟨_, _, _, _, rfl⟩ := hBlank
      rfl
    have hContent := @content_unflushed_iff fs r ops hBodiless hBlank
    have hGathered : Sound fs (gathered r ops) := hSound.keep
    have hAnswer := obtains_answered_iff hGathered env rq (streamIntended r ops) rfl rfl
    have hSame : .endChunks ∉ ops → streamChunks ops = [] → gathered r ops = r := by
      intro hOpen hNone
      rw [gathered, List.filterMap_eq_nil_iff.mpr (piece_eq_none hOpen hNone), decide_eq_false hOpen, collect_nil]
    rw [drivenBytes_unflushed env rq id (fun _ => rfl) hStreamed hLive, if_neg hLive,
      drive_unflushed env.order hLive, id, hAnswer]
    have hCode : (gathered r ops).statusCode = r.statusCode := rfl
    generalize gathered r ops = final at hContent hSame hCode ⊢
    have hClean : Unaltered env rq final →
        ((if notModified rq final then (streamIntended r ops).body = [] ∧
            (streamIntended r ops).trailers = []
          else readContent final (payload fs final) =
            some ((streamIntended r ops).body, (streamIntended r ops).trailers.map trimmed, [])) ↔
          .endChunks ∉ ops ∧ streamChunks ops = []) := by
      intro hUnaltered
      unfold Unaltered at hUnaltered
      cases hNotModified : notModified rq final with
      | false => exact hContent
      | true =>
        rw [if_pos hNotModified, hCode] at hUnaltered
        have hOpen : .endChunks ∉ ops := hBodiless (by rw [hUnaltered.1]; rfl)
        simp only [if_true, streamIntended, flatten_streamChunks, and_true, hOpen, not_false_eq_true, true_and]
    rw [hCode]
    constructor
    · rintro ⟨hRange, hUnaltered, hRest⟩
      obtain ⟨hOpen, hNone⟩ := (hClean hUnaltered).mp hRest
      rw [hSame hOpen hNone] at hUnaltered
      exact ⟨hRange, hUnaltered, hOpen, hNone⟩
    · rintro ⟨hRange, hUnaltered, hOpen, hNone⟩
      rw [← hSame hOpen hNone] at hUnaltered
      exact ⟨hRange, hUnaltered, (hClean hUnaltered).mpr ⟨hOpen, hNone⟩⟩

end Stream

namespace SseStream

theorem buildFrame_ne_nil (data event id : Bytes) (retry : Int) : buildFrame data event id retry ≠ [] := by
  simp [buildFrame]

theorem calls_closed (ops : List Op) : .endChunks ∉ calls true ops ∧ .flushEnd ∉ calls true ops := by
  induction ops with
  | nil => simp [calls]
  | cons op ops ih => cases op <;> simpa [calls] using ih

theorem streamChunks_calls (closed : Bool) (ops : List Op) :
    streamChunks (calls closed ops) = [] ↔ ∀ op ∈ ops, op.isFrame = false := by
  have hPing : ascii ": ping\n\n" ≠ [] := by decide
  induction ops generalizing closed with
  | nil => cases closed <;> simp [calls, streamChunks]
  | cons op ops ih =>
    have hOpen := ih closed
    have hClosed := ih true
    unfold streamChunks at hOpen hClosed ⊢
    cases op with
    | send data event id retry | sendAsync data event id retry => simp [calls, buildFrame_ne_nil, Op.isFrame]
    | heartbeat => simp [calls, hPing, Op.isFrame]
    | close | closeAsync => cases closed <;> simpa [calls, Op.isFrame] using hClosed

/-- Either `close_async` comes first and ends the stream, or `close` or the destructor leaves a bare
zero chunk and the stream is never ended. -/
theorem calls_cases (ops : List Op) : match afterAsyncClose ops with
    | some rest => .flushEnd ∈ calls false ops ∧ .endChunks ∉ calls false ops ∧
        afterEnd (calls false ops) = calls true rest
    | none => .flushEnd ∉ calls false ops ∧ .endChunks ∈ calls false ops := by
  induction ops with
  | nil => simp [afterAsyncClose, calls]
  | cons op ops ih =>
    have hClosed := calls_closed ops
    cases op with
    | close => simp [afterAsyncClose, calls, hClosed]
    | closeAsync => simp [afterAsyncClose, calls, hClosed, afterEnd]
    | send data event id retry | sendAsync data event id retry | heartbeat =>
      simpa [afterAsyncClose, calls, afterEnd] using ih

end SseStream

/-- The stream was ended with `close_async`, and no event is lost behind that or, without a socket,
at all. -/
def EventsFramed (env : SendEnv) (rq : Request) (r : Response) (ops : List SseStream.Op) : Prop :=
  ∃ rest, SseStream.afterAsyncClose ops = some rest ∧
    if r.streamOpen then ∀ op ∈ rest, op.isFrame = false
    else (∀ op ∈ ops, op.isFrame = false) ∧ Unaltered env rq r

theorem beforeEnd_sub (ops : List StreamOp) : ∀ op ∈ beforeEnd ops, op ∈ ops := by
  intro op hop
  exact (List.takeWhile_sublist _).subset hop

variable {fs : FileSystem} {r : Response}

theorem obtains_events_iff (hSound : Sound fs r) (hBlank : Blank r) (hStatus : r.statusCode = 200) (env : SendEnv)
    (rq : Request) (ops : List SseStream.Op) :
    Obtains (drivenBytes fs env rq r id (SseStream.calls false ops)) (streamIntended r (SseStream.calls false ops)) ↔
      EventsFramed env rq r ops := by
  have hCases := SseStream.calls_cases ops
  have hFrames := SseStream.streamChunks_calls false ops
  have hCode : bodiless r.statusCode = false := by
    rw [hStatus]
    rfl
  have hRange : 200 ≤ r.statusCode ∧ r.statusCode < 1000 := by omega
  rw [obtains_stream_iff hSound (by
      intro hEnd hZero
      cases hRest : SseStream.afterAsyncClose ops with rw [hRest] at hCases
      | none =>
        exact hCases.1 hEnd
      | some rest =>
        exact hCases.2.1 (beforeEnd_sub _ _ hZero))
    (fun hBodiless => absurd hBodiless (by simp [hCode])) env rq hBlank]
  unfold StreamFramed EventsFramed
  simp only [hRange, and_self, true_and, hCode, Bool.false_eq_true, if_false, hFrames]
  cases hRest : SseStream.afterAsyncClose ops with rw [hRest] at hCases
  | none =>
    simp [hCases]
  | some rest =>
    obtain ⟨hEnd, hZero, hAfter⟩ := hCases
    have hFlushes : (SseStream.calls false ops).any flushes = true :=
      List.any_eq_true.mpr ⟨_, hEnd, rfl⟩
    simp only [hFlushes, and_true, hEnd, true_and, hAfter, SseStream.streamChunks_calls, hZero,
      not_false_eq_true, Option.some.injEq, exists_eq_left']
    cases r.streamOpen with
    | true => simp
    | false => simp [and_comm]

def headAnswer (threw : Bool) (r : Response) : Response := if threw then r else r.setBody []

def HeadFramed (rq : Request) (r : Response) : Prop :=
  notModified rq r = true ∨
    if r.hasSendfile then r.sendfileSize = 0 ∧ (r.chunked = true → r.trailers = [])
    else r.chunked = false ∧ (applyRange rq r).body = []

theorem headAnswer_streamed (threw : Bool) (r : Response) : (headAnswer threw r).streamed = r.streamed := by
  cases threw <;> rfl

theorem headAnswer_chunks (threw : Bool) (r : Response) :
    (headAnswer threw r).chunked = r.chunked ∧ (headAnswer threw r).chunkBuf = r.chunkBuf := by
  cases threw <;> exact ⟨rfl, rfl⟩

theorem Sound.headAnswer (h : Sound fs r) (threw : Bool) : Sound fs (headAnswer threw r) := by
  cases threw
  · exact h.keep
  · exact h

theorem encodeTrailers_ne_nil (r : Response) : r.encodeTrailers ≠ [] := by
  unfold Response.encodeTrailers
  split_ifs <;> simp [crlf]

theorem afterHeaders_sent_iff (h : Sound fs r) (hChunks : r.chunked = true → r.chunkBuf ≠ []) (env : SendEnv)
    (rq : Request) :
    afterHeaders ((answered env rq r).serializeHeader env.order ++ payload fs (answered env rq r)) = some [] ↔
      HeadFramed rq r := by
  rw [afterHeaders_answered_iff h env rq]
  apply or_congr_right
  obtain ⟨code, hs, b, hRange⟩ := applyRange_shape rq r
  rw [hRange]
  unfold payload
  by_cases hFile : r.sendfilePath = []
  · cases hChunked : r.chunked with
    | true => simp [Response.hasSendfile, hFile, hChunks hChunked]
    | false => simp [Response.hasSendfile, hFile]
  · obtain ⟨contents, hOpen, hSize⟩ := h.file hFile
    simp [Response.hasSendfile, hFile, hOpen, ← hSize, encodeTrailers_ne_nil]

inductive Production where
  | built (ops : List BuildOp)
  | streamed (setup : List BuildOp) (ops : List StreamOp)
  | events (streaming : Bool) (setup : List BuildOp) (ops : List SseStream.Op)

def BuildOp.isHead : BuildOp → Bool
  | .status _ | .header _ _ | .setCookie _ _ _ => true
  | _ => false

namespace Production

def Permitted (fs : FileSystem) : Production → Prop
  | .built ops => (∀ op ∈ ops, op.Permitted fs) ∧ ChunksClosed ops
  | .streamed setup ops => (∀ op ∈ setup, op.Permitted fs ∧ op.isHead = true) ∧ .endChunks ∉ ops
  | .events _ setup _ => ∀ op ∈ setup, op.Permitted fs ∧ op.isHead = true

def start : Production → Response
  | .built ops => build {} ops
  | .streamed setup _ => { build {} setup with streamOpen := true }
  | .events streaming setup _ => { SseStream.prepare (build {} setup) with streamOpen := streaming }

def streamOps : Production → List StreamOp
  | .built _ => []
  | .streamed _ ops => ops
  | .events _ _ ops => SseStream.calls false ops

def calls (p : Production) (env : SendEnv) (rq : Request) (finish : Response → Response) :
    List WriteCall :=
  (drive env.order p.start p.streamOps).2 ++
    sendResponse env rq (finish (drive env.order p.start p.streamOps).1)

def intended (fs : FileSystem) : Production → Intended
  | .built ops => Server.intended fs ops
  | p => streamIntended p.start p.streamOps

/-- The condition on the calls under which the message is well framed. -/
def Framed (fs : FileSystem) (env : SendEnv) (rq : Request) : Production → Prop
  | .built ops =>
    (200 ≤ (build {} ops).statusCode ∧ (build {} ops).statusCode < 1000) ∧
    Unaltered env rq (build {} ops) ∧
    if notModified rq (build {} ops) then
      (Server.intended fs ops).body = [] ∧ (Server.intended fs ops).trailers = []
    else ContentFramed ops
  | .streamed setup ops => StreamFramed env rq (start (.streamed setup ops)) ops
  | .events streaming setup ops => EventsFramed env rq (start (.events streaming setup ops)) ops

/-- The condition under which the answer to HEAD ends with its header section. -/
def HeadOnly (env : SendEnv) (rq : Request) (threw : Bool) (p : Production) : Prop :=
  if p.start.streamOpen = true ∧ p.streamOps.any StreamOp.flushes = true then
    pieces [] p.streamOps = []
  else HeadFramed rq (headAnswer threw (drive env.order p.start p.streamOps).1)

end Production

def Sufficient (fs : FileSystem) (attempts : List Attempt) (calls : List WriteCall) : Prop :=
  .failed ∉ attempts ∧ (calls.flatMap (WriteCall.bytes fs)).length ≤ supply attempts

theorem Sound.drive (h : Sound fs r) (order : MapOrder) (ops : List StreamOp) : Sound fs (drive order r ops).1 := by
  induction ops generalizing r with
  | nil => exact h
  | cons op ops ih =>
    apply ih
    cases op with
    | chunk data =>
      simp only [Response.chunk]
      split_ifs
      · exact h
      · exact h.keep
    | endChunks => exact h.keep
    | flush | flushEnd =>
      simp only [Response.flush, Response.flushEnd, Response.streamHead]
      split_ifs <;> exact h.keep

theorem drive_servable (fs : FileSystem) (order : MapOrder) (r : Response) (ops : List StreamOp) :
    ∀ call ∈ (drive order r ops).2, call.Servable fs := by
  have hWritten : ∀ out, ∀ call ∈ written out, call.Servable fs := by
    intro out call hCall
    unfold written at hCall
    split_ifs at hCall
    · cases hCall
    · rw [List.mem_singleton.mp hCall]
      trivial
  induction ops generalizing r with
  | nil => simp [drive]
  | cons op ops ih =>
    intro call hCall
    rcases List.mem_append.mp hCall with hNow | hLater
    · cases op with
      | chunk | endChunks => cases hNow
      | flush | flushEnd => exact hWritten _ call hNow
    · exact ih _ call hLater

theorem blank_build (h : Blank r) {setup : List BuildOp} (hSetup : ∀ op ∈ setup, op.isHead = true) :
    Blank (build r setup) := by
  induction setup generalizing r with
  | nil => exact h
  | cons op setup ih =>
    refine ih ?_ fun o ho => hSetup o (List.mem_cons_of_mem _ ho)
    have hHead := hSetup op List.mem_cons_self
    obtain ⟨code, hs, cs, o, rfl⟩ := h
    cases op with
    | status | header | setCookie => exact ⟨_, _, _, _, rfl⟩
    | _ => cases hHead

section Start

variable {fs : FileSystem} {p : Production}

section

variable (h : p.Permitted fs)
include h

theorem Production.start_sound : Sound fs p.start := by
  have hName : PlainName (ascii "Content-Type") ∧ PlainName (ascii "Cache-Control") ∧
      PlainName (ascii "X-Accel-Buffering") := by
    decide +kernel
  have hSetup : ∀ {setup : List BuildOp}, (∀ op ∈ setup, op.Permitted fs ∧ op.isHead = true) →
      Sound fs (build {} setup) := fun hAll => (sound_empty fs).build fun op hop => (hAll op hop).1
  cases p with
  | built ops => exact (sound_empty fs).build h.1
  | streamed setup ops => exact (hSetup h.1).keep
  | events streaming setup ops =>
    have hStatus : Sound fs ((build {} setup).status 200) := (hSetup h).keep
    have hReady : Sound fs (SseStream.prepare (build {} setup)) :=
      ((hStatus.header ⟨hName.1, by decide⟩).header ⟨hName.2.1, by decide⟩).header
        ⟨hName.2.2, by decide⟩
    exact hReady.keep

theorem Production.calls_servable (env : SendEnv) (rq : Request) (finish : Response → Response)
    (hFinish : ∀ {r}, Sound fs r → Sound fs (finish r)) : ∀ call ∈ p.calls env rq finish, call.Servable fs := by
  intro call hCall
  rcases List.mem_append.mp hCall with hDriven | hSent
  · exact drive_servable fs _ _ _ call hDriven
  · exact sendResponse_servable (hFinish (p.start_sound h |>.drive env.order p.streamOps)) env rq call hSent

theorem Production.start_blank (hStream : ∀ ops, p ≠ .built ops) : Blank p.start := by
  have hEmpty : Blank {} := ⟨_, _, _, _, rfl⟩
  cases p with
  | built ops => exact absurd rfl (hStream ops)
  | streamed setup ops =>
    obtain ⟨_, _, _, _, hBuilt⟩ := blank_build hEmpty fun op hop => (h.1 op hop).2
    rw [Production.start, hBuilt]
    exact ⟨_, _, _, _, rfl⟩
  | events streaming setup ops =>
    obtain ⟨_, _, _, _, hBuilt⟩ := blank_build hEmpty fun op hop => (h op hop).2
    rw [Production.start, hBuilt]
    exact ⟨_, _, _, _, rfl⟩

theorem Production.start_streamed : p.start.streamed = false := by
  cases p with
  | built ops => exact (build_chunks h.2).1
  | streamed setup ops | events streaming setup ops =>
    obtain ⟨_, _, _, _, hBlank⟩ := start_blank h (by simp)
    rw [hBlank]

end

theorem collect_ne_nil {r : Response} (hBlank : Blank r) (ops : List StreamOp)
    (hChunked : (gathered r ops).chunked = true) : (gathered r ops).chunkBuf ≠ [] := by
  obtain ⟨_, _, _, _, rfl⟩ := hBlank
  have hIn : .endChunks ∈ ops := by simpa [gathered, collect] using hChunked
  have hZero : .zero ∈ ops.filterMap piece := List.mem_filterMap.mpr ⟨_, hIn, rfl⟩
  intro hNil
  have hBytes := List.flatMap_eq_nil_iff.mp (List.append_eq_nil_iff.mp hNil).2 .zero hZero
  exact absurd hBytes (by decide)

theorem Production.collected_ne_nil (h : p.Permitted fs) (order : MapOrder)
    (hQuiet : ¬(p.start.streamOpen = true ∧ p.streamOps.any flushes = true)) :
    (drive order p.start p.streamOps).1.chunked = true → (drive order p.start p.streamOps).1.chunkBuf ≠ [] := by
  by_cases hBuilt : ∃ ops, p = .built ops
  · obtain ⟨ops, rfl⟩ := hBuilt
    intro hChunked
    obtain ⟨-, ⟨hNot, -⟩ | ⟨-, hBuf, -⟩⟩ := build_chunks h.2
    · exact absurd (hNot.symm.trans hChunked) (by decide)
    · show (build {} ops).chunkBuf ≠ []
      rw [hBuf]
      simp [ascii]
  · rw [drive_unflushed order hQuiet]
    exact collect_ne_nil (p.start_blank h fun ops hEq => hBuilt ⟨ops, hEq⟩) p.streamOps

theorem Production.headOnly_iff (h : p.Permitted fs) (env : SendEnv) (rq : Request) (threw : Bool) :
    afterHeaders (drivenBytes fs env rq p.start (headAnswer threw) p.streamOps) = some [] ↔
      p.HeadOnly env rq threw := by
  have hSound := p.start_sound h
  unfold HeadOnly
  by_cases hLive : p.start.streamOpen = true ∧ p.streamOps.any flushes = true
  · have hBlank := p.start_blank h (by rintro ops rfl; simp [streamOps] at hLive)
    have hHeader := afterHeaders_serialize env.order { p.start with chunked := true }
      ((pieces [] p.streamOps).flatMap Piece.bytes)
      (wireFields_writable env.order _ hSound.headers hSound.cookies)
    have hPiece (piece : Piece) : piece.bytes ≠ [] := by
      obtain ⟨line, after, hLine, -, -⟩ := takeLine_piece piece []
      intro hNil
      rw [hNil] at hLine
      cases hLine
    rw [drivenBytes_flushed env rq _ (headAnswer_streamed threw) hBlank hLive.1 hLive.2, if_pos hLive,
      streamHeader, hHeader, Option.some.injEq, List.flatMap_eq_nil_iff]
    constructor
    · intro hAll
      rw [List.eq_nil_iff_forall_not_mem]
      exact fun piece hIn => hPiece piece (hAll piece hIn)
    · intro hNil
      rw [hNil]
      simp
  · rw [drivenBytes_unflushed env rq _ (headAnswer_streamed threw) (p.start_streamed h) hLive, if_neg hLive]
    have hFinal := hSound.drive env.order p.streamOps
    apply afterHeaders_sent_iff (hFinal.headAnswer threw)
    rw [(headAnswer_chunks threw _).1, (headAnswer_chunks threw _).2]
    exact p.collected_ne_nil h env.order hLive

/-- Exactly when the client obtains the message, production by production. -/
theorem Production.obtains_iff (h : p.Permitted fs) (env : SendEnv) (rq : Request) :
    Obtains (drivenBytes fs env rq p.start id p.streamOps) (p.intended fs) ↔ p.Framed fs env rq := by
  have hSound := p.start_sound h
  cases p with
  | built ops =>
    have hBytes := @drivenBytes_unflushed fs (build {} ops) [] env rq id (fun _ => rfl)
      (build_chunks h.2).1 (by simp)
    have hAnswer := obtains_answered_iff hSound env rq (Server.intended fs ops) rfl rfl
    have hContent := content_iff hSound h.2
    show Obtains (drivenBytes fs env rq (build {} ops) id []) (Server.intended fs ops) ↔ _
    rw [hBytes]
    refine hAnswer.trans ?_
    simp only [Framed, start, hContent]
  | streamed setup ops =>
    have hBlank := start_blank h (by simp)
    exact obtains_stream_iff hSound (fun _ hIn => h.2 (beforeEnd_sub _ _ hIn)) (fun _ => h.2) env rq
      hBlank
  | events streaming setup ops =>
    have hBlank := start_blank h (by simp)
    exact obtains_events_iff hSound hBlank rfl env rq ops

end Start

/-- For every way of producing a response and every cut of the writes: exactly when the client finds one message
with everything that was set, and when the answer to HEAD ends with its header section. -/
theorem wire_framed_iff (fs : FileSystem) (env : SendEnv) (rq : Request) (p : Production)
    (hPermitted : p.Permitted fs) : (∀ attempts, Sufficient fs attempts (p.calls env rq id) →
      (Obtains (perform fs attempts (p.calls env rq id)) (p.intended fs) ↔ p.Framed fs env rq)) ∧
    ∀ threw attempts, Sufficient fs attempts (p.calls env rq (headAnswer threw)) →
      (afterHeaders (perform fs attempts (p.calls env rq (headAnswer threw))) = some [] ↔ p.HeadOnly env rq threw) := by
  constructor
  · intro attempts hSufficient
    rw [perform_eq fs attempts _ hSufficient.1 (p.calls_servable hPermitted env rq id id) hSufficient.2]
    exact Production.obtains_iff hPermitted env rq
  · intro threw attempts hSufficient
    rw [perform_eq fs attempts _ hSufficient.1
      (p.calls_servable hPermitted env rq _ fun hSound => hSound.headAnswer threw) hSufficient.2]
    exact Production.headOnly_iff hPermitted env rq threw

section Runs

def plainEnv : SendEnv :=
  { order := .insertion, date := epochDate, date_line := epochDate_line, keepAlive := true, handled := 1 }

def byteByByte : List Attempt := List.replicate 400 (.wrote ⟨1, Nat.one_pos⟩)

theorem wire_framed_body : Sufficient (fun _ => none) byteByByte
        ((Production.built [.body (ascii "hi")]).calls plainEnv {} id) ∧ Obtains (perform (fun _ => none) byteByByte
          ((Production.built [.body (ascii "hi")]).calls plainEnv {} id))
        ((Production.built [.body (ascii "hi")]).intended fun _ => none) := by
  have hPermitted : (Production.built [.body (ascii "hi")]).Permitted fun _ => none :=
    ⟨by simp [BuildOp.Permitted], .none (by simp [BuildOp.isChunking])⟩
  have hSufficient : Sufficient (fun _ => none) byteByByte
      ((Production.built [.body (ascii "hi")]).calls plainEnv {} id) :=
    ⟨by decide +kernel, by decide +kernel⟩
  refine ⟨hSufficient, ((wire_framed_iff (fun _ => none) plainEnv {} _ hPermitted).1 byteByByte
    hSufficient).mpr ?_⟩
  refine ⟨by decide, ⟨by decide +kernel, ?_⟩, ?_⟩
  · intro e he
    cases he
  · intro hBodiless
    exact absurd hBodiless (by decide)

/-- Chunks without trailers lack the empty line behind the zero chunk. -/
theorem chunks_unterminated : (Production.built [.chunk (ascii "hi"), .endChunks]).Permitted (fun _ => none) ∧
      Sufficient (fun _ => none) byteByByte
        ((Production.built [.chunk (ascii "hi"), .endChunks]).calls plainEnv {} id) ∧
      ¬Obtains (perform (fun _ => none) byteByByte
          ((Production.built [.chunk (ascii "hi"), .endChunks]).calls plainEnv {} id))
        ((Production.built [.chunk (ascii "hi"), .endChunks]).intended fun _ => none) := by
  refine ⟨⟨by simp [BuildOp.Permitted], ?_⟩, ⟨by decide +kernel, by decide +kernel⟩, ?_⟩
  · exact @ChunksClosed.closed [.chunk (ascii "hi")] [] (by simp) (by simp)
  · have hNone : readResponse (perform (fun _ => none) byteByByte
        ((Production.built [.chunk (ascii "hi"), .endChunks]).calls plainEnv {} id)) = none := by
      decide +kernel
    rintro ⟨got, hGot, -⟩
    rw [hNone] at hGot
    cases hGot

end Runs

end QbuemStack.Server
