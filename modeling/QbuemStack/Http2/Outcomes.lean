import QbuemStack.Http2.Handler

/-! What each frame handler can do, exit by exit. Every invariant below is proved from these cases. -/
namespace QbuemStack.Http2

open Octets Http AList

namespace Http2Handler

/-! ### Parts shared by several exits -/

def goawayFrame (s : Http2Handler) (errorCode : Nat) (message : String) : Http2Frame :=
  let p := appendUint32 (s.lastStreamId.toNat % 2 ^ 31) ++ appendUint32 errorCode ++ ascii message
  { type := .goaway, payload := p, length := UInt32.ofNat p.length }

def rstFrame (sid : UInt32) (errorCode : Nat) : Http2Frame :=
  { type := .rstStream, streamId := sid, length := 4, payload := appendUint32 errorCode }

def replenishment (sid : UInt32) (window : Int) : List Http2Frame :=
  if window < 32767 then
    [{ type := .windowUpdate, streamId := sid, length := 4
       payload := appendUint32 (((65535 - window) % 2 ^ 32).toNat % 2 ^ 31) }]
  else []

def refilled (window : Int) : Int :=
  if window < 32767 then window + (((65535 - window) % 2 ^ 32).toNat : Nat) else window

theorem maybeReplenish_eq (s : Http2Handler) (sid : UInt32) (window : Int) : s.maybeReplenishRecvWindow sid window =
      ({ s with pendingFrames := s.pendingFrames ++ replenishment sid window }, refilled window) := by
  have hHalf : ((defaultInitialWindowSize : Nat) : Int) / 2 = 32767 := by decide
  unfold maybeReplenishRecvWindow replenishment refilled
  simp only [hHalf]
  split_ifs with h
  · rfl
  · simp

def calls (s : Http2Handler) (f : Http2Frame) (stream : Http2Stream) : List Invocation :=
  if f.has flagEndStream && s.handler then
    [⟨stream.requestHeaders, stream.requestBody, f.streamId⟩]
  else []

def ended (f : Http2Frame) (stream : Http2Stream) : Http2Stream :=
  if f.has flagEndStream then { stream with state := .halfClosedRemote } else stream

theorem endRemote_eq (s : Http2Handler) (f : Http2Frame) (stream : Http2Stream)
    (hEnd : f.has flagEndStream = true) : s.endRemote f.streamId stream =
      { s with
        streams := s.streams.insert f.streamId (ended f stream)
        invocations := s.invocations ++ calls s f stream } := by
  simp only [endRemote, calls, ended, hEnd, Bool.true_and, if_true, putStream]

/-! ### SETTINGS -/

def Control (f : Http2Frame) : Prop :=
  f.type ≠ .data ∧ f.type ≠ .headers ∧ f.type ≠ .windowUpdate

structure Resettled (s t : Http2Handler) : Prop where
  keys : t.streams.keys.Perm s.streams.keys
  streams : ∀ sid, ∃ delta, t.streams.lookup sid =
    (s.streams.lookup sid).map fun stream => { stream with sendWindow := stream.sendWindow + delta }
  handler : t.handler = s.handler
  blocks : t.continuationBuffer = s.continuationBuffer
  sendWindow : t.connSendWindow = s.connSendWindow
  recvWindow : t.connRecvWindow = s.connRecvWindow
  resets : t.rstStreamCount = s.rstStreamCount
  invocations : t.invocations = s.invocations
  frameSize : minMaxFrameSize ≤ s.peerMaxFrameSize ∧ s.peerMaxFrameSize ≤ maxAllowedFrameSize →
    minMaxFrameSize ≤ t.peerMaxFrameSize ∧ t.peerMaxFrameSize ≤ maxAllowedFrameSize
  queue : ∃ frames, t.pendingFrames = s.pendingFrames ++ frames ∧ ∀ f ∈ frames, Control f

theorem Resettled.refl (s : Http2Handler) : Resettled s s where
  keys := List.Perm.refl _
  streams := fun sid => ⟨0, by cases s.streams.lookup sid <;> simp⟩
  handler := rfl
  blocks := rfl
  sendWindow := rfl
  recvWindow := rfl
  resets := rfl
  invocations := rfl
  frameSize := id
  queue := ⟨[], by simp, by simp⟩

variable {s t : Http2Handler}

theorem Resettled.trans {u : Http2Handler} (h : Resettled s t) (h' : Resettled t u) : Resettled s u  where
  keys := h'.keys.trans h.keys
  streams := by
    intro sid
    obtain ⟨d, hd⟩ := h.streams sid
    obtain ⟨d', hd'⟩ := h'.streams sid
    refine ⟨d + d', ?_⟩
    rw [hd', hd, Option.map_map]
    congr 1
    funext stream
    simp only [Function.comp_apply, Int.add_assoc]
  handler := h'.handler.trans h.handler
  blocks := h'.blocks.trans h.blocks
  sendWindow := h'.sendWindow.trans h.sendWindow
  recvWindow := h'.recvWindow.trans h.recvWindow
  resets := h'.resets.trans h.resets
  invocations := h'.invocations.trans h.invocations
  frameSize := h'.frameSize ∘ h.frameSize
  queue := by
    obtain ⟨frames, hQueue, hControl⟩ := h.queue
    obtain ⟨frames', hQueue', hControl'⟩ := h'.queue
    refine ⟨frames ++ frames', by rw [hQueue', hQueue, List.append_assoc], ?_⟩
    intro f hf
    rcases List.mem_append.mp hf with hf | hf
    · exact hControl f hf
    · exact hControl' f hf

theorem resettled_abort (s : Http2Handler) (errorCode : Nat) (message : String) (code : Errc) :
    Resettled s (s.abort errorCode message code).1 :=
  { Resettled.refl s with queue := ⟨[goawayFrame s errorCode message], rfl, by simp [Control, goawayFrame]⟩ }

theorem keys_insert_perm {streams : AList (fun _ : UInt32 => Http2Stream)} {sid : UInt32}
    (hIn : sid ∈ streams.keys) (stream : Http2Stream) : (streams.insert sid stream).keys.Perm streams.keys := by
  rw [keys_insert]
  exact (List.perm_cons_erase hIn).symm

theorem erase_insert_self (streams : AList (fun _ : UInt32 => Http2Stream)) (sid : UInt32)
    (stream : Http2Stream) : (streams.insert sid stream).erase sid = streams.erase sid := by
  apply ext
  show List.kerase sid (List.kinsert sid stream streams.entries) = List.kerase sid streams.entries
  exact List.kerase_cons_eq rfl

/-- The loop over the streams shifts the send windows of those it comes to, and of all of them if it
does not fail. -/
theorem shiftWindows_spec (delta : Int) (sids : List UInt32)
    (streams : AList (fun _ : UInt32 => Http2Stream)) (hNodup : sids.Nodup) :
    let out := shiftWindows delta sids streams
    out.1.keys.Perm streams.keys ∧ ∃ done, done ⊆ sids ∧
      (∀ sid, out.1.lookup sid = (streams.lookup sid).map fun stream =>
        { stream with sendWindow := stream.sendWindow + if sid ∈ done then delta else 0 }) ∧
      (out.2 = true → done = sids ∧
        ∀ sid ∈ sids, ∀ stream, streams.lookup sid = some stream → stream.sendWindow + delta ≤ maxWindow) := by
  induction sids generalizing streams with
  | nil =>
    refine ⟨List.Perm.refl _, [], List.Subset.refl _, fun sid => ?_, fun _ => ⟨rfl, nofun⟩⟩
    cases h : streams.lookup sid <;> simp [shiftWindows, h]
  | cons first rest ih =>
    obtain ⟨hFirst, hRest⟩ := List.nodup_cons.mp hNodup
    unfold shiftWindows
    cases hLookup : streams.lookup first with
    | none =>
      obtain ⟨hKeys, done, hDone, hShift, hAll⟩ := ih streams hRest
      refine ⟨hKeys, first :: done, List.cons_subset_cons first hDone, fun sid => ?_, fun hFits => ?_⟩
      · by_cases hSid : sid = first
        · rw [hShift, hSid, hLookup]
          rfl
        · simp only [hShift, List.mem_cons, hSid, false_or]
      · obtain ⟨rfl, hSmall⟩ := hAll hFits
        exact ⟨rfl, List.forall_mem_cons.mpr ⟨by simp [hLookup], hSmall⟩⟩
    | some old =>
      simp only
      have hMem : first ∈ streams.keys := by
        rw [← mem_keys, ← lookup_isSome, hLookup]
        rfl
      have hPerm := keys_insert_perm hMem { old with sendWindow := old.sendWindow + delta }
      split_ifs with hOver
      · refine ⟨hPerm, [first], by simp, fun sid => ?_, fun hFits => hFits.elim⟩
        by_cases hSid : sid = first
        · rw [hSid, lookup_insert, hLookup]
          simp
        · rw [lookup_insert_ne hSid]
          cases streams.lookup sid <;> simp [hSid]
      · obtain ⟨hKeys, done, hDone, hShift, hAll⟩ :=
          ih (streams.insert first { old with sendWindow := old.sendWindow + delta }) hRest
        refine ⟨hKeys.trans hPerm, first :: done, List.cons_subset_cons first hDone, fun sid => ?_, fun hFits => ?_⟩
        · by_cases hSid : sid = first
          · have hNot : first ∉ done := fun h => hFirst (hDone h)
            rw [hShift, hSid, lookup_insert, hLookup]
            simp [hNot]
          · simp only [hShift, lookup_insert_ne hSid, List.mem_cons, hSid, false_or]
        · obtain ⟨rfl, hSmall⟩ := hAll hFits
          refine ⟨rfl, List.forall_mem_cons.mpr ⟨fun stream hStream => ?_, fun sid hIn stream hStream => ?_⟩⟩
          · rw [hLookup, Option.some.injEq] at hStream
            exact hStream ▸ not_lt.mp hOver
          · have hNe : sid ≠ first := fun h => hFirst (h ▸ hIn)
            exact hSmall sid hIn stream (by rw [lookup_insert_ne hNe, hStream])

inductive SettingOutcome (s : Http2Handler) (id val : Nat) : Http2Handler → Result → Prop
  | failed (t : Http2Handler) (hReset : Resettled s t) : SettingOutcome s id val t (.error .protocolError)
  | window (streams) (hId : id = 0x4) (hVal : (val : Int) ≤ maxWindow)
      (hShift : shiftWindows (val - s.peerInitialWindowSize) s.streams.keys s.streams = (streams, true)) :
      SettingOutcome s id val { s with streams := streams, peerInitialWindowSize := val } .ok
  | frameSize (hId : id = 0x5) (hMin : minMaxFrameSize ≤ val) (hMax : val ≤ maxAllowedFrameSize) :
      SettingOutcome s id val { s with peerMaxFrameSize := val } .ok
  | recorded (hId : id = 0x1) : SettingOutcome s id val { s with peerHeaderTableSize := val } .ok
  | ignored (hId : id ≠ 0x4) : SettingOutcome s id val s .ok

theorem resettled_shift (s : Http2Handler) (delta : Int) :
    Resettled s { s with streams := (shiftWindows delta s.streams.keys s.streams).1 } := by
  obtain ⟨hKeys, done, -, hShift, -⟩ := shiftWindows_spec delta s.streams.keys s.streams s.streams.keys_nodup
  exact { Resettled.refl s with keys := hKeys, streams := fun sid => ⟨_, hShift sid⟩ }

theorem applySetting_cases (s : Http2Handler) (id val : Nat) :
    SettingOutcome s id val (s.applySetting id val).1 (s.applySetting id val).2 := by
  unfold applySetting
  split_ifs with hPush hVal hWindow hOver hSize hRange hTable
  · exact .failed _ (resettled_abort ..)
  · exact .ignored (by omega)
  · exact .failed _ (resettled_abort ..)
  · have hReset := resettled_shift s (val - s.peerInitialWindowSize)
    cases hShift : shiftWindows (val - s.peerInitialWindowSize) s.streams.keys s.streams with
    | mk streams fits =>
      rw [hShift] at hReset
      simp only [hShift]
      cases fits with
      | true => exact .window streams hWindow (not_lt.mp hOver) hShift
      | false => exact .failed _ (hReset.trans (resettled_abort ..))
  · exact .failed _ (resettled_abort ..)
  · exact .frameSize hSize (by omega) (by omega)
  · exact .recorded hTable
  · exact .ignored hWindow

theorem SettingOutcome.resettled {id val : Nat} {r : Result} (h : SettingOutcome s id val t r) : Resettled s t := by
  cases h with
  | failed _ hReset => exact hReset
  | window streams hId hVal hShift =>
    have hReset := resettled_shift s (val - s.peerInitialWindowSize)
    rw [hShift] at hReset
    exact { hReset with }
  | frameSize hId hMin hMax => exact { Resettled.refl s with frameSize := fun _ => ⟨hMin, hMax⟩ }
  | recorded hId => exact { Resettled.refl s with }
  | ignored hId => exact Resettled.refl s

theorem applySettings_resettled (payload : Bytes) (s : Http2Handler) : Resettled s (applySettings payload s).1 := by
  fun_induction applySettings payload s with
  | case1 a b c d e g rest s t hEntry ih =>
    have hStep := (applySetting_cases s (readUint [a, b]) (readUint [c, d, e, g])).resettled
    rw [hEntry] at hStep
    exact hStep.trans ih
  | case2 a b c d e g rest s hFailed =>
    exact (applySetting_cases s (readUint [a, b]) (readUint [c, d, e, g])).resettled
  | case3 payload s hShort => exact Resettled.refl s

theorem applySettings_ne_undefined (payload : Bytes) (s : Http2Handler) : (applySettings payload s).2 ≠ .undefined := by
  fun_induction applySettings payload s with
  | case1 a b c d e g rest s t hEntry ih => exact ih
  | case2 a b c d e g rest s hFailed =>
    have hCases := applySetting_cases s (readUint [a, b]) (readUint [c, d, e, g])
    generalize (s.applySetting (readUint [a, b]) (readUint [c, d, e, g])) = out at hCases ⊢
    obtain ⟨t, r⟩ := out
    cases hCases <;> simp
  | case3 payload s hShort => simp

inductive SettingsOutcome (s : Http2Handler) (f : Http2Frame) : Http2Handler → Result → Prop
  | failed (t : Http2Handler) (code : Errc) (hReset : Resettled s t) : SettingsOutcome s f t (.error code)
  | acknowledged (hAck : f.has flagAck = true) : SettingsOutcome s f s .ok
  | applied (t : Http2Handler) (hAck : f.has flagAck = false) (hApplied : applySettings f.payload s = (t, .ok)) :
      SettingsOutcome s f
        { t with
          peerSettingsReceived := true
          pendingFrames := t.pendingFrames ++ [{ type := .settings, flags := flagAck }] } .ok

theorem handleSettings_cases (s : Http2Handler) (f : Http2Frame) :
    SettingsOutcome s f (s.handleSettings f).1 (s.handleSettings f).2 := by
  unfold handleSettings
  split_ifs with hStream hAck hPayload hLength
  · exact .failed _ _ (resettled_abort ..)
  · exact .failed _ _ (resettled_abort ..)
  · exact .acknowledged hAck
  · exact .failed _ _ (resettled_abort ..)
  · have hReset := applySettings_resettled f.payload s
    cases hApplied : applySettings f.payload s with
    | mk t r =>
      rw [hApplied] at hReset
      cases r with
      | ok => exact .applied t (by simpa using hAck) hApplied
      | error code => exact .failed t code hReset
      | undefined => exact absurd (congrArg Prod.snd hApplied) (applySettings_ne_undefined f.payload s)

theorem SettingsOutcome.resettled {f : Http2Frame} {r : Result} (h : SettingsOutcome s f t r) : Resettled s t := by
  cases h with
  | failed _ _ hReset => exact hReset
  | acknowledged => exact Resettled.refl s
  | applied u _ hApplied =>
    have hReset := applySettings_resettled f.payload s
    rw [hApplied] at hReset
    have hQueue : Resettled u { u with
        peerSettingsReceived := true
        pendingFrames := u.pendingFrames ++ [{ type := .settings, flags := flagAck }] } :=
      { Resettled.refl u with queue := ⟨[{ type := .settings, flags := flagAck }], rfl, by simp [Control]⟩ }
    exact hReset.trans hQueue

/-! ### HEADERS -/

/-- A HEADERS frame on this stream is not refused. -/
def Admits (s : Http2Handler) (sid : UInt32) : Prop :=
  ¬(s.streams.lookup sid = none ∧ maxConcurrentStreams ≤ s.streams.keys.length)

/-- A HEADERS frame that announces more padding than payload and is not turned away before. -/
def Overruns (s : Http2Handler) (f : Http2Frame) : Prop :=
  f.streamId ≠ 0 ∧ Admits s f.streamId ∧ ∃ offset size, headerSpan f = some (offset, size) ∧
    f.payload.length < offset + size ∧
    (f.has flagEndHeaders = false → bufferedSize f (s.pendingBlock f.streamId) offset size ≤ maxHeaderBlock)

inductive HeadersOutcome (s : Http2Handler) (f : Http2Frame) : Http2Handler → Result → Prop
  | onZero (hZero : f.streamId = 0) :
      HeadersOutcome s f
        { s with pendingFrames := s.pendingFrames ++ [goawayFrame s 0x1 "HEADERS with stream_id == 0"] }
        (.error .protocolError)
  | refused (hSid : f.streamId ≠ 0) (hNew : s.streams.lookup f.streamId = none)
      (hFull : maxConcurrentStreams ≤ s.streams.keys.length) :
      HeadersOutcome s f { s with pendingFrames := s.pendingFrames ++ [rstFrame f.streamId 0x7] } .ok
  | malformed (hSid : f.streamId ≠ 0) (hAdmits : Admits s f.streamId) (hSpan : headerSpan f = none) :
      HeadersOutcome s f
        { s with streams := s.streams.insert f.streamId (s.getOrCreateStream f.streamId) }
        (.error .protocolError)
  | overrun (t : Http2Handler) (hOver : Overruns s f) : HeadersOutcome s f t .undefined
  | tooLarge (offset size : Nat) (hSid : f.streamId ≠ 0) (hAdmits : Admits s f.streamId)
      (hSpan : headerSpan f = some (offset, size)) (hOpen : f.has flagEndHeaders = false)
      (hLarge : maxHeaderBlock < bufferedSize f (s.pendingBlock f.streamId) offset size) :
      HeadersOutcome s f
        { s with
          streams := s.streams.insert f.streamId (s.getOrCreateStream f.streamId)
          continuationBuffer := s.continuationBuffer.erase f.streamId
          pendingFrames := s.pendingFrames ++ [goawayFrame s 0xb "Header block too large"] }
        (.error .messageSize)
  | buffered (offset size : Nat) (hSid : f.streamId ≠ 0) (hAdmits : Admits s f.streamId)
      (hSpan : headerSpan f = some (offset, size)) (hOpen : f.has flagEndHeaders = false)
      (hInside : offset + size ≤ f.payload.length)
      (hSmall : (s.pendingBlock f.streamId).length + size ≤ maxHeaderBlock) :
      HeadersOutcome s f
        { s with
          streams := s.streams.insert f.streamId (ended f (s.getOrCreateStream f.streamId))
          continuationBuffer := s.continuationBuffer.insert f.streamId
            (s.pendingBlock f.streamId ++ slice f.payload offset size)
          invocations := s.invocations ++ calls s f (s.getOrCreateStream f.streamId)
          lastStreamId := f.streamId } .ok
  | complete (offset size : Nat) (hSid : f.streamId ≠ 0) (hAdmits : Admits s f.streamId)
      (hSpan : headerSpan f = some (offset, size)) (hClosed : f.has flagEndHeaders = true)
      (hInside : offset + size ≤ f.payload.length) :
      HeadersOutcome s f
        { s with
          streams := s.streams.insert f.streamId
            (ended f (receiveBlock (s.getOrCreateStream f.streamId) (slice f.payload offset size)))
          invocations := s.invocations ++
            calls s f (receiveBlock (s.getOrCreateStream f.streamId) (slice f.payload offset size))
          lastStreamId := f.streamId } .ok

/-- The tail of `handle_headers`, from a handler that holds the stream. -/
theorem finishHeaders_eq (s : Http2Handler) (f : Http2Frame) (stream : Http2Stream) :
    (s.putStream f.streamId stream).finishHeaders f stream =
      ({ s with
          streams := s.streams.insert f.streamId (ended f stream)
          invocations := s.invocations ++ calls s f stream
          lastStreamId := f.streamId }, .ok) := by
  unfold finishHeaders
  cases hEnd : f.has flagEndStream with
  | true =>
    simp only [if_true, endRemote_eq _ f _ hEnd, putStream, insert_insert]
    rfl
  | false =>
    simp only [Bool.false_eq_true, if_false, putStream, ended, calls, hEnd, Bool.false_and, List.append_nil]

/-- The exits of `handle_headers`. -/
theorem handleHeaders_cases (s : Http2Handler) (f : Http2Frame) :
    HeadersOutcome s f (s.handleHeaders f).1 (s.handleHeaders f).2 := by
  unfold handleHeaders
  by_cases hZero : f.streamId = 0
  · rw [if_pos hZero]
    exact .onZero hZero
  rw [if_neg hZero]
  by_cases hFull : s.streams.lookup f.streamId = none ∧ maxConcurrentStreams ≤ s.streams.keys.length
  · rw [if_pos hFull]
    exact .refused hZero hFull.1 hFull.2
  rw [if_neg hFull]
  cases hSpan : headerSpan f with
  | none => exact .malformed hZero hFull hSpan
  | some span =>
    obtain ⟨offset, size⟩ := span
    simp only
    split_ifs with hClosed hOver hLarge hOver
    · exact .overrun _ ⟨hZero, hFull, offset, size, hSpan, hOver, by simp [hClosed]⟩
    · have hPut : ∀ stream stream', (s.putStream f.streamId stream).putStream f.streamId stream' =
          s.putStream f.streamId stream' := by
        intro stream stream'
        simp only [putStream, insert_insert]
      rw [hPut, finishHeaders_eq]
      exact .complete offset size hZero hFull hSpan hClosed (not_lt.mp hOver)
    · exact .tooLarge offset size hZero hFull hSpan (eq_false_of_ne_true hClosed) hLarge
    · exact .overrun _ ⟨hZero, hFull, offset, size, hSpan, hOver, fun _ => not_lt.mp hLarge⟩
    · have hSize : bufferedSize f (s.pendingBlock f.streamId) offset size =
          (s.pendingBlock f.streamId).length + size := if_neg hOver
      have hStored := finishHeaders_eq
        (s.putBlock f.streamId (s.pendingBlock f.streamId ++ slice f.payload offset size)) f
        (s.getOrCreateStream f.streamId)
      have hOutcome := HeadersOutcome.buffered offset size hZero hFull hSpan (eq_false_of_ne_true hClosed)
        (not_lt.mp hOver) (hSize ▸ not_lt.mp hLarge)
      exact hStored ▸ hOutcome

/-! ### CONTINUATION -/

inductive ContinuationOutcome (s : Http2Handler) (f : Http2Frame) : Http2Handler → Result → Prop
  | unexpected (hNone : s.continuationBuffer.lookup f.streamId = none) :
      ContinuationOutcome s f
        { s with pendingFrames := s.pendingFrames ++ [goawayFrame s 0x1 "Unexpected CONTINUATION frame"] }
        (.error .protocolError)
  | tooLarge (buf : Bytes) (hBuf : s.continuationBuffer.lookup f.streamId = some buf)
      (hLarge : maxHeaderBlock < buf.length + f.payload.length) :
      ContinuationOutcome s f
        { s with
          continuationBuffer := s.continuationBuffer.erase f.streamId
          pendingFrames := s.pendingFrames ++ [goawayFrame s 0xb "Header block too large"] }
        (.error .messageSize)
  | continued (buf : Bytes) (hBuf : s.continuationBuffer.lookup f.streamId = some buf)
      (hSmall : buf.length + f.payload.length ≤ maxHeaderBlock) (hOpen : f.has flagEndHeaders = false) :
      ContinuationOutcome s f
        { s with continuationBuffer := s.continuationBuffer.insert f.streamId (buf ++ f.payload) } .ok
  | orphaned (buf : Bytes) (hBuf : s.continuationBuffer.lookup f.streamId = some buf)
      (hSmall : buf.length + f.payload.length ≤ maxHeaderBlock) (hClosed : f.has flagEndHeaders = true)
      (hGone : s.streams.lookup f.streamId = none) :
      ContinuationOutcome s f { s with continuationBuffer := s.continuationBuffer.erase f.streamId } .ok
  | complete (buf : Bytes) (stream : Http2Stream)
      (hBuf : s.continuationBuffer.lookup f.streamId = some buf)
      (hSmall : buf.length + f.payload.length ≤ maxHeaderBlock) (hClosed : f.has flagEndHeaders = true)
      (hStream : s.streams.lookup f.streamId = some stream) :
      ContinuationOutcome s f
        { s with
          streams := s.streams.insert f.streamId (receiveBlock stream (buf ++ f.payload))
          continuationBuffer := s.continuationBuffer.erase f.streamId } .ok

theorem handleContinuation_cases (s : Http2Handler) (f : Http2Frame) :
    ContinuationOutcome s f (s.handleContinuation f).1 (s.handleContinuation f).2 := by
  unfold handleContinuation
  simp only
  cases hBuf : s.continuationBuffer.lookup f.streamId with
  | none => exact .unexpected hBuf
  | some buf =>
    simp only
    by_cases hLarge : maxHeaderBlock < buf.length + f.payload.length
    · rw [if_pos hLarge]
      exact .tooLarge buf hBuf hLarge
    rw [if_neg hLarge]
    cases hClosed : f.has flagEndHeaders with
    | false => exact .continued buf hBuf (not_lt.mp hLarge) hClosed
    | true =>
      cases hStream : s.streams.lookup f.streamId with
      | none => exact .orphaned buf hBuf (not_lt.mp hLarge) hClosed hStream
      | some stream => exact .complete buf stream hBuf (not_lt.mp hLarge) hClosed hStream

/-! ### DATA -/

def charged (stream : Http2Stream) (f : Http2Frame) : Http2Stream :=
  { stream with recvWindow := stream.recvWindow - f.payload.length }

def chargedConnection (s : Http2Handler) (f : Http2Frame) : Http2Handler :=
  { s with
    connRecvWindow := refilled (s.connRecvWindow - f.payload.length)
    pendingFrames := s.pendingFrames ++ replenishment 0 (s.connRecvWindow - f.payload.length) }

inductive DataOutcome (s : Http2Handler) (f : Http2Frame) : Http2Handler → Result → Prop
  | onZero (hZero : f.streamId = 0) :
      DataOutcome s f
        { s with pendingFrames := s.pendingFrames ++ [goawayFrame s 0x1 "DATA with stream_id == 0"] }
        (.error .protocolError)
  | unknown (hSid : f.streamId ≠ 0) (hNone : s.streams.lookup f.streamId = none) :
      DataOutcome s f { s with pendingFrames := s.pendingFrames ++ [rstFrame f.streamId 0x1] } .ok
  | connectionUnderflow (stream : Http2Stream) (hSid : f.streamId ≠ 0)
      (hStream : s.streams.lookup f.streamId = some stream)
      (hUnder : s.connRecvWindow < f.payload.length) :
      DataOutcome s f
        { s with
          connRecvWindow := s.connRecvWindow - f.payload.length
          streams := s.streams.insert f.streamId (charged stream f)
          pendingFrames := s.pendingFrames ++
            [goawayFrame s 0x3 "connection receive window underflow"] }
        (.error .protocolError)
  | streamUnderflow (stream : Http2Stream) (hSid : f.streamId ≠ 0)
      (hStream : s.streams.lookup f.streamId = some stream)
      (hConn : (f.payload.length : Int) ≤ s.connRecvWindow)
      (hUnder : stream.recvWindow < f.payload.length) :
      DataOutcome s f
        { s with
          connRecvWindow := s.connRecvWindow - f.payload.length
          streams := s.streams.erase f.streamId
          pendingFrames := s.pendingFrames ++ [rstFrame f.streamId 0x3] } .ok
  | malformed (stream : Http2Stream) (hSid : f.streamId ≠ 0)
      (hStream : s.streams.lookup f.streamId = some stream)
      (hConn : (f.payload.length : Int) ≤ s.connRecvWindow)
      (hWindow : (f.payload.length : Int) ≤ stream.recvWindow) (hContent : dataContent f = none) :
      DataOutcome s f
        { chargedConnection s f with streams := s.streams.insert f.streamId (charged stream f) }
        (.error .protocolError)
  | bodyTooLarge (stream : Http2Stream) (content : Bytes) (hSid : f.streamId ≠ 0)
      (hStream : s.streams.lookup f.streamId = some stream)
      (hConn : (f.payload.length : Int) ≤ s.connRecvWindow)
      (hWindow : (f.payload.length : Int) ≤ stream.recvWindow) (hContent : dataContent f = some content)
      (hLarge : maxRequestBody < stream.requestBody.length + content.length) :
      DataOutcome s f
        { chargedConnection s f with
          streams := s.streams.erase f.streamId
          pendingFrames := (chargedConnection s f).pendingFrames ++ [rstFrame f.streamId 0xb] } .ok
  | ended (stream : Http2Stream) (content : Bytes) (hSid : f.streamId ≠ 0)
      (hStream : s.streams.lookup f.streamId = some stream)
      (hConn : (f.payload.length : Int) ≤ s.connRecvWindow)
      (hWindow : (f.payload.length : Int) ≤ stream.recvWindow) (hContent : dataContent f = some content)
      (hSmall : stream.requestBody.length + content.length ≤ maxRequestBody)
      (hEnd : f.has flagEndStream = true) :
      DataOutcome s f
        { chargedConnection s f with
          streams := s.streams.insert f.streamId
            { charged stream f with
              requestBody := stream.requestBody ++ content, state := .halfClosedRemote }
          invocations := s.invocations ++
            calls s f { charged stream f with requestBody := stream.requestBody ++ content } } .ok
  | collected (stream : Http2Stream) (content : Bytes) (hSid : f.streamId ≠ 0)
      (hStream : s.streams.lookup f.streamId = some stream)
      (hConn : (f.payload.length : Int) ≤ s.connRecvWindow)
      (hWindow : (f.payload.length : Int) ≤ stream.recvWindow) (hContent : dataContent f = some content)
      (hSmall : stream.requestBody.length + content.length ≤ maxRequestBody)
      (hMore : f.has flagEndStream = false) :
      DataOutcome s f
        { chargedConnection s f with
          streams := s.streams.insert f.streamId
            { stream with
              requestBody := stream.requestBody ++ content
              recvWindow := refilled (stream.recvWindow - f.payload.length) }
          pendingFrames := (chargedConnection s f).pendingFrames ++
            replenishment f.streamId (stream.recvWindow - f.payload.length) } .ok

theorem handleData_cases (s : Http2Handler) (f : Http2Frame) :
    DataOutcome s f (s.handleData f).1 (s.handleData f).2 := by
  unfold handleData
  by_cases hZero : f.streamId = 0
  · rw [if_pos hZero]
    exact .onZero hZero
  rw [if_neg hZero]
  cases hStream : s.streams.lookup f.streamId with
  | none => exact .unknown hZero hStream
  | some stream =>
    simp only [putStream, maybeReplenish_eq]
    by_cases hUnder : s.connRecvWindow - (f.payload.length : Int) < 0
    · rw [if_pos hUnder]
      exact .connectionUnderflow stream hZero hStream (by omega)
    rw [if_neg hUnder]
    by_cases hStreamUnder : stream.recvWindow - (f.payload.length : Int) < 0
    · rw [if_pos hStreamUnder]
      simp only [sendRstStream, pushFrame, dropStream, erase_insert_self]
      exact .streamUnderflow stream hZero hStream (by omega) (by omega)
    rw [if_neg hStreamUnder]
    cases hContent : dataContent f with
    | none => exact .malformed stream hZero hStream (by omega) (by omega) hContent
    | some content =>
      simp only
      split_ifs with hLarge hEnd
      · simp only [sendRstStream, pushFrame, dropStream, erase_insert_self]
        exact .bodyTooLarge stream content hZero hStream (by omega) (by omega) hContent hLarge
      · simp only [endRemote, putStream, insert_insert]
        have hOutcome := DataOutcome.ended stream content hZero hStream (by omega) (by omega)
          hContent (not_lt.mp hLarge) hEnd
        simp only [calls, hEnd, Bool.true_and] at hOutcome
        exact hOutcome
      · simp only [insert_insert]
        exact .collected stream content hZero hStream (by omega) (by omega) hContent
          (not_lt.mp hLarge) (eq_false_of_ne_true hEnd)

/-! ### RST_STREAM and WINDOW_UPDATE -/

def afterReset (s : Http2Handler) (f : Http2Frame) : Http2Handler :=
  { s with
    streams := s.streams.erase f.streamId
    continuationBuffer := s.continuationBuffer.erase f.streamId
    rstStreamCount := s.rstStreamCount + 1 }

inductive RstOutcome (s : Http2Handler) (f : Http2Frame) : Http2Handler → Result → Prop
  | reset : RstOutcome s f (afterReset s f) .ok
  | excessive :
      RstOutcome s f
        { afterReset s f with
          pendingFrames := s.pendingFrames ++ [goawayFrame s 0xb "Excessive RST_STREAM (rapid reset)"] }
        (.error .connectionAborted)

theorem handleRstStream_cases (s : Http2Handler) (f : Http2Frame) :
    RstOutcome s f (s.handleRstStream f).1 (s.handleRstStream f).2 := by
  unfold handleRstStream
  simp only
  split_ifs
  · exact .excessive
  · exact .reset

inductive WindowUpdateOutcome (s : Http2Handler) (f : Http2Frame) : Http2Handler → Result → Prop
  | failed (message : String) (errorCode : Nat) :
      WindowUpdateOutcome s f
        { s with pendingFrames := s.pendingFrames ++ [goawayFrame s errorCode message] }
        (.error .protocolError)
  | zero (hSize : f.payload.length = 4) (hZero : increment f = 0) (hSid : f.streamId ≠ 0) :
      WindowUpdateOutcome s f { s with pendingFrames := s.pendingFrames ++ [rstFrame f.streamId 0x1] } .ok
  | connectionOverflow (hSid : f.streamId = 0) :
      WindowUpdateOutcome s f
        { s with
          connSendWindow := s.connSendWindow + increment f
          pendingFrames := s.pendingFrames ++ [goawayFrame s 0x3 "connection SEND window overflow"] }
        (.error .protocolError)
  | connection (hSize : f.payload.length = 4) (hSid : f.streamId = 0)
      (hFits : s.connSendWindow + increment f ≤ maxWindow) :
      WindowUpdateOutcome s f { s with connSendWindow := s.connSendWindow + increment f } .ok
  | unknown (hSize : f.payload.length = 4) (hSid : f.streamId ≠ 0)
      (hNone : s.streams.lookup f.streamId = none) : WindowUpdateOutcome s f s .ok
  | streamOverflow (stream : Http2Stream) (hSize : f.payload.length = 4) (hSid : f.streamId ≠ 0)
      (hPos : increment f ≠ 0) (hStream : s.streams.lookup f.streamId = some stream)
      (hOver : maxWindow < stream.sendWindow + increment f) :
      WindowUpdateOutcome s f
        { s with
          streams := s.streams.erase f.streamId
          pendingFrames := s.pendingFrames ++ [rstFrame f.streamId 0x3] } .ok
  | stream (stream : Http2Stream) (hSize : f.payload.length = 4) (hSid : f.streamId ≠ 0)
      (hStream : s.streams.lookup f.streamId = some stream)
      (hFits : stream.sendWindow + increment f ≤ maxWindow) :
      WindowUpdateOutcome s f
        { s with
          streams := s.streams.insert f.streamId
            { stream with sendWindow := stream.sendWindow + increment f } } .ok

theorem handleWindowUpdate_cases (s : Http2Handler) (f : Http2Frame) :
    WindowUpdateOutcome s f (s.handleWindowUpdate f).1 (s.handleWindowUpdate f).2 := by
  unfold handleWindowUpdate
  simp only
  split_ifs with hSize hZero hSid hSid hOver
  · exact .failed _ _
  · exact .failed _ _
  · exact .zero (not_not.mp hSize) hZero hSid
  · exact .connectionOverflow hSid
  · exact .connection (not_not.mp hSize) hSid (not_lt.mp hOver)
  cases hStream : s.streams.lookup f.streamId with
  | none => exact .unknown (not_not.mp hSize) hSid hStream
  | some stream =>
    simp only
    split_ifs with hOver
    · simp only [sendRstStream, pushFrame, dropStream, putStream, erase_insert_self]
      exact .streamOverflow stream (not_not.mp hSize) hSid hZero hStream hOver
    · exact .stream stream (not_not.mp hSize) hSid hStream (not_lt.mp hOver)

/-! ### Answers -/

inductive SendHeadersOutcome (s : Http2Handler) (frame : Http2Frame) (endStream : Bool) :
    Http2Handler → Prop
  | unknown (hNone : s.streams.lookup frame.streamId = none) :
      SendHeadersOutcome s frame endStream { s with pendingFrames := s.pendingFrames ++ [frame] }
  | known (stream : Http2Stream) (hStream : s.streams.lookup frame.streamId = some stream) :
      SendHeadersOutcome s frame endStream
        { s with
          pendingFrames := s.pendingFrames ++ [frame]
          streams := if endStream then s.streams.insert frame.streamId (endLocal stream) else s.streams }

theorem sendHeaders_cases (s : Http2Handler) (order : MapOrder) (sid : UInt32) (headers : HeaderMap)
    (endStream : Bool) : SendHeadersOutcome s (headersFrame order sid headers endStream) endStream
      (s.sendHeaders order sid headers endStream).1 := by
  unfold sendHeaders
  simp only [pushFrame]
  cases hStream : s.streams.lookup sid with
  | none => exact .unknown hStream
  | some stream =>
    cases endStream with
    | true | false => exact .known stream hStream

inductive SendDataOutcome (s : Http2Handler) (sid : UInt32) (data : Bytes) (endStream : Bool) :
    Http2Handler → Result → Prop
  | blocked (hFull : s.connSendWindow < data.length ∨
        ∃ stream, s.streams.lookup sid = some stream ∧ stream.sendWindow < data.length) :
      SendDataOutcome s sid data endStream s (.error .operationWouldBlock)
  | tooLong (hNone : s.streams.lookup sid = none) (hOver : maxWindow < data.length) :
      SendDataOutcome s sid data endStream s (.error .operationWouldBlock)
  | unknown (hNone : s.streams.lookup sid = none) (hConn : (data.length : Int) ≤ s.connSendWindow) :
      SendDataOutcome s sid data endStream
        { s with
          connSendWindow := s.connSendWindow - data.length
          pendingFrames := s.pendingFrames ++ [dataFrame sid data endStream] } .ok
  | known (stream : Http2Stream) (hStream : s.streams.lookup sid = some stream)
      (hConn : (data.length : Int) ≤ s.connSendWindow) (hWindow : (data.length : Int) ≤ stream.sendWindow) :
      SendDataOutcome s sid data endStream
        { s with
          connSendWindow := s.connSendWindow - data.length
          pendingFrames := s.pendingFrames ++ [dataFrame sid data endStream]
          streams := s.streams.insert sid
            (if endStream then endLocal { stream with sendWindow := stream.sendWindow - data.length }
              else { stream with sendWindow := stream.sendWindow - data.length }) } .ok

theorem sendData_cases (s : Http2Handler) (sid : UInt32) (data : Bytes) (endStream : Bool) :
    SendDataOutcome s sid data endStream (s.sendData sid data endStream).1 (s.sendData sid data endStream).2 := by
  unfold sendData
  simp only [pushFrame]
  cases hStream : s.streams.lookup sid with
  | none =>
    have hCredit : s.streamCredit sid = maxWindow := by rw [streamCredit, hStream, Option.elim_none]
    rw [hCredit]
    by_cases hFull : s.connSendWindow < (data.length : Int) ∨ maxWindow < (data.length : Int)
    · rw [if_pos hFull]
      rcases hFull with hConn | hOver
      · exact .blocked (.inl hConn)
      · exact .tooLong hStream hOver
    · rw [if_neg hFull]
      exact .unknown hStream (by omega)
  | some stream =>
    have hCredit : s.streamCredit sid = stream.sendWindow := by
      rw [streamCredit, hStream, Option.elim_some]
    rw [hCredit]
    by_cases hFull : s.connSendWindow < (data.length : Int) ∨ stream.sendWindow < (data.length : Int)
    · rw [if_pos hFull]
      exact .blocked (hFull.imp_right fun h => ⟨stream, hStream, h⟩)
    · rw [if_neg hFull]
      exact .known stream hStream (by omega) (by omega)

end Http2Handler

open Http2Handler

/-! ### Calls -/

inductive Outcome (s : Http2Handler) : Call → Http2Handler → Result → Prop
  | settings {f t r} (hType : f.type = .settings) (h : SettingsOutcome s f t r) :
      Outcome s (.handleFrame f) t r
  | headers {f t r} (hType : f.type = .headers) (h : HeadersOutcome s f t r) :
      Outcome s (.handleFrame f) t r
  | continuation {f t r} (hType : f.type = .continuation) (h : ContinuationOutcome s f t r) :
      Outcome s (.handleFrame f) t r
  | data {f t r} (hType : f.type = .data) (h : DataOutcome s f t r) : Outcome s (.handleFrame f) t r
  | rstStream {f t r} (hType : f.type = .rstStream) (h : RstOutcome s f t r) :
      Outcome s (.handleFrame f) t r
  | windowUpdate {f t r} (hType : f.type = .windowUpdate) (h : WindowUpdateOutcome s f t r) :
      Outcome s (.handleFrame f) t r
  | other {call r} (frames : List Http2Frame) (hControl : ∀ f ∈ frames, Control f)
      (hDefined : r ≠ .undefined)
      (hNotSent : ∀ order sid headers endStream, call ≠ .sendHeaders order sid headers endStream)
      (hNoData : ∀ sid data endStream, call ≠ .sendData sid data endStream)
      (hType : ∀ f, call = .handleFrame f → f.type ≠ .data ∧ f.type ≠ .headers ∧
        f.type ≠ .continuation ∧ f.type ≠ .settings ∧ f.type ≠ .windowUpdate) :
      Outcome s call { s with pendingFrames := s.pendingFrames ++ frames } r
  | drain : Outcome s .drainPendingFrames { s with pendingFrames := [] } .ok
  | sendHeaders {order sid headers endStream t}
      (h : SendHeadersOutcome s (headersFrame order sid headers endStream) endStream t) :
      Outcome s (.sendHeaders order sid headers endStream) t .ok
  | sendData {sid data endStream t r} (h : SendDataOutcome s sid data endStream t r) :
      Outcome s (.sendData sid data endStream) t r

variable {s t start : Http2Handler} {f : Http2Frame} {r : Result} {call : Call} {calls : List Call} {sid : UInt32}

section Quiet

variable (hType : f.type ≠ .data ∧ f.type ≠ .headers ∧ f.type ≠ .continuation ∧ f.type ≠ .settings ∧
    f.type ≠ .windowUpdate)
include hType

theorem Outcome.quiet (frames : List Http2Frame) (hControl : ∀ f ∈ frames, Control f) (hDefined : r ≠ .undefined) :
    Outcome s (.handleFrame f) { s with pendingFrames := s.pendingFrames ++ frames } r :=
  .other frames hControl hDefined (by simp) (by simp) (fun _ h => Call.handleFrame.inj h ▸ hType)

theorem Outcome.ignored (hDefined : r ≠ .undefined) : Outcome s (.handleFrame f) s r := by
  have hQuiet : Outcome s (.handleFrame f) { s with pendingFrames := s.pendingFrames ++ [] } r :=
    .quiet hType [] (by simp) hDefined
  rw [List.append_nil] at hQuiet
  exact hQuiet

end Quiet

theorem apply_handleFrame_cases (s : Http2Handler) (f : Http2Frame) :
    Outcome s (.handleFrame f) (s.handleFrame f).1 (s.handleFrame f).2 := by
  unfold handleFrame
  cases hType : f.type with
  | settings => exact .settings hType (handleSettings_cases s f)
  | headers => exact .headers hType (handleHeaders_cases s f)
  | continuation => exact .continuation hType (handleContinuation_cases s f)
  | data => exact .data hType (handleData_cases s f)
  | rstStream => exact .rstStream hType (handleRstStream_cases s f)
  | windowUpdate => exact .windowUpdate hType (handleWindowUpdate_cases s f)
  | ping =>
    unfold handlePing
    cases hAck : f.has flagAck with
    | true => exact .ignored (by simp [hType]) (by simp)
    | false => exact .quiet (by simp [hType]) _ (by simp [Control]) (by simp)
  | goaway => exact .ignored (by simp [hType]) (by simp [handleGoaway])
  | priority | pushPromise | unknown code => exact .ignored (by simp [hType]) (by simp)

theorem apply_cases (s : Http2Handler) (call : Call) : Outcome s call (call.apply s).1 (call.apply s).2 := by
  cases call with
  | handleFrame f => exact apply_handleFrame_cases s f
  | sendHeaders order sid headers endStream =>
    have hOk : (s.sendHeaders order sid headers endStream).2 = .ok := by
      unfold Http2Handler.sendHeaders
      simp only
      split <;> rfl
    simp only [Call.apply, hOk]
    exact .sendHeaders (sendHeaders_cases s order sid headers endStream)
  | sendData sid data endStream => exact .sendData (sendData_cases s sid data endStream)
  | sendSettings ack =>
    cases ack with
    | true | false => exact .other _ (by simp [Control]) (by simp [Call.apply]) (by simp) (by simp) (by simp)
  | sendPing ack opaqueData | sendGoaway lastStreamId errorCode message =>
    exact .other _ (by simp [Control]) (by simp [Call.apply]) (by simp) (by simp) (by simp)
  | drainPendingFrames => exact .drain

structure ByType (s : Http2Handler) (f : Http2Frame) (t : Http2Handler) (r : Result) : Prop where
  data : f.type = .data → DataOutcome s f t r
  headers : f.type = .headers → HeadersOutcome s f t r
  continuation : f.type = .continuation → ContinuationOutcome s f t r
  windowUpdate : f.type = .windowUpdate → WindowUpdateOutcome s f t r

theorem Outcome.byType (h : Outcome s (.handleFrame f) t r) : ByType s f t r := by
  cases h with
  | other _ _ _ _ _ hOther =>
    obtain ⟨hData, hHeaders, hContinuation, -, hUpdate⟩ := hOther f rfl
    exact ⟨(absurd · hData), (absurd · hHeaders), (absurd · hContinuation), (absurd · hUpdate)⟩
  | settings hType h | headers hType h | continuation hType h | data hType h | rstStream hType h
  | windowUpdate hType h =>
    constructor <;> simp [hType, h]

theorem Http2Handler.HeadersOutcome.undefined_iff (h : HeadersOutcome s f t r) : r = .undefined ↔ Overruns s f := by
  constructor
  · rintro rfl
    cases h with
    | overrun _ hOver => exact hOver
  · rintro ⟨hSid, hAdmits, offset, size, hSpan, hOver, hSmall⟩
    cases h with
    | onZero hZero => exact absurd hZero hSid
    | refused _ hNew hFull => exact absurd ⟨hNew, hFull⟩ hAdmits
    | malformed _ _ hNone =>
      rw [hNone] at hSpan
      cases hSpan
    | overrun => rfl
    | tooLarge _ _ _ _ hSpan' hOpen hLarge =>
      rw [hSpan'] at hSpan
      cases hSpan
      exact absurd (hSmall hOpen) (not_le.mpr hLarge)
    | buffered _ _ _ _ hSpan' _ hInside | complete _ _ _ _ hSpan' _ hInside =>
      rw [hSpan'] at hSpan
      cases hSpan
      omega

/-! ### Padding -/

def unpadded (f : Http2Frame) (offset : Nat) : Option Bytes :=
  let pad := if f.has flagPadded then (f.payload.headD 0).toNat else 0
  if f.payload.length < offset + pad then none else some (slice f.payload offset (f.payload.length - pad - offset))

def padField (f : Http2Frame) : Nat := if f.has flagPadded then 1 else 0

def headerOffset (f : Http2Frame) : Nat := padField f + if f.has flagPriority then 5 else 0

def Passes (s : Http2Handler) (f : Http2Frame) (block : Bytes) (t : Http2Handler) : Prop :=
  let stream := s.getOrCreateStream f.streamId
  t.streams.lookup f.streamId = some (ended f (if f.has flagEndHeaders then receiveBlock stream block else stream)) ∧
    (f.has flagEndHeaders = false →
      t.continuationBuffer.lookup f.streamId = some (s.pendingBlock f.streamId ++ block))

/-- A HEADERS frame gives an error or passes on exactly what its padding and priority fields leave,
and DATA likewise. -/
structure Sliced (s : Http2Handler) (f : Http2Frame) : Prop where
  headers : (∃ code, (s.handleHeaders f).2 = .error code) ∨
    (s.handleHeaders f).2 = .ok ∧ ∃ block ∈ unpadded f (headerOffset f), Passes s f block (s.handleHeaders f).1
  data : dataContent f = unpadded f (padField f)

theorem dataContent_eq (f : Http2Frame) : dataContent f = unpadded f (padField f) := by
  unfold dataContent unpadded padField
  cases f.has flagPadded with
  | false => simp [slice_all]
  | true =>
    cases f.payload with
    | nil => rfl
    | cons pad rest =>
      simp only [if_true, List.headD_cons, List.length_cons, Nat.add_comm 1, Nat.add_lt_add_iff_right]
      split_ifs
      · rfl
      · rw [Nat.sub_right_comm, Nat.add_sub_cancel]
        rfl

structure HeldFrame extends Http2Frame where
  held : payload.length < 2 ^ 64

theorem headerSpan_inside {f : HeldFrame} {offset size : Nat} (hSpan : headerSpan f.toHttp2Frame = some (offset, size))
    (hInside : offset + size ≤ f.payload.length) :
    unpadded f.toHttp2Frame (headerOffset f.toHttp2Frame) = some (slice f.payload offset size) := by
  have hHeld := f.held
  have hPad := (f.payload.headD 0).toNat_lt
  unfold headerSpan at hSpan
  unfold unpadded headerOffset padField
  generalize (if f.has flagPriority then 5 else 0) = priority at hSpan ⊢
  cases hPadded : f.has flagPadded with
  | false =>
    simp only [hPadded, Bool.false_and, Bool.false_eq_true, if_false, Nat.sub_zero] at hSpan ⊢
    split_ifs at hSpan with hShort hEnd
    obtain ⟨rfl, hSize⟩ := Prod.mk.inj (Option.some.inj hSpan)
    rw [if_neg (by omega), Nat.zero_add, show f.payload.length - priority = size by omega]
  | true =>
    simp only [hPadded, Bool.true_and, if_true] at hSpan ⊢
    split_ifs at hSpan with hEmpty hShort hEnd
    obtain ⟨rfl, hSize⟩ := Prod.mk.inj (Option.some.inj hSpan)
    rw [if_neg (by omega), Nat.add_comm 1, Nat.sub_sub,
      show f.payload.length - ((f.payload.headD 0).toNat + (priority + 1)) = size by omega]

theorem Http2Handler.HeadersOutcome.sliced_iff {f : HeldFrame} (h : HeadersOutcome s f.toHttp2Frame t r) :
    ((∃ code, r = .error code) ∨ r = .ok ∧ ∃ block ∈ unpadded f.toHttp2Frame (headerOffset f.toHttp2Frame),
      Passes s f.toHttp2Frame block t) ↔ ¬Overruns s f.toHttp2Frame ∧ (f.streamId = 0 ∨ Admits s f.streamId) := by
  rw [← h.undefined_iff]
  cases h with
  | onZero hZero => exact iff_of_true (.inl ⟨_, rfl⟩) ⟨nofun, .inl hZero⟩
  | refused hSid hNew hFull =>
    refine iff_of_false ?_ fun hRight => hRight.2.elim hSid fun hAdmits => hAdmits ⟨hNew, hFull⟩
    rintro (⟨code, hCode⟩ | ⟨-, block, -, hStream, -⟩)
    · cases hCode
    · rw [hNew] at hStream
      cases hStream
  | malformed hSid hAdmits | tooLarge _ _ hSid hAdmits => exact iff_of_true (.inl ⟨_, rfl⟩) ⟨nofun, .inr hAdmits⟩
  | overrun => exact iff_of_false (by simp) fun hRight => hRight.1 rfl
  | buffered offset size hSid hAdmits hSpan hOpen hInside =>
    refine iff_of_true (.inr ⟨rfl, _, headerSpan_inside hSpan hInside, ?_, fun _ => ?_⟩) ⟨nofun, .inr hAdmits⟩
    · rw [hOpen, AList.lookup_insert]
      rfl
    · rw [AList.lookup_insert]
  | complete offset size hSid hAdmits hSpan hClosed hInside =>
    refine iff_of_true (.inr ⟨rfl, _, headerSpan_inside hSpan hInside, ?_, fun hOpen => ?_⟩) ⟨nofun, .inr hAdmits⟩
    · rw [hClosed, AList.lookup_insert]
      rfl
    · rw [hClosed] at hOpen
      cases hOpen

/-- The padding rule holds exactly of the frames that are neither refused as a new stream nor
announce more padding than they have payload. -/
theorem sliced_iff_padding_fits (s : Http2Handler) (f : HeldFrame) : Sliced s f.toHttp2Frame ↔
    ¬Overruns s f.toHttp2Frame ∧ (f.streamId = 0 ∨ Admits s f.streamId) := by
  rw [← (handleHeaders_cases s f.toHttp2Frame).sliced_iff]
  exact ⟨Sliced.headers, fun hHeaders => ⟨hHeaders, dataContent_eq f.toHttp2Frame⟩⟩

def overpadded : Http2Frame :=
  { type := .headers, streamId := 1, flags := flagPadded ||| flagEndHeaders, payload := [5] }

/-- With more padding than payload the header block is read outside the frame. -/
theorem overpadded_passed : (({} : Http2Handler).handleHeaders overpadded).2 = .undefined ∧ ¬Sliced {} overpadded := by
  have hUndefined : (({} : Http2Handler).handleHeaders overpadded).2 = .undefined := by decide
  refine ⟨hUndefined, fun hSliced => ?_⟩
  have hHeaders := hSliced.headers
  rw [hUndefined] at hHeaders
  simp at hHeaders

theorem Outcome.undefined_iff (h : Outcome s call t r) :
    r = .undefined ↔ ∃ f, call = .handleFrame f ∧ f.type = .headers ∧ Overruns s f := by
  have hOther : ∀ {f : Http2Frame}, f.type ≠ .headers → r ≠ .undefined →
      (r = .undefined ↔ ∃ g, Call.handleFrame f = .handleFrame g ∧ g.type = .headers ∧ Overruns s g) := by
    intro f hType hDefined
    refine ⟨fun h => absurd h hDefined, ?_⟩
    rintro ⟨g, hEq, hHeaders, -⟩
    exact absurd (Call.handleFrame.inj hEq ▸ hHeaders) hType
  cases h with
  | headers hType h =>
    rw [h.undefined_iff]
    exact ⟨fun hOver => ⟨_, rfl, hType, hOver⟩,
      fun ⟨_, hEq, _, hOver⟩ => Call.handleFrame.inj hEq ▸ hOver⟩
  | settings hType h | continuation hType h | data hType h | rstStream hType h | windowUpdate hType h =>
    exact hOther (by simp [hType]) (by cases h <;> simp)
  | other _ _ hDefined _ _ hType =>
    refine ⟨fun h => absurd h hDefined, ?_⟩
    rintro ⟨f, hEq, hHeaders, -⟩
    exact absurd hHeaders (hType f hEq).2.1
  | drain | sendHeaders => simp
  | sendData h => cases h <;> simp

/-! ### Along a run -/

theorem step_cases (t : Step) : Outcome t.before t.call t.next t.result := apply_cases t.before t.call

theorem mem_steps {t : Step} (h : t ∈ steps start calls) :
    ∃ past, t.call :: past <:+ calls ∧ t.before = after start past := by
  induction calls with
  | nil => cases h
  | cons call past ih =>
    rcases List.mem_cons.mp h with rfl | h
    · exact ⟨past, List.suffix_refl _, rfl⟩
    · obtain ⟨earlier, hSuffix, hBefore⟩ := ih h
      exact ⟨earlier, hSuffix.trans (List.suffix_cons call past), hBefore⟩

/-- What holds at the start and is kept by the steps of a run holds at every moment of the run. -/
theorem invariant_of_steps {start : Http2Handler} {P : Http2Handler → Prop} (hStart : P start)
    {calls : List Call} (hStep : ∀ t ∈ steps start calls, P t.before → P t.next) :
    ∀ past, past <:+ calls → P (after start past) := by
  induction calls with
  | nil =>
    intro past hPast
    rw [List.suffix_nil.mp hPast]
    exact hStart
  | cons call earlier ih =>
    have hEarlier := ih fun t ht => hStep t (List.mem_cons_of_mem _ ht)
    intro past hPast
    rcases List.suffix_cons_iff.mp hPast with rfl | hPast
    · exact hStep ⟨after start earlier, call⟩ List.mem_cons_self
        (hEarlier earlier (List.suffix_refl _))
    · exact hEarlier past hPast

theorem forall_suffix_cons {P : Call → List Call → Prop} (latest : Call) (earlier : List Call) :
    (∀ call past, call :: past <:+ latest :: earlier → P call past) ↔
      P latest earlier ∧ ∀ call past, call :: past <:+ earlier → P call past := by
  constructor
  · intro h
    exact ⟨h latest earlier (List.suffix_refl _),
      fun call past hSuffix => h call past (hSuffix.trans (List.suffix_cons _ _))⟩
  · rintro ⟨hLatest, hEarlier⟩ call past hSuffix
    rcases List.suffix_cons_iff.mp hSuffix with hEq | hSuffix
    · cases hEq
      exact hLatest
    · exact hEarlier call past hSuffix

theorem mem_steps_iff {P : Step → Prop} : (∀ t ∈ steps start calls, P t) ↔
      ∀ call past, call :: past <:+ calls → P ⟨after start past, call⟩ := by
  induction calls with
  | nil => simp [steps]
  | cons latest earlier ih => rw [forall_suffix_cons, ← ih, steps, List.forall_mem_cons]

theorem Step.received_eq_some {t : Step} : f ∈ t.received ↔ t.call = .handleFrame f := by
  unfold Step.received
  cases t.call <;> simp

theorem Accepted.defined (hAlive : Accepted start calls) (t : Step) (ht : t ∈ steps start calls) :
    t.result ≠ .undefined := by
  intro hUndefined
  obtain ⟨f, hCall, -⟩ := (step_cases t).undefined_iff.mp hUndefined
  have hOk := hAlive t ht (by simp [Step.received, hCall])
  rw [hUndefined] at hOk
  cases hOk

theorem Accepted.cons {past : List Call} (hAlive : Accepted start (call :: past)) :
    Accepted start past ∧ ∀ f, call = .handleFrame f → (Step.mk (after start past) call).result = .ok := by
  refine ⟨fun t ht => hAlive t (List.mem_cons_of_mem _ ht), ?_⟩
  rintro f rfl
  exact hAlive _ List.mem_cons_self (by simp [Step.received])

/-- The steps since the present stream with this id was created, latest first. -/
def incarnation (sid : UInt32) (past : List Step) : List Step :=
  past.takeWhile fun t => sid ∈ t.next.streams

theorem incarnation_of_notMem {past : List Call} (hGone : sid ∉ (after start past).streams) :
    incarnation sid (steps start past) = [] := by
  cases past with
  | nil => rfl
  | cons call earlier => exact List.takeWhile_cons_of_neg (mt of_decide_eq_true hGone)

theorem incarnation_cons {t : Step} {past : List Step} (hLive : sid ∈ t.next.streams) :
    incarnation sid (t :: past) = t :: incarnation sid past :=
  List.takeWhile_cons_of_pos (decide_eq_true hLive)

/-! ### Looking up a stream that was stored or dropped -/

section

variable {β : Type} {table : AList (fun _ : UInt32 => β)} {other : UInt32} {stored value : β}

theorem mem_of_lookup (h : table.lookup sid = some value) : sid ∈ table := by
  rw [← lookup_isSome, h]
  rfl

theorem lookup_insert_cases (h : (table.insert other stored).lookup sid = some value) :
    sid = other ∧ value = stored ∨ sid ≠ other ∧ table.lookup sid = some value := by
  by_cases hSid : sid = other
  · subst hSid
    rw [lookup_insert, Option.some.injEq] at h
    exact .inl ⟨rfl, h.symm⟩
  · rw [lookup_insert_ne hSid] at h
    exact .inr ⟨hSid, h⟩

theorem lookup_erase_cases (h : (table.erase other).lookup sid = some value) :
    sid ≠ other ∧ table.lookup sid = some value := by
  by_cases hSid : sid = other
  · subst hSid
    rw [lookup_erase] at h
    cases h
  · rw [lookup_erase_ne hSid] at h
    exact ⟨hSid, h⟩

end

theorem ended_windows (f : Http2Frame) (stream : Http2Stream) :
    (ended f stream).recvWindow = stream.recvWindow ∧ (ended f stream).sendWindow = stream.sendWindow := by
  unfold ended
  split_ifs <;> exact ⟨rfl, rfl⟩

theorem endLocal_windows (stream : Http2Stream) :
    (endLocal stream).recvWindow = stream.recvWindow ∧ (endLocal stream).sendWindow = stream.sendWindow := by
  unfold endLocal
  split <;> exact ⟨rfl, rfl⟩

/-! ### The set of streams -/

inductive StreamsChange (s : Http2Handler) : AList (fun _ : UInt32 => Http2Stream) → Prop
  | kept {streams} (hKeys : streams.keys.Perm s.streams.keys) : StreamsChange s streams
  | stored (sid : UInt32) (stream : Http2Stream) (hAdmits : Admits s sid)
      (hNew : s.streams.lookup sid = none → sid ≠ 0) : StreamsChange s (s.streams.insert sid stream)
  | dropped (sid : UInt32) : StreamsChange s (s.streams.erase sid)

theorem Outcome.streams_change (h : Outcome s call t r) (hDefined : r ≠ .undefined) : StreamsChange s t.streams := by
  have hSame : StreamsChange s s.streams := .kept (List.Perm.refl _)
  have hKnown : ∀ {sid old}, s.streams.lookup sid = some old →
      ∀ stream, StreamsChange s (s.streams.insert sid stream) := by
    intro sid old hOld stream
    refine .stored sid stream ?_ ?_ <;> simp [Admits, hOld]
  cases h with
  | settings hType h => exact .kept h.resettled.keys
  | headers hType h =>
    cases h with
    | overrun => exact absurd rfl hDefined
    | onZero | refused => exact hSame
    | malformed hSid hAdmits | tooLarge _ _ hSid hAdmits | buffered _ _ hSid hAdmits | complete _ _ hSid hAdmits =>
      exact .stored _ _ hAdmits fun _ => hSid
  | continuation hType h =>
    cases h with
    | complete _ _ _ _ _ hStream => exact hKnown hStream _
    | _ => exact hSame
  | data hType h =>
    cases h with
    | onZero | unknown => exact hSame
    | streamUnderflow | bodyTooLarge => exact .dropped _
    | connectionUnderflow _ _ hStream | malformed _ _ hStream | ended _ _ _ hStream | collected _ _ _ hStream =>
      exact hKnown hStream _
  | rstStream hType h => cases h <;> exact .dropped _
  | windowUpdate hType h =>
    cases h with
    | streamOverflow => exact .dropped _
    | stream _ _ _ hStream => exact hKnown hStream _
    | _ => exact hSame
  | other | drain => exact hSame
  | @sendHeaders _ _ _ endStream _ h =>
    cases h with
    | unknown => exact hSame
    | known _ hStream =>
      cases endStream with
      | false => exact hSame
      | true => exact hKnown hStream _
  | sendData h =>
    cases h with
    | known _ hStream => exact hKnown hStream _
    | _ => exact hSame

theorem Outcome.lookup_zero (h : Outcome s call t r) (hDefined : r ≠ .undefined) (hNone : s.streams.lookup 0 = none) :
    t.streams.lookup 0 = none := by
  have hChange := h.streams_change hDefined
  generalize t.streams = streams at hChange ⊢
  rw [lookup_eq_none]
  intro hIn
  cases hChange with
  | kept hKeys => exact lookup_eq_none.mp hNone (hKeys.mem_iff.mp hIn)
  | stored sid stream _ hNew =>
    rcases (mem_insert _).mp hIn with rfl | hIn
    · exact hNew hNone rfl
    · exact lookup_eq_none.mp hNone hIn
  | dropped sid => exact lookup_eq_none.mp hNone (mem_erase.mp hIn).2

end QbuemStack.Http2
