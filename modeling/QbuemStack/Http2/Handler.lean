import Mathlib.Data.List.AList
import QbuemStack.Http2.Hpack

/-! The HTTP/2 connection handler as a state machine. The code awaits only its own helpers, so a
call is one step; the detached task of the request handler appears as the calls it makes later. -/
namespace QbuemStack.Http2

open Octets Http

inductive Http2FrameType
  | data | headers | priority | rstStream | settings | pushPromise | ping | goaway
  | windowUpdate | continuation
  | unknown (code : UInt8)
  deriving DecidableEq

def Http2FrameType.toByte : Http2FrameType → UInt8
  | data => 0x0
  | headers => 0x1
  | priority => 0x2
  | rstStream => 0x3
  | settings => 0x4
  | pushPromise => 0x5
  | ping => 0x6
  | goaway => 0x7
  | windowUpdate => 0x8
  | continuation => 0x9
  | unknown code => code

structure Http2Frame where
  length : UInt32 := 0
  type : Http2FrameType := .data
  flags : UInt8 := 0
  streamId : UInt32 := 0
  payload : Bytes := []
  deriving DecidableEq

def flagEndStream : UInt8 := 0x1
def flagEndHeaders : UInt8 := 0x4
def flagAck : UInt8 := 0x1
def flagPadded : UInt8 := 0x8
def flagPriority : UInt8 := 0x20

def Http2Frame.has (f : Http2Frame) (flag : UInt8) : Bool := f.flags &&& flag != 0

inductive StreamState
  | idle | opened | halfClosedLocal | halfClosedRemote | closed
  deriving DecidableEq

structure Http2Stream where
  id : UInt32 := 0
  state : StreamState := .idle
  requestHeaders : HeaderMap := .empty
  requestBody : Bytes := []
  sendWindow : Int := 65535
  recvWindow : Int := 65535
  deriving DecidableEq

inductive Errc
  | protocolError | connectionAborted | messageSize | operationWouldBlock
  deriving DecidableEq

inductive Result
  | ok
  | error (code : Errc)
  | undefined
  deriving DecidableEq

structure Invocation where
  headers : HeaderMap
  body : Bytes
  streamId : UInt32
  deriving DecidableEq

def maxWindow : Int := 0x7FFFFFFF
def minMaxFrameSize : Nat := 16384
def maxAllowedFrameSize : Nat := 16777215
def maxConcurrentStreams : Nat := 128
def maxRequestBody : Nat := 8 * 1024 * 1024
def maxHeaderBlock : Nat := 64 * 1024
def maxRstStreams : UInt32 := 200
def defaultHeaderTableSize : Nat := 4096
def defaultMaxFrameSize : Nat := 16384
def defaultInitialWindowSize : Nat := 65535

/-- The order in which the maps are enumerated is seen only by a SETTINGS frame that fails halfway. -/
structure Http2Handler where
  handler : Bool := true
  streams : AList (fun _ : UInt32 => Http2Stream) := ∅
  pendingFrames : List Http2Frame := []
  lastStreamId : UInt32 := 0
  continuationBuffer : AList (fun _ : UInt32 => Bytes) := ∅
  connSendWindow : Int := 65535
  connRecvWindow : Int := 65535
  peerInitialWindowSize : Nat := 65535
  peerMaxFrameSize : Nat := 16384
  peerHeaderTableSize : Nat := 4096
  peerSettingsReceived : Bool := false
  rstStreamCount : UInt32 := 0
  invocations : List Invocation := []
  deriving DecidableEq

def appendUint16 (val : Nat) : Bytes := [UInt8.ofNat (val / 2 ^ 8), UInt8.ofNat val]

def appendUint32 (val : Nat) : Bytes :=
  [UInt8.ofNat (val / 2 ^ 24), UInt8.ofNat (val / 2 ^ 16), UInt8.ofNat (val / 2 ^ 8), UInt8.ofNat val]

def readUint (bytes : Bytes) : Nat := bytes.foldl (fun value byte => value * 2 ^ 8 + byte.toNat) 0

theorem readUint_appendUint32 (val : Nat) (hVal : val < 2 ^ 32) : readUint (appendUint32 val) = val := by
  simp only [readUint, appendUint32, List.foldl_cons, List.foldl_nil, UInt8.toNat_ofNat']
  omega

namespace Http2Handler

def putStream (s : Http2Handler) (sid : UInt32) (stream : Http2Stream) : Http2Handler :=
  { s with streams := s.streams.insert sid stream }

def dropStream (s : Http2Handler) (sid : UInt32) : Http2Handler :=
  { s with streams := s.streams.erase sid }

def pendingBlock (s : Http2Handler) (sid : UInt32) : Bytes := (s.continuationBuffer.lookup sid).getD []

def putBlock (s : Http2Handler) (sid : UInt32) (block : Bytes) : Http2Handler :=
  { s with continuationBuffer := s.continuationBuffer.insert sid block }

def dropBlock (s : Http2Handler) (sid : UInt32) : Http2Handler :=
  { s with continuationBuffer := s.continuationBuffer.erase sid }

def pushFrame (s : Http2Handler) (f : Http2Frame) : Http2Handler :=
  { s with pendingFrames := s.pendingFrames ++ [f] }

/-! ### Frames the handler sends on its own account -/

def sendSettings (s : Http2Handler) (ack : Bool) : Http2Handler :=
  if ack then s.pushFrame { type := .settings, flags := flagAck }
  else
    let p := appendUint16 0x1 ++ appendUint32 defaultHeaderTableSize ++
      (appendUint16 0x5 ++ appendUint32 defaultMaxFrameSize) ++
      (appendUint16 0x4 ++ appendUint32 defaultInitialWindowSize)
    s.pushFrame { type := .settings, payload := p, length := UInt32.ofNat p.length }

def sendPing (s : Http2Handler) (ack : Bool) (opaqueData : Nat) : Http2Handler :=
  s.pushFrame
    { type := .ping, flags := if ack then flagAck else 0, length := 8
      payload := (List.range 8).map fun i => UInt8.ofNat (opaqueData / 2 ^ (8 * (7 - i))) }

def sendGoaway (s : Http2Handler) (lastStreamId : UInt32) (errorCode : Nat) (message : Bytes) :
    Http2Handler :=
  let p := appendUint32 (lastStreamId.toNat % 2 ^ 31) ++ appendUint32 errorCode ++ message
  s.pushFrame { type := .goaway, payload := p, length := UInt32.ofNat p.length }

def sendRstStream (s : Http2Handler) (sid : UInt32) (errorCode : Nat) : Http2Handler :=
  s.pushFrame { type := .rstStream, streamId := sid, length := 4, payload := appendUint32 errorCode }

def sendWindowUpdate (s : Http2Handler) (sid : UInt32) (increment : Nat) : Http2Handler :=
  s.pushFrame
    { type := .windowUpdate, streamId := sid, length := 4, payload := appendUint32 (increment % 2 ^ 31) }

def abort (s : Http2Handler) (errorCode : Nat) (message : String) (code : Errc) :
    Http2Handler × Result :=
  (s.sendGoaway s.lastStreamId errorCode (ascii message), .error code)

def maybeReplenishRecvWindow (s : Http2Handler) (sid : UInt32) (window : Int) : Http2Handler × Int :=
  let target : Int := defaultInitialWindowSize
  if window < target / 2 then
    let incr := ((target - window) % 2 ^ 32).toNat
    (s.sendWindowUpdate sid incr, window + incr)
  else (s, window)

/-! ### SETTINGS -/

def shiftWindows (delta : Int) : List UInt32 → AList (fun _ : UInt32 => Http2Stream) →
    AList (fun _ : UInt32 => Http2Stream) × Bool
  | [], streams => (streams, true)
  | sid :: rest, streams =>
    match streams.lookup sid with
    | none => shiftWindows delta rest streams
    | some stream =>
      let stream := { stream with sendWindow := stream.sendWindow + delta }
      let streams := streams.insert sid stream
      if maxWindow < stream.sendWindow then (streams, false) else shiftWindows delta rest streams

def applySetting (s : Http2Handler) (id val : Nat) : Http2Handler × Result :=
  if id = 0x2 then
    if 1 < val then s.abort 0x1 "ENABLE_PUSH must be 0 or 1" .protocolError else (s, .ok)
  else if id = 0x4 then
    if maxWindow < val then s.abort 0x3 "INITIAL_WINDOW_SIZE exceeds 2^31-1" .protocolError
    else
      let delta : Int := val - s.peerInitialWindowSize
      let (streams, fits) := shiftWindows delta s.streams.keys s.streams
      let s := { s with streams := streams }
      if fits then ({ s with peerInitialWindowSize := val }, .ok)
      else s.abort 0x3 "stream SEND window overflow on SETTINGS" .protocolError
  else if id = 0x5 then
    if val < minMaxFrameSize ∨ maxAllowedFrameSize < val then
      s.abort 0x1 "MAX_FRAME_SIZE out of range" .protocolError
    else ({ s with peerMaxFrameSize := val }, .ok)
  else if id = 0x1 then ({ s with peerHeaderTableSize := val }, .ok)
  else (s, .ok)

def applySettings : Bytes → Http2Handler → Http2Handler × Result
  | a :: b :: c :: d :: e :: g :: rest, s =>
    match s.applySetting (readUint [a, b]) (readUint [c, d, e, g]) with
    | (s, .ok) => applySettings rest s
    | failed => failed
  | _, s => (s, .ok)

def handleSettings (s : Http2Handler) (f : Http2Frame) : Http2Handler × Result :=
  if f.streamId ≠ 0 then s.abort 0x1 "SETTINGS with non-zero stream ID" .protocolError
  else if f.has flagAck then
    if f.payload ≠ [] then s.abort 0x6 "SETTINGS ACK with payload" .protocolError else (s, .ok)
  else if f.payload.length % 6 ≠ 0 then
    s.abort 0x6 "SETTINGS length not a multiple of 6" .protocolError
  else
    match applySettings f.payload s with
    | (s, .ok) => ({ s with peerSettingsReceived := true }.sendSettings true, .ok)
    | failed => failed

/-! ### PING and GOAWAY -/

def handlePing (s : Http2Handler) (f : Http2Frame) : Http2Handler × Result :=
  if f.has flagAck then (s, .ok)
  else (s.sendPing true (if 8 ≤ f.payload.length then readUint (f.payload.take 8) else 0), .ok)

def handleGoaway (s : Http2Handler) (_ : Http2Frame) : Http2Handler × Result :=
  (s, .error .connectionAborted)

/-! ### HEADERS and CONTINUATION -/

def getOrCreateStream (s : Http2Handler) (sid : UInt32) : Http2Stream :=
  (s.streams.lookup sid).getD
    { id := sid, sendWindow := s.peerInitialWindowSize, recvWindow := (defaultInitialWindowSize : Nat) }

/-- `none` is a protocol error. The size is a `size_t`: more padding than payload wraps it. -/
def headerSpan (f : Http2Frame) : Option (Nat × Nat) :=
  let priority := if f.has flagPriority then 5 else 0
  if f.has flagPadded && f.payload.isEmpty then none
  else
    let padLength := if f.has flagPadded then (f.payload.headD 0).toNat else 0
    let offset := if f.has flagPadded then priority + 1 else priority
    if f.payload.length < offset then none
    else
      let payloadEnd := (f.payload.length + 2 ^ 64 - padLength) % 2 ^ 64
      if payloadEnd < offset then none else some (offset, payloadEnd - offset)

def bufferedSize (f : Http2Frame) (cbuf : Bytes) (offset size : Nat) : Nat :=
  if f.payload.length < offset + size then (cbuf.length + size) % 2 ^ 64 else cbuf.length + size

def receiveBlock (stream : Http2Stream) (block : Bytes) : Http2Stream :=
  { stream with
    requestHeaders := (Hpack.decode block).entries.foldl (fun m e => m.set e.1 e.2) stream.requestHeaders
    state := .opened }

def endRemote (s : Http2Handler) (sid : UInt32) (stream : Http2Stream) : Http2Handler :=
  { s.putStream sid { stream with state := .halfClosedRemote } with
    invocations := s.invocations ++
      if s.handler then [⟨stream.requestHeaders, stream.requestBody, sid⟩] else [] }

def finishHeaders (s : Http2Handler) (f : Http2Frame) (stream : Http2Stream) : Http2Handler × Result :=
  let s := if f.has flagEndStream then s.endRemote f.streamId stream else s
  ({ s with lastStreamId := f.streamId }, .ok)

def handleHeaders (s : Http2Handler) (f : Http2Frame) : Http2Handler × Result :=
  let sid := f.streamId
  if sid = 0 then s.abort 0x1 "HEADERS with stream_id == 0" .protocolError
  else if s.streams.lookup sid = none ∧ maxConcurrentStreams ≤ s.streams.keys.length then
    (s.sendRstStream sid 0x7, .ok)
  else
    let stream := s.getOrCreateStream sid
    let s := s.putStream sid stream
    match headerSpan f with
    | none => (s, .error .protocolError)
    | some (offset, size) =>
      if f.has flagEndHeaders then
        if f.payload.length < offset + size then (s, .undefined)
        else
          let stream := receiveBlock stream (slice f.payload offset size)
          (s.putStream sid stream).finishHeaders f stream
      else
        let cbuf := s.pendingBlock sid
        if maxHeaderBlock < bufferedSize f cbuf offset size then
          (s.dropBlock sid).abort 0xb "Header block too large" .messageSize
        else if f.payload.length < offset + size then (s, .undefined)
        else (s.putBlock sid (cbuf ++ slice f.payload offset size)).finishHeaders f stream

def handleContinuation (s : Http2Handler) (f : Http2Frame) : Http2Handler × Result :=
  let sid := f.streamId
  match s.continuationBuffer.lookup sid with
  | none => s.abort 0x1 "Unexpected CONTINUATION frame" .protocolError
  | some buf =>
    if maxHeaderBlock < buf.length + f.payload.length then
      (s.dropBlock sid).abort 0xb "Header block too large" .messageSize
    else
      let buf := buf ++ f.payload
      if f.has flagEndHeaders then
        match s.streams.lookup sid with
        | none => (s.dropBlock sid, .ok)
        | some stream => ((s.putStream sid (receiveBlock stream buf)).dropBlock sid, .ok)
      else (s.putBlock sid buf, .ok)

/-! ### DATA -/

def dataContent (f : Http2Frame) : Option Bytes :=
  if f.has flagPadded then
    match f.payload with
    | [] => none
    | pad :: rest => if rest.length < pad.toNat then none else some (rest.take (rest.length - pad.toNat))
  else some f.payload

def handleData (s : Http2Handler) (f : Http2Frame) : Http2Handler × Result :=
  let sid := f.streamId
  if sid = 0 then s.abort 0x1 "DATA with stream_id == 0" .protocolError
  else
    match s.streams.lookup sid with
    | none => (s.sendRstStream sid 0x1, .ok)
    | some stream =>
      let stream : Http2Stream := { stream with recvWindow := stream.recvWindow - f.payload.length }
      let s : Http2Handler :=
        { s with connRecvWindow := s.connRecvWindow - f.payload.length }.putStream sid stream
      if s.connRecvWindow < 0 then s.abort 0x3 "connection receive window underflow" .protocolError
      else if stream.recvWindow < 0 then ((s.sendRstStream sid 0x3).dropStream sid, .ok)
      else
        let (s, window) := s.maybeReplenishRecvWindow 0 s.connRecvWindow
        let s := { s with connRecvWindow := window }
        match dataContent f with
        | none => (s, .error .protocolError)
        | some content =>
          if maxRequestBody < stream.requestBody.length + content.length then
            ((s.dropStream sid).sendRstStream sid 0xb, .ok)
          else
            let stream := { stream with requestBody := stream.requestBody ++ content }
            if f.has flagEndStream then (s.endRemote sid stream, .ok)
            else
              let (s, window) := s.maybeReplenishRecvWindow sid stream.recvWindow
              (s.putStream sid { stream with recvWindow := window }, .ok)

/-! ### RST_STREAM and WINDOW_UPDATE -/

def handleRstStream (s : Http2Handler) (f : Http2Frame) : Http2Handler × Result :=
  let s := (s.dropStream f.streamId).dropBlock f.streamId
  let s := { s with rstStreamCount := s.rstStreamCount + 1 }
  if maxRstStreams < s.rstStreamCount then
    s.abort 0xb "Excessive RST_STREAM (rapid reset)" .connectionAborted
  else (s, .ok)

def increment (f : Http2Frame) : Nat := readUint f.payload % 2 ^ 31

def handleWindowUpdate (s : Http2Handler) (f : Http2Frame) : Http2Handler × Result :=
  if f.payload.length ≠ 4 then s.abort 0x6 "WINDOW_UPDATE length != 4" .protocolError
  else
    let incr := increment f
    if incr = 0 then
      if f.streamId = 0 then s.abort 0x1 "WINDOW_UPDATE increment 0" .protocolError
      else (s.sendRstStream f.streamId 0x1, .ok)
    else if f.streamId = 0 then
      let s := { s with connSendWindow := s.connSendWindow + incr }
      if maxWindow < s.connSendWindow then
        s.abort 0x3 "connection SEND window overflow" .protocolError
      else (s, .ok)
    else
      match s.streams.lookup f.streamId with
      | none => (s, .ok)
      | some stream =>
        let stream := { stream with sendWindow := stream.sendWindow + incr }
        let s := s.putStream f.streamId stream
        if maxWindow < stream.sendWindow then
          ((s.sendRstStream f.streamId 0x3).dropStream f.streamId, .ok)
        else (s, .ok)

def handleFrame (s : Http2Handler) (f : Http2Frame) : Http2Handler × Result :=
  match f.type with
  | .settings => s.handleSettings f
  | .ping => s.handlePing f
  | .goaway => s.handleGoaway f
  | .headers => s.handleHeaders f
  | .continuation => s.handleContinuation f
  | .data => s.handleData f
  | .rstStream => s.handleRstStream f
  | .windowUpdate => s.handleWindowUpdate f
  | .priority => (s, .ok)
  | .pushPromise => (s, .ok)
  | .unknown _ => (s, .ok)

/-! ### Answers -/

def endLocal (stream : Http2Stream) : Http2Stream :=
  match stream.state with
  | .opened => { stream with state := .halfClosedLocal }
  | .halfClosedRemote => { stream with state := .closed }
  | _ => stream

def headersFrame (order : MapOrder) (sid : UInt32) (headers : HeaderMap) (endStream : Bool) : Http2Frame :=
  let encoded := Hpack.encode order headers
  { type := .headers, streamId := sid
    flags := if endStream then flagEndHeaders ||| flagEndStream else flagEndHeaders
    payload := encoded, length := UInt32.ofNat encoded.length }

def sendHeaders (s : Http2Handler) (order : MapOrder) (sid : UInt32) (headers : HeaderMap)
    (endStream : Bool) : Http2Handler × Result :=
  let s := s.pushFrame (headersFrame order sid headers endStream)
  match s.streams.lookup sid with
  | none => (s, .ok)
  | some stream => (if endStream then s.putStream sid (endLocal stream) else s, .ok)

def dataFrame (sid : UInt32) (data : Bytes) (endStream : Bool) : Http2Frame :=
  { type := .data, streamId := sid, flags := if endStream then flagEndStream else 0
    payload := data, length := UInt32.ofNat data.length }

def streamCredit (s : Http2Handler) (sid : UInt32) : Int :=
  (s.streams.lookup sid).elim maxWindow Http2Stream.sendWindow

def sendData (s : Http2Handler) (sid : UInt32) (data : Bytes) (endStream : Bool) :
    Http2Handler × Result :=
  let spent : Int := data.length
  if s.connSendWindow < spent ∨ s.streamCredit sid < spent then (s, .error .operationWouldBlock)
  else
    let s := { s with connSendWindow := s.connSendWindow - spent }.pushFrame (dataFrame sid data endStream)
    match s.streams.lookup sid with
    | none => (s, .ok)
    | some stream =>
      let stream := { stream with sendWindow := stream.sendWindow - spent }
      (s.putStream sid (if endStream then endLocal stream else stream), .ok)

end Http2Handler

def serializeFrame (f : Http2Frame) : Bytes :=
  let length := f.length.toNat
  let sid := f.streamId.toNat % 2 ^ 31
  [UInt8.ofNat (length / 2 ^ 16), UInt8.ofNat (length / 2 ^ 8), UInt8.ofNat length, f.type.toByte,
    f.flags] ++ appendUint32 sid ++ f.payload

/-! ### Runs -/

inductive Call
  | handleFrame (f : Http2Frame)
  | sendHeaders (order : MapOrder) (sid : UInt32) (headers : HeaderMap) (endStream : Bool)
  | sendData (sid : UInt32) (data : Bytes) (endStream : Bool)
  | sendSettings (ack : Bool)
  | sendPing (ack : Bool) (opaqueData : Nat)
  | sendGoaway (lastStreamId : UInt32) (errorCode : Nat) (message : Bytes)
  | drainPendingFrames

def Call.apply (s : Http2Handler) : Call → Http2Handler × Result
  | handleFrame f => s.handleFrame f
  | sendHeaders order sid headers endStream => s.sendHeaders order sid headers endStream
  | sendData sid data endStream => s.sendData sid data endStream
  | sendSettings ack => (s.sendSettings ack, .ok)
  | sendPing ack opaqueData => (s.sendPing ack opaqueData, .ok)
  | sendGoaway lastStreamId errorCode message => (s.sendGoaway lastStreamId errorCode message, .ok)
  | drainPendingFrames => ({ s with pendingFrames := [] }, .ok)

def after (start : Http2Handler) : List Call → Http2Handler
  | [] => start
  | call :: past => (call.apply (after start past)).1

structure Step where
  before : Http2Handler
  call : Call

namespace Step

def next (t : Step) : Http2Handler := (t.call.apply t.before).1

def result (t : Step) : Result := (t.call.apply t.before).2

def queued (t : Step) : List Http2Frame :=
  t.next.pendingFrames.drop t.before.pendingFrames.length

def received (t : Step) : Option Http2Frame :=
  match t.call with
  | .handleFrame f => some f
  | _ => none

end Step

def steps (start : Http2Handler) : List Call → List Step
  | [] => []
  | call :: past => ⟨after start past, call⟩ :: steps start past

/-- No received frame has been answered by an error. -/
def Accepted (start : Http2Handler) (calls : List Call) : Prop :=
  ∀ t ∈ steps start calls, t.received ≠ none → t.result = .ok

instance (start : Http2Handler) (calls : List Call) : Decidable (Accepted start calls) :=
  inferInstanceAs (Decidable (∀ t ∈ steps start calls, t.received ≠ none → t.result = .ok))

end QbuemStack.Http2
