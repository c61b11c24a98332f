import QbuemStack.Ws.Frame

/-! A connection of `WsServer`, driven by one reactor thread. The results of reads, writes and time
are inputs; the callbacks of the application may call back into the connection. -/
namespace QbuemStack.Ws

open Octets

structure WsServerConfig where
  maxMessageSize : Nat := 16 * 1024 * 1024
  maxSendQueue : Nat := 8 * 1024 * 1024
  pingIntervalMs : Nat := 30000
  pongTimeoutMs : Nat := 10000
  validateUtf8 : Bool := true

namespace WsCloseCode

def normal : UInt16 := 1000
def goingAway : UInt16 := 1001
def protocolError : UInt16 := 1002
def abnormalClosure : UInt16 := 1006
def invalidPayload : UInt16 := 1007
def messageTooBig : UInt16 := 1009
def tryAgainLater : UInt16 := 1013

end WsCloseCode

inductive WsError
  | noBufferSpace | timedOut | readFailed | writeFailed
  deriving DecidableEq

inductive Event
  | message (isText : Bool) (data : Bytes)
  | error (cause : WsError)
  | closed (code : UInt16)
  deriving DecidableEq

inductive AppCall
  | send (isText : Bool) (payload : Bytes)
  | close (code : UInt16) (reason : Bytes)
  deriving DecidableEq

structure App where
  onMessage : List Event → List AppCall := fun _ => []
  onError : List Event → List AppCall := fun _ => []

inductive WriteResult
  | sent (count : Nat) | wouldBlock | failed
  deriving DecidableEq

inductive ReadResult
  | data (bytes : Bytes) | wouldBlock | eof | failed
  deriving DecidableEq

inductive TimerKind
  | ping | pong
  deriving DecidableEq

structure Timer where
  id : Nat
  kind : TimerKind
  deadline : Nat
  deriving DecidableEq

structure WsConnection where
  opened : Bool := false
  closing : Bool := false
  finished : Bool := false
  readArmed : Bool := false
  writeArmed : Bool := false
  awaitingPong : Bool := false
  closeCode : UInt16 := WsCloseCode.normal
  pingTimerId : Option Nat := none
  pongTimerId : Option Nat := none
  rbuf : Bytes := []
  assembly : Bytes := []
  fragOpcode : UInt8 := 0
  sbuf : Bytes := []
  ssent : Nat := 0
  now : Nat := 0
  timers : List Timer := []
  nextTimerId : Nat := 0
  writes : List WriteResult := []
  wire : Bytes := []
  log : List Event := []
  accepted : List (Opcode × Bytes) := []
  closedWith : Option UInt16 := none
  pings : List Nat := []
  pongs : List Nat := []

namespace WsConnection

/-! ### The reactor and the socket -/

def unregisterTimer (id : Option Nat) (timers : List Timer) : List Timer :=
  timers.filter fun t => some t.id ≠ id

def registerTimer (c : WsConnection) (kind : TimerKind) (timeoutMs : Nat) : WsConnection :=
  { c with timers := c.timers ++ [⟨c.nextTimerId, kind, c.now + timeoutMs⟩], nextTimerId := c.nextTimerId + 1 }

/-- A write never reports more than `size` bytes. A socket without a result to come is full. -/
def nextWrite (c : WsConnection) (size : Nat) : WriteResult :=
  match c.writes with
  | [] => .wouldBlock
  | .sent count :: _ => .sent (min count size)
  | result :: _ => result

def popWrite (c : WsConnection) : WsConnection := { c with writes := c.writes.tail }

/-! ### Teardown -/

def finishClose (code : UInt16) (c : WsConnection) : WsConnection :=
  if c.finished then c
  else
    { c with
      finished := true
      closing := true
      opened := false
      readArmed := false
      writeArmed := false
      timers := unregisterTimer c.pongTimerId (unregisterTimer c.pingTimerId c.timers)
      pingTimerId := none
      pongTimerId := none
      log := c.log ++ [.closed code] }

section Callbacks

variable (cfg : WsServerConfig) (react : WsConnection → WsConnection)

def reportError (cause : WsError) (c : WsConnection) : WsConnection :=
  react { c with log := c.log ++ [.error cause] }

/-! ### Send path -/

def rawAppend (bytes : Bytes) (c : WsConnection) : WsConnection := { c with sbuf := c.sbuf ++ bytes }

def armWrite (c : WsConnection) : WsConnection :=
  if c.writeArmed || c.finished then c else { c with writeArmed := true }

def bufferTail (hdr payload : Bytes) (sent : Nat) (c : WsConnection) : WsConnection :=
  if sent < hdr.length then (c.rawAppend (hdr.drop sent)).rawAppend payload
  else c.rawAppend (payload.drop (sent - hdr.length))

def accept (op : Opcode) (payload : Bytes) (c : WsConnection) : WsConnection :=
  { c with accepted := c.accepted ++ [(op, payload)] }

def sendFrame (op : Opcode) (payload : Bytes) (c : WsConnection) : WsConnection × Bool :=
  if c.finished then (c, false)
  else
    let hdr := encodeHeader op payload.length
    let pending := c.sbuf.length - c.ssent
    let need := hdr.length + payload.length
    if cfg.maxSendQueue < pending + need then
      ((c.reportError react .noBufferSpace).finishClose WsCloseCode.tryAgainLater, false)
    else if pending = 0 ∧ c.writeArmed = false then
      match c.nextWrite need with
      | .sent n =>
        let c := c.popWrite.accept op payload
        let c := { c with wire := c.wire ++ (hdr ++ payload).take n }
        if n = need then (c, true) else ((c.bufferTail hdr payload n).armWrite, true)
      | .wouldBlock => ((((c.popWrite.accept op payload).rawAppend hdr).rawAppend payload).armWrite, true)
      | .failed =>
        ((c.popWrite.reportError react .writeFailed).finishClose WsCloseCode.abnormalClosure, false)
    else ((((c.accept op payload).rawAppend hdr).rawAppend payload).armWrite, true)

def closePayload (code : UInt16) (reason : Bytes) : Bytes :=
  UInt8.ofNat (code.toNat / 2 ^ 8) :: UInt8.ofNat code.toNat :: reason.take 123

def beginClose (code : UInt16) (reason : Bytes) (c : WsConnection) : WsConnection :=
  if c.closing || c.finished then c
  else
    let c := { c with closing := true, closeCode := code, closedWith := some code, readArmed := false }
    let c := (c.sendFrame cfg react .close (closePayload code reason)).1
    if c.finished = false ∧ c.sbuf.length = c.ssent ∧ c.writeArmed = false then c.finishClose code else c

def sendUser (op : Opcode) (payload : Bytes) (c : WsConnection) : WsConnection :=
  if c.finished || c.closing then c else (c.sendFrame cfg react op payload).1

end Callbacks

end WsConnection

def AppCall.run (cfg : WsServerConfig) (react : WsConnection → WsConnection) (call : AppCall)
    (c : WsConnection) : WsConnection :=
  match call with
  | .send isText payload => c.sendUser cfg react (if isText then .text else .binary) payload
  | .close code reason => c.beginClose cfg react code reason

def runCalls (cfg : WsServerConfig) (react : WsConnection → WsConnection) (calls : List AppCall)
    (c : WsConnection) : WsConnection :=
  calls.foldl (fun c call => call.run cfg react c) c

def App.react (app : App) (cfg : WsServerConfig) : Nat → WsConnection → WsConnection
  | 0, c => c
  | depth + 1, c => runCalls cfg (app.react cfg depth) (app.onError c.log) c

namespace WsConnection

section Driver

variable (cfg : WsServerConfig) (app : App) (depth : Nat)

/-! ### Heartbeat -/

def armPing (c : WsConnection) : WsConnection :=
  if c.finished || c.closing then c
  else if cfg.pingIntervalMs = 0 then c
  else { c.registerTimer .ping cfg.pingIntervalMs with pingTimerId := some c.nextTimerId }

def onPingTick (c : WsConnection) : WsConnection :=
  let c := { c with pingTimerId := none }
  if c.finished || c.closing then c
  else
    let c := (c.sendFrame cfg (app.react cfg depth) .ping []).1
    if c.finished || c.closing then c
    else
      let c := { c with awaitingPong := true, pings := c.pings ++ [c.now] }
      let c := { c.registerTimer .pong cfg.pongTimeoutMs with pongTimerId := some c.nextTimerId }
      c.armPing cfg

def onPongTimeout (c : WsConnection) : WsConnection :=
  let c := { c with pongTimerId := none }
  if c.awaitingPong && !c.finished && !c.closing then
    (c.reportError (app.react cfg depth) .timedOut).finishClose WsCloseCode.goingAway
  else c

def onPong (c : WsConnection) : WsConnection :=
  { c with
    awaitingPong := false
    timers := unregisterTimer c.pongTimerId c.timers
    pongTimerId := none
    pongs := c.pongs ++ [c.now] }

/-! ### Read path -/

def deliver (data : Bytes) (isText : Bool) (c : WsConnection) : WsConnection × Bool :=
  if isText && cfg.validateUtf8 && !wsIsValidUtf8 data then
    (c.beginClose cfg (app.react cfg depth) WsCloseCode.invalidPayload [], false)
  else
    let c := { c with log := c.log ++ [.message isText data] }
    let c := runCalls cfg (app.react cfg depth) (app.onMessage c.log) c
    (c, !c.closing && !c.finished)

def handleData (frame : WsFrame) (c : WsConnection) : WsConnection × Bool :=
  let fail := fun code => (c.beginClose cfg (app.react cfg depth) code [], false)
  if frame.opcode = .continuation then
    if c.fragOpcode = 0 then fail WsCloseCode.protocolError
    else if cfg.maxMessageSize < c.assembly.length + frame.payload.length then fail WsCloseCode.messageTooBig
    else
      let c := { c with assembly := c.assembly ++ frame.payload }
      if frame.fin then
        let isText : Bool := c.fragOpcode = Opcode.text.code
        let result := { c with fragOpcode := 0 }.deliver cfg app depth c.assembly isText
        ({ result.1 with assembly := [] }, result.2)
      else (c, true)
  else if c.fragOpcode ≠ 0 then fail WsCloseCode.protocolError
  else if cfg.maxMessageSize < frame.payload.length then fail WsCloseCode.messageTooBig
  else if frame.fin then c.deliver cfg app depth frame.payload (frame.opcode = .text)
  else ({ c with fragOpcode := frame.opcode.code, assembly := frame.payload }, true)

def receivedCode (payload : Bytes) : UInt16 :=
  match payload with
  | hi :: lo :: _ => UInt16.ofNat (hi.toNat * 2 ^ 8 + lo.toNat)
  | _ => WsCloseCode.normal

def handleFrame (frame : WsFrame) (c : WsConnection) : WsConnection × Bool :=
  let fail := fun code => (c.beginClose cfg (app.react cfg depth) code [], false)
  let isControl : Bool := frame.opcode = .close ∨ frame.opcode = .ping ∨ frame.opcode = .pong
  let isData : Bool := frame.opcode = .continuation ∨ frame.opcode = .text ∨ frame.opcode = .binary
  if frame.rsv1 || frame.rsv2 || frame.rsv3 then fail WsCloseCode.protocolError
  else if !frame.masked then fail WsCloseCode.protocolError
  else if !isControl && !isData then fail WsCloseCode.protocolError
  else if isControl && (!frame.fin || 125 < frame.payload.length) then fail WsCloseCode.protocolError
  else
    match frame.opcode with
    | .ping =>
      let c := (c.sendFrame cfg (app.react cfg depth) .pong frame.payload).1
      (c, !c.finished)
    | .pong => (c.onPong, true)
    | .close => fail (receivedCode frame.payload)
    | _ => c.handleData cfg app depth frame

/-- At most one round for each byte. The buffer is compacted only when the loop ends at an
incomplete frame. -/
def drainLoop : Nat → Bytes → WsConnection → WsConnection
  | 0, data, c => { c with rbuf := data }
  | fuel + 1, data, c =>
    match decodeFrame data with
    | .incomplete => { c with rbuf := data }
    | .messageSize => c.beginClose cfg (app.react cfg depth) WsCloseCode.messageTooBig []
    | .frame frame consumed =>
      let result := c.handleFrame cfg app depth frame
      if result.2 = false then result.1
      else if result.1.closing || result.1.finished then result.1
      else drainLoop fuel (data.drop consumed) result.1

def drainFrames (c : WsConnection) : WsConnection := drainLoop cfg app depth c.rbuf.length c.rbuf c

def onReadable (result : ReadResult) (c : WsConnection) : WsConnection :=
  if c.closing || c.finished then c
  else
    match result with
    | .wouldBlock => c
    | .eof | .failed =>
      (c.reportError (app.react cfg depth) .readFailed).finishClose WsCloseCode.abnormalClosure
    | .data bytes => { c with rbuf := c.rbuf ++ bytes }.drainFrames cfg app depth

/-! ### Write path -/

def writeLoop : Nat → WsConnection → WsConnection × Bool
  | 0, c => (c, true)
  | fuel + 1, c =>
    if c.ssent < c.sbuf.length then
      let fail := ((c.popWrite.reportError (app.react cfg depth) .writeFailed).finishClose
        WsCloseCode.abnormalClosure, false)
      match c.nextWrite (c.sbuf.length - c.ssent) with
      | .sent n =>
        if n = 0 then fail
        else writeLoop fuel { c.popWrite with
          wire := c.wire ++ slice c.sbuf c.ssent n
          ssent := c.ssent + n }
      | .wouldBlock => (c.popWrite, false)
      | .failed => fail
    else (c, true)

def onWritable (c : WsConnection) : WsConnection :=
  if c.finished then c
  else
    match writeLoop cfg app depth (c.sbuf.length - c.ssent) c with
    | (c, false) => c
    | (c, true) =>
      let c := { c with sbuf := [], ssent := 0, writeArmed := false }
      if c.closing then c.finishClose c.closeCode else c

/-! ### Runs -/

def queueHandshake (response : Bytes) (c : WsConnection) : WsConnection := (c.rawAppend response).armWrite

def start (c : WsConnection) : WsConnection := { c with opened := true, readArmed := true }.armPing cfg

def served (response : Bytes) (writes : List WriteResult) : WsConnection :=
  ({ writes := writes : WsConnection }.queueHandshake response).start cfg

def sampleResponse : Bytes :=
  ascii "HTTP/1.1 101 Switching Protocols\r\nUpgrade: websocket\r\nConnection: Upgrade\r\n" ++
    ascii "Sec-WebSocket-Accept: s3pPLMBiTxaQ9kYGzzhZRbK+xOo=\r\n\r\n"

inductive Input
  | readable (result : ReadResult)
  | writable
  | timer (id : Nat)
  | call (call : AppCall)
  | elapse (ms : Nat)
  | shutdown
  deriving DecidableEq

def fire (id : Nat) (c : WsConnection) : WsConnection :=
  match c.timers.find? fun t => t.id = id with
  | none => c
  | some t =>
    if c.now < t.deadline then c
    else
      let c := { c with timers := unregisterTimer (some id) c.timers }
      match t.kind with
      | .ping => c.onPingTick cfg app depth
      | .pong => c.onPongTimeout cfg app depth

def step (input : Input) (c : WsConnection) : WsConnection :=
  match input with
  | .readable result => if c.readArmed then c.onReadable cfg app depth result else c
  | .writable => if c.writeArmed then c.onWritable cfg app depth else c
  | .timer id => c.fire cfg app depth id
  | .call call => call.run cfg (app.react cfg depth) c
  | .elapse ms => { c with now := c.now + ms }
  | .shutdown => c.finishClose WsCloseCode.goingAway

def after (c : WsConnection) : List Input → WsConnection
  | [] => c
  | input :: past => (after c past).step cfg app depth input

end Driver

end WsConnection

structure Step where
  before : WsConnection
  input : WsConnection.Input

namespace WsConnection

def steps (cfg : WsServerConfig) (app : App) (depth : Nat) (c : WsConnection) : List Input → List Step
  | [] => []
  | input :: past => ⟨after cfg app depth c past, input⟩ :: steps cfg app depth c past

end WsConnection

end QbuemStack.Ws
