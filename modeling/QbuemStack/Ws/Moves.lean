import QbuemStack.Ws.Connection
import Mathlib.Logic.Relation

/-! What a connection can do between two callbacks. Every input is a sequence of such moves, so that
an invariant has to be checked for the moves only. -/
namespace QbuemStack.Ws

open Octets WsConnection Relation.ReflTransGen

/-- A frame is taken: `now` is written at once and `later` is queued. -/
structure Takes (cfg : WsServerConfig) (c : WsConnection) (op : Opcode) (payload now later : Bytes) : Prop where
  split : now ++ later = encodeFrame op payload
  direct : now ≠ [] → c.sbuf.length ≤ c.ssent
  room : c.sbuf.length - c.ssent + (encodeFrame op payload).length ≤ cfg.maxSendQueue

def taken (c : WsConnection) (op : Opcode) (payload now later : Bytes) (armed : Bool)
    (writes : List WriteResult) : WsConnection :=
  { c with
    wire := c.wire ++ now
    sbuf := c.sbuf ++ later
    accepted := c.accepted ++ [(op, payload)]
    writeArmed := armed
    writes := writes }

def closingWith (c : WsConnection) (code : UInt16) : WsConnection :=
  { c with closing := true, closeCode := code, closedWith := some code, readArmed := false }

inductive Act (cfg : WsServerConfig) (c : WsConnection) : WsConnection → Prop
  | send (op : Opcode) (payload now later : Bytes) (armed : Bool) (writes : List WriteResult)
      (hLive : c.finished = false) (hOpen : c.closing = false) (hOp : op ≠ .close)
      (hTakes : Takes cfg c op payload now later) : Act cfg c (taken c op payload now later armed writes)
  | close (code : UInt16) (payload now later : Bytes) (armed : Bool) (writes : List WriteResult)
      (hLive : c.finished = false) (hOpen : c.closing = false) (hTakes : Takes cfg c .close payload now later) :
      Act cfg c (taken (closingWith c code) .close payload now later armed writes)
  | abandon (code : UInt16) (hLive : c.finished = false) (hOpen : c.closing = false) :
      Act cfg c (closingWith c code)
  | error (cause : WsError) (writes : List WriteResult) (hLive : c.finished = false)
      (hCause : cause ≠ .timedOut) : Act cfg c { c with log := c.log ++ [.error cause], writes := writes }
  | finish (code : UInt16) (hLive : c.finished = false) : Act cfg c (c.finishClose code)

inductive Traffic (cfg : WsServerConfig) (writing : Prop) (c : WsConnection) : WsConnection → Prop
  | act {t : WsConnection} (hAct : Act cfg c t) : Traffic cfg writing c t
  | message (isText : Bool) (data : Bytes) (hLive : c.finished = false) (hOpen : c.closing = false) :
      Traffic cfg writing c { c with log := c.log ++ [.message isText data] }
  | received (rbuf assembly : Bytes) (fragOpcode : UInt8) :
      Traffic cfg writing c { c with rbuf := rbuf, assembly := assembly, fragOpcode := fragOpcode }
  | pong (hLive : c.finished = false) (hOpen : c.closing = false) : Traffic cfg writing c c.onPong
  | write (n : Nat) (hWriting : writing) (hLive : c.finished = false) (hInside : c.ssent + n ≤ c.sbuf.length)
      (writes : List WriteResult) :
      Traffic cfg writing c { c with wire := c.wire ++ slice c.sbuf c.ssent n, ssent := c.ssent + n, writes := writes }
  | block (writes : List WriteResult) : Traffic cfg writing c { c with writes := writes }
  | drained (hWriting : writing) (hLive : c.finished = false) (hDone : c.sbuf.length ≤ c.ssent) :
      Traffic cfg writing c { c with sbuf := [], ssent := 0, writeArmed := false }

inductive Move (cfg : WsServerConfig) (c : WsConnection) : WsConnection → Prop
  | traffic {writing : Prop} {t : WsConnection} (hTraffic : Traffic cfg writing c t) : Move cfg c t
  | elapse (ms : Nat) : Move cfg c { c with now := c.now + ms }
  | armPing : Move cfg c { c.registerTimer .ping cfg.pingIntervalMs with pingTimerId := some c.nextTimerId }
  | tick (t : Timer) (hTimer : t ∈ c.timers) (hKind : t.kind = .ping) (hDue : t.deadline ≤ c.now) :
      Move cfg c { c with timers := unregisterTimer (some t.id) c.timers, pingTimerId := none }
  | awaitPong (hLive : c.finished = false) (hOpen : c.closing = false) :
      Move cfg c { c.registerTimer .pong cfg.pongTimeoutMs with
        awaitingPong := true, pings := c.pings ++ [c.now], pongTimerId := some c.nextTimerId }
  | expire (t : Timer) (hTimer : t ∈ c.timers) (hKind : t.kind = .pong) (hDue : t.deadline ≤ c.now)
      (hIdle : c.awaitingPong = true → c.finished = false → c.closing = true) :
      Move cfg c { c with timers := unregisterTimer (some t.id) c.timers, pongTimerId := none }
  | timeOut (t : Timer) (hTimer : t ∈ c.timers) (hKind : t.kind = .pong) (hDue : t.deadline ≤ c.now)
      (hAwaiting : c.awaitingPong = true) (hLive : c.finished = false) (hOpen : c.closing = false) :
      Move cfg c { c with
        timers := unregisterTimer (some t.id) c.timers
        pongTimerId := none
        log := c.log ++ [.error .timedOut] }

abbrev Acts (cfg : WsServerConfig) : WsConnection → WsConnection → Prop := Relation.ReflTransGen (Act cfg)

abbrev Traffics (cfg : WsServerConfig) (writing : Prop) : WsConnection → WsConnection → Prop :=
  Relation.ReflTransGen (Traffic cfg writing)

abbrev Moves (cfg : WsServerConfig) : WsConnection → WsConnection → Prop := Relation.ReflTransGen (Move cfg)

variable {cfg : WsServerConfig} {writing : Prop} {c : WsConnection} {react : WsConnection → WsConnection}

theorem Acts.traffics {t : WsConnection} (h : Acts cfg c t) : Traffics cfg writing c t :=
  mono (fun _ _ => .act) _ _ h

theorem Traffics.moves {t : WsConnection} (h : Traffics cfg writing c t) : Moves cfg c t :=
  mono (fun _ _ => .traffic) _ _ h

theorem Act.move {t : WsConnection} (h : Act cfg c t) : Move cfg c t := .traffic (.act h : Traffic cfg True c t)

theorem Acts.moves {t : WsConnection} (h : Acts cfg c t) : Moves cfg c t := mono (fun _ _ => Act.move) _ _ h

theorem acts_finish (code : UInt16) (c : WsConnection) : Acts cfg c (c.finishClose code) := by
  cases hFinished : c.finished with
  | true =>
    rw [finishClose, if_pos hFinished]
  | false => exact .single (.finish code hFinished)

inductive SendOutcome (cfg : WsServerConfig) (react : WsConnection → WsConnection) (c : WsConnection)
    (op : Opcode) (payload : Bytes) : WsConnection × Bool → Prop
  | finished (hFinished : c.finished = true) : SendOutcome cfg react c op payload (c, false)
  | aborted (cause : WsError) (code : UInt16) (writes : List WriteResult) (hLive : c.finished = false)
      (hCause : cause ≠ .timedOut) :
      SendOutcome cfg react c op payload
        (finishClose code (react { c with log := c.log ++ [.error cause], writes := writes }), false)
  | taken (now later : Bytes) (armed : Bool) (writes : List WriteResult) (hLive : c.finished = false)
      (hTakes : Takes cfg c op payload now later) (hArmed : c.sbuf.length ≤ c.ssent → later ≠ [] → armed = true) :
      SendOutcome cfg react c op payload (Ws.taken c op payload now later armed writes, true)

theorem bufferTail_eq (hdr payload : Bytes) (n : Nat) (c : WsConnection) :
    c.bufferTail hdr payload n = c.rawAppend ((hdr ++ payload).drop n) := by
  unfold bufferTail
  split_ifs with hHeader
  · rw [List.drop_append_of_le_length hHeader.le]
    simp [rawAppend]
  · rw [List.drop_append]
    simp [List.drop_eq_nil_of_le (Nat.not_lt.mp hHeader)]

theorem armWrite_eq (c : WsConnection) (hLive : c.finished = false) : c.armWrite = { c with writeArmed := true } := by
  unfold armWrite
  cases hArmed : c.writeArmed with
  | false => simp [hLive]
  | true => simp [← hArmed]

theorem sendFrame_cases (react : WsConnection → WsConnection) (c : WsConnection) (op : Opcode)
    (payload : Bytes) : SendOutcome cfg react c op payload (c.sendFrame cfg react op payload) := by
  have hNeed : (encodeHeader op payload.length).length + payload.length = (encodeFrame op payload).length := by
    rw [← encodeHeader_append, List.length_append]
  have hBytes : encodeHeader op payload.length ++ payload = encodeFrame op payload :=
    encodeHeader_append op payload
  unfold sendFrame
  simp only [hNeed]
  by_cases hFinished : c.finished = true
  · rw [if_pos hFinished]
    exact .finished hFinished
  have hLive : c.finished = false := by simpa using hFinished
  rw [if_neg hFinished]
  by_cases hFull : cfg.maxSendQueue < c.sbuf.length - c.ssent + (encodeFrame op payload).length
  · rw [if_pos hFull]
    exact .aborted .noBufferSpace _ c.writes hLive (by decide)
  rw [if_neg hFull]
  have hRoom := Nat.not_lt.mp hFull
  have hQueued : ∀ writes, SendOutcome cfg react c op payload
      (((({ c with writes := writes }.accept op payload).rawAppend
        (encodeHeader op payload.length)).rawAppend payload).armWrite, true) := by
    intro writes
    have hTaken := @SendOutcome.taken cfg react c op payload [] (encodeFrame op payload) true writes hLive
      ⟨rfl, fun h => absurd rfl h, hRoom⟩ (fun _ _ => rfl)
    rw [armWrite_eq]
    · simpa [Ws.taken, accept, rawAppend, ← encodeHeader_append] using hTaken
    · exact hLive
  by_cases hDirect : c.sbuf.length - c.ssent = 0 ∧ c.writeArmed = false
  · rw [if_pos hDirect]
    have hEmpty : c.sbuf.length ≤ c.ssent := Nat.sub_eq_zero_iff_le.mp hDirect.1
    cases c.nextWrite (encodeFrame op payload).length with
    | failed => exact .aborted .writeFailed _ c.writes.tail hLive (by decide)
    | wouldBlock => exact hQueued c.writes.tail
    | sent n =>
      simp only [hBytes, bufferTail_eq]
      split_ifs with hAll
      · have hTaken := @SendOutcome.taken cfg react c op payload (encodeFrame op payload) [] c.writeArmed
          c.writes.tail hLive ⟨List.append_nil _, fun _ => hEmpty, hRoom⟩ (fun _ h => absurd rfl h)
        rw [hAll, List.take_length]
        simpa [Ws.taken, accept, popWrite] using hTaken
      · rw [armWrite_eq]
        · exact .taken ((encodeFrame op payload).take n) ((encodeFrame op payload).drop n) true
            c.writes.tail hLive ⟨List.take_append_drop _ _, fun _ => hEmpty, hRoom⟩ (fun _ _ => rfl)
        · exact hLive
  · rw [if_neg hDirect]
    exact hQueued c.writes

section

variable (hReact : ∀ c, Acts cfg c (react c))
include hReact

theorem acts_sendFrame (hOpen : c.closing = false) {op : Opcode} (hOp : op ≠ .close) (payload : Bytes) :
    Acts cfg c (c.sendFrame cfg react op payload).1 := by
  cases hSend : c.sendFrame cfg react op payload with
  | mk t ok =>
  have hCases := @sendFrame_cases cfg react c op payload
  rw [hSend] at hCases
  cases hCases with
  | finished => exact .refl
  | aborted cause code writes hLive hCause =>
    exact (head (.error cause writes hLive hCause) (hReact _)).trans (acts_finish code _)
  | taken now later armed writes hLive hTakes =>
    exact .single (.send op payload now later armed writes hLive hOpen hOp hTakes)

theorem acts_beginClose (code : UInt16) (reason : Bytes) (c : WsConnection) :
    Acts cfg c (c.beginClose cfg react code reason) := by
  unfold beginClose
  by_cases hClosing : (c.closing || c.finished) = true
  · rw [if_pos hClosing]
  rw [if_neg hClosing]
  obtain ⟨hOpen, hLive⟩ : c.closing = false ∧ c.finished = false := by simpa using hClosing
  have hSent : Acts cfg c
      ((closingWith c code).sendFrame cfg react .close (closePayload code reason)).1 := by
    cases hSend : (closingWith c code).sendFrame cfg react .close (closePayload code reason) with
    | mk t ok =>
    have hCases := @sendFrame_cases cfg react (closingWith c code) .close (closePayload code reason)
    rw [hSend] at hCases
    cases hCases with
    | finished hFinished => exact absurd (hLive.symm.trans hFinished) (by decide)
    | aborted cause failure writes _ hCause =>
      refine head (.abandon code hLive hOpen) ?_
      exact (head (.error cause writes hLive hCause) (hReact _)).trans
        (acts_finish failure _)
    | taken now later armed writes _ hTakes =>
      exact .single (.close code _ now later armed writes hLive hOpen ⟨hTakes.split, hTakes.direct, hTakes.room⟩)
  refine hSent.trans ?_
  show Acts cfg _ (if _ then _ else _)
  split_ifs
  · exact acts_finish code _
  · exact .refl

theorem acts_run (call : AppCall) (c : WsConnection) : Acts cfg c (call.run cfg react c) := by
  cases call with
  | send isText payload =>
    show Acts cfg c (c.sendUser cfg react _ payload)
    unfold sendUser
    split_ifs with hClosed hText
    · exact .refl
    all_goals
      have hOpen := (Bool.or_eq_false_iff.mp (Bool.eq_false_iff.mpr hClosed)).2
      exact acts_sendFrame hReact hOpen (by decide) payload
  | close code reason => exact acts_beginClose hReact code reason c

theorem acts_runCalls (calls : List AppCall) (c : WsConnection) : Acts cfg c (runCalls cfg react calls c) := by
  induction calls generalizing c with
  | nil => exact .refl
  | cons call calls ih => exact (acts_run hReact call c).trans (ih _)

end

/-- By induction on how often `on_error` is entered from itself. -/
theorem acts_react (app : App) (depth : Nat) (c : WsConnection) : Acts cfg c (app.react cfg depth c) := by
  induction depth generalizing c with
  | zero => exact .refl
  | succ depth ih => exact acts_runCalls ih _ c

section Inputs

variable (app : App) (depth : Nat)

theorem traffics_deliver {c : WsConnection} (hLive : c.finished = false) (hOpen : c.closing = false)
    (data : Bytes) (isText : Bool) : Traffics cfg writing c (c.deliver cfg app depth data isText).1 := by
  unfold deliver
  split_ifs
  · exact (acts_beginClose (acts_react app depth) _ _ c).traffics
  · exact .head (.message isText data hLive hOpen) (acts_runCalls (acts_react app depth) _ _).traffics

variable {c : WsConnection}

theorem traffics_handleData (hLive : c.finished = false) (hOpen : c.closing = false) (frame : WsFrame) :
    Traffics cfg writing c (c.handleData cfg app depth frame).1 := by
  have hFail : ∀ code, Traffics cfg writing c (c.beginClose cfg (app.react cfg depth) code []) :=
    fun code => (acts_beginClose (acts_react app depth) code [] c).traffics
  unfold handleData
  split_ifs
  any_goals exact hFail _
  · refine (head (.received c.rbuf (c.assembly ++ frame.payload) 0) ?_).trans
      (.single (.received _ [] _))
    exact @traffics_deliver cfg writing app depth
      { c with assembly := c.assembly ++ frame.payload, fragOpcode := 0 } hLive hOpen _ _
  · exact .single (.received c.rbuf _ c.fragOpcode)
  · exact traffics_deliver app depth hLive hOpen _ _
  · exact .single (.received c.rbuf _ _)

theorem traffics_handleFrame {c : WsConnection} (hLive : c.finished = false) (hOpen : c.closing = false)
    (frame : WsFrame) : Traffics cfg writing c (c.handleFrame cfg app depth frame).1 := by
  have hFail : ∀ code, Traffics cfg writing c (c.beginClose cfg (app.react cfg depth) code []) :=
    fun code => (acts_beginClose (acts_react app depth) code [] c).traffics
  unfold handleFrame
  simp only
  split_ifs
  any_goals exact hFail _
  · split
    · exact (acts_sendFrame (acts_react app depth) hOpen (by decide) _).traffics
    · exact .single (.pong hLive hOpen)
    · exact hFail _
    · exact traffics_handleData app depth hLive hOpen frame

theorem traffics_drainLoop (fuel : Nat) (data : Bytes) (hLive : c.finished = false) (hOpen : c.closing = false) :
    Traffics cfg writing c (c.drainLoop cfg app depth fuel data) := by
  induction fuel generalizing data c with
  | zero => exact .single (.received data _ _)
  | succ fuel ih =>
    unfold drainLoop
    cases decodeFrame data with
    | incomplete => exact .single (.received data _ _)
    | messageSize => exact (acts_beginClose (acts_react app depth) _ _ c).traffics
    | frame frame consumed =>
      have hFrame := @traffics_handleFrame cfg writing app depth c hLive hOpen frame
      simp only
      split_ifs with hStop hClosed
      · exact hFrame
      · exact hFrame
      · obtain ⟨hOpen', hLive'⟩ : _ = false ∧ _ = false := by simpa using hClosed
        exact hFrame.trans (ih _ hLive' hOpen')

theorem traffics_onReadable (result : ReadResult) (c : WsConnection) :
    Traffics cfg writing c (c.onReadable cfg app depth result) := by
  unfold onReadable
  split_ifs with hClosed
  · exact .refl
  obtain ⟨hOpen, hLive⟩ : c.closing = false ∧ c.finished = false := by simpa using hClosed
  have hFailed : Traffics cfg writing c
      ((c.reportError (app.react cfg depth) .readFailed).finishClose WsCloseCode.abnormalClosure) :=
    Acts.traffics ((head (.error .readFailed c.writes hLive (by decide))
      (acts_react app depth _)).trans (acts_finish _ _))
  cases result with
  | wouldBlock => exact .refl
  | eof | failed => exact hFailed
  | data bytes =>
    exact .head (.received (c.rbuf ++ bytes) c.assembly c.fragOpcode)
      (traffics_drainLoop app depth _ _ hLive hOpen)

theorem nextWrite_le {size n : Nat} (h : c.nextWrite size = .sent n) : n ≤ size := by
  unfold nextWrite at h
  split at h
  · cases h
  · cases h
    exact min_le_right _ _
  · rename_i hNot _
    exact absurd h (hNot n)

/-- When the loop ends with everything written, the connection is still live and the buffer is
through. -/
theorem traffics_writeLoop (hWriting : writing) (fuel : Nat) {c : WsConnection} (hLive : c.finished = false)
    (hFuel : c.sbuf.length - c.ssent ≤ fuel) :
    let out := writeLoop cfg app depth fuel c
    Traffics cfg writing c out.1 ∧ (out.2 = true → out.1.finished = false ∧ out.1.sbuf.length ≤ out.1.ssent) := by
  induction fuel generalizing c with
  | zero => exact ⟨.refl, fun _ => ⟨hLive, Nat.sub_eq_zero_iff_le.mp (Nat.le_zero.mp hFuel)⟩⟩
  | succ fuel ih =>
    have hFailed : Traffics cfg writing c ((c.popWrite.reportError (app.react cfg depth) .writeFailed).finishClose
        WsCloseCode.abnormalClosure) :=
      Acts.traffics ((head (.error .writeFailed c.writes.tail hLive (by decide))
        (acts_react app depth _)).trans (acts_finish _ _))
    unfold writeLoop
    by_cases hMore : c.ssent < c.sbuf.length
    · rw [if_pos hMore]
      cases hWrite : c.nextWrite (c.sbuf.length - c.ssent) with
      | failed => exact ⟨hFailed, nofun⟩
      | wouldBlock => exact ⟨.single (.block _), nofun⟩
      | sent n =>
        have hSize := nextWrite_le hWrite
        simp only
        split_ifs with hNone
        · exact ⟨hFailed, nofun⟩
        · obtain ⟨hRest, hDone⟩ := @ih { c.popWrite with
            wire := c.wire ++ slice c.sbuf c.ssent n
            ssent := c.ssent + n } hLive (by show c.sbuf.length - (c.ssent + n) ≤ fuel; omega)
          exact ⟨.head (.write n hWriting hLive (by omega) c.writes.tail) hRest, hDone⟩
    · rw [if_neg hMore]
      exact ⟨.refl, fun _ => ⟨hLive, Nat.not_lt.mp hMore⟩⟩

theorem traffics_onWritable (hWriting : writing) (c : WsConnection) :
    Traffics cfg writing c (c.onWritable cfg app depth) := by
  unfold onWritable
  split_ifs with hFinished
  · exact .refl
  have hLive : c.finished = false := by simpa using hFinished
  obtain ⟨hLoop, hDone⟩ := @traffics_writeLoop cfg writing app depth hWriting (c.sbuf.length - c.ssent) c hLive le_rfl
  generalize writeLoop cfg app depth (c.sbuf.length - c.ssent) c = result at hLoop hDone
  obtain ⟨t, drained⟩ := result
  cases drained with
  | false => exact hLoop
  | true =>
    obtain ⟨hLive', hEmpty⟩ := hDone rfl
    have hDrained := hLoop.tail (.drained hWriting hLive' hEmpty)
    simp only
    split_ifs
    · exact hDrained.trans (acts_finish _ _).traffics
    · exact hDrained

theorem moves_armPing (c : WsConnection) : Moves cfg c (c.armPing cfg) := by
  unfold armPing
  split_ifs
  · exact .refl
  · exact .refl
  · exact .single .armPing

inductive TickOutcome (cfg : WsServerConfig) (c : WsConnection) : WsConnection → Prop
  | closed {t : WsConnection} (hActs : Acts cfg c t) : TickOutcome cfg c t
  | sent {d : WsConnection} (hActs : Acts cfg c d) (hOpen : c.closing = false) (hLive : d.finished = false)
      (hStillOpen : d.closing = false) :
      TickOutcome cfg c (armPing cfg { d.registerTimer .pong cfg.pongTimeoutMs with
        awaitingPong := true, pings := d.pings ++ [d.now], pongTimerId := some d.nextTimerId })

theorem onPingTick_cases (c : WsConnection) :
    TickOutcome cfg { c with pingTimerId := none } (c.onPingTick cfg app depth) := by
  unfold onPingTick
  generalize ({ c with pingTimerId := none } : WsConnection) = d
  simp only
  split_ifs with hClosed hEnded
  · exact .closed .refl
  all_goals
    have hOpen : d.closing = false := (Bool.or_eq_false_iff.mp (Bool.eq_false_iff.mpr hClosed)).2
    have hPing : Acts cfg d (d.sendFrame cfg (app.react cfg depth) .ping []).1 :=
      acts_sendFrame (acts_react app depth) hOpen (by decide) []
  · exact .closed hPing
  · obtain ⟨hLive, hStillOpen⟩ := Bool.or_eq_false_iff.mp (Bool.eq_false_iff.mpr hEnded)
    exact .sent hPing hOpen hLive hStillOpen

theorem moves_onPingTick (c : WsConnection) :
    Moves cfg { c with pingTimerId := none } (c.onPingTick cfg app depth) := by
  have hTick := @onPingTick_cases cfg app depth c
  generalize c.onPingTick cfg app depth = t at hTick ⊢
  cases hTick with
  | closed hActs => exact hActs.moves
  | sent hActs _ hLive hStillOpen =>
    exact (hActs.moves.tail (.awaitPong hLive hStillOpen)).trans (moves_armPing _)

theorem moves_fire (id : Nat) (c : WsConnection) : Moves cfg c (c.fire cfg app depth id) := by
  unfold fire
  cases hFind : c.timers.find? fun t => t.id = id with
  | none => exact .refl
  | some t =>
    have hTimer : t ∈ c.timers := List.mem_of_find?_eq_some hFind
    obtain rfl : t.id = id := by simpa using List.find?_some hFind
    simp only
    split_ifs with hEarly
    · exact .refl
    have hDue : t.deadline ≤ c.now := Nat.not_lt.mp hEarly
    cases hKind : t.kind with
    | ping =>
      exact .head (.tick t hTimer hKind hDue)
        (moves_onPingTick app depth { c with timers := unregisterTimer (some t.id) c.timers })
    | pong =>
      simp only [onPongTimeout]
      split_ifs with hDead
      · simp only [Bool.and_eq_true, Bool.not_eq_true'] at hDead
        obtain ⟨⟨hAwaiting, hLive⟩, hOpen⟩ := hDead
        exact (head (.timeOut t hTimer hKind hDue hAwaiting hLive hOpen)
          (acts_react app depth _).moves).trans (acts_finish _ _).moves
      · refine .single (.expire t hTimer hKind hDue fun hAwaiting hLive => ?_)
        simpa [hAwaiting, hLive] using hDead

/-- Every input but the clock and a timer is traffic. -/
theorem step_cases (input : Input) (c : WsConnection) :
    Traffics cfg (input = .writable) c (c.step cfg app depth input) ∨
    (∃ ms, input = .elapse ms) ∨ ∃ id, input = .timer id := by
  cases input with
  | elapse ms => exact .inr (.inl ⟨ms, rfl⟩)
  | timer id => exact .inr (.inr ⟨id, rfl⟩)
  | call call => exact .inl (acts_run (acts_react app depth) call c).traffics
  | shutdown => exact .inl (acts_finish _ c).traffics
  | readable result =>
    left
    simp only [step]
    split_ifs
    · exact traffics_onReadable app depth result c
    · exact .refl
  | writable =>
    left
    simp only [step]
    split_ifs
    · exact traffics_onWritable app depth trivial c
    · exact .refl

/-- Every input is a sequence of moves. -/
theorem moves_step (input : Input) (c : WsConnection) : Moves cfg c (c.step cfg app depth input) := by
  rcases @step_cases cfg app depth input c with hTraffics | ⟨ms, rfl⟩ | ⟨id, rfl⟩
  · exact hTraffics.moves
  · exact .single (.elapse ms)
  · exact moves_fire app depth id c

theorem moves_after (c : WsConnection) (inputs : List Input) : Moves cfg c (c.after cfg app depth inputs) := by
  induction inputs with
  | nil => exact .refl
  | cons input past ih => exact ih.trans (moves_step app depth input _)

theorem after_append (c : WsConnection) (inputs past : List Input) :
    c.after cfg app depth (inputs ++ past) = (c.after cfg app depth past).after cfg app depth inputs := by
  induction inputs with
  | nil => rfl
  | cons input inputs ih => exact congrArg (WsConnection.step cfg app depth input) ih

theorem mem_steps_of_suffix {input : Input} {past inputs : List Input} (h : input :: past <:+ inputs) :
    (⟨c.after cfg app depth past, input⟩ : Step) ∈ steps cfg app depth c inputs := by
  induction inputs with
  | nil => exact absurd (List.suffix_nil.mp h) (List.cons_ne_nil _ _)
  | cons latest earlier ih =>
    rcases List.suffix_cons_iff.mp h with hEq | hSuffix
    · cases hEq
      exact List.mem_cons_self
    · exact List.mem_cons_of_mem _ (ih hSuffix)

end Inputs

def upgraded (response : Bytes) (writes : List WriteResult) : WsConnection :=
  { opened := true, readArmed := true, writeArmed := true, sbuf := response, writes := writes }

theorem moves_served (cfg : WsServerConfig) (response : Bytes) (writes : List WriteResult) :
    Moves cfg (upgraded response writes) (served cfg response writes) :=
  moves_armPing (upgraded response writes)

theorem Moves.invariant {P : WsConnection → Prop} (hMove : ∀ c t, Move cfg c t → P c → P t)
    {c t : WsConnection} (h : Moves cfg c t) (hStart : P c) : P t := by
  induction h with
  | refl => exact hStart
  | tail _ hLast ih => exact hMove _ _ hLast ih

end QbuemStack.Ws
