import QbuemStack.Ws.Cuts
import QbuemStack.Ws.Reader

/-! The inbound stream of a connection, measured against the reader. -/
namespace QbuemStack.Ws

open Octets WsConnection
open UInt8 (ofNat)

variable {cfg : WsServerConfig} {writing : Prop}

theorem second_bits : ∀ n < 256, (ofNat n &&& 0x7F).toNat = n % 128 ∧ (ofNat n &&& 0x80 != 0) = decide (128 ≤ n) := by
  decide +kernel

theorem first_bits : ∀ n < 256, ofNat n &&& 0x0F = ofNat (n % 16) ∧ (ofNat n &&& 0x80 != 0) = decide (128 ≤ n) ∧
      (ofNat n &&& 0x40 != 0) = decide (n / 64 % 2 = 1) ∧
      (ofNat n &&& 0x20 != 0) = decide (n / 32 % 2 = 1) ∧
      (ofNat n &&& 0x10 != 0) = decide (n / 16 % 2 = 1) := by
  decide +kernel

theorem xorMask_nil (data : Bytes) : xorMask [] data = data := by
  apply List.ext_getElem <;> simp [xorMask]

theorem readHeader_cons (b0 b1 : UInt8) (rest : Bytes) : match lengthField (b1.toNat % 128) rest with
    | none => readHeader (b0 :: b1 :: rest) = none | some (length, behind) => ∃ size,
        readHeader (b0 :: b1 :: rest) = some ⟨b0, decide (128 ≤ b1.toNat), length, size⟩ ∧
          behind = (b0 :: b1 :: rest).drop size ∧ size ≤ (b0 :: b1 :: rest).length := by
  obtain ⟨hBits, hMasked⟩ := second_bits b1.toNat b1.toNat_lt
  rw [UInt8.ofNat_toNat] at hBits hMasked
  simp only [readHeader, lengthField, hBits, hMasked]
  split_ifs with hMedium hShort hLong hShort
  · rfl
  · exact ⟨4, rfl, rfl, by simp only [List.length_cons]; omega⟩
  · rfl
  · exact ⟨10, rfl, rfl, by simp only [List.length_cons]; omega⟩
  · exact ⟨2, rfl, rfl, by simp only [List.length_cons]; omega⟩

theorem decodeFrame_front (data : Bytes) : front (some maxFramePayload) data =
      match decodeFrame data with
      | .incomplete => .unfinished
      | .messageSize => .tooLong
      | .frame f n => .frame f (data.drop n) := by
  match data with
  | [] => rfl
  | [_] => rfl
  | b0 :: b1 :: rest =>
    have hHeader := readHeader_cons b0 b1 rest
    simp only [front, decodeFrame]
    cases hField : lengthField (b1.toNat % 128) rest with
    | none =>
      rw [hField] at hHeader
      rw [hHeader]
    | some field =>
      obtain ⟨length, behind⟩ := field
      rw [hField] at hHeader
      obtain ⟨size, hRead, hBehind, hSize⟩ := hHeader
      rw [hRead]
      generalize hData : b0 :: b1 :: rest = data at hBehind hSize ⊢
      simp only [Option.any_some, decide_eq_true_eq, FrameHeader.payloadPos]
      obtain ⟨hOpcode, hFin, hRsv1, hRsv2, hRsv3⟩ := first_bits b0.toNat b0.toNat_lt
      rw [UInt8.ofNat_toNat] at hOpcode hFin hRsv1 hRsv2 hRsv3
      have hLength : behind.length = data.length - size := by rw [hBehind, List.length_drop]
      by_cases hLarge : maxFramePayload < length
      · rw [if_pos hLarge, if_pos hLarge]
      rw [if_neg hLarge, if_neg hLarge]
      simp only [FrameHeader.toFrame, FrameHeader.payloadPos, hOpcode, hFin, hRsv1, hRsv2, hRsv3]
      by_cases hMasked : 128 ≤ b1.toNat
      · simp only [hMasked, if_true, decide_true, Bool.true_and, decide_eq_true_eq]
        by_cases hShort : behind.length < 4 + length
        · split_ifs <;> first | rfl | omega
        · rw [if_neg hShort, if_neg (by omega), if_neg (by omega)]
          simp only [slice, hBehind, List.drop_drop, Nat.add_assoc]
      · simp only [hMasked, if_false, decide_false, Bool.false_and, Bool.false_eq_true]
        by_cases hShort : behind.length < 0 + length
        · rw [if_pos hShort, if_pos (by omega)]
        · rw [if_neg hShort, if_neg (by omega)]
          simp only [slice, hBehind, List.drop_drop, List.take_zero, xorMask_nil, Nat.zero_add, Nat.add_zero]

def messagesOf (log : List Event) : List Message :=
  log.filterMap fun
    | .message isText data => some ⟨isText, data⟩
    | _ => none

def pongsOf (accepted : List (Opcode × Bytes)) : List Bytes :=
  accepted.filterMap fun a => if a.1 = .pong then some a.2 else none

def fragmentsOf (c : WsConnection) : Option Message :=
  if c.fragOpcode = 0 then none else some ⟨c.fragOpcode = Opcode.text.code, c.assembly⟩

/-- The connection has done what the reader does, and has not been closed for another reason. -/
structure Tracks (c : WsConnection) (r : Reading) : Prop where
  messages : messagesOf c.log = r.messages
  answered : pongsOf c.accepted = r.answered
  code : c.closedWith = r.code
  closing : c.closing = r.code.isSome
  running : r.code = none → c.finished = false ∧ c.readArmed = true ∧ fragmentsOf c = r.fragments

structure Caught (c : WsConnection) (r : Reading) : Prop extends Tracks c r where
  left : r.code = none → c.rbuf = r.left

def Event.isError : Event → Bool
  | .error _ => true
  | _ => false

def ErrorFree (c : WsConnection) : Prop := ∀ event ∈ c.log, event.isError = false

instance (c : WsConnection) : Decidable (ErrorFree c) := inferInstanceAs (Decidable (∀ _ ∈ _, _))

variable {c t : WsConnection}

theorem Tracks.live {r : Reading} (h : Tracks c r) (hRunning : r.code = none) :
    c.finished = false ∧ c.closing = false := by
  rw [h.closing, hRunning]
  exact ⟨(h.running hRunning).1, rfl⟩

theorem log_act (h : Act cfg c t) : c.log <+: t.log := by
  cases h with
  | send | close | abandon => exact List.prefix_rfl
  | error => exact List.prefix_append _ _
  | finish code hLive =>
    rw [finishClose, if_neg (by rw [hLive]; decide)]
    exact List.prefix_append _ _

theorem log_traffic (h : Traffic cfg writing c t) : c.log <+: t.log := by
  cases h with
  | act h => exact log_act h
  | message => exact List.prefix_append _ _
  | received | pong | write | block | drained => exact List.prefix_rfl

theorem ErrorFree.of_traffics (h : ErrorFree t) (hTraffics : Traffics cfg writing c t) : ErrorFree c := by
  intro event hMem
  have hPrefix : c.log <+: t.log := by
    clear h hMem
    induction hTraffics with
    | refl => exact List.prefix_rfl
    | tail _ hStep ih => exact ih.trans (log_traffic hStep)
  exact h event (hPrefix.subset hMem)

theorem ErrorFree.of_acts {c t : WsConnection} (h : ErrorFree t) (hActs : Acts cfg c t) : ErrorFree c :=
  h.of_traffics (hActs.traffics : Traffics cfg True c t)

theorem pongsOf_append {accepted : List (Opcode × Bytes)} {op : Opcode} (payload : Bytes) (hOp : op ≠ .pong) :
    pongsOf (accepted ++ [(op, payload)]) = pongsOf accepted := by
  simp [pongsOf, hOp]

section Sending

variable {react : WsConnection → WsConnection} (hReact : ∀ c, Acts cfg c (react c))

include hReact

theorem not_errorFree_abort (c : WsConnection) (cause : WsError) (code : UInt16) :
    ¬ErrorFree ((react { c with log := c.log ++ [.error cause] }).finishClose code) := by
  intro h
  have hBefore := h.of_acts ((hReact _).trans (acts_finish code _))
  have hError := hBefore (.error cause) (List.mem_append_right _ (List.mem_singleton_self _))
  exact Bool.noConfusion hError

variable {c : WsConnection} {r : Reading}

theorem sendFrame_errorFree {op : Opcode} {payload : Bytes} (hLive : c.finished = false)
    (h : ErrorFree (c.sendFrame cfg react op payload).1) : ∃ now later armed writes,
      c.sendFrame cfg react op payload = (taken c op payload now later armed writes, true) := by
  cases hSend : c.sendFrame cfg react op payload with
  | mk t ok =>
  have hCases := @sendFrame_cases cfg react c op payload
  rw [hSend] at hCases h
  cases hCases with
  | finished hFinished => exact absurd (hLive.symm.trans hFinished) (by decide)
  | aborted cause code writes => exact absurd h (not_errorFree_abort hReact { c with writes := writes } cause code)
  | taken now later armed writes => exact ⟨now, later, armed, writes, rfl⟩

theorem Tracks.sendFrame (h : Tracks c r) {op : Opcode} {payload : Bytes} (hOp : op ≠ .pong)
    (hLive : c.finished = false) (hFree : ErrorFree (c.sendFrame cfg react op payload).1) :
    Tracks (c.sendFrame cfg react op payload).1 r := by
  obtain ⟨now, later, armed, writes, hTaken⟩ := sendFrame_errorFree hReact hLive hFree
  rw [hTaken]
  exact { h with answered := (pongsOf_append payload hOp).trans h.answered }

theorem Tracks.beginClose (h : Tracks c r) (hRunning : r.code = none) {code : UInt16} {reason : Bytes}
    (hFree : ErrorFree (c.beginClose cfg react code reason)) :
    Tracks (c.beginClose cfg react code reason) (r.stop code) := by
  obtain ⟨hLive, hOpen⟩ := h.live hRunning
  unfold WsConnection.beginClose at hFree ⊢
  rw [if_neg (by rw [hOpen, hLive]; decide)] at hFree ⊢
  have hClosing : Tracks (closingWith c code) (r.stop code) :=
    ⟨h.messages, h.answered, rfl, rfl, nofun⟩
  have hSend : ErrorFree ((closingWith c code).sendFrame cfg react .close (closePayload code reason)).1 := by
    refine @ErrorFree.of_acts cfg _ _ hFree ?_
    show Acts cfg _ (if _ then _ else _)
    split_ifs
    · exact acts_finish code _
    · exact .refl
  have hSent := hClosing.sendFrame hReact (by decide) hLive hSend
  show Tracks (if _ then _ else _) _
  split_ifs with hDrained
  · obtain ⟨hStillLive, -⟩ := hDrained
    rw [finishClose, if_neg (by rw [hStillLive]; decide)]
    refine ⟨?_, hSent.answered, hSent.code, rfl, nofun⟩
    rw [← hSent.messages]
    simp [messagesOf]
    rfl
  · exact hSent

theorem Tracks.runCalls (h : Tracks c r) (hRunning : r.code = none) {calls : List AppCall}
    (hSends : ∀ call ∈ calls, ∃ isText payload, call = .send isText payload)
    (hFree : ErrorFree (runCalls cfg react calls c)) : Tracks (runCalls cfg react calls c) r := by
  induction calls generalizing c with
  | nil => exact h
  | cons call calls ih =>
    have hRest : Acts cfg (call.run cfg react c) (Ws.runCalls cfg react (call :: calls) c) :=
      acts_runCalls hReact calls _
    refine ih ?_ (fun next hNext => hSends next (List.mem_cons_of_mem _ hNext)) hFree
    have hCall := hFree.of_acts hRest
    obtain ⟨isText, payload, rfl⟩ := hSends call List.mem_cons_self
    obtain ⟨hLive, hOpen⟩ := h.live hRunning
    simp only [AppCall.run, sendUser] at hCall ⊢
    rw [if_neg (by rw [hOpen, hLive]; decide)] at hCall ⊢
    exact h.sendFrame hReact (by split_ifs <;> decide) hLive hCall

end Sending

section Frames

variable {app : App} {depth : Nat} {c : WsConnection} {r : Reading} {f : WsFrame}

theorem Tracks.beginClose_react (h : Tracks c r) (hRunning : r.code = none) {code : UInt16}
    (hFree : ErrorFree (c.beginClose cfg (app.react cfg depth) code [])) :
    Tracks (c.beginClose cfg (app.react cfg depth) code []) (r.stop code) :=
  h.beginClose (acts_react app depth) hRunning hFree

theorem messagesOf_append (log : List Event) (isText : Bool) (data : Bytes) :
    messagesOf (log ++ [.message isText data]) = messagesOf log ++ [⟨isText, data⟩] := by
  simp [messagesOf]

theorem fragmentsOf_eq_none_iff (c : WsConnection) : fragmentsOf c = none ↔ c.fragOpcode = 0 := by
  unfold fragmentsOf
  split_ifs with hNone
  · exact iff_of_true rfl hNone
  · exact iff_of_false (by simp) hNone

theorem Tracks.dropAssembly (h : Tracks c r) (hNone : r.fragments = none) : Tracks { c with assembly := [] } r := by
  refine { h with running := fun hRunning => ?_ }
  obtain ⟨hLive, hArmed, hFragments⟩ := h.running hRunning
  rw [hNone, fragmentsOf_eq_none_iff] at hFragments
  exact ⟨hLive, hArmed, (if_pos hFragments).trans hNone.symm⟩

theorem not_violates_iff {fragments : Option Message} : ¬Violates fragments f ↔
      f.rsv1 = false ∧ f.rsv2 = false ∧ f.rsv3 = false ∧ f.masked = true ∧ f.opcode.IsKnown ∧
        (f.opcode.IsControl → f.fin = true ∧ f.payload.length ≤ 125) ∧ (f.opcode = .continuation → fragments ≠ none) ∧
        (f.opcode = .text ∨ f.opcode = .binary → fragments = none) := by
  simp [Violates]

theorem handleFrame_of_violates (h : Violates (fragmentsOf c) f) :
    c.handleFrame cfg app depth f = (c.beginClose cfg (app.react cfg depth) WsCloseCode.protocolError [], false) := by
  unfold handleFrame
  simp only
  split_ifs with hRsv hMasked hKnown hControl
  · rfl
  · rfl
  · rfl
  · rfl
  · obtain ⟨⟨hRsv1, hRsv2⟩, hRsv3⟩ : (f.rsv1 = false ∧ f.rsv2 = false) ∧ f.rsv3 = false := by simpa using hRsv
    have hMask : f.masked = true := by simpa using hMasked
    have hPlaced : f.opcode = .continuation ∧ c.fragOpcode = 0 ∨
        (f.opcode = .text ∨ f.opcode = .binary) ∧ c.fragOpcode ≠ 0 := by
      rw [Violates, hRsv1, hRsv2, hRsv3, hMask, Opcode.IsKnown, Opcode.IsControl, fragmentsOf_eq_none_iff, ne_eq,
        fragmentsOf_eq_none_iff] at h
      cases hOp : f.opcode <;> simp_all
    rcases hPlaced with ⟨hOp, hNone⟩ | ⟨hOp, hSome⟩
    · simp only [handleData, hOp, if_true, if_pos hNone]
    · rcases hOp with hOp | hOp
      · simp [handleData, hOp, hSome]
      · simp [handleData, hOp, hSome]

theorem handleFrame_of_sound (h : ¬Violates (fragmentsOf c) f) : c.handleFrame cfg app depth f =
      match f.opcode with
      | .ping =>
        ((c.sendFrame cfg (app.react cfg depth) .pong f.payload).1,
          !(c.sendFrame cfg (app.react cfg depth) .pong f.payload).1.finished)
      | .pong => (c.onPong, true)
      | .close => (c.beginClose cfg (app.react cfg depth) (receivedCode f.payload) [], false)
      | _ => c.handleData cfg app depth f := by
  obtain ⟨hRsv1, hRsv2, hRsv3, hMasked, hKnown, hControl, -⟩ := not_violates_iff.mp h
  have hBits : ¬(f.rsv1 || f.rsv2 || f.rsv3) = true := by simp [hRsv1, hRsv2, hRsv3]
  have hMask : ¬(!f.masked) = true := by simp [hMasked]
  have hUnknown : ¬(!decide (f.opcode = .close ∨ f.opcode = .ping ∨ f.opcode = .pong) &&
      !decide (f.opcode = .continuation ∨ f.opcode = .text ∨ f.opcode = .binary)) = true := by
    rw [Bool.and_eq_true, Bool.not_eq_true', Bool.not_eq_true', decide_eq_false_iff_not, decide_eq_false_iff_not]
    exact fun h => hKnown.elim h.1 h.2
  have hBroken : ¬(decide (f.opcode = .close ∨ f.opcode = .ping ∨ f.opcode = .pong) &&
      (!f.fin || decide (125 < f.payload.length))) = true := by
    rw [Bool.and_eq_true, decide_eq_true_eq, Bool.or_eq_true, Bool.not_eq_true', decide_eq_true_eq]
    rintro ⟨hKind, hPart | hLarge⟩
    · exact absurd ((hControl hKind).1.symm.trans hPart) (by decide)
    · exact absurd (hControl hKind).2 (by omega)
  refine (if_neg hBits).trans ((if_neg hMask).trans ((if_neg hUnknown).trans ((if_neg hBroken).trans ?_)))
  cases f.opcode <;> rfl

/-- The application only sends in `on_message`. -/
def OnlySends (app : App) : Prop := ∀ log, ∀ call ∈ app.onMessage log, ∃ isText payload, call = .send isText payload

variable (hApp : OnlySends app)

include hApp

section

variable (h : Tracks c r) (hRunning : r.code = none)
include h hRunning

theorem Tracks.deliver {data : Bytes} {isText : Bool} (hFree : ErrorFree (c.deliver cfg app depth data isText).1) :
    Tracks (c.deliver cfg app depth data isText).1 (r.deliver cfg ⟨isText, data⟩) ∧
      (c.deliver cfg app depth data isText).2 = (r.deliver cfg ⟨isText, data⟩).code.isNone := by
  have hBad : (isText && cfg.validateUtf8 && !wsIsValidUtf8 data) = true ↔
      isText ∧ cfg.validateUtf8 ∧ ¬WellFormedText data := by
    rw [← wsIsValidUtf8_iff]
    simp [and_assoc]
  unfold WsConnection.deliver at hFree ⊢
  unfold Reading.deliver
  by_cases hInvalid : isText ∧ cfg.validateUtf8 ∧ ¬WellFormedText data
  · rw [if_pos (hBad.mpr hInvalid)] at hFree ⊢
    rw [if_pos hInvalid]
    exact ⟨h.beginClose_react hRunning hFree, rfl⟩
  · rw [if_neg (mt hBad.mp hInvalid)] at hFree ⊢
    rw [if_neg hInvalid]
    have hDelivered : Tracks { c with log := c.log ++ [.message isText data] }
        { r with messages := r.messages ++ [⟨isText, data⟩] } := by
      refine { h with messages := ?_ }
      rw [messagesOf_append, h.messages]
    have hCalls := hDelivered.runCalls (acts_react app depth) hRunning (hApp _) hFree
    refine ⟨hCalls, ?_⟩
    obtain ⟨hLive, hOpen⟩ := hCalls.live hRunning
    simp only [hLive, hOpen, hRunning]
    rfl

theorem Tracks.handleData (hSound : ¬Violates r.fragments f)
    (hData : f.opcode = .continuation ∨ f.opcode = .text ∨ f.opcode = .binary)
    (hFree : ErrorFree (c.handleData cfg app depth f).1) : Tracks (c.handleData cfg app depth f).1 (r.absorb cfg f) ∧
      (c.handleData cfg app depth f).2 = (r.absorb cfg f).code.isNone := by
  obtain ⟨hLive, hArmed, hFragments⟩ := h.running hRunning
  obtain ⟨-, -, -, -, -, -, hContinues, hBegins⟩ := not_violates_iff.mp hSound
  have hAbsorb : r.absorb cfg f =
      if cfg.maxMessageSize < (Message.extend r.fragments f).data.length then r.stop WsCloseCode.messageTooBig
      else if f.fin = false then { r with fragments := some (Message.extend r.fragments f) }
      else { r with fragments := none }.deliver cfg (Message.extend r.fragments f) := by
    rw [Reading.absorb, if_neg hSound]
    rcases hData with hOp | hOp | hOp <;> rw [hOp]
  rw [hAbsorb]
  unfold WsConnection.handleData at hFree ⊢
  by_cases hOp : f.opcode = .continuation
  · have hOpened : c.fragOpcode ≠ 0 := by
      rw [Ne, ← fragmentsOf_eq_none_iff, hFragments]
      exact hContinues hOp
    have hExtend : Message.extend r.fragments f = ⟨c.fragOpcode = Opcode.text.code, c.assembly ++ f.payload⟩ := by
      rw [← hFragments, fragmentsOf, if_neg hOpened]
      rfl
    rw [hExtend]
    simp only [if_pos hOp, if_neg hOpened, List.length_append] at hFree ⊢
    by_cases hLarge : cfg.maxMessageSize < c.assembly.length + f.payload.length
    · simp only [if_pos hLarge] at hFree ⊢
      exact ⟨h.beginClose_react hRunning hFree, rfl⟩
    simp only [if_neg hLarge] at hFree ⊢
    cases hFin : f.fin with
    | false =>
      refine ⟨{ h with running := fun _ => ⟨hLive, hArmed, ?_⟩ }, by simp [hRunning]⟩
      exact if_neg hOpened
    | true =>
      rw [hFin, if_pos rfl] at hFree
      have hWhole : Tracks { c with assembly := c.assembly ++ f.payload, fragOpcode := 0 }
          { r with fragments := none } := { h with running := fun _ => ⟨hLive, hArmed, rfl⟩ }
      obtain ⟨hTracks, hOk⟩ := hWhole.deliver hApp hRunning hFree
      refine ⟨hTracks.dropAssembly ?_, hOk⟩
      unfold Reading.deliver
      split_ifs <;> rfl
  · have hNew : f.opcode = .text ∨ f.opcode = .binary := hData.resolve_left hOp
    have hClosed : c.fragOpcode = 0 := by
      rw [← fragmentsOf_eq_none_iff, hFragments]
      exact hBegins hNew
    have hExtend : Message.extend r.fragments f = ⟨f.opcode = .text, f.payload⟩ := by
      rw [hBegins hNew]
      rfl
    rw [hExtend]
    simp only [if_neg hOp, hClosed, ne_eq, not_true_eq_false, if_false] at hFree ⊢
    by_cases hLarge : cfg.maxMessageSize < f.payload.length
    · simp only [if_pos hLarge] at hFree ⊢
      exact ⟨h.beginClose_react hRunning hFree, rfl⟩
    simp only [if_neg hLarge] at hFree ⊢
    cases hFin : f.fin with
    | false =>
      refine ⟨{ h with running := fun _ => ⟨hLive, hArmed, ?_⟩ }, by simp [hRunning]⟩
      rcases hNew with hOp | hOp <;> simp [fragmentsOf, hOp, Opcode.code]
    | true =>
      rw [hFin, if_pos rfl] at hFree
      have hWhole : Tracks c { r with fragments := none } :=
        { h with running := fun _ => ⟨hLive, hArmed, hFragments.trans (hBegins hNew)⟩ }
      exact hWhole.deliver hApp hRunning hFree

/-- One frame is one round of the reader. -/
theorem Tracks.handleFrame (hFree : ErrorFree (c.handleFrame cfg app depth f).1) :
    Tracks (c.handleFrame cfg app depth f).1 (r.absorb cfg f) ∧
      (c.handleFrame cfg app depth f).2 = (r.absorb cfg f).code.isNone := by
  obtain ⟨hLive, hArmed, hFragments⟩ := h.running hRunning
  by_cases hViolates : Violates r.fragments f
  · rw [handleFrame_of_violates (hFragments ▸ hViolates)] at hFree ⊢
    rw [Reading.absorb, if_pos hViolates]
    exact ⟨h.beginClose_react hRunning hFree, rfl⟩
  have hKnown := (not_violates_iff.mp hViolates).2.2.2.2.1
  rw [handleFrame_of_sound (hFragments ▸ hViolates)] at hFree ⊢
  cases hOp : f.opcode with
  | reserved code =>
    rw [hOp] at hKnown
    simp [Opcode.IsKnown, Opcode.IsControl] at hKnown
  | ping =>
    rw [hOp] at hFree
    rw [Reading.absorb, if_neg hViolates, hOp]
    obtain ⟨now, later, armed, writes, hTaken⟩ := sendFrame_errorFree (acts_react app depth) hLive hFree
    rw [hTaken]
    refine ⟨{ h with answered := ?_ }, ?_⟩
    · rw [← h.answered]
      simp [taken, pongsOf]
    · simp [taken, hLive, hRunning]
  | pong =>
    rw [Reading.absorb, if_neg hViolates, hOp]
    exact ⟨{ h with }, by simp [hRunning]⟩
  | close =>
    rw [hOp] at hFree
    rw [Reading.absorb, if_neg hViolates, hOp]
    exact ⟨h.beginClose_react hRunning hFree, rfl⟩
  | continuation | text | binary =>
    rw [hOp] at hFree
    exact h.handleData hApp hRunning hViolates (by simp [hOp]) hFree

end

omit hApp in
theorem traffics_rest (fuel : Nat) (data : Bytes) (hClosed : ¬(c.closing || c.finished) = true) :
    Traffics cfg True c (c.drainLoop cfg app depth fuel data) := by
  obtain ⟨hOpen, hLive⟩ : c.closing = false ∧ c.finished = false := by simpa using hClosed
  exact traffics_drainLoop app depth fuel data hLive hOpen

/-- By induction on the rounds, each of which is one of the reader. -/
theorem Tracks.drainLoop (fuel : Nat) {data : Bytes} (h : Tracks c r) (hRunning : r.code = none) (hLeft : r.left = data)
    (hFuel : data.length ≤ fuel) (hFree : ErrorFree (c.drainLoop cfg app depth fuel data)) :
    Caught (c.drainLoop cfg app depth fuel data) (r.drain cfg (some maxFramePayload)) := by
  induction fuel generalizing data c r with
  | zero =>
    obtain rfl := List.length_eq_zero_iff.mp (Nat.le_zero.mp hFuel)
    have hExit : r.round cfg (some maxFramePayload) = .inl r := by rw [Reading.round, hLeft]; rfl
    rw [Reading.drain_of_exit hExit]
    exact ⟨{ h with }, fun _ => hLeft.symm⟩
  | succ fuel ih =>
    have hFront := decodeFrame_front data
    rw [← hLeft] at hFront
    unfold WsConnection.drainLoop at hFree ⊢
    cases hDecode : decodeFrame data with rw [hLeft, hDecode] at hFront
    | incomplete =>
      have hExit : r.round cfg (some maxFramePayload) = .inl r := by rw [Reading.round, hLeft, hFront]
      rw [Reading.drain_of_exit hExit]
      exact ⟨{ h with }, fun _ => hLeft.symm⟩
    | messageSize =>
      have hExit : r.round cfg (some maxFramePayload) = .inl (r.stop WsCloseCode.messageTooBig) := by
        rw [Reading.round, hLeft, hFront]
      rw [hDecode] at hFree
      rw [Reading.drain_of_exit hExit]
      exact ⟨h.beginClose_react hRunning hFree, by rintro ⟨⟩⟩
    | frame f n =>
      rw [hDecode] at hFree
      simp only at hFront hFree ⊢
      have hBehind : Tracks c { r with left := data.drop n } := { h with }
      have hFrameFree : ErrorFree (c.handleFrame cfg app depth f).1 := by
        split_ifs at hFree with hStop hClosed
        · exact hFree
        · exact hFree
        · exact hFree.of_traffics (traffics_rest fuel _ hClosed)
      obtain ⟨hTracks, hOk⟩ := hBehind.handleFrame hApp hRunning hFrameFree
      generalize hNext : Reading.absorb cfg f { r with left := data.drop n } = next at hTracks hOk
      cases hCode : next.code with
      | some code =>
        have hExit : r.round cfg (some maxFramePayload) = .inl next := by
          simp only [Reading.round, hLeft, hFront, hNext, hCode]
          rfl
        rw [hCode, Option.isNone_some] at hOk
        rw [if_pos hOk, Reading.drain_of_exit hExit]
        exact ⟨hTracks, fun hNone => by rw [hCode] at hNone; cases hNone⟩
      | none =>
        have hRound : r.round cfg (some maxFramePayload) = .inr next := by
          simp only [Reading.round, hLeft, hFront, hNext, hCode]
          rfl
        have hClosed : ¬((c.handleFrame cfg app depth f).1.closing ||
            (c.handleFrame cfg app depth f).1.finished) = true := by
          rw [hTracks.closing, (hTracks.running hCode).1, hCode]
          decide
        rw [hCode] at hOk
        rw [if_neg (by rw [hOk]; decide), if_neg hClosed] at hFree ⊢
        rw [Reading.drain_of_round hRound]
        have hNextLeft : next.left = data.drop n := by
          rcases @Reading.absorb_cases cfg f r with ⟨code, hStop⟩ | ⟨_, _, _, hKept⟩
          · rw [hStop] at hNext
            rw [← hNext] at hCode
            cases hCode
          · rw [← hNext, hKept]
        have hShorter : (data.drop n).length ≤ fuel := by
          have := (Reading.round_left hRound).1
          rw [hNextLeft, hLeft] at this
          omega
        exact ih hTracks hCode hNextLeft hShorter hFree

theorem Caught.onReadable (h : Caught c r) (hRunning : r.code = none) {bytes : Bytes}
    (hFree : ErrorFree (c.onReadable cfg app depth (.data bytes))) :
    Caught (c.onReadable cfg app depth (.data bytes)) (r.feed cfg (some maxFramePayload) bytes) := by
  obtain ⟨hLive, hOpen⟩ := h.live hRunning
  unfold WsConnection.onReadable at hFree ⊢
  rw [if_neg (by rw [hOpen, hLive]; decide)] at hFree ⊢
  have hMore : Tracks { c with rbuf := c.rbuf ++ bytes } { r with left := r.left ++ bytes } := { h with }
  rw [Reading.feed, if_neg (by rw [hRunning]; decide)]
  exact hMore.drainLoop hApp _ hRunning (by rw [h.left hRunning]) le_rfl hFree

end Frames

section Inputs

variable {app : App} {depth : Nat}

theorem writeLoop_errorFree (fuel : Nat) {c : WsConnection} (hFree : ErrorFree (writeLoop cfg app depth fuel c).1) :
    ∃ wire ssent writes, (writeLoop cfg app depth fuel c).1 =
      { c with wire := wire, ssent := ssent, writes := writes } := by
  induction fuel generalizing c with
  | zero => exact ⟨_, _, _, rfl⟩
  | succ fuel ih =>
    have hFailed := not_errorFree_abort (@acts_react cfg app depth) c.popWrite .writeFailed
      WsCloseCode.abnormalClosure
    unfold writeLoop at hFree ⊢
    by_cases hMore : c.ssent < c.sbuf.length
    · rw [if_pos hMore] at hFree ⊢
      cases hWrite : c.nextWrite (c.sbuf.length - c.ssent) with
      | failed =>
        rw [hWrite] at hFree
        exact absurd hFree hFailed
      | wouldBlock => exact ⟨_, _, _, rfl⟩
      | sent n =>
        rw [hWrite] at hFree
        simp only at hFree ⊢
        split_ifs at hFree ⊢ with hNone
        · exact absurd hFree hFailed
        · exact ih hFree
    · rw [if_neg hMore]
      exact ⟨_, _, _, rfl⟩

variable {c : WsConnection} {r : Reading}

theorem Caught.onWritable (h : Caught c r) (hRunning : r.code = none) (hFree : ErrorFree (c.onWritable cfg app depth)) :
    Caught (c.onWritable cfg app depth) r := by
  obtain ⟨hLive, hOpen⟩ := h.live hRunning
  have hLoop := @writeLoop_errorFree cfg app depth (c.sbuf.length - c.ssent) c
  unfold WsConnection.onWritable at hFree ⊢
  rw [if_neg (by rw [hLive]; decide)] at hFree ⊢
  generalize writeLoop cfg app depth (c.sbuf.length - c.ssent) c = result at hLoop hFree ⊢
  obtain ⟨t, drained⟩ := result
  cases drained with
  | false =>
    obtain ⟨wire, ssent, writes, rfl⟩ := hLoop hFree
    exact { h with }
  | true =>
    simp only at hFree hLoop ⊢
    have hDrainedFree : ErrorFree { t with sbuf := [], ssent := 0, writeArmed := false } := by
      split_ifs at hFree
      · exact @ErrorFree.of_acts cfg _ _ hFree (acts_finish _ _)
      · exact hFree
    obtain ⟨wire, ssent, writes, rfl⟩ := hLoop hDrainedFree
    rw [if_neg (by rw [hOpen]; decide)]
    exact { h with }

theorem Caught.armPing (h : Caught c r) : Caught (c.armPing cfg) r := by
  unfold WsConnection.armPing
  split_ifs
  · exact h
  · exact h
  · exact { h with }

theorem armPing_log (c : WsConnection) : (c.armPing cfg).log = c.log := by
  unfold WsConnection.armPing
  split_ifs <;> rfl

theorem Caught.onPingTick (h : Caught c r) (hRunning : r.code = none) (hFree : ErrorFree (c.onPingTick cfg app depth)) :
    Caught (c.onPingTick cfg app depth) r := by
  have hTicked : Caught { c with pingTimerId := none } r := { h with }
  unfold WsConnection.onPingTick at hFree ⊢
  generalize ({ c with pingTimerId := none } : WsConnection) = d at hTicked hFree ⊢
  obtain ⟨hLive, -⟩ := hTicked.running hRunning
  simp only at hFree ⊢
  by_cases hClosed : (d.finished || d.closing) = true
  · rw [if_pos hClosed]
    exact hTicked
  have hSendFree : ErrorFree (d.sendFrame cfg (app.react cfg depth) .ping []).1 := by
    split_ifs at hFree
    · exact hFree
    · rw [ErrorFree, armPing_log] at hFree
      exact hFree
  obtain ⟨now, later, armed, writes, hTaken⟩ := sendFrame_errorFree (@acts_react cfg app depth) hLive hSendFree
  rw [hTaken]
  have hSent : Caught (taken d .ping [] now later armed writes) r :=
    { hTicked with answered := (pongsOf_append [] (by decide)).trans hTicked.answered }
  split_ifs
  · exact hSent
  · exact Caught.armPing { hSent with }

theorem Caught.fire (h : Caught c r) (hRunning : r.code = none) {id : Nat}
    (hFree : ErrorFree (c.fire cfg app depth id)) :
    Caught (c.fire cfg app depth id) r := by
  unfold WsConnection.fire at hFree ⊢
  cases hFind : c.timers.find? fun t => t.id = id with
  | none => exact h
  | some t =>
    rw [hFind] at hFree
    simp only at hFree ⊢
    split_ifs at hFree ⊢
    · exact h
    have hFired : Caught { c with timers := unregisterTimer (some id) c.timers } r :=
      { h with }
    cases hKind : t.kind with rw [hKind] at hFree
    | ping =>
      exact hFired.onPingTick hRunning hFree
    | pong =>
      simp only [onPongTimeout] at hFree ⊢
      split_ifs at hFree ⊢
      · exact absurd hFree (not_errorFree_abort (@acts_react cfg app depth)
          { c with timers := unregisterTimer (some id) c.timers, pongTimerId := none } .timedOut _)
      · exact { h with }

theorem Caught.sendUser (h : Caught c r) {op : Opcode} (hOp : op ≠ .pong) {payload : Bytes}
    (hFree : ErrorFree (c.sendUser cfg (app.react cfg depth) op payload)) :
    Caught (c.sendUser cfg (app.react cfg depth) op payload) r := by
  unfold WsConnection.sendUser at hFree ⊢
  split_ifs at hFree ⊢ with hClosed
  · exact h
  have hLive : c.finished = false := (Bool.or_eq_false_iff.mp (Bool.eq_false_iff.mpr hClosed)).1
  obtain ⟨now, later, armed, writes, hTaken⟩ := sendFrame_errorFree (@acts_react cfg app depth) hLive hFree
  rw [hTaken]
  exact { h with answered := (pongsOf_append payload hOp).trans h.answered }

def WsConnection.Input.bytes : Input → Bytes
  | .readable (.data bytes) => bytes
  | _ => []

def received : List Input → Bytes
  | [] => []
  | input :: past => received past ++ input.bytes

def WsConnection.Input.ends : Input → Bool
  | .shutdown => true
  | .call (.close _ _) => true
  | _ => false

/-- Nothing but the stream ends the connection. -/
structure Step.Peaceful (cfg : WsServerConfig) (app : App) (depth : Nat) (t : Step) : Prop where
  goesOn : t.input.ends = false
  errorFree : ErrorFree (t.before.step cfg app depth t.input)

instance (cfg : WsServerConfig) (app : App) (depth : Nat) (t : Step) : Decidable (t.Peaceful cfg app depth) :=
  decidable_of_iff (_ ∧ _) ⟨fun h => ⟨h.1, h.2⟩, fun h => ⟨h.1, h.2⟩⟩

theorem Caught.step {stream : Bytes} (h : Caught c (readStream cfg (some maxFramePayload) stream))
    (hApp : OnlySends app) (hRunning : (readStream cfg (some maxFramePayload) stream).code = none) {input : Input}
    (hPeaceful : Step.Peaceful cfg app depth ⟨c, input⟩) :
    Caught (c.step cfg app depth input) (readStream cfg (some maxFramePayload) (stream ++ input.bytes)) := by
  obtain ⟨hGoesOn, hFree⟩ := hPeaceful
  obtain ⟨hLive, hArmed, -⟩ := h.running hRunning
  have hOpen : c.closing = false := by rw [h.closing, hRunning]; rfl
  cases input with
  | readable result =>
    simp only [WsConnection.step, hArmed, if_true] at hFree ⊢
    cases result with
    | data bytes =>
      rw [Input.bytes, readStream_append]
      exact h.onReadable hApp hRunning hFree
    | wouldBlock =>
      simp only [Input.bytes, List.append_nil]
      simp only [WsConnection.onReadable, ite_self]
      exact h
    | eof | failed =>
      simp only [WsConnection.onReadable, hOpen, hLive, Bool.or_self, Bool.false_eq_true, if_false] at hFree
      exact absurd hFree (not_errorFree_abort (@acts_react cfg app depth) c .readFailed _)
  | writable =>
    simp only [Input.bytes, List.append_nil]
    simp only [WsConnection.step] at hFree ⊢
    split_ifs at hFree ⊢
    · exact h.onWritable hRunning hFree
    · exact h
  | timer id =>
    simp only [Input.bytes, List.append_nil]
    exact h.fire hRunning hFree
  | call call =>
    simp only [Input.bytes, List.append_nil]
    cases call with
    | send isText payload => exact h.sendUser (by split_ifs <;> decide) hFree
    | close code reason => exact Bool.noConfusion hGoesOn
  | elapse ms =>
    simp only [Input.bytes, List.append_nil]
    exact { h with }
  | shutdown => exact Bool.noConfusion hGoesOn

structure StillClosing (c t : WsConnection) : Prop where
  closing : t.closing = true
  code : t.closedWith = c.closedWith
  messages : messagesOf t.log = messagesOf c.log
  answered : pongsOf t.accepted = pongsOf c.accepted

theorem stillClosing_move {d t : WsConnection} (hMove : Move cfg d t) (h : StillClosing c d) : StillClosing c t := by
  have hShut : d.closing ≠ false := by
    rw [h.closing]
    decide
  cases hMove with
  | elapse | armPing | tick | awaitPong | expire => exact { h with }
  | timeOut _ _ _ _ _ _ hOpen => exact absurd hOpen hShut
  | traffic hTraffic =>
    cases hTraffic with
    | message _ _ _ hOpen | pong _ hOpen => exact absurd hOpen hShut
    | received | write | block | drained => exact { h with }
    | act hAct =>
      cases hAct with
      | send _ _ _ _ _ _ _ hOpen | close _ _ _ _ _ _ _ hOpen | abandon _ _ hOpen => exact absurd hOpen hShut
      | error cause =>
        refine { h with messages := ?_ }
        rw [← h.messages]
        simp [messagesOf]
      | finish code hLive =>
        rw [finishClose, if_neg (by rw [hLive]; decide)]
        refine ⟨rfl, h.code, ?_, h.answered⟩
        rw [← h.messages]
        simp [messagesOf]

theorem Caught.step_closed (h : Caught c r) {code : UInt16} (hCode : r.code = some code) (input : Input) :
    Caught (c.step cfg app depth input) r := by
  have hClosing : c.closing = true := by rw [h.closing, hCode]; rfl
  have hKept : StillClosing c (c.step cfg app depth input) :=
    @Moves.invariant cfg (StillClosing c) (fun _ _ => stillClosing_move) _ _ (moves_step app depth input c)
      ⟨hClosing, rfl, rfl, rfl⟩
  refine ⟨⟨hKept.messages.trans h.messages, hKept.answered.trans h.answered, hKept.code.trans h.code, ?_, ?_⟩, ?_⟩
  · rw [hKept.closing, hCode]
    rfl
  · rw [hCode]
    exact nofun
  · rw [hCode]
    exact nofun

theorem caught_served (response : Bytes) (writes : List WriteResult) :
    Caught (served cfg response writes) (readStream cfg (some maxFramePayload) []) := by
  have hStart : Caught (upgraded response writes) {} :=
    ⟨⟨rfl, rfl, rfl, rfl, fun _ => ⟨rfl, rfl, rfl⟩⟩, fun _ => rfl⟩
  exact hStart.armPing

/-- After every peaceful run the connection has caught up with the reader. -/
theorem caught_after (hApp : OnlySends app) (response : Bytes) (writes : List WriteResult) (inputs : List Input)
    (hPeaceful : ∀ t ∈ steps cfg app depth (served cfg response writes) inputs,
      t.before.closing = false → t.Peaceful cfg app depth) :
    Caught ((served cfg response writes).after cfg app depth inputs)
      (readStream cfg (some maxFramePayload) (received inputs)) := by
  induction inputs with
  | nil => exact caught_served response writes
  | cons input past ih =>
    have hPast := ih fun t ht => hPeaceful t (List.mem_cons_of_mem _ ht)
    cases hCode : (readStream cfg (some maxFramePayload) (received past)).code with
    | none =>
      have hOpen := hPast.closing
      rw [hCode] at hOpen
      exact hPast.step hApp hCode (hPeaceful _ List.mem_cons_self hOpen)
    | some code =>
      rw [received, readStream_append, Reading.feed, if_pos (by rw [hCode]; rfl)]
      exact hPast.step_closed hCode input

end Inputs

/-- The cut of a stream into reads makes no difference; and as long as nothing else ends the connection, its
messages, its Pongs and its close code are those of the reader that gives up at a frame of more than 16 MiB. -/
theorem inbound_stream (cfg : WsServerConfig) (app : App) (depth : Nat) (response : Bytes) (writes : List WriteResult) :
    (∀ past last earlier,
      rebuf [] ((served cfg response writes).after cfg app depth (reads (last :: earlier) ++ past)) =
        rebuf [] ((served cfg response writes).after cfg app depth
          (.readable (.data (last :: earlier).reverse.flatten) :: past))) ∧ (OnlySends app → ∀ inputs,
        (∀ t ∈ steps cfg app depth (served cfg response writes) inputs,
          t.before.closing = false → t.Peaceful cfg app depth) →
        messagesOf ((served cfg response writes).after cfg app depth inputs).log =
            (readStream cfg (some maxFramePayload) (received inputs)).messages ∧
          pongsOf ((served cfg response writes).after cfg app depth inputs).accepted =
            (readStream cfg (some maxFramePayload) (received inputs)).answered ∧
          ((served cfg response writes).after cfg app depth inputs).closedWith =
            (readStream cfg (some maxFramePayload) (received inputs)).code) := by
  refine ⟨fun past last earlier => ?_, fun hApp inputs hPeaceful => ?_⟩
  · rw [after_append]
    exact (reads_agree app depth _ last earlier).rest.symm
  · have hCaught := caught_after hApp response writes inputs hPeaceful
    exact ⟨hCaught.messages, hCaught.answered, hCaught.code⟩

def talk : Bytes :=
  [0x01, 0x82, 0, 0, 0, 0, 0x48, 0x69, 0x89, 0x80, 0, 0, 0, 0, 0x80, 0x81, 0, 0, 0, 0, 0x21,
    0x88, 0x82, 0, 0, 0, 0, 0x03, 0xE8]

def talkInputs : List Input :=
  [.readable (.data (talk.drop 10)), .writable, .readable (.data (talk.take 10))]

theorem inbound_stream_talk :
    messagesOf ((served {} sampleResponse [.sent 129, .sent 2, .sent 4]).after {} {} 0 talkInputs).log =
      [⟨true, ascii "Hi!"⟩] := by
  have hRun := (inbound_stream {} {} 0 sampleResponse [.sent 129, .sent 2, .sent 4]).2
    (nofun) talkInputs (by decide +kernel)
  rw [hRun.1]
  decide +kernel

def hugePing : Bytes := [0x89, 0xFF, 0, 0, 0, 0, 1, 0, 0, 1]

/-- With a key and the payload, whatever they are, the reader without a limit finds a control frame
that is too long. -/
theorem readStream_hugePing {rest : Bytes} {size : Nat} (hSize : size = 16777217) (hLength : rest.length = 4 + size) :
    (readStream {} none (hugePing ++ rest)).code = some WsCloseCode.protocolError := by
  have hField : lengthField ((0xFF : UInt8).toNat % 128) ([0, 0, 0, 0, 1, 0, 0, 1] ++ rest) = some (size, rest) := by
    rw [hSize]
    rfl
  obtain ⟨f, hFront, hOpcode, hPayload⟩ : ∃ f, front none (hugePing ++ rest) = .frame f (rest.drop (4 + size)) ∧
      f.opcode = .ping ∧ f.payload.length = size := by
    refine ⟨⟨.ping, true, false, false, false, true, xorMask (rest.take 4) ((rest.drop 4).take size)⟩, ?_, rfl, ?_⟩
    · have hBytes : hugePing ++ rest = 0x89 :: 0xFF :: ([0, 0, 0, 0, 1, 0, 0, 1] ++ rest) := rfl
      have hKey : (if 128 ≤ (0xFF : UInt8).toNat then 4 else 0) = 4 := rfl
      rw [hBytes, front, hField]
      simp only [Option.any_none, Bool.false_eq_true, if_false, hKey]
      rw [if_neg (by omega)]
      rfl
    · simp only [xorMask, List.length_mapIdx, List.length_take, List.length_drop]
      omega
  have hViolates : Violates none f := by
    have hLong : 125 < f.payload.length := by omega
    unfold Violates Opcode.IsControl
    rw [hOpcode]
    simp [hLong]
  have hRound : { left := hugePing ++ rest : Reading }.round {} none =
      .inl (({ left := hugePing ++ rest } : Reading).stop WsCloseCode.protocolError) := by
    simp only [Reading.round, hFront, Reading.absorb, if_pos hViolates]
    rfl
  rw [readStream, Reading.drain_of_exit hRound]
  rfl

theorem closedWith_append {app : App} {depth : Nat} {bytes : Bytes}
    (hClosed : ¬(c.step cfg app depth (.readable (.data bytes))).readArmed = true) (rest : Bytes) :
    (c.step cfg app depth (.readable (.data (bytes ++ rest)))).closedWith =
      (c.step cfg app depth (.readable (.data bytes))).closedWith := by
  have hAgree := (@step_append cfg app depth c bytes rest).rest
  rw [step_unarmed app depth hClosed] at hAgree
  have hCode : (rebuf [] (c.step cfg app depth (.readable (.data (bytes ++ rest))))).closedWith =
      (rebuf [] (c.step cfg app depth (.readable (.data bytes)))).closedWith := by rw [hAgree]
  exact hCode

theorem closedWith_hugePing (rest : Bytes) : ((served {} sampleResponse [.sent 129]).after {} {} 0
      [.readable (.data (hugePing ++ rest)), .writable]).closedWith = some WsCloseCode.messageTooBig := by
  rw [after, closedWith_append (by decide +kernel)]
  decide +kernel

/-- The connection closes with 1009 where the reader finds a protocol error. -/
theorem hugePing_misjudged :
    (readStream {} none (hugePing ++ List.replicate 16777221 0)).code = some WsCloseCode.protocolError ∧
      ((served {} sampleResponse [.sent 129]).after {} {} 0
        [.readable (.data (hugePing ++ List.replicate 16777221 0)), .writable]).closedWith =
          some WsCloseCode.messageTooBig :=
  ⟨readStream_hugePing rfl (List.length_replicate.trans (by omega)), closedWith_hugePing _⟩

end QbuemStack.Ws
