import QbuemStack.Base.Weights
import QbuemStack.Ws.Moves

/-! The outbound stream of a connection, and the memory its send buffer takes. -/
namespace QbuemStack.Ws

open Octets Weights WsConnection

/-- The bytes on the wire and the unsent ones are the handshake and the frames taken, a Close frame
the last of them. -/
structure OutboundStream (response : Bytes) (c : WsConnection) : Prop where
  bytes : c.wire ++ c.sbuf.drop c.ssent = response ++ c.accepted.flatMap fun f => encodeFrame f.1 f.2
  oneClose : (c.accepted.filter fun f => f.1 = .close).length ≤ 1
  closeLast : ∀ before payload after, c.accepted = before ++ (.close, payload) :: after → after = []

structure Sound (response : Bytes) (c : WsConnection) : Prop where
  bytes : c.wire ++ c.sbuf.drop c.ssent = response ++ c.accepted.flatMap fun f => encodeFrame f.1 f.2
  sent : c.ssent ≤ c.sbuf.length
  plain : ∀ f ∈ c.accepted.dropLast, f.1 ≠ .close
  open_plain : c.closing = false → ∀ f ∈ c.accepted, f.1 ≠ .close
  finished : c.finished = true → c.closing = true

variable {cfg : WsServerConfig} {response : Bytes} {c t : WsConnection}

theorem bytes_taken {op : Opcode} {payload now later : Bytes} (h : Sound response c)
    (hTakes : Takes cfg c op payload now later) : c.wire ++ now ++ (c.sbuf ++ later).drop c.ssent =
      response ++ (c.accepted ++ [(op, payload)]).flatMap fun f => encodeFrame f.1 f.2 := by
  rw [List.drop_append_of_le_length h.sent, List.flatMap_append, ← List.append_assoc response, ← h.bytes]
  have hSwap : c.wire ++ now ++ c.sbuf.drop c.ssent = c.wire ++ c.sbuf.drop c.ssent ++ now := by
    by_cases hNow : now = []
    · simp [hNow]
    · simp [List.drop_eq_nil_of_le (hTakes.direct hNow)]
  rw [← List.append_assoc, hSwap, List.append_assoc, hTakes.split]
  simp

theorem sound_act (hAct : Act cfg c t) (h : Sound response c) : Sound response t := by
  cases hAct with
  | send op payload now later armed writes hLive hOpen hOp hTakes =>
    have hPlain := h.open_plain hOpen
    refine ⟨bytes_taken h hTakes, ?_, ?_, ?_, h.finished⟩
    · show c.ssent ≤ (c.sbuf ++ later).length
      rw [List.length_append]
      exact h.sent.trans (Nat.le_add_right _ _)
    · show ∀ f ∈ (c.accepted ++ [(op, payload)]).dropLast, _
      rw [List.dropLast_concat]
      exact hPlain
    · intro _ f hf
      rcases List.mem_append.mp hf with hf | hf
      · exact hPlain f hf
      · rw [List.mem_singleton.mp hf]
        exact hOp
  | close code payload now later armed writes hLive hOpen hTakes =>
    have hBytes := bytes_taken h ⟨hTakes.split, hTakes.direct, hTakes.room⟩
    refine ⟨hBytes, ?_, ?_, fun hFalse => ?_, fun _ => rfl⟩
    · show c.ssent ≤ (c.sbuf ++ later).length
      rw [List.length_append]
      exact h.sent.trans (Nat.le_add_right _ _)
    · show ∀ f ∈ (c.accepted ++ [(Opcode.close, payload)]).dropLast, _
      rw [List.dropLast_concat]
      exact h.open_plain hOpen
    · cases hFalse
  | abandon code => exact { h with open_plain := by rintro ⟨⟩, finished := fun _ => rfl }
  | finish code hLive =>
    rw [finishClose, if_neg (by simp [hLive])]
    exact { h with open_plain := by rintro ⟨⟩, finished := fun _ => rfl }
  | error => exact { h with }

/-- Every move keeps the outbound stream in order. -/
theorem sound_move (hMove : Move cfg c t) (h : Sound response c) : Sound response t := by
  cases hMove with
  | elapse | armPing | tick | awaitPong | expire | timeOut =>
    exact { h with }
  | traffic hTraffic =>
    cases hTraffic with
    | act hAct => exact sound_act hAct h
    | message | received | pong | block => exact { h with }
    | write n _ hLive hInside writes =>
      refine { h with bytes := ?_, sent := hInside }
      rw [← h.bytes, ← List.drop_drop]
      simp [slice]
    | drained _ hLive hDone =>
      refine { h with bytes := ?_, sent := le_rfl }
      rw [← h.bytes, List.drop_eq_nil_of_le hDone]
      rfl

theorem sound_served (cfg : WsServerConfig) (response : Bytes) (writes : List WriteResult) :
    Sound response (served cfg response writes) := by
  have hStart : Sound response (upgraded response writes) :=
    ⟨(List.append_nil _).symm, Nat.zero_le _, by simp [upgraded], by simp [upgraded], by simp [upgraded]⟩
  exact (moves_served cfg response writes).invariant (fun _ _ => sound_move) hStart

theorem Sound.outbound (h : Sound response c) : OutboundStream response c := by
  have hLast : ∀ before payload after, c.accepted = before ++ (.close, payload) :: after → after = [] := by
    intro before payload after hAccepted
    by_contra hMore
    refine h.plain (.close, payload) ?_ rfl
    rw [hAccepted, List.dropLast_append_cons, List.dropLast_cons_of_ne_nil hMore]
    simp
  refine ⟨h.bytes, ?_, hLast⟩
  rcases List.eq_nil_or_concat c.accepted with hNone | ⟨front, last, hAccepted⟩
  · simp [hNone]
  · have hFront := h.plain
    rw [hAccepted, List.concat_eq_append, List.dropLast_concat] at hFront
    have hFilter : front.filter (fun f => f.1 = .close) = [] :=
      List.filter_eq_nil_iff.mpr fun f hf => by simpa using hFront f hf
    rw [hAccepted, List.concat_eq_append, List.filter_append, hFilter, List.nil_append]
    exact List.length_filter_le _ _

theorem Takes.pending {op : Opcode} {payload now later : Bytes} (h : Takes cfg c op payload now later) :
    (c.sbuf ++ later).length - c.ssent ≤ cfg.maxSendQueue ∧ later.length ≤ (encodeFrame op payload).length := by
  have hFrame := congrArg List.length h.split
  have hRoom := h.room
  rw [List.length_append] at hFrame ⊢
  omega

def load (frames : List (Opcode × Bytes)) : Nat := weigh (fun f => (encodeFrame f.1 f.2).length) frames

structure Buffered (cfg : WsServerConfig) (c t : WsConnection) : Prop where
  unsent : t.sbuf.length ≤ c.sbuf.length ∨ t.sbuf.length - t.ssent ≤ cfg.maxSendQueue
  grown : ∃ frames, t.accepted = c.accepted ++ frames ∧ t.sbuf.length ≤ c.sbuf.length + load frames

theorem Buffered.taken {d : WsConnection} {op : Opcode} {payload now later : Bytes} {armed : Bool}
    {writes : List WriteResult} (h : Buffered cfg c d) (hTakes : Takes cfg d op payload now later) :
    Buffered cfg c (taken d op payload now later armed writes) := by
  obtain ⟨hPending, hLater⟩ := hTakes.pending
  obtain ⟨frames, hAccepted, hGrown⟩ := h.grown
  refine ⟨.inr hPending, frames ++ [(op, payload)], ?_, ?_⟩
  · rw [Ws.taken, hAccepted, List.append_assoc]
  · have hMore : load (frames ++ [(op, payload)]) = load frames + (encodeFrame op payload).length := weigh_append _ _
    rw [Ws.taken, List.length_append, hMore]
    omega

/-- What the moves of a step make of the send buffer. -/
theorem buffered_moves (h : Moves cfg c t) : Buffered cfg c t := by
  refine Moves.invariant (P := Buffered cfg c) (fun d e hMove hBefore => ?_) h
    ⟨.inl le_rfl, [], (List.append_nil _).symm, Nat.le_add_right _ _⟩
  cases hMove with
  | elapse | armPing | tick | awaitPong | expire | timeOut => exact ⟨hBefore.unsent, hBefore.grown⟩
  | traffic hTraffic =>
    cases hTraffic with
    | message | received | pong | block => exact ⟨hBefore.unsent, hBefore.grown⟩
    | drained =>
      obtain ⟨frames, hAccepted, -⟩ := hBefore.grown
      exact ⟨.inl (Nat.zero_le _), frames, hAccepted, Nat.zero_le _⟩
    | write n =>
      refine ⟨hBefore.unsent.imp_right fun hPending => ?_, hBefore.grown⟩
      show d.sbuf.length - (d.ssent + n) ≤ _
      omega
    | act hAct =>
      cases hAct with
      | send op payload now later armed writes hLive hOpen hOp hTakes => exact hBefore.taken hTakes
      | close code payload now later armed writes hLive hOpen hTakes =>
        have hClosing : Buffered cfg c (closingWith d code) := ⟨hBefore.unsent, hBefore.grown⟩
        exact hClosing.taken ⟨hTakes.split, hTakes.direct, hTakes.room⟩
      | finish code hLive =>
        rw [finishClose, if_neg (by simp [hLive])]
        exact ⟨hBefore.unsent, hBefore.grown⟩
      | abandon | error => exact ⟨hBefore.unsent, hBefore.grown⟩

theorem ssent_act (h : Act cfg c t) : t.ssent = c.ssent := by
  cases h with
  | send | close | abandon | error => rfl
  | finish code hLive =>
    rw [finishClose, if_neg (by simp [hLive])]

theorem ssent_traffics {writing : Prop} (hIdle : ¬writing) (h : Traffics cfg writing c t) : t.ssent = c.ssent := by
  induction h with
  | refl => rfl
  | tail _ hTraffic ih =>
    rw [← ih]
    cases hTraffic with
    | act hAct => exact ssent_act hAct
    | message | received | pong | block => rfl
    | write n hWriting | drained hWriting => exact absurd hWriting hIdle

theorem ssent_acts (h : Acts cfg c t) : t.ssent = c.ssent := ssent_traffics not_false h.traffics

theorem ssent_armPing (c : WsConnection) : (armPing cfg c).ssent = c.ssent := by
  unfold armPing
  split_ifs <;> rfl

theorem ssent_fire (app : App) (depth id : Nat) (c : WsConnection) :
    (c.fire cfg app depth id).ssent = c.ssent := by
  unfold fire
  cases c.timers.find? fun t => t.id = id with
  | none => rfl
  | some t =>
    simp only
    split_ifs
    · rfl
    cases t.kind with
    | ping =>
      have hTick := @onPingTick_cases cfg app depth { c with timers := unregisterTimer (some id) c.timers }
      generalize onPingTick cfg app depth _ = e at hTick ⊢
      cases hTick with
      | closed hActs =>
        have hSame := ssent_acts hActs
        exact hSame
      | sent hActs =>
        have hSame := ssent_acts hActs
        exact (ssent_armPing _).trans hSame
    | pong =>
      simp only [onPongTimeout]
      split_ifs
      · have hReact := ssent_acts (@acts_react cfg app depth { c with
          timers := unregisterTimer (some id) c.timers
          pongTimerId := none
          log := c.log ++ [.error .timedOut] })
        exact (ssent_acts (@acts_finish cfg _ _)).trans hReact
      · rfl

/-- Only a writable socket moves the mark of what has been written. -/
theorem ssent_step {app : App} {depth : Nat} {input : Input} (hInput : input ≠ .writable) :
    (c.step cfg app depth input).ssent = c.ssent := by
  rcases @step_cases cfg app depth input c with hTraffics | ⟨ms, rfl⟩ | ⟨id, rfl⟩
  · exact ssent_traffics hInput hTraffics
  · rfl
  · exact ssent_fire app depth id c

def Step.frames (t : Step) (cfg : WsServerConfig) (app : App) (depth : Nat) : List (Opcode × Bytes) :=
  (t.before.step cfg app depth t.input).accepted.drop t.before.accepted.length

/-- More is queued than there is room for behind written bytes that are still held, or while the
socket is being written to. -/
def Step.QueuesBehind (t : Step) (cfg : WsServerConfig) (app : App) (depth : Nat) (response : Bytes) : Prop :=
  cfg.maxSendQueue + response.length < t.before.sbuf.length + load (t.frames cfg app depth) ∧
    (response.length < t.before.ssent ∨ t.input = .writable)

instance (t : Step) (cfg : WsServerConfig) (app : App) (depth : Nat) (response : Bytes) :
    Decidable (t.QueuesBehind cfg app depth response) := inferInstanceAs (Decidable (_ ∧ _))

/-- The buffer stays within its limit as long as no frame is queued behind written bytes that leave
no room for it. -/
theorem sbuf_bounded (cfg : WsServerConfig) (app : App) (depth : Nat) (response : Bytes)
    (writes : List WriteResult) (inputs : List Input)
    (hSteps : ∀ t ∈ steps cfg app depth (served cfg response writes) inputs, ¬t.QueuesBehind cfg app depth response) :
    ((served cfg response writes).after cfg app depth inputs).sbuf.length ≤ cfg.maxSendQueue + response.length := by
  induction inputs with
  | nil =>
    have hStart : (served cfg response writes).sbuf = response := by
      show (armPing cfg (upgraded response writes)).sbuf = response
      unfold armPing
      split_ifs <;> rfl
    rw [after, hStart]
    exact Nat.le_add_left _ _
  | cons input past ih =>
    have hBefore := ih fun t ht => hSteps t (List.mem_cons_of_mem _ ht)
    have hStep := hSteps ⟨_, input⟩ List.mem_cons_self
    rw [after]
    generalize (served cfg response writes).after cfg app depth past = c at hBefore hStep ⊢
    obtain ⟨hUnsent, frames, hAccepted, hGrown⟩ := buffered_moves (@moves_step cfg app depth input c)
    simp only [Step.QueuesBehind, Step.frames, hAccepted, List.drop_left] at hStep
    by_cases hRoom : c.sbuf.length + load frames ≤ cfg.maxSendQueue + response.length
    · exact hGrown.trans hRoom
    · obtain ⟨hHeld, hInput⟩ := not_or.mp fun hBehind => hStep ⟨Nat.not_le.mp hRoom, hBehind⟩
      have hSame : (c.step cfg app depth input).ssent = c.ssent := ssent_step hInput
      omega

def smallQueue : WsServerConfig := { maxSendQueue := 200 }

def twoFrames : List Input :=
  [.call (.send false (List.replicate 190 0)), .writable, .call (.send false (List.replicate 190 0)), .writable]

/-- The peer takes the handshake, and what is left of the first frame. -/
theorem sbuf_bounded_twoFrames :
    ((served smallQueue sampleResponse [.sent 129, .sent 1, .sent 193]).after smallQueue {} 0
      twoFrames).sbuf.length ≤ smallQueue.maxSendQueue + sampleResponse.length :=
  sbuf_bounded smallQueue {} 0 sampleResponse [.sent 129, .sent 1, .sent 193] twoFrames (by decide +kernel)

def trickled : WsConnection :=
  (served smallQueue sampleResponse [.sent 128, .wouldBlock, .sent 194]).after smallQueue {} 0 twoFrames

/-- One byte of the first frame and the second frame are pending, and 517 bytes are held. -/
theorem trickled_unbounded :
    smallQueue.maxSendQueue + sampleResponse.length = 329 ∧ trickled.sbuf.length - trickled.ssent = 195 ∧
      trickled.sbuf.length = 517 := by
  decide +kernel

end QbuemStack.Ws
