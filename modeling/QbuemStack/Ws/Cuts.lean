import QbuemStack.Ws.Moves

/-! How a stream is cut into reads makes no difference to the connection, but for the bytes that a
closing connection leaves in its buffer. -/
namespace QbuemStack.Ws

open Octets WsConnection

variable {cfg : WsServerConfig} {writing : Prop}

def rebuf (rbuf : Bytes) (c : WsConnection) : WsConnection := { c with rbuf := rbuf }

abbrev Ending (c : WsConnection) : Prop := (c.closing || c.finished) = true

theorem closed_rebuf (c : WsConnection) (rbuf : Bytes) :
    ((rebuf rbuf c).closing || (rebuf rbuf c).finished) = (c.closing || c.finished) := rfl

theorem finishClose_rebuf (code : UInt16) (c : WsConnection) (rbuf : Bytes) :
    (rebuf rbuf c).finishClose code = rebuf rbuf (c.finishClose code) := by
  unfold finishClose rebuf
  split_ifs <;> rfl

theorem armWrite_rebuf (c : WsConnection) (rbuf : Bytes) : (rebuf rbuf c).armWrite = rebuf rbuf c.armWrite := by
  unfold armWrite rebuf
  split_ifs <;> rfl

section React

variable {react : WsConnection → WsConnection} (hReact : ∀ c rbuf, react (rebuf rbuf c) = rebuf rbuf (react c))

include hReact

theorem abort_rebuf (c : WsConnection) (cause : WsError) (code : UInt16) (rbuf : Bytes) :
    ((rebuf rbuf c).reportError react cause).finishClose code =
      rebuf rbuf ((c.reportError react cause).finishClose code) := by
  rw [← finishClose_rebuf]
  congr 1
  exact hReact { c with log := c.log ++ [.error cause] } rbuf

theorem sendFrame_rebuf (op : Opcode) (payload : Bytes) (c : WsConnection) (rbuf : Bytes) :
    (rebuf rbuf c).sendFrame cfg react op payload =
      (rebuf rbuf (c.sendFrame cfg react op payload).1, (c.sendFrame cfg react op payload).2) := by
  have hNext : ∀ size, (rebuf rbuf c).nextWrite size = c.nextWrite size := fun _ => rfl
  have hFinished : (rebuf rbuf c).finished = c.finished := rfl
  have hUnsent : (rebuf rbuf c).sbuf.length - (rebuf rbuf c).ssent = c.sbuf.length - c.ssent := rfl
  have hArmed : (rebuf rbuf c).writeArmed = c.writeArmed := rfl
  have hQueued : ∀ d : WsConnection,
      ((((rebuf rbuf d).accept op payload).rawAppend (encodeHeader op payload.length)).rawAppend payload).armWrite =
        rebuf rbuf (((d.accept op payload).rawAppend (encodeHeader op payload.length)).rawAppend payload).armWrite :=
    fun d => armWrite_rebuf (((d.accept op payload).rawAppend (encodeHeader op payload.length)).rawAppend payload) rbuf
  unfold sendFrame
  simp only [hNext, hFinished, hUnsent, hArmed]
  generalize (encodeHeader op payload.length).length + payload.length = need
  split_ifs
  · rfl
  · exact Prod.ext (abort_rebuf hReact c _ _ rbuf) rfl
  · cases c.nextWrite need with
    | failed => exact Prod.ext (abort_rebuf hReact c.popWrite _ _ rbuf) rfl
    | wouldBlock => exact Prod.ext (hQueued c.popWrite) rfl
    | sent n =>
      simp only [bufferTail_eq]
      split_ifs
      · rfl
      · refine Prod.ext (armWrite_rebuf (rawAppend _ { c.popWrite.accept op payload with
          wire := c.wire ++ (encodeHeader op payload.length ++ payload).take n }) rbuf) rfl
  · exact Prod.ext (hQueued c) rfl

theorem beginClose_rebuf (code : UInt16) (reason : Bytes) (c : WsConnection) (rbuf : Bytes) :
    (rebuf rbuf c).beginClose cfg react code reason = rebuf rbuf (c.beginClose cfg react code reason) := by
  have hSend := @sendFrame_rebuf cfg react hReact .close (closePayload code reason) (closingWith c code) rbuf
  have hClose : ({ rebuf rbuf c with closing := true, closeCode := code, closedWith := some code, readArmed := false } :
      WsConnection) = rebuf rbuf (closingWith c code) := rfl
  unfold beginClose
  simp only [closed_rebuf, hClose, hSend, finishClose_rebuf]
  refine (ite_congr rfl (fun _ => rfl) fun _ => ?_).trans (apply_ite (rebuf rbuf) _ _ _).symm
  exact (apply_ite (rebuf rbuf) _ _ _).symm

theorem run_rebuf (call : AppCall) (c : WsConnection) (rbuf : Bytes) :
    call.run cfg react (rebuf rbuf c) = rebuf rbuf (call.run cfg react c) := by
  cases call with
  | close code reason => exact beginClose_rebuf hReact code reason c rbuf
  | send isText payload =>
    simp only [AppCall.run, sendUser, sendFrame_rebuf hReact]
    exact (apply_ite (rebuf rbuf) _ _ _).symm

theorem runCalls_rebuf (calls : List AppCall) (c : WsConnection) (rbuf : Bytes) :
    runCalls cfg react calls (rebuf rbuf c) = rebuf rbuf (runCalls cfg react calls c) := by
  induction calls generalizing c with
  | nil => rfl
  | cons call calls ih =>
    show runCalls cfg react calls (call.run cfg react (rebuf rbuf c)) = _
    rw [run_rebuf hReact, ih]
    rfl

end React

theorem react_rebuf (app : App) (depth : Nat) (c : WsConnection) (rbuf : Bytes) :
    app.react cfg depth (rebuf rbuf c) = rebuf rbuf (app.react cfg depth c) := by
  induction depth generalizing c rbuf with
  | zero => rfl
  | succ depth ih => exact runCalls_rebuf ih _ c rbuf

section Frames

variable (app : App) (depth : Nat) (f : WsFrame) (c : WsConnection) (rbuf : Bytes)

theorem fail_rebuf (code : UInt16) (c : WsConnection) (rbuf : Bytes) :
    ((rebuf rbuf c).beginClose cfg (app.react cfg depth) code [], false) =
      (rebuf rbuf (c.beginClose cfg (app.react cfg depth) code []), false) := by
  rw [beginClose_rebuf (react_rebuf app depth)]

theorem deliver_rebuf (data : Bytes) (isText : Bool) (c : WsConnection) (rbuf : Bytes) :
    (rebuf rbuf c).deliver cfg app depth data isText =
      (rebuf rbuf (c.deliver cfg app depth data isText).1, (c.deliver cfg app depth data isText).2) := by
  unfold deliver
  split_ifs
  · exact fail_rebuf app depth _ c rbuf
  · have hCalls := @runCalls_rebuf cfg (app.react cfg depth) (react_rebuf app depth)
      (app.onMessage (c.log ++ [.message isText data]))
      { c with log := c.log ++ [.message isText data] } rbuf
    exact congrArg (fun d : WsConnection => (d, !d.closing && !d.finished)) hCalls

theorem handleData_rebuf : (rebuf rbuf c).handleData cfg app depth f =
      (rebuf rbuf (c.handleData cfg app depth f).1, (c.handleData cfg app depth f).2) := by
  have hFrag : (rebuf rbuf c).fragOpcode = c.fragOpcode := rfl
  have hAssembly : (rebuf rbuf c).assembly = c.assembly := rfl
  unfold handleData
  simp only [hFrag, hAssembly]
  split_ifs
  any_goals exact fail_rebuf app depth _ c rbuf
  · have hDeliver := @deliver_rebuf cfg app depth (c.assembly ++ f.payload)
      (decide (c.fragOpcode = Opcode.text.code))
      { c with assembly := c.assembly ++ f.payload, fragOpcode := 0 } rbuf
    exact congrArg (fun d : WsConnection × Bool => ({ d.1 with assembly := [] }, d.2)) hDeliver
  · rfl
  · exact deliver_rebuf app depth _ _ c rbuf
  · rfl

theorem handleFrame_rebuf : (rebuf rbuf c).handleFrame cfg app depth f =
      (rebuf rbuf (c.handleFrame cfg app depth f).1, (c.handleFrame cfg app depth f).2) := by
  unfold handleFrame
  simp only
  split_ifs
  any_goals exact fail_rebuf app depth _ c rbuf
  · cases f.opcode with
    | ping =>
      simp only [sendFrame_rebuf (react_rebuf app depth)]
      rfl
    | pong => rfl
    | close => exact fail_rebuf app depth _ c rbuf
    | continuation | text | binary | reserved => exact handleData_rebuf app depth f c rbuf

variable {c t : WsConnection} {data : Bytes} {n m : Nat}

theorem closing_act (h : Act cfg c t) (hClosing : c.closing = true) : t.closing = true := by
  cases h with
  | send | error => exact hClosing
  | close | abandon => rfl
  | finish code hLive => rw [finishClose, if_neg (by rw [hLive]; decide)]

theorem closing_acts (h : Acts cfg c t) (hClosing : c.closing = true) : t.closing = true := by
  induction h with
  | refl => exact hClosing
  | tail _ hLast ih => exact closing_act hLast ih

theorem closed_beginClose (hOpen : ¬Ending c) (code : UInt16) :
    Ending (c.beginClose cfg (app.react cfg depth) code []) := by
  have hSent : ((closingWith c code).sendFrame cfg (app.react cfg depth) .close (closePayload code [])).1.closing =
      true := by
    cases hSend : (closingWith c code).sendFrame cfg (app.react cfg depth) .close (closePayload code []) with
    | mk t ok =>
    have hCases := @sendFrame_cases cfg (app.react cfg depth) (closingWith c code) .close (closePayload code [])
    rw [hSend] at hCases
    cases hCases with
    | finished => rfl
    | aborted => exact closing_acts ((@acts_react cfg app depth _).trans (acts_finish _ _)) rfl
    | taken => rfl
  unfold beginClose
  rw [if_neg hOpen]
  refine Bool.or_eq_true_iff.mpr (.inl ?_)
  show (if _ then _ else _ : WsConnection).closing = true
  split_ifs
  · exact closing_acts (@acts_finish cfg code _) hSent
  · exact hSent

theorem ending_of_stop (hStop : (!t.closing && !t.finished) = false) : Ending t := by
  revert hStop
  unfold Ending
  cases t.closing <;> cases t.finished <;> decide

theorem closed_deliver (hOpen : ¬Ending c) (data : Bytes) (isText : Bool)
    (hStop : (c.deliver cfg app depth data isText).2 = false) : Ending (c.deliver cfg app depth data isText).1 := by
  unfold deliver at *
  split_ifs at hStop ⊢
  · exact closed_beginClose app depth hOpen _
  · exact ending_of_stop hStop

theorem closed_handleData (hOpen : ¬Ending c) (f : WsFrame) (hStop : (c.handleData cfg app depth f).2 = false) :
    Ending (c.handleData cfg app depth f).1 := by
  unfold handleData at hStop ⊢
  simp only at hStop ⊢
  split_ifs at hStop ⊢
  any_goals exact closed_beginClose app depth hOpen _
  · exact @closed_deliver cfg app depth { c with assembly := c.assembly ++ f.payload, fragOpcode := 0 } hOpen _ _ hStop
  · exact closed_deliver app depth hOpen _ _ hStop

theorem closed_handleFrame (hOpen : ¬Ending c) (f : WsFrame) (hStop : (c.handleFrame cfg app depth f).2 = false) :
    Ending (c.handleFrame cfg app depth f).1 := by
  unfold handleFrame at hStop ⊢
  simp only at hStop ⊢
  split_ifs at hStop ⊢
  any_goals exact closed_beginClose app depth hOpen _
  · cases hOp : f.opcode with rw [hOp] at hStop
    | ping =>
      exact ending_of_stop (Bool.and_eq_false_iff.mpr (.inr hStop))
    | pong =>
      exact Bool.noConfusion hStop
    | close => exact closed_beginClose app depth hOpen _
    | continuation | text | binary | reserved =>
      exact closed_handleData app depth hOpen f hStop

structure Agree (c d : WsConnection) : Prop where
  rest : rebuf [] c = rebuf [] d
  whole : ¬(c.closing || c.finished) = true → c = d

theorem Agree.refl (c : WsConnection) : Agree c c := ⟨rfl, fun _ => rfl⟩

theorem Agree.closed (hClosed : Ending c) (x y : Bytes) : Agree (rebuf x c) (rebuf y c) :=
  ⟨rfl, fun hOpen => absurd hClosed hOpen⟩

theorem Agree.trans {d e : WsConnection} (h : Agree c d) (h' : Agree d e) : Agree c e := by
  refine ⟨h.rest.trans h'.rest, fun hOpen => ?_⟩
  obtain rfl := h.whole hOpen
  exact h'.whole hOpen

theorem decodeFrame_consumes {f : WsFrame} (h : decodeFrame data = .frame f n) :
    (data.drop n).length < data.length := by
  obtain ⟨-, hInside, hSize⟩ := decodeFrame_append h []
  rw [List.length_drop]
  omega

theorem drainLoop_agree (hOpen : ¬Ending c) (hn : data.length ≤ n) (hm : data.length ≤ m) (x y : Bytes) :
    Agree ((rebuf x c).drainLoop cfg app depth n data) ((rebuf y c).drainLoop cfg app depth m data) := by
  induction n generalizing m data c with
  | zero =>
    obtain rfl := List.length_eq_zero_iff.mp (Nat.le_zero.mp hn)
    cases m with
    | zero | succ => exact .refl _
  | succ n ih =>
    cases m with
    | zero =>
      obtain rfl := List.length_eq_zero_iff.mp (Nat.le_zero.mp hm)
      exact .refl _
    | succ m =>
      unfold drainLoop
      cases hDecode : decodeFrame data with
      | incomplete => exact .refl _
      | messageSize =>
        simp only [beginClose_rebuf (react_rebuf app depth)]
        exact .closed (closed_beginClose app depth hOpen _) x y
      | frame f k =>
        simp only [handleFrame_rebuf]
        have hClosed := @closed_handleFrame cfg app depth c hOpen f
        have hShorter := decodeFrame_consumes hDecode
        generalize c.handleFrame cfg app depth f = result at hClosed ⊢
        obtain ⟨t, ok⟩ := result
        cases ok with
        | false => exact .closed (hClosed rfl) x y
        | true =>
          simp only [Bool.true_eq_false, if_false]
          by_cases hStill : (t.closing || t.finished) = true
          · simp only [closed_rebuf, hStill, if_true]
            exact .closed hStill x y
          · simp only [closed_rebuf, hStill]
            exact ih hStill (by omega) (by omega)

theorem onReadable_closed (hClosed : Ending c) (result : ReadResult) : c.onReadable cfg app depth result = c := by
  unfold onReadable
  rw [if_pos hClosed]

theorem onReadable_open (hOpen : ¬Ending c) (bytes : Bytes) : c.onReadable cfg app depth (.data bytes) =
      (rebuf (c.rbuf ++ bytes) c).drainLoop cfg app depth (c.rbuf ++ bytes).length (c.rbuf ++ bytes) := by
  unfold onReadable
  rw [if_neg hOpen]
  rfl

theorem drainLoop_rest {more : Bytes} (hOpen : ¬Ending c) (hm : (data ++ more).length ≤ m)
    (x : Bytes) : Agree ((rebuf x c).drainLoop cfg app depth m (data ++ more))
      ((rebuf data c).onReadable cfg app depth (.data more)) := by
  rw [onReadable_open app depth (show ¬Ending (rebuf data c) from hOpen)]
  exact drainLoop_agree app depth hOpen hm le_rfl x _

/-- Draining a part, and then the rest. By induction on the rounds for the part, which are the first
rounds for the whole. -/
theorem drainLoop_append (more : Bytes) (hOpen : ¬Ending c) (hn : data.length ≤ n)
    (hm : (data ++ more).length ≤ m) (x y : Bytes) : Agree ((rebuf x c).drainLoop cfg app depth m (data ++ more))
      (((rebuf y c).drainLoop cfg app depth n data).onReadable cfg app depth (.data more)) := by
  induction n generalizing m data c with
  | zero => exact drainLoop_rest app depth hOpen hm x
  | succ n ih =>
    have hNil : m = 0 → data = [] := by
      rintro rfl
      exact (List.append_eq_nil_iff.mp (List.length_eq_zero_iff.mp (Nat.le_zero.mp hm))).1
    cases hDecode : decodeFrame data with
    | incomplete =>
      have hPart : (rebuf y c).drainLoop cfg app depth (n + 1) data = rebuf data c := by
        unfold drainLoop
        rw [hDecode]
        rfl
      rw [hPart]
      exact drainLoop_rest app depth hOpen hm x
    | messageSize =>
      have hClosing : ∀ z, Ending (rebuf z (c.beginClose cfg (app.react cfg depth) WsCloseCode.messageTooBig [])) :=
        fun _ => closed_beginClose app depth hOpen _
      cases m with
      | zero =>
        obtain rfl := hNil rfl
        cases hDecode
      | succ m =>
        unfold drainLoop
        rw [hDecode, decodeFrame_append_messageSize hDecode more]
        simp only [beginClose_rebuf (react_rebuf app depth)]
        rw [onReadable_closed app depth (hClosing y)]
        exact .closed (hClosing []) x y
    | frame f k =>
      obtain ⟨hMore, hInside, -⟩ := decodeFrame_append hDecode more
      have hShorter := decodeFrame_consumes hDecode
      cases m with
      | zero =>
        obtain rfl := hNil rfl
        cases hDecode
      | succ m =>
        unfold drainLoop
        rw [hDecode, hMore]
        simp only [handleFrame_rebuf]
        have hClosed := @closed_handleFrame cfg app depth c hOpen f
        generalize c.handleFrame cfg app depth f = result at hClosed ⊢
        obtain ⟨t, ok⟩ := result
        have hStops : Ending t → Agree (rebuf x t) ((rebuf y t).onReadable cfg app depth (.data more)) := by
          intro hEnded
          rw [onReadable_closed app depth (show Ending (rebuf y t) from hEnded)]
          exact .closed hEnded x y
        cases ok with
        | false => exact hStops (hClosed rfl)
        | true =>
          simp only [Bool.true_eq_false, if_false]
          by_cases hStill : (t.closing || t.finished) = true
          · simp only [closed_rebuf, hStill, if_true]
            exact hStops hStill
          · simp only [closed_rebuf, hStill, List.drop_append_of_le_length hInside]
            rw [List.length_append] at hm
            exact ih hStill (by omega) (by rw [List.length_append]; omega)

theorem onReadable_append (c : WsConnection) (bytes more : Bytes) :
    Agree (c.onReadable cfg app depth (.data (bytes ++ more)))
      ((c.onReadable cfg app depth (.data bytes)).onReadable cfg app depth (.data more)) := by
  by_cases hClosed : Ending c
  · rw [onReadable_closed app depth hClosed, onReadable_closed app depth hClosed, onReadable_closed app depth hClosed]
    exact .refl c
  · rw [onReadable_open app depth hClosed, onReadable_open app depth hClosed, ← List.append_assoc]
    exact drainLoop_append app depth more hClosed le_rfl le_rfl _ _

theorem readArmed_traffic (hTraffic : Traffic cfg writing c t) (h : c.readArmed = true ∨ c.closing = true) :
    t.readArmed = true ∨ t.closing = true := by
  cases hTraffic with
  | message | received | pong | write | block | drained => exact h
  | act hAct =>
    cases hAct with
    | send | error => exact h
    | close | abandon => exact .inr rfl
    | finish code hLive =>
      rw [finishClose, if_neg (by rw [hLive]; decide)]
      exact .inr rfl

theorem step_armed (hArmed : c.readArmed = true) (result : ReadResult) :
    c.step cfg app depth (.readable result) = c.onReadable cfg app depth result :=
  if_pos hArmed

theorem step_unarmed (hArmed : ¬c.readArmed = true) (result : ReadResult) :
    c.step cfg app depth (.readable result) = c :=
  if_neg hArmed

theorem step_append (c : WsConnection) (bytes more : Bytes) :
    Agree (c.step cfg app depth (.readable (.data (bytes ++ more))))
      ((c.step cfg app depth (.readable (.data bytes))).step cfg app depth (.readable (.data more))) := by
  by_cases hArmed : c.readArmed = true
  · rw [step_armed app depth hArmed, step_armed app depth hArmed]
    have hAppend := @onReadable_append cfg app depth c bytes more
    have hTraffics := @traffics_onReadable cfg True app depth (.data bytes) c
    generalize c.onReadable cfg app depth (.data bytes) = t at hAppend hTraffics ⊢
    by_cases hStill : t.readArmed = true
    · rwa [step_armed app depth hStill]
    · have hClosing : t.closing = true := by
        refine Or.resolve_left ?_ hStill
        clear hAppend hStill
        induction hTraffics with
        | refl => exact .inl hArmed
        | tail _ hLast ih => exact readArmed_traffic hLast ih
      rw [step_unarmed app depth hStill]
      have hClosed : Ending t := by rw [Ending, hClosing]; rfl
      rwa [onReadable_closed app depth hClosed] at hAppend
  · rw [step_unarmed app depth hArmed, step_unarmed app depth hArmed, step_unarmed app depth hArmed]
    exact .refl c

theorem Agree.step {d : WsConnection} (h : Agree c d) (bytes : Bytes) :
    Agree (c.step cfg app depth (.readable (.data bytes))) (d.step cfg app depth (.readable (.data bytes))) := by
  by_cases hOpen : Ending c
  · have hSame : (d.closing || d.finished) = true := by
      have hClosing : (rebuf [] c).closing = (rebuf [] d).closing := by rw [h.rest]
      have hFinished : (rebuf [] c).finished = (rebuf [] d).finished := by rw [h.rest]
      change c.closing = d.closing at hClosing
      change c.finished = d.finished at hFinished
      rwa [← hClosing, ← hFinished]
    simp only [WsConnection.step, onReadable_closed app depth hOpen, onReadable_closed app depth hSame, ite_self]
    exact h
  · rw [h.whole hOpen]
    exact .refl _

def reads (pieces : List Bytes) : List Input := pieces.map fun bytes => .readable (.data bytes)

/-- The stream in several reads comes to the same as in one. By induction on the earlier pieces. -/
theorem reads_agree (c : WsConnection) (last : Bytes) (earlier : List Bytes) :
    Agree (c.step cfg app depth (.readable (.data (last :: earlier).reverse.flatten)))
      (c.after cfg app depth (reads (last :: earlier))) := by
  induction earlier generalizing last with
  | nil =>
    rw [List.reverse_singleton, List.flatten_singleton]
    exact .refl _
  | cons bytes earlier ih =>
    rw [List.reverse_cons, List.flatten_append, List.flatten_singleton]
    exact (step_append app depth c _ last).trans ((ih bytes).step app depth last)

end Frames

end QbuemStack.Ws
