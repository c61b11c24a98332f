import QbuemStack.Http2.Outcomes

/-! The HEADERS and DATA frames a server puts on the wire. The two send calls look neither at the
state of the stream nor at the frame size of the peer. -/
namespace QbuemStack.Http2

open Octets Http Http2Handler

def Http2Frame.IsMessage (f : Http2Frame) : Prop := f.type = .headers ∨ f.type = .data

instance (f : Http2Frame) : Decidable f.IsMessage := inferInstanceAs (Decidable (_ ∨ _))

def LocallyEnded (sid : UInt32) (past : List Step) : Prop :=
  ∃ t ∈ incarnation sid past, ∃ f ∈ t.queued, f.IsMessage ∧ f.streamId = sid ∧ f.has flagEndStream = true

instance (sid : UInt32) (past : List Step) : Decidable (LocallyEnded sid past) :=
  inferInstanceAs (Decidable (∃ t ∈ incarnation sid past, ∃ f ∈ t.queued, _))

structure Legal (s : Http2Handler) (past : List Step) (f : Http2Frame) : Prop where
  live : f.streamId ∈ s.streams
  notEnded : ¬LocallyEnded f.streamId past
  size : f.payload.length ≤ s.peerMaxFrameSize
  length : readUint ((serializeFrame f).take 3) = f.payload.length

def Step.EndsLocally (t : Step) (sid : UInt32) : Prop :=
  match t.call with
  | .sendHeaders _ target _ endStream => target = sid ∧ endStream = true
  | .sendData target _ endStream => target = sid ∧ endStream = true ∧ t.result = .ok
  | _ => False

/-- A live stream, no call with `end_stream` on it before, and no more than one frame of the peer's
size. -/
def SendsInOrder (s : Http2Handler) (past : List Step) (sid : UInt32) (payload : Bytes) : Prop :=
  sid ∈ s.streams ∧ (∀ t ∈ incarnation sid past, ¬t.EndsLocally sid) ∧ payload.length ≤ s.peerMaxFrameSize

def Call.InOrder (s : Http2Handler) (past : List Step) : Call → Prop
  | .sendHeaders order sid headers _ => SendsInOrder s past sid (Hpack.encode order headers)
  | .sendData sid data _ =>
    s.connSendWindow < data.length ∨ s.streamCredit sid < data.length ∨ SendsInOrder s past sid data
  | .handleFrame f => f.type = .headers → ¬Overruns s f
  | _ => True

variable {f : Http2Frame} {s t : Http2Handler} {r : Result} {past : List Step}

theorem readUint_serializeFrame (hLength : f.length = UInt32.ofNat f.payload.length)
    (hSize : f.payload.length ≤ maxAllowedFrameSize) : readUint ((serializeFrame f).take 3) = f.payload.length := by
  have hMax : f.payload.length ≤ 16777215 := hSize
  have hNat : f.length.toNat = f.payload.length := by
    rw [hLength, UInt32.toNat_ofNat']
    omega
  show readUint [UInt8.ofNat (f.length.toNat / 2 ^ 16), UInt8.ofNat (f.length.toNat / 2 ^ 8),
    UInt8.ofNat f.length.toNat] = f.payload.length
  rw [hNat]
  simp only [readUint, List.foldl_cons, List.foldl_nil, UInt8.toNat_ofNat']
  omega

theorem Outcome.frameSize {call : Call} (h : Outcome s call t r) (hDefined : r ≠ .undefined)
    (hRange : minMaxFrameSize ≤ s.peerMaxFrameSize ∧ s.peerMaxFrameSize ≤ maxAllowedFrameSize) :
    minMaxFrameSize ≤ t.peerMaxFrameSize ∧ t.peerMaxFrameSize ≤ maxAllowedFrameSize := by
  cases h with
  | settings hType h => exact h.resettled.frameSize hRange
  | headers hType h =>
    cases h with
    | overrun => exact absurd rfl hDefined
    | _ => exact hRange
  | continuation hType h | data hType h | rstStream hType h | windowUpdate hType h | sendHeaders h | sendData h =>
    cases h <;> exact hRange
  | other | drain => exact hRange

theorem Outcome.queued_control (h : Outcome s (.handleFrame f) t r) (hDefined : r ≠ .undefined) :
    ∃ frames, t.pendingFrames = s.pendingFrames ++ frames ∧ ∀ g ∈ frames, ¬g.IsMessage := by
  have hReplenish : ∀ sid window, ∀ g ∈ replenishment sid window, ¬g.IsMessage := by
    intro sid window g hg
    unfold replenishment at hg
    split_ifs at hg
    · rw [List.mem_singleton.mp hg]
      simp [Http2Frame.IsMessage]
    · cases hg
  have hGoaway : ∀ code message, ∀ g ∈ [goawayFrame s code message], ¬g.IsMessage := by
    simp [Http2Frame.IsMessage, goawayFrame]
  have hReset : ∀ sid code, ∀ g ∈ [rstFrame sid code], ¬g.IsMessage := by
    simp [Http2Frame.IsMessage, rstFrame]
  have hNone : ∃ frames, s.pendingFrames = s.pendingFrames ++ frames ∧ ∀ g ∈ frames, ¬g.IsMessage :=
    ⟨[], by simp, by simp⟩
  cases h with
  | settings hType h =>
    obtain ⟨frames, hQueue, hControl⟩ := h.resettled.queue
    exact ⟨frames, hQueue, fun g hg => not_or.mpr ⟨(hControl g hg).2.1, (hControl g hg).1⟩⟩
  | headers hType h =>
    cases h with
    | onZero | tooLarge => exact ⟨_, rfl, hGoaway _ _⟩
    | refused => exact ⟨_, rfl, hReset _ _⟩
    | overrun => exact absurd rfl hDefined
    | malformed | buffered | complete => exact hNone
  | continuation hType h =>
    cases h with
    | unexpected | tooLarge => exact ⟨_, rfl, hGoaway _ _⟩
    | continued | orphaned | complete => exact hNone
  | data hType h =>
    cases h with
    | onZero | connectionUnderflow => exact ⟨_, rfl, hGoaway _ _⟩
    | unknown | streamUnderflow => exact ⟨_, rfl, hReset _ _⟩
    | malformed | ended => exact ⟨_, rfl, hReplenish _ _⟩
    | bodyTooLarge =>
      exact ⟨_, List.append_assoc .., List.forall_mem_append.mpr ⟨hReplenish _ _, hReset _ _⟩⟩
    | collected =>
      exact ⟨_, List.append_assoc .., List.forall_mem_append.mpr ⟨hReplenish _ _, hReplenish _ _⟩⟩
  | rstStream hType h =>
    cases h with
    | reset => exact hNone
    | excessive => exact ⟨_, rfl, hGoaway _ _⟩
  | windowUpdate hType h =>
    cases h with
    | failed | connectionOverflow => exact ⟨_, rfl, hGoaway _ _⟩
    | zero | streamOverflow => exact ⟨_, rfl, hReset _ _⟩
    | connection | unknown | stream => exact hNone
  | other frames hControl =>
    exact ⟨frames, rfl, fun g hg => not_or.mpr ⟨(hControl g hg).2.1, (hControl g hg).1⟩⟩

def Call.messages (r : Result) : Call → List Http2Frame
  | .sendHeaders order sid headers endStream => [headersFrame order sid headers endStream]
  | .sendData sid data endStream => if r = .ok then [dataFrame sid data endStream] else []
  | _ => []

theorem filter_isMessage_eq_nil {frames : List Http2Frame} (h : ∀ g ∈ frames, ¬g.IsMessage) :
    frames.filter (fun f => f.IsMessage) = [] :=
  List.filter_eq_nil_iff.mpr fun g hg => by simpa using h g hg

theorem Outcome.messages {call : Call} (h : Outcome s call t r) (hDefined : r ≠ .undefined) :
    (t.pendingFrames.drop s.pendingFrames.length).filter (fun f => f.IsMessage) = call.messages r := by
  have hReceived : ∀ g, Outcome s (.handleFrame g) t r →
      (t.pendingFrames.drop s.pendingFrames.length).filter (fun f => f.IsMessage) =
        (Call.handleFrame g).messages r := by
    intro g h
    obtain ⟨frames, hQueue, hNot⟩ := h.queued_control hDefined
    rw [hQueue, List.drop_left, filter_isMessage_eq_nil hNot]
    rfl
  cases h with
  | settings hType h => exact hReceived _ (.settings hType h)
  | headers hType h => exact hReceived _ (.headers hType h)
  | continuation hType h => exact hReceived _ (.continuation hType h)
  | data hType h => exact hReceived _ (.data hType h)
  | rstStream hType h => exact hReceived _ (.rstStream hType h)
  | windowUpdate hType h => exact hReceived _ (.windowUpdate hType h)
  | other frames hControl _ hNotSent hNoData =>
    have hNone : call.messages r = [] := by
      cases call with
      | sendHeaders order sid headers endStream => exact absurd rfl (hNotSent order sid headers endStream)
      | sendData sid data endStream => exact absurd rfl (hNoData sid data endStream)
      | _ => rfl
    rw [List.drop_left, hNone]
    exact filter_isMessage_eq_nil fun g hg => not_or.mpr ⟨(hControl g hg).2.1, (hControl g hg).1⟩
  | drain => simp [Call.messages]
  | @sendHeaders order sid headers endStream _ h =>
    have hMessage : (headersFrame order sid headers endStream).IsMessage := .inl rfl
    cases h <;> rw [List.drop_left] <;> simp [Call.messages, hMessage]
  | @sendData sid data endStream _ _ h =>
    have hMessage : (dataFrame sid data endStream).IsMessage := .inr rfl
    cases h with
    | blocked | tooLong => simp [Call.messages]
    | unknown | known =>
      rw [List.drop_left]
      simp [Call.messages, hMessage]

theorem mem_queued_iff {t : Step} (hDefined : t.result ≠ .undefined) (f : Http2Frame) :
    f ∈ t.queued ∧ f.IsMessage ↔ f ∈ t.call.messages t.result := by
  rw [← (step_cases t).messages hDefined, List.mem_filter, decide_eq_true_iff]
  rfl

theorem headersFrame_ends (order : MapOrder) (sid : UInt32) (headers : HeaderMap) (endStream : Bool) :
    (headersFrame order sid headers endStream).has flagEndStream = endStream := by
  have hFlags : ((4 : UInt8) &&& 1 != 0) = false ∧ (((4 : UInt8) ||| 1) &&& 1 != 0) = true := by decide
  cases endStream
  · exact hFlags.1
  · exact hFlags.2

theorem dataFrame_ends (sid : UInt32) (data : Bytes) (endStream : Bool) :
    (dataFrame sid data endStream).has flagEndStream = endStream := by
  cases endStream <;> simp [dataFrame, Http2Frame.has, flagEndStream]

theorem endsLocally_iff {t : Step} (hDefined : t.result ≠ .undefined) (sid : UInt32) : t.EndsLocally sid ↔
      ∃ f ∈ t.queued, f.IsMessage ∧ f.streamId = sid ∧ f.has flagEndStream = true := by
  have hQueued : (∃ f ∈ t.queued, f.IsMessage ∧ f.streamId = sid ∧ f.has flagEndStream = true) ↔
      ∃ f ∈ t.call.messages t.result, f.streamId = sid ∧ f.has flagEndStream = true := by
    simp only [← mem_queued_iff hDefined, and_assoc]
  rw [hQueued]
  unfold Step.EndsLocally Call.messages
  cases t.call with
  | sendHeaders order target headers endStream =>
    simp only [List.mem_singleton, exists_eq_left, headersFrame_ends]
    rfl
  | sendData target data endStream =>
    by_cases hOk : t.result = .ok
    · simp only [hOk, if_true, List.mem_singleton, exists_eq_left, dataFrame_ends, and_true]
      rfl
    · simp [hOk]
  | _ => simp

theorem locallyEnded_iff (hDefined : ∀ t ∈ past, t.result ≠ .undefined) (sid : UInt32) :
    LocallyEnded sid past ↔ ∃ t ∈ incarnation sid past, t.EndsLocally sid := by
  unfold LocallyEnded
  have hPast : ∀ t ∈ incarnation sid past, t.result ≠ .undefined :=
    fun t ht => hDefined t ((List.takeWhile_subset _) ht)
  exact exists_congr fun t => and_congr_right fun ht => (endsLocally_iff (hPast t ht) sid).symm

theorem frameSize_of_defined (installed : Bool) {calls : List Call}
    (hDefined : ∀ t ∈ steps { handler := installed } calls, t.result ≠ .undefined) :
    ∀ past, past <:+ calls →
      (after { handler := installed } past).peerMaxFrameSize ≤ maxAllowedFrameSize := by
  have hRange := @invariant_of_steps { handler := installed }
    (fun s => minMaxFrameSize ≤ s.peerMaxFrameSize ∧ s.peerMaxFrameSize ≤ maxAllowedFrameSize)
    ⟨le_refl 16384, (by decide : 16384 ≤ maxAllowedFrameSize)⟩ calls fun t ht =>
      (step_cases t).frameSize (hDefined t ht)
  exact fun past hPast => (hRange past hPast).2

theorem legal_iff (hPast : ∀ t ∈ past, t.result ≠ .undefined) (hSize : s.peerMaxFrameSize ≤ maxAllowedFrameSize)
    (hLength : f.length = UInt32.ofNat f.payload.length) :
    Legal s past f ↔ SendsInOrder s past f.streamId f.payload := by
  have hEnded := locallyEnded_iff hPast f.streamId
  constructor
  · intro hLegal
    exact ⟨hLegal.live, fun t ht hEnds => hLegal.notEnded (hEnded.mpr ⟨t, ht, hEnds⟩), hLegal.size⟩
  · rintro ⟨hLive, hNot, hLe⟩
    refine ⟨hLive, fun h => ?_, hLe, readUint_serializeFrame hLength (hLe.trans hSize)⟩
    obtain ⟨t, ht, hEnds⟩ := hEnded.mp h
    exact hNot t ht hEnds

theorem result_sendData (s : Http2Handler) (sid : UInt32) (data : Bytes) (endStream : Bool) :
    (Step.mk s (.sendData sid data endStream)).result = .ok ↔
      ¬(s.connSendWindow < data.length ∨ s.streamCredit sid < data.length) := by
  show (s.sendData sid data endStream).2 = .ok ↔ _
  unfold sendData
  simp only
  by_cases hFull : s.connSendWindow < (data.length : Int) ∨ s.streamCredit sid < (data.length : Int)
  · simp [hFull]
  · rw [if_neg hFull]
    simp only [hFull, not_false_eq_true, iff_true]
    split <;> rfl

/-- A call keeps the rules exactly if what it queues is legal. -/
theorem inOrder_iff {t : Step} (hPast : ∀ t ∈ past, t.result ≠ .undefined)
    (hSize : t.before.peerMaxFrameSize ≤ maxAllowedFrameSize) :
    (t.result ≠ .undefined ∧ ∀ f ∈ t.queued, f.IsMessage → Legal t.before past f) ↔ t.call.InOrder t.before past := by
  have hMessages : (t.result ≠ .undefined ∧ ∀ f ∈ t.queued, f.IsMessage → Legal t.before past f) ↔
      t.result ≠ .undefined ∧ ∀ f ∈ t.call.messages t.result, Legal t.before past f := by
    refine and_congr_right fun hDefined => ?_
    simp only [← mem_queued_iff hDefined, and_imp]
  rw [hMessages, ne_eq, (step_cases t).undefined_iff]
  obtain ⟨s, call⟩ := t
  cases call with
  | handleFrame f => simp [Call.messages, Call.InOrder]
  | sendHeaders order sid headers endStream =>
    simp only [reduceCtorEq, false_and, exists_false, not_false_eq_true, true_and, Call.messages,
      List.mem_singleton, forall_eq, Call.InOrder]
    exact legal_iff hPast hSize rfl
  | sendData sid data endStream =>
    simp only [reduceCtorEq, false_and, exists_false, not_false_eq_true, true_and, Call.messages, Call.InOrder]
    by_cases hOk : (Step.mk s (.sendData sid data endStream)).result = .ok
    · have hNot := (result_sendData s sid data endStream).mp hOk
      rw [if_pos hOk, ← or_assoc, or_iff_right hNot]
      simp only [List.mem_singleton, forall_eq]
      exact legal_iff hPast hSize rfl
    · have hFull := not_not.mp (mt (result_sendData s sid data endStream).mpr hOk)
      rw [if_neg hOk, ← or_assoc]
      exact ⟨fun _ => .inl hFull, nofun⟩
  | _ => simp [Call.messages, Call.InOrder]

/-- The step is defined and queues legal HEADERS and DATA only. -/
def Step.Emits (t : Step) (past : List Step) : Prop :=
  t.result ≠ .undefined ∧ ∀ f ∈ t.queued, f.IsMessage → Legal t.before past f

/-- A run emits legal frames only, exactly when every call of it keeps the rules. -/
theorem emission_iff (installed : Bool) (calls : List Call) :
    (∀ call past, call :: past <:+ calls →
      (Step.mk (after { handler := installed } past) call).Emits (steps { handler := installed } past)) ↔
    ∀ call past, call :: past <:+ calls →
      call.InOrder (after { handler := installed } past) (steps { handler := installed } past) := by
  induction calls with
  | nil => simp
  | cons latest earlier ih =>
    rw [forall_suffix_cons, forall_suffix_cons, ← ih]
    refine and_congr_left fun hEarlier => ?_
    have hDefined : ∀ t ∈ steps { handler := installed } earlier, t.result ≠ .undefined :=
      mem_steps_iff.mpr fun call past hSuffix => (hEarlier call past hSuffix).1
    exact inOrder_iff hDefined (frameSize_of_defined installed hDefined earlier (List.suffix_refl _))

def answered : List Call :=
  [.sendData 1 [] true,
    .handleFrame { type := .headers, streamId := 1, flags := flagEndHeaders ||| flagEndStream }]

/-- DATA is queued for a stream that was never opened, and after the END_STREAM of an answer. -/
theorem illegal_frames : ¬(Step.mk {} (.sendData 1 [] true)).Emits [] ∧
      ¬(Step.mk (after {} answered) (.sendData 1 [] true)).Emits (steps {} answered) := by
  constructor
  · rintro ⟨-, hLegal⟩
    have hFrame := hLegal (dataFrame 1 [] true) (by decide +kernel) (.inr rfl)
    exact absurd hFrame.live (AList.notMem_empty _)
  · rintro ⟨-, hLegal⟩
    have hFrame := hLegal (dataFrame 1 [] true) (by decide +kernel) (.inr rfl)
    have hEnded : LocallyEnded 1 (steps {} answered) := by decide +kernel
    exact hFrame.notEnded hEnded

end QbuemStack.Http2
