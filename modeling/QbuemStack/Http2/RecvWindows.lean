import QbuemStack.Http2.SendWindows

/-! Flow control of what the server receives, compared with the account of the peer. The two differ
by the DATA frames for streams the server does not know. -/
namespace QbuemStack.Http2

open Octets Http Http2Handler Step
open List (append_nil drop_left mem_singleton)

def Step.receivedData (t : Step) : Nat :=
  t.received.elim 0 fun f => if f.type = .data then f.payload.length else 0

def Step.receivedOn (sid : UInt32) (t : Step) : Nat :=
  t.received.elim 0 fun f => if f.type = .data ∧ f.streamId = sid then f.payload.length else 0

def updatesIn (sid : UInt32) (frames : List Http2Frame) : Nat :=
  ((frames.filter fun f => f.type = .windowUpdate ∧ f.streamId = sid).map fun f => readUint f.payload).sum

def Step.updates (sid : UInt32) (t : Step) : Nat := updatesIn sid t.queued

def connCredit (past : List Step) : Int :=
  65535 - total Step.receivedData past + total (Step.updates 0) past

def recvCredit (sid : UInt32) (past : List Step) : Int :=
  65535 - total (Step.receivedOn sid) (incarnation sid past) +
    total (Step.updates sid) (incarnation sid past)

def Respects (s : Http2Handler) (past : List Step) (f : Http2Frame) : Prop :=
  f.type = .data → (f.payload.length : Int) ≤ connCredit past ∧
    (f.streamId ∈ s.streams → (f.payload.length : Int) ≤ recvCredit f.streamId past)

/-- The peer has kept to its account in every step of a run. -/
def RespectedBy (start : Http2Handler) (calls : List Call) : Prop :=
  ∀ call past, call :: past <:+ calls → ∀ f, call = .handleFrame f →
    Respects (after start past) (steps start past) f

def Http2Frame.errorCode (f : Http2Frame) : Option Nat :=
  match f.type with
  | .goaway => some (readUint ((f.payload.drop 4).take 4))
  | .rstStream => some (readUint f.payload)
  | _ => none

def Step.ReportsFlowControl (t : Step) : Prop := ∃ g ∈ t.queued, g.errorCode = some 0x3

/-- The handler agrees with the peer. -/
structure Agreement (start : Http2Handler) (calls : List Call) : Prop where
  conn : (after start calls).connRecvWindow = connCredit (steps start calls)
  streams : ∀ sid stream, (after start calls).streams.lookup sid = some stream →
    stream.recvWindow = recvCredit sid (steps start calls)
  unreported : ∀ f, f.type = .data → Respects (after start calls) (steps start calls) f →
    ¬(Step.mk (after start calls) (.handleFrame f)).ReportsFlowControl
  credit : RespectedBy start calls → 32767 ≤ connCredit (steps start calls)

theorem updatesIn_append (sid : UInt32) (first second : List Http2Frame) :
    updatesIn sid (first ++ second) = updatesIn sid first + updatesIn sid second := by
  simp [updatesIn]

variable {sid : UInt32} {frames : List Http2Frame} {s t : Http2Handler} {call : Call} {r : Result} {f : Http2Frame}
    {stream : Http2Stream}

theorem updatesIn_eq_zero (h : ∀ f ∈ frames, ¬(f.type = .windowUpdate ∧ f.streamId = sid)) :
    updatesIn sid frames = 0 := by
  unfold updatesIn
  rw [List.filter_eq_nil_iff.mpr fun f hf => by simpa using h f hf]
  rfl

theorem updatesIn_control (h : ∀ f ∈ frames, Control f) : updatesIn sid frames = 0 :=
  updatesIn_eq_zero fun f hf hBoth => (h f hf).2.2 hBoth.1

theorem updatesIn_replenishment_ne {other : UInt32} (hNe : other ≠ sid) (window : Int) :
    updatesIn sid (replenishment other window) = 0 := by
  apply updatesIn_eq_zero
  intro f hf hBoth
  unfold replenishment at hf
  split_ifs at hf
  · rw [mem_singleton.mp hf] at hBoth
    exact hNe hBoth.2
  · cases hf

theorem refilled_eq (sid : UInt32) {window : Int} (hWindow : 0 ≤ window) :
    refilled window = window + updatesIn sid (replenishment sid window) := by
  unfold refilled replenishment
  split_ifs with hLow
  · have hIncr : ((65535 - window) % 2 ^ 32).toNat % 2 ^ 31 = ((65535 - window) % 2 ^ 32).toNat := by omega
    have hRead := readUint_appendUint32 ((65535 - window) % 2 ^ 32).toNat (by omega)
    generalize ((65535 - window) % 2 ^ 32).toNat = incr at hIncr hRead ⊢
    rw [hIncr]
    simp [updatesIn, hRead]
  · simp [updatesIn]

theorem refilled_ge {window : Int} (hWindow : 0 ≤ window) : 32767 ≤ refilled window := by
  unfold refilled
  split_ifs with hLow <;> omega

def Call.charge (s : Http2Handler) : Call → Nat
  | .handleFrame f => if f.type = .data ∧ f.streamId ∈ s.streams then f.payload.length else 0
  | _ => 0

def Call.chargeOn (sid : UInt32) : Call → Nat
  | .handleFrame f => if f.type = .data ∧ f.streamId = sid then f.payload.length else 0
  | _ => 0

theorem Call.data_or (call : Call) : (∃ f, call = .handleFrame f ∧ f.type = .data) ∨
    (∀ f, call = .handleFrame f → f.type ≠ .data) ∧ (∀ s, call.charge s = 0) ∧ ∀ sid, call.chargeOn sid = 0 := by
  by_cases hData : ∃ f, call = .handleFrame f ∧ f.type = .data
  · exact .inl hData
  · have hCall : ∀ f, call = .handleFrame f → f.type ≠ .data := fun f hf hType => hData ⟨f, hf, hType⟩
    refine .inr ⟨hCall, ?_⟩
    cases call with
    | handleFrame f => simp [Call.charge, Call.chargeOn, hCall f rfl]
    | _ => exact ⟨fun _ => rfl, fun _ => rfl⟩

theorem Step.receivedOn_eq (sid : UInt32) (t : Step) : t.receivedOn sid = t.call.chargeOn sid := by
  unfold receivedOn received Call.chargeOn
  cases t.call <;> rfl

def queuedUpdates (s t : Http2Handler) (sid : UInt32) : Nat :=
  updatesIn sid (t.pendingFrames.drop s.pendingFrames.length)

theorem queuedUpdates_append {s t : Http2Handler} {frames : List Http2Frame}
    (h : t.pendingFrames = s.pendingFrames ++ frames) (sid : UInt32) :
    queuedUpdates s t sid = updatesIn sid frames := by
  rw [queuedUpdates, h, drop_left]

theorem Outcome.no_updates (h : Outcome s call t r) (hDefined : r ≠ .undefined)
    (hCall : ∀ f, call = .handleFrame f → f.type ≠ .data) (sid : UInt32) : queuedUpdates s t sid = 0 := by
  have hNone : s.pendingFrames = t.pendingFrames → queuedUpdates s t sid = 0 := by
    intro hSame
    rw [@queuedUpdates_append s t [] (by rw [hSame, append_nil])]
    rfl
  have hOne : ∀ g, t.pendingFrames = s.pendingFrames ++ [g] → g.type ≠ .windowUpdate →
      queuedUpdates s t sid = 0 := by
    intro g hQueue hType
    rw [queuedUpdates_append hQueue]
    refine updatesIn_eq_zero fun f hf hBoth => ?_
    rw [mem_singleton.mp hf] at hBoth
    exact hType hBoth.1
  cases h with
  | settings hType h =>
    obtain ⟨frames, hQueue, hControl⟩ := h.resettled.queue
    rw [queuedUpdates_append hQueue, updatesIn_control hControl]
  | headers hType h =>
    cases h with
    | overrun => exact absurd rfl hDefined
    | onZero | refused | tooLarge => exact hOne _ rfl (by simp [goawayFrame, rstFrame])
    | malformed | buffered | complete => exact hNone rfl
  | continuation hType h =>
    cases h with
    | unexpected | tooLarge => exact hOne _ rfl (by simp [goawayFrame])
    | continued | orphaned | complete => exact hNone rfl
  | data hType h => exact absurd hType (hCall _ rfl)
  | rstStream hType h =>
    cases h with
    | reset => exact hNone rfl
    | excessive => exact hOne _ rfl (by simp [goawayFrame])
  | windowUpdate hType h =>
    cases h with
    | failed | connectionOverflow | zero | streamOverflow =>
      exact hOne _ rfl (by simp [goawayFrame, rstFrame])
    | connection | unknown | stream => exact hNone rfl
  | other frames hControl => rw [queuedUpdates_append rfl, updatesIn_control hControl]
  | drain =>
    simp [queuedUpdates]
    rfl
  | sendHeaders h => cases h <;> exact hOne _ rfl (by simp [headersFrame])
  | sendData h =>
    cases h with
    | blocked | tooLong => exact hNone rfl
    | unknown | known => exact hOne _ rfl (by simp [dataFrame])

theorem queuedUpdates_charged {s t : Http2Handler} {f : Http2Frame} {more : List Http2Frame}
    (hQueue : t.pendingFrames = (chargedConnection s f).pendingFrames ++ more) (sid : UInt32) : queuedUpdates s t sid =
      updatesIn sid (replenishment 0 (s.connRecvWindow - f.payload.length)) + updatesIn sid more := by
  rw [← updatesIn_append]
  apply queuedUpdates_append
  rw [hQueue, ← List.append_assoc]
  rfl

theorem Http2Handler.DataOutcome.connRecvWindow (h : DataOutcome s f t .ok) (hType : f.type = .data) :
    t.connRecvWindow = s.connRecvWindow - ((Call.handleFrame f).charge s : Int) + queuedUpdates s t 0 := by
  have hLive : ∀ {stream}, s.streams.lookup f.streamId = some stream →
      (Call.handleFrame f).charge s = f.payload.length := by
    intro stream hStream
    simp [Call.charge, hType, mem_of_lookup hStream]
  have hCharged : ∀ {more}, f.streamId ≠ 0 → (f.payload.length : Int) ≤ s.connRecvWindow →
      t.pendingFrames = (chargedConnection s f).pendingFrames ++ more → updatesIn 0 more = 0 →
      (chargedConnection s f).connRecvWindow =
        s.connRecvWindow - (f.payload.length : Int) + queuedUpdates s t 0 := by
    intro more hSid hConn hQueue hMore
    rw [queuedUpdates_charged hQueue, hMore, Nat.add_zero]
    exact refilled_eq 0 (by omega)
  have hRst : ∀ code, updatesIn 0 [rstFrame f.streamId code] = 0 :=
    fun code => updatesIn_control (by simp [Control, rstFrame])
  cases h with
  | unknown hSid hNone =>
    have hGone : f.streamId ∉ s.streams := AList.lookup_eq_none.mp hNone
    rw [queuedUpdates_append rfl, hRst]
    simp [Call.charge, hGone]
  | streamUnderflow _ hSid hStream =>
    rw [hLive hStream, queuedUpdates_append rfl, hRst]
    simp
  | bodyTooLarge _ _ hSid hStream hConn =>
    rw [hLive hStream]
    exact hCharged hSid hConn rfl (hRst _)
  | ended _ _ hSid hStream hConn =>
    rw [hLive hStream]
    exact @hCharged [] hSid hConn (append_nil _).symm rfl
  | collected _ _ hSid hStream hConn =>
    rw [hLive hStream]
    exact hCharged hSid hConn rfl (updatesIn_replenishment_ne hSid _)

theorem Outcome.connRecvWindow (h : Outcome s call t r) (hAccepted : ∀ f, call = .handleFrame f → r = .ok)
    (hDefined : r ≠ .undefined) :
    t.connRecvWindow = s.connRecvWindow - (call.charge s : Int) + queuedUpdates s t 0 := by
  rcases call.data_or with ⟨f, rfl, hType⟩ | ⟨hCall, hCharge, -⟩
  · cases hAccepted _ rfl
    exact (h.byType.data hType).connRecvWindow hType
  · have hSame : t.connRecvWindow = s.connRecvWindow := by
      cases h with
      | settings hType h => exact h.resettled.recvWindow
      | headers hType h =>
        cases h with
        | overrun => exact absurd rfl hDefined
        | _ => rfl
      | continuation hType h | rstStream hType h | windowUpdate hType h | sendHeaders h | sendData h =>
        cases h <;> rfl
      | data hType h => exact absurd hType (hCall _ rfl)
      | other | drain => rfl
    rw [hSame, hCharge, h.no_updates hDefined hCall]
    simp

inductive RecvWindowChange (s : Http2Handler) (sid : UInt32) (stream : Http2Stream)
    (charged updates : Nat) : Prop
  | kept (old : Http2Stream) (hOld : s.streams.lookup sid = some old)
      (hWindow : stream.recvWindow = old.recvWindow - charged + updates)
  | created (hNew : s.streams.lookup sid = none) (hWindow : stream.recvWindow = 65535)
      (hCharged : charged = 0) (hUpdates : updates = 0)

theorem RecvWindowChange.of_eq {old : Http2Stream} (hOld : s.streams.lookup sid = some old)
    (hWindow : stream.recvWindow = old.recvWindow) : RecvWindowChange s sid stream 0 0 :=
  .kept old hOld (by rw [hWindow]; simp)

theorem RecvWindowChange.of_getOrCreate (hWindow : stream.recvWindow = (s.getOrCreateStream sid).recvWindow) :
    RecvWindowChange s sid stream 0 0 := by
  cases hOld : s.streams.lookup sid with
  | some old =>
    have hSame : s.getOrCreateStream sid = old := by simp [getOrCreateStream, hOld]
    exact .of_eq hOld (hSame ▸ hWindow)
  | none =>
    refine .created hOld ?_ rfl rfl
    rw [hWindow]
    simp [getOrCreateStream, hOld, defaultInitialWindowSize]

theorem Http2Handler.DataOutcome.recvWindow (h : DataOutcome s f t .ok) (hType : f.type = .data) (hSid : sid ≠ 0)
    (hStream : t.streams.lookup sid = some stream) :
    RecvWindowChange s sid stream ((Call.handleFrame f).chargeOn sid) (queuedUpdates s t sid) := by
  have hOther : sid ≠ f.streamId → (Call.handleFrame f).chargeOn sid = 0 := by
    intro hNe
    simp [Call.chargeOn, Ne.symm hNe]
  have hSame : (Call.handleFrame f).chargeOn f.streamId = f.payload.length := by simp [Call.chargeOn, hType]
  have hRst : ∀ code, updatesIn sid [rstFrame f.streamId code] = 0 :=
    fun code => updatesIn_control (by simp [Control, rstFrame])
  have hConnUpdates : updatesIn sid (replenishment 0 (s.connRecvWindow - f.payload.length)) = 0 :=
    updatesIn_replenishment_ne hSid.symm _
  have hOnly : t.pendingFrames = (chargedConnection s f).pendingFrames → queuedUpdates s t sid = 0 := by
    intro hQueue
    rw [@queuedUpdates_charged s t f [] (hQueue.trans (append_nil _).symm), hConnUpdates]
    rfl
  cases h with
  | unknown _ hNone =>
    have hNe : sid ≠ f.streamId := fun h => by rw [h, hNone] at hStream; cases hStream
    rw [hOther hNe, queuedUpdates_append rfl, hRst]
    exact .of_eq hStream rfl
  | streamUnderflow =>
    obtain ⟨hNe, hOld⟩ := lookup_erase_cases hStream
    rw [hOther hNe, queuedUpdates_append rfl, hRst]
    exact .of_eq hOld rfl
  | bodyTooLarge =>
    obtain ⟨hNe, hOld⟩ := lookup_erase_cases hStream
    rw [hOther hNe, queuedUpdates_charged rfl, hRst, hConnUpdates]
    exact .of_eq hOld rfl
  | ended old _ _ hOld =>
    rw [hOnly rfl]
    rcases lookup_insert_cases hStream with ⟨rfl, rfl⟩ | ⟨hNe, hOther'⟩
    · rw [hSame]
      exact .kept old hOld (by simp [charged])
    · rw [hOther hNe]
      exact .of_eq hOther' rfl
  | collected old _ _ hOld _ hWindow =>
    rw [queuedUpdates_charged rfl, hConnUpdates, Nat.zero_add]
    rcases lookup_insert_cases hStream with ⟨rfl, rfl⟩ | ⟨hNe, hOther'⟩
    · rw [hSame]
      exact .kept old hOld (refilled_eq _ (by omega))
    · rw [hOther hNe, updatesIn_replenishment_ne (Ne.symm hNe)]
      exact .of_eq hOther' rfl

theorem Outcome.recvWindow (h : Outcome s call t r) (hAccepted : ∀ f, call = .handleFrame f → r = .ok)
    (hDefined : r ≠ .undefined) (hSid : sid ≠ 0) (hStream : t.streams.lookup sid = some stream) :
    RecvWindowChange s sid stream (call.chargeOn sid) (queuedUpdates s t sid) := by
  rcases call.data_or with ⟨f, rfl, hType⟩ | ⟨hCall, -, hCharge⟩
  · cases hAccepted _ rfl
    exact (h.byType.data hType).recvWindow hType hSid hStream
  · rw [hCharge, h.no_updates hDefined hCall]
    cases h with
    | settings hType h =>
      obtain ⟨delta, hLookup⟩ := h.resettled.streams sid
      rw [hLookup, Option.map_eq_some_iff] at hStream
      obtain ⟨old, hOld, rfl⟩ := hStream
      exact .of_eq hOld rfl
    | headers hType h =>
      cases hAccepted _ rfl
      cases h with
      | refused => exact .of_eq hStream rfl
      | buffered | complete =>
        rcases lookup_insert_cases hStream with ⟨rfl, rfl⟩ | ⟨-, hOld⟩
        · exact .of_getOrCreate (ended_windows _ _).1
        · exact .of_eq hOld rfl
    | continuation hType h =>
      cases hAccepted _ rfl
      cases h with
      | complete _ old _ _ _ hOld =>
        rcases lookup_insert_cases hStream with ⟨rfl, rfl⟩ | ⟨-, hOther⟩
        · exact .of_eq hOld rfl
        · exact .of_eq hOther rfl
      | continued | orphaned => exact .of_eq hStream rfl
    | data hType h => exact absurd hType (hCall _ rfl)
    | rstStream hType h =>
      cases hAccepted _ rfl
      cases h
      exact .of_eq (lookup_erase_cases hStream).2 rfl
    | windowUpdate hType h =>
      cases hAccepted _ rfl
      cases h with
      | streamOverflow => exact .of_eq (lookup_erase_cases hStream).2 rfl
      | stream old _ _ hOld =>
        rcases lookup_insert_cases hStream with ⟨rfl, rfl⟩ | ⟨-, hOther⟩
        · exact .of_eq hOld rfl
        · exact .of_eq hOther rfl
      | zero | connection | unknown => exact .of_eq hStream rfl
    | other | drain => exact .of_eq hStream rfl
    | @sendHeaders _ _ _ endStream _ h =>
      cases h with
      | unknown => exact .of_eq hStream rfl
      | known old hOld =>
        cases endStream with
        | false => exact .of_eq hStream rfl
        | true =>
          rcases lookup_insert_cases hStream with ⟨rfl, rfl⟩ | ⟨-, hOther⟩
          · exact .of_eq hOld (endLocal_windows old).1
          · exact .of_eq hOther rfl
    | @sendData _ _ endStream _ _ h =>
      cases h with
      | blocked | tooLong | unknown => exact .of_eq hStream rfl
      | known old hOld =>
        rcases lookup_insert_cases hStream with ⟨rfl, rfl⟩ | ⟨-, hOther⟩
        · refine .of_eq hOld ?_
          cases endStream
          · rfl
          · exact (endLocal_windows _).1
        · exact .of_eq hOther rfl

/-- The bytes of DATA for streams that are not there. -/
def Step.stray (t : Step) : Nat :=
  t.received.elim 0 fun f => if f.type = .data ∧ f.streamId ∉ t.before.streams then f.payload.length else 0

theorem Step.receivedData_eq (t : Step) : t.receivedData = t.call.charge t.before + t.stray := by
  unfold receivedData stray received Call.charge
  cases t.call with
  | handleFrame f => by_cases hLive : f.streamId ∈ t.before.streams <;> simp [hLive]
  | _ => rfl

section Run

variable (installed : Bool) (calls : List Call) (hAlive : Accepted { handler := installed } calls)

include hAlive

/-- The connection window against the account of the peer. -/
theorem conn_recv_ledger : (after { handler := installed } calls).connRecvWindow =
      connCredit (steps { handler := installed } calls) +
        total stray (steps { handler := installed } calls) := by
  induction calls with
  | nil => rfl
  | cons call past ih =>
    obtain ⟨hPast, hOk⟩ := hAlive.cons
    have hStep := (step_cases ⟨after { handler := installed } past, call⟩).connRecvWindow hOk
      (hAlive.defined _ List.mem_cons_self)
    have hData := receivedData_eq ⟨after { handler := installed } past, call⟩
    have hBefore := ih hPast
    unfold connCredit at hBefore ⊢
    rw [steps, total_cons, total_cons, total_cons, hData]
    show (next ⟨after { handler := installed } past, call⟩).connRecvWindow = _
    rw [hStep, hBefore]
    show _ + (updates 0 ⟨after { handler := installed } past, call⟩ : Int) = _
    push_cast
    omega

/-- The window of a stream against the account of the peer. -/
theorem stream_recv_ledger (sid : UInt32) (stream : Http2Stream)
    (hStream : (after { handler := installed } calls).streams.lookup sid = some stream) :
    stream.recvWindow = recvCredit sid (steps { handler := installed } calls) := by
  induction calls generalizing stream with
  | nil => cases hStream
  | cons call past ih =>
    obtain ⟨hPast, hOk⟩ := hAlive.cons
    have hSid : sid ≠ 0 := by
      rintro rfl
      rw [(capped_of_accepted installed _ hAlive).zero] at hStream
      cases hStream
    have hStep := (step_cases ⟨after { handler := installed } past, call⟩).recvWindow hOk
      (hAlive.defined _ List.mem_cons_self) hSid hStream
    have hLive : sid ∈ (mk (after { handler := installed } past) call).next.streams := mem_of_lookup hStream
    unfold recvCredit
    rw [steps, incarnation_cons hLive, total_cons, total_cons, receivedOn_eq]
    cases hStep with
    | kept old hOld hWindow =>
      have hBefore := ih hPast old hOld
      unfold recvCredit at hBefore
      rw [hWindow, hBefore]
      show _ + (updates sid ⟨after { handler := installed } past, call⟩ : Int) = _
      push_cast
      omega
    | created hNew hWindow hNoCharge hNoUpdates =>
      have hUpdates : updates sid ⟨after { handler := installed } past, call⟩ = 0 := hNoUpdates
      rw [incarnation_of_notMem (AList.lookup_eq_none.mp hNew), hNoCharge, hUpdates, hWindow]
      simp [total]

end Run

theorem errorCode_goawayFrame (s : Http2Handler) {code : Nat} (hCode : code < 2 ^ 32) (message : String) :
    (goawayFrame s code message).errorCode = some code := by
  have hPart : ((goawayFrame s code message).payload.drop 4).take 4 = appendUint32 code := rfl
  show some (readUint (((goawayFrame s code message).payload.drop 4).take 4)) = some code
  rw [hPart, readUint_appendUint32 code hCode]

theorem errorCode_rstFrame (sid : UInt32) {code : Nat} (hCode : code < 2 ^ 32) :
    (rstFrame sid code).errorCode = some code := by
  show some (readUint (appendUint32 code)) = some code
  rw [readUint_appendUint32 code hCode]

theorem errorCode_replenishment (sid : UInt32) (window : Int) : ∀ g ∈ replenishment sid window, g.errorCode = none := by
  intro g hg
  unfold replenishment at hg
  split_ifs at hg
  · rw [mem_singleton.mp hg]
    rfl
  · cases hg

section Room

variable (hWindow : ∀ stream, s.streams.lookup f.streamId = some stream → (f.payload.length : Int) ≤ stream.recvWindow)
include hWindow

theorem Http2Handler.DataOutcome.unreported (h : DataOutcome s f t r)
    (hConn : (f.payload.length : Int) ≤ s.connRecvWindow) :
    ∀ g ∈ t.pendingFrames.drop s.pendingFrames.length, g.errorCode ≠ some 0x3 := by
  have hReplenish : ∀ sid window, ∀ g ∈ replenishment sid window, g.errorCode ≠ some 0x3 := by
    intro sid window g hg
    simp [errorCode_replenishment sid window g hg]
  have hRst : ∀ code < 2 ^ 32, code ≠ 0x3 → ∀ g ∈ [rstFrame f.streamId code], g.errorCode ≠ some 0x3 := by
    intro code hCode hNe g hg
    rw [mem_singleton.mp hg, errorCode_rstFrame _ hCode]
    simpa using hNe
  have hCharged : ∀ more, t.pendingFrames = (chargedConnection s f).pendingFrames ++ more →
      (∀ g ∈ more, g.errorCode ≠ some 0x3) →
      ∀ g ∈ t.pendingFrames.drop s.pendingFrames.length, g.errorCode ≠ some 0x3 := by
    intro more hQueue hMore g hg
    have hDrop : t.pendingFrames.drop s.pendingFrames.length =
        replenishment 0 (s.connRecvWindow - f.payload.length) ++ more := by
      rw [hQueue]
      show ((s.pendingFrames ++ _) ++ more).drop _ = _
      rw [List.append_assoc, drop_left]
    rw [hDrop] at hg
    rcases List.mem_append.mp hg with hg | hg
    · exact hReplenish _ _ g hg
    · exact hMore g hg
  cases h with
  | onZero =>
    rw [drop_left]
    intro g hg
    rw [mem_singleton.mp hg, errorCode_goawayFrame s (by decide)]
    decide
  | unknown =>
    rw [drop_left]
    exact hRst _ (by decide) (by decide)
  | connectionUnderflow _ _ _ hUnder => omega
  | streamUnderflow stream _ hStream _ hUnder =>
    have hLe := hWindow stream hStream
    omega
  | malformed | ended => exact hCharged [] (append_nil _).symm (by simp)
  | bodyTooLarge => exact hCharged _ rfl (hRst _ (by decide) (by decide))
  | collected => exact hCharged _ rfl (hReplenish _ _)

theorem Http2Handler.DataOutcome.half (h : DataOutcome s f t .ok) (hHalf : 32767 ≤ s.connRecvWindow) :
    32767 ≤ t.connRecvWindow := by
  cases h with
  | unknown => exact hHalf
  | streamUnderflow stream _ hStream _ hUnder =>
    have hLe := hWindow stream hStream
    omega
  | bodyTooLarge _ _ _ _ hConn | ended _ _ _ _ hConn | collected _ _ _ _ hConn => exact refilled_ge (by omega)

end Room

theorem Outcome.half (h : Outcome s call t r) (hAccepted : ∀ f, call = .handleFrame f → r = .ok)
    (hDefined : r ≠ .undefined) (hHalf : 32767 ≤ s.connRecvWindow)
    (hWindow : ∀ f, call = .handleFrame f → f.type = .data →
      ∀ stream, s.streams.lookup f.streamId = some stream → (f.payload.length : Int) ≤ stream.recvWindow) :
    32767 ≤ t.connRecvWindow := by
  rcases call.data_or with ⟨f, rfl, hType⟩ | ⟨hCall, hCharge, -⟩
  · cases hAccepted _ rfl
    exact (h.byType.data hType).half (hWindow f rfl hType) hHalf
  · rw [h.connRecvWindow hAccepted hDefined, hCharge]
    omega

/-- By its own account the peer never has less than half of the connection window, as long as no
DATA goes astray. -/
theorem half_of_respected (installed : Bool) (calls : List Call) (hAlive : Accepted { handler := installed } calls)
    (hRespected : RespectedBy { handler := installed } calls) :
    32767 ≤ (after { handler := installed } calls).connRecvWindow := by
  induction calls with
  | nil => exact (by decide : (32767 : Int) ≤ 65535)
  | cons call past ih =>
    obtain ⟨hPast, hOk⟩ := hAlive.cons
    have hBefore := ih hPast fun c p hSuffix => hRespected c p (hSuffix.trans (List.suffix_cons _ _))
    refine (step_cases ⟨after { handler := installed } past, call⟩).half hOk
      (hAlive.defined _ List.mem_cons_self) hBefore ?_
    intro f hCall hType stream hStream
    rw [stream_recv_ledger installed past hPast _ stream hStream]
    exact ((hRespected call past (List.suffix_refl _) f hCall) hType).2 (mem_of_lookup hStream)

theorem total_stray_eq_zero_iff (past : List Step) :
    total stray past = 0 ↔ ∀ t ∈ past, ∀ f ∈ t.received, f.type = .data → f.payload ≠ [] →
      f.streamId ∈ t.before.streams := by
  have hStep : ∀ t : Step, t.stray = 0 ↔ ∀ f ∈ t.received, f.type = .data → f.payload ≠ [] →
      f.streamId ∈ t.before.streams := by
    intro t
    unfold stray
    cases t.received with
    | none => simp
    | some f =>
      by_cases hLive : f.streamId ∈ t.before.streams <;> by_cases hType : f.type = .data <;>
        simp [hLive, hType]
  induction past with
  | nil => simp [total]
  | cons t past ih =>
    rw [total_cons, Nat.add_eq_zero_iff, List.forall_mem_cons]
    exact and_congr (hStep t) ih

/-- The handler and the peer agree after a run without errors exactly when every DATA frame with a
payload was for a stream that was there. -/
theorem agreement_iff (installed : Bool) (calls : List Call)
    (hAlive : Accepted { handler := installed } calls) :
    Agreement { handler := installed } calls ↔
      ∀ t ∈ steps { handler := installed } calls, ∀ f ∈ t.received, f.type = .data → f.payload ≠ [] →
        f.streamId ∈ t.before.streams := by
  rw [← total_stray_eq_zero_iff]
  have hConn := conn_recv_ledger installed calls hAlive
  have hStreams := stream_recv_ledger installed calls hAlive
  constructor
  · intro hAgree
    rw [hAgree.conn] at hConn
    omega
  · intro hStray
    rw [hStray, Nat.cast_zero, add_zero] at hConn
    refine ⟨hConn, hStreams, ?_, ?_⟩
    · rintro f hType hRespects ⟨g, hg, hCode⟩
      obtain ⟨hLe, hLeStream⟩ := hRespects hType
      have hData := (step_cases ⟨after { handler := installed } calls, .handleFrame f⟩).byType.data hType
      refine hData.unreported (fun stream hStream => ?_) (hConn ▸ hLe) g hg hCode
      rw [hStreams _ stream hStream]
      exact hLeStream (mem_of_lookup hStream)
    · intro hRespected
      rw [← hConn]
      exact half_of_respected installed calls hAlive hRespected

def bodyReceived : List Call :=
  [.handleFrame { type := .data, streamId := 1 },
    .handleFrame { type := .rstStream, streamId := 1 },
    .handleFrame { type := .data, streamId := 1, payload := [1, 2, 3] },
    .handleFrame { type := .headers, streamId := 1, flags := flagEndHeaders }]

theorem agreement_bodyReceived : Agreement {} bodyReceived :=
  (agreement_iff true bodyReceived (by decide +kernel)).mpr (by decide +kernel)

def strayData (payload : Bytes) : List Call := [.handleFrame { type := .data, streamId := 1, payload := payload }]

theorem strayData_account (payload : Bytes) :
    Accepted {} (strayData payload) ∧ (after {} (strayData payload)).connRecvWindow = 65535 ∧
      connCredit (steps {} (strayData payload)) = 65535 - payload.length := by
  have hAlive : Accepted {} (strayData payload) := by
    intro t ht _
    rw [mem_singleton.mp ht]
    rfl
  have hWindow : (after {} (strayData payload)).connRecvWindow = 65535 := rfl
  have hStray : total stray (steps {} (strayData payload)) = payload.length := rfl
  have hLedger : (65535 : Int) = connCredit (steps {} (strayData payload)) + payload.length :=
    hStray ▸ hWindow.symm.trans (conn_recv_ledger true (strayData payload) hAlive)
  exact ⟨hAlive, hWindow, by omega⟩

theorem strayData_respected {payload : Bytes} (hLength : payload.length ≤ 65535) :
    RespectedBy {} (strayData payload) := by
  intro call past hSuffix f hCall _
  rcases List.suffix_cons_iff.mp hSuffix with hEq | hSuffix
  · cases hEq
    cases hCall
    refine ⟨?_, fun hLive => absurd hLive (AList.notMem_empty _)⟩
    show (payload.length : Int) ≤ 65535
    omega
  · exact absurd (List.suffix_nil.mp hSuffix) (List.cons_ne_nil _ _)

/-- The peer has kept to its windows and has no connection credit left, while the handler sees a full window and
will not send an increment. -/
theorem strayData_disagrees : Accepted {} (strayData (List.replicate 65535 0)) ∧
      RespectedBy {} (strayData (List.replicate 65535 0)) ∧
      connCredit (steps {} (strayData (List.replicate 65535 0))) = 0 ∧
      (after {} (strayData (List.replicate 65535 0))).connRecvWindow = 65535 ∧
      ¬Agreement {} (strayData (List.replicate 65535 0)) := by
  have hLength : (List.replicate 65535 (0 : UInt8)).length = 65535 := List.length_replicate
  generalize List.replicate 65535 (0 : UInt8) = payload at hLength ⊢
  obtain ⟨hAlive, hWindow, hCredit⟩ := strayData_account payload
  have hZero : connCredit (steps {} (strayData payload)) = 0 := by omega
  refine ⟨hAlive, strayData_respected hLength.le, hZero, hWindow, fun hAgree => ?_⟩
  have hConn := hAgree.conn
  rw [hWindow, hZero] at hConn
  cases hConn

end QbuemStack.Http2
