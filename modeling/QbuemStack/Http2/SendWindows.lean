import QbuemStack.Http2.Emission

/-! Flow control of what the server sends, compared with an account kept from outside. -/
namespace QbuemStack.Http2

open Octets Http Http2Handler Step

def total (amount : Step → Nat) (past : List Step) : Nat := (past.map amount).sum

def Step.sent (t : Step) : Nat :=
  ((t.queued.filter fun f => f.type = .data).map fun f => f.payload.length).sum

def Step.sentOn (sid : UInt32) (t : Step) : Nat :=
  ((t.queued.filter fun f => f.type = .data ∧ f.streamId = sid).map fun f => f.payload.length).sum

def Step.grantedTo (sid : UInt32) (t : Step) : Nat :=
  t.received.elim 0 fun f => if f.type = .windowUpdate ∧ f.streamId = sid then increment f else 0

def initialWindow : Bytes → Option Nat
  | a :: b :: c :: d :: e :: g :: rest =>
    (initialWindow rest).or (if readUint [a, b] = 0x4 then some (readUint [c, d, e, g]) else none)
  | _ => none

def Http2Frame.announcedWindow (f : Http2Frame) : Option Nat :=
  if f.type = .settings ∧ f.has flagAck = false then initialWindow f.payload else none

def latestInitialWindow : List Step → Nat
  | [] => 65535
  | t :: past => (t.received.bind Http2Frame.announcedWindow).getD (latestInitialWindow past)

/-- The windows are what the account says, and within their limits. -/
structure SendLedger (s : Http2Handler) (past : List Step) : Prop where
  conn : s.connSendWindow = 65535 + (total (Step.grantedTo 0) past : Int) - total Step.sent past
  streams : ∀ sid stream, s.streams.lookup sid = some stream →
    stream.sendWindow = (latestInitialWindow past : Int) +
      total (Step.grantedTo sid) (incarnation sid past) - total (Step.sentOn sid) (incarnation sid past)
  connMax : s.connSendWindow ≤ 2 ^ 31 - 1
  streamMax : ∀ sid stream, s.streams.lookup sid = some stream → stream.sendWindow ≤ 2 ^ 31 - 1
  connNonneg : 0 ≤ s.connSendWindow

/-- No DATA frame is queued beyond a window, and a call that is put off changes nothing. -/
structure Step.WithinWindows (t : Step) : Prop where
  conn : ∀ f ∈ t.queued, f.type = .data → (f.payload.length : Int) ≤ t.before.connSendWindow
  stream : ∀ f ∈ t.queued, f.type = .data → ∀ stream, t.before.streams.lookup f.streamId = some stream →
    (f.payload.length : Int) ≤ stream.sendWindow
  putOff : ∀ sid data endStream, t.call = .sendData sid data endStream →
    t.result = .error .operationWouldBlock → t.next = t.before

def Call.granted (sid : UInt32) : Call → Nat
  | .handleFrame f => if f.type = .windowUpdate ∧ f.streamId = sid then increment f else 0
  | _ => 0

def Call.spent (r : Result) : Call → Nat
  | .sendData _ data _ => if r = .ok then data.length else 0
  | _ => 0

def Call.spentOn (r : Result) (sid : UInt32) : Call → Nat
  | .sendData target data _ => if r = .ok ∧ target = sid then data.length else 0
  | _ => 0

theorem Step.grantedTo_eq (sid : UInt32) (t : Step) : t.grantedTo sid = t.call.granted sid := by
  unfold grantedTo received Call.granted
  cases t.call <;> rfl

theorem filter_data_queued {t : Step} (hDefined : t.result ≠ .undefined) (keep : Http2Frame → Bool)
    (hKeep : ∀ f, keep f = true → f.type = .data) : t.queued.filter keep = (t.call.messages t.result).filter keep := by
  rw [← (step_cases t).messages hDefined, List.filter_filter, queued]
  apply List.filter_congr
  intro f _
  cases hData : keep f with
  | false => rfl
  | true =>
    have hMessage : f.IsMessage := .inr (hKeep f hData)
    simp [hMessage]

theorem Step.sent_eq {t : Step} (hDefined : t.result ≠ .undefined) : t.sent = t.call.spent t.result := by
  unfold sent
  rw [filter_data_queued hDefined _ (by simp)]
  unfold Call.messages Call.spent
  cases t.call with
  | sendHeaders order sid headers endStream => simp [headersFrame]
  | sendData sid data endStream =>
    split_ifs <;> simp [dataFrame]
  | _ => simp

theorem Step.sentOn_eq {t : Step} (hDefined : t.result ≠ .undefined) (sid : UInt32) :
    t.sentOn sid = t.call.spentOn t.result sid := by
  unfold sentOn
  rw [filter_data_queued hDefined _ (by simp +contextual)]
  unfold Call.messages Call.spentOn
  cases t.call with
  | sendHeaders order target headers endStream => simp [headersFrame]
  | sendData target data endStream =>
    by_cases hOk : t.result = .ok
    · by_cases hTarget : target = sid <;> simp [hOk, hTarget, dataFrame]
    · simp [hOk]
  | _ => simp

variable {s t : Http2Handler} {call : Call} {r : Result} {sid : UInt32} {stream : Http2Stream}

variable (installed : Bool) {f : Http2Frame} (calls : List Call)

theorem Outcome.connSendWindow (h : Outcome s call t r) (hAccepted : ∀ f, call = .handleFrame f → r = .ok) :
    t.connSendWindow = s.connSendWindow + (call.granted 0 : Int) - call.spent r := by
  have hQuiet : ∀ {f : Http2Frame}, f.type ≠ .windowUpdate →
      s.connSendWindow = s.connSendWindow + ((Call.handleFrame f).granted 0 : Int) -
        (Call.handleFrame f).spent r := by
    intro f hType
    simp [Call.granted, Call.spent, hType]
  cases h with
  | settings hType h => exact h.resettled.sendWindow.trans (hQuiet (by simp [hType]))
  | headers hType h | continuation hType h | data hType h | rstStream hType h =>
    cases hAccepted _ rfl
    cases h <;> exact hQuiet (by simp [hType])
  | windowUpdate hType h =>
    cases hAccepted _ rfl
    cases h with
    | connection _ hSid => simp [Call.granted, Call.spent, hType, hSid]
    | zero _ _ hSid | unknown _ hSid | streamOverflow _ _ hSid | stream _ _ hSid =>
      simp [Call.granted, Call.spent, hSid]
  | other frames _ _ _ hNoData hType =>
    cases call with
    | handleFrame f => exact hQuiet (hType f rfl).2.2.2.2
    | sendData sid data endStream => exact absurd rfl (hNoData sid data endStream)
    | _ => simp [Call.granted, Call.spent]
  | drain => simp [Call.granted, Call.spent]
  | sendHeaders h | sendData h => cases h <;> simp [Call.granted, Call.spent]

structure Shifted (s t : Http2Handler) (announced : Option Nat) : Prop where
  initial : t.peerInitialWindowSize = announced.getD s.peerInitialWindowSize
  streams : ∀ sid, t.streams.lookup sid = (s.streams.lookup sid).map fun stream =>
    { stream with
      sendWindow := stream.sendWindow + (t.peerInitialWindowSize - s.peerInitialWindowSize : Int) }
  max : (s.peerInitialWindowSize : Int) ≤ maxWindow →
    (∀ sid stream, s.streams.lookup sid = some stream → stream.sendWindow ≤ maxWindow) →
    (t.peerInitialWindowSize : Int) ≤ maxWindow ∧
      ∀ sid stream, t.streams.lookup sid = some stream → stream.sendWindow ≤ maxWindow

theorem Shifted.refl (s : Http2Handler) : Shifted s s none where
  initial := rfl
  streams := fun sid => by cases s.streams.lookup sid <;> simp
  max := fun hInitial hStreams => ⟨hInitial, hStreams⟩

theorem Shifted.trans {u : Http2Handler} {first second : Option Nat} (h : Shifted s t first) (h' : Shifted t u second) :
    Shifted s u (second.or first)  where
  initial := by
    rw [h'.initial, h.initial]
    cases second <;> rfl
  streams := by
    intro sid
    rw [h'.streams, h.streams, Option.map_map]
    congr 1
    funext stream
    simp only [Function.comp_apply, Http2Stream.mk.injEq, true_and, and_true]
    omega
  max := fun hInitial hStreams => by
    obtain ⟨hInitial, hStreams⟩ := h.max hInitial hStreams
    exact h'.max hInitial hStreams

theorem Http2Handler.SettingOutcome.shifted {id val : Nat} (h : SettingOutcome s id val t .ok) :
    Shifted s t (if id = 0x4 then some val else none) := by
  cases h with
  | window streams hId hVal hShift =>
    obtain ⟨-, done, -, hShifted, hAll⟩ := shiftWindows_spec (val - s.peerInitialWindowSize) s.streams.keys
      s.streams s.streams.keys_nodup
    rw [hShift] at hShifted hAll
    obtain ⟨rfl, hSmall⟩ := hAll rfl
    have hKeys : ∀ {sid stream}, s.streams.lookup sid = some stream → sid ∈ s.streams.keys :=
      fun hStream => AList.mem_keys.mp (mem_of_lookup hStream)
    have hLookup : ∀ sid, streams.lookup sid = (s.streams.lookup sid).map fun stream =>
        { stream with sendWindow := stream.sendWindow + (val - s.peerInitialWindowSize : Int) } := by
      intro sid
      rw [hShifted]
      cases hStream : s.streams.lookup sid with
      | none => rfl
      | some stream => rw [Option.map_some, Option.map_some, if_pos (hKeys hStream)]
    refine ⟨by simp [hId], hLookup, fun _ _ => ⟨hVal, ?_⟩⟩
    intro sid stream hStream
    rw [hLookup sid, Option.map_eq_some_iff] at hStream
    obtain ⟨old, hOld, rfl⟩ := hStream
    exact hSmall sid (hKeys hOld) old hOld
  | frameSize hId | recorded hId =>
    rw [if_neg (by omega)]
    exact { Shifted.refl s with }
  | ignored hId =>
    rw [if_neg hId]
    exact Shifted.refl s

theorem applySettings_shifted (payload : Bytes) (s : Http2Handler) (hOk : (applySettings payload s).2 = .ok) :
    Shifted s (applySettings payload s).1 (initialWindow payload) := by
  fun_induction applySettings payload s with
  | case1 a b c d e g rest s t hEntry ih =>
    have hStep := applySetting_cases s (readUint [a, b]) (readUint [c, d, e, g])
    rw [hEntry] at hStep
    exact hStep.shifted.trans (ih hOk)
  | case2 a b c d e g rest s hFailed => exact (hFailed _ (Prod.ext rfl hOk)).elim
  | case3 payload s hShort =>
    unfold initialWindow
    split
    · exact absurd rfl (hShort _ _ _ _ _ _ _)
    · exact Shifted.refl s

theorem Http2Handler.SettingsOutcome.shifted (h : SettingsOutcome s f t .ok) :
    Shifted s t (if f.has flagAck = false then initialWindow f.payload else none) := by
  cases h with
  | acknowledged hAck =>
    rw [if_neg (by simp [hAck])]
    exact Shifted.refl s
  | applied u hAck hApplied =>
    have hShifted := applySettings_shifted f.payload s (by rw [hApplied])
    rw [hApplied] at hShifted
    rw [if_pos hAck]
    exact { hShifted with }

inductive SendWindowChange (s t : Http2Handler) (sid : UInt32) (stream : Http2Stream)
    (granted spent : Nat) : Prop
  | kept (old : Http2Stream) (hOld : s.streams.lookup sid = some old)
      (hWindow : stream.sendWindow = old.sendWindow +
        (t.peerInitialWindowSize - s.peerInitialWindowSize : Int) + granted - spent)
  | created (hNew : s.streams.lookup sid = none) (hWindow : stream.sendWindow = t.peerInitialWindowSize)
      (hGranted : granted = 0) (hSpent : spent = 0)

theorem SendWindowChange.of_eq {old : Http2Stream} (hInitial : t.peerInitialWindowSize = s.peerInitialWindowSize)
    (hOld : s.streams.lookup sid = some old) (hWindow : stream.sendWindow = old.sendWindow) :
    SendWindowChange s t sid stream 0 0 :=
  .kept old hOld (by rw [hWindow, hInitial]; simp)

theorem SendWindowChange.of_getOrCreate (hInitial : t.peerInitialWindowSize = s.peerInitialWindowSize)
    (hWindow : stream.sendWindow = (s.getOrCreateStream sid).sendWindow) : SendWindowChange s t sid stream 0 0 := by
  cases hOld : s.streams.lookup sid with
  | some old =>
    have hSame : s.getOrCreateStream sid = old := by simp [getOrCreateStream, hOld]
    exact .of_eq hInitial hOld (hSame ▸ hWindow)
  | none =>
    refine .created hOld ?_ rfl rfl
    rw [hWindow, hInitial]
    simp [getOrCreateStream, hOld]

/-- What a call does to the send window of a stream, outcome by outcome. -/
theorem Outcome.sendWindow {s t : Http2Handler} {call : Call} {r : Result} (h : Outcome s call t r)
    (hAccepted : ∀ f, call = .handleFrame f → r = .ok) (hZero : s.streams.lookup 0 = none)
    {sid : UInt32} {stream : Http2Stream} (hStream : t.streams.lookup sid = some stream) :
    SendWindowChange s t sid stream (call.granted sid) (call.spentOn r sid) := by
  have hQuiet : ∀ {f : Http2Frame}, f.type ≠ .windowUpdate → (Call.handleFrame f).granted sid = 0 := by
    intro f hType
    simp [Call.granted, hType]
  cases h with
  | @settings f _ _ hType h =>
    cases hAccepted _ rfl
    rw [hQuiet (by simp [hType])]
    have hLookup := hStream
    rw [h.shifted.streams sid, Option.map_eq_some_iff] at hLookup
    obtain ⟨old, hOld, rfl⟩ := hLookup
    exact .kept old hOld (by simp [Call.spentOn])
  | headers hType h =>
    cases hAccepted _ rfl
    rw [hQuiet (by simp [hType])]
    cases h with
    | refused => exact .of_eq rfl hStream rfl
    | buffered | complete =>
      rcases lookup_insert_cases hStream with ⟨rfl, rfl⟩ | ⟨-, hOld⟩
      · exact .of_getOrCreate rfl (ended_windows _ _).2
      · exact .of_eq rfl hOld rfl
  | continuation hType h =>
    cases hAccepted _ rfl
    rw [hQuiet (by simp [hType])]
    cases h with
    | complete _ old _ _ _ hOld =>
      rcases lookup_insert_cases hStream with ⟨rfl, rfl⟩ | ⟨-, hOther⟩
      · exact .of_eq rfl hOld rfl
      · exact .of_eq rfl hOther rfl
    | continued | orphaned => exact .of_eq rfl hStream rfl
  | data hType h =>
    cases hAccepted _ rfl
    rw [hQuiet (by simp [hType])]
    cases h with
    | unknown => exact .of_eq rfl hStream rfl
    | streamUnderflow | bodyTooLarge => exact .of_eq rfl (lookup_erase_cases hStream).2 rfl
    | ended old _ _ hOld | collected old _ _ hOld =>
      rcases lookup_insert_cases hStream with ⟨rfl, rfl⟩ | ⟨-, hOther⟩
      · exact .of_eq rfl hOld rfl
      · exact .of_eq rfl hOther rfl
  | rstStream hType h =>
    cases hAccepted _ rfl
    rw [hQuiet (by simp [hType])]
    cases h
    exact .of_eq rfl (lookup_erase_cases hStream).2 rfl
  | @windowUpdate f _ _ hType h =>
    cases hAccepted _ rfl
    have hOther : sid ≠ f.streamId → (Call.handleFrame f).granted sid = 0 := by
      intro hSid
      simp [Call.granted, Ne.symm hSid]
    cases h with
    | zero _ hZero =>
      have hNothing : (Call.handleFrame f).granted sid = 0 := by simp [Call.granted, hZero]
      rw [hNothing]
      exact .of_eq rfl hStream rfl
    | connection _ hSid =>
      rw [hOther (fun h => by rw [h, hSid, hZero] at hStream; cases hStream)]
      exact .of_eq rfl hStream rfl
    | unknown _ _ hNone =>
      rw [hOther (fun h => by rw [h, hNone] at hStream; cases hStream)]
      exact .of_eq rfl hStream rfl
    | streamOverflow =>
      obtain ⟨hSid, hOld⟩ := lookup_erase_cases hStream
      rw [hOther hSid]
      exact .of_eq rfl hOld rfl
    | stream old _ _ hOld =>
      rcases lookup_insert_cases hStream with ⟨rfl, rfl⟩ | ⟨hSid, hOld⟩
      · exact .kept old hOld (by simp [Call.granted, Call.spentOn, hType])
      · rw [hOther hSid]
        exact .of_eq rfl hOld rfl
  | other frames _ _ _ hNoData hType =>
    have hNothing : call.granted sid = 0 ∧ call.spentOn r sid = 0 := by
      cases call with
      | handleFrame f => exact ⟨hQuiet (hType f rfl).2.2.2.2, rfl⟩
      | sendData target data endStream => exact absurd rfl (hNoData target data endStream)
      | _ => exact ⟨rfl, rfl⟩
    rw [hNothing.1, hNothing.2]
    exact .of_eq rfl hStream rfl
  | drain => exact .of_eq rfl hStream rfl
  | @sendHeaders order target headers endStream _ h =>
    cases h with
    | unknown => exact .of_eq rfl hStream rfl
    | known old hOld =>
      cases endStream with
      | false => exact .of_eq rfl hStream rfl
      | true =>
        rcases lookup_insert_cases hStream with ⟨rfl, rfl⟩ | ⟨-, hOther⟩
        · exact .of_eq rfl hOld (endLocal_windows old).2
        · exact .of_eq rfl hOther rfl
  | @sendData target data endStream _ _ h =>
    have hOther : sid ≠ target → (Call.sendData target data endStream).spentOn .ok sid = 0 := by
      intro hSid
      simp [Call.spentOn, Ne.symm hSid]
    cases h with
    | blocked | tooLong => exact .of_eq rfl hStream rfl
    | unknown hNone =>
      rw [hOther (fun h => by rw [h, hNone] at hStream; cases hStream)]
      exact .of_eq rfl hStream rfl
    | known old hOld =>
      rcases lookup_insert_cases hStream with ⟨rfl, rfl⟩ | ⟨hSid, hOther'⟩
      · refine .kept old hOld ?_
        cases endStream <;> simp [Call.granted, Call.spentOn, endLocal_windows]
      · rw [hOther hSid]
        exact .of_eq rfl hOther' rfl

theorem Outcome.initialWindow (h : Outcome s call t r) (hAccepted : ∀ f, call = .handleFrame f → r = .ok) :
    (t.peerInitialWindowSize : Nat) =
      (((mk s call).received.bind Http2Frame.announcedWindow).getD s.peerInitialWindowSize) := by
  have hQuiet : ∀ {f : Http2Frame}, f.type ≠ .settings →
      s.peerInitialWindowSize = (((mk s (.handleFrame f)).received.bind
        Http2Frame.announcedWindow).getD s.peerInitialWindowSize) := by
    intro f hType
    simp [received, Http2Frame.announcedWindow, hType]
  cases h with
  | @settings f _ _ hType h =>
    cases hAccepted _ rfl
    rw [h.shifted.initial]
    simp [received, Http2Frame.announcedWindow, hType]
  | headers hType h | continuation hType h | data hType h | rstStream hType h | windowUpdate hType h =>
    cases hAccepted _ rfl
    cases h <;> exact hQuiet (by simp [hType])
  | other frames _ _ _ _ hType =>
    cases call with
    | handleFrame f => exact hQuiet (hType f rfl).2.2.2.1
    | _ => rfl
  | drain => rfl
  | sendHeaders h | sendData h => cases h <;> rfl

structure Capped (s : Http2Handler) : Prop where
  zero : s.streams.lookup 0 = none
  initial : (s.peerInitialWindowSize : Int) ≤ maxWindow
  streams : ∀ sid stream, s.streams.lookup sid = some stream → stream.sendWindow ≤ maxWindow
  conn : s.connSendWindow ≤ maxWindow
  nonneg : 0 ≤ s.connSendWindow

theorem SendWindowChange.le_max {spent : Nat} (h : SendWindowChange s t sid stream 0 spent) (hCapped : Capped s)
    (hInitial : t.peerInitialWindowSize = s.peerInitialWindowSize) : stream.sendWindow ≤ maxWindow := by
  cases h with
  | kept old hOld hWindow =>
    have hMax := hCapped.streams sid old hOld
    omega
  | created _ hWindow =>
    rw [hWindow, hInitial]
    exact hCapped.initial

theorem Outcome.capped (h : Outcome s call t r) (hAccepted : ∀ f, call = .handleFrame f → r = .ok)
    (hDefined : r ≠ .undefined) (hCapped : Capped s) : Capped t := by
  have hZero := h.lookup_zero hDefined hCapped.zero
  have hChange := fun sid stream => @Outcome.sendWindow s t call r h hAccepted hCapped.zero sid stream
  have hConn := h.connSendWindow hAccepted
  have hInitial := h.initialWindow hAccepted
  have hPlain : (∀ sid, call.granted sid = 0) → t.peerInitialWindowSize = s.peerInitialWindowSize →
      (call.spent r : Int) ≤ s.connSendWindow → Capped t := by
    intro hGranted hSame hSpent
    simp only [hGranted] at hChange hConn
    refine ⟨hZero, hSame ▸ hCapped.initial, ?_, ?_, ?_⟩
    · exact fun sid stream hStream => (hChange sid stream hStream).le_max hCapped hSame
    · have hMax := hCapped.conn
      omega
    · omega
  have hQuiet : ∀ {f : Http2Frame}, call = .handleFrame f → f.type ≠ .settings → f.type ≠ .windowUpdate →
      Capped t := by
    rintro f rfl hSettings hUpdate
    refine hPlain (by simp [Call.granted, hUpdate]) ?_ hCapped.nonneg
    rw [hInitial]
    simp [received, Http2Frame.announcedWindow, hSettings]
  cases h with
  | settings hType h =>
    cases hAccepted _ rfl
    have hMax := h.shifted.max hCapped.initial hCapped.streams
    refine ⟨hZero, hMax.1, hMax.2, ?_, ?_⟩
    · rw [h.resettled.sendWindow]
      exact hCapped.conn
    · rw [h.resettled.sendWindow]
      exact hCapped.nonneg
  | headers hType h | continuation hType h | data hType h | rstStream hType h =>
    exact hQuiet rfl (by simp [hType]) (by simp [hType])
  | windowUpdate hType h =>
    cases hAccepted _ rfl
    cases h with
    | zero | unknown => exact { hCapped with }
    | connection _ _ hFits =>
      refine { hCapped with conn := hFits, nonneg := ?_ }
      have hMin := hCapped.nonneg
      show (0 : Int) ≤ s.connSendWindow + _
      omega
    | streamOverflow =>
      exact { hCapped with
        zero := hZero
        streams := fun sid stream hStream => hCapped.streams sid stream (lookup_erase_cases hStream).2 }
    | stream old _ _ hOld hFits =>
      refine { hCapped with zero := hZero, streams := ?_ }
      intro sid stream hStream
      rcases lookup_insert_cases hStream with ⟨rfl, rfl⟩ | ⟨-, hOther⟩
      · exact hFits
      · exact hCapped.streams sid stream hOther
  | other | drain => exact { hCapped with }
  | sendHeaders h => exact hPlain (fun _ => rfl) hInitial hCapped.nonneg
  | sendData h =>
    refine hPlain (fun _ => rfl) hInitial ?_
    cases h with
    | blocked | tooLong => exact hCapped.nonneg
    | unknown _ hFits | known _ _ hFits => simpa [Call.spent] using hFits

theorem total_cons (amount : Step → Nat) (t : Step) (past : List Step) :
    total amount (t :: past) = amount t + total amount past := by
  simp [total]

section Run

variable (hAlive : Accepted { handler := installed } calls)
include hAlive

theorem capped_of_accepted : Capped (after { handler := installed } calls) := by
  induction calls with
  | nil =>
    exact ⟨rfl, (by decide : (65535 : Int) ≤ maxWindow), fun _ _ h => absurd h (by simp [after]),
      (by decide : (65535 : Int) ≤ maxWindow), (by decide : (0 : Int) ≤ 65535)⟩
  | cons call past ih =>
    obtain ⟨hPast, hOk⟩ := hAlive.cons
    exact (step_cases ⟨after { handler := installed } past, call⟩).capped hOk
      (hAlive.defined _ List.mem_cons_self) (ih hPast)

theorem latestInitialWindow_eq : latestInitialWindow (steps { handler := installed } calls) =
      (after { handler := installed } calls).peerInitialWindowSize := by
  induction calls with
  | nil => rfl
  | cons call past ih =>
    obtain ⟨hPast, hOk⟩ := hAlive.cons
    have hStep := (step_cases ⟨after { handler := installed } past, call⟩).initialWindow hOk
    rw [steps, latestInitialWindow, ih hPast]
    exact hStep.symm

/-- The connection window against the account from outside. -/
theorem conn_send_ledger : (after { handler := installed } calls).connSendWindow =
      65535 + (total (grantedTo 0) (steps { handler := installed } calls) : Int) -
        total sent (steps { handler := installed } calls) := by
  induction calls with
  | nil => rfl
  | cons call past ih =>
    obtain ⟨hPast, hOk⟩ := hAlive.cons
    have hStep := (step_cases ⟨after { handler := installed } past, call⟩).connSendWindow hOk
    have hSent := sent_eq (hAlive.defined _ List.mem_cons_self)
    have hGranted := grantedTo_eq 0 ⟨after { handler := installed } past, call⟩
    rw [steps, total_cons, total_cons, hSent, hGranted]
    have hBefore := ih hPast
    simp only at hStep
    show (next ⟨after { handler := installed } past, call⟩).connSendWindow = _
    push_cast
    omega

/-- The window of a stream against the account from outside. -/
theorem stream_send_ledger (sid : UInt32) (stream : Http2Stream)
    (hStream : (after { handler := installed } calls).streams.lookup sid = some stream) :
    stream.sendWindow = (latestInitialWindow (steps { handler := installed } calls) : Int) +
      total (grantedTo sid) (incarnation sid (steps { handler := installed } calls)) -
      total (sentOn sid) (incarnation sid (steps { handler := installed } calls)) := by
  induction calls generalizing stream with
  | nil => cases hStream
  | cons call past ih =>
    obtain ⟨hPast, hOk⟩ := hAlive.cons
    have hStep := (step_cases ⟨after { handler := installed } past, call⟩).sendWindow hOk
      (capped_of_accepted installed past hPast).zero hStream
    have hSent := sentOn_eq (hAlive.defined _ List.mem_cons_self) sid
    have hGranted := grantedTo_eq sid ⟨after { handler := installed } past, call⟩
    have hLive : sid ∈ (mk (after { handler := installed } past) call).next.streams := mem_of_lookup hStream
    rw [latestInitialWindow_eq installed _ hAlive, steps, incarnation_cons hLive, total_cons, total_cons,
      hSent, hGranted]
    cases hStep with
    | kept old hOld hWindow =>
      have hBefore := ih hPast old hOld
      rw [latestInitialWindow_eq installed _ hPast] at hBefore
      rw [hWindow, hBefore]
      push_cast
      show _ + ((after { handler := installed } (call :: past)).peerInitialWindowSize - _ : Int) + _ - _ = _
      omega
    | created hNew hWindow hNoGrant hNoSpent =>
      rw [incarnation_of_notMem (AList.lookup_eq_none.mp hNew), hNoGrant, hNoSpent, hWindow]
      simp [total]
      rfl

end Run

theorem Outcome.within (h : Outcome s call t r) (hFrame : f ∈ call.messages r) (hData : f.type = .data) :
    (f.payload.length : Int) ≤ s.connSendWindow ∧
      ∀ stream, s.streams.lookup f.streamId = some stream → (f.payload.length : Int) ≤ stream.sendWindow := by
  cases call with
  | sendHeaders order sid headers endStream =>
    rw [List.mem_singleton.mp hFrame] at hData
    cases hData
  | sendData sid data endStream =>
    cases h with
    | other _ _ _ _ hNoData => exact absurd rfl (hNoData sid data endStream)
    | sendData h =>
      cases h with
      | blocked | tooLong => exact absurd hFrame (by simp [Call.messages])
      | unknown hNone hConn =>
        have hEq : f = dataFrame sid data endStream := by simpa [Call.messages] using hFrame
        subst hEq
        exact ⟨hConn, fun stream hStream => absurd (hNone.symm.trans hStream) (by simp)⟩
      | known old hOld hConn hWindow =>
        have hEq : f = dataFrame sid data endStream := by simpa [Call.messages] using hFrame
        subst hEq
        refine ⟨hConn, fun stream hStream => ?_⟩
        rw [← Option.some.inj (hOld.symm.trans hStream)]
        exact hWindow
  | _ => cases hFrame

theorem Outcome.putOff {data : Bytes} {endStream : Bool}
    (h : Outcome s (.sendData sid data endStream) t (.error .operationWouldBlock)) : t = s := by
  cases h with
  | other _ _ _ _ hNoData => exact absurd rfl (hNoData sid data endStream)
  | sendData h => cases h <;> rfl

theorem withinWindows {t : Step} (hDefined : t.result ≠ .undefined) : t.WithinWindows := by
  have hMessage : ∀ f ∈ t.queued, f.type = .data → f ∈ t.call.messages t.result :=
    fun f hf hType => (mem_queued_iff hDefined f).mp ⟨hf, .inr hType⟩
  refine ⟨fun f hf hType => ((step_cases t).within (hMessage f hf hType) hType).1,
    fun f hf hType => ((step_cases t).within (hMessage f hf hType) hType).2, ?_⟩
  intro sid data endStream hCall hBlocked
  have hCases := step_cases t
  rw [hCall, hBlocked] at hCases
  exact hCases.putOff

/-- The send windows of every connection that stays alive are those of the account, whatever the
order of settings, updates, new streams, resets and answers. -/
theorem send_ledger (installed : Bool) (calls : List Call)
    (hAlive : Accepted { handler := installed } calls) :
    SendLedger (after { handler := installed } calls) (steps { handler := installed } calls) ∧
      ∀ t ∈ steps { handler := installed } calls, t.WithinWindows := by
  have hCapped := capped_of_accepted installed calls hAlive
  refine ⟨⟨conn_send_ledger installed calls hAlive, stream_send_ledger installed calls hAlive,
    hCapped.conn, hCapped.streams, hCapped.nonneg⟩, ?_⟩
  exact fun t ht => withinWindows (hAlive.defined t ht)

def shrunkWindow : List Call :=
  [.sendData 1 [1] false,
    .handleFrame { type := .windowUpdate, streamId := 1, payload := [0, 0, 0, 3] },
    .sendData 1 [1] false,
    .handleFrame { type := .settings, payload := [0, 4, 0, 0, 0, 1] },
    .sendData 1 [1, 2, 3] false,
    .handleFrame { type := .headers, streamId := 1, flags := flagEndHeaders }]

theorem send_ledger_shrunk : SendLedger (after {} shrunkWindow) (steps {} shrunkWindow) ∧
      ∀ t ∈ steps {} shrunkWindow, t.WithinWindows :=
  send_ledger true shrunkWindow (by decide +kernel)

end QbuemStack.Http2
