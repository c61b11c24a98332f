import QbuemStack.Http.ParserExtension
import QbuemStack.Server.Connection
import QbuemStack.Server.Coroutine

/-! Requests that follow each other on one connection, cut into reads in any way. -/
namespace QbuemStack.Server

open Octets Http HttpParser
open List (append_assoc append_nil flatten_cons map_cons mem_cons mem_cons_self mem_map)

def parsed (bytes : Bytes) : Request := (HttpParser.parse {} bytes {}).2.1

/-- One request that leaves the connection open. -/
structure OneRequest (r : Bytes) : Prop where
  complete : (HttpParser.parse {} r {}).1.isComplete = true
  whole : (HttpParser.parse {} r {}).2.2 = some r.length
  stays : (parsed r).header (ascii "Connection") ≠ ascii "close"

/-- A read event with the circumstances it finds. -/
structure Read (σ : Type) where
  env : ServerEnv
  world : σ
  bytes : Bytes

def Read.input {σ : Type} (read : Read σ) : Input σ :=
  { env := read.env, world := read.world, event := .read read.bytes }

def dispatches (log : List (Nat × Effect)) : List RequestContent :=
  log.filterMap fun x => match x.2 with
    | .dispatched rq => some (content rq)
    | _ => none

def handed (log : List (Nat × Effect)) : List (Nat × RequestContent) :=
  log.filterMap fun x => match x.2 with
    | .ran (.handler _ rq) => some (x.1, content rq)
    | _ => none

/-- Exactly the requests `rs` were dispatched, in order and once each, every handler got the request
it was dispatched for, and no complete request is left. -/
def Dispatches {σ : Type} (l : Line σ) (rs : List Bytes) : Prop :=
  dispatches l.log = rs.map (fun r => content (parsed r)) ∧
    (∀ h ∈ handed l.log, rs[h.1]?.map (fun r => content (parsed r)) = some h.2) ∧
    (HttpParser.parse {} l.conn.ctx.buf.data {}).1.isComplete = false

section Views

variable {data : Bytes} {rq : Request}

def views (rq : Request) : List StringView :=
  rq.path :: rq.queryString :: rq.body :: rq.headersFlat.entries.flatMap fun h => [h.1, h.2]

def Placed (data : Bytes) (v : StringView) : Prop :=
  v.backing = .chunkBody ∨ v.bytes = slice data v.off v.bytes.length ∧ (v.bytes = [] ∨ 0 < v.off)

def AllPlaced (data : Bytes) (rq : Request) : Prop := ∀ v ∈ views rq, Placed data v

theorem placed_substr {start : Nat} (hStart : 0 < start) (count : Nat) : Placed data (substr data start count) :=
  .inr ⟨by simp [substr, slice], .inr hStart⟩

theorem allPlaced_setPath (h : AllPlaced data rq) {start : Nat} (hStart : 0 < start) (count : Nat) :
    AllPlaced data (rq.setPath (substr data start count)) := by
  simp only [AllPlaced, views, List.forall_mem_cons] at h
  unfold Request.setPath
  split
  · exact List.forall_mem_cons.mpr ⟨placed_substr hStart count,
      List.forall_mem_cons.mpr ⟨.inr ⟨rfl, .inl rfl⟩, List.forall_mem_cons.mpr h.2.2⟩⟩
  · rename_i q _
    refine List.forall_mem_cons.mpr ⟨.inr ⟨?_, .inr hStart⟩,
      List.forall_mem_cons.mpr ⟨.inr ⟨?_, .inr (Nat.add_pos_left hStart _)⟩, List.forall_mem_cons.mpr h.2.2⟩⟩
    · simp [substr, slice, List.take_take]
    · simp [substr, slice, List.drop_take, List.drop_drop]

theorem allPlaced_addHeader (h : AllPlaced data rq) {key value : StringView} (hKey : Placed data key)
    (hValue : Placed data value) : AllPlaced data (rq.addHeader key value) := by
  simp only [AllPlaced, views, List.forall_mem_cons] at h ⊢
  refine ⟨h.1, h.2.1, h.2.2.1, fun v hv => ?_⟩
  obtain ⟨line, hLine, hIn⟩ := List.mem_flatMap.mp hv
  rw [Request.addHeader, InlineArray.entries_push] at hLine
  rcases List.mem_append.mp (List.mem_of_mem_take hLine) with hOld | hNew
  · exact h.2.2.2 v (List.mem_flatMap.mpr ⟨line, hOld, hIn⟩)
  · rw [List.mem_singleton.mp hNew] at hIn
    rcases mem_cons.mp hIn with rfl | hIn
    · exact hKey
    · rwa [List.mem_singleton.mp hIn]

theorem allPlaced_setBody (h : AllPlaced data rq) {v : StringView} (hv : Placed data v) :
    AllPlaced data (rq.setBody v) := by
  simp only [AllPlaced, views, List.forall_mem_cons] at h ⊢
  exact ⟨h.1, h.2.1, hv, h.2.2.2⟩

theorem headLoop_placed (s : Cursor) (h : AllPlaced data s.req) (hState : s.parser.state = .method) :
    AllPlaced data (headLoop data s).req ∧
      ((headLoop data s).parser.state = .method ∨ 0 < (headLoop data s).start) := by
  have hAll := headLoop_invariant data (fun t => AllPlaced data t.req ∧ (t.parser.state = .method ∨ 0 < t.start) ∧
    (t.parser.state = .headerValue → Placed data t.parser.currentHeaderKey)) ?_ s
    ⟨h, .inl hState, by simp [hState]⟩
  · exact ⟨hAll.1, hAll.2.1⟩
  rintro t c ⟨hReq, hStart, hKey⟩ - -
  unfold onByte
  cases hState : t.parser.state with
  | method =>
    simp only [methodByte]
    split_ifs
    · exact ⟨hReq, .inr (Nat.succ_pos _), by simp⟩
    · exact ⟨hReq, hStart, hKey⟩
  | path =>
    simp only [pathByte]
    split_ifs
    · exact ⟨allPlaced_setPath hReq (hStart.resolve_left (by simp [hState])) _, .inr (Nat.succ_pos _), by simp⟩
    · exact ⟨hReq, hStart, hKey⟩
  | version =>
    simp only [versionByte]
    split_ifs
    · exact ⟨hReq, .inr (Nat.succ_pos _), by simp⟩
    · exact ⟨hReq, hStart, hKey⟩
  | headerKey =>
    have hPlace := hStart.resolve_left (by simp [hState])
    simp only [headerKeyByte]
    split_ifs
    · exact ⟨hReq, .inr (Nat.succ_pos _), fun _ => placed_substr hPlace _⟩
    · exact ⟨hReq, .inr (Nat.succ_pos _), fun _ => placed_substr hPlace _⟩
    · rcases endOfHeaders_cases t with ⟨p, status, h⟩ | ⟨-, -, h⟩ | ⟨n, -, -, -, -, h⟩ | ⟨-, -, h⟩ <;> rw [h]
      · exact ⟨hReq, .inr hPlace, by simp [HttpParser.fail]⟩
      · exact ⟨hReq, .inr (Nat.succ_pos _), by simp⟩
      · exact ⟨hReq, .inr (Nat.succ_pos _), by simp⟩
      · exact ⟨hReq, .inr hPlace, by simp⟩
    · exact ⟨hReq, .inr hPlace, by simp [HttpParser.fail]⟩
    · exact ⟨hReq, .inr hPlace, by simp [hState]⟩
  | headerValue =>
    have hPlace := hStart.resolve_left (by simp [hState])
    simp only [headerValueByte]
    split_ifs
    · exact ⟨hReq, hStart, hKey⟩
    · exact ⟨hReq, .inr hPlace, by simp [HttpParser.fail]⟩
    · exact ⟨hReq, .inr hPlace, by simp [HttpParser.fail]⟩
    · exact ⟨allPlaced_addHeader hReq (hKey hState) (placed_substr hPlace _), .inr (Nat.succ_pos _), by simp⟩
    · exact ⟨hReq, hStart, hKey⟩
  | _ => exact ⟨hReq, hStart, hKey⟩

theorem ChunkRound.placed {s : Cursor} {out : Outcome ⊕ Cursor} (h : ChunkRound data s out)
    (hReq : AllPlaced data s.req) : AllPlaced data (out.elim (fun o => o.2.1) Cursor.req) := by
  cases h with
  | last eol =>
    simp only [lastChunk]
    split
    · exact hReq
    · exact allPlaced_setBody hReq (.inl rfl)
  | _ => exact hReq

theorem bodyPhase_placed (s : Cursor) (h : AllPlaced data s.req) (hStart : s.parser.state = .method ∨ 0 < s.start) :
    AllPlaced data (bodyPhase data s).2.1 := by
  have hLoop : AllPlaced data (chunkLoop data s).2.1 := by
    refine Iteration.run_invariant (chunkRound data) (fun t => AllPlaced data t.req)
      (fun o => AllPlaced data o.2.1) ?_ ?_ _ s _ h (chunkLoop_run data s)
    · exact fun t next ht hNext => ChunkRound.placed (chunkRound_cases hNext) ht
    · exact fun t o ht hExit => ChunkRound.placed (chunkRound_cases hExit) ht
  unfold bodyPhase
  cases hState : s.parser.state with
  | body =>
    simp only [fixedBody]
    split_ifs
    · exact h
    · exact allPlaced_setBody h (placed_substr (hStart.resolve_left (by simp [hState])) _)
  | chunkSize | chunkData | chunkDataEnd => exact hLoop
  | _ => exact h

/-- The views of a parsed request lie in the input. -/
theorem allPlaced_parsed (r : Bytes) : AllPlaced r (parsed r) := by
  have hEmpty : AllPlaced r {} := by
    simp [AllPlaced, views, Placed, slice, InlineArray.empty]
  unfold parsed parse
  rw [if_pos (by decide)]
  cases findHeaderEnd r with
  | none =>
    dsimp only
    split_ifs <;> exact hEmpty
  | some e =>
    obtain ⟨hHead, hStart⟩ := headLoop_placed { parser := { headerBytes := 0 }, req := {} } hEmpty rfl
    exact bodyPhase_placed _ hHead hStart

/-- The content is kept by what keeps every view. -/
theorem content_reread_iff (mem : Bytes) :
    content (rq.reread mem) = content rq ↔ ∀ v ∈ views rq, (v.reread mem).bytes = v.bytes := by
  have hLines : (rq.reread mem).headerLines = rq.headerLines ↔
      ∀ v ∈ rq.headersFlat.entries.flatMap fun h => [h.1, h.2], (v.reread mem).bytes = v.bytes := by
    simp only [Request.headerLines, Request.reread, InlineArray.map, List.map_map, List.map_inj_left,
      List.forall_mem_flatMap, List.forall_mem_cons, Function.comp_apply, Prod.mk.injEq]
    simp
  simp only [views, List.forall_mem_cons, ← hLines, content, RequestContent.mk.injEq]
  constructor
  · rintro ⟨-, hPath, hQuery, hHeaders, hBody⟩
    exact ⟨hPath, hQuery, hBody, hHeaders⟩
  · rintro ⟨hPath, hQuery, hBody, hHeaders⟩
    exact ⟨rfl, hPath, hQuery, hHeaders, hBody⟩

/-- The bytes that the views of `r` point at are the same once `left` has been moved to the front of
the buffer and a zero written behind it. -/
def Intact (r left : Bytes) : Prop :=
  ∀ v ∈ views (parsed r), v.backing = .input → ∀ k < v.bytes.length,
    (v.off + k < left.length → left[v.off + k]? = r[v.off + k]?) ∧
      (v.off + k = left.length → r[v.off + k]? = some 0)

instance (r left : Bytes) : Decidable (Intact r left) :=
  inferInstanceAs (Decidable (∀ v ∈ views (parsed r), _ → ∀ k < v.bytes.length, _))

theorem slice_eq_slice_iff (a b : Bytes) (start count : Nat) :
    slice a start count = slice b start count ↔ ∀ k < count, a[start + k]? = b[start + k]? := by
  constructor
  · intro h k hk
    have hAt := congrArg (·[k]?) h
    simpa [slice, List.getElem?_take, hk] using hAt
  · intro h
    apply List.ext_getElem?
    intro k
    by_cases hk : k < count
    · simp [slice, hk, h k hk]
    · simp [slice, hk]

theorem mem_erase (buf : Buffer) {r : Bytes} (hFront : r <+: buf.data) {i : Nat} (hi : i < r.length) :
    (buf.erase r.length).mem[i]? = r[i]? ↔
      (i < (buf.data.drop r.length).length → (buf.data.drop r.length)[i]? = r[i]?) ∧
      (i = (buf.data.drop r.length).length → r[i]? = some 0) := by
  have hMem : (buf.erase r.length).mem = buf.data.drop r.length ++ 0 :: buf.mem.drop (buf.size - r.length + 1) := rfl
  have hSize : (buf.data.drop r.length).length = buf.size - r.length := by
    rw [List.length_drop, Buffer.data_length]
  rw [hMem]
  rcases Nat.lt_trichotomy i (buf.data.drop r.length).length with h | h | h
  · rw [List.getElem?_append_left h]
    simp only [h, h.ne, true_implies, false_implies, and_true]
  · rw [List.getElem?_append_right h.ge, h, Nat.sub_self, List.getElem?_cons_zero]
    simp [eq_comm]
  · have hSame : buf.mem[i]? = r[i]? := by
      obtain ⟨more, hMore⟩ := hFront
      have hData : buf.data[i]? = r[i]? := by rw [← hMore, List.getElem?_append_left hi]
      have hInside : i < buf.size := by
        rw [← buf.data_length, ← hMore, List.length_append]
        omega
      rw [← hData, Buffer.data, List.getElem?_take, if_pos hInside]
    obtain ⟨j, hj⟩ : ∃ j, i - (buf.data.drop r.length).length = j + 1 :=
      ⟨i - (buf.data.drop r.length).length - 1, by omega⟩
    have hPlace : buf.size - r.length + 1 + j = i := by omega
    rw [List.getElem?_append_right h.le, hj, List.getElem?_cons_succ, List.getElem?_drop, hPlace, hSame]
    simp only [h.not_gt, h.ne', false_implies, and_self]

/-- A request dispatched out of a buffer reads as it was sent just if its bytes are intact. -/
theorem intact_iff (buf : Buffer) {r : Bytes} (hFront : r <+: buf.data) :
    content ((parsed r).reread (buf.erase r.length).mem) = content (parsed r) ↔
      Intact r (buf.data.drop r.length) := by
  rw [content_reread_iff]
  refine forall₂_congr fun v hv => ?_
  rcases allPlaced_parsed r v hv with hChunk | ⟨hBytes, -⟩
  · simp [StringView.reread, hChunk]
  · cases hBacking : v.backing with
    | chunkBody => simp [StringView.reread, hBacking]
    | input =>
      have hInside : ∀ k < v.bytes.length, v.off + k < r.length := by
        intro k hk
        have hLength := congrArg List.length hBytes
        simp only [slice, List.length_take, List.length_drop] at hLength
        omega
      have hView : (v.reread (buf.erase r.length).mem).bytes = v.bytes ↔
          slice (buf.erase r.length).mem v.off v.bytes.length = slice r v.off v.bytes.length := by
        rw [← hBytes, StringView.reread, hBacking]
      rw [hView, slice_eq_slice_iff, imp_iff_right rfl]
      exact forall₂_congr fun k hk => mem_erase buf hFront (hInside k hk)

/-- A request with nothing behind it is intact. -/
theorem intact_nil (r : Bytes) : Intact r [] := by
  intro v hv hInput k hk
  refine ⟨fun h => (Nat.not_lt_zero _ h).elim, fun h => ?_⟩
  rcases allPlaced_parsed r v hv with hChunk | ⟨-, hNil | hOff⟩
  · rw [hChunk] at hInput
    cases hInput
  · rw [hNil] at hk
    exact (Nat.not_lt_zero k hk).elim
  · rw [List.length_nil] at h
    omega

end Views

section Condition

variable {σ ε : Type} (app : App σ ε) (ip : Bytes)

def servingFrame (buf : Buffer) (handled : Nat) (w : σ) (rq : Request) : Frame σ :=
  { mem := buf.mem, handled := handled, response := {}, world := w
    log := [.dispatched ((rq.setRemoteAddr ip).reread buf.mem)] }

/-- A read that completes the next request finds it let through by the path guard and the WebSocket
hand-off, intact, and not stopped by a middleware before the last request. A read that leaves it
incomplete shows the end of the header section or stays within the limit. -/
def Deliverable : Buffer → Nat → List Bytes → List (Read σ) → Prop
  | _, _, rs, [] => rs = []
  | _, _, [], _ :: _ => False
  | buf, handled, r :: rs, read :: reads =>
    let buf := buf.append read.bytes
    if r <+: buf.data then
      pathRejected (parsed r).path.bytes = false ∧ isUpgrade app (parsed r) = false ∧
        Intact r (buf.data.drop r.length) ∧
        (rs = [] ∨ passes app ((parsed r).setRemoteAddr ip)
          (servingFrame ip (buf.erase r.length) (handled + 1) read.world (parsed r)) = true) ∧
        Deliverable (buf.erase r.length) (handled + 1) rs reads
    else
      (findHeaderEnd buf.data ≠ none ∨ buf.size ≤ MAX_HEADER_SIZE) ∧
        Deliverable buf handled (r :: rs) reads

end Condition

section Turns

variable {σ ε : Type} {app : App σ ε} {env : ServerEnv} {ctx : ConnCtx} {w : σ} {bytes : Bytes}

def isAside : Effect → Bool
  | .dispatched _ | .ran _ | .unregister => false
  | _ => true

variable {p : HttpParser} {rq : Request} {n : Nat}

theorem onRead_open (hParse : parse {} (ctx.buf.append bytes).data {} = (p, rq, some n))
    (hOpen : p.isComplete = false) :
    let turn := onRead app env ctx w bytes
    turn.ctx.buf = ctx.buf.append bytes ∧ turn.ctx.handled = ctx.handled ∧
      turn.ctx.clientIp = ctx.clientIp ∧ ∀ x ∈ turn.log, isAside x = true := by
  unfold onRead onData
  simp only [hParse, hOpen, Bool.false_eq_true, if_false]
  split_ifs <;> exact ⟨rfl, rfl, rfl, by simp [isAside]⟩

def Ends (turn : Turn σ) : Prop :=
  turn.log.any isUnregister = true ∧ ∀ x ∈ turn.log, isDispatched x = false ∧ ∀ who, x ≠ .ran who

theorem onRead_failed (hParse : parse {} (ctx.buf.append bytes).data {} = (p, rq, none)) :
    Ends (onRead app env ctx w bytes) := by
  unfold onRead onData Ends
  simp only [hParse]
  split_ifs <;> simp [refuse, isUnregister, isDispatched]

theorem onRead_turnedAway (hParse : parse {} (ctx.buf.append bytes).data {} = (p, rq, some n))
    (hComplete : p.isComplete = true) (hAway : pathRejected rq.path.bytes = true ∨ isUpgrade app rq = true) :
    Ends (onRead app env ctx w bytes) := by
  unfold onRead onData onComplete Ends
  simp only [hParse, hComplete, if_true]
  cases hRejected : pathRejected rq.path.bytes with
  | true =>
    simp only [if_true]
    split_ifs <;> simp [refuse, isUnregister, isDispatched]
  | false =>
    have hUpgrade : isUpgrade app rq = true := by simpa [hRejected] using hAway
    simp only [hUpgrade, Bool.false_eq_true, if_false, if_true]
    split_ifs <;> simp [isUnregister, isDispatched]

theorem onRead_served (hParse : parse {} (ctx.buf.append bytes).data {} = (p, rq, some n))
    (hComplete : p.isComplete = true) (hAllowed : pathRejected rq.path.bytes = false)
    (hPlain : isUpgrade app rq = false) :
    let buf := (ctx.buf.append bytes).erase n
    let passed := passes app (rq.setRemoteAddr ctx.clientIp) (servingFrame ctx.clientIp buf (ctx.handled + 1) w rq)
    let turn := onRead app env ctx w bytes
    turn.ctx.buf = buf ∧ turn.ctx.handled = ctx.handled + 1 ∧ turn.ctx.clientIp = ctx.clientIp ∧
      ∃ before keepAlive l,
        turn.log = before ++ .dispatched ((rq.setRemoteAddr ctx.clientIp).reread buf.mem) :: l ∧
        (∀ x ∈ before, isAside x = true) ∧
        (∀ x ∈ l, CodeEffect keepAlive rq buf.mem x) ∧ (passed = false → .unregister ∈ l) ∧
        ((rq.reread buf.mem).header (ascii "Connection") ≠ ascii "close" → ctx.handled + 1 < MAX_REQUESTS →
          keepAlive = passed) := by
  intro buf passed turn
  obtain ⟨⟨-, -, l, hLog, hAll⟩, -, hStop⟩ := dispatch_emits app env
    (decide ((rq.reread buf.mem).header (ascii "Connection") ≠ ascii "close" ∧
      ctx.handled + 1 < MAX_REQUESTS)) (rq.setRemoteAddr ctx.clientIp)
    (servingFrame ctx.clientIp buf (ctx.handled + 1) w rq)
  have hTurn : turn = onRead app env ctx w bytes := rfl
  simp only [onRead, onData, onComplete, serve, hParse, hComplete, hAllowed, hPlain, Bool.false_eq_true, if_false,
    if_true] at hTurn
  rw [hTurn]
  refine ⟨rfl, rfl, rfl,
    .disarmIdle :: (if ctx.buf.size = 0 then [.armRead] else []) ++ [.cancelRead], _, l, ?_, ?_, hAll, ?_, ?_⟩
  · rw [append_assoc]
    exact congrArg (fun log => _ ++ .cancelRead :: log) hLog
  · split_ifs <;> simp [isAside]
  · intro hFalse
    have hIn := hStop hFalse
    rw [hLog] at hIn
    simpa [servingFrame] using hIn
  · intro hHeader hHandled
    simp [hHeader, hHandled, passed]

end Turns

section Cuts

variable {r data : Bytes}

theorem OneRequest.parse_more (h : OneRequest r) (hMore : r <+: data) :
    ∃ p, parse {} data {} = (p, parsed r, some r.length) ∧ p.isComplete = true := by
  obtain ⟨more, rfl⟩ := hMore
  have hState : (parse {} r {}).1.state = .complete := of_decide_eq_true h.complete
  obtain ⟨e, he⟩ := parse_complete_headerEnd {} r {} rfl hState
  refine ⟨(parse {} r {}).1, ?_, h.complete⟩
  rw [parse_append {} r more {} rfl (fun _ => by rw [he]; simp) (.inr hState), ← h.whole]
  rfl

/-- Without the end of the header section the limit is on everything read. -/
theorem parse_headless (hEnd : findHeaderEnd data = none) : parse {} data {} =
      if MAX_HEADER_SIZE < data.length then
        (fail { headerBytes := 0 + data.length } 400, {}, none)
      else ({ headerBytes := 0 + data.length }, {}, some data.length) := by
  have hAwaits : awaitsHeaderEnd {} = true := rfl
  unfold parse
  rw [if_pos hAwaits, hEnd]
  simp only [gt_iff_lt, Nat.zero_add]

theorem OneRequest.parse_less (h : OneRequest r) (hLess : data <+: r) (hNe : data ≠ r)
    (hSmall : findHeaderEnd data ≠ none ∨ data.length ≤ MAX_HEADER_SIZE) :
    ∃ p rq n, parse {} data {} = (p, rq, some n) ∧ p.isComplete = false := by
  have hUndecided : ¬HttpParser.Decided (parse {} data {}) := by
    intro hDecided
    obtain ⟨more, rfl⟩ := hLess
    have hLength : data.length < (data ++ more).length := by
      have hMore : more ≠ [] := fun hNil => hNe (by rw [hNil, append_nil])
      rw [List.length_append]
      have hPos := List.length_pos_of_ne_nil hMore
      omega
    cases hEnd : findHeaderEnd data with
    | some e =>
      have hSame := parse_append {} data more {} rfl (fun _ => by rw [hEnd]; simp) hDecided
      have hWhole := h.whole
      rw [hSame] at hWhole
      have hLe := parse_le {} data {} _ hWhole
      omega
    | none =>
      have hShort : data.length ≤ MAX_HEADER_SIZE := by simpa [hEnd] using hSmall
      rw [parse_headless hEnd, if_neg (Nat.not_lt.mpr hShort)] at hDecided
      rcases hDecided with hNone | hComplete
      · cases hNone
      · cases hComplete
  generalize parse {} data {} = o at hUndecided
  obtain ⟨p, rq, n⟩ := o
  cases n with
  | none => exact absurd (.inl rfl) hUndecided
  | some n =>
    refine ⟨p, rq, n, rfl, ?_⟩
    have hState : p.state ≠ .complete := fun hState => hUndecided (.inr hState)
    simp [isComplete, hState]

end Cuts

section Logs

theorem dispatches_append (l l' : List (Nat × Effect)) :
    dispatches (l ++ l') = dispatches l ++ dispatches l' := List.filterMap_append ..

theorem handed_append (l l' : List (Nat × Effect)) : handed (l ++ l') = handed l ++ handed l' :=
  List.filterMap_append ..

theorem dispatches_eq_nil {effects : List Effect} (h : ∀ x ∈ effects, isDispatched x = false) (n : Nat) :
    dispatches (effects.map fun x => (n, x)) = [] := by
  rw [dispatches, List.filterMap_eq_nil_iff, List.forall_mem_map]
  intro x hx
  have hNot := h x hx
  cases x <;> simp_all [isDispatched]

theorem handed_eq_nil {effects : List Effect} (h : ∀ x ∈ effects, ∀ who, x ≠ .ran who) (n : Nat) :
    handed (effects.map fun x => (n, x)) = [] := by
  rw [handed, List.filterMap_eq_nil_iff, List.forall_mem_map]
  intro x hx
  have hNot := h x hx
  cases x <;> simp_all

theorem codeEffect_spec {keepAlive : Bool} {rq : Request} {mem : Bytes} {x : Effect}
    (h : CodeEffect keepAlive rq mem x) : isDispatched x = false ∧ (keepAlive = true → isUnregister x = false) ∧
      ∀ id handed, x = .ran (.handler id handed) → content handed = content (rq.reread mem) := by
  refine ⟨?_, ?_, ?_⟩
  · cases x <;> first | rfl | exact h.elim
  · rintro rfl
    cases x <;> first | rfl | cases h
  · rintro id handed rfl
    exact h

theorem isAside_spec {x : Effect} (h : isAside x = true) :
    isDispatched x = false ∧ isUnregister x = false ∧ ∀ who, x ≠ .ran who := by
  cases x <;> simp_all [isAside, isDispatched, isUnregister]

end Logs

section Step

variable {σ ε : Type} {app : App σ ε} {l : Line σ} {read : Read σ}

theorem run_stuck (hStuck : l.registered = false) (reads : List (Read σ)) : l.run app (reads.map Read.input) = l := by
  induction reads with
  | nil => rfl
  | cons read reads ih =>
    have hDisabled : l.enabled read.input.event = false := by simp [Line.enabled, Read.input, hStuck]
    have hStep : l.step app read.input = l := by
      rw [Line.step, hDisabled]
      rfl
    rw [map_cons, Line.run, List.foldl_cons, hStep]
    exact ih

abbrev Line.filled (l : Line σ) (read : Read σ) : Buffer := l.conn.ctx.buf.append read.bytes

abbrev Line.turn (app : App σ ε) (l : Line σ) (read : Read σ) : Turn σ :=
  onRead app read.env l.conn.ctx read.world read.bytes

variable (hReg : l.registered = true) (hBytes : read.bytes ≠ [])

include hReg hBytes

theorem step_read : l.step app read.input =
      { conn := (l.conn.onEvent app read.input).1
        registered := !(l.turn app read).log.any isUnregister
        closed := l.closed || (l.turn app read).log.any isClose
        log := l.log ++ (l.turn app read).log.map fun x => (l.conn.dispatched, x) } := by
  have hEnabled : l.enabled read.input.event = true := by simp [Line.enabled, Read.input, hReg, hBytes]
  rw [Line.step, if_pos hEnabled, hReg]
  rfl

theorem step_ends (hEnds : Ends (l.turn app read)) :
    (l.step app read.input).registered = false ∧ dispatches (l.step app read.input).log = dispatches l.log := by
  rw [step_read hReg hBytes]
  refine ⟨by rw [hEnds.1]; rfl, ?_⟩
  rw [dispatches_append, dispatches_eq_nil fun x hx => (hEnds.2 x hx).1, append_nil]

theorem step_open {p : HttpParser} {rq : Request} {n : Nat}
    (hParse : parse {} (l.filled read).data {} = (p, rq, some n)) (hOpen : p.isComplete = false) :
    let next := l.step app read.input
    next.registered = true ∧ next.conn.ctx.buf = l.conn.ctx.buf.append read.bytes ∧
      next.conn.ctx.handled = l.conn.ctx.handled ∧ next.conn.ctx.clientIp = l.conn.ctx.clientIp ∧
      next.conn.dispatched = l.conn.dispatched ∧ dispatches next.log = dispatches l.log ∧
      handed next.log = handed l.log := by
  obtain ⟨hBuf, hHandled, hIp, hAside⟩ := @onRead_open σ ε app read.env l.conn.ctx read.world read.bytes p rq n
    hParse hOpen
  have hNone := fun x hx => isAside_spec (hAside x hx)
  intro next
  have hNext : next = _ := step_read hReg hBytes
  rw [hNext]
  refine ⟨?_, hBuf, hHandled, hIp, ?_, ?_, ?_⟩
  · rw [Bool.not_eq_true', List.any_eq_false]
    intro x hx
    simp [(hNone x hx).2.1]
  · show l.conn.dispatched + List.countP isDispatched _ = _
    rw [List.countP_eq_zero.mpr fun x hx => by simp [(hNone x hx).1], Nat.add_zero]
  · rw [dispatches_append, dispatches_eq_nil fun x hx => (hNone x hx).1, append_nil]
  · rw [handed_append, handed_eq_nil fun x hx => (hNone x hx).2.2, append_nil]

theorem step_served {p : HttpParser} {rq : Request} {n : Nat}
    (hParse : parse {} (l.filled read).data {} = (p, rq, some n))
    (hComplete : p.isComplete = true) (hAllowed : pathRejected rq.path.bytes = false)
    (hPlain : isUpgrade app rq = false) :
    let buf := (l.filled read).erase n
    let passed := passes app (rq.setRemoteAddr l.conn.ctx.clientIp)
      (servingFrame l.conn.ctx.clientIp buf (l.conn.ctx.handled + 1) read.world rq)
    let next := l.step app read.input
    next.conn.ctx.buf = buf ∧ next.conn.ctx.handled = l.conn.ctx.handled + 1 ∧
      next.conn.ctx.clientIp = l.conn.ctx.clientIp ∧ next.conn.dispatched = l.conn.dispatched + 1 ∧
      dispatches next.log = dispatches l.log ++ [content (rq.reread buf.mem)] ∧
      (∀ h ∈ handed next.log, h ∈ handed l.log ∨ h = (l.conn.dispatched, content (rq.reread buf.mem))) ∧
      (passed = false → next.registered = false) ∧
      ((rq.reread buf.mem).header (ascii "Connection") ≠ ascii "close" →
        l.conn.ctx.handled + 1 < MAX_REQUESTS → passed = true → next.registered = true) := by
  obtain ⟨hBuf, hHandled, hIp, before, keepAlive, code, hLog, hBefore, hCode, hStop, hKeep⟩ :=
    @onRead_served σ ε app read.env l.conn.ctx read.world read.bytes p rq n hParse hComplete hAllowed hPlain
  intro buf passed next
  have hNext : next = _ := step_read hReg hBytes
  have hAside := fun x hx => isAside_spec (hBefore x hx)
  have hOwn := fun x hx => codeEffect_spec (hCode x hx)
  rw [hNext, hLog]
  refine ⟨hBuf, hHandled, hIp, ?_, ?_, ?_, ?_, ?_⟩
  · show l.conn.dispatched + (l.turn app read).log.countP isDispatched = _
    have hBeforeNone : before.countP isDispatched = 0 :=
      List.countP_eq_zero.mpr fun x hx => by simp [(hAside x hx).1]
    have hCodeNone : code.countP isDispatched = 0 :=
      List.countP_eq_zero.mpr fun x hx => by simp [(hOwn x hx).1]
    rw [hLog, List.countP_append, List.countP_cons, hBeforeNone, hCodeNone]
    rfl
  · rw [dispatches_append, List.map_append, dispatches_append,
      dispatches_eq_nil fun x hx => (hAside x hx).1, List.nil_append]
    show _ ++ content (rq.reread buf.mem) :: dispatches (code.map fun x => (l.conn.dispatched, x)) = _
    rw [dispatches_eq_nil fun x hx => (hOwn x hx).1]
  · intro h hIn
    rw [handed_append, List.map_append, handed_append, handed_eq_nil fun x hx => (hAside x hx).2.2,
      List.nil_append] at hIn
    rcases List.mem_append.mp hIn with hOld | hNew
    · exact .inl hOld
    · right
      obtain ⟨y, hy, hHanded⟩ := List.mem_filterMap.mp hNew
      obtain ⟨x, hx, rfl⟩ := mem_map.mp hy
      rcases mem_cons.mp hx with rfl | hx
      · cases hHanded
      · simp only at hHanded
        split at hHanded
        · cases hHanded
          rw [(hOwn _ hx).2.2 _ _ rfl]
        · cases hHanded
  · intro hStopped
    have hIn := hStop hStopped
    simp only [List.any_append, List.any_cons]
    rw [List.any_eq_true.mpr ⟨_, hIn, rfl⟩]
    simp
  · intro hHeader hCount hPassed
    have hTrue : keepAlive = true := (hKeep hHeader hCount).trans hPassed
    rw [Bool.not_eq_true', List.any_eq_false]
    intro x hx
    rcases List.mem_append.mp hx with hIn | hIn
    · simp [(hAside x hIn).2.1]
    · rcases mem_cons.mp hIn with rfl | hIn
      · exact Bool.false_ne_true
      · simp [(hOwn x hIn).2.1 hTrue]

end Step

section Runs

variable {σ ε : Type} (app : App σ ε)

theorem header_of_content {rq rq' : Request} (h : content rq = content rq') (key : Bytes) :
    rq.header key = rq'.header key := by
  have hLookup : ∀ rq : Request, rq.header key =
      ((rq.headerLines.find? fun line => line.1 = key).map Prod.snd).getD [] := by
    intro rq
    unfold Request.header Request.headerLines
    rw [List.find?_map]
    simp only [Function.comp_def]
    cases rq.headersFlat.entries.find? fun h => h.1.bytes = key <;> rfl
  rw [hLookup, hLookup]
  exact congrArg (fun lines => ((List.find? (fun line => line.1 = key) lines).map Prod.snd).getD [])
    (congrArg RequestContent.headers h)

structure Upcoming (l : Line σ) (rs : List Bytes) (reads : List (Read σ)) : Prop where
  requests : ∀ r ∈ rs, OneRequest r
  few : l.conn.ctx.handled + rs.length < MAX_REQUESTS
  nonempty : ∀ read ∈ reads, read.bytes ≠ []
  cut : l.conn.ctx.buf.data ++ (reads.map Read.bytes).flatten = rs.flatten

variable {l : Line σ} {rs : List Bytes} {read : Read σ} {reads : List (Read σ)}

theorem Upcoming.compare {r : Bytes} (h : Upcoming l (r :: rs) (read :: reads)) :
    r <+: (l.filled read).data ∨ ¬r <+: (l.filled read).data ∧
      (l.filled read).data <+: r ∧ (l.filled read).data ≠ r := by
  have hCut := h.cut
  rw [map_cons, flatten_cons, flatten_cons, ← append_assoc, ← Buffer.data_append] at hCut
  by_cases hMore : r <+: (l.filled read).data
  · exact .inl hMore
  · rcases List.prefix_or_prefix_of_prefix ⟨_, hCut⟩ ⟨rs.flatten, rfl⟩ with hLess | hPrefix
    · exact .inr ⟨hMore, hLess, fun hEq => hMore (by rw [hEq])⟩
    · exact absurd hPrefix hMore

theorem Upcoming.room {r : Bytes} (h : Upcoming l (r :: rs) (read :: reads)) :
    l.conn.ctx.handled + 1 < MAX_REQUESTS := by
  have hFew := h.few
  rw [List.length_cons] at hFew
  omega

theorem OneRequest.header_kept {r mem : Bytes} (h : OneRequest r)
    (hIntact : content ((parsed r).reread mem) = content (parsed r)) :
    ((parsed r).reread mem).header (ascii "Connection") ≠ ascii "close" := by
  rw [header_of_content hIntact]
  exact h.stays

theorem Upcoming.after_open {next : Line σ} (h : Upcoming l rs (read :: reads))
    (hBuf : next.conn.ctx.buf = l.filled read)
    (hHandled : next.conn.ctx.handled = l.conn.ctx.handled) : Upcoming next rs reads  where
  requests := h.requests
  few := by rw [hHandled]; exact h.few
  nonempty := fun read hIn => h.nonempty read (List.mem_cons_of_mem _ hIn)
  cut := by
    rw [hBuf, Buffer.data_append, append_assoc]
    exact h.cut

theorem Upcoming.after_served {next : Line σ} {r : Bytes} (h : Upcoming l (r :: rs) (read :: reads))
    (hMore : r <+: (l.filled read).data) (hBuf : next.conn.ctx.buf = (l.filled read).erase r.length)
    (hHandled : next.conn.ctx.handled = l.conn.ctx.handled + 1) : Upcoming next rs reads  where
  requests := fun r hIn => h.requests r (List.mem_cons_of_mem _ hIn)
  few := by
    have hFew := h.few
    rw [List.length_cons] at hFew
    omega
  nonempty := fun read hIn => h.nonempty read (List.mem_cons_of_mem _ hIn)
  cut := by
    have hCut := h.cut
    rw [map_cons, flatten_cons, flatten_cons, ← append_assoc, ← Buffer.data_append] at hCut
    obtain ⟨rest, hRest⟩ := hMore
    rw [hBuf, Buffer.data_erase, ← hRest, List.drop_left]
    rw [← hRest, append_assoc] at hCut
    exact List.append_cancel_left hCut

theorem run_cons (l : Line σ) (read : Read σ) (reads : List (Read σ)) :
    l.run app ((read :: reads).map Read.input) = (l.step app read.input).run app (reads.map Read.input) :=
  rfl

theorem run_log (l : Line σ) (inputs : List (Input σ)) : ∃ more, (l.run app inputs).log = l.log ++ more := by
  induction inputs generalizing l with
  | nil => exact ⟨[], (append_nil _).symm⟩
  | cons i inputs ih =>
    have hStep : ∃ more, (l.step app i).log = l.log ++ more := by
      unfold Line.step
      split_ifs
      · exact ⟨_, rfl⟩
      · exact ⟨[], (append_nil _).symm⟩
    obtain ⟨more, hMore⟩ := hStep
    obtain ⟨more', hMore'⟩ := ih (l.step app i)
    refine ⟨more ++ more', ?_⟩
    rw [← append_assoc, ← hMore]
    exact hMore'

/-- By induction on the reads: what is deliverable is dispatched. -/
theorem run_of_deliverable (l : Line σ) (rs : List Bytes) (reads : List (Read σ))
    (hUp : Upcoming l rs reads) (hReg : rs ≠ [] → l.registered = true)
    (hCondition : Deliverable app l.conn.ctx.clientIp l.conn.ctx.buf l.conn.ctx.handled rs reads) :
    let final := l.run app (reads.map Read.input)
    dispatches final.log = dispatches l.log ++ rs.map (fun r => content (parsed r)) ∧
      final.conn.ctx.buf.data = [] ∧
      ∀ h ∈ handed final.log, h ∈ handed l.log ∨
        ∃ k, h.1 = l.conn.dispatched + k ∧ rs[k]?.map (fun r => content (parsed r)) = some h.2 := by
  induction reads generalizing l rs with
  | nil =>
    obtain rfl : rs = [] := hCondition
    have hEmpty : l.conn.ctx.buf.data = [] := by simpa using hUp.cut
    exact ⟨(append_nil _).symm, hEmpty, fun h hIn => .inl hIn⟩
  | cons read reads ih =>
    cases rs with
    | nil => exact hCondition.elim
    | cons r rs =>
      have hReg := hReg (List.cons_ne_nil r rs)
      have hBytes := hUp.nonempty read mem_cons_self
      have hRequest := hUp.requests r mem_cons_self
      simp only [Deliverable] at hCondition
      simp only [run_cons]
      rcases hUp.compare with hMore | ⟨hNotMore, hLess, hNe⟩
      · rw [if_pos hMore] at hCondition
        obtain ⟨hAllowed, hPlain, hBytes', hLast, hRest⟩ := hCondition
        have hIntact := (intact_iff (l.filled read) hMore).mpr hBytes'
        obtain ⟨p, hParse, hComplete⟩ := hRequest.parse_more hMore
        obtain ⟨hBuf, hHandled, hIp, hCount, hDispatches, hHanded, -, hOpen⟩ :=
          step_served hReg hBytes hParse hComplete hAllowed hPlain
        rw [← hBuf, ← hHandled, ← hIp] at hRest
        obtain ⟨hAll, hEmpty, hGiven⟩ := ih _ rs (hUp.after_served hMore hBuf hHandled)
          (fun hSome => hOpen (hRequest.header_kept hIntact) hUp.room (hLast.resolve_left hSome)) hRest
        refine ⟨?_, hEmpty, ?_⟩
        · rw [hAll, hDispatches, hIntact, append_assoc]
          rfl
        · intro h hIn
          rcases hGiven h hIn with hBefore | ⟨k, hNumber, hContent⟩
          · rcases hHanded h hBefore with hOld | rfl
            · exact .inl hOld
            · exact .inr ⟨0, rfl, congrArg some hIntact.symm⟩
          · refine .inr ⟨k + 1, ?_, hContent⟩
            omega
      · rw [if_neg hNotMore] at hCondition
        obtain ⟨hSmall, hRest⟩ := hCondition
        rw [← Buffer.data_length] at hSmall
        obtain ⟨p, rq, n, hParse, hOpen⟩ := hRequest.parse_less hLess hNe hSmall
        obtain ⟨hStays, hBuf, hHandled, hIp, hCount, hDispatches, hHanded⟩ :=
          step_open hReg hBytes hParse hOpen
        rw [← hBuf, ← hHandled, ← hIp] at hRest
        obtain ⟨hAll, hEmpty, hGiven⟩ := ih _ (r :: rs) (hUp.after_open hBuf hHandled)
          (fun _ => hStays) hRest
        rw [hDispatches] at hAll
        rw [hHanded, hCount] at hGiven
        exact ⟨hAll, hEmpty, hGiven⟩

/-- A read that breaks the condition loses a request for good. -/
theorem deliverable_of_run (l : Line σ) (rs : List Bytes) (reads : List (Read σ))
    (hUp : Upcoming l rs reads) (hReg : rs ≠ [] → l.registered = true)
    (hAll : dispatches (l.run app (reads.map Read.input)).log =
      dispatches l.log ++ rs.map (fun r => content (parsed r))) :
    Deliverable app l.conn.ctx.clientIp l.conn.ctx.buf l.conn.ctx.handled rs reads := by
  induction reads generalizing l rs with
  | nil =>
    have hNone := List.self_eq_append_right.mp hAll
    exact List.map_eq_nil_iff.mp hNone
  | cons read reads ih =>
    have hBytes := hUp.nonempty read mem_cons_self
    cases rs with
    | nil =>
      have hCut := hUp.cut
      simp [hBytes] at hCut
    | cons r rs =>
      have hReg := hReg (List.cons_ne_nil r rs)
      have hRequest := hUp.requests r mem_cons_self
      rw [run_cons] at hAll
      have hNotEnds : ¬Ends (l.turn app read) := by
        intro hEnds
        obtain ⟨hStuck, hSame⟩ := step_ends hReg hBytes hEnds
        rw [run_stuck hStuck, hSame] at hAll
        have hNone := List.self_eq_append_right.mp hAll
        cases hNone
      simp only [Deliverable]
      rcases hUp.compare with hMore | ⟨hNotMore, hLess, hNe⟩
      · rw [if_pos hMore]
        obtain ⟨p, hParse, hComplete⟩ := hRequest.parse_more hMore
        have hAllowed : pathRejected (parsed r).path.bytes = false := by
          by_contra hRejected
          exact hNotEnds (onRead_turnedAway hParse hComplete (.inl (by simpa using hRejected)))
        have hPlain : isUpgrade app (parsed r) = false := by
          by_contra hUpgrade
          exact hNotEnds (onRead_turnedAway hParse hComplete (.inr (by simpa using hUpgrade)))
        obtain ⟨hBuf, hHandled, hIp, -, hDispatches, -, hStop, hOpen⟩ :=
          step_served hReg hBytes hParse hComplete hAllowed hPlain
        obtain ⟨more, hLog⟩ := run_log app (l.step app read.input) (reads.map Read.input)
        rw [hLog, dispatches_append, hDispatches, append_assoc] at hAll
        obtain ⟨hIntact, hRest⟩ := List.cons.inj (List.append_cancel_left hAll)
        have hNext : dispatches ((l.step app read.input).run app (reads.map Read.input)).log =
            dispatches (l.step app read.input).log ++ rs.map (fun r => content (parsed r)) := by
          rw [hLog, dispatches_append]
          exact congrArg _ hRest
        have hLast : rs = [] ∨ passes app ((parsed r).setRemoteAddr l.conn.ctx.clientIp)
            (servingFrame l.conn.ctx.clientIp ((l.filled read).erase r.length)
              (l.conn.ctx.handled + 1) read.world (parsed r)) = true := by
          by_contra hNeither
          obtain ⟨hSome, hStopped⟩ := not_or.mp hNeither
          rw [run_stuck (hStop (Bool.eq_false_iff.mpr hStopped))] at hNext
          exact hSome (List.map_eq_nil_iff.mp (List.self_eq_append_right.mp hNext))
        refine ⟨hAllowed, hPlain, (intact_iff (l.filled read) hMore).mp hIntact, hLast, ?_⟩
        rw [← hBuf, ← hHandled, ← hIp]
        exact ih _ rs (hUp.after_served hMore hBuf hHandled)
          (fun hSome => hOpen (hRequest.header_kept hIntact) hUp.room (hLast.resolve_left hSome)) hNext
      · rw [if_neg hNotMore]
        have hSmall : findHeaderEnd (l.filled read).data ≠ none ∨
            (l.filled read).data.length ≤ MAX_HEADER_SIZE := by
          by_contra hNeither
          obtain ⟨hEnd, hLarge⟩ := not_or.mp hNeither
          have hParse := parse_headless (not_not.mp hEnd)
          rw [if_pos (Nat.not_le.mp hLarge)] at hParse
          exact hNotEnds (onRead_failed hParse)
        obtain ⟨p, rq, n, hParse, hOpen⟩ := hRequest.parse_less hLess hNe hSmall
        obtain ⟨hStays, hBuf, hHandled, hIp, -, hDispatches, -⟩ := step_open hReg hBytes hParse hOpen
        rw [Buffer.data_length] at hSmall
        refine ⟨hSmall, ?_⟩
        rw [← hBuf, ← hHandled, ← hIp]
        rw [← hDispatches] at hAll
        exact ih _ (r :: rs) (hUp.after_open hBuf hHandled) (fun _ => hStays) hAll

end Runs

section Examples

def bareApp : App Unit Unit := { router := {} }

theorem fixedDate_line : cr ∉ ([48] : Bytes) ∧ lf ∉ ([48] : Bytes) := by decide

def fixedDate : ServerEnv := { order := .insertion, date := [48], date_line := fixedDate_line }

def readOf (bytes : Bytes) : Read Unit := { env := fixedDate, world := (), bytes := bytes }

def firstRequest : Bytes := ascii "GET /aa HTTP/1.1\r\n\r\n"

def secondRequest : Bytes := ascii "GET /bb HTTP/1.1\r\n\r\n"

theorem firstRequest_one : OneRequest firstRequest :=
  ⟨by decide +kernel, by decide +kernel, by decide +kernel⟩

theorem secondRequest_one : OneRequest secondRequest :=
  ⟨by decide +kernel, by decide +kernel, by decide +kernel⟩

theorem bothRequests_one : ∀ r ∈ [firstRequest, secondRequest], OneRequest r := by
  simp [firstRequest_one, secondRequest_one]

def cutReads : List (Read Unit) :=
  [readOf (firstRequest.take 5), readOf (firstRequest.drop 5 ++ secondRequest.take 2), readOf (secondRequest.drop 2)]

end Examples

end QbuemStack.Server
