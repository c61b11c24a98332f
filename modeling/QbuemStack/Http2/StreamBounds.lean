import Mathlib.Algebra.Order.BigOperators.Group.List
import QbuemStack.Http2.Outcomes

/-! What a peer can make a connection hold: how many streams, and how many bytes of unfinished
header blocks. -/
namespace QbuemStack.Http2

open Octets Http Http2Handler AList Step

/-- At most 128 streams, and header blocks within their cap and for live streams only. -/
structure Bounded (s : Http2Handler) : Prop where
  streams : s.streams.keys.length ≤ maxConcurrentStreams
  blocks : ∀ sid buf, s.continuationBuffer.lookup sid = some buf → buf.length ≤ maxHeaderBlock
  live : ∀ sid ∈ s.continuationBuffer, sid ∈ s.streams
  total : (s.continuationBuffer.entries.map fun e => e.2.length).sum ≤
    maxConcurrentStreams * maxHeaderBlock

variable {s t : Http2Handler} {sid : UInt32} {call : Call} {r : Result} {blocks : AList (fun _ : UInt32 => Bytes)}

theorem length_insert_le (hAdmits : Admits s sid) (stream : Http2Stream)
    (hLe : s.streams.keys.length ≤ maxConcurrentStreams) :
    (s.streams.insert sid stream).keys.length ≤ maxConcurrentStreams := by
  by_cases hIn : sid ∈ s.streams.keys
  · rw [(keys_insert_perm hIn stream).length_eq]
    exact hLe
  · have hNone : s.streams.lookup sid = none := lookup_eq_none.mpr hIn
    have hRoom : s.streams.keys.length < maxConcurrentStreams := not_le.mp fun h => hAdmits ⟨hNone, h⟩
    rw [keys_insert, List.length_cons, List.erase_of_not_mem hIn]
    exact hRoom

theorem Outcome.streams_le (h : Outcome s call t r) (hDefined : r ≠ .undefined)
    (hLe : s.streams.keys.length ≤ maxConcurrentStreams) : t.streams.keys.length ≤ maxConcurrentStreams := by
  have hChange := h.streams_change hDefined
  generalize t.streams = streams at hChange ⊢
  cases hChange with
  | kept hKeys => exact hKeys.length_eq ▸ hLe
  | stored sid stream hAdmits => exact length_insert_le hAdmits stream hLe
  | dropped sid =>
    rw [keys_erase]
    exact (List.length_erase_le ..).trans hLe

section

variable (hAll : ∀ sid buf, blocks.lookup sid = some buf → buf.length ≤ maxHeaderBlock)
include hAll

theorem blocks_insert {block : Bytes} (hBlock : block.length ≤ maxHeaderBlock) :
    ∀ other buf, (blocks.insert sid block).lookup other = some buf → buf.length ≤ maxHeaderBlock := by
  intro other buf hBuf
  rcases lookup_insert_cases hBuf with ⟨-, rfl⟩ | ⟨-, hOld⟩
  · exact hBlock
  · exact hAll other buf hOld

theorem blocks_erase (sid : UInt32) :
    ∀ other buf, (blocks.erase sid).lookup other = some buf → buf.length ≤ maxHeaderBlock := by
  intro other buf hBuf
  exact hAll other buf (lookup_erase_cases hBuf).2

end

theorem Outcome.blocks_le (h : Outcome s call t r) (hDefined : r ≠ .undefined)
    (hAll : ∀ sid buf, s.continuationBuffer.lookup sid = some buf → buf.length ≤ maxHeaderBlock) :
    ∀ sid buf, t.continuationBuffer.lookup sid = some buf → buf.length ≤ maxHeaderBlock := by
  cases h with
  | settings hType h => exact h.resettled.blocks ▸ hAll
  | headers hType h =>
    cases h with
    | overrun => exact absurd rfl hDefined
    | tooLarge => exact blocks_erase hAll _
    | buffered offset size _ _ _ _ hInside hSmall =>
      refine blocks_insert hAll ?_
      rw [List.length_append, slice_length _ _ _ hInside]
      exact hSmall
    | _ => exact hAll
  | continuation hType h =>
    cases h with
    | unexpected => exact hAll
    | tooLarge | orphaned | complete => exact blocks_erase hAll _
    | continued _ _ hSmall =>
      refine blocks_insert hAll ?_
      rw [List.length_append]
      exact hSmall
  | data hType h | windowUpdate hType h | sendHeaders h | sendData h => cases h <;> exact hAll
  | rstStream hType h => cases h <;> exact blocks_erase hAll _
  | other | drain => exact hAll

def Discards (s : Http2Handler) (f : Http2Frame) : Prop :=
  f.streamId ≠ 0 ∧ ∃ stream ∈ s.streams.lookup f.streamId,
    f.type = .data ∧ (f.payload.length : Int) ≤ s.connRecvWindow ∧
        (stream.recvWindow < f.payload.length ∨
          ∃ content ∈ dataContent f, maxRequestBody < stream.requestBody.length + content.length) ∨
      f.type = .windowUpdate ∧ f.payload.length = 4 ∧ increment f ≠ 0 ∧
        maxWindow < stream.sendWindow + increment f

instance (s : Http2Handler) (f : Http2Frame) : Decidable (Discards s f) :=
  inferInstanceAs (Decidable (_ ∧ ∃ stream ∈ s.streams.lookup f.streamId, _))

/-- The handler gives up a stream whose header block is not complete. -/
def Step.Strands (t : Step) : Prop :=
  ∃ f ∈ t.received, f.streamId ∈ t.before.continuationBuffer ∧ Discards t.before f

instance (t : Step) : Decidable t.Strands := inferInstanceAs (Decidable (∃ f ∈ t.received, _))

/-- A step keeps blocks to live streams unless it strands one. -/
theorem Outcome.live (h : Outcome s call t r) (hAccepted : ∀ f, call = .handleFrame f → r = .ok)
    (hLive : ∀ sid ∈ s.continuationBuffer, sid ∈ s.streams) (hKept : ¬Step.Strands ⟨s, call⟩) :
    ∀ sid ∈ t.continuationBuffer, sid ∈ t.streams := by
  have hInsert : ∀ (other : UInt32) (stream : Http2Stream), ∀ sid ∈ s.continuationBuffer,
      sid ∈ s.streams.insert other stream :=
    fun other stream sid hIn => (mem_insert _).mpr (.inr (hLive sid hIn))
  have hErase : ∀ {f : Http2Frame}, call = .handleFrame f → Discards s f →
      ∀ sid ∈ s.continuationBuffer, sid ∈ s.streams.erase f.streamId := by
    intro f hCall hDiscards sid hIn
    refine mem_erase.mpr ⟨?_, hLive sid hIn⟩
    rintro rfl
    exact hKept ⟨f, received_eq_some.mpr hCall, hIn, hDiscards⟩
  cases h with
  | settings hType h =>
    intro sid hIn
    have hBefore : sid ∈ s.continuationBuffer := h.resettled.blocks ▸ hIn
    exact h.resettled.keys.mem_iff.mpr (hLive sid hBefore)
  | headers hType h =>
    cases hAccepted _ rfl
    cases h with
    | refused => exact hLive
    | buffered =>
      intro sid hIn
      refine (mem_insert _).mpr ?_
      rcases (mem_insert _).mp hIn with rfl | hIn
      · exact .inl rfl
      · exact .inr (hLive sid hIn)
    | complete => exact hInsert _ _
  | continuation hType h =>
    cases hAccepted _ rfl
    cases h with
    | continued buf hBuf =>
      intro sid hIn
      rcases (mem_insert _).mp hIn with rfl | hIn
      · exact hLive _ (mem_of_lookup hBuf)
      · exact hLive sid hIn
    | orphaned => exact fun sid hIn => hLive sid (mem_erase.mp hIn).2
    | complete => exact fun sid hIn => hInsert _ _ sid (mem_erase.mp hIn).2
  | data hType h =>
    cases hAccepted _ rfl
    cases h with
    | unknown => exact hLive
    | streamUnderflow stream hSid hStream hConn hUnder =>
      exact hErase rfl ⟨hSid, stream, hStream, .inl ⟨hType, hConn, .inl hUnder⟩⟩
    | bodyTooLarge stream content hSid hStream hConn _ hContent hLarge =>
      exact hErase rfl
        ⟨hSid, stream, hStream, .inl ⟨hType, hConn, .inr ⟨content, hContent, hLarge⟩⟩⟩
    | ended | collected => exact hInsert _ _
  | rstStream hType h =>
    cases hAccepted _ rfl
    cases h with
    | reset =>
      intro sid hIn
      obtain ⟨hNe, hIn⟩ := mem_erase.mp hIn
      exact mem_erase.mpr ⟨hNe, hLive sid hIn⟩
  | windowUpdate hType h =>
    cases hAccepted _ rfl
    cases h with
    | streamOverflow stream hSize hSid hPos hStream hOver =>
      exact hErase rfl ⟨hSid, stream, hStream, .inr ⟨hType, hSize, hPos, hOver⟩⟩
    | stream => exact hInsert _ _
    | _ => exact hLive
  | other | drain => exact hLive
  | sendHeaders h =>
    cases h with
    | unknown => exact hLive
    | known =>
      dsimp only
      split_ifs
      · exact hInsert _ _
      · exact hLive
  | sendData h =>
    cases h with
    | known => exact hInsert _ _
    | _ => exact hLive

theorem Outcome.stranded {f : Http2Frame} (h : Outcome s (.handleFrame f) t .ok)
    (hIn : f.streamId ∈ s.continuationBuffer) (hDiscards : Discards s f) :
    f.streamId ∈ t.continuationBuffer ∧ f.streamId ∉ t.streams := by
  obtain ⟨hSid, stream, hStream, hWhy⟩ := hDiscards
  have hGone : f.streamId ∉ s.streams.erase f.streamId := fun h => (mem_erase.mp h).1 rfl
  have hSame : ∀ {other}, s.streams.lookup f.streamId = some other → other = stream := by
    intro other hOther
    exact Option.some.inj (hOther.symm.trans hStream)
  rcases hWhy with ⟨hType, hConn, hWhy⟩ | ⟨hType, -, hPos, hOver⟩
  · have hKept : ∀ {other : Http2Stream} {content : Bytes}, s.streams.lookup f.streamId = some other →
        (f.payload.length : Int) ≤ other.recvWindow → dataContent f = some content →
        ¬other.requestBody.length + content.length ≤ maxRequestBody := by
      intro other content hOther hWindow hContent hSmall
      rw [hSame hOther] at hWindow hSmall
      rcases hWhy with hUnder | ⟨content', hContent', hLarge⟩
      · omega
      · have hEq := Option.some.inj (hContent'.symm.trans hContent)
        subst hEq
        omega
    cases h.byType.data hType with
    | unknown _ hNone =>
      exact absurd (hNone.symm.trans hStream) (by simp)
    | streamUnderflow | bodyTooLarge => exact ⟨hIn, hGone⟩
    | ended _ _ _ hOther _ hWindow hContent hSmall | collected _ _ _ hOther _ hWindow hContent hSmall =>
      exact absurd hSmall (hKept hOther hWindow hContent)
  · cases h.byType.windowUpdate hType with
    | zero _ hZero => exact absurd hZero hPos
    | connection _ hZero => exact absurd hZero hSid
    | unknown _ _ hNone =>
      exact absurd (hNone.symm.trans hStream) (by simp)
    | streamOverflow => exact ⟨hIn, hGone⟩
    | stream other _ _ hOther hFits =>
      rw [hSame hOther] at hFits
      omega

theorem total_le (hStreams : s.streams.keys.length ≤ maxConcurrentStreams)
    (hBlocks : ∀ sid buf, s.continuationBuffer.lookup sid = some buf → buf.length ≤ maxHeaderBlock)
    (hLive : ∀ sid ∈ s.continuationBuffer, sid ∈ s.streams) :
    (s.continuationBuffer.entries.map fun e => e.2.length).sum ≤ maxConcurrentStreams * maxHeaderBlock := by
  have hCount : s.continuationBuffer.entries.length ≤ maxConcurrentStreams := by
    have hKeys : s.continuationBuffer.keys.length ≤ s.streams.keys.length :=
      (s.continuationBuffer.keys_nodup.subperm fun sid h => hLive sid h).length_le
    rw [keys, List.keys, List.length_map] at hKeys
    exact hKeys.trans hStreams
  have hEach : ∀ n ∈ s.continuationBuffer.entries.map fun e => e.2.length, n ≤ maxHeaderBlock := by
    intro n hn
    obtain ⟨⟨sid, buf⟩, hEntry, rfl⟩ := List.mem_map.mp hn
    exact hBlocks sid buf (mem_lookup_iff.mpr hEntry)
  calc (s.continuationBuffer.entries.map fun e => e.2.length).sum
      ≤ (s.continuationBuffer.entries.map fun e => e.2.length).length • maxHeaderBlock :=
        List.sum_le_card_nsmul _ _ hEach
    _ ≤ maxConcurrentStreams * maxHeaderBlock := by
        rw [List.length_map]
        exact Nat.mul_le_mul_right _ hCount

/-- The number of streams and the size of a block stay within their limits in every defined run. -/
theorem sizes_of_defined (installed : Bool) {calls : List Call}
    (hDefined : ∀ t ∈ steps { handler := installed } calls, t.result ≠ .undefined) :
    ∀ past, past <:+ calls →
      (after { handler := installed } past).streams.keys.length ≤ maxConcurrentStreams ∧
      ∀ sid buf, (after { handler := installed } past).continuationBuffer.lookup sid = some buf →
        buf.length ≤ maxHeaderBlock := by
  apply @invariant_of_steps { handler := installed } fun s =>
    s.streams.keys.length ≤ maxConcurrentStreams ∧
      ∀ sid buf, s.continuationBuffer.lookup sid = some buf → buf.length ≤ maxHeaderBlock
  · exact ⟨Nat.zero_le _, nofun⟩
  · intro t ht hInv
    exact ⟨(step_cases t).streams_le (hDefined t ht) hInv.1,
      (step_cases t).blocks_le (hDefined t ht) hInv.2⟩

/-- A connection that stays alive is within its bounds at every moment exactly when no stream is
given up while its header block is still incomplete. -/
theorem bounded_iff (installed : Bool) (calls : List Call)
    (hAlive : Accepted { handler := installed } calls) :
    (∀ past, past <:+ calls → Bounded (after { handler := installed } past)) ↔
      ∀ t ∈ steps { handler := installed } calls, ¬t.Strands := by
  have hSizes := sizes_of_defined installed hAlive.defined
  constructor
  · rintro hBounded t ht ⟨f, hReceived, hIn, hDiscards⟩
    have hCall := received_eq_some.mp hReceived
    obtain ⟨past, hSuffix, hBefore⟩ := mem_steps ht
    have hOk := hAlive t ht (by simp [received, hCall])
    have hCases := step_cases t
    rw [hOk, hCall] at hCases
    obtain ⟨hBlock, hGone⟩ := hCases.stranded hIn hDiscards
    have hNext : t.next = after { handler := installed } (t.call :: past) := by
      rw [next, hBefore]
      rfl
    rw [hNext] at hBlock hGone
    exact hGone ((hBounded _ hSuffix).live _ hBlock)
  · intro hKept past hPast
    have hLive : ∀ past, past <:+ calls → ∀ sid ∈ (after { handler := installed } past).continuationBuffer,
        sid ∈ (after { handler := installed } past).streams := by
      apply @invariant_of_steps { handler := installed } fun s =>
        ∀ sid ∈ s.continuationBuffer, sid ∈ s.streams
      · exact fun sid h => absurd h (notMem_empty sid)
      · intro t ht hInv
        refine (step_cases t).live (fun f hCall => ?_) hInv (hKept t ht)
        exact hAlive t ht (by simp [received, hCall])
    obtain ⟨hStreams, hBlocks⟩ := hSizes past hPast
    exact ⟨hStreams, hBlocks, hLive past hPast, total_le hStreams hBlocks (hLive past hPast)⟩

def twoPieces : List Call :=
  [.handleFrame { type := .continuation, streamId := 1, flags := flagEndHeaders, payload := [0x84] },
    .handleFrame { type := .headers, streamId := 1, payload := [0x82] }]

theorem bounded_twoPieces : Bounded (after {} twoPieces) :=
  (bounded_iff true twoPieces (by decide +kernel)).mpr (by decide +kernel) twoPieces (List.suffix_refl _)

def strandedBlock : List Call :=
  [.handleFrame { type := .windowUpdate, streamId := 1, payload := [0x7f, 0xff, 0xff, 0xff] },
    .handleFrame { type := .headers, streamId := 1, payload := [0x82] }]

/-- An overflowing WINDOW_UPDATE drops the stream and keeps its header block. -/
theorem strandedBlock_unbounded :
    Accepted {} strandedBlock ∧ (1 : UInt32) ∈ (after {} strandedBlock).continuationBuffer ∧
      (1 : UInt32) ∉ (after {} strandedBlock).streams ∧ ¬Bounded (after {} strandedBlock) := by
  have hBlock : (1 : UInt32) ∈ (after {} strandedBlock).continuationBuffer := by decide +kernel
  have hGone : (1 : UInt32) ∉ (after {} strandedBlock).streams := by decide +kernel
  exact ⟨by decide +kernel, hBlock, hGone, fun hBounded => hGone (hBounded.live 1 hBlock)⟩

def unclosed (s : Http2Handler) : Nat :=
  (s.streams.entries.filter fun e => e.2.state ≠ .closed).length

def OpensNew (s : Http2Handler) (f : Http2Frame) : Prop :=
  f.type = .headers ∧ f.streamId ≠ 0 ∧ s.streams.lookup f.streamId = none

instance (s : Http2Handler) (f : Http2Frame) : Decidable (OpensNew s f) :=
  inferInstanceAs (Decidable (_ ∧ _ ∧ _))

/-- A new stream is answered with RST_STREAM(REFUSED_STREAM). -/
def Step.Refuses (t : Step) : Prop :=
  ∃ f ∈ t.received, OpensNew t.before f ∧
    ∃ g ∈ t.queued, g.type = .rstStream ∧ g.streamId = f.streamId ∧ readUint g.payload = 0x7

instance (t : Step) : Decidable t.Refuses := inferInstanceAs (Decidable (∃ f ∈ t.received, _))

/-- A new stream is refused just while the map is full. -/
theorem refuses_iff {t : Step} {f : Http2Frame} (hCall : t.call = .handleFrame f)
    (hNew : OpensNew t.before f) (hDefined : t.result ≠ .undefined) :
    t.Refuses ↔ maxConcurrentStreams ≤ t.before.streams.keys.length := by
  obtain ⟨hType, hSid, hNone⟩ := hNew
  have hReceived : t.received = some f := received_eq_some.mpr hCall
  have hCases := step_cases t
  rw [hCall] at hCases
  have hHeaders := hCases.byType.headers hType
  have hRefuses : t.Refuses ↔
      ∃ g ∈ t.next.pendingFrames.drop t.before.pendingFrames.length,
        g.type = .rstStream ∧ g.streamId = f.streamId ∧ readUint g.payload = 0x7 := by
    constructor
    · rintro ⟨f', hf', -, hFrame⟩
      cases hReceived.symm.trans hf'
      exact hFrame
    · exact fun hFrame => ⟨f, hReceived, ⟨hType, hSid, hNone⟩, hFrame⟩
  rw [hRefuses]
  have hOther : Admits t.before f.streamId → ¬maxConcurrentStreams ≤ t.before.streams.keys.length :=
    fun hAdmits hFull => hAdmits ⟨hNone, hFull⟩
  generalize t.next = u at hHeaders ⊢
  generalize t.result = r at hHeaders hDefined
  cases hHeaders with
  | onZero hZero => exact absurd hZero hSid
  | refused _ _ hFull =>
    have hCode : readUint (appendUint32 0x7) = 0x7 := readUint_appendUint32 0x7 (by decide)
    simp [rstFrame, hCode, hFull]
  | malformed _ hAdmits | buffered _ _ _ hAdmits | complete _ _ _ hAdmits => simp [hOther hAdmits]
  | overrun => exact absurd rfl hDefined
  | tooLarge _ _ _ hAdmits => simp [hOther hAdmits, goawayFrame]

theorem unclosed_eq_iff (s : Http2Handler) (hFull : s.streams.keys.length = maxConcurrentStreams) :
    maxConcurrentStreams ≤ unclosed s ↔ ∀ e ∈ s.streams.entries, e.2.state ≠ .closed := by
  have hEntries : s.streams.entries.length = maxConcurrentStreams := by
    rw [← hFull, keys, List.keys, List.length_map]
  unfold unclosed
  rw [← hEntries]
  constructor
  · intro hLe e he
    have hAll := List.length_filter_eq_length_iff.mp
      (le_antisymm (List.length_filter_le _ s.streams.entries) hLe) e he
    simpa using hAll
  · intro hAll
    rw [List.filter_eq_self.mpr (by simpa using hAll)]

/-- New streams are refused only for 128 streams that are not CLOSED, exactly when no HEADERS frame overruns its
payload and none opens a stream while the map is full with a CLOSED stream in it. -/
theorem admission_iff (installed : Bool) (calls : List Call) :
    (∀ t ∈ steps { handler := installed } calls,
      t.result ≠ .undefined ∧ (t.Refuses → maxConcurrentStreams ≤ unclosed t.before)) ↔
    ∀ t ∈ steps { handler := installed } calls, ∀ f ∈ t.received, f.type = .headers →
      ¬Overruns t.before f ∧
      (OpensNew t.before f → t.before.streams.keys.length = maxConcurrentStreams →
        ∀ e ∈ t.before.streams.entries, e.2.state ≠ .closed) := by
  constructor
  · intro hFair t ht f hReceived hType
    obtain ⟨hDefined, hRefused⟩ := hFair t ht
    have hCall := received_eq_some.mp hReceived
    refine ⟨fun hOver => hDefined ((step_cases t).undefined_iff.mpr ⟨f, hCall, hType, hOver⟩), ?_⟩
    intro hNew hFull
    exact (unclosed_eq_iff t.before hFull).mp
      (hRefused ((refuses_iff hCall hNew hDefined).mpr hFull.ge))
  · intro hCond
    have hDefined : ∀ t ∈ steps { handler := installed } calls, t.result ≠ .undefined := by
      intro t ht hUndefined
      obtain ⟨f, hCall, hType, hOver⟩ := (step_cases t).undefined_iff.mp hUndefined
      exact (hCond t ht f (received_eq_some.mpr hCall) hType).1 hOver
    intro t ht
    refine ⟨hDefined t ht, fun hRefused => ?_⟩
    obtain ⟨f, hReceived, hNew, -⟩ := id hRefused
    have hCall := received_eq_some.mp hReceived
    obtain ⟨past, hSuffix, hBefore⟩ := mem_steps ht
    have hLe := (sizes_of_defined installed hDefined past ((List.suffix_cons _ _).trans hSuffix)).1
    have hGe := (refuses_iff hCall hNew (hDefined t ht)).mp hRefused
    rw [← hBefore] at hLe
    exact (unclosed_eq_iff t.before (le_antisymm hLe hGe)).mpr
      ((hCond t ht f hReceived hNew.1).2 hNew (le_antisymm hLe hGe))

def request (n : Nat) : Call :=
  .handleFrame
    { type := .headers, streamId := UInt32.ofNat (2 * n + 1), flags := flagEndHeaders ||| flagEndStream
      payload := [0x82, 0x84] }

def sequential : Nat → List Call
  | 0 => []
  | n + 1 =>
    .sendHeaders ⟨id, fun _ => List.Perm.refl _⟩ (UInt32.ofNat (2 * n + 1))
        (HeaderMap.empty.set (ascii ":status") (ascii "200")) true ::
      request n :: sequential n

/-- The 129th request of such a connection is refused, with no stream open. -/
theorem sequential_refused : ∃ t ∈ steps {} (request 128 :: sequential 128), t.Refuses ∧ unclosed t.before = 0 :=
  ⟨⟨after {} (sequential 128), request 128⟩, List.mem_cons_self, by decide +kernel⟩

end QbuemStack.Http2
