import QbuemStack.Http.Parser

/-! Parsing and more input. Once a parse has been decided, bytes appended to the input change
nothing. -/
namespace QbuemStack.Http.HttpParser

variable (data : Bytes) (c : UInt8) (s : Cursor)

open Octets Iteration
open Nat (le_succ)

def Decided (o : Outcome) : Prop := o.2.2 = none ∨ o.1.state = .complete

instance (o : Outcome) : Decidable (Decided o) :=
  inferInstanceAs (Decidable (o.2.2 = none ∨ o.1.state = .complete))

theorem endOfHeaders_cases :
    let te := s.req.header (ascii "Transfer-Encoding")
    let cl := s.req.header (ascii "Content-Length")
    (∃ p status, endOfHeaders s = { s with parser := HttpParser.fail p status }) ∨
    (te = ascii "chunked" ∧ cl = [] ∧ endOfHeaders s = { s with
      parser := { s.parser with headersComplete := true, chunked := true, state := .chunkSize }
      start := s.pos + 1 }) ∨
    (∃ n, te = [] ∧ cl ≠ [] ∧ fromChars cl = some (n, []) ∧ n ≤ MAX_BODY_SIZE ∧ endOfHeaders s = { s with
      parser := { s.parser with headersComplete := true, bodyLength := n, state := .body }
      start := s.pos + 1 }) ∨
    (te ≠ ascii "chunked" ∧ cl = [] ∧ endOfHeaders s = { s with
      parser := { s.parser with headersComplete := true, state := .complete } }) := by
  unfold endOfHeaders
  dsimp only
  split_ifs with hBoth hTe hCl
  · exact .inl ⟨_, _, rfl⟩
  · refine .inr (.inl ⟨hTe, ?_, rfl⟩)
    by_contra hCl
    exact hBoth ⟨by rw [hTe]; decide, hCl⟩
  · have hNoTe : s.req.header (ascii "Transfer-Encoding") = [] := by
      by_contra hSome
      exact hBoth ⟨hSome, hCl⟩
    split
    · rename_i n hn
      split_ifs with hLarge
      · exact .inl ⟨_, _, rfl⟩
      · exact .inr (.inr (.inl ⟨n, hNoTe, hCl, hn, not_lt.mp hLarge, rfl⟩))
    · exact .inl ⟨_, _, rfl⟩
  · exact .inr (.inr (.inr ⟨hTe, not_not.mp hCl, rfl⟩))

theorem endOfHeaders_pos : (endOfHeaders s).pos = s.pos := by
  rcases endOfHeaders_cases s with ⟨p, status, h⟩ | ⟨-, -, h⟩ | ⟨n, -, -, -, -, h⟩ | ⟨-, -, h⟩ <;>
    rw [h]

def beforeChunks : State → Bool
  | .chunkData | .chunkDataEnd => false
  | _ => true

structure Switched (data : Bytes) (s t : Cursor) : Prop where
  pos : t.pos = s.pos ∨ t.pos = s.pos + 1 ∧ data[s.pos + 1]? = some space
  start : s.start ≤ s.pos → t.start ≤ t.pos + 1
  beforeChunks : beforeChunks s.parser.state = true → beforeChunks t.parser.state = true
  body : t.req.body = s.req.body

theorem Switched.refl : Switched data s s :=
  ⟨.inl rfl, fun h => h.trans (le_succ _), id, rfl⟩

theorem switched_members {p : HttpParser} (h : beforeChunks p.state = true) : Switched data s { s with parser := p } :=
  { Switched.refl data s with beforeChunks := fun _ => h }

theorem endOfHeaders_switched : Switched data s (endOfHeaders s) := by
  rcases endOfHeaders_cases s with ⟨p, status, h⟩ | ⟨-, -, h⟩ | ⟨n, -, -, -, -, h⟩ | ⟨-, -, h⟩ <;> rw [h]
  · exact switched_members data s rfl
  · exact ⟨.inl rfl, fun _ => le_rfl, fun _ => rfl, rfl⟩
  · exact ⟨.inl rfl, fun _ => le_rfl, fun _ => rfl, rfl⟩
  · exact switched_members data s rfl

theorem onByte_switched : ∃ t, Switched data s t ∧ onByte data c s = { t with pos := t.pos + 1 } := by
  refine ⟨_, ?_, rfl⟩
  cases hState : s.parser.state with
  | method =>
    simp only [methodByte]
    split_ifs
    · exact ⟨.inl rfl, fun _ => le_rfl, fun _ => rfl, rfl⟩
    · exact .refl data s
  | path =>
    simp only [pathByte]
    split_ifs
    · refine ⟨.inl rfl, fun _ => le_rfl, fun _ => rfl, ?_⟩
      simp only [Request.setPath]
      split <;> rfl
    · exact .refl data s
  | version =>
    simp only [versionByte]
    split_ifs
    · exact ⟨.inl rfl, fun _ => le_rfl, fun _ => rfl, rfl⟩
    · exact .refl data s
  | headerKey =>
    simp only [headerKeyByte]
    split_ifs with hColon hSpace
    · exact ⟨.inr ⟨rfl, hSpace⟩, fun _ => le_rfl, fun _ => rfl, rfl⟩
    · exact ⟨.inl rfl, fun _ => le_rfl, fun _ => rfl, rfl⟩
    · exact endOfHeaders_switched data s
    · exact switched_members data s rfl
    · exact switched_members data s (by rw [hState]; rfl)
  | headerValue =>
    simp only [headerValueByte]
    split_ifs
    · exact .refl data s
    · exact switched_members data s rfl
    · exact switched_members data s rfl
    · exact ⟨.inl rfl, fun _ => le_rfl, fun _ => rfl, rfl⟩
    · exact .refl data s
  | _ => exact .refl data s

theorem onByte_pos (hPos : s.pos < data.length) :
    s.pos < (onByte data c s).pos ∧ (onByte data c s).pos ≤ data.length := by
  obtain ⟨t, hSwitched, hRound⟩ := onByte_switched data c s
  rw [hRound]
  rcases hSwitched.pos with h | ⟨h, hSpace⟩
  · simp only [h]
    omega
  · have hInside := (List.getElem?_eq_some_iff.mp hSpace).1
    simp only [h]
    omega

variable {data : Bytes} {s next : Cursor} {o : Outcome} (p : HttpParser)

theorem headBody_inr (h : headBody data s = .inr next) :
    ∃ c, data[s.pos]? = some c ∧ inHead s.parser.state = true ∧ next = onByte data c s := by
  unfold headBody at h
  split at h
  · rename_i c hc
    split_ifs at h with hHead
    exact ⟨c, hc, hHead, (Sum.inr.inj h).symm⟩
  · cases h

theorem headBody_inl {t : Cursor} (h : headBody data s = .inl t) :
    t = s ∧ (data.length ≤ s.pos ∨ inHead s.parser.state = false) := by
  unfold headBody at h
  split at h
  · split_ifs at h with hHead
    exact ⟨(Sum.inl.inj h).symm, .inr (Bool.eq_false_iff.mpr hHead)⟩
  · rename_i hc
    exact ⟨(Sum.inl.inj h).symm, .inl (List.getElem?_eq_none_iff.mp hc)⟩

theorem headLoop_run (data : Bytes) (s : Cursor) :
    run (headBody data) (data.length + 1) s = some (headLoop data s) := by
  obtain ⟨t, ht⟩ := run_total (headBody data) (fun _ => True)
    (fun s => data.length - s.pos) (fun s next _ hNext => by
      obtain ⟨c, hc, -, rfl⟩ := headBody_inr hNext
      have hPos := (List.getElem?_eq_some_iff.mp hc).1
      have hMoved := onByte_pos data c s hPos
      exact ⟨trivial, by omega⟩) (data.length + 1) s trivial (by omega)
  rw [headLoop, ht]
  rfl

theorem headLoop_invariant (data : Bytes) (inv : Cursor → Prop)
    (step : ∀ s c, inv s → data[s.pos]? = some c → inHead s.parser.state = true →
      inv (onByte data c s)) (s : Cursor) (hInv : inv s) : inv (headLoop data s) := by
  refine run_invariant (headBody data) inv inv ?_ ?_ _ s _ hInv (headLoop_run data s)
  · intro s next hs hNext
    obtain ⟨c, hc, hHead, rfl⟩ := headBody_inr hNext
    exact step s c hs hc hHead
  · intro s t hs hExit
    obtain ⟨rfl, -⟩ := headBody_inl hExit
    exact hs

theorem headBody_stop (data : Bytes) (s : Cursor)
    (h : data.length ≤ s.pos ∨ inHead s.parser.state = false) : headBody data s = .inl s := by
  unfold headBody
  rcases h with h | h
  · rw [List.getElem?_eq_none_iff.mpr h]
  · split
    · simp [h]
    · rfl

theorem headLoop_stop (data : Bytes) (s : Cursor)
    (h : data.length ≤ s.pos ∨ inHead s.parser.state = false) : headLoop data s = s :=
  run_unique (headLoop_run data s) (run_exit 0 (headBody_stop data s h))

/-- A header line with nothing at all before its line feed: the slice begins with the line feed and
is rejected, however long the input is. -/
theorem headerValueByte_empty (data : Bytes) (s : Cursor) (hc : data[s.pos]? = some lf) (hEmpty : s.pos = s.start) :
    headerValueByte data lf s = { s with parser := s.parser.fail 400 } := by
  obtain ⟨hLt, hGet⟩ := List.getElem?_eq_some_iff.mp hc
  have hIn : lf ∈ slice data s.start (valueLength data s) := by
    rw [valueLength, if_pos hEmpty, ← hEmpty, slice, List.drop_eq_getElem_cons hLt, hGet]
    obtain ⟨n, hn⟩ := Nat.exists_eq_succ_of_ne_zero (by omega : data.length ≠ 0)
    rw [hn, List.take_succ_cons]
    exact List.mem_cons_self
  have hCr : lf ≠ cr := by decide
  simp only [headerValueByte, if_neg hCr, if_true, substr]
  exact if_pos (.inr hIn)

theorem headerValueByte_append (data more : Bytes) (c : UInt8) (s : Cursor)
    (hc : data[s.pos]? = some c) (hStart : s.start ≤ s.pos) :
    headerValueByte (data ++ more) c s = headerValueByte data c s := by
  have hPos := (List.getElem?_eq_some_iff.mp hc).1
  by_cases hLf : c = lf
  · by_cases hEmpty : s.pos = s.start
    · rw [hLf] at hc ⊢
      rw [headerValueByte_empty data s hc hEmpty, headerValueByte_empty _ s _ hEmpty]
      rw [List.getElem?_append_left hPos, hc]
    · have hValue : slice (data ++ more) s.start (s.pos - s.start - 1) =
          slice data s.start (s.pos - s.start - 1) := slice_append _ _ _ _ (by omega)
      simp only [headerValueByte, substr, valueLength, hEmpty, if_false, hValue]
  · simp [headerValueByte, hLf]

/-- A byte that is not a colon at the very end of the input is treated alike when the input goes on. -/
theorem onByte_append (data more : Bytes) (c : UInt8) (s : Cursor)
    (hc : data[s.pos]? = some c) (hStart : s.start ≤ s.pos)
    (hNext : s.parser.state = .headerKey → c = colon → s.pos + 1 < data.length) :
    onByte (data ++ more) c s = onByte data c s := by
  have hPos := (List.getElem?_eq_some_iff.mp hc).1
  have hSlice : slice (data ++ more) s.start (s.pos - s.start) =
      slice data s.start (s.pos - s.start) := slice_append _ _ _ _ (by omega)
  unfold onByte
  cases hState : s.parser.state with
  | method => simp only [methodByte, hSlice]
  | path => simp only [pathByte, substr, hSlice]
  | headerKey =>
    by_cases hColon : c = colon
    · have hLook : (data ++ more)[s.pos + 1]? = data[s.pos + 1]? :=
        List.getElem?_append_left (hNext hState hColon)
      simp only [headerKeyByte, substr, hSlice, hLook]
    · simp only [headerKeyByte, hColon, if_false]
  | headerValue => simp only [headerValueByte_append data more c s hc hStart]
  | _ => rfl

theorem onByte_start (data : Bytes) (c : UInt8) (s : Cursor) (h : s.start ≤ s.pos) :
    (onByte data c s).start ≤ (onByte data c s).pos := by
  obtain ⟨t, hSwitched, hRound⟩ := onByte_switched data c s
  rw [hRound]
  exact hSwitched.start h

theorem headLoop_inside (data : Bytes) (s : Cursor) (hStart : s.start ≤ s.pos) (hPos : s.pos ≤ data.length) :
    (headLoop data s).start ≤ (headLoop data s).pos ∧ (headLoop data s).pos ≤ data.length := by
  refine headLoop_invariant data (fun s => s.start ≤ s.pos ∧ s.pos ≤ data.length) ?_ s
    ⟨hStart, hPos⟩
  rintro s c ⟨hs, -⟩ hc -
  exact ⟨onByte_start data c s hs,
    (onByte_pos data c s (List.getElem?_eq_some_iff.mp hc).1).2⟩

/-- From a cursor inside the head at or behind a position, the loop leaves the head only behind that
position. -/
theorem headLoop_past (data : Bytes) (m : Nat) (s : Cursor) (hHead : inHead s.parser.state = true)
    (hPos : m ≤ s.pos) (rounds : Nat) (result : Cursor) (h : run (headBody data) rounds s = some result) :
    ¬(result.pos ≤ m ∧ inHead result.parser.state = false) := by
  refine run_invariant (headBody data)
    (fun t => m ≤ t.pos ∧ (t.pos = m → inHead t.parser.state = true))
    (fun t => ¬(t.pos ≤ m ∧ inHead t.parser.state = false)) ?_ ?_ rounds s result
    ⟨hPos, fun _ => hHead⟩ h
  · intro t next ht hNext
    obtain ⟨c, hc, -, rfl⟩ := headBody_inr hNext
    have hMoved := (onByte_pos data c t (List.getElem?_eq_some_iff.mp hc).1).1
    exact ⟨by omega, by omega⟩
  · intro t result ht hExit
    obtain ⟨rfl, -⟩ := headBody_inl hExit
    rintro ⟨hLe, hOut⟩
    have hIn := ht.2 (le_antisymm hLe ht.1)
    rw [hOut] at hIn
    cases hIn

/-- A head that is read to its end within `front` does not see what follows. -/
theorem headLoop_change (front more more' : Bytes) (s : Cursor) (hStart : s.start ≤ s.pos)
    (hPos : (headLoop (front ++ more) s).pos ≤ front.length)
    (hOut : inHead (headLoop (front ++ more) s).parser.state = false) :
    headLoop (front ++ more') s = headLoop (front ++ more) s := by
  refine run_unique (headLoop_run (front ++ more') s) (run_replace (headBody (front ++ more)) _
    (fun s => s.start ≤ s.pos) (fun t => ¬(t.pos ≤ front.length ∧ inHead t.parser.state = false)) ?_ ?_ _ s _
    hStart (headLoop_run (front ++ more) s) (not_not.mpr ⟨hPos, hOut⟩))
  · intro s next hs hNext
    obtain ⟨c, -, -, rfl⟩ := headBody_inr hNext
    exact onByte_start _ c s hs
  · intro s hs
    cases hHead : inHead s.parser.state with
    | false =>
      left
      rw [headBody_stop _ s (.inr hHead), headBody_stop _ s (.inr hHead)]
    | true =>
      rcases Nat.lt_or_ge s.pos front.length with hLt | hBehind
      swap
      · exact .inr (headLoop_past _ _ s hHead hBehind)
      have hc := List.getElem?_eq_getElem hLt
      generalize front[s.pos] = c at hc
      have hSame (tail) : (front ++ tail)[s.pos]? = some c := (List.getElem?_append_left hLt).trans hc
      by_cases hEdge : s.parser.state = .headerKey ∧ c = colon ∧ front.length ≤ s.pos + 1
      · right
        obtain ⟨hKey, hColon, hLast⟩ := hEdge
        have hBody : headBody (front ++ more) s = .inr (onByte (front ++ more) c s) := by
          simp [headBody, hSame, hHead]
        have hState : inHead (onByte (front ++ more) c s).parser.state = true := by
          simp only [onByte, hKey, headerKeyByte, if_pos hColon]
          split_ifs <;> rfl
        have hMoved := (onByte_pos (front ++ more) c s (List.getElem?_eq_some_iff.mp (hSame more)).1).1
        intro rounds result hResult
        cases rounds with
        | zero => cases hResult
        | succ rounds =>
          rw [run_round _ hBody] at hResult
          exact headLoop_past _ _ _ hState (by omega) rounds result hResult
      · left
        have hByte (tail) := onByte_append front tail c s hc hs fun hKey hColon =>
          not_le.mp fun hLast => hEdge ⟨hKey, hColon, hLast⟩
        simp only [headBody, hSame, hByte]

theorem headLoop_append (data more : Bytes) (s : Cursor) (hStart : s.start ≤ s.pos) (hPos : s.pos ≤ data.length)
    (h : inHead (headLoop data s).parser.state = false) : headLoop (data ++ more) s = headLoop data s := by
  have hChange := headLoop_change data [] more s hStart
  rw [List.append_nil] at hChange
  exact hChange (headLoop_inside data s hStart hPos).2 h

theorem crlf_length : crlf.length = 2 := rfl

theorem find_crlf_iff (line more : Bytes) :
    find crlf (line ++ (crlf ++ more)) = some line.length ↔ ¬crlf <:+: line := by
  induction line with
  | nil => exact iff_of_true rfl (by decide)
  | cons c line ih =>
    have hHead : crlf <+: c :: (line ++ (crlf ++ more)) ↔ crlf <+: c :: line := by
      cases line <;> simp [crlf, cr, lf]
    rw [List.cons_append, find, List.infix_cons_iff, not_or, ← ih]
    by_cases hHere : crlf <+: c :: line
    · rw [if_pos (hHead.mpr hHere)]
      simp [hHere]
    · rw [if_neg (hHead.not.mpr hHere)]
      simp [hHere]

inductive ChunkRound (data : Bytes) (s : Cursor) : Outcome ⊕ Cursor → Prop
  | rests : ChunkRound data s (.inl (s.parser, s.req, some s.pos))
  | refused (size status : Nat) :
      ChunkRound data s (.inl (fail { s.parser with chunkRemaining := size } status, s.req, none))
  | last (eol : Nat) (hState : s.parser.state = .chunkSize) (hEol : findFrom crlf data s.pos = some eol)
      (hSize : chunkSizeOf 0 (sizeToken (slice data s.pos (eol - s.pos))) = .ok 0) :
      ChunkRound data s (.inl (lastChunk data { s.parser with chunkRemaining := 0 } s.req (eol + 2)))
  | size (eol size : Nat) (hState : s.parser.state = .chunkSize) (hEol : findFrom crlf data s.pos = some eol)
      (hSize : chunkSizeOf 0 (sizeToken (slice data s.pos (eol - s.pos))) = .ok size) (hSome : size ≠ 0)
      (hSmall : ¬s.parser.chunkBody.length + size > MAX_BODY_SIZE) :
      ChunkRound data s (.inr
        { s with parser := { s.parser with chunkRemaining := size, state := .chunkData }, pos := eol + 2 })
  | part (p : HttpParser) (hState : p.state = .chunkData)
      (hSame : p = { s.parser with chunkBody := p.chunkBody, chunkRemaining := p.chunkRemaining }) :
      ChunkRound data s (.inl (p, s.req, some (s.pos + (data.length - s.pos))))
  | whole (hState : s.parser.state = .chunkData) (hAvail : ¬data.length - s.pos < s.parser.chunkRemaining) :
      ChunkRound data s (.inr
        { s with
          parser := { s.parser with
            chunkBody := s.parser.chunkBody ++ slice data s.pos s.parser.chunkRemaining
            chunkRemaining := 0
            state := .chunkDataEnd }
          pos := s.pos + s.parser.chunkRemaining })
  | closed (hState : s.parser.state = .chunkDataEnd) (hInside : ¬s.pos + 2 > data.length)
      (hCrlf : ¬slice data s.pos 2 ≠ crlf) :
      ChunkRound data s (.inr { s with parser := { s.parser with state := .chunkSize }, pos := s.pos + 2 })

theorem chunkRound_cases {out : Outcome ⊕ Cursor} (h : chunkRound data s = out) : ChunkRound data s out := by
  subst h
  unfold chunkRound
  cases hState : s.parser.state with
  | chunkSize =>
    simp only [chunkSizeRound]
    cases hEol : findFrom crlf data s.pos with
    | none => exact .rests
    | some eol =>
      simp only [chunkSizeLine]
      cases hSize : chunkSizeOf 0 (sizeToken (slice data s.pos (eol - s.pos))) with
      | error status => exact .refused s.parser.chunkRemaining status
      | ok size =>
        dsimp only
        split_ifs with hZero hLarge
        · subst hZero
          exact .last eol hState hEol hSize
        · exact .refused size 413
        · exact .size eol size hState hEol hSize hZero hLarge
  | chunkData =>
    simp only [chunkDataRound]
    split_ifs with hAvail
    · exact .part _ hState rfl
    · exact .whole hState hAvail
  | chunkDataEnd =>
    simp only [chunkDataEndRound]
    split_ifs with hShort hCrlf
    · exact .rests
    · exact .refused s.parser.chunkRemaining 400
    · exact .closed hState hShort hCrlf
  | _ => exact .rests

theorem chunkRound_inr (h : chunkRound data s = .inr next) : next.pos ≤ max s.pos data.length ∧ s.pos ≤ next.pos ∧
      (s.parser.state = .chunkData ∧ next.parser.state = .chunkDataEnd ∨
        s.parser.state ≠ .chunkData ∧ s.pos + 2 ≤ next.pos ∧ s.pos + 2 ≤ data.length) := by
  cases chunkRound_cases h with
  | size eol size hState hEol =>
    obtain ⟨hPos, hInside⟩ := findFrom_le crlf data s.pos eol (by decide) hEol
    change eol + 2 ≤ data.length at hInside
    dsimp only
    exact ⟨by omega, by omega, .inr ⟨by simp [hState], by omega, by omega⟩⟩
  | whole hState hAvail =>
    dsimp only
    exact ⟨by omega, by omega, .inl ⟨hState, rfl⟩⟩
  | closed hState hInside =>
    dsimp only
    exact ⟨by omega, by omega, .inr ⟨by simp [hState], by omega, by omega⟩⟩

theorem chunkLoop_run (data : Bytes) (s : Cursor) :
    run (chunkRound data) (2 * data.length + 2) s = some (chunkLoop data s) := by
  obtain ⟨t, ht⟩ := run_total (chunkRound data) (fun _ => True)
    (fun s => 2 * (data.length - s.pos) + if s.parser.state = .chunkData then 1 else 0)
    (fun s next _ hNext => by
      obtain ⟨hMax, hPos, hCase⟩ := chunkRound_inr hNext
      rcases hCase with ⟨hOld, hNew⟩ | ⟨hOld, hMoved, hInside⟩
      · simp only [hOld, hNew, if_true, reduceCtorEq, if_false]
        exact ⟨trivial, by omega⟩
      · simp only [hOld, if_false]
        split_ifs <;> exact ⟨trivial, by omega⟩)
    (2 * data.length + 2) s trivial (by split_ifs <;> omega)
  rw [chunkLoop, ht]
  rfl

theorem chunkLoop_exit (h : chunkRound data s = .inl o) : chunkLoop data s = o :=
  run_unique (chunkLoop_run data s) (run_exit 0 h)

theorem chunkLoop_round (h : chunkRound data s = .inr next) : chunkLoop data s = chunkLoop data next := by
  have hRun := chunkLoop_run data s
  rw [run_round _ h] at hRun
  exact run_unique hRun (chunkLoop_run data next)

theorem lastChunk_append (data more : Bytes) (p : HttpParser) (req : Request) (pos : Nat)
    (hState : p.state = .chunkSize) : lastChunk (data ++ more) p req pos = lastChunk data p req pos ∨
      ¬Decided (lastChunk data p req pos) := by
  cases hEnd : findFrom crlf data pos with
  | none =>
    right
    simp [lastChunk, hEnd, Decided, hState]
  | some trailerEnd =>
    left
    simp only [lastChunk, hEnd, findFrom_append crlf data more pos trailerEnd (by decide) hEnd]

theorem chunkSizeLine_append (data more : Bytes) (s : Cursor) (eol : Nat)
    (hState : s.parser.state = .chunkSize) (hPos : s.pos ≤ eol) (hEol : eol ≤ data.length) :
    chunkSizeLine (data ++ more) s eol = chunkSizeLine data s eol ∨
      ∃ o, chunkSizeLine data s eol = .inl o ∧ ¬Decided o := by
  have hLine := slice_append data more s.pos (eol - s.pos) (by omega)
  unfold chunkSizeLine
  rw [hLine]
  cases hSize : chunkSizeOf 0 (sizeToken (slice data s.pos (eol - s.pos))) with
  | error status => exact .inl rfl
  | ok size =>
    dsimp only
    by_cases hZero : size = 0
    · rw [if_pos hZero, if_pos hZero]
      rcases lastChunk_append data more { s.parser with chunkRemaining := size } s.req (eol + 2)
        hState with hSame | hOpen
      · exact .inl (congrArg Sum.inl hSame)
      · exact .inr ⟨_, rfl, hOpen⟩
    · rw [if_neg hZero, if_neg hZero]
      exact .inl rfl

theorem chunkRound_append (data more : Bytes) (s : Cursor) (hPos : s.pos ≤ data.length) :
    chunkRound (data ++ more) s = chunkRound data s ∨ ∃ o, chunkRound data s = .inl o ∧ ¬Decided o := by
  cases hState : s.parser.state with
  | chunkSize =>
    simp only [chunkRound, hState, chunkSizeRound]
    cases hEol : findFrom crlf data s.pos with
    | none => exact .inr ⟨_, rfl, by simp [Decided, hState]⟩
    | some eol =>
      obtain ⟨hLe, hInside⟩ := findFrom_le crlf data s.pos eol (by decide) hEol
      simp only [findFrom_append crlf data more s.pos eol (by decide) hEol]
      exact chunkSizeLine_append data more s eol hState hLe (by omega)
  | chunkData =>
    simp only [chunkRound, hState, chunkDataRound]
    by_cases hAvail : data.length - s.pos < s.parser.chunkRemaining
    · rw [if_pos hAvail]
      exact .inr ⟨_, rfl, by simp [Decided]⟩
    · rw [if_neg hAvail, if_neg (by rw [List.length_append]; omega),
        slice_append data more _ _ (by omega)]
      exact .inl rfl
  | chunkDataEnd =>
    simp only [chunkRound, hState, chunkDataEndRound]
    by_cases hShort : s.pos + 2 > data.length
    · rw [if_pos hShort]
      exact .inr ⟨_, rfl, by simp [Decided, hState]⟩
    · rw [if_neg hShort, if_neg (by rw [List.length_append]; omega),
        slice_append data more _ _ (by omega)]
      exact .inl rfl
  | _ =>
    left
    simp only [chunkRound, hState]

theorem chunkLoop_append (data more : Bytes) (s : Cursor) (hPos : s.pos ≤ data.length)
    (h : Decided (chunkLoop data s)) : chunkLoop (data ++ more) s = chunkLoop data s := by
  have hRun : run (chunkRound (data ++ more)) (2 * data.length + 2) s =
      some (chunkLoop data s) := by
    refine run_replace (chunkRound data) (chunkRound (data ++ more))
      (fun s => s.pos ≤ data.length) (fun o => ¬Decided o) ?_ ?_ _ s _ hPos
      (chunkLoop_run data s) (not_not.mpr h)
    · intro s next hs hNext
      have hMax := (chunkRound_inr hNext).1
      omega
    · intro s hs
      rcases chunkRound_append data more s hs with hSame | ⟨o, hExit, hOpen⟩
      · exact .inl hSame
      · right
        intro rounds result hResult
        cases rounds with
        | zero => cases hResult
        | succ rounds =>
          rw [run_exit _ hExit, Option.some.injEq] at hResult
          exact hResult ▸ hOpen
  exact run_unique (chunkLoop_run (data ++ more) s) hRun

theorem bodyPhase_append (data more : Bytes) (s : Cursor) (hStart : s.start ≤ s.pos)
    (hPos : s.pos ≤ data.length) (h : Decided (bodyPhase data s)) : bodyPhase (data ++ more) s = bodyPhase data s := by
  unfold bodyPhase at h ⊢
  cases hState : s.parser.state with
  | body =>
    simp only [hState, fixedBody] at h ⊢
    by_cases hShort : data.length - s.start < s.parser.bodyLength
    · rw [if_pos hShort] at h
      simp [Decided, hState] at h
    · rw [if_neg hShort, if_neg (by rw [List.length_append]; omega)]
      simp only [substr, slice_append data more s.start s.parser.bodyLength (by omega)]
  | chunkSize | chunkData | chunkDataEnd =>
    simp only [hState] at h
    exact chunkLoop_append data more s hPos h
  | _ => rfl

theorem headLoop_beforeChunks (data : Bytes) (s : Cursor) (h : beforeChunks s.parser.state = true) :
    beforeChunks (headLoop data s).parser.state = true := by
  refine headLoop_invariant data (fun s => beforeChunks s.parser.state = true) (fun s c hs _ _ => ?_) s h
  obtain ⟨t, hSwitched, hRound⟩ := onByte_switched data c s
  rw [hRound]
  exact hSwitched.beforeChunks hs

theorem bodyPhase_head (data : Bytes) (s : Cursor) (h : Decided (bodyPhase data s))
    (hFresh : beforeChunks s.parser.state = true) : inHead s.parser.state = false := by
  unfold bodyPhase at h
  cases hState : s.parser.state with
  | method | path | version | headerKey | headerValue => simp [hState, Decided] at h
  | chunkData | chunkDataEnd => simp [hState, beforeChunks] at hFresh
  | _ => rfl

theorem phases_append (data more : Bytes) (req : Request) (hFresh : beforeChunks p.state = true)
    (h : Decided (bodyPhase data (headLoop data { parser := p, req := req }))) :
    bodyPhase (data ++ more) (headLoop (data ++ more) { parser := p, req := req }) =
      bodyPhase data (headLoop data { parser := p, req := req }) := by
  have hHead := bodyPhase_head data _ h (headLoop_beforeChunks data _ hFresh)
  obtain ⟨hStart, hPos⟩ := headLoop_inside data { parser := p, req := req } le_rfl (Nat.zero_le _)
  rw [headLoop_append data more _ le_rfl (Nat.zero_le _) hHead]
  exact bodyPhase_append data more _ hStart hPos h

/-- Once the header end is in sight and the call has been decided, bytes appended to the input
change nothing. -/
theorem parse_append (data more : Bytes) (req : Request) (hFresh : beforeChunks p.state = true)
    (hEnd : p.awaitsHeaderEnd = true → findHeaderEnd data ≠ none)
    (h : Decided (p.parse data req)) : p.parse (data ++ more) req = p.parse data req := by
  unfold parse at h ⊢
  by_cases hAwaits : p.awaitsHeaderEnd = true
  · obtain ⟨e, he⟩ := Option.ne_none_iff_exists'.mp (hEnd hAwaits)
    have heMore : findHeaderEnd (data ++ more) = some e := find_append _ data more e he
    simp only [hAwaits, if_true, he, heMore] at h ⊢
    exact phases_append { p with headerBytes := 0 } data more req hFresh h
  · rw [if_neg hAwaits] at h ⊢
    rw [if_neg hAwaits]
    exact phases_append p data more req hFresh h

theorem parse_complete_headerEnd (data : Bytes) (req : Request)
    (hAwaits : p.awaitsHeaderEnd = true) (h : (p.parse data req).1.state = .complete) :
    ∃ e, findHeaderEnd data = some e := by
  cases hEnd : findHeaderEnd data with
  | some e => exact ⟨e, rfl⟩
  | none =>
    have hOpen : p.state ≠ .complete := by
      intro hState
      simp [awaitsHeaderEnd, hState, inHead] at hAwaits
    simp only [parse, hAwaits, if_true, hEnd] at h
    split_ifs at h
    · cases h
    · exact absurd h hOpen

theorem chunkRound_inl (hPos : s.pos ≤ data.length) (h : chunkRound data s = .inl o) (n : Nat)
    (hn : o.2.2 = some n) : n ≤ data.length := by
  cases chunkRound_cases h with
  | rests =>
    cases hn
    exact hPos
  | refused => cases hn
  | last eol _ hEol =>
    have hFound := (findFrom_le crlf data s.pos eol (by decide) hEol).2
    unfold lastChunk at hn
    split at hn
    · cases hn
      exact hFound
    · rename_i trailerEnd hTrailer
      have hEnd := (findFrom_le crlf data _ trailerEnd (by decide) hTrailer).2
      cases hn
      exact hEnd
  | part =>
    cases hn
    omega

theorem chunkLoop_le (data : Bytes) (s : Cursor) (hPos : s.pos ≤ data.length) (n : Nat)
    (hn : (chunkLoop data s).2.2 = some n) : n ≤ data.length := by
  refine run_invariant (chunkRound data) (fun s => s.pos ≤ data.length)
    (fun o => ∀ n, o.2.2 = some n → n ≤ data.length) ?_ ?_ _ s _ hPos (chunkLoop_run data s) n hn
  · intro s next hs hNext
    have hMax := (chunkRound_inr hNext).1
    omega
  · intro s o hs hExit n hn
    exact chunkRound_inl hs hExit n hn

theorem bodyPhase_le (data : Bytes) (s : Cursor) (hStart : s.start ≤ s.pos)
    (hPos : s.pos ≤ data.length) (n : Nat) (hn : (bodyPhase data s).2.2 = some n) : n ≤ data.length := by
  unfold bodyPhase at hn
  cases hState : s.parser.state with simp only [hState] at hn
  | body =>
    simp only [fixedBody] at hn
    split_ifs at hn <;> cases hn <;> omega
  | chunkSize | chunkData | chunkDataEnd =>
    exact chunkLoop_le data s hPos n hn
  | error =>
    cases hn
  | _ =>
    cases hn
    exact hPos

theorem parse_le (data : Bytes) (req : Request) (n : Nat) (hn : (p.parse data req).2.2 = some n) : n ≤ data.length := by
  have hPhases : ∀ q : HttpParser,
      (bodyPhase data (headLoop data { parser := q, req := req })).2.2 = some n →
        n ≤ data.length := by
    intro q hq
    obtain ⟨hStart, hPos⟩ :=
      headLoop_inside data { parser := q, req := req } le_rfl (Nat.zero_le _)
    exact bodyPhase_le data _ hStart hPos n hq
  unfold parse at hn
  split_ifs at hn
  · split at hn
    · dsimp only at hn
      split_ifs at hn
      cases hn
      exact le_rfl
    · exact hPhases _ hn
  · exact hPhases _ hn

def reparse (buf : Bytes) : List Bytes → Option Outcome
  | [] => none
  | packet :: packets =>
    if Decided (parse {} (buf ++ packet) {}) then some (parse {} (buf ++ packet) {})
    else reparse (buf ++ packet) packets

def Accepts (b : Bytes) : Prop :=
  (parse {} b {}).1.state = .complete ∧ (parse {} b {}).2.2 = some b.length

/-- Every proper prefix leaves the parse open, and the loop accepts the input however it is cut. -/
def Stable (b : Bytes) : Prop :=
  (∀ m < b.length, ¬Decided (parse {} (b.take m) {})) ∧
    ∀ packets : List Bytes, packets.flatten = b → reparse [] packets = some (parse {} b {})

variable {b : Bytes} {e : Nat}

theorem decided_unended (hEnd : findHeaderEnd b = none) : Decided (parse {} b {}) ↔ MAX_HEADER_SIZE < b.length := by
  rw [parse, if_pos (by decide), hEnd, Decided]
  simp only [Nat.zero_add]
  split_ifs with hLarge
  · exact iff_of_true (.inl rfl) hLarge
  · exact iff_of_false (by simp) hLarge

theorem findHeaderEnd_take (hEnd : findHeaderEnd b = some e) {m : Nat} (hm : m < e + 4) :
    findHeaderEnd (b.take m) = none := by
  by_contra hSome
  obtain ⟨i, hi⟩ := Option.ne_none_iff_exists'.mp hSome
  have hInside : i + 4 ≤ (b.take m).length := find_le _ _ i hi
  have hWhole := find_append _ _ (b.drop m) i hi
  rw [List.take_append_drop] at hWhole
  cases hEnd.symm.trans hWhole
  rw [List.length_take] at hInside
  omega

theorem Accepts.open_take (h : Accepts b) (hEnd : findHeaderEnd b = some e) {m : Nat} (hm : e + 4 ≤ m)
    (hShort : m < b.length) : ¬Decided (parse {} (b.take m) {}) := by
  intro hDecided
  have hFound : findHeaderEnd (b.take m) = some e := (find_take (crlf ++ crlf) b e m hm).mpr hEnd
  have hSame := parse_append {} (b.take m) (b.drop m) {} rfl (fun _ => by rw [hFound]; nofun) hDecided
  rw [List.take_append_drop] at hSame
  have hLe := parse_le {} (b.take m) {} b.length (hSame ▸ h.2)
  rw [List.length_take] at hLe
  omega

/-- While every proper prefix is open, the packets are collected and the whole is parsed. -/
theorem reparse_of_open (h : Accepts b) (hOpen : ∀ m < b.length, ¬Decided (parse {} (b.take m) {}))
    (packets : List Bytes) {buf : Bytes} (hBuf : buf ++ packets.flatten = b) (hShort : buf.length < b.length) :
    reparse buf packets = some (parse {} b {}) := by
  induction packets generalizing buf with
  | nil =>
    rw [List.flatten_nil, List.append_nil] at hBuf
    exact absurd (hBuf ▸ hShort) (lt_irrefl _)
  | cons packet packets ih =>
    rw [List.flatten_cons, ← List.append_assoc] at hBuf
    rw [reparse]
    by_cases hMore : (buf ++ packet).length < b.length
    · have hUndecided := hOpen _ hMore
      rw [← hBuf, List.take_left] at hUndecided
      rw [if_neg hUndecided]
      exact ih hBuf hMore
    · have hAll : buf ++ packet = b := List.IsPrefix.eq_of_length_le ⟨_, hBuf⟩ (Nat.not_lt.mp hMore)
      rw [hAll, if_pos (.inr h.1)]

/-- An accepted input is stable exactly when what comes before the last byte of its header end is no longer than a
header may be. -/
theorem stable_iff (b : Bytes) : (Accepts b → Stable b) ↔
    (Accepts b → ∃ e, findHeaderEnd b = some e ∧ e + 3 ≤ MAX_HEADER_SIZE) := by
  refine imp_congr_right fun hAccepts => ?_
  obtain ⟨e, hEnd⟩ := parse_complete_headerEnd {} b {} (by decide) hAccepts.1
  have hInside : e + 4 ≤ b.length := find_le _ b e hEnd
  constructor
  · rintro ⟨hOpen, -⟩
    have hBefore := hOpen (e + 3) (by omega)
    rw [decided_unended (findHeaderEnd_take hEnd (Nat.lt_succ_self _)), List.length_take] at hBefore
    exact ⟨e, hEnd, by omega⟩
  · rintro ⟨e', hEnd', hSmall⟩
    cases hEnd.symm.trans hEnd'
    have hOpen : ∀ m < b.length, ¬Decided (parse {} (b.take m) {}) := by
      intro m hm
      by_cases hHead : e + 4 ≤ m
      · exact hAccepts.open_take hEnd hHead hm
      · rw [decided_unended (findHeaderEnd_take hEnd (Nat.not_le.mp hHead)), List.length_take]
        omega
    exact ⟨hOpen, fun packets hPackets => reparse_of_open hAccepts hOpen packets hPackets (by simp; omega)⟩

theorem headLoop_round {data : Bytes} {s : Cursor} {c : UInt8} (hc : data[s.pos]? = some c)
    (hHead : inHead s.parser.state = true) : headLoop data s = headLoop data (onByte data c s) := by
  have hBody : headBody data s = .inr (onByte data c s) := by simp only [headBody, hc, hHead, if_true]
  have hRun := headLoop_run data s
  rw [run_round _ hBody] at hRun
  exact run_unique hRun (headLoop_run data _)

theorem headLoop_method {data : Bytes} {n : Nat} (h : ∀ i < n, data[i]? = some 65) :
    headLoop data { parser := {}, req := {} } = headLoop data { parser := {}, req := {}, pos := n } := by
  induction n with
  | zero => rfl
  | succ n ih =>
    rw [ih fun i hi => h i (by omega), headLoop_round (h n (Nat.lt_succ_self n)) rfl]
    rfl

theorem findHeaderEnd_letters (n : Nat) (rest : Bytes) :
    findHeaderEnd (List.replicate n 65 ++ rest) = (findHeaderEnd rest).map (· + n) := by
  induction n with
  | zero => simp
  | succ n ih =>
    have hNot : ¬crlf ++ crlf <+: 65 :: (List.replicate n 65 ++ rest) := by simp [crlf, cr]
    rw [List.replicate_succ, List.cons_append, findHeaderEnd, find, if_neg hNot]
    exact (congrArg _ ih).trans (Option.map_map ..)

def longMethod : Bytes := List.replicate 8188 65 ++ ascii "  \r\n\r\n"

/-- It is accepted in one piece, and refused when its last byte comes later. -/
theorem stable_broken : Accepts longMethod ∧ ¬Stable longMethod := by
  have hEnd : findHeaderEnd longMethod = some 8190 := findHeaderEnd_letters 8188 _
  have hLength : longMethod.length = 8194 := by rw [longMethod, List.length_append, List.length_replicate]; rfl
  have hLetters : ∀ i < 8188, longMethod[i]? = some 65 := by
    intro i hi
    rw [longMethod, List.getElem?_append_left (by rwa [List.length_replicate]), List.getElem?_replicate, if_pos hi]
  obtain ⟨t, hRun, hOut⟩ := Option.map_eq_some_iff.mp (by decide +kernel :
    (run (headBody longMethod) 7 { parser := {}, req := {}, pos := 8188 }).map
      (fun t => ((bodyPhase longMethod t).1.state, (bodyPhase longMethod t).2.2)) = some (.complete, some 8194))
  have hParse : parse {} longMethod {} = bodyPhase longMethod t := by
    rw [parse, if_pos (by decide), hEnd, ← run_unique (headLoop_run longMethod _) hRun]
    exact congrArg (bodyPhase longMethod) (headLoop_method hLetters)
  rw [← hParse, Prod.mk.injEq, ← hLength] at hOut
  refine ⟨hOut, fun hStable => hStable.1 8193 (by omega) ?_⟩
  rw [decided_unended (findHeaderEnd_take hEnd (by omega)), List.length_take, hLength]
  decide

end QbuemStack.Http.HttpParser
