import QbuemStack.Http.HeadLines

/-! How the body of a request is delimited: the rules of RFC 9112, section 6.3, over every field
line of the head, and when the parser, which goes by the first thirty-two lines, exact spelling and
first match, agrees with them. -/
namespace QbuemStack.Http

open Octets

inductive Framing where
  | chunked
  | fixed (length : Nat)
  deriving DecidableEq, Repr

def HttpParser.framing (p : HttpParser) : Framing :=
  if p.chunked then .chunked else .fixed p.bodyLength

section Rules

def lower (c : UInt8) : UInt8 := if 65 ≤ c ∧ c ≤ 90 then c + 32 else c

def sameName (a b : Bytes) : Bool := a.map lower = b.map lower

def isOws (c : UInt8) : Bool := c = 32 ∨ c = 9

def trimOws (v : Bytes) : Bytes := ((v.dropWhile isOws).reverse.dropWhile isOws).reverse

def stripCr (line : Bytes) : Bytes := if line.getLast? = some cr then line.dropLast else line

def fieldOf (line : Bytes) : Bytes × Bytes :=
  let name := line.takeWhile (· ≠ colon)
  (name, trimOws (stripCr (line.drop (name.length + 1))))

def fieldLines (head : Bytes) : List (Bytes × Bytes) :=
  ((head.splitOn lf).tail.filter (colon ∈ ·)).map fieldOf

def elements (value : Bytes) : List Bytes :=
  ((value.splitOn 44).map trimOws).filter (· ≠ [])

def named (name : Bytes) (fields : List (Bytes × Bytes)) : List (Bytes × Bytes) :=
  fields.filter fun f => sameName name f.1

def members (name : Bytes) (fields : List (Bytes × Bytes)) : List Bytes :=
  (named name fields).flatMap fun f => elements f.2

def isDecimal (v : Bytes) : Bool := v ≠ [] ∧ v.all isDigit

def agreedLength : List Bytes → Option Nat
  | [] => none
  | v :: rest =>
    if isDecimal v ∧ ∀ w ∈ rest, isDecimal w ∧ decimalValue w = decimalValue v then
      some (decimalValue v)
    else none

def endsChunked (codings : List Bytes) : Bool :=
  codings.getLast?.any fun coding => sameName coding (ascii "chunked")

/-- RFC 9112, section 6.3, for requests; `none` when the message is rejected. -/
def rfcFraming (fields : List (Bytes × Bytes)) : Option Framing :=
  if named (ascii "Transfer-Encoding") fields ≠ [] then
    if named (ascii "Content-Length") fields ≠ [] then none
    else if endsChunked (members (ascii "Transfer-Encoding") fields) then some .chunked
    else none
  else if named (ascii "Content-Length") fields ≠ [] then
    (agreedLength (members (ascii "Content-Length") fields)).map .fixed
  else some (.fixed 0)

end Rules

def afterByte (b : UInt8) (data : Bytes) : Bytes := (data.dropWhile (· ≠ b)).tail

def parserLines (head : Bytes) : List Bytes :=
  ((afterByte lf (afterByte space (afterByte space head))).splitOn lf).takeWhile (colon ∈ ·)

def storedLines (head : Bytes) : List (Bytes × Bytes) :=
  ((parserLines head).map storedField).take kMaxInlineHeaders

theorem afterByte_append (b : UInt8) (token rest : Bytes) (h : b ∉ token) :
    afterByte b (token ++ b :: rest) = rest := by
  unfold afterByte
  rw [List.dropWhile_append_of_pos (by
    intro c hc
    have hNe : c ≠ b := fun hEq => h (hEq ▸ hc)
    simpa using hNe)]
  simp

theorem splitOn_of_notMem (b : UInt8) (line : Bytes) (h : b ∉ line) : line.splitOn b = [line] := by
  rw [List.splitOn_eq_splitOnP]
  apply List.splitOnP_eq_singleton
  intro c hc
  have hNe : c ≠ b := fun hEq => h (hEq ▸ hc)
  simpa using hNe

theorem splitOn_unlines (lines : List Bytes) (rest : Bytes) (h : ∀ line ∈ lines, lf ∉ line) :
    (unlines lines ++ rest).splitOn lf = lines ++ rest.splitOn lf := by
  induction lines with
  | nil => rfl
  | cons line lines ih =>
    have hLine : lf ∉ line := h line List.mem_cons_self
    have hRest := ih fun l hl => h l (List.mem_cons_of_mem _ hl)
    have hSplit : unlines (line :: lines) ++ rest = line ++ lf :: (unlines lines ++ rest) := by
      simp [unlines]
    rw [hSplit, List.splitOn_append_cons_self, splitOn_of_notMem lf line hLine, hRest]
    rfl

section Shape

variable (h : HeadShape) (blank rest : Bytes)

theorem HeadShape.afterRequestLine :
    afterByte lf (afterByte space (afterByte space (h.bytes ++ rest))) = unlines h.lines ++ rest := by
  have hBytes : h.bytes ++ rest = h.method ++ space :: (h.path ++ space ::
      (h.version ++ lf :: (unlines h.lines ++ rest))) := by
    simp [HeadShape.bytes]
  rw [hBytes, afterByte_append _ _ _ h.space_method, afterByte_append _ _ _ h.space_path,
    afterByte_append _ _ _ h.lf_version]

theorem HeadShape.parserLines_eq (hColon : colon ∉ blank) (hLf : lf ∉ blank) :
    parserLines (h.bytes ++ (blank ++ lf :: rest)) = h.lines := by
  unfold parserLines
  rw [h.afterRequestLine, splitOn_unlines h.lines _ h.lf_lines, List.splitOn_append_cons_self,
    splitOn_of_notMem lf blank hLf, List.takeWhile_append_of_pos (by
      intro line hLine
      simpa using h.colon_lines line hLine)]
  simp [hColon]

theorem HeadShape.lines_subset (line : Bytes) (hLine : line ∈ h.lines) :
    line ∈ ((h.bytes ++ rest).splitOn lf).tail := by
  have hBytes : h.bytes ++ rest = (h.method ++ space :: (h.path ++ space :: h.version)) ++ lf ::
      (unlines h.lines ++ rest) := by
    simp [HeadShape.bytes]
  have hSome : (h.method ++ space :: (h.path ++ space :: h.version)).splitOn lf ≠ [] := by
    rw [List.splitOn_eq_splitOnP]
    exact List.splitOnP_ne_nil _ _
  rw [hBytes, List.splitOn_append_cons_self, splitOn_unlines h.lines _ h.lf_lines, List.tail_append_of_ne_nil hSome]
  exact List.mem_append_right _ (List.mem_append_left _ hLine)

end Shape

namespace HttpParser

variable (data : Bytes) {head : Bytes} (s : Cursor) (e : Nat)

def headSettled (p : HttpParser) (req : Request) : Framing × Bool × List (Bytes × Bytes) :=
  (p.framing, p.headersComplete, req.headerLines)

theorem ChunkRound.settled {data : Bytes} {s : Cursor} {out : Outcome ⊕ Cursor} (h : ChunkRound data s out) :
    out.elim (fun o => headSettled o.1 o.2.1) (fun next => headSettled next.parser next.req) =
      headSettled s.parser s.req := by
  cases h with
  | last eol =>
    simp only [lastChunk]
    split <;> rfl
  | part p _ hSame =>
    rw [hSame]
    rfl
  | _ => rfl

theorem bodyPhase_settled : headSettled (bodyPhase data s).1 (bodyPhase data s).2.1 = headSettled s.parser s.req := by
  have hLoop : headSettled (chunkLoop data s).1 (chunkLoop data s).2.1 = headSettled s.parser s.req := by
    refine Iteration.run_invariant (chunkRound data) (fun t => headSettled t.parser t.req = headSettled s.parser s.req)
      (fun o => headSettled o.1 o.2.1 = headSettled s.parser s.req) ?_ ?_ _ s _ rfl (chunkLoop_run data s)
    · intro t next ht hNext
      exact (chunkRound_cases hNext).settled.trans ht
    · intro t o ht hExit
      exact (chunkRound_cases hExit).settled.trans ht
  unfold bodyPhase
  cases s.parser.state with
  | body =>
    simp only [fixedBody]
    split_ifs <;> rfl
  | chunkSize | chunkData | chunkDataEnd => exact hLoop
  | _ => rfl

theorem parse_fresh (hEnd : findHeaderEnd data = some e) :
    parse {} data {} = bodyPhase data (headLoop data freshCursor) := by
  unfold parse
  rw [if_pos (by decide), hEnd]
  rfl

theorem headLoop_body : (headLoop data s).req.body = s.req.body := by
  refine headLoop_invariant data (fun t => t.req.body = s.req.body) (fun t c ht _ _ => ?_) s rfl
  obtain ⟨u, hSwitched, hRound⟩ := onByte_switched data c t
  rw [hRound]
  exact hSwitched.body.trans ht

/-- The next `length` bytes and no others once they are all there, or by the chunk loop. -/
def ReadsBody (data : Bytes) : Framing → Prop
  | .fixed length =>
    let start := (headLoop data freshCursor).pos
    if start + length ≤ data.length then
      (parse {} data {}).1.state = .complete ∧
        (parse {} data {}).2.2 = some (start + length) ∧
          (parse {} data {}).2.1.body.bytes = slice data start length
    else (parse {} data {}).1.state ≠ .complete ∧ (parse {} data {}).2.2 ≠ none
  | .chunked => parse {} data {} = chunkLoop data (headLoop data freshCursor)

/-- An accepted request reads its body as the framing says. -/
theorem readsBody (hEnd : findHeaderEnd data = some e) (hHead : inHead (headLoop data freshCursor).parser.state = false)
    (hKept : (headLoop data freshCursor).parser.state ≠ .error) :
    ReadsBody data (headLoop data freshCursor).parser.framing := by
  obtain ⟨-, hPos⟩ := headLoop_inside data freshCursor le_rfl (Nat.zero_le _)
  obtain ⟨shape, -, -, -, -, -, hSettled, hStart⟩ := headLoop_shape data hHead hKept
  have hBody := headLoop_body data freshCursor
  unfold ReadsBody
  rw [parse_fresh data e hEnd]
  generalize headLoop data freshCursor = s at *
  unfold Settled at hSettled
  cases hState : s.parser.state with rw [hState] at hSettled
  | body =>
    obtain ⟨-, -, -, hChunked⟩ := hSettled
    simp only [framing, hChunked, bodyPhase, hState, fixedBody, hStart hState, Bool.false_eq_true, if_false]
    by_cases hShort : data.length - s.pos < s.parser.bodyLength
    · rw [if_pos hShort, if_neg (by omega)]
      simp [hState]
    · rw [if_neg hShort, if_pos (by omega)]
      exact ⟨rfl, rfl, rfl⟩
  | chunkSize =>
    obtain ⟨-, -, hChunked, -⟩ := hSettled
    simp only [framing, hChunked, if_true, bodyPhase, hState]
  | complete =>
    obtain ⟨-, -, hChunked, hLength⟩ := hSettled
    simp only [framing, hChunked, hLength, bodyPhase, hState, Bool.false_eq_true, if_false,
      Nat.add_zero, hPos, if_true, hBody, slice_zero]
    exact ⟨trivial, trivial, rfl⟩
  | _ => exact hSettled.elim

/-- A head by itself: read to its end and not rejected. -/
def AcceptsHead (head : Bytes) : Prop :=
  (parse {} head {}).1.headersComplete = true ∧ (parse {} head {}).2.2 ≠ none

instance (head : Bytes) : Decidable (AcceptsHead head) :=
  inferInstanceAs (Decidable (_ ∧ _))

theorem AcceptsHead.exit {e : Nat} (hEnd : findHeaderEnd head = some e) (h : AcceptsHead head) :
    inHead (headLoop head freshCursor).parser.state = false ∧ (headLoop head freshCursor).parser.state ≠ .error := by
  obtain ⟨hComplete, hKept⟩ := h
  rw [parse_fresh head e hEnd] at hComplete hKept
  have hSame : _ = (headLoop head freshCursor).parser.headersComplete := congrArg (·.2.1) (bodyPhase_settled head _)
  have hComplete := hSame.symm.trans hComplete
  have hOut : inHead (headLoop head freshCursor).parser.state = false := by
    by_contra hIn
    have hOpen := ((headLoop_progress head).undecided (Bool.not_eq_false _ ▸ hIn)).1
    rw [hOpen] at hComplete
    cases hComplete
  refine ⟨hOut, ?_⟩
  intro hError
  simp [bodyPhase, hError] at hKept

theorem AcceptsHead.settled {e : Nat} (hEnd : findHeaderEnd head = some e) (h : AcceptsHead head) :
    (headLoop head freshCursor).req.headerLines = storedLines head ∧
      Settled (storedLines head) (headLoop head freshCursor).parser ∧
      ∀ line ∈ parserLines head, line ∈ (head.splitOn lf).tail ∧ colon ∈ line := by
  obtain ⟨hOut, hKept⟩ := h.exit hEnd
  obtain ⟨shape, blank, hRead, hColon, hLf, hStored, hSettled, -⟩ := headLoop_shape head hOut hKept
  have hHead : head = shape.bytes ++ (blank ++ lf :: head.drop (headLoop head freshCursor).pos) := by
    calc head = head.take (headLoop head freshCursor).pos ++
          head.drop (headLoop head freshCursor).pos := (List.take_append_drop _ _).symm
      _ = _ := by rw [hRead]; simp
  have hLines : parserLines head = shape.lines := by
    rw [hHead]
    exact shape.parserLines_eq blank _ hColon hLf
  rw [storedLines, hLines]
  refine ⟨hStored, hSettled, ?_⟩
  · intro line hLine
    refine ⟨?_, shape.colon_lines line hLine⟩
    rw [hHead]
    exact shape.lines_subset _ line hLine

end HttpParser

theorem named_of_lookup {head name : Bytes}
    (hLines : ∀ line ∈ parserLines head, line ∈ (head.splitOn lf).tail ∧ colon ∈ line)
    (h : lookup (storedLines head) name ≠ []) : named name (fieldLines head) ≠ [] := by
  unfold lookup at h
  split at h
  · rename_i stored hFind
    have hName : stored.1 = name := by simpa using List.find?_some hFind
    obtain ⟨line, hLine, rfl⟩ :=
      List.mem_map.mp (List.mem_of_mem_take (List.mem_of_find?_eq_some hFind))
    obtain ⟨hIn, hColon⟩ := hLines line hLine
    have hField : fieldOf line ∈ named name (fieldLines head) := by
      refine List.mem_filter.mpr ⟨?_, ?_⟩
      · exact List.mem_map_of_mem (List.mem_filter.mpr ⟨hIn, by simpa using hColon⟩)
      · rw [← hName]
        exact decide_eq_true rfl
    exact List.ne_nil_of_mem hField
  · exact absurd rfl h

theorem fromChars_decimal {text : Bytes} {n : Nat} (h : fromChars text = some (n, [])) :
    isDecimal text = true ∧ decimalValue text = n := by
  unfold fromChars at h
  dsimp only at h
  split_ifs at h with hNone hRange
  obtain ⟨hValue, hRest⟩ := Prod.mk.inj (Option.some.inj h)
  have hAll : text.takeWhile isDigit = text := by
    have hSplit := List.takeWhile_append_dropWhile (p := isDigit) (l := text)
    rw [hRest, List.append_nil] at hSplit
    exact hSplit
  rw [hAll] at hNone hValue
  refine ⟨?_, hValue⟩
  have hDigits : text.all isDigit = true := by
    rw [← hAll]
    exact List.all_takeWhile
  simp [isDecimal, hNone, hDigits]

/-- Exact spelling, first match and thirty-two stored lines lose nothing: there is no framing
header, the transfer codings end with chunked and are found, or all lengths agree with the one
found. -/
def Recognised (head : Bytes) : Prop :=
  let fields := fieldLines head
  let te := lookup (storedLines head) (ascii "Transfer-Encoding")
  let cl := lookup (storedLines head) (ascii "Content-Length")
  (named (ascii "Transfer-Encoding") fields = [] ∧ named (ascii "Content-Length") fields = []) ∨
  (named (ascii "Transfer-Encoding") fields ≠ [] ∧ named (ascii "Content-Length") fields = [] ∧
    endsChunked (members (ascii "Transfer-Encoding") fields) = true ∧ te = ascii "chunked") ∨
  (named (ascii "Transfer-Encoding") fields = [] ∧ named (ascii "Content-Length") fields ≠ [] ∧
    ∃ n, agreedLength (members (ascii "Content-Length") fields) = some n ∧
      (isDecimal cl = true ∧ decimalValue cl = n ∨ cl = [] ∧ n = 0))

/-- The framing that the stored lines settle on. -/
theorem HttpParser.Settled.framing {stored : List (Bytes × Bytes)} {p : HttpParser} (h : HttpParser.Settled stored p) :
    let te := lookup stored (ascii "Transfer-Encoding")
    let cl := lookup stored (ascii "Content-Length")
    (p.framing = .chunked ∧ te = ascii "chunked" ∧ cl = []) ∨
      (isDecimal cl = true ∧ te = [] ∧ p.framing = .fixed (decimalValue cl)) ∨
      (p.framing = .fixed 0 ∧ cl = [] ∧ te ≠ ascii "chunked") := by
  unfold HttpParser.Settled at h
  cases hState : p.state with rw [hState] at h
  | chunkSize =>
    obtain ⟨hTe, hCl, hChunked, -⟩ := h
    exact .inl ⟨by simp [HttpParser.framing, hChunked], hTe, hCl⟩
  | body =>
    obtain ⟨hTe, -, hLength, hChunked⟩ := h
    obtain ⟨hDecimal, hValue⟩ := fromChars_decimal hLength
    exact .inr (.inl ⟨hDecimal, hTe, by simp [HttpParser.framing, hChunked, hValue]⟩)
  | complete =>
    obtain ⟨hTe, hCl, hChunked, hLength⟩ := h
    exact .inr (.inr ⟨by simp [HttpParser.framing, hChunked, hLength], hCl, hTe⟩)
  | _ => exact h.elim

section Choice

variable {stored : List (Bytes × Bytes)} {p : HttpParser} (h : HttpParser.Settled stored p)

include h

theorem HttpParser.Settled.chunked_iff :
    p.framing = .chunked ↔ lookup stored (ascii "Transfer-Encoding") = ascii "chunked" := by
  have hWord : ascii "chunked" ≠ [] := by decide
  rcases h.framing with ⟨hFraming, hTe, -⟩ | ⟨-, hTe, hFraming⟩ | ⟨hFraming, -, hTe⟩
  · simp [hFraming, hTe]
  · simp [hFraming, hTe, hWord.symm]
  · simp [hFraming, hTe]

theorem HttpParser.Settled.fixed_iff (n : Nat) (hTe : lookup stored (ascii "Transfer-Encoding") = []) :
    p.framing = .fixed n ↔ isDecimal (lookup stored (ascii "Content-Length")) = true ∧
        decimalValue (lookup stored (ascii "Content-Length")) = n ∨
      lookup stored (ascii "Content-Length") = [] ∧ n = 0 := by
  have hWord : ascii "chunked" ≠ [] := by decide
  have hDigits : isDecimal [] = false := rfl
  rcases h.framing with ⟨-, hWrong, -⟩ | ⟨hDecimal, -, hFraming⟩ | ⟨hFraming, hCl, -⟩
  · exact absurd (hWrong.symm.trans hTe) hWord
  · have hSome : lookup stored (ascii "Content-Length") ≠ [] := by
      intro hNone
      rw [hNone, hDigits] at hDecimal
      cases hDecimal
    simp [hFraming, hDecimal, hSome]
  · simp [hFraming, hCl, hDigits, eq_comm]

end Choice

/-- For every accepted head, the framing chosen is the one the rules derive exactly on `Recognised` heads; and the
body is read by the framing that was chosen. -/
theorem framing_eq_rfcFraming_iff (data : Bytes) (e : Nat) (hEnd : findHeaderEnd data = some e)
    (hAccepts : HttpParser.AcceptsHead (data.take (e + 4))) :
    (some (HttpParser.parse {} data {}).1.framing = rfcFraming (fieldLines (data.take (e + 4))) ↔
      Recognised (data.take (e + 4))) ∧ HttpParser.ReadsBody data (HttpParser.parse {} data {}).1.framing := by
  have hHeadEnd : findHeaderEnd (data.take (e + 4)) = some e := (find_take (crlf ++ crlf) data e _ le_rfl).mpr hEnd
  obtain ⟨hOut, hKept⟩ := hAccepts.exit hHeadEnd
  have hLoop := HttpParser.headLoop_append (data.take (e + 4)) (data.drop (e + 4))
    HttpParser.freshCursor le_rfl (Nat.zero_le _) hOut
  rw [List.take_append_drop] at hLoop
  have hChosen : (HttpParser.parse {} data {}).1.framing =
      (HttpParser.headLoop data HttpParser.freshCursor).parser.framing := by
    rw [HttpParser.parse_fresh data e hEnd]
    exact congrArg (·.1) (HttpParser.bodyPhase_settled data _)
  have hReads := HttpParser.readsBody data e hEnd (by rw [hLoop]; exact hOut)
    (by rw [hLoop]; exact hKept)
  rw [← hChosen] at hReads
  refine ⟨?_, hReads⟩
  obtain ⟨-, hSettled, hLines⟩ := hAccepts.settled hHeadEnd
  rw [hChosen, hLoop]
  clear hChosen hReads hLoop
  generalize data.take (e + 4) = head at *
  have hAbsent : ∀ name, named name (fieldLines head) = [] → lookup (storedLines head) name = [] := by
    intro name hNone
    by_contra hSome
    exact named_of_lookup hLines hSome hNone
  unfold rfcFraming Recognised
  by_cases hT : named (ascii "Transfer-Encoding") (fieldLines head) = []
  · by_cases hC : named (ascii "Content-Length") (fieldLines head) = []
    · have hZero := (hSettled.fixed_iff 0 (hAbsent _ hT)).mpr (.inr ⟨hAbsent _ hC, rfl⟩)
      simp [hT, hC, hZero]
    · cases hAgreed : agreedLength (members (ascii "Content-Length") (fieldLines head)) with
      | none => simp [hT, hC, hAgreed]
      | some n => simp [hT, hC, hAgreed, hSettled.fixed_iff n (hAbsent _ hT)]
  · by_cases hC : named (ascii "Content-Length") (fieldLines head) = []
    · by_cases hEnds : endsChunked (members (ascii "Transfer-Encoding") (fieldLines head)) = true
      · simp [hT, hC, hEnds, hSettled.chunked_iff]
      · simp [hT, hC, hEnds]
    · simp [hT, hC]

/-- A recognised head: the coding is spelled as the parser looks for it. -/
theorem framing_eq_rfcFraming_chunked :
    let data := ascii "POST / HTTP/1.1\r\nhost: a\r\nTransfer-Encoding: chunked\r\n\r\n0\r\n\r\n"
    some (HttpParser.parse {} data {}).1.framing = rfcFraming (fieldLines (data.take 56)) :=
  (framing_eq_rfcFraming_iff _ 52 (by decide +kernel) (by decide +kernel)).1.mpr
    (.inr (.inl (by decide +kernel)))

/-- A length in lower case is not seen: the request counts as complete and the five bytes are left to the next one.
-/
theorem contentLength_lowercase_lost :
    let head := ascii "POST / HTTP/1.1\r\ncontent-length: 5\r\n\r\n"
    HttpParser.AcceptsHead head ∧
      rfcFraming (fieldLines head) = some (.fixed 5) ∧
      (HttpParser.parse {} (head ++ ascii "hello") {}).1.state = .complete ∧
      (HttpParser.parse {} (head ++ ascii "hello") {}).1.framing = .fixed 0 ∧
      (HttpParser.parse {} (head ++ ascii "hello") {}).2.2 = some head.length := by
  decide +kernel

def fieldText (line : Bytes) : Bytes :=
  let after := line.drop ((line.takeWhile (· ≠ colon)).length + 1)
  if after.head? = some space then after.tail else after

def exactField (line : Bytes) : Bytes × Bytes := (line.takeWhile (· ≠ colon), stripCr (fieldText line))

theorem storedField_exact_iff (line : Bytes) :
    storedField line = exactField line ↔ fieldText line = [] ∨ (fieldText line).getLast? = some cr := by
  have hStored : storedField line = (line.takeWhile (· ≠ colon), (fieldText line).dropLast) := rfl
  rw [hStored, exactField, Prod.mk.injEq, and_iff_right rfl, stripCr]
  by_cases hCr : (fieldText line).getLast? = some cr
  · simp [hCr]
  · rw [if_neg hCr, or_iff_left hCr]
    cases fieldText line with
    | nil => simp
    | cons c rest =>
      refine ⟨fun h => ?_, nofun⟩
      simpa using congrArg List.length h

/-- The headers are stored as they stand in their lines exactly when none of the first thirty-two ends with a bare
line feed: the byte before it is dropped. -/
theorem headers_exact_iff (head : Bytes) :
    (HttpParser.AcceptsHead head → (HttpParser.parse {} head {}).2.1.headerLines =
        ((parserLines head).map exactField).take kMaxInlineHeaders) ↔
      (HttpParser.AcceptsHead head → ∀ line ∈ (parserLines head).take kMaxInlineHeaders,
        fieldText line = [] ∨ (fieldText line).getLast? = some cr) := by
  refine imp_congr_right fun hAccepts => ?_
  obtain ⟨e, hEnd⟩ : ∃ e, findHeaderEnd head = some e := by
    cases hEnd : findHeaderEnd head with
    | some e => exact ⟨e, rfl⟩
    | none =>
      have hOpen := hAccepts.1
      rw [HttpParser.parse, if_pos (by decide), hEnd] at hOpen
      simp only at hOpen
      split_ifs at hOpen
      cases hOpen
  have hStored : (HttpParser.parse {} head {}).2.1.headerLines = storedLines head := by
    rw [HttpParser.parse_fresh head e hEnd, ← (hAccepts.settled hEnd).1]
    exact congrArg (·.2.2) (HttpParser.bodyPhase_settled head _)
  rw [hStored, storedLines, ← List.map_take, ← List.map_take, List.map_inj_left]
  exact forall₂_congr fun line _ => storedField_exact_iff line

/-- The value `bc` in front of a bare line feed is stored as `b`. -/
theorem value_truncated :
    let head := ascii "GET / HTTP/1.1\r\nA: bc\nB: d\r\n\r\n"
    HttpParser.AcceptsHead head ∧
      (HttpParser.parse {} head {}).2.1.headerLines = [(ascii "A", ascii "b"), (ascii "B", ascii "d")] ∧
      (parserLines head).map exactField = [(ascii "A", ascii "bc"), (ascii "B", ascii "d")] := by
  decide +kernel

end QbuemStack.Http
