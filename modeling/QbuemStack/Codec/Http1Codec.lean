import QbuemStack.Http.Framing
import QbuemStack.Http.ParserResume

/-! The frame codec around the request parser. `decode` gives the whole buffer to one parser object
and drops it whenever the request is not complete yet. -/
namespace QbuemStack.Codec

open Octets Http HttpParser

inductive DecodeStatus where
  | complete | incomplete | error
  deriving DecidableEq, Repr

structure Http1Codec where
  parser : HttpParser := {}

namespace Http1Codec

variable (codec : Http1Codec) {message first buf : Bytes} {out out' : Request} {p : HttpParser} {n : Nat}

/-- Every byte counts as consumed by an incomplete call, whatever the parser reported. -/
def decode (codec : Http1Codec) (buf : Bytes) (out : Request) :
    Http1Codec × Bytes × Request × DecodeStatus :=
  if buf = [] then (codec, buf, out, .incomplete)
  else
    match codec.parser.parse buf out with
    | (p, out, none) => ({ parser := p }, buf, out, .error)
    | (p, out, some consumed) =>
      if p.isComplete then ({ parser := p }, buf.drop consumed, out, .complete)
      else ({ parser := p }, [], out, .incomplete)

def decodeAll (codec : Http1Codec) (out : Request) : List Bytes → List DecodeStatus × Request
  | [] => ([], out)
  | piece :: rest =>
    let (codec, _, out, status) := codec.decode piece out
    let (statuses, final) := codec.decodeAll out rest
    (status :: statuses, final)

theorem decode_incomplete (hBuf : buf ≠ []) (h : codec.parser.parse buf out = (p, out', some n))
    (hState : p.state ≠ .complete) : codec.decode buf out = ({ parser := p }, [], out', .incomplete) := by
  simp [decode, hBuf, h, isComplete, hState]

theorem decode_complete (hBuf : buf ≠ []) (h : codec.parser.parse buf out = (p, out', some n))
    (hState : p.state = .complete) : codec.decode buf out = ({ parser := p }, buf.drop n, out', .complete) := by
  simp [decode, hBuf, h, isComplete, hState]

def content (req : Request) : Method × Bytes × Bytes × List (Bytes × Bytes) × Bytes :=
  (req.method, req.path.bytes, req.queryString.bytes, req.headerLines, req.body.bytes)

/-- A cut behind the first CRLF CRLF, at the end of the head of a request of known length or where
the one-shot parse is about to read a chunk-size line. -/
def Boundary (message : Bytes) (cut : Nat) : Prop :=
  let head := headLoop message freshCursor
  findHeaderEnd (message.take cut) ≠ none ∧
    (head.parser.state = .body ∧ cut = head.pos ∨
      head.parser.state = .chunkSize ∧
        ∃ s, Visits message head s ∧ s.parser.state = .chunkSize ∧ s.pos = cut)

/-- Every place where one piece ends and another begins. -/
def CutsAt (p : Nat → Prop) : Nat → List Bytes → Prop
  | origin, piece :: next :: rest =>
    p (origin + piece.length) ∧ CutsAt p (origin + piece.length) (next :: rest)
  | _, _ => True

/-- Only the last piece completes a request, which says what the one-shot parse says. -/
def DecodesAs (message : Bytes) (pieces : List Bytes) : Prop :=
  (decodeAll {} {} pieces).1 = List.replicate (pieces.length - 1) .incomplete ++ [.complete] ∧
    content (decodeAll {} {} pieces).2 = content (parse {} message {}).2.1

theorem parse_chunkSize (p : HttpParser) (data : Bytes) (req : Request)
    (h : p.state = .chunkSize) : p.parse data req = chunkLoop data { parser := p, req := req } := by
  have hStop := headLoop_stop data { parser := p, req := req } (.inr (by simp [h, inHead]))
  simp [parse, awaitsHeaderEnd, h, inHead, hStop, bodyPhase]

theorem decodeAll_chunks {head : Cursor}
    (hDone : (chunkLoop message head).1.state = .complete) (s : Cursor) (pieces : List Bytes)
    (hNonempty : ∀ piece ∈ pieces, piece ≠ []) (hSome : pieces ≠ [])
    (hRest : pieces.flatten = message.drop s.pos) (hPos : s.pos ≤ message.length)
    (hVisits : Visits message head s) (hState : s.parser.state = .chunkSize)
    (hCuts : CutsAt (fun cut => ∃ t, Visits message head t ∧ t.parser.state = .chunkSize ∧ t.pos = cut)
      s.pos pieces) : decodeAll { parser := s.parser } head.req pieces =
      (List.replicate (pieces.length - 1) .incomplete ++ [.complete],
        head.req.setBody (chunkLoop message head).1.chunkView) := by
  induction pieces generalizing s with
  | nil => exact absurd rfl hSome
  | cons piece rest ih =>
    have hPiece : piece ≠ [] := hNonempty piece List.mem_cons_self
    have hParse := parse_chunkSize s.parser piece head.req hState
    have hMoved : ({ parser := s.parser, req := head.req } : Cursor) =
        moved head.req s.pos 0 s := by
      simp [moved]
    rw [hMoved] at hParse
    cases rest with
    | nil =>
      have hAll : piece = message.drop s.pos := by simpa using hRest
      have hLoop := hVisits.loop_eq.1
      obtain ⟨n, -, -, hLast⟩ := chunkLoop_rest head.req s.pos 0 (hLoop ▸ hDone)
        (by simp [hState]) le_rfl hPos
      rw [← hAll, ← hLoop] at hLast
      have hDecode := decode_complete { parser := s.parser } hPiece
        (hParse.trans hLast) hDone
      simp [decodeAll, hDecode]
    | cons next rest =>
      obtain ⟨⟨t, hReach, hStart, hEnd⟩, hLater⟩ := hCuts
      have hLength := congrArg List.length hRest
      simp only [List.flatten_cons, List.length_append, List.length_drop] at hLength
      have hPositive := List.length_pos_of_ne_nil hPiece
      have hForward : Visits message s t := by
        rcases Relation.ReflTransGen.total_of_right_unique
          (fun a b c hb hc => Sum.inr.inj (hb.symm.trans hc)) hVisits hReach with h | h
        · exact h
        · have hBack := Visits.pos_le h
          omega
      have hCut : slice message s.pos (t.pos - s.pos) = piece := by
        have hCount : t.pos - s.pos = piece.length := by omega
        rw [hCount, slice, ← hRest, List.flatten_cons, List.take_left]
      have hLoop := chunkLoop_piece head.req s.pos 0 hForward hStart le_rfl (by omega)
      rw [hCut] at hLoop
      have hDecode := decode_incomplete { parser := s.parser } hPiece
        (hParse.trans hLoop) (by simp [hStart])
      have hTail : (next :: rest).flatten = message.drop t.pos := by
        rw [hEnd, ← List.drop_drop, ← hRest, List.flatten_cons (l := piece), List.drop_left]
      have hNext := ih t (fun p hp => hNonempty p (List.mem_cons_of_mem _ hp)) (by simp) hTail
        (by omega) hReach hStart (hEnd ▸ hLater)
      rw [decodeAll, hDecode]
      simp only [hNext]
      rfl

/-- A message that a fresh parser accepts as one complete request. -/
def Accepted (message : Bytes) : Prop :=
  (parse {} message {}).1.state = .complete ∧ (parse {} message {}).2.2 = some message.length

instance (message : Bytes) : Decidable (Accepted message) := inferInstanceAs (Decidable (_ ∧ _))

theorem Accepted.phases (h : Accepted message) :
    parse {} message {} = bodyPhase message (headLoop message freshCursor) := by
  obtain ⟨e, he⟩ := parse_complete_headerEnd {} message {} (by decide) h.1
  exact parse_fresh message e he

theorem parse_firstPiece (message : Bytes) (cut : Nat) (hCut : cut ≤ message.length)
    (hEnd : findHeaderEnd (message.take cut) ≠ none) (hPos : (headLoop message freshCursor).pos ≤ cut)
    (hOut : inHead (headLoop message freshCursor).parser.state = false) : parse {} (message.take cut) {} =
      bodyPhase (message.take cut) (headLoop message freshCursor) := by
  obtain ⟨e, he⟩ := Option.ne_none_iff_exists'.mp hEnd
  rw [parse_fresh _ e he, headLoop_take message cut freshCursor hCut le_rfl hPos hOut]

/-- A request of known length cut at the end of its head. -/
theorem decodesAs_head_body {second : Bytes} (hAccepted : Accepted (first ++ second))
    (hFirst : first ≠ []) (hSecond : second ≠ []) (hEnd : findHeaderEnd first ≠ none)
    (hState : (headLoop (first ++ second) freshCursor).parser.state = .body)
    (hCut : first.length = (headLoop (first ++ second) freshCursor).pos) :
    DecodesAs (first ++ second) [first, second] := by
  have hWhole := hAccepted.phases
  obtain ⟨-, hLength⟩ := hAccepted
  obtain ⟨-, -, -, -, -, -, -, hStart⟩ := headLoop_shape (first ++ second) (by simp [hState, inHead])
    (by simp [hState])
  have hOne := parse_firstPiece (first ++ second) first.length
    (by simp) (by simpa using hEnd) hCut.ge (by simp [hState, inHead])
  rw [List.take_left] at hOne
  rw [hWhole] at hLength
  have hPositive := List.length_pos_of_ne_nil hSecond
  generalize hHead : headLoop (first ++ second) freshCursor = head at *
  have hAt := hStart hState
  simp only [bodyPhase, hState, fixedBody, hAt, ← hCut] at hLength hOne hWhole
  split_ifs at hLength with hShort
  · rw [Option.some.injEq, List.length_append] at hLength
    omega
  rw [Option.some.injEq, List.length_append] at hLength
  have hBody : head.parser.bodyLength = second.length := by omega
  rw [if_pos (by omega)] at hOne
  rw [if_neg hShort] at hWhole
  have hTwo : head.parser.parse second head.req =
      ({ head.parser with state := .complete }, head.req.setBody (substr second 0 second.length),
        some second.length) := by
    have hStop := headLoop_stop second { parser := head.parser, req := head.req }
      (.inr (by simp [hState, inHead]))
    simp [parse, awaitsHeaderEnd, hState, inHead, hStop, bodyPhase, fixedBody, hBody]
  have hDecodeOne := decode_incomplete {} hFirst hOne (by simp [hState])
  have hDecodeTwo := decode_complete { parser := head.parser } hSecond hTwo rfl
  have hBytes : slice (first ++ second) first.length second.length = slice second 0 second.length := by
    simp [slice]
  constructor
  · simp [decodeAll, hDecodeOne, hDecodeTwo]
  · simp [decodeAll, hDecodeOne, hDecodeTwo, hWhole, content, Request.setBody, substr, hBody, hBytes,
      Request.headerLines]

/-- A chunked request cut at chunk-size lines. -/
theorem decodesAs_chunks {rest : List Bytes} {s : Cursor}
    (hAccepted : Accepted message) (hFlat : (first :: rest).flatten = message)
    (hNonempty : ∀ piece ∈ first :: rest, piece ≠ []) (hRest : rest ≠ []) (hEnd : findHeaderEnd first ≠ none)
    (hHead : (headLoop message freshCursor).parser.state = .chunkSize)
    (hVisits : Visits message (headLoop message freshCursor) s)
    (hState : s.parser.state = .chunkSize) (hPos : s.pos = first.length)
    (hCuts : CutsAt (fun cut => ∃ t, Visits message (headLoop message freshCursor) t ∧
      t.parser.state = .chunkSize ∧ t.pos = cut) s.pos rest) : DecodesAs message (first :: rest) := by
  have hMessage : message = first ++ rest.flatten := hFlat.symm
  have hLength : first.length ≤ message.length := by
    rw [hMessage, List.length_append]
    omega
  have hTake : message.take first.length = first := by
    rw [hMessage, List.take_left]
  have hReach := Visits.pos_le hVisits
  have hWhole := hAccepted.phases
  obtain ⟨hDone, -⟩ := hAccepted
  have hOne := parse_firstPiece message first.length hLength (hTake.symm ▸ hEnd) (hPos ▸ hReach)
    (by simp [hHead, inHead])
  rw [hTake] at hOne
  generalize headLoop message freshCursor = head at *
  simp only [bodyPhase, hHead] at hWhole hOne
  rw [hWhole] at hDone
  have hLoop := chunkLoop_piece head.req 0 head.start hVisits hState (Nat.zero_le _) (by omega)
  have hSlice : slice message 0 (s.pos - 0) = first := by
    rw [Nat.sub_zero, hPos, slice, List.drop_zero, hTake]
  rw [hSlice, show moved head.req 0 head.start head = head from rfl] at hLoop
  have hFirst := decode_incomplete {} (hNonempty first List.mem_cons_self) (hOne.trans hLoop)
    (by simp [hState])
  have hTail := decodeAll_chunks hDone s rest (fun p hp => hNonempty p (List.mem_cons_of_mem _ hp))
    hRest (by rw [hPos, hMessage, List.drop_left]) (by omega) hVisits hState hCuts
  obtain ⟨n, -, hOut, -⟩ := chunkLoop_rest head.req 0 0 hDone (by simp [hHead]) (Nat.zero_le _)
    (by omega)
  constructor
  · rw [decodeAll, hFirst]
    simp only [hTail]
    cases rest with
    | nil => exact absurd rfl hRest
    | cons next rest => rfl
  · rw [decodeAll, hFirst, hWhole, hOut]
    simp only [hTail]

theorem CutsAt.imp {p q : Nat → Prop} (h : ∀ n, p n → q n) {origin : Nat} {pieces : List Bytes}
    (hCuts : CutsAt p origin pieces) : CutsAt q origin pieces := by
  induction pieces generalizing origin with
  | nil => trivial
  | cons piece rest ih =>
    cases rest with
    | nil => trivial
    | cons next rest => exact ⟨h _ hCuts.1, ih hCuts.2⟩

/-- However many pieces a request is cut into, if every cut is a boundary the codec reports the
request with the last piece and as the one-shot parse has it. -/
theorem decodesAs_of_boundaries (message : Bytes) (pieces : List Bytes)
    (hFlat : pieces.flatten = message) (hNonempty : ∀ piece ∈ pieces, piece ≠ [])
    (hAccepted : Accepted message) (hCuts : CutsAt (Boundary message) 0 pieces) : DecodesAs message pieces := by
  match pieces with
  | [] =>
    subst hFlat
    exact absurd hAccepted (by decide)
  | [piece] =>
    have hPiece : piece = message := by simpa using hFlat
    subst hPiece
    have hParse : parse {} piece {} =
        ((parse {} piece {}).1, (parse {} piece {}).2.1, some piece.length) := by
      rw [← hAccepted.2]
    have hDecode := decode_complete {} (hNonempty piece List.mem_cons_self) hParse hAccepted.1
    simp [DecodesAs, decodeAll, hDecode]
  | first :: second :: rest =>
    obtain ⟨⟨hEnd, hCase⟩, hLater⟩ := hCuts
    rw [Nat.zero_add] at hEnd hCase hLater
    have hMessage : message = first ++ (second :: rest).flatten := hFlat.symm
    have hTake : message.take first.length = first := by
      rw [hMessage, List.take_left]
    rw [hTake] at hEnd
    rcases hCase with ⟨hState, hCut⟩ | ⟨hState, s, hVisits, hStart, hPos⟩
    · cases rest with
      | nil =>
        have hTwo : message = first ++ second := by simpa using hMessage
        subst hTwo
        exact decodesAs_head_body hAccepted (hNonempty first (by simp))
          (hNonempty second (by simp)) hEnd hState hCut
      | cons third rest =>
        have hPositive := List.length_pos_of_ne_nil (hNonempty second (by simp))
        rcases hLater.1.2 with ⟨-, hAgain⟩ | ⟨hChunk, -⟩
        · omega
        · rw [hState] at hChunk
          cases hChunk
    · refine decodesAs_chunks hAccepted hFlat hNonempty (by simp) hEnd hState hVisits hStart hPos ?_
      rw [hPos]
      refine CutsAt.imp ?_ hLater
      intro cut hCut
      rcases hCut.2 with ⟨hBody, -⟩ | ⟨-, hReach⟩
      · rw [hState] at hBody
        cases hBody
      · exact hReach

/-- A body of known length that arrives after its head. -/
theorem decodesAs_of_boundaries_body : DecodesAs (ascii "PUT /k HTTP/1.1\r\nContent-Length: 2\r\n\r\nhi")
      [ascii "PUT /k HTTP/1.1\r\nContent-Length: 2\r\n\r\n", ascii "hi"] :=
  decodesAs_of_boundaries _ _ (by decide) (by decide) (by decide +kernel)
    ⟨⟨by decide +kernel, .inl (by decide +kernel)⟩, trivial⟩

/-- The head itself cut after its first line: both pieces are dropped, and the complete request is
never reported. -/
theorem decode_head_cut_lost :
    let pieces := [ascii "GET / HTTP/1.1\r\n", ascii "\r\n"]
    Accepted pieces.flatten ∧ (decodeAll {} {} pieces).1 = [.incomplete, .incomplete] := by
  decide +kernel

end Http1Codec

end QbuemStack.Codec
