import QbuemStack.Server.ResponseFraming

/-! Responses written while the handler runs, and the event stream on top of them. -/
namespace QbuemStack.Server

open Octets Numerals Http Response
open List (flatMap_append mem_cons_of_mem mem_cons_self)

inductive StreamOp where
  | chunk (data : Bytes)
  | endChunks
  | flush
  | flushEnd
  deriving DecidableEq

def StreamOp.apply (order : MapOrder) (r : Response) : StreamOp → Response × List WriteCall
  | .chunk data => (r.chunk data, [])
  | .endChunks => (r.endChunks, [])
  | .flush => ((r.flush order).1, written (r.flush order).2)
  | .flushEnd => ((r.flushEnd order).1, written (r.flushEnd order).2)

def drive (order : MapOrder) : Response → List StreamOp → Response × List WriteCall
  | r, [] => (r, [])
  | r, op :: ops =>
    let (next, calls) := op.apply order r
    let (final, more) := drive order next ops
    (final, calls ++ more)

namespace SseStream

def dataLines (data : Bytes) : Bytes :=
  if _hNil : data = [] then []
  else
    match find [lf] data with
    | none => ascii "data: " ++ data ++ [lf]
    | some nl => ascii "data: " ++ data.take nl ++ [lf] ++ dataLines (data.drop (nl + 1))
termination_by data.length
decreasing_by
  have hPositive := List.length_pos_of_ne_nil _hNil
  rw [List.length_drop]
  omega

def buildFrame (data event id : Bytes) (retry : Int) : Bytes :=
  (if event ≠ [] then ascii "event: " ++ event ++ [lf] else []) ++
    (if id ≠ [] then ascii "id: " ++ id ++ [lf] else []) ++
    (if 0 ≤ retry then ascii "retry: " ++ toStringInt retry ++ [lf] else []) ++
    dataLines data ++ [lf]

inductive Op where
  | send (data event id : Bytes) (retry : Int)
  | sendAsync (data event id : Bytes) (retry : Int)
  | heartbeat
  | close
  | closeAsync

def prepare (r : Response) : Response :=
  (((r.status 200).header (ascii "Content-Type") (ascii "text/event-stream; charset=utf-8")).header
    (ascii "Cache-Control") (ascii "no-cache")).header (ascii "X-Accel-Buffering") (ascii "no")

def calls : Bool → List Op → List StreamOp
  | closed, [] => if closed then [] else [.endChunks]
  | closed, .send data event id retry :: ops =>
    .chunk (buildFrame data event id retry) :: calls closed ops
  | closed, .sendAsync data event id retry :: ops =>
    .chunk (buildFrame data event id retry) :: .flush :: calls closed ops
  | closed, .heartbeat :: ops => .chunk (ascii ": ping\n\n") :: calls closed ops
  | closed, .close :: ops => if closed then calls true ops else .endChunks :: calls true ops
  | closed, .closeAsync :: ops => if closed then calls true ops else .flushEnd :: calls true ops

def Op.isFrame : Op → Bool
  | .close | .closeAsync => false
  | _ => true

def afterAsyncClose : List Op → Option (List Op)
  | [] => none
  | .close :: _ => none
  | .closeAsync :: ops => some ops
  | _ :: ops => afterAsyncClose ops

end SseStream

inductive Piece where
  | chunk (data : { d : Bytes // d ≠ [] })
  | zero
  | last

def Piece.bytes : Piece → Bytes
  | .chunk data => Response.encodeChunk data.val
  | .zero => ascii "0\r\n"
  | .last => ascii "0\r\n\r\n"

def StreamOp.piece : StreamOp → Option Piece
  | .chunk data => if h : data = [] then none else some (.chunk ⟨data, h⟩)
  | .endChunks => some .zero
  | _ => none

def pieces : List Piece → List StreamOp → List Piece
  | _, [] => []
  | pending, .flush :: ops => pending ++ pieces [] ops
  | pending, .flushEnd :: _ => pending ++ [.last]
  | pending, op :: ops => pieces (pending ++ op.piece.toList) ops

def StreamOp.flushes : StreamOp → Bool
  | .flush | .flushEnd => true
  | _ => false

def streamChunks (ops : List StreamOp) : List Bytes :=
  ops.filterMap fun op => match op with
    | .chunk data => if data = [] then none else some data
    | _ => none

def afterEnd : List StreamOp → List StreamOp
  | [] => []
  | .flushEnd :: ops => ops
  | _ :: ops => afterEnd ops

def beforeEnd (ops : List StreamOp) : List StreamOp := ops.takeWhile (· ≠ .flushEnd)

variable (order : MapOrder) (r : Response) (op : StreamOp) (ops : List StreamOp) (ps : List Piece)

theorem collected_cons : (op :: ops).filterMap StreamOp.piece = op.piece.toList ++ ops.filterMap StreamOp.piece := by
  cases hPiece : op.piece <;> simp [hPiece]

theorem pieces_collect (pending : List Piece) {op : StreamOp} (ops : List StreamOp) (h : op.flushes = false) :
    pieces pending (op :: ops) = pieces (pending ++ op.piece.toList) ops := by
  cases op with
  | flush | flushEnd => cases h
  | _ => rfl

theorem beforeEnd_cons {op : StreamOp} (h : op ≠ .flushEnd) : beforeEnd (op :: ops) = op :: beforeEnd ops := by
  simp [beforeEnd, h]

def collect (r : Response) (added : List Piece) (ended : Bool) : Response :=
  { r with chunkBuf := r.chunkBuf ++ added.flatMap Piece.bytes, chunked := r.chunked || ended }

@[simp] theorem collect_nil : collect r [] false = r := by
  simp [collect]

theorem collect_collect (qs : List Piece) (a b : Bool) :
    collect (collect r ps a) qs b = collect r (ps ++ qs) (a || b) := by
  simp [collect, Bool.or_assoc]

theorem apply_collects (h : r.streamOpen = false ∨ op.flushes = false) :
    op.apply order r = (collect r op.piece.toList (decide (op = .endChunks)), []) := by
  cases op with
  | chunk data =>
    by_cases hData : data = []
    · simp [StreamOp.apply, chunk, StreamOp.piece, hData]
    · simp [StreamOp.apply, chunk, StreamOp.piece, hData, collect, Piece.bytes]
  | endChunks => simp [StreamOp.apply, endChunks, StreamOp.piece, collect, Piece.bytes]
  | flush =>
    rcases h with hClosed | hNot
    · simp [StreamOp.apply, flush, hClosed, written, StreamOp.piece]
    · cases hNot
  | flushEnd =>
    rcases h with hClosed | hNot
    · simp [StreamOp.apply, flushEnd, hClosed, written, StreamOp.piece]
    · cases hNot

def gathered (r : Response) (ops : List StreamOp) : Response :=
  collect r (ops.filterMap StreamOp.piece) (decide (.endChunks ∈ ops))

theorem drive_collects (h : r.streamOpen = false ∨ ∀ op ∈ ops, op.flushes = false) :
    drive order r ops = (gathered r ops, []) := by
  induction ops generalizing r with
  | nil => simp [drive, gathered]
  | cons op ops ih =>
    have hStep := apply_collects order r op (h.imp_right fun hAll => hAll op mem_cons_self)
    have hRest := ih (collect r op.piece.toList (decide (op = .endChunks)))
      (h.imp_right fun hAll o ho => hAll o (mem_cons_of_mem _ ho))
    simp only [drive, hStep, hRest, gathered, collect_collect, collected_cons, List.nil_append, List.mem_cons,
      Bool.decide_or, eq_comm]

def streamHeader (order : MapOrder) (r : Response) : Bytes :=
  Response.serializeHeader order { r with chunked := true }

theorem flush_open (h : r.streamOpen = true) :
    (r.flush order).2 = (if r.headerSent then [] else streamHeader order r) ++ r.chunkBuf ∧
      (r.flush order).1.streamOpen = true ∧ (r.flush order).1.chunkBuf = [] ∧ (r.flush order).1.headerSent = true ∧
      (r.flush order).1.streamed = (r.streamed || !r.headerSent) := by
  unfold flush streamHead
  rw [if_pos h]
  cases hSent : r.headerSent with
  | true => simp [h, hSent]
  | false => exact ⟨rfl, h, rfl, rfl, by simp⟩

theorem flushEnd_open (h : r.streamOpen = true) : (r.flushEnd order).2 =
        (if r.headerSent then [] else streamHeader order r) ++ r.chunkBuf ++ ascii "0\r\n\r\n" ∧
      (r.flushEnd order).1.streamOpen = false ∧ (r.flushEnd order).1.streamed = (r.streamed || !r.headerSent) := by
  unfold flushEnd streamHead
  rw [if_pos h]
  cases hSent : r.headerSent with
  | true => simp
  | false => exact ⟨rfl, rfl, by simp⟩

/-- An open stream writes its header section with the first flush, and the pieces that were pending
at a flush. -/
theorem drive_open (fs : FileSystem) (order : MapOrder) (r : Response) (ops : List StreamOp)
    (pending : List Piece) (hOpen : r.streamOpen = true) (hBuf : r.chunkBuf = pending.flatMap Piece.bytes) :
    (drive order r ops).2.flatMap (WriteCall.bytes fs) =
        (if r.headerSent = false ∧ ops.any StreamOp.flushes then streamHeader order r else []) ++
          (pieces pending ops).flatMap Piece.bytes ∧ (drive order r ops).1.streamed =
        (r.streamed || (!r.headerSent && ops.any StreamOp.flushes)) := by
  have hWritten : ∀ out, (written out).flatMap (WriteCall.bytes fs) = out := by
    intro out
    unfold written
    split_ifs with hNil
    · exact hNil.symm
    · simp [WriteCall.bytes]
  induction ops generalizing r pending with
  | nil => simp [drive, pieces]
  | cons op ops ih =>
    by_cases hFlushes : op.flushes = true
    · cases op with
      | chunk | endChunks => cases hFlushes
      | flush =>
        obtain ⟨hOut, hStill, hEmpty, hSent, hStreamed⟩ := flush_open order r hOpen
        obtain ⟨hBytes, hFlag⟩ := ih (r.flush order).1 [] hStill hEmpty
        rw [hSent] at hBytes hFlag
        constructor
        · simp only [drive, StreamOp.apply, flatMap_append, hWritten, hOut, hBytes, hBuf, pieces]
          cases r.headerSent <;> simp [StreamOp.flushes]
        · simp only [drive, StreamOp.apply, hFlag, hStreamed]
          simp [StreamOp.flushes]
      | flushEnd =>
        obtain ⟨hOut, hClosed, hStreamed⟩ := flushEnd_open order r hOpen
        have hRest := drive_collects order (r.flushEnd order).1 ops (.inl hClosed)
        constructor
        · simp only [drive, StreamOp.apply, flatMap_append, hWritten, hOut, hRest, hBuf, pieces]
          cases r.headerSent <;> simp [StreamOp.flushes, Piece.bytes]
        · simp only [drive, StreamOp.apply, hRest, gathered, collect, hStreamed]
          simp [StreamOp.flushes]
    · have hStep := apply_collects order r op (.inr (Bool.eq_false_iff.mpr hFlushes))
      have hPieces := pieces_collect pending ops (Bool.eq_false_iff.mpr hFlushes)
      have hRest := ih (collect r op.piece.toList (decide (op = .endChunks)))
        (pending ++ op.piece.toList) hOpen (by simp [collect, hBuf])
      simp only [drive, hStep, List.nil_append, List.any_cons, hFlushes, Bool.false_or, hPieces]
      exact hRest

theorem takeLine_piece (p : Piece) (rest : Bytes) :
    ∃ line after, takeLine (p.bytes ++ rest) = some (line, after) ∧ line ≠ [] ∧ colon ∉ line := by
  cases p with
  | chunk data =>
    have hLine := takeLine_append (render 16 data.val.length) (data.val ++ (crlf ++ rest))
      (lf_render _)
    have hSplit : (Piece.chunk data).bytes ++ rest =
        render 16 data.val.length ++ (crlf ++ (data.val ++ (crlf ++ rest))) := by
      simp [Piece.bytes, encodeChunk]
    refine ⟨_, _, by rw [hSplit]; exact hLine, render_ne_nil _ _, ?_⟩
    intro hc
    obtain ⟨d, hd, hEq⟩ := render_digit (by decide) hc
    have hPlain : ∀ d < 16, digitByte d ≠ colon := by decide
    exact hPlain d hd hEq.symm
  | zero => exact ⟨ascii "0", rest, takeLine_append (ascii "0") _ (by decide), by decide, by decide⟩
  | last => exact ⟨ascii "0", crlf ++ rest, takeLine_append (ascii "0") _ (by decide), by decide,
      by decide⟩

theorem readFields_pieces (n : Nat) : readFields n (ps.flatMap Piece.bytes) = none := by
  cases ps with
  | nil => exact readFields_nil n
  | cons p ps =>
    cases n with
    | zero => rfl
    | succ n =>
      obtain ⟨line, after, hLine, hSome, hColon⟩ := takeLine_piece p (ps.flatMap Piece.bytes)
      rw [List.flatMap_cons, readFields, hLine]
      cases line with
      | nil => exact absurd rfl hSome
      | cons c line => simp [readField, hColon]

/-- Without the end of the stream the client never finds the end. -/
theorem readChunks_unterminated (n : Nat) (h : .last ∉ ps) : readChunks n (ps.flatMap Piece.bytes) = none := by
  induction ps generalizing n with
  | nil => exact readChunks_nil n
  | cons p ps ih =>
    cases n with
    | zero => rfl
    | succ n =>
      rw [List.flatMap_cons]
      cases p with
      | chunk data =>
        have hRest := ih n fun hIn => h (mem_cons_of_mem _ hIn)
        rw [Piece.bytes, readChunks_chunk data.val _ n data.property, hRest]
        rfl
      | zero =>
        rw [Piece.bytes, readChunks_last, readFields_pieces]
        rfl
      | last => exact absurd mem_cons_self h

theorem StreamOp.piece_ne_last : op.piece ≠ some .last := by
  cases op with
  | chunk data => by_cases hData : data = [] <;> simp [StreamOp.piece, hData]
  | _ => simp [StreamOp.piece]

theorem pieces_ended (pending : List Piece) (ops : List StreamOp) (h : .flushEnd ∈ ops) :
    pieces pending ops = pending ++ (beforeEnd ops).filterMap StreamOp.piece ++ [.last] := by
  induction ops generalizing pending with
  | nil => cases h
  | cons op ops ih =>
    by_cases hLast : op = .flushEnd
    · subst hLast
      simp [pieces, beforeEnd]
    · have hMore : .flushEnd ∈ ops := (List.mem_cons.mp h).resolve_left fun hEq => hLast hEq.symm
      rw [beforeEnd_cons ops hLast, collected_cons]
      by_cases hFlush : op = .flush
      · subst hFlush
        simp [pieces, ih [] hMore, StreamOp.piece]
      · have hQuiet : op.flushes = false := by
          cases op <;> first | rfl | contradiction
        rw [pieces_collect pending ops hQuiet, ih _ hMore]
        simp

theorem mem_pieces_open {pending : List Piece} {ops : List StreamOp} (h : .flushEnd ∉ ops) {p : Piece}
    (hp : p ∈ pieces pending ops) : p ∈ pending ∨ ∃ op ∈ ops, op.piece = some p := by
  induction ops generalizing pending with
  | nil => cases hp
  | cons op ops ih =>
    have hNone : .flushEnd ∉ ops := fun hIn => h (mem_cons_of_mem _ hIn)
    by_cases hFlush : op = .flush
    · subst hFlush
      rcases List.mem_append.mp hp with hOld | hNew
      · exact .inl hOld
      · rcases ih hNone hNew with hNil | ⟨o, ho, hPiece⟩
        · cases hNil
        · exact .inr ⟨o, mem_cons_of_mem _ ho, hPiece⟩
    · have hQuiet : op.flushes = false := by
        cases op with
        | flush => exact absurd rfl hFlush
        | flushEnd => exact absurd mem_cons_self h
        | _ => rfl
      rw [pieces_collect pending ops hQuiet] at hp
      rcases ih hNone hp with hOld | ⟨o, ho, hPiece⟩
      · rcases List.mem_append.mp hOld with hOld | hNew
        · exact .inl hOld
        · exact .inr ⟨op, mem_cons_self, by simpa using hNew⟩
      · exact .inr ⟨o, mem_cons_of_mem _ ho, hPiece⟩

theorem last_notMem_pieces {ops : List StreamOp} (h : .flushEnd ∉ ops) : .last ∉ pieces [] ops := by
  intro hLast
  rcases mem_pieces_open h hLast with hNil | ⟨op, -, hPiece⟩
  · cases hNil
  · exact op.piece_ne_last hPiece

theorem split_end : streamChunks ops = streamChunks (beforeEnd ops) ++ streamChunks (afterEnd ops) := by
  induction ops with
  | nil => rfl
  | cons op ops ih =>
    cases op with
    | flushEnd => simp [streamChunks, beforeEnd, afterEnd]
    | chunk data =>
      by_cases hData : data = [] <;> simpa [streamChunks, beforeEnd, afterEnd, hData] using ih
    | _ => simpa [streamChunks, beforeEnd, afterEnd] using ih

theorem streamChunks_ne_nil : ∀ data ∈ streamChunks ops, data ≠ [] := by
  intro data hData
  obtain ⟨op, -, hOp⟩ := List.mem_filterMap.mp hData
  cases op with
  | chunk d =>
    dsimp only at hOp
    split_ifs at hOp with hd
    exact Option.some.inj hOp ▸ hd
  | _ => cases hOp

theorem flatten_streamChunks {ops : List StreamOp} : (streamChunks ops).flatten = [] ↔ streamChunks ops = [] := by
  constructor
  · intro hFlat
    rw [List.eq_nil_iff_forall_not_mem]
    intro data hData
    exact streamChunks_ne_nil ops data hData (List.flatten_eq_nil_iff.mp hFlat data hData)
  · intro hNil
    rw [hNil]
    rfl

/-- Without `end_chunks` the collected pieces are the encoded chunks. -/
theorem collected_bytes (h : .endChunks ∉ ops) :
    (ops.filterMap StreamOp.piece).flatMap Piece.bytes = (streamChunks ops).flatMap encodeChunk := by
  induction ops with
  | nil => rfl
  | cons op ops ih =>
    have hRest := ih fun hIn => h (mem_cons_of_mem _ hIn)
    rw [collected_cons, flatMap_append, hRest]
    cases op with
    | endChunks => exact absurd mem_cons_self h
    | chunk data =>
      by_cases hData : data = [] <;> simp [StreamOp.piece, streamChunks, hData, Piece.bytes]
    | _ => rfl

theorem readChunks_stream (h : .flushEnd ∈ ops → .endChunks ∉ beforeEnd ops) (content : Bytes)
    (hContent : content = (pieces [] ops).flatMap Piece.bytes) : readChunks (content.length + 1) content =
      if .flushEnd ∈ ops then some ((streamChunks (beforeEnd ops)).flatten, [], []) else none := by
  split_ifs with hEnd
  · have hSplit : content = (streamChunks (beforeEnd ops)).flatMap encodeChunk ++
        (ascii "0\r\n" ++ crlf) := by
      rw [hContent, pieces_ended [] ops hEnd, List.nil_append, flatMap_append, collected_bytes _ (h hEnd)]
      rfl
    obtain ⟨n, hn, hRead⟩ := readChunks_written (streamChunks (beforeEnd ops)) (ascii "0\r\n" ++ crlf)
      (streamChunks_ne_nil _)
    obtain ⟨n, rfl⟩ := Nat.exists_eq_succ_of_ne_zero (by omega : n ≠ 0)
    have hEmpty : readFields (crlf.length + 1) crlf = some ([], []) := by decide
    rw [hSplit, hRead, readChunks_last, hEmpty]
    simp
  · rw [hContent]
    exact readChunks_unterminated _ _ (last_notMem_pieces hEnd)

end QbuemStack.Server
