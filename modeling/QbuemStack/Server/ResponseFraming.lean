import QbuemStack.Server.AnsweredResponse

/-! When the bytes written for a response are one message that carries what was set. -/
namespace QbuemStack.Server

open Octets Numerals Http Response
open List (count_append length_append)

def intended (fs : FileSystem) (ops : List BuildOp) : Intended :=
  let r := build {} ops
  { status := r.statusCode
    fields := setFields r
    body := if r.hasSendfile then (fs r.sendfilePath).getD []
      else if r.chunked then (chunkCalls ops).flatten else r.body
    trailers := if r.chunked then trailerCalls ops else [] }

def ContentFramed (ops : List BuildOp) : Prop :=
  let r := build {} ops
  if r.chunked then
    if r.hasSendfile then bodiless r.statusCode = true ∧ r.sendfileSize = 0 ∧ trailerCalls ops = []
    else bodiless r.statusCode = false ∧ r.trailers ≠ [] ∧ r.trailers = trailerCalls ops
  else bodiless r.statusCode = true → r.contentLength = 0

theorem count_encodeTrailers {r : Response} (h : ∀ t ∈ r.trailers, Writable t) :
    r.encodeTrailers.count lf = r.trailers.length + 1 := by
  have hEnd : crlf.count lf = 1 := by decide
  have hLines : ∀ fields : List (Bytes × Bytes), (∀ t ∈ fields, Writable t) →
      (fields.flatMap encodeLine).count lf = fields.length := by
    intro fields hFields
    induction fields with
    | nil => rfl
    | cons t fields ih =>
      have hWritable := hFields t List.mem_cons_self
      have hRest := ih fun u hu => hFields u (List.mem_cons_of_mem _ hu)
      have hSep : (ascii ": ").count lf = 0 := by decide
      rw [List.flatMap_cons, count_append, hRest, encodeLine, count_append,
        count_append, count_append, List.count_eq_zero.mpr hWritable.lf_name,
        List.count_eq_zero.mpr hWritable.lf_value, hSep, hEnd, List.length_cons]
      omega
  unfold encodeTrailers
  split_ifs with hNone
  · rw [hNone, hEnd]
    rfl
  · rw [count_append, hLines _ h, hEnd]

theorem encodeChunk_length (data : Bytes) : 1 ≤ (encodeChunk data).length := by
  simp [encodeChunk, crlf]
  omega

theorem readChunks_written (chunks : List Bytes) (rest : Bytes) (hChunks : ∀ data ∈ chunks, data ≠ []) :
    ∃ n, rest.length < n ∧ readChunks ((chunks.flatMap encodeChunk ++ rest).length + 1)
          (chunks.flatMap encodeChunk ++ rest) = (readChunks n rest).map fun (body, trailers, tail) =>
          (chunks.flatten ++ body, trailers, tail) := by
  have hLength := flatMap_length encodeChunk chunks fun data _ => encodeChunk_length data
  refine ⟨(chunks.flatMap encodeChunk ++ rest).length + 1 - chunks.length, ?_, ?_⟩
  · rw [length_append]
    omega
  · rw [← readChunks_chunks chunks rest _ hChunks]
    congr 1
    rw [length_append]
    omega

theorem chunkCalls_ne_nil (ops : List BuildOp) : ∀ data ∈ chunkCalls ops, data ≠ [] := by
  intro data hData
  obtain ⟨op, -, hOp⟩ := List.mem_filterMap.mp hData
  cases op with
  | chunk d =>
    dsimp only at hOp
    split_ifs at hOp with hd
    exact Option.some.inj hOp ▸ hd
  | _ => cases hOp

theorem readChunks_collected (chunks : List Bytes) (r : Response) (hChunks : ∀ data ∈ chunks, data ≠ [])
    (hTrailers : ∀ t ∈ r.trailers, Writable t) (content : Bytes)
    (hContent : content = chunks.flatMap encodeChunk ++ ascii "0\r\n" ++
      (if r.trailers ≠ [] then r.encodeTrailers else [])) : readChunks (content.length + 1) content =
      if r.trailers ≠ [] then some (chunks.flatten, r.trailers.map trimmed, []) else none := by
  rw [List.append_assoc] at hContent
  obtain ⟨n, hn, hRead⟩ := readChunks_written chunks
    (ascii "0\r\n" ++ if r.trailers ≠ [] then r.encodeTrailers else []) hChunks
  obtain ⟨n, rfl⟩ := Nat.exists_eq_succ_of_ne_zero (by omega : n ≠ 0)
  rw [hContent, hRead, readChunks_last]
  split_ifs with hSome
  · have hEncode : r.encodeTrailers = r.trailers.flatMap encodeLine ++ (crlf ++ []) := by
      rw [encodeTrailers, if_neg hSome, List.append_nil]
    have hLines := length_le_encodeLines r.trailers
    have hFields := readFields_encode r.trailers [] (r.encodeTrailers.length + 1) hTrailers (by
      rw [hEncode, length_append]
      omega)
    rw [← hEncode] at hFields
    rw [hFields]
    simp
  · rw [readFields_nil]
    rfl

section Built

variable {fs : FileSystem} {ops : List BuildOp}

theorem payload_fixed {r : Response} (h : Sound fs r) (hChunked : r.chunked = false) :
    payload fs r = (if r.hasSendfile then (fs r.sendfilePath).getD [] else r.body) ∧
      (payload fs r).length = r.contentLength := by
  unfold payload contentLength
  simp only [hChunked, Bool.false_eq_true, false_and, if_false, List.append_nil]
  by_cases hFile : r.sendfilePath = []
  · simp [hasSendfile, hFile]
  · obtain ⟨contents, hOpen, hSize⟩ := h.file hFile
    simp [hasSendfile, hFile, hOpen, ← hSize]

theorem content_fixed_iff {r : Response} (h : Sound fs r) (hChunked : r.chunked = false) :
    readContent r (payload fs r) = some (if r.hasSendfile then (fs r.sendfilePath).getD [] else r.body, [], []) ↔
      (bodiless r.statusCode = true → r.contentLength = 0) := by
  obtain ⟨hPayload, hLength⟩ := payload_fixed h hChunked
  rw [← hPayload]
  unfold readContent
  cases hBodiless : bodiless r.statusCode with
  | true =>
    simp only [if_true, Option.some.injEq, Prod.mk.injEq, true_and, forall_const]
    rw [← hLength, List.length_eq_zero_iff]
    exact ⟨fun hEq => hEq.2, fun hNil => ⟨hNil.symm, hNil⟩⟩
  | false =>
    simp only [Bool.false_eq_true, if_false, hChunked, false_implies, iff_true]
    rw [← hLength, if_neg (lt_irrefl _), List.take_length, List.drop_length]

variable (hSound : Sound fs (build {} ops)) (hClosed : ChunksClosed ops)

include hSound hClosed

theorem content_file_iff (hChunked : (build {} ops).chunked = true) (hFile : (build {} ops).hasSendfile = true) :
    readContent (build {} ops) (payload fs (build {} ops)) =
        some ((fs (build {} ops).sendfilePath).getD [], (trailerCalls ops).map trimmed, []) ↔
      bodiless (build {} ops).statusCode = true ∧ (build {} ops).sendfileSize = 0 ∧ trailerCalls ops = [] := by
  obtain ⟨-, ⟨hNot, -⟩ | ⟨-, -, dropped, hCalls⟩⟩ := build_chunks hClosed
  · rw [hChunked] at hNot
    cases hNot
  · generalize build {} ops = r at *
    obtain ⟨contents, hOpen, hSize⟩ := hSound.file (by simpa [hasSendfile] using hFile)
    have hPayload : payload fs r = contents ++ (if r.trailers ≠ [] then r.encodeTrailers else []) := by
      simp [payload, hFile, hChunked, hOpen, ← hSize]
    rw [hPayload, hOpen, Option.getD_some]
    unfold readContent
    cases hBodiless : bodiless r.statusCode with
    | true =>
      simp only [if_true, Option.some.injEq, Prod.mk.injEq, true_and]
      constructor
      · rintro ⟨hNil, hNone, -⟩
        refine ⟨by rw [← hSize, ← hNil]; rfl, List.map_eq_nil_iff.mp hNone.symm⟩
      · rintro ⟨hZero, hNone⟩
        have hNil : contents = [] := List.length_eq_zero_iff.mp (hSize.trans hZero)
        have hTrailers : r.trailers = [] := (List.append_eq_nil_iff.mp (hCalls.symm.trans hNone)).2
        rw [hNil, hNone, hTrailers]
        exact ⟨rfl, rfl, rfl⟩
    | false =>
      simp only [Bool.false_eq_true, if_false, hChunked, if_true, false_and, iff_false]
      apply readChunks_unframed
      rw [List.length_map, hCalls, length_append]
      split_ifs
      · rw [count_encodeTrailers fun t ht => (hSound.trailers t ht).writable]
        omega
      · simp

theorem content_chunks_iff (hChunked : (build {} ops).chunked = true) (hFile : (build {} ops).hasSendfile = false) :
    readContent (build {} ops) (payload fs (build {} ops)) =
        some ((chunkCalls ops).flatten, (trailerCalls ops).map trimmed, []) ↔
      bodiless (build {} ops).statusCode = false ∧ (build {} ops).trailers ≠ [] ∧
        (build {} ops).trailers = trailerCalls ops := by
  obtain ⟨-, ⟨hNot, -⟩ | ⟨-, hBuf, dropped, hCalls⟩⟩ := build_chunks hClosed
  · rw [hChunked] at hNot
    cases hNot
  · have hChunks := chunkCalls_ne_nil ops
    generalize build {} ops = r at *
    have hPayload : payload fs r = (chunkCalls ops).flatMap encodeChunk ++ ascii "0\r\n" ++
        (if r.trailers ≠ [] then r.encodeTrailers else []) := by
      simp [payload, hFile, hChunked, hBuf]
    unfold readContent
    cases hBodiless : bodiless r.statusCode with
    | true =>
      simp only [if_true, Option.some.injEq, Prod.mk.injEq, Bool.true_eq_false, false_and, iff_false]
      rintro ⟨-, -, hNil⟩
      rw [hPayload] at hNil
      simp [ascii] at hNil
    | false =>
      simp only [Bool.false_eq_true, if_false, hChunked, if_true, true_and]
      rw [readChunks_collected (chunkCalls ops) r hChunks
        (fun t ht => (hSound.trailers t ht).writable) _ hPayload]
      split_ifs with hSome
      · simp only [Option.some.injEq, Prod.mk.injEq, true_and, and_true, ne_eq, hSome, not_false_eq_true]
        constructor
        · intro hMap
          have hLength := congrArg List.length hMap
          rw [List.length_map, List.length_map, hCalls, length_append] at hLength
          have hNone : dropped = [] := List.length_eq_zero_iff.mp (by omega)
          rw [hCalls, hNone, List.nil_append]
        · intro hEq
          rw [← hEq]
      · simp [hSome]

theorem content_iff : readContent (build {} ops) (payload fs (build {} ops)) =
        some ((intended fs ops).body, (intended fs ops).trailers.map trimmed, []) ↔ ContentFramed ops := by
  unfold intended ContentFramed
  cases hChunked : (build {} ops).chunked with
  | false =>
    have hFixed := content_fixed_iff hSound hChunked
    simpa [hChunked] using hFixed
  | true =>
    cases hFile : (build {} ops).hasSendfile with
    | true =>
      have hUnframed := content_file_iff hSound hClosed hChunked hFile
      simpa [hChunked, hFile] using hUnframed
    | false =>
      have hChunks := content_chunks_iff hSound hClosed hChunked hFile
      simpa [hChunked, hFile] using hChunks

end Built

end QbuemStack.Server
