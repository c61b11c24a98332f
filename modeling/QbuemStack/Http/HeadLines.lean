import QbuemStack.Http.ParserExtension

/-! What the first loop has read when it leaves the head: a request line, field lines that hold a
colon, and a line without one. -/
namespace QbuemStack.Http

open Octets

def unlines (lines : List Bytes) : Bytes := lines.flatMap (· ++ [lf])

theorem unlines_snoc (lines : List Bytes) (line : Bytes) :
    unlines (lines ++ [line]) = unlines lines ++ (line ++ [lf]) := by
  simp [unlines]

/-- The name up to the first colon, the value without one leading space and without the byte before
the line feed. -/
def storedField (line : Bytes) : Bytes × Bytes :=
  let name := line.takeWhile (· ≠ colon)
  let after := line.drop (name.length + 1)
  (name, (if after.head? = some space then after.tail else after).dropLast)

structure HeadShape where
  method : Bytes
  path : Bytes
  version : Bytes
  lines : List Bytes
  space_method : space ∉ method
  space_path : space ∉ path
  lf_version : lf ∉ version
  lf_lines : ∀ line ∈ lines, lf ∉ line
  colon_lines : ∀ line ∈ lines, colon ∈ line

namespace HeadShape

def bytes (h : HeadShape) : Bytes :=
  h.method ++ space :: (h.path ++ space :: (h.version ++ lf :: unlines h.lines))

def stored (h : HeadShape) : List (Bytes × Bytes) :=
  (h.lines.map storedField).take kMaxInlineHeaders

def snoc (h : HeadShape) (line : Bytes) (hLf : lf ∉ line) (hColon : colon ∈ line) : HeadShape where
  method := h.method
  path := h.path
  version := h.version
  lines := h.lines ++ [line]
  space_method := h.space_method
  space_path := h.space_path
  lf_version := h.lf_version
  lf_lines := by
    exact List.forall_mem_append.mpr ⟨h.lf_lines, List.forall_mem_singleton.mpr hLf⟩
  colon_lines := by
    exact List.forall_mem_append.mpr ⟨h.colon_lines, List.forall_mem_singleton.mpr hColon⟩

variable (h : HeadShape) (line : Bytes) (hLf : lf ∉ line) (hColon : colon ∈ line)

theorem bytes_snoc : (h.snoc line hLf hColon).bytes = h.bytes ++ (line ++ [lf]) := by
  simp [bytes, snoc, unlines_snoc]

theorem stored_snoc : (h.snoc line hLf hColon).stored = (h.stored ++ [storedField line]).take kMaxInlineHeaders := by
  have hMap : (h.snoc line hLf hColon).lines.map storedField =
      h.lines.map storedField ++ [storedField line] := by
    simp [snoc]
  rw [stored, hMap, stored, List.take_append, List.take_append, List.take_take, min_self, List.length_take]
  by_cases hRoom : (h.lines.map storedField).length ≤ kMaxInlineHeaders
  · rw [min_eq_right hRoom]
  · rw [min_eq_left (by omega), Nat.sub_self, Nat.sub_eq_zero_of_le (by omega)]

end HeadShape

theorem Request.headerLines_addHeader (req : Request) (key value : StringView) : (req.addHeader key value).headerLines =
      (req.headerLines ++ [(key.bytes, value.bytes)]).take kMaxInlineHeaders := by
  simp [Request.headerLines, Request.addHeader, InlineArray.entries_push, List.map_take]

def lookup (lines : List (Bytes × Bytes)) (name : Bytes) : Bytes :=
  match lines.find? fun line => line.1 = name with
  | some line => line.2
  | none => []

theorem Request.header_eq_lookup (req : Request) (name : Bytes) : req.header name = lookup req.headerLines name := by
  unfold Request.header lookup Request.headerLines
  rw [List.find?_map]
  cases hFind : req.headersFlat.entries.find? fun h => decide (h.1.bytes = name) with
  | none =>
    have : (req.headersFlat.entries.find?
        ((fun line => decide (line.1 = name)) ∘ fun h => (h.1.bytes, h.2.bytes))) = none := hFind
    rw [this]
    rfl
  | some h =>
    have : (req.headersFlat.entries.find?
        ((fun line => decide (line.1 = name)) ∘ fun h => (h.1.bytes, h.2.bytes))) = some h := hFind
    rw [this]
    rfl

theorem storedField_line (name gap value : Bytes) (hName : colon ∉ name)
    (hGap : gap = [space] ∨ gap = [] ∧ value.head? ≠ some space) :
    storedField (name ++ colon :: (gap ++ value)) = (name, value.dropLast) := by
  have hTake : (name ++ colon :: (gap ++ value)).takeWhile (· ≠ colon) = name := by
    rw [List.takeWhile_append_of_pos (by
      intro c hc
      have hNe : c ≠ colon := fun h => hName (h ▸ hc)
      simpa using hNe)]
    simp
  have hDrop : (name ++ colon :: (gap ++ value)).drop (name.length + 1) = gap ++ value := by
    rw [← List.drop_drop, List.drop_left]
    rfl
  simp only [storedField, hTake, hDrop]
  rcases hGap with rfl | ⟨rfl, hHead⟩
  · simp
  · rw [List.nil_append, if_neg hHead]

namespace HttpParser

variable {data : Bytes} {pos : Nat} {c : UInt8} {s : Cursor}

theorem take_next (hc : data[pos]? = some c) : data.take (pos + 1) = data.take pos ++ [c] := by
  rw [List.take_add_one, hc]
  rfl

theorem notMem_snoc {b : UInt8} {token : Bytes} (h : b ∉ token) (hNe : c ≠ b) : b ∉ token ++ [c] := by
  intro hMem
  rcases List.mem_append.mp hMem with hOld | hNew
  · exact h hOld
  · exact hNe (List.mem_singleton.mp hNew).symm

theorem slice_token {before token : Bytes} (h : data.take pos = before ++ token) :
    slice data before.length (pos - before.length) = token := by
  have hDrop : (data.take pos).drop before.length = token := by
    rw [h, List.drop_left]
  rw [slice, ← List.drop_take]
  exact hDrop

def Undecided (p : HttpParser) : Prop :=
  p.headersComplete = false ∧ p.chunked = false ∧ p.bodyLength = 0

def Settled (stored : List (Bytes × Bytes)) (p : HttpParser) : Prop :=
  let te := lookup stored (ascii "Transfer-Encoding")
  let cl := lookup stored (ascii "Content-Length")
  match p.state with
  | .chunkSize => te = ascii "chunked" ∧ cl = [] ∧ p.chunked = true ∧ p.bodyLength = 0
  | .body => te = [] ∧ cl ≠ [] ∧ fromChars cl = some (p.bodyLength, []) ∧ p.chunked = false
  | .complete => te ≠ ascii "chunked" ∧ cl = [] ∧ p.chunked = false ∧ p.bodyLength = 0
  | _ => False

def Progress (data : Bytes) (s : Cursor) : Prop :=
  match s.parser.state with
  | .method =>
    space ∉ data.take s.pos ∧ s.req.headerLines = [] ∧ s.parser.Undecided
  | .path =>
    ∃ m p, data.take s.pos = m ++ space :: p ∧ space ∉ m ∧ space ∉ p ∧
      s.req.headerLines = [] ∧ s.parser.Undecided
  | .version =>
    ∃ m p v, data.take s.pos = m ++ space :: (p ++ space :: v) ∧
      space ∉ m ∧ space ∉ p ∧ lf ∉ v ∧ s.req.headerLines = [] ∧ s.parser.Undecided
  | .headerKey =>
    ∃ (h : HeadShape) (name : Bytes), data.take s.pos = h.bytes ++ name ∧
      s.start = h.bytes.length ∧ colon ∉ name ∧ lf ∉ name ∧
      s.req.headerLines = h.stored ∧ s.parser.Undecided
  | .headerValue =>
    ∃ (h : HeadShape) (name gap value : Bytes),
      data.take s.pos = h.bytes ++ (name ++ colon :: (gap ++ value)) ∧
      s.start = (h.bytes ++ (name ++ colon :: gap)).length ∧
      (gap = [space] ∨ gap = [] ∧ data[s.start]? ≠ some space) ∧
      colon ∉ name ∧ lf ∉ name ∧ lf ∉ value ∧ s.parser.currentHeaderKey.bytes = name ∧
      s.req.headerLines = h.stored ∧ s.parser.Undecided
  | .error => True
  | .chunkData | .chunkDataEnd => False
  | .body | .chunkSize | .complete =>
    ∃ (h : HeadShape) (blank : Bytes), data.take s.pos = h.bytes ++ (blank ++ [lf]) ∧
      colon ∉ blank ∧ lf ∉ blank ∧ s.req.headerLines = h.stored ∧ Settled h.stored s.parser ∧
      (s.parser.state = .body → s.start = s.pos)

/-- The end of the headers either rejects the request or settles the body, which begins after the
line feed. -/
theorem endOfHeaders_settled (s : Cursor) (h : s.parser.Undecided) : (endOfHeaders s).parser.state = .error ∨
      (endOfHeaders s).req = s.req ∧ Settled s.req.headerLines (endOfHeaders s).parser ∧
        ((endOfHeaders s).parser.state = .body → (endOfHeaders s).start = s.pos + 1) := by
  obtain ⟨-, hChunked, hLength⟩ := h
  unfold Settled
  rw [← Request.header_eq_lookup, ← Request.header_eq_lookup]
  rcases endOfHeaders_cases s with ⟨p, status, hEnd⟩ | ⟨hTe, hCl, hEnd⟩ |
    ⟨n, hTe, hCl, hn, -, hEnd⟩ | ⟨hTe, hCl, hEnd⟩ <;> rw [hEnd]
  · exact .inl rfl
  · exact .inr ⟨rfl, ⟨hTe, hCl, rfl, hLength⟩, fun _ => rfl⟩
  · exact .inr ⟨rfl, ⟨hTe, hCl, hn, hChunked⟩, fun _ => rfl⟩
  · exact .inr ⟨rfl, ⟨hTe, hCl, hChunked, hLength⟩, nofun⟩

theorem length_of_read {read : Bytes} (hc : data[pos]? = some c) (h : data.take (pos + 1) = read) :
    pos + 1 = read.length := by
  have hPos := (List.getElem?_eq_some_iff.mp hc).1
  rw [← h, List.length_take, min_eq_left hPos]

section Bytes

variable (hc : data[s.pos]? = some c) (h : Progress data s)
include hc h

theorem methodByte_progress (hState : s.parser.state = .method) : Progress data (onByte data c s) := by
  simp only [Progress, hState] at h
  obtain ⟨hSpace, hLines, hOpen⟩ := h
  simp only [onByte, hState, methodByte]
  split_ifs with hEnd
  · exact ⟨data.take s.pos, [], by rw [take_next hc, hEnd], hSpace, by simp, hLines, hOpen⟩
  · simp only [Progress, hState]
    rw [take_next hc]
    exact ⟨notMem_snoc hSpace hEnd, hLines, hOpen⟩

theorem pathByte_progress (hState : s.parser.state = .path) : Progress data (onByte data c s) := by
  simp only [Progress, hState] at h
  obtain ⟨m, p, hRead, hM, hP, hLines, hOpen⟩ := h
  have hSet : ∀ raw, (s.req.setPath raw).headerLines = s.req.headerLines := by
    intro raw
    unfold Request.setPath
    split <;> rfl
  simp only [onByte, hState, pathByte]
  split_ifs with hEnd
  · refine ⟨m, p, [], ?_, hM, hP, by simp, (hSet _).trans hLines, hOpen⟩
    rw [take_next hc, hRead, hEnd, List.append_assoc, List.cons_append]
  · simp only [Progress, hState]
    refine ⟨m, p ++ [c], ?_, hM, notMem_snoc hP hEnd, hLines, hOpen⟩
    rw [take_next hc, hRead, List.append_assoc, List.cons_append]

theorem versionByte_progress (hState : s.parser.state = .version) : Progress data (onByte data c s) := by
  simp only [Progress, hState] at h
  obtain ⟨m, p, v, hRead, hM, hP, hV, hLines, hOpen⟩ := h
  have hNext := take_next hc
  simp only [onByte, hState, versionByte]
  split_ifs with hEnd
  · have hAll : data.take (s.pos + 1) = m ++ space :: (p ++ space :: (v ++ lf :: unlines [])) := by
      rw [hNext, hRead, hEnd]
      simp [unlines]
    refine ⟨⟨m, p, v, [], hM, hP, hV, by simp, by simp⟩, [], ?_, ?_, by simp, by simp, hLines, hOpen⟩
    · rw [List.append_nil]
      exact hAll
    · exact length_of_read hc hAll
  · simp only [Progress, hState]
    refine ⟨m, p, v ++ [c], ?_, hM, hP, notMem_snoc hV hEnd, hLines, hOpen⟩
    rw [hNext, hRead]
    simp

theorem headerKeyByte_progress (hState : s.parser.state = .headerKey) : Progress data (onByte data c s) := by
  simp only [Progress, hState] at h
  obtain ⟨h, name, hRead, hStart, hColon, hLf, hLines, hOpen⟩ := h
  have hNext := take_next hc
  rw [hRead] at hNext
  have hName : slice data s.start (s.pos - s.start) = name := by
    rw [hStart]
    exact slice_token hRead
  simp only [onByte, hState, headerKeyByte, substr, hName]
  split_ifs with hIsColon hSpace hIsLf hFull
  · have hTwo := take_next hSpace
    rw [hNext] at hTwo
    refine ⟨h, name, [space], [], ?_, ?_, .inl rfl, hColon, hLf, by simp, rfl, hLines, hOpen⟩
    · show data.take (s.pos + 1 + 1) = _
      rw [hTwo, hIsColon]
      simp
    · show s.pos + 2 = _
      rw [length_of_read hSpace hTwo, hIsColon]
      simp
  · refine ⟨h, name, [], [], ?_, ?_, .inr ⟨rfl, hSpace⟩, hColon, hLf, by simp, rfl, hLines, hOpen⟩
    · show data.take (s.pos + 1) = _
      rw [hNext, hIsColon]
      simp
    · show s.pos + 1 = _
      rw [length_of_read hc hNext, hIsColon]
      simp
  · rcases endOfHeaders_settled s hOpen with hError | ⟨hReq, hSettled, hBody⟩
    · simp only [Progress, hError]
    · have hTake : data.take ((endOfHeaders s).pos + 1) = h.bytes ++ (name ++ [lf]) := by
        rw [endOfHeaders_pos, hNext, hIsLf, List.append_assoc]
      rw [hLines] at hSettled
      rw [← hReq] at hLines
      rw [← endOfHeaders_pos] at hBody
      cases hDone : (endOfHeaders s).parser.state with
      | body | chunkSize | complete =>
        unfold Progress
        dsimp only
        rw [hDone] at hBody ⊢
        exact ⟨h, name, hTake, hColon, hLf, hLines, hSettled, hBody⟩
      | _ => simp [Settled, hDone] at hSettled
  · trivial
  · simp only [Progress]
    refine ⟨h, name ++ [c], ?_, hStart, notMem_snoc hColon hIsColon, notMem_snoc hLf hIsLf,
      hLines, hOpen⟩
    rw [hNext, List.append_assoc]

theorem headerValueByte_progress (hState : s.parser.state = .headerValue) : Progress data (onByte data c s) := by
  simp only [Progress, hState] at h
  obtain ⟨h, name, gap, value, hRead, hStart, hGap, hColon, hLf, hValue, hKey, hLines, hOpen⟩ := h
  have hNext := take_next hc
  rw [hRead] at hNext
  have hToken : slice data s.start (s.pos - s.start) = value := by
    have hSplit : data.take s.pos = (h.bytes ++ (name ++ colon :: gap)) ++ value := by
      rw [hRead]
      simp
    rw [hStart]
    exact slice_token hSplit
  have hPos := (List.getElem?_eq_some_iff.mp hc).1
  have hLe : s.start ≤ s.pos := by
    have hLength := congrArg List.length hRead
    rw [List.length_take, min_eq_left hPos.le] at hLength
    simp only [List.length_append, List.length_cons] at hStart hLength
    omega
  simp only [onByte, hState]
  by_cases hIsLf : c = lf
  · by_cases hEmpty : s.pos = s.start
    · rw [hIsLf] at hc ⊢
      rw [headerValueByte_empty data s hc hEmpty]
      trivial
    · have hTrim : slice data s.start (s.pos - s.start - 1) = value.dropLast := by
        rw [List.dropLast_eq_take, ← hToken, slice_length _ _ _ (by omega), slice, slice,
          List.take_take, min_eq_left (by omega)]
      have hCr : c ≠ cr := by rw [hIsLf]; decide
      simp only [headerValueByte, if_neg hCr, if_pos hIsLf, substr, valueLength, if_neg hEmpty, hTrim]
      split_ifs
      · trivial
      · trivial
      · have hHead : gap = [space] ∨ gap = [] ∧ value.head? ≠ some space := by
          rcases hGap with hOne | ⟨hNone, hNot⟩
          · exact .inl hOne
          · refine .inr ⟨hNone, ?_⟩
            rw [← hToken]
            intro hSpace
            apply hNot
            rw [slice, List.head?_take, if_neg (by omega), List.head?_drop] at hSpace
            exact hSpace
        have hLine : lf ∉ name ++ colon :: (gap ++ value) := by
          have hGapLf : lf ∉ gap := by
            rcases hGap with rfl | ⟨rfl, -⟩ <;> decide
          have hNe : lf ≠ colon := by decide
          simp [hLf, hGapLf, hValue, hNe]
        have hHas : colon ∈ name ++ colon :: (gap ++ value) := by simp
        have hStored := storedField_line name gap value hColon hHead
        refine ⟨h.snoc _ hLine hHas, [], ?_, ?_, by simp, by simp, ?_, hOpen⟩
        · rw [List.append_nil, HeadShape.bytes_snoc, hNext, hIsLf]
          simp
        · rw [HeadShape.bytes_snoc, ← List.append_assoc, ← hIsLf]
          exact length_of_read hc hNext
        · rw [Request.headerLines_addHeader, HeadShape.stored_snoc, hStored, hLines, hKey]
  · simp only [headerValueByte, if_neg hIsLf, ite_self, Progress, hState]
    refine ⟨h, name, gap, value ++ [c], ?_, hStart, hGap, hColon, hLf, notMem_snoc hValue hIsLf, hKey, hLines, hOpen⟩
    rw [hNext]
    simp

end Bytes

theorem onByte_progress (data : Bytes) (s : Cursor) (c : UInt8) (h : Progress data s)
    (hc : data[s.pos]? = some c) (hHead : inHead s.parser.state = true) : Progress data (onByte data c s) := by
  cases hState : s.parser.state with
  | method => exact methodByte_progress hc h hState
  | path => exact pathByte_progress hc h hState
  | version => exact versionByte_progress hc h hState
  | headerKey => exact headerKeyByte_progress hc h hState
  | headerValue => exact headerValueByte_progress hc h hState
  | chunkData | chunkDataEnd => simp [Progress, hState] at h
  | body | chunkSize | complete | error => simp [inHead, hState] at hHead

theorem Progress.undecided (h : Progress data s) (hHead : inHead s.parser.state = true) : s.parser.Undecided := by
  unfold Progress at h
  cases hState : s.parser.state with rw [hState] at h
  | method =>
    exact h.2.2
  | path =>
    obtain ⟨-, -, -, -, -, -, hOpen⟩ := h
    exact hOpen
  | version =>
    obtain ⟨-, -, -, -, -, -, -, -, hOpen⟩ := h
    exact hOpen
  | headerKey =>
    obtain ⟨-, -, -, -, -, -, -, hOpen⟩ := h
    exact hOpen
  | headerValue =>
    obtain ⟨-, -, -, -, -, -, -, -, -, -, -, -, hOpen⟩ := h
    exact hOpen
  | chunkData | chunkDataEnd => exact h.elim
  | body | chunkSize | complete | error => simp [inHead, hState] at hHead

def freshCursor : Cursor := { parser := {}, req := {} }

theorem headLoop_progress (data : Bytes) : Progress data (headLoop data freshCursor) := by
  apply headLoop_invariant data (Progress data) (onByte_progress data)
  exact ⟨by simp [freshCursor], rfl, rfl, rfl, rfl⟩

/-- A head that was read to its end without being rejected has the shape the loop looks for, and its
stored lines settle the body. -/
theorem headLoop_shape (data : Bytes) (hHead : inHead (headLoop data freshCursor).parser.state = false)
    (hAccepted : (headLoop data freshCursor).parser.state ≠ .error) : ∃ (h : HeadShape) (blank : Bytes),
      data.take (headLoop data freshCursor).pos = h.bytes ++ (blank ++ [lf]) ∧ colon ∉ blank ∧ lf ∉ blank ∧
          (headLoop data freshCursor).req.headerLines = h.stored ∧ Settled h.stored (headLoop data freshCursor).parser ∧
              ((headLoop data freshCursor).parser.state = .body →
                (headLoop data freshCursor).start = (headLoop data freshCursor).pos) := by
  have hProgress := headLoop_progress data
  unfold Progress at hProgress
  cases hState : (headLoop data freshCursor).parser.state with
  | body | chunkSize | complete =>
    rw [hState] at hProgress
    exact hProgress
  | error => exact absurd hState hAccepted
  | _ => simp [inHead, hState] at hHead

end HttpParser

end QbuemStack.Http
