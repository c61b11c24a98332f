import QbuemStack.Http.Framing
import QbuemStack.Http.ParserResume

/-! The chunked bodies that the chunk loop accepts, as a grammar. -/
namespace QbuemStack.Http.HttpParser

open Octets
open List (append_assoc drop_drop length_append length_drop)

def semicolon : UInt8 := 59

def sizeDigits (line : Bytes) : Bytes := line.takeWhile (· ≠ semicolon)

theorem sizeToken_eq (line : Bytes) : sizeToken line = sizeDigits line := by
  induction line with
  | nil => rfl
  | cons c line ih =>
    unfold sizeToken sizeDigits at *
    have hHead : ascii ";" <+: c :: line ↔ c = semicolon := by
      rw [show ascii ";" = [semicolon] from rfl]
      simp [eq_comm]
    rw [find, List.takeWhile_cons, ← ih]
    by_cases hc : c = semicolon
    · rw [if_pos (hHead.mpr hc)]
      simp [hc]
    · rw [if_neg (hHead.not.mpr hc)]
      cases find (ascii ";") line <;> simp [hc]

def hexValue (digits : Bytes) (value : Nat) : Nat :=
  digits.foldl (fun value c => value * 16 + (hexDigit c).getD 0) value

theorem le_hexValue (digits : Bytes) (value : Nat) : value ≤ hexValue digits value := by
  induction digits generalizing value with
  | nil => exact le_rfl
  | cons c digits ih =>
    have hStep : value ≤ value * 16 + (hexDigit c).getD 0 := by omega
    exact hStep.trans (ih _)

theorem chunkSizeOf_ok_iff (digits : Bytes) (value size : Nat) (hValue : value ≤ MAX_BODY_SIZE) :
    chunkSizeOf value digits = .ok size ↔
      (∀ c ∈ digits, (hexDigit c).isSome) ∧ hexValue digits value = size ∧ size ≤ MAX_BODY_SIZE := by
  induction digits generalizing value with
  | nil =>
    simp only [chunkSizeOf, Except.ok.injEq, List.not_mem_nil, false_implies, implies_true, true_and]
    exact ⟨fun h => ⟨h, h ▸ hValue⟩, And.left⟩
  | cons c digits ih =>
    cases hDigit : hexDigit c with
    | none => simp [chunkSizeOf, hDigit]
    | some d =>
      have hLe := le_hexValue digits (value * 16 + d)
      simp only [chunkSizeOf, hDigit, List.forall_mem_cons, Option.isSome_some, true_and, hexValue, List.foldl_cons,
        Option.getD_some] at hLe ⊢
      by_cases hLarge : value * 16 + d > MAX_BODY_SIZE
      · rw [if_pos hLarge]
        refine iff_of_false nofun ?_
        rintro ⟨-, rfl, hSize⟩
        omega
      · rw [if_neg hLarge]
        exact ih _ (not_lt.mp hLarge)

def IsSizeLine (line : Bytes) : Prop :=
  sizeDigits line ≠ [] ∧ ∀ c ∈ sizeDigits line, (hexDigit c).isSome

/-- The line is read as this size. No digits at all are read as zero. -/
structure Announces (line : Bytes) (size : Nat) : Prop where
  oneLine : ¬crlf <:+: line
  digits : ∀ c ∈ sizeDigits line, (hexDigit c).isSome
  value : hexValue (sizeDigits line) 0 = size

theorem Announces.sizeOf {line : Bytes} {size : Nat} (h : Announces line size) (hSize : size ≤ MAX_BODY_SIZE) :
    chunkSizeOf 0 (sizeToken line) = .ok size := by
  rw [sizeToken_eq, chunkSizeOf_ok_iff _ _ _ (Nat.zero_le _)]
  exact ⟨h.digits, h.value, hSize⟩

theorem announces_of_sizeOf {line : Bytes} {size : Nat} (hLine : ¬crlf <:+: line)
    (h : chunkSizeOf 0 (sizeToken line) = .ok size) : Announces line size := by
  rw [sizeToken_eq, chunkSizeOf_ok_iff _ _ _ (Nat.zero_le _)] at h
  exact ⟨hLine, h.1, h.2.1⟩

/-- A chunked body and the data in it. Every size line is one that `ok` admits. -/
inductive Chunked (ok : Bytes → Prop) : Bytes → Bytes → Prop
  | last {line trailer : Bytes} (hOk : ok line) (hSize : Announces line 0) (hTrailer : ¬crlf <:+: trailer) :
      Chunked ok (line ++ (crlf ++ (trailer ++ crlf))) []
  | chunk {line block text content : Bytes} (hOk : ok line) (hSize : Announces line block.length)
      (hSome : block ≠ []) (hNext : Chunked ok text content) :
      Chunked ok (line ++ (crlf ++ (block ++ (crlf ++ text)))) (block ++ content)

variable {ok : Bytes → Prop} {data : Bytes} {s t : Cursor} {line block more text content : Bytes}

theorem findFrom_line {pos : Nat} (hLine : ¬crlf <:+: line) (h : data.drop pos = line ++ (crlf ++ more)) :
    findFrom crlf data pos = some (pos + line.length) ∧ slice data pos (pos + line.length - pos) = line ∧
      data.drop (pos + line.length + 2) = more := by
  refine ⟨?_, ?_, ?_⟩
  · rw [findFrom, h, (find_crlf_iff line more).mpr hLine, Nat.add_comm pos]
    rfl
  · rw [Nat.add_sub_cancel_left, slice, h, List.take_left]
  · rw [Nat.add_assoc, ← drop_drop, h, ← drop_drop, List.drop_left]
    rfl

theorem line_of_findFrom {pos eol : Nat} (h : findFrom crlf data pos = some eol) :
    ∃ line more, eol = pos + line.length ∧ data.drop pos = line ++ (crlf ++ more) ∧ ¬crlf <:+: line := by
  obtain ⟨count, hFind, rfl⟩ := Option.map_eq_some_iff.mp h
  obtain ⟨hLe, ⟨more, hMore⟩, -⟩ := (find_eq_some_iff crlf _ count).mp hFind
  have hLength := List.length_take_of_le hLe
  have hText := List.take_append_drop count (data.drop pos)
  rw [← hMore] at hText
  refine ⟨_, more, by rw [hLength, Nat.add_comm], hText.symm, ?_⟩
  rwa [← find_crlf_iff _ more, hText, hLength]

def afterSize (s : Cursor) (line : Bytes) (size : Nat) : Cursor :=
  { s with
    parser := { s.parser with chunkRemaining := size, state := .chunkData }
    pos := s.pos + line.length + 2 }

def afterData (s : Cursor) (block : Bytes) : Cursor :=
  { s with
    parser := { s.parser with chunkBody := s.parser.chunkBody ++ block, chunkRemaining := 0, state := .chunkDataEnd }
    pos := s.pos + block.length }

def afterEnd (s : Cursor) : Cursor :=
  { s with parser := { s.parser with state := .chunkSize }, pos := s.pos + 2 }

def afterChunk (s : Cursor) (line block : Bytes) : Cursor := afterEnd (afterData (afterSize s line block.length) block)

theorem chunkRound_size {size : Nat} (hState : s.parser.state = .chunkSize) (hSize : Announces line size)
    (hSome : size ≠ 0) (hFits : s.parser.chunkBody.length + size ≤ MAX_BODY_SIZE)
    (hText : data.drop s.pos = line ++ (crlf ++ more)) : chunkRound data s = .inr (afterSize s line size) := by
  obtain ⟨hEol, hSlice, -⟩ := findFrom_line hSize.oneLine hText
  simp only [chunkRound, hState, chunkSizeRound, hEol, chunkSizeLine, hSlice, hSize.sizeOf (by omega), if_neg hSome]
  rw [if_neg (by omega)]
  rfl

theorem chunkRound_data (hState : s.parser.state = .chunkData) (hLeft : s.parser.chunkRemaining = block.length)
    (hText : data.drop s.pos = block ++ more) : chunkRound data s = .inr (afterData s block) := by
  have hSlice : slice data s.pos block.length = block := by rw [slice, hText, List.take_left]
  have hLength := congrArg List.length hText
  rw [length_drop, length_append] at hLength
  simp only [chunkRound, hState, chunkDataRound, hLeft, hSlice]
  rw [if_neg (by omega)]
  rfl

theorem chunkRound_end (hState : s.parser.state = .chunkDataEnd) (hText : data.drop s.pos = crlf ++ more) :
    chunkRound data s = .inr (afterEnd s) := by
  have hSlice : slice data s.pos 2 = crlf := by
    rw [slice, hText]
    rfl
  have hLength := congrArg List.length hText
  rw [length_drop, length_append, crlf_length] at hLength
  simp only [chunkRound, hState, chunkDataEndRound, hSlice, ne_eq, not_true, if_false]
  rw [if_neg (by omega)]
  rfl

/-- The size lines that the loop consumes from a cursor on. -/
inductive Consumes (data : Bytes) : Cursor → Bytes → Prop
  | here {s : Cursor} {eol : Nat} (hState : s.parser.state = .chunkSize)
      (hEol : findFrom crlf data s.pos = some eol) : Consumes data s (slice data s.pos (eol - s.pos))
  | later {s t : Cursor} {line : Bytes} (hRound : chunkRound data s = .inr t) (h : Consumes data t line) :
      Consumes data s line

theorem Consumes.skip (h : Consumes data s line) (hRound : chunkRound data s = .inr t)
    (hState : s.parser.state ≠ .chunkSize) : Consumes data t line := by
  cases h with
  | here hSize => exact absurd hSize hState
  | later hOther h => exact Sum.inr.inj (hOther.symm.trans hRound) ▸ h

theorem Consumes.here_line (hState : s.parser.state = .chunkSize) (hLine : ¬crlf <:+: line)
    (hText : data.drop s.pos = line ++ (crlf ++ more)) : Consumes data s line := by
  obtain ⟨hEol, hSlice, -⟩ := findFrom_line hLine hText
  have hHere := Consumes.here hState hEol
  rwa [hSlice] at hHere

/-- A chunk is read in three rounds, over one size line. -/
theorem chunkLoop_chunk (hState : s.parser.state = .chunkSize) (hSize : Announces line block.length)
    (hSome : block ≠ []) (hFits : s.parser.chunkBody.length + block.length ≤ MAX_BODY_SIZE)
    (hText : data.drop s.pos = line ++ (crlf ++ (block ++ (crlf ++ more)))) :
    chunkLoop data s = chunkLoop data (afterChunk s line block) ∧ data.drop (afterChunk s line block).pos = more ∧
      ∀ other, Consumes data s other ↔ other = line ∨ Consumes data (afterChunk s line block) other := by
  obtain ⟨hEol, hSlice, hRest⟩ := findFrom_line hSize.oneLine hText
  have hEnd : data.drop (s.pos + line.length + 2 + block.length) = crlf ++ more := by
    rw [← drop_drop, hRest, List.drop_left]
  have hFirst := chunkRound_size hState hSize (mt List.length_eq_zero_iff.mp hSome) hFits hText
  have hSecond : chunkRound data (afterSize s line block.length) = _ := chunkRound_data rfl rfl hRest
  have hThird : chunkRound data (afterData (afterSize s line block.length) block) = _ := chunkRound_end rfl hEnd
  refine ⟨?_, ?_, fun other => ⟨?_, ?_⟩⟩
  · rw [chunkLoop_round hFirst, chunkLoop_round hSecond, chunkLoop_round hThird]
    rfl
  · exact (drop_drop ..).symm.trans (congrArg (List.drop 2) hEnd)
  · intro hOther
    cases hOther with
    | here _ hFound =>
      cases hEol.symm.trans hFound
      exact .inl hSlice
    | later hRound hOther =>
      cases Sum.inr.inj (hFirst.symm.trans hRound)
      exact .inr ((hOther.skip hSecond nofun).skip hThird nofun)
  · rintro (rfl | hLater)
    · exact .here_line hState hSize.oneLine hText
    · exact .later hFirst (.later hSecond (.later hThird hLater))

def finished (s : Cursor) (text content : Bytes) : Outcome :=
  let done := { s.parser with
    chunkBody := s.parser.chunkBody ++ content, chunkRemaining := 0, state := .complete }
  (done, s.req.setBody done.chunkView, some (s.pos + text.length))

/-- What the grammar derives completes the request. -/
theorem Chunked.completes {rest : Bytes} (h : Chunked ok text content) (hState : s.parser.state = .chunkSize)
    (hText : data.drop s.pos = text ++ rest) (hFits : s.parser.chunkBody.length + content.length ≤ MAX_BODY_SIZE) :
    chunkLoop data s = finished s text content ∧ ∀ line, Consumes data s line → ok line := by
  induction h generalizing s with simp only [append_assoc] at hText
  | @last line trailer hOk hSize hTrailer =>
    obtain ⟨hEol, hSlice, hRest⟩ := findFrom_line hSize.oneLine hText
    obtain ⟨hEnd, -, -⟩ := findFrom_line hTrailer hRest
    have hRound : chunkRound data s = .inl (finished s (line ++ (crlf ++ (trailer ++ crlf))) []) := by
      simp only [chunkRound, hState, chunkSizeRound, hEol, chunkSizeLine, hSlice, hSize.sizeOf (Nat.zero_le _),
        if_true, lastChunk, hEnd, finished, chunkView, List.append_nil]
      simp only [length_append, crlf_length, Nat.add_assoc]
    refine ⟨chunkLoop_exit hRound, ?_⟩
    intro other hOther
    cases hOther with
    | here _ hFound =>
      cases hEol.symm.trans hFound
      rwa [hSlice]
    | later hOther => cases hRound.symm.trans hOther
  | @chunk line block text content hOk hSize hSome hNext ih =>
    rw [length_append] at hFits
    obtain ⟨hLoop, hRest, hLines⟩ := chunkLoop_chunk hState hSize hSome (by omega) hText
    obtain ⟨hDone, hAll⟩ := ih (s := afterChunk s line block) rfl hRest
      (by simp only [afterChunk, afterEnd, afterData, afterSize, length_append]; omega)
    refine ⟨?_, ?_⟩
    · rw [hLoop, hDone]
      simp only [finished, afterChunk, afterEnd, afterData, afterSize, append_assoc, length_append, crlf_length,
        Nat.add_assoc]
    · intro other hOther
      rcases (hLines other).mp hOther with rfl | hLater
      · exact hOk
      · exact hAll other hLater

section

variable (hDone : (chunkLoop data s).1.state = .complete)
include hDone

theorem round_of_complete (hOpen : s.parser.state ≠ .complete)
    (hState : s.parser.state ≠ .chunkSize) :
    ∃ t, chunkRound data s = .inr t ∧ (chunkLoop data t).1.state = .complete := by
  cases hRound : chunkRound data s with
  | inl o =>
    rw [chunkLoop_exit hRound] at hDone
    obtain ⟨eol, trailerEnd, hSize, -⟩ := chunkRound_done hRound hDone hOpen
    exact absurd hSize hState
  | inr t => exact ⟨t, rfl, by rwa [chunkLoop_round hRound] at hDone⟩

/-- In front of the data of a chunk, the loop completes only over all of it and a CRLF. -/
theorem block_of_complete (hState : s.parser.state = .chunkData) :
    ∃ block more, block.length = s.parser.chunkRemaining ∧ data.drop s.pos = block ++ (crlf ++ more) := by
  obtain ⟨t, hData, hNext⟩ := round_of_complete hDone (by rw [hState]; nofun) (by rw [hState]; nofun)
  cases chunkRound_cases hData with
  | size _ _ hOther => cases hState.symm.trans hOther
  | closed hOther => cases hState.symm.trans hOther
  | whole _ hAvail =>
    obtain ⟨u, hEnd, -⟩ := round_of_complete hNext nofun nofun
    cases chunkRound_cases hEnd with
    | size _ _ hOther => cases hOther
    | whole hOther => cases hOther
    | closed _ _ hCrlf =>
      refine ⟨slice data s.pos s.parser.chunkRemaining, (data.drop (s.pos + s.parser.chunkRemaining)).drop 2,
        List.length_take_of_le ?_, ?_⟩
      · rw [length_drop]
        exact not_lt.mp hAvail
      · have hSplit := List.take_append_drop 2 (data.drop (s.pos + s.parser.chunkRemaining))
        rw [show List.take 2 _ = crlf from not_not.mp hCrlf] at hSplit
        rw [hSplit, ← drop_drop, slice, List.take_append_drop]

/-- The loop completes only over what the grammar derives. -/
theorem chunked_of_complete (hState : s.parser.state = .chunkSize)
    (hBody : s.parser.chunkBody.length ≤ MAX_BODY_SIZE) (hOk : ∀ line, Consumes data s line → ok line) :
    ∃ text content rest, Chunked ok text content ∧ data.drop s.pos = text ++ rest ∧
      s.parser.chunkBody.length + content.length ≤ MAX_BODY_SIZE := by
  induction hCount : data.length - s.pos using Nat.strong_induction_on generalizing s with
  | _ count ih =>
    cases hRound : chunkRound data s with
    | inl o =>
      rw [chunkLoop_exit hRound] at hDone
      obtain ⟨eol, trailerEnd, -, hEol, hSize, hTrailer, -⟩ := chunkRound_done hRound hDone (by rw [hState]; nofun)
      obtain ⟨line, more, rfl, hText, hLine⟩ := line_of_findFrom hEol
      obtain ⟨trailer, rest, -, hRest, hLast⟩ := line_of_findFrom hTrailer
      obtain ⟨-, hSlice, hMore⟩ := findFrom_line hLine hText
      rw [hSlice] at hSize
      refine ⟨_, _, rest, .last (hOk line (.here_line hState hLine hText)) (announces_of_sizeOf hLine hSize) hLast,
        ?_, hBody⟩
      rw [hText, ← hMore, hRest]
      simp only [append_assoc]
    | inr next =>
      have hNext := hDone
      rw [chunkLoop_round hRound] at hNext
      cases chunkRound_cases hRound with
      | whole hData => cases hState.symm.trans hData
      | closed hEnd => cases hState.symm.trans hEnd
      | size eol size _ hEol hSize hSome hSmall =>
        obtain ⟨line, more, rfl, hText, hLine⟩ := line_of_findFrom hEol
        obtain ⟨-, hSlice, hMore⟩ := findFrom_line hLine hText
        obtain ⟨block, after, hBlock, hAfter⟩ := block_of_complete hNext rfl
        obtain rfl : block.length = size := hBlock
        rw [hSlice] at hSize
        rw [hMore.symm.trans hAfter] at hText
        have hLength := congrArg List.length hText
        simp only [length_drop, length_append, crlf_length] at hLength
        have hSize := announces_of_sizeOf hLine hSize
        have hSome := mt List.length_eq_zero_iff.mpr hSome
        obtain ⟨hLoop, hRest, hLines⟩ := chunkLoop_chunk hState hSize hSome (not_lt.mp hSmall) hText
        obtain ⟨text, content, rest, hGrammar, hNextText, hFits⟩ := ih _
          (by rw [← hCount]; dsimp only [afterChunk, afterEnd, afterData, afterSize]; omega)
          (s := afterChunk s line block) (hLoop ▸ hDone) rfl (length_append.trans_le (not_lt.mp hSmall))
          (fun other hOther => hOk other ((hLines other).mpr (.inr hOther))) rfl
        refine ⟨_, _, rest, .chunk (hOk line ((hLines line).mpr (.inl rfl))) hSize hSome hGrammar, ?_, ?_⟩
        · rw [hText, ← hRest, hNextText]
          simp only [append_assoc]
        · rw [length_append, ← Nat.add_assoc, ← length_append]
          exact hFits

end

theorem onByte_chunkBody (data : Bytes) (c : UInt8) (s : Cursor) :
    (onByte data c s).parser.chunkBody = s.parser.chunkBody := by
  simp only [onByte, methodByte, pathByte, versionByte, headerKeyByte, headerValueByte, endOfHeaders, fail]
  repeat' split
  all_goals rfl

theorem headLoop_chunkBody (data : Bytes) : (headLoop data freshCursor).parser.chunkBody = [] :=
  headLoop_invariant data (·.parser.chunkBody = []) (fun s c hs _ _ => (onByte_chunkBody data c s).trans hs) _ rfl

def ChunkedHead (data : Bytes) : Prop :=
  (findHeaderEnd data).isSome ∧ (headLoop data freshCursor).parser.state = .chunkSize

theorem ChunkedHead.parse_eq (h : ChunkedHead data) :
    parse {} data {} = chunkLoop data (headLoop data freshCursor) := by
  obtain ⟨e, he⟩ := Option.isSome_iff_exists.mp h.1
  rw [parse_fresh data e he, bodyPhase, h.2]

theorem ChunkedHead.parse_finished {rest : Bytes} (h : ChunkedHead data) (hChunked : Chunked ok text content)
    (hText : data.drop (headLoop data freshCursor).pos = text ++ rest) (hFits : content.length ≤ MAX_BODY_SIZE) :
    ((parse {} data {}).1.state = .complete ∧ (parse {} data {}).2.1.body.bytes = content ∧
      (parse {} data {}).2.2 = some ((headLoop data freshCursor).pos + text.length)) ∧
      ∀ line, Consumes data (headLoop data freshCursor) line → ok line := by
  have hBody := headLoop_chunkBody data
  obtain ⟨hDone, hLines⟩ := hChunked.completes h.2 hText (by rwa [hBody, List.length_nil, Nat.zero_add])
  rw [h.parse_eq, hDone, finished, hBody]
  exact ⟨⟨rfl, rfl, rfl⟩, hLines⟩

structure SentChunk where
  line : Bytes
  block : Bytes
  announced : Announces line block.length
  some : block ≠ []

def SentChunk.bytes (c : SentChunk) : Bytes := c.line ++ (crlf ++ (c.block ++ crlf))

/-- A head that the parser reads to its end, and a chunked body for it. -/
structure ChunkedRequest where
  head : Bytes
  chunked : ChunkedHead head
  whole : (headLoop head freshCursor).pos = head.length
  chunks : List SentChunk
  fits : (chunks.flatMap (·.block)).length ≤ MAX_BODY_SIZE
  trailers : List Bytes
  trailerLines : ∀ line ∈ trailers, line ≠ [] ∧ ¬crlf <:+: line

def ChunkedRequest.body (r : ChunkedRequest) : Bytes :=
  r.chunks.flatMap (·.bytes) ++ (ascii "0" ++ (crlf ++ (r.trailers.flatMap (· ++ crlf) ++ crlf)))

theorem chunked_of_chunks (chunks : List SentChunk) {trailer : Bytes} (h : ¬crlf <:+: trailer) :
    Chunked (fun _ => True) (chunks.flatMap (·.bytes) ++ (ascii "0" ++ (crlf ++ (trailer ++ crlf))))
      (chunks.flatMap (·.block)) := by
  induction chunks with
  | nil => exact .last trivial ⟨by decide, by decide +kernel, by decide⟩ h
  | cons c chunks ih =>
    have hChunk := Chunked.chunk trivial c.announced c.some ih
    simpa only [List.flatMap_cons, SentChunk.bytes, append_assoc] using hChunk

/-- The part of a body up to the first trailer line, or up to its end. -/
theorem ChunkedRequest.body_eq (r : ChunkedRequest) : ∃ text more, Chunked (fun _ => True) text
    (r.chunks.flatMap (·.block)) ∧ r.body = text ++ more ∧ (more = [] ↔ r.trailers = []) := by
  have hLines := r.trailerLines
  unfold body
  cases hTrailers : r.trailers with
  | nil => exact ⟨_, [], @chunked_of_chunks r.chunks [] (by decide), by simp, by simp⟩
  | cons line lines =>
    rw [hTrailers] at hLines
    refine ⟨_, lines.flatMap (· ++ crlf) ++ crlf,
      chunked_of_chunks r.chunks (hLines line List.mem_cons_self).2, by simp, ?_⟩
    simp [crlf]

theorem ChunkedHead.append (h : ChunkedHead data) (more : Bytes) :
    headLoop (data ++ more) freshCursor = headLoop data freshCursor ∧ ChunkedHead (data ++ more) := by
  have hLoop := headLoop_append data more freshCursor le_rfl (Nat.zero_le _) (by rw [h.2]; rfl)
  obtain ⟨e, he⟩ := Option.isSome_iff_exists.mp h.1
  refine ⟨hLoop, ?_, by rw [hLoop, h.2]⟩
  rw [findHeaderEnd, find_append _ _ _ e he]
  rfl

theorem Chunked.strict (h : Chunked (sizeToken · ≠ []) text content) : Chunked IsSizeLine text content := by
  induction h with
  | last hOk hSize hTrailer => exact .last ⟨sizeToken_eq _ ▸ hOk, hSize.digits⟩ hSize hTrailer
  | chunk hOk hSize hSome _ ih => exact .chunk ⟨sizeToken_eq _ ▸ hOk, hSize.digits⟩ hSize hSome ih

/-- A chunked request completes with the data of its chunks and is consumed to its end exactly when
it has no trailer lines. -/
theorem chunked_consumed_iff (r : ChunkedRequest) (rest : Bytes) :
    (parse {} (r.head ++ (r.body ++ rest)) {}).1.state = .complete ∧
      (parse {} (r.head ++ (r.body ++ rest)) {}).2.1.body.bytes = r.chunks.flatMap (·.block) ∧
      (parse {} (r.head ++ (r.body ++ rest)) {}).2.2 = some (r.head ++ r.body).length ↔ r.trailers = [] := by
  obtain ⟨text, more, hChunked, hBody, hMore⟩ := r.body_eq
  obtain ⟨hLoop, hHead⟩ := r.chunked.append (r.body ++ rest)
  have hText : (r.head ++ (r.body ++ rest)).drop (headLoop (r.head ++ (r.body ++ rest)) freshCursor).pos =
      text ++ (more ++ rest) := by
    rw [hLoop, r.whole, List.drop_left, hBody, append_assoc]
  obtain ⟨⟨hState, hBytes, hUsed⟩, -⟩ := hHead.parse_finished hChunked hText r.fits
  rw [hState, hBytes, hUsed, hLoop, r.whole, ← hMore, ← List.length_eq_zero_iff]
  simp only [true_and, Option.some.injEq, length_append, hBody]
  omega

def greeting : ChunkedRequest where
  head := ascii "POST / HTTP/1.1\r\nTransfer-Encoding: chunked\r\n\r\n"
  chunked := ⟨by decide +kernel, by decide +kernel⟩
  whole := by decide +kernel
  chunks := [⟨ascii "5;x", ascii "hello", ⟨by decide, by decide +kernel, by decide⟩, by decide⟩,
    ⟨ascii "01", ascii "!", ⟨by decide, by decide +kernel, by decide⟩, by decide⟩]
  fits := by decide
  trailers := []
  trailerLines := by simp

theorem chunked_consumed_greeting : (parse {} (greeting.head ++ (greeting.body ++ ascii "GET")) {}).2.2 =
    some (greeting.head ++ greeting.body).length :=
  ((chunked_consumed_iff greeting (ascii "GET")).mpr rfl).2.2

/-- The second CRLF behind a trailer line stays in the input. -/
theorem trailer_left :
    let head := ascii "POST / HTTP/1.1\r\nTransfer-Encoding: chunked\r\n\r\n"
    let data := head ++ ascii "5;x\r\nhello\r\n0\r\nA: b\r\n\r\n"
    (findHeaderEnd head).isSome ∧ (headLoop head freshCursor).parser.state = .chunkSize ∧
      (headLoop head freshCursor).pos = head.length ∧ (parse {} data {}).1.state = .complete ∧
      (parse {} data {}).2.1.body.bytes = ascii "hello" ∧ (parse {} data {}).2.2 = some (data.length - 2) := by
  decide +kernel

/-- A completed chunked request is one of the grammar exactly when each size line it consumed has
something in front of the extension. -/
theorem chunked_grammar_iff (data : Bytes) :
    (ChunkedHead data → (parse {} data {}).1.state = .complete → ∃ text content rest,
        Chunked IsSizeLine text content ∧ data.drop (headLoop data freshCursor).pos = text ++ rest ∧
        content.length ≤ MAX_BODY_SIZE ∧ (parse {} data {}).2.1.body.bytes = content ∧
        (parse {} data {}).2.2 = some ((headLoop data freshCursor).pos + text.length)) ↔
      (ChunkedHead data → (parse {} data {}).1.state = .complete →
        ∀ line, Consumes data (headLoop data freshCursor) line → sizeToken line ≠ []) := by
  refine imp_congr_right fun hHead => imp_congr_right fun hDone => ?_
  constructor
  · rintro ⟨text, content, rest, hChunked, hText, hFits, -⟩ line hLine
    rw [sizeToken_eq]
    exact ((hHead.parse_finished hChunked hText hFits).2 line hLine).1
  · intro hTokens
    rw [hHead.parse_eq] at hDone
    obtain ⟨text, content, rest, hChunked, hText, hFits⟩ := chunked_of_complete hDone hHead.2
      (by rw [headLoop_chunkBody]; exact Nat.zero_le _) hTokens
    rw [headLoop_chunkBody, List.length_nil, Nat.zero_add] at hFits
    obtain ⟨⟨-, hParsed⟩, -⟩ := hHead.parse_finished hChunked hText hFits
    exact ⟨text, content, rest, hChunked.strict, hText, hFits, hParsed⟩

/-- An empty size line ends the body as the last chunk does. -/
theorem empty_size_accepted :
    let data := ascii "POST / HTTP/1.1\r\nTransfer-Encoding: chunked\r\n\r\n\r\n\r\n"
    ChunkedHead data ∧ (parse {} data {}).1.state = .complete ∧
      Consumes data (headLoop data freshCursor) [] ∧ ¬IsSizeLine [] := by
  refine ⟨⟨by decide +kernel, by decide +kernel⟩, by decide +kernel, ?_, by simp [IsSizeLine, sizeDigits]⟩
  exact @Consumes.here_line _ _ _ crlf (by decide +kernel) (by decide) (by decide +kernel)

end QbuemStack.Http.HttpParser
