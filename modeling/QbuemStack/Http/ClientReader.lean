import QbuemStack.Http.Framing
import QbuemStack.Http.Response

/-! A client on a persistent connection, after RFC 9112, sections 4 to 7. -/
namespace QbuemStack.Http

open Octets Numerals Response
open List (append_assoc drop_drop drop_left length_cons mem_cons_self take_left)

def takeLine (data : Bytes) : Option (Bytes × Bytes) :=
  (find crlf data).map fun eol => (data.take eol, data.drop (eol + 2))

def readField (line : Bytes) : Option (Bytes × Bytes) :=
  if colon ∈ line then
    some (line.takeWhile (· ≠ colon), trimOws (line.drop ((line.takeWhile (· ≠ colon)).length + 1)))
  else none

def readFields : Nat → Bytes → Option (List (Bytes × Bytes) × Bytes)
  | 0, _ => none
  | n + 1, data =>
    match takeLine data with
    | none => none
    | some ([], rest) => some ([], rest)
    | some (c :: line, rest) =>
      match readField (c :: line), readFields n rest with
      | some field, some (fields, rest) => some (field :: fields, rest)
      | _, _ => none

def hexValue : Nat → Bytes → Option Nat
  | value, [] => some value
  | value, c :: rest =>
    match hexDigit c with
    | none => none
    | some d => hexValue (value * 16 + d) rest

def chunkLineSize (line : Bytes) : Option Nat :=
  let token := trimOws (HttpParser.sizeToken line)
  if token = [] then none else hexValue 0 token

def readChunks : Nat → Bytes → Option (Bytes × List (Bytes × Bytes) × Bytes)
  | 0, _ => none
  | n + 1, data =>
    match takeLine data with
    | none => none
    | some (line, rest) =>
      match chunkLineSize line with
      | none => none
      | some 0 =>
        (readFields (rest.length + 1) rest).map fun (trailers, rest) => ([], trailers, rest)
      | some (size + 1) =>
        if slice rest (size + 1) 2 ≠ crlf then none
        else
          (readChunks n (rest.drop (size + 3))).map fun (body, trailers, tail) =>
            (rest.take (size + 1) ++ body, trailers, tail)

structure Received where
  status : Nat
  fields : List (Bytes × Bytes)
  body : Bytes
  trailers : List (Bytes × Bytes)
  rest : Bytes
  deriving DecidableEq, Repr

def readStatusLine (text : Bytes) : Option Nat :=
  let code := slice text 9 3
  if text.take 9 = ascii "HTTP/1.1 " ∧ code.length = 3 ∧ code.all isDigit ∧
      (text[12]? = none ∨ text[12]? = some space) then
    some (decimalValue code)
  else none

def readHead (wire : Bytes) : Option (Nat × List (Bytes × Bytes) × Bytes) :=
  match takeLine wire with
  | none => none
  | some (line, rest) =>
    match readStatusLine line, readFields (rest.length + 1) rest with
    | some status, some (fields, rest) => some (status, fields, rest)
    | _, _ => none

def readBody (fields : List (Bytes × Bytes)) (data : Bytes) :
    Option (Bytes × List (Bytes × Bytes) × Bytes) :=
  if named (ascii "Transfer-Encoding") fields ≠ [] then
    if endsChunked (members (ascii "Transfer-Encoding") fields) then
      readChunks (data.length + 1) data
    else none
  else
    match agreedLength (members (ascii "Content-Length") fields) with
    | none => none
    | some n => if data.length < n then none else some (data.take n, [], data.drop n)

def readResponse (wire : Bytes) : Option Received :=
  match readHead wire with
  | none => none
  | some (status, fields, data) =>
    if status < 200 then none
    else if status = 204 ∨ status = 304 then
      some { status := status, fields := fields, body := [], trailers := [], rest := data }
    else
      (readBody fields data).map fun (body, trailers, rest) =>
        { status := status, fields := fields, body := body, trailers := trailers, rest := rest }

theorem takeLine_append (line rest : Bytes) (h : lf ∉ line) :
    takeLine (line ++ (crlf ++ rest)) = some (line, rest) := by
  have hFind : find crlf (line ++ (crlf ++ rest)) = some line.length := by
    rw [HttpParser.find_crlf_iff]
    exact fun hInside => h (hInside.subset (by decide))
  have hDrop : (line ++ (crlf ++ rest)).drop (line.length + 2) = rest := List.drop_length_add_append _
  simp only [takeLine, hFind, Option.map_some, take_left, hDrop]

theorem trimOws_cons_space (v : Bytes) : trimOws (space :: v) = trimOws v := rfl

structure Writable (field : Bytes × Bytes) : Prop where
  colon_name : colon ∉ field.1
  lf_name : lf ∉ field.1
  lf_value : lf ∉ field.2

def trimmed (field : Bytes × Bytes) : Bytes × Bytes := (field.1, trimOws field.2)

theorem readField_line {field : Bytes × Bytes} (h : Writable field) :
    readField (field.1 ++ ascii ": " ++ field.2) = some (trimmed field) := by
  have hShape : field.1 ++ ascii ": " ++ field.2 = field.1 ++ colon :: space :: field.2 := by
    rw [append_assoc]
    rfl
  have hTake : (field.1 ++ colon :: space :: field.2).takeWhile (· ≠ colon) = field.1 := by
    rw [List.takeWhile_append_of_pos (by
      intro c hc
      have hNe : c ≠ colon := fun hEq => h.colon_name (hEq ▸ hc)
      simpa using hNe)]
    simp
  have hDrop : (field.1 ++ colon :: space :: field.2).drop (field.1.length + 1) = space :: field.2 :=
    List.drop_length_add_append _
  rw [hShape, readField, if_pos (by simp), hTake, hDrop, trimOws_cons_space]
  rfl

theorem readFields_encode (fields : List (Bytes × Bytes)) (rest : Bytes) (n : Nat)
    (hFields : ∀ field ∈ fields, Writable field) (hn : fields.length < n) :
    readFields n (fields.flatMap encodeLine ++ (crlf ++ rest)) = some (fields.map trimmed, rest) := by
  induction fields generalizing n with obtain ⟨n, rfl⟩ := Nat.exists_eq_succ_of_ne_zero (by omega : n ≠ 0)
  | nil =>
    have hLine := takeLine_append [] rest (by simp)
    rw [List.nil_append] at hLine
    simp [readFields, hLine]
  | cons field fields ih =>
    have hField := hFields field mem_cons_self
    have hRest := ih n (fun f hf => hFields f (List.mem_cons_of_mem _ hf))
      (by simpa using hn)
    have hSplit : (field :: fields).flatMap encodeLine ++ (crlf ++ rest) =
        (field.1 ++ ascii ": " ++ field.2) ++
          (crlf ++ (fields.flatMap encodeLine ++ (crlf ++ rest))) := by
      simp [encodeLine]
    have hLf : lf ∉ field.1 ++ ascii ": " ++ field.2 := by
      have hSep : lf ∉ ascii ": " := by decide
      simp [hField.lf_name, hField.lf_value, hSep]
    have hLine := takeLine_append _ (fields.flatMap encodeLine ++ (crlf ++ rest)) hLf
    have hRead := readField_line hField
    rw [hSplit, readFields, hLine]
    cases hShape : field.1 ++ ascii ": " ++ field.2 with
    | nil => simp [ascii] at hShape
    | cons c line =>
      rw [hShape] at hRead
      simp only [hRead, hRest, List.map_cons]

theorem hexDigit_digitByte : ∀ d < 16, hexDigit (digitByte d) = some d := by decide

theorem digitByte_plain : ∀ d < 16, isOws (digitByte d) = false ∧ digitByte d ≠ lf ∧ digitByte d ≠ 59 := by decide

theorem trimOws_of_none {v : Bytes} (h : ∀ c ∈ v, isOws c = false) : trimOws v = v := by
  have hDrop : ∀ w : Bytes, (∀ c ∈ w, isOws c = false) → w.dropWhile isOws = w := by
    intro w hw
    cases w with
    | nil => rfl
    | cons c w => simp [List.dropWhile, hw c mem_cons_self]
  unfold trimOws
  rw [hDrop v h, hDrop v.reverse (fun c hc => h c (List.mem_reverse.mp hc)), List.reverse_reverse]

theorem sizeToken_of_plain {line : Bytes} (h : 59 ∉ line) : HttpParser.sizeToken line = line := by
  have hFind : find (ascii ";") line = none := by
    rw [find_eq_none_iff]
    intro j hj hPrefix
    obtain ⟨tail, hTail⟩ := hPrefix
    apply h
    apply List.mem_of_mem_drop (i := j)
    rw [← hTail]
    exact mem_cons_self
  simp [HttpParser.sizeToken, hFind]

theorem hexValue_eq_foldl (value : Nat) (digits : Bytes) (h : ∀ c ∈ digits, ∃ d, hexDigit c = some d) :
    hexValue value digits = some (digits.foldl (fun v c => v * 16 + (hexDigit c).getD 0) value) := by
  induction digits generalizing value with
  | nil => rfl
  | cons c digits ih =>
    obtain ⟨d, hd⟩ := h c mem_cons_self
    simp only [hexValue, hd, List.foldl_cons, Option.getD_some]
    exact ih _ fun c hc => h c (List.mem_cons_of_mem _ hc)

theorem chunkLineSize_render (n : Nat) : chunkLineSize (render 16 n) = some n := by
  have hDigit : ∀ c ∈ render 16 n, ∃ d < 16, c = digitByte d := fun c hc =>
    render_digit (by decide) hc
  have hToken : HttpParser.sizeToken (render 16 n) = render 16 n := by
    apply sizeToken_of_plain
    intro hc
    obtain ⟨d, hd, hEq⟩ := hDigit _ hc
    exact (digitByte_plain d hd).2.2 hEq.symm
  have hTrim : trimOws (render 16 n) = render 16 n := by
    apply trimOws_of_none
    intro c hc
    obtain ⟨d, hd, rfl⟩ := hDigit c hc
    exact (digitByte_plain d hd).1
  have hValue := foldl_render (by decide : 1 < 16) (fun c => (hexDigit c).getD 0)
    (fun d hd => by simp [hexDigit_digitByte d hd]) n
  have hHex := hexValue_eq_foldl 0 (render 16 n) (fun c hc => by
    obtain ⟨d, hd, rfl⟩ := hDigit c hc
    exact ⟨d, hexDigit_digitByte d hd⟩)
  simp only [chunkLineSize, hToken, hTrim, if_neg (render_ne_nil 16 n), hHex, hValue]

theorem lf_render (n : Nat) : lf ∉ render 16 n := by
  intro hc
  obtain ⟨d, hd, hEq⟩ := render_digit (by decide) hc
  exact (digitByte_plain d hd).2.1 hEq.symm

theorem readChunks_chunk (data rest : Bytes) (n : Nat) (hData : data ≠ []) :
    readChunks (n + 1) (encodeChunk data ++ rest) =
      (readChunks n rest).map fun (body, trailers, tail) => (data ++ body, trailers, tail) := by
  obtain ⟨size, hSize⟩ := Nat.exists_eq_succ_of_ne_zero
    (Nat.pos_iff_ne_zero.mp (List.length_pos_of_ne_nil hData))
  have hSplit : encodeChunk data ++ rest =
      render 16 data.length ++ (crlf ++ (data ++ (crlf ++ rest))) := by
    simp [encodeChunk]
  have hLine := takeLine_append (render 16 data.length) (data ++ (crlf ++ rest))
    (lf_render data.length)
  have hEnd : slice (data ++ (crlf ++ rest)) data.length 2 = crlf := by
    rw [slice, drop_left]
    rfl
  have hDrop : (data ++ (crlf ++ rest)).drop (data.length + 2) = rest := List.drop_length_add_append _
  rw [hSplit, readChunks, hLine]
  simp only [chunkLineSize_render, hSize]
  rw [hSize] at hEnd hDrop
  simp only [Nat.succ_eq_add_one] at hEnd hDrop ⊢
  rw [if_neg (by simp [hEnd]), hDrop, ← Nat.succ_eq_add_one, ← hSize, take_left]

theorem readChunks_chunks (chunks : List Bytes) (rest : Bytes) (n : Nat) (hChunks : ∀ data ∈ chunks, data ≠ []) :
    readChunks (n + chunks.length) (chunks.flatMap encodeChunk ++ rest) =
      (readChunks n rest).map fun (body, trailers, tail) => (chunks.flatten ++ body, trailers, tail) := by
  induction chunks with
  | nil =>
    simp only [List.length_nil, Nat.add_zero, List.flatMap_nil, List.nil_append, List.flatten_nil]
    cases readChunks n rest <;> rfl
  | cons data chunks ih =>
    have hRest := ih fun d hd => hChunks d (List.mem_cons_of_mem _ hd)
    rw [List.flatMap_cons, append_assoc, length_cons, ← Nat.add_assoc,
      readChunks_chunk data _ _ (hChunks data mem_cons_self), hRest]
    cases readChunks n rest with
    | none => rfl
    | some _ => simp

theorem readChunks_last (rest : Bytes) (n : Nat) : readChunks (n + 1) (ascii "0\r\n" ++ rest) =
      (readFields (rest.length + 1) rest).map fun (trailers, rest) => ([], trailers, rest) := by
  have hLine := takeLine_append (ascii "0") rest (by decide)
  have hSplit : ascii "0\r\n" ++ rest = ascii "0" ++ (crlf ++ rest) := rfl
  have hSize : chunkLineSize (ascii "0") = some 0 := by decide
  rw [hSplit, readChunks, hLine]
  simp only [hSize]

theorem isDigit_digitByte : ∀ d < 10, isDigit (digitByte d) = true ∧ (digitByte d).toNat - 48 = d ∧
    digitByte d ≠ space ∧ digitByte d ≠ lf := by decide

theorem decimalValue_render (n : Nat) : decimalValue (render 10 n) = n :=
  foldl_render (by decide) (fun c => c.toNat - 48) (fun d hd => (isDigit_digitByte d hd).2.1) n

variable {n : Nat} {data rest : Bytes} {trailers : List (Bytes × Bytes)}

theorem render_ten {c : UInt8} (hc : c ∈ render 10 n) : isDigit c = true ∧ c ≠ space ∧ c ≠ lf := by
  obtain ⟨d, hd, rfl⟩ := render_digit (by decide) hc
  obtain ⟨hDigit, -, hSpace, hLf⟩ := isDigit_digitByte d hd
  exact ⟨hDigit, hSpace, hLf⟩

theorem length_render_ten (n : Nat) : (render 10 n).length = 3 ↔ 100 ≤ n ∧ n < 1000 := by
  by_cases hZero : n = 0
  · subst hZero
    decide
  · have hUpper := Nat.digits_length_le_iff (by decide : 1 < 10) (k := 3) n
    have hLower := Nat.lt_digits_length_iff (by decide : 1 < 10) (k := 2) n
    simp only [render, if_neg hZero, List.length_map, List.length_reverse]
    omega

theorem readStatusLine_digits (digits reason : Bytes) (hDigits : ∀ c ∈ digits, isDigit c = true)
    (hSpace : space ∉ digits) : readStatusLine (ascii "HTTP/1.1 " ++ digits ++ ascii " " ++ reason) =
      if digits.length = 3 then some (decimalValue digits) else none := by
  have hShape : ascii "HTTP/1.1 " ++ digits ++ ascii " " ++ reason =
      ascii "HTTP/1.1 " ++ (digits ++ space :: reason) := by
    simp only [append_assoc]
    rfl
  have hTake : (ascii "HTTP/1.1 " ++ (digits ++ space :: reason)).take 9 = ascii "HTTP/1.1 " := rfl
  have hSlice : slice (ascii "HTTP/1.1 " ++ (digits ++ space :: reason)) 9 3 =
      (digits ++ space :: reason).take 3 := rfl
  have hNext : (ascii "HTTP/1.1 " ++ (digits ++ space :: reason))[12]? =
      (digits ++ space :: reason)[3]? := rfl
  simp only [readStatusLine, hShape, hTake, hSlice, hNext, true_and]
  split_ifs with hRead hThree hThree
  · rw [← hThree, take_left]
  · exfalso
    obtain ⟨hLength, hAll, hAfter⟩ := hRead
    rcases Nat.lt_or_gt_of_ne hThree with hShort | hLong
    · have hIn : space ∈ (digits ++ space :: reason).take 3 := by
        rw [List.take_append, List.mem_append]
        right
        obtain ⟨k, hk⟩ := Nat.exists_eq_succ_of_ne_zero (by omega : 3 - digits.length ≠ 0)
        rw [hk, List.take_succ_cons]
        exact mem_cons_self
      exact absurd (List.all_eq_true.mp hAll space hIn) (by decide)
    · rw [List.getElem?_append_left hLong, List.getElem?_eq_getElem hLong] at hAfter
      rcases hAfter with hNone | hSome
      · cases hNone
      · exact hSpace (List.mem_of_getElem? (by rw [List.getElem?_eq_getElem hLong, hSome]))
  · exfalso
    apply hRead
    rw [← hThree, take_left]
    refine ⟨rfl, List.all_eq_true.mpr hDigits, ?_⟩
    right
    rw [List.getElem?_append_right le_rfl, Nat.sub_self]
    rfl
  · rfl

theorem readStatusLine_response (r : Response) : readStatusLine r.statusLine =
      if 100 ≤ r.statusCode ∧ r.statusCode < 1000 then some r.statusCode.toNat else none := by
  unfold statusLine
  cases r.statusCode with
  | ofNat n =>
    have hRead := readStatusLine_digits (render 10 n) (statusToString (.ofNat n))
      (fun c hc => (render_ten hc).1) (fun hc => (render_ten hc).2.1 rfl)
    have hRange : (render 10 n).length = 3 ↔ 100 ≤ Int.ofNat n ∧ Int.ofNat n < 1000 := by
      rw [length_render_ten]
      simp only [Int.ofNat_eq_natCast]
      omega
    simp only [decimalValue_render, hRange] at hRead
    exact hRead
  | negSucc n =>
    have hNeg : ¬(100 ≤ Int.negSucc n ∧ Int.negSucc n < 1000) := by omega
    rw [if_neg hNeg]
    unfold readStatusLine
    apply if_neg
    rintro ⟨-, -, hAll, -⟩
    exact absurd (List.all_eq_true.mp hAll 45 mem_cons_self) (by decide)

theorem lf_toStringInt (n : Int) : lf ∉ toStringInt n := by
  cases n with
  | ofNat n => exact fun hc => (render_ten hc).2.2 rfl
  | negSucc n =>
    intro hc
    rcases List.mem_append.mp hc with hMinus | hDigits
    · exact absurd hMinus (by decide)
    · exact (render_ten hDigits).2.2 rfl

theorem lf_statusLine (r : Response) : lf ∉ r.statusLine := by
  have hPhrases : ∀ p ∈ reasonPhrases, lf ∉ p.2 := by decide
  have hReason : lf ∉ statusToString r.statusCode := by
    unfold statusToString
    split
    · rename_i p hFind
      exact hPhrases p (List.mem_of_find?_eq_some hFind)
    · decide
  have hVersion : lf ∉ ascii "HTTP/1.1 " := by decide
  have hBlank : lf ∉ ascii " " := by decide
  simp [statusLine, hReason, hVersion, hBlank, lf_toStringInt]

theorem flatMap_length {α : Type} (f : α → Bytes) (l : List α) (h : ∀ a ∈ l, 1 ≤ (f a).length) :
    l.length ≤ (l.flatMap f).length := by
  have hSum := List.length_le_sum_of_one_le _ (List.forall_mem_map.mpr h)
  rwa [List.length_map, ← List.length_flatMap] at hSum

theorem length_le_encodeLines (fields : List (Bytes × Bytes)) : fields.length ≤ (fields.flatMap encodeLine).length := by
  apply flatMap_length
  intro field _
  simp [encodeLine, crlf]
  omega

def afterHeaders (wire : Bytes) : Option Bytes :=
  match takeLine wire with
  | none => none
  | some (_, rest) => (readFields (rest.length + 1) rest).map Prod.snd

section Header

variable (order : MapOrder) (r : Response) (content : Bytes)
  (hFields : ∀ field ∈ r.wireFields order, Writable field)

include hFields

theorem readFields_header :
    let rest := (r.wireFields order).flatMap encodeLine ++ (crlf ++ content)
    takeLine (r.serializeHeader order ++ content) = some (r.statusLine, rest) ∧
      readFields (rest.length + 1) rest = some ((r.wireFields order).map trimmed, content) := by
  constructor
  · have hSplit : r.serializeHeader order ++ content =
        r.statusLine ++ (crlf ++ ((r.wireFields order).flatMap encodeLine ++
          (crlf ++ content))) := by
      simp [serializeHeader]
    rw [hSplit]
    exact takeLine_append _ _ (lf_statusLine r)
  · apply readFields_encode _ _ _ hFields
    have hFits := length_le_encodeLines (r.wireFields order)
    rw [List.length_append]
    omega

theorem afterHeaders_serialize : afterHeaders (r.serializeHeader order ++ content) = some content := by
  obtain ⟨hLine, hRead⟩ := readFields_header order r content hFields
  simp only [afterHeaders, hLine, hRead, Option.map_some]

theorem readHead_serialize : readHead (r.serializeHeader order ++ content) =
      if 100 ≤ r.statusCode ∧ r.statusCode < 1000 then
        some (r.statusCode.toNat, (r.wireFields order).map trimmed, content) else none := by
  obtain ⟨hLine, hRead⟩ := readFields_header order r content hFields
  simp only [readHead, hLine, hRead, readStatusLine_response]
  split_ifs <;> rfl

end Header

theorem readFields_nil (n : Nat) : readFields n [] = none := by
  cases n <;> rfl

theorem readChunks_nil (n : Nat) : readChunks n [] = none := by
  cases n <;> rfl

theorem takeLine_eq {line : Bytes} (h : takeLine data = some (line, rest)) : data = line ++ cr :: lf :: rest := by
  obtain ⟨eol, hFind, hEq⟩ := Option.map_eq_some_iff.mp h
  obtain ⟨-, hPrefix, -⟩ := (find_eq_some_iff _ _ _).mp hFind
  obtain ⟨tail, hTail⟩ := hPrefix
  have hLine : data.take eol = line := congrArg Prod.fst hEq
  have hRest : data.drop (eol + 2) = rest := congrArg Prod.snd hEq
  have hDrop : data.drop eol = cr :: lf :: rest := by
    rw [← hRest, ← drop_drop, ← hTail]
    rfl
  rw [← hLine, ← hDrop, List.take_append_drop]

theorem count_readFields {fields : List (Bytes × Bytes)} (h : readFields n data = some (fields, rest)) :
    fields.length + 1 ≤ data.count lf := by
  induction n generalizing data fields rest with
  | zero => cases h
  | succ n ih =>
    unfold readFields at h
    cases hLine : takeLine data with
    | none =>
      rw [hLine] at h
      cases h
    | some taken =>
      obtain ⟨line, after⟩ := taken
      rw [hLine] at h
      have hCount : after.count lf + 1 ≤ data.count lf := by
        rw [takeLine_eq hLine, List.count_append, List.count_cons, List.count_cons]
        simp
        omega
      cases line with
      | nil =>
        cases h
        simp only [List.length_nil]
        omega
      | cons c line =>
        cases hField : readField (c :: line) with
        | none => simp [hField] at h
        | some field =>
          cases hMore : readFields n after with
          | none => simp [hField, hMore] at h
          | some found =>
            obtain ⟨more, tail⟩ := found
            simp only [hField, hMore, Option.some.injEq, Prod.mk.injEq] at h
            have hLess := ih hMore
            rw [← h.1, length_cons]
            omega

theorem readChunks_split {body : Bytes} (h : readChunks n data = some (body, trailers, rest)) :
    ∃ before sec, data = before ++ lf :: sec ∧ body.length ≤ before.length ∧
      readFields (sec.length + 1) sec = some (trailers, rest) := by
  induction n generalizing data body trailers rest with
  | zero => cases h
  | succ n ih =>
    unfold readChunks at h
    cases hLine : takeLine data with
    | none =>
      rw [hLine] at h
      cases h
    | some taken =>
      obtain ⟨line, after⟩ := taken
      have hData := takeLine_eq hLine
      rw [hLine] at h
      simp only at h
      cases hSize : chunkLineSize line with
      | none => simp [hSize] at h
      | some size =>
        cases size with
        | zero =>
          simp only [hSize, Option.map_eq_some_iff] at h
          obtain ⟨⟨found, tail⟩, hFields, hEq⟩ := h
          cases hEq
          exact ⟨line ++ [cr], after, by rw [hData]; simp, by simp, hFields⟩
        | succ size =>
          simp only [hSize] at h
          split_ifs at h with hEnd
          obtain ⟨⟨body', trailers', tail⟩, hMore, hEq⟩ := Option.map_eq_some_iff.mp h
          cases hEq
          obtain ⟨before, sec, hRest, hLe, hFields⟩ := ih hMore
          refine ⟨line ++ cr :: lf :: (after.take (size + 3) ++ before), sec, ?_, ?_, hFields⟩
          · rw [hData, append_assoc, List.cons_append, List.cons_append, append_assoc, ← hRest, List.take_append_drop]
          · simp only [List.length_append, length_cons, List.length_take]
            omega

/-- Bytes that are not framed as chunks are not read as such: a reader that found them all to be the
body would have found its trailer section too. -/
theorem readChunks_unframed {file tail : Bytes} (h : tail.count lf ≤ trailers.length + 1) :
    readChunks n (file ++ tail) ≠ some (file, trailers, rest) := by
  intro hRead
  obtain ⟨before, sec, hSplit, hLe, hFields⟩ := readChunks_split hRead
  have hLess := count_readFields hFields
  have hTail : tail = before.drop file.length ++ lf :: sec := by
    have hDrop := congrArg (List.drop file.length) hSplit
    rw [drop_left, List.drop_append_of_le_length hLe] at hDrop
    exact hDrop
  rw [hTail, List.count_append, List.count_cons_self] at h
  omega

end QbuemStack.Http
