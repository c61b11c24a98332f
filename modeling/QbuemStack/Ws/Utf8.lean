import QbuemStack.Ws.Frame

/-! `ws_is_valid_utf8` accepts exactly the UTF-8 encodings of texts. -/
namespace QbuemStack.Ws

open Octets
open UInt8 (ofNat)

/-- The bytes encode a sequence of Unicode scalar values. -/
def WellFormedText (data : Bytes) : Prop := ∃ text : List Char, data = text.flatMap String.utf8EncodeChar

theorem byte_facts : ∀ n < 256, (utf8Lead (ofNat n) = if 194 ≤ n ∧ n < 224 then some (1, n - 192)
      else if 224 ≤ n ∧ n < 240 then some (2, n - 224) else if 240 ≤ n ∧ n < 245 then some (3, n - 240) else none) ∧
    (ofNat n &&& 0xC0 = 0x80 ↔ 128 ≤ n ∧ n < 192) ∧ (ofNat n &&& 0x3F).toNat = n % 64 := by
  decide +kernel

theorem utf8Lead_ofNat {n : Nat} (hByte : n < 256) {lead : Nat × Nat} (h : utf8Lead (ofNat n) = some lead) :
    lead.1 = 1 ∧ n = lead.2 + 192 ∧ 2 ≤ lead.2 ∧ lead.2 < 32 ∨
      lead.1 = 2 ∧ n = lead.2 + 224 ∧ lead.2 < 16 ∨ lead.1 = 3 ∧ n = lead.2 + 240 ∧ lead.2 < 5 := by
  rw [(byte_facts n hByte).1] at h
  split_ifs at h with hTwo hThree hFour
  · cases h
    dsimp only
    omega
  · cases h
    dsimp only
    omega
  · cases h
    dsimp only
    omega

variable {p v fuel : Nat} {rest : Bytes} {c : UInt8}

theorem utf8Lead_one (hHigh : p < 32) (hLow : 2 ≤ p) : utf8Lead (ofNat (p + 192)) = some (1, p) := by
  rw [(byte_facts (p + 192) (by omega)).1, if_pos (by omega), Nat.add_sub_cancel]

theorem utf8Lead_two (hHigh : p < 16) : utf8Lead (ofNat (p + 224)) = some (2, p) := by
  rw [(byte_facts (p + 224) (by omega)).1, if_neg (by omega), if_pos (by omega), Nat.add_sub_cancel]

theorem utf8Lead_three (hHigh : p < 5) : utf8Lead (ofNat (p + 240)) = some (3, p) := by
  rw [(byte_facts (p + 240) (by omega)).1, if_neg (by omega), if_neg (by omega), if_pos (by omega),
    Nat.add_sub_cancel]

theorem continuation_bits {r : Nat} (hBits : r < 64) :
    ofNat (r + 128) &&& 0xC0 = 0x80 ∧ (ofNat (r + 128) &&& 0x3F).toNat = r := by
  obtain ⟨-, hMark, hValue⟩ := byte_facts (r + 128) (by omega)
  exact ⟨hMark.mpr (by omega), hValue.trans (by omega)⟩

theorem not_lt_of_large {n : Nat} (hLow : 128 ≤ n) (hHigh : n < 256) : ¬ofNat n < 0x80 := by
  rw [UInt8.lt_iff_toNat_lt, UInt8.toNat_ofNat_of_lt' hHigh]
  exact Nat.not_lt.mpr hLow

theorem utf8Tail_cons {r : Nat} (hBits : r < 64) (cp : Nat) (rest : Bytes) :
    utf8Tail cp (ofNat (r + 128) :: rest) = utf8Tail (cp * 64 + r) rest := by
  obtain ⟨hMark, hValue⟩ := continuation_bits hBits
  have hShift : (2 : Nat) ^ 6 = 64 := by decide
  rw [utf8Tail, if_neg (not_not_intro hMark), hValue, hShift]

theorem utf8Tail_eq_some {cp : Nat} {cc : UInt8} (h : utf8Tail cp (cc :: rest) = some v) :
    ∃ r < 64, cc = ofNat (r + 128) ∧ utf8Tail (cp * 64 + r) rest = some v := by
  have hByte : ofNat cc.toNat = cc := UInt8.ofNat_toNat
  rw [utf8Tail] at h
  split_ifs at h with hMark
  obtain ⟨-, hRange, hValue⟩ := byte_facts cc.toNat cc.toNat_lt
  rw [hByte] at hRange hValue
  obtain ⟨hLow, hHigh⟩ := hRange.mp (not_ne_iff.mp hMark)
  refine ⟨cc.toNat % 64, by omega, ?_, ?_⟩
  · rw [show cc.toNat % 64 + 128 = cc.toNat by omega, hByte]
  · rwa [hValue] at h

theorem toNat_scalar (ch : Char) : ch.toNat < 0xD800 ∨ 0xDFFF < ch.toNat ∧ ch.toNat < 0x110000 := ch.valid

theorem utf8Refused_eq_false_iff (extra cp : Nat) : utf8Refused extra cp = false ↔
      (extra = 2 → 0x800 ≤ cp) ∧ (extra = 3 → 0x10000 ≤ cp) ∧ (cp < 0xD800 ∨ 0xDFFF < cp ∧ cp < 0x110000) := by
  simp only [utf8Refused, Bool.or_eq_false_iff, Bool.and_eq_false_imp, decide_eq_true_eq, decide_eq_false_iff_not]
  omega

theorem exists_char (hScalar : v < 0xD800 ∨ 0xDFFF < v ∧ v < 0x110000) : ∃ ch : Char, ch.toNat = v :=
  ⟨Char.ofNatAux v hScalar, rfl⟩

theorem utf8Loop_multi {extra : Nat} {tail : Bytes} (hLarge : ¬c < 0x80) (hLead : utf8Lead c = some (extra, p))
    (hLength : tail.length = extra) (hTail : utf8Tail p tail = some v) (hKept : utf8Refused extra v = false)
    (fuel : Nat) (rest : Bytes) : utf8Loop (fuel + 1) (c :: (tail ++ rest)) = utf8Loop fuel rest := by
  subst hLength
  have hEnough : ¬(tail ++ rest).length < tail.length := by
    rw [List.length_append]
    omega
  rw [utf8Loop, if_neg hLarge, hLead]
  simp only [if_neg hEnough, List.take_left, List.drop_left, hTail, hKept, Bool.false_eq_true, if_false]

theorem utf8Loop_cons (h : utf8Loop (fuel + 1) (c :: rest) = true) : c < 0x80 ∧ utf8Loop fuel rest = true ∨
      ∃ extra p v tail more, utf8Lead c = some (extra, p) ∧ rest = tail ++ more ∧ tail.length = extra ∧
        utf8Tail p tail = some v ∧ utf8Refused extra v = false ∧ utf8Loop fuel more = true := by
  rw [utf8Loop] at h
  by_cases hAscii : c < 0x80
  · rw [if_pos hAscii] at h
    exact .inl ⟨hAscii, h⟩
  rw [if_neg hAscii] at h
  cases hLead : utf8Lead c with
  | none => rw [hLead] at h; cases h
  | some lead =>
    obtain ⟨extra, p⟩ := lead
    rw [hLead] at h
    simp only at h
    split_ifs at h with hShort
    cases hTail : utf8Tail p (rest.take extra) with
    | none => rw [hTail] at h; cases h
    | some v =>
      rw [hTail] at h
      simp only at h
      split_ifs at h with hRefused
      refine .inr ⟨extra, p, v, rest.take extra, rest.drop extra, rfl, (List.take_append_drop _ _).symm, ?_,
        hTail, Bool.eq_false_iff.mpr hRefused, h⟩
      exact List.length_take_of_le (Nat.not_lt.mp hShort)

theorem utf8Loop_encode (ch : Char) (fuel : Nat) (rest : Bytes) :
    utf8Loop (fuel + 1) (String.utf8EncodeChar ch ++ rest) = utf8Loop fuel rest := by
  have hScalar := toNat_scalar ch
  have hValue : ch.val.toNat = ch.toNat := rfl
  unfold String.utf8EncodeChar
  simp only [hValue]
  generalize ch.toNat = v at hScalar
  split_ifs with hOne hTwo hThree
  · have hAscii : ofNat v < 0x80 := by
      rw [UInt8.lt_iff_toNat_lt, UInt8.toNat_ofNat_of_lt' (show v < 256 by omega)]
      exact Nat.lt_succ_of_le hOne
    rw [List.singleton_append, utf8Loop, if_pos hAscii]
  · refine utf8Loop_multi (not_lt_of_large (by omega) (by omega)) (utf8Lead_one (by omega) (by omega)) rfl
      (v := v) ?_ ?_ fuel rest
    · rw [utf8Tail_cons (by omega), utf8Tail]
      congr 1
      omega
    · rw [utf8Refused_eq_false_iff]
      omega
  · refine utf8Loop_multi (not_lt_of_large (by omega) (by omega)) (utf8Lead_two (by omega)) rfl
      (v := v) ?_ ?_ fuel rest
    · rw [utf8Tail_cons (by omega), utf8Tail_cons (by omega), utf8Tail]
      congr 1
      omega
    · rw [utf8Refused_eq_false_iff]
      omega
  · have hSmall : v / 262144 % 8 < 5 := by omega
    refine utf8Loop_multi (not_lt_of_large (by omega) (by omega)) (utf8Lead_three hSmall) rfl
      (v := v) ?_ ?_ fuel rest
    · rw [utf8Tail_cons (by omega), utf8Tail_cons (by omega), utf8Tail_cons (by omega), utf8Tail]
      congr 1
      omega
    · rw [utf8Refused_eq_false_iff]
      omega

theorem encode_of_utf8Loop (h : utf8Loop (fuel + 1) (c :: rest) = true) :
    ∃ ch more, c :: rest = String.utf8EncodeChar ch ++ more ∧ utf8Loop fuel more = true := by
  have hByte : ofNat c.toNat = c := UInt8.ofNat_toNat
  rcases utf8Loop_cons h with ⟨hAscii, hRest⟩ | ⟨extra, p, v, tail, more, hLead, rfl, hLength, hTail, hKept, hMore⟩
  · rw [UInt8.lt_iff_toNat_lt] at hAscii
    have hOne : c.toNat < 128 := hAscii
    obtain ⟨ch, hCh⟩ := exists_char (v := c.toNat) (by omega)
    refine ⟨ch, rest, ?_, hRest⟩
    have hValue : ch.val.toNat = c.toNat := hCh
    simp only [String.utf8EncodeChar, hValue]
    rw [if_pos (by omega), hByte, List.singleton_append]
  · obtain ⟨hTwoOk, hThreeOk, hScalar⟩ := (utf8Refused_eq_false_iff extra v).mp hKept
    obtain ⟨ch, hCh⟩ := exists_char hScalar
    have hValue : ch.val.toNat = v := hCh
    refine ⟨ch, more, ?_, hMore⟩
    rw [← List.cons_append]
    congr 1
    have hFirst := utf8Lead_ofNat c.toNat_lt (by rw [hByte]; exact hLead)
    simp only at hFirst
    rcases hFirst with ⟨rfl, hSum, hLow, hHigh⟩ | ⟨rfl, hSum, hHigh⟩ | ⟨rfl, hSum, hHigh⟩
    · obtain ⟨b1, rfl⟩ := List.length_eq_one_iff.mp hLength
      obtain ⟨r1, hr1, rfl, hTail1⟩ := utf8Tail_eq_some hTail
      obtain rfl : p * 64 + r1 = v := Option.some.inj hTail1
      have hLeadBits : (p * 64 + r1) / 64 % 32 = p := by omega
      have hBits1 : (p * 64 + r1) % 64 = r1 := by omega
      simp only [String.utf8EncodeChar, hValue]
      rw [if_neg (by omega), if_pos (by omega), hLeadBits, hBits1, ← hByte, hSum]
    · obtain ⟨b1, b2, rfl⟩ := List.length_eq_two.mp hLength
      obtain ⟨r1, hr1, rfl, hTail1⟩ := utf8Tail_eq_some hTail
      obtain ⟨r2, hr2, rfl, hTail2⟩ := utf8Tail_eq_some hTail1
      obtain rfl : (p * 64 + r1) * 64 + r2 = v := Option.some.inj hTail2
      have hLeadBits : ((p * 64 + r1) * 64 + r2) / 4096 % 16 = p := by omega
      have hBits1 : ((p * 64 + r1) * 64 + r2) / 64 % 64 = r1 := by omega
      have hBits2 : ((p * 64 + r1) * 64 + r2) % 64 = r2 := by omega
      simp only [String.utf8EncodeChar, hValue]
      rw [if_neg (by omega), if_neg (by omega), if_pos (by omega), hLeadBits, hBits1, hBits2,
        ← hByte, hSum]
    · obtain ⟨b1, b2, b3, rfl⟩ := List.length_eq_three.mp hLength
      obtain ⟨r1, hr1, rfl, hTail1⟩ := utf8Tail_eq_some hTail
      obtain ⟨r2, hr2, rfl, hTail2⟩ := utf8Tail_eq_some hTail1
      obtain ⟨r3, hr3, rfl, hTail3⟩ := utf8Tail_eq_some hTail2
      obtain rfl : ((p * 64 + r1) * 64 + r2) * 64 + r3 = v := Option.some.inj hTail3
      have hLeadBits : (((p * 64 + r1) * 64 + r2) * 64 + r3) / 262144 % 8 = p := by omega
      have hBits1 : (((p * 64 + r1) * 64 + r2) * 64 + r3) / 4096 % 64 = r1 := by omega
      have hBits2 : (((p * 64 + r1) * 64 + r2) * 64 + r3) / 64 % 64 = r2 := by omega
      have hBits3 : (((p * 64 + r1) * 64 + r2) * 64 + r3) % 64 = r3 := by omega
      simp only [String.utf8EncodeChar, hValue]
      rw [if_neg (by omega), if_neg (by omega), if_neg (by omega), hLeadBits, hBits1, hBits2, hBits3,
        ← hByte, hSum]

theorem utf8Loop_flatMap (text : List Char) (fuel : Nat) (hFuel : (text.flatMap String.utf8EncodeChar).length ≤ fuel) :
    utf8Loop fuel (text.flatMap String.utf8EncodeChar) = true := by
  induction text generalizing fuel with
  | nil => cases fuel <;> rfl
  | cons ch text ih =>
    rw [List.flatMap_cons, List.length_append] at hFuel
    have hLength := List.length_pos_iff.mpr (@String.utf8EncodeChar_ne_nil ch)
    obtain ⟨fuel, rfl⟩ : ∃ n, fuel = n + 1 := ⟨fuel - 1, by omega⟩
    rw [List.flatMap_cons, utf8Loop_encode]
    exact ih fuel (by omega)

theorem wellFormed_of_utf8Loop {data : Bytes} (hFuel : data.length ≤ fuel) (h : utf8Loop fuel data = true) :
    WellFormedText data := by
  induction fuel generalizing data with
  | zero => exact ⟨[], List.length_eq_zero_iff.mp (Nat.le_zero.mp hFuel)⟩
  | succ fuel ih =>
    cases data with
    | nil => exact ⟨[], rfl⟩
    | cons c rest =>
      obtain ⟨ch, more, hSplit, hMore⟩ := encode_of_utf8Loop h
      have hLength := List.length_pos_iff.mpr (@String.utf8EncodeChar_ne_nil ch)
      rw [hSplit, List.length_append] at hFuel
      obtain ⟨text, rfl⟩ := ih (by omega) hMore
      exact ⟨ch :: text, hSplit⟩

/-- The loop accepts exactly the encodings of texts. -/
theorem utf8Loop_iff {data : Bytes} (hFuel : data.length ≤ fuel) : utf8Loop fuel data = true ↔ WellFormedText data := by
  constructor
  · exact wellFormed_of_utf8Loop hFuel
  · rintro ⟨text, rfl⟩
    exact utf8Loop_flatMap text fuel hFuel

theorem wsIsValidUtf8_iff (data : Bytes) : wsIsValidUtf8 data = true ↔ WellFormedText data := utf8Loop_iff le_rfl

instance (data : Bytes) : Decidable (WellFormedText data) := decidable_of_iff _ (wsIsValidUtf8_iff data)

def utf8TailAt (data : Bytes) : Nat → Nat → Nat → Option (Option Nat)
  | 0, _, cp => some (some cp)
  | extra + 1, pos, cp =>
    (data[pos]?).bind fun cc =>
      if cc &&& 0xC0 ≠ 0x80 then some none
      else utf8TailAt data extra (pos + 1) (cp * 2 ^ 6 + (cc &&& 0x3F).toNat)

def utf8At (data : Bytes) : Nat → Nat → Option Bool
  | 0, _ => none
  | fuel + 1, i =>
    if data.length ≤ i then some true
    else (data[i]?).bind fun c =>
      if c < 0x80 then utf8At data fuel (i + 1)
      else
        match utf8Lead c with
        | none => some false
        | some (extra, cp) =>
          if data.length ≤ i + extra then some false
          else (utf8TailAt data extra (i + 1) cp).bind fun tail =>
            match tail with
            | none => some false
            | some cp => if utf8Refused extra cp then some false else utf8At data fuel (i + extra + 1)

theorem utf8TailAt_eq (data : Bytes) (extra pos cp : Nat) (hInside : pos + extra ≤ data.length) :
    utf8TailAt data extra pos cp = some (utf8Tail cp ((data.drop pos).take extra)) := by
  induction extra generalizing pos cp with
  | zero => rfl
  | succ extra ih =>
    have hRead : pos < data.length := by omega
    rw [utf8TailAt, List.getElem?_eq_getElem hRead, Option.bind_some, List.drop_eq_getElem_cons hRead,
      List.take_succ_cons, utf8Tail]
    split_ifs
    · rfl
    · exact ih (pos + 1) _ (by omega)

/-- From every index the loop reads inside the text, ends and answers as on the bytes that are left. -/
theorem utf8At_eq (data : Bytes) (fuel i : Nat) (hInside : i ≤ data.length) (hFuel : data.length - i < fuel) :
    utf8At data fuel i = some (utf8Loop fuel (data.drop i)) := by
  induction fuel generalizing i with
  | zero => omega
  | succ fuel ih =>
    rw [utf8At]
    by_cases hEnd : data.length ≤ i
    · rw [if_pos hEnd, List.drop_eq_nil_of_le hEnd, utf8Loop]
    have hRead : i < data.length := by omega
    rw [if_neg hEnd, List.getElem?_eq_getElem hRead, Option.bind_some, List.drop_eq_getElem_cons hRead, utf8Loop,
      List.length_drop]
    by_cases hAscii : data[i] < 0x80
    · rw [if_pos hAscii, if_pos hAscii]
      exact ih (i + 1) (by omega) (by omega)
    rw [if_neg hAscii, if_neg hAscii]
    cases utf8Lead data[i] with
    | none => rfl
    | some lead =>
      by_cases hShort : data.length ≤ i + lead.1
      · simp only [if_pos hShort, if_pos (show data.length - (i + 1) < lead.1 by omega)]
      · simp only [if_neg hShort, if_neg (show ¬data.length - (i + 1) < lead.1 by omega), List.drop_drop,
          utf8TailAt_eq data lead.1 (i + 1) lead.2 (by omega), Option.bind_some]
        cases utf8Tail lead.2 ((data.drop (i + 1)).take lead.1) with
        | none => rfl
        | some cp =>
          simp only
          split_ifs
          · rfl
          · rw [ih (i + lead.1 + 1) (by omega) (by omega), Nat.add_right_comm i]

/-- Every byte string is judged, without a read behind its end, and is valid exactly if it is the
encoding of a text. -/
theorem wsIsValidUtf8_exact (data : Bytes) : utf8At data (data.length + 1) 0 = some (decide (WellFormedText data)) := by
  rw [utf8At_eq data _ 0 (Nat.zero_le _) (by omega), List.drop_zero, Option.some.injEq, Bool.eq_iff_iff,
    decide_eq_true_iff]
  exact utf8Loop_iff (Nat.le_succ _)

end QbuemStack.Ws
