import QbuemStack.Base.Octets

/-! The token parser of the security module (simd_jwt). The vector variants of the dot search return
the same two positions as the scalar one, which is the one written here. -/
namespace Security

open Octets

structure JwtView where
  header : Bytes
  payload : Bytes
  signature : Bytes
deriving DecidableEq

def dot : Bytes := [0x2E]

def quote : Bytes := [0x22]

namespace SIMDJwtParser

def kMaxTokenLen : Nat := 8192

def findDots (token : Bytes) : Option (Nat × Nat) :=
  let first := (find dot token).getD token.length
  let second := (findFrom dot token (first + 1)).getD token.length
  if first ≥ token.length ∨ second ≥ token.length ∨ first ≥ second then none else some (first, second)

def isBase64url (s : Bytes) : Bool :=
  s.all fun c => (0x41 ≤ c && c ≤ 0x5A) || (0x61 ≤ c && c ≤ 0x7A) || (0x30 ≤ c && c ≤ 0x39) || c == 0x2D ||
    c == 0x5F

def parse (token : Bytes) : Option JwtView :=
  if token = [] ∨ token.length > kMaxTokenLen then none
  else match findDots token with
    | none => none
    | some (first, second) =>
      let header := slice token 0 first
      let payload := slice token (first + 1) (second - first - 1)
      let signature := token.drop (second + 1)
      if header = [] ∨ payload = [] then none
      else if !isBase64url header then none
      else if !isBase64url payload then none
      else some ⟨header, payload, signature⟩

end SIMDJwtParser

def kDecTable (c : UInt8) : Option UInt32 :=
  if 0x41 ≤ c ∧ c ≤ 0x5A then some (c.toUInt32 - 0x41)
  else if 0x61 ≤ c ∧ c ≤ 0x7A then some (c.toUInt32 - 0x61 + 26)
  else if 0x30 ≤ c ∧ c ≤ 0x39 then some (c.toUInt32 - 0x30 + 52)
  else if c = 0x2D then some 62
  else if c = 0x5F then some 63
  else none

def decodeLoop (outLen : Nat) : Bytes → UInt32 → Nat → Bytes → Nat × Bytes
  | [], _, _, written => (written.length, written)
  | c :: rest, acc, bits, written =>
    match kDecTable c with
    | none => (0, written)
    | some v =>
      let acc := acc <<< 6 ||| v
      let bits := bits + 6
      if bits ≥ 8 then
        if written.length ≥ outLen then (0, written)
        else
          let octet := (acc >>> UInt32.ofNat (bits - 8)).toUInt8
          decodeLoop outLen rest acc (bits - 8) (written ++ [octet])
      else decodeLoop outLen rest acc bits written

def decodeBufSize : Nat := 8192

def base64urlDecode (b64 out : Bytes) : Nat × Bytes :=
  let result := decodeLoop decodeBufSize b64 0 0 []
  (result.1, result.2 ++ out.drop result.2.length)

def jsonFindStringFrom (json key : Bytes) : Nat → Nat → Option (Nat × Nat)
  | 0, _ => none
  | rounds + 1, pos =>
    if pos ≥ json.length then none
    else match findFrom quote json pos with
      | none => none
      | some qpos =>
        if qpos + key.length + 2 ≥ json.length then none
        else if slice json (qpos + 1) key.length = key ∧ slice json (qpos + key.length + 1) 1 = quote then
          let colon := qpos + key.length + 2
          if slice json colon 1 ≠ [0x3A] then jsonFindStringFrom json key rounds (qpos + 1)
          else if colon + 1 ≥ json.length then none
          else if slice json (colon + 1) 1 = quote then
            let vstart := colon + 2
            (findFrom quote json vstart).map fun vend => (vstart, vend - vstart)
          else jsonFindStringFrom json key rounds (qpos + 1)
        else jsonFindStringFrom json key rounds (qpos + 1)

def jsonFindString (json key : Bytes) : Option (Nat × Nat) :=
  if json = [] ∨ key = [] then none else jsonFindStringFrom json key json.length 0

def int64Max : Nat := 2 ^ 63 - 1

def saturatingValue (val : Nat) : Bytes → Nat
  | [] => val
  | c :: rest =>
    if 0x30 ≤ c ∧ c ≤ 0x39 then
      let digit := c.toNat - 0x30
      if val > (int64Max - digit) / 10 then int64Max else saturatingValue (val * 10 + digit) rest
    else val

def jsonFindIntFrom (json key : Bytes) : Nat → Nat → Option Nat
  | 0, _ => none
  | rounds + 1, pos =>
    if pos ≥ json.length then none
    else match findFrom quote json pos with
      | none => none
      | some qpos =>
        if qpos + key.length + 2 ≥ json.length then none
        else if slice json (qpos + 1) key.length = key ∧ slice json (qpos + key.length + 1) 1 = quote then
          let colon := qpos + key.length + 2
          if slice json colon 1 ≠ [0x3A] then jsonFindIntFrom json key rounds (qpos + 1)
          else if colon + 1 ≥ json.length then none
          else if (slice json (colon + 1) 1).all fun c => 0x30 ≤ c && c ≤ 0x39 then
            some (saturatingValue 0 (json.drop (colon + 1)))
          else jsonFindIntFrom json key rounds (qpos + 1)
        else jsonFindIntFrom json key rounds (qpos + 1)

def jsonFindInt (json key : Bytes) : Option Nat :=
  if json = [] ∨ key = [] then none else jsonFindIntFrom json key json.length 0

def Fits (x : Int) : Prop := -9223372036854775808 ≤ x ∧ x ≤ 9223372036854775807

instance (x : Int) : Decidable (Fits x) := inferInstanceAs (Decidable (_ ∧ _))

namespace JwtView

def claim (view : JwtView) (key buffer : Bytes) : Option (Nat × Nat) × Bytes :=
  let (n, buffer) := base64urlDecode view.payload buffer
  if n = 0 then (none, buffer) else (jsonFindString (buffer.take n) key, buffer)

def claimInt (view : JwtView) (key : Bytes) : Option Nat :=
  let (n, buffer) := base64urlDecode view.payload (List.replicate decodeBufSize 0)
  if n = 0 then none else jsonFindInt (buffer.take n) key

def deadline (exp leeway : Int) : Int :=
  if Fits (exp + leeway) then exp + leeway
  else if leeway > 0 then 9223372036854775807 else -9223372036854775808

def isExpired (view : JwtView) (now leeway : Int) : Bool :=
  match view.claimInt (ascii "exp") with
  | none => false
  | some exp => now > deadline exp leeway

end JwtView

def payloadOf (token : Bytes) : Bytes :=
  match SIMDJwtParser.parse token with
  | none => []
  | some view => (decodeLoop decodeBufSize view.payload 0 0 []).2

section Decoder

theorem kDecTable_of_isBase64url {c : UInt8} (h : SIMDJwtParser.isBase64url [c] = true) :
    ∃ v, kDecTable c = some v := by
  simp only [SIMDJwtParser.isBase64url, List.all_cons, List.all_nil, Bool.and_true, Bool.or_eq_true,
    Bool.and_eq_true, decide_eq_true_eq, beq_iff_eq] at h
  unfold kDecTable
  split_ifs with hUpper hLower hDigit hDash hUnder
  case neg =>
      rcases h with (((h | h) | h) | h) | h
      · exact absurd h hUpper
      · exact absurd h hLower
      · exact absurd h hDigit
      · exact absurd h hDash
      · exact absurd h hUnder
  all_goals exact ⟨_, rfl⟩

/-- A text of the alphabet that fits the buffer is decoded to its end, and each character adds at
most one octet. -/
theorem decodeLoop_total (outLen : Nat) (b64 : Bytes) (acc : UInt32) (bits : Nat) (written : Bytes)
    (hText : SIMDJwtParser.isBase64url b64 = true) (hRoom : written.length + b64.length ≤ outLen) :
    let out := decodeLoop outLen b64 acc bits written
    out.1 = out.2.length ∧ written <+: out.2 := by
  induction b64 generalizing acc bits written with
  | nil => exact ⟨rfl, List.prefix_rfl⟩
  | cons c rest ih =>
    simp only [SIMDJwtParser.isBase64url, List.all_cons, Bool.and_eq_true] at hText
    obtain ⟨v, hv⟩ := kDecTable_of_isBase64url (c := c) (by
      simpa only [SIMDJwtParser.isBase64url, List.all_cons, List.all_nil, Bool.and_true] using hText.1)
    simp only [List.length_cons] at hRoom
    simp only [decodeLoop, hv]
    split_ifs with hBits hFull
    · omega
    · have hStep := ih (acc <<< 6 ||| v) (bits + 6 - 8)
        (written ++ [((acc <<< 6 ||| v) >>> UInt32.ofNat (bits + 6 - 8)).toUInt8]) hText.2
        (by rw [List.length_append, List.length_singleton]; omega)
      exact ⟨hStep.1, (List.prefix_append _ _).trans hStep.2⟩
    · exact ih _ _ _ hText.2 (by omega)

variable {token : Bytes} {view : JwtView}

section

variable (h : SIMDJwtParser.parse token = some view)
include h

theorem parse_payload : SIMDJwtParser.isBase64url view.payload = true ∧ view.payload.length ≤ decodeBufSize := by
  unfold SIMDJwtParser.parse at h
  split_ifs at h with hSize
  split at h
  · cases h
  · rename_i first second hDots
    dsimp only at h
    split_ifs at h with hEmpty hHeader hPayload
    simp only [Option.some.injEq] at h
    subst h
    refine ⟨by simpa using hPayload, ?_⟩
    have hBound : token.length ≤ 8192 := by
      simp only [SIMDJwtParser.kMaxTokenLen, not_or, not_lt] at hSize
      exact hSize.2
    have hSlice : (slice token (first + 1) (second - first - 1)).length ≤ token.length := by
      simp only [slice, List.length_take, List.length_drop]
      omega
    exact hSlice.trans hBound

theorem payloadOf_parsed : payloadOf token = (decodeLoop decodeBufSize view.payload 0 0 []).2 := by
  rw [payloadOf, h]

theorem base64urlDecode_parsed (out : Bytes) : base64urlDecode view.payload out =
      ((payloadOf token).length, payloadOf token ++ out.drop (payloadOf token).length) := by
  have hPayload := parse_payload h
  have hTotal := (decodeLoop_total decodeBufSize view.payload 0 0 [] hPayload.1
    (by simpa using hPayload.2)).1
  rw [payloadOf_parsed h]
  simp only [base64urlDecode, hTotal]

theorem claim_parsed (key buffer : Bytes) : view.claim key buffer =
      (jsonFindString (payloadOf token) key, payloadOf token ++ buffer.drop (payloadOf token).length) := by
  simp only [JwtView.claim, base64urlDecode_parsed h]
  split_ifs with hEmpty
  · rw [List.length_eq_zero_iff] at hEmpty
    simp [hEmpty, jsonFindString]
  · rw [List.take_left]

theorem claimInt_parsed (key : Bytes) : view.claimInt key = jsonFindInt (payloadOf token) key := by
  simp only [JwtView.claimInt, base64urlDecode_parsed h]
  split_ifs with hEmpty
  · rw [List.length_eq_zero_iff] at hEmpty
    simp [hEmpty, jsonFindInt]
  · rw [List.take_left]

end

end Decoder

section Scanner

variable (json key : Bytes)

/-- What the scanner is after: the name between quotes, a colon and a quote, with nothing in
between. -/
def stringMark (key : Bytes) : Bytes := quote ++ (key ++ (quote ++ ([0x3A] ++ quote)))

def upToQuote (json : Bytes) (vstart : Nat) : Option (Nat × Nat) :=
  (findFrom quote json vstart).map fun vend => (vstart, vend - vstart)

theorem mark_prefix_iff (qpos : Nat) (hQuote : quote <+: json.drop qpos) : stringMark key <+: json.drop qpos ↔
      (slice json (qpos + 1) key.length = key ∧ slice json (qpos + key.length + 1) 1 = quote) ∧
        slice json (qpos + key.length + 2) 1 = [0x3A] ∧ slice json (qpos + key.length + 3) 1 = quote := by
  have hKey := slice_eq_iff json key (qpos + 1)
  have hClose := slice_eq_iff json quote (qpos + key.length + 1)
  have hColon := slice_eq_iff json [0x3A] (qpos + key.length + 2)
  have hOpen := slice_eq_iff json quote (qpos + key.length + 3)
  simp only [quote, List.length_singleton] at hClose hColon hOpen
  simp only [stringMark, append_prefix_iff, List.drop_drop, quote, List.length_singleton]
  rw [hKey, hClose, hColon, hOpen, show qpos + 1 + key.length = qpos + key.length + 1 by omega]
  rw [quote] at hQuote
  constructor
  · rintro ⟨-, h1, h2, h3, h4⟩
    exact ⟨⟨h1, h2⟩, h3, h4⟩
  · rintro ⟨⟨h1, h2⟩, h3, h4⟩
    exact ⟨hQuote, h1, h2, h3, h4⟩

theorem stringMark_length : (stringMark key).length = key.length + 4 := by
  simp only [stringMark, quote, List.length_append, List.length_singleton]
  omega

theorem stringMark_ne_nil : stringMark key ≠ [] := by
  simp [stringMark, quote]

theorem quote_of_mark {json key : Bytes} {pos : Nat} (h : stringMark key <+: json.drop pos) :
    quote <+: json.drop pos ∧ pos + key.length + 4 ≤ json.length := by
  have hLength := h.length_le
  rw [stringMark_length, List.length_drop] at hLength
  exact ⟨((append_prefix_iff _ _ _).mp h).1, by omega⟩

theorem jsonFindStringFrom_eq (rounds pos : Nat) (hRounds : json.length ≤ pos + rounds) :
    jsonFindStringFrom json key rounds pos =
      (findFrom (stringMark key) json pos).bind fun p => upToQuote json (p + key.length + 4) := by
  have hNoMark : ∀ p, (∀ j, p ≤ j → ¬stringMark key <+: json.drop j) →
      findFrom (stringMark key) json p = none :=
    fun p h => (findFrom_eq_none_iff _ _ _ (stringMark_ne_nil key)).mpr h
  induction rounds generalizing pos with
  | zero =>
    rw [hNoMark pos fun j hj h => by have := (quote_of_mark h).2; omega]
    rfl
  | succ rounds ih =>
    rw [jsonFindStringFrom]
    split_ifs with hPos
    · rw [hNoMark pos fun j hj h => by have := (quote_of_mark h).2; omega]
      rfl
    · cases hFound : findFrom quote json pos with
      | none =>
        have hNone := (findFrom_eq_none_iff quote json pos (by simp [quote])).mp hFound
        rw [hNoMark pos fun j hj h => hNone j hj (quote_of_mark h).1]
        rfl
      | some qpos =>
        obtain ⟨hLe, hQuote, hFirst⟩ := findFrom_some quote json pos hFound
        have hStart : findFrom (stringMark key) json pos = findFrom (stringMark key) json qpos :=
          findFrom_skip _ _ _ _ (stringMark_ne_nil key) hLe
            fun j hj hBefore h => hFirst j hj hBefore (quote_of_mark h).1
        have hNext : ¬stringMark key <+: json.drop qpos →
            jsonFindStringFrom json key rounds (qpos + 1) =
              (findFrom (stringMark key) json pos).bind fun p => upToQuote json (p + key.length + 4) := by
          intro hNot
          rw [ih (qpos + 1) (by omega), hStart]
          congr 1
          exact (findFrom_succ _ _ _ (stringMark_ne_nil key) hNot).symm
        have hShort : json.length ≤ qpos + key.length + 3 →
            findFrom (stringMark key) json pos = none := by
          intro hEnd
          rw [hStart]
          exact hNoMark qpos fun j hj h => by have := (quote_of_mark h).2; omega
        have hMark := mark_prefix_iff json key qpos hQuote
        dsimp only
        split_ifs with hEnd hName hColon hColonEnd hOpen
        · rw [hShort (by omega)]
          rfl
        · exact hNext fun h => hColon (hMark.mp h).2.1
        · rw [hShort (by omega)]
          rfl
        · have hHere := hMark.mpr ⟨hName, not_not.mp hColon, hOpen⟩
          rw [hStart, findFrom_here _ _ _ hHere]
          rfl
        · exact hNext fun h => hOpen (hMark.mp h).2.2
        · exact hNext fun h => hName (hMark.mp h).1

theorem jsonFindString_eq (hKey : key ≠ []) : jsonFindString json key =
      (find (stringMark key) json).bind fun p => upToQuote json (p + key.length + 4) := by
  have hFrom : findFrom (stringMark key) json 0 = find (stringMark key) json := by
    simp [findFrom]
  rw [jsonFindString, ← hFrom]
  split_ifs with hEmpty
  · obtain rfl := hEmpty.resolve_right hKey
    simp [findFrom, find, stringMark_ne_nil]
  · exact jsonFindStringFrom_eq json key json.length 0 (by omega)

theorem jsonFindString_le {json key : Bytes} (hKey : key ≠ []) {place : Nat × Nat}
    (h : jsonFindString json key = some place) : place.1 + place.2 ≤ json.length := by
  rw [jsonFindString_eq json key hKey, Option.bind_eq_some_iff] at h
  obtain ⟨p, -, hValue⟩ := h
  rw [upToQuote, Option.map_eq_some_iff] at hValue
  obtain ⟨vend, hEnd, rfl⟩ := hValue
  have hInside := findFrom_le quote json _ vend (by simp [quote]) hEnd
  dsimp only
  omega

end Scanner
end Security
