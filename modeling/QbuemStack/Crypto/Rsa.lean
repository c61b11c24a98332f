import QbuemStack.Crypto.BigUint

/-! RSASSA-PKCS1-v1.5 verification with SHA-256. The hash is a parameter: any function to 32 octets. -/
namespace Crypto

open Octets Radix BigUint
open List (length_append replicate replicate_add)

structure Sha256Digest where
  bytes : Bytes
  size : bytes.length = 32

def kSha256DigestInfo : Bytes :=
  [0x30, 0x31, 0x30, 0x0d, 0x06, 0x09, 0x60, 0x86, 0x48, 0x01,
   0x65, 0x03, 0x04, 0x02, 0x01, 0x05, 0x00, 0x04, 0x20]

def copyTo (piece : Bytes) (pos : Nat) (data : Bytes) : Bytes :=
  data.take pos ++ piece ++ data.drop (pos + piece.length)

def expectedMessage (k : Nat) (h : Sha256Digest) : Bytes :=
  let tlen := kSha256DigestInfo.length + h.bytes.length
  let expected := (((List.replicate k (0xFF : UInt8)).set 0 0x00).set 1 0x01).set (k - tlen - 1) 0x00
  copyTo h.bytes (k - h.bytes.length) (copyTo kSha256DigestInfo (k - tlen) expected)

def differenceBits (em expected : Bytes) : UInt8 :=
  (List.zip em expected).foldl (fun diff pair => diff ||| (pair.1 ^^^ pair.2)) 0

def rsaPkcs1V15Sha256Verify (sha256 : Bytes → Sha256Digest)
    (modulus exponent message signature : Bytes) : Bool :=
  if modulus.isEmpty || exponent.isEmpty || signature.isEmpty then false
  else
    let k := (modulus.dropWhile (· == 0)).length
    if k = 0 ∨ signature.length ≠ k then false
    else
      let n := fromBeBytes modulus
      let s := fromBeBytes signature
      if BigUint.cmp s n ≠ .lt then false
      else
        let em := toBeBytes (modexp s exponent n) k
        let h := sha256 message
        if k < kSha256DigestInfo.length + h.bytes.length + 11 then false
        else differenceBits em (expectedMessage k h) == 0

def encodedMessage (k : Nat) (h : Sha256Digest) : Bytes :=
  [0x00, 0x01] ++ List.replicate (k - 54) 0xFF ++ [0x00] ++ kSha256DigestInfo ++ h.bytes

theorem length_encodedMessage {k : Nat} (hk : 62 ≤ k) (h : Sha256Digest) : (encodedMessage k h).length = k := by
  simp only [encodedMessage, length_append, List.length_replicate, h.size]
  simp only [kSha256DigestInfo, List.length_cons, List.length_nil]
  omega

theorem copyTo_append (piece front old back : Bytes) (hOld : old.length = piece.length) :
    copyTo piece front.length (front ++ old ++ back) = front ++ piece ++ back := by
  rw [copyTo, ← hOld, List.append_assoc front, List.take_left, ← List.append_assoc front,
    ← length_append, List.drop_left]

/-- The message built in place is the encoded message of the standard. -/
theorem expectedMessage_eq {k : Nat} (hk : 62 ≤ k) (h : Sha256Digest) : expectedMessage k h = encodedMessage k h := by
  obtain ⟨m, rfl⟩ := Nat.exists_eq_add_of_le hk
  have hInfo : kSha256DigestInfo.length = 19 := rfl
  let front : Bytes := [0x00, 0x01] ++ replicate (8 + m) 0xFF
  have hFront : front.length = 10 + m := by
    simp only [front, length_append, List.length_cons, List.length_nil, List.length_replicate]
    omega
  have hStart : (((replicate (62 + m) (0xFF : UInt8)).set 0 0x00).set 1 0x01).set
      (62 + m - (19 + 32) - 1) 0x00 =
      front ++ [0x00] ++ replicate 19 0xFF ++ replicate 32 0xFF := by
    have hCount : 62 + m = 2 + (8 + m) + 1 + 19 + 32 := by omega
    have hPos : 62 + m - (19 + 32) - 1 = front.length := by omega
    rw [hPos, hCount, replicate_add, replicate_add, replicate_add, replicate_add]
    simp only [List.append_assoc]
    change (front ++ (0xFF :: (replicate 19 0xFF ++ replicate 32 0xFF))).set
      front.length 0x00 = _
    rw [List.set_append_right _ _ le_rfl, Nat.sub_self]
    rfl
  rw [expectedMessage, hInfo, h.size, hStart]
  have hTag : 62 + m - (19 + 32) = (front ++ [0x00]).length := by
    rw [length_append, List.length_singleton]
    omega
  have hHash : 62 + m - 32 = (front ++ [0x00] ++ kSha256DigestInfo).length := by
    rw [length_append, ← hTag, hInfo]
    omega
  have hEnd := copyTo_append h.bytes (front ++ [0x00] ++ kSha256DigestInfo) (replicate 32 0xFF) []
    (by rw [h.size]; simp)
  rw [List.append_nil, List.append_nil] at hEnd
  rw [hTag, copyTo_append _ _ _ _ (by rw [hInfo]; simp), hHash, hEnd, encodedMessage,
    show 62 + m - 54 = 8 + m by omega]

theorem differenceBits_eq_zero {em expected : Bytes} (hLength : em.length = expected.length) :
    differenceBits em expected = 0 ↔ em = expected := by
  have hFold : ∀ (em expected : Bytes) (diff : UInt8), em.length = expected.length →
      ((List.zip em expected).foldl (fun diff pair => diff ||| (pair.1 ^^^ pair.2)) diff = 0 ↔
        diff = 0 ∧ em = expected) := by
    intro em
    induction em with intro expected diff hLength
    | nil =>
      rw [List.length_eq_zero_iff.mp hLength.symm]
      simp
    | cons x em ih =>
      cases expected with
      | nil => cases hLength
      | cons y expected =>
        rw [List.zip_cons_cons, List.foldl_cons, ih expected _ (by simpa using hLength),
          UInt8.or_eq_zero_iff, UInt8.xor_eq_zero_iff, List.cons.injEq, and_assoc]
  rw [differenceBits, hFold em expected 0 hLength]
  simp

def ValidSignature (sha256 : Bytes → Sha256Digest) (modulus exponent message signature : Bytes) : Prop :=
  let k := (modulus.dropWhile (· == 0)).length
  let n := beValue modulus
  let e := beValue exponent
  let s := beValue signature
  0 < n ∧ exponent ≠ [] ∧ signature.length = k ∧ s < n ∧ 62 ≤ k ∧
    s ^ e % n = beValue (encodedMessage k (sha256 message))

theorem modulus_bounds (modulus : Bytes) (hPos : 0 < (modulus.dropWhile (· == 0)).length) :
    (2 ^ 8) ^ ((modulus.dropWhile (· == 0)).length - 1) ≤ beValue modulus ∧
      beValue modulus < (2 ^ 8) ^ (modulus.dropWhile (· == 0)).length := by
  rw [← beValue_dropWhile]
  refine ⟨?_, beValue_lt _⟩
  cases hDrop : modulus.dropWhile (· == 0) with
  | nil => simp [hDrop] at hPos
  | cons c rest =>
    have hHead : c ≠ 0 := by
      have hNot := @List.head_dropWhile_not _ (· == 0) modulus (by rw [hDrop]; simp)
      simpa [hDrop] using hNot
    have hTop : 0 < c.toNat := Nat.pos_of_ne_zero fun h => hHead (UInt8.toNat_inj.mp h)
    have hSplit := beValue_append [c] rest
    rw [List.singleton_append] at hSplit
    rw [List.length_cons, Nat.add_sub_cancel, hSplit]
    have hOne : beValue [c] = c.toNat := by simp [beValue, Radix.horner_cons]
    rw [hOne]
    exact (Nat.le_mul_of_pos_left _ hTop).trans (Nat.le_add_right _ _)

/-- The verification accepts exactly the signatures of the standard. -/
theorem rsaPkcs1V15Sha256Verify_iff (sha256 : Bytes → Sha256Digest) (modulus exponent message signature : Bytes) :
    rsaPkcs1V15Sha256Verify sha256 modulus exponent message signature = true ↔
      ValidSignature sha256 modulus exponent message signature := by
  have hInfo : kSha256DigestInfo.length = 19 := rfl
  have hCompare : BigUint.cmp (fromBeBytes signature) (fromBeBytes modulus) =
      compare (beValue signature) (beValue modulus) := by
    rw [cmp_eq_compare (fromBeBytes_ne_nil _) (fromBeBytes_ne_nil _), value_fromBeBytes, value_fromBeBytes]
  rw [rsaPkcs1V15Sha256Verify, ValidSignature]
  generalize hk : (modulus.dropWhile (· == 0)).length = k
  by_cases hEmpty : (modulus.isEmpty || exponent.isEmpty || signature.isEmpty) = true
  · rw [if_pos hEmpty]
    refine iff_of_false Bool.false_ne_true ?_
    rintro ⟨hn, hExponent, hLength, -, hLong, -⟩
    simp only [Bool.or_eq_true, List.isEmpty_iff] at hEmpty
    rcases hEmpty with (rfl | rfl) | rfl
    · simp [beValue] at hn
    · exact hExponent rfl
    · simp only [List.length_nil] at hLength
      omega
  rw [if_neg hEmpty]
  by_cases hShape : k = 0 ∨ signature.length ≠ k
  · rw [if_pos hShape]
    refine iff_of_false Bool.false_ne_true ?_
    rintro ⟨-, -, hLength, -, hLong, -⟩
    rcases hShape with hZero | hOther
    · omega
    · exact hOther hLength
  rw [if_neg hShape]
  by_cases hRange : BigUint.cmp (fromBeBytes signature) (fromBeBytes modulus) ≠ .lt
  · rw [if_pos hRange]
    refine iff_of_false Bool.false_ne_true ?_
    rintro ⟨-, -, -, hLess, -⟩
    rw [hCompare, ne_eq, Nat.compare_eq_lt] at hRange
    exact hRange hLess
  rw [if_neg hRange]
  simp only [hInfo, (sha256 message).size]
  by_cases hRoom : k < 19 + 32 + 11
  · rw [if_pos hRoom]
    refine iff_of_false Bool.false_ne_true ?_
    rintro ⟨-, -, -, -, hLong, -⟩
    omega
  rw [if_neg hRoom]
  rw [hCompare, not_not, Nat.compare_eq_lt] at hRange
  rw [not_or, not_not] at hShape
  have hLong : 62 ≤ k := by omega
  obtain ⟨hLower, hUpper⟩ := modulus_bounds modulus (by omega)
  rw [hk] at hLower hUpper
  have hLarge : 1 < beValue modulus := by
    have hPower : (2 ^ 8) ^ 1 ≤ (2 ^ 8) ^ (k - 1) := Nat.pow_le_pow_right (by norm_num) (by omega)
    omega
  have hPower := modexp_spec (fromBeBytes_ne_nil modulus) (by rwa [value_fromBeBytes])
    (fromBeBytes signature) exponent
  rw [value_fromBeBytes, value_fromBeBytes] at hPower
  have hFits : value (modexp (fromBeBytes signature) exponent (fromBeBytes modulus)) < (2 ^ 8) ^ k :=
    hPower ▸ (Nat.mod_lt _ (by omega)).trans hUpper
  have hWritten := beValue_toBeBytes _ k hFits
  have hLength := (length_toBeBytes (modexp (fromBeBytes signature) exponent (fromBeBytes modulus))
    k).trans (length_encodedMessage hLong (sha256 message)).symm
  rw [beq_iff_eq, expectedMessage_eq hLong, differenceBits_eq_zero hLength]
  constructor
  · intro hSame
    refine ⟨by omega, ?_, hShape.2, hRange, hLong, ?_⟩
    · rintro rfl
      simp at hEmpty
    · rw [← hPower, ← hWritten, hSame]
  · rintro ⟨-, -, -, -, -, hValue⟩
    exact beValue_inj hLength (by rw [hWritten, hPower, hValue])

end Crypto
