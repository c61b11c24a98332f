import QbuemStack.Crypto.Base64
import QbuemStack.Crypto.Rsa

/-! The HS256 check of a token. The MAC is a parameter. -/
namespace Crypto

open Octets

structure TokenParts where
  header : Bytes
  payload : Bytes
  signature : Bytes
  signingInput : Bytes

def splitToken (token : Bytes) : Option TokenParts := do
  let d1 ← find [0x2E] token
  let d2 ← findFrom [0x2E] token (d1 + 1)
  if findFrom [0x2E] token (d2 + 1) ≠ none then none
  else return {
    header := slice token 0 d1
    payload := slice token (d1 + 1) (d2 - d1 - 1)
    signature := token.drop (d2 + 1)
    signingInput := slice token 0 d2 }

def contains (text piece : Bytes) : Bool := (find piece text).isSome

def verifyJwtHs256 (hmacSha256 : Bytes → Bytes → Sha256Digest) (token key : Bytes) : Except Errc Bytes :=
  match splitToken token with
  | none => .error .badMessage
  | some parts =>
    match base64urlDecode parts.header with
    | .error _ => .error .badMessage
    | .ok header =>
      if !contains header (ascii "\"HS256\"") then .error .badMessage
      else if !contains header (ascii "\"alg\"") then .error .badMessage
      else match base64urlDecode parts.signature with
        | .error _ => .error .badMessage
        | .ok sig =>
          if sig.length ≠ 32 then .error .badMessage
          else
            let mac := hmacSha256 key parts.signingInput
            if differenceBits mac.bytes sig ≠ 0 then .error .badMessage
            else base64urlDecode parts.payload

def SignedHs256 (hmacSha256 : Bytes → Bytes → Sha256Digest) (key token payload : Bytes) : Prop :=
  ∃ parts header, splitToken token = some parts ∧ base64urlDecode parts.header = .ok header ∧
    contains header (ascii "\"HS256\"") = true ∧ contains header (ascii "\"alg\"") = true ∧
    base64urlDecode parts.signature = .ok (hmacSha256 key parts.signingInput).bytes ∧
    base64urlDecode parts.payload = .ok payload

theorem verifyJwtHs256_eq_ok_iff (hmacSha256 : Bytes → Bytes → Sha256Digest) (token key payload : Bytes) :
    verifyJwtHs256 hmacSha256 token key = .ok payload ↔ SignedHs256 hmacSha256 key token payload := by
  unfold verifyJwtHs256 SignedHs256
  cases hParts : splitToken token with
  | none => simp
  | some parts =>
    simp only [Option.some.injEq, exists_and_left, exists_eq_left']
    cases hHeader : base64urlDecode parts.header with
    | error e => simp
    | ok header =>
      simp only [Except.ok.injEq, exists_eq_left']
      by_cases hAlg : contains header (ascii "\"HS256\"") = true
      · by_cases hName : contains header (ascii "\"alg\"") = true
        · simp only [hAlg, hName, Bool.not_true, Bool.false_eq_true, ↓reduceIte, true_and]
          cases hSig : base64urlDecode parts.signature with
          | error e => simp
          | ok sig =>
            have hSize := (hmacSha256 key parts.signingInput).size
            dsimp only
            by_cases hLength : sig.length = 32
            · rw [if_neg (not_not.mpr hLength)]
              have hBits := differenceBits_eq_zero (hSize.trans hLength.symm)
              by_cases hZero : differenceBits (hmacSha256 key parts.signingInput).bytes sig = 0
              · rw [if_neg (not_not.mpr hZero), hBits.mp hZero]
                simp
              · rw [if_pos hZero]
                have hOther : sig ≠ (hmacSha256 key parts.signingInput).bytes :=
                  fun h => hZero (hBits.mpr h.symm)
                simp [hOther]
            · rw [if_pos hLength]
              have hOther : sig ≠ (hmacSha256 key parts.signingInput).bytes := by
                rintro rfl
                exact hLength hSize
              simp [hOther]
        · simp [hAlg, hName]
      · simp [hAlg]

end Crypto
