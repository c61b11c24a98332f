import QbuemStack.Security.SimdJwt

/-! The token check of a pipeline (JwtAuthAction). The string views it hands on are places in the
decode buffer of the thread, or in the verifier's result, which is gone when the call returns. -/
namespace Security

open Octets

inductive View where
  | empty
  | buffer (offset length : Nat)
  | result (text : Bytes)
deriving DecidableEq, Repr

namespace View

def isEmpty : View → Bool
  | empty => true
  | buffer _ length => length == 0
  | result text => text == []

def read (decodeBuf : Bytes) : View → Option Bytes
  | empty => some []
  | buffer offset length => some (slice decodeBuf offset length)
  | result _ => none

end View

inductive Name where
  | sub
  | iss
  | aud
deriving DecidableEq

def Name.key : Name → Bytes
  | .sub => ascii "sub"
  | .iss => ascii "iss"
  | .aud => ascii "aud"

structure JwtClaims where
  sub : View := .empty
  iss : View := .empty
  aud : View := .empty
  exp : Int := -1
  iat : Int := -1
  nbf : Int := -1
deriving DecidableEq

namespace JwtClaims

def view (claims : JwtClaims) : Name → View
  | .sub => claims.sub
  | .iss => claims.iss
  | .aud => claims.aud

def int64 (x : Int) : Option Int := if Fits x then some x else none

/-- No answer when an addition overflows, which the language leaves undefined. -/
def isValidAt (claims : JwtClaims) (now leeway : Int) : Option Bool := do
  let late ← if claims.exp ≥ 0 then (int64 (claims.exp + leeway)).map fun bound => decide (now > bound)
    else some false
  if late then return false
  let early ← if claims.nbf ≥ 0 then (int64 (claims.nbf - leeway)).map fun bound => decide (now < bound)
    else some false
  return !early

end JwtClaims

structure JwtAuthConfig where
  leewaySec : Int := 0
  cacheSize : Nat := 256
  requireExp : Bool := true
  requireSub : Bool := false
  authHeader : Bytes := ascii "authorization"

structure TokenClaims where
  subject : Bytes := []
  issuer : Bytes := []
  audience : Bytes := []
  exp : Int := -1
  nbf : Int := -1
deriving DecidableEq

inductive Msg where
  | request (header : Bytes → Bytes)
  | text (content : Bytes)
  | other

def kBearerPrefixLen : Nat := 7

def toLower (c : UInt8) : UInt8 := if 0x41 ≤ c ∧ c ≤ 0x5A then c ||| 0x20 else c

def extractToken (config : JwtAuthConfig) : Msg → Option Bytes
  | .request header =>
    let auth := header config.authHeader
    if auth.length ≤ kBearerPrefixLen then none
    else if (auth.take kBearerPrefixLen).map toLower ≠ ascii "bearer " then none
    else some (auth.drop kBearerPrefixLen)
  | .text content => some content
  | .other => none

structure CacheEntry where
  keyHash : UInt64 := 0
  claims : JwtClaims := {}
  valid : Bool := false

namespace LRUCache

def hash (s : Bytes) : UInt64 :=
  s.foldl (fun h c => (h ^^^ c.toUInt64) * 0x100000001b3) 0xcbf29ce484222325

def index (size : Nat) (token : Bytes) : Nat := (hash token).toNat % size

def get (entries : List CacheEntry) (token : Bytes) : Option JwtClaims :=
  let e := entries.getD (index entries.length token) {}
  if e.valid && e.keyHash == hash token then some e.claims else none

def put (entries : List CacheEntry) (token : Bytes) (claims : JwtClaims) : List CacheEntry :=
  entries.set (index entries.length token) ⟨hash token, claims, true⟩

end LRUCache

structure Stats where
  success : UInt64 := 0
  cacheHits : UInt64 := 0
  formatErrors : UInt64 := 0
  expired : UInt64 := 0
  sigFailures : UInt64 := 0

/-- The action and the decode buffer of its thread. -/
structure State where
  cache : Option (List CacheEntry)
  decodeBuf : Bytes
  stats : Stats := {}

def initial (config : JwtAuthConfig) : State where
  cache := if config.cacheSize > 0 then some (List.replicate config.cacheSize {}) else none
  decodeBuf := List.replicate decodeBufSize 0

/-- One message with what the world answers while it is handled. -/
structure Call where
  msg : Msg
  now : Int
  verify : Bytes → Option TokenClaims

inductive Errc where
  | permissionDenied
  | invalidArgument
  | timedOut
deriving DecidableEq

inductive Outcome where
  | next (claims : JwtClaims)
  | stop (error : Errc)
  | undefined
deriving DecidableEq

structure Step where
  outcome : Outcome
  state : State
  asked : Option (Bytes × Bool) := none

inductive Cached where
  | miss
  | hit (claims : JwtClaims)
  | undefined

def consult (config : JwtAuthConfig) (s : State) (token : Bytes) (now : Int) : Cached :=
  match s.cache with
  | none => .miss
  | some entries =>
    match LRUCache.get entries token with
    | none => .miss
    | some claims =>
      match claims.isValidAt now config.leewaySec with
      | none => .undefined
      | some true => .hit claims
      | some false => .miss

def stringClaim (view : JwtView) (name : Name) (fallback decodeBuf : Bytes) : View × Bytes :=
  match view.claim name.key decodeBuf with
  | (some (offset, length), buf) => (.buffer offset length, buf)
  | (none, buf) => (.result fallback, buf)

def buildClaims (view : JwtView) (result : TokenClaims) (decodeBuf : Bytes) : JwtClaims × Bytes :=
  let (sub, buf) := stringClaim view .sub result.subject decodeBuf
  let (iss, buf) := stringClaim view .iss result.issuer buf
  let (aud, buf) := stringClaim view .aud result.audience buf
  ({ sub := sub, iss := iss, aud := aud,
     exp := ((view.claimInt (ascii "exp")).map Int.ofNat).getD result.exp,
     iat := ((view.claimInt (ascii "iat")).map Int.ofNat).getD (-1),
     nbf := ((view.claimInt (ascii "nbf")).map Int.ofNat).getD result.nbf }, buf)

def validate (config : JwtAuthConfig) (s : State) (call : Call) (token : Bytes) : Step :=
  match SIMDJwtParser.parse token with
  | none =>
    { outcome := .stop .invalidArgument
      state := { s with stats := { s.stats with formatErrors := s.stats.formatErrors + 1 } } }
  | some view =>
    if config.requireExp && view.isExpired call.now config.leewaySec then
      { outcome := .stop .timedOut
        state := { s with stats := { s.stats with expired := s.stats.expired + 1 } } }
    else match call.verify token with
      | none =>
        { outcome := .stop .permissionDenied
          state := { s with stats := { s.stats with sigFailures := s.stats.sigFailures + 1 } }
          asked := some (token, false) }
      | some result =>
        let (claims, buf) := buildClaims view result s.decodeBuf
        if config.requireSub && claims.sub.isEmpty then
          { outcome := .stop .invalidArgument
            state := { s with decodeBuf := buf }
            asked := some (token, true) }
        else
          { outcome := .next claims
            state :=
              { cache := s.cache.map fun entries => LRUCache.put entries token claims
                decodeBuf := buf
                stats := { s.stats with success := s.stats.success + 1 } }
            asked := some (token, true) }

def operate (config : JwtAuthConfig) (s : State) (call : Call) : Step :=
  match extractToken config call.msg with
  | none => { outcome := .stop .permissionDenied, state := s }
  | some token =>
    match consult config s token call.now with
    | .undefined => { outcome := .undefined, state := s }
    | .hit claims =>
      { outcome := .next claims
        state := { s with stats := { s.stats with cacheHits := s.stats.cacheHits + 1 } } }
    | .miss => validate config s call token

def run (config : JwtAuthConfig) : List Call → State
  | [] => initial config
  | call :: past => (operate config (run config past) call).state

section Paths

variable {token : Bytes} {view : JwtView}

theorem stringClaim_parsed (h : SIMDJwtParser.parse token = some view) (name : Name) (fallback decodeBuf : Bytes) :
    stringClaim view name fallback decodeBuf =
      (((jsonFindString (payloadOf token) name.key).map fun place => View.buffer place.1 place.2).getD
        (.result fallback), payloadOf token ++ decodeBuf.drop (payloadOf token).length) := by
  rw [stringClaim, claim_parsed h]
  cases jsonFindString (payloadOf token) name.key with
  | none | some => rfl

def TokenClaims.text (result : TokenClaims) : Name → Bytes
  | .sub => result.subject
  | .iss => result.issuer
  | .aud => result.audience

def viewOf (token : Bytes) (result : TokenClaims) (name : Name) : View :=
  ((jsonFindString (payloadOf token) name.key).map fun place => View.buffer place.1 place.2).getD
    (.result (result.text name))

section

variable (h : SIMDJwtParser.parse token = some view) (result : TokenClaims) (decodeBuf : Bytes)
include h result decodeBuf

/-- A claim is a place in the buffer or the verifier's text. -/
theorem buildClaims_view (name : Name) :
    (buildClaims view result decodeBuf).1.view name = viewOf token result name := by
  cases name with
  | sub | iss | aud => simp only [buildClaims, stringClaim_parsed h, JwtClaims.view, viewOf, TokenClaims.text]

theorem buildClaims_buffer : payloadOf token <+: (buildClaims view result decodeBuf).2 := by
  simp only [buildClaims, stringClaim_parsed h]
  exact List.prefix_append _ _

end

/-- A token passes every check the uncached path makes. -/
structure Passes (config : JwtAuthConfig) (call : Call) (token : Bytes) (view : JwtView)
    (result : TokenClaims) : Prop where
  parsed : SIMDJwtParser.parse token = some view
  inTime : config.requireExp = true → view.isExpired call.now config.leewaySec = false
  accepted : call.verify token = some result
  named : config.requireSub = true → (viewOf token result .sub).isEmpty = false

/-- What the uncached path can do: it hands on the claims of a token that passes, and stores them,
or it stops and stores nothing. -/
theorem validate_cases (config : JwtAuthConfig) (s : State) (call : Call) (token : Bytes) :
    let out := validate config s call token
    (∃ view result, Passes config call token view result ∧
      out.outcome = .next (buildClaims view result s.decodeBuf).1 ∧
      out.state.cache = s.cache.map (fun entries =>
        LRUCache.put entries token (buildClaims view result s.decodeBuf).1) ∧
      out.state.decodeBuf = (buildClaims view result s.decodeBuf).2 ∧ out.asked = some (token, true)) ∨
    ((∀ view result, ¬Passes config call token view result) ∧ (∃ error, out.outcome = .stop error) ∧
      out.state.cache = s.cache) := by
  unfold validate
  cases hParse : SIMDJwtParser.parse token with
  | none =>
    refine .inr ⟨fun view result h => ?_, ⟨_, rfl⟩, rfl⟩
    have hView := h.parsed
    rw [hParse] at hView
    cases hView
  | some view =>
    have hOnly : ∀ view' result, Passes config call token view' result → view' = view := by
      intro view' result h
      have hView := h.parsed
      rw [hParse] at hView
      exact (Option.some.inj hView).symm
    dsimp only
    by_cases hLate : (config.requireExp && view.isExpired call.now config.leewaySec) = true
    · rw [if_pos hLate]
      rw [Bool.and_eq_true] at hLate
      refine .inr ⟨fun view' result h => ?_, ⟨_, rfl⟩, rfl⟩
      have hTime := h.inTime hLate.1
      rw [hOnly view' result h, hLate.2] at hTime
      cases hTime
    · rw [if_neg hLate]
      cases hVerify : call.verify token with
      | none =>
        refine .inr ⟨fun view' result h => ?_, ⟨_, rfl⟩, rfl⟩
        have hResult := h.accepted
        rw [hVerify] at hResult
        cases hResult
      | some result =>
        have hSub : (buildClaims view result s.decodeBuf).1.sub = viewOf token result .sub :=
          buildClaims_view hParse result s.decodeBuf .sub
        dsimp only
        by_cases hEmpty : (config.requireSub && (buildClaims view result s.decodeBuf).1.sub.isEmpty) = true
        · rw [if_pos hEmpty]
          rw [Bool.and_eq_true, hSub] at hEmpty
          refine .inr ⟨fun view' result' h => ?_, ⟨_, rfl⟩, rfl⟩
          have hResult := h.accepted
          rw [hVerify, Option.some.injEq] at hResult
          have hNamed := h.named hEmpty.1
          rw [← hResult, hEmpty.2] at hNamed
          cases hNamed
        · rw [if_neg hEmpty]
          rw [Bool.and_eq_true, hSub] at hEmpty
          refine .inl ⟨view, result, ⟨hParse, ?_, hVerify, ?_⟩, rfl, rfl, rfl, rfl⟩
          · intro hRequired
            simpa [hRequired] using hLate
          · intro hRequired
            simpa [hRequired] using hEmpty

end Paths

end Security
