import Mathlib.Data.List.AList
import QbuemStack.Http.Response
import QbuemStack.Security.JwtAction

/-! The middlewares `bearer_auth`, which puts the verified claims into the response, and `quota`,
whose default key is read from the request. -/
namespace Middleware

open Octets QbuemStack.Http Security

abbrev TokenVerifier := Bytes → Option (TokenClaims × List (Bytes × Bytes))

structure BearerAuthOptions where
  onError : Option (Request → Response → Bytes → Response) := none
  claimsPrefix : Bytes := ascii "X-Auth-"

def BearerAuthOptions.fail (opts : BearerAuthOptions) (req : Request) (res : Response) (reason challenge : Bytes) :
    Response :=
  match opts.onError with
  | some onError => onError req res reason
  | none => ((res.status 401).header (ascii "WWW-Authenticate") challenge).setBody (ascii "Unauthorized")

def bearerToken (req : Request) : Option Bytes :=
  let auth := req.header (ascii "Authorization")
  let kBearer := ascii "Bearer "
  if auth.length ≤ kBearer.length ∨ auth.take kBearer.length ≠ kBearer then none
  else some (auth.drop kBearer.length)

def claimFields (claims : TokenClaims × List (Bytes × Bytes)) : List (Bytes × Bytes) :=
  [(ascii "Sub", claims.1.subject), (ascii "Iss", claims.1.issuer), (ascii "Aud", claims.1.audience)].filter
    (fun field => field.2 ≠ []) ++ claims.2

def bearerAuth (opts : BearerAuthOptions) (verifier : TokenVerifier) (req : Request) (res : Response) :
    Bool × Response :=
  match bearerToken req with
  | none => (false, opts.fail req res (ascii "missing Bearer token") (ascii "Bearer realm=\"qbuem-stack\""))
  | some token =>
    match verifier token with
    | none => (false, opts.fail req res (ascii "token verification failed")
        (ascii "Bearer realm=\"qbuem-stack\",error=\"invalid_token\""))
    | some claims =>
      (true, (claimFields claims).foldl (fun r field => r.header (opts.claimsPrefix ++ field.1) field.2) res)

structure QuotaWindow where
  count : Int
  start : Int

abbrev Windows := AList fun _ : Bytes => QuotaWindow

structure QuotaConfig where
  limit : Int := 1000
  window : Int := 3600
  maxKeys : Nat := 10000
  keyFn : Option (Request → Bytes) := none
  perKeyOverride : Bytes → Option Int := fun _ => none

def nanoseconds : Int := 1000000000

def clampKey (v : Bytes) : Bytes := v.take 256

def defaultKey (req : Request) : Bytes :=
  let sub := req.header (ascii "X-Auth-Sub")
  let tenant := req.header (ascii "X-Tenant-Id")
  let xff := req.header (ascii "X-Forwarded-For")
  let realIp := req.header (ascii "X-Real-IP")
  if sub ≠ [] then clampKey sub
  else if tenant ≠ [] then clampKey tenant
  else if xff ≠ [] then clampKey (match find (ascii ",") xff with
    | none => xff
    | some comma => xff.take comma)
  else if realIp ≠ [] then clampKey realIp
  else ascii "__global__"

def QuotaConfig.key (cfg : QuotaConfig) (req : Request) : Bytes := cfg.keyFn.getD defaultKey req

def QuotaConfig.current (cfg : QuotaConfig) (now : Int) : Option QuotaWindow → QuotaWindow
  | none => ⟨0, now⟩
  | some w => if cfg.window * nanoseconds ≤ now - w.start then ⟨0, now⟩ else w

def QuotaConfig.evict (cfg : QuotaConfig) (begin : Windows → Bytes) (windows : Windows) : Windows :=
  if 0 < cfg.maxKeys ∧ cfg.maxKeys ≤ windows.keys.length then windows.erase (begin windows) else windows

def quota (cfg : QuotaConfig) (begin : Windows → Bytes) (now : Int) (req : Request) (res : Response)
    (windows : Windows) : Bool × Response × Windows :=
  let key := cfg.key req
  let windows := cfg.evict begin windows
  let limit := (cfg.perKeyOverride key).getD cfg.limit
  let w := cfg.current now (windows.lookup key)
  let res := res.header (ascii "X-Quota-Limit") (toStringInt limit)
  if limit ≤ w.count then
    let resetIn := (w.start + cfg.window * nanoseconds - now).tdiv nanoseconds
    let retry := if 0 < resetIn then resetIn else 1
    (false, (((res.header (ascii "X-Quota-Remaining") (ascii "0")).header (ascii "Retry-After")
      (toStringInt retry)).status 429).setBody (ascii "Quota Exceeded"), windows.insert key w)
  else
    (true, res.header (ascii "X-Quota-Remaining") (toStringInt (limit - (w.count + 1))),
      windows.insert key { w with count := w.count + 1 })

def authenticatedQuota (opts : BearerAuthOptions) (verifier : TokenVerifier) (cfg : QuotaConfig)
    (begin : Windows → Bytes) (now : Int) (req : Request) (windows : Windows) : Bool × Response × Windows :=
  match bearerAuth opts verifier req {} with
  | (false, res) => (false, res, windows)
  | (true, res) => quota cfg begin now req res windows

variable (opts : BearerAuthOptions) (verifier : TokenVerifier) (cfg : QuotaConfig) (begin : Windows → Bytes)

def verifiedSubject (req : Request) : Option Bytes :=
  (bearerToken req).bind fun token => (verifier token).map fun claims => claims.1.subject

def charged (now : Int) (req : Request) : List Bytes :=
  (authenticatedQuota opts verifier cfg begin now req ∅).2.2.keys

/-- The request passes with a subject that is not empty and has at most 256 bytes. -/
def Verified (req : Request) (subject : Bytes) : Prop :=
  verifiedSubject verifier req = some subject ∧ subject ≠ [] ∧ subject.length ≤ 256

/-- Of two requests that pass, the windows are the same exactly for equal subjects. -/
def ChargedBySubject (a b : Request) : Prop :=
  ∀ subject subject' now now', Verified verifier a subject → Verified verifier b subject' →
    (charged opts verifier cfg begin now a = charged opts verifier cfg begin now' b ↔ subject = subject')

/-- The field of the request that decides the key: the first of the four that is not empty. -/
def decidingField (req : Request) : Option String :=
  ["X-Auth-Sub", "X-Tenant-Id", "X-Forwarded-For", "X-Real-IP"].find? fun name => req.header (ascii name) ≠ []

/-- Its first 256 bytes, for `X-Forwarded-For` those before a comma; without such a field one key
for all. -/
def fieldKey (req : Request) : Bytes :=
  match decidingField req with
  | some name =>
    let value := req.header (ascii name)
    (if name = "X-Forwarded-For" then value.takeWhile (· ≠ 44) else value).take 256
  | none => ascii "__global__"

variable {opts verifier cfg begin}

/-- A request that passes opens one window, that of its key. -/
theorem charged_of_verified {now : Int} {req : Request} {subject : Bytes}
    (h : verifiedSubject verifier req = some subject) : charged opts verifier cfg begin now req = [cfg.key req] := by
  obtain ⟨token, hToken, hSubject⟩ := Option.bind_eq_some_iff.mp h
  obtain ⟨claims, hClaims, -⟩ := Option.map_eq_some_iff.mp hSubject
  have hPass : (bearerAuth opts verifier req {}).1 = true := by simp [bearerAuth, hToken, hClaims]
  have hKeys : ∀ w, (AList.insert (cfg.key req) w (cfg.evict begin ∅)).keys = [cfg.key req] := by
    intro w
    have hEmpty : cfg.evict begin ∅ = ∅ := by
      unfold QuotaConfig.evict
      split <;> rfl
    rw [hEmpty, AList.keys_insert]
    rfl
  unfold charged authenticatedQuota
  split
  · simp_all
  · unfold quota
    dsimp only
    split <;> exact hKeys _

theorem take_find_comma (text : Bytes) :
    (match find (ascii ",") text with
      | none => text
      | some comma => text.take comma) = text.takeWhile (· ≠ 44) := by
  induction text with
  | nil => rfl
  | cons c text ih =>
    by_cases hComma : c = 44
    · subst hComma
      rfl
    · have hNot : ¬ascii "," <+: c :: text := fun h => hComma (List.cons_prefix_cons.mp h).1.symm
      rw [find, if_neg hNot, List.takeWhile_cons_of_pos (by simpa using hComma), ← ih]
      cases find (ascii ",") text with
      | none | some => rfl

theorem defaultKey_eq (req : Request) : defaultKey req = fieldKey req := by
  unfold defaultKey fieldKey decidingField clampKey
  dsimp only
  rw [take_find_comma]
  split_ifs with hSub hTenant hForwarded hReal
  all_goals simp_all

/-- The windows follow the subjects just if the fields that decide the keys give the same exactly for equal
subjects. They do if each request carries its own subject in `X-Auth-Sub`. -/
theorem chargedBySubject_iff (a b : Request) :
    (ChargedBySubject opts verifier { cfg with keyFn := none } begin a b ↔
      ∀ subject subject', Verified verifier a subject → Verified verifier b subject' →
        (fieldKey a = fieldKey b ↔ subject = subject')) ∧
    ((∀ req ∈ [a, b], ∀ subject, Verified verifier req subject → req.header (ascii "X-Auth-Sub") = subject) →
      ChargedBySubject opts verifier { cfg with keyFn := none } begin a b) := by
  have hKey : ∀ req subject now, Verified verifier req subject →
      charged opts verifier { cfg with keyFn := none } begin now req = [fieldKey req] := by
    intro req subject now hVerified
    rw [charged_of_verified hVerified.1, ← defaultKey_eq]
    rfl
  have hLaw : ChargedBySubject opts verifier { cfg with keyFn := none } begin a b ↔
      ∀ subject subject', Verified verifier a subject → Verified verifier b subject' →
        (fieldKey a = fieldKey b ↔ subject = subject') := by
    constructor
    · intro h subject subject' ha hb
      have hCharged := h subject subject' 0 0 ha hb
      rwa [hKey a subject 0 ha, hKey b subject' 0 hb, List.singleton_inj] at hCharged
    · intro h subject subject' now now' ha hb
      rw [hKey a subject now ha, hKey b subject' now' hb, List.singleton_inj]
      exact h subject subject' ha hb
  refine ⟨hLaw, fun hCarried => hLaw.mpr fun subject subject' ha hb => ?_⟩
  have hOwn : ∀ req ∈ [a, b], ∀ subject, Verified verifier req subject → fieldKey req = subject := by
    intro req hMem subject hVerified
    have hHeader := hCarried req hMem subject hVerified
    have hField : decidingField req = some "X-Auth-Sub" :=
      List.find?_cons_of_pos (by simpa [hHeader] using hVerified.2.1)
    rw [fieldKey, hField]
    dsimp only
    rw [if_neg (by decide), hHeader, List.take_of_length_le hVerified.2.2]
  rw [hOwn a (by simp) subject ha, hOwn b (by simp) subject' hb]

def bearer (token : String) : Request :=
  Request.addHeader {} { bytes := ascii "Authorization" } { bytes := ascii "Bearer " ++ ascii token }

def carrying (subject : String) : Request :=
  (bearer subject).addHeader { bytes := ascii "X-Auth-Sub" } { bytes := ascii subject }

/-- Two requests that carry their subjects have windows of their own. -/
theorem subjects_charged_apart :
    let verifier : TokenVerifier := fun token => some ({ subject := token }, [])
    charged {} verifier {} (fun _ => []) 0 (carrying "alice") ≠
      charged {} verifier {} (fun _ => []) 0 (carrying "bob") := by
  intro verifier hSame
  have hCarried : ∀ name ∈ ["alice", "bob"], verifiedSubject verifier (carrying name) = some (ascii name) ∧
      ascii name ≠ [] ∧ (ascii name).length ≤ 256 ∧
      (carrying name).header (ascii "X-Auth-Sub") = ascii name := by decide +kernel
  obtain ⟨⟨hAlice, hNonempty, hShort, hHeader⟩, ⟨hBob, hNonempty', hShort', hHeader'⟩, -⟩ :=
    List.forall_mem_cons.mp hCarried |>.imp_right List.forall_mem_cons.mp
  have hLaw := (@chargedBySubject_iff {} verifier {} (fun _ => []) (carrying "alice") (carrying "bob")).2 (by
    simp only [List.forall_mem_cons]
    refine ⟨fun subject h => ?_, fun subject h => ?_, by simp⟩
    · rw [hHeader, ← Option.some.inj (hAlice.symm.trans h.1)]
    · rw [hHeader', ← Option.some.inj (hBob.symm.trans h.1)])
  have hEqual := (hLaw _ _ 0 0 ⟨hAlice, hNonempty, hShort⟩ ⟨hBob, hNonempty', hShort'⟩).mp hSame
  exact absurd hEqual (by decide)

/-- Two subjects, one window. -/
theorem subjects_share_a_window :
    let verifier : TokenVerifier := fun token => some ({ subject := token }, [])
    verifiedSubject verifier (bearer "alice") = some (ascii "alice") ∧
      verifiedSubject verifier (bearer "bob") = some (ascii "bob") ∧
      charged {} verifier {} (fun _ => []) 0 (bearer "alice") =
        charged {} verifier {} (fun _ => []) 0 (bearer "bob") := by
  decide +kernel

end Middleware
