import QbuemStack.Base.Json
import QbuemStack.Security.JwtAction

/-! What a run of the token check guarantees: the token was verified, the identity is the one in the
token, the token is in time. -/
namespace Security

open Octets

section History

variable (config : JwtAuthConfig)

def Step.stored (step : Step) : Option (Bytes × JwtClaims) :=
  match step.asked, step.outcome with
  | some (token, true), .next claims => some (token, claims)
  | _, _ => none

def lastStore (slot : Nat) : List Call → Option (Bytes × JwtClaims)
  | [] => none
  | call :: past =>
    match (operate config (run config past) call).stored with
    | some (token, claims) =>
      if LRUCache.index config.cacheSize token = slot then some (token, claims) else lastStore slot past
    | none => lastStore slot past

def entryOf : Option (Bytes × JwtClaims) → CacheEntry
  | none => {}
  | some (token, claims) => ⟨LRUCache.hash token, claims, true⟩

def cacheAfter (cache : Option (List CacheEntry)) : Option (Bytes × JwtClaims) → Option (List CacheEntry)
  | none => cache
  | some (token, claims) => cache.map fun entries => LRUCache.put entries token claims

theorem operate_cases (s : State) (call : Call) :
    ((operate config s call).stored = none ∧ (operate config s call).state.cache = s.cache) ∨
      ∃ token, operate config s call = validate config s call token := by
  unfold operate
  cases extractToken config call.msg with
  | none => exact .inl ⟨rfl, rfl⟩
  | some token =>
    dsimp only
    cases consult config s token call.now with
    | undefined | hit => exact .inl ⟨rfl, rfl⟩
    | miss => exact .inr ⟨token, rfl⟩

theorem operate_cache (s : State) (call : Call) :
    (operate config s call).state.cache = cacheAfter s.cache (operate config s call).stored := by
  rcases operate_cases config s call with ⟨hStored, hCache⟩ | ⟨token, hStep⟩
  · rw [hStored, hCache]
    rfl
  · rw [hStep]
    rcases validate_cases config s call token with
      ⟨view, result, -, hOutcome, hCache, -, hAsked⟩ | ⟨-, ⟨error, hOutcome⟩, hCache⟩
    · rw [hCache, Step.stored, hAsked, hOutcome]
      rfl
    · rw [hCache, Step.stored, hOutcome]
      rcases (validate config s call token).asked with _ | ⟨_, _ | _⟩ <;> rfl

theorem put_range {size : Nat} (f : Nat → CacheEntry) (token : Bytes) (claims : JwtClaims) :
    LRUCache.put ((List.range size).map f) token claims = (List.range size).map fun slot =>
        if LRUCache.index size token = slot then ⟨LRUCache.hash token, claims, true⟩ else f slot := by
  apply List.ext_getElem
  · simp [LRUCache.put]
  · intro slot hSlot hSlot'
    simp only [LRUCache.put, List.getElem_set, List.getElem_map, List.getElem_range, List.length_map, List.length_range]

theorem run_cache (calls : List Call) : (run config calls).cache = if config.cacheSize > 0 then
      some ((List.range config.cacheSize).map fun slot => entryOf (lastStore config slot calls)) else none := by
  induction calls with
  | nil =>
    simp only [run, initial, lastStore, entryOf]
    split_ifs with hSize
    · congr 1
      apply List.ext_getElem <;> simp
    · rfl
  | cons call past ih =>
    rw [run, operate_cache]
    cases hStored : (operate config (run config past) call).stored with
    | none => simp only [ih, lastStore, hStored, cacheAfter]
    | some store =>
      obtain ⟨token, claims⟩ := store
      simp only [ih, lastStore, hStored, cacheAfter]
      split_ifs with hSize
      · rw [Option.map_some, put_range]
        congr 2
        funext slot
        split_ifs
        all_goals rfl
      · rfl

/-- The last store into the slot of the token, when the hashes agree. -/
def remembered (past : List Call) (token : Bytes) : Option (Bytes × JwtClaims) :=
  if config.cacheSize > 0 then
    (lastStore config (LRUCache.index config.cacheSize token) past).filter fun store =>
      LRUCache.hash store.1 == LRUCache.hash token
  else none

variable (past : List Call)

theorem get_entryOf (token : Bytes) (hSize : config.cacheSize > 0) :
    LRUCache.get ((List.range config.cacheSize).map fun slot => entryOf (lastStore config slot past)) token =
      (remembered config past token).map Prod.snd := by
  have hIndex : LRUCache.index config.cacheSize token < config.cacheSize := Nat.mod_lt _ hSize
  simp only [LRUCache.get, List.length_map, List.length_range, remembered, if_pos hSize]
  rw [List.getD_eq_getElem?_getD, List.getElem?_map, List.getElem?_range hIndex, Option.map_some, Option.getD_some]
  cases lastStore config (LRUCache.index config.cacheSize token) past with
  | none => rfl
  | some store =>
    simp only [entryOf, Bool.true_and, Option.filter]
    split_ifs <;> rfl

def Cached.ofStore (now : Int) : Option (Bytes × JwtClaims) → Cached
  | none => .miss
  | some (_, claims) =>
    match claims.isValidAt now config.leewaySec with
    | none => .undefined
    | some true => .hit claims
    | some false => .miss

/-- The cache answers from the last store into the slot. -/
theorem consult_run (token : Bytes) (now : Int) :
    consult config (run config past) token now = Cached.ofStore config now (remembered config past token) := by
  rw [consult, run_cache]
  by_cases hSize : config.cacheSize > 0
  · simp only [if_pos hSize, get_entryOf config past token hSize]
    cases remembered config past token with
    | none | some => rfl
  · rw [if_neg hSize, remembered, if_neg hSize]
    rfl

def Accepted (calls : List Call) (token : Bytes) : Prop :=
  ∃ call past, call :: past <:+ calls ∧ (operate config (run config past) call).asked = some (token, true)

variable {token : Bytes} {claims : JwtClaims} {s : State} {calls : List Call} {call : Call}

theorem Accepted.mono {more : List Call} (h : Accepted config calls token) (hMore : calls <:+ more) :
    Accepted config more token := by
  obtain ⟨call, past, hSuffix, hAsked⟩ := h
  exact ⟨call, past, hSuffix.trans hMore, hAsked⟩

theorem stored_cases (h : (operate config s call).stored = some (token, claims)) :
    (operate config s call).asked = some (token, true) ∧
      ∃ result, ∀ name, claims.view name = viewOf token result name := by
  rcases operate_cases config s call with ⟨hStored, -⟩ | ⟨token', hStep⟩
  · rw [hStored] at h
    cases h
  · rw [hStep] at h ⊢
    rcases validate_cases config s call token' with
      ⟨view, result, hPasses, hOutcome, -, -, hAsked⟩ | ⟨-, ⟨error, hOutcome⟩, -⟩
    · rw [Step.stored, hAsked, hOutcome] at h
      obtain ⟨rfl, rfl⟩ : token' = token ∧ (buildClaims view result s.decodeBuf).1 = claims := by
        simpa using h
      exact ⟨hAsked, result, buildClaims_view hPasses.parsed result s.decodeBuf⟩
    · rw [Step.stored, hOutcome] at h
      rcases hAsked : (validate config s call token').asked with _ | ⟨_, _ | _⟩ <;>
        rw [hAsked] at h <;> cases h

theorem lastStore_accepted {slot : Nat} (h : lastStore config slot calls = some (token, claims)) :
    Accepted config calls token ∧ ∃ result, ∀ name, claims.view name = viewOf token result name := by
  induction calls with
  | nil => cases h
  | cons call past ih =>
    have hPast : lastStore config slot past = some (token, claims) →
        Accepted config (call :: past) token ∧ ∃ result, ∀ name, claims.view name = viewOf token result name :=
      fun hOld => ⟨(ih hOld).1.mono config (List.suffix_cons call past), (ih hOld).2⟩
    rw [lastStore] at h
    cases hStored : (operate config (run config past) call).stored with
    | none =>
      rw [hStored] at h
      exact hPast h
    | some store =>
      obtain ⟨token', claims'⟩ := store
      simp only [hStored] at h
      split_ifs at h with hSlot
      · obtain ⟨rfl, rfl⟩ : token' = token ∧ claims' = claims := by simpa using h
        obtain ⟨hAsked, hViews⟩ := stored_cases config hStored
        exact ⟨⟨call, past, List.suffix_rfl, hAsked⟩, hViews⟩
      · exact hPast h

theorem remembered_accepted {past : List Call} {other : Bytes}
    (h : remembered config past token = some (other, claims)) :
    Accepted config past other ∧ ∃ result, ∀ name, claims.view name = viewOf other result name := by
  unfold remembered at h
  split_ifs at h
  exact lastStore_accepted config (Option.filter_eq_some_iff.mp h).1

def Unanswered (past : List Call) (token : Bytes) (now : Int) : Prop :=
  ∀ other claims, remembered config past token = some (other, claims) →
    claims.isValidAt now config.leewaySec = some false

theorem operate_stored {store : Option (Bytes × JwtClaims)} (hToken : extractToken config call.msg = some token)
    (hCached : consult config s token call.now = Cached.ofStore config call.now store) :
    (∃ other claims, store = some (other, claims) ∧ claims.isValidAt call.now config.leewaySec = none ∧
      operate config s call = { outcome := .undefined, state := s }) ∨
    (∃ other claims, store = some (other, claims) ∧ claims.isValidAt call.now config.leewaySec = some true ∧
      operate config s call =
        { outcome := .next claims
          state := { s with stats := { s.stats with cacheHits := s.stats.cacheHits + 1 } } }) ∨
    (∀ other claims, store = some (other, claims) → claims.isValidAt call.now config.leewaySec = some false) ∧
      operate config s call = validate config s call token := by
  simp only [operate, hToken, hCached]
  cases store with
  | none => exact .inr (.inr ⟨nofun, rfl⟩)
  | some store =>
    obtain ⟨other, claims⟩ := store
    simp only [Cached.ofStore]
    cases hTime : claims.isValidAt call.now config.leewaySec with
    | none => exact .inl ⟨other, claims, rfl, hTime, rfl⟩
    | some inTime =>
      cases inTime with
      | true => exact .inr (.inl ⟨other, claims, rfl, hTime, rfl⟩)
      | false =>
        refine .inr (.inr ⟨fun other' claims' h => ?_, rfl⟩)
        cases h
        exact hTime

theorem operate_refused (h : extractToken config call.msg = none) :
    operate config s call = { outcome := .stop .permissionDenied, state := s } := by
  rw [operate, h]

end History

section Signature

variable (config : JwtAuthConfig)

/-- Whenever a message is let through, the verifier has accepted its token, now or earlier. -/
def SignatureSound (calls : List Call) : Prop :=
  ∀ call past, call :: past <:+ calls →
    (operate config (run config past) call).outcome ≠ .undefined ∧
    ∀ claims, (operate config (run config past) call).outcome = .next claims →
      ∃ token, extractToken config call.msg = some token ∧ Accepted config (call :: past) token

/-- A call that the cache answers carries the token of the stored claims, or another one that was
accepted. -/
def CollisionFree (calls : List Call) : Prop :=
  ∀ call past token other claims, call :: past <:+ calls → extractToken config call.msg = some token →
    remembered config past token = some (other, claims) →
    ∃ inTime, claims.isValidAt call.now config.leewaySec = some inTime ∧
      (inTime = true → other = token ∨ Accepted config past token)

/-- Only accepted tokens are let through, exactly if the cache never answers for a colliding token
that was not. -/
theorem signatureSound_iff (calls : List Call) : SignatureSound config calls ↔ CollisionFree config calls := by
  constructor
  · intro hSound call past token other claims hSuffix hToken hStore
    obtain ⟨hDefined, hNext⟩ := hSound call past hSuffix
    rcases operate_stored config hToken (consult_run config past token call.now) with
      ⟨_, _, -, -, hStep⟩ | ⟨other', claims', hStore', hTime, hStep⟩ | ⟨hUnanswered, -⟩
    · exact absurd (by rw [hStep]) hDefined
    · rw [hStore, Option.some.injEq, Prod.mk.injEq] at hStore'
      obtain ⟨rfl, rfl⟩ := hStore'
      refine ⟨true, hTime, fun _ => .inr ?_⟩
      obtain ⟨token', hToken', call', past', hSuffix', hAsked'⟩ := hNext claims (by rw [hStep])
      rw [hToken, Option.some.injEq] at hToken'
      subst hToken'
      rcases List.suffix_cons_iff.mp hSuffix' with hEq | hOld
      · obtain ⟨rfl, rfl⟩ : call' = call ∧ past' = past := by simpa using hEq
        rw [hStep] at hAsked'
        cases hAsked'
      · exact ⟨call', past', hOld, hAsked'⟩
    · exact ⟨false, hUnanswered other claims hStore, nofun⟩
  · intro hFree call past hSuffix
    cases hToken : extractToken config call.msg with
    | none =>
      rw [operate_refused config hToken]
      exact ⟨by simp, nofun⟩
    | some token =>
      rcases operate_stored config hToken (consult_run config past token call.now) with
        ⟨other, claims, hStore, hTime, -⟩ | ⟨other, claims, hStore, hTime, hStep⟩ | ⟨-, hStep⟩
      · obtain ⟨inTime, hSome, -⟩ := hFree call past token other claims hSuffix hToken hStore
        rw [hTime] at hSome
        cases hSome
      · obtain ⟨inTime, hSome, hSame⟩ := hFree call past token other claims hSuffix hToken hStore
        rw [hTime, Option.some.injEq] at hSome
        refine ⟨by simp [hStep], fun _ _ => ⟨token, rfl, ?_⟩⟩
        apply Accepted.mono config _ (List.suffix_cons call past)
        rcases hSame hSome.symm with rfl | hAccepted
        · exact (remembered_accepted config hStore).1
        · exact hAccepted
      · rcases validate_cases config (run config past) call token with
          ⟨view, result, -, hOutcome, -, -, hAsked⟩ | ⟨-, ⟨error, hOutcome⟩, -⟩
        · refine ⟨by simp [hStep, hOutcome], fun _ _ => ⟨token, rfl, call, past, List.suffix_rfl, ?_⟩⟩
          rw [hStep, hAsked]
        · rw [hStep, hOutcome]
          exact ⟨by simp, nofun⟩

def textCall (token : Bytes) (accepted : List Bytes) : Call where
  msg := .text token
  now := 0
  verify := fun t => if t ∈ accepted then some {} else none

def collidingFirst : Bytes := ascii "7mohtcOFVz.e30.x"

def collidingSecond : Bytes := ascii "c1E51sSEyx.e30.x"

def collidingPast : List Call := [textCall collidingFirst [collidingFirst]]

/-- The verifier accepts only the first token and is never asked about the second, which is let
through. -/
theorem signatureSound_collision : ¬SignatureSound {} (textCall collidingSecond [collidingFirst] :: collidingPast) := by
  intro hSound
  have hOutcome : (operate {} (run {} collidingPast) (textCall collidingSecond [collidingFirst])).outcome =
      .next { sub := .result [], iss := .result [], aud := .result [] } := by decide +kernel
  have hAsked : (operate {} (run {} collidingPast) (textCall collidingSecond [collidingFirst])).asked = none := by
    decide +kernel
  have hFirst : (operate {} (run {} []) (textCall collidingFirst [collidingFirst])).asked =
      some (collidingFirst, true) := by decide +kernel
  obtain ⟨token, hToken, call, past, hSuffix, hAccepted⟩ := (hSound _ _ List.suffix_rfl).2 _ hOutcome
  obtain rfl : collidingSecond = token := Option.some.inj hToken
  rcases List.suffix_cons_iff.mp hSuffix with hEq | hSuffix
  · obtain ⟨rfl, rfl⟩ := List.cons.inj hEq
    rw [hAsked] at hAccepted
    cases hAccepted
  · rcases List.suffix_cons_iff.mp hSuffix with hEq | hSuffix
    · obtain ⟨rfl, rfl⟩ := List.cons.inj hEq
      rw [hFirst, Option.some.injEq, Prod.mk.injEq] at hAccepted
      exact absurd hAccepted.1 (by decide)
    · cases List.suffix_nil.mp hSuffix

end Signature

section Identity

variable (config : JwtAuthConfig)

/-- The text is the string member of that name, or nothing or empty if there is none. -/
def ReadsMember (payload : Bytes) (name : Name) (text : Option Bytes) : Prop :=
  (∀ value, Json.HasString payload name.key value → text = some value) ∧
    ((∀ value, ¬Json.HasString payload name.key value) → text = none ∨ text = some [])

/-- The claims handed on read as the string members of the token's own payload. -/
def IdentityFaithful (calls : List Call) : Prop :=
  ∀ call past, call :: past <:+ calls →
    (operate config (run config past) call).outcome ≠ .undefined ∧
    ∀ claims token, (operate config (run config past) call).outcome = .next claims →
      extractToken config call.msg = some token →
      ∀ name, ReadsMember (payloadOf token) name
        ((claims.view name).read (operate config (run config past) call).state.decodeBuf)

def textAt (buffer : Bytes) (place : Option (Nat × Nat)) : Option Bytes :=
  place.map fun p => slice buffer p.1 p.2

/-- The members of the payload stand in the buffer where the scanner saw them in the token `source`. -/
def ShowsMembers (buffer token source : Bytes) : Prop :=
  ∀ name : Name, ReadsMember (payloadOf token) name (textAt buffer (jsonFindString (payloadOf source) name.key))

/-- Claims from the cache are read in the buffer as later tokens have left it, claims just built in
the token's own payload. -/
def Undisturbed (calls : List Call) : Prop :=
  ∀ call past token, call :: past <:+ calls → extractToken config call.msg = some token →
    (∀ other claims, remembered config past token = some (other, claims) →
      ∃ inTime, claims.isValidAt call.now config.leewaySec = some inTime ∧
        (inTime = true → ShowsMembers (run config past).decodeBuf token other)) ∧
    (Unanswered config past token call.now → ∀ view result, Passes config call token view result →
      ShowsMembers (payloadOf token) token token)

theorem read_viewOf (buffer token : Bytes) (result : TokenClaims) (name : Name) :
    (viewOf token result name).read buffer = textAt buffer (jsonFindString (payloadOf token) name.key) := by
  unfold viewOf textAt
  cases jsonFindString (payloadOf token) name.key with
  | none | some => rfl

theorem Name.key_ne_nil (name : Name) : name.key ≠ [] := by
  cases name <;> decide

theorem textAt_extracted {payload buffer : Bytes} (h : payload <+: buffer) (name : Name) :
    textAt buffer (jsonFindString payload name.key) = textAt payload (jsonFindString payload name.key) := by
  obtain ⟨rest, rfl⟩ := h
  unfold textAt
  cases hPlace : jsonFindString payload name.key with
  | none => rfl
  | some place =>
    have hInside := jsonFindString_le name.key_ne_nil hPlace
    rw [Option.map_some, Option.map_some, slice_append _ _ _ _ hInside]

def aliceToken : Bytes := ascii "e30.eyJzdWIiOiJhbGljZSJ9.x"

def bobbyToken : Bytes := ascii "e30.eyJzdWIiOiJib2JieSJ9.x"

def mixedPast : List Call :=
  [textCall bobbyToken [aliceToken, bobbyToken], textCall aliceToken [aliceToken, bobbyToken]]

def aliceObject : Json.Object where
  members := [{ name := Json.plainStr (ascii "sub"), content := .str (Json.plainStr (ascii "alice")) }]

end Identity

section Time

variable (config : JwtAuthConfig)

def Outcome.isNext : Outcome → Bool
  | next _ => true
  | _ => false

def InTime (payload : Bytes) (now leeway : Int) : Prop :=
  (∃ exp, Json.HasInt payload (ascii "exp") exp ∧ now ≤ exp + leeway) ∧
    ∀ nbf, Json.HasInt payload (ascii "nbf") nbf → nbf ≤ now + leeway

/-- A message is let through only if its token is in time, and just when it is without a cache. -/
def TimeValid (s : State) (call : Call) : Prop :=
  (operate config s call).outcome ≠ .undefined ∧
  (∀ token, extractToken config call.msg = some token → (operate config s call).outcome.isNext = true →
    InTime (payloadOf token) call.now config.leewaySec) ∧
  ((operate config s call).outcome.isNext = true ↔
    (operate config { s with cache := none } call).outcome.isNext = true)

def lookup (s : State) (token : Bytes) : Option JwtClaims := s.cache.bind fun entries => LRUCache.get entries token

/-- The payload has an expiry, which `json_find_int` reads and whose sum with the leeway fits, and
no start that lies ahead. -/
structure ProperTimes (payload : Bytes) (now : Int) : Prop where
  required : config.requireExp = true
  expiry : ∃ exp : Nat, jsonFindInt payload (ascii "exp") = some exp ∧ Json.HasInt payload (ascii "exp") exp ∧
    Fits (exp + config.leewaySec)
  started : ∀ nbf, Json.HasInt payload (ascii "nbf") nbf → nbf ≤ now + config.leewaySec

/-- The claims were built from this very token, which the verifier still accepts, and their start is
compared without overflow. -/
structure OwnClaims (call : Call) (token : Bytes) (claims : JwtClaims) : Prop where
  built : ∃ view old buffer, SIMDJwtParser.parse token = some view ∧ claims = (buildClaims view old buffer).1
  accepted : ∃ result, call.verify token = some result ∧
    (config.requireSub = true → (viewOf token result .sub).isEmpty = false)
  fits : 0 ≤ claims.nbf → Fits (claims.nbf - config.leewaySec)

/-- A token that the verifier accepts has proper times, and what the cache holds for it is its own. -/
structure Timely (s : State) (call : Call) (token : Bytes) : Prop where
  times : ∀ view result, SIMDJwtParser.parse token = some view → call.verify token = some result →
    ProperTimes config (payloadOf token) call.now
  cached : ∀ claims, lookup s token = some claims → OwnClaims config call token claims

variable (s : State) (call : Call)

/-- The uncached path lets a token through exactly if it passes. -/
theorem validate_isNext_iff (token : Bytes) :
    (validate config s call token).outcome.isNext = true ↔ ∃ view result, Passes config call token view result := by
  rcases validate_cases config s call token with
    ⟨view, result, hPasses, hOutcome, -⟩ | ⟨hNot, ⟨error, hOutcome⟩, -⟩
  · rw [hOutcome]
    exact ⟨fun _ => ⟨view, result, hPasses⟩, fun _ => rfl⟩
  · rw [hOutcome]
    exact ⟨fun h => (Bool.false_ne_true h).elim, fun ⟨view, result, hPasses⟩ => (hNot view result hPasses).elim⟩

variable {token : Bytes}

theorem consult_lookup (token : Bytes) (now : Int) :
    consult config s token now = Cached.ofStore config now ((lookup s token).map fun claims => (token, claims)) := by
  unfold consult lookup
  cases s.cache with
  | none => rfl
  | some entries =>
    rw [Option.bind_some]
    dsimp only
    cases LRUCache.get entries token with
    | none | some => rfl

theorem uncached_isNext_iff (h : extractToken config call.msg = some token) :
    (operate config { s with cache := none } call).outcome.isNext = true ↔
      ∃ view result, Passes config call token view result := by
  have hStep : operate config { s with cache := none } call = validate config { s with cache := none } call token := by
    rw [operate, h]
    rfl
  rw [hStep, validate_isNext_iff]

variable {config call} {view : JwtView} {claims : JwtClaims} {result : TokenClaims}

/-- With proper times a token is expired just when its own expiry is over. -/
theorem ProperTimes.isExpired (h : ProperTimes config (payloadOf token) call.now)
    (hParse : SIMDJwtParser.parse token = some view) :
    ∃ exp : Nat, view.claimInt (ascii "exp") = some exp ∧ Json.HasInt (payloadOf token) (ascii "exp") exp ∧
      Fits (exp + config.leewaySec) ∧
      (view.isExpired call.now config.leewaySec = false ↔ call.now ≤ exp + config.leewaySec) := by
  obtain ⟨exp, hFind, hMember, hFits⟩ := h.expiry
  have hRead : view.claimInt (ascii "exp") = some exp := by rw [claimInt_parsed hParse, hFind]
  refine ⟨exp, hRead, hMember, hFits, ?_⟩
  simp [JwtView.isExpired, hRead, JwtView.deadline, hFits]

theorem Timely.inTime (h : Timely config s call token) (hPasses : Passes config call token view result) :
    InTime (payloadOf token) call.now config.leewaySec := by
  have hTimes := h.times view result hPasses.parsed hPasses.accepted
  obtain ⟨exp, -, hMember, -, hExpired⟩ := hTimes.isExpired hPasses.parsed
  exact ⟨⟨exp, hMember, hExpired.mp (hPasses.inTime hTimes.required)⟩, hTimes.started⟩

/-- Claims of the token's own are compared without overflow, and in time only if the token still
passes. -/
theorem OwnClaims.passes (h : OwnClaims config call token claims)
    (hTimes : ∀ view result, SIMDJwtParser.parse token = some view → call.verify token = some result →
      ProperTimes config (payloadOf token) call.now) :
    ∃ inTime, claims.isValidAt call.now config.leewaySec = some inTime ∧
      (inTime = true → ∃ view result, Passes config call token view result) := by
  obtain ⟨⟨view, old, buffer, hParse, rfl⟩, ⟨result, hAccepted, hNamed⟩, hNbf⟩ := h
  have hProper := hTimes view result hParse hAccepted
  obtain ⟨exp, hRead, -, hFits, hExpired⟩ := hProper.isExpired hParse
  generalize hClaims : (buildClaims view old buffer).1 = claims at hNbf ⊢
  have hExp : claims.exp = exp := by
    rw [← hClaims]
    simp [buildClaims, hRead]
  by_cases hLate : call.now ≤ exp + config.leewaySec
  · have hPasses : Passes config call token view result :=
      ⟨hParse, fun _ => hExpired.mpr hLate, hAccepted, hNamed⟩
    by_cases hStart : 0 ≤ claims.nbf
    · refine ⟨!decide (call.now < claims.nbf - config.leewaySec), ?_, fun _ => ⟨view, result, hPasses⟩⟩
      simp [JwtClaims.isValidAt, hExp, JwtClaims.int64, hFits, hNbf hStart, hStart, not_lt.mpr hLate]
    · refine ⟨true, ?_, fun _ => ⟨view, result, hPasses⟩⟩
      simp [JwtClaims.isValidAt, hExp, JwtClaims.int64, hFits, hStart, hLate]
  · refine ⟨false, ?_, fun hFalse => (Bool.false_ne_true hFalse).elim⟩
    simp [JwtClaims.isValidAt, hExp, JwtClaims.int64, hFits, hLate]

def dueToken : Bytes := ascii "e30.eyJleHAiOjl9.x"

def dueObject : Json.Object where
  members := [{ name := Json.plainStr (ascii "exp"), content := .int false 9 }]

def bareToken : Bytes := ascii "e30.e30.x"

def earlyToken : Bytes := ascii "e30.eyJleHAiOjksIm5iZiI6OX0.x"

def earlyObject : Json.Object where
  members := [{ name := Json.plainStr (ascii "exp"), content := .int false 9 },
    { name := Json.plainStr (ascii "nbf"), content := .int false 9 }]

end Time

end Security
