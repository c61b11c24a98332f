import QbuemStack.Server.AnsweredResponse
import QbuemStack.Server.Dispatch

/-! The two dispatch paths of `App::listen` against each other. -/
namespace QbuemStack.Server

open Octets Http App
open List (map_cons mem_map nil_append)

inductive Content where
  | file (path : Bytes) (size : Nat)
  | bytes (data : Bytes)
  deriving DecidableEq

def shape (r : Response) : Int × (Bytes × Bytes) × Content × List (Bytes × Bytes) :=
  (r.statusCode, r.framingField,
    if r.hasSendfile then .file r.sendfilePath r.sendfileSize
    else .bytes (if r.chunked then r.chunkBuf else r.body),
    if r.chunked then r.trailers else [])

def SameMessage (e e' : SendEnv) (rq : Request) (r r' : Response) : Prop :=
  r.streamed = r'.streamed ∧
    (r.streamed = false →
      shape (answered e rq r) = shape (answered e' rq r') ∧
      (answered e rq r).cookies = (answered e' rq r').cookies ∧
      ∀ key, key ≠ ascii "Date" →
        (answered e rq r).headers.find key = (answered e' rq r').headers.find key)

def SameEffect : Effect → Effect → Prop
  | .answer e rq r, .answer e' rq' r' =>
    e.keepAlive = e'.keepAlive ∧ e.handled = e'.handled ∧ rq = rq' ∧ SameMessage e e' rq r r'
  | a, b => a = b

def isObserved : Effect → Bool
  | .ran (.asyncMiddleware _) => false
  | _ => true

def observed (log : List Effect) : List Effect := log.filter isObserved

/-- Both dispatches are finished with the same effects. -/
def Agree {σ : Type} (d d' : Frame σ × Option (Proc σ)) : Prop :=
  d.2.isNone ∧ d'.2.isNone ∧ List.Forall₂ SameEffect (observed d.1.log) (observed d'.1.log)

section Message

variable {e e' : SendEnv}

theorem find_stamp (e : SendEnv) (r : Response) {key : Bytes} (h : key ≠ ascii "Date") : (stamp e r).headers.find key =
      if key = ascii "Keep-Alive" ∧ e.keepAlive = true then
        some (ascii "timeout=30, max=" ++ toStringInt ((MAX_REQUESTS : Int) - e.handled))
      else if key = ascii "Connection" then some e.connection else r.headers.find key := by
  unfold stamp
  cases hKeep : e.keepAlive with
  | true | false => simp [Response.header, HeaderMap.find_set, h]

theorem sameMessage_self (hKeep : e.keepAlive = e'.keepAlive) (hHandled : e.handled = e'.handled)
    (rq : Request) (r : Response) : SameMessage e e' rq r r := by
  have hConnection : e.connection = e'.connection := by
    rw [SendEnv.connection, SendEnv.connection, hKeep]
  refine ⟨rfl, fun _ => ?_⟩
  unfold answered
  split_ifs with hNotModified
  · refine ⟨rfl, rfl, ?_⟩
    intro key hKey
    simp [notModifiedResponse, Response.header, HeaderMap.find_set, hKey, hConnection]
  · obtain ⟨hs, hStamp⟩ := stamp_shape e (applyRange rq r)
    obtain ⟨hs', hStamp'⟩ := stamp_shape e' (applyRange rq r)
    refine ⟨?_, ?_, ?_⟩
    · rw [hStamp, hStamp']
      rfl
    · rw [hStamp, hStamp']
    · intro key hKey
      rw [find_stamp e _ hKey, find_stamp e' _ hKey, hKeep, hHandled, hConnection]

theorem settle_same (keepAlive : Bool) : ∀ x ∈ settle keepAlive, SameEffect x x := by
  cases keepAlive <;> simp [settle, SameEffect]

end Message

section Chain

variable {σ ε : Type}

def Like (s s' : Frame σ) : Prop :=
  s' = { s with log := s'.log } ∧ observed s.log = observed s'.log

theorem Like.refl (s : Frame σ) : Like s s := ⟨rfl, rfl⟩

theorem observed_append (l l' : List Effect) : observed (l ++ l') = observed l ++ observed l' :=
  List.filter_append ..

variable {s s' : Frame σ}

theorem Like.emit (h : Like s s') (effects : List Effect) : Like (s.emit effects) (s'.emit effects) := by
  obtain ⟨hSame, hLog⟩ := h
  constructor
  · rw [hSame]
    rfl
  · simp only [Frame.emit, observed_append, hLog]

theorem Like.apply (h : Like s s') (mw : Middleware σ) (rq : Request) :
    Like (mw.apply rq s) (mw.apply rq s') ∧ mw.continues rq s = mw.continues rq s' := by
  obtain ⟨hEmit, hLog⟩ := h.emit [.ran (.middleware mw.id)]
  obtain ⟨hSame, -⟩ := h
  refine ⟨⟨?_, hLog⟩, ?_⟩
  · rw [hSame]
    rfl
  · rw [hSame]
    rfl

theorem Like.invoke (h : Like s s') (app : App σ ε) (headFallback : Bool) (handler : Handler σ ε) (rq : Request) :
    Like (invoke app headFallback handler rq s) (invoke app headFallback handler rq s') := by
  obtain ⟨hEmit, hLog⟩ := h.emit [.ran (.handler handler.id (rq.reread s.mem))]
  obtain ⟨hSame, -⟩ := h
  constructor
  · rw [hSame]
    rfl
  · have hMem : s'.mem = s.mem := by rw [hSame]
    unfold Server.invoke
    rw [hMem]
    exact hLog

theorem Like.finish (h : Like s s') (env : ServerEnv) (keepAlive : Bool) (rq : Request) :
    Like (finish env keepAlive rq s) (finish env keepAlive rq s') := by
  have hSame := h.1
  rw [hSame]
  have hEmit := h.emit (.answer (env.send keepAlive s.handled) (rq.reread s.mem) s.response ::
    settle keepAlive)
  rw [hSame] at hEmit
  exact hEmit

def passOn (id : Nat) : AnyMiddleware σ := .async ⟨id, .next (.done true)⟩

abbrev endWith (t : Frame σ → Frame σ) : Proc σ := .act t fun _ => .done true

def insertAt (mws : List (AnyMiddleware σ)) (k : Nat) (mw : AnyMiddleware σ) : List (AnyMiddleware σ) :=
  mws.take k ++ mw :: mws.drop k

/-- A chain of synchronous middlewares in front of a tail that does not suspend runs like the loop
of the synchronous path. -/
theorem runMwChain_sync (rq : Request) (t : Frame σ → Frame σ) (mws : List (Middleware σ)) (s : Frame σ) :
    (runMwChain rq (endWith t) (mws.map .sync)).run s =
      match runMiddlewares rq (mws.map .sync) s with
      | (true, s') => (t s', none)
      | (false, s') => (s', none) := by
  induction mws generalizing s with
  | nil => rfl
  | cons mw mws ih =>
    simp only [map_cons, runMwChain, Proc.run, runMiddlewares]
    split_ifs with hContinues
    · exact ih (mw.apply rq s)
    · rfl

theorem bind_run_none {p : Proc σ} {g : Bool → Proc σ} (h : p.run s = (s', none)) (hg : ∀ ok, g ok = .done true) :
    (p.bind g).run s = (s', none) := by
  induction p generalizing s with
  | done ok =>
    rw [Proc.bind, hg]
    exact h
  | act f k ih =>
    exact ih s h
  | await k => cases h

theorem runMwChain_finishes (rq : Request) (t : Frame σ → Frame σ) (mws : List (Middleware σ)) (s : Frame σ) :
    ∃ s', (runMwChain rq (endWith t) (mws.map .sync)).run s = (s', none) := by
  rw [runMwChain_sync]
  split
  all_goals exact ⟨_, rfl⟩

theorem Like.pass (h : Like s s') (id : Nat) : Like s (s'.emit [.ran (.asyncMiddleware id)]) := by
  obtain ⟨hSame, hLog⟩ := h
  constructor
  · rw [hSame]
    rfl
  · have hNone : observed [.ran (.asyncMiddleware id)] = [] := rfl
    simp only [Frame.emit, observed_append, hNone, List.append_nil, hLog]

section Insert

variable (rq : Request) (t : Frame σ → Frame σ)
  (hTail : ∀ {s s'}, Like s s' → Like (t s) (t s'))

include hTail

theorem Like.chain (mws : List (Middleware σ)) {s s' : Frame σ} (h : Like s s') :
    Like ((runMwChain rq (endWith t) (mws.map .sync)).run s).1
      ((runMwChain rq (endWith t) (mws.map .sync)).run s').1 := by
  induction mws generalizing s s' with
  | nil => exact hTail h
  | cons mw mws ih =>
    obtain ⟨hApply, hContinues⟩ := h.apply mw rq
    simp only [map_cons, runMwChain, Proc.run, ← hContinues]
    split_ifs
    · exact ih hApply
    · exact hApply

theorem runMwChain_insert (id : Nat) (mws : List (Middleware σ)) (k : Nat) {s s' : Frame σ} (h : Like s s') :
    let out := (runMwChain rq (endWith t) (insertAt (mws.map .sync) k (passOn id))).run s'
    out.2 = none ∧ Like ((runMwChain rq (endWith t) (mws.map .sync)).run s).1 out.1 := by
  have hFront : ∀ (rest : List (Middleware σ)) {s s' : Frame σ}, Like s s' →
      ((runMwChain rq (endWith t) (passOn id :: rest.map .sync)).run s').2 = none ∧
      Like ((runMwChain rq (endWith t) (rest.map .sync)).run s).1
        ((runMwChain rq (endWith t) (passOn id :: rest.map .sync)).run s').1 := by
    intro rest s s' h
    obtain ⟨final, hFinal⟩ := runMwChain_finishes rq t rest (s'.emit [.ran (.asyncMiddleware id)])
    have hRun : (runMwChain rq (endWith t) (passOn id :: rest.map .sync)).run s' =
        (final, none) := bind_run_none hFinal fun _ => rfl
    have hLike := Like.chain rq t hTail rest (h.pass id)
    rw [hFinal] at hLike
    rw [hRun]
    exact ⟨rfl, hLike⟩
  induction mws generalizing k s s' with
  | nil =>
    have hNil := hFront [] h
    simpa [insertAt] using hNil
  | cons mw mws ih =>
    cases k with
    | zero => exact hFront (mw :: mws) h
    | succ k =>
      obtain ⟨hApply, hContinues⟩ := h.apply mw rq
      simp only [insertAt, map_cons, List.take_succ_cons, List.drop_succ_cons, List.cons_append,
        runMwChain, Proc.run, ← hContinues]
      split_ifs
      · exact ih k hApply
      · exact ⟨rfl, hApply⟩

end Insert

/-- Each synchronous middleware that is run does the same for the two requests, in the state reached
by then. -/
def ActAlike (rq rq' : Request) : List (AnyMiddleware σ) → Frame σ → Prop
  | [], _ => True
  | .async _ :: mws, s => ActAlike rq rq' mws s
  | .sync mw :: mws, s =>
    mw.run (rq'.reread s.mem) s.response s.world = mw.run (rq.reread s.mem) s.response s.world ∧
      (mw.continues rq s = true → ActAlike rq rq' mws (mw.apply rq s))

theorem ActAlike.refl (rq : Request) (mws : List (AnyMiddleware σ)) (s : Frame σ) : ActAlike rq rq mws s := by
  induction mws generalizing s with
  | nil => trivial
  | cons mw mws ih =>
    cases mw with
    | async => exact ih s
    | sync mw => exact ⟨rfl, fun _ => ih (mw.apply rq s)⟩

abbrev rans (ids : List Nat) : List Effect := ids.map fun id => .ran (.middleware id)

/-- The loop for two requests on which the middlewares act alike: the same ones run, and they leave
the same response and world. Storage and request number stay as they were. -/
theorem ActAlike.runMiddlewares {rq rq' : Request} {mws : List (AnyMiddleware σ)} {s : Frame σ}
    (h : ActAlike rq rq' mws s) :
    ∃ cont ids r w, ∀ log,
      runMiddlewares rq mws { s with log := log } =
        (cont, { s with response := r, world := w, log := log ++ rans ids }) ∧
      Server.runMiddlewares rq' mws { s with log := log } =
        (cont, { s with response := r, world := w, log := log ++ rans ids }) := by
  induction mws generalizing s with
  | nil => exact ⟨true, [], s.response, s.world, fun log => by simp [Server.runMiddlewares]⟩
  | cons mw mws ih =>
    cases mw with
    | async mw => exact ih h
    | sync mw =>
      obtain ⟨hSame, hRest⟩ := h
      have hFirst : ∀ log, mw.apply rq' { s with log := log } = mw.apply rq { s with log := log } ∧
          mw.continues rq' { s with log := log } = mw.continues rq s ∧
          mw.continues rq { s with log := log } = mw.continues rq s := by
        intro log
        simp only [Middleware.apply, Middleware.continues, hSame, Frame.emit, and_self]
      simp only [Server.runMiddlewares, hFirst]
      by_cases hContinues : mw.continues rq s = true
      · obtain ⟨cont, ids, r, w, hRun⟩ := ih (hRest hContinues)
        refine ⟨cont, mw.id :: ids, r, w, fun log => ?_⟩
        have hLog : log ++ rans (mw.id :: ids) = log ++ [.ran (.middleware mw.id)] ++ rans ids :=
          List.append_cons ..
        rw [if_pos hContinues, if_pos hContinues, hLog]
        exact hRun (log ++ [.ran (.middleware mw.id)])
      · refine ⟨false, [mw.id], (mw.apply rq s).response, (mw.apply rq s).world, fun log => ?_⟩
        rw [if_neg hContinues, if_neg hContinues]
        exact ⟨rfl, rfl⟩

end Chain

section Compare

variable {σ ε : Type}

def App.withPass (app : App σ ε) (k id : Nat) : App σ ε :=
  { app with
    router := { app.router with
      middlewares := insertAt app.router.middlewares k (passOn id) } }

variable (app : App σ ε)

theorem App.route_withPass (k id : Nat) (rq : Request) : (app.withPass k id).route rq = app.route rq := rfl

variable {mws : List (Middleware σ)}

theorem hasAsync_sync (hMws : app.router.middlewares = mws.map .sync) : app.hasAsyncMiddlewares = false := by
  rw [hasAsyncMiddlewares, hMws]
  simp [isAsync]

theorem hasAsync_withPass (k id : Nat) : (app.withPass k id).hasAsyncMiddlewares = true := by
  simp [hasAsyncMiddlewares, withPass, insertAt, passOn, isAsync]

/-- With a handler, each middleware acts alike with and without the route parameters and none stops
the request; without one there is no middleware at all. -/
def Transparent (app : App σ ε) (env : ServerEnv) (mws : List (Middleware σ)) (rq : Request) (s : Frame σ) : Prop :=
  match app.route (rq.reread s.mem) with
  | (some _, params, _) =>
    ActAlike rq (App.setParams env params rq) (mws.map .sync) { s with response := {} } ∧
      (runMiddlewares rq (mws.map .sync) { s with response := {} }).1 = true
  | (none, _, _) => mws = []

theorem log_handled (env : ServerEnv) (keepAlive headFallback : Bool) (h : Handler σ ε) (rq : Request) (s : Frame σ) :
    (finish env keepAlive rq (invoke app headFallback h rq s)).log =
      (s.log ++ [.ran (.handler h.id (rq.reread s.mem))]) ++
        .answer (env.send keepAlive s.handled) (rq.reread s.mem)
          (invoke app headFallback h rq s).response :: settle keepAlive := rfl

theorem observed_rans (ids : List Nat) : observed (rans ids) = rans ids :=
  List.filter_eq_self.mpr (List.forall_mem_map.mpr fun _ _ => rfl)

theorem observed_answer (e : SendEnv) (rq : Request) (r : Response) (keepAlive : Bool) :
    observed (.answer e rq r :: settle keepAlive) = .answer e rq r :: settle keepAlive := by
  cases keepAlive <;> rfl

theorem observed_handled (env : ServerEnv) (keepAlive headFallback : Bool) (h : Handler σ ε) (rq : Request)
    (s : Frame σ) {ids : List Nat} (hLog : s.log = rans ids) :
    observed (finish env keepAlive rq (invoke app headFallback h rq s)).log =
      (rans ids ++ [.ran (.handler h.id (rq.reread s.mem))]) ++
        .answer (env.send keepAlive s.handled) (rq.reread s.mem)
          (invoke app headFallback h rq s).response :: settle keepAlive := by
  rw [log_handled, hLog, List.append_assoc, observed_append, observed_rans]
  cases keepAlive <;> rfl

section Paths

variable (hMws : app.router.middlewares = mws.map .sync) (env env' : ServerEnv) (keepAlive : Bool) {rq : Request}
    {s : Frame σ} (k id : Nat) {h : Handler σ ε} {params : Params} {headFallback : Bool}

/-- What the path with the passing middleware shows of a request without a route: the answer and
nothing before it. -/
theorem observed_unrouted (hLog : s.log = []) (hRoute : app.route (rq.reread s.mem) = (none, params, headFallback)) :
    (dispatch (app.withPass k id) env keepAlive rq s).2 = none ∧
      observed (dispatch (app.withPass k id) env keepAlive rq s).1.log =
        .answer (env.send keepAlive s.handled) (rq.reread s.mem) (app.unrouted (rq.reread s.mem) {}) ::
          settle keepAlive := by
  have hPassing : dispatch (app.withPass k id) env keepAlive rq s =
      (finish env keepAlive rq { s with response := app.unrouted (rq.reread s.mem) {} }, none) := by
    simp only [dispatch, route_withPass, hRoute, hasAsync_withPass, if_true]
    rfl
  rw [hPassing, finish, Frame.emit]
  exact ⟨rfl, by simp only [hLog, nil_append, observed_answer]⟩

include hMws

theorem dispatch_withPass (hRoute : app.route (rq.reread s.mem) = (some (.sync h), params, headFallback)) :
    (dispatch (app.withPass k id) env keepAlive rq s).2 = none ∧
      observed (dispatch (app.withPass k id) env keepAlive rq s).1.log =
        observed (match runMiddlewares (setParams env params rq) (mws.map .sync)
            { s with response := {} } with
          | (true, s') => finish env keepAlive (setParams env params rq)
              (invoke app headFallback h (setParams env params rq) s')
          | (false, s') => s').log := by
  generalize hRouted : setParams env params rq = routed
  have hTail : ∀ {s s' : Frame σ}, Like s s' →
      Like (finish env keepAlive routed (invoke app headFallback h routed s))
        (finish env keepAlive routed (invoke app headFallback h routed s')) :=
    fun hLike => (hLike.invoke app headFallback h routed).finish env keepAlive routed
  have hChain := runMwChain_insert routed
    (fun s => finish env keepAlive routed (invoke app headFallback h routed s)) hTail id mws k
    (Like.refl { s with response := {} })
  have hDispatch : dispatch (app.withPass k id) env keepAlive rq s =
      (runMwChain routed (.act (fun s => finish env keepAlive routed
        (invoke app headFallback h routed s)) fun _ => .done true)
          (insertAt (mws.map .sync) k (passOn id))).run { s with response := {} } := by
    simp only [dispatch, route_withPass, hRoute, hasAsync_withPass, if_true, hRouted]
    rw [← hMws]
    rfl
  rw [hDispatch]
  refine ⟨hChain.1, ?_⟩
  rw [← hChain.2.2, runMwChain_sync]
  split <;> rfl

theorem dispatch_sync (found : Option (Handler σ ε))
    (hRoute : app.route (rq.reread s.mem) = (found.map .sync, params, headFallback)) : dispatch app env keepAlive rq s =
      match runMiddlewares rq (mws.map .sync) { s with response := {} } with
      | (true, s') => (match found with
        | some h => finish env keepAlive (setParams env params rq)
            (invoke app headFallback h (setParams env params rq) s')
        | none => finish env keepAlive rq { s' with response := app.unrouted (rq.reread s'.mem) s'.response }, none)
      | (false, s') => (s'.emit [.answer (env.send keepAlive s'.handled) (rq.reread s'.mem) s'.response,
          .unregister, .close], none) := by
  simp only [dispatch, hRoute, hasAsync_sync app hMws, Bool.false_eq_true, if_false, hMws]
  cases runMiddlewares rq (mws.map .sync) { s with response := {} } with
  | mk cont s' => cases cont <;> cases found <;> rfl

/-- A routed request: both paths run the same middlewares, then the handler in the same state. -/
theorem agree_routed (hOrder : env.order = env'.order) (hLog : s.log = [])
    (hRoute : app.route (rq.reread s.mem) = (some (.sync h), params, headFallback))
    (hAlike : ActAlike rq (setParams env params rq) (mws.map .sync) { s with response := {} })
    (hPass : (runMiddlewares rq (mws.map .sync) { s with response := {} }).1 = true) :
    Agree (dispatch app env keepAlive rq s) (dispatch (app.withPass k id) env' keepAlive rq s) := by
  have hParams : setParams env' params rq = setParams env params rq := by
    rw [setParams, setParams, hOrder]
  obtain ⟨hDone, hSeeing⟩ := dispatch_withPass app hMws env' keepAlive k id hRoute
  obtain ⟨cont, ids, r, w, hRun⟩ := hAlike.runMiddlewares
  obtain ⟨hPlain, hRouted⟩ := hRun s.log
  have hPlain' : runMiddlewares rq (mws.map .sync) { s with response := {} } = _ := hPlain
  have hRouted' : runMiddlewares (setParams env params rq) (mws.map .sync) { s with response := {} } = _ :=
    hRouted
  rw [hPlain'] at hPass
  obtain rfl : cont = true := hPass
  rw [hParams, hRouted'] at hSeeing
  rw [Agree, hDone, hSeeing, dispatch_sync app hMws env keepAlive (some h) hRoute, hPlain']
  simp only [hLog, nil_append]
  refine ⟨rfl, rfl, ?_⟩
  rw [observed_handled _ _ _ _ _ _ _ rfl, observed_handled _ _ _ _ _ _ _ rfl]
  refine List.rel_append (List.forall₂_same.mpr ?_)
    (.cons ⟨rfl, rfl, rfl, @sameMessage_self (env.send keepAlive s.handled) (env'.send keepAlive s.handled)
      rfl rfl _ _⟩ (List.forall₂_same.mpr (settle_same keepAlive)))
  intro z hz
  rcases List.mem_append.mp hz with hRan | hHandler
  · obtain ⟨id, -, rfl⟩ := mem_map.mp hRan
    rfl
  · rw [List.mem_singleton.mp hHandler]
    rfl

theorem agree_unrouted (hNone : mws = []) (hLog : s.log = [])
    (hRoute : app.route (rq.reread s.mem) = (none, params, headFallback)) :
    Agree (dispatch app env keepAlive rq s) (dispatch (app.withPass k id) env' keepAlive rq s) := by
  subst hNone
  obtain ⟨hDone, hPassing⟩ := observed_unrouted app env' keepAlive k id hLog hRoute
  rw [Agree, hDone, hPassing, dispatch_sync app hMws env keepAlive none hRoute]
  refine ⟨rfl, rfl, ?_⟩
  simp only [List.map_nil, runMiddlewares, finish, Frame.emit, hLog, nil_append, observed_answer]
  exact .cons ⟨rfl, rfl, rfl, @sameMessage_self (env.send keepAlive s.handled) (env'.send keepAlive s.handled)
    rfl rfl _ _⟩ (List.forall₂_same.mpr (settle_same keepAlive))

end Paths

def SyncHandlers (app : App σ ε) : Prop :=
  ∀ method path params h, (app.router.matchRoute method path params).1 = some h → ∃ sh, h = .sync sh

theorem route_sync {app : App σ ε} (hSync : SyncHandlers app) {rq : Request}
    {h : HandlerVariant σ ε} {params : Params} {headFallback : Bool}
    (hRoute : app.route rq = (some h, params, headFallback)) : ∃ sh, h = .sync sh := by
  unfold route at hRoute
  cases hFirst : app.router.matchRoute rq.method rq.path.bytes .empty with
  | mk found params' =>
    rw [hFirst] at hRoute
    cases found with
    | some h' =>
      cases hRoute
      exact hSync _ _ _ h (by rw [hFirst])
    | none =>
      simp only at hRoute
      split_ifs at hRoute
      · cases hSecond : app.router.matchRoute .get rq.path.bytes params' with
        | mk found params'' =>
          rw [hSecond] at hRoute
          cases found with
          | some h' =>
            cases hRoute
            exact hSync _ _ _ h (by rw [hSecond])
          | none => cases hRoute
      · cases hRoute

/-- For every request and every position: registering the passing middleware changes nothing when the middlewares
act alike with and without the route parameters and let the request pass. -/
theorem dispatch_agree (app : App σ ε) (mws : List (Middleware σ))
    (hMws : app.router.middlewares = mws.map .sync) (hSync : SyncHandlers app)
    (env env' : ServerEnv) (hOrder : env.order = env'.order) (keepAlive : Bool) (rq : Request)
    (s : Frame σ) (hLog : s.log = []) (k id : Nat) (hTransparent : Transparent app env mws rq s) :
    Agree (dispatch app env keepAlive rq s) (dispatch (app.withPass k id) env' keepAlive rq s) := by
  cases hRoute : app.route (rq.reread s.mem) with
  | mk found rest =>
    obtain ⟨params, headFallback⟩ := rest
    rw [Transparent, hRoute] at hTransparent
    cases found with
    | none => exact agree_unrouted app hMws env env' keepAlive k id hTransparent hLog hRoute
    | some h =>
      obtain ⟨sh, rfl⟩ := route_sync hSync hRoute
      obtain ⟨hAlike, hPass⟩ := hTransparent
      exact agree_routed app hMws env env' keepAlive k id hOrder hLog hRoute hAlike hPass

end Compare

section Runs

def fixedEnv : ServerEnv :=
  { order := .insertion, date := epochDate, date_line := epochDate_line }

def preflight : Middleware Unit :=
  ⟨0, fun rq r w => if rq.method = .options then (false, r.status 204, w) else (true, r, w)⟩

def greet : Handler Unit Unit := ⟨0, fun _ r w => (none, r.setBody (ascii "hi"), w)⟩

def preflightApp : App Unit Unit :=
  { router :=
      { prefixRoutes := [⟨.get, [slash], .sync greet⟩], middlewares := [.sync preflight] } }

def frameOf (mem : Bytes) : Frame Unit :=
  { mem := mem, handled := 1, response := {}, world := (), log := [] }

def getRequest : Request := { method := .get, path := { off := 4, bytes := [slash] } }

def getBytes : Bytes := [71, 69, 84, space, slash, space]

def optionsRequest : Request := { method := .options, path := { off := 8, bytes := [slash] } }

def optionsBytes : Bytes := [79, 80, 84, 73, 79, 78, 83, space, slash, space]

theorem preflightApp_sync : SyncHandlers preflightApp := by
  intro method path params h hFound
  have hTree : (preflightApp.router.routes method).search path params = (none, params) := by
    cases path <;> rfl
  unfold Router.matchRoute at hFound
  rw [hTree] at hFound
  simp only at hFound
  split at hFound
  · rename_i pr hPrefix
    have hIn := List.mem_of_find?_eq_some hPrefix
    rw [List.mem_singleton.mp hIn] at hFound
    exact ⟨_, (Option.some.inj hFound).symm⟩
  · cases hFound

/-- A GET request passes through. -/
theorem dispatch_agree_get : SyncHandlers preflightApp ∧
      Agree (dispatch preflightApp fixedEnv true getRequest (frameOf getBytes))
        (dispatch (preflightApp.withPass 0 0) fixedEnv true getRequest (frameOf getBytes)) := by
  refine ⟨preflightApp_sync, dispatch_agree preflightApp [preflight] rfl preflightApp_sync fixedEnv
    fixedEnv rfl true getRequest _ rfl 0 0 ?_⟩
  exact ⟨⟨rfl, fun _ => trivial⟩, rfl⟩

/-- The preflight answered by the middleware becomes a 405. -/
theorem preflight_not_answered : ¬Agree (dispatch preflightApp fixedEnv true optionsRequest (frameOf optionsBytes))
      (dispatch (preflightApp.withPass 0 0) fixedEnv true optionsRequest (frameOf optionsBytes)) := by
  rintro ⟨-, -, hSame⟩
  rw [(observed_unrouted preflightApp fixedEnv true 0 0 rfl rfl).2] at hSame
  cases hSame with
  | cons hFirst _ => cases hFirst

end Runs

end QbuemStack.Server
