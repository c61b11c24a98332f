import QbuemStack.Server.Connection
import QbuemStack.Server.Coroutine
import QbuemStack.Server.DispatchAgreement

/-! The read callback of `App::listen_unix`, and when it serves a request as the one of
`App::listen` does. -/
namespace QbuemStack.Server

open Octets Http HttpParser App

section Callback

variable {σ ε : Type} (app : App σ ε) (env : ServerEnv)

/-- Asynchronous handlers are passed over, and an exception keeps what the handler has set. -/
def unixHandle (rq : Request) (s : Frame σ) : Frame σ :=
  match app.router.matchRoute (rq.reread s.mem).method (rq.reread s.mem).path.bytes .empty with
  | (none, _) => { s with response := app.unrouted (rq.reread s.mem) s.response }
  | (some (.sync h), params) =>
    let rq := (App.setParams env params rq).reread s.mem
    match h.run rq s.response s.world with
    | (none, r, w) => { s.emit [.ran (.handler h.id rq)] with response := r, world := w }
    | (some _, r, w) =>
      { s.emit [.ran (.handler h.id rq)] with
        response := (r.status 500).setBody (ascii "Internal Server Error"), world := w }
  | (some (.async _), _) => s

def unixStamp (r : Response) (connection : Bytes) : Response :=
  (r.header (ascii "Date") env.date).header (ascii "Connection") connection

def unixServe (ctx : ConnCtx) (w : σ) (rq : Request) : Turn σ :=
  let ctx := { ctx with buf := ctx.buf.clear, handled := ctx.handled + 1 }
  let rq := rq.setRemoteAddr ctx.clientIp
  let keepAlive := ctx.handled < MAX_REQUESTS
  match runMiddlewares rq app.router.middlewares
      { mem := ctx.buf.mem, handled := ctx.handled, response := {}, world := w
        log := [.dispatched (rq.reread ctx.buf.mem)] } with
  | (false, s) =>
    let r := unixStamp env s.response (ascii "close")
    { ctx := ctx, world := s.world, log := s.log ++ [.reply env.order r r.body, .unregister, .close] }
  | (true, s) =>
    let s := unixHandle app env rq s
    let r := unixStamp env s.response (if keepAlive then ascii "keep-alive" else ascii "close")
    { ctx := ctx, world := s.world
      log := s.log ++ .reply env.order r (if r.chunked then r.chunkBuf else r.body) ::
        settle keepAlive }

def unixRead (ctx : ConnCtx) (w : σ) (bytes : Bytes) : Turn σ :=
  let start := .disarmIdle :: (if ctx.buf.size = 0 then [.armRead] else [])
  let ctx := { ctx with buf := ctx.buf.append bytes }
  match HttpParser.parse {} ctx.buf.data {} with
  | (_, _, none) =>
    { ctx := ctx, world := w
      log := start ++ .cancelRead :: refuse env (refusal env 400 (ascii "Bad Request")) }
  | (p, rq, some _) =>
    if p.isComplete then
      let turn := unixServe app env ctx w rq
      { turn with log := start ++ .cancelRead :: turn.log }
    else { ctx := ctx, world := w, log := start }

end Callback

inductive Seen where
  | middleware (id : Nat)
  | asyncMiddleware (id : Nat)
  | handler (id : Nat) (params : List (Bytes × Bytes))
  deriving DecidableEq

def seen (log : List Effect) : List Seen :=
  log.filterMap fun x => match x with
    | .ran (.middleware id) => some (.middleware id)
    | .ran (.asyncMiddleware id) => some (.asyncMiddleware id)
    | .ran (.handler id rq) => some (.handler id rq.paramsFlat.entries)
    | _ => none

def answers (log : List Effect) : List (SendEnv × Request × Response) :=
  log.filterMap fun x => match x with
    | .answer e rq r => some (e, rq, r)
    | _ => none

def replies (log : List Effect) : List (Response × Bytes) :=
  log.filterMap fun x => match x with
    | .reply _ r content => some (r, content)
    | _ => none

/-- The answer and the reply have the same status, body framing and body. -/
def SameWire (fs : FileSystem) (answer : SendEnv × Request × Response) (reply : Response × Bytes) : Prop :=
  let sent := answered answer.1 answer.2.1 answer.2.2
  answer.2.2.streamed = false ∧ sent.statusCode = reply.1.statusCode ∧
    sent.framingField = reply.1.framingField ∧ payload fs sent = reply.2

/-- Everything a suspended coroutine still does, whatever happens between its resumptions. -/
inductive Finishes {σ : Type} : Option (Proc σ × Response) → List Effect → Prop where
  | done : Finishes none []
  | resume (k : Proc σ) (r : Response) (mem : Bytes) (handled : Nat) (w : σ) (later : List Effect)
      (h : Finishes
        ((k.run { mem := mem, handled := handled, response := r, world := w, log := [] }).2.map
          fun next => (next,
            (k.run { mem := mem, handled := handled, response := r, world := w, log := [] }).1.response))
        later) :
      Finishes (some (k, r))
        ((k.run { mem := mem, handled := handled, response := r, world := w, log := [] }).1.log ++ later)

/-- The same code runs on the same parameters, and one answer goes out on each socket, the same one. -/
def SameService (fs : FileSystem) (log log' : List Effect) : Prop :=
  seen log = seen log' ∧
    ∃ answer reply, answers log = [answer] ∧ replies log' = [reply] ∧ SameWire fs answer reply

def ServesLike {σ : Type} (fs : FileSystem) (tcp unix : Turn σ) : Prop :=
  ∀ later, Finishes tcp.suspended later → SameService fs (tcp.log ++ later) unix.log

section Logs

variable (l l' : List Effect)

theorem seen_append : seen (l ++ l') = seen l ++ seen l' :=
  List.filterMap_append ..

theorem answers_append : answers (l ++ l') = answers l ++ answers l' :=
  List.filterMap_append ..

theorem replies_append : replies (l ++ l') = replies l ++ replies l' :=
  List.filterMap_append ..

variable {σ : Type} (rq : Request) (ids : List Nat)

theorem runMiddlewares_async {mws : List (AnyMiddleware σ)} (s : Frame σ)
    (h : ∀ mw ∈ mws, isAsync mw = true) : runMiddlewares rq mws s = (true, s) := by
  induction mws with
  | nil => rfl
  | cons mw mws ih =>
    cases mw with
    | async mw => exact ih fun m hm => h m (List.mem_cons_of_mem _ hm)
    | sync mw => cases h _ List.mem_cons_self

theorem answers_rans : answers (rans ids) = [] := by
  simp [answers]

theorem replies_rans : replies (rans ids) = [] := by
  simp [replies]

end Logs

section Later

variable {σ : Type}

theorem Finishes.eq_nil {later : List Effect} (h : Finishes (none : Option (Proc σ × Response)) later) :
    later = [] := by
  cases h
  rfl

theorem servesLike_of_none {fs : FileSystem} {tcp unix : Turn σ} (h : tcp.suspended = none) :
    ServesLike fs tcp unix ↔ SameService fs tcp.log unix.log := by
  unfold ServesLike
  rw [h]
  constructor
  · intro hAll
    simpa using hAll [] .done
  · intro hSame later hLater
    rw [hLater.eq_nil, List.append_nil]
    exact hSame

end Later

section Comparison

variable {σ ε : Type} (app : App σ ε) (env : ServerEnv)

def taken (bytes : Bytes) : Bytes := (({} : Buffer).append bytes).clear.mem

def firstFrame (ip : Bytes) (w : σ) (bytes : Bytes) (rq : Request) : Frame σ :=
  { mem := taken bytes, handled := 1, response := {}, world := w
    log := [.dispatched ((rq.setRemoteAddr ip).reread (taken bytes))] }

abbrev view (bytes : Bytes) (rq : Request) : Request := rq.reread (taken bytes)

abbrev firstRun (ip : Bytes) (w : σ) (bytes : Bytes) (rq : Request) : Bool × Frame σ :=
  runMiddlewares (rq.setRemoteAddr ip) app.router.middlewares (firstFrame ip w bytes rq)

def staysOpen (rq : Request) : Bool := rq.header (ascii "Connection") ≠ ascii "close"

def tcpHandler (rq : Request) (cont : Bool) : Option (HandlerVariant σ ε × Params × Bool) :=
  if cont then (app.route rq).1.map fun h => (h, (app.route rq).2) else none

def unixHandler (rq : Request) (cont : Bool) : Option (Handler σ ε × Params) :=
  if cont then
    match app.router.matchRoute rq.method rq.path.bytes .empty with
    | (some (.sync h), params) => some (h, params)
    | _ => none
  else none

def tcpResponse (rq : Request) (t : Bool × Frame σ) : Response :=
  if t.1 then
    match app.route (rq.reread t.2.mem) with
    | (some (.sync h), params, headFallback) =>
      (invoke app headFallback h (App.setParams env params rq) t.2).response
    | (some (.async _), _) => t.2.response
    | (none, _) => app.unrouted (rq.reread t.2.mem) t.2.response
  else t.2.response

def unixReply (rq : Request) (u : Bool × Frame σ) : Response × Bytes :=
  if u.1 then
    let r := unixStamp env (unixHandle app env rq u.2).response (ascii "keep-alive")
    (r, if r.chunked then r.chunkBuf else r.body)
  else
    let r := unixStamp env u.2.response (ascii "close")
    (r, r.body)

/-- The response goes out as it is: not streamed, no answer 304, no range of it, no file and no
chunks. -/
structure SentWhole (rq : Request) (r : Response) : Prop where
  notStreamed : r.streamed = false
  modified : notModified rq r = false
  noRange : rq.header (ascii "Range") = [] ∨ r.statusCode ≠ 200
  noFile : r.sendfilePath = []
  notChunked : r.chunked = false

/-- There is no handler, or a synchronous one for the request's own method that does the same for
both requests and throws nothing. -/
def HandledAlike (rq rq' : Request) (s : Frame σ) : Prop :=
  match app.route (rq.reread s.mem) with
  | (none, _, _) => True
  | (some (.async _), _, _) => False
  | (some (.sync h), params, headFallback) =>
    headFallback = false ∧ ∃ r w,
      h.run ((App.setParams env params rq).reread s.mem) s.response s.world = (none, r, w) ∧
        h.run ((App.setParams env params rq').reread s.mem) s.response s.world = (none, r, w)

/-- Every middleware is asynchronous and there is no route. -/
def Untouched (view : Request) : Prop :=
  (app.route view).1 = none ∧ ∀ mw ∈ app.router.middlewares, App.isAsync mw = true

/-- Middlewares and handler act alike for the two peer addresses, and what they leave goes out as it
is. -/
structure TreatedAlike (ip ip' : Bytes) (w : σ) (bytes : Bytes) (rq : Request) : Prop where
  middlewares : ActAlike (rq.setRemoteAddr ip) (rq.setRemoteAddr ip') app.router.middlewares
    (firstFrame ip w bytes rq)
  handler : (firstRun app ip w bytes rq).1 = true →
    HandledAlike app env (rq.setRemoteAddr ip) (rq.setRemoteAddr ip') (firstRun app ip w bytes rq).2
  response : SentWhole (view bytes rq)
    (tcpResponse app env (rq.setRemoteAddr ip) (firstRun app ip w bytes rq))

/-- The causes by which the two sockets serve a first request alike. -/
structure Unaffected (ip ip' : Bytes) (w : σ) (bytes : Bytes) (rq : Request) : Prop where
  allowed : pathRejected rq.path.bytes = false
  noUpgrade : isUpgrade app rq = false
  code : if app.hasAsyncMiddlewares then Untouched app (view bytes rq)
    else TreatedAlike app env ip ip' w bytes rq

end Comparison

section Facts

variable {σ ε : Type} (app : App σ ε) (env : ServerEnv)

theorem data_first (bytes : Bytes) : (({} : Buffer).append bytes).data = bytes :=
  Buffer.data_append {} bytes

variable {p : HttpParser} {rq : Request} {bytes : Bytes}
  (hParse : HttpParser.parse {} bytes {} = (p, rq, some bytes.length)) (hComplete : p.isComplete = true)

include hParse hComplete

theorem onRead_first (ip : Bytes) (w : σ) : onRead app env { clientIp := ip } w bytes =
      { onComplete app env { clientIp := ip, buf := ({} : Buffer).append bytes } w rq bytes.length with
        log := .disarmIdle :: .armRead :: .cancelRead ::
          (onComplete app env { clientIp := ip, buf := ({} : Buffer).append bytes } w rq
            bytes.length).log } := by
  unfold onRead onData
  simp only [data_first, hParse, hComplete, if_true]
  rfl

theorem unixRead_first (ip : Bytes) (w : σ) : (unixRead app env { clientIp := ip } w bytes).log =
      .disarmIdle :: .armRead :: .cancelRead ::
        (unixServe app env { clientIp := ip, buf := ({} : Buffer).append bytes } w rq).log := by
  unfold unixRead
  simp only [data_first, hParse, hComplete, if_true]
  rfl

end Facts

section Summaries

variable {σ ε : Type} (app : App σ ε) (env : ServerEnv) (w : σ) (bytes : Bytes) (rq : Request)

def handlerSeen (id : Nat) (params : Params) : Seen :=
  .handler id (App.setParams env params rq).paramsFlat.entries

theorem unixServe_eq (ip : Bytes) : (unixServe app env { clientIp := ip, buf := ({} : Buffer).append bytes } w rq).log =
      match firstRun app ip w bytes rq with
      | (false, s) =>
        s.log ++ [.reply env.order (unixStamp env s.response (ascii "close")) s.response.body,
          .unregister, .close]
      | (true, s) =>
        let s := unixHandle app env (rq.setRemoteAddr ip) s
        s.log ++ .reply env.order (unixStamp env s.response (ascii "keep-alive"))
          (if s.response.chunked then s.response.chunkBuf else s.response.body) :: settle true := by
  unfold unixServe
  simp only
  have hFrame : ({ mem := (({} : Buffer).append bytes).clear.mem, handled := 0 + 1, response := {}, world := w
                   log := [.dispatched ((rq.setRemoteAddr ip).reread
                     (({} : Buffer).append bytes).clear.mem)] } : Frame σ) = firstFrame ip w bytes rq := rfl
  rw [hFrame, firstRun]
  generalize runMiddlewares _ _ _ = u
  obtain ⟨cont, s⟩ := u
  cases cont <;> rfl

theorem matchRoute_setRemoteAddr (ip mem : Bytes) :
    app.router.matchRoute ((rq.setRemoteAddr ip).reread mem).method
        ((rq.setRemoteAddr ip).reread mem).path.bytes .empty =
      app.router.matchRoute (rq.reread mem).method (rq.reread mem).path.bytes .empty :=
  rfl

end Summaries

section TcpSummary

variable {σ ε : Type} (app : App σ ε) (env : ServerEnv) (w : σ) (bytes : Bytes) (rq : Request)

def HandlerVariant.id : HandlerVariant σ ε → Nat
  | .sync h => h.id
  | .async h => h.id

theorem answered_congr {rq rq' : Request} (h : rq.headersFlat = rq'.headersFlat) (e : SendEnv)
    (r : Response) : answered e rq r = answered e rq' r := by
  have hHeader : rq.header = rq'.header := by
    funext key
    rw [Request.header, Request.header, h]
  simp only [answered, notModified, applyRange, hHeader]

theorem sameWire_congr {rq rq' : Request} (h : rq.headersFlat = rq'.headersFlat) (fs : FileSystem)
    (e : SendEnv) (r : Response) (reply : Response × Bytes) :
    SameWire fs (e, rq, r) reply ↔ SameWire fs (e, rq', r) reply := by
  simp only [SameWire, answered_congr h]

theorem finish_summary (keepAlive : Bool) (rq : Request) (s : Frame σ) (hAnswers : answers s.log = []) :
    seen (finish env keepAlive rq s).log = seen s.log ∧ answers (finish env keepAlive rq s).log =
        [(env.send keepAlive s.handled, rq.reread s.mem, s.response)] := by
  cases keepAlive <;> simp [finish, Frame.emit, settle, seen, answers_append, hAnswers] <;> rfl

theorem firstFrame_cleared (ip : Bytes) (w : σ) (bytes : Bytes) (rq : Request) :
    { firstFrame ip w bytes rq with response := {} } = firstFrame ip w bytes rq := rfl

theorem route_first (ip : Bytes) (w : σ) : app.route ((rq.setRemoteAddr ip).reread (firstFrame ip w bytes rq).mem) =
    app.route (view bytes rq) := rfl

theorem setParams_paramsFlat (params : Params) (ip : Bytes) :
    (setParams env params (rq.setRemoteAddr ip)).paramsFlat = (setParams env params rq).paramsFlat := by
  rw [setParams_eq, setParams_eq]
  rfl

theorem dispatch_summary (hAsync : app.hasAsyncMiddlewares = false) (keepAlive : Bool) (ip : Bytes) {t : Bool × Frame σ}
    (ht : firstRun app ip w bytes rq = t)
    (hMem : t.2.mem = taken bytes) (hHandled : t.2.handled = 1) (hAnswers : answers t.2.log = [])
    (hSync : ∀ h rest, tcpHandler app (view bytes rq) t.1 ≠ some (.async h, rest)) :
    let d := dispatch app env keepAlive (rq.setRemoteAddr ip) (firstFrame ip w bytes rq)
    d.2 = none ∧
      seen d.1.log = seen t.2.log ++ (tcpHandler app (view bytes rq) t.1).toList.map
        (fun reached => handlerSeen env rq reached.1.id reached.2.1) ∧
      ∃ sent, sent.headersFlat = (view bytes rq).headersFlat ∧
        answers d.1.log =
          [(env.send keepAlive 1, sent, tcpResponse app env (rq.setRemoteAddr ip) t)] := by
  obtain ⟨cont, mem, handled, r, w', log⟩ := t
  subst hMem hHandled
  have hRoute' : app.route ((rq.setRemoteAddr ip).reread (taken bytes)) =
      app.route (view bytes rq) := rfl
  unfold dispatch tcpHandler tcpResponse at *
  simp only [firstFrame_cleared, route_first, hRoute', hAsync, Bool.false_eq_true, if_false, ht]
  generalize app.route (view bytes rq) = found at hSync ⊢
  obtain ⟨handler, params, headFallback⟩ := found
  cases cont with
  | false =>
    refine ⟨rfl, ?_, (rq.setRemoteAddr ip).reread (taken bytes), rfl, ?_⟩
    · simp only [Frame.emit, seen_append]
      rfl
    · simp only [Frame.emit, answers_append, hAnswers]
      rfl
  | true =>
    rcases handler with _ | (h | h)
    · obtain ⟨hSeen, hSent⟩ := finish_summary env keepAlive (rq.setRemoteAddr ip)
        { mem := taken bytes, handled := 1, world := w', log := log
          response := app.unrouted ((rq.setRemoteAddr ip).reread (taken bytes)) r } hAnswers
      refine ⟨rfl, hSeen.trans (List.append_nil _).symm, (rq.setRemoteAddr ip).reread (taken bytes), rfl, ?_⟩
      exact hSent
    · have hHeaders : (setParams env params (rq.setRemoteAddr ip)).headersFlat = rq.headersFlat := by
        rw [setParams_eq]
        rfl
      obtain ⟨hSeen, hSent⟩ := finish_summary env keepAlive
        (setParams env params (rq.setRemoteAddr ip))
        (invoke app headFallback h (setParams env params (rq.setRemoteAddr ip))
          { mem := taken bytes, handled := 1, response := r, world := w', log := log })
        (by
          simp only [invoke, Frame.emit, answers_append, hAnswers]
          rfl)
      refine ⟨rfl, hSeen.trans ?_, (setParams env params (rq.setRemoteAddr ip)).reread (taken bytes),
        ?_, ?_⟩
      · simp only [invoke, Frame.emit, seen_append, if_true, Option.map_some, Option.toList_some,
          List.map_cons, List.map_nil, handlerSeen, ← setParams_paramsFlat env rq params ip]
        rfl
      · simp only [Request.reread, hHeaders]
      · exact hSent
    · exact absurd rfl (hSync h (params, headFallback))

end TcpSummary

section Equivalence

variable {σ ε : Type} {app : App σ ε} {env : ServerEnv} {fs : FileSystem} {tcp unix : Turn σ}

theorem not_servesLike_of_answers (h : tcp.suspended = none ∧ answers tcp.log = []) : ¬ServesLike fs tcp unix := by
  rw [servesLike_of_none h.1]
  rintro ⟨-, answer, reply, hOne, -⟩
  rw [h.2] at hOne
  cases hOne

theorem route_of_unixHandler {rq : Request} {cont : Bool} {h : Handler σ ε} {params : Params}
    (hReached : unixHandler app rq cont = some (h, params)) : app.route rq = (some (.sync h), params, false) := by
  unfold unixHandler at hReached
  unfold route
  split_ifs at hReached
  split at hReached
  · rename_i hMatch
    cases hReached
    rw [hMatch]
  · cases hReached

theorem matchRoute_of_route_none {rq : Request} (h : (app.route rq).1 = none) :
    (app.router.matchRoute rq.method rq.path.bytes .empty).1 = none := by
  unfold route at h
  generalize app.router.matchRoute rq.method rq.path.bytes .empty = found at h ⊢
  obtain ⟨handler, params⟩ := found
  cases handler with
  | none => rfl
  | some handler => cases h

theorem matchRoute_of_route {rq : Request} {handler : HandlerVariant σ ε} {params : Params}
    (h : app.route rq = (some handler, params, false)) :
    app.router.matchRoute rq.method rq.path.bytes .empty = (some handler, params) := by
  unfold route at h
  generalize app.router.matchRoute rq.method rq.path.bytes .empty = found at h
  obtain ⟨own, params'⟩ := found
  cases own with
  | some own =>
    cases h
    rfl
  | none =>
    simp only at h
    split_ifs at h
    split at h
    all_goals cases h

section Handled

variable {rq : Request} {ip ip' : Bytes} {s : Frame σ}

theorem HandledAlike.cases (h : HandledAlike app env (rq.setRemoteAddr ip) (rq.setRemoteAddr ip') s) :
    let view := rq.reread s.mem
    let found := app.router.matchRoute view.method view.path.bytes .empty
    (app.route view).1 = none ∧ found.1 = none ∨
    ∃ handler params r w, app.route view = (some (.sync handler), params, false) ∧
      found = (some (.sync handler), params) ∧
      handler.run ((App.setParams env params (rq.setRemoteAddr ip)).reread s.mem) s.response s.world =
        (none, r, w) ∧
      handler.run ((App.setParams env params (rq.setRemoteAddr ip')).reread s.mem) s.response s.world =
        (none, r, w) := by
  have hView : app.route ((rq.setRemoteAddr ip).reread s.mem) = app.route (rq.reread s.mem) := rfl
  rw [HandledAlike, hView] at h
  cases hRoute : app.route (rq.reread s.mem) with
  | mk handler rest =>
    obtain ⟨params, headFallback⟩ := rest
    rw [hRoute] at h
    rcases handler with _ | (handler | handler)
    · have hNone : (app.route (rq.reread s.mem)).1 = none := by rw [hRoute]
      exact .inl ⟨hNone, matchRoute_of_route_none hNone⟩
    · obtain ⟨rfl, r, w, hTcp, hUnix⟩ := h
      exact .inr ⟨handler, params, r, w, hRoute, matchRoute_of_route hRoute, hTcp, hUnix⟩
    · exact h.elim

/-- The same handler is reached on both sockets, or none is. -/
theorem HandledAlike.reached (h : HandledAlike app env (rq.setRemoteAddr ip) (rq.setRemoteAddr ip') s) :
    tcpHandler app (rq.reread s.mem) true =
      (unixHandler app (rq.reread s.mem) true).map fun reached => (.sync reached.1, reached.2, false) := by
  unfold tcpHandler unixHandler
  rcases h.cases with ⟨hRoute, hNone⟩ | ⟨handler, params, r, w, hRoute, hFound, -, -⟩
  · rw [hRoute]
    generalize app.router.matchRoute _ _ _ = found at hNone
    obtain ⟨own, params⟩ := found
    cases hNone
    rfl
  · rw [hRoute, hFound]
    rfl

/-- What the Unix socket writes is the response of the TCP socket under its own two fields. -/
theorem unixReply_eq {cont : Bool}
    (h : cont = true → HandledAlike app env (rq.setRemoteAddr ip) (rq.setRemoteAddr ip') s)
    (hChunked : (tcpResponse app env (rq.setRemoteAddr ip) (cont, s)).chunked = false) (log : List Effect) :
    ∃ connection, unixReply app env (rq.setRemoteAddr ip') (cont, { s with log := log }) =
      (unixStamp env (tcpResponse app env (rq.setRemoteAddr ip) (cont, s)) connection,
        (tcpResponse app env (rq.setRemoteAddr ip) (cont, s)).body) := by
  cases cont with
  | false => exact ⟨ascii "close", rfl⟩
  | true =>
    have hHandle : (unixHandle app env (rq.setRemoteAddr ip') { s with log := log }).response =
        tcpResponse app env (rq.setRemoteAddr ip) (true, s) := by
      have hView : app.route ((rq.setRemoteAddr ip).reread s.mem) = app.route (rq.reread s.mem) := rfl
      unfold unixHandle tcpResponse
      simp only [hView, matchRoute_setRemoteAddr, if_true]
      rcases (h rfl).cases with ⟨hRoute, hNone⟩ | ⟨handler, params, r, w, hRoute, hFound, hTcp, hUnix⟩
      · generalize app.router.matchRoute _ _ _ = found at hNone ⊢
        generalize app.route _ = routed at hRoute ⊢
        obtain ⟨own, params⟩ := found
        obtain ⟨own', rest⟩ := routed
        cases hNone
        cases hRoute
        rfl
      · simp only [hRoute, hFound, hUnix, invoke, handlerOutcome, hTcp]
        rfl
    refine ⟨ascii "keep-alive", ?_⟩
    unfold unixReply
    rw [if_pos rfl, hHandle]
    simp [unixStamp, Response.header, hChunked]

end Handled

theorem SentWhole.sameWire {rq : Request} {r : Response} (h : SentWhole rq r) (e : SendEnv) (connection : Bytes) :
    SameWire fs (e, rq, r) (unixStamp env r connection, r.body) := by
  have hSame : (applyRange rq r).statusCode = r.statusCode := by
    unfold applyRange
    simp only
    rcases h.noRange with hRange | hStatus
    · split_ifs with hAsked hBytes hPlain
      · exact absurd hRange hAsked.1
      · exact absurd hRange hAsked.1
      all_goals rfl
    · simp only [hStatus, and_false, if_false]
  unfold SameWire
  rw [answered_eq e rq r h.modified hSame]
  refine ⟨h.notStreamed, rfl, rfl, ?_⟩
  simp [payload, Response.hasSendfile, h.noFile, h.notChunked]

theorem notModified_bare (rq : Request) {r : Response} (h : r.headers = .empty) : notModified rq r = false := by
  simp [notModified, Response.getHeader, h, HeaderMap.find, HeaderMap.empty]

theorem sameWire_unrouted (view : Request) (e : SendEnv) (rq : Request) (connection : Bytes) :
    SameWire fs (e, rq, app.unrouted view {})
      (unixStamp env (app.unrouted view {}) connection, (app.unrouted view {}).body) := by
  have hShape : ∃ code text, code ≠ 200 ∧
      app.unrouted view {} = ({ statusCode := code, body := text } : Response) := by
    unfold unrouted
    split_ifs
    · exact ⟨405, _, by decide, rfl⟩
    · exact ⟨404, _, by decide, rfl⟩
  obtain ⟨code, text, hCode, hUnrouted⟩ := hShape
  rw [hUnrouted]
  exact SentWhole.sameWire ⟨rfl, notModified_bare rq rfl, .inr hCode, rfl, rfl⟩ e connection

theorem unixReply_unrouted (app : App σ ε) (env : ServerEnv) (rq : Request) (ip : Bytes) (w : σ) (bytes : Bytes)
    (hMatch : (app.router.matchRoute (view bytes rq).method
      (view bytes rq).path.bytes .empty).1 = none) :
    unixReply app env (rq.setRemoteAddr ip) (true, firstFrame ip w bytes rq) =
      (unixStamp env (app.unrouted (view bytes rq) {}) (ascii "keep-alive"),
        (app.unrouted (view bytes rq) {}).body) := by
  have hHandle : unixHandle app env (rq.setRemoteAddr ip) (firstFrame ip w bytes rq) =
      { firstFrame ip w bytes rq with response := app.unrouted (view bytes rq) {} } := by
    unfold unixHandle
    simp only [firstFrame, matchRoute_setRemoteAddr]
    generalize app.router.matchRoute (view bytes rq).method
      (view bytes rq).path.bytes .empty = matched at hMatch
    obtain ⟨handler, params⟩ := matched
    cases hMatch
    rfl
  have hChunked : (app.unrouted (view bytes rq) {}).chunked = false := by
    unfold unrouted
    split_ifs <;> rfl
  unfold unixReply
  rw [if_pos rfl, hHandle]
  simp [unixStamp, Response.header, hChunked]

section First

variable {p : HttpParser} {rq : Request} {bytes : Bytes}

/-- The middlewares of a first request leave storage and request number alone, and log only which of
them ran. -/
theorem firstRun_log (app : App σ ε) (ip : Bytes) (w : σ) (bytes : Bytes) (rq : Request) :
    let t := firstRun app ip w bytes rq
    t.2.mem = taken bytes ∧ t.2.handled = 1 ∧ answers t.2.log = [] ∧ replies t.2.log = [] := by
  obtain ⟨cont, ids, r, w', hRun⟩ := (ActAlike.refl (rq.setRemoteAddr ip) app.router.middlewares
    (firstFrame ip w bytes rq)).runMiddlewares
  have hFirst : firstRun app ip w bytes rq = _ := (hRun (firstFrame ip w bytes rq).log).1
  rw [hFirst]
  refine ⟨rfl, rfl, ?_, ?_⟩
  · rw [answers_append, answers_rans]
    rfl
  · rw [replies_append, replies_rans]
    rfl

variable (hParse : HttpParser.parse {} bytes {} = (p, rq, some bytes.length))
  (hComplete : p.isComplete = true)

include hParse hComplete

theorem unixRead_summary (app : App σ ε) (env : ServerEnv) (ip : Bytes) (w : σ) :
    let u := firstRun app ip w bytes rq
    seen (unixRead app env { clientIp := ip } w bytes).log =
        seen u.2.log ++ (unixHandler app (view bytes rq) u.1).toList.map
          (fun reached => handlerSeen env rq reached.1.id reached.2) ∧
      replies (unixRead app env { clientIp := ip } w bytes).log =
        [unixReply app env (rq.setRemoteAddr ip) u] := by
  obtain ⟨hMem, -, -, hReplies⟩ := firstRun_log app ip w bytes rq
  have hStart (l) : seen (.disarmIdle :: .armRead :: .cancelRead :: l) = seen l ∧
      replies (.disarmIdle :: .armRead :: .cancelRead :: l) = replies l := ⟨rfl, rfl⟩
  simp only [unixRead_first app env hParse hComplete, hStart, unixServe_eq]
  generalize firstRun app ip w bytes rq = u at hMem hReplies ⊢
  obtain ⟨cont, s⟩ := u
  simp only at hMem hReplies
  cases cont with
  | false =>
    simp only [seen_append, replies_append, hReplies]
    exact ⟨rfl, rfl⟩
  | true =>
    unfold unixReply unixHandler unixHandle
    simp only [hMem, matchRoute_setRemoteAddr, if_true]
    generalize app.router.matchRoute (view bytes rq).method
      (view bytes rq).path.bytes .empty = found
    obtain ⟨handler, params⟩ := found
    rcases handler with _ | (h | h)
    · simp only [seen_append, replies_append, hReplies]
      exact ⟨rfl, rfl⟩
    · simp only
      split <;>
        simp only [Frame.emit, seen_append, replies_append, hReplies, Option.toList_some, List.map_cons,
          List.map_nil, handlerSeen, ← setParams_paramsFlat env rq params ip, List.append_assoc] <;>
        exact ⟨rfl, rfl⟩
    · simp only [seen_append, replies_append, hReplies]
      exact ⟨rfl, rfl⟩

variable (hAllowed : pathRejected rq.path.bytes = false) (hPlain : isUpgrade app rq = false)

include hAllowed hPlain

theorem onRead_dispatch (env : ServerEnv) (ip : Bytes) (w : σ) :
    let d := dispatch app env (staysOpen (view bytes rq)) (rq.setRemoteAddr ip)
      (firstFrame ip w bytes rq)
    (onRead app env { clientIp := ip } w bytes).log = .disarmIdle :: .armRead :: .cancelRead :: d.1.log ∧
      (onRead app env { clientIp := ip } w bytes).suspended = d.2.map fun k => (k, d.1.response) := by
  have hErase : (({} : Buffer).append bytes).erase bytes.length = (({} : Buffer).append bytes).clear := by
    show _ = Buffer.erase _ (0 + bytes.length)
    rw [Nat.zero_add]
  have hKeep : ∀ view : Request,
      decide (view.header (ascii "Connection") ≠ ascii "close" ∧ 0 + 1 < MAX_REQUESTS) =
        staysOpen view := by
    intro view
    simp [staysOpen, MAX_REQUESTS]
  simp only [onRead_first app env hParse hComplete, onComplete, hAllowed, hPlain, Bool.false_eq_true,
    if_false, serve, hErase, hKeep]
  exact ⟨rfl, rfl⟩

/-- With asynchronous middlewares and no route, only the two sockets' own answers go out. -/
theorem servesLike_untouched (env : ServerEnv) (hAsync : app.hasAsyncMiddlewares = true)
    (hUntouched : Untouched app (view bytes rq)) (ip ip' : Bytes) (w : σ) :
    ServesLike fs (onRead app env { clientIp := ip } w bytes) (unixRead app env { clientIp := ip' } w bytes) := by
  obtain ⟨hLog, hSuspended⟩ := onRead_dispatch hParse hComplete hAllowed hPlain env ip w
  obtain ⟨hSeenUnix, hReply⟩ := unixRead_summary hParse hComplete app env ip' w
  obtain ⟨hRoute, hAll⟩ := hUntouched
  have hMatch := matchRoute_of_route_none hRoute
  have hUnixHandler : ∀ cont, unixHandler app (view bytes rq) cont = none := by
    intro cont
    rw [Option.eq_none_iff_forall_ne_some]
    intro reached hReached
    rw [route_of_unixHandler hReached] at hRoute
    cases hRoute
  unfold dispatch at hLog hSuspended
  simp only [route_first, firstFrame_cleared, hAsync, if_true] at hLog hSuspended
  generalize app.route (view bytes rq) = found at hRoute hLog hSuspended
  obtain ⟨handler, params, headFallback⟩ := found
  cases hRoute
  obtain ⟨hSeen, hSent⟩ := finish_summary env (staysOpen (view bytes rq)) (rq.setRemoteAddr ip)
    { firstFrame ip w bytes rq with
      response := app.unrouted ((rq.setRemoteAddr ip).reread (taken bytes)) {} } rfl
  rw [firstRun, runMiddlewares_async _ _ hAll] at hSeenUnix hReply
  rw [hUnixHandler] at hSeenUnix
  rw [unixReply_unrouted app env rq ip' w bytes hMatch] at hReply
  rw [servesLike_of_none (by rw [hSuspended]; rfl), hLog]
  exact ⟨hSeen.trans hSeenUnix.symm, _, _, hSent, hReply, sameWire_unrouted _ _ _ _⟩

/-- Without asynchronous middlewares, by what the middlewares on each socket have left. -/
theorem servesLike_summary (env : ServerEnv) (hAsync : app.hasAsyncMiddlewares = false)
    (ip ip' : Bytes) (w : σ)
    (hSeen : seen (firstRun app ip w bytes rq).2.log = seen (firstRun app ip' w bytes rq).2.log)
    (hReached : tcpHandler app (view bytes rq) (firstRun app ip w bytes rq).1 =
      (unixHandler app (view bytes rq) (firstRun app ip' w bytes rq).1).map
        fun reached => (.sync reached.1, reached.2, false))
    (hWire : ∀ e, SameWire fs (e, view bytes rq, tcpResponse app env (rq.setRemoteAddr ip) (firstRun app ip w bytes rq))
      (unixReply app env (rq.setRemoteAddr ip') (firstRun app ip' w bytes rq))) :
    ServesLike fs (onRead app env { clientIp := ip } w bytes) (unixRead app env { clientIp := ip' } w bytes) := by
  obtain ⟨hLog, hSuspended⟩ := onRead_dispatch hParse hComplete hAllowed hPlain env ip w
  obtain ⟨hSeenUnix, hReply⟩ := unixRead_summary hParse hComplete app env ip' w
  obtain ⟨hMem, hHandled, hAnswers, -⟩ := firstRun_log app ip w bytes rq
  have hSync : ∀ h rest, tcpHandler app (view bytes rq) (firstRun app ip w bytes rq).1 ≠ some (.async h, rest) := by
    intro h rest hEq
    rw [hReached] at hEq
    obtain ⟨reached, -, hBad⟩ := Option.map_eq_some_iff.mp hEq
    cases hBad
  obtain ⟨hDone, hSeenTcp, sent, hHeaders, hSent⟩ := dispatch_summary app env w bytes rq hAsync
    (staysOpen (view bytes rq)) ip rfl hMem hHandled hAnswers hSync
  rw [servesLike_of_none (by rw [hSuspended, hDone]; rfl), hLog]
  refine ⟨?_, _, _, hSent, hReply, (sameWire_congr hHeaders _ _ _ _).mpr (hWire _)⟩
  refine hSeenTcp.trans (Eq.trans ?_ hSeenUnix.symm)
  rw [hSeen, hReached]
  cases unixHandler app (view bytes rq) (firstRun app ip' w bytes rq).1 <;> rfl

/-- The middlewares and the handler do the same on both sockets. -/
theorem servesLike_treated (env : ServerEnv) (hAsync : app.hasAsyncMiddlewares = false) {ip ip' : Bytes} {w : σ}
    (h : TreatedAlike app env ip ip' w bytes rq) :
    ServesLike fs (onRead app env { clientIp := ip } w bytes) (unixRead app env { clientIp := ip' } w bytes) := by
  obtain ⟨cont, ids, r, w', hRun⟩ := h.middlewares.runMiddlewares
  have hTcp : firstRun app ip w bytes rq = _ := (hRun (firstFrame ip w bytes rq).log).1
  have hUnix : firstRun app ip' w bytes rq = _ := (hRun (firstFrame ip' w bytes rq).log).2
  have hHandler := h.handler
  have hWhole := h.response
  apply servesLike_summary hParse hComplete hAllowed hPlain env hAsync
  · rw [hTcp, hUnix, seen_append, seen_append]
    rfl
  · rw [hTcp] at hHandler ⊢
    rw [hUnix]
    cases cont with
    | false => rfl
    | true => exact (hHandler rfl).reached
  · intro e
    rw [hTcp] at hHandler hWhole ⊢
    rw [hUnix]
    obtain ⟨connection, hReply⟩ := unixReply_eq hHandler hWhole.notChunked
      ((firstFrame ip' w bytes rq).log ++ rans ids)
    rw [hReply]
    exact hWhole.sameWire e connection

end First

end Equivalence

section Runs

def noFiles : FileSystem := fun _ => none

def greetApp : App Unit Unit := { router := { prefixRoutes := [⟨.get, [slash], .sync greet⟩] } }

def rootBytes : Bytes := ascii "GET / HTTP/1.1\r\n\r\n"

def traversalBytes : Bytes := ascii "GET /../a HTTP/1.1\r\n\r\n"

def peer : Bytes := ascii "10.0.0.1"

def unixPeer : Bytes := ascii "unix"

theorem parse_eq {bytes : Bytes} (h : (parse {} bytes {}).2.2 = some bytes.length) : parse {} bytes {} =
      ((parse {} bytes {}).1, (parse {} bytes {}).2.1, some bytes.length) := by
  rw [← h]

/-- Neither the preflight middleware nor the greeting looks at the peer, and the greeting goes out as it is. -/
theorem unaffected_greet (env : ServerEnv) (ip ip' : Bytes) {bytes : Bytes} {rq : Request}
    (hAllowed : pathRejected rq.path.bytes = false) (hMethod : rq.method = .get)
    (hPath : (view bytes rq).path.bytes = [slash]) (hRange : (view bytes rq).header (ascii "Range") = []) :
    Unaffected preflightApp env ip ip' () bytes rq := by
  obtain ⟨params, hMatch⟩ : ∃ params,
      preflightApp.router.matchRoute .get [slash] .empty = (some (.sync greet), params) := ⟨_, rfl⟩
  have hRoute : preflightApp.route ((rq.setRemoteAddr ip).reread (taken bytes)) =
      (some (.sync greet), params, false) := by
    have hView : (view bytes rq).method = .get := hMethod
    show preflightApp.route (view bytes rq) = _
    rw [route, hView, hPath, hMatch]
  have hPass : firstRun preflightApp ip () bytes rq =
      (true, (firstFrame ip () bytes rq).emit [.ran (.middleware 0)]) := by
    have hNot : ((rq.setRemoteAddr ip).reread (taken bytes)).method ≠ .options := by
      show rq.method ≠ .options
      rw [hMethod]
      decide
    simp only [firstRun, preflightApp, runMiddlewares, Middleware.continues, Middleware.apply, preflight, firstFrame,
      if_neg hNot, if_true]
    rfl
  refine ⟨hAllowed, by simp [isUpgrade, preflightApp], ⟨⟨rfl, fun _ => trivial⟩, fun _ => ?_, ?_⟩⟩
  · rw [hPass, HandledAlike]
    simp only [Frame.emit, firstFrame, hRoute]
    exact ⟨trivial, _, (), rfl, rfl⟩
  · have hLeft : tcpResponse preflightApp env (rq.setRemoteAddr ip) (firstRun preflightApp ip () bytes rq) =
        ({} : Response).setBody (ascii "hi") := by
      rw [hPass, tcpResponse]
      simp only [Frame.emit, firstFrame, hRoute, if_true]
      rfl
    rw [hLeft]
    exact ⟨rfl, notModified_bare _ rfl, .inl hRange, rfl, rfl⟩

end Runs

end QbuemStack.Server
