import QbuemStack.Http.Router
import QbuemStack.Server.SendResponse

/-! Dispatch of one request by `App::listen`: the synchronous path, and the path of coroutines that
is taken as soon as one asynchronous middleware is registered. -/
namespace QbuemStack.Server

open Octets Http

inductive Ran where
  | middleware (id : Nat)
  | asyncMiddleware (id : Nat)
  | handler (id : Nat) (rq : Request)
  deriving DecidableEq

inductive Effect where
  | dispatched (rq : Request)
  | ran (who : Ran)
  | answer (env : SendEnv) (rq : Request) (r : Response)
  | reply (order : MapOrder) (r : Response) (content : Bytes)
  | stream (calls : List WriteCall)
  | notice (data : Bytes)
  | armIdle
  | disarmIdle
  | armRead
  | cancelRead
  | unregister
  | close
  | handOff

/-- The storage behind the request's views, the number of requests so far, the response, the shared state and the
effects. -/
structure Frame (σ : Type) where
  mem : Bytes
  handled : Nat
  response : Response
  world : σ
  log : List Effect

/-- A coroutine of the server. The continuation of a piece of code is chosen in the state before it. -/
inductive Proc (σ : Type) where
  | done (ok : Bool)
  | act (f : Frame σ → Frame σ) (k : Frame σ → Proc σ)
  | await (k : Proc σ)

namespace Proc

variable {σ : Type}

def run : Proc σ → Frame σ → Frame σ × Option (Proc σ)
  | .done _, s => (s, none)
  | .act f k, s => (k s).run (f s)
  | .await k, s => (s, some k)

def bind : Proc σ → (Bool → Proc σ) → Proc σ
  | .done ok, g => g ok
  | .act f k, g => .act f fun s => (k s).bind g
  | .await k, g => .await (k.bind g)

end Proc

structure Middleware (σ : Type) where
  id : Nat
  run : Request → Response → σ → Bool × Response × σ

inductive MwTask (σ : Type) where
  | done (ok : Bool)
  | act (f : Request → Response → σ → Response × σ) (k : Request → Response → σ → MwTask σ)
  | await (k : MwTask σ)
  | next (k : MwTask σ)

structure AsyncMiddleware (σ : Type) where
  id : Nat
  body : MwTask σ

inductive AnyMiddleware (σ : Type) where
  | sync (mw : Middleware σ)
  | async (mw : AsyncMiddleware σ)

structure Handler (σ ε : Type) where
  id : Nat
  run : Request → Response → σ → Option ε × Response × σ

inductive HandlerTask (σ : Type) where
  | done (threw : Bool)
  | act (f : Request → Response → σ → Response × σ) (k : Request → Response → σ → HandlerTask σ)
  | flush (k : HandlerTask σ)
  | flushEnd (k : HandlerTask σ)
  | await (k : HandlerTask σ)

structure AsyncHandler (σ : Type) where
  id : Nat
  body : HandlerTask σ

inductive HandlerVariant (σ ε : Type) where
  | sync (h : Handler σ ε)
  | async (h : AsyncHandler σ)

abbrev ErrorHandler (σ ε : Type) := ε → Request → Response → σ → Response × σ

structure App (σ ε : Type) where
  router : Router (HandlerVariant σ ε) (AnyMiddleware σ)
  errorHandler : Option (ErrorHandler σ ε) := none
  wsPaths : List Bytes := []

/-- What does not change while the server runs. -/
structure ServerEnv where
  order : MapOrder
  date : Bytes
  date_line : cr ∉ date ∧ lf ∉ date

def ServerEnv.send (env : ServerEnv) (keepAlive : Bool) (handled : Nat) : SendEnv :=
  { order := env.order, date := env.date, date_line := env.date_line
    keepAlive := keepAlive, handled := handled }

namespace App

variable {σ ε : Type}

def isAsync : AnyMiddleware σ → Bool
  | .sync _ => false
  | .async _ => true

def hasAsyncMiddlewares (app : App σ ε) : Bool := app.router.middlewares.any isAsync

def route (app : App σ ε) (rq : Request) : Option (HandlerVariant σ ε) × Params × Bool :=
  match app.router.matchRoute rq.method rq.path.bytes .empty with
  | (some h, params) => (some h, params, false)
  | (none, params) =>
    if rq.method = .head then
      match app.router.matchRoute .get rq.path.bytes params with
      | (some h, params) => (some h, params, true)
      | (none, params) => (none, params, false)
    else (none, params, false)

def setParams (env : ServerEnv) (params : Params) (rq : Request) : Request :=
  (env.order.visit params.entries).foldl (fun rq e => rq.setParam e.1 e.2) rq

theorem setParams_eq (env : ServerEnv) (params : Params) (rq : Request) : setParams env params rq =
    { rq with paramsFlat := (env.order.visit params.entries).foldl (·.push ·) rq.paramsFlat } := by
  unfold setParams
  induction env.order.visit params.entries generalizing rq with
  | nil => rfl
  | cons e rest ih => exact ih (rq.setParam e.1 e.2)

def unrouted (app : App σ ε) (rq : Request) (r : Response) : Response :=
  if app.router.pathExists rq.path.bytes then (r.status 405).setBody (ascii "Method Not Allowed")
  else (r.status 404).setBody (ascii "Not Found")

def serverError : Response := (({} : Response).status 500).setBody (ascii "Internal Server Error")

end App

section Paths

variable {σ ε : Type}

def Frame.emit (s : Frame σ) (effects : List Effect) : Frame σ := { s with log := s.log ++ effects }

def settle (keepAlive : Bool) : List Effect := if keepAlive then [.armIdle] else [.unregister, .close]

def finish (env : ServerEnv) (keepAlive : Bool) (rq : Request) (s : Frame σ) : Frame σ :=
  s.emit (.answer (env.send keepAlive s.handled) (rq.reread s.mem) s.response :: settle keepAlive)

def handlerOutcome (app : App σ ε) (headFallback : Bool) (h : Handler σ ε) (rq : Request)
    (r : Response) (w : σ) : Response × σ :=
  match h.run rq r w with
  | (none, r, w) => (if headFallback then r.setBody [] else r, w)
  | (some e, _, w) =>
    match app.errorHandler with
    | some eh => eh e rq {} w
    | none => (App.serverError, w)

def invoke (app : App σ ε) (headFallback : Bool) (h : Handler σ ε) (rq : Request) (s : Frame σ) :
    Frame σ :=
  let (r, w) := handlerOutcome app headFallback h (rq.reread s.mem) s.response s.world
  { s.emit [.ran (.handler h.id (rq.reread s.mem))] with response := r, world := w }

def HandlerTask.proc (env : ServerEnv) (rq : Request) (after : Bool → Proc σ) : HandlerTask σ → Proc σ
  | .done threw => after threw
  | .act f k =>
    .act (fun s =>
        let (r, w) := f (rq.reread s.mem) s.response s.world
        { s with response := r, world := w })
      fun s => (k (rq.reread s.mem) s.response s.world).proc env rq after
  | .flush k =>
    .act (fun s =>
        let (r, out) := s.response.flush env.order
        { s.emit [.stream (written out)] with response := r })
      fun _ => k.proc env rq after
  | .flushEnd k =>
    .act (fun s =>
        let (r, out) := s.response.flushEnd env.order
        { s.emit [.stream (written out)] with response := r })
      fun _ => k.proc env rq after
  | .await k => .await (k.proc env rq after)

/-- The copy of the flag that `send_response` holds is not cleared for a HEAD request. -/
def runAsync (env : ServerEnv) (keepAlive headFallback : Bool) (h : AsyncHandler σ) (rq : Request) :
    Proc σ :=
  .act (fun s => { s.emit [.ran (.handler h.id (rq.reread s.mem))] with
      response := { s.response with streamOpen := true } })
    fun _ => h.body.proc env rq fun threw =>
      .act (fun s =>
          let r := if threw then App.serverError else s.response
          finish env keepAlive rq { s with response := if headFallback then r.setBody [] else r })
        fun _ => .done true

def asyncTail (app : App σ ε) (env : ServerEnv) (keepAlive headFallback : Bool)
    (h : HandlerVariant σ ε) (rq : Request) : Proc σ :=
  match h with
  | .sync h =>
    .act (fun s => finish env keepAlive rq (invoke app headFallback h rq s)) fun _ => .done true
  | .async h => runAsync env keepAlive headFallback h rq

def MwTask.proc (rq : Request) (rest : Proc σ) : MwTask σ → Proc σ
  | .done ok => .done ok
  | .act f k =>
    .act (fun s =>
        let (r, w) := f (rq.reread s.mem) s.response s.world
        { s with response := r, world := w })
      fun s => (k (rq.reread s.mem) s.response s.world).proc rq rest
  | .await k => .await (k.proc rq rest)
  | .next k => rest.bind fun _ => k.proc rq rest

def Middleware.apply (mw : Middleware σ) (rq : Request) (s : Frame σ) : Frame σ :=
  let (_, r, w) := mw.run (rq.reread s.mem) s.response s.world
  { s.emit [.ran (.middleware mw.id)] with response := r, world := w }

def Middleware.continues (mw : Middleware σ) (rq : Request) (s : Frame σ) : Bool :=
  (mw.run (rq.reread s.mem) s.response s.world).1

def runMwChain (rq : Request) (tail : Proc σ) : List (AnyMiddleware σ) → Proc σ
  | [] => tail.bind fun _ => .done true
  | .sync mw :: mws =>
    .act (mw.apply rq) fun s => if mw.continues rq s then runMwChain rq tail mws else .done false
  | .async mw :: mws =>
    .act (fun s => s.emit [.ran (.asyncMiddleware mw.id)]) fun _ =>
      mw.body.proc rq (runMwChain rq tail mws)

def runMiddlewares (rq : Request) : List (AnyMiddleware σ) → Frame σ → Bool × Frame σ
  | [], s => (true, s)
  | .async _ :: mws, s => runMiddlewares rq mws s
  | .sync mw :: mws, s =>
    if mw.continues rq s then runMiddlewares rq mws (mw.apply rq s) else (false, mw.apply rq s)

def dispatch (app : App σ ε) (env : ServerEnv) (keepAlive : Bool) (rq : Request) (s : Frame σ) :
    Frame σ × Option (Proc σ) :=
  let s := { s with response := {} }
  match app.route (rq.reread s.mem) with
  | (handler, params, headFallback) =>
    if app.hasAsyncMiddlewares then
      match handler with
      | none =>
        (finish env keepAlive rq { s with response := app.unrouted (rq.reread s.mem) {} }, none)
      | some h =>
        let rq := App.setParams env params rq
        (runMwChain rq (asyncTail app env keepAlive headFallback h rq) app.router.middlewares).run s
    else
      match runMiddlewares rq app.router.middlewares s with
      | (false, s) =>
        (s.emit [.answer (env.send keepAlive s.handled) (rq.reread s.mem) s.response,
          .unregister, .close], none)
      | (true, s) =>
        match handler with
        | none =>
          (finish env keepAlive rq
            { s with response := app.unrouted (rq.reread s.mem) s.response }, none)
        | some (.sync h) =>
          let rq := App.setParams env params rq
          (finish env keepAlive rq (invoke app headFallback h rq s), none)
        | some (.async h) =>
          (runAsync env keepAlive headFallback h (App.setParams env params rq)).run s

end Paths

end QbuemStack.Server
