import QbuemStack.Server.Dispatch

/-! What the code run for one request can do: which effects it has, and what it leaves as it is. -/
namespace QbuemStack.Server

open Octets Http

/-- The log grows by effects that satisfy `P`, and besides it only the response and the world
change. -/
def Emits {σ : Type} (P : Bytes → Effect → Prop) (s s' : Frame σ) : Prop :=
  s'.mem = s.mem ∧ s'.handled = s.handled ∧ ∃ l, s'.log = s.log ++ l ∧ ∀ x ∈ l, P s.mem x

def Proc.Steps {σ : Type} (R : Frame σ → Frame σ → Prop) : Proc σ → Prop
  | .done _ => True
  | .act f k => ∀ s, R s (f s) ∧ (k s).Steps R
  | .await k => k.Steps R

section Steps

variable {σ : Type} {P Q : Bytes → Effect → Prop} {R : Frame σ → Frame σ → Prop}

theorem Emits.silent {s s' : Frame σ} (hMem : s'.mem = s.mem) (hHandled : s'.handled = s.handled)
    (hLog : s'.log = s.log) : Emits P s s' :=
  ⟨hMem, hHandled, [], by rw [hLog, List.append_nil], by simp⟩

theorem Emits.refl (s : Frame σ) : Emits P s s := .silent rfl rfl rfl

theorem Emits.trans {s s' s'' : Frame σ} (h : Emits P s s') (h' : Emits P s' s'') : Emits P s s'' := by
  obtain ⟨hMem, hHandled, l, hLog, hAll⟩ := h
  obtain ⟨hMem', hHandled', l', hLog', hAll'⟩ := h'
  refine ⟨hMem'.trans hMem, hHandled'.trans hHandled, l ++ l', ?_, ?_⟩
  · rw [hLog', hLog, List.append_assoc]
  · intro x hx
    rcases List.mem_append.mp hx with hFirst | hSecond
    · exact hAll x hFirst
    · rw [← hMem]
      exact hAll' x hSecond

namespace Proc

theorem Steps.run (hRefl : ∀ s, R s s) (hTrans : ∀ {a b c : Frame σ}, R a b → R b c → R a c)
    {p : Proc σ} (hp : p.Steps R) (s : Frame σ) : R s (p.run s).1 ∧ ∀ k, (p.run s).2 = some k → k.Steps R := by
  induction p generalizing s with
  | done ok => exact ⟨hRefl s, nofun⟩
  | act f k ih =>
    obtain ⟨hStep, hRest⟩ := hp s
    obtain ⟨hRun, hLeft⟩ := ih s hRest (f s)
    exact ⟨hTrans hStep hRun, hLeft⟩
  | await k ih =>
    refine ⟨hRefl s, fun k' hk => ?_⟩
    cases hk
    exact hp

theorem Steps.bind {p : Proc σ} (hp : p.Steps R) {g : Bool → Proc σ} (hg : ∀ ok, (g ok).Steps R) :
    (p.bind g).Steps R := by
  induction p with
  | done ok => exact hg ok
  | act f k ih =>
    intro s
    obtain ⟨hStep, hRest⟩ := hp s
    exact ⟨hStep, ih s hRest⟩
  | await k ih => exact ih hp

end Proc

theorem Proc.Steps.emits {p : Proc σ} (hp : p.Steps (Emits P)) (s : Frame σ) :
    Emits P s (p.run s).1 ∧ ∀ k, (p.run s).2 = some k → k.Steps (Emits P) :=
  hp.run Emits.refl Emits.trans s

end Steps

structure RequestContent where
  method : Method
  path : Bytes
  query : Bytes
  headers : List (Bytes × Bytes)
  body : Bytes
  deriving DecidableEq

def content (rq : Request) : RequestContent :=
  { method := rq.method, path := rq.path.bytes, query := rq.queryString.bytes
    headers := rq.headerLines, body := rq.body.bytes }

def CodeEffect (keepAlive : Bool) (rq : Request) (mem : Bytes) : Effect → Prop
  | .ran (.handler _ handed) => content handed = content (rq.reread mem)
  | .ran _ | .stream _ | .answer _ _ _ => True
  | .armIdle => keepAlive = true
  | .unregister | .close => keepAlive = false
  | _ => False

section Code

variable {σ ε : Type} (app : App σ ε) (env : ServerEnv) (keepAlive headFallback : Bool) {rq rq' : Request}

theorem settle_code (mem : Bytes) : ∀ x ∈ settle keepAlive, CodeEffect keepAlive rq mem x := by
  cases keepAlive <;> simp [settle, CodeEffect]

theorem finish_emits (s : Frame σ) : Emits (CodeEffect keepAlive rq) s (finish env keepAlive rq' s) := by
  refine ⟨rfl, rfl, _, rfl, ?_⟩
  intro x hx
  rcases List.mem_cons.mp hx with rfl | hx
  · trivial
  · exact settle_code keepAlive _ x hx

theorem apply_emits (mw : Middleware σ) (s : Frame σ) : Emits (CodeEffect keepAlive rq) s (mw.apply rq' s) :=
  ⟨rfl, rfl, [.ran (.middleware mw.id)], rfl, by simp [CodeEffect]⟩

variable (hContent : ∀ mem, content (rq'.reread mem) = content (rq.reread mem))

include hContent

theorem invoke_emits (h : Handler σ ε) (s : Frame σ) :
    Emits (CodeEffect keepAlive rq) s (invoke app headFallback h rq' s) := by
  refine ⟨rfl, rfl, [.ran (.handler h.id (rq'.reread s.mem))], rfl, ?_⟩
  intro x hx
  rw [List.mem_singleton.mp hx]
  exact hContent s.mem

omit hContent in
theorem HandlerTask.proc_emits {after : Bool → Proc σ}
    (hAfter : ∀ threw, (after threw).Steps (Emits (CodeEffect keepAlive rq))) (t : HandlerTask σ) :
    (t.proc env rq' after).Steps (Emits (CodeEffect keepAlive rq)) := by
  induction t with
  | done threw => exact hAfter threw
  | act f k ih => exact fun s => ⟨.silent rfl rfl rfl, ih (rq'.reread s.mem) s.response s.world⟩
  | flush k ih | flushEnd k ih => exact fun s => ⟨⟨rfl, rfl, _, rfl, by simp [CodeEffect]⟩, ih⟩
  | await k ih => exact ih

theorem runAsync_emits (h : AsyncHandler σ) :
    (runAsync env keepAlive headFallback h rq').Steps (Emits (CodeEffect keepAlive rq)) := by
  intro s
  refine ⟨⟨rfl, rfl, [.ran (.handler h.id (rq'.reread s.mem))], rfl, ?_⟩, ?_⟩
  · intro x hx
    rw [List.mem_singleton.mp hx]
    exact hContent s.mem
  · apply HandlerTask.proc_emits env keepAlive
    intro threw s'
    exact ⟨finish_emits env keepAlive _, trivial⟩

theorem asyncTail_emits (h : HandlerVariant σ ε) :
    (asyncTail app env keepAlive headFallback h rq').Steps (Emits (CodeEffect keepAlive rq)) := by
  cases h with
  | sync h =>
    intro s
    have hInvoke := invoke_emits app keepAlive headFallback hContent h s
    exact ⟨hInvoke.trans (finish_emits env keepAlive _), trivial⟩
  | async h => exact runAsync_emits env keepAlive headFallback hContent h

omit hContent in
theorem MwTask.proc_emits {rest : Proc σ} (hRest : rest.Steps (Emits (CodeEffect keepAlive rq)))
    (t : MwTask σ) : (t.proc rq' rest).Steps (Emits (CodeEffect keepAlive rq)) := by
  induction t with
  | done ok => trivial
  | act f k ih => exact fun s => ⟨.silent rfl rfl rfl, ih (rq'.reread s.mem) s.response s.world⟩
  | await k ih => exact ih
  | next k ih => exact hRest.bind fun _ => ih

omit hContent in
theorem runMwChain_emits {tail : Proc σ} (hTail : tail.Steps (Emits (CodeEffect keepAlive rq)))
    (mws : List (AnyMiddleware σ)) : (runMwChain rq' tail mws).Steps (Emits (CodeEffect keepAlive rq)) := by
  induction mws with
  | nil => exact hTail.bind fun _ => trivial
  | cons mw mws ih =>
    cases mw with intro s
    | sync mw =>
      refine ⟨apply_emits keepAlive mw s, ?_⟩
      dsimp only
      split_ifs
      · exact ih
      · trivial
    | async mw =>
      exact ⟨⟨rfl, rfl, [.ran (.asyncMiddleware mw.id)], rfl, by simp [CodeEffect]⟩,
        mw.body.proc_emits keepAlive ih⟩

omit hContent in
theorem runMiddlewares_emits (mws : List (AnyMiddleware σ)) (s : Frame σ) :
    Emits (CodeEffect keepAlive rq) s (runMiddlewares rq' mws s).2 := by
  induction mws generalizing s with
  | nil => exact Emits.refl s
  | cons mw mws ih =>
    cases mw with
    | async mw => exact ih s
    | sync mw =>
      simp only [runMiddlewares]
      split_ifs
      · exact (apply_emits keepAlive mw s).trans (ih _)
      · exact apply_emits keepAlive mw s

end Code

section Dispatch

variable {σ ε : Type} (app : App σ ε) (env : ServerEnv) (keepAlive : Bool) (rq : Request) (s : Frame σ)

def passes : Bool :=
  app.hasAsyncMiddlewares || (runMiddlewares rq app.router.middlewares { s with response := {} }).1

/-- The code run for a request, on both paths; a middleware that stops on the synchronous path
closes the connection. -/
theorem dispatch_emits :
    let d := dispatch app env keepAlive rq s
    Emits (CodeEffect (keepAlive && passes app rq s) rq) s d.1 ∧
      (∀ k, d.2 = some k → k.Steps (Emits (CodeEffect (keepAlive && passes app rq s) rq))) ∧
      (passes app rq s = false → .unregister ∈ d.1.log) := by
  have hStart : ∀ b, Emits (CodeEffect b rq) s { s with response := {} } := fun b => .silent rfl rfl rfl
  have hParams (params mem) : content ((App.setParams env params rq).reread mem) = content (rq.reread mem) := by
    rw [App.setParams_eq]
    rfl
  unfold dispatch passes
  simp only
  generalize app.route (rq.reread s.mem) = found
  obtain ⟨handler, params, headFallback⟩ := found
  cases hAsync : app.hasAsyncMiddlewares with
  | true =>
    simp only [if_true, Bool.true_or, Bool.and_true, Bool.true_eq_false, false_implies, and_true]
    cases handler with
    | none => exact ⟨(hStart _).trans ⟨rfl, rfl, (finish_emits env keepAlive _).2.2⟩, nofun⟩
    | some h =>
      have hChain : (runMwChain (App.setParams env params rq)
          (asyncTail app env keepAlive headFallback h (App.setParams env params rq))
          app.router.middlewares).Steps (Emits (CodeEffect keepAlive rq)) :=
        runMwChain_emits keepAlive (asyncTail_emits app env keepAlive headFallback (hParams params) h)
          app.router.middlewares
      obtain ⟨hRun, hLeft⟩ := hChain.emits { s with response := {} }
      exact ⟨(hStart _).trans hRun, hLeft⟩
  | false =>
    simp only [Bool.false_eq_true, if_false, Bool.false_or]
    have hMiddlewares : ∀ b, Emits (CodeEffect b rq) s
        (runMiddlewares rq app.router.middlewares { s with response := {} }).2 :=
      fun b => (hStart b).trans (runMiddlewares_emits b _ _)
    generalize runMiddlewares rq app.router.middlewares { s with response := {} } = t at hMiddlewares ⊢
    obtain ⟨cont, t⟩ := t
    cases cont with
    | false =>
      simp only [Bool.and_false]
      refine ⟨(hMiddlewares false).trans ⟨rfl, rfl, _, rfl, by simp [CodeEffect]⟩, ?_, fun _ => ?_⟩
      · intro k hk
        cases hk
      · simp [Frame.emit]
    | true =>
      simp only [Bool.and_true, Bool.true_eq_false, false_implies, and_true]
      rcases handler with _ | (h | h)
      · exact ⟨(hMiddlewares _).trans ⟨rfl, rfl, (finish_emits env keepAlive _).2.2⟩,
          nofun⟩
      · have hInvoke := invoke_emits app keepAlive headFallback (hParams params) h t
        exact ⟨(hMiddlewares _).trans (hInvoke.trans (finish_emits env keepAlive _)),
          nofun⟩
      · obtain ⟨hRun, hLeft⟩ := (runAsync_emits env keepAlive headFallback (hParams params) h).emits t
        exact ⟨(hMiddlewares _).trans hRun, hLeft⟩

end Dispatch

end QbuemStack.Server
