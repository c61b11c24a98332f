import Mathlib.Data.List.Induction

/-! The saga orchestrator: when a step fails, the steps before it are compensated from the last to
the first. -/
namespace Pipeline.Saga

variable {α ε χ : Type}

section Model

structure SagaStep (α ε χ : Type) where
  name : String
  execute : α → Except ε α
  compensate : α → Except χ Unit

structure SagaOrchestrator (α ε χ : Type) where
  compensationFailures : List String := []
  executed : List (SagaStep α ε χ × α) := []
  compensated : List (SagaStep α ε χ × α) := []

/-- The promise gives the exception to the installed handler and keeps nothing, and `await_resume`
does nothing. -/
def awaitVoid : Except χ Unit → Except χ Unit
  | .ok () => .ok ()
  | .error _ => .ok ()

def SagaOrchestrator.compensate (s : SagaOrchestrator α ε χ) (step : SagaStep α ε χ) (input : α) :
    SagaOrchestrator α ε χ :=
  let s := { s with compensated := s.compensated ++ [(step, input)] }
  match awaitVoid (step.compensate input) with
  | .ok () => s
  | .error _ => { s with compensationFailures := s.compensationFailures ++ [step.name] }

variable (steps : List (SagaStep α ε χ))

def compensateSteps (stepInputs : List α) : Nat → SagaOrchestrator α ε χ → SagaOrchestrator α ε χ
  | 0, s => s
  | j + 1, s =>
    match steps[j]?, stepInputs[j]? with
    | some step, some input => compensateSteps stepInputs j (s.compensate step input)
    | _, _ => s

def runFrom (stepInputs : List α) (current : α) :
    List (SagaStep α ε χ) → SagaOrchestrator α ε χ → Except ε α × SagaOrchestrator α ε χ
  | [], s => (.ok current, s)
  | step :: rest, s =>
    let s := { s with executed := s.executed ++ [(step, current)] }
    match step.execute current with
    | .error e => (.error e, compensateSteps steps (stepInputs ++ [current]) stepInputs.length s)
    | .ok value => runFrom (stepInputs ++ [current]) value rest s

def run (input : α) (s : SagaOrchestrator α ε χ) : Except ε α × SagaOrchestrator α ε χ :=
  runFrom steps [] input steps s

end Model

section Contract

def progress : List (SagaStep α ε χ) → α → List (SagaStep α ε χ × α) × Option (SagaStep α ε χ × α)
  | [], _ => ([], none)
  | step :: rest, x =>
    match step.execute x with
    | .error _ => ([], some (step, x))
    | .ok y => ((step, x) :: (progress rest y).1, (progress rest y).2)

variable (steps : List (SagaStep α ε χ)) (input : α) (s : SagaOrchestrator α ε χ)

variable (done : List (SagaStep α ε χ × α)) (rest : List (SagaStep α ε χ))

def undone : List (SagaStep α ε χ × α) :=
  if (progress steps input).2.isSome then (progress steps input).1.reverse else []

/-- The steps run up to the first that fails; those before it are compensated in reverse with their
inputs, and failed compensations are kept. -/
structure Compensates : Prop where
  result : (run steps input s).1 = steps.foldlM (fun x step => step.execute x) input
  executed : (run steps input s).2.executed =
    s.executed ++ ((progress steps input).1 ++ (progress steps input).2.toList)
  compensated : (run steps input s).2.compensated = s.compensated ++ undone steps input
  failures : (run steps input s).2.compensationFailures = s.compensationFailures ++
    ((undone steps input).filter fun p => !(p.1.compensate p.2).isOk).map fun p => p.1.name

theorem compensate_eq (p : SagaStep α ε χ × α) :
    s.compensate p.1 p.2 = { s with compensated := s.compensated ++ [p] } := by
  rw [SagaOrchestrator.compensate]
  cases p.1.compensate p.2 <;> rfl

theorem compensateSteps_eq (more : List α) :
    compensateSteps (done.map Prod.fst ++ rest) (done.map Prod.snd ++ more) done.length s =
      { s with compensated := s.compensated ++ done.reverse } := by
  induction done using List.reverseRecOn generalizing rest more s with
  | nil => simp [compensateSteps]
  | append_singleton done p ih => simp [compensateSteps, ih, compensate_eq]

/-- The loop runs the steps that succeed and undoes them after a failure. -/
theorem runFrom_eq : runFrom (done.map Prod.fst ++ rest) (done.map Prod.snd) input rest s =
      (rest.foldlM (fun x step => step.execute x) input,
        { s with
          executed := s.executed ++ ((progress rest input).1 ++ (progress rest input).2.toList)
          compensated := s.compensated ++
            if (progress rest input).2.isSome then (done ++ (progress rest input).1).reverse else [] }) := by
  induction rest generalizing done input s with
  | nil => simp [runFrom, progress, pure, Except.pure]
  | cons step rest ih =>
    cases hStep : step.execute input with
    | error e =>
      have hBack (s) := compensateSteps_eq s done (step :: rest) [input]
      simp_all [runFrom, progress, bind, Except.bind]
    | ok value =>
      have hRest := ih value { s with executed := s.executed ++ [(step, input)] } (done ++ [(step, input)])
      simp_all [runFrom, progress, bind, Except.bind]

/-- The contract is kept exactly when no compensation of the run ends by an exception: its promise
does not pass the exception on, so the orchestrator's `catch` never sees it. -/
theorem compensates_iff : Compensates steps input s ↔ ∀ p ∈ undone steps input, p.1.compensate p.2 = .ok () := by
  have hRun : run steps input s = _ := runFrom_eq input s [] steps
  have hOk (p : SagaStep α ε χ × α) : (p.1.compensate p.2).isOk = true ↔ p.1.compensate p.2 = .ok () := by
    cases p.1.compensate p.2 <;> simp [Except.isOk, Except.toBool]
  constructor
  · intro h
    have hKept := h.failures
    simpa [hRun, hOk] using hKept
  · intro h
    refine ⟨by rw [hRun], by rw [hRun], by rw [hRun]; rfl, ?_⟩
    simpa [hRun, hOk] using h

/-- The first step is compensated after the second has failed; its exception is lost. -/
theorem failure_forgotten : ¬Compensates
    [⟨"reserve", Except.ok, fun _ => Except.error ()⟩, ⟨"charge", fun _ => Except.error (), fun _ => .ok ()⟩] 0 {} :=
  fun h => absurd h.failures (by decide)

end Contract

end Pipeline.Saga
