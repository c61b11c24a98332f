import QbuemStack.Base.LabelledRuns
import QbuemStack.Base.Weights

/-! The dead letter queue. A reprocessing puts the letters that fail again back to the front,
whatever came in meanwhile. -/
namespace Pipeline.DeadLetters

open LabelledRuns Weights

section Model

variable {α ε : Type}

structure DeadLetter (α ε : Type) where
  tag : Nat
  item : α
  error : ε
  attemptCount : UInt64

structure Call (α ε : Type) where
  rest : List (DeadLetter α ε) := []
  failed : List (DeadLetter α ε) := []

structure DeadLetterQueue (α ε : Type) where
  queue : List (DeadLetter α ε) := []
  calls : List (Call α ε) := []
  pushed : Nat := 0
  drained : List (DeadLetter α ε) := []
  done : List (DeadLetter α ε) := []
  dropped : List (DeadLetter α ε) := []

inductive Label (α ε : Type) where
  | push (item : α) (error : ε) (attempts : UInt64)
  | drain
  | reprocess (maxN : Nat)
  | answer (call : Nat) (error : Option ε)
  | finish (call : Nat)

variable (maxSize : Nat) (s s' : DeadLetterQueue α ε)

def excess (queue : List (DeadLetter α ε)) : Nat := if maxSize > 0 ∧ queue.length ≥ maxSize then 1 else 0

def DeadLetterQueue.push (letter : DeadLetter α ε) : DeadLetterQueue α ε :=
  { s with queue := s.queue.drop (excess maxSize s.queue) ++ [letter], pushed := s.pushed + 1,
           dropped := s.queue.take (excess maxSize s.queue) ++ s.dropped }

def next : Label α ε → Option (DeadLetterQueue α ε)
  | .push item error attempts => some (s.push maxSize ⟨s.pushed, item, error, attempts⟩)
  | .drain => some { s with queue := [], drained := s.queue ++ s.drained }
  | .reprocess maxN => some { s with queue := s.queue.drop maxN, calls := s.calls ++ [{ rest := s.queue.take maxN }] }
  | .answer i error => do
    let call ← s.calls[i]?
    let letter ← call.rest.head?
    match error with
    | none => some { s with calls := s.calls.set i { call with rest := call.rest.tail }, done := letter :: s.done }
    | some error =>
      let again := { letter with error, attemptCount := letter.attemptCount + 1 }
      some { s with calls := s.calls.set i ⟨call.rest.tail, call.failed ++ [again]⟩ }
  | .finish i => do
    let call ← s.calls[i]?
    if call.rest.isEmpty then some { s with queue := call.failed ++ s.queue, calls := s.calls.set i {} } else none

def marked (t : Nat) (letter : DeadLetter α ε) : Nat := if letter.tag = t then 1 else 0

def held (t : Nat) (call : Call α ε) : Nat := weigh (marked t) call.rest + weigh (marked t) call.failed

def DeadLetterQueue.places (t : Nat) : Nat := weigh (marked t) s.queue + weigh (held t) s.calls +
  weigh (marked t) s.drained + weigh (marked t) s.done + weigh (marked t) s.dropped

def Conserved : Prop := ∀ t, (t < s.pushed → s.places t = 1) ∧ (s.pushed ≤ t → s.places t = 0)

abbrev Sorted (letters : List (DeadLetter α ε)) : Prop := letters.Pairwise fun x y => x.tag ≤ y.tag

/-- A push drops the oldest letter, a letter that fails again is counted once more, and those put
back are ahead, the older ones first. -/
def Expected : Label α ε → Prop
  | .push .. => ∀ new, s'.dropped = new ++ s.dropped → ∀ x ∈ new, ∀ y ∈ s.queue, x.tag ≤ y.tag
  | .answer i (some error) => ∀ call ∈ s.calls[i]?, ∀ letter ∈ call.rest.head?, ∃ n : UInt64,
    n.toNat = letter.attemptCount.toNat + 1 ∧
      s'.calls[i]? = some ⟨call.rest.tail, call.failed ++ [{ letter with error, attemptCount := n }]⟩
  | .finish i => ∀ call ∈ s.calls[i]?, s'.queue = call.failed ++ s.queue ∧ Sorted call.failed
  | _ => s'.dropped = s.dropped

def Proper (label : Label α ε) : Prop :=
  ∀ s', next maxSize s label = some s' → s'.queue.length ≤ maxSize ∧ Conserved s' ∧ Expected s s' label

/-- A full queue has its oldest letter in front, no count wraps, and what is put back is in order
and fits. -/
def Allowed : Label α ε → Prop
  | .push .. => s.queue.length ≥ maxSize → ∀ x ∈ s.queue.head?, ∀ y ∈ s.queue, x.tag ≤ y.tag
  | .answer i (some _) => ∀ call ∈ s.calls[i]?, ∀ letter ∈ call.rest.head?, letter.attemptCount.toNat + 1 < 2 ^ 64
  | .finish i => ∀ call ∈ s.calls[i]?, call.rest = [] →
    call.failed.length + s.queue.length ≤ maxSize ∧ Sorted call.failed
  | _ => True

end Model

variable {α ε : Type} {maxSize : Nat} {s s' : DeadLetterQueue α ε} {label : Label α ε}

theorem weigh_split (f : DeadLetter α ε → Nat) (n : Nat) (letters : List (DeadLetter α ε)) :
    weigh f (letters.take n) + weigh f (letters.drop n) = weigh f letters := by
  rw [← weigh_append, List.take_append_drop]

/-- No letter is lost or doubled by a step. -/
theorem Conserved.step (h : Conserved s) (hNext : next maxSize s label = some s') : Conserved s' := by
  intro t
  have hBefore := h t
  unfold DeadLetterQueue.places at hBefore ⊢
  cases label with
  | push item error attempts =>
    cases hNext
    have hSplit := weigh_split (marked t) (excess maxSize s.queue) s.queue
    have hNew : marked t (⟨s.pushed, item, error, attempts⟩ : DeadLetter α ε) = if s.pushed = t then 1 else 0 := rfl
    simp only [DeadLetterQueue.push, weigh_append, weigh_cons, weigh_nil, hNew]
    split_ifs <;> omega
  | drain =>
    cases hNext
    simp only [weigh_append, weigh_nil]
    omega
  | reprocess maxN =>
    cases hNext
    have hSplit := weigh_split (marked t) maxN s.queue
    simp only [weigh_append, weigh_cons, weigh_nil, held]
    omega
  | answer i error =>
    simp only [next, Option.bind_eq_bind, Option.bind_eq_some_iff] at hNext
    obtain ⟨call, hCall, letter, hLetter, hNext⟩ := hNext
    obtain ⟨rest, hRest⟩ := List.head?_eq_some_iff.mp hLetter
    have hSet := weigh_set (f := held t) hCall
    cases error with
    | none =>
      cases hNext
      have hSet := hSet ⟨rest, call.failed⟩
      simp only [hRest, List.tail_cons, held, weigh_cons] at hSet ⊢
      omega
    | some error =>
      cases hNext
      have hSet := hSet ⟨rest, call.failed ++ [{ letter with error, attemptCount := letter.attemptCount + 1 }]⟩
      simp only [hRest, List.tail_cons, held, weigh_cons, weigh_append, weigh_nil, marked] at hSet ⊢
      omega
  | finish i =>
    simp only [next, Option.bind_eq_bind, Option.bind_eq_some_iff] at hNext
    obtain ⟨call, hCall, hNext⟩ := hNext
    split_ifs at hNext with hEmpty
    cases hNext
    have hRest := List.isEmpty_iff.mp hEmpty
    have hSet := weigh_set (f := held t) hCall {}
    simp only [held, hRest, weigh_append, weigh_nil] at hSet ⊢
    omega

theorem proper_iff (h : s.queue.length ≤ maxSize + 1 ∧ Conserved s) (label : Label α ε) :
    Proper (maxSize + 1) s label ↔ Allowed (maxSize + 1) s label := by
  have hKept : Proper (maxSize + 1) s label ↔ ∀ s', next (maxSize + 1) s label = some s' →
      s'.queue.length ≤ maxSize + 1 ∧ Expected s s' label :=
    forall₂_congr fun s' hNext => by simp [h.2.step hNext]
  rw [hKept]
  cases label with
  | push item error attempts =>
    simp only [next, Option.some.injEq, forall_eq', Expected, Allowed, DeadLetterQueue.push,
      List.append_cancel_right_eq]
    by_cases hFull : s.queue.length ≥ maxSize + 1
    · simp [excess, hFull, List.take_one]
      omega
    · simp [excess, hFull]
      omega
  | drain => simp [next, Expected, Allowed]
  | reprocess maxN =>
    simp only [next, Option.some.injEq, forall_eq', Expected, Allowed, List.length_drop, and_true, iff_true]
    exact Nat.le_trans (Nat.sub_le ..) h.1
  | answer i error =>
    cases hCall : s.calls[i]? with
    | none => cases error <;> simp [next, Expected, Allowed, hCall]
    | some call =>
      cases hLetter : call.rest.head? with
      | none => cases error <;> simp [next, Expected, Allowed, hCall, hLetter]
      | some letter =>
        cases error with
        | none => simp [next, Expected, Allowed, hCall, hLetter, h.1]
        | some error =>
          simp [next, Expected, Allowed, hCall, hLetter, h.1, List.getElem?_set_self', and_comm, UInt64.toNat_add]
  | finish i =>
    cases hCall : s.calls[i]? with
    | none => simp [next, Expected, Allowed, hCall]
    | some call => by_cases hRest : call.rest = [] <;> simp [next, Expected, Allowed, hCall, hRest]

/-- Every step is as expected exactly if what is put back fits and is in order, no attempt count wraps, and a push
that finds the queue full finds its oldest letter in front. -/
theorem deadLetters_iff (maxSize : Nat) (labels : List (Label α ε)) :
    Meets (next (maxSize + 1)) (Proper (maxSize + 1)) labels {} ↔
      Meets (next (maxSize + 1)) (Allowed (maxSize + 1)) labels {} := by
  refine meets_congr (fun _ label h => proper_iff h label) (fun s label s' h hAllowed hNext => ?_)
    ⟨Nat.zero_le _, fun _ => ⟨nofun, fun _ => rfl⟩⟩
  obtain ⟨hBound, hConserved, -⟩ := (proper_iff h label).mpr hAllowed s' hNext
  exact ⟨hBound, hConserved⟩

/-- A letter comes in while the one before it is reprocessed and fails again. -/
theorem bound_exceeded : ((run (next 1) [.push () () 1, .reprocess 1, .push () () 1, .answer 0 (some ()), .finish 0]
    {}).map fun s => s.queue.map (·.tag)) = some [0, 1] := by
  decide

end Pipeline.DeadLetters
