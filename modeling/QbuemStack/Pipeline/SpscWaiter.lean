import QbuemStack.Base.LabelledRuns
import QbuemStack.Pipeline.SpscChannel

/-! The waiter of the channel for one sender and one receiver, access by access. A coroutine is
suspended when it enters `await_suspend`, which goes on as code of its own: it registers, looks
again and may withdraw, which lets the coroutine go on. A second end of one suspension is the error
that the runs stop at. -/
namespace Pipeline

open Function

namespace SpscWaiter

open SequenceRing

inductive Agent where
  | producer
  | consumer
  | closer
deriving DecidableEq

structure Suspension where
  agent : Agent
  number : Nat
deriving DecidableEq

/-- The next access of `send`, `recv` or `close`, or of `wake_waiter` within them. -/
inductive Pc (α : Type) where
  | idle
  | sendClosed (item : α)
  | implClosed (item : α)
  | implTail (item : α)
  | implHead (item : α) (tail : Nat)
  | implStore (tail : Nat)
  | readyClosed (item : α)
  | readyTail (item : α)
  | readyHead (item : α) (tail : Nat)
  | suspendedSend (number : Nat) (item : α)
  | resumedClosed (item : α)
  | pollHead
  | pollTail (head : Nat)
  | pollStore (head : Nat) (item : α)
  | testClosed
  | recvReadyClosed
  | recvReadyHead
  | recvReadyTail (head : Nat)
  | suspendedRecv (number : Nat)
  | closeStore
  | wakeLoad
  | wakeExchange
  | wakeReactor (taken : Suspension)

inductive AwaitPc where
  | storeWaiter
  | storeReactor
  | first
  | second (value : Nat)
  | closedTest
  | clearWaiter
  | clearReactor
deriving DecidableEq

inductive Event where
  | resumed (suspension : Suspension)
  | withdrew (suspension : Suspension)
deriving DecidableEq

structure State (α : Type) where
  capacity : Nat
  buffer : Nat → α
  head : Nat
  tail : Nat
  closed : Bool
  waiter : Option Suspension
  reactor : Bool
  pcs : Agent → Pc α
  awaits : Suspension → Option AwaitPc
  begun : Agent → Nat
  posted : List Suspension
  log : List Event
  broken : Bool

variable {α : Type}

def suspendedIn : Pc α → Option Nat
  | .suspendedSend number _ => some number
  | .suspendedRecv number => some number
  | _ => none

def wakeUp : Pc α → Pc α
  | .suspendedSend _ item => .resumedClosed item
  | .suspendedRecv _ => .pollHead
  | pc => pc

def goto (s : State α) (agent : Agent) (pc : Pc α) : State α := { s with pcs := Function.update s.pcs agent pc }

def endSuspension (s : State α) (suspension : Suspension) (event : Event) : State α :=
  if suspendedIn (s.pcs suspension.agent) = some suspension.number then
    { goto s suspension.agent (wakeUp (s.pcs suspension.agent)) with log := s.log ++ [event] }
  else { s with log := s.log ++ [event], broken := true }

def suspend (s : State α) (agent : Agent) (pc : Nat → Pc α) : State α :=
  { s with
    pcs := Function.update s.pcs agent (pc (s.begun agent))
    awaits := Function.update s.awaits ⟨agent, s.begun agent⟩ (some .storeWaiter)
    begun := Function.update s.begun agent (s.begun agent + 1) }

def advance (s : State α) (agent : Agent) : Option (State α) :=
  match s.pcs agent with
  | .idle => none
  | .sendClosed item => some (goto s agent (if s.closed then .idle else .implClosed item))
  | .implClosed item => some (goto s agent (if s.closed then .readyClosed item else .implTail item))
  | .implTail item => some (goto s agent (.implHead item s.tail))
  | .implHead item tail =>
    if s.capacity ≤ wrap (tail + 2 ^ 64 - s.head) then some (goto s agent (.readyClosed item))
    else some (goto { s with buffer := Function.update s.buffer (tail &&& (s.capacity - 1)) item }
      agent (.implStore tail))
  | .implStore tail => some (goto { s with tail := wrap (tail + 1) } agent .wakeLoad)
  | .readyClosed item => some (goto s agent (if s.closed then .resumedClosed item else .readyTail item))
  | .readyTail item => some (goto s agent (.readyHead item s.tail))
  | .readyHead item tail =>
    if wrap (tail + 2 ^ 64 - s.head) < s.capacity then some (goto s agent (.resumedClosed item))
    else some (suspend s agent (.suspendedSend · item))
  | .suspendedSend _ _ => none
  | .resumedClosed item => some (goto s agent (if s.closed then .idle else .sendClosed item))
  | .pollHead => some (goto s agent (.pollTail s.head))
  | .pollTail head =>
    some (goto s agent (if head = s.tail then .testClosed else .pollStore head (s.buffer (head &&& (s.capacity - 1)))))
  | .pollStore head _ => some (goto { s with head := wrap (head + 1) } agent .wakeLoad)
  | .testClosed => some (goto s agent (if s.closed then .idle else .recvReadyClosed))
  | .recvReadyClosed => some (goto s agent (if s.closed then .pollHead else .recvReadyHead))
  | .recvReadyHead => some (goto s agent (.recvReadyTail s.head))
  | .recvReadyTail head =>
    if head = s.tail then some (suspend s agent .suspendedRecv) else some (goto s agent .pollHead)
  | .suspendedRecv _ => none
  | .closeStore => some (goto { s with closed := true } agent .wakeLoad)
  | .wakeLoad => some (goto s agent (if s.waiter.isNone then .idle else .wakeExchange))
  | .wakeExchange =>
    match s.waiter with
    | none => some (goto s agent .idle)
    | some taken => some (goto { s with waiter := none } agent (.wakeReactor taken))
  | .wakeReactor taken =>
    if s.reactor then some (goto { s with reactor := false, posted := s.posted ++ [taken] } agent .idle)
    else some (endSuspension (goto s agent .idle) taken (.resumed taken))

def gotoAwait (s : State α) (suspension : Suspension) (pc : Option AwaitPc) : State α :=
  { s with awaits := Function.update s.awaits suspension pc }

def lookAgain (s : State α) (value : Nat) : Agent → Bool
  | .producer => wrap (value + 2 ^ 64 - s.head) < s.capacity
  | _ => value != s.tail

def advanceAwait (s : State α) (suspension : Suspension) (reactor : Bool) : Option (State α) :=
  match s.awaits suspension with
  | none => none
  | some .storeWaiter => some (gotoAwait { s with waiter := some suspension } suspension (some .storeReactor))
  | some .storeReactor => some (gotoAwait { s with reactor } suspension (some .first))
  | some .first =>
    some (gotoAwait s suspension (some (.second (if suspension.agent = .producer then s.tail else s.head))))
  | some (.second value) =>
    some (gotoAwait s suspension (some (if lookAgain s value suspension.agent then .clearWaiter else .closedTest)))
  | some .closedTest => some (gotoAwait s suspension (if s.closed then some .clearWaiter else none))
  | some .clearWaiter => some (gotoAwait { s with waiter := none } suspension (some .clearReactor))
  | some .clearReactor =>
    some (endSuspension (gotoAwait { s with reactor := false } suspension none) suspension (.withdrew suspension))

inductive Label (α : Type) where
  | send (item : α)
  | recv
  | close
  | run (agent : Agent)
  | await (suspension : Suspension) (reactor : Bool)
  | resume (suspension : Suspension)

def isIdle : Pc α → Bool
  | .idle => true
  | _ => false

def start (s : State α) (agent : Agent) (pc : Pc α) : Option (State α) :=
  if isIdle (s.pcs agent) then some (goto s agent pc) else none

def next (s : State α) (label : Label α) : Option (State α) :=
  if s.broken then none
  else match label with
    | .send item => start s .producer (.sendClosed item)
    | .recv => start s .consumer .pollHead
    | .close => start s .closer .closeStore
    | .run agent => advance s agent
    | .await suspension reactor => advanceAwait s suspension reactor
    | .resume suspension =>
      if s.posted.contains suspension then
        some (endSuspension { s with posted := s.posted.erase suspension } suspension (.resumed suspension))
      else none

def initial (capacity : Nat) (buffer : Nat → α) : State α :=
  ⟨capacity, buffer, 0, 0, false, none, false, fun _ => .idle, fun _ => none, fun _ => 0, [], [], false⟩

section Handles

variable {s s' : State α} {t : Suspension}

def takenBy : Pc α → Option Suspension
  | .wakeReactor taken => some taken
  | _ => none

def held (s : State α) (t : Suspension) : Nat :=
  (s.awaits t == some .storeWaiter).toNat + (s.waiter == some t).toNat +
    ((takenBy (s.pcs .producer) == some t).toNat + (takenBy (s.pcs .consumer) == some t).toNat +
      (takenBy (s.pcs .closer) == some t).toNat) + s.posted.count t

inductive Effect (s s' : State α) : Prop where
  | quiet (hHeld : ∀ t, held s' t ≤ held s t) (hSuspended : ∀ a, suspendedIn (s'.pcs a) = suspendedIn (s.pcs a))
      (hAwaits : ∀ t, (s'.awaits t).isSome = true → (s.awaits t).isSome = true) (hBegun : s'.begun = s.begun)
      (hLog : s'.log = s.log) (hBroken : s'.broken = s.broken)
  | begins (a : Agent) (hAwake : suspendedIn (s.pcs a) = none)
    (hHeld : ∀ t, held s' t ≤ held s t + (t == ⟨a, s.begun a⟩).toNat)
      (hSuspended : ∀ b, suspendedIn (s'.pcs b) = if b = a then some (s.begun a) else suspendedIn (s.pcs b))
      (hAwaits : ∀ t, (s'.awaits t).isSome = true → (s.awaits t).isSome = true ∨ t = ⟨a, s.begun a⟩)
      (hBegun : ∀ b, s'.begun b = if b = a then s.begun a + 1 else s.begun b) (hLog : s'.log = s.log)
      (hBroken : s'.broken = s.broken)
  | resumes (t : Suspension) (hHeld : ∀ u, held s' u + (u == t).toNat ≤ held s u)
      (hSuspended : ∀ b, suspendedIn (s'.pcs b) =
        if suspendedIn (s.pcs b) = some t.number ∧ b = t.agent then none else suspendedIn (s.pcs b))
      (hAwaits : ∀ t, (s'.awaits t).isSome = true → (s.awaits t).isSome = true) (hBegun : s'.begun = s.begun)
      (hLog : s'.log = s.log ++ [.resumed t])
      (hBroken : s'.broken = (s.broken || suspendedIn (s.pcs t.agent) != some t.number))
  | withdraws (t : Suspension) (hHeld : ∀ u, held s' u ≤ held s u) (hAwait : s.awaits t = some .clearReactor)
      (hSuspended : ∀ b, suspendedIn (s'.pcs b) =
        if suspendedIn (s.pcs b) = some t.number ∧ b = t.agent then none else suspendedIn (s.pcs b))
      (hAwaits : ∀ u, (s'.awaits u).isSome = true → (s.awaits u).isSome = true ∧ u ≠ t) (hBegun : s'.begun = s.begun)
      (hLog : s'.log = s.log ++ [.withdrew t])
      (hBroken : s'.broken = (s.broken || suspendedIn (s.pcs t.agent) != some t.number))

def Plain (pc : Pc α) : Prop := takenBy pc = none ∧ suspendedIn pc = none

structure Alike (s r : State α) : Prop where
  awaits : r.awaits = s.awaits
  waiter : r.waiter = s.waiter
  pcs : r.pcs = s.pcs
  posted : r.posted = s.posted
  begun : r.begun = s.begun
  log : r.log = s.log
  broken : r.broken = s.broken

theorem alike_refl (s : State α) : Alike s s := ⟨rfl, rfl, rfl, rfl, rfl, rfl, rfl⟩

theorem held_goto (s : State α) (a : Agent) (pc : Pc α) (t : Suspension) :
    held (goto s a pc) t + (takenBy (s.pcs a) == some t).toNat = held s t + (takenBy pc == some t).toNat := by
  cases a <;> simp only [held, goto, update_self, ne_eq, reduceCtorEq, not_false_eq_true, update_of_ne] <;> omega

theorem suspendedIn_goto (s : State α) (a b : Agent) (pc : Pc α) :
    suspendedIn ((goto s a pc).pcs b) = if b = a then suspendedIn pc else suspendedIn (s.pcs b) := by
  simp only [goto, update_apply]
  split_ifs <;> rfl

variable {r : State α} {a : Agent} {pc : Pc α}

theorem quiet_goto (hAlike : Alike s r) (hOld : Plain (s.pcs a)) (hNew : Plain pc) : Effect s (goto r a pc) := by
  refine .quiet (fun t => ?_) (fun b => ?_) (fun t hSome => ?_) hAlike.begun hAlike.log hAlike.broken
  · have hGoto := held_goto r a pc t
    have hSame : held r t = held s t := by
      rw [held, held, hAlike.awaits, hAlike.waiter, hAlike.pcs, hAlike.posted]
    rw [hAlike.pcs, hOld.1, hNew.1] at hGoto
    omega
  · rw [suspendedIn_goto, hAlike.pcs]
    split_ifs with hb
    · rw [hb, hNew.2, hOld.2]
    · rfl
  · rw [← hAlike.awaits]
    exact hSome

theorem takenBy_suspended {number : Nat} (hPc : suspendedIn pc = some number) : takenBy pc = none := by
  cases pc <;> first | rfl | cases hPc

theorem plain_wakeUp {number : Nat} (hPc : suspendedIn pc = some number) : Plain (wakeUp pc) := by
  cases pc <;> first | exact ⟨rfl, rfl⟩ | cases hPc

theorem held_endSuspension (s : State α) (t u : Suspension) (event : Event) :
    held (endSuspension s t event) u = held s u := by
  rw [endSuspension]
  split_ifs with hHere
  · have hGoto := held_goto s t.agent (wakeUp (s.pcs t.agent)) u
    rw [takenBy_suspended hHere, (plain_wakeUp hHere).1] at hGoto
    exact Nat.add_right_cancel hGoto
  · rfl

theorem suspendedIn_endSuspension (s : State α) (t : Suspension) (event : Event) (b : Agent) :
    suspendedIn ((endSuspension s t event).pcs b) =
      if suspendedIn (s.pcs b) = some t.number ∧ b = t.agent then none else suspendedIn (s.pcs b) := by
  rw [endSuspension]
  split_ifs with hHere hBoth hBoth
  · obtain ⟨-, rfl⟩ := hBoth
    simp only [goto, update_self]
    exact (plain_wakeUp hHere).2
  · by_cases hb : b = t.agent
    · subst hb
      exact absurd ⟨hHere, rfl⟩ hBoth
    · simp only [goto, update_of_ne hb]
  · obtain ⟨hSame, rfl⟩ := hBoth
    exact absurd hSame hHere
  · rfl

theorem broken_endSuspension (s : State α) (t : Suspension) (event : Event) :
    let s' := endSuspension s t event
    s'.broken = (s.broken || suspendedIn (s.pcs t.agent) != some t.number) ∧ s'.log = s.log ++ [event] ∧
      s'.awaits = s.awaits ∧ s'.begun = s.begun := by
  rw [endSuspension]
  split_ifs with hHere
  · simp [goto, hHere]
  · simp [hHere]

theorem resumes_end (hHeld : ∀ u, held r u + (u == t).toNat ≤ held s u)
    (hPcs : ∀ b, suspendedIn (r.pcs b) = suspendedIn (s.pcs b)) (hAwaits : r.awaits = s.awaits)
    (hBegun : r.begun = s.begun) (hLog : r.log = s.log) (hBroken : r.broken = s.broken) :
    Effect s (endSuspension r t (.resumed t)) := by
  obtain ⟨hBroken', hLog', hAwaits', hBegun'⟩ := broken_endSuspension r t (.resumed t)
  refine .resumes t (fun u => ?_) (fun b => ?_) (fun u hSome => ?_) (hBegun'.trans hBegun) (by rw [hLog', hLog])
    (by rw [hBroken', hBroken, hPcs])
  · rw [held_endSuspension]
    exact hHeld u
  · rw [suspendedIn_endSuspension, hPcs]
  · rw [hAwaits', hAwaits] at hSome
    exact hSome

theorem held_gotoAwait (s : State α) (t : Suspension) {pc : Option AwaitPc} (hPc : pc ≠ some .storeWaiter)
    (u : Suspension) :
    held (gotoAwait s t pc) u ≤ held s u := by
  by_cases hu : u = t
  · subst hu
    have hNot : (pc == some .storeWaiter) = false := beq_false_of_ne hPc
    simp only [held, gotoAwait, update_self, hNot, Bool.toNat_false]
    omega
  · simp only [held, gotoAwait, update_of_ne hu]
    exact Nat.le_refl _

/-- A store to `waiter_` of null drops the handle in it. -/
theorem held_clear (s : State α) (u : Suspension) : held { s with waiter := none } u ≤ held s u := by
  simp only [held]
  have hNone : ((none : Option Suspension) == some u) = false := rfl
  rw [hNone, Bool.toNat_false]
  omega

theorem held_register (s : State α) (t u : Suspension) (hAwait : s.awaits t = some .storeWaiter) :
    held (gotoAwait { s with waiter := some t } t (some .storeReactor)) u ≤ held s u := by
  by_cases hu : u = t
  · subst hu
    simp only [held, gotoAwait, update_self, hAwait, beq_self_eq_true, Bool.toNat_true]
    have hNot : (some AwaitPc.storeReactor == some .storeWaiter) = false := rfl
    rw [hNot, Bool.toNat_false]
    omega
  · have hOther : (some t == some u) = false := beq_false_of_ne fun hEq => hu (Option.some.inj hEq).symm
    simp only [held, gotoAwait, update_of_ne hu, hOther, Bool.toNat_false]
    omega

theorem awaits_gotoAwait (s : State α) (t : Suspension) (pc : Option AwaitPc) (hAwait : (s.awaits t).isSome = true)
    (u : Suspension) (hSome : ((gotoAwait s t pc).awaits u).isSome = true) : (s.awaits u).isSome = true := by
  by_cases hu : u = t
  · rw [hu]
    exact hAwait
  · simp only [gotoAwait, update_of_ne hu] at hSome
    exact hSome

theorem quiet_await {pc : Option AwaitPc} (hAwait : (s.awaits t).isSome = true)
    (hHeld : ∀ u, held (gotoAwait r t pc) u ≤ held s u) (hPcs : r.pcs = s.pcs) (hAwaits : r.awaits = s.awaits)
    (hBegun : r.begun = s.begun) (hLog : r.log = s.log) (hBroken : r.broken = s.broken) :
    Effect s (gotoAwait r t pc) := by
  refine .quiet hHeld (fun b => congrArg (fun pcs => suspendedIn (pcs b)) hPcs) (fun u hSome => ?_) hBegun hLog hBroken
  rw [← hAwaits] at hAwait ⊢
  exact awaits_gotoAwait r t pc hAwait u hSome

theorem suspend_effect {pc : Nat → Pc α} (hOld : Plain (s.pcs a)) (hTaken : ∀ n, takenBy (pc n) = none)
    (hPc : ∀ n, suspendedIn (pc n) = some n) : Effect s (suspend s a pc) := by
  refine .begins a hOld.2 (fun t => ?_) (fun b => ?_) (fun t hSome => ?_) (fun b => ?_) rfl rfl
  · have hGoto := held_goto s a (pc (s.begun a)) t
    rw [hOld.1, hTaken] at hGoto
    have hSame : held (goto s a (pc (s.begun a))) t = held s t := Nat.add_right_cancel hGoto
    rw [← hSame]
    simp only [held, suspend, goto, update_apply]
    by_cases ht : t = ⟨a, s.begun a⟩
    · simp only [ht, if_true, beq_self_eq_true, Bool.toNat_true]
      omega
    · simp only [ht, if_false]
      omega
  · have hGoto := suspendedIn_goto s a b (pc (s.begun a))
    rw [hPc] at hGoto
    exact hGoto
  · simp only [suspend, update_apply] at hSome
    by_cases ht : t = ⟨a, s.begun a⟩
    · exact .inr ht
    · rw [if_neg ht] at hSome
      exact .inl hSome
  · simp only [suspend, update_apply]

theorem plain_ite {p : Prop} [Decidable p] {left right : Pc α} (hLeft : Plain left) (hRight : Plain right) :
    Plain (if p then left else right) := by
  split_ifs
  · exact hLeft
  · exact hRight

theorem advance_effect (hStep : advance s a = some s') : Effect s s' := by
  have hGoto : ∀ {r : State α} {old pc : Pc α}, some (goto r a pc) = some s' → s.pcs a = old → Plain old → Alike s r →
      Plain pc → Effect s s' := by
    intro r old pc hSome hPc hOld hAlike hNew
    cases hSome
    exact quiet_goto hAlike (hPc ▸ hOld) hNew
  rw [advance] at hStep
  cases hPc : s.pcs a with simp only [hPc, reduceCtorEq] at hStep
  | sendClosed | implClosed | readyClosed | resumedClosed | pollTail | testClosed | recvReadyClosed | wakeLoad =>
    exact hGoto hStep hPc ⟨rfl, rfl⟩ (alike_refl s) (plain_ite ⟨rfl, rfl⟩ ⟨rfl, rfl⟩)
  | implTail | readyTail | pollHead | recvReadyHead =>
    exact hGoto hStep hPc ⟨rfl, rfl⟩ (alike_refl s) ⟨rfl, rfl⟩
  | implStore | pollStore | closeStore =>
    exact hGoto hStep hPc ⟨rfl, rfl⟩ ⟨rfl, rfl, rfl, rfl, rfl, rfl, rfl⟩ ⟨rfl, rfl⟩
  | implHead item tail =>
    split_ifs at hStep
    · exact hGoto hStep hPc ⟨rfl, rfl⟩ (alike_refl s) ⟨rfl, rfl⟩
    · exact hGoto hStep hPc ⟨rfl, rfl⟩ ⟨rfl, rfl, rfl, rfl, rfl, rfl, rfl⟩ ⟨rfl, rfl⟩
  | readyHead item tail =>
    split_ifs at hStep
    · exact hGoto hStep hPc ⟨rfl, rfl⟩ (alike_refl s) ⟨rfl, rfl⟩
    · cases hStep
      exact suspend_effect (by rw [hPc]; exact ⟨rfl, rfl⟩) (fun n => rfl) fun n => rfl
  | recvReadyTail head =>
    split_ifs at hStep
    · cases hStep
      exact suspend_effect (by rw [hPc]; exact ⟨rfl, rfl⟩) (fun n => rfl) fun n => rfl
    · exact hGoto hStep hPc ⟨rfl, rfl⟩ (alike_refl s) ⟨rfl, rfl⟩
  | wakeExchange =>
    cases hWaiter : s.waiter with
    | none =>
      rw [hWaiter] at hStep
      exact hGoto hStep hPc ⟨rfl, rfl⟩ (alike_refl s) ⟨rfl, rfl⟩
    | some taken =>
      rw [hWaiter] at hStep
      cases hStep
      refine .quiet (fun t => ?_) (fun b => ?_) (fun t hSome => hSome) rfl rfl rfl
      · have hMoved := held_goto { s with waiter := none } a (.wakeReactor taken) t
        simp only [held, hWaiter] at hMoved ⊢
        have hNone : ((none : Option Suspension) == some t) = false := rfl
        simp only [takenBy, hNone, Bool.toNat_false] at hMoved ⊢
        omega
      · rw [suspendedIn_goto]
        split_ifs with hb
        · rw [hb, hPc]
          rfl
        · rfl
  | wakeReactor taken =>
    have hDropped : ∀ {r : State α}, r.pcs = s.pcs → ∀ t, held (goto r a .idle) t + (t == taken).toNat = held r t := by
      intro r hPcs t
      have hMoved := held_goto r a .idle t
      rw [hPcs, hPc] at hMoved
      have hSame : (some taken == some t) = (t == taken) := by
        exact BEq.comm
      simp only [takenBy] at hMoved
      rw [hSame] at hMoved
      exact hMoved
    have hQuiet : ∀ {r : State α}, r.pcs = s.pcs →
        ∀ b, suspendedIn ((goto r a .idle).pcs b) = suspendedIn (s.pcs b) := by
      intro r hPcs b
      rw [suspendedIn_goto, hPcs]
      split_ifs with hb
      · rw [hb, hPc]
        rfl
      · rfl
    split_ifs at hStep
    · cases hStep
      refine .quiet (fun t => ?_) (hQuiet rfl) (fun t hSome => hSome) rfl rfl rfl
      have hMoved := hDropped (r := { s with reactor := false, posted := s.posted ++ [taken] }) rfl t
      have hCount : (s.posted ++ [taken]).count t = s.posted.count t + (t == taken).toNat := by
        by_cases ht : t = taken
        · simp [ht]
        · simp [ht, Ne.symm ht]
      simp only [held, hCount] at hMoved ⊢
      omega
    · cases hStep
      exact resumes_end (fun u => Nat.le_of_eq (hDropped rfl u)) (hQuiet rfl) rfl rfl rfl rfl

theorem advanceAwait_effect {reactor : Bool} (hStep : advanceAwait s t reactor = some s') : Effect s s' := by
  rw [advanceAwait] at hStep
  cases hPc : s.awaits t with
  | none => rw [hPc] at hStep; cases hStep
  | some pc =>
    have hAwait : (s.awaits t).isSome = true := by rw [hPc]; rfl
    rw [hPc] at hStep
    cases pc with cases hStep
    | storeWaiter =>
      exact quiet_await hAwait (fun u => held_register s t u hPc) rfl rfl rfl rfl rfl
    | storeReactor =>
      exact quiet_await hAwait (held_gotoAwait { s with reactor } t (by decide)) rfl rfl rfl rfl rfl
    | first =>
      exact quiet_await hAwait (held_gotoAwait s t (by simp)) rfl rfl rfl rfl rfl
    | second value | closedTest =>
      exact quiet_await hAwait (held_gotoAwait s t (by split <;> decide)) rfl rfl rfl rfl rfl
    | clearWaiter =>
      refine quiet_await hAwait (fun u => ?_) rfl rfl rfl rfl rfl
      exact Nat.le_trans (held_gotoAwait { s with waiter := none } t (by decide) u) (held_clear s u)
    | clearReactor =>
      obtain ⟨hBroken, hLog, hAwaits, hBegun⟩ :=
        broken_endSuspension (gotoAwait { s with reactor := false } t none) t (.withdrew t)
      refine .withdraws t (fun u => ?_) hPc (fun b => ?_) (fun u hSome => ?_) hBegun hLog hBroken
      · rw [held_endSuspension]
        exact held_gotoAwait { s with reactor := false } t (by decide) u
      · exact suspendedIn_endSuspension _ t _ b
      · rw [hAwaits] at hSome
        refine ⟨awaits_gotoAwait { s with reactor := false } t none hAwait u hSome, ?_⟩
        rintro rfl
        simp [gotoAwait] at hSome

theorem next_effect {label : Label α} (hNext : next s label = some s') : s.broken = false ∧ Effect s s' := by
  unfold next at hNext
  split_ifs at hNext with hBroken
  refine ⟨Bool.eq_false_iff.mpr hBroken, ?_⟩
  have hStart : ∀ {a : Agent} {pc : Pc α}, Plain pc → start s a pc = some s' → Effect s s' := by
    intro a pc hNew hSome
    rw [start] at hSome
    split_ifs at hSome with hIdle
    cases hSome
    refine quiet_goto (alike_refl s) ?_ hNew
    cases hPc : s.pcs a <;> rw [hPc] at hIdle <;> first | exact ⟨rfl, rfl⟩ | cases hIdle
  cases label with
  | send item | recv | close => exact hStart ⟨rfl, rfl⟩ hNext
  | run a => exact advance_effect hNext
  | await t reactor => exact advanceAwait_effect hNext
  | resume t =>
    simp only at hNext
    split_ifs at hNext with hPosted
    cases hNext
    refine resumes_end (fun u => ?_) (fun b => rfl) rfl rfl rfl rfl
    have hMem : t ∈ s.posted := List.contains_iff_mem.mp hPosted
    have hCount : (s.posted.erase t).count u + (u == t).toNat = s.posted.count u := by
      by_cases hu : u = t
      · subst hu
        have hPos : 0 < s.posted.count u := List.count_pos_iff.mpr hMem
        rw [List.count_erase_self, beq_self_eq_true, Bool.toNat_true]
        omega
      · rw [List.count_erase_of_ne hu, beq_false_of_ne hu]
        rfl
    simp only [held]
    omega

end Handles

section Account

variable {s s' : State α} {t : Suspension}

/-- Every suspension has one `await_suspend` and one handle, which is in one place until it is
resumed or dropped. -/
structure Accounted (s : State α) : Prop where
  once : ∀ t, held s t ≤ 1
  single : ∀ t, s.log.count (.resumed t) ≤ 1
  handles : ∀ t, 0 < held s t → t.number < s.begun t.agent ∧ .resumed t ∉ s.log ∧
    (suspendedIn (s.pcs t.agent) = some t.number ∨ .withdrew t ∈ s.log)
  awaiting : ∀ t, (s.awaits t).isSome = true → t.number < s.begun t.agent ∧ .withdrew t ∉ s.log ∧
    (suspendedIn (s.pcs t.agent) = some t.number ∨ .resumed t ∈ s.log)
  suspended : ∀ t, suspendedIn (s.pcs t.agent) = some t.number → t.number < s.begun t.agent ∧ .resumed t ∉ s.log ∧
    .withdrew t ∉ s.log
  recorded : ∀ t, .resumed t ∈ s.log ∨ .withdrew t ∈ s.log → t.number < s.begun t.agent

theorem accounted_initial (capacity : Nat) (buffer : Nat → α) : Accounted (initial capacity buffer) where
  once t := by simp [held, initial, takenBy]
  single t := Nat.zero_le 1
  handles t hHeld := by simp [held, initial, takenBy] at hHeld
  awaiting := nofun
  suspended := nofun
  recorded t hLog := by simp [initial] at hLog

theorem Accounted.begins (hAcc : Accounted s) {a : Agent} (hAwake : suspendedIn (s.pcs a) = none)
    (hHeld : ∀ t, held s' t ≤ held s t + (t == ⟨a, s.begun a⟩).toNat)
    (hSuspended : ∀ b, suspendedIn (s'.pcs b) = if b = a then some (s.begun a) else suspendedIn (s.pcs b))
    (hAwaits : ∀ t, (s'.awaits t).isSome = true → (s.awaits t).isSome = true ∨ t = ⟨a, s.begun a⟩)
    (hBegun : ∀ b, s'.begun b = if b = a then s.begun a + 1 else s.begun b) (hLog : s'.log = s.log) :
    Accounted s' := by
  have hNew : held s ⟨a, s.begun a⟩ = 0 ∧ .resumed ⟨a, s.begun a⟩ ∉ s.log ∧ .withdrew ⟨a, s.begun a⟩ ∉ s.log := by
    refine ⟨?_, fun hMem => ?_, fun hMem => ?_⟩
    · by_contra hNot
      exact absurd (hAcc.handles _ (Nat.pos_of_ne_zero hNot)).1 (Nat.lt_irrefl _)
    · exact absurd (hAcc.recorded _ (.inl hMem)) (Nat.lt_irrefl _)
    · exact absurd (hAcc.recorded _ (.inr hMem)) (Nat.lt_irrefl _)
  have hGrows : ∀ {t : Suspension}, t.number < s.begun t.agent → t.number < s'.begun t.agent := by
    intro t hLt
    rw [hBegun]
    split_ifs with ha
    · rw [ha] at hLt
      omega
    · exact hLt
  have hHere : s.begun a < s'.begun a := by rw [hBegun, if_pos rfl]; exact Nat.lt_succ_self _
  have hOld : ∀ {t : Suspension}, suspendedIn (s.pcs t.agent) = some t.number →
      suspendedIn (s'.pcs t.agent) = some t.number := by
    intro t hPc
    rw [hSuspended, if_neg, hPc]
    intro ha
    rw [ha, hAwake] at hPc
    cases hPc
  constructor
  case once =>
    intro t
    by_cases ht : t = ⟨a, s.begun a⟩
    · have hOne := hHeld t
      rw [ht, hNew.1, beq_self_eq_true] at hOne
      rw [ht]
      exact hOne
    · have hSame := hHeld t
      rw [beq_false_of_ne ht] at hSame
      exact Nat.le_trans hSame (hAcc.once t)
  case single => intro t; rw [hLog]; exact hAcc.single t
  case handles =>
    intro t hPos
    rw [hLog]
    by_cases ht : t = ⟨a, s.begun a⟩
    · subst ht
      exact ⟨hHere, hNew.2.1, .inl (by rw [hSuspended, if_pos rfl])⟩
    · have hSame := hHeld t
      rw [beq_false_of_ne ht] at hSame
      obtain ⟨hLt, hLive, hEnd⟩ := hAcc.handles t (Nat.lt_of_lt_of_le hPos hSame)
      exact ⟨hGrows hLt, hLive, hEnd.imp_left hOld⟩
  case awaiting =>
    intro t hAwait
    rw [hLog]
    rcases hAwaits t hAwait with hBefore | rfl
    · obtain ⟨hLt, hLive, hEnd⟩ := hAcc.awaiting t hBefore
      exact ⟨hGrows hLt, hLive, hEnd.imp_left hOld⟩
    · exact ⟨hHere, hNew.2.2, .inl (by rw [hSuspended, if_pos rfl])⟩
  case suspended =>
    intro t hPc
    rw [hLog]
    rw [hSuspended] at hPc
    split_ifs at hPc with ha
    · have ht : t = ⟨a, s.begun a⟩ := by
        cases t
        simp only at ha hPc
        rw [ha, Option.some.inj hPc]
      subst ht
      exact ⟨hHere, hNew.2⟩
    · obtain ⟨hLt, hEnds⟩ := hAcc.suspended t hPc
      exact ⟨hGrows hLt, hEnds⟩
  case recorded =>
    intro t hMem
    rw [hLog] at hMem
    exact hGrows (hAcc.recorded t hMem)

theorem suspended_kept (hSuspended : ∀ b, suspendedIn (s'.pcs b) =
      if suspendedIn (s.pcs b) = some t.number ∧ b = t.agent then none else suspendedIn (s.pcs b))
    {u : Suspension} : suspendedIn (s'.pcs u.agent) = some u.number ↔
      suspendedIn (s.pcs u.agent) = some u.number ∧ u ≠ t := by
  rw [hSuspended]
  split_ifs with hBoth
  · obtain ⟨hNumber, hAgent⟩ := hBoth
    refine ⟨fun h => (by cases h), fun h => absurd ?_ h.2⟩
    have hPc := h.1
    cases u
    cases t
    simp only at hAgent hPc hNumber
    subst hAgent
    rw [hNumber] at hPc
    rw [Option.some.inj hPc]
  · refine ⟨fun hPc => ⟨hPc, ?_⟩, fun h => h.1⟩
    rintro rfl
    exact hBoth ⟨hPc, rfl⟩

/-- One end of a suspension is recorded: its handle was resumed, or its `await_suspend` has returned
false. If the suspension was over, the other one is in the log. -/
theorem Accounted.ends (hAcc : Accounted s) {event other : Event}
    (hEvent : event = .resumed t ∧ other = .withdrew t ∨ event = .withdrew t ∧ other = .resumed t)
    (hEnd : t.number < s.begun t.agent ∧ event ∉ s.log ∧ (suspendedIn (s.pcs t.agent) = some t.number ∨ other ∈ s.log))
    (hHeld : ∀ u, held s' u ≤ held s u) (hTaken : ∀ u, 0 < held s' u → event ≠ .resumed u)
    (hAwaits : ∀ u, (s'.awaits u).isSome = true → (s.awaits u).isSome = true ∧ event ≠ .withdrew u)
    (hSuspended : ∀ b, suspendedIn (s'.pcs b) =
      if suspendedIn (s.pcs b) = some t.number ∧ b = t.agent then none else suspendedIn (s.pcs b))
    (hBegun : s'.begun = s.begun) (hLog : s'.log = s.log ++ [event]) : Accounted s' := by
  obtain ⟨hNumber, hFirst, hEnd⟩ := hEnd
  have hMem : ∀ e, e ∈ s'.log ↔ e ∈ s.log ∨ e = event := by
    intro e
    rw [hLog, List.mem_append, List.mem_singleton]
  have hHere : ∀ {u}, event = .resumed u ∨ event = .withdrew u → u = t := by
    intro u hThis
    rcases hEvent with ⟨rfl, -⟩ | ⟨rfl, -⟩ <;> simpa [eq_comm] using hThis
  have hKept := fun u : Suspension => suspended_kept (u := u) hSuspended
  constructor
  case once => intro u; exact Nat.le_trans (hHeld u) (hAcc.once u)
  case single =>
    intro u
    rw [hLog, List.count_append, List.count_singleton]
    split_ifs with hThis
    · rw [← beq_iff_eq.mp hThis, List.count_eq_zero.mpr hFirst]
    · exact hAcc.single u
  case handles =>
    intro u hPos
    have hNot := hTaken u hPos
    obtain ⟨hLt, hLive, hEnds⟩ := hAcc.handles u (Nat.lt_of_lt_of_le hPos (hHeld u))
    rw [hBegun, hMem, hMem, hKept]
    refine ⟨hLt, fun h => h.elim hLive (Ne.symm hNot), ?_⟩
    by_cases hu : u = t
    · subst hu
      exact .inr (.inr (hEvent.resolve_left fun h => hNot h.1).1.symm)
    · exact hEnds.imp (fun hPc => ⟨hPc, hu⟩) .inl
  case awaiting =>
    intro u hSome
    obtain ⟨hBefore, hNot⟩ := hAwaits u hSome
    obtain ⟨hLt, hLive, hEnds⟩ := hAcc.awaiting u hBefore
    rw [hBegun, hMem, hMem, hKept]
    refine ⟨hLt, fun h => h.elim hLive (Ne.symm hNot), ?_⟩
    by_cases hu : u = t
    · subst hu
      exact .inr (.inr (hEvent.resolve_right fun h => hNot h.1).1.symm)
    · exact hEnds.imp (fun hPc => ⟨hPc, hu⟩) .inl
  case suspended =>
    intro u hPc
    obtain ⟨hBefore, hu⟩ := (hKept u).mp hPc
    obtain ⟨hLt, hLive, hStays⟩ := hAcc.suspended u hBefore
    rw [hBegun, hMem, hMem]
    exact ⟨hLt, fun h => h.elim hLive fun hThis => hu (hHere (.inl hThis.symm)),
      fun h => h.elim hStays fun hThis => hu (hHere (.inr hThis.symm))⟩
  case recorded =>
    intro u hEnds
    rw [hMem, hMem] at hEnds
    rw [hBegun]
    rcases hEnds with (hOld | hThis) | hOld | hThis
    · exact hAcc.recorded u (.inl hOld)
    · exact hHere (.inl hThis.symm) ▸ hNumber
    · exact hAcc.recorded u (.inr hOld)
    · exact hHere (.inr hThis.symm) ▸ hNumber

/-- Every access keeps the account of handles and suspensions. -/
theorem Accounted.next {label : Label α} (hAcc : Accounted s) (hNext : next s label = some s') : Accounted s' := by
  cases (next_effect hNext).2 with
  | quiet hHeld hSuspended hAwaits hBegun hLog _ =>
    refine ⟨fun t => (hHeld t).trans (hAcc.once t), ?_, ?_, ?_, ?_, ?_⟩ <;>
      simp only [hLog, hBegun, hSuspended]
    · exact hAcc.single
    · exact fun t hPos => hAcc.handles t (Nat.lt_of_lt_of_le hPos (hHeld t))
    · exact fun t hAwait => hAcc.awaiting t (hAwaits t hAwait)
    · exact hAcc.suspended
    · exact hAcc.recorded
  | begins a hAwake hHeld hSuspended hAwaits hBegun hLog _ =>
    exact hAcc.begins hAwake hHeld hSuspended hAwaits hBegun hLog
  | resumes t hHeld hSuspended hAwaits hBegun hLog _ =>
    have hOnce := hAcc.once t
    have hTaken := hHeld t
    rw [beq_self_eq_true, Bool.toNat_true] at hTaken
    refine hAcc.ends (.inl ⟨rfl, rfl⟩) (hAcc.handles t (by omega)) (fun u => Nat.le_of_add_right_le (hHeld u)) ?_
      (fun u hSome => ⟨hAwaits u hSome, by simp⟩) hSuspended hBegun hLog
    rintro u hPos hThis
    cases hThis
    omega
  | withdraws t hHeld hAwait hSuspended hAwaits hBegun hLog _ =>
    refine hAcc.ends (.inr ⟨rfl, rfl⟩) (hAcc.awaiting t (by rw [hAwait]; rfl)) hHeld (fun u _ => by simp)
      (fun u hSome => ?_)
      hSuspended hBegun hLog
    obtain ⟨hBefore, hu⟩ := hAwaits u hSome
    exact ⟨hBefore, fun hThis => hu (Event.withdrew.inj hThis).symm⟩

variable {capacity : Nat} {buffer : Nat → α} {labels : List (Label α)}

end Account

section Withdrawal

variable {s s' : State α} {t : Suspension}

/-- An `await_suspend` clears `waiter_` only while no agent holds its handle, it is not posted, and
it has not been resumed. -/
def Unclaimed (s : State α) : Label α → Prop
  | .await t _ => s.awaits t = some .clearWaiter →
    (∀ a, takenBy (s.pcs a) ≠ some t) ∧ t ∉ s.posted ∧ .resumed t ∉ s.log
  | _ => True

instance (s : State α) (label : Label α) : Decidable (Unclaimed s label) := by
  cases label with
  | await t reactor =>
    have hAgents : Decidable (∀ a, takenBy (s.pcs a) ≠ some t) :=
      decidable_of_iff (takenBy (s.pcs .producer) ≠ some t ∧ takenBy (s.pcs .consumer) ≠ some t ∧
        takenBy (s.pcs .closer) ≠ some t) ⟨fun h a => by cases a <;> simp [h], fun h => ⟨h _, h _, h _⟩⟩
    exact inferInstanceAs (Decidable (_ → _))
  | _ => exact .isTrue trivial

theorem advance_awaits {a : Agent} (hStep : advance s a = some s') :
    s'.awaits t = s.awaits t ∨ s'.awaits t = some .storeWaiter := by
  have hSuspend : ∀ pc, (suspend s a pc).awaits t = s.awaits t ∨ (suspend s a pc).awaits t = some .storeWaiter := by
    intro pc
    simp only [suspend, update_apply]
    split_ifs
    · exact .inr rfl
    · exact .inl rfl
  rw [advance] at hStep
  cases hPc : s.pcs a with simp only [hPc, reduceCtorEq] at hStep
  | implHead | readyHead | recvReadyTail | wakeReactor =>
    split_ifs at hStep
    all_goals cases hStep
    all_goals first | exact .inl rfl | exact hSuspend _ | exact .inl (congrFun (broken_endSuspension _ _ _).2.2.1 t)
  | wakeExchange =>
    split at hStep
    all_goals cases hStep
    all_goals exact .inl rfl
  | _ =>
    cases hStep
    exact .inl rfl

/-- The last access of an `await_suspend` comes after it has cleared `waiter_`. -/
theorem clearing_next {label : Label α} (hNext : next s label = some s') (hClear : s'.awaits t = some .clearReactor) :
    s.awaits t = some .clearReactor ∨ (∃ reactor, label = .await t reactor) ∧ s.awaits t = some .clearWaiter ∧
      s' = gotoAwait { s with waiter := none } t (some .clearReactor) := by
  unfold next at hNext
  split_ifs at hNext
  cases label with
  | send | recv | close =>
    simp only [start] at hNext
    split_ifs at hNext
    cases hNext
    exact .inl hClear
  | run a =>
    rcases advance_awaits hNext (t := t) with hSame | hNew
    · exact .inl (hSame ▸ hClear)
    · rw [hNew] at hClear
      cases hClear
  | resume u =>
    simp only at hNext
    split_ifs at hNext
    cases hNext
    rw [(broken_endSuspension _ _ _).2.2.1] at hClear
    exact .inl hClear
  | await u reactor =>
    simp only [advanceAwait] at hNext
    cases hPc : s.awaits u with
    | none =>
      rw [hPc] at hNext
      cases hNext
    | some pc =>
      rw [hPc] at hNext
      by_cases hu : t = u
      · subst hu
        cases pc with cases hNext
        | clearWaiter => exact .inr ⟨⟨reactor, rfl⟩, hPc, rfl⟩
        | clearReactor =>
          rw [(broken_endSuspension _ _ _).2.2.1] at hClear
          simp [gotoAwait] at hClear
        | second value | closedTest =>
          simp only [gotoAwait, update_self] at hClear
          split at hClear
          all_goals cases hClear
        | _ => simp [gotoAwait] at hClear
      · left
        cases pc with cases hNext
        | clearReactor =>
          rw [(broken_endSuspension _ _ _).2.2.1] at hClear
          simpa [gotoAwait, hu] using hClear
        | _ => simpa [gotoAwait, hu] using hClear

structure Withdrawn (s : State α) : Prop where
  accounted : Accounted s
  intact : s.broken = false
  clearing : ∀ t, s.awaits t = some .clearReactor → held s t = 0 ∧ .resumed t ∉ s.log
  withdrew : ∀ t, .withdrew t ∈ s.log → held s t = 0 ∧ .resumed t ∉ s.log

/-- A handle that is nowhere stays nowhere, and is not resumed. -/
theorem Effect.gone (hEffect : Effect s s') (hOld : t.number < s.begun t.agent)
    (hGone : held s t = 0 ∧ .resumed t ∉ s.log) : held s' t = 0 ∧ .resumed t ∉ s'.log := by
  cases hEffect with
  | quiet hHeld _ _ _ hLog _ =>
    rw [hLog]
    exact ⟨Nat.eq_zero_of_le_zero (hGone.1 ▸ hHeld t), hGone.2⟩
  | begins a _ hHeld _ _ _ hLog _ =>
    have hOther : t ≠ ⟨a, s.begun a⟩ := by
      rintro rfl
      exact absurd hOld (Nat.lt_irrefl _)
    have hSame := hHeld t
    rw [beq_false_of_ne hOther, hGone.1] at hSame
    rw [hLog]
    exact ⟨Nat.eq_zero_of_le_zero hSame, hGone.2⟩
  | resumes u hHeld _ _ _ hLog _ =>
    have hOther : t ≠ u := by
      rintro rfl
      have hTaken := hHeld t
      rw [beq_self_eq_true, hGone.1] at hTaken
      exact absurd hTaken (Nat.not_succ_le_zero _)
    have hLess := hHeld t
    rw [hGone.1] at hLess
    rw [hLog, List.mem_append, List.mem_singleton, Event.resumed.injEq]
    exact ⟨by omega, fun h => h.elim hGone.2 hOther⟩
  | withdraws u hHeld _ _ _ _ hLog _ =>
    rw [hLog]
    exact ⟨Nat.eq_zero_of_le_zero (hGone.1 ▸ hHeld t), by simpa using hGone.2⟩

/-- An unclaimed withdrawal leaves its handle nowhere. -/
theorem Withdrawn.next {label : Label α} (hSafe : Withdrawn s) (hUnclaimed : Unclaimed s label)
    (hNext : next s label = some s') : Withdrawn s' := by
  have hAcc := hSafe.accounted
  have hEffect := (next_effect hNext).2
  refine ⟨hAcc.next hNext, ?_, fun t hClear => ?_, fun t hMem => ?_⟩
  · cases hEffect with
    | quiet _ _ _ _ _ hBroken | begins _ _ _ _ _ _ _ hBroken => exact hBroken.trans hSafe.intact
    | resumes t hHeld _ _ _ _ hBroken =>
      have hTaken := hHeld t
      rw [beq_self_eq_true, Bool.toNat_true] at hTaken
      have hSuspended : suspendedIn (s.pcs t.agent) = some t.number := by
        refine (hAcc.handles t (by omega)).2.2.resolve_right fun hMem => ?_
        have hNowhere := (hSafe.withdrew t hMem).1
        omega
      rw [hBroken, hSafe.intact, hSuspended]
      simp
    | withdraws t _ hAwait _ _ _ _ hBroken =>
      have hSuspended : suspendedIn (s.pcs t.agent) = some t.number :=
        (hAcc.awaiting t (by rw [hAwait]; rfl)).2.2.resolve_right (hSafe.clearing t hAwait).2
      rw [hBroken, hSafe.intact, hSuspended]
      simp
  · rcases clearing_next hNext hClear with hBefore | ⟨⟨reactor, rfl⟩, hBefore, rfl⟩
    · exact hEffect.gone (hAcc.awaiting t (by rw [hBefore]; rfl)).1 (hSafe.clearing t hBefore)
    · obtain ⟨hTaken, hPosted, hResumed⟩ := hUnclaimed hBefore
      refine ⟨?_, hResumed⟩
      simp [held, gotoAwait, hTaken, List.count_eq_zero.mpr hPosted]
  · have hBefore : .withdrew t ∈ s.log ∨ s.awaits t = some .clearReactor := by
      cases hEffect with
      | quiet _ _ _ _ hLog _ | begins _ _ _ _ _ _ hLog _ => exact .inl (hLog ▸ hMem)
      | resumes u _ _ _ _ hLog _ =>
        rw [hLog] at hMem
        exact .inl (by simpa using hMem)
      | withdraws u _ hAwait _ _ _ hLog _ =>
        rw [hLog, List.mem_append, List.mem_singleton, Event.withdrew.injEq] at hMem
        rcases hMem with hMem | rfl
        · exact .inl hMem
        · exact .inr hAwait
    rcases hBefore with hMem | hClear
    · exact hEffect.gone (hAcc.recorded t (.inr hMem)) (hSafe.withdrew t hMem)
    · exact hEffect.gone (hAcc.awaiting t (by rw [hClear]; rfl)).1 (hSafe.clearing t hClear)

variable {capacity : Nat} {buffer : Nat → α}

/-- No handle is resumed twice. If every `await_suspend` clears `waiter_` only while its handle is unclaimed, every
suspension ends once: by a resumption or by its return, never by both. -/
theorem endsOnce (labels : List (Label α)) :
    LabelledRuns.Always next (fun s => ∀ t, s.log.count (.resumed t) ≤ 1) labels (initial capacity buffer) ∧
    (LabelledRuns.Meets next Unclaimed labels (initial capacity buffer) →
      LabelledRuns.Always next (fun s => s.broken = false ∧ ∀ t, .withdrew t ∈ s.log → .resumed t ∉ s.log) labels
        (initial capacity buffer)) := by
  constructor
  · refine LabelledRuns.always_of_run (fun labels s hRun => ?_) labels
    exact (LabelledRuns.run_invariant (fun _ _ _ hBefore hStep => Accounted.next hBefore hStep)
      (accounted_initial capacity buffer) hRun).single
  · refine LabelledRuns.always_of_meets (I := Withdrawn) (fun s hSafe => ?_)
      (fun s label s' hSafe hUnclaimed hNext => hSafe.next hUnclaimed hNext) ?_
    · exact ⟨hSafe.intact, fun t hMem => (hSafe.withdrew t hMem).2⟩
    · exact ⟨accounted_initial capacity buffer, rfl, nofun, nofun⟩

def registers : List (Label Nat) :=
  .recv :: List.replicate 6 (.run .consumer) ++ List.replicate 2 (.await ⟨.consumer, 0⟩ true)

def sends (item : Nat) : List (Label Nat) := .send item :: List.replicate 8 (.run .producer)

def withdraws : List (Label Nat) :=
  registers ++ .send 7 :: List.replicate 5 (.run .producer) ++ List.replicate 4 (.await ⟨.consumer, 0⟩ true) ++
    .run .producer :: List.replicate 4 (.run .consumer)

/-- The withdrawn handle is not resumed. -/
theorem endsOnce_withdraws : LabelledRuns.Meets next Unclaimed withdraws (initial 2 fun _ => 0) ∧
    (∃ s, LabelledRuns.run next withdraws (initial 2 fun _ => 0) = some s ∧ s.log = [.withdrew ⟨.consumer, 0⟩]) ∧
    LabelledRuns.Always next (fun s => s.broken = false ∧ ∀ t, .withdrew t ∈ s.log → .resumed t ∉ s.log) withdraws
      (initial 2 fun _ => 0) := by
  have hMeets : LabelledRuns.Meets next Unclaimed withdraws (initial 2 fun _ => 0) := by decide +kernel
  exact ⟨hMeets, ⟨_, rfl, rfl⟩, (endsOnce withdraws).2 hMeets⟩

/-- The sender takes the handle before the second look of the receiver, which withdraws all the same; then the
handle is resumed, with no suspension left. -/
theorem endsOnce_withdrawn :
    ∃ s, LabelledRuns.run next (registers ++ sends 7 ++ List.replicate 4 (.await ⟨.consumer, 0⟩ true) ++
        List.replicate 4 (.run .consumer) ++ [.resume ⟨.consumer, 0⟩]) (initial 2 fun _ => 0) = some s ∧
      s.log = [.withdrew ⟨.consumer, 0⟩, .resumed ⟨.consumer, 0⟩] ∧ s.broken = true :=
  ⟨_, rfl, rfl, rfl⟩

end Withdrawal

end SpscWaiter

end Pipeline
