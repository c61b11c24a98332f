import Mathlib.Logic.Function.Basic
import Mathlib.Tactic.SplitIfs
import QbuemStack.Base.LabelledRuns

/-! The polls of `IOUringReactor`. Calls made by a callback are steps after the completion that
invoked it. -/
namespace IOUringReactor

open Function LabelledRuns

inductive EventType
  | read
  | write
  deriving DecidableEq

abbrev Key := Int × EventType

structure Op where
  key : Key
  callback : Nat

structure Impl where
  nextToken : Nat := 2
  ops : Nat → Option Op := fun _ => none
  tokens : Key → Option Nat := fun _ => none
  polls : Nat → Option Op := fun _ => none
  invoked : List Op := []
  live : Key → Option Nat := fun _ => none

def Impl.submitPoll (s : Impl) (op : Op) (room : Bool) : Impl :=
  { s with
    nextToken := s.nextToken + 1
    ops := update s.ops s.nextToken (some op)
    tokens := update s.tokens op.key (some s.nextToken)
    polls := if room then update s.polls s.nextToken (some op) else s.polls }

def Impl.registerEvent (s : Impl) (key : Key) (room : Bool) : Impl :=
  { s.submitPoll ⟨key, s.nextToken⟩ room with live := update s.live key (some s.nextToken) }

def Impl.unregisterEvent (s : Impl) (key : Key) : Impl :=
  let s := { s with live := update s.live key none }
  match s.tokens key with
  | none => s
  | some token =>
    { s with tokens := update s.tokens key none, ops := update s.ops token none }

/-- A new poll is made for whatever entry the descriptor has, before the callback. -/
def Impl.complete (s : Impl) (token : Nat) (failed room : Bool) : Impl :=
  match s.ops token with
  | none => s
  | some op =>
    let s := { s with ops := update s.ops token none }
    if failed then { s with tokens := update s.tokens op.key none }
    else
      let s := if (s.tokens op.key).isSome then s.submitPoll op room else s
      { s with invoked := op :: s.invoked }

inductive Label
  | register (key : Key) (room : Bool)
  | unregister (key : Key)
  | complete (token : Nat) (failed room : Bool)
  | other

def next (s : Impl) : Label → Option Impl
  | .register key room => some (s.registerEvent key room)
  | .unregister key => some (s.unregisterEvent key)
  | .complete token failed room => if (s.polls token).isSome then some (s.complete token failed room) else none
  | .other => some { s with nextToken := s.nextToken + 1 }

def Op.Live (s : Impl) (op : Op) : Prop := s.live op.key = some op.callback

instance (s : Impl) (op : Op) : Decidable (op.Live s) := inferInstanceAs (Decidable (_ = _))

/-- A completion invokes the live callback only and submits its poll again; that of an older poll
changes nothing. -/
def Proper (s : Impl) : Label → Prop
  | .complete token failed room => ∀ op, s.polls token = some op →
    let s' := s.complete token failed room
    (∀ op, s'.invoked = op :: s.invoked → op.Live s ∧
      ∃ again, s.polls again = none ∧ s'.polls again = some op ∧ s'.tokens op.key = some again) ∧
    (¬op.Live s → s'.invoked = s.invoked ∧ s'.tokens = s.tokens)
  | _ => True

/-- The live poll fails or finds room for the next; one left behind fails, and only when the
descriptor has no entry. -/
def Silent (s : Impl) : Label → Prop
  | .complete token failed room => ∀ op, s.polls token = some op → s.ops token = some op →
    if op.Live s then failed = true ∨ room = true else failed = true ∧ s.tokens op.key = none
  | _ => True

structure Sound (s : Impl) : Prop where
  fresh : ∀ token, s.nextToken ≤ token → s.polls token = none
  polled : ∀ token op, s.ops token = some op → op.callback < s.nextToken ∧ ∀ op', s.polls token = some op' → op = op'
  entry : ∀ token op, s.ops token = some op → op.Live s → s.tokens op.key = some token

variable {s : Impl}

/-- A step is proper exactly if it is silent. -/
theorem Sound.proper_iff (h : Sound s) (label : Label) : Proper s label ↔ Silent s label := by
  cases label with
  | register | unregister | other => rfl
  | complete token failed room =>
    refine forall₂_congr fun op hPoll => ?_
    unfold Impl.complete
    cases hOp : s.ops token with
    | none => simp
    | some op' =>
      obtain rfl := (h.polled token op' hOp).2 op hPoll
      have hFresh := h.fresh _ (Nat.le_refl _)
      have hSame : update s.tokens op'.key none = s.tokens ↔ s.tokens op'.key = none :=
        update_eq_self_iff.trans eq_comm
      by_cases hLive : op'.Live s
      · have hEntry := h.entry token op' hOp hLive
        cases failed <;> cases room <;> simp [hLive, hEntry, Impl.submitPoll, hFresh]
      · cases failed <;> cases room <;> cases hEntry : s.tokens op'.key <;> simp [hLive, hSame, hEntry, Impl.submitPoll]

theorem Sound.step {label : Label} {s' : Impl} (h : Sound s) (hSilent : Silent s label)
    (hNext : next s label = some s') :
    Sound s' := by
  obtain ⟨hFresh, hPolled, hEntry⟩ := h
  cases label with
  | other =>
    cases hNext
    exact ⟨fun token hToken => hFresh token (Nat.le_of_succ_le hToken),
      fun token op hOp => (hPolled token op hOp).imp_left Nat.lt_succ_of_lt, hEntry⟩
  | register key room =>
    cases hNext
    constructor <;> simp only [Impl.registerEvent, Impl.submitPoll, update_apply] <;> grind [Op.Live]
  | unregister key =>
    cases hNext
    unfold Impl.unregisterEvent
    cases hToken : s.tokens key with
    | none | some token => constructor <;> simp only [hToken, update_apply] <;> grind [Op.Live]
  | complete token failed room =>
    obtain ⟨hPoll, rfl⟩ : (s.polls token).isSome ∧ s.complete token failed room = s' := by
      simpa [next] using hNext
    obtain ⟨op, hPoll⟩ := Option.isSome_iff_exists.mp hPoll
    unfold Impl.complete
    cases hOp : s.ops token with
    | none => exact ⟨hFresh, hPolled, hEntry⟩
    | some op' =>
      obtain rfl := (hPolled token op' hOp).2 op hPoll
      have hThis := hSilent op' hPoll hOp
      have hAlone : ∀ other op, s.ops other = some op → op.Live s → op.key = op'.key → other = token := by
        intro other op hOther hLive hKey
        have hToken := hEntry other op hOther hLive
        split_ifs at hThis with hLive'
        · exact Option.some.inj (hToken.symm.trans (hKey ▸ hEntry token op' hOp hLive'))
        · cases hToken.symm.trans (hKey ▸ hThis.2)
      cases failed with
      | true => constructor <;> simp only [if_true, update_apply] <;> grind [Op.Live]
      | false =>
        have hLive : op'.Live s := by
          by_contra hNot
          cases (if_neg hNot ▸ hThis).1
        constructor <;> simp only [Bool.false_eq_true, if_false, hEntry token op' hOp hLive,
          Option.isSome_some, if_true,
          Impl.submitPoll, update_apply] <;> grind [Op.Live]

end IOUringReactor
