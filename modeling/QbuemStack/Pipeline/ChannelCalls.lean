import QbuemStack.Base.Weights
import QbuemStack.Pipeline.AsyncChannel

/-! The calls `recv` and `send` of a coroutine on a channel that other coroutines use at the same
time. Each test of the closed flag, each poll and each attempt is a step of its own. -/
namespace Pipeline

open Weights

variable {β : Type} (f : β → Nat) (stage : Receiving) (ch : Channel β)

inductive Receiving where
  | polling
  | testing
deriving DecidableEq

inductive Sending where
  | testing
  | trying
deriving DecidableEq

inductive Got (β : Type) where
  | item (x : β)
  | ended
  | again (stage : Receiving)

inductive Put where
  | refused
  | accepted
  | again (stage : Sending)

def receive (stage : Receiving) (ch : Channel β) : Got β × Channel β :=
  match stage with
  | .polling =>
    match ch.tryRecv.result with
    | some x => (.item x, ch.tryRecv.state)
    | none => (.again .testing, ch)
  | .testing => if ch.closed then (.ended, ch) else (.again .polling, ch)

/-- A step of `send`. The attempt does not look at the flag. -/
def put (stage : Sending) (ch : Channel β) (x : β) : Put × Channel β :=
  match stage with
  | .testing => if ch.closed then (.refused, ch) else (.again .trying, ch)
  | .trying => if ch.isFull then (.again .testing, ch) else (.accepted, ch.push x)

def Got.toList : Got β → List β
  | .item x => [x]
  | _ => []

def Put.kept (n : Nat) : Put → Nat
  | .again _ => n
  | _ => 0

def Put.dropped (n : Nat) : Put → Nat
  | .refused => n
  | _ => 0

/-- The items before a step of `recv` are the one it got and those it left. -/
theorem receive_items : ch.items = (receive stage ch).1.toList ++ (receive stage ch).2.items := by
  cases stage with rw [receive]
  | polling =>
    cases hItems : ch.items with
    | nil | cons x items =>
      simp only [Channel.tryRecv, hItems]
      rfl
  | testing =>
    split_ifs <;> rfl

theorem weigh_receive :
    weigh f (receive stage ch).2.items + weigh f (receive stage ch).1.toList = weigh f ch.items := by
  have hItems := congrArg (weigh f) (receive_items stage ch)
  rw [weigh_append] at hItems
  omega

theorem weigh_put (stage : Sending) (ch : Channel β) (x : β) :
    weigh f (put stage ch x).2.items + (put stage ch x).1.kept (f x) + (put stage ch x).1.dropped (f x) =
      weigh f ch.items + f x := by
  cases stage with rw [put]
  | testing =>
    split_ifs <;> rfl
  | trying =>
    split_ifs
    · rfl
    · simp only [Put.kept, Put.dropped, Channel.push, weigh_append, weigh_cons, weigh_nil, Nat.add_zero]

variable {P : β → Prop} {ch : Channel β}

/-- An open channel refuses nothing. -/
theorem put_open (hOpen : ch.closed = false) (stage : Sending) (x : β) : (put stage ch x).1 ≠ .refused := by
  cases stage with rw [put]
  | testing => simp [hOpen]
  | trying => split_ifs <;> simp

theorem receive_mem (stage : Receiving) (hAll : ∀ x ∈ ch.items, P x) :
    (∀ x ∈ (receive stage ch).2.items, P x) ∧ ∀ x ∈ (receive stage ch).1.toList, P x := by
  rw [receive_items stage ch] at hAll
  exact ⟨fun x hx => hAll x (List.mem_append_right _ hx), fun x hx => hAll x (List.mem_append_left _ hx)⟩

theorem put_mem (stage : Sending) (hAll : ∀ x ∈ ch.items, P x) {x : β} (hx : P x) :
    ∀ y ∈ (put stage ch x).2.items, P y := by
  cases stage with rw [put]
  | testing =>
    split_ifs <;> exact hAll
  | trying =>
    split_ifs
    · exact hAll
    · exact List.forall_mem_append.mpr ⟨hAll, List.forall_mem_singleton.mpr hx⟩

end Pipeline
