import Mathlib.Algebra.BigOperators.Group.List.Basic
import Mathlib.Algebra.Ring.Nat

/-! Weights of lists. One place that changes changes the weight by what that place gains or loses. -/
namespace Weights

variable {ι : Type} {f : ι → Nat}

def weigh (f : ι → Nat) (places : List ι) : Nat := (places.map f).sum

@[simp] theorem weigh_nil : weigh f [] = 0 := rfl

@[simp] theorem weigh_cons (a : ι) (l : List ι) : weigh f (a :: l) = f a + weigh f l := by
  rfl

@[simp] theorem weigh_append (l m : List ι) : weigh f (l ++ m) = weigh f l + weigh f m := by
  rw [weigh, List.map_append, List.sum_append]
  rfl

theorem weigh_set {l : List ι} {i : Nat} {a : ι} (hGet : l[i]? = some a) (b : ι) :
    weigh f (l.set i b) + f a = weigh f l + f b := by
  induction l generalizing i with
  | nil => cases hGet
  | cons c l ih =>
    cases i with
    | zero =>
      cases hGet
      simp only [List.set_cons_zero, weigh_cons]
      omega
    | succ i =>
      have hRest := ih hGet
      simp only [List.set_cons_succ, weigh_cons]
      omega

theorem weigh_modify (l : List ι) (i : Nat) {h : ι → ι} (hSame : ∀ a, f (h a) = f a) :
    weigh f (l.modify i h) = weigh f l := by
  induction l generalizing i with
  | nil => rw [List.modify_nil]
  | cons a l ih =>
    cases i with
    | zero => rw [List.modify_zero_cons, weigh_cons, weigh_cons, hSame]
    | succ i => rw [List.modify_succ_cons, weigh_cons, weigh_cons, ih]

theorem weigh_eq_zero {l : List ι} (hAll : ∀ a ∈ l, f a = 0) : weigh f l = 0 := by
  induction l with
  | nil => rfl
  | cons a l ih =>
    rw [weigh_cons, hAll a List.mem_cons_self, ih fun b hb => hAll b (List.mem_cons_of_mem _ hb)]

theorem weigh_filter {p : ι → Prop} [DecidablePred p] (hOne : ∀ a, f a = (decide (p a)).toNat) (l : List ι) :
    weigh f l = (l.filter fun a => p a).length := by
  induction l with
  | nil => rfl
  | cons a l ih =>
    rw [weigh_cons, ih, hOne, List.filter_cons]
    by_cases hChosen : p a <;> simp [hChosen, Nat.add_comm]

end Weights
