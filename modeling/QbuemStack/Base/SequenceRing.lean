import Mathlib.Algebra.Ring.Nat
import Mathlib.Data.Nat.ModEq

/-! Rings whose cells carry a sequence number. A cell is free for the push at a position when its
number is that position, and filled for the pop there when it is the next one. With at least two
cells the signed difference of the two words tells the cases apart. -/
namespace SequenceRing

open Function

def wrap (n : Nat) : Nat := n % 2 ^ 64

def diff (seq pos : Nat) : Int := Int.bmod ((seq : Int) - (pos : Int)) (2 ^ 64)

def cell (capacity pos : Nat) : Nat := pos &&& (capacity - 1)

/-- `cap` is doubled as long as it is too small, and becomes zero for good when it overflows. -/
def roundUp (requested : Nat) : Nat → Nat → Option Nat
  | 0, _ => none
  | rounds + 1, cap => if cap < requested then roundUp requested rounds (wrap (cap * 2)) else some cap

theorem cell_lt {capacity : Nat} (hPos : 0 < capacity) (pos : Nat) : cell capacity pos < capacity := by
  have hLe : cell capacity pos ≤ capacity - 1 := Nat.and_le_right
  omega

theorem cell_pow (k pos : Nat) : cell (2 ^ k) pos = pos % 2 ^ k := Nat.and_two_pow_sub_one_eq_mod pos k

theorem cell_wrap {k : Nat} (hk : k ≤ 63) (pos : Nat) : cell (2 ^ k) (wrap pos) = pos % 2 ^ k := by
  rw [cell_pow, wrap, Nat.mod_mod_of_dvd _ (Nat.pow_dvd_pow 2 (by omega))]

theorem diff_wrap {a b : Nat} (hLow : a ≤ b + (2 ^ 63 - 1)) (hHigh : b ≤ a + 2 ^ 63) :
    diff (wrap a) (wrap b) = (a : Int) - b := by
  rw [diff, wrap, wrap, Int.bmod_def]
  omega

theorem wrap_succ (n : Nat) : wrap (wrap n + 1) = wrap (n + 1) := by
  rw [wrap, wrap, wrap, Nat.mod_add_mod]

/-- A capacity that the loop finds is the power of two the request is rounded up to. -/
theorem roundUp_some {requested rounds k cap : Nat} (hk : k ≤ 63)
    (h : roundUp requested rounds (2 ^ k) = some cap) : ∃ m, m ≤ 63 ∧ cap = 2 ^ m ∧ requested ≤ cap := by
  have hZero : ∀ rounds cap, roundUp requested rounds 0 = some cap → requested = 0 := by
    intro rounds
    induction rounds with
    | zero => intro cap h; cases h
    | succ rounds ih =>
      intro cap h
      rw [roundUp] at h
      split_ifs at h with hLess
      · exact ih cap h
      · omega
  induction rounds generalizing k with
  | zero => cases h
  | succ rounds ih =>
    rw [roundUp] at h
    split_ifs at h with hLess
    · by_cases hNext : k + 1 ≤ 63
      · have hDouble : wrap (2 ^ k * 2) = 2 ^ (k + 1) := by
          rw [wrap, ← Nat.pow_succ]
          exact Nat.mod_eq_of_lt (Nat.pow_lt_pow_right (by omega) (by omega))
        rw [hDouble] at h
        exact ih hNext h
      · obtain rfl : k = 63 := by omega
        have hOver := hZero rounds cap h
        omega
    · exact ⟨k, hk, (Option.some.inj h).symm, by rw [← Option.some.inj h]; omega⟩

/-- The numbers of a ring of `2 ^ k` cells in which the `n` cells from position `h` on are filled. -/
structure Turns (k : Nat) (seq : Nat → Nat) (head tail h n : Nat) : Prop where
  le : n ≤ 2 ^ k
  head : head = wrap h
  tail : tail = wrap (h + n)
  filled : ∀ j, j < n → seq ((h + j) % 2 ^ k) = wrap (h + j + 1)
  free : ∀ j, n ≤ j → j < 2 ^ k → seq ((h + j) % 2 ^ k) = wrap (h + j)

section Turns

variable {k : Nat} {seq : Nat → Nat} {head tail h n : Nat}

theorem turns_initial (hSeq : ∀ i, i < 2 ^ k → seq i = i) (hk : k ≤ 63) : Turns k seq 0 0 0 0 where
  le := Nat.zero_le _
  head := rfl
  tail := rfl
  filled j hj := absurd hj (Nat.not_lt_zero j)
  free j _ hj := by
    have hSmall : j < 2 ^ 64 := Nat.lt_trans hj (Nat.pow_lt_pow_right (by omega) (by omega))
    rw [Nat.zero_add, Nat.mod_eq_of_lt hj, hSeq j hj, wrap, Nat.mod_eq_of_lt hSmall]

theorem cell_ne {i j : Nat} (hi : i < 2 ^ k) (hj : j < 2 ^ k) (hNe : i ≠ j) : (h + i) % 2 ^ k ≠ (h + j) % 2 ^ k := by
  intro hEq
  have hMod : i ≡ j [MOD 2 ^ k] := Nat.ModEq.add_left_cancel' h hEq
  rw [Nat.ModEq, Nat.mod_eq_of_lt hi, Nat.mod_eq_of_lt hj] at hMod
  exact hNe hMod

theorem stored_push {β : Type} {items : List β} {buffer : Nat → β}
    (hStored : ∀ j item, items[j]? = some item → buffer ((h + j) % 2 ^ k) = item) (hRoom : items.length < 2 ^ k)
    (item : β) (j : Nat) (value : β) (hj : (items ++ [item])[j]? = some value) :
    update buffer ((h + items.length) % 2 ^ k) item ((h + j) % 2 ^ k) = value := by
  rcases Nat.lt_trichotomy j items.length with hLess | rfl | hMore
  · rw [List.getElem?_append_left hLess] at hj
    rw [update_of_ne (cell_ne (by omega) hRoom hLess.ne)]
    exact hStored j value hj
  · rw [List.getElem?_concat_length] at hj
    rw [update_self]
    exact Option.some.inj hj
  · rw [List.getElem?_eq_none (by simpa using Nat.succ_le_of_lt hMore)] at hj
    cases hj

section

variable (hTurns : Turns k seq head tail h n) (hk : k ≤ 63)
include hTurns hk

theorem Turns.pushReady (hRoom : n < 2 ^ k) : diff (seq (cell (2 ^ k) tail)) tail = 0 := by
  rw [hTurns.tail, cell_wrap hk, hTurns.free n (Nat.le_refl n) hRoom, diff_wrap (by omega) (by omega), Int.sub_self]

/-- A full ring is told from a free one because its lap is longer than one step. -/
theorem Turns.pushFull (hTwo : 1 ≤ k) (hFull : n = 2 ^ k) : diff (seq (cell (2 ^ k) tail)) tail < 0 := by
  have hLap : 2 ≤ 2 ^ k := Nat.le_self_pow (by omega) 2
  have hSmall : 2 ^ k ≤ 2 ^ 63 := Nat.pow_le_pow_right (by omega) hk
  have hFilled := hTurns.filled 0 (by omega)
  rw [Nat.add_zero] at hFilled
  rw [hTurns.tail, cell_wrap hk, hFull, Nat.add_mod_right, hFilled, diff_wrap (by omega) (by omega)]
  omega

theorem Turns.popReady (hSome : 0 < n) : diff (seq (cell (2 ^ k) head)) (wrap (head + 1)) = 0 := by
  have hFilled := hTurns.filled 0 hSome
  rw [Nat.add_zero] at hFilled
  rw [hTurns.head, cell_wrap hk, hFilled, wrap_succ, diff_wrap (by omega) (by omega), Int.sub_self]

theorem Turns.popEmpty (hNone : n = 0) : diff (seq (cell (2 ^ k) head)) (wrap (head + 1)) < 0 := by
  have hFree := hTurns.free 0 (by omega) (Nat.two_pow_pos k)
  rw [Nat.add_zero] at hFree
  rw [hTurns.head, cell_wrap hk, hFree, wrap_succ, diff_wrap (by omega) (by omega)]
  omega

theorem Turns.push (hRoom : n < 2 ^ k) :
    Turns k (update seq (cell (2 ^ k) tail) (wrap (tail + 1))) head (wrap (tail + 1)) h (n + 1) := by
  have hCell : cell (2 ^ k) tail = (h + n) % 2 ^ k := by rw [hTurns.tail, cell_wrap hk]
  have hNext : wrap (tail + 1) = wrap (h + n + 1) := by rw [hTurns.tail, wrap_succ]
  rw [hCell, hNext]
  constructor
  case le => omega
  case head => exact hTurns.head
  case tail => rfl
  case filled =>
    intro j hj
    by_cases hLast : j = n
    · rw [hLast, update_self]
    · rw [update_of_ne (cell_ne (by omega) hRoom hLast)]
      exact hTurns.filled j (by omega)
  case free =>
    intro j hLow hHigh
    rw [update_of_ne (cell_ne hHigh hRoom (by omega))]
    exact hTurns.free j (by omega) hHigh

theorem Turns.pop (hSome : 0 < n) :
    Turns k (update seq (cell (2 ^ k) head) (wrap (head + (2 ^ k - 1) + 1))) (wrap (head + 1)) tail (h + 1)
      (n - 1) := by
  have hPos := Nat.two_pow_pos k
  have hLe := hTurns.le
  have hCell : cell (2 ^ k) head = h % 2 ^ k := by rw [hTurns.head, cell_wrap hk]
  have hLap : wrap (head + (2 ^ k - 1) + 1) = wrap (h + 2 ^ k) := by
    rw [hTurns.head, Nat.add_assoc, Nat.sub_add_cancel hPos, wrap, wrap, wrap, Nat.mod_add_mod]
  rw [hCell, hLap]
  constructor
  case le => omega
  case head => rw [hTurns.head, wrap_succ]
  case tail => rw [hTurns.tail, Nat.add_right_comm, Nat.add_assoc, Nat.sub_add_cancel hSome]
  case filled =>
    intro j hj
    have hNe : (h + (j + 1)) % 2 ^ k ≠ h % 2 ^ k := cell_ne (j := 0) (by omega) hPos (by omega)
    have hFilled := hTurns.filled (j + 1) (by omega)
    rw [Nat.add_right_comm, Nat.add_assoc h, update_of_ne hNe]
    exact hFilled
  case free =>
    intro j hLow hHigh
    by_cases hLast : j = 2 ^ k - 1
    · have hRound : h + 1 + j = h + 2 ^ k := by omega
      rw [hRound, Nat.add_mod_right, update_self]
    · have hNe : (h + (j + 1)) % 2 ^ k ≠ h % 2 ^ k := cell_ne (j := 0) (by omega) hPos (by omega)
      have hFree := hTurns.free (j + 1) (by omega) (by omega)
      rw [Nat.add_right_comm, Nat.add_assoc h, update_of_ne hNe]
      exact hFree

end

end Turns

end SequenceRing
