import Mathlib.Algebra.Group.Nat.Defs
import Mathlib.Data.List.Infix

/-! Octet strings, slices of lists and the search for the first occurrence of a sublist. -/
namespace Octets

open List (drop_drop drop_take length_drop)

abbrev Bytes := List UInt8

def ascii (text : String) : Bytes := text.toList.map fun c => UInt8.ofNat c.toNat

instance (b : Bytes) (l : List Bytes) : Decidable (b ∈ l) := inferInstance

section Slice

variable {α : Type*}

def slice (data : List α) (start count : Nat) : List α := (data.drop start).take count

variable (data : List α)

theorem slice_length (start count : Nat) (h : start + count ≤ data.length) :
    (slice data start count).length = count := by
  simp only [slice, List.length_take, length_drop]
  omega

/-- A slice that ends inside a prefix does not see what follows the prefix. -/
theorem slice_append (more : List α) (start count : Nat) (h : start + count ≤ data.length) :
    slice (data ++ more) start count = slice data start count := by
  unfold slice
  rw [List.drop_append_of_le_length (by omega), List.take_append_of_le_length]
  rw [length_drop]
  omega

theorem slice_zero (start : Nat) : slice data start 0 = [] := by
  simp [slice]

theorem slice_all : slice data 0 data.length = data := by
  simp [slice]

theorem append_prefix_iff (front back l : List α) :
    front ++ back <+: l ↔ front <+: l ∧ back <+: l.drop front.length := by
  constructor
  · rintro ⟨rest, rfl⟩
    simp [List.append_assoc]
  · rintro ⟨⟨rest, rfl⟩, hBack⟩
    rw [List.drop_left] at hBack
    exact List.prefix_append_right_inj front |>.mpr hBack

theorem slice_eq_iff (piece : List α) (pos : Nat) : slice data pos piece.length = piece ↔ piece <+: data.drop pos := by
  rw [slice, List.prefix_iff_eq_take, eq_comm]

end Slice

theorem slice_slice (data : List α) (start count pos n : Nat) (hStart : start ≤ pos)
    (h : pos + n ≤ start + count) : slice (slice data start count) (pos - start) n = slice data pos n := by
  rw [slice, slice, drop_take, drop_drop, List.take_take, Nat.add_sub_cancel' hStart, min_eq_left (by omega)]
  rfl

section Search

variable {α : Type*} [DecidableEq α]

def find (needle : List α) : List α → Option Nat
  | [] => if needle = [] then some 0 else none
  | x :: xs => if needle <+: x :: xs then some 0 else (find needle xs).map (· + 1)

def findFrom (needle hay : List α) (pos : Nat) : Option Nat :=
  (find needle (hay.drop pos)).map (· + pos)

variable (needle hay : List α) (i : Nat)

theorem find_eq_some_iff : find needle hay = some i ↔
      i ≤ hay.length ∧ needle <+: hay.drop i ∧ ∀ j < i, ¬needle <+: hay.drop j := by
  induction hay generalizing i with
  | nil =>
    by_cases hNeedle : needle = []
    · simp +contextual [find, hNeedle, eq_comm]
    · simp [find, hNeedle]
  | cons x xs ih =>
    by_cases hHead : needle <+: x :: xs
    · rw [find, if_pos hHead]
      cases i with
      | zero => simp [hHead]
      | succ i => exact iff_of_false nofun fun h => h.2.2 0 (Nat.succ_pos i) hHead
    · rw [find, if_neg hHead]
      cases i with
      | zero => simp [hHead]
      | succ i =>
        rw [Nat.forall_lt_succ_left']
        simp [ih, hHead]

/-- An occurrence lies inside the searched list. -/
theorem find_isSome_iff : (find needle hay).isSome ↔ needle <:+: hay := by
  induction hay with
  | nil => by_cases h : needle = [] <;> simp [find, h]
  | cons x xs ih =>
    rw [find, List.infix_cons_iff]
    by_cases h : needle <+: x :: xs
    · simp [h]
    · simp [h, ih]

theorem find_eq_none_iff : find needle hay = none ↔ ∀ j ≤ hay.length, ¬needle <+: hay.drop j := by
  rw [← Option.not_isSome_iff_eq_none, find_isSome_iff, List.infix_iff_prefix_suffix]
  constructor
  · intro h j _ hHere
    exact h ⟨_, hHere, List.drop_suffix j hay⟩
  · rintro h ⟨rest, hHere, hRest⟩
    rw [List.suffix_iff_eq_drop.mp hRest] at hHere
    exact h _ (Nat.sub_le _ _) hHere

theorem find_le (h : find needle hay = some i) : i + needle.length ≤ hay.length := by
  obtain ⟨hLe, hHere, -⟩ := (find_eq_some_iff needle hay i).mp h
  have hLength := hHere.length_le
  rw [length_drop] at hLength
  omega

/-- The first occurrence is the same in the input cut anywhere after it. -/
theorem find_take (count : Nat) (hCount : i + needle.length ≤ count) :
    find needle (hay.take count) = some i ↔ find needle hay = some i := by
  have hHere : ∀ j ≤ i, needle <+: (hay.take count).drop j ↔ needle <+: hay.drop j := by
    intro j hj
    rw [drop_take, List.prefix_take_iff, and_iff_left (by omega)]
  have hFits : i ≤ (hay.take count).length ↔ i ≤ hay.length := by
    rw [List.length_take]
    omega
  rw [find_eq_some_iff, find_eq_some_iff, hFits, hHere i le_rfl]
  refine and_congr_right fun _ => and_congr_right fun _ => forall₂_congr fun j hj => ?_
  rw [hHere j (Nat.le_of_lt hj)]

/-- An occurrence found in a prefix is still the first one after extension. -/
theorem find_append (more : List α) (i : Nat) (h : find needle hay = some i) : find needle (hay ++ more) = some i := by
  rw [← find_take needle _ i hay.length (find_le needle hay i h), List.take_left]
  exact h

theorem findFrom_le (pos i : Nat) (hNeedle : needle ≠ []) (h : findFrom needle hay pos = some i) :
    pos ≤ i ∧ i + needle.length ≤ hay.length := by
  rw [findFrom, Option.map_eq_some_iff] at h
  obtain ⟨k, hk, rfl⟩ := h
  have hInside := find_le needle _ k hk
  have hPositive := List.length_pos_of_ne_nil hNeedle
  rw [length_drop] at hInside
  omega

theorem findFrom_append (more : List α) (pos i : Nat) (hNeedle : needle ≠ []) (h : findFrom needle hay pos = some i) :
    findFrom needle (hay ++ more) pos = some i := by
  obtain ⟨hPos, hInside⟩ := findFrom_le needle hay pos i hNeedle h
  rw [findFrom, Option.map_eq_some_iff] at h ⊢
  obtain ⟨k, hk, rfl⟩ := h
  refine ⟨k, ?_, rfl⟩
  rw [List.drop_append_of_le_length (by omega)]
  exact find_append needle _ more k hk

theorem findFrom_slice (pos i start count : Nat) (hNeedle : needle ≠ []) (h : findFrom needle hay pos = some i)
    (hStart : start ≤ pos) (hCount : i + needle.length ≤ start + count) :
    findFrom needle (slice hay start count) (pos - start) = some (i - start) := by
  have hPos := (findFrom_le needle hay pos i hNeedle h).1
  rw [findFrom, Option.map_eq_some_iff] at h ⊢
  obtain ⟨k, hk, rfl⟩ := h
  refine ⟨k, ?_, by omega⟩
  have hDrop : (slice hay start count).drop (pos - start) =
      (hay.drop pos).take (count - (pos - start)) := by
    rw [slice, drop_take, drop_drop, Nat.add_sub_cancel' hStart]
  rw [hDrop]
  exact (find_take needle _ k _ (by omega)).mpr hk

end Search

section Positions

variable {α : Type*} [DecidableEq α] (needle hay : List α) (pos : Nat)

theorem findFrom_some {i : Nat} (h : findFrom needle hay pos = some i) :
    pos ≤ i ∧ needle <+: hay.drop i ∧ ∀ j, pos ≤ j → j < i → ¬needle <+: hay.drop j := by
  obtain ⟨k, hk, rfl⟩ := Option.map_eq_some_iff.mp h
  obtain ⟨-, hHere, hFirst⟩ := (find_eq_some_iff needle _ k).mp hk
  rw [drop_drop, Nat.add_comm] at hHere
  refine ⟨Nat.le_add_left pos k, hHere, ?_⟩
  intro j hPos hj
  have hNot := hFirst (j - pos) (by omega)
  rwa [drop_drop, Nat.add_sub_cancel' hPos] at hNot

theorem findFrom_eq_none_iff (hNeedle : needle ≠ []) :
    findFrom needle hay pos = none ↔ ∀ j, pos ≤ j → ¬needle <+: hay.drop j := by
  rw [findFrom, Option.map_eq_none_iff, find_eq_none_iff]
  constructor
  · intro h j hPos hHere
    have hLength := hHere.length_le
    have hSome := List.length_pos_iff.mpr hNeedle
    rw [length_drop] at hLength
    apply h (j - pos) (by rw [length_drop]; omega)
    rwa [drop_drop, Nat.add_sub_cancel' hPos]
  · intro h j _ hHere
    rw [drop_drop] at hHere
    exact h (pos + j) (Nat.le_add_right pos j) hHere

theorem findFrom_here (h : needle <+: hay.drop pos) : findFrom needle hay pos = some pos := by
  rw [findFrom, (find_eq_some_iff needle _ 0).mpr ⟨Nat.zero_le _, h, nofun⟩]
  simp

theorem findFrom_succ (hNeedle : needle ≠ []) (h : ¬needle <+: hay.drop pos) :
    findFrom needle hay pos = findFrom needle hay (pos + 1) := by
  rw [findFrom, findFrom, ← drop_drop]
  cases hDrop : hay.drop pos with
  | nil => simp [find, hNeedle]
  | cons x xs =>
    rw [hDrop] at h
    simp [find, h, Function.comp_def, Nat.add_assoc, Nat.add_comm 1]

/-- The search may start later when nothing is missed. -/
theorem findFrom_skip (next : Nat) (hNeedle : needle ≠ []) (hNext : pos ≤ next)
    (h : ∀ j, pos ≤ j → j < next → ¬needle <+: hay.drop j) : findFrom needle hay pos = findFrom needle hay next := by
  induction hNext with
  | refl => rfl
  | @step next hNext ih =>
    rw [ih fun j hPos hj => h j hPos (by omega)]
    exact findFrom_succ needle hay next hNeedle (h next hNext (Nat.lt_succ_self next))

end Positions
section Pieces

variable {α : Type*}

theorem intercalate_split (sep : List α) (left : List (List α)) (piece : List α) (right : List (List α)) :
    sep.intercalate (left ++ piece :: right) = left.flatMap (· ++ sep) ++ piece ++ right.flatMap (sep ++ ·) := by
  induction left with
  | nil =>
    induction right generalizing piece with
    | nil => simp
    | cons next right ih => simpa using ih next
  | cons first left ih =>
    cases left with
    | nil | cons => simpa using ih

variable [DecidableEq α] {a : α} {w p : List α}

theorem splitOn_around {left right : List (List α)} (h : p.splitOn a = left ++ w :: right) :
    ∃ front back, p = front ++ w ++ back ∧ (left ≠ [] → [a] <:+ front) ∧ (right = [] → back = []) ∧
      (right ≠ [] → [a] <+: back) := by
  refine ⟨left.flatMap (· ++ [a]), right.flatMap ([a] ++ ·), ?_, fun hLeft => ?_, ?_, fun hRight => ?_⟩
  · rw [← intercalate_split, ← h, List.intercalate_splitOn]
  · obtain ⟨init, last, rfl⟩ := List.eq_nil_or_concat' left |>.resolve_left hLeft
    exact ⟨init.flatMap (· ++ [a]) ++ last, by simp⟩
  · rintro rfl
    rfl
  · obtain ⟨next, right, rfl⟩ := List.exists_cons_of_ne_nil hRight
    exact ⟨next ++ right.flatMap ([a] ++ ·), by simp⟩

/-- A list without `a` only lengthens the first piece of what follows. -/
theorem splitOn_append_of_notMem (h : a ∉ w) : (w ++ p).splitOn a = (p.splitOn a).modifyHead (w ++ ·) := by
  induction w with
  | nil => cases hSplit : p.splitOn a <;> simp [hSplit]
  | cons c w ih =>
    rw [List.mem_cons, not_or] at h
    rw [List.cons_append, List.splitOn_cons_eq_if_modifyHead, if_neg (by simpa using Ne.symm h.1), ih h.2]
    cases p.splitOn a <;> rfl

/-- An occurrence right behind an `a` begins a piece. -/
theorem cons_infix_iff (h : a ∉ w) : a :: w <:+: p ↔ ∃ piece ∈ (p.splitOn a).tail, w <+: piece := by
  constructor
  · rintro ⟨front, back, rfl⟩
    obtain ⟨first, more, hFront⟩ := List.exists_cons_of_ne_nil (List.splitOn_ne_nil a front)
    obtain ⟨next, rest, hBack⟩ := List.exists_cons_of_ne_nil (List.splitOn_ne_nil a back)
    refine ⟨w ++ next, ?_, List.prefix_append _ _⟩
    rw [List.append_assoc, List.cons_append, List.splitOn_append_cons_self, splitOn_append_of_notMem h, hFront, hBack]
    simp
  · rintro ⟨piece, hPiece, hw⟩
    obtain ⟨first, more, hSplit⟩ := List.exists_cons_of_ne_nil (List.splitOn_ne_nil a p)
    rw [hSplit, List.tail_cons] at hPiece
    obtain ⟨left, right, rfl⟩ := List.append_of_mem hPiece
    obtain ⟨front, back, hp, hFront, -⟩ := @splitOn_around _ _ a piece p (first :: left) right hSplit
    obtain ⟨front, rfl⟩ := hFront (by simp)
    obtain ⟨more, rfl⟩ := hw
    exact ⟨front, more ++ back, by simp [hp]⟩

/-- An occurrence between two `a` is a piece that is neither the first nor the last. -/
theorem cons_append_infix_iff (h : a ∉ w) : a :: w ++ [a] <:+: p ↔ w ∈ (p.splitOn a).tail.dropLast := by
  constructor
  · rintro ⟨front, back, rfl⟩
    obtain ⟨first, more, hFront⟩ := List.exists_cons_of_ne_nil (List.splitOn_ne_nil a front)
    obtain ⟨next, rest, hBack⟩ := List.exists_cons_of_ne_nil (List.splitOn_ne_nil a back)
    have hShape : front ++ (a :: w ++ [a]) ++ back = front ++ a :: (w ++ a :: back) := by simp
    rw [hShape, List.splitOn_append_cons_self, List.splitOn_append_cons_self_of_not_mem h, hFront, hBack]
    simp [List.dropLast_append_of_ne_nil]
  · intro hw
    obtain ⟨first, more, hSplit⟩ := List.exists_cons_of_ne_nil (List.splitOn_ne_nil a p)
    rw [hSplit, List.tail_cons] at hw
    obtain ⟨last, hMore⟩ : ∃ last, more = more.dropLast ++ [last] :=
      ⟨_, (List.dropLast_append_getLast (List.ne_nil_of_mem (List.mem_of_mem_dropLast hw))).symm⟩
    obtain ⟨left, right, hDrop⟩ := List.append_of_mem hw
    rw [hMore, hDrop] at hSplit
    obtain ⟨front, back, hp, hFront, -, hBack⟩ :=
      @splitOn_around _ _ a w p (first :: left) (right ++ [last]) (by simp [hSplit])
    obtain ⟨front, rfl⟩ := hFront (by simp)
    obtain ⟨back, rfl⟩ := hBack (by simp)
    exact ⟨front, back, by simp [hp]⟩

/-- An occurrence right behind an `a` and at the end is the last piece. -/
theorem cons_suffix_iff (h : a ∉ w) : a :: w <:+ p ↔ (p.splitOn a).tail.getLast? = some w := by
  constructor
  · rintro ⟨front, rfl⟩
    obtain ⟨first, more, hFront⟩ := List.exists_cons_of_ne_nil (List.splitOn_ne_nil a front)
    rw [List.splitOn_append_cons_self, List.splitOn_eq_singleton h, hFront]
    simp
  · intro hLast
    obtain ⟨first, more, hSplit⟩ := List.exists_cons_of_ne_nil (List.splitOn_ne_nil a p)
    rw [hSplit, List.tail_cons] at hLast
    obtain ⟨left, rfl⟩ := List.getLast?_eq_some_iff.mp hLast
    obtain ⟨front, back, hp, hFront, hBack, -⟩ := @splitOn_around _ _ a w p (first :: left) [] (by simp [hSplit])
    obtain ⟨front, rfl⟩ := hFront (by simp)
    exact ⟨front, by simp [hp, hBack rfl]⟩

/-- An occurrence of a list without `a` lies inside a piece. -/
theorem infix_iff_piece (h : a ∉ w) : w <:+: p ↔ ∃ piece ∈ p.splitOn a, w <:+: piece := by
  constructor
  · rintro ⟨front, back, rfl⟩
    induction front with
    | nil =>
      obtain ⟨next, rest, hBack⟩ := List.exists_cons_of_ne_nil (List.splitOn_ne_nil a back)
      rw [List.nil_append, splitOn_append_of_notMem h, hBack]
      exact ⟨w ++ next, by simp, (List.prefix_append _ _).isInfix⟩
    | cons c front ih =>
      obtain ⟨piece, hPiece, hw⟩ := ih
      rw [List.append_assoc, List.cons_append, List.splitOn_cons_eq_if_modifyHead, ← List.append_assoc]
      split_ifs
      · exact ⟨piece, List.mem_cons_of_mem _ hPiece, hw⟩
      · obtain ⟨first, rest, hSplit⟩ := List.exists_cons_of_ne_nil (List.splitOn_ne_nil a (front ++ w ++ back))
        rw [hSplit] at hPiece ⊢
        rcases List.mem_cons.mp hPiece with rfl | hRest
        · exact ⟨c :: piece, by simp, hw.trans (List.suffix_cons c piece).isInfix⟩
        · exact ⟨piece, by simp [hRest], hw⟩
  · rintro ⟨piece, hPiece, hw⟩
    obtain ⟨left, right, hSplit⟩ := List.append_of_mem hPiece
    obtain ⟨front, back, hp, -⟩ := splitOn_around hSplit
    exact hw.trans ⟨front, back, hp.symm⟩

end Pieces
end Octets
