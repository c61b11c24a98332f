import Mathlib.Data.Nat.Find
import Mathlib.Tactic.SplitIfs
import Mathlib.Tactic.Tauto
import QbuemStack.Http.Parser

/-! The vector variants of `find_header_end`: blocks of 32 or 16 bytes are compared with CR, and a
scalar loop reads the tail. -/
namespace QbuemStack.Http.HeaderScan

open Octets

section Lanes

variable (hit : Nat → Bool) (w : Nat) {B k mask : Nat}

def ctz (hMask : mask ≠ 0) : Nat := Nat.find (Nat.exists_testBit_of_ne_zero hMask)

/-- `mask &= mask - 1` clears one bit, so a lane that is no hit is looked at `w` times. -/
def visitLanes (mask : Nat) : Option Nat :=
  if hMask : mask = 0 then none
  else if hit (ctz hMask / w) then some (ctz hMask / w)
  else visitLanes (mask &&& (mask - 1))
decreasing_by
  have hAnd := @Nat.and_le_right mask (mask - 1)
  omega

theorem testBit_clear_lowest (hSet : mask.testBit k) (hLow : ∀ i < k, ¬mask.testBit i) (j : Nat) :
    (mask &&& (mask - 1)).testBit j = (mask.testBit j && j != k) := by
  rw [Nat.testBit_and]
  induction k generalizing mask j with
  | zero =>
    have hOdd : mask % 2 = 1 := by simpa [Nat.testBit_zero] using hSet
    cases j with
    | zero => simp [Nat.testBit_zero, show (mask - 1) % 2 = 0 by omega]
    | succ j => simp [Nat.testBit_succ, show (mask - 1) / 2 = mask / 2 by omega]
  | succ k ih =>
    have hEven : mask % 2 = 0 := by simpa [Nat.testBit_zero] using hLow 0 (by omega)
    cases j with
    | zero => simp [Nat.testBit_zero, hEven]
    | succ j =>
      rw [Nat.testBit_succ] at hSet
      have hHalf := ih hSet (fun i hi => by simpa [Nat.testBit_succ] using hLow (i + 1) (by omega)) j
      simpa [Nat.testBit_succ, show (mask - 1) / 2 = mask / 2 - 1 by omega] using hHalf

variable {hit w} {cmp : Nat → Bool}

/-- Every hit still to come has a bit left in the mask. -/
theorem visitLanes_of_left (hLane : ∀ j, mask.testBit j → j / w < B ∧ cmp (j / w))
    (hLeft : ∀ l < B, cmp l → hit l → ∃ j, mask.testBit j ∧ j / w = l) :
    visitLanes hit w mask = (List.range B).find? fun l => cmp l && hit l := by
  fun_induction visitLanes hit w mask with
  | case1 =>
    symm
    simpa using hLeft
  | case2 mask hMask hHit =>
    obtain ⟨hIn, hCmp⟩ := hLane (ctz hMask) (Nat.find_spec (Nat.exists_testBit_of_ne_zero hMask))
    symm
    refine List.find?_range_eq_some.mpr ⟨by simp [hCmp, hHit], List.mem_range.mpr hIn, fun l hl => ?_⟩
    rw [Bool.not_eq_true', Bool.and_eq_false_imp]
    intro hCmp
    by_contra hHit
    obtain ⟨j, hj, rfl⟩ := hLeft l (by omega) hCmp (by simpa using hHit)
    exact absurd (Nat.div_le_div_right (Nat.find_min' _ hj)) (Nat.not_le.mpr hl)
  | case3 mask hMask hMiss ih =>
    have hClear := testBit_clear_lowest (Nat.find_spec (Nat.exists_testBit_of_ne_zero hMask))
      fun _ => Nat.find_min _
    refine ih (fun j hj => ?_) (fun l hl hCmp hHit => ?_)
    · rw [hClear, Bool.and_eq_true] at hj
      exact hLane j hj.1
    · obtain ⟨j, hj, rfl⟩ := hLeft l hl hCmp hHit
      refine ⟨j, ?_, rfl⟩
      rw [hClear, hj, Bool.true_and, bne_iff_ne]
      rintro rfl
      exact hMiss hHit

end Lanes

def movemask (B : Nat) (cmp : Nat → Bool) : Nat := Nat.ofBits fun k : Fin B => cmp k

def narrow (x y : Bool) : Nat := ((if x then 0xFF else 0) + 2 ^ 8 * if y then 0xFF else 0) >>> 4 % 2 ^ 8

def mask64 (cmp : Nat → Bool) : Nat :=
  Nat.ofBits fun j : Fin 64 => (narrow (cmp (j / 8 * 2)) (cmp (j / 8 * 2 + 1))).testBit (j % 8)

def terminator : Bytes := crlf ++ crlf

section Scan

variable (data : Bytes)

def isCr (i : Nat) : Bool := data[i]? = some cr

def confirmed (off : Nat) : Bool :=
  off + 3 < data.length ∧ data[off + 1]? = some lf ∧ data[off + 2]? = some cr ∧ data[off + 3]? = some lf

def endsAt (i : Nat) : Bool := isCr data i && confirmed data i

def scalar (i count : Nat) : Option Nat := (List.range' i count).find? (endsAt data)

def visitBlock (w mask i : Nat) : Option Nat :=
  (visitLanes (fun lane => confirmed data (i + lane)) w mask).map (i + ·)

def x86Block (B i : Nat) : Option Nat := visitBlock data 1 (movemask B fun k => isCr data (i + k)) i

def neonBlock (i : Nat) : Option Nat :=
  if (List.range' i 16).any (isCr data) then visitBlock data 4 (mask64 fun k => isCr data (i + k)) i
  else none

variable (B : Nat) (block : Nat → Option Nat)

def scanFrom : Nat → Nat → Option Nat
  | 0, i => scalar data i (data.length - 3 - i)
  | n + 1, i => (block i).or (scanFrom n (i + B))

def scan : Option Nat := if data.length < 4 then none else scanFrom data B block (data.length / B) 0

def findHeaderEndAvx2 : Option Nat := scan data 32 (x86Block data 32)
def findHeaderEndSse2 : Option Nat := scan data 16 (x86Block data 16)
def findHeaderEndNeon : Option Nat := scan data 16 (neonBlock data)
def findHeaderEndScalar : Option Nat :=
  if data.length < 4 then none else scalar data 0 (data.length - 3)

variable {data B block}

theorem visitBlock_eq {w mask i : Nat} (hw : 0 < w)
    (hBits : ∀ j, mask.testBit j = (decide (j < w * B) && isCr data (i + j / w))) :
    visitBlock data w mask i = scalar data i B := by
  have hLanes : visitLanes (fun lane => confirmed data (i + lane)) w mask =
      (List.range B).find? fun l => isCr data (i + l) && confirmed data (i + l) := by
    refine visitLanes_of_left (fun j hj => ?_) fun l hl hCmp _ => ⟨w * l, ?_, Nat.mul_div_cancel_left l hw⟩
    · rw [hBits, Bool.and_eq_true, decide_eq_true_eq] at hj
      exact ⟨Nat.div_lt_of_lt_mul hj.1, hj.2⟩
    · rw [hBits, Nat.mul_div_cancel_left l hw, hCmp, decide_eq_true (Nat.mul_lt_mul_of_pos_left hl hw)]
      rfl
  rw [visitBlock, hLanes, scalar, List.range'_eq_map_range, List.find?_map]
  rfl

theorem x86Block_eq (i : Nat) : x86Block data B i = scalar data i B := by
  refine visitBlock_eq Nat.one_pos fun j => ?_
  rw [movemask, Nat.testBit_ofBits]
  split_ifs with hj <;> simp [hj]

theorem testBit_mask64 (cmp : Nat → Bool) (j : Nat) :
    (mask64 cmp).testBit j = (decide (j < 4 * 16) && cmp (j / 4)) := by
  have hNarrow : ∀ x y, ∀ b < 8, (narrow x y).testBit b = if b < 4 then x else y := by decide
  rw [mask64, Nat.testBit_ofBits]
  split_ifs with hj
  · rw [hNarrow _ _ _ (Nat.mod_lt _ (by decide)), decide_eq_true hj, Bool.true_and]
    split_ifs <;> exact congrArg cmp (by grind)
  · rw [decide_eq_false hj, Bool.false_and]

theorem neonBlock_eq (i : Nat) : neonBlock data i = scalar data i 16 := by
  rw [neonBlock]
  split_ifs with hAny
  · exact visitBlock_eq (by decide) (testBit_mask64 _)
  · symm
    simp only [List.any_eq_true, not_exists, not_and] at hAny
    exact List.find?_eq_none.mpr fun k hk => by simp [endsAt, hAny k hk]

theorem endsAt_iff (i : Nat) : endsAt data i ↔ terminator <+: data.drop i := by
  have hCons : ∀ (c : UInt8) cs k, c :: cs <+: data.drop k ↔ data[k]? = some c ∧ cs <+: data.drop (k + 1) := by
    intro c cs k
    rw [← List.head?_drop, ← List.tail_drop]
    cases data.drop k <;> simp [List.cons_prefix_cons, eq_comm]
  have hFits : data[i + 3]? = some lf → i + 3 < data.length := fun h => (List.getElem?_eq_some_iff.mp h).1
  simp [endsAt, isCr, confirmed, terminator, crlf, hCons]
  tauto

theorem scalar_or (count i : Nat) :
    (scalar data i count).or (findFrom terminator data (i + count)) = findFrom terminator data i := by
  induction count generalizing i with
  | zero => rfl
  | succ count ih =>
    rw [scalar, List.range'_succ]
    by_cases hHere : endsAt data i
    · rw [List.find?_cons_of_pos hHere, findFrom_here _ _ _ ((endsAt_iff i).mp hHere), Option.some_or]
    · rw [List.find?_cons_of_neg hHere, findFrom_succ terminator data i nofun (mt (endsAt_iff i).mpr hHere),
        ← ih (i + 1), Nat.add_right_comm, Nat.add_assoc, scalar]

theorem lt_of_terminator {i : Nat} (hHere : terminator <+: data.drop i) : i + 3 < data.length := by
  have hLength := hHere.length_le
  rw [List.length_drop] at hLength
  exact Nat.add_lt_of_lt_sub' hLength

theorem scalar_tail (i : Nat) : scalar data i (data.length - 3 - i) = findFrom terminator data i := by
  have hTail : findFrom terminator data (i + (data.length - 3 - i)) = none := by
    refine (findFrom_eq_none_iff terminator _ _ nofun).mpr fun j hj hHere => ?_
    have hFits := lt_of_terminator hHere
    omega
  rw [← scalar_or (data.length - 3 - i), hTail, Option.or_none]

/-- Blocks that are searched as the scalar loop does give its result. -/
theorem scan_eq (hBlock : ∀ i, block i = scalar data i B) : scan data B block = findHeaderEndScalar data := by
  have hFrom : ∀ n i, scanFrom data B block n i = findFrom terminator data i := by
    intro n
    induction n with
    | zero => exact scalar_tail
    | succ n ih =>
      intro i
      rw [scanFrom, hBlock, ih, scalar_or]
  rw [scan, findHeaderEndScalar, hFrom, ← scalar_tail, Nat.sub_zero]

theorem findHeaderEndScalar_eq : findHeaderEndScalar data = findHeaderEnd data := by
  have hFind : scalar data 0 (data.length - 3) = findHeaderEnd data := by
    rw [← Nat.sub_zero (data.length - 3), scalar_tail, findFrom, List.drop_zero]
    exact Option.map_id'
  rw [findHeaderEndScalar, ← hFind]
  split_ifs with hShort
  · rw [show data.length - 3 = 0 by omega]
    rfl
  · rfl

variable (data) in
/-- The three vector scans find what the scalar one finds: the first CRLF CRLF. -/
theorem header_scans_agree :
    findHeaderEndAvx2 data = findHeaderEndScalar data ∧ findHeaderEndSse2 data = findHeaderEndScalar data ∧
      findHeaderEndNeon data = findHeaderEndScalar data ∧ ∀ k, findHeaderEndScalar data = some k ↔
        terminator <+: data.drop k ∧ ∀ j < k, ¬terminator <+: data.drop j := by
  refine ⟨scan_eq x86Block_eq, scan_eq x86Block_eq, scan_eq neonBlock_eq, fun k => ?_⟩
  rw [findHeaderEndScalar_eq, findHeaderEnd, find_eq_some_iff]
  refine and_iff_right_of_imp fun ⟨hHere, _⟩ => ?_
  have hFits := lt_of_terminator hHere
  omega

end Scan

end QbuemStack.Http.HeaderScan
