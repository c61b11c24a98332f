import Mathlib.Data.List.DropRight
import QbuemStack.Base.Radix

/-! The verify-only big integers of `crypto/rsa.hpp`: limbs of 32 bits, least significant first. -/
namespace Crypto

open Octets Radix
open List (length_cons map_cons range replicate)
open Nat (compare_eq_lt mod_eq_of_lt mod_modEq)

abbrev BigUint := List UInt32

namespace BigUint

variable (b : Bytes) (a : BigUint) (k : Nat)

def value (a : BigUint) : Nat := Nat.ofDigits (2 ^ 32) (a.map UInt32.toNat)

@[simp] theorem value_nil : value [] = 0 := rfl

@[simp] theorem value_cons (x : UInt32) (a : BigUint) : value (x :: a) = x.toNat + 2 ^ 32 * value a := by
  rfl

theorem value_append (b : BigUint) : value (a ++ b) = value a + 2 ^ (32 * a.length) * value b := by
  rw [value, List.map_append, Nat.ofDigits_append, List.length_map, ← pow_mul]
  rfl

theorem value_lt : value a < 2 ^ (32 * a.length) := by
  induction a with
  | nil => simp
  | cons x a ih =>
    have hLimb := x.toNat_lt
    rw [value_cons, length_cons, Nat.mul_succ, pow_add]
    omega

theorem value_zeros (count : Nat) : value (replicate count 0) = 0 := by
  induction count with
  | zero => rfl
  | succ count ih => simp [List.replicate_succ, ih]

theorem value_rdropWhile : value (a.rdropWhile (· == 0)) = value a := by
  induction a using List.reverseRecOn with
  | nil => rfl
  | append_singleton a x ih =>
    by_cases hx : x = 0
    · subst hx
      rw [List.rdropWhile_concat_pos _ _ _ rfl, ih, value_append]
      simp
    · rw [List.rdropWhile_concat_neg _ _ _ (by simpa using hx)]

def trim (a : BigUint) : BigUint :=
  match a.rdropWhile (· == 0) with
  | [] => [0]
  | b => b

theorem value_trim : value (trim a) = value a := by
  rw [← value_rdropWhile a, trim]
  cases a.rdropWhile (· == 0) with
  | nil => simp
  | cons x b => rfl

theorem trim_ne_nil : trim a ≠ [] := by
  rw [trim]
  cases a.rdropWhile (· == 0) <;> simp

def packLimb (b0 b1 b2 b3 : UInt8) : UInt32 :=
  (b0.toUInt32 <<< 24) ||| (b1.toUInt32 <<< 16) ||| (b2.toUInt32 <<< 8) ||| b3.toUInt32

def partialLimb (b : Bytes) : UInt32 := b.foldl (fun limb c => (limb <<< 8) ||| c.toUInt32) 0

def limbsOf : Bytes → BigUint
  | b3 :: b2 :: b1 :: b0 :: rest => packLimb b0 b1 b2 b3 :: limbsOf rest
  | [] => []
  | short => [partialLimb short.reverse]

def fromBeBytes (b : Bytes) : BigUint :=
  let out := limbsOf b.reverse
  trim (if out.isEmpty then [0] else out)

theorem toNat_packLimb (b0 b1 b2 b3 : UInt8) : (packLimb b0 b1 b2 b3).toNat = leValue [b3, b2, b1, b0] := by
  rw [← toNat_join, packLimb, UInt32.or_comm, UInt32.or_comm _ (b2.toUInt32 <<< 8), UInt32.or_comm (b0.toUInt32 <<< 24),
    ← UInt32.or_assoc, ← UInt32.or_assoc]

theorem toNat_partialLimb (hLength : b.length ≤ 3) : (partialLimb b).toNat = beValue b := by
  induction b using List.reverseRecOn with
  | nil => rfl
  | append_singleton b c ih =>
    rw [List.length_append, List.length_singleton] at hLength
    have hSmall : beValue b < (2 ^ 8) ^ 2 :=
      (beValue_lt b).trans_le (Nat.pow_le_pow_right (by norm_num) (by omega))
    rw [beValue_concat, partialLimb, List.foldl_append, List.foldl_cons, List.foldl_nil,
      ← partialLimb, UInt32.toNat_or, UInt32.toNat_shiftLeft, ih (by omega), UInt8.toNat_toUInt32]
    change beValue b <<< 8 % 2 ^ 32 ||| c.toNat = _
    rw [Nat.shiftLeft_eq, mod_eq_of_lt (by omega), @or_eq_add _ _ 8 (by omega) c.toNat_lt]

theorem value_limbsOf : value (limbsOf b) = leValue b := by
  induction b using limbsOf.induct with
  | case1 b3 b2 b1 b0 rest ih =>
    rw [limbsOf, value_cons, ih, toNat_packLimb]
    simp only [leValue_cons, leValue_nil]
    ring
  | case2 => rfl
  | case3 short hLong hEmpty =>
    have hLength : short.length ≤ 3 := by
      rcases short with _ | ⟨a, _ | ⟨b, _ | ⟨c, _ | ⟨d, rest⟩⟩⟩⟩
      · simp
      · simp
      · simp
      · simp
      · exact absurd rfl (hLong a b c d rest)
    rw [limbsOf, value_cons, toNat_partialLimb _ (by simpa using hLength), beValue_eq_leValue]
    · simp
    · exact hLong
    · exact hEmpty

theorem value_fromBeBytes : value (fromBeBytes b) = beValue b := by
  rw [beValue_eq_leValue, ← value_limbsOf, fromBeBytes, value_trim]
  split_ifs with hEmpty
  · rw [List.isEmpty_iff] at hEmpty
    rw [hEmpty]
    rfl
  · rfl

theorem fromBeBytes_ne_nil : fromBeBytes b ≠ [] := trim_ne_nil _

def limbBytes (limb : UInt32) : Bytes :=
  [limb.toUInt8, (limb >>> 8).toUInt8, (limb >>> 16).toUInt8, (limb >>> 24).toUInt8]

def toBeBytes (a : BigUint) (k : Nat) : Bytes :=
  let written := (a.flatMap limbBytes).take k
  (written ++ List.replicate (k - written.length) 0).reverse

theorem length_toBeBytes : (toBeBytes a k).length = k := by
  rw [toBeBytes, List.length_reverse, List.length_append, List.length_replicate, List.length_take]
  omega

theorem leValue_flatMap_limbBytes : leValue (a.flatMap limbBytes) = value a := by
  induction a with
  | nil => rfl
  | cons x a ih =>
    have hBytes : leValue (limbBytes x) = x.toNat := leValue_word x
    have hLength : (limbBytes x).length = 4 := rfl
    rw [List.flatMap_cons, leValue_append, hBytes, hLength, ih, value_cons, ← pow_mul]

theorem beValue_toBeBytes (hFits : value a < (2 ^ 8) ^ k) : beValue (toBeBytes a k) = value a := by
  have hTake := leValue_slice (a.flatMap limbBytes) 0 k
  rw [slice, List.drop_zero, Nat.mul_zero, pow_zero, Nat.div_one, leValue_flatMap_limbBytes, pow_mul,
    mod_eq_of_lt hFits] at hTake
  rw [toBeBytes, beValue_eq_leValue, List.reverse_reverse, leValue_append, leValue_zeros, Nat.mul_zero, Nat.add_zero,
    hTake]

def significant (a : BigUint) : BigUint :=
  match a.rdropWhile (· == 0) with
  | [] => a.take 1
  | b => b

def cmpTop : BigUint → BigUint → Ordering
  | x :: a, y :: b => if x ≠ y then (if x < y then .lt else .gt) else cmpTop a b
  | _, _ => .eq

def cmp (a b : BigUint) : Ordering :=
  let a := significant a
  let b := significant b
  if a.length ≠ b.length then (if a.length < b.length then .lt else .gt)
  else cmpTop a.reverse b.reverse

variable {a b n : BigUint}

theorem cmpTop_eq_compare (hLength : a.length = b.length) :
    cmpTop a b = compare (value a.reverse) (value b.reverse) := by
  induction a generalizing b with
  | nil =>
    rw [List.length_eq_zero_iff.mp hLength.symm]
    rfl
  | cons x a ih =>
    cases b with
    | nil => cases hLength
    | cons y b =>
      have hSame : a.length = b.length := by simpa using hLength
      have hLow := value_lt a.reverse
      have hLow' := value_lt b.reverse
      simp only [List.reverse_cons, value_append, List.length_reverse, value_cons, value_nil,
        Nat.mul_zero, Nat.add_zero, hSame] at hLow hLow' ⊢
      rw [cmpTop]
      generalize 2 ^ (32 * b.length) = weight at *
      have hTop : ∀ {x y : UInt32} {low low' : Nat}, x < y → low < weight →
          low + weight * x.toNat < low' + weight * y.toNat := by
        intro x y low low' hLess hSmall
        have hStep := Nat.mul_le_mul_left weight (Nat.succ_le_of_lt (UInt32.lt_iff_toNat_lt.mp hLess))
        rw [Nat.mul_succ] at hStep
        omega
      by_cases hxy : x = y
      · subst hxy
        rw [if_neg (not_not.mpr rfl), ih hSame]
        rcases Nat.lt_trichotomy (value a.reverse) (value b.reverse) with h | h | h
        · rw [compare_eq_lt.mpr h, compare_eq_lt.mpr (by omega)]
        · rw [Nat.compare_eq_eq.mpr h, Nat.compare_eq_eq.mpr (by omega)]
        · rw [Nat.compare_eq_gt.mpr h, Nat.compare_eq_gt.mpr (by omega)]
      · rw [if_pos hxy]
        split_ifs with hLess
        · exact (compare_eq_lt.mpr (hTop hLess hLow)).symm
        · have hMore : y < x := UInt32.lt_of_le_of_ne (UInt32.not_lt.mp hLess) (Ne.symm hxy)
          exact (Nat.compare_eq_gt.mpr (hTop hMore hLow')).symm

theorem value_significant (a : BigUint) : value (significant a) = value a := by
  have h := value_rdropWhile a
  rw [significant]
  cases hDrop : a.rdropWhile (· == 0) with rw [hDrop] at h
  | nil =>
    have hZero : ∀ x ∈ a, x = 0 := by simpa using List.rdropWhile_eq_nil_iff.mp hDrop
    cases a with
    | nil => rfl
    | cons x a =>
      rw [List.take_succ_cons, List.take_zero, ← h, hZero x List.mem_cons_self]
      rfl
  | cons x b =>
    exact h

theorem pow_le_value_significant (hLong : 1 < (significant a).length) :
    2 ^ (32 * ((significant a).length - 1)) ≤ value a := by
  rw [← value_significant a]
  rw [significant] at hLong ⊢
  cases hDrop : a.rdropWhile (· == 0) with
  | nil =>
    rw [hDrop] at hLong
    simp only [List.length_take] at hLong
    omega
  | cons x b =>
    have hLast := List.rdropWhile_last_not (· == 0) a (by rw [hDrop]; simp)
    simp only [hDrop] at hLast ⊢
    obtain ⟨front, top, hFront⟩ := (List.eq_nil_or_concat (x :: b)).resolve_left (by simp)
    rw [List.concat_eq_append] at hFront
    simp only [hFront, List.getLast_append_singleton, beq_iff_eq] at hLast
    have hTop : 0 < top.toNat := Nat.pos_of_ne_zero fun h => hLast (UInt32.toNat_inj.mp h)
    rw [hFront, value_append, List.length_append, List.length_singleton, Nat.add_sub_cancel, value_cons, value_nil]
    exact (Nat.le_mul_of_pos_right _ (by omega)).trans (Nat.le_add_left _ _)

theorem significant_ne_nil (ha : a ≠ []) : significant a ≠ [] := by
  rw [significant]
  cases a.rdropWhile (· == 0) with
  | nil => simpa using ha
  | cons x b => simp

theorem value_lt_of_significant (ha : a ≠ []) (hLess : (significant a).length < (significant b).length) :
    value a < value b := by
  have hPos := List.length_pos_of_ne_nil (significant_ne_nil ha)
  calc value a = value (significant a) := (value_significant a).symm
    _ < 2 ^ (32 * (significant a).length) := value_lt _
    _ ≤ 2 ^ (32 * ((significant b).length - 1)) := Nat.pow_le_pow_right (by norm_num) (by omega)
    _ ≤ value b := pow_le_value_significant (by omega)

/-- `cmp` orders the numbers, whatever zeros are stored at the top. -/
theorem cmp_eq_compare (ha : a ≠ []) (hb : b ≠ []) : cmp a b = compare (value a) (value b) := by
  rw [cmp]
  split_ifs with hLength hLess
  · exact (compare_eq_lt.mpr (value_lt_of_significant ha hLess)).symm
  · exact (Nat.compare_eq_gt.mpr (value_lt_of_significant hb (by omega))).symm
  · rw [cmpTop_eq_compare (by simpa using not_not.mp hLength), List.reverse_reverse,
      List.reverse_reverse, value_significant, value_significant]

def subLoop : BigUint → BigUint → UInt64 → BigUint
  | [], _, _ => []
  | x :: a, b, borrow =>
    let need := (b.headD 0).toUInt64 + borrow
    if x.toUInt64 ≥ need then (x.toUInt64 - need).toUInt32 :: subLoop a b.tail 0
    else (x.toUInt64 + 0x100000000 - need).toUInt32 :: subLoop a b.tail 1

def subInplace (a b : BigUint) : BigUint := trim (subLoop a b 0)

theorem value_head_tail (b : BigUint) : value b = (b.headD 0).toNat + 2 ^ 32 * value b.tail := by
  cases b with
  | nil => rfl
  | cons y b => simp

theorem value_subLoop (a b : BigUint) (borrow : UInt64) (hBorrow : borrow.toNat ≤ 1)
    (hLe : value b + borrow.toNat ≤ value a) : value (subLoop a b borrow) = value a - (value b + borrow.toNat) := by
  induction a generalizing b borrow with
  | nil => simp [subLoop]
  | cons x a ih =>
    have hx := x.toNat_lt
    have hy := (b.headD 0).toNat_lt
    have hSplit := value_head_tail b
    rw [value_cons] at hLe
    rw [subLoop]
    generalize hNeed : (b.headD 0).toUInt64 + borrow = need
    have hNeedNat : need.toNat = (b.headD 0).toNat + borrow.toNat := by
      rw [← hNeed, UInt64.toNat_add, UInt32.toNat_toUInt64]
      omega
    simp only [ge_iff_le, UInt64.le_iff_toNat_le, UInt32.toNat_toUInt64]
    split_ifs with hEnough
    · have hLimb : ((x.toUInt64 - need).toUInt32).toNat = x.toNat - need.toNat := by
        rw [UInt64.toNat_toUInt32, UInt64.toNat_sub_of_le _ _ (by
          rwa [UInt64.le_iff_toNat_le, UInt32.toNat_toUInt64]), UInt32.toNat_toUInt64]
        omega
      rw [value_cons, value_cons, hLimb, ih b.tail 0 (by simp) (by
        rw [UInt64.toNat_zero]
        omega), UInt64.toNat_zero]
      omega
    · have hWide : (x.toUInt64 + 0x100000000).toNat = x.toNat + 2 ^ 32 := by
        have hBase : (0x100000000 : UInt64).toNat = 2 ^ 32 := by simp
        rw [UInt64.toNat_add, UInt32.toNat_toUInt64, hBase]
        omega
      have hLimb : ((x.toUInt64 + 0x100000000 - need).toUInt32).toNat =
          x.toNat + 2 ^ 32 - need.toNat := by
        rw [UInt64.toNat_toUInt32, UInt64.toNat_sub_of_le _ _ (by
          rw [UInt64.le_iff_toNat_le, hWide]
          omega), hWide]
        omega
      rw [value_cons, value_cons, hLimb, ih b.tail 1 (by simp) (by
        rw [UInt64.toNat_one]
        omega), UInt64.toNat_one]
      omega

theorem value_subInplace (hLe : value b ≤ value a) : value (subInplace a b) = value a - value b := by
  rw [subInplace, value_trim, value_subLoop a b 0 (by simp) (by simpa using hLe)]
  simp

def shl1Loop : BigUint → UInt32 → BigUint
  | [], carry => if carry ≠ 0 then [1] else []
  | x :: a, carry => ((x <<< 1) ||| carry) :: shl1Loop a (x >>> 31)

def shl1 (a : BigUint) (bit : UInt32) : BigUint := shl1Loop a (bit &&& 1)

theorem value_shl1Loop (a : BigUint) (carry : UInt32) (hCarry : carry.toNat ≤ 1) :
    value (shl1Loop a carry) = 2 * value a + carry.toNat := by
  induction a generalizing carry with
  | nil =>
    rw [shl1Loop]
    split_ifs with h
    · have hOne : carry.toNat ≠ 0 := fun hZero => h (UInt32.toNat_inj.mp hZero)
      simp only [value_cons, value_nil, UInt32.toNat_one]
      omega
    · rw [not_not.mp h]
      rfl
  | cons x a ih =>
    have hx := x.toNat_lt
    have hNext : (x >>> 31).toNat = x.toNat / 2 ^ 31 := by
      rw [UInt32.toNat_shiftRight, Nat.shiftRight_eq_div_pow]
      rfl
    have hLimb : ((x <<< 1) ||| carry).toNat = x.toNat * 2 % 2 ^ 32 + carry.toNat := by
      change x.toNat <<< 1 % 2 ^ 32 ||| carry.toNat = _
      rw [Nat.shiftLeft_eq, @or_eq_add _ _ 1 (by omega) (by omega), pow_one]
    rw [shl1Loop, value_cons, value_cons, ih _ (by omega), hLimb, hNext]
    omega

theorem shl1_ne_nil (ha : a ≠ []) (bit : UInt32) : shl1 a bit ≠ [] := by
  cases a with
  | nil => exact absurd rfl ha
  | cons x a => simp [shl1, shl1Loop]

theorem toNat_and_one (bit : UInt32) : (bit &&& 1).toNat = bit.toNat % 2 := by
  rw [UInt32.toNat_and, UInt32.toNat_one, Nat.and_one_is_mod]

theorem value_shl1 (a : BigUint) (bit : UInt32) : value (shl1 a bit) = 2 * value a + bit.toNat % 2 := by
  rw [shl1, value_shl1Loop _ _ (by rw [toNat_and_one]; omega), toNat_and_one]

def addRow (ai : UInt64) : BigUint → BigUint → UInt64 → BigUint
  | bj :: b, o :: out, carry =>
    let cur := o.toUInt64 + ai * bj.toUInt64 + carry
    (cur &&& 0xFFFFFFFF).toUInt32 :: addRow ai b out (cur >>> 32)
  | [], o :: out, carry => (o + carry.toUInt32) :: out
  | _, [], _ => []

def mulRows : BigUint → BigUint → BigUint → BigUint
  | [], _, out => out
  | ai :: a, b, out =>
    match addRow ai.toUInt64 b out 0 with
    | [] => []
    | o :: out => o :: mulRows a b out

def mul (a b : BigUint) : BigUint :=
  trim (mulRows a b (List.replicate (a.length + b.length) 0))

/-- A row adds `ai * b`: the place the carry goes to is still zero. -/
theorem value_addRow (ai : UInt32) (b front back : BigUint) (carry : UInt64)
    (hFront : front.length = b.length) (hCarry : carry.toNat < 2 ^ 32) : ∃ row, row.length = b.length + 1 ∧
      addRow ai.toUInt64 b (front ++ 0 :: back) carry = row ++ back ∧
      value row = value front + ai.toNat * value b + carry.toNat := by
  induction b generalizing front carry with
  | nil =>
    rw [List.length_eq_zero_iff.mp hFront]
    refine ⟨[0 + carry.toUInt32], rfl, rfl, ?_⟩
    rw [value_cons, UInt32.zero_add, UInt64.toNat_toUInt32, mod_eq_of_lt hCarry]
    simp
  | cons bj b ih =>
    cases front with
    | nil => cases hFront
    | cons o front =>
      have hai := ai.toNat_lt
      have hbj := bj.toNat_lt
      have ho := o.toNat_lt
      have hProduct : ai.toNat * bj.toNat ≤ (2 ^ 32 - 1) * (2 ^ 32 - 1) :=
        Nat.mul_le_mul (by omega) (by omega)
      generalize hCur : o.toUInt64 + ai.toUInt64 * bj.toUInt64 + carry = cur
      have hCurNat : cur.toNat = o.toNat + ai.toNat * bj.toNat + carry.toNat := by
        rw [← hCur, UInt64.toNat_add, UInt64.toNat_add, UInt64.toNat_mul, UInt32.toNat_toUInt64,
          UInt32.toNat_toUInt64, UInt32.toNat_toUInt64]
        omega
      have hHigh : (cur >>> 32).toNat = cur.toNat / 2 ^ 32 := by
        rw [UInt64.toNat_shiftRight, Nat.shiftRight_eq_div_pow]
        rfl
      have hLow : ((cur &&& 0xFFFFFFFF).toUInt32).toNat = cur.toNat % 2 ^ 32 := by
        change (cur.toNat &&& (2 ^ 32 - 1)) % 2 ^ 32 = _
        rw [Nat.and_two_pow_sub_one_eq_mod, Nat.mod_mod]
      obtain ⟨row, hLength, hRow, hValue⟩ := ih front (cur >>> 32) (by simpa using hFront)
        (by rw [hHigh]; omega)
      refine ⟨(cur &&& 0xFFFFFFFF).toUInt32 :: row, by simpa using hLength, ?_, ?_⟩
      · rw [List.cons_append, addRow, hCur, hRow]
        rfl
      · rw [value_cons, hValue, hLow, hHigh, value_cons, value_cons, Nat.mul_add ai.toNat]
        have hSwap : ai.toNat * (2 ^ 32 * value b) = 2 ^ 32 * (ai.toNat * value b) := by ring
        omega

theorem value_mulRows (a b front : BigUint) (hFront : front.length = b.length) :
    value (mulRows a b (front ++ replicate a.length 0)) = value front + value a * value b := by
  induction a generalizing front with
  | nil => simp [mulRows]
  | cons ai a ih =>
    obtain ⟨row, hLength, hRow, hValue⟩ := value_addRow ai b front (replicate a.length 0) 0
      hFront (by simp)
    obtain ⟨o, row, rfl⟩ := List.exists_cons_of_length_eq_add_one hLength
    rw [length_cons, List.replicate_succ, mulRows, hRow, List.cons_append]
    simp only [value_cons]
    rw [ih row (by simpa using hLength)]
    rw [value_cons, UInt64.toNat_zero] at hValue
    rw [Nat.add_mul, Nat.mul_assoc (2 ^ 32)]
    omega

theorem value_mul (a b : BigUint) : value (mul a b) = value a * value b := by
  rw [mul, value_trim, Nat.add_comm, List.replicate_add, value_mulRows a b _ (by simp), value_zeros]
  omega

def modStep (n r : BigUint) (bit : UInt32) : BigUint :=
  let r := shl1 r bit
  if cmp r n ≠ .lt then subInplace r n else r

def mod (x n : BigUint) : BigUint :=
  x.reverse.foldl (fun r limb =>
    (List.range 32).reverse.foldl (fun r (bit : Nat) =>
      modStep n r ((limb >>> UInt32.ofNat bit) &&& 1)) r) [0]

def modmul (a b n : BigUint) : BigUint := mod (mul a b) n

def expStep (base n result : BigUint) (bit : UInt8) : BigUint :=
  let result := modmul result result n
  if bit ≠ 0 then modmul result base n else result

def modexp (base : BigUint) (expBe : Bytes) (n : BigUint) : BigUint :=
  let base := mod base n
  (expBe.dropWhile (· == 0)).foldl (fun result c =>
    (List.range 8).reverse.foldl (fun result (bit : Nat) =>
      expStep base n result ((c >>> UInt8.ofNat bit) &&& 1)) result) [1]

theorem modStep_spec {r : BigUint} (hn : n ≠ []) (hr : r ≠ []) (hLess : value r < value n) (bit : UInt32) :
    modStep n r bit ≠ [] ∧ value (modStep n r bit) = (2 * value r + bit.toNat % 2) % value n := by
  have hShift := value_shl1 r bit
  have hNonempty := shl1_ne_nil hr bit
  rw [modStep, cmp_eq_compare hNonempty hn]
  split_ifs with hReached
  · rw [ne_eq, compare_eq_lt, not_lt] at hReached
    refine ⟨trim_ne_nil _, ?_⟩
    rw [value_subInplace hReached, ← hShift, Nat.mod_eq_sub_mod hReached, mod_eq_of_lt (by omega)]
  · rw [not_not, compare_eq_lt] at hReached
    exact ⟨hNonempty, by rw [← hShift, mod_eq_of_lt hReached]⟩

/-- After some bits of the dividend `r` is what they stand for, reduced. -/
theorem modBits_spec (hn : n ≠ []) (word : List UInt32) (r : BigUint) (hr : r ≠ []) (hLess : value r < value n) :
    word.foldl (modStep n) r ≠ [] ∧ value (word.foldl (modStep n) r) =
      horner 2 (value r) (word.map fun bit => bit.toNat % 2) % value n := by
  induction word generalizing r with
  | nil => exact ⟨hr, (mod_eq_of_lt hLess).symm⟩
  | cons bit word ih =>
    obtain ⟨hStep, hValue⟩ := modStep_spec hn hr hLess bit
    have hPos : 0 < value n := by omega
    obtain ⟨hRest, hRestValue⟩ := ih (modStep n r bit) hStep (hValue ▸ Nat.mod_lt _ hPos)
    refine ⟨hRest, ?_⟩
    rw [List.foldl_cons, hRestValue, hValue, map_cons, horner_cons, horner_acc,
      horner_acc 2 (value r * 2 + _), Nat.mul_comm (value r) 2]
    exact (((mod_modEq _ _).mul_right _).add_right _)

theorem toNat_bit (limb : UInt32) {i : Nat} (hi : i < 32) :
    ((limb >>> UInt32.ofNat i) &&& 1).toNat % 2 = limb.toNat / 2 ^ i % 2 := by
  have hIndex : (UInt32.ofNat i).toNat % 32 = i := by
    rw [UInt32.toNat_ofNat']
    omega
  rw [toNat_and_one, UInt32.toNat_shiftRight, hIndex, Nat.shiftRight_eq_div_pow, Nat.mod_mod]

section

variable (hn : n ≠ []) (hPos : 0 < value n)
include hn hPos

theorem mod_spec (x : BigUint) : mod x n ≠ [] ∧ value (mod x n) = value x % value n := by
  have hFold : mod x n = (x.reverse.flatMap fun limb =>
      (range 32).reverse.map fun bit => (limb >>> UInt32.ofNat bit) &&& 1).foldl (modStep n) [0] := by
    rw [List.foldl_flatMap, mod]
    simp only [List.foldl_map]
  have hSpell : ∀ limb : UInt32, ((range 32).reverse.map fun bit =>
      (limb >>> UInt32.ofNat bit) &&& 1).map (fun bit => bit.toNat % 2) = bits 32 limb.toNat := by
    intro limb
    rw [List.map_map, bits]
    apply List.map_congr_left
    intro i hi
    exact toNat_bit limb (by simpa using hi)
  obtain ⟨hNonempty, hValue⟩ := modBits_spec hn (x.reverse.flatMap fun limb =>
    (range 32).reverse.map fun bit => (limb >>> UInt32.ofNat bit) &&& 1) [0] (by simp)
    (by simpa using hPos)
  rw [← hFold] at hNonempty hValue
  refine ⟨hNonempty, ?_⟩
  rw [hValue, List.map_flatMap]
  simp only [hSpell]
  rw [horner_flatMap 2 32 UInt32.toNat (fun limb => bits 32 limb.toNat) (fun _ => length_bits _ _)
    (fun limb => (horner_bits 32 _).trans (mod_eq_of_lt limb.toNat_lt)), List.map_reverse]
  exact congrArg (· % value n) (horner_reverse _ _)

theorem value_modmul (a b : BigUint) : value (modmul a b n) = value a * value b % value n := by
  rw [modmul, (mod_spec hn hPos _).2, value_mul]

theorem value_expStep (base result : BigUint) (power e : Nat) (hBase : value base = power % value n)
    (hResult : value result = power ^ e % value n) (bit : UInt8) :
    value (expStep base n result (bit &&& 1)) = power ^ (e * 2 + bit.toNat % 2) % value n := by
  have hBit : (bit &&& 1).toNat = bit.toNat % 2 := by
    rw [UInt8.toNat_and, UInt8.toNat_one, Nat.and_one_is_mod]
  have hSquare : value (modmul result result n) ≡ power ^ (e * 2) [MOD value n] := by
    rw [value_modmul hn hPos, hResult, pow_mul, pow_two]
    exact (mod_modEq _ _).trans ((mod_modEq _ _).mul (mod_modEq _ _))
  rw [expStep]
  split_ifs with hSet
  · have hOne : bit.toNat % 2 = 1 := by
      have hNonzero : (bit &&& 1).toNat ≠ 0 := fun h => hSet (UInt8.toNat_inj.mp h)
      omega
    rw [value_modmul hn hPos, hOne, pow_succ, hBase]
    exact hSquare.mul (mod_modEq _ _)
  · have hZero : bit.toNat % 2 = 0 := by
      rw [← hBit, not_not.mp hSet]
      rfl
    rw [hZero, Nat.add_zero, ← hSquare, mod_eq_of_lt]
    rw [value_modmul hn hPos]
    exact Nat.mod_lt _ hPos

end

/-- Square and multiply computes the power modulo `n`. -/
theorem modexp_spec (hn : n ≠ []) (hLarge : 1 < value n) (base : BigUint) (expBe : Bytes) :
    value (modexp base expBe n) = value base ^ beValue expBe % value n := by
  have hPos : 0 < value n := by omega
  have hBase := (mod_spec hn hPos base).2
  have hFold : modexp base expBe n = ((expBe.dropWhile (· == 0)).flatMap fun c =>
      (range 8).reverse.map fun bit => c >>> UInt8.ofNat bit).foldl
        (fun result bit => expStep (mod base n) n result (bit &&& 1)) [1] := by
    rw [List.foldl_flatMap, modexp]
    simp only [List.foldl_map]
  have hRun : ∀ (word : Bytes) (result : BigUint) (e : Nat),
      value result = value base ^ e % value n →
      value (word.foldl (fun result bit => expStep (mod base n) n result (bit &&& 1)) result) =
        value base ^ horner 2 e (word.map fun bit => bit.toNat % 2) % value n := by
    intro word
    induction word with
    | nil => intro result e h; exact h
    | cons bit word ih =>
      intro result e h
      exact ih _ _ (value_expStep hn hPos _ _ _ e hBase h bit)
  have hSpell : ∀ c : UInt8, ((range 8).reverse.map fun bit => c >>> UInt8.ofNat bit).map
      (fun bit => bit.toNat % 2) = bits 8 c.toNat := by
    intro c
    rw [List.map_map, bits]
    apply List.map_congr_left
    intro i hi
    have hIndex : (UInt8.ofNat i).toNat % 8 = i := by
      have hSmall : i < 8 := by simpa using hi
      rw [UInt8.toNat_ofNat']
      omega
    simp only [Function.comp_apply, UInt8.toNat_shiftRight, hIndex, Nat.shiftRight_eq_div_pow]
  rw [hFold, hRun _ [1] 0 (by simpa using (mod_eq_of_lt hLarge).symm), List.map_flatMap]
  simp only [hSpell]
  rw [horner_flatMap 2 8 UInt8.toNat (fun c => bits 8 c.toNat) (fun _ => length_bits _ _)
    (fun c => (horner_bits 8 _).trans (mod_eq_of_lt c.toNat_lt)), ← beValue_dropWhile expBe]
  rfl

end BigUint

end Crypto
