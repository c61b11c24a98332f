import Mathlib.Data.Nat.Digits.Lemmas
import QbuemStack.Base.Octets

/-! Numbers and their digits. `horner` reads digits from the most significant one, `Nat.ofDigits`
from the least significant one. -/
namespace Radix

open Octets

def horner (base acc : Nat) (digits : List Nat) : Nat :=
  digits.foldl (fun value digit => value * base + digit) acc

variable (base acc width : Nat)

@[simp] theorem horner_nil : horner base acc [] = acc := rfl

theorem horner_cons (digit : Nat) (digits : List Nat) :
    horner base acc (digit :: digits) = horner base (acc * base + digit) digits := rfl

theorem horner_append (front back : List Nat) :
    horner base acc (front ++ back) = horner base (horner base acc front) back :=
  List.foldl_append

theorem horner_acc (digits : List Nat) :
    horner base acc digits = acc * base ^ digits.length + horner base 0 digits := by
  induction digits generalizing acc with
  | nil => simp
  | cons digit digits ih =>
    rw [horner_cons, horner_cons, ih, ih (0 * base + digit), List.length_cons]
    ring

theorem horner_reverse (digits : List Nat) : horner base 0 digits.reverse = Nat.ofDigits base digits := by
  induction digits with
  | nil => rfl
  | cons digit digits ih =>
    rw [List.reverse_cons, horner_append, ih, Nat.ofDigits_cons, horner_cons, horner_nil]
    ring

theorem horner_flatMap {α : Type*} (digit : α → Nat) (spell : α → List Nat) (hWidth : ∀ a, (spell a).length = width)
    (hValue : ∀ a, horner base 0 (spell a) = digit a) (acc : Nat) (as : List α) :
    horner base acc (as.flatMap spell) = horner (base ^ width) acc (as.map digit) := by
  induction as generalizing acc with
  | nil => rfl
  | cons a as ih =>
    rw [List.flatMap_cons, horner_append, ih, List.map_cons, horner_cons, horner_acc base acc, hWidth, hValue]

def bits (width word : Nat) : List Nat := (List.range width).reverse.map fun i => word / 2 ^ i % 2

theorem length_bits (word : Nat) : (bits width word).length = width := by simp [bits]

theorem horner_bits (word : Nat) : horner 2 0 (bits width word) = word % 2 ^ width := by
  induction width with
  | zero => simp [bits, Nat.mod_one]
  | succ width ih =>
    have hTop : bits (width + 1) word = word / 2 ^ width % 2 :: bits width word := by
      simp [bits, List.range_succ]
    rw [hTop, horner_cons, horner_acc, ih, length_bits, Nat.mod_pow_succ]
    ring

theorem or_eq_add {x y width : Nat} (hx : 2 ^ width ∣ x) (hy : y < 2 ^ width) : x ||| y = x + y := by
  obtain ⟨q, rfl⟩ := hx
  exact (Nat.two_pow_add_eq_or_of_lt hy q).symm

theorem toNat_toUInt32_shl (b : UInt8) (k : UInt32) (hk : k.toNat ≤ 24) :
    (b.toUInt32 <<< k).toNat = b.toNat * 2 ^ k.toNat := by
  have hb := b.toNat_lt
  have hShift : k.toNat % 32 = k.toNat := by omega
  have hPow : 2 ^ k.toNat ≤ 2 ^ 24 := Nat.pow_le_pow_right (by norm_num) hk
  rw [UInt32.toNat_shiftLeft, UInt8.toNat_toUInt32, hShift, Nat.shiftLeft_eq, Nat.mod_eq_of_lt]
  calc b.toNat * 2 ^ k.toNat < 2 ^ 8 * 2 ^ k.toNat :=
        Nat.mul_lt_mul_of_pos_right hb (Nat.two_pow_pos _)
    _ ≤ 2 ^ 8 * 2 ^ 24 := Nat.mul_le_mul_left _ hPow

section Octets

def beValue (b : Bytes) : Nat := horner (2 ^ 8) 0 (b.map UInt8.toNat)

theorem beValue_append (front back : Bytes) :
    beValue (front ++ back) = beValue front * (2 ^ 8) ^ back.length + beValue back := by
  rw [beValue, List.map_append, horner_append, horner_acc, List.length_map]
  rfl

variable (b : Bytes) (count : Nat)

theorem beValue_concat (c : UInt8) : beValue (b ++ [c]) = beValue b * 2 ^ 8 + c.toNat := by
  rw [beValue_append]
  simp [beValue, horner_cons]

theorem beValue_dropWhile : beValue (b.dropWhile (· == 0)) = beValue b := by
  induction b with
  | nil => rfl
  | cons c b ih =>
    by_cases hc : c = 0
    · rw [List.dropWhile_cons_of_pos (by simpa using hc), ih, hc]
      rfl
    · rw [List.dropWhile_cons_of_neg (by simpa using hc)]

def leValue (b : Bytes) : Nat := Nat.ofDigits (2 ^ 8) (b.map UInt8.toNat)

theorem beValue_eq_leValue : beValue b = leValue b.reverse := by
  rw [leValue, ← horner_reverse, List.map_reverse, List.reverse_reverse]
  rfl

theorem toNat_lt_of_mem : ∀ d ∈ b.map UInt8.toNat, d < 2 ^ 8 := by
  intro d hd
  obtain ⟨c, -, rfl⟩ := List.mem_map.mp hd
  exact c.toNat_lt

@[simp] theorem leValue_nil : leValue [] = 0 := rfl

@[simp] theorem leValue_cons (c : UInt8) (b : Bytes) : leValue (c :: b) = c.toNat + 2 ^ 8 * leValue b := by
  rfl

theorem toNat_join (b0 b1 b2 b3 : UInt8) :
    (b0.toUInt32 ||| b1.toUInt32 <<< 8 ||| b2.toUInt32 <<< 16 ||| b3.toUInt32 <<< 24).toNat =
        leValue [b0, b1, b2, b3] := by
  have h0 := b0.toNat_lt
  have h1 := b1.toNat_lt
  have h2 := b2.toNat_lt
  have s1 : (b1.toUInt32 <<< 8).toNat = b1.toNat * 2 ^ 8 := toNat_toUInt32_shl b1 8 (by simp)
  have s2 : (b2.toUInt32 <<< 16).toNat = b2.toNat * 2 ^ 16 := toNat_toUInt32_shl b2 16 (by simp)
  have s3 : (b3.toUInt32 <<< 24).toNat = b3.toNat * 2 ^ 24 := toNat_toUInt32_shl b3 24 (by simp)
  rw [UInt32.toNat_or, UInt32.toNat_or, UInt32.toNat_or, s1, s2, s3, UInt8.toNat_toUInt32]
  have h01 : b0.toNat ||| b1.toNat * 2 ^ 8 = b1.toNat * 2 ^ 8 + b0.toNat := by
    rw [Nat.or_comm, @or_eq_add _ _ 8 (by omega) h0]
  have h012 : b1.toNat * 2 ^ 8 + b0.toNat ||| b2.toNat * 2 ^ 16 =
      b2.toNat * 2 ^ 16 + (b1.toNat * 2 ^ 8 + b0.toNat) := by
    rw [Nat.or_comm, @or_eq_add _ _ 16 (by omega) (by omega)]
  rw [h01, h012, Nat.or_comm, @or_eq_add _ _ 24 (by omega) (by omega)]
  simp only [leValue_cons, leValue_nil]
  omega

theorem leValue_word (w : UInt32) :
    leValue [w.toUInt8, (w >>> 8).toUInt8, (w >>> 16).toUInt8, (w >>> 24).toUInt8] = w.toNat := by
  have hw := w.toNat_lt
  simp only [leValue_cons, leValue_nil, UInt32.toNat_toUInt8, UInt32.toNat_shiftRight, Nat.shiftRight_eq_div_pow]
  change w.toNat % 2 ^ 8 + 2 ^ 8 * (w.toNat / 2 ^ 8 % 2 ^ 8 + 2 ^ 8 * (w.toNat / 2 ^ 16 % 2 ^ 8 +
    2 ^ 8 * (w.toNat / 2 ^ 24 % 2 ^ 8 + 2 ^ 8 * 0))) = _
  omega

theorem leValue_append (front back : Bytes) :
    leValue (front ++ back) = leValue front + (2 ^ 8) ^ front.length * leValue back := by
  rw [leValue, List.map_append, Nat.ofDigits_append, List.length_map]
  rfl

theorem leValue_lt : leValue b < (2 ^ 8) ^ b.length := by
  have hLt := Nat.ofDigits_lt_base_pow_length (by norm_num : 1 < 2 ^ 8) (toNat_lt_of_mem b)
  rwa [List.length_map] at hLt

theorem beValue_lt : beValue b < (2 ^ 8) ^ b.length := by
  rw [beValue_eq_leValue, ← List.length_reverse]
  exact leValue_lt _

theorem leValue_zeros : leValue (List.replicate count 0) = 0 := by
  induction count with
  | zero => rfl
  | succ count ih => simp [List.replicate_succ, ih]

/-- Octet strings of one length with one value are the same. -/
theorem leValue_inj {a b : Bytes} (hLength : a.length = b.length) (hValue : leValue a = leValue b) : a = b := by
  apply List.map_injective_iff.mpr fun _ _ => UInt8.toNat_inj.mp
  exact Nat.ofDigits_inj_of_len_eq (by norm_num) (by simpa using hLength) (toNat_lt_of_mem a) (toNat_lt_of_mem b) hValue

theorem beValue_inj {a b : Bytes} (hLength : a.length = b.length) (hValue : beValue a = beValue b) : a = b := by
  rw [beValue_eq_leValue, beValue_eq_leValue] at hValue
  exact List.reverse_injective (leValue_inj (by simpa using hLength) hValue)

/-- Four octets from position `pos` on are the 32 bits from bit `8 * pos` on. -/
theorem leValue_slice (pos count : Nat) :
    leValue (slice b pos count) = leValue b / 2 ^ (8 * pos) % 2 ^ (8 * count) := by
  rw [leValue, leValue, slice, List.map_take, pow_mul, pow_mul,
    ← Nat.ofDigits_mod_pow_eq_ofDigits_take count (by norm_num) _ (toNat_lt_of_mem _), List.map_drop,
    Nat.ofDigits_div_pow_eq_ofDigits_drop pos (by norm_num) _ (toNat_lt_of_mem b)]

def leBytes (count n : Nat) : Bytes := (List.range count).map fun i => UInt8.ofNat (n / 2 ^ (8 * i))

theorem length_leBytes (n : Nat) : (leBytes count n).length = count := by simp [leBytes]

theorem leValue_leBytes (n : Nat) : leValue (leBytes count n) = n % 2 ^ (8 * count) := by
  induction count with
  | zero => simp [leBytes, Nat.mod_one]
  | succ count ih =>
    have hLast : leBytes (count + 1) n = leBytes count n ++ [UInt8.ofNat (n / 2 ^ (8 * count))] := by
      simp [leBytes, List.range_succ]
    rw [hLast, leValue_append, ih, length_leBytes, leValue_cons, leValue_nil, UInt8.toNat_ofNat',
      Nat.mul_zero, Nat.add_zero, pow_mul, pow_mul, @Nat.mod_pow_succ n (2 ^ 8) count]

end Octets

end Radix

/-! Numbers written with the digits `0`-`9` and `a`-`f`, most significant first. -/
namespace Numerals

open Octets Radix

def digitByte (d : Nat) : UInt8 := if d < 10 then UInt8.ofNat (48 + d) else UInt8.ofNat (87 + d)

def render (base n : Nat) : Bytes :=
  if n = 0 then [48] else (Nat.digits base n).reverse.map digitByte

theorem render_ne_nil (base n : Nat) : render base n ≠ [] := by
  unfold render
  split_ifs with h
  · simp
  · simpa using Nat.digits_ne_nil_iff_ne_zero.mpr h

/-- Every byte of a rendered number is the byte of a digit. -/
theorem render_digit {base n : Nat} (hBase : 1 < base) {c : UInt8} (hc : c ∈ render base n) :
    ∃ d < base, c = digitByte d := by
  unfold render at hc
  split_ifs at hc with h
  · rw [List.mem_singleton.mp hc]
    exact ⟨0, by omega, rfl⟩
  · obtain ⟨d, hd, rfl⟩ := List.mem_map.mp hc
    exact ⟨d, Nat.digits_lt_base hBase (List.mem_reverse.mp hd), rfl⟩

/-- Reading the digits back from the left gives the number. -/
theorem foldl_render {base : Nat} (hBase : 1 < base) (digit : UInt8 → Nat)
    (hDigit : ∀ d < base, digit (digitByte d) = d) (n : Nat) :
    (render base n).foldl (fun value c => value * base + digit c) 0 = n := by
  unfold render
  split_ifs with h
  · have hZero := hDigit 0 (by omega)
    rw [h]
    simpa [digitByte] using hZero
  · rw [List.foldl_map]
    calc (Nat.digits base n).reverse.foldl (fun value d => value * base + digit (digitByte d)) 0
        = horner base 0 (Nat.digits base n).reverse := by
          apply List.foldl_ext
          intro value d hd
          rw [hDigit d (Nat.digits_lt_base hBase (List.mem_reverse.mp hd))]
      _ = n := by rw [horner_reverse, Nat.ofDigits_digits]

end Numerals
