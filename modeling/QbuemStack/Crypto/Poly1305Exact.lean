import Mathlib.Data.List.GetD
import QbuemStack.Crypto.Poly1305

/-! Poly1305 computes the tag of RFC 8439 for every key and every way of cutting the message, and
none of its 64-bit operations overflows. -/
namespace Crypto

open Octets Radix WordOps
open List (append_assoc append_nil length_append length_take)

section Exact

variable {α β : Type} {safe : Option α} {post : α → Prop} {plain : Id α} {a b : UInt64}

/-- The checked computation ends in the result of the wrapping one. -/
def Exact (safe : Option α) (plain : Id α) (post : α → Prop) : Prop :=
  safe = some plain ∧ post plain

theorem Exact.pure {x : α} (h : post x) : Exact (Pure.pure x) (Pure.pure x) post :=
  ⟨rfl, h⟩

theorem Exact.bind {mid : α → Prop} {f : α → Option β} {g : α → Id β} {post : β → Prop} (h : Exact safe plain mid)
    (hNext : ∀ x, mid x → Exact (f x) (g x) post) : Exact (safe >>= f) (plain >>= g) post := by
  obtain ⟨hSafe, hMid⟩ := h
  rw [hSafe]
  exact hNext plain hMid

theorem Exact.imp {post' : α → Prop}
    (h : Exact safe plain post) (hPost : ∀ x, post x → post' x) : Exact safe plain post' :=
  ⟨h.1, hPost _ h.2⟩

theorem Exact.add (h : a.toNat + b.toNat < 2 ^ 64) :
    Exact (checked.add a b) (wrapping.add a b) (fun c => c.toNat = a.toNat + b.toNat) :=
  ⟨if_pos h, (UInt64.toNat_add a b).trans (Nat.mod_eq_of_lt h)⟩

theorem Exact.mul (h : a.toNat * b.toNat < 2 ^ 64) :
    Exact (checked.mul a b) (wrapping.mul a b) (fun c => c.toNat = a.toNat * b.toNat) :=
  ⟨if_pos h, (UInt64.toNat_mul a b).trans (Nat.mod_eq_of_lt h)⟩

theorem Exact.mul_five (h : a.toNat * 5 < 2 ^ 64) :
    Exact (checked.mul a 5) (wrapping.mul a 5) (fun c => c.toNat = a.toNat * 5) :=
  Exact.mul h

theorem Exact.shl (n : Nat) {k : UInt64} (hk : k.toNat = n) (hn : n < 64) (h : a.toNat * 2 ^ n < 2 ^ 64) :
    Exact (checked.shl a k) (wrapping.shl a k) (fun c => c.toNat = a.toNat * 2 ^ n) := by
  subst hk
  refine ⟨if_pos ⟨hn, h⟩, ?_⟩
  change (a <<< k).toNat = _
  rw [UInt64.toNat_shiftLeft, Nat.mod_eq_of_lt hn, Nat.shiftLeft_eq, Nat.mod_eq_of_lt h]

end Exact

namespace Poly

theorem toNat_mask26 (a : UInt64) : (a &&& mask26).toNat = a.toNat % 2 ^ 26 := by
  rw [UInt64.toNat_and]
  exact Nat.and_two_pow_sub_one_eq_mod _ 26

theorem toNat_shr (a k : UInt64) (hk : k.toNat < 64) : (a >>> k).toNat = a.toNat / 2 ^ k.toNat := by
  rw [UInt64.toNat_shiftRight, Nat.mod_eq_of_lt hk, Nat.shiftRight_eq_div_pow]

theorem toNat_shr26 (a : UInt64) : (a >>> 26).toNat = a.toNat / 2 ^ 26 := toNat_shr a 26 (by simp)

theorem Exact.carry {a b : UInt64} (h : a.toNat + b.toNat < 2 ^ 64) :
    Exact (checked.add a b) (wrapping.add a b) (fun c => c.toNat = a.toNat + b.toNat ∧
      (c >>> 26).toNat = c.toNat / 2 ^ 26 ∧ (c &&& mask26).toNat = c.toNat % 2 ^ 26) :=
  (Exact.add h).imp fun c hc => ⟨hc, toNat_shr26 c, toNat_mask26 c⟩

namespace Limbs

def value (a : Limbs) : Nat :=
  a.l0.toNat + a.l1.toNat * 2 ^ 26 + a.l2.toNat * 2 ^ 52 + a.l3.toNat * 2 ^ 78 + a.l4.toNat * 2 ^ 104

structure Below (a : Limbs) (bound : Nat) : Prop where
  l0 : a.l0.toNat < bound
  l1 : a.l1.toNat < bound
  l2 : a.l2.toNat < bound
  l3 : a.l3.toNat < bound
  l4 : a.l4.toNat < bound

/-- The limbs between two blocks: carried, except that limb 1 may stick out a little. -/
structure Carried (a : Limbs) : Prop where
  l0 : a.l0.toNat < 2 ^ 26
  l1 : a.l1.toNat < 2 ^ 26 + 2 ^ 13
  l2 : a.l2.toNat < 2 ^ 26
  l3 : a.l3.toNat < 2 ^ 26
  l4 : a.l4.toNat < 2 ^ 26

end Limbs

variable (st : State) (p r16 : Bytes) (r pos acc : Nat) {state : State}

def prime : Nat := 2 ^ 130 - 5

theorem prime_add_five : prime + 5 = 2 ^ 130 := by norm_num [prime]

theorem toNat_loadLe32 (h : pos + 4 ≤ p.length) : (loadLe32 p pos).toNat = leValue p / 2 ^ (8 * pos) % 2 ^ 32 := by
  have hFour : slice p pos 4 =
      [p.getD pos 0, p.getD (pos + 1) 0, p.getD (pos + 2) 0, p.getD (pos + 3) 0] := by
    apply List.ext_getElem
    · rw [slice_length p pos 4 h]
      rfl
    · intro i hi hi'
      have hBound : i < 4 := by simpa using hi'
      simp only [slice, List.getElem_take, List.getElem_drop]
      interval_cases i
      all_goals exact (List.getD_eq_getElem _ _ _).symm
  have hValue := leValue_slice p pos 4
  rw [hFour] at hValue
  exact (toNat_join _ _ _ _).trans hValue

/-- Limb `k` holds the bits from `26 * k` on. -/
theorem toNat_splitLimb (k : UInt32) (h : pos + 4 ≤ p.length) (hk : k.toNat < 7) :
    ((loadLe32 p pos >>> k).toUInt64 &&& mask26).toNat = leValue p / 2 ^ (8 * pos + k.toNat) % 2 ^ 26 := by
  have hShift : k.toNat % 32 = k.toNat := by omega
  rw [toNat_mask26, UInt32.toNat_toUInt64, UInt32.toNat_shiftRight, hShift, toNat_loadLe32 p pos h,
    Nat.shiftRight_eq_div_pow, pow_add, ← Nat.div_div_eq_div_mul]
  generalize leValue p / 2 ^ (8 * pos) = v
  obtain ⟨j, hj⟩ : ∃ j, j = k.toNat := ⟨_, rfl⟩
  rw [← hj] at hk ⊢
  interval_cases j <;> omega

theorem split_spec (h : p.length = 16) : (split p).Below (2 ^ 26) ∧ (split p).value = leValue p := by
  have hLimit : leValue p < 2 ^ 128 := (leValue_lt p).trans_eq (by rw [h]; norm_num)
  have h0 : (split p).l0.toNat = leValue p % 2 ^ 26 := by
    have hLoad := toNat_loadLe32 p 0 (by omega)
    change ((loadLe32 p 0).toUInt64 &&& mask26).toNat = _
    rw [toNat_mask26, UInt32.toNat_toUInt64, hLoad, Nat.mul_zero]
    omega
  have h1 : (split p).l1.toNat = leValue p / 2 ^ 26 % 2 ^ 26 := toNat_splitLimb p 3 2 (by omega) (by simp)
  have h2 : (split p).l2.toNat = leValue p / 2 ^ 52 % 2 ^ 26 := toNat_splitLimb p 6 4 (by omega) (by simp)
  have h3 : (split p).l3.toNat = leValue p / 2 ^ 78 % 2 ^ 26 := toNat_splitLimb p 9 6 (by omega) (by simp)
  have h4 : (split p).l4.toNat = leValue p / 2 ^ 104 % 2 ^ 26 := by
    have hLoad := toNat_loadLe32 p 12 (by omega)
    change ((loadLe32 p 12 >>> 8).toUInt64 &&& mask26).toNat = _
    rw [toNat_mask26, UInt32.toNat_toUInt64, UInt32.toNat_shiftRight, hLoad, Nat.shiftRight_eq_div_pow]
    change leValue p / 2 ^ 96 % 2 ^ 32 / 2 ^ 8 % 2 ^ 26 = _
    omega
  refine ⟨⟨?_, ?_, ?_, ?_, ?_⟩, ?_⟩
  · omega
  · omega
  · omega
  · omega
  · omega
  · rw [Limbs.value]
    omega

def blockValue (block : Bytes) : Nat := leValue (block ++ [0x01])

theorem absorb_exact (h : Limbs) (block : Bytes) (hh : h.Carried) (hLength : block.length ≤ 16) :
    Exact (absorb checked h block) (absorb wrapping h block)
      (fun a => a.Below (2 ^ 28) ∧ a.value = h.value + blockValue block) := by
  obtain ⟨b0, b1, b2, b3, b4⟩ := hh
  obtain ⟨buf, bit, hBuf, hBit, hSize, hSmall, hValue⟩ : ∃ (buf : Bytes) (bit : UInt64),
      buf = (if block.length < 16 then block ++ [0x01] ++ List.replicate (15 - block.length) 0 else block) ∧
      bit = (if block.length = 16 then (1 : UInt64) <<< 24 else 0) ∧ buf.length = 16 ∧
      bit.toNat ≤ 2 ^ 24 ∧ leValue buf + bit.toNat * 2 ^ 104 = blockValue block := by
    refine ⟨_, _, rfl, rfl, ?_⟩
    by_cases hFull : block.length = 16
    · rw [if_neg (by omega), if_pos hFull, blockValue, leValue_append, hFull]
      have hOne : ((1 : UInt64) <<< 24).toNat = 2 ^ 24 := by simp
      rw [hOne]
      refine ⟨rfl, le_rfl, ?_⟩
      simp only [leValue_cons, leValue_nil, UInt8.toNat_one]
      norm_num
    · rw [if_pos (by omega), if_neg hFull, leValue_append, leValue_zeros]
      refine ⟨?_, by simp, ?_⟩
      · simp only [length_append, List.length_singleton, List.length_replicate]
        omega
      · simp [blockValue]
  obtain ⟨hBelow, hSplit⟩ := split_spec buf hSize
  obtain ⟨p0, p1, p2, p3, p4⟩ := hBelow
  rw [absorb, absorb]
  simp only [← hBuf, ← hBit]
  refine (Exact.add (by omega)).bind fun m4 hm4 => ?_
  refine (Exact.add (by omega)).bind fun h0 hh0 => ?_
  refine (Exact.add (by omega)).bind fun h1 hh1 => ?_
  refine (Exact.add (by omega)).bind fun h2 hh2 => ?_
  refine (Exact.add (by omega)).bind fun h3 hh3 => ?_
  refine (Exact.add (by omega)).bind fun h4 hh4 => ?_
  refine Exact.pure ⟨?_, ?_⟩
  · constructor <;> dsimp only <;> omega
  · rw [← hValue, ← hSplit]
    simp only [Limbs.value]
    omega

theorem dot_exact (h a : Limbs) (hh : h.Below (2 ^ 28)) (ha : a.Below (2 ^ 29)) :
    Exact (dot checked h a) (dot wrapping h a)
      (fun d => d.toNat = h.l0.toNat * a.l0.toNat + h.l1.toNat * a.l1.toNat +
        h.l2.toNat * a.l2.toNat + h.l3.toNat * a.l3.toNat + h.l4.toNat * a.l4.toNat ∧ d.toNat < 2 ^ 60) := by
  have hProduct : ∀ {x y : UInt64}, x.toNat < 2 ^ 28 → y.toNat < 2 ^ 29 →
      x.toNat * y.toNat < 2 ^ 57 := by
    intro x y hx hy
    exact (Nat.mul_lt_mul'' hx hy).trans_eq (by norm_num)
  have q0 := hProduct hh.l0 ha.l0
  have q1 := hProduct hh.l1 ha.l1
  have q2 := hProduct hh.l2 ha.l2
  have q3 := hProduct hh.l3 ha.l3
  have q4 := hProduct hh.l4 ha.l4
  rw [dot, dot]
  refine (Exact.mul (by omega)).bind fun p0 h0 => ?_
  refine (Exact.mul (by omega)).bind fun p1 h1 => ?_
  refine (Exact.mul (by omega)).bind fun p2 h2 => ?_
  refine (Exact.mul (by omega)).bind fun p3 h3 => ?_
  refine (Exact.mul (by omega)).bind fun p4 h4 => ?_
  refine (Exact.add (by omega)).bind fun s1 hs1 => ?_
  refine (Exact.add (by omega)).bind fun s2 hs2 => ?_
  refine (Exact.add (by omega)).bind fun s3 hs3 => ?_
  exact (Exact.add (by omega)).imp fun d hd => ⟨by omega, by omega⟩

/-- Schoolbook product with `X ^ 5 = 5` folded in, for any radix `X`. -/
theorem product_fold (X p : Nat) (hX : X ^ 5 = p + 5) (h0 h1 h2 h3 h4 r0 r1 r2 r3 r4 : Nat) :
    (h0 + h1 * X + h2 * X ^ 2 + h3 * X ^ 3 + h4 * X ^ 4) * (r0 + r1 * X + r2 * X ^ 2 + r3 * X ^ 3 + r4 * X ^ 4) =
      (h0 * r0 + h1 * (r4 * 5) + h2 * (r3 * 5) + h3 * (r2 * 5) + h4 * (r1 * 5)) +
      (h0 * r1 + h1 * r0 + h2 * (r4 * 5) + h3 * (r3 * 5) + h4 * (r2 * 5)) * X +
      (h0 * r2 + h1 * r1 + h2 * r0 + h3 * (r4 * 5) + h4 * (r3 * 5)) * X ^ 2 +
      (h0 * r3 + h1 * r2 + h2 * r1 + h3 * r0 + h4 * (r4 * 5)) * X ^ 3 +
      (h0 * r4 + h1 * r3 + h2 * r2 + h3 * r1 + h4 * r0) * X ^ 4 +
      p * ((h1 * r4 + h2 * r3 + h3 * r2 + h4 * r1) + (h2 * r4 + h3 * r3 + h4 * r2) * X +
        (h3 * r4 + h4 * r3) * X ^ 2 + h4 * r4 * X ^ 3) := by
  have hHigh : ∀ q : Nat, X ^ 5 * q = p * q + 5 * q := fun q => by rw [hX]; ring
  calc _ = h0 * r0 + (h0 * r1 + h1 * r0) * X + (h0 * r2 + h1 * r1 + h2 * r0) * X ^ 2 +
        (h0 * r3 + h1 * r2 + h2 * r1 + h3 * r0) * X ^ 3 +
        (h0 * r4 + h1 * r3 + h2 * r2 + h3 * r1 + h4 * r0) * X ^ 4 +
        X ^ 5 * ((h1 * r4 + h2 * r3 + h3 * r2 + h4 * r1) + (h2 * r4 + h3 * r3 + h4 * r2) * X +
          (h3 * r4 + h4 * r3) * X ^ 2 + h4 * r4 * X ^ 3) := by ring
    _ = _ := by rw [hHigh]; ring

theorem modEq_of_add_mul {x y k : Nat} (h : x = y + prime * k) : y ≡ x [MOD prime] := by
  rw [h]
  exact (Nat.add_mul_mod_self_left y prime k).symm

theorem multiply_exact (h r : Limbs) (hh : h.Below (2 ^ 28)) (hr : r.Below (2 ^ 26)) :
    Exact (multiply checked h r) (multiply wrapping h r)
      (fun d => d.Below (2 ^ 60) ∧ d.value ≡ h.value * r.value [MOD prime]) := by
  obtain ⟨b0, b1, b2, b3, b4⟩ := hr
  rw [multiply, multiply]
  refine (Exact.mul_five (by omega)).bind fun r1 h1 => ?_
  refine (Exact.mul_five (by omega)).bind fun r2 h2 => ?_
  refine (Exact.mul_five (by omega)).bind fun r3 h3 => ?_
  refine (Exact.mul_five (by omega)).bind fun r4 h4 => ?_
  have hRow : ∀ {a0 a1 a2 a3 a4 : UInt64}, a0.toNat < 2 ^ 29 → a1.toNat < 2 ^ 29 →
      a2.toNat < 2 ^ 29 → a3.toNat < 2 ^ 29 → a4.toNat < 2 ^ 29 →
      Exact (dot checked h ⟨a0, a1, a2, a3, a4⟩) (dot wrapping h ⟨a0, a1, a2, a3, a4⟩) _ :=
    fun q0 q1 q2 q3 q4 => dot_exact h _ hh ⟨q0, q1, q2, q3, q4⟩
  refine (hRow (by omega) (by omega) (by omega) (by omega) (by omega)).bind fun d0 e0 => ?_
  refine (hRow (by omega) (by omega) (by omega) (by omega) (by omega)).bind fun d1 e1 => ?_
  refine (hRow (by omega) (by omega) (by omega) (by omega) (by omega)).bind fun d2 e2 => ?_
  refine (hRow (by omega) (by omega) (by omega) (by omega) (by omega)).bind fun d3 e3 => ?_
  refine (hRow (by omega) (by omega) (by omega) (by omega) (by omega)).bind fun d4 e4 => ?_
  refine Exact.pure ⟨⟨e0.2, e1.2, e2.2, e3.2, e4.2⟩, ?_⟩
  have hFold := product_fold (2 ^ 26) prime (by rw [prime_add_five]; norm_num) h.l0.toNat h.l1.toNat
    h.l2.toNat h.l3.toNat h.l4.toNat r.l0.toNat r.l1.toNat r.l2.toNat r.l3.toNat r.l4.toNat
  simp only [h1, h2, h3, h4] at e0 e1 e2 e3 e4
  rw [← e0.1, ← e1.1, ← e2.1, ← e3.1, ← e4.1] at hFold
  have hSum : h.value * r.value = Limbs.value ⟨d0, d1, d2, d3, d4⟩ + prime * _ := hFold
  exact modEq_of_add_mul hSum

theorem modEq_of_carry {x y k : Nat} (h : y + 2 ^ 130 * k = x + 5 * k) : y ≡ x [MOD prime] := by
  rw [← prime_add_five, Nat.add_mul] at h
  exact @modEq_of_add_mul _ _ k (by omega)

theorem propagate_exact (d : Limbs) (hd : d.Below (2 ^ 60)) : Exact (propagate checked d) (propagate wrapping d)
      (fun h => h.Carried ∧ h.value ≡ d.value [MOD prime]) := by
  obtain ⟨b0, b1, b2, b3, b4⟩ := hd
  have q0 := toNat_shr26 d.l0
  have m0 := toNat_mask26 d.l0
  rw [propagate, propagate]
  refine (Exact.carry (by omega)).bind fun d1 h1 => ?_
  refine (Exact.carry (by omega)).bind fun d2 h2 => ?_
  refine (Exact.carry (by omega)).bind fun d3 h3 => ?_
  refine (Exact.carry (by omega)).bind fun d4 h4 => ?_
  refine (Exact.mul_five (by omega)).bind fun c5 h5 => ?_
  refine (Exact.carry (by omega)).bind fun d0 h0 => ?_
  refine (Exact.add (by omega)).bind fun e1 h6 => ?_
  refine Exact.pure ⟨?_, ?_⟩
  · constructor <;> dsimp only <;> omega
  · refine @modEq_of_carry _ _ (d4 >>> 26).toNat ?_
    simp only [Limbs.value]
    omega

structure State.Ready (st : State) : Prop where
  carried : st.h.Carried
  key : st.r.Below (2 ^ 26)

theorem processBlock_exact (block : Bytes) (hst : st.Ready) (hLength : block.length ≤ 16) :
    Exact (processBlock checked st block) (processBlock wrapping st block)
      (fun next => next.Ready ∧ next.r = st.r ∧ next.s = st.s ∧
        next.h.value ≡ (st.h.value + blockValue block) * st.r.value [MOD prime]) := by
  rw [processBlock, processBlock]
  refine (absorb_exact st.h block hst.carried hLength).bind fun a ha => ?_
  refine (multiply_exact a st.r ha.1 hst.key).bind fun d hd => ?_
  refine (propagate_exact d hd.1).bind fun h hh => ?_
  refine Exact.pure ⟨⟨hh.1, hst.key⟩, rfl, rfl, ?_⟩
  rw [← ha.2]
  exact hh.2.trans hd.2

/-- The carries of `finalize` leave every limb below `2 ^ 26`: when limb 0 carries into limb 1
again, limb 1 has just given its own carry away. -/
theorem settle_exact (h : Limbs) (hh : h.Carried) : Exact (settle checked h) (settle wrapping h)
      (fun a => a.Below (2 ^ 26) ∧ a.value ≡ h.value [MOD prime]) := by
  obtain ⟨b0, b1, b2, b3, b4⟩ := hh
  have q1 := toNat_shr26 h.l1
  have m1 := toNat_mask26 h.l1
  rw [settle, settle]
  refine (Exact.carry (by omega)).bind fun h2 e2 => ?_
  refine (Exact.carry (by omega)).bind fun h3 e3 => ?_
  refine (Exact.carry (by omega)).bind fun h4 e4 => ?_
  refine (Exact.mul_five (by omega)).bind fun c e5 => ?_
  refine (Exact.carry (by omega)).bind fun h0 e0 => ?_
  refine (Exact.add (by omega)).bind fun h1 e1 => ?_
  refine Exact.pure ⟨?_, ?_⟩
  · constructor <;> dsimp only <;> omega
  · refine @modEq_of_carry _ _ (h4 >>> 26).toNat ?_
    simp only [Limbs.value]
    omega

/-- `minusP` has the limbs of `h - p`, and a borrow in the top bit when `h < p`. -/
theorem minusP_exact (h : Limbs) (hh : h.Below (2 ^ 26)) : Exact (minusP checked h) (minusP wrapping h)
      (fun g => (prime ≤ h.value → g.Below (2 ^ 26) ∧ g.value + prime = h.value ∧ g.l4 >>> 63 = 0) ∧
        (h.value < prime → g.l4 >>> 63 = 1)) := by
  obtain ⟨b0, b1, b2, b3, b4⟩ := hh
  have hFive : (5 : UInt64).toNat = 5 := rfl
  have hPrime := prime_add_five
  have hBase : ((1 : UInt64) <<< 26).toNat = 2 ^ 26 := by simp
  rw [minusP, minusP]
  refine (Exact.carry (by omega)).bind fun g0 e0 => ?_
  refine (Exact.carry (by omega)).bind fun g1 e1 => ?_
  refine (Exact.carry (by omega)).bind fun g2 e2 => ?_
  refine (Exact.carry (by omega)).bind fun g3 e3 => ?_
  refine (Exact.add (by omega)).bind fun g4 e4 => ?_
  have hTop : (g4 - ((1 : UInt64) <<< 26)).toNat = (2 ^ 64 - 2 ^ 26 + g4.toNat) % 2 ^ 64 := by
    rw [UInt64.toNat_sub, hBase]
  have hSign : ((g4 - ((1 : UInt64) <<< 26)) >>> 63).toNat =
      (g4 - ((1 : UInt64) <<< 26)).toNat / 2 ^ 63 := toNat_shr _ 63 (by simp)
  have hValue := h.value.zero_le
  rw [Limbs.value] at hValue ⊢
  refine Exact.pure ⟨fun hLarge => ⟨⟨?_, ?_, ?_, ?_, ?_⟩, ?_, ?_⟩, fun hSmall => ?_⟩
  · change (g0 &&& mask26).toNat < _; omega
  · change (g1 &&& mask26).toNat < _; omega
  · change (g2 &&& mask26).toNat < _; omega
  · change (g3 &&& mask26).toNat < _; omega
  · change (g4 - ((1 : UInt64) <<< 26)).toNat < _; omega
  · simp only [Limbs.value]
    omega
  · apply UInt64.toNat_inj.mp
    rw [UInt64.toNat_zero, hSign]
    omega
  · apply UInt64.toNat_inj.mp
    rw [UInt64.toNat_one, hSign]
    omega

theorem select_spec (h g : Limbs) (hh : h.Below (2 ^ 26))
    (hLarge : prime ≤ h.value → g.Below (2 ^ 26) ∧ g.value + prime = h.value ∧ g.l4 >>> 63 = 0)
    (hSmall : h.value < prime → g.l4 >>> 63 = 1) :
    (select h g).Below (2 ^ 26) ∧ (select h g).value = h.value % prime := by
  have hPrime := prime_add_five
  have hRange : h.value < 2 ^ 130 := by
    obtain ⟨b0, b1, b2, b3, b4⟩ := hh
    rw [Limbs.value]
    omega
  by_cases hCase : h.value < prime
  · have hPick : select h g = h := by
      simp only [select, hSmall hCase]
      simp
    rw [hPick, Nat.mod_eq_of_lt hCase]
    exact ⟨hh, rfl⟩
  · obtain ⟨hBelow, hValue, hSign⟩ := hLarge (by omega)
    have hPick : select h g = g := by
      simp only [select, hSign]
      simp
    rw [hPick]
    refine ⟨hBelow, ?_⟩
    rw [Nat.mod_eq_sub_mod (by omega), Nat.mod_eq_of_lt (by omega)]
    omega

def wordsValue (words : List UInt32) : Nat := leValue (words.flatMap storeLe32)

@[simp] theorem wordsValue_nil : wordsValue [] = 0 := rfl

@[simp] theorem wordsValue_cons (w : UInt32) (words : List UInt32) :
    wordsValue (w :: words) = w.toNat + 2 ^ 32 * wordsValue words := by
  have hBytes : leValue (storeLe32 w) = w.toNat := leValue_word w
  have hLength : (storeLe32 w).length = 4 := rfl
  rw [wordsValue, wordsValue, List.flatMap_cons, leValue_append, hBytes, hLength, ← pow_mul]

theorem length_flatMap_storeLe32 (words : List UInt32) : (words.flatMap storeLe32).length = 4 * words.length := by
  induction words with
  | nil => rfl
  | cons w words ih =>
    rw [List.flatMap_cons, length_append, ih, List.length_cons, Nat.mul_succ, Nat.add_comm]
    rfl

theorem pack_exact (h : Limbs) (hh : h.Below (2 ^ 26)) : Exact (pack checked h) (pack wrapping h)
      (fun words => words.length = 4 ∧ wordsValue words = h.value % 2 ^ 128) := by
  obtain ⟨b0, b1, b2, b3, b4⟩ := hh
  rw [pack, pack]
  refine (Exact.shl 26 rfl (by omega) (by omega)).bind fun a0 e0 => ?_
  refine (Exact.shl 20 rfl (by omega) (by omega)).bind fun a1 e1 => ?_
  refine (Exact.shl 14 rfl (by omega) (by omega)).bind fun a2 e2 => ?_
  refine (Exact.shl 8 rfl (by omega) (by omega)).bind fun a3 e3 => ?_
  have q1 : (h.l1 >>> 6).toNat = h.l1.toNat / 2 ^ 6 := toNat_shr _ 6 (by simp)
  have q2 : (h.l2 >>> 12).toNat = h.l2.toNat / 2 ^ 12 := toNat_shr _ 12 (by simp)
  have q3 : (h.l3 >>> 18).toNat = h.l3.toNat / 2 ^ 18 := toNat_shr _ 18 (by simp)
  have hWord : ∀ (low high : UInt64) (width : Nat), low.toNat < 2 ^ width → 2 ^ width ∣ high.toNat →
      ((low ||| high).toUInt32).toNat = (high.toNat + low.toNat) % 2 ^ 32 := by
    intro low high width hLow hHigh
    rw [UInt64.toNat_toUInt32, UInt64.toNat_or, Nat.or_comm, or_eq_add hHigh hLow]
  refine Exact.pure ⟨rfl, ?_⟩
  rw [wordsValue_cons, wordsValue_cons, wordsValue_cons, wordsValue_cons, wordsValue_nil,
    hWord h.l0 a0 26 b0 (by omega), hWord (h.l1 >>> 6) a1 20 (by omega) (by omega),
    hWord (h.l2 >>> 12) a2 14 (by omega) (by omega), hWord (h.l3 >>> 18) a3 8 (by omega) (by omega),
    Limbs.value]
  omega

theorem addKey_exact (words key : List UInt32) (f : UInt64) (hLength : words.length = key.length) :
    Exact (addKey checked words key f) (addKey wrapping words key f)
      (fun tag => tag.length = words.length ∧ wordsValue tag =
        (wordsValue words + wordsValue key + f.toNat / 2 ^ 32) % (2 ^ 32) ^ words.length) := by
  induction words generalizing key f with
  | nil => exact Exact.pure ⟨rfl, by simp [Nat.mod_one]⟩
  | cons w words ih =>
    cases key with
    | nil => cases hLength
    | cons s key =>
      have hf := f.toNat_lt
      have hw := w.toNat_lt
      have hs := s.toNat_lt
      have hCarry : (f >>> 32).toNat = f.toNat / 2 ^ 32 := toNat_shr f 32 (by simp)
      rw [addKey, addKey]
      refine (Exact.add (by rw [UInt32.toNat_toUInt64, UInt32.toNat_toUInt64]; omega)).bind
        fun sum hSum => ?_
      rw [UInt32.toNat_toUInt64, UInt32.toNat_toUInt64] at hSum
      refine (Exact.add (by omega)).bind fun next hNext => ?_
      refine (ih key next (by simpa using hLength)).bind fun tag hTag => ?_
      refine Exact.pure ⟨by simpa using hTag.1, ?_⟩
      rw [wordsValue_cons, wordsValue_cons, wordsValue_cons, hTag.2, UInt64.toNat_toUInt32,
        List.length_cons, pow_succ' (2 ^ 32) words.length, Nat.mod_mul]
      have hLow : (w.toNat + 2 ^ 32 * wordsValue words + (s.toNat + 2 ^ 32 * wordsValue key) +
          f.toNat / 2 ^ 32) % 2 ^ 32 = next.toNat % 2 ^ 32 := by omega
      have hHigh : (w.toNat + 2 ^ 32 * wordsValue words + (s.toNat + 2 ^ 32 * wordsValue key) +
          f.toNat / 2 ^ 32) / 2 ^ 32 = wordsValue words + wordsValue key + next.toNat / 2 ^ 32 := by
        omega
      rw [hLow, hHigh]

/-- The tag is the accumulator modulo the prime plus the key, modulo `2 ^ 128`. -/
theorem finalize_exact (hst : st.Ready) (hKey : st.s.length = 4) : Exact (finalize checked st) (finalize wrapping st)
      (fun tag => tag = leBytes 16 ((st.h.value % prime + wordsValue st.s) % 2 ^ 128)) := by
  rw [finalize, finalize]
  refine (settle_exact st.h hst.carried).bind fun h hh => ?_
  refine (minusP_exact h hh.1).bind fun g hg => ?_
  obtain ⟨hBelow, hValue⟩ := select_spec h g hh.1 hg.1 hg.2
  refine (pack_exact _ hBelow).bind fun words hWords => ?_
  refine (addKey_exact words st.s 0 (hWords.1.trans hKey.symm)).bind fun tag hTag => ?_
  refine Exact.pure (leValue_inj ?_ ?_)
  · rw [length_flatMap_storeLe32, length_leBytes, hTag.1, hWords.1]
  · change wordsValue tag = _
    rw [leValue_leBytes, hTag.2, hWords.1, hWords.2, hValue, show h.value % prime = st.h.value % prime from hh.2,
      UInt64.toNat_zero]
    omega

def clamp (r : Nat) : Nat := r &&& 0x0ffffffc0ffffffc0ffffffc0fffffff

def clampMask : Bytes := [255, 255, 255, 15, 252, 255, 255, 15, 252, 255, 255, 15, 252, 255, 255, 15]

theorem leValue_zipWith_and (a b : Bytes) (hLength : a.length = b.length) :
    leValue (List.zipWith (· &&& ·) a b) = leValue a &&& leValue b := by
  induction a generalizing b with
  | nil => simp [List.length_eq_zero_iff.mp hLength.symm]
  | cons x a ih =>
    cases b with
    | nil => cases hLength
    | cons y b =>
      have hx := x.toNat_lt
      have hy := y.toNat_lt
      have hAnd : x.toNat &&& y.toNat < 2 ^ 8 := Nat.and_lt_two_pow _ hy
      rw [List.zipWith_cons_cons, leValue_cons, leValue_cons, leValue_cons, ih b (by simpa using hLength),
        UInt8.toNat_and, Nat.add_comm, Nat.add_comm x.toNat, Nat.add_comm y.toNat]
      apply Nat.eq_of_testBit_eq
      intro i
      rw [Nat.testBit_and, Nat.testBit_two_pow_mul_add _ hAnd, Nat.testBit_two_pow_mul_add _ hx,
        Nat.testBit_two_pow_mul_add _ hy]
      split_ifs
      all_goals exact Nat.testBit_and _ _ _

theorem clampR_eq (h : r16.length = 16) : clampR r16 = List.zipWith (· &&& ·) r16 clampMask := by
  have hFull : ∀ b : UInt8, b &&& 255 = b := by
    intro b
    apply UInt8.toNat_inj.mp
    rw [UInt8.toNat_and]
    exact (Nat.and_two_pow_sub_one_eq_mod _ 8).trans (Nat.mod_eq_of_lt b.toNat_lt)
  apply List.ext_getElem
  · simp [clampR, clampMask, h]
  · intro i hi hi'
    have hIndex : i < 16 := by simpa [clampR, h] using hi
    simp only [clampR, List.getElem_set, List.getElem_zipWith, List.getD_eq_getElem?_getD, clampMask]
    interval_cases i <;> simp [hFull, h]

theorem leValue_clampR (h : r16.length = 16) : leValue (clampR r16) = clamp (leValue r16) := by
  rw [clampR_eq r16 h, leValue_zipWith_and r16 clampMask (h.trans rfl)]
  rfl

def blocks (msg : Bytes) : List Bytes :=
  (List.range ((msg.length + 15) / 16)).map fun i => slice msg (16 * i) 16

def evaluate (r acc : Nat) (parts : List Bytes) : Nat :=
  parts.foldl (fun acc block => (acc + blockValue block) * r % prime) acc

def tagOf (key msg : Bytes) : Bytes :=
  let r := clamp (leValue (key.take 16))
  let s := leValue (key.drop 16)
  leBytes 16 ((evaluate r 0 (blocks msg) % prime + s) % 2 ^ 128)

theorem blocks_cons (block rest : Bytes) (h : block.length = 16) : blocks (block ++ rest) = block :: blocks rest := by
  have hCount : ((block ++ rest).length + 15) / 16 = (rest.length + 15) / 16 + 1 := by
    rw [length_append, h]
    omega
  rw [blocks, hCount, List.range_succ_eq_map, List.map_cons, List.map_map, blocks]
  congr 1
  · rw [slice, Nat.mul_zero, List.drop_zero, ← h, List.take_left]
  · apply List.map_congr_left
    intro i _
    simp only [Function.comp_apply, slice]
    rw [Nat.mul_succ, Nat.add_comm, ← List.drop_drop, ← h, List.drop_left, h]

theorem blocks_full (full : List Bytes) (buf : Bytes) (hFull : ∀ block ∈ full, block.length = 16) :
    blocks (full.flatten ++ buf) = full ++ blocks buf := by
  induction full with
  | nil => rfl
  | cons block full ih =>
    rw [List.flatten_cons, append_assoc, blocks_cons _ _ (hFull block List.mem_cons_self),
      ih fun b hb => hFull b (List.mem_cons_of_mem _ hb)]
    rfl

theorem blocks_short (buf : Bytes) (hShort : buf.length < 16) : blocks buf = if 0 < buf.length then [buf] else [] := by
  split_ifs with hPos
  · rw [blocks, show (buf.length + 15) / 16 = 1 by omega]
    change [slice buf 0 16] = [buf]
    rw [slice, List.drop_zero, List.take_of_length_le (by omega)]
  · rw [blocks, show (buf.length + 15) / 16 = 0 by omega]
    rfl

theorem evaluate_append (front back : List Bytes) :
    evaluate r acc (front ++ back) = evaluate r (evaluate r acc front) back := List.foldl_append

theorem evaluate_singleton (block : Bytes) : evaluate r acc [block] = (acc + blockValue block) * r % prime := rfl

structure Follows (key msg : Bytes) (state : State) (buf : Bytes) : Prop where
  ready : state.Ready
  keyValue : state.r.value = clamp (leValue (key.take 16))
  addition : state.s = (initState key).s
  progress : ∃ full : List Bytes, (∀ block ∈ full, block.length = 16) ∧ msg = full.flatten ++ buf ∧
    state.h.value ≡ evaluate (clamp (leValue (key.take 16))) 0 full [MOD prime]

theorem follows_init (key : Bytes) (hKey : key.length = 32) : Follows key [] (initState key) [] := by
  have hTake : (key.take 16).length = 16 := by
    rw [length_take]
    omega
  have hClamp : (clampR (key.take 16)).length = 16 := by
    rw [clampR_eq _ hTake, List.length_zipWith, hTake]
    rfl
  obtain ⟨hBelow, hValue⟩ := split_spec _ hClamp
  refine ⟨⟨⟨by simp [initState], by simp [initState], by simp [initState], by simp [initState],
    by simp [initState]⟩, hBelow⟩, ?_, rfl, [], by simp, rfl, ?_⟩
  · exact hValue.trans (leValue_clampR _ hTake)
  · have hZero : (initState key).h.value = 0 := by simp [initState, Limbs.value]
    rw [hZero]
    exact Nat.ModEq.refl 0

theorem Follows.block {key msg block rest : Bytes}
    (h : Follows key msg state (block ++ rest)) (hFull : block.length = 16) :
    Exact (processBlock checked state block) (processBlock wrapping state block)
      (fun next => Follows key msg next rest) := by
  refine (processBlock_exact state block h.ready (by omega)).imp fun next hNext => ?_
  obtain ⟨hReady, hr, hs, hValue⟩ := hNext
  obtain ⟨full, hAll, hMsg, hAcc⟩ := h.progress
  refine ⟨hReady, by rw [hr, h.keyValue], by rw [hs, h.addition], full ++ [block], ?_, ?_, ?_⟩
  · intro b hb
    rcases List.mem_append.mp hb with hOld | hNew
    · exact hAll b hOld
    · rw [List.mem_singleton.mp hNew, hFull]
  · simp [hMsg]
  · rw [← h.keyValue] at hAcc ⊢
    rw [evaluate_append, evaluate_singleton]
    exact hValue.trans (((hAcc.add_right _).mul_right _).trans (Nat.mod_modEq _ _).symm)

theorem Follows.extend {key msg buf : Bytes} (h : Follows key msg state buf)
    (data : Bytes) : Follows key (msg ++ data) state (buf ++ data) := by
  obtain ⟨hReady, hKey, hAdd, full, hAll, hMsg, hAcc⟩ := h
  exact ⟨hReady, hKey, hAdd, full, hAll, by rw [hMsg, append_assoc], hAcc⟩

end Poly

namespace Poly1305

open Crypto.Poly

theorem fullBlocks_exact (key msg : Bytes) (count : Nat) (state : Poly.State) (src : Bytes)
    (h : Follows key msg state src) (hCount : 16 * count ≤ src.length) :
    Exact (fullBlocks checked count state src) (fullBlocks wrapping count state src)
      (fun out => Follows key msg out.1 out.2 ∧ out.2.length = src.length - 16 * count) := by
  induction count generalizing state src with
  | zero => exact Exact.pure ⟨h, rfl⟩
  | succ count ih =>
    rw [fullBlocks, fullBlocks]
    rw [← List.take_append_drop 16 src] at h
    refine (h.block (by rw [length_take]; omega)).bind fun next hNext => ?_
    refine (ih next (src.drop 16) hNext (by rw [List.length_drop]; omega)).imp fun out hOut => ?_
    refine ⟨hOut.1, hOut.2.trans ?_⟩
    rw [List.length_drop]
    omega

section

variable (key msg data : Bytes) (mac : Poly1305) (h : Follows key msg mac.state mac.buf) (hShort : mac.buf.length < 16)
include key msg data mac h hShort

theorem fillPartial_exact : Exact (fillPartial checked mac data) (fillPartial wrapping mac data)
      (fun out => Follows key (msg ++ data) out.1.state (out.1.buf ++ out.2) ∧ out.1.buf.length < 16 ∧
        (out.1.buf = [] ∨ out.2 = [])) := by
  have hAll := h.extend data
  rw [fillPartial, fillPartial]
  by_cases hHeld : 0 < mac.buf.length
  swap
  · have hNone : mac.buf = [] := List.length_eq_zero_iff.mp (by omega)
    rw [if_neg hHeld, if_neg hHeld]
    exact Exact.pure ⟨hAll, hShort, .inl hNone⟩
  rw [if_pos hHeld, if_pos hHeld]
  dsimp only
  generalize hTake : (if data.length < 16 - mac.buf.length then data.length
    else 16 - mac.buf.length) = take
  have hCount : take = data.length ∨ take = 16 - mac.buf.length := by
    rw [← hTake]
    split_ifs
    · exact .inl rfl
    · exact .inr rfl
  rw [← List.take_append_drop take data, ← append_assoc mac.buf, List.take_append_drop] at hAll
  have hSize : (mac.buf ++ data.take take).length = mac.buf.length + min take data.length := by
    rw [length_append, length_take]
  by_cases hFull : (mac.buf ++ data.take take).length = 16
  · rw [if_pos hFull, if_pos hFull]
    exact (hAll.block hFull).bind fun next hNext => Exact.pure ⟨hNext, by simp, .inl rfl⟩
  · rw [if_neg hFull, if_neg hFull]
    have hLess : take ≤ 16 - mac.buf.length := by
      rw [← hTake]
      split_ifs <;> omega
    have hDrop : data.drop take = [] := List.drop_eq_nil_of_le (by omega)
    exact Exact.pure ⟨hAll, by rw [hSize] at hFull ⊢; omega, .inr hDrop⟩

theorem update_exact : Exact (update checked mac data) (update wrapping mac data)
      (fun next => Follows key (msg ++ data) next.state next.buf ∧ next.buf.length < 16) := by
  rw [update, update]
  by_cases hEmpty : data.length = 0
  · rw [if_pos hEmpty, if_pos hEmpty, List.length_eq_zero_iff.mp hEmpty, append_nil]
    exact Exact.pure ⟨h, hShort⟩
  rw [if_neg hEmpty, if_neg hEmpty]
  refine (fillPartial_exact key msg data mac h hShort).bind fun filled hFilled => ?_
  obtain ⟨hFollows, hOpen, hBuf | hSrc⟩ := hFilled
  · rw [hBuf, List.nil_append] at hFollows
    refine (fullBlocks_exact key _ _ _ _ hFollows (by omega)).bind fun rest hRest => ?_
    have hBuffer : (if 0 < rest.2.length then rest.2 else filled.1.buf) = rest.2 := by
      split_ifs with hLeft
      · rfl
      · rw [hBuf, List.length_eq_zero_iff.mp (Nat.eq_zero_of_not_pos hLeft)]
    rw [hBuffer]
    exact Exact.pure ⟨hRest.1, by change rest.2.length < 16; omega⟩
  · rw [hSrc, append_nil] at hFollows
    rw [hSrc]
    exact Exact.pure ⟨hFollows, hOpen⟩

end

/-- The context follows the octets handed over, however they are cut. -/
theorem updates_exact (key msg : Bytes) (pieces : List Bytes) (mac : Poly1305)
    (h : Follows key msg mac.state mac.buf) (hShort : mac.buf.length < 16) :
    Exact (pieces.foldlM (update checked) mac) (pieces.foldlM (update wrapping) mac)
      (fun next => Follows key (msg ++ pieces.flatten) next.state next.buf ∧ next.buf.length < 16) := by
  induction pieces generalizing msg mac with
  | nil =>
    rw [List.flatten_nil, append_nil]
    exact Exact.pure ⟨h, hShort⟩
  | cons piece pieces ih =>
    rw [List.foldlM_cons, List.foldlM_cons, List.flatten_cons, ← append_assoc]
    exact (update_exact key msg piece mac h hShort).bind fun next hNext =>
      ih (msg ++ piece) next hNext.1 hNext.2

theorem wordsValue_key (key : Bytes) (hKey : key.length = 32) :
    wordsValue (initState key).s = leValue (key.drop 16) := by
  have hLimit : leValue key < 2 ^ 256 := (leValue_lt key).trans_eq (by rw [hKey, ← pow_mul])
  have hDrop : leValue (key.drop 16) = leValue key / 2 ^ 128 := by
    have hAppend := leValue_append (key.take 16) (key.drop 16)
    have hTake : (key.take 16).length = 16 := by
      rw [length_take]
      omega
    have hSmall := leValue_lt (key.take 16)
    rw [List.take_append_drop, hTake, ← pow_mul] at hAppend
    rw [hTake, ← pow_mul] at hSmall
    omega
  simp only [initState, wordsValue_cons, wordsValue_nil]
  rw [toNat_loadLe32 key 16 (by omega), toNat_loadLe32 key 20 (by omega),
    toNat_loadLe32 key 24 (by omega), toNat_loadLe32 key 28 (by omega), hDrop]
  omega

theorem finalize_exact (key msg : Bytes) (hKey : key.length = 32) (mac : Poly1305)
    (h : Follows key msg mac.state mac.buf) (hShort : mac.buf.length < 16) :
    Exact (finalize checked mac) (finalize wrapping mac) (fun tag => tag = tagOf key msg) := by
  have hWords := wordsValue_key key hKey
  obtain ⟨full, hAll, hMsg, hAcc⟩ := h.progress
  have hBlocks : blocks msg = full ++ if 0 < mac.buf.length then [mac.buf] else [] := by
    rw [hMsg, blocks_full full mac.buf hAll, blocks_short mac.buf hShort]
  have hTag : ∀ st : Poly.State, st.Ready → st.s = (initState key).s →
      st.h.value ≡ evaluate (clamp (leValue (key.take 16))) 0 (blocks msg) [MOD prime] →
      Exact (Poly.finalize checked st) (Poly.finalize wrapping st)
        (fun tag => tag = tagOf key msg) := by
    intro st hReady hs hValue
    refine (Poly.finalize_exact st hReady (by rw [hs]; rfl)).imp fun tag hResult => ?_
    rw [hResult, hs, hWords, show st.h.value % prime = _ from hValue]
    rfl
  rw [finalize, finalize]
  split_ifs at hBlocks with hHeld
  · rw [if_pos hHeld, if_pos hHeld]
    refine (processBlock_exact mac.state mac.buf h.ready (by omega)).bind fun next hNext => ?_
    refine hTag next hNext.1 (hNext.2.2.1.trans h.addition) ?_
    rw [hBlocks, evaluate_append, evaluate_singleton, ← h.keyValue]
    rw [← h.keyValue] at hAcc
    exact hNext.2.2.2.trans (((hAcc.add_right _).mul_right _).trans (Nat.mod_modEq _ _).symm)
  · rw [if_neg hHeld, if_neg hHeld]
    rw [append_nil] at hBlocks
    exact hTag mac.state h.ready h.addition (hBlocks ▸ hAcc)

/-- For every key of 32 octets and every cut of the message the context returns the tag of the
standard, and the same run with checked words never overflows. -/
theorem authenticate_exact (key : Bytes) (hKey : key.length = 32) (pieces : List Bytes) :
    (authenticate WordOps.wrapping key pieces).run = tagOf key pieces.flatten ∧
      authenticate WordOps.checked key pieces = some (tagOf key pieces.flatten) := by
  have hRun : Exact (authenticate checked key pieces) (authenticate wrapping key pieces)
      (fun tag => tag = tagOf key pieces.flatten) := by
    rw [authenticate, authenticate]
    refine (updates_exact key [] pieces (init key) (follows_init key hKey) (by simp [init])).bind
      fun mac hMac => ?_
    rw [List.nil_append] at hMac
    exact finalize_exact key _ hKey mac hMac.1 hMac.2
  exact ⟨hRun.2, hRun.1.trans (congrArg some hRun.2)⟩

def forumKey : Bytes :=
  [0x85, 0xd6, 0xbe, 0x78, 0x57, 0x55, 0x6d, 0x33, 0x7f, 0x44, 0x52, 0xfe, 0x42, 0xd5, 0x06, 0xa8,
   0x01, 0x03, 0x80, 0x8a, 0xfb, 0x0d, 0xb2, 0xfd, 0x4a, 0xbf, 0xf6, 0xaf, 0x41, 0x49, 0xf5, 0x1b]

theorem authenticate_forum : forumKey.length = 32 ∧
      (authenticate WordOps.wrapping forumKey [ascii "Cryptographic ", [], ascii "Forum Research Group"]).run =
        [0xa8, 0x06, 0x1d, 0xc1, 0x30, 0x51, 0x36, 0xc6, 0xc2, 0x2b, 0x8b, 0xaf, 0x0c, 0x01, 0x27, 0xa9] :=
  ⟨rfl, (authenticate_exact forumKey rfl _).1.trans (by decide +kernel)⟩

end Poly1305

end Crypto
