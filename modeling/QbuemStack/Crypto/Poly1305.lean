import QbuemStack.Base.Radix

/-! The Poly1305 one-time MAC of `crypto/poly1305.hpp`: a 130-bit accumulator in five limbs of 26
bits. The 64-bit operations go through `WordOps`, so that one text can be run with wrapping words
and with words that report an overflow. -/
namespace Crypto

open Octets

structure WordOps (m : Type → Type) where
  add : UInt64 → UInt64 → m UInt64
  mul : UInt64 → UInt64 → m UInt64
  shl : UInt64 → UInt64 → m UInt64

namespace WordOps

def wrapping : WordOps Id where
  add a b := a + b
  mul a b := a * b
  shl a k := a <<< k

/-- The operations of the machine, given up when the exact result does not fit. -/
def checked : WordOps Option where
  add a b := if a.toNat + b.toNat < 2 ^ 64 then some (a + b) else none
  mul a b := if a.toNat * b.toNat < 2 ^ 64 then some (a * b) else none
  shl a k := if k.toNat < 64 ∧ a.toNat * 2 ^ k.toNat < 2 ^ 64 then some (a <<< k) else none

end WordOps

namespace Poly

structure Limbs where
  l0 : UInt64
  l1 : UInt64
  l2 : UInt64
  l3 : UInt64
  l4 : UInt64

def mask26 : UInt64 := 0x3FFFFFF

structure State where
  h : Limbs := ⟨0, 0, 0, 0, 0⟩
  r : Limbs := ⟨0, 0, 0, 0, 0⟩
  s : List UInt32 := [0, 0, 0, 0]

def loadLe32 (p : Bytes) (pos : Nat) : UInt32 :=
  let at' (i : Nat) : UInt32 := (p.getD (pos + i) 0).toUInt32
  at' 0 ||| (at' 1 <<< 8) ||| (at' 2 <<< 16) ||| (at' 3 <<< 24)

def storeLe32 (v : UInt32) : Bytes :=
  [v.toUInt8, (v >>> 8).toUInt8, (v >>> 16).toUInt8, (v >>> 24).toUInt8]

def clampR (r16 : Bytes) : Bytes :=
  let step (i : Nat) (m : UInt8) (r : Bytes) : Bytes := r.set i (r.getD i 0 &&& m)
  r16 |> step 3 15 |> step 7 15 |> step 11 15 |> step 15 15 |> step 4 252 |> step 8 252 |> step 12 252

def split (p : Bytes) : Limbs where
  l0 := (loadLe32 p 0).toUInt64 &&& mask26
  l1 := (loadLe32 p 3 >>> 2).toUInt64 &&& mask26
  l2 := (loadLe32 p 6 >>> 4).toUInt64 &&& mask26
  l3 := (loadLe32 p 9 >>> 6).toUInt64 &&& mask26
  l4 := (loadLe32 p 12 >>> 8).toUInt64 &&& mask26

def initState (key : Bytes) : State where
  r := split (clampR (key.take 16))
  s := [loadLe32 key 16, loadLe32 key 20, loadLe32 key 24, loadLe32 key 28]

section

variable {m : Type → Type} [Monad m] (ops : WordOps m)

def absorb (h : Limbs) (block : Bytes) : m Limbs := do
  let len := block.length
  let buf := if len < 16 then block ++ [0x01] ++ List.replicate (15 - len) 0 else block
  let piece := split buf
  let m4 ← ops.add piece.l4 (if len = 16 then (1 : UInt64) <<< 24 else 0)
  let h0 ← ops.add h.l0 piece.l0
  let h1 ← ops.add h.l1 piece.l1
  let h2 ← ops.add h.l2 piece.l2
  let h3 ← ops.add h.l3 piece.l3
  let h4 ← ops.add h.l4 m4
  return ⟨h0, h1, h2, h3, h4⟩

def dot (h a : Limbs) : m UInt64 := do
  let p0 ← ops.mul h.l0 a.l0
  let p1 ← ops.mul h.l1 a.l1
  let p2 ← ops.mul h.l2 a.l2
  let p3 ← ops.mul h.l3 a.l3
  let p4 ← ops.mul h.l4 a.l4
  let s1 ← ops.add p0 p1
  let s2 ← ops.add s1 p2
  let s3 ← ops.add s2 p3
  ops.add s3 p4

def multiply (h r : Limbs) : m Limbs := do
  let r1_5 ← ops.mul r.l1 5
  let r2_5 ← ops.mul r.l2 5
  let r3_5 ← ops.mul r.l3 5
  let r4_5 ← ops.mul r.l4 5
  let d0 ← dot ops h ⟨r.l0, r4_5, r3_5, r2_5, r1_5⟩
  let d1 ← dot ops h ⟨r.l1, r.l0, r4_5, r3_5, r2_5⟩
  let d2 ← dot ops h ⟨r.l2, r.l1, r.l0, r4_5, r3_5⟩
  let d3 ← dot ops h ⟨r.l3, r.l2, r.l1, r.l0, r4_5⟩
  let d4 ← dot ops h ⟨r.l4, r.l3, r.l2, r.l1, r.l0⟩
  return ⟨d0, d1, d2, d3, d4⟩

def propagate (d : Limbs) : m Limbs := do
  let c0 := d.l0 >>> 26
  let d0 := d.l0 &&& mask26
  let d1 ← ops.add d.l1 c0
  let c1 := d1 >>> 26
  let d1 := d1 &&& mask26
  let d2 ← ops.add d.l2 c1
  let c2 := d2 >>> 26
  let d2 := d2 &&& mask26
  let d3 ← ops.add d.l3 c2
  let c3 := d3 >>> 26
  let d3 := d3 &&& mask26
  let d4 ← ops.add d.l4 c3
  let c4 := d4 >>> 26
  let d4 := d4 &&& mask26
  let d0 ← ops.add d0 (← ops.mul c4 5)
  let c5 := d0 >>> 26
  let d0 := d0 &&& mask26
  let d1 ← ops.add d1 c5
  return ⟨d0, d1, d2, d3, d4⟩

def processBlock (st : State) (block : Bytes) : m State := do
  let h ← absorb ops st.h block
  let d ← multiply ops h st.r
  let h ← propagate ops d
  return { st with h := h }

def settle (h : Limbs) : m Limbs := do
  let c := h.l1 >>> 26
  let h1 := h.l1 &&& mask26
  let h2 ← ops.add h.l2 c
  let c := h2 >>> 26
  let h2 := h2 &&& mask26
  let h3 ← ops.add h.l3 c
  let c := h3 >>> 26
  let h3 := h3 &&& mask26
  let h4 ← ops.add h.l4 c
  let c := h4 >>> 26
  let h4 := h4 &&& mask26
  let h0 ← ops.add h.l0 (← ops.mul c 5)
  let c := h0 >>> 26
  let h0 := h0 &&& mask26
  let h1 ← ops.add h1 c
  return ⟨h0, h1, h2, h3, h4⟩

def minusP (h : Limbs) : m Limbs := do
  let g0 ← ops.add h.l0 5
  let c := g0 >>> 26
  let g0 := g0 &&& mask26
  let g1 ← ops.add h.l1 c
  let c := g1 >>> 26
  let g1 := g1 &&& mask26
  let g2 ← ops.add h.l2 c
  let c := g2 >>> 26
  let g2 := g2 &&& mask26
  let g3 ← ops.add h.l3 c
  let c := g3 >>> 26
  let g3 := g3 &&& mask26
  let g4 ← ops.add h.l4 c
  return ⟨g0, g1, g2, g3, g4 - ((1 : UInt64) <<< 26)⟩

def select (h g : Limbs) : Limbs :=
  let mask := (g.l4 >>> 63) - 1
  let nmask := ~~~mask
  let pick (a b : UInt64) : UInt64 := (a &&& nmask) ||| (b &&& mask)
  ⟨pick h.l0 g.l0, pick h.l1 g.l1, pick h.l2 g.l2, pick h.l3 g.l3, pick h.l4 g.l4⟩

def pack (h : Limbs) : m (List UInt32) := do
  let a0 ← ops.shl h.l1 26
  let a1 ← ops.shl h.l2 20
  let a2 ← ops.shl h.l3 14
  let a3 ← ops.shl h.l4 8
  return [(h.l0 ||| a0).toUInt32, ((h.l1 >>> 6) ||| a1).toUInt32,
    ((h.l2 >>> 12) ||| a2).toUInt32, ((h.l3 >>> 18) ||| a3).toUInt32]

def addKey : List UInt32 → List UInt32 → UInt64 → m (List UInt32)
  | w :: ws, s :: ss, f => do
      let sum ← ops.add w.toUInt64 s.toUInt64
      let f ← ops.add sum (f >>> 32)
      return f.toUInt32 :: (← addKey ws ss f)
  | _, _, _ => return []

def finalize (st : State) : m Bytes := do
  let h ← settle ops st.h
  let g ← minusP ops h
  let words ← pack ops (select h g)
  let words ← addKey ops words st.s 0
  return words.flatMap storeLe32

end

end Poly

structure Poly1305 where
  state : Poly.State
  buf : Bytes

namespace Poly1305

def init (key : Bytes) : Poly1305 := { state := Poly.initState key, buf := [] }

section

variable {m : Type → Type} [Monad m] (ops : WordOps m)

def fullBlocks : Nat → Poly.State → Bytes → m (Poly.State × Bytes)
  | 0, st, src => return (st, src)
  | count + 1, st, src => do
      let st ← Poly.processBlock ops st (src.take 16)
      fullBlocks count st (src.drop 16)

def fillPartial (mac : Poly1305) (data : Bytes) : m (Poly1305 × Bytes) :=
  if 0 < mac.buf.length then
    let space := 16 - mac.buf.length
    let take := if data.length < space then data.length else space
    let buf := mac.buf ++ data.take take
    if buf.length = 16 then do
      let state ← Poly.processBlock ops mac.state buf
      return ({ state := state, buf := [] }, data.drop take)
    else return ({ mac with buf := buf }, data.drop take)
  else return (mac, data)

def update (mac : Poly1305) (data : Bytes) : m Poly1305 :=
  if data.length = 0 then return mac
  else do
    let filled ← fillPartial ops mac data
    let rest ← fullBlocks ops (filled.2.length / 16) filled.1.state filled.2
    return { state := rest.1, buf := if 0 < rest.2.length then rest.2 else filled.1.buf }

def finalize (mac : Poly1305) : m Bytes :=
  if 0 < mac.buf.length then do
    let state ← Poly.processBlock ops mac.state mac.buf
    Poly.finalize ops state
  else Poly.finalize ops mac.state

def authenticate (key : Bytes) (pieces : List Bytes) : m Bytes := do
  let mac ← pieces.foldlM (update ops) (init key)
  finalize ops mac

end

end Poly1305

end Crypto
