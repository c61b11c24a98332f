import Mathlib.Data.Int.DivMod
import QbuemStack.Base.SignedInts

/-! The bitset of the plane, in tiles that are made when a cell of them is set. The cache of the
tiles that a thread has looked up last answers as the map does and is left out. -/
namespace TiledBitset

open SignedInts Function

section Coordinates

structure Tiling where
  width : Nat
  height : Nat
  layers : Nat
  width_pos : 0 < width
  width_lt : width < 4294967296
  height_pos : 0 < height
  height_lt : height < 4294967296
  layers_pos : 0 < layers
  layers_le : layers ≤ 64

variable (g : Tiling) (size : Nat) (w : Int)

def tileOf : Option (BitVec 32) :=
  (if 0 ≤ w then some (w.tdiv size)
    else (checked (w - size)).bind fun d => (checked (d + 1)).map fun e => e.tdiv size).map (BitVec.ofInt 32)

def tileX : Option (BitVec 32) := tileOf g.width w

def tileY : Option (BitVec 32) := tileOf g.height w

def localOf : Nat := (if w.tmod size < 0 then w.tmod size + size else w.tmod size).toNat

def localX : Nat := localOf g.width w

def localY : Nat := localOf g.height w

def worldOf (t : BitVec 32) (l : Nat) : Int := t.toInt * size + l

def worldX (t : BitVec 32) (l : Nat) : Int := worldOf g.width t l

def worldY (t : BitVec 32) (l : Nat) : Int := worldOf g.height t l

def makeKey (tx ty : BitVec 32) : BitVec 64 := tx.setWidth 64 <<< 32 ||| ty.setWidth 64

def unpackKey (key : BitVec 64) : BitVec 32 × BitVec 32 := ((key >>> 32).setWidth 32, key.setWidth 32)

/-- The tile of a coordinate has a number of 32 bits, and the difference for it fits. -/
def Fits : Prop := (w < 0 → minInt64 ≤ w - size) ∧ -2147483648 ≤ w / size ∧ w / size < 2147483648

instance : Decidable (Fits size w) := inferInstanceAs (Decidable (_ ∧ _ ∧ _))

variable {size w}

theorem unpackKey_makeKey (tx ty : BitVec 32) : unpackKey (makeKey tx ty) = (tx, ty) := by
  refine Prod.ext ?_ ?_
  · ext i hi
    have hHere : 32 + i < 64 ∧ ¬32 + i < 32 ∧ i < 64 := by omega
    simp [unpackKey, makeKey, hHere, hi]
  · ext i hi
    simp [unpackKey, makeKey]

section

variable (hSize : 0 < size)
include hSize

theorem tdiv_eq_floor (hNeg : w < 0) : (w - size + 1).tdiv size = w / size := by
  have hMod := Int.emod_nonneg w (b := size) (by omega)
  have hLt := Int.emod_lt_of_pos w (b := size) (by omega)
  have hParts := Int.mul_ediv_add_emod w size
  have hFloor : (size - 1 - w) / size = -(w / size) ∧ (size - 1 - w) % size = size - 1 - w % size := by
    refine (Int.ediv_emod_unique (by omega)).mpr ⟨?_, by omega, by omega⟩
    rw [Int.mul_neg]
    omega
  have hNegated : w - size + 1 = -(size - 1 - w) := by omega
  rw [hNegated, Int.neg_tdiv, Int.tdiv_eq_ediv_of_nonneg (by omega), hFloor.1, Int.neg_neg]

theorem localOf_eq : (localOf size w : Int) = w % size := by
  have hMod := Int.emod_nonneg w (b := size) (by omega)
  have hLt := Int.emod_lt_of_pos w (b := size) (by omega)
  rw [localOf, Int.tmod_eq_emod]
  by_cases hWhole : 0 ≤ w ∨ (size : Int) ∣ w
  · rw [if_pos hWhole, Int.natCast_zero, Int.sub_zero, if_neg (by omega), Int.toNat_of_nonneg hMod]
  · rw [if_neg hWhole, Int.natAbs_natCast, if_pos (by omega), Int.sub_add_cancel, Int.toNat_of_nonneg hMod]

theorem localOf_lt (w : Int) : localOf size w < size := by
  have hLt := Int.emod_lt_of_pos w (b := size) (by omega)
  have hLocal := localOf_eq (w := w) hSize
  omega

theorem tileOf_eq :
    tileOf size w = if w < 0 → minInt64 ≤ w - size then some (BitVec.ofInt 32 (w / size)) else none := by
  rw [tileOf]
  by_cases hNeg : 0 ≤ w
  · rw [if_pos hNeg, if_pos (by omega), Int.tdiv_eq_ediv_of_nonneg hNeg]
    rfl
  · rw [if_neg hNeg]
    by_cases hLow : minInt64 ≤ w - size
    · have hFirst : checked (w - size) = some (w - size) := checked_eq_some.mpr ⟨rfl, hLow, by rw [maxInt64]; omega⟩
      have hSecond : checked (w - size + 1) = some (w - size + 1) :=
        checked_eq_some.mpr ⟨rfl, by omega, by rw [maxInt64]; omega⟩
      rw [if_pos fun _ => hLow, hFirst, Option.bind_some, hSecond, Option.map_some, tdiv_eq_floor hSize (by omega)]
      rfl
    · have hNone : checked (w - size) = none := if_neg fun hFits => hLow hFits.1
      rw [if_neg fun hAll => hLow (hAll (by omega)), hNone]
      rfl

theorem worldOf_iff : (∃ t, tileOf size w = some t ∧ worldOf size t (localOf size w) = w) ↔ Fits size w := by
  have hParts := Int.mul_ediv_add_emod w size
  have hBack : worldOf size (BitVec.ofInt 32 (w / size)) (localOf size w) = w ↔
      -2147483648 ≤ w / size ∧ w / size < 2147483648 := by
    rw [worldOf, localOf_eq hSize, BitVec.toInt_ofInt, Int.mul_comm]
    constructor
    · intro hSame
      have hQuotient : (w / size).bmod (2 ^ 32) = w / size :=
        Int.eq_of_mul_eq_mul_left (a := size) (by omega) (by omega)
      have hLow := Int.le_bmod (x := w / size) (m := 2 ^ 32) (by decide)
      have hHigh := Int.bmod_lt (x := w / size) (m := 2 ^ 32) (by decide)
      omega
    · rintro ⟨hLow, hHigh⟩
      rw [Int.bmod_eq_of_le (by omega) (by omega)]
      exact hParts
  rw [tileOf_eq hSize, Fits, ← hBack]
  split_ifs with hLow
  · simp only [Option.some.injEq, exists_eq_left', and_iff_right hLow]
  · simp [hLow]

end

end Coordinates

section Cells

variable (g : Tiling)

abbrev Grid := Nat → BitVec 64

def flat (x y : Nat) : Nat := y * g.width + x

def Grid.set (grid : Grid) (cell layer : Nat) : Grid := Function.update grid cell (grid cell ||| 1#64 <<< layer)

def Grid.test (grid : Grid) (cell layer : Nat) : Bool := (grid cell >>> layer).getLsbD 0

abbrev TileMap := BitVec 64 → Option Grid

def keyOf (x y : Int) : Option (BitVec 64) := (tileX g x).bind fun tx => (tileY g y).map fun ty => makeKey tx ty

def cellOf (x y : Int) : Nat := flat g (localX g x) (localY g y)

def set (tiles : TileMap) (x y : Int) (layer : Nat) : Option TileMap :=
  (keyOf g x y).map fun key =>
    Function.update tiles key (some (((tiles key).getD fun _ => 0#64).set (cellOf g x y) layer))

def test (tiles : TileMap) (x y : Int) (layer : Nat) : Option Bool :=
  (keyOf g x y).map fun key => (tiles key).any fun grid => grid.test (cellOf g x y) layer

/-- A cell can be computed back from its tile and its place in it. -/
def Inverts (x y : Int) : Prop :=
  ∃ tx ty, tileX g x = some tx ∧ tileY g y = some ty ∧ worldX g tx (localX g x) = x ∧ worldY g ty (localY g y) = y

/-- To set a layer of one cell changes a layer of the other only if they are the same. -/
def Apart (x y x' y' : Int) : Prop :=
  ∀ (tiles after : TileMap) (layer layer' : Nat), layer < g.layers → layer' < g.layers →
    set g tiles x y layer = some after → test g after x' y' layer' ≠ test g tiles x' y' layer' →
      x' = x ∧ y' = y ∧ layer' = layer

variable {g} {x y x' y' : Int}

theorem flat_inj {lx ly lx' ly' : Nat} (hx : lx < g.width) (hx' : lx' < g.width)
    (hFlat : flat g lx ly = flat g lx' ly') :
    lx = lx' ∧ ly = ly' := by
  have hMod := congrArg (· % g.width) hFlat
  have hDiv := congrArg (· / g.width) hFlat
  simp only [flat, Nat.mul_add_mod_self_right, Nat.mod_eq_of_lt hx, Nat.mod_eq_of_lt hx'] at hMod
  simp only [flat, Nat.mul_comm _ g.width, Nat.mul_add_div g.width_pos, Nat.div_eq_of_lt hx, Nat.div_eq_of_lt hx',
    Nat.add_zero] at hDiv
  exact ⟨hMod, hDiv⟩

theorem Grid.test_set (grid : Grid) {cell cell' layer layer' : Nat}
    (hOther : cell' = cell → layer' ≠ layer) : (grid.set cell layer).test cell' layer' = grid.test cell' layer' := by
  by_cases hCell : cell' = cell
  · subst hCell
    have hBit : (1#64 <<< layer).getLsbD layer' = false := by
      have hNe := hOther rfl
      simp
      omega
    simp only [Grid.test, Grid.set, update_self, BitVec.getLsbD_ushiftRight, BitVec.getLsbD_or, Nat.add_zero,
      hBit, Bool.or_false]
  · rw [Grid.test, Grid.set, update_of_ne hCell]
    rfl

/-- A cell is computed back from its tile exactly if both coordinates fit. -/
theorem inverts_iff : Inverts g x y ↔ Fits g.width x ∧ Fits g.height y := by
  rw [← worldOf_iff g.width_pos, ← worldOf_iff g.height_pos]
  constructor
  · rintro ⟨tx, ty, hx, hy, hBackX, hBackY⟩
    exact ⟨⟨tx, hx, hBackX⟩, ty, hy, hBackY⟩
  · rintro ⟨⟨tx, hx, hBackX⟩, ty, hy, hBackY⟩
    exact ⟨tx, ty, hx, hy, hBackX, hBackY⟩

theorem Inverts.inj (hInverts : Inverts g x y) (hInverts' : Inverts g x' y') (hKey : keyOf g x y = keyOf g x' y')
    (hCell : cellOf g x y = cellOf g x' y') : x' = x ∧ y' = y := by
  obtain ⟨tx, ty, hx, hy, hBackX, hBackY⟩ := hInverts
  obtain ⟨tx', ty', hx', hy', hBackX', hBackY'⟩ := hInverts'
  rw [keyOf, keyOf, hx, hy, hx', hy'] at hKey
  have hTiles := congrArg unpackKey (Option.some.inj hKey)
  rw [unpackKey_makeKey, unpackKey_makeKey] at hTiles
  cases hTiles
  obtain ⟨hLocalX, hLocalY⟩ := flat_inj (localOf_lt g.width_pos x) (localOf_lt g.width_pos x') hCell
  rw [← hBackX, ← hBackY, ← hBackX', ← hBackY']
  exact ⟨congrArg (worldX g tx) hLocalX.symm, congrArg (worldY g ty) hLocalY.symm⟩

theorem Inverts.apart (hInverts : Inverts g x y) (hInverts' : Inverts g x' y') : Apart g x y x' y' := by
  intro tiles after layer layer' hLayer hLayer' hSet hChanged
  by_contra hOther
  obtain ⟨key, hKey, rfl⟩ := Option.map_eq_some_iff.mp hSet
  refine hChanged ?_
  rw [test, test]
  cases hKey' : keyOf g x' y' with
  | none => rfl
  | some key' =>
    by_cases hSame : key' = key
    · subst hSame
      simp only [Option.map_some, update_self, Option.any_some]
      rw [Grid.test_set]
      · cases tiles key' with
        | none => simp [Grid.test]
        | some grid => rfl
      · rintro hCell rfl
        obtain ⟨rfl, rfl⟩ := hInverts.inj hInverts' (hKey.trans hKey'.symm) hCell.symm
        exact hOther ⟨rfl, rfl, rfl⟩
    · rw [Option.map_some, Option.map_some, update_of_ne hSame]

/-- Two cells are kept apart, and each is given back by its tile and its place in it, exactly if the
four tile coordinates can be computed and fit into 32 bits. -/
theorem unbounded_iff (g : Tiling) (x y x' y' : Int) :
    Inverts g x y ∧ Inverts g x' y' ∧ Apart g x y x' y' ↔
      (Fits g.width x ∧ Fits g.height y) ∧ Fits g.width x' ∧ Fits g.height y' := by
  rw [← inverts_iff, ← inverts_iff]
  exact ⟨fun hAll => ⟨hAll.1, hAll.2.1⟩, fun hBoth => ⟨hBoth.1, hBoth.2, hBoth.1.apart hBoth.2⟩⟩

/-- Tiles of one cell: the tile of `2 ^ 32` has the number of the tile of 0. -/
theorem far_cell_set :
    ¬Apart ⟨1, 1, 1, by decide, by decide, by decide, by decide, by decide, by decide⟩ 0 0 4294967296 0 := by
  intro hApart
  have hSame := hApart (fun _ => none) _ 0 0 (by decide) (by decide) rfl (by decide)
  exact absurd hSame.1 (by decide)

end Cells

end TiledBitset
