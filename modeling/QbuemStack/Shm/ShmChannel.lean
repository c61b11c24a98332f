import QbuemStack.Base.SequenceRing
import QbuemStack.Base.SharedCode

/-! The channel in shared memory. A segment holds a header of three cache lines, a ring of metadata
slots and an arena of messages. -/
namespace Shm

open SequenceRing SharedCode

section Layout

def kSHMMagic : Nat := 0x5142554D

def sizeofSHMHeader : Nat := 192

def sizeofMetadataSlot : Nat := 32

def tailAt : Nat := 0

def headAt : Nat := 64

def capacityAt : Nat := 128

def magicAt : Nat := 132

def stateAt : Nat := 136

def slotAt (i : Nat) : Nat := sizeofSHMHeader + i * sizeofMetadataSlot

def offAt (i : Nat) : Nat := slotAt i + 8

def lenAt (i : Nat) : Nat := slotAt i + 12

def calcSegmentSize (capacity sz : Nat) : Nat :=
  wrap (sizeofSHMHeader + capacity * sizeofMetadataSlot + capacity * sz + 4095) / 4096 * 4096

end Layout

def Message (sz : Nat) : Type := { bytes : List UInt8 // bytes.length = sz }

structure Channel where
  capacity : Nat

namespace Channel

def arenaAt (c : Channel) : Nat := sizeofSHMHeader + c.capacity * sizeofMetadataSlot

def arenaBytes (c : Channel) (sz : Nat) : Nat := wrap (c.capacity * sz)

end Channel

def overflows (n : Nat) : Bool := 2 ^ 64 ≤ n

/-- The part of `open` that reads the mapped segment: nothing in it is trusted. -/
def openChannel (sz segSize : Nat) : Code (Option Channel) :=
  if segSize < sizeofSHMHeader then .done none
  else .load magicAt 4 fun magic =>
    if magic ≠ kSHMMagic then .done none
    else .load capacityAt 4 fun cap =>
      if cap = 0 ∨ cap &&& (cap - 1) ≠ 0 then .done none
      else if overflows (cap * sizeofMetadataSlot) ∨ overflows (cap * sz) ∨
          overflows (sizeofSHMHeader + cap * sizeofMetadataSlot) ∨
          overflows (sizeofSHMHeader + cap * sizeofMetadataSlot + cap * sz) ∨
          sizeofSHMHeader + cap * sizeofMetadataSlot + cap * sz > segSize then .done none
      else .done (some ⟨cap⟩)

section Operations

variable {sz : Nat} (c : Channel)

def fillSlot (msg : Message sz) (pos : Nat) : Code Bool :=
  .copyIn (c.arenaAt + cell c.capacity pos * sz % 2 ^ 32) msg.1 <|
    .store (offAt (cell c.capacity pos)) 4 (cell c.capacity pos * sz % 2 ^ 32) <|
      .store (lenAt (cell c.capacity pos)) 4 (sz % 2 ^ 32) <|
        .store (slotAt (cell c.capacity pos)) 8 (wrap (pos + 1)) <| .done true

def sendLoop (msg : Message sz) : Nat → Nat → Code Bool
  | 0, _ => .spin
  | rounds + 1, pos =>
    .load (slotAt (cell c.capacity pos)) 8 fun seq =>
      if diff seq pos = 0 then
        .exchange tailAt 8 pos (wrap (pos + 1)) fun found =>
          found.elim (fillSlot c msg pos) (sendLoop msg rounds)
      else if diff seq pos < 0 then .done false
      else .load tailAt 8 (sendLoop msg rounds)

def trySend (msg : Message sz) (rounds : Nat) : Code Bool :=
  .load stateAt 4 fun state =>
    if state % 2 = 0 then .done false else .load tailAt 8 (sendLoop c msg rounds)

def readSlot (sz pos : Nat) : Code (Option (List UInt8)) :=
  .load (offAt (cell c.capacity pos)) 4 fun off =>
    if off > wrap (c.arenaBytes sz + 2 ^ 64 - sz) then
      .store (slotAt (cell c.capacity pos)) 8 (wrap (pos + (c.capacity - 1) + 1)) <| .done none
    else .copyOut (c.arenaAt + off) sz fun bytes =>
      .store (slotAt (cell c.capacity pos)) 8 (wrap (pos + (c.capacity - 1) + 1)) <| .done (some bytes)

def recvLoop (sz : Nat) : Nat → Nat → Code (Option (List UInt8))
  | 0, _ => .spin
  | rounds + 1, pos =>
    .load (slotAt (cell c.capacity pos)) 8 fun seq =>
      if diff seq (wrap (pos + 1)) = 0 then
        .exchange headAt 8 pos (wrap (pos + 1)) fun found =>
          found.elim (readSlot c sz pos) (recvLoop sz rounds)
      else if diff seq (wrap (pos + 1)) < 0 then .done none
      else .load headAt 8 (recvLoop sz rounds)

def tryRecv (sz rounds : Nat) : Code (Option (List UInt8)) := .load headAt 8 (recvLoop c sz rounds)

def closeChannel : Code Unit := .modify stateAt 4 (fun state => state - state % 2) (.done ())

def isOpen : Code Bool := .load stateAt 4 fun state => .done (state % 2 != 0)

def sizeApprox : Code Nat :=
  .load tailAt 8 fun tail => .load headAt 8 fun head => .done (if head ≤ tail then tail - head else 0)

end Operations

section Hostile

/-- A channel whose ring and arena lie inside the segment. -/
structure Channel.Fits (c : Channel) (sz size : Nat) : Prop where
  pos : 0 < c.capacity
  arena : c.capacity * sz < 2 ^ 64
  inside : sizeofSHMHeader + c.capacity * sizeofMetadataSlot + c.capacity * sz ≤ size

/-- What `open` accepts fits, whatever the segment answers. -/
theorem fits_of_open {sz size : Nat} {c : Channel} (h : Returns (openChannel sz size) (some c)) : c.Fits sz size := by
  unfold openChannel at h
  split_ifs at h with hSmall
  · cases returns_done.mp h
  obtain ⟨magic, h⟩ := returns_load.mp h
  split_ifs at h with hMagic
  · cases returns_done.mp h
  obtain ⟨cap, h⟩ := returns_load.mp h
  split_ifs at h with hCap hRequired
  · cases returns_done.mp h
  · cases returns_done.mp h
  · obtain rfl : Channel.mk cap = c := Option.some.inj (returns_done.mp h)
    simp only [overflows, decide_eq_true_eq, not_or, Nat.not_le] at hRequired hCap
    exact ⟨Nat.pos_of_ne_zero hCap.1, hRequired.2.1, Nat.le_of_not_gt hRequired.2.2.2.2⟩

section Bounds

variable {sz size : Nat} {c : Channel} (hFits : c.Fits sz size)

include hFits

variable (msg : Message sz) (rounds pos : Nat)

theorem slot_inside : slotAt (cell c.capacity pos) + 32 ≤ size := by
  have hLt := cell_lt hFits.pos pos
  have hInside := hFits.inside
  simp only [slotAt, sizeofSHMHeader, sizeofMetadataSlot] at hInside ⊢
  omega

theorem header_inside : 192 ≤ size := by
  have hInside := hFits.inside
  simp only [sizeofSHMHeader] at hInside
  omega

theorem arena_inside {off : Nat} (hOff : off + sz ≤ c.capacity * sz) : c.arenaAt + off + sz ≤ size := by
  have hInside := hFits.inside
  simp only [Channel.arenaAt]
  omega

theorem offset_inside : cell c.capacity pos * sz % 2 ^ 32 + sz ≤ c.capacity * sz := by
  have hLt := cell_lt hFits.pos pos
  calc cell c.capacity pos * sz % 2 ^ 32 + sz ≤ cell c.capacity pos * sz + sz :=
        Nat.add_le_add_right (Nat.mod_le _ _) sz
    _ = (cell c.capacity pos + 1) * sz := by rw [Nat.add_mul, Nat.one_mul]
    _ ≤ c.capacity * sz := Nat.mul_le_mul_right sz hLt

theorem inside_fillSlot : Inside size (fillSlot c msg pos) := by
  have hSlot := slot_inside hFits pos
  refine inside_copyIn ?_ (inside_store ?_ (inside_store ?_ (inside_store ?_ (inside_done true))))
  · rw [msg.2]
    exact arena_inside hFits (offset_inside hFits pos)
  · simp only [offAt]
    omega
  · simp only [lenAt]
    omega
  · omega

theorem inside_sendLoop : Inside size (sendLoop c msg rounds pos) := by
  induction rounds generalizing pos with
  | zero => exact inside_spin
  | succ rounds ih =>
    have hSlot := slot_inside hFits pos
    have hHeader := header_inside hFits
    refine inside_load (by omega) fun seq => ?_
    split_ifs
    · exact inside_exchange (by simp only [tailAt]; omega) (inside_fillSlot hFits msg pos) ih
    · exact inside_done false
    · exact inside_load (by simp only [tailAt]; omega) ih

theorem inside_trySend : Inside size (trySend c msg rounds) := by
  have hHeader := header_inside hFits
  refine inside_load (by simp only [stateAt]; omega) fun state => ?_
  split_ifs
  · exact inside_done false
  · exact inside_load (by simp only [tailAt]; omega) (inside_sendLoop hFits msg rounds)

theorem inside_readSlot : Inside size (readSlot c sz pos) := by
  have hSlot := slot_inside hFits pos
  refine inside_load (by simp only [offAt]; omega) fun off => ?_
  split_ifs with hOff
  · exact inside_store (by omega) (inside_done none)
  · have hBytes : c.arenaBytes sz = c.capacity * sz := Nat.mod_eq_of_lt hFits.arena
    have hOne : sz ≤ c.capacity * sz := Nat.le_mul_of_pos_left sz hFits.pos
    have hArena := hFits.arena
    rw [hBytes, wrap] at hOff
    refine inside_copyOut (arena_inside hFits (by omega)) fun bytes => inside_store (by omega) (inside_done _)

theorem inside_recvLoop : Inside size (recvLoop c sz rounds pos) := by
  induction rounds generalizing pos with
  | zero => exact inside_spin
  | succ rounds ih =>
    have hSlot := slot_inside hFits pos
    have hHeader := header_inside hFits
    refine inside_load (by omega) fun seq => ?_
    split_ifs
    · exact inside_exchange (by simp only [headAt]; omega) (inside_readSlot hFits pos) ih
    · exact inside_done none
    · exact inside_load (by simp only [headAt]; omega) ih

theorem inside_tryRecv : Inside size (tryRecv c sz rounds) := by
  have hHeader := header_inside hFits
  exact inside_load (by simp only [headAt]; omega) (inside_recvLoop hFits rounds)

end Bounds

/-- Once `open` has accepted a segment, no operation touches a byte outside, whatever the memory answers at each
access and however often a loop goes round. -/
theorem hostile_inside {sz size : Nat} {c : Channel} (hOpen : Returns (openChannel sz size) (some c))
    (msg : Message sz) (rounds : Nat) :
    Inside size (trySend c msg rounds) ∧ Inside size (tryRecv c sz rounds) ∧ Inside size closeChannel ∧
      Inside size isOpen ∧ Inside size sizeApprox := by
  have hFits := fits_of_open hOpen
  have hHeader := header_inside hFits
  refine ⟨inside_trySend hFits msg rounds, inside_tryRecv hFits rounds, ?_, ?_, ?_⟩
  · exact inside_modify (by simp only [stateAt]; omega) (inside_done ())
  · exact inside_load (by simp only [stateAt]; omega) fun state => inside_done _
  · exact inside_load (by simp only [tailAt]; omega) fun tail =>
      inside_load (by simp only [headAt]; omega) fun head => inside_done _

/-- A segment of one page with two slots of one byte is accepted. -/
theorem hostile_inside_page :
    Returns (openChannel 1 4096) (some ⟨2⟩) ∧ Inside 4096 (trySend ⟨2⟩ (⟨[7], rfl⟩ : Message 1) 1) := by
  have hOpen : Returns (openChannel 1 4096) (some ⟨2⟩) := by
    refine .later (.load kSHMMagic) (.later (.load 2) ?_)
    exact .done _
  exact ⟨hOpen, (hostile_inside hOpen ⟨[7], rfl⟩ 1).1⟩

end Hostile

end Shm
