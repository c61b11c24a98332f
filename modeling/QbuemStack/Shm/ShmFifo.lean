import QbuemStack.Shm.ShmChannel

/-! The channel in shared memory as a queue, used by one thread. The ring keeps its order for every
capacity of at least two; the messages stay intact as long as no offset into the arena is truncated. -/
namespace Shm

open SequenceRing SharedCode Function Memory
open List (cons_append length_cons map_cons replicate)
open Option (bind_some map_some)
open Nat (mod_lt zero_le)

section Create

def zeroMemory : Memory := ⟨fun _ => 0, fun _ => 0⟩

def initSlots {ρ : Type} (next : Code ρ) : Nat → Nat → Code ρ
  | 0, _ => next
  | slots + 1, i =>
    .store (slotAt i) 8 i <| .store (offAt i) 4 0 <| .store (lenAt i) 4 0 <| initSlots next slots (i + 1)

def createChannel (cap : Nat) : Code Channel :=
  .store tailAt 8 0 <| .store headAt 8 0 <| .store capacityAt 4 (cap % 2 ^ 32) <| .store magicAt 4 kSHMMagic <|
    .store stateAt 4 1 <| initSlots (.done ⟨cap⟩) cap 0

def createCapacity (requested : Nat) : Option Nat := roundUp requested 65 1

end Create

section Queue

inductive Op (sz : Nat) where
  | trySend (msg : Message sz)
  | tryRecv

inductive Answer where
  | sent (ok : Bool)
  | received (bytes : Option (List UInt8))
deriving DecidableEq

variable {sz : Nat}

def perform (c : Channel) (rounds : Nat) : Op sz → Memory → Option (Answer × Memory)
  | .trySend msg, m => (exec (trySend c msg rounds) m).map fun out => (.sent out.1, out.2)
  | .tryRecv, m => (exec (tryRecv c sz rounds) m).map fun out => (.received out.1, out.2)

def answers (c : Channel) (rounds : Nat) : List (Op sz) → Memory → Option (List Answer)
  | [], _ => some []
  | op :: ops, m => (perform c rounds op m).bind fun out => (answers c rounds ops out.2).map (out.1 :: ·)

def channelAnswers (cap rounds : Nat) (ops : List (Op sz)) : Option (List Answer) :=
  (exec (createChannel cap) zeroMemory).bind fun out => answers out.1 rounds ops out.2

def queueAnswers (cap : Nat) : List (List UInt8) → List (Op sz) → List Answer
  | _, [] => []
  | queue, .trySend msg :: ops =>
    if queue.length < cap then .sent true :: queueAnswers cap (queue ++ [msg.1]) ops
    else .sent false :: queueAnswers cap queue ops
  | [], .tryRecv :: ops => .received none :: queueAnswers cap [] ops
  | oldest :: queue, .tryRecv :: ops => .received (some oldest) :: queueAnswers cap queue ops

/-- Every sequence of operations ends and is answered as by a queue of at most `cap` messages. -/
def BoundedFifo (sz cap : Nat) : Prop :=
  ∃ rounds, ∀ ops : List (Op sz), channelAnswers cap rounds ops = some (queueAnswers cap [] ops)

end Queue

section Ring

structure Ringed (k sz : Nat) (m : Memory) (h n : Nat) : Prop where
  turns : Turns k (fun i => m.words (slotAt i)) (m.words headAt) (m.words tailAt) h n
  active : m.words stateAt % 2 ≠ 0
  offsets : ∀ j, j < n → m.words (offAt ((h + j) % 2 ^ k)) = (h + j) % 2 ^ k * sz % 2 ^ 32

theorem initSlots_exec {ρ : Type} (next : Code ρ) (slots i : Nat) (m : Memory) :
    ∃ m', exec (initSlots next slots i) m = exec next m' ∧ (∀ j, i ≤ j → j < i + slots → m'.words (slotAt j) = j) ∧
      ∀ x, x < slotAt i → m'.words x = m.words x := by
  induction slots generalizing i m with
  | zero => exact ⟨m, rfl, fun j hLow hHigh => by omega, fun x _ => rfl⟩
  | succ slots ih =>
    obtain ⟨m', hExec, hNumbers, hBefore⟩ :=
      ih (i + 1) (((m.setWord (slotAt i) i).setWord (offAt i) 0).setWord (lenAt i) 0)
    have hNext : slotAt i + 32 = slotAt (i + 1) := by
      simp only [slotAt, sizeofSHMHeader, sizeofMetadataSlot]
      omega
    have hKept : ∀ x, x ≤ slotAt i → (((m.setWord (slotAt i) i).setWord (offAt i) 0).setWord (lenAt i) 0).words x =
        (m.setWord (slotAt i) i).words x := by
      intro x hx
      rw [setWord_other _ _ (by simp only [lenAt]; omega), setWord_other _ _ (by simp only [offAt]; omega)]
    refine ⟨m', hExec, fun j hLow hHigh => ?_, fun x hx => ?_⟩
    · by_cases hFirst : j = i
      · rw [hFirst, hBefore _ (by omega), hKept _ (Nat.le_refl _), setWord_same]
      · exact hNumbers j (by omega) (by omega)
    · rw [hBefore x (by omega), hKept x (Nat.le_of_lt hx), setWord_other _ _ (by omega)]

theorem createChannel_exec {k : Nat} (hk : k ≤ 63) (sz : Nat) :
    ∃ m, exec (createChannel (2 ^ k)) zeroMemory = some (⟨2 ^ k⟩, m) ∧ Ringed k sz m 0 0 := by
  obtain ⟨m, hExec, hNumbers, hBefore⟩ := initSlots_exec (.done (⟨2 ^ k⟩ : Channel)) (2 ^ k) 0
    (((((zeroMemory.setWord tailAt 0).setWord headAt 0).setWord capacityAt (2 ^ k % 2 ^ 32)).setWord magicAt
      kSHMMagic).setWord stateAt 1)
  have hHeader : ∀ x, x ≤ stateAt → x < slotAt 0 := by
    intro x hx
    simp only [stateAt] at hx
    simp only [slotAt, sizeofSHMHeader]
    omega
  have hHead : m.words headAt = 0 := by rw [hBefore _ (hHeader _ (by decide))]; rfl
  have hTail : m.words tailAt = 0 := by rw [hBefore _ (hHeader _ (by decide))]; rfl
  have hState : m.words stateAt = 1 := by rw [hBefore _ (hHeader _ (Nat.le_refl _))]; rfl
  refine ⟨m, hExec, ?_, by rw [hState]; decide, fun j hj => absurd hj (Nat.not_lt_zero j)⟩
  rw [hHead, hTail]
  exact turns_initial (fun i hi => hNumbers i (zero_le i) (by omega)) hk

variable {k sz h n : Nat} {m : Memory} {x : Nat} (bytes : List UInt8) (start i length : Nat)

def filled (k sz : Nat) (m : Memory) (bytes : List UInt8) : Memory :=
  ((((m.setWord tailAt (wrap (m.words tailAt + 1))).setBytes
    ((⟨2 ^ k⟩ : Channel).arenaAt + cell (2 ^ k) (m.words tailAt) * sz % 2 ^ 32) bytes).setWord
    (offAt (cell (2 ^ k) (m.words tailAt))) (cell (2 ^ k) (m.words tailAt) * sz % 2 ^ 32)).setWord
    (lenAt (cell (2 ^ k) (m.words tailAt))) (sz % 2 ^ 32)).setWord
    (slotAt (cell (2 ^ k) (m.words tailAt))) (wrap (m.words tailAt + 1))

def released (k : Nat) (m : Memory) : Memory :=
  (m.setWord headAt (wrap (m.words headAt + 1))).setWord (slotAt (cell (2 ^ k) (m.words headAt)))
    (wrap (m.words headAt + (2 ^ k - 1) + 1))

theorem filled_bytes : (filled k sz m bytes).getBytes start length =
      (m.setBytes ((⟨2 ^ k⟩ : Channel).arenaAt + cell (2 ^ k) (m.words tailAt) * sz % 2 ^ 32) bytes).getBytes start
        length := rfl

theorem released_bytes : (released k m).getBytes start length = m.getBytes start length := rfl

theorem filled_slots : (fun i => (filled k sz m bytes).words (slotAt i)) =
      update (fun i => m.words (slotAt i)) (cell (2 ^ k) (m.words tailAt)) (wrap (m.words tailAt + 1)) := by
  funext i
  by_cases hi : i = cell (2 ^ k) (m.words tailAt)
  · subst hi
    rw [update_self, filled, setWord_same]
  · have hSlots : ∀ j, slotAt i ≠ offAt j ∧ slotAt i ≠ lenAt j ∧ slotAt i ≠ tailAt := by
      intro j
      simp only [offAt, lenAt, slotAt, tailAt, sizeofSHMHeader, sizeofMetadataSlot]
      omega
    have hOther : slotAt i ≠ slotAt (cell (2 ^ k) (m.words tailAt)) := by
      simp only [slotAt, sizeofSHMHeader, sizeofMetadataSlot]
      omega
    rw [update_of_ne hi, filled, setWord_other _ _ hOther, setWord_other _ _ (hSlots _).2.1,
      setWord_other _ _ (hSlots _).1, setBytes_words, setWord_other _ _ (hSlots 0).2.2]

theorem released_slots : (fun i => (released k m).words (slotAt i)) =
      update (fun i => m.words (slotAt i)) (cell (2 ^ k) (m.words headAt))
        (wrap (m.words headAt + (2 ^ k - 1) + 1)) := by
  funext i
  by_cases hi : i = cell (2 ^ k) (m.words headAt)
  · subst hi
    rw [update_self, released, setWord_same]
  · have hOther : slotAt i ≠ slotAt (cell (2 ^ k) (m.words headAt)) := by
      simp only [slotAt, sizeofSHMHeader, sizeofMetadataSlot]
      omega
    have hHead : slotAt i ≠ headAt := by
      simp only [slotAt, headAt, sizeofSHMHeader]
      omega
    rw [update_of_ne hi, released, setWord_other _ _ hOther, setWord_other _ _ hHead]

theorem header_ne (hx : x ≤ stateAt) (i : Nat) : x ≠ slotAt i ∧ x ≠ offAt i ∧ x ≠ lenAt i := by
  simp only [stateAt] at hx
  simp only [offAt, lenAt, slotAt, sizeofSHMHeader, sizeofMetadataSlot]
  omega

theorem filled_header (hx : x ≤ stateAt) (hTail : x ≠ tailAt) : (filled k sz m bytes).words x = m.words x := by
  obtain ⟨hSlot, hOff, hLen⟩ := header_ne hx (cell (2 ^ k) (m.words tailAt))
  rw [filled, setWord_other _ _ hSlot, setWord_other _ _ hLen, setWord_other _ _ hOff,
    setBytes_words, setWord_other _ _ hTail]

theorem filled_tail : (filled k sz m bytes).words tailAt = wrap (m.words tailAt + 1) := by
  obtain ⟨hSlot, hOff, hLen⟩ := header_ne (x := tailAt) (zero_le _) (cell (2 ^ k) (m.words tailAt))
  rw [filled, setWord_other _ _ hSlot, setWord_other _ _ hLen, setWord_other _ _ hOff, setBytes_words, setWord_same]

theorem released_header (hx : x ≤ stateAt) (hHead : x ≠ headAt) : (released k m).words x = m.words x := by
  rw [released, setWord_other _ _ (header_ne hx _).1, setWord_other _ _ hHead]

theorem released_head : (released k m).words headAt = wrap (m.words headAt + 1) := by
  rw [released, setWord_other _ _ (header_ne (by decide) _).1, setWord_same]

theorem filled_off : (filled k sz m bytes).words (offAt i) =
      if i = cell (2 ^ k) (m.words tailAt) then cell (2 ^ k) (m.words tailAt) * sz % 2 ^ 32 else m.words (offAt i) := by
  have hApart : ∀ j, offAt i ≠ slotAt j ∧ offAt i ≠ lenAt j ∧ offAt i ≠ tailAt := by
    intro j
    simp only [offAt, lenAt, slotAt, tailAt, sizeofSHMHeader, sizeofMetadataSlot]
    omega
  rw [filled, setWord_other _ _ (hApart _).1, setWord_other _ _ (hApart _).2.1]
  split_ifs with hi
  · rw [hi, setWord_same]
  · have hOther : offAt i ≠ offAt (cell (2 ^ k) (m.words tailAt)) := by
      simp only [offAt, slotAt, sizeofSHMHeader, sizeofMetadataSlot]
      omega
    rw [setWord_other _ _ hOther, setBytes_words, setWord_other _ _ (hApart 0).2.2]

theorem released_off : (released k m).words (offAt i) = m.words (offAt i) := by
  have hApart : ∀ j, offAt i ≠ slotAt j ∧ offAt i ≠ headAt := by
    intro j
    simp only [offAt, slotAt, headAt, sizeofSHMHeader, sizeofMetadataSlot]
    omega
  rw [released, setWord_other _ _ (hApart _).1, setWord_other _ _ (hApart 0).2]

theorem Ringed.fill (hRing : Ringed k sz m h n) (hk : k ≤ 63) (hRoom : n < 2 ^ k) (bytes : List UInt8) :
    Ringed k sz (filled k sz m bytes) h (n + 1) := by
  constructor
  case turns =>
    rw [filled_slots, filled_tail, filled_header bytes (by decide) (by decide)]
    exact hRing.turns.push hk hRoom
  case active =>
    rw [filled_header bytes (Nat.le_refl _) (by decide)]
    exact hRing.active
  case offsets =>
    intro j hj
    rw [filled_off]
    split_ifs with hHere
    · rw [hHere]
    · refine hRing.offsets j (Nat.lt_of_le_of_ne (Nat.le_of_lt_succ hj) ?_)
      rintro rfl
      exact hHere (by rw [hRing.turns.tail, cell_wrap hk])

theorem Ringed.release (hRing : Ringed k sz m h n) (hk : k ≤ 63) (hSome : 0 < n) :
    Ringed k sz (released k m) (h + 1) (n - 1) := by
  constructor
  case turns =>
    rw [released_slots, released_head, released_header (by decide) (by decide)]
    exact hRing.turns.pop hk hSome
  case active =>
    rw [released_header (Nat.le_refl _) (by decide)]
    exact hRing.active
  case offsets =>
    intro j hj
    rw [released_off, Nat.add_assoc, Nat.add_comm 1 j]
    exact hRing.offsets (j + 1) (by omega)

theorem trySend_ready (hActive : m.words stateAt % 2 ≠ 0)
    (hReady : diff (m.words (slotAt (cell (2 ^ k) (m.words tailAt)))) (m.words tailAt) = 0) (msg : Message sz)
    (rounds : Nat) : exec (trySend ⟨2 ^ k⟩ msg (rounds + 1)) m = some (true, filled k sz m msg.1) := by
  rw [trySend, exec, if_neg hActive, exec, sendLoop, exec, if_pos hReady, exec, if_pos rfl, Option.elim_none]
  rfl

section

variable (hRing : Ringed k sz m h n) (hk : k ≤ 63)
include hRing hk

theorem Ringed.trySend_room (hRoom : n < 2 ^ k) (msg : Message sz) (rounds : Nat) :
    exec (trySend ⟨2 ^ k⟩ msg (rounds + 1)) m = some (true, filled k sz m msg.1) :=
  trySend_ready hRing.active (hRing.turns.pushReady hk hRoom) msg rounds

theorem Ringed.trySend_full (hTwo : 1 ≤ k) (hFull : n = 2 ^ k) (msg : Message sz) (rounds : Nat) :
    exec (trySend ⟨2 ^ k⟩ msg (rounds + 1)) m = some (false, m) := by
  have hBehind : diff (m.words (slotAt (cell (2 ^ k) (m.words tailAt)))) (m.words tailAt) < 0 :=
    hRing.turns.pushFull hk hTwo hFull
  rw [trySend, exec, if_neg hRing.active, exec, sendLoop, exec, if_neg (Int.ne_of_lt hBehind), if_pos hBehind, exec]

theorem Ringed.tryRecv_empty (hNone : n = 0) (rounds : Nat) :
    exec (tryRecv ⟨2 ^ k⟩ sz (rounds + 1)) m = some (none, m) := by
  have hBehind : diff (m.words (slotAt (cell (2 ^ k) (m.words headAt)))) (wrap (m.words headAt + 1)) < 0 :=
    hRing.turns.popEmpty hk hNone
  rw [tryRecv, exec, recvLoop, exec, if_neg (Int.ne_of_lt hBehind), if_pos hBehind, exec]

/-- A message is read from the offset of its slot, which the check of `tryRecv` lets pass. -/
theorem Ringed.tryRecv_some (hSome : 0 < n) (hArena : 2 ^ k * sz < 2 ^ 64) (rounds : Nat) :
    exec (tryRecv ⟨2 ^ k⟩ sz (rounds + 1)) m =
      some (some (m.getBytes ((⟨2 ^ k⟩ : Channel).arenaAt + h % 2 ^ k * sz % 2 ^ 32) sz), released k m) := by
  have hReady : diff (m.words (slotAt (cell (2 ^ k) (m.words headAt)))) (wrap (m.words headAt + 1)) = 0 :=
    hRing.turns.popReady hk hSome
  have hCell : cell (2 ^ k) (m.words headAt) = h % 2 ^ k := by rw [hRing.turns.head, cell_wrap hk]
  have hOff : (m.setWord headAt (wrap (m.words headAt + 1))).words (offAt (cell (2 ^ k) (m.words headAt))) =
      h % 2 ^ k * sz % 2 ^ 32 := by
    have hApart : offAt (cell (2 ^ k) (m.words headAt)) ≠ headAt := by
      simp only [offAt, slotAt, headAt, sizeofSHMHeader]
      omega
    rw [setWord_other _ _ hApart, hCell]
    exact hRing.offsets 0 hSome
  have hFits : (⟨2 ^ k⟩ : Channel).Fits sz (sizeofSHMHeader + 2 ^ k * sizeofMetadataSlot + 2 ^ k * sz) :=
    ⟨Nat.two_pow_pos k, hArena, Nat.le_refl _⟩
  have hInside : ¬h % 2 ^ k * sz % 2 ^ 32 > wrap ((⟨2 ^ k⟩ : Channel).arenaBytes sz + 2 ^ 64 - sz) := by
    have hBytes : (⟨2 ^ k⟩ : Channel).arenaBytes sz = 2 ^ k * sz := Nat.mod_eq_of_lt hArena
    have hRoom := offset_inside hFits h
    rw [cell_pow] at hRoom
    simp only at hRoom
    rw [hBytes, wrap]
    omega
  rw [tryRecv, exec, recvLoop, exec, if_pos hReady, exec, if_pos rfl, Option.elim_none, readSlot, exec, hOff,
    if_neg hInside]
  rfl

end

end Ring

section Fifo

variable {k sz h : Nat} {m : Memory} {queue : List (List UInt8)}

structure Holds (k sz : Nat) (m : Memory) (h : Nat) (queue : List (List UInt8)) : Prop where
  ring : Ringed k sz m h queue.length
  intact : ∀ j msg, queue[j]? = some msg →
    m.getBytes ((⟨2 ^ k⟩ : Channel).arenaAt + (h + j) % 2 ^ k * sz % 2 ^ 32) sz = msg

/-- Without truncation two cells have disjoint places in the arena. -/
theorem places_apart (hArena : (2 ^ k - 1) * sz < 2 ^ 32) {i j : Nat} (hi : i < 2 ^ k) (hj : j < 2 ^ k) (hNe : i ≠ j) :
    i * sz % 2 ^ 32 + sz ≤ j * sz % 2 ^ 32 ∨ j * sz % 2 ^ 32 + sz ≤ i * sz % 2 ^ 32 := by
  have hBelow : ∀ x, x < 2 ^ k → x * sz % 2 ^ 32 = x * sz := by
    intro x hx
    have hLe : x * sz ≤ (2 ^ k - 1) * sz := Nat.mul_le_mul_right sz (by omega)
    exact Nat.mod_eq_of_lt (Nat.lt_of_le_of_lt hLe hArena)
  have hStep : ∀ x y, x < y → x * sz + sz ≤ y * sz := by
    intro x y hxy
    have hLe : (x + 1) * sz ≤ y * sz := Nat.mul_le_mul_right sz hxy
    rwa [Nat.add_mul, Nat.one_mul] at hLe
  rw [hBelow i hi, hBelow j hj]
  rcases Nat.lt_or_gt_of_ne hNe with hLt | hGt
  · exact .inl (hStep i j hLt)
  · exact .inr (hStep j i hGt)

theorem Holds.fill (hHolds : Holds k sz m h queue) (hk : k ≤ 63) (hArena : (2 ^ k - 1) * sz < 2 ^ 32)
    (hRoom : queue.length < 2 ^ k) (msg : Message sz) : Holds k sz (filled k sz m msg.1) h (queue ++ [msg.1]) := by
  have hCell : cell (2 ^ k) (m.words tailAt) = (h + queue.length) % 2 ^ k := by
    rw [hHolds.ring.turns.tail, cell_wrap hk]
  constructor
  case ring =>
    rw [List.length_append, List.length_singleton]
    exact hHolds.ring.fill hk hRoom msg.1
  case intact =>
    intro j bytes hAt
    rw [filled_bytes, hCell]
    by_cases hOld : j < queue.length
    · rw [List.getElem?_append_left hOld] at hAt
      rw [getBytes_setBytes_apart]
      · exact hHolds.intact j bytes hAt
      · have hPos := Nat.two_pow_pos k
        have hNe : (h + queue.length) % 2 ^ k ≠ (h + j) % 2 ^ k := cell_ne hRoom (by omega) (by omega)
        have hApart := places_apart hArena (mod_lt (h + queue.length) hPos) (mod_lt (h + j) hPos) hNe
        rw [msg.2]
        omega
    · rw [List.getElem?_append_right (Nat.le_of_not_lt hOld), List.getElem?_singleton] at hAt
      split_ifs at hAt with hHere
      obtain rfl : msg.1 = bytes := Option.some.inj hAt
      obtain rfl : j = queue.length := by omega
      have hSame := getBytes_setBytes_same m
        ((⟨2 ^ k⟩ : Channel).arenaAt + (h + queue.length) % 2 ^ k * sz % 2 ^ 32) msg.1
      rwa [msg.2] at hSame

theorem Holds.release {oldest : List UInt8} (hHolds : Holds k sz m h (oldest :: queue)) (hk : k ≤ 63) :
    Holds k sz (released k m) (h + 1) queue := by
  constructor
  case ring =>
    have hRing := hHolds.ring.release hk (Nat.succ_pos queue.length)
    rwa [length_cons, Nat.add_sub_cancel] at hRing
  case intact =>
    intro j bytes hAt
    have hOld := hHolds.intact (j + 1) bytes (by rwa [List.getElem?_cons_succ])
    rwa [released_bytes, Nat.add_assoc, Nat.add_comm 1 j]

theorem answers_eq (hk : k ≤ 63) (hTwo : 1 ≤ k) (hArena : (2 ^ k - 1) * sz < 2 ^ 32) (ops : List (Op sz))
    (hHolds : Holds k sz m h queue) : answers ⟨2 ^ k⟩ 1 ops m = some (queueAnswers (2 ^ k) queue ops) := by
  have hBytes : 2 ^ k * sz < 2 ^ 64 := by
    have hPos := Nat.two_pow_pos k
    have hTop : (2 : Nat) ^ k * sz = (2 ^ k - 1) * sz + sz := by
      rw [← Nat.succ_mul, Nat.succ_eq_add_one, Nat.sub_add_cancel hPos]
    have hOne : sz ≤ (2 ^ k - 1) * sz := Nat.le_mul_of_pos_left sz (by
      have : 2 ≤ 2 ^ k := Nat.le_self_pow (by omega) 2
      omega)
    omega
  induction ops generalizing m h queue with
  | nil => rfl
  | cons op ops ih =>
    cases op with
    | trySend msg =>
      by_cases hRoom : queue.length < 2 ^ k
      · rw [answers, perform, hHolds.ring.trySend_room hk hRoom, map_some, bind_some,
          ih (hHolds.fill hk hArena hRoom msg), map_some, queueAnswers, if_pos hRoom]
      · have hFull : queue.length = 2 ^ k := Nat.le_antisymm hHolds.ring.turns.le (Nat.le_of_not_lt hRoom)
        rw [answers, perform, hHolds.ring.trySend_full hk hTwo hFull, map_some, bind_some, ih hHolds,
          map_some, queueAnswers, if_neg hRoom]
    | tryRecv =>
      cases queue with
      | nil =>
        rw [answers, perform, hHolds.ring.tryRecv_empty hk rfl, map_some, bind_some, ih hHolds, map_some, queueAnswers]
      | cons oldest queue =>
        have hOldest := hHolds.intact 0 oldest rfl
        rw [Nat.add_zero] at hOldest
        rw [answers, perform, hHolds.ring.tryRecv_some hk (Nat.succ_pos _) hBytes, hOldest, map_some,
          bind_some, ih (hHolds.release hk), map_some, queueAnswers]

/-- With two slots and no truncation the channel is a queue. -/
theorem boundedFifo_of (hk : k ≤ 63) (hTwo : 1 ≤ k) (hArena : (2 ^ k - 1) * sz < 2 ^ 32) : BoundedFifo sz (2 ^ k) := by
  refine ⟨1, fun ops => ?_⟩
  obtain ⟨m, hCreate, hRing⟩ := createChannel_exec hk sz
  rw [channelAnswers, hCreate, bind_some]
  exact answers_eq hk hTwo hArena ops ⟨hRing, nofun⟩

theorem answers_sends (hk : k ≤ 63) (rounds : Nat) (msgs : List (Message sz)) (rest : List (Op sz)) {n : Nat}
    (hRing : Ringed k sz m h n) (hRoom : n + msgs.length ≤ 2 ^ k) : ∃ m', Ringed k sz m' h (n + msgs.length) ∧
      answers ⟨2 ^ k⟩ (rounds + 1) (msgs.map .trySend ++ rest) m =
        (answers ⟨2 ^ k⟩ (rounds + 1) rest m').map (replicate msgs.length (.sent true) ++ ·) := by
  induction msgs generalizing m n with
  | nil => exact ⟨m, hRing, by simp⟩
  | cons msg msgs ih =>
    rw [length_cons] at hRoom
    obtain ⟨m', hRing', hAnswers⟩ := ih (hRing.fill hk (by omega) msg.1) (by omega)
    refine ⟨m', by rw [length_cons]; rwa [Nat.add_assoc, Nat.add_comm 1] at hRing', ?_⟩
    rw [map_cons, cons_append, answers, perform, hRing.trySend_room hk (by omega), map_some,
      bind_some, hAnswers, Option.map_map]
    rfl

theorem queueAnswers_sends (cap : Nat) (msgs : List (Message sz)) (rest : List (Op sz))
    (hRoom : queue.length + msgs.length ≤ cap) : queueAnswers cap queue (msgs.map .trySend ++ rest) =
      replicate msgs.length (.sent true) ++ queueAnswers cap (queue ++ msgs.map (·.1)) rest := by
  induction msgs generalizing queue with
  | nil => rw [List.map_nil, List.map_nil, List.append_nil]; rfl
  | cons msg msgs ih =>
    rw [length_cons] at hRoom
    have hRest := @ih (queue ++ [msg.1]) (by rw [List.length_append, List.length_singleton]; omega)
    rw [List.append_assoc] at hRest
    rw [map_cons, cons_append, queueAnswers, if_pos (by omega), hRest]
    rfl

def uniform (sz : Nat) (byte : UInt8) : Message sz := ⟨List.replicate sz byte, List.length_replicate⟩

theorem channelAnswers_spin (hk : k ≤ 63) (msg : Message sz) (ops : List (Op sz)) :
    channelAnswers (2 ^ k) 0 (.trySend msg :: ops) = none := by
  obtain ⟨m, hCreate, hRing⟩ := createChannel_exec hk sz
  have hSpin : exec (trySend ⟨2 ^ k⟩ msg 0) m = none := by
    rw [trySend, exec, if_neg hRing.active, exec, sendLoop, exec]
  rw [channelAnswers, hCreate, bind_some, answers, perform, hSpin, Option.map_none, Option.bind_none]

/-- One slot takes a second message on top of the first. -/
theorem not_boundedFifo_one (sz : Nat) : ¬BoundedFifo sz (2 ^ 0) := by
  rintro ⟨rounds, hAll⟩
  have hAnswers := hAll [.trySend (uniform sz 0), .trySend (uniform sz 0)]
  obtain ⟨m, hCreate, hRing⟩ := createChannel_exec (zero_le 63) sz
  cases rounds with
  | zero =>
    cases hAnswers
  | succ rounds =>
    have hNext : Ringed 0 sz (filled 0 sz m (uniform sz 0).1) 0 1 := hRing.fill (zero_le 63) (by decide) _
    have hTail : (filled 0 sz m (uniform sz 0).1).words tailAt = 1 := hNext.turns.tail
    have hSlot : (filled 0 sz m (uniform sz 0).1).words (slotAt (cell (2 ^ 0) 1)) = 1 :=
      hNext.turns.filled 0 (by decide)
    have hReady : diff ((filled 0 sz m (uniform sz 0).1).words
        (slotAt (cell (2 ^ 0) ((filled 0 sz m (uniform sz 0).1).words tailAt))))
        ((filled 0 sz m (uniform sz 0).1).words tailAt) = 0 := by
      rw [hTail, hSlot]
      decide
    rw [channelAnswers, hCreate, bind_some, answers, perform, hRing.trySend_room (zero_le 63) (by decide),
      map_some, bind_some, answers, perform, trySend_ready hNext.active hReady] at hAnswers
    cases hAnswers

theorem truncated_cell (hSize : 0 < sz) {cap : Nat} (hArena : 2 ^ 32 ≤ (cap - 1) * sz) :
    ∃ j, 0 < j ∧ j < cap ∧ j * sz % 2 ^ 32 < sz := by
  have hDivide := Nat.div_add_mod (2 ^ 32 + sz - 1) sz
  have hRest := mod_lt (2 ^ 32 + sz - 1) hSize
  generalize (2 ^ 32 + sz - 1) / sz = j at hDivide
  rw [Nat.mul_comm] at hDivide
  have hPos : 0 < j := by
    rw [Nat.pos_iff_ne_zero]
    rintro rfl
    omega
  refine ⟨j, hPos, ?_, by omega⟩
  have hLess : j * sz < (cap - 1) * sz + sz := by omega
  rw [← Nat.succ_mul] at hLess
  have hLt := Nat.lt_of_mul_lt_mul_right hLess
  have hCap : cap ≠ 0 := by
    rintro rfl
    omega
  omega

theorem overwritten {j : Nat} (hRing : Ringed k sz m 0 j) (hk : k ≤ 63) (hCell : j < 2 ^ k)
    (hOver : j * sz % 2 ^ 32 < sz) :
    (filled k sz m (uniform sz 1).1).getBytes ((⟨2 ^ k⟩ : Channel).arenaAt + 0 % 2 ^ k * sz % 2 ^ 32) sz ≠
      (uniform sz 0).1 := by
  intro hSame
  have hTail : cell (2 ^ k) (m.words tailAt) = j := by
    rw [hRing.turns.tail, cell_wrap hk, Nat.zero_add, Nat.mod_eq_of_lt hCell]
  have hByte := congrArg (·[j * sz % 2 ^ 32]?) hSame
  have hZero : (uniform sz 0).1[j * sz % 2 ^ 32]? = some 0 := List.getElem?_replicate_of_lt hOver
  have hOne : (uniform sz 1).1.getD 0 0 = 1 := by
    rw [List.getD_eq_getElem?_getD, uniform, List.getElem?_replicate_of_lt (by omega), Option.getD_some]
  rw [filled_bytes, hTail, Nat.zero_mod, Nat.zero_mul, Nat.zero_mod, Nat.add_zero] at hByte
  simp only [hZero, getBytes, List.getElem?_map, List.getElem?_range hOver, map_some, setBytes,
    (uniform sz 1).2, Nat.le_refl, true_and, Nat.sub_self, hOne, Option.some.injEq] at hByte
  rw [if_pos (by omega)] at hByte
  cases hByte

/-- A truncated offset puts a later message over an earlier one. -/
theorem not_boundedFifo_truncated (hk : k ≤ 63) (hSize : 0 < sz) (hBytes : 2 ^ k * sz < 2 ^ 64)
    (hArena : 2 ^ 32 ≤ (2 ^ k - 1) * sz) : ¬BoundedFifo sz (2 ^ k) := by
  rintro ⟨rounds, hAll⟩
  obtain ⟨j, hPos, hLt, hOver⟩ := truncated_cell hSize hArena
  obtain ⟨i, rfl⟩ : ∃ i, j = i + 1 := ⟨j - 1, by omega⟩
  obtain ⟨m, hCreate, hRing⟩ := createChannel_exec hk sz
  have hAnswers := hAll ((uniform sz 0 :: replicate i (uniform sz 1)).map .trySend ++
    [.trySend (uniform sz 1), .tryRecv])
  cases rounds with
  | zero =>
    rw [map_cons, cons_append, channelAnswers_spin hk] at hAnswers
    cases hAnswers
  | succ rounds =>
    have hLength : (uniform sz 0 :: replicate i (uniform sz 1)).length = i + 1 := by
      rw [length_cons, List.length_replicate]
    obtain ⟨m', hRing', hSends⟩ := answers_sends hk rounds (uniform sz 0 :: replicate i (uniform sz 1))
      [.trySend (uniform sz 1), .tryRecv] hRing (by rw [hLength]; omega)
    rw [hLength, Nat.zero_add] at hRing'
    have hNext := hRing'.fill hk hLt (uniform sz 1).1
    rw [channelAnswers, hCreate, bind_some, hSends, answers, perform, hRing'.trySend_room hk hLt,
      map_some, bind_some, answers, perform, hNext.tryRecv_some hk (by omega) hBytes, map_some,
      bind_some, answers, queueAnswers_sends _ _ _ (by rw [hLength, List.length_nil]; omega)] at hAnswers
    have hTails := List.append_cancel_left (Option.some.inj hAnswers)
    rw [List.nil_append, map_cons, queueAnswers, if_pos (by simp; omega)] at hTails
    simp only [cons_append, queueAnswers, List.cons.injEq, Answer.received.injEq, Option.some.injEq] at hTails
    exact overwritten hRing' hk hLt hOver hTails.2.1

/-- A new channel is a queue of bounded length exactly if it has at least two slots and no offset
into its arena is truncated. -/
theorem boundedFifo_iff {requested cap : Nat} (hCap : createCapacity requested = some cap) (hSize : 0 < sz)
    (hFits : sizeofSHMHeader + cap * sizeofMetadataSlot + cap * sz ≤ calcSegmentSize cap sz) :
    BoundedFifo sz cap ↔ 2 ≤ cap ∧ (cap - 1) * sz < 2 ^ 32 := by
  obtain ⟨k, hk, rfl, -⟩ := roundUp_some (k := 0) (zero_le 63) hCap
  have hBytes : 2 ^ k * sz < 2 ^ 64 := by
    have hSegment : calcSegmentSize (2 ^ k) sz < 2 ^ 64 :=
      Nat.lt_of_le_of_lt (Nat.div_mul_le_self _ _) (mod_lt _ (by decide))
    omega
  constructor
  · intro hFifo
    constructor
    · by_contra hOne
      have hZero : k = 0 := by
        by_contra hNot
        exact hOne (Nat.le_self_pow hNot 2)
      subst hZero
      exact not_boundedFifo_one sz hFifo
    · by_contra hOver
      exact not_boundedFifo_truncated hk hSize hBytes (Nat.le_of_not_lt hOver) hFifo
  · rintro ⟨hTwo, hArena⟩
    refine boundedFifo_of hk ?_ hArena
    by_contra hNot
    obtain rfl : k = 0 := by omega
    exact absurd hTwo (by decide)

/-- A request for three messages of eight bytes gets a queue of four. -/
theorem boundedFifo_iff_three : createCapacity 3 = some 4 ∧ BoundedFifo 8 4 :=
  ⟨by decide, (boundedFifo_iff (show createCapacity 3 = some 4 by decide) (by decide) (by decide)).mpr (by decide)⟩

/-- A request for no message or for one gets a single slot. It takes a second message on top of the
first, and then a receiver never comes to an end. -/
theorem boundedFifo_single : createCapacity 0 = some 1 ∧ createCapacity 1 = some 1 ∧
      channelAnswers 1 1 [.trySend (⟨[7], rfl⟩ : Message 1), .trySend ⟨[8], rfl⟩] = some [.sent true, .sent true] ∧
      channelAnswers 1 100 [.trySend (⟨[7], rfl⟩ : Message 1), .trySend ⟨[8], rfl⟩, .tryRecv] = none ∧
      ¬BoundedFifo 1 1 :=
  ⟨by decide, by decide, by decide, by decide +kernel, not_boundedFifo_one 1⟩

end Fifo

end Shm
