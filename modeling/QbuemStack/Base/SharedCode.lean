import Mathlib.Algebra.Ring.Nat

/-! Code that works on shared memory, as a tree of accesses. Against a memory that nobody else
writes it is run; against a hostile memory, whose answers are arbitrary, it has the ranges it may
touch and the results it may return. -/
namespace SharedCode

structure Range where
  start : Nat
  length : Nat

/-- A loop is unrolled for a number of rounds; `spin` stands where they are used up. -/
inductive Code (ρ : Type) where
  | done (result : ρ)
  | spin
  | load (start width : Nat) (next : Nat → Code ρ)
  | store (start width value : Nat) (next : Code ρ)
  | modify (start width : Nat) (change : Nat → Nat) (next : Code ρ)
  | exchange (start width expected desired : Nat) (next : Option Nat → Code ρ)
  | copyOut (start length : Nat) (next : List UInt8 → Code ρ)
  | copyIn (start : Nat) (bytes : List UInt8) (next : Code ρ)

variable {ρ : Type}

section Hostile

def Code.range : Code ρ → Option Range
  | .done _ => none
  | .spin => none
  | .load start width _ => some ⟨start, width⟩
  | .store start width _ _ => some ⟨start, width⟩
  | .modify start width _ _ => some ⟨start, width⟩
  | .exchange start width _ _ _ => some ⟨start, width⟩
  | .copyOut start length _ => some ⟨start, length⟩
  | .copyIn start bytes _ => some ⟨start, bytes.length⟩

inductive Follows : Code ρ → Code ρ → Prop where
  | load {start width : Nat} {next : Nat → Code ρ} (value : Nat) : Follows (.load start width next) (next value)
  | store {start width value : Nat} {next : Code ρ} : Follows (.store start width value next) next
  | modify {start width : Nat} {change : Nat → Nat} {next : Code ρ} : Follows (.modify start width change next) next
  | exchange {start width expected desired : Nat} {next : Option Nat → Code ρ} (found : Option Nat) :
      Follows (.exchange start width expected desired next) (next found)
  | copyOut {start length : Nat} {next : List UInt8 → Code ρ} (bytes : List UInt8) :
      Follows (.copyOut start length next) (next bytes)
  | copyIn {start : Nat} {bytes : List UInt8} {next : Code ρ} : Follows (.copyIn start bytes next) next

inductive Touches : Code ρ → Range → Prop where
  | here {code : Code ρ} {range : Range} (hRange : code.range = some range) : Touches code range
  | later {code next : Code ρ} {range : Range} (hNext : Follows code next) (hLater : Touches next range) :
      Touches code range

inductive Returns : Code ρ → ρ → Prop where
  | done (result : ρ) : Returns (.done result) result
  | later {code next : Code ρ} {result : ρ} (hNext : Follows code next) (hLater : Returns next result) :
      Returns code result

def Inside (size : Nat) (code : Code ρ) : Prop := ∀ range, Touches code range → range.start + range.length ≤ size

section Rules

variable {size start width length : Nat}

/-- The rule for one access: its own range, and whatever follows. -/
theorem inside_step {code : Code ρ} (hHere : ∀ range, code.range = some range → range.start + range.length ≤ size)
    (hNext : ∀ next, Follows code next → Inside size next) : Inside size code := by
  intro range hTouches
  cases hTouches with
  | here hRange => exact hHere range hRange
  | later hFollows hLater => exact hNext _ hFollows range hLater

theorem inside_access {code : Code ρ} (hRange : code.range = some ⟨start, width⟩) (hHere : start + width ≤ size)
    (hNext : ∀ next, Follows code next → Inside size next) : Inside size code :=
  inside_step (fun _ h => Option.some.inj (hRange.symm.trans h) ▸ hHere) hNext

theorem inside_done (result : ρ) : Inside size (.done result) :=
  inside_step (fun range h => by cases h) fun next h => by cases h

theorem inside_spin : Inside size (.spin : Code ρ) :=
  inside_step (fun range h => by cases h) fun next h => by cases h

section

variable (hHere : start + width ≤ size)
include hHere

theorem inside_load {next : Nat → Code ρ} (hNext : ∀ value, Inside size (next value)) :
    Inside size (.load start width next) := by
  refine inside_access rfl hHere fun code hFollows => ?_
  cases hFollows with
  | load value => exact hNext value

theorem inside_store {value : Nat} {next : Code ρ} (hNext : Inside size next) :
    Inside size (.store start width value next) := by
  refine inside_access rfl hHere fun code hFollows => ?_
  cases hFollows
  exact hNext

theorem inside_modify {change : Nat → Nat} {next : Code ρ} (hNext : Inside size next) :
    Inside size (.modify start width change next) := by
  refine inside_access rfl hHere fun code hFollows => ?_
  cases hFollows
  exact hNext

theorem inside_exchange {expected desired : Nat} {next : Option Nat → Code ρ} (hNone : Inside size (next none))
    (hSome : ∀ found, Inside size (next (some found))) : Inside size (.exchange start width expected desired next) := by
  refine inside_access rfl hHere fun code hFollows => ?_
  cases hFollows with
  | exchange found => cases found with
    | none => exact hNone
    | some found => exact hSome found

end

theorem inside_copyOut {next : List UInt8 → Code ρ} (hHere : start + length ≤ size)
    (hNext : ∀ bytes, Inside size (next bytes)) : Inside size (.copyOut start length next) := by
  refine inside_access rfl hHere fun code hFollows => ?_
  cases hFollows with
  | copyOut bytes => exact hNext bytes

theorem inside_copyIn {bytes : List UInt8} {next : Code ρ} (hHere : start + bytes.length ≤ size)
    (hNext : Inside size next) : Inside size (.copyIn start bytes next) := by
  refine inside_access rfl hHere fun code hFollows => ?_
  cases hFollows
  exact hNext

theorem returns_done {result value : ρ} : Returns (.done value) result ↔ value = result := by
  constructor
  · intro h
    cases h with
    | done => rfl
    | later hNext _ => cases hNext
  · rintro rfl
    exact .done value

theorem returns_load {next : Nat → Code ρ} {result : ρ} :
    Returns (.load start width next) result ↔ ∃ value, Returns (next value) result := by
  constructor
  · intro h
    cases h with
    | later hNext hLater => cases hNext with
      | load value => exact ⟨value, hLater⟩
  · rintro ⟨value, h⟩
    exact .later (.load value) h

end Rules

end Hostile

section Private

structure Memory where
  words : Nat → Nat
  bytes : Nat → UInt8

namespace Memory

section

variable (m : Memory) (start value : Nat) (bytes : List UInt8)

def setWord (m : Memory) (at_ value : Nat) : Memory :=
  { m with words := fun x => if x = at_ then value else m.words x }

def setBytes (m : Memory) (start : Nat) (bytes : List UInt8) : Memory :=
  { m with bytes := fun x => if start ≤ x ∧ x < start + bytes.length then bytes.getD (x - start) 0 else m.bytes x }

def getBytes (m : Memory) (start length : Nat) : List UInt8 := (List.range length).map fun i => m.bytes (start + i)

@[simp] theorem setWord_same (at_ value : Nat) : (m.setWord at_ value).words at_ = value := by
  simp [setWord]

theorem setWord_other {at_ x : Nat} (hx : x ≠ at_) : (m.setWord at_ value).words x = m.words x := by
  simp [setWord, hx]

@[simp] theorem setBytes_words : (m.setBytes start bytes).words = m.words := rfl

theorem getBytes_setBytes_same : (m.setBytes start bytes).getBytes start bytes.length = bytes := by
  apply List.ext_getElem
  · simp [getBytes]
  · intro i hi hi'
    simp [getBytes, setBytes, hi', List.getD_eq_getElem?_getD]

theorem getBytes_setBytes_apart {start start' length : Nat}
    (hApart : start' + length ≤ start ∨ start + bytes.length ≤ start') :
    (m.setBytes start bytes).getBytes start' length = m.getBytes start' length := by
  refine List.map_congr_left fun i hi => ?_
  rw [List.mem_range] at hi
  exact if_neg (by omega)

end

end Memory

def exec : Code ρ → Memory → Option (ρ × Memory)
  | .done result, m => some (result, m)
  | .spin, _ => none
  | .load start _ next, m => exec (next (m.words start)) m
  | .store start _ value next, m => exec next (m.setWord start value)
  | .modify start _ change next, m => exec next (m.setWord start (change (m.words start)))
  | .exchange start _ expected desired next, m =>
    if m.words start = expected then exec (next none) (m.setWord start desired)
    else exec (next (some (m.words start))) m
  | .copyOut start length next, m => exec (next (m.getBytes start length)) m
  | .copyIn start bytes next, m => exec next (m.setBytes start bytes)

end Private

end SharedCode
