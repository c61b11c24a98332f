import Mathlib.Data.Set.Card
import Mathlib.Order.Interval.Finset.Nat
import Mathlib.Tactic.Ring
import QbuemStack.Base.SignedInts

/-! The loop of fixed timesteps. A tick is due when its deadline has come and it has not been fired. -/

structure TickInfo where
  index : Nat
  latenessNs : Nat
  isCatchup : Bool
deriving DecidableEq

structure TickConfig where
  interval : Int := 100000000
  maxCatchup : UInt32 := 8

structure TickLoop where
  maxCatchup : UInt32
  interval : Int
  positive : 0 < interval
  nextDeadline : Int
  tick : Nat
  started : Bool
  ticks : Nat
  catchups : Nat
  backlogEvents : Nat
  maxLatenessNs : Nat

namespace TickLoop

open SignedInts

section Model

theorem clamped_positive (interval : Int) : 0 < if interval ≤ 0 then 1 else interval := by
  split_ifs with hNot
  · exact Int.one_pos
  · exact Int.not_le.mp hNot

def new (cfg : TickConfig) : TickLoop where
  maxCatchup := cfg.maxCatchup
  interval := if cfg.interval ≤ 0 then 1 else cfg.interval
  positive := clamped_positive cfg.interval
  nextDeadline := 0
  tick := 0
  started := false
  ticks := 0
  catchups := 0
  backlogEvents := 0
  maxLatenessNs := 0

def fire (now : Int) : Nat → Nat → TickLoop → Option (List TickInfo × TickLoop)
  | 0, _, s => some ([], s)
  | left + 1, fired, s =>
    if now < s.nextDeadline then some ([], s)
    else (checked (now - s.nextDeadline)).bind fun lateness =>
      (checked (s.nextDeadline + s.interval)).bind fun deadline =>
        (fire now left (fired + 1) { s with
          maxLatenessNs := max s.maxLatenessNs lateness.toNat
          tick := (s.tick + 1) % 18446744073709551616
          catchups := if fired = 0 then s.catchups else s.catchups + 1
          nextDeadline := deadline }).map fun out =>
            (⟨s.tick, lateness.toNat, decide (0 < fired)⟩ :: out.1, out.2)

def advance (now : Int64) (s : TickLoop) : Option (List TickInfo × TickLoop) :=
  if s.started then
    (fire now.toInt (s.maxCatchup + 1).toNat 0 s).map fun out =>
      (out.1, { out.2 with
        ticks := out.2.tick
        backlogEvents := if now.toInt < out.2.nextDeadline then out.2.backlogEvents else out.2.backlogEvents + 1 })
  else (checked (now.toInt + s.interval)).map fun deadline => ([], { s with nextDeadline := deadline, started := true })

def behind (now : Int64) (s : TickLoop) : Option Nat :=
  if s.started = false ∨ now.toInt < s.nextDeadline then some 0
  else (checked (now.toInt - s.nextDeadline)).map fun late => late.toNat / s.interval.toNat + 1

end Model

section Ticks

/-- The ticks from `n` on whose deadline has come at `t`, for a loop that was started at `t0`. -/
def dueTicks (t0 interval : Int) (n : Nat) (t : Int) : Set Nat := {i | n ≤ i ∧ t0 + (i + 1) * interval ≤ t}

noncomputable def due (t0 interval : Int) (n : Nat) (t : Int) : Nat := (dueTicks t0 interval n t).ncard

variable {t0 interval t : Int} {n : Nat}

theorem deadline_le_iff (hPos : 0 < interval) : t0 + (n + 1) * interval ≤ t ↔ n < ((t - t0) / interval).toNat := by
  have hDiv : (n + 1 : Int) ≤ (t - t0) / interval ↔ (n + 1) * interval ≤ t - t0 := Int.le_ediv_iff_mul_le hPos
  constructor
  · intro hLe
    have hQuotient := hDiv.mpr (by omega)
    omega
  · intro hLt
    have hProduct := hDiv.mp (by omega)
    omega

theorem due_eq (hPos : 0 < interval) : due t0 interval n t = ((t - t0) / interval).toNat - n := by
  have hInterval : dueTicks t0 interval n t = Finset.Ico n ((t - t0) / interval).toNat := by
    ext i
    rw [Finset.coe_Ico, Set.mem_Ico]
    exact and_congr_right fun _ => deadline_le_iff hPos
  rw [due, hInterval, Set.ncard_coe_finset, Nat.card_Ico]

end Ticks

section Loop

variable {t0 now : Int} {s : TickLoop} {m left fired : Nat} {out : List TickInfo × TickLoop}

def passed (t0 now : Int) (s : TickLoop) : Nat := ((now - t0) / s.interval).toNat

structure Fired (t0 : Int) (m : Nat) (s : TickLoop) (out : List TickInfo × TickLoop) : Prop where
  indices : out.1.map TickInfo.index = List.range' s.tick m
  tick : out.2.tick = s.tick + m
  deadline : out.2.nextDeadline = t0 + (s.tick + m + 1) * s.interval
  interval : out.2.interval = s.interval
  maxCatchup : out.2.maxCatchup = s.maxCatchup
  started : out.2.started = s.started

def Fits (t0 now : Int) (s : TickLoop) (m : Nat) : Prop :=
  0 < m → now - (t0 + (s.tick + 1) * s.interval) ≤ maxInt64 ∧
    t0 + (s.tick + m + 1) * s.interval ≤ maxInt64

theorem Fired.zero (hDeadline : s.nextDeadline = t0 + (s.tick + 1) * s.interval) : Fired t0 0 s ([], s) where
  indices := rfl
  tick := rfl
  deadline := by
    rw [hDeadline, Int.natCast_zero, Int.add_zero]
  interval := rfl
  maxCatchup := rfl
  started := rfl

def ticked (s : TickLoop) (fired : Nat) (lateness deadline : Int) : TickLoop :=
  { s with
    maxLatenessNs := max s.maxLatenessNs lateness.toNat
    tick := (s.tick + 1) % 18446744073709551616
    catchups := if fired = 0 then s.catchups else s.catchups + 1
    nextDeadline := deadline }

theorem Fired.succ (hTick : s.tick + 1 < 18446744073709551616) {lateness deadline : Int}
    (hRest : Fired t0 m (ticked s fired lateness deadline) out) :
    Fired t0 (m + 1) s (⟨s.tick, lateness.toNat, decide (0 < fired)⟩ :: out.1, out.2) := by
  have hNext : (ticked s fired lateness deadline).tick = s.tick + 1 := Nat.mod_eq_of_lt hTick
  refine { hRest with indices := ?indices, tick := ?tick, deadline := ?deadline }
  case indices =>
    rw [List.map_cons, hRest.indices, hNext, List.range'_succ]
  case tick =>
    rw [hRest.tick, hNext]
    omega
  case deadline =>
    rw [hRest.deadline, hNext]
    have hCast : ((s.tick + 1 : Nat) : Int) + m + 1 = s.tick + (m + 1 : Nat) + 1 := by omega
    rw [hCast]
    rfl

theorem fire_succ (hLate : s.nextDeadline ≤ now) : fire now (left + 1) fired s = some out ↔
    now - s.nextDeadline ≤ maxInt64 ∧ minInt64 ≤ s.nextDeadline + s.interval ∧ s.nextDeadline + s.interval ≤ maxInt64 ∧
        ∃ rest, fire now left (fired + 1)
          (ticked s fired (now - s.nextDeadline) (s.nextDeadline + s.interval)) = some rest ∧
          out = (⟨s.tick, (now - s.nextDeadline).toNat, decide (0 < fired)⟩ :: rest.1, rest.2) := by
  rw [fire, if_neg (Int.not_lt.mpr hLate), Option.bind_eq_some_iff]
  constructor
  · rintro ⟨lateness, hLateness, hFire⟩
    obtain ⟨rfl, -, hBound⟩ := checked_eq_some.mp hLateness
    obtain ⟨deadline, hDeadline, hFire⟩ := Option.bind_eq_some_iff.mp hFire
    obtain ⟨rfl, hLow, hHigh⟩ := checked_eq_some.mp hDeadline
    obtain ⟨rest, hRest, rfl⟩ := Option.map_eq_some_iff.mp hFire
    exact ⟨hBound, hLow, hHigh, rest, hRest, rfl⟩
  · rintro ⟨hBound, hLow, hHigh, rest, hRest, rfl⟩
    refine ⟨now - s.nextDeadline, checked_eq_some.mpr ⟨rfl, minInt64_le_of_nonneg (by omega), hBound⟩, ?_⟩
    rw [checked_eq_some.mpr ⟨rfl, hLow, hHigh⟩, Option.bind_some]
    exact Option.map_eq_some_iff.mpr ⟨rest, hRest, rfl⟩

variable (hDeadline : s.nextDeadline = t0 + (s.tick + 1) * s.interval)
include hDeadline

theorem fits_succ (hTick : s.tick + 1 < 18446744073709551616) {lateness : Int} : Fits t0 now s (m + 1) ↔
      now - s.nextDeadline ≤ maxInt64 ∧ s.nextDeadline + s.interval ≤ maxInt64 ∧
        Fits t0 now (ticked s fired lateness (s.nextDeadline + s.interval)) m := by
  have hNext : (ticked s fired lateness (s.nextDeadline + s.interval)).tick = s.tick + 1 := Nat.mod_eq_of_lt hTick
  have hInterval : (ticked s fired lateness (s.nextDeadline + s.interval)).interval = s.interval := rfl
  have hPositive := s.positive
  have hOne : ((s.tick + 1 : Nat) + 1 : Int) * s.interval = (s.tick + 1) * s.interval + s.interval := by
    push_cast
    ring
  have hLast : (s.tick + (m + 1 : Nat) + 1 : Int) * s.interval =
      (s.tick + 1) * s.interval + s.interval + m * s.interval := by
    push_cast
    ring
  have hRest : ((s.tick + 1 : Nat) + m + 1 : Int) * s.interval =
      (s.tick + 1) * s.interval + s.interval + m * s.interval := by
    push_cast
    ring
  have hMore : 0 ≤ (m : Int) * s.interval := Int.mul_nonneg (Int.natCast_nonneg m) (Int.le_of_lt hPositive)
  simp only [Fits, hNext, hInterval, hOne, hLast, hRest]
  constructor
  · intro hAll
    obtain ⟨hLate, hEnd⟩ := hAll (Nat.succ_pos m)
    refine ⟨by omega, by omega, fun _ => ⟨by omega, by omega⟩⟩
  · rintro ⟨hLate, hFirst, hOthers⟩ -
    refine ⟨by omega, ?_⟩
    rcases Nat.eq_zero_or_pos m with rfl | hPos
    · rw [Int.natCast_zero, Int.zero_mul]
      omega
    · exact (hOthers hPos).2

theorem fire_stop (hStop : fire now left fired s = some ([], s)) :
    (∀ out, fire now left fired s = some out → Fired t0 0 s out) ∧
      ((∃ out, fire now left fired s = some out) ↔ Fits t0 now s 0) := by
  rw [hStop]
  constructor
  · intro out hFire
    cases hFire
    exact Fired.zero hDeadline
  · exact ⟨fun _ hPos => absurd hPos (Nat.lt_irrefl 0), fun _ => ⟨_, rfl⟩⟩

/-- The loop fires what is due as far as the budget goes, if the times it computes fit; otherwise it
is undefined. -/
theorem fire_spec (hStart : minInt64 ≤ t0) (hPassed : passed t0 now s < 18446744073709551616) :
    (∀ out, fire now left fired s = some out → Fired t0 (min (passed t0 now s - s.tick) left) s out) ∧
      ((∃ out, fire now left fired s = some out) ↔ Fits t0 now s (min (passed t0 now s - s.tick) left)) := by
  induction left generalizing s fired with
  | zero =>
    rw [Nat.min_zero]
    exact fire_stop hDeadline rfl
  | succ left ih =>
    have hDue : t0 + (s.tick + 1) * s.interval ≤ now ↔ s.tick < passed t0 now s := deadline_le_iff s.positive
    rw [← hDeadline] at hDue
    by_cases hEarly : now < s.nextDeadline
    · have hNone : min (passed t0 now s - s.tick) (left + 1) = 0 := by
        have hNot := mt hDue.mpr (Int.not_le.mpr hEarly)
        omega
      have hStop : fire now (left + 1) fired s = some ([], s) := by
        rw [fire, if_pos hEarly]
      rw [hNone]
      exact fire_stop hDeadline hStop
    · have hLate := hDue.mp (Int.not_lt.mp hEarly)
      have hTick : s.tick + 1 < 18446744073709551616 := by omega
      have hCount : min (passed t0 now s - s.tick) (left + 1) =
          min (passed t0 now s - (s.tick + 1)) left + 1 := by omega
      set after := ticked s fired (now - s.nextDeadline) (s.nextDeadline + s.interval)
      have hNext : after.tick = s.tick + 1 := Nat.mod_eq_of_lt hTick
      have hLow : minInt64 ≤ s.nextDeadline + s.interval := by
        have hProduct : 0 ≤ (s.tick + 1 : Int) * s.interval := Int.mul_nonneg (by omega) (Int.le_of_lt s.positive)
        have hPositive := s.positive
        omega
      have hAfter : after.nextDeadline = t0 + (after.tick + 1) * s.interval := by
        change s.nextDeadline + s.interval = _
        rw [hNext, hDeadline]
        push_cast
        ring
      have hThen := @ih after (fired + 1) hAfter hPassed
      rw [hNext] at hThen
      rw [hCount, fits_succ hDeadline hTick]
      constructor
      · intro out hFire
        obtain ⟨-, -, -, rest, hRest, rfl⟩ := (fire_succ (Int.not_lt.mp hEarly)).mp hFire
        exact Fired.succ hTick (hThen.1 rest hRest)
      · constructor
        · rintro ⟨out, hFire⟩
          obtain ⟨hBound, -, hHigh, rest, hRest, -⟩ := (fire_succ (Int.not_lt.mp hEarly)).mp hFire
          exact ⟨hBound, hHigh, hThen.2.mp ⟨rest, hRest⟩⟩
        · rintro ⟨hBound, hHigh, hOthers⟩
          obtain ⟨rest, hRest⟩ := hThen.2.mpr hOthers
          exact ⟨_, (fire_succ (Int.not_lt.mp hEarly)).mpr ⟨hBound, hLow, hHigh, rest, hRest, rfl⟩⟩

end Loop

section Calls

variable {t0 t : Int64} {s : TickLoop} {out : List TickInfo × TickLoop}

structure CallExact (t0 t : Int64) (s : TickLoop) (out : List TickInfo × TickLoop) : Prop where
  indices : out.1.map TickInfo.index = List.range' s.tick out.1.length
  tick : out.2.tick = s.tick + out.1.length
  deadline : out.2.nextDeadline = t0.toInt + (out.2.tick + 1) * s.interval
  fired : out.1.length = min (due t0.toInt s.interval s.tick t.toInt) (s.maxCatchup.toNat + 1)
  behind : behind t out.2 = some (due t0.toInt s.interval s.tick t.toInt - out.1.length)

structure Ready (t0 : Int64) (s : TickLoop) : Prop where
  started : s.started = true
  deadline : s.nextDeadline = t0.toInt + (s.tick + 1) * s.interval

/-- The budget is not zero and the times that the due ticks need fit. -/
def Manageable (t0 t : Int64) (interval : Int) (maxCatchup : UInt32) (n : Nat) : Prop :=
  0 < due t0.toInt interval n t.toInt → maxCatchup ≠ 4294967295 ∧
    t.toInt - (t0.toInt + (n + 1) * interval) ≤ maxInt64 ∧
      t0.toInt + (n + min (due t0.toInt interval n t.toInt) (maxCatchup.toNat + 1) + 1) * interval ≤ maxInt64

theorem passed_lt (t0 t : Int64) (s : TickLoop) : passed t0.toInt t.toInt s < 18446744073709551616 := by
  have hLow := t0.le_toInt
  have hHigh := t.toInt_lt
  have hQuotient : (t.toInt - t0.toInt) / s.interval ≤ max 0 (t.toInt - t0.toInt) := by
    rcases Int.le_total 0 (t.toInt - t0.toInt) with hForward | hBackward
    · have hLe := Int.ediv_le_self s.interval hForward
      omega
    · have hLe : (t.toInt - t0.toInt) / s.interval ≤ 0 := by
        have hMono := Int.ediv_le_ediv s.positive hBackward
        rwa [Int.zero_ediv] at hMono
      omega
  rw [passed]
  omega

theorem budget_eq (maxCatchup : UInt32) :
    (maxCatchup + 1).toNat = if maxCatchup = 4294967295 then 0 else maxCatchup.toNat + 1 := by
  have hAdd : (maxCatchup + 1).toNat = (maxCatchup.toNat + 1) % 4294967296 := UInt32.toNat_add maxCatchup 1
  have hLt := maxCatchup.toNat_lt
  split_ifs with hMax
  · rw [hAdd, hMax]
    rfl
  · have hNe : maxCatchup.toNat ≠ 4294967295 := fun hEq => hMax (UInt32.toNat_inj.mp hEq)
    rw [hAdd]
    omega

theorem behind_eq (hReady : Ready t0 s)
    (hFits : s.tick < passed t0.toInt t.toInt s → t.toInt - s.nextDeadline ≤ maxInt64) :
    behind t s = some (passed t0.toInt t.toInt s - s.tick) := by
  have hDue : t0.toInt + (s.tick + 1) * s.interval ≤ t.toInt ↔ s.tick < passed t0.toInt t.toInt s :=
    deadline_le_iff s.positive
  rw [← hReady.deadline] at hDue
  rw [behind, hReady.started]
  by_cases hEarly : t.toInt < s.nextDeadline
  · have hNot := mt hDue.mpr (Int.not_le.mpr hEarly)
    rw [if_pos (.inr hEarly)]
    congr 1
    omega
  · have hLate := hDue.mp (Int.not_lt.mp hEarly)
    have hSome : checked (t.toInt - s.nextDeadline) = some (t.toInt - s.nextDeadline) :=
      checked_eq_some.mpr ⟨rfl, minInt64_le_of_nonneg (by omega), hFits hLate⟩
    rw [if_neg (by simp [hEarly]), hSome, Option.map_some]
    congr 1
    have hQuotient : (t.toInt - s.nextDeadline) / s.interval = (t.toInt - t0.toInt) / s.interval - (s.tick + 1) := by
      rw [hReady.deadline, ← Int.sub_sub, Int.sub_mul_ediv_right _ _ (Int.ne_of_gt s.positive)]
    have hNat : (((t.toInt - s.nextDeadline).toNat / s.interval.toNat : Nat) : Int) =
        (t.toInt - s.nextDeadline) / s.interval := by
      rw [Int.natCast_ediv, Int.toNat_of_nonneg (by omega), Int.toNat_of_nonneg (Int.le_of_lt s.positive)]
    rw [hQuotient] at hNat
    rw [passed] at hLate ⊢
    omega

theorem advance_started (hStarted : s.started = true) : advance t s = some out ↔
    ∃ rest, fire t.toInt (s.maxCatchup + 1).toNat 0 s = some rest ∧ out = (rest.1, { rest.2 with
      ticks := rest.2.tick
      backlogEvents := if t.toInt < rest.2.nextDeadline then rest.2.backlogEvents else rest.2.backlogEvents + 1 }) := by
  rw [advance, if_pos hStarted, Option.map_eq_some_iff]
  simp only [eq_comm]

theorem Fired.length_eq {a : Int} {m : Nat} (hFired : Fired a m s out) : out.1.length = m := by
  have hLength := congrArg List.length hFired.indices
  rwa [List.length_map, List.length_range'] at hLength

theorem Ready.advance (hReady : Ready t0 s) (hAdvance : advance t s = some out) :
    Ready t0 out.2 ∧ out.2.interval = s.interval ∧ out.2.maxCatchup = s.maxCatchup := by
  obtain ⟨rest, hFire, rfl⟩ := (advance_started hReady.started).mp hAdvance
  have hFired := (fire_spec hReady.deadline t0.le_toInt (passed_lt t0 t s)).1 rest hFire
  refine ⟨⟨hFired.started.trans hReady.started, ?_⟩, hFired.interval, hFired.maxCatchup⟩
  change rest.2.nextDeadline = t0.toInt + (rest.2.tick + 1) * rest.2.interval
  rw [hFired.deadline, hFired.tick, hFired.interval, Int.natCast_add]

theorem callExact_iff (hReady : Ready t0 s) :
    (∃ out, advance t s = some out ∧ CallExact t0 t s out) ↔ Manageable t0 t s.interval s.maxCatchup s.tick := by
  obtain ⟨hOutcome, hDefined⟩ : (∀ out, fire t.toInt (s.maxCatchup + 1).toNat 0 s = some out → _) ∧ _ :=
    fire_spec hReady.deadline t0.le_toInt (passed_lt t0 t s)
  have hCount : due t0.toInt s.interval s.tick t.toInt = passed t0.toInt t.toInt s - s.tick := due_eq s.positive
  have hBudget := budget_eq s.maxCatchup
  constructor
  · rintro ⟨out, hAdvance, hExact⟩ hDue
    obtain ⟨rest, hFire, rfl⟩ := (advance_started hReady.started).mp hAdvance
    have hLength := (hOutcome rest hFire).length_eq
    have hFits := hDefined.mp ⟨rest, hFire⟩
    have hFired := hExact.fired
    rw [hCount] at hDue hFired
    rw [hCount]
    change rest.1.length = _ at hFired
    split_ifs at hBudget with hMax
    · rw [hBudget, Nat.min_zero] at hLength
      omega
    · rw [hBudget] at hFits
      exact ⟨hMax, hFits (by omega)⟩
  · intro hManageable
    rw [Manageable, hCount] at hManageable
    have hSame : min (passed t0.toInt t.toInt s - s.tick) (s.maxCatchup + 1).toNat =
        min (passed t0.toInt t.toInt s - s.tick) (s.maxCatchup.toNat + 1) := by
      rcases Nat.eq_zero_or_pos (passed t0.toInt t.toInt s - s.tick) with hNone | hSome
      · rw [hNone, Nat.zero_min, Nat.zero_min]
      · rw [hBudget, if_neg (hManageable hSome).1]
    rw [hSame] at hOutcome hDefined
    obtain ⟨rest, hFire⟩ := hDefined.mpr fun hPos => (hManageable (by omega)).2
    have hFired := hOutcome rest hFire
    have hAdvance := (advance_started hReady.started).mpr ⟨rest, hFire, rfl⟩
    obtain ⟨hAfter, hInterval, -⟩ := hReady.advance hAdvance
    refine ⟨_, hAdvance, ?_⟩
    constructor
    case indices =>
      rw [hFired.length_eq]
      exact hFired.indices
    case tick =>
      rw [hFired.length_eq]
      exact hFired.tick
    case deadline =>
      rw [← hInterval]
      exact hAfter.deadline
    case fired =>
      rw [hCount]
      exact hFired.length_eq
    case behind =>
      have hPassed : passed t0.toInt t.toInt rest.2 = passed t0.toInt t.toInt s := by
        rw [passed, hFired.interval, passed]
      rw [behind_eq hAfter, hCount, hFired.length_eq]
      · change some (passed t0.toInt t.toInt rest.2 - rest.2.tick) = _
        rw [hPassed, hFired.tick]
        congr 1
        omega
      · intro hStill
        change rest.2.tick < passed t0.toInt t.toInt rest.2 at hStill
        rw [hPassed, hFired.tick] at hStill
        have hLate := (hManageable (by omega)).2.1
        have hMore :
            0 ≤ ((min (passed t0.toInt t.toInt s - s.tick) (s.maxCatchup.toNat + 1) : Nat) : Int) * s.interval :=
          Int.mul_nonneg (Int.natCast_nonneg _) (Int.le_of_lt s.positive)
        change t.toInt - rest.2.nextDeadline ≤ _
        rw [hFired.deadline, Int.add_right_comm, Int.add_mul (s.tick + 1 : Int)]
        omega

end Calls

section Runs

variable {t0 : Int64} {s : TickLoop} {ts : List Int64}

def AllExact (t0 : Int64) : TickLoop → List Int64 → Prop
  | _, [] => True
  | s, t :: ts => ∃ out, advance t s = some out ∧ CallExact t0 t s out ∧ AllExact t0 out.2 ts

def AllManageable (t0 : Int64) (interval : Int) (maxCatchup : UInt32) : Nat → List Int64 → Prop
  | _, [] => True
  | n, t :: ts => Manageable t0 t interval maxCatchup n ∧
      AllManageable t0 interval maxCatchup (n + min (due t0.toInt interval n t.toInt) (maxCatchup.toNat + 1)) ts

def indices : TickLoop → List Int64 → List Nat
  | _, [] => []
  | s, t :: ts => (advance t s).elim [] fun out => out.1.map TickInfo.index ++ indices out.2 ts

/-- The readings `t0`, `ts` are given to a new loop. -/
def RunsExactly (cfg : TickConfig) (t0 : Int64) (ts : List Int64) : Prop :=
  ∃ s, advance t0 (new cfg) = some ([], s) ∧ s.tick = 0 ∧ s.nextDeadline = t0.toInt + (s.tick + 1) * s.interval ∧
    AllExact t0 s ts ∧ ∃ n, indices (new cfg) (t0 :: ts) = List.range n

theorem AllExact.indices_eq (hExact : AllExact t0 s ts) : ∃ n, indices s ts = List.range' s.tick n := by
  induction ts generalizing s with
  | nil => exact ⟨0, rfl⟩
  | cons t ts ih =>
    obtain ⟨out, hAdvance, hCall, hRest⟩ := hExact
    obtain ⟨n, hIndices⟩ := ih hRest
    refine ⟨out.1.length + n, ?_⟩
    rw [indices, hAdvance, Option.elim_some, hIndices, hCall.indices, hCall.tick, List.range'_append_1]

/-- A loop that is ready is exact exactly as long as the calls are manageable. -/
theorem allExact_iff (hReady : Ready t0 s) : AllExact t0 s ts ↔ AllManageable t0 s.interval s.maxCatchup s.tick ts := by
  induction ts generalizing s with
  | nil => exact Iff.rfl
  | cons t ts ih =>
    constructor
    · rintro ⟨out, hAdvance, hCall, hRest⟩
      obtain ⟨hAfter, hInterval, hCatchup⟩ := hReady.advance hAdvance
      refine ⟨(callExact_iff hReady).mp ⟨out, hAdvance, hCall⟩, ?_⟩
      rw [ih hAfter, hInterval, hCatchup, hCall.tick, hCall.fired] at hRest
      exact hRest
    · rintro ⟨hManageable, hRest⟩
      obtain ⟨out, hAdvance, hCall⟩ := (callExact_iff hReady).mpr hManageable
      obtain ⟨hAfter, hInterval, hCatchup⟩ := hReady.advance hAdvance
      refine ⟨out, hAdvance, hCall, ?_⟩
      rw [ih hAfter, hInterval, hCatchup, hCall.tick, hCall.fired]
      exact hRest

/-- The loop runs every tick once and without drift exactly if no call with a due tick has the greatest number of
catch-up ticks, and the times fit. -/
theorem runsExactly_iff (cfg : TickConfig) (t0 : Int64) (ts : List Int64) : RunsExactly cfg t0 ts ↔
    t0.toInt + (new cfg).interval ≤ maxInt64 ∧ AllManageable t0 (new cfg).interval cfg.maxCatchup 0 ts := by
  have hFirst : ∀ s, advance t0 (new cfg) = some ([], s) ↔ t0.toInt + (new cfg).interval ≤ maxInt64 ∧
      s = { new cfg with nextDeadline := t0.toInt + (new cfg).interval, started := true } := by
    intro s
    have hLow : minInt64 ≤ t0.toInt := t0.le_toInt
    have hPositive := (new cfg).positive
    rw [advance, if_neg (by exact Bool.false_ne_true), Option.map_eq_some_iff]
    constructor
    · rintro ⟨deadline, hDeadline, hState⟩
      obtain ⟨rfl, -, hHigh⟩ := checked_eq_some.mp hDeadline
      exact ⟨hHigh, (Prod.mk.inj hState).2.symm⟩
    · rintro ⟨hHigh, rfl⟩
      exact ⟨_, checked_eq_some.mpr ⟨rfl, by omega, hHigh⟩, rfl⟩
  have hDeadline : t0.toInt + (new cfg).interval = t0.toInt + (((new cfg).tick : Int) + 1) * (new cfg).interval := by
    change _ = t0.toInt + ((0 : Int) + 1) * (new cfg).interval
    rw [Int.zero_add, Int.one_mul]
  have hReady : Ready t0 { new cfg with nextDeadline := t0.toInt + (new cfg).interval, started := true } :=
    ⟨rfl, hDeadline⟩
  constructor
  · rintro ⟨s, hAdvance, -, -, hExact, -⟩
    obtain ⟨hHigh, rfl⟩ := (hFirst s).mp hAdvance
    exact ⟨hHigh, (allExact_iff hReady).mp hExact⟩
  · rintro ⟨hHigh, hManageable⟩
    have hAdvance := (hFirst _).mpr ⟨hHigh, rfl⟩
    have hExact := (allExact_iff hReady).mpr hManageable
    obtain ⟨n, hIndices⟩ := hExact.indices_eq
    refine ⟨_, hAdvance, rfl, hDeadline, hExact, n, ?_⟩
    rw [indices, hAdvance, Option.elim_some, hIndices, List.range_eq_range']
    rfl

/-- With the greatest number of catch-up ticks the budget is zero: one nanosecond later the first
tick is due and not fired. -/
theorem runsExactly_unlimited : ¬RunsExactly ⟨1, 4294967295⟩ 0 [1] := by
  rintro ⟨s, hAdvance, -, -, ⟨out, hCall, hExact, -⟩, -⟩
  obtain rfl := (Prod.mk.inj (Option.some.inj hAdvance)).2
  cases hCall
  have hFired : 0 = min (due 0 1 0 1) (4294967295 + 1) := hExact.fired
  rw [due_eq Int.one_pos] at hFired
  exact absurd hFired (by decide)

end Runs

end TickLoop
