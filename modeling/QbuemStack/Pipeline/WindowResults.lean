import Mathlib.Data.Int.DivMod
import Mathlib.Data.List.Induction
import QbuemStack.Pipeline.WindowedAction

/-! What the fixed windows give out. An item that comes after its window was given out opens the
window again, and sliding windows start by a division that rounds towards zero. -/
namespace Pipeline

open List (filter_cons map_cons mem_cons mem_cons_self mem_singleton)

namespace Windowed

open SignedInts

variable {T K Acc : Type}

section Geometry

variable {shape : Shape} {t : Nat} {size b step epoch m : Int}

def spanAt (size bucket : Int) : WindowDesc := ⟨bucket * 1000000, bucket * 1000000 + size * 1000000⟩

def Shape.stride (shape : Shape) : Int := if shape.type = .tumbling then shape.size else shape.step

def Shape.window (shape : Shape) (n : Int) : WindowDesc := spanAt shape.size (n * shape.stride)

def Covers (d : WindowDesc) (t : Nat) : Prop := d.start ≤ t ∧ t < d.stop

instance (d : WindowDesc) (t : Nat) : Decidable (Covers d t) := inferInstanceAs (Decidable (_ ∧ _))

def Shape.Whole (shape : Shape) (t : Nat) : Prop :=
  shape.type = .tumbling ∨ shape.size ≤ epochMs t ∨ shape.step ∣ epochMs t - shape.size

structure Shape.Fixed (shape : Shape) : Prop where
  type : shape.type ≠ .session
  size : 0 < shape.size
  step : 0 < shape.step

theorem spanAt_inj {b' : Int} (hStart : (spanAt size b).start = (spanAt size b').start) : b = b' :=
  Int.eq_of_mul_eq_mul_right (by decide) hStart

theorem window_inj {n : Int} (hStart : (shape.window n).start = (shape.window m).start) :
    shape.window n = shape.window m := by
  rw [Shape.window, Shape.window, spanAt_inj hStart]

theorem epochMs_eq (t : Nat) : epochMs t = (t : Int) / 1000000 := Int.tdiv_eq_ediv_of_nonneg (Int.natCast_nonneg t)

theorem covers_spanAt : Covers (spanAt size b) t ↔ b ≤ epochMs t ∧ epochMs t < b + size := by
  rw [Covers, spanAt, epochMs_eq, Int.le_ediv_iff_mul_le (by decide), Int.ediv_lt_iff_lt_mul (by decide), Int.add_mul]

structure Representable (size bucket : Int) : Prop where
  start : minInt64 ≤ bucket * 1000000 ∧ bucket * 1000000 ≤ maxInt64
  length : minInt64 ≤ size * 1000000 ∧ size * 1000000 ≤ maxInt64
  stop : minInt64 ≤ (spanAt size bucket).stop ∧ (spanAt size bucket).stop ≤ maxInt64

theorem windowAt_eq_some {d : WindowDesc} : windowAt size b = some d ↔ d = spanAt size b ∧ Representable size b := by
  simp only [windowAt, plus, Option.bind_eq_some_iff, Option.map_eq_some_iff, checked_eq_some]
  constructor
  · rintro ⟨_, ⟨rfl, hStart⟩, _, ⟨_, ⟨rfl, hSize⟩, rfl, hStop⟩, rfl⟩
    exact ⟨rfl, hStart, hSize, hStop⟩
  · rintro ⟨rfl, hStart, hSize, hStop⟩
    exact ⟨_, ⟨rfl, hStart⟩, _, ⟨_, ⟨rfl, hSize⟩, rfl, hStop⟩, rfl⟩

def Contains (size epoch stride n : Int) : Prop := n * stride ≤ epoch ∧ epoch < n * stride + size

theorem contains_size {n : Int} (hSize : 0 < size) : Contains size epoch size n ↔ n = epoch / size := by
  have hLow : n ≤ epoch / size ↔ n * size ≤ epoch := Int.le_ediv_iff_mul_le hSize
  have hHigh : epoch / size < n + 1 ↔ epoch < (n + 1) * size := Int.ediv_lt_iff_lt_mul hSize
  rw [add_one_mul] at hHigh
  rw [Contains]
  omega

theorem contains_step {n : Int} (hStep : 0 < step) :
    Contains size epoch step n ↔ (epoch - size) / step + 1 ≤ n ∧ n * step ≤ epoch := by
  rw [Contains, Int.add_one_le_iff, Int.ediv_lt_iff_lt_mul hStep]
  omega

structure Lists (P : WindowDesc → Prop) (descs : List WindowDesc) : Prop where
  nodup : descs.Nodup
  fits : ∀ d ∈ descs, d.stop ≤ maxInt64
  mem : ∀ d, d ∈ descs ↔ P d

def From (size step epoch m : Int) (d : WindowDesc) : Prop :=
  ∃ n, m ≤ n ∧ n * step ≤ epoch ∧ d = spanAt size (n * step)

structure Slid (size step epoch m : Int) (descs : List WindowDesc) : Prop where
  sorted : descs.Pairwise fun d d' => d.start < d'.start
  mem : ∀ d, d ∈ descs ↔ From size step epoch m d
  fits : ∀ n, m ≤ n → n * step ≤ epoch → Representable size (n * step)

theorem slid_nil (hStep : 0 < step) (hLt : epoch < m * step) : Slid size step epoch m [] := by
  have hNone : ∀ n, m ≤ n → ¬n * step ≤ epoch := by
    intro n hn
    have hMul := Int.mul_le_mul_of_nonneg_right hn (Int.le_of_lt hStep)
    omega
  refine ⟨List.Pairwise.nil, fun d => iff_of_false List.not_mem_nil ?_, fun n hn hIn => absurd hIn (hNone n hn)⟩
  rintro ⟨n, hn, hIn, -⟩
  exact hNone n hn hIn

theorem slide_slid (hStep : 0 < step) {rounds : Nat} {descs : List WindowDesc}
    (hRounds : epoch - m * step < rounds) (hSlide : slide size step epoch rounds (m * step) = some descs) :
    Slid size step epoch m descs := by
  induction rounds generalizing m descs with
  | zero =>
    cases hSlide
    exact slid_nil hStep (by simpa using hRounds)
  | succ rounds ih =>
    rw [slide] at hSlide
    split_ifs at hSlide with hLe
    · obtain ⟨d, hWindow, hSlide⟩ := Option.bind_eq_some_iff.mp hSlide
      obtain ⟨after, hAfter, hSlide⟩ := Option.bind_eq_some_iff.mp hSlide
      obtain ⟨rest, hRest, rfl⟩ := Option.map_eq_some_iff.mp hSlide
      obtain ⟨rfl, -⟩ := checked_eq_some.mp hAfter
      obtain ⟨rfl, hFits⟩ := windowAt_eq_some.mp hWindow
      have hNext := add_one_mul m step
      rw [← hNext] at hRest
      have hLater := ih (by push_cast at hRounds; omega) hRest
      refine ⟨List.pairwise_cons.mpr ⟨fun d hd => ?_, hLater.sorted⟩, fun d => ?_, fun n hn hIn => ?_⟩
      · obtain ⟨n, hn, -, rfl⟩ := (hLater.mem d).mp hd
        have hMul := Int.mul_le_mul_of_nonneg_right hn (Int.le_of_lt hStep)
        simp only [spanAt]
        omega
      · rw [mem_cons, hLater.mem]
        constructor
        · rintro (rfl | ⟨n, hn, hIn, rfl⟩)
          · exact ⟨m, Int.le_refl m, hLe, rfl⟩
          · exact ⟨n, by omega, hIn, rfl⟩
        · rintro ⟨n, hn, hIn, rfl⟩
          rcases Int.le_iff_eq_or_lt.mp hn with rfl | hLt
          · exact .inl rfl
          · exact .inr ⟨n, hLt, hIn, rfl⟩
      · rcases Int.le_iff_eq_or_lt.mp hn with rfl | hLt
        · exact hFits
        · exact hLater.fits n hLt hIn
    · cases hSlide
      exact slid_nil hStep (Int.not_le.mp hLe)

theorem tdiv_eq_ediv {z : Int} (hFloor : 0 ≤ z ∨ step ∣ z) : z.tdiv step = z / step := by
  rw [Int.tdiv_eq_ediv, if_pos hFloor, Int.add_zero]

def Target (shape : Shape) (t : Nat) (d : WindowDesc) : Prop := ∃ n, d = shape.window n ∧ Covers d t

theorem windowsOf_lists (hFixed : shape.Fixed) (hWhole : shape.Whole t) {ds : List WindowDesc}
    (hOf : shape.windowsOf t = some ds) : Lists (Target shape t) ds := by
  have hSize := hFixed.size
  have hStep := hFixed.step
  have hCovers : ∀ n, Covers (shape.window n) t ↔ Contains shape.size (epochMs t) shape.stride n :=
    fun n => covers_spanAt
  rw [Shape.windowsOf] at hOf
  split_ifs at hOf with hType
  · have hStride : shape.stride = shape.size := if_pos hType
    have hNonneg : 0 ≤ epochMs t := by rw [epochMs_eq]; exact Int.ediv_nonneg (Int.natCast_nonneg t) (by decide)
    obtain ⟨d, hWindow, rfl⟩ := Option.map_eq_some_iff.mp hOf
    rw [windowFor, tdiv_eq_ediv (.inl hNonneg)] at hWindow
    obtain ⟨rfl, hFits⟩ := windowAt_eq_some.mp hWindow
    refine ⟨List.pairwise_singleton _ _, fun d hd => mem_singleton.mp hd ▸ hFits.stop.2, fun d => ?_⟩
    rw [mem_singleton]
    constructor
    · rintro rfl
      refine ⟨epochMs t / shape.size, by rw [Shape.window, hStride], covers_spanAt.mpr ?_⟩
      exact (contains_size hSize).mpr rfl
    · rintro ⟨n, rfl, hIn⟩
      rw [hCovers, hStride, contains_size hSize] at hIn
      rw [hIn, Shape.window, hStride]
  · have hStride : shape.stride = shape.step := if_neg hType
    rw [windowsFor, firstBucket, tdiv_eq_ediv ((hWhole.resolve_left hType).imp_left Int.sub_nonneg_of_le)] at hOf
    have hSlid := slide_slid hStep (by omega) hOf
    refine ⟨hSlid.sorted.imp fun hLt => ?_, fun d hd => ?_, fun d => (hSlid.mem d).trans (exists_congr fun n => ?_)⟩
    · rintro rfl
      exact Int.lt_irrefl _ hLt
    · obtain ⟨n, hn, hIn, rfl⟩ := (hSlid.mem d).mp hd
      exact (hSlid.fits n hn hIn).stop.2
    rw [← and_assoc, ← contains_step hStep, Shape.window, ← hStride, and_comm]
    refine and_congr_right ?_
    rintro rfl
    exact (hCovers n).symm

theorem slide_defined (hStep : 0 < step) (hLe : step ≤ size) (rounds : Nat)
    (hAll : ∀ n, m ≤ n → n * step ≤ epoch → Representable size (n * step)) :
    ∃ descs, slide size step epoch rounds (m * step) = some descs := by
  induction rounds generalizing m with
  | zero => exact ⟨[], rfl⟩
  | succ rounds ih =>
    by_cases hIn : m * step ≤ epoch
    · have hFits := hAll m (Int.le_refl m) hIn
      have hAfter : checked (m * step + step) = some (m * step + step) := by
        have hStart := hFits.start
        have hLength := hFits.length
        simp only [minInt64, maxInt64] at hStart hLength
        rw [checked_eq_some, minInt64, maxInt64]
        omega
      obtain ⟨rest, hRest⟩ := @ih (m + 1) fun n hn => hAll n (by omega)
      rw [slide, if_pos hIn, windowAt_eq_some.mpr ⟨rfl, hFits⟩, Option.bind_some, hAfter, Option.bind_some,
        ← add_one_mul, hRest]
      exact ⟨_, rfl⟩
    · exact ⟨[], by rw [slide, if_neg hIn]⟩

theorem tdiv_le_ediv {z : Int} (hStep : 0 < step) : z.tdiv step ≤ z / step ↔ 0 ≤ z ∨ step ∣ z := by
  rw [Int.tdiv_eq_ediv, Int.sign_eq_one_of_pos hStep]
  split_ifs with hFloor
  · exact iff_of_true (by omega) hFloor
  · exact iff_of_false (by omega) hFloor

structure Assignment where
  size : Int
  step : Int
  time : Int
  pos : 0 < step
  le : step ≤ size

variable (a : Assignment)

/-- The window returned is one that contains the time. -/
def Assignment.Tumbles : Prop :=
  ∃ n, windowFor a.size (a.time * 1000000) = some (spanAt a.size (n * a.size)) ∧ Contains a.size a.time a.size n

/-- The windows that contain the time are returned once each, the earlier ones first. -/
def Assignment.Slides : Prop :=
  ∃ descs, windowsFor a.size a.step (a.time * 1000000) = some descs ∧
    descs.Pairwise (fun d d' => d.start < d'.start) ∧
    ∀ d, d ∈ descs ↔ ∃ n, d = spanAt a.size (n * a.step) ∧ Contains a.size a.time a.step n

/-- The windows of a stride that contain the time are representable. -/
def Assignment.Fits (stride : Int) : Prop :=
  ∀ n, Contains a.size a.time stride n → Representable a.size (n * stride)

theorem epochMs_mul (ms : Int) : epochMs (ms * 1000000) = ms := Int.mul_tdiv_cancel ms (by decide)

/-- The tumbling window is right exactly for times from the epoch on or on a boundary. -/
theorem tumbles_iff : a.Tumbles ↔ (0 ≤ a.time ∨ a.size ∣ a.time) ∧ a.Fits a.size := by
  have hSize : 0 < a.size := Int.lt_of_lt_of_le a.pos a.le
  simp only [Assignment.Tumbles, Assignment.Fits, windowFor, epochMs_mul, windowAt_eq_some, contains_size hSize,
    ← tdiv_le_ediv hSize, exists_eq_right, forall_eq]
  constructor
  · rintro ⟨hSame, hFits⟩
    have hBucket := spanAt_inj (congrArg WindowDesc.start hSame)
    exact ⟨Int.le_of_eq (Int.eq_of_mul_eq_mul_right (Int.ne_of_gt hSize) hBucket.symm), hBucket ▸ hFits⟩
  · rintro ⟨hFloor, hFits⟩
    rw [tdiv_eq_ediv ((tdiv_le_ediv hSize).mp hFloor)]
    exact ⟨rfl, hFits⟩

/-- The sliding windows are right exactly if the division does not round up. -/
theorem slides_iff : a.Slides ↔ (a.size ≤ a.time ∨ a.step ∣ a.time - a.size) ∧ a.Fits a.step := by
  have hStep := a.pos
  rw [← Int.sub_nonneg, ← tdiv_le_ediv hStep, Assignment.Slides, Assignment.Fits, windowsFor, epochMs_mul, firstBucket]
  simp only [contains_step hStep]
  set first := (a.time - a.size).tdiv a.step
  have hRounds : a.time - (first + 1) * a.step < ((a.time - (first + 1) * a.step + 1).toNat : Int) := by omega
  constructor
  · rintro ⟨descs, hSlide, -, hMem⟩
    have hSlid := slide_slid hStep hRounds hSlide
    have hEarliest : ((a.time - a.size) / a.step + 1) * a.step ≤ a.time := by
      have hLow := Int.ediv_mul_le (a.time - a.size) (Int.ne_of_gt hStep)
      have hLe := a.le
      rw [add_one_mul]
      omega
    obtain ⟨n, hn, -, hSame⟩ := (hSlid.mem _).mp ((hMem _).mpr ⟨_, rfl, Int.le_refl _, hEarliest⟩)
    obtain rfl := Int.eq_of_mul_eq_mul_right (Int.ne_of_gt hStep) (spanAt_inj (congrArg WindowDesc.start hSame))
    exact ⟨Int.le_of_add_le_add_right hn, fun n hIn => hSlid.fits n (Int.le_trans hn hIn.1) hIn.2⟩
  · rintro ⟨hFloor, hFits⟩
    have hFirst : first = (a.time - a.size) / a.step := tdiv_eq_ediv ((tdiv_le_ediv hStep).mp hFloor)
    obtain ⟨descs, hSlide⟩ := slide_defined hStep a.le _ fun n hn hIn => hFits n ⟨hFirst ▸ hn, hIn⟩
    have hSlid := slide_slid hStep hRounds hSlide
    refine ⟨descs, hSlide, hSlid.sorted, fun d => ?_⟩
    rw [hSlid.mem, From, hFirst]
    exact exists_congr fun n => by tauto

/-- An event goes to the windows that contain it if and only if neither division rounds up and they
are representable. -/
theorem assignment_iff : a.Tumbles ∧ a.Slides ↔ ((0 ≤ a.time ∨ a.size ∣ a.time) ∧ a.Fits a.size) ∧
    (a.size ≤ a.time ∨ a.step ∣ a.time - a.size) ∧ a.Fits a.step :=
  and_congr (tumbles_iff a) (slides_iff a)

/-- Windows of ten milliseconds every five, and an event in the second and third. -/
theorem assignment_twelve : let a : Assignment := ⟨10, 5, 12, by decide, by decide⟩
    a.Tumbles ∧ a.Slides := by
  have hFits : ∀ stride : Int, 0 < stride → ∀ n, Contains 10 12 stride n → Representable 10 (n * stride) := by
    intro stride hStride n hIn
    simp only [Contains] at hIn
    refine ⟨?_, by decide, ?_⟩ <;> simp only [spanAt, minInt64, maxInt64] <;> omega
  exact (assignment_iff _).mpr ⟨⟨.inl (by decide), hFits 10 (by decide)⟩, .inl (by decide), hFits 5 (by decide)⟩

/-- A millisecond before the epoch goes to the window behind it, and to none of the sliding ones. -/
theorem window_beforeEpoch : let a : Assignment := ⟨10, 10, -1, by decide, by decide⟩
    (windowFor 10 (-1000000) = some (spanAt 10 0) ∧ ¬a.Tumbles) ∧
      windowsFor 10 10 (-1000000) = some [] ∧ ¬a.Slides := by
  refine ⟨⟨by decide +kernel, ?_⟩, by decide +kernel, ?_⟩
  · rw [tumbles_iff]
    exact fun h => absurd h.1 (by decide)
  · rw [slides_iff]
    exact fun h => absurd h.1 (by decide)

end Geometry

section Stored

variable (cfg : Config T K Acc) {d : WindowDesc}

def accsAt (d : WindowDesc) : List (WindowState K Acc) → List (K × Acc)
  | [] => []
  | ws :: rest => if ws.desc = d then ws.accs else accsAt d rest

def Tidy (windows : List (WindowState K Acc)) : Prop :=
  (windows.map WindowState.desc).Nodup ∧
    ∀ d ∈ windows.map WindowState.desc, (∃ n, d = cfg.window n) ∧ d.stop ≤ maxInt64

def collected (s : State K Acc) : State K Acc :=
  { s with
    windows := s.windows.filter fun ws => s.watermark < ws.desc.stop
    results := s.results ++ (s.windows.filter fun ws => ws.desc.stop ≤ s.watermark).flatMap given }

theorem collectCompleted_eq {cfg : Config T K Acc} (hType : cfg.type ≠ .session) (s : State K Acc) :
    collectCompleted cfg s = some (collected s) := by
  have hCollect : ∀ windows : List (WindowState K Acc), collect cfg s.watermark windows =
      some ((windows.filter fun ws => ws.desc.stop ≤ s.watermark).flatMap given,
        windows.filter fun ws => s.watermark < ws.desc.stop) := by
    intro windows
    induction windows with
    | nil => rfl
    | cons ws rest ih =>
      rw [collect, ih, completed, if_neg hType]
      by_cases hDone : ws.desc.stop ≤ s.watermark <;> simp [hDone, filter_cons]
  rw [collectCompleted, hCollect]
  rfl

theorem accsAt_of_notMem {windows : List (WindowState K Acc)} (hNot : d ∉ windows.map WindowState.desc) :
    accsAt d windows = [] := by
  induction windows with
  | nil => rfl
  | cons ws rest ih =>
    rw [map_cons, mem_cons, not_or] at hNot
    rw [accsAt, if_neg (Ne.symm hNot.1), ih hNot.2]

theorem accsAt_filter (wm : Int) (windows : List (WindowState K Acc)) :
    accsAt d (windows.filter fun ws => wm < ws.desc.stop) = if d.stop ≤ wm then [] else accsAt d windows := by
  induction windows with
  | nil => split_ifs <;> rfl
  | cons ws rest ih =>
    by_cases hHere : ws.desc = d
    · by_cases hDone : d.stop ≤ wm
      · have hNot : ¬wm < ws.desc.stop := hHere ▸ Int.not_lt.mpr hDone
        rw [List.filter_cons_of_neg (by simpa using hNot), ih, if_pos hDone, if_pos hDone]
      · have hOpen : wm < ws.desc.stop := hHere ▸ Int.not_le.mp hDone
        rw [List.filter_cons_of_pos (by simpa using hOpen), accsAt, accsAt, if_pos hHere, if_neg hDone, if_pos hHere]
    · rw [accsAt, if_neg hHere, ← ih, filter_cons]
      split_ifs
      · rw [accsAt, if_neg hHere]
      · rfl

/-- The ticker has been called when the window had an item of the key and an event had come at or
after its end. -/
def Closed (events : List (Event T)) (key : K) (d : WindowDesc) : Prop :=
  ∃ first last, events = first ++ .tick :: last ∧ (∃ x, ∃ t : Nat, .item x t ∈ first ∧ d.stop ≤ t) ∧
    ∃ x t, .item x t ∈ first ∧ cfg.keyFn x = key ∧ Covers d t

/-- Every item comes while its windows can be computed, are all found and are not closed for its
key. -/
def Punctual (events : List (Event T)) : Prop :=
  ∀ (before : List (Event T)) (x : T) (t : Nat) (after : List (Event T)), events = before ++ .item x t :: after →
    ∃ ds, cfg.windowsOf t = some ds ∧ cfg.Whole t ∧ ∀ d ∈ ds, ¬Closed cfg before (cfg.keyFn x) d

theorem Closed.append {cfg : Config T K Acc} {events : List (Event T)} {key : K} (hClosed : Closed cfg events key d)
    (more : List (Event T)) : Closed cfg (events ++ more) key d := by
  obtain ⟨first, last, rfl, hItems⟩ := hClosed
  exact ⟨first, last ++ more, by simp, hItems⟩

end Stored

section Books

variable [DecidableEq K] (cfg : Config T K Acc)

def hit (key : K) (d : WindowDesc) : Event T → Option T
  | .item x t => if cfg.keyFn x = key ∧ Covers d t then some x else none
  | .tick => none

def expected (key : K) (d : WindowDesc) (events : List (Event T)) : List Acc :=
  if (events.filterMap (hit cfg key d)).isEmpty then []
  else [(events.filterMap (hit cfg key d)).foldl cfg.accFn cfg.initAcc]

def emitted (key : K) (d : WindowDesc) (results : List (Result K Acc)) : List Acc :=
  (results.filter fun r => r.key = key ∧ r.start = d.start).map Result.acc

/-- Every key and window with an item has been given out once, with these items, and nothing else. -/
def Complete (events : List (Event T)) (s : State K Acc) : Prop :=
  (∀ key n, emitted key (cfg.window n) s.results = expected cfg key (cfg.window n) events) ∧
    ∀ r ∈ s.results, ∃ n, r.start = (cfg.window n).start

def values (key : K) (accs : List (K × Acc)) : List Acc := (accs.filter fun entry => entry.1 = key).map Prod.snd

def bump (x : T) : List Acc → List Acc
  | [] => [cfg.accFn cfg.initAcc x]
  | acc :: accs => cfg.accFn acc x :: accs

variable {cfg} {key : K} {d : WindowDesc} {x : T}

variable (desc : WindowDesc) {ds : List WindowDesc} (windows : List (WindowState K Acc))

theorem expected_concat (event : Event T) (events : List (Event T)) : expected cfg key d (events ++ [event]) =
      (hit cfg key d event).elim (expected cfg key d events) fun x => bump cfg x (expected cfg key d events) := by
  rw [expected, expected, List.filterMap_append]
  cases hHit : hit cfg key d event with
  | none => simp [hHit]
  | some x =>
    rw [List.filterMap_cons_some hHit, List.filterMap_nil]
    cases events.filterMap (hit cfg key d) with
    | nil => rfl
    | cons first rest => simp [bump]

theorem values_cons (k : K) (acc : Acc) (accs : List (K × Acc)) :
    values key ((k, acc) :: accs) = if k = key then acc :: values key accs else values key accs := by
  by_cases hKey : k = key <;> simp [values, hKey]

theorem values_fold (accs : List (K × Acc)) : values key (fold cfg x accs) =
    if key = cfg.keyFn x then bump cfg x (values key accs) else values key accs := by
  induction accs with
  | nil =>
    rw [fold, values_cons]
    by_cases hKey : key = cfg.keyFn x
    · rw [if_pos hKey.symm, if_pos hKey]
      rfl
    · rw [if_neg (Ne.symm hKey), if_neg hKey]
  | cons entry accs ih =>
    obtain ⟨k, acc⟩ := entry
    rw [fold]
    by_cases hOwn : k = cfg.keyFn x
    · rw [if_pos hOwn, values_cons, values_cons, ← hOwn]
      by_cases hKey : key = k
      · rw [if_pos hKey.symm, if_pos hKey, if_pos hKey.symm]
        rfl
      · rw [if_neg (Ne.symm hKey), if_neg hKey, if_neg (Ne.symm hKey)]
    · rw [if_neg hOwn, values_cons, values_cons, ih]
      by_cases hKey : k = key
      · rw [if_pos hKey, if_pos hKey, if_neg (hKey ▸ hOwn), if_neg (hKey ▸ hOwn)]
      · rw [if_neg hKey, if_neg hKey]

theorem accsAt_addTo : accsAt d (addTo cfg x windows desc) =
      if d = desc then fold cfg x (accsAt d windows) else accsAt d windows := by
  induction windows with
  | nil =>
    rw [addTo, accsAt, accsAt]
    by_cases hDesc : d = desc
    · rw [if_pos hDesc.symm, if_pos hDesc]
    · rw [if_neg (Ne.symm hDesc), if_neg hDesc]
      rfl
  | cons ws rest ih =>
    rw [addTo, accsAt]
    by_cases hHere : ws.desc = desc
    · rw [if_pos hHere, accsAt]
      by_cases hDesc : d = desc
      · rw [if_pos (hHere.trans hDesc.symm), if_pos hDesc, if_pos (hHere.trans hDesc.symm)]
      · have hNot : ws.desc ≠ d := fun hSame => hDesc (hSame.symm.trans hHere)
        rw [if_neg hNot, if_neg hDesc, if_neg hNot]
    · rw [if_neg hHere, accsAt, ih]
      by_cases hThis : ws.desc = d
      · rw [if_pos hThis, if_pos hThis, if_neg (hThis ▸ hHere)]
      · rw [if_neg hThis, if_neg hThis]

theorem accsAt_foldl (hNodup : ds.Nodup) (windows : List (WindowState K Acc)) :
    accsAt d (ds.foldl (addTo cfg x) windows) = if d ∈ ds then fold cfg x (accsAt d windows) else accsAt d windows := by
  induction ds generalizing windows with
  | nil => rfl
  | cons desc ds ih =>
    obtain ⟨hFirst, hRest⟩ := List.nodup_cons.mp hNodup
    rw [List.foldl_cons, ih hRest, accsAt_addTo]
    by_cases hDesc : d = desc
    · subst hDesc
      rw [if_neg hFirst, if_pos rfl, if_pos mem_cons_self]
    · simp only [mem_cons, hDesc, false_or, if_false]

theorem descs_addTo : (addTo cfg x windows desc).map WindowState.desc =
      if desc ∈ windows.map WindowState.desc then windows.map WindowState.desc
      else windows.map WindowState.desc ++ [desc] := by
  induction windows with
  | nil => rfl
  | cons ws rest ih =>
    rw [addTo]
    by_cases hHere : ws.desc = desc
    · rw [if_pos hHere, if_pos (List.mem_map.mpr ⟨ws, mem_cons_self, hHere⟩)]
      rfl
    · rw [if_neg hHere, map_cons, map_cons, ih]
      simp only [mem_cons, Ne.symm hHere, false_or]
      split_ifs <;> rfl

theorem Tidy.foldl (hDs : ∀ d ∈ ds, (∃ n, d = cfg.window n) ∧ d.stop ≤ maxInt64)
    {windows : List (WindowState K Acc)} (hTidy : Tidy cfg windows) : Tidy cfg (ds.foldl (addTo cfg x) windows) := by
  induction ds generalizing windows with
  | nil => exact hTidy
  | cons desc ds ih =>
    refine ih (fun d hd => hDs d (List.mem_cons_of_mem _ hd)) ?_
    rw [Tidy, descs_addTo]
    split_ifs with hIn
    · exact hTidy
    · refine ⟨List.nodup_append.mpr ⟨hTidy.1, List.pairwise_singleton _ _, ?_⟩, ?_⟩
      · rintro d hd other hOther rfl
        exact hIn (mem_singleton.mp hOther ▸ hd)
      · intro d hd
        rcases List.mem_append.mp hd with hOld | hNew
        · exact hTidy.2 d hOld
        · exact mem_singleton.mp hNew ▸ hDs desc mem_cons_self

theorem emitted_append (results more : List (Result K Acc)) :
    emitted key d (results ++ more) = emitted key d results ++ emitted key d more := by
  rw [emitted, List.filter_append, List.map_append]
  rfl

theorem emitted_given (ws : WindowState K Acc) :
    emitted key d (given ws) = if ws.desc.start = d.start then values key ws.accs else [] := by
  rw [emitted, given, values, List.filter_map, List.map_map]
  by_cases hStart : ws.desc.start = d.start
  · simp only [Function.comp_def, hStart, and_true, if_true]
  · simp [Function.comp_def, hStart]

theorem emitted_collect (wm : Int) {windows : List (WindowState K Acc)} (hTidy : Tidy cfg windows) (n : Int) :
    emitted key (cfg.window n) ((windows.filter fun ws => ws.desc.stop ≤ wm).flatMap given) =
      if (cfg.window n).stop ≤ wm then values key (accsAt (cfg.window n) windows) else [] := by
  induction windows with
  | nil => split_ifs <;> rfl
  | cons ws rest ih =>
    obtain ⟨hNodup, hAll⟩ := hTidy
    obtain ⟨hFirst, hRest⟩ := List.nodup_cons.mp hNodup
    have hLater := ih ⟨hRest, fun d hd => hAll d (List.mem_cons_of_mem _ hd)⟩
    obtain ⟨⟨m, hm⟩, -⟩ := hAll ws.desc mem_cons_self
    have hGiven : emitted key (cfg.window n) (given ws) =
        if ws.desc = cfg.window n then values key ws.accs else [] := by
      rw [emitted_given]
      refine if_congr ⟨fun hStart => ?_, congrArg WindowDesc.start⟩ rfl rfl
      rw [hm] at hStart ⊢
      exact window_inj hStart
    by_cases hHere : ws.desc = cfg.window n
    · rw [accsAt_of_notMem (hHere ▸ hFirst)] at hLater
      by_cases hDone : (cfg.window n).stop ≤ wm
      · simp [hHere, hDone, emitted_append, hGiven, hLater, accsAt, values]
      · simpa [filter_cons, hHere, hDone] using hLater
    · rw [if_neg hHere] at hGiven
      rw [accsAt, if_neg hHere, ← hLater]
      by_cases hDone : ws.desc.stop ≤ wm <;> simp [hDone, emitted_append, hGiven]

structure Books (cfg : Config T K Acc) (events : List (Event T)) (s : State K Acc) : Prop where
  tidy : Tidy cfg s.windows
  results : ∀ r ∈ s.results, ∃ n, r.start = (cfg.window n).start
  whole : ∀ key n, emitted key (cfg.window n) s.results ++ values key (accsAt (cfg.window n) s.windows) =
    expected cfg key (cfg.window n) events

variable {events : List (Event T)} {s : State K Acc}

theorem emitted_collected (hTidy : Tidy cfg s.windows) (n : Int) :
    emitted key (cfg.window n) (collected s).results = emitted key (cfg.window n) s.results ++
      if (cfg.window n).stop ≤ s.watermark then values key (accsAt (cfg.window n) s.windows) else [] := by
  rw [← emitted_collect s.watermark hTidy n, ← emitted_append]
  rfl

theorem Books.collected (hBooks : Books cfg events s) : Books cfg events (collected s) where
  tidy := by
    have hSub : List.Sublist ((s.windows.filter fun ws => s.watermark < ws.desc.stop).map WindowState.desc)
        (s.windows.map WindowState.desc) := List.filter_sublist.map _
    exact ⟨hBooks.tidy.1.sublist hSub, fun d hd => hBooks.tidy.2 d (hSub.subset hd)⟩
  results r hr := by
    rcases List.mem_append.mp hr with hOld | hNew
    · exact hBooks.results r hOld
    · obtain ⟨ws, hWs, hGiven⟩ := List.mem_flatMap.mp hNew
      obtain ⟨entry, -, rfl⟩ := List.mem_map.mp hGiven
      obtain ⟨⟨n, hn⟩, -⟩ := hBooks.tidy.2 ws.desc (List.mem_map_of_mem (List.mem_of_mem_filter hWs))
      exact ⟨n, congrArg WindowDesc.start hn⟩
  whole key n := by
    rw [emitted_collected hBooks.tidy, ← hBooks.whole key n, Windowed.collected, accsAt_filter]
    split_ifs
    · exact List.append_nil _
    · rw [List.append_nil]

theorem Books.complete (hBooks : Books cfg events s) (hEnd : s.watermark = maxInt64) :
    Complete cfg events (Windowed.collected s) := by
  refine ⟨fun key n => ?_, hBooks.collected.results⟩
  have hEmpty : (Windowed.collected s).windows = [] := by
    refine List.filter_eq_nil_iff.mpr fun ws hWs => ?_
    have hFits := (hBooks.tidy.2 ws.desc (List.mem_map_of_mem hWs)).2
    rw [decide_eq_true_eq, hEnd]
    omega
  rw [← hBooks.collected.whole key n, hEmpty]
  exact (List.append_nil _).symm

theorem Books.ticks (hType : cfg.type ≠ .session) (hBooks : Books cfg events s) (late : Nat) :
    ∃ s', ticks cfg late s = some s' ∧ s'.watermark = s.watermark ∧ Books cfg events s' := by
  induction late generalizing s with
  | zero => exact ⟨s, rfl, rfl, hBooks⟩
  | succ late ih =>
    obtain ⟨s', hTicks, hSame, hAfter⟩ := ih hBooks.collected
    refine ⟨s', ?_, hSame, hAfter⟩
    rw [Windowed.ticks, collectCompleted_eq hType]
    exact hTicks

structure Kept (cfg : Config T K Acc) (events : List (Event T)) (s : State K Acc) : Prop
    extends Books cfg events s where
  watermark : s.watermark = minInt64 ∨ ∃ x, ∃ t : Nat, .item x t ∈ events ∧ s.watermark = t
  early : ∀ key n, emitted key (cfg.window n) s.results ≠ [] → Closed cfg events key (cfg.window n)

theorem exists_hit (hSome : expected cfg key d events ≠ []) :
    ∃ x t, .item x t ∈ events ∧ cfg.keyFn x = key ∧ Covers d t := by
  rw [expected] at hSome
  split_ifs at hSome with hNone
  · exact absurd rfl hSome
  · obtain ⟨x, hx⟩ := List.exists_mem_of_ne_nil _ (mt List.isEmpty_iff.mpr hNone)
    obtain ⟨event, hEvent, hHit⟩ := List.mem_filterMap.mp hx
    cases event with
    | tick => cases hHit
    | item y t =>
      rw [hit] at hHit
      split_ifs at hHit with hBoth
      exact ⟨y, t, hEvent, hBoth⟩

theorem Kept.tick (hKept : Kept cfg events s) : Kept cfg (events ++ [.tick]) (Windowed.collected s) where
  tidy := hKept.collected.tidy
  results := hKept.collected.results
  whole key n := by
    rw [expected_concat]
    exact hKept.collected.whole key n
  watermark := hKept.watermark.imp_right fun ⟨x, t, hMem, hSame⟩ => ⟨x, t, List.mem_append_left _ hMem, hSame⟩
  early key n hSome := by
    rw [emitted_collected hKept.tidy] at hSome
    by_cases hBefore : emitted key (cfg.window n) s.results = []
    · rw [hBefore, List.nil_append] at hSome
      split_ifs at hSome with hDone
      · have hWhole := hKept.whole key n
        rw [hBefore, List.nil_append] at hWhole
        obtain ⟨y, r, hItem, hCovers⟩ := exists_hit (hWhole ▸ hSome)
        refine ⟨events, [], rfl, ?_, y, r, hItem, hCovers⟩
        rcases hKept.watermark with hMin | ⟨z, t, hMem, hSame⟩
        · have hStop := hCovers.2.2
          have hNeg : minInt64 < 0 := by decide
          omega
        · exact ⟨z, t, hMem, hSame ▸ hDone⟩
      · exact absurd rfl hSome
    · exact (hKept.early key n hBefore).append _

theorem Kept.item (hKept : Kept cfg events s) {t : Nat}
    {ds : List WindowDesc} (hDs : Lists (Target cfg.toShape t) ds)
    (hOpen : ∀ d ∈ ds, ¬Closed cfg events (cfg.keyFn x) d) :
    Kept cfg (events ++ [.item x t])
      { s with
        windows := ds.foldl (addTo cfg x) s.windows
        watermark := max s.watermark t } where
  tidy := by
    refine hKept.tidy.foldl fun d hd => ⟨?_, hDs.fits d hd⟩
    obtain ⟨n, hn, -⟩ := (hDs.mem d).mp hd
    exact ⟨n, hn⟩
  results := hKept.results
  whole key n := by
    have hIn : cfg.window n ∈ ds ↔ Covers (cfg.window n) t :=
      (hDs.mem _).trans ⟨fun ⟨_, _, hCovers⟩ => hCovers, fun hCovers => ⟨n, rfl, hCovers⟩⟩
    have hWhole := hKept.whole key n
    rw [expected_concat, hit, accsAt_foldl hDs.nodup]
    by_cases hCovers : Covers (cfg.window n) t
    · rw [if_pos (hIn.mpr hCovers), values_fold]
      by_cases hKey : cfg.keyFn x = key
      · have hNone : emitted key (cfg.window n) s.results = [] := by
          by_contra hSome
          exact hOpen _ (hIn.mpr hCovers) (hKey ▸ hKept.early key n hSome)
        rw [hNone, List.nil_append] at hWhole
        rw [if_pos hKey.symm, if_pos ⟨hKey, hCovers⟩, hNone, hWhole]
        rfl
      · rw [if_neg (Ne.symm hKey), if_neg fun hBoth => hKey hBoth.1, hWhole]
        rfl
    · rw [if_neg (mt hIn.mp hCovers), if_neg fun hBoth => hCovers hBoth.2, hWhole]
      rfl
  watermark := by
    rcases Int.le_total s.watermark t with hLate | hEarly
    · exact .inr ⟨x, t, by simp, max_eq_right hLate⟩
    · rw [max_eq_left hEarly]
      exact hKept.watermark.imp_right fun ⟨y, r, hMem, hSame⟩ => ⟨y, r, List.mem_append_left _ hMem, hSame⟩
  early key n hSome := (hKept.early key n hSome).append _

theorem kept_run (hFixed : cfg.Fixed) (hPunctual : Punctual cfg events) :
    ∃ s, run cfg events start = some s ∧ Kept cfg events s := by
  induction events using List.reverseRecOn with
  | nil =>
    refine ⟨start, rfl, ⟨⟨List.nodup_nil, nofun⟩, nofun,
      fun key n => rfl⟩, .inl rfl, fun key n hSome => absurd rfl hSome⟩
  | append_singleton events event ih =>
    obtain ⟨s, hRun, hKept⟩ := ih fun before x t after hEq =>
      hPunctual before x t (after ++ [event]) (by rw [hEq, List.append_assoc, List.cons_append])
    have hNext : run cfg (events ++ [event]) start = step cfg s event := by
      rw [run, List.foldlM_append]
      change (run cfg events start).bind _ = _
      rw [hRun, Option.bind_some, List.foldlM_cons]
      cases step cfg s event <;> rfl
    rw [hNext]
    cases event with
    | tick => exact ⟨_, collectCompleted_eq hFixed.type s, hKept.tick⟩
    | item x t =>
      obtain ⟨ds, hDs, hWhole, hOpen⟩ := hPunctual events x t [] rfl
      refine ⟨_, ?_, hKept.item (windowsOf_lists hFixed hWhole hDs) hOpen⟩
      rw [step, accumulate, if_neg hFixed.type, hDs]
      rfl

/-- If every item comes in time, the windows are given out complete, once each, when the input
worker has finished. -/
theorem complete_of_punctual (hFixed : cfg.Fixed) (hPunctual : Punctual cfg events) (late : Nat) :
    ∃ s, inputWorker cfg events late = some s ∧ Complete cfg events s := by
  obtain ⟨s, hRun, hKept⟩ : ∃ s, run cfg events start = some s ∧
      Kept cfg events s := kept_run hFixed hPunctual
  have hEnd : Books cfg events { s with watermark := maxInt64 } := { hKept with }
  obtain ⟨s', hTicks, hSame, hBooks⟩ := hEnd.ticks hFixed.type late
  refine ⟨_, ?_, hBooks.complete hSame⟩
  rw [inputWorker, hRun, Option.bind_some, hTicks]
  exact collectCompleted_eq hFixed.type s'

end Books

section Instances

def millisecond : Config Nat Unit (List Nat) := ⟨⟨.tumbling, 1, 1, 0⟩, fun _ => (), [], fun acc x => acc ++ [x]⟩

/-- The ticker gives out the first of two windows, the input worker the second. -/
theorem complete_two_items : let events : List (Event Nat) := [.item 5 0, .item 6 2000000, .tick]
    (∃ s, run millisecond events start = some s ∧ emitted () (millisecond.window 0) s.results = [[5]]) ∧
      ∃ s, inputWorker millisecond events 1 = some s ∧ Complete millisecond events s := by
  refine ⟨⟨_, rfl, rfl⟩, complete_of_punctual ⟨by decide, by decide, by decide⟩ ?_ 1⟩
  intro before x t after hEq
  have hNoTick : .tick ∉ before := by
    rcases before with _ | ⟨first, _ | ⟨second, _ | ⟨third, _ | ⟨fourth, rest⟩⟩⟩⟩
    · simp
    · cases hEq
      simp
    · cases hEq
    · simp at hEq
    · simp at hEq
  have hMem : Event.item x t ∈ [Event.item 5 0, .item 6 2000000, .tick] := by simp [hEq]
  obtain ⟨ds, hDs⟩ : ∃ ds, millisecond.windowsOf t = some ds := by
    simp only [List.mem_cons, Event.item.injEq] at hMem
    rcases hMem with ⟨-, rfl⟩ | ⟨-, rfl⟩ | hNot
    · exact ⟨_, rfl⟩
    · exact ⟨_, rfl⟩
    · simp at hNot
  refine ⟨ds, hDs, .inl rfl, fun d _ hClosed => ?_⟩
  obtain ⟨first, last, rfl, -⟩ := hClosed
  exact hNoTick (by simp)

/-- An item of the first millisecond comes after the ticker has given its window out: it is given
out again. -/
theorem emitted_twice : ∃ s : State Unit (List Nat), inputWorker millisecond
        [.item 1 0, .item 2 2000000, .tick, .item 3 0] 0 = some s ∧
      emitted () (millisecond.window 0) s.results = [[1], [3]] ∧ ¬Complete millisecond
        [.item 1 0, .item 2 2000000, .tick, .item 3 0] s := by
  refine ⟨_, rfl, rfl, fun hComplete => ?_⟩
  exact absurd (hComplete.1 () 0) (by decide)

end Instances

end Windowed

end Pipeline
