import Mathlib.Data.List.Pairwise
import QbuemStack.Core.TimerRuns

/-! Ticks and whole runs. A run is defined exactly if no callback cancels the entry that its walk
has saved, and then the log is the account of every timer. -/
namespace TimerWheel

open LinkedList
open List (count count_cons range)

variable {κ : Type}

section Tick

variable {pending pending' : Nat} {rule : WalkRule} {s : State κ} {sh : Shape} {fate : Addr → Nat}

/-- A slot is taken out of the wheel to be walked over, at the time `now`. -/
theorem Sound.detach (h : Sound pending rule s sh fate) (hWalk : sh.walk = []) (rule' : WalkRule) {now : Nat}
    (hNow : s.currentMs ≤ now) (lv sl : Nat) (hSplit : ∀ l x expiry f, Due s.currentMs pending l x expiry f →
      (l = lv ∧ x = sl ∧ rule' now expiry f) ∨ (¬(l = lv ∧ x = sl) ∧ Due now pending' l x expiry f)) :
    Sound pending' rule' (({ s with currentMs := now } : State κ).setSlot lv sl none) (sh.detach lv sl) fate := by
  have hLinks : Links { s with currentMs := now } sh := { h.links with }
  refine { h with links := hLinks.detach hWalk lv sl, ledger := { h.ledger with }, timely := ?_ }
  refine { h.timely with lists := ?lists, walk := ?walk, fired := ?fired }
  case lists =>
    intro l x a hMem e hVal
    simp only [Shape.detach] at hMem
    split_ifs at hMem with hHere
    · cases hMem
    · rcases hSplit l x _ _ (h.timely.lists l x a hMem e hVal) with ⟨hl, hx, -⟩ | ⟨-, hDue⟩
      · exact absurd ⟨hl, hx⟩ hHere
      · exact hDue
  case walk =>
    intro a hMem e hVal
    rcases hSplit lv sl _ _ (h.timely.lists lv sl a hMem e hVal) with ⟨-, -, hRule⟩ | ⟨hNot, -⟩
    · exact hRule
    · exact absurd ⟨rfl, rfl⟩ hNot
  case fired => exact fun a t hMem => (h.timely.fired a t hMem).imp_right fun hLe => Nat.le_trans hLe hNow

theorem Sound.walk_length (h : Sound pending rule s sh fate) : sh.walk.length ≤ s.fresh := by
  obtain ⟨p, hChain⟩ := h.links.walkChain
  refine length_le_of_lt h.links.walkNodup fun a ha => ?_
  obtain ⟨n, hNode⟩ := hChain.live ha
  exact h.links.below a n.val (val_of_node hNode)

theorem Rests.fireSlot (h : Rests 4 s) (behaviour : Behaviour κ) :
    Leads (fireSlot behaviour s.advance 0 (s.advance.currentMs % SLOTS_PER_LEVEL))
      (fun s' _ => RestsAt 1 (s.currentMs + 1) s') fun _ => False := by
  obtain ⟨sh, fate, hSound, hWalk, hHand⟩ := h dueNow
  have hDetached := hSound.detach hWalk dueNow (Nat.le_succ s.currentMs) 0 ((s.currentMs + 1) % 256)
    fun l x expiry f hDue => hDue.advance
  have hFired := hDetached.fireWalk hHand behaviour hDetached.walk_length 0
  rw [Shape.detach, ← hSound.links.heads] at hFired
  exact hFired

theorem Rests.cascade (h : Rests pending s) (hLevel : 1 ≤ pending) (hTurn : s.currentMs % kSlotMs pending = 0) :
    ∃ s', cascade s pending (slotFor pending s.currentMs) = .ok (s', ()) ∧ RestsAt (pending + 1) s.currentMs s' := by
  obtain ⟨sh, fate, hSound, hWalk, hHand⟩ := h Settled
  have hDetached := hSound.detach hWalk Settled (Nat.le_refl s.currentMs) pending (slotFor pending s.currentMs)
    fun l x expiry f hDue => hDue.redistribute hLevel hTurn
  obtain ⟨s', hCascade, hRests⟩ := hDetached.cascadeWalk hHand hDetached.walk_length
  rw [Shape.detach, ← hSound.links.heads] at hCascade
  exact ⟨s', hCascade, hRests⟩

theorem Rests.stop (h : Rests pending s) (hTurn : s.currentMs % kSlotMs pending ≠ 0) : Rests 4 s := by
  intro rule
  obtain ⟨sh, fate, hSound, hWalk, hHand⟩ := h rule
  refine ⟨sh, fate, { hSound with timely := ?_ }, hWalk, hHand⟩
  exact { hSound.timely with
    lists := fun lv sl a hMem e hVal => (hSound.timely.lists lv sl a hMem e hVal).rest hTurn }

theorem Rests.cascades (levels : Nat) {lv : Nat} (h : Rests lv s) (hLevel : 1 ≤ lv) (hTop : levels + lv = 4) :
    ∃ s', cascades levels s lv = .ok (s', ()) ∧ RestsAt 4 s.currentMs s' := by
  induction levels generalizing s lv with
  | zero =>
    obtain rfl : lv = 4 := by omega
    exact ⟨s, rfl, h, rfl⟩
  | succ levels ih =>
    rw [TimerWheel.cascades]
    split_ifs with hTurn
    · obtain ⟨s', hCascade, hRests, hClock⟩ := h.cascade hLevel hTurn
      obtain ⟨s'', hRest, hRests', hClock'⟩ := ih hRests (by omega) (by omega)
      exact ⟨s'', by rw [hCascade]; exact hRest, hRests', hClock'.trans hClock⟩
    · exact ⟨s, rfl, h.stop hTurn, rfl⟩

theorem Rests.tickStep (h : Rests 4 s) (behaviour : Behaviour κ) :
    Leads (tickStep behaviour s) (fun s' _ => RestsAt 4 (s.currentMs + 1) s') fun _ => False := by
  refine (h.fireSlot behaviour).bind ?_ (fun s' _ =>
    (.bind (grows_cascades _ s' _) fun _ _ => .refl rfl : Grows True _ _))
    fun _ _ hFalse => hFalse.elim
  rintro s' fired ⟨hRests, hClock⟩
  obtain ⟨s'', hCascades, hRests', hClock'⟩ := hRests.cascades 3 (Nat.le_refl 1) rfl
  refine .inl ⟨s'', fired, ?_, hRests', hClock'.trans hClock⟩
  change (TimerWheel.cascades 3 s' 1).bind _ = _
  rw [hCascades]
  rfl

theorem Rests.tickSteps (h : Rests 4 s) (behaviour : Behaviour κ) (steps fired : Nat) :
    Leads (tickSteps behaviour steps s fired) (fun s' _ => RestsAt 4 (s.currentMs + steps) s') fun _ => False := by
  induction steps generalizing s fired with
  | zero => exact .inl ⟨s, fired, rfl, h, rfl⟩
  | succ steps ih =>
    refine (h.tickStep behaviour).bind ?_ (fun s' _ => grows_tickSteps behaviour steps s' _)
      fun _ _ hFalse => hFalse.elim
    rintro s' x ⟨hRests, hClock⟩
    have hSteps := ih hRests (fired + x)
    rw [hClock, Nat.add_right_comm] at hSteps
    exact hSteps

end Tick

section Run

theorem Rests.apply {s : State κ} (h : Rests 4 s) (behaviour : Behaviour κ) (op : Op κ) :
    Leads (apply behaviour s op) (fun s' _ => Rests 4 s') fun _ => False := by
  cases op with
  | schedule delay fn =>
    obtain ⟨sh, fate, hSound, hWalk, hHand⟩ := h dueNow
    obtain ⟨s', id, sh', fate', hSchedule, hSound', hWalk', hHand', -⟩ := hSound.schedule delay fn
    refine .inl ⟨s', (), ?_, hSound'.rests (hWalk'.trans hWalk) (hHand'.trans hHand)⟩
    rw [TimerWheel.apply, hSchedule]
    rfl
  | cancel id =>
    obtain ⟨sh, fate, hSound, hWalk, hHand⟩ := h dueNow
    refine (hSound.cancel dueNow_le (.inr ⟨rfl, hWalk⟩) id).bind ?_ (fun _ _ => (.refl rfl : Grows True _ _)) ?_
    · rintro s' found ⟨sh', hSound', hSame⟩
      have hWalk' : sh'.walk = [] := by
        have hFront := hSame.front
        rw [hWalk] at hFront
        exact List.head?_eq_none_iff.mp hFront
      exact .inl ⟨s', (), rfl, hSound'.rests hWalk' (hSame.hand.trans hHand)⟩
    · rintro s' _ ⟨b, hFront, -⟩
      rw [hWalk] at hFront
      cases hFront
  | tick elapsed =>
    refine (h.tickSteps behaviour _ 0).bind ?_ (fun _ _ => (.refl rfl : Grows True _ _)) fun _ _ hFalse => hFalse.elim
    rintro s' _ ⟨hRests, -⟩
    exact .inl ⟨s', (), rfl, hRests⟩

/-- Every run ends in a wheel at rest, or a callback has hit the saved entry. -/
theorem run_rests (behaviour : Behaviour κ) (capacity : Nat) (ops : List (Op κ)) :
    Leads (run behaviour capacity ops) (fun s _ => Rests 4 s) fun _ => False := by
  induction ops with
  | nil => exact .inl ⟨_, (), rfl, (sound_initial capacity dueNow).rests rfl rfl⟩
  | cons op past ih =>
    exact ih.bind (fun s _ hRests => hRests.apply behaviour op) (fun s _ => grows_apply behaviour s op)
      fun _ _ hFalse => hFalse.elim

end Run

section Account

theorem eq_of_filterMap_nodup {α β : Type} {f : α → Option β} {l : List α} (hNodup : (l.filterMap f).Nodup)
    {x y : α} (hx : x ∈ l) (hy : y ∈ l) {b : β} (hfx : f x = some b) (hfy : f y = some b) : x = y := by
  by_contra hNe
  have hPairs := List.pairwise_filterMap.mp hNodup
  have hSymm : Std.Symm fun x y => ∀ b, f x = some b → ∀ b', f y = some b' → b ≠ b' :=
    ⟨fun x y h b hb b' hb' hEq => h b' hb' b hb hEq.symm⟩
  exact hPairs.forall hx hy hNe b hfx b hfy rfl

theorem count_returned (log : List Event) (a : Addr) : log.count (.returned a) = (returnedOf log).count a := by
  induction log with
  | nil => rfl
  | cons event rest ih =>
    cases event with
    | returned b =>
      change count (Event.returned a) (Event.returned b :: rest) = count a (b :: returnedOf rest)
      rw [count_cons, count_cons, ih]
      by_cases hb : b = a <;> simp [hb]
    | scheduled b d t | cancelled b t saved | fired b t => simpa [returnedOf] using ih

theorem length_filter_range {l : List Nat} {n : Nat} (hNodup : l.Nodup) (hLt : ∀ x ∈ l, x < n) :
    ((range n).filter fun x => x ∉ l).length + l.length = n := by
  have hPerm : ((range n).filter fun x => x ∈ l).Perm l := by
    refine (List.perm_ext_iff_of_nodup (List.nodup_range.filter _) hNodup).mpr fun x => ?_
    rw [List.mem_filter, List.mem_range, decide_eq_true_eq]
    exact ⟨fun h => h.2, fun h => ⟨hLt x h, h⟩⟩
  have hSplit := List.length_eq_length_filter_add (l := range n) fun x => decide (x ∈ l)
  have hNot : ((range n).filter fun x => x ∉ l) = (range n).filter fun x => !decide (x ∈ l) := by
    refine List.filter_congr fun x _ => ?_
    rw [decide_not]
  rw [List.length_range, hPerm.length_eq] at hSplit
  rw [hNot]
  omega

/-- No timer is both cancelled and fired, an entry is returned once just if its timer has ended, and
the count is right. -/
structure Accounted (s : State κ) : Prop where
  exclusive : ∀ a t saved, Event.cancelled a t saved ∈ s.log → ∀ t', Event.fired a t' ∉ s.log
  returnedOnce : ∀ a, s.log.count (.returned a) = if a ∈ endedOf s.log then 1 else 0
  counted : s.count = ((scheduledOf s.log).filter fun a => a ∉ endedOf s.log).length

/-- A wheel at rest has its account right. -/
theorem Rests.accounted {s : State κ} (h : Rests 4 s) : Accounted s := by
  obtain ⟨sh, fate, hSound, -, hHand⟩ := h dueNow
  have hLedger := hSound.ledger
  have hSame : ∀ a, a ∈ returnedOf s.log ↔ a ∈ endedOf s.log := by
    intro a
    rw [hLedger.returned, hLedger.ended, hHand]
    simp
  constructor
  case exclusive =>
    intro a t saved hCancelled t' hFired
    have hEq := eq_of_filterMap_nodup hLedger.endedNodup hCancelled hFired (b := a) rfl rfl
    cases hEq
  case returnedOnce =>
    intro a
    rw [count_returned, hLedger.returnedNodup.count]
    simp only [hSame]
  case counted =>
    have hPerm := (List.perm_ext_iff_of_nodup hLedger.returnedNodup hLedger.endedNodup).mpr hSame
    have hLeft := length_filter_range hLedger.endedNodup fun a ha => ((hLedger.ended a).mp ha).1
    have hCounted := hLedger.counted
    rw [hPerm.length_eq] at hCounted
    rw [hLedger.allocations, List.filter_reverse, List.length_reverse]
    exact Nat.add_right_cancel (hCounted.trans hLeft.symm)

/-- Callbacks may schedule and cancel at will: the run is defined and its account right, exactly if none cancels the
entry that its walk has saved. -/
theorem reentrant_iff (behaviour : Behaviour κ) (capacity : Nat) (ops : List (Op κ)) :
    (∃ s, run behaviour capacity ops = .ok (s, ()) ∧ Accounted s) ↔
      ¬HitsSaved (last (run behaviour capacity ops)).log := by
  rcases run_rests behaviour capacity ops with ⟨s, x, hRun, hRests⟩ | ⟨hHit, hUndefined⟩
  · obtain ⟨sh, fate, hSound, -, -⟩ := hRests dueNow
    rw [hRun]
    exact iff_of_true ⟨s, rfl, hRests.accounted⟩ hSound.intact
  · refine iff_of_false ?_ fun hNot => hNot hHit
    rintro ⟨s, hRun, -⟩
    exact hUndefined s () hRun

/-- Two timers in one slot, and the one that fires first cancels the other. -/
theorem reentrant_neighbour : ¬∃ s, run (fun (_ : Unit) _ => .cancel 1 fun _ => .done) 2
      [.tick 5, .schedule 5 (some ()), .schedule 5 none] = .ok (s, ()) ∧ Accounted s := by
  rintro ⟨s, hRun, -⟩
  have hUndefined : (run (fun (_ : Unit) _ => .cancel 1 fun _ => .done) 2
      [.tick 5, .schedule 5 (some ()), .schedule 5 none]).isOk = false := by decide +kernel
  rw [hRun] at hUndefined
  cases hUndefined

end Account

section FiringTime

def quiet : Behaviour κ := fun _ _ => .done

def dueTime (t delay : Nat) : Nat := t + max delay 1

/-- The timers without a delay, and those that leave the first level and expire at a multiple of its
size. -/
def Boundary (t delay : Nat) : Prop := delay = 0 ∨ 256 ≤ delay ∧ (t + delay) % 256 = 0

def CancelledBefore (log : List Event) (a : Addr) (time : Nat) : Prop :=
  ∃ t saved, Event.cancelled a t saved ∈ log ∧ t < time

/-- Every timer whose expiry does not wrap fires in its millisecond and at no other time, unless it
was cancelled before. -/
def OnTime (s : State κ) : Prop :=
  ∀ a delay t, Event.scheduled a delay t ∈ s.log → t + delay < 2 ^ 64 →
    (∀ t', Event.fired a t' ∈ s.log → t' = dueTime t delay) ∧
    s.log.count (.fired a (dueTime t delay)) ≤ 1 ∧
    (dueTime t delay ≤ s.currentMs →
      Event.fired a (dueTime t delay) ∈ s.log ∨ CancelledBefore s.log a (dueTime t delay))

theorem fireTime_boundary {t delay : Nat} (hBoundary : Boundary t delay) :
    dueTime t delay < fireTime t (t + delay) := by
  unfold dueTime fireTime
  rcases hBoundary with rfl | ⟨hFar, hEven⟩
  · simp
  · rw [if_neg (by omega), if_neg (by omega), if_pos hEven]
    omega

theorem fireTime_exact {t delay : Nat} (hBoundary : ¬Boundary t delay) : fireTime t (t + delay) = dueTime t delay := by
  unfold Boundary at hBoundary
  unfold dueTime fireTime
  split_ifs <;> omega

theorem count_fired_le (log : List Event) (a : Addr) (t : Nat) : log.count (.fired a t) ≤ (endedOf log).count a := by
  induction log with
  | nil => exact Nat.le_refl _
  | cons event rest ih =>
    cases event with
    | fired b t' =>
      change count (Event.fired a t) (Event.fired b t' :: rest) ≤ count a (b :: endedOf rest)
      rw [count_cons, count_cons]
      by_cases hb : b = a
      · subst hb
        simp only [beq_self_eq_true, ↓reduceIte]
        split_ifs <;> omega
      · simpa [hb] using ih
    | cancelled b t' saved =>
      change count (Event.fired a t) (Event.cancelled b t' saved :: rest) ≤ count a (b :: endedOf rest)
      rw [List.count_cons_of_ne (by simp)]
      exact Nat.le_trans ih (List.count_le_count_cons ..)
    | scheduled b d t' | returned b => simpa [endedOf] using ih

theorem Rests.ended {s : State κ} {sh : Shape} {fate : Addr → Nat} (h : Sound 4 dueNow s sh fate)
    (hWalk : sh.walk = []) (hHand : sh.hand = [])
    (hOutside : ∀ a t saved, Event.cancelled a t saved ∈ s.log → saved = none) {a : Addr} (hLt : a < s.fresh)
    (hFate : fate a ≤ s.currentMs) : Event.fired a (fate a) ∈ s.log ∨ CancelledBefore s.log a (fate a) := by
  have hEnded : a ∈ endedOf s.log := by
    rw [h.ledger.ended]
    refine ⟨hLt, .inl ?_⟩
    cases hVal : s.heap.val a with
    | none => rfl
    | some e =>
      rcases h.links.cover a e hVal with hIn | hIn | hIn
      · have hAhead := (h.timely.lists _ _ a hIn e hVal).ahead
        omega
      · rw [hWalk] at hIn
        cases hIn
      · rw [hHand] at hIn
        cases hIn
  obtain ⟨event, hMem, hEvent⟩ := List.mem_filterMap.mp hEnded
  cases event with
  | fired b t =>
    obtain rfl : b = a := Option.some.inj hEvent
    exact .inl ((h.timely.fired b t hMem).1 ▸ hMem)
  | cancelled b t saved =>
    obtain rfl : b = a := Option.some.inj hEvent
    exact .inr ⟨t, saved, hMem, (h.timely.cancelled b t saved hMem).2 (hOutside b t saved hMem)⟩
  | scheduled | returned => cases hEvent

theorem run_quiet (capacity : Nat) (ops : List (Op κ)) : ∃ s, run quiet capacity ops = .ok (s, ()) ∧ Rests 4 s ∧
      ∀ a t saved, Event.cancelled a t saved ∈ s.log → saved = none := by
  have hOutside : ∀ a t saved, Event.cancelled a t saved ∈ (last (run quiet capacity ops)).log → saved = none := by
    intro a t saved hMem
    obtain ⟨more, hLog, hWithin⟩ := grows_run quiet capacity ops
    have hMore : more ++ (initial κ capacity).log = more := List.append_nil more
    rw [hLog, hMore] at hMem
    cases saved with
    | none => rfl
    | some saved =>
      obtain ⟨f, s, hCalls⟩ := hWithin _ hMem
      exact absurd rfl hCalls
  rcases run_rests quiet capacity ops with ⟨s, x, hRun, hRests⟩ | ⟨⟨a, t, hMem⟩, -⟩
  · rw [hRun] at hOutside
    exact ⟨s, hRun, hRests, hOutside⟩
  · cases hOutside a t _ hMem

/-- Called from outside only, the wheel fires every timer on time exactly if every boundary timer
whose time has come was cancelled before. -/
theorem onTime_iff (capacity : Nat) (ops : List (Op κ)) : ∃ s, run quiet capacity ops = .ok (s, ()) ∧
      (OnTime s ↔ ∀ a delay t, Event.scheduled a delay t ∈ s.log → t + delay < 2 ^ 64 → Boundary t delay →
        dueTime t delay ≤ s.currentMs → CancelledBefore s.log a (dueTime t delay)) := by
  obtain ⟨s, hRun, hRests, hOutside⟩ := run_quiet capacity ops
  obtain ⟨sh, fate, hSound, hWalk, hHand⟩ := hRests dueNow
  refine ⟨s, hRun, ?_⟩
  have hFate : ∀ a delay t, Event.scheduled a delay t ∈ s.log → t + delay < 2 ^ 64 →
      fate a = fireTime t (t + delay) := by
    intro a delay t hMem hLt
    rw [hSound.timely.fates a delay t hMem, wrap, Nat.mod_eq_of_lt hLt]
  constructor
  · intro hOnTime a delay t hMem hLt hBoundary hNow
    obtain ⟨-, -, hDone⟩ := hOnTime a delay t hMem hLt
    rcases hDone hNow with hFired | hCancelled
    · have hLate := fireTime_boundary hBoundary
      rw [← hFate a delay t hMem hLt, ← (hSound.timely.fired a _ hFired).1] at hLate
      exact absurd hLate (Nat.lt_irrefl _)
    · exact hCancelled
  · intro hCancelled a delay t hMem hLt
    have hOnce : s.log.count (.fired a (dueTime t delay)) ≤ 1 :=
      Nat.le_trans (count_fired_le ..) (List.nodup_iff_count_le_one.mp hSound.ledger.endedNodup a)
    by_cases hBoundary : Boundary t delay
    · refine ⟨fun t' hFired => ?_, hOnce, fun hNow => .inr (hCancelled a delay t hMem hLt hBoundary hNow)⟩
      obtain ⟨hTime, hPast⟩ := hSound.timely.fired a t' hFired
      have hLate := fireTime_boundary hBoundary
      rw [← hFate a delay t hMem hLt, ← hTime] at hLate
      obtain ⟨x, saved, hEvent, -⟩ := hCancelled a delay t hMem hLt hBoundary (by omega)
      exact absurd hFired (hRests.accounted.exclusive a x saved hEvent t')
    · have hExact : fate a = dueTime t delay := (hFate a delay t hMem hLt).trans (fireTime_exact hBoundary)
      refine ⟨fun t' hFired => (hSound.timely.fired a t' hFired).1.trans hExact, hOnce, fun hNow => ?_⟩
      rw [← hExact] at hNow ⊢
      exact Rests.ended hSound hWalk hHand hOutside (hSound.ledger.lt_of_scheduled hMem) hNow

theorem not_onTime {s : State κ} (a : Addr) (delay t : Nat)
    (hAt : (s.log, s.currentMs) = ([.scheduled a delay t], dueTime t delay)) (hLt : t + delay < 2 ^ 64) :
    ¬OnTime s := by
  intro hOnTime
  obtain ⟨hLog, hNow⟩ := Prod.mk.inj hAt
  obtain ⟨-, -, hDone⟩ := hOnTime a delay t (by rw [hLog]; exact List.mem_cons_self ..) hLt
  rcases hDone (Nat.le_of_eq hNow.symm) with hFired | ⟨x, saved, hCancelled, -⟩
  · rw [hLog, List.mem_singleton] at hFired
    cases hFired
  · rw [hLog, List.mem_singleton] at hCancelled
    cases hCancelled

/-- A timer without a delay does not fire in the next millisecond, and a timer of 256 ms does not
fire after 256 ms. -/
theorem onTime_missed : ¬OnTime (last (run (quiet : Behaviour Unit) 1 [.tick 1, .schedule 0 none])) ∧
      ¬OnTime (last (run (quiet : Behaviour Unit) 1 [.tick 256, .schedule 256 none])) := by
  constructor
  · exact not_onTime 0 0 0 (by decide +kernel) (by decide)
  · exact not_onTime 0 256 0 (by decide +kernel) (by decide)

end FiringTime

end TimerWheel
