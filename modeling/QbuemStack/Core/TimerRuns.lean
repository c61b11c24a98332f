import Mathlib.Data.List.Perm.Subperm
import QbuemStack.Core.TimerClock

/-! The invariant of the wheel and what every operation does to it. The walk over a slot being fired
goes wrong in one way only: a callback cancels the very entry that the walk has saved as the next
one. -/
namespace TimerWheel

open LinkedList Shape Heap
open List (lookup_cons mem_cons mem_cons_self mem_of_ne_of_mem range)
open Option (elim_some)

variable {κ : Type}

section Log

def scheduledOf (log : List Event) : List Addr :=
  log.filterMap fun
    | .scheduled a _ _ => some a
    | _ => none

def endedOf (log : List Event) : List Addr :=
  log.filterMap fun
    | .fired a _ => some a
    | .cancelled a _ _ => some a
    | _ => none

def returnedOf (log : List Event) : List Addr :=
  log.filterMap fun
    | .returned a => some a
    | _ => none

/-- A callback cancelled the entry its walk had saved. -/
def HitsSaved (log : List Event) : Prop := ∃ a t, Event.cancelled a t (some (some a)) ∈ log

theorem HitsSaved.mono {log more : List Event} (h : HitsSaved log) (hMore : log <:+ more) : HitsSaved more := by
  obtain ⟨a, t, hMem⟩ := h
  exact ⟨a, t, hMore.subset hMem⟩

def Event.Within (inside : Prop) : Event → Prop
  | .cancelled _ _ (some _) => inside
  | _ => True

def Grows {α : Type} (inside : Prop) (s : State κ) (r : Result κ α) : Prop :=
  ∃ more, (last r).log = more ++ s.log ∧ ∀ event ∈ more, event.Within inside

section Rules

variable {α β : Type} {inside : Prop} {s : State κ} {r : Result κ α}

theorem Grows.suffix (h : Grows inside s r) : s.log <:+ (last r).log := by
  obtain ⟨more, hLog, -⟩ := h
  exact ⟨more, hLog.symm⟩

theorem Grows.refl (hLog : (last r).log = s.log) : Grows inside s r :=
  ⟨[], hLog, nofun⟩

theorem Grows.same (s' : State κ) (hLog : s'.log = s.log) (h : Grows inside s' r) : Grows inside s r := by
  obtain ⟨more, hMore, hWithin⟩ := h
  exact ⟨more, by rw [hMore, hLog], hWithin⟩

theorem Grows.note (s' : State κ) {event : Event} (hLog : s'.log = event :: s.log) (hEvent : event.Within inside)
    (h : Grows inside s' r) : Grows inside s r := by
  obtain ⟨more, hMore, hWithin⟩ := h
  refine ⟨more ++ [event], by rw [hMore, hLog, List.append_assoc, List.singleton_append], ?_⟩
  exact List.forall_mem_append.mpr ⟨hWithin, List.forall_mem_singleton.mpr hEvent⟩

theorem Grows.mono {inside' : Prop} (h : Grows inside s r) (hInside : inside → inside') : Grows inside' s r := by
  obtain ⟨more, hMore, hWithin⟩ := h
  refine ⟨more, hMore, fun event hMem => ?_⟩
  have hEvent := hWithin event hMem
  cases event with
  | cancelled a t saved =>
    cases saved with
    | none => trivial
    | some saved => exact hInside hEvent
  | _ => trivial

theorem Grows.use {x : Option α} {f : α → Result κ β} (h : ∀ y, Grows inside s (f y)) : Grows inside s (s.use x f) := by
  cases x with
  | none => exact .refl rfl
  | some y => exact h y

theorem Grows.bind {f : State κ × α → Result κ β} (h : Grows inside s r)
    (hf : ∀ s' x, Grows inside s' (f (s', x))) : Grows inside s (r.bind f) := by
  cases r with
  | error s' => exact h
  | ok out =>
    obtain ⟨more, hMore, hWithin⟩ := h
    obtain ⟨more', hMore', hWithin'⟩ := hf out.1 out.2
    refine ⟨more' ++ more, hMore'.trans (by rw [List.append_assoc]; exact congrArg _ hMore), ?_⟩
    intro event hMem
    rcases List.mem_append.mp hMem with hMem | hMem
    · exact hWithin' event hMem
    · exact hWithin event hMem

end Rules

variable {inside : Prop}

section

variable (s : State κ) (saved : Option (Option Addr)) (a : Addr)

theorem grows_insert : Grows inside s (insert s a) :=
  .use fun n => .same (s.record a n) rfl (.use fun _ => .refl rfl)

theorem grows_unlink (lv sl : Nat) (a : Addr) : Grows inside s (unlink s lv sl a) :=
  .use fun _ => .refl rfl

theorem grows_release : Grows inside s (s.release a) :=
  .use fun _ => .note (s.noteEvent (.returned a)) rfl trivial (.refl rfl)

theorem grows_schedule (delay : Nat) (fn : Option κ) : Grows inside s (schedule s delay fn) := by
  unfold schedule
  by_cases hFull : s.used ≥ s.capacity
  · rw [if_pos hFull]
    exact .refl rfl
  · rw [if_neg hFull]
    exact .note (s.allocate delay fn) rfl trivial (.bind (grows_insert _ _) fun _ _ => .refl rfl)

theorem grows_cancelEntry {id : Nat} (hId : id ≠ kInvalid) {a : Addr}
    (hLookup : s.index.lookup id = some a) : Grows inside (s.beginCancel saved id a) (cancel s saved id) := by
  rw [cancel, if_neg hId, hLookup, elim_some]
  refine .use fun n => .bind (grows_unlink _ _ _ _) fun s' _ => .bind ?_ fun _ _ => .refl rfl
  exact .same (s'.dropMin n.val.expiryMs) rfl (grows_release _ _)

theorem grows_cancel (id : Nat) : Grows (saved ≠ none) s (cancel s saved id) := by
  by_cases hId : id = kInvalid
  · rw [cancel, if_pos hId]
    exact .refl rfl
  cases hLookup : s.index.lookup id with
  | none =>
    rw [cancel, if_neg hId, hLookup, Option.elim_none]
    exact .refl rfl
  | some a =>
    refine .note (s.beginCancel saved id a) rfl ?_ (grows_cancelEntry s saved hId hLookup)
    cases saved with
    | none => trivial
    | some saved => exact Option.some_ne_none saved

theorem grows_runScript (saved : Option Addr) (script : Script κ) (s : State κ) :
    Grows (script ≠ .done) s (runScript saved script s) := by
  have hTrue : Grows True s (runScript saved script s) := by
    induction script generalizing s with
    | done => exact .refl rfl
    | schedule delay fn next ih => exact (grows_schedule s delay fn).bind fun s' id => ih id s'
    | cancel id next ih =>
      exact ((grows_cancel s (some saved) id).mono fun _ => trivial).bind fun s' found => ih found s'
  cases script with
  | done => exact .refl rfl
  | schedule delay fn next | cancel id next => exact hTrue.mono nofun

def Loud (behaviour : Behaviour κ) : Prop := ∃ f s, behaviour f s ≠ .done

end

variable (behaviour : Behaviour κ)

section

variable (rounds : Nat) (s : State κ) (a : Option Addr)

theorem grows_callback (fn : Option κ) (saved : Option Addr) :
    Grows (Loud behaviour) s (callback behaviour s fn saved) := by
  cases fn with
  | none => exact .refl rfl
  | some f => exact (grows_runScript saved _ s).mono fun hCalls => ⟨f, s, hCalls⟩

theorem grows_fireEntry (a : Addr) (e : Entry κ) (saved : Option Addr) :
    Grows (Loud behaviour) s (fireEntry behaviour s a e saved) :=
  .note (s.beginFire a e) rfl trivial (.bind (grows_callback behaviour _ e.fn saved) fun s' _ => grows_release s' a)

theorem grows_fireWalk (fired : Nat) : Grows (Loud behaviour) s (fireWalk behaviour rounds s a fired) := by
  induction rounds generalizing s a fired with
  | zero => cases a <;> exact .refl rfl
  | succ rounds ih =>
    cases a with
    | none => exact .refl rfl
    | some a =>
      refine .use fun n => .same (s.clearLinks a n) rfl ?_
      split_ifs
      · exact .bind (grows_fireEntry behaviour _ a n.val n.next) fun s' _ => ih s' _ _
      · exact .bind (grows_insert _ a) fun s' _ => ih s' _ _

theorem grows_cascadeWalk : Grows inside s (cascadeWalk rounds s a) := by
  induction rounds generalizing s a with
  | zero => cases a <;> exact .refl rfl
  | succ rounds ih =>
    cases a with
    | none => exact .refl rfl
    | some a =>
      refine .use fun n => .same (s.clearLinks a n) rfl ?_
      exact .bind (grows_insert _ a) fun s' _ => ih s' _

theorem grows_cascades (levels : Nat) (s : State κ) (lv : Nat) : Grows inside s (cascades levels s lv) := by
  induction levels generalizing s lv with
  | zero => exact .refl rfl
  | succ levels ih =>
    rw [cascades]
    split_ifs
    · refine .bind ?_ fun s' _ => ih s' _
      exact .same (s.setSlot lv (slotFor lv s.currentMs) none) rfl (grows_cascadeWalk _ _ _)
    · exact .refl rfl

theorem grows_tickStep : Grows (Loud behaviour) s (tickStep behaviour s) := by
  refine .bind ?_ fun s' _ => .bind (grows_cascades _ s' _) fun _ _ => .refl rfl
  exact .same (s.advance.setSlot 0 (s.advance.currentMs % SLOTS_PER_LEVEL) none) rfl
    (grows_fireWalk behaviour _ _ _ _)

theorem grows_tickSteps (steps : Nat) (s : State κ) (fired : Nat) :
    Grows (Loud behaviour) s (tickSteps behaviour steps s fired) := by
  induction steps generalizing s fired with
  | zero => exact .refl rfl
  | succ steps ih => exact .bind (grows_tickStep behaviour s) fun s' _ => ih s' _

theorem grows_apply (op : Op κ) : Grows (Loud behaviour) s (apply behaviour s op) := by
  cases op with
  | schedule delay fn => exact .bind (grows_schedule s delay fn) fun _ _ => .refl rfl
  | cancel id => exact .bind ((grows_cancel s none id).mono fun hNone => absurd rfl hNone) fun _ _ => .refl rfl
  | tick elapsed => exact .bind (grows_tickSteps behaviour _ s 0) fun _ _ => .refl rfl

theorem grows_run (capacity : Nat) (ops : List (Op κ)) :
    Grows (Loud behaviour) (initial κ capacity) (run behaviour capacity ops) := by
  induction ops with
  | nil => exact .refl rfl
  | cons op past ih => exact ih.bind fun s _ => grows_apply behaviour s op

end

end Log

section Invariant

def Indexed (s : State κ) (sh : Shape) : Prop :=
  ∀ id a, s.index.lookup id = some a → ∃ e, s.heap.val a = some e ∧ e.id = id ∧ a ∉ sh.hand

/-- Every allocation is pending, in the hand of the code that fires it, or returned to the pool. -/
structure Ledger (s : State κ) (sh : Shape) : Prop where
  allocations : scheduledOf s.log = (List.range s.fresh).reverse
  endedNodup : (endedOf s.log).Nodup
  ended : ∀ a, a ∈ endedOf s.log ↔ a < s.fresh ∧ (s.heap.val a = none ∨ a ∈ sh.hand)
  returnedNodup : (returnedOf s.log).Nodup
  returned : ∀ a, a ∈ returnedOf s.log ↔ a < s.fresh ∧ s.heap.val a = none
  counted : s.count + (returnedOf s.log).length = s.fresh

abbrev WalkRule := Nat → Nat → Nat → Prop

def dueNow : WalkRule := fun now expiry fate => fate = now ∧ expiry ≤ now

structure Timely (pending : Nat) (rule : WalkRule) (s : State κ) (sh : Shape) (fate : Addr → Nat) : Prop where
  fates : ∀ a delay t, Event.scheduled a delay t ∈ s.log → fate a = fireTime t (wrap (t + delay))
  lists : ∀ lv sl a, a ∈ sh.lists lv sl → ∀ e, s.heap.val a = some e →
    Due s.currentMs pending lv sl e.expiryMs (fate a)
  walk : ∀ a ∈ sh.walk, ∀ e, s.heap.val a = some e → rule s.currentMs e.expiryMs (fate a)
  fired : ∀ a t, Event.fired a t ∈ s.log → t = fate a ∧ t ≤ s.currentMs
  cancelled : ∀ a t saved, Event.cancelled a t saved ∈ s.log → t ≤ fate a ∧ (saved = none → t < fate a)

structure Sound (pending : Nat) (rule : WalkRule) (s : State κ) (sh : Shape) (fate : Addr → Nat) : Prop where
  links : Links s sh
  indexed : Indexed s sh
  ledger : Ledger s sh
  timely : Timely pending rule s sh fate
  intact : ¬HitsSaved s.log

theorem HitsSaved.of_cons {event : Event} {log : List Event} (h : HitsSaved (event :: log))
    (hEvent : ∀ a t, event ≠ .cancelled a t (some (some a))) : HitsSaved log := by
  obtain ⟨a, t, hMem⟩ := h
  exact ⟨a, t, (mem_cons.mp hMem).resolve_left fun hEq => hEvent a t hEq.symm⟩

theorem lookup_filter (id key : Nat) (l : List (Nat × Addr)) :
    (l.filter fun entry => entry.1 != key).lookup id = if id = key then none else l.lookup id := by
  induction l with
  | nil => simp
  | cons entry rest ih =>
    by_cases hKey : entry.1 = key
    · rw [List.filter_cons_of_neg (by simpa using hKey), ih]
      by_cases hId : id = key
      · simp [hId]
      · rw [if_neg hId, if_neg hId, lookup_cons]
        have hNe : (id == entry.1) = false := by simpa [hKey] using hId
        rw [hNe]
    · rw [List.filter_cons_of_pos (by simpa using hKey), lookup_cons, lookup_cons, ih]
      by_cases hHere : (id == entry.1) = true
      · have hId : id ≠ key := by
          rw [beq_iff_eq] at hHere
          exact hHere ▸ hKey
        simp [hHere, hId]
      · simp [hHere]

variable {s : State κ} {sh : Shape} {a : Addr} {t : Nat}

theorem Ledger.lt_of_scheduled (h : Ledger s sh) {delay : Nat} (hEvent : Event.scheduled a delay t ∈ s.log) :
    a < s.fresh := by
  have hMem : a ∈ scheduledOf s.log := List.mem_filterMap.mpr ⟨_, hEvent, rfl⟩
  rw [h.allocations] at hMem
  simpa using hMem

theorem Ledger.lt_of_fired (h : Ledger s sh) (hEvent : Event.fired a t ∈ s.log) : a < s.fresh :=
  ((h.ended a).mp (List.mem_filterMap.mpr ⟨_, hEvent, rfl⟩)).1

theorem Ledger.lt_of_cancelled (h : Ledger s sh) {saved : Option (Option Addr)}
    (hEvent : Event.cancelled a t saved ∈ s.log) : a < s.fresh :=
  ((h.ended a).mp (List.mem_filterMap.mpr ⟨_, hEvent, rfl⟩)).1

theorem sound_initial (capacity : Nat) (rule : WalkRule) : Sound 4 rule (initial κ capacity) empty fun _ => 0 where
  links := links_initial capacity
  indexed := nofun
  ledger := by
    constructor
    case allocations => rfl
    case endedNodup => exact List.nodup_nil
    case ended => simp [endedOf, initial]
    case returnedNodup => exact List.nodup_nil
    case returned => simp [returnedOf, initial]
    case counted => rfl
  timely := ⟨nofun, nofun, nofun, nofun, nofun⟩
  intact := by
    rintro ⟨a, t, h⟩
    cases h

end Invariant

section Schedule

variable {pending : Nat} {rule : WalkRule} {s : State κ} {sh : Shape} {fate : Addr → Nat}

variable {heap : Heap (Entry κ)} {e : Entry κ}

def newFate (s : State κ) (fate : Addr → Nat) (delay : Nat) : Addr → Nat :=
  fun a => if a = s.fresh then fireTime s.currentMs (wrap (s.currentMs + delay)) else fate a

theorem newFate_other {a : Addr} (h : a < s.fresh) (delay : Nat) : newFate s fate delay a = fate a := by
  rw [newFate, if_neg (Nat.ne_of_lt h)]

theorem indexed_insert {hand : List Addr} {a : Addr}
    (h : ∀ id b, s.index.lookup id = some b → ∃ e', s.heap.val b = some e' ∧ e'.id = id ∧ b ∉ hand)
    (hNew : heap.val a = some e) (hHand : a ∉ hand)
    (hOld : ∀ b e', s.heap.val b = some e' → e'.id ≠ e.id → heap.val b = some e') {id : Nat} {b : Addr}
    (hLookup : List.lookup id ((e.id, a) :: s.index.filter fun entry => entry.1 != e.id) = some b) :
    ∃ e', heap.val b = some e' ∧ e'.id = id ∧ b ∉ hand := by
  rw [lookup_cons, lookup_filter] at hLookup
  by_cases hId : id = e.id
  · have hHere : (id == e.id) = true := by simpa using hId
    rw [hHere] at hLookup
    obtain rfl : a = b := Option.some.inj hLookup
    exact ⟨_, hNew, hId.symm, hHand⟩
  · have hHere : (id == e.id) = false := by simpa using hId
    rw [hHere, if_neg hId] at hLookup
    obtain ⟨e', hVal', hEntry, hNot⟩ := h id b hLookup
    exact ⟨e', hOld b e' hVal' (hEntry ▸ hId), hEntry, hNot⟩

theorem due_place {now : Nat} {a : Addr} (hNew : heap.val a = some (e.at now))
    (hFate : fate a = fireTime now e.expiryMs)
    (hOld : ∀ lv sl b, b ∈ sh.lists lv sl → ∀ e', heap.val b = some e' → Due now pending lv sl e'.expiryMs (fate b))
    (lv sl : Nat) (b : Addr) (hMem : b ∈ (sh.place a (e.at now).level (e.at now).slot).lists lv sl) (e' : Entry κ)
    (hVal : heap.val b = some e') : Due now pending lv sl e'.expiryMs (fate b) := by
  simp only [place] at hMem
  split_ifs at hMem with hPlace
  · rcases mem_cons.mp hMem with rfl | hMem
    · obtain rfl : e.at now = e' := Option.some.inj (hNew.symm.trans hVal)
      rw [hPlace.1, hPlace.2, hFate]
      exact due_insert now pending e.expiryMs
    · exact hOld lv sl b hMem e' hVal
  · exact hOld lv sl b hMem e' hVal

theorem filter_hand (hHand : a ∉ sh.hand) : (a :: sh.hand).filter (· != a) = sh.hand := by
  rw [List.filter_cons_of_neg (by simp)]
  exact List.filter_eq_self.mpr fun x hx => by simpa using fun hEq : x = a => hHand (hEq ▸ hx)

theorem Sound.schedule (h : Sound pending rule s sh fate) (delay : Nat) (fn : Option κ) :
    ∃ s' id sh' fate', schedule s delay fn = .ok (s', id) ∧ Sound pending rule s' sh' fate' ∧
      sh'.walk = sh.walk ∧ sh'.hand = sh.hand ∧ s'.currentMs = s.currentMs := by
  by_cases hFull : s.used ≥ s.capacity
  · exact ⟨s, kInvalid, sh, fate, by rw [TimerWheel.schedule, if_pos hFull], h, rfl, rfl, rfl⟩
  set e : Entry κ := { fn := fn, id := s.takeId, expiryMs := wrap (s.currentMs + delay) } with he
  have hGrab : Links (s.allocate delay fn) (sh.grab s.fresh) := { h.links.grab e with }
  have hVal : (s.allocate delay fn).heap.val s.fresh = some e := val_of_node (write_same ..)
  obtain ⟨heap, hInsert, hLinks, hNew, hOld⟩ := hGrab.insert (mem_cons_self ..) hVal
  have hSame : ∀ x, x ≠ s.fresh → heap.val x = s.heap.val x := by
    intro x hx
    rw [hOld x hx, State.allocate]
    exact congrArg (Option.map Node.val) (write_other _ _ hx)
  have hLive : ∀ x e', s.heap.val x = some e' → x < s.fresh := h.links.below
  have hFreshHand : s.fresh ∉ sh.hand := by
    intro hIn
    obtain ⟨e', hVal'⟩ := h.links.handLive _ hIn
    exact Nat.lt_irrefl _ (hLive _ e' hVal')
  have hHand : ((sh.grab s.fresh).place s.fresh (e.at s.currentMs).level (e.at s.currentMs).slot).hand = sh.hand :=
    filter_hand hFreshHand
  refine ⟨(inserted (s.allocate delay fn) s.fresh e heap).countTimer (wrap (s.currentMs + delay)), s.takeId,
    (sh.grab s.fresh).place s.fresh (e.at s.currentMs).level (e.at s.currentMs).slot, newFate s fate delay,
    by rw [TimerWheel.schedule, if_neg hFull, hInsert]; rfl, ?_, rfl, hHand, rfl⟩
  constructor
  case links => exact { hLinks with }
  case indexed =>
    intro id a hLookup
    rw [hHand]
    refine indexed_insert h.indexed hNew hFreshHand (fun b e' hVal' _ => ?_) hLookup
    rw [hSame b (Nat.ne_of_lt (hLive b e' hVal')), hVal']
  case ledger =>
    have hGone : ∀ a, heap.val a = none ↔ a ≠ s.fresh ∧ s.heap.val a = none := by
      intro a
      by_cases ha : a = s.fresh
      · simp [ha, hNew]
      · simp [ha, hSame a ha]
    refine { h.ledger with allocations := ?allocations, ended := ?ended, returned := ?returned, counted := ?counted }
    case allocations =>
      change s.fresh :: scheduledOf s.log = (range (s.fresh + 1)).reverse
      rw [h.ledger.allocations, List.range_succ, List.reverse_append]
      rfl
    case ended =>
      intro a
      change a ∈ endedOf s.log ↔ a < s.fresh + 1 ∧ (heap.val a = none ∨ _)
      rw [hHand, hGone, h.ledger.ended]
      constructor
      · rintro ⟨hLt, hWhere⟩
        exact ⟨Nat.lt_succ_of_lt hLt, hWhere.imp (fun hNone => ⟨Nat.ne_of_lt hLt, hNone⟩) id⟩
      · rintro ⟨hLt, ⟨hNe, hNone⟩ | hIn⟩
        · exact ⟨Nat.lt_of_le_of_ne (Nat.le_of_lt_succ hLt) hNe, .inl hNone⟩
        · obtain ⟨e', hVal'⟩ := h.links.handLive a hIn
          exact ⟨hLive a e' hVal', .inr hIn⟩
    case returned =>
      intro a
      change a ∈ returnedOf s.log ↔ a < s.fresh + 1 ∧ heap.val a = none
      rw [hGone, h.ledger.returned]
      constructor
      · rintro ⟨hLt, hNone⟩
        exact ⟨Nat.lt_succ_of_lt hLt, Nat.ne_of_lt hLt, hNone⟩
      · rintro ⟨hLt, hNe, hNone⟩
        exact ⟨Nat.lt_of_le_of_ne (Nat.le_of_lt_succ hLt) hNe, hNone⟩
    case counted =>
      change s.count + 1 + (returnedOf s.log).length = s.fresh + 1
      have hCounted := h.ledger.counted
      omega
  case timely =>
    constructor
    case fates =>
      intro a d t hEvent
      rcases mem_cons.mp hEvent with hEq | hEvent
      · obtain ⟨rfl, rfl, rfl⟩ : a = s.fresh ∧ d = delay ∧ t = s.currentMs := by simpa using hEq
        rw [newFate, if_pos rfl]
      · rw [newFate_other (h.ledger.lt_of_scheduled hEvent)]
        exact h.timely.fates a d t hEvent
    case lists =>
      refine due_place hNew (if_pos rfl) fun lv sl a hMem e' hVal' => ?_
      obtain ⟨e'', hVal'', -⟩ := h.links.placed lv sl a hMem
      have hLt := hLive a e'' hVal''
      rw [newFate_other hLt]
      exact h.timely.lists lv sl a hMem e' ((hSame a (Nat.ne_of_lt hLt)).symm.trans hVal')
    case walk =>
      intro a hMem e' hVal'
      change heap.val a = some e' at hVal'
      obtain ⟨p, hChain⟩ := h.links.walkChain
      obtain ⟨n, hNode⟩ := hChain.live hMem
      have hLt := hLive a _ (val_of_node hNode)
      rw [hSame a (Nat.ne_of_lt hLt)] at hVal'
      rw [newFate_other hLt]
      exact h.timely.walk a hMem e' hVal'
    case fired =>
      intro a t hEvent
      have hEvent := mem_of_ne_of_mem (by simp) hEvent
      rw [newFate_other (h.ledger.lt_of_fired hEvent)]
      exact h.timely.fired a t hEvent
    case cancelled =>
      intro a t saved hEvent
      have hEvent := mem_of_ne_of_mem (by simp) hEvent
      rw [newFate_other (h.ledger.lt_of_cancelled hEvent)]
      exact h.timely.cancelled a t saved hEvent
  case intact => exact fun hHit => h.intact (hHit.of_cons fun _ _ hEq => by cases hEq)

end Schedule

section Cancel

variable {pending : Nat} {rule : WalkRule} {s : State κ} {sh : Shape} {fate : Addr → Nat} {a : Addr}

def Buried (b : Addr) (s : State κ) : Prop := s.heap b = none ∧ b < s.fresh

/-- The outcome has the property `P`, or a callback has cut off the walk and it has the property
`Q`. -/
def Leads {α : Type} (r : Result κ α) (P : State κ → α → Prop) (Q : State κ → Prop) : Prop :=
  (∃ s x, r = .ok (s, x) ∧ P s x) ∨ HitsSaved (last r).log ∧ ∀ s x, r = .ok (s, x) → Q s

theorem Leads.bind {α β : Type} {r : Result κ α} {f : State κ × α → Result κ β} {P : State κ → α → Prop}
    {P' : State κ → β → Prop} {Q Q' : State κ → Prop} {inside : State κ → α → Prop} (h : Leads r P Q)
    (hf : ∀ s x, P s x → Leads (f (s, x)) P' Q') (hGrows : ∀ s x, Grows (inside s x) s (f (s, x)))
    (hCut : ∀ s x, Q s → ∀ s' y, f (s, x) = .ok (s', y) → Q' s') : Leads (r.bind f) P' Q' := by
  rcases h with ⟨s, x, rfl, hP⟩ | ⟨hHit, hQ⟩
  · exact hf s x hP
  · refine .inr ?_
    cases r with
    | error s => exact ⟨hHit, nofun⟩
    | ok out => exact ⟨hHit.mono (hGrows out.1 out.2).suffix, hCut out.1 out.2 (hQ out.1 out.2 rfl)⟩

theorem length_le_of_lt {l : List Addr} {n : Nat} (hNodup : l.Nodup) (hLt : ∀ x ∈ l, x < n) : l.length ≤ n := by
  have hSub : l ⊆ range n := fun x hx => List.mem_range.mpr (hLt x hx)
  calc l.length ≤ (range n).length := (List.subperm_of_subset hNodup hSub).length_le
    _ = n := List.length_range

inductive Ends (a : Addr) (now fate : Nat) : Event → Prop where
  | fired (hNow : now = fate) : Ends a now fate (.fired a now)
  | cancelled {saved : Option (Option Addr)} (hLe : now ≤ fate) (hOutside : saved = none → now < fate)
      (hSaved : saved ≠ some (some a)) : Ends a now fate (.cancelled a now saved)

theorem Sound.ends (h : Sound pending rule s sh fate) {e : Entry κ} (hVal : s.heap.val a = some e)
    (hHand : a ∉ sh.hand) {s' : State κ} {sh' : Shape} {event : Event} (hEvent : Ends a s.currentMs (fate a) event)
    (hLinks : Links s' sh') (hVals : ∀ x, s'.heap.val x = s.heap.val x)
    (hIndex : s'.index = s.index.filter fun entry => entry.1 != e.id) (hLog : s'.log = event :: s.log)
    (hSame : s'.fresh = s.fresh ∧ s'.count = s.count ∧ s'.currentMs = s.currentMs)
    (hTaken : sh'.hand = a :: sh.hand) (hLists : ∀ lv sl x, x ∈ sh'.lists lv sl → x ∈ sh.lists lv sl)
    (hWalk : ∀ x ∈ sh'.walk, x ∈ sh.walk) : Sound pending rule s' sh' fate := by
  obtain ⟨hFresh, hCount, hClock⟩ := hSame
  have hScheduled : scheduledOf s'.log = scheduledOf s.log := by
    rw [hLog]
    cases hEvent <;> rfl
  have hEnded : endedOf s'.log = a :: endedOf s.log := by
    rw [hLog]
    cases hEvent <;> rfl
  have hReturned : returnedOf s'.log = returnedOf s.log := by
    rw [hLog]
    cases hEvent <;> rfl
  constructor
  case links => exact hLinks
  case indexed =>
    intro id b hLookup
    rw [hIndex, lookup_filter] at hLookup
    split_ifs at hLookup with hId
    obtain ⟨e', hVal', hEntry, hNot⟩ := h.indexed id b hLookup
    refine ⟨e', (hVals b).trans hVal', hEntry, ?_⟩
    rw [hTaken, mem_cons, not_or]
    refine ⟨?_, hNot⟩
    rintro rfl
    obtain rfl : e = e' := Option.some.inj (hVal.symm.trans hVal')
    exact hId hEntry.symm
  case ledger =>
    constructor
    case allocations => rw [hScheduled, hFresh, h.ledger.allocations]
    case endedNodup =>
      rw [hEnded, List.nodup_cons, h.ledger.ended]
      refine ⟨?_, h.ledger.endedNodup⟩
      rintro ⟨-, hNone | hIn⟩
      · rw [hVal] at hNone
        cases hNone
      · exact hHand hIn
    case ended =>
      intro x
      rw [hEnded, hFresh, hTaken, hVals, mem_cons, mem_cons, h.ledger.ended]
      constructor
      · rintro (rfl | ⟨hLt, hWhere⟩)
        · exact ⟨h.links.below x e hVal, .inr (.inl rfl)⟩
        · exact ⟨hLt, hWhere.imp_right .inr⟩
      · rintro ⟨hLt, hNone | rfl | hIn⟩
        · exact .inr ⟨hLt, .inl hNone⟩
        · exact .inl rfl
        · exact .inr ⟨hLt, .inr hIn⟩
    case returnedNodup => rw [hReturned]; exact h.ledger.returnedNodup
    case returned =>
      intro x
      rw [hReturned, hFresh, hVals, h.ledger.returned]
    case counted => rw [hReturned, hFresh, hCount, h.ledger.counted]
  case timely =>
    constructor
    case fates =>
      intro b d t hMem
      rw [hLog] at hMem
      rcases mem_cons.mp hMem with rfl | hMem
      · cases hEvent
      · exact h.timely.fates b d t hMem
    case lists =>
      intro lv sl b hMem e' hVal'
      rw [hClock]
      exact h.timely.lists lv sl b (hLists lv sl b hMem) e' ((hVals b).symm.trans hVal')
    case walk =>
      intro b hMem e' hVal'
      rw [hClock]
      exact h.timely.walk b (hWalk b hMem) e' ((hVals b).symm.trans hVal')
    case fired =>
      intro b t hMem
      rw [hLog] at hMem
      rcases mem_cons.mp hMem with rfl | hMem
      · cases hEvent with
        | fired hNow => exact ⟨hNow, Nat.le_of_eq hClock.symm⟩
      · rw [hClock]
        exact h.timely.fired b t hMem
    case cancelled =>
      intro b t saved hMem
      rw [hLog] at hMem
      rcases mem_cons.mp hMem with rfl | hMem
      · cases hEvent with
        | cancelled hLe hOutside _ => exact ⟨hLe, hOutside⟩
      · exact h.timely.cancelled b t saved hMem
  case intact =>
    rw [hLog]
    refine fun hHit => h.intact (hHit.of_cons ?_)
    rintro b t rfl
    cases hEvent with
    | cancelled _ _ hSaved => exact hSaved rfl

theorem Sound.release (h : Sound pending rule s sh fate) (ha : a ∈ sh.hand) :
    ∃ s', s.release a = .ok (s', ()) ∧ Sound pending rule s' (sh.drop a) fate ∧ s'.currentMs = s.currentMs := by
  obtain ⟨e, hVal⟩ := h.links.handLive a ha
  obtain ⟨n, hNode, rfl⟩ := val_eq_some hVal
  have hLt := h.links.below a n.val hVal
  have hHand : ∀ x, x ∈ (sh.drop a).hand ↔ x ∈ sh.hand ∧ x ≠ a := by
    intro x
    rw [drop, List.mem_filter, bne_iff_ne]
  have hGone : ∀ x, (s.heap.free a).val x = none ↔ x = a ∨ s.heap.val x = none := by
    intro x
    by_cases hx : x = a
    · simp [hx, val]
    · simp [hx, val, free_other _ hx]
  have hStay : ∀ x e', (s.heap.free a).val x = some e' → s.heap.val x = some e' := by
    intro x e' hVal'
    by_cases hx : x = a
    · subst hx
      simp [val] at hVal'
    · rwa [val, free_other _ hx] at hVal'
  refine ⟨{ s with heap := s.heap.free a, used := s.used - 1, count := s.count - 1 }.noteEvent (.returned a),
    by rw [State.release, State.use, hNode, elim_some], ?_, rfl⟩
  constructor
  case links => exact { h.links.free ha with }
  case indexed =>
    intro id b hLookup
    obtain ⟨e', hVal', hEntry, hNot⟩ := h.indexed id b hLookup
    have hb : b ≠ a := fun hEq => hNot (hEq ▸ ha)
    refine ⟨e', ?_, hEntry, fun hIn => hNot ((hHand b).mp hIn).1⟩
    change (s.heap.free a).val b = some e'
    rw [val, free_other _ hb]
    exact hVal'
  case ledger =>
    have hReturnedNodup : (a :: returnedOf s.log).Nodup := by
      rw [List.nodup_cons, h.ledger.returned, hVal]
      exact ⟨fun hIn => (by cases hIn.2), h.ledger.returnedNodup⟩
    refine { h.ledger with
      ended := ?ended, returnedNodup := hReturnedNodup, returned := ?returned, counted := ?counted }
    case ended =>
      intro x
      change x ∈ endedOf s.log ↔ x < s.fresh ∧ ((s.heap.free a).val x = none ∨ x ∈ (sh.drop a).hand)
      rw [hHand, hGone, h.ledger.ended]
      by_cases hx : x = a
      · subst hx
        simp [ha]
      · simp [hx]
    case returned =>
      intro x
      change x ∈ a :: returnedOf s.log ↔ x < s.fresh ∧ (s.heap.free a).val x = none
      rw [hGone, mem_cons, h.ledger.returned]
      constructor
      · rintro (rfl | ⟨hLt', hNone⟩)
        · exact ⟨hLt, .inl rfl⟩
        · exact ⟨hLt', .inr hNone⟩
      · rintro ⟨hLt', rfl | hNone⟩
        · exact .inl rfl
        · exact .inr ⟨hLt', hNone⟩
    case counted =>
      have hLess : (a :: returnedOf s.log).length ≤ s.fresh := by
        refine length_le_of_lt hReturnedNodup fun x hx => ?_
        rcases mem_cons.mp hx with rfl | hx
        · exact hLt
        · exact ((h.ledger.returned x).mp hx).1
      have hCounted := h.ledger.counted
      change s.count - 1 + (a :: returnedOf s.log).length = s.fresh
      rw [List.length_cons] at hLess ⊢
      generalize s.fresh = fresh at hLess hCounted ⊢
      omega
  case timely =>
    constructor
    case fates => exact fun b d t hMem => h.timely.fates b d t (mem_of_ne_of_mem (by simp) hMem)
    case lists => exact fun lv sl b hMem e' hVal' => h.timely.lists lv sl b hMem e' (hStay b e' hVal')
    case walk => exact fun b hMem e' hVal' => h.timely.walk b hMem e' (hStay b e' hVal')
    case fired => exact fun b t hMem => h.timely.fired b t (mem_of_ne_of_mem (by simp) hMem)
    case cancelled => exact fun b t saved hMem => h.timely.cancelled b t saved (mem_of_ne_of_mem (by simp) hMem)
  case intact => exact fun hHit => h.intact (hHit.of_cons fun _ _ hEq => by cases hEq)

structure SameWalk (s : State κ) (sh : Shape) (s' : State κ) (sh' : Shape) : Prop where
  front : sh'.walk.head? = sh.walk.head?
  shorter : sh'.walk.length ≤ sh.walk.length
  hand : sh'.hand = sh.hand
  clock : s'.currentMs = s.currentMs

theorem SameWalk.trans {s₁ s₂ s₃ : State κ} {sh₁ sh₂ sh₃ : Shape} (h : SameWalk s₁ sh₁ s₂ sh₂)
    (h' : SameWalk s₂ sh₂ s₃ sh₃) : SameWalk s₁ sh₁ s₃ sh₃ where
  front := h'.front.trans h.front
  shorter := Nat.le_trans h'.shorter h.shorter
  hand := h'.hand.trans h.hand
  clock := h'.clock.trans h.clock

theorem Sound.retire (h : Sound pending rule s sh fate) {id : Nat} (hId : id ≠ kInvalid)
    {saved : Option (Option Addr)} (hLookup : s.index.lookup id = some a) {e : Entry κ}
    (hVal : s.heap.val a = some e) (hEntry : e.id = id) (hHand : a ∉ sh.hand)
    (hEvent : Ends a s.currentMs (fate a) (.cancelled a s.currentMs saved))
    (hUnlink : ∃ heap head, unlink (s.beginCancel saved id a) e.level e.slot a =
        .ok (({ s.beginCancel saved id a with heap := heap } : State κ).setSlot e.level e.slot head, ()) ∧
      Links (({ s.beginCancel saved id a with heap := heap } : State κ).setSlot e.level e.slot head) (sh.take a) ∧
      ∀ x, heap.val x = s.heap.val x) (hFront : (sh.walk.erase a).head? = sh.walk.head?) :
    ∃ s' sh', TimerWheel.cancel s saved id = .ok (s', true) ∧ Sound pending rule s' sh' fate ∧
      SameWalk s sh s' sh' := by
  obtain ⟨heap, head, hUnlink, hLinks, hVals⟩ := hUnlink
  obtain ⟨n, hNode, rfl⟩ := val_eq_some hVal
  set out := ({ s.beginCancel saved id a with heap := heap } : State κ).setSlot n.val.level n.val.slot head
  have hTaken : Sound pending rule (out.dropMin n.val.expiryMs) (sh.take a) fate :=
    h.ends hVal hHand hEvent { hLinks with } hVals (by rw [hEntry]; rfl) rfl ⟨rfl, rfl, rfl⟩ rfl
      (fun _ _ _ hMem => List.mem_of_mem_erase hMem) fun _ hMem => List.mem_of_mem_erase hMem
  obtain ⟨s', hRelease, hSound, hClock⟩ := hTaken.release (a := a) (mem_cons_self ..)
  refine ⟨s', (sh.take a).drop a, ?_, hSound, hFront, List.length_erase_le .., filter_hand hHand, hClock⟩
  rw [TimerWheel.cancel, if_neg hId, hLookup, elim_some, State.use, hNode, elim_some, hUnlink]
  change Except.bind ((out.dropMin n.val.expiryMs).release a) _ = _
  rw [hRelease]
  rfl

variable {saved : Option (Option Addr)}

theorem cancel_frees {id : Nat} (hId : id ≠ kInvalid) (hLookup : s.index.lookup id = some a) (hLt : a < s.fresh)
    {s' : State κ} {found : Bool} (hCancel : TimerWheel.cancel s saved id = .ok (s', found)) : Buried a s' := by
  rw [TimerWheel.cancel, if_neg hId, hLookup, elim_some, State.use] at hCancel
  cases hNode : s.heap a with
  | none =>
    rw [hNode] at hCancel
    cases hCancel
  | some n =>
    rw [hNode, elim_some, unlink, State.use] at hCancel
    cases hUnlink : (s.beginCancel saved id a).heap.unlink
        ((s.beginCancel saved id a).slots n.val.level n.val.slot) a with
    | none =>
      rw [hUnlink] at hCancel
      cases hCancel
    | some out =>
      rw [hUnlink] at hCancel
      change Except.bind (State.release _ a) _ = _ at hCancel
      change Except.bind ((out.1 a).elim _ _) _ = _ at hCancel
      cases hStill : out.1 a with rw [hStill] at hCancel
      | none =>
        cases hCancel
      | some m =>
        cases hCancel
        exact ⟨free_same .., hLt⟩

theorem Sound.cancel (h : Sound pending rule s sh fate) (hRule : ∀ now expiry f, rule now expiry f → now ≤ f)
    (hSaved : saved = some sh.walk.head? ∨ saved = none ∧ sh.walk = []) (id : Nat) :
    Leads (cancel s saved id) (fun s' _ => ∃ sh', Sound pending rule s' sh' fate ∧ SameWalk s sh s' sh')
      fun s' => ∃ b, sh.walk.head? = some b ∧ Buried b s' := by
  by_cases hId : id = kInvalid
  · exact .inl ⟨s, false, by rw [TimerWheel.cancel, if_pos hId], sh, h, rfl, Nat.le_refl _, rfl, rfl⟩
  cases hLookup : s.index.lookup id with
  | none =>
    refine .inl ⟨s, false, ?_, sh, h, rfl, Nat.le_refl _, rfl, rfl⟩
    rw [TimerWheel.cancel, if_neg hId, hLookup, Option.elim_none]
  | some a =>
    obtain ⟨e, hVal, hEntry, hHand⟩ := h.indexed id a hLookup
    have hLinks : Links (s.beginCancel saved id a) sh := { h.links with }
    rcases h.links.cover a e hVal with hIn | hIn | hIn
    · have hAhead := (h.timely.lists _ _ a hIn e hVal).ahead
      have hWalk : sh.walk.erase a = sh.walk :=
        List.erase_of_not_mem fun hIn' => h.links.walkApart a hIn' _ _ hIn
      have hOther : saved ≠ some (some a) := by
        rintro rfl
        rcases hSaved with hSaved | ⟨hNone, -⟩
        · exact h.links.walkApart a (List.mem_of_head? (Option.some.inj hSaved).symm) _ _ hIn
        · cases hNone
      obtain ⟨s', sh', hCancel, hSound, hSame⟩ := h.retire hId hLookup hVal hEntry hHand
        (.cancelled (Nat.le_of_lt hAhead) (fun _ => hAhead) hOther) (hLinks.unlink hIn) (congrArg List.head? hWalk)
      exact .inl ⟨s', true, hCancel, sh', hSound, hSame⟩
    · cases hWalk : sh.walk with
      | nil =>
        rw [hWalk] at hIn
        cases hIn
      | cons first rest =>
        have hSaved : saved = some (some first) := by
          rcases hSaved with hSaved | ⟨-, hNil⟩
          · rw [hSaved, hWalk, List.head?_cons]
          · rw [hNil] at hWalk
            cases hWalk
        by_cases hFirst : a = first
        · subst hFirst
          refine .inr ⟨⟨a, s.currentMs, ?_⟩, fun s' found hCancel =>
            ⟨a, rfl, cancel_frees hId hLookup (h.links.below a e hVal) hCancel⟩⟩
          refine (grows_cancelEntry s saved hId hLookup : Grows True _ _).suffix.subset ?_
          rw [← hSaved]
          exact mem_cons_self ..
        · have hRest : a ∈ rest := by
            rw [hWalk] at hIn
            exact (mem_cons.mp hIn).resolve_left hFirst
          have hFront : (sh.walk.erase a).head? = sh.walk.head? := by
            rw [hWalk, List.erase_cons_tail (by simpa using fun hEq : first = a => hFirst hEq.symm)]
            rfl
          have hLe := hRule _ _ _ (h.timely.walk a hIn e hVal)
          obtain ⟨s', sh', hCancel, hSound, hSame⟩ := h.retire hId hLookup hVal hEntry hHand
            (.cancelled hLe (fun hNone => by rw [hSaved] at hNone; cases hNone) fun hHere =>
              hFirst (by rw [hSaved] at hHere; exact (Option.some.inj (Option.some.inj hHere)).symm))
            (hLinks.unlinkWalk e.level e.slot hWalk hRest) hFront
          exact .inl ⟨s', true, hCancel, sh', hSound, hSame⟩
    · exact absurd hIn hHand

end Cancel

section Walk

variable {pending : Nat} {rule : WalkRule} {s : State κ} {sh : Shape} {fate : Addr → Nat} {a : Addr}

section Buried

variable {b : Addr}

def Keeps {α : Type} (b : Addr) (r : Result κ α) : Prop := ∀ s x, r = .ok (s, x) → Buried b s

variable {α : Type}

theorem Keeps.use {β : Type} {x : Option α} {f : α → Result κ β} (h : ∀ y, x = some y → Keeps b (f y)) :
    Keeps b (s.use x f) := by
  cases x with
  | none => exact nofun
  | some y => exact h y rfl

theorem Keeps.bind {β : Type} {r : Result κ α} {f : State κ × α → Result κ β} (h : Keeps b r)
    (hf : ∀ s x, Buried b s → Keeps b (f (s, x))) : Keeps b (r.bind f) := by
  cases r with
  | error s => exact nofun
  | ok out => exact hf out.1 out.2 (h out.1 out.2 rfl)

theorem Keeps.ok {x : α} (h : Buried b s) : Keeps b (.ok (s, x) : Result κ α) := by
  rintro s' y hOk
  cases hOk
  exact h

section

variable (h : Buried b s)
include h

theorem keeps_release (a : Addr) : Keeps b (s.release a) := by
  refine .use fun n _ => .ok ⟨?_, h.2⟩
  change s.heap.free a b = none
  rw [free]
  split_ifs
  · rfl
  · exact h.1

theorem keeps_insert (a : Addr) : Keeps b (insert s a) :=
  .use fun _ hNode => .use fun _ hPush => .ok ⟨pushFront_dead (write_dead h.1 hNode _) hPush, h.2⟩

theorem keeps_unlink (lv sl : Nat) (a : Addr) : Keeps b (unlink s lv sl a) :=
  .use fun _ hUnlink => .ok ⟨unlink_dead h.1 hUnlink, h.2⟩

theorem keeps_schedule (delay : Nat) (fn : Option κ) : Keeps b (schedule s delay fn) := by
  unfold schedule
  split_ifs
  · exact .ok h
  · have hAllocated : Buried b (s.allocate delay fn) :=
      ⟨(write_other _ _ (Nat.ne_of_lt h.2)).trans h.1, Nat.lt_succ_of_lt h.2⟩
    exact .bind (keeps_insert hAllocated s.fresh) fun _ _ h' => .ok h'

theorem keeps_cancel (saved : Option (Option Addr)) (id : Nat) : Keeps b (cancel s saved id) := by
  unfold cancel
  split_ifs
  · exact .ok h
  · cases s.index.lookup id with
    | none => exact .ok h
    | some a =>
      have hBegun : Buried b (s.beginCancel saved id a) := h
      refine .use fun n _ => .bind (keeps_unlink hBegun _ _ a) fun s' _ h' => ?_
      have hDropped : Buried b (s'.dropMin n.val.expiryMs) := h'
      exact .bind (keeps_release hDropped a) fun _ _ h'' => .ok h''

theorem keeps_runScript (saved : Option Addr) (script : Script κ) : Keeps b (runScript saved script s) := by
  induction script generalizing s with
  | done => exact .ok h
  | schedule delay fn next ih => exact .bind (keeps_schedule h delay fn) fun _ id h' => ih id h'
  | cancel id next ih => exact .bind (keeps_cancel h (some saved) id) fun _ found h' => ih found h'

theorem fireWalk_buried (behaviour : Behaviour κ) (rounds fired : Nat) (s' : State κ) (x : Nat) :
    fireWalk behaviour rounds s (some b) fired ≠ .ok (s', x) := by
  intro hOk
  cases rounds with
  | zero => cases hOk
  | succ rounds =>
    rw [fireWalk, State.use, h.1] at hOk
    cases hOk

end

end Buried

def Undisturbed (pending : Nat) (rule : WalkRule) (s : State κ) (sh : Shape) (s' : State κ) : Prop :=
  ∃ sh' fate', Sound pending rule s' sh' fate' ∧ SameWalk s sh s' sh'

theorem Sound.runScript (h : Sound pending rule s sh fate) (hRule : ∀ now expiry f, rule now expiry f → now ≤ f)
    (script : Script κ) : Leads (runScript sh.walk.head? script s) (fun s' _ => Undisturbed pending rule s sh s')
      fun s' => ∃ b, sh.walk.head? = some b ∧ Buried b s' := by
  induction script generalizing s sh fate with
  | done => exact .inl ⟨s, (), rfl, sh, fate, h, rfl, Nat.le_refl _, rfl, rfl⟩
  | schedule delay fn next ih =>
    obtain ⟨s', id, sh', fate', hSchedule, hSound, hWalk, hHand, hClock⟩ := h.schedule delay fn
    have hSame : SameWalk s sh s' sh' := ⟨by rw [hWalk], Nat.le_of_eq (by rw [hWalk]), hHand, hClock⟩
    rw [TimerWheel.runScript, hSchedule, ← hSame.front]
    rcases ih id hSound with ⟨s'', x, hRun, sh'', fate'', hSound', hSame'⟩ | hHit
    · exact .inl ⟨s'', x, hRun, sh'', fate'', hSound', hSame.trans hSame'⟩
    · exact .inr hHit
  | cancel id next ih =>
    refine (h.cancel hRule (.inl rfl) id).bind ?_ (fun s' found => grows_runScript _ _ s')
      fun s' found hCut s'' x hOk => hCut.imp fun b hb => ⟨hb.1, keeps_runScript hb.2 _ _ s'' x hOk⟩
    rintro s' found ⟨sh', hSound, hSame⟩
    change Leads (TimerWheel.runScript sh.walk.head? (next found) s') _ _
    rw [← hSame.front]
    rcases ih found hSound with ⟨s'', x, hRun, sh'', fate'', hSound', hSame'⟩ | hHit
    · exact .inl ⟨s'', x, hRun, sh'', fate'', hSound', hSame.trans hSame'⟩
    · exact .inr hHit

theorem Sound.callback (h : Sound pending rule s sh fate) (hRule : ∀ now expiry f, rule now expiry f → now ≤ f)
    (behaviour : Behaviour κ) (fn : Option κ) :
    Leads (callback behaviour s fn sh.walk.head?) (fun s' _ => Undisturbed pending rule s sh s')
      fun s' => ∃ b, sh.walk.head? = some b ∧ Buried b s' := by
  cases fn with
  | none => exact .inl ⟨s, (), rfl, sh, fate, h, rfl, Nat.le_refl _, rfl, rfl⟩
  | some f => exact h.runScript hRule (behaviour f s)

theorem dueNow_le (now expiry f : Nat) (h : dueNow now expiry f) : now ≤ f := Nat.le_of_eq h.1.symm

theorem Sound.fireEntry (h : Sound pending dueNow s sh fate) (behaviour : Behaviour κ) {rest : List Addr}
    (hWalk : sh.walk = a :: rest) : ∃ n, s.heap a = some n ∧ n.next = rest.head? ∧ n.val.expiryMs ≤ s.currentMs ∧
      Leads (fireEntry behaviour (s.clearLinks a n) a n.val n.next)
        (fun s' _ => ∃ sh' fate', Sound pending dueNow s' sh' fate' ∧ sh'.walk.head? = rest.head? ∧
          sh'.walk.length ≤ rest.length ∧ sh'.hand = sh.hand ∧ s'.currentMs = s.currentMs)
        fun s' => ∃ b, rest.head? = some b ∧ Buried b s' := by
  obtain ⟨n, hNode, hNext, hLinks, hVals⟩ := h.links.pop hWalk
  have hVal := val_of_node hNode
  have hIn : a ∈ sh.walk := by rw [hWalk]; exact mem_cons_self ..
  have hHand : a ∉ sh.hand := fun hIn' => (h.links.handApart a hIn').1 hIn
  obtain ⟨hFate, hOver⟩ := h.timely.walk a hIn n.val hVal
  refine ⟨n, hNode, hNext, hOver, ?_⟩
  have hTail : (sh.pop a).walk = rest := by rw [pop, hWalk, List.tail_cons]
  have hFired : Sound pending dueNow ((s.clearLinks a n).beginFire a n.val) (sh.pop a) fate :=
    h.ends hVal hHand (.fired hFate.symm) { hLinks with } hVals rfl rfl ⟨rfl, rfl, rfl⟩ rfl
      (fun _ _ _ hMem => hMem) fun x hMem => by rw [hTail] at hMem; rw [hWalk]; exact List.mem_cons_of_mem _ hMem
  have hCallback := hFired.callback dueNow_le behaviour n.val.fn
  rw [hTail] at hCallback
  rw [hNext]
  refine hCallback.bind ?_ (fun s' _ => (grows_release s' a : Grows True _ _))
    fun s' _ hCut s'' x hOk => hCut.imp fun b hb => ⟨hb.1, keeps_release hb.2 a s'' x hOk⟩
  rintro s' _ ⟨sh', fate', hSound, hSame⟩
  have hTaken : sh'.hand = a :: sh.hand := hSame.hand
  obtain ⟨s'', hRelease, hSound', hClock⟩ := hSound.release (a := a) (by rw [hTaken]; exact mem_cons_self ..)
  refine .inl ⟨s'', (), hRelease, sh'.drop a, fate', hSound', ?_, ?_, ?_, hClock.trans hSame.clock⟩
  · exact hSame.front.trans (congrArg List.head? hTail)
  · exact Nat.le_trans hSame.shorter (Nat.le_of_eq (congrArg List.length hTail))
  · rw [drop, hTaken]
    exact filter_hand hHand

def Rests (pending : Nat) (s : State κ) : Prop :=
  ∀ rule, ∃ sh fate, Sound pending rule s sh fate ∧ sh.walk = [] ∧ sh.hand = []

/-- Without a walk the rule says nothing. -/
theorem Sound.rests (h : Sound pending rule s sh fate) (hWalk : sh.walk = []) (hHand : sh.hand = []) :
    Rests pending s := by
  intro rule'
  refine ⟨sh, fate, { h with timely := { h.timely with walk := ?_ } }, hWalk, hHand⟩
  intro a hMem
  rw [hWalk] at hMem
  cases hMem

def RestsAt (pending now : Nat) (s : State κ) : Prop := Rests pending s ∧ s.currentMs = now

theorem Sound.fireWalk (h : Sound pending dueNow s sh fate) (hHand : sh.hand = []) (behaviour : Behaviour κ)
    {rounds : Nat} (hRounds : sh.walk.length ≤ rounds) (fired : Nat) :
    Leads (fireWalk behaviour rounds s sh.walk.head? fired) (fun s' _ => RestsAt pending s.currentMs s')
      fun _ => False := by
  induction rounds generalizing s sh fate fired with
  | zero =>
    have hWalk : sh.walk = [] := List.length_eq_zero_iff.mp (Nat.le_zero.mp hRounds)
    rw [hWalk]
    exact .inl ⟨s, fired, rfl, h.rests hWalk hHand, rfl⟩
  | succ rounds ih =>
    cases hWalk : sh.walk with
    | nil => exact .inl ⟨s, fired, rfl, h.rests hWalk hHand, rfl⟩
    | cons a rest =>
      obtain ⟨n, hNode, hNext, hOver, hFire⟩ := h.fireEntry behaviour hWalk
      rw [List.head?_cons, TimerWheel.fireWalk, State.use, hNode, elim_some, if_pos hOver]
      refine hFire.bind ?_ (fun s' _ => grows_fireWalk behaviour _ s' _ _) fun s' _ hCut s'' x hOk =>
        hCut.elim fun b hb => fireWalk_buried hb.2 behaviour _ _ s'' x (by rw [← hb.1, ← hNext]; exact hOk)
      rintro s' _ ⟨sh', fate', hSound, hFront, hLength, hHand', hClock⟩
      have hLess : sh'.walk.length ≤ rounds := by
        rw [hWalk, List.length_cons] at hRounds
        exact Nat.le_trans hLength (Nat.le_of_succ_le_succ hRounds)
      change Leads (TimerWheel.fireWalk behaviour rounds s' n.next (fired + 1)) _ _
      rw [hNext, ← hFront, ← hClock]
      exact ih hSound (hHand'.trans hHand) hLess (fired + 1)

theorem Sound.reinsert (h : Sound pending Settled s sh fate) {rest : List Addr} (hWalk : sh.walk = a :: rest) :
    ∃ n s' sh', s.heap a = some n ∧ n.next = rest.head? ∧ insert (s.clearLinks a n) a = .ok (s', ()) ∧
      Sound pending Settled s' sh' fate ∧ sh'.walk = rest ∧ sh'.hand = sh.hand ∧ s'.currentMs = s.currentMs := by
  obtain ⟨n, hNode, hNext, hLinks, hVals⟩ := h.links.pop hWalk
  have hVal := val_of_node hNode
  have hIn : a ∈ sh.walk := by rw [hWalk]; exact mem_cons_self ..
  have hHand : a ∉ sh.hand := fun hIn' => (h.links.handApart a hIn').1 hIn
  have hSettled := h.timely.walk a hIn n.val hVal
  obtain ⟨heap, hInsert, hPlaced, hNew, hOld⟩ := hLinks.insert (mem_cons_self ..) ((hVals a).trans hVal)
  have hSame : ∀ x, x ≠ a → heap.val x = s.heap.val x := fun x hx => (hOld x hx).trans (hVals x)
  have hGone : ∀ x, heap.val x = none ↔ s.heap.val x = none := by
    intro x
    by_cases hx : x = a
    · rw [hx, hNew, hVal]
      simp
    · rw [hSame x hx]
  have hStays : ((sh.pop a).place a (n.val.at s.currentMs).level (n.val.at s.currentMs).slot).hand = sh.hand :=
    filter_hand hHand
  refine ⟨n, inserted (s.clearLinks a n) a n.val heap,
    (sh.pop a).place a (n.val.at s.currentMs).level (n.val.at s.currentMs).slot, hNode, hNext, hInsert, ?_, ?_,
    hStays, rfl⟩
  · refine { h with links := hPlaced, indexed := ?indexed, ledger := ?ledger, timely := ?timely }
    case indexed =>
      intro id b hLookup
      rw [hStays]
      refine indexed_insert h.indexed hNew hHand (fun b e' hVal' hId => ?_) hLookup
      refine (hSame b ?_).trans hVal'
      rintro rfl
      obtain rfl : n.val = e' := Option.some.inj (hVal.symm.trans hVal')
      exact hId rfl
    case ledger =>
      refine { h.ledger with ended := fun x => ?_, returned := fun x => ?_ }
      · change x ∈ endedOf s.log ↔ x < s.fresh ∧ (heap.val x = none ∨ _)
        rw [hStays, hGone, h.ledger.ended]
      · change x ∈ returnedOf s.log ↔ x < s.fresh ∧ heap.val x = none
        rw [hGone, h.ledger.returned]
    case timely =>
      refine { h.timely with lists := ?lists, walk := ?walk }
      case lists =>
        refine due_place hNew hSettled.fireTime fun lv sl b hMem e' hVal' => ?_
        have hb : b ≠ a := fun hEq => h.links.walkApart a hIn lv sl (hEq ▸ hMem)
        exact h.timely.lists lv sl b hMem e' ((hSame b hb).symm.trans hVal')
      case walk =>
        intro b hMem e' hVal'
        change heap.val b = some e' at hVal'
        have hMem' : b ∈ sh.walk := List.mem_of_mem_tail hMem
        have hb : b ≠ a := by
          rintro rfl
          have hNodup := h.links.walkNodup
          rw [hWalk, List.nodup_cons] at hNodup
          exact hNodup.1 (by simpa [place, pop, hWalk] using hMem)
        rw [hSame b hb] at hVal'
        exact h.timely.walk b hMem' e' hVal'
  · rw [place, pop, hWalk, List.tail_cons]

theorem Sound.cascadeWalk (h : Sound pending Settled s sh fate) (hHand : sh.hand = []) {rounds : Nat}
    (hRounds : sh.walk.length ≤ rounds) :
    ∃ s', cascadeWalk rounds s sh.walk.head? = .ok (s', ()) ∧ RestsAt pending s.currentMs s' := by
  induction rounds generalizing s sh with
  | zero =>
    have hWalk : sh.walk = [] := List.length_eq_zero_iff.mp (Nat.le_zero.mp hRounds)
    rw [hWalk]
    exact ⟨s, rfl, h.rests hWalk hHand, rfl⟩
  | succ rounds ih =>
    cases hWalk : sh.walk with
    | nil => exact ⟨s, rfl, h.rests hWalk hHand, rfl⟩
    | cons a rest =>
      obtain ⟨n, s', sh', hNode, hNext, hInsert, hSound, hRest, hHand', hClock⟩ := h.reinsert hWalk
      have hLess : sh'.walk.length ≤ rounds := by
        rw [hWalk, List.length_cons] at hRounds
        rw [hRest]
        exact Nat.le_of_succ_le_succ hRounds
      obtain ⟨s'', hCascade, hRests⟩ := ih hSound (hHand'.trans hHand) hLess
      refine ⟨s'', ?_, hClock ▸ hRests⟩
      rw [List.head?_cons, TimerWheel.cascadeWalk, State.use, hNode, elim_some, hInsert, hNext, ← hRest]
      exact hCascade

end Walk

end TimerWheel
