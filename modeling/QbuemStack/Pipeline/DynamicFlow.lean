import QbuemStack.Pipeline.DynamicPipeline

/-! What becomes of the items while the pipeline is changed. Wherever an item is, it is there once. -/
namespace Pipeline

open LabelledRuns
open Option (bind_eq_some_iff map_eq_some_iff)

namespace Dynamic

open Weights

variable {α : Type}

section Places

variable (k : Nat)

def mark (x : Item α) : Nat := (decide (x.push = k)).toNat

def Worker.holds : Worker α → Nat
  | .routing x => mark k x
  | .testing _ x => mark k x
  | .running _ x => mark k x
  | .sending _ _ x => mark k x
  | _ => 0

def Stage.holds (stage : Stage α) : Nat := weigh (Worker.holds k) stage.crew

def queued (ch : Channel (Item α)) : Nat := weigh (mark k) ch.items

variable (w : World α)

def World.inside : Nat := weigh (queued k) w.channels + weigh (Stage.holds k) w.stages

def World.missing : Nat := weigh (mark k) w.lost

def World.arrived : Nat := weigh (fun entry => mark k entry.2) w.received

def World.total : Nat := w.inside k + w.missing k + w.arrived k

def Push.entered : Push α → Nat
  | .returned => 1
  | _ => 0

def World.entered : Nat := (w.pushes[k]?).elim 0 Push.entered

def Balanced : Prop := ∀ k, w.total k = w.entered k

end Places

section Changes

variable {w w' : World α} {k : Nat}

structure Keeps (w w' : World α) : Prop where
  inside : ∀ k, w'.inside k = w.inside k
  lost : w'.lost = w.lost
  received : w'.received = w.received
  pushes : w'.pushes = w.pushes

theorem Keeps.balanced (hKeeps : Keeps w w') (hBalanced : Balanced w) : Balanced w' := by
  intro k
  have hBefore := hBalanced k
  rw [World.total, World.missing, World.arrived, World.entered, hKeeps.inside, hKeeps.lost, hKeeps.received,
    hKeeps.pushes]
  exact hBefore

theorem weigh_close (k c : Nat) (channels : List (Channel (Item α))) :
    weigh (queued k) (channels.modify c fun ch => ch.close.state) = weigh (queued k) channels :=
  weigh_modify channels c fun _ => rfl

theorem keeps_modify (w : World α) (s : Nat) {change : Stage α → Stage α}
    (hHolds : ∀ k stage, (change stage).holds k = stage.holds k) :
    Keeps w { w with stages := w.stages.modify s change } where
  inside k := by rw [World.inside, World.inside, weigh_modify w.stages s (hHolds k)]
  lost := rfl
  received := rfl
  pushes := rfl

theorem keeps_close (w : World α) (c : Nat) : Keeps w (closeChannel w c) where
  inside k := by rw [World.inside, closeChannel, weigh_close, World.inside]
  lost := rfl
  received := rfl
  pushes := rfl

theorem keeps_rfl (w : World α) : Keeps w w := ⟨fun _ => rfl, rfl, rfl, rfl⟩

theorem Keeps.trans {w'' : World α} (hFirst : Keeps w w') (hSecond : Keeps w' w'') : Keeps w w'' where
  inside k := (hSecond.inside k).trans (hFirst.inside k)
  lost := hSecond.lost.trans hFirst.lost
  received := hSecond.received.trans hFirst.received
  pushes := hSecond.pushes.trans hFirst.pushes

theorem keeps_apply (w : World α) (write : Write) : Keeps w (write.apply w) := by
  cases write with
  | setOutput s ch => exact keeps_modify w s fun _ _ => rfl
  | closeInput s =>
    rw [Write.apply]
    cases w.stages[s]? with
    | none => exact keeps_rfl w
    | some stage => exact keeps_close w stage.inChannel
  | rewire s successor =>
    rw [Write.apply]
    cases w.stages[s]? with
    | none => exact keeps_rfl w
    | some stage => exact keeps_modify w successor fun _ _ => rfl

theorem keeps_update (w : World α) (name : String) {change : Stage α → Stage α}
    (hHolds : ∀ k stage, (change stage).holds k = stage.holds k) : Keeps w (update w name change) := by
  rw [update]
  cases position w name with
  | none => exact keeps_rfl w
  | some i =>
    rw [Option.elim_some]
    cases w.chain[i]? with
    | none => exact keeps_rfl w
    | some s => exact keeps_modify w s hHolds

theorem weigh_fresh (k : Nat) (channels : List (Channel (Item α))) {fresh : List (Channel (Item α))}
    (hEmpty : ∀ ch ∈ fresh, ch.items = []) : weigh (queued k) (channels ++ fresh) = weigh (queued k) channels := by
  have hZero : weigh (queued k) fresh = 0 := by
    refine weigh_eq_zero fun ch hCh => ?_
    rw [queued, hEmpty ch hCh, weigh_nil]
  rw [weigh_append, hZero, Nat.add_zero]

theorem keeps_removeStage {name : String} (hRemove : removeStage w name = some w') : Keeps w w' := by
  rw [removeStage] at hRemove
  split at hRemove
  case h_1 =>
    cases hRemove
    exact keeps_rfl w
  case h_2 i _ =>
    obtain ⟨removed, -, hRemove⟩ := bind_eq_some_iff.mp hRemove
    obtain ⟨stage, -, rfl⟩ := map_eq_some_iff.mp hRemove
    refine ⟨fun k => ?_, rfl, rfl, rfl⟩
    simp only [World.inside, List.append_assoc]
    congr 1
    refine weigh_fresh k w.channels fun ch hCh => ?_
    rcases List.mem_append.mp hCh with hBridge | hThrowaway
    · split_ifs at hBridge
      · cases hBridge
      · rw [List.mem_singleton.mp hBridge]
        rfl
    · rw [List.mem_singleton.mp hThrowaway]
      rfl

theorem keeps_writes (w : World α) (writes : List Write) : Keeps w (writes.foldl Write.apply w) := by
  induction writes generalizing w with
  | nil => exact keeps_rfl w
  | cons write writes ih => exact (keeps_apply w write).trans (ih (write.apply w))

theorem keeps_addStage (w : World α) (cfg : Config) (name : String) (fn : α → α) (workers chanCap : Nat) :
    Keeps w (addStage w cfg name fn workers chanCap) := by
  refine Keeps.trans ?_ (keeps_writes _ _)
  refine ⟨fun k => ?_, rfl, rfl, rfl⟩
  simp only [World.inside, weigh_append, weigh_cons, weigh_nil]
  rfl

theorem keeps_start (w : World α) : Keeps w (start w) := by
  have hSpawn : ∀ k (stage : Stage α), stage.spawn.holds k = stage.holds k := by
    intro k stage
    have hNone : weigh (Worker.holds k) (List.replicate stage.workers (.loading : Worker α)) = 0 := by
      refine weigh_eq_zero fun worker hWorker => ?_
      rw [List.eq_of_mem_replicate hWorker]
      rfl
    rw [Stage.holds, Stage.spawn, weigh_append, hNone]
    rfl
  have hFold : ∀ (chain : List Nat) (stages : List (Stage α)) k,
      weigh (Stage.holds k) (chain.foldl (fun stages s => stages.modify s Stage.spawn) stages) =
        weigh (Stage.holds k) stages := by
    intro chain
    induction chain with
    | nil => exact fun stages k => rfl
    | cons s chain ih =>
      intro stages k
      rw [List.foldl_cons, ih, weigh_modify stages s (hSpawn k)]
  refine ⟨fun k => ?_, rfl, rfl, rfl⟩
  rw [World.inside, start, hFold, World.inside]

end Changes

section Moves

variable {w w' : World α} {k s i : Nat}

theorem weigh_setWorker {stage : Stage α} {worker : Worker α} (hStage : w.stages[s]? = some stage)
    (hWorker : stage.crew[i]? = some worker) (k : Nat) (after : Stage α) (next : Worker α)
    (hCrew : after.crew = stage.crew) :
    weigh (Stage.holds k) (setWorker w s i after next).stages + worker.holds k =
      weigh (Stage.holds k) w.stages + next.holds k := by
  have hOuter := weigh_set (f := Stage.holds k) hStage { after with crew := after.crew.set i next }
  have hInner := weigh_set (f := Worker.holds k) hWorker next
  rw [hCrew] at hOuter
  simp only [setWorker, hCrew]
  simp only [Stage.holds] at hOuter ⊢
  omega

theorem weigh_refused (k : Nat) (x : Item α) (put : Put) : weigh (mark k) (refused x put) = put.dropped (mark k x) := by
  cases put <;> rfl

theorem Worker.holds_got (k c : Nat) (got : Got (Item α)) : (Worker.got c got).holds k = weigh (mark k) got.toList := by
  cases got <;> rfl

theorem Worker.holds_put (k c : Nat) (x : Item α) (put : Put) : (Worker.put c x put).holds k = put.kept (mark k x) := by
  cases put <;> rfl

section

variable (hBalanced : Balanced w)
include hBalanced

theorem Balanced.worker (hStep : workerStep w s i = some w') : Balanced w' := by
  obtain ⟨stage, hStage, hStep⟩ := bind_eq_some_iff.mp hStep
  obtain ⟨worker, hWorker, hStep⟩ := bind_eq_some_iff.mp hStep
  intro k
  have hBefore := hBalanced k
  have hMoved := weigh_setWorker hStage hWorker k
  simp only [World.total, World.inside, World.missing, World.arrived, World.entered] at hBefore ⊢
  have hKept : ∀ after next, after.crew = stage.crew → next.holds k = worker.holds k →
      (setWorker w s i after next).total k = (setWorker w s i after next).entered k := by
    intro after next hCrew hHolds
    have hThis := hMoved after next hCrew
    simp only [World.total, World.inside, World.missing, World.arrived, World.entered, setWorker] at hThis ⊢
    omega
  cases worker with
  | loading | routing x | running out x | retiring =>
    cases hStep
    exact hKept stage _ rfl rfl
  | receiving c receiving =>
    obtain ⟨ch, hCh, rfl⟩ := map_eq_some_iff.mp hStep
    have hThis := hMoved stage (.got c (receive receiving ch).1) rfl
    have hChannels := weigh_set (f := queued k) hCh (receive receiving ch).2
    have hQueue := weigh_receive (mark k) receiving ch
    rw [Worker.holds_got] at hThis
    simp only [setWorker, Worker.holds, queued] at hThis hChannels ⊢
    omega
  | testing out x =>
    cases hStep
    exact hKept stage _ rfl (by split_ifs <;> rfl)
  | sending c sending x =>
    obtain ⟨ch, hCh, rfl⟩ := map_eq_some_iff.mp hStep
    have hThis := hMoved stage (.put c x (put sending ch x).1) rfl
    have hChannels := weigh_set (f := queued k) hCh (put sending ch x).2
    have hQueue := weigh_put (mark k) sending ch x
    rw [Worker.holds_put] at hThis
    simp only [setWorker, Worker.holds, queued, weigh_append, weigh_refused] at hThis hChannels ⊢
    omega
  | leaving =>
    cases hStep
    exact hKept { stage with workerCount := stage.workerCount - 1 } _ rfl (by split_ifs <;> rfl)
  | closing out =>
    cases hStep
    have hThis := hMoved stage .done rfl
    have hClose := weigh_close k out w.channels
    simp only [setWorker, closeChannel, Worker.holds] at hThis ⊢
    omega
  | done => cases hStep

theorem Balanced.push (value : α) : Balanced (push w value) := by
  intro k
  have hBefore := hBalanced k
  have hSame :
      (w.pushes ++ [(firstInput w).elim .failed fun ch => .sending ch .testing value])[k]?.elim 0 Push.entered =
      (w.pushes[k]?).elim 0 Push.entered := by
    rcases Nat.lt_trichotomy k w.pushes.length with hOld | hNew | hBeyond
    · rw [List.getElem?_append_left hOld]
    · rw [hNew, List.getElem?_concat_length, List.getElem?_eq_none (Nat.le_refl _)]
      cases firstInput w <;> rfl
    · rw [List.getElem?_eq_none (Nat.le_of_lt hBeyond), List.getElem?_eq_none]
      rw [List.length_append]
      exact hBeyond
  simp only [World.total, World.inside, World.missing, World.arrived, World.entered, Dynamic.push] at hBefore ⊢
  omega

theorem Balanced.pushStep {j : Nat} (hStep : pushStep w j = some w') : Balanced w' := by
  obtain ⟨push, hPush, hStep⟩ := bind_eq_some_iff.mp hStep
  cases push with
  | returned | failed => cases hStep
  | sending c stage value =>
    obtain ⟨ch, hCh, rfl⟩ := map_eq_some_iff.mp hStep
    intro k
    have hBefore := hBalanced k
    have hChannels := weigh_set (f := queued k) hCh (put stage ch ⟨j, value⟩).2
    have hQueue := weigh_put (mark k) stage ch ⟨j, value⟩
    have hBound := (List.getElem?_eq_some_iff.mp hPush).1
    simp only [World.total, World.inside, World.missing, World.arrived, World.entered, queued] at hBefore hChannels ⊢
    by_cases hThis : j = k
    · subst hThis
      rw [hPush] at hBefore
      have hMark : mark j (⟨j, value⟩ : Item α) = 1 := by
        rw [mark, decide_eq_true rfl]
        rfl
      rw [hMark] at hQueue
      rw [List.getElem?_set_self hBound]
      cases hPut : (put stage ch ⟨j, value⟩).1 <;>
        · simp only [hPut, Put.kept, Put.dropped, Push.put, Option.elim_some, Push.entered] at hQueue hBefore ⊢
          omega
    · have hMark : mark k (⟨j, value⟩ : Item α) = 0 := by
        rw [mark, decide_eq_false hThis]
        rfl
      have hNone : (put stage ch ⟨j, value⟩).1.kept 0 + (put stage ch ⟨j, value⟩).1.dropped 0 = 0 := by
        cases (put stage ch ⟨j, value⟩).1 <;> rfl
      rw [hMark] at hQueue
      rw [List.getElem?_set_ne hThis]
      omega

theorem Balanced.consume {handle : Nat} (hStep : consume w handle = some w') : Balanced w' := by
  obtain ⟨c, -, hStep⟩ := bind_eq_some_iff.mp hStep
  obtain ⟨ch, hCh, rfl⟩ := map_eq_some_iff.mp hStep
  intro k
  have hBefore := hBalanced k
  have hChannels := weigh_set (f := queued k) hCh (receive .polling ch).2
  have hQueue := weigh_receive (mark k) .polling ch
  have hGot : weigh (fun entry => mark k entry.2) ((receive .polling ch).1.toList.map fun x => (c, x)) =
      weigh (mark k) (receive .polling ch).1.toList := by
    rw [weigh, List.map_map]
    rfl
  simp only [World.total, World.inside, World.missing, World.arrived, World.entered, queued,
    weigh_append] at hBefore hChannels ⊢
  omega

end

end Moves

section Runs

variable {w w' : World α}

theorem unlocked_eq {w'' : World α} (hNext : unlocked w w'' = some w') : w'' = w' := by
  rw [unlocked] at hNext
  split_ifs at hNext
  exact Option.some.inj hNext

theorem keeps_drainStep (hStep : drainStep w = some w') : Keeps w w' := by
  rw [Dynamic.drainStep] at hStep
  split at hStep
  case h_1 snapshot _ =>
    cases hStep
    exact { keeps_apply w (.closeInput (snapshot.headD 0)) with }
  case h_2 =>
    cases hStep
    exact { keeps_rfl w with }
  case h_3 =>
    obtain ⟨stage, -, rfl⟩ := map_eq_some_iff.mp hStep
    split_ifs <;> exact { keeps_rfl w with }
  case h_4 => cases hStep

/-- A step changes the chain and leaves the items where they are, or it moves an item. -/
theorem next_cases {label : Label α} (hNext : next w label = some w') :
    Keeps w w' ∨ (∃ value, w' = push w value) ∨ (∃ k, pushStep w k = some w') ∨
      (∃ handle, consume w handle = some w') ∨ ∃ s i, label = .worker s i ∧ workerStep w s i = some w' := by
  cases label with
  | push value => exact .inr (.inl ⟨value, (unlocked_eq hNext).symm⟩)
  | pushStep k => exact .inr (.inr (.inl ⟨k, hNext⟩))
  | worker s i => exact .inr (.inr (.inr (.inr ⟨s, i, rfl, hNext⟩)))
  | consume handle => exact .inr (.inr (.inr (.inl ⟨handle, hNext⟩)))
  | hotSwap name fn =>
    obtain rfl := unlocked_eq hNext
    exact .inl (keeps_update w name fun _ _ => rfl)
  | setEnabled name enabled =>
    obtain rfl := unlocked_eq hNext
    exact .inl (keeps_update w name fun _ _ => rfl)
  | removeStage name =>
    obtain ⟨w'', hRemove, hNext⟩ := bind_eq_some_iff.mp hNext
    obtain rfl := unlocked_eq hNext
    exact .inl (keeps_removeStage hRemove)
  | write =>
    rw [Dynamic.next] at hNext
    split at hNext
    case h_1 => cases hNext
    case h_2 write writes _ =>
      cases hNext
      exact .inl { keeps_apply w write with }
  | output =>
    obtain rfl := unlocked_eq hNext
    exact .inl { keeps_rfl w with }
  | drain =>
    rw [Dynamic.next] at hNext
    split at hNext
    case isTrue =>
      obtain rfl := unlocked_eq hNext
      exact .inl { keeps_rfl w with }
    case isFalse => cases hNext
  | drainStep => exact .inl (keeps_drainStep hNext)

/-- Every step keeps every item in one place. -/
theorem Balanced.next (hBalanced : Balanced w) {label : Label α} (hNext : next w label = some w') : Balanced w' := by
  rcases next_cases hNext with hKeeps | ⟨value, rfl⟩ | ⟨k, hStep⟩ | ⟨handle, hStep⟩ | ⟨s, i, -, hStep⟩
  · exact hKeeps.balanced hBalanced
  · exact hBalanced.push value
  · exact hBalanced.pushStep hStep
  · exact hBalanced.consume hStep
  · exact hBalanced.worker hStep

structure Spec (α : Type) where
  name : String
  fn : α → α
  workers : Nat
  chanCap : Nat

def build (cfg : Config) (specs : List (Spec α)) : World α :=
  specs.foldl (fun w spec => addStage w cfg spec.name spec.fn spec.workers spec.chanCap) empty

theorem balanced_build (cfg : Config) (specs : List (Spec α)) : Balanced (build cfg specs) := by
  have hFold : ∀ w : World α, Keeps w
      (specs.foldl (fun w spec => addStage w cfg spec.name spec.fn spec.workers spec.chanCap) w) := by
    induction specs with
    | nil => exact keeps_rfl
    | cons spec specs ih => exact fun w => (keeps_addStage w cfg _ _ _ _).trans (ih _)
  exact (hFold empty).balanced fun _ => rfl

/-- In every run from a started pipeline, whatever is changed meanwhile, every item is in one place. -/
theorem balanced_run {cfg : Config} {specs : List (Spec α)} {labels : List (Label α)}
    (hRun : run next labels (start (build cfg specs)) = some w) : Balanced w :=
  run_invariant (P := Balanced) (fun _ _ _ hBalanced hNext => hBalanced.next hNext)
    ((keeps_start _).balanced (balanced_build cfg specs)) hRun

end Runs

section Delivery

variable {w : World α}

/-- Every item whose push succeeded was taken once from one of the output channels. -/
def Delivered (w : World α) : Prop :=
  ∀ k, w.pushes[k]? = some .returned → ∃ entry, (w.received.filter fun entry => entry.2.push = k) = [entry]

theorem arrived_eq (k : Nat) : w.arrived k = (w.received.filter fun entry => entry.2.push = k).length :=
  weigh_filter (fun _ => rfl) w.received

/-- No worker sends into a closed channel. -/
def careful (w : World α) : Label α → Bool
  | .worker s i => match (w.stages[s]?).bind fun stage => stage.crew[i]? with
    | some (.sending c _ _) => (w.channels[c]?).all fun ch => !ch.closed
    | _ => true
  | _ => true

theorem lost_worker {w' : World α} {s i : Nat} (hCareful : careful w (.worker s i) = true)
    (hStep : workerStep w s i = some w') : w'.lost = w.lost := by
  obtain ⟨stage, hStage, hStep⟩ := bind_eq_some_iff.mp hStep
  obtain ⟨worker, hWorker, hStep⟩ := bind_eq_some_iff.mp hStep
  cases worker with
  | sending c sending x =>
    obtain ⟨ch, hCh, rfl⟩ := map_eq_some_iff.mp hStep
    have hOpen : ch.closed = false := by simpa [careful, hStage, hWorker, hCh] using hCareful
    cases hPut : (put sending ch x).1 with
    | refused => exact absurd hPut (put_open hOpen sending x)
    | accepted | again => simp [setWorker, hPut, refused]
  | receiving =>
    obtain ⟨ch, -, rfl⟩ := map_eq_some_iff.mp hStep
    rfl
  | done => cases hStep
  | loading | routing | testing | running | leaving | retiring | closing =>
    cases hStep
    rfl

theorem lost_next {w' : World α} {label : Label α} (hCareful : careful w label = true)
    (hNext : next w label = some w') : w'.lost = w.lost := by
  rcases next_cases hNext with hKeeps | ⟨value, rfl⟩ | ⟨k, hStep⟩ | ⟨handle, hStep⟩ | ⟨s, i, rfl, hStep⟩
  · exact hKeeps.lost
  · rfl
  · obtain ⟨push, -, hStep⟩ := bind_eq_some_iff.mp hStep
    cases push with
    | returned | failed => cases hStep
    | sending c stage value =>
      obtain ⟨ch, -, rfl⟩ := map_eq_some_iff.mp hStep
      rfl
  · obtain ⟨c, -, hStep⟩ := bind_eq_some_iff.mp hStep
    obtain ⟨ch, -, rfl⟩ := map_eq_some_iff.mp hStep
    rfl
  · exact lost_worker hCareful hStep

theorem lost_build (cfg : Config) (specs : List (Spec α)) : (start (build cfg specs)).lost = [] := by
  have hFold : ∀ w : World α, (specs.foldl (fun w spec => addStage w cfg spec.name spec.fn spec.workers spec.chanCap)
      w).lost = w.lost := by
    induction specs with
    | nil => exact fun _ => rfl
    | cons spec specs ih => exact fun w => (ih _).trans (keeps_addStage w cfg _ _ _ _).lost
  exact (keeps_start _).lost.trans (hFold empty)

theorem lost_of_careful {cfg : Config} {specs : List (Spec α)} {labels : List (Label α)}
    (hMeets : Meets next (fun w label => careful w label = true) labels (start (build cfg specs)))
    (hRun : run next labels (start (build cfg specs)) = some w) : w.lost = [] :=
  run_invariant_of (P := fun w => w.lost = [])
    (fun _ _ _ hNone hCareful hNext => (lost_next hCareful hNext).trans hNone) (lost_build cfg specs) hMeets hRun

theorem delivered_iff_ledger {cfg : Config} {specs : List (Spec α)} {labels : List (Label α)}
    (hRun : LabelledRuns.run next labels (start (build cfg specs)) = some w) :
    Delivered w ↔ ∀ k, w.pushes[k]? = some .returned → w.missing k = 0 ∧ w.inside k = 0 := by
  have hBalanced := balanced_run hRun
  have hTotal : ∀ k, w.pushes[k]? = some .returned →
      w.inside k + w.missing k + (w.received.filter fun entry => entry.2.push = k).length = 1 := by
    intro k hReturned
    have hOne : w.entered k = 1 := by
      rw [World.entered, hReturned]
      rfl
    rw [← arrived_eq, ← hOne]
    exact hBalanced k
  constructor
  · intro hDelivered k hReturned
    obtain ⟨entry, hEntry⟩ := hDelivered k hReturned
    have hSum := hTotal k hReturned
    rw [hEntry, List.length_singleton] at hSum
    omega
  · intro hNone k hReturned
    have hSum := hTotal k hReturned
    obtain ⟨hMissing, hInside⟩ := hNone k hReturned
    rw [hMissing, hInside, Nat.zero_add] at hSum
    exact List.length_eq_one_iff.mp hSum

/-- The items that were pushed have come out once each exactly if none was refused by a closed channel and none is
still inside. Where no worker sends into a closed channel, none is refused. -/
theorem delivered_once_iff {cfg : Config} {specs : List (Spec α)} {labels : List (Label α)}
    (hRun : LabelledRuns.run next labels (start (build cfg specs)) = some w) :
    (Delivered w ↔ ∀ k, w.pushes[k]? = some .returned → w.missing k = 0 ∧ w.inside k = 0) ∧
    (LabelledRuns.Meets next (fun w label => careful w label = true) labels (start (build cfg specs)) →
      (Delivered w ↔ ∀ k, w.pushes[k]? = some .returned → w.inside k = 0)) := by
  refine ⟨delivered_iff_ledger hRun, fun hMeets => ?_⟩
  rw [delivered_iff_ledger hRun]
  refine forall₂_congr fun k _ => ?_
  rw [World.missing, lost_of_careful hMeets hRun, weigh_nil, eq_self_iff_true, true_and]

/-- Whatever is changed meanwhile, an item comes out or is lost once at most, and only if its push
has succeeded. -/
theorem received_once (cfg : Config) (specs : List (Spec α)) (labels : List (Label α)) (k : Nat) : Always next (fun w =>
    (w.received.filter fun entry => entry.2.push = k).length + w.missing k ≤ w.entered k) labels
      (start (build cfg specs)) := by
  refine always_of_run (fun labels w hRun => ?_) labels
  have hTotal := balanced_run hRun k
  rw [World.total, arrived_eq] at hTotal
  omega

def twoStages : World Nat := start (build {} [⟨"double", fun n => n * 2, 1, 2⟩, ⟨"addone", fun n => n + 1, 1, 2⟩])

def accepted : List (Label Nat) := [.output, .push 5, .pushStep 0, .pushStep 0]

def removal : List (Label Nat) := [.removeStage "double", .write, .write]

def processing (stage : Nat) : List (Label Nat) := List.replicate 7 (.worker stage 0)

def departure (stage : Nat) : List (Label Nat) := List.replicate 6 (.worker stage 0)

def drained : List (Label Nat) :=
  departure 0 ++ [.drain, .drainStep] ++ departure 1 ++ [.drainStep, .drainStep, .consume 0]

theorem delivered_once_idle : ∃ w, LabelledRuns.run next
    (accepted ++ processing 0 ++ processing 1 ++ [.consume 0] ++ removal ++ drained) twoStages = some w ∧
      w.chain.length = 1 ∧ w.drain = .returned ∧ w.received.map Prod.snd = [⟨0, 11⟩] ∧ Delivered w := by
  have hRun : run next (accepted ++ processing 0 ++ processing 1 ++ [.consume 0] ++ removal ++ drained) twoStages =
    some _ := rfl
  refine ⟨_, hRun, rfl, rfl, rfl, ((delivered_once_iff hRun).2 (by decide +kernel)).mpr fun k hReturned => ?_⟩
  cases k with
  | zero => rfl
  | succ k => cases hReturned

/-- The stage is removed while the item is queued before it: its worker sends the item to the
throwaway channel. -/
theorem delivered_once_thrown_away : twoStages.chain.length = 2 ∧
    ∃ w, LabelledRuns.run next (accepted ++ removal ++ processing 0 ++ drained) twoStages = some w ∧
      w.chain.length = 1 ∧ w.drain = .returned ∧ w.received = [] ∧ ¬Delivered w := by
  refine ⟨rfl, _, rfl, rfl, rfl, rfl, fun hDelivered => ?_⟩
  obtain ⟨entry, hEntry⟩ := hDelivered 0 rfl
  cases hEntry

end Delivery

end Dynamic

end Pipeline
