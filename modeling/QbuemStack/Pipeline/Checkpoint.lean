import QbuemStack.Pipeline.DynamicPipeline

/-! The pipeline with checkpoints. An item is counted when the first channel has taken it, and a
save stores the count as it was when the save began. -/
namespace Pipeline

open Option (bind_eq_some_iff map_eq_some_iff)

namespace Checkpoint

variable {α : Type}

section Model

structure Policy where
  checkpointEnabled : Bool
  checkpointIntervalN : Nat

structure StageSpec (α : Type) where
  name : String
  fn : α → α
  workers : Nat
  chanCap : Nat

inductive Call where
  | pushing (push : Nat)
  | counting
  | deciding (count : UInt64)
  | loading (counted : Bool)
  | storing (counted : Bool) (offset : UInt64)
  | returned (counted : Bool)
  | failed (counted : Bool)
deriving DecidableEq

/-- `saved` has the stored offsets, the latest first; `finished` the items that have passed the last
stage. Both survive a crash. -/
structure World (α : Type) where
  pipeline : Dynamic.World α
  resumed : UInt64
  itemsProcessed : UInt64
  calls : List Call
  saved : List UInt64
  finished : List Nat

/-- `flag` is what a call sees of the world: whether the interval has passed, or whether the store
has saved. -/
inductive Label where
  | pushCounted
  | saveCheckpoint
  | call (i : Nat) (flag : Bool)
  | worker (stage worker : Nat)
  | output
  | consume (handle : Nat)
  | crash

variable (cfg : Dynamic.Config) (specs : List (StageSpec α)) (policy : Policy) (source : Nat → α)

def pipeline : Dynamic.World α :=
  Dynamic.start (specs.foldl (fun w spec =>
    Dynamic.addStage w cfg spec.name spec.fn spec.workers spec.chanCap) Dynamic.empty)

def start : World α := ⟨pipeline cfg specs, 0, 0, [], [], []⟩

def passing (w : Dynamic.World α) (s i : Nat) : Option Nat :=
  if w.chain.getLast? = some s then
    (w.stages[s]?).bind fun stage => (stage.crew[i]?).bind fun worker =>
      match worker with
      | .sending c sending x => (w.channels[c]?).bind fun ch =>
        match (put sending ch x).1 with
        | .accepted => some x.push
        | _ => none
      | _ => none
  else none

def setCall (w : World α) (i : Nat) (c : Call) : World α := { w with calls := w.calls.set i c }

def callStep (w : World α) (i : Nat) (flag : Bool) : Option (World α) :=
  (w.calls[i]?).bind fun c =>
    match c with
    | .pushing k => (w.pipeline.pushes[k]?).bind fun push =>
      match push with
      | .sending _ _ _ => (Dynamic.pushStep w.pipeline k).map fun p => { w with pipeline := p }
      | .returned => some (setCall w i .counting)
      | .failed => some (setCall w i (.failed false))
    | .counting =>
      let count := w.itemsProcessed + 1
      some { setCall w i (if policy.checkpointEnabled then .deciding count else .returned true) with
        itemsProcessed := count }
    | .deciding count =>
      let byCount := 0 < policy.checkpointIntervalN && count.toNat % policy.checkpointIntervalN = 0
      some (setCall w i (if byCount || flag then .loading true else .returned true))
    | .loading counted => some (setCall w i (.storing counted w.itemsProcessed))
    | .storing counted offset =>
      if flag then some { setCall w i (.returned counted) with saved := offset :: w.saved }
      else some (setCall w i (.failed counted))
    | .returned _ => none
    | .failed _ => none

def crash (w : World α) : World α :=
  { w with
    pipeline := pipeline cfg specs
    resumed := w.saved.headD 0
    itemsProcessed := w.saved.headD 0
    calls := [] }

def next (w : World α) : Label → Option (World α)
  | .pushCounted =>
    let k := w.pipeline.pushes.length
    (Dynamic.next w.pipeline (.push (source (w.resumed.toNat + k)))).map fun p =>
      { w with pipeline := p, calls := w.calls ++ [.pushing k] }
  | .saveCheckpoint => some { w with calls := w.calls ++ [.loading false] }
  | .call i flag => callStep policy w i flag
  | .worker s i => (Dynamic.next w.pipeline (.worker s i)).map fun p =>
    { w with
      pipeline := p
      finished := (passing w.pipeline s i).toList.map (fun k => w.resumed.toNat + k) ++ w.finished }
  | .output => (Dynamic.next w.pipeline .output).map fun p => { w with pipeline := p }
  | .consume handle => (Dynamic.next w.pipeline (.consume handle)).map fun p => { w with pipeline := p }
  | .crash => some (crash cfg specs w)

end Model

section Progress

/-- Every item before a stored offset has passed all stages, and no save has stored less than the
one before. -/
structure Behind (w : World α) : Prop where
  passed : ∀ offset ∈ w.saved, ∀ m, m < offset.toNat → m ∈ w.finished
  ascending : w.saved.Pairwise fun later earlier => earlier ≤ later

def Call.counted : Call → Bool
  | .pushing _ => false
  | .counting => false
  | .deciding _ => true
  | .loading counted => counted
  | .storing counted _ => counted
  | .returned counted => counted
  | .failed counted => counted

def Call.counts : Call → Bool
  | .pushing _ => true
  | .counting => true
  | c => c.counted

def Call.isStoring : Call → Bool
  | .storing _ _ => true
  | _ => false

def countedItems (w : World α) : Nat := w.calls.countP Call.counted

/-- Every item this incarnation has pushed has passed the last stage, no save is between its load
and its store, and the counter has not wrapped around. -/
structure Quiet (w : World α) : Prop where
  passed : ∀ k < w.pipeline.pushes.length, w.resumed.toNat + k ∈ w.finished
  alone : ∀ c ∈ w.calls, c.isStoring = false
  inRange : w.resumed.toNat + w.pipeline.pushes.length < 2 ^ 64

/-- A save loads the counter only while the pipeline is quiet. -/
def LoadsQuietly (w : World α) : Label → Prop
  | .call i _ => ∀ counted, w.calls[i]? = some (.loading counted) → Quiet w
  | _ => True

instance (w : World α) : Decidable (Quiet w) :=
  decidable_of_iff ((∀ k < w.pipeline.pushes.length, w.resumed.toNat + k ∈ w.finished) ∧
    (∀ c ∈ w.calls, c.isStoring = false) ∧ w.resumed.toNat + w.pipeline.pushes.length < 2 ^ 64)
    ⟨fun h => ⟨h.1, h.2.1, h.2.2⟩, fun h => ⟨h.passed, h.alone, h.inRange⟩⟩

instance (w : World α) : (label : Label) → Decidable (LoadsQuietly w label)
  | .call _ _ => inferInstanceAs (Decidable (∀ _ : Bool, _))
  | .pushCounted | .saveCheckpoint | .worker _ _ | .output | .consume _ | .crash => .isTrue trivial

end Progress

section Steps

variable {cfg : Dynamic.Config} {specs : List (StageSpec α)} {policy : Policy} {source : Nat → α} {w w' : World α}
  {label : Label} {i : Nat} {c c' : Call} {calls : List Call}

/-- What a step of a call can do: a step of its push, a change of its own place that neither counts
nor stores, the count of an item, the load or the store of a save. -/
theorem callStep_cases {flag : Bool} (hStep : callStep policy w i flag = some w') :
    ∃ c, w.calls[i]? = some c ∧
      ((∃ k p, Dynamic.pushStep w.pipeline k = some p ∧ w' = { w with pipeline := p }) ∨
      (∃ c', c'.counted = c.counted ∧ (c'.counts = true → c.counts = true) ∧ c'.isStoring = false ∧
        w' = setCall w i c') ∨
      (∃ c', c.counted = false ∧ c.counts = true ∧ c'.counted = true ∧ c'.isStoring = false ∧
        w' = { setCall w i c' with itemsProcessed := w.itemsProcessed + 1 }) ∨
      (∃ counted, c = .loading counted ∧ w' = setCall w i (.storing counted w.itemsProcessed)) ∨
      ∃ counted offset, c = .storing counted offset ∧
        w' = { setCall w i (.returned counted) with saved := offset :: w.saved }) := by
  rw [callStep, bind_eq_some_iff] at hStep
  obtain ⟨c, hCall, hStep⟩ := hStep
  refine ⟨c, hCall, ?_⟩
  cases c with
  | pushing k =>
    obtain ⟨push, -, hStep⟩ := bind_eq_some_iff.mp hStep
    cases push with
    | sending ch stage value =>
      obtain ⟨p, hPush, rfl⟩ := map_eq_some_iff.mp hStep
      exact .inl ⟨k, p, hPush, rfl⟩
    | returned =>
      cases hStep
      exact .inr (.inl ⟨.counting, rfl, fun _ => rfl, rfl, rfl⟩)
    | failed =>
      cases hStep
      exact .inr (.inl ⟨.failed false, rfl, fun _ => rfl, rfl, rfl⟩)
  | counting =>
    cases hStep
    refine .inr (.inr (.inl ⟨_, rfl, rfl, ?_, ?_, rfl⟩))
    all_goals split_ifs <;> rfl
  | deciding count =>
    cases hStep
    refine .inr (.inl ⟨_, ?_, fun _ => rfl, ?_, rfl⟩)
    all_goals split_ifs <;> rfl
  | loading counted =>
    cases hStep
    exact .inr (.inr (.inr (.inl ⟨counted, rfl, rfl⟩)))
  | storing counted offset =>
    cases flag with cases hStep
    | true => exact .inr (.inr (.inr (.inr ⟨counted, offset, rfl, rfl⟩)))
    | false => exact .inr (.inl ⟨.failed counted, rfl, id, rfl, rfl⟩)
  | returned | failed => cases hStep

theorem pushStep_pushes {p p' : Dynamic.World α} {k : Nat} (hStep : Dynamic.pushStep p k = some p') :
    p'.pushes.length = p.pushes.length := by
  rw [Dynamic.pushStep, bind_eq_some_iff] at hStep
  obtain ⟨push, -, hStep⟩ := hStep
  cases push with
  | sending ch stage value =>
    obtain ⟨_, -, rfl⟩ := map_eq_some_iff.mp hStep
    exact List.length_set
  | returned | failed => cases hStep

theorem workerStep_pushes {p p' : Dynamic.World α} {s i : Nat} (hStep : Dynamic.workerStep p s i = some p') :
    p'.pushes = p.pushes := by
  rw [Dynamic.workerStep, bind_eq_some_iff] at hStep
  obtain ⟨stage, -, hStep⟩ := hStep
  obtain ⟨worker, -, hStep⟩ := bind_eq_some_iff.mp hStep
  cases worker with
  | receiving | sending =>
    obtain ⟨_, -, rfl⟩ := map_eq_some_iff.mp hStep
    rfl
  | done => cases hStep
  | _ =>
    cases hStep
    rfl

/-- What a step can do to everything but the pipeline's channels and stages. -/
theorem next_cases (hNext : next cfg specs policy source w label = some w') :
    (∃ p, p.pushes.length = w.pipeline.pushes.length + 1 ∧
      w' = { w with pipeline := p, calls := w.calls ++ [.pushing w.pipeline.pushes.length] }) ∨
    w' = { w with calls := w.calls ++ [.loading false] } ∨
    (∃ i flag, label = .call i flag ∧ callStep policy w i flag = some w') ∨
    (∃ p passed, p.pushes.length = w.pipeline.pushes.length ∧
      w' = { w with pipeline := p, finished := passed ++ w.finished }) ∨
    w' = crash cfg specs w := by
  cases label with
  | pushCounted =>
    obtain ⟨p, hPush, rfl⟩ := map_eq_some_iff.mp hNext
    simp only [Dynamic.next, Dynamic.unlocked] at hPush
    split_ifs at hPush
    cases hPush
    exact .inl ⟨_, by simp [Dynamic.push], rfl⟩
  | saveCheckpoint =>
    cases hNext
    exact .inr (.inl rfl)
  | call i flag => exact .inr (.inr (.inl ⟨i, flag, rfl, hNext⟩))
  | worker s i =>
    obtain ⟨p, hWorker, rfl⟩ := map_eq_some_iff.mp hNext
    exact .inr (.inr (.inr (.inl ⟨p, _, congrArg List.length (workerStep_pushes hWorker), rfl⟩)))
  | output =>
    obtain ⟨p, hOutput, rfl⟩ := map_eq_some_iff.mp hNext
    simp only [Dynamic.next, Dynamic.unlocked] at hOutput
    split_ifs at hOutput
    cases hOutput
    refine .inr (.inr (.inr (.inl ⟨_, [], ?_, rfl⟩)))
    rfl
  | consume handle =>
    obtain ⟨p, hConsume, rfl⟩ := map_eq_some_iff.mp hNext
    rw [Dynamic.next, Dynamic.consume, bind_eq_some_iff] at hConsume
    obtain ⟨c, -, hConsume⟩ := hConsume
    obtain ⟨ch, -, rfl⟩ := map_eq_some_iff.mp hConsume
    refine .inr (.inr (.inr (.inl ⟨_, [], ?_, rfl⟩)))
    rfl
  | crash =>
    cases hNext
    exact .inr (.inr (.inr (.inr rfl)))

end Steps

section Counter

variable {cfg : Dynamic.Config} {specs : List (StageSpec α)} {policy : Policy} {source : Nat → α} {w w' : World α}
  {label : Label} {i : Nat} {c c' : Call} {calls : List Call}

theorem countP_set_add (p : Call → Bool) (c' : Call) (hCall : calls[i]? = some c) :
    (calls.set i c').countP p + (p c).toNat = calls.countP p + (p c').toNat := by
  obtain ⟨hLt, hGet⟩ := List.getElem?_eq_some_iff.mp hCall
  rw [List.countP_set hLt, hGet]
  cases hOld : p c with
  | false => cases p c' <;> rfl
  | true =>
    have hPos : 0 < calls.countP p := List.countP_pos_iff.mpr ⟨c, List.mem_of_getElem? hCall, hOld⟩
    cases p c' <;> simp <;> omega

/-- The counter is the resumed offset and the items counted since. -/
def Counts (w : World α) : Prop := w.itemsProcessed = w.resumed + UInt64.ofNat (countedItems w)

theorem countedItems_setCall (c' : Call) (hCall : w.calls[i]? = some c) :
    countedItems (setCall w i c') + c.counted.toNat = countedItems w + c'.counted.toNat :=
  countP_set_add Call.counted c' hCall

theorem countP_set_same (p : Call → Bool) (c' : Call) (hCall : calls[i]? = some c) (hSame : p c' = p c) :
    (calls.set i c').countP p = calls.countP p := by
  have hSet := countP_set_add p c' hCall
  rw [hSame] at hSet
  exact Nat.add_right_cancel hSet

theorem countedItems_same (c' : Call) (hCall : w.calls[i]? = some c) (hSame : c'.counted = c.counted) :
    countedItems (setCall w i c') = countedItems w :=
  countP_set_same Call.counted c' hCall hSame

/-- Every step keeps the counter in step with the items counted. -/
theorem counts_next (hCounts : Counts w) (hNext : next cfg specs policy source w label = some w') : Counts w' := by
  rcases next_cases hNext with ⟨p, -, rfl⟩ | rfl | ⟨i, flag, -, hStep⟩ | ⟨p, passed, -, rfl⟩ | rfl
  · simpa [Counts, countedItems, Call.counted] using hCounts
  · simpa [Counts, countedItems, Call.counted] using hCounts
  · obtain ⟨c, hCall, ⟨k, p, -, rfl⟩ | ⟨c', hSame, -, -, rfl⟩ | ⟨c', hOld, -, hNew, -, rfl⟩ | ⟨counted, rfl, rfl⟩ |
      ⟨counted, offset, rfl, rfl⟩⟩ := callStep_cases hStep
    · exact hCounts
    · rw [Counts, countedItems_same c' hCall hSame]
      exact hCounts
    · have hItems := countedItems_setCall c' hCall
      rw [hOld, hNew] at hItems
      have hOne : countedItems (setCall w i c') = countedItems w + 1 := hItems
      show w.itemsProcessed + 1 = w.resumed + UInt64.ofNat (countedItems (setCall w i c'))
      rw [hOne, UInt64.ofNat_add, ← UInt64.add_assoc]
      exact congrArg (· + 1) hCounts
    · rw [Counts, countedItems_same (.storing counted w.itemsProcessed) hCall rfl]
      exact hCounts
    · show w.itemsProcessed = w.resumed + UInt64.ofNat (countedItems (setCall w i (.returned counted)))
      rw [countedItems_same (.returned counted) hCall rfl]
      exact hCounts
  · exact hCounts
  · exact (UInt64.add_zero _).symm

end Counter

section Store

variable {cfg : Dynamic.Config} {specs : List (StageSpec α)} {policy : Policy} {source : Nat → α} {w w' : World α}
  {label : Label} {i : Nat} {c c' : Call}

structure Storable (w : World α) (offset : UInt64) : Prop where
  passed : ∀ m < offset.toNat, m ∈ w.finished
  least : w.saved.headD 0 ≤ offset
  counted : offset.toNat ≤ w.resumed.toNat + countedItems w

structure Kept (w : World α) : Prop where
  behind : Behind w
  counter : Counts w
  pushed : w.calls.countP Call.counts ≤ w.pipeline.pushes.length
  replayed : ∀ m < w.resumed.toNat, m ∈ w.finished
  latest : (w.saved.headD 0).toNat ≤ w.resumed.toNat + countedItems w
  storing : ∀ counted offset, .storing counted offset ∈ w.calls → Storable w offset
  single : w.calls.countP Call.isStoring ≤ 1

theorem ascending_cons {offset : UInt64} {saved : List UInt64}
    (hSaved : saved.Pairwise fun later earlier => earlier ≤ later) (hLeast : saved.headD 0 ≤ offset) :
    (offset :: saved).Pairwise fun later earlier => earlier ≤ later := by
  refine List.pairwise_cons.mpr ⟨fun earlier hMem => ?_, hSaved⟩
  cases saved with
  | nil => cases hMem
  | cons stored saved =>
    rcases List.mem_cons.mp hMem with rfl | hOlder
    · exact hLeast
    · exact UInt64.le_trans ((List.pairwise_cons.mp hSaved).1 earlier hOlder) hLeast

theorem countedItems_le (w : World α) : countedItems w ≤ w.calls.countP Call.counts := by
  refine List.countP_mono_left fun c _ hCounted => ?_
  cases c <;> first | exact hCounted | rfl

theorem Storable.mono {offset : UInt64} (h : Storable w offset) (hSaved : w'.saved = w.saved)
    (hFinished : w.finished ⊆ w'.finished) (hResumed : w'.resumed = w.resumed)
    (hItems : countedItems w ≤ countedItems w') : Storable w' offset where
  passed m hm := hFinished (h.passed m hm)
  least := by rw [hSaved]; exact h.least
  counted := by rw [hResumed]; exact h.counted.trans (Nat.add_le_add_left hItems _)

/-- A quiet load reads an offset that may be stored. -/
theorem Quiet.storable (hQuiet : Quiet w) (hKept : Kept w) : Storable w w.itemsProcessed := by
  have hItems := (countedItems_le w).trans hKept.pushed
  have hRange := hQuiet.inRange
  have hCounter : w.itemsProcessed.toNat = w.resumed.toNat + countedItems w := by
    rw [hKept.counter, UInt64.toNat_add, UInt64.toNat_ofNat']
    rw [Nat.mod_eq_of_lt (a := countedItems w) (by omega), Nat.mod_eq_of_lt (by omega)]
  refine ⟨fun m hm => ?_, UInt64.le_iff_toNat_le.mpr ?_, Nat.le_of_eq hCounter⟩
  · by_cases hOld : m < w.resumed.toNat
    · exact hKept.replayed m hOld
    · have hPassed := hQuiet.passed (m - w.resumed.toNat) (by omega)
      rwa [Nat.add_sub_cancel' (by omega)] at hPassed
  · rw [hCounter]
    exact hKept.latest

theorem storing_setCall {counted : Bool} {offset : UInt64} (hNot : c'.isStoring = false)
    (hMem : .storing counted offset ∈ (setCall w i c').calls) : .storing counted offset ∈ w.calls := by
  refine (List.mem_or_eq_of_mem_set hMem).resolve_right fun hSame => ?_
  rw [← hSame] at hNot
  cases hNot

/-- A call moves to a place in which it does not store; it counts at most one item. -/
theorem Kept.move {itemsProcessed : UInt64} (hKept : Kept w) (hCall : w.calls[i]? = some c)
    (hCounts : c'.counts = true → c.counts = true) (hCounted : c.counted = true → c'.counted = true)
    (hNot : c'.isStoring = false) (hCounter : Counts { setCall w i c' with itemsProcessed }) :
    Kept { setCall w i c' with itemsProcessed } := by
  have hItems := countedItems_setCall c' hCall
  have hPushed := countP_set_add Call.counts c' hCall
  have hSingle := countP_set_add Call.isStoring c' hCall
  have hMore : countedItems w ≤ countedItems (setCall w i c') := by
    cases hOld : c.counted with
    | false =>
      rw [hOld, Bool.toNat_false] at hItems
      omega
    | true =>
      rw [hOld, hCounted hOld] at hItems
      omega
  refine ⟨⟨hKept.behind.passed, hKept.behind.ascending⟩, hCounter, ?_, hKept.replayed, ?_, ?_, ?_⟩
  · refine le_trans ?_ hKept.pushed
    cases hNew : c'.counts with
    | false =>
      rw [hNew, Bool.toNat_false] at hPushed
      exact Nat.le_of_add_right_le (Nat.le_of_eq hPushed)
    | true =>
      rw [hNew, hCounts hNew] at hPushed
      exact Nat.le_of_eq (Nat.add_right_cancel hPushed)
  · exact hKept.latest.trans (Nat.add_le_add_left hMore _)
  · intro counted offset hMem
    exact (hKept.storing counted offset (storing_setCall hNot hMem)).mono rfl (List.Subset.refl _) rfl hMore
  · rw [hNot, Bool.toNat_false] at hSingle
    exact (Nat.le_of_add_right_le (Nat.le_of_eq hSingle)).trans hKept.single

/-- A save loads the counter of a quiet pipeline: the only offset on its way to the store. -/
theorem Kept.load {counted : Bool} (hKept : Kept w) (hCall : w.calls[i]? = some (.loading counted)) (hLoad : Quiet w)
    (hCounter : Counts (setCall w i (.storing counted w.itemsProcessed))) :
    Kept (setCall w i (.storing counted w.itemsProcessed)) := by
  have hItems : countedItems (setCall w i (.storing counted w.itemsProcessed)) = countedItems w :=
    countedItems_same _ hCall rfl
  have hPushed := countP_set_same Call.counts (.storing counted w.itemsProcessed) hCall rfl
  have hSingle := countP_set_add Call.isStoring (.storing counted w.itemsProcessed) hCall
  have hNone : w.calls.countP Call.isStoring = 0 := by
    rw [List.countP_eq_zero]
    intro c hMem
    rw [hLoad.alone c hMem]
    exact Bool.false_ne_true
  refine ⟨⟨hKept.behind.passed, hKept.behind.ascending⟩, hCounter, hPushed.trans_le hKept.pushed, hKept.replayed, ?_,
    fun counted' offset hMem => ?_, ?_⟩
  · rw [hItems]
    exact hKept.latest
  · rcases List.mem_or_eq_of_mem_set hMem with hMem | hEq
    · have hNot := hLoad.alone _ hMem
      cases hNot
    · cases hEq
      exact (hLoad.storable hKept).mono rfl (List.Subset.refl _) rfl (Nat.le_of_eq hItems.symm)
  · rw [hNone] at hSingle
    exact Nat.le_of_eq hSingle

/-- The offset that was loaded is stored. -/
theorem Kept.store {counted : Bool} {offset : UInt64} (hKept : Kept w)
    (hCall : w.calls[i]? = some (.storing counted offset))
    (hCounter : Counts { setCall w i (.returned counted) with saved := offset :: w.saved }) :
    Kept { setCall w i (.returned counted) with saved := offset :: w.saved } := by
  have hStorable := hKept.storing counted offset (List.mem_of_getElem? hCall)
  have hItems : countedItems (setCall w i (.returned counted)) = countedItems w :=
    countedItems_same _ hCall rfl
  have hPushed := countP_set_same Call.counts (.returned counted) hCall rfl
  have hSingle := countP_set_add Call.isStoring (.returned counted) hCall
  have hNone : (setCall w i (.returned counted)).calls.countP Call.isStoring = 0 := by
    have hOne := hKept.single
    simp only [Call.isStoring, Bool.toNat_true, Bool.toNat_false] at hSingle
    simp only [setCall]
    omega
  refine ⟨⟨?_, ascending_cons hKept.behind.ascending hStorable.least⟩, hCounter, hPushed.trans_le hKept.pushed,
    hKept.replayed, ?_, fun counted' offset' hMem => ?_, hNone.trans_le (Nat.zero_le 1)⟩
  · intro other hMem m hm
    rcases List.mem_cons.mp hMem with rfl | hOlder
    · exact hStorable.passed m hm
    · exact hKept.behind.passed other hOlder m hm
  · exact hStorable.counted.trans (Nat.add_le_add_left (Nat.le_of_eq hItems.symm) _)
  · exact absurd rfl (List.countP_eq_zero.mp hNone _ hMem)

theorem kept_call {flag : Bool} (hKept : Kept w) (hQuiet : LoadsQuietly w (.call i flag))
    (hCounter : Counts w') (hStep : callStep policy w i flag = some w') : Kept w' := by
  obtain ⟨c, hCall, ⟨k, p, hPush, rfl⟩ | ⟨c', hSame, hCounts, hNot, rfl⟩ | ⟨c', hOld, hCounts, hNew, hNot, rfl⟩ |
    ⟨counted, rfl, rfl⟩ | ⟨counted, offset, rfl, rfl⟩⟩ := callStep_cases hStep
  · exact ⟨⟨hKept.behind.passed, hKept.behind.ascending⟩, hCounter,
      hKept.pushed.trans_eq (pushStep_pushes hPush).symm, hKept.replayed, hKept.latest,
      fun counted offset hMem => (hKept.storing counted offset hMem).mono rfl (List.Subset.refl _) rfl le_rfl,
      hKept.single⟩
  · exact hKept.move hCall hCounts (fun h => hSame.trans h) hNot hCounter
  · exact hKept.move hCall (fun _ => hCounts) (fun _ => hNew) hNot hCounter
  · exact hKept.load hCall (hQuiet counted hCall) hCounter
  · exact hKept.store hCall hCounter

/-- A call begins with nothing counted and nothing to store. -/
theorem Kept.start {p : Dynamic.World α} (hKept : Kept w) (hCounted : c.counted = false) (hNot : c.isStoring = false)
    (hPushes : w.pipeline.pushes.length + c.counts.toNat ≤ p.pushes.length)
    (hCounter : Counts { w with pipeline := p, calls := w.calls ++ [c] }) :
    Kept { w with pipeline := p, calls := w.calls ++ [c] } := by
  have hAppend : ∀ f : Call → Bool, (w.calls ++ [c]).countP f = w.calls.countP f + (f c).toNat := by
    intro f
    rw [List.countP_append, List.countP_singleton]
    cases f c <;> rfl
  have hItems : (w.calls ++ [c]).countP Call.counted = countedItems w := by
    rw [hAppend, hCounted]
    rfl
  refine ⟨⟨hKept.behind.passed, hKept.behind.ascending⟩, hCounter, ?_, hKept.replayed, ?_,
    fun counted offset hMem => ?_, ?_⟩
  · rw [hAppend]
    exact (Nat.add_le_add_right hKept.pushed _).trans hPushes
  · rw [countedItems, hItems]
    exact hKept.latest
  · have hOld : .storing counted offset ∈ w.calls := by
      refine (List.mem_append.mp hMem).resolve_right fun hSame => ?_
      rw [← List.mem_singleton.mp hSame] at hNot
      cases hNot
    exact (hKept.storing counted offset hOld).mono rfl (List.Subset.refl _) rfl (Nat.le_of_eq hItems.symm)
  · rw [hAppend, hNot]
    exact hKept.single

/-- A quiet step keeps what may be stored. -/
theorem kept_next (hKept : Kept w) (hQuiet : LoadsQuietly w label)
    (hNext : next cfg specs policy source w label = some w') : Kept w' := by
  have hCounter := counts_next hKept.counter hNext
  rcases next_cases hNext with ⟨p, hPushes, rfl⟩ | rfl | ⟨i, flag, rfl, hStep⟩ | ⟨p, passed, hPushes, rfl⟩ | rfl
  · exact hKept.start rfl rfl (Nat.le_of_eq hPushes.symm) hCounter
  · exact hKept.start rfl rfl le_rfl hCounter
  · exact kept_call hKept hQuiet hCounter hStep
  · refine ⟨⟨fun offset hMem m hm => ?_, hKept.behind.ascending⟩, hCounter, hKept.pushed.trans_eq hPushes.symm,
      fun m hm => ?_, hKept.latest, fun counted offset hMem => ?_, hKept.single⟩
    · exact List.mem_append_right _ (hKept.behind.passed offset hMem m hm)
    · exact List.mem_append_right _ (hKept.replayed m hm)
    · exact (hKept.storing counted offset hMem).mono rfl (List.subset_append_right _ _) rfl le_rfl
  · refine ⟨⟨hKept.behind.passed, hKept.behind.ascending⟩, hCounter, Nat.zero_le _, fun m hm => ?_, le_rfl,
      nofun, Nat.zero_le 1⟩
    cases hSaved : w.saved with
    | nil => simp [crash, hSaved] at hm
    | cons latest older =>
      refine hKept.behind.passed latest (by rw [hSaved]; exact List.mem_cons_self) m ?_
      simpa [crash, hSaved] using hm

end Store

section Runs

/-- The counter is the resumed offset and the items taken since. If every save loads it while the pipeline is quiet,
the store stays behind the stages throughout the run, crashes included. -/
theorem behind_of_quiet (cfg : Dynamic.Config) (specs : List (StageSpec α)) (policy : Policy) (source : Nat → α)
    (labels : List Label) :
    LabelledRuns.Always (next cfg specs policy source) Counts labels (start cfg specs) ∧
    (LabelledRuns.Meets (next cfg specs policy source) LoadsQuietly labels (start cfg specs) →
      LabelledRuns.Always (next cfg specs policy source) Behind labels (start cfg specs)) := by
  have hStart : Counts (start cfg specs) := (UInt64.add_zero 0).symm
  constructor
  · refine LabelledRuns.always_of_run (fun labels w hRun => ?_) labels
    exact LabelledRuns.run_invariant (P := Counts) (fun _ _ _ => counts_next) hStart hRun
  · apply LabelledRuns.always_of_meets (I := Kept)
    · exact fun _ hKept => hKept.behind
    · exact fun _ _ _ => kept_next
    · exact ⟨⟨nofun, List.Pairwise.nil⟩, hStart, Nat.zero_le _, nofun, le_rfl, nofun, Nat.zero_le 1⟩

def savedRound : List Label :=
  .pushCounted :: List.replicate 4 (.call 0 false) ++ List.replicate 7 (.worker 0 0) ++
    [.saveCheckpoint, .call 1 false, .call 1 true]

/-- Two such rounds with a crash between them. -/
theorem behind_two_rounds :
    (∃ w, LabelledRuns.run (next ⟨4, 1⟩ [⟨"stage", id, 1, 4⟩] ⟨false, 0⟩ fun n => n)
      (savedRound ++ .crash :: savedRound)
      (start ⟨4, 1⟩ [⟨"stage", id, 1, 4⟩]) = some w ∧ w.saved = [2, 1] ∧ w.finished = [1, 0]) ∧
    LabelledRuns.Always (next ⟨4, 1⟩ [⟨"stage", id, 1, 4⟩] ⟨false, 0⟩ fun n => n) Behind
      (savedRound ++ .crash :: savedRound) (start ⟨4, 1⟩ [⟨"stage", id, 1, 4⟩]) :=
  ⟨⟨_, rfl, rfl, rfl⟩, (behind_of_quiet ⟨4, 1⟩ [⟨"stage", id, 1, 4⟩] ⟨false, 0⟩ (fun n => n) _).2 (by decide +kernel)⟩

/-- One stage and a save after every item: the item is in the first channel, and the stored offset
is 1. -/
theorem stored_before_processed : ∃ w, LabelledRuns.run (next ⟨4, 1⟩ [⟨"stage", id, 1, 4⟩] ⟨true, 1⟩ fun n => n)
    [.pushCounted, .call 0 false, .call 0 false, .call 0 false, .call 0 false, .call 0 false, .call 0 false,
      .call 0 true]
    (start ⟨4, 1⟩ [⟨"stage", id, 1, 4⟩]) = some w ∧ w.saved = [1] ∧ w.finished = [] ∧ ¬Behind w := by
  refine ⟨_, rfl, rfl, rfl, fun hBehind => ?_⟩
  exact absurd (hBehind.passed 1 List.mem_cons_self 0 (by decide)) List.not_mem_nil

end Runs

end Checkpoint

end Pipeline
