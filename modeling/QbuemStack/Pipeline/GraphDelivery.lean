import QbuemStack.Pipeline.GraphFlow

/-! What the output of a graph gives: with one token for each path, which paths the consumer has
received. -/
namespace Pipeline

open Option (bind_eq_some_iff map_eq_some_iff)

namespace Graph

open Weights
open List (replicate)

variable {α : Type}

section Placement

variable (g : PipelineGraph α)

def Worker.Placed (values : List α) (v : Nat) : Worker α → Prop
  | .running x => Arrived g values v x
  | .sending _ x => Produced g values v x
  | _ => True

def Fanout.Placed (values : List α) (v : Nat) : Fanout α → Prop
  | .sending _ x _ => Produced g values v x
  | _ => True

def Finished (values : List α) (x : Item α) : Prop := ∃ v, isSink g v = true ∧ Produced g values v x

def Merge.Placed (values : List α) : Merge α → Prop
  | .sending _ x => Finished g values x
  | _ => True

structure Placed (w : World α) : Prop where
  ins : ∀ v ch, w.ins[v]? = some ch → ∀ x ∈ ch.items, Arrived g w.values v x
  outs : ∀ v ch, w.outs[v]? = some ch → ∀ x ∈ ch.items, Produced g w.values v x
  workers : ∀ (v : Nat) (crew : List (Worker α)), w.workers[v]? = some crew →
    ∀ worker ∈ crew, worker.Placed g w.values v
  fanouts : ∀ (v : Nat) (fanout : Fanout α), w.fanouts[v]? = some fanout → fanout.Placed g w.values v
  merges : ∀ merge ∈ w.merges, merge.Placed g w.values
  output : ∀ x ∈ w.output.items, Finished g w.values x
  received : ∀ x ∈ w.received, Finished g w.values x
  lost : ∀ loss ∈ w.lost, loss.item.push < w.values.length
  pushes : w.pushes.length = w.values.length

variable {g} {w w' : World α} {values : List α} {v i m k : Nat} {x : Item α}

theorem Arrived.lt_length (hArrived : Arrived g values v x) : x.push < values.length := by
  obtain ⟨value, hValue, -⟩ := hArrived
  exact (List.getElem?_eq_some_iff.mp hValue).1

theorem Produced.lt_length (hProduced : Produced g values v x) : x.push < values.length := by
  obtain ⟨value, node, z, hValue, -⟩ := hProduced
  exact (List.getElem?_eq_some_iff.mp hValue).1

theorem set_cases {β : Type} {l : List β} {i j : Nat} {a b : β} (hGet : (l.set i a)[j]? = some b) :
    (j = i ∧ b = a) ∨ l[j]? = some b := by
  by_cases hSame : i = j
  · subst hSame
    have hLt : i < l.length := by
      have hBound := (List.getElem?_eq_some_iff.mp hGet).1
      rwa [List.length_set] at hBound
    rw [List.getElem?_set_self hLt] at hGet
    exact .inl ⟨rfl, (Option.some.inj hGet).symm⟩
  · rw [List.getElem?_set_ne hSame] at hGet
    exact .inr hGet

variable {channels : List (Channel (Item α))} {ch : Channel (Item α)} {got : Got (Item α)}

theorem modify_close_cases {target : Option Nat} {j : Nat}
    (hGet : (target.elim channels fun u => channels.modify u fun ch => ch.close.state)[j]? = some ch) :
    ∃ before, channels[j]? = some before ∧ ch.items = before.items := by
  cases target with
  | none => exact ⟨ch, hGet, rfl⟩
  | some u =>
    rw [Option.elim_some] at hGet
    by_cases hSame : u = j
    · subst hSame
      rw [List.getElem?_modify_eq] at hGet
      obtain ⟨before, hBefore, rfl⟩ := map_eq_some_iff.mp hGet
      exact ⟨before, hBefore, rfl⟩
    · rw [List.getElem?_modify_ne _ _ hSame] at hGet
      exact ⟨ch, hGet, rfl⟩

theorem Placed.channel {P : Nat → Item α → Prop} (hAll : ∀ v ch, channels[v]? = some ch → ∀ x ∈ ch.items, P v x)
    (hNew : ∀ x ∈ ch.items, P v x) : ∀ u ch', (channels.set v ch)[u]? = some ch' → ∀ x ∈ ch'.items, P u x := by
  intro u ch' hGet
  rcases set_cases hGet with ⟨rfl, rfl⟩ | hOld
  · exact hNew
  · exact hAll u ch' hOld

theorem Placed.crew (hPlaced : Placed g w) {crew : List (Worker α)} (hCrew : w.workers[v]? = some crew)
    {worker : Worker α} (hNew : worker.Placed g w.values v) :
    ∀ (u : Nat) (crew' : List (Worker α)), (w.workers.set v (crew.set i worker))[u]? = some crew' →
      ∀ other ∈ crew', other.Placed g w.values u := by
  intro u crew' hGet other hOther
  rcases set_cases hGet with ⟨rfl, rfl⟩ | hOld
  · rcases List.mem_or_eq_of_mem_set hOther with hBefore | rfl
    · exact hPlaced.workers u crew hCrew other hBefore
    · exact hNew
  · exact hPlaced.workers u crew' hOld other hOther

theorem Worker.placed_got (hGot : ∀ x ∈ got.toList, Arrived g values v x) : (Worker.got got).Placed g values v := by
  cases got with
  | item x => exact hGot x List.mem_cons_self
  | ended | again => trivial

theorem Fanout.placed_got (hGot : ∀ x ∈ got.toList, Produced g values v x) : (Fanout.got got).Placed g values v := by
  cases got with
  | item x => exact hGot x List.mem_cons_self
  | ended | again => trivial

theorem Merge.placed_got (hGot : ∀ x ∈ got.toList, Finished g values x) : (Merge.got got).Placed g values := by
  cases got with
  | item x => exact hGot x List.mem_cons_self
  | ended | again => trivial

section

variable (hPlaced : Placed g w)
include hPlaced

theorem Placed.taken (extent : Extent) (hGot : ∀ x ∈ got.toList, Produced g w.values v x) :
    ∀ loss ∈ w.lost ++ Loss.taken extent got, loss.item.push < w.values.length := by
  intro loss hLoss
  rcases List.mem_append.mp hLoss with hOld | hNew
  · exact hPlaced.lost loss hOld
  · obtain ⟨x, hx, rfl⟩ := List.mem_map.mp hNew
    exact (hGot x hx).lt_length

theorem Placed.refused (extent : Extent) (put : Put) (hx : x.push < w.values.length) :
    ∀ loss ∈ w.lost ++ Loss.refused x extent put, loss.item.push < w.values.length := by
  intro loss hLoss
  rcases List.mem_append.mp hLoss with hOld | hNew
  · exact hPlaced.lost loss hOld
  · cases put with
    | refused =>
      obtain rfl := List.mem_singleton.mp hNew
      exact hx
    | accepted | again => cases hNew

theorem Placed.worker (hStep : workerStep g w v i = some w') : Placed g w' := by
  obtain ⟨crew, hCrew, hStep⟩ := bind_eq_some_iff.mp hStep
  obtain ⟨worker, hWorker, hStep⟩ := bind_eq_some_iff.mp hStep
  have hThis := hPlaced.workers v crew hCrew worker (List.mem_of_getElem? hWorker)
  cases worker with
  | receiving stage =>
    obtain ⟨ch, hCh, rfl⟩ := map_eq_some_iff.mp hStep
    obtain ⟨hLeft, hGot⟩ := receive_mem stage (hPlaced.ins v ch hCh)
    exact { hPlaced with
      ins := Placed.channel hPlaced.ins hLeft
      workers := hPlaced.crew hCrew (Worker.placed_got hGot) }
  | running x =>
    obtain ⟨node, hNode, rfl⟩ := map_eq_some_iff.mp hStep
    exact { hPlaced with workers := hPlaced.crew hCrew (Arrived.run hThis hNode) }
  | sending stage x =>
    obtain ⟨ch, hCh, rfl⟩ := map_eq_some_iff.mp hStep
    have hKept := put_mem stage (hPlaced.outs v ch hCh) hThis
    refine { hPlaced with
      outs := Placed.channel hPlaced.outs hKept
      workers := hPlaced.crew hCrew ?_
      lost := hPlaced.refused .whole _ (Produced.lt_length hThis) }
    cases (put stage ch x).1 with
    | again => exact hThis
    | refused | accepted => trivial
  | leaving =>
    obtain ⟨live, -, rfl⟩ := map_eq_some_iff.mp hStep
    refine { hPlaced with workers := hPlaced.crew hCrew ?_ }
    split_ifs <;> trivial
  | closing =>
    obtain ⟨ch, hCh, rfl⟩ := map_eq_some_iff.mp hStep
    exact { hPlaced with
      outs := Placed.channel hPlaced.outs (hPlaced.outs v ch hCh)
      workers := hPlaced.crew hCrew trivial }
  | done => cases hStep

theorem Placed.fanout (hStep : fanoutStep g w v = some w') : Placed g w' := by
  obtain ⟨node, hNode, hStep⟩ := bind_eq_some_iff.mp hStep
  obtain ⟨fanout, hFanout, hStep⟩ := bind_eq_some_iff.mp hStep
  have hThis := hPlaced.fanouts v fanout hFanout
  have hSet : ∀ {after : Fanout α}, after.Placed g w.values v →
      ∀ (u : Nat) (other : Fanout α), (w.fanouts.set v after)[u]? = some other → other.Placed g w.values u := by
    intro after hAfter u other hGet
    rcases set_cases hGet with ⟨rfl, rfl⟩ | hOld
    · exact hAfter
    · exact hPlaced.fanouts u other hOld
  cases fanout with
  | receiving stage =>
    obtain ⟨ch, hCh, rfl⟩ := map_eq_some_iff.mp hStep
    obtain ⟨hLeft, hGot⟩ := receive_mem stage (hPlaced.outs v ch hCh)
    exact { hPlaced with
      outs := Placed.channel hPlaced.outs hLeft
      fanouts := hSet (Fanout.placed_got hGot)
      lost := hPlaced.taken .here hGot }
  | sending stage x i =>
    have hProduced : Produced g w.values v x := hThis
    cases hEdge : node.edges[i]? with simp only [hEdge] at hStep
    | none =>
      cases hStep
      exact { hPlaced with fanouts := hSet trivial }
    | some edge =>
      cases hRoute : route g edge x.value with simp only [hRoute] at hStep
      | none =>
        cases hStep
        exact { hPlaced with fanouts := hSet hThis }
      | some u =>
        obtain ⟨ch, hCh, rfl⟩ := map_eq_some_iff.mp hStep
        have hCopy := hProduced.send hNode hEdge hRoute
        have hKept := put_mem stage (hPlaced.ins u ch hCh) hCopy
        refine { hPlaced with
          ins := Placed.channel hPlaced.ins hKept
          fanouts := hSet ?_
          lost := hPlaced.refused .whole _ hProduced.lt_length }
        cases (put stage ch { x with hops := x.hops ++ [i] }).1 <;> exact hThis
  | closing i =>
    cases hEdge : node.edges[i]? with simp only [hEdge] at hStep
    | none =>
      cases hStep
      exact { hPlaced with fanouts := hSet trivial }
    | some edge =>
      cases hStep
      refine { hPlaced with ins := fun u ch hGet => ?_, fanouts := hSet trivial }
      obtain ⟨before, hBefore, hItems⟩ := modify_close_cases hGet
      rw [hItems]
      exact hPlaced.ins u before hBefore
  | done => cases hStep

end

theorem isSink_of_find {name : String} (hName : g.sinks[m]? = some name) (hFind : g.find name = some v) :
    isSink g v = true := by
  rw [isSink, List.any_eq_true]
  exact ⟨name, List.mem_of_getElem? hName, by rw [hFind, beq_self_eq_true]⟩

section

variable (hPlaced : Placed g w)
include hPlaced

theorem Placed.merge (hStep : mergeStep g w m = some w') : Placed g w' := by
  obtain ⟨merge, hMerge, hStep⟩ := bind_eq_some_iff.mp hStep
  have hThis := hPlaced.merges merge (List.mem_of_getElem? hMerge)
  have hSet : ∀ {after : Merge α}, after.Placed g w.values →
      ∀ other ∈ w.merges.set m after, other.Placed g w.values := by
    intro after hAfter other hOther
    rcases List.mem_or_eq_of_mem_set hOther with hOld | rfl
    · exact hPlaced.merges other hOld
    · exact hAfter
  cases merge with
  | receiving stage =>
    obtain ⟨name, hName, hStep⟩ := bind_eq_some_iff.mp hStep
    obtain ⟨v, hFind, hStep⟩ := bind_eq_some_iff.mp hStep
    obtain ⟨ch, hCh, rfl⟩ := map_eq_some_iff.mp hStep
    obtain ⟨hLeft, hGot⟩ := receive_mem stage (hPlaced.outs v ch hCh)
    exact { hPlaced with
      outs := Placed.channel hPlaced.outs hLeft
      merges := hSet (Merge.placed_got fun x hx => ⟨v, isSink_of_find hName hFind, hGot x hx⟩)
      lost := hPlaced.taken .beyond hGot }
  | sending stage x =>
    have hFinished : Finished g w.values x := hThis
    cases hStep
    obtain ⟨v, -, hProduced⟩ := id hFinished
    refine { hPlaced with
      output := put_mem stage hPlaced.output hFinished
      merges := hSet ?_
      lost := hPlaced.refused .here _ hProduced.lt_length }
    cases (put stage w.output x).1 with
    | again => exact hThis
    | refused | accepted => trivial
  | done => cases hStep

theorem Placed.pushStep (hStep : pushStep g w k = some w') : Placed g w' := by
  obtain ⟨value, hValue, hStep⟩ := bind_eq_some_iff.mp hStep
  obtain ⟨push, hPush, hStep⟩ := bind_eq_some_iff.mp hStep
  have hLength : ∀ after : Push, (w.pushes.set k after).length = w.values.length := by
    intro after
    rw [List.length_set, hPlaced.pushes]
  cases push with
  | returned | failed => cases hStep
  | sending stage j =>
    cases hName : g.sources[j]? with simp only [hName] at hStep
    | none =>
      cases hStep
      exact { hPlaced with pushes := hLength _ }
    | some name =>
      cases hFind : g.find name with simp only [hFind] at hStep
      | none =>
        cases hStep
        exact { hPlaced with pushes := hLength _ }
      | some v =>
        obtain ⟨ch, hCh, rfl⟩ := map_eq_some_iff.mp hStep
        have hNew : Arrived g w.values v ⟨k, name, [], value⟩ := by
          refine ⟨value, hValue, ?_⟩
          rw [reach, hFind]
          rfl
        have hKept := put_mem stage (hPlaced.ins v ch hCh) hNew
        exact { hPlaced with ins := Placed.channel hPlaced.ins hKept, pushes := hLength _ }

theorem Placed.drainStep (hStep : drainStep g w = some w') : Placed g w' := by
  rw [Graph.drainStep] at hStep
  split at hStep
  case h_1 j _ =>
    split at hStep
    case h_1 =>
      cases hStep
      exact { hPlaced with }
    case h_2 name _ =>
      cases hStep
      refine { hPlaced with ins := fun u ch hGet => ?_ }
      obtain ⟨before, hBefore, hItems⟩ := modify_close_cases hGet
      rw [hItems]
      exact hPlaced.ins u before hBefore
  case h_2 =>
    split at hStep <;>
      · cases hStep
        exact { hPlaced with }
  case h_3 =>
    cases hStep
    exact { hPlaced with output := hPlaced.output }
  case h_4 => cases hStep

theorem Placed.consume (hStep : consumeStep w = some w') : Placed g w' := by
  rw [consumeStep] at hStep
  split at hStep
  case h_2 => cases hStep
  case h_1 stage _ =>
    cases hStep
    obtain ⟨hLeft, hGot⟩ := receive_mem stage hPlaced.output
    refine { hPlaced with output := hLeft, received := fun x hx => ?_ }
    rcases List.mem_append.mp hx with hOld | hNew
    · exact hPlaced.received x hOld
    · exact hGot x hNew

end

theorem Worker.Placed.mono {worker : Worker α} (hPlaced : worker.Placed g values v) (more : List α) :
    worker.Placed g (values ++ more) v := by
  cases worker with
  | running x => exact Arrived.mono hPlaced
  | sending stage x => exact Produced.mono hPlaced
  | _ => trivial

theorem Fanout.Placed.mono {fanout : Fanout α} (hPlaced : fanout.Placed g values v) (more : List α) :
    fanout.Placed g (values ++ more) v := by
  cases fanout with
  | sending stage x i => exact Produced.mono hPlaced
  | _ => trivial

theorem Finished.mono (hFinished : Finished g values x) (more : List α) : Finished g (values ++ more) x := by
  obtain ⟨v, hSink, hProduced⟩ := hFinished
  exact ⟨v, hSink, hProduced.mono⟩

theorem Merge.Placed.mono {merge : Merge α} (hPlaced : merge.Placed g values) (more : List α) :
    merge.Placed g (values ++ more) := by
  cases merge with
  | sending stage x => exact Finished.mono hPlaced more
  | _ => trivial

theorem Placed.push (hPlaced : Placed g w) (value : α) (push : Push) :
    Placed g { w with values := w.values ++ [value], pushes := w.pushes ++ [push] } where
  ins v ch hCh x hx := (hPlaced.ins v ch hCh x hx).mono
  outs v ch hCh x hx := (hPlaced.outs v ch hCh x hx).mono
  workers v crew hCrew worker hWorker := (hPlaced.workers v crew hCrew worker hWorker).mono _
  fanouts v fanout hFanout := (hPlaced.fanouts v fanout hFanout).mono _
  merges merge hMerge := (hPlaced.merges merge hMerge).mono _
  output x hx := (hPlaced.output x hx).mono _
  received x hx := (hPlaced.received x hx).mono _
  lost loss hLoss := by
    rw [List.length_append]
    exact Nat.lt_add_right _ (hPlaced.lost loss hLoss)
  pushes := by rw [List.length_append, List.length_append, hPlaced.pushes]; rfl

/-- Every step keeps the items where their paths lead. -/
theorem Placed.next (hPlaced : Placed g w) {label : Label α} (hNext : next g w label = some w') : Placed g w' := by
  cases label with
  | push value =>
    cases hNext
    exact hPlaced.push value _
  | pushStep k => exact hPlaced.pushStep hNext
  | worker v i => exact hPlaced.worker hNext
  | fanout v => exact hPlaced.fanout hNext
  | merge m => exact hPlaced.merge hNext
  | drain =>
    rw [Graph.next] at hNext
    split_ifs at hNext
    cases hNext
    exact { hPlaced with }
  | drainStep => exact hPlaced.drainStep hNext
  | consume => exact hPlaced.consume hNext

theorem placed_spawned (g : PipelineGraph α) : Placed g (spawned g) := by
  have hEmpty : ∀ {v : Nat} {ch : Channel (Item α)},
      (g.nodes.map fun node => (Channel.new node.chanCap : Channel (Item α)))[v]? = some ch → ch.items = [] := by
    intro v ch hCh
    rw [List.getElem?_map] at hCh
    obtain ⟨node, -, rfl⟩ := map_eq_some_iff.mp hCh
    rfl
  constructor
  case ins =>
    intro v ch hCh x hx
    rw [hEmpty hCh] at hx
    cases hx
  case outs =>
    intro v ch hCh x hx
    rw [hEmpty hCh] at hx
    cases hx
  case workers =>
    intro v crew hCrew worker hWorker
    simp only [spawned, List.getElem?_map] at hCrew
    obtain ⟨node, -, rfl⟩ := map_eq_some_iff.mp hCrew
    rw [List.eq_of_mem_replicate hWorker]
    trivial
  case fanouts =>
    intro v fanout hFanout
    simp only [spawned, List.getElem?_map] at hFanout
    obtain ⟨node, -, rfl⟩ := map_eq_some_iff.mp hFanout
    split_ifs <;> trivial
  case merges =>
    intro merge hMerge
    obtain ⟨name, -, rfl⟩ := List.mem_map.mp hMerge
    split_ifs <;> trivial
  case output => exact nofun
  case received => exact nofun
  case lost => exact nofun
  case pushes => rfl

end Placement

section Accounting

variable {g : PipelineGraph α} {w w' : World α} {tag : Tag} {v i m k : Nat}

theorem pushStep_fields (tag : Tag) (hStep : pushStep g w k = some w') :
    w'.values = w.values ∧ (w.pushes[tag.push]? = some .failed → w'.pushes[tag.push]? = some .failed) := by
  obtain ⟨value, -, hStep⟩ := bind_eq_some_iff.mp hStep
  obtain ⟨push, hPush, hStep⟩ := bind_eq_some_iff.mp hStep
  have hKept : ∀ {after : Push} {stage j}, push = .sending stage j → w.pushes[tag.push]? = some .failed →
      (w.pushes.set k after)[tag.push]? = some .failed := by
    rintro after stage j rfl hFailed
    have hNe : k ≠ tag.push := by
      rintro rfl
      exact nomatch hPush.symm.trans hFailed
    rw [List.getElem?_set_ne hNe]
    exact hFailed
  cases push
  case returned => cases hStep
  case failed => cases hStep
  case sending stage j =>
    simp only at hStep
    split at hStep
    case h_1 =>
      cases hStep
      exact ⟨rfl, hKept rfl⟩
    case h_2 =>
      split at hStep
      case h_1 =>
        cases hStep
        exact ⟨rfl, hKept rfl⟩
      case h_2 =>
        obtain ⟨_, -, rfl⟩ := map_eq_some_iff.mp hStep
        exact ⟨rfl, hKept rfl⟩

def Conserved (g : PipelineGraph α) (w : World α) : Prop :=
  ∀ tag y, result g w.values tag = some y → w.pushes[tag.push]? ≠ some .failed → w.total g tag = 1

theorem weight_other {x : Item α} {extent : Extent} (hOther : x.push ≠ tag.push) : weight tag extent x = 0 := by
  rw [weight, Item.left, if_neg fun hSame => hOther hSame.1]
  rfl

theorem Placed.unseen (hPlaced : Placed g w) (hNew : w.values.length ≤ tag.push) : w.total g tag = 0 := by
  have hArrived : ∀ {values v} {x : Item α}, values = w.values → Arrived g values v x → weight tag .whole x = 0 := by
    rintro values v x rfl hArrived
    exact weight_other (Nat.ne_of_lt (Nat.lt_of_lt_of_le hArrived.lt_length hNew))
  have hProduced : ∀ {v} {x : Item α} {extent}, Produced g w.values v x → weight tag extent x = 0 := by
    intro v x extent hProduced
    exact weight_other (Nat.ne_of_lt (Nat.lt_of_lt_of_le hProduced.lt_length hNew))
  have hFinished : ∀ {x : Item α}, Finished g w.values x → weight tag .here x = 0 := by
    rintro x ⟨v, -, hDone⟩
    exact hProduced hDone
  have hIns : weigh (queued tag) w.ins = 0 := by
    refine weigh_eq_zero fun ch hCh => weigh_eq_zero fun x hx => ?_
    obtain ⟨v, hv⟩ := List.getElem?_of_mem hCh
    exact hArrived rfl (hPlaced.ins v ch hv x hx)
  have hOuts : weigh (queued tag) w.outs = 0 := by
    refine weigh_eq_zero fun ch hCh => weigh_eq_zero fun x hx => ?_
    obtain ⟨v, hv⟩ := List.getElem?_of_mem hCh
    exact hProduced (hPlaced.outs v ch hv x hx)
  have hWorkers : weigh (weigh (Worker.tokens tag)) w.workers = 0 := by
    refine weigh_eq_zero fun crew hCrew => weigh_eq_zero fun worker hWorker => ?_
    obtain ⟨v, hv⟩ := List.getElem?_of_mem hCrew
    have hThis := hPlaced.workers v crew hv worker hWorker
    cases worker with
    | running x => exact hArrived rfl hThis
    | sending stage x => exact hProduced hThis
    | _ => rfl
  have hFanouts : weigh (Fanout.tokens tag) w.fanouts = 0 := by
    refine weigh_eq_zero fun fanout hFanout => ?_
    obtain ⟨v, hv⟩ := List.getElem?_of_mem hFanout
    have hThis := hPlaced.fanouts v fanout hv
    cases fanout with
    | sending stage x i => exact hProduced hThis
    | _ => rfl
  have hMerges : weigh (Merge.tokens tag) w.merges = 0 := by
    refine weigh_eq_zero fun merge hMerge => ?_
    have hThis := hPlaced.merges merge hMerge
    cases merge with
    | sending stage x => exact hFinished hThis
    | _ => rfl
  have hOutput : weigh (weight tag .here) w.output.items = 0 :=
    weigh_eq_zero fun x hx => hFinished (hPlaced.output x hx)
  have hReceived : weigh (weight tag .here) w.received = 0 :=
    weigh_eq_zero fun x hx => hFinished (hPlaced.received x hx)
  have hLost : weigh (fun loss => weight tag loss.extent loss.item) w.lost = 0 := by
    refine weigh_eq_zero fun loss hLoss => ?_
    exact weight_other (Nat.ne_of_lt (Nat.lt_of_lt_of_le (hPlaced.lost loss hLoss) hNew))
  have hPush : w.pushes[tag.push]? = none := by
    rw [List.getElem?_eq_none_iff, hPlaced.pushes]
    exact hNew
  rw [World.total_eq, hIns, hOuts, hWorkers, hFanouts, hMerges, hOutput, hReceived, hLost, hPush]
  rfl

theorem result_source {values : List α} {y : α} (hResult : result g values tag = some y) : tag.source ∈ g.sources := by
  obtain ⟨value, -, hResult⟩ := bind_eq_some_iff.mp hResult
  obtain ⟨goal, -, hResult⟩ := bind_eq_some_iff.mp hResult
  split_ifs at hResult with hBoth
  exact hBoth.1

theorem Conserved.push (hPlaced : Placed g w) (hConserved : Conserved g w) (value : α) : Conserved g { w with
      values := w.values ++ [value]
      pushes := w.pushes ++ [if g.sources.isEmpty then .failed else .sending .testing 0] } := by
  intro tag y hResult hFine
  have hSource := result_source hResult
  rcases Nat.lt_trichotomy tag.push w.values.length with hOld | hNew | hBeyond
  · have hValues : (w.values ++ [value])[tag.push]? = w.values[tag.push]? := List.getElem?_append_left hOld
    have hPushes : ∀ more : List Push, (w.pushes ++ more)[tag.push]? = w.pushes[tag.push]? :=
      fun more => List.getElem?_append_left (by rw [hPlaced.pushes]; exact hOld)
    rw [result, hValues] at hResult
    simp only [hPushes] at hFine
    have hBefore := hConserved tag y hResult hFine
    simp only [World.total_eq, hPushes] at hBefore ⊢
    exact hBefore
  · have hBefore := hPlaced.unseen (Nat.le_of_eq hNew.symm)
    have hNotEmpty : g.sources.isEmpty = false := by
      rw [List.isEmpty_eq_false_iff]
      exact List.ne_nil_of_mem hSource
    have hPushes : (w.pushes ++ [if g.sources.isEmpty then Push.failed else .sending .testing 0])[tag.push]? =
        some (.sending .testing 0) := by
      rw [hNew, ← hPlaced.pushes, List.getElem?_concat_length, hNotEmpty]
      rfl
    have hTokens : (Push.sending .testing 0).tokens g tag = 1 := by
      rw [Push.tokens, List.drop_zero, List.contains_iff_mem.mpr hSource]
      rfl
    have hNone : w.pushes[tag.push]? = none := by
      rw [List.getElem?_eq_none_iff, hPlaced.pushes, hNew]
    simp only [World.total_eq, hPushes, hNone, Option.elim_none, Option.elim_some, hTokens] at hBefore ⊢
    omega
  · have hNone : (w.values ++ [value])[tag.push]? = none := by
      rw [List.getElem?_eq_none_iff, List.length_append, List.length_singleton]
      omega
    rw [result, hNone] at hResult
    cases hResult

theorem Conserved.quiet (hConserved : Conserved g w) (hQuiet : Quiet g w w') : Conserved g w' := by
  intro tag y hResult hFine
  rw [hQuiet.values] at hResult
  rw [hQuiet.pushes] at hFine
  rw [hQuiet.total tag y hResult]
  exact hConserved tag y hResult hFine

/-- Every step keeps one token for each path. -/
theorem Conserved.next (hPlaced : Placed g w) (hConserved : Conserved g w) {label : Label α}
    (hNext : next g w label = some w') : Conserved g w' := by
  cases label with
  | push value =>
    cases hNext
    exact hConserved.push hPlaced value
  | pushStep k =>
    intro tag y hResult hFine
    obtain ⟨hValues, hFailed⟩ := pushStep_fields tag hNext
    rw [hValues] at hResult
    rw [pushStep_total hResult hNext hFine]
    exact hConserved tag y hResult fun hBefore => hFine (hFailed hBefore)
  | worker v i => exact hConserved.quiet (workerStep_quiet hNext)
  | fanout v => exact hConserved.quiet (fanoutStep_quiet (fun stage x i hFanout => hPlaced.fanouts v _ hFanout) hNext)
  | merge m => exact hConserved.quiet (mergeStep_quiet hNext)
  | drain =>
    rw [Graph.next] at hNext
    split_ifs at hNext
    cases hNext
    exact hConserved.quiet ⟨rfl, rfl, fun _ _ _ => rfl⟩
  | drainStep => exact hConserved.quiet (drainStep_quiet hNext)
  | consume => exact hConserved.quiet (consumeStep_quiet hNext)

theorem conserved_run {labels : List (Label α)} (hRun : LabelledRuns.run (next g) labels (spawned g) = some w) :
    Placed g w ∧ Conserved g w := by
  refine LabelledRuns.run_invariant (P := fun w => Placed g w ∧ Conserved g w)
    (fun a label b hBoth hNext => ⟨hBoth.1.next hNext, hBoth.2.next hBoth.1 hNext⟩)
    ⟨placed_spawned g, fun tag y hResult => ?_⟩ hRun
  cases hResult

end Accounting

section Delivery

variable {g : PipelineGraph α} {w : World α}

/-- For every push that succeeded and every path to a sink whose predicates hold, the output gave
one item, with the value computed along the path. -/
def Delivered (g : PipelineGraph α) (w : World α) : Prop :=
  ∀ tag y, result g w.values tag = some y → w.pushes[tag.push]? = some .returned →
    ∃ x, (w.received.filter fun x => x.tag = tag) = [x] ∧ x.value = y

theorem arrived_eq (tag : Tag) : w.arrived tag = (w.received.filter fun x => x.tag = tag).length :=
  weigh_filter (weight_here tag) w.received

theorem Finished.value {values : List α} {x : Item α} {y : α} (hFinished : Finished g values x)
    (hResult : result g values x.tag = some y) : x.value = y := by
  obtain ⟨v, -, value, node, z, hValue, hReach, hNode, hFn⟩ := hFinished
  have hTag : values[x.tag.push]? = some value := hValue
  rw [result, hTag, Option.bind_some] at hResult
  obtain ⟨goal, hGoal, hResult⟩ := bind_eq_some_iff.mp hResult
  cases hReach.symm.trans hGoal
  split_ifs at hResult
  rw [hNode] at hResult
  rw [hFn]
  exact Option.some.inj hResult

theorem delivered_iff_ledger {labels : List (Label α)} (hRun : LabelledRuns.run (next g) labels (spawned g) = some w) :
    Delivered g w ↔ ∀ tag y, result g w.values tag = some y → w.pushes[tag.push]? = some .returned →
      w.missing tag = 0 ∧ w.inside g tag = 0 := by
  obtain ⟨hPlaced, hConserved⟩ := conserved_run hRun
  have hTotal : ∀ tag y, result g w.values tag = some y → w.pushes[tag.push]? = some .returned →
      w.inside g tag + w.missing tag + (w.received.filter fun x => x.tag = tag).length = 1 := by
    intro tag y hResult hReturned
    rw [← arrived_eq]
    refine hConserved tag y hResult ?_
    rw [hReturned]
    exact fun hFailed => (nomatch hFailed)
  constructor
  · intro hDelivered tag y hResult hReturned
    obtain ⟨x, hOne, -⟩ := hDelivered tag y hResult hReturned
    have hSum := hTotal tag y hResult hReturned
    rw [hOne, List.length_singleton] at hSum
    omega
  · intro hNone tag y hResult hReturned
    have hSum := hTotal tag y hResult hReturned
    obtain ⟨hMissing, hInside⟩ := hNone tag y hResult hReturned
    rw [hMissing, hInside, Nat.zero_add, List.length_eq_one_iff] at hSum
    obtain ⟨x, hOne⟩ := hSum
    have hMem : x ∈ w.received.filter fun x => x.tag = tag := by
      rw [hOne]
      exact List.mem_cons_self
    obtain ⟨hReceived, hTag⟩ := List.mem_filter.mp hMem
    obtain rfl := of_decide_eq_true hTag
    exact ⟨x, hOne, (hPlaced.received x hReceived).value hResult⟩

/-- Nothing is sent into a closed channel, the fan-out takes nothing from a sink and the merge
nothing from a node with successors. -/
def careful (g : PipelineGraph α) (w : World α) : Label α → Bool
  | .worker v i => match (w.workers[v]?).bind fun crew => crew[i]? with
    | some (.sending _ _) => (w.outs[v]?).all fun ch => !ch.closed
    | _ => true
  | .fanout v => match w.fanouts[v]? with
    | some (.receiving _) => !isSink g v
    | some (.sending _ x i) => ((g.nodes[v]?).bind fun node => (node.edges[i]?).bind fun edge =>
        (route g edge x.value).bind fun u => w.ins[u]?).all fun ch => !ch.closed
    | _ => true
  | .merge m => match w.merges[m]? with
    | some (.receiving _) => (((g.sinks[m]?).bind g.find).bind fun v => g.nodes[v]?).all fun node => node.edges.isEmpty
    | some (.sending _ _) => !w.output.closed
    | _ => true
  | _ => true

def Harmless (g : PipelineGraph α) (values : List α) (loss : Loss α) : Prop :=
  ∀ more tag y, result g (values ++ more) tag = some y → weight tag loss.extent loss.item = 0

theorem refused_open {ch : Channel (Item α)} (hOpen : ch.closed = false) (stage : Sending) (x : Item α)
    (extent : Extent) : Loss.refused x extent (put stage ch x).1 = [] := by
  cases hPut : (put stage ch x).1 with
  | refused => exact absurd hPut (put_open hOpen stage x)
  | accepted | again => rfl

theorem harmless_here {values : List α} {v : Nat} {x : Item α} (hProduced : Produced g values v x)
    (hNot : isSink g v = false) : Harmless g values ⟨x, .here⟩ := by
  intro more tag y hResult
  obtain ⟨value, node, z, hValue, hReach, -⟩ : Produced g (values ++ more) v x := hProduced.mono
  rw [weight_here, Bool.toNat_eq_zero, decide_eq_false_iff_not]
  rintro rfl
  have hTag : (values ++ more)[x.tag.push]? = some value := hValue
  have hGoal : reach g x.tag.source value x.tag.hops = some (v, z) := hReach
  rw [result, hTag, Option.bind_some, hGoal, Option.bind_some, if_neg (by simp [hNot])] at hResult
  cases hResult

theorem harmless_beyond {values : List α} {v : Nat} {x : Item α} {node : Node α} (hProduced : Produced g values v x)
    (hNode : g.nodes[v]? = some node) (hEdges : node.edges = []) : Harmless g values ⟨x, .beyond⟩ := by
  intro more tag y hResult
  rw [weight_beyond]
  refine weight_none fun j rest _ hLeft => ?_
  obtain ⟨edge, u, hEdge, -⟩ := hProduced.mono.route hNode hResult hLeft
  simp [hEdges] at hEdge

theorem harmless_append {values : List α} {lost more : List (Loss α)} (hAll : ∀ loss ∈ lost, Harmless g values loss)
    (hMore : ∀ loss ∈ more, Harmless g values loss) : ∀ loss ∈ lost ++ more, Harmless g values loss := by
  intro loss hLoss
  rcases List.mem_append.mp hLoss with hOld | hNew
  · exact hAll loss hOld
  · exact hMore loss hNew

section Careful

variable {w' : World α} {v i m : Nat} (hAll : ∀ loss ∈ w.lost, Harmless g w.values loss)

include hAll

theorem harmless_worker (hCareful : careful g w (.worker v i) = true) (hNext : next g w (.worker v i) = some w') :
    ∀ loss ∈ w'.lost, Harmless g w'.values loss := by
  obtain ⟨crew, hCrew, hStep⟩ := bind_eq_some_iff.mp hNext
  obtain ⟨worker, hWorker, hStep⟩ := bind_eq_some_iff.mp hStep
  cases worker with
  | sending stage x =>
    obtain ⟨ch, hCh, rfl⟩ := map_eq_some_iff.mp hStep
    have hOpen : ch.closed = false := by simpa [careful, hCrew, hWorker, hCh] using hCareful
    simpa [refused_open hOpen] using hAll
  | receiving | running | leaving | closing =>
    obtain ⟨_, -, rfl⟩ := map_eq_some_iff.mp hStep
    exact hAll
  | done => cases hStep

variable (hPlaced : Placed g w)

include hPlaced

theorem harmless_fanout (hCareful : careful g w (.fanout v) = true) (hNext : next g w (.fanout v) = some w') :
    ∀ loss ∈ w'.lost, Harmless g w'.values loss := by
  obtain ⟨node, hNode, hStep⟩ := bind_eq_some_iff.mp hNext
  obtain ⟨fanout, hFanout, hStep⟩ := bind_eq_some_iff.mp hStep
  cases fanout with
  | receiving stage =>
    obtain ⟨ch, hCh, rfl⟩ := map_eq_some_iff.mp hStep
    refine harmless_append hAll fun loss hLoss => ?_
    obtain ⟨x, hx, rfl⟩ := List.mem_map.mp hLoss
    have hNot : isSink g v = false := by simpa [careful, hFanout] using hCareful
    exact harmless_here ((receive_mem stage (hPlaced.outs v ch hCh)).2 x hx) hNot
  | sending stage x i =>
    cases hEdge : node.edges[i]? with simp only [hEdge] at hStep
    | none =>
      cases hStep
      exact hAll
    | some edge =>
      cases hRoute : route g edge x.value with simp only [hRoute] at hStep
      | none =>
        cases hStep
        exact hAll
      | some u =>
        obtain ⟨ch, hCh, rfl⟩ := map_eq_some_iff.mp hStep
        have hOpen : ch.closed = false := by simpa [careful, hFanout, hNode, hEdge, hRoute, hCh] using hCareful
        simpa [refused_open hOpen] using hAll
  | closing i =>
    cases hEdge : node.edges[i]? with simp only [hEdge] at hStep
    | none | some =>
      cases hStep
      exact hAll
  | done => cases hStep

theorem harmless_merge (hCareful : careful g w (.merge m) = true) (hNext : next g w (.merge m) = some w') :
    ∀ loss ∈ w'.lost, Harmless g w'.values loss := by
  obtain ⟨merge, hMerge, hStep⟩ := bind_eq_some_iff.mp hNext
  cases merge with
  | receiving stage =>
    obtain ⟨name, hName, hStep⟩ := bind_eq_some_iff.mp hStep
    obtain ⟨v, hFind, hStep⟩ := bind_eq_some_iff.mp hStep
    obtain ⟨ch, hCh, rfl⟩ := map_eq_some_iff.mp hStep
    refine harmless_append hAll fun loss hLoss => ?_
    obtain ⟨x, hx, rfl⟩ := List.mem_map.mp hLoss
    have hProduced := (receive_mem stage (hPlaced.outs v ch hCh)).2 x hx
    obtain ⟨value, node, z, -, -, hNode, -⟩ := id hProduced
    have hEdges : node.edges = [] := by simpa [careful, hMerge, hName, hFind, hNode] using hCareful
    exact harmless_beyond hProduced hNode hEdges
  | sending stage x =>
    cases hStep
    have hOpen : w.output.closed = false := by simpa [careful, hMerge] using hCareful
    simpa [refused_open hOpen] using hAll
  | done => cases hStep

/-- A careful step of a coroutine of the graph adds no harmful loss. -/
theorem harmless_next {label : Label α} (hCareful : careful g w label = true) (hNext : next g w label = some w') :
    ∀ loss ∈ w'.lost, Harmless g w'.values loss := by
  cases label with
  | push value =>
    cases hNext
    intro loss hLoss more tag y hResult
    exact hAll loss hLoss ([value] ++ more) tag y (by rwa [← List.append_assoc])
  | pushStep k =>
    have hSame : w'.lost = w.lost ∧ w'.values = w.values := by
      simp only [next, pushStep, bind_eq_some_iff] at hNext
      grind
    rwa [hSame.1, hSame.2]
  | worker v i => exact harmless_worker hAll hCareful hNext
  | fanout v => exact harmless_fanout hAll hPlaced hCareful hNext
  | merge m => exact harmless_merge hAll hPlaced hCareful hNext
  | drain | drainStep | consume =>
    have hSame : w'.lost = w.lost ∧ w'.values = w.values := by
      simp only [next, drainStep, consumeStep] at hNext
      grind
    rwa [hSame.1, hSame.2]

end Careful

theorem missing_of_careful {labels : List (Label α)}
    (hMeets : LabelledRuns.Meets (next g) (fun w label => careful g w label = true) labels (spawned g))
    (hRun : LabelledRuns.run (next g) labels (spawned g) = some w) {tag : Tag} {y : α}
    (hResult : result g w.values tag = some y) : w.missing tag = 0 := by
  have hBoth : Placed g w ∧ ∀ loss ∈ w.lost, Harmless g w.values loss := by
    refine LabelledRuns.run_invariant_of (P := fun w => Placed g w ∧ ∀ loss ∈ w.lost, Harmless g w.values loss)
      (fun a label b hBoth hCareful hNext => ⟨hBoth.1.next hNext, harmless_next hBoth.2 hBoth.1 hCareful hNext⟩)
      ⟨placed_spawned g, fun loss hLoss => ?_⟩ hMeets hRun
    cases hLoss
  refine weigh_eq_zero fun loss hLoss => hBoth.2 loss hLoss [] tag y ?_
  rwa [List.append_nil]

/-- The output has given all that it has to exactly if no path that is to be delivered was lost or is still inside.
In a run of careful steps none is lost. -/
theorem paths_delivered_iff {labels : List (Label α)} (hRun : LabelledRuns.run (next g) labels (spawned g) = some w) :
    (Delivered g w ↔ ∀ tag y, result g w.values tag = some y → w.pushes[tag.push]? = some .returned →
      w.missing tag = 0 ∧ w.inside g tag = 0) ∧
    (LabelledRuns.Meets (next g) (fun w label => careful g w label = true) labels (spawned g) →
      (Delivered g w ↔ ∀ tag y, result g w.values tag = some y → w.pushes[tag.push]? = some .returned →
        w.inside g tag = 0)) := by
  have hLedger : Delivered g w ↔ ∀ tag y, result g w.values tag = some y → w.pushes[tag.push]? = some .returned →
      w.missing tag = 0 ∧ w.inside g tag = 0 := delivered_iff_ledger hRun
  refine ⟨hLedger, fun hMeets => ?_⟩
  rw [hLedger]
  refine forall₄_congr fun tag y hResult _ => ?_
  rw [missing_of_careful hMeets hRun hResult, eq_self_iff_true, true_and]

/-- The output never invents or repeats an item: each has the value of a path of its push to a sink,
and no path of a push that did not fail comes out twice. -/
theorem output_safe (g : PipelineGraph α) (labels : List (Label α)) : LabelledRuns.Always (next g) (fun w =>
    (∀ x ∈ w.received, Finished g w.values x) ∧ ∀ tag y, result g w.values tag = some y →
      w.pushes[tag.push]? ≠ some .failed → (w.received.filter fun x => x.tag = tag).length ≤ 1) labels (spawned g) := by
  refine LabelledRuns.always_of_run (fun labels w hRun => ?_) labels
  obtain ⟨hPlaced, hConserved⟩ := conserved_run hRun
  refine ⟨hPlaced.received, fun tag y hResult hPush => ?_⟩
  have hTotal := hConserved tag y hResult hPush
  rw [World.total, arrived_eq] at hTotal
  omega

def split : PipelineGraph Nat where
  nodes := [⟨"read", fun n => n + 1, 1, 2, [⟨"even", some fun n => n % 2 = 0⟩, ⟨"all", none⟩]⟩,
    ⟨"even", fun n => n / 2, 1, 2, []⟩, ⟨"all", fun n => n * 10, 1, 2, []⟩]
  sources := ["read"]
  sinks := ["even", "all"]
  outputCap := 2
  sources_nodup := List.pairwise_singleton _ _

def splitRun : List (Label Nat) :=
  [[.push 5], replicate 3 (.pushStep 0), replicate 4 (.worker 0 0), replicate 6 (.fanout 0),
    replicate 4 (.worker 1 0), replicate 4 (.worker 2 0), replicate 3 (.merge 0), replicate 3 (.merge 1),
    [.consume, .consume, .drain, .drainStep, .drainStep], replicate 4 (.worker 0 0), replicate 5 (.fanout 0),
    replicate 4 (.worker 1 0), replicate 4 (.worker 2 0), replicate 5 .drainStep, [.consume, .consume]].flatten

theorem delivered_in_time : ∃ w, LabelledRuns.run (next split) splitRun (spawned split) = some w ∧
    w.drain = .returned ∧ w.consumer = .ended ∧ w.received.map (fun x => x.value) = [3, 60] ∧ Delivered split w := by
  obtain ⟨w, hRun, hPushes, hInside, hEnd⟩ : ∃ w, LabelledRuns.run (next split) splitRun (spawned split) = some w ∧
      w.pushes = [.returned] ∧ (∀ source hops, w.inside split ⟨0, source, hops⟩ = 0) ∧ w.drain = .returned ∧
        w.consumer = .ended ∧ w.received.map (fun x => x.value) = [3, 60] :=
    ⟨_, rfl, rfl, fun _ _ => rfl, rfl, rfl, rfl⟩
  have hCareful : LabelledRuns.Meets (next split) (fun w label => careful split w label = true) splitRun
      (spawned split) := by decide +kernel
  refine ⟨w, hRun, hEnd.1, hEnd.2.1, hEnd.2.2, ((paths_delivered_iff hRun).2 hCareful).mpr ?_⟩
  rintro ⟨push, source, hops⟩ y - hReturned
  cases push with
  | zero => exact hInside source hops
  | succ push => simp [hPushes] at hReturned

def lone : PipelineGraph Nat where
  nodes := [⟨"inc", fun n => n + 1, 1, 2, []⟩]
  sources := ["inc"]
  sinks := ["inc"]
  outputCap := 2
  sources_nodup := List.pairwise_singleton _ _

def processed : List (Label Nat) :=
  [.push 5, .pushStep 0, .pushStep 0, .pushStep 0, .worker 0 0, .worker 0 0, .worker 0 0, .worker 0 0]

def drained : List (Label Nat) :=
  [.drain, .drainStep, .drainStep, .worker 0 0, .worker 0 0, .worker 0 0, .worker 0 0, .drainStep,
    .drainStep, .drainStep]

/-- The graph is drained before the merge has moved the item, and the output ends without it. -/
theorem delivered_too_late : lone.validate = true ∧ start lone = some (spawned lone) ∧
    ∃ w, LabelledRuns.run (next lone) (processed ++ drained ++ [.consume, .consume, .merge 0, .merge 0])
      (spawned lone) =
      some w ∧ w.drain = .returned ∧ w.consumer = .ended ∧ w.received = [] ∧ ¬Delivered lone w := by
  refine ⟨by decide, rfl, _, rfl, rfl, rfl, rfl, fun hDelivered => ?_⟩
  obtain ⟨x, hOne, -⟩ := hDelivered ⟨0, "inc", []⟩ 6 rfl rfl
  cases hOne

end Delivery

end Graph

end Pipeline
