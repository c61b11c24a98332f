import QbuemStack.Pipeline.PipelineGraph

/-! What becomes of the paths through the graph. For each path whose predicates hold there is one
token: at the item that has come furthest along the path, or lost with it, or received. Every step
keeps the number of tokens. -/
namespace Pipeline

open Option (bind_eq_some_iff bind_some map_eq_some_iff)

namespace Graph

open Weights

variable {α : Type}

section Paths

structure Tag where
  push : Nat
  source : String
  hops : List Nat
deriving DecidableEq

def Item.tag (x : Item α) : Tag := ⟨x.push, x.source, x.hops⟩

def after : List Nat → List Nat → Option (List Nat)
  | [], path => some path
  | _ :: _, [] => none
  | i :: hops, j :: path => if i = j then after hops path else none

theorem after_eq_some {hops path rest : List Nat} : after hops path = some rest ↔ path = hops ++ rest := by
  induction hops generalizing path with
  | nil => rw [after, Option.some.injEq, List.nil_append]
  | cons i hops ih =>
    cases path with
    | nil => simp [after]
    | cons j path =>
      rw [after, List.cons_append, List.cons.injEq]
      split_ifs with hSame
      · rw [ih, hSame, eq_self, true_and]
      · exact ⟨fun hNone => (nomatch hNone), fun hBoth => absurd hBoth.1.symm hSame⟩

def Item.left (tag : Tag) (x : Item α) : Option (List Nat) :=
  if x.push = tag.push ∧ x.source = tag.source then after x.hops tag.hops else none

theorem left_eq_some {tag : Tag} {x : Item α} {rest : List Nat} :
    x.left tag = some rest ↔ x.push = tag.push ∧ x.source = tag.source ∧ tag.hops = x.hops ++ rest := by
  rw [Item.left]
  split_ifs with hSame
  · rw [after_eq_some]
    exact ⟨fun hHops => ⟨hSame.1, hSame.2, hHops⟩, fun hAll => hAll.2.2⟩
  · exact ⟨fun hNone => (nomatch hNone), fun hAll => absurd ⟨hAll.1, hAll.2.1⟩ hSame⟩

theorem left_copy {tag : Tag} {x : Item α} {i : Nat} {rest : List Nat} :
    ({ x with hops := x.hops ++ [i] } : Item α).left tag = some rest ↔ x.left tag = some (i :: rest) := by
  rw [left_eq_some, left_eq_some]
  simp only [List.append_assoc, List.singleton_append]

def Extent.covers : Extent → Option (List Nat) → Bool
  | _, none => false
  | .whole, some _ => true
  | .here, some rest => rest.isEmpty
  | .beyond, some rest => !rest.isEmpty
  | .fromEdge i, some rest => rest.head?.any fun j => i ≤ j

def weight (tag : Tag) (extent : Extent) (x : Item α) : Nat := (extent.covers (x.left tag)).toNat

variable {tag : Tag} {x : Item α}

theorem weight_split (tag : Tag) (x : Item α) : weight tag .whole x = weight tag .here x + weight tag .beyond x := by
  rw [weight, weight, weight]
  rcases x.left tag with _ | _ | ⟨j, rest⟩ <;> rfl

theorem weight_beyond (tag : Tag) (x : Item α) : weight tag .beyond x = weight tag (.fromEdge 0) x := by
  rw [weight, weight]
  rcases x.left tag with _ | _ | ⟨j, rest⟩ <;> rfl

theorem weight_skip {i : Nat} (hNot : ∀ rest, x.left tag ≠ some (i :: rest)) :
    weight tag (.fromEdge i) x = weight tag (.fromEdge (i + 1)) x := by
  rw [weight, weight]
  rcases hLeft : x.left tag with _ | _ | ⟨j, rest⟩
  · rfl
  · rfl
  · have hNe : j ≠ i := by
      rintro rfl
      exact hNot rest hLeft
    have hSame : decide (i ≤ j) = decide (i + 1 ≤ j) := decide_eq_decide.mpr (by omega)
    simp only [Extent.covers, List.head?_cons, Option.any_some, hSame]

theorem weight_none {i : Nat} (hNot : ∀ j rest, i ≤ j → x.left tag ≠ some (j :: rest)) :
    weight tag (.fromEdge i) x = 0 := by
  rw [weight]
  rcases hLeft : x.left tag with _ | _ | ⟨j, rest⟩
  · rfl
  · rfl
  · have hLt : ¬i ≤ j := fun hLe => hNot j rest hLe hLeft
    simp [Extent.covers, hLt]

theorem weight_route (tag : Tag) (x : Item α) (i : Nat) : weight tag (.fromEdge i) x =
    weight tag .whole { x with hops := x.hops ++ [i] } + weight tag (.fromEdge (i + 1)) x := by
  by_cases hThis : ∃ rest, x.left tag = some (i :: rest)
  · obtain ⟨rest, hLeft⟩ := hThis
    rw [weight, weight, weight, left_copy.mpr hLeft, hLeft]
    simp [Extent.covers]
  · have hNone : ({ x with hops := x.hops ++ [i] } : Item α).left tag = none := by
      refine Option.eq_none_iff_forall_ne_some.mpr fun rest hRest => hThis ⟨rest, left_copy.mp hRest⟩
    rw [weight_skip fun rest hLeft => hThis ⟨rest, hLeft⟩, weight, weight, hNone]
    simp [Extent.covers]

theorem weight_here (tag : Tag) (x : Item α) : weight tag .here x = (decide (x.tag = tag)).toNat := by
  rw [weight]
  congr 1
  rw [Bool.eq_iff_iff, decide_eq_true_eq]
  constructor
  · intro hCovers
    rcases hLeft : x.left tag with _ | _ | ⟨j, rest⟩
    · rw [hLeft] at hCovers
      cases hCovers
    · obtain ⟨hPush, hSource, hHops⟩ := left_eq_some.mp hLeft
      rw [List.append_nil] at hHops
      rw [Item.tag, hPush, hSource, ← hHops]
    · rw [hLeft] at hCovers
      cases hCovers
  · rintro rfl
    rw [left_eq_some.mpr ⟨rfl, rfl, (List.append_nil _).symm⟩]
    rfl

end Paths

section Reach

variable (g : PipelineGraph α)

def hop (at_ : Nat × α) (i : Nat) : Option (Nat × α) :=
  (g.nodes[at_.1]?).bind fun node => (node.edges[i]?).bind fun edge =>
    (route g edge (node.fn at_.2)).map fun u => (u, node.fn at_.2)

def reach (source : String) (value : α) (hops : List Nat) : Option (Nat × α) :=
  (g.find source).bind fun v => hops.foldlM (hop g) (v, value)

def isSink (v : Nat) : Bool := g.sinks.any fun name => g.find name == some v

def result (values : List α) (tag : Tag) : Option α :=
  (values[tag.push]?).bind fun value => (reach g tag.source value tag.hops).bind fun at_ =>
    if tag.source ∈ g.sources ∧ isSink g at_.1 then (g.nodes[at_.1]?).map fun node => node.fn at_.2 else none

def Arrived (values : List α) (v : Nat) (x : Item α) : Prop :=
  ∃ value, values[x.push]? = some value ∧ reach g x.source value x.hops = some (v, x.value)

def Produced (values : List α) (v : Nat) (x : Item α) : Prop :=
  ∃ value node z, values[x.push]? = some value ∧ reach g x.source value x.hops = some (v, z) ∧
    g.nodes[v]? = some node ∧ x.value = node.fn z

variable {g}

theorem reach_append {source : String} {value : α} (hops more : List Nat) :
    reach g source value (hops ++ more) = (reach g source value hops).bind fun at_ => more.foldlM (hop g) at_ := by
  rw [reach, reach, Option.bind_assoc]
  refine congrArg _ (funext fun v => ?_)
  rw [List.foldlM_append]
  rfl

theorem reach_concat {source : String} {value : α} (hops : List Nat) (i : Nat) :
    reach g source value (hops ++ [i]) = (reach g source value hops).bind fun at_ => hop g at_ i := by
  rw [reach_append]
  refine congrArg _ (funext fun at_ => ?_)
  rw [List.foldlM_cons]
  cases hop g at_ i <;> rfl

variable {values : List α} {v u i : Nat} {x : Item α} {node : Node α} {edge : Edge α}

theorem Arrived.run (hArrived : Arrived g values v x) (hNode : g.nodes[v]? = some node) :
    Produced g values v { x with value := node.fn x.value } := by
  obtain ⟨value, hValue, hReach⟩ := hArrived
  exact ⟨value, node, x.value, hValue, hReach, hNode, rfl⟩

theorem Produced.send (hProduced : Produced g values v x) (hNode : g.nodes[v]? = some node)
    (hEdge : node.edges[i]? = some edge) (hRoute : route g edge x.value = some u) :
    Arrived g values u { x with hops := x.hops ++ [i] } := by
  obtain ⟨value, same, z, hValue, hReach, hSame, hFn⟩ := hProduced
  cases hNode.symm.trans hSame
  refine ⟨value, hValue, ?_⟩
  rw [reach_concat, hReach, bind_some, hop, hNode, bind_some, hEdge, bind_some, ← hFn, hRoute]
  rfl

theorem Produced.route (hProduced : Produced g values v x) (hNode : g.nodes[v]? = some node) {tag : Tag} {y : α}
    (hResult : result g values tag = some y) {rest : List Nat} (hLeft : x.left tag = some (i :: rest)) :
    ∃ edge u, node.edges[i]? = some edge ∧ route g edge x.value = some u := by
  obtain ⟨value, same, z, hValue, hReach, hSame, hFn⟩ := hProduced
  cases hNode.symm.trans hSame
  obtain ⟨hPush, hSource, hHops⟩ := left_eq_some.mp hLeft
  rw [result, ← hPush, hValue, bind_some, ← hSource, hHops, reach_append, hReach, bind_some] at hResult
  obtain ⟨goal, hGoal, -⟩ := bind_eq_some_iff.mp hResult
  obtain ⟨next, hNext, -⟩ := bind_eq_some_iff.mp hGoal
  rw [hop, hNode, bind_some] at hNext
  obtain ⟨edge, hEdge, hNext⟩ := bind_eq_some_iff.mp hNext
  rw [← hFn] at hNext
  obtain ⟨u, hRoute, -⟩ := map_eq_some_iff.mp hNext
  exact ⟨edge, u, hEdge, hRoute⟩

theorem Arrived.mono {more : List α} (hArrived : Arrived g values v x) : Arrived g (values ++ more) v x := by
  obtain ⟨value, hValue, hReach⟩ := hArrived
  refine ⟨value, ?_, hReach⟩
  rw [List.getElem?_append_left (List.getElem?_eq_some_iff.mp hValue).1]
  exact hValue

theorem Produced.mono {more : List α} (hProduced : Produced g values v x) : Produced g (values ++ more) v x := by
  obtain ⟨value, node, z, hValue, hRest⟩ := hProduced
  refine ⟨value, node, z, ?_, hRest⟩
  rw [List.getElem?_append_left (List.getElem?_eq_some_iff.mp hValue).1]
  exact hValue

end Reach

section Tokens

variable (g : PipelineGraph α) (w : World α) (tag : Tag)

def Worker.tokens : Worker α → Nat
  | .running x | .sending _ x => weight tag .whole x
  | _ => 0

def Fanout.tokens : Fanout α → Nat
  | .sending _ x i => weight tag (.fromEdge i) x
  | _ => 0

def Merge.tokens : Merge α → Nat
  | .sending _ x => weight tag .here x
  | _ => 0

def Push.tokens : Push → Nat
  | .sending _ j => ((g.sources.drop j).contains tag.source).toNat
  | _ => 0

def queued (ch : Channel (Item α)) : Nat := weigh (weight tag .whole) ch.items

def World.inside : Nat :=
  weigh (queued tag) w.ins + weigh (queued tag) w.outs + weigh (weigh (Worker.tokens tag)) w.workers +
    weigh (Fanout.tokens tag) w.fanouts + weigh (Merge.tokens tag) w.merges + weigh (weight tag .here) w.output.items +
    (w.pushes[tag.push]?).elim 0 (Push.tokens g tag)

def World.missing : Nat := weigh (fun loss => weight tag loss.extent loss.item) w.lost

def World.arrived : Nat := weigh (weight tag .here) w.received

def World.total : Nat := w.inside g tag + w.missing tag + w.arrived tag

end Tokens

section Conservation

variable {g : PipelineGraph α} {w w' : World α} {tag : Tag} {v i m k : Nat}

def tokens (tag : Tag) (extent : Extent) (got : Got (Item α)) : Nat := weigh (weight tag extent) got.toList

theorem queued_receive (tag : Tag) (stage : Receiving) (ch : Channel (Item α)) :
    queued tag (receive stage ch).2 + tokens tag .whole (receive stage ch).1 = queued tag ch :=
  weigh_receive (weight tag .whole) stage ch

theorem queued_put (tag : Tag) (stage : Sending) (ch : Channel (Item α)) (x : Item α) :
    queued tag (put stage ch x).2 + (put stage ch x).1.kept (weight tag .whole x) +
      (put stage ch x).1.dropped (weight tag .whole x) = queued tag ch + weight tag .whole x :=
  weigh_put (weight tag .whole) stage ch x

theorem weigh_taken (tag : Tag) (extent : Extent) (got : Got (Item α)) :
    weigh (fun loss => weight tag loss.extent loss.item) (Loss.taken extent got) = tokens tag extent got := by
  cases got <;> rfl

theorem weigh_refused (tag : Tag) (x : Item α) (extent : Extent) (put : Put) :
    weigh (fun loss => weight tag loss.extent loss.item) (Loss.refused x extent put) =
      put.dropped (weight tag extent x) := by
  cases put <;> rfl

theorem World.total_eq : w.total g tag =
    weigh (queued tag) w.ins + weigh (queued tag) w.outs + weigh (weigh (Worker.tokens tag)) w.workers +
      weigh (Fanout.tokens tag) w.fanouts + weigh (Merge.tokens tag) w.merges +
      weigh (weight tag .here) w.output.items +
      (w.pushes[tag.push]?).elim 0 (Push.tokens g tag) + weigh (fun loss => weight tag loss.extent loss.item) w.lost +
      weigh (weight tag .here) w.received :=
  rfl

structure Quiet (g : PipelineGraph α) (w w' : World α) : Prop where
  values : w'.values = w.values
  pushes : w'.pushes = w.pushes
  total : ∀ tag y, result g w.values tag = some y → w'.total g tag = w.total g tag

theorem workerStep_quiet (hStep : workerStep g w v i = some w') : Quiet g w w' := by
  obtain ⟨crew, hCrew, hStep⟩ := bind_eq_some_iff.mp hStep
  obtain ⟨worker, hWorker, hStep⟩ := bind_eq_some_iff.mp hStep
  have hMoved : ∀ tag, ∀ after : Worker α, weigh (weigh (Worker.tokens tag)) (w.workers.set v (crew.set i after)) +
      worker.tokens tag = weigh (weigh (Worker.tokens tag)) w.workers + after.tokens tag := by
    intro tag after
    have hOuter := weigh_set (f := weigh (Worker.tokens tag)) hCrew (crew.set i after)
    have hInner := weigh_set (f := Worker.tokens tag) hWorker after
    omega
  cases worker with
  | receiving stage =>
    obtain ⟨ch, hCh, rfl⟩ := map_eq_some_iff.mp hStep
    refine ⟨rfl, rfl, fun tag y _ => ?_⟩
    have hIns := weigh_set (f := queued tag) hCh (receive stage ch).2
    have hQueue := queued_receive tag stage ch
    have hGot : Worker.tokens tag (.got (receive stage ch).1) = tokens tag .whole (receive stage ch).1 := by
      cases (receive stage ch).1 <;> rfl
    have hThis := hMoved tag (.got (receive stage ch).1)
    simp only [World.total_eq, Worker.tokens] at hThis hGot ⊢
    omega
  | running x =>
    obtain ⟨node, -, rfl⟩ := map_eq_some_iff.mp hStep
    refine ⟨rfl, rfl, fun tag y _ => ?_⟩
    have hThis := hMoved tag (.sending .testing { x with value := node.fn x.value })
    have hSame : weight tag .whole { x with value := node.fn x.value } = weight tag .whole x := rfl
    simp only [World.total_eq, Worker.tokens, hSame] at hThis ⊢
    omega
  | sending stage x =>
    obtain ⟨ch, hCh, rfl⟩ := map_eq_some_iff.mp hStep
    refine ⟨rfl, rfl, fun tag y _ => ?_⟩
    have hOuts := weigh_set (f := queued tag) hCh (put stage ch x).2
    have hQueue := queued_put tag stage ch x
    have hPut : Worker.tokens tag (.put x (put stage ch x).1) = (put stage ch x).1.kept (weight tag .whole x) := by
      cases (put stage ch x).1 <;> rfl
    have hThis := hMoved tag (.put x (put stage ch x).1)
    simp only [World.total_eq, Worker.tokens, weigh_append, weigh_refused] at hThis hPut ⊢
    omega
  | leaving =>
    obtain ⟨live, -, rfl⟩ := map_eq_some_iff.mp hStep
    refine ⟨rfl, rfl, fun tag y _ => ?_⟩
    have hThis := hMoved tag (if live - 1 = 0 then .closing else .done)
    have hZero : Worker.tokens tag (if live - 1 = 0 then (.closing : Worker α) else .done) = 0 := by
      split_ifs <;> rfl
    rw [hZero] at hThis
    simp only [World.total_eq, Worker.tokens] at hThis ⊢
    omega
  | closing =>
    obtain ⟨ch, hCh, rfl⟩ := map_eq_some_iff.mp hStep
    refine ⟨rfl, rfl, fun tag y _ => ?_⟩
    have hOuts := weigh_set (f := queued tag) hCh ch.close.state
    have hClose : queued tag ch.close.state = queued tag ch := rfl
    have hThis := hMoved tag .done
    simp only [World.total_eq, Worker.tokens] at hThis ⊢
    omega
  | done => cases hStep

theorem weigh_close (tag : Tag) (channels : List (Channel (Item α))) (target : Option Nat) :
    weigh (queued tag) (target.elim channels fun u => channels.modify u fun ch => ch.close.state) =
      weigh (queued tag) channels := by
  cases target with
  | none => rfl
  | some u =>
    exact weigh_modify channels u fun _ => rfl

/-- The fan-out takes the tokens of the paths that go on, and gives each to the copy on its edge. A
path that it does not route has no token. -/
theorem fanoutStep_quiet (hPlaced : ∀ stage x i, w.fanouts[v]? = some (.sending stage x i) → Produced g w.values v x)
    (hStep : fanoutStep g w v = some w') : Quiet g w w' := by
  obtain ⟨node, hNode, hStep⟩ := bind_eq_some_iff.mp hStep
  obtain ⟨fanout, hFanout, hStep⟩ := bind_eq_some_iff.mp hStep
  have hMoved := fun tag after => weigh_set (f := Fanout.tokens tag) hFanout after
  cases fanout with
  | receiving stage =>
    obtain ⟨ch, hCh, rfl⟩ := map_eq_some_iff.mp hStep
    refine ⟨rfl, rfl, fun tag y hResult => ?_⟩
    simp only [World.total_eq]
    have hOuts := weigh_set (f := queued tag) hCh (receive stage ch).2
    have hQueue := queued_receive tag stage ch
    have hGot : Fanout.tokens tag (.got (receive stage ch).1) + tokens tag .here (receive stage ch).1 =
        tokens tag .whole (receive stage ch).1 := by
      cases (receive stage ch).1 with
      | item x =>
        have hSplit := weight_split tag x
        have hBeyond := weight_beyond tag x
        simp only [Fanout.got, Fanout.tokens, tokens, Got.toList, weigh_cons, weigh_nil]
        omega
      | ended | again => rfl
    have hThis := hMoved tag (.got (receive stage ch).1)
    simp only [Fanout.tokens, weigh_append, weigh_taken] at hThis hGot ⊢
    omega
  | sending stage x i =>
    have hProduced := hPlaced stage x i hFanout
    cases hEdge : node.edges[i]? with simp only [hEdge] at hStep
    | none =>
      cases hStep
      refine ⟨rfl, rfl, fun tag y hResult => ?_⟩
      simp only [World.total_eq]
      have hThis := hMoved tag (.receiving .polling)
      have hZero : weight tag (.fromEdge i) x = 0 := by
        refine weight_none fun j rest hLe hLeft => ?_
        obtain ⟨edge, u, hSome, -⟩ := hProduced.route hNode hResult hLeft
        rw [List.getElem?_eq_none_iff] at hEdge
        have hLt := (List.getElem?_eq_some_iff.mp hSome).1
        omega
      simp only [Fanout.tokens] at hThis ⊢
      omega
    | some edge =>
      cases hRoute : route g edge x.value with simp only [hRoute] at hStep
      | none =>
        cases hStep
        refine ⟨rfl, rfl, fun tag y hResult => ?_⟩
        have hThis := hMoved tag (.sending .testing x (i + 1))
        have hSkip : weight tag (.fromEdge i) x = weight tag (.fromEdge (i + 1)) x := by
          refine weight_skip fun rest hLeft => ?_
          obtain ⟨same, u, hSame, hSome⟩ := hProduced.route hNode hResult hLeft
          cases hEdge.symm.trans hSame
          exact nomatch hRoute.symm.trans hSome
        simp only [World.total_eq, Fanout.tokens] at hThis ⊢
        omega
      | some u =>
        obtain ⟨ch, hCh, rfl⟩ := map_eq_some_iff.mp hStep
        refine ⟨rfl, rfl, fun tag y hResult => ?_⟩
        have hSplit := weight_route tag x i
        generalize ({ x with hops := x.hops ++ [i] } : Item α) = copy at hSplit ⊢
        have hIns := weigh_set (f := queued tag) hCh (put stage ch copy).2
        have hQueue := queued_put tag stage ch copy
        have hPut : Fanout.tokens tag (.put x i (put stage ch copy).1) =
            (put stage ch copy).1.kept (weight tag .whole copy) + weight tag (.fromEdge (i + 1)) x := by
          cases (put stage ch copy).1 with
          | again => exact hSplit
          | refused | accepted => exact (Nat.zero_add _).symm
        have hThis := hMoved tag (.put x i (put stage ch copy).1)
        simp only [World.total_eq, Fanout.tokens, weigh_append, weigh_refused] at hThis hPut ⊢
        omega
  | closing i =>
    cases hEdge : node.edges[i]? with simp only [hEdge] at hStep
    | none =>
      cases hStep
      refine ⟨rfl, rfl, fun tag y hResult => ?_⟩
      have hThis := hMoved tag .done
      simp only [World.total_eq, Fanout.tokens] at hThis ⊢
      omega
    | some edge =>
      cases hStep
      refine ⟨rfl, rfl, fun tag y hResult => ?_⟩
      have hThis := hMoved tag (.closing (i + 1))
      have hClose := weigh_close tag w.ins (g.find edge.target)
      simp only [World.total_eq, Fanout.tokens] at hThis ⊢
      omega
  | done => cases hStep

theorem mergeStep_quiet (hStep : mergeStep g w m = some w') : Quiet g w w' := by
  obtain ⟨merge, hMerge, hStep⟩ := bind_eq_some_iff.mp hStep
  have hMoved := fun tag after => weigh_set (f := Merge.tokens tag) hMerge after
  cases merge with
  | receiving stage =>
    obtain ⟨name, -, hStep⟩ := bind_eq_some_iff.mp hStep
    obtain ⟨v, -, hStep⟩ := bind_eq_some_iff.mp hStep
    obtain ⟨ch, hCh, rfl⟩ := map_eq_some_iff.mp hStep
    refine ⟨rfl, rfl, fun tag y _ => ?_⟩
    simp only [World.total_eq]
    have hOuts := weigh_set (f := queued tag) hCh (receive stage ch).2
    have hQueue := queued_receive tag stage ch
    have hGot : Merge.tokens tag (.got (receive stage ch).1) + tokens tag .beyond (receive stage ch).1 =
        tokens tag .whole (receive stage ch).1 := by
      cases (receive stage ch).1 with
      | item x =>
        have hSplit := weight_split tag x
        simp only [Merge.got, Merge.tokens, tokens, Got.toList, weigh_cons, weigh_nil]
        omega
      | ended | again => rfl
    have hThis := hMoved tag (.got (receive stage ch).1)
    simp only [Merge.tokens, weigh_append, weigh_taken] at hThis hGot ⊢
    omega
  | sending stage x =>
    cases hStep
    refine ⟨rfl, rfl, fun tag y _ => ?_⟩
    have hThis := hMoved tag (.put x (put stage w.output x).1)
    have hPut : weigh (weight tag .here) (put stage w.output x).2.items +
        Merge.tokens tag (.put x (put stage w.output x).1) + (put stage w.output x).1.dropped (weight tag .here x) =
          weigh (weight tag .here) w.output.items + weight tag .here x := by
      rw [← weigh_put (weight tag .here) stage w.output x]
      cases (put stage w.output x).1 <;> rfl
    simp only [World.total_eq, Merge.tokens, weigh_append, weigh_refused] at hThis hPut ⊢
    omega
  | done => cases hStep

theorem pushing_set (g : PipelineGraph α) (tag : Tag) {pushes : List Push} {before : Push}
    (hPush : pushes[k]? = some before) (after : Push) :
    ((pushes.set k after)[tag.push]?).elim 0 (Push.tokens g tag) =
      if k = tag.push then after.tokens g tag else (pushes[tag.push]?).elim 0 (Push.tokens g tag) := by
  split_ifs with hSame
  · rw [← hSame, List.getElem?_set_self (List.getElem?_eq_some_iff.mp hPush).1]
    rfl
  · rw [List.getElem?_set_ne hSame]

theorem weight_new (tag : Tag) (name : String) (value : α) :
    weight tag .whole ⟨k, name, [], value⟩ = (decide (k = tag.push ∧ name = tag.source)).toNat := by
  rw [weight, Item.left]
  by_cases hSame : k = tag.push ∧ name = tag.source
  · rw [if_pos hSame, decide_eq_true hSame]
    rfl
  · rw [if_neg hSame, decide_eq_false hSame]
    rfl

theorem tokens_source (tag : Tag) {j : Nat} {name : String} (hName : g.sources[j]? = some name)
    (stage stage' : Sending) : (Push.sending stage j).tokens g tag =
      (decide (name = tag.source)).toNat + (Push.sending stage' (j + 1)).tokens g tag := by
  obtain ⟨hLt, rfl⟩ := List.getElem?_eq_some_iff.mp hName
  have hDrop := List.drop_eq_getElem_cons hLt
  have hNodup := g.sources_nodup.sublist (List.drop_sublist j g.sources)
  rw [hDrop, List.nodup_cons] at hNodup
  simp only [Push.tokens, hDrop, List.contains_cons]
  by_cases hSame : g.sources[j] = tag.source
  · rw [hSame] at hNodup
    have hNot : (g.sources.drop (j + 1)).contains tag.source = false := by
      rw [← Bool.not_eq_true, List.contains_iff_mem]
      exact hNodup.1
    rw [hNot, hSame, beq_self_eq_true, decide_eq_true rfl]
    rfl
  · rw [decide_eq_false hSame, beq_eq_false_iff_ne.mpr fun hEq => hSame hEq.symm, Bool.false_or]
    simp

/-- A push gives one token for each source. One that fails is no longer counted. -/
theorem pushStep_total {y : α} (hResult : result g w.values tag = some y) (hStep : pushStep g w k = some w')
    (hFine : w'.pushes[tag.push]? ≠ some .failed) : w'.total g tag = w.total g tag := by
  obtain ⟨value, hValue, hStep⟩ := bind_eq_some_iff.mp hStep
  obtain ⟨push, hPush, hStep⟩ := bind_eq_some_iff.mp hStep
  have hPushSet := fun after => pushing_set g tag hPush after
  have hBefore : k = tag.push → (w.pushes[tag.push]?).elim 0 (Push.tokens g tag) = push.tokens g tag := by
    rintro rfl
    rw [hPush]
    rfl
  cases push with
  | returned | failed => cases hStep
  | sending stage j =>
    cases hName : g.sources[j]? with simp only [hName] at hStep
    | none =>
      cases hStep
      have hMoved := hPushSet .returned
      have hZero : (Push.sending stage j).tokens g tag = 0 := by
        rw [Push.tokens, List.drop_eq_nil_of_le (List.getElem?_eq_none_iff.mp hName)]
        rfl
      simp only [World.total_eq]
      rw [hMoved]
      split_ifs with hSame
      · rw [hBefore hSame, hZero]
        rfl
      · rfl
    | some name =>
      have hSource := tokens_source tag hName stage .testing
      cases hFind : g.find name with simp only [hFind] at hStep
      | none =>
        cases hStep
        have hMoved := hPushSet (.sending .testing (j + 1))
        simp only [World.total_eq]
        rw [hMoved]
        split_ifs with hSame
        · have hNe : name ≠ tag.source := by
            rintro rfl
            rw [result, ← hSame, hValue, bind_some, reach, hFind] at hResult
            cases hResult
          rw [decide_eq_false hNe, Bool.toNat_false, Nat.zero_add] at hSource
          rw [hBefore hSame, hSource]
        · rfl
      | some v =>
        obtain ⟨ch, hCh, rfl⟩ := map_eq_some_iff.mp hStep
        have hIns := weigh_set (f := queued tag) hCh (put stage ch ⟨k, name, [], value⟩).2
        have hNew := weight_new (k := k) tag name value
        have hQueue := queued_put tag stage ch ⟨k, name, [], value⟩
        have hMoved := hPushSet (.put j (put stage ch ⟨k, name, [], value⟩).1)
        simp only [World.total_eq] at hFine ⊢
        by_cases hThis : k = tag.push
        · have hOld := hBefore hThis
          rw [if_pos hThis] at hMoved
          simp only [hThis, true_and] at hNew
          subst hThis
          cases hPut : (put stage ch ⟨tag.push, name, [], value⟩).1 with
          | refused =>
            rw [hPut] at hFine
            exact absurd (List.getElem?_set_self (List.getElem?_eq_some_iff.mp hPush).1) hFine
          | accepted =>
            simp only [hPut, Push.put, Put.kept, Put.dropped] at hMoved hQueue ⊢
            omega
          | again stage' =>
            have hTokens := tokens_source tag hName stage' .testing
            simp only [hPut, Push.put, Put.kept, Put.dropped] at hMoved hQueue ⊢
            omega
        · rw [if_neg hThis] at hMoved
          have hNone : weight tag .whole ⟨k, name, [], value⟩ = 0 := by
            rw [hNew, decide_eq_false fun hBoth => hThis hBoth.1]
            rfl
          have hZero : (put stage ch ⟨k, name, [], value⟩).1.kept 0 +
              (put stage ch ⟨k, name, [], value⟩).1.dropped 0 = 0 := by
            cases (put stage ch ⟨k, name, [], value⟩).1 <;> rfl
          rw [hNone] at hQueue
          omega

theorem drainStep_quiet (hStep : drainStep g w = some w') : Quiet g w w' := by
  rw [drainStep] at hStep
  split at hStep
  case h_1 j _ =>
    split at hStep
    case h_1 =>
      cases hStep
      exact ⟨rfl, rfl, fun _ _ _ => rfl⟩
    case h_2 name _ =>
      cases hStep
      refine ⟨rfl, rfl, fun tag y _ => ?_⟩
      have hClose := weigh_close tag w.ins (g.find name)
      simp only [World.total_eq]
      omega
  case h_2 =>
    split at hStep <;>
      · cases hStep
        exact ⟨rfl, rfl, fun _ _ _ => rfl⟩
  case h_3 =>
    cases hStep
    exact ⟨rfl, rfl, fun _ _ _ => rfl⟩
  case h_4 => cases hStep

theorem consumeStep_quiet (hStep : consumeStep w = some w') : Quiet g w w' := by
  rw [consumeStep] at hStep
  split at hStep
  case h_2 => cases hStep
  case h_1 stage _ =>
    cases hStep
    refine ⟨rfl, rfl, fun tag y _ => ?_⟩
    have hMoved := weigh_receive (weight tag .here) stage w.output
    simp only [World.total_eq, weigh_append]
    omega

end Conservation

end Graph

end Pipeline
