import QbuemStack.Base.LabelledRuns
import QbuemStack.Pipeline.ChannelCalls

/-! The pipeline as a graph of nodes. The fan-out of a node reads its output channel and writes the
inputs of its successors; the merge of a sink reads the same output channel and writes the output of
the graph. An item carries its push, source and edges, which the code does not look at. -/
namespace Pipeline

namespace Graph

variable {α : Type}

section Topology

structure Edge (α : Type) where
  target : String
  predicate : Option (α → Bool)

structure Node (α : Type) where
  name : String
  fn : α → α
  workers : Nat
  chanCap : Nat
  edges : List (Edge α)

structure PipelineGraph (α : Type) where
  nodes : List (Node α)
  sources : List String
  sinks : List String
  outputCap : Nat
  sources_nodup : sources.Nodup

def Edge.holds (edge : Edge α) (value : α) : Bool := edge.predicate.all fun predicate => predicate value

namespace PipelineGraph

def find (g : PipelineGraph α) (name : String) : Option Nat := g.nodes.findIdx? fun node => node.name == name

def validate (g : PipelineGraph α) : Bool :=
  !g.nodes.isEmpty && !g.sources.isEmpty && !g.sinks.isEmpty && g.sources.all (fun name => (g.find name).isSome) &&
    g.sinks.all (fun name => (g.find name).isSome) &&
    g.nodes.all fun node => node.edges.all fun edge => (g.find edge.target).isSome

def successors (g : PipelineGraph α) (v : Nat) : List Nat :=
  (g.nodes[v]?).elim [] fun node => node.edges.filterMap fun edge => g.find edge.target

def inDegree (g : PipelineGraph α) (v : Nat) : Nat :=
  (List.range g.nodes.length).foldl (fun sum u => sum + (g.successors u).count v) 0

def release : List Nat → List Nat → List Int → List Nat × List Int
  | [], queue, degrees => (queue, degrees)
  | v :: successors, queue, degrees =>
    let degrees := degrees.modify v fun degree => degree - 1
    release successors (if degrees[v]? = some 0 then queue ++ [v] else queue) degrees

def sortLoop (g : PipelineGraph α) : Nat → List Nat → List Int → List Nat → List Nat
  | 0, _, _, order => order
  | _ + 1, [], _, order => order
  | turns + 1, v :: queue, degrees, order =>
    let out := release (g.successors v) queue degrees
    sortLoop g turns out.1 out.2 (order ++ [v])

def topoSort (g : PipelineGraph α) : Option (List Nat) :=
  let nodes := List.range g.nodes.length
  let degrees := nodes.map fun v => (g.inDegree v : Int)
  let order := sortLoop g g.nodes.length (nodes.filter fun v => g.inDegree v = 0) degrees []
  if order.length = g.nodes.length then some order else none

end PipelineGraph

end Topology

section Steps

structure Item (α : Type) where
  push : Nat
  source : String
  hops : List Nat
  value : α

inductive Worker (α : Type) where
  | receiving (stage : Receiving)
  | running (item : Item α)
  | sending (stage : Sending) (item : Item α)
  | leaving
  | closing
  | done

inductive Fanout (α : Type) where
  | receiving (stage : Receiving)
  | sending (stage : Sending) (item : Item α) (edge : Nat)
  | closing (edge : Nat)
  | done

inductive Merge (α : Type) where
  | receiving (stage : Receiving)
  | sending (stage : Sending) (item : Item α)
  | done

inductive Push where
  | sending (stage : Sending) (source : Nat)
  | returned
  | failed
deriving DecidableEq

inductive Drain where
  | idle
  | closing (source : Nat)
  | waiting (node : Nat)
  | closingOutput
  | returned
deriving DecidableEq

inductive Consumer where
  | receiving (stage : Receiving)
  | ended
deriving DecidableEq

/-- Which of the paths through an item a place stands for: all, the one that ends here, those that
go on, or those from this edge on. -/
inductive Extent where
  | whole
  | here
  | beyond
  | fromEdge (edge : Nat)
deriving DecidableEq

structure Loss (α : Type) where
  item : Item α
  extent : Extent

section Transitions

/-! Where a coroutine goes after a step of a `recv` or a `send`, and what is lost with it. -/

def Worker.got : Got (Item α) → Worker α
  | .item x => .running x
  | .ended => .leaving
  | .again stage => .receiving stage

def Worker.put (x : Item α) : Put → Worker α
  | .again stage => .sending stage x
  | _ => .receiving .polling

def Fanout.got : Got (Item α) → Fanout α
  | .item x => .sending .testing x 0
  | .ended => .closing 0
  | .again stage => .receiving stage

def Fanout.put (x : Item α) (edge : Nat) : Put → Fanout α
  | .again stage => .sending stage x edge
  | _ => .sending .testing x (edge + 1)

def Merge.got : Got (Item α) → Merge α
  | .item x => .sending .testing x
  | .ended => .done
  | .again stage => .receiving stage

def Merge.put (x : Item α) : Put → Merge α
  | .again stage => .sending stage x
  | _ => .receiving .polling

def Push.put (source : Nat) : Put → Push
  | .refused => .failed
  | .accepted => .sending .testing (source + 1)
  | .again stage => .sending stage source

def Consumer.got : Got (Item α) → Consumer
  | .item _ => .receiving .polling
  | .ended => .ended
  | .again stage => .receiving stage

def Loss.taken (extent : Extent) (got : Got (Item α)) : List (Loss α) := got.toList.map fun x => ⟨x, extent⟩

def Loss.refused (x : Item α) (extent : Extent) : Put → List (Loss α)
  | .refused => [⟨x, extent⟩]
  | _ => []

end Transitions

structure World (α : Type) where
  ins : List (Channel (Item α))
  outs : List (Channel (Item α))
  workers : List (List (Worker α))
  lives : List Nat
  fanouts : List (Fanout α)
  merges : List (Merge α)
  output : Channel (Item α)
  values : List α
  pushes : List Push
  drain : Drain
  consumer : Consumer
  received : List (Item α)
  lost : List (Loss α)

inductive Label (α : Type) where
  | push (value : α)
  | pushStep (push : Nat)
  | worker (node worker : Nat)
  | fanout (node : Nat)
  | merge (sink : Nat)
  | drain
  | drainStep
  | consume

def spawned (g : PipelineGraph α) : World α where
  ins := g.nodes.map fun node => Channel.new node.chanCap
  outs := g.nodes.map fun node => Channel.new node.chanCap
  workers := g.nodes.map fun node => List.replicate node.workers (.receiving .polling)
  lives := g.nodes.map fun node => node.workers
  fanouts := g.nodes.map fun node => if node.edges.isEmpty then .done else .receiving .polling
  merges := g.sinks.map fun name => if (g.find name).isSome then .receiving .polling else .done
  output := Channel.new g.outputCap
  values := []
  pushes := []
  drain := .idle
  consumer := .receiving .polling
  received := []
  lost := []

def start (g : PipelineGraph α) : Option (World α) := g.topoSort.map fun _ => spawned g

variable (g : PipelineGraph α) (w : World α)

def workerStep (v i : Nat) : Option (World α) :=
  (w.workers[v]?).bind fun crew => (crew[i]?).bind fun worker =>
    match worker with
    | .receiving stage => (w.ins[v]?).map fun ch =>
      let out := receive stage ch
      { w with ins := w.ins.set v out.2, workers := w.workers.set v (crew.set i (.got out.1)) }
    | .running x => (g.nodes[v]?).map fun node =>
      { w with workers := w.workers.set v (crew.set i (.sending .testing { x with value := node.fn x.value })) }
    | .sending stage x => (w.outs[v]?).map fun ch =>
      let out := put stage ch x
      { w with
        outs := w.outs.set v out.2
        workers := w.workers.set v (crew.set i (.put x out.1))
        lost := w.lost ++ Loss.refused x .whole out.1 }
    | .leaving => (w.lives[v]?).map fun live =>
      { w with
        lives := w.lives.set v (live - 1)
        workers := w.workers.set v (crew.set i (if live - 1 = 0 then .closing else .done)) }
    | .closing => (w.outs[v]?).map fun ch =>
      { w with outs := w.outs.set v ch.close.state, workers := w.workers.set v (crew.set i .done) }
    | .done => none

def route (edge : Edge α) (value : α) : Option Nat := if edge.holds value then g.find edge.target else none

def fanoutStep (v : Nat) : Option (World α) :=
  (g.nodes[v]?).bind fun node => (w.fanouts[v]?).bind fun fanout =>
    match fanout with
    | .receiving stage => (w.outs[v]?).map fun ch =>
      let out := receive stage ch
      { w with
        outs := w.outs.set v out.2
        fanouts := w.fanouts.set v (.got out.1)
        lost := w.lost ++ Loss.taken .here out.1 }
    | .sending stage x i =>
      match node.edges[i]? with
      | none => some { w with fanouts := w.fanouts.set v (.receiving .polling) }
      | some edge =>
        match route g edge x.value with
        | none => some { w with fanouts := w.fanouts.set v (.sending .testing x (i + 1)) }
        | some u => (w.ins[u]?).map fun ch =>
          let copy := { x with hops := x.hops ++ [i] }
          let out := put stage ch copy
          { w with
            ins := w.ins.set u out.2
            fanouts := w.fanouts.set v (.put x i out.1)
            lost := w.lost ++ Loss.refused copy .whole out.1 }
    | .closing i =>
      match node.edges[i]? with
      | none => some { w with fanouts := w.fanouts.set v .done }
      | some edge => some { w with
          ins := (g.find edge.target).elim w.ins fun u => w.ins.modify u fun ch => ch.close.state
          fanouts := w.fanouts.set v (.closing (i + 1)) }
    | .done => none

def mergeStep (m : Nat) : Option (World α) :=
  (w.merges[m]?).bind fun merge =>
    match merge with
    | .receiving stage => (g.sinks[m]?).bind fun name => (g.find name).bind fun v => (w.outs[v]?).map fun ch =>
      let out := receive stage ch
      { w with
        outs := w.outs.set v out.2
        merges := w.merges.set m (.got out.1)
        lost := w.lost ++ Loss.taken .beyond out.1 }
    | .sending stage x =>
      let out := put stage w.output x
      some { w with
        output := out.2
        merges := w.merges.set m (.put x out.1)
        lost := w.lost ++ Loss.refused x .here out.1 }
    | .done => none

def pushStep (k : Nat) : Option (World α) :=
  (w.values[k]?).bind fun value => (w.pushes[k]?).bind fun push =>
    match push with
    | .sending stage j =>
      match g.sources[j]? with
      | none => some { w with pushes := w.pushes.set k .returned }
      | some name =>
        match g.find name with
        | none => some { w with pushes := w.pushes.set k (.sending .testing (j + 1)) }
        | some v => (w.ins[v]?).map fun ch =>
          let out := put stage ch ⟨k, name, [], value⟩
          { w with ins := w.ins.set v out.2, pushes := w.pushes.set k (.put j out.1) }
    | _ => none

def drainStep : Option (World α) :=
  match w.drain with
  | .closing j =>
    match g.sources[j]? with
    | none => some { w with drain := .waiting 0 }
    | some name => some { w with
        ins := (g.find name).elim w.ins fun v => w.ins.modify v fun ch => ch.close.state
        drain := .closing (j + 1) }
  | .waiting v =>
    match w.lives[v]? with
    | none => some { w with drain := .closingOutput }
    | some live => some { w with drain := if live = 0 then .waiting (v + 1) else .waiting v }
  | .closingOutput => some { w with output := w.output.close.state, drain := .returned }
  | _ => none

def consumeStep : Option (World α) :=
  match w.consumer with
  | .receiving stage =>
    let out := receive stage w.output
    some { w with output := out.2, consumer := .got out.1, received := w.received ++ out.1.toList }
  | .ended => none

def next : Label α → Option (World α)
  | .push value => some { w with
      values := w.values ++ [value]
      pushes := w.pushes ++ [if g.sources.isEmpty then .failed else .sending .testing 0] }
  | .pushStep k => pushStep g w k
  | .worker v i => workerStep g w v i
  | .fanout v => fanoutStep g w v
  | .merge m => mergeStep g w m
  | .drain => if w.drain = .idle then some { w with drain := .closing 0 } else none
  | .drainStep => drainStep g w
  | .consume => consumeStep w

end Steps

end Graph

end Pipeline
