import QbuemStack.Base.LabelledRuns
import QbuemStack.Pipeline.ChannelCalls

/-! The pipeline whose stages are changed while it runs. Channels and stages are numbered and never
go away: a removed stage leaves the chain, but its workers go on. A change of the chain holds the
lock; its stores are seen by the workers one by one. -/
namespace Pipeline

namespace Dynamic

variable {α : Type}

section Stages

structure Config where
  defaultChannelCap : Nat := 256
  defaultWorkers : Nat := 2

structure Item (α : Type) where
  push : Nat
  value : α
deriving DecidableEq

/-- Between the loads of the input channel, the output channel, the flag and the function the stage
may change. -/
inductive Worker (α : Type) where
  | loading
  | receiving (ch : Nat) (stage : Receiving)
  | routing (item : Item α)
  | testing (out : Nat) (item : Item α)
  | running (out : Nat) (item : Item α)
  | sending (out : Nat) (stage : Sending) (item : Item α)
  | leaving
  | retiring
  | closing (out : Nat)
  | done

structure Stage (α : Type) where
  name : String
  inChannel : Nat
  outChannel : Nat
  activeFn : α → α
  enabled : Bool
  workerCount : Nat
  workers : Nat
  chanCap : Nat
  crew : List (Worker α)

inductive Write where
  | setOutput (stage ch : Nat)
  | closeInput (stage : Nat)
  | rewire (stage successor : Nat)
deriving DecidableEq

inductive Push (α : Type) where
  | sending (ch : Nat) (stage : Sending) (value : α)
  | returned
  | failed

inductive Drain where
  | idle
  | closing (snapshot : List Nat)
  | waiting (snapshot : List Nat)
  | returned
deriving DecidableEq

/-- The chain has the stages that were not removed. The lock is held while stores are outstanding. -/
structure World (α : Type) where
  channels : List (Channel (Item α))
  stages : List (Stage α)
  chain : List Nat
  writes : List Write
  pushes : List (Push α)
  drain : Drain
  outputs : List Nat
  received : List (Nat × Item α)
  lost : List (Item α)

def empty : World α := ⟨[], [], [], [], [], .idle, [], [], []⟩

end Stages

section Changes

variable (w : World α)

def Write.apply : Write → World α
  | .setOutput s ch => { w with stages := w.stages.modify s fun stage => { stage with outChannel := ch } }
  | .closeInput s => (w.stages[s]?).elim w fun stage =>
    { w with channels := w.channels.modify stage.inChannel fun ch => ch.close.state }
  | .rewire s successor => (w.stages[s]?).elim w fun stage =>
    { w with stages := w.stages.modify successor fun other => { other with inChannel := stage.outChannel } }

def rewireChannels (chain : List Nat) : List Write := (chain.zip chain.tail).map fun pair => .rewire pair.1 pair.2

def addStage (cfg : Config) (name : String) (fn : α → α) (workers chanCap : Nat) : World α :=
  let cap := if chanCap = 0 then cfg.defaultChannelCap else chanCap
  let chain := w.chain ++ [w.stages.length]
  (rewireChannels chain).foldl Write.apply { w with
    channels := w.channels ++ [Channel.new cap, Channel.new cap]
    stages := w.stages ++ [{
      name
      inChannel := w.channels.length
      outChannel := w.channels.length + 1
      activeFn := fn
      enabled := true
      workerCount := 0
      workers := if workers = 0 then cfg.defaultWorkers else workers
      chanCap := cap
      crew := [] }]
    chain }

def Stage.spawn (stage : Stage α) : Stage α :=
  { stage with
    workerCount := stage.workerCount + stage.workers
    crew := stage.crew ++ List.replicate stage.workers .loading }

def start : World α := { w with stages := w.chain.foldl (fun stages s => stages.modify s Stage.spawn) w.stages }

def position (name : String) : Option Nat :=
  w.chain.findIdx? fun s => (w.stages[s]?).any fun stage => stage.name == name

def removeStage (name : String) : Option (World α) :=
  match position w name with
  | none => some w
  | some i =>
    (w.chain[i]?).bind fun removed => (w.stages[removed]?).map fun stage =>
      let successor := (w.chain[i + 1]?).bind fun s => w.stages[s]?
      let bridge := successor.elim w.channels.length fun other => other.inChannel
      let fresh := if successor.isSome then [] else [Channel.new stage.chanCap]
      let predecessor := if i = 0 then none else w.chain[i - 1]?
      let chain := w.chain.eraseIdx i
      { w with
        channels := w.channels ++ fresh ++ [Channel.new 2]
        chain
        writes := [.setOutput removed (w.channels.length + fresh.length)] ++
          predecessor.toList.map (fun s => .setOutput s bridge) ++ [.closeInput removed] ++ rewireChannels chain }

def update (name : String) (change : Stage α → Stage α) : World α :=
  (position w name).elim w fun i => (w.chain[i]?).elim w fun s => { w with stages := w.stages.modify s change }

def hotSwap (name : String) (fn : α → α) : World α := update w name fun stage => { stage with activeFn := fn }

def setEnabled (name : String) (enabled : Bool) : World α := update w name fun stage => { stage with enabled }

end Changes

section Steps

inductive Label (α : Type) where
  | push (value : α)
  | pushStep (push : Nat)
  | worker (stage worker : Nat)
  | hotSwap (name : String) (fn : α → α)
  | setEnabled (name : String) (enabled : Bool)
  | removeStage (name : String)
  | write
  | output
  | consume (handle : Nat)
  | drain
  | drainStep

def Worker.got (ch : Nat) : Got (Item α) → Worker α
  | .item x => .routing x
  | .ended => .leaving
  | .again stage => .receiving ch stage

def Worker.put (out : Nat) (x : Item α) : Put → Worker α
  | .again stage => .sending out stage x
  | _ => .loading

def Push.put (ch : Nat) (value : α) : Put → Push α
  | .refused => .failed
  | .accepted => .returned
  | .again stage => .sending ch stage value

def refused (x : Item α) : Put → List (Item α)
  | .refused => [x]
  | _ => []

variable (w : World α)

def setWorker (s i : Nat) (stage : Stage α) (worker : Worker α) : World α :=
  { w with stages := w.stages.set s { stage with crew := stage.crew.set i worker } }

def closeChannel (c : Nat) : World α := { w with channels := w.channels.modify c fun ch => ch.close.state }

def workerStep (s i : Nat) : Option (World α) :=
  (w.stages[s]?).bind fun stage => (stage.crew[i]?).bind fun worker =>
    match worker with
    | .loading => some (setWorker w s i stage (.receiving stage.inChannel .polling))
    | .receiving c receiving => (w.channels[c]?).map fun ch =>
      let out := receive receiving ch
      setWorker { w with channels := w.channels.set c out.2 } s i stage (.got c out.1)
    | .routing x => some (setWorker w s i stage (.testing stage.outChannel x))
    | .testing out x => some (setWorker w s i stage (if stage.enabled then .running out x else .sending out .testing x))
    | .running out x =>
      some (setWorker w s i stage (.sending out .testing { x with value := stage.activeFn x.value }))
    | .sending c sending x => (w.channels[c]?).map fun ch =>
      let out := put sending ch x
      setWorker { w with channels := w.channels.set c out.2, lost := w.lost ++ refused x out.1 }
        s i stage (.put c x out.1)
    | .leaving => some (setWorker w s i { stage with workerCount := stage.workerCount - 1 }
        (if stage.workerCount - 1 = 0 then .retiring else .done))
    | .retiring => some (setWorker w s i stage (.closing stage.outChannel))
    | .closing out => some (setWorker (closeChannel w out) s i stage .done)
    | .done => none

def firstInput : Option Nat := (w.chain.head?).bind fun s => (w.stages[s]?).map fun stage => stage.inChannel

def lastOutput : Option Nat := (w.chain.getLast?).bind fun s => (w.stages[s]?).map fun stage => stage.outChannel

def push (value : α) : World α :=
  { w with pushes := w.pushes ++ [(firstInput w).elim .failed fun ch => .sending ch .testing value] }

def pushStep (k : Nat) : Option (World α) :=
  (w.pushes[k]?).bind fun push =>
    match push with
    | .sending c stage value => (w.channels[c]?).map fun ch =>
      let out := put stage ch ⟨k, value⟩
      { w with channels := w.channels.set c out.2, pushes := w.pushes.set k (.put c value out.1) }
    | _ => none

def consume (handle : Nat) : Option (World α) :=
  (w.outputs[handle]?).bind fun c => (w.channels[c]?).map fun ch =>
    let out := receive .polling ch
    { w with channels := w.channels.set c out.2, received := w.received ++ out.1.toList.map fun x => (c, x) }

def drainStep : Option (World α) :=
  match w.drain with
  | .closing snapshot => some { Write.apply w (.closeInput (snapshot.headD 0)) with drain := .waiting snapshot }
  | .waiting [] => some { w with drain := .returned }
  | .waiting (s :: snapshot) => (w.stages[s]?).map fun stage =>
    if stage.workerCount = 0 then { w with drain := .waiting snapshot } else w
  | _ => none

def unlocked (w' : World α) : Option (World α) := if w.writes = [] then some w' else none

def next : Label α → Option (World α)
  | .push value => unlocked w (push w value)
  | .pushStep k => pushStep w k
  | .worker s i => workerStep w s i
  | .hotSwap name fn => unlocked w (hotSwap w name fn)
  | .setEnabled name enabled => unlocked w (setEnabled w name enabled)
  | .removeStage name => (removeStage w name).bind (unlocked w)
  | .write =>
    match w.writes with
    | [] => none
    | write :: writes => some { write.apply w with writes }
  | .output => unlocked w { w with outputs := w.outputs ++ (lastOutput w).toList }
  | .consume handle => consume w handle
  | .drain =>
    if w.drain = .idle then
      unlocked w { w with drain := if w.chain = [] then .returned else .closing w.chain }
    else none
  | .drainStep => drainStep w

end Steps

end Dynamic

end Pipeline
