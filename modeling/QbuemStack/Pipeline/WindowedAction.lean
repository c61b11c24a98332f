import Mathlib.Data.List.Basic
import QbuemStack.Base.SignedInts

/-! The aggregation by key and window. A sum or product of times that does not fit into 64 bits is
undefined. -/
namespace Pipeline

namespace Windowed

open SignedInts

variable {T K Acc : Type}

section Windows

inductive WindowType where
  | tumbling
  | sliding
  | session
deriving DecidableEq

structure Shape where
  type : WindowType
  size : Int
  step : Int
  gap : Int

structure Config (T K Acc : Type) extends Shape where
  keyFn : T → K
  initAcc : Acc
  accFn : Acc → T → Acc

structure WindowDesc where
  start : Int
  stop : Int
deriving DecidableEq

def plus (t ms : Int) : Option Int := (checked (ms * 1000000)).bind fun d => checked (t + d)

def epochMs (t : Int) : Int := t.tdiv 1000000

def windowAt (size bucket : Int) : Option WindowDesc :=
  (checked (bucket * 1000000)).bind fun start => (plus start size).map fun stop => ⟨start, stop⟩

def windowFor (size t : Int) : Option WindowDesc := windowAt size ((epochMs t).tdiv size * size)

def slide (size step epoch : Int) : Nat → Int → Option (List WindowDesc)
  | 0, _ => some []
  | n + 1, bucket =>
    if bucket ≤ epoch then
      (windowAt size bucket).bind fun desc => (checked (bucket + step)).bind fun after =>
        (slide size step epoch n after).map fun descs => desc :: descs
    else some []

def firstBucket (size step epoch : Int) : Int := ((epoch - size).tdiv step + 1) * step

def windowsFor (size step t : Int) : Option (List WindowDesc) :=
  let first := firstBucket size step (epochMs t)
  slide size step (epochMs t) (epochMs t - first + 1).toNat first

end Windows

section States

structure WindowState (K Acc : Type) where
  desc : WindowDesc
  accs : List (K × Acc)
  lastEvent : Int

structure Result (K Acc : Type) where
  key : K
  acc : Acc
  start : Int

structure State (K Acc : Type) where
  windows : List (WindowState K Acc)
  watermark : Int
  results : List (Result K Acc)

def start : State K Acc := ⟨[], minInt64, []⟩

variable [DecidableEq K] (cfg : Config T K Acc)

def fold (item : T) : List (K × Acc) → List (K × Acc)
  | [] => [(cfg.keyFn item, cfg.accFn cfg.initAcc item)]
  | (k, acc) :: accs => if k = cfg.keyFn item then (k, cfg.accFn acc item) :: accs else (k, acc) :: fold item accs

def addTo (item : T) (windows : List (WindowState K Acc)) (desc : WindowDesc) : List (WindowState K Acc) :=
  match windows with
  | [] => [⟨desc, fold cfg item [], desc.start⟩]
  | ws :: rest =>
    if ws.desc = desc then { ws with accs := fold cfg item ws.accs } :: rest else ws :: addTo item rest desc

def extend (item : T) (t : Int) : List (WindowState K Acc) → Option (List (WindowState K Acc))
  | [] => (plus t cfg.gap).map fun stop => [⟨⟨t, stop⟩, fold cfg item [], t⟩]
  | ws :: rest =>
    if ws.accs.any fun entry => entry.1 = cfg.keyFn item then
      (plus ws.lastEvent cfg.gap).bind fun limit =>
        if t ≤ limit then
          (plus t cfg.gap).map fun stop =>
            { desc := ⟨ws.desc.start, max ws.desc.stop stop⟩
              accs := fold cfg item ws.accs
              lastEvent := max ws.lastEvent t } :: rest
        else (extend item t rest).map fun windows => ws :: windows
    else (extend item t rest).map fun windows => ws :: windows

def Shape.windowsOf (shape : Shape) (t : Int) : Option (List WindowDesc) :=
  if shape.type = .tumbling then (windowFor shape.size t).map fun desc => [desc]
  else windowsFor shape.size shape.step t

def accumulate (item : T) (t : Int) (s : State K Acc) : Option (State K Acc) :=
  let windows :=
    if cfg.type = .session then extend cfg item t s.windows
    else (cfg.windowsOf t).map fun descs => descs.foldl (addTo cfg item) s.windows
  windows.map fun windows => { s with windows, watermark := max s.watermark t }

def completed (wm : Int) (ws : WindowState K Acc) : Option Bool :=
  if ws.desc.stop ≤ wm then some true
  else if cfg.type = .session then (plus ws.lastEvent cfg.gap).map fun limit => decide (limit ≤ wm)
  else some false

def given (ws : WindowState K Acc) : List (Result K Acc) := ws.accs.map fun entry => ⟨entry.1, entry.2, ws.desc.start⟩

def collect (wm : Int) : List (WindowState K Acc) → Option (List (Result K Acc) × List (WindowState K Acc))
  | [] => some ([], [])
  | ws :: rest =>
    (completed cfg wm ws).bind fun done => (collect wm rest).map fun out =>
      if done then (given ws ++ out.1, out.2) else (out.1, ws :: out.2)

def collectCompleted (s : State K Acc) : Option (State K Acc) :=
  (collect cfg s.watermark s.windows).map fun out => { s with windows := out.2, results := s.results ++ out.1 }

inductive Event (T : Type) where
  | item (value : T) (time : Nat)
  | tick

def step (s : State K Acc) : Event T → Option (State K Acc)
  | .item value time => accumulate cfg value time s
  | .tick => collectCompleted cfg s

def run (events : List (Event T)) (s : State K Acc) : Option (State K Acc) := events.foldlM (step cfg) s

def ticks : Nat → State K Acc → Option (State K Acc)
  | 0, s => some s
  | n + 1, s => (collectCompleted cfg s).bind (ticks n)

def inputWorker (events : List (Event T)) (late : Nat) : Option (State K Acc) :=
  (run cfg events start).bind fun s => (ticks cfg late { s with watermark := maxInt64 }).bind (collectCompleted cfg)

end States

end Windowed

end Pipeline
