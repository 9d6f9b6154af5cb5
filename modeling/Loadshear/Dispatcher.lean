import Loadshear.Metrics
import Loadshear.Orchestrator

/-!
# The orchestrator's thread

`orchestrator.h` with the handlers of its `io_context`: the two timers, the
rounds of metrics and the ends of the shards' threads. Which handler is next,
what the clock reads and when a timer fires is left open, and so is when a
shard gets to a metrics pull. A wait that is cancelled before it is over has
no effect, so cancelling disarms the timer.
-/

namespace Loadshear

/-- What is ready to run on the orchestrator's thread. -/
inductive Handler where
  | dispatchPendingActions
  | doRequestMetrics
  | onMetricsRoundComplete
  | doShutdown
  /-- What the last `shard_exit_callback` posts. -/
  | lastShardExit
deriving DecidableEq

inductive ThreadStatus where
  | running
  | closed
  /-- Ended by an exception. -/
  | failed
deriving DecidableEq

/-- The thread of a shard, with the metrics pulls that are posted to it. -/
structure Thread where
  status : ThreadStatus
  pulls : Nat
deriving DecidableEq

/-- What the orchestrator and the shards do, as written to the log. -/
inductive Effect where
  | distributed (action : ActionDescriptor) (now : Nat)
  | armedDispatch (deadline : Nat)
  | armedMetrics
  | shutdown
  | stopped (k : Nat)
  | submitted (k : Nat) (action : ActionDescriptor)
  | handled (k : Nat) (task : Task)
  | requested
  | reported (data : MetricsAggregate)
deriving DecidableEq

/-- Times are milliseconds since startup. The log is not part of the program. -/
structure Dispatcher where
  orchestrator : Orchestrator
  threads : List Thread
  ready : List Handler
  /-- The shards that `do_request_metrics` has yet to post to. -/
  requesting : List Nat
  dispatchTimer : Option Nat
  metricsTimer : Bool
  workGuard : Bool
  activeShards : Nat
  pendingMetricPulls : Nat
  shardMetricHistory : List (List MetricsSnapshot)
  /-- `cntx_.run()` has returned. -/
  returned : Bool
  log : List Effect
deriving DecidableEq

namespace Dispatcher

/-- Once `start` has started the shards and both loops. -/
def init (shardCount : Nat) : Dispatcher where
  orchestrator := .init shardCount
  threads := List.replicate shardCount ⟨.running, 0⟩
  ready := [.dispatchPendingActions]
  requesting := []
  dispatchTimer := none
  metricsTimer := true
  workGuard := true
  activeShards := shardCount
  pendingMetricPulls := 0
  shardMetricHistory := List.replicate shardCount []
  returned := false
  log := []

def write (effects : List Effect) (d : Dispatcher) : Dispatcher := { d with log := d.log ++ effects }

/-! ## Actions -/

def doShutdown (d : Dispatcher) : Dispatcher :=
  if d.orchestrator.shutdown then d
  else
    let shut := { d with orchestrator := d.orchestrator.doShutdown, dispatchTimer := none, metricsTimer := false }
    shut.write (.shutdown :: (List.range d.orchestrator.shards.length).map .stopped)

def scheduleNextAction (deadline : Nat) (d : Dispatcher) : Dispatcher :=
  { d with dispatchTimer := some deadline }.write [.armedDispatch deadline]

/-- The part of an action that a shard takes. -/
def taken (action : ActionDescriptor) (s : Shard) (range : UInt32 × UInt32) : List ActionDescriptor :=
  if s.running then (Orchestrator.shardAction action range).toList else []

/-- What the shards take, from shard `k` on. -/
def submissions (action : ActionDescriptor) : Nat → List Shard → List (UInt32 × UInt32) → List Effect
  | k, s :: shards, range :: ranges =>
    (taken action s range).map (.submitted k) ++ submissions action (k + 1) shards ranges
  | _, _, _ => []

/-- One pass of the loop of `dispatch_pending_actions`. -/
def distribute (action : ActionDescriptor) (now : Nat) (d : Dispatcher) : Option Dispatcher :=
  (d.orchestrator.distributeActionToShards action).map fun o =>
    { d with orchestrator := { o with currentActionIndx := o.currentActionIndx + 1 } }.write
      (.distributed action now :: submissions action 0 d.orchestrator.shards o.shardRanges)

/-- The loop, over the actions that are left. -/
def dispatchLoop (now : Nat) : List ActionDescriptor → Dispatcher → Option Dispatcher
  | [], d => some d.doShutdown
  | action :: rest, d =>
    if action.offset > now then some (d.scheduleNextAction action.offset)
    else (d.distribute action now).bind (dispatchLoop now rest)

def dispatchPendingActions (env : OrchestratorEnv) (now : Nat) (d : Dispatcher) : Option Dispatcher :=
  dispatchLoop now (env.actions.drop d.orchestrator.currentActionIndx) d

/-! ## Metrics -/

def scheduleMetricsSnapshot (d : Dispatcher) : Dispatcher := { d with metricsTimer := true }.write [.armedMetrics]

/-- Up to the loop that posts to the shards: they may run between two posts. -/
def doRequestMetrics (d : Dispatcher) : Dispatcher :=
  { d with pendingMetricPulls := d.threads.length, requesting := List.range d.threads.length }.write [.requested]

def onMetricsRoundComplete (now : Nat) (d : Dispatcher) : Dispatcher :=
  (d.write [.reported (getAggregateDelta d.shardMetricHistory now)]).scheduleMetricsSnapshot

def shardMetricsCallback (d : Dispatcher) : Dispatcher :=
  let remaining := d.pendingMetricPulls - 1
  { d with
    pendingMetricPulls := remaining
    ready := if remaining = 0 then d.ready ++ [.onMetricsRoundComplete] else d.ready }

/-! ## Shards -/

def shardExitCallback (d : Dispatcher) : Dispatcher :=
  let remaining := d.activeShards - 1
  { d with
    activeShards := remaining
    ready := if remaining = 0 then d.ready ++ [.lastShardExit] else d.ready }

def setThread (k : Nat) (t : Thread) (d : Dispatcher) : Dispatcher := { d with threads := d.threads.set k t }

/-- The thread of shard `k`, while it runs. -/
def thread (k : Nat) (d : Dispatcher) : Option Thread :=
  (d.threads[k]?).filter (·.status = .running)

/-- `record_metrics` and the callback; the shard's counters are given, apart
from the one that it asks its pool for. -/
def pull (k : Nat) (counters : MetricsSnapshot) (d : Dispatcher) : Option Dispatcher := do
  let t ← d.thread k
  let s ← d.orchestrator.shards[k]?
  let snapshots ← d.shardMetricHistory[k]?
  if t.pulls = 0 then none
  else
    let snapshot := { counters with connectedSessions := s.pool.activeSessions }
    let recorded := { d with shardMetricHistory := d.shardMetricHistory.set k (snapshots ++ [snapshot]) }
    return (recorded.setThread k { t with pulls := t.pulls - 1 }).shardMetricsCallback

/-! ## Steps -/

def runHandler (env : OrchestratorEnv) (now : Nat) : Handler → Dispatcher → Option Dispatcher
  | .dispatchPendingActions, d => d.dispatchPendingActions env now
  | .doRequestMetrics, d => some d.doRequestMetrics
  | .onMetricsRoundComplete, d => some (d.onMetricsRoundComplete now)
  | .doShutdown, d => some d.doShutdown
  | .lastShardExit, d => some { d with workGuard := false, dispatchTimer := none }

inductive Event where
  | run (handler : Handler) (now : Nat)
  /-- The running `do_request_metrics` posts to the next shard. -/
  | post
  | dispatchTimer
  | metricsTimer
  | earlyStop
  /-- `cntx_.run()` returns. -/
  | finish
  | task (k : Nat)
  | handler (k : Nat) (event : Pool.Event)
  | pull (k : Nat) (counters : MetricsSnapshot)
  /-- The context of shard `k` runs out of work, or its stop timer ends it. -/
  | exit (k : Nat)
  | fail (k : Nat)
deriving DecidableEq

def step (env : OrchestratorEnv) (d : Dispatcher) : Event → Option Dispatcher
  | .run h now =>
    if d.returned ∨ d.requesting ≠ [] ∨ h ∉ d.ready then none
    else { d with ready := d.ready.erase h }.runHandler env now h
  | .post => do
    match d.requesting with
    | [] => none
    | k :: requesting =>
      let t ← d.threads[k]?
      return { d with requesting := requesting }.setThread k { t with pulls := t.pulls + 1 }
  | .dispatchTimer =>
    if d.returned ∨ d.dispatchTimer = none then none
    else some { d with dispatchTimer := none, ready := d.ready ++ [.dispatchPendingActions] }
  | .metricsTimer =>
    if d.returned ∨ ¬ d.metricsTimer then none
    else some { d with metricsTimer := false, ready := d.ready ++ [.doRequestMetrics] }
  | .earlyStop => some { d with ready := d.ready ++ [.doShutdown] }
  | .finish =>
    if d.workGuard ∨ d.ready ≠ [] ∨ d.requesting ≠ [] ∨ d.dispatchTimer ≠ none ∨ d.metricsTimer then none
    else some { d with returned := true }
  | .task k => do
    let _ ← d.thread k
    let s ← d.orchestrator.shards[k]?
    let task ← s.inbox.head?
    let o ← d.orchestrator.step env (.task k)
    return { d with orchestrator := o }.write [.handled k task]
  | .handler k event => do
    let _ ← d.thread k
    let o ← d.orchestrator.step env (.handler k event)
    return { d with orchestrator := o }
  | .pull k counters => d.pull k counters
  | .exit k => do
    let t ← d.thread k
    let s ← d.orchestrator.shards[k]?
    if s.pool.closed then return (d.setThread k { t with status := .closed }).shardExitCallback else none
  | .fail k => do
    let t ← d.thread k
    return (d.setThread k { t with status := .failed }).shardExitCallback

end Dispatcher

end Loadshear
