import Loadshear.Dispatcher
import Loadshear.ShardMetrics

/-!
# The system with its counters

The dispatcher, where each shard has the counters that the sessions of its pool
write to, and a pull stores what these hold (`Shard::record_metrics`).
-/

namespace Loadshear

/-- What a handler of a session writes to the counters of its shard. -/
def Pool.recorded (env : SessionEnv) (p : Pool) (e : Pool.Event) : List Metric :=
  (p.turn e).elim [] fun t =>
    (t.slot.session.step env (t.now, t.event)).elim [] fun session =>
      session.metrics.drop t.slot.session.metrics.length

structure Metered where
  dispatcher : Dispatcher
  /-- The `metrics_` of each shard. -/
  meters : List ShardMetrics
  /-- The pool of each shard as its pulls found it; no part of the program. -/
  pulled : List (List Pool)

namespace Metered

def init (shardCount : Nat) : Metered :=
  ⟨.init shardCount, List.replicate shardCount {}, List.replicate shardCount []⟩

def step (env : OrchestratorEnv) (m : Metered) (e : Dispatcher.Event) : Option Metered :=
  match e with
  | .handler k event => do
    let s ← m.dispatcher.orchestrator.shards[k]?
    let meter ← m.meters[k]?
    let d ← m.dispatcher.step env (.handler k event)
    return { m with dispatcher := d, meters := m.meters.set k (meter.recordAll (s.pool.recorded env.session event)) }
  | .pull k counters => do
    let s ← m.dispatcher.orchestrator.shards[k]?
    let meter ← m.meters[k]?
    let pools ← m.pulled[k]?
    -- a pull has no other counters to store
    if counters = meter.fetchSnapshot then
      let d ← m.dispatcher.step env (.pull k counters)
      return { m with dispatcher := d, pulled := m.pulled.set k (pools ++ [s.pool]) }
    else none
  | e => do
    let d ← m.dispatcher.step env e
    return { m with dispatcher := d }

/-- The pools as the pulls of a round found them. -/
def round (j : Nat) (m : Metered) : List Pool := m.pulled.filterMap (·[j]?)

end Metered

/-- What the sessions of a pool have recorded. -/
def Pool.recordedSoFar (p : Pool) : List Metric := p.slots.flatMap (·.session.metrics)

end Loadshear
