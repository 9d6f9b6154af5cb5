import Loadshear.Pool

/-!
# Shards and orchestrator

`shard.h` and `orchestrator.h` from the moment that every shard runs. A step is
one turn of a thread: the orchestrator hands out the next action that is due
or is told to stop, a shard runs the next task it was sent, or a session of it
runs a handler. When each happens is left open. Metrics and the forced stop
after 30 seconds are left out.
-/

namespace Loadshear

structure Shard where
  running : Bool
  inbox : List Task
  pool : Pool
deriving DecidableEq

namespace Shard

/-- The shard once its thread was started. -/
def start : Shard := ⟨true, [], .init⟩

/-- A shard that is not running drops the work. -/
def submitWork (action : ActionDescriptor) (s : Shard) : Shard :=
  if s.running then { s with inbox := s.inbox ++ [.action action] } else s

def stop (s : Shard) : Shard :=
  if s.running then { s with running := false, inbox := s.inbox ++ [.shutdown] } else s

end Shard

/-- What a run does not change. -/
structure OrchestratorEnv where
  actions : List ActionDescriptor
  session : SessionEnv

structure Orchestrator where
  shards : List Shard
  shardRanges : List (UInt32 × UInt32)
  currentActionIndx : Nat
  shutdown : Bool
deriving DecidableEq

namespace Orchestrator

def init (shardCount : Nat) : Orchestrator := ⟨List.replicate shardCount .start, [], 0, false⟩

/-! ## Distributing an action -/

/-- From index `i` on, with so many shards to go. -/
def splitFrom (base rem : UInt32) : Nat → UInt32 → UInt32 → List (UInt32 × UInt32)
  | 0, _, _ => []
  | k + 1, i, start =>
    let stop := start + (base + if i < rem then 1 else 0)
    (start, stop) :: splitFrom base rem k (i + 1) stop

def computeShardRanges (n k : UInt32) : List (UInt32 × UInt32) := splitFrom (n / k) (n % k) k.toNat 0 0

/-- The part of an action that falls to a shard, in the shard's own indices. -/
def shardAction (action : ActionDescriptor) (range : UInt32 × UInt32) : Option ActionDescriptor :=
  let lower := max action.sessionsStart range.1
  let upper := min action.sessionsEnd range.2
  if upper ≤ lower then none
  else
    let localStart := lower - range.1
    some { action with sessionsStart := localStart, sessionsEnd := localStart + (upper - lower) }

def submitTo (action : ActionDescriptor) (range : UInt32 × UInt32) (s : Shard) : Shard :=
  match shardAction action range with
  | none => s
  | some part => s.submitWork part

/-- `none` is a read behind the end of `shard_ranges_`. -/
def submitAll (action : ActionDescriptor) : List Shard → List (UInt32 × UInt32) → Option (List Shard)
  | [], _ => some []
  | _ :: _, [] => none
  | s :: shards, range :: ranges => (submitAll action shards ranges).map (submitTo action range s :: ·)

def distributeActionToShards (action : ActionDescriptor) (o : Orchestrator) : Option Orchestrator :=
  let ranges :=
    if action.type = .CREATE then computeShardRanges action.count (UInt32.ofNat o.shards.length)
    else o.shardRanges
  (submitAll action o.shards ranges).map fun shards => { o with shards := shards, shardRanges := ranges }

/-! ## Steps -/

def doShutdown (o : Orchestrator) : Orchestrator :=
  if o.shutdown then o else { o with shutdown := true, shards := o.shards.map Shard.stop }

/-- One pass of the loop of `dispatch_pending_actions`, or its end. -/
def dispatch (actions : List ActionDescriptor) (o : Orchestrator) : Option Orchestrator :=
  match actions[o.currentActionIndx]? with
  | none => some o.doShutdown
  | some action => (o.distributeActionToShards action).map fun o =>
    { o with currentActionIndx := o.currentActionIndx + 1 }

inductive Event where
  | dispatch
  | earlyStop
  | task (k : Nat)
  | handler (k : Nat) (event : Pool.Event)
deriving DecidableEq

def setShard (k : Nat) (s : Shard) (o : Orchestrator) : Orchestrator := { o with shards := o.shards.set k s }

def step (env : OrchestratorEnv) (o : Orchestrator) : Event → Option Orchestrator
  | .dispatch => o.dispatch env.actions
  | .earlyStop => some o.doShutdown
  | .task k => do
    let s ← o.shards[k]?
    match s.inbox with
    | [] => none
    | task :: inbox =>
      let pool ← s.pool.handleTask env.session task
      return o.setShard k { s with inbox := inbox, pool := pool }
  | .handler k event => do
    let s ← o.shards[k]?
    let pool ← s.pool.handle env.session event
    return o.setShard k { s with pool := pool }

end Orchestrator

/-! ## From the plan -/

def SettingsBlock.transport (settings : SettingsBlock) : Transport :=
  if settings.sessionProtocol = "TCP" then .TCP else .UDP

def ExecutionPlan.orchestratorEnv (plan : ExecutionPlan) (settings : SettingsBlock) : OrchestratorEnv where
  actions := plan.actions
  session := ⟨settings.transport, plan.config, plan.payloads⟩

end Loadshear
