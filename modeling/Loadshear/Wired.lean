import Loadshear.Dispatcher
import Loadshear.Filling

/-!
# The sessions with their payloads

The dispatcher and the payload manager that all shards share. A handler that
writes a payload calls `fill_payload` and waits for it, while the threads of the
other shards go on.
-/

namespace Loadshear

/-- `current_payload_` as a call leaves it. -/
def Filling.prepared (call : Filling) : PreparedPayload where
  temps := call.state.temps
  tempsCapacity := call.capacity
  packetSlices := call.state.packetSlices

/-- The session whose handler runs, and its calls of `fill_payload`. -/
def Pool.fillCalls (env : SessionEnv) (p : Pool) (e : Pool.Event) : Option (Nat × List FillCall) := do
  let t ← p.turn e
  let session ← t.slot.session.step env (t.now, t.event)
  return (t.i, session.fills.drop t.slot.session.fills.length)

structure Wired where
  dispatcher : Dispatcher
  preparation : Preparation
  /-- The session of each call, by its shard and its place there. -/
  callers : List (Nat × Nat)

namespace Wired

def init (plan : ExecutionPlan) : Wired :=
  ⟨.init plan.shardCount, .start plan.payloads plan.counterSteps, []⟩

/-- The numbers of the calls of a session, in order. -/
def callsOf (x : Wired) (p : Nat × Nat) : List Nat :=
  (List.range x.callers.length).filter fun t => x.callers[t]? = some p

def currentPayload (x : Wired) (p : Nat × Nat) : PreparedPayload :=
  match (x.callsOf p).getLast?.bind (x.preparation.calls[·]?) with
  | some call => call.prepared
  | none => ⟨[], 0, []⟩

/-- The calls of the shard's thread have returned. -/
def returned (x : Wired) (k : Nat) : Bool :=
  (x.callers.zip x.preparation.calls).all fun (p, call) => p.1 ≠ k || call.ops.isEmpty

/-- A call of `fill_payload` by session `p`, up to its first operation. -/
def fill (p : Nat × Nat) (x : Wired) (f : FillCall) : Wired :=
  let preparation := x.preparation.fill f.index (x.currentPayload p)
  { x with
    preparation := preparation
    callers := x.callers ++ List.replicate (preparation.calls.length - x.preparation.calls.length) p }

/-- What runs on the thread of a shard, apart from the exception that ends it. -/
def threadOf : Dispatcher.Event → Option Nat
  | .task k | .handler k _ | .pull k _ | .exit k => some k
  | _ => none

inductive Event where
  | turn (e : Dispatcher.Event)
  /-- The next operation of a call of `fill_payload`. -/
  | op (call now : Nat)

/-- The calls of `fill_payload` that a turn comes to. -/
def fillAll (env : OrchestratorEnv) (x : Wired) : Dispatcher.Event → Option Wired
  | .handler k event => do
    let s ← x.dispatcher.orchestrator.shards[k]?
    let (i, fills) ← s.pool.fillCalls env.session event
    return fills.foldl (fill (k, i)) x
  | _ => some x

def step (env : OrchestratorEnv) (x : Wired) : Event → Option Wired
  | .turn e =>
    if (threadOf e).all x.returned then do
      let d ← x.dispatcher.step env e
      let y ← x.fillAll env e
      return { y with dispatcher := d }
    else none
  | .op t now => do
    let p ← x.callers[t]?
    let _ ← x.dispatcher.thread p.1
    let preparation ← x.preparation.runOp t now
    return { x with preparation := preparation }

end Wired

end Loadshear
