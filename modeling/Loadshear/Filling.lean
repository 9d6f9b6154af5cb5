import Loadshear.Payload

/-!
# Payloads prepared at the same time

`fill_payload` as the threads of the shards run it: calls under way on one
manager, which share its counters. A step is one operation of one call, with at
most one `fetch_add`.
-/

namespace Loadshear

/-- A call of `fill_payload` with the operations it has yet to run. Its
counters are those it saw last. -/
structure Filling where
  index : Nat
  ops : List PacketOperation
  state : FillState
  /-- What `temps.reserve` left. -/
  capacity : Nat

/-- A `fetch_add` of a call on a counter of a payload. -/
structure Advance where
  call : Nat
  index : Nat
  counter : Nat
deriving DecidableEq

structure Preparation where
  manager : PayloadManager
  calls : List Filling
  /-- The advances so far, in the order in which they took place. -/
  history : List Advance

namespace Preparation

def start (payloads : List PayloadDescriptor) (steps : List (List UInt16)) : Preparation :=
  ⟨.make payloads steps, [], []⟩

/-- The call up to its first operation; one without a payload has returned. -/
def fill (index : Nat) (payload : PreparedPayload) (p : Preparation) : Preparation :=
  match p.manager.payloads[index]? with
  | none => p
  | some descriptor =>
    { p with calls := p.calls ++ [{
        index := index
        ops := descriptor.ops
        state := ⟨0, 0, [], [], []⟩
        capacity := max payload.tempsCapacity (totalTempBytes descriptor.ops) }] }

/-- The next operation of call `t`. -/
def runOp (t now : Nat) (p : Preparation) : Option Preparation := do
  let call ← p.calls[t]?
  match call.ops with
  | [] => none
  | op :: ops =>
    let counters := p.manager.counters.getD call.index []
    let s := fillOp (fun _ => now) { call.state with payloadCounter := counters } op
    return {
      manager := { p.manager with counters := p.manager.counters.set call.index s.payloadCounter }
      calls := p.calls.set t { call with ops := ops, state := s }
      history :=
        if op.type = .COUNTER then p.history ++ [⟨t, call.index, call.state.currentCounterIdx⟩] else p.history }

inductive Event where
  | fill (index : Nat) (payload : PreparedPayload)
  | op (call now : Nat)
deriving DecidableEq

def step (p : Preparation) : Event → Option Preparation
  | .fill index payload => some (p.fill index payload)
  | .op t now => p.runOp t now

end Preparation

end Loadshear
