import Loadshear.Session

/-!
# The session pool

`session-pool.h`, and what a shard runs on its thread: the actions it was
sent (`Shard::handle_action`), `shutdown`, and the handlers of the sessions.
The thread is one, so these take turns; the calls of a session are posted to
its strand, which runs them in order. `none` is an index outside a vector.
-/

namespace Loadshear

/-- A session with the calls that are posted and have not run. -/
structure Slot where
  calls : List Call
  session : Session
deriving DecidableEq

def Slot.init (env : SessionEnv) : Slot := ⟨[], .init env⟩

def Slot.post (c : Call) (slot : Slot) : Slot := { slot with calls := slot.calls ++ [c] }

structure Pool where
  slots : List Slot
  activeSessions : UInt64
  closed : Bool
  /-- How often `notify_closed_` was called. -/
  notified : Nat
deriving DecidableEq

/-- What is posted to a shard. -/
inductive Task where
  | action (action : ActionDescriptor)
  | shutdown
deriving DecidableEq

namespace Pool

def init : Pool := ⟨[], 0, false, 0⟩

/-! ## Calls on ranges -/

def createSessions (env : SessionEnv) (sessionCount : Nat) (p : Pool) : Pool × Bool :=
  if p.slots ≠ [] then (p, false)
  else ({ p with slots := List.replicate sessionCount (.init env) }, true)

def postAll (c : Call) : List Nat → List Slot → Option (List Slot)
  | [], slots => some slots
  | i :: rest, slots => do
    let slot ← slots[i]?
    postAll c rest (slots.set i (slot.post c))

/-- The body that all the `*_sessions_range` share. -/
def callRange (c : Call) (start stop : Nat) (p : Pool) : Option Pool :=
  if p.closed then some p
  else (postAll c (List.range' start (stop - start)) p.slots).map fun slots => { p with slots := slots }

def startSessionsRange (start stop : Nat) (p : Pool) : Option Pool :=
  if p.closed then some p
  else
    let counted := { p with
      activeSessions := p.activeSessions + (UInt64.ofNat stop - UInt64.ofNat start) }
    counted.callRange .start start stop

def sendSessionsRange (start stop n : Nat) (p : Pool) : Option Pool := p.callRange (.send n) start stop

def floodSessionsRange (start stop : Nat) (p : Pool) : Option Pool := p.callRange .flood start stop

def drainSessionsRange (start stop : Nat) (p : Pool) : Option Pool := p.callRange .drain start stop

def stopSessionsRange (start stop : Nat) (p : Pool) : Option Pool := p.callRange .stop start stop

def stopAllSessions (p : Pool) : Option Pool := p.stopSessionsRange 0 p.slots.length

def shutdown (p : Pool) : Option Pool :=
  if p.closed then some p
  else
    let closing := { p with closed := true }
    closing.stopAllSessions.map fun (q : Pool) =>
      if q.activeSessions = 0 then { q with notified := q.notified + 1 } else q

/-! ## Handlers -/

def disconnectCallback (p : Pool) : Pool :=
  let p := { p with activeSessions := p.activeSessions - 1 }
  if p.activeSessions = 0 ∧ p.closed then { p with notified := p.notified + 1 } else p

def disconnectCallbacks : Nat → Pool → Pool
  | 0, p => p
  | n + 1, p => disconnectCallbacks n p.disconnectCallback

/-- Slot `i` after a handler of its session; each close called back. -/
def update (i : Nat) (slot : Slot) (closes : Nat) (p : Pool) : Pool :=
  disconnectCallbacks closes { p with slots := p.slots.set i slot }

def handleAction (env : SessionEnv) (action : ActionDescriptor) (p : Pool) : Option Pool :=
  let start := action.sessionsStart.toNat
  let stop := action.sessionsEnd.toNat
  match action.type with
  | .CREATE => some (p.createSessions env (action.sessionsEnd - action.sessionsStart).toNat).1
  | .CONNECT => p.startSessionsRange start stop
  | .SEND => p.sendSessionsRange start stop action.count.toNat
  | .FLOOD => p.floodSessionsRange start stop
  | .DRAIN => p.drainSessionsRange start stop
  | .DISCONNECT => p.stopSessionsRange start stop

def handleTask (env : SessionEnv) : Task → Pool → Option Pool
  | .action a, p => p.handleAction env a
  | .shutdown, p => p.shutdown

/-- The next call of a strand, or a completion, in slot `i`. -/
inductive Event where
  | call (i now : Nat) (opened connected : Bool)
  | done (i now : Nat) (c : Completion)
deriving DecidableEq

/-- The slot whose handler runs, the calls left on its strand, and the handler. -/
structure Turn where
  i : Nat
  slot : Slot
  calls : List Call
  now : Nat
  event : Loadshear.Event

def turn (p : Pool) : Event → Option Turn
  | .call i now opened connected => do
    let slot ← p.slots[i]?
    match slot.calls with
    | [] => none
    | c :: calls => some ⟨i, slot, calls, now, .call c opened connected⟩
  | .done i now c => do
    let slot ← p.slots[i]?
    some ⟨i, slot, slot.calls, now, .done c⟩

def handle (env : SessionEnv) (p : Pool) (e : Event) : Option Pool := do
  let t ← p.turn e
  let session ← t.slot.session.step env (t.now, t.event)
  return p.update t.i ⟨t.calls, session⟩ (session.disconnects - t.slot.session.disconnects)

/-- One turn of the shard's thread. -/
def step (env : SessionEnv) (p : Pool) : Task ⊕ Event → Option Pool
  | .inl task => p.handleTask env task
  | .inr event => p.handle env event

end Pool

end Loadshear
