import Loadshear.Orchestrator
import Loadshear.WASMSound

/-!
# Message handlers

What implements `message-handler-interface.h`, and the shards with it: the
thread of a shard makes one handler, which all its sessions call.
-/

namespace Loadshear

/-- A handler with a state of its own. -/
structure MessageHandler (σ : Type) where
  parseHeader : List UInt8 → σ → HeaderResult × σ
  /-- The packets that the callback is given. -/
  parseMessage : List UInt8 → List UInt8 → σ → List (List UInt8) × σ

def NOPMessageHandler : MessageHandler Unit where
  parseHeader _ h := (⟨0, true⟩, h)
  parseMessage _ _ h := ([[]], h)

variable {σ : Type}

/-- For a module that exports `handle_header`. -/
def WASMMessageHandler (guest : WASM.Guest σ) : MessageHandler (WASM.Instance σ) where
  parseHeader bytes g :=
    let run := (WASM.parseHeaderFunc guest bytes).run.run (.start g)
    match run.1 with
    | .ok result => (result, run.2.guest)
    | .error _ => (⟨0, false⟩, run.2.guest)
  parseMessage header body g :=
    let run := (WASM.parseMessage guest header body).run.run (.start g)
    (WASM.responses run.2.log, run.2.guest)

namespace MessageHandler

variable (m : MessageHandler σ)

/-- A header that was read is parsed. -/
def hear (op : ReadOp) (bytes : List UInt8) (header : HeaderResult) (h : σ) : Option σ :=
  if op.kind = .header then
    let (result, h') := m.parseHeader bytes h
    if result = header then some h' else none
  else some h

/-- What was handed over is answered. -/
def reply : List Message → σ → Option σ
  | [], h => some h
  | message :: rest, h =>
    let (packets, h') := m.parseMessage message.header message.body h
    if packets = [message.response] then reply rest h' else none

/-- A handler of a session, from `s` to `t`: what it was told of the header and
the response is what the message handler says. -/
def serve (s t : Session) : Loadshear.Event → σ → Option σ
  | .done (.read i (.data bytes header _)), h => do
    let op ← s.reads[i]?
    let h' ← m.hear op bytes header h
    m.reply (t.messages.drop s.messages.length) h'
  | _, h => some h

end MessageHandler

/-- The orchestrator with the handlers of its shards' threads. -/
structure Served (σ : Type) where
  orchestrator : Orchestrator
  handlers : List σ

namespace Served

/-- All handlers are made alike. -/
def init (shardCount : Nat) (h : σ) : Served σ := ⟨.init shardCount, List.replicate shardCount h⟩

def serveTurn (env : OrchestratorEnv) (m : MessageHandler σ) (k : Nat) (event : Pool.Event) (x : Served σ) : Option σ := do
  let h ← x.handlers[k]?
  let s ← x.orchestrator.shards[k]?
  let turn ← s.pool.turn event
  let session ← turn.slot.session.step env.session (turn.now, turn.event)
  m.serve turn.slot.session session turn.event h

def step (env : OrchestratorEnv) (m : MessageHandler σ) (x : Served σ) (e : Orchestrator.Event) : Option (Served σ) := do
  let o ← x.orchestrator.step env e
  match e with
  | .handler k event => do
    let h ← x.serveTurn env m k event
    return ⟨o, x.handlers.set k h⟩
  | _ => return { x with orchestrator := o }

end Served

end Loadshear
