import Loadshear.Plan

/-!
# Sessions

`tcp-session.cpp` and `udp-session.cpp` as one state machine. A step is one
handler run on the strand: a call that was posted, or the completion of an
operation. `connects`, `reads`, `writes` and `posts` are the handlers that are
still to come, each with the number of the `start` it belongs to (`gen`);
nothing is assumed of their order, nor of how they end. Time is an input.
-/

namespace Loadshear

inductive Transport where
  | TCP
  | UDP
deriving DecidableEq

structure SessionEnv where
  transport : Transport
  config : SessionConfig
  payloads : List PayloadDescriptor

def messageBufferSize : Nat := 4 * 1024

def maxDatagramSize : Nat := 65535 - 8

/-- The public functions, each a post to the strand. -/
inductive Call where
  | start
  | flood
  -- a `size_t`; it is the 32-bit number of COPIES of a SEND
  | send (n : Nat)
  | drain
  | stop
deriving DecidableEq

/-- What a write puts on the wire: a response, or the payload at an index. -/
inductive Begun where
  | response (packet : List UInt8)
  | payload (index : Nat)
deriving DecidableEq

inductive Metric where
  | connectionAttempt
  | connectionFail
  | connectionSuccess
  | connectionLatency (us : Nat)
  | sendLatency (us : Nat)
  | readLatency (us : Nat)
  | bytesSent (count : Nat)
  | bytesRead (count : Nat)
deriving DecidableEq

structure ConnectOp where
  gen : Nat
  connStart : Nat
deriving DecidableEq

/-- Where `body_buffer_ptr_` points to. -/
inductive BodyBuffer where
  | array
  | vector
deriving DecidableEq

inductive ReadKind where
  | header
  | body (buffer : BodyBuffer)
  | datagram
deriving DecidableEq

structure HeaderResult where
  length : Nat
  ok : Bool
deriving DecidableEq

/-- How a read ends, with what the message handler makes of the bytes. -/
inductive ReadOutcome where
  | error
  | data (bytes : List UInt8) (header : HeaderResult) (response : List UInt8)
deriving DecidableEq

structure ReadOp where
  gen : Nat
  kind : ReadKind
  size : Nat
deriving DecidableEq

/-- A composed read ends with all the bytes that were asked for, a datagram
with at most as many. -/
def ReadOp.Fits (op : ReadOp) : ReadOutcome → Prop
  | .error => True
  | .data bytes _ _ => if op.kind = .datagram then bytes.length ≤ op.size else bytes.length = op.size

instance (op : ReadOp) : ∀ outcome, Decidable (op.Fits outcome)
  | .error => inferInstanceAs (Decidable True)
  | .data bytes _ _ =>
    inferInstanceAs (Decidable (if op.kind = .datagram then bytes.length ≤ op.size else bytes.length = op.size))

structure WriteOp where
  gen : Nat
  what : Begun
deriving DecidableEq

/-- A call of `fill_payload`, with the number of writes in flight. -/
structure FillCall where
  index : Nat
  inFlight : Nat
deriving DecidableEq

/-- What `parse_message` was given, and its response. -/
structure Message where
  header : List UInt8
  body : List UInt8
  response : List UInt8
deriving DecidableEq

/-- The handler that `handle_message` posts with the response. -/
structure PostOp where
  gen : Nat
  response : List UInt8
deriving DecidableEq

/-- An operation completes; the index says which. -/
inductive Completion where
  | connected (i : Nat) (ok : Bool)
  | wrote (i : Nat) (sent : Option Nat)
  | read (i : Nat) (outcome : ReadOutcome)
  | responded (i : Nat)
deriving DecidableEq

/-- What runs next on the strand. The flags say how `open` and `connect` end,
which only the `start` of a `UDPSession` calls in its handler. -/
inductive Event where
  | call (c : Call) (opened connected : Bool)
  | done (c : Completion)
deriving DecidableEq

def Event.isStart : Event → Bool
  | .call .start .. => true
  | _ => false

def Event.call? : Event → Option Call
  | .call c .. => some c
  | .done _ => none

structure Session where
  live : Bool
  connecting : Bool
  flood : Bool
  draining : Bool
  writing : Bool
  socketOpen : Bool
  incomingHeader : List UInt8
  nextPayloadSize : Nat
  /-- The array, as far as it was written. -/
  bodyBuffer : List UInt8
  largeBodyBuffer : List UInt8
  bodyBufferPtr : Option BodyBuffer
  responses : List (List UInt8)
  nextPayloadIndex : Nat
  -- a `size_t` that adds up 32-bit numbers of copies, so it takes 2^32 SENDs to wrap it
  writesQueued : Nat
  writeSampleCounter : UInt32
  readSampleCounter : UInt32
  writeStartTime : Nat
  readStartTime : Nat
  connects : List ConnectOp
  reads : List ReadOp
  writes : List WriteOp
  posts : List PostOp
  /-- What happened so far. -/
  gen : Nat
  begun : List Begun
  fills : List FillCall
  messages : List Message
  metrics : List Metric
  disconnects : Nat
deriving DecidableEq

namespace Session

def init (env : SessionEnv) : Session where
  live := false
  connecting := false
  flood := false
  draining := false
  writing := false
  socketOpen := false
  incomingHeader := List.replicate env.config.headerSize 0
  nextPayloadSize := 0
  bodyBuffer := []
  largeBodyBuffer := []
  bodyBufferPtr := none
  responses := []
  nextPayloadIndex := 0
  writesQueued := 0
  writeSampleCounter := env.config.packetSampleRate
  readSampleCounter := env.config.packetSampleRate
  writeStartTime := 0
  readStartTime := 0
  connects := []
  reads := []
  writes := []
  posts := []
  gen := 0
  begun := []
  fills := []
  messages := []
  metrics := []
  disconnects := 0

def record (s : Session) (m : Metric) : Session := { s with metrics := s.metrics ++ [m] }

/-- The operations that are cancelled here still complete. -/
def closeSession (s : Session) : Session :=
  if s.live then { s with socketOpen := false, live := false, disconnects := s.disconnects + 1 } else s

/-! ## Writing -/

/-- From `writing_ = true` to the `async_write`. -/
def beginWrite (env : SessionEnv) (now : Nat) (s : Session) (what : Begun) : Session :=
  { s with
    writing := true
    writeSampleCounter := s.writeSampleCounter + 1
    writeStartTime := if env.config.packetSampleRate ≤ s.writeSampleCounter + 1 then now else s.writeStartTime
    writes := s.writes ++ [⟨s.gen, what⟩]
    begun := s.begun ++ [what] }

def stopWriting (s : Session) : Session :=
  let s := { s with writing := false }
  if s.draining then s.closeSession else s

/-- `fill_payload` on `current_payload_`, which is false behind the last index. -/
def fillPayload (s : Session) : Session :=
  { s with fills := s.fills ++ [⟨s.nextPayloadIndex, s.writes.length⟩] }

/-- `none` is a call that nests deeper than the fuel. -/
def doWrite (env : SessionEnv) (now : Nat) : Nat → Session → Option Session
  | 0, _ => none
  | fuel + 1, s =>
    match s.responses with
    | packet :: rest => some ({ s with responses := rest }.beginWrite env now (.response packet))
    | [] =>
      if s.flood ∨ 0 < s.writesQueued then
        let s := s.fillPayload
        if s.nextPayloadIndex < env.payloads.length then
          some ({ s with
            writesQueued := if s.flood then s.writesQueued else s.writesQueued - 1
            nextPayloadIndex := s.nextPayloadIndex + 1 }.beginWrite env now (.payload s.nextPayloadIndex))
        else if env.config.loopPayloads ∧ ¬ s.draining then
          doWrite env now fuel { s with nextPayloadIndex := 0 }
        else some s.stopWriting
      else some s.stopWriting

/-- One nested call is all that any state needs, unless there is no payload
at all (`doWrite_fuel`). -/
def write (env : SessionEnv) (now : Nat) (s : Session) : Option Session := s.doWrite env now 2

def tryStartWrite (env : SessionEnv) (now : Nat) (s : Session) : Option Session :=
  if s.writing then some s
  else if s.flood ∨ 0 < s.writesQueued ∨ s.responses ≠ [] then s.write env now
  else if s.draining then some s.closeSession
  else some s

/-- The handler of a write. -/
def wrote (env : SessionEnv) (now : Nat) (s : Session) : Option Nat → Option Session
  | none => some s.closeSession
  | some count =>
    let s := s.record (.bytesSent count)
    let s :=
      if env.config.packetSampleRate < s.writeSampleCounter then
        let s := s.record (.sendLatency ((now - s.writeStartTime) / 1000))
        { s with writeSampleCounter := 0 }
      else s
    s.write env now

/-! ## Reading -/

/-- `do_read_header` and, over UDP, `do_read`. -/
def doRead (env : SessionEnv) (now : Nat) (s : Session) : Session :=
  { s with
    readSampleCounter := s.readSampleCounter + 1
    readStartTime := if env.config.packetSampleRate ≤ s.readSampleCounter + 1 then now else s.readStartTime
    reads := s.reads ++
      [match env.transport with
        | .TCP => ⟨s.gen, .header, env.config.headerSize⟩
        | .UDP => ⟨s.gen, .datagram, min env.config.payloadSizeLimit maxDatagramSize⟩] }

/-- The message handler calls back once, before it returns. -/
def handleMessage (s : Session) (header body response : List UInt8) : Session :=
  { s with messages := s.messages ++ [⟨header, body, response⟩], posts := s.posts ++ [⟨s.gen, response⟩] }

/-- The `next_payload_size_` bytes behind `body_buffer_ptr_`. -/
def bodyBytes (s : Session) : List UInt8 :=
  match s.bodyBufferPtr with
  | none => []
  | some .array => s.bodyBuffer.take s.nextPayloadSize
  | some .vector => s.largeBodyBuffer.take s.nextPayloadSize

def doReadBody (s : Session) (response : List UInt8) : Session :=
  if s.nextPayloadSize = 0 then s.handleMessage s.incomingHeader s.bodyBytes response
  else if messageBufferSize < s.nextPayloadSize then
    { s with
      largeBodyBuffer := resize s.largeBodyBuffer s.nextPayloadSize
      bodyBufferPtr := some .vector
      reads := s.reads ++ [⟨s.gen, .body .vector, s.nextPayloadSize⟩] }
  else
    { s with
      bodyBufferPtr := some .array
      reads := s.reads ++ [⟨s.gen, .body .array, s.nextPayloadSize⟩] }

/-- A read fills a buffer from its start. -/
def storeBody (s : Session) (bytes : List UInt8) : BodyBuffer → Session
  | .array => { s with bodyBuffer := bytes ++ s.bodyBuffer.drop bytes.length }
  | .vector => { s with largeBodyBuffer := bytes ++ s.largeBodyBuffer.drop bytes.length }

def sampleRead (env : SessionEnv) (now : Nat) (s : Session) : Session :=
  if env.config.packetSampleRate < s.readSampleCounter then
    let s := s.record (.readLatency ((now - s.readStartTime) / 1000))
    { s with readSampleCounter := 0 }
  else s

/-- The handler of a read. -/
def readDone (env : SessionEnv) (now : Nat) (s : Session) (kind : ReadKind) : ReadOutcome → Session
  | .error => s.closeSession
  | .data bytes header response =>
    let s := s.record (.bytesRead bytes.length)
    match kind with
    | .header =>
      let s := { s with incomingHeader := bytes }
      if !header.ok then { s with nextPayloadSize := 0 }.doRead env now
      else if env.config.payloadSizeLimit < header.length then
        { s with nextPayloadSize := header.length }.closeSession
      else { s with nextPayloadSize := header.length }.doReadBody response
    | .body buffer =>
      let s := (s.storeBody bytes buffer).sampleRead env now
      s.handleMessage s.incomingHeader s.bodyBytes response
    | .datagram =>
      if env.config.payloadSizeLimit < bytes.length then s.closeSession
      else (s.sampleRead env now).handleMessage [] bytes response

/-- The handler that `handle_message` posts. -/
def responded (env : SessionEnv) (now : Nat) (s : Session) (response : List UInt8) : Option Session :=
  let queued := { s with responses := s.responses ++ [response] }
  let started := if 0 < response.length then queued.tryStartWrite env now else some s
  started.map (doRead env now)

/-! ## Connecting -/

def startReading (env : SessionEnv) (now : Nat) (s : Session) : Session :=
  if env.config.readMessages then s.doRead env now else s

def onConnect (env : SessionEnv) (now : Nat) (s : Session) : Option Session :=
  let s := s.startReading env now
  if s.writing then some s
  else if s.flood ∨ 0 < s.writesQueued then s.write env now
  else some s

/-- The handler of `start`. An open socket cannot be opened again. -/
def runStart (env : SessionEnv) (now : Nat) (opened connected : Bool) (s : Session) : Option Session :=
  let s := { s with live := true, gen := s.gen + 1 }.record .connectionAttempt
  match env.transport with
  | .TCP => some { s with connecting := true, connects := s.connects ++ [⟨s.gen, now⟩] }
  | .UDP =>
    if !(opened && !s.socketOpen) then some (s.record .connectionFail).closeSession
    else
      let s := { s with socketOpen := true }
      if !connected then some (s.record .connectionFail).closeSession
      else (s.record .connectionSuccess).onConnect env now

/-- The handler of `async_connect`. -/
def connectDone (env : SessionEnv) (now : Nat) (s : Session) (connStart : Nat) (ok : Bool) : Option Session :=
  let s := { s with connecting := false }
  if !ok then some (s.record .connectionFail).closeSession
  else ((s.record (.connectionLatency ((now - connStart) / 1000))).record .connectionSuccess).onConnect env now

/-! ## Calls -/

/-- `live_ && !connecting_`; `connecting_` is never set over UDP. -/
def ready (s : Session) : Bool := s.live && !s.connecting

def runFlood (env : SessionEnv) (now : Nat) (s : Session) : Option Session :=
  if s.flood ∨ s.draining then some s
  else if s.ready then { s with flood := true }.tryStartWrite env now
  else some { s with flood := true }

def runSend (env : SessionEnv) (now : Nat) (n : Nat) (s : Session) : Option Session :=
  let s := { s with writesQueued := s.writesQueued + n }
  if s.ready then s.tryStartWrite env now else some s

def runDrain (s : Session) : Session :=
  let s := { s with draining := true }
  if ¬ s.writing ∧ s.writesQueued = 0 ∧ s.responses = [] then s.closeSession else s

def runCall (env : SessionEnv) (now : Nat) (opened connected : Bool) (s : Session) : Call → Option Session
  | .start => s.runStart env now opened connected
  | .flood => s.runFlood env now
  | .send n => s.runSend env now n
  | .drain => some s.runDrain
  | .stop => some s.closeSession

/-! ## Steps -/

def complete (env : SessionEnv) (now : Nat) (s : Session) : Completion → Option Session
  | .connected i ok => do
    let op ← s.connects[i]?
    { s with connects := s.connects.eraseIdx i }.connectDone env now op.connStart ok
  | .wrote i sent => do
    let _ ← s.writes[i]?
    { s with writes := s.writes.eraseIdx i }.wrote env now sent
  | .read i outcome => do
    let op ← s.reads[i]?
    if op.Fits outcome then
      some ({ s with reads := s.reads.eraseIdx i }.readDone env now op.kind outcome)
    else none
  | .responded i => do
    let op ← s.posts[i]?
    { s with posts := s.posts.eraseIdx i }.responded env now op.response

/-- One handler on the strand, at a time. -/
def step (env : SessionEnv) (s : Session) : Nat × Event → Option Session
  | (now, .call c opened connected) => s.runCall env now opened connected c
  | (now, .done c) => s.complete env now c

/-- A session that reads nothing, over one payload that is sent once. -/
def onePayload (transport : Transport) : SessionEnv where
  transport := transport
  config := ⟨0, 0, false, false, 1000⟩
  payloads := [⟨[0], [makeIdentity 1]⟩]

end Session

end Loadshear
