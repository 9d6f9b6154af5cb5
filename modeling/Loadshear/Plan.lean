import Loadshear.Interpreter
import Loadshear.Payload

/-!
# The plan generator

`generate_plan_common` of `execution-plan.cpp`, without the host data and the
message handler factory that it only passes on. `size_t` is 64 bits wide and
its subtractions wrap.
-/

namespace Loadshear

structure SessionConfig where
  headerSize : Nat
  payloadSizeLimit : Nat
  readMessages : Bool
  loopPayloads : Bool
  packetSampleRate : UInt32
deriving DecidableEq, Repr

structure ExecutionPlan where
  actions : List ActionDescriptor
  payloads : List PayloadDescriptor
  counterSteps : List (List UInt16)
  config : SessionConfig
  shardCount : Nat
  packetData : List (List UInt8)
deriving DecidableEq

def tsFormatLookup : List (String × TimestampFormat) :=
  [("seconds", .Seconds), ("milliseconds", .Milliseconds), ("microseconds", .Microseconds),
   ("nanoseconds", .Nanoseconds)]

def SettingsBlock.sessionConfig (settings : SettingsBlock) : SessionConfig where
  headerSize := settings.headerSize.toNat
  payloadSizeLimit := settings.bodyMax.toNat
  readMessages := settings.read
  loopPayloads := settings.repeat'
  packetSampleRate := settings.packetSampleRate

/-! ## Reading the packets -/

structure PacketTable where
  identityMap : List (String × Nat) := []
  allPackets : List String := []
  packetData : List (List UInt8) := []

/-- A path that was not seen before: allocate, read, remember. -/
def loadPacket (env : Env) (identifier path : String) (t : PacketTable) : ParseResult PacketTable :=
  let fileSize := env.fileSize path
  if fileSize = 0 then .error ("File " ++ path ++ " has zero bytes to read!")
  else if !env.canAllocate fileSize then
    .error ("Failed to allocate memory (" ++ toString fileSize ++ " bytes) for packet file " ++ path)
  else match env.readBytes path fileSize.toNat with
  | none =>
    .error ("Failed to read data for packet " ++ path ++ " (got error: Failed to read file " ++ path ++ ")")
  | some buf => .ok
    { identityMap := mapAssign identifier t.packetData.length t.identityMap
      allPackets := path :: t.allPackets
      packetData := t.packetData ++ [buf] }

def loadPackets (env : Env) : List (String × String) → PacketTable → ParseResult PacketTable
  | [], t => .ok t
  | (identifier, filename) :: rest, t =>
    match resolveFile env filename with
    | .error message =>
      .error ("Failed to resolve " ++ filename ++ " (got error: " ++ message ++ ")")
    | .ok path =>
      if path ∈ t.allPackets then
        -- The lookup goes by file name in a map of identifiers.
        match t.identityMap.lookup filename with
        | none =>
          .error ("Application identified a packet as a duplicate but no memory was allocated. "
            ++ "This is an error with the application code.")
        | some index =>
          loadPackets env rest { t with identityMap := mapAssign identifier index t.identityMap }
      else do loadPackets env rest (← loadPacket env identifier path t)

/-! ## The payload of a SEND -/

instance : Inhabited CounterModification := ⟨⟨⟨0, 0⟩, 0, false⟩⟩

instance : Inhabited TimestampModification := ⟨⟨⟨0, 0⟩, false, ""⟩⟩

/-- The running values of the loop over `mod_order`. -/
structure SendState where
  ops : List PacketOperation := []
  counterList : List UInt16 := []
  tsIdx : Nat := 0
  cIdx : Nat := 0
  dataIndex : UInt64 := 0
deriving DecidableEq

/-- `size_t prev_bytes = start - data_index`, and its identity operation. -/
def SendState.pushPrevious (st : SendState) (start : UInt32) : SendState :=
  let prevBytes := start.toUInt64 - st.dataIndex
  if 0 < prevBytes then
    { st with
      ops := st.ops ++ [makeIdentity prevBytes.toUInt32]
      dataIndex := st.dataIndex + prevBytes }
  else st

def addCounterOp (st : SendState) (m : CounterModification) : SendState :=
  let st := st.pushPrevious m.counterBytes.start
  { st with
    ops := st.ops ++ [makeCounter m.counterBytes.second m.littleEndian]
    counterList := st.counterList ++ [m.counterStep.toUInt16]
    cIdx := st.cIdx + 1
    dataIndex := st.dataIndex + m.counterBytes.second.toUInt64 }

def addTimestampOp (st : SendState) (m : TimestampModification) : ParseResult SendState :=
  let st := st.pushPrevious m.timestampBytes.start
  match tsFormatLookup.lookup m.formatName with
  | none =>
    .error ("Failed to resolve timestamp format for value " ++ m.formatName
      ++ " (this should have been caught by the DSL validator)")
  | some format => .ok
    { st with
      ops := st.ops ++ [makeTimestamp m.timestampBytes.second m.littleEndian format]
      tsIdx := st.tsIdx + 1
      dataIndex := st.dataIndex + m.timestampBytes.second.toUInt64 }

/-- One pass of the loop; `ModList` keeps both indices in range. -/
def addModification (mods : ModList) (st : SendState) : ModificationType → ParseResult SendState
  | .Counter => .ok (addCounterOp st (mods.counterMods.getD st.cIdx default))
  | .Timestamp => addTimestampOp st (mods.timestampMods.getD st.tsIdx default)

def addModifications (mods : ModList) (order : List ModificationType) : ParseResult SendState :=
  order.foldlM (addModification mods) {}

/-- The bytes behind the last modification. -/
def SendState.pushRemaining (st : SendState) (size : UInt64) : List PacketOperation :=
  if st.dataIndex < size then st.ops ++ [makeIdentity (size - st.dataIndex).toUInt32] else st.ops

/-- Operations and counter steps of one SEND on a packet. -/
def sendOperations (mods : ModList) (buf : List UInt8) :
    ParseResult (List PacketOperation × List UInt16) :=
  let size := UInt64.ofNat buf.length
  if mods.modOrder = [] then .ok ([makeIdentity size.toUInt32], [])
  else do
    let st ← addModifications mods mods.modOrder
    return (st.pushRemaining size, st.counterList)

/-! ## The plan -/

structure PlanState where
  currOffset : UInt64 := 0
  actions : List ActionDescriptor := []
  payloads : List PayloadDescriptor := []
  counterSteps : List (List UInt16) := []

def planSend (table : PacketTable) (action : Action) : ParseResult (PayloadDescriptor × List UInt16) :=
  match table.identityMap.lookup action.packetIdentifier with
  | none =>
    .error ("Failed to map packet identity " ++ action.packetIdentifier
      ++ " to a read packet. This could be an error with the application.")
  | some index => do
    let buf := table.packetData.getD index []
    let (ops, counterList) ← sendOperations action.mods buf
    return (⟨buf, ops⟩, counterList)

/-- One pass of the loop over the actions; the offset is narrowed to 32 bits
by every `make_*`. -/
def planAction (table : PacketTable) (desc : ActionDescriptor) (st : PlanState) (action : Action) :
    ParseResult PlanState :=
  let offset := st.currOffset + action.offsetMs.toUInt64
  let push (d : ActionDescriptor) : PlanState :=
    { st with currOffset := offset, actions := st.actions ++ [d] }
  match action.type with
  | .CREATE => .ok (push (desc.makeCreate 0 action.range.second offset.toUInt32))
  | .CONNECT => .ok (push (desc.makeConnect action.range.start action.range.second offset.toUInt32))
  | .SEND => do
    let (payload, counterList) ← planSend table action
    let d := desc.makeSend action.range.start action.range.second action.count offset.toUInt32
    return { push d with
      payloads := st.payloads ++ List.replicate action.count.toNat payload
      counterSteps := st.counterSteps ++ List.replicate action.count.toNat counterList }
  | .FLOOD => .ok (push (desc.makeFlood action.range.start action.range.second offset.toUInt32))
  | .DRAIN =>
    .ok (push (desc.makeDrain action.range.start action.range.second action.count offset.toUInt32))
  | .DISCONNECT =>
    .ok (push (desc.makeDisconnect action.range.start action.range.second offset.toUInt32))

def planActions (memory : Memory) (table : PacketTable) :
    Nat → PlanState → List Action → ParseResult PlanState
  | _, st, [] => .ok st
  | i, st, action :: rest => do
    let st ← planAction table (memory.descriptor i) st action
    planActions memory table (i + 1) st rest

def generatePlanCommon (env : Env) (memory : Memory) (script : DSLData) : ParseResult ExecutionPlan := do
  let table ← loadPackets env script.settings.packetIdentifiers {}
  let st ← planActions memory table 0 {} script.orchestrator.actions
  return {
    actions := st.actions
    payloads := st.payloads
    counterSteps := st.counterSteps
    config := script.settings.sessionConfig
    shardCount := script.settings.shards.toNat
    packetData := table.packetData }

end Loadshear
