import Mathlib.Data.List.Count
import Mathlib.Data.UInt

/-!
# The script data model

What the parser produces, the validator checks and the plan generator reads
(`script-structs.h`, `action-descriptor.h`). Fixed-width members keep their
width. `Memory` stands for the bytes that a default-initialised object leaves
as it found them: `SettingsBlock` and `Action` have members without an
initialiser.
-/

namespace Loadshear

inductive ActionType where
  | CREATE
  | CONNECT
  | SEND
  | FLOOD
  | DRAIN
  | DISCONNECT
deriving DecidableEq, Repr

/-- `second` is the end of an action's range and the length of a
modification's. -/
structure Range where
  start : UInt32
  second : UInt32
deriving DecidableEq, Repr

def Range.endFromLength (r : Range) : UInt32 := r.start + r.second

inductive ModificationType where
  | Counter
  | Timestamp
deriving DecidableEq, Repr

structure CounterModification where
  counterBytes : Range
  counterStep : UInt32
  littleEndian : Bool
deriving DecidableEq, Repr

structure TimestampModification where
  timestampBytes : Range
  littleEndian : Bool
  formatName : String
deriving DecidableEq, Repr

/-! ## Modifications of a SEND -/

/-- The three modification vectors of an `Action`. They only grow through
`push_modifier`, so `modOrder` names each entry of the other two once. -/
structure ModList where
  timestampMods : List TimestampModification
  counterMods : List CounterModification
  modOrder : List ModificationType
  timestamps_counted : modOrder.count .Timestamp = timestampMods.length
  counters_counted : modOrder.count .Counter = counterMods.length
deriving DecidableEq

namespace ModList

def empty : ModList := ⟨[], [], [], rfl, rfl⟩

/-- `push_modifier` for a timestamp. -/
def pushTimestamp (l : ModList) (m : TimestampModification) : ModList where
  timestampMods := l.timestampMods ++ [m]
  counterMods := l.counterMods
  modOrder := l.modOrder ++ [.Timestamp]
  timestamps_counted := by simp [l.timestamps_counted]
  counters_counted := by simp [l.counters_counted]

/-- `push_modifier` for a counter. -/
def pushCounter (l : ModList) (m : CounterModification) : ModList where
  timestampMods := l.timestampMods
  counterMods := l.counterMods ++ [m]
  modOrder := l.modOrder ++ [.Counter]
  timestamps_counted := by simp [l.timestamps_counted]
  counters_counted := by simp [l.counters_counted]

end ModList

/-! ## Actions and blocks -/

structure Action where
  type : ActionType
  count : UInt32
  range : Range
  offsetMs : UInt32
  packetIdentifier : String
  mods : ModList
deriving DecidableEq

structure SettingsBlock where
  identifier : String
  sessionProtocol : String
  headerSize : UInt32
  bodyMax : UInt32
  read : Bool
  repeat' : Bool
  packetSampleRate : UInt32
  shards : UInt32
  port : UInt16
  handlerValue : String
  endpoints : List String
  /-- An `unordered_map`: no two entries share an identifier. -/
  packetIdentifiers : List (String × String)
deriving DecidableEq

structure OrchestratorBlock where
  settingsIdentifier : String
  actions : List Action
deriving DecidableEq

structure DSLData where
  settings : SettingsBlock
  orchestrator : OrchestratorBlock
deriving DecidableEq

/-- `map[key] = value` on the association list of an `unordered_map`. -/
def mapAssign {α : Type} (key : String) (value : α) : List (String × α) → List (String × α)
  | [] => [(key, value)]
  | e :: rest => if e.1 = key then (key, value) :: rest else e :: mapAssign key value rest

/-! ## Action descriptors -/

structure ActionDescriptor where
  type : ActionType
  sessionsStart : UInt32
  sessionsEnd : UInt32
  count : UInt32
  /-- In milliseconds. -/
  offset : Nat
deriving DecidableEq, Repr

namespace ActionDescriptor

def makeCreate (d : ActionDescriptor) (start stop offsetMs : UInt32) : ActionDescriptor :=
  { d with type := .CREATE, sessionsStart := start, sessionsEnd := stop, count := stop - start,
           offset := offsetMs.toNat }

def makeConnect (d : ActionDescriptor) (start stop offsetMs : UInt32) : ActionDescriptor :=
  { d with type := .CONNECT, sessionsStart := start, sessionsEnd := stop, offset := offsetMs.toNat }

def makeSend (d : ActionDescriptor) (start stop sendCount offsetMs : UInt32) : ActionDescriptor :=
  { d with type := .SEND, sessionsStart := start, sessionsEnd := stop, count := sendCount,
           offset := offsetMs.toNat }

def makeFlood (d : ActionDescriptor) (start stop offsetMs : UInt32) : ActionDescriptor :=
  { d with type := .FLOOD, sessionsStart := start, sessionsEnd := stop, offset := offsetMs.toNat }

def makeDrain (d : ActionDescriptor) (start stop timeout offsetMs : UInt32) : ActionDescriptor :=
  { d with type := .DRAIN, sessionsStart := start, sessionsEnd := stop, count := timeout,
           offset := offsetMs.toNat }

def makeDisconnect (d : ActionDescriptor) (start stop offsetMs : UInt32) : ActionDescriptor :=
  { d with type := .DISCONNECT, sessionsStart := start, sessionsEnd := stop, offset := offsetMs.toNat }

end ActionDescriptor

/-! ## Uninitialised members -/

/-- The plain members of an `Action` before anything is assigned to them. -/
structure ActionMemory where
  type : ActionType
  count : UInt32
  range : Range
  offsetMs : UInt32

/-- What memory holds where a default-initialised object leaves a member
unset: `action n` under the `Action` declared at token `n`, `descriptor n`
under the `ActionDescriptor` of the `n`-th action. -/
structure Memory where
  headerSize : UInt32
  bodyMax : UInt32
  action : Nat → ActionMemory
  descriptor : Nat → ActionDescriptor

/-- Memory that was zeroed before. -/
def Memory.zero : Memory where
  headerSize := 0
  bodyMax := 0
  action _ := ⟨.CREATE, 0, ⟨0, 0⟩, 0⟩
  descriptor _ := ⟨.CREATE, 0, 0, 0, 0⟩

/-- `Action action;` -/
def ActionMemory.toAction (m : ActionMemory) : Action where
  type := m.type
  count := m.count
  range := m.range
  offsetMs := m.offsetMs
  packetIdentifier := ""
  mods := .empty

/-- `DSLData unvalidated_script;` -/
def Memory.toScript (m : Memory) : DSLData where
  settings :=
    { identifier := "", sessionProtocol := "", headerSize := m.headerSize, bodyMax := m.bodyMax,
      read := false, repeat' := false, packetSampleRate := 0, shards := 0, port := 0,
      handlerValue := "", endpoints := [], packetIdentifiers := [] }
  orchestrator := { settingsIdentifier := "", actions := [] }

end Loadshear
