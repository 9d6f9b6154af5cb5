import Mathlib.Data.List.Basic
import Mathlib.Data.UInt

/-!
# Payloads

`payload-structs.h` and `payload-manager.cpp`. A slice names the bytes it
shows, in the packet or in `temps`, so that what a write would read can be
compared with what is there.
-/

namespace Loadshear

inductive PacketOperationType where
  | IDENTITY
  | COUNTER
  | TIMESTAMP
deriving DecidableEq, Repr

inductive TimestampFormat where
  | Seconds
  | Milliseconds
  | Microseconds
  | Nanoseconds
deriving DecidableEq, Repr

structure PacketOperation where
  type : PacketOperationType
  length : UInt32
  littleEndian : Bool
  timeFormat : TimestampFormat
deriving DecidableEq, Repr

def makeIdentity (len : UInt32) : PacketOperation := ⟨.IDENTITY, len, false, .Seconds⟩

def makeCounter (len : UInt32) (littleEnd : Bool) : PacketOperation := ⟨.COUNTER, len, littleEnd, .Seconds⟩

def makeTimestamp (len : UInt32) (littleEnd : Bool) (format : TimestampFormat) : PacketOperation :=
  ⟨.TIMESTAMP, len, littleEnd, format⟩

structure PayloadDescriptor where
  packetData : List UInt8
  ops : List PacketOperation
deriving DecidableEq

structure PayloadCounter where
  counter : UInt64
  step : UInt16
deriving DecidableEq

structure PayloadManager where
  payloads : List PayloadDescriptor
  counters : List (List PayloadCounter)
deriving DecidableEq

/-- The constructor; a short step list is filled up with empty entries. -/
def PayloadManager.make (payloads : List PayloadDescriptor) (steps : List (List UInt16)) :
    PayloadManager where
  payloads := payloads
  counters := (List.range payloads.length).map fun p => (steps.getD p []).map fun step => ⟨0, step⟩

/-! ## Numbers on the wire -/

/-- Byte `i` of a number as a little endian host stores it. -/
def byteAt (v : UInt64) (i : Nat) : UInt8 := (v >>> UInt64.ofNat (8 * i)).toUInt8

/-- `std::memcpy` of the low `n` bytes. -/
def storeBytes (v : UInt64) (n : Nat) : List UInt8 := (List.range n).map (byteAt v)

/-- `__builtin_bswap64` and `__builtin_bswap32`, for 8 and 4 bytes. -/
def bswap (n : Nat) (v : UInt64) : UInt64 :=
  (List.range n).foldl (fun acc i => acc ||| ((byteAt v i).toUInt64 <<< UInt64.ofNat (8 * (n - 1 - i)))) 0

def writeNumeric (rawNumeric : UInt64) (length : UInt32) (littleEndian : Bool) : List UInt8 :=
  if length = 8 then
    storeBytes (if littleEndian then rawNumeric else bswap 8 rawNumeric) 8
  else if length = 4 then
    let val32Bit := rawNumeric.toUInt32.toUInt64
    storeBytes (if littleEndian then val32Bit else bswap 4 val32Bit) 4
  else
    (List.range length.toNat).map fun i =>
      byteAt rawNumeric (if littleEndian then i else length.toNat - 1 - i)

/-- `duration_cast` of nanoseconds since the epoch. -/
def TimestampFormat.ofNanoseconds (format : TimestampFormat) (ns : Nat) : UInt64 :=
  match format with
  | .Seconds => UInt64.ofNat (ns / 10 ^ 9)
  | .Milliseconds => UInt64.ofNat (ns / 10 ^ 6)
  | .Microseconds => UInt64.ofNat (ns / 10 ^ 3)
  | .Nanoseconds => UInt64.ofNat ns

/-! ## Filling a payload -/

inductive Slice where
  | packet (offset : Nat) (length : UInt32)
  | temps (offset : Nat) (length : UInt32)
deriving DecidableEq

structure PreparedPayload where
  temps : List UInt8
  tempsCapacity : Nat
  packetSlices : List Slice
deriving DecidableEq

/-- The running positions of the loop over the operations. -/
structure FillState where
  currentOffset : Nat
  currentCounterIdx : Nat
  temps : List UInt8
  packetSlices : List Slice
  payloadCounter : List PayloadCounter

def FillState.pushNumeric (s : FillState) (op : PacketOperation) (value : UInt64) : FillState :=
  { s with
    currentOffset := s.currentOffset + op.length.toNat
    temps := s.temps ++ writeNumeric value op.length op.littleEndian
    packetSlices := s.packetSlices ++ [.temps s.temps.length op.length] }

/-- One operation; `clock n` is the system clock at the `n`-th one. -/
def fillOp (clock : Nat → Nat) (s : FillState) (op : PacketOperation) : FillState :=
  match op.type with
  | .IDENTITY =>
    { s with
      currentOffset := s.currentOffset + op.length.toNat
      packetSlices := s.packetSlices ++ [.packet s.currentOffset op.length] }
  | .COUNTER =>
    let currCounter := s.payloadCounter.getD s.currentCounterIdx ⟨0, 0⟩
    let advanced := { currCounter with counter := currCounter.counter + currCounter.step.toUInt64 }
    { s with
      currentCounterIdx := s.currentCounterIdx + 1
      payloadCounter := s.payloadCounter.set s.currentCounterIdx advanced }.pushNumeric op currCounter.counter
  | .TIMESTAMP =>
    s.pushNumeric op (op.timeFormat.ofNanoseconds (clock s.packetSlices.length))

/-- Bytes that do not come from the packet. -/
def totalTempBytes (ops : List PacketOperation) : Nat :=
  ((ops.filter (·.type ≠ .IDENTITY)).map (·.length.toNat)).sum

def fillOps (clock : Nat → Nat) (counters : List PayloadCounter) (ops : List PacketOperation) : FillState :=
  ops.foldl (fillOp clock) ⟨0, 0, [], [], counters⟩

/-- `fill_payload`; `none` is `false`, where nothing was touched. -/
def PayloadManager.fillPayload (m : PayloadManager) (clock : Nat → Nat) (index : Nat)
    (payload : PreparedPayload) : Option (PayloadManager × PreparedPayload) :=
  match m.payloads[index]? with
  | none => none
  | some descriptor =>
    let s := fillOps clock (m.counters.getD index []) descriptor.ops
    some
      ({ m with counters := m.counters.set index s.payloadCounter },
       { temps := s.temps
         tempsCapacity := max payload.tempsCapacity (totalTempBytes descriptor.ops)
         packetSlices := s.packetSlices })

theorem PayloadManager.fillPayload_isSome (m : PayloadManager) (clock : Nat → Nat) (index : Nat)
    (payload : PreparedPayload) :
    (m.fillPayload clock index payload).isSome ↔ index < m.payloads.length := by
  unfold PayloadManager.fillPayload
  cases h : m.payloads[index]? with
  | none => simpa using h
  | some d => simpa using (List.getElem?_eq_some_iff.mp h).1

end Loadshear
