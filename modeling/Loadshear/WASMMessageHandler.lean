import Loadshear.Effects
import Loadshear.Session

/-!
# The WASM message handler

`wasm-message-handler.cpp` over a guest that may do anything its signatures
allow: answer with any value, trap, and change or grow its memory at any call.
The host's accesses to the guest's memory go through the view that it fetched.
-/

namespace Loadshear

namespace WASM

/-! ## The guest -/

/-- What is thrown when a call fails. -/
inductive Fault where
  | trap (message : String)
  | exception (message : String)
deriving DecidableEq

/-- Its linear memory, and whatever else it keeps. -/
structure Instance (σ : Type) where
  memory : List UInt8
  own : σ

/-- Memory never shrinks. -/
structure Export (σ α : Type) where
  run : Instance σ → Except Fault α × Instance σ
  grows : ∀ g, g.memory.length ≤ (run g).2.memory.length

structure Guest (σ : Type) where
  alloc : Int32 → Export σ Int32
  dealloc : Int32 → Int32 → Export σ Unit
  handleHeader : Int32 → Int32 → Export σ Int32
  handleBody : Int32 → Int32 → Export σ Int64

/-! ## What the host does -/

inductive GuestCall where
  | alloc (size : Int32)
  | dealloc (index size : Int32)
  | handleHeader (index size : Int32)
  | handleBody (index size : Int32)
deriving DecidableEq

inductive Answer where
  | failed
  | nothing
  | i32 (value : Int32)
  | i64 (value : Int64)
deriving DecidableEq

/-- A view of the guest's memory. Any call of the guest may move or grow what it
views, so it says how many there were when it was fetched. -/
structure View where
  calls : Nat
  size : Nat
deriving DecidableEq

inductive HostEvent where
  /-- With the memory that the guest leaves. -/
  | called (call : GuestCall) (answer : Answer) (memory : List UInt8)
  /-- A `memcpy` through `view`, where a view fetched just then is `now`. -/
  | accessed (view now : View) (index length : Nat)
  | warned (text : String)
  | responded (packet : List UInt8)
deriving DecidableEq

structure Host (σ : Type) where
  guest : Instance σ
  calls : Nat
  log : List HostEvent

abbrev HostM (σ : Type) := ExceptT Fault (StateM (Host σ))

variable {σ α : Type}

def Host.view (s : Host σ) : View := ⟨s.calls, s.guest.memory.length⟩

def Host.logged (s : Host σ) (e : HostEvent) : Host σ := { s with log := s.log ++ [e] }

def liftExcept (r : Except Fault α) : HostM σ α :=
  match r with
  | .ok a => pure a
  | .error e => throw e

def heard (answer : α → Answer) : Except Fault α → Answer
  | .ok a => answer a
  | .error _ => .failed

/-- The guest runs, and the host hears of it. -/
def Host.after (s : Host σ) (call : GuestCall) (answer : Answer) (g : Instance σ) : Host σ :=
  ⟨g, s.calls + 1, s.log ++ [.called call answer g.memory]⟩

/-- `call(..).unwrap()`. -/
def guestCall (call : GuestCall) (answer : α → Answer) (f : Export σ α) : HostM σ α := do
  let s ← get
  let r := f.run s.guest
  set (s.after call (heard answer r.1) r.2)
  liftExcept r.1

def alloc (guest : Guest σ) (size : Int32) : HostM σ Int32 := guestCall (.alloc size) .i32 (guest.alloc size)

def dealloc (guest : Guest σ) (index size : Int32) : HostM σ Unit :=
  guestCall (.dealloc index size) (fun _ => .nothing) (guest.dealloc index size)

def handleHeader (guest : Guest σ) (index size : Int32) : HostM σ Int32 :=
  guestCall (.handleHeader index size) .i32 (guest.handleHeader index size)

def handleBody (guest : Guest σ) (index size : Int32) : HostM σ Int64 :=
  guestCall (.handleBody index size) .i64 (guest.handleBody index size)

def warn (text : String) : HostM σ Unit := modify (·.logged (.warned text))

def respond (packet : List UInt8) : HostM σ Unit := modify (·.logged (.responded packet))

/-- `memory_->data(store_)`. -/
def data : HostM σ View := do return (← get).view

/-- Where the bytes do not fit, a `memcpy` is undefined. -/
def overwrite (memory : List UInt8) (index : Nat) (bytes : List UInt8) : List UInt8 :=
  if index + bytes.length ≤ memory.length then memory.take index ++ bytes ++ memory.drop (index + bytes.length) else memory

def copyIn (view : View) (index : Nat) (bytes : List UInt8) : HostM σ Unit :=
  modify fun s => { s.logged (.accessed view s.view index bytes.length) with
    guest := { s.guest with memory := overwrite s.guest.memory index bytes } }

def copyOut (view : View) (index length : Nat) : HostM σ (List UInt8) := do
  let s ← get
  set (s.logged (.accessed view s.view index length))
  return (s.guest.memory.drop index).take length

/-! ## The header -/

/-- The `try` block of the function that the constructor sets as the header
parser. -/
def tryParseHeader (guest : Guest σ) (buffer : List UInt8) : HostM σ HeaderResult := do
  let inputLength := UInt32.ofNat buffer.length
  let inputIndex := (← alloc guest (UInt32.ofNat buffer.length).toInt32).toUInt32
  if inputIndex = 0 then
    warn "Bad allocation detected for header"
    dealloc guest inputIndex.toInt32 inputLength.toInt32
    return ⟨0, false⟩
  else
    let memView ← data
    -- The sum has 64 bits, which two 32-bit values do not fill.
    if inputIndex.toNat + inputLength.toNat > memView.size then
      warn "OOB behavior detected during header input buffer write. Your WASM script violates the contract."
      dealloc guest inputIndex.toInt32 inputLength.toInt32
      return ⟨0, false⟩
    else
      copyIn memView inputIndex.toNat buffer
      let signedSize ← handleHeader guest inputIndex.toInt32 inputLength.toInt32
      if signedSize < 0 then
        warn "handle_header returned a negative size. Your WASM script violates the contract."
        dealloc guest inputIndex.toInt32 inputLength.toInt32
        return ⟨0, false⟩
      else
        dealloc guest inputIndex.toInt32 inputLength.toInt32
        return ⟨signedSize.toUInt32.toNat, true⟩

def parseHeaderFunc (guest : Guest σ) (buffer : List UInt8) : HostM σ HeaderResult :=
  tryCatch (tryParseHeader guest buffer) fun _ => do
    warn "Exception during header input buffer write. Your WASM script violates the contract."
    return ⟨0, false⟩

/-! ## The body -/

/-- The lower 32 bits. -/
def outIndex (packed : Int64) : UInt32 := (packed.toUInt64 &&& 0xffffffff).toUInt32

/-- The upper 32 bits. -/
def outLength (packed : Int64) : UInt32 := ((packed.toUInt64 >>> 32) &&& 0xffffffff).toUInt32

/-- From the answer of `handle_body` on. -/
def answerBody (guest : Guest σ) (inputIndex inputLength : UInt32) (packed : Int64) : HostM σ Unit := do
  let index := outIndex packed
  let length := outLength packed
  if length > 0 then
    let memView ← data
    if index.toNat + length.toNat > memView.size then
      warn "OOB behavior detected during response buffer read. Your WASM script violates the contract."
      dealloc guest index.toInt32 length.toInt32
      dealloc guest inputIndex.toInt32 inputLength.toInt32
      respond []
    else
      let vec ← copyOut memView index.toNat length.toNat
      dealloc guest index.toInt32 length.toInt32
      dealloc guest inputIndex.toInt32 inputLength.toInt32
      respond vec
  else
    dealloc guest inputIndex.toInt32 inputLength.toInt32
    respond []

/-- The `try` block of `parse_message`. -/
def tryParseMessage (guest : Guest σ) (header body : List UInt8) : HostM σ Unit := do
  let inputLength := UInt32.ofNat (header.length + body.length)
  let inputIndex := (← alloc guest inputLength.toInt32).toUInt32
  if inputIndex = 0 then
    warn "Bad allocation detected for body"
    respond []
  else
    let memView ← data
    if inputIndex.toNat + inputLength.toNat > memView.size then
      warn "OOB behavior detected during input buffer write. Your WASM script violates the contract."
      dealloc guest inputIndex.toInt32 inputLength.toInt32
      respond []
    else
      copyIn memView inputIndex.toNat header
      copyIn memView (inputIndex.toNat + header.length) body
      let packed ← handleBody guest inputIndex.toInt32 inputLength.toInt32
      answerBody guest inputIndex inputLength packed

/-- The callback is `respond`; it does not throw, and the host has the memory that
it asks for. -/
def parseMessage (guest : Guest σ) (header body : List UInt8) : HostM σ Unit :=
  tryCatch (tryParseMessage guest header body) fun
    | .trap message => do
      warn ("WASM Trap during packet processing: " ++ message)
      respond []
    | .exception message => do
      warn ("WASM exception during packet processing: " ++ message)
      respond []

/-! ## Runs -/

def Host.start (g : Instance σ) : Host σ := ⟨g, 0, []⟩

/-- What happens when the host runs `p` on the instance. -/
def events (p : HostM σ α) (g : Instance σ) : List HostEvent := (p.run.run (.start g)).2.log

end WASM

end Loadshear
