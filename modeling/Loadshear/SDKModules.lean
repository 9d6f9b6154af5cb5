import Loadshear.WASMMessageHandler

/-!
# The modules of the SDK

`tcp-single-session-heartbeat.cpp` and `tcp-single-session-parsing.c`, compiled
to guests. An access outside the linear memory traps. What a module keeps apart
from its memory is `heap_top`.
-/

namespace Loadshear

namespace WASM

variable {σ α : Type}

/-! ## Memory -/

abbrev GuestM (σ : Type) := ExceptT Fault (StateM (Instance σ))

def outOfBounds : Fault := .trap "out of bounds memory access"

def load (address : Nat) : GuestM σ UInt8 := do
  match (← get).memory[address]? with
  | some byte => return byte
  | none => throw outOfBounds

def store (address : Nat) (byte : UInt8) : GuestM σ Unit := do
  let g ← get
  if address < g.memory.length then set { g with memory := g.memory.set address byte } else throw outOfBounds

/-- The memory has the size that it had. -/
def Keeps (p : GuestM σ α) : Prop :=
  ∀ g, Effects.Ends p g fun _ t => t.memory.length = g.memory.length

theorem Keeps.pure (a : α) : Keeps (Pure.pure a : GuestM σ α) := fun _ => rfl

theorem Keeps.bind {β : Type} {p : GuestM σ β} {f : β → GuestM σ α} (h : Keeps p) (hf : ∀ b, Keeps (f b)) :
    Keeps (p >>= f) := fun g =>
  (h g).bind (fun b t ht => (hf b t).mono fun _ _ hu => hu.trans ht) fun _ _ ht => ht

theorem keeps_load (address : Nat) : Keeps (load address : GuestM σ UInt8) := by
  intro g
  refine Effects.Ends.bind (P := fun r t => r = .ok g ∧ t = g) ⟨rfl, rfl⟩ ?_ ?_
  · rintro _ _ ⟨hr, rfl⟩
    cases hr
    split <;> rfl
  · rintro _ _ ⟨hr, -⟩
    cases hr

theorem keeps_store (address : Nat) (byte : UInt8) : Keeps (store address byte : GuestM σ Unit) := by
  intro g
  refine Effects.Ends.bind (P := fun r t => r = .ok g ∧ t = g) ⟨rfl, rfl⟩ ?_ ?_
  · rintro _ _ ⟨hr, rfl⟩
    cases hr
    split
    · exact List.length_set
    · rfl
  · rintro _ _ ⟨hr, -⟩
    cases hr

/-- A function of a module whose memory does not grow. -/
def Export.of (p : GuestM σ α) (h : Keeps p) : Export σ α := ⟨fun g => p.run.run g, fun g => Nat.le_of_eq (h g).symm⟩

/-! ## The heap -/

/-- `heap_top` is static and starts at 0; `__heap_base` is the linker's. -/
def bumpAlloc (heapBase inputSize : UInt32) : GuestM UInt32 UInt32 := do
  let g ← get
  let res := if g.own = 0 then heapBase else g.own
  set { g with own := res + inputSize }
  return res

def bumpDealloc (heapBase : UInt32) : GuestM UInt32 Unit := modify fun g => { g with own := heapBase }

/-- The index below, the size above. -/
def pack (outLength outPtr : UInt32) : UInt64 := (outLength.toUInt64 <<< 32) ||| outPtr.toUInt64

/-! ## Heartbeats -/

namespace Heartbeat

inductive HeaderType where
  | Login
  | Register
  | Ping
  | PingResponse
  | SendDM
deriving DecidableEq

def HeaderType.byte : HeaderType → UInt8
  | .Login => 0
  | .Register => 1
  | .Ping => 2
  | .PingResponse => 3
  | .SendDM => 4

def expectedHeaderSize : UInt32 := 5

def handleBody (inputIndex inputSize : UInt32) : GuestM UInt32 UInt64 := do
  if inputIndex = 0 ∨ inputSize < expectedHeaderSize then return 0
  else
    let packet := inputIndex.toNat
    if (← load packet) = HeaderType.Ping.byte then
      store packet HeaderType.PingResponse.byte
      store (packet + 1) 0
      store (packet + 2) 0
      store (packet + 3) 0
      store (packet + 4) 0
      return pack expectedHeaderSize inputIndex
    else return 0

def handleHeader (inputIndex inputSize : UInt32) : GuestM UInt32 UInt32 := do
  if inputSize ≠ expectedHeaderSize ∨ inputIndex = 0 then return 0
  else
    let memory := inputIndex.toNat
    let b₁ ← load (memory + 1)
    let b₂ ← load (memory + 2)
    let b₃ ← load (memory + 3)
    let b₄ ← load (memory + 4)
    return b₁.toUInt32 ||| (b₂.toUInt32 <<< 8) ||| (b₃.toUInt32 <<< 16) ||| (b₄.toUInt32 <<< 24)

theorem keeps_handleBody (inputIndex inputSize : UInt32) : Keeps (handleBody inputIndex inputSize) := by
  unfold handleBody
  split
  · exact .pure _
  · refine (keeps_load _).bind fun type => ?_
    split
    · exact (keeps_store _ _).bind fun _ => (keeps_store _ _).bind fun _ => (keeps_store _ _).bind fun _ =>
        (keeps_store _ _).bind fun _ => (keeps_store _ _).bind fun _ => .pure _
    · exact .pure _

theorem keeps_handleHeader (inputIndex inputSize : UInt32) : Keeps (handleHeader inputIndex inputSize) := by
  unfold handleHeader
  split
  · exact .pure _
  · exact (keeps_load _).bind fun _ => (keeps_load _).bind fun _ => (keeps_load _).bind fun _ =>
      (keeps_load _).bind fun _ => .pure _

def guest (heapBase : UInt32) : Guest UInt32 where
  alloc size := .of (UInt32.toInt32 <$> bumpAlloc heapBase size.toUInt32) fun _ => rfl
  dealloc _ _ := .of (bumpDealloc heapBase) fun _ => rfl
  handleHeader index size := .of (UInt32.toInt32 <$> handleHeader index.toUInt32 size.toUInt32)
    ((keeps_handleHeader _ _).bind fun _ => .pure _)
  handleBody index size := .of (UInt64.toInt64 <$> handleBody index.toUInt32 size.toUInt32)
    ((keeps_handleBody _ _).bind fun _ => .pure _)

end Heartbeat

/-! ## Parsing -/

namespace Parsing

/-- The loop over the bytes from `address` on. -/
def fill (byte : UInt8) : Nat → Nat → GuestM σ Unit
  | _, 0 => return ()
  | address, n + 1 => do
    store address byte
    fill byte (address + 1) n

def handleBody (inputIndex inputSize : UInt32) : GuestM UInt32 UInt64 := do
  fill 0x55 inputIndex.toNat inputSize.toNat
  return pack inputSize inputIndex

theorem keeps_fill (byte : UInt8) : ∀ (n address : Nat), Keeps (fill byte address n : GuestM σ Unit)
  | 0, _ => .pure ()
  | n + 1, address => (keeps_store address byte).bind fun _ => keeps_fill byte n (address + 1)

def guest (heapBase : UInt32) : Guest UInt32 where
  alloc size := .of (UInt32.toInt32 <$> bumpAlloc heapBase size.toUInt32) fun _ => rfl
  dealloc _ _ := .of (bumpDealloc heapBase) fun _ => rfl
  handleHeader _ _ := .of (return 0) (.pure _)
  handleBody index size := .of (UInt64.toInt64 <$> handleBody index.toUInt32 size.toUInt32)
    (((keeps_fill _ _ _).bind fun _ => .pure _).bind fun _ => .pure _)

end Parsing

end WASM

end Loadshear
