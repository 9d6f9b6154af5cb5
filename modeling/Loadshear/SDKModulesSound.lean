import Loadshear.SDKModules
import Loadshear.WASMSound
import Mathlib.Data.Nat.Digits.Defs

/-!
# What the modules of the SDK answer

Both modules answer in the buffer that they were given and start their heap
anew with each call (`InPlace`). The host gets from them what it would get from
two functions on the bytes, whatever was called before.
-/

namespace Loadshear

namespace WASM

open Effects

variable {σ α : Type}

/-! ## Bytes -/

section Bytes

variable {memory bytes bytes' : List UInt8} {i : Nat}

theorem overwrite_of_fits (h : i + bytes.length ≤ memory.length) :
    overwrite memory i bytes = memory.take i ++ bytes ++ memory.drop (i + bytes.length) := if_pos h

@[simp] theorem overwrite_nil : overwrite memory i [] = memory := by
  unfold overwrite
  split <;> simp

theorem overwrite_append (h : i + (bytes ++ bytes').length ≤ memory.length) :
    overwrite (overwrite memory i bytes) (i + bytes.length) bytes' = overwrite memory i (bytes ++ bytes') := by
  rw [List.length_append] at h
  have hi : (memory.take i).length = i := List.length_take_of_le (by omega)
  have hl : (memory.take i ++ bytes).length = i + bytes.length := by rw [List.length_append, hi]
  rw [overwrite_of_fits (i := i + bytes.length) (by rw [overwrite_length]; omega), overwrite_of_fits (by omega),
    overwrite_of_fits (by rw [List.length_append]; omega), List.take_append_of_le_length (Nat.le_of_eq hl.symm),
    List.take_of_length_le (Nat.le_of_eq hl), List.drop_append, hl]
  have hdrop : (memory.take i ++ bytes).drop (i + bytes.length + bytes'.length) = [] :=
    List.drop_eq_nil_of_le (by omega)
  rw [hdrop, List.nil_append, List.drop_drop, List.length_append]
  simp only [List.append_assoc]
  congr 4
  omega

theorem overwrite_singleton {byte : UInt8} (h : i < memory.length) : overwrite memory i [byte] = memory.set i byte := by
  rw [overwrite_of_fits (show i + 1 ≤ _ from h), List.set_eq_take_append_cons_drop, if_pos h, List.append_assoc]
  rfl

theorem overwrite_cons {byte : UInt8} (h : i + (byte :: bytes).length ≤ memory.length) :
    overwrite (memory.set i byte) (i + 1) bytes = overwrite memory i (byte :: bytes) := by
  rw [List.length_cons] at h
  rw [← overwrite_singleton (by omega)]
  have happ := @overwrite_append memory [byte] bytes i
  exact happ (by simp only [List.cons_append, List.nil_append, List.length_cons]; omega)

theorem slice_overwrite (h : i + bytes.length ≤ memory.length) :
    ((overwrite memory i bytes).drop i).take bytes.length = bytes := by
  have hi : (memory.take i).length = i := List.length_take_of_le (by omega)
  rw [overwrite_of_fits h, List.append_assoc, List.drop_left' hi, List.take_left]

end Bytes

/-! ## Loads and stores -/

section Access

variable {g : Instance σ} {a : Nat}

theorem load_run {byte : UInt8} (h : g.memory[a]? = some byte) : (load a).run.run g = (.ok byte, g) := by
  refine run_bind (b := g) (t := g) rfl ?_
  rw [h]
  rfl

theorem store_run {byte : UInt8} (h : a < g.memory.length) :
    (store a byte).run.run g = (.ok (), { g with memory := g.memory.set a byte }) := by
  change ((if a < g.memory.length then set { g with memory := g.memory.set a byte }
    else throw outOfBounds : GuestM σ Unit)).run.run g = _
  rw [if_pos h]
  rfl

end Access

/-! ## The packed answer -/

theorem toNat_pack (outLength outPtr : UInt32) :
    (pack outLength outPtr).toNat = outLength.toNat * 2 ^ 32 + outPtr.toNat := by
  have hlen := outLength.toNat_lt
  have hptr := outPtr.toNat_lt
  have hshift : (outLength.toUInt64 <<< 32).toNat = outLength.toNat <<< 32 := by
    have h32 : (32 : UInt64).toNat % 64 = 32 := rfl
    rw [UInt64.toNat_shiftLeft, UInt32.toNat_toUInt64, h32, Nat.shiftLeft_eq, Nat.mod_eq_of_lt (by omega)]
  rw [pack, UInt64.toNat_or, hshift, UInt32.toNat_toUInt64, ← Nat.shiftLeft_add_eq_or_of_lt hptr, Nat.shiftLeft_eq]

theorem outIndex_pack (outLength outPtr : UInt32) : outIndex (pack outLength outPtr).toInt64 = outPtr := by
  have hptr := outPtr.toNat_lt
  apply UInt32.toNat_inj.mp
  rw [outIndex, UInt64.toUInt64_toInt64, UInt64.toNat_toUInt32, UInt64.toNat_and, toNat_pack]
  show (_ &&& (2 ^ 32 - 1)) % 2 ^ 32 = _
  rw [Nat.and_two_pow_sub_one_eq_mod]
  omega

theorem outLength_pack (length outPtr : UInt32) : outLength (pack length outPtr).toInt64 = length := by
  have hlen := length.toNat_lt
  have hptr := outPtr.toNat_lt
  apply UInt32.toNat_inj.mp
  rw [outLength, UInt64.toUInt64_toInt64, UInt64.toNat_toUInt32, UInt64.toNat_and, UInt64.toNat_shiftRight, toNat_pack]
  show (_ >>> 32 &&& (2 ^ 32 - 1)) % 2 ^ 32 = _
  rw [Nat.and_two_pow_sub_one_eq_mod, Nat.shiftRight_eq_div_pow]
  omega

/-! ## Modules that answer in place -/

def buffer (memory : List UInt8) (index size : UInt32) : List UInt8 := (memory.drop index.toNat).take size.toNat

theorem buffer_overwrite {memory bytes : List UInt8} {index : UInt32} (hlen : bytes.length < 2 ^ 32)
    (h : index.toNat + bytes.length ≤ memory.length) :
    buffer (overwrite memory index.toNat bytes) index (UInt32.ofNat bytes.length) = bytes := by
  rw [buffer, UInt32.toNat_ofNat_of_lt' hlen]
  exact slice_overwrite h

/-- On a buffer at the base of the heap the module has the size that `header`
says, and overwrites the buffer by the answer that `body` says. -/
structure InPlace (guest : Guest UInt32) (heapBase : UInt32) (header : List UInt8 → UInt32)
    (body : List UInt8 → List UInt8) : Prop where
  base : heapBase ≠ 0
  allocates : ∀ (n : UInt32) g, (guest.alloc n.toInt32).run g =
    let top := if g.own = 0 then heapBase else g.own
    (.ok top.toInt32, { g with own := top + n })
  deallocates : ∀ i n g, (guest.dealloc i n).run g = (.ok (), { g with own := heapBase })
  sizes : ∀ (n : UInt32) g, heapBase.toNat + n.toNat ≤ g.memory.length →
    (guest.handleHeader heapBase.toInt32 n.toInt32).run g = (.ok (header (buffer g.memory heapBase n)).toInt32, g)
  answers : ∀ (n : UInt32) g, heapBase.toNat + n.toNat ≤ g.memory.length →
    ∃ packed, (guest.handleBody heapBase.toInt32 n.toInt32).run g =
        (.ok packed, { g with memory := overwrite g.memory heapBase.toNat (body (buffer g.memory heapBase n)) }) ∧
      (outLength packed).toNat = (body (buffer g.memory heapBase n)).length ∧
      (0 < outLength packed → outIndex packed = heapBase)
  fits : ∀ bytes, (body bytes).length ≤ bytes.length

/-- Between two calls of the host. -/
structure Idle (heapBase : UInt32) (size : Nat) (g : Instance UInt32) : Prop where
  memory : g.memory.length = size
  top : g.own = 0 ∨ g.own = heapBase

def parsed (heapBase : UInt32) (size : Nat) (header : List UInt8 → UInt32) (bytes : List UInt8) : HeaderResult :=
  if size < heapBase.toNat + bytes.length ∨ (header bytes).toInt32 < 0 then ⟨0, false⟩
  else ⟨(header bytes).toNat, true⟩

def answered (heapBase : UInt32) (size : Nat) (body : List UInt8 → List UInt8) (bytes : List UInt8) : List UInt8 :=
  if size < heapBase.toNat + bytes.length then [] else body bytes

section Host

variable {guest : Guest UInt32} {heapBase : UInt32} {size : Nat} {header : List UInt8 → UInt32}
  {body : List UInt8 → List UInt8} {s : Host UInt32}

theorem guestCall_run {call : GuestCall} {answer : α → Answer} {f : Export σ α} {s : Host σ} {b : α} {g : Instance σ}
    (h : f.run s.guest = (.ok b, g)) : (guestCall call answer f).run.run s = (.ok b, s.after call (answer b) g) := by
  change (liftExcept (f.run s.guest).1).run.run (s.after call (heard answer (f.run s.guest).1) (f.run s.guest).2) = _
  rw [h]
  rfl

theorem alloc_run (hg : InPlace guest heapBase header body) (hs : Idle heapBase size s.guest) (n : UInt32) :
    (alloc guest n.toInt32).run.run s = (.ok heapBase.toInt32, s.after (.alloc n.toInt32) (.i32 heapBase.toInt32)
      { s.guest with own := heapBase + n }) := by
  apply guestCall_run
  have htop : (if s.guest.own = 0 then heapBase else s.guest.own) = heapBase := by
    rcases hs.top with h | h
    · exact if_pos h
    · rw [h, if_neg hg.base]
  rw [hg.allocates]
  simp only [htop]

/-- The heap starts anew. -/
theorem dealloc_ends (size : Nat) (hg : InPlace guest heapBase header body) (hm : s.guest.memory.length = size)
    {i n : Int32} {k : Unit → HostM UInt32 α} {Q : Except Fault α → Host UInt32 → Prop}
    (h : ∀ t : Host UInt32, Idle heapBase size t.guest → t.log = s.log ++ [.called (.dealloc i n) .nothing s.guest.memory] →
      Ends (k ()) t Q) : Ends (dealloc guest i n >>= k) s Q :=
  Ends.step (guestCall_run (hg.deallocates i n s.guest)) (h _ ⟨hm, .inr rfl⟩ rfl)

theorem copyIn_run {view : View} {index : Nat} {bytes : List UInt8} {s : Host σ} :
    (copyIn view index bytes).run.run s = (.ok (), { s.logged (.accessed view s.view index bytes.length) with
      guest := { s.guest with memory := overwrite s.guest.memory index bytes } }) := rfl

theorem tryParseHeader_ends (hg : InPlace guest heapBase header body) (hs : Idle heapBase size s.guest)
    (bytes : List UInt8) : Ends (tryParseHeader guest bytes) s fun r t => Idle heapBase size t.guest ∧
      ∃ a, r = .ok a ∧ (bytes.length < 2 ^ 32 → a = parsed heapBase size header bytes) := by
  unfold tryParseHeader
  refine Ends.step (alloc_run hg hs _) ?_
  simp only [UInt32.toUInt32_toInt32]
  rw [if_neg hg.base]
  refine Ends.step (p := data) rfl ?_
  split
  · rename_i hroom
    refine Ends.step (p := warn _) rfl ?_
    refine dealloc_ends size hg ?_ fun t ht _ => ?_
    · exact hs.memory
    refine Ends.pure ⟨ht, _, rfl, fun hlen => ?_⟩
    have hroom : size < heapBase.toNat + bytes.length := by
      rw [← hs.memory, ← UInt32.toNat_ofNat_of_lt' hlen]
      exact hroom
    rw [parsed, if_pos (.inl hroom)]
  · rename_i hroom
    have hroom : heapBase.toNat + (UInt32.ofNat bytes.length).toNat ≤ size := by
      rw [← hs.memory]
      exact Nat.le_of_not_lt hroom
    have hm : (overwrite s.guest.memory heapBase.toNat bytes).length = size := (overwrite_length _ _ _).trans hs.memory
    -- the module is given the bytes, if their number was not cut to 32 bits
    have hsame : bytes.length < 2 ^ 32 → heapBase.toNat + bytes.length ≤ size ∧
        buffer (overwrite s.guest.memory heapBase.toNat bytes) heapBase (UInt32.ofNat bytes.length) = bytes := by
      intro hlen
      rw [UInt32.toNat_ofNat_of_lt' hlen] at hroom
      exact ⟨hroom, buffer_overwrite hlen (hs.memory.symm ▸ hroom)⟩
    refine Ends.step copyIn_run ?_
    refine Ends.step (guestCall_run (hg.sizes _ _ ?_)) ?_
    · rw [← hm] at hroom
      exact hroom
    split
    · rename_i hneg
      refine Ends.step (p := warn _) rfl ?_
      refine dealloc_ends size hg hm fun t ht _ => ?_
      refine Ends.pure ⟨ht, _, rfl, fun hlen => ?_⟩
      obtain ⟨-, hbuf⟩ := hsame hlen
      rw [parsed, if_pos (.inr (hbuf ▸ hneg))]
    · rename_i hneg
      refine dealloc_ends size hg hm fun t ht _ => ?_
      refine Ends.pure ⟨ht, _, rfl, fun hlen => ?_⟩
      obtain ⟨hfits, hbuf⟩ := hsame hlen
      have hok : ¬ (size < heapBase.toNat + bytes.length ∨ (header bytes).toInt32 < 0) := by
        rw [not_or]
        exact ⟨Nat.not_lt_of_le hfits, fun hn => hneg (hbuf.symm ▸ hn)⟩
      rw [parsed, if_neg hok]
      exact congrArg (fun b => (⟨(header b).toNat, true⟩ : HeaderResult)) hbuf

theorem parseHeaderFunc_ends (hg : InPlace guest heapBase header body) (hs : Idle heapBase size s.guest)
    (bytes : List UInt8) : Ends (parseHeaderFunc guest bytes) s fun r t => Idle heapBase size t.guest ∧
      ∃ a, r = .ok a ∧ (bytes.length < 2 ^ 32 → a = parsed heapBase size header bytes) := by
  refine Ends.catch (tryParseHeader_ends hg hs bytes) (fun _ _ h => h) ?_
  rintro e t ⟨-, a, ha, -⟩
  cases ha

theorem responses_append (es es' : List HostEvent) : responses (es ++ es') = responses es ++ responses es' :=
  List.filterMap_append

/-- The buffer is given back and the host calls back. -/
theorem respond_ends (size : Nat) (hg : InPlace guest heapBase header body) (hm : s.guest.memory.length = size)
    (hr : responses s.log = []) {i n : Int32} {packet : List UInt8} :
    Ends (dealloc guest i n >>= fun _ => respond packet) s fun r t =>
      Idle heapBase size t.guest ∧ r = .ok () ∧ responses t.log = [packet] := by
  refine dealloc_ends size hg hm fun t ht hl => ⟨ht, rfl, ?_⟩
  show responses (t.log ++ [.responded packet]) = _
  rw [responses_append, hl, responses_append, hr]
  rfl

theorem answerBody_ends (hg : InPlace guest heapBase header body) (hm : s.guest.memory.length = size)
    (hr : responses s.log = []) {n : UInt32} {packed : Int64} {answer : List UInt8}
    (hfits : heapBase.toNat + answer.length ≤ size)
    (hslice : (s.guest.memory.drop heapBase.toNat).take answer.length = answer)
    (hl : (outLength packed).toNat = answer.length) (hi : 0 < outLength packed → outIndex packed = heapBase) :
    Ends (answerBody guest heapBase n packed) s fun r t =>
      Idle heapBase size t.guest ∧ r = .ok () ∧ responses t.log = [answer] := by
  unfold answerBody
  by_cases hpos : 0 < outLength packed
  · simp only [gt_iff_lt, hpos, if_true]
    refine Ends.step (p := data) rfl ?_
    have hroom : ¬ s.view.size < (outIndex packed).toNat + (outLength packed).toNat := by
      rw [hi hpos, hl, Nat.not_lt]
      exact Nat.le_trans hfits (Nat.le_of_eq hm.symm)
    rw [if_neg hroom]
    refine Ends.step (p := copyOut _ _ _) rfl ?_
    rw [hi hpos, hl, hslice]
    refine dealloc_ends size hg ?_ fun t ht hlog => respond_ends size hg ht.memory ?_
    · exact hm
    · rw [hlog, responses_append]
      show responses (s.log ++ [_]) ++ [] = []
      rw [responses_append, hr]
      rfl
  · simp only [gt_iff_lt, hpos, if_false]
    have hnil : answer = [] := by
      rw [UInt32.lt_iff_toNat_lt, hl] at hpos
      exact List.eq_nil_of_length_eq_zero (Nat.eq_zero_of_not_pos hpos)
    rw [hnil]
    exact respond_ends size hg hm hr

theorem tryParseMessage_ends (hg : InPlace guest heapBase header body) (hs : Idle heapBase size s.guest)
    (hr : responses s.log = []) (front bytes : List UInt8) :
    Ends (tryParseMessage guest front bytes) s fun r t => Idle heapBase size t.guest ∧ r = .ok () ∧
      ∃ packet, responses t.log = [packet] ∧
        ((front ++ bytes).length < 2 ^ 32 → packet = answered heapBase size body (front ++ bytes)) := by
  unfold tryParseMessage
  refine Ends.step (alloc_run hg hs _) ?_
  simp only [UInt32.toUInt32_toInt32]
  rw [if_neg hg.base, ← List.length_append]
  refine Ends.step (p := data) rfl ?_
  split
  · rename_i hroom
    refine Ends.step (p := warn _) rfl ?_
    refine Ends.mono (respond_ends size hg ?_ ?_) fun r t ⟨ht, hok, hresp⟩ =>
      ⟨ht, hok, [], hresp, fun hlen => ?_⟩
    · exact hs.memory
    · show responses ((s.log ++ [_]) ++ [_]) = []
      rw [responses_append, responses_append, hr]
      rfl
    · have hroom : size < heapBase.toNat + (front ++ bytes).length := by
        rw [← hs.memory, ← UInt32.toNat_ofNat_of_lt' hlen]
        exact hroom
      rw [answered, if_pos hroom]
  · rename_i hroom
    have hroom : heapBase.toNat + (UInt32.ofNat (front ++ bytes).length).toNat ≤ size := by
      rw [← hs.memory]
      exact Nat.le_of_not_lt hroom
    refine Ends.step copyIn_run (Ends.step copyIn_run ?_)
    let memory := overwrite (overwrite s.guest.memory heapBase.toNat front) (heapBase.toNat + front.length) bytes
    have hm : memory.length = size := (overwrite_length _ _ _).trans ((overwrite_length _ _ _).trans hs.memory)
    obtain ⟨packed, hrun, hl, hi⟩ := hg.answers (UInt32.ofNat (front ++ bytes).length)
      ⟨memory, heapBase + UInt32.ofNat (front ++ bytes).length⟩ (hm.symm ▸ hroom)
    refine Ends.step (guestCall_run hrun) ?_
    have hfits : heapBase.toNat + (body (buffer memory heapBase (UInt32.ofNat (front ++ bytes).length))).length ≤ size := by
      refine Nat.le_trans (Nat.add_le_add_left ?_ _) hroom
      exact Nat.le_trans (hg.fits _) (List.length_take_le _ _)
    refine Ends.mono (answerBody_ends hg ?_ ?_ hfits ?_ hl hi) fun r t ⟨ht, hok, hresp⟩ =>
      ⟨ht, hok, _, hresp, fun hlen => ?_⟩
    · exact (overwrite_length _ _ _).trans hm
    · show responses ((((s.log ++ [_]) ++ [_]) ++ [_]) ++ [_]) = []
      simp only [responses_append, hr]
      rfl
    · exact slice_overwrite (hm.symm ▸ hfits)
    · rw [UInt32.toNat_ofNat_of_lt' hlen] at hroom
      have hmem : memory = overwrite s.guest.memory heapBase.toNat (front ++ bytes) :=
        overwrite_append (hs.memory.symm ▸ hroom)
      rw [hmem, buffer_overwrite hlen (hs.memory.symm ▸ hroom), answered, if_neg (Nat.not_lt_of_le hroom)]

theorem parseMessage_ends (hg : InPlace guest heapBase header body) (hs : Idle heapBase size s.guest)
    (hr : responses s.log = []) (front bytes : List UInt8) :
    Ends (parseMessage guest front bytes) s fun _ t => Idle heapBase size t.guest ∧
      ∃ packet, responses t.log = [packet] ∧
        ((front ++ bytes).length < 2 ^ 32 → packet = answered heapBase size body (front ++ bytes)) := by
  refine Ends.catch (tryParseMessage_ends hg hs hr front bytes) (fun _ _ h => ⟨h.1, h.2.2⟩) ?_
  rintro e t ⟨-, ha, -⟩
  cases ha

end Host

/-! ## Heartbeats -/

theorem buffer_length {memory : List UInt8} {index n : UInt32} (h : index.toNat + n.toNat ≤ memory.length) :
    (buffer memory index n).length = n.toNat := by
  rw [buffer, List.length_take, List.length_drop]
  omega

theorem buffer_getElem? {memory : List UInt8} {index n : UInt32} {k : Nat} (h : k < n.toNat) :
    (buffer memory index n)[k]? = memory[index.toNat + k]? := by
  rw [buffer, List.getElem?_take, if_pos h, List.getElem?_drop]

namespace Heartbeat

def payloadLength (bytes : List UInt8) : UInt32 :=
  if bytes.length = 5 then UInt32.ofNat (Nat.ofDigits 256 ((bytes.drop 1).map UInt8.toNat)) else 0

def pong : List UInt8 := [HeaderType.PingResponse.byte, 0, 0, 0, 0]

def isPing (packet : List UInt8) : Bool := packet.head? = some HeaderType.Ping.byte

def answer (packet : List UInt8) : List UInt8 := if 5 ≤ packet.length ∧ isPing packet then pong else []

theorem toNat_or_shift {x : UInt32} {b : UInt8} {shift : UInt32} (hx : x.toNat < 2 ^ shift.toNat) (hs : shift.toNat ≤ 24) :
    (x ||| (b.toUInt32 <<< shift)).toNat = x.toNat + b.toNat * 2 ^ shift.toNat := by
  have hb := b.toNat_lt
  have hle : b.toNat * 2 ^ shift.toNat < 2 ^ 32 := by
    calc b.toNat * 2 ^ shift.toNat ≤ b.toNat * 2 ^ 24 :=
          Nat.mul_le_mul_left _ (Nat.pow_le_pow_right (by decide) hs)
      _ < 2 ^ 32 := by omega
  have hshift : (b.toUInt32 <<< shift).toNat = b.toNat <<< shift.toNat := by
    rw [UInt32.toNat_shiftLeft, UInt8.toNat_toUInt32, Nat.mod_eq_of_lt (by omega : shift.toNat < 32), Nat.shiftLeft_eq,
      Nat.mod_eq_of_lt hle]
  rw [UInt32.toNat_or, hshift, Nat.or_comm, ← Nat.shiftLeft_add_eq_or_of_lt hx, Nat.shiftLeft_eq, Nat.add_comm]

theorem littleEndian_eq (b₁ b₂ b₃ b₄ : UInt8) :
    b₁.toUInt32 ||| (b₂.toUInt32 <<< 8) ||| (b₃.toUInt32 <<< 16) ||| (b₄.toUInt32 <<< 24) =
      UInt32.ofNat (Nat.ofDigits 256 [b₁.toNat, b₂.toNat, b₃.toNat, b₄.toNat]) := by
  have h₁ := b₁.toNat_lt
  have h₂ := b₂.toNat_lt
  have h₃ := b₃.toNat_lt
  have h₄ := b₄.toNat_lt
  have e₁ : b₁.toUInt32.toNat = b₁.toNat := UInt8.toNat_toUInt32 _
  have e₂ : (b₁.toUInt32 ||| (b₂.toUInt32 <<< 8)).toNat = b₁.toNat + b₂.toNat * 2 ^ 8 := by
    rw [toNat_or_shift (e₁.symm ▸ h₁) (by decide), e₁]
    rfl
  have e₃ : (b₁.toUInt32 ||| (b₂.toUInt32 <<< 8) ||| (b₃.toUInt32 <<< 16)).toNat =
      b₁.toNat + b₂.toNat * 2 ^ 8 + b₃.toNat * 2 ^ 16 := by
    rw [toNat_or_shift (by rw [e₂]; show _ < 2 ^ 16; omega) (by decide), e₂]
    rfl
  apply UInt32.toNat_inj.mp
  rw [toNat_or_shift (by rw [e₃]; show _ < 2 ^ 24; omega) (by decide), e₃, UInt32.toNat_ofNat_of_lt']
  · simp only [Nat.ofDigits_cons, Nat.ofDigits_nil]
    show _ + b₄.toNat * 2 ^ 24 = _
    omega
  · simp only [Nat.ofDigits_cons, Nat.ofDigits_nil]
    show _ < 2 ^ 32
    omega

section
variable {heapBase n : UInt32} {g : Instance UInt32}

theorem eq_of_length_five : ∀ {bytes : List UInt8}, bytes.length = 5 → ∃ b₀ b₁ b₂ b₃ b₄, bytes = [b₀, b₁, b₂, b₃, b₄]
  | [b₀, b₁, b₂, b₃, b₄], _ => ⟨b₀, b₁, b₂, b₃, b₄, rfl⟩

theorem handleHeader_run (h0 : heapBase ≠ 0) (h : heapBase.toNat + n.toNat ≤ g.memory.length) :
    (handleHeader heapBase n).run.run g = (.ok (payloadLength (buffer g.memory heapBase n)), g) := by
  have hlen := buffer_length h
  unfold handleHeader
  by_cases hn : n = 5
  · subst hn
    have hlen : (buffer g.memory heapBase 5).length = 5 := hlen
    rw [if_neg (by rw [not_or]; exact ⟨fun hn => hn rfl, h0⟩), payloadLength, if_pos hlen]
    obtain ⟨b₀, b₁, b₂, b₃, b₄, hbuf⟩ := eq_of_length_five hlen
    have hget : ∀ k < 5, [b₀, b₁, b₂, b₃, b₄][k]? = g.memory[heapBase.toNat + k]? := fun k hk =>
      hbuf ▸ buffer_getElem? hk
    refine run_bind (load_run (hget 1 (by decide)).symm) ?_
    refine run_bind (load_run (hget 2 (by decide)).symm) ?_
    refine run_bind (load_run (hget 3 (by decide)).symm) ?_
    refine run_bind (load_run (hget 4 (by decide)).symm) ?_
    rw [littleEndian_eq, hbuf]
    rfl
  · have hne : (buffer g.memory heapBase n).length ≠ 5 := by
      rw [hlen]
      exact fun hn' => hn (UInt32.toNat_inj.mp hn')
    rw [if_pos (.inl hn), payloadLength, if_neg hne]
    rfl

theorem handleBody_run (h0 : heapBase ≠ 0) (h : heapBase.toNat + n.toNat ≤ g.memory.length) :
    ∃ packed, (handleBody heapBase n).run.run g =
        (.ok packed, { g with memory := overwrite g.memory heapBase.toNat (answer (buffer g.memory heapBase n)) }) ∧
      (outLength packed.toInt64).toNat = (answer (buffer g.memory heapBase n)).length ∧
      (0 < outLength packed.toInt64 → outIndex packed.toInt64 = heapBase) := by
  have hlen := buffer_length h
  have hzero : ∀ {packet : List UInt8}, packet = [] → (outLength (0 : UInt64).toInt64).toNat = packet.length ∧
      (0 < outLength (0 : UInt64).toInt64 → outIndex (0 : UInt64).toInt64 = heapBase) := by
    rintro _ rfl
    exact ⟨rfl, fun hpos => absurd hpos (by decide)⟩
  unfold handleBody
  by_cases hn : n < expectedHeaderSize
  · have hnil : answer (buffer g.memory heapBase n) = [] := by
      rw [answer, if_neg]
      rw [hlen]
      exact fun hc => absurd (UInt32.lt_iff_toNat_lt.mp hn) (Nat.not_lt_of_le hc.1)
    rw [if_pos (.inr hn), hnil, overwrite_nil]
    exact ⟨0, rfl, hzero rfl⟩
  · rw [if_neg (by rw [not_or]; exact ⟨h0, hn⟩)]
    have hn : 5 ≤ n.toNat := Nat.le_of_not_lt fun hlt => hn (UInt32.lt_iff_toNat_lt.mpr hlt)
    have hbase : heapBase.toNat < g.memory.length := by omega
    have hhead : (buffer g.memory heapBase n).head? = some g.memory[heapBase.toNat] := by
      rw [List.head?_eq_getElem?, buffer_getElem? (by omega), Nat.add_zero, List.getElem?_eq_getElem hbase]
    by_cases hping : g.memory[heapBase.toNat] = HeaderType.Ping.byte
    · have hans : answer (buffer g.memory heapBase n) = pong :=
        if_pos ⟨hlen.symm ▸ hn, by simp [isPing, hhead, hping]⟩
      rw [hans]
      refine ⟨pack expectedHeaderSize heapBase, ?_, by rw [outLength_pack]; rfl, fun _ => outIndex_pack _ _⟩
      refine run_bind (load_run (List.getElem?_eq_getElem hbase)) ?_
      rw [if_pos hping]
      refine run_bind (store_run hbase) ?_
      refine run_bind (store_run (by simp only [List.length_set]; omega)) ?_
      refine run_bind (store_run (by simp only [List.length_set]; omega)) ?_
      refine run_bind (store_run (by simp only [List.length_set]; omega)) ?_
      refine run_bind (store_run (by simp only [List.length_set]; omega)) ?_
      have hroom : heapBase.toNat + 5 ≤ g.memory.length := by omega
      rw [pong, ← overwrite_cons hroom, ← overwrite_cons, ← overwrite_cons, ← overwrite_cons, ← overwrite_cons,
        overwrite_nil]
      · rfl
      all_goals
        simp only [List.length_set, List.length_cons, List.length_nil]
        omega
    · have hnil : answer (buffer g.memory heapBase n) = [] := by
        rw [answer, if_neg]
        exact fun hc => hping (by simpa [isPing, hhead] using hc.2)
      rw [hnil, overwrite_nil]
      refine ⟨0, ?_, hzero rfl⟩
      refine run_bind (load_run (List.getElem?_eq_getElem hbase)) ?_
      rw [if_neg hping]
      rfl

theorem inPlace (h0 : heapBase ≠ 0) : InPlace (guest heapBase) heapBase payloadLength answer where
  base := h0
  allocates n g := by
    show (UInt32.toInt32 <$> bumpAlloc heapBase n.toInt32.toUInt32).run.run g = _
    rw [UInt32.toUInt32_toInt32]
    rfl
  deallocates _ _ _ := rfl
  sizes n g h := by
    show (UInt32.toInt32 <$> handleHeader heapBase.toInt32.toUInt32 n.toInt32.toUInt32).run.run g = _
    rw [UInt32.toUInt32_toInt32, UInt32.toUInt32_toInt32, map_eq_pure_bind]
    exact run_bind (handleHeader_run h0 h) rfl
  answers n g h := by
    obtain ⟨packed, hrun, hl, hi⟩ := handleBody_run h0 h
    refine ⟨packed.toInt64, ?_, hl, hi⟩
    show (UInt64.toInt64 <$> handleBody heapBase.toInt32.toUInt32 n.toInt32.toUInt32).run.run g = _
    rw [UInt32.toUInt32_toInt32, UInt32.toUInt32_toInt32, map_eq_pure_bind]
    exact run_bind hrun rfl
  fits bytes := by
    unfold answer
    split
    · rename_i h
      exact h.1
    · exact Nat.zero_le _

end

end Heartbeat

/-! ## Parsing -/

namespace Parsing

def answer (packet : List UInt8) : List UInt8 := List.replicate packet.length 0x55

theorem fill_run {byte : UInt8} : ∀ {n a : Nat} {g : Instance σ}, a + n ≤ g.memory.length →
    (fill byte a n).run.run g = (.ok (), { g with memory := overwrite g.memory a (List.replicate n byte) })
  | 0, a, g, _ => by
    rw [List.replicate_zero, overwrite_nil]
    rfl
  | n + 1, a, g, h => by
    have hset : (g.memory.set a byte).length = g.memory.length := List.length_set
    refine run_bind (store_run (by omega)) ?_
    rw [fill_run (by rw [hset]; omega), List.replicate_succ, ← overwrite_cons]
    rw [List.length_cons, List.length_replicate]
    exact h

theorem inPlace {heapBase : UInt32} (h0 : heapBase ≠ 0) : InPlace (guest heapBase) heapBase (fun _ => 0) answer where
  base := h0
  allocates n g := by
    show (UInt32.toInt32 <$> bumpAlloc heapBase n.toInt32.toUInt32).run.run g = _
    rw [UInt32.toUInt32_toInt32]
    rfl
  deallocates _ _ _ := rfl
  sizes _ _ _ := rfl
  answers n g h := by
    have hans : answer (buffer g.memory heapBase n) = List.replicate n.toNat 0x55 := by rw [answer, buffer_length h]
    refine ⟨(pack n heapBase).toInt64, ?_, by rw [outLength_pack, hans, List.length_replicate], fun _ => outIndex_pack _ _⟩
    show (UInt64.toInt64 <$> handleBody heapBase.toInt32.toUInt32 n.toInt32.toUInt32).run.run g = _
    rw [UInt32.toUInt32_toInt32, UInt32.toUInt32_toInt32, map_eq_pure_bind, hans]
    exact run_bind (run_bind (fill_run h) rfl) rfl
  fits bytes := by rw [answer, List.length_replicate]

end Parsing

end WASM

end Loadshear
