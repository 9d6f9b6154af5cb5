import Loadshear.WASMMessageHandler

/-!
# The host and a guest that it cannot trust

All that `parse_message` can do is one of the courses of `Course`
(`parseMessage_course`): whatever the guest answers, the host stays inside the
memory it sees and calls back once.
-/

namespace Loadshear

namespace WASM

open Effects

variable {σ α : Type}

/-! ## What is added to the log -/

section
variable {after : String → List HostEvent} {s t : Host σ} {F : List HostEvent → Prop}

/-- `F` holds of what stands behind `before`, and of that with `after` behind it
where something was thrown. -/
def Added (before : List HostEvent) (after : String → List HostEvent) (F : List HostEvent → Prop) (r : Except Fault α)
    (t : Host σ) : Prop :=
  ∃ es, t.log = before ++ es ∧
    match r with
    | .ok _ => F es
    | .error _ => ∀ text, F (es ++ after text)

def Adds (after : String → List HostEvent) (p : HostM σ α) (s : Host σ) (F : List HostEvent → Prop) : Prop :=
  Ends p s (Added s.log after F)

theorem Added.cons {before : List HostEvent} {e : HostEvent} {r : Except Fault α}
    (h : Added (before ++ [e]) after (fun es => F (e :: es)) r t) : Added before after F r t := by
  obtain ⟨es, ht, hf⟩ := h
  exact ⟨e :: es, by rw [ht, List.append_assoc]; rfl, by cases r <;> exact hf⟩

theorem Adds.mono {p : HostM σ α} {G : List HostEvent → Prop} (h : Adds after p s F) (hf : ∀ es, F es → G es) :
    Adds after p s G := by
  apply Ends.mono h
  intro r u ⟨es, hu, hr⟩
  cases r with
  | ok a => exact ⟨es, hu, hf es hr⟩
  | error e => exact ⟨es, hu, fun text => hf _ (hr text)⟩

theorem Adds.pure {a : α} (h : F []) : Adds after (Pure.pure a : HostM σ α) s F :=
  Ends.pure ⟨[], (List.append_nil _).symm, h⟩

theorem Adds.step {β : Type} {p : HostM σ β} {k : β → HostM σ α} {b : β} {e : HostEvent}
    (hp : p.run.run s = (.ok b, t)) (ht : t.log = s.log ++ [e]) (h : Adds after (k b) t fun es => F (e :: es)) :
    Adds after (p >>= k) s F := by
  refine Ends.bind (P := fun r u => r = .ok b ∧ u = t) ⟨congrArg Prod.fst hp, congrArg Prod.snd hp⟩ ?_ ?_
  · rintro b' u ⟨hb, rfl⟩
    cases hb
    unfold Adds at h
    rw [ht] at h
    exact h.mono fun _ _ => Added.cons
  · rintro e u ⟨hb, -⟩
    cases hb

theorem Adds.warn {text : String} {k : Unit → HostM σ α}
    (h : Adds after (k ()) (s.logged (.warned text)) fun es => F (.warned text :: es)) :
    Adds after (warn text >>= k) s F := Adds.step rfl rfl h

theorem Adds.respond {packet : List UInt8} (h : F [.responded packet]) : Adds after (respond packet) s F :=
  show ∃ es, s.log ++ [.responded packet] = s.log ++ es ∧ F es from ⟨_, rfl, h⟩

theorem Adds.data {k : View → HostM σ α} (h : Adds after (k s.view) s F) : Adds after (data >>= k) s F :=
  Ends.bind (P := fun r t => r = .ok s.view ∧ t = s) ⟨rfl, rfl⟩
    (fun _ _ ht => by cases ht.1; rw [ht.2]; exact h) fun _ _ ht => by cases ht.1

theorem overwrite_length (memory : List UInt8) (index : Nat) (bytes : List UInt8) :
    (overwrite memory index bytes).length = memory.length := by
  unfold overwrite
  split
  · simp only [List.length_append, List.length_take, List.length_drop]
    omega
  · rfl

theorem Adds.copyIn {view : View} {index : Nat} {bytes : List UInt8} {k : Unit → HostM σ α}
    (h : ∀ t : Host σ, t.view = s.view →
      Adds after (k ()) t fun es => F (.accessed view s.view index bytes.length :: es)) :
    Adds after (copyIn view index bytes >>= k) s F := by
  refine Adds.step rfl rfl (h _ ?_)
  unfold Host.view
  rw [overwrite_length]
  rfl

theorem Adds.copyOut {view : View} {index length : Nat} {k : List UInt8 → HostM σ α}
    (h : ∀ t : Host σ, Adds after (k ((s.guest.memory.drop index).take length)) t fun es =>
      F (.accessed view s.view index length :: es)) :
    Adds after (copyOut view index length >>= k) s F := Adds.step rfl rfl (h _)

theorem Adds.call {β : Type} {call : GuestCall} {answer : β → Answer} {f : Export σ β} {k : β → HostM σ α}
    (hfail : ∀ memory text, F (.called call .failed memory :: after text))
    (h : ∀ b (t : Host σ), s.guest.memory.length ≤ t.guest.memory.length →
      Adds after (k b) t fun es => F (.called call (answer b) t.guest.memory :: es)) :
    Adds after (guestCall call answer f >>= k) s F := by
  have hg := f.grows s.guest
  cases hr : f.run s.guest with
  | mk r g =>
    rw [hr] at hg
    cases r with
    | ok b =>
      have hp : (guestCall call answer f).run.run s = (.ok b, s.after call (answer b) g) := by
        change (liftExcept (f.run s.guest).1).run.run (s.after call (heard answer (f.run s.guest).1) (f.run s.guest).2) = _
        rw [hr]
        rfl
      exact Adds.step hp rfl (h b _ hg)
    | error e =>
      have hp : (guestCall call answer f).run.run s = (.error e, s.after call .failed g) := by
        change (liftExcept (f.run s.guest).1).run.run (s.after call (heard answer (f.run s.guest).1) (f.run s.guest).2) = _
        rw [hr]
        rfl
      refine Ends.bind (P := fun r u => r = .error e ∧ u = s.after call .failed g)
        ⟨congrArg Prod.fst hp, congrArg Prod.snd hp⟩ (fun _ _ hu => by cases hu.1) ?_
      rintro _ u ⟨-, rfl⟩
      exact ⟨[.called call .failed g.memory], rfl, fun text => hfail g.memory text⟩

end

/-! ## Courses -/

def abandoned (text : String) : List HostEvent := [.warned text, .responded []]

inductive Frees (packet : List UInt8) : List (Int32 × Int32) → List HostEvent → Prop
  | done : Frees packet [] [.responded packet]
  | freed {index size : Int32} {buffers : List (Int32 × Int32)} {es : List HostEvent} (memory : List UInt8)
      (h : Frees packet buffers es) :
      Frees packet ((index, size) :: buffers) (.called (.dealloc index size) .nothing memory :: es)
  | failed {index size : Int32} {buffers : List (Int32 × Int32)} (memory : List UInt8) (text : String) :
      Frees packet ((index, size) :: buffers) (.called (.dealloc index size) .failed memory :: abandoned text)

def slice (memory : List UInt8) (packed : Int64) : List UInt8 :=
  (memory.drop (outIndex packed).toNat).take (outLength packed).toNat

def outBuffer (packed : Int64) : Int32 × Int32 := ((outIndex packed).toInt32, (outLength packed).toInt32)

inductive Handling (i n : Int32) : List HostEvent → Prop
  | failed (memory : List UInt8) (text : String) :
    Handling i n (.called (.handleBody i n) .failed memory :: abandoned text)
  | empty {packed : Int64} {memory : List UInt8} {es : List HostEvent} (hl : outLength packed = 0)
      (h : Frees [] [(i, n)] es) : Handling i n (.called (.handleBody i n) (.i64 packed) memory :: es)
  | overrun {packed : Int64} {memory : List UInt8} {text : String} {es : List HostEvent} (hl : 0 < outLength packed)
      (hm : memory.length < (outIndex packed).toNat + (outLength packed).toNat)
      (h : Frees [] [outBuffer packed, (i, n)] es) :
      Handling i n (.called (.handleBody i n) (.i64 packed) memory :: .warned text :: es)
  | answered {packed : Int64} {view : View} {memory : List UInt8} {es : List HostEvent} (hl : 0 < outLength packed)
      (hm : (outIndex packed).toNat + (outLength packed).toNat ≤ memory.length) (hv : view.size = memory.length)
      (h : Frees (slice memory packed) [outBuffer packed, (i, n)] es) :
      Handling i n (.called (.handleBody i n) (.i64 packed) memory ::
        .accessed view view (outIndex packed).toNat (outLength packed).toNat :: es)

/-- All that `parse_message` can do; `n` is the size that it asks for. -/
inductive Course (header body : List UInt8) (n : Int32) : List HostEvent → Prop
  | failed (memory : List UInt8) (text : String) : Course header body n (.called (.alloc n) .failed memory :: abandoned text)
  | refused {i : Int32} (hi : i = 0) (memory : List UInt8) (text : String) :
    Course header body n (.called (.alloc n) (.i32 i) memory :: abandoned text)
  | overrun {i : Int32} {memory : List UInt8} {text : String} {es : List HostEvent} (hi : i ≠ 0)
      (hm : memory.length < i.toUInt32.toNat + n.toUInt32.toNat) (h : Frees [] [(i, n)] es) :
      Course header body n (.called (.alloc n) (.i32 i) memory :: .warned text :: es)
  | entered {i : Int32} {view : View} {memory : List UInt8} {es : List HostEvent} (hi : i ≠ 0)
      (hm : i.toUInt32.toNat + n.toUInt32.toNat ≤ memory.length) (hv : view.size = memory.length)
      (h : Handling i n es) :
      Course header body n (.called (.alloc n) (.i32 i) memory ::
        .accessed view view i.toUInt32.toNat header.length ::
          .accessed view view (i.toUInt32.toNat + header.length) body.length :: es)

section
variable {s : Host σ} {guest : Guest σ}

theorem adds_dealloc {F : List HostEvent → Prop} {i n : Int32} {k : Unit → HostM σ α}
    (hfail : ∀ memory text, F (.called (.dealloc i n) .failed memory :: abandoned text))
    (h : ∀ t : Host σ, Adds abandoned (k ()) t fun es => F (.called (.dealloc i n) .nothing t.guest.memory :: es)) :
    Adds abandoned (dealloc guest i n >>= k) s F := Adds.call hfail fun _ t _ => h t

theorem adds_free {packet : List UInt8} {i n : Int32} :
    Adds abandoned (dealloc guest i n >>= fun _ => respond packet) s (Frees packet [(i, n)]) :=
  adds_dealloc (fun memory text => .failed memory text) fun t => Adds.respond (.freed t.guest.memory .done)

theorem adds_freeBoth {packet : List UInt8} {o m i n : Int32} :
    Adds abandoned (dealloc guest o m >>= fun _ => dealloc guest i n >>= fun _ => respond packet) s
      (Frees packet [(o, m), (i, n)]) :=
  adds_dealloc (fun memory text => .failed memory text) fun t => adds_free.mono fun _ h => .freed t.guest.memory h

theorem adds_answerBody {i n : UInt32} {packed : Int64} : Adds abandoned (answerBody guest i n packed) s fun es =>
    Handling i.toInt32 n.toInt32 (.called (.handleBody i.toInt32 n.toInt32) (.i64 packed) s.guest.memory :: es) := by
  unfold answerBody
  by_cases hl : outLength packed > 0
  · simp only [hl, if_true]
    apply Adds.data
    by_cases hm : (outIndex packed).toNat + (outLength packed).toNat > s.view.size
    · rw [if_pos hm]
      exact Adds.warn (adds_freeBoth.mono fun _ h => .overrun hl hm h)
    · rw [if_neg hm]
      exact Adds.copyOut fun t => adds_freeBoth.mono fun _ h => .answered hl (Nat.le_of_not_lt hm) rfl h
  · simp only [hl, if_false]
    have hzero : outLength packed = 0 := by
      rw [gt_iff_lt, UInt32.lt_iff_toNat_lt] at hl
      exact UInt32.toNat_inj.mp (Nat.eq_zero_of_not_pos hl)
    exact adds_free.mono fun _ h => .empty hzero h

def inputSize (header body : List UInt8) : Int32 := (UInt32.ofNat (header.length + body.length)).toInt32

theorem adds_tryParseMessage (guest : Guest σ) (header body : List UInt8) (s : Host σ) :
    Adds abandoned (tryParseMessage guest header body) s (Course header body (inputSize header body)) := by
  unfold tryParseMessage
  apply Adds.call (fun memory text => .failed memory text)
  intro i t _
  by_cases hi : i.toUInt32 = 0
  · rw [if_pos hi]
    exact Adds.warn (Adds.respond (.refused (congrArg UInt32.toInt32 hi) _ _))
  rw [if_neg hi]
  have hi' : i ≠ 0 := by
    rintro rfl
    exact hi rfl
  apply Adds.data
  by_cases hm : i.toUInt32.toNat + (UInt32.ofNat (header.length + body.length)).toNat > t.view.size
  · rw [if_pos hm]
    exact Adds.warn (adds_free.mono fun _ h => .overrun hi' hm h)
  rw [if_neg hm]
  refine Adds.copyIn fun u hu => Adds.copyIn fun v hv => ?_
  rw [hu]
  apply Adds.call (fun memory text => .entered hi' (Nat.le_of_not_lt hm) rfl (.failed memory text))
  intro packed w _
  exact adds_answerBody.mono fun _ h => .entered hi' (Nat.le_of_not_lt hm) rfl h

theorem parseMessage_course (guest : Guest σ) (header body : List UInt8) (g : Instance σ) :
    Ends (parseMessage guest header body) (.start g) fun r t =>
      r = .ok () ∧ Course header body (inputSize header body) t.log := by
  unfold parseMessage
  refine Ends.catch (adds_tryParseMessage guest header body (.start g)) ?_ ?_
  · intro _ t ⟨es, ht, h⟩
    exact ⟨rfl, by rw [ht]; exact h⟩
  · intro e t ⟨es, ht, h⟩
    have hlog : ∀ text, (t.log ++ [.warned text]) ++ [.responded []] = es ++ abandoned text := by
      intro text
      rw [ht, List.append_assoc]
      rfl
    cases e with
    | trap message =>
      refine ⟨rfl, ?_⟩
      change Course _ _ _ ((t.log ++ [.warned _]) ++ [.responded []])
      rw [hlog]
      exact h _
    | exception message =>
      refine ⟨rfl, ?_⟩
      change Course _ _ _ ((t.log ++ [.warned _]) ++ [.responded []])
      rw [hlog]
      exact h _

/-! ## Inside the memory -/

/-- The access goes through a view in force, and stays inside it. -/
def HostEvent.Safe : HostEvent → Prop
  | .accessed view now index length => view = now ∧ index + length ≤ view.size
  | _ => True

theorem abandoned_safe (text : String) : ∀ e ∈ abandoned text, e.Safe := by
  simp [abandoned, HostEvent.Safe]

theorem Frees.safe {packet : List UInt8} {buffers : List (Int32 × Int32)} {es : List HostEvent}
    (h : Frees packet buffers es) : ∀ e ∈ es, e.Safe := by
  induction h with
  | done => simp [HostEvent.Safe]
  | freed memory h ih => exact List.forall_mem_cons.mpr ⟨trivial, ih⟩
  | failed memory text => exact List.forall_mem_cons.mpr ⟨trivial, abandoned_safe text⟩

theorem Handling.safe {i n : Int32} {es : List HostEvent} (h : Handling i n es) : ∀ e ∈ es, e.Safe := by
  cases h with
  | failed memory text => exact List.forall_mem_cons.mpr ⟨trivial, abandoned_safe text⟩
  | empty hl h => exact List.forall_mem_cons.mpr ⟨trivial, h.safe⟩
  | overrun hl hm h => exact List.forall_mem_cons.mpr ⟨trivial, List.forall_mem_cons.mpr ⟨trivial, h.safe⟩⟩
  | answered hl hm hv h =>
    exact List.forall_mem_cons.mpr ⟨trivial, List.forall_mem_cons.mpr ⟨⟨rfl, by rw [hv]; exact hm⟩, h.safe⟩⟩

theorem Course.safe {header body : List UInt8} {n : Int32} {es : List HostEvent} (h : Course header body n es)
    (hn : n.toUInt32.toNat = header.length + body.length) : ∀ e ∈ es, e.Safe := by
  cases h with
  | failed memory text => exact List.forall_mem_cons.mpr ⟨trivial, abandoned_safe text⟩
  | refused hi memory text => exact List.forall_mem_cons.mpr ⟨trivial, abandoned_safe text⟩
  | overrun hi hm h => exact List.forall_mem_cons.mpr ⟨trivial, List.forall_mem_cons.mpr ⟨trivial, h.safe⟩⟩
  | entered hi hm hv h =>
    refine List.forall_mem_cons.mpr ⟨trivial, List.forall_mem_cons.mpr ⟨⟨rfl, ?_⟩,
      List.forall_mem_cons.mpr ⟨⟨rfl, ?_⟩, h.safe⟩⟩⟩
    · rw [hv]
      omega
    · rw [hv]
      omega

def Answers (es : List HostEvent) (packet : List UInt8) : Prop :=
  ∃ i n packed memory, .called (.handleBody i n) (.i64 packed) memory ∈ es ∧
    (outIndex packed).toNat + (outLength packed).toNat ≤ memory.length ∧ packet = slice memory packed

theorem Frees.responded {packet packet' : List UInt8} {buffers : List (Int32 × Int32)} {es : List HostEvent}
    (h : Frees packet buffers es) (hm : .responded packet' ∈ es) : packet' = [] ∨ packet' = packet := by
  induction h with
  | done =>
    right
    simpa using hm
  | freed memory h ih => exact ih (by simpa using hm)
  | failed memory text =>
    left
    simpa [abandoned] using hm

theorem Handling.responded {i n : Int32} {packet : List UInt8} {es : List HostEvent} (h : Handling i n es)
    (hm : .responded packet ∈ es) (hne : packet ≠ []) : Answers es packet := by
  cases h with
  | failed memory text => exact absurd (by simpa [abandoned] using hm) hne
  | empty hl h =>
    have hp := h.responded (by simpa using hm)
    exact absurd (hp.elim id id) hne
  | overrun hl hm' h =>
    have hp := h.responded (by simpa using hm)
    exact absurd (hp.elim id id) hne
  | @answered packed view memory es hl hm' hv h =>
    have hp := (h.responded (by simpa using hm)).resolve_left hne
    exact ⟨i, n, packed, memory, List.mem_cons_self .., hm', hp⟩

theorem Course.responded {header body packet : List UInt8} {n : Int32} {es : List HostEvent} (h : Course header body n es)
    (hm : .responded packet ∈ es) (hne : packet ≠ []) : Answers es packet := by
  cases h with
  | failed memory text => exact absurd (by simpa [abandoned] using hm) hne
  | refused hi memory text => exact absurd (by simpa [abandoned] using hm) hne
  | overrun hi hm' h =>
    have hp := h.responded (by simpa using hm)
    exact absurd (hp.elim id id) hne
  | entered hi hm' hv h =>
    obtain ⟨i, n, packed, memory, hc, hp⟩ := h.responded (by simpa using hm) hne
    exact ⟨i, n, packed, memory, by simp [hc], hp⟩

/-! ## The header parser -/

def noted (text : String) : List HostEvent := [.warned text]

section
variable {after : String → List HostEvent} {s : Host σ} {guest : Guest σ}

def AllSafe (es : List HostEvent) : Prop := ∀ e ∈ es, e.Safe

theorem Adds.safe {p : HostM σ α} (h : Adds after p s AllSafe) {e : HostEvent} (he : e.Safe) :
    Adds after p s fun es => AllSafe (e :: es) := h.mono fun _ hs => List.forall_mem_cons.mpr ⟨he, hs⟩

theorem noted_safe {call : GuestCall} {memory : List UInt8} (text : String) :
    AllSafe (.called call .failed memory :: noted text) := by
  simp [AllSafe, noted, HostEvent.Safe]

theorem adds_return {i n : Int32} {r : HeaderResult} :
    Adds noted (dealloc guest i n >>= fun _ => pure r) s AllSafe :=
  Adds.call (fun _ text => noted_safe text) fun _ _ _ => Adds.safe (Adds.pure fun _ h => by cases h) trivial

theorem adds_tryParseHeader (guest : Guest σ) {buffer : List UInt8} (hb : buffer.length < 2 ^ 32) (s : Host σ) :
    Adds noted (tryParseHeader guest buffer) s AllSafe := by
  have hlen : (UInt32.ofNat buffer.length).toNat = buffer.length := UInt32.toNat_ofNat_of_lt' hb
  unfold tryParseHeader
  refine Adds.call (fun _ text => noted_safe text) fun i t _ => Adds.safe ?_ trivial
  by_cases hi : i.toUInt32 = 0
  · rw [if_pos hi]
    exact Adds.warn (Adds.safe adds_return trivial)
  rw [if_neg hi]
  apply Adds.data
  by_cases hm : i.toUInt32.toNat + (UInt32.ofNat buffer.length).toNat > t.view.size
  · rw [if_pos hm]
    exact Adds.warn (Adds.safe adds_return trivial)
  rw [if_neg hm]
  refine Adds.copyIn fun u _ => Adds.safe ?_ ⟨rfl, by omega⟩
  refine Adds.call (fun _ text => noted_safe text) fun size v _ => Adds.safe ?_ trivial
  by_cases hs : size < 0
  · rw [if_pos hs]
    exact Adds.warn (Adds.safe adds_return trivial)
  · rw [if_neg hs]
    exact adds_return

theorem parseHeaderFunc_safe (guest : Guest σ) {buffer : List UInt8} (hb : buffer.length < 2 ^ 32) (g : Instance σ) :
    AllSafe (events (parseHeaderFunc guest buffer) g) := by
  refine Ends.catch (Q := fun _ t => AllSafe t.log) (adds_tryParseHeader guest hb (.start g)) ?_ ?_
  · intro _ t ⟨es, ht, h⟩
    rw [ht]
    exact h
  · intro _ t ⟨es, ht, h⟩
    change AllSafe (t.log ++ noted _)
    rw [ht]
    exact h _

end

/-- Whatever the guest does, no access of the host leaves the memory, and no
response is anything but what the guest answered with. -/
theorem stays_inside (guest : Guest σ) (g : Instance σ) (header body : List UInt8) (hh : header.length ≤ 2 ^ 31 - 1)
    (hb : body.length ≤ 2 ^ 31 - 1) :
    (∀ e ∈ events (parseHeaderFunc guest header) g, e.Safe) ∧ (∀ e ∈ events (parseMessage guest header body) g, e.Safe) ∧
      ∀ packet, .responded packet ∈ events (parseMessage guest header body) g → packet ≠ [] →
        Answers (events (parseMessage guest header body) g) packet := by
  have hn : (inputSize header body).toUInt32.toNat = header.length + body.length :=
    UInt32.toNat_ofNat_of_lt' (by change _ < 2 ^ 32; omega)
  obtain ⟨-, hcourse⟩ := parseMessage_course guest header body g
  exact ⟨parseHeaderFunc_safe guest (by omega) g, hcourse.safe hn, fun packet hm hne => hcourse.responded hm hne⟩

def echo : Guest Unit where
  alloc _ := ⟨fun g => (.ok 8, g), fun _ => Nat.le_refl _⟩
  dealloc _ _ := ⟨fun g => (.ok (), g), fun _ => Nat.le_refl _⟩
  handleHeader _ _ := ⟨fun g => (.ok 2, g), fun _ => Nat.le_refl _⟩
  handleBody _ _ := ⟨fun g => (.ok 0x200000008, g), fun _ => Nat.le_refl _⟩

theorem stays_inside_echo :
    .responded [1, 2] ∈ events (parseMessage echo [1] [2, 3]) ⟨List.replicate 16 0, ()⟩ ∧
      Answers (events (parseMessage echo [1] [2, 3]) ⟨List.replicate 16 0, ()⟩) [1, 2] := by
  have hm : .responded [1, 2] ∈ events (parseMessage echo [1] [2, 3]) ⟨List.replicate 16 0, ()⟩ := by decide
  exact ⟨hm, (stays_inside echo _ [1] [2, 3] (by decide) (by decide)).2.2 _ hm (by decide)⟩

/-! ## One response -/

def responses (es : List HostEvent) : List (List UInt8) :=
  es.filterMap fun
    | .responded packet => some packet
    | _ => none

def calls (es : List HostEvent) : List GuestCall :=
  es.filterMap fun
    | .called call _ _ => some call
    | _ => none

inductive Fails (n : Int32) (es : List HostEvent) : Prop
  | call {c : GuestCall} {memory : List UInt8} (h : .called c .failed memory ∈ es)
  | refused {memory : List UInt8} (h : .called (.alloc n) (.i32 0) memory ∈ es)
  | input {i : Int32} {memory : List UInt8} (h : .called (.alloc n) (.i32 i) memory ∈ es)
      (hm : memory.length < i.toUInt32.toNat + n.toUInt32.toNat)
  | output {i : Int32} {packed : Int64} {memory : List UInt8} (h : .called (.handleBody i n) (.i64 packed) memory ∈ es)
      (hl : 0 < outLength packed) (hm : memory.length < (outIndex packed).toNat + (outLength packed).toNat)

def contractCalls (i n : Int32) (packed : Int64) : List GuestCall :=
  .alloc n :: .handleBody i n :: ((if 0 < outLength packed then
    [.dealloc (outIndex packed).toInt32 (outLength packed).toInt32]
    else []) ++ [.dealloc i n])

@[simp] theorem responses_abandoned (text : String) : responses (abandoned text) = [[]] := rfl

@[simp] theorem responses_called (c : GuestCall) (answer : Answer) (memory : List UInt8) (es : List HostEvent) :
    responses (.called c answer memory :: es) = responses es := rfl

@[simp] theorem responses_warned (text : String) (es : List HostEvent) : responses (.warned text :: es) = responses es :=
  rfl

@[simp] theorem responses_accessed (view now : View) (index length : Nat) (es : List HostEvent) :
    responses (.accessed view now index length :: es) = responses es := rfl

/-- What gives the buffers back gives one response: none of the calls failed, or
the response is empty. -/
theorem Frees.once {packet : List UInt8} {buffers : List (Int32 × Int32)} {es : List HostEvent}
    (h : Frees packet buffers es) :
    (responses es = [[]] ∧ ∃ c memory, .called c .failed memory ∈ es) ∨
      responses es = [packet] ∧ calls es = buffers.map (fun b => .dealloc b.1 b.2) ∧
        ∀ c answer memory, .called c answer memory ∈ es → (∃ i n, c = .dealloc i n) ∧ answer = .nothing := by
  induction h with
  | done => exact .inr ⟨rfl, rfl, by simp⟩
  | @freed i n _ _ memory h ih =>
    rcases ih with ⟨hr, c, m, hc⟩ | ⟨hr, hc, hall⟩
    · exact .inl ⟨hr, c, m, List.mem_cons_of_mem _ hc⟩
    · refine .inr ⟨hr, congrArg _ hc, fun c answer m hm => ?_⟩
      rcases List.mem_cons.mp hm with he | hm
      · cases he
        exact ⟨⟨i, n, rfl⟩, rfl⟩
      · exact hall c answer m hm
  | failed memory text => exact .inl ⟨rfl, _, memory, List.mem_cons_self ..⟩

/-- One response, empty where something failed; otherwise the calls are those of
the contract. -/
def Honoured (n : Int32) (es : List HostEvent) : Prop :=
  ∃ packet, responses es = [packet] ∧ (Fails n es → packet = []) ∧
    (¬ Fails n es → ∃ i packed memory memory', .called (.alloc n) (.i32 i) memory ∈ es ∧
      .called (.handleBody i n) (.i64 packed) memory' ∈ es ∧ calls es = contractCalls i n packed)

theorem Honoured.of_fails {n : Int32} {es : List HostEvent} (hr : responses es = [[]]) (hf : Fails n es) :
    Honoured n es := ⟨[], hr, fun _ => rfl, fun h => absurd hf h⟩

theorem Course.honoured {header body : List UInt8} {n : Int32} {es : List HostEvent} (h : Course header body n es) :
    Honoured n es := by
  cases h with
  | failed memory text => exact .of_fails rfl (.call (List.mem_cons_self ..))
  | refused hi memory text =>
    subst hi
    exact .of_fails rfl (.refused (List.mem_cons_self ..))
  | overrun hi hm h =>
    refine .of_fails ?_ (.input (List.mem_cons_self ..) hm)
    exact h.once.elim (fun h => h.1) fun h => h.1
  | @entered i view memory es hi hm hv h =>
    cases h with
    | failed memory' text => exact .of_fails rfl (@Fails.call n _ (.handleBody i n) memory' (by simp))
    | @empty packed memory' es hl h =>
      rcases h.once with ⟨hr, c, m, hc⟩ | ⟨hr, hc, hall⟩
      · exact .of_fails hr (@Fails.call n _ c m (by simp [hc]))
      · refine ⟨[], hr, fun _ => rfl, fun _ => ⟨i, packed, memory, memory', by simp, by simp, ?_⟩⟩
        simpa [calls, contractCalls, hl] using hc
    | @overrun packed memory' text es hl hm' h =>
      refine .of_fails ?_ (.output (i := i) (by simp) hl hm')
      exact h.once.elim (fun h => h.1) fun h => h.1
    | @answered packed view' memory' es hl hm' hv' h =>
      rcases h.once with ⟨hr, c, m, hc⟩ | ⟨hr, hc, hall⟩
      · exact .of_fails hr (@Fails.call n _ c m (by simp [hc]))
      · refine ⟨slice memory' packed, hr, fun hf => ?_, fun _ => ⟨i, packed, memory, memory', by simp, by simp, ?_⟩⟩
        · have hdealloc : ∀ c answer m, (¬ ∃ i n, c = .dealloc i n) ∨ answer ≠ .nothing → .called c answer m ∉ es :=
            fun c answer m hn hmem => hn.elim (fun hn => hn (hall c answer m hmem).1) fun hn => hn (hall c answer m hmem).2
          cases hf with
          | @call c m hc => simp [hdealloc c .failed m (.inr (by simp))] at hc
          | @refused m hc => simp [Ne.symm hi, hdealloc (.alloc n) (.i32 0) m (.inl (by simp))] at hc
          | @input i' m hc hlt =>
            simp only [List.mem_cons, HostEvent.called.injEq, reduceCtorEq, hdealloc (.alloc n) (.i32 i') m
              (.inl (by simp)), or_false, false_and, and_false, Answer.i32.injEq, true_and] at hc
            obtain ⟨rfl, rfl⟩ := hc
            omega
          | @output i' packed' m hc hl' hlt =>
            simp only [List.mem_cons, HostEvent.called.injEq, reduceCtorEq, false_or, hdealloc (.handleBody i' n)
              (.i64 packed') m (.inl (by simp)), or_false, false_and, and_false, Answer.i64.injEq] at hc
            obtain ⟨-, rfl, rfl⟩ := hc
            omega
        · simpa [calls, contractCalls, hl, outBuffer] using hc

/-- `parse_message` returns, has called back once, and kept the contract with a
guest that kept it. -/
theorem responds_once (guest : Guest σ) (g : Instance σ) (header body : List UInt8) :
    ((parseMessage guest header body).run.run (.start g)).1 = .ok () ∧
      Honoured (inputSize header body) (events (parseMessage guest header body) g) := by
  obtain ⟨hr, hcourse⟩ := parseMessage_course guest header body g
  exact ⟨hr, hcourse.honoured⟩

end

end WASM

end Loadshear
