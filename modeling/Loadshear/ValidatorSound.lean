import Loadshear.LifecycleSound
import Loadshear.OverlapSound
import Loadshear.PrinterSound

/-!
# What the validator accepts

Over a script the validator keeps the size of the pool and two bits for each
session. Both are functions of the actions it has been through (`Follows`), so
that acceptance is a property of the script alone, action by action
(`Permits`), and a refusal is about the first action that is not permitted.
-/

namespace Loadshear

/-! ## The rules of a script -/

def created (before : List Action) : Nat :=
  (before.filter (·.type = .CREATE)).getLast?.elim 0 (·.count.toNat)

def ActiveAfter (history : List ActionType) : Prop :=
  (history.filter (· ∈ [.CONNECT, .DRAIN])).getLast? = some .CONNECT

instance (history : List ActionType) : Decidable (ActiveAfter history) := inferInstanceAs (Decidable (_ = _))

def Carries (env : Env) (settings : SettingsBlock) (a : Action) (size : UInt64) : Prop :=
  ∃ file path, settings.packetIdentifiers.lookup a.packetIdentifier = some file ∧
    resolveFile env file = .ok path ∧ env.fileSize path = size ∧ size ≠ 0

/-- What a SEND writes is a change to its packet that the validator knows. -/
structure Sendable (env : Env) (settings : SettingsBlock) (a : Action) : Prop where
  copies : a.count ≠ 0
  accounted : a.mods.modOrder.length = a.mods.timestampMods.length + a.mods.counterMods.length
  formats : ∀ m ∈ a.mods.timestampMods, m.formatName ∈ validTimeFormats
  steps : ∀ m ∈ a.mods.counterMods, m.counterStep ≠ 0
  spread : Spread [] a.mods.ranges
  packet : ∃ size, Carries env settings a size ∧ ∀ r ∈ a.mods.ranges, r.Short size

/-- The action may come after `before`. -/
def Permits (env : Env) (settings : SettingsBlock) (before : List Action) (a : Action) : Prop :=
  match a.type with
  | .CREATE => created before = 0 ∧ settings.shards ≤ a.count
  | .CONNECT => created before ≠ 0 ∧ a.range.second.toNat ≤ created before ∧
      ∀ j, a.range.Contains j → ¬ ActiveAfter (onSession j before)
  | .SEND => a.range.second.toNat ≤ created before ∧ Sendable env settings a ∧
      ∀ j, a.range.Contains j → ActiveAfter (onSession j before)
  | .FLOOD | .DRAIN => a.range.second.toNat ≤ created before ∧
      ∀ j, a.range.Contains j → ActiveAfter (onSession j before)
  | .DISCONNECT => a.range.second.toNat ≤ created before ∧
      ∀ j, a.range.Contains j → .DISCONNECT ∉ onSession j before

def Permitted (env : Env) (settings : SettingsBlock) (actions : List Action) : Prop :=
  ∀ before a after, actions = before ++ a :: after → Permits env settings before a

structure Configured (env : Env) (script : DSLData) : Prop where
  identifier : script.settings.identifier ≠ ""
  protocol : script.settings.sessionProtocol = "TCP" ∨ script.settings.sessionProtocol = "UDP"
  port : script.settings.port ≠ 0
  reading : script.settings.read = true → script.settings.headerSize ≠ 0 ∧ script.settings.bodyMax ≠ 0
  shards : script.settings.shards ≠ 0
  endpoints : script.settings.endpoints ≠ []
  defined : script.settings.packetIdentifiers = [] → ∀ a ∈ script.orchestrator.actions, a.type ≠ .SEND
  packets : ∀ p ∈ script.settings.packetIdentifiers, ∃ path, resolveFile env p.2 = .ok path
  handler : script.settings.read = true → script.settings.handlerValue = "NOP" ∨
    endsWith script.settings.handlerValue ".wasm" = true ∧ ∃ path, resolveFile env script.settings.handlerValue = .ok path
  orchestrator : script.orchestrator.settingsIdentifier = script.settings.identifier
  actions : script.orchestrator.actions ≠ []

/-! ## What is known of a session -/

section
variable {j : Nat} {before : List Action} {a : Action}

theorem created_snoc : created (before ++ [a]) = if a.type = .CREATE then a.count.toNat else created before := by
  unfold created
  rw [List.filter_append]
  by_cases h : a.type = .CREATE <;> simp [h]

theorem onSession_snoc :
    onSession j (before ++ [a]) = onSession j before ++ if a.Reaches j then [a.type] else [] := by
  unfold onSession
  rw [List.filter_append, List.map_append]
  by_cases h : a.Reaches j <;> simp [h]

theorem activeAfter_snoc {history : List ActionType} {t : ActionType} : ActiveAfter (history ++ [t]) ↔
    t = .CONNECT ∨ t ≠ .DRAIN ∧ ActiveAfter history := by
  unfold ActiveAfter
  rw [List.filter_append]
  by_cases h : t ∈ [ActionType.CONNECT, .DRAIN]
  · rw [List.filter_cons_of_pos (by simpa using h)]
    rcases List.mem_pair.mp h with rfl | rfl <;> simp
  · rw [List.filter_cons_of_neg (by simpa using h)]
    simp only [List.mem_cons, List.not_mem_nil, or_false, not_or] at h
    simp [h]

structure Knows (before : List Action) (st : ValidatorState) : Prop where
  sized : st.Sized
  pool : st.poolSize.toNat = created before
  active : ∀ j, (st.watch j).active = true ↔ ActiveAfter (onSession j before)
  disconnected : ∀ j, (st.watch j).disconnected = true ↔ .DISCONNECT ∈ onSession j before

theorem Knows.start : Knows [] .start := by
  refine ⟨start_sized, rfl, fun j => ?_, fun j => ?_⟩
  · simp [ValidatorState.watch, ValidatorState.start, ActiveAfter, onSession]
  · simp [ValidatorState.watch, ValidatorState.start, onSession]

variable {env : Env} {settings : SettingsBlock} {i : Nat} {st st' : ValidatorState}

theorem poolSize_of_verifyAction (h : verifyAction env settings i a st = .ok st') :
    st'.poolSize = if a.type = .CREATE then a.count else st.poolSize := by
  unfold verifyAction at h
  split at h
  · rename_i ht
    unfold verifyCreate at h
    split at h
    · cases h
    split at h
    · cases h
    obtain rfl := Except.ok.inj h
    rw [if_pos ht]
  · rename_i ht
    unfold verifyConnect at h
    split at h
    · cases h
    obtain ⟨_, _, h⟩ := bind_eq_ok h
    obtain ⟨_, _, h⟩ := bind_eq_ok h
    obtain rfl := Except.ok.inj h
    simp [ht]
  · rename_i ht
    obtain ⟨rfl, _⟩ := verifySend_connected h
    simp [ht]
  · rename_i ht
    unfold verifyFlood at h
    obtain ⟨_, _, h⟩ := bind_eq_ok h
    obtain ⟨_, _, h⟩ := bind_eq_ok h
    obtain rfl := Except.ok.inj h
    simp [ht]
  · rename_i ht
    unfold verifyDrain at h
    obtain ⟨_, _, h⟩ := bind_eq_ok h
    obtain ⟨_, _, h⟩ := bind_eq_ok h
    obtain rfl := Except.ok.inj h
    simp [ht]
  · rename_i ht
    unfold verifyDisconnect at h
    obtain ⟨_, _, h⟩ := bind_eq_ok h
    obtain ⟨_, _, h⟩ := bind_eq_ok h
    obtain rfl := Except.ok.inj h
    simp [ht]

theorem watchAction_bits {t : ActionType} {w w' : Watch} (h : watchAction w t = some w') :
    (w'.active = true ↔ t = .CONNECT ∨ t ≠ .DRAIN ∧ w.active = true) ∧
      (w'.disconnected = true ↔ w.disconnected = true ∨ t = .DISCONNECT) := by
  cases t with
  | CREATE => cases h
  | CONNECT | DRAIN | DISCONNECT =>
    simp only [watchAction] at h
    split at h <;> cases h
    simp
  | SEND | FLOOD =>
    simp only [watchAction] at h
    split at h
    · cases h
      simp
    · cases h

theorem Knows.step (hk : Knows before st) (h : verifyAction env settings i a st = .ok st') :
    Knows (before ++ [a]) st' := by
  obtain ⟨hsized, hmoves⟩ := verifyAction_watch hk.sized h
  have hbits : ∀ j, ((st'.watch j).active = true ↔ ActiveAfter (onSession j (before ++ [a]))) ∧
      ((st'.watch j).disconnected = true ↔ .DISCONNECT ∈ onSession j (before ++ [a])) := by
    intro j
    have hm := hmoves j
    rw [onSession_snoc]
    by_cases hr : a.Reaches j
    · rw [if_pos hr] at hm ⊢
      obtain ⟨hactive, hdisconnected⟩ := watchAction_bits hm
      rw [hactive, hdisconnected, activeAfter_snoc, List.mem_append, hk.active, hk.disconnected]
      simp [eq_comm]
    · rw [if_neg hr] at hm ⊢
      rw [hm, List.append_nil]
      exact ⟨hk.active j, hk.disconnected j⟩
  refine ⟨hsized, ?_, fun j => (hbits j).1, fun j => (hbits j).2⟩
  rw [poolSize_of_verifyAction h, created_snoc, ← hk.pool]
  split <;> rfl

end

/-! ## Each check -/

section
variable {env : Env} {settings : SettingsBlock} {i : Nat} {a : Action} {st : ValidatorState}
  {before : List Action} {bad : UInt8 → Bool} {value : Option UInt8} {reason : Nat → String}

/-- The entries of a sweep are read before the sweep stores to them. -/
theorem sweep_isOk : ∀ {js : List Nat} {v : List UInt8}, js.Nodup →
    ((sweep bad value reason js v).isOk ↔ ∀ j ∈ js, bad (v.getD j 0) = false)
  | [], v, _ => by simp [sweep, Except.isOk, Except.toBool]
  | j :: js, v, hn => by
    obtain ⟨hj, hn⟩ := List.nodup_cons.mp hn
    unfold sweep
    rw [List.forall_mem_cons]
    by_cases hb : bad (v.getD j 0) = true
    · rw [if_pos hb, hb]
      simp [Except.isOk, Except.toBool]
    · rw [if_neg hb, sweep_isOk hn]
      rw [Bool.not_eq_true] at hb
      cases value with
      | none => simp only [hb, true_and]
      | some x =>
        have hrest : ∀ k ∈ js, (v.set j x).getD k 0 = v.getD k 0 := by
          intro k hk
          have hne : j ≠ k := fun e => hj (e ▸ hk)
          simp [List.getD_eq_getElem?_getD, List.getElem?_set_ne hne]
        rw [and_iff_right hb]
        exact forall₂_congr fun k hk => by rw [hrest k hk]

theorem isOk_iff {α : Type} {p : ParseResult α} : p.isOk ↔ ∃ x, p = .ok x := by
  cases p with
  | error e => simp [Except.isOk, Except.toBool]
  | ok x => simp [Except.isOk, Except.toBool]

theorem isOk_seq {α β : Type} {p : ParseResult α} {q : ParseResult β} : (p >>= fun _ => q).isOk ↔ p.isOk ∧ q.isOk := by
  cases p with
  | error e => simp [bind, Except.bind, Except.isOk, Except.toBool]
  | ok x => simp [bind, Except.bind, Except.isOk, Except.toBool]

theorem isOk_last {α β : Type} {p : ParseResult α} {f : α → β} : (p >>= fun x => pure (f x)).isOk ↔ p.isOk := by
  cases p with
  | error e => simp [bind, Except.bind, Except.isOk, Except.toBool]
  | ok x => simp [bind, Except.bind, pure, Except.pure, Except.isOk, Except.toBool]

theorem verifyInPool_isOk {name middle last : String} {range : Range} {poolSize : UInt32} :
    (verifyInPool name middle last i range poolSize).isOk ↔ range.second.toNat ≤ poolSize.toNat := by
  unfold verifyInPool
  by_cases h : poolSize < range.second
  · rw [if_pos h]
    simp [Except.isOk, Except.toBool, Nat.not_le.mpr (UInt32.lt_iff_toNat_lt.mp h)]
  · rw [if_neg h]
    simp [Except.isOk, Except.toBool, UInt32.le_iff_toNat_le.mp (UInt32.not_lt.mp h)]

/-- SEND, FLOOD and DRAIN want their sessions connected. -/
theorem connected_isOk (hk : Knows before st) :
    (sweep (· != 1) value reason a.range.indices st.sessionActive).isOk ↔
      ∀ j, a.range.Contains j → ActiveAfter (onSession j before) := by
  rw [sweep_isOk (indices_nodup _)]
  refine forall_congr' fun j => ?_
  rw [mem_indices, ← hk.active]
  simp [ValidatorState.watch]

theorem connectable_isOk (hk : Knows before st) :
    (sweep (· == 1) value reason a.range.indices st.sessionActive).isOk ↔
      ∀ j, a.range.Contains j → ¬ ActiveAfter (onSession j before) := by
  rw [sweep_isOk (indices_nodup _)]
  refine forall_congr' fun j => ?_
  rw [mem_indices, ← hk.active]
  simp [ValidatorState.watch]

theorem disconnectable_isOk (hk : Knows before st) :
    (sweep (· == 1) value reason a.range.indices st.sessionDisconnectCalled).isOk ↔
      ∀ j, a.range.Contains j → .DISCONNECT ∉ onSession j before := by
  rw [sweep_isOk (indices_nodup _)]
  refine forall_congr' fun j => ?_
  rw [mem_indices, ← hk.disconnected]
  simp [ValidatorState.watch]

theorem Knows.pool_eq_zero (hk : Knows before st) : st.poolSize = 0 ↔ created before = 0 := by
  rw [← hk.pool, ← UInt32.toNat_inj]
  rfl

theorem verifyCreate_isOk (hk : Knows before st) :
    (verifyCreate settings i a st).isOk ↔ created before = 0 ∧ settings.shards ≤ a.count := by
  unfold verifyCreate
  rw [← hk.pool_eq_zero]
  by_cases hp : st.poolSize = 0
  · by_cases hc : a.count < settings.shards
    · simp [hp, hc, Except.isOk, Except.toBool, UInt32.not_le.mpr hc]
    · simp [hp, hc, Except.isOk, Except.toBool, UInt32.not_lt.mp hc]
  · simp [hp, Except.isOk, Except.toBool]

theorem verifyConnect_isOk (hk : Knows before st) : (verifyConnect i a st).isOk ↔
    created before ≠ 0 ∧ a.range.second.toNat ≤ created before ∧
      ∀ j, a.range.Contains j → ¬ ActiveAfter (onSession j before) := by
  unfold verifyConnect
  rw [ne_eq, ← hk.pool_eq_zero]
  by_cases hp : st.poolSize = 0
  · simp [hp, Except.isOk, Except.toBool, throw, throwThe, MonadExceptOf.throw, bind, Except.bind]
  · rw [if_neg hp, isOk_seq, isOk_last, verifyInPool_isOk, connectable_isOk hk, hk.pool, and_iff_right hp]

theorem verifyFlood_isOk (hk : Knows before st) : (verifyFlood i a st).isOk ↔
    a.range.second.toNat ≤ created before ∧ ∀ j, a.range.Contains j → ActiveAfter (onSession j before) := by
  unfold verifyFlood
  rw [isOk_seq, isOk_last, verifyInPool_isOk, connected_isOk hk, hk.pool]

theorem verifyDrain_isOk (hk : Knows before st) : (verifyDrain i a st).isOk ↔
    a.range.second.toNat ≤ created before ∧ ∀ j, a.range.Contains j → ActiveAfter (onSession j before) := by
  unfold verifyDrain
  rw [isOk_seq, isOk_last, verifyInPool_isOk, connected_isOk hk, hk.pool]

theorem verifyDisconnect_isOk (hk : Knows before st) : (verifyDisconnect i a st).isOk ↔
    a.range.second.toNat ≤ created before ∧ ∀ j, a.range.Contains j → .DISCONNECT ∉ onSession j before := by
  unfold verifyDisconnect
  rw [isOk_seq, isOk_last, verifyInPool_isOk, disconnectable_isOk hk, hk.pool]

/-! ## SEND -/

theorem verifyPacket_iff {size : UInt64} : verifyPacket env settings i a = .ok size ↔
    a.mods.modOrder.length = a.mods.timestampMods.length + a.mods.counterMods.length ∧ Carries env settings a size := by
  unfold verifyPacket Carries
  cases hf : settings.packetIdentifiers.lookup a.packetIdentifier with
  | none => simp
  | some file =>
    by_cases hm : a.mods.modOrder.length = a.mods.timestampMods.length + a.mods.counterMods.length
    · cases hr : resolveFile env file with
      | error e => simp [hm, hr]
      | ok path =>
        simp only [hm, hr, ne_eq, not_true_eq_false, if_false, true_and, Option.some.injEq, exists_eq_left',
          exists_and_left, Except.ok.injEq]
        by_cases hz : env.fileSize path = 0
        · rw [if_pos hz, hz]
          simp [eq_comm]
        · rw [if_neg hz, Except.ok.injEq]
          exact ⟨fun h => ⟨h, h ▸ hz⟩, And.left⟩
    · simp [hm]

theorem formats_of_ok : ∀ {ms : List TimestampModification} {map map' : ModRanges} {size : UInt64},
    verifyTimestampMods a size i map ms = .ok map' → ∀ m ∈ ms, m.formatName ∈ validTimeFormats
  | [], _, _, _, _ => by simp
  | m :: ms, map, map', size, h => by
    obtain ⟨_, _, h⟩ := bind_eq_ok h
    split at h
    · cases h
    rename_i hm
    obtain ⟨_, _, h⟩ := bind_eq_ok h
    exact List.forall_mem_cons.mpr ⟨not_not.mp hm, formats_of_ok h⟩

theorem steps_of_ok : ∀ {ms : List CounterModification} {map map' : ModRanges} {size : UInt64},
    verifyCounterMods a size i map ms = .ok map' → ∀ m ∈ ms, m.counterStep ≠ 0
  | [], _, _, _, _ => by simp
  | m :: ms, map, map', size, h => by
    obtain ⟨_, _, h⟩ := bind_eq_ok h
    split at h
    · cases h
    rename_i hm
    obtain ⟨_, _, h⟩ := bind_eq_ok h
    exact List.forall_mem_cons.mpr ⟨hm, steps_of_ok h⟩

theorem verifySend_isOk (hk : Knows before st) : (verifySend env settings i a st).isOk ↔
    a.range.second.toNat ≤ created before ∧ Sendable env settings a ∧
      ∀ j, a.range.Contains j → ActiveAfter (onSession j before) := by
  have hvalid : ∀ {size}, a.count ≠ 0 → a.range.second.toNat ≤ created before →
      verifyPacket env settings i a = .ok size → (∀ m ∈ a.mods.timestampMods, m.formatName ∈ validTimeFormats) →
      (∀ m ∈ a.mods.counterMods, m.counterStep ≠ 0) → (∀ j, a.range.Contains j → ActiveAfter (onSession j before)) →
      OtherwiseValid env settings i a st size := by
    intro size hcount hpool hpacket hformats hsteps hactive
    refine ⟨hcount, ?_, hpacket, hformats, hsteps, (connected_isOk hk).mpr hactive⟩
    unfold verifyInPool
    rw [← hk.pool] at hpool
    rw [if_neg (UInt32.not_lt.mpr (UInt32.le_iff_toNat_le.mpr hpool))]
  constructor
  · intro hok
    obtain ⟨st', h⟩ := isOk_iff.mp hok
    unfold verifySend at h
    split at h
    · cases h
    rename_i hcount
    obtain ⟨⟨⟩, hpool, h⟩ := bind_eq_ok h
    obtain ⟨size, hpacket, h⟩ := bind_eq_ok h
    obtain ⟨map, hts, h⟩ := bind_eq_ok h
    obtain ⟨map', hcs, h⟩ := bind_eq_ok h
    obtain ⟨v, hsweep, -⟩ := bind_eq_ok h
    have hpool' := hk.pool ▸ verifyInPool_ok hpool
    have hactive := (connected_isOk hk).mp (by rw [hsweep]; rfl)
    have hformats := formats_of_ok hts
    have hsteps := steps_of_ok hcs
    obtain ⟨hspread, hshort⟩ := (verifySend_ok_iff (hvalid hcount hpool' hpacket hformats hsteps hactive)).mp hok
    obtain ⟨haccounted, hcarries⟩ := verifyPacket_iff.mp hpacket
    exact ⟨hpool', ⟨hcount, haccounted, hformats, hsteps, hspread, size, hcarries, hshort⟩, hactive⟩
  · rintro ⟨hpool, hs, hactive⟩
    obtain ⟨size, hcarries, hshort⟩ := hs.packet
    have hpacket : verifyPacket env settings i a = .ok size := verifyPacket_iff.mpr ⟨hs.accounted, hcarries⟩
    exact (verifySend_ok_iff (hvalid hs.copies hpool hpacket hs.formats hs.steps hactive)).mpr ⟨hs.spread, hshort⟩

theorem verifyAction_isOk (hk : Knows before st) :
    (verifyAction env settings i a st).isOk ↔ Permits env settings before a := by
  unfold verifyAction Permits
  cases a.type with
  | CREATE => exact verifyCreate_isOk hk
  | CONNECT => exact verifyConnect_isOk hk
  | SEND => exact verifySend_isOk hk
  | FLOOD => exact verifyFlood_isOk hk
  | DRAIN => exact verifyDrain_isOk hk
  | DISCONNECT => exact verifyDisconnect_isOk hk

end

/-! ## What an error names -/

def StartsWith (name : String) (i : Nat) (e : String) : Prop := ∃ style rest, e = actionRef name style i ++ rest

def Blames {α : Type} (name : String) (i : Nat) (p : ParseResult α) : Prop := ∀ e, p = .error e → StartsWith name i e

section
variable {α β : Type} {name e : String} {i : Nat}

@[simp] theorem StartsWith.ref {style : PrintStyle} (s : String) : StartsWith name i (actionRef name style i ++ s) :=
  ⟨style, s, rfl⟩

@[simp] theorem StartsWith.scheduled {session : String} (s : String) :
    StartsWith name i (scheduledFor name i session ++ s) := by
  simp only [scheduledFor, String.append_assoc, StartsWith.ref]

@[simp] theorem StartsWith.notConnected {j : Nat} : StartsWith name i (notConnected name i j) := .scheduled _

@[simp] theorem StartsWith.badRange {overlapped r : Range} : StartsWith "SEND" i (badRangeError overlapped r i) := by
  simp only [badRangeError, String.append_assoc, StartsWith.ref]

theorem Blames.ok (x : α) : Blames name i (.ok x) := nofun

theorem Blames.error (h : StartsWith name i e) : Blames name i (.error e : ParseResult α) := by
  intro e' he
  obtain rfl := Except.error.inj he
  exact h

theorem Blames.bind {p : ParseResult α} {f : α → ParseResult β} (hp : Blames name i p)
    (hf : ∀ x, Blames name i (f x)) : Blames name i (p >>= f) := by
  cases p with
  | error e => exact .error (hp e rfl)
  | ok x => exact hf x

theorem Blames.ite {c : Prop} [Decidable c] {p q : ParseResult α} (hp : Blames name i p) (hq : Blames name i q) :
    Blames name i (if c then p else q) := by
  split
  · exact hp
  · exact hq

theorem Blames.inPool {middle last : String} {range : Range} {poolSize : UInt32} :
    Blames name i (verifyInPool name middle last i range poolSize) :=
  .ite (.error (by simp [String.append_assoc])) (.ok _)

theorem Blames.sweep {bad : UInt8 → Bool} {value : Option UInt8} {reason : Nat → String}
    (h : ∀ j, StartsWith name i (reason j)) : ∀ {js : List Nat} {v : List UInt8}, Blames name i (sweep bad value reason js v)
  | [], v => .ok v
  | j :: js, v => by
    unfold Loadshear.sweep
    exact .ite (.error (h j)) (Blames.sweep h)

end

section
variable {env : Env} {settings : SettingsBlock} {i : Nat} {a : Action} {st : ValidatorState}

theorem verifyCreate_blames : Blames "CREATE" i (verifyCreate settings i a st) := by
  unfold verifyCreate
  exact .ite (.error (by simp [String.append_assoc])) (.ite (.error (by simp [String.append_assoc])) (.ok _))

theorem verifyConnect_blames : Blames "CONNECT" i (verifyConnect i a st) := by
  unfold verifyConnect
  exact .ite (.error (by simp [String.append_assoc])) (.bind .inPool fun _ => .bind (.sweep (by simp)) fun _ => .ok _)

theorem verifyFlood_blames : Blames "FLOOD" i (verifyFlood i a st) := by
  unfold verifyFlood
  exact .bind .inPool fun _ => .bind (.sweep (by simp)) fun _ => .ok _

theorem verifyDrain_blames : Blames "DRAIN" i (verifyDrain i a st) := by
  unfold verifyDrain
  exact .bind .inPool fun _ => .bind (.sweep (by simp)) fun _ => .ok _

theorem verifyDisconnect_blames : Blames "DISCONNECT" i (verifyDisconnect i a st) := by
  unfold verifyDisconnect
  exact .bind .inPool fun _ => .bind (.sweep (by simp)) fun _ => .ok _

theorem verifyPacket_blames : Blames "SEND" i (verifyPacket env settings i a) := by
  unfold verifyPacket
  split
  · exact .error (by simp [String.append_assoc])
  · refine .ite (.error (by simp [String.append_assoc])) ?_
    split
    · exact .error (by simp [String.append_assoc])
    · exact .ite (.error (by simp [String.append_assoc])) (.ok _)

theorem insertModRange_blames {map : ModRanges} {r : Range} : Blames "SEND" i (insertModRange map r i) := by
  unfold insertModRange
  cases lowerBound map r.start with
  | none =>
    cases beforeLowerBound map r.start with
    | none => exact .ok _
    | some p => exact .ite (.error .badRange) (.ok _)
  | some e =>
    cases beforeLowerBound map r.start with
    | none => exact .ite (.error .badRange) (.ok _)
    | some p => exact .ite (.error .badRange) (.ite (.error .badRange) (.ok _))

theorem verifyModBytes_blames {name : String} {size : UInt64} {r : Range} :
    Blames "SEND" i (verifyModBytes name a size i r) := by
  unfold verifyModBytes
  exact .ite (.error (by simp [String.append_assoc])) (.ite (.error (by simp [String.append_assoc])) (.ok _))

theorem verifyTimestampMods_blames {size : UInt64} : ∀ {ms : List TimestampModification} {map : ModRanges},
    Blames "SEND" i (verifyTimestampMods a size i map ms)
  | [], map => .ok map
  | m :: ms, map => by
    unfold verifyTimestampMods
    refine .bind insertModRange_blames fun map => .ite (.error (by simp [String.append_assoc])) ?_
    exact .bind verifyModBytes_blames fun _ => verifyTimestampMods_blames

theorem verifyCounterMods_blames {size : UInt64} : ∀ {ms : List CounterModification} {map : ModRanges},
    Blames "SEND" i (verifyCounterMods a size i map ms)
  | [], map => .ok map
  | m :: ms, map => by
    unfold verifyCounterMods
    refine .bind insertModRange_blames fun map => .ite (.error (by simp [String.append_assoc])) ?_
    exact .bind verifyModBytes_blames fun _ => verifyCounterMods_blames

theorem verifySend_blames : Blames "SEND" i (verifySend env settings i a st) := by
  unfold verifySend
  refine .ite (.error (by simp [String.append_assoc])) (.bind .inPool fun _ => .bind verifyPacket_blames fun _ => ?_)
  refine .bind verifyTimestampMods_blames fun _ => .bind verifyCounterMods_blames fun _ => ?_
  exact .bind (.sweep (by simp)) fun _ => .ok _

theorem verifyAction_blames : Blames a.type.keyword i (verifyAction env settings i a st) := by
  unfold verifyAction
  cases a.type with
  | CREATE => exact verifyCreate_blames
  | CONNECT => exact verifyConnect_blames
  | SEND => exact verifySend_blames
  | FLOOD => exact verifyFlood_blames
  | DRAIN => exact verifyDrain_blames
  | DISCONNECT => exact verifyDisconnect_blames

end

/-! ## The actions of a script -/

section
variable {env : Env} {settings : SettingsBlock} {a : Action} {before : List Action} {st : ValidatorState}

theorem Permitted.nil : Permitted env settings [] := by
  intro before a after h
  simp at h

theorem permitted_snoc : Permitted env settings (before ++ [a]) ↔
    Permitted env settings before ∧ Permits env settings before a := by
  constructor
  · intro h
    refine ⟨fun b x after hb => h b x (after ++ [a]) (by simp [hb]), h before a [] rfl⟩
  · intro ⟨hbefore, ha⟩ b x after h
    rcases List.eq_nil_or_concat after with rfl | ⟨after, y, rfl⟩
    · obtain ⟨rfl, hx⟩ := List.append_inj' h rfl
      obtain rfl := List.head_eq_of_cons_eq hx
      exact ha
    · rw [List.concat_eq_append, ← List.cons_append, ← List.append_assoc] at h
      obtain ⟨hb, -⟩ := List.append_inj' h rfl
      exact hbefore b x after hb

/-- The error is about the first action that is not permitted. -/
def Faults (env : Env) (settings : SettingsBlock) (actions : List Action) (e : String) : Prop :=
  ∃ before a after, actions = before ++ a :: after ∧ Permitted env settings before ∧ ¬ Permits env settings before a ∧
    StartsWith a.type.keyword before.length e

theorem Faults.not_permitted {actions : List Action} {e : String} (h : Faults env settings actions e) :
    ¬ Permitted env settings actions := by
  obtain ⟨before, a, after, rfl, -, ha, -⟩ := h
  exact fun hp => ha (hp before a after rfl)

theorem verifyActions_verdict : ∀ {actions before : List Action} {st : ValidatorState}, Knows before st →
    Permitted env settings before →
    (∃ st', verifyActions env settings before.length st actions = .ok st' ∧ Permitted env settings (before ++ actions)) ∨
    ∃ e, verifyActions env settings before.length st actions = .error e ∧ Faults env settings (before ++ actions) e
  | [], before, st, _, hp => .inl ⟨st, rfl, by rwa [List.append_nil]⟩
  | a :: actions, before, st, hk, hp => by
    have hpermits := @verifyAction_isOk env settings before.length a st before hk
    rw [verifyActions]
    cases h : verifyAction env settings before.length a st with
    | error e =>
      rw [h] at hpermits
      exact .inr ⟨e, rfl, before, a, actions, rfl, hp, fun ha => Bool.false_ne_true (hpermits.mpr ha),
        verifyAction_blames e h⟩
    | ok st' =>
      rw [h] at hpermits
      have hsnoc : Permitted env settings (before ++ [a]) := permitted_snoc.mpr ⟨hp, hpermits.mp rfl⟩
      rw [← List.singleton_append, ← List.append_assoc, ← show (before ++ [a]).length = before.length + 1 by simp]
      exact verifyActions_verdict (hk.step h) hsnoc

end

/-! ## The whole script -/

section
variable {env : Env} {script : DSLData}

theorem verifyPacketFiles_ok : ∀ {packets : List (String × String)},
    verifyPacketFiles env packets = .ok () ↔ ∀ p ∈ packets, ∃ path, resolveFile env p.2 = .ok path
  | [] => by simp [verifyPacketFiles]
  | p :: packets => by
    rw [verifyPacketFiles, List.forall_mem_cons, ← verifyPacketFiles_ok]
    cases resolveFile env p.2 with
    | error e => simp
    | ok path => simp

theorem verifyHandler_ok {settings : SettingsBlock} : verifyHandler env settings = .ok () ↔
    (settings.read = true → settings.handlerValue = "NOP" ∨
      endsWith settings.handlerValue ".wasm" = true ∧ ∃ path, resolveFile env settings.handlerValue = .ok path) := by
  unfold verifyHandler validMessageHandlers
  by_cases hr : settings.read = true
  · by_cases hn : settings.handlerValue = "NOP"
    · simp [hr, hn]
    · by_cases hw : endsWith settings.handlerValue ".wasm" = true
      · cases resolveFile env settings.handlerValue with
        | error e => simp [hr, hn, hw]
        | ok path => simp [hr, hn, hw]
      · simp [hr, hn, hw]
  · simp [hr]

/-- A check that is one test. -/
theorem test_ok {c : Prop} [Decidable c] {e : String} : (if c then .error e else .ok () : ParseResult Unit) = .ok () ↔ ¬ c := by
  split <;> simp [*]

theorem verifyOrchestratorName_ok (h : script.settings.identifier ≠ "") :
    verifyOrchestratorName script = .ok () ↔ script.orchestrator.settingsIdentifier = script.settings.identifier := by
  unfold verifyOrchestratorName
  by_cases he : script.orchestrator.settingsIdentifier = ""
  · simp [he, h.symm]
  · simp [he]

theorem verifyProtocol_ok {settings : SettingsBlock} : verifyProtocol settings = .ok () ↔
    settings.sessionProtocol = "TCP" ∨ settings.sessionProtocol = "UDP" := by
  unfold verifyProtocol
  rw [test_ok, not_not, validProtocols, List.mem_pair]

theorem verifyPort_ok {settings : SettingsBlock} (h : settings.sessionProtocol = "TCP" ∨ settings.sessionProtocol = "UDP") :
    verifyPort settings = .ok () ↔ settings.port ≠ 0 := by
  unfold verifyPort
  rw [test_ok, and_iff_right h]

theorem verifyPacketsDefined_ok : verifyPacketsDefined script = .ok () ↔
    (script.settings.packetIdentifiers = [] → ∀ a ∈ script.orchestrator.actions, a.type ≠ .SEND) := by
  unfold verifyPacketsDefined
  rw [test_ok]
  simp

theorem Configured.checks (h : Configured env script) :
    verifyScript env script = do
      let _ ← verifyActions env script.settings 0 .start script.orchestrator.actions
      return () := by
  have hidentifier : verifyIdentifier script.settings = .ok () := test_ok.mpr h.identifier
  have hheader : verifyHeaderSize script.settings = .ok () := test_ok.mpr fun hc => (h.reading hc.2).1 hc.1
  have hbody : verifyBodyMax script.settings = .ok () := test_ok.mpr fun hc => (h.reading hc.2).2 hc.1
  have hshards : verifyShards script.settings = .ok () := test_ok.mpr h.shards
  have hendpoints : verifyEndpoints script.settings = .ok () := test_ok.mpr h.endpoints
  have hactions : verifyHasActions script = .ok () := test_ok.mpr fun hc => h.actions (List.length_eq_zero_iff.mp hc)
  unfold verifyScript
  rw [hidentifier, verifyProtocol_ok.mpr h.protocol, (verifyPort_ok h.protocol).mpr h.port, hheader, hbody, hshards, hendpoints,
    verifyPacketsDefined_ok.mpr h.defined, verifyPacketFiles_ok.mpr h.packets, verifyHandler_ok.mpr h.handler,
    (verifyOrchestratorName_ok h.identifier).mpr h.orchestrator, hactions]
  rfl

theorem Configured.of_ok (h : verifyScript env script = .ok ()) : Configured env script := by
  obtain ⟨hc, hheader, hbody⟩ := verifyScript_ok.mp h
  have hidentifier := test_ok.mp hc.identifier
  have hprotocol := verifyProtocol_ok.mp hc.protocol
  refine ⟨hidentifier, hprotocol, (verifyPort_ok hprotocol).mp hc.port, fun hr => ⟨fun hz => ?_, fun hz => ?_⟩,
    test_ok.mp hc.shards, test_ok.mp hc.endpoints, verifyPacketsDefined_ok.mp hc.packetsDefined,
    verifyPacketFiles_ok.mp hc.packetFiles, verifyHandler_ok.mp hc.handler,
    (verifyOrchestratorName_ok hidentifier).mp hc.orchestratorName, fun hz => test_ok.mp hc.hasActions (by rw [hz]; rfl)⟩
  · exact test_ok.mp hheader ⟨hz, hr⟩
  · exact test_ok.mp hbody ⟨hz, hr⟩

theorem verifyScript_verdict (h : Configured env script) :
    (verifyScript env script = .ok () ∧ Permitted env script.settings script.orchestrator.actions) ∨
      ∃ e, verifyScript env script = .error e ∧ Faults env script.settings script.orchestrator.actions e := by
  rw [h.checks, show (0 : Nat) = ([] : List Action).length from rfl]
  rcases verifyActions_verdict .start .nil with ⟨st, hv, hp⟩ | ⟨e, hv, hf⟩
  · exact .inl ⟨by rw [hv]; rfl, hp⟩
  · exact .inr ⟨e, by rw [hv]; rfl, hf⟩

end

/-- The validator accepts exactly the scripts that are configured and whose
actions may each come after those before them. -/
theorem verifyScript_accepts_iff {env : Env} {script : DSLData} : verifyScript env script = .ok () ↔
    Configured env script ∧ Permitted env script.settings script.orchestrator.actions := by
  constructor
  · intro h
    have hc := Configured.of_ok h
    rcases verifyScript_verdict hc with ⟨-, hp⟩ | ⟨e, he, -⟩
    · exact ⟨hc, hp⟩
    · rw [h] at he
      cases he
  · intro ⟨hc, hp⟩
    rcases verifyScript_verdict hc with ⟨h, -⟩ | ⟨e, -, hf⟩
    · exact h
    · exact absurd hp hf.not_permitted

/-- The validator's error about a configured script starts with the keyword and
the number of the first action that is not permitted. -/
theorem verifyScript_blames_first {env : Env} {script : DSLData} {e : String} (hc : Configured env script)
    (h : verifyScript env script = .error e) : Faults env script.settings script.orchestrator.actions e := by
  rcases verifyScript_verdict hc with ⟨hok, -⟩ | ⟨e', he, hf⟩
  · rw [h] at hok
    cases hok
  · rw [h] at he
    cases he
    exact hf

theorem plainScript_configured {actions : List Action} (h : actions ≠ []) : Configured plainEnv (plainScript actions) := by
  have hpacket : ∀ p ∈ [("p", "p.bin")], ∃ path, resolveFile plainEnv p.2 = .ok path := by
    rw [← verifyPacketFiles_ok]
    decide +kernel
  have hsettings : (plainScript actions).settings = (plainScript []).settings := rfl
  refine ⟨?_, .inl rfl, ?_, nofun, ?_, ?_, nofun, hpacket, nofun, rfl, h⟩
  all_goals
    rw [hsettings]
    decide

/-- A second CONNECT is the third action. -/
theorem verifyScript_blames_first_twice :
    Faults plainEnv (plainScript []).settings [createAction 1, rangedAction .CONNECT 0 1, rangedAction .CONNECT 0 1]
      (scheduledFor "CONNECT" 2 "0" ++ " while already scheduled") := by
  have hc : Configured plainEnv
      (plainScript [createAction 1, rangedAction .CONNECT 0 1, rangedAction .CONNECT 0 1]) :=
    plainScript_configured (by simp)
  exact verifyScript_blames_first hc (by decide +kernel)

end Loadshear
