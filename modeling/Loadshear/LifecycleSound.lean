import Mathlib.Data.List.Induction
import Loadshear.Interpreter

/-!
# The life of a session in an accepted script

For each session the validator is an automaton over two bits (`watch`): a bit
that CONNECT sets and DRAIN clears, and one that DISCONNECT sets and nothing
clears. `lifecycle_iff` says which of the scripts it lets through keep the
lifecycle of the session.
-/

namespace Loadshear

/-! ## One session of the validator -/

structure Watch where
  active : Bool
  disconnected : Bool
deriving DecidableEq

def Watch.start : Watch := ⟨false, false⟩

/-- What an action that reaches the session does to its two entries; `none`
where the validator returns an error. -/
def watchAction (w : Watch) : ActionType → Option Watch
  | .CREATE => none
  | .CONNECT => if w.active then none else some { w with active := true }
  | .SEND | .FLOOD => if w.active then some w else none
  | .DRAIN => if w.active then some { w with active := false } else none
  | .DISCONNECT => if w.disconnected then none else some { w with disconnected := true }

def watch : Watch → List ActionType → Option Watch
  | w, [] => some w
  | w, t :: ts => (watchAction w t).bind (watch · ts)

theorem watch_append (l₁ l₂ : List ActionType) : ∀ w, watch w (l₁ ++ l₂) = (watch w l₁).bind (watch · l₂) := by
  induction l₁ with
  | nil => intro w; rfl
  | cons t l₁ ih =>
    intro w
    simp only [List.cons_append, watch]
    cases watchAction w t with
    | none => rfl
    | some w' => simp [ih]

def Range.Contains (r : Range) (j : Nat) : Prop := r.start.toNat ≤ j ∧ j < r.second.toNat

instance (r : Range) (j : Nat) : Decidable (r.Contains j) := inferInstanceAs (Decidable (_ ∧ _))

theorem mem_indices {r : Range} {j : Nat} : j ∈ r.indices ↔ r.Contains j := by
  simp only [Range.indices, Range.Contains, List.mem_range'_1]
  omega

theorem indices_nodup (r : Range) : r.indices.Nodup := List.nodup_range'

/-- The action is one of session `j`; CREATE makes sessions and is none of
any. -/
def Action.Reaches (a : Action) (j : Nat) : Prop := a.type ≠ .CREATE ∧ a.range.Contains j

instance (a : Action) (j : Nat) : Decidable (a.Reaches j) := inferInstanceAs (Decidable (_ ∧ _))

def onSession (j : Nat) (actions : List Action) : List ActionType :=
  (actions.filter (·.Reaches j)).map (·.type)

/-! ## The sweeps -/

section
variable {bad : UInt8 → Bool} {reason : Nat → String}

theorem sweep_check : ∀ {js : List Nat} {v v' : List UInt8}, sweep bad none reason js v = .ok v' →
    v' = v ∧ ∀ j ∈ js, bad (v.getD j 0) = false
  | [], v, v', h => by
    simp only [sweep, Except.ok.injEq] at h
    exact ⟨h.symm, by simp⟩
  | j :: js, v, v', h => by
    rw [sweep] at h
    split at h
    · cases h
    · rename_i hb
      obtain ⟨rfl, ih⟩ := sweep_check h
      exact ⟨rfl, List.forall_mem_cons.mpr ⟨by simpa using hb, ih⟩⟩

theorem getD_set (v : List UInt8) (j k : Nat) (x : UInt8) (hj : j < v.length) :
    (v.set j x).getD k 0 = if k = j then x else v.getD k 0 := by
  simp only [List.getD_eq_getElem?_getD, List.getElem?_set]
  by_cases hk : j = k
  · subst hk; simp [hj]
  · rw [if_neg hk, if_neg (Ne.symm hk)]

theorem sweep_store {x : UInt8} : ∀ {js : List Nat} {v v' : List UInt8},
    sweep bad (some x) reason js v = .ok v' → js.Nodup → (∀ j ∈ js, j < v.length) →
    v'.length = v.length ∧ (∀ j ∈ js, bad (v.getD j 0) = false) ∧
      ∀ k, v'.getD k 0 = if k ∈ js then x else v.getD k 0
  | [], v, v', h, _, _ => by
    simp only [sweep, Except.ok.injEq] at h
    subst h
    exact ⟨rfl, by simp, by simp⟩
  | j :: js, v, v', h, hn, hlt => by
    rw [sweep] at h
    split at h
    · cases h
    · rename_i hb
      obtain ⟨hj, hn⟩ := List.nodup_cons.mp hn
      obtain ⟨hjl, hlt⟩ := List.forall_mem_cons.mp hlt
      obtain ⟨hl, hbad, hget⟩ := sweep_store h hn (by simpa using hlt)
      refine ⟨by simpa using hl, List.forall_mem_cons.mpr ⟨by simpa using hb, ?_⟩, ?_⟩
      · intro k hk
        have := hbad k hk
        rwa [getD_set _ _ _ _ hjl, if_neg (fun e : k = j => hj (e ▸ hk))] at this
      · intro k
        rw [hget, getD_set _ _ _ _ hjl]
        by_cases hk : k = j
        · subst hk; simp
        · simp [hk]

end

/-! ## The validator, one session at a time -/

structure ValidatorState.Sized (st : ValidatorState) : Prop where
  active : st.sessionActive.length = st.poolSize.toNat
  called : st.sessionDisconnectCalled.length = st.poolSize.toNat

def ValidatorState.watch (st : ValidatorState) (j : Nat) : Watch where
  active := st.sessionActive.getD j 0 == 1
  disconnected := st.sessionDisconnectCalled.getD j 0 == 1

theorem verifyInPool_ok {name middle last : String} {i : Nat} {range : Range} {poolSize : UInt32}
    (h : verifyInPool name middle last i range poolSize = .ok ()) : range.second.toNat ≤ poolSize.toNat := by
  unfold verifyInPool at h
  split at h
  · cases h
  · rename_i hlt
    rw [UInt32.lt_iff_toNat_lt] at hlt
    omega

theorem start_sized : ValidatorState.start.Sized := ⟨rfl, rfl⟩

def Moves (a : Action) (st st' : ValidatorState) : Prop :=
  ∀ j, if a.Reaches j then watchAction (st.watch j) a.type = some (st'.watch j) else st'.watch j = st.watch j

theorem verifyCreate_watch {settings : SettingsBlock} {i : Nat} {a : Action} {st st' : ValidatorState}
    (ht : a.type = .CREATE) (hst : st.Sized) (h : verifyCreate settings i a st = .ok st') :
    st'.Sized ∧ Moves a st st' := by
  unfold verifyCreate at h
  split at h
  · cases h
  rename_i hp
  split at h
  · cases h
  simp only [Except.ok.injEq] at h
  have hp : st.poolSize.toNat = 0 := by simpa using congrArg UInt32.toNat (not_not.mp hp)
  have ha : st.sessionActive = [] := List.length_eq_zero_iff.mp (hst.active.trans hp)
  have hc : st.sessionDisconnectCalled = [] := List.length_eq_zero_iff.mp (hst.called.trans hp)
  have hzero : ∀ n j, (resize [] n).getD j 0 = 0 := by
    intro n j
    simp only [resize, List.take_nil, List.length_nil, Nat.sub_zero, List.nil_append,
      List.getD_eq_getElem?_getD, List.getElem?_replicate]
    split <;> rfl
  subst h
  refine ⟨⟨by simp [resize, ha], by simp [resize, hc]⟩, fun j => ?_⟩
  rw [if_neg (fun hr => hr.1 ht)]
  simp only [ValidatorState.watch, ha, hc, hzero]
  rfl

theorem verifyConnect_watch {i : Nat} {a : Action} {st st' : ValidatorState} (ht : a.type = .CONNECT)
    (hst : st.Sized) (h : verifyConnect i a st = .ok st') : st'.Sized ∧ Moves a st st' := by
  unfold verifyConnect at h
  split at h
  · cases h
  obtain ⟨_, hin, h⟩ := bind_eq_ok h
  obtain ⟨active, hs, h⟩ := bind_eq_ok h
  have hin := verifyInPool_ok hin
  simp only [pure, Except.pure, Except.ok.injEq] at h
  subst h
  obtain ⟨hl, hbad, hget⟩ := sweep_store hs (indices_nodup _) (by
    intro j hj; have := (mem_indices.mp hj).2; rw [hst.active]; omega)
  refine ⟨⟨hl.trans hst.active, hst.called⟩, fun j => ?_⟩
  simp only [ValidatorState.watch, hget, mem_indices, Action.Reaches, ht]
  by_cases hj : a.range.Contains j
  · have := hbad j (mem_indices.mpr hj)
    simp [hj, watchAction, this, -List.getD_eq_getElem?_getD]
  · simp [hj]

theorem verifyDrain_watch {i : Nat} {a : Action} {st st' : ValidatorState} (ht : a.type = .DRAIN)
    (hst : st.Sized) (h : verifyDrain i a st = .ok st') : st'.Sized ∧ Moves a st st' := by
  unfold verifyDrain at h
  obtain ⟨_, hin, h⟩ := bind_eq_ok h
  obtain ⟨active, hs, h⟩ := bind_eq_ok h
  have hin := verifyInPool_ok hin
  simp only [pure, Except.pure, Except.ok.injEq] at h
  subst h
  obtain ⟨hl, hbad, hget⟩ := sweep_store hs (indices_nodup _) (by
    intro j hj; have := (mem_indices.mp hj).2; rw [hst.active]; omega)
  refine ⟨⟨hl.trans hst.active, hst.called⟩, fun j => ?_⟩
  simp only [ValidatorState.watch, hget, mem_indices, Action.Reaches, ht]
  by_cases hj : a.range.Contains j
  · have := hbad j (mem_indices.mpr hj)
    simp only [bne_eq_false_iff_eq] at this
    simp [hj, watchAction, this, -List.getD_eq_getElem?_getD]
  · simp [hj]

theorem verifyDisconnect_watch {i : Nat} {a : Action} {st st' : ValidatorState} (ht : a.type = .DISCONNECT)
    (hst : st.Sized) (h : verifyDisconnect i a st = .ok st') : st'.Sized ∧ Moves a st st' := by
  unfold verifyDisconnect at h
  obtain ⟨_, hin, h⟩ := bind_eq_ok h
  obtain ⟨called, hs, h⟩ := bind_eq_ok h
  have hin := verifyInPool_ok hin
  simp only [pure, Except.pure, Except.ok.injEq] at h
  subst h
  obtain ⟨hl, hbad, hget⟩ := sweep_store hs (indices_nodup _) (by
    intro j hj; have := (mem_indices.mp hj).2; rw [hst.called]; omega)
  refine ⟨⟨hst.active, hl.trans hst.called⟩, fun j => ?_⟩
  simp only [ValidatorState.watch, hget, mem_indices, Action.Reaches, ht]
  by_cases hj : a.range.Contains j
  · have := hbad j (mem_indices.mpr hj)
    simp [hj, watchAction, this, -List.getD_eq_getElem?_getD]
  · simp [hj]

/-- SEND and FLOOD look at the bit of CONNECT and store nothing. -/
theorem moves_of_connected {a : Action} {st : ValidatorState} (ht : a.type = .SEND ∨ a.type = .FLOOD)
    {reason : Nat → String} {v : List UInt8}
    (h : sweep (· != 1) none reason a.range.indices st.sessionActive = .ok v) : Moves a st st := by
  obtain ⟨_, hbad⟩ := sweep_check h
  intro j
  split
  · rename_i hr
    have := hbad j (mem_indices.mpr hr.2)
    simp only [bne_eq_false_iff_eq] at this
    rcases ht with ht | ht <;> simp [ht, watchAction, ValidatorState.watch, this, -List.getD_eq_getElem?_getD]
  · rfl

theorem verifySend_connected {env : Env} {settings : SettingsBlock} {i : Nat} {a : Action} {st st' : ValidatorState}
    (h : verifySend env settings i a st = .ok st') :
    st' = st ∧ ∃ v, sweep (· != 1) none (notConnected "SEND" i) a.range.indices st.sessionActive = .ok v := by
  unfold verifySend at h
  split at h
  · cases h
  obtain ⟨_, _, h⟩ := bind_eq_ok h
  obtain ⟨_, _, h⟩ := bind_eq_ok h
  obtain ⟨_, _, h⟩ := bind_eq_ok h
  obtain ⟨_, _, h⟩ := bind_eq_ok h
  obtain ⟨v, hs, h⟩ := bind_eq_ok h
  exact ⟨(Except.ok.inj h).symm, v, hs⟩

theorem verifyAction_watch {env : Env} {settings : SettingsBlock} {i : Nat} {a : Action}
    {st st' : ValidatorState} (hst : st.Sized) (h : verifyAction env settings i a st = .ok st') :
    st'.Sized ∧ Moves a st st' := by
  unfold verifyAction at h
  cases ht : a.type with
  | CREATE => rw [ht] at h; exact verifyCreate_watch ht hst h
  | CONNECT => rw [ht] at h; exact verifyConnect_watch ht hst h
  | DRAIN => rw [ht] at h; exact verifyDrain_watch ht hst h
  | DISCONNECT => rw [ht] at h; exact verifyDisconnect_watch ht hst h
  | SEND =>
    rw [ht] at h
    obtain ⟨rfl, _, hs⟩ := verifySend_connected h
    exact ⟨hst, moves_of_connected (Or.inl ht) hs⟩
  | FLOOD =>
    rw [ht] at h
    change verifyFlood i a st = .ok st' at h
    unfold verifyFlood at h
    obtain ⟨_, _, h⟩ := bind_eq_ok h
    obtain ⟨_, hs, h⟩ := bind_eq_ok h
    simp only [pure, Except.pure, Except.ok.injEq] at h
    subst h
    exact ⟨hst, moves_of_connected (Or.inr ht) hs⟩

/-- Every accepted list runs the automaton of every session. -/
theorem verifyActions_watch {env : Env} {settings : SettingsBlock} : ∀ {actions : List Action} {i : Nat}
    {st st' : ValidatorState}, st.Sized → verifyActions env settings i st actions = .ok st' →
    st'.Sized ∧ ∀ j, watch (st.watch j) (onSession j actions) = some (st'.watch j)
  | [], i, st, st', hst, h => by
    simp only [verifyActions, Except.ok.injEq] at h
    subst h
    exact ⟨hst, fun j => rfl⟩
  | a :: actions, i, st, st', hst, h => by
    rw [verifyActions] at h
    obtain ⟨st₁, h₁, h⟩ := bind_eq_ok h
    obtain ⟨hst₁, hm⟩ := verifyAction_watch hst h₁
    obtain ⟨hst', ih⟩ := verifyActions_watch hst₁ h
    refine ⟨hst', fun j => ?_⟩
    have hm := hm j
    unfold onSession
    by_cases hr : a.Reaches j
    · rw [if_pos hr] at hm
      rw [List.filter_cons_of_pos (by simpa using hr), List.map_cons, watch, hm, Option.bind_some]
      exact ih j
    · rw [if_neg hr] at hm
      rw [List.filter_cons_of_neg (by simpa using hr), ← hm]
      exact ih j

theorem verifyScript_actions {env : Env} {script : DSLData} (h : verifyScript env script = .ok ()) :
    script.settings.shards ≠ 0 ∧
      ∃ st, verifyActions env script.settings 0 .start script.orchestrator.actions = .ok st := by
  have hc := (verifyScript_ok.mp h).1
  refine ⟨fun hz => ?_, hc.actions⟩
  have hs := hc.shards
  simp [verifyShards, hz] at hs

theorem verifyScript_watch {env : Env} {script : DSLData} (h : verifyScript env script = .ok ()) (j : Nat) :
    ∃ w, watch .start (onSession j script.orchestrator.actions) = some w := by
  obtain ⟨_, st, hst⟩ := verifyScript_actions h
  exact ⟨_, (verifyActions_watch start_sized hst).2 j⟩

/-! ## The lifecycle -/

def latest (history : List ActionType) : Option ActionType :=
  (history.filter (· ∈ [.CONNECT, .DRAIN, .DISCONNECT])).getLast?

def sinceConnect (history : List ActionType) : List ActionType :=
  history.reverse.takeWhile (· ≠ .CONNECT)

/-- The action may come after what the session has been through. -/
def Legal (history : List ActionType) : ActionType → Prop
  | .CREATE => True
  | .CONNECT => latest history ≠ some .CONNECT
  | .SEND | .FLOOD | .DRAIN => latest history = some .CONNECT
  | .DISCONNECT => .CONNECT ∈ history ∧ .DISCONNECT ∉ sinceConnect history

instance (history : List ActionType) : ∀ t, Decidable (Legal history t)
  | .CREATE => inferInstanceAs (Decidable True)
  | .CONNECT => inferInstanceAs (Decidable (_ ≠ _))
  | .SEND | .FLOOD | .DRAIN => inferInstanceAs (Decidable (_ = _))
  | .DISCONNECT => inferInstanceAs (Decidable (_ ∧ _))

def Lifecycle (actions : List ActionType) : Prop :=
  ∀ history t rest, actions = history ++ t :: rest → Legal history t

/-- Every DISCONNECT comes after some CONNECT, and what follows it directly
is a CONNECT. -/
def DisconnectsInside (actions : List ActionType) : Prop :=
  ∀ history rest, actions = history ++ .DISCONNECT :: rest →
    .CONNECT ∈ history ∧ ∀ t ∈ rest.head?, t = .CONNECT

theorem latest_snoc (history : List ActionType) (t : ActionType) :
    latest (history ++ [t]) = if t ∈ [ActionType.CONNECT, .DRAIN, .DISCONNECT] then some t else latest history := by
  unfold latest
  rw [List.filter_append]
  split
  · rename_i ht
    rw [List.filter_cons_of_pos (by simpa using ht)]; simp
  · rename_i ht
    rw [List.filter_cons_of_neg (by simpa using ht)]; simp

theorem watch_snoc {history : List ActionType} {t : ActionType} {w₀ w : Watch}
    (h : watch w₀ (history ++ [t]) = some w) : ∃ w', watch w₀ history = some w' ∧ watchAction w' t = some w := by
  rw [watch_append] at h
  obtain ⟨w', hw', h⟩ := Option.bind_eq_some_iff.mp h
  refine ⟨w', hw', ?_⟩
  simpa [watch] using h

/-- The bits after a history: `active` unless the latest of CONNECT and DRAIN
is no CONNECT, `disconnected` once a DISCONNECT was seen. -/
theorem watch_bits : ∀ {history : List ActionType} {w : Watch}, watch .start history = some w →
    (w.disconnected = true ↔ .DISCONNECT ∈ history) ∧
      (latest history = some .CONNECT → w.active = true) ∧
      (w.active = true → latest history = some .CONNECT ∨ latest history = some .DISCONNECT) := by
  intro history
  induction history using List.reverseRecOn with
  | nil =>
    intro w h
    simp only [watch, Option.some.injEq] at h
    subst h
    simp [latest, Watch.start]
  | append_singleton history t ih =>
    intro w h
    obtain ⟨w', hw', ht⟩ := watch_snoc h
    obtain ⟨hd, hc, ha⟩ := ih hw'
    rw [latest_snoc]
    cases t with
    | CREATE => cases ht
    | CONNECT =>
      simp only [watchAction] at ht
      split at ht
      · cases ht
      · cases ht; simpa using hd
    | SEND =>
      simp only [watchAction] at ht
      split at ht
      · cases ht; exact ⟨by simpa using hd, by simpa using hc, by simpa using ha⟩
      · cases ht
    | FLOOD =>
      simp only [watchAction] at ht
      split at ht
      · cases ht; exact ⟨by simpa using hd, by simpa using hc, by simpa using ha⟩
      · cases ht
    | DRAIN =>
      simp only [watchAction] at ht
      split at ht
      · cases ht; simpa using hd
      · cases ht
    | DISCONNECT =>
      simp only [watchAction] at ht
      split at ht
      · cases ht
      · cases ht; simp

theorem latest_disconnect : ∀ {history : List ActionType}, latest history = some .DISCONNECT →
    ∃ h₁ h₂, history = h₁ ++ .DISCONNECT :: h₂ ∧ .CONNECT ∉ h₂ := by
  intro history
  induction history using List.reverseRecOn with
  | nil => intro h; cases h
  | append_singleton history t ih =>
    intro h
    rw [latest_snoc] at h
    split at h
    · cases h; exact ⟨history, [], rfl, by simp⟩
    · rename_i ht
      obtain ⟨h₁, h₂, rfl, hc⟩ := ih h
      refine ⟨h₁, h₂ ++ [t], by simp, ?_⟩
      simp only [List.mem_append, List.mem_singleton, not_or]
      exact ⟨hc, fun e => ht (by simp [← e])⟩

section
variable {actions : List ActionType} {w : Watch} (hw : watch .start actions = some w)

include hw in
theorem watch_split {history rest : List ActionType} {t : ActionType} (h : actions = history ++ t :: rest) :
    ∃ w₁ w₂, watch .start history = some w₁ ∧ watchAction w₁ t = some w₂ := by
  rw [h, watch_append] at hw
  obtain ⟨w₁, h₁, hw⟩ := Option.bind_eq_some_iff.mp hw
  rw [watch] at hw
  obtain ⟨w₂, h₂, _⟩ := Option.bind_eq_some_iff.mp hw
  exact ⟨w₁, w₂, h₁, h₂⟩

/-- With every DISCONNECT inside, a set bit means CONNECT. -/
theorem latest_of_active (hd : DisconnectsInside actions) {history rest : List ActionType} {t : ActionType}
    (h : actions = history ++ t :: rest) (ht : t ≠ .CONNECT) {w₁ : Watch}
    (h₁ : watch .start history = some w₁) (ha : w₁.active = true) : latest history = some .CONNECT := by
  rcases (watch_bits h₁).2.2 ha with hl | hl
  · exact hl
  · obtain ⟨p₁, p₂, rfl, hc⟩ := latest_disconnect hl
    have := (hd p₁ (p₂ ++ t :: rest) (by rw [h]; simp)).2
    cases p₂ with
    | nil => exact absurd (this t rfl) ht
    | cons x p₂ => exact absurd (this x rfl) fun e => hc (by simp [e])

include hw in
theorem lifecycle_of_disconnectsInside (hd : DisconnectsInside actions) : Lifecycle actions := by
  intro history t rest h
  obtain ⟨w₁, w₂, h₁, h₂⟩ := watch_split hw h
  have hbits := watch_bits h₁
  have connected (ht : t ≠ .CONNECT) (ha : w₁.active = true) := latest_of_active hd h ht h₁ ha
  cases t with
  | CREATE => trivial
  | CONNECT =>
    intro hl
    simp [watchAction, hbits.2.1 hl] at h₂
  | DISCONNECT =>
    refine ⟨(hd history rest h).1, fun hm => ?_⟩
    have hm : .DISCONNECT ∈ history := List.mem_reverse.mp ((List.takeWhile_prefix _).subset hm)
    simp [watchAction, hbits.1.mpr hm] at h₂
  | _ =>
    apply connected (by simp)
    by_contra ha
    simp [watchAction, ha] at h₂

include hw in
theorem disconnectsInside_of_lifecycle (hl : Lifecycle actions) : DisconnectsInside actions := by
  intro history rest h
  refine ⟨(hl history _ rest h).1, fun t ht => ?_⟩
  cases rest with
  | nil => cases ht
  | cons t' rest =>
    cases ht
    have h' : actions = (history ++ [.DISCONNECT]) ++ t :: rest := by rw [h]; simp
    have hlegal := hl _ _ _ h'
    cases t with
    | CONNECT => rfl
    | CREATE =>
      obtain ⟨w₁, w₂, _, h₂⟩ := watch_split hw h'
      cases h₂
    | DISCONNECT => simp [Legal, sinceConnect] at hlegal
    | _ => simp [Legal, latest_snoc] at hlegal

include hw in
theorem lifecycle_iff : Lifecycle actions ↔ DisconnectsInside actions :=
  ⟨disconnectsInside_of_lifecycle hw, lifecycle_of_disconnectsInside hw⟩

end

/-- A session of an accepted script keeps its lifecycle exactly when each of
its DISCONNECTs comes after a CONNECT and its next action, if any, is a
CONNECT. -/
theorem verifyScript_lifecycle_iff {env : Env} {script : DSLData} (h : verifyScript env script = .ok ())
    (j : Nat) :
    Lifecycle (onSession j script.orchestrator.actions) ↔
      DisconnectsInside (onSession j script.orchestrator.actions) := by
  obtain ⟨w, hw⟩ := verifyScript_watch h j
  exact lifecycle_iff hw

/-- DRAIN, then DISCONNECT: the order the documentation shows. -/
theorem verifyScript_lifecycle_drained :
    Lifecycle (onSession 0 (plainScript [createAction 1, rangedAction .CONNECT 0 1, rangedAction .DRAIN 0 1,
      rangedAction .DISCONNECT 0 1]).orchestrator.actions) := by
  have hv : verifyScript plainEnv (plainScript [createAction 1, rangedAction .CONNECT 0 1,
      rangedAction .DRAIN 0 1, rangedAction .DISCONNECT 0 1]) = .ok () := by
    decide +kernel
  rw [verifyScript_lifecycle_iff hv]
  intro history rest h
  change [ActionType.CONNECT, .DRAIN, .DISCONNECT] = _ at h
  rcases history with _ | ⟨a, _ | ⟨b, _ | ⟨c, history⟩⟩⟩ <;> simp_all

/-- FLOOD is accepted on a session that was disconnected. -/
theorem flood_after_disconnect :
    interpretText plainEnv .zero (plainText "CREATE 1 CONNECT 0:1 DISCONNECT 0:1 FLOOD 0:1") =
      .ok (plainScript [createAction 1, rangedAction .CONNECT 0 1, rangedAction .DISCONNECT 0 1,
        rangedAction .FLOOD 0 1]) ∧
    ¬ Lifecycle (onSession 0 (plainScript [createAction 1, rangedAction .CONNECT 0 1,
        rangedAction .DISCONNECT 0 1, rangedAction .FLOOD 0 1]).orchestrator.actions) := by
  constructor
  · rw [plainText_words]
    decide +kernel
  · intro hl
    have := hl [.CONNECT, .DISCONNECT] .FLOOD [] rfl
    exact absurd this (by decide)

end Loadshear
