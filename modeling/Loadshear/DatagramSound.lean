import Loadshear.FramerSound

/-!
# Datagrams

A `UDPSession` receives into a buffer that is no larger than the limit it then
compares the received count with, so that the comparison never fails. It hands
over every datagram, cut to the size of the buffer (`Fed.handedOver_eq`).
-/

namespace Loadshear.Session

open Runs (Run)

inductive Incoming where
  | datagram (i : Nat) (bytes response : List UInt8)
  | other (e : Event)
deriving DecidableEq

/-- A session with the datagrams that it received, each with whether the session
was live when its handler was done. -/
structure Fed where
  session : Session
  datagrams : List (List UInt8 × Bool)
deriving DecidableEq

def carriesData : Event → Bool
  | .done (.read _ (.data ..)) => true
  | _ => false

namespace Fed

def start (env : SessionEnv) : Fed := ⟨init env, []⟩

def step (env : SessionEnv) (x : Fed) : Nat × Incoming → Option Fed
  | (now, .datagram i bytes response) => do
    let op ← x.session.reads[i]?
    let t ← Session.step env x.session (now, .done (.read i (.data (bytes.take op.size) ⟨0, true⟩ response)))
    return ⟨t, x.datagrams ++ [(bytes, t.live)]⟩
  | (now, .other e) =>
    if carriesData e then none
    else (Session.step env x.session (now, e)).map fun t => { x with session := t }

/-- The datagrams within the limit are handed over whole, and the session closes
on the others. -/
structure Intact (env : SessionEnv) (x : Fed) : Prop where
  handedOver : x.session.messages.map (·.body) =
    (x.datagrams.map Prod.fst).filter (·.length ≤ env.config.payloadSizeLimit)
  closed : ∀ d ∈ x.datagrams, env.config.payloadSizeLimit < d.1.length → d.2 = false

end Fed

def bufferSize (env : SessionEnv) : Nat := min env.config.payloadSizeLimit maxDatagramSize

variable {env : SessionEnv} {now : Nat} {s t p : Session} {e : Event}

def ReadsDatagrams (env : SessionEnv) (s : Session) : Prop :=
  ∀ op ∈ s.reads, op.kind = .datagram ∧ op.size = bufferSize env

theorem ReadsDatagrams.congr (h : ReadsDatagrams env s) (hr : t.reads = s.reads) : ReadsDatagrams env t := by
  unfold ReadsDatagrams
  rw [hr]
  exact h

theorem ReadsDatagrams.doRead (h : ReadsDatagrams env s) (hu : env.transport = .UDP) :
    ReadsDatagrams env (s.doRead env now) := by
  intro op hop
  rcases List.mem_append.mp hop with hop | hop
  · exact h op hop
  · rw [List.mem_singleton] at hop
    rw [hop, hu]
    exact ⟨rfl, rfl⟩

theorem ReadsDatagrams.connected (h : ReadsDatagrams env p) (hu : env.transport = .UDP)
    (hc : Connected env now p t) : ReadsDatagrams env t ∧ t.messages = p.messages := by
  have hs : ReadsDatagrams env (p.startReading env now) ∧ (p.startReading env now).messages = p.messages := by
    unfold startReading
    by_cases hread : env.config.readMessages
    · rw [if_pos hread]
      exact ⟨h.doRead hu, rfl⟩
    · rw [if_neg hread]
      exact ⟨h, rfl⟩
  have hi := hc.input
  exact ⟨hs.1.congr (congrArg Input.reads hi), (congrArg Input.messages hi).trans hs.2⟩

/-- Handlers other than those of a read leave the messages alone. -/
theorem ReadsDatagrams.other (h : ReadsDatagrams env s) (hu : env.transport = .UDP) (hh : Handled env now s e t)
    (he : ∀ i outcome, e ≠ .done (.read i outcome)) : ReadsDatagrams env t ∧ t.messages = s.messages := by
  by_cases hm : minds e
  · have hi := hh.input hm
    exact ⟨h.congr (congrArg Input.reads hi), congrArg Input.messages hi⟩
  · cases hh with
    | dialed ht => exact absurd (hu.symm.trans ht) (by simp)
    | refused =>
      obtain ⟨hr, _, hmessages⟩ := closeSession_reads _
      exact ⟨h.congr hr, hmessages⟩
    | opened _ _ hc => exact ReadsDatagrams.connected (p := { s with
        live := true, gen := s.gen + 1, socketOpen := true, metrics := _ }) h hu hc
    | connected _ hc => exact ReadsDatagrams.connected (p := { s with
        connects := _, connecting := false, metrics := _ }) h hu hc
    | readFailed | reread | handed => exact absurd rfl (he _ _)
    | respondedEmpty => exact ⟨ReadsDatagrams.doRead (s := { s with posts := _ }) h hu, rfl⟩
    | responded hi hr hst =>
      have hd := h.congr hst.frame.reads
      exact ⟨hd.doRead hu, hst.frame.messages⟩
    | connectFailed =>
      obtain ⟨hr, _, hmessages⟩ := closeSession_reads _
      exact ⟨h.congr hr, hmessages⟩
    | _ => exact absurd rfl hm

theorem ReadsDatagrams.erase {i : Nat} (h : ReadsDatagrams env s) (ht : t.reads = s.reads.eraseIdx i) :
    ReadsDatagrams env t := by
  intro op hop
  rw [ht] at hop
  exact h op (List.mem_of_mem_eraseIdx hop)

theorem ReadsDatagrams.failed {i : Nat} (h : ReadsDatagrams env s)
    (hs : Session.step env s (now, .done (.read i .error)) = some t) :
    ReadsDatagrams env t ∧ t.messages = s.messages := by
  obtain ⟨op, hi, hs⟩ := Option.bind_eq_some_iff.mp hs
  split at hs
  · obtain rfl := Option.some.inj hs
    obtain ⟨hr, _, hm⟩ := closeSession_reads { s with reads := s.reads.eraseIdx i }
    exact ⟨h.erase hr, hm⟩
  · cases hs

/-- The count of a datagram never exceeds the limit. -/
theorem ReadsDatagrams.received {i : Nat} {op : ReadOp} {bytes response : List UInt8} {header : HeaderResult}
    (h : ReadsDatagrams env s) (hi : s.reads[i]? = some op)
    (hs : Session.step env s (now, .done (.read i (.data bytes header response))) = some t) :
    ReadsDatagrams env t ∧ t.messages = s.messages ++ [⟨[], bytes, response⟩] ∧ t.live = s.live := by
  obtain ⟨op', hi', hs⟩ := Option.bind_eq_some_iff.mp hs
  obtain rfl := Option.some.inj (hi'.symm.trans hi)
  obtain ⟨hkind, hsize⟩ := h op' (List.mem_of_getElem? hi)
  split at hs
  · rename_i hfits
    have hle : bytes.length ≤ op'.size := by simpa [ReadOp.Fits, hkind] using hfits
    have hlimit : ¬ env.config.payloadSizeLimit < bytes.length := by
      rw [hsize, bufferSize] at hle
      omega
    obtain rfl := Option.some.inj hs
    obtain ⟨m, c, hsample⟩ := @sampleRead_spec env now
      (({ s with reads := s.reads.eraseIdx i } : Session).record (.bytesRead bytes.length))
    simp only [readDone, hkind, if_neg hlimit, hsample]
    exact ⟨h.erase rfl, rfl, rfl⟩
  · cases hs

/-! ## Runs -/

namespace Fed

structure Cut (env : SessionEnv) (x : Fed) : Prop where
  reads : ReadsDatagrams env x.session
  handedOver : x.session.messages.map (·.body) = x.datagrams.map fun d => d.1.take (bufferSize env)

theorem Cut.step {x y : Fed} {e : Nat × Incoming} (h : Cut env x) (hu : env.transport = .UDP)
    (hs : step env x e = some y) : Cut env y := by
  obtain ⟨now, e⟩ := e
  cases e with
  | datagram i bytes response =>
    obtain ⟨op, hi, hs⟩ := Option.bind_eq_some_iff.mp hs
    obtain ⟨t, ht, hs⟩ := Option.bind_eq_some_iff.mp hs
    obtain rfl := Option.some.inj hs
    obtain ⟨hr, hm, _⟩ := h.reads.received hi ht
    have hsize := (h.reads op (List.mem_of_getElem? hi)).2
    exact ⟨hr, by simp [hm, h.handedOver, hsize]⟩
  | other e =>
    unfold Fed.step at hs
    simp only at hs
    split at hs
    · cases hs
    · rename_i hdata
      obtain ⟨t, ht, rfl⟩ := Option.map_eq_some_iff.mp hs
      have hkept : ReadsDatagrams env t ∧ t.messages = x.session.messages := by
        cases e with
        | done c =>
          cases c with
          | read i outcome =>
            cases outcome with
            | error => exact h.reads.failed ht
            | data => exact absurd rfl hdata
          | _ => exact h.reads.other hu (handled_of_step ht) (by simp)
        | call => exact h.reads.other hu (handled_of_step ht) (by simp)
      exact ⟨hkept.1, by rw [hkept.2]; exact h.handedOver⟩

theorem cut_of_run {es : List (Nat × Incoming)} {x : Fed} (hu : env.transport = .UDP)
    (r : Run (step env) (fun _ _ => True) (start env) es x) : Cut env x := by
  refine r.invariant (fun _ _ _ h _ hs => h.step hu hs) ⟨?_, rfl⟩
  intro op hop
  simp [start, Session.init] at hop

theorem take_eq_filter_iff {limit size : Nat} (hle : size ≤ limit) (ds : List (List UInt8)) :
    ds.map (·.take size) = ds.filter (·.length ≤ limit) ↔ ∀ d ∈ ds, d.length ≤ size := by
  constructor
  · intro h
    have hlength : (ds.filter (·.length ≤ limit)).length = ds.length := by rw [← h, List.length_map]
    have hall := List.length_filter_eq_length_iff.mp hlength
    rw [List.filter_eq_self.mpr hall] at h
    intro d hd
    have htake : d.take size = d := (List.map_inj_left (g := id)).mp (by rw [h, List.map_id]) d hd
    have hlen := List.length_take_le size d
    rwa [htake] at hlen
  · intro h
    have htake : ds.map (·.take size) = ds.map id := List.map_congr_left fun d hd => List.take_of_length_le (h d hd)
    rw [htake, List.map_id, List.filter_eq_self.mpr]
    intro d hd
    exact decide_eq_true (Nat.le_trans (h d hd) hle)

/-- A session that is fed datagrams passes on those within the limit, whole, and
closes on the others, just when each of them fits the buffer. -/
theorem intact_iff (hu : env.transport = .UDP) {es : List (Nat × Incoming)} {x : Fed}
    (r : Run (step env) (fun _ _ => True) (start env) es x) :
    Intact env x ↔ ∀ d ∈ x.datagrams, d.1.length ≤ min env.config.payloadSizeLimit maxDatagramSize := by
  have hcut := (cut_of_run hu r).handedOver
  have hle : bufferSize env ≤ env.config.payloadSizeLimit := Nat.min_le_left _ _
  have hiff := take_eq_filter_iff hle (x.datagrams.map Prod.fst)
  rw [List.map_map, List.forall_mem_map] at hiff
  constructor
  · intro h
    exact hiff.mp (hcut.symm.trans h.handedOver)
  · intro h
    refine ⟨hcut.trans (hiff.mpr h), fun d hd hlt => ?_⟩
    exact absurd (Nat.le_trans (h d hd) hle) (Nat.not_le.mpr hlt)

def datagramEnv : SessionEnv where
  transport := .UDP
  config := ⟨0, 4, true, false, 1000⟩
  payloads := []

def datagramRun (bytes : List UInt8) : List (Nat × Incoming) :=
  [(0, .other (.call .start true true)), (1, .datagram 0 bytes [])]

theorem intact_short : ∃ x, Run (step datagramEnv) (fun _ _ => True) (start datagramEnv) (datagramRun [1, 2, 3]) x ∧
    x.datagrams = [([1, 2, 3], true)] ∧ Intact datagramEnv x := by
  have r : Run (step datagramEnv) (fun _ _ => True) (start datagramEnv) (datagramRun [1, 2, 3]) _ :=
    Runs.run_of_isSome (by decide +kernel)
  exact ⟨_, r, by decide +kernel, (intact_iff rfl r).mpr (by decide +kernel)⟩

/-- The first four bytes of a datagram of five are handed over, and the session
stays open. -/
theorem truncated_handed : ∃ x,
    Run (step datagramEnv) (fun _ _ => True) (start datagramEnv) (datagramRun [1, 2, 3, 4, 5]) x ∧
      x.datagrams = [([1, 2, 3, 4, 5], true)] ∧ x.session.messages = [⟨[], [1, 2, 3, 4], []⟩] ∧
        ¬ Intact datagramEnv x := by
  have r : Run (step datagramEnv) (fun _ _ => True) (start datagramEnv) (datagramRun [1, 2, 3, 4, 5]) _ :=
    Runs.run_of_isSome (by decide +kernel)
  refine ⟨_, r, by decide +kernel, by decide +kernel, fun h => ?_⟩
  exact absurd (h.closed ([1, 2, 3, 4, 5], true) (by decide +kernel) (by decide)) (by decide)

end Fed

end Loadshear.Session
