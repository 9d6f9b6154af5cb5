import Loadshear.SessionSound
import Loadshear.ShardMetrics

/-!
# What a session records

A handler appends to the log of its session what `recorded` says, from which an
attempt to connect is over, or still in flight (`Attempts`).
-/

namespace Loadshear.Session

variable {env : SessionEnv} {now : Nat} {s t : Session} {e : Event}

def sampled (rate counter : UInt32) (sample : Metric) : List Metric := if rate < counter then [sample] else []

/-- What the handler of an event records. -/
def recorded (env : SessionEnv) (now : Nat) (s : Session) : Event → List Metric
  | .call .start opened connected =>
    match env.transport with
    | .TCP => [.connectionAttempt]
    | .UDP =>
      if opened ∧ ¬ s.socketOpen ∧ connected then [.connectionAttempt, .connectionSuccess]
      else [.connectionAttempt, .connectionFail]
  | .call .. => []
  | .done (.connected i ok) =>
    (s.connects[i]?).elim [] fun op =>
      if ok then [.connectionLatency ((now - op.connStart) / 1000), .connectionSuccess] else [.connectionFail]
  | .done (.wrote _ none) => []
  | .done (.wrote _ (some count)) => .bytesSent count ::
    sampled env.config.packetSampleRate s.writeSampleCounter (.sendLatency ((now - s.writeStartTime) / 1000))
  | .done (.read _ .error) => []
  | .done (.read i (.data bytes _ _)) => .bytesRead bytes.length ::
    (s.reads[i]?).elim [] fun op => match op.kind with
      | .header => []
      | .datagram =>
        if env.config.payloadSizeLimit < bytes.length then []
        else sampled env.config.packetSampleRate s.readSampleCounter (.readLatency ((now - s.readStartTime) / 1000))
      | .body _ =>
        sampled env.config.packetSampleRate s.readSampleCounter (.readLatency ((now - s.readStartTime) / 1000))
  | .done (.responded _) => []

theorem closeSession_metrics (s : Session) : s.closeSession.metrics = s.metrics := by
  rw [closeSession_eq]

theorem Writes.metrics (h : Writes env now s t) : t.metrics = s.metrics := by
  cases h with
  | response => rfl
  | payload => rfl
  | stop => rw [stopWriting_eq]

theorem Starts.metrics (h : Starts env now s t) : t.metrics = s.metrics := by
  rcases h with ⟨_, rfl⟩ | ⟨_, h⟩
  · rfl
  · exact h.metrics

theorem Connected.metrics (h : Connected env now s t) : t.metrics = s.metrics := by
  cases h with
  | quiet => rw [startReading_eq]
  | write _ _ h => rw [h.metrics, startReading_eq]

theorem metrics_of_runStart {o c : Bool} (h : s.runStart env now o c = some t) :
    t.metrics = s.metrics ++ s.recorded env now (.call .start o c) := by
  unfold runStart at h
  unfold recorded
  cases ht : env.transport with
  | TCP =>
    simp only [ht] at h
    obtain rfl := Option.some.inj h
    rfl
  | UDP =>
    simp only [ht] at h ⊢
    by_cases ho : o ∧ ¬ s.socketOpen
    · by_cases hc : c
      · rw [if_pos ⟨ho.1, ho.2, hc⟩]
        simp only [record, ho.1, hc, Bool.eq_false_iff.mpr ho.2, Bool.not_true, Bool.not_false, Bool.and_self,
          Bool.false_eq_true, if_false] at h
        rw [(connected_of_onConnect h).metrics, List.append_assoc]
        rfl
      · rw [if_neg fun hn => hc hn.2.2]
        simp only [record, ho.1, hc, Bool.eq_false_iff.mpr ho.2, Bool.not_true, Bool.not_false, Bool.and_self,
          Bool.false_eq_true, if_false, if_true] at h
        obtain rfl := Option.some.inj h
        rw [closeSession_metrics]
        exact List.append_assoc ..
    · rw [if_neg fun hn => ho ⟨hn.1, hn.2.1⟩]
      have hn : (!(o && !s.socketOpen)) = true := by
        cases o <;> simp_all
      simp only [record, hn, if_true] at h
      obtain rfl := Option.some.inj h
      rw [closeSession_metrics]
      exact List.append_assoc ..

theorem metrics_of_runCall {o c : Bool} {call : Call} (h : s.runCall env now o c call = some t) :
    t.metrics = s.metrics ++ s.recorded env now (.call call o c) := by
  cases call with
  | start => exact metrics_of_runStart h
  | flood =>
    simp only [recorded, List.append_nil]
    cases handled_of_runCall h with
    | floodIgnored | floodKept => rfl
    | flooded _ _ _ h => exact h.metrics
  | send n =>
    simp only [recorded, List.append_nil]
    cases handled_of_runCall h with
    | sendKept => rfl
    | sent _ h => exact h.metrics
  | drain =>
    simp only [recorded, List.append_nil]
    cases handled_of_runCall h with
    | drainKept => rfl
    | drainClosed => exact closeSession_metrics _
  | stop =>
    simp only [recorded, List.append_nil]
    cases handled_of_runCall h with
    | stopped => exact closeSession_metrics _

theorem metrics_of_connectDone {i : Nat} {op : ConnectOp} {ok : Bool} (hi : s.connects[i]? = some op)
    (h : { s with connects := s.connects.eraseIdx i }.connectDone env now op.connStart ok = some t) :
    t.metrics = s.metrics ++ s.recorded env now (.done (.connected i ok)) := by
  simp only [recorded, hi, Option.elim_some]
  cases ok with
  | false =>
    obtain rfl := Option.some.inj h
    exact closeSession_metrics _
  | true =>
    rw [(connected_of_onConnect h).metrics]
    exact List.append_assoc ..

theorem metrics_of_wrote {i : Nat} {sent : Option Nat}
    (h : { s with writes := s.writes.eraseIdx i }.wrote env now sent = some t) :
    t.metrics = s.metrics ++ s.recorded env now (.done (.wrote i sent)) := by
  cases sent with
  | none =>
    obtain rfl := Option.some.inj h
    rw [closeSession_metrics]
    exact (List.append_nil _).symm
  | some count =>
    simp only [wrote] at h
    simp only [recorded, sampled]
    split at h
    · rename_i hr
      rw [(writes_of_write h).metrics]
      have hr : env.config.packetSampleRate < s.writeSampleCounter := hr
      rw [if_pos hr]
      exact List.append_assoc ..
    · rename_i hr
      rw [(writes_of_write h).metrics]
      have hr : ¬ env.config.packetSampleRate < s.writeSampleCounter := hr
      rw [if_neg hr]
      rfl

theorem sampleRead_metrics (env : SessionEnv) (now : Nat) (s : Session) : (s.sampleRead env now).metrics = s.metrics ++
    sampled env.config.packetSampleRate s.readSampleCounter (.readLatency ((now - s.readStartTime) / 1000)) := by
  unfold sampleRead sampled
  split
  · rfl
  · exact (List.append_nil _).symm

theorem doReadBody_metrics (s : Session) (response : List UInt8) : (s.doReadBody response).metrics = s.metrics := by
  unfold doReadBody
  split
  · rfl
  · split <;> rfl

theorem metrics_of_readDone {i : Nat} {op : ReadOp} (outcome : ReadOutcome) (hi : s.reads[i]? = some op) :
    ({ s with reads := s.reads.eraseIdx i }.readDone env now op.kind outcome).metrics =
      s.metrics ++ s.recorded env now (.done (.read i outcome)) := by
  cases outcome with
  | error =>
    rw [readDone, closeSession_metrics]
    exact (List.append_nil _).symm
  | data bytes header response =>
    simp only [recorded, hi, Option.elim_some, readDone]
    cases hk : op.kind with
    | header =>
      simp only
      split
      · rfl
      · split
        · exact closeSession_metrics _
        · exact doReadBody_metrics _ _
    | body buffer =>
      simp only [handleMessage, sampleRead_metrics]
      cases buffer <;> exact List.append_assoc ..
    | datagram =>
      simp only
      split
      · exact closeSession_metrics _
      · simp only [handleMessage, sampleRead_metrics]
        exact List.append_assoc ..

theorem metrics_of_step (h : step env s (now, e) = some t) : t.metrics = s.metrics ++ s.recorded env now e := by
  cases e with
  | call call o c => exact metrics_of_runCall h
  | done c =>
    cases c with
    | connected i ok =>
      obtain ⟨op, hi, h⟩ := Option.bind_eq_some_iff.mp h
      exact metrics_of_connectDone hi h
    | wrote i sent =>
      obtain ⟨op, hi, h⟩ := Option.bind_eq_some_iff.mp h
      exact metrics_of_wrote h
    | read i outcome =>
      obtain ⟨op, hi, h⟩ := Option.bind_eq_some_iff.mp h
      split at h
      · obtain rfl := Option.some.inj h
        exact metrics_of_readDone outcome hi
      · cases h
    | responded i =>
      obtain ⟨op, hi, h⟩ := Option.bind_eq_some_iff.mp h
      rw [recorded, List.append_nil]
      cases handled_of_responded hi h with
      | respondedEmpty => rfl
      | responded _ _ hs => exact hs.metrics

/-! ## Attempts -/

theorem closeSession_connects (s : Session) : s.closeSession.connects = s.connects := by
  rw [closeSession_eq]

theorem Connected.connects (h : Connected env now s t) : t.connects = s.connects := by
  cases h with
  | quiet => rw [startReading_eq]
  | write _ _ h => rw [h.frame.connects, startReading_eq]

def dialing (env : SessionEnv) (now : Nat) (s : Session) : Event → List ConnectOp
  | .call .start .. => if env.transport = .TCP then s.connects ++ [⟨s.gen + 1, now⟩] else s.connects
  | .done (.connected i _) => s.connects.eraseIdx i
  | _ => s.connects

theorem Handled.connects (h : Handled env now s e t) : t.connects = s.dialing env now e := by
  cases h with
  | dialed ht => simp [dialing, ht]
  | refused ht =>
    rw [closeSession_connects]
    simp [dialing, ht]
  | opened ht _ h =>
    rw [h.connects]
    simp [dialing, ht]
  | floodIgnored | floodKept | sendKept | drainKept | reread | handed | respondedEmpty => rfl
  | flooded _ _ _ h => exact h.frame.connects
  | sent _ h => exact h.frame.connects
  | drainClosed | stopped | connectFailed | writeFailed | readFailed => exact closeSession_connects _
  | connected _ h => exact h.connects
  | wrote _ h => exact h.frame.connects
  | responded _ _ h => exact h.frame.connects

/-- Every attempt has ended one way or is in flight. A connection over TCP that
is made has its latency recorded. -/
structure Attempts (env : SessionEnv) (s : Session) : Prop where
  attempts : tally .connectionAttempts s.metrics =
    tally .finishedConnections s.metrics + tally .failedConnections s.metrics + s.connects.length
  udp : env.transport = .UDP → s.connects = []
  timed : (latencies .connection s.metrics).length =
    if env.transport = .TCP then tally .finishedConnections s.metrics else 0

theorem Attempts.init (env : SessionEnv) : Attempts env (init env) where
  attempts := rfl
  udp _ := rfl
  timed := by simp [Session.init, latencies]

def Transfers : Metric → Prop
  | .bytesSent _ | .bytesRead _ | .sendLatency _ | .readLatency _ => True
  | _ => False

theorem recorded_transfers (hs : e.isStart = false) (hc : ∀ i ok, e ≠ .done (.connected i ok)) :
    ∀ m ∈ s.recorded env now e, Transfers m := by
  have hsample : ∀ {rate counter : UInt32} {m : Metric}, Transfers m → ∀ m' ∈ sampled rate counter m, Transfers m' := by
    intro rate counter m hm m' hm'
    unfold sampled at hm'
    split at hm'
    · rwa [List.mem_singleton.mp hm']
    · cases hm'
  intro m hm
  unfold recorded at hm
  split at hm
  · simp [Event.isStart] at hs
  · cases hm
  · exact absurd rfl (hc _ _)
  · cases hm
  · rcases List.mem_cons.mp hm with rfl | hm
    · trivial
    · exact hsample (by trivial) _ hm
  · cases hm
  · rename_i i bytes _ _
    rcases List.mem_cons.mp hm with rfl | hm
    · trivial
    · cases hr : s.reads[i]? with
      | none => simp [hr] at hm
      | some op =>
        simp only [hr, Option.elim_some] at hm
        split at hm
        · cases hm
        · split at hm
          · cases hm
          · exact hsample (by trivial) _ hm
        · exact hsample (by trivial) _ hm
  · cases hm

theorem tally_transfers {c : Counter} {ms : List Metric} (hc : c = .connectionAttempts ∨ c = .finishedConnections ∨
    c = .failedConnections) (h : ∀ m ∈ ms, Transfers m) : tally c ms = 0 := by
  apply List.sum_eq_zero_iff_forall_eq_nat.mpr
  intro n hn
  obtain ⟨m, hm, rfl⟩ := List.mem_map.mp hn
  have hm := h m hm
  rcases hc with rfl | rfl | rfl <;> cases m <;> first | rfl | cases hm

theorem latencies_transfers {ms : List Metric} (h : ∀ m ∈ ms, Transfers m) : latencies .connection ms = [] := by
  apply List.filterMap_eq_nil_iff.mpr
  intro m hm
  have hm := h m hm
  cases m <;> first | rfl | cases hm

theorem latencies_append (kind : LatencyKind) (ms ms' : List Metric) :
    latencies kind (ms ++ ms') = latencies kind ms ++ latencies kind ms' :=
  List.filterMap_append

theorem dialing_other (hs : e.isStart = false) (hc : ∀ i ok, e ≠ .done (.connected i ok)) :
    s.dialing env now e = s.connects := by
  unfold dialing
  split
  · simp [Event.isStart] at hs
  · exact absurd rfl (hc _ _)
  · rfl

theorem Attempts.step (h : Attempts env s) (hs : step env s (now, e) = some t) : Attempts env t := by
  obtain ⟨hattempts, hudp, htimed⟩ := h
  have hm := metrics_of_step hs
  have hd := (handled_of_step hs).connects
  by_cases hstart : e.isStart = true
  · obtain ⟨o, c, rfl⟩ : ∃ o c, e = .call .start o c := by
      unfold Event.isStart at hstart
      split at hstart
      · exact ⟨_, _, rfl⟩
      · cases hstart
    cases ht : env.transport with
    | TCP =>
      simp only [recorded, dialing, ht, if_true] at hm hd htimed
      refine ⟨?_, fun hn => ?_, ?_⟩
      · rw [hm, hd]
        simp [Metric.weight, hattempts]
        omega
      · rw [ht] at hn
        cases hn
      · rw [hm, latencies_append, ht, if_pos rfl, List.length_append, htimed]
        simp [latencies, Metric.latency?, Metric.weight]
    | UDP =>
      have hnil := hudp ht
      simp only [recorded, dialing, ht, reduceCtorEq, if_false] at hm hd htimed
      refine ⟨?_, fun _ => hd.trans hnil, ?_⟩
      · rw [hm, hd]
        split
        · simp [Metric.weight, hattempts]
          omega
        · simp [Metric.weight, hattempts]
          omega
      · rw [hm, latencies_append, ht, List.length_append, htimed]
        split <;> simp [latencies, Metric.latency?]
  · rw [Bool.not_eq_true] at hstart
    by_cases hc : ∀ i ok, e ≠ .done (.connected i ok)
    · have htr : ∀ m ∈ s.recorded env now e, Transfers m := recorded_transfers hstart hc
      rw [dialing_other hstart hc] at hd
      refine ⟨?_, fun ht => hd.trans (hudp ht), ?_⟩
      · rw [hm, hd, tally_append, tally_append, tally_append, tally_transfers (.inl rfl) htr,
          tally_transfers (.inr (.inl rfl)) htr, tally_transfers (.inr (.inr rfl)) htr]
        exact hattempts
      · rw [hm, latencies_append, latencies_transfers htr, tally_append, tally_transfers (.inr (.inl rfl)) htr,
          List.append_nil]
        exact htimed
    · -- an attempt ends, which only one over TCP does
      have hc : ∃ i ok, e = .done (.connected i ok) := by
        by_contra hn
        exact hc fun i ok he => hn ⟨i, ok, he⟩
      obtain ⟨i, ok, rfl⟩ := hc
      obtain ⟨op, hi, -⟩ := Option.bind_eq_some_iff.mp hs
      have ht : env.transport = .TCP := by
        cases ht : env.transport with
        | TCP => rfl
        | UDP => simp [hudp ht] at hi
      have hlt := (List.getElem?_eq_some_iff.mp hi).1
      have hlen : t.connects.length + 1 = s.connects.length := by
        rw [hd, dialing, List.length_eraseIdx_of_lt hlt]
        omega
      simp only [recorded, hi, Option.elim_some] at hm
      rw [ht, if_pos rfl] at htimed
      refine ⟨?_, fun hn => ?_, ?_⟩
      · rw [hm, tally_append, tally_append, tally_append, hattempts]
        cases ok
        · simp [Metric.weight]
          omega
        · simp [Metric.weight]
          omega
      · rw [ht] at hn
        cases hn
      · rw [hm, latencies_append, ht, if_pos rfl, List.length_append, htimed, tally_append]
        cases ok <;> simp [latencies, Metric.latency?, Metric.weight]

end Loadshear.Session
