import Loadshear.CountSound
import Loadshear.IsolationSound

/-!
# Connecting again

What a connection leaves behind in its session, and when the next one is not
affected by it: when it has ended (`Ended`), with nothing queued (`Settled`), and
nothing is to be written while the `draining_` that nobody resets is set.
-/

namespace Loadshear

namespace Session

variable {env : SessionEnv} {now : Nat} {s p t : Session} {e : Event} {es : List (Nat × Event)}

/-! ## What is left -/

structure Ended (s : Session) : Prop where
  live : s.live = false
  socketOpen : s.socketOpen = false
  writing : s.writing = false
  connects : s.connects = []
  reads : s.reads = []
  writes : s.writes = []
  posts : s.posts = []

structure Quiet (s : Session) : Prop where
  flood : s.flood = false
  writesQueued : s.writesQueued = 0
  responses : s.responses = []
  writing : s.writing = false
  writes : s.writes = []

def genOf (s : Session) : Completion → Option Nat
  | .connected i _ => s.connects[i]?.map (·.gen)
  | .wrote i _ => s.writes[i]?.map (·.gen)
  | .read i _ => s.reads[i]?.map (·.gen)
  | .responded i => s.posts[i]?.map (·.gen)

/-- A connection fails, or one that is open does: what is cancelled by closing
ends with an error too. -/
def FailsRemotely (env : SessionEnv) (s : Session) : Event → Prop
  | .call .start opened connected => env.transport = .UDP ∧ ¬ (opened ∧ connected)
  | .call .. => False
  | .done c => s.live ∧ s.genOf c = some s.gen ∧ Breaks env s (.done c)

instance : DecidablePred (FailsRemotely env s)
  | .call .start opened connected => inferInstanceAs (Decidable (env.transport = .UDP ∧ ¬ (opened ∧ connected)))
  | .call .flood .. | .call (.send _) .. | .call .drain .. | .call .stop .. => inferInstanceAs (Decidable False)
  | .done c => inferInstanceAs (Decidable (s.live ∧ s.genOf c = some s.gen ∧ Breaks env s (.done c)))

def asks : Call → Bool
  | .flood | .send _ => true
  | .start | .drain | .stop => false

structure Rests (s : Session) (e : Event) : Prop where
  call : ∀ c ∈ e.call?, asks c = false
  answer : s.answer e = []

/-- A start finds nothing of the connection before, and behind a second one
nothing is written while `draining_` is set. -/
structure Separate (s : Session) (e : Event) : Prop where
  ended : e.isStart → s.gen ≠ 0 → Ended s ∧ Quiet s
  rests : 2 ≤ s.gen → s.draining → Rests s e

instance : Decidable (Ended s) :=
  decidable_of_iff (_ ∧ _ ∧ _ ∧ _ ∧ _ ∧ _ ∧ _) ⟨fun ⟨a, b, c, d, e, f, g⟩ => ⟨a, b, c, d, e, f, g⟩,
    fun ⟨a, b, c, d, e, f, g⟩ => ⟨a, b, c, d, e, f, g⟩⟩

instance : Decidable (Quiet s) :=
  decidable_of_iff (_ ∧ _ ∧ _ ∧ _ ∧ _) ⟨fun ⟨a, b, c, d, e⟩ => ⟨a, b, c, d, e⟩, fun ⟨a, b, c, d, e⟩ => ⟨a, b, c, d, e⟩⟩

instance : Decidable (Rests s e) := decidable_of_iff (_ ∧ _) ⟨fun ⟨a, b⟩ => ⟨a, b⟩, fun ⟨a, b⟩ => ⟨a, b⟩⟩

instance : Decidable (Separate s e) := decidable_of_iff (_ ∧ _) ⟨fun ⟨a, b⟩ => ⟨a, b⟩, fun ⟨a, b⟩ => ⟨a, b⟩⟩

def Guarded (env : SessionEnv) (s : Session) (e : Nat × Event) : Prop := Separate s e.2 ∧ ¬ FailsRemotely env s e.2

instance : ∀ e, Decidable (Guarded env s e) := fun _ => inferInstanceAs (Decidable (_ ∧ _))

/-! ## One step -/

def Adds {α : Type*} (gen : α → Nat) (g : Nat) (old new : List α) : Prop := ∀ op ∈ new, op ∈ old ∨ gen op = g

section Adds

variable {α : Type*} {gen : α → Nat} {g : Nat} {old new : List α}

theorem Adds.same : Adds gen g old old := fun _ => .inl

theorem Adds.snoc {op : α} (h : gen op = g) : Adds gen g old (old ++ [op]) := by
  intro a ha
  rcases List.mem_append.mp ha with ha | ha
  · exact .inl ha
  · exact .inr (List.mem_singleton.mp ha ▸ h)

theorem Adds.erase {i : Nat} (h : Adds gen g (old.eraseIdx i) new) : Adds gen g old new :=
  fun op ho => (h op ho).imp_left List.mem_of_mem_eraseIdx

theorem Adds.trans {mid : List α} (h : Adds gen g old mid) (h' : Adds gen g mid new) : Adds gen g old new :=
  fun op ho => (h' op ho).elim (h op) .inr

end Adds

structure Issues (s t : Session) : Prop where
  connects : Adds ConnectOp.gen t.gen s.connects t.connects
  reads : Adds ReadOp.gen t.gen s.reads t.reads
  writes : Adds WriteOp.gen t.gen s.writes t.writes
  posts : Adds PostOp.gen t.gen s.posts t.posts

theorem Issues.refl (s : Session) : Issues s s := ⟨.same, .same, .same, .same⟩

theorem Issues.trans (h : Issues s p) (h' : Issues p t) (hg : t.gen = p.gen) : Issues s t := by
  obtain ⟨hc, hr, hw, hp⟩ := h
  rw [← hg] at hc hr hw hp
  exact ⟨hc.trans h'.connects, hr.trans h'.reads, hw.trans h'.writes, hp.trans h'.posts⟩

theorem Writes.issues (h : Writes env now s t) : Issues s t := by
  cases h with
  | response | payload => exact ⟨.same, .same, .snoc rfl, .same⟩
  | stop =>
    rw [stopWriting_eq]
    exact ⟨.same, .same, .same, .same⟩

theorem Starts.issues (h : Starts env now s t) : Issues s t := by
  rcases h with ⟨_, rfl⟩ | ⟨_, h⟩
  · exact .refl t
  · exact h.issues

theorem doRead_issues (env : SessionEnv) (now : Nat) (s : Session) : Issues s (s.doRead env now) :=
  ⟨.same, .snoc (by split <;> rfl), .same, .same⟩

theorem Connected.issues (h : Connected env now s t) : Issues s t := by
  have hr : Issues s (s.startReading env now) := by
    unfold startReading
    split
    · exact doRead_issues env now s
    · exact .refl s
  cases h with
  | quiet => exact hr
  | write _ _ h => exact hr.trans h.issues h.frame.gen

theorem Handled.issues (h : Handled env now s e t) : Issues s t := by
  cases h with
  | dialed => exact ⟨.snoc rfl, .same, .same, .same⟩
  | refused | drainClosed | stopped =>
    rw [closeSession_eq]
    exact ⟨.same, .same, .same, .same⟩
  | floodIgnored | floodKept | sendKept | drainKept => exact ⟨.same, .same, .same, .same⟩
  | opened _ _ h => exact ⟨h.issues.connects, h.issues.reads, h.issues.writes, h.issues.posts⟩
  | flooded _ _ _ h | sent _ h => exact ⟨h.issues.connects, h.issues.reads, h.issues.writes, h.issues.posts⟩
  | connectFailed =>
    rw [closeSession_eq]
    exact ⟨.erase .same, .same, .same, .same⟩
  | connected _ h => exact ⟨.erase h.issues.connects, h.issues.reads, h.issues.writes, h.issues.posts⟩
  | writeFailed =>
    rw [closeSession_eq]
    exact ⟨.same, .same, .erase .same, .same⟩
  | wrote _ h => exact ⟨h.issues.connects, h.issues.reads, .erase h.issues.writes, h.issues.posts⟩
  | readFailed =>
    rw [closeSession_eq]
    exact ⟨.same, .erase .same, .same, .same⟩
  | reread _ _ hg => exact ⟨.same, .erase (.snoc hg), .same, .same⟩
  | handed => exact ⟨.same, .erase .same, .same, .snoc rfl⟩
  | @respondedEmpty i =>
    have hr := doRead_issues env now { s with posts := s.posts.eraseIdx i }
    exact ⟨hr.connects, hr.reads, hr.writes, .erase hr.posts⟩
  | @responded i op u _ _ h =>
    have hr := h.issues.trans (doRead_issues env now u) rfl
    exact ⟨hr.connects, hr.reads, hr.writes, .erase hr.posts⟩

structure Own (s : Session) : Prop where
  connects : ∀ op ∈ s.connects, op.gen = s.gen
  reads : ∀ op ∈ s.reads, op.gen = s.gen
  writes : ∀ op ∈ s.writes, op.gen = s.gen
  posts : ∀ op ∈ s.posts, op.gen = s.gen

theorem Own.of_nil (hc : s.connects = []) (hr : s.reads = []) (hw : s.writes = []) (hp : s.posts = []) : Own s := by
  constructor <;> simp_all

theorem Own.kept (hs : Own s) (h : Issues s t) (hg : t.gen = s.gen) : Own t := by
  refine ⟨fun op ho => ?_, fun op ho => ?_, fun op ho => ?_, fun op ho => ?_⟩
  · exact (h.connects op ho).elim (fun ho => hg ▸ hs.connects op ho) id
  · exact (h.reads op ho).elim (fun ho => hg ▸ hs.reads op ho) id
  · exact (h.writes op ho).elim (fun ho => hg ▸ hs.writes op ho) id
  · exact (h.posts op ho).elim (fun ho => hg ▸ hs.posts op ho) id

theorem Ended.own (hs : Ended s) (h : Issues s t) : Own t := by
  obtain ⟨hc, hr, hw, hp⟩ := h
  rw [hs.connects] at hc
  rw [hs.reads] at hr
  rw [hs.writes] at hw
  rw [hs.posts] at hp
  refine ⟨fun op ho => ?_, fun op ho => ?_, fun op ho => ?_, fun op ho => ?_⟩
  · exact (hc op ho).resolve_left List.not_mem_nil
  · exact (hr op ho).resolve_left List.not_mem_nil
  · exact (hw op ho).resolve_left List.not_mem_nil
  · exact (hp op ho).resolve_left List.not_mem_nil

theorem Own.genOf {c : Completion} (hs : Own s) (h : Handled env now s (.done c) t) : s.genOf c = some s.gen := by
  cases h with
  | connectFailed hi | connected hi =>
    rw [Session.genOf, hi, Option.map_some, hs.connects _ (List.mem_of_getElem? hi)]
  | writeFailed hi | wrote hi => rw [Session.genOf, hi, Option.map_some, hs.writes _ (List.mem_of_getElem? hi)]
  | readFailed hi | reread hi | handed hi =>
    rw [Session.genOf, hi, Option.map_some, hs.reads _ (List.mem_of_getElem? hi)]
  | respondedEmpty hi | responded hi =>
    rw [Session.genOf, hi, Option.map_some, hs.posts _ (List.mem_of_getElem? hi)]

theorem Ended.handled (hs : Ended s) (he : e.isStart = false) (h : Handled env now s e t) : Ended t := by
  obtain ⟨hl, hso, hw, hc, hr, hws, hp⟩ := hs
  cases h with
  | dialed | refused | opened => cases he
  | floodIgnored | floodKept | sendKept | drainKept => exact ⟨hl, hso, hw, hc, hr, hws, hp⟩
  | flooded _ _ hready | sent hready =>
    rw [ready, hl] at hready
    cases hready
  | drainClosed | stopped =>
    rw [closeSession_eq]
    exact ⟨rfl, by simp [hso], hw, hc, hr, hws, hp⟩
  | connectFailed hi | connected hi => simp [hc] at hi
  | writeFailed hi | wrote hi => simp [hws] at hi
  | readFailed hi | reread hi | handed hi => simp [hr] at hi
  | respondedEmpty hi | responded hi => simp [hp] at hi

/-! ## Writing goes on -/

structure Tended (env : SessionEnv) (s : Session) : Prop where
  inFlight : s.live → s.writing → s.writes ≠ []
  idle : s.ready → ¬ s.writing → Exhausted env s

theorem Tended.of_closed (h : s.live = false) : Tended env s := by
  refine ⟨fun hl => ?_, fun hr => ?_⟩
  · rw [h] at hl
    cases hl
  · rw [ready, h] at hr
    cases hr

theorem Writes.tended (h : Writes env now p t) : Tended env t := by
  cases h with
  | response | payload => exact ⟨fun _ _ => by simp [beginWrite], fun _ hn => absurd rfl hn⟩
  | stop _ he =>
    rw [stopWriting_eq]
    exact ⟨fun _ hw => absurd hw (by simp), fun _ _ => he⟩

theorem Starts.tended (h : Starts env now p t) (hp : p.live → p.writing → p.writes ≠ []) : Tended env t := by
  rcases h with ⟨hw, rfl⟩ | ⟨_, h⟩
  · exact ⟨hp, fun _ hn => absurd hw hn⟩
  · exact h.tended

theorem Connected.tended (h : Connected env now p t) (hp : p.live → p.writing → p.writes ≠ []) : Tended env t := by
  cases h with
  | quiet hq =>
    rw [startReading_eq]
    refine ⟨hp, fun _ hn hq' => ?_⟩
    obtain ⟨hf, hz⟩ := hq.resolve_left hn
    exact hq'.elim (fun h => absurd h hf) fun h => absurd hz (Nat.ne_of_gt h)
  | write _ _ h => exact h.tended

theorem Handled.tended (h : Handled env now s e t) (hs : Tended env s) (hst : e.isStart → s.writing = false) :
    Tended env t := by
  obtain ⟨hin, hidle⟩ := hs
  cases h with
  | dialed => exact ⟨fun _ hw => absurd hw (by simp [hst rfl]), fun hr => by simp [ready] at hr⟩
  | refused | drainClosed | stopped | connectFailed | writeFailed | readFailed =>
    exact .of_closed (closeSession_dead _)
  | opened _ _ h => exact h.tended fun _ hw => absurd hw (by simp [hst rfl])
  | floodIgnored | drainKept | reread | handed | respondedEmpty => exact ⟨hin, hidle⟩
  | floodKept _ _ hr | sendKept hr => exact ⟨hin, fun hr' => absurd hr' hr⟩
  | flooded _ _ _ h | sent _ h => exact h.tended hin
  | connected _ h => exact h.tended hin
  | wrote _ h => exact h.tended
  | responded _ _ h =>
    obtain ⟨hin', hidle'⟩ := h.tended hin
    exact ⟨hin', hidle'⟩

/-! ## With nothing to write -/

theorem Quiet.kept (hs : Quiet s) (h : t.output = s.output) : Quiet t := by
  simp only [output, Output.mk.injEq] at h
  obtain ⟨hw, hf, _, hr, _, hq, hws, _, _⟩ := h
  exact ⟨hf.trans hs.flood, hq.trans hs.writesQueued, hr.trans hs.responses, hw.trans hs.writing, hws.trans hs.writes⟩

theorem Rests.sent (hr : Rests s e) : Session.sent e = 0 := by
  cases e with
  | call c =>
    cases c with
    | send n => cases hr.call _ rfl
    | start | flood | drain | stop => rfl
  | done c => rfl

theorem Quiet.prepared (hs : Quiet s) (hr : Rests s e) (h : Prepared s e p) : Quiet p := by
  refine ⟨?_, by rw [h.queued, hs.writesQueued, hr.sent], by rw [h.responses, hs.responses, hr.answer]; rfl,
    h.writing.trans hs.writing, ?_⟩
  · cases hf : p.flood with
    | false => rfl
    | true =>
      rcases h.flood hf with hf | hf
      · rw [hs.flood] at hf
        cases hf
      · cases hr.call _ hf
  · rcases h.writes with hw | ⟨i, op, hi, _⟩
    · exact hw.trans hs.writes
    · simp [hs.writes] at hi

/-- A quiet session has nothing to write. -/
theorem Quiet.writes_stop (hs : Quiet p) (h : Writes env now p t) : Quiet t ∧ (p.draining = false → t.live = p.live) := by
  obtain ⟨hf, hq, hr, hw, hws⟩ := hs
  cases h with
  | response hr' => simp [hr] at hr'
  | payload _ hq' => simp [hf, hq] at hq'
  | stop =>
    rw [stopWriting_eq]
    exact ⟨⟨hf, hq, hr, rfl, hws⟩, fun hd => by simp [hd]⟩

theorem Quiet.handled (hs : Quiet s) (hr : Rests s e) (h : Handled env now s e t) : Quiet t := by
  obtain ⟨p, u, hp, ht, rfl | ⟨hw, _⟩⟩ := h.passes
  · exact (hs.prepared hr hp).kept ht
  · exact ((hs.prepared hr hp).writes_stop hw).1.kept ht

theorem Connected.stays (h : Connected env now p t) (hp : Quiet p) : t.live = p.live := by
  cases h with
  | quiet => rw [startReading_eq]
  | write _ hq => simp [hp.flood, hp.writesQueued] at hq

/-- A quiet session is closed by nothing but a call or an error. -/
theorem Quiet.stays (hs : Quiet s) (hr : Rests s e) (hb : ¬ Breaks env s e) (h : Handled env now s e t) (hl : s.live)
    (he : e.isStart = false) (hd : e.call? ≠ some .drain) : t.live := by
  cases h with
  | dialed | refused | opened => cases he
  | floodIgnored | floodKept | sendKept | drainKept | reread | handed | respondedEmpty => exact hl
  | flooded | sent => cases hr.call _ rfl
  | drainClosed => exact absurd rfl hd
  | stopped => exact absurd trivial hb
  | connectFailed => exact absurd rfl hb
  | connected _ h => exact (h.stays ⟨hs.flood, hs.writesQueued, hs.responses, hs.writing, hs.writes⟩).trans hl
  | writeFailed hi | wrote hi => simp [hs.writes] at hi
  | readFailed hi ho => exact absurd (by simpa [Breaks, hi] using ho) hb
  | responded hi hne => exact absurd hr.answer (by simp [answer, hi, hne])

theorem Handled.stays (h : Handled env now s e t) (hb : ¬ Breaks env s e) (hdr : s.draining = false) (hl : s.live)
    (he : e.isStart = false) (hd : e.call? ≠ some .drain) : t.live := by
  by_contra hn
  have hf : ¬ Fails env s e := by
    intro hf
    cases e with
    | call c =>
      cases c with
      | start => cases he
      | stop => exact hb trivial
      | flood | send | drain => exact hf
    | done c => exact hb hf
  have ht := (h.closing hf (.inl hl) hn).1
  rw [h.draining, hdr] at ht
  exact ht.elim Bool.false_ne_true hd

theorem Own.unbroken (ho : Own s) (hf : ¬ FailsRemotely env s e) (h : Handled env now s e t) (hl : s.live)
    (hst : e.call? ≠ some .stop) : ¬ Breaks env s e := by
  intro hb
  cases e with
  | call c =>
    cases c with
    | stop => exact hst rfl
    | start | flood | send | drain => exact hb
  | done c => exact hf ⟨hl, ho.genOf h, hb⟩

/-! ## Runs -/

def sinceStart (calls : List Call) : List Call :=
  calls.foldl (fun behind c => if c = .start then [] else behind ++ [c]) []

theorem sinceStart_snoc (calls : List Call) (c : Call) :
    sinceStart (calls ++ [c]) = if c = .start then [] else sinceStart calls ++ [c] := by
  rw [sinceStart, List.foldl_concat]
  rfl

theorem sinceStart_event (es : List (Nat × Event)) (e : Nat × Event) (he : e.2.isStart = false) :
    sinceStart (callsOf (es ++ [e])) = sinceStart (callsOf es) ++ e.2.call?.toList := by
  obtain ⟨now, e⟩ := e
  rw [callsOf_snoc]
  cases e with
  | call c =>
    rw [Event.call?, Option.toList_some, sinceStart_snoc, if_neg]
    rintro rfl
    cases he
  | done c => simp [Event.call?]

structure Apart (env : SessionEnv) (es : List (Nat × Event)) (s : Session) : Prop where
  unstarted : s.gen = 0 → Ended s
  own : Own s
  tended : Tended env s
  left : 2 ≤ s.gen → s.draining → .drain ∉ sinceStart (callsOf es) → Quiet s

theorem Apart.init (env : SessionEnv) : Apart env [] (init env) := by
  refine ⟨fun _ => ?_, .of_nil rfl rfl rfl rfl, .of_closed rfl, fun h => ?_⟩
  · constructor <;> rfl
  · exact absurd h (by simp [Session.init])

theorem Apart.handled (hs : Apart env es s) (hg : Separate s e) (h : Handled env now s e t) :
    Apart env (es ++ [(now, e)]) t := by
  have hgen := h.gen
  cases hst : e.isStart with
  | false =>
    rw [hst] at hgen
    have hgen : t.gen = s.gen := hgen
    refine ⟨fun h0 => (hs.unstarted (hgen ▸ h0)).handled hst h, hs.own.kept h.issues hgen,
      h.tended hs.tended (by simp [hst]), fun h2 hd hn => ?_⟩
    rw [sinceStart_event _ _ hst, List.mem_append, not_or] at hn
    rw [hgen] at h2
    have hdr : s.draining := (h.draining.mp hd).resolve_right fun hc => hn.2 (by simp [hc])
    exact (hs.left h2 hdr hn.1).handled (hg.rests h2 hdr) h
  | true =>
    have hended : Ended s := by
      by_cases h0 : s.gen = 0
      · exact hs.unstarted h0
      · exact (hg.ended hst h0).1
    rw [hst] at hgen
    refine ⟨fun h0 => by simp [h0] at hgen, hended.own h.issues, h.tended hs.tended fun _ => hended.writing,
      fun h2 _ _ => ?_⟩
    have h0 : s.gen ≠ 0 := fun h0 => by simp [hgen, h0] at h2
    have hr : Rests s e := by
      cases e with
      | call c =>
        cases c with
        | start => exact ⟨by simp [Event.call?, asks], rfl⟩
        | flood | send | drain | stop => cases hst
      | done c => cases hst
    exact (hg.ended hst h0).2.handled hr h

theorem apart_of_run (r : Runs.Run (step env) (Guarded env) (init env) es s) : Apart env es s := by
  induction r with
  | nil => exact .init env
  | @snoc es t u e r hg he ih => exact ih.handled hg.1 (handled_of_step he)

/-- A handler, in a session that has run `es`, does what it would if the session
was never connected before. -/
structure Unaffected (env : SessionEnv) (es : List (Nat × Event)) (s : Session) (e : Nat × Event) (t : Session) :
    Prop where
  floods : e.2.call? = some .flood → t.flood
  counted : ¬ s.flood → e.2.call? ≠ some .flood →
    t.walk.length + t.writesQueued = s.walk.length + s.writesQueued + sent e.2
  written : t.ready → t.flood ∨ 0 < t.writesQueued → t.writes ≠ [] ∨ env.payloads.length ≤ t.nextPayloadIndex
  closes : s.live → ¬ t.live → .drain ∈ sinceStart (callsOf (es ++ [e])) ∨ e.2.call? = some .stop
  stale : ∀ c, e.2 = .done c → s.genOf c ≠ some s.gen → t.live = s.live ∧ t.begun = s.begun

/-- Without a drain or a stop on its connection the session stays live. -/
theorem Apart.stays (hs : Apart env es s) (hg : Separate s e) (hf : ¬ FailsRemotely env s e)
    (h : Handled env now s e t) (h2 : 2 ≤ s.gen) (hl : s.live)
    (hd : .drain ∉ sinceStart (callsOf (es ++ [(now, e)]))) (hst : e.call? ≠ some .stop) : t.live := by
  have he : e.isStart = false := by
    by_contra he
    have hended := (hg.ended (by simpa using he) (by omega)).1.live
    simp [hl] at hended
  rw [sinceStart_event _ _ he, List.mem_append, not_or] at hd
  have hb := hs.own.unbroken hf h hl hst
  have hd' : e.call? ≠ some .drain := fun hc => hd.2 (by simp [hc])
  by_cases hdr : s.draining
  · exact (hs.left h2 hdr hd.1).stays (hg.rests h2 hdr) hb h hl he hd'
  · exact h.stays hb (by simpa using hdr) hl he hd'

theorem Handled.floods (h : Handled env now s e t) (he : e.call? = some .flood) (hd : ¬ s.draining) : t.flood := by
  cases h with
  | floodIgnored hf => exact hf.resolve_right hd
  | floodKept => rfl
  | flooded _ _ _ h => rw [h.frame.flood]
  | _ => cases he

theorem Apart.unaffected (hs : Apart env es s) (hg : Guarded env s (now, e)) (h : Handled env now s e t)
    (h2 : 2 ≤ s.gen) : Unaffected env es s (now, e) t := by
  obtain ⟨hsep, hfail⟩ := hg
  have ht := hs.handled hsep h
  refine ⟨fun hc => ?_, fun hf hc => (h.counted hf hc).1, fun hr hq => ?_, fun hl hn => ?_, fun c hc hgen => ?_⟩
  · apply h.floods hc
    intro hd
    cases (hsep.rests h2 hd).call _ hc
  · by_cases hw : t.writing
    · exact .inl (ht.tended.inFlight (ready_iff.mp hr).1 hw)
    · exact .inr (ht.tended.idle hr hw hq)
  · by_contra hno
    rw [not_or] at hno
    exact hn (hs.stays hsep hfail h h2 hl hno.1 hno.2)
  · obtain rfl := hc
    exact absurd (hs.own.genOf h) hgen

/-- The read of the first connection is cancelled, and that closes the second. -/
example : ∃ t, Runs.Run (step readingEnv) (fun s e => ¬ FailsRemotely readingEnv s e.2) (init readingEnv)
    [(0, .call .start true true), (1, .done (.connected 0 true)), (2, .call .drain true true),
      (3, .call .start true true), (4, .done (.read 0 .error))] t ∧ t.gen = 2 ∧ ¬ t.live :=
  ⟨_, Runs.run_of_isSome (by decide), by decide⟩

end Session

namespace Orchestrator

/-- In a run every handler behind a second start of its session is unaffected by
what the session has run before. -/
def ReconnectsUnaffected (env : OrchestratorEnv) (shardCount : Nat) (es : List Event) : Prop :=
  ∀ es' k e, es' ++ [.handler k e] <+: es → ∀ o, Runs.Run (step env) (fun _ _ => True) (init shardCount) es' o →
    ∀ s ∈ o.shards[k]?, ∀ t ∈ s.pool.turn e, ∀ session ∈ t.slot.session.step env.session (t.now, t.event),
      2 ≤ t.slot.session.gen →
        Session.Unaffected env.session (historyOf env (k, t.i) (init shardCount) es') t.slot.session (t.now, t.event)
          session

/-- What a session was told before it was connected again has no effect, if
nothing is left of it then and nothing is to be written while it drains. -/
theorem reconnects_separated {env : Env} {script : DSLData} {plan : ExecutionPlan} (h : Accepted env script plan)
    (hc : OpensWithCreate script.orchestrator.actions) {es : List Event} {o : Orchestrator}
    (r : Runs.Run (step (plan.orchestratorEnv script.settings)) (Handles True fun _ _ =>
      Session.Guarded (plan.orchestratorEnv script.settings).session) (init plan.shardCount) es o) :
    ReconnectsUnaffected (plan.orchestratorEnv script.settings) plan.shardCount es := by
  have ho := h.opens hc
  intro es' k e hp o' r' s hs t ht session hsession h2
  obtain ⟨v, rv⟩ := r.upTo hp
  obtain ⟨u, ru, hg, -⟩ := rv.last
  obtain rfl := ru.unique r'
  -- the guard held of the handler and of all that its session ran before
  have hslot : u.slotAt (k, t.i) = some t.slot := slotAt_eq_some.mpr ⟨s, hs, (Pool.turn_spec ht).1⟩
  obtain ⟨-, -, rs, -⟩ := (feeds_of_run ho ru).slotAt ho hslot
  exact (Session.apart_of_run rs).unaffected (hg s hs t ht) (Session.handled_of_step hsession) h2

theorem reconnects_separated_reopened : ∃ (plan : ExecutionPlan) (o : Orchestrator) (slot : Slot),
    generatePlanCommon plainEnv .zero reconnectScript = .ok plan ∧
      Runs.Run (step (plan.orchestratorEnv reconnectScript.settings)) (Handles True fun _ _ =>
        Session.Guarded (plan.orchestratorEnv reconnectScript.settings).session) (init plan.shardCount) reopenRun o ∧
      o.slotAt (0, 0) = some slot ∧ slot.session.gen = 2 ∧ slot.session.live ∧
      ReconnectsUnaffected (plan.orchestratorEnv reconnectScript.settings) plan.shardCount reopenRun := by
  have h : planRun reconnectScript (fun plan => Handles True fun _ _ =>
      Session.Guarded (plan.orchestratorEnv reconnectScript.settings).session) reopenRun (fun _ o =>
        ∃ slot ∈ o.slotAt (0, 0), slot.session.gen = 2 ∧ slot.session.live) = true := by
    decide +kernel
  obtain ⟨plan, o, hp, r, slot, hslot, hgen, hl⟩ := exists_of_planRun h
  exact ⟨plan, o, slot, hp, r, hslot, hgen, hl, reconnects_separated ⟨⟨_, _, reconnect_accepted⟩, _, hp⟩ ⟨_, rfl, rfl⟩ r⟩

/-! ## Writing behind a drain -/

def againScript : DSLData :=
  plainScript [createAction 2, rangedAction .CONNECT 0 2, rangedAction .DRAIN 0 2, rangedAction .CONNECT 0 2,
    rangedAction .FLOOD 0 1, sendAction 1 2 1 .empty]

def againText : List Char :=
  plainText "CREATE 2 CONNECT 0:2 DRAIN 0:2 CONNECT 0:2 FLOOD 0:1 SEND 1:2 p COPIES 1"

def againStart : List Event :=
  List.replicate 6 .dispatch ++ List.replicate 6 (.task 0) ++ [.handler 0 (.call 0 0 true true),
    .handler 0 (.call 1 1 true true), .handler 0 (.done 0 2 (.connected 0 true)),
    .handler 0 (.done 1 3 (.connected 0 true)), .handler 0 (.call 0 4 true true), .handler 0 (.call 1 5 true true),
    .handler 0 (.call 0 6 true true), .handler 0 (.call 1 7 true true), .handler 0 (.done 0 8 (.connected 0 true)),
    .handler 0 (.done 1 9 (.connected 0 true))]

def againRun : List Event :=
  againStart ++ [.handler 0 (.call 0 10 true true)] ++ [.handler 0 (.call 1 11 true true),
    .handler 0 (.done 1 12 (.wrote 0 (some 24)))]

theorem again_accepted : interpretText plainEnv .zero againText = .ok againScript := by
  rw [againText, plainText_words]
  decide +kernel

/-- The first session ignores its FLOOD. -/
theorem again_affected {plan : ExecutionPlan} (hp : generatePlanCommon plainEnv .zero againScript = .ok plan) :
    ¬ ReconnectsUnaffected (plan.orchestratorEnv againScript.settings) plan.shardCount againRun := by
  have h : planRun againScript (fun _ _ _ => True) againStart (fun plan o => ∃ s ∈ o.shards[0]?,
      ∃ t ∈ s.pool.turn (.call 0 10 true true), ∃ session ∈ t.slot.session.step
        (plan.orchestratorEnv againScript.settings).session (t.now, t.event),
        2 ≤ t.slot.session.gen ∧ t.event.call? = some .flood ∧ ¬ session.flood) = true := by
    decide +kernel
  obtain ⟨plan', o, hp', r, s, hs, t, ht, session, hsession, h2, hcall, hflood⟩ := exists_of_planRun h
  obtain rfl := Except.ok.inj (hp.symm.trans hp')
  intro hall
  exact hflood ((hall againStart 0 _ (List.prefix_append ..) o r s hs t ht session hsession h2).floods hcall)

/-- The FLOOD does nothing, and the session that sends closes itself. -/
theorem reconnects_draining : interpretText plainEnv .zero againText = .ok againScript ∧
    ∃ plan o, generatePlanCommon plainEnv .zero againScript = .ok plan ∧
      Runs.Run (step (plan.orchestratorEnv againScript.settings)) (Handles False fun _ _ s e =>
        ¬ Session.FailsRemotely (plan.orchestratorEnv againScript.settings).session s e.2) (init plan.shardCount)
        againRun o ∧
      ¬ ReconnectsUnaffected (plan.orchestratorEnv againScript.settings) plan.shardCount againRun ∧
      (∃ s ∈ o.shards[0]?, ∃ slot ∈ s.pool.slots[0]?, AtRest plan.actions o s slot ∧ slot.session.gen = 2 ∧
        slot.session.live ∧ ¬ slot.session.flood ∧ slot.session.begun = []) ∧
      ∃ s ∈ o.shards[0]?, ∃ slot ∈ s.pool.slots[1]?, AtRest plan.actions o s slot ∧ slot.session.gen = 2 ∧
        ¬ slot.session.live ∧ slot.session.begun = [.payload 0] := by
  have h : planRun againScript (fun plan => Handles False fun _ _ s e =>
      ¬ Session.FailsRemotely (plan.orchestratorEnv againScript.settings).session s e.2) againRun (fun plan o =>
        (∃ s ∈ o.shards[0]?, ∃ slot ∈ s.pool.slots[0]?, AtRest plan.actions o s slot ∧ slot.session.gen = 2 ∧
          slot.session.live ∧ ¬ slot.session.flood ∧ slot.session.begun = []) ∧
        ∃ s ∈ o.shards[0]?, ∃ slot ∈ s.pool.slots[1]?, AtRest plan.actions o s slot ∧ slot.session.gen = 2 ∧
          ¬ slot.session.live ∧ slot.session.begun = [.payload 0]) = true := by
    decide +kernel
  obtain ⟨plan, o, hp, r, hflood, hsend⟩ := exists_of_planRun h
  exact ⟨again_accepted, plan, o, hp, r, again_affected hp, hflood, hsend⟩

end Orchestrator

end Loadshear
