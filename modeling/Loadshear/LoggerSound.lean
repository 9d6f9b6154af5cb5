import Loadshear.Logger
import Loadshear.Runs

/-!
# What the logger prints

Over all interleavings of the threads with the worker: entries are printed once
and in the order of the pushes, none is left behind by a shutdown, the worker
does not sleep through work, and a paused one prints only what it had taken.
-/

namespace Loadshear

def LogWorker.held : LogWorker → List LogEntry
  | .printing entry rest => entry :: rest
  | _ => []

namespace Logger

open Runs

variable {l m : Logger} {e : Event} {es : List Event} {level : LogLevel}

/-! ## Steps -/

inductive Stepped (l : Logger) : Event → Logger → Prop
  | push (level : LogLevel) (msg : String) : Stepped l (.push level msg) (l.pushMessage level msg)
  | setLevel (level : LogLevel) : Stepped l (.setLevel level) (l.setLevel level)
  | pause : Stepped l .pause l.pause
  | resume : Stepped l .resume l.resume
  | shutdown : Stepped l .shutdown l.shutdown
  | notified (hd : 0 < l.due) (hw : l.worker ≠ .waiting) : Stepped l .notifyOne { l with due := l.due - 1 }
  | woken (hd : 0 < l.due) (hw : l.worker = .waiting) :
    Stepped l .notifyOne { l with due := l.due - 1, worker := .locking }
  | spurious (hw : l.worker = .waiting) : Stepped l .wake { l with worker := .locking }
  | slept (hw : l.worker = .locking) (ha : l.awake = false) : Stepped l .acquire { l with worker := .waiting }
  | finished (hw : l.worker = .locking) (hr : l.running = false) (hq : l.msgQueue = []) :
    Stepped l .acquire { l with worker := .returned }
  | took {entry : LogEntry} {rest : List LogEntry} (hw : l.worker = .locking) (ha : l.awake)
      (hq : l.msgQueue = entry :: rest) :
    Stepped l .acquire { l with msgQueue := [], worker := .printing entry rest }
  | last {entry : LogEntry} (hw : l.worker = .printing entry []) :
    Stepped l .print { l with out := l.printEntry entry, worker := .locking }
  | printed {entry next : LogEntry} {rest : List LogEntry} (hw : l.worker = .printing entry (next :: rest)) :
    Stepped l .print { l with out := l.printEntry entry, worker := .printing next rest }

theorem stepped_of_acquire (h : l.acquire = some m) : Stepped l .acquire m := by
  unfold acquire at h
  split at h
  · rename_i hw
    split at h
    · rename_i ha
      split at h
      · rename_i hq
        obtain rfl := Option.some.inj h
        have hr : l.running = false := by simpa [awake, hq] using ha
        rw [if_neg (by simp [hr])]
        exact .finished hw hr hq
      · rename_i hq
        obtain rfl := Option.some.inj h
        exact .took hw ha hq
    · rename_i ha
      obtain rfl := Option.some.inj h
      exact .slept hw (Bool.not_eq_true _ ▸ ha)
  · cases h

theorem stepped_of_step (h : step l e = some m) : Stepped l e m := by
  cases e with
  | push level msg =>
    obtain rfl := Option.some.inj h
    exact .push level msg
  | setLevel level =>
    obtain rfl := Option.some.inj h
    exact .setLevel level
  | pause =>
    obtain rfl := Option.some.inj h
    exact .pause
  | resume =>
    obtain rfl := Option.some.inj h
    exact .resume
  | shutdown =>
    obtain rfl := Option.some.inj h
    exact .shutdown
  | notifyOne =>
    simp only [step, notifyOne] at h
    split at h
    · rename_i hd
      obtain rfl := Option.some.inj h
      by_cases hw : l.worker = .waiting
      · rw [if_pos hw]
        exact .woken hd hw
      · rw [if_neg hw]
        exact .notified hd hw
    · cases h
  | wake =>
    simp only [step] at h
    split at h
    · rename_i hw
      obtain rfl := Option.some.inj h
      exact .spurious hw
    · cases h
  | acquire => exact stepped_of_acquire h
  | print =>
    simp only [step, print] at h
    split at h
    · rename_i hw
      obtain rfl := Option.some.inj h
      exact .last hw
    · rename_i hw
      obtain rfl := Option.some.inj h
      exact .printed hw
    · cases h

/-! ## Entries -/

def remaining (l : Logger) : List LogEntry := l.worker.held ++ l.msgQueue

def Event.pushed? : Event → Option LogEntry
  | .push level msg => some ⟨level, msg⟩
  | _ => none

def pushes (es : List Event) : List LogEntry := es.filterMap Event.pushed?

theorem pushes_snoc (es : List Event) (e : Event) : pushes (es ++ [e]) = pushes es ++ e.pushed?.toList := by
  rw [pushes, List.filterMap_append, List.filterMap_cons]
  cases e.pushed? <;> rfl

/-- An entry with the level that was set when the worker looked at it. -/
abbrev Taken := LogEntry × LogLevel

def Taken.printed (x : Taken) : Option String :=
  if x.1.level.index < x.2.index then none else some (logPrefix x.1.level ++ x.1.msg ++ "\n")

theorem printEntry_eq (entry : LogEntry) (l : Logger) :
    l.printEntry entry = l.out ++ [(entry, l.level)].filterMap Taken.printed := by
  unfold printEntry
  rw [List.filterMap_cons, Taken.printed]
  by_cases h : entry.level.index < l.level.index <;> simp [h]

/-- One step pushes at most one entry and looks at most at one, the first. -/
theorem entries_of_step (h : Stepped l e m) : ∃ taken : List Taken,
    taken.map Prod.fst ++ m.remaining = l.remaining ++ e.pushed?.toList ∧
      m.out = l.out ++ taken.filterMap Taken.printed ∧ ∀ x ∈ taken, x.2 = l.level := by
  have hnone : l.out = l.out ++ ([] : List Taken).filterMap Taken.printed := (List.append_nil _).symm
  cases h with
  | push => exact ⟨[], (List.append_assoc l.worker.held _ _).symm, hnone, nofun⟩
  | setLevel | pause | resume | shutdown | notified => exact ⟨[], (List.append_nil _).symm, hnone, nofun⟩
  | woken _ hw | spurious hw | slept hw | finished hw =>
    exact ⟨[], by simp [remaining, hw, LogWorker.held, Event.pushed?], hnone, nofun⟩
  | took hw _ hq => exact ⟨[], by simp [remaining, hw, hq, LogWorker.held, Event.pushed?], hnone, nofun⟩
  | @last entry hw =>
    exact ⟨[(entry, l.level)], by simp [remaining, hw, LogWorker.held, Event.pushed?], printEntry_eq entry l, by simp⟩
  | @printed entry next rest hw =>
    exact ⟨[(entry, l.level)], by simp [remaining, hw, LogWorker.held, Event.pushed?], printEntry_eq entry l, by simp⟩

def Event.level? : Event → Option LogLevel
  | .setLevel level => some level
  | _ => none

theorem level_of_step (h : Stepped l e m) : m.level = e.level?.getD l.level := by
  cases h <;> rfl

theorem level_of_run (r : Run step (fun _ _ => True) (init level) es l) :
    l.level = level ∨ l.level ∈ es.filterMap Event.level? := by
  induction r with
  | nil => exact .inl rfl
  | @snoc es l m e r _ he ih =>
    rw [level_of_step (stepped_of_step he), List.filterMap_append, List.mem_append]
    cases hl : e.level? with
    | none => exact ih.imp_right .inl
    | some level' => exact .inr (.inr (by simp [hl]))

theorem taken_of_run (r : Run step (fun _ _ => True) (init level) es l) : ∃ taken : List Taken,
    pushes es = taken.map Prod.fst ++ l.remaining ∧ l.out = taken.filterMap Taken.printed ∧
      ∀ x ∈ taken, x.2 = level ∨ x.2 ∈ es.filterMap Event.level? := by
  induction r with
  | nil => exact ⟨[], rfl, rfl, nofun⟩
  | @snoc es l m e r _ he ih =>
    obtain ⟨taken, hpushes, hout, hlevel⟩ := ih
    obtain ⟨more, hmore, hout', hlevel'⟩ := entries_of_step (stepped_of_step he)
    refine ⟨taken ++ more, ?_, ?_, fun x hx => ?_⟩
    · rw [pushes_snoc, hpushes, List.append_assoc, ← hmore, List.map_append, List.append_assoc]
    · rw [hout', hout, List.filterMap_append]
    · rw [List.filterMap_append, List.mem_append]
      rcases List.mem_append.mp hx with hx | hx
      · exact (hlevel x hx).imp_right .inl
      · rw [hlevel' x hx]
        exact (level_of_run r).imp_right .inl

/-! ## Shutdown -/

theorem running_of_run (r : Run step (fun _ _ => True) (init level) es l) (hr : l.running = false) :
    .shutdown ∈ es := by
  induction r with
  | nil => cases hr
  | @snoc es l m e r _ he ih =>
    rw [List.mem_append]
    cases stepped_of_step he with
    | shutdown => exact .inr (List.mem_singleton.mpr rfl)
    | _ => exact .inl (ih hr)

/-- What is left in the queue came after the worker had returned. -/
theorem returned_of_run (r : Run step (fun _ _ => True) (init level) es l) (hw : l.worker = .returned) :
    ∃ before after, es = before ++ after ∧ .shutdown ∈ before ∧ l.msgQueue = pushes after := by
  induction r with
  | nil => cases hw
  | @snoc es l m e r _ he ih =>
    -- a step that leaves the worker where it was
    have hkept : l.worker = .returned → m.msgQueue = l.msgQueue ++ e.pushed?.toList →
        ∃ before after, es ++ [e] = before ++ after ∧ .shutdown ∈ before ∧ m.msgQueue = pushes after := by
      intro hw hq
      obtain ⟨before, after, rfl, hs, hafter⟩ := ih hw
      exact ⟨before, after ++ [e], List.append_assoc .., hs, by rw [hq, hafter, pushes_snoc]⟩
    cases stepped_of_step he with
    | push => exact hkept hw rfl
    | setLevel | pause | resume | shutdown | notified => exact hkept hw (List.append_nil _).symm
    | finished _ hr hq => exact ⟨es ++ [.acquire], [], (List.append_nil _).symm,
        List.mem_append_left _ (running_of_run r hr), hq⟩
    | woken | spurious | slept | took | last | printed => cases hw

theorem pushes_append (es es' : List Event) : pushes (es ++ es') = pushes es ++ pushes es' := List.filterMap_append

theorem pushed_before_shutdown {es₁ es₂ : List Event} {taken : List Taken}
    (r : Run step (fun _ _ => True) (init level) (es₁ ++ .shutdown :: es₂) l)
    (hpushes : pushes (es₁ ++ .shutdown :: es₂) = taken.map Prod.fst ++ l.remaining) (hfirst : .shutdown ∉ es₁)
    (hw : l.worker = .returned) : pushes es₁ <+: taken.map Prod.fst := by
  obtain ⟨before, after, hes, hs, hq⟩ := returned_of_run r hw
  -- the shutdown lies in `before`, and with it all of `es₁`
  obtain ⟨rest, rfl⟩ : ∃ rest, before = es₁ ++ rest := by
    rcases List.append_eq_append_iff.mp hes with ⟨c, rfl, -⟩ | ⟨c, rfl, -⟩
    · exact ⟨c, rfl⟩
    · exact absurd (List.mem_append_left c hs) hfirst
  have hremaining : l.remaining = pushes after := by rw [remaining, hw, ← hq]; rfl
  rw [hes, pushes_append, hremaining] at hpushes
  rw [← List.append_cancel_right hpushes, pushes_append]
  exact List.prefix_append _ _

/-- Entries are printed in the order of the pushes, each at most once, those
below the level left out; where the worker has returned, all of them that were
pushed before the first shutdown. -/
theorem prints_in_order (r : Run step (fun _ _ => True) (init level) es l) : ∃ taken : List Taken,
    pushes es = taken.map Prod.fst ++ l.remaining ∧ l.out = taken.filterMap Taken.printed ∧
      (∀ x ∈ taken, x.2 = level ∨ x.2 ∈ es.filterMap Event.level?) ∧
      ∀ es₁ es₂, es = es₁ ++ .shutdown :: es₂ → .shutdown ∉ es₁ → l.worker = .returned →
        pushes es₁ <+: taken.map Prod.fst := by
  obtain ⟨taken, hpushes, hout, hlevel⟩ := taken_of_run r
  refine ⟨taken, hpushes, hout, hlevel, ?_⟩
  rintro es₁ es₂ rfl hfirst hw
  exact pushed_before_shutdown r hpushes hfirst hw

def pausedRun : List Event := [.push .INFO "a", .push .DEBUG "b", .acquire, .pause, .print, .push .WARN "w"]

def endedRun : List Event :=
  pausedRun ++ .shutdown :: [.print, .acquire, .push .INFO "c", .print, .acquire, .print, .acquire, .push .INFO "d"]

theorem prints_in_order_ended : ∃ l, Run step (fun _ _ => True) (init .INFO) endedRun l ∧
    ∃ taken : List Taken, pushes pausedRun <+: taken.map Prod.fst ∧
      taken.filterMap Taken.printed = ["a\n", "\x1b[32m[WARN]:\x1b[0m w\n", "c\n"] := by
  obtain ⟨l, r, hw, hout⟩ : ∃ l, Run step (fun _ _ => True) (init .INFO) endedRun l ∧ l.worker = .returned ∧
      l.out = ["a\n", "\x1b[32m[WARN]:\x1b[0m w\n", "c\n"] :=
    ⟨_, run_of_isSome (by decide +kernel), by decide +kernel⟩
  obtain ⟨taken, _, htaken, _, hfirst⟩ := prints_in_order r
  exact ⟨l, r, taken, hfirst _ _ rfl (by decide) hw, htaken ▸ hout⟩

/-! ## Sleep -/

/-- A waiting worker with something to do is about to be notified. -/
theorem due_of_run (r : Run step (fun _ _ => True) (init level) es l) (hw : l.worker = .waiting) (ha : l.awake) :
    0 < l.due := by
  induction r with
  | nil => cases hw
  | @snoc es l m e r _ he ih =>
    cases stepped_of_step he with
    | push =>
      cases hn : l.notify with
      | true => simp [pushMessage, hn]
      | false =>
        simp only [pushMessage, hn, Bool.false_eq_true, if_false]
        exact ih hw (by simpa [awake, pushMessage, hn] using ha)
    | setLevel => exact ih hw ha
    | pause => exact ih hw (by simpa [awake, pause] using Or.inr (by simpa [awake, pause] using ha))
    | resume => exact Nat.succ_pos _
    | shutdown => exact Nat.succ_pos _
    | notified _ hne => exact absurd hw hne
    | slept _ hno => exact absurd ha (by simpa [awake] using hno)
    | woken | spurious | finished | took | last | printed => cases hw

/-- Steps of the worker, and notifications that are due. -/
def Own (e : Event) : Prop := e = .notifyOne ∨ e = .acquire ∨ e = .print

instance (e : Event) : Decidable (Own e) := inferInstanceAs (Decidable (_ ∨ _))

def work (l : Logger) : Nat := 3 * l.due + 2 * l.remaining.length + if l.worker = .locking then 1 else 0

theorem work_of_step (h : Stepped l e m) (he : Own e) : m.work < l.work := by
  cases h with
  | push | setLevel | pause | resume | shutdown | spurious => simp [Own] at he
  | notified hd =>
    simp only [work, remaining]
    omega
  | woken hd hw =>
    simp only [work, remaining, hw, LogWorker.held, reduceCtorEq, if_true, if_false]
    omega
  | slept hw | finished hw => simp [work, remaining, hw, LogWorker.held]
  | took hw _ hq => simp [work, remaining, hw, hq, LogWorker.held]
  | last hw | printed hw =>
    simp only [work, remaining, hw, LogWorker.held, List.length_append, List.length_cons, List.length_nil, reduceCtorEq,
      if_true, if_false]
    omega

theorem work_of_run (r : Run step (fun _ e => Own e) l es m) : m.work + es.length ≤ l.work := by
  induction r with
  | nil => exact Nat.le_refl _
  | snoc r hg he ih =>
    have := work_of_step (stepped_of_step he) hg
    rw [List.length_append, List.length_singleton]
    omega

theorem stopped_of_run (r : Run step (fun _ _ => True) (init level) es l) (hw : l.worker = .returned) :
    l.running = false := by
  induction r with
  | nil => cases hw
  | @snoc es l m e r _ he ih =>
    cases stepped_of_step he with
    | push | setLevel | pause | resume | notified => exact ih hw
    | shutdown => rfl
    | finished _ hr _ => exact hr
    | woken | spurious | slept | took | last | printed => cases hw

/-- Left alone, the worker comes to rest after finitely many steps; then it has
printed what was pushed, unless it is paused, and has returned if it was shut
down. -/
theorem settles (r : Run step (fun _ _ => True) (init level) es l) :
    (∀ es' m, Run step (fun _ e => Own e) l es' m → es'.length ≤ l.work) ∧
      ((∀ e, Own e → step l e = none) → l.remaining = l.msgQueue ∧
        if l.running then l.worker = .waiting ∧ (l.notify → l.msgQueue = []) else l.worker = .returned) := by
  refine ⟨fun es' m r' => Nat.le_trans (Nat.le_add_left _ _) (work_of_run r'), fun hstuck => ?_⟩
  have hdue : l.due = 0 := by
    have := hstuck .notifyOne (.inl rfl)
    simpa [step, notifyOne] using this
  have hacquire := hstuck .acquire (.inr (.inl rfl))
  have hprint := hstuck .print (.inr (.inr rfl))
  simp only [step] at hacquire hprint
  cases hw : l.worker with
  | locking =>
    unfold acquire at hacquire
    rw [if_pos hw] at hacquire
    split at hacquire
    · split at hacquire <;> cases hacquire
    · cases hacquire
  | printing entry rest => cases rest <;> simp [print, hw] at hprint
  | waiting =>
    have ha : l.awake = false := by
      by_contra ha
      have := due_of_run r hw (Bool.not_eq_false _ ▸ ha)
      omega
    obtain ⟨hqueue, hrunning⟩ : (l.notify → l.msgQueue = []) ∧ l.running := by simpa [awake] using ha
    exact ⟨by rw [remaining, hw]; rfl, by rw [if_pos hrunning]; exact ⟨rfl, hqueue⟩⟩
  | returned =>
    have hstopped := stopped_of_run r hw
    exact ⟨by rw [remaining, hw]; rfl, by rw [if_neg (by simp [hstopped])]⟩

theorem settles_paused : ∃ l, Run step (fun _ _ => True) (init .INFO) pausedRun l ∧
    ∀ es m, Run step (fun _ e => Own e) l es m → es.length ≤ 10 := by
  obtain ⟨l, r, hwork⟩ : ∃ l, Run step (fun _ _ => True) (init .INFO) pausedRun l ∧ l.work = 10 :=
    ⟨_, run_of_isSome (by decide +kernel), by decide +kernel⟩
  exact ⟨l, r, fun es m r' => hwork ▸ (settles r).1 es m r'⟩

/-! ## Pause -/

theorem paused_of_step (h : Stepped l e m) (hn : l.notify = false) (hr : l.running) (he : e ≠ .resume ∧ e ≠ .shutdown) :
    m.notify = false ∧ m.running ∧ m.msgQueue = l.msgQueue ++ e.pushed?.toList ∧ ∃ taken : List Taken,
      taken.map Prod.fst ++ m.worker.held = l.worker.held ∧ m.out = l.out ++ taken.filterMap Taken.printed := by
  obtain ⟨taken, hheld, hout, -⟩ := entries_of_step h
  have hq : m.msgQueue = l.msgQueue ++ e.pushed?.toList ∧ m.notify = false ∧ m.running := by
    cases h with
    | push => exact ⟨rfl, hn, hr⟩
    | setLevel | notified | woken | spurious | slept | last | printed => exact ⟨(List.append_nil _).symm, hn, hr⟩
    | pause => exact ⟨(List.append_nil _).symm, rfl, hr⟩
    | resume => exact absurd rfl he.1
    | shutdown => exact absurd rfl he.2
    | finished _ hs => rw [hs] at hr; cases hr
    | took _ ha => simp [awake, hn, hr] at ha
  refine ⟨hq.2.1, hq.2.2, hq.1, taken, ?_, hout⟩
  rw [remaining, remaining, hq.1] at hheld
  simp only [← List.append_assoc] at hheld
  exact List.append_cancel_right (List.append_cancel_right hheld)

/-- A paused worker prints what it holds, and leaves the queue to what is pushed. -/
theorem pause_holds (hn : l.notify = false) (hr : l.running)
    (r : Run step (fun _ e => e ≠ .resume ∧ e ≠ .shutdown) l es m) :
    m.msgQueue = l.msgQueue ++ pushes es ∧ ∃ taken : List Taken,
      taken.map Prod.fst ++ m.worker.held = l.worker.held ∧ m.out = l.out ++ taken.filterMap Taken.printed := by
  have h : m.notify = false ∧ m.running ∧ m.msgQueue = l.msgQueue ++ pushes es ∧ ∃ taken : List Taken,
      taken.map Prod.fst ++ m.worker.held = l.worker.held ∧ m.out = l.out ++ taken.filterMap Taken.printed := by
    induction r with
    | nil => exact ⟨hn, hr, (List.append_nil _).symm, [], rfl, (List.append_nil _).symm⟩
    | @snoc es m m' e r hg he ih =>
      obtain ⟨hn, hr, hq, taken, hheld, hout⟩ := ih
      obtain ⟨hn', hr', hq', more, hheld', hout'⟩ := paused_of_step (stepped_of_step he) hn hr hg
      refine ⟨hn', hr', ?_, taken ++ more, ?_, ?_⟩
      · rw [hq', hq, pushes_snoc, List.append_assoc]
      · rw [List.map_append, List.append_assoc, hheld', hheld]
      · rw [hout', hout, List.filterMap_append, List.append_assoc]
  exact h.2.2

/-- The second entry is printed, the third one waits. -/
theorem pause_holds_two : ∃ l m, Run step (fun _ e => e ≠ .resume ∧ e ≠ .shutdown) l
    [.push .WARN "w", .notifyOne, .print, .print, .acquire] m ∧ m.msgQueue = [⟨.WARN, "w"⟩] := by
  obtain ⟨l, m, hn, hr, hq, r⟩ : ∃ l m : Logger, l.notify = false ∧ l.running ∧ l.msgQueue = [] ∧
      Run step (fun _ e => e ≠ .resume ∧ e ≠ .shutdown) l [.push .WARN "w", .notifyOne, .print, .print, .acquire] m :=
    ⟨⟨.INFO, true, false, [], .printing ⟨.INFO, "a"⟩ [⟨.INFO, "b"⟩], 1, []⟩, _, rfl, rfl, rfl,
      run_of_isSome (by decide +kernel)⟩
  exact ⟨l, m, r, (pause_holds hn hr r).1.trans (by rw [hq]; rfl)⟩

end Logger

end Loadshear
