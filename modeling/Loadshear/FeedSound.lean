import Loadshear.OrchestratorSound
import Loadshear.PlanSound
import Loadshear.MemorySound

/-!
# What the shards are fed

In a run that starts with its one CREATE, a shard handles the parts of the
actions that fall to it, in order, and still holds the rest; its sessions have
run the calls of the parts that were handled, or still hold them (`Fed`).
-/

namespace Loadshear.Orchestrator

open Pool (callOf rangeOf)
open Session (callsOf)

/-! ## The calls of a session -/

/-- The calls that actions post to session `i`. -/
def callsOn (i : Nat) (actions : List ActionDescriptor) : List Call :=
  actions.flatMap fun a => if i ∈ rangeOf a then (callOf a).toList else []

def parts (range : UInt32 × UInt32) (actions : List ActionDescriptor) : List ActionDescriptor :=
  actions.filterMap (shardAction · range)

theorem callsOn_append (i : Nat) (as bs : List ActionDescriptor) :
    callsOn i (as ++ bs) = callsOn i as ++ callsOn i bs := List.flatMap_append

theorem parts_append (range : UInt32 × UInt32) (as bs : List ActionDescriptor) :
    parts range (as ++ bs) = parts range as ++ parts range bs := List.filterMap_append

theorem callOf_part {a part : ActionDescriptor} {range : UInt32 × UInt32} (h : shardAction a range = some part) :
    callOf part = callOf a := by
  obtain ⟨ht, hc, _⟩ := shardAction_spec h
  simp only [callOf, ht, hc]

theorem callsOn_parts {range : UInt32 × UInt32} {i : Nat} (hi : range.1.toNat + i < range.2.toNat) :
    ∀ actions, callsOn i (parts range actions) = callsOn (range.1.toNat + i) actions
  | [] => rfl
  | a :: actions => by
    have ih := callsOn_parts hi actions
    unfold callsOn parts at ih ⊢
    rw [List.filterMap_cons]
    cases h : shardAction a range with
    | none => rw [List.flatMap_cons, if_neg (shardAction_none h hi), List.nil_append, ih]
    | some part =>
      have hm := (shardAction_spec h).2.2.2.2 i
      rw [List.flatMap_cons, List.flatMap_cons, ih, callOf_part h]
      simp only [hm, hi, true_and]

/-! ## One CREATE, first -/

structure Opens (actions : List ActionDescriptor) (shardCount : Nat) : Prop where
  first : ∃ create rest, actions = create :: rest ∧ create.type = .CREATE ∧ create.sessionsStart = 0 ∧
    create.sessionsEnd = create.count ∧ shardCount ≤ create.count.toNat ∧ ∀ a ∈ rest, a.type ≠ .CREATE
  pos : 0 < shardCount
  small : shardCount < 2 ^ 32

def rangesOf (actions : List ActionDescriptor) (shardCount : Nat) : List (UInt32 × UInt32) :=
  computeShardRanges ((actions.head?.map (·.count)).getD 0) (UInt32.ofNat shardCount)

theorem Opens.range_lt {actions : List ActionDescriptor} {shardCount : Nat} (h : Opens actions shardCount) :
    ∀ range ∈ rangesOf actions shardCount,
      range.1 < range.2 ∧ ∃ create ∈ actions.head?, range.2.toNat ≤ create.sessionsEnd.toNat := by
  obtain ⟨⟨create, rest, rfl, _, _, hstop, hle, _⟩, hpos, hsmall⟩ := h
  intro range hr
  have hk : (UInt32.ofNat shardCount).toNat = shardCount := UInt32.toNat_ofNat_of_lt' hsmall
  obtain ⟨hlt, hend⟩ := computeShardRanges_bounds (by rw [UInt32.lt_iff_toNat_lt, hk]; exact hpos)
    (by rw [UInt32.le_iff_toNat_le, hk]; exact hle) range hr
  exact ⟨hlt, create, rfl, by rw [hstop]; exact hend⟩

/-- The first part is the CREATE of all the shard's sessions; it is the only one. -/
theorem Opens.parts {actions : List ActionDescriptor} {shardCount n : Nat} (h : Opens actions shardCount)
    {range : UInt32 × UInt32} (hr : range ∈ rangesOf actions shardCount) (hn : 0 < n) :
    ∃ create rest, parts range (actions.take n) = create :: rest ∧ create.type = .CREATE ∧
      create.sessionsEnd - create.sessionsStart = range.2 - range.1 ∧ ∀ a ∈ rest, a.type ≠ .CREATE := by
  obtain ⟨hlt, create, hc, hend⟩ := h.range_lt range hr
  obtain ⟨⟨create', rest, rfl, ht, hs, _, _, hrest⟩, _, _⟩ := h
  obtain rfl : create' = create := Option.some.inj hc
  obtain ⟨part, hp, hsize⟩ := shardAction_whole hlt hs hend
  obtain ⟨n, rfl⟩ := Nat.exists_eq_succ_of_ne_zero (Nat.ne_of_gt hn)
  refine ⟨part, Orchestrator.parts range (rest.take n), ?_, (shardAction_spec hp).1.trans ht, hsize, ?_⟩
  · rw [Nat.succ_eq_add_one, List.take_succ_cons, Orchestrator.parts, List.filterMap_cons, hp]
    rfl
  · intro a ha
    obtain ⟨b, hb, hab⟩ := List.mem_filterMap.mp ha
    rw [(shardAction_spec hab).1]
    exact hrest b (List.mem_of_mem_take hb)

/-! ## What a pool has handled -/

variable {session : SessionEnv}

/-- The session has run `es`, with what `calls` starts with; its strand holds the rest. -/
structure Holds (session : SessionEnv) (G : Session → Nat × Loadshear.Event → Prop)
    (es : List (Nat × Loadshear.Event)) (calls : List Call) (slot : Slot) : Prop where
  run : Runs.Run (Session.step session) G (Session.init session) es slot.session
  calls : callsOf es ++ slot.calls = calls

structure After (session : SessionEnv) (G : Nat → Session → Nat × Loadshear.Event → Prop)
    (past : Nat → List (Nat × Loadshear.Event)) (size : Nat) (done : List ActionDescriptor) (p : Pool) : Prop where
  size : p.slots.length = if done = [] then 0 else size
  slots : ∀ (i : Nat) (slot : Slot), p.slots[i]? = some slot → Holds session (G i) (past i) (callsOn i done) slot
  unborn : ∀ i, p.slots[i]? = none → past i = []

variable {G : Nat → Session → Nat × Loadshear.Event → Prop} {past : Nat → List (Nat × Loadshear.Event)} {size : Nat}
  {done : List ActionDescriptor} {p q : Pool}

theorem After.acted {a : ActionDescriptor} (hp : After session G past size done p) (hpos : 0 < size)
    (hfirst : done = [] → a.type = .CREATE ∧ (a.sessionsEnd - a.sessionsStart).toNat = size)
    (hrest : done ≠ [] → a.type ≠ .CREATE) (ho : ¬ p.closed) (h : Pool.Acted session p a q) :
    After session G past size (done ++ [a]) q ∧ ¬ q.closed := by
  cases h with
  | created hc hs =>
    have hd : done = [] := by
      by_contra hd
      have := hp.size
      simp [hs, hd] at this
      omega
    have hnone : ∀ i, past i = [] := fun i => hp.unborn i (by simp [hs])
    refine ⟨⟨?_, fun i slot hi => ?_, fun i _ => hnone i⟩, ho⟩
    · simp [hd, (hfirst hd).2]
    · obtain rfl := List.eq_of_mem_replicate (List.mem_of_getElem? hi)
      rw [hnone]
      exact ⟨.nil, by simp [callsOf, callsOn, hd, hc, Slot.init]⟩
  | kept hc hs =>
    refine absurd (Pool.callOf_none.mp hc) (hrest ?_)
    rintro rfl
    exact hs (List.eq_nil_of_length_eq_zero hp.size)
  | closed _ h => exact absurd h ho
  | called hc _ hslots =>
    have hd : done ≠ [] := fun hd => by
      rw [Pool.callOf_none.mpr (hfirst hd).1] at hc
      cases hc
    refine ⟨⟨?_, fun i slot hi => ?_, fun i hi => hp.unborn i ?_⟩, ho⟩
    · simp [Pool.postAll_length hslots, hp.size, hd]
    · rw [Pool.postAll_getElem? (Pool.rangeOf_nodup a) hslots] at hi
      rw [callsOn_append]
      split at hi
      · rename_i hm
        obtain ⟨old, hold, rfl⟩ := Option.map_eq_some_iff.mp hi
        obtain ⟨hr, hcalls⟩ := hp.slots i old hold
        refine ⟨hr, ?_⟩
        rw [← hcalls]
        simp [Slot.post, callsOn, hm, hc]
      · rename_i hm
        obtain ⟨hr, hcalls⟩ := hp.slots i slot hi
        exact ⟨hr, by simp [hcalls, callsOn, hm]⟩
    · rwa [List.getElem?_eq_none_iff, Pool.postAll_length hslots, ← List.getElem?_eq_none_iff] at hi

theorem After.handled {e : Pool.Event} (hp : After session G past size done p)
    (hg : ∀ t, p.turn e = some t → G t.i t.slot.session (t.now, t.event)) (h : p.handle session e = some q) :
    After session G (fun i => past i ++ p.eventsOf i e) size done q ∧ q.closed = p.closed := by
  obtain ⟨t, s, ht, hs, rfl⟩ := Pool.handle_spec h
  obtain ⟨hi, hev⟩ := Pool.turn_spec ht
  obtain ⟨hslots, hclosed, _⟩ := Pool.disconnectCallbacks_spec (s.disconnects - t.slot.session.disconnects)
    { p with slots := p.slots.set t.i ⟨t.calls, s⟩ }
  have hself : p.eventsOf t.i e = [(t.now, t.event)] := by simp [Pool.eventsOf, ht]
  have hother : ∀ {i}, t.i ≠ i → past i ++ p.eventsOf i e = past i := fun hti => by simp [Pool.eventsOf, ht, hti]
  have hl : t.i < p.slots.length := (List.getElem?_eq_some_iff.mp hi).1
  rw [Pool.update]
  refine ⟨⟨?_, fun i slot hslot => ?_, fun i hslot => ?_⟩, hclosed⟩
  · rw [hslots, List.length_set, hp.size]
  · rw [hslots] at hslot
    by_cases hti : t.i = i
    · subst hti
      rw [List.getElem?_set_self hl] at hslot
      obtain rfl := Option.some.inj hslot
      obtain ⟨hr, hcalls⟩ := hp.slots t.i t.slot hi
      rw [hself]
      refine ⟨hr.snoc (hg t ht) hs, ?_⟩
      rw [← hcalls, callsOf, List.filterMap_append, List.append_assoc]
      obtain ⟨c, o, cn, he, hc⟩ | ⟨c, he, hc⟩ := hev
      · simp [he, hc, Event.call?, callsOf]
      · simp [he, hc, Event.call?, callsOf]
    · rw [List.getElem?_set_ne hti] at hslot
      rw [hother hti]
      exact hp.slots i slot hslot
  · rw [hslots, List.getElem?_eq_none_iff, List.length_set] at hslot
    rw [hother fun hti => absurd hl (Nat.not_lt_of_le (hti ▸ hslot))]
    exact hp.unborn i (List.getElem?_eq_none_iff.mpr hslot)

/-! ## Shards -/

variable {env : OrchestratorEnv} {early : Prop} {current : Nat} {range : UInt32 × UInt32} {s s' : Shard}

/-- Of the first `n` actions the shard was sent its parts; it has handled
`done` and `pending` is in its inbox. -/
structure Fed (env : OrchestratorEnv) (G : Nat → Session → Nat × Loadshear.Event → Prop) (early : Prop)
    (past : Nat → List (Nat × Loadshear.Event)) (range : UInt32 × UInt32) (s : Shard) (n : Nat)
    (done pending : List ActionDescriptor) : Prop where
  stopped : ¬ s.running → early ∨ env.actions.length ≤ n
  sent : parts range (env.actions.take n) = done ++ pending
  inbox : s.inbox = pending.map .action ++ if s.running ∨ s.pool.closed then [] else [.shutdown]
  closed : s.pool.closed → pending = [] ∧ ¬ s.running
  after : After env.session G past (range.2 - range.1).toNat done s.pool

theorem Fed.stop {n : Nat} {pending : List ActionDescriptor} (h : Fed env G early past range s n done pending)
    (hs : s.running → early ∨ env.actions.length ≤ n) : Fed env G early past range s.stop n done pending := by
  unfold Shard.stop
  split
  · rename_i hr
    have hc : ¬ s.pool.closed := fun hc => (h.closed hc).2 hr
    refine ⟨fun _ => hs hr, h.sent, ?_, fun hc' => absurd hc' hc, h.after⟩
    rw [h.inbox]
    simp [hr, hc]
  · exact h

theorem Fed.submitTo {n : Nat} {a : ActionDescriptor} {pending : List ActionDescriptor}
    (h : Fed env G early past range s n done pending) (hr : s.running) (ha : env.actions[n]? = some a) :
    ∃ pending, Fed env G early past range (submitTo a range s) (n + 1) done pending := by
  have hc : ¬ s.pool.closed := fun hc => (h.closed hc).2 hr
  have htake : env.actions.take (n + 1) = env.actions.take n ++ [a] := by
    rw [List.take_add_one, ha]
    rfl
  have hsent : parts range (env.actions.take (n + 1)) = done ++ (pending ++ (shardAction a range).toList) := by
    rw [htake, parts_append, h.sent, List.append_assoc, parts, List.filterMap_cons]
    cases shardAction a range <;> rfl
  refine ⟨pending ++ (shardAction a range).toList, ?_⟩
  unfold Orchestrator.submitTo Shard.submitWork
  cases hp : shardAction a range with
  | none =>
    rw [hp] at hsent
    refine ⟨fun hn => absurd hr hn, hsent, ?_, fun hc' => absurd hc' hc, h.after⟩
    rw [h.inbox]
    simp
  | some part =>
    rw [hp] at hsent
    simp only [hr, if_true]
    refine ⟨fun hn => absurd rfl hn, hsent, ?_, fun hc' => absurd hc' hc, h.after⟩
    rw [h.inbox]
    simp [hr]

theorem Fed.next {n : Nat} {a : ActionDescriptor} {pending : List ActionDescriptor}
    (h : Fed env G early past range s n done (a :: pending)) {shardCount : Nat} (ho : Opens env.actions shardCount)
    (hr : range ∈ rangesOf env.actions shardCount) :
    (done = [] → a.type = .CREATE ∧ (a.sessionsEnd - a.sessionsStart).toNat = (range.2 - range.1).toNat) ∧
      (done ≠ [] → a.type ≠ .CREATE) := by
  have hn : 0 < n := by
    rcases Nat.eq_zero_or_pos n with rfl | hn
    · have := h.sent
      simp [parts] at this
    · exact hn
  obtain ⟨create, rest, hparts, ht, hsize, hrest⟩ := ho.parts hr hn
  have hsent := h.sent
  rw [hparts] at hsent
  constructor
  · rintro rfl
    obtain ⟨rfl, _⟩ := List.cons.inj hsent
    exact ⟨ht, by rw [hsize]⟩
  · intro hd
    obtain ⟨first, tail, rfl⟩ := List.exists_cons_of_ne_nil hd
    obtain ⟨_, hsent⟩ := List.cons.inj hsent
    exact hrest a (hsent ▸ by simp)

theorem Fed.task {n : Nat} {pending : List ActionDescriptor} {task : Task} {inbox : List Task} {pool : Pool}
    (h : Fed env G early past range s n done pending) {shardCount : Nat} (ho : Opens env.actions shardCount)
    (hr : range ∈ rangesOf env.actions shardCount) (hi : s.inbox = task :: inbox)
    (hp : s.pool.handleTask env.session task = some pool) :
    ∃ done pending, Fed env G early past range { s with inbox := inbox, pool := pool } n done pending := by
  have hinbox := h.inbox
  rw [hi] at hinbox
  cases pending with
  | cons a pending =>
    rw [List.map_cons, List.cons_append] at hinbox
    obtain ⟨rfl, rfl⟩ := List.cons.inj hinbox
    have hc : ¬ s.pool.closed := fun hc => by simpa using (h.closed hc).1
    have hlt : 0 < (range.2 - range.1).toNat := by
      have hlt := (ho.range_lt range hr).1
      have := UInt32.lt_iff_toNat_lt.mp hlt
      rw [UInt32.toNat_sub_of_le _ _ (UInt32.le_of_lt hlt)]
      omega
    obtain ⟨hfirst, hlater⟩ := h.next ho hr
    obtain ⟨hafter, hc'⟩ := h.after.acted hlt hfirst hlater hc (Pool.acted_of_handleAction hp)
    refine ⟨done ++ [a], pending, h.stopped, ?_, ?_, fun hcl => absurd hcl hc', hafter⟩
    · rw [h.sent, List.append_assoc]
      rfl
    · simp [hc, hc']
  | nil =>
    have hcl : ¬ (s.running ∨ s.pool.closed) := fun hcl => by simp [hcl] at hinbox
    rw [if_neg hcl] at hinbox
    obtain ⟨rfl, rfl⟩ : task = .shutdown ∧ inbox = [] := by simpa using hinbox
    rw [not_or] at hcl
    obtain rfl := Option.some.inj ((Pool.shutdown_eq _).symm.trans hp)
    rw [if_neg hcl.2]
    exact ⟨done, [], h.stopped, h.sent, by simp, fun _ => ⟨rfl, hcl.1⟩, ⟨h.after.size, h.after.slots, h.after.unborn⟩⟩

theorem Fed.handler {n : Nat} {pending : List ActionDescriptor} {e : Pool.Event} {pool : Pool}
    (h : Fed env G early past range s n done pending)
    (hg : ∀ t ∈ s.pool.turn e, G t.i t.slot.session (t.now, t.event)) (hp : s.pool.handle env.session e = some pool) :
    Fed env G early (fun i => past i ++ s.pool.eventsOf i e) range { s with pool := pool } n done pending := by
  obtain ⟨hafter, hc⟩ := h.after.handled (fun t ht => hg t ht) hp
  refine ⟨h.stopped, h.sent, ?_, fun hcl => h.closed (hc ▸ hcl), hafter⟩
  rw [h.inbox]
  simp [hc]

/-! ## Runs -/

/-- The run is stopped early only if `early`, and the handlers meet `G`. -/
def Handles (early : Prop) (G : Nat → Nat → Session → Nat × Loadshear.Event → Prop) (o : Orchestrator) : Event → Prop
  | .dispatch => True
  | .earlyStop => early
  | .task _ => True
  | .handler k e => ∀ s ∈ o.shards[k]?, ∀ t ∈ s.pool.turn e, G k t.i t.slot.session (t.now, t.event)

instance {G : Nat → Nat → Session → Nat × Loadshear.Event → Prop} [Decidable early]
    [∀ k i s e, Decidable (G k i s e)] (o : Orchestrator) : ∀ e, Decidable (Handles early G o e)
  | .dispatch => inferInstanceAs (Decidable True)
  | .earlyStop => inferInstanceAs (Decidable early)
  | .task _ => inferInstanceAs (Decidable True)
  | .handler k e => inferInstanceAs (Decidable (∀ s ∈ o.shards[k]?, ∀ t ∈ s.pool.turn e, _))

theorem Handles.mono {G G' : Nat → Nat → Session → Nat × Loadshear.Event → Prop} {o : Orchestrator} {e : Event}
    (h : Handles early G o e) (hG : ∀ k i s e, G k i s e → G' k i s e) : Handles early G' o e := by
  cases e with
  | handler k e => exact fun s hs t ht => hG k t.i _ _ (h s hs t ht)
  | _ => exact h

theorem handles_true {o : Orchestrator} {e : Event} : Handles True (fun _ _ _ _ => True) o e := by
  cases e <;> simp [Handles]

structure Feeds (env : OrchestratorEnv) (G : Nat → Nat → Session → Nat × Loadshear.Event → Prop) (early : Prop)
    (shardCount : Nat) (past : Nat → Nat → List (Nat × Loadshear.Event)) (o : Orchestrator) : Prop where
  shards : o.shards.length = shardCount
  ranges : 0 < o.currentActionIndx → o.shardRanges = rangesOf env.actions shardCount
  fed : ∀ (k : Nat) (s : Shard) (range : UInt32 × UInt32), o.shards[k]? = some s →
    (rangesOf env.actions shardCount)[k]? = some range →
    ∃ n done pending, n ≤ o.currentActionIndx ∧ (s.running → n = o.currentActionIndx) ∧
      Fed env (G k) early (past k) range s n done pending

variable {G : Nat → Nat → Session → Nat × Loadshear.Event → Prop} {shardCount : Nat}
  {past past' : Nat → Nat → List (Nat × Loadshear.Event)} {o o' : Orchestrator} {e : Event}

theorem feeds_init (env : OrchestratorEnv) (G : Nat → Nat → Session → Nat × Loadshear.Event → Prop) (early : Prop)
    (shardCount : Nat) : Feeds env G early shardCount (fun _ _ => []) (init shardCount) := by
  refine ⟨by simp [init], fun h => absurd h (by simp [init]), fun k s range hs _ =>
    ⟨0, [], [], Nat.le_refl _, fun _ => rfl, ?_⟩⟩
  obtain rfl : s = .start := List.eq_of_mem_replicate (List.mem_of_getElem? hs)
  exact ⟨by simp [Shard.start], rfl, by simp [Shard.start], by simp [Shard.start, Pool.init],
    ⟨by simp [Shard.start, Pool.init], by simp [Shard.start, Pool.init], fun _ _ => rfl⟩⟩

theorem Feeds.rangesFor {a : ActionDescriptor} (h : Feeds env G early shardCount past o)
    (ho : Opens env.actions shardCount) (ha : env.actions[o.currentActionIndx]? = some a) :
    o.rangesFor a = rangesOf env.actions shardCount := by
  obtain ⟨⟨create, rest, hactions, ht, _, _, _, hrest⟩, _, _⟩ := ho
  unfold Orchestrator.rangesFor
  rw [hactions] at ha
  rcases Nat.eq_zero_or_pos o.currentActionIndx with hc | hc
  · rw [hc] at ha
    obtain rfl : create = a := Option.some.inj ha
    rw [if_pos ht, h.shards, rangesOf, hactions]
    rfl
  · obtain ⟨n, hn⟩ := Nat.exists_eq_succ_of_ne_zero (Nat.ne_of_gt hc)
    rw [hn] at ha
    rw [if_neg (hrest a (List.mem_of_getElem? ha)), h.ranges hc]

theorem Feeds.shutdown (h : Feeds env G early shardCount past o)
    (hs : early ∨ env.actions.length ≤ o.currentActionIndx) : Feeds env G early shardCount past o.doShutdown := by
  unfold doShutdown
  split
  · exact h
  · refine ⟨by simpa using h.shards, h.ranges, fun k s' range hk hr => ?_⟩
    rw [List.getElem?_map] at hk
    obtain ⟨s, hs', rfl⟩ := Option.map_eq_some_iff.mp hk
    obtain ⟨n, done, pending, hle, hn, hf⟩ := h.fed k s range hs' hr
    refine ⟨n, done, pending, hle, fun hr => ?_, hf.stop fun hr => hn hr ▸ hs⟩
    unfold Shard.stop at hr
    split at hr
    · cases hr
    · exact hn hr

theorem Feeds.setShard {k : Nat} {s t : Shard} (h : Feeds env G early shardCount past o) (hk : o.shards[k]? = some s)
    (ht : t.running = s.running) (hother : ∀ k' ≠ k, past' k' = past k')
    (hf : ∀ range n done pending, (rangesOf env.actions shardCount)[k]? = some range →
      Fed env (G k) early (past k) range s n done pending →
        ∃ done pending, Fed env (G k) early (past' k) range t n done pending) :
    Feeds env G early shardCount past' (o.setShard k t) := by
  refine ⟨by simpa [Orchestrator.setShard] using h.shards, h.ranges, fun k' s' range hk' hr => ?_⟩
  obtain ⟨rfl, rfl⟩ | ⟨hne, hk'⟩ := setShard_shard hk hk'
  · obtain ⟨n, done, pending, hle, hn, hfed⟩ := h.fed k' s range hk hr
    obtain ⟨done, pending, hfed⟩ := hf range n done pending hr hfed
    exact ⟨n, done, pending, hle, fun hr => hn (ht ▸ hr), hfed⟩
  · rw [hother k' hne]
    exact h.fed k' s' range hk' hr

theorem Feeds.step (h : Feeds env G early shardCount past o) (ho : Opens env.actions shardCount)
    (hg : Handles early G o e) (hs : Stepped env o e o') :
    Feeds env G early shardCount (fun k i => past k i ++ o.eventsOf (k, i) e) o' := by
  have hsame : (fun k i => past k i ++ []) = past := by simp
  cases hs with
  | @dispatched a shards ha hs =>
    have hr := h.rangesFor ho ha
    obtain ⟨hl, hall⟩ := submitAll_spec hs
    simp only [eventsOf, hsame]
    refine ⟨hl.trans h.shards, fun _ => hr, fun k s' range hk hrange => ?_⟩
    obtain ⟨s, range', hs', hrange', rfl⟩ := hall k s' hk
    obtain rfl : range' = range := Option.some.inj (hrange'.symm.trans (hr ▸ hrange))
    obtain ⟨n, done, pending, hle, hn, hf⟩ := h.fed k s range' hs' hrange
    by_cases hrun : s.running
    · obtain ⟨pending, hf⟩ := hf.submitTo hrun (hn hrun ▸ ha)
      exact ⟨n + 1, done, pending, Nat.succ_le_succ hle, fun _ => by rw [hn hrun], hf⟩
    · have hsame : submitTo a range' s = s := by
        unfold Orchestrator.submitTo Shard.submitWork
        split <;> simp [hrun]
      exact ⟨n, done, pending, Nat.le_succ_of_le hle, fun hr => absurd (hsame ▸ hr) hrun, hsame.symm ▸ hf⟩
  | finished ha =>
    simp only [eventsOf, hsame]
    exact h.shutdown (.inr (List.getElem?_eq_none_iff.mp ha))
  | stopped =>
    simp only [eventsOf, hsame]
    exact h.shutdown (.inl hg)
  | @tasked k s task inbox pool hk hi hp =>
    simp only [eventsOf, hsame]
    refine h.setShard hk rfl (fun _ _ => rfl) fun range n done pending hr hf => ?_
    exact hf.task ho (List.mem_of_getElem? hr) hi hp
  | @handled k e s pool hk hp =>
    refine h.setShard hk rfl (fun k' hne => ?_) fun range n done pending hr hf => ⟨done, pending, ?_⟩
    · simp [eventsOf, hne.symm]
    · simp only [eventsOf_handler hk]
      exact hf.handler (hg s hk) hp

/-- Each session has run what the run has for it. -/
theorem feeds_of_run {es : List Event} (ho : Opens env.actions shardCount)
    (r : Runs.Run (step env) (Handles early G) (init shardCount) es o) :
    Feeds env G early shardCount (fun k i => historyOf env (k, i) (init shardCount) es) o := by
  induction r with
  | nil => exact feeds_init env G early shardCount
  | @snoc es t u e r hg he ih =>
    have hstep := ih.step ho hg (stepped_of_step he)
    simp only [historyOf, r.shown_snoc]
    exact hstep

theorem feeds_of_any_run {G : Orchestrator → Event → Prop} {es : List Event} (ho : Opens env.actions shardCount)
    (r : Runs.Run (step env) G (init shardCount) es o) :
    Feeds env (fun _ _ _ _ => True) True shardCount (fun k i => historyOf env (k, i) (init shardCount) es) o :=
  feeds_of_run ho (r.mono fun _ _ _ => handles_true)

theorem rangesOf_length {actions : List ActionDescriptor} (ho : Opens actions shardCount) :
    (rangesOf actions shardCount).length = shardCount := by
  rw [rangesOf, computeShardRanges_length, UInt32.toNat_ofNat_of_lt' ho.small]

theorem Feeds.exists_range {k : Nat} {s : Shard} (h : Feeds env G early shardCount past o)
    (ho : Opens env.actions shardCount)
    (hs : o.shards[k]? = some s) : ∃ range, (rangesOf env.actions shardCount)[k]? = some range := by
  have hl : k < (rangesOf env.actions shardCount).length := by
    rw [rangesOf_length ho, ← h.shards]
    exact (List.getElem?_eq_some_iff.mp hs).1
  exact ⟨_, List.getElem?_eq_getElem hl⟩

end Loadshear.Orchestrator
