import Loadshear.PlanSound

/-!
# One file under several identifiers

A file that was read before is looked up by its name in a map of identifiers.
The packets are loaded, each identifier with its own file's bytes, when whatever
such a lookup finds is right (`loadPackets_iff`).
-/

namespace Loadshear

/-! ## Files -/

def Env.content (env : Env) (filename : String) : Option (List UInt8) :=
  match resolveFile env filename with
  | .error _ => none
  | .ok path => env.readBytes path (env.fileSize path).toNat

/-- A file that is not empty and can be read, at `path`. -/
structure Readable (env : Env) (filename path : String) (bytes : List UInt8) : Prop where
  resolves : resolveFile env filename = .ok path
  size : env.fileSize path ≠ 0
  fits : env.canAllocate (env.fileSize path) = true
  read : env.readBytes path (env.fileSize path).toNat = some bytes

theorem Readable.content {env : Env} {filename path : String} {bytes : List UInt8} (h : Readable env filename path bytes) :
    env.content filename = some bytes := by
  unfold Env.content
  rw [h.resolves]
  exact h.read

def AllReadable (env : Env) (packets : List (String × String)) : Prop :=
  ∀ e ∈ packets, ∃ path bytes, Readable env e.2 path bytes

/-! ## One pass of the loop -/

def loadEntry (env : Env) (e : String × String) (t : PacketTable) : ParseResult PacketTable :=
  loadPackets env [e] t

section
variable {env : Env} {t t' : PacketTable} {id filename path : String} {bytes : List UInt8}

theorem loadEntry_new (h : Readable env filename path bytes) (hp : path ∉ t.allPackets) :
    loadEntry env (id, filename) t = .ok
      { identityMap := mapAssign id t.packetData.length t.identityMap
        allPackets := path :: t.allPackets
        packetData := t.packetData ++ [bytes] } := by
  have hload : loadPacket env id path t = .ok
      { identityMap := mapAssign id t.packetData.length t.identityMap
        allPackets := path :: t.allPackets
        packetData := t.packetData ++ [bytes] } := by
    simp [loadPacket, h.size, h.fits, h.read]
  simp only [loadEntry, loadPackets, h.resolves, hp, if_false, hload]
  rfl

theorem loadEntry_seen (h : Readable env filename path bytes) (hp : path ∈ t.allPackets) {index : Nat}
    (hi : t.identityMap.lookup filename = some index) :
    loadEntry env (id, filename) t = .ok { t with identityMap := mapAssign id index t.identityMap } := by
  simp only [loadEntry, loadPackets, h.resolves, hp, if_true, hi]

theorem loadEntry_found (h : Readable env filename path bytes) (hp : path ∈ t.allPackets)
    (hl : loadEntry env (id, filename) t = .ok t') : ∃ index, t.identityMap.lookup filename = some index := by
  cases hi : t.identityMap.lookup filename with
  | some index => exact ⟨index, rfl⟩
  | none =>
    simp only [loadEntry, loadPackets, h.resolves, hp, if_true, hi] at hl
    cases hl

theorem loadPackets_cons (e : String × String) (rest : List (String × String)) (t : PacketTable) :
    loadPackets env (e :: rest) t = loadEntry env e t >>= loadPackets env rest := by
  obtain ⟨id, filename⟩ := e
  unfold loadEntry
  simp only [loadPackets]
  cases resolveFile env filename with
  | error message => rfl
  | ok path =>
    by_cases hp : path ∈ t.allPackets
    · simp only [hp, if_true]
      cases t.identityMap.lookup filename <;> rfl
    · simp only [hp, if_false]
      cases loadPacket env id path t <;> rfl

theorem loadPackets_append (before rest : List (String × String)) (t : PacketTable) :
    loadPackets env (before ++ rest) t = loadPackets env before t >>= loadPackets env rest := by
  induction before generalizing t with
  | nil => rfl
  | cons e before ih =>
    rw [List.cons_append, loadPackets_cons, loadPackets_cons, bind_assoc]
    exact congrArg _ (funext ih)

end

/-! ## What was loaded -/

structure Seen (env : Env) (before : List (String × String)) (t : PacketTable) : Prop where
  paths : ∀ path, path ∈ t.allPackets ↔ ∃ e ∈ before, resolveFile env e.2 = .ok path
  keys : ∀ name, (t.identityMap.lookup name).isSome ↔ name ∈ before.map (·.1)

def Held (env : Env) (before : List (String × String)) (t : PacketTable) : Prop :=
  ∀ e ∈ before, ∃ i bytes, t.identityMap.lookup e.1 = some i ∧ t.packetData[i]? = some bytes ∧
    env.content e.2 = some bytes

section
variable {env : Env} {before rest : List (String × String)} {t t' : PacketTable} {id filename path : String}
  {bytes : List UInt8}

theorem keys_assign {m : List (String × Nat)} (h : ∀ name, (m.lookup name).isSome ↔ name ∈ before.map (·.1)) (index : Nat)
    (name : String) : ((mapAssign id index m).lookup name).isSome ↔ name ∈ (before ++ [(id, filename)]).map (·.1) := by
  rw [lookup_mapAssign, List.map_append, List.mem_append, ← h name]
  by_cases hn : name = id <;> simp [hn]

theorem exists_resolves (path' : String) (hr : Readable env filename path bytes) :
    (∃ e ∈ before ++ [(id, filename)], resolveFile env e.2 = .ok path') ↔
      (∃ e ∈ before, resolveFile env e.2 = .ok path') ∨ path' = path := by
  constructor
  · intro ⟨e, he, hp⟩
    rcases List.mem_append.mp he with he | he
    · exact .inl ⟨e, he, hp⟩
    · rw [List.mem_singleton.mp he, hr.resolves] at hp
      exact .inr (Except.ok.inj hp).symm
  · rintro (⟨e, he, hp⟩ | rfl)
    · exact ⟨e, List.mem_append_left _ he, hp⟩
    · exact ⟨(id, filename), List.mem_append_right _ (List.mem_singleton.mpr rfl), hr.resolves⟩

theorem Seen.new (h : Seen env before t) (hr : Readable env filename path bytes) (index : Nat)
    (data : List (List UInt8)) :
    Seen env (before ++ [(id, filename)]) ⟨mapAssign id index t.identityMap, path :: t.allPackets, data⟩ := by
  refine ⟨fun path' => ?_, keys_assign h.keys index⟩
  rw [exists_resolves path' hr, ← h.paths, List.mem_cons, or_comm]

theorem Seen.again (h : Seen env before t) (hr : Readable env filename path bytes) (hp : path ∈ t.allPackets)
    (index : Nat) : Seen env (before ++ [(id, filename)]) { t with identityMap := mapAssign id index t.identityMap } := by
  refine ⟨fun path' => ?_, keys_assign h.keys index⟩
  rw [exists_resolves path' hr, ← h.paths]
  constructor
  · exact Or.inl
  · rintro (hm | rfl)
    · exact hm
    · exact hp

theorem Seen.entry (h : Seen env before t) (hr : Readable env filename path bytes)
    (hl : loadEntry env (id, filename) t = .ok t') : Seen env (before ++ [(id, filename)]) t' := by
  by_cases hp : path ∈ t.allPackets
  · obtain ⟨index, hi⟩ := loadEntry_found hr hp hl
    rw [loadEntry_seen hr hp hi] at hl
    cases hl
    exact h.again hr hp index
  · rw [loadEntry_new hr hp] at hl
    cases hl
    exact h.new hr _ _

theorem seen_load (hr : AllReadable env rest) (h : Seen env before t) (hl : loadPackets env rest t = .ok t') :
    Seen env (before ++ rest) t' := by
  induction rest generalizing before t with
  | nil =>
    simp only [loadPackets, Except.ok.injEq] at hl
    subst hl
    rwa [List.append_nil]
  | cons e rest ih =>
    rw [loadPackets_cons] at hl
    obtain ⟨t₁, h₁, hl⟩ := bind_eq_ok hl
    obtain ⟨path, bytes, he⟩ := hr e (List.mem_cons_self ..)
    have h₁ := ih (fun e' he' => hr e' (List.mem_cons_of_mem _ he')) (h.entry he h₁) hl
    rwa [List.append_assoc] at h₁

theorem lookup_load (hr : AllReadable env rest) (hl : loadPackets env rest t = .ok t') {name : String}
    (hn : name ∉ rest.map (·.1)) : t'.identityMap.lookup name = t.identityMap.lookup name := by
  induction rest generalizing t with
  | nil =>
    simp only [loadPackets, Except.ok.injEq] at hl
    rw [hl]
  | cons e rest ih =>
    rw [loadPackets_cons] at hl
    obtain ⟨t₁, h₁, hl⟩ := bind_eq_ok hl
    obtain ⟨path, bytes, he⟩ := hr e (List.mem_cons_self ..)
    rw [List.map_cons, List.mem_cons, not_or] at hn
    rw [ih (fun e' he' => hr e' (List.mem_cons_of_mem _ he')) hl hn.2]
    by_cases hp : path ∈ t.allPackets
    · obtain ⟨index, hi⟩ := loadEntry_found he hp h₁
      rw [loadEntry_seen he hp hi] at h₁
      cases h₁
      rw [lookup_mapAssign, if_neg hn.1]
    · rw [loadEntry_new he hp] at h₁
      cases h₁
      rw [lookup_mapAssign, if_neg hn.1]

end

/-! ## SENDs -/

def Serves (env : Env) (table : PacketTable) (e : String × String) : Prop :=
  ∃ bytes, env.content e.2 = some bytes ∧ ∀ a : Action, a.packetIdentifier = e.1 →
    planSend table a = (sendOperations a.mods bytes).map fun r => (⟨bytes, r.1⟩, r.2)

theorem serves_iff {env : Env} {table : PacketTable} {e : String × String} :
    Serves env table e ↔ ∃ i bytes, table.identityMap.lookup e.1 = some i ∧ table.packetData.getD i [] = bytes ∧
      env.content e.2 = some bytes := by
  constructor
  · intro ⟨bytes, hc, h⟩
    have hsend := h ⟨.SEND, 0, ⟨0, 0⟩, 0, e.1, .empty⟩ rfl
    unfold planSend at hsend
    cases hi : table.identityMap.lookup e.1 with
    | none =>
      rw [hi] at hsend
      cases hsend
    | some i =>
      rw [hi] at hsend
      exact ⟨i, bytes, rfl, by cases hsend; rfl, hc⟩
  · intro ⟨i, bytes, hi, hb, hc⟩
    refine ⟨bytes, hc, fun a ha => ?_⟩
    unfold planSend
    rw [ha, hi]
    simp only [hb]
    cases sendOperations a.mods bytes <;> rfl

/-! ## When the lookup is right -/

/-- Where a file was read before, its name is spelled like an identifier that came
before, and that one's file holds the same bytes. -/
def AliasesNamed (env : Env) (packets : List (String × String)) : Prop :=
  ∀ before id filename after, packets = before ++ (id, filename) :: after →
    (∃ e ∈ before, ∃ path, resolveFile env e.2 = .ok path ∧ resolveFile env filename = .ok path) →
    ∃ e ∈ before, e.1 = filename ∧ env.content e.2 = env.content filename

section
variable {env : Env} {before rest : List (String × String)} {t : PacketTable} {id filename : String}

theorem Held.assign (h : Held env before t) (hid : id ∉ before.map (·.1)) {i : Nat} {bytes : List UInt8}
    {more : List (List UInt8)} {paths : List String} (hi : (t.packetData ++ more)[i]? = some bytes)
    (hc : env.content filename = some bytes) :
    Held env (before ++ [(id, filename)]) ⟨mapAssign id i t.identityMap, paths, t.packetData ++ more⟩ := by
  intro e he
  rcases List.mem_append.mp he with he | he
  · obtain ⟨j, bytes', hj, hd', hc'⟩ := h e he
    have hne : e.1 ≠ id := fun h => hid (List.mem_map.mpr ⟨e, he, h⟩)
    obtain ⟨hlt, -⟩ := List.getElem?_eq_some_iff.mp hd'
    exact ⟨j, bytes', by rw [lookup_mapAssign, if_neg hne, hj], by rw [List.getElem?_append_left hlt, hd'], hc'⟩
  · rw [List.mem_singleton.mp he]
    exact ⟨i, bytes, by rw [lookup_mapAssign, if_pos rfl], hi, hc⟩

theorem load_named (hs : Seen env before t) (hd : Held env before t) (hr : AllReadable env rest)
    (hn : ((before ++ rest).map (·.1)).Nodup) (ha : AliasesNamed env (before ++ rest)) :
    ∃ table, loadPackets env rest t = .ok table ∧ Held env (before ++ rest) table := by
  induction rest generalizing before t with
  | nil => exact ⟨t, rfl, by rwa [List.append_nil]⟩
  | cons e rest ih =>
    obtain ⟨id, filename⟩ := e
    obtain ⟨path, bytes, he⟩ := hr _ (List.mem_cons_self ..)
    have hid : id ∉ before.map (·.1) := by
      rw [List.map_append, List.map_cons] at hn
      exact fun hm => (List.nodup_append.mp hn).2.2 _ hm _ (List.mem_cons_self ..) rfl
    have hnext : ∀ t₁, loadEntry env (id, filename) t = .ok t₁ → Held env (before ++ [(id, filename)]) t₁ →
        ∃ table, loadPackets env ((id, filename) :: rest) t = .ok table ∧
          Held env (before ++ (id, filename) :: rest) table := by
      intro t₁ h₁ hd₁
      obtain ⟨table, hl, hheld⟩ := ih (hs.entry he h₁) hd₁ (fun e' he' => hr e' (List.mem_cons_of_mem _ he'))
        (by simpa using hn) (by simpa using ha)
      refine ⟨table, ?_, by simpa using hheld⟩
      rw [loadPackets_cons, h₁]
      exact hl
    by_cases hp : path ∈ t.allPackets
    · obtain ⟨e, hm, hpath⟩ := (hs.paths path).mp hp
      obtain ⟨e', hm', hname, hcontent⟩ := ha before id filename rest rfl ⟨e, hm, path, hpath, he.resolves⟩
      obtain ⟨i, bytes', hi, hdata, hc⟩ := hd e' hm'
      have hheld : Held env (before ++ [(id, filename)])
          ⟨mapAssign id i t.identityMap, t.allPackets, t.packetData ++ []⟩ :=
        hd.assign hid (by rwa [List.append_nil]) (hcontent.symm.trans hc)
      rw [List.append_nil] at hheld
      exact hnext _ (loadEntry_seen he hp (hname ▸ hi)) hheld
    · refine hnext _ (loadEntry_new he hp) (hd.assign hid ?_ he.content)
      rw [List.getElem?_append_right (Nat.le_refl _), Nat.sub_self]
      rfl

end

/-- The packets are loaded and every SEND gets its own file, whatever the order of
the map, if and only if what the lookups of file names find is right. -/
theorem loadPackets_iff {env : Env} {packets : List (String × String)} (hn : (packets.map (·.1)).Nodup)
    (hr : AllReadable env packets) :
    (∃ table, loadPackets env packets {} = .ok table ∧ ∀ e ∈ packets, Serves env table e) ↔ AliasesNamed env packets := by
  constructor
  · rintro ⟨table, hl, hserves⟩ before id filename after rfl ⟨e, he, path, hpath, hpath'⟩
    rw [loadPackets_append] at hl
    obtain ⟨t, ht, hl⟩ := bind_eq_ok hl
    rw [loadPackets_cons] at hl
    obtain ⟨t', ht', hl⟩ := bind_eq_ok hl
    have hrb : AllReadable env before := fun e he => hr e (List.mem_append_left _ he)
    have hra : AllReadable env after := fun e he => hr e (List.mem_append_right _ (List.mem_cons_of_mem _ he))
    have hempty : Seen env [] {} := ⟨fun path => by simp, fun name => by simp⟩
    have hs : Seen env before t := by simpa using seen_load hrb hempty ht
    obtain ⟨path', bytes, hread⟩ := hr (id, filename) (List.mem_append_right _ (List.mem_cons_self ..))
    have hsame : path' = path := Except.ok.inj (hread.resolves.symm.trans hpath')
    subst hsame
    have hp : path' ∈ t.allPackets := (hs.paths path').mpr ⟨e, he, hpath⟩
    obtain ⟨index, hi⟩ := loadEntry_found hread hp ht'
    rw [loadEntry_seen hread hp hi] at ht'
    cases ht'
    have hkey : filename ∈ before.map (·.1) := (hs.keys filename).mp (by rw [hi]; rfl)
    obtain ⟨e', he', hname⟩ := List.mem_map.mp hkey
    -- Neither the identifier nor the file's name is an identifier that comes later.
    rw [List.map_append, List.map_cons] at hn
    obtain ⟨-, hn', hdisjoint⟩ := List.nodup_append.mp hn
    rw [List.nodup_cons] at hn'
    have hlater : filename ∉ after.map (·.1) := fun hm => hdisjoint _ hkey _ (List.mem_cons_of_mem _ hm) rfl
    have hid := lookup_load hra hl hn'.1
    have hfile := lookup_load hra hl hlater
    rw [lookup_mapAssign, if_pos rfl] at hid
    have hne : filename ≠ id := fun h => hdisjoint _ hkey _ (List.mem_cons_self ..) h
    rw [lookup_mapAssign, if_neg hne, hi] at hfile
    obtain ⟨i, bytes₁, hi₁, hd₁, hc₁⟩ := serves_iff.mp (hserves _ (List.mem_append_right _ (List.mem_cons_self ..)))
    obtain ⟨j, bytes₂, hi₂, hd₂, hc₂⟩ := serves_iff.mp (hserves e' (List.mem_append_left _ he'))
    refine ⟨e', he', hname, ?_⟩
    rw [hid] at hi₁
    rw [hname, hfile] at hi₂
    cases hi₁
    cases hi₂
    rw [hc₂, hc₁, ← hd₁, ← hd₂]
  · intro ha
    obtain ⟨table, hl, hheld⟩ := @load_named env [] packets {} ⟨fun path => by simp, fun name => by simp⟩
      (fun e he => by cases he) hr hn ha
    refine ⟨table, hl, fun e he => serves_iff.mpr ?_⟩
    obtain ⟨i, bytes, hi, hd, hc⟩ := hheld e he
    exact ⟨i, bytes, hi, by rw [List.getD_eq_getElem?_getD, hd]; rfl, hc⟩

/-- An identifier with the name of its own file stands for it from then on. -/
theorem loadPackets_iff_named :
    ∃ table, loadPackets (Env.ofFiles [("data", [1])]) [("data", "data"), ("copy", "data")] {} = .ok table ∧
      ∀ e ∈ [("data", "data"), ("copy", "data")], Serves (Env.ofFiles [("data", [1])]) table e := by
  refine (loadPackets_iff (by decide) ?_).mpr ?_
  · intro e he
    have hfile : e.2 = "data" := by
      revert e
      decide
    refine ⟨"data", [1], ?_⟩
    rw [hfile]
    exact ⟨rfl, by decide, rfl, rfl⟩
  · rintro before id filename after hp ⟨e, he, -⟩
    have hm : (id, filename) ∈ [("data", "data"), ("copy", "data")] := by
      rw [hp]
      exact List.mem_append_right _ (List.mem_cons_self ..)
    have hfile : filename = "data" := by
      rcases List.mem_cons.mp hm with h | h
      · cases h
        rfl
      · cases List.mem_singleton.mp h
        rfl
    cases before with
    | nil => cases he
    | cons e₀ before =>
      obtain ⟨rfl, -⟩ := List.cons.inj hp
      exact ⟨_, List.mem_cons_self .., hfile.symm, by rw [hfile]⟩

/-- Two identifiers for one file are refused. -/
theorem twice_refused : ([("a", "f"), ("b", "f")].map (·.1)).Nodup ∧
    AllReadable (Env.ofFiles [("f", [1])]) [("a", "f"), ("b", "f")] ∧
    ¬ ∃ table, loadPackets (Env.ofFiles [("f", [1])]) [("a", "f"), ("b", "f")] {} = .ok table := by
  refine ⟨by decide, ?_, ?_⟩
  · intro e he
    have hfile : e.2 = "f" := by
      revert e
      decide
    refine ⟨"f", [1], ?_⟩
    rw [hfile]
    exact ⟨rfl, by decide, rfl, rfl⟩
  · intro ⟨table, ht⟩
    cases ht

end Loadshear
