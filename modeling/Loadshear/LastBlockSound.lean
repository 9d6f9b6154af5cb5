import Loadshear.GrammarSound
import Loadshear.PlanSound

/-!
# Several blocks of one kind

Every block is read into the same two structures, so an earlier one is
overwritten only where the last one writes: its endpoints and actions are kept
throughout, and so are the packets and fields that the last one does not name
(`lastBlocks_iff`).
-/

namespace Loadshear

open Parsing Languages Grammar

/-! ## What a block writes -/

def Grammar.Setting.target : Setting → SettingsField
  | SESSION _ => .SESSION
  | PORT _ => .PORT
  | HEADERSIZE _ => .HEADERSIZE
  | BODYMAX _ => .BODYMAX
  | READ _ => .READ
  | REPEAT _ => .REPEAT
  | SAMPLERATE _ => .SAMPLERATE
  | SHARDS _ => .SHARDS
  | HANDLER _ => .HANDLER

namespace Grammar.Field

def targets : Field → List SettingsField
  | setting g => [g.target]
  | _ => []

def hosts : Field → List String
  | ENDPOINTS hosts => hosts
  | _ => []

def packets : Field → List String
  | PACKETS es => es.map Prod.fst
  | _ => []

end Grammar.Field

def Grammar.Settings.targets (b : Settings) : List SettingsField := b.fields.flatMap Field.targets

def Grammar.Settings.hosts (b : Settings) : List String := b.fields.flatMap Field.hosts

def Grammar.Settings.packets (b : Settings) : List String := b.fields.flatMap Field.packets

def IsAssigned (f : SettingsField) : Prop := f ≠ .ENDPOINTS ∧ f ≠ .PACKETS

section
variable {f : SettingsField} {s t u : SettingsBlock}

theorem same_refl (f : SettingsField) (s : SettingsBlock) : f.Same s s := by
  cases f <;> rfl

theorem same_symm (h : f.Same s t) : f.Same t s := by
  cases f <;> exact Eq.symm h

theorem same_trans (h : f.Same s t) (h' : f.Same t u) : f.Same s u := by
  cases f <;> exact Eq.trans h h'

theorem setting_set (g : Setting) (s t : SettingsBlock) : g.target.Same (g.apply s) (g.apply t) := by
  cases g <;> rfl

theorem setting_kept {g : Setting} (h : f ≠ g.target) (s : SettingsBlock) : f.Same (g.apply s) s := by
  cases g <;> cases f <;> first | rfl | exact absurd rfl h

theorem foldl_packets_kept (hf : f ≠ .PACKETS) : ∀ (es : List (String × String)) (s : SettingsBlock),
    f.Same (es.foldl addPacket s) s
  | [], s => same_refl f s
  | e :: es, s => by
    have h : f.Same (addPacket s e) s := by cases f <;> first | rfl | exact absurd rfl hf
    exact same_trans (foldl_packets_kept hf es (addPacket s e)) h

theorem foldl_endpoints_kept (hf : f ≠ .ENDPOINTS) (hosts : List String) (s : SettingsBlock) :
    f.Same (hosts.foldl addEndpoint s) s := by
  rw [foldl_addEndpoint]
  cases f <;> first | rfl | exact absurd rfl hf

theorem field_kept {g : Field} (hf : IsAssigned f) (h : f ∉ g.targets) (s : SettingsBlock) : f.Same (g.apply s) s := by
  cases g with
  | setting g => exact setting_kept (by simpa [Field.targets] using h) s
  | PACKETS es => exact foldl_packets_kept hf.2 es s
  | ENDPOINTS hosts => exact foldl_endpoints_kept hf.1 hosts s

theorem field_set {g : Field} (h : f ∈ g.targets) (s t : SettingsBlock) : f.Same (g.apply s) (g.apply t) := by
  cases g with
  | setting g =>
    rw [Field.targets, List.mem_singleton] at h
    exact h ▸ setting_set g s t
  | PACKETS es => cases h
  | ENDPOINTS hosts => cases h

theorem fields_kept (hf : IsAssigned f) : ∀ {gs : List Field}, f ∉ gs.flatMap Field.targets → ∀ s : SettingsBlock,
    f.Same (gs.foldl Field.apply s) s
  | [], _, s => same_refl f s
  | g :: gs, h, s => by
    rw [List.flatMap_cons, List.mem_append, not_or] at h
    exact same_trans (fields_kept hf h.2 (g.apply s)) (field_kept hf h.1 s)

theorem fields_set (hf : IsAssigned f) : ∀ {gs : List Field} {s t : SettingsBlock},
    f ∈ gs.flatMap Field.targets ∨ f.Same s t → f.Same (gs.foldl Field.apply s) (gs.foldl Field.apply t)
  | [], _, _, h => h.resolve_left (by simp)
  | g :: gs, s, t, h => by
    rw [List.foldl_cons, List.foldl_cons]
    apply fields_set hf
    rw [List.flatMap_cons, List.mem_append, or_assoc] at h
    rcases h with h | h | h
    · exact Or.inr (field_set h s t)
    · exact Or.inl h
    · by_cases hg : f ∈ g.targets
      · exact Or.inr (field_set hg s t)
      · exact Or.inr (same_trans (field_kept hf hg s) (same_trans h (same_symm (field_kept hf hg t))))

/-! ## Lists -/

def SettingsBlock.packet (s : SettingsBlock) (name : String) : Option String := s.packetIdentifiers.lookup name

theorem packet_addPacket (s : SettingsBlock) (e : String × String) (name : String) :
    (addPacket s e).packet name = if name = e.1 then some e.2 else s.packet name :=
  lookup_mapAssign e.1 name e.2 s.packetIdentifiers

theorem addPackets_kept {name : String} : ∀ {es : List (String × String)}, name ∉ es.map Prod.fst →
    ∀ s : SettingsBlock, (es.foldl addPacket s).packet name = s.packet name
  | [], _, _ => rfl
  | e :: es, h, s => by
    rw [List.map_cons, List.mem_cons, not_or] at h
    rw [List.foldl_cons, addPackets_kept h.2, packet_addPacket, if_neg h.1]

theorem addPackets_set {name : String} : ∀ {es : List (String × String)} {s t : SettingsBlock},
    name ∈ es.map Prod.fst ∨ s.packet name = t.packet name →
    (es.foldl addPacket s).packet name = (es.foldl addPacket t).packet name
  | [], _, _, h => h.resolve_left (by simp)
  | e :: es, s, t, h => by
    rw [List.foldl_cons, List.foldl_cons]
    apply addPackets_set
    by_cases hn : name = e.1
    · right
      rw [packet_addPacket, packet_addPacket, if_pos hn, if_pos hn]
    · rw [packet_addPacket, packet_addPacket, if_neg hn, if_neg hn]
      rw [List.map_cons, List.mem_cons, or_assoc] at h
      exact h.resolve_left hn

theorem setting_lists (g : Setting) (s : SettingsBlock) : (g.apply s).identifier = s.identifier ∧
    (g.apply s).endpoints = s.endpoints ∧ (g.apply s).packetIdentifiers = s.packetIdentifiers := by
  cases g <;> exact ⟨rfl, rfl, rfl⟩

theorem addPackets_lists : ∀ (es : List (String × String)) (s : SettingsBlock),
    (es.foldl addPacket s).identifier = s.identifier ∧ (es.foldl addPacket s).endpoints = s.endpoints
  | [], _ => ⟨rfl, rfl⟩
  | e :: es, s => addPackets_lists es (addPacket s e)

theorem field_lists (g : Field) (s : SettingsBlock) :
    (g.apply s).identifier = s.identifier ∧ (g.apply s).endpoints = s.endpoints ++ g.hosts := by
  cases g with
  | setting g =>
    obtain ⟨hid, hend, -⟩ := setting_lists g s
    exact ⟨hid, hend.trans (List.append_nil _).symm⟩
  | PACKETS es =>
    obtain ⟨hid, hend⟩ := addPackets_lists es s
    exact ⟨hid, hend.trans (List.append_nil _).symm⟩
  | ENDPOINTS hosts =>
    rw [Field.apply, foldl_addEndpoint]
    exact ⟨rfl, rfl⟩

theorem fields_lists : ∀ (gs : List Field) (s : SettingsBlock), (gs.foldl Field.apply s).identifier = s.identifier ∧
    (gs.foldl Field.apply s).endpoints = s.endpoints ++ gs.flatMap Field.hosts
  | [], s => ⟨rfl, (List.append_nil _).symm⟩
  | g :: gs, s => by
    obtain ⟨hid, hend⟩ := fields_lists gs (g.apply s)
    rw [(field_lists g s).1] at hid
    rw [(field_lists g s).2, List.append_assoc, ← List.flatMap_cons] at hend
    exact ⟨hid, hend⟩

theorem field_packet_kept {g : Field} {name : String} (h : name ∉ g.packets) (s : SettingsBlock) :
    (g.apply s).packet name = s.packet name := by
  cases g with
  | setting g => exact congrArg (·.lookup name) (setting_lists g s).2.2
  | PACKETS es => exact addPackets_kept h s
  | ENDPOINTS hosts =>
    rw [Field.apply, foldl_addEndpoint]
    rfl

theorem field_packet_set (g : Field) {s t : SettingsBlock} {name : String}
    (h : name ∈ g.packets ∨ s.packet name = t.packet name) : (g.apply s).packet name = (g.apply t).packet name := by
  by_cases hg : name ∈ g.packets
  · cases g with
    | PACKETS es => exact addPackets_set (Or.inl hg)
    | setting g => cases hg
    | ENDPOINTS hosts => cases hg
  · rw [field_packet_kept hg, field_packet_kept hg]
    exact h.resolve_left hg

theorem fields_packet_kept {name : String} : ∀ {gs : List Field}, name ∉ gs.flatMap Field.packets → ∀ s : SettingsBlock,
    (gs.foldl Field.apply s).packet name = s.packet name
  | [], _, _ => rfl
  | g :: gs, h, s => by
    rw [List.flatMap_cons, List.mem_append, not_or] at h
    rw [List.foldl_cons, fields_packet_kept h.2, field_packet_kept h.1]

theorem fields_packet_set {name : String} : ∀ {gs : List Field} {s t : SettingsBlock},
    name ∈ gs.flatMap Field.packets ∨ s.packet name = t.packet name →
    (gs.foldl Field.apply s).packet name = (gs.foldl Field.apply t).packet name
  | [], _, _, h => h.resolve_left (by simp)
  | g :: gs, s, t, h => by
    rw [List.foldl_cons, List.foldl_cons]
    apply fields_packet_set
    rw [List.flatMap_cons, List.mem_append, or_assoc] at h
    rcases h with h | h | h
    · exact Or.inr (field_packet_set g (Or.inl h))
    · exact Or.inl h
    · exact Or.inr (field_packet_set g (Or.inr h))

end

/-! ## The last block of each kind -/

def settingsOf (blocks : List Block) : List Settings :=
  blocks.filterMap fun
    | .settings s => some s
    | .orchestrator _ => none

def orchestratorsOf (blocks : List Block) : List Grammar.Orchestrator :=
  blocks.filterMap fun
    | .settings _ => none
    | .orchestrator o => some o

def lastBlocks (blocks : List Block) : List Block :=
  (settingsOf blocks).getLast?.toList.map .settings ++ (orchestratorsOf blocks).getLast?.toList.map .orchestrator

/-- Two scripts that hold the same data; packets are compared as a map. -/
structure SameData (d d' : DSLData) : Prop where
  identifier : d.settings.identifier = d'.settings.identifier
  assigned : ∀ f, IsAssigned f → f.Same d.settings d'.settings
  endpoints : d.settings.endpoints = d'.settings.endpoints
  packets : ∀ name, d.settings.packet name = d'.settings.packet name
  orchestrator : SameOrchestrator d.orchestrator d'.orchestrator

def settingsBefore (memory : Memory) (blocks : List Block) : SettingsBlock :=
  (settingsOf blocks).dropLast.foldl Settings.apply memory.toScript.settings

/-- Nothing is left of the earlier blocks where the last ones do not write. -/
structure Overwritten (memory : Memory) (blocks : List Block) : Prop where
  assigned : ∀ f, IsAssigned f → (∀ s ∈ (settingsOf blocks).getLast?, f ∉ s.targets) →
    f.Same (settingsBefore memory blocks) memory.toScript.settings
  endpoints : ∀ s ∈ (settingsOf blocks).dropLast, s.hosts = []
  packets : ∀ s ∈ (settingsOf blocks).dropLast, ∀ name ∈ s.packets, ∀ s' ∈ (settingsOf blocks).getLast?, name ∈ s'.packets
  actions : ∀ o ∈ (orchestratorsOf blocks).dropLast, o.acts = []

theorem means_settings {memory : Memory} : ∀ {blocks : List Block} {d d' : DSLData},
    Folds (Block.Makes memory) d blocks d' → d'.settings = (settingsOf blocks).foldl Settings.apply d.settings
  | [], _, _, h => by
    cases h
    rfl
  | .settings s :: blocks, d, d', ⟨_, hs, h⟩ => by
    cases hs
    have ih := means_settings h
    exact ih
  | .orchestrator o :: blocks, d, d', ⟨_, ⟨as, _, ho⟩, h⟩ => by
    cases ho
    have ih := means_settings h
    exact ih

theorem means_orchestrator {memory : Memory} : ∀ {blocks : List Block} {d d' : DSLData},
    Folds (Block.Makes memory) d blocks d' →
      d'.orchestrator.settingsIdentifier =
        ((orchestratorsOf blocks).getLast?.map (·.settings)).getD d.orchestrator.settingsIdentifier ∧
      ∃ as, List.Forall₂ (Act.Makes memory) ((orchestratorsOf blocks).flatMap (·.acts)) as ∧
        d'.orchestrator.actions = d.orchestrator.actions ++ as
  | [], _, _, h => by
    cases h
    exact ⟨rfl, [], .nil, (List.append_nil _).symm⟩
  | .settings s :: blocks, d, d', ⟨_, hs, h⟩ => by
    cases hs
    have ih := means_orchestrator h
    exact ih
  | .orchestrator o :: blocks, d, d', ⟨_, ⟨as, has, ho⟩, h⟩ => by
    cases ho
    obtain ⟨hid, bs, hbs, hact⟩ := means_orchestrator h
    refine ⟨?_, as ++ bs, List.rel_append has hbs, by rw [hact, List.append_assoc]⟩
    rw [hid]
    change _ = (((o :: orchestratorsOf blocks).getLast?.map (·.settings)).getD _)
    rw [List.getLast?_cons]
    cases (orchestratorsOf blocks).getLast? <;> rfl

theorem same_of_makes {memory : Memory} {s : Act} {a a' : Action} (h : s.Makes memory a) (h' : s.Makes memory a') :
    SameAction a a' := by
  obtain ⟨p, rfl⟩ := h
  obtain ⟨q, rfl⟩ := h'
  obtain ⟨body, offset⟩ := s
  cases body with
  | CREATE count => exact ⟨⟨rfl, rfl, rfl, rfl, fun _ => rfl, fun _ => rfl⟩, rfl⟩
  | SEND r packet copies mods => exact ⟨⟨rfl, rfl, rfl, rfl, fun _ => rfl, fun h => (by cases h)⟩, rfl⟩
  | CONNECT r => exact ⟨⟨rfl, rfl, rfl, rfl, fun h => (by rcases h with h | h <;> cases h), fun h => (by cases h)⟩, rfl⟩
  | FLOOD r => exact ⟨⟨rfl, rfl, rfl, rfl, fun h => (by rcases h with h | h <;> cases h), fun h => (by cases h)⟩, rfl⟩
  | DRAIN r => exact ⟨⟨rfl, rfl, rfl, rfl, fun h => (by rcases h with h | h <;> cases h), fun h => (by cases h)⟩, rfl⟩
  | DISCONNECT r => exact ⟨⟨rfl, rfl, rfl, rfl, fun h => (by rcases h with h | h <;> cases h), fun h => (by cases h)⟩, rfl⟩

theorem sameActions {memory : Memory} : ∀ {ss : List Act} {as as' : List Action}, List.Forall₂ (Act.Makes memory) ss as →
    List.Forall₂ (Act.Makes memory) ss as' → List.Forall₂ SameAction as as'
  | [], _, _, .nil, .nil => .nil
  | _ :: _, _, _, .cons h hs, .cons h' hs' => .cons (same_of_makes h h') (sameActions hs hs')

theorem settingsOf_lastBlocks (blocks : List Block) :
    settingsOf (lastBlocks blocks) = (settingsOf blocks).getLast?.toList := by
  unfold lastBlocks
  cases (settingsOf blocks).getLast? <;> cases (orchestratorsOf blocks).getLast? <;> rfl

theorem orchestratorsOf_lastBlocks (blocks : List Block) :
    orchestratorsOf (lastBlocks blocks) = (orchestratorsOf blocks).getLast?.toList := by
  unfold lastBlocks
  cases (settingsOf blocks).getLast? <;> cases (orchestratorsOf blocks).getLast? <;> rfl

/-! ## When the last ones are all there is -/

theorem foldl_or {α β : Type} {f : α → β → α} {P : α → Prop} {Q : β → Prop} (h : ∀ a b, P (f a b) ↔ P a ∨ Q b) :
    ∀ (l : List β) (a : α), P (l.foldl f a) ↔ P a ∨ ∃ b ∈ l, Q b
  | [], a => by simp
  | b :: l, a => by
    rw [List.foldl_cons, foldl_or h l (f a b), h]
    simp [or_assoc]

section
variable {f : SettingsField} {s t : SettingsBlock} {name : String}

theorem field_has (g : Field) (s : SettingsBlock) :
    (g.apply s).packet name ≠ none ↔ s.packet name ≠ none ∨ name ∈ g.packets := by
  by_cases hg : name ∈ g.packets
  · cases g with
    | PACKETS es =>
      have hadd : ∀ s e, (addPacket s e).packet name ≠ none ↔ s.packet name ≠ none ∨ name = e.1 := by
        intro s e
        rw [packet_addPacket]
        by_cases hn : name = e.1 <;> simp [hn]
      have h := (foldl_or (P := fun s => s.packet name ≠ none) (Q := fun e => name = e.1) hadd es s).mpr
      obtain ⟨e, he, hn⟩ := List.mem_map.mp hg
      exact ⟨fun _ => Or.inr hg, fun _ => h (Or.inr ⟨e, he, hn.symm⟩)⟩
    | setting g => cases hg
    | ENDPOINTS hosts => cases hg
  · rw [field_packet_kept hg]
    exact ⟨Or.inl, fun h => h.resolve_right hg⟩

theorem settings_has (b : Settings) (s : SettingsBlock) :
    (b.apply s).packet name ≠ none ↔ s.packet name ≠ none ∨ name ∈ b.packets := by
  rw [Settings.packets, List.mem_flatMap]
  exact foldl_or (P := fun s => s.packet name ≠ none) (fun s g => field_has g s) b.fields _

theorem settings_endpoints (b : Settings) (s : SettingsBlock) : (b.apply s).endpoints = s.endpoints ++ b.hosts :=
  (fields_lists b.fields _).2

theorem settings_identifier (b : Settings) (s : SettingsBlock) : (b.apply s).identifier = b.name :=
  (fields_lists b.fields _).1

theorem foldl_endpoints : ∀ (bs : List Settings) (s : SettingsBlock),
    (bs.foldl Settings.apply s).endpoints = s.endpoints ++ bs.flatMap Settings.hosts
  | [], s => (List.append_nil _).symm
  | b :: bs, s => by
    rw [List.foldl_cons, foldl_endpoints bs (b.apply s), settings_endpoints, List.append_assoc, List.flatMap_cons]

theorem named_same (f : SettingsField) (s : SettingsBlock) (name : String) : f.Same { s with identifier := name } s := by
  cases f <;> rfl

theorem settings_kept {b : Settings} (hf : IsAssigned f) (h : f ∉ b.targets) (s : SettingsBlock) : f.Same (b.apply s) s :=
  same_trans (fields_kept hf h _) (named_same f s b.name)

theorem sameSettings_iff (b : Settings) : ((b.apply s).identifier = (b.apply t).identifier ∧
    (∀ f, IsAssigned f → f.Same (b.apply s) (b.apply t)) ∧ (b.apply s).endpoints = (b.apply t).endpoints ∧
    ∀ name, (b.apply s).packet name = (b.apply t).packet name) ↔
      (∀ f, IsAssigned f → f ∉ b.targets → f.Same s t) ∧ s.endpoints = t.endpoints ∧
        ∀ name, name ∉ b.packets → s.packet name = t.packet name := by
  have hpacket : ∀ name, name ∉ b.packets → ∀ s : SettingsBlock, (b.apply s).packet name = s.packet name :=
    fun name hn s => fields_packet_kept hn _
  constructor
  · rintro ⟨-, hf, he, hp⟩
    refine ⟨fun f hfa hn => ?_, ?_, fun name hn => ?_⟩
    · exact same_trans (same_symm (settings_kept hfa hn s)) (same_trans (hf f hfa) (settings_kept hfa hn t))
    · rw [settings_endpoints, settings_endpoints] at he
      exact List.append_cancel_right he
    · rw [← hpacket name hn s, hp, hpacket name hn t]
  · rintro ⟨hf, he, hp⟩
    refine ⟨?_, fun f hfa => ?_, ?_, fun name => ?_⟩
    · rw [settings_identifier, settings_identifier]
    · apply fields_set hfa
      by_cases hn : f ∈ b.targets
      · exact Or.inl hn
      · exact Or.inr (same_trans (named_same f s b.name) (same_trans (hf f hfa hn) (same_symm (named_same f t b.name))))
    · rw [settings_endpoints, settings_endpoints, he]
    · by_cases hn : name ∈ b.packets
      · exact fields_packet_set (Or.inl hn)
      · rw [hpacket name hn s, hp name hn, hpacket name hn t]

end

section
variable {memory : Memory} {blocks : List Block} {d d' : DSLData}

/-- The settings that all blocks make, and those of the last one alone. -/
theorem settings_alone_iff (hd : d.settings = (settingsOf blocks).foldl Settings.apply memory.toScript.settings)
    (hd' : d'.settings = (settingsOf blocks).getLast?.toList.foldl Settings.apply memory.toScript.settings) :
    (d.settings.identifier = d'.settings.identifier ∧ (∀ f, IsAssigned f → f.Same d.settings d'.settings) ∧
      d.settings.endpoints = d'.settings.endpoints ∧ ∀ name, d.settings.packet name = d'.settings.packet name) ↔
    (∀ f, IsAssigned f → (∀ s ∈ (settingsOf blocks).getLast?, f ∉ s.targets) →
      f.Same (settingsBefore memory blocks) memory.toScript.settings) ∧
    (∀ s ∈ (settingsOf blocks).dropLast, s.hosts = []) ∧
    ∀ s ∈ (settingsOf blocks).dropLast, ∀ name ∈ s.packets, ∀ s' ∈ (settingsOf blocks).getLast?, name ∈ s'.packets := by
  unfold settingsBefore
  cases hlast : (settingsOf blocks).getLast? with
  | none =>
    have hnil : settingsOf blocks = [] := List.getLast?_eq_none_iff.mp hlast
    rw [hlast] at hd'
    rw [hd, hd', hnil]
    simp [same_refl]
  | some b =>
    have hsplit : (settingsOf blocks).dropLast ++ [b] = settingsOf blocks := List.dropLast_append_getLast? b hlast
    rw [hlast] at hd'
    rw [← hsplit, List.foldl_append] at hd
    rw [hd, hd']
    apply (sameSettings_iff b).trans
    have hinit : memory.toScript.settings.endpoints = [] := rfl
    have hnone : ∀ name, memory.toScript.settings.packet name = none := fun _ => rfl
    apply and_congr
    · simp
    · apply and_congr
      · rw [foldl_endpoints, hinit, List.nil_append, List.flatMap_eq_nil_iff]
      · have hhas : ∀ name, ((settingsOf blocks).dropLast.foldl Settings.apply memory.toScript.settings).packet name ≠
            none ↔ ∃ s ∈ (settingsOf blocks).dropLast, name ∈ s.packets := fun name => by
          rw [foldl_or (P := fun s => SettingsBlock.packet s name ≠ none) (fun s b => settings_has b s)]
          simp [hnone]
        constructor
        · intro hp s hs name hn s' hs'
          cases hs'
          by_contra hb
          exact (hhas name).mpr ⟨s, hs, hn⟩ ((hp name hb).trans (hnone name))
        · intro hp name hb
          by_contra hne
          obtain ⟨s, hs, hn⟩ := (hhas name).mp (fun he => hne (he.trans (hnone name).symm))
          exact hb (hp s hs name hn b rfl)

theorem actions_alone_iff {as as' : List Action}
    (h : List.Forall₂ (Act.Makes memory) ((orchestratorsOf blocks).flatMap (·.acts)) as)
    (h' : List.Forall₂ (Act.Makes memory) ((orchestratorsOf blocks).getLast?.toList.flatMap (·.acts)) as') :
    List.Forall₂ SameAction as as' ↔ ∀ o ∈ (orchestratorsOf blocks).dropLast, o.acts = [] := by
  cases hlast : (orchestratorsOf blocks).getLast? with
  | none =>
    have hnil : orchestratorsOf blocks = [] := List.getLast?_eq_none_iff.mp hlast
    rw [hnil] at h h' ⊢
    cases h
    cases h'
    simp
  | some o =>
    have hsplit : (orchestratorsOf blocks).dropLast ++ [o] = orchestratorsOf blocks :=
      List.dropLast_append_getLast? o hlast
    rw [hlast] at h'
    rw [← hsplit, List.flatMap_append] at h
    constructor
    · intro hs
      have hlen := (h.length_eq.trans hs.length_eq).trans h'.length_eq.symm
      rw [List.length_append] at hlen
      have hzero : (orchestratorsOf blocks).dropLast.flatMap (·.acts) = [] := by
        apply List.eq_nil_of_length_eq_zero
        have hsame : ([o].flatMap (·.acts)).length = ((some o).toList.flatMap (·.acts)).length := rfl
        omega
      exact List.flatMap_eq_nil_iff.mp hzero
    · intro hnil
      rw [List.flatMap_eq_nil_iff.mpr hnil, List.nil_append] at h
      exact sameActions h h'

end

/-- The script holds the data of the last blocks alone when nothing of the earlier
ones is left. -/
theorem lastBlocks_iff (memory : Memory) {blocks : List Block} {toks toks' : List Token}
    (h : toks ∈ sequence (Block.tokens fun _ => True) blocks)
    (h' : toks' ∈ sequence (Block.tokens fun _ => True) (lastBlocks blocks)) :
    ((∃ e, parse memory toks = .error e) ∨
      ∃ d d', parse memory toks = .ok d ∧ parse memory toks' = .ok d' ∧ SameData d d') ↔ Overwritten memory blocks := by
  obtain ⟨d, hd, hm⟩ := parse_complete memory h
  obtain ⟨d', hd', hm'⟩ := parse_complete memory h'
  have hs := means_settings hm
  have hs' := means_settings hm'
  rw [settingsOf_lastBlocks] at hs'
  obtain ⟨hid, as, has, hact⟩ := means_orchestrator hm
  obtain ⟨hid', as', has', hact'⟩ := means_orchestrator hm'
  rw [orchestratorsOf_lastBlocks] at hid' has'
  have hnil : memory.toScript.orchestrator.actions = [] := rfl
  rw [hnil, List.nil_append] at hact hact'
  have hsettings := settings_alone_iff hs hs'
  have hactions := actions_alone_iff has has'
  constructor
  · rintro (⟨e, he⟩ | ⟨a, b, ha, hb, hsame⟩)
    · rw [hd] at he
      cases he
    · rw [hd] at ha
      rw [hd'] at hb
      cases ha
      cases hb
      have hacts := hsame.orchestrator.actions
      rw [hact, hact'] at hacts
      obtain ⟨hassigned, hend, hpackets⟩ := hsettings.mp ⟨hsame.identifier, hsame.assigned, hsame.endpoints, hsame.packets⟩
      exact ⟨hassigned, hend, hpackets, hactions.mp hacts⟩
  · intro ho
    obtain ⟨hident, hassigned, hend, hpackets⟩ := hsettings.mpr ⟨ho.assigned, ho.endpoints, ho.packets⟩
    refine Or.inr ⟨d, d', hd, hd', hident, hassigned, hend, hpackets, ?_, ?_⟩
    · rw [hid, hid']
      cases (orchestratorsOf blocks).getLast? <;> rfl
    · rw [hact, hact']
      exact hactions.mpr ho.actions

def emptyTokens (name : String) : List Token :=
  [⟨.Keyword, "SETTINGS", 1, 1⟩, ⟨.Identity, name, 1, 10⟩, ⟨.BraceOpen, "\x7b", 1, 12⟩, ⟨.BraceClosed, "\x7d", 1, 13⟩]

theorem emptyTokens_mem (name : String) : emptyTokens name ∈ Block.tokens (fun _ => True) (.settings ⟨name, []⟩) := by
  refine mem_one_mul.mpr ⟨_, _, rfl, ⟨trivial, rfl⟩, mem_one_mul.mpr ⟨_, _, rfl, ⟨rfl, rfl⟩, mem_one_mul.mpr ⟨_, _, rfl, rfl, ?_⟩⟩⟩
  exact mem_mul_iff.mpr ⟨[], _, rfl, Language.nil_mem_one, _, rfl, rfl⟩

theorem emptyBlocks_alone :
    ((∃ e, parse .zero (emptyTokens "a" ++ emptyTokens "b") = .error e) ∨
      ∃ d d', parse .zero (emptyTokens "a" ++ emptyTokens "b") = .ok d ∧ parse .zero (emptyTokens "b") = .ok d' ∧
        SameData d d') ↔ Overwritten .zero [.settings ⟨"a", []⟩, .settings ⟨"b", []⟩] := by
  have hlast : emptyTokens "b" ∈ sequence (Block.tokens fun _ => True) [.settings ⟨"b", []⟩] :=
    mem_mul_iff.mpr ⟨_, [], (List.append_nil _).symm, emptyTokens_mem "b", Language.nil_mem_one⟩
  exact lastBlocks_iff .zero (mem_mul_iff.mpr ⟨_, _, rfl, emptyTokens_mem "a", hlast⟩) hlast

def earlierText : List Char := "SETTINGS a \x7b ENDPOINTS \x7b \"old\" \x7d \x7d".toList

def laterText : List Char := "SETTINGS b \x7b ENDPOINTS \x7b \"new\" \x7d \x7d".toList

def hostTokens (name host : String) : List Token :=
  [⟨.Keyword, "SETTINGS", 1, 1⟩, ⟨.Identity, name, 1, 10⟩, ⟨.BraceOpen, "\x7b", 1, 12⟩, ⟨.Keyword, "ENDPOINTS", 1, 14⟩,
    ⟨.BraceOpen, "\x7b", 1, 24⟩, ⟨.Value, host, 1, 26⟩, ⟨.BraceClosed, "\x7d", 1, 32⟩, ⟨.BraceClosed, "\x7d", 1, 34⟩]

def hostScript (name : String) (hosts : List String) : DSLData :=
  { Memory.zero.toScript with
    settings := { Memory.zero.toScript.settings with identifier := name, endpoints := hosts } }

/-- The host of the earlier block is still one of the endpoints. -/
theorem endpoint_survives : ∃ earlier later, tokenize earlierText = .ok earlier ∧ tokenize laterText = .ok later ∧
    (∃ d, parse .zero earlier = .ok d) ∧ (∃ d, parse .zero later = .ok d) ∧
    ¬ ((∃ e, parse .zero (earlier ++ later) = .error e) ∨
      ∃ d d', parse .zero (earlier ++ later) = .ok d ∧ parse .zero later = .ok d' ∧ SameData d d') := by
  have he : tokenize earlierText = .ok (hostTokens "a" "old") := by
    unfold earlierText
    decide +kernel
  have hl : tokenize laterText = .ok (hostTokens "b" "new") := by
    unfold laterText
    decide +kernel
  have hearlier : parse .zero (hostTokens "a" "old") = .ok (hostScript "a" ["old"]) := by decide +kernel
  have hlater : parse .zero (hostTokens "b" "new") = .ok (hostScript "b" ["new"]) := by decide +kernel
  have hboth : parse .zero (hostTokens "a" "old" ++ hostTokens "b" "new") = .ok (hostScript "b" ["old", "new"]) := by
    decide +kernel
  refine ⟨hostTokens "a" "old", hostTokens "b" "new", he, hl, ⟨_, hearlier⟩, ⟨_, hlater⟩, ?_⟩
  rw [hboth, hlater]
  rintro (⟨e, h⟩ | ⟨d, d', h, h', hs⟩)
  · cases h
  · cases h
    cases h'
    have hend : (["old", "new"] : List String) = ["new"] := hs.endpoints
    exact absurd hend (by decide)

end Loadshear
