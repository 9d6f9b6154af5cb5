import Loadshear.FieldSound
import Loadshear.MemorySound

/-!
# The parser and the grammar

The parser accepts what the grammar derives where `SETTINGS`, `ORCHESTRATOR` and
`OFFSET` are known by their text alone (`parse_iff`). By the documented grammar
they are keywords, so a quoted one is taken for what it is not.
-/

namespace Loadshear

open Parsing Languages Grammar

/-! ## Blocks -/

def Grammar.Settings.apply (s : SettingsBlock) (b : Settings) : SettingsBlock :=
  b.fields.foldl Field.apply { s with identifier := b.name }

def settingsBody (settings : SettingsBlock) : ParserM SettingsBlock := do
  expectType .Identity
  let name ← consume
  expectType .BraceOpen
  let _ ← consume
  let settings ← withFuel (parseFields · { settings with identifier := name.text })
  expectType .BraceClosed
  let _ ← consume
  return settings

def orchestratorBody (memory : Memory) (orchestrator : OrchestratorBlock) : ParserM OrchestratorBlock := do
  expectType .Identity
  let name ← consume
  expectType .BraceOpen
  let _ ← consume
  let orchestrator ← withFuel (parseActions memory · { orchestrator with settingsIdentifier := name.text })
  expectType .BraceClosed
  let _ ← consume
  return orchestrator

section
variable {n : Nat}

theorem parseSettings_eq (s : SettingsBlock) : parseSettings s = consume >>= fun _ => settingsBody s := by
  unfold parseSettings settingsBody
  apply bind_congr
  intro _
  apply expectType_congr
  intro toks pos t rest hd
  have hc := skips_consume toks pos t rest hd
  rw [bind_run (peek_of_drop hd), bind_run hc, bind_run hc]

theorem parses_settingsBody (s : SettingsBlock) : Parses n (settingsBody s)
    (fun (b : Settings) w _ => w ∈ Grammar.name b.name * (braceOpen * (sequence Field.tokens b.fields * braceClosed)))
    (fun b a => a = b.apply s) := by
  unfold settingsBody
  apply (parses_read fun name _ => parses_read fun _ _ => (Parses.fuel (fun fuel => parses_fields fuel
    { s with identifier := name.text }) n).bind fun fs a ha => parses_read fun _ _ =>
      Parses.pure (s := Settings.mk name.text fs) (V := fun b a => a = b.apply s) (folds_eq.mp ha)).congr
  intro b w rest
  constructor
  · rintro ⟨t, _, rfl, ht, o, _, rfl, ho, fs, u, _, rfl, hu, c, _, rfl, hc, rfl, rfl⟩
    exact mem_one_mul.mpr ⟨t, _, rfl, ⟨ht, rfl⟩, mem_one_mul.mpr ⟨o, _, rfl, ho,
      mem_mul_iff.mpr ⟨u, _, rfl, (many_iff.mp hu).1, c, rfl, hc⟩⟩⟩
  · intro h
    obtain ⟨t, _, rfl, ⟨ht, htext⟩, hbrace⟩ := mem_one_mul.mp h
    obtain ⟨o, _, rfl, ho, hfields⟩ := mem_one_mul.mp hbrace
    obtain ⟨u, _, rfl, hu, c, rfl, hc⟩ := mem_mul_iff.mp hfields
    refine ⟨t, _, rfl, ht, o, _, rfl, ho, b.fields, u, _, rfl, many_iff.mpr ⟨hu, leads_cons.mpr hc⟩, c, [], rfl, hc, ?_, rfl⟩
    rw [htext]

theorem parses_orchestratorBody (memory : Memory) (o : OrchestratorBlock) : Parses n (orchestratorBody memory o)
    (fun (b : Grammar.Orchestrator) w _ => w ∈ Grammar.name b.settings * (braceOpen * acts (fun _ => True) b.acts))
    (fun b a => ∃ as, List.Forall₂ (Act.Makes memory) b.acts as ∧
      a = { o with settingsIdentifier := b.settings, actions := o.actions ++ as }) := by
  unfold orchestratorBody
  apply (parses_read fun name _ => parses_read fun _ _ => (Parses.fuel (fun fuel => parses_actions memory fuel
    { o with settingsIdentifier := name.text }) n).bind fun ss a ha => parses_read fun _ _ =>
      Parses.pure (s := Grammar.Orchestrator.mk name.text ss) (V := fun b a => ∃ as, List.Forall₂ (Act.Makes memory) b.acts as ∧
        a = { o with settingsIdentifier := b.settings, actions := o.actions ++ as }) (folds_actions.mp ha)).congr
  intro b w rest
  constructor
  · rintro ⟨t, _, rfl, ht, x, _, rfl, hx, ss, u, _, rfl, hu, c, _, rfl, hc, rfl, rfl⟩
    exact mem_one_mul.mpr ⟨t, _, rfl, ⟨ht, rfl⟩, mem_one_mul.mpr ⟨x, _, rfl, hx, acts_sound hc hu⟩⟩
  · intro h
    obtain ⟨t, _, rfl, ⟨ht, htext⟩, hbrace⟩ := mem_one_mul.mp h
    obtain ⟨x, _, rfl, hx, hacts⟩ := mem_one_mul.mp hbrace
    obtain ⟨u, c, rfl, hc, hu⟩ := acts_complete hacts
    refine ⟨t, _, rfl, ht, x, _, rfl, hx, b.acts, u, _, rfl, hu rest, c, [], rfl, hc, ?_, rfl⟩
    rw [htext]

def blockPass (memory : Memory) (script : DSLData) : ParserM DSLData :=
  peek >>= fun t =>
    if t.text = "SETTINGS" then do
      let settings ← parseSettings script.settings
      return { script with settings := settings }
    else if t.text = "ORCHESTRATOR" then do
      let orchestrator ← parseOrchestrator memory script.orchestrator
      return { script with orchestrator := orchestrator }
    else throw (badTopLevelError t)

/-- What a block makes of the script. -/
def Grammar.Block.Makes (memory : Memory) (script : DSLData) : Block → DSLData → Prop
  | settings b, script' => script' = { script with settings := b.apply script.settings }
  | orchestrator b, script' => ∃ as, List.Forall₂ (Act.Makes memory) b.acts as ∧ script' = { script with
      orchestrator := { script.orchestrator with
        settingsIdentifier := b.settings, actions := script.orchestrator.actions ++ as } }

theorem parses_blockPass (memory : Memory) (script : DSLData) : Parses n (blockPass memory script)
    (fun b w _ => w ∈ Block.tokens (fun _ => True) b) (Block.Makes memory script) := by
  have horch : parseOrchestrator memory script.orchestrator =
      consume >>= fun _ => orchestratorBody memory script.orchestrator := rfl
  have hset : ∀ m, Parses m (settingsBody script.settings >>= fun settings => pure { script with settings := settings })
      (fun b w _ => ∃ s : Settings, b = .settings s ∧
        w ∈ Grammar.name s.name * (braceOpen * (sequence Field.tokens s.fields * braceClosed)))
      (Block.Makes memory script) := by
    intro m
    apply ((parses_settingsBody script.settings).bind fun s a ha =>
      Parses.pure (s := Block.settings s) (V := Block.Makes memory script) (by rw [ha]; rfl)).congr
    intro b w rest
    constructor
    · rintro ⟨s, u, _, rfl, hu, rfl, rfl⟩
      exact ⟨s, rfl, by rwa [List.append_nil]⟩
    · rintro ⟨s, rfl, h⟩
      exact ⟨s, w, [], (List.append_nil w).symm, h, rfl, rfl⟩
  have hor : ∀ m, Parses m (orchestratorBody memory script.orchestrator >>= fun orchestrator =>
        pure { script with orchestrator := orchestrator })
      (fun b w _ => ∃ o : Grammar.Orchestrator, b = .orchestrator o ∧
        w ∈ Grammar.name o.settings * (braceOpen * acts (fun _ => True) o.acts))
      (Block.Makes memory script) := by
    intro m
    apply ((parses_orchestratorBody memory script.orchestrator).bind fun o a ha =>
      Parses.pure (s := Block.orchestrator o) (V := Block.Makes memory script) (by
        obtain ⟨as, has, rfl⟩ := ha
        exact ⟨as, has, rfl⟩)).congr
    intro b w rest
    constructor
    · rintro ⟨o, u, _, rfl, hu, rfl, rfl⟩
      exact ⟨o, rfl, by rwa [List.append_nil]⟩
    · rintro ⟨o, rfl, h⟩
      exact ⟨o, w, [], (List.append_nil w).symm, h, rfl, rfl⟩
  unfold blockPass
  rw [textIs_eq, textIs_eq, parseSettings_eq, horch, bind_assoc, bind_assoc]
  apply (Parses.ite_skip (tests_textIs (by decide)) skips_consume (Nat.le_succ n) (fun _ _ => hset n)
    (Parses.ite_skip (tests_textIs (by decide)) skips_consume (Nat.le_succ n) (fun _ _ => hor n)
      (Parses.fail fun _ _ _ h => by cases h))).congr
  intro b w rest
  constructor
  · rintro (⟨t, v, rfl, ht, s, rfl, hv⟩ | ⟨-, ⟨t, v, rfl, ht, o, rfl, hv⟩ | ⟨-, h⟩⟩)
    · exact mem_one_mul.mpr ⟨t, v, rfl, ⟨trivial, ht⟩, hv⟩
    · exact mem_one_mul.mpr ⟨t, v, rfl, ⟨trivial, ht⟩, hv⟩
    · exact h.elim
  · intro h
    cases b with
    | settings s =>
      obtain ⟨t, v, rfl, ⟨-, ht⟩, hv⟩ := mem_one_mul.mp h
      exact Or.inl ⟨t, v, rfl, ht, s, rfl, hv⟩
    | orchestrator o =>
      obtain ⟨t, v, rfl, ⟨-, ht⟩, hv⟩ := mem_one_mul.mp h
      exact Or.inr ⟨by simp [ht], Or.inl ⟨t, v, rfl, ht, o, rfl, hv⟩⟩

theorem parses_blocks (memory : Memory) : ∀ fuel script, Parses fuel (parseBlocks memory fuel script)
    (Many (fun b w _ => w ∈ Block.tokens (fun _ => True) b) (· = [])) (Folds (Block.Makes memory) script) := by
  have hend : Tests endOfTokens (· = ([] : List Token)) := fun toks pos => ⟨_, rfl, by simp⟩
  apply Parses.loop (blockPass memory)
  · intro fuel script toks pos h
    unfold parseBlocks
    rw [(hend.ite _ _ toks pos).1 h]
    rfl
  · intro fuel script toks pos h
    conv_lhs => unfold parseBlocks
    rw [(hend.ite _ _ toks pos).2 h]
    have hpass : (peek >>= fun t =>
        if t.text = "SETTINGS" then
          parseSettings script.settings >>= fun settings => parseBlocks memory fuel { script with settings := settings }
        else if t.text = "ORCHESTRATOR" then
          parseOrchestrator memory script.orchestrator >>= fun orchestrator =>
            parseBlocks memory fuel { script with orchestrator := orchestrator }
        else throw (badTopLevelError t)) = blockPass memory script >>= parseBlocks memory fuel := by
      unfold blockPass
      rw [bind_assoc]
      apply bind_congr
      intro t
      by_cases hs : t.text = "SETTINGS"
      · simp only [if_pos hs, bind_assoc, pure_bind]
      · by_cases ho : t.text = "ORCHESTRATOR"
        · simp only [if_neg hs, if_pos ho, bind_assoc, pure_bind]
        · rw [if_neg hs, if_neg hs, if_neg ho, if_neg ho]
          rfl
    rw [← hpass]
  · exact fun n script => parses_blockPass memory script
  · intro b w rest h
    have hcons : ∃ t v, w = t :: v := by
      cases b with
      | settings s =>
        obtain ⟨t, v, rfl, -⟩ := mem_one_mul.mp h
        exact ⟨t, v, rfl⟩
      | orchestrator o =>
        obtain ⟨t, v, rfl, -⟩ := mem_one_mul.mp h
        exact ⟨t, v, rfl⟩
    obtain ⟨t, v, rfl⟩ := hcons
    exact ⟨List.cons_ne_nil _ _, List.cons_ne_nil _ _⟩

def Means (memory : Memory) (blocks : List Block) (script : DSLData) : Prop :=
  Folds (Block.Makes memory) memory.toScript blocks script

theorem parses_script (memory : Memory) (n : Nat) : Parses n (withFuel (parseBlocks memory · memory.toScript))
    (fun blocks w rest => w ∈ sequence (Block.tokens fun _ => True) blocks ∧ rest = []) (Means memory) :=
  (Parses.fuel (fun fuel => parses_blocks memory fuel memory.toScript) n).congr fun _ _ _ => many_iff

theorem parse_sound {memory : Memory} {toks : List Token} {script : DSLData} (h : parse memory toks = .ok script) :
    ∃ blocks, toks ∈ sequence (Block.tokens fun _ => True) blocks ∧ Means memory blocks script := by
  unfold parse at h
  cases hx : withFuel (parseBlocks memory · memory.toScript) toks 0 with
  | error e =>
    rw [hx] at h
    cases h
  | ok r =>
    rw [hx] at h
    cases h
    obtain ⟨blocks, w, rest, hd, -, ⟨hw, rfl⟩, hm⟩ := (parses_script memory (toks.length + 1)).sound (Nat.zero_le _)
      (Nat.lt_succ_self _) hx
    rw [List.drop_zero, List.append_nil] at hd
    exact ⟨blocks, hd ▸ hw, hm⟩

theorem parse_complete (memory : Memory) {toks : List Token} {blocks : List Block}
    (h : toks ∈ sequence (Block.tokens fun _ => True) blocks) :
    ∃ script, parse memory toks = .ok script ∧ Means memory blocks script := by
  have hd : toks.drop 0 = toks ++ [] := by rw [List.drop_zero, List.append_nil]
  obtain ⟨script, hr, hm⟩ := (parses_script memory (toks.length + 1)).complete (Nat.zero_le _) (Nat.lt_succ_self _) hd
    ⟨h, rfl⟩
  unfold parse
  rw [hr]
  exact ⟨script, rfl, hm⟩

theorem parse_iff {memory : Memory} {toks : List Token} : (∃ script, parse memory toks = .ok script) ↔ Spelled toks := by
  constructor
  · rintro ⟨script, h⟩
    obtain ⟨blocks, hb, -⟩ := parse_sound h
    exact ⟨blocks, hb⟩
  · rintro ⟨blocks, h⟩
    obtain ⟨script, hs, -⟩ := parse_complete memory h
    exact ⟨script, hs⟩

end

/-! ## Keywords -/

/-- The keywords that the parser knows by their text alone. -/
def bareKeywords : List String := ["SETTINGS", "ORCHESTRATOR", "OFFSET"]

/-- `t'` is `t`, or the keyword that `t` is spelled like. -/
def Retyped (t t' : Token) : Prop := t' = t ∨ t.text ∈ bareKeywords ∧ t' = { t with type := .Keyword }

def Token.IsKeyword (t : Token) : Prop := t.type = .Keyword

theorem image_same {A : Token → Prop} (h : ∀ t : Token, t.text ∈ bareKeywords → ¬ A { t with type := .Keyword }) :
    image Retyped (one A) = one A := by
  rw [image_one]
  congr 1
  funext t
  apply propext
  constructor
  · rintro ⟨_, rfl | ⟨ht, rfl⟩, hA⟩
    · exact hA
    · exact absurd hA (h t ht)
  · exact fun hA => ⟨t, Or.inl rfl, hA⟩

theorem image_word {type : TokenType} (h : type ≠ .Keyword) (text : String) :
    image Retyped (word type text) = word type text :=
  image_same fun _ _ hA => h hA.1.symm

theorem image_keyword {text : String} (h : text ∉ bareKeywords) : image Retyped (keyword text) = keyword text := by
  apply image_same
  intro t ht hA
  exact h (hA.2 ▸ ht)

@[simp] theorem image_operator (op : String) : image Retyped (operator op) = operator op := image_word (by decide) op

@[simp] theorem image_name (text : String) : image Retyped (Grammar.name text) = Grammar.name text :=
  image_word (by decide) text

@[simp] theorem image_value (text : String) : image Retyped (value text) = value text := image_word (by decide) text

@[simp] theorem image_braceOpen : image Retyped braceOpen = braceOpen := image_same fun _ _ hA => by cases hA

@[simp] theorem image_braceClosed : image Retyped braceClosed = braceClosed := image_same fun _ _ hA => by cases hA

@[simp] theorem image_integer (m : UInt32) : image Retyped (integer m) = integer m :=
  image_same fun _ _ hA => by cases hA.1

@[simp] theorem image_time (ms : UInt32) : image Retyped (time ms) = time ms := image_same fun _ _ hA => by cases hA.1

@[simp] theorem image_format (text : String) : image Retyped (format text) = format text :=
  image_same fun _ _ hA => by cases hA.1

@[simp] theorem image_range (r : Range) : image Retyped (range r) = range r := by
  simp only [range, image_mul, image_integer, image_operator]

theorem image_opening {text : String} (h : text ∈ bareKeywords) :
    image Retyped (opening Token.IsKeyword text) = opening (fun _ => True) text := by
  unfold opening
  rw [image_one]
  congr 1
  funext t
  apply propext
  constructor
  · rintro ⟨_, rfl | ⟨-, rfl⟩, hA⟩
    · exact ⟨trivial, hA.2⟩
    · exact ⟨trivial, hA.2⟩
  · rintro ⟨-, ht⟩
    exact ⟨{ t with type := .Keyword }, Or.inr ⟨ht ▸ h, rfl⟩, rfl, ht⟩

theorem image_setting (f : Setting) : image Retyped f.value = f.value := by
  cases f <;> simp [Setting.value, boolean]

theorem image_field (f : Field) : image Retyped f.tokens = f.tokens := by
  cases f with
  | setting g =>
    have hk : g.keyword ∉ bareKeywords := by cases g <;> simp [Setting.keyword, bareKeywords]
    simp only [Field.tokens, image_mul, image_keyword hk, image_operator, image_setting]
  | PACKETS es =>
    have hk : "PACKETS" ∉ bareKeywords := by decide
    have hentry : (fun e => image Retyped (packet e)) = packet := by
      funext e
      simp only [packet, image_mul, image_name, image_operator, image_value]
    simp only [Field.tokens, image_mul, image_keyword hk, image_entries, hentry, image_operator, image_braceOpen,
      image_braceClosed]
  | ENDPOINTS hosts =>
    have hk : "ENDPOINTS" ∉ bareKeywords := by decide
    have hentry : (fun e => image Retyped (value e)) = value := funext image_value
    simp only [Field.tokens, image_mul, image_keyword hk, image_entries, hentry, image_operator, image_braceOpen,
      image_braceClosed]

theorem image_modification (m : Grammar.Modification) : image Retyped m.tokens = m.tokens := by
  have hk : m.keyword ∉ bareKeywords := by cases m <;> simp [Grammar.Modification.keyword, bareKeywords]
  cases m <;> simp only [Grammar.Modification.tokens, Grammar.Modification.arguments, endian, image_mul, image_keyword hk, image_range,
    image_value, image_operator, image_format, image_integer]

theorem image_body (b : Body) : image Retyped b.tokens = b.tokens := by
  have hk : b.keyword ∉ bareKeywords := by cases b <;> simp [Body.keyword, bareKeywords]
  have hcopies : "COPIES" ∉ bareKeywords := by decide
  have hmods : (fun m => image Retyped (Grammar.Modification.tokens m)) = Grammar.Modification.tokens := funext image_modification
  rw [Body.tokens_eq, image_mul, image_mul, image_keyword hk, image_integer]
  congr 2
  cases b <;> simp only [Body.more, image_empty, image_mul, image_operator, image_integer, image_name,
    image_keyword hcopies, image_sequence, hmods]

theorem image_acts : ∀ as : List Act, image Retyped (acts Token.IsKeyword as) = acts (fun _ => True) as
  | [] => image_braceClosed
  | ⟨b, some ms⟩ :: as => by
    rw [acts, acts, image_mul, image_mul, image_mul, image_body, image_opening (by decide), image_time, image_acts as]
  | ⟨b, none⟩ :: as => by
    have htext : ∀ t t', Retyped t t' → (t'.text = "OFFSET" ↔ t.text = "OFFSET") := by
      rintro t _ (rfl | ⟨-, rfl⟩)
      · exact Iff.rfl
      · exact Iff.rfl
    rw [acts, acts, image_mul, image_body, image_avoids htext, image_acts as]

theorem image_block (b : Block) : image Retyped (Block.tokens Token.IsKeyword b) = Block.tokens (fun _ => True) b := by
  have hfields : (fun f => image Retyped (Field.tokens f)) = Field.tokens := funext image_field
  have hset : image Retyped (opening Token.IsKeyword "SETTINGS") = opening (fun _ => True) "SETTINGS" :=
    image_opening (by decide)
  have hor : image Retyped (opening Token.IsKeyword "ORCHESTRATOR") = opening (fun _ => True) "ORCHESTRATOR" :=
    image_opening (by decide)
  cases b <;> simp only [Block.tokens, Settings.tokens, Grammar.Orchestrator.tokens, image_mul, hset, hor, image_name,
    image_braceOpen, image_braceClosed, image_sequence, hfields, image_acts]

theorem spelled_iff {toks : List Token} :
    Spelled toks ↔ ∃ toks', List.Forall₂ Retyped toks toks' ∧ Documented toks' := by
  have himage : ∀ blocks, image Retyped (sequence (Block.tokens Token.IsKeyword) blocks) =
      sequence (Block.tokens fun _ => True) blocks := fun blocks => by
    rw [image_sequence, funext image_block]
  constructor
  · rintro ⟨blocks, h⟩
    rw [← himage] at h
    obtain ⟨toks', h', hr⟩ := h
    exact ⟨toks', hr, blocks, h'⟩
  · rintro ⟨toks', hr, blocks, h'⟩
    refine ⟨blocks, ?_⟩
    rw [← himage]
    exact ⟨toks', h', hr⟩

theorem retyped_refl : ∀ toks : List Token, List.Forall₂ Retyped toks toks
  | [] => .nil
  | _ :: toks => .cons (Or.inl rfl) (retyped_refl toks)

/-- The parser keeps to the documented grammar on exactly the tokens that are derivable,
or that would not be if those spelled like the three keywords were the keywords. -/
theorem parse_documented_iff (memory : Memory) (toks : List Token) :
    ((∃ script, parse memory toks = .ok script) ↔ Documented toks) ↔
      Documented toks ∨ ∀ toks', List.Forall₂ Retyped toks toks' → ¬ Documented toks' := by
  rw [parse_iff, spelled_iff]
  constructor
  · intro h
    by_cases hd : Documented toks
    · exact Or.inl hd
    · exact Or.inr fun toks' hr h' => hd (h.mp ⟨toks', hr, h'⟩)
  · rintro (hd | hn)
    · exact ⟨fun _ => hd, fun _ => ⟨toks, retyped_refl toks, hd⟩⟩
    · exact ⟨fun ⟨toks', hr, h'⟩ => absurd h' (hn toks' hr), fun h => absurd h (hn toks (retyped_refl toks))⟩

theorem documented_head {t : Token} {toks : List Token} (h : Documented (t :: toks)) : t.type = .Keyword := by
  obtain ⟨blocks, h⟩ := h
  cases blocks with
  | nil => cases h
  | cons b blocks =>
    obtain ⟨u, v, huv, hu, -⟩ := mem_mul_iff.mp h
    cases b with
    | settings s =>
      obtain ⟨t', u, rfl, ⟨ht, -⟩, -⟩ := mem_one_mul.mp hu
      cases huv
      exact ht
    | orchestrator o =>
      obtain ⟨t', u, rfl, ⟨ht, -⟩, -⟩ := mem_one_mul.mp hu
      cases huv
      exact ht

def quotedText : List Char := "\"SETTINGS\" s \x7b\x7d".toList

/-- A quoted value opens a block. -/
theorem quoted_opens : ∃ toks, tokenize quotedText = .ok toks ∧
    ¬ ((∃ script, parse .zero toks = .ok script) ↔ Documented toks) := by
  have ht : tokenize quotedText = .ok [⟨.Value, "SETTINGS", 1, 1⟩, ⟨.Identity, "s", 1, 12⟩, ⟨.BraceOpen, "\x7b", 1, 14⟩,
      ⟨.BraceClosed, "\x7d", 1, 15⟩] := by
    unfold quotedText
    decide +kernel
  refine ⟨_, ht, fun h => ?_⟩
  have hd := h.mp ⟨_, rfl⟩
  exact absurd (documented_head hd) (by decide)

end Loadshear
