import Loadshear.ActionSound

/-!
# The parser and the grammar of fields

What the loop over the fields of a SETTINGS block accepts (`parses_fields`), and
what each field makes of the block.
-/

namespace Loadshear

open Parsing Languages Grammar

/-! ## Assignments -/

def Grammar.Setting.apply (s : SettingsBlock) : Setting → SettingsBlock
  | SESSION text => { s with sessionProtocol := text }
  | PORT port => { s with port := port }
  | HEADERSIZE size => { s with headerSize := size }
  | BODYMAX size => { s with bodyMax := size }
  | READ b => { s with read := b }
  | REPEAT b => { s with repeat' := b }
  | SAMPLERATE rate => { s with packetSampleRate := rate }
  | SHARDS shards => { s with shards := shards }
  | HANDLER file => { s with handlerValue := file }

section
variable {k v : Token} {s s' : SettingsBlock}

theorem mem_word {type : TokenType} {text : String} : [v] ∈ word type text ↔ v.type = type ∧ v.text = text := by
  simp [word, mem_one]

theorem mem_integer {m : UInt32} : [v] ∈ integer m ↔ v.type = .Value ∧ Begins v.text.toList m.toNat := by
  simp [integer, mem_one]

theorem value_single {f : Setting} {w : List Token} (h : w ∈ f.value) : ∃ v, w = [v] ∧ v.type = .Value := by
  cases f <;> exact ⟨_, h.choose_spec.1, h.choose_spec.2.1⟩

theorem toUInt16_le {temp : UInt32} (h : ¬ temp > 65535) : temp.toUInt16.toUInt32 = temp := by
  have hle : temp.toNat ≤ 65535 := by
    have := UInt32.not_lt.mp h
    exact this
  apply UInt32.toNat.inj
  rw [UInt16.toNat_toUInt32, UInt32.toNat_toUInt16]
  omega

theorem convert_ok {kw : String} {f : UInt32 → ParseResult SettingsBlock} (hv : v.type = .Value)
    (h : (tryConvertInt v kw >>= f) = .ok s') : ∃ m, [v] ∈ integer m ∧ f m = .ok s' := by
  cases hr : tryConvertInt v kw with
  | error e =>
    rw [hr] at h
    cases h
  | ok m =>
    rw [hr] at h
    exact ⟨m, mem_integer.mpr ⟨hv, tryConvertInt_iff.mp hr⟩, h⟩

theorem boolean_ok {f : Bool → SettingsBlock} (hv : v.type = .Value)
    (h : (if v.text = "true" then .ok (f true) else if v.text = "false" then .ok (f false)
      else .error (badBoolError v)) = Except.ok s') : ∃ b, [v] ∈ boolean b ∧ s' = f b := by
  by_cases ht : v.text = "true"
  · rw [if_pos ht] at h
    cases h
    exact ⟨true, mem_word.mpr ⟨hv, ht⟩, rfl⟩
  · by_cases hf : v.text = "false"
    · rw [if_neg ht, if_pos hf] at h
      cases h
      exact ⟨false, mem_word.mpr ⟨hv, hf⟩, rfl⟩
    · rw [if_neg ht, if_neg hf] at h
      cases h

theorem exists_setting (hv : v.type = .Value) (h : applySetting k v s = .ok s') :
    ∃ f : Setting, k.text = f.keyword ∧ [v] ∈ f.value ∧ s' = f.apply s := by
  unfold applySetting at h
  by_cases hk : k.text = "SESSION"
  · rw [if_pos hk] at h
    cases h
    exact ⟨.SESSION v.text, hk, mem_word.mpr ⟨hv, rfl⟩, rfl⟩
  rw [if_neg hk] at h
  by_cases hk : k.text = "PORT"
  · rw [if_pos hk] at h
    obtain ⟨m, hm, h⟩ := convert_ok hv h
    by_cases hlt : m > 65535
    · rw [if_pos hlt] at h
      cases h
    · rw [if_neg hlt] at h
      cases h
      refine ⟨.PORT m.toUInt16, hk, ?_, rfl⟩
      rwa [Setting.value, toUInt16_le hlt]
  rw [if_neg hk] at h
  by_cases hk : k.text = "HEADERSIZE"
  · rw [if_pos hk] at h
    obtain ⟨m, hm, h⟩ := convert_ok hv h
    cases h
    exact ⟨.HEADERSIZE m, hk, hm, rfl⟩
  rw [if_neg hk] at h
  by_cases hk : k.text = "BODYMAX"
  · rw [if_pos hk] at h
    obtain ⟨m, hm, h⟩ := convert_ok hv h
    cases h
    exact ⟨.BODYMAX m, hk, hm, rfl⟩
  rw [if_neg hk] at h
  by_cases hk : k.text = "READ"
  · rw [if_pos hk] at h
    obtain ⟨b, hb, rfl⟩ := boolean_ok (f := fun b => { s with read := b }) hv h
    exact ⟨.READ b, hk, hb, rfl⟩
  rw [if_neg hk] at h
  by_cases hk : k.text = "REPEAT"
  · rw [if_pos hk] at h
    obtain ⟨b, hb, rfl⟩ := boolean_ok (f := fun b => { s with repeat' := b }) hv h
    exact ⟨.REPEAT b, hk, hb, rfl⟩
  rw [if_neg hk] at h
  by_cases hk : k.text = "SAMPLERATE"
  · rw [if_pos hk] at h
    obtain ⟨m, hm, h⟩ := convert_ok hv h
    cases h
    exact ⟨.SAMPLERATE m, hk, hm, rfl⟩
  rw [if_neg hk] at h
  by_cases hk : k.text = "SHARDS"
  · rw [if_pos hk] at h
    obtain ⟨m, hm, h⟩ := convert_ok hv h
    cases h
    exact ⟨.SHARDS m, hk, hm, rfl⟩
  rw [if_neg hk] at h
  by_cases hk : k.text = "HANDLER"
  · rw [if_pos hk] at h
    cases h
    exact ⟨.HANDLER v.text, hk, mem_word.mpr ⟨hv, rfl⟩, rfl⟩
  rw [if_neg hk] at h
  cases h

theorem convert_of {kw : String} {m : UInt32} {f : UInt32 → ParseResult SettingsBlock} (hv : [v] ∈ integer m) :
    (tryConvertInt v kw >>= f) = f m := by
  rw [tryConvertInt_iff.mpr (mem_integer.mp hv).2]
  rfl

theorem boolean_of {b : Bool} {f : Bool → SettingsBlock} (hv : [v] ∈ boolean b) :
    (if v.text = "true" then .ok (f true) else if v.text = "false" then .ok (f false)
      else .error (badBoolError v)) = (Except.ok (f b) : ParseResult SettingsBlock) := by
  have ht := (mem_word.mp hv).2
  cases b with
  | true =>
    have ht : v.text = "true" := ht
    rw [if_pos ht]
  | false =>
    have ht : v.text = "false" := ht
    rw [if_neg (by rw [ht]; decide), if_pos ht]

theorem applySetting_of {f : Setting} (hk : k.text = f.keyword) (hv : [v] ∈ f.value) :
    applySetting k v s = .ok (f.apply s) := by
  unfold applySetting
  rw [hk]
  cases f with
  | SESSION text =>
    rw [← (mem_word.mp hv).2]
    rfl
  | PORT port =>
    have hle : ¬ port.toUInt32 > 65535 := by
      have := port.toNat_lt
      rw [gt_iff_lt, UInt32.lt_iff_toNat_lt, UInt16.toNat_toUInt32]
      exact Nat.not_lt.mpr (Nat.le_of_lt_succ this)
    change (tryConvertInt v "PORT" >>= _) = _
    rw [convert_of hv, if_neg hle, UInt16.toUInt16_toUInt32]
    rfl
  | HEADERSIZE m => exact convert_of hv
  | BODYMAX m => exact convert_of hv
  | READ b => exact boolean_of (f := fun b => { s with read := b }) hv
  | REPEAT b => exact boolean_of (f := fun b => { s with repeat' := b }) hv
  | SAMPLERATE m => exact convert_of hv
  | SHARDS m => exact convert_of hv
  | HANDLER file =>
    rw [← (mem_word.mp hv).2]
    rfl

end

/-! ## Fields -/

def Grammar.Field.apply (s : SettingsBlock) : Field → SettingsBlock
  | setting f => f.apply s
  | PACKETS packets => packets.foldl addPacket s
  | ENDPOINTS hosts => hosts.foldl addEndpoint s

section
variable {n : Nat}

/-- The loops over PACKETS and over ENDPOINTS. -/
theorem parses_list {β : Type} {walk : Nat → SettingsBlock → ParserM SettingsBlock}
    (entry : SettingsBlock → ParserM SettingsBlock) {L : β → Language Token} {add : SettingsBlock → β → SettingsBlock}
    (hloop : ∀ fuel s, walk (fuel + 1) s = isExpected .BraceClosed >>= fun b => if b = true then pure s
      else entry s >>= fun s' => isOperator "," >>= fun b => if b = true then consume >>= fun _ => walk fuel s'
        else isExpected .BraceClosed >>= fun b => if b = true then pure s'
          else peek >>= fun t => throw (badOperatorError t ","))
    (hentry : ∀ n s, Parses n (entry s) (fun e w _ => w ∈ L e) (fun e a => a = add s e))
    (hhead : ∀ e w, w ∈ L e → ∃ t v, w = t :: v ∧ ¬ IsClosed t) (s : SettingsBlock) :
    Parses n (withFuel (walk · s)) (fun es w rest => w ∈ entries L (operator ",") es ∧ Leads IsClosed rest)
      (fun es a => a = es.foldl add s) := by
  have hcc : ∀ t, IsClosed t → ¬ (t.type = .Operator ∧ t.text = ",") := by
    intro t ht hop
    cases ht.symm.trans hop.1
  have hne : ∀ e w rest, w ∈ L e → w ≠ [] ∧ ¬ Leads IsClosed (w ++ rest) := by
    intro e w rest h
    obtain ⟨t, v, rfl, ht⟩ := hhead e w h
    exact ⟨List.cons_ne_nil _ _, by simpa using ht⟩
  have hwalk : ∀ fuel, Parses fuel (walk fuel s) (Entries (fun e w _ => w ∈ L e) _ IsClosed)
      (Folds (fun s e a => a = add s e) s) := fun fuel =>
    Parses.entries hloop (tests_isOperator ",") (tests_isExpected .BraceClosed) hcc skips_consume
      (fun _ _ _ h => by cases h) hentry hne fuel s
  exact (Parses.fuel hwalk n).reindex (fun es _ _ h => ⟨es, entries_iff.mp h, fun _ => folds_eq.mp⟩)
    fun es _ _ h => ⟨es, entries_iff.mpr h, fun _ => folds_eq.mp⟩

theorem parses_endpoints (s : SettingsBlock) : Parses n (withFuel (parseEndpoints · s))
    (fun hosts w rest => w ∈ entries value (operator ",") hosts ∧ Leads IsClosed rest)
    (fun hosts a => a = hosts.foldl addEndpoint s) := by
  apply parses_list (fun s => expectType .Value >>= fun _ => consume >>= fun t => pure (addEndpoint s t.text))
  · intro fuel s
    simp only [bind_assoc, pure_bind]
    rfl
  · intro n s
    apply (parses_read fun t _ => Parses.pure (s := t.text) (V := fun host a => a = addEndpoint s host) rfl).congr
    intro host w rest
    constructor
    · rintro ⟨t, _, rfl, ht, rfl, rfl⟩
      exact mem_word.mpr ⟨ht, rfl⟩
    · rintro ⟨t, rfl, ht, rfl⟩
      exact ⟨t, [], rfl, ht, rfl, rfl⟩
  · rintro host _ ⟨t, rfl, ht, -⟩
    exact ⟨t, [], rfl, by simp [IsClosed, ht]⟩

theorem parses_packets (s : SettingsBlock) : Parses n (withFuel (parsePackets · s))
    (fun packets w rest => w ∈ entries packet (operator ",") packets ∧ Leads IsClosed rest)
    (fun packets a => a = packets.foldl addPacket s) := by
  apply parses_list (fun s => expectType .Identity >>= fun _ => consume >>= fun t => expectOperator ":" >>=
    fun _ => consume >>= fun _ => expectType .Value >>= fun _ => consume >>= fun t' => pure (addPacket s (t.text, t'.text)))
  · intro fuel s
    simp only [bind_assoc, pure_bind]
    rfl
  · intro n s
    apply (parses_read fun t _ => parses_operator (parses_read fun t' _ => Parses.pure (s := (t.text, t'.text))
      (V := fun packet a => a = addPacket s packet) rfl)).congr
    intro entry w rest
    constructor
    · rintro ⟨t, _, rfl, ht, c, _, rfl, hc, t', _, rfl, ht', rfl, rfl⟩
      exact mem_one_mul.mpr ⟨t, _, rfl, ⟨ht, rfl⟩, mem_one_mul.mpr ⟨c, _, rfl, hc, mem_word.mpr ⟨ht', rfl⟩⟩⟩
    · intro h
      obtain ⟨t, _, rfl, ⟨ht, htext⟩, h⟩ := mem_one_mul.mp h
      obtain ⟨c, _, rfl, hc, t', rfl, ht', htext'⟩ := mem_one_mul.mp h
      exact ⟨t, _, rfl, ht, c, _, rfl, hc, t', [], rfl, ht', by rw [htext, htext'], rfl⟩
  · intro entry w h
    obtain ⟨t, v, rfl, ⟨ht, -⟩, -⟩ := mem_one_mul.mp h
    exact ⟨t, v, rfl, by simp [IsClosed, ht]⟩

theorem parses_close {σ : Type} {V : σ → SettingsBlock → Prop} {s : σ} {a : SettingsBlock} (hV : V s a) :
    Parses n (closeNested a) (fun s' w _ => s' = s ∧ w ∈ braceClosed) V := by
  unfold closeNested
  apply (Parses.ite_skip (tests_isExpected .BraceClosed) skips_consume (Nat.le_succ n) (fun _ _ => Parses.pure hV)
    (Parses.fail fun _ _ _ h => by cases h)).congr
  intro s' w rest
  constructor
  · rintro (⟨c, _, rfl, hc, rfl, rfl⟩ | ⟨-, h⟩)
    · exact ⟨rfl, c, rfl, hc⟩
    · exact h.elim
  · rintro ⟨rfl, c, rfl, hc⟩
    exact Or.inl ⟨c, [], rfl, hc, rfl, rfl⟩

/-- A list up to its closing brace. -/
theorem parses_nested {β : Type} {p : ParserM SettingsBlock} {L : List β → Language Token}
    {add : SettingsBlock → β → SettingsBlock} {s : SettingsBlock} (make : List β → Field)
    (hmake : ∀ es, (make es).apply s = es.foldl add s)
    (hp : Parses n p (fun es w rest => w ∈ L es ∧ Leads IsClosed rest) (fun es a => a = es.foldl add s)) :
    Parses n (p >>= closeNested) (fun f w _ => ∃ es, f = make es ∧ w ∈ L es * braceClosed)
      (fun f a => a = f.apply s) := by
  apply (hp.bind fun es a ha => parses_close (V := fun f a => a = f.apply s) (s := make es) (by rw [ha, hmake])).congr
  intro f w rest
  constructor
  · rintro ⟨es, u, v, rfl, ⟨hu, -⟩, rfl, hv⟩
    exact ⟨es, rfl, mem_mul_iff.mpr ⟨u, v, rfl, hu, hv⟩⟩
  · rintro ⟨es, rfl, h⟩
    obtain ⟨u, _, rfl, hu, c, rfl, hc⟩ := mem_mul_iff.mp h
    exact ⟨es, u, [c], rfl, ⟨hu, leads_cons.mpr hc⟩, rfl, c, rfl, hc⟩

theorem parses_valued {α σ : Type} {r : ParseResult α} {E : σ → Prop} {V : σ → α → Prop}
    (hto : ∀ a, r = .ok a → ∃ s, E s ∧ V s a) (hfrom : ∀ s, E s → ∃ a, r = .ok a ∧ V s a) :
    Parses n (liftResult r) (fun s w _ => E s ∧ w = []) V where
  sound {toks pos} _ _ a q hr := by
    cases r with
    | error e => cases hr
    | ok b =>
      cases hr
      obtain ⟨s, hs, hv⟩ := hto _ rfl
      exact ⟨s, [], _, rfl, rfl, ⟨hs, rfl⟩, hv⟩
  complete _ _ s w rest _ h := by
    obtain ⟨hs, rfl⟩ := h
    obtain ⟨a, rfl, hv⟩ := hfrom s hs
    exact ⟨a, rfl, hv⟩

theorem parses_setting (k : Token) (s : SettingsBlock) :
    Parses n (expectOperator "=" >>= fun _ => consume >>= fun _ => expectType .Value >>= fun _ => consume >>= fun v =>
        liftResult (applySetting k v s))
      (fun (f : Field) w _ => ∃ g : Setting, f = .setting g ∧ k.text = g.keyword ∧ w ∈ operator "=" * g.value)
      (fun f a => a = f.apply s) := by
  apply (parses_operator (parses_read fun v hv => parses_valued
    (E := fun f => ∃ g : Setting, f = Field.setting g ∧ k.text = g.keyword ∧ [v] ∈ g.value) ?_ ?_)).congr
  · intro f w rest
    constructor
    · rintro ⟨c, _, rfl, hc, v, _, rfl, hv, ⟨g, rfl, hk, hg⟩, rfl⟩
      exact ⟨g, rfl, hk, mem_one_mul.mpr ⟨c, _, rfl, hc, hg⟩⟩
    · rintro ⟨g, rfl, hk, h⟩
      obtain ⟨c, w, rfl, hc, hg⟩ := mem_one_mul.mp h
      obtain ⟨v, rfl, hv⟩ := value_single hg
      exact ⟨c, [v], rfl, hc, v, [], rfl, hv, ⟨g, rfl, hk, hg⟩, rfl⟩
  · intro a ha
    obtain ⟨g, hk, hg, rfl⟩ := exists_setting hv ha
    exact ⟨.setting g, ⟨g, rfl, hk, hg⟩, rfl⟩
  · rintro _ ⟨g, rfl, hk, hg⟩
    exact ⟨_, applySetting_of hk hg, rfl⟩

theorem parses_field (s : SettingsBlock) : Parses n (parseField s) (fun f w _ => w ∈ Field.tokens f)
    (fun f a => a = f.apply s) := by
  unfold parseField
  apply (parses_read fun k _ => Parses.ite_skip (tests_isExpected .BraceOpen) skips_consume (Nat.le_succ n)
    (fun _ _ => Parses.choose (fun _ => parses_nested .PACKETS (fun _ => rfl) (parses_packets s)) fun _ =>
      Parses.guard (fun _ => parses_nested .ENDPOINTS (fun _ => rfl) (parses_endpoints s)) fun _ _ _ h => by cases h)
    (parses_setting k s)).congr
  intro f w rest
  constructor
  · rintro ⟨k, _, rfl, hk, ⟨b, v, rfl, hb, ⟨hp, es, rfl, hv⟩ | ⟨-, he, es, rfl, hv⟩⟩ | ⟨-, g, rfl, hg, hv⟩⟩
    · exact mem_one_mul.mpr ⟨k, _, rfl, ⟨hk, hp⟩, mem_one_mul.mpr ⟨b, v, rfl, hb, hv⟩⟩
    · exact mem_one_mul.mpr ⟨k, _, rfl, ⟨hk, he⟩, mem_one_mul.mpr ⟨b, v, rfl, hb, hv⟩⟩
    · exact mem_one_mul.mpr ⟨k, _, rfl, ⟨hk, hg⟩, hv⟩
  · intro h
    cases f with
    | PACKETS es =>
      obtain ⟨k, _, rfl, ⟨hk, hp⟩, h⟩ := mem_one_mul.mp h
      obtain ⟨b, v, rfl, hb, hv⟩ := mem_one_mul.mp h
      exact ⟨k, _, rfl, hk, Or.inl ⟨b, v, rfl, hb, Or.inl ⟨hp, es, rfl, hv⟩⟩⟩
    | ENDPOINTS hosts =>
      obtain ⟨k, _, rfl, ⟨hk, he⟩, h⟩ := mem_one_mul.mp h
      obtain ⟨b, v, rfl, hb, hv⟩ := mem_one_mul.mp h
      exact ⟨k, _, rfl, hk, Or.inl ⟨b, v, rfl, hb, Or.inr ⟨by rw [he]; decide, he, hosts, rfl, hv⟩⟩⟩
    | setting g =>
      obtain ⟨k, v, rfl, ⟨hk, hg⟩, hv⟩ := mem_one_mul.mp h
      refine ⟨k, v, rfl, hk, Or.inr ⟨?_, g, rfl, hg, hv⟩⟩
      obtain ⟨c, v, rfl, ⟨hc, -⟩, -⟩ := mem_one_mul.mp hv
      simp [hc]

theorem parses_fields : ∀ fuel s, Parses fuel (parseFields fuel s)
    (Many (fun f w _ => w ∈ Field.tokens f) (Leads IsClosed)) (Folds (fun s f a => a = Field.apply s f) s) := by
  apply Parses.loop parseField
  · intro fuel s toks pos h
    unfold parseFields
    rw [((tests_isExpected .BraceClosed).ite _ _ toks pos).1 h]
    rfl
  · intro fuel s toks pos h
    conv_lhs => unfold parseFields
    rw [((tests_isExpected .BraceClosed).ite _ _ toks pos).2 h]
  · exact fun n s => parses_field s
  · intro f w rest h
    have hkey : ∃ t v, w = t :: v ∧ t.type = .Keyword := by
      cases f with
      | setting g =>
        obtain ⟨k, v, rfl, ⟨hk, -⟩, -⟩ := mem_one_mul.mp h
        exact ⟨k, v, rfl, hk⟩
      | PACKETS es =>
        obtain ⟨k, v, rfl, ⟨hk, -⟩, -⟩ := mem_one_mul.mp h
        exact ⟨k, v, rfl, hk⟩
      | ENDPOINTS hosts =>
        obtain ⟨k, v, rfl, ⟨hk, -⟩, -⟩ := mem_one_mul.mp h
        exact ⟨k, v, rfl, hk⟩
    obtain ⟨t, v, rfl, ht⟩ := hkey
    refine ⟨List.cons_ne_nil _ _, ?_⟩
    simp [IsClosed, ht]

end

end Loadshear
