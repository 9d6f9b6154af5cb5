import Mathlib.Data.List.Forall2
import Loadshear.Printer

/-!
# Reading back words

The lexer reads each word of a text as its token (`tokenize_text`), whatever the
gaps are.
-/

namespace Loadshear

/-! ## Characters -/

theorem not_isAlpha_of_isDigit {c : Char} (h : c.isDigit) : c.isAlpha = false := by
  have halpha : c.isAlpha = (decide (c.val ≥ 65 ∧ c.val ≤ 90) || (c.val ≥ 97 && c.val ≤ 122)) := rfl
  have hdigit : c.isDigit = (c.val ≥ 48 && c.val ≤ 57) := rfl
  grind

/-! ## Loops -/

theorem lexWhile_append {allowed : Char → Bool} {rest : List Char} (hr : ∀ c ∈ rest.head?, allowed c = false) :
    ∀ {cs : List Char} (p : LexPos) (value : List Char), (∀ c ∈ cs, allowed c) →
      ∃ q, lexWhile allowed (cs ++ rest) p value = (rest, q, value ++ cs)
  | [], p, value, _ => by
    rw [List.nil_append, List.append_nil]
    cases rest with
    | nil => exact ⟨p, rfl⟩
    | cons c rest => exact ⟨p, by simp [lexWhile, hr c rfl]⟩
  | c :: cs, p, value, h => by
    obtain ⟨q, hq⟩ := lexWhile_append hr (p.advance c) (value ++ [c]) fun d hd => h d (List.mem_cons_of_mem _ hd)
    refine ⟨q, ?_⟩
    rw [List.cons_append, lexWhile, if_pos (h c (List.mem_cons_self ..)), hq, List.append_assoc]
    rfl

/-- Behind a character that is no closing backslash there is no quote to be escaped. -/
theorem escape_head {c : Char} {cs rest : List Char} {d : Char} (h : d ∈ (Word.escape (c :: cs) ++ rest).head?) :
    d ≠ '"' ∧ d ≠ '$' := by
  by_cases hc : c = '"' ∨ c = '$'
  · rw [Word.escape, if_pos hc] at h
    obtain rfl : '\\' = d := by simpa using h
    decide
  · rw [Word.escape, if_neg hc] at h
    obtain rfl : c = d := by simpa using h
    exact not_or.mp hc

theorem lexQuoted_escape (rest : List Char) : ∀ {cs : List Char} (p : LexPos) (value : List Char),
    cs.getLast? ≠ some '\\' → ∃ q, lexQuoted (Word.escape cs ++ '"' :: rest) p value = ('"' :: rest, q, value ++ cs)
  | [], p, value, _ => by
    refine ⟨p, ?_⟩
    cases rest <;> simp [Word.escape, lexQuoted]
  | c :: cs, p, value, h => by
    have hcs : cs.getLast? ≠ some '\\' := by
      intro hl
      cases cs with
      | nil => cases hl
      | cons d cs => exact h (by rwa [List.getLast?_cons_cons])
    by_cases hc : c = '"' ∨ c = '$'
    · obtain ⟨q, hq⟩ := lexQuoted_escape rest ((p.advance '\\').advance c) (value ++ [c]) hcs
      refine ⟨q, ?_⟩
      rw [Word.escape, if_pos hc, List.cons_append, List.cons_append, lexQuoted, if_neg (by decide), if_pos ⟨rfl, hc⟩,
        hq, List.append_assoc]
      rfl
    · obtain ⟨q, hq⟩ := lexQuoted_escape rest (p.advance c) (value ++ [c]) hcs
      refine ⟨q, ?_⟩
      rw [Word.escape, if_neg hc, List.cons_append]
      cases ht : Word.escape cs ++ '"' :: rest with
      | nil => simp at ht
      | cons d tail =>
        have hd : ¬ (c = '\\' ∧ (d = '"' ∨ d = '$')) := by
          rintro ⟨rfl, hd⟩
          cases cs with
          | nil => exact h rfl
          | cons e es =>
            obtain ⟨hq, hs⟩ := @escape_head e es ('"' :: rest) d (by rw [ht]; rfl)
            exact hd.elim hq hs
        rw [lexQuoted, if_neg fun hq => hc (.inl hq), if_neg hd, ← ht, hq, List.append_assoc]
        rfl

/-! ## Gaps -/

theorem skipIgnorable_comment (rest : List Char) : ∀ {text : List Char} (p : LexPos), '\n' ∉ text →
    ∃ q, skipIgnorable true (text ++ '\n' :: rest) p = skipIgnorable false rest q
  | [], p, _ => ⟨p.advance '\n', rfl⟩
  | c :: text, p, h => by
    rw [List.mem_cons, not_or] at h
    obtain ⟨q, hq⟩ := skipIgnorable_comment rest (p.advance c) h.2
    refine ⟨q, ?_⟩
    rw [List.cons_append, skipIgnorable, decide_eq_true (Ne.symm h.1), hq]

theorem skipIgnorable_gaps (rest : List Char) : ∀ (gaps : List Gap) (p : LexPos),
    ∃ q, skipIgnorable false (gapText gaps ++ rest) p = skipIgnorable false rest q
  | [], p => ⟨p, rfl⟩
  | .blank c h :: gaps, p => by
    obtain ⟨q, hq⟩ := skipIgnorable_gaps rest gaps (p.advance c)
    refine ⟨q, ?_⟩
    rw [gapText, List.flatMap_cons, Gap.spelling, List.append_assoc, List.singleton_append, skipIgnorable, if_pos h,
      ← gapText, hq]
  | .comment text h :: gaps, p => by
    obtain ⟨q, hq⟩ := skipIgnorable_comment (gapText gaps ++ rest) ((p.advance '/').advance '/') h
    obtain ⟨q', hq'⟩ := skipIgnorable_gaps rest gaps q
    refine ⟨q', ?_⟩
    rw [← hq', ← hq, gapText, List.flatMap_cons, Gap.spelling, ← gapText]
    simp [skipIgnorable]

/-- What a gap starts with ends every word. -/
def Parted (rest : List Char) : Prop := ∀ c ∈ rest.head?, isIdentChar c = false ∧ isValueChar c = false

theorem parted_gaps {gaps : List Gap} {rest : List Char} (h : gaps ≠ []) : Parted (gapText gaps ++ rest) := by
  cases gaps with
  | nil => exact absurd rfl h
  | cons gap gaps =>
    intro c hc
    cases gap with
    | blank d hd =>
      obtain rfl : d = c := by simpa [gapText, Gap.spelling] using hc
      obtain rfl | rfl | rfl | rfl := hd <;> decide
    | comment text =>
      obtain rfl : '/' = c := by simpa [gapText, Gap.spelling] using hc
      decide

theorem parted_end (gaps : List Gap) : Parted (gapText gaps ++ []) := by
  by_cases h : gaps = []
  · subst h
    exact fun c hc => by cases hc
  · exact parted_gaps h

/-! ## Words -/

def Word.Valid : Word → Prop
  | keyword text => IsName text ∧ text ∈ validKeywords
  | identity text => IsIdentifier text
  | operator c => c ∈ validTokenOperators
  | number text => ∃ c cs, text.toList = c :: cs ∧ c.isDigit ∧ ∀ d ∈ cs, isValueChar d
  | quoted text => IsQuotable text
  | braceOpen | braceClosed => True

def Starts (c : Char) : Prop := ¬ (c = ' ' ∨ c = '\t' ∨ c = '\r' ∨ c = '\n') ∧ c ≠ '/'

instance : DecidablePred Starts := fun _ => inferInstanceAs (Decidable (_ ∧ _))

theorem skipIgnorable_word {c : Char} (h : Starts c) (cs : List Char) (p : LexPos) :
    skipIgnorable false (c :: cs) p = (c :: cs, p) := by
  rw [skipIgnorable, if_neg h.1, if_neg fun hc => h.2 hc.1]

theorem isAlphanum_plain {c : Char} (h : c.isAlphanum) :
    c ≠ '{' ∧ c ≠ '}' ∧ c ∉ validTokenOperators ∧ c ≠ '"' ∧ Starts c := by
  have hne : ∀ d : Char, d.isAlphanum = false → c ≠ d := by
    rintro d hd rfl
    rw [h] at hd
    cases hd
  refine ⟨hne _ (by decide), hne _ (by decide), ?_, hne _ (by decide), ?_, hne _ (by decide)⟩
  · simp [validTokenOperators, hne '=' (by decide), hne ',' (by decide), hne ':' (by decide)]
  · simp [hne ' ' (by decide), hne '\t' (by decide), hne '\r' (by decide), hne '\n' (by decide)]

/-- The lexer makes the token, wherever it stands, and leaves `rest`. -/
def Lexes (c : Char) (cs : List Char) (p : LexPos) (token : TokenType × String) (rest : List Char) : Prop :=
  ∃ t q, lexToken c cs p = .ok (t, rest, q) ∧ (t.type, t.text) = token

theorem lexes_name {c : Char} {cs rest : List Char} (p : LexPos) (hc : c.isAlpha) (hcs : ∀ d ∈ cs, isIdentChar d)
    (hr : Parted rest) : Lexes c (cs ++ rest) p
      (if String.ofList (c :: cs) ∈ validKeywords then .Keyword else .Identity, String.ofList (c :: cs)) rest := by
  have ha : c.isAlphanum := by simp [Char.isAlphanum, hc]
  obtain ⟨h₁, h₂, h₃, h₄, -⟩ := isAlphanum_plain ha
  have hall : ∀ d ∈ c :: cs, isIdentChar d := List.forall_mem_cons.mpr ⟨by simp [isIdentChar, ha], hcs⟩
  obtain ⟨q, hq⟩ := lexWhile_append (fun d hd => (hr d hd).1) p [] hall
  rw [List.cons_append, List.nil_append] at hq
  rw [Lexes, lexToken, if_neg h₁, if_neg h₂, if_neg h₃, if_neg h₄, if_pos hc, hq]
  exact ⟨_, _, rfl, rfl⟩

theorem lexes_number {c : Char} {cs rest : List Char} (p : LexPos) (hc : c.isDigit) (hcs : ∀ d ∈ cs, isValueChar d)
    (hr : Parted rest) : Lexes c (cs ++ rest) p (.Value, String.ofList (c :: cs)) rest := by
  have ha : c.isAlphanum := by simp [Char.isAlphanum, hc]
  obtain ⟨h₁, h₂, h₃, h₄, -⟩ := isAlphanum_plain ha
  have hall : ∀ d ∈ c :: cs, isValueChar d := List.forall_mem_cons.mpr ⟨by simp [isValueChar, ha], hcs⟩
  obtain ⟨q, hq⟩ := lexWhile_append (fun d hd => (hr d hd).2) p [] hall
  rw [List.cons_append, List.nil_append] at hq
  have hn : ¬ c.isAlpha := by simp [not_isAlpha_of_isDigit hc]
  rw [Lexes, lexToken, if_neg h₁, if_neg h₂, if_neg h₃, if_neg h₄, if_neg hn, if_pos hc, hq]
  exact ⟨_, _, rfl, rfl⟩

theorem lexes_quoted {text : String} (rest : List Char) (p : LexPos) (h : IsQuotable text) :
    Lexes '"' (Word.escape text.toList ++ '"' :: rest) p (.Value, text) rest := by
  obtain ⟨q, hq⟩ := lexQuoted_escape rest (p.advance '"') [] h
  rw [Lexes, lexToken, if_neg (by decide), if_neg (by decide), if_neg (by decide), if_pos rfl, hq]
  exact ⟨_, _, rfl, by simp⟩

theorem lexes_operator {op : Char} {rest : List Char} (p : LexPos) (h : op ∈ validTokenOperators) :
    Lexes op rest p (.Operator, String.ofList [op]) rest := by
  have h₁ : op ≠ '{' := by
    rintro rfl
    revert h
    decide
  have h₂ : op ≠ '}' := by
    rintro rfl
    revert h
    decide
  rw [Lexes, lexToken, if_neg h₁, if_neg h₂, if_pos h]
  exact ⟨_, _, rfl, rfl⟩

/-- The lexer reads a word as its token, up to what is no part of it. -/
theorem lexes_word {w : Word} (hw : w.Valid) {rest : List Char} (hr : Parted rest) (p : LexPos) :
    ∃ c cs, w.spelling = c :: cs ∧ Starts c ∧ Lexes c (cs ++ rest) p w.token rest := by
  cases w with
  | keyword text =>
    obtain ⟨⟨c, cs, hs, hc, hcs⟩, hk⟩ := hw
    have ht : String.ofList (c :: cs) = text := by rw [← hs, String.ofList_toList]
    have hl := lexes_name p hc hcs hr
    rw [ht, if_pos hk] at hl
    exact ⟨c, cs, hs, (isAlphanum_plain (by simp [Char.isAlphanum, hc])).2.2.2.2, hl⟩
  | identity text =>
    obtain ⟨⟨c, cs, hs, hc, hcs⟩, hk⟩ := hw
    have ht : String.ofList (c :: cs) = text := by rw [← hs, String.ofList_toList]
    have hl := lexes_name p hc hcs hr
    rw [ht, if_neg hk] at hl
    exact ⟨c, cs, hs, (isAlphanum_plain (by simp [Char.isAlphanum, hc])).2.2.2.2, hl⟩
  | number text =>
    obtain ⟨c, cs, hs, hc, hcs⟩ := hw
    have ht : String.ofList (c :: cs) = text := by rw [← hs, String.ofList_toList]
    have hl := lexes_number p hc hcs hr
    rw [ht] at hl
    exact ⟨c, cs, hs, (isAlphanum_plain (by simp [Char.isAlphanum, hc])).2.2.2.2, hl⟩
  | operator op =>
    refine ⟨op, [], rfl, ?_, lexes_operator p hw⟩
    obtain rfl | rfl | rfl : op = '=' ∨ op = ',' ∨ op = ':' := by simpa [Word.Valid, validTokenOperators] using hw
    all_goals decide
  | quoted text =>
    refine ⟨'"', Word.escape text.toList ++ ['"'], rfl, by decide, ?_⟩
    have hl := lexes_quoted rest p hw
    rwa [List.append_assoc]
  | braceOpen => exact ⟨'{', [], rfl, by decide, _, _, rfl, rfl⟩
  | braceClosed => exact ⟨'}', [], rfl, by decide, _, _, rfl, rfl⟩

/-! ## Texts -/

def Token.Means (t : Token) (w : Word) : Prop := (t.type, t.text) = w.token

theorem tokenizeLoop_layout : ∀ (items : List (Word × List Gap)) (lead : List Gap) (fuel : Nat) (p : LexPos)
    (tokens : List Token), items.length < fuel → (∀ item ∈ items, item.1.Valid) →
    (∀ item ∈ items.dropLast, item.2 ≠ []) →
    ∃ toks, tokenizeLoop fuel (gapText lead ++ layout items) p tokens = .ok (tokens ++ toks) ∧
      List.Forall₂ Token.Means toks (items.map Prod.fst)
  | _, _, 0, _, _, hf, _, _ => absurd hf (Nat.not_lt_zero _)
  | [], lead, fuel + 1, p, tokens, _, _, _ => by
    obtain ⟨q, hq⟩ := skipIgnorable_gaps [] lead p
    refine ⟨[], ?_, .nil⟩
    rw [tokenizeLoop, layout, hq, List.append_nil]
    rfl
  | (w, gaps) :: items, lead, fuel + 1, p, tokens, hf, hv, hs => by
    obtain ⟨q, hq⟩ := skipIgnorable_gaps (layout ((w, gaps) :: items)) lead p
    have hparted : Parted (gapText gaps ++ layout items) ∧ ∀ item ∈ items.dropLast, item.2 ≠ [] := by
      cases items with
      | nil => exact ⟨parted_end gaps, by simp⟩
      | cons item items =>
        rw [List.dropLast_cons_cons, List.forall_mem_cons] at hs
        exact ⟨parted_gaps hs.1, hs.2⟩
    obtain ⟨hr, hs'⟩ := hparted
    obtain ⟨c, cs, hc, hstart, t, q', ht, hw⟩ := lexes_word (hv _ (List.mem_cons_self ..)) hr q
    obtain ⟨toks, htoks, hmap⟩ := tokenizeLoop_layout items gaps fuel q' (tokens ++ [t])
      (Nat.lt_of_succ_lt_succ hf) (fun item hi => hv item (List.mem_cons_of_mem _ hi)) hs'
    refine ⟨t :: toks, ?_, .cons hw hmap⟩
    rw [tokenizeLoop, hq, layout, hc, List.cons_append, skipIgnorable_word hstart]
    simp only [ht, htoks, List.append_assoc, List.singleton_append]

theorem layout_length {items : List (Word × List Gap)} (hv : ∀ item ∈ items, item.1.Valid) :
    items.length ≤ (layout items).length := by
  induction items with
  | nil => exact Nat.le_refl _
  | cons item items ih =>
    obtain ⟨w, gaps⟩ := item
    rw [List.forall_mem_cons] at hv
    have hend : Parted [] := fun c hc => by cases hc
    obtain ⟨c, cs, hc, -⟩ := lexes_word hv.1 hend ⟨1, 1⟩
    have := ih hv.2
    rw [layout, hc]
    simp only [List.length_cons, List.length_append]
    omega

theorem tokenize_text {ws : List Word} {text : List Char} (h : IsText ws text) (hv : ∀ w ∈ ws, w.Valid) :
    ∃ toks, tokenize text = .ok toks ∧ List.Forall₂ Token.Means toks ws := by
  obtain ⟨lead, items, rfl, rfl, hs⟩ := h
  have hv' : ∀ item ∈ items, item.1.Valid := fun item hi => hv _ (List.mem_map_of_mem hi)
  have hlen : items.length < (gapText lead ++ layout items).length + 1 := by
    have := layout_length hv'
    rw [List.length_append]
    omega
  obtain ⟨toks, ht, hm⟩ := tokenizeLoop_layout items lead _ ⟨1, 1⟩ [] hlen hv' hs
  exact ⟨toks, ht, hm⟩

end Loadshear
