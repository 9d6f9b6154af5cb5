import Mathlib.Data.List.TakeWhile
import Loadshear.Parser

/-!
# Numbers and times

Which texts `try_convert_int` and `try_parse_time` take for which value
(`tryConvertInt_iff`, `tryParseTime_iff`): `std::stoi` is content with a number at
the start of the text, and the product with 1000 has 32 bits. So they take more
than literals (`literals_iff`).
-/

namespace Loadshear

def Digits (cs : List Char) : Prop := ∀ c ∈ cs, c.isDigit

theorem ne_of_isDigit {c d : Char} (hc : c.isDigit) (hd : d.isDigit = false) : c ≠ d := by
  rintro rfl
  rw [hc] at hd
  cases hd

theorem isSpace_of_isDigit {c : Char} (hc : c.isDigit) : isSpace c = false := by
  have hother : ∀ d : Char, d.isDigit = false → c ≠ d := fun d hd => ne_of_isDigit hc hd
  simp [isSpace, hother ' ' (by decide), hother '\t' (by decide), hother '\n' (by decide),
    hother '\x0b' (by decide), hother '\x0c' (by decide), hother '\r' (by decide)]

/-! ## `std::stoi` -/

structure Splits (text blanks sign digits rest : List Char) : Prop where
  whole : text = blanks ++ (sign ++ (digits ++ rest))
  blank : ∀ c ∈ blanks, isSpace c
  signed : sign = [] ∨ sign = ['-'] ∨ sign = ['+']
  all : Digits digits
  any : digits ≠ []
  stops : ∀ c ∈ rest.head?, c.isDigit = false

section
variable {text blanks sign digits rest : List Char}

theorem Splits.stoi (h : Splits text blanks sign digits rest) : stoi text =
    let value : Int := if sign = ['-'] then -(digitsValue digits : Int) else digitsValue digits
    if -2 ^ 31 ≤ value ∧ value < 2 ^ 31 then some value else none := by
  obtain ⟨rfl, hblanks, hsign, hdigits, hsome, hrest⟩ := h
  have htake : (digits ++ rest).takeWhile Char.isDigit = digits := by
    rw [List.takeWhile_append_of_pos hdigits]
    cases rest with
    | nil => simp
    | cons c rest => simp [hrest c rfl]
  obtain ⟨c, hc, hhead⟩ : ∃ c, c.isDigit ∧ (digits ++ rest).head? = some c := by
    obtain ⟨c, cs, rfl⟩ := List.exists_cons_of_ne_nil hsome
    exact ⟨c, hdigits c (List.mem_cons_self ..), rfl⟩
  obtain ⟨cs, hcs⟩ := List.head?_eq_some_iff.mp hhead
  have hminus : c ≠ '-' := ne_of_isDigit hc (by decide)
  have hplus : c ≠ '+' := ne_of_isDigit hc (by decide)
  -- what is left behind the blanks, and whether it has a sign
  have hbody : (sign ++ (digits ++ rest)).dropWhile isSpace = sign ++ (digits ++ rest) ∧
      ((sign ++ (digits ++ rest)).head? = some '-' ↔ sign = ['-']) ∧
      (if (sign ++ (digits ++ rest)).head? = some '-' ∨ (sign ++ (digits ++ rest)).head? = some '+' then
        (sign ++ (digits ++ rest)).drop 1 else sign ++ (digits ++ rest)) = digits ++ rest := by
    rcases hsign with rfl | rfl | rfl
    · simp [hcs, isSpace_of_isDigit hc, hminus, hplus]
    · simp [isSpace]
    · simp [isSpace]
  obtain ⟨hdrop, hneg, hunsigned⟩ := hbody
  unfold Loadshear.stoi
  rw [List.dropWhile_append_of_pos hblanks, hdrop]
  simp only [hunsigned, htake, hsome, if_false]
  simp only [hneg]

/-- A text that `std::stoi` does not throw on has the parts. -/
theorem exists_splits {v : Int} (h : stoi text = some v) :
    ∃ blanks sign digits rest, Splits text blanks sign digits rest := by
  unfold stoi at h
  simp only at h
  generalize hbody : text.dropWhile isSpace = body at h
  generalize htail : (if body.head? = some '-' ∨ body.head? = some '+' then body.drop 1 else body) = tail at h
  have hsome : tail.takeWhile Char.isDigit ≠ [] := fun hn => by simp [hn] at h
  have hsign : ∃ sign, body = sign ++ tail ∧ (sign = [] ∨ sign = ['-'] ∨ sign = ['+']) := by
    by_cases hs : body.head? = some '-' ∨ body.head? = some '+'
    · rw [if_pos hs] at htail
      rcases hs with hs | hs
      all_goals
        obtain ⟨cs, rfl⟩ := List.head?_eq_some_iff.mp hs
        obtain rfl : cs = tail := htail
      · exact ⟨['-'], rfl, .inr (.inl rfl)⟩
      · exact ⟨['+'], rfl, .inr (.inr rfl)⟩
    · rw [if_neg hs] at htail
      exact ⟨[], htail, .inl rfl⟩
  obtain ⟨sign, hsplit, hsigned⟩ := hsign
  refine ⟨text.takeWhile isSpace, sign, tail.takeWhile Char.isDigit, tail.dropWhile Char.isDigit,
    ?_, ?_, hsigned, ?_, hsome, ?_⟩
  · rw [List.takeWhile_append_dropWhile, ← hsplit, ← hbody, List.takeWhile_append_dropWhile]
  · exact fun c hc => List.mem_takeWhile_imp hc
  · exact fun c hc => List.mem_takeWhile_imp hc
  · intro c hc
    have := List.head?_dropWhile_not Char.isDigit tail
    simp_all

/-- The text begins as a number below 2^31 that is not negative. -/
def Begins (text : List Char) (n : Nat) : Prop :=
  ∃ blanks sign digits rest, Splits text blanks sign digits rest ∧ digitsValue digits = n ∧
    (sign = ['-'] → n = 0) ∧ n < 2 ^ 31

theorem stoi_iff {n : Nat} : stoi text = some (n : Int) ↔ Begins text n := by
  constructor
  · intro h
    obtain ⟨blanks, sign, digits, rest, hs⟩ := exists_splits h
    rw [hs.stoi] at h
    simp only [Option.ite_none_right_eq_some, Option.some.injEq] at h
    obtain ⟨hrange, hv⟩ := h
    refine ⟨blanks, sign, digits, rest, hs, ?_⟩
    by_cases hsign : sign = ['-']
    · simp only [hsign, if_true] at hrange hv
      exact ⟨by omega, fun _ => by omega, by omega⟩
    · simp only [hsign, if_false] at hrange hv
      exact ⟨by omega, fun h => absurd h hsign, by omega⟩
  · intro ⟨blanks, sign, digits, rest, hs, hv, hzero, hlt⟩
    rw [hs.stoi, hv]
    by_cases hsign : sign = ['-']
    · simp [hsign, hzero hsign]
    · simp only [hsign, if_false]
      rw [if_pos (by omega)]

/-- What stands behind the digits is ignored. -/
theorem begins_append {c : Char} {n : Nat} (hd : c.isDigit = false) :
    Begins (text ++ [c]) n ↔ Begins text n := by
  constructor
  · intro ⟨blanks, sign, digits, rest, hs, hn⟩
    rcases List.eq_nil_or_concat rest with rfl | ⟨rest, d, rfl⟩
    · obtain ⟨ds, d, rfl⟩ := (List.eq_nil_or_concat digits).resolve_left hs.any
      have hwhole := hs.whole
      have hlast : c = d := by
        have := congrArg List.getLast? hwhole
        simpa using this
      have hdigit := hs.all d (by simp)
      rw [← hlast, hd] at hdigit
      cases hdigit
    · have hwhole := hs.whole
      rw [List.concat_eq_append, ← List.append_assoc, ← List.append_assoc, ← List.append_assoc] at hwhole
      obtain ⟨rfl, hc⟩ := List.append_inj' hwhole rfl
      refine ⟨blanks, sign, digits, rest, ⟨by simp, hs.blank, hs.signed, hs.all, hs.any, fun e he => ?_⟩, hn⟩
      apply hs.stops e
      cases rest with
      | nil => cases he
      | cons a rest => simpa using he
  · intro ⟨blanks, sign, digits, rest, hs, hn⟩
    have hwhole : text ++ [c] = blanks ++ (sign ++ (digits ++ (rest ++ [c]))) := by
      rw [hs.whole]
      simp
    refine ⟨blanks, sign, digits, rest ++ [c], ⟨hwhole, hs.blank, hs.signed, hs.all, hs.any, ?_⟩, hn⟩
    intro e he
    cases rest with
    | nil =>
      obtain rfl : c = e := by simpa using he
      exact hd
    | cons a rest => exact hs.stops e (by simpa using he)

/-! ## Literals -/

def Decimal (text : List Char) : Prop := text ≠ [] ∧ Digits text

theorem Decimal.begins (h : Decimal text) {n : Nat} : Begins text n ↔ digitsValue text = n ∧ n < 2 ^ 31 := by
  have hs : Splits text [] [] text [] := ⟨by simp, by simp, .inl rfl, h.2, h.1, by simp⟩
  constructor
  · intro hb
    have hv := stoi_iff.mpr hb
    rw [hs.stoi] at hv
    simp only [List.nil_eq, reduceCtorEq, if_false, Option.ite_none_right_eq_some, Option.some.injEq] at hv
    omega
  · intro ⟨hv, hlt⟩
    exact ⟨[], [], text, [], hs, hv, by simp, hlt⟩

end

section
variable {t : Token} {keyword : String} {n : UInt32}

theorem convert_iff {body : List Char} {bad negative : String} {f : Nat → UInt32} :
    (match stoi body with
      | none => .error bad
      | some pos => if pos < 0 then .error negative else .ok (f pos.toNat)) = (.ok n : ParseResult UInt32) ↔
        ∃ k, Begins body k ∧ f k = n := by
  cases h : stoi body with
  | none =>
    simp only [reduceCtorEq, false_iff, not_exists, not_and]
    intro k hk
    rw [stoi_iff.mpr hk] at h
    cases h
  | some pos =>
    by_cases hneg : pos < 0
    · simp only [hneg, if_true, reduceCtorEq, false_iff, not_exists, not_and]
      intro k hk
      rw [stoi_iff.mpr hk, Option.some.injEq] at h
      omega
    · have hb : Begins body pos.toNat := stoi_iff.mp (by rw [h, Int.toNat_of_nonneg (by omega)])
      simp only [hneg, if_false, Except.ok.injEq]
      constructor
      · exact fun hf => ⟨_, hb, hf⟩
      · intro ⟨k, hk, hf⟩
        rw [stoi_iff.mpr hk, Option.some.injEq] at h
        rw [← h, Int.toNat_natCast]
        exact hf

theorem Begins.lt {text : List Char} {k : Nat} (h : Begins text k) : k < 2 ^ 31 := by
  obtain ⟨_, _, _, _, _, _, _, h⟩ := h
  exact h

theorem Begins.toNat {text : List Char} {k : Nat} (h : Begins text k) : (UInt32.ofNat k).toNat = k := by
  have hlt := h.lt
  have hsize : k < 2 ^ 32 := by omega
  exact UInt32.toNat_ofNat_of_lt' hsize

theorem tryConvertInt_iff : tryConvertInt t keyword = .ok n ↔ Begins t.text.toList n.toNat := by
  unfold tryConvertInt
  apply Iff.trans (@convert_iff n _ _ _ UInt32.ofNat)
  constructor
  · rintro ⟨k, hk, rfl⟩
    rwa [hk.toNat]
  · exact fun h => ⟨_, h, UInt32.ofNat_toNat⟩

theorem endsWith_iff {suffix : String} {text : String} :
    endsWith text suffix ↔ ∃ body, text.toList = body ++ suffix.toList := by
  unfold endsWith
  rw [List.isSuffixOf_iff_suffix]
  exact ⟨fun ⟨b, h⟩ => ⟨b, h.symm⟩, fun ⟨b, h⟩ => ⟨b, h.symm⟩⟩

theorem eq_append_of_units {body body' : List Char} (h : body ++ ['m', 's'] = body' ++ ['s']) :
    body' = body ++ ['m'] := by
  rw [List.append_cons] at h
  exact (List.append_cancel_right h).symm

theorem tryParseTime_iff : tryParseTime t = .ok n ↔ ∃ body k, Begins body k ∧
    (t.text.toList = body ++ ['m', 's'] ∧ n.toNat = k ∨
      t.text.toList = body ++ ['s'] ∧ body.getLast? ≠ some 'm' ∧ n.toNat = k * 1000 % 2 ^ 32) := by
  unfold tryParseTime
  by_cases hms : endsWith t.text "ms"
  · obtain ⟨body, hbody⟩ := endsWith_iff.mp hms
    have hbody : t.text.toList = body ++ ['m', 's'] := hbody
    have hdrop : t.text.toList.dropLast = body ++ ['m'] := by rw [hbody, List.append_cons, List.dropLast_concat]
    simp only [hms, if_true, hdrop]
    apply Iff.trans (@convert_iff n _ _ _ (UInt32.ofNat · * 1))
    constructor
    · rintro ⟨k, hk, rfl⟩
      refine ⟨body, k, (begins_append (by decide)).mp hk, .inl ⟨hbody, ?_⟩⟩
      rw [UInt32.mul_one, hk.toNat]
    · rintro ⟨body', k, hk, ⟨htext, hn⟩ | ⟨htext, hlast, -⟩⟩
      · obtain rfl := List.append_cancel_right (hbody.symm.trans htext)
        refine ⟨k, (begins_append (by decide)).mpr hk, ?_⟩
        rw [UInt32.mul_one, ← UInt32.toNat_inj, hk.toNat, hn]
      · rw [eq_append_of_units (hbody.symm.trans htext)] at hlast
        simp at hlast
  · by_cases hs : endsWith t.text "s"
    · obtain ⟨body, hbody⟩ := endsWith_iff.mp hs
      have hbody : t.text.toList = body ++ ['s'] := hbody
      have hdrop : t.text.toList.dropLast = body := by rw [hbody, List.dropLast_concat]
      have hlast : body.getLast? ≠ some 'm' := by
        intro hlast
        obtain ⟨cs, rfl⟩ := List.getLast?_eq_some_iff.mp hlast
        exact hms (endsWith_iff.mpr ⟨cs, by rw [hbody]; simp⟩)
      simp only [hms, hs, if_true, Bool.false_eq_true, if_false, hdrop]
      apply Iff.trans (@convert_iff n _ _ _ (UInt32.ofNat · * 1000))
      constructor
      · rintro ⟨k, hk, rfl⟩
        refine ⟨body, k, hk, .inr ⟨hbody, hlast, ?_⟩⟩
        rw [UInt32.toNat_mul, hk.toNat]
        rfl
      · rintro ⟨body', k, hk, ⟨htext, -⟩ | ⟨htext, -, hn⟩⟩
        · exact absurd (endsWith_iff.mpr ⟨body', htext⟩) hms
        · obtain rfl := List.append_cancel_right (hbody.symm.trans htext)
          refine ⟨k, hk, ?_⟩
          rw [← UInt32.toNat_inj, UInt32.toNat_mul, hk.toNat, hn]
          rfl
    · simp only [hms, hs, Bool.false_eq_true, if_false, reduceCtorEq, false_iff]
      rintro ⟨body, k, -, ⟨htext, -⟩ | ⟨htext, -⟩⟩
      · exact hms (endsWith_iff.mpr ⟨body, htext⟩)
      · exact hs (endsWith_iff.mpr ⟨body, htext⟩)

/-! ## Exactness -/

/-- A number is stored only from a literal, as what this denotes. -/
def IntExact (t : Token) : Prop :=
  ∀ keyword n, tryConvertInt t keyword = .ok n → Decimal t.text.toList ∧ n.toNat = digitsValue t.text.toList

def TimeExact (t : Token) : Prop :=
  ∀ n, tryParseTime t = .ok n → ∃ digits, Decimal digits ∧
    (t.text.toList = digits ++ ['m', 's'] ∧ n.toNat = digitsValue digits ∨
      t.text.toList = digits ++ ['s'] ∧ n.toNat = digitsValue digits * 1000)

/-- The text is a literal, or does not even begin as a number that fits. -/
def IntClear (text : List Char) : Prop := Decimal text ∨ ∀ n, ¬ Begins text n

/-- The text is a literal with its unit, and its value in milliseconds or in
seconds does not fall between 32 bits and what `std::stoi` takes; or it has no
unit, or does not even begin as a number that fits. -/
def TimeClear (text : List Char) : Prop :=
  (∃ digits, Decimal digits ∧ (text = digits ++ ['m', 's'] ∨
    text = digits ++ ['s'] ∧ (digitsValue digits * 1000 < 2 ^ 32 ∨ 2 ^ 31 ≤ digitsValue digits))) ∨
  ∀ body n, text = body ++ ['s'] → ¬ Begins body n

theorem intExact_iff : IntExact t ↔ IntClear t.text.toList := by
  constructor
  · intro h
    by_cases hd : Decimal t.text.toList
    · exact .inl hd
    · refine .inr fun k hk => hd ?_
      have hok : tryConvertInt t "" = .ok (UInt32.ofNat k) := tryConvertInt_iff.mpr (by rwa [hk.toNat])
      exact (h "" _ hok).1
  · rintro (hd | hn) keyword n hok
    · exact ⟨hd, (hd.begins.mp (tryConvertInt_iff.mp hok)).1.symm⟩
    · exact absurd (tryConvertInt_iff.mp hok) (hn _)

theorem Decimal.getLast_ne {digits : List Char} (h : Decimal digits) : digits.getLast? ≠ some 'm' := by
  intro hlast
  have hm := h.2 'm' (List.mem_of_getLast? hlast)
  revert hm
  decide

theorem timeExact_of_clear (h : TimeClear t.text.toList) : TimeExact t := by
  intro n hok
  obtain ⟨body, k, hk, hcase⟩ := tryParseTime_iff.mp hok
  rcases h with ⟨digits, hd, htext | ⟨htext, hfits⟩⟩ | hn
  · rcases hcase with ⟨htext', hn⟩ | ⟨htext', hlast, -⟩
    · obtain rfl := List.append_cancel_right (htext.symm.trans htext')
      exact ⟨digits, hd, .inl ⟨htext, hn.trans (hd.begins.mp hk).1.symm⟩⟩
    · rw [eq_append_of_units (htext.symm.trans htext')] at hlast
      simp at hlast
  · rcases hcase with ⟨htext', -⟩ | ⟨htext', -, hn⟩
    · have hlast := hd.getLast_ne
      rw [eq_append_of_units (htext'.symm.trans htext)] at hlast
      simp at hlast
    · obtain rfl := List.append_cancel_right (htext.symm.trans htext')
      obtain ⟨hv, hlt⟩ := hd.begins.mp hk
      refine ⟨digits, hd, .inr ⟨htext, ?_⟩⟩
      rw [hn, ← hv]
      omega
  · rcases hcase with ⟨htext, -⟩ | ⟨htext, -⟩
    · rw [List.append_cons] at htext
      exact absurd ((begins_append (by decide)).mpr hk) (hn _ k htext)
    · exact absurd hk (hn _ k htext)

theorem clear_of_timeExact (h : TimeExact t) : TimeClear t.text.toList := by
  by_cases hb : ∃ body k, t.text.toList = body ++ ['s'] ∧ Begins body k
  · left
    obtain ⟨body, k, htext, hk⟩ := hb
    have hlt := hk.lt
    by_cases hlast : body.getLast? = some 'm'
    · obtain ⟨body, rfl⟩ := List.getLast?_eq_some_iff.mp hlast
      have hk := (begins_append (by decide)).mp hk
      have htext : t.text.toList = body ++ ['m', 's'] := by rw [htext]; simp
      have hok : tryParseTime t = .ok (UInt32.ofNat k) := tryParseTime_iff.mpr ⟨body, k, hk, .inl ⟨htext, hk.toNat⟩⟩
      obtain ⟨digits, hd, ⟨htext', -⟩ | ⟨htext', -⟩⟩ := h _ hok
      · exact ⟨digits, hd, .inl htext'⟩
      · have hlast := hd.getLast_ne
        rw [eq_append_of_units (htext.symm.trans htext')] at hlast
        simp at hlast
    · have hmod : (UInt32.ofNat (k * 1000)).toNat = k * 1000 % 2 ^ 32 := UInt32.toNat_ofNat'
      have hok : tryParseTime t = .ok (UInt32.ofNat (k * 1000)) :=
        tryParseTime_iff.mpr ⟨body, k, hk, .inr ⟨htext, hlast, hmod⟩⟩
      obtain ⟨digits, hd, ⟨htext', -⟩ | ⟨htext', hn⟩⟩ := h _ hok
      · rw [eq_append_of_units (htext'.symm.trans htext)] at hlast
        simp at hlast
      · refine ⟨digits, hd, .inr ⟨htext', ?_⟩⟩
        rw [hmod] at hn
        omega
  · exact .inr fun body k htext hk => hb ⟨body, k, htext, hk⟩

/-- Both functions are exact on the texts that are clear, and on no others. -/
theorem literals_iff (t : Token) :
    (IntExact t ↔ IntClear t.text.toList) ∧ (TimeExact t ↔ TimeClear t.text.toList) :=
  ⟨intExact_iff, clear_of_timeExact, timeExact_of_clear⟩

/-- The "x" is ignored, so is the fraction of the second, and 4294968000 has more
than 32 bits. -/
theorem literals_misread :
    tokenize "10x 1.5s 4294968s".toList =
      .ok [⟨.Value, "10x", 1, 1⟩, ⟨.Value, "1.5s", 1, 5⟩, ⟨.Value, "4294968s", 1, 10⟩] ∧
    tryConvertInt ⟨.Value, "10x", 1, 1⟩ "COPIES" = .ok 10 ∧ ¬ IntExact ⟨.Value, "10x", 1, 1⟩ ∧
    tryParseTime ⟨.Value, "1.5s", 1, 5⟩ = .ok 1000 ∧ ¬ TimeExact ⟨.Value, "1.5s", 1, 5⟩ ∧
    tryParseTime ⟨.Value, "4294968s", 1, 10⟩ = .ok 704 ∧ ¬ TimeExact ⟨.Value, "4294968s", 1, 10⟩ := by
  have hten : tryConvertInt ⟨.Value, "10x", 1, 1⟩ "COPIES" = .ok 10 := by decide +kernel
  have hhalf : tryParseTime ⟨.Value, "1.5s", 1, 5⟩ = .ok 1000 := by decide +kernel
  have hlong : tryParseTime ⟨.Value, "4294968s", 1, 10⟩ = .ok 704 := by decide +kernel
  refine ⟨by decide +kernel, hten, ?_, hhalf, ?_, hlong, ?_⟩
  · intro h
    have hx : ('x').isDigit := (h _ _ hten).1.2 'x' (by decide)
    revert hx
    decide
  · intro h
    obtain ⟨digits, hd, ⟨htext, -⟩ | ⟨htext, -⟩⟩ := h _ hhalf
    all_goals
      have hdot : '.' ∈ digits := by
        have hmem : '.' ∈ "1.5s".toList := by decide
        rw [htext] at hmem
        simpa using hmem
      have hdigit := hd.2 '.' hdot
      revert hdigit
      decide
  · intro h
    obtain ⟨digits, hd, ⟨htext, -⟩ | ⟨htext, hn⟩⟩ := h _ hlong
    · have hunits := eq_append_of_units (htext.symm.trans (show "4294968s".toList = "4294968".toList ++ ['s'] by decide))
      have hm : 'm' ∈ "4294968".toList := by
        rw [hunits]
        simp
      revert hm
      decide
    · have hvalue : digitsValue digits * 1000 = 704 := hn.symm
      omega

end

end Loadshear
