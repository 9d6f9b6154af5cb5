import Loadshear.Languages

/-!
# What a parser accepts

Rules for parsers that read a list of words from a position, in both directions
at once. `Parses n p D V`: wherever fewer than `n` words are left, `p` succeeds
exactly on the words `w` that `D` derives before `rest`, and what it returns is
what `V` says of the derivation. A loop takes its bound from its fuel.
-/

namespace Parsing

variable {τ ε σ σ' α β : Type}

/-- A parser with its words, its position and its errors. -/
abbrev P (τ ε α : Type) := ReaderT (List τ) (StateT Nat (Except ε)) α

structure Parses (n : Nat) (p : P τ ε α) (D : σ → List τ → List τ → Prop) (V : σ → α → Prop) : Prop where
  sound : ∀ {toks pos}, pos ≤ toks.length → toks.length - pos < n → ∀ {a q}, p toks pos = .ok (a, q) →
    ∃ s w rest, toks.drop pos = w ++ rest ∧ q = pos + w.length ∧ D s w rest ∧ V s a
  complete : ∀ {toks pos}, pos ≤ toks.length → toks.length - pos < n → ∀ {s w rest},
    toks.drop pos = w ++ rest → D s w rest → ∃ a, p toks pos = .ok (a, pos + w.length) ∧ V s a

/-! ## Positions -/

theorem drop_add {toks w rest : List τ} {pos : Nat} (h : toks.drop pos = w ++ rest) :
    toks.drop (pos + w.length) = rest := by
  rw [← List.drop_drop, h, List.drop_left]

theorem length_of_drop {toks w rest : List τ} {pos : Nat} (hp : pos ≤ toks.length)
    (h : toks.drop pos = w ++ rest) : pos + w.length ≤ toks.length := by
  have hl := congrArg List.length h
  rw [List.length_drop, List.length_append] at hl
  omega

/-- The first word is one of `A`. -/
def Leads (A : τ → Prop) (ts : List τ) : Prop := ∃ t rest, ts = t :: rest ∧ A t

theorem not_leads_nil {A : τ → Prop} : ¬ Leads A [] := by
  rintro ⟨_, _, h, _⟩
  cases h

@[simp] theorem leads_cons {A : τ → Prop} {t : τ} {ts : List τ} : Leads A (t :: ts) ↔ A t := by
  constructor
  · rintro ⟨_, _, h, ha⟩
    cases h
    exact ha
  · exact fun h => ⟨t, ts, rfl, h⟩

/-- Behind a word, the rest does not matter. -/
theorem leads_append {A : τ → Prop} {v rest : List τ} {t : τ} : Leads A (v ++ t :: rest) ↔ Leads A (v ++ [t]) := by
  cases v with
  | nil => rw [List.nil_append, List.nil_append, leads_cons, leads_cons]
  | cons u v => rw [List.cons_append, List.cons_append, leads_cons, leads_cons]

/-! ## Steps -/

section
variable {n m : Nat} {p : P τ ε α} {D : σ → List τ → List τ → Prop} {V : σ → α → Prop}

theorem bind_ok {x : P τ ε β} {f : β → P τ ε α} {toks : List τ} {pos : Nat} {r : α × Nat} :
    (x >>= f) toks pos = .ok r ↔ ∃ b q, x toks pos = .ok (b, q) ∧ f b toks q = .ok r := by
  change (x toks pos >>= fun a => f a.1 toks a.2) = .ok r ↔ _
  cases x toks pos with
  | error e => exact ⟨fun h => (by cases h), fun ⟨_, _, h, _⟩ => (by cases h)⟩
  | ok a =>
    constructor
    · exact fun h => ⟨a.1, a.2, rfl, h⟩
    · intro ⟨b, q, h, hf⟩
      cases h
      exact hf

/-- Derivations under other names. -/
theorem Parses.reindex {D' : σ' → List τ → List τ → Prop} {V' : σ' → α → Prop} (h : Parses n p D V)
    (hto : ∀ s w rest, D s w rest → ∃ s', D' s' w rest ∧ ∀ a, V s a → V' s' a)
    (hfrom : ∀ s' w rest, D' s' w rest → ∃ s, D s w rest ∧ ∀ a, V s a → V' s' a) : Parses n p D' V' where
  sound hp hl a q hr := by
    obtain ⟨s, w, rest, hd, hq, hs, ha⟩ := h.sound hp hl hr
    obtain ⟨s', hs', hv⟩ := hto s w rest hs
    exact ⟨s', w, rest, hd, hq, hs', hv a ha⟩
  complete hp hl s' w rest hd hs' := by
    obtain ⟨s, hs, hv⟩ := hfrom s' w rest hs'
    obtain ⟨a, hr, ha⟩ := h.complete hp hl hd hs
    exact ⟨a, hr, hv a ha⟩

theorem Parses.congr {D' : σ → List τ → List τ → Prop} (h : Parses n p D V)
    (hd : ∀ s w rest, D s w rest ↔ D' s w rest) : Parses n p D' V :=
  h.reindex (fun s w rest hs => ⟨s, (hd s w rest).mp hs, fun _ ha => ha⟩)
    fun s w rest hs => ⟨s, (hd s w rest).mpr hs, fun _ ha => ha⟩

theorem Parses.pure {a : α} {s : σ} (hs : V s a) :
    Parses n (Pure.pure a : P τ ε α) (fun s' w _ => s' = s ∧ w = []) V where
  sound _ _ _ _ hr := by
    cases hr
    exact ⟨s, [], _, rfl, rfl, ⟨rfl, rfl⟩, hs⟩
  complete _ _ _ _ _ _ h := by
    obtain ⟨rfl, rfl⟩ := h
    exact ⟨a, rfl, hs⟩

/-- The derivation is what is returned. -/
theorem Parses.returns (a : α) : Parses n (Pure.pure a : P τ ε α) (fun s w _ => s = a ∧ w = []) (fun s b => b = s) :=
  Parses.pure rfl

theorem Parses.fail (h : ∀ toks pos r, p toks pos ≠ .ok r) : Parses n p (fun _ _ _ => False) V where
  sound _ _ _ _ hr := absurd hr (h _ _ _)
  complete _ _ _ _ _ _ hs := hs.elim

theorem Parses.choose {c : Prop} [Decidable c] {p' : P τ ε α} {D' : σ → List τ → List τ → Prop}
    (h : c → Parses n p D V) (h' : ¬ c → Parses n p' D' V) :
    Parses n (if c then p else p') (fun s w rest => c ∧ D s w rest ∨ ¬ c ∧ D' s w rest) V := by
  by_cases hc : c
  · rw [if_pos hc]
    apply (h hc).congr
    intro s w rest
    exact ⟨fun hs => Or.inl ⟨hc, hs⟩, fun hs => hs.elim (·.2) fun hs => absurd hc hs.1⟩
  · rw [if_neg hc]
    apply (h' hc).congr
    intro s w rest
    exact ⟨fun hs => Or.inr ⟨hc, hs⟩, fun hs => hs.elim (fun hs => absurd hs.1 hc) (·.2)⟩

theorem Parses.guard {c : Prop} [Decidable c] {y : P τ ε α} (h : c → Parses n p D V)
    (hy : ∀ toks pos r, y toks pos ≠ .ok r) : Parses n (if c then p else y) (fun s w rest => c ∧ D s w rest) V :=
  (Parses.choose h fun _ => Parses.fail hy).congr fun _ _ _ =>
    ⟨fun hs => hs.elim id fun hs => hs.2.elim, Or.inl⟩

/-- The second parser starts behind what the first one took, and sees fewer words
when that was not nothing. -/
theorem Parses.bind_of {x : P τ ε β} {f : β → P τ ε α} {D₁ : σ' → List τ → List τ → Prop} {V₁ : σ' → β → Prop}
    {D : σ' → σ → List τ → List τ → Prop} (hx : Parses n x D₁ V₁)
    (hm : ∀ s w rest, D₁ s w rest → n ≤ m + w.length) (hf : ∀ s b, V₁ s b → Parses m (f b) (D s) V) :
    Parses n (x >>= f) (fun s w rest => ∃ s₁ u v, w = u ++ v ∧ D₁ s₁ u (v ++ rest) ∧ D s₁ s v rest) V where
  sound hp hl a q hr := by
    obtain ⟨b, p', hb, hr'⟩ := bind_ok.mp hr
    obtain ⟨s₁, u, rest₁, hd₁, rfl, hs₁, hv₁⟩ := hx.sound hp hl hb
    have hu := length_of_drop hp hd₁
    have hn := hm s₁ u rest₁ hs₁
    obtain ⟨s, v, rest, hd, hq, hs, hv⟩ := (hf s₁ b hv₁).sound hu (by omega) hr'
    rw [drop_add hd₁] at hd
    subst hd
    refine ⟨s, u ++ v, rest, by rw [hd₁, List.append_assoc], ?_, ⟨s₁, u, v, rfl, hs₁, hs⟩, hv⟩
    rw [hq, List.length_append, Nat.add_assoc]
  complete hp hl s w rest hd hs := by
    obtain ⟨s₁, u, v, rfl, hs₁, hs⟩ := hs
    rw [List.append_assoc] at hd
    obtain ⟨b, hb, hv₁⟩ := hx.complete hp hl hd hs₁
    have hu := length_of_drop hp hd
    have hn := hm s₁ u _ hs₁
    obtain ⟨a, ha, hv⟩ := (hf s₁ b hv₁).complete hu (by omega) (drop_add hd) hs
    refine ⟨a, bind_ok.mpr ⟨b, _, hb, ?_⟩, hv⟩
    rw [ha, List.length_append, Nat.add_assoc]

theorem Parses.bind {x : P τ ε β} {f : β → P τ ε α} {D₁ : σ' → List τ → List τ → Prop} {V₁ : σ' → β → Prop}
    {D : σ' → σ → List τ → List τ → Prop} (hx : Parses n x D₁ V₁)
    (hf : ∀ s b, V₁ s b → Parses n (f b) (D s) V) :
    Parses n (x >>= f) (fun s w rest => ∃ s₁ u v, w = u ++ v ∧ D₁ s₁ u (v ++ rest) ∧ D s₁ s v rest) V :=
  hx.bind_of (fun _ _ _ _ => Nat.le_add_right _ _) hf

theorem Parses.bind_eq {x : P τ ε β} {f : β → P τ ε α} {D₁ : β → List τ → List τ → Prop}
    {D : β → σ → List τ → List τ → Prop} (hx : Parses n x D₁ fun s b => b = s) (hf : ∀ b, Parses n (f b) (D b) V) :
    Parses n (x >>= f) (fun s w rest => ∃ b u v, w = u ++ v ∧ D₁ b u (v ++ rest) ∧ D b s v rest) V :=
  hx.bind fun b _ hb => hb ▸ hf b

/-- Where the parser stands says nothing about the words. -/
theorem Parses.position {k : Nat → P τ ε α} (hk : ∀ p, Parses n (k p) D V) :
    Parses n ((getThe Nat : P τ ε Nat) >>= k) D V where
  sound {_ pos} hp hl _ _ hr := (hk pos).sound hp hl hr
  complete {_ pos} hp hl _ _ _ hd hs := (hk pos).complete hp hl hd hs

/-- `test` answers whether the words left are in `A`. -/
def Tests (test : P τ ε Bool) (A : List τ → Prop) : Prop :=
  ∀ toks pos, ∃ b, test toks pos = .ok (b, pos) ∧ (b = true ↔ A (toks.drop pos))

theorem Tests.ite {test : P τ ε Bool} {A : List τ → Prop} (ht : Tests test A) (x y : P τ ε α) (toks : List τ)
    (pos : Nat) : (A (toks.drop pos) → (test >>= fun b => if b = true then x else y) toks pos = x toks pos) ∧
      (¬ A (toks.drop pos) → (test >>= fun b => if b = true then x else y) toks pos = y toks pos) := by
  obtain ⟨b, hb, hA⟩ := ht toks pos
  have hrun : (test >>= fun b => if b = true then x else y) toks pos = (if b = true then x else y) toks pos := by
    change (test toks pos >>= fun a => (if a.1 = true then x else y) toks a.2) = _
    rw [hb]
    rfl
  rw [hrun, ← hA]
  constructor
  · intro h
    rw [if_pos h]
  · intro h
    rw [if_neg h]

theorem Parses.ite {test : P τ ε Bool} {A : List τ → Prop} {x y : P τ ε α} {D' : σ → List τ → List τ → Prop}
    (ht : Tests test A) (hx : Parses n x D V) (hy : Parses n y D' V) :
    Parses n (test >>= fun b => if b = true then x else y)
      (fun s w rest => A (w ++ rest) ∧ D s w rest ∨ ¬ A (w ++ rest) ∧ D' s w rest) V where
  sound {toks pos} hp hl a q hr := by
    by_cases hA : A (toks.drop pos)
    · rw [(ht.ite x y toks pos).1 hA] at hr
      obtain ⟨s, w, rest, hd, hq, hs, hv⟩ := hx.sound hp hl hr
      exact ⟨s, w, rest, hd, hq, Or.inl ⟨hd ▸ hA, hs⟩, hv⟩
    · rw [(ht.ite x y toks pos).2 hA] at hr
      obtain ⟨s, w, rest, hd, hq, hs, hv⟩ := hy.sound hp hl hr
      exact ⟨s, w, rest, hd, hq, Or.inr ⟨hd ▸ hA, hs⟩, hv⟩
  complete {toks pos} hp hl s w rest hd hs := by
    rcases hs with ⟨hA, hs⟩ | ⟨hA, hs⟩
    · rw [(ht.ite x y toks pos).1 (hd ▸ hA)]
      exact hx.complete hp hl hd hs
    · rw [(ht.ite x y toks pos).2 (hd ▸ hA)]
      exact hy.complete hp hl hd hs

/-- `skip` takes the next word, where there is one. -/
def Skips (skip : P τ ε τ) : Prop :=
  ∀ toks pos t rest, toks.drop pos = t :: rest → skip toks pos = .ok (t, pos + 1)

/-- A word of `A` is taken, and sets the bound down by one. -/
theorem Parses.ite_skip {test : P τ ε Bool} {skip : P τ ε τ} {A : τ → Prop} {k : τ → P τ ε α} {y : P τ ε α}
    {D : τ → σ → List τ → List τ → Prop} {D' : σ → List τ → List τ → Prop} (ht : Tests test (Leads A))
    (hskip : Skips skip) (hn : n ≤ m + 1) (hk : ∀ t, A t → Parses m (k t) (D t) V) (hy : Parses n y D' V) :
    Parses n (test >>= fun b => if b = true then skip >>= k else y)
      (fun s w rest => (∃ t v, w = t :: v ∧ A t ∧ D t s v rest) ∨ ¬ Leads A (w ++ rest) ∧ D' s w rest) V where
  sound {toks pos} hp hl a q hr := by
    by_cases hA : Leads A (toks.drop pos)
    · rw [(ht.ite _ y toks pos).1 hA] at hr
      obtain ⟨t, rest₁, hd₁, hAt⟩ := hA
      obtain ⟨t', p', hb, hr'⟩ := bind_ok.mp hr
      rw [hskip toks pos t rest₁ hd₁] at hb
      cases hb
      have hu := length_of_drop (w := [t]) hp hd₁
      obtain ⟨s, v, rest, hd, hq, hs, hv⟩ := (hk t hAt).sound hu (by simp only [List.length_singleton] at hu ⊢; omega) hr'
      have hdrop := drop_add (w := [t]) hd₁
      rw [hd] at hdrop
      refine ⟨s, t :: v, rest, by rw [hd₁, ← hdrop]; rfl, ?_, Or.inl ⟨t, v, rfl, hAt, hs⟩, hv⟩
      simp only [hq, List.length_cons, List.length_nil]
      omega
    · rw [(ht.ite _ y toks pos).2 hA] at hr
      obtain ⟨s, w, rest, hd, hq, hs, hv⟩ := hy.sound hp hl hr
      exact ⟨s, w, rest, hd, hq, Or.inr ⟨hd ▸ hA, hs⟩, hv⟩
  complete {toks pos} hp hl s w rest hd hs := by
    rcases hs with ⟨t, v, rfl, hAt, hs⟩ | ⟨hA, hs⟩
    · rw [(ht.ite _ y toks pos).1 (hd ▸ leads_cons.mpr hAt)]
      have hu := length_of_drop (w := [t]) hp hd
      obtain ⟨a, ha, hv⟩ := (hk t hAt).complete hu (by simp only [List.length_singleton] at hu ⊢; omega)
        (drop_add (w := [t]) hd) hs
      refine ⟨a, bind_ok.mpr ⟨t, _, hskip toks pos t _ hd, ?_⟩, hv⟩
      rw [List.length_singleton] at ha
      rw [ha, List.length_cons]
      congr 2
      omega
    · rw [(ht.ite _ y toks pos).2 (hd ▸ hA)]
      exact hy.complete hp hl hd hs

end

/-- A parser that looks at no more than it takes has no word before another. -/
theorem Parses.prefix_eq {p : P τ ε α} {D : σ → List τ → List τ → Prop} {V : σ → α → Prop} (h : ∀ n, Parses n p D V)
    {s s' : σ} {u v x y : List τ} (hu : D s u x) (hv : D s' v y) (he : u ++ x = v ++ y) : u = v := by
  have hd : (u ++ x).drop 0 = u ++ x := rfl
  have hn := Nat.lt_succ_self (u ++ x).length
  obtain ⟨a, ha, -⟩ := (h _).complete (Nat.zero_le _) hn hd hu
  obtain ⟨b, hb, -⟩ := (h _).complete (Nat.zero_le _) hn (hd.trans he) hv
  rw [ha] at hb
  simp only [Except.ok.injEq, Prod.mk.injEq, Nat.zero_add] at hb
  exact List.append_inj_left he hb.2

/-! ## Loops -/

/-- Derivations one behind the other, up to where `Stop` holds. -/
def Many (D : σ → List τ → List τ → Prop) (Stop : List τ → Prop) : List σ → List τ → List τ → Prop
  | [], w, rest => w = [] ∧ Stop rest
  | s :: ss, w, rest => ∃ u v, w = u ++ v ∧ D s u (v ++ rest) ∧ Many D Stop ss v rest

/-- The value that the derivations make of `a`, one after the other. -/
def Folds (V : α → σ → α → Prop) : α → List σ → α → Prop
  | a, [], b => b = a
  | a, s :: ss, b => ∃ c, V a s c ∧ Folds V c ss b

theorem folds_eq {f : α → σ → α} {ss : List σ} {a b : α} :
    Folds (fun a s b => b = f a s) a ss b ↔ b = ss.foldl f a := by
  induction ss generalizing a with
  | nil => exact Iff.rfl
  | cons s ss ih =>
    constructor
    · rintro ⟨_, rfl, h⟩
      exact ih.mp h
    · exact fun h => ⟨_, rfl, ih.mpr h⟩

section
variable {walk : Nat → α → P τ ε α} {D : σ → List τ → List τ → Prop} {V : α → σ → α → Prop}

theorem Parses.none {p : P τ ε β} {D : σ → List τ → List τ → Prop} {V : σ → β → Prop} : Parses 0 p D V :=
  ⟨fun _ hl => absurd hl (Nat.not_lt_zero _), fun _ hl => absurd hl (Nat.not_lt_zero _)⟩

/-- A loop that stops at `Stop` and otherwise runs its body, which takes a word
at least. -/
theorem Parses.loop (body : α → P τ ε α) {Stop : List τ → Prop}
    (hstop : ∀ fuel a toks pos, Stop (toks.drop pos) → walk (fuel + 1) a toks pos = .ok (a, pos))
    (hstep : ∀ fuel a toks pos, ¬ Stop (toks.drop pos) → walk (fuel + 1) a toks pos = (body a >>= walk fuel) toks pos)
    (hbody : ∀ n a, Parses n (body a) D (V a))
    (hne : ∀ s w rest, D s w rest → w ≠ [] ∧ ¬ Stop (w ++ rest)) :
    ∀ fuel a, Parses fuel (walk fuel a) (Many D Stop) (Folds V a)
  | 0, _ => .none
  | fuel + 1, a => by
    have hlen : ∀ s w rest, D s w rest → fuel + 1 ≤ fuel + w.length := fun s w rest h => by
      have := List.length_pos_iff.mpr (hne s w rest h).1
      omega
    -- One pass and the passes behind it.
    have hpass : Parses (fuel + 1) (body a >>= fun b => walk fuel b)
        (fun ss w rest => ∃ s u v, w = u ++ v ∧ D s u (v ++ rest) ∧ ∃ ss', ss = s :: ss' ∧ Many D Stop ss' v rest)
        (Folds V a) := by
      apply (hbody (fuel + 1) a).bind_of hlen
      intro s b hb
      apply (Parses.loop body hstop hstep hbody hne fuel b).reindex
      · exact fun ss' w rest h => ⟨s :: ss', ⟨ss', rfl, h⟩, fun c hc => ⟨b, hb, hc⟩⟩
      · rintro _ w rest ⟨ss', rfl, h⟩
        exact ⟨ss', h, fun c hc => ⟨b, hb, hc⟩⟩
    constructor
    · intro toks pos hp hl b q hr
      by_cases hS : Stop (toks.drop pos)
      · rw [hstop fuel a toks pos hS] at hr
        cases hr
        exact ⟨[], [], _, rfl, rfl, ⟨rfl, hS⟩, rfl⟩
      · rw [hstep fuel a toks pos hS] at hr
        obtain ⟨_, w, rest, hd, hq, ⟨s, u, v, hw, hs, ss, rfl, hm⟩, hv⟩ := hpass.sound hp hl hr
        exact ⟨s :: ss, w, rest, hd, hq, ⟨u, v, hw, hs, hm⟩, hv⟩
    · intro toks pos hp hl ss w rest hd hm
      cases ss with
      | nil =>
        obtain ⟨rfl, hS⟩ := hm
        rw [List.nil_append] at hd
        rw [← hd] at hS
        exact ⟨a, hstop fuel a toks pos hS, rfl⟩
      | cons s ss =>
        obtain ⟨u, v, hw, hs, hm⟩ := hm
        have hS := (hne s u _ hs).2
        rw [← List.append_assoc, ← hw, ← hd] at hS
        rw [hstep fuel a toks pos hS]
        exact hpass.complete hp hl hd ⟨s, u, v, hw, hs, ss, rfl, hm⟩

/-- Entries with commas between them, and one behind the last or none. -/
def Entries (D : σ → List τ → List τ → Prop) (Comma Close : τ → Prop) : List σ → List τ → List τ → Prop
  | [], w, rest => w = [] ∧ Leads Close rest
  | s :: ss, w, rest => ∃ u v, w = u ++ v ∧ D s u (v ++ rest) ∧
    ((∃ c v', v = c :: v' ∧ Comma c ∧ Entries D Comma Close ss v' rest) ∨ v = [] ∧ ss = [] ∧ Leads Close rest)

theorem Parses.entries {entry : α → P τ ε α} {stuck : P τ ε α} {comma close : P τ ε Bool} {skip : P τ ε τ}
    {Comma Close : τ → Prop} (hloop : ∀ fuel a, walk (fuel + 1) a =
      close >>= fun b => if b = true then Pure.pure a else entry a >>= fun a' => comma >>= fun b =>
        if b = true then skip >>= fun _ => walk fuel a'
        else close >>= fun b => if b = true then Pure.pure a' else stuck)
    (hcomma : Tests comma (Leads Comma)) (hclose : Tests close (Leads Close)) (hcc : ∀ t, Close t → ¬ Comma t)
    (hskip : Skips skip) (hstuck : ∀ toks pos r, stuck toks pos ≠ .ok r) (hentry : ∀ n a, Parses n (entry a) D (V a))
    (hne : ∀ s w rest, D s w rest → w ≠ [] ∧ ¬ Leads Close (w ++ rest)) :
    ∀ fuel a, Parses fuel (walk fuel a) (Entries D Comma Close) (Folds V a)
  | 0, _ => .none
  | fuel + 1, a => by
    have hlen : ∀ s w rest, D s w rest → fuel + 1 ≤ fuel + w.length := fun s w rest h => by
      have := List.length_pos_iff.mpr (hne s w rest h).1
      omega
    -- What follows an entry: a comma and the loop, or the end.
    have hafter : ∀ b, Parses fuel (comma >>= fun c => if c = true then skip >>= fun _ => walk fuel b
        else close >>= fun c => if c = true then Pure.pure b else stuck)
        (fun ss v rest => (∃ c v', v = c :: v' ∧ Comma c ∧ Entries D Comma Close ss v' rest) ∨
          v = [] ∧ ss = [] ∧ Leads Close rest) (Folds V b) := by
      intro b
      have hend := Parses.ite (n := fuel) hclose (Parses.pure (ε := ε) (V := Folds V b) (s := []) rfl)
        (Parses.fail hstuck)
      apply (Parses.ite_skip hcomma hskip (Nat.le_succ fuel)
        (fun _ _ => Parses.entries hloop hcomma hclose hcc hskip hstuck hentry hne fuel b) hend).congr
      intro ss v rest
      apply or_congr_right
      constructor
      · rintro ⟨-, ⟨hS, rfl, rfl⟩ | ⟨-, h⟩⟩
        · exact ⟨rfl, rfl, hS⟩
        · exact h.elim
      · rintro ⟨rfl, rfl, hS⟩
        refine ⟨?_, Or.inl ⟨hS, rfl, rfl⟩⟩
        obtain ⟨t, ts, rfl, ht⟩ := hS
        simpa using hcc t ht
    have hpass := (hentry (fuel + 1) a).bind_of hlen (V := Folds V a) (D := fun s ss v rest => ∃ ss', ss = s :: ss' ∧
        ((∃ c v', v = c :: v' ∧ Comma c ∧ Entries D Comma Close ss' v' rest) ∨
          v = [] ∧ ss' = [] ∧ Leads Close rest)) fun s b hb => (hafter b).reindex
        (fun ss' w rest h => ⟨s :: ss', ⟨ss', rfl, h⟩, fun c hc => ⟨b, hb, hc⟩⟩)
        (by rintro _ w rest ⟨ss', rfl, h⟩; exact ⟨ss', h, fun c hc => ⟨b, hb, hc⟩⟩)
    rw [hloop]
    apply (Parses.ite hclose (Parses.pure (V := Folds V a) (s := []) rfl) hpass).congr
    intro ss w rest
    cases ss with
    | nil =>
      constructor
      · rintro (⟨hS, -, rfl⟩ | ⟨-, s, u, v, -, -, ss', h, -⟩)
        · exact ⟨rfl, hS⟩
        · cases h
      · rintro ⟨rfl, hS⟩
        exact Or.inl ⟨hS, rfl, rfl⟩
    | cons s ss =>
      constructor
      · rintro (⟨-, h, -⟩ | ⟨-, _, u, v, hw, hs, _, h, hv⟩)
        · cases h
        · cases h
          exact ⟨u, v, hw, hs, hv⟩
      · rintro ⟨u, v, rfl, hs, hv⟩
        have hS := (hne s u _ hs).2
        rw [← List.append_assoc] at hS
        exact Or.inr ⟨hS, s, u, v, rfl, hs, ss, rfl, hv⟩

end

/-- A loop that is given a pass for each word, and one to stop. -/
theorem Parses.fuel {loop : Nat → P τ ε α} {D : σ → List τ → List τ → Prop} {V : σ → α → Prop}
    (h : ∀ fuel, Parses fuel (loop fuel) D V) (n : Nat) :
    Parses n (fun toks => loop (toks.length + 1) toks) D V where
  sound {toks _} hp _ _ _ hr := (h (toks.length + 1)).sound hp (by omega) hr
  complete {toks _} hp _ _ _ _ hd hs := (h (toks.length + 1)).complete hp (by omega) hd hs

/-! ## Languages -/

theorem many_iff {L : σ → Language τ} {Stop : List τ → Prop} {ss : List σ} {w rest : List τ} :
    Many (fun s w _ => w ∈ L s) Stop ss w rest ↔ w ∈ Languages.sequence L ss ∧ Stop rest := by
  induction ss generalizing w with
  | nil => exact Iff.rfl
  | cons s ss ih =>
    rw [Many, Languages.sequence, Languages.mem_mul_iff]
    constructor
    · rintro ⟨u, v, rfl, hu, hv⟩
      exact ⟨⟨u, v, rfl, hu, (ih.mp hv).1⟩, (ih.mp hv).2⟩
    · rintro ⟨⟨u, v, rfl, hu, hv⟩, hS⟩
      exact ⟨u, v, rfl, hu, ih.mpr ⟨hv, hS⟩⟩

theorem mem_avoids {A : τ → Prop} {w : List τ} : w ∈ Languages.avoids A ↔ ¬ Leads A w := by
  cases w with
  | nil => exact ⟨fun _ => not_leads_nil, fun _ => Languages.nil_mem_avoids⟩
  | cons t w => rw [Languages.cons_mem_avoids, leads_cons]

theorem entries_iff {L : σ → Language τ} {Comma Close : τ → Prop} : ∀ {ss : List σ} {w rest : List τ},
    Entries (fun s w _ => w ∈ L s) Comma Close ss w rest ↔
      w ∈ Languages.entries L (Languages.one Comma) ss ∧ Leads Close rest
  | [], _, _ => Iff.rfl
  | [s], w, rest => by
    rw [Entries, Languages.entries, Languages.mem_mul_iff]
    simp only [Language.mem_add, Language.mem_one, Languages.mem_one, Entries, true_and]
    constructor
    · rintro ⟨u, v, rfl, hu, ⟨c, _, rfl, hc, rfl, hS⟩ | ⟨rfl, hS⟩⟩
      · exact ⟨⟨u, [c], rfl, hu, Or.inl ⟨c, rfl, hc⟩⟩, hS⟩
      · exact ⟨⟨u, [], rfl, hu, Or.inr rfl⟩, hS⟩
    · rintro ⟨⟨u, _, rfl, hu, ⟨c, rfl, hc⟩ | rfl⟩, hS⟩
      · exact ⟨u, [c], rfl, hu, Or.inl ⟨c, [], rfl, hc, rfl, hS⟩⟩
      · exact ⟨u, [], rfl, hu, Or.inr ⟨rfl, hS⟩⟩
  | s :: s' :: ss, w, rest => by
    rw [Entries, Languages.entries.eq_3 _ _ _ _ (List.cons_ne_nil _ _), Languages.mem_mul_iff]
    constructor
    · rintro ⟨u, v, rfl, hu, ⟨c, v', rfl, hc, hv⟩ | ⟨-, h, -⟩⟩
      · obtain ⟨hv, hS⟩ := entries_iff.mp hv
        exact ⟨⟨u, _, rfl, hu, Languages.mem_one_mul.mpr ⟨c, v', rfl, hc, hv⟩⟩, hS⟩
      · cases h
    · rintro ⟨⟨u, v, rfl, hu, hv⟩, hS⟩
      obtain ⟨c, v', rfl, hc, hv⟩ := Languages.mem_one_mul.mp hv
      exact ⟨u, _, rfl, hu, Or.inl ⟨c, v', rfl, hc, entries_iff.mpr ⟨hv, hS⟩⟩⟩

end Parsing
