import Mathlib.Data.List.Basic

/-!
# Guarded runs

Runs of a partial step function: `none` is a step that cannot be taken. A run
carries a guard that each of its steps meets in the state it is taken from, so
that what a guard is enough for is an invariant of the guarded runs
(`Run.invariant`).
-/

namespace Runs

variable {σ ε : Type*} {step : σ → ε → Option σ} {G G' : σ → ε → Prop}

inductive Run (step : σ → ε → Option σ) (G : σ → ε → Prop) (s : σ) : List ε → σ → Prop
  | nil : Run step G s [] s
  | snoc {es : List ε} {t u : σ} {e : ε} (r : Run step G s es t) (hg : G t e) (he : step t e = some u) :
    Run step G s (es ++ [e]) u

/-- What holds at the start and is kept by every step that meets the guard. -/
theorem Run.invariant {I : σ → Prop} (hs : ∀ t e u, I t → G t e → step t e = some u → I u) {s t : σ}
    {es : List ε} (r : Run step G s es t) (h : I s) : I t := by
  induction r with
  | nil => exact h
  | snoc r hg he ih => exact hs _ _ _ ih hg he

theorem Run.mono (h : ∀ t e, G t e → G' t e) {s t : σ} {es : List ε} (r : Run step G s es t) :
    Run step G' s es t := by
  induction r with
  | nil => exact .nil
  | snoc r hg he ih => exact ih.snoc (h _ _ hg) he

theorem Run.unique {s t u : σ} {es : List ε} (r : Run step G s es t) (r' : Run step G' s es u) : t = u := by
  induction r generalizing u with
  | nil =>
    generalize hn : ([] : List ε) = es at r'
    cases r' with
    | nil => rfl
    | snoc => simp at hn
  | @snoc es t v e r hg he ih =>
    generalize hn : es ++ [e] = es' at r'
    cases r' with
    | nil => simp at hn
    | snoc r' hg' he' =>
      obtain ⟨rfl, rfl⟩ : es = _ ∧ e = _ := by simpa using List.append_inj' hn rfl
      obtain rfl := ih r'
      exact Option.some.inj (he.symm.trans he')

theorem Run.last {s u : σ} {es : List ε} {e : ε} (r : Run step G s (es ++ [e]) u) :
    ∃ t, Run step G s es t ∧ G t e ∧ step t e = some u := by
  generalize hn : es ++ [e] = es' at r
  cases r with
  | nil => simp at hn
  | snoc r hg he =>
    obtain ⟨rfl, rfl⟩ : es = _ ∧ e = _ := by simpa using List.append_inj' hn rfl
    exact ⟨_, r, hg, he⟩

theorem Run.upTo {s t : σ} {es es' : List ε} (r : Run step G s es t) (h : es' <+: es) :
    ∃ u, Run step G s es' u := by
  induction r with
  | nil => exact ⟨s, List.prefix_nil.mp h ▸ .nil⟩
  | snoc r hg he ih =>
    rcases List.prefix_concat_iff.mp h with rfl | h
    · exact ⟨_, r.snoc hg he⟩
    · exact ih h

/-- In every state that a beginning of the run leads to. -/
def Always (step : σ → ε → Option σ) (G : σ → ε → Prop) (P : σ → Prop) (s : σ) (es : List ε) : Prop :=
  ∀ es' t, es' <+: es → Run step G s es' t → P t

/-- Where a step loses `P` exactly when `B` holds of it, the runs that keep
`P` are those without such a step. -/
theorem Run.always_iff {I P : σ → Prop} {B : σ → ε → Prop}
    (hs : ∀ t e u, I t → P t → G t e → step t e = some u → I u ∧ (P u ↔ ¬ B t e)) {s t : σ} {es : List ε}
    (hi : I s) (hp : P s) (r : Run step G s es t) :
    Always step G P s es ↔ Run step (fun s e => G s e ∧ ¬ B s e) s es t := by
  have hk : ∀ {es t}, Run step (fun s e => G s e ∧ ¬ B s e) s es t → I t ∧ P t := by
    intro es t r
    refine r.invariant (I := fun t => I t ∧ P t) (fun t e u ht hg he => ?_) ⟨hi, hp⟩
    obtain ⟨hu, hb⟩ := hs t e u ht.1 ht.2 hg.1 he
    exact ⟨hu, hb.mpr hg.2⟩
  constructor
  · intro ha
    induction r with
    | nil => exact .nil
    | @snoc es t u e r hg he ih =>
      have r' := ih fun es' t hp r => ha es' t (hp.trans (List.prefix_append _ _)) r
      obtain ⟨ht, hp⟩ := hk r'
      exact r'.snoc ⟨hg, (hs _ _ _ ht hp hg he).2.mp (ha _ _ (List.prefix_refl _) (r.snoc hg he))⟩ he
  · intro r' es' u hp r''
    obtain ⟨v, rv⟩ := r'.upTo hp
    obtain rfl := rv.unique r''
    exact (hk rv).2

/-- Steps that lower a measure, but for those with `p` that raise it by less
than `c`. -/
theorem Run.length_le {I : σ → Prop} {μ : σ → Nat} {p : ε → Bool} {c : Nat}
    (hs : ∀ t e u, I t → G t e → step t e = some u → I u ∧ μ u < μ t + if p e then c else 0) {s t : σ} {es : List ε}
    (r : Run step G s es t) (h : I s) : I t ∧ es.length + μ t ≤ μ s + c * es.countP p := by
  induction r with
  | nil => exact ⟨h, by simp⟩
  | @snoc es t u e r hg he ih =>
    obtain ⟨ht, hle⟩ := ih
    obtain ⟨hu, hlt⟩ := hs t e u ht hg he
    refine ⟨hu, ?_⟩
    rw [List.length_append, List.length_singleton, List.countP_append, List.countP_singleton, Nat.mul_add]
    cases hp : p e with
    | false =>
      simp only [hp, Bool.false_eq_true, if_false] at hlt ⊢
      omega
    | true =>
      simp only [hp, if_true] at hlt ⊢
      omega

theorem Run.cons {s t u : σ} {e : ε} {es : List ε} (hg : G s e) (he : step s e = some t)
    (r : Run step G t es u) : Run step G s (e :: es) u := by
  induction r with
  | nil => exact Run.snoc .nil hg he
  | snoc r hg' he' ih => exact ih.snoc hg' he'

theorem Run.trans {s t u : σ} {es es' : List ε} (r : Run step G s es t) (r' : Run step G t es' u) :
    Run step G s (es ++ es') u := by
  induction r' with
  | nil => rwa [List.append_nil]
  | snoc r' hg he ih =>
    rw [← List.append_assoc]
    exact ih.snoc hg he

/-- What `f` sees of the steps, in their order. -/
def shown {δ : Type*} (step : σ → ε → Option σ) (f : σ → ε → List δ) : σ → List ε → List δ
  | _, [] => []
  | s, e :: es => f s e ++ (step s e).elim [] (shown step f · es)

section shown

variable {δ : Type*} {f : σ → ε → List δ}

theorem shown_cons {s t : σ} {e : ε} (he : step s e = some t) (es : List ε) :
    shown step f s (e :: es) = f s e ++ shown step f t es := by
  rw [shown, he]
  rfl

theorem Run.shown_append {s t : σ} {es : List ε} (r : Run step G s es t) (es' : List ε) :
    shown step f s (es ++ es') = shown step f s es ++ shown step f t es' := by
  induction r generalizing es' with
  | nil => rfl
  | @snoc es t u e r _ he ih =>
    rw [List.append_assoc, ih, ih, List.append_assoc, List.singleton_append, shown_cons he, shown_cons he]
    simp [shown]

theorem Run.shown_snoc {s t : σ} {es : List ε} (r : Run step G s es t) (e : ε) :
    shown step f s (es ++ [e]) = shown step f s es ++ f t e := by
  rw [r.shown_append]
  cases h : step t e <;> simp [shown, h]

/-- Where every step is the run of another machine over what is seen of it, every
run is one. -/
theorem Run.project {τ : Type*} {step' : τ → δ → Option τ} {H : τ → δ → Prop} {g : σ → τ} {I : σ → Prop}
    (hs : ∀ t e u, I t → G t e → step t e = some u → I u ∧ Run step' H (g t) (f t e) (g u)) {s t : σ} {es : List ε}
    (r : Run step G s es t) (h : I s) : I t ∧ Run step' H (g s) (shown step f s es) (g t) := by
  induction r with
  | nil => exact ⟨h, .nil⟩
  | snoc r hg he ih =>
    obtain ⟨ht, r₁⟩ := ih
    obtain ⟨hu, r₂⟩ := hs _ _ _ ht hg he
    exact ⟨hu, r.shown_snoc _ ▸ r₁.trans r₂⟩

end shown

/-- A guard on the events alone is a property of their list. -/
theorem Run.restrict {Q : ε → Prop} {s t : σ} {es : List ε} (r : Run step G s es t) (hq : ∀ e ∈ es, Q e) :
    Run step (fun s e => G s e ∧ Q e) s es t := by
  induction r with
  | nil => exact .nil
  | snoc r hg he ih => exact (ih fun e he => hq e (by simp [he])).snoc ⟨hg, hq _ (by simp)⟩ he

/-- The state a guarded run ends in, where there is one. -/
def guarded (step : σ → ε → Option σ) (G : σ → ε → Prop) [∀ s e, Decidable (G s e)] : σ → List ε → Option σ
  | s, [] => some s
  | s, e :: es => if G s e then (step s e).bind (guarded step G · es) else none

theorem run_of_guarded [∀ s e, Decidable (G s e)] {es : List ε} {s t : σ} (h : guarded step G s es = some t) :
    Run step G s es t := by
  induction es generalizing s with
  | nil =>
    obtain rfl := Option.some.inj h
    exact .nil
  | cons e es ih =>
    unfold guarded at h
    split at h
    · rename_i hg
      obtain ⟨u, hu, h⟩ := Option.bind_eq_some_iff.mp h
      exact .cons hg hu (ih h)
    · cases h

theorem run_of_isSome [∀ s e, Decidable (G s e)] {es : List ε} {s : σ} (h : (guarded step G s es).isSome) :
    Run step G s es ((guarded step G s es).get h) := run_of_guarded (Option.get_mem h)

end Runs
