/-!
# Two runs in lockstep

Relational rules for programs that read an environment, keep a state and may
fail. `Both R` relates the outcomes of two runs: either both fail with one
error, or both return in one state and `R` relates the values there.
-/

namespace Lockstep

variable {ρ σ ε α α' β β' : Type}

def Both (R : α → α' → σ → Prop) : Except ε (α × σ) → Except ε (α' × σ) → Prop
  | .ok (a, s), .ok (a', s') => s = s' ∧ R a a' s
  | .error e, .error e' => e = e'
  | _, _ => False

theorem Both.mono {R S : α → α' → σ → Prop} {x : Except ε (α × σ)} {x' : Except ε (α' × σ)}
    (h : Both R x x') (hi : ∀ a a' s, R a a' s → S a a' s) : Both S x x' := by
  rcases x with e | ⟨a, s⟩ <;> rcases x' with e' | ⟨a', s'⟩
  · exact h
  · exact h
  · exact h
  · exact ⟨h.1, hi _ _ _ h.2⟩

theorem Both.bind {R : α → α' → σ → Prop} {S : β → β' → σ → Prop}
    {x : ReaderT ρ (StateT σ (Except ε)) α} {x' : ReaderT ρ (StateT σ (Except ε)) α'}
    {f : α → ReaderT ρ (StateT σ (Except ε)) β} {f' : α' → ReaderT ρ (StateT σ (Except ε)) β'}
    {r : ρ} {s : σ} (h : Both R (x r s) (x' r s))
    (k : ∀ a a' t, R a a' t → Both S (f a r t) (f' a' r t)) : Both S ((x >>= f) r s) ((x' >>= f') r s) := by
  change Both S (x r s >>= fun p => f p.1 r p.2) (x' r s >>= fun p => f' p.1 r p.2)
  cases hx : x r s with
  | error e =>
    cases hx' : x' r s with
    | error e' => rw [hx, hx'] at h; exact h
    | ok p' => rw [hx, hx'] at h; exact h.elim
  | ok p =>
    cases hx' : x' r s with
    | error e' => rw [hx, hx'] at h; exact h.elim
    | ok p' =>
      obtain ⟨a, t⟩ := p
      obtain ⟨a', t'⟩ := p'
      rw [hx, hx'] at h
      obtain ⟨rfl, hr⟩ := h
      exact k a a' t hr

theorem Both.pure {R : α → α' → σ → Prop} {a : α} {a' : α'} {r : ρ} {s : σ} (h : R a a' s) :
    Both R ((Pure.pure a : ReaderT ρ (StateT σ (Except ε)) α) r s)
      ((Pure.pure a' : ReaderT ρ (StateT σ (Except ε)) α') r s) :=
  ⟨rfl, h⟩

theorem Both.throw {R : α → α' → σ → Prop} {e : ε} {r : ρ} {s : σ} :
    Both R ((MonadExcept.throw e : ReaderT ρ (StateT σ (Except ε)) α) r s)
      ((MonadExcept.throw e : ReaderT ρ (StateT σ (Except ε)) α') r s) :=
  show e = e from rfl

theorem Both.ite {R : α → α' → σ → Prop} {c : Prop} [Decidable c]
    {x y : ReaderT ρ (StateT σ (Except ε)) α} {x' y' : ReaderT ρ (StateT σ (Except ε)) α'} {r : ρ} {s : σ}
    (h : c → Both R (x r s) (x' r s)) (h' : ¬ c → Both R (y r s) (y' r s)) :
    Both R ((if c then x else y) r s) ((if c then x' else y') r s) := by
  by_cases hc : c
  · rw [if_pos hc, if_pos hc]; exact h hc
  · rw [if_neg hc, if_neg hc]; exact h' hc

theorem Both.ok {R : α → α' → σ → Prop} {x : Except ε (α × σ)} {x' : Except ε (α' × σ)} {a : α} {s : σ}
    (h : Both R x x') (hx : x = .ok (a, s)) : ∃ a', x' = .ok (a', s) ∧ R a a' s := by
  subst hx
  rcases x' with e' | ⟨a', s'⟩
  · exact h.elim
  · obtain ⟨rfl, hr⟩ := h
    exact ⟨a', rfl, hr⟩

theorem Both.error {R : α → α' → σ → Prop} {x : Except ε (α × σ)} {x' : Except ε (α' × σ)} {e : ε}
    (h : Both R x x') (hx : x = .error e) : x' = .error e := by
  subst hx
  rcases x' with e' | ⟨a', s'⟩
  · exact congrArg _ (Eq.symm h)
  · exact h.elim

end Lockstep
