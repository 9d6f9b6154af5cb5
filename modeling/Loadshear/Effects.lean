import Mathlib.Logic.Basic

/-!
# Programs with effects

Rules for programs that change a state and may throw. `Ends p s Q` says that `Q`
holds of what `p` ends with when it is run in `s`, thrown or not, and of the state
that it leaves.
-/

namespace Effects

variable {ε σ α β : Type}

def Ends (p : ExceptT ε (StateM σ) α) (s : σ) (Q : Except ε α → σ → Prop) : Prop :=
  Q (p.run.run s).1 (p.run.run s).2

variable {p : ExceptT ε (StateM σ) α} {s : σ} {Q R : Except ε α → σ → Prop}

theorem Ends.pure {a : α} (h : Q (.ok a) s) : Ends (Pure.pure a) s Q := h

theorem Ends.mono (h : Ends p s Q) (hq : ∀ r t, Q r t → R r t) : Ends p s R := hq _ _ h

theorem Ends.bind {p : ExceptT ε (StateM σ) β} {f : β → ExceptT ε (StateM σ) α} {P : Except ε β → σ → Prop}
    (h : Ends p s P) (hok : ∀ b t, P (.ok b) t → Ends (f b) t Q) (herr : ∀ e t, P (.error e) t → Q (.error e) t) :
    Ends (p >>= f) s Q := by
  have hrun : (p >>= f).run.run s = match p.run.run s with
      | (.ok b, t) => (f b).run.run t
      | (.error e, t) => (.error e, t) := by
    simp only [ExceptT.run_bind, StateT.run_bind]
    cases hp : p.run.run s with
    | mk r t => cases r <;> rfl
  unfold Ends at h hok ⊢
  rw [hrun]
  cases hp : p.run.run s with
  | mk r t =>
    rw [hp] at h
    cases r with
    | ok b => exact hok b t h
    | error e => exact herr e t h

theorem run_bind {p : ExceptT ε (StateM σ) β} {f : β → ExceptT ε (StateM σ) α} {b : β} {t : σ}
    {r : Except ε α × σ} (hp : p.run.run s = (.ok b, t)) (hf : (f b).run.run t = r) : (p >>= f).run.run s = r := by
  rw [ExceptT.run_bind, StateT.run_bind, hp]
  exact hf

/-- A first part whose end is known. -/
theorem Ends.step {p : ExceptT ε (StateM σ) β} {f : β → ExceptT ε (StateM σ) α} {b : β} {t : σ}
    (hp : p.run.run s = (.ok b, t)) (h : Ends (f b) t Q) : Ends (p >>= f) s Q := by
  unfold Ends
  rw [run_bind hp rfl]
  exact h

theorem Ends.catch {handle : ε → ExceptT ε (StateM σ) α} {P : Except ε α → σ → Prop} (h : Ends p s P)
    (hok : ∀ a t, P (.ok a) t → Q (.ok a) t) (herr : ∀ e t, P (.error e) t → Ends (handle e) t Q) :
    Ends (tryCatch p handle) s Q := by
  have hrun : (tryCatch p handle).run.run s = match p.run.run s with
      | (.ok a, t) => (.ok a, t)
      | (.error e, t) => (handle e).run.run t := by
    simp only [ExceptT.run_tryCatch, StateT.run_bind]
    cases hp : p.run.run s with
    | mk r t => cases r <;> rfl
  unfold Ends at h herr ⊢
  rw [hrun]
  cases hp : p.run.run s with
  | mk r t =>
    rw [hp] at h
    cases r with
    | ok a => exact hok a t h
    | error e => exact herr e t h

end Effects
