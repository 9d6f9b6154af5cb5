/-!
# Watched runs

Programs run under watch: an operation where it must not be called, a pass of
a loop that moves nothing forward, and a loop out of passes are traps, and the
state is known however a run ends. `Shadows` compares such a run with the
outcome of a plain one.
-/

namespace Watching

inductive Trap where
  | illegal
  | stalled
  | outOfFuel
deriving DecidableEq, Repr

/-- An environment to read, a state, and failures `ε` that are no traps. -/
abbrev Watched (ρ σ ε : Type) := ReaderT ρ (ExceptT ε (StateT σ (Except Trap)))

/-- How a pass of a loop ends. -/
inductive Pass (β γ : Type) where
  | again (b : β)
  | leave (c : γ)

section
variable {ρ σ ε α β γ δ : Type}

def trap (f : Trap) : Watched ρ σ ε α := fun _ _ => .error f

/-- A plain program that has nothing to watch. -/
def look (p : ReaderT ρ (StateT σ (Except ε)) α) : Watched ρ σ ε α := fun r s =>
  match p r s with
  | .ok (a, s') => .ok (.ok a, s')
  | .error e => .ok (.error e, s)

/-- A pass that comes back has moved the position. -/
def loop (pos : σ → Nat) (body : β → Watched ρ σ ε (Pass β γ)) : Nat → β → Watched ρ σ ε γ
  | 0, _ => trap .outOfFuel
  | fuel + 1, b => fun r s =>
    match body b r s with
    | .ok (.ok (.again b'), s') => if pos s < pos s' then loop pos body fuel b' r s' else .error .stalled
    | .ok (.ok (.leave c), s') => .ok (.ok c, s')
    | .ok (.error e, s') => .ok (.error e, s')
    | .error f => .error f

/-! ## In the shadow of a plain run -/

/-- No trap, a state in `J`, the error of the plain outcome if there is one,
and else a value that `K` relates to it. -/
inductive Shadows (J : σ → Prop) (K : α → σ → Except ε γ → Prop) :
    Except Trap (Except ε α × σ) → Except ε γ → Prop
  | done {a : α} {s : σ} {y : Except ε γ} : J s → K a s y → Shadows J K (.ok (.ok a, s)) y
  | failed {e : ε} {s : σ} : J s → Shadows J K (.ok (.error e, s)) (.error e)

/-- The plain run returns the same. -/
def Gives (a : α) (s : σ) (y : Except ε (α × σ)) : Prop := y = .ok (a, s)

/-- And has come beyond `lo`. -/
def GivesPast (pos : σ → Nat) (lo : Nat) (a : α) (s : σ) (y : Except ε (α × σ)) : Prop := lo < pos s ∧ y = .ok (a, s)

/-- A pass that comes back leaves `next` to do for the plain run. -/
def Continues (next : β → σ → Except ε γ) (K : δ → σ → Except ε γ → Prop) : Pass β δ → σ → Except ε γ → Prop
  | .again b, s, y => y = next b s
  | .leave c, s, y => K c s y

def ContinuesPast (pos : σ → Nat) (lo : Nat) (next : β → σ → Except ε γ) (K : δ → σ → Except ε γ → Prop) :
    Pass β δ → σ → Except ε γ → Prop
  | .again b, s, y => lo < pos s ∧ y = next b s
  | .leave c, s, y => K c s y

variable {J J' : σ → Prop} {K : α → σ → Except ε γ → Prop} {r : ρ} {s : σ}

theorem Shadows.mono {K' : α → σ → Except ε γ → Prop} {x : Except Trap (Except ε α × σ)} {y : Except ε γ}
    (h : Shadows J' K' x y) (hJ : ∀ s, J' s → J s) (hK : ∀ a s, J' s → K' a s y → K a s y) : Shadows J K x y := by
  cases h with
  | done hj hk => exact .done (hJ _ hj) (hK _ _ hj hk)
  | failed hj => exact .failed (hJ _ hj)

/-- What held of all states along the run holds of the last. -/
theorem Shadows.keep {x : Except Trap (Except ε α × σ)} {y : Except ε γ} (h : Shadows J' K x y)
    (hJ : ∀ s, J' s → J s) : Shadows J (fun a s y => J' s ∧ K a s y) x y := by
  apply h.mono hJ
  intro a s hj hk
  exact ⟨hj, hk⟩

theorem bind_ok {x : Watched ρ σ ε α} {f : α → Watched ρ σ ε β} {a : α} {t : σ} (h : x r s = .ok (.ok a, t)) :
    (x >>= f) r s = f a r t := by
  change (x r s >>= _) = _
  rw [h]
  rfl

theorem bind_error {x : Watched ρ σ ε α} {f : α → Watched ρ σ ε β} {e : ε} {t : σ} (h : x r s = .ok (.error e, t)) :
    (x >>= f) r s = .ok (.error e, t) := by
  change (x r s >>= _) = _
  rw [h]
  rfl

/-- The rest of the two runs, from wherever the first parts end. -/
theorem Shadows.seq {β' γ' : Type} {K' : β' → σ → Except ε γ' → Prop} {x : Watched ρ σ ε α}
    {f : α → Watched ρ σ ε β'} {y : Except ε γ} {y' : Except ε γ'} (h : Shadows J K (x r s) y)
    (he : ∀ e, y = .error e → y' = .error e) (k : ∀ a t, J t → K a t y → Shadows J K' (f a r t) y') :
    Shadows J K' ((x >>= f) r s) y' := by
  generalize hx : x r s = o at h
  cases h with
  | done hj hk =>
    rw [bind_ok hx]
    exact k _ _ hj hk
  | failed hj =>
    rw [bind_error hx, he _ rfl]
    exact .failed hj

theorem plain_ok {p : ReaderT ρ (StateT σ (Except ε)) α} {g : α → ReaderT ρ (StateT σ (Except ε)) β} {a : α} {t : σ}
    (h : p r s = .ok (a, t)) : (p >>= g) r s = g a r t := by
  change (p r s >>= _) = _
  rw [h]
  rfl

theorem plain_error {p : ReaderT ρ (StateT σ (Except ε)) α} {g : α → ReaderT ρ (StateT σ (Except ε)) β} {e : ε}
    (h : p r s = .error e) : (p >>= g) r s = .error e := by
  change (p r s >>= _) = _
  rw [h]
  rfl

section
variable {β' γ' : Type} {K' : β' → σ → Except ε (γ' × σ) → Prop} {x : Watched ρ σ ε α} {f : α → Watched ρ σ ε β'}
  {p : ReaderT ρ (StateT σ (Except ε)) α} {g : α → ReaderT ρ (StateT σ (Except ε)) γ'}

/-- Beside a plain program that returns the same value, go on with both. -/
theorem Shadows.bindOf {K : α → σ → Except ε (α × σ) → Prop} (h : Shadows J K (x r s) (p r s))
    (hK : ∀ a t y, K a t y → y = .ok (a, t)) (k : ∀ a t, J t → K a t (.ok (a, t)) → Shadows J K' (f a r t) (g a r t)) :
    Shadows J K' ((x >>= f) r s) ((p >>= g) r s) := by
  apply h.seq
  · intro e he
    exact plain_error he
  · intro a t hj hk
    have hp := hK a t _ hk
    rw [hp] at hk
    rw [plain_ok hp]
    exact k a t hj hk

theorem Shadows.bind (h : Shadows J Gives (x r s) (p r s)) (k : ∀ a t, J t → Shadows J K' (f a r t) (g a r t)) :
    Shadows J K' ((x >>= f) r s) ((p >>= g) r s) := by
  apply h.bindOf
  · intro a t y hk
    exact hk
  · intro a t hj _
    exact k a t hj

theorem Shadows.bindPast {pos : σ → Nat} {lo : Nat} (h : Shadows J (GivesPast pos lo) (x r s) (p r s))
    (k : ∀ a t, J t → lo < pos t → Shadows J K' (f a r t) (g a r t)) :
    Shadows J K' ((x >>= f) r s) ((p >>= g) r s) := by
  apply h.bindOf
  · intro a t y hk
    exact hk.2
  · intro a t hj hk
    exact k a t hj hk.1

end

theorem Shadows.pure {a : α} {y : Except ε γ} (h : J s) (hk : K a s y) :
    Shadows J K ((Pure.pure a : Watched ρ σ ε α) r s) y :=
  .done h hk

theorem Shadows.throw {e : ε} {y : Except ε γ} (h : J s) (hy : y = .error e) :
    Shadows J K ((MonadExcept.throw e : Watched ρ σ ε α) r s) y := by
  subst hy
  exact .failed h

theorem Shadows.ite {γ' : Type} {K' : α → σ → Except ε (γ' × σ) → Prop} {c : Prop} [Decidable c]
    {x x' : Watched ρ σ ε α} {p p' : ReaderT ρ (StateT σ (Except ε)) γ'} (h : c → Shadows J K' (x r s) (p r s))
    (h' : ¬ c → Shadows J K' (x' r s) (p' r s)) :
    Shadows J K' ((if c then x else x') r s) ((if c then p else p') r s) := by
  by_cases hc : c
  · rw [if_pos hc, if_pos hc]
    exact h hc
  · rw [if_neg hc, if_neg hc]
    exact h' hc

theorem look_ok {p : ReaderT ρ (StateT σ (Except ε)) α} {a : α} {t : σ} (h : p r s = .ok (a, t)) :
    look p r s = .ok (.ok a, t) := by
  unfold look
  rw [h]

/-! ## Loops -/

section
variable {pos : σ → Nat} {body : β → Watched ρ σ ε (Pass β δ)} {w : Nat → β → σ → Except ε γ}
  {K : δ → σ → Except ε γ → Prop}

/-- A loop whose passes all move forward, up to `bound`: with fuel for what is
left it shadows the plain loop, which takes fuel of its own. -/
theorem Shadows.loop (bound : Nat) (hJ : ∀ s, J s → pos s ≤ bound)
    (step : ∀ n b s, J s → Shadows J (ContinuesPast pos (pos s) (w n) K) (body b r s) (w (n + 1) b s)) :
    ∀ {fuel n : Nat} {b : β} {s : σ}, J s → bound - pos s < fuel → bound - pos s < n →
      Shadows J K (Watching.loop pos body fuel b r s) (w n b s)
  | 0, _, _, _, _, hf, _ => absurd hf (Nat.not_lt_zero _)
  | _, 0, _, _, _, _, hn => absurd hn (Nat.not_lt_zero _)
  | fuel + 1, n + 1, b, s, hs, hf, hn => by
    have hstep := step n b s hs
    unfold Watching.loop
    generalize hb : body b r s = o at hstep
    generalize hw : w (n + 1) b s = y at hstep
    cases hstep with
    | failed hj => exact .failed hj
    | @done p t _ hj hk =>
      cases p with
      | leave c => exact .done hj hk
      | again b' =>
        obtain ⟨hlt, rfl⟩ := hk
        have hbound := hJ t hj
        dsimp only
        rw [if_pos hlt]
        exact Shadows.loop bound hJ step hj (by omega) (by omega)

theorem Shadows.again {lo : Nat} {next : β → σ → Except ε γ} {b : β} {y : Except ε γ} (h : J s) (hlt : lo < pos s)
    (hy : y = next b s) : Shadows J (ContinuesPast pos lo next K) ((Pure.pure (.again b) : Watched ρ σ ε _) r s) y :=
  .done h ⟨hlt, hy⟩

theorem Shadows.leave {lo : Nat} {next : β → σ → Except ε γ} {c : δ} {y : Except ε γ} (h : J s) (hk : K c s y) :
    Shadows J (ContinuesPast pos lo next K) ((Pure.pure (.leave c) : Watched ρ σ ε _) r s) y :=
  .done h hk

/-- A run that has passed `lo` in all its states may say so. -/
theorem Shadows.continuesPast {lo : Nat} {next : β → σ → Except ε γ} {x : Except Trap (Except ε (Pass β δ) × σ)}
    {y : Except ε γ} (h : Shadows J' (Continues next K) x y) (hJ : ∀ s, J' s → J s) (hlo : ∀ s, J' s → lo < pos s) :
    Shadows J (ContinuesPast pos lo next K) x y := by
  apply h.mono hJ
  intro p t ht hk
  cases p with
  | leave c => exact hk
  | again b => exact ⟨hlo t ht, hk⟩

theorem Shadows.givesPast {lo : Nat} {x : Except Trap (Except ε α × σ)} {y : Except ε (α × σ)}
    (h : Shadows J' Gives x y) (hJ : ∀ s, J' s → J s) (hlo : ∀ s, J' s → lo < pos s) :
    Shadows J (GivesPast pos lo) x y := by
  apply h.mono hJ
  intro a t ht hk
  exact ⟨hlo t ht, hk⟩

end

end

end Watching
