import Mathlib.Data.List.Forall2

/-!
# Reading words

Rules for parsers that read a list of tokens from a position. `Reads p ws rest Q`
says that `p`, before tokens that mean `ws ++ rest`, reads `ws` and returns a
value of which `Q` holds. What `p` looks at behind `ws` is in `rest`.
-/

namespace Reading

variable {τ ω ε α β : Type}

/-- What the tokens from `pos` mean. -/
def At (means : τ → ω → Prop) (toks : List τ) (pos : Nat) (ws : List ω) : Prop :=
  List.Forall₂ means (toks.drop pos) ws

def Reads (means : τ → ω → Prop) (p : ReaderT (List τ) (StateT Nat (Except ε)) α) (ws rest : List ω)
    (Q : α → Prop) : Prop :=
  ∀ toks pos, At means toks pos (ws ++ rest) →
    ∃ a pos', p toks pos = .ok (a, pos') ∧ At means toks pos' rest ∧ Q a

variable {means : τ → ω → Prop} {toks : List τ} {pos : Nat} {w : ω} {ws ws' rest : List ω} {Q R : α → Prop}

theorem At.head (h : At means toks pos (w :: ws)) :
    ∃ t, toks[pos]? = some t ∧ means t w ∧ At means toks (pos + 1) ws := by
  unfold At at h ⊢
  rw [← List.tail_drop, ← List.head?_drop]
  cases hd : toks.drop pos with
  | nil =>
    rw [hd] at h
    cases h
  | cons t ts =>
    rw [hd] at h
    cases h with
    | cons ht hts => exact ⟨t, rfl, ht, hts⟩

theorem At.end (h : At means toks pos []) : toks.length ≤ pos := by
  have hnil := List.forall₂_nil_right_iff.mp h
  simpa using hnil

theorem At.length_le (h : At means toks pos ws) : ws.length ≤ toks.length := by
  rw [← h.length_eq, List.length_drop]
  omega

theorem Reads.pure {a : α} (h : Q a) :
    Reads means (Pure.pure a : ReaderT (List τ) (StateT Nat (Except ε)) α) [] rest Q :=
  fun _ pos hp => ⟨a, pos, rfl, hp, h⟩

theorem Reads.mono {p : ReaderT (List τ) (StateT Nat (Except ε)) α} (h : Reads means p ws rest Q)
    (hq : ∀ a, Q a → R a) : Reads means p ws rest R := by
  intro toks pos hp
  obtain ⟨a, pos', hr, hp', ha⟩ := h toks pos hp
  exact ⟨a, pos', hr, hp', hq a ha⟩

theorem Reads.bind {p : ReaderT (List τ) (StateT Nat (Except ε)) β}
    {f : β → ReaderT (List τ) (StateT Nat (Except ε)) α} {P : β → Prop} (h : Reads means p ws (ws' ++ rest) P)
    (hf : ∀ b, P b → Reads means (f b) ws' rest Q) : Reads means (p >>= f) (ws ++ ws') rest Q := by
  intro toks pos hp
  rw [List.append_assoc] at hp
  obtain ⟨b, pos', hr, hp', hb⟩ := h toks pos hp
  obtain ⟨a, pos'', hr', hp'', ha⟩ := hf b hb toks pos' hp'
  refine ⟨a, pos'', ?_, hp'', ha⟩
  change (p toks pos >>= fun r => f r.1 toks r.2) = _
  rw [hr]
  exact hr'

/-- What is looked at is not read. -/
theorem Reads.look {p : ReaderT (List τ) (StateT Nat (Except ε)) β}
    {f : β → ReaderT (List τ) (StateT Nat (Except ε)) α} {P : β → Prop} (h : Reads means p [] (ws ++ rest) P)
    (hf : ∀ b, P b → Reads means (f b) ws rest Q) : Reads means (p >>= f) ws rest Q :=
  h.bind hf

/-- A loop that is given a pass for each token, and one to stop. -/
theorem Reads.fuel {loop : Nat → ReaderT (List τ) (StateT Nat (Except ε)) α}
    (h : ∀ fuel, ws.length < fuel → Reads means (loop fuel) ws rest Q) :
    Reads means (fun toks => loop (toks.length + 1) toks) ws rest Q := by
  intro toks pos hp
  have hl := hp.length_le
  rw [List.length_append] at hl
  exact h (toks.length + 1) (by omega) toks pos hp

end Reading
