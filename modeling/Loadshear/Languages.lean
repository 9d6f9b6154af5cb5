import Mathlib.Computability.Language
import Mathlib.Data.List.Forall2
import Mathlib.Order.ConditionallyCompleteLattice.Basic

/-!
# Languages of a syntax

Single words, sequences and comma lists as languages, indexed by what they spell,
and the image of a language under a relation on words. The image goes through
every one of them, so a grammar's image is the grammar with its words replaced.
-/

namespace Languages

variable {τ σ : Type}

/-! ## Words, sequences and lists -/

def one (A : τ → Prop) : Language τ := {w | ∃ t, w = [t] ∧ A t}

theorem mem_one {A : τ → Prop} {w : List τ} : w ∈ one A ↔ ∃ t, w = [t] ∧ A t := Iff.rfl

/-- The first word is not in `A`. -/
def avoids (A : τ → Prop) : Language τ := {w | ∀ t ∈ w.head?, ¬ A t}

def sequence (L : σ → Language τ) : List σ → Language τ
  | [] => 1
  | s :: ss => L s * sequence L ss

/-- A comma between two entries, and one behind the last or none. -/
def entries (L : σ → Language τ) (comma : Language τ) : List σ → Language τ
  | [] => 1
  | [s] => L s * (comma + 1)
  | s :: ss => L s * (comma * entries L comma ss)

theorem mem_one_mul {A : τ → Prop} {L : Language τ} {w : List τ} :
    w ∈ one A * L ↔ ∃ t v, w = t :: v ∧ A t ∧ v ∈ L := by
  rw [Language.mem_mul]
  constructor
  · rintro ⟨_, ⟨t, rfl, ht⟩, v, hv, rfl⟩
    exact ⟨t, v, rfl, ht, hv⟩
  · rintro ⟨t, v, rfl, ht, hv⟩
    exact ⟨[t], ⟨t, rfl, ht⟩, v, hv, rfl⟩

theorem mem_mul_iff {L M : Language τ} {w : List τ} : w ∈ L * M ↔ ∃ u v, w = u ++ v ∧ u ∈ L ∧ v ∈ M := by
  rw [Language.mem_mul]
  constructor
  · rintro ⟨u, hu, v, hv, rfl⟩
    exact ⟨u, v, rfl, hu, hv⟩
  · rintro ⟨u, v, rfl, hu, hv⟩
    exact ⟨u, hu, v, hv, rfl⟩

/-- A sequence of anything is cut into words of the languages. -/
theorem exists_sequence {L : σ → Language τ} {w : List τ} :
    (∃ ss, w ∈ sequence L ss) ↔ ∃ ws : List (List τ), w = ws.flatten ∧ ∀ u ∈ ws, ∃ s, u ∈ L s := by
  constructor
  · rintro ⟨ss, h⟩
    induction ss generalizing w with
    | nil => exact ⟨[], h, fun _ hu => by cases hu⟩
    | cons s ss ih =>
      obtain ⟨u, v, rfl, hu, hv⟩ := mem_mul_iff.mp h
      obtain ⟨ws, rfl, hws⟩ := ih hv
      refine ⟨u :: ws, rfl, fun x hx => ?_⟩
      rcases List.mem_cons.mp hx with rfl | hx
      · exact ⟨s, hu⟩
      · exact hws x hx
  · rintro ⟨ws, rfl, hws⟩
    induction ws with
    | nil => exact ⟨[], Language.nil_mem_one⟩
    | cons u ws ih =>
      obtain ⟨s, hs⟩ := hws u List.mem_cons_self
      obtain ⟨ss, hss⟩ := ih fun x hx => hws x (List.mem_cons_of_mem u hx)
      exact ⟨s :: ss, mem_mul_iff.mpr ⟨u, _, rfl, hs, hss⟩⟩

/-! ## Images -/

/-- The words that `R` relates to words of the language, one by one. -/
def image (R : τ → τ → Prop) (L : Language τ) : Language τ := {w | ∃ w' ∈ L, List.Forall₂ R w w'}

section
variable {R : τ → τ → Prop}

theorem mem_image {L : Language τ} {w : List τ} : w ∈ image R L ↔ ∃ w' ∈ L, List.Forall₂ R w w' := Iff.rfl

theorem image_empty : image R (1 : Language τ) = 1 := by
  ext w
  rw [mem_image, Language.mem_one]
  constructor
  · rintro ⟨w', hw', h⟩
    rw [(Language.mem_one w').mp hw'] at h
    exact List.forall₂_nil_right_iff.mp h
  · rintro rfl
    exact ⟨[], Language.nil_mem_one, .nil⟩

theorem image_add (L M : Language τ) : image R (L + M) = image R L + image R M := by
  ext w
  simp only [mem_image, Language.mem_add]
  constructor
  · rintro ⟨w', hL | hM, h⟩
    · exact Or.inl ⟨w', hL, h⟩
    · exact Or.inr ⟨w', hM, h⟩
  · rintro (⟨w', hL, h⟩ | ⟨w', hM, h⟩)
    · exact ⟨w', Or.inl hL, h⟩
    · exact ⟨w', Or.inr hM, h⟩

theorem image_mul (L M : Language τ) : image R (L * M) = image R L * image R M := by
  ext w
  simp only [mem_image, mem_mul_iff]
  constructor
  · rintro ⟨_, ⟨u, v, rfl, hu, hv⟩, h⟩
    refine ⟨_, _, (List.take_append_drop u.length w).symm, ⟨u, hu, ?_⟩, ⟨v, hv, ?_⟩⟩
    · exact List.forall₂_take_append w u v h
    · exact List.forall₂_drop_append w u v h
  · rintro ⟨x, y, rfl, ⟨u, hu, hx⟩, ⟨v, hv, hy⟩⟩
    exact ⟨u ++ v, ⟨u, v, rfl, hu, hv⟩, List.rel_append hx hy⟩

theorem image_one (A : τ → Prop) : image R (one A) = one fun t => ∃ t', R t t' ∧ A t' := by
  ext w
  constructor
  · rintro ⟨_, ⟨t', rfl, ht'⟩, h⟩
    obtain ⟨t, l, hR, hl, rfl⟩ := List.forall₂_cons_right_iff.mp h
    rw [List.forall₂_nil_right_iff.mp hl]
    exact ⟨t, rfl, t', hR, ht'⟩
  · rintro ⟨t, rfl, t', hR, ht'⟩
    exact ⟨[t'], ⟨t', rfl, ht'⟩, .cons hR .nil⟩

theorem image_sequence (L : σ → Language τ) (ss : List σ) :
    image R (sequence L ss) = sequence (fun s => image R (L s)) ss := by
  induction ss with
  | nil => exact image_empty
  | cons s ss ih => rw [sequence, sequence, image_mul, ih]

theorem image_entries (L : σ → Language τ) (comma : Language τ) :
    ∀ ss, image R (entries L comma ss) = entries (fun s => image R (L s)) (image R comma) ss
  | [] => image_empty
  | [s] => by rw [entries, entries, image_mul, image_add, image_empty]
  | s :: s' :: ss => by
    have ih := image_entries L comma (s' :: ss)
    rw [entries.eq_3 _ _ _ _ (List.cons_ne_nil _ _), entries.eq_3 _ _ _ _ (List.cons_ne_nil _ _), image_mul,
      image_mul, ih]

theorem nil_mem_avoids {A : τ → Prop} : [] ∈ avoids A := fun _ h => by cases h

theorem cons_mem_avoids {A : τ → Prop} {t : τ} {w : List τ} : t :: w ∈ avoids A ↔ ¬ A t := by
  constructor
  · exact fun h => h t rfl
  · intro h t' ht'
    cases ht'
    exact h

/-- What `R` keeps of a word may be asked before or after. -/
theorem image_avoids {A : τ → Prop} (hA : ∀ t t', R t t' → (A t' ↔ A t)) (L : Language τ) :
    image R (L ⊓ avoids A) = image R L ⊓ avoids A := by
  ext w
  rw [Language.mem_inf, mem_image, mem_image]
  have hhead : ∀ w', List.Forall₂ R w w' → (w' ∈ avoids A ↔ w ∈ avoids A) := by
    intro w' h
    cases h with
    | nil => exact Iff.rfl
    | cons hR h => rw [cons_mem_avoids, cons_mem_avoids, hA _ _ hR]
  constructor
  · rintro ⟨w', hw', h⟩
    obtain ⟨hL, ha⟩ := Language.mem_inf.mp hw'
    exact ⟨⟨w', hL, h⟩, (hhead w' h).mp ha⟩
  · rintro ⟨⟨w', hL, h⟩, ha⟩
    exact ⟨w', Language.mem_inf.mpr ⟨hL, (hhead w' h).mpr ha⟩, h⟩

end

end Languages
