import Mathlib.Data.List.Basic

/-!
# Codes that are read off the front

A code is `Front` when a text that starts with a code word starts with one
only. Texts made of such codes, one behind the other, can be taken apart again
from the left; a separator that does not come again takes them apart from the
right (`eq_of_last`).
-/

namespace Codes

section
variable {α β σ : Type*} {f : α → List σ} {g : β → List σ}

def Front (f : α → List σ) : Prop := ∀ ⦃a b x y⦄, f a ++ x = f b ++ y → a = b ∧ x = y

theorem Front.append (hf : Front f) (hg : Front g) : Front fun p : α × β => f p.1 ++ g p.2 := by
  intro p q x y h
  rw [List.append_assoc, List.append_assoc] at h
  obtain ⟨h₁, h⟩ := hf h
  obtain ⟨h₂, h⟩ := hg h
  exact ⟨Prod.ext h₁ h₂, h⟩

/-- The same word in front of every code word. -/
theorem Front.word_append (w : List σ) (hf : Front f) : Front fun a => w ++ f a := by
  intro a b x y h
  rw [List.append_assoc, List.append_assoc] at h
  exact hf (List.append_cancel_left h)

theorem Front.append_word (w : List σ) (hf : Front f) : Front fun a => f a ++ w := by
  intro a b x y h
  rw [List.append_assoc, List.append_assoc] at h
  obtain ⟨hab, h⟩ := hf h
  exact ⟨hab, List.append_cancel_left h⟩

/-- Code words that hold no `stop` are closed by one. -/
theorem front_closed {stop : σ} (hf : Function.Injective f) (hstop : ∀ a, stop ∉ f a) : Front fun a => f a ++ [stop] := by
  have hsplit : ∀ {u v x y : List σ}, stop ∉ u → stop ∉ v → u ++ stop :: x = v ++ stop :: y → u = v ∧ x = y := by
    intro u
    induction u with
    | nil =>
      intro v x y _ hv h
      cases v with
      | nil => exact ⟨rfl, (List.cons.inj h).2⟩
      | cons d v => exact absurd (List.mem_cons.mpr (.inl (List.cons.inj h).1)) hv
    | cons c u ih =>
      intro v x y hu hv h
      cases v with
      | nil => exact absurd (List.mem_cons.mpr (.inl (List.cons.inj h).1.symm)) hu
      | cons d v =>
        obtain ⟨rfl, htail⟩ := List.cons.inj h
        obtain ⟨rfl, hxy⟩ := ih (fun hm => hu (List.mem_cons_of_mem _ hm)) (fun hm => hv (List.mem_cons_of_mem _ hm)) htail
        exact ⟨rfl, hxy⟩
  intro a b x y h
  simp only [List.append_assoc, List.singleton_append] at h
  obtain ⟨hab, h⟩ := hsplit (hstop a) (hstop b) h
  exact ⟨hf hab, h⟩

/-- The last separator. -/
theorem eq_of_last {stop : σ} {u v x y : List σ} (hx : stop ∉ x) (hy : stop ∉ y) (h : u ++ stop :: x = v ++ stop :: y) :
    u = v ∧ x = y := by
  have hfront : Front fun z : {z : List σ // stop ∉ z} => z.1.reverse ++ [stop] :=
    front_closed (fun z w hzw => Subtype.ext (List.reverse_injective hzw)) fun z hm => z.2 (List.mem_reverse.mp hm)
  have hr := congrArg List.reverse h
  simp only [List.reverse_append, List.reverse_cons] at hr
  obtain ⟨hxy, hr⟩ := @hfront ⟨x, hx⟩ ⟨y, hy⟩ _ _ hr
  exact ⟨List.reverse_injective hr, congrArg Subtype.val hxy⟩

/-- A list of code words is known from its text. -/
theorem Front.flatMap_injective (hf : Front f) (hne : ∀ a, f a ≠ []) : Function.Injective (List.flatMap f)
  | [], [], _ => rfl
  | [], b :: l, h => by
    rw [List.flatMap_nil, List.flatMap_cons] at h
    exact absurd (List.append_eq_nil_iff.mp h.symm).1 (hne b)
  | a :: k, [], h => by
    rw [List.flatMap_nil, List.flatMap_cons] at h
    exact absurd (List.append_eq_nil_iff.mp h).1 (hne a)
  | a :: k, b :: l, h => by
    rw [List.flatMap_cons, List.flatMap_cons] at h
    obtain ⟨rfl, hrest⟩ := hf h
    rw [hf.flatMap_injective hne hrest]

end

end Codes
