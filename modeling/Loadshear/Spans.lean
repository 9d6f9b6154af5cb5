import Mathlib.Data.List.Basic
import Mathlib.Data.UInt

/-!
# Pieces laid end to end

A list of pieces with lengths, laid out from a start position. Pieces are
either gaps or placed; `placed` is where the others come to lie. Everything
between the ends that no placed piece holds is held by a gap, and nothing is
held twice (`gap_iff`); placed pieces come in order (`placed_ordered`).
-/

namespace Spans

section
variable {α : Type*} (len : α → Nat)

/-- Each piece with the position it starts at. -/
def layout : Nat → List α → List (α × Nat)
  | _, [] => []
  | o, a :: l => (a, o) :: layout (o + len a) l

def total (l : List α) : Nat := (l.map len).sum

/-- Byte `b` lies in the piece. -/
def Holds (p : α × Nat) (b : Nat) : Prop := p.2 ≤ b ∧ b < p.2 + len p.1

@[simp] theorem total_nil : total len [] = 0 := rfl

@[simp] theorem total_cons (a : α) (l : List α) : total len (a :: l) = len a + total len l := by
  simp [total]

@[simp] theorem total_append (l₁ l₂ : List α) : total len (l₁ ++ l₂) = total len l₁ + total len l₂ := by
  simp [total]

theorem layout_append (l₁ l₂ : List α) : ∀ o,
    layout len o (l₁ ++ l₂) = layout len o l₁ ++ layout len (o + total len l₁) l₂ := by
  induction l₁ with
  | nil => intro o; simp [layout]
  | cons a l₁ ih => intro o; simp [layout, ih, Nat.add_assoc]

theorem layout_fst (l : List α) : ∀ o, (layout len o l).map Prod.fst = l := by
  induction l with
  | nil => intro o; rfl
  | cons a l ih => intro o; simp [layout, ih]

theorem layout_getElem? (l : List α) : ∀ (o n : Nat),
    (layout len o l)[n]? = l[n]?.map fun a => (a, o + total len (l.take n)) := by
  induction l with
  | nil => intro o n; rfl
  | cons a l ih =>
    intro o n
    cases n with
    | zero => simp [layout]
    | succ n => simp [layout, ih, Nat.add_assoc]

theorem layout_bounds {l : List α} : ∀ {o : Nat} {p : α × Nat}, p ∈ layout len o l →
    o ≤ p.2 ∧ p.2 + len p.1 ≤ o + total len l := by
  induction l with
  | nil => intro o p hp; cases hp
  | cons a l ih =>
    intro o p hp
    rw [total_cons]
    rcases List.mem_cons.mp hp with rfl | hp
    · exact ⟨Nat.le_refl _, by simp only; omega⟩
    · have := ih hp; omega

theorem layout_holds {l : List α} : ∀ {o b : Nat}, o ≤ b → b < o + total len l →
    ∃ p ∈ layout len o l, Holds len p b := by
  induction l with
  | nil => intro o b h₁ h₂; simp at h₂; omega
  | cons a l ih =>
    intro o b h₁ h₂
    rw [total_cons] at h₂
    by_cases hb : b < o + len a
    · exact ⟨(a, o), List.mem_cons_self .., h₁, hb⟩
    · obtain ⟨p, hp, hh⟩ := ih (o := o + len a) (b := b) (by omega) (by omega)
      exact ⟨p, List.mem_cons_of_mem _ hp, hh⟩

/-- No byte lies in two pieces. -/
theorem layout_unique {l : List α} : ∀ {o b : Nat} {p q : α × Nat}, p ∈ layout len o l →
    q ∈ layout len o l → Holds len p b → Holds len q b → p = q := by
  induction l with
  | nil => intro o b p q hp; cases hp
  | cons a l ih =>
    intro o b p q hp hq hpb hqb
    unfold Holds at hpb hqb
    rcases List.mem_cons.mp hp with rfl | hp <;> rcases List.mem_cons.mp hq with rfl | hq
    · rfl
    · have := layout_bounds len hq; simp only at hpb; omega
    · have := layout_bounds len hp; simp only at hqb; omega
    · exact ih hp hq hpb hqb

end

section
variable {α : Type*} (len : α → Nat) (gap : α → Bool)

/-- The pieces that are no gaps, with their positions. -/
def placed (o : Nat) (l : List α) : List (α × Nat) := (layout len o l).filter fun p => !gap p.1

/-- Requested intervals `(start, length)` from `e` on, each behind the end of
the one before, the last one ending by `limit`. -/
def Ordered (limit : Nat) : Nat → List (Nat × Nat) → Prop
  | e, [] => e ≤ limit
  | e, r :: rs => e ≤ r.1 ∧ Ordered limit (r.1 + r.2) rs

def decideOrdered (limit : Nat) : ∀ (e : Nat) (rs : List (Nat × Nat)), Decidable (Ordered limit e rs)
  | e, [] => inferInstanceAs (Decidable (e ≤ limit))
  | e, r :: rs =>
    have := decideOrdered limit (r.1 + r.2) rs
    inferInstanceAs (Decidable (e ≤ r.1 ∧ Ordered limit (r.1 + r.2) rs))

instance (limit e : Nat) (rs : List (Nat × Nat)) : Decidable (Ordered limit e rs) :=
  decideOrdered limit e rs

/-- Where the last of the requested intervals ends. -/
def lastEnd : Nat → List (Nat × Nat) → Nat
  | e, [] => e
  | _, r :: rs => lastEnd (r.1 + r.2) rs

theorem placed_append (o : Nat) (l₁ l₂ : List α) :
    placed len gap o (l₁ ++ l₂) = placed len gap o l₁ ++ placed len gap (o + total len l₁) l₂ := by
  simp [placed, layout_append]

theorem placed_gap {a : α} (h : gap a = true) (o : Nat) : placed len gap o [a] = [] := by
  simp [placed, layout, h]

theorem placed_piece {a : α} (h : gap a = false) (o : Nat) : placed len gap o [a] = [(a, o)] := by
  simp [placed, layout, h]

/-- Gaps hold exactly the bytes that no placed piece holds. -/
theorem gap_iff (o b : Nat) (l : List α) :
    (∃ p ∈ layout len o l, gap p.1 = true ∧ Holds len p b) ↔
      o ≤ b ∧ b < o + total len l ∧ ∀ p ∈ placed len gap o l, ¬ Holds len p b := by
  constructor
  · intro ⟨p, hp, hg, hb⟩
    have := layout_bounds len hp
    refine ⟨Nat.le_trans this.1 hb.1, Nat.lt_of_lt_of_le hb.2 this.2, ?_⟩
    intro q hq hqb
    simp only [placed, List.mem_filter, Bool.not_eq_true'] at hq
    rw [layout_unique len hp hq.1 hb hqb, hq.2] at hg
    cases hg
  · intro ⟨h₁, h₂, h₃⟩
    obtain ⟨p, hp, hb⟩ := layout_holds len h₁ h₂
    refine ⟨p, hp, ?_, hb⟩
    cases hg : gap p.1 with
    | true => rfl
    | false => exact absurd hb (h₃ p (by simp [placed, hp, hg]))

theorem ordered_mono {limit e e' : Nat} (h : e ≤ e') : ∀ {rs : List (Nat × Nat)},
    Ordered limit e' rs → Ordered limit e rs
  | [], h' => Nat.le_trans h h'
  | _ :: _, h' => ⟨Nat.le_trans h h'.1, h'.2⟩

theorem placed_ordered (l : List α) : ∀ o,
    Ordered (o + total len l) o ((placed len gap o l).map fun p => (p.2, len p.1)) := by
  induction l with
  | nil => intro o; simp [placed, layout, Ordered]
  | cons a l ih =>
    intro o
    have ih := ih (o + len a)
    rw [total_cons, ← Nat.add_assoc]
    by_cases hg : gap a = true
    · simp only [placed, layout, List.filter_cons, hg, Bool.not_true, Bool.false_eq_true, ite_false]
      exact ordered_mono (Nat.le_add_right _ _) ih
    · simp only [placed, layout, List.filter_cons, hg, Bool.not_false, ite_true, List.map_cons]
      exact ⟨Nat.le_refl _, ih⟩

theorem lastEnd_append (rs rs' : List (Nat × Nat)) : ∀ e,
    lastEnd e (rs ++ rs') = lastEnd (lastEnd e rs) rs' := by
  induction rs with
  | nil => intro e; rfl
  | cons r rs ih => intro e; exact ih _

/-- Where the last piece is placed, the last placed one ends at the end. -/
theorem lastEnd_placed {a : α} (h : gap a = false) (l : List α) (e o : Nat) :
    lastEnd e ((placed len gap o (l ++ [a])).map fun p => (p.2, len p.1)) = o + total len (l ++ [a]) := by
  rw [placed_append, placed_piece len gap h, List.map_append, lastEnd_append]
  simp [lastEnd, Nat.add_assoc]

section
variable {limit : Nat} {rs rs' : List (Nat × Nat)}

theorem ordered_append : ∀ {e : Nat}, Ordered limit e (rs ++ rs') → Ordered limit (lastEnd e rs) rs' := by
  induction rs with
  | nil => intro e h; exact h
  | cons r rs ih => intro e h; exact ih h.2

theorem ordered_le : ∀ {e : Nat}, Ordered limit e rs → e ≤ limit := by
  induction rs with
  | nil => intro e h; exact h
  | cons r rs ih => intro e h; have := h.1; have := ih h.2; omega

theorem ordered_left : ∀ {e : Nat}, Ordered limit e (rs ++ rs') → Ordered limit e rs := by
  induction rs with
  | nil => intro e h; exact ordered_le h
  | cons r rs ih => intro e h; exact ⟨h.1, ih h.2⟩

theorem lastEnd_le : ∀ {e : Nat}, Ordered limit e rs → lastEnd e rs ≤ limit := by
  induction rs with
  | nil => intro e h; exact h
  | cons r rs ih => intro e h; exact ih h.2

end

end

end Spans
