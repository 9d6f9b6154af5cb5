import Mathlib.Data.List.Induction
import Mathlib.Data.List.Nodup
import Mathlib.Data.Set.Function

/-!
# Logs

What holds of every entry of a log together with the entries before it. A log
only grows, so such a property is kept by what is appended (`Each.append`).
-/

namespace Logs

variable {α : Type*} {P : List α → α → Prop} {log chunk : List α}

/-- Every entry meets `P` with the entries before it. -/
def Each (P : List α → α → Prop) (log : List α) : Prop := ∀ before x, before ++ [x] <+: log → P before x

@[simp] theorem each_nil : Each P [] := by
  intro before x h
  simp at h

theorem each_snoc {x : α} : Each P (log ++ [x]) ↔ Each P log ∧ P log x := by
  constructor
  · intro h
    exact ⟨fun before y hy => h before y (hy.trans (List.prefix_append ..)), h log x (List.prefix_refl _)⟩
  · intro ⟨h, hx⟩ before y hy
    rcases List.prefix_concat_iff.mp hy with he | hy
    · obtain ⟨rfl, rfl⟩ : before = log ∧ y = x := by simpa using List.append_inj' he rfl
      exact hx
    · exact h before y hy

theorem Each.append (h : Each P log) (hc : Each (fun before x => P (log ++ before) x) chunk) :
    Each P (log ++ chunk) := by
  induction chunk using List.reverseRecOn with
  | nil => simpa using h
  | append_singleton chunk x ih =>
    obtain ⟨hc, hx⟩ := each_snoc.mp hc
    rw [← List.append_assoc]
    exact each_snoc.mpr ⟨ih hc, hx⟩

/-- Entries that `P` asks nothing of. -/
theorem Each.skip (h : Each P log) (hc : ∀ x ∈ chunk, ∀ before, P before x) : Each P (log ++ chunk) :=
  h.append fun _ x hx => hc x (hx.subset (by simp)) _

/-! ## Ranks -/

section
variable [DecidableEq α] {p : α → Bool}

/-- How many entries with `p` come before `a`. -/
def rank (p : α → Bool) (log : List α) (a : α) : Nat := (log.take (log.idxOf a)).countP p

theorem rank_append_left {a : α} (h : a ∈ log) : rank p (log ++ chunk) a = rank p log a := by
  have hlt := List.idxOf_lt_length_of_mem h
  rw [rank, List.idxOf_append, if_pos h, List.take_append_of_le_length (Nat.le_of_lt hlt), rank]

theorem rank_getElem (hn : log.Nodup) {a : α} {k : Nat} (h : log[k]? = some a) :
    rank p log a = (log.take k).countP p := by
  obtain ⟨hk, rfl⟩ := List.getElem?_eq_some_iff.mp h
  rw [rank, hn.idxOf_getElem]

/-- The entries with `p` are numbered in their order, without a gap. -/
theorem map_rank (hn : log.Nodup) : (log.filter p).map (rank p log) = List.range (log.countP p) := by
  induction log using List.reverseRecOn with
  | nil => rfl
  | append_singleton log x ih =>
    obtain ⟨hn', hx⟩ : log.Nodup ∧ x ∉ log := by
      rw [List.nodup_append] at hn
      exact ⟨hn.1, fun h => hn.2.2 x h x (by simp) rfl⟩
    have hold : (log.filter p).map (rank p (log ++ [x])) = List.range (log.countP p) := by
      rw [← ih hn']
      exact List.map_congr_left fun a ha => rank_append_left (List.mem_filter.mp ha).1
    rw [List.filter_append, List.map_append, hold, List.countP_append]
    cases hp : p x with
    | false => simp [hp]
    | true =>
      have hrank : rank p (log ++ [x]) x = log.countP p := by
        rw [rank_getElem hn (List.getElem?_concat_length), List.take_left]
      simp [hp, hrank, List.range_succ]

theorem rank_injOn (hn : log.Nodup) : Set.InjOn (rank p log) {a | a ∈ log ∧ p a} := by
  intro a ha b hb hab
  have hnodup : ((log.filter p).map (rank p log)).Nodup := map_rank hn ▸ List.nodup_range
  exact List.inj_on_of_nodup_map hnodup (List.mem_filter.mpr ha) (List.mem_filter.mpr hb) hab

end

end Logs
