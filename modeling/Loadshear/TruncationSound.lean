import Loadshear.GrammarSound

/-!
# Truncated scripts

The tokens of an accepted script are cut into blocks in one way only, and what
is cut off anywhere else is not accepted (`prefix_accepted_iff`).
-/

namespace Loadshear

open Parsing Languages Grammar

/-- A complete block, from the token that opens it to its closing brace. -/
def IsBlock (w : List Token) : Prop := ∃ b, w ∈ Block.tokens (fun _ => True) b

theorem IsBlock.ne_nil {w : List Token} (h : IsBlock w) : w ≠ [] := by
  obtain ⟨b, h⟩ := h
  cases b with
  | settings s =>
    obtain ⟨t, v, rfl, -⟩ := mem_one_mul.mp h
    exact List.cons_ne_nil t v
  | orchestrator o =>
    obtain ⟨t, v, rfl, -⟩ := mem_one_mul.mp h
    exact List.cons_ne_nil t v

theorem IsBlock.eq_of_append {u v x y : List Token} (hu : IsBlock u) (hv : IsBlock v) (h : u ++ x = v ++ y) : u = v := by
  obtain ⟨b, hb⟩ := hu
  obtain ⟨c, hc⟩ := hv
  exact Parses.prefix_eq (fun n => parses_blockPass .zero Memory.zero.toScript (n := n)) hb hc h

theorem spelled_blocks {toks : List Token} :
    Spelled toks ↔ ∃ blocks : List (List Token), toks = blocks.flatten ∧ ∀ b ∈ blocks, IsBlock b :=
  exists_sequence

/-- Blocks that begin another sequence of blocks are the first of it. -/
theorem blocks_initial : ∀ {us vs : List (List Token)} {rest : List Token}, (∀ u ∈ us, IsBlock u) →
    (∀ v ∈ vs, IsBlock v) → us.flatten ++ rest = vs.flatten → us = vs.take us.length
  | [], _, _, _, _, _ => rfl
  | u :: us, [], rest, hu, _, h => by
    have hnil : u = [] := by
      rw [List.flatten_cons, List.append_assoc, List.flatten_nil] at h
      exact (List.append_eq_nil_iff.mp h).1
    exact absurd hnil (hu u List.mem_cons_self).ne_nil
  | u :: us, v :: vs, rest, hu, hv, h => by
    rw [List.flatten_cons, List.append_assoc, List.flatten_cons] at h
    have heq : u = v := (hu u List.mem_cons_self).eq_of_append (hv v List.mem_cons_self) h
    subst heq
    have ih := blocks_initial (fun x hx => hu x (List.mem_cons_of_mem u hx)) (fun x hx => hv x (List.mem_cons_of_mem u hx))
      (List.append_cancel_left h)
    rw [List.length_cons, List.take_succ_cons, ← ih]

/-- A prefix of an accepted script is accepted when it is a number of its blocks. -/
theorem prefix_accepted_iff {memory : Memory} {toks : List Token} {script : DSLData}
    (h : parse memory toks = .ok script) : ∃ blocks : List (List Token), toks = blocks.flatten ∧
      (∀ b ∈ blocks, IsBlock b) ∧ ∀ cut, cut <+: toks →
        ((∃ script', parse memory cut = .ok script') ↔ ∃ k, cut = (blocks.take k).flatten) := by
  obtain ⟨blocks, rfl, hb⟩ := spelled_blocks.mp (parse_iff.mp ⟨script, h⟩)
  refine ⟨blocks, rfl, hb, fun cut hcut => ?_⟩
  rw [parse_iff, spelled_blocks]
  constructor
  · rintro ⟨us, rfl, hu⟩
    obtain ⟨rest, hrest⟩ := hcut
    exact ⟨us.length, congrArg List.flatten (blocks_initial hu hb hrest)⟩
  · rintro ⟨k, rfl⟩
    exact ⟨blocks.take k, rfl, fun b hb' => hb b (List.take_subset k blocks hb')⟩

def pairTokens : List Token :=
  [⟨.Keyword, "SETTINGS", 1, 1⟩, ⟨.Identity, "s", 1, 10⟩, ⟨.BraceOpen, "\x7b", 1, 12⟩, ⟨.BraceClosed, "\x7d", 1, 13⟩,
    ⟨.Keyword, "ORCHESTRATOR", 2, 1⟩, ⟨.Identity, "s", 2, 14⟩, ⟨.BraceOpen, "\x7b", 2, 16⟩,
    ⟨.BraceClosed, "\x7d", 2, 17⟩]

theorem pair_prefixes : ∃ blocks : List (List Token), pairTokens = blocks.flatten ∧ (∀ b ∈ blocks, IsBlock b) ∧
    ∀ cut, cut <+: pairTokens →
      ((∃ script', parse .zero cut = .ok script') ↔ ∃ k, cut = (blocks.take k).flatten) :=
  prefix_accepted_iff (show parse .zero pairTokens = .ok _ from rfl)

end Loadshear
