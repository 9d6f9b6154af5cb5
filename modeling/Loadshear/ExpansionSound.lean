import Loadshear.ResolverSound
import Mathlib.Data.List.TakeWhile

/-!
# Environment variables in paths

`expand_env_variables` against the substitution of every variable. The scan
looks a name up when it comes to the `/` behind it, and forgets the name where
another dollar, or the end of the path, comes first (`foldl_pieces`).
-/

namespace Loadshear

/-! ## Substitution -/

/-- A path is made of characters and of names that follow a dollar. -/
inductive Piece where
  | char (c : Char)
  | variable (name : List Char)
deriving DecidableEq

def isNameChar (c : Char) : Bool := c ≠ '/' && c ≠ '$'

def pieces : List Char → List Piece
  | [] => []
  | c :: cs =>
    if c = '$' then .variable (cs.takeWhile isNameChar) :: pieces (cs.dropWhile isNameChar)
    else .char c :: pieces cs
termination_by cs => cs.length
decreasing_by
  · exact Nat.lt_succ_of_le (List.dropWhile_sublist _).length_le
  · exact Nat.lt_succ_self _

section
variable (getenv : String → Option String)

def valueOf (name : List Char) : List Char := ((getenv (cStr name)).getD "").toList

def Piece.substitute : Piece → List Char
  | .char c => [c]
  | .variable name => valueOf getenv name

/-- The path with the value of each variable in its place. -/
def substitute (path : String) : String := String.ofList ((pieces path.toList).flatMap (Piece.substitute getenv))

/-! ## What the scan puts out -/

def emit : List Piece → List Char
  | [] => []
  | .char c :: ps => c :: emit ps
  | .variable name :: ps => (if ps.head? = some (.char '/') then valueOf getenv name else []) ++ emit ps

def forgotten : List Piece → List (List Char)
  | [] => []
  | .char _ :: ps => forgotten ps
  | .variable name :: ps => if ps.head? = some (.char '/') then forgotten ps else name :: forgotten ps

variable {getenv} {out name : List Char}

theorem foldl_name : ∀ {cs : List Char} {name : List Char}, (∀ c ∈ cs, isNameChar c) →
    cs.foldl (expandStep getenv) ⟨out, true, name⟩ = ⟨out, true, name ++ cs⟩
  | [], name, _ => by simp
  | c :: cs, name, h => by
    have hc : c ≠ '/' ∧ c ≠ '$' := by simpa [isNameChar] using h c (by simp)
    have hstep : expandStep getenv ⟨out, true, name⟩ c = ⟨out, true, name ++ [c]⟩ := by
      simp [expandStep, hc.1, hc.2]
    rw [List.foldl_cons, hstep, foldl_name fun d hd => h d (by simp [hd]), List.append_assoc]
    rfl

/-- Behind a name the scan goes on as if it had not looked for one. -/
theorem foldl_ended {cs : List Char} (h : ∀ c ∈ cs.head?, ¬ isNameChar c) :
    (cs.foldl (expandStep getenv) ⟨out, true, name⟩).outPath =
      (cs.foldl (expandStep getenv) ⟨out ++ if cs.head? = some '/' then valueOf getenv name else [], false, name⟩).outPath := by
  cases cs with
  | nil => simp
  | cons c cs =>
    have hc : c = '/' ∨ c = '$' := by
      have := h c rfl
      by_cases hs : c = '/'
      · exact .inl hs
      · exact .inr (by simpa [isNameChar, hs] using this)
    rcases hc with rfl | rfl
    · simp [expandStep, valueOf]
    · simp [expandStep]

theorem head_dropWhile (cs : List Char) : ∀ c ∈ (cs.dropWhile isNameChar).head?, ¬ isNameChar c := by
  intro c hc
  have h := List.head?_dropWhile_not isNameChar cs
  rw [Option.mem_def.mp hc] at h
  exact Bool.eq_false_iff.mp h

theorem pieces_head (cs : List Char) : (pieces cs).head? = some (.char '/') ↔ cs.head? = some '/' := by
  cases cs with
  | nil => simp [pieces]
  | cons c cs =>
    rw [pieces]
    by_cases hc : c = '$'
    · simp [hc]
    · simp [hc]

theorem foldl_pieces (cs : List Char) : ∀ out name : List Char,
    (cs.foldl (expandStep getenv) ⟨out, false, name⟩).outPath = out ++ emit getenv (pieces cs) := by
  induction cs using pieces.induct with
  | case1 => intro out name; simp [pieces, emit]
  | case2 cs ih =>
    intro out name
    have hstep : expandStep getenv ⟨out, false, name⟩ '$' = ⟨out, true, []⟩ := by simp [expandStep]
    have hrun : ∀ c ∈ cs.takeWhile isNameChar, isNameChar c := fun c hc => List.mem_takeWhile_imp hc
    conv_lhs => rw [List.foldl_cons, hstep, ← List.takeWhile_append_dropWhile (p := isNameChar) (l := cs), List.foldl_append]
    rw [foldl_name hrun, List.nil_append, foldl_ended (head_dropWhile cs), ih, pieces, if_pos rfl, emit, List.append_assoc]
    congr 2
    exact if_congr (pieces_head _).symm rfl rfl
  | case3 c cs hc ih =>
    intro out name
    have hstep : expandStep getenv ⟨out, false, name⟩ c = ⟨out ++ [c], false, name⟩ := by simp [expandStep, hc]
    rw [List.foldl_cons, hstep, ih, pieces, if_neg hc, emit, List.append_assoc]
    rfl

theorem expandEnvVariables_eq (path : String) :
    expandEnvVariables getenv path = String.ofList (emit getenv (pieces path.toList)) := by
  unfold expandEnvVariables
  rw [foldl_pieces]
  rfl

/-! ## Both -/

theorem emit_length : ∀ ps : List Piece, (emit getenv ps).length ≤ (ps.flatMap (Piece.substitute getenv)).length
  | [] => Nat.le_refl _
  | .char c :: ps => by
    rw [emit, List.flatMap_cons, Piece.substitute, List.length_cons, List.length_append, List.length_singleton]
    have := emit_length ps
    omega
  | .variable name :: ps => by
    rw [emit, List.flatMap_cons, Piece.substitute, List.length_append, List.length_append]
    have := emit_length ps
    split
    · omega
    · rw [List.length_nil]
      omega

theorem emit_eq_iff : ∀ ps : List Piece, emit getenv ps = ps.flatMap (Piece.substitute getenv) ↔
    ∀ name ∈ forgotten ps, valueOf getenv name = []
  | [] => by simp [emit, forgotten]
  | .char c :: ps => by
    rw [emit, forgotten, List.flatMap_cons, Piece.substitute, List.singleton_append, List.cons.injEq, ← emit_eq_iff ps]
    exact and_iff_right rfl
  | .variable name :: ps => by
    rw [emit, forgotten, List.flatMap_cons, Piece.substitute]
    by_cases hs : ps.head? = some (.char '/')
    · rw [if_pos hs, if_pos hs, List.append_cancel_left_eq, emit_eq_iff ps]
    · rw [if_neg hs, if_neg hs, List.nil_append, List.forall_mem_cons, ← emit_eq_iff ps]
      constructor
      · intro h
        have hlen := congrArg List.length h
        rw [List.length_append] at hlen
        have hle : (emit getenv ps).length ≤ _ := emit_length ps
        have hv : valueOf getenv name = [] := by
          apply List.eq_nil_of_length_eq_zero
          omega
        exact ⟨hv, by rw [h, hv, List.nil_append]⟩
      · intro ⟨hv, h⟩
        rw [hv, List.nil_append, h]

end

/-- A path is expanded as a substitution of its variables just when those that no
`/` ends are empty or unset. -/
theorem expandEnvVariables_iff (getenv : String → Option String) (path : String) :
    expandEnvVariables getenv path = substitute getenv path ↔
      ∀ name ∈ forgotten (pieces path.toList), ((getenv (cStr name)).getD "").toList = [] := by
  rw [expandEnvVariables_eq, substitute, String.ofList_inj]
  exact emit_eq_iff _

def fileOnly (name : String) : Option String := if name = "FILE" then some "a.bin" else none

/-- A variable at the end of a path is dropped. -/
theorem file_dropped : expandEnvVariables fileOnly "data/$FILE" = "data/" ∧
    substitute fileOnly "data/$FILE" = "data/a.bin" ∧
      expandEnvVariables fileOnly "data/$FILE" ≠ substitute fileOnly "data/$FILE" := by
  have hs : substitute fileOnly "data/$FILE" = "data/a.bin" := by
    have hp : pieces "data/$FILE".toList = "data/".toList.map .char ++ [.variable "FILE".toList] := by
      simp [pieces, isNameChar]
    rw [substitute, hp]
    decide
  have he : expandEnvVariables fileOnly "data/$FILE" = "data/" := by decide
  refine ⟨he, hs, ?_⟩
  rw [he, hs]
  decide

end Loadshear
