import Loadshear.LexerSound
import Loadshear.Resolver

/-!
# Escaped dollars

The lexer takes the backslash from `\$`, and the resolver, which comes after it,
expands the dollar that is left. A path is looked up as it was written, whatever
the environment, when there is no dollar in it (`escaped_resolves_iff`).
-/

namespace Loadshear

/-! ## Expansion -/

theorem foldl_expandStep {getenv : String → Option String} : ∀ {cs out env : List Char}, '$' ∉ cs →
    (cs.foldl (expandStep getenv) ⟨out, false, env⟩).outPath = out ++ cs
  | [], out, env, _ => by simp
  | c :: cs, out, env, h => by
    rw [List.mem_cons, not_or] at h
    have hstep : expandStep getenv ⟨out, false, env⟩ c = ⟨out ++ [c], false, env⟩ := by
      simp [expandStep, Ne.symm h.1]
    rw [List.foldl_cons, hstep, foldl_expandStep h.2, List.append_assoc]
    rfl

theorem expandEnvVariables_of_not_mem {getenv : String → Option String} {path : String} (h : '$' ∉ path.toList) :
    expandEnvVariables getenv path = path := by
  unfold expandEnvVariables
  rw [foldl_expandStep h, List.nil_append, String.ofList_toList]

theorem resolveFile_of_not_mem {env : Env} {path : String} (h : '$' ∉ path.toList)
    (ht : path.toList.take 2 ≠ ['~', '/']) : resolveFile env path = env.canonical path := by
  have hexpand : (if env.expandEnvs then expandEnvVariables env.getenv path else path) = path := by
    rw [expandEnvVariables_of_not_mem h, ite_self]
  unfold resolveFile expandTilde
  simp only [hexpand]
  rw [if_neg ht]

/-- No dollar comes through where no variable has one. -/
theorem expandStep_dollar {getenv : String → Option String}
    (hg : ∀ name value, getenv name = some value → '$' ∉ value.toList)
    {s : ExpandState} (hs : '$' ∉ s.outPath) (c : Char) : '$' ∉ (expandStep getenv s c).outPath := by
  have hvalue : '$' ∉ ((getenv (cStr s.currentEnvStr)).getD "").toList := by
    cases hv : getenv (cStr s.currentEnvStr) with
    | none => simp
    | some value => exact hg _ _ hv
  unfold expandStep
  by_cases hc : c = '$'
  · rw [if_pos hc]
    exact hs
  · rw [if_neg hc]
    by_cases hf : c = '/' ∧ s.findingEnv
    · simp only [hf, if_true, and_self]
      simp [hs, hvalue]
    · simp only [hf, if_false]
      split
      · exact hs
      · simp [hs, Ne.symm hc]

theorem expandEnvVariables_dollar {getenv : String → Option String}
    (hg : ∀ name value, getenv name = some value → '$' ∉ value.toList) (path : String) :
    '$' ∉ (expandEnvVariables getenv path).toList := by
  have hfold : ∀ (cs : List Char) (s : ExpandState), '$' ∉ s.outPath → '$' ∉ (cs.foldl (expandStep getenv) s).outPath := by
    intro cs
    induction cs with
    | nil => exact fun s hs => hs
    | cons c cs ih => exact fun s hs => ih _ (expandStep_dollar hg hs c)
  unfold expandEnvVariables
  rw [String.toList_ofList]
  exact hfold _ _ (by simp)

/-! ## From the script to the file system -/

/-- The value, written with its quotes and dollars escaped, is looked up as `path`. -/
def LooksUp (env : Env) (path : String) : Prop :=
  ∀ rest p, ∃ t q, lexToken '"' (Word.escape path.toList ++ '"' :: rest) p = .ok (t, rest, q) ∧
    resolveFile env t.text = env.canonical path

theorem looksUp_iff {env : Env} {path : String} (hq : IsQuotable path) :
    LooksUp env path ↔ resolveFile env path = env.canonical path := by
  constructor
  · intro h
    obtain ⟨t, q, hl, hr⟩ := h [] ⟨1, 1⟩
    obtain ⟨t', q', hl', ht⟩ := lexes_quoted [] ⟨1, 1⟩ hq
    rw [hl] at hl'
    cases hl'
    rwa [show t.text = path from congrArg Prod.snd ht] at hr
  · intro h rest p
    obtain ⟨t, q, hl, ht⟩ := lexes_quoted rest p hq
    refine ⟨t, q, hl, ?_⟩
    rw [show t.text = path from congrArg Prod.snd ht, h]

def Env.bare : Env := { Env.ofFiles [] with expandEnvs := true, canonical := .ok }

theorem expandTilde_unset {getenv : String → Option String} (h : getenv "HOME" = none) (path : String) :
    expandTilde getenv path = path := by
  unfold expandTilde
  rw [h, ite_self]

theorem not_looksUp_bare {path : String} (h : '$' ∈ path.toList) :
    resolveFile Env.bare path ≠ Env.bare.canonical path := by
  have hd := @expandEnvVariables_dollar Env.bare.getenv (fun _ _ hv => by cases hv) path
  intro he
  have hr : resolveFile Env.bare path = .ok (expandEnvVariables Env.bare.getenv path) := by
    unfold resolveFile
    rw [if_pos (show Env.bare.expandEnvs = true from rfl)]
    exact congrArg Except.ok (expandTilde_unset rfl _)
  rw [hr] at he
  have hpath : expandEnvVariables Env.bare.getenv path = path := Except.ok.inj he
  rw [hpath] at hd
  exact hd h

theorem escaped_resolves_iff {path : String} (hq : IsQuotable path) (ht : path.toList.take 2 ≠ ['~', '/']) :
    (∀ env : Env, env.expandEnvs = true → LooksUp env path) ↔ '$' ∉ path.toList := by
  constructor
  · intro h hd
    exact not_looksUp_bare hd ((looksUp_iff hq).mp (h Env.bare rfl))
  · intro h env _
    exact (looksUp_iff hq).mpr (resolveFile_of_not_mem h ht)

theorem escaped_resolves_iff_plain : '$' ∉ "data/a\"b\\c.bin".toList ∧
    ∀ env : Env, env.expandEnvs = true → LooksUp env "data/a\"b\\c.bin" :=
  have h : '$' ∉ "data/a\"b\\c.bin".toList := by decide
  ⟨h, (escaped_resolves_iff (by decide) (by decide)).mpr h⟩

/-- What is looked up for `"cost\$5.bin"` is `cost`. -/
theorem escaped_expanded : IsQuotable "cost$5.bin" ∧ "cost$5.bin".toList.take 2 ≠ ['~', '/'] ∧
    Env.bare.expandEnvs = true ∧ resolveFile Env.bare "cost$5.bin" = .ok "cost" ∧ ¬ LooksUp Env.bare "cost$5.bin" := by
  refine ⟨by decide, by decide, rfl, by decide, fun h => ?_⟩
  exact not_looksUp_bare (by decide) ((looksUp_iff (by decide)).mp h)

end Loadshear
