import Loadshear.Script

/-!
# Files and environment

`Env` is the machine the program runs on: environment variables, the file
system, the allocator and the thread count, all fixed for one run.
`resolveFile` is `resolver.cpp` over it.
-/

namespace Loadshear

structure Env where
  /-- `global_options.expand_envs`, set once at startup. -/
  expandEnvs : Bool
  getenv : String → Option String
  /-- `fs::canonical`: the path, or the message of the error code. -/
  canonical : String → Except String String
  /-- Whether an `ifstream` on the path opens. -/
  canOpen : String → Bool
  /-- `get_file_size`, which is 0 when the size cannot be read. -/
  fileSize : String → UInt64
  /-- `file.read` of this many bytes into a buffer of that size. -/
  readBytes : String → Nat → Option (List UInt8)
  readBytes_length : ∀ path n bytes, readBytes path n = some bytes → bytes.length = n
  /-- Whether `buf.resize` of this size gets its memory. -/
  canAllocate : UInt64 → Bool
  hardwareConcurrency : UInt32

/-- A machine that holds these files and nothing else. -/
def Env.ofFiles (files : List (String × List UInt8)) : Env where
  expandEnvs := false
  getenv _ := none
  canonical path := if (files.lookup path).isSome then .ok path else .error "No such file or directory"
  canOpen path := (files.lookup path).isSome
  fileSize path := UInt64.ofNat ((files.lookup path).getD []).length
  readBytes path n := (files.lookup path).bind fun bytes => if bytes.length = n then some bytes else none
  readBytes_length path n bytes h := by
    obtain ⟨b, _, h⟩ := Option.bind_eq_some_iff.mp h
    split at h
    · cases h; assumption
    · cases h
  canAllocate _ := true
  hardwareConcurrency := 4

/-- The C string that `std::getenv` reads. -/
def cStr (s : List Char) : String := String.ofList (s.takeWhile (· ≠ '\x00'))

/-- State of the scan in `expand_env_variables`. -/
structure ExpandState where
  outPath : List Char := []
  findingEnv : Bool := false
  currentEnvStr : List Char := []

def expandStep (getenv : String → Option String) (s : ExpandState) (c : Char) : ExpandState :=
  if c = '$' then { s with findingEnv := true, currentEnvStr := [] }
  else
    let s :=
      if c = '/' ∧ s.findingEnv then
        { s with
          findingEnv := false
          outPath := s.outPath ++ ((getenv (cStr s.currentEnvStr)).getD "").toList }
      else s
    if s.findingEnv then { s with currentEnvStr := s.currentEnvStr ++ [c] }
    else { s with outPath := s.outPath ++ [c] }

/-- Turn every `$ENV` into the corresponding variable. -/
def expandEnvVariables (getenv : String → Option String) (inPath : String) : String :=
  String.ofList (inPath.toList.foldl (expandStep getenv) {}).outPath

/-- Expand `~/` to the user's home. -/
def expandTilde (getenv : String → Option String) (inPath : String) : String :=
  if inPath.toList.take 2 = ['~', '/'] then
    match getenv "HOME" with
    | some home => home ++ String.ofList (inPath.toList.drop 1)
    | none => inPath
  else inPath

def resolveFile (env : Env) (rawFile : String) : Except String String :=
  let expanded := if env.expandEnvs then expandEnvVariables env.getenv rawFile else rawFile
  env.canonical (expandTilde env.getenv expanded)

end Loadshear
