import Mathlib.Data.List.Basic

/-!
# Frames of a stream

A stream of headers of fixed size, each of which says how long the body behind
it is, that there is none to take, or that the stream is given up. `frames` is
the list of complete frames, `givenUp` says that one of the headers gives up.
Once a stream is cut at the end of a frame, what follows is read independently
of what came before (`Cut.frames_append`, `Cut.givenUp_append`).
-/

namespace Framing

variable {α : Type*}

/-- What a header says. -/
inductive Verdict where
  | skip
  | close
  | body (length : Nat)
deriving DecidableEq

variable {size : Nat} {verdict : List α → Verdict} {header body done stream : List α}

def frames (size : Nat) (verdict : List α → Verdict) (stream : List α) : List (List α × List α) :=
  if size = 0 ∨ stream.length < size then []
  else
    let header := stream.take size
    match verdict header with
    | .skip => frames size verdict (stream.drop size)
    | .close => []
    | .body n =>
      if stream.length < size + n then []
      else (header, (stream.drop size).take n) :: frames size verdict (stream.drop (size + n))
termination_by stream.length
decreasing_by all_goals simp only [List.length_drop]; omega

def givenUp (size : Nat) (verdict : List α → Verdict) (stream : List α) : Bool :=
  if size = 0 ∨ stream.length < size then false
  else
    match verdict (stream.take size) with
    | .skip => givenUp size verdict (stream.drop size)
    | .close => true
    | .body n =>
      if stream.length < size + n then false else givenUp size verdict (stream.drop (size + n))
termination_by stream.length
decreasing_by all_goals simp only [List.length_drop]; omega

theorem frames_short (h : stream.length < size) : frames size verdict stream = [] := by
  unfold frames
  rw [if_pos (.inr h)]

theorem givenUp_short (h : stream.length < size) : givenUp size verdict stream = false := by
  unfold givenUp
  rw [if_pos (.inr h)]

theorem mem_frames {f : List α × List α} (hf : f ∈ frames size verdict stream) :
    f.1.length = size ∧ verdict f.1 = .body f.2.length := by
  fun_induction frames size verdict stream with
  | case1 stream h => cases hf
  | case2 stream h header hv ih => exact ih hf
  | case3 stream h header hv => cases hf
  | case4 stream h header n hv hn => cases hf
  | case5 stream h header n hv hn ih =>
    rcases List.mem_cons.mp hf with rfl | hf
    · have hbody : ((stream.drop size).take n).length = n := by
        rw [List.length_take, List.length_drop]
        omega
      refine ⟨List.length_take_of_le (by omega), ?_⟩
      rw [hbody]
      exact hv
    · exact ih hf

section Header

variable (hs : 0 < size) (hl : header.length = size)

include hs hl

theorem frames_skip (hv : verdict header = .skip) :
    frames size verdict (header ++ stream) = frames size verdict stream := by
  subst hl
  have hle : ¬ header.length + stream.length < header.length := by omega
  rw [frames]
  simp [hv, Nat.ne_of_gt hs, hle]

theorem frames_close (hv : verdict header = .close) : frames size verdict (header ++ stream) = [] := by
  subst hl
  rw [frames]
  simp [hv]

theorem frames_body (hv : verdict header = .body body.length) :
    frames size verdict (header ++ (body ++ stream)) = (header, body) :: frames size verdict stream := by
  subst hl
  have hle : ¬ header.length + (body.length + stream.length) < header.length := by omega
  have hle' : ¬ body.length + stream.length < body.length := by omega
  rw [frames]
  simp [hv, Nat.ne_of_gt hs, hle, hle', ← List.drop_drop]

theorem frames_cut {n : Nat} (hv : verdict header = .body n) (hn : stream.length < n) :
    frames size verdict (header ++ stream) = [] := by
  subst hl
  rw [frames]
  simp [hv, hn]

theorem givenUp_skip (hv : verdict header = .skip) :
    givenUp size verdict (header ++ stream) = givenUp size verdict stream := by
  subst hl
  have hle : ¬ header.length + stream.length < header.length := by omega
  rw [givenUp]
  simp [hv, Nat.ne_of_gt hs, hle]

theorem givenUp_close (hv : verdict header = .close) : givenUp size verdict (header ++ stream) = true := by
  subst hl
  rw [givenUp]
  simp [hv, Nat.ne_of_gt hs]

theorem givenUp_body (hv : verdict header = .body body.length) :
    givenUp size verdict (header ++ (body ++ stream)) = givenUp size verdict stream := by
  subst hl
  have hle : ¬ header.length + (body.length + stream.length) < header.length := by omega
  have hle' : ¬ body.length + stream.length < body.length := by omega
  rw [givenUp]
  simp [hv, Nat.ne_of_gt hs, hle, hle', ← List.drop_drop]

theorem givenUp_cut {n : Nat} (hv : verdict header = .body n) (hn : stream.length < n) :
    givenUp size verdict (header ++ stream) = false := by
  subst hl
  rw [givenUp]
  simp [hv, hn]

end Header

/-- The list ends where a frame does, and these are its frames. -/
inductive Cut (size : Nat) (verdict : List α → Verdict) : List α → List (List α × List α) → Prop
  | nil : Cut size verdict [] []
  | skip {done header : List α} {frames : List (List α × List α)} (h : Cut size verdict done frames)
      (hl : header.length = size) (hv : verdict header = .skip) : Cut size verdict (done ++ header) frames
  | body {done header body : List α} {frames : List (List α × List α)} (h : Cut size verdict done frames)
      (hl : header.length = size) (hv : verdict header = .body body.length) :
    Cut size verdict (done ++ (header ++ body)) (frames ++ [(header, body)])

theorem Cut.frames_append {fs : List (List α × List α)} (hs : 0 < size) (h : Cut size verdict done fs) :
    frames size verdict (done ++ stream) = fs ++ frames size verdict stream := by
  induction h generalizing stream with
  | nil => rfl
  | skip h hl hv ih => rw [List.append_assoc, ih, frames_skip hs hl hv]
  | body h hl hv ih => rw [List.append_assoc, ih, List.append_assoc, frames_body hs hl hv, List.append_assoc]; rfl

theorem Cut.frames_eq {fs : List (List α × List α)} (hs : 0 < size) (h : Cut size verdict done fs) :
    frames size verdict done = fs := by
  have happ : frames size verdict (done ++ []) = fs ++ frames size verdict [] := h.frames_append hs
  have hnil : frames size verdict [] = [] := frames_short (by simpa using hs)
  rwa [hnil, List.append_nil, List.append_nil] at happ

theorem Cut.givenUp_append {fs : List (List α × List α)} (hs : 0 < size) (h : Cut size verdict done fs) :
    givenUp size verdict (done ++ stream) = givenUp size verdict stream := by
  induction h generalizing stream with
  | nil => rfl
  | skip h hl hv ih => rw [List.append_assoc, ih, givenUp_skip hs hl hv]
  | body h hl hv ih => rw [List.append_assoc, ih, List.append_assoc, givenUp_body hs hl hv]

theorem Cut.givenUp_eq {fs : List (List α × List α)} (hs : 0 < size) (h : Cut size verdict done fs) :
    givenUp size verdict done = false := by
  rw [← List.append_nil done, h.givenUp_append hs]
  exact givenUp_short (by simpa using hs)

end Framing
