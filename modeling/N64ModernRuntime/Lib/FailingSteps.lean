import Mathlib.Data.List.Basic

/-!
# Steps that may fail

A step changes a state and returns the errors that it met; it has failed when
it met one, and what it changed until then is not undone.  Steps are put
together in two ways: one after another up to the first that fails, or all of
them with the errors of each.
-/

set_option autoImplicit false

namespace FailingSteps

variable {σ ε : Type}

abbrev Step (σ ε : Type) := σ → σ × List ε

/-- The steps one after another, none after one that has failed. -/
def untilError : List (Step σ ε) → Step σ ε
  | [], s => (s, [])
  | f :: rest, s => if (f s).2 = [] then untilError rest (f s).1 else f s

/-- Every step, whatever the others have met. -/
def collect : List (Step σ ε) → Step σ ε
  | [], s => (s, [])
  | f :: rest, s => ((collect rest (f s).1).1, (f s).2 ++ (collect rest (f s).1).2)

section Rules
variable {f : Step σ ε} {fs rest : List (Step σ ε)} {s : σ}

theorem untilError_cons_ok (rest : List (Step σ ε)) (ok : (f s).2 = []) :
    untilError (f :: rest) s = untilError rest (f s).1 :=
  if_pos ok

theorem untilError_cons_failed (rest : List (Step σ ε)) (failed : (f s).2 ≠ []) :
    untilError (f :: rest) s = f s :=
  if_neg failed

theorem untilError_cons_errors (rest : List (Step σ ε)) :
    (untilError (f :: rest) s).2 = [] ↔ (f s).2 = [] ∧ (untilError rest (f s).1).2 = [] := by
  by_cases first : (f s).2 = []
  · rw [untilError_cons_ok rest first]
    exact (and_iff_right first).symm
  · rw [untilError_cons_failed rest first]
    exact iff_of_false first fun both => first both.1

theorem untilError_singleton (f : Step σ ε) (s : σ) : untilError [f] s = f s := by
  by_cases ok : (f s).2 = []
  · rw [untilError_cons_ok [] ok, untilError, ← ok]
  · exact untilError_cons_failed [] ok

theorem untilError_append_ok (gs : List (Step σ ε)) (ok : (untilError fs s).2 = []) :
    untilError (fs ++ gs) s = untilError gs (untilError fs s).1 := by
  induction fs generalizing s with
  | nil => rfl
  | cons f rest ih =>
      by_cases first : (f s).2 = []
      · rw [untilError_cons_ok rest first] at ok ⊢
        rw [List.cons_append, untilError_cons_ok _ first]
        exact ih ok
      · rw [untilError_cons_failed rest first] at ok
        exact absurd ok first

theorem untilError_append_failed (gs : List (Step σ ε)) (failed : (untilError fs s).2 ≠ []) :
    untilError (fs ++ gs) s = untilError fs s := by
  induction fs generalizing s with
  | nil => exact absurd rfl failed
  | cons f rest ih =>
      by_cases first : (f s).2 = []
      · rw [untilError_cons_ok rest first] at failed ⊢
        rw [List.cons_append, untilError_cons_ok _ first]
        exact ih failed
      · rw [untilError_cons_failed rest first, List.cons_append, untilError_cons_failed _ first]

end Rules

section Relations
variable {σ ε : Type} {R : σ → σ → Prop} {fs : List (Step σ ε)}

/-- What each step keeps to, a run keeps to. -/
theorem untilError_related (refl : ∀ s, R s s) (trans : ∀ {s t u}, R s t → R t u → R s u)
    (steps : ∀ f ∈ fs, ∀ s, R s (f s).1) (s : σ) : R s (untilError fs s).1 := by
  induction fs generalizing s with
  | nil => exact refl s
  | cons f rest ih =>
      have first := steps f List.mem_cons_self s
      by_cases ok : (f s).2 = []
      · rw [untilError_cons_ok rest ok]
        exact trans first (ih (fun g mem => steps g (List.mem_cons_of_mem f mem)) _)
      · rw [untilError_cons_failed rest ok]
        exact first

theorem collect_related (refl : ∀ s, R s s) (trans : ∀ {s t u}, R s t → R t u → R s u)
    (steps : ∀ f ∈ fs, ∀ s, R s (f s).1) (s : σ) : R s (collect fs s).1 := by
  induction fs generalizing s with
  | nil => exact refl s
  | cons f rest ih =>
      exact trans (steps f List.mem_cons_self s)
        (ih (fun g mem => steps g (List.mem_cons_of_mem f mem)) _)

theorem untilError_cons_rule {P : σ → Prop} {f : Step σ ε} {rest : List (Step σ ε)} {s : σ}
    (first : P (f s).1) (later : (f s).2 = [] → P (untilError rest (f s).1).1) :
    P (untilError (f :: rest) s).1 := by
  by_cases ok : (f s).2 = []
  · rw [untilError_cons_ok rest ok]
    exact later ok
  · rw [untilError_cons_failed rest ok]
    exact first

end Relations

end FailingSteps
