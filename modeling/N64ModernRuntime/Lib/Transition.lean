import Mathlib.Data.Option.Basic
import Mathlib.Tactic.Common

/-!
# Runs of labelled partial step functions

A system is a step function `σ → ℓ → Option σ`: `none` says that the label is
not enabled.  `Reach` collects the states of every run whose steps all meet a
side condition; the induction over runs is done here once, so that an
invariant of a system is two obligations, the initial states and one step.
-/

set_option autoImplicit false

namespace Transition

variable {σ ℓ : Type}

/-- The labels of a list taken one after another, each where `ok` holds. -/
def run (step : σ → ℓ → Option σ) (ok : σ → ℓ → Prop) [∀ s l, Decidable (ok s l)] :
    σ → List ℓ → Option σ
  | s, [] => some s
  | s, l :: ls => if ok s l then (step s l).bind fun t => run step ok t ls else none

/-- The states of the runs from `init` in which every step meets `ok`. -/
inductive Reach (step : σ → ℓ → Option σ) (ok : σ → ℓ → Prop) (init : σ → Prop) : σ → Prop
  | start {s : σ} (first : init s) : Reach step ok init s
  | next {s t : σ} (l : ℓ) (before : Reach step ok init s) (side : ok s l)
      (taken : step s l = some t) : Reach step ok init t

def Always (_ : σ) (_ : ℓ) : Prop := True

instance (s : σ) (l : ℓ) : Decidable (Always s l) := isTrue trivial

section Invariants
variable {step : σ → ℓ → Option σ} {ok : σ → ℓ → Prop} {init : σ → Prop}

/-- The invariant rule: initial states and steps give every reachable state. -/
theorem Reach.invariant {I : σ → Prop} (base : ∀ s, init s → I s)
    (keeps : ∀ s l t, I s → ok s l → step s l = some t → I t)
    {s : σ} (reached : Reach step ok init s) : I s := by
  induction reached with
  | start first => exact base _ first
  | next l _ side taken ih => exact keeps _ l _ ih side taken

/-- The invariant rule where another fact about reachable states is already known. -/
theorem Reach.invariant_of {J I : σ → Prop} (known : ∀ s, Reach step ok init s → J s)
    (base : ∀ s, init s → I s)
    (keeps : ∀ s l t, J s → I s → ok s l → step s l = some t → I t)
    {s : σ} (reached : Reach step ok init s) : I s := by
  induction reached with
  | start first => exact base _ first
  | next l before side taken ih => exact keeps _ l _ (known _ before) ih side taken

theorem Reach.extend [∀ s l, Decidable (ok s l)] {s t : σ} (reached : Reach step ok init s) :
    ∀ ls : List ℓ, run step ok s ls = some t → Reach step ok init t := by
  intro ls
  induction ls generalizing s with
  | nil =>
      intro ran
      cases ran
      exact reached
  | cons l rest ih =>
      intro ran
      simp only [run] at ran
      split at ran
      · rename_i side
        obtain ⟨middle, taken, ran⟩ := Option.bind_eq_some_iff.mp ran
        exact ih (.next l reached side taken) ran
      · contradiction

/-- A concrete run that can be evaluated ends in a reachable state. -/
theorem reach_of_run [∀ s l, Decidable (ok s l)] {s t : σ} (ls : List ℓ) (first : init s)
    (ran : run step ok s ls = some t) : Reach step ok init t :=
  (Reach.start first).extend ls ran

end Invariants

def EachStep (step : σ → ℓ → Option σ) (P : σ → ℓ → σ → Prop) : σ → List ℓ → Prop
  | _, [] => True
  | s, l :: ls => ∀ t, step s l = some t → P s l t ∧ EachStep step P t ls

/-- Two properties of steps that agree under an invariant agree along every run. -/
theorem eachStep_iff {step : σ → ℓ → Option σ} {P Q : σ → ℓ → σ → Prop} {I : σ → Prop}
    (keeps : ∀ s l t, I s → step s l = some t → I t)
    (agree : ∀ s l t, I s → step s l = some t → (P s l t ↔ Q s l t)) {s : σ} (base : I s)
    (ls : List ℓ) : EachStep step P s ls ↔ EachStep step Q s ls := by
  induction ls generalizing s with
  | nil => exact Iff.rfl
  | cons l rest ih =>
      refine forall_congr' fun t => forall_congr' fun taken => ?_
      exact and_congr (agree s l t base taken) (ih (keeps s l t base taken))

end Transition
