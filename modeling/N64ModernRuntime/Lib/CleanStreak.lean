import Mathlib.Data.List.Basic

/-!
# Clean streaks

A log, its newest event first, in which an event is clean for a subject, ends
the streak of the subject, or says nothing about it.  The streak is the number
of clean events since the last one that ended it.
-/

set_option autoImplicit false

namespace CleanStreak

inductive Verdict where
  | clean
  | divergent
  | other
  deriving DecidableEq, Repr

variable {ε : Type} (verdict : ε → Verdict)

/-- The clean events since the latest divergent one. -/
def streak (log : List ε) : Nat :=
  (log.takeWhile fun e => decide (verdict e ≠ .divergent)).countP fun e => decide (verdict e = .clean)

variable {verdict} {e : ε} {older : List ε}

theorem streak_clean (clean : verdict e = .clean) :
    streak verdict (e :: older) = streak verdict older + 1 := by
  simp [streak, clean]

theorem streak_divergent (divergent : verdict e = .divergent) :
    streak verdict (e :: older) = 0 := by
  simp [streak, divergent]

theorem streak_other (other : verdict e = .other) :
    streak verdict (e :: older) = streak verdict older := by
  simp [streak, other]

theorem streak_append_other {newer : List ε} (others : ∀ e ∈ newer, verdict e = .other) :
    streak verdict (newer ++ older) = streak verdict older := by
  induction newer with
  | nil => rfl
  | cons e newer ih =>
      rw [List.cons_append, streak_other (others e List.mem_cons_self)]
      exact ih fun e' mem => others e' (List.mem_cons_of_mem _ mem)

/-- Only a divergent event takes anything away. -/
theorem streak_grows (goes_on : verdict e ≠ .divergent) :
    streak verdict older ≤ streak verdict (e :: older) := by
  cases told : verdict e with
  | clean => rw [streak_clean told]; exact Nat.le_succ _
  | divergent => exact absurd told goes_on
  | other => exact Nat.le_of_eq (streak_other told).symm

/-! ## Workers that carry events -/

section Workers

variable {ω : Type} {carries : ω → Bool} {workers : List ω} {i : Nat} {before : ω}

theorem countP_worker (carries : ω → Bool) (at_i : workers[i]? = some before) (after : ω) :
    (workers.set i after).countP carries + (if carries before then 1 else 0)
      = workers.countP carries + (if carries after then 1 else 0) := by
  induction workers generalizing i with
  | nil => cases at_i
  | cons worker rest ih =>
      cases i with
      | zero =>
          cases Option.some.inj at_i
          simp only [List.set_cons_zero, List.countP_cons]
          omega
      | succ i =>
          have later := ih (i := i) at_i
          simp only [List.set_cons_succ, List.countP_cons]
          omega

theorem mem_set_cases {worker after : ω} (mem : worker ∈ workers.set i after) :
    worker ∈ workers ∨ worker = after := List.mem_or_eq_of_mem_set mem

theorem mem_set_of_mem (at_i : workers[i]? = some before) {worker after : ω}
    (mem : worker ∈ workers) : worker = before ∨ worker ∈ workers.set i after := by
  obtain ⟨j, at_j⟩ := List.getElem?_of_mem mem
  by_cases same : i = j
  · subst same
    exact Or.inl (Option.some.inj (at_j.symm.trans at_i))
  · refine Or.inr (List.mem_of_getElem? (i := j) ?_)
    rw [List.getElem?_set_ne same, at_j]

theorem mem_set_self_of_getElem? (at_i : workers[i]? = some before) (after : ω) :
    after ∈ workers.set i after :=
  List.mem_set (List.getElem?_eq_some_iff.mp at_i).1 after

end Workers

end CleanStreak
