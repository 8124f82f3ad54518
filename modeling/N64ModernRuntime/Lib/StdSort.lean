import Mathlib.Data.List.Sort

/-!
# Sorting behind a comparator

A sort that is known by its specification alone: for a strict weak order it
returns the elements in order, and those of which neither is less in any order.
-/

set_option autoImplicit false

namespace StdSort

variable {α β : Type}

structure StrictWeak (before : α → α → Bool) : Prop where
  asymm : ∀ a b, before a b = true → before b a = false
  /-- `b` cannot lie apart from both ends of an ordered pair -/
  negTrans : ∀ a b c, before a b = false → before b c = false → before a c = false

def Sorted (before : α → α → Bool) (xs : List α) : Prop := xs.Pairwise fun a b => before b a = false

structure Sorter (α : Type) where
  sort : (α → α → Bool) → List α → List α
  perm : ∀ before xs, (sort before xs).Perm xs
  sorted : ∀ before xs, StrictWeak before → Sorted before (sort before xs)

theorem StrictWeak.of_key {before : α → α → Bool} {key : α → β} [LinearOrder β]
    (byKey : ∀ a b, before a b = decide (key a < key b)) : StrictWeak before where
  asymm a b less := by
    rw [byKey, decide_eq_true_eq] at less
    rw [byKey, decide_eq_false_iff_not]
    exact lt_asymm less
  negTrans a b c first second := by
    rw [byKey, decide_eq_false_iff_not, not_lt] at first second
    rw [byKey, decide_eq_false_iff_not, not_lt]
    exact le_trans second first

/-- Elements of which always one is less leave no choice. -/
theorem Sorted.unique {before : α → α → Bool} {xs ys : List α} (perm : xs.Perm ys)
    (sorted : Sorted before xs) (weak : StrictWeak before)
    (strict : ys.Pairwise fun a b => before a b = true) : xs = ys := by
  have apart : ∀ a ∈ ys, ∀ b ∈ ys, a = b ∨ before a b = true ∨ before b a = true := by
    intro a in_a b in_b
    refine List.Pairwise.forall_of_forall_of_flip
      (R := fun a b => a = b ∨ before a b = true ∨ before b a = true)
      (fun a _ => Or.inl rfl) ?_ ?_ in_a in_b
    · exact strict.imp fun less => Or.inr (Or.inl less)
    · exact strict.imp fun less => Or.inr (Or.inr less)
  have sorted_ys : Sorted before ys := strict.imp fun less => weak.asymm _ _ less
  refine perm.eq_of_pairwise ?_ sorted sorted_ys
  intro a b in_xs in_ys not_less not_greater
  rcases apart a (perm.mem_iff.mp in_xs) b in_ys with same | less | less
  · exact same
  · rw [less] at not_greater
    contradiction
  · rw [less] at not_less
    contradiction

def insertion (α : Type) : Sorter α where
  sort before xs := xs.insertionSort fun a b => before b a = false
  perm before xs := List.perm_insertionSort _ xs
  sorted before xs weak := by
    have total : Std.Total fun a b => before b a = false := by
      constructor
      intro a b
      by_cases less : before b a = true
      · exact .inr (weak.asymm b a less)
      · exact .inl (Bool.not_eq_true _ ▸ less)
    have transitive : IsTrans α fun a b => before b a = false :=
      ⟨fun a b c first second => weak.negTrans c b a second first⟩
    exact List.pairwise_insertionSort _ xs

end StdSort
