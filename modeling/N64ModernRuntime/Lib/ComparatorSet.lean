import Mathlib.Data.List.Pairwise
import Mathlib.Data.List.Nodup
import Mathlib.Tactic.Common

/-!
# Ordered sets behind a comparator

A set kept in the order of a comparator, as its sequence.  Insert and erase
know elements by the comparator alone: two of which neither is less are the
same.  They mean what a search tree's do as long as the sequence is ordered.
-/

set_option autoImplicit false

namespace ComparatorSet

variable {α : Type}

structure StrictTotal (lt : α → α → Bool) : Prop where
  irrefl : ∀ x, lt x x = false
  trans : ∀ x y z, lt x y = true → lt y z = true → lt x z = true
  total : ∀ x y, lt x y = false → lt y x = false → x = y

def Ordered (lt : α → α → Bool) (xs : List α) : Prop := xs.Pairwise fun x y => lt x y = true

def insert (lt : α → α → Bool) (x : α) : List α → List α
  | [] => [x]
  | y :: ys => if lt x y then x :: y :: ys else if lt y x then y :: insert lt x ys else y :: ys

def erase (lt : α → α → Bool) (x : α) : List α → List α
  | [] => []
  | y :: ys => if lt x y then y :: ys else if lt y x then y :: erase lt x ys else ys

section Laws
variable {lt : α → α → Bool} {x y : α} {xs : List α}

theorem StrictTotal.ne_of_lt (order : StrictTotal lt) (less : lt x y = true) : x ≠ y := by
  rintro rfl
  rw [order.irrefl x] at less
  contradiction

theorem StrictTotal.asymm (order : StrictTotal lt) (less : lt x y = true) : lt y x = false := by
  rw [← Bool.not_eq_true]
  intro greater
  exact order.ne_of_lt (order.trans x y x less greater) rfl

theorem StrictTotal.lt_of_not (order : StrictTotal lt) (apart : x ≠ y) (notLess : lt y x = false) :
    lt x y = true := by
  rw [← Bool.not_eq_false]
  intro notGreater
  exact apart (order.total x y notGreater notLess)

theorem Ordered.nodup (order : StrictTotal lt) (ordered : Ordered lt xs) : xs.Nodup :=
  List.Pairwise.imp (fun less => order.ne_of_lt less) ordered

theorem Ordered.congr {lt' : α → α → Bool} (ordered : Ordered lt xs)
    (same : ∀ x ∈ xs, ∀ y ∈ xs, lt x y = true → lt' x y = true) : Ordered lt' xs :=
  List.Pairwise.imp_of_mem (fun hx hy less => same _ hx _ hy less) ordered

/-- Two comparators in whose order one sequence is agree on its elements. -/
theorem Ordered.agree {lt' : α → α → Bool} (order : StrictTotal lt) (order' : StrictTotal lt')
    (ordered : Ordered lt xs) (ordered' : Ordered lt' xs) (hx : x ∈ xs) (hy : y ∈ xs) :
    lt x y = lt' x y := by
  have both : xs.Pairwise fun x y => lt x y = lt' x y ∧ lt y x = lt' y x :=
    (List.Pairwise.and ordered ordered').imp fun ⟨less, less'⟩ =>
      ⟨less.trans less'.symm, (order.asymm less).trans (order'.asymm less').symm⟩
  have same : ∀ z ∈ xs, lt z z = lt' z z ∧ lt z z = lt' z z := fun z _ => by
    simp [order.irrefl, order'.irrefl]
  exact (List.Pairwise.forall_of_forall_of_flip same both (both.imp And.symm) hx hy).1

theorem mem_insert (order : StrictTotal lt) : y ∈ insert lt x xs ↔ y = x ∨ y ∈ xs := by
  induction xs with
  | nil => simp [insert]
  | cons z zs ih =>
      simp only [insert]
      split
      · simp
      split
      · simp only [List.mem_cons, ih]
        tauto
      · rename_i notLess notGreater
        have same : x = z := order.total x z (by simpa using notLess) (by simpa using notGreater)
        simp [same]

theorem insert_ordered (order : StrictTotal lt) (ordered : Ordered lt xs) :
    Ordered lt (insert lt x xs) := by
  induction xs with
  | nil => exact List.pairwise_singleton _ _
  | cons z zs ih =>
      obtain ⟨first, rest⟩ := List.pairwise_cons.mp ordered
      simp only [insert]
      split
      · rename_i less
        refine List.pairwise_cons.mpr ⟨fun y member => ?_, ordered⟩
        rcases List.mem_cons.mp member with rfl | later
        · exact less
        · exact order.trans x z y less (first y later)
      split
      · rename_i greater
        refine List.pairwise_cons.mpr ⟨fun y member => ?_, ih rest⟩
        rcases (mem_insert order).mp member with rfl | later
        · exact greater
        · exact first y later
      · exact ordered

theorem erase_sublist : (erase lt x xs).Sublist xs := by
  induction xs with
  | nil => exact List.Sublist.refl _
  | cons z zs ih =>
      simp only [erase]
      split
      · exact List.Sublist.refl _
      split
      · exact ih.cons_cons z
      · exact List.sublist_cons_self z zs

theorem erase_ordered (ordered : Ordered lt xs) : Ordered lt (erase lt x xs) :=
  List.Pairwise.sublist erase_sublist ordered

theorem mem_erase (order : StrictTotal lt) (ordered : Ordered lt xs) :
    y ∈ erase lt x xs ↔ y ≠ x ∧ y ∈ xs := by
  induction xs with
  | nil => simp [erase]
  | cons z zs ih =>
      obtain ⟨first, rest⟩ := List.pairwise_cons.mp ordered
      simp only [erase]
      split
      · -- the search ends in front of a greater element, so the set does not have it
        rename_i less
        constructor
        · intro member
          refine ⟨?_, member⟩
          rintro rfl
          rcases List.mem_cons.mp member with rfl | later
          · exact order.ne_of_lt less rfl
          · exact order.ne_of_lt (order.trans y z y less (first y later)) rfl
        · exact And.right
      split
      · rename_i greater
        have other : z ≠ x := order.ne_of_lt greater
        simp only [List.mem_cons, ih rest]
        constructor
        · rintro (rfl | ⟨apart, later⟩)
          · exact ⟨other, .inl rfl⟩
          · exact ⟨apart, .inr later⟩
        · rintro ⟨apart, rfl | later⟩
          · exact .inl rfl
          · exact .inr ⟨apart, later⟩
      · rename_i notLess notGreater
        have same : x = z := order.total x z (by simpa using notLess) (by simpa using notGreater)
        subst same
        constructor
        · intro later
          exact ⟨(order.ne_of_lt (first y later)).symm, List.mem_cons_of_mem x later⟩
        · rintro ⟨apart, member⟩
          exact (List.mem_cons.mp member).resolve_left apart

theorem erase_head (order : StrictTotal lt) : erase lt x (x :: xs) = xs := by
  simp [erase, order.irrefl x]

end Laws

end ComparatorSet
