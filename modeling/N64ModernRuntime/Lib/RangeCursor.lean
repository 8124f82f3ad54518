import Mathlib.Data.List.Basic
import Mathlib.Data.List.TakeWhile

/-!
# Copying ranges out of a sorted list

A cursor moves once over a list that is sorted by a key.  For each of some
ranges, taken in the order of their lower ends, it skips what lies before the
range and copies what lies before its end.  Of every range exactly what is in
the list has then been copied, also where ranges overlap.
-/

set_option autoImplicit false

namespace RangeCursor

variable {α : Type} (key : α → Nat)

structure Range where
  lower : Nat
  upper : Nat

def Range.holds (range : Range) (x : α) : Bool :=
  decide (range.lower ≤ key x) && decide (key x < range.upper)

def skipped (xs : List α) (index lower : Nat) : Nat :=
  ((xs.drop index).takeWhile fun x => decide (key x < lower)).length

def taken (xs : List α) (index upper : Nat) : List α :=
  (xs.drop index).takeWhile fun x => decide (key x < upper)

/-- What has been copied when the cursor is at `index` and the last range began
at `floor`: the elements from the floor on, and those of each range so far, of
which none is left. -/
structure Exact (xs : List α) (ranges : List Range) (floor index : Nat) (copied : List α) :
    Prop where
  from_floor : ∀ p : α → Bool, (∀ x, p x = true → floor ≤ key x) →
    copied.filter p = (xs.take index).filter p
  each : ∀ range ∈ ranges, copied.filter (range.holds key) =
    (xs.take index).filter (range.holds key)
  passed : ∀ range ∈ ranges, ∀ x ∈ xs.drop index, range.holds key x = false

variable {key} {xs copied : List α} {ranges : List Range} {floor index : Nat}

theorem Exact.start : Exact key xs [] 0 0 [] where
  from_floor p _ := by rw [List.take_zero]
  each range none := absurd none List.not_mem_nil
  passed range none := absurd none List.not_mem_nil

theorem takeWhile_eq_take (p : α → Bool) (xs : List α) :
    xs.takeWhile p = xs.take (xs.takeWhile p).length := by
  have := List.takeWhile_prefix p (l := xs)
  exact (List.prefix_iff_eq_take.mp this)

theorem le_of_mem_dropWhile {ys : List α} {bound : Nat}
    (sorted : ys.Pairwise fun x y => key x ≤ key y) :
    ∀ x ∈ ys.drop (ys.takeWhile fun x => decide (key x < bound)).length, bound ≤ key x := by
  induction ys with
  | nil => simp
  | cons y rest ih =>
      intro x member
      obtain ⟨least, sorted⟩ := List.pairwise_cons.mp sorted
      by_cases before : key y < bound
      · rw [List.takeWhile_cons_of_pos (by simpa using before)] at member
        exact ih sorted x member
      · rw [List.takeWhile_cons_of_neg (by simpa using before)] at member
        rcases List.mem_cons.mp member with rfl | later
        · exact Nat.le_of_not_lt before
        · exact Nat.le_trans (Nat.le_of_not_lt before) (least x later)

/-- One more range, which begins no earlier than the last. -/
theorem Exact.next (exact_ : Exact key xs ranges floor index copied)
    (sorted : xs.Pairwise fun x y => key x ≤ key y) (range : Range) (above : floor ≤ range.lower) :
    Exact key xs (ranges ++ [range]) range.lower
      (index + skipped key xs index range.lower +
        (taken key xs (index + skipped key xs index range.lower) range.upper).length)
      (copied ++ taken key xs (index + skipped key xs index range.lower) range.upper) := by
  generalize middle_eq : index + skipped key xs index range.lower = middle
  have skip : xs.take middle = xs.take index ++
      (xs.drop index).takeWhile fun x => decide (key x < range.lower) := by
    rw [← middle_eq, skipped, List.take_add, ← takeWhile_eq_take]
  have copy : xs.take (middle + (taken key xs middle range.upper).length) =
      xs.take middle ++ taken key xs middle range.upper := by
    rw [List.take_add, taken, ← takeWhile_eq_take]
  have skippedBelow : ∀ x ∈ (xs.drop index).takeWhile fun x => decide (key x < range.lower),
      key x < range.lower := by
    intro x member
    have before := List.mem_takeWhile_imp member
    exact of_decide_eq_true before
  have copiedAfter : ∀ x ∈ taken key xs middle range.upper, x ∈ xs.drop index := by
    intro x member
    have inside := (List.takeWhile_prefix _).subset member
    rw [← middle_eq, ← List.drop_drop] at inside
    exact List.mem_of_mem_drop inside
  have left : ∀ x ∈ xs.drop (middle + (taken key xs middle range.upper).length),
      range.upper ≤ key x := by
    intro x member
    rw [← List.drop_drop] at member
    exact le_of_mem_dropWhile (sorted.sublist (List.drop_sublist _ _)) x member
  have from_lower : ∀ p : α → Bool, (∀ x, p x = true → range.lower ≤ key x) →
      (copied ++ taken key xs middle range.upper).filter p =
        (xs.take (middle + (taken key xs middle range.upper).length)).filter p := by
    intro p high
    have noneSkipped : ((xs.drop index).takeWhile fun x => decide (key x < range.lower)).filter p
        = [] := by
      refine List.filter_eq_nil_iff.mpr fun x member holds => ?_
      have := skippedBelow x member
      have := high x holds
      omega
    rw [copy, skip, List.filter_append, List.filter_append, List.filter_append, noneSkipped,
      List.append_nil, exact_.from_floor p fun x holds => Nat.le_trans above (high x holds)]
  refine ⟨from_lower, ?_, ?_⟩
  · intro r member
    rcases List.mem_append.mp member with old | new_
    · -- nothing of an older range lies behind the cursor
      have none : ∀ ys : List α, (∀ x ∈ ys, x ∈ xs.drop index) → ys.filter (r.holds key) = [] := by
        intro ys inside
        refine List.filter_eq_nil_iff.mpr fun x member holds => ?_
        rw [exact_.passed r old x (inside x member)] at holds
        contradiction
      rw [copy, skip, List.filter_append, List.filter_append, List.filter_append,
        none _ copiedAfter, none _ fun x member => (List.takeWhile_prefix _).subset member,
        List.append_nil, List.append_nil, List.append_nil]
      exact exact_.each r old
    · rw [List.mem_singleton.mp new_]
      refine from_lower _ fun x holds => ?_
      exact of_decide_eq_true ((Bool.and_eq_true _ _).mp holds).1
  · intro r member x behind
    rcases List.mem_append.mp member with old | new_
    · refine exact_.passed r old x ?_
      rw [← middle_eq, Nat.add_assoc, ← List.drop_drop] at behind
      exact List.mem_of_mem_drop behind
    · rw [List.mem_singleton.mp new_, Range.holds, decide_eq_false (Nat.not_lt.mpr (left x behind)),
        Bool.and_false]

theorem Exact.filter (exact_ : Exact key xs ranges floor index copied) {range : Range}
    (member : range ∈ ranges) : copied.filter (range.holds key) = xs.filter (range.holds key) := by
  have behind : (xs.drop index).filter (range.holds key) = [] := by
    refine List.filter_eq_nil_iff.mpr fun x inside => ?_
    rw [exact_.passed range member x inside]
    exact Bool.false_ne_true
  rw [exact_.each range member]
  conv_rhs => rw [← List.take_append_drop index xs, List.filter_append, behind, List.append_nil]

end RangeCursor
