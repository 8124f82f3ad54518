import Mathlib.Data.List.Basic

/-!
# Lists cut into segments

A list that is kept flat, with the index at which each of its segments starts.
-/

set_option autoImplicit false

namespace Segments

variable {α : Type}

/-- `xs[first], ..., xs[last - 1]` -/
def slice (xs : List α) (first last : Nat) : List α := (xs.drop first).take (last - first)

def start (segments : List (List α)) (index : Nat) : Nat := (segments.take index).flatten.length

variable {segments : List (List α)} {segment : List α} {index : Nat}

theorem start_succ (here : segments[index]? = some segment) :
    start segments (index + 1) = start segments index + segment.length := by
  obtain ⟨below, rfl⟩ := List.getElem?_eq_some_iff.mp here
  rw [start, start, List.take_succ_eq_append_getElem below, List.flatten_append, List.length_append,
    List.flatten_singleton]

/-- The last start is the end of the flat list. -/
theorem start_of_length_le (past : segments.length ≤ index) :
    start segments index = segments.flatten.length := by
  rw [start, List.take_of_length_le past]

theorem slice_flatten (here : segments[index]? = some segment) :
    slice segments.flatten (start segments index) (start segments (index + 1)) = segment := by
  obtain ⟨below, same⟩ := List.getElem?_eq_some_iff.mp here
  have cut : segments = segments.take index ++ segment :: segments.drop (index + 1) := by
    rw [← same, ← List.drop_eq_getElem_cons below, List.take_append_drop]
  have flat : segments.flatten =
      (segments.take index).flatten ++ (segment ++ (segments.drop (index + 1)).flatten) := by
    conv_lhs => rw [cut]
    rw [List.flatten_append, List.flatten_cons]
  rw [slice, start_succ here, flat, start, List.drop_left, Nat.add_sub_cancel_left, List.take_left]

end Segments
