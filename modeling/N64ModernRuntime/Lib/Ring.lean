import Mathlib.Logic.Function.Basic
import Mathlib.Tactic.Common
import Mathlib.Tactic.Ring
import Mathlib.Data.Int.ModEq

/-!
# Windows of a circular buffer

`window capacity first count slots` reads `count` slots from `first` on,
wrapping at `capacity`: the contents of a ring buffer as a list.  Writing the
slot behind the window appends, writing the slot in front of it prepends, and
stepping `first` forward drops the head, whatever the wrap position.
-/

set_option autoImplicit false

namespace Ring

variable {α : Type}

/-- The slot `i` places after `first`. -/
def place (capacity first : Int) (i : Nat) : Int := (first + i) % capacity

def window (capacity first : Int) (count : Nat) (slots : Int → α) : List α :=
  (List.range count).map fun i => slots (place capacity first i)

@[simp] theorem window_length (capacity first : Int) (count : Nat) (slots : Int → α) :
    (window capacity first count slots).length = count := by
  simp [window]

@[simp] theorem window_zero (capacity first : Int) (slots : Int → α) :
    window capacity first 0 slots = [] := rfl

section Bounds
variable {capacity first : Int}

theorem place_injective {i j : Nat} (hi : (i : Int) < capacity) (hj : (j : Int) < capacity)
    (same : place capacity first i = place capacity first j) : i = j := by
  have divides : capacity ∣ ((j : Int) - i) := by
    have := Int.ModEq.dvd (show first + (i : Int) ≡ first + j [ZMOD capacity] from same)
    rwa [add_sub_add_left_eq_sub] at this
  have zero := Int.eq_zero_of_abs_lt_dvd divides (abs_lt.mpr ⟨by omega, by omega⟩)
  omega

theorem place_pred (i : Nat) :
    place capacity ((first + capacity - 1) % capacity) (i + 1) = place capacity first i := by
  unfold place
  rw [Int.emod_add_emod]
  have : first + capacity - 1 + ((i + 1 : Nat) : Int) = first + i + capacity := by push_cast; ring
  rw [this, Int.add_emod_right]

theorem place_succ (i : Nat) :
    place capacity ((first + 1) % capacity) i = place capacity first (i + 1) := by
  unfold place
  rw [Int.emod_add_emod]
  congr 1
  push_cast
  ring

end Bounds

theorem window_update_out {capacity : Int} (first : Int) {count : Nat} (slots : Int → α) {k : Int}
    (x : α) (out : ∀ i < count, place capacity first i ≠ k) :
    window capacity first count (Function.update slots k x) =
      window capacity first count slots := by
  apply List.map_congr_left
  intro i member
  exact Function.update_of_ne (out i (List.mem_range.mp member)) _ _

theorem window_push_back {capacity : Int} (first : Int) {count : Nat} (slots : Int → α) (x : α)
    (room : (count : Int) < capacity) :
    window capacity first (count + 1) (Function.update slots (place capacity first count) x) =
      window capacity first count slots ++ [x] := by
  have outside : ∀ i < count, place capacity first i ≠ place capacity first count := by
    intro i inside same
    have := place_injective (by omega) room same
    omega
  have old := window_update_out first slots x outside
  rw [window, List.range_succ, List.map_append, ← window, old]
  simp

theorem window_push_front {capacity : Int} (first : Int) {count : Nat} (slots : Int → α) (x : α)
    (room : (count : Int) < capacity) :
    window capacity ((first + capacity - 1) % capacity) (count + 1)
        (Function.update slots ((first + capacity - 1) % capacity) x) =
      x :: window capacity first count slots := by
  have positive : 0 < capacity := by omega
  have base : place capacity ((first + capacity - 1) % capacity) 0 =
      (first + capacity - 1) % capacity := by
    unfold place
    rw [Nat.cast_zero, add_zero, Int.emod_emod_of_dvd _ (dvd_refl capacity)]
  rw [window, List.range_succ_eq_map, List.map_cons, base, Function.update_self, List.map_map]
  congr 1
  apply List.map_congr_left
  intro i member
  have inside : i < count := List.mem_range.mp member
  simp only [Function.comp]
  have other : place capacity ((first + capacity - 1) % capacity) (i + 1) ≠
      (first + capacity - 1) % capacity := by
    intro same
    have := place_injective (j := 0) (by omega) (by omega) (same.trans base.symm)
    omega
  rw [Function.update_of_ne other, place_pred]

theorem window_pop_front (capacity first : Int) (count : Nat) (slots : Int → α) :
    window capacity first (count + 1) slots =
      slots (first % capacity) :: window capacity ((first + 1) % capacity) count slots := by
  rw [window, List.range_succ_eq_map, List.map_cons, List.map_map]
  congr 1
  · simp [place]
  · apply List.map_congr_left
    intro i _
    simp only [Function.comp]
    rw [place_succ]

end Ring
