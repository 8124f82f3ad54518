import Mathlib.Data.List.Basic
import Mathlib.Tactic.Common

/-!
# Buffers of a fixed size behind checked indices

Loads and stores run one after the other and stop at the first index that is
not below the size.
-/

set_option autoImplicit false

namespace CheckedBuffer

variable {α : Type} {n : Nat}

def writeAll (buffer : Vector α n) : List (Nat × α) → Except Nat (Vector α n)
  | [] => .ok buffer
  | (i, a) :: rest => if inside : i < n then writeAll (buffer.set i a) rest else .error i

def readAll (buffer : Vector α n) : List Nat → Except Nat (List α)
  | [] => .ok []
  | i :: rest =>
      if inside : i < n then
        match readAll buffer rest with
        | .ok values => .ok (buffer[i] :: values)
        | .error outside => .error outside
      else .error i

theorem writeAll_inside (writes : List (Nat × α)) (buffer : Vector α n)
    (inside : ∀ w ∈ writes, w.1 < n) : ∃ after, writeAll buffer writes = .ok after := by
  induction writes generalizing buffer with
  | nil => exact ⟨buffer, rfl⟩
  | cons w rest ih =>
      have here : w.1 < n := inside w List.mem_cons_self
      obtain ⟨after, run⟩ := ih (buffer.set w.1 w.2) fun v mem => inside v (List.mem_cons_of_mem w mem)
      exact ⟨after, by rw [writeAll, dif_pos here, run]⟩

theorem writeAll_outside (writes : List (Nat × α)) (buffer : Vector α n)
    (outside : ∃ w ∈ writes, n ≤ w.1) : ∃ i, n ≤ i ∧ writeAll buffer writes = .error i := by
  induction writes generalizing buffer with
  | nil =>
      obtain ⟨w, mem, _⟩ := outside
      exact absurd mem List.not_mem_nil
  | cons w rest ih =>
      by_cases here : w.1 < n
      · obtain ⟨v, mem, past⟩ := outside
        have later : v ∈ rest := by
          rcases List.mem_cons.mp mem with same | later
          · subst same
            omega
          · exact later
        obtain ⟨i, past, run⟩ := ih (buffer.set w.1 w.2) ⟨v, later, past⟩
        exact ⟨i, past, by rw [writeAll, dif_pos here, run]⟩
      · exact ⟨w.1, Nat.le_of_not_lt here, by rw [writeAll, dif_neg here]⟩

theorem getElem_writeAll_frame (writes : List (Nat × α)) {buffer after : Vector α n}
    (run : writeAll buffer writes = .ok after) (j : Nat) (below : j < n)
    (away : j ∉ writes.map Prod.fst) : after[j] = buffer[j] := by
  induction writes generalizing buffer with
  | nil =>
      cases run
      rfl
  | cons w rest ih =>
      rw [List.map_cons, List.mem_cons, not_or] at away
      rw [writeAll] at run
      split at run
      · rw [ih run away.2, Vector.getElem_set_ne _ _ (Ne.symm away.1)]
      · contradiction

theorem getElem_writeAll_const (indices : List Nat) (value : α) {buffer after : Vector α n}
    (run : writeAll buffer (indices.map fun i => (i, value)) = .ok after) (j : Nat) (below : j < n) :
    after[j] = if j ∈ indices then value else buffer[j] := by
  induction indices generalizing buffer with
  | nil =>
      cases run
      rw [if_neg List.not_mem_nil]
  | cons i rest ih =>
      rw [List.map_cons, writeAll] at run
      by_cases inside : i < n
      · rw [dif_pos inside] at run
        rw [ih run]
        by_cases later : j ∈ rest
        · rw [if_pos later, if_pos (List.mem_cons_of_mem i later)]
        · rw [if_neg later, Vector.getElem_set]
          by_cases same : i = j
          · rw [if_pos same, if_pos (List.mem_cons.mpr (Or.inl same.symm))]
          · rw [if_neg same, if_neg]
            intro mem
            rcases List.mem_cons.mp mem with here | there
            · exact same here.symm
            · exact later there
      · rw [dif_neg inside] at run
        cases run

/-- Of two fills the larger one shows only where the buffer held something else. -/
theorem fills_agree_iff {inner outer : List Nat} (within : ∀ i ∈ inner, i ∈ outer) (value : α)
    {buffer first second : Vector α n}
    (small : writeAll buffer (inner.map fun i => (i, value)) = .ok first)
    (large : writeAll buffer (outer.map fun i => (i, value)) = .ok second) :
    first = second ↔ ∀ (j : Nat) (below : j < n), j ∈ outer → j ∉ inner → buffer[j] = value := by
  constructor
  · intro same j below mem not_mem
    have left := getElem_writeAll_const inner value small j below
    have right := getElem_writeAll_const outer value large j below
    rw [if_neg not_mem] at left
    rw [if_pos mem, ← same, left] at right
    exact right
  · intro rest
    apply Vector.ext
    intro j below
    rw [getElem_writeAll_const inner value small, getElem_writeAll_const outer value large]
    by_cases mem : j ∈ inner
    · rw [if_pos mem, if_pos (within j mem)]
    · rw [if_neg mem]
      by_cases mem_outer : j ∈ outer
      · rw [if_pos mem_outer]
        exact rest j below mem_outer mem
      · rw [if_neg mem_outer]

theorem readAll_inside (indices : List Nat) (buffer : Vector α n)
    (inside : ∀ i ∈ indices, i < n) : ∃ values, readAll buffer indices = .ok values := by
  induction indices with
  | nil => exact ⟨[], rfl⟩
  | cons i rest ih =>
      have here : i < n := inside i List.mem_cons_self
      obtain ⟨values, run⟩ := ih fun j mem => inside j (List.mem_cons_of_mem i mem)
      exact ⟨buffer[i] :: values, by rw [readAll, dif_pos here, run]⟩

theorem readAll_outside (indices : List Nat) (buffer : Vector α n)
    (outside : ∃ i ∈ indices, n ≤ i) : ∃ i, n ≤ i ∧ readAll buffer indices = .error i := by
  induction indices with
  | nil =>
      obtain ⟨i, mem, _⟩ := outside
      exact absurd mem List.not_mem_nil
  | cons i rest ih =>
      by_cases here : i < n
      · obtain ⟨j, mem, past⟩ := outside
        have later : j ∈ rest := by
          rcases List.mem_cons.mp mem with same | later
          · omega
          · exact later
        obtain ⟨k, past, run⟩ := ih ⟨j, later, past⟩
        exact ⟨k, past, by rw [readAll, dif_pos here, run]⟩
      · exact ⟨i, Nat.le_of_not_lt here, by rw [readAll, dif_neg here]⟩

theorem getElem?_writeAll_range (first : Nat) (values : List α) {buffer after : Vector α n}
    (run : writeAll buffer ((List.range' first values.length).zip values) = .ok after) (j : Nat) :
    after[j]? =
      if first ≤ j ∧ j < first + values.length then values[j - first]? else buffer[j]? := by
  induction values generalizing first buffer with
  | nil =>
      cases run
      rw [if_neg]
      rintro ⟨low, high⟩
      exact absurd high (Nat.not_lt.mpr low)
  | cons a values ih =>
      rw [List.length_cons, List.range'_succ, List.zip_cons_cons, writeAll] at run
      by_cases inside : first < n
      · rw [dif_pos inside] at run
        rw [ih (first + 1) run, List.length_cons]
        by_cases here : j = first
        · subst here
          rw [if_neg (by omega), if_pos (by omega), Vector.getElem?_set_self, Nat.sub_self,
            List.getElem?_cons_zero]
        · rw [Vector.getElem?_set_ne inside (Ne.symm here)]
          by_cases above : first + 1 ≤ j ∧ j < first + 1 + values.length
          · have next : j - first = j - (first + 1) + 1 := by omega
            rw [if_pos above, if_pos (by omega), next, List.getElem?_cons_succ]
          · rw [if_neg above, if_neg (by omega)]
      · rw [dif_neg inside] at run
        cases run

theorem readAll_getElem? (indices : List Nat) {buffer : Vector α n} {values : List α}
    (run : readAll buffer indices = .ok values) :
    values.map some = indices.map fun i => buffer[i]? := by
  induction indices generalizing values with
  | nil =>
      cases run
      rfl
  | cons i rest ih =>
      rw [readAll] at run
      by_cases inside : i < n
      · rw [dif_pos inside] at run
        cases others : readAll buffer rest with
        | error outside =>
            rw [others] at run
            cases run
        | ok more =>
            rw [others] at run
            cases run
            rw [List.map_cons, List.map_cons, ih others, Vector.getElem?_eq_getElem inside]
      · rw [dif_neg inside] at run
        cases run

end CheckedBuffer
