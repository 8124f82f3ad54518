import Mathlib.Data.Finset.Attr
import Mathlib.Tactic.Common

/-!
# Maps from 32-bit addresses, and address ranges

A map is a partial function.  Many keys are written or erased at once, or all
keys of a range; ranges are taken in the natural numbers, so that a range that
passes the end of the address space contains no address beyond it.
-/

set_option autoImplicit false

namespace AddressMap

variable {α : Type}

structure Range where
  lo : UInt32
  len : UInt32
  deriving DecidableEq, Repr

def Range.Contains (r : Range) (a : UInt32) : Prop :=
  r.lo.toNat ≤ a.toNat ∧ a.toNat < r.lo.toNat + r.len.toNat

instance (r : Range) (a : UInt32) : Decidable (r.Contains a) :=
  inferInstanceAs (Decidable (_ ∧ _))

def Range.Apart (r r' : Range) : Prop := ∀ a, r.Contains a → ¬ r'.Contains a

def Range.Fits (r : Range) : Prop := r.lo.toNat + r.len.toNat < UInt32.size

instance (r : Range) : Decidable r.Fits := inferInstanceAs (Decidable (_ < _))

abbrev Map (α : Type) := UInt32 → Option α

def Map.insertAll (m : Map α) (keys : List UInt32) (x : α) : Map α :=
  fun a => if a ∈ keys then some x else m a

def Map.eraseAll (m : Map α) (keys : List UInt32) : Map α :=
  fun a => if a ∈ keys then none else m a

def Map.eraseBetween (m : Map α) (lo hi : UInt32) : Map α :=
  fun a => if lo ≤ a ∧ a < hi then none else m a

section Ranges
variable {r r' : Range} {a : UInt32}

theorem Range.Apart.symm (apart : r.Apart r') : r'.Apart r :=
  fun a inside' inside => apart a inside inside'

/-- Two ranges that share no address do not reach over each other. -/
theorem Range.apart_of_le (before : r.lo.toNat + r.len.toNat ≤ r'.lo.toNat) : r.Apart r' := by
  intro a inside inside'
  have below := inside.2
  have above := inside'.1
  omega

/-- An offset within a range that fits is not wrapped. -/
theorem Range.contains_add {off : UInt32} (fits : r.Fits) (within : off < r.len) :
    r.Contains (r.lo + off) := by
  have inside : off.toNat < r.len.toNat := UInt32.lt_iff_toNat_lt.mp within
  unfold Range.Fits UInt32.size at fits
  unfold Range.Contains
  rw [UInt32.toNat_add, Nat.mod_eq_of_lt (by omega)]
  omega

end Ranges

section Maps
variable {m : Map α} {keys : List UInt32} {x y : α} {a lo hi : UInt32}

theorem insertAll_mem (member : a ∈ keys) : m.insertAll keys x a = some x := if_pos member

theorem insertAll_other (absent : a ∉ keys) : m.insertAll keys x a = m a := if_neg absent

theorem eraseAll_other (absent : a ∉ keys) : m.eraseAll keys a = m a := if_neg absent

theorem eraseAll_some (left : m.eraseAll keys a = some x) : a ∉ keys ∧ m a = some x := by
  unfold Map.eraseAll at left
  split at left
  · contradiction
  · rename_i absent
    exact ⟨absent, left⟩

theorem eraseBetween_some (left : m.eraseBetween lo hi a = some x) :
    ¬ (lo ≤ a ∧ a < hi) ∧ m a = some x := by
  unfold Map.eraseBetween at left
  split at left
  · contradiction
  · rename_i outside
    exact ⟨outside, left⟩

theorem insertAll_some (found : m.insertAll keys x a = some y) :
    a ∈ keys ∧ y = x ∨ a ∉ keys ∧ m a = some y := by
  unfold Map.insertAll at found
  split at found
  · rename_i member
    exact .inl ⟨member, (Option.some.inj found).symm⟩
  · rename_i absent
    exact .inr ⟨absent, found⟩

theorem contains_of_between {r : Range} (between : r.lo ≤ a ∧ a < r.lo + r.len) :
    r.Contains a := by
  obtain ⟨above, below⟩ := between
  rw [UInt32.le_iff_toNat_le] at above
  rw [UInt32.lt_iff_toNat_lt, UInt32.toNat_add] at below
  unfold Range.Contains
  omega

end Maps

end AddressMap
