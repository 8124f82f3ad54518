import Mathlib.Algebra.Field.ZMod
import Mathlib.Algebra.Polynomial.RingDivision
import Mathlib.Tactic.Ring

/-!
# Remainders of polynomials over GF(2) in a shift register

The low `n` bits of a word as a polynomial.  A register that shifts a message in
from its highest coefficient on, and takes the divisor off when bit `n - 1` goes
out, keeps the remainder in its low `n` bits, whatever collects above them.
-/

set_option autoImplicit false

namespace PolynomialRemainder

open Polynomial

variable {w : Nat}

def bitValue (b : Bool) : ZMod 2 := if b then 1 else 0

theorem bitValue_xor (a b : Bool) : bitValue (a ^^ b) = bitValue a + bitValue b := by
  cases a <;> cases b <;> decide

/-- The polynomial of the low `n` bits. -/
noncomputable def poly (n : Nat) (v : BitVec w) : (ZMod 2)[X] :=
  ∑ i ∈ Finset.range n, C (bitValue (v.getLsbD i)) * X ^ i

theorem coeff_poly (n : Nat) (v : BitVec w) (k : Nat) :
    (poly n v).coeff k = if k < n then bitValue (v.getLsbD k) else 0 := by
  rw [poly, finsetSum_coeff]
  simp only [coeff_C_mul, coeff_X_pow, mul_ite, mul_one, mul_zero, Finset.sum_ite_eq,
    Finset.mem_range]

theorem degree_poly_lt (n : Nat) (v : BitVec w) : (poly n v).degree < n := by
  rw [degree_lt_iff_coeff_zero]
  intro k above
  rw [coeff_poly, if_neg (Nat.not_lt.mpr above)]

theorem poly_xor (n : Nat) (u v : BitVec w) : poly n (u ^^^ v) = poly n u + poly n v := by
  ext k
  rw [coeff_add, coeff_poly, coeff_poly, coeff_poly]
  split
  · rw [BitVec.getLsbD_xor, bitValue_xor]
  · rw [add_zero]

theorem poly_zero (n : Nat) : poly n 0#w = 0 := by
  ext k
  rw [coeff_poly, BitVec.getLsbD_zero, coeff_zero]
  split <;> rfl

theorem poly_setWidth {n v : Nat} (fits : n ≤ v) (u : BitVec w) :
    poly n (u.setWidth v) = poly n u := by
  ext k
  rw [coeff_poly, coeff_poly]
  split
  · rename_i below
    rw [BitVec.getLsbD_setWidth, decide_eq_true (Nat.lt_of_lt_of_le below fits), Bool.true_and]
  · rfl

theorem poly_twoPow {n j : Nat} (below : j < n) (fits : n ≤ w) :
    poly n (BitVec.twoPow w j) = X ^ j := by
  ext k
  rw [coeff_poly, coeff_X_pow, BitVec.getLsbD_twoPow]
  by_cases same : k = j
  · subst same
    rw [if_pos below, if_pos rfl, decide_eq_true (Nat.lt_of_lt_of_le below fits),
      decide_eq_true rfl]
    rfl
  · rw [if_neg same, decide_eq_false (Ne.symm same), Bool.and_false]
    split <;> rfl

theorem and_twoPow_ne_zero (u : BitVec w) {j : Nat} (below : j < w) :
    u &&& BitVec.twoPow w j ≠ 0#w ↔ u.getLsbD j = true := by
  rw [BitVec.and_twoPow]
  cases u.getLsbD j with
  | true =>
      refine iff_of_true ?_ rfl
      intro zero
      have bit := congrArg (fun v => v.getLsbD j) zero
      simp [below] at bit
  | false => exact iff_of_false (fun differ => differ rfl) Bool.false_ne_true

theorem poly_injective {u v : BitVec w} (same : poly w u = poly w v) : u = v := by
  apply BitVec.eq_of_getLsbD_eq
  intro i below
  have coefficient := congrArg (fun p => p.coeff i) same
  simp only [coeff_poly, if_pos below] at coefficient
  generalize u.getLsbD i = a at coefficient ⊢
  generalize v.getLsbD i = b at coefficient ⊢
  revert a b
  decide

/-! ## The register -/

/-- Shift a bit in, and take the divisor off if bit `n - 1` goes out. -/
def shiftIn (n : Nat) (taps reg : BitVec w) (bit : Bool) : BitVec w :=
  let shifted := reg <<< 1
  (if bit then shifted ||| 1#w else shifted) ^^^ (if reg.getLsbD (n - 1) then taps else 0#w)

/-- The divisor: the taps are its coefficients below the leading one. -/
noncomputable def divisor (n : Nat) (taps : BitVec w) : (ZMod 2)[X] := X ^ n + poly n taps

theorem divisor_monic (n : Nat) (taps : BitVec w) : (divisor n taps).Monic :=
  monic_X_pow_add (degree_poly_lt n taps)

theorem degree_divisor (n : Nat) (taps : BitVec w) : (divisor n taps).degree = n := by
  rw [divisor, degree_add_eq_left_of_degree_lt] <;> rw [degree_X_pow]
  exact degree_poly_lt n taps

theorem getLsbD_shiftIn (n : Nat) (taps reg : BitVec w) (bit : Bool) {k : Nat} (below : k < w) :
    (shiftIn n taps reg bit).getLsbD k =
      ((if k = 0 then bit else reg.getLsbD (k - 1)) ^^ (reg.getLsbD (n - 1) && taps.getLsbD k)) := by
  have taken : (if reg.getLsbD (n - 1) then taps else 0#w).getLsbD k =
      (reg.getLsbD (n - 1) && taps.getLsbD k) := by
    cases reg.getLsbD (n - 1) with
    | true => rfl
    | false => exact BitVec.getLsbD_zero
  have shifted : (reg <<< 1).getLsbD k = (!decide (k = 0) && reg.getLsbD (k - 1)) := by
    rw [BitVec.getLsbD_shiftLeft, decide_eq_true below, Bool.true_and]
    congr 2
    exact decide_eq_decide.mpr Nat.lt_one_iff
  rw [shiftIn, BitVec.getLsbD_xor, taken]
  congr 1
  by_cases first : k = 0
  · subst first
    rw [if_pos rfl]
    cases bit with
    | true => simp [below]
    | false => simp
  · rw [if_neg first]
    cases bit with
    | true => simp [shifted, first]
    | false => simp [shifted, first]

/-- What is shifted out comes back as a multiple of the divisor. -/
theorem poly_shiftIn_add {n : Nat} (positive : 0 < n) (fits : n ≤ w) (taps reg : BitVec w)
    (bit : Bool) :
    poly n (shiftIn n taps reg bit) + divisor n taps * C (bitValue (reg.getLsbD (n - 1))) =
      poly n reg * X + C (bitValue bit) := by
  have cancel (a out tap : Bool) :
      bitValue (a ^^ (out && tap)) + bitValue tap * bitValue out = bitValue a := by
    revert a out tap
    decide
  ext k
  rw [coeff_add, coeff_add, coeff_mul_C, divisor, coeff_add, coeff_X_pow, coeff_poly, coeff_poly]
  cases k with
  | zero =>
      rw [if_pos positive, if_pos positive, if_neg (Nat.ne_of_lt positive), zero_add,
        getLsbD_shiftIn n taps reg bit (Nat.lt_of_lt_of_le positive fits), if_pos rfl, cancel,
        coeff_mul_X_zero, zero_add, coeff_C_zero]
  | succ j =>
      rw [coeff_mul_X, coeff_C_succ, add_zero, coeff_poly]
      rcases Nat.lt_trichotomy (j + 1) n with below | here | above
      · rw [if_pos below, if_pos below, if_neg (Nat.ne_of_lt below), zero_add,
          getLsbD_shiftIn n taps reg bit (Nat.lt_of_lt_of_le below fits),
          if_neg (Nat.succ_ne_zero j), cancel, if_pos (Nat.lt_of_succ_lt below), Nat.add_sub_cancel]
      · subst here
        rw [if_neg (Nat.lt_irrefl _), if_neg (Nat.lt_irrefl _), if_pos rfl, zero_add, add_zero,
          one_mul, if_pos (Nat.lt_succ_self j), Nat.add_sub_cancel]
      · rw [if_neg (Nat.not_lt_of_gt above), if_neg (Nat.not_lt_of_gt above),
          if_neg (Nat.ne_of_gt above), zero_add, zero_add, zero_mul, if_neg (by omega)]

/-- One shift is a multiplication by `X`, modulo the divisor. -/
theorem poly_shiftIn {n : Nat} (positive : 0 < n) (fits : n ≤ w) (taps reg : BitVec w)
    (bit : Bool) :
    poly n (shiftIn n taps reg bit) = (poly n reg * X + C (bitValue bit)) %ₘ divisor n taps := by
  refine ((div_modByMonic_unique (C (bitValue (reg.getLsbD (n - 1)))) _ (divisor_monic n taps)
    ⟨poly_shiftIn_add positive fits taps reg bit, ?_⟩).2).symm
  rw [degree_divisor]
  exact degree_poly_lt n _

/-! ## Messages -/

noncomputable def message (bits : List Bool) : (ZMod 2)[X] :=
  bits.foldl (fun p bit => p * X + C (bitValue bit)) 0

theorem foldl_horner (p : (ZMod 2)[X]) (bits : List Bool) :
    bits.foldl (fun p bit => p * X + C (bitValue bit)) p = p * X ^ bits.length + message bits := by
  induction bits generalizing p with
  | nil => rw [List.foldl_nil, List.length_nil, pow_zero, mul_one, message, List.foldl_nil, add_zero]
  | cons bit bits ih =>
      rw [message, List.foldl_cons, List.foldl_cons, ih, ih (0 * X + C (bitValue bit)),
        List.length_cons]
      ring

theorem message_append (front back : List Bool) :
    message (front ++ back) = message front * X ^ back.length + message back := by
  rw [message, List.foldl_append]
  exact foldl_horner _ back

theorem message_singleton (bit : Bool) : message [bit] = C (bitValue bit) := by
  rw [message, List.foldl_cons, List.foldl_nil, zero_mul, zero_add]

theorem message_zeroes (n : Nat) : message (List.replicate n false) = 0 := by
  induction n with
  | zero => rfl
  | succ n ih =>
      rw [List.replicate_succ', message_append, ih, message_singleton, zero_mul, zero_add]
      exact C_0

/-- The register after a message holds the remainder of what it held before, followed by
the message. -/
theorem poly_run {n : Nat} (positive : 0 < n) (fits : n ≤ w) (taps reg : BitVec w)
    (bits : List Bool) :
    poly n (bits.foldl (shiftIn n taps) reg) =
      (poly n reg * X ^ bits.length + message bits) %ₘ divisor n taps := by
  induction bits using List.reverseRecOn with
  | nil =>
      rw [List.foldl_nil, List.length_nil, pow_zero, mul_one, message, List.foldl_nil, add_zero,
        (modByMonic_eq_self_iff (divisor_monic n taps)).mpr]
      rw [degree_divisor]
      exact degree_poly_lt n reg
  | append_singleton bits bit ih =>
      have horner : poly n reg * X ^ (bits.length + 1) + (message bits * X + C (bitValue bit)) =
          (poly n reg * X ^ bits.length + message bits) * X + C (bitValue bit) := by ring
      rw [List.foldl_append, List.foldl_cons, List.foldl_nil, poly_shiftIn positive fits, ih,
        List.length_append, List.length_singleton, message_append, message_singleton,
        List.length_singleton, pow_one, horner]
      -- the part that was taken off before is a multiple of the divisor
      apply modByMonic_eq_of_dvd_sub (divisor_monic n taps)
      rw [add_sub_add_right_eq_sub, ← sub_mul]
      exact Dvd.dvd.mul_right (dvd_modByMonic_sub _ _) X

/-! ## What a remainder detects -/

theorem X_pow_mod_divisor {n : Nat} (positive : 0 < n) {taps : BitVec w}
    (constant : taps.getLsbD 0 = true) (k : Nat) : X ^ k %ₘ divisor n taps ≠ 0 := by
  intro zero
  have divides := (modByMonic_eq_zero_iff_dvd (divisor_monic n taps)).mp zero
  obtain ⟨j, -, same⟩ := (dvd_prime_pow prime_X k).mp divides
  have degree := degree_eq_degree_of_associated same
  rw [degree_divisor, degree_X_pow, Nat.cast_inj] at degree
  have divisible : X ∣ divisor n taps :=
    (dvd_pow_self X (degree ▸ Nat.ne_of_gt positive)).trans same.symm.dvd
  rw [X_dvd_iff, divisor, coeff_add, coeff_X_pow, if_neg (Nat.ne_of_lt positive), coeff_poly,
    if_pos positive, constant, zero_add] at divisible
  exact absurd divisible (by decide)

end PolynomialRemainder
