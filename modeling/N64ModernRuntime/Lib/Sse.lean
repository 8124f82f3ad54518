import Mathlib.Data.BitVec
import Mathlib.Tactic.Linarith
import Mathlib.Data.Fintype.Basic

/-!
# 128-bit registers and the SSE instructions on them

A register is its sixteen bytes, the lowest first; a lane is two of them.  The
instructions keep their names without `_mm_`.  A comparison gives a mask for
each lane, and a blend chooses by the top bit of every byte of its mask, so on
masks it chooses whole lanes.
-/

set_option autoImplicit false

namespace Sse

abbrev V128 := BitVec 128

/-! Positions are counted around the end of a register, and registers around the last one. -/

scoped instance lanesNonzero : NeZero 8 := ⟨by decide⟩

scoped instance bytesNonzero : NeZero 16 := ⟨by decide⟩

scoped instance registersNonzero : NeZero 32 := ⟨by decide⟩

/-! ## Bytes and lanes -/

namespace V128

def byte (v : V128) (i : Fin 16) : BitVec 8 := v.extractLsb' (8 * i) 8

def lane (v : V128) (i : Fin 8) : BitVec 16 := v.extractLsb' (16 * i) 16

/-- The first `n` units of `w` bits, the lowest first. -/
def ofUnits (w : Nat) (f : Nat → BitVec w) : Nat → V128
  | 0 => 0
  | n + 1 => (f n).setWidth 128 <<< (w * n) ||| ofUnits w f n

def ofBytes (f : Fin 16 → BitVec 8) : V128 := ofUnits 8 (fun i => f (Fin.ofNat 16 i)) 16

def ofLanes (f : Fin 8 → BitVec 16) : V128 := ofUnits 16 (fun i => f (Fin.ofNat 8 i)) 8

theorem getLsbD_ofUnits {w : Nat} (pos : 0 < w) (f : Nat → BitVec w) (n : Nat) {j : Nat}
    (inside : j < 128) :
    (ofUnits w f n).getLsbD j = (decide (j < w * n) && (f (j / w)).getLsbD (j % w)) := by
  induction n with
  | zero => simp [ofUnits]
  | succ n ih =>
      rw [ofUnits, BitVec.getLsbD_or, ih, BitVec.getLsbD_shiftLeft, BitVec.getLsbD_setWidth]
      have next : w * (n + 1) = w * n + w := Nat.mul_succ w n
      by_cases below : j < w * n
      · have later : j < w * (n + 1) := by omega
        simp [below, later]
      · by_cases here : j < w * (n + 1)
        · have unit : j / w = n :=
            Nat.div_eq_of_lt_le (by rw [Nat.mul_comm]; omega) (by rw [Nat.mul_comm]; exact here)
          have bit : j % w = j - w * n := by
            have split := Nat.div_add_mod j w
            rw [unit] at split
            omega
          have small : j - w * n < 128 := by omega
          simp [inside, below, here, unit, bit, small]
        · have beyond : (f n).getLsbD (j - w * n) = false :=
            BitVec.getLsbD_of_ge _ _ (by omega)
          simp [below, here, beyond]

theorem getLsbD_ofLanes (f : Fin 8 → BitVec 16) {j : Nat} (inside : j < 128) :
    (ofLanes f).getLsbD j = (f ⟨j / 16, by omega⟩).getLsbD (j % 16) := by
  have unit : Fin.ofNat 8 (j / 16) = ⟨j / 16, by omega⟩ :=
    Fin.ext (Nat.mod_eq_of_lt (by omega))
  rw [ofLanes, getLsbD_ofUnits (by decide) _ _ inside, unit]
  simp [inside]

theorem getLsbD_ofBytes (f : Fin 16 → BitVec 8) {j : Nat} (inside : j < 128) :
    (ofBytes f).getLsbD j = (f ⟨j / 8, by omega⟩).getLsbD (j % 8) := by
  have unit : Fin.ofNat 16 (j / 8) = ⟨j / 8, by omega⟩ :=
    Fin.ext (Nat.mod_eq_of_lt (by omega))
  rw [ofBytes, getLsbD_ofUnits (by decide) _ _ inside, unit]
  simp [inside]

@[simp] theorem lane_ofLanes (f : Fin 8 → BitVec 16) (i : Fin 8) : (ofLanes f).lane i = f i := by
  ext j hj
  have unit : (16 * (i : Nat) + j) / 16 = i := by omega
  have bit : (16 * (i : Nat) + j) % 16 = j := by omega
  rw [lane, BitVec.getElem_extractLsb', getLsbD_ofLanes f (by omega)]
  simp only [unit, bit, BitVec.getLsbD_eq_getElem hj]

@[simp] theorem byte_ofBytes (f : Fin 16 → BitVec 8) (i : Fin 16) : (ofBytes f).byte i = f i := by
  ext j hj
  have unit : (8 * (i : Nat) + j) / 8 = i := by omega
  have bit : (8 * (i : Nat) + j) % 8 = j := by omega
  rw [byte, BitVec.getElem_extractLsb', getLsbD_ofBytes f (by omega)]
  simp only [unit, bit, BitVec.getLsbD_eq_getElem hj]

@[ext] theorem ext_lane {a b : V128} (same : ∀ i, a.lane i = b.lane i) : a = b := by
  refine BitVec.eq_of_getLsbD_eq fun j inside => ?_
  have here := congrArg (fun x => x.getLsbD (j % 16)) (same ⟨j / 16, by omega⟩)
  have place : 16 * (j / 16) + j % 16 = j := Nat.div_add_mod j 16
  simpa [lane, place, Nat.mod_lt] using here

@[ext] theorem ext_byte {a b : V128} (same : ∀ i, a.byte i = b.byte i) : a = b := by
  refine BitVec.eq_of_getLsbD_eq fun j inside => ?_
  have here := congrArg (fun x => x.getLsbD (j % 8)) (same ⟨j / 8, by omega⟩)
  have place : 8 * (j / 8) + j % 8 = j := Nat.div_add_mod j 8
  simpa [byte, place, Nat.mod_lt] using here

theorem getLsbD_lane (v : V128) (i : Fin 8) {j : Nat} (inside : j < 16) :
    (v.lane i).getLsbD j =
      (v.byte ⟨2 * i + j / 8, by omega⟩).getLsbD (j % 8) := by
  have place : 8 * (2 * (i : Nat) + j / 8) + j % 8 = 16 * i + j := by omega
  simp [lane, byte, inside, place, Nat.mod_lt]

end V128

open V128

/-! ## Numbers and masks -/

def saturateEpi16 (x : Int) : BitVec 16 := BitVec.ofInt 16 (max (-32768) (min 32767 x))

def saturateEpu16 (x : Nat) : BitVec 16 := BitVec.ofNat 16 (min 65535 x)

def saturateEpi8 (x : Int) : BitVec 8 := BitVec.ofInt 8 (max (-128) (min 127 x))

def mask (w : Nat) (b : Bool) : BitVec w := if b then BitVec.allOnes w else 0

def IsMask (x : BitVec 16) : Prop := x = 0 ∨ x = BitVec.allOnes 16

theorem isMask_iff {x : BitVec 16} : IsMask x ↔ ∃ b, x = mask 16 b := by
  constructor
  · rintro (rfl | rfl)
    · exact ⟨false, rfl⟩
    · exact ⟨true, rfl⟩
  · rintro ⟨b, rfl⟩
    cases b
    · exact .inl rfl
    · exact .inr rfl

@[simp] theorem isMask_mask (b : Bool) : IsMask (mask 16 b) := isMask_iff.mpr ⟨b, rfl⟩

@[simp] theorem isMask_zero : IsMask 0#16 := .inl rfl

@[simp] theorem isMask_ite {p : Prop} [Decidable p] {x y : BitVec 16} (left : IsMask x)
    (right : IsMask y) : IsMask (if p then x else y) := by
  split
  · exact left
  · exact right

section Masks
variable (a b : Bool) (x : BitVec 16)

theorem zero_eq_mask : (0 : BitVec 16) = mask 16 false := rfl

@[simp] theorem mask_eq_zero : mask 16 a = 0#16 ↔ a = false := by
  cases a <;> decide

@[simp] theorem mask_beq_zero : (mask 16 a == 0#16) = !a := by
  cases a <;> decide

@[simp] theorem zero_beq_mask : (0#16 == mask 16 a) = !a := by
  cases a <;> decide

@[simp] theorem mask_beq_mask : (mask 16 a == mask 16 b) = (a == b) := by
  cases a <;> cases b <;> decide

@[simp] theorem mask_and_mask : mask 16 a &&& mask 16 b = mask 16 (a && b) := by
  cases a <;> cases b <;> decide

@[simp] theorem mask_or_mask : mask 16 a ||| mask 16 b = mask 16 (a || b) := by
  cases a <;> cases b <;> decide

@[simp] theorem not_mask : ~~~mask 16 a = mask 16 (!a) := by
  cases a <;> decide

theorem mask_and : mask 16 a &&& x = if a then x else 0#16 := by
  cases a <;> simp [mask, -BitVec.reduceAllOnes]

theorem and_mask : x &&& mask 16 a = if a then x else 0#16 := by
  cases a <;> simp [mask, -BitVec.reduceAllOnes]

theorem mask_or : mask 16 a ||| x = if a then BitVec.allOnes 16 else x := by
  cases a <;> simp [mask, -BitVec.reduceAllOnes]

theorem or_mask : x ||| mask 16 a = if a then BitVec.allOnes 16 else x := by
  cases a <;> simp [mask, -BitVec.reduceAllOnes]

theorem xor_mask : x ^^^ mask 16 a = if a then ~~~x else x := by
  cases a <;> simp [mask, -BitVec.reduceAllOnes]

@[simp] theorem sub_mask : x - mask 16 a = if a then x + 1 else x := by
  cases a
  · simp [mask]
  · have minus : BitVec.allOnes 16 = -1 := by decide
    simp only [mask, if_true, minus, BitVec.sub_eq_add_neg, BitVec.neg_neg]

@[simp] theorem add_mask : x + mask 16 a = if a then x - 1 else x := by
  cases a
  · simp [mask]
  · have minus : BitVec.allOnes 16 = -1 := by decide
    simp only [mask, if_true, minus, BitVec.sub_eq_add_neg]

@[simp] theorem sshiftRight_sign : x.sshiftRight 15 = mask 16 (decide (x.toInt < 0)) := by
  have low := BitVec.le_toInt x
  have high := BitVec.toInt_lt (x := x)
  apply BitVec.eq_of_toInt_eq
  rw [BitVec.toInt_sshiftRight, Int.shiftRight_eq_div_pow]
  by_cases negative : x.toInt < 0
  · have ones : (BitVec.allOnes 16).toInt = -1 := by decide
    simp only [mask, negative, decide_true, if_true, ones]
    omega
  · simp only [mask, negative, decide_false]
    simp
    omega

/-- A sum that differs from the saturated one has wrapped. -/
theorem add_beq_saturateEpu16 (y : BitVec 16) :
    (x + y == saturateEpu16 (x.toNat + y.toNat)) = decide (x.toNat + y.toNat < 2 ^ 16) := by
  have hx := x.isLt
  have hy := y.isLt
  rw [Bool.eq_iff_iff, beq_iff_eq, decide_eq_true_eq, ← BitVec.toNat_inj, BitVec.toNat_add,
    saturateEpu16, BitVec.toNat_ofNat]
  omega

end Masks

theorem getLsbD_mask (w : Nat) (b : Bool) (j : Nat) :
    (mask w b).getLsbD j = (decide (j < w) && b) := by
  cases b <;> simp [mask]

/-- Bits that are collected one after the other. -/
theorem getLsbD_foldl_or {α : Type} {w : Nat} (rest : List α) (bits : α → BitVec w) (x : BitVec w)
    (j : Nat) : (rest.foldl (fun x i => x ||| bits i) x).getLsbD j =
      (x.getLsbD j || rest.any fun i => (bits i).getLsbD j) := by
  induction rest generalizing x with
  | nil => simp
  | cons i rest ih =>
      rw [List.foldl_cons, ih, BitVec.getLsbD_or, List.any_cons, Bool.or_assoc]

theorem getLsbD_bit {w : Nat} (b : Bool) (k : Nat) {j : Nat} (inside : j < w) :
    ((BitVec.ofBool b).setWidth w <<< k).getLsbD j = (decide (j = k) && b) := by
  by_cases same : j = k
  · subst same
    simp [inside]
  · rcases lt_or_gt_of_ne same with below | above
    · simp [below, same]
    · have place : j - k ≠ 0 := by omega
      simp [same, place, inside]

/-! ### As integers -/

theorem toInt_cases (x : BitVec 16) :
    (x.toInt = x.toNat - 65536 ∧ 32768 ≤ x.toNat ∧ x.toNat < 65536) ∨
      (x.toInt = x.toNat ∧ x.toNat < 32768) := by
  have below := x.isLt
  rw [BitVec.toInt_eq_toNat_cond]
  split_ifs <;> omega

theorem toInt_mask (b : Bool) : (mask 16 b).toInt = -b.toInt := by
  cases b <;> decide

theorem toInt_ofInt_of_bounds {x : Int} (low : -32768 ≤ x) (high : x ≤ 32767) :
    (BitVec.ofInt 16 x).toInt = x := by
  rw [BitVec.toInt_ofInt, Int.bmod_eq_of_le] <;> omega

@[simp] theorem toInt_saturateEpi16 (x : Int) :
    (saturateEpi16 x).toInt = max (-32768) (min 32767 x) :=
  toInt_ofInt_of_bounds (by omega) (by omega)

theorem saturateEpi16_of_bounds {x : Int} (low : -32768 ≤ x) (high : x ≤ 32767) :
    saturateEpi16 x = BitVec.ofInt 16 x := by
  rw [saturateEpi16, min_eq_right high, max_eq_right low]

theorem saturateEpi16_of_lt {z : Int} (below : z < -32768) : saturateEpi16 z = 32768#16 := by
  rw [saturateEpi16, min_eq_right (by omega), max_eq_left (by omega)]
  rfl

theorem saturateEpi16_of_gt {z : Int} (above : 32767 < z) : saturateEpi16 z = 32767#16 := by
  rw [saturateEpi16, min_eq_left (by omega), max_eq_right (by omega)]
  rfl

theorem toInt_not (x : BitVec 16) : (~~~x).toInt = -x.toInt - 1 := by
  have range := toInt_cases x
  have range' := toInt_cases (~~~x)
  rw [BitVec.toNat_not] at range'
  omega

@[simp] theorem toInt_minEpi16 (x y : BitVec 16) :
    (BitVec.ofInt 16 (min x.toInt y.toInt)).toInt = min x.toInt y.toInt := by
  have range := toInt_cases x
  have range' := toInt_cases y
  exact toInt_ofInt_of_bounds (by omega) (by omega)

@[simp] theorem toInt_maxEpi16 (x y : BitVec 16) :
    (BitVec.ofInt 16 (max x.toInt y.toInt)).toInt = max x.toInt y.toInt := by
  have range := toInt_cases x
  have range' := toInt_cases y
  exact toInt_ofInt_of_bounds (by omega) (by omega)

theorem msb_eq_neg (x : BitVec 16) : x.msb = decide (x.toInt < 0) := by
  have range := toInt_cases x
  rw [BitVec.msb_eq_decide, decide_eq_decide]
  omega

/-- The signs of two lanes differ. -/
theorem toInt_xor_neg (x y : BitVec 16) :
    (x ^^^ y).toInt < 0 ↔ (x.toInt < 0 ↔ 0 ≤ y.toInt) := by
  have sign := msb_eq_neg (x ^^^ y)
  rw [BitVec.msb_xor, msb_eq_neg, msb_eq_neg] at sign
  by_cases left : x.toInt < 0
  · by_cases right : y.toInt < 0
    · simpa [left, right, not_le.mpr right, -BitVec.toInt_xor] using sign
    · simpa [left, right, not_lt.mp right, -BitVec.toInt_xor] using sign
  · by_cases right : y.toInt < 0
    · simpa [left, right, not_le.mpr right, -BitVec.toInt_xor] using sign
    · simpa [left, right, not_lt.mp right, -BitVec.toInt_xor] using sign

theorem toInt_add_of_differ {x y : BitVec 16} (signs : x.toInt < 0 ↔ 0 ≤ y.toInt) :
    (x + y).toInt = x.toInt + y.toInt := by
  have left := toInt_cases x
  have right := toInt_cases y
  have sum := toInt_cases (x + y)
  rw [BitVec.toNat_add] at sum
  omega

theorem toInt_sub_of_same {x y : BitVec 16} (signs : ¬ (x.toInt < 0 ↔ 0 ≤ y.toInt)) :
    (x - y).toInt = x.toInt - y.toInt := by
  have left := toInt_cases x
  have right := toInt_cases y
  have difference := toInt_cases (x - y)
  rw [BitVec.toNat_sub] at difference
  omega

theorem eq_complement_iff (x y : BitVec 16) : x = y ^^^ 65535#16 ↔ x.toInt + y.toInt = -1 := by
  have flip : y ^^^ 65535#16 = ~~~y := BitVec.xor_allOnes
  rw [flip, ← BitVec.toInt_inj, toInt_not]
  omega

theorem beq_eq_toInt (x y : BitVec 16) : (x == y) = decide (x.toInt = y.toInt) := by
  rw [Bool.eq_iff_iff, beq_iff_eq, decide_eq_true_eq, BitVec.toInt_inj]

/-- A lane is not above the integers it is not the greater of. -/
theorem minEpi16_beq {m : Int} (y : BitVec 16) (low : -32768 ≤ m) (high : m ≤ 32767) :
    (BitVec.ofInt 16 (min m y.toInt) == y) = decide (y.toInt ≤ m) := by
  have range := toInt_cases y
  rw [beq_eq_toInt, toInt_ofInt_of_bounds (by omega) (by omega), decide_eq_decide]
  omega

theorem not_add_one (x : BitVec 16) : ~~~x + 1#16 = -x := (BitVec.neg_eq_not_add x).symm

theorem ofInt_sub {w : Nat} (x y : Int) :
    BitVec.ofInt w (x - y) = BitVec.ofInt w x - BitVec.ofInt w y := by
  rw [sub_eq_add_neg, BitVec.ofInt_add, BitVec.ofInt_neg, ← BitVec.sub_eq_add_neg]

theorem toNat_join (high low : BitVec 16) :
    (high.setWidth 32 <<< 16 ||| low.setWidth 32).toNat = high.toNat * 65536 + low.toNat := by
  have left := high.isLt
  have right := low.isLt
  have small : high.toNat * 65536 % 4294967296 = high.toNat * 65536 := by omega
  have smaller : low.toNat % 4294967296 = low.toNat := by omega
  have apart := Nat.shiftLeft_add_eq_or_of_lt (show low.toNat < 2 ^ 16 from right) high.toNat
  rw [Nat.shiftLeft_eq] at apart
  simpa [Nat.shiftLeft_eq, small, smaller] using apart.symm

@[simp] theorem toInt_join (high low : BitVec 16) :
    (high.setWidth 32 <<< 16 ||| low.setWidth 32).toInt = high.toInt * 65536 + low.toNat := by
  have range := toInt_cases high
  have below := low.isLt
  rw [BitVec.toInt_eq_toNat_cond, toNat_join]
  split_ifs <;> omega

theorem toNat_ofInt16 (z : Int) : ((BitVec.ofInt 16 z).toNat : Int) = z % 65536 := by
  rw [BitVec.toNat_ofInt]
  omega

theorem eq_ofInt16 {y : BitVec 16} {z : Int} (same : (y.toNat : Int) = z % 65536) :
    y = BitVec.ofInt 16 z := by
  rw [← BitVec.toNat_inj, ← Nat.cast_inj (R := Int), same, toNat_ofInt16]

theorem ofInt_carry (z : Int) (c : Prop) [Decidable c] :
    (if c then BitVec.ofInt 16 z + 1#16 else BitVec.ofInt 16 z) =
      BitVec.ofInt 16 (z + if c then 1 else 0) := by
  split
  · rw [BitVec.ofInt_add]
    rfl
  · rw [add_zero]

/-! ### Products -/

theorem product_lt (y z : BitVec 16) : y.toNat * z.toNat < 4294967296 := by
  have left := y.isLt
  have right := z.isLt
  nlinarith

theorem product_bounds (y z : BitVec 16) :
    -1073741824 ≤ y.toInt * z.toInt ∧ y.toInt * z.toInt ≤ 1073741824 := by
  have range := toInt_cases y
  have range' := toInt_cases z
  have low : -32768 ≤ y.toInt := by omega
  have high : y.toInt ≤ 32768 := by omega
  have low' : -32768 ≤ z.toInt := by omega
  have high' : z.toInt ≤ 32768 := by omega
  constructor <;> nlinarith

theorem product_bounds_mixed (y z : BitVec 16) :
    -2147483648 ≤ y.toInt * z.toNat ∧ y.toInt * z.toNat < 2147483648 - 65536 := by
  have range := toInt_cases y
  have below : (z.toNat : Int) ≤ 65535 := by omega
  have notNegative : (0 : Int) ≤ z.toNat := by omega
  have low : -32768 ≤ y.toInt := by omega
  have high : y.toInt ≤ 32767 := by omega
  constructor <;> nlinarith

/-! ## The instructions -/

def map₂ (f : BitVec 16 → BitVec 16 → BitVec 16) (a b : V128) : V128 :=
  ofLanes fun i => f (a.lane i) (b.lane i)

def addEpi16 : V128 → V128 → V128 := map₂ fun x y => x + y

def subEpi16 : V128 → V128 → V128 := map₂ fun x y => x - y

def addsEpi16 : V128 → V128 → V128 := map₂ fun x y => saturateEpi16 (x.toInt + y.toInt)

def subsEpi16 : V128 → V128 → V128 := map₂ fun x y => saturateEpi16 (x.toInt - y.toInt)

def addsEpu16 : V128 → V128 → V128 := map₂ fun x y => saturateEpu16 (x.toNat + y.toNat)

def subsEpu16 : V128 → V128 → V128 := map₂ fun x y => BitVec.ofNat 16 (x.toNat - y.toNat)

def mulloEpi16 : V128 → V128 → V128 := map₂ fun x y => x * y

def mulhiEpi16 : V128 → V128 → V128 :=
  map₂ fun x y => BitVec.ofInt 16 (x.toInt * y.toInt / 65536)

def mulhiEpu16 : V128 → V128 → V128 :=
  map₂ fun x y => BitVec.ofNat 16 (x.toNat * y.toNat / 65536)

def minEpi16 : V128 → V128 → V128 := map₂ fun x y => BitVec.ofInt 16 (min x.toInt y.toInt)

def maxEpi16 : V128 → V128 → V128 := map₂ fun x y => BitVec.ofInt 16 (max x.toInt y.toInt)

def cmpeqEpi16 : V128 → V128 → V128 := map₂ fun x y => mask 16 (x == y)

def cmpgtEpi16 : V128 → V128 → V128 := map₂ fun x y => mask 16 (decide (y.toInt < x.toInt))

def cmpltEpi16 (a b : V128) : V128 := cmpgtEpi16 b a

def sraiEpi16 (a : V128) (n : Nat) : V128 := ofLanes fun i => (a.lane i).sshiftRight n

def srliEpi16 (a : V128) (n : Nat) : V128 := ofLanes fun i => a.lane i >>> n

def slliEpi16 (a : V128) (n : Nat) : V128 := ofLanes fun i => a.lane i <<< n

def andSi128 (a b : V128) : V128 := a &&& b

/-- The complement of the first operand is taken. -/
def andnotSi128 (a b : V128) : V128 := ~~~a &&& b

def orSi128 (a b : V128) : V128 := a ||| b

def xorSi128 (a b : V128) : V128 := a ^^^ b

def cmpeqEpi8 (a b : V128) : V128 := ofBytes fun i => mask 8 (a.byte i == b.byte i)

def blendvEpi8 (a b m : V128) : V128 := ofBytes fun i =>
  if (m.byte i).msb then b.byte i else a.byte i

def shuffleEpi8 (a index : V128) : V128 := ofBytes fun i =>
  if (index.byte i).msb then 0 else a.byte (Fin.ofNat 16 (index.byte i).toNat)

/-- The lanes of the low halves, in turn. -/
def unpackloEpi16 (a b : V128) : V128 := ofLanes fun i =>
  if i.val % 2 = 0 then a.lane ⟨i / 2, by omega⟩ else b.lane ⟨i / 2, by omega⟩

def unpackhiEpi16 (a b : V128) : V128 := ofLanes fun i =>
  if i.val % 2 = 0 then a.lane ⟨i / 2 + 4, by omega⟩ else b.lane ⟨i / 2 + 4, by omega⟩

def lane32 (v : V128) (i : Fin 4) : BitVec 32 :=
  (v.lane ⟨2 * i + 1, by omega⟩).setWidth 32 <<< 16 |||
    (v.lane ⟨2 * i, by omega⟩).setWidth 32

def packsEpi32 (a b : V128) : V128 := ofLanes fun i =>
  if h : i.val < 4 then saturateEpi16 (lane32 a ⟨i, h⟩).toInt
  else saturateEpi16 (lane32 b ⟨i - 4, by omega⟩).toInt

def packsEpi16 (a b : V128) : V128 := ofBytes fun i =>
  saturateEpi8 (V128.lane (if i.val < 8 then a else b) (Fin.ofNat 8 i)).toInt

/-- The top bit of every byte, that of the lowest first. -/
def movemaskEpi8 (a : V128) : BitVec 16 := (List.finRange 16).foldl (fun bits i =>
  bits ||| (BitVec.ofBool (a.byte i).msb).setWidth 16 <<< i.val) 0

/-- The bytes are given from the highest. -/
def setEpi8 (bytes : List Nat) : V128 :=
  ofBytes fun i => BitVec.ofNat 8 (bytes.reverse.getD i 0)

def setEpi16 (lanes : List Nat) : V128 :=
  ofLanes fun i => BitVec.ofNat 16 (lanes.reverse.getD i 0)

/-! ## What they do to a lane -/

section Lanes
variable (a b : V128) (i : Fin 8)

theorem lane_map₂ (f : BitVec 16 → BitVec 16 → BitVec 16) :
    (map₂ f a b).lane i = f (a.lane i) (b.lane i) := by
  rw [map₂, lane_ofLanes]

@[simp] theorem lane_addEpi16 : (addEpi16 a b).lane i = a.lane i + b.lane i := by
  rw [addEpi16, lane_map₂]

@[simp] theorem lane_subEpi16 : (subEpi16 a b).lane i = a.lane i - b.lane i := by
  rw [subEpi16, lane_map₂]

@[simp] theorem lane_addsEpi16 :
    (addsEpi16 a b).lane i = saturateEpi16 ((a.lane i).toInt + (b.lane i).toInt) := by
  rw [addsEpi16, lane_map₂]

@[simp] theorem lane_subsEpi16 :
    (subsEpi16 a b).lane i = saturateEpi16 ((a.lane i).toInt - (b.lane i).toInt) := by
  rw [subsEpi16, lane_map₂]

@[simp] theorem lane_addsEpu16 :
    (addsEpu16 a b).lane i = saturateEpu16 ((a.lane i).toNat + (b.lane i).toNat) := by
  rw [addsEpu16, lane_map₂]

@[simp] theorem lane_subsEpu16 :
    (subsEpu16 a b).lane i = BitVec.ofNat 16 ((a.lane i).toNat - (b.lane i).toNat) := by
  rw [subsEpu16, lane_map₂]

@[simp] theorem lane_mulloEpi16 : (mulloEpi16 a b).lane i = a.lane i * b.lane i := by
  rw [mulloEpi16, lane_map₂]

@[simp] theorem lane_mulhiEpi16 : (mulhiEpi16 a b).lane i =
    BitVec.ofInt 16 ((a.lane i).toInt * (b.lane i).toInt / 65536) := by
  rw [mulhiEpi16, lane_map₂]

@[simp] theorem lane_mulhiEpu16 : (mulhiEpu16 a b).lane i =
    BitVec.ofNat 16 ((a.lane i).toNat * (b.lane i).toNat / 65536) := by
  rw [mulhiEpu16, lane_map₂]

@[simp] theorem lane_minEpi16 : (minEpi16 a b).lane i =
    BitVec.ofInt 16 (min (a.lane i).toInt (b.lane i).toInt) := by
  rw [minEpi16, lane_map₂]

@[simp] theorem lane_maxEpi16 : (maxEpi16 a b).lane i =
    BitVec.ofInt 16 (max (a.lane i).toInt (b.lane i).toInt) := by
  rw [maxEpi16, lane_map₂]

@[simp] theorem lane_cmpeqEpi16 : (cmpeqEpi16 a b).lane i = mask 16 (a.lane i == b.lane i) := by
  rw [cmpeqEpi16, lane_map₂]

@[simp] theorem lane_cmpgtEpi16 : (cmpgtEpi16 a b).lane i =
    mask 16 (decide ((b.lane i).toInt < (a.lane i).toInt)) := by
  rw [cmpgtEpi16, lane_map₂]

@[simp] theorem lane_cmpltEpi16 : (cmpltEpi16 a b).lane i =
    mask 16 (decide ((a.lane i).toInt < (b.lane i).toInt)) := by
  rw [cmpltEpi16, lane_cmpgtEpi16]

@[simp] theorem lane_sraiEpi16 (n : Nat) :
    (sraiEpi16 a n).lane i = (a.lane i).sshiftRight n := by
  rw [sraiEpi16, lane_ofLanes]

@[simp] theorem lane_srliEpi16 (n : Nat) : (srliEpi16 a n).lane i = a.lane i >>> n := by
  rw [srliEpi16, lane_ofLanes]

@[simp] theorem lane_slliEpi16 (n : Nat) : (slliEpi16 a n).lane i = a.lane i <<< n := by
  rw [slliEpi16, lane_ofLanes]

@[simp] theorem lane_zero : V128.lane 0#128 i = 0#16 := by
  simp [lane]

theorem lane_allOnes : V128.lane (~~~0) i = BitVec.allOnes 16 := by
  refine BitVec.eq_of_getLsbD_eq fun j inside => ?_
  have below : 16 * (i : Nat) + j < 128 := by omega
  simp [lane, inside, below, -BitVec.reduceNot, -BitVec.reduceAllOnes]

@[simp] theorem lane_andSi128 : (andSi128 a b).lane i = a.lane i &&& b.lane i := by
  simp [lane, andSi128, BitVec.extractLsb'_and]

@[simp] theorem lane_orSi128 : (orSi128 a b).lane i = a.lane i ||| b.lane i := by
  simp [lane, orSi128, BitVec.extractLsb'_or]

@[simp] theorem lane_xorSi128 : (xorSi128 a b).lane i = a.lane i ^^^ b.lane i := by
  simp [lane, xorSi128, BitVec.extractLsb'_xor]

@[simp] theorem lane_andnotSi128 : (andnotSi128 a b).lane i = ~~~a.lane i &&& b.lane i := by
  refine BitVec.eq_of_getLsbD_eq fun j inside => ?_
  have below : 16 * (i : Nat) + j < 128 := by omega
  simp [lane, andnotSi128, inside, below]

/-- On a mask a blend takes a whole lane. -/
theorem lane_blendvEpi8 {m : V128} (isMask : IsMask (m.lane i)) :
    (blendvEpi8 a b m).lane i = if m.lane i = 0#16 then a.lane i else b.lane i := by
  have top (k : Nat) (hk : k < 2) : (m.byte ⟨2 * i + k, by omega⟩).msb = decide (m.lane i ≠ 0) := by
    have bit := getLsbD_lane m i (show 8 * k + 7 < 16 by omega)
    have place : (8 * k + 7) / 8 = k ∧ (8 * k + 7) % 8 = 7 := by omega
    simp only [place] at bit
    rw [BitVec.msb_eq_getLsbD_last]
    refine bit.symm.trans ?_
    rcases isMask with zero | ones
    · rw [zero]
      simp
    · have below : 8 * k + 7 < 16 := by omega
      rw [ones, BitVec.getLsbD_allOnes, decide_eq_true below]
      rfl
  refine BitVec.eq_of_getLsbD_eq fun j inside => ?_
  rw [getLsbD_lane _ _ inside, blendvEpi8, byte_ofBytes, top _ (by omega)]
  by_cases zero : m.lane i = 0#16
  · simp [zero, getLsbD_lane a i inside]
  · simp [zero, getLsbD_lane b i inside]

/-- The signed words whose halves are given are packed with saturation. -/
@[simp] theorem lane_packsEpi32_unpack :
    (packsEpi32 (unpackloEpi16 a b) (unpackhiEpi16 a b)).lane i =
      saturateEpi16 ((b.lane i).setWidth 32 <<< 16 ||| (a.lane i).setWidth 32).toInt := by
  have odd (n : Nat) : (2 * n + 1) % 2 = 1 := by omega
  have half (n : Nat) : (2 * n + 1) / 2 = n := by omega
  rw [packsEpi32, lane_ofLanes]
  split
  · simp [lane32, unpackloEpi16, odd, half]
  · have above : (i : Nat) - 4 + 4 = i := by omega
    simp [lane32, unpackhiEpi16, odd, half, above]

end Lanes

theorem mulloEpi16_comm (a b : V128) : mulloEpi16 a b = mulloEpi16 b a :=
  V128.ext_lane fun i => by
    rw [lane_mulloEpi16, lane_mulloEpi16, BitVec.mul_comm]

/-! ## What they do to a byte -/

theorem byte_setEpi8 (bytes : List Nat) (i : Fin 16) :
    (setEpi8 bytes).byte i = BitVec.ofNat 8 (bytes.reverse.getD i 0) := by
  rw [setEpi8, byte_ofBytes]

theorem byte_andSi128 (a b : V128) (i : Fin 16) :
    (andSi128 a b).byte i = a.byte i &&& b.byte i := by
  simp [byte, andSi128, BitVec.extractLsb'_and]

theorem msb_saturateEpi8_mask (b : Bool) : (saturateEpi8 (mask 16 b).toInt).msb = b := by
  cases b <;> decide

theorem getLsbD_movemaskEpi8 (v : V128) (j : Fin 16) :
    (movemaskEpi8 v).getLsbD j = (v.byte j).msb := by
  rw [movemaskEpi8, getLsbD_foldl_or]
  simp only [getLsbD_bit _ _ j.isLt]
  rw [Bool.eq_iff_iff]
  simp [Fin.val_inj]

/-- A lane is shuffled whole from the lane its two indices name. -/
theorem lane_shuffleEpi8 {a index : V128} {i k : Fin 8}
    (low : index.byte ⟨2 * i, by omega⟩ = BitVec.ofNat 8 (2 * k))
    (high : index.byte ⟨2 * i + 1, by omega⟩ = BitVec.ofNat 8 (2 * k + 1)) :
    (shuffleEpi8 a index).lane i = a.lane k := by
  have chosen (b : Nat) (inside : b < 2)
      (named : index.byte ⟨2 * i + b, by omega⟩ = BitVec.ofNat 8 (2 * k + b)) :
      (shuffleEpi8 a index).byte ⟨2 * i + b, by omega⟩ = a.byte ⟨2 * k + b, by omega⟩ := by
    have small : (2 * (k : Nat) + b) % 256 = 2 * k + b := by omega
    have positive : (BitVec.ofNat 8 (2 * k + b)).msb = false := by
      rw [BitVec.msb_eq_decide, BitVec.toNat_ofNat, decide_eq_false_iff_not]
      omega
    have place : Fin.ofNat 16 (2 * k + b) = ⟨2 * k + b, by omega⟩ :=
      Fin.ext (Nat.mod_eq_of_lt (by omega))
    rw [shuffleEpi8, byte_ofBytes, named, positive, BitVec.toNat_ofNat]
    simp only [Nat.reducePow, small, place]
    rfl
  refine BitVec.eq_of_getLsbD_eq fun j inside => ?_
  rw [getLsbD_lane _ _ inside, getLsbD_lane _ _ inside]
  by_cases first : j < 8
  · have none : j / 8 = 0 := by omega
    simp only [none]
    rw [chosen 0 (by omega) low]
  · have one : j / 8 = 1 := by omega
    simp only [one]
    rw [chosen 1 (by omega) high]

theorem lane_eq_mask {v : V128} {i : Fin 8} {b : Bool}
    (low : v.byte ⟨2 * i, by omega⟩ = mask 8 b) (high : v.byte ⟨2 * i + 1, by omega⟩ = mask 8 b) :
    v.lane i = mask 16 b := by
  refine BitVec.eq_of_getLsbD_eq fun j inside => ?_
  rw [getLsbD_lane _ _ inside, getLsbD_mask, decide_eq_true inside, Bool.true_and]
  have bit : j % 8 < 8 := Nat.mod_lt j (by decide)
  by_cases first : j < 8
  · have none : j / 8 = 0 := by omega
    simp only [none, Nat.add_zero, low, getLsbD_mask, bit, decide_true, Bool.true_and]
  · have one : j / 8 = 1 := by omega
    simp only [one, high, getLsbD_mask, bit, decide_true, Bool.true_and]

/-! ## Signed words in two registers -/

structure IsWord (lo hi : V128) (i : Fin 8) (p : Int) : Prop where
  lo : V128.lane lo i = BitVec.ofInt 16 p
  hi : V128.lane hi i = BitVec.ofInt 16 (p / 65536)

theorem mulhiEpi16_isWord (y z : V128) (i : Fin 8) :
    IsWord (mulloEpi16 y z) (mulhiEpi16 y z) i
      ((V128.lane y i).toInt * (V128.lane z i).toInt) := by
  constructor
  · rw [lane_mulloEpi16, BitVec.ofInt_mul, BitVec.ofInt_toInt, BitVec.ofInt_toInt]
  · rw [lane_mulhiEpi16]

/-- The halves of a signed product that has been doubled. -/
theorem doubled_isWord {lo hi : V128} {i : Fin 8} {p : Int} (word : IsWord lo hi i p) :
    IsWord (slliEpi16 lo 1) (orSi128 (slliEpi16 hi 1) (srliEpi16 lo 15)) i (p * 2) := by
  have low := toNat_ofInt16 p
  have high := toNat_ofInt16 (p / 65536)
  constructor
  · apply eq_ofInt16
    rw [lane_slliEpi16, word.lo, BitVec.toNat_shiftLeft, Nat.shiftLeft_eq]
    omega
  · apply eq_ofInt16
    rw [lane_orSi128, lane_slliEpi16, lane_srliEpi16, word.lo, word.hi, BitVec.toNat_or,
      BitVec.toNat_shiftLeft, BitVec.toNat_ushiftRight]
    have even : (BitVec.ofInt 16 (p / 65536)).toNat <<< 1 % 2 ^ 16 =
        ((BitVec.ofInt 16 (p / 65536)).toNat % 32768) <<< 1 := by
      rw [Nat.shiftLeft_eq, Nat.shiftLeft_eq]
      omega
    rw [even, ← Nat.shiftLeft_add_eq_or_of_lt, Nat.shiftLeft_eq, Nat.shiftRight_eq_div_pow]
    · omega
    · rw [Nat.shiftRight_eq_div_pow]
      omega

end Sse
