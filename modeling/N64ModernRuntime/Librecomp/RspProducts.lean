import N64ModernRuntime.Librecomp.RspAgreement

/-!
# rsp_vu_impl.hpp: the two builds agree on a product

The accumulator is 48 bits in three slices.  The loops put them together and add a
product; with SSE the carries go from slice to slice.
-/

set_option autoImplicit false

namespace N64ModernRuntime.Librecomp

open Sse

variable {x : Vectors} {n : Fin 8} {l : Lane}

/-! ## The accumulator -/

theorem setWidth_ushiftRight_ofInt (z : Int) {k : Nat} {q : Int}
    (inside : k = 0 ∧ q = 1 ∨ k = 16 ∧ q = 65536 ∨ k = 32 ∧ q = 4294967296) :
    (BitVec.ofInt 64 z >>> k).setWidth 16 = BitVec.ofInt 16 (z / q) := by
  rw [← BitVec.toNat_inj, BitVec.toNat_setWidth, BitVec.toNat_ushiftRight, BitVec.toNat_ofInt,
    BitVec.toNat_ofInt, Nat.shiftRight_eq_div_pow]
  rcases inside with ⟨rfl, rfl⟩ | ⟨rfl, rfl⟩ | ⟨rfl, rfl⟩ <;> omega

theorem accumulatorSet_ofInt (l : Lane) (z : Int) : l.accumulatorSet (BitVec.ofInt 64 z) =
    { l with
      acch := BitVec.ofInt 16 (z / 4294967296)
      accm := BitVec.ofInt 16 (z / 65536)
      accl := BitVec.ofInt 16 z } := by
  rw [Lane.accumulatorSet, setWidth_ushiftRight_ofInt z (q := 4294967296) (by decide),
    setWidth_ushiftRight_ofInt z (q := 65536) (by decide),
    setWidth_ushiftRight_ofInt z (q := 1) (by decide),
    Int.ediv_one]

theorem toNat_accumulatorGet (l : Lane) : l.accumulatorGet.toNat =
    l.acch.toNat * 4294967296 + l.accm.toNat * 65536 + l.accl.toNat := by
  have high := l.acch.isLt
  have middle := l.accm.isLt
  have low := l.accl.isLt
  have lower : l.accm.toNat <<< 16 + l.accl.toNat = l.accm.toNat <<< 16 ||| l.accl.toNat :=
    Nat.shiftLeft_add_eq_or_of_lt (by omega) _
  have upper : l.acch.toNat <<< 32 + (l.accm.toNat <<< 16 + l.accl.toNat) =
      l.acch.toNat <<< 32 ||| (l.accm.toNat <<< 16 + l.accl.toNat) := by
    refine Nat.shiftLeft_add_eq_or_of_lt ?_ _
    rw [Nat.shiftLeft_eq]
    omega
  simp only [Nat.shiftLeft_eq, Nat.reducePow] at lower upper
  simp (disch := omega) only [Lane.accumulatorGet, BitVec.or_assoc, BitVec.toNat_or,
    BitVec.toNat_shiftLeft,
    BitVec.toNat_setWidth, Nat.shiftLeft_eq, Nat.mod_eq_of_lt, Nat.reducePow, Nat.mul_one]
  rw [← lower, ← upper, Nat.add_assoc]

theorem accumulatorGet_eq (l : Lane) : l.accumulatorGet =
    BitVec.ofInt 64 (l.acch.toNat * 4294967296 + l.accm.toNat * 65536 + l.accl.toNat) := by
  have value := toNat_accumulatorGet l
  have below := l.accumulatorGet.isLt
  rw [← BitVec.toNat_inj, BitVec.toNat_ofInt]
  omega

theorem setWidth_ushiftRight_ofInt32 (z : Int) (k : Nat) (inside : k = 0 ∨ k = 16) :
    (BitVec.ofInt 32 z >>> k).setWidth 16 = BitVec.ofInt 16 (z / 2 ^ k) := by
  rw [← BitVec.toNat_inj, BitVec.toNat_setWidth, BitVec.toNat_ushiftRight, BitVec.toNat_ofInt,
    BitVec.toNat_ofInt, Nat.shiftRight_eq_div_pow]
  rcases inside with rfl | rfl <;> omega

theorem upper_accumulatorGet (l : Lane) : (l.accumulatorGet >>> 16).setWidth 32 =
    BitVec.ofInt 32 (l.acch.toNat * 65536 + l.accm.toNat) := by
  have low := l.accl.isLt
  have value := toNat_accumulatorGet l
  rw [← BitVec.toNat_inj, BitVec.toNat_setWidth, BitVec.toNat_ushiftRight, value,
    BitVec.toNat_ofInt, Nat.shiftRight_eq_div_pow]
  omega

def Lane.upper (l : Lane) : Int := l.acch.toInt * 65536 + l.accm.toNat

theorem upper_accumulatorSet (l : Lane) {z : Int} (low : -140737488355328 ≤ z)
    (high : z < 140737488355328) : (l.accumulatorSet (BitVec.ofInt 64 z)).upper = z / 65536 := by
  have top : (BitVec.ofInt 16 (z / 4294967296)).toInt = z / 4294967296 :=
    toInt_ofInt_of_bounds (by omega) (by omega)
  have middle := toNat_ofInt16 (z / 65536)
  rw [accumulatorSet_ofInt]
  simp only [Lane.upper, top, middle]
  omega

theorem isMask_acch {z : Int} (low : -4294967296 ≤ z) (high : z < 4294967296) :
    IsMask (l.accumulatorSet (BitVec.ofInt 64 z)).acch := by
  rw [accumulatorSet_ofInt]
  rcases lt_or_ge z 0 with negative | notNegative
  · right
    have minus : z / 4294967296 = -1 := by omega
    simp only [minus]
    rfl
  · left
    have none : z / 4294967296 = 0 := by omega
    simp only [none]
    rfl

theorem accumulatorSaturate_eq (l : Lane) (slice : Bool) (negative positive : BitVec 16) :
    l.accumulatorSaturate slice negative positive =
      if l.upper < -32768 then negative
      else if 32767 < l.upper then positive
      else if slice then l.accm else l.accl := by
  have range := toInt_cases l.acch
  have range' := toInt_cases l.accm
  have ones : l.acch = 0xffff ↔ l.acch.toInt = -1 := by
    rw [← BitVec.toInt_inj]
    rfl
  have zero : l.acch = 0x0000 ↔ l.acch.toInt = 0 := by
    rw [← BitVec.toInt_inj]
    rfl
  have value : (if !slice then l.accl else l.accm) = if slice then l.accm else l.accl := by
    cases slice <;> rfl
  have spelled : l.upper = l.acch.toInt * 65536 + l.accm.toNat := rfl
  simp only [Lane.accumulatorSaturate, ne_eq, ones, zero, value]
  split_ifs
  all_goals first
    | rfl
    | omega

theorem accumulatorSaturate_middle (l : Lane) :
    l.accumulatorSaturate true 0x8000 0x7fff = saturateEpi16 l.upper := by
  have range := toInt_cases l.acch
  have range' := toInt_cases l.accm
  rw [accumulatorSaturate_eq, if_pos rfl]
  split_ifs with below above
  · exact (saturateEpi16_of_lt below).symm
  · exact (saturateEpi16_of_gt above).symm
  · have same : l.upper = l.accm.toInt := by
      have spelled : l.upper = l.acch.toInt * 65536 + l.accm.toNat := rfl
      omega
    rw [saturateEpi16_of_bounds (not_lt.mp below) (not_lt.mp above), same, BitVec.ofInt_toInt]

/-! ## What is written -/

theorem lane_packSlices {accm acch : R128} {i : Fin 8} (isMiddle : V128.lane accm i = l.accm)
    (isHigh : V128.lane acch i = l.acch) :
    V128.lane (Vectors.packSlices accm acch) i = l.accumulatorSaturate true 0x8000 0x7fff := by
  rw [Vectors.packSlices, lane_packsEpi32_unpack, toInt_join, isMiddle, isHigh,
    accumulatorSaturate_middle, Lane.upper]

theorem lane_clampLow {accl accm acch : R128} {i : Fin 8} (isLow : V128.lane accl i = l.accl)
    (isMiddle : V128.lane accm i = l.accm) (isHigh : V128.lane acch i = l.acch) :
    V128.lane (Vectors.clampLow accl accm acch) i = l.accumulatorSaturate false 0 0xffff := by
  have range := toInt_cases l.acch
  have range' := toInt_cases l.accm
  have spelled : l.upper = l.acch.toInt * 65536 + l.accm.toNat := rfl
  rw [accumulatorSaturate_eq]
  by_cases negative : l.acch.toInt < 0 <;> by_cases sign : l.accm.toInt < 0
  all_goals
    simp [Vectors.clampLow, isMiddle, isHigh, isLow, lane_blendvEpi8, Vectors.zero, negative, sign,
      beq_eq_toInt, toInt_mask]
    split_ifs
  all_goals first
    | rfl
    | omega

/-- The middle slice as an unsigned number, or the bound it is beyond. -/
theorem lane_clampMiddle {accm acch : R128} {i : Fin 8} (isMiddle : V128.lane accm i = l.accm)
    (isHigh : V128.lane acch i = l.acch) :
    V128.lane (orSi128 (cmpgtEpi16 acch Vectors.zero)
        (andnotSi128 (sraiEpi16 acch 15) (orSi128 (sraiEpi16 accm 15) accm))) i =
      if l.acch.toInt < 0 then 0x0000
      else if l.acch.toInt ≠ 0 ∨ l.accm.toInt < 0 then 0xffff
      else l.accm := by
  simp [isMiddle, isHigh, Vectors.zero, mask_or, mask_and]
  split_ifs
  all_goals first
    | rfl
    | omega

/-! ## Words -/

theorem lane_wrapped {a b sum saturated : R128} {i : Fin 8}
    (isSum : sum = addEpi16 a b) (isSaturated : saturated = addsEpu16 a b) :
    V128.lane (Vectors.wrapped sum saturated) i =
      mask 16 (decide (2 ^ 16 ≤ (V128.lane a i).toNat + (V128.lane b i).toNat)) := by
  subst isSum isSaturated
  simp [Vectors.wrapped, Vectors.zero, add_beq_saturateEpu16, -Nat.reducePow]
  congr 1
  rw [Bool.eq_iff_iff]
  simp

theorem mulhiMixed_isWord (signed unsigned : R128) (i : Fin 8) :
    IsWord (mulloEpi16 signed unsigned) (Vectors.mulhiMixed signed unsigned) i
      ((V128.lane signed i).toInt * (V128.lane unsigned i).toNat) := by
  constructor
  · rw [lane_mulloEpi16, BitVec.ofInt_mul, BitVec.ofInt_toInt]
    simp
  · have range := toInt_cases (V128.lane signed i)
    rw [Vectors.mulhiMixed, lane_subEpi16, lane_mulhiEpu16, lane_andSi128, lane_sraiEpi16,
      sshiftRight_sign, and_mask, ← BitVec.ofInt_natCast]
    by_cases negative : (V128.lane signed i).toInt < 0
    · have spread : (V128.lane signed i).toInt * (V128.lane unsigned i).toNat =
          (V128.lane signed i).toNat * (V128.lane unsigned i).toNat -
            (V128.lane unsigned i).toNat * 65536 := by
        rw [show (V128.lane signed i).toInt = (V128.lane signed i).toNat - 65536 by omega, sub_mul,
          mul_comm 65536]
      have quotient : (V128.lane signed i).toInt * (V128.lane unsigned i).toNat / 65536 =
          ((V128.lane signed i).toNat * (V128.lane unsigned i).toNat / 65536 : Nat) -
            ((V128.lane unsigned i).toNat : Int) := by
        rw [spread]
        push_cast
        omega
      rw [quotient, ofInt_sub, BitVec.ofInt_natCast, BitVec.ofInt_natCast]
      simp [negative]
    · have same : (V128.lane signed i).toInt = (V128.lane signed i).toNat := by omega
      simp [same]

/-- The high half of an unsigned product, as the loops compute it. -/
theorem high_unsigned (y z : BitVec 16) :
    (BitVec.ofNat 32 (y.toNat * z.toNat) >>> 16).setWidth 64 =
      BitVec.ofInt 64 (y.toNat * z.toNat / 65536 : Nat) := by
  have below := product_lt y z
  rw [← BitVec.toNat_inj, BitVec.toNat_setWidth, BitVec.toNat_ushiftRight, BitVec.toNat_ofNat,
    BitVec.toNat_ofInt, Nat.shiftRight_eq_div_pow]
  omega

theorem mulhiEpu16_isWord (y z : R128) (i : Fin 8) :
    IsWord (mulhiEpu16 y z) Vectors.zero i
      ((V128.lane y i).toNat * (V128.lane z i).toNat / 65536 : Nat) := by
  have below := product_lt (V128.lane y i) (V128.lane z i)
  constructor
  · rw [lane_mulhiEpu16, BitVec.ofInt_natCast]
  · have small : (((V128.lane y i).toNat * (V128.lane z i).toNat / 65536 : Nat) : Int) / 65536 =
        0 := by
      omega
    rw [small]
    exact lane_zero i

theorem HasLane.setVd (here : HasLane x n l) {v : R128} {value : BitVec 16}
    (set : V128.lane v n.rev = value) : HasLane { x with vd := v } n { l with vd := value } := by
  simp only [HasLane] at here
  simp [HasLane, here, set]

theorem HasLane.setWord (here : HasLane x n l) {lo hi : R128} {p : Int}
    (word : IsWord lo hi n.rev p) (low : -2147483648 ≤ p) (high : p < 2147483648) :
    HasLane { x with accl := lo, accm := hi, acch := sraiEpi16 hi 15 } n
      (l.accumulatorSet (BitVec.ofInt 64 p)) := by
  simp only [HasLane] at here
  have sign : (BitVec.ofInt 16 (p / 65536)).toInt = p / 65536 :=
    toInt_ofInt_of_bounds (by omega) (by omega)
  rw [accumulatorSet_ofInt]
  simp [HasLane, here, word.lo, word.hi, sign, -BitVec.toInt_ofInt]
  apply eq_ofInt16
  by_cases negative : p / 65536 < 0
  · simp [negative, mask]
    omega
  · simp [negative, mask]
    omega

theorem addWord_agrees {lo hi : R128} {p : Int} (word : IsWord lo hi n.rev p)
    (low : -2147483648 ≤ p) (high : p < 2147483648 - 65536) (here : HasLane x n l) :
    HasLane (x.addWord lo hi) n (l.accumulatorSet (l.accumulatorGet + BitVec.ofInt 64 p)) := by
  simp only [HasLane] at here
  rw [accumulatorGet_eq, ← BitVec.ofInt_add, accumulatorSet_ofInt]
  have h := l.acch.isLt
  have m := l.accm.isLt
  have a := l.accl.isLt
  have first := toNat_ofInt16 p
  -- the upper half takes the carry of the lower one, which cannot change its sign
  obtain ⟨q, carried, upper⟩ : ∃ q : Int,
      q = p / 65536 + (if 65536 ≤ l.accl.toNat + (BitVec.ofInt 16 p).toNat then 1 else 0) ∧
      (if 65536 ≤ l.accl.toNat + (BitVec.ofInt 16 p).toNat then BitVec.ofInt 16 (p / 65536) + 1#16
        else BitVec.ofInt 16 (p / 65536)) = BitVec.ofInt 16 q := by
    refine ⟨_, rfl, ?_⟩
    split
    · rw [BitVec.ofInt_add]
      rfl
    · rw [add_zero]
  have second := toNat_ofInt16 q
  have sign : (BitVec.ofInt 16 q).toInt = q := by
    apply toInt_ofInt_of_bounds
    · split_ifs at carried <;> omega
    · split_ifs at carried <;> omega
  simp [HasLane, Vectors.addWord, here, lane_wrapped rfl rfl, word.lo, word.hi, upper, sign,
    -BitVec.toInt_ofInt, -BitVec.toNat_ofInt]
  refine ⟨?_, ?_, ?_⟩
  · have more (y : BitVec 16) : (y + 1#16).toNat = (y.toNat + 1) % 65536 := BitVec.toNat_add y 1#16
    have less (y : BitVec 16) : (y - 1#16).toNat = (y.toNat + 65535) % 65536 := by
      rw [BitVec.toNat_sub, Nat.add_comm]
      rfl
    apply eq_ofInt16
    simp only [apply_ite BitVec.toNat, more, less]
    split_ifs at carried ⊢ <;> omega
  · apply eq_ofInt16
    rw [BitVec.toNat_add]
    split_ifs at carried <;> omega
  · apply eq_ofInt16
    rw [BitVec.toNat_add]
    omega

/-! ## The instructions -/

theorem vmudm_agrees (here : HasLane x n l) :
    HasLane x.vmudm n (VectorOp.after 0 .vmudm l.vmudm) := by
  have word := mulhiMixed_isWord x.vs x.vte n.rev
  rw [here.1.1, here.1.2.1] at word
  have bounds := product_bounds_mixed l.vs l.vte
  have set := here.setWord word bounds.1 (by omega)
  exact set.setVd set.2.1.2.1

theorem vmudn_agrees (here : HasLane x n l) :
    HasLane x.vmudn n (VectorOp.after 0 .vmudn l.vmudn) := by
  have word := mulhiMixed_isWord x.vte x.vs n.rev
  rw [here.1.1, here.1.2.1, mulloEpi16_comm] at word
  have bounds := product_bounds_mixed l.vte l.vs
  have set := here.setWord word bounds.1 (by omega)
  rw [Int.mul_comm] at set
  exact set.setVd set.2.1.2.2

theorem vmudl_agrees (here : HasLane x n l) :
    HasLane x.vmudl n (VectorOp.after 0 .vmudl l.vmudl) := by
  have word := mulhiEpu16_isWord x.vs x.vte n.rev
  rw [here.1.1, here.1.2.1] at word
  have below := product_lt l.vs l.vte
  have set := here.setWord word (by omega) (by omega)
  have flat : sraiEpi16 Vectors.zero 15 = Vectors.zero := by
    decide
  rw [flat] at set
  rw [Lane.vmudl, high_unsigned, Vectors.vmudl]
  exact set.setVd set.2.1.2.2

theorem vmudh_agrees (here : HasLane x n l) : HasLane x.vmudh n l.vmudh := by
  have word := mulhiEpi16_isWord x.vs x.vte n.rev
  rw [here.1.1, here.1.2.1] at word
  have shifted : BitVec.ofInt 64 (l.vs.toInt * l.vte.toInt) <<< 16 =
      BitVec.ofInt 64 (l.vs.toInt * l.vte.toInt * 65536) := by
    rw [BitVec.shiftLeft_eq_mul_twoPow, BitVec.ofInt_mul _ 65536]
    rfl
  have set : HasLane { x with
      accl := Vectors.zero
      accm := mulloEpi16 x.vs x.vte
      acch := mulhiEpi16 x.vs x.vte } n
      (l.accumulatorSet (BitVec.ofInt 64 (l.vs.toInt * l.vte.toInt * 65536))) := by
    rw [accumulatorSet_ofInt]
    simp only [HasLane] at here
    simp [HasLane, here, word.lo, word.hi]
    refine ⟨congrArg _ (by omega), eq_ofInt16 ?_⟩
    have zero : (V128.lane Vectors.zero n.rev).toNat = 0 := by
      rw [Vectors.zero]
      exact congrArg BitVec.toNat (lane_zero n.rev)
    omega
  rw [Lane.vmudh, shifted]
  exact set.setVd (lane_packSlices set.2.1.2.1 set.2.1.1)

theorem vmadm_agrees (here : HasLane x n l) : HasLane x.vmadm n l.vmadm := by
  have word := mulhiMixed_isWord x.vs x.vte n.rev
  rw [here.1.1, here.1.2.1] at word
  have bounds := product_bounds_mixed l.vs l.vte
  have added := addWord_agrees word bounds.1 bounds.2 here
  exact added.setVd (lane_packSlices added.2.1.2.1 added.2.1.1)

theorem vmadn_agrees (here : HasLane x n l) : HasLane x.vmadn n l.vmadn := by
  have word := mulhiMixed_isWord x.vte x.vs n.rev
  rw [here.1.1, here.1.2.1, mulloEpi16_comm] at word
  have bounds := product_bounds_mixed l.vte l.vs
  have added := addWord_agrees word bounds.1 bounds.2 here
  rw [Int.mul_comm] at added
  exact added.setVd (lane_clampLow added.2.1.2.2 added.2.1.2.1 added.2.1.1)

theorem vmadl_agrees (here : HasLane x n l) : HasLane x.vmadl n l.vmadl := by
  have word := mulhiEpu16_isWord x.vs x.vte n.rev
  rw [here.1.1, here.1.2.1] at word
  have below := product_lt l.vs l.vte
  have added := addWord_agrees word (by omega) (by omega) here
  -- the upper half is the carry of the lower one, so it has no sign to extend
  have flat (b : R128) (c : Bool) (carry : V128.lane b n.rev = mask 16 c) :
      V128.lane (sraiEpi16 (subEpi16 Vectors.zero b) 15) n.rev = 0#16 := by
    cases c
    · simp [Vectors.zero, carry]
      decide
    · simp [Vectors.zero, carry]
      decide
  have high : V128.lane x.vmadl.acch n.rev =
      V128.lane (x.addWord (mulhiEpu16 x.vs x.vte) Vectors.zero).acch n.rev := by
    simp only [Vectors.vmadl, Vectors.addWord, lane_subEpi16, lane_addEpi16]
    rw [flat _ _ (lane_wrapped rfl rfl), BitVec.add_zero]
  rw [Lane.vmadl, high_unsigned]
  have same : HasLane { x.addWord (mulhiEpu16 x.vs x.vte) Vectors.zero with acch := x.vmadl.acch } n
      (l.accumulatorSet
        (l.accumulatorGet + BitVec.ofInt 64 (l.vs.toNat * l.vte.toNat / 65536 : Nat))) := by
    simp only [HasLane] at added ⊢
    rw [high]
    exact added
  exact same.setVd (lane_clampLow same.2.1.2.2 same.2.1.2.1 same.2.1.1)

theorem vmadh_agrees (here : HasLane x n l) : HasLane x.vmadh n l.vmadh := by
  have word := mulhiEpi16_isWord x.vs x.vte n.rev
  rw [here.1.1, here.1.2.1] at word
  rw [Lane.vmadh, upper_accumulatorGet, ← BitVec.ofInt_add,
    setWidth_ushiftRight_ofInt32 _ 16 (by decide), setWidth_ushiftRight_ofInt32 _ 0 (by decide)]
  have set : HasLane
      { x with
        accm := x.vmadh.accm
        acch := x.vmadh.acch } n
      { l with
        acch := BitVec.ofInt 16
          ((l.acch.toNat * 65536 + l.accm.toNat + l.vs.toInt * l.vte.toInt) / 2 ^ 16)
        accm := BitVec.ofInt 16
          ((l.acch.toNat * 65536 + l.accm.toNat + l.vs.toInt * l.vte.toInt) / 2 ^ 0) } := by
    simp only [HasLane] at here
    have product := toNat_ofInt16 (l.vs.toInt * l.vte.toInt)
    have upper := toNat_ofInt16 (l.vs.toInt * l.vte.toInt / 65536)
    have more (y : BitVec 16) : (y + 1#16).toNat = (y.toNat + 1) % 65536 := BitVec.toNat_add y 1#16
    have m := l.accm.isLt
    simp [HasLane, Vectors.vmadh, here, lane_wrapped rfl rfl, word.lo, word.hi, -BitVec.toNat_ofInt]
    refine ⟨eq_ofInt16 ?_, eq_ofInt16 ?_⟩
    · simp only [apply_ite BitVec.toNat, BitVec.toNat_add, more]
      split_ifs <;> omega
    · rw [BitVec.toNat_add]
      omega
  exact set.setVd (lane_packSlices set.2.1.2.1 set.2.1.1)

theorem vmacf_agrees (u : Bool) (here : HasLane x n l) : HasLane (x.vmacf u) n (l.vmacf u) := by
  have word := mulhiEpi16_isWord x.vs x.vte n.rev
  rw [here.1.1, here.1.2.1] at word
  have bounds := product_bounds l.vs l.vte
  have double := doubled_isWord word
  have set : HasLane
      { x with
        accl := (x.vmacf u).accl
        accm := (x.vmacf u).accm
        acch := (x.vmacf u).acch } n
      (l.accumulatorSet (l.accumulatorGet + BitVec.ofInt 64 (l.vs.toInt * l.vte.toInt * 2))) := by
    rw [accumulatorGet_eq, ← BitVec.ofInt_add, accumulatorSet_ofInt]
    simp only [HasLane] at here
    generalize l.vs.toInt * l.vte.toInt = p at *
    have h := l.acch.isLt
    have m := l.accm.isLt
    have a := l.accl.isLt
    have sign : (BitVec.ofInt 16 (p / 65536)).toInt = p / 65536 :=
      toInt_ofInt_of_bounds (by omega) (by omega)
    have first := toNat_ofInt16 (p * 2)
    simp [HasLane, Vectors.vmacf, here, lane_wrapped rfl rfl, double.lo, double.hi, word.hi,
      ofInt_carry, sign, Vectors.zero, -BitVec.toInt_ofInt, -BitVec.toNat_ofInt]
    -- the middle part with the carry of the lower one
    obtain ⟨q, carried⟩ : ∃ q : Int,
        q = p * 2 / 65536 +
          if 65536 ≤ l.accl.toNat + (BitVec.ofInt 16 (p * 2)).toNat then 1 else 0 :=
      ⟨_, rfl⟩
    rw [← carried]
    have second := toNat_ofInt16 q
    have vanishes : BitVec.ofInt 16 q = 0#16 ↔ q % 65536 = 0 := by
      rw [← BitVec.toNat_inj]
      simp only [BitVec.toNat_ofNat]
      omega
    have high : (if BitVec.ofInt 16 q = 0#16 ∧ 65536 ≤ l.accl.toNat + (BitVec.ofInt 16 (p * 2)).toNat
        then mask 16 (decide (p / 65536 < 0)) + 1#16 else mask 16 (decide (p / 65536 < 0))) =
        BitVec.ofInt 16 (q / 65536) := by
      have extended : mask 16 (decide (p / 65536 < 0)) = BitVec.ofInt 16 (p * 2 / 4294967296) := by
        by_cases negative : p / 65536 < 0
        · have top : p * 2 / 4294967296 = -1 := by omega
          simp only [negative, top, decide_true]
          decide
        · have top : p * 2 / 4294967296 = 0 := by omega
          simp only [negative, top, decide_false]
          decide
      simp only [vanishes, extended, ofInt_carry]
      congr 1
      split_ifs at carried ⊢ <;> omega
    rw [high]
    have third := toNat_ofInt16 (q / 65536)
    refine ⟨eq_ofInt16 ?_, eq_ofInt16 ?_, eq_ofInt16 ?_⟩
    · have more (y : BitVec 16) : (y + 1#16).toNat = (y.toNat + 1) % 65536 :=
        BitVec.toNat_add y 1#16
      simp only [apply_ite BitVec.toNat, BitVec.toNat_add, more]
      split_ifs at carried ⊢ <;> omega
    · rw [BitVec.toNat_add]
      split_ifs at carried <;> omega
    · rw [BitVec.toNat_add]
      omega
  cases u
  · exact set.setVd (lane_packSlices set.2.1.2.1 set.2.1.1)
  · exact set.setVd (lane_clampMiddle set.2.1.2.1 set.2.1.1)

/-! ## Fractions, rounded -/

/-- Only the square of the least lane is too great for a word when it is doubled. -/
theorem rounded_bounds (y z : BitVec 16) :
    (-2147483648 ≤ y.toInt * z.toInt * 2 + 32768 ∧ y.toInt * z.toInt * 2 + 32768 < 2147483648 ∧
        (y = z → 0 ≤ y.toInt * z.toInt * 2 + 32768)) ∨
      y = z ∧ y.toInt * z.toInt * 2 + 32768 = 2147516416 := by
  have bounds := product_bounds y z
  by_cases least : y.toInt = -32768 ∧ z.toInt = -32768
  · right
    rw [least.1, least.2]
    exact ⟨BitVec.eq_of_toInt_eq (least.1.trans least.2.symm), rfl⟩
  · left
    have range := toInt_cases y
    have range' := toInt_cases z
    refine ⟨by omega, ?_, ?_⟩
    · have low : -32768 ≤ y.toInt := by omega
      have high : y.toInt ≤ 32767 := by omega
      have low' : -32768 ≤ z.toInt := by omega
      have high' : z.toInt ≤ 32767 := by omega
      rcases not_and_or.mp least with notLeast | notLeast
      · have above : -32767 ≤ y.toInt := by omega
        nlinarith
      · have above : -32767 ≤ z.toInt := by omega
        nlinarith
    · rintro rfl
      have square := mul_self_nonneg y.toInt
      omega

/-- The middle part of a doubled product, with the carry of its rounding. -/
theorem rounded_middle (p : Int) : BitVec.ofInt 16 (p / 65536) <<< 1 +
    (BitVec.ofInt 16 p >>> 15 + (BitVec.ofInt 16 p + BitVec.ofInt 16 p) >>> 15) =
      BitVec.ofInt 16 ((p * 2 + 32768) / 65536) := by
  have first := toNat_ofInt16 p
  have second := toNat_ofInt16 (p / 65536)
  apply eq_ofInt16
  simp only [BitVec.toNat_add, BitVec.toNat_shiftLeft, BitVec.toNat_ushiftRight, Nat.shiftLeft_eq,
    Nat.shiftRight_eq_div_pow]
  omega

theorem vmulf_slices (u : Bool) (here : HasLane x n l) :
    HasLane { x with
      accl := (x.vmulf u).accl
      accm := (x.vmulf u).accm
      acch := (x.vmulf u).acch } n
      (l.accumulatorSet (BitVec.ofInt 64 (l.vs.toInt * l.vte.toInt * 2 + 0x8000))) := by
  have word := mulhiEpi16_isWord x.vs x.vte n.rev
  rw [here.1.1, here.1.2.1] at word
  have bounds := rounded_bounds l.vs l.vte
  rw [accumulatorSet_ofInt]
  simp only [HasLane] at here
  have middle : V128.lane (x.vmulf u).accm n.rev =
      BitVec.ofInt 16 ((l.vs.toInt * l.vte.toInt * 2 + 32768) / 65536) := by
    rw [← rounded_middle]
    simp [Vectors.vmulf, word.lo, word.hi]
  have low : V128.lane (x.vmulf u).accl n.rev =
      BitVec.ofInt 16 (l.vs.toInt * l.vte.toInt * 2 + 32768) := by
    have product := toNat_ofInt16 (l.vs.toInt * l.vte.toInt)
    apply eq_ofInt16
    simp only [Vectors.vmulf, lane_addEpi16, lane_slliEpi16, lane_cmpeqEpi16, beq_self_eq_true,
      word.lo, BitVec.toNat_add, show (mask 16 true <<< 15).toNat = 32768 from rfl]
    omega
  have high : V128.lane (x.vmulf u).acch n.rev =
      BitVec.ofInt 16 ((l.vs.toInt * l.vte.toInt * 2 + 32768) / 4294967296) := by
    have spelled : (x.vmulf u).acch =
        andnotSi128 (cmpeqEpi16 x.vs x.vte) (sraiEpi16 (x.vmulf u).accm 15) := rfl
    rw [spelled, lane_andnotSi128, lane_cmpeqEpi16, lane_sraiEpi16, middle, sshiftRight_sign,
      here.1.1, here.1.2.1, not_mask, mask_and_mask]
    generalize l.vs.toInt * l.vte.toInt * 2 + 32768 = w at *
    rcases bounds with ⟨above, below, square⟩ | ⟨same, rfl⟩
    · have whole : (BitVec.ofInt 16 (w / 65536)).toInt = w / 65536 :=
        toInt_ofInt_of_bounds (by omega) (by omega)
      rw [whole]
      by_cases negative : w / 65536 < 0
      · have differ : l.vs ≠ l.vte := by
          intro same
          have := square same
          omega
        have minus : w / 4294967296 = -1 := by omega
        have apart : (l.vs == l.vte) = false := beq_false_of_ne differ
        simp only [negative, minus, apart]
        decide
      · have none : w / 4294967296 = 0 := by omega
        simp [negative, none]
    · simp [same]
  simp [HasLane, here, middle, low, high]

/-- One is taken from the product that was too great. -/
theorem lane_vmulf (vs vte : R128) {accm : R128} {i : Fin 8} {w : Int}
    (isMiddle : V128.lane accm i = BitVec.ofInt 16 (w / 65536))
    (bounds : (-2147483648 ≤ w ∧ w < 2147483648 ∧ (V128.lane vs i = V128.lane vte i → 0 ≤ w)) ∨
      V128.lane vs i = V128.lane vte i ∧ w = 2147516416) :
    V128.lane (addEpi16 accm (andSi128 (cmpeqEpi16 vs vte) (sraiEpi16 accm 15))) i =
      saturateEpi16 (w / 65536) := by
  rw [lane_addEpi16, lane_andSi128, lane_cmpeqEpi16, lane_sraiEpi16, isMiddle, sshiftRight_sign,
    mask_and_mask, add_mask]
  rcases bounds with ⟨low, high, square⟩ | ⟨same, rfl⟩
  · have whole : (BitVec.ofInt 16 (w / 65536)).toInt = w / 65536 :=
      toInt_ofInt_of_bounds (by omega) (by omega)
    rw [saturateEpi16_of_bounds (by omega) (by omega), whole]
    apply if_neg
    intro least
    rw [Bool.and_eq_true, beq_iff_eq, decide_eq_true_eq] at least
    have := square least.1
    omega
  · rw [same, beq_self_eq_true]
    decide

theorem lane_vmulu {accm acch : R128} {i : Fin 8} (isMiddle : V128.lane accm i = l.accm)
    (isHigh : V128.lane acch i = l.acch) (isMask : IsMask l.acch) :
    V128.lane (andnotSi128 acch (orSi128 accm (sraiEpi16 accm 15))) i =
      if l.acch.toInt < 0 then 0x0000
      else if (l.acch ^^^ l.accm).toInt < 0 then 0xffff
      else l.accm := by
  rw [lane_andnotSi128, lane_orSi128, lane_sraiEpi16, isMiddle, isHigh, sshiftRight_sign, or_mask]
  rcases isMask with (zero : l.acch = 0#16) | ones
  · rw [zero, BitVec.not_zero, BitVec.allOnes_and, BitVec.zero_xor]
    simp
  · rw [ones]
    simp

theorem vmulf_agrees (here : HasLane x n l) : HasLane (x.vmulf false) n (l.vmulf false) := by
  have slices := vmulf_slices false here
  have bounds := rounded_bounds l.vs l.vte
  have middle := slices.2.1.2.1
  rw [accumulatorSet_ofInt] at middle
  have same : V128.lane x.vs n.rev = V128.lane x.vte n.rev ↔ l.vs = l.vte := by
    rw [here.1.1, here.1.2.1]
  rw [← same] at bounds
  rw [Lane.vmulf]
  refine slices.setVd ((lane_vmulf x.vs x.vte middle bounds).trans ?_)
  simp only [Bool.not_false, if_true]
  rw [accumulatorSaturate_middle, upper_accumulatorSet _ (by omega) (by omega)]

theorem vmulu_agrees (here : HasLane x n l) : HasLane (x.vmulf true) n (l.vmulf true) := by
  have slices := vmulf_slices true here
  have bounds := rounded_bounds l.vs l.vte
  have unsigned := lane_vmulu slices.2.1.2.1 slices.2.1.1 (isMask_acch (by omega) (by omega))
  rw [Lane.vmulf]
  simp only [Bool.not_true, Bool.false_eq_true, if_false]
  exact slices.setVd unsigned

/-! ## All of them -/

/-- Where its flags are masks, a lane comes out of both builds the same. -/
theorem VectorOp.agrees (op : VectorOp) (masked : l.Masked) (here : HasLane x n l) :
    HasLane (op.simd x) n (op.after 0 (op.lane l)) := by
  cases op with
  | vabs => exact vabs_agrees here
  | vadd => exact vadd_agrees masked here
  | vaddc => exact vaddc_agrees here
  | vand => exact (logic_agrees here).1
  | vch => exact vch_agrees here
  | vcl => exact vcl_agrees masked here
  | vcr => exact vcr_agrees here
  | veq => exact veq_agrees masked here
  | vge => exact vge_agrees masked here
  | vlt => exact vlt_agrees masked here
  | vmacf u => exact vmacf_agrees u here
  | vmadh => exact vmadh_agrees here
  | vmadl => exact vmadl_agrees here
  | vmadm => exact vmadm_agrees here
  | vmadn => exact vmadn_agrees here
  | vmrg => exact vmrg_agrees masked here
  | vmudh => exact vmudh_agrees here
  | vmudl => exact vmudl_agrees here
  | vmudm => exact vmudm_agrees here
  | vmudn => exact vmudn_agrees here
  | vmulf u =>
      cases u
      · exact vmulf_agrees here
      · exact vmulu_agrees here
  | vnand => exact (logic_agrees here).2.2.2.1
  | vne => exact vne_agrees masked here
  | vnor => exact (logic_agrees here).2.2.2.2.1
  | vnxor => exact (logic_agrees here).2.2.2.2.2
  | vor => exact (logic_agrees here).2.1
  | vsub => exact vsub_agrees masked here
  | vsubc => exact vsubc_agrees here
  | vxor => exact (logic_agrees here).2.2.1
  | vzero => exact vzero_agrees here

end N64ModernRuntime.Librecomp
