import N64ModernRuntime.Librecomp.RspSimd

/-!
# rsp_vu_impl.hpp: the two builds agree on a lane
-/

set_option autoImplicit false

namespace N64ModernRuntime.Librecomp

open Sse

@[simp] theorem setFlag_eq_mask (b : Bool) : setFlag b = mask 16 b := by
  cases b <;> decide

@[simp] theorem getFlag_mask (b : Bool) : getFlag (mask 16 b) = b := by
  cases b <;> decide

theorem sclamp_eq_saturate (x : Int) : BitVec.ofInt 16 (sclamp 16 x) = saturateEpi16 x := by
  unfold sclamp saturateEpi16
  congr 1
  simp only [Nat.reduceSub, Int.reducePow, Int.reduceSub, Int.reduceNeg]
  split_ifs <;> omega

structure Lane.Masked (l : Lane) : Prop where
  vcoh : IsMask l.vcoh
  vcol : IsMask l.vcol
  vcch : IsMask l.vcch
  vccl : IsMask l.vccl
  vce : IsMask l.vce

theorem Lane.Masked.flags {l : Lane} (masked : l.Masked) : ∃ coh col cch ccl ce : Bool,
    l.vcoh = mask 16 coh ∧ l.vcol = mask 16 col ∧ l.vcch = mask 16 cch ∧ l.vccl = mask 16 ccl ∧
      l.vce = mask 16 ce := by
  obtain ⟨coh, vcoh⟩ := isMask_iff.mp masked.vcoh
  obtain ⟨col, vcol⟩ := isMask_iff.mp masked.vcol
  obtain ⟨cch, vcch⟩ := isMask_iff.mp masked.vcch
  obtain ⟨ccl, vccl⟩ := isMask_iff.mp masked.vccl
  obtain ⟨ce, vce⟩ := isMask_iff.mp masked.vce
  exact ⟨coh, col, cch, ccl, ce, vcoh, vcol, vcch, vccl, vce⟩

def HasLane (x : Vectors) (n : Fin 8) (l : Lane) : Prop := 
  (V128.lane x.vs n.rev = l.vs ∧ V128.lane x.vte n.rev = l.vte ∧ V128.lane x.vd n.rev = l.vd) ∧
  (V128.lane x.acch n.rev = l.acch ∧ V128.lane x.accm n.rev = l.accm ∧
    V128.lane x.accl n.rev = l.accl) ∧
  V128.lane x.vcoh n.rev = l.vcoh ∧ V128.lane x.vcol n.rev = l.vcol ∧
  V128.lane x.vcch n.rev = l.vcch ∧ V128.lane x.vccl n.rev = l.vccl ∧
  V128.lane x.vce n.rev = l.vce

theorem hasLane_iff {x : Vectors} {n : Fin 8} {l : Lane} : HasLane x n l ↔ x.element n = l := by
  cases l
  simp only [HasLane, Operands.element, Operands.map, R128.element, Operands.mk.injEq]
  tauto

variable {x : Vectors} {n : Fin 8} {l : Lane}

theorem vabs_agrees (here : HasLane x n l) : HasLane x.vabs n l.vabs := by
  simp only [HasLane] at here
  simp only [HasLane, Vectors.vabs, Lane.vabs, Vectors.zero]
  have range := toInt_cases l.vte
  rcases lt_trichotomy l.vs.toInt 0 with negative | zero | positive
  · have nonzero : l.vs ≠ 0#16 := by
      intro zero
      rw [zero] at negative
      exact absurd negative (by decide)
    have minus : ~~~l.vte + 1#16 = BitVec.ofInt 16 (-l.vte.toInt) := by
      rw [← BitVec.toNat_inj, BitVec.toNat_add, BitVec.toNat_not, BitVec.toNat_ofInt]
      simp
      omega
    simp [here, negative, nonzero, minus, xor_mask, mask_and, toInt_not, toInt_mask,
      -BitVec.toInt_not]
    by_cases least : l.vte.toInt = -32768
    · simp [least, saturateEpi16]
    · simp [least]
      rw [saturateEpi16_of_bounds (by omega) (by omega)]
  · have same : l.vs = 0#16 := BitVec.eq_of_toInt_eq zero
    simp [here, same, mask_and]
    rfl
  · have nonzero : l.vs ≠ 0#16 := by
      intro zero
      rw [zero] at positive
      exact absurd positive (by decide)
    have sign : ¬ l.vs.toInt < 0 := not_lt.mpr positive.le
    simp [here, positive, nonzero, sign, xor_mask, mask_and, toInt_mask]
    rw [saturateEpi16_of_bounds (by omega) (by omega), BitVec.ofInt_toInt]

theorem vadd_agrees (masked : l.Masked) (here : HasLane x n l) :
    HasLane x.vadd n (VectorOp.after 0 .vadd l.vadd) := by
  obtain ⟨col, vcol⟩ := isMask_iff.mp masked.vcol
  simp only [HasLane, vcol] at here
  simp only [HasLane, Vectors.vadd, Lane.vadd, VectorOp.after, Vectors.zero, vcol]
  have range := toInt_cases l.vs
  have range' := toInt_cases l.vte
  have bit : col.toInt = 0 ∨ col.toInt = 1 := by
    cases col <;> decide
  simp [here, toInt_mask, sclamp_eq_saturate, -BitVec.toInt_ofInt]
  constructor
  · unfold saturateEpi16
    congr 1
    omega
  · rw [← BitVec.toNat_inj, BitVec.toNat_ofInt]
    cases col
    · simp
      omega
    · simp
      omega

theorem vaddc_eq (l : Lane) : l.vaddc =
    { l with
      accl := l.vs + l.vte
      vcol := mask 16 (decide (2 ^ 16 ≤ l.vs.toNat + l.vte.toNat)) } := by
  have carry : (l.vs.toNat + l.vte.toNat) / 2 ^ 16 ≠ 0 ↔ 2 ^ 16 ≤ l.vs.toNat + l.vte.toNat := by
    omega
  simp only [Lane.vaddc, BitVec.ofNat_add, BitVec.ofNat_toNat, BitVec.setWidth_eq, carry,
    setFlag_eq_mask]

theorem vaddc_agrees (here : HasLane x n l) :
    HasLane x.vaddc n (VectorOp.after 0 .vaddc l.vaddc) := by
  simp only [HasLane] at here
  have wraps := add_beq_saturateEpu16 l.vs l.vte
  rw [Bool.beq_comm] at wraps
  rw [vaddc_eq]
  simp [HasLane, Vectors.vaddc, VectorOp.after, Vectors.zero, here, wraps]
  congr 1
  rw [Bool.eq_iff_iff]
  simp

theorem vch_agrees (here : HasLane x n l) : HasLane x.vch n (VectorOp.after 0 .vch l.vch) := by
  simp only [HasLane] at here
  by_cases differ : (l.vs ^^^ l.vte).toInt < 0
  · have sum := toInt_add_of_differ ((toInt_xor_neg _ _).mp differ)
    have complement : l.vs = l.vte ^^^ 65535#16 ↔ (l.vs + l.vte).toInt = -1 := by
      rw [eq_complement_iff, sum]
    have minus : BitVec.ofInt 16 (-l.vte.toInt) = -l.vte := by
      rw [BitVec.ofInt_neg, BitVec.ofInt_toInt]
    simp [HasLane, Vectors.vch, Lane.vch, VectorOp.after, Vectors.zero, here, differ,
      lane_blendvEpi8, xor_mask, not_add_one, beq_eq_toInt (l.vs + l.vte), toInt_mask, complement,
      minus,
      -BitVec.toInt_xor, -BitVec.toInt_add, -BitVec.toInt_sub]
    grind
  · have same := mt (toInt_xor_neg _ _).mpr differ
    have complement : l.vs ≠ l.vte ^^^ 65535#16 := by
      rw [Ne, eq_complement_iff]
      omega
    simp [HasLane, Vectors.vch, Lane.vch, VectorOp.after, Vectors.zero, here, differ,
      lane_blendvEpi8, xor_mask, beq_eq_toInt (l.vs - l.vte), complement,
      -BitVec.toInt_xor, -BitVec.toInt_add, -BitVec.toInt_sub]
    grind

theorem vcl_agrees (masked : l.Masked) (here : HasLane x n l) :
    HasLane x.vcl n (VectorOp.after 0 .vcl l.vcl) := by
  obtain ⟨coh, col, cch, ccl, ce, vcoh, vcol, vcch, vccl, vce⟩ := masked.flags
  simp only [HasLane, vcoh, vcol, vcch, vccl, vce] at here
  have sum := add_beq_saturateEpu16 l.vs l.vte
  have left := l.vs.isLt
  have right := l.vte.isLt
  have carry : l.vs.toNat + l.vte.toNat = (l.vs.toNat + l.vte.toNat) % 65536 ↔
      l.vs.toNat + l.vte.toNat < 2 ^ 16 := by
    omega
  have ge : (BitVec.ofNat 16 (l.vte.toNat - l.vs.toNat) == 0#16) =
      decide (l.vte.toNat ≤ l.vs.toNat) := by
    rw [Bool.eq_iff_iff, beq_iff_eq, decide_eq_true_eq, ← BitVec.toNat_inj, BitVec.toNat_ofNat]
    simp
    omega
  cases col <;> cases coh <;>
    simp [HasLane, Vectors.vcl, Lane.vcl, VectorOp.after, Vectors.zero, here, lane_blendvEpi8,
      xor_mask, not_add_one, vcoh, vcol, vcch, vccl, vce, sum, carry, ge]
  · grind
  · cases cch <;> rfl
  · cases ce <;> grind
  · cases ccl <;> rfl

theorem vcr_agrees (here : HasLane x n l) : HasLane x.vcr n (VectorOp.after 0 .vcr l.vcr) := by
  simp only [HasLane] at here
  have range := toInt_cases l.vs
  by_cases differ : (l.vs ^^^ l.vte).toInt < 0
  · have sum := toInt_add_of_differ ((toInt_xor_neg _ _).mp differ)
    simp [HasLane, Vectors.vcr, Lane.vcr, VectorOp.after, Vectors.zero, here, differ,
      lane_blendvEpi8, xor_mask, and_mask, or_mask, sum, minEpi16_beq, -BitVec.toInt_xor,
      -BitVec.toInt_add, -BitVec.toInt_sub]
    grind
  · have least := minEpi16_beq l.vte (show -32768 ≤ l.vs.toInt by omega) (by omega)
    simp [HasLane, Vectors.vcr, Lane.vcr, VectorOp.after, Vectors.zero, here, differ,
      lane_blendvEpi8, xor_mask, and_mask, or_mask, least, -BitVec.toInt_xor]
    rcases lt_or_ge l.vs.toInt l.vte.toInt with less | notLess
    · rw [if_pos less, if_neg (not_le.mpr less)]
    · rw [if_neg (not_lt.mpr notLess), if_pos notLess]

/-- The end of a comparison, where the test is in `VCCL`. -/
theorem compare_agrees (here : HasLane x n l) {vccl : R128} {test : Bool}
    (set : V128.lane vccl n.rev = mask 16 test) :
    HasLane (x.compare vccl) n (VectorOp.after 0 .veq (l.compare test)) := by
  simp only [HasLane] at here
  simp [HasLane, Vectors.compare, Lane.compare, VectorOp.after, Vectors.zero, here, set,
    lane_blendvEpi8]
  cases test <;> rfl

theorem veq_agrees (masked : l.Masked) (here : HasLane x n l) :
    HasLane x.veq n (VectorOp.after 0 .veq l.veq) := by
  obtain ⟨coh, col, cch, ccl, ce, vcoh, vcol, vcch, vccl, vce⟩ := masked.flags
  refine compare_agrees here ?_
  simp only [HasLane, vcoh] at here
  simp [here, vcoh]

theorem vge_agrees (masked : l.Masked) (here : HasLane x n l) :
    HasLane x.vge n (VectorOp.after 0 .vge l.vge) := by
  obtain ⟨coh, col, cch, ccl, ce, vcoh, vcol, vcch, vccl, vce⟩ := masked.flags
  refine compare_agrees here ?_
  simp only [HasLane, vcoh, vcol] at here
  simp [here, vcoh, vcol, beq_eq_toInt]
  grind

theorem vlt_agrees (masked : l.Masked) (here : HasLane x n l) :
    HasLane x.vlt n (VectorOp.after 0 .vlt l.vlt) := by
  obtain ⟨coh, col, cch, ccl, ce, vcoh, vcol, vcch, vccl, vce⟩ := masked.flags
  refine compare_agrees here ?_
  simp only [HasLane, vcoh, vcol] at here
  simp [here, vcoh, vcol, beq_eq_toInt]
  grind

theorem vne_agrees (masked : l.Masked) (here : HasLane x n l) :
    HasLane x.vne n (VectorOp.after 0 .vne l.vne) := by
  obtain ⟨coh, col, cch, ccl, ce, vcoh, vcol, vcch, vccl, vce⟩ := masked.flags
  refine compare_agrees here ?_
  simp only [HasLane, vcoh, vcol] at here
  simp [here, vcoh, Vectors.zero]
  congr 1
  rw [bne]
  cases coh <;> cases l.vs == l.vte <;> rfl

theorem vmrg_agrees (masked : l.Masked) (here : HasLane x n l) :
    HasLane x.vmrg n (VectorOp.after 0 .vmrg l.vmrg) := by
  obtain ⟨ccl, vccl⟩ := isMask_iff.mp masked.vccl
  simp only [HasLane, vccl] at here
  simp [HasLane, Vectors.vmrg, Lane.vmrg, VectorOp.after, Vectors.zero, here, vccl, lane_blendvEpi8]
  cases ccl <;> rfl

theorem logic_agrees (here : HasLane x n l) :
    HasLane x.vand n (VectorOp.after 0 .vand l.vand) ∧
      HasLane x.vor n (VectorOp.after 0 .vor l.vor) ∧
      HasLane x.vxor n (VectorOp.after 0 .vxor l.vxor) ∧
      HasLane x.vnand n (VectorOp.after 0 .vnand l.vnand) ∧
      HasLane x.vnor n (VectorOp.after 0 .vnor l.vnor) ∧
      HasLane x.vnxor n (VectorOp.after 0 .vnxor l.vnxor) := by
  simp only [HasLane] at here
  have ones : V128.lane Vectors.invert n.rev = BitVec.allOnes 16 := lane_allOnes n.rev
  simp [HasLane, here, VectorOp.after, Vectors.vand, Lane.vand, Vectors.vor, Lane.vor, Vectors.vxor,
    Lane.vxor, Vectors.vnand, Lane.vnand, Vectors.vnor, Lane.vnor, Vectors.vnxor, Lane.vnxor, ones,
    BitVec.xor_allOnes, -BitVec.reduceAllOnes]

theorem vsub_agrees (masked : l.Masked) (here : HasLane x n l) :
    HasLane x.vsub n (VectorOp.after 0 .vsub l.vsub) := by
  obtain ⟨col, vcol⟩ := isMask_iff.mp masked.vcol
  simp only [HasLane, vcol] at here
  have range := toInt_cases l.vs
  have range' := toInt_cases l.vte
  -- the only sum of `VT` and the carry that does not fit is that of the greatest lane
  have exceeds (carry : Bool) : ((if carry then l.vte + 1#16 else l.vte).toInt <
      max (-32768) (min 32767 (l.vte.toInt + carry.toInt))) ↔
        carry = true ∧ l.vte.toInt = 32767 := by
    cases carry
    · simp
      omega
    · have next := toInt_cases (l.vte + 1#16)
      rw [BitVec.toNat_add, show (1#16).toNat = 1 from rfl] at next
      simp only [if_true, Bool.toInt_true, true_and]
      omega
  have bit : col.toInt = 0 ∨ col.toInt = 1 := by
    cases col <;> decide
  simp [HasLane, Vectors.vsub, Lane.vsub, VectorOp.after, Vectors.zero, vcol, here, toInt_mask,
    sclamp_eq_saturate, ofInt_sub, exceeds, -BitVec.toInt_ofInt, -BitVec.toInt_add, -lt_sup_iff,
    -sup_lt_iff]
  constructor
  · unfold saturateEpi16
    congr 1
    cases col
    · simp
      omega
    · by_cases greatest : l.vte.toInt = 32767
      · simp [greatest]
        omega
      · simp [greatest]
        omega
  · cases col
    · simp
    · simp
      exact sub_add_eq_sub_sub l.vs l.vte 1

theorem vsubc_eq (l : Lane) : l.vsubc =
    { l with
      accl := l.vs - l.vte
      vcol := mask 16 (decide (l.vs.toNat < l.vte.toNat))
      vcoh := mask 16 (l.vs != l.vte) } := by
  have left := l.vs.isLt
  have right := l.vte.isLt
  have whole : (BitVec.ofInt 32 (l.vs.toNat - l.vte.toNat : Int)).toNat =
      if l.vte.toNat ≤ l.vs.toNat then l.vs.toNat - l.vte.toNat
      else l.vs.toNat + 4294967296 - l.vte.toNat := by
    rw [BitVec.toNat_ofInt]
    split <;> omega
  have low : (BitVec.ofInt 32 (l.vs.toNat - l.vte.toNat : Int)).setWidth 16 = l.vs - l.vte := by
    rw [← BitVec.toNat_inj, BitVec.toNat_setWidth, whole, BitVec.toNat_sub]
    split <;> omega
  have zero : BitVec.ofInt 32 (l.vs.toNat - l.vte.toNat : Int) ≠ 0 ↔ (l.vs != l.vte) = true := by
    rw [bne_iff_ne, Ne, Ne, ← BitVec.toNat_inj, whole, ← BitVec.toNat_inj]
    simp
    split <;> omega
  have high : BitVec.ofInt 32 (l.vs.toNat - l.vte.toNat : Int) >>> 16 ≠ 0 ↔
      l.vs.toNat < l.vte.toNat := by
    rw [Ne, ← BitVec.toNat_inj, BitVec.toNat_ushiftRight, whole, Nat.shiftRight_eq_div_pow]
    simp
    split <;> omega
  simp only [Lane.vsubc, low, zero, high, setFlag_eq_mask, Bool.decide_eq_true]

theorem vsubc_agrees (here : HasLane x n l) :
    HasLane x.vsubc n (VectorOp.after 0 .vsubc l.vsubc) := by
  simp only [HasLane] at here
  have left := l.vs.isLt
  have right := l.vte.isLt
  have floor : (BitVec.ofNat 16 (l.vs.toNat - l.vte.toNat) = 0#16) ↔
      l.vs.toNat ≤ l.vte.toNat := by
    rw [← BitVec.toNat_inj]
    simp
    omega
  have same : l.vs = l.vte ↔ l.vs.toNat = l.vte.toNat := BitVec.toNat_inj.symm
  rw [vsubc_eq]
  simp [HasLane, Vectors.vsubc, VectorOp.after, Vectors.zero, here]
  constructor
  · rfl
  · congr 1
    rw [Bool.eq_iff_iff]
    simp [same, floor]
    omega

theorem vzero_agrees (here : HasLane x n l) :
    HasLane x.vzero n (VectorOp.after 0 .vzero l.vzero) := by
  simp only [HasLane] at here
  simp [HasLane, Vectors.vzero, Lane.vzero, VectorOp.after, here, BitVec.ofInt_add]

end N64ModernRuntime.Librecomp
