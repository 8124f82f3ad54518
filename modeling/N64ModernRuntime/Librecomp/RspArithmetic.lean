import Mathlib.Tactic.Ring
import N64ModernRuntime.Librecomp.RspMicrocode

/-!
# rsp_vu_impl.hpp: words of two halves

A microcode keeps a number of 32 bits in two registers, and works on it with an instruction for
each half.  These are the sequences for a product, a sum, a difference, a comparison and a clip
test, in either build.
-/

set_option autoImplicit false

namespace N64ModernRuntime.Librecomp
open Sse

/-! ## What an instruction does to a lane -/

def Vu.operands (s : Vu) (e : Fin 16) (vd vs vt : Fin 32) (n : Fin 8) : Lane :=
  { (s.load vd vs ((s.r vt).broadcast e)).element n with
    vte := (s.r vt).element (broadcastIndex e n) }

def VectorOp.result (op : VectorOp) (l : Lane) : Lane := op.after 0 (op.lane l)

/-- In either build an instruction is the body of the loop on every lane. -/
theorem Vu.compute_eq {s : Vu} (masked : s.Masked) (build : Build) (op : VectorOp) (e : Fin 16)
    (vd vs vt : Fin 32) : s.compute build op e vd vs vt =
      s.store vd (Operands.ofElements fun n => op.result (s.operands e vd vs vt n)) := by
  have builds : s.compute build op e vd vs vt = s.sisd op e vd vs vt := by
    cases build
    · rfl
    · exact (Vu.sisd_eq_simd masked op e vd vs vt).symm
  have lanes (n : Fin 8) :
      s.operands e vd vs vt n = (s.load vd vs ((s.r vt).broadcast e)).element n := by
    simp only [operands, ← element_broadcast]
    rfl
  have all : op.after 0 (Operands.ofElements fun n =>
        op.lane ((s.load vd vs ((s.r vt).broadcast e)).element n)) =
      Operands.ofElements fun n => op.result (s.operands e vd vs vt n) := by
    refine Operands.ext_element fun n => ?_
    rw [element_after, Operands.element_ofElements, Operands.element_ofElements, lanes]
    rfl
  rw [builds, Vu.sisd]
  simp only [eachLane_eq, store_after]
  rw [all]

theorem Vu.element_r_compute {s : Vu} (masked : s.Masked) (build : Build) (op : VectorOp)
    (e : Fin 16) (vd vs vt k : Fin 32) (n : Fin 8) :
    ((s.compute build op e vd vs vt).r k).element n =
      if k = vd then (op.result (s.operands e vd vs vt n)).vd else (s.r k).element n := by
  rw [compute_eq masked]
  by_cases same : k = vd
  · subst same
    simp [store, Operands.ofElements]
  · simp [store, same]

theorem Vu.operands_compute {s : Vu} (masked : s.Masked) (build : Build) (op : VectorOp)
    (e : Fin 16) (vd vs vt : Fin 32) (e' : Fin 16) (vd' vs' vt' : Fin 32) (n : Fin 8) :
    (s.compute build op e vd vs vt).operands e' vd' vs' vt' n =
      { op.result (s.operands e vd vs vt n) with
        vs := ((s.compute build op e vd vs vt).r vs').element n
        vte := ((s.compute build op e vd vs vt).r vt').element (broadcastIndex e' n)
        vd := ((s.compute build op e vd vs vt).r vd').element n } := by
  rw [compute_eq masked]
  simp [operands, store, load, Operands.element, Operands.map, Operands.ofElements]

theorem Vu.Masked.compute {s : Vu} (masked : s.Masked) (build : Build) (op : VectorOp) (e : Fin 16)
    (vd vs vt : Fin 32) : (s.compute build op e vd vs vt).Masked := by
  cases build with
  | sisd =>
      rw [Vu.compute, Vu.sisd_eq_simd masked]
      exact masked.simd op e vd vs vt
  | simd => exact masked.simd op e vd vs vt

/-! ## The accumulator as a number -/

def Lane.acc (l : Lane) : Int :=
  l.acch.toInt * 4294967296 + l.accm.toNat * 65536 + l.accl.toNat

theorem Lane.acc_bounds (l : Lane) : -140737488355328 ≤ l.acc ∧ l.acc < 140737488355328 := by
  have range := toInt_cases l.acch
  have middle := l.accm.isLt
  have low := l.accl.isLt
  unfold acc
  omega

theorem Lane.upper_eq (l : Lane) : l.upper = l.acc / 65536 := by
  have low := l.accl.isLt
  unfold upper acc
  omega

theorem acc_accumulatorSet (l : Lane) {z : Int} (low : -140737488355328 ≤ z)
    (high : z < 140737488355328) : (l.accumulatorSet (BitVec.ofInt 64 z)).acc = z := by
  have top : (BitVec.ofInt 16 (z / 4294967296)).toInt = z / 4294967296 :=
    toInt_ofInt_of_bounds (by omega) (by omega)
  have middle := toNat_ofInt16 (z / 65536)
  have bottom := toNat_ofInt16 z
  rw [accumulatorSet_ofInt]
  simp only [Lane.acc, top, middle, bottom]
  omega

theorem ofInt16_congr {x y : Int} (same : x % 65536 = y % 65536) :
    BitVec.ofInt 16 x = BitVec.ofInt 16 y := by
  apply eq_ofInt16
  rw [toNat_ofInt16, same]

theorem accumulatorSet_add (l : Lane) (p : Int) :
    l.accumulatorSet (l.accumulatorGet + BitVec.ofInt 64 p) =
      l.accumulatorSet (BitVec.ofInt 64 (l.acc + p)) := by
  have range := toInt_cases l.acch
  rw [accumulatorGet_eq, ← BitVec.ofInt_add, accumulatorSet_ofInt, accumulatorSet_ofInt]
  unfold Lane.acc
  congr 1
  · apply ofInt16_congr
    omega
  · apply ofInt16_congr
    omega
  · apply ofInt16_congr
    omega

section Products
variable (l : Lane)

theorem acc_vmudl : (VectorOp.vmudl.result l).acc = (l.vs.toNat * l.vte.toNat / 65536 : Nat) := by
  have below := product_lt l.vs l.vte
  rw [VectorOp.result, VectorOp.lane, Lane.vmudl, high_unsigned]
  exact acc_accumulatorSet l (by omega) (by omega)

theorem acc_vmadm (low : -140737488355328 ≤ l.acc + l.vs.toInt * l.vte.toNat)
    (high : l.acc + l.vs.toInt * l.vte.toNat < 140737488355328) :
    (VectorOp.vmadm.result l).acc = l.acc + l.vs.toInt * l.vte.toNat := by
  have set := acc_accumulatorSet l low high
  rw [← accumulatorSet_add] at set
  exact set

theorem acc_vmadn (low : -140737488355328 ≤ l.acc + l.vs.toNat * l.vte.toInt)
    (high : l.acc + l.vs.toNat * l.vte.toInt < 140737488355328) :
    (VectorOp.vmadn.result l).acc = l.acc + l.vs.toNat * l.vte.toInt := by
  have set := acc_accumulatorSet l low high
  rw [← accumulatorSet_add] at set
  exact set

theorem acc_vmadh (low : -140737488355328 ≤ l.acc + l.vs.toInt * l.vte.toInt * 65536)
    (high : l.acc + l.vs.toInt * l.vte.toInt * 65536 < 140737488355328) :
    (VectorOp.vmadh.result l).acc = l.acc + l.vs.toInt * l.vte.toInt * 65536 := by
  have range := toInt_cases l.acch
  have bottom := l.accl.isLt
  rw [VectorOp.result, VectorOp.lane, Lane.vmadh, upper_accumulatorGet, ← BitVec.ofInt_add,
    setWidth_ushiftRight_ofInt32 _ 16 (by decide), setWidth_ushiftRight_ofInt32 _ 0 (by decide)]
  generalize l.vs.toInt * l.vte.toInt = p at *
  unfold Lane.acc at low high
  -- the number in the two upper slices, which fits a word
  obtain ⟨w, isSum⟩ : ∃ w : Int, w = l.acch.toInt * 65536 + l.accm.toNat + p := ⟨_, rfl⟩
  have middle : BitVec.ofInt 16 ((l.acch.toNat * 65536 + l.accm.toNat + p) / 2 ^ 0) =
      BitVec.ofInt 16 w := ofInt16_congr (by omega)
  have top : BitVec.ofInt 16 ((l.acch.toNat * 65536 + l.accm.toNat + p) / 2 ^ 16) =
      BitVec.ofInt 16 (w / 65536) := ofInt16_congr (by omega)
  have whole : (BitVec.ofInt 16 (w / 65536)).toInt = w / 65536 :=
    toInt_ofInt_of_bounds (by omega) (by omega)
  have part := toNat_ofInt16 w
  simp only [VectorOp.after, Lane.acc, middle, top, whole, part]
  omega

theorem vd_vmadh :
    (VectorOp.vmadh.result l).vd = saturateEpi16 ((VectorOp.vmadh.result l).acc / 65536) := by
  rw [← Lane.upper_eq]
  exact accumulatorSaturate_middle _

theorem vd_vmadn : (VectorOp.vmadn.result l).vd =
    if (VectorOp.vmadn.result l).acc / 65536 < -32768 then 0
    else if 32767 < (VectorOp.vmadn.result l).acc / 65536 then 0xffff
    else (VectorOp.vmadn.result l).accl := by
  rw [← Lane.upper_eq]
  exact accumulatorSaturate_eq _ false 0x0000 0xffff

end Products

/-! ## Products of words -/

/-- The number whose upper half is signed. -/
def word (hi lo : BitVec 16) : Int := hi.toInt * 65536 + lo.toNat

def clampWord (z : Int) : Int := max (-2147483648) (min 2147483647 z)

/-- The number that is left when the lowest partial product loses its lower half. -/
theorem partial_products (ah al bh bl : BitVec 16) :
    (al.toNat * bl.toNat / 65536 : Nat) + ah.toInt * bl.toNat + al.toNat * bh.toInt +
      ah.toInt * bh.toInt * 65536 = word ah al * word bh bl / 65536 := by
  have spread : word ah al * word bh bl = (al.toNat * bl.toNat : Nat) +
      (ah.toInt * bl.toNat + al.toNat * bh.toInt + ah.toInt * bh.toInt * 65536) * 65536 := by
    unfold word
    push_cast
    ring
  rw [spread, Int.add_mul_ediv_right _ _ (by decide)]
  push_cast
  ring

theorem word_saturated (z : Int) {lo : BitVec 16} (isLow : lo =
    if z / 65536 < -32768 then 0 else if 32767 < z / 65536 then 0xffff else BitVec.ofInt 16 z) :
    word (saturateEpi16 (z / 65536)) lo = clampWord z := by
  have low := toNat_ofInt16 z
  subst isLow
  unfold word clampWord
  rw [toInt_saturateEpi16]
  split_ifs
  · simp
    omega
  · simp
    omega
  · omega

theorem accl_vmadn (l : Lane) (low : -140737488355328 ≤ l.acc + l.vs.toNat * l.vte.toInt)
    (high : l.acc + l.vs.toNat * l.vte.toInt < 140737488355328) :
    (VectorOp.vmadn.result l).accl = BitVec.ofInt 16 (VectorOp.vmadn.result l).acc := by
  rw [acc_vmadn l low high]
  have set : (l.accumulatorSet
        (l.accumulatorGet + BitVec.ofInt 64 (l.vs.toNat * l.vte.toInt))).accl =
      BitVec.ofInt 16 (l.acc + l.vs.toNat * l.vte.toInt) := by
    rw [accumulatorSet_add, accumulatorSet_ofInt]
  exact set

theorem Vu.operands_vs (s : Vu) (e : Fin 16) (vd vs vt : Fin 32) (n : Fin 8) :
    (s.operands e vd vs vt n).vs = (s.r vs).element n := rfl

theorem Vu.operands_vte (s : Vu) (e : Fin 16) (vd vs vt : Fin 32) (n : Fin 8) :
    (s.operands e vd vs vt n).vte = (s.r vt).element (broadcastIndex e n) := rfl

theorem acc_operands_compute {s : Vu} (masked : s.Masked) (build : Build) (op : VectorOp)
    (e : Fin 16) (vd vs vt : Fin 32) (e' : Fin 16) (vd' vs' vt' : Fin 32) (n : Fin 8) :
    ((s.compute build op e vd vs vt).operands e' vd' vs' vt' n).acc =
      (op.result (s.operands e vd vs vt n)).acc := by
  rw [Vu.operands_compute masked]
  rfl

theorem r_compute_of_ne {s : Vu} (masked : s.Masked) (build : Build) (op : VectorOp) (e : Fin 16)
    {vd vs vt k : Fin 32} (other : k ≠ vd) : (s.compute build op e vd vs vt).r k = s.r k := by
  refine R128.ext_element fun n => ?_
  rw [Vu.element_r_compute masked, if_neg other]

/-- `VMUDL`, `VMADM`, `VMADN`, `VMADH` and `VMADN` with zero multiply words with sixteen bits after
the point. -/
theorem Vu.multiply_words {s : Vu} (masked : s.Masked) (build : Build) (e : Fin 16)
    {lo hi al ah bl bh zero : Fin 32} (isZero : s.r zero = 0) (loAl : al ≠ lo) (loAh : ah ≠ lo)
    (loBl : bl ≠ lo) (loBh : bh ≠ lo) (loZero : zero ≠ lo) (hiZero : zero ≠ hi) (hiLo : hi ≠ lo)
    (n : Fin 8) :
    let s₁ := s.compute build .vmudl e lo al bl
    let s₂ := s₁.compute build .vmadm e lo ah bl
    let s₃ := s₂.compute build .vmadn e lo al bh
    let s₄ := s₃.compute build .vmadh e hi ah bh
    let s₅ := s₄.compute build .vmadn 0 lo zero zero
    word ((s₅.r hi).element n) ((s₅.r lo).element n) =
      clampWord (word ((s.r ah).element n) ((s.r al).element n) *
        word ((s.r bh).element (broadcastIndex e n)) ((s.r bl).element (broadcastIndex e n)) /
          65536) := by
  intro s₁ s₂ s₃ s₄ s₅
  have masked₁ : s₁.Masked := masked.compute build _ _ _ _ _
  have masked₂ : s₂.Masked := masked₁.compute build _ _ _ _ _
  have masked₃ : s₃.Masked := masked₂.compute build _ _ _ _ _
  have masked₄ : s₄.Masked := masked₃.compute build _ _ _ _ _
  have kept₁ {k : Fin 32} (other : k ≠ lo) : s₁.r k = s.r k :=
    r_compute_of_ne masked build _ _ other
  have kept₂ {k : Fin 32} (other : k ≠ lo) : s₂.r k = s.r k :=
    (r_compute_of_ne masked₁ build _ _ other).trans (kept₁ other)
  have kept₃ {k : Fin 32} (other : k ≠ lo) : s₃.r k = s.r k :=
    (r_compute_of_ne masked₂ build _ _ other).trans (kept₂ other)
  have zero₄ : s₄.r zero = 0 :=
    (r_compute_of_ne masked₃ build _ _ hiZero).trans ((kept₃ loZero).trans isZero)
  obtain ⟨a₀, isA₀⟩ : ∃ a, (s.r al).element n = a := ⟨_, rfl⟩
  obtain ⟨a₁, isA₁⟩ : ∃ a, (s.r ah).element n = a := ⟨_, rfl⟩
  obtain ⟨b₀, isB₀⟩ : ∃ b, (s.r bl).element (broadcastIndex e n) = b := ⟨_, rfl⟩
  obtain ⟨b₁, isB₁⟩ : ∃ b, (s.r bh).element (broadcastIndex e n) = b := ⟨_, rfl⟩
  have bounds := product_lt a₀ b₀
  have bounds₁ := product_bounds_mixed a₁ b₀
  have bounds₂ := product_bounds_mixed b₁ a₀
  rw [Int.mul_comm] at bounds₂
  have bounds₃ := product_bounds a₁ b₁
  have acc₁ : (s₁.operands e lo ah bl n).acc = (a₀.toNat * b₀.toNat / 65536 : Nat) := by
    rw [acc_operands_compute masked, acc_vmudl, Vu.operands_vs, Vu.operands_vte, isA₀, isB₀]
  have acc₂ : (s₂.operands e lo al bh n).acc =
      (a₀.toNat * b₀.toNat / 65536 : Nat) + a₁.toInt * b₀.toNat := by
    have vs : (s₁.operands e lo ah bl n).vs = a₁ := by
      rw [Vu.operands_vs, kept₁ loAh, isA₁]
    have vte : (s₁.operands e lo ah bl n).vte = b₀ := by
      rw [Vu.operands_vte, kept₁ loBl, isB₀]
    have sum := acc_vmadm (s₁.operands e lo ah bl n)
    rw [acc₁, vs, vte] at sum
    rw [acc_operands_compute masked₁]
    exact sum (by omega) (by omega)
  have acc₃ : (s₃.operands e hi ah bh n).acc =
      (a₀.toNat * b₀.toNat / 65536 : Nat) + a₁.toInt * b₀.toNat + a₀.toNat * b₁.toInt := by
    have vs : (s₂.operands e lo al bh n).vs = a₀ := by
      rw [Vu.operands_vs, kept₂ loAl, isA₀]
    have vte : (s₂.operands e lo al bh n).vte = b₁ := by
      rw [Vu.operands_vte, kept₂ loBh, isB₁]
    have sum := acc_vmadn (s₂.operands e lo al bh n)
    rw [acc₂, vs, vte] at sum
    rw [acc_operands_compute masked₂]
    exact sum (by omega) (by omega)
  have whole : (VectorOp.vmadh.result (s₃.operands e hi ah bh n)).acc =
      word a₁ a₀ * word b₁ b₀ / 65536 := by
    have vs : (s₃.operands e hi ah bh n).vs = a₁ := by
      rw [Vu.operands_vs, kept₃ loAh, isA₁]
    have vte : (s₃.operands e hi ah bh n).vte = b₁ := by
      rw [Vu.operands_vte, kept₃ loBh, isB₁]
    have sum := acc_vmadh (s₃.operands e hi ah bh n)
    rw [acc₃, vs, vte] at sum
    rw [← partial_products]
    exact sum (by omega) (by omega)
  -- `VMADN` with zero only writes the low slice
  have last : (s₄.operands 0 lo zero zero n).acc = word a₁ a₀ * word b₁ b₀ / 65536 := by
    rw [acc_operands_compute masked₃, whole]
  have none : (s₄.operands 0 lo zero zero n).vs = 0#16 := by
    rw [Vu.operands_vs, zero₄]
    exact element_zero n
  have range := (s₄.operands 0 lo zero zero n).acc_bounds
  have same : (VectorOp.vmadn.result (s₄.operands 0 lo zero zero n)).acc =
      word a₁ a₀ * word b₁ b₀ / 65536 := by
    rw [acc_vmadn, none, last]
    · simp
    · simpa [none] using range.1
    · simpa [none] using range.2
  have low : (s₅.r lo).element n = (VectorOp.vmadn.result (s₄.operands 0 lo zero zero n)).vd := by
    rw [Vu.element_r_compute masked₄, if_pos rfl]
  have high : (s₅.r hi).element n = saturateEpi16 (word a₁ a₀ * word b₁ b₀ / 65536 / 65536) := by
    rw [r_compute_of_ne masked₄ build _ _ hiLo, Vu.element_r_compute masked₃, if_pos rfl, vd_vmadh,
      whole]
  rw [isA₀, isA₁, isB₀, isB₁, high, low]
  refine word_saturated _ ?_
  rw [vd_vmadn, accl_vmadn, same]
  · simpa [none] using range.1
  · simpa [none] using range.2

def Vu.twoWords : Vu :=
  .ofRegisters fun k => R128.ofElements fun _ =>
    match k with
    | 3 => 0x8000
    | 4 => 0x0001
    | 5 => 0xc000
    | 6 => 0xfffd
    | _ => 0

theorem Vu.multiply_twoWords :
    let s₁ := Vu.twoWords.compute .simd .vmudl 0 1 3 5
    let s₂ := s₁.compute .simd .vmadm 0 1 4 5
    let s₃ := s₂.compute .simd .vmadn 0 1 3 6
    let s₄ := s₃.compute .simd .vmadh 0 2 4 6
    let s₅ := s₄.compute .simd .vmadn 0 1 0 0
    word ((s₅.r 2).element 0) ((s₅.r 1).element 0) = -221184 :=
  (Vu.multiply_words (Vu.masked_ofRegisters _) .simd 0 (by decide) (by decide) (by decide)
    (by decide) (by decide) (by decide) (by decide) (by decide) 0).trans (by decide)

/-! ## Sums and differences of words -/

section Lanes
variable (l : Lane)

theorem result_vaddc : VectorOp.vaddc.result l =
    { l with
      accl := l.vs + l.vte
      vd := l.vs + l.vte
      vcol := mask 16 (decide (2 ^ 16 ≤ l.vs.toNat + l.vte.toNat))
      vcoh := 0 } := by
  rw [VectorOp.result, VectorOp.lane, vaddc_eq]
  rfl

theorem vd_vadd {carry : Bool} (vcol : l.vcol = mask 16 carry) :
    (VectorOp.vadd.result l).vd = saturateEpi16 (l.vs.toInt + l.vte.toInt + carry.toInt) := by
  rw [← sclamp_eq_saturate, ← getFlag_mask carry, ← vcol]
  rfl

theorem result_vsubc : VectorOp.vsubc.result l =
    { l with
      accl := l.vs - l.vte
      vd := l.vs - l.vte
      vcol := mask 16 (decide (l.vs.toNat < l.vte.toNat))
      vcoh := mask 16 (l.vs != l.vte) } := by
  rw [VectorOp.result, VectorOp.lane, vsubc_eq]
  rfl

theorem vd_vsub {borrow : Bool} (vcol : l.vcol = mask 16 borrow) :
    (VectorOp.vsub.result l).vd = saturateEpi16 (l.vs.toInt - l.vte.toInt - borrow.toInt) := by
  rw [← sclamp_eq_saturate, ← getFlag_mask borrow, ← vcol]
  rfl

end Lanes

theorem word_add (ah al bh bl : BitVec 16) :
    al + bl = BitVec.ofInt 16 (word ah al + word bh bl) ∧
      ah.toInt + bh.toInt + (decide (2 ^ 16 ≤ al.toNat + bl.toNat)).toInt =
        (word ah al + word bh bl) / 65536 := by
  have left := al.isLt
  have right := bl.isLt
  constructor
  · apply eq_ofInt16
    rw [BitVec.toNat_add]
    unfold word
    omega
  · unfold word
    by_cases carry : 2 ^ 16 ≤ al.toNat + bl.toNat
    · simp only [carry, decide_true, Bool.toInt_true]
      omega
    · simp only [carry, decide_false, Bool.toInt_false]
      omega

theorem word_sub (ah al bh bl : BitVec 16) :
    al - bl = BitVec.ofInt 16 (word ah al - word bh bl) ∧
      ah.toInt - bh.toInt - (decide (al.toNat < bl.toNat)).toInt =
        (word ah al - word bh bl) / 65536 := by
  have left := al.isLt
  have right := bl.isLt
  constructor
  · apply eq_ofInt16
    rw [BitVec.toNat_sub]
    unfold word
    omega
  · unfold word
    by_cases borrow : al.toNat < bl.toNat
    · simp only [borrow, decide_true, Bool.toInt_true]
      omega
    · simp only [borrow, decide_false, Bool.toInt_false]
      omega

/-- `VADDC` and `VADD` add words; the upper half alone is saturated. -/
theorem Vu.add_words {s : Vu} (masked : s.Masked) (build : Build) (e : Fin 16)
    {lo hi al ah bl bh : Fin 32} (loAh : ah ≠ lo) (loBh : bh ≠ lo) (hiLo : hi ≠ lo) (n : Fin 8) :
    let s₁ := s.compute build .vaddc e lo al bl
    let s₂ := s₁.compute build .vadd e hi ah bh
    let sum := word ((s.r ah).element n) ((s.r al).element n) +
      word ((s.r bh).element (broadcastIndex e n)) ((s.r bl).element (broadcastIndex e n))
    (s₂.r lo).element n = BitVec.ofInt 16 sum ∧
      (s₂.r hi).element n = saturateEpi16 (sum / 65536) := by
  intro s₁ s₂ sum
  have masked₁ : s₁.Masked := masked.compute build _ _ _ _ _
  have parts := word_add ((s.r ah).element n) ((s.r al).element n)
    ((s.r bh).element (broadcastIndex e n)) ((s.r bl).element (broadcastIndex e n))
  have kept {k : Fin 32} (other : k ≠ lo) : s₁.r k = s.r k := r_compute_of_ne masked build _ _ other
  constructor
  · rw [r_compute_of_ne masked₁ build _ _ hiLo.symm, Vu.element_r_compute masked, if_pos rfl,
      result_vaddc]
    exact parts.1
  · have carry : (s₁.operands e hi ah bh n).vcol = mask 16 (decide (2 ^ 16 ≤
        ((s.r al).element n).toNat + ((s.r bl).element (broadcastIndex e n)).toNat)) := by
      rw [Vu.operands_compute masked, result_vaddc]
      rfl
    rw [Vu.element_r_compute masked₁, if_pos rfl, vd_vadd _ carry, Vu.operands_vs, Vu.operands_vte,
      kept loAh, kept loBh, parts.2]

theorem Vu.sub_words {s : Vu} (masked : s.Masked) (build : Build) (e : Fin 16)
    {lo hi al ah bl bh : Fin 32} (loAh : ah ≠ lo) (loBh : bh ≠ lo) (hiLo : hi ≠ lo) (n : Fin 8) :
    let s₁ := s.compute build .vsubc e lo al bl
    let s₂ := s₁.compute build .vsub e hi ah bh
    let difference := word ((s.r ah).element n) ((s.r al).element n) -
      word ((s.r bh).element (broadcastIndex e n)) ((s.r bl).element (broadcastIndex e n))
    (s₂.r lo).element n = BitVec.ofInt 16 difference ∧
      (s₂.r hi).element n = saturateEpi16 (difference / 65536) := by
  intro s₁ s₂ difference
  have masked₁ : s₁.Masked := masked.compute build _ _ _ _ _
  have parts := word_sub ((s.r ah).element n) ((s.r al).element n)
    ((s.r bh).element (broadcastIndex e n)) ((s.r bl).element (broadcastIndex e n))
  have kept {k : Fin 32} (other : k ≠ lo) : s₁.r k = s.r k := r_compute_of_ne masked build _ _ other
  constructor
  · rw [r_compute_of_ne masked₁ build _ _ hiLo.symm, Vu.element_r_compute masked, if_pos rfl,
      result_vsubc]
    exact parts.1
  · have borrow : (s₁.operands e hi ah bh n).vcol = mask 16 (decide (
        ((s.r al).element n).toNat < ((s.r bl).element (broadcastIndex e n)).toNat)) := by
      rw [Vu.operands_compute masked, result_vsubc]
      rfl
    rw [Vu.element_r_compute masked₁, if_pos rfl, vd_vsub _ borrow, Vu.operands_vs, Vu.operands_vte,
      kept loAh, kept loBh, parts.2]

inductive WordSum where
  | add | sub
  deriving DecidableEq, Repr

namespace WordSum

/-- The instruction for the lower halves, which leaves a carry. -/
def low : WordSum → VectorOp
  | add => .vaddc
  | sub => .vsubc

def high : WordSum → VectorOp
  | add => .vadd
  | sub => .vsub

def value (c : WordSum) (a b : Int) : Int :=
  match c with
  | add => a + b
  | sub => a - b

end WordSum

/-- Words are added and subtracted by halves. -/
theorem Vu.sum_words {s : Vu} (masked : s.Masked) (build : Build) (c : WordSum) (e : Fin 16)
    {lo hi al ah bl bh : Fin 32} (loAh : ah ≠ lo) (loBh : bh ≠ lo) (hiLo : hi ≠ lo) (n : Fin 8) :
    let s₁ := s.compute build c.low e lo al bl
    let s₂ := s₁.compute build c.high e hi ah bh
    let result := c.value (word ((s.r ah).element n) ((s.r al).element n))
      (word ((s.r bh).element (broadcastIndex e n)) ((s.r bl).element (broadcastIndex e n)))
    (s₂.r lo).element n = BitVec.ofInt 16 result ∧
      (s₂.r hi).element n = saturateEpi16 (result / 65536) := by
  cases c with
  | add => exact Vu.add_words masked build e loAh loBh hiLo n
  | sub => exact Vu.sub_words masked build e loAh loBh hiLo n

theorem Vu.sum_twoWords :
    let s₁ := Vu.twoWords.compute .simd .vsubc 0 1 3 5
    let s₂ := s₁.compute .simd .vsub 0 2 4 6
    let result := word 0x0001 0x8000 - word 0xfffd 0xc000
    (s₂.r 1).element 7 = BitVec.ofInt 16 result ∧
      (s₂.r 2).element 7 = saturateEpi16 (result / 65536) :=
  Vu.sum_words (Vu.masked_ofRegisters _) .simd .sub 0 (by decide) (by decide) (by decide) 7

/-! ## Comparisons of words -/

inductive Comparison where
  | lt | eq | ne | ge
  deriving DecidableEq, Repr

namespace Comparison

def op : Comparison → VectorOp
  | lt => .vlt
  | eq => .veq
  | ne => .vne
  | ge => .vge

def test (c : Comparison) (a b : Int) : Bool :=
  match c with
  | lt => decide (a < b)
  | eq => decide (a = b)
  | ne => decide (a ≠ b)
  | ge => decide (b ≤ a)

end Comparison

/-- A comparison of upper halves takes what `VSUBC` has left of the lower ones into account. -/
theorem result_comparison (c : Comparison) (l : Lane) (al bl : BitVec 16)
    (vcol : l.vcol = mask 16 (decide (al.toNat < bl.toNat))) (vcoh : l.vcoh = mask 16 (al != bl)) :
    (c.op.result l).vccl = mask 16 (c.test (word l.vs al) (word l.vte bl)) ∧
      (c.op.result l).vd = if c.test (word l.vs al) (word l.vte bl) then l.vs else l.vte := by
  have left := al.isLt
  have right := bl.isLt
  have low : al = bl ↔ al.toNat = bl.toNat := BitVec.toNat_inj.symm
  have high : l.vs = l.vte ↔ l.vs.toInt = l.vte.toInt := BitVec.toInt_inj.symm
  have compared (test : Bool) (same : test = c.test (word l.vs al) (word l.vte bl)) :
      (VectorOp.after 0 .veq (l.compare test)).vccl =
          mask 16 (c.test (word l.vs al) (word l.vte bl)) ∧
        (VectorOp.after 0 .veq (l.compare test)).vd =
          if c.test (word l.vs al) (word l.vte bl) then l.vs else l.vte := by
    subst same
    exact ⟨setFlag_eq_mask _, rfl⟩
  cases c
  · refine compared _ ?_
    rw [vcol, vcoh, getFlag_mask, getFlag_mask, Bool.eq_iff_iff]
    simp only [Comparison.test, low, Bool.or_eq_true, Bool.and_eq_true, bne_iff_ne, ne_eq,
      decide_eq_true_eq]
    unfold word
    omega
  · refine compared _ ?_
    rw [vcoh, getFlag_mask, Bool.eq_iff_iff]
    simp only [Comparison.test, low, high, Bool.and_eq_true, Bool.not_eq_true', bne_eq_false_iff_eq,
      beq_iff_eq, decide_eq_true_eq]
    unfold word
    omega
  · refine compared _ ?_
    rw [vcoh, getFlag_mask, Bool.eq_iff_iff]
    simp only [Comparison.test, low, high, Bool.or_eq_true, bne_iff_ne, ne_eq, decide_eq_true_eq]
    unfold word
    omega
  · refine compared _ ?_
    rw [vcol, vcoh, getFlag_mask, getFlag_mask, Bool.eq_iff_iff]
    simp only [Comparison.test, low, Bool.or_eq_true, Bool.and_eq_true, Bool.not_eq_true',
      bne_eq_false_iff_eq, decide_eq_true_eq, decide_eq_false_iff_not]
    unfold word
    omega

theorem vd_vmrg (l : Lane) {test : Bool} (vccl : l.vccl = mask 16 test) :
    (VectorOp.vmrg.result l).vd = if test then l.vs else l.vte := by
  rw [← getFlag_mask test, ← vccl]
  rfl

/-- `VSUBC`, a comparison and `VMRG` compare words and take one of them. -/
theorem Vu.compare_words {s : Vu} (masked : s.Masked) (build : Build) (c : Comparison) (e : Fin 16)
    {lo hi scratch al ah bl bh : Fin 32} (scratchAl : al ≠ scratch) (scratchAh : ah ≠ scratch)
    (scratchBl : bl ≠ scratch) (scratchBh : bh ≠ scratch) (hiAl : al ≠ hi) (hiBl : bl ≠ hi)
    (hiLo : hi ≠ lo) (n : Fin 8) :
    let s₁ := s.compute build .vsubc e scratch al bl
    let s₂ := s₁.compute build c.op e hi ah bh
    let s₃ := s₂.compute build .vmrg e lo al bl
    let a := word ((s.r ah).element n) ((s.r al).element n)
    let b := word ((s.r bh).element (broadcastIndex e n)) ((s.r bl).element (broadcastIndex e n))
    s₂.vccl.element n = mask 16 (c.test a b) ∧
      word ((s₃.r hi).element n) ((s₃.r lo).element n) = if c.test a b then a else b := by
  intro s₁ s₂ s₃ a b
  have masked₁ : s₁.Masked := masked.compute build _ _ _ _ _
  have masked₂ : s₂.Masked := masked₁.compute build _ _ _ _ _
  have kept₁ {k : Fin 32} (other : k ≠ scratch) : s₁.r k = s.r k :=
    r_compute_of_ne masked build _ _ other
  have kept₂ {k : Fin 32} (other : k ≠ hi) (other' : k ≠ scratch) : s₂.r k = s.r k :=
    (r_compute_of_ne masked₁ build _ _ other).trans (kept₁ other')
  have given := result_comparison c (s₁.operands e hi ah bh n) ((s.r al).element n)
    ((s.r bl).element (broadcastIndex e n))
    (by rw [Vu.operands_compute masked, result_vsubc, Vu.operands_vs, Vu.operands_vte])
    (by rw [Vu.operands_compute masked, result_vsubc, Vu.operands_vs, Vu.operands_vte])
  rw [Vu.operands_vs, Vu.operands_vte, kept₁ scratchAh, kept₁ scratchBh] at given
  have flag : (s₂.operands e lo al bl n).vccl = mask 16 (c.test a b) := by
    rw [Vu.operands_compute masked₁]
    exact given.1
  have high : (s₃.r hi).element n =
      if c.test a b then (s.r ah).element n else (s.r bh).element (broadcastIndex e n) := by
    rw [r_compute_of_ne masked₂ build _ _ hiLo, Vu.element_r_compute masked₁, if_pos rfl]
    exact given.2
  have low : (s₃.r lo).element n =
      if c.test a b then (s.r al).element n else (s.r bl).element (broadcastIndex e n) := by
    rw [Vu.element_r_compute masked₂, if_pos rfl, vd_vmrg _ flag, Vu.operands_vs, Vu.operands_vte,
      kept₂ hiAl scratchAl, kept₂ hiBl scratchBl]
  refine ⟨flag, ?_⟩
  rw [high, low]
  split_ifs
  · rfl
  · rfl

theorem Vu.compare_twoWords :
    let s₁ := Vu.twoWords.compute .simd .vsubc 0 7 3 5
    let s₂ := s₁.compute .simd .vlt 0 2 4 6
    let s₃ := s₂.compute .simd .vmrg 0 1 3 5
    s₂.vccl.element 0 = mask 16 false ∧ word ((s₃.r 2).element 0) ((s₃.r 1).element 0) = -147456 :=
  Vu.compare_words (Vu.masked_ofRegisters _) .simd .lt 0 (by decide) (by decide) (by decide)
    (by decide) (by decide) (by decide) (by decide) 0

/-! ## The clip test of words -/

/-- What the clip test of the upper halves leaves for that of the lower ones. -/
theorem vch_flags (l : Lane) {x y : Int} {differ : Bool} (isX : l.vs.toInt = x)
    (isY : l.vte.toInt = y) (isDiffer : differ = decide (x < 0 ↔ 0 ≤ y)) :
    (VectorOp.vch.result l).vcol = mask 16 differ ∧
      (VectorOp.vch.result l).vccl =
        mask 16 (if differ then decide (x + y ≤ 0) else decide (y < 0)) ∧
      (VectorOp.vch.result l).vcch =
        mask 16 (if differ then decide (y < 0) else decide (y ≤ x)) ∧
      (VectorOp.vch.result l).vcoh =
        mask 16 (if differ then decide (x + y ≠ 0 ∧ x + y ≠ -1) else decide (x ≠ y)) ∧
      (VectorOp.vch.result l).vce = mask 16 (differ && decide (x + y = -1)) := by
  have signs := toInt_xor_neg l.vs l.vte
  have complement := eq_complement_iff l.vs l.vte
  rw [isX, isY] at signs complement
  rw [VectorOp.result, VectorOp.lane, Lane.vch]
  by_cases here : x < 0 ↔ 0 ≤ y
  · have sum := toInt_add_of_differ (x := l.vs) (y := l.vte) (by rw [isX, isY]; exact here)
    rw [isX, isY] at sum
    rw [if_pos (signs.mpr here)]
    simp [VectorOp.after, setFlag_eq_mask, isDiffer, here, sum, isY, complement,
      -BitVec.toInt_add]
  · have difference := toInt_sub_of_same (x := l.vs) (y := l.vte) (by rw [isX, isY]; exact here)
    have notMinus : x + y ≠ -1 := by omega
    rw [isX, isY] at difference
    rw [if_neg (mt signs.mp here)]
    simp [VectorOp.after, setFlag_eq_mask, isDiffer, here, difference, isY, complement,
      notMinus, sub_eq_zero, -BitVec.toInt_sub]

theorem vcl_flags (l : Lane) {coh col cch ccl ce : Bool} (vcoh : l.vcoh = mask 16 coh)
    (vcol : l.vcol = mask 16 col) (vcch : l.vcch = mask 16 cch) (vccl : l.vccl = mask 16 ccl)
    (vce : l.vce = mask 16 ce) :
    (VectorOp.vcl.result l).vcch =
        mask 16 (if col || coh then cch else decide ((l.vte.toNat : Int) ≤ l.vs.toNat)) ∧
      (VectorOp.vcl.result l).vccl =
        mask 16 (if col && !coh then
          if ce then decide ((l.vs.toNat + l.vte.toNat : Int) ≤ 65536)
          else decide ((l.vs.toNat + l.vte.toNat : Int) = 0)
        else ccl) := by
  have left := l.vs.isLt
  have right := l.vte.isLt
  have sum : (l.vs + l.vte == 0#16) = decide ((l.vs.toNat + l.vte.toNat) % 65536 = 0) := by
    rw [Bool.eq_iff_iff, beq_iff_eq, decide_eq_true_eq, ← BitVec.toNat_inj, BitVec.toNat_add]
    rfl
  rw [VectorOp.result, VectorOp.lane, Lane.vcl]
  cases col
  · cases coh
    · simp [VectorOp.after, vcol, vcoh, vccl, setFlag_eq_mask]
    · simp [VectorOp.after, vcol, vcoh, vccl, vcch]
  · cases coh
    · cases ce
      · simp [VectorOp.after, vcol, vcoh, vce, vcch, setFlag_eq_mask, sum]
        congr 1
        grind
      · simp [VectorOp.after, vcol, vcoh, vce, vcch, setFlag_eq_mask, sum]
        congr 1
        grind
    · simp [VectorOp.after, vcol, vcoh, vccl, vcch]

/-- The codes of the clip test, where the upper halves are `x` and `y`. -/
theorem clip_codes {x y a b : Int} (left : 0 ≤ a ∧ a < 65536) (right : 0 ≤ b ∧ b < 65536)
    {differ : Bool} (isDiffer : differ = decide (x < 0 ↔ 0 ≤ y)) :
    let coh := if differ then decide (x + y ≠ 0 ∧ x + y ≠ -1) else decide (x ≠ y)
    let cch := if differ then decide (y < 0) else decide (y ≤ x)
    let ccl := if differ then decide (x + y ≤ 0) else decide (y < 0)
    let ce := differ && decide (x + y = -1)
    (if differ || coh then cch else decide (b ≤ a)) =
        decide (y * 65536 + b ≤ x * 65536 + a) ∧
      (if differ && !coh then if ce then decide (a + b ≤ 65536) else decide (a + b = 0) else ccl) =
        decide (x * 65536 + a + (y * 65536 + b) ≤ 0 ∧
          (x * 65536 + a ≠ 0 ∨ y * 65536 + b ≠ 0)) := by
  intro coh cch ccl ce
  cases differ with
  | true =>
      have signs := of_decide_eq_true isDiffer.symm
      constructor
      · simp only [cch, Bool.true_or, if_true, decide_eq_decide]
        omega
      · by_cases apart : x + y ≠ 0 ∧ x + y ≠ -1
        · have set : coh = true := decide_eq_true apart
          rw [set]
          change decide (x + y ≤ 0) = _
          rw [decide_eq_decide]
          omega
        · have clear : coh = false := decide_eq_false apart
          rw [clear]
          by_cases minus : x + y = -1
          · have near : ce = true := decide_eq_true minus
            rw [near]
            change decide (a + b ≤ 65536) = _
            rw [decide_eq_decide]
            omega
          · have far : ce = false := decide_eq_false minus
            rw [far]
            change decide (a + b = 0) = _
            rw [decide_eq_decide]
            omega
  | false =>
      have signs := of_decide_eq_false isDiffer.symm
      constructor
      · by_cases same : x = y
        · simp [coh, same]
        · have set : coh = true := decide_eq_true same
          rw [set]
          change decide (y ≤ x) = _
          rw [decide_eq_decide]
          omega
      · change decide (y < 0) = _
        rw [decide_eq_decide]
        omega

/-- `VCH` and `VCL` leave in the flags that `CFC2` reads whether the word is the bound or more, and
whether it is the opposite of the bound or less. -/
theorem Vu.clip_words {s : Vu} (masked : s.Masked) (build : Build) (e : Fin 16)
    {lo hi al ah bl bh : Fin 32} (hiAl : al ≠ hi) (hiBl : bl ≠ hi) {j : Nat} (inside : j < 8) :
    let s₁ := s.compute build .vch e hi ah bh
    let s₂ := s₁.compute build .vcl e lo al bl
    let n : Fin 8 := ⟨j, inside⟩
    let a := word ((s.r ah).element n) ((s.r al).element n)
    let b := word ((s.r bh).element (broadcastIndex e n)) ((s.r bl).element (broadcastIndex e n))
    (s₂.cfc2 1).getLsbD (8 + j) = decide (b ≤ a) ∧
      (s₂.cfc2 1).getLsbD j = decide (a + b ≤ 0 ∧ (a ≠ 0 ∨ b ≠ 0)) := by
  intro s₁ s₂ n a b
  have masked₁ : s₁.Masked := masked.compute build _ _ _ _ _
  have left := ((s.r al).element n).isLt
  have right := ((s.r bl).element (broadcastIndex e n)).isLt
  obtain ⟨vcol, vccl, vcch, vcoh, vce⟩ := vch_flags (s.operands e hi ah bh n) rfl rfl rfl
  have given : s₁.operands e lo al bl n =
    { VectorOp.vch.result (s.operands e hi ah bh n) with
      vs := (s.r al).element n
      vte := (s.r bl).element (broadcastIndex e n)
      vd := ((s.compute build .vch e hi ah bh).r lo).element n } := by
    rw [Vu.operands_compute masked, r_compute_of_ne masked build _ _ hiAl,
      r_compute_of_ne masked build _ _ hiBl]
  obtain ⟨ge, le⟩ := vcl_flags (s₁.operands e lo al bl n)
    (by rw [given]; exact vcoh) (by rw [given]; exact vcol) (by rw [given]; exact vcch)
    (by rw [given]; exact vccl) (by rw [given]; exact vce)
  have lanes : s₂.vcch.element n = (VectorOp.vcl.result (s₁.operands e lo al bl n)).vcch ∧
      s₂.vccl.element n = (VectorOp.vcl.result (s₁.operands e lo al bl n)).vccl := by
    rw [show s₂ = _ from Vu.compute_eq masked₁ build _ _ _ _ _]
    simp [Vu.store, Operands.ofElements]
  have codes := clip_codes (x := ((s.r ah).element n).toInt)
    (y := ((s.r bh).element (broadcastIndex e n)).toInt) (a := ((s.r al).element n).toNat)
    (b := ((s.r bl).element (broadcastIndex e n)).toNat) (by omega) (by omega) rfl
  rw [given] at ge le
  constructor
  · rw [Vu.getLsbD_cfc2 _ _ (by omega), dif_neg (by omega)]
    have same : (⟨8 + j - 8, by omega⟩ : Fin 8) = n := Fin.ext (by simp [n])
    rw [same]
    change getFlag (s₂.vcch.element n) = _
    rw [lanes.1, given, ge, getFlag_mask]
    exact codes.1
  · rw [Vu.getLsbD_cfc2 _ _ (by omega), dif_pos inside]
    change getFlag (s₂.vccl.element n) = _
    rw [lanes.2, given, le, getFlag_mask]
    exact codes.2

theorem Vu.clip_twoWords :
    let s₁ := Vu.twoWords.compute .simd .vch 0 2 4 6
    let s₂ := s₁.compute .simd .vcl 0 1 3 5
    (s₂.cfc2 1).getLsbD (8 + 3) = true ∧ (s₂.cfc2 1).getLsbD 3 = true :=
  Vu.clip_words (Vu.masked_ofRegisters _) .simd 0 (show (3 : Fin 32) ≠ 2 by decide)
    (show (5 : Fin 32) ≠ 2 by decide) (show 3 < 8 by decide)

end N64ModernRuntime.Librecomp
