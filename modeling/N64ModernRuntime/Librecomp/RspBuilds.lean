import N64ModernRuntime.Librecomp.RspProducts

/-!
# rsp_vu_impl.hpp: an instruction in both builds
-/

set_option autoImplicit false

namespace N64ModernRuntime.Librecomp

open Sse

/-! ## Elements -/

namespace R128

variable (v : R128)

def ofElements (f : Fin 8 → BitVec 16) : R128 := V128.ofLanes fun i => f i.rev

@[simp] theorem element_ofElements (f : Fin 8 → BitVec 16) (n : Fin 8) :
    (ofElements f).element n = f n := by
  rw [element, ofElements, V128.lane_ofLanes, Fin.rev_rev]

theorem ext_element {v w : R128} (same : ∀ n, v.element n = w.element n) : v = w :=
  V128.ext_lane fun i => by simpa [element] using same i.rev

@[simp] theorem element_setElement (n m : Fin 8) (value : BitVec 16) :
    (v.setElement n value).element m = if m = n then value else v.element m := by
  rw [element, setElement, V128.lane_ofLanes]
  simp only [Fin.rev_inj]
  rfl

theorem ofElements_setElement (f : Fin 8 → BitVec 16) (n : Fin 8) (value : BitVec 16) :
    (ofElements f).setElement n value = ofElements (Function.update f n value) := by
  refine ext_element fun m => ?_
  rw [element_setElement, element_ofElements, element_ofElements, Function.update_apply]

end R128

namespace Operands

def ofElements (f : Fin 8 → Lane) : Operands R128 :=
  ⟨R128.ofElements fun n => (f n).vs, R128.ofElements fun n => (f n).vte,
    R128.ofElements fun n => (f n).vd, R128.ofElements fun n => (f n).acch,
    R128.ofElements fun n => (f n).accm, R128.ofElements fun n => (f n).accl,
    R128.ofElements fun n => (f n).vcoh, R128.ofElements fun n => (f n).vcol,
    R128.ofElements fun n => (f n).vcch, R128.ofElements fun n => (f n).vccl,
    R128.ofElements fun n => (f n).vce⟩

@[simp] theorem element_ofElements (f : Fin 8 → Lane) (n : Fin 8) :
    (ofElements f).element n = f n := by
  simp [element, map, ofElements]

theorem ext_element {x y : Operands R128} (same : ∀ n, x.element n = y.element n) : x = y := by
  simp only [element, map, mk.injEq] at same
  cases x
  cases y
  simp only [mk.injEq]
  exact ⟨R128.ext_element fun n => (same n).1, R128.ext_element fun n => (same n).2.1,
    R128.ext_element fun n => (same n).2.2.1, R128.ext_element fun n => (same n).2.2.2.1,
    R128.ext_element fun n => (same n).2.2.2.2.1, R128.ext_element fun n => (same n).2.2.2.2.2.1,
    R128.ext_element fun n => (same n).2.2.2.2.2.2.1,
    R128.ext_element fun n => (same n).2.2.2.2.2.2.2.1,
    R128.ext_element fun n => (same n).2.2.2.2.2.2.2.2.1,
    R128.ext_element fun n => (same n).2.2.2.2.2.2.2.2.2.1,
    R128.ext_element fun n => (same n).2.2.2.2.2.2.2.2.2.2⟩

end Operands

/-! ## The loop -/

namespace Vu

variable (s : Vu) (vd vs : Fin 32) (vte : R128)

/-- Storing twice is storing once; what is stored as `vs` and `vte` is not used. -/
@[simp] theorem store_store (x y : Operands R128) : (s.store vd x).store vd y = s.store vd y := by
  simp [store]

theorem store_round (f : Fin 8 → Lane) (n : Fin 8) (l : Lane) :
    (s.store vd (Operands.ofElements f)).store vd
        (((s.store vd (Operands.ofElements f)).load vd vs vte).assign n l) =
      s.store vd (Operands.ofElements (Function.update f n l)) := by
  have field (g : Lane → BitVec 16) :
      (fun k => g (Function.update f n l k)) = Function.update (fun k => g (f k)) n (g l) := by
    funext k
    rw [Function.apply_update fun _ => g]
  simp [store, load, Operands.assign, Operands.ofElements, R128.ofElements_setElement,
    field Operands.vd, field Operands.acch, field Operands.accm, field Operands.accl,
    field Operands.vcoh, field Operands.vcol, field Operands.vcch, field Operands.vccl,
    field Operands.vce]

/-- Lane `n` is read as it was before, though `vd` may be `vs`. -/
theorem element_load_store (f : Fin 8 → Lane) (n : Fin 8)
    (untouched : f n = (s.load vd vs vte).element n) :
    ((s.store vd (Operands.ofElements f)).load vd vs vte).element n =
      (s.load vd vs vte).element n := by
  by_cases same : vs = vd
  · subst same
    simp [load, store, Operands.ofElements, Operands.element, Operands.map, untouched]
  · simp [load, store, Operands.ofElements, Operands.element, Operands.map, untouched, same]

theorem store_load : s.store vd (s.load vd vs vte) = s := by
  simp [store, load]

theorem eachLane_eq (body : Lane → Lane) : s.eachLane body vd vs vte =
    s.store vd (Operands.ofElements fun n => body ((s.load vd vs vte).element n)) := by
  have rounds (rest : List (Fin 8)) (distinct : rest.Nodup) (f : Fin 8 → Lane)
      (untouched : ∀ n ∈ rest, f n = (s.load vd vs vte).element n) :
      rest.foldl (fun s n =>
        let x := s.load vd vs vte
        s.store vd (x.assign n (body (x.element n)))) (s.store vd (Operands.ofElements f)) =
      s.store vd (Operands.ofElements fun n =>
        if n ∈ rest then body ((s.load vd vs vte).element n) else f n) := by
    induction rest generalizing f with
    | nil => simp
    | cons n rest ih =>
        have now := element_load_store s vd vs vte f n (untouched n (by simp))
        have fresh := (List.nodup_cons.mp distinct).1
        rw [List.foldl_cons]
        simp only [now]
        rw [store_round, ih (List.nodup_cons.mp distinct).2]
        · congr 2
          funext k
          by_cases here : k = n
          · subst here
            simp [fresh]
          · simp [here]
        · intro k later
          have other : k ≠ n := by
            rintro rfl
            exact fresh later
          rw [Function.update_of_ne other]
          exact untouched k (by simp [later])
  have start : Operands.ofElements (s.load vd vs vte).element = s.load vd vs vte :=
    Operands.ext_element fun n => Operands.element_ofElements _ n
  have all := rounds (List.finRange 8) (List.nodup_finRange 8) (s.load vd vs vte).element
    (fun n _ => rfl)
  rw [start, store_load] at all
  rw [eachLane, all]
  simp

end Vu

/-! ## Broadcast -/

def broadcastIndex (index : Fin 16) : Fin 8 → Fin 8 :=
  (broadcastCopies index).foldl
    (fun source copy => Function.update source copy.1 (source copy.2)) id

theorem element_broadcast (v : R128) (index : Fin 16) (n : Fin 8) :
    (v.broadcast index).element n = v.element (broadcastIndex index n) := by
  have copies (rest : List (Fin 8 × Fin 8)) (w : R128) (source : Fin 8 → Fin 8)
      (before : ∀ n, w.element n = v.element (source n)) (n : Fin 8) :
      (rest.foldl (fun v copy => v.setElement copy.1 (v.element copy.2)) w).element n =
        v.element (rest.foldl (fun source copy => Function.update source copy.1 (source copy.2))
          source n) := by
    induction rest generalizing w source with
    | nil => exact before n
    | cons copy rest ih =>
        refine ih _ _ fun m => ?_
        simp only [R128.element_setElement, Function.update_apply, before]
        split <;> rfl
  exact copies (broadcastCopies index) v id (fun _ => rfl) n

/-- Both bytes of a lane are shuffled from one lane. -/
theorem shuffleBytes_eq (index : Fin 16) (i : Fin 8) :
    (shuffleBytes index).reverse.getD (2 * i) 0 = 2 * (broadcastIndex index i.rev).rev ∧
      (shuffleBytes index).reverse.getD (2 * i + 1) 0 =
        2 * (broadcastIndex index i.rev).rev + 1 := by
  revert index i
  decide

theorem broadcast_eq_shuffle (v : R128) (index : Fin 16) : v.broadcast index = v.shuffle index := by
  refine R128.ext_element fun n => ?_
  have named := shuffleBytes_eq index n.rev
  rw [Fin.rev_rev] at named
  rw [element_broadcast, R128.shuffle, R128.element, R128.element, lane_shuffleEpi8]
  · rw [byte_setEpi8]
    exact congrArg _ named.1
  · rw [byte_setEpi8]
    exact congrArg _ named.2

/-! ## The instructions -/

def Vu.Masked (s : Vu) : Prop := ∀ n, ((s.load 0 0 0).element n).Masked

def Vu.ofRegisters (r : Fin 32 → R128) : Vu :=
  ⟨r, 0, 0, 0, 0, 0, 0, 0, 0, 0, 0, false⟩

theorem Vu.Masked.load {s : Vu} (masked : s.Masked) (vd vs : Fin 32) (vte : R128) (n : Fin 8) :
    ((s.load vd vs vte).element n).Masked :=
  ⟨(masked n).vcoh, (masked n).vcol, (masked n).vcch, (masked n).vccl, (masked n).vce⟩

theorem element_zero (n : Fin 8) : R128.element 0#128 n = 0#16 := lane_zero n.rev

theorem Vu.masked_ofRegisters (r : Fin 32 → R128) : (Vu.ofRegisters r).Masked := by
  intro n
  have clear : IsMask (R128.element 0#128 n) := .inl (element_zero n)
  exact ⟨clear, clear, clear, clear, clear⟩

theorem element_after (op : VectorOp) (x : Operands R128) (n : Fin 8) :
    (op.after 0 x).element n = op.after 0 (x.element n) := by
  cases op <;> simp [VectorOp.after, Operands.element, Operands.map, element_zero]

theorem simd_eq (op : VectorOp) {x : Operands R128} (masked : ∀ n, (x.element n).Masked) :
    op.simd x = op.after 0 (Operands.ofElements fun n => op.lane (x.element n)) := by
  refine Operands.ext_element fun n => ?_
  rw [element_after, Operands.element_ofElements]
  exact hasLane_iff.mp (op.agrees (masked n) (hasLane_iff.mpr rfl))

theorem Vu.store_after (s : Vu) (op : VectorOp) (vd vs : Fin 32) (vte : R128) (x : Operands R128) :
    (s.store vd x).store vd (op.after 0 ((s.store vd x).load vd vs vte)) =
      s.store vd (op.after 0 x) := by
  cases op <;> simp [VectorOp.after, Vu.store, Vu.load]

/-- The two builds of an instruction do the same where the flags are masks. -/
theorem Vu.sisd_eq_simd {s : Vu} (masked : s.Masked) (op : VectorOp) (e : Fin 16)
    (vd vs vt : Fin 32) : s.sisd op e vd vs vt = s.simd op e vd vs vt := by
  simp only [Vu.sisd, Vu.simd, ← broadcast_eq_shuffle, eachLane_eq, store_after]
  rw [simd_eq op (masked.load vd vs _)]

/-- The body of a loop and what is after it leave masks. -/
theorem VectorOp.masked_lane (op : VectorOp) {l : Lane} (masked : l.Masked) :
    Lane.Masked (op.after 0 (op.lane l)) := by
  obtain ⟨coh, col, cch, ccl, ce⟩ := masked
  cases op
  case vch =>
    simp only [VectorOp.lane, VectorOp.after, Lane.vch]
    split
    · constructor <;> simp
    · constructor <;> simp
  case vcl =>
    simp only [VectorOp.lane, VectorOp.after, Lane.vcl]
    split
    · split
      · constructor <;> simp [cch, ccl]
      · constructor <;> simp [cch]
    · split
      · constructor <;> simp [cch, ccl]
      · constructor <;> simp [ccl]
  case vcr =>
    simp only [VectorOp.lane, VectorOp.after, Lane.vcr]
    split
    · constructor <;> simp
    · constructor <;> simp
  case vabs =>
    simp only [VectorOp.lane, VectorOp.after, Lane.vabs]
    split
    · split
      · exact ⟨coh, col, cch, ccl, ce⟩
      · exact ⟨coh, col, cch, ccl, ce⟩
    · split
      · exact ⟨coh, col, cch, ccl, ce⟩
      · exact ⟨coh, col, cch, ccl, ce⟩
  all_goals
    constructor <;> simp [VectorOp.lane, VectorOp.after, Lane.veq, Lane.vge, Lane.vlt, Lane.vne,
      Lane.compare, Lane.vadd, Lane.vaddc, Lane.vsub, Lane.vsubc, Lane.vmrg, Lane.vand, Lane.vor,
      Lane.vxor, Lane.vnand, Lane.vnor, Lane.vnxor, Lane.vzero, Lane.vmudh, Lane.vmudl, Lane.vmudm,
      Lane.vmudn, Lane.vmadh, Lane.vmadl, Lane.vmadm, Lane.vmadn, Lane.vmacf, Lane.vmulf,
      Lane.accumulate, Lane.accumulatorSet, coh, col, cch, ccl, ce]

theorem Vu.Masked.simd {s : Vu} (masked : s.Masked) (op : VectorOp) (e : Fin 16)
    (vd vs vt : Fin 32) : (s.simd op e vd vs vt).Masked := by
  intro n
  have stored := op.masked_lane (masked.load vd vs ((s.r vt).shuffle e) n)
  have agrees := hasLane_iff.mp (op.agrees (masked.load vd vs ((s.r vt).shuffle e) n)
    (hasLane_iff.mpr rfl))
  rw [← agrees] at stored
  exact ⟨stored.vcoh, stored.vcol, stored.vcch, stored.vccl, stored.vce⟩

/-! ## Moves of flags -/

theorem lane_testBits (rt : BitVec 32) (shift : Nat) (n : Fin 8)  (inside : shift + 8 ≤ 32):
    V128.lane (cmpeqEpi8 (andSi128 (shuffleEpi8 ((~~~rt >>> shift).setWidth 128) 0)
      (setEpi16 [0x0101, 0x0202, 0x0404, 0x0808, 0x1010, 0x2020, 0x4040, 0x8080])) 0) n.rev =
      mask 16 (rt.getLsbD (shift + n)) := by
  have tested (k : Fin 16) (named : k.val / 2 = 7 - n.val) :
      V128.byte (cmpeqEpi8 (andSi128 (shuffleEpi8 ((~~~rt >>> shift).setWidth 128) 0)
        (setEpi16 [0x0101, 0x0202, 0x0404, 0x0808, 0x1010, 0x2020, 0x4040, 0x8080])) 0) k =
        mask 8 (rt.getLsbD (shift + n)) := by
    have single : V128.byte
        (setEpi16 [0x0101, 0x0202, 0x0404, 0x0808, 0x1010, 0x2020, 0x4040, 0x8080]) k =
        BitVec.twoPow 8 n := by
      revert k n
      decide
    have zero (k : Fin 16) : V128.byte 0 k = 0 := by
      revert k
      decide
    have first : (shuffleEpi8 ((~~~rt >>> shift).setWidth 128) 0).byte k =
        (~~~rt >>> shift).setWidth 8 := by
      rw [shuffleEpi8, V128.byte_ofBytes, zero]
      refine BitVec.eq_of_getLsbD_eq fun j inside => ?_
      have below : j < 128 := by omega
      simp [V128.byte, inside, below]
      omega
    rw [cmpeqEpi8, V128.byte_ofBytes, byte_andSi128, first, single, zero]
    congr 1
    rw [BitVec.and_twoPow]
    have small : (n : Nat) < 8 := n.isLt
    have bit : ((~~~rt >>> shift).setWidth 8).getLsbD n = !rt.getLsbD (shift + n) := by
      have below : shift + (n : Nat) < 32 := by omega
      simp [small, below]
    have nonzero (n : Fin 8) : BitVec.twoPow 8 n ≠ 0 := by
      revert n
      decide
    rw [bit]
    cases rt.getLsbD (shift + n)
    · simpa using nonzero n
    · simp
  apply lane_eq_mask
  · refine tested _ ?_
    simp
  · refine tested _ ?_
    simp
    omega

theorem element_setEach (f g : Fin 8 → BitVec 16) (pair : R128 × R128) (m : Fin 8) :
    let set := (List.finRange 8).foldl (fun (pair : R128 × R128) n =>
      (pair.1.setElement n (f n), pair.2.setElement n (g n))) pair
    set.1.element m = f m ∧ set.2.element m = g m := by
  have rounds (rest : List (Fin 8)) (pair : R128 × R128) :
      let set := rest.foldl (fun (pair : R128 × R128) n =>
        (pair.1.setElement n (f n), pair.2.setElement n (g n))) pair
      set.1.element m = (if m ∈ rest then f m else pair.1.element m) ∧
        set.2.element m = (if m ∈ rest then g m else pair.2.element m) := by
    induction rest generalizing pair with
    | nil => simp
    | cons n rest ih =>
        have after := ih (pair.1.setElement n (f n), pair.2.setElement n (g n))
        simp only [R128.element_setElement] at after
        rw [List.foldl_cons]
        refine ⟨after.1.trans ?_, after.2.trans ?_⟩
        · by_cases here : m = n
          · subst here
            simp
          · simp [here]
        · by_cases here : m = n
          · subst here
            simp
          · simp [here]
  simpa using rounds (List.finRange 8) pair

theorem setFlagPair_congr (s : Vu) (rd : BitVec 8) {pair pair' : R128 × R128}
    (high : pair.1 = pair'.1) (low : pair.2 = pair'.2) :
    s.setFlagPair rd pair = s.setFlagPair rd pair' := by
  rw [Prod.ext high low]

theorem Vu.ctc2_eq_ctc2Simd (s : Vu) (rt : BitVec 32) (rd : BitVec 8) :
    s.ctc2 rt rd = s.ctc2Simd rt rd := by
  have bit (k : Nat) (inside : k < 32) :
      decide (rt &&& (1 : BitVec 32) <<< k ≠ 0) = rt.getLsbD k := by
    have power : (1 : BitVec 32) <<< k = BitVec.twoPow 32 k := rfl
    rw [power, BitVec.and_twoPow]
    cases rt.getLsbD k
    · simp
    · have nonzero : BitVec.twoPow 32 k ≠ 0#32 := by
        intro zero
        have top := congrArg (fun x => x.getLsbD k) zero
        simp [inside] at top
      simpa using nonzero
  have set := element_setEach
    (fun n => setFlag (decide (rt &&& (1 : BitVec 32) <<< (8 + n.val) ≠ 0)))
    (fun n => setFlag (decide (rt &&& (1 : BitVec 32) <<< (0 + n.val) ≠ 0))) (s.flagPair rd)
  refine setFlagPair_congr s rd (R128.ext_element fun n => ?_) (R128.ext_element fun n => ?_)
  · refine (set n).1.trans ?_
    rw [bit _ (by omega), setFlag_eq_mask]
    exact (lane_testBits rt 8 n (by decide)).symm
  · refine (set n).2.trans ?_
    rw [bit _ (by omega), setFlag_eq_mask]
    exact (lane_testBits rt 0 n (by decide)).symm

theorem packed_byte (hi lo : R128) (i : Fin 16) :
    V128.byte (shuffleEpi8 (packsEpi16 hi lo)
        (setEpi8 [0, 1, 2, 3, 4, 5, 6, 7, 8, 9, 10, 11, 12, 13, 14, 15])) i =
      saturateEpi8 (R128.element (if i.val < 8 then lo else hi) (Fin.ofNat 8 i)).toInt := by
  have named : [0, 1, 2, 3, 4, 5, 6, 7, 8, 9, 10, 11, 12, 13, 14, 15].reverse.getD i 0 =
      15 - i.val := by
    revert i
    decide
  have positive : (BitVec.ofNat 8 (15 - i.val)).msb = false := by
    revert i
    decide
  have place : Fin.ofNat 16 (BitVec.ofNat 8 (15 - i.val)).toNat = i.rev := by
    revert i
    decide
  have mirrored : Fin.ofNat 8 i.rev.val = (Fin.ofNat 8 i.val).rev := by
    revert i
    decide
  rw [shuffleEpi8, V128.byte_ofBytes, byte_setEpi8, named, positive, place, packsEpi16,
    V128.byte_ofBytes, if_neg (by decide), mirrored]
  by_cases low : i.val < 8
  · have above : ¬ (i.rev.val < 8) := by
      rw [Fin.val_rev]
      omega
    rw [if_neg above, if_pos low]
    rfl
  · have below : i.rev.val < 8 := by
      rw [Fin.val_rev]
      omega
    rw [if_pos below, if_neg low]
    rfl

/-- The loop of `CFC2` has a bit for every flag of both registers. -/
theorem getLsbD_flags (pair : R128 × R128) {j : Nat} (inside : j < 16) :
    ((List.finRange 8).foldl (fun rt n =>
      rt ||| (BitVec.ofBool (getFlag (pair.2.element n))).setWidth 32 <<< (0 + n.val) |||
        (BitVec.ofBool (getFlag (pair.1.element n))).setWidth 32 <<< (8 + n.val))
      (0 : BitVec 32)).getLsbD j =
      if h : j < 8 then getFlag (pair.2.element ⟨j, h⟩)
      else getFlag (pair.1.element ⟨j - 8, by omega⟩) := by
  have below : j < 32 := by omega
  simp only [BitVec.or_assoc]
  rw [getLsbD_foldl_or]
  simp only [BitVec.getLsbD_or, getLsbD_bit _ _ below]
  rw [Bool.eq_iff_iff]
  simp only [BitVec.ofNat_eq_ofNat, BitVec.getLsbD_zero, Bool.false_or, List.any_eq_true,
    List.mem_finRange, true_and, Bool.or_eq_true, Bool.and_eq_true, decide_eq_true_eq, zero_add]
  by_cases low : j < 8
  · rw [dif_pos low]
    constructor
    · rintro ⟨k, ⟨rfl, set⟩ | ⟨above, -⟩⟩
      · exact set
      · omega
    · intro set
      exact ⟨⟨j, low⟩, .inl ⟨rfl, set⟩⟩
  · rw [dif_neg low]
    constructor
    · rintro ⟨k, ⟨rfl, -⟩ | ⟨rfl, set⟩⟩
      · omega
      · simpa using set
    · intro set
      refine ⟨⟨j - 8, by omega⟩, .inr ⟨?_, set⟩⟩
      simp only
      omega

theorem Vu.getLsbD_cfc2 (s : Vu) (rd : BitVec 8) {j : Nat} (inside : j < 16) :
    (s.cfc2 rd).getLsbD j =
      if h : j < 8 then getFlag ((s.flagPair rd).2.element ⟨j, h⟩)
      else getFlag ((s.flagPair rd).1.element ⟨j - 8, by omega⟩) := by
  rw [← getLsbD_flags (s.flagPair rd) inside, cfc2, BitVec.getLsbD_signExtend]
  have below : j < 32 := by omega
  simp [inside, below]

theorem Vu.cfc2_eq_cfc2Simd {s : Vu} (masked : s.Masked) (rd : BitVec 8) :
    s.cfc2 rd = s.cfc2Simd rd := by
  have flags (n : Fin 8) :
      IsMask ((s.flagPair rd).1.element n) ∧ IsMask ((s.flagPair rd).2.element n) := by
    have flags := masked n
    unfold flagPair
    split
    · exact ⟨flags.vcoh, flags.vcol⟩
    · exact ⟨flags.vcch, flags.vccl⟩
    · exact ⟨.inl (element_zero n), flags.vce⟩
  have top {x : BitVec 16} (isMask : IsMask x) : (saturateEpi8 x.toInt).msb = getFlag x := by
    obtain ⟨b, rfl⟩ := isMask_iff.mp isMask
    rw [msb_saturateEpi8_mask, getFlag_mask]
  rw [Vu.cfc2, Vu.cfc2Simd]
  refine congrArg (fun bits : BitVec 16 => bits.signExtend 32)
    (BitVec.eq_of_getLsbD_eq fun j inside => ?_)
  rw [BitVec.getLsbD_setWidth, decide_eq_true inside, Bool.true_and, getLsbD_flags _ inside,
    getLsbD_movemaskEpi8 _ ⟨j, inside⟩, packed_byte]
  by_cases low : j < 8
  · have place : Fin.ofNat 8 j = ⟨j, low⟩ := Fin.ext (Nat.mod_eq_of_lt low)
    rw [dif_pos low, if_pos low, place, top (flags _).2]
  · have place : Fin.ofNat 8 j = ⟨j - 8, by omega⟩ := by
      apply Fin.ext
      change j % 8 = j - 8
      omega
    rw [dif_neg low, if_neg low, place, top (flags _).1]

end N64ModernRuntime.Librecomp
