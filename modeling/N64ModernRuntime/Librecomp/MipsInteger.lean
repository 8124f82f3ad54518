import N64ModernRuntime.Lib.MipsIII
import N64ModernRuntime.Librecomp.GuestMemory

/-!
# mips_interp.cpp: the integer instructions

`exec_noncontrol` against the MIPS III integer instructions, over every word
that encodes one of them.
-/

set_option autoImplicit false

namespace N64ModernRuntime.Librecomp

open MipsIII

/-- The memory helpers of `recomp.h` are the accesses of the architecture, at
the sum of their register and offset. -/
structure RecompH.Correct {μ : Type} (H : RecompH μ) (memory : Memory μ) : Prop where
  memB : ∀ m offset reg, H.memB m offset reg = memory.byte m (reg + offset)
  memH : ∀ m offset reg, H.memH m offset reg = memory.halfword m (reg + offset)
  memW : ∀ m offset reg, H.memW m offset reg = memory.word m (reg + offset)
  memBU : ∀ m offset reg, H.memBU m offset reg = memory.byte m (reg + offset)
  memHU : ∀ m offset reg, H.memHU m offset reg = memory.halfword m (reg + offset)
  memWU : ∀ m offset reg, H.memWU m offset reg = memory.word m (reg + offset)
  setMemB : ∀ m offset reg v, H.setMemB m offset reg v = memory.storeByte m (reg + offset) v
  setMemH : ∀ m offset reg v,
    H.setMemH m offset reg v = memory.storeHalfword m (reg + offset) v
  setMemW : ∀ m offset reg v, H.setMemW m offset reg v = memory.storeWord m (reg + offset) v
  loadDoubleword : ∀ m reg offset,
    H.loadDoubleword m reg offset = memory.doubleword m (reg + offset)
  sd : ∀ m v offset reg, H.sd m v offset reg = memory.storeDoubleword m (reg + offset) v
  doLwl : ∀ m initial offset reg,
    H.doLwl m initial offset reg = memory.wordLeft m (reg + offset) initial
  doLwr : ∀ m initial offset reg,
    H.doLwr m initial offset reg = memory.wordRight m (reg + offset) initial
  doLdl : ∀ m initial offset reg,
    H.doLdl m initial offset reg = memory.doublewordLeft m (reg + offset) initial
  doLdr : ∀ m initial offset reg,
    H.doLdr m initial offset reg = memory.doublewordRight m (reg + offset) initial
  doSwl : ∀ m offset reg v, H.doSwl m offset reg v = memory.storeWordLeft m (reg + offset) v
  doSwr : ∀ m offset reg v, H.doSwr m offset reg v = memory.storeWordRight m (reg + offset) v
  doSdl : ∀ m offset reg v,
    H.doSdl m offset reg v = memory.storeDoublewordLeft m (reg + offset) v
  doSdr : ∀ m offset reg v,
    H.doSdr m offset reg v = memory.storeDoublewordRight m (reg + offset) v

namespace Machine

variable {μ ε : Type}

def state (s : Machine μ ε) : State μ := ⟨s.ctx.r, s.ctx.hi, s.ctx.lo, s.rdram⟩

def withState (s : Machine μ ε) (t : State μ) : Machine μ ε :=
  { s with ctx := { s.ctx with r := t.gpr, hi := t.hi, lo := t.lo }, rdram := t.mem }

variable (s : Machine μ ε)

@[simp] theorem withState_state : s.withState s.state = s := rfl

@[simp] theorem withState_write (t : State μ) (i : Reg) (v : Value) :
    s.withState (t.write i v) = (s.withState t).setR i v := by
  unfold setR State.write
  split <;> rfl

def setIfSome (i : BitVec 5) (v : Option Gpr) : Machine μ ε :=
  match v with
  | some v => s.setR i v
  | none => s

theorem withState_writeIfSome (i : Reg) (v : Option Value) :
    s.withState (s.state.writeIfSome i v) = s.setIfSome i v := by
  cases v with
  | none => rfl
  | some v => exact s.withState_write _ i v

@[simp] theorem withState_writeHi (t : State μ) (v : Value) :
    s.withState (t.writeHi v) = (s.withState t).setHi v := rfl

@[simp] theorem withState_writeLo (t : State μ) (v : Value) :
    s.withState (t.writeLo v) = (s.withState t).setLo v := rfl

@[simp] theorem withState_writeMem (t : State μ) (m : μ) :
    s.withState (t.writeMem m) = (s.withState t).setRdram m := rfl

theorem read_state (zero : s.R 0 = 0) (i : Reg) : s.state.read i = s.R i := by
  unfold State.read
  split
  · rename_i is
    rw [is, zero]
  · rfl

end Machine

/-! Host arithmetic on the values of registers. -/

section Values

variable {v w : Gpr}

theorem sx32_eq_word {x : BitVec 32} {y : Int} (same : x = BitVec.ofInt 32 y) :
    sx32 x = word y := by
  rw [same]
  rfl

theorem masked_five (v : Gpr) : (v &&& 0x1F#64).toNat = v.toNat % 32 := by
  rw [BitVec.toNat_and]
  exact Nat.and_two_pow_sub_one_eq_mod v.toNat 5

theorem masked_six (v : Gpr) : (v &&& 0x3F#64).toNat = v.toNat % 64 := by
  rw [BitVec.toNat_and]
  exact Nat.and_two_pow_sub_one_eq_mod v.toNat 6

theorem sx32_shiftLeft (is : IsWord v) (n : Nat) :
    sx32 (low v <<< n) = word (v.toInt * 2 ^ n) := by
  apply sx32_eq_word
  rw [shiftLeft_eq_ofInt, low, is.toInt]

theorem sx32_ushiftRight (v : Gpr) (n : Nat) :
    sx32 (low v >>> n) = word (unsignedWord v / 2 ^ n : Nat) := by
  apply sx32_eq_word
  rw [ushiftRight_eq_ofInt, low, unsignedWord_eq]

theorem sx32_sshiftRight (is : IsWord v) (n : Nat) :
    sx32 ((low v).sshiftRight n) = word (v.toInt / 2 ^ n) := by
  apply sx32_eq_word
  rw [sshiftRight_eq_ofInt, low, is.toInt]

theorem sx32_add (isv : IsWord v) (isw : IsWord w) :
    sx32 (low v + low w) = word (v.toInt + w.toInt) := by
  apply sx32_eq_word
  rw [add_eq_ofInt, low, low, isv.toInt, isw.toInt]

theorem sx32_sub (isv : IsWord v) (isw : IsWord w) :
    sx32 (low v - low w) = word (v.toInt - w.toInt) := by
  apply sx32_eq_word
  rw [sub_eq_ofInt, low, low, isv.toInt, isw.toInt]

theorem sx32_sdiv (isv : IsWord v) (isw : IsWord w) :
    sx32 ((low v).sdiv (low w)) = word (v.toInt.tdiv w.toInt) := by
  apply sx32_eq_word
  rw [sdiv_eq_ofInt, low, low, isv.toInt, isw.toInt]

theorem sx32_srem (isv : IsWord v) (isw : IsWord w) :
    sx32 ((low v).srem (low w)) = word (v.toInt.tmod w.toInt) := by
  apply sx32_eq_word
  rw [srem_eq_ofInt, low, low, isv.toInt, isw.toInt]

theorem sx32_udiv (v w : Gpr) :
    sx32 (low v / low w) = word (unsignedWord v / unsignedWord w : Nat) := by
  apply sx32_eq_word
  rw [udiv_eq_ofInt, low, low, unsignedWord_eq, unsignedWord_eq]

theorem sx32_umod (v w : Gpr) :
    sx32 (low v % low w) = word (unsignedWord v % unsignedWord w : Nat) := by
  apply sx32_eq_word
  rw [umod_eq_ofInt, low, low, unsignedWord_eq, unsignedWord_eq]

theorem sx32_product (isv : IsWord v) (isw : IsWord w) :
    sx32 (low ((low v).signExtend 64 * (low w).signExtend 64)) = word (v.toInt * w.toInt)
      ∧ sx32 (low (((low v).signExtend 64 * (low w).signExtend 64).sshiftRight 32))
        = word (v.toInt * w.toInt / 2 ^ 32) := by
  have left : (low v).signExtend 64 = v := isv.extend
  have right : (low w).signExtend 64 = w := isw.extend
  rw [left, right, ← isv.toInt_mul isw]
  constructor <;> apply sx32_eq_word
  · exact setWidth_eq_ofInt _ (by decide)
  · rw [low, setWidth_eq_ofInt _ (by decide), BitVec.toInt_sshiftRight,
      Int.shiftRight_eq_div_pow]
    norm_cast

theorem sx32_unsigned_product (v w : Gpr) :
    sx32 (low ((low v).setWidth 64 * (low w).setWidth 64))
        = word (unsignedWord v * unsignedWord w : Nat)
      ∧ sx32 (low (((low v).setWidth 64 * (low w).setWidth 64) >>> 32))
        = word (unsignedWord v * unsignedWord w / 2 ^ 32 : Nat) := by
  constructor <;> apply sx32_eq_word
  · rw [low, low, low, setWidth_eq_ofInt_toNat, toNat_mul_words]
  · rw [low, setWidth_eq_ofInt_toNat, BitVec.toNat_ushiftRight, Nat.shiftRight_eq_div_pow,
      low, low, toNat_mul_words]

end Values

/-! The families of instructions. -/

section Families

variable {μ ε : Type} {fp : HostFloat} {H : RecompH μ} {insn : Insn} {s : Machine μ ε}

theorem of_special {funct : BitVec 6} (encodes : (special funct).Matches (.ofWord insn)) :
    insn.op = 0x00#6 ∧ insn.fn = funct :=
  ⟨encodes.1, encodes.2 funct rfl⟩

theorem of_plain {opcode : BitVec 6} (encodes : (plain opcode).Matches (.ofWord insn)) :
    insn.op = opcode := encodes.1

theorem done_setR {i : BitVec 5} {v w : Gpr} (same : v = w) :
    Exec.done (s.setR i v) = .done (s.setR i w) := by rw [same]

theorem exec_shift {op : ShiftOp} (encodes : op.encoding.Matches (.ofWord insn))
    (defined : op.Defined (s.R insn.rt)) :
    execNoncontrol fp H insn s
      = .done (s.setR insn.rd (op.value insn.sa.toNat (s.R insn.rs) (s.R insn.rt))) := by
  cases op <;> obtain ⟨code, funct⟩ := of_special encodes <;>
    simp only [execNoncontrol, execSpecial, code, funct] <;> apply done_setR
  case sll => exact sx32_shiftLeft defined _
  case srl => exact sx32_ushiftRight _ _
  case sra => exact sx32_sshiftRight defined _
  case sllv =>
    rw [BitVec.shiftLeft_eq', masked_five]
    exact sx32_shiftLeft defined _
  case srlv =>
    rw [BitVec.ushiftRight_eq', masked_five]
    exact sx32_ushiftRight _ _
  case srav =>
    rw [BitVec.sshiftRight', masked_five]
    exact sx32_sshiftRight defined _
  case dsll => exact shiftLeft_eq_ofInt _ _
  case dsrl => exact ushiftRight_eq_ofInt _ _
  case dsra => exact sshiftRight_eq_ofInt _ _
  case dsll32 => exact shiftLeft_eq_ofInt _ _
  case dsrl32 => exact ushiftRight_eq_ofInt _ _
  case dsra32 => exact sshiftRight_eq_ofInt _ _
  case dsllv =>
    rw [BitVec.shiftLeft_eq', masked_six]
    exact shiftLeft_eq_ofInt _ _
  case dsrlv =>
    rw [BitVec.ushiftRight_eq', masked_six]
    exact ushiftRight_eq_ofInt _ _
  case dsrav =>
    rw [BitVec.sshiftRight', masked_six]
    exact sshiftRight_eq_ofInt _ _

theorem slt_eq_toInt (v w : Gpr) :
    (if v.slt w then (1 : Gpr) else 0) = if v.toInt < w.toInt then 1 else 0 := by
  simp only [BitVec.slt, decide_eq_true_eq]

theorem ult_eq_toNat (v w : Gpr) :
    (if v.ult w then (1 : Gpr) else 0) = if v.toNat < w.toNat then 1 else 0 := by
  simp only [BitVec.ult, decide_eq_true_eq]

theorem exec_register {op : RegisterOp} (encodes : op.encoding.Matches (.ofWord insn))
    (defined : op.Defined (s.R insn.rs) (s.R insn.rt)) :
    execNoncontrol fp H insn s
      = .done (s.setIfSome insn.rd (op.value (s.R insn.rs) (s.R insn.rt))) := by
  have zero (v : Gpr) : v = 0 ↔ v.toNat = 0 := BitVec.toNat_eq
  cases op <;> obtain ⟨code, funct⟩ := of_special encodes <;>
    simp only [execNoncontrol, execSpecial, code, funct]
  case add => exact done_setR (sx32_add defined.1 defined.2)
  case addu => exact done_setR (sx32_add defined.1 defined.2)
  case sub => exact done_setR (sx32_sub defined.1 defined.2)
  case subu => exact done_setR (sx32_sub defined.1 defined.2)
  case dadd => exact done_setR (add_eq_ofInt _ _)
  case daddu => exact done_setR (add_eq_ofInt _ _)
  case dsub => exact done_setR (sub_eq_ofInt _ _)
  case dsubu => exact done_setR (sub_eq_ofInt _ _)
  case and => rfl
  case or => rfl
  case xor => rfl
  case nor => rfl
  case slt => exact done_setR (slt_eq_toInt _ _)
  case sltu => exact done_setR (ult_eq_toNat _ _)
  case movn =>
    simp only [ne_eq, zero, ite_not, RegisterOp.value]
    split <;> rfl
  case movz =>
    simp only [zero, RegisterOp.value]
    split <;> rfl

theorem simm_eq (insn : Insn) : insn.simm = doubleword insn.uimm.toInt :=
  signExtend_eq_ofInt _ (by decide)

theorem zeroExtended_eq (insn : Insn) :
    insn.uimm.setWidth 64 = doubleword insn.uimm.toNat :=
  setWidth_eq_ofInt_toNat _

theorem exec_immediate {op : ImmediateOp} (encodes : op.encoding.Matches (.ofWord insn))
    (defined : op.Defined (s.R insn.rs)) :
    execNoncontrol fp H insn s
      = .done (s.setR insn.rt (op.value insn.uimm (s.R insn.rs))) := by
  have wordSum (is : IsWord (s.R insn.rs)) :
      sx32 (low (s.R insn.rs) + insn.simm32)
        = word ((s.R insn.rs).toInt + insn.uimm.toInt) := by
    apply sx32_eq_word
    rw [add_eq_ofInt, low, is.toInt, Insn.simm32, BitVec.toInt_signExtend_of_le (by decide)]
  have sum : s.R insn.rs + insn.simm
      = doubleword ((s.R insn.rs).toInt + insn.uimm.toInt) := by
    rw [add_eq_ofInt, Insn.simm, BitVec.toInt_signExtend_of_le (by decide)]
    rfl
  have upper : sx32 (insn.uimm.setWidth 32 <<< 16) = word (insn.uimm.toInt * 2 ^ 16) := by
    have sameBits : insn.uimm.setWidth 32 <<< 16 = insn.simm32 <<< 16 := by
      ext i bound
      simp only [Insn.simm32, BitVec.getElem_shiftLeft, BitVec.getElem_setWidth,
        BitVec.getElem_signExtend]
      rw [dif_pos (by omega), BitVec.getLsbD_eq_getElem]
    apply sx32_eq_word
    rw [sameBits, shiftLeft_eq_ofInt, Insn.simm32, BitVec.toInt_signExtend_of_le (by decide)]
  cases op <;> have code := of_plain encodes <;>
    simp only [execNoncontrol, code] <;> apply done_setR
  case addi => exact wordSum defined
  case addiu => exact wordSum defined
  case slti =>
    rw [slt_eq_toInt, Insn.simm, BitVec.toInt_signExtend_of_le (by decide)]
    rfl
  case sltiu =>
    rw [ult_eq_toNat, simm_eq]
    rfl
  case andi => rw [zeroExtended_eq]; rfl
  case ori => rw [zeroExtended_eq]; rfl
  case xori => rw [zeroExtended_eq]; rfl
  case lui => exact upper
  case daddi => exact sum
  case daddiu => exact sum

theorem exec_load {op : LoadOp} {memory : Memory μ} (correct : H.Correct memory)
    (encodes : op.encoding.Matches (.ofWord insn)) :
    execNoncontrol fp H insn s
      = .done (s.setR insn.rt (op.value memory s.rdram
        (s.R insn.rs + doubleword insn.uimm.toInt) (s.R insn.rt))) := by
  cases op <;> have code := of_plain encodes <;>
    simp only [execNoncontrol, code, correct.memB, correct.memH, correct.memW, correct.memBU,
      correct.memHU, correct.memWU, correct.loadDoubleword, correct.doLwl, correct.doLwr,
      correct.doLdl, correct.doLdr, simm_eq] <;>
    apply done_setR
  case lb => exact signExtend_eq_ofInt _ (by decide)
  case lh => exact signExtend_eq_ofInt _ (by decide)
  case lw => exact signExtend_eq_ofInt _ (by decide)
  case ll => exact signExtend_eq_ofInt _ (by decide)
  case lbu => exact setWidth_eq_ofInt_toNat _
  case lhu => exact setWidth_eq_ofInt_toNat _
  case lwu => exact setWidth_eq_ofInt_toNat _
  all_goals rfl

theorem exec_store {op : StoreOp} {memory : Memory μ} (correct : H.Correct memory)
    (encodes : op.encoding.Matches (.ofWord insn)) :
    execNoncontrol fp H insn s
      = .done (let stored := s.setRdram (op.memory memory s.rdram
          (s.R insn.rs + doubleword insn.uimm.toInt) (s.R insn.rt))
        if op = .sc then stored.setR insn.rt 1 else stored) := by
  have byte : (s.R insn.rt).setWidth 8 = BitVec.ofInt 8 (s.R insn.rt).toInt :=
    setWidth_eq_ofInt _ (by decide)
  have halfword : (s.R insn.rt).setWidth 16 = BitVec.ofInt 16 (s.R insn.rt).toInt :=
    setWidth_eq_ofInt _ (by decide)
  have lowWord : low (s.R insn.rt) = BitVec.ofInt 32 (s.R insn.rt).toInt :=
    setWidth_eq_ofInt _ (by decide)
  cases op <;> have code := of_plain encodes <;>
    simp only [execNoncontrol, code, correct.setMemB, correct.setMemH, correct.setMemW,
      correct.sd, correct.doSwl, correct.doSwr, correct.doSdl, correct.doSdr, simm_eq, byte,
      halfword, lowWord] <;>
    rfl

/-- The quotient of the smallest word by -1 is no word: the host traps. -/
def DivOverflows (rs rt : Gpr) : Prop := rs.toInt = -2 ^ 31 ∧ rt.toInt = -1

instance (rs rt : Gpr) : Decidable (DivOverflows rs rt) :=
  inferInstanceAs (Decidable (_ ∧ _))

theorem low_eq_iff {v : Gpr} (is : IsWord v) {x : BitVec 32} {y : Int} (value : x.toInt = y) :
    low v = x ↔ v.toInt = y := by
  rw [← BitVec.toInt_inj, low, is.toInt, value]

theorem exec_hiLo {op : HiLoOp} (encodes : op.encoding.Matches (.ofWord insn))
    (defined : op.Defined (s.R insn.rs) (s.R insn.rt)) :
    execNoncontrol fp H insn s =
      if op = .div ∧ DivOverflows (s.R insn.rs) (s.R insn.rt) then Exec.fault
      else .done (s.withState (op.step insn.rd (s.R insn.rs) (s.R insn.rt) s.state)) := by
  cases op <;> obtain ⟨code, funct⟩ := of_special encodes <;>
    simp only [execNoncontrol, execSpecial, code, funct, HiLoOp.step, Machine.withState_write,
      Machine.withState_writeHi, Machine.withState_writeLo, Machine.withState_state,
      reduceCtorEq, false_and, if_false]
  case mfhi => rfl
  case mflo => rfl
  case mult =>
    obtain ⟨lo, hi⟩ := sx32_product defined.1 defined.2
    rw [lo, hi]
  case multu =>
    obtain ⟨lo, hi⟩ := sx32_unsigned_product (s.R insn.rs) (s.R insn.rt)
    rw [lo, hi]
  case div =>
    rw [sx32_sdiv defined.1 defined.2, sx32_srem defined.1 defined.2]
    simp only [low_eq_iff defined.1 (x := BitVec.intMin 32) (y := -2 ^ 31) (by decide),
      low_eq_iff defined.2 (x := BitVec.allOnes 32) (y := -1) (by decide),
      low_eq_iff defined.2 (x := 0) (y := 0) (by decide), DivOverflows, true_and]
    by_cases zero : (s.R insn.rt).toInt = 0
    · have : ¬((s.R insn.rs).toInt = -2 ^ 31 ∧ (s.R insn.rt).toInt = -1) := by omega
      rw [if_pos zero, if_pos zero, if_neg this]
      rfl
    · rw [if_neg zero, if_neg zero]
      rfl
  case divu =>
    have zero : low (s.R insn.rt) = 0 ↔ unsignedWord (s.R insn.rt) = 0 := by
      rw [← unsignedWord_eq]
      exact BitVec.toNat_eq
    rw [sx32_udiv, sx32_umod]
    simp only [zero]
    split <;> rfl

theorem exec_integer {op : Op} {memory : Memory μ} (correct : H.Correct memory)
    (encodes : op.encoding.Matches (.ofWord insn)) (zero : s.R 0 = 0)
    (defined : op.Defined (s.R insn.rs) (s.R insn.rt)) :
    execNoncontrol fp H insn s =
      if op = .hiLo .div ∧ DivOverflows (s.R insn.rs) (s.R insn.rt) then Exec.fault
      else .done (s.withState (op.step memory (.ofWord insn) s.state)) := by
  have rs : s.state.read (Fields.ofWord insn).rs = s.R insn.rs := s.read_state zero _
  have rt : s.state.read (Fields.ofWord insn).rt = s.R insn.rt := s.read_state zero _
  simp only [Op.step, rs, rt]
  cases op with
  | shift op =>
      rw [exec_shift encodes defined, if_neg (by simp), s.withState_write]
      rfl
  | register op =>
      rw [exec_register encodes defined, if_neg (by simp), s.withState_writeIfSome]
      rfl
  | immediate op =>
      rw [exec_immediate encodes defined, if_neg (by simp), s.withState_write]
      rfl
  | hiLo op =>
      rw [exec_hiLo encodes defined]
      simp only [Op.hiLo.injEq]
      rfl
  | load op =>
      rw [exec_load correct encodes, if_neg (by simp), s.withState_write]
      rfl
  | store op =>
      have fits : ¬(Op.store op = .hiLo .div ∧ DivOverflows (s.R insn.rs) (s.R insn.rt)) := by
        simp
      rw [exec_store correct encodes, if_neg fits]
      dsimp only
      split
      · rw [s.withState_write]
        rfl
      · rfl

/-- Every integer instruction does what the architecture defines, except for
the division that the host cannot do. -/
theorem integer_instructions_correct {op : Op} {memory : Memory μ}
    (correct : H.Correct memory) (encodes : op.encoding.Matches (.ofWord insn))
    (zero : s.R 0 = 0) (defined : op.Defined (s.R insn.rs) (s.R insn.rt)) :
    execNoncontrol fp H insn s
        = .done (s.withState (op.step memory (.ofWord insn) s.state))
      ↔ ¬(op = .hiLo .div ∧ DivOverflows (s.R insn.rs) (s.R insn.rt)) := by
  rw [exec_integer correct encodes zero defined]
  split
  · rename_i overflows
    simp [overflows]
  · rename_i fits
    simp [fits]

end Families

section Division

def guestAccesses : Memory GuestMemory where
  byte m addr := m.byte addr
  halfword m addr := m.half (addr ^^^ 2)
  word m addr := m.word addr
  doubleword m addr := m.doubleword addr
  wordLeft m addr rt := m.wordLeft addr rt
  wordRight m addr rt := m.wordRight addr rt
  doublewordLeft m addr rt := m.doublewordLeft addr rt
  doublewordRight m addr rt := m.doublewordRight addr rt
  storeByte m addr v := m.setByte (addr ^^^ 3) v
  storeHalfword m addr v := m.setHalf (addr ^^^ 2) v
  storeWord m addr v := m.setWord addr v
  storeDoubleword m addr v := m.setDoubleword addr v
  storeWordLeft m addr v := m.setWordLeft addr v
  storeWordRight m addr v := m.setWordRight addr v
  storeDoublewordLeft m addr v := m.setDoublewordLeft addr v
  storeDoublewordRight m addr v := m.setDoublewordRight addr v

theorem guestMacros_correct : guestMacros.Correct guestAccesses := by
  constructor <;> intros <;> rfl

def withOperands (a0 a1 : Gpr) : Machine GuestMemory Unit where
  ctx := { emptyContext with
    r := Function.update (Function.update (fun _ => 0) 4 a0) 5 a1 }
  rdram := fun _ => 0
  shadowActive := false
  shadowTouchedNative := false
  host := ()

def divInsn : Insn := 0x0085001A

theorem divInsn_matches : (Op.hiLo .div).encoding.Matches (.ofWord divInsn) := by
  constructor
  · decide
  · rintro funct ⟨⟩
    decide

/-- -7 by 2. -/
theorem div_negative : execNoncontrol wholeFloat guestMacros divInsn (withOperands (-7) 2)
    = .done ((withOperands (-7) 2).withState
      ((Op.hiLo .div).step guestAccesses (.ofWord divInsn) (withOperands (-7) 2).state)) :=
  (integer_instructions_correct guestMacros_correct divInsn_matches (by decide)
    ⟨by decide, by decide⟩).mpr (by decide)

theorem div_minimum_traps :
    (withOperands (-2147483648) (-1)).R 0 = 0
      ∧ (Op.hiLo .div).Defined ((withOperands (-2147483648) (-1)).R divInsn.rs)
        ((withOperands (-2147483648) (-1)).R divInsn.rt)
      ∧ ((Op.hiLo .div).step guestAccesses (.ofWord divInsn)
        (withOperands (-2147483648) (-1)).state).lo = -2147483648
      ∧ ((Op.hiLo .div).step guestAccesses (.ofWord divInsn)
        (withOperands (-2147483648) (-1)).state).hi = 0
      ∧ execNoncontrol wholeFloat guestMacros divInsn (withOperands (-2147483648) (-1))
        = .fault
      ∧ ¬ execNoncontrol wholeFloat guestMacros divInsn (withOperands (-2147483648) (-1))
        = .done ((withOperands (-2147483648) (-1)).withState
          ((Op.hiLo .div).step guestAccesses (.ofWord divInsn)
            (withOperands (-2147483648) (-1)).state)) := by
  have traps : execNoncontrol wholeFloat guestMacros divInsn (withOperands (-2147483648) (-1))
      = .fault := rfl
  refine ⟨by decide, ⟨by decide, by decide⟩, by decide, by decide, traps, ?_⟩
  rw [traps]
  nofun

end Division

end N64ModernRuntime.Librecomp
