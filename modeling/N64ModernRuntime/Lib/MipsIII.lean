import Mathlib.Algebra.Ring.Int.Defs
import Mathlib.Algebra.Ring.Nat
import Mathlib.Logic.Function.Basic
import Mathlib.Data.Int.DivMod

/-!
# The integer instructions of MIPS III

An instruction is told by its opcode and, where that is zero, by its function
field.  What it computes is stated over the integers that the registers stand
for; a 32-bit result is the sign extension of the low word of that integer.
Overflow does not trap, dividing by zero leaves `hi` and `lo` as they are, and
a store-conditional finds its link unbroken.
-/

set_option autoImplicit false

namespace MipsIII

abbrev Reg := BitVec 5
abbrev Value := BitVec 64

structure Fields where
  opcode : BitVec 6
  rs : Reg
  rt : Reg
  rd : Reg
  sa : BitVec 5
  funct : BitVec 6
  immediate : BitVec 16

def Fields.ofWord (word : BitVec 32) : Fields where
  opcode := word.extractLsb' 26 6
  rs := word.extractLsb' 21 5
  rt := word.extractLsb' 16 5
  rd := word.extractLsb' 11 5
  sa := word.extractLsb' 6 5
  funct := word.extractLsb' 0 6
  immediate := word.extractLsb' 0 16

structure Encoding where
  opcode : BitVec 6
  funct : Option (BitVec 6)

def special (funct : BitVec 6) : Encoding := ⟨0x00#6, some funct⟩

def plain (opcode : BitVec 6) : Encoding := ⟨opcode, none⟩

def Encoding.Matches (encoding : Encoding) (i : Fields) : Prop :=
  i.opcode = encoding.opcode ∧ ∀ funct, encoding.funct = some funct → i.funct = funct

/-- A memory, through the accesses of the load and store instructions at an
effective address.  The unaligned loads take the register that they merge
into. -/
structure Memory (μ : Type) where
  byte : μ → Value → BitVec 8
  halfword : μ → Value → BitVec 16
  word : μ → Value → BitVec 32
  doubleword : μ → Value → Value
  wordLeft : μ → Value → Value → Value
  wordRight : μ → Value → Value → Value
  doublewordLeft : μ → Value → Value → Value
  doublewordRight : μ → Value → Value → Value
  storeByte : μ → Value → BitVec 8 → μ
  storeHalfword : μ → Value → BitVec 16 → μ
  storeWord : μ → Value → BitVec 32 → μ
  storeDoubleword : μ → Value → Value → μ
  storeWordLeft : μ → Value → Value → μ
  storeWordRight : μ → Value → Value → μ
  storeDoublewordLeft : μ → Value → Value → μ
  storeDoublewordRight : μ → Value → Value → μ

structure State (μ : Type) where
  gpr : Reg → Value
  hi : Value
  lo : Value
  mem : μ

def word (x : Int) : Value := (BitVec.ofInt 32 x).signExtend 64

def doubleword (x : Int) : Value := BitVec.ofInt 64 x

def unsignedWord (v : Value) : Nat := v.toNat % 2 ^ 32

def IsWord (v : Value) : Prop := v = (v.setWidth 32).signExtend 64

instance (v : Value) : Decidable (IsWord v) := inferInstanceAs (Decidable (_ = _))

namespace State

variable {μ : Type} (s : State μ)

/-- Register 0 is zero. -/
def read (r : Reg) : Value := if r = 0 then 0 else s.gpr r

def write (r : Reg) (v : Value) : State μ :=
  if r = 0 then s else { s with gpr := Function.update s.gpr r v }

def writeIfSome (r : Reg) (v : Option Value) : State μ :=
  match v with
  | some v => s.write r v
  | none => s

def writeHi (v : Value) : State μ := { s with hi := v }

def writeLo (v : Value) : State μ := { s with lo := v }

def writeMem (mem : μ) : State μ := { s with mem := mem }

end State

/-! The instructions by family.  `rs` and `rt` are what the registers hold; a
32-bit operation has an outcome only where its operands are words. -/

inductive ShiftOp where
  | sll | srl | sra | sllv | srlv | srav
  | dsll | dsrl | dsra | dsll32 | dsrl32 | dsra32 | dsllv | dsrlv | dsrav
  deriving DecidableEq, Repr

namespace ShiftOp

def encoding : ShiftOp → Encoding
  | sll => special 0x00#6
  | srl => special 0x02#6
  | sra => special 0x03#6
  | sllv => special 0x04#6
  | srlv => special 0x06#6
  | srav => special 0x07#6
  | dsllv => special 0x14#6
  | dsrlv => special 0x16#6
  | dsrav => special 0x17#6
  | dsll => special 0x38#6
  | dsrl => special 0x3A#6
  | dsra => special 0x3B#6
  | dsll32 => special 0x3C#6
  | dsrl32 => special 0x3E#6
  | dsra32 => special 0x3F#6

def Defined (op : ShiftOp) (rt : Value) : Prop :=
  match op with
  | sll | srl | sra | sllv | srlv | srav => IsWord rt
  | _ => True

def value (op : ShiftOp) (sa : Nat) (rs rt : Value) : Value :=
  match op with
  | sll => word (rt.toInt * 2 ^ sa)
  | srl => word (unsignedWord rt / 2 ^ sa : Nat)
  | sra => word (rt.toInt / 2 ^ sa)
  | sllv => word (rt.toInt * 2 ^ (rs.toNat % 32))
  | srlv => word (unsignedWord rt / 2 ^ (rs.toNat % 32) : Nat)
  | srav => word (rt.toInt / 2 ^ (rs.toNat % 32))
  | dsll => doubleword (rt.toInt * 2 ^ sa)
  | dsrl => doubleword (rt.toNat / 2 ^ sa : Nat)
  | dsra => doubleword (rt.toInt / 2 ^ sa)
  | dsll32 => doubleword (rt.toInt * 2 ^ (sa + 32))
  | dsrl32 => doubleword (rt.toNat / 2 ^ (sa + 32) : Nat)
  | dsra32 => doubleword (rt.toInt / 2 ^ (sa + 32))
  | dsllv => doubleword (rt.toInt * 2 ^ (rs.toNat % 64))
  | dsrlv => doubleword (rt.toNat / 2 ^ (rs.toNat % 64) : Nat)
  | dsrav => doubleword (rt.toInt / 2 ^ (rs.toNat % 64))

end ShiftOp

/-- Register operations; conditional moves are the last two. -/
inductive RegisterOp where
  | add | addu | sub | subu | dadd | daddu | dsub | dsubu
  | and | or | xor | nor | slt | sltu | movn | movz
  deriving DecidableEq, Repr

namespace RegisterOp

def encoding : RegisterOp → Encoding
  | movz => special 0x0A#6
  | movn => special 0x0B#6
  | add => special 0x20#6
  | addu => special 0x21#6
  | sub => special 0x22#6
  | subu => special 0x23#6
  | and => special 0x24#6
  | or => special 0x25#6
  | xor => special 0x26#6
  | nor => special 0x27#6
  | slt => special 0x2A#6
  | sltu => special 0x2B#6
  | dadd => special 0x2C#6
  | daddu => special 0x2D#6
  | dsub => special 0x2E#6
  | dsubu => special 0x2F#6

def Defined (op : RegisterOp) (rs rt : Value) : Prop :=
  match op with
  | add | addu | sub | subu => IsWord rs ∧ IsWord rt
  | _ => True

/-- `none` is a move whose condition fails. -/
def value (op : RegisterOp) (rs rt : Value) : Option Value :=
  match op with
  | add | addu => some (word (rs.toInt + rt.toInt))
  | sub | subu => some (word (rs.toInt - rt.toInt))
  | dadd | daddu => some (doubleword (rs.toInt + rt.toInt))
  | dsub | dsubu => some (doubleword (rs.toInt - rt.toInt))
  | and => some (rs &&& rt)
  | or => some (rs ||| rt)
  | xor => some (rs ^^^ rt)
  | nor => some (~~~(rs ||| rt))
  | slt => some (if rs.toInt < rt.toInt then 1 else 0)
  | sltu => some (if rs.toNat < rt.toNat then 1 else 0)
  | movn => if rt.toNat = 0 then none else some rs
  | movz => if rt.toNat = 0 then some rs else none

end RegisterOp

inductive ImmediateOp where
  | addi | addiu | slti | sltiu | andi | ori | xori | lui | daddi | daddiu
  deriving DecidableEq, Repr

namespace ImmediateOp

def encoding : ImmediateOp → Encoding
  | addi => plain 0x08#6
  | addiu => plain 0x09#6
  | slti => plain 0x0A#6
  | sltiu => plain 0x0B#6
  | andi => plain 0x0C#6
  | ori => plain 0x0D#6
  | xori => plain 0x0E#6
  | lui => plain 0x0F#6
  | daddi => plain 0x18#6
  | daddiu => plain 0x19#6

def Defined (op : ImmediateOp) (rs : Value) : Prop :=
  match op with
  | addi | addiu => IsWord rs
  | _ => True

def value (op : ImmediateOp) (immediate : BitVec 16) (rs : Value) : Value :=
  let signed := immediate.toInt
  let unsigned := immediate.toNat
  match op with
  | addi | addiu => word (rs.toInt + signed)
  | slti => if rs.toInt < signed then 1 else 0
  | sltiu => if rs.toNat < (doubleword signed).toNat then 1 else 0
  | andi => rs &&& doubleword unsigned
  | ori => rs ||| doubleword unsigned
  | xori => rs ^^^ doubleword unsigned
  | lui => word (signed * 2 ^ 16)
  | daddi | daddiu => doubleword (rs.toInt + signed)

end ImmediateOp

inductive HiLoOp where
  | mfhi | mthi | mflo | mtlo | mult | multu | div | divu
  deriving DecidableEq, Repr

namespace HiLoOp

def encoding : HiLoOp → Encoding
  | mfhi => special 0x10#6
  | mthi => special 0x11#6
  | mflo => special 0x12#6
  | mtlo => special 0x13#6
  | mult => special 0x18#6
  | multu => special 0x19#6
  | div => special 0x1A#6
  | divu => special 0x1B#6

def Defined (op : HiLoOp) (rs rt : Value) : Prop :=
  match op with
  | mult | multu | div | divu => IsWord rs ∧ IsWord rt
  | _ => True

def step {μ : Type} (op : HiLoOp) (rd : Reg) (rs rt : Value) (s : State μ) : State μ :=
  match op with
  | mfhi => s.write rd s.hi
  | mthi => s.writeHi rs
  | mflo => s.write rd s.lo
  | mtlo => s.writeLo rs
  | mult =>
    let product := rs.toInt * rt.toInt
    (s.writeLo (word product)).writeHi (word (product / 2 ^ 32))
  | multu =>
    let product := unsignedWord rs * unsignedWord rt
    (s.writeLo (word product)).writeHi (word (product / 2 ^ 32 : Nat))
  | div =>
    if rt.toInt = 0 then s
    else (s.writeLo (word (rs.toInt.tdiv rt.toInt))).writeHi (word (rs.toInt.tmod rt.toInt))
  | divu =>
    if unsignedWord rt = 0 then s
    else (s.writeLo (word (unsignedWord rs / unsignedWord rt : Nat))).writeHi
      (word (unsignedWord rs % unsignedWord rt : Nat))

end HiLoOp

inductive LoadOp where
  | lb | lh | lw | lbu | lhu | lwu | ld | lwl | lwr | ldl | ldr | ll
  deriving DecidableEq, Repr

namespace LoadOp

def encoding : LoadOp → Encoding
  | ldl => plain 0x1A#6
  | ldr => plain 0x1B#6
  | lb => plain 0x20#6
  | lh => plain 0x21#6
  | lwl => plain 0x22#6
  | lw => plain 0x23#6
  | lbu => plain 0x24#6
  | lhu => plain 0x25#6
  | lwr => plain 0x26#6
  | lwu => plain 0x27#6
  | ll => plain 0x30#6
  | ld => plain 0x37#6

def value {μ : Type} (memory : Memory μ) (op : LoadOp) (m : μ) (addr rt : Value) : Value :=
  match op with
  | lb => doubleword (memory.byte m addr).toInt
  | lh => doubleword (memory.halfword m addr).toInt
  | lw | ll => doubleword (memory.word m addr).toInt
  | lbu => doubleword (memory.byte m addr).toNat
  | lhu => doubleword (memory.halfword m addr).toNat
  | lwu => doubleword (memory.word m addr).toNat
  | ld => memory.doubleword m addr
  | lwl => memory.wordLeft m addr rt
  | lwr => memory.wordRight m addr rt
  | ldl => memory.doublewordLeft m addr rt
  | ldr => memory.doublewordRight m addr rt

end LoadOp

inductive StoreOp where
  | sb | sh | sw | sd | swl | swr | sdl | sdr | sc
  deriving DecidableEq, Repr

namespace StoreOp

def encoding : StoreOp → Encoding
  | sb => plain 0x28#6
  | sh => plain 0x29#6
  | swl => plain 0x2A#6
  | sw => plain 0x2B#6
  | sdl => plain 0x2C#6
  | sdr => plain 0x2D#6
  | swr => plain 0x2E#6
  | sc => plain 0x38#6
  | sd => plain 0x3F#6

def memory {μ : Type} (memory : Memory μ) (op : StoreOp) (m : μ) (addr rt : Value) : μ :=
  match op with
  | sb => memory.storeByte m addr (BitVec.ofInt 8 rt.toInt)
  | sh => memory.storeHalfword m addr (BitVec.ofInt 16 rt.toInt)
  | sw | sc => memory.storeWord m addr (BitVec.ofInt 32 rt.toInt)
  | sd => memory.storeDoubleword m addr rt
  | swl => memory.storeWordLeft m addr rt
  | swr => memory.storeWordRight m addr rt
  | sdl => memory.storeDoublewordLeft m addr rt
  | sdr => memory.storeDoublewordRight m addr rt

end StoreOp

inductive Op where
  | shift (op : ShiftOp)
  | register (op : RegisterOp)
  | immediate (op : ImmediateOp)
  | hiLo (op : HiLoOp)
  | load (op : LoadOp)
  | store (op : StoreOp)
  deriving DecidableEq, Repr

namespace Op

def encoding : Op → Encoding
  | shift op => op.encoding
  | register op => op.encoding
  | immediate op => op.encoding
  | hiLo op => op.encoding
  | load op => op.encoding
  | store op => op.encoding

def Defined (op : Op) (rs rt : Value) : Prop :=
  match op with
  | shift op => op.Defined rt
  | register op => op.Defined rs rt
  | immediate op => op.Defined rs
  | hiLo op => op.Defined rs rt
  | load _ => True
  | store _ => True

def step {μ : Type} (memory : Memory μ) (op : Op) (i : Fields) (s : State μ) : State μ :=
  let rs := s.read i.rs
  let rt := s.read i.rt
  let addr := rs + doubleword i.immediate.toInt
  match op with
  | shift op => s.write i.rd (op.value i.sa.toNat rs rt)
  | register op => s.writeIfSome i.rd (op.value rs rt)
  | immediate op => s.write i.rt (op.value i.immediate rs)
  | hiLo op => op.step i.rd rs rt s
  | load op => s.write i.rt (op.value memory s.mem addr rt)
  | store op =>
    let stored := s.writeMem (op.memory memory s.mem addr rt)
    if op = .sc then stored.write i.rt 1 else stored

end Op

/-! Machine arithmetic in terms of the integers. -/

section Arithmetic

variable {w v : Nat}

theorem eq_ofInt {x : BitVec w} {y : Int} (same : x.toInt = y) : x = BitVec.ofInt w y := by
  rw [← same, BitVec.ofInt_toInt]

theorem setWidth_eq_ofInt (x : BitVec w) (narrows : v ≤ w) :
    x.setWidth v = BitVec.ofInt v x.toInt := by
  apply BitVec.eq_of_toInt_eq
  rw [← BitVec.signExtend_eq_setWidth_of_le x narrows, BitVec.toInt_ofInt,
    BitVec.toInt_signExtend_eq_toInt_bmod_of_le x narrows]

theorem setWidth_eq_ofInt_toNat (x : BitVec w) : x.setWidth v = BitVec.ofInt v x.toNat := by
  rw [BitVec.ofInt_natCast, BitVec.ofNat_toNat]

theorem signExtend_eq_ofInt (x : BitVec w) (widens : w ≤ v) :
    x.signExtend v = BitVec.ofInt v x.toInt :=
  eq_ofInt (BitVec.toInt_signExtend_of_le widens)

theorem add_eq_ofInt (x y : BitVec w) : x + y = BitVec.ofInt w (x.toInt + y.toInt) := by
  rw [BitVec.ofInt_add, BitVec.ofInt_toInt, BitVec.ofInt_toInt]

theorem sub_eq_ofInt (x y : BitVec w) : x - y = BitVec.ofInt w (x.toInt - y.toInt) := by
  apply BitVec.eq_of_toInt_eq
  rw [BitVec.toInt_sub, BitVec.toInt_ofInt]

theorem shiftLeft_eq_ofInt (x : BitVec w) (n : Nat) :
    x <<< n = BitVec.ofInt w (x.toInt * 2 ^ n) := by
  have power : BitVec.twoPow w n = BitVec.ofInt w (2 ^ n) := by
    apply BitVec.eq_of_toNat_eq
    rw [BitVec.toNat_twoPow, show (2 : Int) ^ n = ((2 ^ n : Nat) : Int) by norm_cast,
      BitVec.ofInt_natCast, BitVec.toNat_ofNat]
  rw [BitVec.shiftLeft_eq_mul_twoPow, power, BitVec.ofInt_mul, BitVec.ofInt_toInt]

theorem ushiftRight_eq_ofInt (x : BitVec w) (n : Nat) :
    x >>> n = BitVec.ofInt w (x.toNat / 2 ^ n : Nat) := by
  apply BitVec.eq_of_toNat_eq
  rw [BitVec.ofInt_natCast, BitVec.toNat_ushiftRight, BitVec.toNat_ofNat,
    Nat.shiftRight_eq_div_pow, Nat.mod_eq_of_lt]
  exact Nat.lt_of_le_of_lt (Nat.div_le_self _ _) x.isLt

theorem sshiftRight_eq_ofInt (x : BitVec w) (n : Nat) :
    x.sshiftRight n = BitVec.ofInt w (x.toInt / 2 ^ n) := by
  apply eq_ofInt
  rw [BitVec.toInt_sshiftRight, Int.shiftRight_eq_div_pow]
  norm_cast

theorem sdiv_eq_ofInt (x y : BitVec w) :
    x.sdiv y = BitVec.ofInt w (x.toInt.tdiv y.toInt) := by
  apply BitVec.eq_of_toInt_eq
  rw [BitVec.toInt_sdiv, BitVec.toInt_ofInt]

theorem srem_eq_ofInt (x y : BitVec w) :
    x.srem y = BitVec.ofInt w (x.toInt.tmod y.toInt) :=
  eq_ofInt (BitVec.toInt_srem x y)

theorem udiv_eq_ofInt (x y : BitVec w) :
    x / y = BitVec.ofInt w (x.toNat / y.toNat : Nat) := by
  rw [BitVec.ofInt_natCast, BitVec.udiv_def]

theorem umod_eq_ofInt (x y : BitVec w) :
    x % y = BitVec.ofInt w (x.toNat % y.toNat : Nat) := by
  rw [BitVec.ofInt_natCast, BitVec.umod_def]

end Arithmetic

section Words

variable {x y : Value}

theorem IsWord.toInt (is : IsWord x) : (x.setWidth 32).toInt = x.toInt := by
  have same := congrArg BitVec.toInt is
  rw [BitVec.toInt_signExtend_of_le (by decide)] at same
  exact same.symm

theorem unsignedWord_eq (x : Value) : (x.setWidth 32).toNat = unsignedWord x :=
  BitVec.toNat_setWidth 32 x

/-- The bounds that keep the product of two words in a doubleword. -/
theorem IsWord.bounds (is : IsWord x) : -2 ^ 31 ≤ x.toInt ∧ x.toInt < 2 ^ 31 := by
  have low := BitVec.le_toInt (x.setWidth 32)
  have high := BitVec.toInt_lt (x := x.setWidth 32)
  rw [is.toInt] at low high
  exact ⟨low, high⟩

theorem IsWord.extend (is : IsWord x) : (x.setWidth 32).signExtend 64 = x := is.symm

theorem IsWord.toInt_mul (isx : IsWord x) (isy : IsWord y) :
    (x * y).toInt = x.toInt * y.toInt := by
  obtain ⟨xlow, xhigh⟩ := isx.bounds
  obtain ⟨ylow, yhigh⟩ := isy.bounds
  have size : (x.toInt * y.toInt).natAbs ≤ 2 ^ 31 * 2 ^ 31 := by
    rw [Int.natAbs_mul]
    apply Nat.mul_le_mul <;> omega
  rw [BitVec.toInt_mul, Int.bmod_eq_of_le] <;> omega

theorem toNat_widened (x : Value) : ((x.setWidth 32).setWidth 64).toNat = unsignedWord x := by
  rw [BitVec.toNat_setWidth, unsignedWord_eq, Nat.mod_eq_of_lt]
  exact Nat.lt_of_lt_of_le (Nat.mod_lt _ (by decide)) (by decide)

theorem toNat_mul_words (x y : Value) :
    ((x.setWidth 32).setWidth 64 * (y.setWidth 32).setWidth 64).toNat
      = unsignedWord x * unsignedWord y := by
  have size : unsignedWord x * unsignedWord y < 2 ^ 32 * 2 ^ 32 :=
    Nat.mul_lt_mul'' (Nat.mod_lt _ (by decide)) (Nat.mod_lt _ (by decide))
  rw [BitVec.toNat_mul, toNat_widened, toNat_widened, Nat.mod_eq_of_lt]
  exact Nat.lt_of_lt_of_le size (by decide)

end Words

end MipsIII
