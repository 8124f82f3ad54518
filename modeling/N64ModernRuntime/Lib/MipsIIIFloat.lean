import N64ModernRuntime.Lib.MipsIII

/-!
# The COP1 instructions of MIPS III

Arithmetic, comparison and conversion are operations of each format, at the
rounding mode in force; exception flags go with them.  An encoding that the
architecture does not define traps, and so does a conversion without a result.
With `fr` clear the 32 registers are the halves of 16: arithmetic on an odd
one is undefined, and a move reaches the upper half of the even one.
-/

set_option autoImplicit false

namespace MipsIII

inductive Comparison where
  | less
  | equal
  | greater
  | unordered
  deriving DecidableEq, Repr

/-- The predicate of `c.cond` with the low four bits `cond`. -/
def Comparison.Holds (cond : BitVec 4) (c : Comparison) : Bool :=
  match c with
  | .unordered => cond.getLsbD 0
  | .equal => cond.getLsbD 1
  | .less => cond.getLsbD 2
  | .greater => false

/-- `nearestAway` is no rounding mode of `fcr31`. -/
inductive Rounding where
  | nearest
  | zero
  | up
  | down
  | nearestAway
  deriving DecidableEq, Repr

def roundingMode (fcr31 : BitVec 32) : Rounding :=
  match fcr31.setWidth 2 with
  | 0#2 => .nearest
  | 1#2 => .zero
  | 2#2 => .up
  | _ => .down

structure FloatFormat (w : Nat) where
  add : BitVec w → BitVec w → BitVec w
  sub : BitVec w → BitVec w → BitVec w
  mul : BitVec w → BitVec w → BitVec w
  div : BitVec w → BitVec w → BitVec w
  sqrt : BitVec w → BitVec w
  abs : BitVec w → BitVec w
  neg : BitVec w → BitVec w
  compare : BitVec w → BitVec w → Comparison
  ofWord : BitVec 32 → BitVec w
  ofLong : BitVec 64 → BitVec w
  toWord : Rounding → BitVec w → Option (BitVec 32)
  toLong : Rounding → BitVec w → Option (BitVec 64)

structure FloatArithmetic where
  single : FloatFormat 32
  double : FloatFormat 64
  widen : BitVec 32 → BitVec 64
  narrow : BitVec 64 → BitVec 32

structure FloatState where
  gpr : Reg → Value
  fpr : Reg → BitVec 64
  fcr0 : BitVec 32
  fcr31 : BitVec 32
  fr : Bool

inductive Outcome where
  | state (s : FloatState)
  | undefined
  | trap

def lowHalf (v : BitVec 64) : BitVec 32 := v.setWidth 32

def highHalf (v : BitVec 64) : BitVec 32 := v.extractLsb' 32 32

namespace FloatState

variable (s : FloatState)

def read (r : Reg) : Value := if r = 0 then 0 else s.gpr r

def write (r : Reg) (v : Value) : FloatState :=
  if r = 0 then s else { s with gpr := Function.update s.gpr r v }

def Odd (r : Reg) : Prop := s.fr = false ∧ r.getLsbD 0 = true

instance (r : Reg) : Decidable (s.Odd r) := inferInstanceAs (Decidable (_ ∧ _))

def writeFpr (r : Reg) (v : BitVec 64) : FloatState :=
  { s with fpr := Function.update s.fpr r v }

def readWord (r : Reg) : BitVec 32 :=
  if s.Odd r then highHalf (s.fpr (r - 1)) else lowHalf (s.fpr r)

def writeWord (r : Reg) (v : BitVec 32) : FloatState :=
  if s.Odd r then s.writeFpr (r - 1) (v ++ lowHalf (s.fpr (r - 1)))
  else s.writeFpr r (highHalf (s.fpr r) ++ v)

/-- Bit 23 of `fcr31` is the condition. -/
def writeCondition (holds : Bool) : FloatState :=
  { s with fcr31 := if holds then s.fcr31 ||| 0x00800000#32
      else s.fcr31 &&& ~~~0x00800000#32 }

end FloatState

/-- How the registers hold values of a width. -/
structure Lane (w : Nat) where
  read : FloatState → Reg → BitVec w
  write : FloatState → Reg → BitVec w → FloatState

def wordLane : Lane 32 where
  read s r := lowHalf (s.fpr r)
  write s r v := s.writeFpr r (highHalf (s.fpr r) ++ v)

def doubleLane : Lane 64 where
  read s r := s.fpr r
  write := FloatState.writeFpr

section Step

variable (a : FloatArithmetic) (i : Fields) (s : FloatState)

def unary {v w : Nat} (source : Lane v) (target : Lane w) (f : BitVec v → BitVec w) :
    Outcome :=
  if s.Odd i.rd ∨ s.Odd i.sa then .undefined
  else .state (target.write s i.sa (f (source.read s i.rd)))

/-- `fd` becomes a function of `fs` that may have no result. -/
def convert {v w : Nat} (source : Lane v) (target : Lane w)
    (f : BitVec v → Option (BitVec w)) : Outcome :=
  if s.Odd i.rd ∨ s.Odd i.sa then .undefined
  else
    match f (source.read s i.rd) with
    | some v => .state (target.write s i.sa v)
    | none => .trap

def binary {w : Nat} (lane : Lane w) (f : BitVec w → BitVec w → BitVec w) : Outcome :=
  if s.Odd i.rd ∨ s.Odd i.rt ∨ s.Odd i.sa then .undefined
  else .state (lane.write s i.sa (f (lane.read s i.rd) (lane.read s i.rt)))

def compare {w : Nat} (lane : Lane w) (f : FloatFormat w) : Outcome :=
  if s.Odd i.rd ∨ s.Odd i.rt then .undefined
  else .state (s.writeCondition
    ((f.compare (lane.read s i.rd) (lane.read s i.rt)).Holds (i.funct.setWidth 4)))

def floatFunct {w : Nat} (lane : Lane w) (f : FloatFormat w) : Outcome :=
  match i.funct with
  | 0x00#6 => binary i s lane f.add
  | 0x01#6 => binary i s lane f.sub
  | 0x02#6 => binary i s lane f.mul
  | 0x03#6 => binary i s lane f.div
  | 0x04#6 => unary i s lane lane f.sqrt
  | 0x05#6 => unary i s lane lane f.abs
  | 0x06#6 => unary i s lane lane fun v => v
  | 0x07#6 => unary i s lane lane f.neg
  | 0x08#6 => convert i s lane doubleLane (f.toLong .nearest)
  | 0x09#6 => convert i s lane doubleLane (f.toLong .zero)
  | 0x0A#6 => convert i s lane doubleLane (f.toLong .up)
  | 0x0B#6 => convert i s lane doubleLane (f.toLong .down)
  | 0x0C#6 => convert i s lane wordLane (f.toWord .nearest)
  | 0x0D#6 => convert i s lane wordLane (f.toWord .zero)
  | 0x0E#6 => convert i s lane wordLane (f.toWord .up)
  | 0x0F#6 => convert i s lane wordLane (f.toWord .down)
  | 0x24#6 => convert i s lane wordLane (f.toWord (roundingMode s.fcr31))
  | 0x25#6 => convert i s lane doubleLane (f.toLong (roundingMode s.fcr31))
  | funct => if 0x30#6 ≤ funct then compare i s lane f else .trap

def floatStep : Outcome :=
  match i.rs with
  -- mfc1, dmfc1, cfc1
  | 0x00#5 => .state (s.write i.rt ((s.readWord i.rd).signExtend 64))
  | 0x01#5 => if s.Odd i.rd then .undefined else .state (s.write i.rt (s.fpr i.rd))
  | 0x02#5 =>
    if i.rd = 0 then .state (s.write i.rt (s.fcr0.signExtend 64))
    else if i.rd = 31 then .state (s.write i.rt (s.fcr31.signExtend 64))
    else .undefined
  -- mtc1, dmtc1, ctc1
  | 0x04#5 => .state (s.writeWord i.rd (lowHalf (s.read i.rt)))
  | 0x05#5 => if s.Odd i.rd then .undefined else .state (s.writeFpr i.rd (s.read i.rt))
  | 0x06#5 =>
    if i.rd = 0 then .state s
    else if i.rd = 31 then .state { s with fcr31 := lowHalf (s.read i.rt) }
    else .undefined
  -- S, D, W, L
  | 0x10#5 =>
    match i.funct with
    | 0x21#6 => unary i s wordLane doubleLane a.widen
    | _ => floatFunct i s wordLane a.single
  | 0x11#5 =>
    match i.funct with
    | 0x20#6 => unary i s doubleLane wordLane a.narrow
    | _ => floatFunct i s doubleLane a.double
  | 0x14#5 =>
    match i.funct with
    | 0x20#6 => unary i s wordLane wordLane a.single.ofWord
    | 0x21#6 => unary i s wordLane doubleLane a.double.ofWord
    | _ => .trap
  | 0x15#5 =>
    match i.funct with
    | 0x20#6 => unary i s doubleLane wordLane a.single.ofLong
    | 0x21#6 => unary i s doubleLane doubleLane a.double.ofLong
    | _ => .trap
  | _ => .trap

variable {i}

/-- The upper function fields are the comparisons. -/
theorem floatFunct_compare {w : Nat} (lane : Lane w) (f : FloatFormat w)
    (funct : 0x30#6 ≤ i.funct) : floatFunct i s lane f = compare i s lane f := by
  unfold floatFunct
  split <;> simp_all

theorem floatStep_single_compare (fmt : i.rs = 0x10#5) (funct : 0x30#6 ≤ i.funct) :
    floatStep a i s = compare i s wordLane a.single := by
  simp only [floatStep, fmt]
  split
  · simp_all
  · exact floatFunct_compare s _ _ funct

theorem floatStep_double_compare (fmt : i.rs = 0x11#5) (funct : 0x30#6 ≤ i.funct) :
    floatStep a i s = compare i s doubleLane a.double := by
  simp only [floatStep, fmt]
  split
  · simp_all
  · exact floatFunct_compare s _ _ funct

end Step

end MipsIII
