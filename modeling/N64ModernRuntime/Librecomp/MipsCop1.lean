import N64ModernRuntime.Lib.MipsIIIFloat
import N64ModernRuntime.Librecomp.GuestMemory

/-!
# mips_interp.cpp: the COP1 block

`FCR31` is what the interpreter keeps in `cop0_regs[1]`, and `FCR0` what
`cfc1` reads from `cop0_regs[0]`.
-/

set_option autoImplicit false

namespace N64ModernRuntime.Librecomp

open MipsIII

/-- The host does the arithmetic of the architecture.  A cast to an integer
truncates; what it does outside the range of the integer is left open. -/
structure HostFormat.Implements {w : Nat} (fp : HostFormat w) (f : FloatFormat w)
    (toInt32 : BitVec w → BitVec 32) : Prop where
  add : fp.add = f.add
  sub : fp.sub = f.sub
  mul : fp.mul = f.mul
  div : fp.div = f.div
  sqrt : fp.sqrt = f.sqrt
  fabs : fp.fabs = f.abs
  neg : fp.neg = f.neg
  ofInt32 : fp.ofInt32 = f.ofWord
  casts : ∀ x v, f.toWord .zero x = some v → toInt32 x = v
  trunc : ∀ x v, f.toWord .zero x = some v → toInt32 (fp.trunc x) = v
  round : ∀ x v, f.toWord .nearestAway x = some v → toInt32 (fp.round x) = v
  ceil : ∀ x v, f.toWord .up x = some v → toInt32 (fp.ceil x) = v
  floor : ∀ x v, f.toWord .down x = some v → toInt32 (fp.floor x) = v

structure HostFloat.Implements (fp : HostFloat) (a : FloatArithmetic) : Prop where
  float : fp.float.Implements a.single fun x => fp.toInt32 (fp.promote x)
  double : fp.double.Implements a.double fp.toInt32
  promote : fp.promote = a.widen
  demote : fp.demote = a.narrow
  lt : ∀ x y, fp.lt x y = decide (a.double.compare x y = .less)
  eq : ∀ x y, fp.eq x y = decide (a.double.compare x y = .equal)
  /-- Every single is a double. -/
  widened : ∀ x y, a.double.compare (a.widen x) (a.widen y) = a.single.compare x y

namespace Machine

variable {μ ε : Type} (s : Machine μ ε)

def floatState : FloatState :=
  ⟨s.ctx.r, s.ctx.f, s.ctx.cop0Regs 0, s.ctx.cop0Regs 1, s.ctx.mips3FloatMode⟩

def withFloat (t : FloatState) : Machine μ ε :=
  { s with ctx := { s.ctx with
      r := t.gpr, f := t.fpr, cop0Regs := Function.update s.ctx.cop0Regs 1 t.fcr31 } }

theorem withFloat_floatState : s.withFloat s.floatState = s := by
  simp [withFloat, floatState]

theorem withFloat_write (i : Reg) (v : Value) :
    s.withFloat (s.floatState.write i v) = s.setR i v := by
  unfold FloatState.write setR
  split
  · exact s.withFloat_floatState
  · simp [withFloat, floatState]

theorem withFloat_writeFpr (i : Reg) (v : BitVec 64) :
    s.withFloat (s.floatState.writeFpr i v) = s.setD i v := by
  simp [withFloat, floatState, FloatState.writeFpr, setD]

theorem withFloat_writeCondition (holds : Bool) :
    s.withFloat (s.floatState.writeCondition holds) = s.setCond holds := rfl

theorem setD_inj {i : BitVec 5} {v w : BitVec 64} : s.setD i v = s.setD i w ↔ v = w := by
  constructor
  · intro same
    have at_i := congrArg (fun t : Machine μ ε => t.ctx.f i) same
    simpa [setD] using at_i
  · rintro rfl
    rfl

theorem low_append (x v : BitVec 32) : low (x ++ v) = v := by
  ext i bound
  simp only [low, BitVec.getElem_setWidth, BitVec.getLsbD_append]
  simp [bound]

theorem setS_inj {i : BitVec 5} {v w : BitVec 32} : s.setS i v = s.setS i w ↔ v = w := by
  constructor
  · intro same
    have halves := s.setD_inj.mp same
    have lows := congrArg low halves
    rwa [low_append, low_append] at lows
  · rintro rfl
    rfl

theorem setCond_inj {b c : Bool} : s.setCond b = s.setCond c ↔ b = c := by
  constructor
  · intro same
    have bits := congrArg (fun t : Machine μ ε => (t.ctx.cop0Regs 1).getLsbD 23) same
    cases b <;> cases c <;> simp [setCond, setCop0] at bits ⊢
  · rintro rfl
    rfl

end Machine

section PerformsFloat

variable {μ ε : Type}

/-- The word is rejected and nothing changes, or it has done what the
architecture defines; where that is undefined, anything. -/
def PerformsFloat (s : Machine μ ε) (outcome : Outcome) : Exec μ ε → Prop
  | .done s' =>
    match outcome with
    | .state t => s' = s.withFloat t
    | .undefined => True
    | .trap => False
  | .unimplemented s' => s' = s
  | .fault => False

variable {s s' : Machine μ ε} {i : Fields}

theorem withFloat_writeWord (r : Reg) (v : BitVec 32) :
    s.withFloat (wordLane.write s.floatState r v) = s.setS r v :=
  s.withFloat_writeFpr r _

theorem withFloat_writeDouble (r : Reg) (v : BitVec 64) :
    s.withFloat (doubleLane.write s.floatState r v) = s.setD r v :=
  s.withFloat_writeFpr r v

theorem performs_unary {v w : Nat} {source : Lane v} {target : Lane w}
    {f : BitVec v → BitVec w} :
    PerformsFloat s (unary i s.floatState source target f) (.done s')
      ↔ s.floatState.Odd i.rd ∨ s.floatState.Odd i.sa
        ∨ s' = s.withFloat
          (target.write s.floatState i.sa (f (source.read s.floatState i.rd))) := by
  unfold unary
  split
  · rename_i odd
    rcases odd with odd | odd <;> simp [PerformsFloat, odd]
  · rename_i even
    obtain ⟨fs, fd⟩ := not_or.mp even
    simp only [PerformsFloat, fs, fd, false_or]

theorem performs_binary {w : Nat} {lane : Lane w} {f : BitVec w → BitVec w → BitVec w}
    (done : s' = s.withFloat (lane.write s.floatState i.sa
      (f (lane.read s.floatState i.rd) (lane.read s.floatState i.rt)))) :
    PerformsFloat s (binary i s.floatState lane f) (.done s') := by
  unfold binary
  split
  · trivial
  · exact done

theorem performs_convert {v w : Nat} {source : Lane v} {target : Lane w}
    {f : BitVec v → Option (BitVec w)} :
    PerformsFloat s (convert i s.floatState source target f) (.done s')
      ↔ s.floatState.Odd i.rd ∨ s.floatState.Odd i.sa
        ∨ ∃ x, f (source.read s.floatState i.rd) = some x
          ∧ s' = s.withFloat (target.write s.floatState i.sa x) := by
  unfold convert
  split
  · rename_i odd
    rcases odd with odd | odd <;> simp [PerformsFloat, odd]
  · rename_i even
    obtain ⟨fs, fd⟩ := not_or.mp even
    simp only [fs, fd, false_or]
    cases result : f (source.read s.floatState i.rd) with
    | none => simp [PerformsFloat]
    | some x => simp [PerformsFloat]

theorem performs_compare {w : Nat} {lane : Lane w} {f : FloatFormat w} {b : Bool} :
    PerformsFloat s (compare i s.floatState lane f) (.done (s.setCond b))
      ↔ s.floatState.Odd i.rd ∨ s.floatState.Odd i.rt
        ∨ b = (f.compare (lane.read s.floatState i.rd) (lane.read s.floatState i.rt)).Holds
          (i.funct.setWidth 4) := by
  unfold MipsIII.compare
  split
  · rename_i odd
    rcases odd with odd | odd <;> simp [PerformsFloat, odd]
  · rename_i even
    obtain ⟨fs, ft⟩ := not_or.mp even
    simp only [PerformsFloat, fs, ft, false_or, s.withFloat_writeCondition, s.setCond_inj]

end PerformsFloat

/-! Where the interpreter and the architecture differ. -/

def PredicateAgrees (cond : BitVec 4) (c : Comparison) : Prop :=
  match cond with
  | 0x0#4 | 0x8#4 => c ≠ .equal
  | 0x1#4 => c ≠ .unordered
  | 0x3#4 | 0xB#4 => c ≠ .unordered
  | 0x5#4 | 0xD#4 => c = .greater
  | 0x7#4 | 0xF#4 => c = .equal ∨ c = .greater
  | 0x9#4 => c = .less ∨ c = .greater
  | _ => True

instance (cond : BitVec 4) (c : Comparison) : Decidable (PredicateAgrees cond c) := by
  unfold PredicateAgrees
  split <;> infer_instance

theorem condPredicate_agrees (cond : BitVec 4) (c : Comparison) :
    condPredicate cond (c = .less) (c = .equal) = c.Holds cond ↔ PredicateAgrees cond c := by
  revert cond
  cases c <;> decide

def Computes (funct : BitVec 6) : Prop :=
  funct ∈ [0x00#6, 0x01#6, 0x02#6, 0x03#6, 0x04#6, 0x05#6, 0x06#6, 0x07#6, 0x0C#6, 0x0D#6,
    0x0E#6, 0x0F#6, 0x20#6, 0x21#6, 0x24#6] ∨ 0x30#6 ≤ funct

/-- In the formats S and D, the word `insn` does what the architecture
defines: rounding to nearest may not take the ties away from zero, `cvt.w`
may not truncate, and the predicate has to be one that is right for the
operands. -/
def FunctFaithful {w : Nat} (lane : Lane w) (f : FloatFormat w) (i : Fields)
    (s : FloatState) : Prop :=
  match i.funct with
  | 0x0C#6 =>
    s.Odd i.rd ∨ s.Odd i.sa
      ∨ f.toWord .nearest (lane.read s i.rd) = f.toWord .nearestAway (lane.read s i.rd)
  | 0x24#6 =>
    s.Odd i.rd ∨ s.Odd i.sa
      ∨ f.toWord (roundingMode s.fcr31) (lane.read s i.rd) = f.toWord .zero (lane.read s i.rd)
  | funct =>
    0x30#6 ≤ funct → s.Odd i.rd ∨ s.Odd i.rt
      ∨ PredicateAgrees (funct.setWidth 4)
        (f.compare (lane.read s i.rd) (lane.read s i.rt))

/-- Where a COP1 word is executed as the architecture defines it, or rejected. -/
def Cop1Faithful (a : FloatArithmetic) (i : Fields) (s : FloatState) : Prop :=
  match i.rs with
  -- a move from an odd register with `fr` clear takes the wrong word
  | 0x00#5 =>
    s.Odd i.rd → i.rt = 0 ∨ lowHalf (s.fpr i.rd) = highHalf (s.fpr (i.rd - 1))
  -- FCR31 is read as FCR0 and cannot be written
  | 0x02#5 => i.rd = 31 → i.rt = 0 ∨ s.fcr0 = s.fcr31
  | 0x04#5 =>
    s.Odd i.rd → lowHalf (s.read i.rt) = lowHalf (s.fpr i.rd)
      ∧ lowHalf (s.read i.rt) = highHalf (s.fpr (i.rd - 1))
  | 0x06#5 => i.rd = 31 → lowHalf (s.read i.rt) = s.fcr31
  -- `cvt.s.s` and `cvt.d.d` do not exist
  | 0x10#5 => i.funct ≠ 0x20#6 ∧ FunctFaithful wordLane a.single i s
  | 0x11#5 => i.funct ≠ 0x21#6 ∧ FunctFaithful doubleLane a.double i s
  -- of the formats W and L there are conversions only, and L is taken for S
  | 0x14#5 => Computes i.funct → i.funct = 0x20#6 ∨ i.funct = 0x21#6
  | 0x15#5 =>
    Computes i.funct →
      i.funct = 0x20#6 ∧ (s.Odd i.rd ∨ s.Odd i.sa
        ∨ a.single.ofLong (s.fpr i.rd) = a.narrow (a.widen (lowHalf (s.fpr i.rd))))
      ∨ i.funct = 0x21#6 ∧ (s.Odd i.rd ∨ s.Odd i.sa
        ∨ a.double.ofLong (s.fpr i.rd) = a.widen (lowHalf (s.fpr i.rd)))
  | _ => True

def ConvertsInRange {w : Nat} (f : FloatFormat w) (funct : BitVec 6) (x : BitVec w) : Prop :=
  match funct with
  | 0x0C#6 => (f.toWord .nearestAway x).isSome
  | 0x0D#6 => (f.toWord .zero x).isSome
  | 0x0E#6 => (f.toWord .up x).isSome
  | 0x0F#6 => (f.toWord .down x).isSome
  | 0x24#6 => (f.toWord .zero x).isSome
  | _ => True

section Formats

variable {μ ε : Type} {fp : HostFloat} {a : FloatArithmetic} {insn : Insn}
  {s : Machine μ ε}

theorem performs_toWord {w : Nat} {lane : Lane w} {f : FloatFormat w} {mode mode' : Rounding}
    {i : Fields} {y : BitVec 32}
    (host : ∀ v, f.toWord mode' (lane.read s.floatState i.rd) = some v → y = v)
    (inRange : (f.toWord mode' (lane.read s.floatState i.rd)).isSome) :
    PerformsFloat s (convert i s.floatState lane wordLane (f.toWord mode)) (.done (s.setS i.sa y))
      ↔ s.floatState.Odd i.rd ∨ s.floatState.Odd i.sa
        ∨ f.toWord mode (lane.read s.floatState i.rd)
          = f.toWord mode' (lane.read s.floatState i.rd) := by
  obtain ⟨v, converted⟩ := Option.isSome_iff_exists.mp inRange
  rw [performs_convert, converted, host v converted]
  simp only [withFloat_writeWord, s.setS_inj, exists_eq_right']

theorem performs_unary_done {v w : Nat} {source : Lane v} {target : Lane w}
    {f : BitVec v → BitVec w} {i : Fields} {s' : Machine μ ε}
    (done : s' = s.withFloat
      (target.write s.floatState i.sa (f (source.read s.floatState i.rd)))) :
    PerformsFloat s (unary i s.floatState source target f) (.done s') :=
  performs_unary.mpr (.inr (.inr done))

theorem performs_toWord_done {w : Nat} {lane : Lane w} {f : FloatFormat w} {mode : Rounding}
    {i : Fields} {y : BitVec 32}
    (host : ∀ v, f.toWord mode (lane.read s.floatState i.rd) = some v → y = v)
    (inRange : (f.toWord mode (lane.read s.floatState i.rd)).isSome) :
    PerformsFloat s (convert i s.floatState lane wordLane (f.toWord mode))
      (.done (s.setS i.sa y)) :=
  (performs_toWord host inRange).mpr (.inr (.inr rfl))

theorem execCop1Compute_compare (upper : 0x30#6 ≤ insn.fn) :
    execCop1Compute fp insn s = .done (s.setCond (condPredicate (insn.fn.setWidth 4)
      (if insn.rs = 0x11#5 then fp.lt (s.getD insn.rd) (s.getD insn.rt)
        else fp.lt (fp.promote (s.getS insn.rd)) (fp.promote (s.getS insn.rt)))
      (if insn.rs = 0x11#5 then fp.eq (s.getD insn.rd) (s.getD insn.rt)
        else fp.eq (fp.promote (s.getS insn.rd)) (fp.promote (s.getS insn.rt))))) := by
  unfold execCop1Compute
  split <;> simp_all
  split <;> rfl

theorem functFaithful_compare {w : Nat} (lane : Lane w) (f : FloatFormat w) {i : Fields}
    (st : FloatState) (upper : 0x30#6 ≤ i.funct) :
    FunctFaithful lane f i st ↔ st.Odd i.rd ∨ st.Odd i.rt
      ∨ PredicateAgrees (i.funct.setWidth 4)
        (f.compare (lane.read st i.rd) (lane.read st i.rt)) := by
  unfold FunctFaithful
  split <;> simp_all

theorem functFaithful_of_neither {w : Nat} (lane : Lane w) (f : FloatFormat w) {i : Fields}
    (st : FloatState) (lower : ¬0x30#6 ≤ i.funct) (rounds : i.funct ≠ 0x0C#6)
    (converts : i.funct ≠ 0x24#6) : FunctFaithful lane f i st := by
  unfold FunctFaithful
  split
  · contradiction
  · contradiction
  · exact fun upper => absurd upper lower

theorem single_compares (implements : fp.Implements a) (fmt : insn.rs = 0x10#5)
    (upper : 0x30#6 ≤ insn.fn) :
    PerformsFloat s (floatStep a (.ofWord insn) s.floatState) (execCop1Compute fp insn s)
      ↔ FunctFaithful wordLane a.single (.ofWord insn) s.floatState := by
  rw [floatStep_single_compare a s.floatState fmt upper, execCop1Compute_compare upper,
    functFaithful_compare wordLane a.single s.floatState upper, performs_compare,
    ← condPredicate_agrees, fmt, if_neg (by decide), if_neg (by decide), implements.lt,
    implements.eq, implements.promote, implements.widened]
  rfl

theorem double_compares (implements : fp.Implements a) (fmt : insn.rs = 0x11#5)
    (upper : 0x30#6 ≤ insn.fn) :
    PerformsFloat s (floatStep a (.ofWord insn) s.floatState) (execCop1Compute fp insn s)
      ↔ FunctFaithful doubleLane a.double (.ofWord insn) s.floatState := by
  rw [floatStep_double_compare a s.floatState fmt upper, execCop1Compute_compare upper,
    functFaithful_compare doubleLane a.double s.floatState upper, performs_compare,
    ← condPredicate_agrees, fmt, if_pos rfl, if_pos rfl, implements.lt, implements.eq]
  rfl

theorem single_performs (implements : fp.Implements a) (fmt : insn.rs = 0x10#5)
    (inRange : ConvertsInRange a.single insn.fn (s.getS insn.rd)) :
    PerformsFloat s (floatStep a (.ofWord insn) s.floatState) (execCop1Compute fp insn s)
      ↔ insn.fn ≠ 0x20#6 ∧ FunctFaithful wordLane a.single (.ofWord insn) s.floatState := by
  by_cases upper : 0x30#6 ≤ insn.fn
  · have other : insn.fn ≠ 0x20#6 := by
      intro code
      simp [code] at upper
    rw [single_compares implements fmt upper]
    simp [other]
  have rs : (Fields.ofWord insn).rs = 0x10#5 := fmt
  have funct : (Fields.ofWord insn).funct = insn.fn := rfl
  have written (i : Reg) (v : BitVec 32) := (withFloat_writeWord (s := s) i v).symm
  unfold execCop1Compute
  simp only [fmt]
  split <;> rename_i code
  case h_16 =>
    rw [if_neg upper]
    refine iff_of_true rfl ⟨by assumption, ?_⟩
    apply functFaithful_of_neither _ _ _ upper <;> assumption
  all_goals simp [floatStep, rs, funct, floatFunct, code, FunctFaithful]
  case h_1 =>
    rw [implements.float.add]
    exact performs_binary (written _ _)
  case h_2 =>
    rw [implements.float.sub]
    exact performs_binary (written _ _)
  case h_3 =>
    rw [implements.float.mul]
    exact performs_binary (written _ _)
  case h_4 =>
    rw [implements.float.div]
    exact performs_binary (written _ _)
  case h_5 =>
    rw [implements.float.sqrt]
    exact performs_unary_done (written _ _)
  case h_6 =>
    rw [implements.float.fabs]
    exact performs_unary_done (written _ _)
  case h_7 => exact performs_unary_done (written _ _)
  case h_8 =>
    rw [implements.float.neg]
    exact performs_unary_done (written _ _)
  case h_9 => exact id
  case h_10 =>
    rw [implements.promote]
    exact performs_unary_done (s.withFloat_writeFpr _ _).symm
  case h_11 =>
    rw [code] at inRange
    exact performs_toWord (implements.float.casts _) inRange
  case h_12 =>
    rw [code] at inRange
    exact performs_toWord_done (implements.float.trunc _) inRange
  case h_13 =>
    rw [code] at inRange
    exact performs_toWord (implements.float.round _) inRange
  case h_14 =>
    rw [code] at inRange
    exact performs_toWord_done (implements.float.ceil _) inRange
  case h_15 =>
    rw [code] at inRange
    exact performs_toWord_done (implements.float.floor _) inRange

theorem double_performs (implements : fp.Implements a) (fmt : insn.rs = 0x11#5)
    (inRange : ConvertsInRange a.double insn.fn (s.getD insn.rd)) :
    PerformsFloat s (floatStep a (.ofWord insn) s.floatState) (execCop1Compute fp insn s)
      ↔ insn.fn ≠ 0x21#6 ∧ FunctFaithful doubleLane a.double (.ofWord insn) s.floatState := by
  by_cases upper : 0x30#6 ≤ insn.fn
  · have other : insn.fn ≠ 0x21#6 := by
      intro code
      simp [code] at upper
    rw [double_compares implements fmt upper]
    simp [other]
  have rs : (Fields.ofWord insn).rs = 0x11#5 := fmt
  have funct : (Fields.ofWord insn).funct = insn.fn := rfl
  have written (i : Reg) (v : BitVec 64) := (withFloat_writeDouble (s := s) i v).symm
  unfold execCop1Compute
  simp only [fmt]
  split <;> rename_i code
  case h_16 =>
    rw [if_neg upper]
    refine iff_of_true rfl ⟨by assumption, ?_⟩
    apply functFaithful_of_neither _ _ _ upper <;> assumption
  all_goals simp [floatStep, rs, funct, floatFunct, code, FunctFaithful]
  case h_1 =>
    rw [implements.double.add]
    exact performs_binary (written _ _)
  case h_2 =>
    rw [implements.double.sub]
    exact performs_binary (written _ _)
  case h_3 =>
    rw [implements.double.mul]
    exact performs_binary (written _ _)
  case h_4 =>
    rw [implements.double.div]
    exact performs_binary (written _ _)
  case h_5 =>
    rw [implements.double.sqrt]
    exact performs_unary_done (written _ _)
  case h_6 =>
    rw [implements.double.fabs]
    exact performs_unary_done (written _ _)
  case h_7 => exact performs_unary_done (written _ _)
  case h_8 =>
    rw [implements.double.neg]
    exact performs_unary_done (written _ _)
  case h_9 =>
    rw [implements.demote]
    exact performs_unary_done (withFloat_writeWord _ _).symm
  case h_10 => exact id
  case h_11 =>
    rw [code] at inRange
    exact performs_toWord (implements.double.casts _) inRange
  case h_12 =>
    rw [code] at inRange
    exact performs_toWord_done (implements.double.trunc _) inRange
  case h_13 =>
    rw [code] at inRange
    exact performs_toWord (implements.double.round _) inRange
  case h_14 =>
    rw [code] at inRange
    exact performs_toWord_done (implements.double.ceil _) inRange
  case h_15 =>
    rw [code] at inRange
    exact performs_toWord_done (implements.double.floor _) inRange

/-- An encoding that the architecture does not define has to be rejected. -/
theorem performs_trap :
    PerformsFloat s .trap (execCop1Compute fp insn s) ↔ ¬Computes insn.fn := by
  unfold execCop1Compute
  split <;> rename_i code
  case h_16 =>
    split
    · rename_i upper
      simp [PerformsFloat, Computes, upper]
    · rename_i lower
      refine iff_of_true rfl ?_
      simp_all [Computes]
  all_goals simp [PerformsFloat, Computes, code]

theorem word_performs (implements : fp.Implements a) (fmt : insn.rs = 0x14#5) :
    PerformsFloat s (floatStep a (.ofWord insn) s.floatState) (execCop1Compute fp insn s)
      ↔ (Computes insn.fn → insn.fn = 0x20#6 ∨ insn.fn = 0x21#6) := by
  have rs : (Fields.ofWord insn).rs = 0x14#5 := fmt
  have funct : (Fields.ofWord insn).funct = insn.fn := rfl
  simp only [floatStep, rs, funct]
  split <;> rename_i code
  · refine iff_of_true ?_ fun _ => .inl code
    simp only [execCop1Compute, code, fmt]
    rw [implements.float.ofInt32]
    exact performs_unary_done (withFloat_writeWord _ _).symm
  · refine iff_of_true ?_ fun _ => .inr code
    simp only [execCop1Compute, code, fmt]
    rw [implements.double.ofInt32]
    exact performs_unary_done (withFloat_writeDouble _ _).symm
  · rw [performs_trap]
    simp_all

theorem long_performs (implements : fp.Implements a) (fmt : insn.rs = 0x15#5) :
    PerformsFloat s (floatStep a (.ofWord insn) s.floatState) (execCop1Compute fp insn s)
      ↔ Cop1Faithful a (.ofWord insn) s.floatState := by
  have rs : (Fields.ofWord insn).rs = 0x15#5 := fmt
  have funct : (Fields.ofWord insn).funct = insn.fn := rfl
  simp only [floatStep, Cop1Faithful, rs, funct]
  split <;> rename_i code
  · have done : execCop1Compute fp insn s
        = .done (s.setS insn.sa (fp.demote (fp.promote (s.getS insn.rd)))) := by
      simp [execCop1Compute, code, fmt]
    have same : s.setS insn.sa (fp.demote (fp.promote (s.getS insn.rd)))
          = s.setS insn.sa (a.single.ofLong (s.getD insn.rd))
        ↔ a.single.ofLong (s.getD insn.rd) = a.narrow (a.widen (s.getS insn.rd)) := by
      rw [s.setS_inj, implements.demote, implements.promote, eq_comm]
    rw [done, performs_unary, withFloat_writeWord]
    have other : ¬(0x20#6 = 0x21#6) := by decide
    simp only [code, Computes, List.mem_cons, true_or, or_true, true_implies, true_and,
      other, false_and, or_false]
    exact or_congr_right (or_congr_right same)
  · have done : execCop1Compute fp insn s
        = .done (s.setD insn.sa (fp.promote (s.getS insn.rd))) := by
      simp [execCop1Compute, code, fmt]
    have same : s.setD insn.sa (fp.promote (s.getS insn.rd))
          = s.setD insn.sa (a.double.ofLong (s.getD insn.rd))
        ↔ a.double.ofLong (s.getD insn.rd) = a.widen (s.getS insn.rd) := by
      rw [s.setD_inj, implements.promote, eq_comm]
    rw [done, performs_unary, withFloat_writeDouble]
    have other : ¬(0x21#6 = 0x20#6) := by decide
    simp only [code, Computes, List.mem_cons, true_or, or_true, true_implies, true_and,
      other, false_and, false_or]
    exact or_congr_right (or_congr_right same)
  · rw [performs_trap]
    simp_all

end Formats

section Moves

variable {μ ε : Type} {fp : HostFloat} {a : FloatArithmetic} {insn : Insn}
  {s : Machine μ ε}

theorem setR_inj {i : BitVec 5} {v w : Gpr} : s.setR i v = s.setR i w ↔ i = 0 ∨ v = w := by
  constructor
  · intro same
    by_cases first : i = 0
    · exact .inl first
    · have at_i := congrArg (fun t : Machine μ ε => t.ctx.r i) same
      simp only [Machine.setR, if_neg first, Function.update_self] at at_i
      exact .inr at_i
  · rintro (rfl | rfl) <;> rfl

theorem low_sx32 (v : BitVec 32) : low (sx32 v) = v := by
  ext i bound
  have wide : i < 64 := by omega
  simp only [low, sx32, BitVec.getElem_setWidth]
  rw [BitVec.getLsbD_signExtend]
  simp [bound, wide]

theorem sx32_inj {v w : BitVec 32} : sx32 v = sx32 w ↔ v = w := by
  constructor
  · intro same
    have lows := congrArg low same
    rwa [low_sx32, low_sx32] at lows
  · rintro rfl
    rfl

theorem floatState_read (zero : s.R 0 = 0) (i : Reg) : s.floatState.read i = s.R i := by
  unfold FloatState.read
  split
  · rename_i is
    rw [is, zero]
  · rfl

theorem high_append (x v : BitVec 32) : highHalf (x ++ v) = x := by
  ext i bound
  simp only [highHalf, BitVec.getElem_extractLsb', BitVec.getLsbD_append]
  rw [if_neg (by omega), Nat.add_sub_cancel_left, BitVec.getLsbD_eq_getElem]

theorem append_halves (x : BitVec 64) : highHalf x ++ lowHalf x = x := by
  ext i bound
  simp only [highHalf, lowHalf, BitVec.getElem_append, BitVec.getElem_setWidth,
    BitVec.getElem_extractLsb']
  split
  · rw [BitVec.getLsbD_eq_getElem]
  · rename_i upper
    rw [Nat.add_sub_of_le (by omega), BitVec.getLsbD_eq_getElem]

theorem setD_self (i : BitVec 5) : s.setD i (s.ctx.f i) = s := by
  simp [Machine.setD]

/-- A write of one word of a register pair is a write of the other only where
neither changes anything. -/
theorem setS_eq_upper {i j : BitVec 5} (apart : j ≠ i) (v : BitVec 32) :
    s.setS i v = s.setD j (v ++ lowHalf (s.ctx.f j))
      ↔ v = lowHalf (s.ctx.f i) ∧ v = highHalf (s.ctx.f j) := by
  constructor
  · intro same
    have at_i := congrArg (fun t : Machine μ ε => t.ctx.f i) same
    have at_j := congrArg (fun t : Machine μ ε => t.ctx.f j) same
    simp only [Machine.setS, Machine.setD, Function.update_self, Function.update_of_ne apart,
      Function.update_of_ne apart.symm] at at_i at_j
    constructor
    · have lows := congrArg low at_i
      rwa [Machine.low_append] at lows
    · have highs := congrArg highHalf at_j
      rwa [high_append, eq_comm] at highs
  · rintro ⟨lower, upper⟩
    have kept_i : (s.ctx.f i).extractLsb' 32 32 ++ v = s.ctx.f i := by
      rw [lower]
      exact append_halves _
    have kept_j : v ++ lowHalf (s.ctx.f j) = s.ctx.f j := by
      rw [upper]
      exact append_halves _
    rw [Machine.setS, kept_i, kept_j, setD_self, setD_self]

theorem mfc1_performs (r : Reg) :
    PerformsFloat s (.state (s.floatState.write insn.rt ((s.floatState.readWord r).signExtend 64)))
        (.done (s.setR insn.rt (sx32 (s.getS r))))
      ↔ (s.floatState.Odd r → insn.rt = 0 ∨ lowHalf (s.ctx.f r) = highHalf (s.ctx.f (r - 1))) := by
  have written : PerformsFloat s
        (.state (s.floatState.write insn.rt ((s.floatState.readWord r).signExtend 64)))
        (.done (s.setR insn.rt (sx32 (s.getS r))))
      ↔ insn.rt = 0 ∨ s.getS r = s.floatState.readWord r := by
    rw [PerformsFloat, s.withFloat_write, setR_inj]
    exact or_congr_right sx32_inj
  rw [written, FloatState.readWord]
  by_cases odd : s.floatState.Odd r
  · rw [if_pos odd]
    simp only [odd, true_implies]
    rfl
  · rw [if_neg odd]
    simp only [odd, false_implies, iff_true]
    exact .inr rfl

theorem mtc1_performs (r : Reg) (v : BitVec 32) :
    PerformsFloat s (.state (s.floatState.writeWord r v)) (.done (s.setS r v))
      ↔ (s.floatState.Odd r → v = lowHalf (s.ctx.f r) ∧ v = highHalf (s.ctx.f (r - 1))) := by
  rw [PerformsFloat, FloatState.writeWord]
  by_cases odd : s.floatState.Odd r
  · have apart : r - 1 ≠ r := by bv_omega
    rw [if_pos odd, s.withFloat_writeFpr]
    simp only [odd, true_implies]
    exact setS_eq_upper apart v
  · rw [if_neg odd, s.withFloat_writeFpr]
    simp only [odd, false_implies, iff_true]
    rfl

theorem cfc1_performs (fmt : insn.rs = 0x02#5) :
    PerformsFloat s (floatStep a (.ofWord insn) s.floatState)
        (.done (s.setR insn.rt (sx32 (s.ctx.cop0Regs 0))))
      ↔ (insn.rd = 31 → insn.rt = 0 ∨ s.ctx.cop0Regs 0 = s.ctx.cop0Regs 1) := by
  have rs : (Fields.ofWord insn).rs = 0x02#5 := fmt
  simp only [floatStep, rs]
  split
  · rename_i first
    have notLast : insn.rd ≠ 31 := by
      intro last
      have : (0 : BitVec 5) = 31 := first.symm.trans last
      exact absurd this (by decide)
    refine iff_of_true ?_ fun last => absurd last notLast
    exact (s.withFloat_write _ _).symm
  · split
    · rename_i last
      have is : insn.rd = 31 := last
      simp only [is, true_implies]
      rw [PerformsFloat, s.withFloat_write, ← sx32_inj (v := s.ctx.cop0Regs 0)]
      exact setR_inj
    · rename_i notLast
      exact iff_of_true trivial fun last => absurd last notLast

theorem ctc1_performs (zero : s.R 0 = 0) (fmt : insn.rs = 0x06#5) :
    PerformsFloat s (floatStep a (.ofWord insn) s.floatState) (.done s)
      ↔ (insn.rd = 31 → lowHalf (s.R insn.rt) = s.ctx.cop0Regs 1) := by
  have rs : (Fields.ofWord insn).rs = 0x06#5 := fmt
  simp only [floatStep, rs, floatState_read zero]
  split
  · rename_i first
    have notLast : insn.rd ≠ 31 := by
      intro last
      have : (0 : BitVec 5) = 31 := first.symm.trans last
      exact absurd this (by decide)
    exact iff_of_true s.withFloat_floatState.symm fun last => absurd last notLast
  · split
    · rename_i last
      have is : insn.rd = 31 := last
      simp only [is, true_implies, PerformsFloat]
      constructor
      · intro same
        have control := congrArg (fun t : Machine μ ε => t.ctx.cop0Regs 1) same
        simp only [Machine.withFloat, Function.update_self] at control
        exact control.symm
      · intro same
        have unchanged : { s.floatState with fcr31 := lowHalf (s.R insn.rt) }
            = s.floatState := by
          rw [same]
          rfl
        exact ((congrArg s.withFloat unchanged).trans s.withFloat_floatState).symm
    · rename_i notLast
      exact iff_of_true trivial fun last => absurd last notLast

def HostConverts (a : FloatArithmetic) (insn : Insn) (s : Machine μ ε) : Prop :=
  (insn.rs = 0x10#5 → ConvertsInRange a.single insn.fn (s.getS insn.rd))
    ∧ (insn.rs = 0x11#5 → ConvertsInRange a.double insn.fn (s.getD insn.rd))

/-- A COP1 word is rejected with nothing changed or executed as the
architecture defines it, exactly where `Cop1Faithful` says so. -/
theorem cop1_performs_iff {H : RecompH μ} (implements : fp.Implements a)
    (zero : s.R 0 = 0) (opcode : insn.op = 0x11#6) (inRange : HostConverts a insn s) :
    PerformsFloat s (floatStep a (.ofWord insn) s.floatState) (execNoncontrol fp H insn s)
      ↔ Cop1Faithful a (.ofWord insn) s.floatState := by
  have dispatched : execNoncontrol fp H insn s = execCop1 fp insn s := by
    simp only [execNoncontrol, opcode]
  rw [dispatched, execCop1]
  split <;> rename_i fmt
  case h_1 =>
    have rs : (Fields.ofWord insn).rs = 0x00#5 := fmt
    simp only [floatStep, Cop1Faithful, rs]
    exact mfc1_performs insn.rd
  case h_2 =>
    have rs : (Fields.ofWord insn).rs = 0x01#5 := fmt
    have faithful : Cop1Faithful a (.ofWord insn) s.floatState := by
      simp [Cop1Faithful, rs]
    refine iff_of_true ?_ faithful
    simp only [floatStep, rs]
    split
    · trivial
    · exact (s.withFloat_write _ _).symm
  case h_3 =>
    have rs : (Fields.ofWord insn).rs = 0x02#5 := fmt
    rw [cfc1_performs fmt]
    simp only [Cop1Faithful, rs]
    rfl
  case h_4 =>
    have rs : (Fields.ofWord insn).rs = 0x04#5 := fmt
    simp only [floatStep, Cop1Faithful, rs, floatState_read zero]
    exact mtc1_performs insn.rd _
  case h_5 =>
    have rs : (Fields.ofWord insn).rs = 0x05#5 := fmt
    have faithful : Cop1Faithful a (.ofWord insn) s.floatState := by
      simp [Cop1Faithful, rs]
    refine iff_of_true ?_ faithful
    simp only [floatStep, rs, floatState_read zero]
    split
    · trivial
    · exact (s.withFloat_writeFpr _ _).symm
  case h_6 =>
    have rs : (Fields.ofWord insn).rs = 0x06#5 := fmt
    rw [ctc1_performs zero fmt]
    simp only [Cop1Faithful, rs, floatState_read zero]
    rfl
  case h_7 =>
    have rs : (Fields.ofWord insn).rs = 0x10#5 := fmt
    rw [single_performs implements fmt (inRange.1 fmt)]
    simp only [Cop1Faithful, rs]
    rfl
  case h_8 =>
    have rs : (Fields.ofWord insn).rs = 0x11#5 := fmt
    rw [double_performs implements fmt (inRange.2 fmt)]
    simp only [Cop1Faithful, rs]
    rfl
  case h_9 =>
    have rs : (Fields.ofWord insn).rs = 0x14#5 := fmt
    rw [word_performs implements fmt]
    simp only [Cop1Faithful, rs]
    rfl
  case h_10 => exact long_performs implements fmt
  case h_11 =>
    have faithful : Cop1Faithful a (.ofWord insn) s.floatState := by
      unfold Cop1Faithful
      split <;> trivial
    exact iff_of_true rfl faithful

end Moves

section Whole

def wholeOperations (w : Nat) : FloatFormat w where
  add a b := a + b
  sub a b := a - b
  mul a b := a * b
  div a b := a / b
  sqrt a := a
  abs a := a
  neg a := a
  compare a b := if a.ult b then .less else if a = b then .equal else .greater
  ofWord a := a.setWidth w
  ofLong a := a.setWidth w
  toWord _ a := some (a.setWidth 32)
  toLong _ a := some (a.setWidth 64)

def wholeArithmetic : FloatArithmetic where
  single := wholeOperations 32
  double := wholeOperations 64
  widen a := a.setWidth 64
  narrow a := low a

theorem wholeFormat_implements {w : Nat} {toInt32 : BitVec w → BitVec 32}
    (cast : ∀ x, toInt32 x = x.setWidth 32) :
    (wholeFormat w).Implements (wholeOperations w) toInt32 := by
  have rounds (x : BitVec w) (v : BitVec 32) (is : some (x.setWidth 32) = some v) :
      toInt32 x = v := by
    rw [cast]
    exact Option.some.inj is
  constructor <;> first | rfl | exact rounds

theorem wholeFloat_implements : wholeFloat.Implements wholeArithmetic where
  float := wholeFormat_implements fun x => by
    simp [wholeFloat, low]
  double := wholeFormat_implements fun _ => rfl
  promote := rfl
  demote := rfl
  lt x y := by
    simp only [wholeFloat, wholeArithmetic, wholeOperations]
    split
    · simp_all
    · split <;> simp_all
  eq x y := by
    simp only [wholeFloat, wholeArithmetic, wholeOperations]
    split
    · rename_i less
      have : x ≠ y := by
        rintro rfl
        simp [BitVec.ult] at less
      simp [this]
    · split <;> simp_all
  widened x y := by
    have extended (v : BitVec 32) : (v.setWidth 64).toNat = v.toNat :=
      BitVec.toNat_setWidth_of_le (by decide)
    simp [wholeArithmetic, wholeOperations, BitVec.ult, extended, ← BitVec.toNat_inj]

def floatRegisters (f4 : BitVec 64) : Machine GuestMemory Unit where
  ctx := { emptyContext with
    f := Function.update (fun _ => 0) 4 f4
    mips3FloatMode := true }
  rdram := fun _ => 0
  shadowActive := false
  shadowTouchedNative := false
  host := ()

/-- `$f2` and `$f6` hold different numbers. -/
def operandRegisters : Machine GuestMemory Unit :=
  { floatRegisters 0 with
    ctx := { (floatRegisters 0).ctx with
      f := Function.update (Function.update (fun _ => 0) 2 5) 6 7 } }

/-- `add.s $f4, $f2, $f6` -/
theorem add_s_performs : PerformsFloat operandRegisters
    (floatStep wholeArithmetic (.ofWord 0x46061100) operandRegisters.floatState)
    (execNoncontrol wholeFloat guestMacros 0x46061100 operandRegisters) := by
  refine (cop1_performs_iff wholeFloat_implements (by decide) (by decide) ⟨?_, ?_⟩).mpr ?_
  · exact fun _ => trivial
  · exact fun fmt => absurd fmt (by decide)
  · exact ⟨by decide, fun upper => absurd upper (by decide)⟩

/-- `c.ult.s $f2, $f4` with zero in `$f2` and the least positive number in `$f4`. -/
theorem c_ult_s_misexecutes : wholeFloat.Implements wholeArithmetic
    ∧ (floatRegisters 1).R 0 = 0
    ∧ Insn.op 0x46041035 = 0x11#6
    ∧ HostConverts wholeArithmetic 0x46041035 (floatRegisters 1)
    ∧ ¬ PerformsFloat (floatRegisters 1)
      (floatStep wholeArithmetic (.ofWord 0x46041035) (floatRegisters 1).floatState)
      (execNoncontrol wholeFloat guestMacros 0x46041035 (floatRegisters 1)) := by
  refine ⟨wholeFloat_implements, by decide, by decide, ⟨?_, ?_⟩, ?_⟩
  · exact fun _ => trivial
  · exact fun fmt => absurd fmt (by decide)
  · intro performs
    have executed : execNoncontrol wholeFloat guestMacros 0x46041035 (floatRegisters 1)
        = .done ((floatRegisters 1).setCond false) := rfl
    have defined : floatStep wholeArithmetic (.ofWord 0x46041035)
        (floatRegisters 1).floatState
        = .state ((floatRegisters 1).floatState.writeCondition true) := rfl
    rw [executed, defined, PerformsFloat, Machine.withFloat_writeCondition,
      Machine.setCond_inj] at performs
    contradiction

end Whole

end N64ModernRuntime.Librecomp
