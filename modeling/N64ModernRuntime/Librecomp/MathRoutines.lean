import N64ModernRuntime.Lib.MipsIII
import N64ModernRuntime.Librecomp.MipsInterp

/-!
# math_routines.cpp: the 64-bit integer helpers

A host operation whose result C++ leaves undefined (a division that traps, a
shift by 64 or more) has no result here.  The conversions from and to floating
point are left out.
-/

set_option autoImplicit false

namespace N64ModernRuntime.Librecomp

open MipsIII

/-! ## The operators of the host -/

namespace HostWord

variable (a b : BitVec 64)

/-- `a / b` on `uint64_t` -/
def udiv : Option (BitVec 64) := if b = 0 then none else some (a / b)

/-- `a % b` on `uint64_t` -/
def umod : Option (BitVec 64) := if b = 0 then none else some (a % b)

/-- `a / b` on `int64_t` -/
def sdiv : Option (BitVec 64) :=
  if b = 0 ∨ a = BitVec.intMin 64 ∧ b = BitVec.allOnes 64 then none else some (a.sdiv b)

/-- `a >> b` on `uint64_t` -/
def shiftRight : Option (BitVec 64) := if b.toNat < 64 then some (a >>> b.toNat) else none

/-- `a << b` on `uint64_t` -/
def shiftLeft : Option (BitVec 64) := if b.toNat < 64 then some (a <<< b.toNat) else none

end HostWord

/-! ## The helpers -/

def join64 (hi lo : Gpr) : BitVec 64 := (hi <<< 32) ||| (lo &&& 0xFFFFFFFF#64)

def return64 (ctx : RecompContext) (value : BitVec 64) : RecompContext :=
  { ctx with
    r := Function.update (Function.update ctx.r 2 (sx32 (low (value >>> 32)))) 3 (sx32 (low value)) }

def mathRoutine (op : BitVec 64 → BitVec 64 → Option (BitVec 64)) (ctx : RecompContext) :
    Option RecompContext :=
  (op (join64 (ctx.r 4) (ctx.r 5)) (join64 (ctx.r 6) (ctx.r 7))).map (return64 ctx)

def udivdi3Recomp : RecompContext → Option RecompContext := mathRoutine HostWord.udiv

def divdi3Recomp : RecompContext → Option RecompContext := mathRoutine HostWord.sdiv

def umoddi3Recomp : RecompContext → Option RecompContext := mathRoutine HostWord.umod

def ullDivRecomp : RecompContext → Option RecompContext := mathRoutine HostWord.udiv

def llDivRecomp : RecompContext → Option RecompContext := mathRoutine HostWord.sdiv

def llMulRecomp : RecompContext → Option RecompContext := mathRoutine fun a b => some (a * b)

def ullRemRecomp : RecompContext → Option RecompContext := mathRoutine HostWord.umod

def ullRshiftRecomp : RecompContext → Option RecompContext := mathRoutine HostWord.shiftRight

def llLshiftRecomp : RecompContext → Option RecompContext := mathRoutine HostWord.shiftLeft

inductive MathRoutine where
  | udivdi3
  | divdi3
  | umoddi3
  | ullDiv
  | llDiv
  | llMul
  | ullRem
  | ullRshift
  | llLshift
  deriving DecidableEq, Repr

def MathRoutine.perform : MathRoutine → RecompContext → Option RecompContext
  | .udivdi3 => udivdi3Recomp
  | .divdi3 => divdi3Recomp
  | .umoddi3 => umoddi3Recomp
  | .ullDiv => ullDivRecomp
  | .llDiv => llDivRecomp
  | .llMul => llMulRecomp
  | .ullRem => ullRemRecomp
  | .ullRshift => ullRshiftRecomp
  | .llLshift => llLshiftRecomp

/-! ## What a helper is for -/

/-- The 64-bit value of a register pair of the calling convention. -/
def registerPair (hi lo : Gpr) : BitVec 64 := hi.extractLsb' 0 32 ++ lo.extractLsb' 0 32

/-- `z` is the result for `x` and `y`, modulo 2^64.  A quotient or remainder by zero may be
any value; a shift takes its count modulo 64, as the instructions of the processor do. -/
def MathRoutine.Result (routine : MathRoutine) (x y z : BitVec 64) : Prop :=
  match routine with
  | .udivdi3 | .ullDiv => y ≠ 0 → z = BitVec.ofInt 64 (x.toNat / y.toNat : Nat)
  | .divdi3 | .llDiv => y ≠ 0 → z = BitVec.ofInt 64 (x.toInt.tdiv y.toInt)
  | .umoddi3 | .ullRem => y ≠ 0 → z = BitVec.ofInt 64 (x.toNat % y.toNat : Nat)
  | .llMul => z = BitVec.ofInt 64 (x.toInt * y.toInt)
  | .ullRshift => z = BitVec.ofInt 64 (x.toNat / 2 ^ (y.toNat % 64) : Nat)
  | .llLshift => z = BitVec.ofInt 64 (x.toInt * 2 ^ (y.toNat % 64))

/-- The result is in `r2` and `r3`, each half sign-extended, and nothing else has changed. -/
structure ReturnsPair (ctx after : RecompContext) (z : BitVec 64) : Prop where
  high : after.r 2 = (z.extractLsb' 32 32).signExtend 64
  low : after.r 3 = (z.extractLsb' 0 32).signExtend 64
  registers : ∀ i, i ≠ 2 → i ≠ 3 → after.r i = ctx.r i
  others : { after with r := ctx.r } = ctx

def MathRoutine.Computes (routine : MathRoutine) (ctx : RecompContext) : Prop :=
  ∃ after z, routine.perform ctx = some after ∧
    routine.Result (registerPair (ctx.r 4) (ctx.r 5)) (registerPair (ctx.r 6) (ctx.r 7)) z ∧
    ReturnsPair ctx after z

/-- The arguments for which the host has the operation. -/
def MathRoutine.Defined (routine : MathRoutine) (x y : BitVec 64) : Prop :=
  match routine with
  | .udivdi3 | .ullDiv | .umoddi3 | .ullRem => y ≠ 0
  | .divdi3 | .llDiv => y ≠ 0 ∧ ¬(x = BitVec.intMin 64 ∧ y = -1)
  | .llMul => True
  | .ullRshift | .llLshift => y.toNat < 64

theorem join64_eq (hi lo : Gpr) : join64 hi lo = registerPair hi lo := by
  apply BitVec.eq_of_getLsbD_eq
  intro i below
  have mask : (0xFFFFFFFF#64).getLsbD i = decide (i < 32) := by
    have ones : 0xFFFFFFFF#64 = (BitVec.allOnes 32).setWidth 64 := rfl
    rw [ones, BitVec.getLsbD_setWidth, BitVec.getLsbD_allOnes, decide_eq_true below, Bool.true_and]
  rw [join64, registerPair, BitVec.getLsbD_or, BitVec.getLsbD_shiftLeft, BitVec.getLsbD_and, mask,
    BitVec.getLsbD_append, BitVec.getLsbD_extractLsb', BitVec.getLsbD_extractLsb']
  by_cases lower : i < 32
  · simp [lower, below]
  · have upper : i - 32 < 32 := by omega
    simp [lower, below, upper]

theorem low_shiftRight (z : BitVec 64) : low (z >>> 32) = z.extractLsb' 32 32 := by
  apply BitVec.eq_of_getLsbD_eq
  intro i below
  rw [low, BitVec.getLsbD_setWidth, BitVec.getLsbD_ushiftRight, BitVec.getLsbD_extractLsb']

theorem low_eq_extract (z : BitVec 64) : low z = z.extractLsb' 0 32 := by
  apply BitVec.eq_of_getLsbD_eq
  intro i below
  rw [low, BitVec.getLsbD_setWidth, BitVec.getLsbD_extractLsb', Nat.zero_add]

theorem return64_r (ctx : RecompContext) (z : BitVec 64) :
    (return64 ctx z).r = Function.update (Function.update ctx.r 2 (sx32 (low (z >>> 32))))
      3 (sx32 (low z)) := rfl

theorem return64_returns (ctx : RecompContext) (z : BitVec 64) : ReturnsPair ctx (return64 ctx z) z where
  high := by
    have apart : (2 : BitVec 5) ≠ 3 := by decide
    rw [return64_r, Function.update_of_ne apart, Function.update_self, sx32, low_shiftRight]
  low := by
    rw [return64_r, Function.update_self, sx32, low_eq_extract]
  registers i not_two not_three := by
    rw [return64_r, Function.update_of_ne not_three, Function.update_of_ne not_two]
  others := rfl

theorem mathRoutine_eq (op : BitVec 64 → BitVec 64 → Option (BitVec 64)) (ctx : RecompContext) :
    mathRoutine op ctx = (op (registerPair (ctx.r 4) (ctx.r 5))
      (registerPair (ctx.r 6) (ctx.r 7))).map (return64 ctx) := by
  rw [mathRoutine, join64_eq, join64_eq]

section Operators

variable {x y z : BitVec 64}

theorem udiv_result (result : HostWord.udiv x y = some z) :
    z = BitVec.ofInt 64 (x.toNat / y.toNat : Nat) := by
  unfold HostWord.udiv at result
  split at result
  · cases result
  · cases result
    exact udiv_eq_ofInt x y

theorem umod_result (result : HostWord.umod x y = some z) :
    z = BitVec.ofInt 64 (x.toNat % y.toNat : Nat) := by
  unfold HostWord.umod at result
  split at result
  · cases result
  · cases result
    exact umod_eq_ofInt x y

theorem sdiv_result (result : HostWord.sdiv x y = some z) :
    z = BitVec.ofInt 64 (x.toInt.tdiv y.toInt) := by
  unfold HostWord.sdiv at result
  split at result
  · cases result
  · cases result
    exact sdiv_eq_ofInt x y

theorem shiftRight_result (result : HostWord.shiftRight x y = some z) :
    z = BitVec.ofInt 64 (x.toNat / 2 ^ (y.toNat % 64) : Nat) := by
  unfold HostWord.shiftRight at result
  split at result
  · rename_i small
    cases result
    rw [Nat.mod_eq_of_lt small]
    exact ushiftRight_eq_ofInt x y.toNat
  · cases result

theorem shiftLeft_result (result : HostWord.shiftLeft x y = some z) :
    z = BitVec.ofInt 64 (x.toInt * 2 ^ (y.toNat % 64)) := by
  unfold HostWord.shiftLeft at result
  split at result
  · rename_i small
    cases result
    rw [Nat.mod_eq_of_lt small]
    exact shiftLeft_eq_ofInt x y.toNat
  · cases result

theorem mul_eq_ofInt : x * y = BitVec.ofInt 64 (x.toInt * y.toInt) := by
  rw [BitVec.ofInt_mul, BitVec.ofInt_toInt, BitVec.ofInt_toInt]

theorem isSome_ite_none {α : Type} {p : Prop} [Decidable p] (a : α) :
    (if p then none else some a).isSome ↔ ¬p := by
  by_cases holds : p
  · simp [holds]
  · simp [holds]

theorem isSome_ite_some {α : Type} {p : Prop} [Decidable p] (a : α) :
    (if p then some a else none).isSome ↔ p := by
  by_cases holds : p
  · simp [holds]
  · simp [holds]

end Operators

namespace MathRoutine

def operation : MathRoutine → BitVec 64 → BitVec 64 → Option (BitVec 64)
  | .udivdi3 | .ullDiv => HostWord.udiv
  | .divdi3 | .llDiv => HostWord.sdiv
  | .umoddi3 | .ullRem => HostWord.umod
  | .llMul => fun a b => some (a * b)
  | .ullRshift => HostWord.shiftRight
  | .llLshift => HostWord.shiftLeft

variable (routine : MathRoutine)

theorem perform_eq : routine.perform = mathRoutine routine.operation := by
  cases routine <;> rfl

/-- Where the host operation has a result, it is the right one. -/
theorem operation_result {x y z : BitVec 64} (result : routine.operation x y = some z) :
    routine.Result x y z := by
  cases routine with
  | udivdi3 | ullDiv => exact fun _ => udiv_result result
  | divdi3 | llDiv => exact fun _ => sdiv_result result
  | umoddi3 | ullRem => exact fun _ => umod_result result
  | llMul => exact (Option.some.inj result).symm.trans mul_eq_ofInt
  | ullRshift => exact shiftRight_result result
  | llLshift => exact shiftLeft_result result

theorem operation_isSome (x y : BitVec 64) :
    (routine.operation x y).isSome ↔ routine.Defined x y := by
  cases routine with
  | udivdi3 | ullDiv | umoddi3 | ullRem => exact isSome_ite_none _
  | divdi3 | llDiv => exact (isSome_ite_none _).trans not_or
  | llMul => exact iff_of_true rfl trivial
  | ullRshift | llLshift => exact isSome_ite_some _

end MathRoutine

/-- A 64-bit helper computes its result if and only if the host has the operation for its
arguments. -/
theorem math_routines_compute_iff (routine : MathRoutine) (ctx : RecompContext) :
    routine.Computes ctx ↔
      routine.Defined (registerPair (ctx.r 4) (ctx.r 5)) (registerPair (ctx.r 6) (ctx.r 7)) := by
  rw [← routine.operation_isSome]
  constructor
  · rintro ⟨after, z, run, -, -⟩
    rw [routine.perform_eq, mathRoutine_eq] at run
    obtain ⟨value, is, -⟩ := Option.map_eq_some_iff.mp run
    rw [is]
    rfl
  · intro result
    obtain ⟨z, is⟩ := Option.isSome_iff_exists.mp result
    refine ⟨return64 ctx z, z, ?_, routine.operation_result is, return64_returns ctx z⟩
    rw [routine.perform_eq, mathRoutine_eq, is, Option.map_some]

def callWith (x y : BitVec 64) : RecompContext where
  r := fun i =>
    if i = 4 then (x.extractLsb' 32 32).setWidth 64
    else if i = 5 then (x.extractLsb' 0 32).setWidth 64
    else if i = 6 then (y.extractLsb' 32 32).setWidth 64
    else if i = 7 then (y.extractLsb' 0 32).setWidth 64
    else 0
  f := fun _ => 0
  hi := 0
  lo := 0
  cop0Regs := fun _ => 0
  mips3FloatMode := false
  dispatchEntryTarget := 0
  dispatchEntryRejected := false
  dispatchEntryRejectedTarget := 0

/-- 1 by 0, the smallest number by -1, and a shift by 64. -/
theorem math_routines_undefined :
    MathRoutine.udivdi3.perform (callWith 1 0) = none ∧
      ¬MathRoutine.udivdi3.Computes (callWith 1 0) ∧
      MathRoutine.divdi3.perform (callWith (BitVec.intMin 64) (BitVec.allOnes 64)) = none ∧
      ¬MathRoutine.divdi3.Computes (callWith (BitVec.intMin 64) (BitVec.allOnes 64)) ∧
      MathRoutine.llLshift.perform (callWith 1 64) = none ∧
      ¬MathRoutine.llLshift.Computes (callWith 1 64) := by
  have none_computes {routine : MathRoutine} {ctx : RecompContext}
      (undefined : routine.perform ctx = none) : ¬routine.Computes ctx := by
    rintro ⟨after, z, run, -, -⟩
    rw [undefined] at run
    cases run
  have zero : MathRoutine.udivdi3.perform (callWith 1 0) = none := by decide
  have overflow : MathRoutine.divdi3.perform
      (callWith (BitVec.intMin 64) (BitVec.allOnes 64)) = none := by decide
  have wide : MathRoutine.llLshift.perform (callWith 1 64) = none := by decide
  exact ⟨zero, none_computes zero, overflow, none_computes overflow, wide, none_computes wide⟩

end N64ModernRuntime.Librecomp
