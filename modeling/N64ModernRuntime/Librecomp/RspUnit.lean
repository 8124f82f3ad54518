import N64ModernRuntime.Librecomp.RspVector

/-!
# rsp_vu_impl.hpp: the instructions that both builds have one body for

`vte` is `vt(e)`.  A destination element is a `Fin 8`: with a greater one the source
writes outside of the register.
-/

set_option autoImplicit false

namespace N64ModernRuntime.Librecomp

open Sse

/-! ## The tables of `constants_init` -/

def rspReciprocals (index : Nat) : BitVec 16 :=
  if index = 0 then ~~~0
  else
    let a := index + 512
    let b := 2 ^ 34 / a
    BitVec.ofNat 16 ((b + 1) / 2 ^ 8)

/-- `while (a * (b + 1) * (b + 1) < (u64(1) << 44)) b++;`, in at most `rounds` rounds. -/
def growRoot (a : Nat) : (rounds b : Nat) → Nat
  | 0, b => b
  | rounds + 1, b => if a * (b + 1) * (b + 1) < 2 ^ 44 then growRoot a rounds (b + 1) else b

/-- From `2 ^ 17` on, as `a` is not below 256, the loop is left before `2 ^ 18`. -/
def rspInverseSquareRoots (index : Nat) : BitVec 16 :=
  let a := (index + 512) / if index % 2 = 1 then 2 else 1
  let b := growRoot a (2 ^ 17) (2 ^ 17)
  BitVec.ofNat 16 (b / 2)

/-- `__builtin_clz` of a number that is not zero. -/
def clz32 (data : BitVec 32) : Nat := 31 - data.toNat.log2

namespace Vu

variable (s : Vu)

/-! ## Loops over lanes -/

def vmacq (vd : Fin 32) : Vu := s.eachLane Lane.vmacq vd vd 0

def vmulq (vd vs : Fin 32) (vte : R128) : Vu := s.eachLane Lane.vmulq vd vs vte

/-- `vs` is a number of a register, of which the low bit shifts. -/
def vrnd (d : Bool) (vd : Fin 32) (vs : BitVec 8) (vte : R128) : Vu :=
  s.eachLane (fun l => l.vrnd d (vs.getLsbD 0)) vd vd vte

/-! ## Moves -/

/-- `vd.u16(de) = vte.u16(de); ACCL = vte;` -/
def vmov (vd : Fin 32) (de : Fin 8) (vte : R128) : Vu :=
  { s.setR vd ((s.r vd).setElement de (vte.element de)) with accl := vte }

def vsar (e : Fin 16) (vd : Fin 32) : Vu :=
  s.setR vd <|
    match e.val with
    | 0x8 => s.acch
    | 0x9 => s.accm
    | 0xa => s.accl
    | _ => 0

/-- `MFC2`, the value of `rt` -/
def mfc2 (e : Fin 16) (vs : Fin 32) : BitVec 32 :=
  let hi := (s.r vs).byte e
  let lo := (s.r vs).byte (e + 1)
  (hi ++ lo).signExtend 32

def mtc2 (e : Fin 16) (rt : BitVec 32) (vs : Fin 32) : Vu :=
  let v := (s.r vs).setByte e ((rt >>> 8).setWidth 8)
  s.setR vs (if e ≠ 15 then v.setByte (e + 1) (rt.setWidth 8) else v)

/-! ## Divisions -/

/-- `L && DIVDP ? DIVIN << 16 | vt.element(e & 7) : s16(vt.element(e & 7))` -/
def divInput (l : Bool) (element : BitVec 16) : BitVec 32 :=
  if l && s.divdp then s.divin ++ element else element.signExtend 32

/-- The body of `VRCP` and `VRSQ`, which differ in the entry and in the last shift. -/
def divide (input : BitVec 32) (entry : (shift index : Nat) → BitVec 16)
    (places : (shift : Nat) → Nat) : BitVec 32 :=
  let mask := input.sshiftRight 31
  let data := input ^^^ mask
  let data := if input.toInt > -32768 then data - mask else data
  if data = 0 then 0x7fffffff
  else if input.toInt = -32768 then 0xffff0000
  else
    let shift := clz32 data
    let index := (data.toNat <<< shift &&& 0x7fc00000) >>> 22
    let result := (0x10000 ||| (entry shift index).setWidth 32 : BitVec 32) <<< 14
    result.sshiftRight (places shift) ^^^ mask

def setQuotient (vd : Fin 32) (de : Fin 8) (vte : R128) (result : BitVec 32) : Vu :=
  let s := { s with divdp := false, divout := (result >>> 16).setWidth 16, accl := vte }
  s.setR vd ((s.r vd).setElement de (result.setWidth 16))

def reciprocal (input : BitVec 32) : BitVec 32 :=
  divide input (fun _ index => rspReciprocals index) fun shift => 31 - shift

def inverseSquareRoot (input : BitVec 32) : BitVec 32 :=
  divide input (fun shift index => rspInverseSquareRoots ((index &&& 0x1fe) ||| (shift &&& 1)))
    fun shift => (31 - shift) >>> 1

def vrcp (l : Bool) (e : Fin 16) (vd : Fin 32) (de : Fin 8) (vt : Fin 32) (vte : R128) : Vu :=
  s.setQuotient vd de vte (reciprocal (s.divInput l ((s.r vt).element (Fin.ofNat 8 e))))

def vrsq (l : Bool) (e : Fin 16) (vd : Fin 32) (de : Fin 8) (vt : Fin 32) (vte : R128) : Vu :=
  s.setQuotient vd de vte (inverseSquareRoot (s.divInput l ((s.r vt).element (Fin.ofNat 8 e))))

/-- `VRCPH` and `VRSQH` -/
def divideHigh (e : Fin 16) (vd : Fin 32) (de : Fin 8) (vt : Fin 32) (vte : R128) : Vu :=
  let s := { s with accl := vte, divdp := true, divin := (s.r vt).element (Fin.ofNat 8 e) }
  s.setR vd ((s.r vd).setElement de s.divout)

def vrcph := @divideHigh

def vrsqh := @divideHigh

end Vu

end N64ModernRuntime.Librecomp
