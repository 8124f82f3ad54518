import Mathlib.Logic.Function.Basic

/-!
# mips_interp.cpp: the R4300i interpreter

`recomp.h` is not in the repository.  The macros and helpers that the
interpreter takes from it are the fields of `RecompH`, and the arithmetic of
the host's `float` and `double` those of `HostFloat`.  `μ` is the guest memory
and `ε` what else a native function can reach.  Capturing and tracing are left
out.
-/

set_option autoImplicit false

namespace N64ModernRuntime.Librecomp

abbrev Gpr := BitVec 64

/-- `r` and `f` are the registers `r0`..`r31` and `f0`..`f31`; a register `f`
is the 64 bits of the union, of which `fl` and `u32l` are the low word. -/
structure RecompContext where
  r : BitVec 5 → Gpr
  f : BitVec 5 → BitVec 64
  hi : Gpr
  lo : Gpr
  cop0Regs : BitVec 5 → BitVec 32
  mips3FloatMode : Bool
  dispatchEntryTarget : BitVec 32
  dispatchEntryRejected : Bool
  dispatchEntryRejectedTarget : BitVec 32

/-- `shadowActive` and `shadowTouchedNative` are the thread's `t_shadow_active`
and `t_shadow_touched_native`. -/
structure Machine (μ ε : Type) where
  ctx : RecompContext
  rdram : μ
  shadowActive : Bool
  shadowTouchedNative : Bool
  host : ε

/-- What `recomp.h` reads and writes through `rdram`.  The macros take the
offset first, and the functions the value or register in their own order. -/
structure RecompH (μ : Type) where
  memB : μ → Gpr → Gpr → BitVec 8
  memH : μ → Gpr → Gpr → BitVec 16
  memW : μ → Gpr → Gpr → BitVec 32
  memBU : μ → Gpr → Gpr → BitVec 8
  memHU : μ → Gpr → Gpr → BitVec 16
  memWU : μ → Gpr → Gpr → BitVec 32
  setMemB : μ → Gpr → Gpr → BitVec 8 → μ
  setMemH : μ → Gpr → Gpr → BitVec 16 → μ
  setMemW : μ → Gpr → Gpr → BitVec 32 → μ
  loadDoubleword : μ → Gpr → Gpr → Gpr
  sd : μ → Gpr → Gpr → Gpr → μ
  doLwl : μ → Gpr → Gpr → Gpr → Gpr
  doLwr : μ → Gpr → Gpr → Gpr → Gpr
  doLdl : μ → Gpr → Gpr → Gpr → Gpr
  doLdr : μ → Gpr → Gpr → Gpr → Gpr
  doSwl : μ → Gpr → Gpr → Gpr → μ
  doSwr : μ → Gpr → Gpr → Gpr → μ
  doSdl : μ → Gpr → Gpr → Gpr → μ
  doSdr : μ → Gpr → Gpr → Gpr → μ

/-- The operations of one host floating-point type with `w` bits. -/
structure HostFormat (w : Nat) where
  add : BitVec w → BitVec w → BitVec w
  sub : BitVec w → BitVec w → BitVec w
  mul : BitVec w → BitVec w → BitVec w
  div : BitVec w → BitVec w → BitVec w
  sqrt : BitVec w → BitVec w
  fabs : BitVec w → BitVec w
  neg : BitVec w → BitVec w
  trunc : BitVec w → BitVec w
  round : BitVec w → BitVec w
  ceil : BitVec w → BitVec w
  floor : BitVec w → BitVec w
  ofInt32 : BitVec 32 → BitVec w

structure HostFloat where
  float : HostFormat 32
  double : HostFormat 64
  /-- `(double)` of a `float` and `(float)` of a `double`. -/
  promote : BitVec 32 → BitVec 64
  demote : BitVec 64 → BitVec 32
  /-- `(int32_t)` of a `double`. -/
  toInt32 : BitVec 64 → BitVec 32
  lt : BitVec 64 → BitVec 64 → Bool
  eq : BitVec 64 → BitVec 64 → Bool

abbrev Insn := BitVec 32

namespace Insn

def op (insn : Insn) : BitVec 6 := insn.extractLsb' 26 6
def rs (insn : Insn) : BitVec 5 := insn.extractLsb' 21 5
def rt (insn : Insn) : BitVec 5 := insn.extractLsb' 16 5
def rd (insn : Insn) : BitVec 5 := insn.extractLsb' 11 5
def sa (insn : Insn) : BitVec 5 := insn.extractLsb' 6 5
def fn (insn : Insn) : BitVec 6 := insn.extractLsb' 0 6
def uimm (insn : Insn) : BitVec 16 := insn.extractLsb' 0 16

/-- `simm` where it has been converted to a `gpr`. -/
def simm (insn : Insn) : Gpr := insn.uimm.signExtend 64

/-- `(uint32_t)(int32_t)simm` -/
def simm32 (insn : Insn) : BitVec 32 := insn.uimm.signExtend 32

end Insn

/-- `(uint32_t)` of a register. -/
def low (v : Gpr) : BitVec 32 := v.setWidth 32

def sx32 (v : BitVec 32) : Gpr := v.signExtend 64

namespace Machine

variable {μ ε : Type} (s : Machine μ ε)

def R (i : BitVec 5) : Gpr := s.ctx.r i

def setR (i : BitVec 5) (v : Gpr) : Machine μ ε :=
  if i = 0 then s else { s with ctx := { s.ctx with r := Function.update s.ctx.r i v } }

def setHi (v : Gpr) : Machine μ ε := { s with ctx := { s.ctx with hi := v } }

def setLo (v : Gpr) : Machine μ ε := { s with ctx := { s.ctx with lo := v } }

def setRdram (rdram : μ) : Machine μ ε := { s with rdram := rdram }

/-- `F[i].d` and `F[i].u64` -/
def getD (i : BitVec 5) : BitVec 64 := s.ctx.f i

/-- `F[i].fl` and `F[i].u32l` -/
def getS (i : BitVec 5) : BitVec 32 := low (s.ctx.f i)

def setD (i : BitVec 5) (v : BitVec 64) : Machine μ ε :=
  { s with ctx := { s.ctx with f := Function.update s.ctx.f i v } }

def setS (i : BitVec 5) (v : BitVec 32) : Machine μ ε :=
  s.setD i ((s.ctx.f i).extractLsb' 32 32 ++ v)

def setCop0 (i : BitVec 5) (v : BitVec 32) : Machine μ ε :=
  { s with ctx := { s.ctx with cop0Regs := Function.update s.ctx.cop0Regs i v } }

/-- `if (cond) ctx->cop0_regs[1] |= (1u << 23); else ctx->cop0_regs[1] &= ~(1u << 23);` -/
def setCond (cond : Bool) : Machine μ ε :=
  s.setCop0 1 (if cond then s.ctx.cop0Regs 1 ||| 0x00800000#32
    else s.ctx.cop0Regs 1 &&& ~~~0x00800000#32)

end Machine

/-- `unimplemented` is the logged `return false`; `fault` is a host integer
division that traps. -/
inductive Exec (μ ε : Type) where
  | done (s : Machine μ ε)
  | unimplemented (s : Machine μ ε)
  | fault

section Noncontrol

variable {μ ε : Type}

open Exec

/-- `case 0x00: // SPECIAL` -/
def execSpecial (insn : Insn) (s : Machine μ ε) : Exec μ ε :=
  let vs := s.R insn.rs
  let vt := s.R insn.rt
  match insn.fn with
  | 0x00#6 => done (s.setR insn.rd (sx32 (low vt <<< insn.sa)))
  | 0x02#6 => done (s.setR insn.rd (sx32 (low vt >>> insn.sa)))
  | 0x03#6 => done (s.setR insn.rd (sx32 ((low vt).sshiftRight' insn.sa)))
  | 0x04#6 => done (s.setR insn.rd (sx32 (low vt <<< (vs &&& 0x1F#64))))
  | 0x06#6 => done (s.setR insn.rd (sx32 (low vt >>> (vs &&& 0x1F#64))))
  | 0x07#6 => done (s.setR insn.rd (sx32 ((low vt).sshiftRight' (vs &&& 0x1F#64))))
  | 0x10#6 => done (s.setR insn.rd s.ctx.hi)
  | 0x11#6 => done (s.setHi vs)
  | 0x12#6 => done (s.setR insn.rd s.ctx.lo)
  | 0x13#6 => done (s.setLo vs)
  | 0x18#6 =>
    let p := (low vs).signExtend 64 * (low vt).signExtend 64
    done ((s.setLo (sx32 (low p))).setHi (sx32 (low (p.sshiftRight 32))))
  | 0x19#6 =>
    let p := (low vs).setWidth 64 * (low vt).setWidth 64
    done ((s.setLo (sx32 (low p))).setHi (sx32 (low (p >>> 32))))
  | 0x1A#6 =>
    let a := low vs
    let b := low vt
    if b = 0 then done s
    -- INT_MIN / -1 does not fit an int32_t
    else if a = BitVec.intMin 32 ∧ b = BitVec.allOnes 32 then fault
    else done ((s.setLo (sx32 (a.sdiv b))).setHi (sx32 (a.srem b)))
  | 0x1B#6 =>
    let a := low vs
    let b := low vt
    if b = 0 then done s
    else done ((s.setLo (sx32 (a / b))).setHi (sx32 (a % b)))
  | 0x20#6 => done (s.setR insn.rd (sx32 (low vs + low vt)))
  | 0x21#6 => done (s.setR insn.rd (sx32 (low vs + low vt)))
  | 0x22#6 => done (s.setR insn.rd (sx32 (low vs - low vt)))
  | 0x23#6 => done (s.setR insn.rd (sx32 (low vs - low vt)))
  | 0x24#6 => done (s.setR insn.rd (vs &&& vt))
  | 0x25#6 => done (s.setR insn.rd (vs ||| vt))
  | 0x26#6 => done (s.setR insn.rd (vs ^^^ vt))
  | 0x27#6 => done (s.setR insn.rd (~~~(vs ||| vt)))
  | 0x2A#6 => done (s.setR insn.rd (if vs.slt vt then 1 else 0))
  | 0x2B#6 => done (s.setR insn.rd (if vs.ult vt then 1 else 0))
  | 0x2C#6 => done (s.setR insn.rd (vs + vt))
  | 0x2D#6 => done (s.setR insn.rd (vs + vt))
  | 0x2E#6 => done (s.setR insn.rd (vs - vt))
  | 0x2F#6 => done (s.setR insn.rd (vs - vt))
  | 0x38#6 => done (s.setR insn.rd (vt <<< insn.sa))
  | 0x3A#6 => done (s.setR insn.rd (vt >>> insn.sa))
  | 0x3B#6 => done (s.setR insn.rd (vt.sshiftRight' insn.sa))
  | 0x3C#6 => done (s.setR insn.rd (vt <<< (insn.sa.toNat + 32)))
  | 0x3E#6 => done (s.setR insn.rd (vt >>> (insn.sa.toNat + 32)))
  | 0x3F#6 => done (s.setR insn.rd (vt.sshiftRight (insn.sa.toNat + 32)))
  | 0x14#6 => done (s.setR insn.rd (vt <<< (vs &&& 0x3F#64)))
  | 0x16#6 => done (s.setR insn.rd (vt >>> (vs &&& 0x3F#64)))
  | 0x17#6 => done (s.setR insn.rd (vt.sshiftRight' (vs &&& 0x3F#64)))
  | 0x0B#6 => done (if vt ≠ 0 then s.setR insn.rd vs else s)
  | 0x0A#6 => done (if vt = 0 then s.setR insn.rd vs else s)
  | 0x0F#6 => done s
  -- the trap family is a no-op
  | 0x30#6 | 0x31#6 | 0x32#6 | 0x33#6 | 0x34#6 | 0x36#6 => done s
  | _ => unimplemented s

variable (fp : HostFloat)

/-- The predicate that the `switch` in the `c.cond` branch computes. -/
def condPredicate (c : BitVec 4) (lt eq : Bool) : Bool :=
  match c with
  | 0x2#4 => eq
  | 0xC#4 => lt
  | 0xE#4 => lt || eq
  | 0x1#4 => false
  | 0x4#4 => lt
  | 0x6#4 => lt || eq
  | _ => eq

/-- `S / D / W / L compute ops`; the formats W and L come here with `dbl` false. -/
def execCop1Compute (insn : Insn) (s : Machine μ ε) : Exec μ ε :=
  let fmt := insn.rs
  let ft := insn.rt
  let fs := insn.rd
  let fd := insn.sa
  let dbl : Bool := fmt = 0x11
  let fromW : Bool := fmt = 0x14
  -- `dbl ? getD(i) : getS(i)` is a double on both sides
  let wide (i : BitVec 5) := if dbl then s.getD i else fp.promote (s.getS i)
  match insn.fn with
  | 0x00#6 =>
    done (if dbl then s.setD fd (fp.double.add (s.getD fs) (s.getD ft))
      else s.setS fd (fp.float.add (s.getS fs) (s.getS ft)))
  | 0x01#6 =>
    done (if dbl then s.setD fd (fp.double.sub (s.getD fs) (s.getD ft))
      else s.setS fd (fp.float.sub (s.getS fs) (s.getS ft)))
  | 0x02#6 =>
    done (if dbl then s.setD fd (fp.double.mul (s.getD fs) (s.getD ft))
      else s.setS fd (fp.float.mul (s.getS fs) (s.getS ft)))
  | 0x03#6 =>
    done (if dbl then s.setD fd (fp.double.div (s.getD fs) (s.getD ft))
      else s.setS fd (fp.float.div (s.getS fs) (s.getS ft)))
  | 0x04#6 =>
    done (if dbl then s.setD fd (fp.double.sqrt (s.getD fs))
      else s.setS fd (fp.float.sqrt (s.getS fs)))
  | 0x05#6 =>
    done (if dbl then s.setD fd (fp.double.fabs (s.getD fs))
      else s.setS fd (fp.float.fabs (s.getS fs)))
  | 0x06#6 => done (if dbl then s.setD fd (s.getD fs) else s.setS fd (s.getS fs))
  | 0x07#6 =>
    done (if dbl then s.setD fd (fp.double.neg (s.getD fs))
      else s.setS fd (fp.float.neg (s.getS fs)))
  | 0x20#6 =>
    done (s.setS fd (if fromW then fp.float.ofInt32 (s.getS fs) else fp.demote (wide fs)))
  | 0x21#6 =>
    done (s.setD fd (if fromW then fp.double.ofInt32 (s.getS fs) else wide fs))
  | 0x24#6 => done (s.setS fd (fp.toInt32 (wide fs)))
  | 0x0D#6 =>
    done (s.setS fd (fp.toInt32 (if dbl then fp.double.trunc (s.getD fs)
      else fp.promote (fp.float.trunc (s.getS fs)))))
  | 0x0C#6 =>
    done (s.setS fd (fp.toInt32 (if dbl then fp.double.round (s.getD fs)
      else fp.promote (fp.float.round (s.getS fs)))))
  | 0x0E#6 =>
    done (s.setS fd (fp.toInt32 (if dbl then fp.double.ceil (s.getD fs)
      else fp.promote (fp.float.ceil (s.getS fs)))))
  | 0x0F#6 =>
    done (s.setS fd (fp.toInt32 (if dbl then fp.double.floor (s.getD fs)
      else fp.promote (fp.float.floor (s.getS fs)))))
  | fn =>
    if 0x30#6 ≤ fn then
      let a := wide fs
      let b := wide ft
      done (s.setCond (condPredicate (fn.setWidth 4) (fp.lt a b) (fp.eq a b)))
    else unimplemented s

/-- `case 0x11:` of `exec_noncontrol`. -/
def execCop1 (insn : Insn) (s : Machine μ ε) : Exec μ ε :=
  match insn.rs with
  | 0x00#5 => done (s.setR insn.rt (sx32 (s.getS insn.rd)))
  | 0x01#5 => done (s.setR insn.rt (s.getD insn.rd))
  | 0x02#5 => done (s.setR insn.rt (sx32 (s.ctx.cop0Regs 0)))
  | 0x04#5 => done (s.setS insn.rd (low (s.R insn.rt)))
  | 0x05#5 => done (s.setD insn.rd (s.R insn.rt))
  | 0x06#5 => done s
  | 0x10#5 | 0x11#5 | 0x14#5 | 0x15#5 => execCop1Compute fp insn s
  | _ => unimplemented s

variable (H : RecompH μ)

def execNoncontrol (insn : Insn) (s : Machine μ ε) : Exec μ ε :=
  let rt := insn.rt
  let vs := s.R insn.rs
  let vt := s.R rt
  let simm := insn.simm
  match insn.op with
  | 0x00#6 => execSpecial insn s
  | 0x08#6 => done (s.setR rt (sx32 (low vs + insn.simm32)))
  | 0x09#6 => done (s.setR rt (sx32 (low vs + insn.simm32)))
  | 0x0A#6 => done (s.setR rt (if vs.slt simm then 1 else 0))
  | 0x0B#6 => done (s.setR rt (if vs.ult simm then 1 else 0))
  | 0x0C#6 => done (s.setR rt (vs &&& insn.uimm.setWidth 64))
  | 0x0D#6 => done (s.setR rt (vs ||| insn.uimm.setWidth 64))
  | 0x0E#6 => done (s.setR rt (vs ^^^ insn.uimm.setWidth 64))
  | 0x0F#6 => done (s.setR rt (sx32 (insn.uimm.setWidth 32 <<< 16)))
  | 0x18#6 => done (s.setR rt (vs + simm))
  | 0x19#6 => done (s.setR rt (vs + simm))
  | 0x20#6 => done (s.setR rt ((H.memB s.rdram simm vs).signExtend 64))
  | 0x21#6 => done (s.setR rt ((H.memH s.rdram simm vs).signExtend 64))
  | 0x23#6 => done (s.setR rt (sx32 (H.memW s.rdram simm vs)))
  | 0x24#6 => done (s.setR rt ((H.memBU s.rdram simm vs).setWidth 64))
  | 0x25#6 => done (s.setR rt ((H.memHU s.rdram simm vs).setWidth 64))
  | 0x27#6 => done (s.setR rt ((H.memWU s.rdram simm vs).setWidth 64))
  | 0x37#6 => done (s.setR rt (H.loadDoubleword s.rdram vs simm))
  | 0x28#6 => done (s.setRdram (H.setMemB s.rdram simm vs (vt.setWidth 8)))
  | 0x29#6 => done (s.setRdram (H.setMemH s.rdram simm vs (vt.setWidth 16)))
  | 0x2B#6 => done (s.setRdram (H.setMemW s.rdram simm vs (low vt)))
  | 0x3F#6 => done (s.setRdram (H.sd s.rdram vt simm vs))
  | 0x22#6 => done (s.setR rt (H.doLwl s.rdram vt simm vs))
  | 0x26#6 => done (s.setR rt (H.doLwr s.rdram vt simm vs))
  | 0x2A#6 => done (s.setRdram (H.doSwl s.rdram simm vs vt))
  | 0x2E#6 => done (s.setRdram (H.doSwr s.rdram simm vs vt))
  | 0x1A#6 => done (s.setR rt (H.doLdl s.rdram vt simm vs))
  | 0x1B#6 => done (s.setR rt (H.doLdr s.rdram vt simm vs))
  | 0x2C#6 => done (s.setRdram (H.doSdl s.rdram simm vs vt))
  | 0x2D#6 => done (s.setRdram (H.doSdr s.rdram simm vs vt))
  | 0x30#6 => done (s.setR rt (sx32 (H.memW s.rdram simm vs)))
  | 0x38#6 => done ((s.setRdram (H.setMemW s.rdram simm vs (low vt))).setR rt 1)
  | 0x2F#6 => done s
  | 0x31#6 => done (s.setS rt (H.memWU s.rdram simm vs))
  | 0x35#6 => done (s.setD rt (H.loadDoubleword s.rdram vs simm))
  | 0x39#6 => done (s.setRdram (H.setMemW s.rdram simm vs (s.getS rt)))
  | 0x3D#6 => done (s.setRdram (H.sd s.rdram (s.getD rt) simm vs))
  | 0x11#6 => execCop1 fp insn s
  | 0x10#6 => done s
  | _ => unimplemented s

end Noncontrol

def ifetch {μ : Type} (H : RecompH μ) (rdram : μ) (pc : BitVec 32) : Insn :=
  H.memWU rdram 0 (sx32 pc)

/-- The cases of the loop in `interpret`. -/
inductive Control where
  /-- `j`, `jal` -/
  | jump (link : Bool)
  /-- `jr`, `jalr` -/
  | jumpRegister (link : Bool)
  | branch
  /-- `bc1f`, `bc1t` and their likely forms -/
  | cop1Branch
  | none
  deriving DecidableEq, Repr

namespace Insn

def control (insn : Insn) : Control :=
  if insn.op = 0x02 ∨ insn.op = 0x03 then .jump (insn.op = 0x03)
  else if insn.op = 0x00 ∧ (insn.fn = 0x08 ∨ insn.fn = 0x09) then
    .jumpRegister (insn.fn = 0x09)
  else if insn.op = 0x01 ∨ (0x04 ≤ insn.op ∧ insn.op ≤ 0x07)
      ∨ (0x14 ≤ insn.op ∧ insn.op ≤ 0x17) then .branch
  else if insn.op = 0x11 ∧ insn.rs = 0x08 then .cop1Branch
  else .none

def jumpTarget (insn : Insn) (pc : BitVec 32) : BitVec 32 :=
  ((pc + 4) &&& 0xF0000000) ||| ((insn &&& 0x03FFFFFF) <<< 2)

def branchTarget (insn : Insn) (pc : BitVec 32) : BitVec 32 :=
  pc + 4 + insn.simm32 <<< 2

end Insn

structure Branch where
  take : Bool
  likely : Bool
  link : Bool
  deriving DecidableEq, Repr

section Interpret

variable {μ ε : Type}

/-- The `switch` over a branch; `none` is an unimplemented REGIMM form. -/
def decodeBranch (insn : Insn) (s : Machine μ ε) : Option Branch :=
  let vs := s.R insn.rs
  let vt := s.R insn.rt
  match insn.op with
  | 0x01#6 =>
    match insn.rt with
    | 0x00#5 => some ⟨vs.slt 0, false, false⟩
    | 0x01#5 => some ⟨!vs.slt 0, false, false⟩
    | 0x02#5 => some ⟨vs.slt 0, true, false⟩
    | 0x03#5 => some ⟨!vs.slt 0, true, false⟩
    | 0x10#5 => some ⟨vs.slt 0, false, true⟩
    | 0x11#5 => some ⟨!vs.slt 0, false, true⟩
    | _ => none
  | 0x04#6 => some ⟨vs = vt, false, false⟩
  | 0x05#6 => some ⟨vs ≠ vt, false, false⟩
  | 0x06#6 => some ⟨vs.sle 0, false, false⟩
  | 0x07#6 => some ⟨!vs.sle 0, false, false⟩
  | 0x14#6 => some ⟨vs = vt, true, false⟩
  | 0x15#6 => some ⟨vs ≠ vt, true, false⟩
  | 0x16#6 => some ⟨vs.sle 0, true, false⟩
  | 0x17#6 => some ⟨!vs.sle 0, true, false⟩
  | _ => some ⟨false, false, false⟩

def decodeCop1Branch (insn : Insn) (s : Machine μ ε) : Branch :=
  let tf := insn.getLsbD 16
  let nd := insn.getLsbD 17
  let cond := (s.ctx.cop0Regs 1).getLsbD 23
  ⟨if tf then cond else !cond, nd, false⟩

/-- What `interpret` returns, with the state it leaves.  A run that has used
up its fuel has not returned. -/
inductive InterpResult (μ ε : Type) where
  | returned (s : Machine μ ε)
  | failed (s : Machine μ ε)
  | fault
  | outOfFuel

/-- `if (!exec_noncontrol(...)) return false;` -/
def Exec.andThen (result : Exec μ ε) (next : Machine μ ε → InterpResult μ ε) :
    InterpResult μ ε :=
  match result with
  | .done s => next s
  | .unimplemented s => .failed s
  | .fault => .fault

/-- `if (!interpret(...)) return false;` -/
def InterpResult.andThen (result : InterpResult μ ε)
    (next : Machine μ ε → InterpResult μ ε) : InterpResult μ ε :=
  match result with
  | .returned s => next s
  | .failed s => .failed s
  | .fault => .fault
  | .outOfFuel => .outOfFuel

def kMaxInterpDepth : Nat := 256

/-- `recomp_lookup_function_or_null`: it reads the function map, which a native
function may change. -/
abbrev LookupFunction (μ ε : Type) :=
  Machine μ ε → BitVec 32 → Option (Machine μ ε → Machine μ ε)

def noteNativeCall (s : Machine μ ε) : Machine μ ε :=
  if s.shadowActive then { s with shadowTouchedNative := true } else s

variable (H : RecompH μ) (fp : HostFloat) (lookup : LookupFunction μ ε)

def execDelaySlot (pc : BitVec 32) (s : Machine μ ε) : Exec μ ε :=
  execNoncontrol fp H (ifetch H s.rdram (pc + 4)) s

/-- The loop of `interpret` from a given `returnTarget`, `pc` and depth. -/
abbrev Continue (μ ε : Type) :=
  BitVec 32 → BitVec 32 → Nat → Machine μ ε → InterpResult μ ε

/-- What follows the delay slot of a jump at `pc`: a native function is called,
an unknown target that is linked is interpreted as a callee, another one in
the same frame. -/
def interpretTransfer (loop : Continue μ ε) (returnTarget pc : BitVec 32) (depth : Nat)
    (link : Bool) (target : BitVec 32) (s : Machine μ ε) : InterpResult μ ε :=
  match lookup s target with
  | some nf =>
    let s := nf (noteNativeCall s)
    if link then loop returnTarget (pc + 8) depth s else .returned s
  | none =>
    if link then
      (if depth + 1 > kMaxInterpDepth then .failed s
        else loop (low (s.R 31)) target (depth + 1) s).andThen
          (loop returnTarget (pc + 8) depth)
    else loop returnTarget target depth s

/-- A branch at `pc` that has been decoded. -/
def interpretBranch (loop : Continue μ ε) (returnTarget pc : BitVec 32) (depth : Nat)
    (b : Branch) (s : Machine μ ε) : InterpResult μ ε :=
  let target := (ifetch H s.rdram pc).branchTarget pc
  let s := if b.link then s.setR 31 (sx32 (pc + 8)) else s
  if b.likely then
    if b.take then
      (execDelaySlot H fp pc s).andThen fun s => loop returnTarget target depth s
    else loop returnTarget (pc + 8) depth s
  else
    (execDelaySlot H fp pc s).andThen fun s =>
      loop returnTarget (if b.take then target else pc + 8) depth s

def interpretLoop : Nat → Continue μ ε
  | 0, _, _, _, _ => .outOfFuel
  | fuel + 1, returnTarget, pc, depth, s =>
    if pc &&& 3 ≠ 0 then .failed s
    else
      let insn := ifetch H s.rdram pc
      let loop := interpretLoop fuel
      match insn.control with
      | .jump link =>
        let s := if link then s.setR 31 (sx32 (pc + 8)) else s
        (execDelaySlot H fp pc s).andThen
          (interpretTransfer lookup loop returnTarget pc depth link (insn.jumpTarget pc))
      | .jumpRegister link =>
        let target := low (s.R insn.rs)
        let s := if link then s.setR insn.rd (sx32 (pc + 8)) else s
        (execDelaySlot H fp pc s).andThen fun s =>
          if !link && target = returnTarget then .returned s
          else interpretTransfer lookup loop returnTarget pc depth link target s
      | .branch =>
        match decodeBranch insn s with
        | some b => interpretBranch H fp loop returnTarget pc depth b s
        | none => .failed s
      | .cop1Branch =>
        interpretBranch H fp loop returnTarget pc depth (decodeCop1Branch insn s) s
      | .none =>
        (execNoncontrol fp H insn s).andThen (loop returnTarget (pc + 4) depth)

/-- `interpret`: the function at `startPc`, as a callee that returns to its
`$ra`. -/
def interpret (fuel : Nat) (startPc : BitVec 32) (depth : Nat) (s : Machine μ ε) :
    InterpResult μ ε :=
  if depth > kMaxInterpDepth then .failed s
  else interpretLoop H fp lookup fuel (low (s.R 31)) startPc depth s

def recompInterpretFunction (fuel : Nat) (startPc : BitVec 32) (s : Machine μ ε) :
    InterpResult μ ε :=
  interpret H fp lookup fuel startPc 0 s

end Interpret

end N64ModernRuntime.Librecomp
