import N64ModernRuntime.Lib.Sse

/-!
# rsp_vu_impl.hpp: the vector unit of the RSP, lane by lane

The instructions as the build without SSE runs them: a loop over the eight lanes,
whose body sees one lane of every register, and what stands after the loop.  The
divisions, the moves and the other instructions that have one body are in both
builds.  A product of two lanes wraps where C leaves it undefined.
-/

set_option autoImplicit false

namespace N64ModernRuntime.Librecomp

open Sse

/-! ## Registers -/

/-- `r128` on a little-endian host: the elements are counted from the highest. -/
abbrev R128 := V128

namespace R128

variable (v : R128)

def byte (index : Fin 16) : BitVec 8 := V128.byte v index.rev

def setByte (index : Fin 16) (value : BitVec 8) : R128 :=
  V128.ofBytes fun i => if i = index.rev then value else V128.byte v i

def element (index : Fin 8) : BitVec 16 := V128.lane v index.rev

def setElement (index : Fin 8) (value : BitVec 16) : R128 :=
  V128.ofLanes fun i => if i = index.rev then value else V128.lane v i

end R128

def getFlag (x : BitVec 16) : Bool := x != 0

/-- What `set` leaves: `0 - value`. -/
def setFlag (value : Bool) : BitVec 16 := 0 - (if value then 1 else 0)

def sclamp (bits : Nat) (x : Int) : Int :=
  let b : Int := 2 ^ (bits - 1)
  if x > b - 1 then b - 1 else if x < -b then -b else x

def sclip (bits : Nat) (x : Int) : Int :=
  let b : Nat := 2 ^ (bits - 1)
  ((x % (2 * b)).toNat ^^^ b : Nat) - b

/-- What an instruction reads and writes of every register, or of one lane of it. -/
structure Operands (α : Type) where
  vs : α
  vte : α
  vd : α
  acch : α
  accm : α
  accl : α
  vcoh : α
  vcol : α
  vcch : α
  vccl : α
  vce : α
  deriving DecidableEq

abbrev Lane := Operands (BitVec 16)

namespace Lane

variable (l : Lane)

/-! ## The accumulator -/

def accumulatorGet : BitVec 64 :=
  l.acch.setWidth 64 <<< 32 ||| l.accm.setWidth 64 <<< 16 ||| l.accl.setWidth 64 <<< 0

def accumulatorSet (value : BitVec 64) : Lane :=
  { l with
    acch := (value >>> 32).setWidth 16
    accm := (value >>> 16).setWidth 16
    accl := (value >>> 0).setWidth 16 }

def accumulatorSaturate (slice : Bool) (negative positive : BitVec 16) : BitVec 16 :=
  let value := if !slice then l.accl else l.accm
  if l.acch.toInt < 0 then
    if l.acch ≠ 0xffff then negative
    else if l.accm.toInt ≥ 0 then negative
    else value
  else
    if l.acch ≠ 0x0000 then positive
    else if l.accm.toInt < 0 then positive
    else value

/-- The accumulator is set, and its slice is written with saturation. -/
def accumulate (value : BitVec 64) (slice : Bool) (negative positive : BitVec 16) : Lane :=
  let l := l.accumulatorSet value
  { l with vd := l.accumulatorSaturate slice negative positive }

/-! ## The bodies of the loops -/

def vabs : Lane :=
  if l.vs.toInt < 0 then
    if l.vte.toInt = -32768 then
      { l with accl := BitVec.ofInt 16 (-32768), vd := BitVec.ofInt 16 32767 }
    else
      { l with accl := BitVec.ofInt 16 (-l.vte.toInt), vd := BitVec.ofInt 16 (-l.vte.toInt) }
  else if l.vs.toInt > 0 then
    { l with accl := BitVec.ofInt 16 l.vte.toInt, vd := BitVec.ofInt 16 l.vte.toInt }
  else { l with accl := 0, vd := 0 }

def vadd : Lane :=
  let result := l.vs.toInt + l.vte.toInt + (getFlag l.vcol).toInt
  { l with accl := BitVec.ofInt 16 result, vd := BitVec.ofInt 16 (sclamp 16 result) }

def vaddc : Lane :=
  let result : Nat := l.vs.toNat + l.vte.toNat
  { l with accl := BitVec.ofNat 16 result, vcol := setFlag (decide (result / 2 ^ 16 ≠ 0)) }

def vand : Lane := { l with accl := l.vs &&& l.vte }

def vch : Lane :=
  if (l.vs ^^^ l.vte).toInt < 0 then
    let result := (l.vs + l.vte).toInt
    { l with
      accl := if result ≤ 0 then BitVec.ofInt 16 (-l.vte.toInt) else l.vs
      vccl := setFlag (decide (result ≤ 0))
      vcch := setFlag (decide (l.vte.toInt < 0))
      vcol := setFlag true
      vcoh := setFlag (decide (result ≠ 0 ∧ l.vs ≠ l.vte ^^^ 0xffff))
      vce := setFlag (decide (result = -1)) }
  else
    let result := (l.vs - l.vte).toInt
    { l with
      accl := if result ≥ 0 then l.vte else l.vs
      vccl := setFlag (decide (l.vte.toInt < 0))
      vcch := setFlag (decide (result ≥ 0))
      vcol := setFlag false
      vcoh := setFlag (decide (result ≠ 0 ∧ l.vs ≠ l.vte ^^^ 0xffff))
      vce := setFlag false }

def vcl : Lane :=
  if getFlag l.vcol then
    if getFlag l.vcoh then { l with accl := if getFlag l.vccl then -l.vte else l.vs }
    else
      let sum := l.vs + l.vte
      let carry : Bool := decide (l.vs.toNat + l.vte.toNat ≠ sum.toNat)
      let le : Bool := if getFlag l.vce then sum == 0 || !carry else sum == 0 && !carry
      { l with vccl := setFlag le, accl := if le then -l.vte else l.vs }
  else
    if getFlag l.vcoh then { l with accl := if getFlag l.vcch then l.vte else l.vs }
    else
      let ge : Bool := decide ((l.vs.toNat : Int) - l.vte.toNat ≥ 0)
      { l with vcch := setFlag ge, accl := if ge then l.vte else l.vs }

def vcr : Lane :=
  if (l.vs ^^^ l.vte).toInt < 0 then
    let le : Bool := decide (l.vs.toInt + l.vte.toInt + 1 ≤ 0)
    { l with
      vcch := setFlag (decide (l.vte.toInt < 0))
      vccl := setFlag le
      accl := if le then ~~~l.vte else l.vs }
  else
    let ge : Bool := decide (l.vs.toInt - l.vte.toInt ≥ 0)
    { l with
      vccl := setFlag (decide (l.vte.toInt < 0))
      vcch := setFlag ge
      accl := if ge then l.vte else l.vs }

/-- The comparisons take the first operand where the test holds. -/
def compare (test : Bool) : Lane :=
  { l with vccl := setFlag test, accl := if test then l.vs else l.vte }

def veq : Lane := l.compare (!getFlag l.vcoh && l.vs == l.vte)

def vge : Lane :=
  l.compare (decide (l.vs.toInt > l.vte.toInt) ||
    (decide (l.vs.toInt = l.vte.toInt) && (!getFlag l.vcol || !getFlag l.vcoh)))

def vlt : Lane :=
  l.compare (decide (l.vs.toInt < l.vte.toInt) ||
    (decide (l.vs.toInt = l.vte.toInt) && getFlag l.vcol && getFlag l.vcoh))

def vne : Lane := l.compare (l.vs != l.vte || getFlag l.vcoh)

def vmacf (u : Bool) : Lane :=
  let l := l.accumulatorSet
    (l.accumulatorGet + BitVec.ofInt 64 (l.vs.toInt * l.vte.toInt * 2))
  { l with vd :=
      if !u then l.accumulatorSaturate true 0x8000 0x7fff
      else if l.acch.toInt < 0 then 0x0000
      else if l.acch.toInt ≠ 0 ∨ l.accm.toInt < 0 then 0xffff
      else l.accm }

/-- The products of whole numbers leave the low slice as it is. -/
def vmadh : Lane :=
  let result : BitVec 32 := (l.accumulatorGet >>> 16).setWidth 32 +
    BitVec.ofInt 32 (l.vs.toInt * l.vte.toInt)
  let l : Lane := { l with acch := (result >>> 16).setWidth 16, accm := (result >>> 0).setWidth 16 }
  { l with vd := l.accumulatorSaturate true 0x8000 0x7fff }

def vmadl : Lane :=
  l.accumulate (l.accumulatorGet +
      (BitVec.ofNat 32 (l.vs.toNat * l.vte.toNat) >>> 16).setWidth 64)
    false 0x0000 0xffff

def vmadm : Lane :=
  l.accumulate (l.accumulatorGet + BitVec.ofInt 64 (l.vs.toInt * l.vte.toNat)) true 0x8000 0x7fff

def vmadn : Lane :=
  l.accumulate (l.accumulatorGet + BitVec.ofInt 64 (l.vs.toNat * l.vte.toInt)) false 0x0000 0xffff

def vmrg : Lane := { l with accl := if getFlag l.vccl then l.vs else l.vte }

def vmudh : Lane :=
  l.accumulate (BitVec.ofInt 64 (l.vs.toInt * l.vte.toInt) <<< 16) true 0x8000 0x7fff

def vmudl : Lane :=
  l.accumulatorSet ((BitVec.ofNat 32 (l.vs.toNat * l.vte.toNat) >>> 16).setWidth 64)

def vmudm : Lane := l.accumulatorSet (BitVec.ofInt 64 (l.vs.toInt * l.vte.toNat))

def vmudn : Lane := l.accumulatorSet (BitVec.ofInt 64 (l.vs.toNat * l.vte.toInt))

def vmulf (u : Bool) : Lane :=
  let l := l.accumulatorSet (BitVec.ofInt 64 (l.vs.toInt * l.vte.toInt * 2 + 0x8000))
  { l with vd :=
      if !u then l.accumulatorSaturate true 0x8000 0x7fff
      else if l.acch.toInt < 0 then 0x0000
      else if (l.acch ^^^ l.accm).toInt < 0 then 0xffff
      else l.accm }

def vnand : Lane := { l with accl := ~~~(l.vs &&& l.vte) }

def vnor : Lane := { l with accl := ~~~(l.vs ||| l.vte) }

def vnxor : Lane := { l with accl := ~~~(l.vs ^^^ l.vte) }

def vor : Lane := { l with accl := l.vs ||| l.vte }

def vsub : Lane :=
  let result := l.vs.toInt - l.vte.toInt - (getFlag l.vcol).toInt
  { l with accl := BitVec.ofInt 16 result, vd := BitVec.ofInt 16 (sclamp 16 result) }

def vsubc : Lane :=
  let result := BitVec.ofInt 32 ((l.vs.toNat : Int) - l.vte.toNat)
  { l with
    accl := result.setWidth 16
    vcol := setFlag (decide (result >>> 16 ≠ 0))
    vcoh := setFlag (decide (result ≠ 0)) }

def vxor : Lane := { l with accl := l.vs ^^^ l.vte }

def vzero : Lane :=
  { l with accl := BitVec.ofInt 16 (l.vs.toInt + l.vte.toInt), vd := 0 }

/-! ## Bodies that are in both builds -/

def vmacq : Lane :=
  let product : BitVec 32 := l.acch.setWidth 32 <<< 16 ||| l.accm.setWidth 32 <<< 0
  let product :=
    if product.toInt < 0 ∧ product &&& 1 <<< 5 = 0 then product + 32
    else if product.toInt ≥ 32 ∧ product &&& 1 <<< 5 = 0 then product - 32
    else product
  { l with
    acch := (product >>> 16).setWidth 16
    accm := (product >>> 0).setWidth 16
    vd := BitVec.ofInt 16 (sclamp 16 (product.toInt / 2)) &&& ~~~15 }

def vmulq : Lane :=
  let product := l.vs.toInt * l.vte.toInt
  let product := if product < 0 then product + 31 else product
  { l with
    acch := BitVec.ofInt 16 (product / 2 ^ 16)
    accm := BitVec.ofInt 16 product
    accl := 0
    vd := BitVec.ofInt 16 (sclamp 16 (product / 2)) &&& ~~~15 }

/-- `d` is the sign that is rounded; `shifted` is the low bit of the register number `vs`. -/
def vrnd (d shifted : Bool) : Lane :=
  let product : Int := if shifted then l.vte.toInt * 2 ^ 16 else l.vte.toInt
  let acc : Int := ((l.accumulatorGet <<< 16).sshiftRight 16).toInt
  let acc := if (!d && decide (acc < 0)) || (d && decide (acc ≥ 0)) then sclip 48 (acc + product)
    else acc
  { l with
    acch := BitVec.ofInt 16 (acc / 2 ^ 32)
    accm := BitVec.ofInt 16 (acc / 2 ^ 16)
    accl := BitVec.ofInt 16 acc
    vd := BitVec.ofInt 16 (sclamp 16 (acc / 2 ^ 16)) }

end Lane

/-! ## The instructions of the two builds -/

/-- The instructions that the two builds have different code for. -/
inductive VectorOp where
  | vabs | vadd | vaddc | vand | vch | vcl | vcr | veq | vge | vlt
  | vmacf (u : Bool)
  | vmadh | vmadl | vmadm | vmadn | vmrg | vmudh | vmudl | vmudm | vmudn
  | vmulf (u : Bool)
  | vnand | vne | vnor | vnxor | vor | vsub | vsubc | vxor | vzero
  deriving DecidableEq, Repr

namespace VectorOp

def lane (op : VectorOp) (l : Lane) : Lane :=
  match op with
  | vabs => l.vabs
  | vadd => l.vadd
  | vaddc => l.vaddc
  | vand => l.vand
  | vch => l.vch
  | vcl => l.vcl
  | vcr => l.vcr
  | veq => l.veq
  | vge => l.vge
  | vlt => l.vlt
  | vmacf u => l.vmacf u
  | vmadh => l.vmadh
  | vmadl => l.vmadl
  | vmadm => l.vmadm
  | vmadn => l.vmadn
  | vmrg => l.vmrg
  | vmudh => l.vmudh
  | vmudl => l.vmudl
  | vmudm => l.vmudm
  | vmudn => l.vmudn
  | vmulf u => l.vmulf u
  | vnand => l.vnand
  | vne => l.vne
  | vnor => l.vnor
  | vnxor => l.vnxor
  | vor => l.vor
  | vsub => l.vsub
  | vsubc => l.vsubc
  | vxor => l.vxor
  | vzero => l.vzero

/-- The statements after the loop. -/
def after {α : Type} (zero : α) (op : VectorOp) (x : Operands α) : Operands α :=
  match op with
  | vabs | vmacf _ | vmadh | vmadl | vmadm | vmadn | vmudh | vmulf _ | vzero => x
  | vadd | vsub => { x with vcol := zero, vcoh := zero }
  | vaddc => { x with vcoh := zero, vd := x.accl }
  | vand | vnand | vnor | vnxor | vor | vxor | vch | vmudl | vmudn | vsubc =>
      { x with vd := x.accl }
  | vmudm => { x with vd := x.accm }
  | vcl | vcr => { x with vcol := zero, vcoh := zero, vce := zero, vd := x.accl }
  | veq | vge | vlt | vne => { x with vcch := zero, vcol := zero, vcoh := zero, vd := x.accl }
  | vmrg => { x with vcoh := zero, vcol := zero, vd := x.accl }

end VectorOp

/-! ## The state -/

structure Vu where
  r : Fin 32 → R128
  acch : R128
  accm : R128
  accl : R128
  vcoh : R128
  vcol : R128
  vcch : R128
  vccl : R128
  vce : R128
  divin : BitVec 16
  divout : BitVec 16
  divdp : Bool

namespace Vu

def setR (s : Vu) (vd : Fin 32) (value : R128) : Vu := { s with r := Function.update s.r vd value }

/-- The registers that an instruction is given; `vte` is what it has made of `vt`. -/
def load (vd vs : Fin 32) (vte : R128) (s : Vu) : Operands R128 :=
  ⟨s.r vs, vte, s.r vd, s.acch, s.accm, s.accl, s.vcoh, s.vcol, s.vcch, s.vccl, s.vce⟩

def store (vd : Fin 32) (x : Operands R128) (s : Vu) : Vu :=
  { s with
    r := Function.update s.r vd x.vd
    acch := x.acch
    accm := x.accm
    accl := x.accl
    vcoh := x.vcoh
    vcol := x.vcol
    vcch := x.vcch
    vccl := x.vccl
    vce := x.vce }

end Vu

namespace Operands

def map {α β : Type} (f : α → β) (x : Operands α) : Operands β :=
  ⟨f x.vs, f x.vte, f x.vd, f x.acch, f x.accm, f x.accl, f x.vcoh, f x.vcol, f x.vcch, f x.vccl,
    f x.vce⟩

def element (x : Operands R128) (n : Fin 8) : Lane := x.map fun v => v.element n

/-- What the body of a loop has assigned to lane `n`. -/
def assign (x : Operands R128) (n : Fin 8) (l : Lane) : Operands R128 :=
  ⟨x.vs, x.vte, x.vd.setElement n l.vd, x.acch.setElement n l.acch, x.accm.setElement n l.accm,
    x.accl.setElement n l.accl, x.vcoh.setElement n l.vcoh, x.vcol.setElement n l.vcol,
    x.vcch.setElement n l.vcch, x.vccl.setElement n l.vccl, x.vce.setElement n l.vce⟩

end Operands

/-- `for (u32 n = 0; n < 8; n++)`, with the registers read again in every round. -/
def Vu.eachLane (body : Lane → Lane) (vd vs : Fin 32) (vte : R128) (s : Vu) : Vu :=
  (List.finRange 8).foldl (fun s n =>
    let x := s.load vd vs vte
    s.store vd (x.assign n (body (x.element n)))) s

/-! ## Broadcast -/

/-- The assignments of `operator()`: to the first element, from the second. -/
def broadcastCopies (index : Fin 16) : List (Fin 8 × Fin 8) :=
  match index.val with
  | 0 | 1 => []
  | 2 => [(1, 0), (3, 2), (5, 4), (7, 6)]
  | 3 => [(0, 1), (2, 3), (4, 5), (6, 7)]
  | 4 => [(3, 0), (2, 3), (1, 2), (7, 4), (6, 7), (5, 6)]
  | 5 => [(3, 1), (2, 3), (0, 2), (7, 5), (6, 7), (4, 6)]
  | 6 => [(3, 2), (1, 3), (0, 1), (7, 6), (5, 7), (4, 5)]
  | 7 => [(2, 3), (1, 2), (0, 1), (6, 7), (5, 6), (4, 5)]
  | k => (List.finRange 8).map fun n => (n, Fin.ofNat 8 (k - 8))

def R128.broadcast (v : R128) (index : Fin 16) : R128 :=
  (broadcastCopies index).foldl (fun v copy => v.setElement copy.1 (v.element copy.2)) v

/-! ## An instruction -/

/-- `vte = vt(e)`, the loop and what stands after it. -/
def Vu.sisd (op : VectorOp) (e : Fin 16) (vd vs vt : Fin 32) (s : Vu) : Vu :=
  let vte := (s.r vt).broadcast e
  let s := s.eachLane op.lane vd vs vte
  s.store vd (op.after 0 (s.load vd vs vte))

/-! ## Moves of flags -/

namespace Vu

variable (s : Vu)

/-- `hi` and `lo` by the number of a control register; `null` is read as zero. -/
def flagPair (rd : BitVec 8) : R128 × R128 :=
  match (rd &&& 3).toNat with
  | 0 => (s.vcoh, s.vcol)
  | 1 => (s.vcch, s.vccl)
  | _ => (0, s.vce)

/-- What is written through `hi` and `lo`; what is written to `null` is lost. -/
def setFlagPair (rd : BitVec 8) (pair : R128 × R128) : Vu :=
  match (rd &&& 3).toNat with
  | 0 => { s with vcoh := pair.1, vcol := pair.2 }
  | 1 => { s with vcch := pair.1, vccl := pair.2 }
  | _ => { s with vce := pair.2 }

/-- `CFC2`, the value of `rt` -/
def cfc2 (rd : BitVec 8) : BitVec 32 :=
  let pair := s.flagPair rd
  let rt := (List.finRange 8).foldl (fun rt n =>
    rt ||| (BitVec.ofBool (getFlag (pair.2.element n))).setWidth 32 <<< (0 + n.val) |||
      (BitVec.ofBool (getFlag (pair.1.element n))).setWidth 32 <<< (8 + n.val)) (0 : BitVec 32)
  (rt.setWidth 16).signExtend 32

def ctc2 (rt : BitVec 32) (rd : BitVec 8) : Vu :=
  s.setFlagPair rd ((List.finRange 8).foldl (fun pair n =>
    (pair.1.setElement n (setFlag (decide (rt &&& (1 : BitVec 32) <<< (8 + n.val) ≠ 0))),
      pair.2.setElement n (setFlag (decide (rt &&& (1 : BitVec 32) <<< (0 + n.val) ≠ 0)))))
    (s.flagPair rd))

end Vu

end N64ModernRuntime.Librecomp
