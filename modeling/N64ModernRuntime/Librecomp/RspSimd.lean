import N64ModernRuntime.Librecomp.RspVector

/-!
# rsp_vu_impl.hpp: the vector unit of the RSP with SSE

The instructions as the build with SSE runs them, all lanes at a time.  Lane by
lane they do what the loops do, as long as every lane of a flag register is a mask.
-/

set_option autoImplicit false

namespace N64ModernRuntime.Librecomp

open Sse

/-! ## The instructions -/

abbrev Vectors := Operands R128

namespace Vectors

variable (x : Vectors)

def zero : R128 := 0

def invert : R128 := ~~~0

def vabs : Vectors :=
  let vs0 := cmpeqEpi16 x.vs zero
  let slt := sraiEpi16 x.vs 15
  let vd := andnotSi128 vs0 x.vte
  let vd := xorSi128 vd slt
  { x with accl := subEpi16 vd slt, vd := subsEpi16 vd slt }

def vadd : Vectors :=
  let sum := addEpi16 x.vs x.vte
  let min := minEpi16 x.vs x.vte
  let max := maxEpi16 x.vs x.vte
  let min := subsEpi16 min x.vcol
  { x with
    accl := subEpi16 sum x.vcol
    vd := addsEpi16 min max
    vcol := zero
    vcoh := zero }

def vaddc : Vectors :=
  let sum := addsEpu16 x.vs x.vte
  let accl := addEpi16 x.vs x.vte
  let vcol := cmpeqEpi16 sum accl
  { x with
    accl := accl
    vcol := cmpeqEpi16 vcol zero
    vcoh := zero
    vd := accl }

def vand : Vectors :=
  let accl := andSi128 x.vs x.vte
  { x with accl := accl, vd := accl }

def vch : Vectors :=
  let vcol := xorSi128 x.vs x.vte
  let vcol := cmpltEpi16 vcol zero
  let nvt := xorSi128 x.vte vcol
  let nvt := subEpi16 nvt vcol
  let diff := subEpi16 x.vs nvt
  let diff0 := cmpeqEpi16 diff zero
  let vtn := cmpltEpi16 x.vte zero
  let dlez := cmpgtEpi16 diff zero
  let dgez := orSi128 dlez diff0
  let dlez := cmpeqEpi16 zero dlez
  let vcch := blendvEpi8 dgez vtn vcol
  let vccl := blendvEpi8 vtn dlez vcol
  let vce := cmpeqEpi16 diff vcol
  let vce := andSi128 vce vcol
  let vcoh := orSi128 diff0 vce
  let vcoh := cmpeqEpi16 vcoh zero
  let mask := blendvEpi8 vcch vccl vcol
  let accl := blendvEpi8 x.vs nvt mask
  { x with
    vcol := vcol
    vcch := vcch
    vccl := vccl
    vce := vce
    vcoh := vcoh
    accl := accl
    vd := accl }

def vcl : Vectors :=
  let nvt := xorSi128 x.vte x.vcol
  let nvt := subEpi16 nvt x.vcol
  let diff := subEpi16 x.vs nvt
  let ncarry := addsEpu16 x.vs x.vte
  let ncarry := cmpeqEpi16 diff ncarry
  let nvce := cmpeqEpi16 x.vce zero
  let diff0 := cmpeqEpi16 diff zero
  let lec1 := andSi128 diff0 ncarry
  let lec1 := andSi128 nvce lec1
  let lec2 := orSi128 diff0 ncarry
  let lec2 := andSi128 x.vce lec2
  let leeq := orSi128 lec1 lec2
  let geeq := subsEpu16 x.vte x.vs
  let geeq := cmpeqEpi16 geeq zero
  let le := andnotSi128 x.vcoh x.vcol
  let le := blendvEpi8 x.vccl leeq le
  let ge := orSi128 x.vcol x.vcoh
  let ge := blendvEpi8 geeq x.vcch ge
  let mask := blendvEpi8 ge le x.vcol
  let accl := blendvEpi8 x.vs nvt mask
  { x with
    accl := accl
    vcch := ge
    vccl := le
    vcoh := zero
    vcol := zero
    vce := zero
    vd := accl }

def vcr : Vectors :=
  let sign := xorSi128 x.vs x.vte
  let sign := sraiEpi16 sign 15
  let dlez := andSi128 x.vs sign
  let dlez := addEpi16 dlez x.vte
  let vccl := sraiEpi16 dlez 15
  let dgez := orSi128 x.vs sign
  let dgez := minEpi16 dgez x.vte
  let vcch := cmpeqEpi16 dgez x.vte
  let nvt := xorSi128 x.vte sign
  let mask := blendvEpi8 vcch vccl sign
  let accl := blendvEpi8 x.vs nvt mask
  { x with
    vccl := vccl
    vcch := vcch
    accl := accl
    vd := accl
    vcol := zero
    vcoh := zero
    vce := zero }

/-- The last statements of the comparisons, which have set `VCCL`. -/
def compare (vccl : R128) : Vectors :=
  let accl := blendvEpi8 x.vte x.vs vccl
  { x with
    vccl := vccl
    accl := accl
    vcch := zero
    vcoh := zero
    vcol := zero
    vd := accl }

def veq : Vectors :=
  let eq := cmpeqEpi16 x.vs x.vte
  x.compare (andnotSi128 x.vcoh eq)

def vge : Vectors :=
  let eq := cmpeqEpi16 x.vs x.vte
  let gt := cmpgtEpi16 x.vs x.vte
  let es := andSi128 x.vcoh x.vcol
  let eq := andnotSi128 es eq
  x.compare (orSi128 gt eq)

def vlt : Vectors :=
  let eq := cmpeqEpi16 x.vs x.vte
  let lt := cmpltEpi16 x.vs x.vte
  let eq := andSi128 x.vcoh eq
  let eq := andSi128 x.vcol eq
  x.compare (orSi128 lt eq)

def vne : Vectors :=
  let eq := cmpeqEpi16 x.vs x.vte
  let ne := cmpeqEpi16 eq zero
  let vccl := andSi128 x.vcoh eq
  x.compare (orSi128 vccl ne)

def wrapped (sum saturated : R128) : R128 :=
  let omask := cmpeqEpi16 sum saturated
  cmpeqEpi16 omask zero

def packSlices (accm acch : R128) : R128 :=
  packsEpi32 (unpackloEpi16 accm acch) (unpackhiEpi16 accm acch)

/-- The low slice where the others only extend its sign, else the bound they ask for. -/
def clampLow (accl accm acch : R128) : R128 :=
  let nhi := sraiEpi16 acch 15
  let nmd := sraiEpi16 accm 15
  let shi := cmpeqEpi16 nhi acch
  let smd := cmpeqEpi16 nhi nmd
  let cmask := andSi128 smd shi
  let cval := cmpeqEpi16 nhi zero
  blendvEpi8 cval accl cmask

def vmacf (u : Bool) : Vectors :=
  let lo := mulloEpi16 x.vs x.vte
  let hi := mulhiEpi16 x.vs x.vte
  let md := slliEpi16 hi 1
  let carry := srliEpi16 lo 15
  let hi := sraiEpi16 hi 15
  let md := orSi128 md carry
  let lo := slliEpi16 lo 1
  let omask := addsEpu16 x.accl lo
  let accl := addEpi16 x.accl lo
  let omask := wrapped accl omask
  let md := subEpi16 md omask
  let carry := cmpeqEpi16 md zero
  let carry := andSi128 carry omask
  let hi := subEpi16 hi carry
  let omask := addsEpu16 x.accm md
  let accm := addEpi16 x.accm md
  let omask := wrapped accm omask
  let acch := addEpi16 x.acch hi
  let acch := subEpi16 acch omask
  let vd :=
    if !u then packSlices accm acch
    else
      let mmask := sraiEpi16 accm 15
      let hmask := sraiEpi16 acch 15
      let md := orSi128 mmask accm
      let omask := cmpgtEpi16 acch zero
      let md := andnotSi128 hmask md
      orSi128 omask md
  { x with accl := accl, accm := accm, acch := acch, vd := vd }

def vmadh : Vectors :=
  let lo := mulloEpi16 x.vs x.vte
  let hi := mulhiEpi16 x.vs x.vte
  let omask := addsEpu16 x.accm lo
  let accm := addEpi16 x.accm lo
  let omask := wrapped accm omask
  let hi := subEpi16 hi omask
  let acch := addEpi16 x.acch hi
  { x with accm := accm, acch := acch, vd := packSlices accm acch }

def vmadl : Vectors :=
  let hi := mulhiEpu16 x.vs x.vte
  let omask := addsEpu16 x.accl hi
  let accl := addEpi16 x.accl hi
  let omask := wrapped accl omask
  let hi := subEpi16 zero omask
  let omask := addsEpu16 x.accm hi
  let accm := addEpi16 x.accm hi
  let omask := wrapped accm omask
  let acch := subEpi16 x.acch omask
  { x with accl := accl, accm := accm, acch := acch, vd := clampLow accl accm acch }

def mulhiMixed (signed unsigned : R128) : R128 :=
  let hi := mulhiEpu16 signed unsigned
  let sign := sraiEpi16 signed 15
  let vta := andSi128 unsigned sign
  subEpi16 hi vta

def addWord (lo hi : R128) : Vectors :=
  let omask := addsEpu16 x.accl lo
  let accl := addEpi16 x.accl lo
  let omask := wrapped accl omask
  let hi := subEpi16 hi omask
  let omask := addsEpu16 x.accm hi
  let accm := addEpi16 x.accm hi
  let omask := wrapped accm omask
  let hi := sraiEpi16 hi 15
  let acch := addEpi16 x.acch hi
  let acch := subEpi16 acch omask
  { x with accl := accl, accm := accm, acch := acch }

def vmadm : Vectors :=
  let x := x.addWord (mulloEpi16 x.vs x.vte) (mulhiMixed x.vs x.vte)
  { x with vd := packSlices x.accm x.acch }

def vmadn : Vectors :=
  let x := x.addWord (mulloEpi16 x.vs x.vte) (mulhiMixed x.vte x.vs)
  { x with vd := clampLow x.accl x.accm x.acch }

def vmrg : Vectors :=
  let accl := blendvEpi8 x.vte x.vs x.vccl
  { x with accl := accl, vcoh := zero, vcol := zero, vd := accl }

def vmudh : Vectors :=
  let accm := mulloEpi16 x.vs x.vte
  let acch := mulhiEpi16 x.vs x.vte
  { x with accl := zero, accm := accm, acch := acch, vd := packSlices accm acch }

def vmudl : Vectors :=
  let accl := mulhiEpu16 x.vs x.vte
  { x with accl := accl, accm := zero, acch := zero, vd := accl }

def vmudm : Vectors :=
  let accm := mulhiMixed x.vs x.vte
  { x with
    accl := mulloEpi16 x.vs x.vte
    accm := accm
    acch := sraiEpi16 accm 15
    vd := accm }

def vmudn : Vectors :=
  let accl := mulloEpi16 x.vs x.vte
  let accm := mulhiMixed x.vte x.vs
  { x with
    accl := accl
    accm := accm
    acch := sraiEpi16 accm 15
    vd := accl }

def vmulf (u : Bool) : Vectors :=
  let lo := mulloEpi16 x.vs x.vte
  let round := cmpeqEpi16 zero zero
  let sign1 := srliEpi16 lo 15
  let lo := addEpi16 lo lo
  let round := slliEpi16 round 15
  let hi := mulhiEpi16 x.vs x.vte
  let sign2 := srliEpi16 lo 15
  let accl := addEpi16 round lo
  let sign1 := addEpi16 sign1 sign2
  let hi := slliEpi16 hi 1
  let neq := cmpeqEpi16 x.vs x.vte
  let accm := addEpi16 hi sign1
  let neg := sraiEpi16 accm 15
  let acch := andnotSi128 neq neg
  let vd :=
    if !u then
      let eq := andSi128 neq neg
      addEpi16 accm eq
    else
      let hi := orSi128 accm neg
      andnotSi128 acch hi
  { x with accl := accl, accm := accm, acch := acch, vd := vd }

def vnand : Vectors :=
  let accl := xorSi128 (andSi128 x.vs x.vte) invert
  { x with accl := accl, vd := accl }

def vnor : Vectors :=
  let accl := xorSi128 (orSi128 x.vs x.vte) invert
  { x with accl := accl, vd := accl }

def vnxor : Vectors :=
  let accl := xorSi128 (xorSi128 x.vs x.vte) invert
  { x with accl := accl, vd := accl }

def vor : Vectors :=
  let accl := orSi128 x.vs x.vte
  { x with accl := accl, vd := accl }

def vsub : Vectors :=
  let udiff := subEpi16 x.vte x.vcol
  let sdiff := subsEpi16 x.vte x.vcol
  let ov := cmpgtEpi16 sdiff udiff
  let vd := subsEpi16 x.vs sdiff
  { x with
    accl := subEpi16 x.vs udiff
    vd := addsEpi16 vd ov
    vcol := zero
    vcoh := zero }

def vsubc : Vectors :=
  let udiff := subsEpu16 x.vs x.vte
  let equal := cmpeqEpi16 x.vs x.vte
  let diff0 := cmpeqEpi16 udiff zero
  let accl := subEpi16 x.vs x.vte
  { x with
    vcoh := cmpeqEpi16 equal zero
    vcol := andnotSi128 equal diff0
    accl := accl
    vd := accl }

def vxor : Vectors :=
  let accl := xorSi128 x.vs x.vte
  { x with accl := accl, vd := accl }

def vzero : Vectors :=
  { x with accl := addEpi16 x.vs x.vte, vd := xorSi128 x.vd x.vd }

end Vectors

def VectorOp.simd (op : VectorOp) (x : Vectors) : Vectors :=
  match op with
  | vabs => x.vabs
  | vadd => x.vadd
  | vaddc => x.vaddc
  | vand => x.vand
  | vch => x.vch
  | vcl => x.vcl
  | vcr => x.vcr
  | veq => x.veq
  | vge => x.vge
  | vlt => x.vlt
  | vmacf u => x.vmacf u
  | vmadh => x.vmadh
  | vmadl => x.vmadl
  | vmadm => x.vmadm
  | vmadn => x.vmadn
  | vmrg => x.vmrg
  | vmudh => x.vmudh
  | vmudl => x.vmudl
  | vmudm => x.vmudm
  | vmudn => x.vmudn
  | vmulf u => x.vmulf u
  | vnand => x.vnand
  | vne => x.vne
  | vnor => x.vnor
  | vnxor => x.vnxor
  | vor => x.vor
  | vsub => x.vsub
  | vsubc => x.vsubc
  | vxor => x.vxor
  | vzero => x.vzero

/-! ## Broadcast -/

/-- The bytes of `shuffle`, from the highest. -/
def shuffleBytes (index : Fin 16) : List Nat :=
  match index.val with
  | 0 | 1 => [15, 14, 13, 12, 11, 10, 9, 8, 7, 6, 5, 4, 3, 2, 1, 0]
  | 2 => [15, 14, 15, 14, 11, 10, 11, 10, 7, 6, 7, 6, 3, 2, 3, 2]
  | 3 => [13, 12, 13, 12, 9, 8, 9, 8, 5, 4, 5, 4, 1, 0, 1, 0]
  | 4 => [15, 14, 15, 14, 15, 14, 15, 14, 7, 6, 7, 6, 7, 6, 7, 6]
  | 5 => [13, 12, 13, 12, 13, 12, 13, 12, 5, 4, 5, 4, 5, 4, 5, 4]
  | 6 => [11, 10, 11, 10, 11, 10, 11, 10, 3, 2, 3, 2, 3, 2, 3, 2]
  | 7 => [9, 8, 9, 8, 9, 8, 9, 8, 1, 0, 1, 0, 1, 0, 1, 0]
  | 8 => [15, 14, 15, 14, 15, 14, 15, 14, 15, 14, 15, 14, 15, 14, 15, 14]
  | 9 => [13, 12, 13, 12, 13, 12, 13, 12, 13, 12, 13, 12, 13, 12, 13, 12]
  | 10 => [11, 10, 11, 10, 11, 10, 11, 10, 11, 10, 11, 10, 11, 10, 11, 10]
  | 11 => [9, 8, 9, 8, 9, 8, 9, 8, 9, 8, 9, 8, 9, 8, 9, 8]
  | 12 => [7, 6, 7, 6, 7, 6, 7, 6, 7, 6, 7, 6, 7, 6, 7, 6]
  | 13 => [5, 4, 5, 4, 5, 4, 5, 4, 5, 4, 5, 4, 5, 4, 5, 4]
  | 14 => [3, 2, 3, 2, 3, 2, 3, 2, 3, 2, 3, 2, 3, 2, 3, 2]
  | _ => [1, 0, 1, 0, 1, 0, 1, 0, 1, 0, 1, 0, 1, 0, 1, 0]

def R128.shuffle (v : R128) (index : Fin 16) : R128 := shuffleEpi8 v (setEpi8 (shuffleBytes index))

/-! ## An instruction -/

def Vu.simd (op : VectorOp) (e : Fin 16) (vd vs vt : Fin 32) (s : Vu) : Vu :=
  s.store vd (op.simd (s.load vd vs ((s.r vt).shuffle e)))

/-! ## Moves of flags -/

namespace Vu

variable (s : Vu)

def cfc2Simd (rd : BitVec 8) : BitVec 32 :=
  let pair := s.flagPair rd
  let reverse := setEpi8 [0, 1, 2, 3, 4, 5, 6, 7, 8, 9, 10, 11, 12, 13, 14, 15]
  (movemaskEpi8 (shuffleEpi8 (packsEpi16 pair.1 pair.2) reverse)).signExtend 32

def ctc2Simd (rt : BitVec 32) (rd : BitVec 8) : Vu :=
  let mask := setEpi16 [0x0101, 0x0202, 0x0404, 0x0808, 0x1010, 0x2020, 0x4040, 0x8080]
  let half (shift : Nat) : R128 :=
    cmpeqEpi8 (andSi128 (shuffleEpi8 ((~~~rt >>> shift).setWidth 128) 0) mask) 0
  s.setFlagPair rd (half 8, half 0)

end Vu

end N64ModernRuntime.Librecomp
