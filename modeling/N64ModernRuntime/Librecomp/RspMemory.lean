import N64ModernRuntime.Librecomp.RspDma
import N64ModernRuntime.Librecomp.RspVector

/-!
# rsp_vu_impl.hpp: loads and stores of the vector unit

`rs` is the value of the base register.  Addresses and offsets are unsigned words, so
the differences wrap; a byte of the data memory is signed where it is shifted.
-/

set_option autoImplicit false

namespace N64ModernRuntime.Librecomp

open Sse

abbrev Dmem := BitVec 12 → BitVec 8

/-! ## Loads -/

section Loads

variable (e : Fin 16) (dmem : Dmem) (rs : BitVec 32) (imm : BitVec 8) (vt : R128)

/-- `RSP_MEM_B(0, address)` -/
def rspMemB (address : BitVec 32) : BitVec 8 := dmem (dmemIndex address)

/-- `rs + imm * scale` -/
def effectiveAddress (scale : Nat) : BitVec 32 := rs + imm.signExtend 32 * BitVec.ofNat 32 scale

/-- `for (u32 offset = start; offset < end; offset++) vt.byte(offset & 15) =
RSP_MEM_B(0, address++);` -/
def loadBytes (start stop : Nat) (address : BitVec 32) : R128 :=
  (List.range (stop - start)).foldl (fun vt k =>
    vt.setByte (Fin.ofNat 16 (start + k)) (rspMemB dmem (address + BitVec.ofNat 32 k))) vt

def lbv : R128 := vt.setByte e (rspMemB dmem (effectiveAddress rs imm 1))

def ldv : R128 := loadBytes dmem vt e.val (min (e.val + 8) 16) (effectiveAddress rs imm 8)

def llv : R128 := loadBytes dmem vt e.val (min (e.val + 4) 16) (effectiveAddress rs imm 4)

def lsv : R128 := loadBytes dmem vt e.val (min (e.val + 2) 16) (effectiveAddress rs imm 2)

def lqv : R128 :=
  let address := effectiveAddress rs imm 16
  let stop := 16 + BitVec.ofNat 32 e.val - (address &&& 15)
  loadBytes dmem vt e.val (min stop.toNat 16) address

def lrv : R128 :=
  let address := effectiveAddress rs imm 16
  let start := 16 - ((address &&& 15) - BitVec.ofNat 32 e.val)
  loadBytes dmem vt start.toNat 16 (address &&& ~~~15)

/-- The elements are bytes of one block of sixteen, `step` apart and shifted. -/
def loadElements (step shift scale : Nat) : R128 :=
  let address := effectiveAddress rs imm scale
  let index := (address &&& 7) - BitVec.ofNat 32 e.val
  let address := address &&& ~~~7
  (List.finRange 8).foldl (fun vt offset => vt.setElement offset
    ((rspMemB dmem (address + ((index + BitVec.ofNat 32 (offset.val * step)) &&& 15))).signExtend 16
      <<< shift)) vt

def lhv : R128 := loadElements e dmem rs imm vt 2 7 16

def lpv : R128 := loadElements e dmem rs imm vt 1 8 8

def luv : R128 := loadElements e dmem rs imm vt 1 7 8

def lfv : R128 :=
  let address := effectiveAddress rs imm 16
  let index := (address &&& 7) - BitVec.ofNat 32 e.val
  let address := address &&& ~~~7
  let fraction (k : Nat) : BitVec 16 :=
    (rspMemB dmem (address + ((index + BitVec.ofNat 32 k) &&& 15))).signExtend 16 <<< 7
  let tmp : R128 := (List.finRange 4).foldl (fun tmp offset =>
    (R128.setElement tmp (Fin.ofNat 8 offset.val) (fraction (offset.val * 4))).setElement
      (Fin.ofNat 8 (offset.val + 4)) (fraction (offset.val * 4 + 8))) (0 : BitVec 128)
  (List.range (min (e.val + 8) 16 - e.val)).foldl (fun vt k =>
    vt.setByte (Fin.ofNat 16 (e.val + k)) (tmp.byte (Fin.ofNat 16 (e.val + k)))) vt

/-- The offsets from `16 - e` to `e + 16` with every fourth byte. -/
def lwv : R128 :=
  let address := effectiveAddress rs imm 16
  (List.range (e.val + 16 - (16 - e.val))).foldl (fun vt k =>
    vt.setByte (Fin.ofNat 16 (16 - e.val + k))
      (rspMemB dmem (address + BitVec.ofNat 32 (4 * k)))) vt

end Loads

/-- `vpu.r[vtbase + vtoff]` -/
def blockRegister (vt : Fin 32) (vtoff : Nat) : Fin 32 := Fin.ofNat 32 (vt.val / 8 * 8 + vtoff)

/-- `LTV`; the state of the loop is the registers, `address` and `vtoff`. -/
def ltv (e : Fin 16) (dmem : Dmem) (rs : BitVec 32) (imm : BitVec 8) (vt : Fin 32)
    (r : Fin 32 → R128) : Fin 32 → R128 :=
  let address := effectiveAddress rs imm 16
  let begin_ := address &&& ~~~7
  let next (address : BitVec 32) : BitVec 32 :=
    if address + 1 = begin_ + 16 then begin_ else address + 1
  let first := begin_ + ((BitVec.ofNat 32 e.val + (address &&& 8)) &&& 15)
  ((List.finRange 8).foldl (fun (state : (Fin 32 → R128) × BitVec 32 × Nat) i =>
    let (r, address, vtoff) := state
    let at_ := blockRegister vt vtoff
    let v := (r at_).setByte (Fin.ofNat 16 (i.val * 2 + 0)) (rspMemB dmem address)
    let address := next address
    let v := v.setByte (Fin.ofNat 16 (i.val * 2 + 1)) (rspMemB dmem address)
    (Function.update r at_ v, next address, (vtoff + 1) % 8)) (r, first, e.val / 2)).1

/-! ## Stores -/

section Stores

variable (e : Fin 16) (vt : R128) (rs : BitVec 32) (imm : BitVec 8) (dmem : Dmem)

/-- `RSP_MEM_B(0, address) = value` -/
def setRspMemB (address : BitVec 32) (value : BitVec 8) (dmem : Dmem) : Dmem :=
  Function.update dmem (dmemIndex address) value

/-- `for (u32 offset = start; offset < end; offset++) RSP_MEM_B(0, address++) = …;` -/
def storeBytes (start count : Nat) (value : Nat → BitVec 8) (address : BitVec 32) : Dmem :=
  (List.range count).foldl (fun dmem k =>
    setRspMemB (address + BitVec.ofNat 32 k) (value (start + k)) dmem) dmem

def sbv : Dmem := setRspMemB (effectiveAddress rs imm 1) (vt.byte e) dmem

def sdv : Dmem :=
  storeBytes dmem e.val 8 (fun offset => vt.byte (Fin.ofNat 16 offset)) (effectiveAddress rs imm 8)

def slv : Dmem :=
  storeBytes dmem e.val 4 (fun offset => vt.byte (Fin.ofNat 16 offset)) (effectiveAddress rs imm 4)

def ssv : Dmem :=
  storeBytes dmem e.val 2 (fun offset => vt.byte (Fin.ofNat 16 offset)) (effectiveAddress rs imm 2)

def sqv : Dmem :=
  let address := effectiveAddress rs imm 16
  storeBytes dmem e.val (16 - (address &&& 15)).toNat (fun offset => vt.byte (Fin.ofNat 16 offset))
    address

def srv : Dmem :=
  let address := effectiveAddress rs imm 16
  let base := 16 - (address &&& 15)
  storeBytes dmem e.val (address &&& 15).toNat
    (fun offset => vt.byte (Fin.ofNat 16 (offset + base.toNat))) (address &&& ~~~15)

/-- A byte of `SPV` and `SUV`: from the element for one half of the offsets, else its high byte. -/
def packedByte (low : Bool) (offset : Nat) : BitVec 8 :=
  if low then vt.byte (Fin.ofNat 16 (offset % 8 * 2))
  else (vt.element (Fin.ofNat 8 offset) >>> 7).setWidth 8

def spv : Dmem :=
  storeBytes dmem e.val 8 (fun offset => packedByte vt (decide (offset % 16 < 8)) offset)
    (effectiveAddress rs imm 8)

def suv : Dmem :=
  storeBytes dmem e.val 8 (fun offset => packedByte vt (!decide (offset % 16 < 8)) offset)
    (effectiveAddress rs imm 8)

/-- The elements that `SFV` stores, by `e`; for the others it stores zeros. -/
def fractionElements : Option (Fin 8 × Fin 8 × Fin 8 × Fin 8) :=
  match e.val with
  | 0 | 15 => some (0, 1, 2, 3)
  | 1 => some (6, 7, 4, 5)
  | 4 => some (1, 2, 3, 0)
  | 5 => some (7, 4, 5, 6)
  | 8 => some (4, 5, 6, 7)
  | 11 => some (3, 0, 1, 2)
  | 12 => some (5, 6, 7, 4)
  | _ => none

def sfv : Dmem :=
  let address := effectiveAddress rs imm 16
  let base := address &&& 7
  let address := address &&& ~~~7
  let place (k : Nat) : BitVec 32 := address + ((base + BitVec.ofNat 32 k) &&& 15)
  let fraction (n : Fin 8) : BitVec 8 := (vt.element n >>> 7).setWidth 8
  let store (a b c d : BitVec 8) : Dmem :=
    setRspMemB (place 12) d (setRspMemB (place 8) c (setRspMemB (place 4) b
      (setRspMemB (place 0) a dmem)))
  match fractionElements e with
  | some (a, b, c, d) => store (fraction a) (fraction b) (fraction c) (fraction d)
  | none => store 0 0 0 0

def shv : Dmem :=
  let address := effectiveAddress rs imm 16
  let index := address &&& 7
  let address := address &&& ~~~7
  (List.range 8).foldl (fun dmem offset =>
    let byte := e.val + offset * 2
    let value := vt.byte (Fin.ofNat 16 byte) <<< 1 ||| vt.byte (Fin.ofNat 16 (byte + 1)) >>> 7
    setRspMemB (address + ((index + BitVec.ofNat 32 (offset * 2)) &&& 15)) value dmem) dmem

def swv : Dmem :=
  let address := effectiveAddress rs imm 16
  let base := address &&& 7
  let address := address &&& ~~~7
  (List.range 16).foldl (fun dmem k =>
    setRspMemB (address + ((base + BitVec.ofNat 32 k) &&& 15)) (vt.byte (Fin.ofNat 16 (e.val + k)))
      dmem) dmem

end Stores

/-- `STV`; `element` and `base` grow by two in every round. -/
def stv (e : Fin 16) (vt : Fin 32) (r : Fin 32 → R128) (rs : BitVec 32) (imm : BitVec 8)
    (dmem : Dmem) : Dmem :=
  let address := effectiveAddress rs imm 16
  let even := e.val / 2 * 2
  let element := 16 - even
  let base := (address &&& 7) - BitVec.ofNat 32 even
  let address := address &&& ~~~7
  (List.range 8).foldl (fun dmem k =>
    let v := r (blockRegister vt k)
    let store (j : Nat) (dmem : Dmem) : Dmem :=
      setRspMemB (address + ((base + BitVec.ofNat 32 (2 * k + j)) &&& 15))
        (v.byte (Fin.ofNat 16 (element + 2 * k + j))) dmem
    store 1 (store 0 dmem)) dmem

/-! ## By kind -/

inductive LoadOp where
  | lbv | ldv | lfv | lhv | llv | lpv | lqv | lrv | lsv | luv | lwv
  deriving DecidableEq, Repr

def LoadOp.body (op : LoadOp) : Fin 16 → Dmem → BitVec 32 → BitVec 8 → R128 → R128 :=
  match op with
  | lbv => Librecomp.lbv
  | ldv => Librecomp.ldv
  | lfv => Librecomp.lfv
  | lhv => Librecomp.lhv
  | llv => Librecomp.llv
  | lpv => Librecomp.lpv
  | lqv => Librecomp.lqv
  | lrv => Librecomp.lrv
  | lsv => Librecomp.lsv
  | luv => Librecomp.luv
  | lwv => Librecomp.lwv

inductive StoreOp where
  | sbv | sdv | sfv | shv | slv | spv | sqv | srv | ssv | suv | swv
  deriving DecidableEq, Repr

def StoreOp.body (op : StoreOp) : Fin 16 → R128 → BitVec 32 → BitVec 8 → Dmem → Dmem :=
  match op with
  | sbv => Librecomp.sbv
  | sdv => Librecomp.sdv
  | sfv => Librecomp.sfv
  | shv => Librecomp.shv
  | slv => Librecomp.slv
  | spv => Librecomp.spv
  | sqv => Librecomp.sqv
  | srv => Librecomp.srv
  | ssv => Librecomp.ssv
  | suv => Librecomp.suv
  | swv => Librecomp.swv

end N64ModernRuntime.Librecomp
