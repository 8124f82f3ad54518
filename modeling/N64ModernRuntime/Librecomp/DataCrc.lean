import N64ModernRuntime.Lib.PolynomialRemainder
import N64ModernRuntime.Librecomp.SiJoybus

/-!
# si_joybus.cpp: the CRC of an accessory block

`data_crc` is the remainder of the block's polynomial.
-/

set_option autoImplicit false

namespace N64ModernRuntime.Librecomp.DataCrc

open Polynomial PolynomialRemainder

/-- One turn of the inner loop, for the bit of the message. -/
def crcStep (crc : UInt32) (bit : Bool) : UInt32 :=
  let xorv : UInt32 := if crc &&& 0x80 ≠ 0 then 0x85 else 0
  let crc := crc <<< 1
  let crc := if bit then crc ||| 1 else crc
  crc ^^^ xorv

/-- `mask` runs from `0x80` down to `0x01`. -/
def crcMasks : List UInt8 := [0x80, 0x40, 0x20, 0x10, 0x08, 0x04, 0x02, 0x01]

/-- `i < 32 && (data[i] & mask)` -/
def messageBit (data : Vector UInt8 32) (i : Nat) (mask : UInt8) : Bool :=
  if inside : i < 32 then decide (data[i] &&& mask ≠ 0) else false

def dataCrc (data : Vector UInt8 32) : UInt8 :=
  ((List.range 33).foldl
    (fun crc i => crcMasks.foldl (fun crc mask => crcStep crc (messageBit data i mask)) crc)
    0).toUInt8

/-! ## The bits of the message -/

/-- The bits of a byte, from the highest on. -/
def byteBits (byte : UInt8) : List Bool := crcMasks.map fun mask => decide (byte &&& mask ≠ 0)

noncomputable def blockPoly : List UInt8 → (ZMod 2)[X]
  | [] => 0
  | byte :: rest => poly 8 byte.toBitVec * X ^ (8 * rest.length) + blockPoly rest

def roundBits (data : Vector UInt8 32) (i : Nat) : List Bool := crcMasks.map (messageBit data i)

theorem roundBits_block (data : Vector UInt8 32) :
    (List.range 32).map (roundBits data) = data.toList.map byteBits := by
  apply List.ext_getElem
  · rw [List.length_map, List.length_range, List.length_map, Vector.length_toList]
  · intro i below _
    rw [List.length_map, List.length_range] at below
    have bit (mask : UInt8) : messageBit data i mask = decide (data[i] &&& mask ≠ 0) :=
      dif_pos below
    rw [List.getElem_map, List.getElem_range, List.getElem_map, Vector.getElem_toList, roundBits,
      byteBits]
    exact List.map_congr_left fun mask _ => bit mask

theorem roundBits_last (data : Vector UInt8 32) : roundBits data 32 = List.replicate 8 false := by
  have bit (mask : UInt8) : messageBit data 32 mask = false := dif_neg (Nat.lt_irrefl 32)
  simp only [roundBits, crcMasks, List.map_cons, List.map_nil, bit]
  rfl

/-- The rounds take the bits of the block, and eight zero bits. -/
theorem dataCrc_eq_foldl (data : Vector UInt8 32) :
    dataCrc data = ((data.toList.flatMap byteBits ++ List.replicate 8 false).foldl crcStep
      0).toUInt8 := by
  have rounds (crc : UInt32) (i : Nat) :
      crcMasks.foldl (fun crc mask => crcStep crc (messageBit data i mask)) crc =
        (roundBits data i).foldl crcStep crc := by
    rw [roundBits, List.foldl_map]
  rw [dataCrc]
  simp only [rounds]
  rw [← List.foldl_flatMap, List.range_succ, List.flatMap_append, List.flatMap_def, roundBits_block,
    ← List.flatMap_def, List.flatMap_singleton, roundBits_last]

/-- The CRC with which the frames are answered. -/
theorem joybus_dataCrc (data : Vector UInt8 32) :
    SiJoybus.dataCrc data.toList = dataCrc data := by
  have step (crc : UInt32) (bit : Bool) :
      ((crc <<< 1) ||| (if bit then 1 else 0)) ^^^ (if crc &&& 0x80 ≠ 0 then 0x85 else 0) =
        crcStep crc bit := by
    cases bit with
    | true => rfl
    | false =>
        rw [if_neg Bool.false_ne_true, UInt32.or_zero]
        rfl
  rw [dataCrc_eq_foldl, SiJoybus.dataCrc]
  simp only [step]
  rfl

theorem mask_bit (byte mask : UInt8) {j : Nat} (below : j < 8)
    (is : mask.toBitVec = BitVec.twoPow 8 j) :
    decide (byte &&& mask ≠ 0) = byte.toBitVec.getLsbD j := by
  rw [Bool.eq_iff_iff, decide_eq_true_eq, ← and_twoPow_ne_zero _ below, ← is, Ne,
    ← UInt8.toBitVec_inj]
  rfl

theorem message_byteBits (byte : UInt8) : message (byteBits byte) = poly 8 byte.toBitVec := by
  have bits : byteBits byte = [7, 6, 5, 4, 3, 2, 1, 0].map byte.toBitVec.getLsbD := by
    simp only [byteBits, crcMasks, List.map_cons, List.map_nil]
    rw [mask_bit byte 0x80 (j := 7) (by decide) rfl, mask_bit byte 0x40 (j := 6) (by decide) rfl,
      mask_bit byte 0x20 (j := 5) (by decide) rfl, mask_bit byte 0x10 (j := 4) (by decide) rfl,
      mask_bit byte 0x08 (j := 3) (by decide) rfl, mask_bit byte 0x04 (j := 2) (by decide) rfl,
      mask_bit byte 0x02 (j := 1) (by decide) rfl, mask_bit byte 0x01 (j := 0) (by decide) rfl]
  rw [bits, message, poly]
  simp only [List.map_cons, List.map_nil, List.foldl_cons, List.foldl_nil, Finset.sum_range_succ,
    Finset.sum_range_zero]
  ring

theorem length_blockBits (bytes : List UInt8) :
    (bytes.flatMap byteBits).length = 8 * bytes.length := by
  induction bytes with
  | nil => rfl
  | cons byte rest ih =>
      rw [List.flatMap_cons, List.length_append, ih, List.length_cons]
      have eight : (byteBits byte).length = 8 := rfl
      omega

theorem message_blockBits (bytes : List UInt8) :
    message (bytes.flatMap byteBits) = blockPoly bytes := by
  induction bytes with
  | nil => rfl
  | cons byte rest ih =>
      rw [List.flatMap_cons, message_append, message_byteBits, length_blockBits, ih, blockPoly]

/-! ## The register -/

theorem crcStep_toBitVec (crc : UInt32) (bit : Bool) :
    (crcStep crc bit).toBitVec = shiftIn 8 0x85#32 crc.toBitVec bit := by
  have out : crc &&& 0x80 ≠ 0 ↔ crc.toBitVec.getLsbD 7 = true := by
    rw [← and_twoPow_ne_zero crc.toBitVec (j := 7) (by decide), Ne, ← UInt32.toBitVec_inj]
    exact Iff.rfl
  rw [crcStep, shiftIn]
  simp only [out, UInt32.toBitVec_xor]
  congr 1
  · cases bit with
    | true => rfl
    | false => rfl
  · split <;> rfl

theorem foldl_crcStep (bits : List Bool) (crc : UInt32) :
    (bits.foldl crcStep crc).toBitVec = bits.foldl (shiftIn 8 0x85#32) crc.toBitVec := by
  induction bits generalizing crc with
  | nil => rfl
  | cons bit bits ih => rw [List.foldl_cons, List.foldl_cons, ih, crcStep_toBitVec]

theorem divisor_eq : divisor 8 0x85#32 = X ^ 8 + X ^ 7 + X ^ 2 + 1 := by
  have taps : (0x85#32 : BitVec 32) =
      BitVec.twoPow 32 7 ^^^ BitVec.twoPow 32 2 ^^^ BitVec.twoPow 32 0 := by decide
  rw [divisor, taps, poly_xor, poly_xor, poly_twoPow (by decide) (by decide),
    poly_twoPow (by decide) (by decide), poly_twoPow (by decide) (by decide), pow_zero, ← add_assoc,
    ← add_assoc]

theorem poly_dataCrc (data : Vector UInt8 32) :
    poly 8 (dataCrc data).toBitVec =
      (blockPoly data.toList * X ^ 8) %ₘ divisor 8 0x85#32 := by
  rw [dataCrc_eq_foldl, UInt32.toBitVec_toUInt8, poly_setWidth (Nat.le_refl 8), foldl_crcStep,
    poly_run (by decide) (by decide), message_append, message_blockBits, message_zeroes,
    List.length_replicate]
  have empty : poly 8 (0 : UInt32).toBitVec = 0 := poly_zero 8
  rw [empty, zero_mul, zero_add, add_zero]

/-! ## Changes of the block -/

theorem blockPoly_xor (block other : List UInt8) (same : block.length = other.length) :
    blockPoly (List.zipWith (· ^^^ ·) block other) = blockPoly block + blockPoly other := by
  induction block generalizing other with
  | nil =>
      cases other with
      | nil => exact (add_zero 0).symm
      | cons byte other => cases same
  | cons byte block ih =>
      cases other with
      | nil => cases same
      | cons byte' other =>
          have tails := Nat.succ.inj same
          rw [List.zipWith_cons_cons, blockPoly, blockPoly, blockPoly, ih other tails,
            List.length_zipWith, ← tails, Nat.min_self, UInt8.toBitVec_xor, poly_xor]
          ring

theorem blockPoly_set (block : List UInt8) (i : Nat) (inside : i < block.length) (change : UInt8) :
    blockPoly (block.set i (block[i] ^^^ change)) =
      blockPoly block + poly 8 change.toBitVec * X ^ (8 * (block.length - 1 - i)) := by
  induction block generalizing i with
  | nil => cases inside
  | cons byte block ih =>
      cases i with
      | zero =>
          rw [List.set_cons_zero, List.getElem_cons_zero, blockPoly, blockPoly, UInt8.toBitVec_xor,
            poly_xor, List.length_cons, Nat.add_sub_cancel, Nat.sub_zero]
          ring
      | succ i =>
          have below : i < block.length := Nat.lt_of_succ_lt_succ inside
          have behind : (byte :: block).length - 1 - (i + 1) = block.length - 1 - i := by
            rw [List.length_cons]
            omega
          rw [List.set_cons_succ, List.getElem_cons_succ, blockPoly, blockPoly, ih i below,
            List.length_set, behind, add_assoc]

def flipBit (data : Vector UInt8 32) (i : Fin 32) (j : Fin 8) : Vector UInt8 32 :=
  data.set i (data[i] ^^^ UInt8.ofBitVec (BitVec.twoPow 8 j))

theorem dataCrc_xor (data other : Vector UInt8 32) :
    dataCrc (data.zipWith (· ^^^ ·) other) = dataCrc data ^^^ dataCrc other := by
  apply UInt8.toBitVec_inj.mp
  apply poly_injective
  rw [UInt8.toBitVec_xor, poly_xor, poly_dataCrc, poly_dataCrc, poly_dataCrc,
    Vector.toList_zipWith, blockPoly_xor _ _ (by rw [Vector.length_toList, Vector.length_toList]),
    add_mul, add_modByMonic]

theorem dataCrc_flipBit (data : Vector UInt8 32) (i : Fin 32) (j : Fin 8) :
    dataCrc (flipBit data i j) ≠ dataCrc data := by
  intro same
  have polys := congrArg (fun crc : UInt8 => poly 8 crc.toBitVec) same
  have inside : i.val < data.toList.length := by
    rw [Vector.length_toList]
    exact i.isLt
  have block : (flipBit data i j).toList =
      data.toList.set i (data.toList[i.val] ^^^ UInt8.ofBitVec (BitVec.twoPow 8 j)) := by
    rw [flipBit, Vector.toList_set, Vector.getElem_toList]
    rfl
  simp only [poly_dataCrc, block] at polys
  rw [blockPoly_set _ _ inside, poly_twoPow j.isLt (Nat.le_refl 8), add_mul, add_modByMonic,
    add_eq_left, ← pow_add, ← pow_add] at polys
  exact X_pow_mod_divisor (by decide) (by decide) _ polys

theorem data_crc_remainder (data : Vector UInt8 32) :
    poly 8 (dataCrc data).toBitVec =
        (blockPoly data.toList * X ^ 8) %ₘ (X ^ 8 + X ^ 7 + X ^ 2 + 1) ∧
      (∀ other, dataCrc (data.zipWith (· ^^^ ·) other) = dataCrc data ^^^ dataCrc other) ∧
      ∀ (i : Fin 32) (j : Fin 8), dataCrc (flipBit data i j) ≠ dataCrc data := by
  refine ⟨?_, dataCrc_xor data, dataCrc_flipBit data⟩
  rw [poly_dataCrc, divisor_eq]

end N64ModernRuntime.Librecomp.DataCrc
