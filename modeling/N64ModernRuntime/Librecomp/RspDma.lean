import N64ModernRuntime.Lib.PairedCopy
import N64ModernRuntime.Librecomp.ModLayout

/-!
# rsp.hpp: the DMA of the RSP

`DO_DMA_READ` and `DO_DMA_WRITE` with their copy loops, over a memory of `w` bits of
addresses.  The trace of the rows is left out.
-/

set_option autoImplicit false

namespace N64ModernRuntime.Librecomp

open SwappedWords

/-! ## The length register -/

section LengthRegister

variable (lenReg : BitVec 32)

def rspDmaBlockLen : BitVec 32 := (lenReg &&& 0xFF8#32) + 8#32

def rspDmaCount : BitVec 32 := (lenReg >>> 12) &&& 0xFF#32

def rspDmaSkip : BitVec 32 := (lenReg >>> 20) &&& 0xFF8#32

def rspDmaPbusIncrement : BitVec 32 := (rspDmaCount lenReg + 1#32) * rspDmaBlockLen lenReg

def rspDmaDramIncrement : BitVec 32 :=
  rspDmaPbusIncrement lenReg + rspDmaCount lenReg * rspDmaSkip lenReg

end LengthRegister

/-! ## The memories -/

structure RspDma (w : Nat) where
  dmem : BitVec 12 → BitVec 8
  rdram : HostBytes w
  dmaMemAddress : BitVec 32
  dmaDramAddress : BitVec 32

/-- Where in `dmem` the byte `RSP_MEM_B(offset, addr)` lies, for `at_ = offset + addr`. -/
def dmemIndex (at_ : BitVec 32) : BitVec 12 := (at_ ^^^ 3#32).setWidth 12

/-- `(int64_t)(int32_t)(dramAt + 0x80000000)` -/
def dramReg (dramAt : BitVec 32) : Gpr := sx32 (dramAt + 0x80000000#32)

section Loops

variable {σ : Type}

def dmaRow (copyByte : BitVec 32 → BitVec 32 → σ → σ) (blockLen curDmem curDram : BitVec 32)
    (s : σ) : σ :=
  (List.range blockLen.toNat).foldl
    (fun s i => copyByte (BitVec.ofNat 32 i + curDmem) (curDram + BitVec.ofNat 32 i) s) s

/-- The rows from one on, by the number of rows that come after it. -/
def dmaRows (copyByte : BitVec 32 → BitVec 32 → σ → σ) (blockLen skip : BitVec 32) :
    Nat → BitVec 32 → BitVec 32 → σ → σ
  | 0, curDmem, curDram, s => dmaRow copyByte blockLen curDmem curDram s
  | rows + 1, curDmem, curDram, s =>
      dmaRows copyByte blockLen skip rows ((curDmem + blockLen) &&& 0x0FFF#32)
        ((((curDram + blockLen) &&& 0xFFFFF8#32) + skip) &&& 0xFFFFF8#32)
        (dmaRow copyByte blockLen curDmem curDram s)

def dmaTransfer (copyByte : BitVec 32 → BitVec 32 → σ → σ) (dmemAddr dramAddr len : BitVec 32)
    (s : σ) : σ :=
  dmaRows copyByte (rspDmaBlockLen len) (rspDmaSkip len) (rspDmaCount len).toNat
    (dmemAddr &&& 0x0FF8#32) (dramAddr &&& 0xFFFFF8#32) s

/-- The places of the bytes that are copied, in `dmem` and in RDRAM, in order: the loops with
each byte written down. -/
def dmaPlaces (dmemAddr dramAddr len : BitVec 32) : List (BitVec 32 × BitVec 32) :=
  dmaTransfer (fun dmemAt dramAt places => places ++ [(dmemAt, dramAt)]) dmemAddr dramAddr len []

end Loops

namespace RspDma

variable {w : Nat} (r : RspDma w)

/-- `MEM_B(0, (int64_t)(int32_t)(dramAt + 0x80000000))` -/
def memB (dramAt : BitVec 32) : BitVec 8 := r.rdram.byte (place w (dramReg dramAt))

/-- `RSP_MEM_B(i, cur_dmem) = MEM_B(...)` -/
def readByte (dmemAt dramAt : BitVec 32) (r : RspDma w) : RspDma w :=
  { r with dmem := Function.update r.dmem (dmemIndex dmemAt) (r.memB dramAt) }

/-- `MEM_B(...) = RSP_MEM_B(i, cur_dmem)` -/
def writeByte (dmemAt dramAt : BitVec 32) (r : RspDma w) : RspDma w :=
  { r with rdram := r.rdram.setByte (place w (dramReg dramAt)) (r.dmem (dmemIndex dmemAt)) }

def dmaRdramToDmem (dmemAddr dramAddr rdLen : BitVec 32) : RspDma w :=
  dmaTransfer readByte dmemAddr dramAddr rdLen r

def dmaDmemToRdram (dmemAddr dramAddr wrLen : BitVec 32) : RspDma w :=
  dmaTransfer writeByte dmemAddr dramAddr wrLen r

def setDmaMem (memAddr : BitVec 32) : RspDma w := { r with dmaMemAddress := memAddr }

def setDmaDram (dramAddr : BitVec 32) : RspDma w := { r with dmaDramAddress := dramAddr }

def advance (lenReg : BitVec 32) : RspDma w :=
  { r with
    dmaMemAddress := r.dmaMemAddress + rspDmaPbusIncrement lenReg
    dmaDramAddress := r.dmaDramAddress + rspDmaDramIncrement lenReg }

def doDmaRead (rdLen : BitVec 32) : RspDma w :=
  (r.dmaRdramToDmem r.dmaMemAddress r.dmaDramAddress rdLen).advance rdLen

def doDmaWrite (wrLen : BitVec 32) : RspDma w :=
  (r.dmaDmemToRdram r.dmaMemAddress r.dmaDramAddress wrLen).advance wrLen

end RspDma

/-! ## Fields and masks -/

theorem and_field (n k j : Nat) : n &&& (2 ^ k - 1) * 2 ^ j = n / 2 ^ j % 2 ^ k * 2 ^ j := by
  apply Nat.eq_of_testBit_eq
  intro i
  rw [Nat.testBit_and, Nat.testBit_mul_two_pow, Nat.testBit_mul_two_pow,
    Nat.testBit_two_pow_sub_one, Nat.testBit_mod_two_pow, Nat.testBit_div_two_pow]
  by_cases above : j ≤ i
  · rw [decide_eq_true above, Nat.sub_add_cancel above, Bool.true_and, Bool.true_and, Bool.and_comm]
  · rw [decide_eq_false above, Bool.false_and, Bool.false_and, Bool.and_false]

section Masks

variable (x : BitVec 32)

theorem toNat_and_field {mask : BitVec 32} (k j : Nat) (is : mask.toNat = (2 ^ k - 1) * 2 ^ j) :
    (x &&& mask).toNat = x.toNat / 2 ^ j % 2 ^ k * 2 ^ j := by
  rw [BitVec.toNat_and, is, and_field]

theorem toNat_and_FF8 : (x &&& 0xFF8#32).toNat = x.toNat / 8 % 512 * 8 :=
  toNat_and_field x 9 3 rfl

theorem toNat_and_FFFFF8 : (x &&& 0xFFFFF8#32).toNat = x.toNat / 8 % 2097152 * 8 :=
  toNat_and_field x 21 3 rfl

theorem toNat_and_FFF : (x &&& 0xFFF#32).toNat = x.toNat % 4096 := by
  rw [toNat_and_field x 12 0 rfl, Nat.pow_zero, Nat.div_one, Nat.mul_one]
  rfl

theorem toNat_and_FFFFFF : (x &&& 0xFFFFFF#32).toNat = x.toNat % 16777216 := by
  rw [toNat_and_field x 24 0 rfl, Nat.pow_zero, Nat.div_one, Nat.mul_one]
  rfl

end Masks

/-- The lengths of one DMA: whole doublewords, and rows that do not span the DRAM. -/
structure DmaLengths (blockLen skip : BitVec 32) (rows : Nat) : Prop where
  blockWhole : blockLen.toNat % 8 = 0
  blockPos : 8 ≤ blockLen.toNat
  blockLe : blockLen.toNat ≤ 4096
  skipWhole : skip.toNat % 8 = 0
  skipLe : skip.toNat ≤ 4088
  rowsLe : rows ≤ 255

theorem dmaLengths (lenReg : BitVec 32) :
    DmaLengths (rspDmaBlockLen lenReg) (rspDmaSkip lenReg) (rspDmaCount lenReg).toNat := by
  have block : (rspDmaBlockLen lenReg).toNat = lenReg.toNat / 8 % 512 * 8 + 8 := by
    rw [rspDmaBlockLen, BitVec.toNat_add, toNat_and_FF8]
    change (lenReg.toNat / 8 % 512 * 8 + 8) % 2 ^ 32 = _
    omega
  have skip : (rspDmaSkip lenReg).toNat = (lenReg >>> 20).toNat / 8 % 512 * 8 := by
    rw [rspDmaSkip, toNat_and_FF8]
  have count : (rspDmaCount lenReg).toNat = (lenReg >>> 12).toNat % 256 := by
    rw [rspDmaCount, toNat_and_field _ 8 0 rfl, Nat.pow_zero, Nat.div_one, Nat.mul_one]
    rfl
  constructor <;> omega

/-! ## The places of a DMA -/

section Places

variable {σ : Type}

def rowPlaces (blockLen curDmem curDram : BitVec 32) : List (BitVec 32 × BitVec 32) :=
  (List.range blockLen.toNat).map fun i =>
    (BitVec.ofNat 32 i + curDmem, curDram + BitVec.ofNat 32 i)

def nextDmem (blockLen curDmem : BitVec 32) : BitVec 32 := (curDmem + blockLen) &&& 0x0FFF#32

def nextDram (blockLen skip curDram : BitVec 32) : BitVec 32 :=
  (((curDram + blockLen) &&& 0xFFFFF8#32) + skip) &&& 0xFFFFF8#32

def rowsPlaces (blockLen skip : BitVec 32) :
    Nat → BitVec 32 → BitVec 32 → List (BitVec 32 × BitVec 32)
  | 0, curDmem, curDram => rowPlaces blockLen curDmem curDram
  | rows + 1, curDmem, curDram =>
      rowPlaces blockLen curDmem curDram ++
        rowsPlaces blockLen skip rows (nextDmem blockLen curDmem) (nextDram blockLen skip curDram)

theorem dmaRow_eq_foldl (copyByte : BitVec 32 → BitVec 32 → σ → σ)
    (blockLen curDmem curDram : BitVec 32) (s : σ) :
    dmaRow copyByte blockLen curDmem curDram s =
      (rowPlaces blockLen curDmem curDram).foldl (fun s p => copyByte p.1 p.2 s) s := by
  rw [rowPlaces, List.foldl_map]
  rfl

theorem dmaRows_eq_foldl (copyByte : BitVec 32 → BitVec 32 → σ → σ) (blockLen skip : BitVec 32)
    (rows : Nat) (curDmem curDram : BitVec 32) (s : σ) :
    dmaRows copyByte blockLen skip rows curDmem curDram s =
      (rowsPlaces blockLen skip rows curDmem curDram).foldl (fun s p => copyByte p.1 p.2 s) s := by
  induction rows generalizing curDmem curDram s with
  | zero => exact dmaRow_eq_foldl copyByte blockLen curDmem curDram s
  | succ rows ih =>
      rw [dmaRows, dmaRow_eq_foldl, ih, rowsPlaces, List.foldl_append]
      rfl

theorem foldl_noted (places front : List (BitVec 32 × BitVec 32)) :
    places.foldl (fun noted p => noted ++ [(p.1, p.2)]) front = front ++ places := by
  induction places generalizing front with
  | nil => exact (List.append_nil front).symm
  | cons p places ih => rw [List.foldl_cons, ih, List.append_assoc, List.singleton_append]

theorem dmaPlaces_eq (dmemAddr dramAddr len : BitVec 32) :
    dmaPlaces dmemAddr dramAddr len =
      rowsPlaces (rspDmaBlockLen len) (rspDmaSkip len) (rspDmaCount len).toNat
        (dmemAddr &&& 0x0FF8#32) (dramAddr &&& 0xFFFFF8#32) := by
  rw [dmaPlaces, dmaTransfer, dmaRows_eq_foldl, foldl_noted, List.nil_append]

/-- A transfer copies the bytes at its places, in order. -/
theorem dmaTransfer_eq_foldl (copyByte : BitVec 32 → BitVec 32 → σ → σ)
    (dmemAddr dramAddr len : BitVec 32) (s : σ) :
    dmaTransfer copyByte dmemAddr dramAddr len s =
      (dmaPlaces dmemAddr dramAddr len).foldl (fun s p => copyByte p.1 p.2 s) s := by
  rw [dmaPlaces_eq, dmaTransfer, dmaRows_eq_foldl]

end Places

/-! ## Past the last byte -/

section LastByte

variable {blockLen skip : BitVec 32} {rows : Nat} {curDmem curDram : BitVec 32}

theorem nextDmem_toNat (lengths : DmaLengths blockLen skip rows) (inside : curDmem.toNat < 4096) :
    (nextDmem blockLen curDmem).toNat = (curDmem.toNat + blockLen.toNat) % 4096 := by
  have fits : curDmem.toNat + blockLen.toNat < 2 ^ 32 :=
    Nat.lt_of_lt_of_le (Nat.add_lt_add_of_lt_of_le inside lengths.blockLe) (by decide)
  rw [nextDmem, toNat_and_FFF, BitVec.toNat_add, Nat.mod_eq_of_lt fits]

theorem nextDram_toNat (lengths : DmaLengths blockLen skip rows)
    (inside : curDram.toNat < 16777216) (whole : curDram.toNat % 8 = 0) :
    (nextDram blockLen skip curDram).toNat =
      (curDram.toNat + blockLen.toNat + skip.toNat) % 16777216 := by
  have fits : curDram.toNat + blockLen.toNat < 2 ^ 32 :=
    Nat.lt_of_lt_of_le (Nat.add_lt_add_of_lt_of_le inside lengths.blockLe) (by decide)
  have := lengths.blockWhole
  have := lengths.skipLe
  have := lengths.skipWhole
  rw [nextDram, toNat_and_FFFFF8, BitVec.toNat_add, toNat_and_FFFFF8, BitVec.toNat_add,
    Nat.mod_eq_of_lt fits]
  omega

theorem rowPlaces_last (lengths : DmaLengths blockLen skip rows) (inside : curDmem.toNat < 4096)
    (inside' : curDram.toNat < 16777216) :
    ∃ dmemAt dramAt, (rowPlaces blockLen curDmem curDram).getLast? = some (dmemAt, dramAt) ∧
      dmemAt.toNat + 1 = curDmem.toNat + blockLen.toNat ∧
      dramAt.toNat + 1 = curDram.toNat + blockLen.toNat := by
  have fits : curDmem.toNat + blockLen.toNat < 2 ^ 32 :=
    Nat.lt_of_lt_of_le (Nat.add_lt_add_of_lt_of_le inside lengths.blockLe) (by decide)
  have fits' : curDram.toNat + blockLen.toNat < 2 ^ 32 :=
    Nat.lt_of_lt_of_le (Nat.add_lt_add_of_lt_of_le inside' lengths.blockLe) (by decide)
  obtain ⟨n, length⟩ : ∃ n, blockLen.toNat = n + 1 :=
    ⟨blockLen.toNat - 1, by have := lengths.blockPos; omega⟩
  rw [length] at fits fits'
  refine ⟨_, _, by rw [rowPlaces, length, List.range_succ, List.map_append, List.map_singleton,
    List.getLast?_concat], ?_, ?_⟩
  · rw [BitVec.toNat_add, BitVec.toNat_ofNat, length, Nat.mod_eq_of_lt (a := n) (by omega)]
    omega
  · rw [BitVec.toNat_add, BitVec.toNat_ofNat, length, Nat.mod_eq_of_lt (a := n) (by omega)]
    omega

theorem rowsPlaces_last (lengths : DmaLengths blockLen skip rows) (inside : curDmem.toNat < 4096)
    (inside' : curDram.toNat < 16777216) (whole : curDram.toNat % 8 = 0) :
    ∃ dmemAt dramAt,
      (rowsPlaces blockLen skip rows curDmem curDram).getLast? = some (dmemAt, dramAt) ∧
      (dmemAt.toNat + 1) % 4096 = (curDmem.toNat + (rows + 1) * blockLen.toNat) % 4096 ∧
      (dramAt.toNat + 1) % 16777216 =
        (curDram.toNat + (rows + 1) * blockLen.toNat + rows * skip.toNat) % 16777216 := by
  induction rows generalizing curDmem curDram with
  | zero =>
      obtain ⟨dmemAt, dramAt, last, dmem, dram⟩ := rowPlaces_last lengths inside inside'
      exact ⟨dmemAt, dramAt, last, by omega, by omega⟩
  | succ rows ih =>
      have shorter : DmaLengths blockLen skip rows :=
        { lengths with rowsLe := by have := lengths.rowsLe; omega }
      have dmemNext := nextDmem_toNat lengths inside
      have dramNext := nextDram_toNat lengths inside' whole
      have blockWhole := lengths.blockWhole
      have skipWhole := lengths.skipWhole
      have insideNext : (nextDmem blockLen curDmem).toNat < 4096 := by omega
      have insideNext' : (nextDram blockLen skip curDram).toNat < 16777216 := by omega
      have wholeNext : (nextDram blockLen skip curDram).toNat % 8 = 0 := by omega
      obtain ⟨dmemAt, dramAt, last, dmem, dram⟩ := ih shorter insideNext insideNext' wholeNext
      refine ⟨dmemAt, dramAt, by rw [rowsPlaces, List.getLast?_append, last, Option.some_or], ?_, ?_⟩
      · have more := Nat.succ_mul (rows + 1) blockLen.toNat
        rw [dmem, dmemNext, more]
        omega
      · have more := Nat.succ_mul (rows + 1) blockLen.toNat
        have gaps := Nat.succ_mul rows skip.toNat
        rw [dram, dramNext, more, gaps]
        omega

end LastByte

section Increments

variable (lenReg : BitVec 32)

theorem pbusIncrement_toNat :
    (rspDmaPbusIncrement lenReg).toNat =
      ((rspDmaCount lenReg).toNat + 1) * (rspDmaBlockLen lenReg).toNat := by
  have lengths := dmaLengths lenReg
  have total : ((rspDmaCount lenReg).toNat + 1) * (rspDmaBlockLen lenReg).toNat ≤ 256 * 4096 :=
    Nat.mul_le_mul (Nat.succ_le_succ lengths.rowsLe) lengths.blockLe
  have count : (rspDmaCount lenReg + 1#32).toNat = (rspDmaCount lenReg).toNat + 1 := by
    have few := lengths.rowsLe
    rw [BitVec.toNat_add]
    change ((rspDmaCount lenReg).toNat + 1) % 2 ^ 32 = _
    omega
  rw [rspDmaPbusIncrement, BitVec.toNat_mul, count]
  omega

theorem dramIncrement_toNat :
    (rspDmaDramIncrement lenReg).toNat =
      ((rspDmaCount lenReg).toNat + 1) * (rspDmaBlockLen lenReg).toNat +
        (rspDmaCount lenReg).toNat * (rspDmaSkip lenReg).toNat := by
  have lengths := dmaLengths lenReg
  have total : ((rspDmaCount lenReg).toNat + 1) * (rspDmaBlockLen lenReg).toNat ≤ 256 * 4096 :=
    Nat.mul_le_mul (Nat.succ_le_succ lengths.rowsLe) lengths.blockLe
  have gaps : (rspDmaCount lenReg).toNat * (rspDmaSkip lenReg).toNat ≤ 255 * 4088 :=
    Nat.mul_le_mul lengths.rowsLe lengths.skipLe
  rw [rspDmaDramIncrement, BitVec.toNat_add, BitVec.toNat_mul, pbusIncrement_toNat]
  omega

theorem mul_whole {a : Nat} (n : Nat) (whole : a % 8 = 0) : n * a % 8 = 0 := by
  rw [Nat.mul_mod, whole, Nat.mul_zero, Nat.zero_mod]

/-- The registers after a DMA, masked as the next one masks them, are the places just past
the last byte. -/
theorem increments_past_last (memAddr dramAddr : BitVec 32) :
    ∃ dmemAt dramAt, (dmaPlaces memAddr dramAddr lenReg).getLast? = some (dmemAt, dramAt) ∧
      (memAddr + rspDmaPbusIncrement lenReg) &&& 0x0FF8#32 = (dmemAt + 1#32) &&& 0xFFF#32 ∧
      (dramAddr + rspDmaDramIncrement lenReg) &&& 0xFFFFF8#32 =
        (dramAt + 1#32) &&& 0xFFFFFF#32 := by
  have lengths := dmaLengths lenReg
  have mem := toNat_and_FF8 memAddr
  have dram := toNat_and_FFFFF8 dramAddr
  have inside : (memAddr &&& 0x0FF8#32).toNat < 4096 := by omega
  have inside' : (dramAddr &&& 0xFFFFF8#32).toNat < 16777216 := by omega
  have whole : (dramAddr &&& 0xFFFFF8#32).toNat % 8 = 0 := by omega
  obtain ⟨dmemAt, dramAt, last, pastDmem, pastDram⟩ := rowsPlaces_last lengths inside inside' whole
  have bytes := mul_whole ((rspDmaCount lenReg).toNat + 1) lengths.blockWhole
  have gaps := mul_whole (rspDmaCount lenReg).toNat lengths.skipWhole
  refine ⟨dmemAt, dramAt, by rw [dmaPlaces_eq]; exact last, ?_, ?_⟩
  · apply BitVec.eq_of_toNat_eq
    rw [toNat_and_FF8, toNat_and_FFF, BitVec.toNat_add, BitVec.toNat_add, pbusIncrement_toNat]
    rw [mem] at pastDmem
    change _ = (dmemAt.toNat + 1) % 2 ^ 32 % 4096
    omega
  · apply BitVec.eq_of_toNat_eq
    rw [toNat_and_FFFFF8, toNat_and_FFFFFF, BitVec.toNat_add, BitVec.toNat_add, dramIncrement_toNat]
    rw [dram] at pastDram
    change _ = (dramAt.toNat + 1) % 2 ^ 32 % 16777216
    omega

end Increments

/-! ## Distinct places in RDRAM -/

section Distinct

variable {blockLen skip : BitVec 32} {rows : Nat} {curDmem curDram : BitVec 32}

def dramKey (p : BitVec 32 × BitVec 32) : Nat := p.2.toNat % 16777216

theorem span_succ (rows block skip : Nat) :
    (rows + 1 + 1) * block + (rows + 1) * skip =
      block + skip + ((rows + 1) * block + rows * skip) := by
  rw [Nat.succ_mul (rows + 1), Nat.succ_mul rows skip]
  omega

theorem rowPlaces_keys (lengths : DmaLengths blockLen skip rows)
    (inside : curDram.toNat < 16777216) :
    (rowPlaces blockLen curDmem curDram).map dramKey =
      (List.range blockLen.toNat).map fun i => (curDram.toNat + i) % 16777216 := by
  rw [rowPlaces, List.map_map]
  apply List.map_congr_left
  intro i mem
  have below := Nat.lt_of_lt_of_le (List.mem_range.mp mem) lengths.blockLe
  have fits : curDram.toNat + i < 2 ^ 32 :=
    Nat.lt_of_lt_of_le (Nat.add_lt_add inside below) (by decide)
  change (curDram + BitVec.ofNat 32 i).toNat % 16777216 = _
  rw [BitVec.toNat_add, BitVec.toNat_ofNat, Nat.mod_eq_of_lt (a := i) (by omega),
    Nat.mod_eq_of_lt fits]

theorem rowPlaces_nodup (lengths : DmaLengths blockLen skip rows)
    (inside : curDram.toNat < 16777216) :
    ((rowPlaces blockLen curDmem curDram).map dramKey).Nodup := by
  have := lengths.blockLe
  rw [rowPlaces_keys lengths inside]
  apply List.Nodup.map_on _ List.nodup_range
  intro i mem j mem' same
  have below := List.mem_range.mp mem
  have below' := List.mem_range.mp mem'
  omega

theorem rowsPlaces_key (lengths : DmaLengths blockLen skip rows)
    (inside : curDram.toNat < 16777216) (whole : curDram.toNat % 8 = 0) {key : Nat}
    (mem : key ∈ (rowsPlaces blockLen skip rows curDmem curDram).map dramKey) :
    ∃ offset < (rows + 1) * blockLen.toNat + rows * skip.toNat,
      key = (curDram.toNat + offset) % 16777216 := by
  induction rows generalizing curDmem curDram with
  | zero =>
      rw [rowsPlaces, rowPlaces_keys lengths inside, List.mem_map] at mem
      obtain ⟨i, below, rfl⟩ := mem
      have := List.mem_range.mp below
      exact ⟨i, by omega, rfl⟩
  | succ rows ih =>
      have shorter : DmaLengths blockLen skip rows :=
        { lengths with rowsLe := by have := lengths.rowsLe; omega }
      have dramNext := nextDram_toNat lengths inside whole
      have blockWhole := lengths.blockWhole
      have skipWhole := lengths.skipWhole
      have span := span_succ rows blockLen.toNat skip.toNat
      rw [rowsPlaces, List.map_append, List.mem_append, rowPlaces_keys lengths inside,
        List.mem_map] at mem
      rcases mem with ⟨i, below, rfl⟩ | later
      · have := List.mem_range.mp below
        exact ⟨i, by omega, rfl⟩
      · have insideNext : (nextDram blockLen skip curDram).toNat < 16777216 := by omega
        have wholeNext : (nextDram blockLen skip curDram).toNat % 8 = 0 := by omega
        obtain ⟨offset, below, rfl⟩ := ih shorter insideNext wholeNext later
        refine ⟨blockLen.toNat + skip.toNat + offset, by omega, ?_⟩
        rw [dramNext]
        omega

theorem span_lt (lengths : DmaLengths blockLen skip rows) :
    (rows + 1) * blockLen.toNat + rows * skip.toNat < 16777216 := by
  have bytes : (rows + 1) * blockLen.toNat ≤ 256 * 4096 :=
    Nat.mul_le_mul (Nat.succ_le_succ lengths.rowsLe) lengths.blockLe
  have gaps : rows * skip.toNat ≤ 255 * 4088 := Nat.mul_le_mul lengths.rowsLe lengths.skipLe
  omega

/-- No place in RDRAM is copied twice, whatever wraps around. -/
theorem rowsPlaces_nodup (lengths : DmaLengths blockLen skip rows)
    (inside : curDram.toNat < 16777216) (whole : curDram.toNat % 8 = 0) :
    ((rowsPlaces blockLen skip rows curDmem curDram).map dramKey).Nodup := by
  induction rows generalizing curDmem curDram with
  | zero => exact rowPlaces_nodup lengths inside
  | succ rows ih =>
      have shorter : DmaLengths blockLen skip rows :=
        { lengths with rowsLe := by have := lengths.rowsLe; omega }
      have dramNext := nextDram_toNat lengths inside whole
      have blockWhole := lengths.blockWhole
      have skipWhole := lengths.skipWhole
      have span := span_succ rows blockLen.toNat skip.toNat
      have total := span_lt lengths
      have next : (nextDram blockLen skip curDram).toNat < 16777216 ∧
          (nextDram blockLen skip curDram).toNat % 8 = 0 := by omega
      rw [rowsPlaces, List.map_append, List.nodup_append]
      refine ⟨rowPlaces_nodup lengths inside, ih shorter next.1 next.2, ?_⟩
      intro key mem key' mem' same
      rw [rowPlaces_keys lengths inside, List.mem_map] at mem
      obtain ⟨i, below, rfl⟩ := mem
      obtain ⟨offset, below', rfl⟩ := rowsPlaces_key shorter next.1 next.2 mem'
      have := List.mem_range.mp below
      omega

end Distinct

/-! ## The copies -/

section Copies

variable {w : Nat}

def dramIndex (w : Nat) (dramAt : BitVec 32) : BitVec w := place w (dramReg dramAt) ^^^ 3

def hostPlaces (w : Nat) (places : List (BitVec 32 × BitVec 32)) : List (BitVec 12 × BitVec w) :=
  places.map fun p => (dmemIndex p.1, dramIndex w p.2)

theorem setWidth_dramReg (wide : 24 ≤ w) (dramAt : BitVec 32) :
    ((place w (dramReg dramAt)).setWidth 24).toNat = dramAt.toNat % 16777216 := by
  have low : (place w (dramReg dramAt)).setWidth 24 = (dramAt + 0x80000000#32).setWidth 24 := by
    apply BitVec.eq_of_getLsbD_eq
    intro i below
    rw [place, dramReg, sx32, BitVec.getLsbD_setWidth, BitVec.getLsbD_setWidth,
      BitVec.getLsbD_setWidth, BitVec.getLsbD_signExtend, decide_eq_true (by omega : i < w),
      decide_eq_true (by omega : i < 64), if_pos (by omega), Bool.true_and, Bool.true_and]
  rw [low, BitVec.toNat_setWidth, BitVec.toNat_add]
  change (dramAt.toNat + 2147483648) % 2 ^ 32 % 2 ^ 24 = _
  omega

/-- The places that the host stores to are distinct. -/
theorem hostPlaces_nodup (wide : 24 ≤ w) (memAddr dramAddr lenReg : BitVec 32) :
    ((hostPlaces w (dmaPlaces memAddr dramAddr lenReg)).map Prod.snd).Nodup := by
  have lengths := dmaLengths lenReg
  have dram := toNat_and_FFFFF8 dramAddr
  have keys : ((rowsPlaces (rspDmaBlockLen lenReg) (rspDmaSkip lenReg) (rspDmaCount lenReg).toNat
      (memAddr &&& 0x0FF8#32) (dramAddr &&& 0xFFFFF8#32)).map dramKey).Nodup :=
    rowsPlaces_nodup lengths (by omega) (by omega)
  apply List.Nodup.of_map fun index : BitVec w => ((index ^^^ 3).setWidth 24).toNat
  rw [dmaPlaces_eq, hostPlaces, List.map_map, List.map_map]
  have same : (rowsPlaces (rspDmaBlockLen lenReg) (rspDmaSkip lenReg) (rspDmaCount lenReg).toNat
      (memAddr &&& 0x0FF8#32) (dramAddr &&& 0xFFFFF8#32)).map
        (((fun index : BitVec w => ((index ^^^ 3).setWidth 24).toNat) ∘ Prod.snd) ∘
          fun p => (dmemIndex p.1, dramIndex w p.2)) = _ :=
    List.map_congr_left fun p _ => by
      change ((dramIndex w p.2 ^^^ 3).setWidth 24).toNat = dramKey p
      rw [dramIndex, BitVec.xor_assoc, BitVec.xor_self, BitVec.xor_zero, setWidth_dramReg wide]
      rfl
  rw [same]
  exact keys

namespace RspDma

variable (r : RspDma w)

theorem foldl_writeByte (places : List (BitVec 32 × BitVec 32)) :
    places.foldl (fun r p => writeByte p.1 p.2 r) r =
      { r with rdram := PairedCopy.copy (hostPlaces w places) r.dmem r.rdram } := by
  induction places generalizing r with
  | nil => rfl
  | cons p places ih =>
      rw [List.foldl_cons, ih]
      rfl

theorem foldl_readByte (places : List (BitVec 32 × BitVec 32)) :
    places.foldl (fun r p => readByte p.1 p.2 r) r =
      { r with
        dmem := PairedCopy.copy ((hostPlaces w places).map Prod.swap) r.rdram r.dmem } := by
  induction places generalizing r with
  | nil => rfl
  | cons p places ih =>
      rw [List.foldl_cons, ih]
      rfl

theorem doDmaWrite_eq (lenReg : BitVec 32) :
    r.doDmaWrite lenReg =
      ({ r with rdram := PairedCopy.copy (hostPlaces w (dmaPlaces r.dmaMemAddress r.dmaDramAddress
          lenReg)) r.dmem r.rdram } : RspDma w).advance lenReg := by
  rw [doDmaWrite, dmaDmemToRdram, dmaTransfer_eq_foldl, foldl_writeByte]

theorem doDmaRead_eq (lenReg : BitVec 32) :
    r.doDmaRead lenReg =
      ({ r with dmem := PairedCopy.copy ((hostPlaces w (dmaPlaces r.dmaMemAddress r.dmaDramAddress
          lenReg)).map Prod.swap) r.rdram r.dmem } : RspDma w).advance lenReg := by
  rw [doDmaRead, dmaRdramToDmem, dmaTransfer_eq_foldl, foldl_readByte]

/-- A read with the same registers and length after a write leaves the data memory as it was. -/
theorem dmem_round_trip (wide : 24 ≤ w) (lenReg : BitVec 32) :
    ((((r.doDmaWrite lenReg).setDmaMem r.dmaMemAddress).setDmaDram r.dmaDramAddress).doDmaRead
      lenReg).dmem = r.dmem := by
  rw [doDmaRead_eq, doDmaWrite_eq]
  exact PairedCopy.copy_back (hostPlaces_nodup wide _ _ _) r.dmem r.rdram

end RspDma

end Copies

/-- For every DMA: the registers after it, masked as the next one masks them, are the places
just past the last byte that its loops copy, and a write that is read back restores the data
memory. -/
theorem rsp_dma_registers_and_round_trip {w : Nat} (wide : 24 ≤ w) (r : RspDma w)
    (lenReg : BitVec 32) :
    (∃ dmemAt dramAt,
      (dmaPlaces r.dmaMemAddress r.dmaDramAddress lenReg).getLast? = some (dmemAt, dramAt) ∧
      ∀ after ∈ [r.doDmaRead lenReg, r.doDmaWrite lenReg],
        after.dmaMemAddress &&& 0x0FF8#32 = (dmemAt + 1#32) &&& 0xFFF#32 ∧
          after.dmaDramAddress &&& 0xFFFFF8#32 = (dramAt + 1#32) &&& 0xFFFFFF#32) ∧
    (r.dmaRdramToDmem r.dmaMemAddress r.dmaDramAddress lenReg =
        (dmaPlaces r.dmaMemAddress r.dmaDramAddress lenReg).foldl
          (fun r p => RspDma.readByte p.1 p.2 r) r ∧
      r.dmaDmemToRdram r.dmaMemAddress r.dmaDramAddress lenReg =
        (dmaPlaces r.dmaMemAddress r.dmaDramAddress lenReg).foldl
          (fun r p => RspDma.writeByte p.1 p.2 r) r) ∧
    ((((r.doDmaWrite lenReg).setDmaMem r.dmaMemAddress).setDmaDram r.dmaDramAddress).doDmaRead
      lenReg).dmem = r.dmem := by
  refine ⟨?_, ⟨dmaTransfer_eq_foldl _ _ _ _ r, dmaTransfer_eq_foldl _ _ _ _ r⟩,
    r.dmem_round_trip wide lenReg⟩
  obtain ⟨dmemAt, dramAt, last, past⟩ :=
    increments_past_last lenReg r.dmaMemAddress r.dmaDramAddress
  refine ⟨dmemAt, dramAt, last, ?_⟩
  intro after mem
  rcases List.mem_cons.mp mem with read | mem
  · rw [read, RspDma.doDmaRead_eq]
    exact past
  · rw [List.mem_singleton.mp mem, RspDma.doDmaWrite_eq]
    exact past

/-- A flat RDRAM of 16 MiB, and the widest DMA at its end. -/
theorem widest_dma_round_trip :
    let r : RspDma 24 := ⟨fun i => i.setWidth 8, fun _ => 0, 0xFFF#32, 0xFFFFFF#32⟩
    ((((r.doDmaWrite 0xFFFFFFFF#32).setDmaMem 0xFFF#32).setDmaDram 0xFFFFFF#32).doDmaRead
      0xFFFFFFFF#32).dmem = r.dmem :=
  (rsp_dma_registers_and_round_trip (Nat.le_refl 24) _ _).2.2

end N64ModernRuntime.Librecomp
