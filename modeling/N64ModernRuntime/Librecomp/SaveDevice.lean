import Mathlib.Algebra.Group.Nat.Defs
import N64ModernRuntime.Lib.CheckedBuffer

/-!
# eep.cpp, flash.cpp, pi.cpp: the guest's calls into the save buffer

The buffer has the size of the save type.  The assertions are compiled out, so
a call goes wrong exactly when one of its indices is not below that size.
`touched` collects the indices that the save functions have loaded or stored.
-/

set_option autoImplicit false

namespace N64ModernRuntime.Librecomp

open CheckedBuffer

inductive SaveType where
  | none
  | eep4k
  | eep16k
  | sram
  | flashram
  | allowAll
  deriving DecidableEq, Repr

def getSaveSize : SaveType → Nat
  | .allowAll => 0x20000
  | .flashram => 0x20000
  | .sram => 0x8000
  | .eep16k => 0x800
  | .eep4k => 0x200
  | .none => 0

def eepromAllowed (type : SaveType) : Bool := type == .eep4k || type == .eep16k || type == .allowAll

def sramAllowed (type : SaveType) : Bool := type == .sram || type == .allowAll

def flashramAllowed (type : SaveType) : Bool := type == .flashram || type == .allowAll

/-- The memory macros and the functions of other files that the calls use. -/
structure SaveGuest (Rdram : Type) where
  memB : Rdram → UInt32 → UInt64 → UInt8
  setMemB : Rdram → UInt32 → UInt64 → UInt8 → Rdram
  setMemW : Rdram → UInt32 → UInt64 → UInt32 → Rdram
  /-- `osSendMesg(mq, 0, OS_MESG_NOBLOCK)` -/
  osSendMesg : Rdram → UInt64 → Rdram
  /-- the transfer, with the overlays and trampolines it loads -/
  doRomRead : Rdram → UInt64 → UInt32 → UInt32 → Rdram
  doRomPio : Rdram → UInt64 → UInt32 → Rdram
  flashHandle : UInt64

inductive FlashMode where
  | readArray
  | status
  | id
  | pageProgram
  | sectorErase
  | chipErase
  deriving DecidableEq, Repr

def eepromBlockSize : UInt32 := 8
def pageSize : UInt32 := 128
def pagesPerSector : UInt32 := 128
def flashSize : UInt32 := 0x20000
def pageCount : UInt32 := flashSize / pageSize
def flashSectorSize : UInt32 := pageSize * pagesPerSector
def saveSize : UInt32 := 1024 * 1024 / 8
def sramBase : UInt32 := 0x08000000
def romBase : UInt32 := 0x10000000
def driveBase : UInt32 := 0x06000000

def flashCmdReg : UInt32 := 0x10000
def flashCmdChipErase : UInt32 := 0x3C000000
def flashCmdSectorErase : UInt32 := 0x4B000000
def flashCmdExecuteErase : UInt32 := 0x78000000
def flashCmdProgramPage : UInt32 := 0xA5000000
def flashCmdPageProgram : UInt32 := 0xB4000000
def flashCmdStatus : UInt32 := 0xD2000000
def flashCmdId : UInt32 := 0xE1000000
def flashCmdReadArray : UInt32 := 0xF0000000
def flashIdType : UInt32 := 0x11118001
def flashIdMaker : UInt32 := 0x00C2001D

variable (Rdram : Type) (type : SaveType)

/-- `writeBuffer` is the staging area of flash.cpp, `flashWriteBuffer` that of
pi.cpp; `r2` is the register of the last result. -/
structure SaveDevice where
  rdram : Rdram
  saveBuffer : Vector UInt8 (getSaveSize type)
  touched : List Nat
  writeBuffer : Vector UInt8 128
  flashMode : FlashMode
  flashStatus : UInt8
  flashPendingErasePage : UInt32
  /-- a command leaves 16 bits for the page -/
  pending_le : flashPendingErasePage ≤ 0xFFFF
  flashWriteBuffer : Vector UInt8 128
  r2 : UInt64

inductive SaveStop where
  /-- an index of the buffer that is not below its size -/
  | outside (index : Nat)
  /-- `ULTRAMODERN_QUICK_EXIT` -/
  | quickExit
  /-- the exception of a DMA write to the ROM -/
  | romWrite
  deriving DecidableEq, Repr

variable {Rdram type}

abbrev SaveResult (Rdram : Type) (type : SaveType) := Except SaveStop (SaveDevice Rdram type)

namespace SaveDevice

variable (guest : SaveGuest Rdram) (d : SaveDevice Rdram type)

/-- The indices `data() + offset`, `data() + offset + 1`, ... -/
def pointerIndices (offset count : UInt32) : List Nat :=
  (List.range count.toNat).map fun pos => offset.toNat + pos

/-- The indices `offset + pos` in `uint32_t`. -/
def loopIndices (offset count : UInt32) : List Nat :=
  (List.range count.toNat).map fun pos => (offset + UInt32.ofNat pos).toNat

/-- The stores at `indices` of the save functions, taking their values in turn. -/
def store (indices : List Nat) (values : List UInt8) : SaveResult Rdram type :=
  match writeAll d.saveBuffer (indices.zip values) with
  | .ok after => .ok { d with saveBuffer := after, touched := indices ++ d.touched }
  | .error index => .error (.outside index)

def saveWritePtr (bytes : Vector UInt8 128) (offset : UInt32) : SaveResult Rdram type :=
  d.store (pointerIndices offset pageSize) bytes.toList

def memBytes (rdramAddress : UInt64) (count : UInt32) : List UInt8 :=
  (List.range count.toNat).map fun pos => guest.memB d.rdram (UInt32.ofNat pos) rdramAddress

def saveWrite (rdramAddress : UInt64) (offset count : UInt32) : SaveResult Rdram type :=
  d.store (loopIndices offset count) (d.memBytes guest rdramAddress count)

/-- `MEM_B(pos, address) = values[pos]`, from `pos` on. -/
def setMemBytes (rdram : Rdram) (pos : UInt32) (address : UInt64) : List UInt8 → Rdram
  | [] => rdram
  | value :: rest => setMemBytes (guest.setMemB rdram pos address value) (pos + 1) address rest

def saveRead (rdramAddress : UInt64) (offset count : UInt32) : SaveResult Rdram type :=
  match readAll d.saveBuffer (loopIndices offset count) with
  | .ok values =>
      .ok { d with
        rdram := setMemBytes guest d.rdram 0 rdramAddress values
        touched := loopIndices offset count ++ d.touched }
  | .error index => .error (.outside index)

def saveClear (start size : UInt32) (value : UInt8) : SaveResult Rdram type :=
  d.store (pointerIndices start size) (List.replicate size.toNat value)

def returns (value : UInt64) : SaveDevice Rdram type := { d with r2 := value }

/-! ## eep.cpp -/

def eepromByteOffset (blockIndex : UInt8) : UInt32 := blockIndex.toUInt32 * eepromBlockSize

def osEepromProbe : SaveDevice Rdram type :=
  match type with
  | .allowAll => d.returns 2
  | .eep16k => d.returns 2
  | .eep4k => d.returns 1
  | _ => d.returns 0

def osEepromWrite (r5 r6 : UInt64) : SaveResult Rdram type := do
  if !eepromAllowed type then throw .quickExit
  let d ← d.saveWrite guest r6 (eepromByteOffset r5.toUInt8) eepromBlockSize
  return d.returns 0

def osEepromLongWrite (r5 r6 r7 : UInt64) : SaveResult Rdram type := do
  if !eepromAllowed type then throw .quickExit
  let d ← d.saveWrite guest r6 (eepromByteOffset r5.toUInt8) r7.toUInt32
  return d.returns 0

def osEepromRead (r5 r6 : UInt64) : SaveResult Rdram type := do
  if !eepromAllowed type then throw .quickExit
  let d ← d.saveRead guest r6 (eepromByteOffset r5.toUInt8) eepromBlockSize
  return d.returns 0

def osEepromLongRead (r5 r6 r7 : UInt64) : SaveResult Rdram type := do
  if !eepromAllowed type then throw .quickExit
  let d ← d.saveRead guest r6 (eepromByteOffset r5.toUInt8) r7.toUInt32
  return d.returns 0

/-! ## flash.cpp -/

def sendMesg (mq : UInt64) : SaveDevice Rdram type := { d with rdram := guest.osSendMesg d.rdram mq }

def osFlashAllErase : SaveResult Rdram type := do
  if !flashramAllowed type then throw .quickExit
  let d ← d.saveClear 0 saveSize 0xFF
  return d.returns 0

/-- One page, although the name of the calls says sector. -/
def flashErasePage (r4 : UInt64) : SaveResult Rdram type := do
  let pageNum := r4.toUInt32
  if pageNum ≥ pageCount then return d.returns (-1)
  let d ← d.saveClear (pageNum * pageSize) pageSize 0xFF
  return d.returns 0

def osFlashSectorErase (r4 : UInt64) : SaveResult Rdram type := do
  if !flashramAllowed type then throw .quickExit
  d.flashErasePage r4

def osFlashWriteBuffer (r6 r7 : UInt64) : SaveResult Rdram type := do
  if !flashramAllowed type then throw .quickExit
  let staged := Vector.ofFn fun i : Fin 128 => guest.memB d.rdram (UInt32.ofNat i) r6
  return (({ d with writeBuffer := staged }).sendMesg guest r7).returns 0

def osFlashWriteArray (r4 : UInt64) : SaveResult Rdram type := do
  if !flashramAllowed type then throw .quickExit
  let d ← d.saveWritePtr d.writeBuffer (r4.toUInt32 * pageSize)
  return d.returns 0

/-- The number of pages and the queue come from the stack. -/
def osFlashReadArray (r6 r7 : UInt64) (nPages : UInt32) (mq : UInt64) : SaveResult Rdram type := do
  if !flashramAllowed type then throw .quickExit
  let d ← d.saveRead guest r7 (r6.toUInt32 * pageSize) (nPages * pageSize)
  return (d.sendMesg guest mq).returns 0

/-- The other calls of flash.cpp, which only report. -/
def osFlashReadStatus (r4 : UInt64) : SaveResult Rdram type := do
  if !flashramAllowed type then throw .quickExit
  return { d with rdram := guest.setMemB d.rdram 0 r4 0 }

def osFlashReadId (r4 r5 : UInt64) : SaveResult Rdram type := do
  if !flashramAllowed type then throw .quickExit
  return { d with
    rdram := guest.setMemW (guest.setMemW d.rdram 0 r4 flashIdType) 0 r5 flashIdMaker }

def osFlashInit : SaveResult Rdram type := do
  if !flashramAllowed type then throw .quickExit
  return d.returns guest.flashHandle

def osFlashClearStatus : SaveResult Rdram type := do
  if !flashramAllowed type then throw .quickExit
  return d

def osFlashCheckEraseEnd : SaveResult Rdram type := do
  if !flashramAllowed type then throw .quickExit
  return d.returns 0

/-- `assert(false)` is all there is. -/
def osFlashChange : SaveResult Rdram type := do
  if !flashramAllowed type then throw .quickExit
  return d

/-! ## pi.cpp -/

def flashRegionContains (type : SaveType) (physicalAddr size : UInt32) : Bool :=
  if !flashramAllowed type then false
  else if physicalAddr < sramBase then false
  else
    let offset := physicalAddr - sramBase
    offset ≤ flashSize && size ≤ flashSize - offset

def flashProgramPage (pageNum : UInt32) : SaveResult Rdram type := do
  let offset := pageNum * pageSize
  if offset + pageSize ≤ flashSize then
    let d ← d.saveWritePtr d.flashWriteBuffer offset
    return { d with flashStatus := 0x04, flashMode := .status }
  else return { d with flashStatus := 0, flashMode := .status }

def flashEraseSector (pageNum : UInt32) : SaveResult Rdram type := do
  let sectorPage := pageNum / pagesPerSector * pagesPerSector
  let offset := sectorPage * pageSize
  if offset + flashSectorSize ≤ flashSize then
    let d ← d.saveClear offset flashSectorSize 0xFF
    return { d with flashStatus := 0x08, flashMode := .status }
  else return { d with flashStatus := 0, flashMode := .status }

def flashEraseChip : SaveResult Rdram type := do
  let d ← d.saveClear 0 flashSize 0xFF
  return { d with flashStatus := 0x08, flashMode := .status }

/-- The bytes that a DMA of another kind than `save_read` stores, from `pos` on. -/
def fillRdram (rdram : Rdram) (pos size : UInt32) (address : UInt64) (value : UInt8) : Rdram :=
  setMemBytes guest rdram pos address (List.replicate (size.toNat - pos.toNat) value)

def readId (rdramAddress : UInt64) (size : UInt32) : SaveDevice Rdram type :=
  let first := if size ≥ 4 then guest.setMemW d.rdram 0 rdramAddress flashIdType else d.rdram
  let second := if size ≥ 8 then guest.setMemW first 4 rdramAddress flashIdMaker else first
  { d with rdram := fillRdram guest second 8 size rdramAddress 0 }

/-- The DMA write into the staging area of pi.cpp, padded to a page. -/
def stagePage (rdramAddress : UInt64) (size : UInt32) : SaveDevice Rdram type :=
  let copySize := min size pageSize
  { d with
    flashWriteBuffer := Vector.ofFn fun i : Fin 128 =>
      if i < copySize.toNat then guest.memB d.rdram (UInt32.ofNat i) rdramAddress else 0xFF }

/-- `direction` 0 reads from the device. -/
def doDma (mq rdramAddress : UInt64) (physicalAddr size direction : UInt32) :
    SaveResult Rdram type := do
  if direction = 0 then
    if physicalAddr ≥ romBase then
      return ({ d with
        rdram := guest.doRomRead d.rdram rdramAddress physicalAddr size }).sendMesg guest mq
    else if flashRegionContains type physicalAddr size then
      if d.flashMode = .id then return (d.readId guest rdramAddress size).sendMesg guest mq
      else
        let d ← d.saveRead guest rdramAddress (physicalAddr - sramBase) size
        return d.sendMesg guest mq
    else if physicalAddr ≥ sramBase then
      if !sramAllowed type then
        -- open bus
        return ({ d with
          rdram := fillRdram guest d.rdram 0 size rdramAddress 0xFF }).sendMesg guest mq
      else
        let d ← d.saveRead guest rdramAddress (physicalAddr - sramBase) size
        return d.sendMesg guest mq
    else if physicalAddr ≥ driveBase then return d.sendMesg guest mq
    else return d
  else
    if physicalAddr ≥ romBase then throw .romWrite
    else if flashRegionContains type physicalAddr size then
      if d.flashMode = .pageProgram then
        return (d.stagePage guest rdramAddress size).sendMesg guest mq
      else return d.sendMesg guest mq
    else if physicalAddr ≥ sramBase then
      if !sramAllowed type then return d.sendMesg guest mq
      else
        let d ← d.saveWrite guest rdramAddress (physicalAddr - sramBase) size
        return d.sendMesg guest mq
    else if physicalAddr ≥ driveBase then return d.sendMesg guest mq
    else return d

def k1ToPhys (addr : UInt32) : UInt32 := addr &&& 0x1FFFFFFF

/-- The address, the size and the queue come from the stack. -/
def osPiStartDma (r6 r7 dramAddr : UInt64) (size : UInt32) (mq : UInt64) :
    SaveResult Rdram type := do
  let d ← d.doDma guest mq dramAddr (k1ToPhys (r7.toUInt32 ||| romBase)) size r6.toUInt32
  return d.returns 0

/-- `baseAddress` is in the handle, `devAddr`, `dramAddr`, `size` and the queue
are in the message block. -/
def osEPiStartDma (r6 : UInt64) (baseAddress devAddr : UInt32) (dramAddr : UInt64) (size : UInt32)
    (mq : UInt64) : SaveResult Rdram type := do
  let d ← d.doDma guest mq dramAddr (k1ToPhys (baseAddress ||| devAddr)) size r6.toUInt32
  return d.returns 0

def osEPiReadIo (baseAddress : UInt32) (r5 r6 : UInt64) : SaveDevice Rdram type :=
  let physicalAddr := k1ToPhys (baseAddress ||| r5.toUInt32)
  let read (value : UInt32) := { d with rdram := guest.setMemW d.rdram 0 r6 value, r2 := 0 }
  if physicalAddr ≥ romBase then
    { d with rdram := guest.doRomPio d.rdram r6 physicalAddr, r2 := 0 }
  else if flashRegionContains type physicalAddr 4 then
    match d.flashMode with
    | .status => read d.flashStatus.toUInt32
    | .id => read flashIdType
    | _ => read 0
  else if physicalAddr ≥ 0x05000000 ∧ physicalAddr < 0x06000000 then read 0x00800000
  else read 0

theorem no_page_le : (0 : UInt32) ≤ 0xFFFF := by decide

theorem page_le (data : UInt32) : data &&& 0x0000FFFF ≤ 0xFFFF := by
  rw [UInt32.le_iff_toNat_le, UInt32.toNat_and]
  exact Nat.and_le_right

/-- The commands of the flash chip; an unknown one is ignored. -/
def flashCommand (data : UInt32) : SaveResult Rdram type :=
  let command := data &&& 0xFF000000
  if command = flashCmdChipErase then .ok { d with flashMode := .chipErase }
  else if command = flashCmdSectorErase then
    .ok { d with
      flashPendingErasePage := data &&& 0x0000FFFF
      pending_le := page_le data
      flashMode := .sectorErase }
  else if command = flashCmdExecuteErase then
    match d.flashMode with
    | .chipErase => d.flashEraseChip
    | .sectorErase => d.flashEraseSector d.flashPendingErasePage
    | _ => .ok d
  else if command = flashCmdProgramPage then d.flashProgramPage (data &&& 0x0000FFFF)
  else if command = flashCmdPageProgram then .ok { d with flashMode := .pageProgram }
  else if command = flashCmdStatus then .ok { d with flashMode := .status }
  else if command = flashCmdId then .ok { d with flashMode := .id }
  else if command = flashCmdReadArray then .ok { d with flashMode := .readArray }
  else .ok d

def osEPiWriteIo (baseAddress : UInt32) (r5 r6 : UInt64) : SaveResult Rdram type := do
  let physicalAddr := k1ToPhys (baseAddress ||| r5.toUInt32)
  let data := r6.toUInt32
  if flashramAllowed type && physicalAddr = sramBase + flashCmdReg then
    let d ← d.flashCommand data
    return d.returns 0
  else if flashramAllowed type && physicalAddr = sramBase && data = 0 then
    return { d with flashStatus := 0, flashMode := .readArray, r2 := 0 }
  else return d.returns 0

end SaveDevice

inductive SaveRequest where
  | osEepromProbe
  | osEepromWrite (r5 r6 : UInt64)
  | osEepromLongWrite (r5 r6 r7 : UInt64)
  | osEepromRead (r5 r6 : UInt64)
  | osEepromLongRead (r5 r6 r7 : UInt64)
  | osFlashInit
  | osFlashReadStatus (r4 : UInt64)
  | osFlashReadId (r4 r5 : UInt64)
  | osFlashClearStatus
  | osFlashAllErase
  | osFlashAllEraseThrough
  | osFlashSectorErase (r4 : UInt64)
  | osFlashSectorEraseThrough (r4 : UInt64)
  | osFlashCheckEraseEnd
  | osFlashWriteBuffer (r6 r7 : UInt64)
  | osFlashWriteArray (r4 : UInt64)
  | osFlashReadArray (r6 r7 : UInt64) (nPages : UInt32) (mq : UInt64)
  | osFlashChange
  | osPiStartDma (r6 r7 dramAddr : UInt64) (size : UInt32) (mq : UInt64)
  | osEPiStartDma (r6 : UInt64) (baseAddress devAddr : UInt32) (dramAddr : UInt64) (size : UInt32)
      (mq : UInt64)
  | osPiRawStartDma
  | osEPiRawStartDma
  | osEPiReadIo (baseAddress : UInt32) (r5 r6 : UInt64)
  | osEPiWriteIo (baseAddress : UInt32) (r5 r6 : UInt64)
  deriving DecidableEq, Repr

namespace SaveDevice

variable (guest : SaveGuest Rdram)

def perform (d : SaveDevice Rdram type) : SaveRequest → SaveResult Rdram type
  | .osEepromProbe => .ok d.osEepromProbe
  | .osEepromWrite r5 r6 => d.osEepromWrite guest r5 r6
  | .osEepromLongWrite r5 r6 r7 => d.osEepromLongWrite guest r5 r6 r7
  | .osEepromRead r5 r6 => d.osEepromRead guest r5 r6
  | .osEepromLongRead r5 r6 r7 => d.osEepromLongRead guest r5 r6 r7
  | .osFlashInit => d.osFlashInit guest
  | .osFlashReadStatus r4 => d.osFlashReadStatus guest r4
  | .osFlashReadId r4 r5 => d.osFlashReadId guest r4 r5
  | .osFlashClearStatus => d.osFlashClearStatus
  | .osFlashAllErase => d.osFlashAllErase
  | .osFlashAllEraseThrough => d.osFlashAllErase
  | .osFlashSectorErase r4 => d.osFlashSectorErase r4
  | .osFlashSectorEraseThrough r4 => d.osFlashSectorErase r4
  | .osFlashCheckEraseEnd => d.osFlashCheckEraseEnd
  | .osFlashWriteBuffer r6 r7 => d.osFlashWriteBuffer guest r6 r7
  | .osFlashWriteArray r4 => d.osFlashWriteArray r4
  | .osFlashReadArray r6 r7 nPages mq => d.osFlashReadArray guest r6 r7 nPages mq
  | .osFlashChange => d.osFlashChange
  | .osPiStartDma r6 r7 dramAddr size mq => d.osPiStartDma guest r6 r7 dramAddr size mq
  | .osEPiStartDma r6 baseAddress devAddr dramAddr size mq =>
      d.osEPiStartDma guest r6 baseAddress devAddr dramAddr size mq
  -- both are stubs
  | .osPiRawStartDma => .error .quickExit
  | .osEPiRawStartDma => .error .quickExit
  | .osEPiReadIo baseAddress r5 r6 => .ok (d.osEPiReadIo guest baseAddress r5 r6)
  | .osEPiWriteIo baseAddress r5 r6 => d.osEPiWriteIo baseAddress r5 r6

def performAll (d : SaveDevice Rdram type) : List SaveRequest → SaveResult Rdram type
  | [] => .ok d
  | request :: rest => do performAll (← d.perform guest request) rest

end SaveDevice

/-! ## What the save functions touch -/

namespace SaveDevice

variable {guest : SaveGuest Rdram} {d : SaveDevice Rdram type}

theorem pointerIndices_below {offset count : UInt32} {size : Nat}
    (fits : count.toNat = 0 ∨ offset.toNat + count.toNat ≤ size) :
    ∀ i ∈ pointerIndices offset count, i < size := by
  intro i mem
  obtain ⟨pos, in_range, rfl⟩ := List.mem_map.mp mem
  have below : pos < count.toNat := List.mem_range.mp in_range
  omega

theorem loopIndices_below {offset count : UInt32} {size : Nat}
    (fits : count.toNat = 0 ∨ offset.toNat + count.toNat ≤ size) (small : size ≤ 2 ^ 32) :
    ∀ i ∈ loopIndices offset count, i < size := by
  intro i mem
  obtain ⟨pos, in_range, rfl⟩ := List.mem_map.mp mem
  have below : pos < count.toNat := List.mem_range.mp in_range
  have sum := UInt32.toNat_add offset (UInt32.ofNat pos)
  have pos_small : pos < UInt32.size := Nat.lt_trans below count.toNat_lt
  rw [UInt32.toNat_ofNat_of_lt' pos_small] at sum
  omega

theorem pointerIndices_past {offset count : UInt32} {size : Nat} (some_byte : count.toNat ≠ 0)
    (leaves : size < offset.toNat + count.toNat) : ∃ i ∈ pointerIndices offset count, size ≤ i := by
  refine ⟨offset.toNat + (count.toNat - 1), List.mem_map.mpr ⟨count.toNat - 1, ?_, rfl⟩, by omega⟩
  exact List.mem_range.mpr (by omega)

theorem loopIndices_past {offset count : UInt32} {size : Nat} (some_byte : count.toNat ≠ 0)
    (leaves : size < offset.toNat + count.toNat) (small : size < 2 ^ 32) :
    ∃ i ∈ loopIndices offset count, size ≤ i := by
  have offset_bound := offset.toNat_lt
  have pos_small : size - offset.toNat < UInt32.size := Nat.lt_of_le_of_lt (Nat.sub_le _ _) small
  -- the first index that is not below the size, or that of the first byte
  refine ⟨_, List.mem_map.mpr ⟨size - offset.toNat, List.mem_range.mpr (by omega), rfl⟩, ?_⟩
  rw [UInt32.toNat_add, UInt32.toNat_ofNat_of_lt' pos_small]
  omega

end SaveDevice

end N64ModernRuntime.Librecomp
