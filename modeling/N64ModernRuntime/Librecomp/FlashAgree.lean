import N64ModernRuntime.Librecomp.SaveBounds

/-!
# flash.cpp against pi.cpp: one chip, two implementations

An operation on the chip is performed by the calls of libultra, or by commands
and transfers on the bus.  Both see the same guest memory and the same buffer.
-/

set_option autoImplicit false

namespace N64ModernRuntime.Librecomp

open CheckedBuffer SaveDevice

structure PageRange where
  first : Nat
  count : Nat
  inside : first + count ≤ 1024

inductive FlashOp where
  | program (page : Fin 1024) (source mq : UInt64)
  | eraseSector (page : Fin 1024)
  | eraseChip
  | readPages (range : PageRange) (dest mq : UInt64)

def physToK1 (addr : UInt32) : UInt32 := addr ||| 0xA0000000

/-- The base address in the handle of the chip. -/
def flashBaseAddress : UInt32 := physToK1 sramBase

namespace FlashOp

def pageWord (page : Nat) : UInt32 := UInt32.ofNat page

def viaOsFlash : FlashOp → List SaveRequest
  | .program page source mq =>
      [.osFlashWriteBuffer source mq, .osFlashWriteArray (pageWord page).toUInt64]
  | .eraseSector page => [.osFlashSectorErase (pageWord page).toUInt64]
  | .eraseChip => [.osFlashAllErase]
  | .readPages range dest mq =>
      [.osFlashReadArray (pageWord range.first).toUInt64 dest (pageWord range.count) mq]

def writeCommand (data : UInt32) : SaveRequest :=
  .osEPiWriteIo flashBaseAddress flashCmdReg.toUInt64 data.toUInt64

def viaPi : FlashOp → List SaveRequest
  | .program page source mq =>
      [writeCommand flashCmdPageProgram,
        .osEPiStartDma 1 flashBaseAddress 0 source pageSize mq,
        writeCommand (flashCmdProgramPage ||| pageWord page)]
  | .eraseSector page =>
      [writeCommand (flashCmdSectorErase ||| pageWord page), writeCommand flashCmdExecuteErase]
  | .eraseChip => [writeCommand flashCmdChipErase, writeCommand flashCmdExecuteErase]
  | .readPages range dest mq =>
      [writeCommand flashCmdReadArray,
        .osEPiStartDma 0 flashBaseAddress (pageWord range.first * pageSize) dest
          (pageWord range.count * pageSize) mq]

end FlashOp

variable {Rdram : Type} {type : SaveType}

structure SameContents (os pi : SaveDevice Rdram type) : Prop where
  saveBuffer : os.saveBuffer = pi.saveBuffer
  rdram : os.rdram = pi.rdram

def Agree (guest : SaveGuest Rdram) (os pi : SaveDevice Rdram type) (ops : List FlashOp) : Prop :=
  ∃ os' pi', os.performAll guest (ops.flatMap FlashOp.viaOsFlash) = .ok os' ∧
    pi.performAll guest (ops.flatMap FlashOp.viaPi) = .ok pi' ∧ SameContents os' pi'

def FlashOp.SectorBlank (buffer : Vector UInt8 (getSaveSize type)) : FlashOp → Prop
  | .eraseSector page =>
      ∀ (i : Nat) (below : i < getSaveSize type),
        i / 16384 = page / 128 → i / 128 ≠ page → buffer[i] = 0xFF
  | _ => True

def SectorsBlank (guest : SaveGuest Rdram) (os : SaveDevice Rdram type) : List FlashOp → Prop
  | [] => True
  | op :: rest =>
      op.SectorBlank os.saveBuffer ∧
        ∀ os', os.performAll guest op.viaOsFlash = .ok os' → SectorsBlank guest os' rest

/-! ## The calls on pages of the chip -/

section Calls

variable {guest : SaveGuest Rdram} {os pi : SaveDevice Rdram type}

theorem pageWord_toNat {page : Nat} (small : page ≤ 1024) : (FlashOp.pageWord page).toNat = page :=
  UInt32.toNat_ofNat_of_lt' (Nat.lt_of_le_of_lt small (by decide))

theorem page_byte {page : Nat} (small : page ≤ 1024) :
    (FlashOp.pageWord page * pageSize).toNat = 128 * page := by
  rw [page_offset, pageWord_toNat small]
  omega

theorem page_upper {page : Nat} (small : page ≤ 1024) : page &&& 0xFF000000 = 0 := by
  have upper_bits : ∀ i < 24, Nat.testBit 0xFF000000 i = false := by decide
  apply Nat.eq_of_testBit_eq
  intro i
  rw [Nat.testBit_and, Nat.zero_testBit]
  by_cases low : i < 24
  · rw [upper_bits i low, Bool.and_false]
  · have power : 2 ^ 24 ≤ 2 ^ i := Nat.pow_le_pow_right (by decide) (Nat.le_of_not_lt low)
    rw [Nat.testBit_lt_two_pow (by omega), Bool.false_and]

/-- A command is in the upper byte, its page in the lower half. -/
theorem command_upper {command : UInt32} {page : Nat} (small : page ≤ 1024)
    (is_command : command &&& 0xFF000000 = command) :
    (command ||| FlashOp.pageWord page) &&& 0xFF000000 = command := by
  have kept : command.toNat &&& 0xFF000000 = command.toNat := by
    rw [← UInt32.toNat_inj, UInt32.toNat_and] at is_command
    exact is_command
  rw [← UInt32.toNat_inj, UInt32.toNat_and, UInt32.toNat_or, pageWord_toNat small,
    Nat.and_or_distrib_right]
  change (command.toNat &&& 0xFF000000) ||| (page &&& 0xFF000000) = command.toNat
  rw [kept, page_upper small, Nat.or_zero]

theorem command_page {command : UInt32} {page : Nat} (small : page ≤ 1024)
    (is_command : command &&& 0xFFFF = 0) :
    (command ||| FlashOp.pageWord page) &&& 0xFFFF = FlashOp.pageWord page := by
  have dropped : command.toNat &&& 0xFFFF = 0 := by
    rw [← UInt32.toNat_inj, UInt32.toNat_and] at is_command
    exact is_command
  rw [← UInt32.toNat_inj, UInt32.toNat_and, UInt32.toNat_or, pageWord_toNat small,
    Nat.and_or_distrib_right]
  change (command.toNat &&& 0xFFFF) ||| (page &&& 2 ^ 16 - 1) = page
  rw [dropped, Nat.and_two_pow_sub_one_eq_mod, Nat.zero_or]
  omega

theorem flash_address {offset : UInt32} (small : offset.toNat ≤ 0x20000) :
    k1ToPhys (flashBaseAddress ||| offset) = sramBase + offset := by
  have base : flashBaseAddress.toNat = 2 ^ 27 * 21 := by decide
  rw [← UInt32.toNat_inj, k1ToPhys, UInt32.toNat_and, UInt32.toNat_or, UInt32.toNat_add, base,
    ← Nat.two_pow_add_eq_or_of_lt (by omega)]
  change (2 ^ 27 * 21 + offset.toNat) &&& 2 ^ 29 - 1 = (2 ^ 27 + offset.toNat) % 2 ^ 32
  rw [Nat.and_two_pow_sub_one_eq_mod]
  omega

def page (guest : SaveGuest Rdram) (d : SaveDevice Rdram type) (source : UInt64) : List UInt8 :=
  List.ofFn fun i : Fin 128 => guest.memB d.rdram (UInt32.ofNat i) source

structure Stores (d : SaveDevice Rdram type) (indices : List Nat) (values : List UInt8)
    (after : SaveDevice Rdram type) : Prop where
  written : writeAll d.saveBuffer (indices.zip values) = .ok after.saveBuffer
  rdram : after.rdram = d.rdram

/-- What an operation does to the buffer and to guest memory, erasing the bytes
of `span`. -/
def FlashOp.Does (guest : SaveGuest Rdram) (span : Fin 1024 → UInt32 × UInt32)
    (d after : SaveDevice Rdram type) : FlashOp → Prop
  | .program p source mq =>
      Stores (d.sendMesg guest mq) (pointerIndices (pageWord p * pageSize) pageSize)
        (page guest d source) after
  | .eraseSector p =>
      Stores d (pointerIndices (span p).1 (span p).2) (List.replicate (span p).2.toNat 0xFF) after
  | .eraseChip => Stores d (pointerIndices 0 flashSize) (List.replicate flashSize.toNat 0xFF) after
  | .readPages range dest mq =>
      after.saveBuffer = d.saveBuffer ∧
      ∃ values, readAll d.saveBuffer
          (loopIndices (pageWord range.first * pageSize) (pageWord range.count * pageSize)) =
            .ok values ∧
        after.rdram = guest.osSendMesg (setMemBytes guest d.rdram 0 dest values) mq

/-- `flash_erase_page` -/
def pageSpan (p : Fin 1024) : UInt32 × UInt32 := (FlashOp.pageWord p * pageSize, pageSize)

/-- `flash_erase_sector` -/
def sectorSpan (p : Fin 1024) : UInt32 × UInt32 :=
  (FlashOp.pageWord p / pagesPerSector * pagesPerSector * pageSize, flashSectorSize)

theorem page_below (size : getSaveSize type = 0x20000) (p : Fin 1024) :
    ∀ i ∈ pointerIndices (FlashOp.pageWord p * pageSize) pageSize, i < getSaveSize type := by
  have offset := page_byte (Nat.le_of_lt p.isLt)
  refine pointerIndices_below (Or.inr ?_)
  rw [offset, size]
  have bound := p.isLt
  change _ + 128 ≤ _
  omega

theorem chip_below (size : getSaveSize type = 0x20000) :
    ∀ i ∈ pointerIndices 0 flashSize, i < getSaveSize type := by
  refine pointerIndices_below (Or.inr ?_)
  have whole : flashSize.toNat = 0x20000 := rfl
  exact Nat.le_of_eq (by rw [UInt32.toNat_zero, Nat.zero_add, whole, size])

theorem range_fits (size : getSaveSize type = 0x20000) (range : PageRange) :
    (FlashOp.pageWord range.first * pageSize).toNat +
      (FlashOp.pageWord range.count * pageSize).toNat ≤ getSaveSize type := by
  have inside := range.inside
  rw [page_byte (by omega), page_byte (by omega), size]
  omega

theorem performAll_cons {d after : SaveDevice Rdram type} {request : SaveRequest}
    (run : d.perform guest request = .ok after) (rest : List SaveRequest) :
    d.performAll guest (request :: rest) = after.performAll guest rest := by
  rw [performAll, run]
  rfl

theorem performAll_append {d after : SaveDevice Rdram type} (first rest : List SaveRequest)
    (run : d.performAll guest first = .ok after) :
    d.performAll guest (first ++ rest) = after.performAll guest rest := by
  induction first generalizing d with
  | nil =>
      cases run
      rfl
  | cons request later ih =>
      rw [performAll] at run
      cases step : d.perform guest request with
      | error stop =>
          rw [step] at run
          cases run
      | ok middle =>
          rw [step] at run
          rw [List.cons_append, performAll_cons step]
          exact ih run

theorem performAll_one {d after : SaveDevice Rdram type} {request : SaveRequest}
    (run : d.perform guest request = .ok after) : d.performAll guest [request] = .ok after :=
  performAll_cons run []

theorem stores_inside {d : SaveDevice Rdram type} {indices : List Nat} (values : List UInt8)
    (inside : ∀ i ∈ indices, i < getSaveSize type)
    {finish : SaveDevice Rdram type → SaveDevice Rdram type}
    (keeps : ∀ after, SameContents after (finish after)) :
    ∃ after, (d.store indices values).map finish = .ok after ∧ Stores d indices values after := by
  obtain ⟨buffer, written, run⟩ := store_inside values inside
  rw [run]
  refine ⟨_, rfl, ?_, ?_⟩
  · rw [← (keeps _).saveBuffer]
    exact written
  · rw [← (keeps _).rdram]

theorem returns_same (d : SaveDevice Rdram type) (value : UInt64) : SameContents d (d.returns value) :=
  ⟨rfl, rfl⟩

theorem reads_inside (guest : SaveGuest Rdram) (os : SaveDevice Rdram type) {range : PageRange}
    (span : Fin 1024 → UInt32 × UInt32) (dest mq : UInt64)
    (fits : (FlashOp.pageWord range.first * pageSize).toNat +
      (FlashOp.pageWord range.count * pageSize).toNat ≤ getSaveSize type) :
    ∃ after,
      (os.saveRead guest dest (FlashOp.pageWord range.first * pageSize)
        (FlashOp.pageWord range.count * pageSize)).map
          (fun d => (d.sendMesg guest mq).returns 0) = .ok after ∧
        (FlashOp.readPages range dest mq).Does guest span os after := by
  obtain ⟨values, read, run⟩ := saveRead_inside guest (d := os) dest (Or.inr fits)
  rw [run]
  exact ⟨_, rfl, rfl, values, read, rfl⟩

theorem SameContents.sendMesg (same : SameContents os pi) (mq : UInt64) :
    SameContents (os.sendMesg guest mq) ((pi.sendMesg guest mq).returns 0) :=
  ⟨same.saveBuffer, congrArg (guest.osSendMesg · mq) same.rdram⟩

/-! ## flash.cpp -/

theorem os_does (guest : SaveGuest Rdram) (allowed : flashramAllowed type = true) (os : SaveDevice Rdram type) (op : FlashOp) :
    ∃ os', os.performAll guest op.viaOsFlash = .ok os' ∧ op.Does guest pageSpan os os' := by
  have size := flash_saveSize allowed
  cases op with
  | program p source mq =>
      obtain ⟨middle, staged, bytes, buffer, rdram⟩ : ∃ middle,
          os.perform guest (.osFlashWriteBuffer source mq) = .ok middle ∧
            middle.writeBuffer.toList = page guest os source ∧
            middle.saveBuffer = os.saveBuffer ∧ middle.rdram = (os.sendMesg guest mq).rdram := by
        rw [perform, osFlashWriteBuffer, allowed]
        exact ⟨_, rfl, Vector.toList_ofFn, rfl, rfl⟩
      obtain ⟨after, run, stores⟩ := stores_inside middle.writeBuffer.toList (page_below size p)
        fun after => returns_same after 0
      have programmed : middle.perform guest (.osFlashWriteArray (FlashOp.pageWord p).toUInt64) =
          .ok after := by
        rw [perform, osFlashWriteArray, allowed, UInt32.toUInt32_toUInt64]
        exact run
      refine ⟨after, by rw [FlashOp.viaOsFlash, performAll_cons staged, performAll_one programmed], ?_, ?_⟩
      · rw [← bytes]
        change writeAll os.saveBuffer _ = _
        rw [← buffer]
        exact stores.written
      · rw [stores.rdram, rdram]
  | eraseSector p =>
      obtain ⟨after, run, stores⟩ := stores_inside (d := os) (List.replicate pageSize.toNat 0xFF)
        (page_below size p) fun after => returns_same after 0
      have in_chip : ¬FlashOp.pageWord p ≥ pageCount := by
        rw [ge_iff_le, UInt32.le_iff_toNat_le, pageWord_toNat (Nat.le_of_lt p.isLt)]
        exact Nat.not_le.mpr p.isLt
      have erased : os.perform guest (.osFlashSectorErase (FlashOp.pageWord p).toUInt64) = .ok after := by
        rw [perform, osFlashSectorErase, allowed, flashErasePage, UInt32.toUInt32_toUInt64, if_neg in_chip]
        exact run
      exact ⟨after, performAll_one erased, stores⟩
  | eraseChip =>
      obtain ⟨after, run, stores⟩ := stores_inside (d := os) (List.replicate flashSize.toNat 0xFF)
        (chip_below size) fun after => returns_same after 0
      have erased : os.perform guest .osFlashAllErase = .ok after := by
        have same : saveSize = flashSize := rfl
        rw [perform, osFlashAllErase_eq allowed, same, saveClear, run]
      exact ⟨after, performAll_one erased, stores⟩
  | readPages range dest mq =>
      obtain ⟨after, run, reads⟩ := reads_inside guest os pageSpan dest mq (range_fits size range)
      have done : os.perform guest (.osFlashReadArray (FlashOp.pageWord range.first).toUInt64 dest
          (FlashOp.pageWord range.count) mq) = .ok after := by
        rw [perform, osFlashReadArray, allowed, UInt32.toUInt32_toUInt64]
        exact run
      exact ⟨after, performAll_one done, reads⟩

/-! ## pi.cpp -/

theorem perform_writeCommand (allowed : flashramAllowed type = true) (d : SaveDevice Rdram type)
    (data : UInt32) :
    d.perform guest (FlashOp.writeCommand data) = (d.flashCommand data).map (returns · 0) := by
  have at_register : k1ToPhys (flashBaseAddress ||| flashCmdReg) = sramBase + flashCmdReg := by decide
  rw [FlashOp.writeCommand, perform, osEPiWriteIo, UInt32.toUInt32_toUInt64, UInt32.toUInt32_toUInt64,
    allowed, at_register, if_pos (by decide), bind_return]

theorem perform_mode (guest : SaveGuest Rdram) (allowed : flashramAllowed type = true)
    (d : SaveDevice Rdram type)
    {data : UInt32} {mode : FlashMode} (command : d.flashCommand data = .ok { d with flashMode := mode }) :
    d.perform guest (FlashOp.writeCommand data) = .ok { d with flashMode := mode, r2 := 0 } := by
  rw [perform_writeCommand allowed, command]
  rfl

theorem flash_region (allowed : flashramAllowed type = true) {offset size : UInt32}
    (inside : offset.toNat + size.toNat ≤ 0x20000) :
    flashRegionContains type (sramBase + offset) size = true := by
  have base : sramBase.toNat = 2 ^ 27 := by decide
  have sum : (sramBase + offset).toNat = 2 ^ 27 + offset.toNat := by
    rw [UInt32.toNat_add, base]
    omega
  have low : ¬sramBase + offset < sramBase := by
    rw [UInt32.lt_iff_toNat_lt, sum, base]
    omega
  have back : sramBase + offset - sramBase = offset := by
    rw [UInt32.add_comm, UInt32.add_sub_cancel]
  have whole : flashSize.toNat = 0x20000 := rfl
  have offset_le : offset ≤ flashSize := by
    rw [UInt32.le_iff_toNat_le, whole]
    omega
  have size_le : size ≤ flashSize - offset := by
    rw [UInt32.le_iff_toNat_le, UInt32.toNat_sub_of_le _ _ offset_le, whole]
    omega
  rw [flashRegionContains, allowed, if_neg (by decide), if_neg low, back, Bool.and_eq_true]
  exact ⟨decide_eq_true offset_le, decide_eq_true size_le⟩

theorem flashCommand_pageProgram (d : SaveDevice Rdram type) :
    d.flashCommand flashCmdPageProgram = .ok { d with flashMode := .pageProgram } := rfl

theorem flashCommand_readArray (d : SaveDevice Rdram type) :
    d.flashCommand flashCmdReadArray = .ok { d with flashMode := .readArray } := rfl

theorem flashCommand_chipErase (d : SaveDevice Rdram type) :
    d.flashCommand flashCmdChipErase = .ok { d with flashMode := .chipErase } := rfl

theorem flashCommand_programPage (d : SaveDevice Rdram type) (p : Fin 1024) :
    d.flashCommand (flashCmdProgramPage ||| FlashOp.pageWord p) = d.flashProgramPage (FlashOp.pageWord p) := by
  have small := Nat.le_of_lt p.isLt
  unfold flashCommand
  rw [command_upper small (by decide)]
  exact congrArg d.flashProgramPage (command_page small (by decide))

theorem flashCommand_sectorErase (d : SaveDevice Rdram type) (p : Fin 1024) :
    ∃ after, d.flashCommand (flashCmdSectorErase ||| FlashOp.pageWord p) = .ok after ∧
      after.flashMode = .sectorErase ∧ after.flashPendingErasePage = FlashOp.pageWord p ∧
      SameContents d after := by
  have small := Nat.le_of_lt p.isLt
  unfold flashCommand
  rw [command_upper small (by decide), if_neg (by decide), if_pos rfl]
  exact ⟨_, rfl, rfl, command_page small (by decide), rfl, rfl⟩

theorem sector_start (p : Fin 1024) : (sectorSpan p).1.toNat = 16384 * (p / 128) := by
  have word := pageWord_toNat (Nat.le_of_lt p.isLt)
  have masked : FlashOp.pageWord p ≤ 0xFFFF := by
    have bound := p.isLt
    rw [UInt32.le_iff_toNat_le, word]
    change p.val ≤ 65535
    omega
  rw [sectorSpan, sector_offset masked, word]

theorem sector_in_chip (p : Fin 1024) : (sectorSpan p).1.toNat + 16384 ≤ 0x20000 := by
  have bound := p.isLt
  rw [sector_start]
  omega

theorem sector_below (size : getSaveSize type = 0x20000) (p : Fin 1024) :
    ∀ i ∈ pointerIndices (sectorSpan p).1 (sectorSpan p).2, i < getSaveSize type := by
  refine pointerIndices_below (Or.inr ?_)
  rw [size]
  exact sector_in_chip p

theorem flashProgramPage_stores (size : getSaveSize type = 0x20000) (d : SaveDevice Rdram type)
    (p : Fin 1024) :
    ∃ after, (d.flashProgramPage (FlashOp.pageWord p)).map (returns · 0) = .ok after ∧
      Stores d (pointerIndices (FlashOp.pageWord p * pageSize) pageSize) d.flashWriteBuffer.toList after := by
  have inside : FlashOp.pageWord p * pageSize + pageSize ≤ flashSize := by
    have bound := p.isLt
    rw [UInt32.le_iff_toNat_le, UInt32.toNat_add, page_byte (Nat.le_of_lt bound)]
    change (128 * p.val + 128) % 2 ^ 32 ≤ 0x20000
    omega
  obtain ⟨after, run, stores⟩ := stores_inside d.flashWriteBuffer.toList (page_below size p)
    fun after => (⟨rfl, rfl⟩ : SameContents after
      { after with flashStatus := 0x04, flashMode := .status, r2 := 0 })
  refine ⟨after, ?_, stores⟩
  rw [flashProgramPage, if_pos inside, bind_return, ← run]
  unfold saveWritePtr
  cases d.store (pointerIndices (FlashOp.pageWord p * pageSize) pageSize) d.flashWriteBuffer.toList <;> rfl

theorem flashEraseSector_stores (size : getSaveSize type = 0x20000) (d : SaveDevice Rdram type)
    (p : Fin 1024) :
    ∃ after, (d.flashEraseSector (FlashOp.pageWord p)).map (returns · 0) = .ok after ∧
      Stores d (pointerIndices (sectorSpan p).1 (sectorSpan p).2)
        (List.replicate (sectorSpan p).2.toNat 0xFF) after := by
  have inside : (sectorSpan p).1 + flashSectorSize ≤ flashSize := by
    have fits := sector_in_chip p
    have sector_size : flashSectorSize.toNat = 16384 := rfl
    have whole : flashSize.toNat = 0x20000 := rfl
    rw [UInt32.le_iff_toNat_le, UInt32.toNat_add, sector_size, whole]
    omega
  obtain ⟨after, run, stores⟩ := stores_inside (d := d) (List.replicate (sectorSpan p).2.toNat 0xFF)
    (sector_below size p) fun after => (⟨rfl, rfl⟩ : SameContents after
      { after with flashStatus := 0x08, flashMode := .status, r2 := 0 })
  have erased : d.flashEraseSector (FlashOp.pageWord p) =
      (d.store (pointerIndices (sectorSpan p).1 (sectorSpan p).2)
        (List.replicate (sectorSpan p).2.toNat 0xFF)).map fun after =>
          { after with flashStatus := 0x08, flashMode := .status } := by
    unfold flashEraseSector
    exact (if_pos inside).trans (bind_return _ _)
  refine ⟨after, ?_, stores⟩
  rw [erased, ← run]
  cases d.store (pointerIndices (sectorSpan p).1 (sectorSpan p).2)
    (List.replicate (sectorSpan p).2.toNat 0xFF) <;> rfl

theorem flashEraseChip_stores (size : getSaveSize type = 0x20000) (d : SaveDevice Rdram type) :
    ∃ after, d.flashEraseChip.map (returns · 0) = .ok after ∧
      Stores d (pointerIndices 0 flashSize) (List.replicate flashSize.toNat 0xFF) after := by
  obtain ⟨after, run, stores⟩ := stores_inside (d := d) (List.replicate flashSize.toNat 0xFF)
    (chip_below size) fun after => (⟨rfl, rfl⟩ : SameContents after
      { after with flashStatus := 0x08, flashMode := .status, r2 := 0 })
  refine ⟨after, ?_, stores⟩
  rw [flashEraseChip, bind_return, ← run]
  unfold saveClear
  cases d.store (pointerIndices 0 flashSize) (List.replicate flashSize.toNat 0xFF) <;> rfl

theorem perform_stage (guest : SaveGuest Rdram) (allowed : flashramAllowed type = true)
    {d : SaveDevice Rdram type}
    (mode : d.flashMode = .pageProgram) (source mq : UInt64) :
    ∃ after, d.perform guest (.osEPiStartDma 1 flashBaseAddress 0 source pageSize mq) = .ok after ∧
      after.flashWriteBuffer.toList = page guest d source ∧
      SameContents (d.sendMesg guest mq) after := by
  have address : k1ToPhys (flashBaseAddress ||| 0) = sramBase + 0 := flash_address (by decide)
  have first_page : (0 : UInt32).toNat + pageSize.toNat ≤ 0x20000 := by
    change 0 + 128 ≤ 0x20000
    omega
  have region := flash_region allowed first_page
  have kept : SameContents d (d.stagePage guest source pageSize) := by
    unfold stagePage
    exact ⟨rfl, rfl⟩
  refine ⟨((d.stagePage guest source pageSize).sendMesg guest mq).returns 0, ?_, ?_, kept.sendMesg mq⟩
  · rw [perform, osEPiStartDma, address, doDma, if_neg (by decide), if_neg (by decide), if_pos region,
      if_pos mode]
    rfl
  · have staged : (d.stagePage guest source pageSize).flashWriteBuffer =
        Vector.ofFn fun i : Fin 128 => guest.memB d.rdram (UInt32.ofNat i) source := by
      apply Vector.ext
      intro i below
      rw [stagePage, Vector.getElem_ofFn, Vector.getElem_ofFn]
      exact if_pos below
    have kept_buffer : (((d.stagePage guest source pageSize).sendMesg guest mq).returns 0).flashWriteBuffer =
        (d.stagePage guest source pageSize).flashWriteBuffer := rfl
    rw [kept_buffer, staged]
    exact Vector.toList_ofFn

theorem perform_readPages (guest : SaveGuest Rdram) (allowed : flashramAllowed type = true)
    {d : SaveDevice Rdram type}
    (mode : d.flashMode ≠ .id) (range : PageRange) (dest mq : UInt64) :
    ∃ after, d.perform guest (.osEPiStartDma 0 flashBaseAddress (FlashOp.pageWord range.first * pageSize)
        dest (FlashOp.pageWord range.count * pageSize) mq) = .ok after ∧
      (FlashOp.readPages range dest mq).Does guest sectorSpan d after := by
  have size := flash_saveSize allowed
  have inside := range.inside
  have fits := range_fits size range
  have in_chip : (FlashOp.pageWord range.first * pageSize).toNat ≤ 0x20000 := by omega
  have address := flash_address in_chip
  have region := flash_region allowed (size ▸ fits)
  have base : sramBase.toNat = 2 ^ 27 := by decide
  have not_rom : ¬sramBase + FlashOp.pageWord range.first * pageSize ≥ romBase := by
    have rom : romBase.toNat = 2 ^ 28 := by decide
    rw [ge_iff_le, UInt32.le_iff_toNat_le, UInt32.toNat_add, base, rom]
    omega
  have back : sramBase + FlashOp.pageWord range.first * pageSize - sramBase =
      FlashOp.pageWord range.first * pageSize := by
    rw [UInt32.add_comm, UInt32.add_sub_cancel]
  obtain ⟨after, run, reads⟩ := reads_inside guest d sectorSpan dest mq fits
  refine ⟨after, ?_, reads⟩
  rw [perform, osEPiStartDma, address, doDma, if_pos (by decide), if_neg not_rom, if_pos region,
    if_neg mode, back, bind_return, bind_return, ← run]
  cases d.saveRead guest dest (FlashOp.pageWord range.first * pageSize)
    (FlashOp.pageWord range.count * pageSize) <;> rfl

theorem flashCommand_executeErase {d : SaveDevice Rdram type} (mode : d.flashMode = .sectorErase) :
    d.flashCommand flashCmdExecuteErase = d.flashEraseSector d.flashPendingErasePage := by
  unfold flashCommand
  dsimp only
  rw [if_neg (by decide), if_neg (by decide), if_pos (by decide), mode]

theorem pi_does (guest : SaveGuest Rdram) (allowed : flashramAllowed type = true) (pi : SaveDevice Rdram type) (op : FlashOp) :
    ∃ pi', pi.performAll guest op.viaPi = .ok pi' ∧ op.Does guest sectorSpan pi pi' := by
  have size := flash_saveSize allowed
  cases op with
  | program p source mq =>
      have mode := perform_mode guest allowed pi (flashCommand_pageProgram pi)
      obtain ⟨middle, staged, bytes, same⟩ := perform_stage guest allowed
        (d := { pi with flashMode := .pageProgram, r2 := 0 }) rfl source mq
      obtain ⟨after, run, stores⟩ := flashProgramPage_stores size middle p
      have programmed : middle.perform guest (FlashOp.writeCommand
          (flashCmdProgramPage ||| FlashOp.pageWord p)) = .ok after := by
        rw [perform_writeCommand allowed, flashCommand_programPage, run]
      refine ⟨after, ?_, ?_, ?_⟩
      · rw [FlashOp.viaPi, performAll_cons mode, performAll_cons staged, performAll_one programmed]
      · have written := stores.written
        rw [bytes, ← same.saveBuffer] at written
        exact written
      · rw [stores.rdram, ← same.rdram]
        rfl
  | eraseSector p =>
      obtain ⟨middle, command, mode, pending, same⟩ := flashCommand_sectorErase pi p
      have first : pi.perform guest (FlashOp.writeCommand (flashCmdSectorErase ||| FlashOp.pageWord p)) =
          .ok (middle.returns 0) := by
        rw [perform_writeCommand allowed, command]
        rfl
      obtain ⟨after, run, stores⟩ := flashEraseSector_stores size (middle.returns 0) p
      have erased : (middle.returns 0).perform guest (FlashOp.writeCommand flashCmdExecuteErase) =
          .ok after := by
        have erase : (middle.returns 0).flashCommand flashCmdExecuteErase =
            (middle.returns 0).flashEraseSector (FlashOp.pageWord p) := by
          rw [← pending]
          exact flashCommand_executeErase mode
        rw [perform_writeCommand allowed, erase, run]
      refine ⟨after, ?_, ?_, ?_⟩
      · rw [FlashOp.viaPi, performAll_cons first, performAll_one erased]
      · have written := stores.written
        change writeAll middle.saveBuffer _ = _ at written
        rw [← same.saveBuffer] at written
        exact written
      · rw [stores.rdram, same.rdram]
        rfl
  | eraseChip =>
      have mode := perform_mode guest allowed pi (flashCommand_chipErase pi)
      obtain ⟨after, run, stores⟩ :=
        flashEraseChip_stores size ({ pi with flashMode := .chipErase, r2 := 0 } : SaveDevice Rdram type)
      have erased : ({ pi with flashMode := .chipErase, r2 := 0 } : SaveDevice Rdram type).perform guest
          (FlashOp.writeCommand flashCmdExecuteErase) = .ok after := by
        rw [perform_writeCommand allowed, ← run]
        rfl
      exact ⟨after, by rw [FlashOp.viaPi, performAll_cons mode, performAll_one erased], stores.written,
        stores.rdram⟩
  | readPages range dest mq =>
      have mode := perform_mode guest allowed pi (flashCommand_readArray pi)
      obtain ⟨after, run, reads⟩ := perform_readPages guest allowed
        (d := { pi with flashMode := .readArray, r2 := 0 }) (fun id => by cases id) range dest mq
      exact ⟨after, by rw [FlashOp.viaPi, performAll_cons mode, performAll_one run], reads⟩

/-! ## One operation, and a run -/

theorem mem_pointerIndices {offset count : UInt32} {i : Nat} :
    i ∈ pointerIndices offset count ↔ offset.toNat ≤ i ∧ i < offset.toNat + count.toNat := by
  rw [pointerIndices, List.mem_map]
  constructor
  · rintro ⟨pos, in_range, rfl⟩
    have below := List.mem_range.mp in_range
    omega
  · rintro ⟨low, high⟩
    exact ⟨i - offset.toNat, List.mem_range.mpr (by omega), by omega⟩

theorem zip_replicate_eq (indices : List Nat) (value : UInt8) :
    indices.zip (List.replicate indices.length value) = indices.map fun i => (i, value) := by
  rw [← List.map_const', List.map_prod_left_eq_zip]

theorem pointerIndices_length (offset count : UInt32) : (pointerIndices offset count).length = count.toNat := by
  rw [pointerIndices, List.length_map, List.length_range]

theorem mem_sector_not_page (p : Fin 1024) (i : Nat) :
    i ∈ pointerIndices (sectorSpan p).1 (sectorSpan p).2 ∧
        i ∉ pointerIndices (pageSpan p).1 (pageSpan p).2 ↔
      i / 16384 = p / 128 ∧ i / 128 ≠ p := by
  have page_start : (pageSpan p).1.toNat = 128 * p := page_byte (Nat.le_of_lt p.isLt)
  have page_size : (pageSpan p).2.toNat = 128 := rfl
  have sector_size : (sectorSpan p).2.toNat = 16384 := rfl
  rw [mem_pointerIndices, mem_pointerIndices, sector_start, page_start, page_size, sector_size]
  omega

theorem page_in_sector (p : Fin 1024) :
    ∀ i ∈ pointerIndices (pageSpan p).1 (pageSpan p).2,
      i ∈ pointerIndices (sectorSpan p).1 (sectorSpan p).2 := by
  have page_start : (pageSpan p).1.toNat = 128 * p := page_byte (Nat.le_of_lt p.isLt)
  have page_size : (pageSpan p).2.toNat = 128 := rfl
  have sector_size : (sectorSpan p).2.toNat = 16384 := rfl
  intro i mem
  rw [mem_pointerIndices, page_start, page_size] at mem
  rw [mem_pointerIndices, sector_start, sector_size]
  omega

theorem erases_agree_iff {p : Fin 1024} {os' pi' : SaveDevice Rdram type} (same : SameContents os pi)
    (does_os : (FlashOp.eraseSector p).Does guest pageSpan os os')
    (does_pi : (FlashOp.eraseSector p).Does guest sectorSpan pi pi') :
    SameContents os' pi' ↔ (FlashOp.eraseSector p).SectorBlank os.saveBuffer := by
  have small := does_os.written
  have large := does_pi.written
  rw [← pointerIndices_length (pageSpan p).1 (pageSpan p).2, zip_replicate_eq] at small
  rw [← pointerIndices_length (sectorSpan p).1 (sectorSpan p).2, zip_replicate_eq, ← same.saveBuffer] at large
  have rdram : os'.rdram = pi'.rdram := by rw [does_os.rdram, does_pi.rdram, same.rdram]
  have fills := fills_agree_iff (page_in_sector p) 0xFF small large
  constructor
  · intro agree i below in_sector off_page
    obtain ⟨mem, not_mem⟩ := (mem_sector_not_page p i).mpr ⟨in_sector, off_page⟩
    exact fills.mp agree.saveBuffer i below mem not_mem
  · intro blank
    refine ⟨fills.mpr fun i below mem not_mem => ?_, rdram⟩
    obtain ⟨in_sector, off_page⟩ := (mem_sector_not_page p i).mp ⟨mem, not_mem⟩
    exact blank i below in_sector off_page

/-- Starting from the same contents, an operation ends in the same contents
exactly when a sector that it erases was blank around its page. -/
theorem ops_agree_iff (op : FlashOp) {os' pi' : SaveDevice Rdram type} (same : SameContents os pi)
    (does_os : op.Does guest pageSpan os os') (does_pi : op.Does guest sectorSpan pi pi') :
    SameContents os' pi' ↔ op.SectorBlank os.saveBuffer := by
  cases op with
  | eraseSector p => exact erases_agree_iff same does_os does_pi
  | program p source mq =>
      have written := does_os.written
      have bytes : page guest os source = page guest pi source := by rw [page, same.rdram, page]
      have buffer : (os.sendMesg guest mq).saveBuffer = (pi.sendMesg guest mq).saveBuffer := same.saveBuffer
      rw [bytes, buffer, does_pi.written] at written
      refine iff_of_true ⟨(Except.ok.inj written).symm, ?_⟩ trivial
      rw [does_os.rdram, does_pi.rdram]
      exact congrArg (guest.osSendMesg · mq) same.rdram
  | eraseChip =>
      have written := does_os.written
      rw [same.saveBuffer, does_pi.written] at written
      refine iff_of_true ⟨(Except.ok.inj written).symm, ?_⟩ trivial
      rw [does_os.rdram, does_pi.rdram, same.rdram]
  | readPages range dest mq =>
      obtain ⟨os_buffer, os_values, os_read, os_rdram⟩ := does_os
      obtain ⟨pi_buffer, pi_values, pi_read, pi_rdram⟩ := does_pi
      rw [same.saveBuffer, pi_read] at os_read
      refine iff_of_true ⟨by rw [os_buffer, pi_buffer, same.saveBuffer], ?_⟩ trivial
      rw [os_rdram, pi_rdram, Except.ok.inj os_read, same.rdram]

theorem agree_cons_iff {op : FlashOp} {os' pi' : SaveDevice Rdram type}
    (run_os : os.performAll guest op.viaOsFlash = .ok os')
    (run_pi : pi.performAll guest op.viaPi = .ok pi') (rest : List FlashOp) :
    Agree guest os pi (op :: rest) ↔ Agree guest os' pi' rest := by
  unfold Agree
  rw [List.flatMap_cons, List.flatMap_cons, performAll_append _ _ run_os, performAll_append _ _ run_pi]

end Calls

/-- The two implementations agree after every part of a run exactly when each
sector that the run erases is blank around the page it is named by. -/
theorem flash_implementations_agree (guest : SaveGuest Rdram) (allowed : flashramAllowed type = true)
    (os pi : SaveDevice Rdram type) (same : SameContents os pi) (ops : List FlashOp) :
    (∀ done, done <+: ops → Agree guest os pi done) ↔ SectorsBlank guest os ops := by
  induction ops generalizing os pi with
  | nil =>
      refine iff_of_true (fun done is_part => ?_) trivial
      rw [List.prefix_nil.mp is_part]
      exact ⟨os, pi, rfl, rfl, same⟩
  | cons op rest ih =>
      obtain ⟨os', run_os, does_os⟩ := os_does guest allowed os op
      obtain ⟨pi', run_pi, does_pi⟩ := pi_does guest allowed pi op
      have step := ops_agree_iff op same does_os does_pi
      constructor
      · intro agree
        obtain ⟨_, _, none_os, none_pi, same'⟩ :=
          (agree_cons_iff run_os run_pi []).mp (agree [op] (List.prefix_append [op] rest))
        cases none_os
        cases none_pi
        refine ⟨step.mp same', fun after run => ?_⟩
        cases run_os.symm.trans run
        refine (ih os' pi' same').mp fun done is_part => ?_
        exact (agree_cons_iff run_os run_pi done).mp (agree (op :: done) (List.cons_prefix_cons.mpr ⟨rfl, is_part⟩))
      · rintro ⟨blank, later⟩ done is_part
        rcases List.prefix_cons_iff.mp is_part with none_done | ⟨more, rfl, is_part'⟩
        · subst none_done
          exact ⟨os, pi, rfl, rfl, same⟩
        · have same' := step.mpr blank
          exact (agree_cons_iff run_os run_pi more).mpr ((ih os' pi' same').mpr (later os' run_os) more is_part')

theorem blank_chip_agrees : Agree stillGuest (started .flashram 0xFF) (started .flashram 0xFF)
    [FlashOp.eraseSector 3, FlashOp.program 3 0 0] := by
  have every_part := (flash_implementations_agree stillGuest rfl (started .flashram 0xFF)
    (started .flashram 0xFF) ⟨rfl, rfl⟩ [.eraseSector 3, .program 3 0 0]).mpr
    ⟨fun i below _ _ => Vector.getElem_replicate below,
      fun _ _ => ⟨trivial, fun _ _ => trivial⟩⟩
  exact every_part _ (List.prefix_refl _)

/-- A sector in use: erasing its page 1 keeps page 0 here, and clears it there. -/
theorem sector_erase_differs :
    ¬Agree stillGuest (started .flashram 0) (started .flashram 0) [.eraseSector 1] := by
  intro agree
  obtain ⟨os', run_os, does_os⟩ := os_does stillGuest rfl (started .flashram 0) (.eraseSector 1)
  obtain ⟨pi', run_pi, does_pi⟩ := pi_does stillGuest rfl (started .flashram 0) (.eraseSector 1)
  obtain ⟨_, _, none_os, none_pi, same⟩ := (agree_cons_iff run_os run_pi []).mp agree
  cases none_os
  cases none_pi
  have blank := (ops_agree_iff _ ⟨rfl, rfl⟩ does_os does_pi).mp same
  have below : 0 < getSaveSize .flashram := by decide
  have first_byte : (started .flashram 0).saveBuffer[0] = 0xFF := blank 0 below (by decide) (by decide)
  have zero : (started .flashram 0).saveBuffer[0] = 0 := Vector.getElem_replicate below
  rw [zero] at first_byte
  exact absurd first_byte (by decide)

end N64ModernRuntime.Librecomp
