import N64ModernRuntime.Librecomp.FlashAgree

/-!
# The flash chip behind the bus

What pi.cpp keeps of FlashRAM is one chip: its contents, the page that is staged
and what it is set to.  The device runs as the chip does, whatever the game sends.
-/

set_option autoImplicit false

namespace N64ModernRuntime.Librecomp

open CheckedBuffer SaveDevice

/-! ## The chip -/

inductive FlashPhase where
  | array
  | status
  | id
  | staging
  | sectorArmed (page : Nat)
  | chipArmed

/-- `staged` is the last page that came while the chip was staging. -/
@[ext]
structure FlashChip where
  contents : Nat → UInt8
  staged : Nat → UInt8
  phase : FlashPhase

inductive FlashEvent where
  | enter (phase : FlashPhase)
  | programPage (page : Nat)
  | executeErase
  | transfer (bytes : List UInt8)
  | nothing

namespace FlashChip

def pages : Nat := 1024

/-- The page becomes the staged one; the chip has 1024 pages of 128 bytes. -/
def programPage (chip : FlashChip) (page : Nat) : FlashChip where
  contents i := if page < pages ∧ i / 128 = page then chip.staged (i % 128) else chip.contents i
  staged := chip.staged
  phase := .status

def eraseSector (chip : FlashChip) (page : Nat) : FlashChip where
  contents i := if page < pages ∧ i / 16384 = page / 128 then 0xFF else chip.contents i
  staged := chip.staged
  phase := .status

def eraseChip (chip : FlashChip) : FlashChip where
  contents _ := 0xFF
  staged := chip.staged
  phase := .status

/-- An erase that has not been armed does nothing. -/
def executeErase (chip : FlashChip) : FlashChip :=
  match chip.phase with
  | .sectorArmed page => chip.eraseSector page
  | .chipArmed => chip.eraseChip
  | _ => chip

/-- A page of the bytes, with 0xFF behind them. -/
def stage (chip : FlashChip) (bytes : List UInt8) : FlashChip :=
  match chip.phase with
  | .staging => { chip with staged := fun i => ((bytes.take 128)[i]?).getD 0xFF }
  | _ => chip

def step (chip : FlashChip) : FlashEvent → FlashChip
  | .enter phase => { chip with phase := phase }
  | .programPage page => chip.programPage page
  | .executeErase => chip.executeErase
  | .transfer bytes => chip.stage bytes
  | .nothing => chip

section

variable {chip : FlashChip} {page i : Nat}

theorem programPage_here (inside : page < pages) (here : i / 128 = page) :
    (chip.programPage page).contents i = chip.staged (i % 128) := if_pos ⟨inside, here⟩

theorem programPage_away (away : ¬ (page < pages ∧ i / 128 = page)) :
    (chip.programPage page).contents i = chip.contents i := if_neg away

theorem eraseSector_here (inside : page < pages) (here : i / 16384 = page / 128) :
    (chip.eraseSector page).contents i = 0xFF := if_pos ⟨inside, here⟩

theorem eraseSector_away (away : ¬ (page < pages ∧ i / 16384 = page / 128)) :
    (chip.eraseSector page).contents i = chip.contents i := if_neg away

end

def range (chip : FlashChip) (first count : Nat) : List UInt8 :=
  (List.range count).map fun pos => chip.contents (first + pos)

end FlashChip

/-! ## The device as a chip -/

variable {Rdram : Type} {type : SaveType}

def FlashEvent.ofCommand (data : UInt32) : FlashEvent :=
  let command := data &&& 0xFF000000
  let page := (data &&& 0x0000FFFF).toNat
  if command = flashCmdChipErase then .enter .chipArmed
  else if command = flashCmdSectorErase then .enter (.sectorArmed page)
  else if command = flashCmdExecuteErase then .executeErase
  else if command = flashCmdProgramPage then .programPage page
  else if command = flashCmdPageProgram then .enter .staging
  else if command = flashCmdStatus then .enter .status
  else if command = flashCmdId then .enter .id
  else if command = flashCmdReadArray then .enter .array
  else .nothing

namespace SaveDevice

def phase (d : SaveDevice Rdram type) : FlashPhase :=
  match d.flashMode with
  | .readArray => .array
  | .status => .status
  | .id => .id
  | .pageProgram => .staging
  | .sectorErase => .sectorArmed d.flashPendingErasePage.toNat
  | .chipErase => .chipArmed

/-- The chip that the device stands for, blank behind its end. -/
def chip (d : SaveDevice Rdram type) : FlashChip where
  contents i := (d.saveBuffer[i]?).getD 0xFF
  staged i := (d.flashWriteBuffer[i]?).getD 0xFF
  phase := d.phase

/-- What a request tells the chip, with the bytes that a transfer finds in guest memory. -/
def event (guest : SaveGuest Rdram) (d : SaveDevice Rdram type) : SaveRequest → FlashEvent
  | .osEPiWriteIo baseAddress r5 r6 =>
    let physicalAddr := k1ToPhys (baseAddress ||| r5.toUInt32)
    if physicalAddr = sramBase + flashCmdReg then .ofCommand r6.toUInt32
    else if physicalAddr = sramBase ∧ r6.toUInt32 = 0 then .enter .array
    else .nothing
  | .osEPiStartDma r6 _ _ dramAddr size _ =>
    if r6.toUInt32 = 0 then .nothing else .transfer (d.memBytes guest dramAddr size)
  | _ => .nothing

end SaveDevice

def SaveRequest.OnBus (type : SaveType) : SaveRequest → Prop
  | .osEPiWriteIo _ _ _ => True
  | .osEPiReadIo _ _ _ => True
  | .osPiStartDma _ r7 _ size _ =>
    flashRegionContains type (k1ToPhys (r7.toUInt32 ||| romBase)) size = true
  | .osEPiStartDma _ baseAddress devAddr _ size _ =>
    flashRegionContains type (k1ToPhys (baseAddress ||| devAddr)) size = true
  | _ => False

/-- A transfer from the chip, unless it shows its id, brings the contents of the range. -/
def Fetches (guest : SaveGuest Rdram) (d after : SaveDevice Rdram type) : SaveRequest → Prop
  | .osEPiStartDma r6 baseAddress devAddr dramAddr size mq =>
    r6.toUInt32 = 0 → d.chip.phase ≠ .id →
      after.rdram = guest.osSendMesg (setMemBytes guest d.rdram 0 dramAddr
        (d.chip.range (k1ToPhys (baseAddress ||| devAddr) - sramBase).toNat size.toNat)) mq
  | _ => True

/-- Each request returns, the chip has taken its step, and what is fetched is what the chip holds. -/
def RunsAsChip (guest : SaveGuest Rdram) (d : SaveDevice Rdram type) : List SaveRequest → Prop
  | [] => True
  | request :: rest =>
    ∃ after, d.perform guest request = .ok after ∧ after.chip = d.chip.step (d.event guest request) ∧
      Fetches guest d after request ∧ RunsAsChip guest after rest

/-! ## What the functions of the chip do to it -/

namespace SaveDevice

variable {guest : SaveGuest Rdram} {d after : SaveDevice Rdram type}

theorem store_span (d : SaveDevice Rdram type) (offset count : UInt32) (values : List UInt8)
    (long : values.length = count.toNat) (fits : offset.toNat + count.toNat ≤ getSaveSize type) :
    ∃ buffer, d.store (pointerIndices offset count) values =
        .ok { d with saveBuffer := buffer, touched := pointerIndices offset count ++ d.touched } ∧
      ∀ i : Nat, buffer[i]? = if offset.toNat ≤ i ∧ i < offset.toNat + count.toNat then
        values[i - offset.toNat]? else d.saveBuffer[i]? := by
  obtain ⟨buffer, written, run⟩ := store_inside (d := d) values (pointerIndices_below (Or.inr fits))
  refine ⟨buffer, run, fun i => ?_⟩
  have row : pointerIndices offset count = List.range' offset.toNat values.length := by
    rw [pointerIndices, long, List.range'_eq_map_range]
  rw [row] at written
  rw [getElem?_writeAll_range _ _ written i, long]

theorem flashProgramPage_chip (allowed : flashramAllowed type = true) (d : SaveDevice Rdram type)
    {pageNum : UInt32} (page_le : pageNum ≤ 0xFFFF) :
    ∃ after, d.flashProgramPage pageNum = .ok after ∧
      after.chip = d.chip.programPage pageNum.toNat := by
  have size := flash_saveSize allowed
  have small : pageNum.toNat ≤ 0xFFFF := UInt32.le_iff_toNat_le.mp page_le
  have offset : (pageNum * pageSize).toNat = 128 * pageNum.toNat := by
    rw [page_offset]
    omega
  have whole : flashSize.toNat = 0x20000 := rfl
  have one_page : pageSize.toNat = 128 := rfl
  have inside_iff : pageNum * pageSize + pageSize ≤ flashSize ↔ pageNum.toNat < FlashChip.pages := by
    rw [UInt32.le_iff_toNat_le, UInt32.toNat_add, offset, whole, one_page]
    change _ ↔ pageNum.toNat < 1024
    omega
  by_cases inside : pageNum * pageSize + pageSize ≤ flashSize
  · have in_chip := inside_iff.mp inside
    have page_lt : pageNum.toNat < 1024 := in_chip
    obtain ⟨buffer, run, stored⟩ := d.store_span (pageNum * pageSize) pageSize
      d.flashWriteBuffer.toList (by rw [Vector.length_toList]; rfl)
      (by rw [offset, one_page, size]; omega)
    refine ⟨{ d with
      saveBuffer := buffer
      touched := pointerIndices (pageNum * pageSize) pageSize ++ d.touched
      flashStatus := 0x04
      flashMode := .status }, ?_, ?_⟩
    · rw [flashProgramPage, if_pos inside, saveWritePtr, run]
      rfl
    · apply FlashChip.ext
      · funext i
        change (buffer[i]?).getD 0xFF = _
        rw [stored, offset, one_page]
        by_cases here : i / 128 = pageNum.toNat
        · have at_page : i - 128 * pageNum.toNat = i % 128 := by omega
          rw [if_pos (by omega), at_page, FlashChip.programPage_here in_chip here,
            Vector.getElem?_toList]
          rfl
        · rw [if_neg (by omega), FlashChip.programPage_away fun both => here both.2]
          rfl
      · rfl
      · rfl
  · have outside : ¬ pageNum.toNat < FlashChip.pages := fun below => inside (inside_iff.mpr below)
    refine ⟨{ d with flashStatus := 0, flashMode := .status }, ?_, ?_⟩
    · rw [flashProgramPage, if_neg inside]
      rfl
    · apply FlashChip.ext
      · funext i
        rw [FlashChip.programPage_away fun both => outside both.1]
        rfl
      · rfl
      · rfl

theorem flashEraseSector_chip (allowed : flashramAllowed type = true) (d : SaveDevice Rdram type)
    {pageNum : UInt32} (page_le : pageNum ≤ 0xFFFF) :
    ∃ after, d.flashEraseSector pageNum = .ok after ∧
      after.chip = d.chip.eraseSector pageNum.toNat := by
  have size := flash_saveSize allowed
  have small : pageNum.toNat ≤ 0xFFFF := UInt32.le_iff_toNat_le.mp page_le
  have offset := sector_offset page_le
  have whole : flashSize.toNat = 0x20000 := rfl
  have one_sector : flashSectorSize.toNat = 16384 := rfl
  have inside_iff : pageNum / pagesPerSector * pagesPerSector * pageSize + flashSectorSize ≤ flashSize ↔
      pageNum.toNat < FlashChip.pages := by
    rw [UInt32.le_iff_toNat_le, UInt32.toNat_add, offset, whole, one_sector]
    change _ ↔ pageNum.toNat < 1024
    omega
  by_cases inside : pageNum / pagesPerSector * pagesPerSector * pageSize + flashSectorSize ≤ flashSize
  · have in_chip := inside_iff.mp inside
    have page_lt : pageNum.toNat < 1024 := in_chip
    obtain ⟨buffer, run, stored⟩ := d.store_span
      (pageNum / pagesPerSector * pagesPerSector * pageSize) flashSectorSize
      (List.replicate flashSectorSize.toNat 0xFF) List.length_replicate
      (by rw [offset, one_sector, size]; omega)
    refine ⟨{ d with
      saveBuffer := buffer
      touched := pointerIndices (pageNum / pagesPerSector * pagesPerSector * pageSize)
        flashSectorSize ++ d.touched
      flashStatus := 0x08
      flashMode := .status }, ?_, ?_⟩
    · rw [flashEraseSector]
      simp only [if_pos inside]
      rw [saveClear, run]
      rfl
    · apply FlashChip.ext
      · funext i
        change (buffer[i]?).getD 0xFF = _
        rw [stored, offset, one_sector]
        by_cases here : i / 16384 = pageNum.toNat / 128
        · have in_sector : i - 16384 * (pageNum.toNat / 128) < 16384 := by omega
          rw [if_pos (by omega), List.getElem?_replicate_of_lt in_sector,
            FlashChip.eraseSector_here in_chip here]
          rfl
        · rw [if_neg (by omega), FlashChip.eraseSector_away fun both => here both.2]
          rfl
      · rfl
      · rfl
  · have outside : ¬ pageNum.toNat < FlashChip.pages := fun below => inside (inside_iff.mpr below)
    refine ⟨{ d with flashStatus := 0, flashMode := .status }, ?_, ?_⟩
    · rw [flashEraseSector]
      simp only [if_neg inside]
      rfl
    · apply FlashChip.ext
      · funext i
        rw [FlashChip.eraseSector_away fun both => outside both.1]
        rfl
      · rfl
      · rfl

theorem flashEraseChip_chip (allowed : flashramAllowed type = true) (d : SaveDevice Rdram type) :
    ∃ after, d.flashEraseChip = .ok after ∧ after.chip = d.chip.eraseChip := by
  have size := flash_saveSize allowed
  have whole : flashSize.toNat = 0x20000 := rfl
  obtain ⟨buffer, run, stored⟩ := d.store_span 0 flashSize
    (List.replicate flashSize.toNat 0xFF) List.length_replicate
    (Nat.le_of_eq (by rw [UInt32.toNat_zero, Nat.zero_add, whole, size]))
  refine ⟨{ d with
    saveBuffer := buffer
    touched := pointerIndices 0 flashSize ++ d.touched
    flashStatus := 0x08
    flashMode := .status }, ?_, ?_⟩
  · rw [flashEraseChip, saveClear, run]
    rfl
  · apply FlashChip.ext
    · funext i
      change (buffer[i]?).getD 0xFF = 0xFF
      rw [stored, whole, UInt32.toNat_zero, Nat.sub_zero]
      by_cases below : i < 0x20000
      · rw [if_pos (by omega), List.getElem?_replicate_of_lt below]
        rfl
      · rw [if_neg (by omega), Vector.getElem?_eq_none (by omega)]
        rfl
    · rfl
    · rfl

theorem flashCommand_chip (allowed : flashramAllowed type = true) (d : SaveDevice Rdram type)
    (data : UInt32) :
    ∃ after, d.flashCommand data = .ok after ∧ after.chip = d.chip.step (.ofCommand data) := by
  unfold flashCommand FlashEvent.ofCommand
  dsimp only
  by_cases chip : data &&& 0xFF000000 = flashCmdChipErase
  · rw [if_pos chip, if_pos chip]
    exact ⟨_, rfl, rfl⟩
  rw [if_neg chip, if_neg chip]
  by_cases sector : data &&& 0xFF000000 = flashCmdSectorErase
  · rw [if_pos sector, if_pos sector]
    exact ⟨_, rfl, rfl⟩
  rw [if_neg sector, if_neg sector]
  by_cases execute : data &&& 0xFF000000 = flashCmdExecuteErase
  · rw [if_pos execute, if_pos execute]
    cases mode : d.flashMode with
    | chipErase =>
      obtain ⟨after, run, erased⟩ := flashEraseChip_chip allowed d
      refine ⟨after, run, ?_⟩
      have armed : d.chip.phase = .chipArmed := by
        change d.phase = _
        rw [phase, mode]
      rw [FlashChip.step, FlashChip.executeErase, armed]
      exact erased
    | sectorErase =>
      obtain ⟨after, run, erased⟩ := flashEraseSector_chip allowed d d.pending_le
      refine ⟨after, run, ?_⟩
      have armed : d.chip.phase = .sectorArmed d.flashPendingErasePage.toNat := by
        change d.phase = _
        rw [phase, mode]
      rw [FlashChip.step, FlashChip.executeErase, armed]
      exact erased
    | _ =>
      refine ⟨d, rfl, ?_⟩
      rw [FlashChip.step, FlashChip.executeErase]
      change d.chip = match d.phase with
        | .sectorArmed page => d.chip.eraseSector page
        | .chipArmed => d.chip.eraseChip
        | _ => d.chip
      rw [phase, mode]
  rw [if_neg execute, if_neg execute]
  by_cases program : data &&& 0xFF000000 = flashCmdProgramPage
  · rw [if_pos program, if_pos program]
    exact flashProgramPage_chip allowed d (page_le data)
  rw [if_neg program, if_neg program]
  by_cases page_program : data &&& 0xFF000000 = flashCmdPageProgram
  · rw [if_pos page_program, if_pos page_program]
    exact ⟨_, rfl, rfl⟩
  rw [if_neg page_program, if_neg page_program]
  by_cases status : data &&& 0xFF000000 = flashCmdStatus
  · rw [if_pos status, if_pos status]
    exact ⟨_, rfl, rfl⟩
  rw [if_neg status, if_neg status]
  by_cases id : data &&& 0xFF000000 = flashCmdId
  · rw [if_pos id, if_pos id]
    exact ⟨_, rfl, rfl⟩
  rw [if_neg id, if_neg id]
  by_cases read : data &&& 0xFF000000 = flashCmdReadArray
  · rw [if_pos read, if_pos read]
    exact ⟨_, rfl, rfl⟩
  rw [if_neg read, if_neg read]
  exact ⟨d, rfl, rfl⟩

/-! ## Transfers -/

theorem region_below_rom {physicalAddr size : UInt32}
    (region : flashRegionContains type physicalAddr size = true) : ¬ physicalAddr ≥ romBase := by
  unfold flashRegionContains at region
  split_ifs at region with allowed low
  simp only [Bool.and_eq_true, decide_eq_true_eq] at region
  have offset_le := UInt32.le_iff_toNat_le.mp region.1
  rw [UInt32.toNat_sub_of_le _ _ (UInt32.not_lt.mp low)] at offset_le
  have base : sramBase.toNat = 2 ^ 27 := by decide
  have rom : romBase.toNat = 2 ^ 28 := by decide
  have whole : flashSize.toNat = 0x20000 := rfl
  rw [ge_iff_le, UInt32.le_iff_toNat_le]
  omega

theorem saveRead_range (guest : SaveGuest Rdram) (d : SaveDevice Rdram type) (dramAddr : UInt64)
    {offset count : UInt32} (fits : offset.toNat + count.toNat ≤ getSaveSize type) :
    d.saveRead guest dramAddr offset count =
      .ok { d with
        rdram := setMemBytes guest d.rdram 0 dramAddr (d.chip.range offset.toNat count.toNat)
        touched := loopIndices offset count ++ d.touched } := by
  obtain ⟨values, read, run⟩ := saveRead_inside (d := d) guest dramAddr (Or.inr fits)
  have shown := congrArg (List.map fun value => Option.getD value 0xFF) (readAll_getElem? _ read)
  rw [List.map_map, List.map_map] at shown
  have same : values = d.chip.range offset.toNat count.toNat := by
    have left : values.map ((fun value => Option.getD value 0xFF) ∘ some) = values := List.map_id values
    rw [left] at shown
    rw [shown, loopIndices, List.map_map, FlashChip.range]
    refine List.map_congr_left fun pos mem => ?_
    have below := List.mem_range.mp mem
    have size_lt := getSaveSize_lt type
    have index : (offset + UInt32.ofNat pos).toNat = offset.toNat + pos := by
      rw [UInt32.toNat_add, UInt32.toNat_ofNat_of_lt' (Nat.lt_trans below count.toNat_lt)]
      omega
    change (d.saveBuffer[(offset + UInt32.ofNat pos).toNat]?).getD 0xFF = _
    rw [index]
    rfl
  rw [run, same]

theorem sendMesg_chip (guest : SaveGuest Rdram) (d : SaveDevice Rdram type) (mq : UInt64) :
    (d.sendMesg guest mq).chip = d.chip := rfl

theorem stagePage_byte (guest : SaveGuest Rdram) (d : SaveDevice Rdram type) (dramAddr : UInt64)
    (size : UInt32) (i : Nat) :
    ((d.stagePage guest dramAddr size).flashWriteBuffer[i]?).getD 0xFF =
      (((d.memBytes guest dramAddr size).take 128)[i]?).getD 0xFF := by
  have copied : (min size pageSize).toNat = min size.toNat 128 := by
    rw [UInt32.toNat_min]
    rfl
  rw [stagePage]
  by_cases in_page : i < 128
  · rw [Vector.getElem?_eq_getElem in_page, Vector.getElem_ofFn, List.getElem?_take_of_lt in_page,
      memBytes, List.getElem?_map]
    dsimp only
    by_cases sent : i < size.toNat
    · rw [if_pos (by rw [copied]; omega), List.getElem?_range sent]
      rfl
    · rw [if_neg (by rw [copied]; omega), List.getElem?_eq_none (by rw [List.length_range]; omega)]
      rfl
  · rw [Vector.getElem?_eq_none (by omega), List.getElem?_eq_none]
    rw [List.length_take]
    omega

theorem stagePage_chip (guest : SaveGuest Rdram) {d : SaveDevice Rdram type}
    (mode : d.flashMode = .pageProgram) (dramAddr : UInt64) (size : UInt32) :
    (d.stagePage guest dramAddr size).chip = d.chip.stage (d.memBytes guest dramAddr size) := by
  have staging : d.chip.phase = .staging := by
    change d.phase = _
    rw [phase, mode]
  have bytes := stagePage_byte guest d dramAddr size
  have kept : (d.stagePage guest dramAddr size).saveBuffer = d.saveBuffer ∧
      (d.stagePage guest dramAddr size).phase = d.phase := by
    unfold stagePage phase
    exact ⟨rfl, rfl⟩
  generalize d.stagePage guest dramAddr size = after at bytes kept
  rw [FlashChip.stage, staging]
  apply FlashChip.ext
  · funext i
    change (after.saveBuffer[i]?).getD 0xFF = (d.saveBuffer[i]?).getD 0xFF
    rw [kept.1]
  · funext i
    exact bytes i
  · exact kept.2.trans staging

/-- A transfer in the region of the chip. -/
theorem doDma_chip (guest : SaveGuest Rdram) (d : SaveDevice Rdram type) (mq dramAddr : UInt64)
    {physicalAddr size : UInt32} (region : flashRegionContains type physicalAddr size = true)
    (direction : UInt32) :
    ∃ after, d.doDma guest mq dramAddr physicalAddr size direction = .ok after ∧
      after.chip = d.chip.step
        (if direction = 0 then .nothing else .transfer (d.memBytes guest dramAddr size)) ∧
      (direction = 0 → d.chip.phase ≠ .id → after.rdram = guest.osSendMesg (setMemBytes guest d.rdram 0
        dramAddr (d.chip.range (physicalAddr - sramBase).toNat size.toNat)) mq) := by
  have not_rom := region_below_rom region
  have fits := flashRegionContains_fits region
  by_cases reads : direction = 0
  · rw [doDma, if_pos reads, if_neg not_rom, if_pos region, if_pos reads]
    by_cases id : d.flashMode = .id
    · rw [if_pos id]
      refine ⟨_, rfl, rfl, fun _ shows => absurd ?_ shows⟩
      change d.phase = _
      rw [phase, id]
    · rw [if_neg id, saveRead_range guest d dramAddr fits]
      exact ⟨_, rfl, rfl, fun _ _ => rfl⟩
  · rw [doDma, if_neg reads, if_neg not_rom, if_pos region, if_neg reads]
    by_cases mode : d.flashMode = .pageProgram
    · rw [if_pos mode]
      refine ⟨_, rfl, ?_, fun absurd => (reads absurd).elim⟩
      rw [sendMesg_chip, stagePage_chip guest mode]
      rfl
    · rw [if_neg mode]
      refine ⟨_, rfl, ?_, fun absurd => (reads absurd).elim⟩
      rw [FlashChip.step, FlashChip.stage]
      change d.chip = match d.phase with
        | .staging => _
        | _ => d.chip
      rw [phase]
      cases same : d.flashMode with
      | pageProgram => exact absurd same mode
      | _ => rfl

/-! ## Requests and runs -/

/-- A request on the bus returns, and the chip takes its step. -/
theorem perform_chip (guest : SaveGuest Rdram) (allowed : flashramAllowed type = true)
    (d : SaveDevice Rdram type) {request : SaveRequest} (onBus : request.OnBus type) :
    ∃ after, d.perform guest request = .ok after ∧ after.chip = d.chip.step (d.event guest request) ∧
      Fetches guest d after request := by
  cases request with
  | osEPiWriteIo baseAddress r5 r6 =>
    rw [perform, osEPiWriteIo, event, allowed]
    by_cases register : k1ToPhys (baseAddress ||| r5.toUInt32) = sramBase + flashCmdReg
    · obtain ⟨after, run, step⟩ := flashCommand_chip allowed d r6.toUInt32
      rw [if_pos (by rw [decide_eq_true register]; rfl), if_pos register, run]
      exact ⟨after.returns 0, rfl, step, trivial⟩
    · rw [if_neg (by rw [decide_eq_false register]; decide), if_neg register]
      by_cases reset : k1ToPhys (baseAddress ||| r5.toUInt32) = sramBase ∧ r6.toUInt32 = 0
      · rw [if_pos (by rw [decide_eq_true reset.1, decide_eq_true reset.2]; rfl), if_pos reset]
        exact ⟨_, rfl, rfl, trivial⟩
      · rw [if_neg (by simpa using fun here => fun zero => reset ⟨here, zero⟩), if_neg reset]
        exact ⟨d.returns 0, rfl, rfl, trivial⟩
  | osEPiReadIo baseAddress r5 r6 =>
    refine ⟨d.osEPiReadIo guest baseAddress r5 r6, rfl, ?_, trivial⟩
    rw [osEPiReadIo]
    split_ifs
    · rfl
    · dsimp only
      split <;> rfl
    · rfl
    · rfl
  | osPiStartDma r6 r7 dramAddr size mq => exact absurd (k1ToPhys_rom r7.toUInt32) (region_below_rom onBus)
  | osEPiStartDma r6 baseAddress devAddr dramAddr size mq =>
    obtain ⟨after, run, step, fetched⟩ := doDma_chip guest d mq dramAddr onBus r6.toUInt32
    refine ⟨after.returns 0, ?_, step, fetched⟩
    rw [perform, osEPiStartDma, run]
    rfl
  | _ => exact onBus.elim

end SaveDevice

/-- FlashRAM is one chip: over any run of single words and transfers, with any
data, the contents change as the chip's do, and a transfer from it brings its
contents. -/
theorem flash_runs_as_chip (guest : SaveGuest Rdram) (allowed : flashramAllowed type = true)
    (d : SaveDevice Rdram type) (requests : List SaveRequest)
    (onBus : ∀ request ∈ requests, request.OnBus type) : RunsAsChip guest d requests := by
  induction requests generalizing d with
  | nil => trivial
  | cons request rest ih =>
    obtain ⟨here, later⟩ := List.forall_mem_cons.mp onBus
    obtain ⟨after, run, step, fetched⟩ := perform_chip guest allowed d here
    exact ⟨after, run, step, fetched, ih after later⟩

theorem flash_runs_as_chip_page :
    RunsAsChip stillGuest (started .flashram 0)
      [FlashOp.writeCommand flashCmdPageProgram, .osEPiStartDma 1 flashBaseAddress 0 0 4 0,
        FlashOp.writeCommand (flashCmdProgramPage ||| 3), FlashOp.writeCommand flashCmdReadArray,
        .osEPiStartDma 0 flashBaseAddress 0x180 0 128 0] := by
  refine flash_runs_as_chip stillGuest (by decide) (started .flashram 0) _ fun request mem => ?_
  simp only [List.mem_cons, List.not_mem_nil, or_false] at mem
  rcases mem with rfl | rfl | rfl | rfl | rfl
  · trivial
  · change flashRegionContains .flashram _ _ = true
    decide
  · trivial
  · trivial
  · change flashRegionContains .flashram _ _ = true
    decide

end N64ModernRuntime.Librecomp
