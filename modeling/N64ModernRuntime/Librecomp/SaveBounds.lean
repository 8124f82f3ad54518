import N64ModernRuntime.Librecomp.SaveDevice

/-!
# The bounds of the save buffer

A request names bytes of the save in its own unit.  It is contained when the
save functions stay inside the buffer, and touch nothing if those bytes do not.
-/

set_option autoImplicit false

namespace N64ModernRuntime.Librecomp

open CheckedBuffer

variable {Rdram : Type} {type : SaveType}

namespace SaveDevice

def dmaSpan (physicalAddr size : UInt32) : Nat × Nat :=
  if sramBase ≤ physicalAddr ∧ physicalAddr < romBase then
    (physicalAddr.toNat - sramBase.toNat, size.toNat)
  else (0, 0)

def commandSpan (d : SaveDevice Rdram type) (data : UInt32) : Nat × Nat :=
  if data &&& 0xFF000000 = flashCmdProgramPage then (128 * (data &&& 0xFFFF).toNat, 128)
  else if data &&& 0xFF000000 = flashCmdExecuteErase then
    match d.flashMode with
    | .chipErase => (0, flashSize.toNat)
    | .sectorErase => (16384 * (d.flashPendingErasePage.toNat / 128), 16384)
    | _ => (0, 0)
  else (0, 0)

def span (d : SaveDevice Rdram type) : SaveRequest → Nat × Nat
  | .osEepromWrite r5 _ => (8 * r5.toUInt8.toNat, 8)
  | .osEepromRead r5 _ => (8 * r5.toUInt8.toNat, 8)
  | .osEepromLongWrite r5 _ r7 => (8 * r5.toUInt8.toNat, r7.toUInt32.toNat)
  | .osEepromLongRead r5 _ r7 => (8 * r5.toUInt8.toNat, r7.toUInt32.toNat)
  | .osFlashAllErase => (0, saveSize.toNat)
  | .osFlashAllEraseThrough => (0, saveSize.toNat)
  | .osFlashSectorErase r4 => (128 * r4.toUInt32.toNat, 128)
  | .osFlashSectorEraseThrough r4 => (128 * r4.toUInt32.toNat, 128)
  | .osFlashWriteArray r4 => (128 * r4.toUInt32.toNat, 128)
  | .osFlashReadArray r6 _ nPages _ => (128 * r6.toUInt32.toNat, 128 * nPages.toNat)
  | .osEPiStartDma _ baseAddress devAddr _ size _ =>
      dmaSpan (k1ToPhys (baseAddress ||| devAddr)) size
  | .osEPiWriteIo baseAddress r5 r6 =>
      if k1ToPhys (baseAddress ||| r5.toUInt32) = sramBase + flashCmdReg then
        d.commandSpan r6.toUInt32
      else (0, 0)
  | _ => (0, 0)

def Fits (type : SaveType) (span : Nat × Nat) : Prop :=
  span.2 = 0 ∨ span.1 + span.2 ≤ getSaveSize type

structure Untouched (d after : SaveDevice Rdram type) : Prop where
  touched : after.touched = d.touched
  saveBuffer : after.saveBuffer = d.saveBuffer

structure Served (d : SaveDevice Rdram type) (fits : Prop) (after : SaveDevice Rdram type) :
    Prop where
  below : ∀ i ∈ after.touched, i ∈ d.touched ∨ i < getSaveSize type
  rejects : fits ∨ Untouched d after

def Contained (d : SaveDevice Rdram type) (fits : Prop) (result : SaveResult Rdram type) : Prop :=
  ∃ after, result = .ok after ∧ Served d fits after

end SaveDevice

open SaveDevice

namespace SaveRequest

def ends (type : SaveType) : SaveRequest → Bool
  | .osEepromProbe => false
  | .osEepromWrite _ _ => !eepromAllowed type
  | .osEepromLongWrite _ _ _ => !eepromAllowed type
  | .osEepromRead _ _ => !eepromAllowed type
  | .osEepromLongRead _ _ _ => !eepromAllowed type
  | .osPiStartDma r6 _ _ _ _ => decide (r6.toUInt32 ≠ 0)
  | .osEPiStartDma r6 baseAddress devAddr _ _ _ =>
      decide (r6.toUInt32 ≠ 0 ∧ romBase ≤ k1ToPhys (baseAddress ||| devAddr))
  | .osPiRawStartDma => true
  | .osEPiRawStartDma => true
  | .osEPiReadIo _ _ _ => false
  | .osEPiWriteIo _ _ _ => false
  | _ => !flashramAllowed type

def performed (type : SaveType) (requests : List SaveRequest) : List SaveRequest :=
  requests.takeWhile fun request => !request.ends type

/-- The requests that no check of the code turns away name bytes of the buffer,
or none at all: an array read of a multiple of `2 ^ 25` pages is one of none. -/
def InRange (type : SaveType) : SaveRequest → Prop
  | .osEepromWrite r5 _ => 8 * r5.toUInt8.toNat + 8 ≤ getSaveSize type
  | .osEepromRead r5 _ => 8 * r5.toUInt8.toNat + 8 ≤ getSaveSize type
  | .osEepromLongWrite r5 _ r7 => Fits type (8 * r5.toUInt8.toNat, r7.toUInt32.toNat)
  | .osEepromLongRead r5 _ r7 => Fits type (8 * r5.toUInt8.toNat, r7.toUInt32.toNat)
  | .osFlashWriteArray r4 => r4.toUInt32 < pageCount
  | .osFlashReadArray r6 _ nPages _ =>
      nPages * pageSize = 0 ∨ r6.toUInt32.toNat + nPages.toNat ≤ pageCount.toNat
  | .osEPiStartDma _ baseAddress devAddr _ size _ =>
      sramAllowed type → Fits type (dmaSpan (k1ToPhys (baseAddress ||| devAddr)) size)
  | _ => True

end SaveRequest

/-- A request that ends the program does so before it comes to the buffer; every
other one returns, and so does the next. -/
def SaveDevice.AllContained (guest : SaveGuest Rdram) (d : SaveDevice Rdram type) :
    List SaveRequest → Prop
  | [] => True
  | request :: rest =>
      if request.ends type then
        ∃ stop, d.perform guest request = .error stop ∧ ∀ index, stop ≠ .outside index
      else
        ∃ after, d.perform guest request = .ok after ∧
          Served d (Fits type (d.span request)) after ∧ AllContained guest after rest

/-! ## One call of a save function -/

namespace SaveDevice

variable {guest : SaveGuest Rdram} {d : SaveDevice Rdram type} {offset count : UInt32}
  {result : SaveResult Rdram type}

/-- The result of a call on `count` bytes from `offset` on. -/
structure Touches (d : SaveDevice Rdram type) (offset count : UInt32)
    (result : SaveResult Rdram type) : Prop where
  empty : count.toNat = 0 → ∃ after, result = .ok after ∧ Untouched d after
  inside : count.toNat ≠ 0 → offset.toNat + count.toNat ≤ getSaveSize type →
    ∃ after new, result = .ok after ∧ after.touched = new ++ d.touched ∧ new ≠ [] ∧
      ∀ i ∈ new, i < getSaveSize type
  outside : count.toNat ≠ 0 → getSaveSize type < offset.toNat + count.toNat →
    ∃ index, result = .error (.outside index)

theorem getSaveSize_lt (type : SaveType) : getSaveSize type < 2 ^ 32 := by
  cases type <;> decide

theorem pointerIndices_ne_nil (some_byte : count.toNat ≠ 0) : pointerIndices offset count ≠ [] := by
  intro none_at
  exact some_byte (List.range_eq_nil.mp (List.map_eq_nil_iff.mp none_at))

theorem loopIndices_ne_nil (some_byte : count.toNat ≠ 0) : loopIndices offset count ≠ [] := by
  intro none_at
  exact some_byte (List.range_eq_nil.mp (List.map_eq_nil_iff.mp none_at))

theorem store_inside {indices : List Nat} (values : List UInt8)
    (inside : ∀ i ∈ indices, i < getSaveSize type) :
    ∃ buffer, writeAll d.saveBuffer (indices.zip values) = .ok buffer ∧
      d.store indices values =
        .ok { d with saveBuffer := buffer, touched := indices ++ d.touched } := by
  have all_inside : ∀ w ∈ indices.zip values, w.1 < getSaveSize type := fun w mem =>
    inside w.1 (List.of_mem_zip mem).1
  obtain ⟨buffer, run⟩ := writeAll_inside _ d.saveBuffer all_inside
  exact ⟨buffer, run, by rw [store, run]⟩

theorem store_outside {indices : List Nat} {values : List UInt8}
    (same_length : indices.length = values.length) (outside : ∃ i ∈ indices, getSaveSize type ≤ i) :
    ∃ index, d.store indices values = .error (.outside index) := by
  obtain ⟨i, mem, past⟩ := outside
  have paired : i ∈ (indices.zip values).map Prod.fst := by
    rw [List.map_fst_zip (Nat.le_of_eq same_length)]
    exact mem
  obtain ⟨w, at_i, rfl⟩ := List.mem_map.mp paired
  obtain ⟨index, _, run⟩ := writeAll_outside _ d.saveBuffer ⟨w, at_i, past⟩
  exact ⟨index, by rw [store, run]⟩

theorem store_nil (values : List UInt8) :
    ∃ after, d.store [] values = .ok after ∧ Untouched d after :=
  ⟨d, rfl, rfl, rfl⟩

theorem pointer_store_touches {values : List UInt8} (long_enough : values.length = count.toNat) :
    Touches d offset count (d.store (pointerIndices offset count) values) where
  empty none_at := by
    rw [pointerIndices, none_at]
    exact store_nil values
  inside some_byte fits := by
    have below := pointerIndices_below (Or.inr fits)
    obtain ⟨_, _, run⟩ := store_inside (d := d) values below
    exact ⟨_, _, run, rfl, pointerIndices_ne_nil some_byte, below⟩
  outside some_byte leaves := by
    have same_length : (pointerIndices offset count).length = values.length := by
      rw [pointerIndices, List.length_map, List.length_range, long_enough]
    exact store_outside same_length (pointerIndices_past some_byte leaves)

theorem saveWritePtr_touches (bytes : Vector UInt8 128) :
    Touches d offset pageSize (d.saveWritePtr bytes offset) :=
  pointer_store_touches (by rw [Vector.length_toList]; rfl)

theorem saveClear_touches (value : UInt8) : Touches d offset count (d.saveClear offset count value) :=
  pointer_store_touches List.length_replicate

theorem saveWrite_touches (rdramAddress : UInt64) :
    Touches d offset count (d.saveWrite guest rdramAddress offset count) where
  empty none_at := by
    rw [saveWrite, loopIndices, none_at]
    exact store_nil _
  inside some_byte fits := by
    have below := loopIndices_below (Or.inr fits) (Nat.le_of_lt (getSaveSize_lt type))
    obtain ⟨_, _, run⟩ := store_inside (d := d) (d.memBytes guest rdramAddress count) below
    exact ⟨_, _, run, rfl, loopIndices_ne_nil some_byte, below⟩
  outside some_byte leaves := by
    have same_length : (loopIndices offset count).length =
        (d.memBytes guest rdramAddress count).length := by
      rw [loopIndices, memBytes, List.length_map, List.length_map]
    exact store_outside same_length (loopIndices_past some_byte leaves (getSaveSize_lt type))

theorem saveRead_inside (guest : SaveGuest Rdram) (rdramAddress : UInt64)
    (fits : count.toNat = 0 ∨ offset.toNat + count.toNat ≤ getSaveSize type) :
    ∃ values, readAll d.saveBuffer (loopIndices offset count) = .ok values ∧
      d.saveRead guest rdramAddress offset count =
        .ok { d with
          rdram := setMemBytes guest d.rdram 0 rdramAddress values
          touched := loopIndices offset count ++ d.touched } := by
  have below := loopIndices_below fits (Nat.le_of_lt (getSaveSize_lt type))
  obtain ⟨values, run⟩ := readAll_inside _ d.saveBuffer below
  exact ⟨values, run, by rw [saveRead, run]⟩

theorem saveRead_touches (rdramAddress : UInt64) :
    Touches d offset count (d.saveRead guest rdramAddress offset count) where
  empty none_at := by
    rw [saveRead, loopIndices, none_at]
    exact ⟨_, rfl, rfl, rfl⟩
  inside some_byte fits := by
    have below := loopIndices_below (Or.inr fits) (Nat.le_of_lt (getSaveSize_lt type))
    obtain ⟨_, _, run⟩ := saveRead_inside guest rdramAddress (Or.inr fits)
    exact ⟨_, _, run, rfl, loopIndices_ne_nil some_byte, below⟩
  outside some_byte leaves := by
    have past : ∃ i ∈ loopIndices offset count, getSaveSize type ≤ i :=
      loopIndices_past some_byte leaves (getSaveSize_lt type)
    obtain ⟨index, _, run⟩ := readAll_outside _ d.saveBuffer past
    exact ⟨index, by rw [saveRead, run]⟩

theorem untouched_contained {after : SaveDevice Rdram type} (fits : Prop) (untouched : Untouched d after) :
    Contained d fits (.ok after) :=
  ⟨after, rfl, fun _ mem => Or.inl (untouched.touched ▸ mem), Or.inr untouched⟩

theorem Untouched.trans {middle after : SaveDevice Rdram type} (first : Untouched d middle)
    (second : Untouched middle after) : Untouched d after :=
  ⟨second.touched.trans first.touched, second.saveBuffer.trans first.saveBuffer⟩

/-- A call of a save function that touches bytes must lie in the buffer, and the
request it is made for with it. -/
theorem Touches.contained_iff (touches : Touches d offset count result) (fits : Prop)
    {finish : SaveDevice Rdram type → SaveDevice Rdram type}
    (keeps : ∀ after, Untouched after (finish after)) :
    Contained d fits (result.map finish) ↔
      count.toNat = 0 ∨ offset.toNat + count.toNat ≤ getSaveSize type ∧ fits := by
  by_cases none_at : count.toNat = 0
  · obtain ⟨after, run, untouched⟩ := touches.empty none_at
    subst run
    exact iff_of_true (untouched_contained fits (untouched.trans (keeps after))) (Or.inl none_at)
  · by_cases inside : offset.toNat + count.toNat ≤ getSaveSize type
    · obtain ⟨after, new, run, touched, new_ne, below⟩ := touches.inside none_at inside
      subst run
      have final : (finish after).touched = new ++ d.touched := (keeps after).touched.trans touched
      constructor
      · rintro ⟨_, same, served⟩
        cases same
        rcases served.rejects with named | untouched
        · exact Or.inr ⟨inside, named⟩
        · have none_new : new = [] := List.append_left_eq_self.mp (final.symm.trans untouched.touched)
          exact absurd none_new new_ne
      · rintro (none_here | ⟨_, named⟩)
        · exact absurd none_here none_at
        · refine ⟨_, rfl, fun _ mem => ?_, Or.inl named⟩
          rcases List.mem_append.mp (final ▸ mem) with fresh | old
          · exact Or.inr (below _ fresh)
          · exact Or.inl old
    · obtain ⟨index, run⟩ := touches.outside none_at (Nat.lt_of_not_le inside)
      subst run
      refine iff_of_false ?_ fun or => or.elim none_at fun both => inside both.1
      rintro ⟨_, error, _⟩
      cases error

theorem returns_untouched (value : UInt64) : Untouched d (d.returns value) := ⟨rfl, rfl⟩

theorem sendMesg_untouched (mq : UInt64) : Untouched d (d.sendMesg guest mq) := ⟨rfl, rfl⟩

theorem bind_return (result : SaveResult Rdram type) (finish : SaveDevice Rdram type → SaveDevice Rdram type) :
    (result >>= fun after => pure (finish after)) = result.map finish := by
  cases result <;> rfl

/-! ## The calls of eep.cpp -/

theorem eepromByteOffset_toNat (blockIndex : UInt8) :
    (eepromByteOffset blockIndex).toNat = 8 * blockIndex.toNat := by
  have small := blockIndex.toNat_lt
  rw [eepromByteOffset, UInt32.toNat_mul, UInt8.toNat_toUInt32]
  change blockIndex.toNat * 8 % 2 ^ 32 = _
  omega

theorem eeprom_contained_iff {blockIndex : UInt8} {count : UInt32}
    (touches : Touches d (eepromByteOffset blockIndex) count result) :
    Contained d (Fits type (8 * blockIndex.toNat, count.toNat)) (result.map (returns · 0)) ↔
      Fits type (8 * blockIndex.toNat, count.toNat) := by
  rw [touches.contained_iff _ fun _ => returns_untouched 0, eepromByteOffset_toNat]
  unfold Fits
  exact ⟨fun either => either.imp id And.left, fun fits => fits.imp id fun inside => ⟨inside, Or.inr inside⟩⟩

theorem osEepromWrite_eq (allowed : eepromAllowed type = true) (r5 r6 : UInt64) :
    d.osEepromWrite guest r5 r6 =
      (d.saveWrite guest r6 (eepromByteOffset r5.toUInt8) eepromBlockSize).map (returns · 0) := by
  rw [osEepromWrite, allowed]
  rfl

theorem osEepromLongWrite_eq (allowed : eepromAllowed type = true) (r5 r6 r7 : UInt64) :
    d.osEepromLongWrite guest r5 r6 r7 =
      (d.saveWrite guest r6 (eepromByteOffset r5.toUInt8) r7.toUInt32).map (returns · 0) := by
  rw [osEepromLongWrite, allowed]
  rfl

theorem osEepromRead_eq (allowed : eepromAllowed type = true) (r5 r6 : UInt64) :
    d.osEepromRead guest r5 r6 =
      (d.saveRead guest r6 (eepromByteOffset r5.toUInt8) eepromBlockSize).map (returns · 0) := by
  rw [osEepromRead, allowed]
  rfl

theorem osEepromLongRead_eq (allowed : eepromAllowed type = true) (r5 r6 r7 : UInt64) :
    d.osEepromLongRead guest r5 r6 r7 =
      (d.saveRead guest r6 (eepromByteOffset r5.toUInt8) r7.toUInt32).map (returns · 0) := by
  rw [osEepromLongRead, allowed]
  rfl

/-! ## The calls of flash.cpp -/

theorem flash_saveSize (allowed : flashramAllowed type = true) : getSaveSize type = 0x20000 := by
  cases type <;> first | rfl | cases allowed

theorem page_offset (page : UInt32) : (page * pageSize).toNat = page.toNat * 128 % 2 ^ 32 := by
  rw [UInt32.toNat_mul]
  rfl

theorem osFlashSectorErase_contained (allowed : flashramAllowed type = true) (r4 : UInt64) :
    Contained d (Fits type (128 * r4.toUInt32.toNat, 128)) (d.osFlashSectorErase r4) := by
  have size := flash_saveSize allowed
  rw [osFlashSectorErase, allowed]
  by_cases past : r4.toUInt32 ≥ pageCount
  · have rejected : d.flashErasePage r4 = .ok (d.returns (-1)) := if_pos past
    change Contained d _ (d.flashErasePage r4)
    rw [rejected]
    exact untouched_contained _ (returns_untouched _)
  · have erased : d.flashErasePage r4 =
        (d.saveClear (r4.toUInt32 * pageSize) pageSize 0xFF).map (returns · 0) := if_neg past
    have page_small : r4.toUInt32.toNat < 1024 := UInt32.not_le.mp past
    change Contained d _ (d.flashErasePage r4)
    rw [erased, (saveClear_touches 0xFF).contained_iff _ fun _ => returns_untouched 0, page_offset, size]
    unfold Fits
    rw [size]
    change 128 = 0 ∨ r4.toUInt32.toNat * 128 % 2 ^ 32 + 128 ≤ 0x20000 ∧ _
    simp only
    omega

theorem osFlashAllErase_eq (allowed : flashramAllowed type = true) :
    d.osFlashAllErase = (d.saveClear 0 saveSize 0xFF).map (returns · 0) := by
  rw [osFlashAllErase, allowed]
  cases d.saveClear 0 saveSize 0xFF <;> rfl

theorem osFlashAllErase_contained (allowed : flashramAllowed type = true) :
    Contained d (Fits type (0, saveSize.toNat)) d.osFlashAllErase := by
  have size := flash_saveSize allowed
  have whole : saveSize.toNat = 0x20000 := rfl
  rw [osFlashAllErase_eq allowed, (saveClear_touches 0xFF).contained_iff _ fun _ => returns_untouched 0]
  unfold Fits
  rw [size, whole, UInt32.toNat_zero]
  simp only
  omega

theorem osFlashWriteArray_contained_iff (allowed : flashramAllowed type = true) (r4 : UInt64) :
    Contained d (Fits type (128 * r4.toUInt32.toNat, 128)) (d.osFlashWriteArray r4) ↔
      r4.toUInt32 < pageCount := by
  have size := flash_saveSize allowed
  rw [osFlashWriteArray, allowed]
  change Contained d _ ((d.saveWritePtr d.writeBuffer (r4.toUInt32 * pageSize)).map (returns · 0)) ↔
    r4.toUInt32.toNat < 1024
  rw [(saveWritePtr_touches d.writeBuffer).contained_iff _ fun _ => returns_untouched 0, page_offset]
  unfold Fits
  rw [size]
  change 128 = 0 ∨ r4.toUInt32.toNat * 128 % 2 ^ 32 + 128 ≤ 0x20000 ∧ _ ↔ _
  simp only
  omega

theorem osFlashReadArray_contained_iff (allowed : flashramAllowed type = true) (r6 r7 : UInt64)
    (nPages : UInt32) (mq : UInt64) :
    Contained d (Fits type (128 * r6.toUInt32.toNat, 128 * nPages.toNat))
        (d.osFlashReadArray guest r6 r7 nPages mq) ↔
      nPages * pageSize = 0 ∨ r6.toUInt32.toNat + nPages.toNat ≤ pageCount.toNat := by
  have size := flash_saveSize allowed
  have wraps : nPages * pageSize = 0 ↔ nPages.toNat * 128 % 2 ^ 32 = 0 := by
    rw [← UInt32.toNat_inj, page_offset]
    rfl
  have page_bound := r6.toUInt32.toNat_lt
  have count_bound := nPages.toNat_lt
  rw [osFlashReadArray, allowed]
  change Contained d _ ((d.saveRead guest r7 (r6.toUInt32 * pageSize) (nPages * pageSize)).map fun after =>
    (after.sendMesg guest mq).returns 0) ↔ _ ∨ _ ≤ 1024
  have keeps (after : SaveDevice Rdram type) : Untouched after ((after.sendMesg guest mq).returns 0) :=
    ⟨rfl, rfl⟩
  rw [(saveRead_touches r7).contained_iff _ keeps, page_offset, page_offset, wraps]
  unfold Fits
  rw [size]
  simp only
  omega

/-! ## The calls of pi.cpp -/

theorem fits_nothing : Fits type (0, 0) := Or.inl rfl

theorem dmaSpan_window {physicalAddr : UInt32} (size : UInt32) (low : sramBase ≤ physicalAddr)
    (high : physicalAddr < romBase) :
    dmaSpan physicalAddr size = ((physicalAddr - sramBase).toNat, size.toNat) := by
  rw [dmaSpan, if_pos ⟨low, high⟩, UInt32.toNat_sub_of_le _ _ low]

theorem dmaSpan_rom {physicalAddr : UInt32} (size : UInt32) (rom : romBase ≤ physicalAddr) :
    dmaSpan physicalAddr size = (0, 0) :=
  if_neg fun window => UInt32.not_lt.mpr rom window.2

theorem dmaSpan_below {physicalAddr : UInt32} (size : UInt32) (below : ¬sramBase ≤ physicalAddr) :
    dmaSpan physicalAddr size = (0, 0) :=
  if_neg fun window => below window.1

theorem flashRegionContains_fits {physicalAddr : UInt32}
    (region : flashRegionContains type physicalAddr count = true) :
    (physicalAddr - sramBase).toNat + count.toNat ≤ getSaveSize type := by
  unfold flashRegionContains at region
  cases allowed : flashramAllowed type with
  | false =>
      rw [allowed] at region
      cases region
  | true =>
      rw [allowed, if_neg (by decide)] at region
      by_cases low : physicalAddr < sramBase
      · rw [if_pos low] at region
        cases region
      · rw [if_neg low] at region
        simp only [Bool.and_eq_true, decide_eq_true_eq] at region
        obtain ⟨offset_le, count_le⟩ := region
        have count_le' := UInt32.le_iff_toNat_le.mp count_le
        rw [UInt32.toNat_sub_of_le _ _ offset_le] at count_le'
        have offset_le' := UInt32.le_iff_toNat_le.mp offset_le
        rw [flash_saveSize allowed]
        change _ ≤ flashSize.toNat
        omega

theorem contained_returns (fits : Prop) (value : UInt64) :
    Contained d fits (result.map (returns · value)) ↔ Contained d fits result := by
  rcases result with stop | after
  · refine iff_of_false ?_ ?_
    · rintro ⟨_, error, _⟩
      cases error
    · rintro ⟨_, error, _⟩
      cases error
  · constructor
    · rintro ⟨_, same, served⟩
      cases same
      exact ⟨after, rfl, served.below, served.rejects.imp id fun same => ⟨same.touched, same.saveBuffer⟩⟩
    · rintro ⟨_, same, served⟩
      cases same
      exact ⟨after.returns value, rfl, served.below,
        served.rejects.imp id fun same => ⟨same.touched, same.saveBuffer⟩⟩

theorem save_dma_contained_iff {physicalAddr : UInt32}
    (touches : Touches d (physicalAddr - sramBase) count result) (low : sramBase ≤ physicalAddr)
    (high : physicalAddr < romBase) (mq : UInt64) :
    Contained d (Fits type (dmaSpan physicalAddr count))
        (result >>= fun after => pure (after.sendMesg guest mq)) ↔
      Fits type (dmaSpan physicalAddr count) := by
  rw [bind_return, touches.contained_iff _ fun _ => sendMesg_untouched mq,
    dmaSpan_window count low high]
  unfold Fits
  exact ⟨fun either => either.imp id And.left, fun fits => fits.imp id fun inside => ⟨inside, Or.inr inside⟩⟩

theorem flash_dma_contained {physicalAddr size : UInt32} (mq rdramAddress : UInt64)
    (direction : UInt32) (high : ¬physicalAddr ≥ romBase)
    (region : flashRegionContains type physicalAddr size = true) :
    Fits type (dmaSpan physicalAddr size) ∧
      Contained d (Fits type (dmaSpan physicalAddr size))
        (d.doDma guest mq rdramAddress physicalAddr size direction) := by
  have low : sramBase ≤ physicalAddr := by
    by_contra below
    rw [flashRegionContains, if_pos (UInt32.not_le.mp below), ite_self] at region
    cases region
  have fits : Fits type (dmaSpan physicalAddr size) := by
    rw [dmaSpan_window size low (UInt32.not_le.mp high)]
    exact Or.inr (flashRegionContains_fits region)
  refine ⟨fits, ?_⟩
  unfold doDma
  by_cases reads : direction = 0
  · rw [if_pos reads, if_neg high, if_pos region]
    by_cases id_mode : d.flashMode = .id
    · rw [if_pos id_mode]
      exact untouched_contained _ ⟨rfl, rfl⟩
    · rw [if_neg id_mode]
      exact (save_dma_contained_iff (saveRead_touches rdramAddress) low (UInt32.not_le.mp high) mq).mpr fits
  · rw [if_neg reads, if_neg high, if_pos region]
    by_cases program : d.flashMode = .pageProgram
    · rw [if_pos program]
      have staged : Untouched d (d.stagePage guest rdramAddress size) := by
        unfold stagePage
        exact ⟨rfl, rfl⟩
      exact untouched_contained _ (staged.trans (sendMesg_untouched mq))
    · rw [if_neg program]
      exact untouched_contained _ ⟨rfl, rfl⟩

theorem doDma_contained_iff (mq rdramAddress : UInt64) (physicalAddr size direction : UInt32)
    (goes_on : ¬(direction ≠ 0 ∧ romBase ≤ physicalAddr)) :
    Contained d (Fits type (dmaSpan physicalAddr size))
        (d.doDma guest mq rdramAddress physicalAddr size direction) ↔
      (sramAllowed type → Fits type (dmaSpan physicalAddr size)) := by
  by_cases rom : physicalAddr ≥ romBase
  · rw [dmaSpan_rom size rom]
    have reads : direction = 0 := by
      by_contra writes
      exact goes_on ⟨writes, rom⟩
    unfold doDma
    refine iff_of_true ?_ fun _ => fits_nothing
    rw [if_pos reads, if_pos rom]
    exact untouched_contained _ ⟨rfl, rfl⟩
  by_cases region : flashRegionContains type physicalAddr size = true
  · obtain ⟨fits, contained⟩ := flash_dma_contained mq rdramAddress direction rom region
    exact iff_of_true contained fun _ => fits
  by_cases low : physicalAddr ≥ sramBase
  · unfold doDma
    cases allowed : sramAllowed type with
    | false =>
        refine iff_of_true ?_ fun is_allowed => Bool.noConfusion is_allowed
        by_cases reads : direction = 0
        · rw [if_pos reads, if_neg rom, if_neg region, if_pos low]
          exact untouched_contained _ ⟨rfl, rfl⟩
        · rw [if_neg reads, if_neg rom, if_neg region, if_pos low]
          exact untouched_contained _ ⟨rfl, rfl⟩
    | true =>
        have high := UInt32.not_le.mp rom
        rw [forall_prop_of_true rfl]
        by_cases reads : direction = 0
        · rw [if_pos reads, if_neg rom, if_neg region, if_pos low]
          exact save_dma_contained_iff (saveRead_touches rdramAddress) low high mq
        · rw [if_neg reads, if_neg rom, if_neg region, if_pos low]
          exact save_dma_contained_iff (saveWrite_touches rdramAddress) low high mq
  · rw [dmaSpan_below size low]
    unfold doDma
    refine iff_of_true ?_ fun _ => fits_nothing
    by_cases reads : direction = 0
    · rw [if_pos reads, if_neg rom, if_neg region, if_neg low]
      by_cases drive : physicalAddr ≥ driveBase
      · rw [if_pos drive]
        exact untouched_contained _ ⟨rfl, rfl⟩
      · rw [if_neg drive]
        exact untouched_contained _ ⟨rfl, rfl⟩
    · rw [if_neg reads, if_neg rom, if_neg region, if_neg low]
      by_cases drive : physicalAddr ≥ driveBase
      · rw [if_pos drive]
        exact untouched_contained _ ⟨rfl, rfl⟩
      · rw [if_neg drive]
        exact untouched_contained _ ⟨rfl, rfl⟩

/-! ## The commands of the flash chip -/

theorem status_untouched (status : UInt8) :
    Untouched d { d with flashStatus := status, flashMode := .status } := ⟨rfl, rfl⟩

theorem flashProgramPage_contained (allowed : flashramAllowed type = true) {pageNum : UInt32}
    (page_le : pageNum ≤ 0xFFFF) :
    Contained d (Fits type (128 * pageNum.toNat, 128)) (d.flashProgramPage pageNum) := by
  have size := flash_saveSize allowed
  have small : pageNum.toNat ≤ 0xFFFF := UInt32.le_iff_toNat_le.mp page_le
  have offset : (pageNum * pageSize).toNat = 128 * pageNum.toNat := by
    rw [page_offset]
    omega
  unfold flashProgramPage
  by_cases inside : pageNum * pageSize + pageSize ≤ flashSize
  · have inside' : (128 * pageNum.toNat + 128) % 2 ^ 32 ≤ 0x20000 := by
      rw [← offset]
      exact UInt32.le_iff_toNat_le.mp inside
    have fits : 128 * pageNum.toNat + 128 ≤ getSaveSize type := by omega
    rw [if_pos inside, bind_return, (saveWritePtr_touches _).contained_iff _ fun _ => status_untouched _,
      offset]
    exact Or.inr ⟨fits, Or.inr fits⟩
  · rw [if_neg inside]
    exact untouched_contained _ (status_untouched _)

theorem sector_offset {pageNum : UInt32} (page_le : pageNum ≤ 0xFFFF) :
    (pageNum / pagesPerSector * pagesPerSector * pageSize).toNat = 16384 * (pageNum.toNat / 128) := by
  have small : pageNum.toNat ≤ 0xFFFF := UInt32.le_iff_toNat_le.mp page_le
  have sector : (pageNum / pagesPerSector * pagesPerSector).toNat = pageNum.toNat / 128 * 128 := by
    rw [UInt32.toNat_mul, UInt32.toNat_div]
    change pageNum.toNat / 128 * 128 % 2 ^ 32 = _
    omega
  rw [page_offset, sector]
  omega

theorem flashEraseSector_contained (allowed : flashramAllowed type = true) {pageNum : UInt32}
    (page_le : pageNum ≤ 0xFFFF) :
    Contained d (Fits type (16384 * (pageNum.toNat / 128), 16384)) (d.flashEraseSector pageNum) := by
  have size := flash_saveSize allowed
  have small : pageNum.toNat ≤ 0xFFFF := UInt32.le_iff_toNat_le.mp page_le
  have offset := sector_offset page_le
  have sector_size : flashSectorSize.toNat = 16384 := rfl
  have whole : flashSize.toNat = 0x20000 := rfl
  unfold flashEraseSector
  by_cases inside : pageNum / pagesPerSector * pagesPerSector * pageSize + flashSectorSize ≤ flashSize
  · have inside' := UInt32.le_iff_toNat_le.mp inside
    rw [UInt32.toNat_add, offset, sector_size, whole] at inside'
    rw [if_pos inside, bind_return, (saveClear_touches _).contained_iff _ fun _ => status_untouched _,
      offset, sector_size]
    unfold Fits
    rw [size]
    simp only
    omega
  · rw [if_neg inside]
    exact untouched_contained _ (status_untouched _)

theorem flashEraseChip_contained (allowed : flashramAllowed type = true) :
    Contained d (Fits type (0, flashSize.toNat)) d.flashEraseChip := by
  have size := flash_saveSize allowed
  have whole : flashSize.toNat = 0x20000 := rfl
  have touches : Touches d 0 flashSize (d.saveClear 0 flashSize 0xFF) := saveClear_touches 0xFF
  unfold flashEraseChip
  rw [bind_return, touches.contained_iff _ fun _ => status_untouched _]
  unfold Fits
  rw [size, whole, UInt32.toNat_zero]
  simp only
  omega

theorem flashCommand_contained (allowed : flashramAllowed type = true) (data : UInt32) :
    Contained d (Fits type (d.commandSpan data)) (d.flashCommand data) := by
  unfold flashCommand commandSpan
  generalize data &&& 0xFF000000 = command
  by_cases chip : command = flashCmdChipErase
  · rw [if_pos chip]
    exact untouched_contained _ ⟨rfl, rfl⟩
  rw [if_neg chip]
  by_cases sector : command = flashCmdSectorErase
  · rw [if_pos sector]
    exact untouched_contained _ ⟨rfl, rfl⟩
  rw [if_neg sector]
  by_cases execute : command = flashCmdExecuteErase
  · subst execute
    rw [if_pos rfl, if_neg (by decide), if_pos rfl]
    cases d.flashMode <;> dsimp only
    case chipErase => exact flashEraseChip_contained allowed
    case sectorErase => exact flashEraseSector_contained allowed d.pending_le
    all_goals exact untouched_contained _ ⟨rfl, rfl⟩
  rw [if_neg execute, if_neg execute]
  by_cases program : command = flashCmdProgramPage
  · rw [if_pos program, if_pos program]
    exact flashProgramPage_contained allowed (page_le data)
  rw [if_neg program, if_neg program]
  -- what is left only sets the mode
  by_cases page_program : command = flashCmdPageProgram
  · rw [if_pos page_program]
    exact untouched_contained _ ⟨rfl, rfl⟩
  rw [if_neg page_program]
  by_cases status : command = flashCmdStatus
  · rw [if_pos status]
    exact untouched_contained _ ⟨rfl, rfl⟩
  rw [if_neg status]
  by_cases id : command = flashCmdId
  · rw [if_pos id]
    exact untouched_contained _ ⟨rfl, rfl⟩
  rw [if_neg id]
  by_cases read : command = flashCmdReadArray
  · rw [if_pos read]
    exact untouched_contained _ ⟨rfl, rfl⟩
  rw [if_neg read]
  exact untouched_contained _ ⟨rfl, rfl⟩

theorem osEPiWriteIo_contained (baseAddress : UInt32) (r5 r6 : UInt64) :
    Contained d (Fits type (d.span (.osEPiWriteIo baseAddress r5 r6)))
      (d.osEPiWriteIo baseAddress r5 r6) := by
  unfold osEPiWriteIo
  by_cases command : (flashramAllowed type &&
      decide (k1ToPhys (baseAddress ||| r5.toUInt32) = sramBase + flashCmdReg)) = true
  · obtain ⟨allowed, at_register⟩ := Bool.and_eq_true_iff.mp command
    have named : d.span (.osEPiWriteIo baseAddress r5 r6) = d.commandSpan r6.toUInt32 :=
      if_pos (of_decide_eq_true at_register)
    rw [if_pos command, named, bind_return, contained_returns]
    exact flashCommand_contained allowed r6.toUInt32
  · rw [if_neg command]
    by_cases reset : (flashramAllowed type &&
        decide (k1ToPhys (baseAddress ||| r5.toUInt32) = sramBase) && decide (r6.toUInt32 = 0)) = true
    · rw [if_pos reset]
      exact untouched_contained _ ⟨rfl, rfl⟩
    · rw [if_neg reset]
      exact untouched_contained _ ⟨rfl, rfl⟩

theorem k1ToPhys_rom (address : UInt32) : romBase ≤ k1ToPhys (address ||| romBase) := by
  rw [UInt32.le_iff_toNat_le, k1ToPhys, UInt32.toNat_and, UInt32.toNat_or, Nat.and_or_distrib_right]
  exact Nat.right_le_or

theorem osEPiReadIo_untouched (baseAddress : UInt32) (r5 r6 : UInt64) :
    Untouched d (d.osEPiReadIo guest baseAddress r5 r6) := by
  unfold osEPiReadIo
  dsimp only
  repeat' split
  all_goals exact ⟨rfl, rfl⟩

theorem fits_block (first : Nat) : Fits type (first, 8) ↔ first + 8 ≤ getSaveSize type :=
  or_iff_right (Nat.succ_ne_zero 7)

theorem allowed_of {allowed : Bool} (goes_on : (!allowed) = false) : allowed = true := by
  cases allowed with
  | true => rfl
  | false => cases goes_on

theorem report_contained {after : SaveDevice Rdram type} (fits : Prop)
    (allowed : flashramAllowed type = true) (untouched : Untouched d after) :
    Contained d fits (do
      if !flashramAllowed type then throw .quickExit
      return after) := by
  rw [allowed]
  exact untouched_contained fits untouched

theorem perform_contained_iff (request : SaveRequest) (goes_on : request.ends type = false) :
    Contained d (Fits type (d.span request)) (d.perform guest request) ↔ request.InRange type := by
  cases request with
  | osEepromProbe =>
      have same : Untouched d d.osEepromProbe := by
        unfold osEepromProbe
        split <;> exact returns_untouched _
      exact iff_of_true (untouched_contained _ same) trivial
  | osEepromWrite r5 r6 =>
      rw [perform, osEepromWrite_eq (allowed_of goes_on)]
      have touches : Touches d (eepromByteOffset r5.toUInt8) eepromBlockSize
          (d.saveWrite guest r6 (eepromByteOffset r5.toUInt8) eepromBlockSize) := saveWrite_touches r6
      exact (eeprom_contained_iff touches).trans (fits_block _)
  | osEepromLongWrite r5 r6 r7 =>
      rw [perform, osEepromLongWrite_eq (allowed_of goes_on)]
      exact eeprom_contained_iff (saveWrite_touches r6)
  | osEepromRead r5 r6 =>
      rw [perform, osEepromRead_eq (allowed_of goes_on)]
      have touches : Touches d (eepromByteOffset r5.toUInt8) eepromBlockSize
          (d.saveRead guest r6 (eepromByteOffset r5.toUInt8) eepromBlockSize) := saveRead_touches r6
      exact (eeprom_contained_iff touches).trans (fits_block _)
  | osEepromLongRead r5 r6 r7 =>
      rw [perform, osEepromLongRead_eq (allowed_of goes_on)]
      exact eeprom_contained_iff (saveRead_touches r6)
  | osFlashAllErase =>
      exact iff_of_true (osFlashAllErase_contained (allowed_of goes_on)) trivial
  | osFlashAllEraseThrough =>
      exact iff_of_true (osFlashAllErase_contained (allowed_of goes_on)) trivial
  | osFlashSectorErase r4 =>
      exact iff_of_true (osFlashSectorErase_contained (allowed_of goes_on) r4) trivial
  | osFlashSectorEraseThrough r4 =>
      exact iff_of_true (osFlashSectorErase_contained (allowed_of goes_on) r4) trivial
  | osFlashWriteArray r4 => exact osFlashWriteArray_contained_iff (allowed_of goes_on) r4
  | osFlashReadArray r6 r7 nPages mq =>
      exact osFlashReadArray_contained_iff (allowed_of goes_on) r6 r7 nPages mq
  | osPiStartDma r6 r7 dramAddr size mq =>
      have none_named := dmaSpan_rom size (k1ToPhys_rom r7.toUInt32)
      refine iff_of_true ?_ trivial
      change Contained d (Fits type (0, 0)) _
      rw [perform, osPiStartDma, bind_return, contained_returns, ← none_named]
      have reads := of_decide_eq_false goes_on
      refine (doDma_contained_iff mq dramAddr _ size r6.toUInt32 fun writes => reads writes.1).mpr fun _ => ?_
      rw [none_named]
      exact fits_nothing
  | osEPiStartDma r6 baseAddress devAddr dramAddr size mq =>
      rw [perform, osEPiStartDma, bind_return, contained_returns]
      exact doDma_contained_iff mq dramAddr _ size r6.toUInt32 (of_decide_eq_false goes_on)
  | osPiRawStartDma => cases goes_on
  | osEPiRawStartDma => cases goes_on
  | osEPiReadIo baseAddress r5 r6 =>
      exact iff_of_true (untouched_contained _ (osEPiReadIo_untouched baseAddress r5 r6)) trivial
  | osEPiWriteIo baseAddress r5 r6 =>
      exact iff_of_true (osEPiWriteIo_contained baseAddress r5 r6) trivial
  -- the calls of flash.cpp that only report
  | osFlashInit => exact iff_of_true (report_contained _ (allowed_of goes_on) ⟨rfl, rfl⟩) trivial
  | osFlashReadStatus r4 => exact iff_of_true (report_contained _ (allowed_of goes_on) ⟨rfl, rfl⟩) trivial
  | osFlashReadId r4 r5 => exact iff_of_true (report_contained _ (allowed_of goes_on) ⟨rfl, rfl⟩) trivial
  | osFlashClearStatus => exact iff_of_true (report_contained _ (allowed_of goes_on) ⟨rfl, rfl⟩) trivial
  | osFlashCheckEraseEnd => exact iff_of_true (report_contained _ (allowed_of goes_on) ⟨rfl, rfl⟩) trivial
  | osFlashWriteBuffer r6 r7 => exact iff_of_true (report_contained _ (allowed_of goes_on) ⟨rfl, rfl⟩) trivial
  | osFlashChange => exact iff_of_true (report_contained _ (allowed_of goes_on) ⟨rfl, rfl⟩) trivial

theorem refused_ends {allowed : Bool} (ends : (!allowed) = true) (call : SaveResult Rdram type) :
    ∃ stop, (do
        if !allowed then throw .quickExit
        call) = Except.error stop ∧ ∀ index, stop ≠ .outside index := by
  rw [ends]
  exact ⟨.quickExit, rfl, fun _ same => by cases same⟩

/-- A request that ends the program has not touched the buffer. -/
theorem perform_ends (request : SaveRequest) (ends : request.ends type = true) :
    ∃ stop, d.perform guest request = .error stop ∧ ∀ index, stop ≠ .outside index := by
  cases request with
  | osEepromProbe => cases ends
  | osEPiReadIo => cases ends
  | osEPiWriteIo => cases ends
  | osPiStartDma r6 r7 dramAddr size mq =>
      refine ⟨.romWrite, ?_, fun _ same => by cases same⟩
      rw [perform, osPiStartDma, doDma, if_neg (of_decide_eq_true ends), if_pos (k1ToPhys_rom _)]
      rfl
  | osEPiStartDma r6 baseAddress devAddr dramAddr size mq =>
      obtain ⟨writes, rom⟩ := of_decide_eq_true ends
      refine ⟨.romWrite, ?_, fun _ same => by cases same⟩
      rw [perform, osEPiStartDma, doDma, if_neg writes, if_pos rom]
      rfl
  | osPiRawStartDma => exact ⟨.quickExit, rfl, fun _ same => by cases same⟩
  | osEPiRawStartDma => exact ⟨.quickExit, rfl, fun _ same => by cases same⟩
  -- the others check the save type before anything else
  | _ => exact refused_ends ends _

/-- The calls stay inside the buffer, and turn away what lies outside of it,
exactly in the runs whose requests are in range. -/
theorem save_requests_contained (guest : SaveGuest Rdram) (d : SaveDevice Rdram type)
    (requests : List SaveRequest) :
    AllContained guest d requests ↔
      ∀ request ∈ SaveRequest.performed type requests, request.InRange type := by
  induction requests generalizing d with
  | nil => exact iff_of_true trivial fun _ mem => absurd mem List.not_mem_nil
  | cons request rest ih =>
      rw [AllContained, SaveRequest.performed]
      cases ends : request.ends type with
      | true =>
          rw [if_pos rfl, List.takeWhile_cons_of_neg (by rw [ends]; decide)]
          exact iff_of_true (perform_ends request ends) fun _ mem => absurd mem List.not_mem_nil
      | false =>
          rw [if_neg Bool.false_ne_true, List.takeWhile_cons_of_pos (by rw [ends]; rfl),
            List.forall_mem_cons, ← perform_contained_iff request ends]
          constructor
          · rintro ⟨after, run, served, later⟩
            exact ⟨⟨after, run, served⟩, (ih after).mp later⟩
          · rintro ⟨⟨after, run, served⟩, in_range⟩
            exact ⟨after, run, served, (ih after).mpr in_range⟩

def stillGuest : SaveGuest Unit where
  memB _ _ _ := 0
  setMemB _ _ _ _ := ()
  setMemW _ _ _ _ := ()
  osSendMesg _ _ := ()
  doRomRead _ _ _ _ := ()
  doRomPio _ _ _ := ()
  flashHandle := 0

def started (type : SaveType) (value : UInt8) : SaveDevice Unit type where
  rdram := ()
  saveBuffer := Vector.replicate _ value
  touched := []
  writeBuffer := Vector.replicate _ 0
  flashMode := .readArray
  flashStatus := 0
  flashPendingErasePage := 0
  pending_le := SaveDevice.no_page_le
  flashWriteBuffer := Vector.replicate _ 0
  r2 := 0

/-- Block 64 of a 4 kbit EEPROM, which has blocks 0 to 63. -/
theorem eeprom_write_leaves_buffer :
    ¬AllContained stillGuest (started .eep4k 0) [.osEepromWrite 64 0] := by
  have outside : ¬SaveRequest.InRange .eep4k (.osEepromWrite 64 0) := by
    unfold SaveRequest.InRange
    decide
  rw [AllContained, if_neg (by decide)]
  rintro ⟨after, run, served, _⟩
  exact outside ((perform_contained_iff _ rfl).mp ⟨after, run, served⟩)

end SaveDevice

end N64ModernRuntime.Librecomp
