import N64ModernRuntime.Librecomp.GuestMemory
import N64ModernRuntime.Librecomp.SaveBounds

/-!
# pi.cpp: reads of the cartridge

`do_rom_read` checks a transfer against the image and fills with zeros what does
not lie inside; `do_rom_pio` loads one word where it is told.  `hostReads`
collects the indices of the image that have been loaded.
-/

set_option autoImplicit false

namespace N64ModernRuntime.Librecomp

open SaveDevice

/-- The image, what the host has behind it, and the message at the end of a transfer. -/
structure Cart where
  rom : List UInt8
  outside : Nat → UInt8
  osSendMesg : GuestMemory → UInt64 → GuestMemory

/-- Guest memory, and the loads from the image, the last one first. -/
structure CartBus where
  memory : GuestMemory
  hostReads : List Nat

/-! ## The two reads -/

/-- `MEM_B(pos, ram_address) = value` -/
def GuestMemory.putByte (m : GuestMemory) (ramAddress : UInt64) (pos : Nat) (value : UInt8) :
    GuestMemory :=
  guestMacros.setMemB m (BitVec.ofNat 64 pos) ramAddress.toBitVec value.toBitVec

namespace Cart

variable (cart : Cart)

def romByte (i : Nat) : UInt8 := (cart.rom[i]?).getD (cart.outside i)

/-- `MEM_B(pos, ram_address) = rom.data()[first + pos]` -/
def copyByte (first : Nat) (ramAddress : UInt64) (bus : CartBus) (pos : Nat) : CartBus where
  memory := bus.memory.putByte ramAddress pos (cart.romByte (first + pos))
  hostReads := (first + pos) :: bus.hostReads

def clearByte (ramAddress : UInt64) (bus : CartBus) (pos : Nat) : CartBus :=
  { bus with memory := bus.memory.putByte ramAddress pos 0 }

def doRomRead (bus : CartBus) (ramAddress : UInt64) (physicalAddr : UInt32) (numBytes : UInt64) :
    CartBus :=
  let romOff := physicalAddr - romBase
  if cart.rom.length ≤ romOff.toNat ∨ cart.rom.length < (romOff.toUInt64 + numBytes).toNat then
    (List.range numBytes.toNat).foldl (clearByte ramAddress) bus
  else (List.range numBytes.toNat).foldl (cart.copyByte romOff.toNat ramAddress) bus

def doRomPio (bus : CartBus) (ramAddress : UInt64) (physicalAddr : UInt32) : CartBus :=
  (List.range 4).foldl (cart.copyByte (physicalAddr - romBase).toNat ramAddress) bus

def guest : SaveGuest CartBus where
  memB bus pos address :=
    ⟨guestMacros.memB bus.memory (BitVec.ofNat 64 pos.toNat) address.toBitVec⟩
  setMemB bus pos address value := { bus with memory := bus.memory.putByte address pos.toNat value }
  setMemW bus pos address value :=
    { bus with
      memory := guestMacros.setMemW bus.memory (BitVec.ofNat 64 pos.toNat) address.toBitVec
        value.toBitVec }
  osSendMesg bus mq := { bus with memory := cart.osSendMesg bus.memory mq }
  doRomRead bus address physicalAddr size := cart.doRomRead bus address physicalAddr size.toUInt64
  doRomPio bus address physicalAddr := cart.doRomPio bus address physicalAddr
  flashHandle := 0x80800000

/-! ## What a read is to deliver -/

/-- The bytes of an access: those of the image if it lies inside, and zeros if not. -/
def bytes (first count : Nat) : List UInt8 :=
  if first + count ≤ cart.rom.length then (cart.rom.drop first).take count
  else List.replicate count 0

end Cart

def GuestMemory.bytePlace (addr : Gpr) : BitVec 30 := GuestMemory.place (addr ^^^ 3)

def destination (ramAddress : UInt64) (pos : Nat) : Gpr := ramAddress.toBitVec + BitVec.ofNat 64 pos

/-- Every destination byte has its value, unless a later one of them lies at the
same place, and nothing else has changed. -/
structure Delivered (before after : GuestMemory) (ramAddress : UInt64) (values : List UInt8) : Prop where
  bytes : ∀ pos value, values[pos]? = some value →
    (∀ later, pos < later → later < values.length →
      GuestMemory.bytePlace (destination ramAddress later) ≠
        GuestMemory.bytePlace (destination ramAddress pos)) →
    after.byte (destination ramAddress pos) = value.toBitVec
  others : ∀ addr, (∀ pos < values.length,
      GuestMemory.bytePlace (destination ramAddress pos) ≠ GuestMemory.bytePlace addr) →
    after.byte addr = before.byte addr

variable {type : SaveType}

/-- The call returns, has loaded nothing outside the image, and delivers the bytes
of the access before `finish`. -/
def CartServes (cart : Cart) (d : SaveDevice CartBus type) (request : SaveRequest)
    (physicalAddr : UInt32) (ramAddress : UInt64) (count : Nat) (finish : GuestMemory → GuestMemory) :
    Prop :=
  ∃ after memory reads, d.perform cart.guest request = .ok after ∧
    Delivered d.rdram.memory memory ramAddress (cart.bytes (physicalAddr - romBase).toNat count) ∧
    after.rdram.memory = finish memory ∧
    after.rdram.hostReads = reads ++ d.rdram.hostReads ∧ ∀ i ∈ reads, i < cart.rom.length

/-- What is wanted of a request that reads the cartridge; the raw calls end the program. -/
def CartReadServed (cart : Cart) (d : SaveDevice CartBus type) : SaveRequest → Prop
  | .osPiStartDma r6 r7 dramAddr size mq => r6.toUInt32 = 0 →
    CartServes cart d (.osPiStartDma r6 r7 dramAddr size mq) (k1ToPhys (r7.toUInt32 ||| romBase))
      dramAddr size.toNat fun m => cart.osSendMesg m mq
  | .osEPiStartDma r6 baseAddress devAddr dramAddr size mq =>
    r6.toUInt32 = 0 → romBase ≤ k1ToPhys (baseAddress ||| devAddr) →
      CartServes cart d (.osEPiStartDma r6 baseAddress devAddr dramAddr size mq)
        (k1ToPhys (baseAddress ||| devAddr)) dramAddr size.toNat fun m => cart.osSendMesg m mq
  | .osEPiReadIo baseAddress r5 r6 => romBase ≤ k1ToPhys (baseAddress ||| r5.toUInt32) →
    CartServes cart d (.osEPiReadIo baseAddress r5 r6) (k1ToPhys (baseAddress ||| r5.toUInt32)) r6 4 id
  | .osPiRawStartDma => d.perform cart.guest .osPiRawStartDma = .error .quickExit
  | .osEPiRawStartDma => d.perform cart.guest .osEPiRawStartDma = .error .quickExit
  | _ => True

def WordInside (cart : Cart) : SaveRequest → Prop
  | .osEPiReadIo baseAddress r5 _ => romBase ≤ k1ToPhys (baseAddress ||| r5.toUInt32) →
    (k1ToPhys (baseAddress ||| r5.toUInt32) - romBase).toNat + 4 ≤ cart.rom.length
  | _ => True

/-! ## The loops -/

namespace GuestMemory

variable {m : GuestMemory} {ramAddress : UInt64} {addr : Gpr}

def putBytes (m : GuestMemory) (ramAddress : UInt64) : Nat → List UInt8 → GuestMemory
  | _, [] => m
  | pos, value :: values => (m.putByte ramAddress pos value).putBytes ramAddress (pos + 1) values

theorem putByte_byte (pos : Nat) (value : UInt8) :
    (m.putByte ramAddress pos value).byte addr =
      if bytePlace addr = bytePlace (destination ramAddress pos) then value.toBitVec else m.byte addr :=
  Function.update_apply m _ _ _

theorem putBytes_frame {pos : Nat} {values : List UInt8}
    (away : ∀ i < values.length, bytePlace (destination ramAddress (pos + i)) ≠ bytePlace addr) :
    (m.putBytes ramAddress pos values).byte addr = m.byte addr := by
  induction values generalizing m pos with
  | nil => rfl
  | cons value values ih =>
    have here := away 0 (Nat.succ_pos _)
    rw [Nat.add_zero] at here
    have later : ∀ i < values.length,
        bytePlace (destination ramAddress (pos + 1 + i)) ≠ bytePlace addr := by
      intro i below
      have next := away (i + 1) (Nat.succ_lt_succ below)
      rw [Nat.add_assoc, Nat.add_comm 1 i]
      exact next
    rw [putBytes, ih later, putByte_byte, if_neg (Ne.symm here)]

/-- The last store to a place is what is there. -/
theorem putBytes_byte (ramAddress : UInt64) (pos : Nat) {i : Nat} {values : List UInt8} {value : UInt8}
    (at_i : values[i]? = some value)
    (last : ∀ later, i < later → later < values.length →
      bytePlace (destination ramAddress (pos + later)) ≠ bytePlace (destination ramAddress (pos + i))) :
    (m.putBytes ramAddress pos values).byte (destination ramAddress (pos + i)) = value.toBitVec := by
  induction values generalizing m pos i with
  | nil => cases at_i
  | cons first values ih =>
    cases i with
    | zero =>
      cases at_i
      have away : ∀ j < values.length, bytePlace (destination ramAddress (pos + 1 + j)) ≠
          bytePlace (destination ramAddress (pos + 0)) := by
        intro j below
        have next := last (j + 1) (Nat.succ_pos j) (Nat.succ_lt_succ below)
        rw [Nat.add_assoc, Nat.add_comm 1 j]
        exact next
      rw [putBytes, putBytes_frame away, putByte_byte, Nat.add_zero, if_pos rfl]
    | succ i =>
      rw [List.getElem?_cons_succ] at at_i
      have shift : pos + (i + 1) = pos + 1 + i := by omega
      rw [putBytes, shift]
      refine ih (pos + 1) at_i fun later above below => ?_
      have next := last (later + 1) (Nat.succ_lt_succ above) (Nat.succ_lt_succ below)
      rw [shift] at next
      rw [Nat.add_assoc, Nat.add_comm 1 later]
      exact next

theorem putBytes_delivered (m : GuestMemory) (ramAddress : UInt64) (values : List UInt8) :
    Delivered m (m.putBytes ramAddress 0 values) ramAddress values where
  bytes pos value at_pos last := by
    have stored := putBytes_byte (m := m) ramAddress 0 at_pos
    rw [Nat.zero_add] at stored
    refine stored fun later above below => ?_
    rw [Nat.zero_add]
    exact last later above below
  others addr away := by
    refine putBytes_frame fun i below => ?_
    rw [Nat.zero_add]
    exact away i below

/-- Up to 2^30 bytes have places of their own. -/
theorem places_apart {pos later : Nat} (above : pos < later) (near : later < 2 ^ 30) :
    bytePlace (destination ramAddress later) ≠ bytePlace (destination ramAddress pos) := by
  intro same
  simp only [bytePlace, place, destination, BitVec.setWidth_xor] at same
  have sums := (BitVec.xor_left_inj _).mp same
  rw [BitVec.setWidth_add _ _ (by decide), BitVec.setWidth_add _ _ (by decide)] at sums
  have offsets := congrArg BitVec.toNat ((BitVec.add_right_inj _).mp sums)
  rw [BitVec.toNat_setWidth, BitVec.toNat_setWidth, BitVec.toNat_ofNat, BitVec.toNat_ofNat] at offsets
  omega

end GuestMemory

theorem Delivered.byte {before after : GuestMemory} {ramAddress : UInt64} {values : List UInt8}
    (delivered : Delivered before after ramAddress values) (short : values.length ≤ 2 ^ 30) {pos : Nat}
    {value : UInt8} (at_pos : values[pos]? = some value) :
    after.byte (destination ramAddress pos) = value.toBitVec :=
  delivered.bytes pos value at_pos fun _ above below =>
    GuestMemory.places_apart above (Nat.lt_of_lt_of_le below short)

namespace Cart

variable (cart : Cart) (ramAddress : UInt64)

theorem copy_eq (first pos count : Nat) (bus : CartBus) :
    (List.range' pos count).foldl (cart.copyByte first ramAddress) bus =
      ⟨bus.memory.putBytes ramAddress pos ((List.range' pos count).map fun i => cart.romByte (first + i)),
        ((List.range' pos count).map fun i => first + i).reverse ++ bus.hostReads⟩ := by
  induction count generalizing pos bus with
  | zero => rfl
  | succ count ih =>
    rw [List.range'_succ, List.foldl_cons, ih, List.map_cons, List.map_cons, List.reverse_cons,
      List.append_assoc, List.singleton_append, GuestMemory.putBytes]
    rfl

theorem clear_eq (pos count : Nat) (bus : CartBus) :
    (List.range' pos count).foldl (clearByte ramAddress) bus =
      ⟨bus.memory.putBytes ramAddress pos (List.replicate count 0), bus.hostReads⟩ := by
  induction count generalizing pos bus with
  | zero => rfl
  | succ count ih =>
    rw [List.range'_succ, List.foldl_cons, ih, List.replicate_succ, GuestMemory.putBytes]
    rfl

theorem romBytes_eq {first count : Nat} (inside : first + count ≤ cart.rom.length) :
    (List.range' 0 count).map (fun i => cart.romByte (first + i)) = cart.bytes first count := by
  rw [bytes, if_pos inside]
  apply List.ext_getElem?
  intro i
  rw [List.getElem?_map, List.getElem?_take, List.getElem?_drop]
  by_cases below : i < count
  · rw [if_pos below, List.getElem?_range' below, Nat.zero_add, Nat.one_mul, Option.map_some, romByte,
      List.getElem?_eq_getElem (by omega), Option.getD_some]
  · rw [if_neg below, List.getElem?_eq_none (by rw [List.length_range']; omega), Option.map_none]

/-- A transfer stores the bytes of its access, and loads nothing outside the image. -/
theorem doRomRead_eq (bus : CartBus) (physicalAddr size : UInt32) :
    ∃ reads, cart.doRomRead bus ramAddress physicalAddr size.toUInt64 =
        ⟨bus.memory.putBytes ramAddress 0 (cart.bytes (physicalAddr - romBase).toNat size.toNat),
          reads ++ bus.hostReads⟩ ∧
      ∀ i ∈ reads, i < cart.rom.length := by
  generalize off : physicalAddr - romBase = romOff
  have off_lt := romOff.toNat_lt
  have size_lt := size.toNat_lt
  have sum : (romOff.toUInt64 + size.toUInt64).toNat = romOff.toNat + size.toNat := by
    rw [UInt64.toNat_add, UInt32.toNat_toUInt64, UInt32.toNat_toUInt64]
    omega
  rw [doRomRead, off, sum, UInt32.toNat_toUInt64, List.range_eq_range']
  by_cases leaves : cart.rom.length ≤ romOff.toNat ∨ cart.rom.length < romOff.toNat + size.toNat
  · have zeros : cart.bytes romOff.toNat size.toNat = List.replicate size.toNat 0 := by
      by_cases inside : romOff.toNat + size.toNat ≤ cart.rom.length
      · -- only an empty transfer at the end of the image is inside and checked away
        have empty : size.toNat = 0 := by omega
        rw [bytes, if_pos inside, empty]
        rfl
      · rw [bytes, if_neg inside]
    rw [if_pos leaves, clear_eq, zeros]
    exact ⟨[], rfl, fun i mem => by cases mem⟩
  · have inside : romOff.toNat + size.toNat ≤ cart.rom.length := by omega
    rw [if_neg leaves, copy_eq, cart.romBytes_eq inside]
    refine ⟨_, rfl, fun i mem => ?_⟩
    rw [List.mem_reverse, List.mem_map] at mem
    obtain ⟨pos, in_range, rfl⟩ := mem
    have below := (List.mem_range'_1.mp in_range).2
    omega

theorem doRomRead_delivers (bus : CartBus) (physicalAddr size : UInt32) :
    ∃ memory reads, cart.doRomRead bus ramAddress physicalAddr size.toUInt64 =
        ⟨memory, reads ++ bus.hostReads⟩ ∧
      Delivered bus.memory memory ramAddress
        (cart.bytes (physicalAddr - romBase).toNat size.toNat) ∧
      ∀ i ∈ reads, i < cart.rom.length := by
  obtain ⟨reads, read, inside⟩ := cart.doRomRead_eq ramAddress bus physicalAddr size
  exact ⟨_, reads, read, GuestMemory.putBytes_delivered _ _ _, inside⟩

theorem doRomPio_eq (bus : CartBus) (physicalAddr : UInt32) :
    cart.doRomPio bus ramAddress physicalAddr =
      ⟨bus.memory.putBytes ramAddress 0
          ((List.range' 0 4).map fun i => cart.romByte ((physicalAddr - romBase).toNat + i)),
        ((List.range' 0 4).map fun i => (physicalAddr - romBase).toNat + i).reverse ++ bus.hostReads⟩ := by
  rw [doRomPio, List.range_eq_range', copy_eq]

end Cart

/-! ## The entry points -/

section Entries

variable (cart : Cart) (d : SaveDevice CartBus type)

theorem doDma_rom (mq dramAddr : UInt64) {physicalAddr : UInt32} (rom : romBase ≤ physicalAddr)
    (size : UInt32) {direction : UInt32} (reads : direction = 0) :
    d.doDma cart.guest mq dramAddr physicalAddr size direction =
      .ok (({ d with
        rdram := cart.doRomRead d.rdram dramAddr physicalAddr size.toUInt64 }).sendMesg cart.guest mq) := by
  rw [doDma, if_pos reads, if_pos rom]
  rfl

theorem rom_read_served {request : SaveRequest} {mq dramAddr : UInt64} {physicalAddr size : UInt32}
    (run : d.perform cart.guest request = .ok ((({ d with
      rdram := cart.doRomRead d.rdram dramAddr physicalAddr size.toUInt64 }).sendMesg cart.guest mq).returns
        0)) :
    CartServes cart d request physicalAddr dramAddr size.toNat fun m => cart.osSendMesg m mq := by
  obtain ⟨memory, reads, read, delivered, inside⟩ :=
    cart.doRomRead_delivers dramAddr d.rdram physicalAddr size
  rw [read] at run
  exact ⟨_, memory, reads, run, delivered, rfl, rfl, inside⟩

theorem rom_word_served_iff (baseAddress : UInt32) (r5 r6 : UInt64)
    (rom : romBase ≤ k1ToPhys (baseAddress ||| r5.toUInt32)) :
    CartServes cart d (.osEPiReadIo baseAddress r5 r6) (k1ToPhys (baseAddress ||| r5.toUInt32)) r6 4 id ↔
      (k1ToPhys (baseAddress ||| r5.toUInt32) - romBase).toNat + 4 ≤ cart.rom.length := by
  generalize address : k1ToPhys (baseAddress ||| r5.toUInt32) = physicalAddr at rom ⊢
  have run : d.perform cart.guest (.osEPiReadIo baseAddress r5 r6) =
      .ok { d with rdram := cart.doRomPio d.rdram r6 physicalAddr, r2 := 0 } := by
    rw [perform, osEPiReadIo, address]
    dsimp only
    rw [if_pos rom]
    rfl
  rw [cart.doRomPio_eq] at run
  constructor
  · rintro ⟨after, memory, reads, performed, -, -, logged, inside⟩
    rw [run, Except.ok.injEq] at performed
    subst performed
    have same := List.append_cancel_right logged
    have last : (physicalAddr - romBase).toNat + 3 ∈ reads := by
      rw [← same, List.mem_reverse]
      exact List.mem_map_of_mem (by decide)
    exact inside _ last
  · intro inside
    refine ⟨_, _, _, run, ?_, rfl, rfl, fun i mem => ?_⟩
    · rw [cart.romBytes_eq inside]
      exact GuestMemory.putBytes_delivered _ _ _
    · rw [List.mem_reverse, List.mem_map] at mem
      obtain ⟨pos, in_range, rfl⟩ := mem
      have below := (List.mem_range'_1.mp in_range).2
      omega

end Entries

/-- Every read of the cartridge stays in the image and delivers its bytes, or
zeros, exactly when a single word that is read lies in the image. -/
theorem rom_reads_served_iff (cart : Cart) (d : SaveDevice CartBus type) (request : SaveRequest) :
    CartReadServed cart d request ↔ WordInside cart request := by
  cases request with
  | osPiStartDma r6 r7 dramAddr size mq =>
    refine iff_of_true (fun reads => rom_read_served cart d ?_) trivial
    rw [perform, osPiStartDma, doDma_rom cart d mq dramAddr (k1ToPhys_rom r7.toUInt32) size reads]
    rfl
  | osEPiStartDma r6 baseAddress devAddr dramAddr size mq =>
    refine iff_of_true (fun reads rom => rom_read_served cart d ?_) trivial
    rw [perform, osEPiStartDma, doDma_rom cart d mq dramAddr rom size reads]
    rfl
  | osEPiReadIo baseAddress r5 r6 =>
    constructor
    · exact fun served rom => (rom_word_served_iff cart d baseAddress r5 r6 rom).mp (served rom)
    · exact fun inside rom => (rom_word_served_iff cart d baseAddress r5 r6 rom).mpr (inside rom)
  | osPiRawStartDma => exact iff_of_true rfl trivial
  | osEPiRawStartDma => exact iff_of_true rfl trivial
  | _ => exact iff_of_true trivial trivial

def smallCart : Cart := ⟨List.replicate 0x1000 0x12, fun _ => 0xA5, fun m _ => m⟩

def smallCartDevice : SaveDevice CartBus .none where
  rdram := ⟨fun _ => 0, []⟩
  saveBuffer := Vector.replicate _ 0
  touched := []
  writeBuffer := Vector.replicate _ 0
  flashMode := .readArray
  flashStatus := 0
  flashPendingErasePage := 0
  pending_le := SaveDevice.no_page_le
  flashWriteBuffer := Vector.replicate _ 0
  r2 := 0

/-- The word behind the image is loaded from behind it. -/
theorem word_read_leaves_rom :
    ¬ CartReadServed smallCart smallCartDevice (.osEPiReadIo 0xB0000000 0x1000 0xFFFFFFFF80100000) := by
  intro served
  have inside := (rom_word_served_iff smallCart smallCartDevice 0xB0000000 0x1000 0xFFFFFFFF80100000
    (by decide)).mp (served (by decide))
  rw [smallCart, List.length_replicate] at inside
  exact absurd inside (by decide)

end N64ModernRuntime.Librecomp
