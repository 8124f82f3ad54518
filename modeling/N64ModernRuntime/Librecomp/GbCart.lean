import Mathlib.Algebra.Ring.Nat
import Mathlib.Data.List.Basic
import Mathlib.Tactic.Common

/-!
# gbcart.cpp: the Game Boy cartridge in the Transfer Pak

`Cartridge` is the cartridge of the source, with its registers.  `Registers`
says what the documentation of the mappers says about the same bus writes: the
bank that the RAM window shows, if it shows any.
-/

set_option autoImplicit false

namespace N64ModernRuntime.Librecomp.GbCart

inductive Mbc where
  | romOnly
  | mbc1
  | mbc3
  | mbc5
  | unsupported
  deriving DecidableEq, Repr

def headerRamSize (code : UInt8) : Nat :=
  if code = 0x00 then 0
  else if code = 0x01 then 2 * 1024
  else if code = 0x02 then 8 * 1024
  else if code = 0x03 then 32 * 1024
  else if code = 0x04 then 128 * 1024
  else if code = 0x05 then 64 * 1024
  else 0

structure Cartridge where
  rom : List UInt8
  ram : List UInt8
  romOpenBusStart : Nat
  mbc : Mbc
  ramEnabled : Bool := false
  dirty : Bool := false
  romBankLow : UInt8 := 1
  bankHigh : UInt8 := 0
  ramBank : UInt8 := 0
  mbc1Mode : UInt8 := 0
  mbc5RomBank : UInt16 := 1
  deriving DecidableEq, Repr

def mbcOfType (type : UInt8) : Mbc :=
  if type = 0x00 ∨ type = 0x08 ∨ type = 0x09 then .romOnly
  else if 0x01 ≤ type ∧ type ≤ 0x03 then .mbc1
  else if 0x0F ≤ type ∧ type ≤ 0x13 then .mbc3
  else if 0x19 ≤ type ∧ type ≤ 0x1E then .mbc5
  else .unsupported

/-- `rom_open_bus_start`: whole trailing banks of zeroes read as open bus. -/
def openBusStart (rom : List UInt8) : Nat :=
  let trailing := (rom.reverse.takeWhile fun byte => byte = 0).length
  if trailing = rom.length then rom.length
  else if 0x4000 ≤ trailing then rom.length - trailing
  else rom.length

namespace Cartridge

/-- `load` of a fresh cartridge from the two files; a missing save is empty. -/
def load (rom save : List UInt8) : Option Cartridge :=
  if rom.length < 0x150 then none
  else if mbcOfType (rom[0x147]?.getD 0) = .unsupported then none
  else
    let declared := headerRamSize (rom[0x149]?.getD 0)
    some
      { rom := rom
        ram := save ++ List.replicate (declared - save.length) 0xFF
        romOpenBusStart := openBusStart rom
        mbc := mbcOfType (rom[0x147]?.getD 0) }

def romIndex (c : Cartridge) (bank addressInBank : Nat) : Nat :=
  if c.rom = [] then 0
  else bank % ((c.rom.length + 0x3FFF) / 0x4000) * 0x4000 + addressInBank

def selectedSwitchableRomBank (c : Cartridge) : Nat :=
  if c.mbc = .mbc5 then c.mbc5RomBank.toNat
  else if c.mbc = .mbc1 then
    let bank := (c.romBankLow &&& 0x1F).toNat + (c.bankHigh &&& 0x03).toNat * 32
    if bank % 32 = 0 then bank + 1 else bank
  else
    let bank := (c.romBankLow &&& 0x7F).toNat
    if bank = 0 then 1 else bank

def selectedRamOffset (c : Cartridge) (address : UInt16) : Nat :=
  let offset := address.toNat - 0xA000
  let selectedBank :=
    if c.mbc = .mbc1 ∧ c.mbc1Mode = 0 then 0 else (c.ramBank &&& 0x03).toNat
  selectedBank * 0x2000 + offset

def readRom (c : Cartridge) (index : Nat) : UInt8 :=
  if c.romOpenBusStart ≤ index then 0xFF else c.rom[index]?.getD 0xFF

def read (c : Cartridge) (address : UInt16) : UInt8 :=
  if address < 0x4000 then
    let bank := if c.mbc = .mbc1 ∧ c.mbc1Mode ≠ 0 then (c.bankHigh &&& 0x03).toNat * 32 else 0
    c.readRom (c.romIndex bank address.toNat)
  else if address < 0x8000 then
    c.readRom (c.romIndex c.selectedSwitchableRomBank (address.toNat - 0x4000))
  else if 0xA000 ≤ address ∧ address < 0xC000 ∧ c.ramEnabled then
    c.ram[c.selectedRamOffset address]?.getD 0xFF
  else 0xFF

/-- The write to a RAM byte: one that is there and differs. -/
def writeRam (c : Cartridge) (index : Nat) (value : UInt8) : Cartridge :=
  match c.ram[index]? with
  | none => c
  | some byte => if byte ≠ value then { c with ram := c.ram.set index value, dirty := true } else c

def setRomBankLow (c : Cartridge) (bank : UInt8) : Cartridge :=
  { c with romBankLow := if bank = 0 then 1 else bank }

def setMbc5RomBank (c : Cartridge) (bank : UInt16) : Cartridge := { c with mbc5RomBank := bank }

def setBankHigh (c : Cartridge) (bank : UInt8) : Cartridge := { c with bankHigh := bank }

def setRamBank (c : Cartridge) (bank : UInt8) : Cartridge := { c with ramBank := bank }

def setMbc1Mode (c : Cartridge) (mode : UInt8) : Cartridge := { c with mbc1Mode := mode }

def setRamEnabled (c : Cartridge) (enabled : Bool) : Cartridge := { c with ramEnabled := enabled }

def write (c : Cartridge) (address : UInt16) (value : UInt8) : Cartridge :=
  if c.mbc = .romOnly then
    if 0xA000 ≤ address ∧ address < 0xC000 ∧ c.ram ≠ [] then
      c.writeRam (address.toNat - 0xA000) value
    else c
  else if address < 0x2000 then c.setRamEnabled (value &&& 0x0F = 0x0A)
  else if address < 0x4000 then
    match c.mbc with
    | .mbc1 => c.setRomBankLow (value &&& 0x1F)
    | .mbc5 =>
      if address < 0x3000 then
        c.setMbc5RomBank ((c.mbc5RomBank &&& (0x100 : UInt16)) ||| value.toUInt16)
      else
        c.setMbc5RomBank ((c.mbc5RomBank &&& (0x0FF : UInt16)) ||| ((value &&& 1).toUInt16 <<< 8))
    | _ => c.setRomBankLow (value &&& 0x7F)
  else if address < 0x6000 then
    match c.mbc with
    | .mbc1 => (c.setBankHigh (value &&& 0x03)).setRamBank (value &&& 0x03)
    | .mbc5 => c.setRamBank (value &&& 0x0F)
    | _ => if value ≤ 0x03 then c.setRamBank value else c
  else if address < 0x8000 then
    match c.mbc with
    | .mbc1 => c.setMbc1Mode (value &&& 1)
    | _ => c
  else if 0xA000 ≤ address ∧ address < 0xC000 ∧ c.ramEnabled then
    c.writeRam (c.selectedRamOffset address) value
  else c

end Cartridge

/-! ## The documented registers -/

/-- What the documentation of the mappers keeps: whether RAM is enabled, the RAM
bank register, whether an MBC3 clock register is selected in its place, and the
mode of MBC1. -/
structure Registers where
  enabled : Bool
  ramBank : Nat
  clock : Bool
  mode : Nat
  deriving DecidableEq, Repr

/-- A cartridge without a mapper has no enable register. -/
def Registers.start (mbc : Mbc) : Registers := ⟨mbc = .romOnly, 0, false, 0⟩

def Registers.write (mbc : Mbc) (r : Registers) (address : UInt16) (value : UInt8) : Registers :=
  if mbc = .romOnly then r
  else if address < 0x2000 then { r with enabled := value &&& 0x0F = 0x0A }
  else if address < 0x4000 then r
  else if address < 0x6000 then
    match mbc with
    | .mbc1 => { r with ramBank := value.toNat % 4 }
    | .mbc5 => { r with ramBank := value.toNat % 16 }
    | _ =>
      if value ≤ 0x03 then { r with ramBank := value.toNat, clock := false }
      else if 0x08 ≤ value ∧ value ≤ 0x0C then { r with clock := true }
      else r
  else if address < 0x8000 ∧ mbc = .mbc1 then { r with mode := value.toNat % 2 }
  else r

def Registers.selected (mbc : Mbc) (r : Registers) : Option Nat :=
  if mbc = .romOnly then some 0
  else if mbc = .mbc1 ∧ r.mode = 0 then some 0
  else if r.clock then none
  else some r.ramBank

/-! ## Runs on the bus -/

inductive BusOp where
  | read (address : UInt16)
  | write (address : UInt16) (value : UInt8)
  deriving DecidableEq, Repr

def Cartridge.step (c : Cartridge) : BusOp → Cartridge
  | .read _ => c
  | .write address value => c.write address value

def Cartridge.after (c : Cartridge) (ops : List BusOp) : Cartridge := ops.foldl Cartridge.step c

def Registers.step (mbc : Mbc) (r : Registers) : BusOp → Registers
  | .read _ => r
  | .write address value => r.write mbc address value

def Registers.after (mbc : Mbc) (ops : List BusOp) : Registers :=
  ops.foldl (Registers.step mbc) (Registers.start mbc)

def InRam (address : UInt16) : Prop := 0xA000 ≤ address ∧ address < 0xC000

instance (address : UInt16) : Decidable (InRam address) := inferInstanceAs (Decidable (_ ∧ _))

def ramByte (bank : Nat) (address : UInt16) : Nat := bank * 0x2000 + (address.toNat - 0xA000)

/-- With RAM enabled, a write to the window changes at most the byte of the bank
that is shown, and a byte that is there reads as it was written. -/
structure Isolated (c : Cartridge) (r : Registers) : Prop where
  only : ∀ address value, InRam address → r.enabled = true →
    ∀ i, (c.write address value).ram[i]? ≠ c.ram[i]? →
      ∃ bank, r.selected c.mbc = some bank ∧ i = ramByte bank address
  back : ∀ address value bank, InRam address → r.enabled = true → r.selected c.mbc = some bank →
    ramByte bank address < c.ram.length → (c.write address value).read address = value

def Apart (c d : Cartridge) (r s : Registers) : Prop :=
  ∀ left right, r.selected c.mbc = some left → s.selected d.mbc = some right → left ≠ right →
    (left + 1) * 0x2000 ≤ c.ram.length → (right + 1) * 0x2000 ≤ d.ram.length →
      ∀ address address', InRam address → InRam address' →
        c.selectedRamOffset address ≠ d.selectedRamOffset address'

def RamRight (mbc : Mbc) (ramSize : Nat) (r : Registers) : Prop :=
  r.enabled = true →
    match mbc with
    | .romOnly => ramSize = 0
    | .mbc3 => r.clock = true → ramSize ≤ r.ramBank * 0x2000
    | .mbc5 => r.ramBank < 4 ∨ ramSize ≤ r.ramBank % 4 * 0x2000
    | _ => True

/-! ## The cartridge follows the registers -/

theorem toNat_and_mask (value : UInt8) (bits : Nat) (mask : UInt8) (is_mask : mask.toNat = 2 ^ bits - 1) :
    (value &&& mask).toNat = value.toNat % 2 ^ bits := by
  rw [UInt8.toNat_and, is_mask, Nat.and_two_pow_sub_one_eq_mod]

structure Follows (c : Cartridge) (r : Registers) : Prop where
  enabled : c.mbc ≠ .romOnly → c.ramEnabled = r.enabled
  romOnly : c.mbc = .romOnly → c.ramEnabled = false ∧ r.enabled = true
  bank : c.ramBank.toNat = r.ramBank
  mode : c.mbc1Mode.toNat = r.mode
  clock : r.clock = true → c.mbc = .mbc3
  small : c.mbc ≠ .mbc5 → r.ramBank < 4
  supported : c.mbc ≠ .unsupported

section Follows

variable {c : Cartridge} {r : Registers}

@[simp] theorem writeRam_mbc (index : Nat) (value : UInt8) : (c.writeRam index value).mbc = c.mbc := by
  unfold Cartridge.writeRam
  split
  · rfl
  · split <;> rfl

theorem writeRam_follows (follows : Follows c r) (index : Nat) (value : UInt8) :
    Follows (c.writeRam index value) r := by
  unfold Cartridge.writeRam
  split
  · exact follows
  · split
    · exact ⟨follows.enabled, follows.romOnly, follows.bank, follows.mode, follows.clock,
        follows.small, follows.supported⟩
    · exact follows

theorem rom_follows (follows : Follows c r) {d : Cartridge} (mbc : d.mbc = c.mbc)
    (enabled : d.ramEnabled = c.ramEnabled) (bank : d.ramBank = c.ramBank)
    (mode : d.mbc1Mode = c.mbc1Mode) : Follows d r := by
  refine ⟨?_, ?_, bank ▸ follows.bank, mode ▸ follows.mode, ?_, ?_, mbc ▸ follows.supported⟩
  · rw [mbc, enabled]
    exact follows.enabled
  · rw [mbc, enabled]
    exact follows.romOnly
  · rw [mbc]
    exact follows.clock
  · rw [mbc]
    exact follows.small

theorem setRamEnabled_follows (follows : Follows c r) (mapper : c.mbc ≠ .romOnly)
    (enabled : Bool) : Follows (c.setRamEnabled enabled) { r with enabled := enabled } :=
  ⟨fun _ => rfl, fun same => absurd same mapper, follows.bank, follows.mode, follows.clock,
    follows.small, follows.supported⟩

theorem setRamBank_follows (follows : Follows c r) {bank : UInt8} {n : Nat}
    (same : bank.toNat = n) (small : c.mbc ≠ .mbc5 → n < 4) :
    Follows (c.setRamBank bank) { r with ramBank := n } :=
  ⟨follows.enabled, follows.romOnly, same, follows.mode, follows.clock, small, follows.supported⟩

theorem setMbc1Mode_follows (follows : Follows c r) {mode : UInt8} {n : Nat}
    (same : mode.toNat = n) : Follows (c.setMbc1Mode mode) { r with mode := n } :=
  ⟨follows.enabled, follows.romOnly, follows.bank, same, follows.clock, follows.small,
    follows.supported⟩

theorem setClock_follows (follows : Follows c r) (mapper : c.mbc = .mbc3) (clock : Bool) :
    Follows c { r with clock := clock } :=
  ⟨follows.enabled, follows.romOnly, follows.bank, follows.mode, fun _ => mapper, follows.small,
    follows.supported⟩

theorem write_follows (follows : Follows c r) (address : UInt16) (value : UInt8) :
    Follows (c.write address value) (r.write c.mbc address value) := by
  unfold Cartridge.write Registers.write
  by_cases plain : c.mbc = .romOnly
  · rw [if_pos plain, if_pos plain]
    split
    · exact writeRam_follows follows _ value
    · exact follows
  rw [if_neg plain, if_neg plain]
  by_cases enable : address < 0x2000
  · rw [if_pos enable, if_pos enable]
    exact setRamEnabled_follows follows plain _
  rw [if_neg enable, if_neg enable]
  by_cases rom_bank : address < 0x4000
  · rw [if_pos rom_bank, if_pos rom_bank]
    cases c.mbc with
    | mbc5 =>
        dsimp only
        split <;> exact rom_follows follows rfl rfl rfl rfl
    | _ => exact rom_follows follows rfl rfl rfl rfl
  rw [if_neg rom_bank, if_neg rom_bank]
  have low_bits : (value &&& 0x03).toNat = value.toNat % 4 := toNat_and_mask value 2 0x03 rfl
  have nibble : (value &&& 0x0F).toNat = value.toNat % 16 := toNat_and_mask value 4 0x0F rfl
  have low_bit : (value &&& 1).toNat = value.toNat % 2 := toNat_and_mask value 1 1 rfl
  by_cases ram_bank : address < 0x6000
  · rw [if_pos ram_bank, if_pos ram_bank]
    cases mapper : c.mbc with
    | mbc1 =>
        have high : Follows (c.setBankHigh (value &&& 0x03)) r := rom_follows follows rfl rfl rfl rfl
        exact setRamBank_follows high low_bits fun _ => Nat.mod_lt _ (by decide)
    | mbc5 => exact setRamBank_follows follows nibble fun other => absurd mapper other
    | mbc3 =>
        dsimp only
        by_cases documented : value ≤ 0x03
        · rw [if_pos documented, if_pos documented]
          have small : value.toNat < 4 := Nat.lt_succ_of_le (UInt8.le_iff_toNat_le.mp documented)
          exact setClock_follows (setRamBank_follows follows rfl fun _ => small) mapper false
        · rw [if_neg documented, if_neg documented]
          split
          · exact setClock_follows follows mapper true
          · exact follows
    | romOnly => exact absurd mapper plain
    | unsupported => exact absurd mapper follows.supported
  rw [if_neg ram_bank, if_neg ram_bank]
  by_cases mode : address < 0x8000
  · rw [if_pos mode]
    cases mapper : c.mbc with
    | mbc1 =>
        rw [if_pos ⟨mode, rfl⟩]
        exact setMbc1Mode_follows follows low_bit
    | _ =>
        rw [if_neg (by simp)]
        exact follows
  · have not_mode : ¬ (address < 0x8000 ∧ c.mbc = .mbc1) := fun both => mode both.1
    rw [if_neg mode, if_neg not_mode]
    split
    · exact writeRam_follows follows _ value
    · exact follows

theorem step_follows (follows : Follows c r) (op : BusOp) :
    Follows (c.step op) (r.step c.mbc op) := by
  cases op with
  | read address => exact follows
  | write address value => exact write_follows follows address value

end Follows

/-! ## What a run keeps -/

structure SameCart (c d : Cartridge) : Prop where
  mbc : d.mbc = c.mbc
  size : d.ram.length = c.ram.length

theorem writeRam_same (c : Cartridge) (index : Nat) (value : UInt8) :
    SameCart c (c.writeRam index value) := by
  refine ⟨writeRam_mbc index value, ?_⟩
  unfold Cartridge.writeRam
  split
  · rfl
  · split
    · exact List.length_set
    · rfl

theorem write_same (c : Cartridge) (address : UInt16) (value : UInt8) :
    SameCart c (c.write address value) := by
  unfold Cartridge.write
  repeat' split
  all_goals first
    | exact writeRam_same c _ value
    | exact ⟨rfl, rfl⟩

theorem after_same (c : Cartridge) (ops : List BusOp) : SameCart c (c.after ops) := by
  induction ops generalizing c with
  | nil => exact ⟨rfl, rfl⟩
  | cons op rest ih =>
      have later := ih (c.step op)
      have first : SameCart c (c.step op) := by
        cases op with
        | read address => exact ⟨rfl, rfl⟩
        | write address value => exact write_same c address value
      exact ⟨later.mbc.trans first.mbc, later.size.trans first.size⟩

theorem run_follows {c : Cartridge} {r : Registers} (follows : Follows c r) (ops : List BusOp) :
    Follows (c.after ops) (ops.foldl (Registers.step c.mbc) r) := by
  induction ops generalizing c r with
  | nil => exact follows
  | cons op rest ih =>
      have later := ih (step_follows follows op)
      have same : (c.step op).mbc = c.mbc := (after_same c [op]).mbc
      rw [same] at later
      exact later

theorem load_follows {rom save : List UInt8} {c : Cartridge}
    (loaded : Cartridge.load rom save = some c) : Follows c (Registers.start c.mbc) := by
  unfold Cartridge.load at loaded
  split at loaded
  · contradiction
  · split at loaded
    · contradiction
    · rename_i supported
      obtain rfl := Option.some.inj loaded
      have start_enabled : ∀ mbc, (Registers.start mbc).enabled = decide (mbc = Mbc.romOnly) :=
        fun _ => rfl
      refine ⟨?_, ?_, rfl, rfl, ?_, fun _ => Nat.zero_lt_succ 3, supported⟩
      · intro mapper
        rw [start_enabled, decide_eq_false mapper]
      · intro plain
        rw [start_enabled, decide_eq_true plain]
        exact ⟨rfl, rfl⟩
      · intro clock
        contradiction

/-! ## The RAM window -/

section Window

variable {c : Cartridge} {r : Registers} {address : UInt16}

theorem not_below {n : UInt16} (inside : InRam address) (low : n ≤ 0xA000) : ¬ address < n := by
  intro below
  have := UInt16.lt_iff_toNat_lt.mp below
  have := UInt16.le_iff_toNat_le.mp low
  have := UInt16.le_iff_toNat_le.mp inside.1
  omega

theorem read_inRam (inside : InRam address) :
    c.read address = if c.ramEnabled then c.ram[c.selectedRamOffset address]?.getD 0xFF else 0xFF := by
  unfold Cartridge.read
  rw [if_neg (not_below inside (by decide)), if_neg (not_below inside (by decide))]
  by_cases enabled : c.ramEnabled = true
  · rw [if_pos ⟨inside.1, inside.2, enabled⟩, if_pos enabled]
  · rw [if_neg fun all => enabled all.2.2, if_neg enabled]

theorem write_romOnly (plain : c.mbc = .romOnly) (inside : InRam address) (value : UInt8) :
    c.write address value
      = if c.ram ≠ [] then c.writeRam (address.toNat - 0xA000) value else c := by
  unfold Cartridge.write
  rw [if_pos plain]
  simp only [inside.1, inside.2, true_and]

theorem write_inRam (mapper : c.mbc ≠ .romOnly) (inside : InRam address) (value : UInt8) :
    c.write address value
      = if c.ramEnabled then c.writeRam (c.selectedRamOffset address) value else c := by
  unfold Cartridge.write
  rw [if_neg mapper, if_neg (not_below inside (by decide)), if_neg (not_below inside (by decide)),
    if_neg (not_below inside (by decide)), if_neg (not_below inside (by decide))]
  simp only [inside.1, inside.2, true_and]

theorem writeRam_ram (index : Nat) (value : UInt8) :
    (c.writeRam index value).ram = c.ram.set index value := by
  unfold Cartridge.writeRam
  cases here : c.ram[index]? with
  | none =>
      rw [List.set_eq_of_length_le (List.getElem?_eq_none_iff.mp here)]
  | some byte =>
      dsimp only
      by_cases same : byte = value
      · rw [if_neg (by simp [same])]
        obtain ⟨below, is_byte⟩ := List.getElem?_eq_some_iff.mp here
        rw [← same, ← is_byte, List.set_getElem_self]
      · rw [if_pos same]

theorem writeRam_registers (index : Nat) (value : UInt8) :
    (c.writeRam index value).ramEnabled = c.ramEnabled ∧
      (c.writeRam index value).selectedRamOffset = c.selectedRamOffset := by
  unfold Cartridge.writeRam
  split
  · exact ⟨rfl, rfl⟩
  · split <;> exact ⟨rfl, rfl⟩

/-- The bank that the code uses: two bits of the register, whatever the mapper. -/
def codeBank (mbc : Mbc) (r : Registers) : Nat :=
  if mbc = .mbc1 ∧ r.mode = 0 then 0 else r.ramBank % 4

theorem selectedRamOffset_eq (follows : Follows c r) (address : UInt16) :
    c.selectedRamOffset address = ramByte (codeBank c.mbc r) address := by
  have low_bits : (c.ramBank &&& 0x03).toNat = c.ramBank.toNat % 4 :=
    toNat_and_mask c.ramBank 2 0x03 rfl
  have mode : c.mbc1Mode = 0 ↔ r.mode = 0 := by
    rw [← follows.mode]
    exact UInt8.toNat_inj.symm
  unfold Cartridge.selectedRamOffset codeBank ramByte
  simp only [mode, low_bits, follows.bank]

theorem write_enabled (follows : Follows c r) (mapper : c.mbc ≠ .romOnly)
    (enabled : r.enabled = true) (inside : InRam address) (value : UInt8) :
    (c.write address value).ram = c.ram.set (ramByte (codeBank c.mbc r) address) value ∧
      (ramByte (codeBank c.mbc r) address < c.ram.length →
        (c.write address value).read address = value) := by
  have ram_enabled : c.ramEnabled = true := (follows.enabled mapper).trans enabled
  rw [write_inRam mapper inside, if_pos ram_enabled, selectedRamOffset_eq follows]
  refine ⟨writeRam_ram _ value, fun there => ?_⟩
  obtain ⟨same_enabled, same_offset⟩ :=
    writeRam_registers (c := c) (ramByte (codeBank c.mbc r) address) value
  rw [read_inRam inside, same_enabled, if_pos ram_enabled, same_offset, writeRam_ram,
    selectedRamOffset_eq follows, List.getElem?_set_self there]
  rfl

end Window

/-! ## Isolation -/

section Isolation

variable {c : Cartridge} {r : Registers}

theorem set_changes {ram : List UInt8} {index i : Nat} {value : UInt8}
    (changed : (ram.set index value)[i]? ≠ ram[i]?) : i = index := by
  by_contra other
  exact changed (List.getElem?_set_ne (Ne.symm other))

def windowStart : UInt16 := 0xA000

theorem windowStart_inRam : InRam windowStart := by decide

theorem ramByte_windowStart (bank : Nat) : ramByte bank windowStart = bank * 0x2000 := by
  have first : windowStart.toNat = 0xA000 := by simp [windowStart]
  unfold ramByte
  omega

theorem ramByte_ge (bank : Nat) (address : UInt16) : bank * 0x2000 ≤ ramByte bank address :=
  Nat.le_add_right _ _

/-- For a mapper only the bank can be wrong, and only where it has a byte. -/
theorem isolated_mapper_iff (follows : Follows c r) (mapper : c.mbc ≠ .romOnly)
    (lower : ∀ bank, r.selected c.mbc = some bank → codeBank c.mbc r ≤ bank) :
    Isolated c r ↔ (r.enabled = true →
      r.selected c.mbc = some (codeBank c.mbc r) ∨
        c.ram.length ≤ codeBank c.mbc r * 0x2000) := by
  constructor
  · intro isolated enabled
    by_contra wrong
    obtain ⟨other, inside⟩ := not_or.mp wrong
    have there : codeBank c.mbc r * 0x2000 < c.ram.length := Nat.lt_of_not_le inside
    -- some value differs from the byte that is there
    obtain ⟨value, differs⟩ : ∃ value, c.ram[codeBank c.mbc r * 0x2000]? ≠ some value := by
      by_cases zero : c.ram[codeBank c.mbc r * 0x2000]? = some 0
      · exact ⟨1, by rw [zero]; decide⟩
      · exact ⟨0, zero⟩
    obtain ⟨written, -⟩ := write_enabled follows mapper enabled windowStart_inRam value
    rw [ramByte_windowStart] at written
    have changed : (c.write windowStart value).ram[codeBank c.mbc r * 0x2000]?
        ≠ c.ram[codeBank c.mbc r * 0x2000]? := by
      rw [written, List.getElem?_set_self there]
      exact differs.symm
    obtain ⟨bank, selected, same⟩ := isolated.only _ value windowStart_inRam enabled _ changed
    rw [ramByte_windowStart] at same
    have : bank = codeBank c.mbc r := by omega
    exact other (this ▸ selected)
  · intro right
    constructor
    · intro address value inside enabled i changed
      obtain ⟨written, -⟩ := write_enabled follows mapper enabled inside value
      rw [written] at changed
      rcases right enabled with selected | outside
      · exact ⟨_, selected, set_changes changed⟩
      · have past : c.ram.length ≤ ramByte (codeBank c.mbc r) address :=
          Nat.le_trans outside (ramByte_ge _ _)
        rw [List.set_eq_of_length_le past] at changed
        exact absurd rfl changed
    · intro address value bank inside enabled selected there
      refine (write_enabled follows mapper enabled inside value).2 ?_
      rcases right enabled with same | outside
      · rw [← Option.some.inj (selected.symm.trans same)]
        exact there
      · have := lower bank selected
        have := ramByte_ge bank address
        omega

theorem isolated_romOnly_iff (follows : Follows c r) (plain : c.mbc = .romOnly) :
    Isolated c r ↔ c.ram.length = 0 := by
  obtain ⟨never, enabled⟩ := follows.romOnly plain
  have selected : r.selected c.mbc = some 0 := by rw [Registers.selected, if_pos plain]
  have written : ∀ address value, InRam address →
      (c.write address value).ram = c.ram.set (ramByte 0 address) value := by
    intro address value inside
    have first_bank : ramByte 0 address = address.toNat - 0xA000 := by
      unfold ramByte
      omega
    rw [write_romOnly plain inside, first_bank]
    by_cases empty : c.ram = []
    · rw [if_neg (by simp [empty]), empty, List.set_nil]
    · rw [if_pos empty, writeRam_ram]
  constructor
  · intro isolated
    by_contra some_ram
    have there : ramByte 0 windowStart < c.ram.length := by
      rw [ramByte_windowStart]
      omega
    have back := isolated.back windowStart 0 0 windowStart_inRam enabled selected there
    have disabled : (c.write windowStart 0).ramEnabled = false := by
      rw [write_romOnly plain windowStart_inRam]
      split
      · rw [(writeRam_registers _ _).1, never]
      · exact never
    rw [read_inRam windowStart_inRam, disabled, if_neg Bool.false_ne_true] at back
    contradiction
  · intro none_there
    constructor
    · intro address value inside _ i changed
      rw [written address value inside] at changed
      exact ⟨0, selected, set_changes changed⟩
    · intro address value bank _ _ _ there
      omega

/-- A write and a read back are right exactly where `RamRight` says. -/
theorem isolated_iff (follows : Follows c r) :
    Isolated c r ↔ RamRight c.mbc c.ram.length r := by
  unfold RamRight
  cases mapper : c.mbc with
  | romOnly =>
      rw [isolated_romOnly_iff follows mapper]
      simp only [(follows.romOnly mapper).2, true_implies]
  | mbc1 =>
      have not_plain : c.mbc ≠ .romOnly := by rw [mapper]; decide
      have no_clock : r.clock = false := by
        by_contra clock
        have := follows.clock (by simpa using clock)
        rw [mapper] at this
        contradiction
      have small : r.ramBank % 4 = r.ramBank :=
        Nat.mod_eq_of_lt (follows.small (by rw [mapper]; decide))
      have selected : r.selected c.mbc = some (codeBank c.mbc r) := by
        simp only [Registers.selected, codeBank, mapper, no_clock, small]
        by_cases mode : r.mode = 0 <;> simp [mode]
      rw [isolated_mapper_iff follows not_plain fun bank other =>
        Nat.le_of_eq (Option.some.inj (selected.symm.trans other))]
      exact ⟨fun _ _ => trivial, fun _ _ => .inl selected⟩
  | mbc3 =>
      have not_plain : c.mbc ≠ .romOnly := by rw [mapper]; decide
      have small : r.ramBank % 4 = r.ramBank :=
        Nat.mod_eq_of_lt (follows.small (by rw [mapper]; decide))
      have bank : codeBank c.mbc r = r.ramBank := by simp [codeBank, mapper, small]
      have selected : r.selected c.mbc = if r.clock then none else some r.ramBank := by
        simp [Registers.selected, mapper]
      rw [isolated_mapper_iff follows not_plain, bank, selected]
      · cases r.clock <;> simp
      · intro shown other
        rw [selected] at other
        split at other
        · contradiction
        · exact Nat.le_of_eq (bank.trans (Option.some.inj other))
  | mbc5 =>
      have not_plain : c.mbc ≠ .romOnly := by rw [mapper]; decide
      have no_clock : r.clock = false := by
        by_contra clock
        have := follows.clock (by simpa using clock)
        rw [mapper] at this
        contradiction
      have bank : codeBank c.mbc r = r.ramBank % 4 := by simp [codeBank, mapper]
      have selected : r.selected c.mbc = some r.ramBank := by
        simp [Registers.selected, mapper, no_clock]
      rw [isolated_mapper_iff follows not_plain, bank, selected]
      · have same : some r.ramBank = some (r.ramBank % 4) ↔ r.ramBank < 4 := by
          rw [Option.some.injEq]
          omega
        rw [same]
      · intro shown other
        rw [← Option.some.inj (selected.symm.trans other), bank]
        exact Nat.mod_le _ _
  | unsupported => exact absurd mapper follows.supported

end Isolation

/-! ## Banks -/

theorem ramByte_bank {left right : Nat} {address address' : UInt16} (inside : InRam address)
    (inside' : InRam address') (same : ramByte left address = ramByte right address') :
    left = right := by
  have low := UInt16.le_iff_toNat_le.mp inside.1
  have high := UInt16.lt_iff_toNat_lt.mp inside.2
  have low' := UInt16.le_iff_toNat_le.mp inside'.1
  have high' := UInt16.lt_iff_toNat_lt.mp inside'.2
  have window : (0xA000 : UInt16).toNat = 0xA000 := by simp
  have window_end : (0xC000 : UInt16).toNat = 0xC000 := by simp
  unfold ramByte at same
  omega

theorem codeBank_selected {c : Cartridge} {r : Registers} (follows : Follows c r)
    (mapper : c.mbc ≠ .romOnly) {bank : Nat} (selected : r.selected c.mbc = some bank)
    (inside : (bank + 1) * 0x2000 ≤ c.ram.length)
    (small : c.mbc = .mbc5 → c.ram.length < 5 * 0x2000) : codeBank c.mbc r = bank := by
  unfold Registers.selected at selected
  rw [if_neg mapper] at selected
  unfold codeBank
  by_cases first_mode : c.mbc = .mbc1 ∧ r.mode = 0
  · rw [if_pos first_mode] at selected ⊢
    exact Option.some.inj selected
  · rw [if_neg first_mode] at selected ⊢
    split at selected
    · contradiction
    · have shown := Option.some.inj selected
      by_cases mbc5 : c.mbc = .mbc5
      · have := small mbc5
        omega
      · have := follows.small mbc5
        omega

theorem apart_of_small {c d : Cartridge} {r s : Registers} (follows : Follows c r)
    (follows' : Follows d s) (same : SameCart c d)
    (small : c.mbc = .mbc5 → c.ram.length < 5 * 0x2000) : Apart c d r s := by
  intro left right selected selected' differ inside inside' address address' window window'
  by_cases plain : c.mbc = .romOnly
  · simp only [Registers.selected, same.mbc, plain, if_true, Option.some.injEq] at selected selected'
    omega
  · have plain' : d.mbc ≠ .romOnly := by rwa [same.mbc]
    have small' : d.mbc = .mbc5 → d.ram.length < 5 * 0x2000 := by
      rw [same.mbc, same.size]
      exact small
    rw [selectedRamOffset_eq follows, selectedRamOffset_eq follows',
      codeBank_selected follows plain selected inside small,
      codeBank_selected follows' plain' selected' inside' small']
    exact fun equal => differ (ramByte_bank window window' equal)

def selectBankFour : BusOp := .write 0x4000 4

theorem apart_fails {c : Cartridge} (follows : Follows c (Registers.start c.mbc))
    (mbc5 : c.mbc = .mbc5) (five_banks : 5 * 0x2000 ≤ c.ram.length) :
    ¬ Apart (c.after []) (c.after [selectBankFour]) (Registers.after c.mbc [])
      (Registers.after c.mbc [selectBankFour]) := by
  intro apart
  have same := after_same c [selectBankFour]
  have first : (Registers.after c.mbc []).selected (c.after []).mbc = some 0 := by
    change (Registers.start c.mbc).selected c.mbc = some 0
    rw [mbc5]
    rfl
  have fourth : (Registers.after c.mbc [selectBankFour]).selected
      (c.after [selectBankFour]).mbc = some 4 := by
    rw [same.mbc, mbc5]
    decide
  refine apart 0 4 first fourth (by decide) ?_ ?_ windowStart windowStart windowStart_inRam
    windowStart_inRam ?_
  · exact Nat.le_trans (by decide) five_banks
  · rw [same.size]
    exact five_banks
  · have start := selectedRamOffset_eq (run_follows follows []) windowStart
    have later := selectedRamOffset_eq (run_follows follows [selectBankFour]) windowStart
    rw [start, later, (after_same c []).mbc, same.mbc, mbc5]
    rfl

theorem isolated_after_iff {rom save : List UInt8} {c : Cartridge}
    (loaded : Cartridge.load rom save = some c) (ops : List BusOp) :
    Isolated (c.after ops) (Registers.after c.mbc ops)
      ↔ RamRight c.mbc c.ram.length (Registers.after c.mbc ops) := by
  have right := isolated_iff (run_follows (load_follows loaded) ops)
  rw [(after_same c ops).mbc, (after_same c ops).size] at right
  exact right

/-- For every cartridge that loads: after any bus operations a write with RAM
enabled stays in the bank that is shown and reads back exactly where `RamRight`
says, and no two banks share a byte exactly unless MBC5 has more than four. -/
theorem cart_ram_isolated {rom save : List UInt8} {c : Cartridge}
    (loaded : Cartridge.load rom save = some c) :
    (∀ ops, Isolated (c.after ops) (Registers.after c.mbc ops)
      ↔ RamRight c.mbc c.ram.length (Registers.after c.mbc ops)) ∧
    ((∀ ops ops', Apart (c.after ops) (c.after ops') (Registers.after c.mbc ops)
        (Registers.after c.mbc ops'))
      ↔ (c.mbc = .mbc5 → c.ram.length < 5 * 0x2000)) := by
  have start := load_follows loaded
  refine ⟨isolated_after_iff loaded, ?_⟩
  · constructor
    · intro apart mbc5
      by_contra large
      exact apart_fails start mbc5 (Nat.le_of_not_lt large) (apart _ _)
    · intro small ops ops'
      have same := after_same c ops
      have same' := after_same c ops'
      refine apart_of_small (run_follows start ops) (run_follows start ops')
        ⟨same'.mbc.trans same.mbc.symm, same'.size.trans same.size.symm⟩ ?_
      rw [same.mbc, same.size]
      exact small

/-! ## Cartridges without a save file -/

def headerRom (type ramCode : UInt8) : List UInt8 :=
  List.replicate 0x147 1 ++ type :: 1 :: ramCode :: List.replicate 0x200 1

theorem load_header {front back : List UInt8} (front_size : front.length = 0x147)
    (back_size : 6 ≤ back.length) {type : UInt8} (ramCode : UInt8)
    (supported : mbcOfType type ≠ .unsupported) :
    ∃ c, Cartridge.load (front ++ type :: 1 :: ramCode :: back) [] = some c ∧
      c.mbc = mbcOfType type ∧ c.ram.length = headerRamSize ramCode := by
  have long : ¬ (front ++ type :: 1 :: ramCode :: back).length < 0x150 := by
    simp only [List.length_append, List.length_cons, front_size]
    omega
  have first : (front ++ type :: 1 :: ramCode :: back)[0x147]? = some type := by
    rw [List.getElem?_append_right (by omega), front_size]
    rfl
  have second : (front ++ type :: 1 :: ramCode :: back)[0x149]? = some ramCode := by
    rw [List.getElem?_append_right (by omega), front_size]
    rfl
  unfold Cartridge.load
  rw [if_neg long, first, second, Option.getD_some, Option.getD_some, if_neg supported]
  refine ⟨_, rfl, rfl, ?_⟩
  simp only [List.length_nil, Nat.sub_zero, List.nil_append, List.length_replicate]

theorem headerRom_load (type ramCode : UInt8) (supported : mbcOfType type ≠ .unsupported) :
    ∃ c, Cartridge.load (headerRom type ramCode) [] = some c ∧ c.mbc = mbcOfType type ∧
      c.ram.length = headerRamSize ramCode :=
  load_header List.length_replicate (by rw [List.length_replicate]; decide) ramCode supported

/-- Without a mapper, 8 KiB of RAM are never read back; with MBC5 and 64 KiB a
write to bank 4 lands in bank 0. -/
theorem ram_unreadable_and_aliased :
    (∃ c, Cartridge.load (headerRom 0x09 0x02) [] = some c ∧
      ¬ Isolated (c.after []) (Registers.after c.mbc [])) ∧
    ∃ c, Cartridge.load (headerRom 0x1B 0x05) [] = some c ∧
      ¬ Isolated (c.after [.write 0x0000 0x0A, selectBankFour])
        (Registers.after c.mbc [.write 0x0000 0x0A, selectBankFour]) := by
  constructor
  · obtain ⟨c, loaded, mbc, size⟩ := headerRom_load 0x09 0x02 (by decide)
    refine ⟨c, loaded, ?_⟩
    have plain : mbcOfType 0x09 = .romOnly := by decide
    rw [isolated_after_iff loaded, mbc, size, plain]
    intro right
    have no_ram : headerRamSize 0x02 = 0 := right rfl
    exact absurd no_ram (by decide)
  · obtain ⟨c, loaded, mbc, size⟩ := headerRom_load 0x1B 0x05 (by decide)
    refine ⟨c, loaded, ?_⟩
    have mbc5 : mbcOfType 0x1B = .mbc5 := by decide
    rw [isolated_after_iff loaded, mbc, size, mbc5]
    intro right
    have low_bank : (Registers.after .mbc5 [.write 0x0000 0x0A, selectBankFour]).ramBank < 4 ∨
        headerRamSize 0x05 ≤
          (Registers.after .mbc5 [.write 0x0000 0x0A, selectBankFour]).ramBank % 4 * 0x2000 :=
      right (by decide)
    exact absurd low_bank (by decide)

theorem mbc1_cart_isolated :
    ∃ c, Cartridge.load (headerRom 0x03 0x03) [] = some c ∧
      ∀ ops, Isolated (c.after ops) (Registers.after c.mbc ops) := by
  obtain ⟨c, loaded, mbc, -⟩ := headerRom_load 0x03 0x03 (by decide)
  refine ⟨c, loaded, fun ops => ((cart_ram_isolated loaded).1 ops).mpr ?_⟩
  rw [mbc]
  exact fun _ => trivial

end N64ModernRuntime.Librecomp.GbCart
