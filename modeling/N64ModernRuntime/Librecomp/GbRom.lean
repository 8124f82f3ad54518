import Mathlib.Data.Nat.Bitwise
import N64ModernRuntime.Librecomp.GbCart

/-!
# gbcart.cpp: the ROM window of the cartridge

`RomRegisters` says what the documentation of the mappers says about the bus
writes that select a ROM bank, and `windowByte` which byte the window then
shows.  Banks of zeroes at the end of an image stand for cartridge area that
was never programmed, which reads as open bus.
-/

set_option autoImplicit false

namespace N64ModernRuntime.Librecomp.GbCart

/-! ## The documented registers -/

/-- The bank register, which has 5 bits in MBC1, 7 in MBC3 and 9 in MBC5, and of
MBC1 the register of the upper two bits and the mode. -/
structure RomRegisters where
  bank : Nat
  upper : Nat
  mode : Nat
  deriving DecidableEq, Repr

namespace RomRegisters

def start : RomRegisters := ⟨1, 0, 0⟩

def write (mbc : Mbc) (r : RomRegisters) (address : UInt16) (value : UInt8) : RomRegisters :=
  if mbc = .romOnly then r
  else if address < 0x2000 then r
  else if address < 0x4000 then
    match mbc with
    | .mbc1 => { r with bank := value.toNat % 32 }
    | .mbc5 =>
      if address < 0x3000 then { r with bank := r.bank / 256 * 256 + value.toNat }
      else { r with bank := value.toNat % 2 * 256 + r.bank % 256 }
    | _ => { r with bank := value.toNat % 128 }
  else if address < 0x6000 then
    if mbc = .mbc1 then { r with upper := value.toNat % 4 } else r
  else if address < 0x8000 then
    if mbc = .mbc1 then { r with mode := value.toNat % 2 } else r
  else r

def step (mbc : Mbc) (r : RomRegisters) : BusOp → RomRegisters
  | .read _ => r
  | .write address value => r.write mbc address value

def after (mbc : Mbc) (ops : List BusOp) : RomRegisters := ops.foldl (step mbc) start

def fixed (mbc : Mbc) (r : RomRegisters) : Nat :=
  if mbc = .mbc1 ∧ r.mode = 1 then r.upper * 32 else 0

/-- The bank register of MBC5 may be zero; for the others zero stands for one. -/
def switchable (mbc : Mbc) (r : RomRegisters) : Nat :=
  match mbc with
  | .mbc1 => r.upper * 32 + max 1 r.bank
  | .mbc5 => r.bank
  | .romOnly => 1
  | _ => max 1 r.bank

end RomRegisters

/-! ## The byte that the window shows -/

def romBanks (rom : List UInt8) : Nat := (rom.length + 0x3FFF) / 0x4000

def windowIndex (mbc : Mbc) (r : RomRegisters) (rom : List UInt8) (address : UInt16) : Nat :=
  (if address < 0x4000 then r.fixed mbc else r.switchable mbc) % romBanks rom * 0x4000
    + address.toNat % 0x4000

def ZeroFrom (rom : List UInt8) (i : Nat) : Prop := ∀ byte ∈ rom.drop i, byte = 0

instance (rom : List UInt8) (i : Nat) : Decidable (ZeroFrom rom i) :=
  List.decidableBAll (· = 0) (rom.drop i)

/-- Whole banks of zeroes at the end of the image reach to the index. -/
def Padded (rom : List UInt8) (i : Nat) : Prop :=
  ∃ bank ≤ i / 0x4000, (bank + 1) * 0x4000 ≤ rom.length ∧ ZeroFrom rom (bank * 0x4000)

instance (rom : List UInt8) (i : Nat) : Decidable (Padded rom i) :=
  inferInstanceAs (Decidable (∃ bank, bank ≤ i / 0x4000 ∧ _))

/-- What is behind the image or in its padding is open bus. -/
def windowByte (rom : List UInt8) (i : Nat) : UInt8 :=
  if rom.length ≤ i ∨ Padded rom i then 0xFF else rom[i]?.getD 0xFF

def LongTail (rom : List UInt8) : Prop :=
  0x4000 ≤ rom.length ∧ ZeroFrom rom (rom.length - 0x4000)

/-- When the byte is right: it is not one of such zeroes, or it is in the padding
of an image that has other bytes too. -/
def RightByte (rom : List UInt8) (i : Nat) : Prop :=
  i < rom.length → LongTail rom → ZeroFrom rom i → Padded rom i ∧ ¬ ZeroFrom rom 0

/-! ## The start of the open bus -/

theorem take_all_iff {α : Type} (p : α → Bool) (xs : List α) (n : Nat) :
    (∀ x ∈ xs.take n, p x = true) ↔ min n xs.length ≤ (xs.takeWhile p).length := by
  induction xs generalizing n with
  | nil => simp
  | cons x xs ih =>
      cases n with
      | zero => simp
      | succ n =>
          rw [List.take_succ_cons, List.forall_mem_cons, ih n]
          by_cases here : p x = true
          · rw [List.takeWhile_cons_of_pos here, List.length_cons, List.length_cons,
              Nat.add_min_add_right, Nat.add_le_add_iff_right]
            exact and_iff_right here
          · rw [List.takeWhile_cons_of_neg here]
            simp [here]

def trailing (rom : List UInt8) : Nat := (rom.reverse.takeWhile fun byte => byte = 0).length

theorem trailing_le (rom : List UInt8) : trailing rom ≤ rom.length := by
  have := (List.takeWhile_prefix (p := fun byte : UInt8 => decide (byte = 0))
    (l := rom.reverse)).length_le
  rwa [List.length_reverse] at this

theorem zeroFrom_iff (rom : List UInt8) (i : Nat) :
    ZeroFrom rom i ↔ rom.length ≤ i + trailing rom := by
  have tail : rom.drop i = (rom.reverse.take (rom.length - i)).reverse := by
    rw [List.take_reverse, List.reverse_reverse]
    by_cases inside : i ≤ rom.length
    · rw [Nat.sub_sub_self inside]
    · rw [List.drop_eq_nil_of_le (by omega), List.drop_eq_nil_of_le (by omega)]
  have all := take_all_iff (fun byte : UInt8 => decide (byte = 0)) rom.reverse (rom.length - i)
  simp only [decide_eq_true_eq, List.length_reverse] at all
  rw [ZeroFrom, tail]
  simp only [List.mem_reverse]
  rw [all, trailing]
  omega

theorem openBusStart_eq (rom : List UInt8) :
    openBusStart rom = if trailing rom = rom.length then rom.length
      else if 0x4000 ≤ trailing rom then rom.length - trailing rom else rom.length := rfl

theorem longTail_iff (rom : List UInt8) : LongTail rom ↔ 0x4000 ≤ trailing rom := by
  have bound := trailing_le rom
  rw [LongTail, zeroFrom_iff]
  omega

theorem zeroFrom_of_padded {rom : List UInt8} {i : Nat} (padded : Padded rom i) :
    ZeroFrom rom i ∧ LongTail rom := by
  obtain ⟨bank, low, whole, zeroes⟩ := padded
  rw [zeroFrom_iff] at zeroes ⊢
  rw [longTail_iff]
  omega

/-- Where the code begins to read open bus. -/
theorem openBusStart_le_iff {rom : List UInt8} {i : Nat} (inside : i < rom.length) :
    openBusStart rom ≤ i ↔ LongTail rom ∧ ZeroFrom rom i ∧ ¬ ZeroFrom rom 0 := by
  have bound := trailing_le rom
  rw [openBusStart_eq, longTail_iff, zeroFrom_iff, zeroFrom_iff]
  by_cases blank : trailing rom = rom.length
  · rw [if_pos blank]
    omega
  · rw [if_neg blank]
    by_cases long : 0x4000 ≤ trailing rom
    · rw [if_pos long]
      omega
    · rw [if_neg long]
      omega

theorem zero_byte {rom : List UInt8} {i : Nat} (zeroes : ZeroFrom rom i) (inside : i < rom.length) :
    rom[i]? = some 0 := by
  have first : (rom.drop i)[0]? = some rom[i] := by
    rw [List.getElem?_drop, Nat.add_zero, List.getElem?_eq_getElem inside]
  rw [List.getElem?_eq_getElem inside, zeroes rom[i] (List.mem_of_getElem? first)]

/-- The byte at an index is the right one exactly where `RightByte` says. -/
theorem readRom_right_iff {c : Cartridge} (start : c.romOpenBusStart = openBusStart c.rom)
    (i : Nat) : c.readRom i = windowByte c.rom i ↔ RightByte c.rom i := by
  rw [Cartridge.readRom, windowByte, RightByte, start]
  by_cases inside : i < c.rom.length
  · have not_past : ¬ c.rom.length ≤ i := by omega
    have opens := openBusStart_le_iff inside
    by_cases padding : LongTail c.rom ∧ ZeroFrom c.rom i
    · obtain ⟨long, zeroes⟩ := padding
      have differ : ¬ (0 : UInt8) = 0xFF := by decide
      rw [zero_byte zeroes inside, Option.getD_some]
      by_cases blank : ZeroFrom c.rom 0
      · have whole : Padded c.rom i := by
          refine ⟨0, Nat.zero_le _, ?_, ?_⟩
          · have := long.1
            omega
          · rwa [Nat.zero_mul]
        rw [if_neg fun open_bus => (opens.mp open_bus).2.2 blank, if_pos (Or.inr whole)]
        exact iff_of_false differ fun right => (right inside long zeroes).2 blank
      · rw [if_pos (opens.mpr ⟨long, zeroes, blank⟩)]
        by_cases padded : Padded c.rom i
        · rw [if_pos (Or.inr padded)]
          exact iff_of_true rfl fun _ _ _ => ⟨padded, blank⟩
        · rw [if_neg (not_or.mpr ⟨not_past, padded⟩)]
          exact iff_of_false (Ne.symm differ) fun right => padded (right inside long zeroes).1
    · -- no padding, and the code opens no bus either
      have unpadded : ¬ Padded c.rom i := fun padded =>
        padding (zeroFrom_of_padded padded).symm
      have not_open : ¬ openBusStart c.rom ≤ i := fun open_bus =>
        padding ⟨(opens.mp open_bus).1, (opens.mp open_bus).2.1⟩
      rw [if_neg not_open, if_neg (not_or.mpr ⟨not_past, unpadded⟩)]
      exact iff_of_true rfl fun _ long zeroes => absurd ⟨long, zeroes⟩ padding
  · have past : c.rom.length ≤ i := Nat.le_of_not_lt inside
    rw [List.getElem?_eq_none past, Option.getD_none, ite_self, ite_self]
    exact iff_of_true rfl fun inside' => absurd inside' inside

/-! ## The cartridge follows the registers -/

structure RomFollows (c : Cartridge) (r : RomRegisters) : Prop where
  low : c.mbc ≠ .mbc5 → c.romBankLow.toNat = max 1 r.bank
  nine : c.mbc = .mbc5 → c.mbc5RomBank.toNat = r.bank
  upper : c.bankHigh.toNat = r.upper
  mode : c.mbc1Mode.toNat = r.mode
  small : c.mbc ≠ .mbc5 → r.bank < 128
  five : c.mbc = .mbc1 → r.bank < 32
  narrow : c.mbc = .mbc5 → r.bank < 512
  plain : c.mbc = .romOnly → r.bank = 1
  two : r.upper < 4
  one : r.mode < 2

structure SameRom (c d : Cartridge) : Prop where
  rom : d.rom = c.rom
  start : d.romOpenBusStart = c.romOpenBusStart
  mbc : d.mbc = c.mbc

theorem SameRom.trans {c d e : Cartridge} (first : SameRom c d) (second : SameRom d e) :
    SameRom c e :=
  ⟨second.rom.trans first.rom, second.start.trans first.start, second.mbc.trans first.mbc⟩

theorem write_sameRom (c : Cartridge) (address : UInt16) (value : UInt8) :
    SameRom c (c.write address value) := by
  have ram : ∀ index, SameRom c (c.writeRam index value) := by
    intro index
    unfold Cartridge.writeRam
    split
    · exact ⟨rfl, rfl, rfl⟩
    · split <;> exact ⟨rfl, rfl, rfl⟩
  unfold Cartridge.write
  repeat' split
  all_goals first
    | exact ram _
    | exact ⟨rfl, rfl, rfl⟩

theorem after_sameRom (c : Cartridge) (ops : List BusOp) : SameRom c (c.after ops) := by
  induction ops generalizing c with
  | nil => exact ⟨rfl, rfl, rfl⟩
  | cons op ops ih =>
      refine SameRom.trans ?_ (ih (c.step op))
      cases op with
      | read address => exact ⟨rfl, rfl, rfl⟩
      | write address value => exact write_sameRom c address value

section Follows

variable {c : Cartridge} {r : RomRegisters}

theorem RomFollows.of_same (follows : RomFollows c r) {d : Cartridge} (mbc : d.mbc = c.mbc)
    (low : d.romBankLow = c.romBankLow) (nine : d.mbc5RomBank = c.mbc5RomBank)
    (upper : d.bankHigh = c.bankHigh) (mode : d.mbc1Mode = c.mbc1Mode) : RomFollows d r := by
  refine ⟨?_, ?_, upper ▸ follows.upper, mode ▸ follows.mode, mbc ▸ follows.small,
    mbc ▸ follows.five, mbc ▸ follows.narrow, mbc ▸ follows.plain, follows.two, follows.one⟩
  · rw [mbc, low]
    exact follows.low
  · rw [mbc, nine]
    exact follows.nine

theorem writeRam_romFollows (follows : RomFollows c r) (index : Nat) (value : UInt8) :
    RomFollows (c.writeRam index value) r := by
  unfold Cartridge.writeRam
  split
  · exact follows
  · split
    · exact follows.of_same rfl rfl rfl rfl rfl
    · exact follows

theorem setRomBankLow_follows (follows : RomFollows c r) (not_mbc5 : c.mbc ≠ .mbc5)
    (mapper : c.mbc ≠ .romOnly) {bank : UInt8} {n : Nat} (same : bank.toNat = n)
    (small : n < 128) (five : c.mbc = .mbc1 → n < 32) :
    RomFollows (c.setRomBankLow bank) { r with bank := n } := by
  refine ⟨fun _ => ?_, fun mbc5 => absurd mbc5 not_mbc5, follows.upper, follows.mode,
    fun _ => small, five, fun mbc5 => absurd mbc5 not_mbc5, fun plain => absurd plain mapper,
    follows.two, follows.one⟩
  change (if bank = 0 then (1 : UInt8) else bank).toNat = max 1 n
  by_cases zero : bank = 0
  · rw [if_pos zero]
    subst zero
    subst same
    rfl
  · rw [if_neg zero, same]
    have : n ≠ 0 := by
      rintro rfl
      exact zero (UInt8.toNat_inj.mp same)
    omega

theorem setMbc5RomBank_follows (follows : RomFollows c r) (mbc5 : c.mbc = .mbc5) {bank : UInt16}
    {n : Nat} (same : bank.toNat = n) (narrow : n < 512) :
    RomFollows (c.setMbc5RomBank bank) { r with bank := n } := by
  have kept : (c.setMbc5RomBank bank).mbc = .mbc5 := mbc5
  refine ⟨fun other => absurd kept other, fun _ => same, follows.upper, follows.mode,
    fun other => absurd kept other, ?_, fun _ => narrow, ?_, follows.two, follows.one⟩
  · rw [kept]
    intro mbc1
    cases mbc1
  · rw [kept]
    intro plain
    cases plain

theorem setBankHigh_follows (follows : RomFollows c r) {bank : UInt8} {n : Nat}
    (same : bank.toNat = n) (two : n < 4) :
    RomFollows (c.setBankHigh bank) { r with upper := n } :=
  ⟨follows.low, follows.nine, same, follows.mode, follows.small, follows.five, follows.narrow,
    follows.plain, two, follows.one⟩

theorem setMbc1Mode_romFollows (follows : RomFollows c r) {mode : UInt8} {n : Nat}
    (same : mode.toNat = n) (one : n < 2) :
    RomFollows (c.setMbc1Mode mode) { r with mode := n } :=
  ⟨follows.low, follows.nine, follows.upper, same, follows.small, follows.five, follows.narrow,
    follows.plain, follows.two, one⟩

/-- The lower eight of the nine bits are written, and the ninth stays. -/
theorem mbc5_low_byte (bank : UInt16) (value : UInt8) (narrow : bank.toNat < 512) :
    ((bank &&& (0x100 : UInt16)) ||| value.toUInt16).toNat = bank.toNat / 256 * 256 + value.toNat := by
  have byte : value.toNat < 2 ^ 8 := value.toNat_lt
  have ninth : bank.toNat &&& 2 ^ 8 = 2 ^ 8 * (bank.toNat / 256) := by
    rw [Nat.and_two_pow, Nat.testBit_eq_decide_div_mod_eq]
    have bit : bank.toNat / 256 = 0 ∨ bank.toNat / 256 = 1 := by omega
    rcases bit with zero | one
    · simp [zero]
    · simp [one]
  rw [UInt16.toNat_or, UInt16.toNat_and, UInt8.toNat_toUInt16]
  change bank.toNat &&& 2 ^ 8 ||| value.toNat = _
  rw [ninth, ← Nat.two_pow_add_eq_or_of_lt byte]
  omega

theorem mbc5_high_bit (bank : UInt16) (value : UInt8) :
    ((bank &&& (0x0FF : UInt16)) ||| ((value &&& 1).toUInt16 <<< 8)).toNat
      = value.toNat % 2 * 256 + bank.toNat % 256 := by
  have low : bank.toNat % 2 ^ 8 < 2 ^ 8 := Nat.mod_lt _ (by decide)
  have bit : (value &&& 1).toNat = value.toNat % 2 := toNat_and_mask value 1 1 rfl
  have shifted : ((value &&& 1).toUInt16 <<< 8).toNat = 2 ^ 8 * (value.toNat % 2) := by
    rw [UInt16.toNat_shiftLeft, UInt8.toNat_toUInt16, bit]
    change (value.toNat % 2) <<< 8 % 65536 = _
    rw [Nat.shiftLeft_eq]
    omega
  rw [UInt16.toNat_or, UInt16.toNat_and, shifted]
  change bank.toNat &&& (2 ^ 8 - 1) ||| _ = _
  rw [Nat.and_two_pow_sub_one_eq_mod, Nat.or_comm, ← Nat.two_pow_add_eq_or_of_lt low]
  omega

theorem write_romFollows (follows : RomFollows c r) (address : UInt16) (value : UInt8) :
    RomFollows (c.write address value) (r.write c.mbc address value) := by
  unfold Cartridge.write RomRegisters.write
  by_cases plain : c.mbc = .romOnly
  · rw [if_pos plain, if_pos plain]
    split
    · exact writeRam_romFollows follows _ value
    · exact follows
  rw [if_neg plain, if_neg plain]
  by_cases enable : address < 0x2000
  · rw [if_pos enable, if_pos enable]
    exact follows.of_same rfl rfl rfl rfl rfl
  rw [if_neg enable, if_neg enable]
  by_cases rom_bank : address < 0x4000
  · rw [if_pos rom_bank, if_pos rom_bank]
    have five_bits : (value &&& 0x1F).toNat = value.toNat % 32 := toNat_and_mask value 5 0x1F rfl
    have seven_bits : (value &&& 0x7F).toNat = value.toNat % 128 := toNat_and_mask value 7 0x7F rfl
    cases mapper : c.mbc with
    | mbc1 =>
        refine setRomBankLow_follows follows ?_ plain five_bits (by omega) fun _ => by omega
        rw [mapper]
        decide
    | mbc5 =>
        have nine := follows.nine mapper
        have narrow := follows.narrow mapper
        have byte := value.toNat_lt
        dsimp only
        by_cases low : address < 0x3000
        · rw [if_pos low, if_pos low]
          refine setMbc5RomBank_follows follows mapper ?_ (by omega)
          rw [mbc5_low_byte _ _ (by omega), nine]
        · rw [if_neg low, if_neg low]
          refine setMbc5RomBank_follows follows mapper ?_ (by omega)
          rw [mbc5_high_bit, nine]
    | romOnly => exact absurd mapper plain
    | mbc3 | unsupported =>
        refine setRomBankLow_follows follows ?_ plain seven_bits (by omega) ?_
        · rw [mapper]
          decide
        · rw [mapper]
          intro mbc1
          cases mbc1
  rw [if_neg rom_bank, if_neg rom_bank]
  by_cases ram_bank : address < 0x6000
  · rw [if_pos ram_bank, if_pos ram_bank]
    have two_bits : (value &&& 0x03).toNat = value.toNat % 4 := toNat_and_mask value 2 0x03 rfl
    cases mapper : c.mbc with
    | mbc1 =>
        rw [if_pos rfl]
        have high := setBankHigh_follows follows two_bits (by omega)
        exact high.of_same rfl rfl rfl rfl rfl
    | mbc5 =>
        rw [if_neg (fun same : Mbc.mbc5 = .mbc1 => by cases same)]
        exact follows.of_same rfl rfl rfl rfl rfl
    | romOnly => exact absurd mapper plain
    | mbc3 | unsupported =>
        simp only [reduceCtorEq, if_false]
        split
        · exact follows.of_same rfl rfl rfl rfl rfl
        · exact follows
  rw [if_neg ram_bank, if_neg ram_bank]
  by_cases mode : address < 0x8000
  · rw [if_pos mode, if_pos mode]
    have one_bit : (value &&& 1).toNat = value.toNat % 2 := toNat_and_mask value 1 1 rfl
    by_cases mapper : c.mbc = .mbc1
    · rw [if_pos mapper]
      simp only [mapper]
      exact setMbc1Mode_romFollows follows one_bit (by omega)
    · rw [if_neg mapper]
      split
      · contradiction
      · exact follows
  · rw [if_neg mode, if_neg mode]
    split
    · exact writeRam_romFollows follows _ value
    · exact follows

theorem after_romFollows (follows : RomFollows c r) (ops : List BusOp) :
    RomFollows (c.after ops) (ops.foldl (RomRegisters.step c.mbc) r) := by
  induction ops generalizing c r with
  | nil => exact follows
  | cons op ops ih =>
      have first : RomFollows (c.step op) (r.step c.mbc op) := by
        cases op with
        | read address => exact follows
        | write address value => exact write_romFollows follows address value
      have later := ih first
      have same : (c.step op).mbc = c.mbc := (after_sameRom c [op]).mbc
      rw [same] at later
      exact later

end Follows

/-! ## The window -/

def Cartridge.windowBank (c : Cartridge) (address : UInt16) : Nat × Nat :=
  if address < 0x4000 then
    (if c.mbc = .mbc1 ∧ c.mbc1Mode ≠ 0 then (c.bankHigh &&& 0x03).toNat * 32 else 0, address.toNat)
  else (c.selectedSwitchableRomBank, address.toNat - 0x4000)

def Cartridge.subscript (c : Cartridge) (address : UInt16) : Option Nat :=
  let index := c.romIndex (c.windowBank address).1 (c.windowBank address).2
  if c.romOpenBusStart ≤ index then none
  else if index < c.rom.length then some index
  else none

section Window

variable {c : Cartridge} {r : RomRegisters} {address : UInt16}

theorem read_window (c : Cartridge) (window : address < 0x8000) :
    c.read address = c.readRom (c.romIndex (c.windowBank address).1 (c.windowBank address).2) := by
  unfold Cartridge.read Cartridge.windowBank
  by_cases low : address < 0x4000
  · rw [if_pos low, if_pos low]
  · rw [if_neg low, if_neg low, if_pos window]

theorem read_subscript (c : Cartridge) (window : address < 0x8000) :
    c.read address = ((c.subscript address).bind fun i => c.rom[i]?).getD 0xFF := by
  rw [read_window c window, Cartridge.readRom, Cartridge.subscript]
  generalize c.romIndex (c.windowBank address).1 (c.windowBank address).2 = index
  by_cases opens : c.romOpenBusStart ≤ index
  · rw [if_pos opens, if_pos opens]
    rfl
  · rw [if_neg opens, if_neg opens]
    by_cases inside : index < c.rom.length
    · rw [if_pos inside]
      rfl
    · rw [if_neg inside, List.getElem?_eq_none (Nat.le_of_not_lt inside)]
      rfl

theorem subscript_lt {i : Nat} (subscript : c.subscript address = some i) : i < c.rom.length := by
  unfold Cartridge.subscript at subscript
  dsimp only at subscript
  split at subscript
  · contradiction
  · split at subscript
    · rename_i inside
      rwa [Option.some.inj subscript] at inside
    · contradiction

theorem switchable_eq (follows : RomFollows c r) (supported : c.mbc ≠ .unsupported) :
    c.selectedSwitchableRomBank = r.switchable c.mbc := by
  have two_bits : (c.bankHigh &&& 0x03).toNat = c.bankHigh.toNat % 4 :=
    toNat_and_mask c.bankHigh 2 0x03 rfl
  have five_bits : (c.romBankLow &&& 0x1F).toNat = c.romBankLow.toNat % 32 :=
    toNat_and_mask c.romBankLow 5 0x1F rfl
  have seven_bits : (c.romBankLow &&& 0x7F).toNat = c.romBankLow.toNat % 128 :=
    toNat_and_mask c.romBankLow 7 0x7F rfl
  have two := follows.two
  unfold Cartridge.selectedSwitchableRomBank RomRegisters.switchable
  cases mapper : c.mbc with
  | mbc5 =>
      rw [if_pos rfl]
      exact follows.nine mapper
  | mbc1 =>
      have low := follows.low (by rw [mapper]; decide)
      have five := follows.five mapper
      rw [if_neg (by decide), if_pos rfl, five_bits, two_bits, low, follows.upper]
      dsimp only
      rw [if_neg (by omega)]
      omega
  | mbc3 =>
      have low := follows.low (by rw [mapper]; decide)
      have small := follows.small (by rw [mapper]; decide)
      rw [if_neg (by decide), if_neg (by decide), seven_bits, low]
      dsimp only
      rw [if_neg (by omega)]
      omega
  | romOnly =>
      have low := follows.low (by rw [mapper]; decide)
      rw [follows.plain mapper] at low
      rw [if_neg (by decide), if_neg (by decide), seven_bits, low]
      rfl
  | unsupported => exact absurd mapper supported

theorem fixed_eq (follows : RomFollows c r) :
    (if c.mbc = .mbc1 ∧ c.mbc1Mode ≠ 0 then (c.bankHigh &&& 0x03).toNat * 32 else 0)
      = r.fixed c.mbc := by
  have two_bits : (c.bankHigh &&& 0x03).toNat = c.bankHigh.toNat % 4 :=
    toNat_and_mask c.bankHigh 2 0x03 rfl
  have two := follows.two
  have one := follows.one
  have same_mode : c.mbc1Mode ≠ 0 ↔ r.mode = 1 := by
    rw [ne_eq, ← UInt8.toNat_inj, follows.mode]
    change ¬ r.mode = 0 ↔ r.mode = 1
    omega
  rw [RomRegisters.fixed, two_bits, follows.upper, Nat.mod_eq_of_lt two]
  simp only [same_mode]

theorem romIndex_eq (follows : RomFollows c r) (supported : c.mbc ≠ .unsupported)
    (some_rom : c.rom ≠ []) (window : address < 0x8000) :
    c.romIndex (c.windowBank address).1 (c.windowBank address).2
      = windowIndex c.mbc r c.rom address := by
  have high := UInt16.lt_iff_toNat_lt.mp window
  change address.toNat < 0x8000 at high
  rw [Cartridge.romIndex, if_neg some_rom, windowIndex, romBanks, Cartridge.windowBank]
  by_cases low : address < 0x4000
  · have low_nat := UInt16.lt_iff_toNat_lt.mp low
    change address.toNat < 0x4000 at low_nat
    rw [if_pos low, if_pos low, ← fixed_eq follows, Nat.mod_eq_of_lt low_nat]
  · have low_nat := mt UInt16.lt_iff_toNat_lt.mpr low
    change ¬ address.toNat < 0x4000 at low_nat
    have in_bank : address.toNat - 0x4000 = address.toNat % 0x4000 := by omega
    rw [if_neg low, if_neg low, switchable_eq follows supported, in_bank]

end Window

theorem load_romFollows {rom save : List UInt8} {c : Cartridge}
    (loaded : Cartridge.load rom save = some c) :
    RomFollows c RomRegisters.start ∧ c.mbc ≠ .unsupported ∧ c.rom = rom ∧ rom ≠ [] ∧
      c.romOpenBusStart = openBusStart rom := by
  unfold Cartridge.load at loaded
  split at loaded
  · contradiction
  · rename_i long
    split at loaded
    · contradiction
    · rename_i supported
      obtain rfl := Option.some.inj loaded
      refine ⟨?_, supported, rfl, ?_, rfl⟩
      · exact ⟨fun _ => rfl, fun _ => rfl, rfl, rfl, fun _ => by decide, fun _ => by decide,
          fun _ => by decide, fun _ => rfl, by decide, by decide⟩
      · intro empty
        rw [empty] at long
        exact long (by decide)

theorem after_right_iff {rom save : List UInt8} {c : Cartridge}
    (loaded : Cartridge.load rom save = some c) (ops : List BusOp) {address : UInt16}
    (window : address < 0x8000) :
    (c.after ops).read address
        = windowByte rom (windowIndex c.mbc (RomRegisters.after c.mbc ops) rom address)
      ↔ RightByte rom (windowIndex c.mbc (RomRegisters.after c.mbc ops) rom address) := by
  obtain ⟨start, supported, same_rom, some_rom, open_bus⟩ := load_romFollows loaded
  have follows := after_romFollows start ops
  have same := after_sameRom c ops
  have index : (c.after ops).romIndex ((c.after ops).windowBank address).1
      ((c.after ops).windowBank address).2
        = windowIndex c.mbc (RomRegisters.after c.mbc ops) rom address := by
    rw [romIndex_eq follows (same.mbc ▸ supported) (same.rom ▸ same_rom ▸ some_rom) window,
      same.mbc, same.rom, same_rom]
    rfl
  have right := readRom_right_iff (c := c.after ops)
    (by rw [same.start, same.rom, same_rom, open_bus])
    (windowIndex c.mbc (RomRegisters.after c.mbc ops) rom address)
  rw [same.rom, same_rom] at right
  rw [read_window _ window, index]
  exact right

/-- For every image that loads and every run on the bus: a read of the window
subscripts the image only inside it, and shows the byte that the registers
select exactly where `RightByte` says. -/
theorem rom_window_iff {rom save : List UInt8} {c : Cartridge}
    (loaded : Cartridge.load rom save = some c) (ops : List BusOp) (address : UInt16)
    (window : address < 0x8000) :
    ((c.after ops).read address
          = windowByte rom (windowIndex c.mbc (RomRegisters.after c.mbc ops) rom address) ∧
        ∀ i, (c.after ops).subscript address = some i → i < rom.length)
      ↔ RightByte rom (windowIndex c.mbc (RomRegisters.after c.mbc ops) rom address) := by
  obtain ⟨-, -, same_rom, -, -⟩ := load_romFollows loaded
  have inside : ∀ i, (c.after ops).subscript address = some i → i < rom.length := by
    intro i subscript
    have below := subscript_lt subscript
    rwa [(after_sameRom c ops).rom, same_rom] at below
  rw [after_right_iff loaded ops window]
  exact and_iff_left inside

/-! ## Two images -/

def paddedRom : List UInt8 :=
  List.replicate 0x147 1 ++ 0x00 :: 1 :: 0x00 :: (List.replicate 0x200 1 ++ List.replicate 0x7CB6 0)

theorem paddedRom_split :
    paddedRom = headerRom 0x00 0x00 ++ List.replicate 0x7CB6 0 := by
  simp only [paddedRom, headerRom, List.append_assoc, List.cons_append]

theorem headerRom_length (type ramCode : UInt8) : (headerRom type ramCode).length = 0x34A := by
  simp only [headerRom, List.length_append, List.length_cons, List.length_replicate]

theorem paddedRom_length : paddedRom.length = 0x8000 := by
  rw [paddedRom_split, List.length_append, headerRom_length, List.length_replicate]

/-- The zeroes of the first bank read as open bus too. -/
theorem programmed_zero_lost :
    ¬ ∀ (rom save : List UInt8) (c : Cartridge), Cartridge.load rom save = some c →
      ∀ (ops : List BusOp) (address : UInt16), address < 0x8000 →
        (c.after ops).read address
            = windowByte rom (windowIndex c.mbc (RomRegisters.after c.mbc ops) rom address) ∧
          ∀ i, (c.after ops).subscript address = some i → i < rom.length := by
  intro always
  obtain ⟨c, loaded, mbc, -⟩ : ∃ c, Cartridge.load paddedRom [] = some c ∧
      c.mbc = mbcOfType 0x00 ∧ c.ram.length = headerRamSize 0x00 := by
    refine load_header List.length_replicate ?_ 0x00 (by decide)
    rw [List.length_append, List.length_replicate]
    omega
  have right := (after_right_iff loaded [] (by decide)).mp (always _ _ c loaded [] 0x34A (by decide)).1
  have index : windowIndex c.mbc (RomRegisters.after c.mbc []) paddedRom 0x34A = 0x34A := by
    have plain : mbcOfType 0x00 = .romOnly := by decide
    rw [mbc, plain, windowIndex, romBanks, paddedRom_length]
    decide
  have zeroes : ∀ i, 0x34A ≤ i → ZeroFrom paddedRom i := by
    intro i past byte later
    rw [paddedRom_split, List.drop_append, headerRom_length, List.drop_eq_nil_of_le
      (by rw [headerRom_length]; exact past), List.nil_append] at later
    exact List.eq_of_mem_replicate (List.mem_of_mem_drop later)
  rw [index] at right
  have long : LongTail paddedRom := by
    rw [LongTail, paddedRom_length]
    exact ⟨by decide, zeroes _ (by decide)⟩
  obtain ⟨⟨bank, low, -, blank⟩, programmed⟩ :=
    right (by rw [paddedRom_length]; decide) long (zeroes _ (Nat.le_refl _))
  obtain rfl : bank = 0 := by omega
  rw [Nat.zero_mul] at blank
  exact programmed blank

theorem short_image_right :
    ∃ c, Cartridge.load (headerRom 0x01 0x00) [] = some c ∧
      (c.after [.write 0x2000 5]).read 0x4000
        = windowByte (headerRom 0x01 0x00)
            (windowIndex c.mbc (RomRegisters.after c.mbc [.write 0x2000 5]) (headerRom 0x01 0x00)
              0x4000) := by
  obtain ⟨c, loaded, -, -⟩ := headerRom_load 0x01 0x00 (by decide)
  refine ⟨c, loaded, ((rom_window_iff loaded [.write 0x2000 5] 0x4000 (by decide)).mpr ?_).1⟩
  intro _ long
  have size := long.1
  rw [headerRom_length] at size
  omega

end N64ModernRuntime.Librecomp.GbCart
