import N64ModernRuntime.Lib.SwappedWords
import N64ModernRuntime.Librecomp.LoadMods
import N64ModernRuntime.Librecomp.MipsInterp

/-!
# mods.cpp: the sections of code mods in RDRAM

`init_mod_code` copies the sections of a mod to where `load_mods` has come to,
clears what is bss and then adds to the words of the relocations.
-/

set_option autoImplicit false

namespace N64ModernRuntime.Librecomp

open SwappedWords FailingSteps

/-! ## The memory macros -/

/-- `(gpr)` of an `int32_t` -/
def gprOf (address : UInt32) : Gpr := sx32 address.toBitVec

/-- Where in `rdram` an address lies.  The base `0xFFFFFFFF80000000` is left out.  `recomp.h`
is not here: by the comments on it `w` is 64, or 30 with a mask of `0x3FFFFFFF`. -/
def place (w : Nat) (addr : Gpr) : BitVec w := addr.setWidth w

section Macros

variable {w : Nat} (rdram : HostBytes w)

/-- `MEM_B(offset, reg) = v` -/
def setMemB (offset : Nat) (reg : Gpr) (v : BitVec 8) : HostBytes w :=
  rdram.setByte (place w (reg + BitVec.ofNat 64 offset)) v

/-- `MEM_W(0, reg)` -/
def memW (reg : Gpr) : BitVec 32 := rdram.word (place w reg)

def setMemW (reg : Gpr) (v : BitVec 32) : HostBytes w := rdram.setWord (place w reg) v

end Macros

/-! ## init_mod_code -/

/-- A mod once its symbols have been read, with its `binary_data`. -/
structure ModImage where
  binary : Nat → BitVec 8
  sections : List ModSection

structure PlacedSection extends ModSection where
  address : UInt32
  deriving DecidableEq

structure LaidMod where
  binary : Nat → BitVec 8
  placed : List PlacedSection

section InitModCode

variable {w : Nat}

def copySection (binary : Nat → BitVec 8) (address : UInt32) (section_ : ModSection)
    (rdram : HostBytes w) : HostBytes w :=
  (List.range section_.size.toNat).foldl
    (fun rdram i => setMemB rdram i (gprOf address) (binary (section_.romAddr.toNat + i))) rdram

def clearBss (address : UInt32) (section_ : ModSection) (rdram : HostBytes w) : HostBytes w :=
  (List.range section_.bssSize.toNat).foldl
    (fun rdram i => setMemB rdram i (gprOf address) 0) rdram

/-- `cur_section_addr` after a section that is not fixed. -/
def nextSectionAddr (address : UInt32) (section_ : ModSection) : UInt32 :=
  ((address + section_.size + section_.bssSize + 15) &&& 0xFFFFFFF0) + 0x400

/-- The first loop, with the address that it comes to. -/
def placeSections (binary : Nat → BitVec 8) :
    UInt32 → HostBytes w → List ModSection → List PlacedSection × UInt32 × HostBytes w
  | address, rdram, [] => ([], address, rdram)
  | address, rdram, section_ :: rest =>
      if section_.fixedAddress then
        let placed := placeSections binary address rdram rest
        (⟨section_, section_.ramAddr⟩ :: placed.1, placed.2)
      else
        let rdram := clearBss (address + section_.size) section_
          (copySection binary address section_ rdram)
        let placed := placeSections binary (nextSectionAddr address section_) rdram rest
        (⟨section_, address⟩ :: placed.1, placed.2)

/-- A relocation of the section `here`. -/
def fixReloc (placed : List PlacedSection) (here : PlacedSection) (rdram : HostBytes w)
    (reloc : Reloc) : Except CodeError (HostBytes w) :=
  if reloc.type = .mips32 ∧ reloc.referenceSymbol = false then
    match placed[reloc.targetSection]? with
    | none => .error ⟨.failedToParseSyms, ""⟩
    | some target =>
        let relocWordAddr := gprOf (reloc.address - here.ramAddr + here.address)
        let relocWord := memW rdram relocWordAddr
        .ok (setMemW rdram relocWordAddr (relocWord + (target.address - target.ramAddr).toBitVec))
  else .ok rdram

/-- The second loop -/
def fixRelocs (placed : List PlacedSection) (rdram : HostBytes w) :
    Except CodeError (HostBytes w) :=
  placed.foldlM (fun rdram here => here.relocs.foldlM (fixReloc placed here) rdram) rdram

/-- `init_mod_code` from the sections on, with the address that it comes to. -/
def initSections (address : UInt32) (rdram : HostBytes w) (image : ModImage) :
    Except CodeError (LaidMod × UInt32 × HostBytes w) := do
  let placed := placeSections image.binary address rdram image.sections
  let rdram ← fixRelocs placed.1 placed.2.2
  return (⟨image.binary, placed.1⟩, placed.2.1, rdram)

/-- The first pass of `load_mods` over the code mods, as far as it goes without an error. -/
def layMods : UInt32 → HostBytes w → List ModImage →
    Except CodeError (List LaidMod × UInt32 × HostBytes w)
  | address, rdram, [] => .ok ([], address, rdram)
  | address, rdram, image :: rest => do
      let (laid, next, rdram) ← initSections address rdram image
      let (others, last, rdram) ← layMods next rdram rest
      return (laid :: others, last, rdram)

end InitModCode

/-! ## Addresses as the numbers they are -/

def signed (address : UInt32) : Int := address.toBitVec.toInt

theorem signed_eq {a : UInt32} {n : Int} (residue : n % 2 ^ 32 = a.toNat) (above : -2 ^ 31 ≤ n)
    (below : n < 2 ^ 31) : signed a = n := by
  have cond := BitVec.toInt_eq_toNat_cond a.toBitVec
  rw [UInt32.toNat_toBitVec] at cond
  rw [signed, cond]
  split
  · omega
  · omega

theorem signed_residue (a : UInt32) : signed a % 2 ^ 32 = a.toNat := by
  have cond := BitVec.toInt_eq_toNat_cond a.toBitVec
  have bound := a.toNat_lt
  rw [UInt32.toNat_toBitVec] at cond
  rw [signed, cond]
  split
  · omega
  · omega

theorem signed_bounds (a : UInt32) : -2 ^ 31 ≤ signed a ∧ signed a < 2 ^ 31 :=
  ⟨BitVec.le_toInt a.toBitVec, BitVec.toInt_lt⟩

theorem signed_add {a b : UInt32} (below : signed a + b.toNat < 2 ^ 31) :
    signed (a + b) = signed a + b.toNat := by
  have residue := signed_residue a
  have bounds := signed_bounds a
  refine signed_eq ?_ (by omega) below
  rw [UInt32.toNat_add]
  omega

theorem toNat_and_fifteen (a : UInt32) : (a &&& 0xFFFFFFF0).toNat = a.toNat / 16 * 16 := by
  have bound := a.toNat_lt
  have mask : (0xFFFFFFF0 : UInt32).toNat = 0xFFFFFFF0 := rfl
  rw [UInt32.toNat_and, mask]
  have high : (a.toNat &&& 0xFFFFFFF0) / 2 ^ 4 = a.toNat / 2 ^ 4 := by
    rw [Nat.and_div_two_pow]
    exact (Nat.and_two_pow_sub_one_eq_mod _ 28).trans (Nat.mod_eq_of_lt (by omega))
  have low : (a.toNat &&& 0xFFFFFFF0) % 2 ^ 4 = 0 := by
    rw [Nat.and_mod_two_pow]
    exact Nat.and_zero _
  omega

/-- The address after a section, where nothing overflows. -/
def exactNext (n : Int) (section_ : ModSection) : Int :=
  (n + section_.size.toNat + section_.bssSize.toNat + 15) / 16 * 16 + 0x400

def exactEnd : Int → List ModSection → Int
  | n, [] => n
  | n, section_ :: rest =>
      exactEnd (if section_.fixedAddress then n else exactNext n section_) rest

theorem signed_next {a : UInt32} {section_ : ModSection}
    (below : exactNext (signed a) section_ < 2 ^ 31) :
    signed (nextSectionAddr a section_) = exactNext (signed a) section_ := by
  have residue := signed_residue a
  have bounds := signed_bounds a
  rw [exactNext] at below ⊢
  refine signed_eq ?_ (by omega) below
  rw [nextSectionAddr, UInt32.toNat_add, toNat_and_fifteen, UInt32.toNat_add, UInt32.toNat_add,
    UInt32.toNat_add]
  have fifteen : (15 : UInt32).toNat = 15 := rfl
  have gap : (0x400 : UInt32).toNat = 0x400 := rfl
  rw [fifteen, gap]
  omega

theorem exactNext_le (n : Int) (section_ : ModSection) :
    n + section_.size.toNat + section_.bssSize.toNat ≤ exactNext n section_ := by
  rw [exactNext]
  omega

theorem le_exactEnd (n : Int) (sections : List ModSection) : n ≤ exactEnd n sections := by
  induction sections generalizing n with
  | nil => exact Int.le_refl n
  | cons section_ rest ih =>
      rw [exactEnd]
      refine le_trans ?_ (ih _)
      split
      · exact Int.le_refl n
      · have moved := exactNext_le n section_
        omega

theorem exactEnd_append (n : Int) (front back : List ModSection) :
    exactEnd n (front ++ back) = exactEnd (exactEnd n front) back := by
  induction front generalizing n with
  | nil => rfl
  | cons section_ rest ih => exact ih _

/-! ## The bytes of the macros -/

section Macros

variable {w : Nat} (narrow : w ≤ 64)

include narrow

theorem place_gprOf (a : UInt32) (i : Nat) :
    place w (gprOf a + BitVec.ofNat 64 i) = BitVec.ofInt w (signed a + i) := by
  have whole : gprOf a = BitVec.ofInt 64 (signed a) := rfl
  rw [whole, ofInt_add_nat, place]
  generalize signed a + i = n
  have divides : ((2 ^ w : Nat) : Int) ∣ ((2 ^ 64 : Nat) : Int) :=
    Int.natCast_dvd_natCast.mpr (Nat.pow_dvd_pow 2 narrow)
  have positive := Int.emod_nonneg n (b := ((2 ^ 64 : Nat) : Int)) (by decide)
  rw [← BitVec.toNat_inj, BitVec.toNat_setWidth, BitVec.toNat_ofInt, BitVec.toNat_ofInt,
    ← Int.emod_emod_of_dvd n divides, ← Int.natCast_inj, Int.natCast_mod,
    Int.toNat_of_nonneg positive, Int.toNat_of_nonneg]
  exact Int.emod_nonneg _ (by exact_mod_cast (Nat.two_pow_pos w).ne')

theorem place_gprOf_self (a : UInt32) : place w (gprOf a) = BitVec.ofInt w (signed a) := by
  have here := place_gprOf narrow a 0
  rwa [BitVec.add_zero, Nat.cast_zero, Int.add_zero] at here

theorem copySection_eq (binary : Nat → BitVec 8) (address : UInt32) (section_ : ModSection)
    (rdram : HostBytes w) : copySection binary address section_ rdram =
      rdram.fill (signed address) section_.size.toNat
        fun i => binary (section_.romAddr.toNat + i) := by
  simp only [copySection, HostBytes.fill, setMemB, place_gprOf narrow]

theorem clearBss_eq (address : UInt32) (section_ : ModSection) (rdram : HostBytes w) :
    clearBss address section_ rdram =
      rdram.fill (signed address) section_.bssSize.toNat fun _ => 0 := by
  simp only [clearBss, HostBytes.fill, setMemB, place_gprOf narrow]

end Macros

/-! ## Where the sections come to lie -/

namespace PlacedSection

variable (p : PlacedSection)

def start : Int := signed p.address

def stop : Int := p.start + p.size.toNat + p.bssSize.toNat

/-- Its part of the binary, and zeros for its bss. -/
def imageByte (binary : Nat → BitVec 8) (n : Int) : BitVec 8 :=
  if n < p.start + p.size.toNat then binary (p.romAddr.toNat + (n - p.start).toNat) else 0

/-- The first section ends before the second one, if neither is fixed. -/
def Before (p q : PlacedSection) : Prop :=
  p.fixedAddress = true ∨ q.fixedAddress = true ∨ p.stop ≤ q.start

end PlacedSection

/-- What the first loop over sections does to the addresses from `lo` on. -/
structure SectionsPlaced {w : Nat} (binary : Nat → BitVec 8) (lo first last : Int)
    (placed : List PlacedSection) (rdram rdram' : HostBytes w) : Prop where
  each : ∀ p ∈ placed, p.fixedAddress = false → first ≤ p.start ∧ p.stop ≤ last ∧
    ∀ n, p.start ≤ n → n < p.stop → rdram'.byteAt n = p.imageByte binary n
  ordered : placed.Pairwise PlacedSection.Before
  frame : ∀ n, lo ≤ n → n < first → rdram'.byteAt n = rdram.byteAt n

section Placing

variable {w : Nat} (narrow : w ≤ 64) {lo : Int}

include narrow

theorem loadSection_bytes (binary : Nat → BitVec 8) {address : UInt32} {section_ : ModSection}
    (rdram : HostBytes w) (above : lo ≤ signed address)
    (inside : exactNext (signed address) section_ ≤ lo + 2 ^ w)
    (fits : exactNext (signed address) section_ < 2 ^ 31) {n : Int} (above' : lo ≤ n)
    (below' : n < lo + 2 ^ w) :
    (clearBss (address + section_.size) section_
        (copySection binary address section_ rdram)).byteAt n
      = if signed address ≤ n ∧ n < PlacedSection.stop ⟨section_, address⟩
          then PlacedSection.imageByte ⟨section_, address⟩ binary n else rdram.byteAt n := by
  have moved := exactNext_le (signed address) section_
  have bss : signed (address + section_.size) = signed address + section_.size.toNat :=
    signed_add (by omega)
  rw [copySection_eq narrow, clearBss_eq narrow, bss,
    HostBytes.byteAt_fill _ _ (by omega) (by omega) above' below',
    HostBytes.byteAt_fill _ _ above (by omega) above' below', PlacedSection.imageByte]
  change _ = if signed address ≤ n ∧
    n < signed address + section_.size.toNat + section_.bssSize.toNat then
      (if n < signed address + section_.size.toNat then
        binary (section_.romAddr.toNat + (n - signed address).toNat) else 0) else _
  by_cases before : n < signed address + section_.size.toNat
  · rw [if_neg (by omega), if_pos before]
    by_cases data : signed address ≤ n
    · rw [if_pos ⟨data, before⟩, if_pos (by omega)]
    · rw [if_neg (by omega), if_neg (by omega)]
  · rw [if_neg before]
    by_cases cleared : n < signed address + section_.size.toNat + section_.bssSize.toNat
    · rw [if_pos (by omega), if_pos (by omega)]
    · rw [if_neg (by omega), if_neg (by omega), if_neg (by omega)]

theorem placeSections_placed (binary : Nat → BitVec 8) (sections : List ModSection)
    {address : UInt32} (rdram : HostBytes w) (above : lo ≤ signed address)
    (inside : exactEnd (signed address) sections ≤ lo + 2 ^ w)
    (fits : exactEnd (signed address) sections < 2 ^ 31) :
    signed (placeSections binary address rdram sections).2.1
        = exactEnd (signed address) sections ∧
      SectionsPlaced binary lo (signed address) (exactEnd (signed address) sections)
        (placeSections binary address rdram sections).1 rdram
        (placeSections binary address rdram sections).2.2 := by
  induction sections generalizing address rdram with
  | nil =>
      exact ⟨rfl, fun _ mem => absurd mem List.not_mem_nil, List.Pairwise.nil, fun _ _ _ => rfl⟩
  | cons section_ rest ih =>
      rw [exactEnd] at inside fits ⊢
      rw [placeSections]
      cases fixed : section_.fixedAddress with
      | true =>
          rw [fixed, if_pos rfl] at inside fits
          rw [if_pos rfl, if_pos rfl]
          obtain ⟨next, each, ordered, frame⟩ := ih rdram above inside fits
          refine ⟨next, fun p mem loaded => ?_, ?_, frame⟩
          · rcases List.mem_cons.mp mem with rfl | mem
            · exact absurd (fixed.symm.trans loaded) (by decide)
            · exact each p mem loaded
          · exact List.pairwise_cons.mpr ⟨fun _ _ => Or.inl fixed, ordered⟩
      | false =>
          rw [fixed, if_neg (by decide)] at inside fits
          rw [if_neg (by decide), if_neg (by decide)]
          have later := le_exactEnd (exactNext (signed address) section_) rest
          have moved := exactNext_le (signed address) section_
          have next := signed_next (a := address) (by omega : exactNext _ section_ < 2 ^ 31)
          have bytes {n : Int} := loadSection_bytes narrow binary rdram above
            (by omega : exactNext (signed address) section_ ≤ lo + 2 ^ w) (by omega) (n := n)
          rw [← next] at inside fits later ⊢
          obtain ⟨last, each, ordered, frame⟩ := ih (clearBss (address + section_.size) section_
            (copySection binary address section_ rdram)) (by omega) inside fits
          refine ⟨last, fun p mem loaded => ?_, ?_, fun n above' below' => ?_⟩
          · rcases List.mem_cons.mp mem with rfl | mem
            · have stop : PlacedSection.stop ⟨section_, address⟩ = signed address +
                section_.size.toNat + section_.bssSize.toNat := rfl
              refine ⟨Int.le_refl _, by omega, fun n (first : signed address ≤ n) before => ?_⟩
              refine (frame n (by omega) (by omega)).trans ?_
              rw [bytes (by omega) (by omega), if_pos ⟨first, before⟩]
            · obtain ⟨start, stop, image⟩ := each p mem loaded
              exact ⟨by omega, stop, image⟩
          · refine List.pairwise_cons.mpr ⟨fun q mem => ?_, ordered⟩
            cases loaded : q.fixedAddress with
            | true => exact Or.inr (Or.inl loaded)
            | false =>
                refine Or.inr (Or.inr ?_)
                have start := (each q mem loaded).1
                change signed address + section_.size.toNat + section_.bssSize.toNat ≤ _
                omega
          · refine (frame n above' (by omega)).trans ?_
            rw [bytes above' (by omega), if_neg (by omega)]

end Placing

/-! ## The words of the relocations -/

/-- What a relocation of the section `here` adds, and to which word. -/
def fixup (placed : List PlacedSection) (here : PlacedSection) (reloc : Reloc) : Option Addend :=
  if reloc.type = .mips32 ∧ reloc.referenceSymbol = false then
    placed[reloc.targetSection]?.map fun target =>
      ⟨signed (reloc.address - here.ramAddr + here.address),
        (target.address - target.ramAddr).toBitVec⟩
  else none

def sectionFixups (placed : List PlacedSection) (here : PlacedSection) : List Addend :=
  here.relocs.filterMap (fixup placed here)

def LaidMod.fixups (mod : LaidMod) : List Addend := mod.placed.flatMap (sectionFixups mod.placed)

theorem foldlM_adds {α ε : Type} {w : Nat} {step : HostBytes w → α → Except ε (HostBytes w)}
    {addends : α → List Addend}
    (each : ∀ m a m', step m a = .ok m' → m' = (addends a).foldl HostBytes.add m) (as : List α)
    {m m' : HostBytes w} (run : as.foldlM step m = .ok m') :
    m' = (as.flatMap addends).foldl HostBytes.add m := by
  induction as generalizing m with
  | nil =>
      cases run
      rfl
  | cons a rest ih =>
      rw [List.foldlM_cons] at run
      cases here : step m a with
      | error e =>
          rw [here] at run
          cases run
      | ok between =>
          rw [here] at run
          rw [List.flatMap_cons, List.foldl_append, ← each m a between here]
          exact ih run

section Fixing

variable {w : Nat} (narrow : w ≤ 64)

include narrow

theorem fixReloc_adds {placed : List PlacedSection} {here : PlacedSection} (rdram : HostBytes w)
    (reloc : Reloc) (rdram' : HostBytes w) (run : fixReloc placed here rdram reloc = .ok rdram') :
    rdram' = (fixup placed here reloc).toList.foldl HostBytes.add rdram := by
  rw [fixReloc] at run
  rw [fixup]
  by_cases own : reloc.type = .mips32 ∧ reloc.referenceSymbol = false
  · rw [if_pos own] at run ⊢
    cases found : placed[reloc.targetSection]? with
    | none =>
        rw [found] at run
        cases run
    | some target =>
        rw [found] at run
        cases run
        simp only [setMemW, memW, place_gprOf_self narrow]
        rfl
  · rw [if_neg own] at run ⊢
    cases run
    rfl

theorem fixRelocs_adds {mod : LaidMod} {rdram rdram' : HostBytes w}
    (run : fixRelocs mod.placed rdram = .ok rdram') :
    rdram' = mod.fixups.foldl HostBytes.add rdram := by
  refine foldlM_adds (fun before here after section_ => ?_) mod.placed run
  rw [sectionFixups, List.filterMap_eq_flatMap_toList]
  exact foldlM_adds (fixReloc_adds narrow) here.relocs section_

end Fixing

/-! ## All mods -/

def LaidMod.image (mod : LaidMod) : ModImage :=
  ⟨mod.binary, mod.placed.map PlacedSection.toModSection⟩

/-- `ranges`, `contained`: the sections that are not fixed lie one after another, all
within `ram_used` of the start.  `relocated`: each is its part of the binary with the
words of the relocations added to, of its own mod's and of the later ones'. -/
structure LaidOut {w : Nat} (images : List ModImage) (loadAddress last : UInt32)
    (mods : List LaidMod) (rdram : HostBytes w) : Prop where
  images : mods.map LaidMod.image = images
  ranges : (mods.flatMap LaidMod.placed).Pairwise PlacedSection.Before
  contained : ∀ mod ∈ mods, ∀ p ∈ mod.placed, p.fixedAddress = false →
    signed loadAddress ≤ p.start ∧ p.stop ≤ signed loadAddress + (last - loadAddress).toNat
  relocated : ∀ index mod, mods[index]? = some mod → ∀ p ∈ mod.placed, p.fixedAddress = false →
    Adds p.start p.stop ((mods.drop index).flatMap LaidMod.fixups) (p.imageByte mod.binary)
      rdram.byteAt

section Mods

variable {w : Nat} (wide : 2 ≤ w) (narrow : w ≤ 64) {lo : Int}

theorem placeSections_sections (binary : Nat → BitVec 8) (sections : List ModSection)
    (address : UInt32) (rdram : HostBytes w) :
    (placeSections binary address rdram sections).1.map PlacedSection.toModSection = sections := by
  induction sections generalizing address rdram with
  | nil => rfl
  | cons section_ rest ih =>
      rw [placeSections]
      split
      · rw [List.map_cons, ih]
      · rw [List.map_cons, ih]

theorem initSections_ok {address next : UInt32} {rdram rdram' : HostBytes w} {image : ModImage}
    {mod : LaidMod} (narrow : w ≤ 64)
    (run : initSections address rdram image = .ok (mod, next, rdram')) :
    ∃ between, placeSections mod.binary address rdram image.sections = (mod.placed, next, between) ∧
      mod.image = image ∧ rdram' = mod.fixups.foldl HostBytes.add between := by
  rw [initSections] at run
  cases fixed : fixRelocs (placeSections image.binary address rdram image.sections).1
      (placeSections image.binary address rdram image.sections).2.2 with
  | error e =>
      rw [fixed] at run
      cases run
  | ok after =>
      rw [fixed] at run
      cases run
      refine ⟨_, rfl, ?_, fixRelocs_adds narrow fixed⟩
      rw [LaidMod.image, placeSections_sections]

theorem layMods_cons {address last : UInt32} {rdram rdram' : HostBytes w} {image : ModImage}
    {rest : List ModImage} {mods : List LaidMod} :
    layMods address rdram (image :: rest) = .ok (mods, last, rdram') ↔
      ∃ mod next between others, initSections address rdram image = .ok (mod, next, between) ∧
        layMods next between rest = .ok (others, last, rdram') ∧ mods = mod :: others := by
  rw [layMods]
  constructor
  · intro run
    cases head : initSections address rdram image with
    | error e =>
        rw [head] at run
        cases run
    | ok laid =>
        obtain ⟨mod, next, between⟩ := laid
        rw [head] at run
        dsimp only [bind, Except.bind] at run
        cases tail : layMods next between rest with
        | error e =>
            rw [tail] at run
            cases run
        | ok later =>
            rw [tail] at run
            cases run
            exact ⟨mod, next, between, _, rfl, tail, rfl⟩
  · rintro ⟨mod, next, between, others, head, tail, rfl⟩
    rw [head]
    dsimp only [bind, Except.bind]
    rw [tail]
    rfl

/-- What laying mods out from `first` to `last` does to the addresses from `lo` on. -/
structure ModsPlaced (lo first last : Int) (mods : List LaidMod) (rdram rdram' : HostBytes w) :
    Prop where
  below : Adds lo first (mods.flatMap LaidMod.fixups) rdram.byteAt rdram'.byteAt
  ranges : (mods.flatMap LaidMod.placed).Pairwise PlacedSection.Before
  contained : ∀ mod ∈ mods, ∀ p ∈ mod.placed, p.fixedAddress = false →
    first ≤ p.start ∧ p.stop ≤ last
  relocated : ∀ index mod, mods[index]? = some mod → ∀ p ∈ mod.placed, p.fixedAddress = false →
    Adds p.start p.stop ((mods.drop index).flatMap LaidMod.fixups) (p.imageByte mod.binary)
      rdram'.byteAt

theorem ModsPlaced.cons {first next last : Int} {mod : LaidMod} {rest : List LaidMod}
    {rdram between after rdram' : HostBytes w} (above : lo ≤ first) (forward : first ≤ next)
    (onward : next ≤ last)
    (sections : SectionsPlaced mod.binary lo first next mod.placed rdram between)
    (own : Adds lo next mod.fixups between.byteAt after.byteAt)
    (others : ModsPlaced lo next last rest after rdram')
    (apart : ∀ a ∈ mod.fixups, ∀ b ∈ rest.flatMap LaidMod.fixups, a.Apart b) :
    ModsPlaced lo first last (mod :: rest) rdram rdram' where
  below := by
    have before : Adds lo first [] rdram.byteAt between.byteAt := .of_eq sections.frame
    have here := before.trans (own.mono (Int.le_refl lo) forward) fun _ mem =>
      absurd mem List.not_mem_nil
    rw [List.flatMap_cons]
    exact here.trans (others.below.mono (Int.le_refl lo) forward) apart
  ranges := by
    rw [List.flatMap_cons]
    refine List.pairwise_append.mpr ⟨sections.ordered, others.ranges, fun p mem q mem' => ?_⟩
    cases loaded : p.fixedAddress with
    | true => exact Or.inl loaded
    | false =>
        cases loaded' : q.fixedAddress with
        | true => exact Or.inr (Or.inl loaded')
        | false =>
            obtain ⟨other, mem_other, mem'⟩ := List.mem_flatMap.mp mem'
            have stop := (sections.each p mem loaded).2.1
            have start := (others.contained other mem_other q mem' loaded').1
            exact Or.inr (Or.inr (le_trans stop start))
  contained owner mem_owner p mem loaded := by
    rcases List.mem_cons.mp mem_owner with rfl | mem_owner
    · obtain ⟨start, stop, -⟩ := sections.each p mem loaded
      omega
    · have bounds := others.contained owner mem_owner p mem loaded
      omega
  relocated index owner found p mem loaded := by
    cases index with
    | zero =>
        obtain rfl : mod = owner := Option.some.inj found
        obtain ⟨start, stop, bytes⟩ := sections.each p mem loaded
        have unfixed : Adds p.start p.stop [] (p.imageByte mod.binary) between.byteAt :=
          .of_eq bytes
        have fixed := unfixed.trans (own.mono (by omega) stop) fun _ mem =>
          absurd mem List.not_mem_nil
        rw [List.drop_zero, List.flatMap_cons]
        exact fixed.trans (others.below.mono (by omega) stop) apart
    | succ index => exact others.relocated index owner found p mem loaded

include wide narrow

theorem layMods_placed (images : List ModImage) {address last : UInt32} {mods : List LaidMod}
    {rdram rdram' : HostBytes w} (run : layMods address rdram images = .ok (mods, last, rdram'))
    (above : lo ≤ signed address)
    (inside : exactEnd (signed address) (images.flatMap ModImage.sections) ≤ lo + 2 ^ w)
    (fits : exactEnd (signed address) (images.flatMap ModImage.sections) < 2 ^ 31)
    (aligned : ∀ a ∈ mods.flatMap LaidMod.fixups, a.address % 4 = 0)
    (window : ∀ a ∈ mods.flatMap LaidMod.fixups, lo ≤ a.address ∧ a.address + 4 ≤ lo + 2 ^ w)
    (apart : (mods.flatMap LaidMod.fixups).Pairwise Addend.Apart) :
    signed last = exactEnd (signed address) (images.flatMap ModImage.sections) ∧
      mods.map LaidMod.image = images ∧
      ModsPlaced lo (signed address) (signed last) mods rdram rdram' := by
  induction images generalizing address rdram mods with
  | nil =>
      cases run
      exact ⟨rfl, rfl, .of_eq fun _ _ _ => rfl, List.Pairwise.nil,
        fun _ mem => absurd mem List.not_mem_nil, fun _ _ found => by cases found⟩
  | cons image rest ih =>
      obtain ⟨mod, next, after, others, head, tail, rfl⟩ := layMods_cons.mp run
      obtain ⟨between, placed, same, added⟩ := initSections_ok narrow head
      rw [List.flatMap_cons, exactEnd_append] at inside fits ⊢
      rw [List.flatMap_cons] at aligned window apart
      obtain ⟨apart, apart', across⟩ := List.pairwise_append.mp apart
      have later := le_exactEnd (exactEnd (signed address) image.sections)
        (rest.flatMap ModImage.sections)
      obtain ⟨next_end, sections⟩ := placeSections_placed narrow mod.binary image.sections rdram
        above (by omega) (by omega)
      rw [placed] at next_end sections
      dsimp only at next_end sections
      rw [← next_end] at inside fits later sections ⊢
      have grown := le_exactEnd (signed address) image.sections
      obtain ⟨last_end, images, others_placed⟩ := ih tail (by omega) inside fits
        (fun a mem => aligned a (List.mem_append_right _ mem))
        (fun a mem => window a (List.mem_append_right _ mem)) apart'
      have adds := Adds.run wide mod.fixups between apart
        (fun a mem => aligned a (List.mem_append_left _ mem))
        (fun a mem => window a (List.mem_append_left _ mem))
      rw [← added] at adds
      refine ⟨last_end, by rw [List.map_cons, same, images], ?_⟩
      exact .cons above (by omega) (by omega) sections (adds.mono (Int.le_refl lo) (by omega))
        others_placed across

end Mods

/-! ## The layout as load_mods has it -/

theorem signed_sub {a b : UInt32} (ordered : signed a ≤ signed b) :
    ((b - a).toNat : Int) = signed b - signed a := by
  have residue := signed_residue a
  have residue' := signed_residue b
  have bounds := signed_bounds a
  have bounds' := signed_bounds b
  have bound := a.toNat_lt
  rw [UInt32.toNat_sub]
  omega

theorem placeSections_addresses {w : Nat} (binary : Nat → BitVec 8) (sections : List ModSection)
    (address : UInt32) (rdram : HostBytes w) :
    (placeSections binary address rdram sections).1.map PlacedSection.address
        = (layoutSections address sections).1 ∧
      (placeSections binary address rdram sections).2.1 = (layoutSections address sections).2 := by
  induction sections generalizing address rdram with
  | nil => exact ⟨rfl, rfl⟩
  | cons section_ rest ih =>
      rw [placeSections, layoutSections]
      split
      · obtain ⟨addresses, last⟩ := ih address rdram
        exact ⟨congrArg _ addresses, last⟩
      · obtain ⟨addresses, last⟩ := ih (nextSectionAddr address section_) (clearBss
          (address + section_.size) section_ (copySection binary address section_ rdram))
        exact ⟨congrArg _ addresses, last⟩

theorem foldlM_fails {α β ε : Type} {step : β → α → Except ε β} {bad : α → Bool} {error : ε}
    (fails : ∀ b a, bad a = true → step b a = .error error)
    (goes : ∀ b a, bad a = false → ∃ b', step b a = .ok b') (as : List α) (b : β) :
    (as.any bad = true → as.foldlM step b = .error error) ∧
      (as.any bad = false → ∃ b', as.foldlM step b = .ok b') := by
  induction as generalizing b with
  | nil => exact ⟨fun some_bad => absurd some_bad Bool.false_ne_true, fun _ => ⟨b, rfl⟩⟩
  | cons a rest ih =>
      rw [List.any_cons, List.foldlM_cons]
      cases here : bad a with
      | true =>
          rw [fails b a here, Bool.true_or]
          exact ⟨fun _ => rfl, fun none_bad => absurd none_bad (by decide)⟩
      | false =>
          obtain ⟨b', run⟩ := goes b a here
          rw [run, Bool.false_or]
          exact ih b'

def Reloc.outOfRange (count : Nat) (reloc : Reloc) : Bool :=
  decide (reloc.type = .mips32) && !reloc.referenceSymbol && decide (count ≤ reloc.targetSection)

section Phase

variable {w : Nat}

theorem fixReloc_outcome (placed : List PlacedSection) (here : PlacedSection) (rdram : HostBytes w)
    (reloc : Reloc) :
    (reloc.outOfRange placed.length = true →
        fixReloc placed here rdram reloc = .error ⟨.failedToParseSyms, ""⟩) ∧
      (reloc.outOfRange placed.length = false →
        ∃ rdram', fixReloc placed here rdram reloc = .ok rdram') := by
  rw [Reloc.outOfRange, fixReloc]
  by_cases own : reloc.type = .mips32 ∧ reloc.referenceSymbol = false
  · rw [if_pos own, decide_eq_true own.1, own.2, Bool.not_false, Bool.true_and, Bool.true_and,
      decide_eq_true_eq, decide_eq_false_iff_not, Nat.not_le]
    constructor
    · intro outside
      rw [List.getElem?_eq_none outside]
    · intro inside
      rw [List.getElem?_eq_getElem inside]
      exact ⟨_, rfl⟩
  · rw [if_neg own]
    refine ⟨fun bad => absurd ?_ own, fun _ => ⟨rdram, rfl⟩⟩
    rw [Bool.and_eq_true, Bool.and_eq_true, decide_eq_true_eq, Bool.not_eq_true'] at bad
    exact bad.1

/-- `init_mod_code` lays a mod out where `layOut` says, and fails where it does. -/
theorem layOut_initSections (context : RecompilerContext) (index : Nat) (s : CodeMods)
    (binary : Nat → BitVec 8) (rdram : HostBytes w) :
    match initSections s.loadAddress rdram ⟨binary, context.sections⟩ with
    | .error error => (CodeMods.layOut context index s).2 = [error]
    | .ok (mod, next, _) =>
        (CodeMods.layOut context index s).2 = [] ∧
          ((CodeMods.layOut context index s).1.mods index).sectionLoadAddresses
            = mod.placed.map PlacedSection.address ∧
          (CodeMods.layOut context index s).1.loadAddress = next ∧
          (CodeMods.layOut context index s).1.ramUsed = s.ramUsed + (next - s.loadAddress) := by
  obtain ⟨addresses, last⟩ :=
    placeSections_addresses binary context.sections s.loadAddress rdram
  have sections := placeSections_sections binary context.sections s.loadAddress rdram
  generalize place : placeSections binary s.loadAddress rdram context.sections = placed
    at addresses last sections
  have outside : (placed.1.any fun here => here.relocs.any (Reloc.outOfRange placed.1.length))
      = context.relocOutOfRange := by
    have length : placed.1.length = context.sections.length := by
      rw [← sections, List.length_map]
    rw [RecompilerContext.relocOutOfRange, length]
    conv_rhs => arg 1; rw [← sections]
    rw [List.any_map]
    rfl
  have outcome := foldlM_fails (fun rdram here => (foldlM_fails
      (fun rdram reloc => (fixReloc_outcome placed.1 here rdram reloc).1)
      (fun rdram reloc => (fixReloc_outcome placed.1 here rdram reloc).2) here.relocs rdram).1)
    (fun rdram here => (foldlM_fails
      (fun rdram reloc => (fixReloc_outcome placed.1 here rdram reloc).1)
      (fun rdram reloc => (fixReloc_outcome placed.1 here rdram reloc).2) here.relocs rdram).2)
    placed.1 placed.2.2
  rw [outside] at outcome
  rw [initSections]
  dsimp only
  rw [place]
  cases bad : context.relocOutOfRange with
  | true =>
      have failed : fixRelocs placed.1 placed.2.2 = _ := outcome.1 bad
      rw [failed, CodeMods.layOut, bad]
      rfl
  | false =>
      obtain ⟨rdram', fixed⟩ := outcome.2 bad
      have fixed : fixRelocs placed.1 placed.2.2 = .ok rdram' := fixed
      rw [fixed, CodeMods.layOut, bad]
      refine ⟨rfl, ?_, last.symm, ?_⟩
      · change (Function.update s.mods index _ index).sectionLoadAddresses = _
        rw [Function.update_self]
        exact addresses.symm
      · rw [last]
        rfl

end Phase

section Phase

variable {w : Nat} (env : LoadEnv)

/-- A mod as the first code pass has it: `binary` is what lies at the indices of `binary_data`. -/
def LoadEnv.modImage (binary : Nat → BitVec 8) (index : Nat) : ModImage :=
  ⟨binary, ((env.modSymbols index).toOption.map RecompilerContext.sections).getD []⟩

theorem checkManifest_state (context : RecompilerContext) (index : Nat) (s : CodeMods) :
    (CodeMods.checkManifest env context index s).1 = s := by
  rw [CodeMods.checkManifest]
  split
  · rfl
  · rfl

theorem initModCode_good {index : Nat} {s : CodeMods}
    (good : (CodeMods.initModCode env index s).2 = []) (binary : Nat → BitVec 8)
    (rdram : HostBytes w) :
    ∃ mod rdram', initSections s.loadAddress rdram (env.modImage binary index)
        = .ok (mod, (CodeMods.initModCode env index s).1.loadAddress, rdram') ∧
      (CodeMods.initModCode env index s).1.ramUsed = s.ramUsed +
        ((CodeMods.initModCode env index s).1.loadAddress - s.loadAddress) := by
  rw [CodeMods.initModCode] at good ⊢
  rw [LoadEnv.modImage]
  cases symbols : env.modSymbols index with
  | error e =>
      rw [symbols] at good
      cases good
  | ok context =>
      rw [symbols] at good
      dsimp only at good ⊢
      by_cases unavailable : env.decompressedRom = [] ∧ context.hooks ≠ []
      · rw [if_pos unavailable] at good
        cases good
      · rw [if_neg unavailable] at good ⊢
        generalize taken : CodeMods.setMod (CodeMods.setMod s index _) index _ = t at good ⊢
        have address : t.loadAddress = s.loadAddress := by rw [← taken]; rfl
        have used : t.ramUsed = s.ramUsed := by rw [← taken]; rfl
        have manifest : (CodeMods.checkManifest env context index t).2 = [] := by
          by_contra failed
          rw [untilError_cons_failed _ failed] at good
          exact failed good
        rw [untilError_cons_ok _ manifest, checkManifest_state, untilError_singleton] at good ⊢
        have laid := layOut_initSections context index t binary rdram
        change ∃ mod rdram', initSections s.loadAddress rdram ⟨binary, context.sections⟩ = _ ∧ _
        rw [← address, ← used]
        cases run : initSections t.loadAddress rdram ⟨binary, context.sections⟩ with
        | error e =>
            rw [run] at laid
            dsimp only at laid
            rw [laid] at good
            cases good
        | ok result =>
            obtain ⟨mod, next, rdram'⟩ := result
            rw [run] at laid
            obtain ⟨-, -, next_eq, ram_used⟩ := laid
            rw [next_eq]
            exact ⟨mod, rdram', rfl, ram_used⟩

theorem add_distances (used a b c : UInt32) : used + (b - a) + (c - b) = used + (c - a) := by
  grind

/-- A first pass without an error lays the mods out. -/
theorem initPhase_layMods (s : CodeMods)
    (good : (CodeMods.forCodeMods (CodeMods.initModCode env) s).2 = [])
    (binary : Nat → Nat → BitVec 8) (rdram : HostBytes w) :
    ∃ mods rdram',
      layMods s.loadAddress rdram
          (s.loadedCodeMods.map fun index => env.modImage (binary index) index)
        = .ok (mods, (CodeMods.forCodeMods (CodeMods.initModCode env) s).1.loadAddress, rdram') ∧
      (CodeMods.forCodeMods (CodeMods.initModCode env) s).1.ramUsed = s.ramUsed +
        ((CodeMods.forCodeMods (CodeMods.initModCode env) s).1.loadAddress - s.loadAddress) := by
  rw [CodeMods.forCodeMods] at good ⊢
  generalize s.loadedCodeMods = indices at good ⊢
  induction indices generalizing s rdram with
  | nil =>
      refine ⟨[], rdram, rfl, ?_⟩
      change s.ramUsed = s.ramUsed + (s.loadAddress - s.loadAddress)
      rw [UInt32.sub_self, UInt32.add_zero]
  | cons index rest ih =>
      obtain ⟨here, later⟩ := List.append_eq_nil_iff.mp good
      obtain ⟨mod, between, run, used⟩ :=
        initModCode_good env (List.map_eq_nil_iff.mp here) (binary index) rdram
      obtain ⟨mods, rdram', runs, used'⟩ := ih _ between later
      refine ⟨mod :: mods, rdram', layMods_cons.mpr ⟨mod, _, between, mods, run, runs, rfl⟩, ?_⟩
      refine used'.trans ?_
      change (CodeMods.initModCode env index s).1.ramUsed +
        (_ - (CodeMods.initModCode env index s).1.loadAddress) = _
      rw [used]
      exact add_distances _ _ _ _

end Phase

/-! ## The layout of a list of mods -/

section Layout

variable {w : Nat} {images : List ModImage} {mods : List LaidMod} {loadAddress last : UInt32}
  {rdram rdram' : HostBytes w}

/-- All bytes from `lo` on that macros of `w` bits keep apart: the mods and the words of the
relocations lie in there. -/
structure InWindow (w : Nat) (lo first last : Int) (mods : List LaidMod) : Prop where
  above : lo ≤ first
  below : last ≤ lo + 2 ^ w
  words : ∀ a ∈ mods.flatMap LaidMod.fixups, lo ≤ a.address ∧ a.address + 4 ≤ lo + 2 ^ w

theorem fixup_signed {mod : LaidMod} {a : Addend} (mem : a ∈ mod.fixups) :
    ∃ address, a.address = signed address := by
  obtain ⟨here, -, mem⟩ := List.mem_flatMap.mp mem
  obtain ⟨reloc, -, found⟩ := List.mem_filterMap.mp mem
  rw [fixup] at found
  split at found
  · obtain ⟨target, -, rfl⟩ := Option.map_eq_some_iff.mp found
    exact ⟨_, rfl⟩
  · cases found

/-- Macros of 32 bits and more keep all addresses apart. -/
theorem inWindow_of_wide (enough : 32 ≤ w) {last : Int} (fits : last < 2 ^ 31)
    (aligned : ∀ a ∈ mods.flatMap LaidMod.fixups, a.address % 4 = 0) :
    InWindow w (-2 ^ 31) (signed loadAddress) last mods := by
  have size : (2 : Int) ^ 32 ≤ 2 ^ w := by
    exact_mod_cast Nat.pow_le_pow_right (by decide : 0 < 2) enough
  refine ⟨(signed_bounds loadAddress).1, by omega, fun a mem => ?_⟩
  obtain ⟨mod, -, mem'⟩ := List.mem_flatMap.mp mem
  obtain ⟨address, is_signed⟩ := fixup_signed mem'
  have bounds := signed_bounds address
  have whole := aligned a mem
  omega

/-- Mods that fit below the end of the addresses are laid out, if the words of the
relocations are aligned and apart. -/
theorem layMods_laidOut (wide : 2 ≤ w) (narrow : w ≤ 64)
    (run : layMods loadAddress rdram images = .ok (mods, last, rdram'))
    (noOverflow : exactEnd (signed loadAddress) (images.flatMap ModImage.sections) < 2 ^ 31)
    (aligned : ∀ a ∈ mods.flatMap LaidMod.fixups, a.address % 4 = 0)
    (apart : (mods.flatMap LaidMod.fixups).Pairwise Addend.Apart)
    (window : w < 32 → ∃ lo, InWindow w lo (signed loadAddress)
      (exactEnd (signed loadAddress) (images.flatMap ModImage.sections)) mods) :
    LaidOut images loadAddress last mods rdram' := by
  obtain ⟨lo, above, below, words⟩ : ∃ lo, InWindow w lo (signed loadAddress)
      (exactEnd (signed loadAddress) (images.flatMap ModImage.sections)) mods := by
    by_cases small : w < 32
    · exact window small
    · exact ⟨_, inWindow_of_wide (Nat.not_lt.mp small) noOverflow aligned⟩
  obtain ⟨last_end, same, placed⟩ :=
    layMods_placed wide narrow images run above below noOverflow aligned words apart
  have ordered : signed loadAddress ≤ signed last := by
    rw [last_end]
    exact le_exactEnd _ _
  have distance := signed_sub ordered
  refine ⟨same, placed.ranges, fun mod mem p mem' loaded => ?_, placed.relocated⟩
  obtain ⟨start, stop⟩ := placed.contained mod mem p mem' loaded
  exact ⟨start, by omega⟩

def oneReloc (address : UInt32) : ModImage where
  binary i := BitVec.ofNat 8 (i + 1)
  sections := [{
    romAddr := 0
    ramAddr := 0x80000000
    size := 8
    bssSize := 4
    relocs := [⟨address, 0, 0, 0, .mips32, false⟩]
    fixedAddress := false
    relocatable := true }]

theorem two_mods_laidOut : ∃ mods last rdram',
    layMods (w := 30) 0x81000000 (fun _ => 0) [oneReloc 0x80000004, oneReloc 0x80000008]
        = .ok (mods, last, rdram') ∧
      LaidOut [oneReloc 0x80000004, oneReloc 0x80000008] 0x81000000 last mods rdram' :=
  ⟨_, _, _, rfl, layMods_laidOut (by decide) (by decide) rfl (by decide) (by decide) (by decide)
    fun _ => ⟨-2 ^ 31, by decide, by decide, by decide⟩⟩

/-- A word that is not aligned is not the one that is added to, and a later mod is copied
over the words of the earlier ones. -/
theorem relocated_words_lost :
    (∃ mods last rdram', layMods (w := 64) 0x81000000 (fun _ => 0) [oneReloc 0x80000001]
        = .ok (mods, last, rdram') ∧
      ∃ mod p a, mods = [mod] ∧ mod.placed = [p] ∧ mod.fixups = [a] ∧ p.fixedAddress = false ∧
        p.start ≤ a.address ∧ a.address + 4 ≤ p.stop ∧
        bigEndianAt rdram'.byteAt a.address
          ≠ bigEndianAt (p.imageByte mod.binary) a.address + a.amount) ∧
    ∃ mods last rdram',
      layMods (w := 64) 0x81000000 (fun _ => 0) [oneReloc 0x80000410, oneReloc 0x80000008]
        = .ok (mods, last, rdram') ∧
      ∃ first second p a b, mods = [first, second] ∧ second.placed = [p] ∧ first.fixups = [a] ∧
        second.fixups = [b] ∧ a.Apart b ∧ p.fixedAddress = false ∧ p.start ≤ a.address ∧
        a.address + 4 ≤ p.stop ∧
        bigEndianAt rdram'.byteAt a.address
          ≠ bigEndianAt (p.imageByte second.binary) a.address + a.amount :=
  ⟨⟨_, _, _, rfl, _, _, _, rfl, rfl, rfl, rfl, by decide, by decide, by decide⟩,
    _, _, _, rfl, _, _, _, _, _, rfl, rfl, rfl, rfl, by decide, rfl, by decide, by decide,
      by decide⟩

end Layout

end N64ModernRuntime.Librecomp
