import Mathlib.Data.List.FinRange
import N64ModernRuntime.Lib.AddressMap

/-!
# overlays.cpp: the section table and what is loaded of it

Guest addresses are `int32_t` in some places and `uint32_t` in others; they are
`UInt32` here, and a signed comparison is written as one.  The switches that
are read from the environment have their defaults.
-/

set_option autoImplicit false

namespace N64ModernRuntime.Librecomp

open AddressMap

/-- The address of a recompiled function in the host process. -/
abbrev RecompFunc := Nat

abbrev FuncMap := Map RecompFunc

structure FuncEntry where
  func : Option RecompFunc
  offset : UInt32
  romSize : UInt32
  deriving DecidableEq, Repr

structure SectionTableEntry where
  romAddr : UInt32
  ramAddr : UInt32
  size : UInt32
  funcs : List FuncEntry
  index : Nat
  contentHash : UInt64
  originalPatternId : UInt32
  deriving DecidableEq, Repr

/-- The table that the recompiler emits, after `init_overlays` has sorted it:
every section has a place of its own in `section_addresses` and starts at a
MIPS instruction, and its functions start at different offsets in it. -/
structure SectionTable where
  numCodeSections : Nat
  codeSections : Fin numCodeSections → SectionTableEntry
  /-- `overlays_info.table` -/
  overlays : List (Fin numCodeSections)
  sorted : ∀ i j, i ≤ j → (codeSections i).romAddr ≤ (codeSections j).romAddr
  index_injective : ∀ i j, (codeSections i).index = (codeSections j).index → i = j
  aligned : ∀ i, (codeSections i).ramAddr &&& 3 = 0
  offset_lt : ∀ i, ∀ fe ∈ (codeSections i).funcs, fe.offset < (codeSections i).size
  offset_injective : ∀ i, ∀ fe ∈ (codeSections i).funcs, ∀ fe' ∈ (codeSections i).funcs,
    fe.offset = fe'.offset → fe = fe'

abbrev SectionTable.Index (table : SectionTable) := Fin table.numCodeSections

structure LoadedSection (table : SectionTable) where
  loadedRamAddr : UInt32
  sectionTableIndex : table.Index
  deriving DecidableEq, Repr

/-- `fragment` is the entry whose slot it is; the code does not record it. -/
structure PendingTrampoline (table : SectionTable) where
  trampolineRuntimeAddr : UInt32
  linkTimeTarget : UInt32
  fragment : LoadedSection table
  deriving DecidableEq, Repr

structure SyntheticFragmentSlot (table : SectionTable) where
  runtimeBase : UInt32
  size : UInt32
  sectionIndex : table.Index
  deriving DecidableEq, Repr

/-- The statics of overlays.cpp, all written under the lock of `func_map`.  `slotJumps` is a
record that the code does not keep: the jumps, by offset, that the last scan of each loaded
section has found in its slots. -/
structure Overlays (table : SectionTable) where
  loadedSections : List (LoadedSection table)
  funcMap : FuncMap
  pendingTrampolines : List (PendingTrampoline table)
  sectionAddresses : Nat → UInt32
  runtimeFragmentIdToSection : UInt32 → Option table.Index
  fragLiveRange : UInt32 → Option Range
  syntheticFragments : Nat → Option (SyntheticFragmentSlot table)
  slotJumps : LoadedSection table → UInt32 → Option UInt32

variable {table : SectionTable}

def LoadedSection.entry (e : LoadedSection table) : SectionTableEntry :=
  table.codeSections e.sectionTableIndex

/-- `[loaded_ram_addr, loaded_ram_addr + size)` -/
def LoadedSection.range (e : LoadedSection table) : Range := ⟨e.loadedRamAddr, e.entry.size⟩

def LoadedSection.Owns (e : LoadedSection table) (addr : UInt32) : Prop :=
  addr - e.loadedRamAddr < e.entry.size

instance (e : LoadedSection table) (addr : UInt32) : Decidable (e.Owns addr) :=
  inferInstanceAs (Decidable (_ < _))

/-! ## Aliases -/

def SectionTableEntry.originalFragmentBase (section_ : SectionTableEntry) : Option UInt32 :=
  if section_.originalPatternId = 0xFFFFFFFF then none
  else some ((0x80000000 : UInt32) ||| (((section_.originalPatternId + 0x10) &&& 0xFF) <<< 20))

/-- The addresses under which an offset of a section is known beside the runtime one. -/
def SectionTableEntry.linkAliases (section_ : SectionTableEntry) (runtimeBase offset : UInt32) :
    List UInt32 :=
  (if section_.ramAddr ≠ runtimeBase then [section_.ramAddr + offset] else []) ++
    section_.originalFragmentBase.toList.map (· + offset)

/-- The addresses that `install_section_func_aliases` and its two counterparts compute. -/
def SectionTableEntry.aliases (section_ : SectionTableEntry) (runtimeBase offset : UInt32) :
    List UInt32 :=
  (runtimeBase + offset) :: section_.linkAliases runtimeBase offset

def installSectionFuncAliases (section_ : SectionTableEntry) (runtimeBase : UInt32)
    (funcMap : FuncMap) (entry : FuncEntry) : FuncMap :=
  match entry.func with
  | none => funcMap
  | some func => funcMap.insertAll (section_.aliases runtimeBase entry.offset) func

def eraseSectionFuncAliases (section_ : SectionTableEntry) (runtimeBase : UInt32)
    (funcMap : FuncMap) (entry : FuncEntry) : FuncMap :=
  match entry.func with
  | none => funcMap
  | some _ => funcMap.eraseAll (section_.aliases runtimeBase entry.offset)

def eraseFragmentSlotAliases (section_ : SectionTableEntry) (runtimeBase : UInt32)
    (funcMap : FuncMap) (offset : UInt32) : FuncMap :=
  funcMap.eraseAll (section_.aliases runtimeBase offset)

def fragRangeErase (funcMap : FuncMap) (range : Range) : FuncMap :=
  if range.len = 0 then funcMap else funcMap.eraseBetween range.lo (range.lo + range.len)

/-- A misaligned value is dropped. -/
def secaddrSet (sectionAddresses : Nat → UInt32) (index : Nat) (value : UInt32) : Nat → UInt32 :=
  if value &&& 3 ≠ 0 then sectionAddresses
  else fun i => if i = index then value else sectionAddresses i

def setLinkAddress (sectionAddresses : Nat → UInt32) (index : table.Index) : Nat → UInt32 :=
  secaddrSet sectionAddresses (table.codeSections index).index (table.codeSections index).ramAddr

/-! ## Jump slots -/

def funcEntryMayBeFragmentJumpSlot (func : FuncEntry) : Bool :=
  decide (0x20 ≤ func.offset) && decide (func.offset &&& 7 = 0) && decide (func.romSize = 8)

def earlierOffset (isSlot : FuncEntry → Bool) (first : UInt32) (func : FuncEntry) : UInt32 :=
  if isSlot func then first
  else if 0 < func.offset ∧ func.offset < first then func.offset
  else first

/-- The smallest offset but 0 of the functions that `isSlot` does not take for slots. -/
def firstFuncOffset (section_ : SectionTableEntry) (isSlot : FuncEntry → Bool) : UInt32 :=
  section_.funcs.foldl (earlierOffset isSlot) section_.size

/-- `for (slot_off = 0x20; slot_off + 8 <= first; slot_off += 8)` -/
def slotOffsets (first : UInt32) : List UInt32 :=
  (List.range ((first.toNat - 0x20) / 8)).map fun k => UInt32.ofNat (0x20 + 8 * k)

/-! ## Loading and unloading one section -/

namespace Overlays

/-- The state of a process after `init_overlays` and before the first load. -/
def initOverlays (table : SectionTable) : Overlays table where
  loadedSections := []
  funcMap := fun _ => none
  pendingTrampolines := []
  sectionAddresses := (List.finRange table.numCodeSections).foldl setLinkAddress fun _ => 0
  runtimeFragmentIdToSection := fun _ => none
  fragLiveRange := fun _ => none
  syntheticFragments := fun _ => none
  slotJumps := fun _ _ => none

/-- The record of what is not loaded any more is dropped. -/
def jumpsOf (slotJumps : LoadedSection table → UInt32 → Option UInt32)
    (loaded : List (LoadedSection table)) (e : LoadedSection table) : UInt32 → Option UInt32 :=
  if e ∈ loaded then slotJumps e else fun _ => none

/-- What every way to take a section out of `loaded_sections` does besides `func_map`. -/
def drop (s : Overlays table) (e : LoadedSection table) (funcMap : FuncMap) : Overlays table :=
  let rest := s.loadedSections.erase e
  { s with
    funcMap := funcMap
    sectionAddresses := secaddrSet s.sectionAddresses e.entry.index e.entry.ramAddr
    loadedSections := rest
    slotJumps := jumpsOf s.slotJumps rest }

def loadOverlay (s : Overlays table) (index : table.Index) (ram : UInt32) : Overlays table :=
  let section_ := table.codeSections index
  { s with
    funcMap := section_.funcs.foldl (installSectionFuncAliases section_ ram) s.funcMap
    loadedSections := s.loadedSections ++ [⟨ram, index⟩]
    sectionAddresses := secaddrSet s.sectionAddresses section_.index ram }

/-- The common body of `unload_overlay_by_section_index` and of the loop of `unload_overlays`. -/
def unloadSection (s : Overlays table) (e : LoadedSection table) : Overlays table :=
  s.drop e (fragRangeErase
    (e.entry.funcs.foldl (eraseSectionFuncAliases e.entry e.loadedRamAddr) s.funcMap) e.range)

def unloadOverlayBySectionIndex (s : Overlays table) (index : table.Index) : Overlays table :=
  match s.loadedSections.find? fun e => decide (e.sectionTableIndex = index) with
  | none => s
  | some e => s.unloadSection e

end Overlays

end N64ModernRuntime.Librecomp
