import N64ModernRuntime.Lib.Transition
import N64ModernRuntime.Librecomp.Fragments

/-!
# overlays.cpp: loading and unloading by address and by id

The calls from outside, each as a function of the state that it finds; `none`
is a call that does not return.  Every call is a sequence of moves, and a fact
about all states that a run reaches needs to be shown for the moves only.
-/

set_option autoImplicit false

namespace N64ModernRuntime.Librecomp

open AddressMap Transition

variable {table : SectionTable}

/-! ## `load_overlays` -/

/-- `runtime_ranges_overlap`, in 64 bits -/
def runtimeRangesOverlap (a b : Range) : Bool :=
  decide (a.lo.toNat < b.lo.toNat + b.len.toNat) && decide (b.lo.toNat < a.lo.toNat + a.len.toNat)

/-- `std::lower_bound` over the sorted table: the first section at `rom` or after it. -/
def SectionTable.lowerBound (table : SectionTable) (rom : UInt32) : Nat :=
  (List.finRange table.numCodeSections).findIdx fun i => decide (rom ≤ (table.codeSections i).romAddr)

/-- `std::upper_bound`: the first section after `rom` -/
def SectionTable.upperBound (table : SectionTable) (rom : UInt32) : Nat :=
  (List.finRange table.numCodeSections).findIdx fun i => decide (rom < (table.codeSections i).romAddr)

section Targets
variable (table : SectionTable) (rom ramAddr size : UInt32)

/-- The sections that start in the transfer and end in it, case (a). -/
def wholeTargets : List (table.Index × UInt32) :=
  (List.finRange table.numCodeSections).filterMap fun i =>
    let section_ := table.codeSections i
    if table.lowerBound rom ≤ i.val ∧ i.val < table.upperBound (rom + size) ∧
        section_.romAddr + section_.size ≤ rom + size then
      some (i, section_.romAddr - rom + ramAddr)
    else none

/-- The section that starts before the transfer and reaches into it, case (b). -/
def partTarget : Option (table.Index × UInt32) :=
  (List.finRange table.numCodeSections).findSome? fun i =>
    let section_ := table.codeSections i
    if i.val + 1 = table.lowerBound rom ∧ section_.romAddr ≤ rom ∧
        rom < section_.romAddr + section_.size then
      some (i, ramAddr - (rom - section_.romAddr))
    else none

/-- The section that starts where the transfer does, if it is longer. -/
def startTarget : Option (table.Index × UInt32) :=
  (List.finRange table.numCodeSections).findSome? fun i =>
    let section_ := table.codeSections i
    if i.val = table.lowerBound rom ∧ section_.romAddr = rom ∧
        rom + size < section_.romAddr + section_.size then
      some (i, section_.romAddr - rom + ramAddr)
    else none

/-- The calls of `register_if_new`.  Where `rom + size` wraps, the walk from one bound to the
other leaves the table. -/
def loadTargets : Option (List (table.Index × UInt32)) :=
  if table.upperBound (rom + size) < table.lowerBound rom then none
  else some (wholeTargets table rom ramAddr size ++
    (partTarget table rom ramAddr).toList ++ (startTarget table rom ramAddr size).toList)

end Targets

namespace Overlays

/-- The next entry that `evict_overlapping_sections` takes out. -/
def overlapping (s : Overlays table) (index : table.Index) (impliedBase : UInt32) :
    Option (LoadedSection table) :=
  s.loadedSections.find? fun e =>
    decide (e.sectionTableIndex ≠ index) &&
      runtimeRangesOverlap ⟨impliedBase, (table.codeSections index).size⟩ e.range

/-- Each round takes one entry out, so there are at most as many as entries. -/
def evictOverlappingSections : Nat → Overlays table → table.Index → UInt32 → Overlays table
  | 0, s, _, _ => s
  | rounds + 1, s, index, impliedBase =>
      match s.overlapping index impliedBase with
      | none => s
      | some e => evictOverlappingSections rounds
          (s.unloadOverlayBySectionIndex e.sectionTableIndex) index impliedBase

def registerIfNew (s : Overlays table) (target : table.Index × UInt32) : Overlays table :=
  let cleared := evictOverlappingSections s.loadedSections.length s target.1 target.2
  match cleared.loadedSections.find? fun e => decide (e.sectionTableIndex = target.1) with
  | none => cleared.loadOverlay target.1 target.2
  | some e =>
      if e.loadedRamAddr ≠ target.2 then
        (cleared.unloadOverlayBySectionIndex target.1).loadOverlay target.1 target.2
      else cleared

def loadOverlays (s : Overlays table) (rom ramAddr size : UInt32) : Option (Overlays table) :=
  (loadTargets table rom ramAddr size).map fun targets => targets.foldl registerIfNew s

/-! ## The calls by id and by address -/

def loadOverlayById (s : Overlays table) (index : table.Index) (ramAddr : UInt32) :
    Overlays table :=
  let prevAddress := s.sectionAddresses (table.codeSections index).index
  if prevAddress = (table.codeSections index).ramAddr then s.loadOverlay index ramAddr
  else (s.unloadOverlayBySectionIndex index).loadOverlay index (prevAddress + ramAddr)

/-- The comparison with the end of the section is unsigned. -/
def unloadTouches (ramAddr size : UInt32) (e : LoadedSection table) : Bool :=
  decide (ramAddr < e.loadedRamAddr + e.entry.size) && decide (e.loadedRamAddr ≤ ramAddr + size)

/-- "Cannot partially unload section"; the starts are compared as `int32_t`. -/
def unloadsPartially (ramAddr size : UInt32) (e : LoadedSection table) : Bool :=
  decide (e.loadedRamAddr.toInt32 < ramAddr.toInt32) ||
    decide (ramAddr + size < e.loadedRamAddr + e.entry.size)

/-- The loop of `unload_overlays` over the entries that were there at its start. -/
def unloadEach (ramAddr size : UInt32) :
    List (LoadedSection table) → Overlays table → Option (Overlays table)
  | [], s => some s
  | e :: rest, s =>
      if unloadTouches ramAddr size e then
        if unloadsPartially ramAddr size e then none
        else unloadEach ramAddr size rest (s.unloadSection e)
      else unloadEach ramAddr size rest s

def unloadOverlays (s : Overlays table) (ramAddr size : UInt32) : Option (Overlays table) :=
  unloadEach ramAddr size s.loadedSections s

end Overlays

/-! ## The system -/

inductive Call where
  | loadOverlays (rom ramAddr size : UInt32)
  | loadOverlayById (id : Nat) (ramAddr : UInt32)
  | unloadOverlayById (id : Nat)
  | unloadOverlays (ramAddr size : UInt32)
  | registerRuntimeFragment (rdram : Rdram) (id fragmentPtr : UInt32)
  | unregisterRuntimeFragment (id : UInt32)
  | scanLoadedFragmentTrampolines (rdram : Rdram) (rom size : UInt32)

/-- `none` is a call that does not return. -/
def overlayStep (s : Overlays table) : Call → Option (Overlays table)
  | .loadOverlays rom ramAddr size => s.loadOverlays rom ramAddr size
  | .loadOverlayById id ramAddr =>
      (table.overlays[id]?).map fun index => s.loadOverlayById index ramAddr
  | .unloadOverlayById id => (table.overlays[id]?).map s.unloadOverlayBySectionIndex
  | .unloadOverlays ramAddr size => s.unloadOverlays ramAddr size
  | .registerRuntimeFragment rdram id fragmentPtr =>
      some (s.registerRuntimeFragment rdram id fragmentPtr)
  | .unregisterRuntimeFragment id => some (s.unregisterRuntimeFragment id)
  | .scanLoadedFragmentTrampolines rdram rom size =>
      some (s.scanLoadedFragmentTrampolines rdram rom size)

/-- `init_overlays` has run. -/
def OverlaysStarted (s : Overlays table) : Prop := s = Overlays.initOverlays table

end N64ModernRuntime.Librecomp
