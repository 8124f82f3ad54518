import N64ModernRuntime.Librecomp.Trampolines

/-!
# overlays.cpp: runtime fragments

A fragment that the game has put in RAM itself is registered with an id from
which its section is found.  Where no section is found for certain, what was
registered at the base is taken out and the interpreter runs the bytes.
-/

set_option autoImplicit false

namespace N64ModernRuntime.Librecomp

open AddressMap

/-! ## Which section a fragment is -/

def kSyntheticPoolBase : UInt32 := 0xC0000000
def kSyntheticPoolEnd : UInt32 := 0xE0000000
def kSyntheticPoolStride : UInt32 := 0x00100000

def isSyntheticAddr (addr : UInt32) : Bool :=
  decide (kSyntheticPoolBase ≤ addr) && decide (addr < kSyntheticPoolEnd)

def syntheticBucketIdx (addr : UInt32) : Nat :=
  ((addr - kSyntheticPoolBase) / kSyntheticPoolStride).toNat

def rdramBytes : UInt32 := 0x00800000

def fnv1a64 (data : List UInt8) : UInt64 :=
  data.foldl (fun h byte => (h ^^^ byte.toUInt64) * 0x100000001B3) 0xCBF29CE484222325

def hashWindow (rdram : Rdram) (paddr : UInt32) : List UInt8 :=
  (List.range 0x100).map fun i => rdram ((paddr + UInt32.ofNat i) ^^^ 3)

/-- `sizeInRam` of the header at a fragment, 0 where there is no header. -/
def fragSizeInRam (rdram : Rdram) (fragmentPtr : UInt32) : UInt32 :=
  let paddr := fragmentPtr &&& 0x1FFFFFFF
  if paddr + 0x20 ≤ rdramBytes ∧ rdBe32 rdram (paddr + 0x08) = 0x46524147 ∧
      rdBe32 rdram (paddr + 0x0C) = 0x4D454E54 then
    rdBe32 rdram (paddr + 0x1C)
  else 0

/-- The link base that follows from the jump at the start of a fragment. -/
def headerLinkVram (rdram : Rdram) (fragmentPtr : UInt32) : Option UInt32 :=
  let paddr := fragmentPtr &&& 0x1FFFFFFF
  let jInstr := rdBe32 rdram paddr
  if paddr + 0x14 ≤ rdramBytes ∧ rdBe32 rdram (paddr + 0x08) = 0x46524147 ∧
      rdBe32 rdram (paddr + 0x0C) = 0x4D454E54 ∧ (jInstr >>> 26) &&& 0x3F = 0x02 then
    some ((((jInstr &&& (0x03FFFFFF : UInt32)) <<< 2) ||| (0x80000000 : UInt32)) -
      rdBe32 rdram (paddr + 0x10))
  else none

def extentOk (sizeInRam : UInt32) (section_ : SectionTableEntry) : Bool :=
  decide (sizeInRam = 0) || decide (section_.size ≤ sizeInRam)

/-- Whether the id may mean the section: by the bucket of its link address, or, for a
section with a synthetic link address, by its original id. -/
def isCandidate (id : UInt32) (section_ : SectionTableEntry) : Bool :=
  if isSyntheticAddr section_.ramAddr then
    decide (section_.originalPatternId = id) && decide (section_.contentHash ≠ 0)
  else
    let bucket : UInt32 := (section_.ramAddr &&& (0x0FF00000 : UInt32)) >>> 0x14
    decide (0x10 ≤ bucket) && decide (bucket - 0x10 = id)

section Selection
variable (table : SectionTable) (rdram : Rdram) (id fragmentPtr : UInt32)

def SectionTable.candidates : List table.Index :=
  (List.finRange table.numCodeSections).filter fun i => isCandidate id (table.codeSections i)

/-- By the hash of the first bytes, else by the link base in the header. -/
def selectByContent (candidates : List table.Index) : Option table.Index :=
  let sizeInRam := fragSizeInRam rdram fragmentPtr
  let liveHash := fnv1a64 (hashWindow rdram (fragmentPtr &&& 0x1FFFFFFF))
  (candidates.find? fun i =>
      decide ((table.codeSections i).contentHash ≠ 0) &&
        decide ((table.codeSections i).contentHash = liveHash) &&
        extentOk sizeInRam (table.codeSections i)) <|>
    (headerLinkVram rdram fragmentPtr).bind fun linkVram =>
      candidates.find? fun i =>
        unsignedContains (table.codeSections i).ramAddr (table.codeSections i).size linkVram &&
          extentOk sizeInRam (table.codeSections i)

def selectByHeader : Option table.Index :=
  (headerLinkVram rdram fragmentPtr).bind fun linkVram =>
    (List.finRange table.numCodeSections).find? fun i =>
      decide ((table.codeSections i).ramAddr = linkVram) &&
        extentOk (fragSizeInRam rdram fragmentPtr) (table.codeSections i)

/-- The only candidate that is not larger than the fragment. -/
def selectBySize (candidates : List table.Index) : Option table.Index :=
  let sizeInRam := fragSizeInRam rdram fragmentPtr
  if sizeInRam = 0 then none
  else match candidates.filter fun i => decide ((table.codeSections i).size ≤ sizeInRam) with
    | [sole] => some sole
    | _ => none

/-- `none` where `register_runtime_fragment` leaves the fragment unregistered. -/
def selectSection : Option table.Index :=
  let candidates := table.candidates id
  let byId :=
    if candidates.length = 1 ∧
        ¬ candidates.any (fun i => decide ((table.codeSections i).contentHash ≠ 0)) then
      candidates.head?
    else selectByContent table rdram fragmentPtr candidates
  (byId <|> selectByHeader table rdram fragmentPtr <|>
    selectBySize table rdram fragmentPtr candidates).filter fun i =>
      extentOk (fragSizeInRam rdram fragmentPtr) (table.codeSections i)

end Selection

/-! ## Registration -/

variable {table : SectionTable}

/-- Adds the section, or moves its first entry. -/
def setLoaded : List (LoadedSection table) → table.Index → UInt32 → List (LoadedSection table)
  | [], index, base => [⟨base, index⟩]
  | e :: rest, index, base =>
      if e.sectionTableIndex = index then ⟨base, index⟩ :: rest
      else e :: setLoaded rest index base

namespace Overlays

/-- One round of the loop of `evict_prior_at_base`. -/
def evict (s : Overlays table) (e : LoadedSection table) : Overlays table :=
  let first := firstFuncOffset e.entry funcEntryMayBeFragmentJumpSlot
  s.drop e ((slotOffsets first).foldl (eraseFragmentSlotAliases e.entry e.loadedRamAddr)
    (e.entry.funcs.foldl (eraseSectionFuncAliases e.entry e.loadedRamAddr) s.funcMap))

/-- The entries that `evict_prior_at_base` takes out. -/
def priorAtBase (s : Overlays table) (skip : Option table.Index) (fragmentPtr : UInt32) :
    List (LoadedSection table) :=
  s.loadedSections.filter fun e =>
    decide (e.loadedRamAddr = fragmentPtr) && decide (some e.sectionTableIndex ≠ skip)

def evictPriorAtBase (s : Overlays table) (skip : Option table.Index) (fragmentPtr : UInt32) :
    Overlays table :=
  (s.priorAtBase skip fragmentPtr).foldl evict s

/-- The last live range of the id, if it starts at another base. -/
def supersededRange (s : Overlays table) (id fragmentPtr : UInt32) : Option Range :=
  (s.fragLiveRange id).filter fun range => decide (range.lo ≠ fragmentPtr)

/-- The functions in the range are gone; what is loaded there is still listed. -/
def supersede (s : Overlays table) (id fragmentPtr : UInt32) : Overlays table :=
  { s with
    funcMap := match s.supersededRange id fragmentPtr with
      | none => s.funcMap
      | some range => fragRangeErase s.funcMap range }

def recordLiveRange (s : Overlays table) (id : UInt32) (range : Range) : Overlays table :=
  { s with fragLiveRange := fun i => if i = id then some range else s.fragLiveRange i }

def leaveUnregistered (s : Overlays table) (rdram : Rdram) (id fragmentPtr : UInt32) :
    Overlays table :=
  let next := (s.evictPriorAtBase none fragmentPtr).supersede id fragmentPtr
  let sizeInRam := fragSizeInRam rdram fragmentPtr
  if sizeInRam ≠ 0 then next.recordLiveRange id ⟨fragmentPtr, sizeInRam⟩ else next

/-- From the installation of the functions to `runtime_fragment_id_to_section`. -/
def bindSection (s : Overlays table) (id : UInt32) (index : table.Index) (fragmentPtr : UInt32) :
    Overlays table :=
  let section_ := table.codeSections index
  let loaded := setLoaded s.loadedSections index fragmentPtr
  { s with
    funcMap := section_.funcs.foldl (installSectionFuncAliases section_ fragmentPtr) s.funcMap
    sectionAddresses := secaddrSet s.sectionAddresses section_.index fragmentPtr
    fragLiveRange := fun i =>
      if i = id then some ⟨fragmentPtr, section_.size⟩ else s.fragLiveRange i
    syntheticFragments := fun slot =>
      if isSyntheticAddr section_.ramAddr ∧ slot = syntheticBucketIdx section_.ramAddr then
        some ⟨fragmentPtr, section_.size, index⟩
      else s.syntheticFragments slot
    loadedSections := loaded
    slotJumps := jumpsOf s.slotJumps loaded
    runtimeFragmentIdToSection := fun i =>
      if i = id then some index else s.runtimeFragmentIdToSection i }

def registerRuntimeFragment (s : Overlays table) (rdram : Rdram) (id fragmentPtr : UInt32) :
    Overlays table :=
  if fragmentPtr = 0 then s
  else match selectSection table rdram id fragmentPtr with
    | none => s.leaveUnregistered rdram id fragmentPtr
    | some index =>
        let cleared := (s.evictPriorAtBase (some index) fragmentPtr).supersede id fragmentPtr
        let bound := (cleared.bindSection id index fragmentPtr).readJumps rdram ⟨fragmentPtr, index⟩
        (scanFragmentSectionTrampolines rdram bound ⟨fragmentPtr, index⟩).retryPendingTrampolines

def unregisterRuntimeFragment (s : Overlays table) (id : UInt32) : Overlays table :=
  match s.runtimeFragmentIdToSection id with
  | none => s
  | some index => s.unloadOverlayBySectionIndex index

end Overlays

end N64ModernRuntime.Librecomp
