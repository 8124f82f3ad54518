import N64ModernRuntime.Librecomp.Sections

/-!
# overlays.cpp: the jump slots of fragments

Between its header and its first function a fragment has slots `J target; nop`.
A slot is installed in `func_map` under the function that its target leads to,
or waits on a list until the section of its target has been loaded.
-/

set_option autoImplicit false

namespace N64ModernRuntime.Librecomp

open AddressMap

/-- Guest memory by host offset; words are stored with their bytes swapped. -/
abbrev Rdram := UInt32 → UInt8

/-- The four bytes from a physical address on, in guest order. -/
def rdBe32 (rdram : Rdram) (paddr : UInt32) : UInt32 :=
  ([0, 1, 2, 3] : List UInt32).foldl
    (fun v i => (v <<< 8) ||| (rdram ((paddr + i) ^^^ 3)).toUInt32) 0

def readRdramU32Be (rdram : Rdram) (vaddr : UInt32) : UInt32 := rdBe32 rdram (vaddr &&& 0x1FFFFFFF)

/-- 0 where the instruction is neither J nor JAL. -/
def decodeJalTarget (instr pcDelaySlot : UInt32) : UInt32 :=
  let opcode : UInt32 := (instr >>> 26) &&& 0x3F
  if opcode ≠ 0x02 ∧ opcode ≠ 0x03 then 0
  else (pcDelaySlot &&& (0xF0000000 : UInt32)) ||| ((instr &&& (0x03FFFFFF : UInt32)) <<< 2)

def funcEntryIsLiveFragmentJumpSlot (rdram : Rdram) (section_ : SectionTableEntry)
    (runtimeBase : UInt32) (func : FuncEntry) : Bool :=
  let instr := readRdramU32Be rdram (runtimeBase + func.offset)
  let delay := readRdramU32Be rdram (runtimeBase + func.offset + 4)
  funcEntryMayBeFragmentJumpSlot func && decide (delay = 0) &&
    decide ((instr >>> 26) &&& 0x3F = 0x02) &&
    decide (decodeJalTarget instr (section_.ramAddr + func.offset + 4) ≠ 0)

/-- `addr >= lo && addr < lo + size` over `int32_t` -/
def signedContains (lo size addr : UInt32) : Bool :=
  decide (lo.toInt32 ≤ addr.toInt32) && decide (addr.toInt32 < (lo + size).toInt32)

/-- What the signed comparison finds in a range is an offset of it, wherever the range wraps. -/
theorem offset_of_signedContains {lo size addr : UInt32} (inside : signedContains lo size addr) :
    addr - lo < size := by
  have signed : ∀ x : UInt32, x.toInt32.toInt = x.toBitVec.toInt := fun _ => rfl
  simp only [signedContains, Bool.and_eq_true, decide_eq_true_eq, Int32.le_iff_toInt_le,
    Int32.lt_iff_toInt_lt, signed, BitVec.toInt_eq_toNat_cond, UInt32.toNat_toBitVec,
    UInt32.toNat_add] at inside
  rw [UInt32.lt_iff_toNat_lt, UInt32.toNat_sub]
  have := lo.toNat_lt
  have := size.toNat_lt
  have := addr.toNat_lt
  split at inside <;> split at inside <;> split at inside <;> omega

/-- The same over `uint32_t` -/
def unsignedContains (lo size addr : UInt32) : Bool :=
  decide (lo ≤ addr) && decide (addr < lo + size)

variable {table : SectionTable}

namespace Overlays

/-- What `linkTime` is in the loaded section `e`, if that covers it. -/
def translateIn (linkTime : UInt32) (e : LoadedSection table) : Option UInt32 :=
  if unsignedContains e.loadedRamAddr e.entry.size linkTime then some linkTime
  else if unsignedContains e.entry.ramAddr e.entry.size linkTime then
    some (e.loadedRamAddr + (linkTime - e.entry.ramAddr))
  else match e.entry.originalFragmentBase with
    | none => none
    | some base =>
        if unsignedContains base e.entry.size linkTime then
          some (e.loadedRamAddr + (linkTime - base))
        else none

def translateLinkTimeToRuntime (s : Overlays table) (linkTime : UInt32) : UInt32 :=
  (s.loadedSections.findSome? (translateIn linkTime)).getD 0

/-- The loaded section of which `try_install_trampoline` installs the link-time aliases. -/
def trampolineOwner (s : Overlays table) (addr : UInt32) : Option (LoadedSection table) :=
  s.loadedSections.find? fun e => signedContains e.loadedRamAddr e.entry.size addr

/-- Aliases are installed only for a section that is not at its link address. -/
def trampolineAliases (s : Overlays table) (addr : UInt32) : List UInt32 :=
  match s.trampolineOwner addr with
  | none => []
  | some e =>
      let off := addr - e.loadedRamAddr
      if e.entry.ramAddr + off ≠ addr then
        (e.entry.ramAddr + off) :: e.entry.originalFragmentBase.toList.map (· + off)
      else []

def installSlot (s : Overlays table) (p : PendingTrampoline table) (func : RecompFunc) :
    Overlays table :=
  let addr := p.trampolineRuntimeAddr
  { s with funcMap := s.funcMap.insertAll (addr :: s.trampolineAliases addr) func }

/-- `none` where the target has no function yet. -/
def tryInstallTrampoline (s : Overlays table) (p : PendingTrampoline table) :
    Option (Overlays table) :=
  let runtimeTarget := s.translateLinkTimeToRuntime p.linkTimeTarget
  if runtimeTarget = 0 then none
  else (s.funcMap runtimeTarget).map fun func => s.installSlot p func

/-- What of the list is still pending, and the state after the rest was installed. -/
def retryPending : List (PendingTrampoline table) → Overlays table →
    List (PendingTrampoline table) × Overlays table
  | [], s => ([], s)
  | p :: rest, s =>
      match s.tryInstallTrampoline p with
      | some next => retryPending rest next
      | none =>
          let (left, next) := retryPending rest s
          (p :: left, next)

def retryPendingTrampolines (s : Overlays table) : Overlays table :=
  let (left, next) := retryPending s.pendingTrampolines s
  { next with pendingTrampolines := left }

def installOrQueue (s : Overlays table) (p : PendingTrampoline table) : Overlays table :=
  match s.tryInstallTrampoline p with
  | some next => next
  | none => { s with pendingTrampolines := s.pendingTrampolines ++ [p] }

end Overlays

def LoadedSection.HasSlotAt (e : LoadedSection table) (addr : UInt32) : Prop :=
  ∃ offset ∈ slotOffsets (firstFuncOffset e.entry funcEntryMayBeFragmentJumpSlot),
    addr = e.loadedRamAddr + offset

def slotJump (rdram : Rdram) (e : LoadedSection table) (slotOff : UInt32) : Option UInt32 :=
  let decodeBase := e.entry.originalFragmentBase.getD e.entry.ramAddr
  let instr := readRdramU32Be rdram (e.loadedRamAddr + slotOff)
  let delay := readRdramU32Be rdram (e.loadedRamAddr + slotOff + 4)
  let target := decodeJalTarget instr (decodeBase + slotOff + 4)
  if delay ≠ 0 ∨ target = 0 then none else some target

def fragmentSlotOffsets (rdram : Rdram) (e : LoadedSection table) : List UInt32 :=
  slotOffsets (firstFuncOffset e.entry
    (funcEntryIsLiveFragmentJumpSlot rdram e.entry e.loadedRamAddr))

def fragmentSlots (rdram : Rdram) (e : LoadedSection table) : List (PendingTrampoline table) :=
  (fragmentSlotOffsets rdram e).filterMap fun slotOff =>
    (slotJump rdram e slotOff).map fun target => ⟨e.loadedRamAddr + slotOff, target, e⟩

/-- "FRAGMENT" -/
def hasFragmentMagic (rdram : Rdram) (runtimeBase : UInt32) : Bool :=
  decide (readRdramU32Be rdram (runtimeBase + 8) = 0x46524147) &&
    decide (readRdramU32Be rdram (runtimeBase + 12) = 0x4D454E54)

def foundJumps (rdram : Rdram) (e : LoadedSection table) (slotOff : UInt32) : Option UInt32 :=
  if hasFragmentMagic rdram e.loadedRamAddr ∧ slotOff ∈ fragmentSlotOffsets rdram e then
    slotJump rdram e slotOff
  else none

def jumpsRead (rdram : Rdram) (e : LoadedSection table)
    (slotJumps : LoadedSection table → UInt32 → Option UInt32) :
    LoadedSection table → UInt32 → Option UInt32 :=
  fun e' => if e' = e then foundJumps rdram e else slotJumps e'

namespace Overlays

/-- The record of the section's jumps is brought up to date. -/
def readJumps (rdram : Rdram) (s : Overlays table) (e : LoadedSection table) : Overlays table :=
  { s with slotJumps := jumpsRead rdram e s.slotJumps }

def scanFragmentSectionTrampolines (rdram : Rdram) (s : Overlays table)
    (e : LoadedSection table) : Overlays table :=
  if hasFragmentMagic rdram e.loadedRamAddr then
    (fragmentSlots rdram e).foldl installOrQueue s
  else s

def writtenSections (s : Overlays table) (rom size : UInt32) : List (LoadedSection table) :=
  s.loadedSections.filter fun e => decide (e.entry.romAddr < rom + size) &&
    decide (rom < e.entry.romAddr + e.entry.size)

/-- Called after each load by DMA. -/
def scanLoadedFragmentTrampolines (rdram : Rdram) (s : Overlays table) (rom size : UInt32) :
    Overlays table :=
  let written := s.writtenSections rom size
  let read := written.foldl (readJumps rdram) s
  (written.foldl (scanFragmentSectionTrampolines rdram) read).retryPendingTrampolines

end Overlays

/-! ## Where slots can be -/

theorem mem_slotOffsets {first offset : UInt32} : offset ∈ slotOffsets first ↔
    ∃ k, 0x20 + 8 * k + 8 ≤ first.toNat ∧ offset = UInt32.ofNat (0x20 + 8 * k) := by
  simp only [slotOffsets, List.mem_map, List.mem_range]
  constructor
  · rintro ⟨k, below, rfl⟩
    refine ⟨k, ?_, rfl⟩
    omega
  · rintro ⟨k, below, rfl⟩
    refine ⟨k, ?_, rfl⟩
    omega

theorem earlierOffset_spec (isSlot : FuncEntry → Bool) (first : UInt32) (func : FuncEntry) :
    earlierOffset isSlot first func ≤ first ∧
      (¬ isSlot func → 0 < func.offset → earlierOffset isSlot first func ≤ func.offset) ∧
      (earlierOffset isSlot first func = first ∨
        ¬ isSlot func ∧ 0 < func.offset ∧ earlierOffset isSlot first func = func.offset) := by
  unfold earlierOffset
  split
  · rename_i slot
    exact ⟨UInt32.le_refl _, fun none => absurd slot none, .inl rfl⟩
  · rename_i other
    split
    · rename_i earlier
      exact ⟨UInt32.le_of_lt earlier.2, fun _ _ => UInt32.le_refl _, .inr ⟨other, earlier.1, rfl⟩⟩
    · rename_i later
      refine ⟨UInt32.le_refl _, fun _ positive => ?_, .inl rfl⟩
      exact UInt32.not_lt.mp fun below => later ⟨positive, below⟩

theorem foldl_earlierOffset (isSlot : FuncEntry → Bool) (funcs : List FuncEntry)
    (first : UInt32) :
    funcs.foldl (earlierOffset isSlot) first ≤ first ∧
      (∀ func ∈ funcs, ¬ isSlot func → 0 < func.offset →
        funcs.foldl (earlierOffset isSlot) first ≤ func.offset) ∧
      (funcs.foldl (earlierOffset isSlot) first = first ∨
        ∃ func ∈ funcs, ¬ isSlot func ∧ 0 < func.offset ∧
          funcs.foldl (earlierOffset isSlot) first = func.offset) := by
  induction funcs generalizing first with
  | nil => exact ⟨UInt32.le_refl _, by simp, .inl rfl⟩
  | cons func rest ih =>
      obtain ⟨below, bound, found⟩ := ih (earlierOffset isSlot first func)
      obtain ⟨headBelow, headBound, headFound⟩ := earlierOffset_spec isSlot first func
      rw [List.foldl_cons]
      refine ⟨UInt32.le_trans below headBelow, ?_, ?_⟩
      · intro other member none positive
        rcases List.mem_cons.mp member with rfl | member
        · exact UInt32.le_trans below (headBound none positive)
        · exact bound other member none positive
      · rcases found with same | ⟨other, member, found⟩
        · rw [same]
          rcases headFound with same | found
          · exact .inl same
          · exact .inr ⟨func, List.mem_cons_self .., found⟩
        · exact .inr ⟨other, List.mem_cons_of_mem _ member, found⟩

theorem live_mayBe (rdram : Rdram) (section_ : SectionTableEntry) (runtimeBase : UInt32)
    (func : FuncEntry) (live : funcEntryIsLiveFragmentJumpSlot rdram section_ runtimeBase func) :
    funcEntryMayBeFragmentJumpSlot func := by
  simp only [funcEntryIsLiveFragmentJumpSlot, Bool.and_eq_true] at live
  exact live.1.1.1

theorem firstFuncOffset_le_size (section_ : SectionTableEntry) (isSlot : FuncEntry → Bool) :
    firstFuncOffset section_ isSlot ≤ section_.size :=
  (foldl_earlierOffset isSlot section_.funcs section_.size).1

theorem slotOffset_lt {section_ : SectionTableEntry} {isSlot : FuncEntry → Bool} {offset : UInt32}
    (walked : offset ∈ slotOffsets (firstFuncOffset section_ isSlot)) : offset < section_.size := by
  obtain ⟨k, below, rfl⟩ := mem_slotOffsets.mp walked
  have bound := UInt32.le_iff_toNat_le.mp (firstFuncOffset_le_size section_ isSlot)
  have size := section_.size.toNat_lt
  rw [UInt32.lt_iff_toNat_lt, UInt32.toNat_ofNat']
  omega

theorem firstFuncOffset_le {section_ : SectionTableEntry} {isSlot : FuncEntry → Bool}
    {func : FuncEntry} (member : func ∈ section_.funcs) (other : ¬ isSlot func)
    (positive : 0 < func.offset) : firstFuncOffset section_ isSlot ≤ func.offset :=
  (foldl_earlierOffset isSlot section_.funcs section_.size).2.1 func member other positive

theorem firstFuncOffset_mono (section_ : SectionTableEntry) {isSlot isSlot' : FuncEntry → Bool}
    (more : ∀ func, isSlot func → isSlot' func) :
    firstFuncOffset section_ isSlot ≤ firstFuncOffset section_ isSlot' := by
  rcases (foldl_earlierOffset isSlot' section_.funcs section_.size).2.2 with
    whole | ⟨func, member, other, positive, found⟩
  · have size : firstFuncOffset section_ isSlot' = section_.size := whole
    rw [size]
    exact firstFuncOffset_le_size section_ isSlot
  · have offset : firstFuncOffset section_ isSlot' = func.offset := found
    rw [offset]
    exact firstFuncOffset_le member (fun slot => other (more func slot)) positive

theorem fragmentSlotOffsets_walked {rdram : Rdram} {e : LoadedSection table} {offset : UInt32}
    (scanned : offset ∈ fragmentSlotOffsets rdram e) :
    offset ∈ slotOffsets (firstFuncOffset e.entry funcEntryMayBeFragmentJumpSlot) := by
  obtain ⟨k, within, rfl⟩ := mem_slotOffsets.mp scanned
  refine mem_slotOffsets.mpr ⟨k, ?_, rfl⟩
  have later := UInt32.le_iff_toNat_le.mp
    (firstFuncOffset_mono e.entry (live_mayBe rdram e.entry e.loadedRamAddr))
  omega

theorem fragmentSlots_hasSlot {rdram : Rdram} {e : LoadedSection table}
    {p : PendingTrampoline table} (scanned : p ∈ fragmentSlots rdram e) :
    p.fragment = e ∧ e.HasSlotAt p.trampolineRuntimeAddr := by
  obtain ⟨offset, walked, kept⟩ := List.mem_filterMap.mp scanned
  obtain ⟨target, _, rfl⟩ := Option.map_eq_some_iff.mp kept
  exact ⟨rfl, offset, fragmentSlotOffsets_walked walked, rfl⟩

theorem fragmentSlots_jump {rdram : Rdram} {e : LoadedSection table}
    {p : PendingTrampoline table} (magic : hasFragmentMagic rdram e.loadedRamAddr)
    (scanned : p ∈ fragmentSlots rdram e) :
    foundJumps rdram e (p.trampolineRuntimeAddr - e.loadedRamAddr) = some p.linkTimeTarget := by
  obtain ⟨offset, walked, kept⟩ := List.mem_filterMap.mp scanned
  obtain ⟨target, jump, rfl⟩ := Option.map_eq_some_iff.mp kept
  have place : e.loadedRamAddr + offset - e.loadedRamAddr = offset := by
    rw [UInt32.add_comm, UInt32.add_sub_cancel]
  rw [place, foundJumps, if_pos ⟨magic, walked⟩]
  exact jump

theorem foundJumps_walked {rdram : Rdram} {e : LoadedSection table} {offset target : UInt32}
    (found : foundJumps rdram e offset = some target) :
    offset ∈ slotOffsets (firstFuncOffset e.entry funcEntryMayBeFragmentJumpSlot) := by
  unfold foundJumps at found
  split at found
  · rename_i scanned
    exact fragmentSlotOffsets_walked scanned.2
  · contradiction

theorem Overlays.trampolineOwner_some {s : Overlays table} {addr : UInt32} {e : LoadedSection table}
    (found : s.trampolineOwner addr = some e) : e ∈ s.loadedSections ∧ e.Owns addr := by
  have inside := List.find?_some found
  exact ⟨List.mem_of_find?_eq_some found, offset_of_signedContains inside⟩

end N64ModernRuntime.Librecomp
