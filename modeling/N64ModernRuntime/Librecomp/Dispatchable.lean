import N64ModernRuntime.Librecomp.FuncMap
import N64ModernRuntime.Librecomp.LoadedSections

/-!
# overlays.cpp: loaded code is dispatchable

Every function of a loaded section is found in `func_map` at its runtime
address, unless it is a jump slot: a slot is given the function that its jump
leads to.  What is written or erased for one section must not lie in the range
of another one; the range that a superseded fragment was last registered with is
erased whatever is loaded there now.
-/

set_option autoImplicit false

namespace N64ModernRuntime.Librecomp

open AddressMap Transition

variable {table : SectionTable}

/-- The addresses at which code is linked: its own, or the one of its pattern. -/
def SectionTableEntry.LinkBase (section_ : SectionTableEntry) (base : UInt32) : Prop :=
  base = section_.ramAddr ∨ section_.originalFragmentBase = some base

/-- The runtime range is one of addresses, and no link range reaches into it, except that a
section may be loaded where it is linked. -/
structure SectionTable.Usable (table : SectionTable) (index : table.Index) (base : UInt32) :
    Prop where
  fits : (table.rangeAt index base).Fits
  unlinked : ∀ other linkBase, (table.codeSections other).LinkBase linkBase →
    (other = index ∧ linkBase = base) ∨
      ∀ offset, offset < (table.codeSections other).size →
        ¬ (table.rangeAt index base).Contains (linkBase + offset)

def UsesFreeRanges (_ : Overlays table) : Move table → Prop
  | .load index ram => table.Usable index ram
  | .bind _ _ index fragmentPtr => table.Usable index fragmentPtr
  | _ => True

/-! The functions that are looked for are all, or those that are no jump slots. -/

section Conditions
variable (looked : FuncEntry → Prop)

def LoadedSection.FuncAt (e : LoadedSection table) (a : UInt32) : Prop :=
  ∃ func ∈ e.entry.funcs, looked func ∧ a = e.loadedRamAddr + func.offset

def Overlays.WaitsBeside (s : Overlays table) (e : LoadedSection table) : Prop :=
  ∀ p ∈ s.pendingTrampolines, ¬ e.FuncAt looked p.trampolineRuntimeAddr

def Overlays.SupersedesNothing (s : Overlays table) (id fragmentPtr : UInt32)
    (moves : Option table.Index) : Prop :=
  ∀ range, s.supersededRange id fragmentPtr = some range →
    ∀ e ∈ s.loadedSections, some e.sectionTableIndex ≠ moves →
      ∀ a, e.FuncAt looked a → ¬ range.Contains a

def FindsNoJumpAt (rdram : Rdram) (e : LoadedSection table) : Prop :=
  ∀ func ∈ e.entry.funcs, looked func → foundJumps rdram e func.offset = none

def KeepsOthers (s : Overlays table) : Move table → Prop
  | .load index ram => s.WaitsBeside looked ⟨ram, index⟩
  | .supersede id fragmentPtr => s.SupersedesNothing looked id fragmentPtr none
  | .bind rdram id index fragmentPtr =>
      s.WaitsBeside looked ⟨fragmentPtr, index⟩ ∧
        s.SupersedesNothing looked id fragmentPtr (some index) ∧
        FindsNoJumpAt looked rdram (⟨fragmentPtr, index⟩ : LoadedSection table)
  | .scan rdram e => FindsNoJumpAt looked rdram e
  | _ => True

def Overlays.Finds (s : Overlays table) (e : LoadedSection table) : Prop :=
  ∀ func ∈ e.entry.funcs, looked func → ∀ f, func.func = some f →
    s.funcMap (e.loadedRamAddr + func.offset) = some f

structure Overlays.Dispatches (s : Overlays table) : Prop where
  disjoint : s.Disjoint
  usable : ∀ e ∈ s.loadedSections, table.Usable e.sectionTableIndex e.loadedRamAddr
  waits : ∀ e ∈ s.loadedSections, s.WaitsBeside looked e
  unjumped : ∀ e : LoadedSection table, ∀ func ∈ e.entry.funcs, looked func →
    s.slotJumps e func.offset = none
  finds : ∀ e ∈ s.loadedSections, s.Finds looked e

end Conditions

/-! ## Whose addresses are whose -/

section Addresses
variable {e : LoadedSection table} {a : UInt32}

theorem runtime_in_range (fits : e.range.Fits) {offset : UInt32} (within : offset < e.entry.size) :
    e.range.Contains (e.loadedRamAddr + offset) :=
  Range.contains_add (r := e.range) fits within

/-- The aliases of one section are not in the runtime range of another one. -/
theorem aliases_outside {other : table.Index} {base offset : UInt32}
    (usable : table.Usable e.sectionTableIndex e.loadedRamAddr)
    (different : other ≠ e.sectionTableIndex) (fits : (table.rangeAt other base).Fits)
    (apart : (table.rangeAt other base).Apart e.range)
    (within : offset < (table.codeSections other).size)
    (alias_ : a ∈ (table.codeSections other).aliases base offset) : ¬ e.range.Contains a := by
  have linked : ∀ linkBase, (table.codeSections other).LinkBase linkBase →
      ¬ e.range.Contains (linkBase + offset) := by
    intro linkBase link
    rcases usable.unlinked other linkBase link with ⟨same, _⟩ | outside
    · exact absurd same different
    · exact outside offset within
  rcases mem_aliases.mp alias_ with rfl | rfl | ⟨linkBase, known, rfl⟩
  · exact apart _ (Range.contains_add fits within)
  · exact linked _ (.inl rfl)
  · exact linked _ (.inr known)

/-- In its own runtime range a section has no alias but the runtime address itself. -/
theorem aliases_own {index : table.Index} {base offset : UInt32} (usable : table.Usable index base)
    (within : offset < (table.codeSections index).size)
    (alias_ : a ∈ (table.codeSections index).aliases base offset)
    (inside : (table.rangeAt index base).Contains a) : a = base + offset := by
  have linked : ∀ linkBase, (table.codeSections index).LinkBase linkBase → a = linkBase + offset →
      a = base + offset := by
    intro linkBase link address
    rcases usable.unlinked index linkBase link with ⟨_, same⟩ | outside
    · rw [address, same]
    · rw [address] at inside
      exact absurd inside (outside offset within)
  rcases mem_aliases.mp alias_ with runtime | link | ⟨linkBase, known, link⟩
  · exact runtime
  · exact linked _ (.inl rfl) link
  · exact linked _ (.inr known) link

theorem slot_ne_func (slot : e.HasSlotAt a) {func : FuncEntry} (member : func ∈ e.entry.funcs)
    (other : ¬ funcEntryMayBeFragmentJumpSlot func) : a ≠ e.loadedRamAddr + func.offset := by
  rintro rfl
  obtain ⟨offset, walked, address⟩ := slot
  have same : func.offset = offset := (UInt32.add_right_inj e.loadedRamAddr).mp address
  obtain ⟨k, below, exact_⟩ := mem_slotOffsets.mp walked
  have size := (firstFuncOffset e.entry funcEntryMayBeFragmentJumpSlot).toNat_lt
  have position : func.offset.toNat = 0x20 + 8 * k := by
    rw [same, exact_, UInt32.toNat_ofNat']
    omega
  have positive : 0 < func.offset := by
    rw [UInt32.lt_iff_toNat_lt, position]
    exact Nat.lt_of_lt_of_le (by decide) (Nat.le_add_right 0x20 _)
  have first := UInt32.le_iff_toNat_le.mp (firstFuncOffset_le member other positive)
  omega

end Addresses

/-! ## The moves -/

namespace Overlays

variable {looked : FuncEntry → Prop}

theorem install_elsewhere {e : LoadedSection table} {index : table.Index} {base a : UInt32}
    {funcMap : FuncMap} (usable : table.Usable e.sectionTableIndex e.loadedRamAddr)
    (different : index ≠ e.sectionTableIndex) (fits : (table.rangeAt index base).Fits)
    (apart : (table.rangeAt index base).Apart e.range) (inside : e.range.Contains a) :
    (table.codeSections index).funcs.foldl
      (installSectionFuncAliases (table.codeSections index) base) funcMap a = funcMap a := by
  refine installAliases_other fun func member alias_ => ?_
  exact aliases_outside usable different fits apart (table.offset_lt index func member) alias_
    inside

theorem install_finds {index : table.Index} {base : UInt32} {funcMap : FuncMap}
    (usable : table.Usable index base) {func : FuncEntry}
    (member : func ∈ (table.codeSections index).funcs) {f : RecompFunc} (known : func.func = some f) :
    (table.codeSections index).funcs.foldl
      (installSectionFuncAliases (table.codeSections index) base) funcMap (base + func.offset) =
        some f := by
  refine installAliases_own (fun other member' g known' alias_ => ?_)
    (.inl ⟨func, member, known, mem_aliases.mpr (.inl rfl)⟩)
  have inside : (table.rangeAt index base).Contains (base + func.offset) :=
    Range.contains_add usable.fits (table.offset_lt index func member)
  have address := aliases_own usable (table.offset_lt index other member') alias_ inside
  have same : func = other := table.offset_injective index func member other member'
    ((UInt32.add_right_inj base).mp address)
  rw [← same, known] at known'
  exact (Option.some.inj known').symm

theorem Finds.of_agrees {s next : Overlays table} {e : LoadedSection table}
    (finds : s.Finds looked e)
    (agrees : ∀ a, e.FuncAt looked a → next.funcMap a = s.funcMap a) : next.Finds looked e := by
  intro func member among f known
  rw [agrees _ ⟨func, member, among, rfl⟩]
  exact finds func member among f known

theorem funcAt_in_range {e : LoadedSection table} {a : UInt32} (fits : e.range.Fits)
    (place : e.FuncAt looked a) : e.range.Contains a := by
  obtain ⟨func, member, _, rfl⟩ := place
  exact runtime_in_range fits (table.offset_lt e.sectionTableIndex func member)

theorem Dispatches.unjumped_of {s : Overlays table} (dispatches : s.Dispatches looked)
    (loaded : List (LoadedSection table)) (e : LoadedSection table) (func : FuncEntry)
    (member : func ∈ e.entry.funcs) (among : looked func) :
    jumpsOf s.slotJumps loaded e func.offset = none := by
  unfold jumpsOf
  split
  · exact dispatches.unjumped e func member among
  · rfl

theorem unjumped_read {rdram : Rdram} {e : LoadedSection table}
    {jumps : LoadedSection table → UInt32 → Option UInt32} (noJump : FindsNoJumpAt looked rdram e)
    (before : ∀ e : LoadedSection table, ∀ func ∈ e.entry.funcs, looked func →
      jumps e func.offset = none)
    (e' : LoadedSection table) (func : FuncEntry) (member : func ∈ e'.entry.funcs)
    (among : looked func) : jumpsRead rdram e jumps e' func.offset = none := by
  unfold jumpsRead
  split
  · rename_i own
    subst own
    exact noJump func member among
  · exact before e' func member among

theorem Dispatches.drop {s : Overlays table} {gone : LoadedSection table} {funcMap : FuncMap}
    (dispatches : s.Dispatches looked) (disjoint : (s.drop gone funcMap).Disjoint)
    (agrees : ∀ e ∈ s.loadedSections, e ≠ gone → ∀ a, e.range.Contains a →
      funcMap a = s.funcMap a) :
    (s.drop gone funcMap).Dispatches looked := by
  have left : ∀ e ∈ (s.drop gone funcMap).loadedSections, e ∈ s.loadedSections ∧ e ≠ gone := by
    intro e member
    have erased := (List.Nodup.mem_erase_iff (indices_nodup dispatches.disjoint.indices)).mp member
    exact ⟨erased.2, erased.1⟩
  refine ⟨disjoint, fun e member => dispatches.usable e (left e member).1,
    fun e member => dispatches.waits e (left e member).1, dispatches.unjumped_of _,
    fun e member => ?_⟩
  obtain ⟨loaded, other⟩ := left e member
  refine (dispatches.finds e loaded).of_agrees fun a place => ?_
  exact agrees e loaded other a (funcAt_in_range (dispatches.usable e loaded).fits place)

/-- The aliases of a section that is taken out are not in the range of one that stays. -/
theorem Dispatches.aliases_elsewhere {s : Overlays table} {gone e : LoadedSection table}
    {a offset : UInt32} (dispatches : s.Dispatches looked) (member : gone ∈ s.loadedSections)
    (loaded : e ∈ s.loadedSections) (other : e ≠ gone) (within : offset < gone.entry.size)
    (inside : e.range.Contains a) : a ∉ gone.entry.aliases gone.loadedRamAddr offset := by
  intro alias_
  have different : gone.sectionTableIndex ≠ e.sectionTableIndex := fun same =>
    other (indices_eq dispatches.disjoint.indices loaded member same.symm)
  exact aliases_outside (dispatches.usable e loaded) different (dispatches.usable gone member).fits
    (dispatches.disjoint.apart member loaded (Ne.symm other)) within alias_ inside

theorem Dispatches.unload {s : Overlays table} {gone : LoadedSection table}
    (dispatches : s.Dispatches looked) (member : gone ∈ s.loadedSections)
    (disjoint : (s.unloadSection gone).Disjoint) : (s.unloadSection gone).Dispatches looked := by
  refine dispatches.drop disjoint fun e loaded other a inside => ?_
  rw [fragRangeErase_other (dispatches.disjoint.apart loaded member other a inside)]
  refine eraseAliases_other fun func listed => ?_
  exact dispatches.aliases_elsewhere member loaded other
    (table.offset_lt gone.sectionTableIndex func listed) inside

theorem Dispatches.evict {s : Overlays table} {gone : LoadedSection table}
    (dispatches : s.Dispatches looked) (member : gone ∈ s.loadedSections)
    (disjoint : (s.evict gone).Disjoint) : (s.evict gone).Dispatches looked := by
  refine dispatches.drop disjoint fun e loaded other a inside => ?_
  rw [eraseSlots_other fun offset walked =>
    dispatches.aliases_elsewhere member loaded other (slotOffset_lt walked) inside]
  refine eraseAliases_other fun func listed => ?_
  exact dispatches.aliases_elsewhere member loaded other
    (table.offset_lt gone.sectionTableIndex func listed) inside

theorem Dispatches.place {s next : Overlays table} {index : table.Index} {base : UInt32}
    {funcMap : FuncMap} (dispatches : s.Dispatches looked) (disjoint : next.Disjoint)
    (list : ∀ e, e ∈ next.loadedSections ↔
      e = ⟨base, index⟩ ∨ e ∈ s.loadedSections ∧ e.sectionTableIndex ≠ index)
    (pending : next.pendingTrampolines = s.pendingTrampolines)
    (installed : next.funcMap = (table.codeSections index).funcs.foldl
      (installSectionFuncAliases (table.codeSections index) base) funcMap)
    (kept : ∀ e ∈ s.loadedSections, e.sectionTableIndex ≠ index → ∀ a, e.FuncAt looked a →
      funcMap a = s.funcMap a)
    (unjumped : ∀ e : LoadedSection table, ∀ func ∈ e.entry.funcs, looked func →
      next.slotJumps e func.offset = none)
    (usable : table.Usable index base) (free : s.FreeFor index base)
    (waits : s.WaitsBeside looked ⟨base, index⟩) : next.Dispatches looked := by
  refine ⟨disjoint, fun e member => ?_, fun e member => ?_, unjumped, fun e member => ?_⟩
  · rcases (list e).mp member with rfl | ⟨loaded, _⟩
    · exact usable
    · exact dispatches.usable e loaded
  · rw [WaitsBeside, pending]
    rcases (list e).mp member with rfl | ⟨loaded, _⟩
    · exact waits
    · exact dispatches.waits e loaded
  · rcases (list e).mp member with rfl | ⟨loaded, other⟩
    · intro func listed _ f known
      rw [installed]
      exact install_finds usable listed known
    · refine (dispatches.finds e loaded).of_agrees fun a place => ?_
      have inside := funcAt_in_range (dispatches.usable e loaded).fits place
      rw [installed, install_elsewhere (dispatches.usable e loaded) (Ne.symm other) usable.fits
        (free e loaded other) inside]
      exact kept e loaded other a place

/-- What a slot is installed under is no function's place, if the slot itself is at none. -/
theorem Dispatches.slot_keys {s : Overlays table} {p : PendingTrampoline table}
    {e : LoadedSection table} {a : UInt32} (dispatches : s.Dispatches looked)
    (loaded : e ∈ s.loadedSections) {func : FuncEntry} (listed : func ∈ e.entry.funcs)
    (atSlot : p.trampolineRuntimeAddr ≠ e.loadedRamAddr + func.offset)
    (key : a ∈ p.trampolineRuntimeAddr :: s.trampolineAliases p.trampolineRuntimeAddr) :
    a ≠ e.loadedRamAddr + func.offset := by
  have usable := dispatches.usable e loaded
  have inside : e.range.Contains (e.loadedRamAddr + func.offset) :=
    runtime_in_range usable.fits (table.offset_lt e.sectionTableIndex func listed)
  -- under a link-time alias of the section that it is found in
  have linked : ∀ owner ∈ s.loadedSections, owner.Owns p.trampolineRuntimeAddr →
      ∀ linkBase, owner.entry.LinkBase linkBase →
        linkBase + (p.trampolineRuntimeAddr - owner.loadedRamAddr) ≠
          e.loadedRamAddr + func.offset := by
    intro owner member owns linkBase link same
    rcases usable.unlinked owner.sectionTableIndex linkBase link with ⟨own, base⟩ | outside
    · rw [indices_eq dispatches.disjoint.indices member loaded own, base, UInt32.add_comm,
        UInt32.sub_add_cancel] at same
      exact atSlot same
    · rw [← same] at inside
      exact outside _ owns inside
  rcases List.mem_cons.mp key with rfl | alias_
  · exact atSlot
  · unfold trampolineAliases at alias_
    cases found : s.trampolineOwner p.trampolineRuntimeAddr with
    | none => rw [found] at alias_; cases alias_
    | some owner =>
        rw [found] at alias_
        obtain ⟨member, owns⟩ := trampolineOwner_some found
        dsimp only at alias_
        split at alias_
        · rcases List.mem_cons.mp alias_ with rfl | original
          · exact linked owner member owns _ (.inl rfl)
          · obtain ⟨linkBase, known, rfl⟩ := List.mem_map.mp original
            exact linked owner member owns _ (.inr (Option.mem_toList.mp known))
        · contradiction

/-- The slots that a scan finds are at no function of a loaded section. -/
theorem Dispatches.scan_beside {s : Overlays table} {p : PendingTrampoline table}
    (dispatches : s.Dispatches looked) (scanned : p.FromScan s) (e : LoadedSection table)
    (loaded : e ∈ s.loadedSections) : ¬ e.FuncAt looked p.trampolineRuntimeAddr := by
  intro place
  by_cases own : p.fragment = e
  · obtain ⟨func, member, among, address⟩ := place
    have current := scanned.current
    rw [PendingTrampoline.Current, own, address, UInt32.add_comm, UInt32.add_sub_cancel,
      dispatches.unjumped e func member among] at current
    cases current
  · obtain ⟨offset, walked, address⟩ := scanned.slot
    have inFragment : p.fragment.range.Contains p.trampolineRuntimeAddr := by
      rw [address]
      exact runtime_in_range (dispatches.usable _ scanned.loaded).fits (slotOffset_lt walked)
    exact dispatches.disjoint.apart scanned.loaded loaded own _ inFragment
      (funcAt_in_range (dispatches.usable e loaded).fits place)

theorem Dispatches.install {s : Overlays table} {p : PendingTrampoline table}
    (dispatches : s.Dispatches looked)
    (beside : ∀ e ∈ s.loadedSections, ¬ e.FuncAt looked p.trampolineRuntimeAddr)
    (func : RecompFunc) : (s.installSlot p func).Dispatches looked := by
  refine ⟨⟨dispatches.disjoint.indices, dispatches.disjoint.ranges⟩, dispatches.usable,
    dispatches.waits, dispatches.unjumped, fun e loaded entry listed among f known => ?_⟩
  have outside : e.loadedRamAddr + entry.offset ∉
      p.trampolineRuntimeAddr :: s.trampolineAliases p.trampolineRuntimeAddr := fun key =>
    dispatches.slot_keys loaded listed
      (fun same => beside e loaded ⟨entry, listed, among, same⟩) key rfl
  exact (insertAll_other outside).trans (dispatches.finds e loaded entry listed among f known)

end Overlays

theorem dispatches_keeps (looked : FuncEntry → Prop) : @Keeps table
    (fun s m => (LoadsUnlisted s m ∧ LoadsFree s m) ∧ UsesFreeRanges s m ∧ KeepsOthers looked s m)
    (Overlays.Dispatches looked) where
  move := by
    intro s m dispatches enabled ⟨allowed, usable, others⟩
    have disjoint := disjoint_keeps.move s m dispatches.disjoint enabled allowed
    cases m with
    | unload e => exact dispatches.unload enabled disjoint
    | evict e => exact dispatches.evict enabled disjoint
    | load index ram =>
        have unlisted := Overlays.loadedAs_none.mp allowed.1
        refine dispatches.place disjoint (fun e => ?_) rfl rfl (fun _ _ _ _ _ => rfl)
          dispatches.unjumped usable allowed.2 others
        have appended : (Move.apply s (.load index ram)).loadedSections =
            s.loadedSections ++ [⟨ram, index⟩] := rfl
        have absent := unlisted e
        rw [appended, List.mem_append, List.mem_singleton]
        tauto
    | supersede id fragmentPtr =>
        refine ⟨disjoint, dispatches.usable, dispatches.waits, dispatches.unjumped,
          fun e loaded => ?_⟩
        refine (dispatches.finds e loaded).of_agrees fun a place =>
          supersede_other fun range known => ?_
        exact others range known e loaded (Option.some_ne_none _) a place
    | recordLiveRange id range =>
        exact ⟨disjoint, dispatches.usable, dispatches.waits, dispatches.unjumped,
          dispatches.finds⟩
    | bind rdram id index fragmentPtr =>
        obtain ⟨waits, supersedes, noJump⟩ := others
        refine dispatches.place disjoint
          (fun e => Overlays.mem_setLoaded_iff dispatches.disjoint.indices index fragmentPtr e)
          rfl rfl (fun e loaded other a place => ?_)
          (Overlays.unjumped_read noJump (dispatches.unjumped_of _)) usable allowed.2 waits
        refine supersede_other fun range known => ?_
        exact supersedes range known e loaded (fun same => other (Option.some.inj same)) a place
    | scan rdram e =>
        exact ⟨disjoint, dispatches.usable, dispatches.waits,
          Overlays.unjumped_read others dispatches.unjumped, dispatches.finds⟩
  install := by
    intro s next p dispatches origin installed
    obtain ⟨func, rfl⟩ := tryInstall_some installed
    refine dispatches.install (fun e loaded => ?_) func
    rcases origin with pending | scanned
    · exact dispatches.waits e loaded p pending
    · exact dispatches.scan_beside scanned e loaded
  queue := by
    intro s p dispatches scanned
    refine ⟨⟨dispatches.disjoint.indices, dispatches.disjoint.ranges⟩, dispatches.usable,
      fun e loaded q member => ?_, dispatches.unjumped, dispatches.finds⟩
    rcases List.mem_append.mp member with old | new
    · exact dispatches.waits e loaded q old
    · rw [List.mem_singleton.mp new]
      exact dispatches.scan_beside scanned e loaded
  unqueue := by
    intro s left dispatches among
    exact ⟨⟨dispatches.disjoint.indices, dispatches.disjoint.ranges⟩, dispatches.usable,
      fun e loaded p member => dispatches.waits e loaded p (among p member), dispatches.unjumped,
      dispatches.finds⟩

/-! ## The runs -/

/-- A call by which nothing comes to lie over a loaded section or where a section is linked,
which erases a superseded range only where no function is, loads no section where a slot
still waits at one of its functions, and finds a jump at no function. -/
def StaysApart (looked : FuncEntry → Prop) (s : Overlays table) (call : Call) : Prop :=
  LoadsApart s call ∧ MovesMeet UsesFreeRanges s call ∧ MovesMeet (KeepsOthers looked) s call

theorem dispatches_reached {looked : FuncEntry → Prop} {s : Overlays table}
    (reached : Reach overlayStep (StaysApart looked) OverlaysStarted s) : s.Dispatches looked := by
  refine reached.invariant ?_ ?_
  · rintro s rfl
    exact ⟨⟨List.Pairwise.nil, List.Pairwise.nil⟩, fun e none => (List.not_mem_nil none).elim,
      fun e none => (List.not_mem_nil none).elim, fun _ _ _ _ => rfl,
      fun e none => (List.not_mem_nil none).elim⟩
  · intro s call t dispatches apart returned
    have allowed := Overlays.calls_allowed dispatches.disjoint apart.1
    exact (dispatches_keeps looked).step dispatches (allowed.and (apart.2.1.and apart.2.2)) returned

/-- What the code never takes for a slot has no jump found at it. -/
theorem findsNoJumpAt_of_not_slot (rdram : Rdram) (e : LoadedSection table) :
    FindsNoJumpAt (fun func => ¬ funcEntryMayBeFragmentJumpSlot func) rdram e := by
  intro func member other
  cases found : foundJumps rdram e func.offset with
  | none => rfl
  | some target => exact absurd rfl (slot_ne_func ⟨_, foundJumps_walked found, rfl⟩ member other)

/-- Jump slots or not, the other functions are dispatchable at their runtime addresses. -/
theorem other_code_dispatchable {s : Overlays table}
    (reached : Reach overlayStep (StaysApart fun func => ¬ funcEntryMayBeFragmentJumpSlot func)
      OverlaysStarted s) :
    ∀ e ∈ s.loadedSections, ∀ func ∈ e.entry.funcs, ¬ funcEntryMayBeFragmentJumpSlot func →
      ∀ f, func.func = some f → s.funcMap (e.loadedRamAddr + func.offset) = some f :=
  (dispatches_reached reached).finds

def Overlays.Dispatchable (s : Overlays table) : Prop :=
  ∀ e ∈ s.loadedSections, (∀ e' ∈ s.loadedSections, e' ≠ e → e.range.Apart e'.range) →
    ∀ func ∈ e.entry.funcs, ∀ f, func.func = some f →
      s.funcMap (e.loadedRamAddr + func.offset) = some f

theorem loaded_code_dispatchable {s : Overlays table}
    (reached : Reach overlayStep (StaysApart fun _ => True) OverlaysStarted s) :
    s.Dispatchable :=
  fun e loaded _ func member => (dispatches_reached reached).finds e loaded func member trivial

/-- Below its link addresses a fragment can be anywhere. -/
theorem twoFragments_usable (index : twoFragments.Index) (base : UInt32)
    (below : base.toNat + 0x1000 ≤ 0x81000000) : twoFragments.Usable index base := by
  have sizes : ∀ other, (twoFragments.codeSections other).size = 0x1000 := by decide
  have links : ∀ other, 0x81000000 ≤ (twoFragments.codeSections other).ramAddr.toNat ∧
      (twoFragments.codeSections other).ramAddr.toNat ≤ 0x81100000 := by decide
  have patterns : ∀ other, (twoFragments.codeSections other).originalFragmentBase = none := by
    decide
  refine ⟨?_, fun other linkBase link => .inr fun offset within inside => ?_⟩
  · rw [SectionTable.rangeAt, Range.Fits, sizes]
    exact Nat.lt_of_le_of_lt below (by decide)
  · rcases link with rfl | pattern
    · rw [sizes, UInt32.lt_iff_toNat_lt] at within
      have high := inside.2
      rw [SectionTable.rangeAt, sizes, UInt32.toNat_add] at high
      have link := links other
      have size : (0x1000 : UInt32).toNat = 0x1000 := rfl
      dsimp only at high
      omega
    · rw [patterns] at pattern
      contradiction

def bothRegistered : Overlays twoFragments :=
  ((Overlays.initOverlays twoFragments).registerRuntimeFragment emptyRdram 0
    0x80100000).registerRuntimeFragment emptyRdram 1 0x80200000

theorem bothRegistered_reached :
    Reach overlayStep (StaysApart fun _ => True) OverlaysStarted bothRegistered := by
  let first := (Overlays.initOverlays twoFragments).registerRuntimeFragment emptyRdram 0 0x80100000
  have list : first.loadedSections = [⟨0x80100000, firstFragment⟩] := by decide
  have pending : first.pendingTrampolines = [] := by decide
  have live : first.supersededRange 1 0x80200000 = none := by decide
  have selected : selectSection twoFragments emptyRdram 0 0x80100000 = some firstFragment := by
    decide
  have selected' : selectSection twoFragments emptyRdram 1 0x80200000 = some secondFragment := by
    decide
  have empty : StaysApart (fun _ => True) (Overlays.initOverlays twoFragments)
      (.registerRuntimeFragment emptyRdram 0 0x80100000) := by
    rw [StaysApart, MovesMeet, MovesMeet,
      Overlays.registerMoves_alone (by decide) selected (by decide)]
    exact ⟨fun _ index _ e none => (List.not_mem_nil none).elim,
      ⟨twoFragments_usable _ _ (by decide), trivial⟩,
      ⟨fun p none => (List.not_mem_nil none).elim, fun range known => (by cases known),
        fun func _ _ => rfl⟩, trivial⟩
  have apart : StaysApart (fun _ => True) first
      (.registerRuntimeFragment emptyRdram 1 0x80200000) := by
    rw [StaysApart, MovesMeet, MovesMeet,
      Overlays.registerMoves_alone (by decide) selected' (by decide)]
    refine ⟨fun _ index chosen e loaded _ _ => ?_, ⟨twoFragments_usable _ _ (by decide), trivial⟩,
      ⟨fun p waiting => ?_, fun range known => ?_, fun func _ _ => rfl⟩, trivial⟩
    · cases selected'.symm.trans chosen
      rw [list, List.mem_singleton] at loaded
      subst loaded
      exact (Range.apart_of_le (by decide)).symm
    · rw [pending] at waiting
      cases waiting
    · rw [live] at known
      cases known
  exact .next _ (.next _ (.start rfl) empty rfl) apart rfl

theorem loaded_code_dispatchable_two : ∃ s : Overlays twoFragments,
    Reach overlayStep (StaysApart fun _ => True) OverlaysStarted s ∧
      s.loadedSections = [⟨0x80100000, firstFragment⟩, ⟨0x80300000, secondFragment⟩] ∧
      s.funcMap 0x80100028 = some 2 := by
  have before : bothRegistered.loadedSections =
      [⟨0x80100000, firstFragment⟩, ⟨0x80200000, secondFragment⟩] := by decide
  have pending : bothRegistered.pendingTrampolines = [] := by decide
  have live : bothRegistered.supersededRange 1 0x80300000 = some ⟨0x80200000, 0x1000⟩ := by decide
  have selected : selectSection twoFragments emptyRdram 1 0x80300000 = some secondFragment := by
    decide
  have moved : StaysApart (fun _ => True) bothRegistered
      (.registerRuntimeFragment emptyRdram 1 0x80300000) := by
    rw [StaysApart, MovesMeet, MovesMeet,
      Overlays.registerMoves_alone (by decide) selected (by decide)]
    refine ⟨fun _ index chosen e loaded other _ => ?_,
      ⟨twoFragments_usable _ _ (by decide), trivial⟩,
      ⟨fun p waiting => ?_, fun range known e loaded other a place inside => ?_,
        fun func _ _ => rfl⟩, trivial⟩
    · cases selected.symm.trans chosen
      rw [before] at loaded
      rcases List.mem_cons.mp loaded with rfl | own
      · exact (Range.apart_of_le (by decide)).symm
      · rw [List.mem_singleton.mp own] at other
        exact absurd rfl other
    · rw [pending] at waiting
      cases waiting
    · rw [live] at known
      cases known
      rw [before] at loaded
      rcases List.mem_cons.mp loaded with rfl | own
      · exact Range.apart_of_le (r := ⟨0x80100000, 0x1000⟩) (by decide) a
          (Overlays.funcAt_in_range (by decide) place) inside
      · rw [List.mem_singleton.mp own] at other
        exact absurd rfl other
  obtain ⟨s, reached, list⟩ : ∃ s : Overlays twoFragments,
      Reach overlayStep (StaysApart fun _ => True) OverlaysStarted s ∧
        s.loadedSections = [⟨0x80100000, firstFragment⟩, ⟨0x80300000, secondFragment⟩] :=
    ⟨_, .next _ bothRegistered_reached moved rfl, by decide⟩
  have alone : ∀ e ∈ s.loadedSections, e ≠ ⟨0x80100000, firstFragment⟩ →
      Range.Apart ⟨0x80100000, 0x1000⟩ e.range := by
    intro e loaded other
    rw [list] at loaded
    rcases List.mem_cons.mp loaded with same | moved
    · exact absurd same other
    · rw [List.mem_singleton.mp moved]
      exact Range.apart_of_le (by decide)
  exact ⟨s, reached, list, loaded_code_dispatchable reached ⟨0x80100000, firstFragment⟩
    (by rw [list]; decide) alone ⟨some 2, 0x28, 0x40⟩ (by decide) 2 rfl⟩

/-- The first fragment has been registered and unregistered, and the second one registered at
the same base. -/
def baseReused : Overlays twoFragments :=
  (((Overlays.initOverlays twoFragments).registerRuntimeFragment emptyRdram 0
    0x80100000).unregisterRuntimeFragment 0).registerRuntimeFragment emptyRdram 1 0x80100000

theorem baseReused_reached :
    Reach overlayStep (MovesMeet UsesFreeRanges) OverlaysStarted baseReused := by
  let first := (Overlays.initOverlays twoFragments).registerRuntimeFragment emptyRdram 0 0x80100000
  have binds : MovesMeet UsesFreeRanges (Overlays.initOverlays twoFragments)
      (.registerRuntimeFragment emptyRdram 0 0x80100000) := by
    show Move.Chain UsesFreeRanges _ [.bind emptyRdram 0 firstFragment 0x80100000]
    exact ⟨twoFragments_usable _ _ (by decide), trivial⟩
  have known : first.runtimeFragmentIdToSection 0 = some firstFragment := by decide
  have listed : first.loadedAs firstFragment = some ⟨0x80100000, firstFragment⟩ := by decide
  have unloads : MovesMeet UsesFreeRanges first (.unregisterRuntimeFragment 0) := by
    rw [MovesMeet, Overlays.callMoves, known]
    dsimp only
    rw [Overlays.unloadIndexMoves, listed]
    exact ⟨trivial, trivial⟩
  have selected : selectSection twoFragments emptyRdram 1 0x80100000 = some secondFragment := by
    decide
  have rebinds : MovesMeet UsesFreeRanges (first.unregisterRuntimeFragment 0)
      (.registerRuntimeFragment emptyRdram 1 0x80100000) := by
    rw [MovesMeet, Overlays.registerMoves_alone (by decide) selected (by decide)]
    exact ⟨twoFragments_usable _ _ (by decide), trivial⟩
  exact .next _ (.next _ (.next _ (.start rfl) binds rfl) unloads rfl) rebinds rfl

/-- The live range of the unregistered fragment is erased under the one that is loaded there. -/
theorem live_section_erased : ¬ ∀ s : Overlays twoFragments,
    Reach overlayStep (MovesMeet UsesFreeRanges) OverlaysStarted s → s.Dispatchable := by
  intro claimed
  have before : baseReused.loadedSections = [⟨0x80100000, secondFragment⟩] := by decide
  have selected : selectSection twoFragments emptyRdram 0 0x80300000 = some firstFragment := by
    decide
  have binds : MovesMeet UsesFreeRanges baseReused
      (.registerRuntimeFragment emptyRdram 0 0x80300000) := by
    rw [MovesMeet, Overlays.registerMoves_alone (by decide) selected (by decide)]
    exact ⟨twoFragments_usable _ _ (by decide), trivial⟩
  obtain ⟨s, reached, list, erased⟩ : ∃ s : Overlays twoFragments,
      Reach overlayStep (MovesMeet UsesFreeRanges) OverlaysStarted s ∧
        s.loadedSections = [⟨0x80100000, secondFragment⟩, ⟨0x80300000, firstFragment⟩] ∧
        s.funcMap 0x80100000 = none :=
    ⟨_, .next _ baseReused_reached binds rfl, by decide, by decide⟩
  have alone : ∀ e ∈ s.loadedSections, e ≠ ⟨0x80100000, secondFragment⟩ →
      Range.Apart ⟨0x80100000, 0x1000⟩ e.range := by
    intro e loaded other
    rw [list] at loaded
    rcases List.mem_cons.mp loaded with same | own
    · exact absurd same other
    · rw [List.mem_singleton.mp own]
      exact Range.apart_of_le (by decide)
  have found := claimed s reached ⟨0x80100000, secondFragment⟩ (by rw [list]; decide) alone
    ⟨some 3, 0, 0x40⟩ (by decide) 3 rfl
  have none : s.funcMap (0x80100000 + 0) = none := erased
  rw [none] at found
  cases found

end N64ModernRuntime.Librecomp
