import N64ModernRuntime.Librecomp.FuncMap
import N64ModernRuntime.Librecomp.LoadedSections

/-!
# overlays.cpp: no dispatch to code that is not loaded

What `func_map` has at an address belongs there: a function of a loaded section
is there, or a jump slot of one whose jump leads, through loaded sections only,
to that function.  The ways to take a section out erase its places by different
rules, and none of them looks at the jump slots that still wait for their
targets or at those of other sections that lead into it.
-/

set_option autoImplicit false

namespace N64ModernRuntime.Librecomp

open AddressMap Transition

variable {table : SectionTable}

namespace LoadedSection

def HasFunc (e : LoadedSection table) (a : UInt32) (f : RecompFunc) : Prop :=
  ∃ func ∈ e.entry.funcs, func.func = some f ∧ a ∈ e.entry.aliases e.loadedRamAddr func.offset

/-- One of the section's slots is at the address, with a jump to `target` in it. -/
def HasSlot (jumps : LoadedSection table → UInt32 → Option UInt32) (e : LoadedSection table)
    (a target : UInt32) : Prop :=
  ∃ offset, jumps e offset = some target ∧ a ∈ e.entry.aliases e.loadedRamAddr offset

/-- The section and `e` do not lie over each other's jump slots. -/
def SlotsApart (e e' : LoadedSection table) : Prop :=
  ∀ a, (e.HasSlotAt a → ¬ e'.Owns a) ∧ (e'.HasSlotAt a → ¬ e.Owns a)

/-- A place that `erase_section_func_aliases` erases. -/
def FuncAlias (e : LoadedSection table) (a : UInt32) : Prop :=
  ∃ func ∈ e.entry.funcs, func.func ≠ none ∧ a ∈ e.entry.aliases e.loadedRamAddr func.offset

def UnloadErases (e : LoadedSection table) (a : UInt32) : Prop :=
  e.FuncAlias a ∨ e.loadedRamAddr ≤ a ∧ a < e.loadedRamAddr + e.entry.size

def EvictErases (e : LoadedSection table) (a : UInt32) : Prop :=
  e.FuncAlias a ∨ ∃ offset ∈ slotOffsets (firstFuncOffset e.entry funcEntryMayBeFragmentJumpSlot),
    a ∈ e.entry.aliases e.loadedRamAddr offset

end LoadedSection

/-- `f` is a function of a loaded section at `a`, or a jump slot of one is at `a` and `f`
belongs at the place in a loaded section that its jump leads to. -/
inductive Belongs (jumps : LoadedSection table → UInt32 → Option UInt32)
    (loaded : List (LoadedSection table)) : UInt32 → RecompFunc → Prop
  | func {e : LoadedSection table} {a : UInt32} {f : RecompFunc} (member : e ∈ loaded)
      (func : e.HasFunc a f) : Belongs jumps loaded a f
  | slot {e into : LoadedSection table} {a target place : UInt32} {f : RecompFunc}
      (member : e ∈ loaded) (slot : e.HasSlot jumps a target) (covers : into ∈ loaded)
      (translated : Overlays.translateIn target into = some place)
      (belongs : Belongs jumps loaded place f) : Belongs jumps loaded a f

namespace Overlays

structure NothingStale (s : Overlays table) : Prop where
  justified : ∀ a f, s.funcMap a = some f → Belongs s.slotJumps s.loadedSections a f
  awaited : ∀ p ∈ s.pendingTrampolines, p.fragment ∈ s.loadedSections

def NoneWaiting (s : Overlays table) (e : LoadedSection table) : Prop :=
  ∀ p ∈ s.pendingTrampolines, p.fragment ≠ e

/-- By the jump of a slot at `a` the function belongs there. -/
def SlotLed (s : Overlays table) (a : UInt32) (f : RecompFunc) : Prop :=
  ∃ e ∈ s.loadedSections, ∃ target, e.HasSlot s.slotJumps a target ∧
    ∃ into ∈ s.loadedSections, ∃ place, translateIn target into = some place ∧
      Belongs s.slotJumps s.loadedSections place f

/-- What jump slots have been given is erased, or belongs there by the given jumps and
sections as well. -/
def LedStays (s : Overlays table) (erased : UInt32 → Prop)
    (jumps : LoadedSection table → UInt32 → Option UInt32) (loaded : List (LoadedSection table)) :
    Prop :=
  ∀ a f, s.funcMap a = some f → s.SlotLed a f → erased a ∨ Belongs jumps loaded a f

def WaitsFor (s : Overlays table) (rdram : Rdram) (e : LoadedSection table) : Prop :=
  ∀ p ∈ s.pendingTrampolines, p.fragment = e →
    foundJumps rdram e (p.trampolineRuntimeAddr - e.loadedRamAddr) = some p.linkTimeTarget

def SupersedeErases (s : Overlays table) (id fragmentPtr a : UInt32) : Prop :=
  ∃ range, s.supersededRange id fragmentPtr = some range ∧
    range.lo ≤ a ∧ a < range.lo + range.len

def boundJumps (s : Overlays table) (rdram : Rdram) (index : table.Index) (fragmentPtr : UInt32) :
    LoadedSection table → UInt32 → Option UInt32 :=
  jumpsRead rdram ⟨fragmentPtr, index⟩
    (jumpsOf s.slotJumps (setLoaded s.loadedSections index fragmentPtr))

/-- What binding a section needs: of the other sections that none lies over the new one's
jump slots or under it with its own, of an entry that moves that it leaves no waiting slot and
no function at its old addresses, and of all jump slots that they lead where they led. -/
structure BindsClean (s : Overlays table) (rdram : Rdram) (id : UInt32) (index : table.Index)
    (fragmentPtr : UInt32) : Prop where
  apart : ∀ e ∈ s.loadedSections, e ∈ setLoaded s.loadedSections index fragmentPtr →
    e ≠ ⟨fragmentPtr, index⟩ → e.SlotsApart ⟨fragmentPtr, index⟩
  waiting : ∀ e ∈ s.loadedSections, e ∉ setLoaded s.loadedSections index fragmentPtr →
    s.NoneWaiting e
  moved : ∀ e ∈ s.loadedSections, e ∉ setLoaded s.loadedSections index fragmentPtr →
    ∀ a f, s.funcMap a = some f → e.HasFunc a f → e.Owns a →
      s.SupersedeErases id fragmentPtr a ∨ Belongs (s.boundJumps rdram index fragmentPtr)
        (setLoaded s.loadedSections index fragmentPtr) a f
  current : s.WaitsFor rdram ⟨fragmentPtr, index⟩
  led : s.LedStays (s.SupersedeErases id fragmentPtr) (s.boundJumps rdram index fragmentPtr)
    (setLoaded s.loadedSections index fragmentPtr)

end Overlays

/-- Nothing is stale, and what waits lies where its section has the jump slot. -/
structure Overlays.Clean (s : Overlays table) : Prop where
  fresh : s.NothingStale
  waiting : ∀ p ∈ s.pendingTrampolines, p.fragment.HasSlotAt p.trampolineRuntimeAddr
  current : ∀ p ∈ s.pendingTrampolines, p.Current s
  apart : ∀ e ∈ s.loadedSections, ∀ e' ∈ s.loadedSections, e ≠ e' → e.SlotsApart e'

/-! ## What belongs to a section goes on to -/

theorem Belongs.mono {jumps jumps' : LoadedSection table → UInt32 → Option UInt32}
    {loaded loaded' : List (LoadedSection table)} {a : UInt32} {f : RecompFunc}
    (belongs : Belongs jumps loaded a f) (listed : ∀ e ∈ loaded, e ∈ loaded')
    (same : ∀ e ∈ loaded, jumps' e = jumps e) : Belongs jumps' loaded' a f := by
  induction belongs with
  | func member func => exact .func (listed _ member) func
  | slot member slot covers translated _ ih =>
      obtain ⟨offset, jump, alias_⟩ := slot
      refine .slot (listed _ member) ⟨offset, ?_, alias_⟩ (listed _ covers) translated ih
      rw [same _ member]
      exact jump

theorem Belongs.cases {s : Overlays table} {a : UInt32} {f : RecompFunc}
    (belongs : Belongs s.slotJumps s.loadedSections a f) :
    (∃ e ∈ s.loadedSections, e.HasFunc a f) ∨ s.SlotLed a f := by
  cases belongs with
  | func member func => exact .inl ⟨_, member, func⟩
  | slot member slot covers translated belongs =>
      exact .inr ⟨_, member, _, slot, _, covers, _, translated, belongs⟩

namespace LoadedSection

theorem SlotsApart.symm {e e' : LoadedSection table} (apart : e.SlotsApart e') :
    e'.SlotsApart e :=
  fun a => ⟨(apart a).2, (apart a).1⟩

theorem HasFunc.moved {e e' : LoadedSection table} {a : UInt32} {f : RecompFunc}
    (func : e.HasFunc a f) (same : e.sectionTableIndex = e'.sectionTableIndex)
    (elsewhere : ¬ e.Owns a) : e'.HasFunc a f := by
  have sameEntry : e.entry = e'.entry := congrArg table.codeSections same
  obtain ⟨func, member, known, alias_⟩ := func
  refine ⟨func, sameEntry ▸ member, known, ?_⟩
  rw [← sameEntry]
  rcases mem_aliases.mp alias_ with runtime | link
  · refine absurd ?_ elsewhere
    rw [Owns, runtime, UInt32.add_comm, UInt32.add_sub_cancel]
    exact table.offset_lt e.sectionTableIndex func member
  · exact mem_aliases.mpr (.inr link)

end LoadedSection

theorem tryInstall_target {s next : Overlays table} {p : PendingTrampoline table}
    (installed : s.tryInstallTrampoline p = some next) :
    ∃ func place, next = s.installSlot p func ∧ s.funcMap place = some func ∧
      ∃ into ∈ s.loadedSections, Overlays.translateIn p.linkTimeTarget into = some place := by
  unfold Overlays.tryInstallTrampoline at installed
  dsimp only at installed
  split at installed
  · contradiction
  · rename_i translated
    obtain ⟨func, known, rfl⟩ := Option.map_eq_some_iff.mp installed
    refine ⟨func, _, rfl, known, ?_⟩
    rw [Overlays.translateLinkTimeToRuntime] at translated ⊢
    cases found : s.loadedSections.findSome? (Overlays.translateIn p.linkTimeTarget) with
    | none =>
        rw [found] at translated
        exact absurd rfl translated
    | some place =>
        obtain ⟨into, listed, covers⟩ := List.exists_of_findSome?_eq_some found
        exact ⟨into, listed, covers⟩

/-! ## The moves -/

namespace Overlays

/-- An entry leaves the list, when all that it had and what jump slots led to through it has
been erased. -/
theorem Clean.drop {s : Overlays table} {e : LoadedSection table} {funcMap : FuncMap}
    {erased : UInt32 → Prop} (clean : s.Clean) (waiting : s.NoneWaiting e)
    (left : ∀ a f, funcMap a = some f → s.funcMap a = some f ∧ ¬ erased a)
    (funcs : ∀ a, e.FuncAlias a → erased a)
    (led : s.LedStays erased s.slotJumps (s.loadedSections.erase e)) :
    (s.drop e funcMap).Clean := by
  have kept : ∀ e' ∈ s.loadedSections, e' ≠ e → e' ∈ s.loadedSections.erase e :=
    fun e' member other => (List.mem_erase_of_ne other).mpr member
  have jumps : ∀ e' ∈ s.loadedSections.erase e, (s.drop e funcMap).slotJumps e' = s.slotJumps e' :=
    fun e' member => if_pos member
  have awaited : ∀ p ∈ s.pendingTrampolines, p.fragment ∈ s.loadedSections.erase e :=
    fun p member => kept _ (clean.fresh.awaited p member) (waiting p member)
  refine ⟨⟨fun a f found => ?_, awaited⟩, clean.waiting, fun p member => ?_, ?_⟩
  · obtain ⟨before, stays⟩ := left a f found
    have belongs : Belongs s.slotJumps (s.loadedSections.erase e) a f := by
      rcases (clean.fresh.justified a f before).cases with ⟨owner, member, func⟩ | slot
      · refine .func (kept owner member fun own => ?_) func
        obtain ⟨func, listed, known, alias_⟩ := func
        subst own
        exact stays (funcs a ⟨func, listed, by rw [known]; exact Option.some_ne_none f, alias_⟩)
      · exact (led a f before slot).resolve_left stays
    exact belongs.mono (fun e' member => member) jumps
  · rw [PendingTrampoline.Current, jumps _ (awaited p member)]
    exact clean.current p member
  · intro e' listed e'' listed'
    exact clean.apart e' (List.mem_of_mem_erase listed) e'' (List.mem_of_mem_erase listed')

theorem Clean.unload {s : Overlays table} {e : LoadedSection table} (clean : s.Clean)
    (waiting : s.NoneWaiting e)
    (led : s.LedStays e.UnloadErases s.slotJumps (s.loadedSections.erase e)) :
    (s.unloadSection e).Clean := by
  refine clean.drop waiting (fun a f found => ?_) (fun a func => .inl func) led
  obtain ⟨found, outside⟩ := fragRangeErase_some found
  obtain ⟨before, others⟩ := eraseAliases_some found
  refine ⟨before, ?_⟩
  rintro (⟨func, member, known, alias_⟩ | inside)
  · exact others func member known alias_
  · exact outside inside

theorem Clean.evict {s : Overlays table} {e : LoadedSection table} (clean : s.Clean)
    (waiting : s.NoneWaiting e)
    (led : s.LedStays e.EvictErases s.slotJumps (s.loadedSections.erase e)) :
    (s.evict e).Clean := by
  refine clean.drop waiting (fun a f found => ?_) (fun a func => .inl func) led
  obtain ⟨found, outside⟩ := eraseSlots_some found
  obtain ⟨before, others⟩ := eraseAliases_some found
  refine ⟨before, ?_⟩
  rintro (⟨func, member, known, alias_⟩ | ⟨offset, walked, alias_⟩)
  · exact others func member known alias_
  · exact outside offset walked alias_

theorem Clean.load {s : Overlays table} {index : table.Index} {ram : UInt32} (clean : s.Clean)
    (apart : ∀ e ∈ s.loadedSections, e ≠ ⟨ram, index⟩ → e.SlotsApart ⟨ram, index⟩) :
    (s.loadOverlay index ram).Clean := by
  have appended : (s.loadOverlay index ram).loadedSections =
      s.loadedSections ++ [⟨ram, index⟩] := rfl
  refine ⟨⟨fun a f found => ?_, fun p member => ?_⟩, clean.waiting, clean.current, ?_⟩
  · rw [appended]
    rcases installAliases_some found with ⟨func, member, known⟩ | before
    · exact .func (List.mem_append_right _ (List.mem_singleton_self _)) ⟨func, member, known⟩
    · exact (clean.fresh.justified a f before).mono
        (fun e member => List.mem_append_left _ member) fun e member => rfl
  · rw [appended]
    exact List.mem_append_left _ (clean.fresh.awaited p member)
  · rw [appended]
    intro e member e' member' different
    rcases List.mem_append.mp member with old | new <;>
      rcases List.mem_append.mp member' with old' | new'
    · exact clean.apart e old e' old' different
    · rw [List.mem_singleton.mp new'] at different ⊢
      exact apart e old different
    · rw [List.mem_singleton.mp new] at different ⊢
      exact (apart e' old' different.symm).symm
    · rw [List.mem_singleton.mp new, List.mem_singleton.mp new'] at different
      exact absurd rfl different

theorem Clean.bind {s : Overlays table} {rdram : Rdram} {id : UInt32} {index : table.Index}
    {fragmentPtr : UInt32} (clean : s.Clean) (binds : s.BindsClean rdram id index fragmentPtr) :
    (((s.supersede id fragmentPtr).bindSection id index fragmentPtr).readJumps rdram
      ⟨fragmentPtr, index⟩).Clean := by
  have bound := Keeps.mem_setLoaded s.loadedSections index fragmentPtr
  have awaited : ∀ p ∈ s.pendingTrampolines,
      p.fragment ∈ setLoaded s.loadedSections index fragmentPtr := by
    intro p member
    by_contra gone
    exact binds.waiting p.fragment (clean.fresh.awaited p member) gone p member rfl
  refine ⟨⟨fun a f found => ?_, awaited⟩, clean.waiting, fun p member => ?_, ?_⟩
  · rcases installAliases_some found with ⟨func, member, known⟩ | superseded
    · exact .func bound ⟨func, member, known⟩
    · obtain ⟨before, stays⟩ := supersede_some superseded
      have stays : ¬ s.SupersedeErases id fragmentPtr a := by
        rintro ⟨range, known, inside⟩
        exact stays range known inside
      rcases (clean.fresh.justified a f before).cases with ⟨owner, member, func⟩ | slot
      · by_cases listed : owner ∈ setLoaded s.loadedSections index fragmentPtr
        · exact .func listed func
        · by_cases here : owner.Owns a
          · exact (binds.moved owner member listed a f before func here).resolve_left stays
          · have own : owner.sectionTableIndex = index := by
              by_contra other
              exact listed (mem_setLoaded_other member other)
            exact .func bound (func.moved own here)
      · exact (binds.led a f before slot).resolve_left stays
  · by_cases own : p.fragment = ⟨fragmentPtr, index⟩
    · have current := binds.current p member own
      rw [PendingTrampoline.Current, own]
      exact (congrFun (if_pos rfl) _).trans current
    · exact (congrFun ((if_neg own).trans (if_pos (awaited p member))) _).trans
        (clean.current p member)
  · intro e member e' member' different
    rcases mem_setLoaded_cases member with new | old <;>
      rcases mem_setLoaded_cases member' with new' | old'
    · exact absurd (new.trans new'.symm) different
    · rw [new] at different ⊢
      exact (binds.apart e' old' member' different.symm).symm
    · rw [new'] at different ⊢
      exact binds.apart e old member different
    · exact clean.apart e old e' old' different

theorem Clean.scan {s : Overlays table} {rdram : Rdram} {e : LoadedSection table}
    (clean : s.Clean) (current : s.WaitsFor rdram e)
    (led : s.LedStays (fun _ => False) (jumpsRead rdram e s.slotJumps) s.loadedSections) :
    (s.readJumps rdram e).Clean := by
  refine ⟨⟨fun a f found => ?_, clean.fresh.awaited⟩, clean.waiting, fun p member => ?_,
    clean.apart⟩
  · rcases (clean.fresh.justified a f found).cases with ⟨owner, member, func⟩ | slot
    · exact .func member func
    · exact (led a f found slot).resolve_left id
  · by_cases own : p.fragment = e
    · have found := current p member own
      rw [PendingTrampoline.Current, own]
      exact (congrFun (if_pos rfl) _).trans found
    · exact (congrFun (if_neg own) _).trans (clean.current p member)

/-- The section whose aliases a slot gets is the one that it was scanned in. -/
theorem Clean.trampoline_aliases {s : Overlays table} {p : PendingTrampoline table}
    (clean : s.Clean) (scanned : p.FromScan s) {a : UInt32}
    (key : a ∈ p.trampolineRuntimeAddr :: s.trampolineAliases p.trampolineRuntimeAddr) :
    a ∈ p.fragment.entry.aliases p.fragment.loadedRamAddr
      (p.trampolineRuntimeAddr - p.fragment.loadedRamAddr) := by
  rcases List.mem_cons.mp key with rfl | alias_
  · refine mem_aliases.mpr (.inl ?_)
    rw [UInt32.add_comm, UInt32.sub_add_cancel]
  · unfold trampolineAliases at alias_
    cases found : s.trampolineOwner p.trampolineRuntimeAddr with
    | none => rw [found] at alias_; cases alias_
    | some e =>
        rw [found] at alias_
        obtain ⟨loaded, owns⟩ := trampolineOwner_some found
        have own : p.fragment = e := by
          by_contra other
          exact (clean.apart p.fragment scanned.loaded e loaded other _).1 scanned.slot owns
        rw [own]
        dsimp only at alias_
        split at alias_
        · refine mem_aliases.mpr (.inr ?_)
          rcases List.mem_cons.mp alias_ with link | original
          · exact .inl link
          · obtain ⟨base, known, rfl⟩ := List.mem_map.mp original
            exact .inr ⟨base, Option.mem_toList.mp known, rfl⟩
        · contradiction

theorem Clean.install {s next : Overlays table} {p : PendingTrampoline table} (clean : s.Clean)
    (scanned : p.FromScan s) (installed : s.tryInstallTrampoline p = some next) : next.Clean := by
  obtain ⟨func, place, rfl, known, into, covers, translated⟩ := tryInstall_target installed
  refine ⟨⟨fun a f found => ?_, clean.fresh.awaited⟩, clean.waiting, clean.current, clean.apart⟩
  rcases insertAll_some found with ⟨key, rfl⟩ | ⟨_, before⟩
  · exact .slot scanned.loaded ⟨_, scanned.current, clean.trampoline_aliases scanned key⟩ covers
      translated (clean.fresh.justified place f known)
  · exact clean.fresh.justified a f before

end Overlays

end N64ModernRuntime.Librecomp
