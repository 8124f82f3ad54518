import N64ModernRuntime.Librecomp.HookRegen

/-!
# mods.cpp: what build_regen_list gathers

The hooks come in the order of their functions.  One pass over them then makes
one entry for each function that is not patched by the base recomp, maps every
hook of it to that entry, and sets the hooks of patched functions aside.
-/

set_option autoImplicit false

namespace N64ModernRuntime.Librecomp

structure RegenGroup where
  sectionRom : UInt32
  functionVram : UInt32
  entry : FuncEntry

def RegenGroup.place (group : RegenGroup) : Nat :=
  (⟨group.sectionRom, group.functionVram, false⟩ : HookDefinition).place

def RegeneratedList.hookMap (list : RegeneratedList) (atReturn : Bool) : List (Nat × Nat) :=
  if atReturn then list.returnFuncHooks else list.entryFuncHooks

namespace RegenSource

variable (source : RegenSource)

def offsetOf (sectionRom functionVram : UInt32) : UInt32 :=
  functionVram - ((source.sectionVromMap sectionRom).map source.table.getSectionRamAddr).getD 0

def entryOf (definition : HookDefinition) : Option FuncEntry :=
  (source.sectionVromMap definition.sectionRom).bind fun index =>
    source.table.getFuncEntryBySectionIndexFunctionOffset index
      (source.offsetOf definition.sectionRom definition.functionVram)

def patchOf (definition : HookDefinition) : Option BasePatchedFunction :=
  if source.patched then none
  else (source.entryOf definition).bind fun entry => source.basePatchedFuncs entry.func

def regenerated (group : RegenGroup) : RegeneratedFunction :=
  ⟨source.offsetOf group.sectionRom group.functionVram, group.entry.romSize⟩

structure GroupOf (definition : HookDefinition) (group : RegenGroup) : Prop where
  place : group.place = definition.place
  entry : source.entryOf definition = some group.entry
  unpatched : source.patchOf definition = none

structure At (c : RegenCursor) (definition : HookDefinition) : Prop where
  sectionRom : c.sectionRom = definition.sectionRom
  functionVram : c.functionVram = definition.functionVram
  sectionIndex : source.sectionVromMap definition.sectionRom = some c.sectionIndex
  sectionVram : c.sectionVram = source.table.getSectionRamAddr c.sectionIndex
  basePatched : c.basePatched = source.patchOf definition

structure Enters (c found : RegenCursor) (definition : HookDefinition) (entry : FuncEntry) :
    Prop where
  known : source.entryOf definition = some entry
  sized : entry.romSize ≠ 0
  stands : source.At found definition
  entryFuncHooks : found.list.entryFuncHooks = c.list.entryFuncHooks
  returnFuncHooks : found.list.returnFuncHooks = c.list.returnFuncHooks
  patchedHooks : found.list.patchedHooks = c.list.patchedHooks
  adds : (source.patchOf definition).isSome ∧ found.list.functions = c.list.functions ∧
      found.list.funcPtrs = c.list.funcPtrs ∨
    source.patchOf definition = none ∧
      found.list.functions = c.list.functions ++ [source.regenerated
        ⟨definition.sectionRom, definition.functionVram, entry⟩] ∧
      found.list.funcPtrs = c.list.funcPtrs ++ [entry.func]

structure Lists (done : List (HookDefinition × Nat)) (groups : List RegenGroup)
    (list : RegeneratedList) : Prop where
  functions : list.functions = groups.map source.regenerated
  funcPtrs : list.funcPtrs = groups.map fun group => group.entry.func
  increasing : groups.Pairwise fun g h => g.place < h.place
  resolved : ∀ hook ∈ done, ∃ entry, source.entryOf hook.1 = some entry ∧ entry.romSize ≠ 0
  grouped : ∀ hook ∈ done, source.patchOf hook.1 = none → ∃ group ∈ groups,
    source.GroupOf hook.1 group
  sound : ∀ atReturn index slot, (list.hookMap atReturn).lookup index = some slot →
    ∃ hook ∈ done, hook.2 = slot ∧ hook.1.atReturn = atReturn ∧
      ∃ group, groups[index]? = some group ∧ source.GroupOf hook.1 group
  total : ∀ hook ∈ done, ∀ index group, groups[index]? = some group →
    source.GroupOf hook.1 group → ((list.hookMap hook.1.atReturn).lookup index).isSome
  patched : ∀ patch hook, (patch, hook) ∈ list.patchedHooks ↔
    hook ∈ done ∧ source.patchOf hook.1 = some patch

/-- The cursor stands at the function of `definition`, which has its group
unless it is patched; `ofHook` says what the groups come from. -/
structure Stands (groups : List RegenGroup) (c : RegenCursor) (definition : HookDefinition) :
    Prop where
  stands : source.At c definition
  known : ∃ entry, source.entryOf definition = some entry ∧ entry.romSize ≠ 0
  group : source.patchOf definition = none → ∃ group, groups.getLast? = some group ∧
    source.GroupOf definition group

structure Gathered (done : List (HookDefinition × Nat)) (groups : List RegenGroup)
    (c : RegenCursor) : Prop where
  lists : source.Lists done groups c.list
  ofHook : ∀ group ∈ groups, ∃ hook ∈ done, source.GroupOf hook.1 group
  first : done = [] → c = .start
  last : ∀ hook, done.getLast? = some hook → source.Stands groups c hook.1

end RegenSource

theorem RegenSource.GroupOf.of_place {source : RegenSource} {d e : HookDefinition}
    {group : RegenGroup} (of : source.GroupOf d group) (same : d.place = e.place) :
    source.GroupOf e group := by
  obtain ⟨rom, vram⟩ := HookDefinition.place_inj.mp same
  have entries : source.entryOf e = source.entryOf d := by
    rw [RegenSource.entryOf, RegenSource.entryOf, rom, vram]
  refine ⟨of.place.trans same, entries.trans of.entry, ?_⟩
  have unpatched := of.unpatched
  rw [RegenSource.patchOf] at unpatched ⊢
  rw [entries]
  exact unpatched

section Seek

variable {source : RegenSource} {done : List (HookDefinition × Nat)} {groups : List RegenGroup}
  {c found : RegenCursor} {definition : HookDefinition}

theorem copyRelocs_frame (c : RegenCursor) (offset size : UInt32) :
    ∃ relocs index, RegenSource.copyRelocs c offset size =
      { c with list := { c.list with relocs := relocs }, sectionRelocIndex := index } :=
  ⟨_, _, rfl⟩

theorem enterFunction_ok (section_ : source.sectionVromMap definition.sectionRom =
      some c.sectionIndex)
    (ram : c.sectionVram = source.table.getSectionRamAddr c.sectionIndex)
    (rom : c.sectionRom = definition.sectionRom)
    (entered : source.enterFunction c definition.functionVram = .ok found) :
    ∃ entry, source.Enters c found definition entry := by
  have offset : source.offsetOf definition.sectionRom definition.functionVram =
      definition.functionVram - c.sectionVram := by
    rw [RegenSource.offsetOf, section_, ram]
    rfl
  have entry_eq : source.entryOf definition =
      source.table.getFuncEntryBySectionIndexFunctionOffset c.sectionIndex
        (definition.functionVram - c.sectionVram) := by
    rw [RegenSource.entryOf, section_, Option.bind_some, offset]
  unfold RegenSource.enterFunction at entered
  dsimp only at entered
  rw [← entry_eq] at entered
  cases known : source.entryOf definition with
  | none =>
      rw [known] at entered
      contradiction
  | some entry =>
      rw [known] at entered
      dsimp only at entered
      split at entered
      · contradiction
      · rename_i sized
        obtain ⟨relocs, index, copied⟩ := copyRelocs_frame
          { c with
            list := if (if source.patched then none else source.basePatchedFuncs entry.func).isSome
              then c.list
              else { c.list with
                functions := c.list.functions ++
                  [⟨definition.functionVram - c.sectionVram, entry.romSize⟩]
                funcPtrs := c.list.funcPtrs ++ [entry.func] }
            functionVram := definition.functionVram
            basePatched := if source.patched then none else source.basePatchedFuncs entry.func }
          (definition.functionVram - c.sectionVram) entry.romSize
        have patch : source.patchOf definition =
            if source.patched then none else source.basePatchedFuncs entry.func := by
          rw [RegenSource.patchOf, known, Option.bind_some]
        rw [copied, ← patch] at entered
        cases entered
        cases unpatched : source.patchOf definition with
        | some patch =>
            exact ⟨entry, known, sized, ⟨rom, rfl, section_, ram, unpatched.symm⟩, rfl, rfl, rfl,
              .inl ⟨by rw [unpatched]; rfl, rfl, rfl⟩⟩
        | none =>
            refine ⟨entry, known, sized, ⟨rom, rfl, section_, ram, unpatched.symm⟩, rfl, rfl, rfl,
              .inr ⟨unpatched, ?_, rfl⟩⟩
            rw [RegenSource.regenerated, offset]
            rfl

theorem enterFunction_start (vram : UInt32) :
    source.enterFunction .start vram = .error .invalidHook := by
  have none_there : source.table.sections[0xFFFF]? = none :=
    List.getElem?_eq_none source.table.count_le
  simp only [RegenSource.enterFunction, RegenCursor.start,
    CodeTable.getFuncEntryBySectionIndexFunctionOffset, none_there]

/-- The ways to the function of the next hook: it is there already, or it is
entered in the section where the cursor is, or in another. -/
theorem seek_cases (gathered : source.Gathered done groups c)
    (regular : definition.functionVram ≠ 0xFFFFFFFF)
    (sought : source.seek c definition = .ok found) :
    (∃ hook, done.getLast? = some hook ∧ hook.1.place = definition.place ∧ found = c) ∨
      (∃ hook, done.getLast? = some hook ∧ hook.1.sectionRom = definition.sectionRom ∧
        hook.1.functionVram ≠ definition.functionVram ∧
        source.enterFunction c definition.functionVram = .ok found) ∨
      ((∀ hook, done.getLast? = some hook → hook.1.sectionRom ≠ definition.sectionRom) ∧
        ∃ entered, source.enterSection c definition.sectionRom = some entered ∧
          source.enterFunction entered definition.functionVram = .ok found) := by
  unfold RegenSource.seek at sought
  by_cases newSection : definition.sectionRom ≠ c.sectionRom
  · -- the new section makes the function a new one, too
    right; right
    refine ⟨fun hook final same => ?_, ?_⟩
    · exact newSection (same.symm.trans (gathered.last hook final).stands.sectionRom.symm)
    · rw [if_pos newSection] at sought
      cases entered : source.enterSection c definition.sectionRom with
      | none =>
          rw [entered] at sought
          contradiction
      | some middle =>
          have cleared : middle.functionVram = 0xFFFFFFFF := by
            obtain ⟨index, -, rfl⟩ := Option.map_eq_some_iff.mp entered
            rfl
          rw [entered] at sought
          simp only [bind, Except.bind, cleared, if_pos regular] at sought
          exact ⟨middle, rfl, sought⟩
  · rw [if_neg newSection] at sought
    have sameRom : definition.sectionRom = c.sectionRom := not_not.mp newSection
    simp only [bind, Except.bind] at sought
    cases final : done.getLast? with
    | none =>
        have fresh : c = .start := gathered.first (List.getLast?_eq_none_iff.mp final)
        rw [fresh] at sought
        have moves : definition.functionVram ≠ RegenCursor.start.functionVram := regular
        rw [if_pos moves, enterFunction_start] at sought
        contradiction
    | some hook =>
        have stands := (gathered.last hook final).stands
        have rom : hook.1.sectionRom = definition.sectionRom :=
          stands.sectionRom.symm.trans sameRom.symm
        by_cases newFunction : definition.functionVram ≠ c.functionVram
        · right; left
          rw [if_pos newFunction] at sought
          refine ⟨hook, rfl, rom, fun same => ?_, sought⟩
          exact newFunction (same.symm.trans stands.functionVram.symm)
        · left
          rw [if_neg newFunction] at sought
          refine ⟨hook, rfl, ?_, (Except.ok.inj sought).symm⟩
          exact HookDefinition.place_inj.mpr
            ⟨rom, stands.functionVram.symm.trans (not_not.mp newFunction).symm⟩

theorem seek_ok (gathered : source.Gathered done groups c)
    (regular : definition.functionVram ≠ 0xFFFFFFFF)
    (sought : source.seek c definition = .ok found) :
    (∃ hook, done.getLast? = some hook ∧ hook.1.place = definition.place ∧ found = c) ∨
      (∀ hook, done.getLast? = some hook → hook.1.place ≠ definition.place) ∧
        ∃ entry, source.Enters c found definition entry := by
  rcases seek_cases gathered regular sought with
    there | ⟨hook, final, rom, apart, entered⟩ | ⟨apart, middle, moved, entered⟩
  · exact .inl there
  · right
    have stands := (gathered.last hook final).stands
    refine ⟨fun other final' same => ?_, enterFunction_ok (rom ▸ stands.sectionIndex)
      stands.sectionVram (stands.sectionRom.trans rom) entered⟩
    obtain rfl : hook = other := Option.some.inj (final.symm.trans final')
    exact apart (HookDefinition.place_inj.mp same).2
  · right
    obtain ⟨index, section_, rfl⟩ := Option.map_eq_some_iff.mp moved
    obtain ⟨entry, enters⟩ := enterFunction_ok section_ rfl rfl entered
    refine ⟨fun hook final same => apart hook final (HookDefinition.place_inj.mp same).1, entry,
      enters.known, enters.sized, enters.stands, enters.entryFuncHooks, enters.returnFuncHooks,
      enters.patchedHooks, enters.adds⟩

end Seek

section Pass

variable {source : RegenSource} {done : List (HookDefinition × Nat)} {groups : List RegenGroup}
  {c found : RegenCursor} {hook : HookDefinition × Nat}

theorem attachHook_list (c : RegenCursor) (hook : HookDefinition × Nat) :
    (RegenSource.attachHook c hook).list.functions = c.list.functions ∧
      (RegenSource.attachHook c hook).list.funcPtrs = c.list.funcPtrs ∧
      (RegenSource.attachHook c hook).list.patchedHooks =
        c.list.patchedHooks ++ (c.basePatched.map fun patch => (patch, hook)).toList := by
  unfold RegenSource.attachHook
  cases c.basePatched with
  | some patch => exact ⟨rfl, rfl, rfl⟩
  | none =>
      dsimp only
      split <;> exact ⟨rfl, rfl, (List.append_nil _).symm⟩

theorem attachHook_hookMap (c : RegenCursor) (hook : HookDefinition × Nat) (atReturn : Bool) :
    (RegenSource.attachHook c hook).list.hookMap atReturn =
      if c.basePatched = none ∧ hook.1.atReturn = atReturn then
        (RegenSource.lastFunction c.list, hook.2) :: c.list.hookMap atReturn
      else c.list.hookMap atReturn := by
  unfold RegenSource.attachHook RegeneratedList.hookMap
  cases c.basePatched with
  | some patch => rfl
  | none =>
      cases atReturn <;> cases here : hook.1.atReturn <;> simp

theorem attachHook_at {definition : HookDefinition} (stands : source.At c definition) :
    source.At (RegenSource.attachHook c hook) definition := by
  obtain ⟨rom, vram, index, ram, patched⟩ := stands
  unfold RegenSource.attachHook
  cases known : c.basePatched with
  | some patch => exact ⟨rom, vram, index, ram, known.symm.trans patched⟩
  | none =>
      dsimp only
      split <;> exact ⟨rom, vram, index, ram, known.symm.trans patched⟩

/-- A group that comes last of all adds nothing to what is said of the others. -/
theorem RegenSource.Lists.addGroup {list list' : RegeneratedList} {group : RegenGroup}
    (lists : source.Lists done groups list)
    (later : ∀ h ∈ done, h.1.place < group.place) (above : ∀ g ∈ groups, g.place < group.place)
    (functions : list'.functions = list.functions ++ [source.regenerated group])
    (funcPtrs : list'.funcPtrs = list.funcPtrs ++ [group.entry.func])
    (maps : ∀ atReturn, list'.hookMap atReturn = list.hookMap atReturn)
    (patchedHooks : list'.patchedHooks = list.patchedHooks) :
    source.Lists done (groups ++ [group]) list' where
  functions := by rw [functions, lists.functions, List.map_append]; rfl
  funcPtrs := by rw [funcPtrs, lists.funcPtrs, List.map_append]; rfl
  increasing := by
    refine List.pairwise_append.mpr ⟨lists.increasing, List.pairwise_singleton _ _, ?_⟩
    intro g old new_ member
    rw [List.mem_singleton.mp member]
    exact above g old
  resolved := lists.resolved
  grouped h passed unpatched := by
    obtain ⟨g, member, of⟩ := lists.grouped h passed unpatched
    exact ⟨g, List.mem_append_left _ member, of⟩
  sound atReturn index slot mapped := by
    rw [maps] at mapped
    obtain ⟨h, passed, same, kind, g, here, of⟩ := lists.sound atReturn index slot mapped
    refine ⟨h, passed, same, kind, g, ?_, of⟩
    rw [List.getElem?_append_left (List.getElem?_eq_some_iff.mp here).1]
    exact here
  total h passed index g here of := by
    rw [maps]
    refine lists.total h passed index g ?_ of
    by_cases old : index < groups.length
    · rwa [List.getElem?_append_left old] at here
    · -- the new group is of no hook so far
      rw [List.getElem?_append_right (Nat.le_of_not_lt old)] at here
      have new_ : g = group := by
        have member := List.mem_of_getElem? here
        exact List.mem_singleton.mp member
      have before := later h passed
      rw [← of.place, new_] at before
      exact absurd before (Nat.lt_irrefl _)
  patched patch h := by
    rw [patchedHooks]
    exact lists.patched patch h

/-- Groups at the same place are the same entry of the list. -/
theorem RegenSource.Lists.index_unique {list : RegeneratedList}
    (lists : source.Lists done groups list) {i j : Nat} {g h : RegenGroup}
    (gAt : groups[i]? = some g) (hAt : groups[j]? = some h) (same : g.place = h.place) : i = j := by
  obtain ⟨iBelow, rfl⟩ := List.getElem?_eq_some_iff.mp gAt
  obtain ⟨jBelow, rfl⟩ := List.getElem?_eq_some_iff.mp hAt
  rcases Nat.lt_trichotomy i j with before | equal | later
  · have less := List.pairwise_iff_getElem.mp lists.increasing i j iBelow jBelow before
    omega
  · exact equal
  · have less := List.pairwise_iff_getElem.mp lists.increasing j i jBelow iBelow later
    omega

theorem RegenSource.Lists.lastFunction {list : RegeneratedList} {group : RegenGroup}
    (lists : source.Lists done groups list) (final : groups.getLast? = some group) :
    groups[RegenSource.lastFunction list]? = some group := by
  have count : list.functions.length = groups.length := by
    rw [lists.functions, List.length_map]
  have nonempty : groups.length ≠ 0 := by
    intro empty
    rw [List.length_eq_zero_iff.mp empty] at final
    contradiction
  rw [RegenSource.lastFunction, count, if_neg nonempty, ← List.getLast?_eq_getElem?]
  exact final

theorem RegenSource.Lists.attach (lists : source.Lists done groups c.list)
    (stands : source.Stands groups c hook.1) :
    source.Lists (done ++ [hook]) groups (RegenSource.attachHook c hook).list where
  functions := (attachHook_list c hook).1.trans lists.functions
  funcPtrs := (attachHook_list c hook).2.1.trans lists.funcPtrs
  increasing := lists.increasing
  resolved h passed := by
    rcases List.mem_append.mp passed with old | new_
    · exact lists.resolved h old
    · rw [List.mem_singleton.mp new_]
      exact stands.known
  grouped h passed unpatched := by
    rcases List.mem_append.mp passed with old | new_
    · exact lists.grouped h old unpatched
    · rw [List.mem_singleton.mp new_] at unpatched ⊢
      obtain ⟨group, final, of⟩ := stands.group unpatched
      exact ⟨group, List.mem_of_getLast? final, of⟩
  sound atReturn index slot mapped := by
    have older : (c.list.hookMap atReturn).lookup index = some slot →
        ∃ h ∈ done ++ [hook], h.2 = slot ∧ h.1.atReturn = atReturn ∧
          ∃ group, groups[index]? = some group ∧ source.GroupOf h.1 group := by
      intro old
      obtain ⟨h, passed, rest⟩ := lists.sound atReturn index slot old
      exact ⟨h, List.mem_append_left _ passed, rest⟩
    rw [attachHook_hookMap, stands.stands.basePatched] at mapped
    split at mapped
    · rename_i attached
      obtain ⟨group, final, of⟩ := stands.group attached.1
      by_cases here : index = RegenSource.lastFunction c.list
      · rw [here, List.lookup_cons_self] at mapped
        exact ⟨hook, List.mem_append_right _ (List.mem_singleton_self _), Option.some.inj mapped,
          attached.2, group, here ▸ lists.lastFunction final, of⟩
      · rw [List.lookup_cons, beq_false_of_ne here] at mapped
        exact older mapped
    · exact older mapped
  total h passed index group here of := by
    rw [attachHook_hookMap, stands.stands.basePatched]
    rcases List.mem_append.mp passed with old | new_
    · have before := lists.total h old index group here of
      split
      · rw [List.lookup_cons]
        split
        · rfl
        · exact before
      · exact before
    · obtain rfl : h = hook := List.mem_singleton.mp new_
      obtain ⟨last, final, ofLast⟩ := stands.group of.unpatched
      have same : index = RegenSource.lastFunction c.list :=
        lists.index_unique here (lists.lastFunction final) (of.place.trans ofLast.place.symm)
      rw [if_pos ⟨of.unpatched, rfl⟩, same, List.lookup_cons_self]
      rfl
  patched patch h := by
    rw [(attachHook_list c hook).2.2, stands.stands.basePatched, List.mem_append, lists.patched,
      List.mem_append, List.mem_singleton, Option.mem_toList, Option.map_eq_some_iff]
    constructor
    · rintro (⟨passed, known⟩ | ⟨own, known, pair⟩)
      · exact ⟨.inl passed, known⟩
      · cases pair
        exact ⟨.inr rfl, known⟩
    · rintro ⟨passed | rfl, known⟩
      · exact .inl ⟨passed, known⟩
      · exact .inr ⟨patch, known, rfl⟩

theorem RegenSource.Gathered.enter {entry : FuncEntry}
    (gathered : source.Gathered done groups c)
    (later : ∀ h ∈ done, h.1.place < hook.1.place)
    (enters : source.Enters c found hook.1 entry) :
    ∃ groups', source.Lists done groups' found.list ∧ source.Stands groups' found hook.1 ∧
      ∀ g ∈ groups', g ∈ groups ∨ source.GroupOf hook.1 g := by
  have maps : ∀ atReturn, found.list.hookMap atReturn = c.list.hookMap atReturn := by
    intro atReturn
    rw [RegeneratedList.hookMap, RegeneratedList.hookMap, enters.entryFuncHooks,
      enters.returnFuncHooks]
  have known : ∃ entry, source.entryOf hook.1 = some entry ∧ entry.romSize ≠ 0 :=
    ⟨entry, enters.known, enters.sized⟩
  rcases enters.adds with ⟨patched, functions, funcPtrs⟩ | ⟨unpatched, functions, funcPtrs⟩
  · refine ⟨groups, ?_, ⟨enters.stands, known, ?_⟩, fun g member => .inl member⟩
    · have lists := gathered.lists
      exact ⟨functions.trans lists.functions, funcPtrs.trans lists.funcPtrs, lists.increasing,
        lists.resolved, lists.grouped, fun atReturn => maps atReturn ▸ lists.sound atReturn,
        fun h => maps h.1.atReturn ▸ lists.total h, enters.patchedHooks ▸ lists.patched⟩
    · intro none_there
      rw [none_there] at patched
      contradiction
  · let group : RegenGroup := ⟨hook.1.sectionRom, hook.1.functionVram, entry⟩
    have of : source.GroupOf hook.1 group := ⟨rfl, enters.known, unpatched⟩
    have above : ∀ g ∈ groups, g.place < group.place := by
      intro g member
      obtain ⟨h, passed, ofHook⟩ := gathered.ofHook g member
      rw [ofHook.place]
      exact later h passed
    refine ⟨groups ++ [group], ?_, ⟨enters.stands, known, ?_⟩, ?_⟩
    · exact gathered.lists.addGroup later above functions funcPtrs maps enters.patchedHooks
    · exact fun _ => ⟨group, List.getLast?_concat, of⟩
    · intro g member
      rcases List.mem_append.mp member with old | new_
      · exact .inl old
      · exact .inr (List.mem_singleton.mp new_ ▸ of)

theorem RegenSource.Gathered.next (gathered : source.Gathered done groups c)
    (regular : hook.1.functionVram ≠ 0xFFFFFFFF)
    (sorted : ∀ h ∈ done, h.1.place ≤ hook.1.place)
    (inOrder : done.Pairwise fun a b => a.1.place ≤ b.1.place)
    (sought : source.seek c hook.1 = .ok found) :
    ∃ groups', source.Gathered (done ++ [hook]) groups' (RegenSource.attachHook found hook) := by
  have step : ∃ groups', source.Lists done groups' found.list ∧
      source.Stands groups' found hook.1 ∧ ∀ g ∈ groups', g ∈ groups ∨
        source.GroupOf hook.1 g := by
    rcases seek_ok gathered regular sought with ⟨last, final, same, rfl⟩ | ⟨apart, entry, enters⟩
    · have stands := gathered.last last final
      obtain ⟨rom, vram⟩ := HookDefinition.place_inj.mp same
      have entries : source.entryOf hook.1 = source.entryOf last.1 := by
        rw [entryOf, entryOf, rom, vram]
      have patches : source.patchOf hook.1 = source.patchOf last.1 := by
        rw [patchOf, patchOf, entries]
      refine ⟨groups, gathered.lists, ⟨?_, entries ▸ stands.known, ?_⟩, fun g member => .inl member⟩
      · exact ⟨stands.stands.sectionRom.trans rom, stands.stands.functionVram.trans vram,
          rom ▸ stands.stands.sectionIndex, stands.stands.sectionVram,
          patches ▸ stands.stands.basePatched⟩
      · intro unpatched
        obtain ⟨group, lastGroup, of⟩ := stands.group (patches ▸ unpatched)
        exact ⟨group, lastGroup, of.of_place same⟩
    · refine gathered.enter ?_ enters
      -- the last hook is the greatest, and the new one is not at its place
      intro h passed
      obtain ⟨last, final⟩ : ∃ last, done.getLast? = some last :=
        Option.isSome_iff_exists.mp (List.getLast?_isSome.mpr (List.ne_nil_of_mem passed))
      obtain ⟨front, rfl⟩ := List.getLast?_eq_some_iff.mp final
      have bound : h.1.place ≤ last.1.place := by
        rcases List.mem_append.mp passed with earlier | own
        · exact (List.pairwise_append.mp inOrder).2.2 h earlier last (List.mem_singleton_self _)
        · rw [List.mem_singleton.mp own]
      have below := sorted last (List.mem_append_right _ (List.mem_singleton_self _))
      have differ := apart last final
      omega
  obtain ⟨groups', lists, stands, origin⟩ := step
  refine ⟨groups', lists.attach stands, ?_, fun empty => absurd empty (by simp), ?_⟩
  · intro g member
    rcases origin g member with old | own
    · obtain ⟨h, passed, of⟩ := gathered.ofHook g old
      exact ⟨h, List.mem_append_left _ passed, of⟩
    · exact ⟨hook, List.mem_append_right _ (List.mem_singleton_self _), own⟩
  · intro h final
    rw [List.getLast?_concat] at final
    obtain rfl : hook = h := Option.some.inj final
    exact ⟨attachHook_at stands.stands, stands.known, stands.group⟩

/-- The whole pass over hooks in order, each of a function at a real address. -/
theorem gather_ok {hooks : List (HookDefinition × Nat)} (gathered : source.Gathered done groups c)
    (regular : ∀ h ∈ hooks, h.1.functionVram ≠ 0xFFFFFFFF)
    (inOrder : (done ++ hooks).Pairwise fun a b => a.1.place ≤ b.1.place)
    (ran : source.gather hooks c = .ok found) :
    ∃ groups', source.Gathered (done ++ hooks) groups' found := by
  induction hooks generalizing done groups c with
  | nil =>
      cases ran
      exact ⟨groups, by rwa [List.append_nil]⟩
  | cons hook rest ih =>
      unfold RegenSource.gather at ran
      cases sought : source.seek c hook.1 with
      | error e =>
          rw [sought] at ran
          contradiction
      | ok next =>
          rw [sought] at ran
          obtain ⟨before, -, across⟩ := List.pairwise_append.mp inOrder
          obtain ⟨groups', taken⟩ := gathered.next (regular hook List.mem_cons_self)
            (fun h passed => across h passed hook List.mem_cons_self) before sought
          rw [List.append_cons] at inOrder ⊢
          exact ih taken (fun h member => regular h (List.mem_cons_of_mem _ member)) inOrder ran

theorem gathered_start : source.Gathered [] [] .start where
  lists := by
    refine ⟨rfl, rfl, .nil, ?_, ?_, ?_, ?_, ?_⟩
    · exact fun h none => absurd none List.not_mem_nil
    · exact fun h none => absurd none List.not_mem_nil
    · intro atReturn index slot mapped
      cases atReturn <;> contradiction
    · exact fun h none => absurd none List.not_mem_nil
    · simp [RegenCursor.start]
  ofHook := fun g none => absurd none List.not_mem_nil
  first := fun _ => rfl
  last := fun h final => by contradiction

theorem buildRegenList_ok {hooks : List (HookDefinition × Nat)} {list : RegeneratedList}
    (regular : ∀ h ∈ hooks, h.1.functionVram ≠ 0xFFFFFFFF)
    (inOrder : hooks.Pairwise fun a b => a.1.place ≤ b.1.place)
    (built : source.buildRegenList hooks = .ok list) :
    ∃ groups, source.Lists hooks groups list ∧
      ∀ g ∈ groups, ∃ hook ∈ hooks, source.GroupOf hook.1 g := by
  unfold RegenSource.buildRegenList at built
  cases ran : source.gather hooks .start with
  | error e =>
      rw [ran] at built
      contradiction
  | ok found =>
      rw [ran] at built
      cases built
      obtain ⟨groups, gathered⟩ := gather_ok gathered_start regular inOrder ran
      exact ⟨groups, gathered.lists, gathered.ofHook⟩

end Pass

end N64ModernRuntime.Librecomp
