import N64ModernRuntime.Librecomp.LoadedHooks
import N64ModernRuntime.Librecomp.RegenRelocs

/-!
# mods.cpp: what regeneration leaves

The hooks that no replacement has taken go through `build_regen_list`, those of
patched functions a second time with the tables of the patches.  Each list that
has a function becomes one more code handle, and a jump to each of its functions
is written over the native one.
-/

set_option autoImplicit false

namespace N64ModernRuntime.Librecomp

open FailingSteps WriteLog

/-! ## The jumps -/

/-- The jumps of `apply_regenlist`, from one index on. -/
def regeneratedWrites (handle first : Nat) (funcPtrs : List (Option RecompFunc)) :
    List (RecompFunc × Prologue) :=
  (funcPtrs.zipIdx first).filterMap fun (target, index) =>
    target.map fun native => (native, some (.code handle index))

theorem patchAll_writes (handle first : Nat) (funcPtrs : List (Option RecompFunc))
    (bytes : RecompFunc → Prologue) :
    patchAll handle first funcPtrs bytes =
      writeAll bytes (regeneratedWrites handle first funcPtrs) := by
  induction funcPtrs generalizing first bytes with
  | nil => rfl
  | cons target rest ih =>
      rw [patchAll, ih]
      unfold regeneratedWrites
      rw [List.zipIdx_cons, List.filterMap_cons]
      cases target with
      | none => rfl
      | some native => rfl

theorem mem_regeneratedWrites {handle : Nat} {funcPtrs : List (Option RecompFunc)}
    {native : RecompFunc} {prologue : Prologue} :
    (native, prologue) ∈ regeneratedWrites handle 0 funcPtrs ↔
      ∃ index, funcPtrs[index]? = some (some native) ∧ prologue = some (.code handle index) := by
  unfold regeneratedWrites
  rw [List.mem_filterMap]
  constructor
  · rintro ⟨⟨target, index⟩, there, jump⟩
    obtain ⟨found, some_target, same⟩ := Option.map_eq_some_iff.mp jump
    cases same
    refine ⟨index, ?_, rfl⟩
    rw [List.mem_zipIdx_iff_getElem?.mp there, some_target]
  · rintro ⟨index, there, rfl⟩
    exact ⟨(some native, index), List.mem_zipIdx_iff_getElem?.mpr there, rfl⟩

/-! ## One list -/

namespace CodeMods

/-- A list has become code: one handle more, unless the list has no function. -/
structure Installs (env : LoadEnv) (list : RegeneratedList) (rom : List UInt8)
    (s t : CodeMods) : Prop where
  hookSlots : t.hookSlots = s.hookSlots
  handles : list.functions = [] ∧ t.handles = s.handles ∨
    t.handles = s.handles ++ [env.regeneratedHandle list rom]
  bytes : t.bytes = writeAll s.bytes (regeneratedWrites s.handles.length 0 list.funcPtrs)

section Installs
variable {env : LoadEnv} {list : RegeneratedList} {rom : List UInt8} {s t : CodeMods}

theorem Installs.nothing (functions : list.functions = []) (funcPtrs : list.funcPtrs = []) :
    Installs env list rom s s :=
  ⟨rfl, .inl ⟨functions, rfl⟩, by rw [funcPtrs]; rfl⟩

theorem install_installs : Installs env list rom s (s.install env list rom) :=
  ⟨rfl, .inr rfl, patchAll_writes _ _ _ _⟩

theorem applyRegenlist_eq (applied : s.applyRegenlist env list rom = some t) :
    t = s.install env list rom := by
  unfold applyRegenlist at applied
  split at applied
  · exact (Option.some.inj applied).symm
  · cases applied

def Renews (env : LoadEnv) (list : RegeneratedList) (rom : List UInt8) (s t : CodeMods)
    (before after : Option Nat) : Prop :=
  after = before ∨ after = some s.handles.length ∧
    t.handles = s.handles ++ [env.regeneratedHandle list rom]

theorem regenerateVanilla_ok (pointers : list.functions = [] → list.funcPtrs = [])
    (ok : (s.regenerateVanilla env list).2 = []) :
    Installs env list env.decompressedRom s (s.regenerateVanilla env list).1 ∧
      (s.regenerateVanilla env list).1.basePatchedCodeHandle = s.basePatchedCodeHandle ∧
      Renews env list env.decompressedRom s (s.regenerateVanilla env list).1
        s.regeneratedCodeHandle (s.regenerateVanilla env list).1.regeneratedCodeHandle := by
  unfold regenerateVanilla at ok ⊢
  split at ok
  · rename_i none
    rw [if_pos none]
    exact ⟨.nothing none (pointers none), rfl, .inl rfl⟩
  · rename_i functions
    rw [if_neg functions]
    split at ok
    · cases ok
    · rename_i installed applied
      obtain rfl := applyRegenlist_eq applied
      have installs : Installs env list env.decompressedRom s (s.install env list _) :=
        install_installs
      exact ⟨{ installs with }, rfl, .inr ⟨rfl, rfl⟩⟩

theorem regeneratePatched_ok (ok : (s.regeneratePatched env list).2 = []) :
    ∃ patchList, env.patchSource.buildRegenList (env.basePatchedHooks list) = .ok patchList ∧
      Installs env patchList env.patchBinary s (s.regeneratePatched env list).1 ∧
      (s.regeneratePatched env list).1.regeneratedCodeHandle = s.regeneratedCodeHandle ∧
      Renews env patchList env.patchBinary s (s.regeneratePatched env list).1
        s.basePatchedCodeHandle (s.regeneratePatched env list).1.basePatchedCodeHandle := by
  unfold regeneratePatched at ok ⊢
  split at ok
  · rename_i none
    rw [if_pos none]
    refine ⟨RegenCursor.start.list, ?_, .nothing rfl rfl, rfl, .inl rfl⟩
    have unhooked : env.basePatchedHooks list = [] := by
      unfold LoadEnv.basePatchedHooks
      rw [none]
      exact (env.sortHooks.perm hookBefore []).eq_nil
    rw [unhooked]
    rfl
  · rename_i hooked
    rw [if_neg hooked]
    split at ok
    · cases ok
    · rename_i patchList built
      rw [built]
      refine ⟨patchList, rfl, ?_⟩
      split at ok
      · cases ok
      · rename_i installed applied
        obtain rfl := applyRegenlist_eq applied
        have installs : Installs env patchList env.patchBinary s (s.install env patchList _) :=
          install_installs
        exact ⟨{ installs with }, rfl, .inr ⟨rfl, rfl⟩⟩

end Installs

end CodeMods

/-! ## What the lists hold -/

theorem LoadEnv.codeSource_romsMatch (env : LoadEnv) : env.codeSource.RomsMatch := by
  intro rom index found
  have mem := List.mem_filter.mp (List.mem_of_getLast? found)
  obtain ⟨s, here, same⟩ := Option.map_eq_some_iff.mp (of_decide_eq_true mem.2)
  exact ⟨s, here, same⟩

theorem LoadEnv.patchSource_romsMatch (env : LoadEnv) : env.patchSource.RomsMatch := by
  intro rom index found
  obtain ⟨below, same, -⟩ := List.findIdx?_eq_some_iff_getElem.mp found
  exact ⟨_, List.getElem?_eq_getElem below, of_decide_eq_true same⟩

theorem LoadEnv.sortHooks_inOrder (env : LoadEnv) (hooks : List (HookDefinition × Nat)) :
    (env.sortHooks.sort hookBefore hooks).Pairwise fun a b => a.1.place ≤ b.1.place := by
  refine (env.sortHooks.sorted hookBefore hooks hookBefore_weak).imp fun notBefore => ?_
  rw [hookBefore_place, decide_eq_false_iff_not, Nat.not_lt] at notBefore
  exact notBefore

theorem LoadEnv.mem_sortHooks {env : LoadEnv} {hooks : List (HookDefinition × Nat)}
    {hook : HookDefinition × Nat} :
    hook ∈ env.sortHooks.sort hookBefore hooks ↔ hook ∈ hooks :=
  (env.sortHooks.perm hookBefore hooks).mem_iff

theorem RegenSource.Assembles.functions_length {source : RegenSource} {parts : List RegenPart}
    {list : RegeneratedList} (assembles : source.Assembles parts list) (sectionEvent : Nat)
    (rom : List UInt8) :
    (list.contextFromRegeneratedList sectionEvent rom).functions.length =
      list.functions.length := by
  rw [assembles.contextFunctions, assembles.functions, List.length_flatMap, List.length_flatten,
    List.map_map]
  simp only [List.length_mapIdx]
  congr 1
  have fsts := congrArg (List.map (List.length ∘ RegenPart.functions))
    (List.zipIdx_map_fst 0 parts)
  rw [List.map_map] at fsts
  exact fsts

/-- What one call of `build_regen_list` comes to, and the handle of its list. -/
structure RegenSource.Builds (source : RegenSource) (env : LoadEnv) (rom : List UInt8)
    (hooks : List (HookDefinition × Nat)) (list : RegeneratedList) (groups : List RegenGroup) :
    Prop where
  lists : source.Lists hooks groups list
  ofHook : ∀ group ∈ groups, ∃ hook ∈ hooks, source.GroupOf hook.1 group
  length : (env.regeneratedHandle list rom).context.functions.length = groups.length
  exact_ : (env.regeneratedHandle list rom).RegeneratedExactly source.table

theorem RegenSource.buildRegenList_builds {source : RegenSource} (env : LoadEnv)
    (rom : List UInt8) {hooks : List (HookDefinition × Nat)} {list : RegeneratedList}
    (sorted : source.table.RelocsSorted) (roms : source.RomsMatch)
    (regular : ∀ h ∈ hooks, h.1.functionVram ≠ 0xFFFFFFFF)
    (inOrder : hooks.Pairwise fun a b => a.1.place ≤ b.1.place)
    (built : source.buildRegenList hooks = .ok list) :
    ∃ groups, source.Builds env rom hooks list groups := by
  obtain ⟨groups, lists, ofHook⟩ := buildRegenList_ok regular inOrder built
  obtain ⟨parts, assembles, right, increasing⟩ :=
    buildRegenList_parts sorted regular inOrder built
  refine ⟨groups, lists, ofHook, ?_, regeneratedHandle_exact env assembles right increasing roms⟩
  refine (assembles.functions_length env.sectionEvent rom).trans ?_
  rw [lists.functions, List.length_map]

theorem RegenSource.Builds.pointers {source : RegenSource} {env : LoadEnv} {rom : List UInt8}
    {hooks : List (HookDefinition × Nat)} {list : RegeneratedList} {groups : List RegenGroup}
    (builds : source.Builds env rom hooks list groups) :
    list.functions = [] → list.funcPtrs = [] := by
  rw [builds.lists.functions, builds.lists.funcPtrs, List.map_eq_nil_iff, List.map_eq_nil_iff]
  exact id

/-! ## Words -/

theorem word_regular {vram : UInt32} (aligned : vram &&& 3 = 0) : vram ≠ 0xFFFFFFFF := by
  rintro rfl
  exact absurd aligned (by decide)

theorem LoadEnv.nativeOf_entry (env : LoadEnv) (definition : HookDefinition) :
    env.nativeOf definition = (env.codeSource.entryOf definition).bind FuncEntry.func := by
  unfold LoadEnv.nativeOf LoadEnv.getFuncBySectionRomFunctionVram RegenSource.entryOf
  rw [Option.bind_assoc]
  refine Option.bind_congr fun index found => ?_
  obtain ⟨s, here, -⟩ := env.codeSource_romsMatch _ _ found
  have below := (List.getElem?_eq_some_iff.mp here).1
  have offset : env.codeSource.offsetOf definition.sectionRom definition.functionVram =
      definition.functionVram - env.code.getSectionRamAddr index := by
    unfold RegenSource.offsetOf
    rw [show env.codeSource.sectionVromMap definition.sectionRom = some index from found]
    rfl
  rw [offset]
  unfold LoadEnv.getFuncBySectionIndexFunctionOffset
  change _ = (env.code.getFuncEntryBySectionIndexFunctionOffset index _).bind FuncEntry.func
  cases env.code.getFuncEntryBySectionIndexFunctionOffset index
      (definition.functionVram - env.code.getSectionRamAddr index) with
  | some entry => rfl
  | none =>
      refine if_neg fun both => ?_
      have reserved := env.absolute_reserved
      have le : env.codeSource.table.sections.length ≤ index := both.1 ▸ reserved
      exact absurd below (Nat.not_lt.mpr le)

theorem LoadEnv.nativeOf_regular {env : LoadEnv} {definition : HookDefinition}
    (named : (env.nativeOf definition).isSome) : definition.functionVram ≠ 0xFFFFFFFF := by
  rw [env.nativeOf_entry] at named
  obtain ⟨native, found⟩ := Option.isSome_iff_exists.mp named
  obtain ⟨entry, known, -⟩ := Option.bind_eq_some_iff.mp found
  obtain ⟨index, section_, lookup⟩ := Option.bind_eq_some_iff.mp known
  obtain ⟨s, here, mem, offset, -⟩ := getFuncEntry_some lookup
  apply word_regular
  have aligned := env.code.aligned s (List.mem_of_getElem? here) entry mem
  rw [offset] at aligned
  unfold RegenSource.offsetOf at aligned
  rw [section_, Option.map_some, Option.getD_some] at aligned
  have ram : env.codeSource.table.getSectionRamAddr index = s.ramAddr := by
    unfold CodeTable.getSectionRamAddr
    rw [here]
    rfl
  rwa [ram, UInt32.add_comm, UInt32.sub_add_cancel] at aligned

theorem LoadEnv.patchOf_entry {env : LoadEnv} {definition : HookDefinition}
    {patch : BasePatchedFunction} (patched : env.codeSource.patchOf definition = some patch) :
    ∃ s entry, env.patches.sections[patch.patchSection]? = some s ∧
      s.funcs[patch.functionIndex]? = some entry ∧ env.nativeOf definition = entry.func := by
  have at_code : (env.codeSource.entryOf definition).bind
      (fun entry => getBasePatchedFuncs env.code env.patches entry.func) = some patch := patched
  obtain ⟨entry, known, found⟩ := Option.bind_eq_some_iff.mp at_code
  unfold getBasePatchedFuncs patchFuncsByPtr at found
  split at found
  · obtain ⟨⟨func, _⟩, here, rfl⟩ := Option.map_eq_some_iff.mp found
    have found := List.find?_some here
    have same : func = entry.func := of_decide_eq_true found
    obtain ⟨⟨s, ps⟩, inSections, inSection⟩ := List.mem_flatMap.mp (List.mem_of_find?_eq_some here)
    obtain ⟨⟨fe, fi⟩, inFuncs, made⟩ := List.mem_map.mp inSection
    cases made
    refine ⟨s, fe, List.mem_zipIdx_iff_getElem?.mp inSections,
      List.mem_zipIdx_iff_getElem?.mp inFuncs, ?_⟩
    rw [env.nativeOf_entry, known]
    exact same.symm
  · cases found

theorem LoadEnv.patchedHook_regular {env : LoadEnv} {hook : HookDefinition × Nat}
    {patch : BasePatchedFunction} (patched : env.codeSource.patchOf hook.1 = some patch) :
    (env.patches.patchedHook (patch, hook)).1.functionVram ≠ 0xFFFFFFFF := by
  obtain ⟨s, entry, section_, here, -⟩ := LoadEnv.patchOf_entry patched
  have vram : (env.patches.patchedHook (patch, hook)).1.functionVram = s.ramAddr + entry.offset := by
    unfold CodeTable.patchedHook CodeTable.getSectionRamAddr CodeTable.getFunctionEntry
    dsimp only
    rw [section_, Option.bind_some, here]
    rfl
  rw [vram]
  exact word_regular
    (env.patches.aligned s (List.mem_of_getElem? section_) entry (List.mem_of_getElem? here))

namespace CodeMods

/-! ## The leftover hooks -/

/-- The hooks that no replacement has taken, in the order of their functions. -/
def leftoverHooks (s : CodeMods) (env : LoadEnv) : List (HookDefinition × Nat) :=
  env.sortHooks.sort hookBefore s.unprocessedHooks

theorem Installs.handles_prefix {env : LoadEnv} {list : RegeneratedList} {rom : List UInt8}
    {s t : CodeMods} (installs : Installs env list rom s t) : s.handles <+: t.handles := by
  rcases installs.handles with ⟨-, same⟩ | appended
  · rw [same]
  · rw [appended]
    exact List.prefix_append _ _

/-- Where the code of the two lists stands among the handles, and the jumps to it. -/
structure RegeneratedAt (env : LoadEnv) (s t : CodeMods) (list patchList : RegeneratedList)
    (patchHandle : Nat) : Prop where
  prefix_ : s.handles <+: t.handles
  patchHandle_le : s.handles.length ≤ patchHandle
  patchHandle_lt : list.functions ≠ [] → s.handles.length < patchHandle
  cases_ : ∀ handle code, s.handles.length ≤ handle → t.handles[handle]? = some code →
    handle = s.handles.length ∧ code = env.regeneratedHandle list env.decompressedRom ∨
      handle = patchHandle ∧ code = env.regeneratedHandle patchList env.patchBinary
  vanilla : list.functions ≠ [] →
    t.handles[s.handles.length]? = some (env.regeneratedHandle list env.decompressedRom)
  patched : patchList.functions ≠ [] →
    t.handles[patchHandle]? = some (env.regeneratedHandle patchList env.patchBinary)
  bytes : t.bytes = writeAll s.bytes (regeneratedWrites s.handles.length 0 list.funcPtrs ++
    regeneratedWrites patchHandle 0 patchList.funcPtrs)

theorem Installs.last {env : LoadEnv} {list : RegeneratedList} {rom : List UInt8}
    {s t : CodeMods} (installs : Installs env list rom s t) (functions : list.functions ≠ []) :
    t.handles = s.handles ++ [env.regeneratedHandle list rom] :=
  installs.handles.resolve_left fun none => functions none.1

theorem Installs.new {env : LoadEnv} {list : RegeneratedList} {rom : List UInt8}
    {s t : CodeMods} (installs : Installs env list rom s t) {handle : Nat} {code : CodeHandle}
    (le : s.handles.length ≤ handle) (here : t.handles[handle]? = some code) :
    handle = s.handles.length ∧ code = env.regeneratedHandle list rom := by
  rcases installs.handles with ⟨-, same⟩ | appended
  · rw [same, List.getElem?_eq_none le] at here
    cases here
  · rw [appended, List.getElem?_append_right le, List.getElem?_singleton] at here
    split at here
    · rename_i zero
      exact ⟨Nat.le_antisymm (Nat.sub_eq_zero_iff_le.mp zero) le, (Option.some.inj here).symm⟩
    · cases here

theorem Installs.regeneratedAt {env : LoadEnv} {list patchList : RegeneratedList}
    {s between t : CodeMods} (first : Installs env list env.decompressedRom s between)
    (second : Installs env patchList env.patchBinary between t) :
    RegeneratedAt env s t list patchList between.handles.length where
  prefix_ := first.handles_prefix.trans second.handles_prefix
  patchHandle_le := first.handles_prefix.length_le
  patchHandle_lt functions := by
    rw [first.last functions, List.length_append]
    exact Nat.lt_succ_self _
  cases_ handle code le here := by
    by_cases old : handle < between.handles.length
    · left
      have there : between.handles[handle]? = some code := by
        rw [List.prefix_iff_getElem?.mp second.handles_prefix handle old] at here
        rw [List.getElem?_eq_getElem old, here]
      exact first.new le there
    · exact .inr (second.new (Nat.not_lt.mp old) here)
  vanilla functions := by
    have appended := first.last functions
    have below : s.handles.length < between.handles.length := by
      rw [appended, List.length_append]
      exact Nat.lt_succ_self _
    rw [List.prefix_iff_getElem?.mp second.handles_prefix _ below]
    simp only [appended, List.getElem_concat_length]
  patched functions := by
    rw [second.last functions, List.getElem?_append_right (Nat.le_refl _), Nat.sub_self]
    rfl
  bytes := by
    rw [second.bytes, first.bytes, writeAll_append]

/-- The two lists of a load, and the code that they have become. -/
structure Regenerates (env : LoadEnv) (s t : CodeMods) (list patchList : RegeneratedList)
    (groups patchGroups : List RegenGroup) : Prop where
  vanilla : env.codeSource.Builds env env.decompressedRom (s.leftoverHooks env) list groups
  patched : env.patchSource.Builds env env.patchBinary (env.basePatchedHooks list) patchList
    patchGroups
  hookSlots : t.hookSlots = s.hookSlots
  placed : ∃ patchHandle, RegeneratedAt env s t list patchList patchHandle
  regenerated : t.regeneratedCodeHandle = s.regeneratedCodeHandle ∨
    ∃ handle code, t.regeneratedCodeHandle = some handle ∧ s.handles.length ≤ handle ∧
      t.handles[handle]? = some code ∧ code.RegeneratedExactly env.code
  basePatched : t.basePatchedCodeHandle = s.basePatchedCodeHandle ∨
    ∃ handle code, t.basePatchedCodeHandle = some handle ∧ s.handles.length ≤ handle ∧
      t.handles[handle]? = some code ∧ code.RegeneratedExactly env.patches

theorem mem_unprocessedHooks {s : CodeMods} {definition : HookDefinition} {slot : Nat} :
    (definition, slot) ∈ s.unprocessedHooks ↔
      s.hookSlots.definitions[slot]? = some definition ∧
        ¬ s.processedHookSlots[slot]? = some true := by
  unfold unprocessedHooks
  rw [List.mem_filter, List.mem_zipIdx_iff_getElem?]
  refine and_congr_right fun _ => ?_
  dsimp only
  cases s.processedHookSlots[slot]? with
  | none => simp
  | some mark => simp

theorem regenerateLeftovers_eq (env : LoadEnv) (s : CodeMods) :
    regenerateLeftovers env s =
      regenerateWithHooks env (s.leftoverHooks env) s.setHookTypes := by
  unfold regenerateLeftovers
  split
  · rename_i none
    have empty : s.leftoverHooks env = [] := by
      unfold leftoverHooks
      rw [none]
      exact (env.sortHooks.perm hookBefore []).eq_nil
    rw [empty]
    rfl
  · rfl

/-- A handle that an installation renews is that of its list, in every later state. -/
theorem Renews.exact_ {env : LoadEnv} {source : RegenSource} {rom : List UInt8}
    {hooks : List (HookDefinition × Nat)} {list : RegeneratedList} {groups : List RegenGroup}
    {s t : CodeMods} {before after : Option Nat} (renews : Renews env list rom s t before after)
    (builds : source.Builds env rom hooks list groups) {handles : List CodeHandle}
    (later : t.handles <+: handles) :
    after = before ∨ ∃ handle code, after = some handle ∧ s.handles.length ≤ handle ∧
      handles[handle]? = some code ∧ code.RegeneratedExactly source.table := by
  refine renews.imp_right fun new => ?_
  obtain ⟨is_last, appended⟩ := new
  refine ⟨s.handles.length, _, is_last, Nat.le_refl _, ?_, builds.exact_⟩
  obtain ⟨rest, rfl⟩ := later
  rw [appended, List.append_assoc, List.getElem?_append_right (Nat.le_refl _), Nat.sub_self]
  rfl

theorem regenerateLeftovers_ok {env : LoadEnv} {s : CodeMods}
    (named : ∀ definition ∈ s.hookSlots.definitions, (env.nativeOf definition).isSome)
    (codeSorted : env.code.RelocsSorted) (patchesSorted : env.patches.RelocsSorted)
    (ok : (regenerateLeftovers env s).2 = []) :
    ∃ list patchList groups patchGroups,
      Regenerates env s (regenerateLeftovers env s).1 list patchList groups patchGroups := by
  rw [regenerateLeftovers_eq] at ok ⊢
  unfold regenerateWithHooks at ok ⊢
  split at ok
  · cases ok
  · rename_i list built
    have regular : ∀ hook ∈ s.leftoverHooks env, hook.1.functionVram ≠ 0xFFFFFFFF := by
      intro hook mem
      have slot := (mem_unprocessedHooks.mp (LoadEnv.mem_sortHooks.mp mem)).1
      exact LoadEnv.nativeOf_regular (named hook.1 (List.mem_of_getElem? slot))
    obtain ⟨groups, vanilla⟩ := RegenSource.buildRegenList_builds env env.decompressedRom codeSorted
      env.codeSource_romsMatch regular (env.sortHooks_inOrder _) built
    have first : (s.setHookTypes.regenerateVanilla env list).2 = [] := by
      by_contra failed
      rw [untilError_cons_failed _ failed] at ok
      exact failed ok
    rw [untilError_cons_ok _ first, untilError_singleton] at ok ⊢
    obtain ⟨installs, basePatched, regenerated⟩ := regenerateVanilla_ok vanilla.pointers first
    obtain ⟨patchList, patchBuilt, installs', kept, basePatched'⟩ := regeneratePatched_ok ok
    have patchRegular : ∀ hook ∈ env.basePatchedHooks list,
        hook.1.functionVram ≠ 0xFFFFFFFF := by
      intro hook mem
      obtain ⟨⟨patch, vanillaHook⟩, there, rfl⟩ := List.mem_map.mp (LoadEnv.mem_sortHooks.mp mem)
      exact LoadEnv.patchedHook_regular ((vanilla.lists.patched patch vanillaHook).mp there).2
    obtain ⟨patchGroups, patched⟩ := RegenSource.buildRegenList_builds env env.patchBinary
      patchesSorted env.patchSource_romsMatch patchRegular (env.sortHooks_inOrder _) patchBuilt
    have placed : RegeneratedAt env s _ list patchList _ :=
      Installs.regeneratedAt { installs with } installs'
    refine ⟨list, patchList, groups, patchGroups, vanilla, patched,
      installs'.hookSlots.trans installs.hookSlots, ⟨_, placed⟩, ?_, ?_⟩
    · rw [kept]
      exact regenerated.exact_ vanilla installs'.handles_prefix
    · have exact_ := basePatched'.exact_ patched (List.prefix_refl _)
      rw [basePatched] at exact_
      refine exact_.imp_right ?_
      rintro ⟨handle, code, owned, le, rest⟩
      exact ⟨handle, code, owned, installs.handles_prefix.length_le.trans le, rest⟩

end CodeMods

end N64ModernRuntime.Librecomp
