import N64ModernRuntime.Lib.WriteLog
import N64ModernRuntime.Librecomp.LoadUndone
import N64ModernRuntime.Librecomp.RegenRelocs

/-!
# mods.cpp: what an accepted load has written

The passes over the code of the mods one by one: the hooks that the replacements
of a mod carry, the code handles, and the jumps over native functions, up to the
hooks that are left for regenerated code.
-/

set_option autoImplicit false

namespace N64ModernRuntime.Librecomp

open FailingSteps WriteLog

def LoadEnv.nativeOf (env : LoadEnv) (definition : HookDefinition) : Option RecompFunc :=
  env.getFuncBySectionRomFunctionVram definition.sectionRom definition.functionVram

/-! ## Slots and the maps of a mod -/

namespace HookSlots

theorem find_eq_some {slots : HookSlots} {definition : HookDefinition} {slot : Nat} :
    slots.find definition = some slot ↔ slots.definitions[slot]? = some definition := by
  unfold find
  rw [List.findIdx?_eq_some_iff_getElem]
  constructor
  · rintro ⟨below, same, -⟩
    rw [List.getElem?_eq_getElem below, of_decide_eq_true same]
  · intro here
    obtain ⟨below, same⟩ := List.getElem?_eq_some_iff.mp here
    refine ⟨below, decide_eq_true same, fun other less other_same => ?_⟩
    have twice := of_decide_eq_true other_same
    have equal := (List.Nodup.getElem_inj_iff slots.nodup).mp (twice.trans same.symm)
    exact absurd equal (Nat.ne_of_lt less)

end HookSlots

def replacementHooks (slots : HookSlots) (replacements : List FunctionReplacement)
    (atReturn : Bool) : List (Nat × Nat) :=
  replacements.filterMap fun replacement =>
    (slots.find (replacement.definition atReturn)).map fun slot => (replacement.funcIndex, slot)

def HookMaps.hooks (maps : HookMaps) (atReturn : Bool) : List (Nat × Nat) :=
  if atReturn then maps.returnFuncHooks else maps.entryFuncHooks

section Maps
variable {slots : HookSlots} {processed : List Bool} {replacements : List FunctionReplacement}

theorem addReplacement_hooks (maps : HookMaps) (replacement : FunctionReplacement)
    (atReturn : Bool) : (maps.addReplacement slots replacement).hooks atReturn =
      maps.hooks atReturn ++ replacementHooks slots [replacement] atReturn := by
  unfold HookMaps.addReplacement HookMaps.hooks replacementHooks
  cases atReturn <;> cases entry : slots.find (replacement.definition false) <;>
    cases return_ : slots.find (replacement.definition true) <;>
    simp [entry, return_]

theorem ofReplacements_hooks (processed : List Bool) (atReturn : Bool) :
    (HookMaps.ofReplacements slots processed replacements).hooks atReturn =
      replacementHooks slots replacements atReturn := by
  have every (maps : HookMaps) :
      (replacements.foldl (HookMaps.addReplacement slots) maps).hooks atReturn =
        maps.hooks atReturn ++ replacementHooks slots replacements atReturn := by
    induction replacements generalizing maps with
    | nil => exact (List.append_nil _).symm
    | cons replacement rest ih =>
        rw [List.foldl_cons, ih, addReplacement_hooks, List.append_assoc]
        congr 1
        exact (List.filterMap_append (l := [replacement])).symm
  have start := every ⟨[], [], processed⟩
  cases atReturn with
  | false => exact start
  | true => exact start

theorem getElem?_set_true {marks : List Bool} {i j : Nat} :
    (marks.set i true)[j]? = some true ↔ marks[j]? = some true ∨ j < marks.length ∧ j = i := by
  rw [List.getElem?_set]
  by_cases same : i = j
  · subst same
    rw [if_pos rfl]
    by_cases below : i < marks.length
    · rw [if_pos below]
      exact iff_of_true rfl (.inr ⟨below, rfl⟩)
    · rw [if_neg below, List.getElem?_eq_none (Nat.not_lt.mp below)]
      exact iff_of_false (fun none => by cases none) (by rintro (none | ⟨less, -⟩) <;> grind)
  · rw [if_neg same]
    exact (or_iff_left fun both => same both.2.symm).symm

theorem addReplacement_processed (slots : HookSlots) (maps : HookMaps) (replacement : FunctionReplacement)
    (slot : Nat) :
    (maps.addReplacement slots replacement).processedHookSlots.length =
        maps.processedHookSlots.length ∧
      ((maps.addReplacement slots replacement).processedHookSlots[slot]? = some true ↔
        maps.processedHookSlots[slot]? = some true ∨ slot < maps.processedHookSlots.length ∧
          ∃ atReturn, slots.find (replacement.definition atReturn) = some slot) := by
  have either (P : Bool → Prop) : (∃ atReturn, P atReturn) ↔ P false ∨ P true := Bool.exists_bool
  rw [either]
  unfold HookMaps.addReplacement
  cases slots.find (replacement.definition false) <;>
    cases slots.find (replacement.definition true) <;>
    simp only [List.length_set, getElem?_set_true, true_and, reduceCtorEq, or_self, and_false,
      or_false, false_or, Option.some.injEq, eq_comm (a := slot)]
  grind

theorem ofReplacements_processed (slots : HookSlots) (processed : List Bool)
    (replacements : List FunctionReplacement) (slot : Nat) :
    (HookMaps.ofReplacements slots processed replacements).processedHookSlots.length =
        processed.length ∧
      ((HookMaps.ofReplacements slots processed replacements).processedHookSlots[slot]? =
          some true ↔
        processed[slot]? = some true ∨ slot < processed.length ∧
          ∃ replacement ∈ replacements, ∃ atReturn,
            slots.find (replacement.definition atReturn) = some slot) := by
  have every (maps : HookMaps) :
      (replacements.foldl (HookMaps.addReplacement slots) maps).processedHookSlots.length =
          maps.processedHookSlots.length ∧
        ((replacements.foldl (HookMaps.addReplacement slots) maps).processedHookSlots[slot]? =
            some true ↔
          maps.processedHookSlots[slot]? = some true ∨ slot < maps.processedHookSlots.length ∧
            ∃ replacement ∈ replacements, ∃ atReturn,
              slots.find (replacement.definition atReturn) = some slot) := by
    induction replacements generalizing maps with
    | nil =>
        refine ⟨rfl, (or_iff_left ?_).symm⟩
        rintro ⟨-, replacement, mem, -⟩
        cases mem
    | cons replacement rest ih =>
        obtain ⟨length, marked⟩ := addReplacement_processed slots maps replacement slot
        obtain ⟨length', marked'⟩ := ih (maps.addReplacement slots replacement)
        rw [List.foldl_cons, length', marked', length, marked, or_assoc, ← and_or_left]
        simp only [List.mem_cons, exists_eq_or_imp, true_and]
  exact every ⟨[], [], processed⟩

end Maps

theorem mem_replacementHooks {slots : HookSlots} {replacements : List FunctionReplacement}
    {atReturn : Bool} {funcIndex slot : Nat} :
    (funcIndex, slot) ∈ replacementHooks slots replacements atReturn ↔
      ∃ replacement ∈ replacements, replacement.funcIndex = funcIndex ∧
        slots.find (replacement.definition atReturn) = some slot := by
  unfold replacementHooks
  rw [List.mem_filterMap]
  refine exists_congr fun replacement => and_congr_right fun _ => ?_
  rw [Option.map_eq_some_iff]
  constructor
  · rintro ⟨other, found, same⟩
    cases same
    exact ⟨rfl, found⟩
  · rintro ⟨rfl, found⟩
    exact ⟨slot, found, rfl⟩

structure HookedCode where
  context : RecompilerContext
  entryFuncHooks : List (Nat × Nat)
  returnFuncHooks : List (Nat × Nat)

def CodeHandle.hookedCode (handle : CodeHandle) : HookedCode :=
  ⟨handle.context, handle.entryFuncHooks, handle.returnFuncHooks⟩

def CodeMods.hookedCode (s : CodeMods) (index : Nat) : HookedCode :=
  let context := (s.mods index).recompilerContext
  ⟨context, (context.hookMaps s.hookSlots).entryFuncHooks,
    (context.hookMaps s.hookSlots).returnFuncHooks⟩

/-! ## The second pass -/

namespace CodeMods

def OnlyMods (s t : CodeMods) : Prop := ∃ mods, t = { s with mods := mods }

theorem OnlyMods.refl (s : CodeMods) : OnlyMods s s := ⟨s.mods, rfl⟩

theorem OnlyMods.trans {s t u : CodeMods} (first : OnlyMods s t) (second : OnlyMods t u) :
    OnlyMods s u := by
  obtain ⟨mods, rfl⟩ := first
  obtain ⟨mods', rfl⟩ := second
  exact ⟨mods', rfl⟩

section LoadModCode
variable {env : LoadEnv} {index : Nat} {s : CodeMods}

theorem loadNativeLibrary_onlyMods (manifest : NativeLibraryManifest) :
    OnlyMods s (loadNativeLibrary env index manifest s).1 := by
  rw [loadNativeLibrary]
  split
  · exact ⟨_, rfl⟩
  · split
    · exact ⟨_, rfl⟩
    · refine OnlyMods.trans (t := clearNativeExports _ index) ⟨_, rfl⟩ ?_
      refine untilError_related OnlyMods.refl OnlyMods.trans (fun f mem t => ?_) _
      obtain ⟨name, -, rfl⟩ := List.mem_map.mp mem
      unfold addNativeExport
      split
      · exact .refl t
      · split
        · exact ⟨_, rfl⟩
        · exact .refl t

theorem makeCodeHandle_eq (ok : (makeCodeHandle env index s).2 = []) :
    ∃ live, (makeCodeHandle env index s).1 =
      ({ s with processedHookSlots := (HookMaps.ofReplacements s.hookSlots s.processedHookSlots
          (s.mods index).recompilerContext.replacements).processedHookSlots } :
        CodeMods).newHandle index (.ofMod live (s.baseEventIndices index)
          (s.mods index).recompilerContext (HookMaps.ofReplacements s.hookSlots
            s.processedHookSlots (s.mods index).recompilerContext.replacements)) := by
  rw [makeCodeHandle] at ok ⊢
  split at ok
  · rename_i offline
    rw [if_pos offline]
    unfold makeOffline at ok ⊢
    dsimp only at ok ⊢
    split at ok
    · cases ok
    · rename_i unhooked
      rw [if_neg unhooked]
      split at ok
      · cases ok
      · split at ok
        · rename_i good
          rw [if_pos good]
          exact ⟨false, rfl⟩
        · cases ok
  · rename_i live
    rw [if_neg live]
    unfold makeLive at ok ⊢
    dsimp only at ok ⊢
    split at ok
    · rename_i recompiles
      rw [if_pos recompiles]
      exact ⟨true, rfl⟩
    · cases ok

def TakesSlot (s : CodeMods) (index slot : Nat) : Prop :=
  ∃ replacement ∈ (s.mods index).recompilerContext.replacements, ∃ atReturn,
    s.hookSlots.find (replacement.definition atReturn) = some slot

structure CodeLoaded (indices : List Nat) (s t : CodeMods) : Prop where
  symbols : SameSymbols s t
  bytes : t.bytes = s.bytes
  patchedFuncs : t.patchedFuncs = s.patchedFuncs
  regenerated : t.regeneratedCodeHandle = s.regeneratedCodeHandle
  basePatched : t.basePatchedCodeHandle = s.basePatchedCodeHandle
  handles : t.handles.map CodeHandle.hookedCode =
    s.handles.map CodeHandle.hookedCode ++ indices.map s.hookedCode
  owner : ∀ index ∈ indices, ∃ j, indices[j]? = some index ∧
    (t.mods index).codeHandle = some (s.handles.length + j)
  other : ∀ index ∉ indices, (t.mods index).codeHandle = (s.mods index).codeHandle
  slots : t.processedHookSlots.length = s.processedHookSlots.length
  processed : ∀ slot, t.processedHookSlots[slot]? = some true ↔
    s.processedHookSlots[slot]? = some true ∨ slot < s.processedHookSlots.length ∧
      ∃ index ∈ indices, s.TakesSlot index slot

theorem loadModCode_loaded (ok : (loadModCode env index s).2 = []) :
    CodeLoaded [index] s (loadModCode env index s).1 := by
  have symbols := (loadModCode_frame env index (Nat.le_refl s.handles.length)).2
  have made : (makeCodeHandle env index s).2 = [] := by
    by_contra failed
    rw [loadModCode_failed failed] at ok
    exact failed ok
  obtain ⟨live, handle⟩ := makeCodeHandle_eq made
  have owned := makeCodeHandle_ok made
  rw [loadModCode_ok made] at ok ⊢ symbols
  generalize (makeCodeHandle env index s).1 = t at handle owned ok symbols ⊢
  subst handle
  generalize made_eq : CodeMods.newHandle _ index _ = t at owned ok symbols ⊢
  have libraries : OnlyMods t (untilError
      ((env.files index).nativeLibraries.map (loadNativeLibrary env index)) t).1 := by
    refine untilError_related OnlyMods.refl OnlyMods.trans (fun f mem u => ?_) t
    obtain ⟨manifest, -, rfl⟩ := List.mem_map.mp mem
    exact loadNativeLibrary_onlyMods manifest
  have kept := (loadNativeLibraries_adds env index t (env.files index).nativeLibraries).codeHandle
  have good : (untilError
      ((env.files index).nativeLibraries.map (loadNativeLibrary env index)) t).2 = [] := by
    by_contra failed
    rw [untilError_append_failed _ failed] at ok
    exact failed ok
  rw [untilError_append_ok _ good, untilError_singleton] at ok symbols ⊢
  generalize (untilError
    ((env.files index).nativeLibraries.map (loadNativeLibrary env index)) t).1 = u
      at libraries kept ok symbols ⊢
  obtain ⟨after, published, -⟩ := publishAll_publishes
    (u.mods index).recompilerContext.functions.zipIdx ((kept index).trans owned)
  have published : (publishFunctions index u).1 = { u with funcMap := after } := published
  rw [published] at symbols ⊢
  obtain ⟨slots, processed⟩ : _ ∧ ∀ slot, _ := forall_and.mp fun slot =>
    ofReplacements_processed s.hookSlots s.processedHookSlots
      (s.mods index).recompilerContext.replacements slot
  have only : ∃ mods, t = { s with
      mods := mods
      handles := s.handles ++ [CodeHandle.ofMod live (s.baseEventIndices index)
        (s.mods index).recompilerContext (HookMaps.ofReplacements s.hookSlots s.processedHookSlots
          (s.mods index).recompilerContext.replacements)]
      processedHookSlots := (HookMaps.ofReplacements s.hookSlots s.processedHookSlots
        (s.mods index).recompilerContext.replacements).processedHookSlots } := ⟨_, made_eq.symm⟩
  have apart (other : Nat) (apart : other ≠ index) :
      (t.mods other).codeHandle = (s.mods other).codeHandle := by
    rw [← made_eq, newHandle]
    dsimp only
    rw [setMod_other _ _ apart]
  obtain ⟨mods, rfl⟩ := only
  obtain ⟨libraryMods, rfl⟩ := libraries
  obtain ⟨entries, returns⟩ := HookMaps.ofReplacements_maps s.hookSlots s.processedHookSlots []
    (s.mods index).recompilerContext.replacements
  refine ⟨symbols, rfl, rfl, rfl, rfl, ?_, ?_, ?_, ?_, ?_⟩
  · change List.map CodeHandle.hookedCode (s.handles ++ [_]) = _
    rw [List.map_append]
    congr 1
    rw [List.map_singleton, CodeHandle.hookedCode, CodeHandle.ofMod]
    dsimp only
    rw [entries, returns]
    rfl
  · intro other mem
    rw [List.mem_singleton.mp mem]
    exact ⟨0, rfl, (kept index).trans owned⟩
  · intro other outside
    exact (kept other).trans (apart other fun same => outside (List.mem_singleton.mpr same))
  · exact slots 0
  · intro slot
    refine (processed slot).trans ?_
    simp only [List.mem_singleton, exists_eq_left]
    rfl

theorem CodeLoaded.cons {rest : List Nat} {t u : CodeMods} (first : CodeLoaded [index] s t)
    (later : CodeLoaded rest t u) : CodeLoaded (index :: rest) s u := by
  have length : t.handles.length = s.handles.length + 1 := by
    have lengths := congrArg List.length first.handles
    rwa [List.length_append, List.length_map, List.length_map] at lengths
  have code : t.hookedCode = s.hookedCode := by
    unfold hookedCode
    simp only [first.symbols.symbols, first.symbols.hookSlots]
  have takes : t.TakesSlot = s.TakesSlot := by
    unfold TakesSlot
    simp only [first.symbols.symbols, first.symbols.hookSlots]
  refine ⟨first.symbols.trans later.symbols, later.bytes.trans first.bytes,
    later.patchedFuncs.trans first.patchedFuncs, later.regenerated.trans first.regenerated,
    later.basePatched.trans first.basePatched, ?_, ?_, ?_, later.slots.trans first.slots, ?_⟩
  · rw [later.handles, first.handles, code, List.append_assoc, ← List.map_append]
    rfl
  · intro other mem
    by_cases again : other ∈ rest
    · obtain ⟨j, place, owns⟩ := later.owner other again
      refine ⟨j + 1, place, ?_⟩
      rw [owns, length, Nat.add_assoc, Nat.add_comm 1]
    · have only := (List.mem_cons.mp mem).resolve_right again
      subst only
      obtain ⟨j, place, owns⟩ := first.owner other List.mem_cons_self
      have zero : j = 0 := by
        have below := (List.getElem?_eq_some_iff.mp place).1
        exact Nat.lt_one_iff.mp below
      subst zero
      exact ⟨0, rfl, (later.other other again).trans owns⟩
  · intro other apart
    rw [List.mem_cons, not_or] at apart
    rw [later.other other apart.2, first.other other fun mem => apart.1 (List.mem_singleton.mp mem)]
  · intro slot
    rw [later.processed, first.processed, first.slots, takes, or_assoc, ← and_or_left]
    simp only [List.mem_cons, List.not_mem_nil, or_false, exists_eq_or_imp, exists_eq_left]

theorem codePass_loaded (indices : List Nat) (ok : (codePass env indices s).2 = []) :
    CodeLoaded indices s (codePass env indices s).1 := by
  induction indices generalizing s with
  | nil =>
      refine ⟨.refl s, rfl, rfl, rfl, rfl, (List.append_nil _).symm,
        fun index mem => absurd mem List.not_mem_nil, fun _ _ => rfl, rfl, fun slot => ?_⟩
      refine (or_iff_left ?_).symm
      rintro ⟨-, index, mem, -⟩
      cases mem
  | cons index rest ih =>
      obtain ⟨first, later⟩ := (codePass_errors env index rest s).mp ok
      exact (loadModCode_loaded first).cons (ih later)

end LoadModCode

/-! ## The third pass -/

/-- The jumps that `log` lists have been written, each over a function that none was over. -/
structure Replaces (log : List (RecompFunc × Prologue)) (s t : CodeMods) : Prop where
  mods : t.mods = s.mods
  hookSlots : t.hookSlots = s.hookSlots
  processed : t.processedHookSlots = s.processedHookSlots
  regenerated : t.regeneratedCodeHandle = s.regeneratedCodeHandle
  basePatched : t.basePatchedCodeHandle = s.basePatchedCodeHandle
  handles : t.handles.map CodeHandle.hookedCode = s.handles.map CodeHandle.hookedCode
  bytes : t.bytes = writeAll s.bytes log
  patchedFuncs : t.patchedFuncs.map Prod.fst = s.patchedFuncs.map Prod.fst ++ log.map Prod.fst
  nodup : (s.patchedFuncs.map Prod.fst).Nodup → (t.patchedFuncs.map Prod.fst).Nodup

theorem Replaces.refl (s : CodeMods) : Replaces [] s s where
  mods := rfl
  hookSlots := rfl
  processed := rfl
  regenerated := rfl
  basePatched := rfl
  handles := rfl
  bytes := rfl
  patchedFuncs := (List.append_nil _).symm
  nodup := id

theorem Replaces.append {older newer : List (RecompFunc × Prologue)} {s t u : CodeMods}
    (first : Replaces older s t) (second : Replaces newer t u) :
    Replaces (older ++ newer) s u where
  mods := second.mods.trans first.mods
  hookSlots := second.hookSlots.trans first.hookSlots
  processed := second.processed.trans first.processed
  regenerated := second.regenerated.trans first.regenerated
  basePatched := second.basePatched.trans first.basePatched
  handles := second.handles.trans first.handles
  bytes := by rw [second.bytes, first.bytes, writeAll_append]
  patchedFuncs := by
    rw [second.patchedFuncs, first.patchedFuncs, List.map_append, List.append_assoc]
  nodup distinct := second.nodup (first.nodup distinct)

section Resolve
variable {env : LoadEnv} {index : Nat} {s : CodeMods}

theorem updateHandle_replaces {f : CodeHandle → CodeHandle}
    (same : ∀ handle, (f handle).hookedCode = handle.hookedCode) :
    Replaces [] s (s.updateHandle index f) := by
  unfold updateHandle
  split
  · exact .refl s
  · refine { Replaces.refl s with handles := List.ext_getElem? fun i => ?_ }
    rw [List.getElem?_map, List.getElem?_map, List.getElem?_modify]
    cases s.handles[i]? with
    | none => rfl
    | some handle =>
        change some (if _ then f handle else handle).hookedCode = _
        split
        · exact congrArg some (same handle)
        · rfl

theorem lookupImport_replaces {importIndex : Nat} {id name : String} {t : CodeMods}
    {func : Option GenericFunction}
    (found : lookupImport env index importIndex id name s = .ok (t, func)) : Replaces [] s t := by
  have shim (f : ShimFunction) : Replaces [] s (s.newShim f).1 := { Replaces.refl s with }
  unfold lookupImport at found
  split at found
  · split at found
    · cases found
      exact .refl s
    · split at found
      · cases found
        exact shim _
      · cases found
        exact .refl s
  · split at found
    · cases found
      exact .refl s
    · split at found
      · cases found
        exact .refl s
      · split at found
        · cases found
          exact shim _
        · cases found

theorem bindImport_replaces (symbol : ImportSymbol × Nat) :
    Replaces [] s (bindImport env index symbol s).1 := by
  unfold bindImport
  dsimp only
  split
  · exact .refl s
  · rename_i found
    exact lookupImport_replaces found
  · rename_i found
    exact (lookupImport_replaces found).append (updateHandle_replaces fun _ => rfl)

theorem registerCallback_replaces (callback : Callback) :
    Replaces [] s (registerCallback env index callback s).1 := by
  unfold registerCallback
  dsimp only
  split
  · exact .refl s
  · split
    · exact .refl s
    · exact .refl s
    · exact { Replaces.refl s with }

theorem registerHook_replaces (hook : FunctionHook) :
    Replaces [] s (registerHook index hook s).1 := by
  unfold registerHook
  split
  · exact .refl s
  · exact { Replaces.refl s with }

/-- Everything of the third pass before the replacements. -/
theorem linkCode_replaces (env : LoadEnv) (index : Nat) (s : CodeMods) :
    Replaces [] s (untilError [populateReferenceSymbols env index, bindImports env index,
      registerCallbacks env index, registerHooks index, setLocalSectionAddresses index] s).1 := by
  have links {ε : Type} {fs : List (Step CodeMods ε)}
      (steps : ∀ f ∈ fs, ∀ s, Replaces [] s (f s).1) (s : CodeMods) :
      Replaces [] s (untilError fs s).1 := untilError_related .refl .append steps s
  refine links (fun f mem s => ?_) s
  simp only [List.mem_cons, List.not_mem_nil, or_false] at mem
  rcases mem with rfl | rfl | rfl | rfl | rfl
  · unfold populateReferenceSymbols
    dsimp only
    split
    · exact .refl s
    · exact updateHandle_replaces fun _ => rfl
  · refine links (fun f mem t => ?_) s
    obtain ⟨symbol, -, rfl⟩ := List.mem_map.mp mem
    exact bindImport_replaces symbol
  · refine links (fun f mem t => ?_) s
    obtain ⟨callback, -, rfl⟩ := List.mem_map.mp mem
    exact registerCallback_replaces callback
  · refine links (fun f mem t => ?_) s
    obtain ⟨hook, -, rfl⟩ := List.mem_map.mp mem
    exact registerHook_replaces hook
  · exact updateHandle_replaces fun _ => rfl

theorem installReplacement_ok {replacement : FunctionReplacement}
    (ok : (installReplacement env index replacement s).2 = []) :
    ∃ native, env.nativeOf (replacement.definition false) = some native ∧
      Replaces [(native, some ((s.mods index).functionHandle replacement.funcIndex))] s
        (installReplacement env index replacement s).1 := by
  unfold installReplacement at ok ⊢
  split at ok
  · cases ok
  · rename_i native found
    split at ok
    · cases ok
    · rename_i allowed
      rw [if_neg allowed]
      split at ok
      · cases ok
      · rename_i free
        refine ⟨native, found, ?_⟩
        have unpatched : native ∉ s.patchedFuncs.map Prod.fst := by
          intro mem
          obtain ⟨patch, there, same⟩ := List.mem_map.mp mem
          have none := List.lookup_eq_none_iff.mp free patch there
          rw [same] at none
          simp at none
        refine { Replaces.refl s with bytes := rfl, patchedFuncs := ?_, nodup := fun distinct => ?_ }
        · exact List.map_append
        · change List.Nodup (List.map Prod.fst (s.patchedFuncs ++ [_]))
          rw [List.map_append]
          refine distinct.append (List.nodup_singleton _) fun func mem same => ?_
          rw [List.mem_singleton.mp same] at mem
          exact unpatched mem

def replacementWrites (env : LoadEnv) (mod : ModCode) (replacements : List FunctionReplacement) :
    List (RecompFunc × Prologue) :=
  replacements.filterMap fun replacement =>
    (env.nativeOf (replacement.definition false)).map fun native =>
      (native, some (mod.functionHandle replacement.funcIndex))

theorem installAll_ok (replacements : List FunctionReplacement)
    (ok : (untilError (replacements.map (installReplacement env index)) s).2 = []) :
    (∀ replacement ∈ replacements, (env.nativeOf (replacement.definition false)).isSome) ∧
      Replaces (replacementWrites env (s.mods index) replacements) s
        (untilError (replacements.map (installReplacement env index)) s).1 := by
  induction replacements generalizing s with
  | nil => exact ⟨fun _ mem => absurd mem List.not_mem_nil, .refl s⟩
  | cons replacement rest ih =>
      rw [List.map_cons] at ok ⊢
      obtain ⟨first, ok⟩ := (untilError_cons_errors _).mp ok
      rw [untilError_cons_ok _ first]
      obtain ⟨native, named, replaces⟩ := installReplacement_ok first
      obtain ⟨names, later⟩ := ih ok
      refine ⟨List.forall_mem_cons.mpr ⟨Option.isSome_of_eq_some named, names⟩, ?_⟩
      have both := replaces.append later
      rw [replaces.mods] at both
      unfold replacementWrites at both ⊢
      rw [List.filterMap_cons, named]
      exact both

theorem resolveCodeDependencies_replaces (ok : (resolveCodeDependencies env index s).2 = []) :
    (∀ replacement ∈ (s.mods index).recompilerContext.replacements,
        (env.nativeOf (replacement.definition false)).isSome) ∧
      Replaces (replacementWrites env (s.mods index)
          (s.mods index).recompilerContext.replacements) s
        (resolveCodeDependencies env index s).1 := by
  have links := linkCode_replaces env index s
  have parts : resolveCodeDependencies env index = untilError ([populateReferenceSymbols env index,
      bindImports env index, registerCallbacks env index, registerHooks index,
      setLocalSectionAddresses index] ++ [installReplacements env index]) := rfl
  rw [parts] at ok ⊢
  have linked : (untilError [populateReferenceSymbols env index, bindImports env index,
      registerCallbacks env index, registerHooks index, setLocalSectionAddresses index] s).2 =
      [] := by
    by_contra failed
    rw [untilError_append_failed _ failed] at ok
    exact failed ok
  rw [untilError_append_ok _ linked, untilError_singleton] at ok ⊢
  obtain ⟨named, replaces⟩ := installAll_ok _ ok
  change Replaces _ _ (installReplacements env index _).1 at replaces
  rw [links.mods] at named replaces
  exact ⟨named, links.append replaces⟩

theorem resolvePass_errors (env : LoadEnv) (index : Nat) (rest : List Nat) (s : CodeMods) :
    (resolvePass env (index :: rest) s).2 = [] ↔ (resolveCodeDependencies env index s).2 = [] ∧
      (resolvePass env rest (resolveCodeDependencies env index s).1).2 = [] := by
  change (_ ++ (resolvePass env rest (resolveCodeDependencies env index s).1).2) = [] ↔ _
  rw [List.append_eq_nil_iff]
  exact and_congr_left' List.map_eq_nil_iff

def modWrites (s : CodeMods) (env : LoadEnv) (indices : List Nat) :
    List (RecompFunc × Prologue) :=
  indices.flatMap fun index =>
    replacementWrites env (s.mods index) (s.mods index).recompilerContext.replacements

theorem resolvePass_replaces (indices : List Nat) (ok : (resolvePass env indices s).2 = []) :
    (∀ index ∈ indices, ∀ replacement ∈ (s.mods index).recompilerContext.replacements,
        (env.nativeOf (replacement.definition false)).isSome) ∧
      Replaces (s.modWrites env indices) s (resolvePass env indices s).1 := by
  induction indices generalizing s with
  | nil => exact ⟨fun _ mem => absurd mem List.not_mem_nil, .refl s⟩
  | cons index rest ih =>
      obtain ⟨first, later⟩ := (resolvePass_errors env index rest s).mp ok
      obtain ⟨named, replaces⟩ := resolveCodeDependencies_replaces first
      obtain ⟨names, others⟩ := ih later
      unfold modWrites at others
      rw [replaces.mods] at names others
      exact ⟨List.forall_mem_cons.mpr ⟨named, names⟩, replaces.append others⟩

end Resolve

/-! ## A load up to the leftover hooks -/

structure SameJumps (s t : CodeMods) : Prop where
  handles : t.handles = s.handles
  bytes : t.bytes = s.bytes
  patchedFuncs : t.patchedFuncs = s.patchedFuncs
  regenerated : t.regeneratedCodeHandle = s.regeneratedCodeHandle
  basePatched : t.basePatchedCodeHandle = s.basePatchedCodeHandle

theorem SameJumps.refl (s : CodeMods) : SameJumps s s := ⟨rfl, rfl, rfl, rfl, rfl⟩

theorem SameJumps.trans {s t u : CodeMods} (first : SameJumps s t) (second : SameJumps t u) :
    SameJumps s u where
  handles := second.handles.trans first.handles
  bytes := second.bytes.trans first.bytes
  patchedFuncs := second.patchedFuncs.trans first.patchedFuncs
  regenerated := second.regenerated.trans first.regenerated
  basePatched := second.basePatched.trans first.basePatched

theorem Keeps.sameJumps {s t : CodeMods}
    (keeps : ∀ base renewed, Keeps base renewed s t) : SameJumps s t where
  handles := List.ext_getElem? fun handle =>
    (keeps (handle + 1) ∅).handles handle (Nat.lt_succ_self handle)
  bytes := (keeps 0 ∅).bytes
  patchedFuncs := (keeps 0 ∅).patchedFuncs
  regenerated := (keeps 0 ∅).regenerated
  basePatched := (keeps 0 ∅).basePatched

theorem initPass_sameJumps (env : LoadEnv) (indices : List Nat) (s : CodeMods) :
    SameJumps s (initPass env indices s).1 := by
  refine collect_related SameJumps.refl SameJumps.trans (fun f mem t => ?_) s
  obtain ⟨index, -, rfl⟩ := List.mem_map.mp mem
  change SameJumps t (initModCode env index t).1
  cases taken : env.symbolsTaken index with
  | none =>
      rw [(initModCode_untaken taken).2]
      exact ⟨rfl, rfl, rfl, rfl, rfl⟩
  | some context =>
      rw [initModCode_taken taken]
      rcases checkLayOut env context index (t.takeSymbols env index) with same | laid
      · rw [same]
        exact ⟨rfl, rfl, rfl, rfl, rfl⟩
      · rw [laid]
        unfold layOut
        dsimp only
        split
        · exact ⟨rfl, rfl, rfl, rfl, rfl⟩
        · exact ⟨rfl, rfl, rfl, rfl, rfl⟩

/-- A load of `indices` has come to the leftover hooks. -/
structure Replaced (env : LoadEnv) (indices : List Nat) (s t : CodeMods) : Prop where
  hookSlots : t.hookSlots = addHookSlots env indices s.hookSlots
  symbols : ∀ index ∈ indices, env.symbolsTaken index = some (t.mods index).recompilerContext
  handles : t.handles.map CodeHandle.hookedCode =
    s.handles.map CodeHandle.hookedCode ++ indices.map t.hookedCode
  owner : ∀ index ∈ indices, ∃ j, indices[j]? = some index ∧
    (t.mods index).codeHandle = some (s.handles.length + j)
  bytes : t.bytes = writeAll s.bytes (t.modWrites env indices)
  once : ((t.modWrites env indices).map Prod.fst).Nodup
  named : ∀ index ∈ indices, ∀ replacement ∈ (t.mods index).recompilerContext.replacements,
    (env.nativeOf (replacement.definition false)).isSome
  processed : ∀ slot < t.hookSlots.definitions.length,
    t.processedHookSlots[slot]? = some true ↔ ∃ index ∈ indices, t.TakesSlot index slot
  regenerated : t.regeneratedCodeHandle = s.regeneratedCodeHandle
  basePatched : t.basePatchedCodeHandle = s.basePatchedCodeHandle

theorem Placed.replaced {env : LoadEnv} {indices : List Nat} {s t u v : CodeMods}
    (same : SameJumps s u) (slots : t.hookSlots = s.hookSlots) (unpatched : s.patchedFuncs = [])
    (placed : Placed env indices t u)
    (unprocessed : u.processedHookSlots = List.replicate u.hookSlots.definitions.length false)
    (loaded : CodeLoaded indices u v) (ok : (resolvePass env indices v).2 = []) :
    Replaced env indices s (resolvePass env indices v).1 := by
  obtain ⟨named, replaces⟩ := resolvePass_replaces indices ok
  generalize (resolvePass env indices v).1 = w at named replaces ⊢
  have code : w.hookedCode = u.hookedCode := by
    unfold hookedCode
    simp only [replaces.mods, replaces.hookSlots, loaded.symbols.symbols, loaded.symbols.hookSlots]
  have takes : w.TakesSlot = u.TakesSlot := by
    unfold TakesSlot
    simp only [replaces.mods, replaces.hookSlots, loaded.symbols.symbols, loaded.symbols.hookSlots]
  have writes : w.modWrites env indices = v.modWrites env indices := by
    unfold modWrites
    rw [replaces.mods]
  have slots_eq : w.hookSlots = u.hookSlots := replaces.hookSlots.trans loaded.symbols.hookSlots
  have patched : v.patchedFuncs = [] :=
    loaded.patchedFuncs.trans (same.patchedFuncs.trans unpatched)
  constructor
  · rw [slots_eq, placed.hookSlots, slots]
  · intro index mem
    obtain ⟨context, taken, symbols⟩ := placed.symbols index mem
    rw [taken, replaces.mods, loaded.symbols.symbols, symbols]
  · rw [replaces.handles, loaded.handles, same.handles, code]
  · rw [replaces.mods, ← same.handles]
    exact loaded.owner
  · rw [replaces.bytes, loaded.bytes, same.bytes, writes]
  · have distinct := replaces.nodup (by rw [patched]; exact List.nodup_nil)
    rw [replaces.patchedFuncs, patched] at distinct
    rw [writes]
    exact distinct
  · rw [replaces.mods]
    exact named
  · intro slot below
    rw [slots_eq] at below
    have unmarked : ¬ u.processedHookSlots[slot]? = some true := by
      rw [unprocessed, List.getElem?_replicate]
      split <;> simp
    rw [replaces.processed, loaded.processed, takes, unprocessed, List.length_replicate,
      ← unprocessed, or_iff_right unmarked]
    exact and_iff_right below
  · exact replaces.regenerated.trans (loaded.regenerated.trans same.regenerated)
  · exact replaces.basePatched.trans (loaded.basePatched.trans same.basePatched)

theorem codePhases_ok {env : LoadEnv} {t : CodeMods}
    (ok : (untilError (codePhases env) t).2 = []) :
    ∃ u v, Placed env t.loadedCodeMods t u ∧ SameJumps t u ∧
      u.processedHookSlots = List.replicate u.hookSlots.definitions.length false ∧
      CodeLoaded t.loadedCodeMods u v ∧ (resolvePass env t.loadedCodeMods v).2 = [] ∧
      (regenerateLeftovers env (resolvePass env t.loadedCodeMods v).1).2 = [] ∧
      untilError (codePhases env) t =
        finishSetup env (regenerateLeftovers env (resolvePass env t.loadedCodeMods v).1).1 := by
  have laid : (initPass env t.loadedCodeMods t).2 = [] := by
    by_contra failed
    rw [codePhases_failed failed] at ok
    exact failed ok
  rw [codePhases_placed laid] at ok ⊢
  have placed := initPass_placed laid
  have same : SameJumps t (setUp (initPass env t.loadedCodeMods t).1).1 :=
    (initPass_sameJumps env t.loadedCodeMods t).trans ⟨rfl, rfl, rfl, rfl, rfl⟩
  have unprocessed : (setUp (initPass env t.loadedCodeMods t).1).1.processedHookSlots =
      List.replicate (setUp (initPass env t.loadedCodeMods t).1).1.hookSlots.definitions.length
        false := rfl
  generalize (setUp (initPass env t.loadedCodeMods t).1).1 = u at ok placed same unprocessed ⊢
  unfold placedPhases at ok ⊢
  obtain ⟨second, ok⟩ := (untilError_cons_errors _).mp ok
  rw [untilError_cons_ok _ second]
  obtain ⟨third, ok⟩ := (untilError_cons_errors _).mp ok
  rw [untilError_cons_ok _ third]
  obtain ⟨fourth, ok⟩ := (untilError_cons_errors _).mp ok
  rw [untilError_cons_ok _ fourth, untilError_singleton]
  have code : forCodeMods (loadModCode env) u = codePass env t.loadedCodeMods u := by
    unfold forCodeMods codePass
    rw [placed.loadedCodeMods]
  rw [code] at second third fourth ⊢
  have loaded := codePass_loaded t.loadedCodeMods second
  have resolve : forCodeMods (resolveCodeDependencies env)
      (codePass env t.loadedCodeMods u).1 =
        resolvePass env t.loadedCodeMods (codePass env t.loadedCodeMods u).1 := by
    unfold forCodeMods resolvePass
    rw [loaded.symbols.loadedCodeMods, placed.loadedCodeMods]
  rw [resolve] at third fourth ⊢
  exact ⟨u, _, placed, same, unprocessed, loaded, third, fourth, rfl⟩

/-- An accepted load: the mods, then the leftover hooks. -/
theorem loadMods_accepted {env : LoadEnv} {modGameId : String} {loadAddress : UInt32}
    {s : CodeMods} (unpatched : s.patchedFuncs = [])
    (accepted : (loadMods env modGameId loadAddress s).2 = []) :
    ∃ game, s.context.modGameIds modGameId = some game ∧
      ∃ v, Replaced env (s.codeModIndices env game) s v ∧ (regenerateLeftovers env v).2 = [] ∧
        SameJumps (regenerateLeftovers env v).1 (loadMods env modGameId loadAddress s).1 ∧
        (loadMods env modGameId loadAddress s).1.hookSlots =
          (regenerateLeftovers env v).1.hookSlots := by
  unfold loadMods at accepted ⊢
  dsimp only at accepted ⊢
  split at accepted
  · cases accepted
  · rename_i game known
    refine ⟨game, known, ?_⟩
    rw [if_neg (not_not.mpr (show (s.startLoad env loadAddress).patchedFuncs = [] from unpatched))]
      at accepted ⊢
    split at accepted
    · rename_i ok
      rw [if_pos ok]
      dsimp only
      rcases manifestPhases env game loadAddress s with ⟨-, failed, -⟩ | ⟨going, t, checked, same⟩
      · exact absurd ok failed
      · rw [same] at ok ⊢
        obtain ⟨u, v, placed, kept, unprocessed, loaded, resolved, regenerated, run⟩ :=
          codePhases_ok ok
        rw [run]
        have replaced := placed.replaced ((Keeps.sameJumps checked.keeps).trans kept)
          checked.hookSlots unpatched unprocessed loaded resolved
        rw [checked.loadedCodeMods] at replaced regenerated ⊢
        refine ⟨_, replaced, regenerated, ?_⟩
        generalize (regenerateLeftovers env (resolvePass env _ v).1).1 = w
        exact ⟨⟨rfl, rfl, rfl, rfl, rfl⟩, rfl⟩
    · rename_i failed
      exact absurd accepted failed

end CodeMods

end N64ModernRuntime.Librecomp
