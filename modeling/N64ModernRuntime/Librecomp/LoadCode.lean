import N64ModernRuntime.Librecomp.LoadSymbols

/-!
# mods.cpp: code handles, libraries and functions of a load

`load_mod_code` makes a code handle, loads the native libraries and publishes
the functions.  A mod is quiet where none of it shows in the tables; after a
second pass over quiet mods only, there is nothing that the third one could
change but the new handles themselves.
-/

set_option autoImplicit false

namespace N64ModernRuntime.Librecomp

open FailingSteps

theorem HookMaps.ofReplacements_maps (slots : HookSlots) (processed processed' : List Bool)
    (replacements : List FunctionReplacement) :
    (HookMaps.ofReplacements slots processed replacements).entryFuncHooks =
        (HookMaps.ofReplacements slots processed' replacements).entryFuncHooks ∧
      (HookMaps.ofReplacements slots processed replacements).returnFuncHooks =
        (HookMaps.ofReplacements slots processed' replacements).returnFuncHooks := by
  have every : ∀ maps maps' : HookMaps, maps.entryFuncHooks = maps'.entryFuncHooks ∧
      maps.returnFuncHooks = maps'.returnFuncHooks →
      (replacements.foldl (HookMaps.addReplacement slots) maps).entryFuncHooks =
          (replacements.foldl (HookMaps.addReplacement slots) maps').entryFuncHooks ∧
        (replacements.foldl (HookMaps.addReplacement slots) maps).returnFuncHooks =
          (replacements.foldl (HookMaps.addReplacement slots) maps').returnFuncHooks := by
    induction replacements with
    | nil => exact fun maps maps' same => same
    | cons replacement rest ih =>
        intro maps maps' same
        rw [List.foldl_cons, List.foldl_cons]
        apply ih
        unfold HookMaps.addReplacement
        cases slots.find (replacement.definition false) with
        | none =>
            cases slots.find (replacement.definition true) with
            | none => exact same
            | some slot => exact ⟨same.1, congrArg (· ++ _) same.2⟩
        | some entry =>
            cases slots.find (replacement.definition true) with
            | none => exact ⟨congrArg (· ++ _) same.1, same.2⟩
            | some slot => exact ⟨congrArg (· ++ _) same.1, congrArg (· ++ _) same.2⟩
  exact every _ _ ⟨rfl, rfl⟩

def RecompilerContext.hookMaps (context : RecompilerContext) (slots : HookSlots) : HookMaps :=
  HookMaps.ofReplacements slots [] context.replacements

/-- An offline mod with a hooked replacement, for which no code handle is tried. -/
def LoadEnv.OfflineHooked (env : LoadEnv) (slots : HookSlots) (index : Nat)
    (context : RecompilerContext) : Prop :=
  (env.files index).offline = true ∧
    ((context.hookMaps slots).entryFuncHooks ≠ [] ∨ (context.hookMaps slots).returnFuncHooks ≠ [])

def LoadEnv.HandleFails (env : LoadEnv) (slots : HookSlots) (index : Nat)
    (context : RecompilerContext) : Prop :=
  if (env.files index).offline then
    env.OfflineHooked slots index context ∨
      ∀ library, env.dynamicLibrary index (env.files index).dllFilename = some library →
        library.good context = false ∨ library.apiVersion ≠ 1
  else
    env.recompiles context (context.hookMaps slots).entryFuncHooks
      (context.hookMaps slots).returnFuncHooks = false

def RecompilerContext.PublishesNothing (context : RecompilerContext) : Prop :=
  ∀ function ∈ context.functions.head?, context.sections.length ≤ function.sectionIndex

theorem validateApiVersion_ok_iff (filename : String) (version : UInt32) :
    validateApiVersion filename version = [] ↔ version = 1 := by
  unfold validateApiVersion
  split
  · rename_i one
    exact iff_of_true rfl one
  · rename_i other
    split
    · exact iff_of_false (List.cons_ne_nil _ _) other
    · exact iff_of_false (List.cons_ne_nil _ _) other

namespace CodeMods

def Renewed (base index : Nat) (t : CodeMods) : Prop :=
  ∀ handle, (t.mods index).codeHandle = some handle → base ≤ handle

/-- What `load_mod_code` leaves alone, whatever it meets. -/
structure SameSymbols (s t : CodeMods) : Prop where
  context : t.context = s.context
  loadedCodeMods : t.loadedCodeMods = s.loadedCodeMods
  hookSlots : t.hookSlots = s.hookSlots
  symbols : ∀ index, (t.mods index).recompilerContext = (s.mods index).recompilerContext

theorem SameSymbols.refl (s : CodeMods) : SameSymbols s s := ⟨rfl, rfl, rfl, fun _ => rfl⟩

theorem SameSymbols.trans {s t u : CodeMods} (first : SameSymbols s t)
    (second : SameSymbols t u) : SameSymbols s u :=
  ⟨second.context.trans first.context, second.loadedCodeMods.trans first.loadedCodeMods,
    second.hookSlots.trans first.hookSlots,
    fun index => (second.symbols index).trans (first.symbols index)⟩

section CodeHandle
variable {base index : Nat} {s : CodeMods}

theorem setMod_symbols {f : ModCode → ModCode}
    (same : ∀ m : ModCode, (f m).recompilerContext = m.recompilerContext) :
    SameSymbols s (s.setMod index f) := by
  refine ⟨rfl, rfl, rfl, fun other => ?_⟩
  by_cases here : other = index
  · rw [here, setMod_self, same]
  · rw [setMod_other index s here]

/-- Another code handle, or none, for the mod. -/
theorem setHandle_keeps (base index : Nat) (s : CodeMods) (handle : Option Nat) :
    Keeps base {index} s (s.setMod index fun m => { m with codeHandle := handle }) := by
  refine ⟨setMod_tables index s fun _ => ⟨rfl, rfl, rfl, rfl⟩, rfl, rfl, rfl, rfl, rfl,
    fun other apart => ?_, fun _ _ => rfl, Nat.le_refl _⟩
  rw [setMod_other index s apart]

theorem newHandle_keeps (enough : base ≤ s.handles.length) (handle : CodeHandle) :
    Keeps base {index} s (s.newHandle index handle) := by
  have set := setHandle_keeps base index s (some s.handles.length)
  refine ⟨set.tables, rfl, rfl, rfl, rfl, rfl, set.codeHandle, fun old below => ?_, ?_⟩
  · exact List.getElem?_append_left (Nat.lt_of_lt_of_le below enough)
  · change _ ≤ (s.handles ++ [handle]).length
    rw [List.length_append]
    exact Nat.le_add_right _ _

/-- What making a code handle comes to: its errors, the mod's handle, and the rest. -/
structure Rehandles (base index : Nat) (s t : CodeMods) : Prop where
  keeps : Keeps base {index} s t
  symbols : SameSymbols s t
  handle : (t.mods index).codeHandle = none ∨ (t.mods index).codeHandle = some s.handles.length

theorem dropHandle_rehandles : Rehandles base index s (s.dropHandle index) where
  keeps := setHandle_keeps base index s none
  symbols := setMod_symbols fun _ => rfl
  handle := Or.inl (by rw [dropHandle, setMod_self])

theorem newHandle_handle (handle : CodeHandle) :
    ((s.newHandle index handle).mods index).codeHandle = some s.handles.length := by
  rw [newHandle]
  dsimp only
  rw [setMod_self]

theorem newHandle_rehandles (enough : base ≤ s.handles.length) (handle : CodeHandle) :
    Rehandles base index s (s.newHandle index handle) where
  keeps := newHandle_keeps enough handle
  symbols :=
    have same : SameSymbols s (s.setMod index fun m =>
        { m with codeHandle := some s.handles.length }) := setMod_symbols fun _ => rfl
    ⟨rfl, rfl, rfl, same.symbols⟩
  handle := Or.inr (newHandle_handle handle)

variable {env : LoadEnv}

theorem makeOffline_rehandles (enough : base ≤ s.handles.length) {maps : HookMaps}
    (unhooked : ¬ (maps.entryFuncHooks ≠ [] ∨ maps.returnFuncHooks ≠ [])) :
    Rehandles base index s (makeOffline env index maps s).1 := by
  unfold makeOffline
  dsimp only
  rw [if_neg unhooked]
  split
  · exact dropHandle_rehandles
  · split
    · exact newHandle_rehandles enough _
    · exact dropHandle_rehandles

theorem makeLive_rehandles (enough : base ≤ s.handles.length) (maps : HookMaps) :
    Rehandles base index s (makeLive env index maps s).1 := by
  unfold makeLive
  dsimp only
  split
  · exact newHandle_rehandles enough _
  · exact dropHandle_rehandles

theorem makeOffline_fails (maps : HookMaps) :
    (makeOffline env index maps s).2 ≠ [] ↔
      (maps.entryFuncHooks ≠ [] ∨ maps.returnFuncHooks ≠ []) ∨
        ∀ library, env.dynamicLibrary index (env.files index).dllFilename = some library →
          library.good (s.mods index).recompilerContext = false ∨ library.apiVersion ≠ 1 := by
  unfold makeOffline
  dsimp only
  by_cases hooked : maps.entryFuncHooks ≠ [] ∨ maps.returnFuncHooks ≠ []
  · rw [if_pos hooked]
    exact iff_of_true (List.cons_ne_nil _ _) (Or.inl hooked)
  · rw [if_neg hooked, or_iff_right hooked]
    cases env.dynamicLibrary index (env.files index).dllFilename with
    | none => exact iff_of_true (List.cons_ne_nil _ _) fun library found => by cases found
    | some library =>
        simp only [Option.some.injEq, forall_eq']
        cases good : library.good (s.mods index).recompilerContext with
        | false => exact iff_of_true (List.cons_ne_nil _ _) (Or.inl rfl)
        | true =>
            rw [if_pos rfl, or_iff_right (by decide)]
            exact not_congr (validateApiVersion_ok_iff _ _)

theorem makeLive_fails (maps : HookMaps) :
    (makeLive env index maps s).2 ≠ [] ↔ env.recompiles (s.mods index).recompilerContext
      maps.entryFuncHooks maps.returnFuncHooks = false := by
  unfold makeLive
  dsimp only
  cases env.recompiles (s.mods index).recompilerContext maps.entryFuncHooks
      maps.returnFuncHooks with
  | false => exact iff_of_true (List.cons_ne_nil _ _) rfl
  | true => exact iff_of_false (fun error => error rfl) (by decide)

theorem makeCodeHandle_hooked (renewed : Set Nat)
    (hooked : env.OfflineHooked s.hookSlots index (s.mods index).recompilerContext) :
    Keeps base renewed s (makeCodeHandle env index s).1 ∧
      SameSymbols s (makeCodeHandle env index s).1 := by
  obtain ⟨entry, return_⟩ := HookMaps.ofReplacements_maps s.hookSlots [] s.processedHookSlots
    (s.mods index).recompilerContext.replacements
  obtain ⟨offline, hooks⟩ := hooked
  rw [RecompilerContext.hookMaps, entry, return_] at hooks
  rw [makeCodeHandle]
  rw [if_pos offline, makeOffline]
  dsimp only
  rw [if_pos hooks]
  exact ⟨⟨rfl, rfl, rfl, rfl, rfl, rfl, fun _ _ => rfl, fun _ _ => rfl, Nat.le_refl _⟩,
    ⟨rfl, rfl, rfl, fun _ => rfl⟩⟩

theorem makeCodeHandle_rehandles (env : LoadEnv) (enough : base ≤ s.handles.length)
    (tried : ¬ env.OfflineHooked s.hookSlots index (s.mods index).recompilerContext) :
    Rehandles base index s (makeCodeHandle env index s).1 := by
  obtain ⟨entry, return_⟩ := HookMaps.ofReplacements_maps s.hookSlots [] s.processedHookSlots
    (s.mods index).recompilerContext.replacements
  have made (processed : List Bool) {t : CodeMods}
      (here : Rehandles base index { s with processedHookSlots := processed } t) :
      Rehandles base index s t :=
    ⟨⟨here.keeps.tables, here.keeps.bytes, here.keeps.funcMap, here.keeps.patchedFuncs,
        here.keeps.regenerated, here.keeps.basePatched, here.keeps.codeHandle, here.keeps.handles,
        here.keeps.grown⟩,
      ⟨here.symbols.context, here.symbols.loadedCodeMods, here.symbols.hookSlots,
        here.symbols.symbols⟩, here.handle⟩
  rw [makeCodeHandle]
  split
  · rename_i offline
    refine made _ (makeOffline_rehandles (by exact enough) fun hooks => tried ⟨offline, ?_⟩)
    rw [RecompilerContext.hookMaps, entry, return_]
    exact hooks
  · exact made _ (makeLive_rehandles (by exact enough) _)

theorem makeCodeHandle_fails : (makeCodeHandle env index s).2 ≠ [] ↔
    env.HandleFails s.hookSlots index (s.mods index).recompilerContext := by
  obtain ⟨entry, return_⟩ := HookMaps.ofReplacements_maps s.hookSlots [] s.processedHookSlots
    (s.mods index).recompilerContext.replacements
  unfold LoadEnv.HandleFails LoadEnv.OfflineHooked RecompilerContext.hookMaps
  rw [entry, return_, makeCodeHandle]
  by_cases offline : (env.files index).offline = true
  · rw [if_pos offline, if_pos offline, makeOffline_fails, and_iff_right offline]
  · rw [if_neg offline, if_neg offline, makeLive_fails]

theorem makeCodeHandle_ok (ok : (makeCodeHandle env index s).2 = []) :
    ((makeCodeHandle env index s).1.mods index).codeHandle = some s.handles.length := by
  rw [makeCodeHandle] at ok ⊢
  split at ok
  · rename_i offline
    rw [if_pos offline]
    unfold makeOffline at ok ⊢
    dsimp only at ok ⊢
    split at ok
    · cases ok
    · rename_i unhooked
      rw [if_neg unhooked]
      split at ok
      · cases ok
      · split at ok
        · rename_i good
          rw [if_pos good]
          exact newHandle_handle _
        · cases ok
  · rename_i live
    rw [if_neg live]
    unfold makeLive at ok ⊢
    dsimp only at ok ⊢
    split at ok
    · rename_i recompiles
      rw [if_pos recompiles]
      exact newHandle_handle _
    · cases ok

end CodeHandle

structure AddsLibraries (s t : CodeMods) : Prop where
  handles : t.handles = s.handles
  funcMap : t.funcMap = s.funcMap
  symbols : SameSymbols s t
  codeHandle : ∀ index, (t.mods index).codeHandle = (s.mods index).codeHandle
  exportsByName : ∀ index, (t.mods index).exportsByName = (s.mods index).exportsByName
  eventsByName : ∀ index, (t.mods index).eventsByName = (s.mods index).eventsByName
  nativeLibraries : ∀ index,
    (s.mods index).nativeLibraries.length ≤ (t.mods index).nativeLibraries.length

namespace AddsLibraries

variable {s t u : CodeMods}

theorem refl (s : CodeMods) : AddsLibraries s s :=
  ⟨rfl, rfl, .refl s, fun _ => rfl, fun _ => rfl, fun _ => rfl, fun _ => Nat.le_refl _⟩

theorem trans (first : AddsLibraries s t) (second : AddsLibraries t u) : AddsLibraries s u where
  handles := second.handles.trans first.handles
  funcMap := second.funcMap.trans first.funcMap
  symbols := first.symbols.trans second.symbols
  codeHandle index := (second.codeHandle index).trans (first.codeHandle index)
  exportsByName index := (second.exportsByName index).trans (first.exportsByName index)
  eventsByName index := (second.eventsByName index).trans (first.eventsByName index)
  nativeLibraries index :=
    Nat.le_trans (first.nativeLibraries index) (second.nativeLibraries index)

theorem adds (libraries : AddsLibraries s t) (base : Nat) : AddsMarks base s t := by
  intro enough
  refine ⟨by rw [libraries.handles]; exact enough, fun mark mem => ?_⟩
  cases mark with
  | exported index name =>
      change ((t.mods index).exportsByName name).isSome = true
      rw [libraries.exportsByName]
      exact mem
  | event index name =>
      change ((t.mods index).eventsByName name).isSome = true
      rw [libraries.eventsByName]
      exact mem
  | library index count => exact Nat.lt_of_lt_of_le mem (libraries.nativeLibraries index)
  | published address =>
      change ∃ handle i, base ≤ handle ∧ t.funcMap address = some (.code handle i)
      rw [libraries.funcMap]
      exact mem

end AddsLibraries

section Libraries
variable {env : LoadEnv} {index : Nat} {s : CodeMods}

theorem setMod_libraries (f : ModCode → ModCode)
    (same : ∀ m : ModCode, (f m).codeHandle = m.codeHandle ∧
      (f m).recompilerContext = m.recompilerContext ∧ (f m).exportsByName = m.exportsByName ∧
      (f m).eventsByName = m.eventsByName ∧
      m.nativeLibraries.length ≤ (f m).nativeLibraries.length) :
    AddsLibraries s (s.setMod index f) := by
  have each (other : Nat) : (s.setMod index f).mods other = s.mods other ∨
      (s.setMod index f).mods other = f (s.mods other) := by
    by_cases here : other = index
    · rw [here, setMod_self]
      exact Or.inr rfl
    · exact Or.inl (setMod_other index s here)
  refine ⟨rfl, rfl, setMod_symbols fun m => (same m).2.1, fun other => ?_, fun other => ?_,
    fun other => ?_, fun other => ?_⟩
  all_goals rcases each other with here | here
  all_goals rw [here]
  · exact (same _).1
  · exact (same _).2.2.1
  · exact (same _).2.2.2.1
  · exact (same _).2.2.2.2

theorem addNativeExport_adds (library : DynamicLibrary) (manifest : NativeLibraryManifest)
    (filename name : String) :
    AddsLibraries s (addNativeExport library manifest filename index name s).1 := by
  unfold addNativeExport
  split
  · exact .refl s
  · split
    · exact setMod_libraries (fun m => { m with
        nativeLibraryExports := emplace m.nativeLibraryExports name (.symbol filename name) })
        fun _ => ⟨rfl, rfl, rfl, rfl, Nat.le_refl _⟩
    · exact .refl s

theorem loadNativeLibrary_adds (env : LoadEnv) (index : Nat) (s : CodeMods)
    (manifest : NativeLibraryManifest) :
    AddsLibraries s (loadNativeLibrary env index manifest s).1 ∧
      (s.mods index).nativeLibraries.length <
        ((loadNativeLibrary env index manifest s).1.mods index).nativeLibraries.length := by
  have added : AddsLibraries s (s.setMod index fun m =>
      { m with nativeLibraries := m.nativeLibraries ++ [env.libraryFilename manifest] }) :=
    setMod_libraries _ fun m => ⟨rfl, rfl, rfl, rfl, by simp⟩
  have longer : (s.mods index).nativeLibraries.length < ((s.setMod index fun m =>
      { m with nativeLibraries := m.nativeLibraries ++ [env.libraryFilename manifest] }).mods
        index).nativeLibraries.length := by
    rw [setMod_self]
    simp
  rw [loadNativeLibrary]
  split
  · exact ⟨added, longer⟩
  · rename_i library found
    split
    · exact ⟨added, longer⟩
    · have cleared : AddsLibraries (s.setMod index fun m =>
          { m with nativeLibraries := m.nativeLibraries ++ [env.libraryFilename manifest] })
          (CodeMods.clearNativeExports (s.setMod index fun m =>
            { m with nativeLibraries := m.nativeLibraries ++ [env.libraryFilename manifest] })
              index) :=
        setMod_libraries _ fun _ => ⟨rfl, rfl, rfl, rfl, Nat.le_refl _⟩
      have each : ∀ f ∈ manifest.exports.map
          (addNativeExport library manifest (env.libraryFilename manifest) index),
          ∀ t, AddsLibraries t (f t).1 := by
        intro f mem t
        obtain ⟨name, -, rfl⟩ := List.mem_map.mp mem
        exact addNativeExport_adds library manifest _ name
      have exported := cleared.trans
        (untilError_related AddsLibraries.refl AddsLibraries.trans each _)
      exact ⟨added.trans exported, Nat.lt_of_lt_of_le longer (exported.nativeLibraries index)⟩

theorem loadNativeLibraries_adds (env : LoadEnv) (index : Nat) (s : CodeMods)
    (manifests : List NativeLibraryManifest) :
    AddsLibraries s (untilError (manifests.map (loadNativeLibrary env index)) s).1 := by
  refine untilError_related AddsLibraries.refl AddsLibraries.trans (fun f mem t => ?_) s
  obtain ⟨manifest, -, rfl⟩ := List.mem_map.mp mem
  exact (loadNativeLibrary_adds env index t manifest).1

theorem loadNativeLibraries_longer (env : LoadEnv) (index : Nat) (s : CodeMods)
    {manifests : List NativeLibraryManifest} (some : manifests ≠ []) :
    (s.mods index).nativeLibraries.length <
      ((untilError (manifests.map (loadNativeLibrary env index)) s).1.mods
        index).nativeLibraries.length := by
  cases manifests with
  | nil => exact absurd rfl some
  | cons manifest rest =>
      have first := (loadNativeLibrary_adds env index s manifest).2
      rw [List.map_cons]
      by_cases ok : (loadNativeLibrary env index manifest s).2 = []
      · rw [untilError_cons_ok _ ok]
        have later := loadNativeLibraries_adds env index (loadNativeLibrary env index manifest s).1
          rest
        exact Nat.lt_of_lt_of_le first (later.nativeLibraries index)
      · rw [untilError_cons_failed _ ok]
        exact first

end Libraries

/-! ## Publishing -/

section Publishing
variable {index handle : Nat} {s : CodeMods}

def PublishesFor (handle : Nat) (before after : UInt32 → Option GenericFunction) : Prop :=
  ∀ address, after address = before address ∨ ∃ i, after address = some (.code handle i)

theorem publishFunction_publishes (owned : (s.mods index).codeHandle = some handle)
    (function : ModFunction × Nat) :
    ∃ after, (publishFunction index function s).1 = { s with funcMap := after } ∧
      PublishesFor handle s.funcMap after := by
  unfold publishFunction
  dsimp only
  split
  · exact ⟨s.funcMap, rfl, fun _ => Or.inl rfl⟩
  · refine ⟨_, rfl, fun address => ?_⟩
    rw [Function.update_apply]
    split
    · rw [ModCode.functionHandle, owned]
      exact Or.inr ⟨function.2, rfl⟩
    · exact Or.inl rfl

theorem PublishesFor.trans {before between after : UInt32 → Option GenericFunction}
    (first : PublishesFor handle before between) (second : PublishesFor handle between after) :
    PublishesFor handle before after := by
  intro address
  rcases second address with same | new
  · rw [same]
    exact first address
  · exact Or.inr new

theorem publishAll_publishes (functions : List (ModFunction × Nat)) {s : CodeMods}
    (owned : (s.mods index).codeHandle = some handle) :
    ∃ after, (untilError (functions.map (publishFunction index)) s).1 =
        { s with funcMap := after } ∧ PublishesFor handle s.funcMap after := by
  induction functions generalizing s with
  | nil => exact ⟨s.funcMap, rfl, fun _ => Or.inl rfl⟩
  | cons function rest ih =>
      obtain ⟨between, first, publishes⟩ := publishFunction_publishes owned function
      rw [List.map_cons]
      by_cases ok : (publishFunction index function s).2 = []
      · rw [untilError_cons_ok _ ok, first]
        obtain ⟨after, later, publishes'⟩ := ih (s := { s with funcMap := between }) owned
        exact ⟨after, later, publishes.trans publishes'⟩
      · rw [untilError_cons_failed _ ok]
        exact ⟨between, first, publishes⟩

theorem publishFunctions_some (owned : (s.mods index).codeHandle = some handle)
    (publishes : ¬ (s.mods index).recompilerContext.PublishesNothing) :
    ∃ address i, (publishFunctions index s).1.funcMap address = some (.code handle i) := by
  obtain ⟨function, first, inside⟩ : ∃ function,
      function ∈ (s.mods index).recompilerContext.functions.head? ∧
        function.sectionIndex < (s.mods index).recompilerContext.sections.length := by
    by_contra none
    refine publishes fun function mem => Nat.not_lt.mp fun below => ?_
    exact none ⟨function, mem, below⟩
  unfold publishFunctions
  cases functions : (s.mods index).recompilerContext.functions with
  | nil =>
      rw [functions] at first
      cases first
  | cons head rest =>
      rw [functions] at first
      cases first
      have published : ∃ address, publishFunction index (function, 0) s =
          ({ s with
            funcMap := Function.update s.funcMap address (some (.code handle 0)) }, []) := by
        unfold publishFunction
        dsimp only
        rw [List.getElem?_eq_getElem inside, ModCode.functionHandle, owned]
        exact ⟨_, rfl⟩
      obtain ⟨address, run⟩ := published
      obtain ⟨after, later, others⟩ := publishAll_publishes (rest.zipIdx 1)
        (s := { s with funcMap := Function.update s.funcMap address (some (.code handle 0)) }) owned
      rw [List.zipIdx_cons, List.map_cons, untilError_cons_ok _ (by rw [run]), run, later]
      refine ⟨address, ?_⟩
      rcases others address with same | new
      · refine ⟨0, same.trans ?_⟩
        exact Function.update_self ..
      · exact new

theorem publishFunctions_none (nothing : (s.mods index).recompilerContext.PublishesNothing) :
    (publishFunctions index s).1 = s ∧
      ((publishFunctions index s).2 = [] → (s.mods index).recompilerContext.functions = []) := by
  unfold publishFunctions
  cases functions : (s.mods index).recompilerContext.functions with
  | nil => exact ⟨rfl, fun _ => rfl⟩
  | cons head rest =>
      have outside := nothing head (by rw [functions]; rfl)
      have failed : publishFunction index (head, 0) s = (s, [⟨.failedToParseSyms, ""⟩]) := by
        unfold publishFunction
        dsimp only
        rw [List.getElem?_eq_none outside]
      rw [List.zipIdx_cons, List.map_cons, untilError_cons_failed _ (by rw [failed]; simp), failed]
      exact ⟨rfl, fun ok => absurd ok (List.cons_ne_nil _ _)⟩

end Publishing

/-! ## The second pass -/

end CodeMods

/-- Nothing of the mod's code gets into the tables: no code handle is made, or there is no
native library and no function to publish. -/
def LoadEnv.CodeQuiet (env : LoadEnv) (slots : HookSlots) (index : Nat)
    (context : RecompilerContext) : Prop :=
  env.HandleFails slots index context ∨
    ((env.files index).nativeLibraries = [] ∧ context.PublishesNothing)

namespace CodeMods

section LoadModCode
variable {env : LoadEnv} {base index : Nat} {s : CodeMods}

theorem makeCodeHandle_keeps (env : LoadEnv) (index : Nat) (enough : base ≤ s.handles.length) :
    Keeps base {index} s (makeCodeHandle env index s).1 ∧
      SameSymbols s (makeCodeHandle env index s).1 := by
  by_cases hooked : env.OfflineHooked s.hookSlots index (s.mods index).recompilerContext
  · exact makeCodeHandle_hooked {index} hooked
  · have made := makeCodeHandle_rehandles env enough hooked
    exact ⟨made.keeps, made.symbols⟩

theorem loadModCode_ok (ok : (makeCodeHandle env index s).2 = []) :
    loadModCode env index s =
      untilError ((env.files index).nativeLibraries.map (loadNativeLibrary env index) ++
        [publishFunctions index]) (makeCodeHandle env index s).1 := by
  rw [loadModCode, List.cons_append, untilError_cons_ok _ ok]

theorem loadModCode_failed (failed : (makeCodeHandle env index s).2 ≠ []) :
    loadModCode env index s = makeCodeHandle env index s := by
  rw [loadModCode, List.cons_append, untilError_cons_failed _ failed]

theorem loadModCode_quiet
    (quiet : env.CodeQuiet s.hookSlots index (s.mods index).recompilerContext) :
    (loadModCode env index s).1 = (makeCodeHandle env index s).1 ∧
      ((loadModCode env index s).2 = [] → (makeCodeHandle env index s).2 = [] ∧
        (s.mods index).recompilerContext.functions = []) := by
  by_cases ok : (makeCodeHandle env index s).2 = []
  · obtain ⟨libraries, nothing⟩ := quiet.resolve_left fun fails =>
      makeCodeHandle_fails.mpr fails ok
    have symbols := (makeCodeHandle_keeps env index (Nat.zero_le s.handles.length)).2.symbols
    rw [← symbols index] at nothing ⊢
    obtain ⟨same, none⟩ := publishFunctions_none nothing
    rw [loadModCode_ok ok, libraries, List.map_nil, List.nil_append, untilError_singleton]
    exact ⟨same, fun published => ⟨ok, none published⟩⟩
  · rw [loadModCode_failed ok]
    exact ⟨rfl, fun good => absurd good ok⟩

theorem loadModCode_frame (env : LoadEnv) (index : Nat) (enough : base ≤ s.handles.length) :
    AddsMarks base s (loadModCode env index s).1 ∧ SameSymbols s (loadModCode env index s).1 := by
  obtain ⟨keeps, symbols⟩ := makeCodeHandle_keeps env index enough
  have made := keeps.sameTables.adds base
  by_cases ok : (makeCodeHandle env index s).2 = []
  · have owned := makeCodeHandle_ok ok
    rw [loadModCode_ok ok]
    generalize (makeCodeHandle env index s).1 = t at made symbols owned
    have libraries := loadNativeLibraries_adds env index t (env.files index).nativeLibraries
    have loaded := made.trans (libraries.adds base)
    by_cases good : (untilError
        ((env.files index).nativeLibraries.map (loadNativeLibrary env index)) t).2 = []
    · rw [untilError_append_ok _ good, untilError_singleton]
      rw [← libraries.codeHandle] at owned
      have symbols' := symbols.trans libraries.symbols
      generalize (untilError
        ((env.files index).nativeLibraries.map (loadNativeLibrary env index)) t).1 = u
          at loaded owned symbols'
      obtain ⟨after, run, publishes⟩ := publishAll_publishes
        ((u.mods index).recompilerContext.functions.zipIdx) owned
      have run : (publishFunctions index u).1 = { u with funcMap := after } := run
      rw [run]
      refine ⟨loaded.trans fun enough' => ⟨enough', fun mark mem => ?_⟩,
        symbols'.context, symbols'.loadedCodeMods, symbols'.hookSlots, symbols'.symbols⟩
      cases mark with
      | exported other name => exact mem
      | event other name => exact mem
      | library other count => exact mem
      | published address =>
          obtain ⟨handle, i, new, here⟩ := mem
          rcases publishes address with same | ⟨j, later⟩
          · exact ⟨handle, i, new, same.trans here⟩
          · exact ⟨s.handles.length, j, enough, later⟩
    · rw [untilError_append_failed _ good]
      exact ⟨loaded, symbols.trans libraries.symbols⟩
  · rw [loadModCode_failed ok]
    exact ⟨made, symbols⟩

theorem loadModCode_loud (enough : base ≤ s.handles.length)
    (loud : ¬ env.CodeQuiet s.hookSlots index (s.mods index).recompilerContext) :
    (∃ address, .published address ∈ marks base (loadModCode env index s).1) ∨
      (s.mods index).nativeLibraries.length <
        ((loadModCode env index s).1.mods index).nativeLibraries.length := by
  have ok : (makeCodeHandle env index s).2 = [] := by
    by_contra failed
    exact loud (Or.inl (makeCodeHandle_fails.mp failed))
  obtain ⟨keeps, symbols⟩ := makeCodeHandle_keeps env index enough
  have tables := congrArg ModTables.nativeLibraries (congrFun keeps.tables index)
  change (((makeCodeHandle env index s).1.mods index)).nativeLibraries = _ at tables
  have owned := makeCodeHandle_ok ok
  by_cases libraries : (env.files index).nativeLibraries = []
  · rw [loadModCode_ok ok, libraries, List.map_nil, List.nil_append, untilError_singleton]
    have publishes : ¬ ((makeCodeHandle env index s).1.mods
        index).recompilerContext.PublishesNothing := by
      rw [symbols.symbols]
      exact fun nothing => loud (Or.inr ⟨libraries, nothing⟩)
    obtain ⟨address, i, here⟩ := publishFunctions_some owned publishes
    exact Or.inl ⟨address, s.handles.length, i, enough, here⟩
  · right
    have longer := loadNativeLibraries_longer env index (makeCodeHandle env index s).1
      libraries
    rw [tables] at longer
    refine Nat.lt_of_lt_of_le longer ?_
    rw [loadModCode_ok ok]
    by_cases good : (untilError ((env.files index).nativeLibraries.map
        (loadNativeLibrary env index)) (makeCodeHandle env index s).1).2 = []
    · rw [untilError_append_ok _ good, untilError_singleton]
      have kept := (loadNativeLibraries_adds env index (makeCodeHandle env index s).1
        (env.files index).nativeLibraries).codeHandle index
      obtain ⟨after, run, -⟩ := publishAll_publishes
        (((untilError ((env.files index).nativeLibraries.map (loadNativeLibrary env index))
          (makeCodeHandle env index s).1).1.mods index).recompilerContext.functions.zipIdx)
        (kept.trans owned)
      have run : (publishFunctions index (untilError ((env.files index).nativeLibraries.map
          (loadNativeLibrary env index)) (makeCodeHandle env index s).1).1).1 = _ := run
      rw [run]
    · rw [untilError_append_failed _ good]

end LoadModCode

section CodePass
variable {env : LoadEnv} {base : Nat} {indices : List Nat} {s : CodeMods}

def codePass (env : LoadEnv) (indices : List Nat) : Step CodeMods LoadFailure :=
  collect (indices.map (ofMod (loadModCode env)))

theorem codePass_cons (env : LoadEnv) (index : Nat) (rest : List Nat) (s : CodeMods) :
    (codePass env (index :: rest) s).1 = (codePass env rest (loadModCode env index s).1).1 :=
  rfl

theorem codePass_errors (env : LoadEnv) (index : Nat) (rest : List Nat) (s : CodeMods) :
    (codePass env (index :: rest) s).2 = [] ↔ (loadModCode env index s).2 = [] ∧
      (codePass env rest (loadModCode env index s).1).2 = [] := by
  change (_ ++ (codePass env rest (loadModCode env index s).1).2) = [] ↔ _
  rw [List.append_eq_nil_iff]
  exact and_congr_left' List.map_eq_nil_iff

def AllQuiet (s : CodeMods) (env : LoadEnv) (indices : List Nat) : Prop :=
  ∀ index ∈ indices, env.CodeQuiet s.hookSlots index (s.mods index).recompilerContext

theorem AllQuiet.congr {t : CodeMods} (symbols : SameSymbols s t) :
    t.AllQuiet env indices ↔ s.AllQuiet env indices := by
  unfold AllQuiet
  simp only [symbols.hookSlots, symbols.symbols]

theorem codePass_frame (env : LoadEnv) (indices : List Nat) (enough : base ≤ s.handles.length) :
    AddsMarks base s (codePass env indices s).1 ∧ SameSymbols s (codePass env indices s).1 := by
  induction indices generalizing s with
  | nil => exact ⟨.refl base s, .refl s⟩
  | cons index rest ih =>
      obtain ⟨adds, symbols⟩ := loadModCode_frame env index enough
      obtain ⟨adds', symbols'⟩ := ih (adds enough).1
      exact ⟨adds.trans adds', symbols.trans symbols'⟩

theorem codePass_allQuiet (enough : base ≤ s.handles.length)
    (unpublished : ∀ address, .published address ∉ marks base s)
    (same : marks base (codePass env indices s).1 = marks base s) : s.AllQuiet env indices := by
  induction indices generalizing s with
  | nil => exact fun index mem => absurd mem List.not_mem_nil
  | cons index rest ih =>
      obtain ⟨adds, symbols⟩ := loadModCode_frame env index enough
      obtain ⟨enough', sub⟩ := adds enough
      rw [codePass_cons] at same
      have later := ((codePass_frame env rest enough').1 enough').2
      have here : marks base (loadModCode env index s).1 = marks base s :=
        (later.trans same.subset).antisymm sub
      have rest_quiet := ih enough' (by rw [here]; exact unpublished) (same.trans here.symm)
      intro other mem
      rcases List.mem_cons.mp mem with rfl | mem
      · by_contra loud
        rcases loadModCode_loud enough loud with ⟨address, mark⟩ | longer
        · rw [here] at mark
          exact unpublished address mark
        · have mark : Mark.library other (s.mods other).nativeLibraries.length ∈
              marks base (loadModCode env other s).1 := longer
          rw [here] at mark
          exact Nat.lt_irrefl _ mark
      · exact (AllQuiet.congr symbols).mp rest_quiet other mem

def tried (s : CodeMods) (env : LoadEnv) (indices : List Nat) : Set Nat :=
  {index | index ∈ indices ∧
    ¬ env.OfflineHooked s.hookSlots index (s.mods index).recompilerContext}

theorem loadModCode_keeps (enough : base ≤ s.handles.length) {index : Nat}
    (quiet : env.CodeQuiet s.hookSlots index (s.mods index).recompilerContext) :
    Keeps base (s.tried env [index]) s (loadModCode env index s).1 ∧
      (index ∈ s.tried env [index] → Renewed base index (loadModCode env index s).1) := by
  rw [(loadModCode_quiet quiet).1]
  by_cases hooked : env.OfflineHooked s.hookSlots index (s.mods index).recompilerContext
  · exact ⟨(makeCodeHandle_hooked _ hooked).1, fun mem => absurd hooked mem.2⟩
  · have made := makeCodeHandle_rehandles env enough hooked
    refine ⟨made.keeps.mono ?_, fun _ handle here => ?_⟩
    · rintro other rfl
      exact ⟨List.mem_cons_self, hooked⟩
    · rcases made.handle with none | new
      · rw [none] at here
        cases here
      · rw [new] at here
        cases here
        exact enough

theorem codePass_keeps (enough : base ≤ s.handles.length) (quiet : s.AllQuiet env indices) :
    Keeps base (s.tried env indices) s (codePass env indices s).1 ∧
      ∀ index, index ∈ s.tried env indices ∨ Renewed base index s →
        Renewed base index (codePass env indices s).1 := by
  induction indices generalizing s with
  | nil =>
      refine ⟨.refl base _ s, fun index either => ?_⟩
      exact either.resolve_left fun mem => absurd mem.1 List.not_mem_nil
  | cons index rest ih =>
      obtain ⟨keeps, renewed⟩ := loadModCode_keeps enough (quiet index List.mem_cons_self)
      have symbols := (loadModCode_frame env index enough).2
      have rest_quiet : s.AllQuiet env rest := fun other mem =>
        quiet other (List.mem_cons_of_mem index mem)
      obtain ⟨keeps', renewed'⟩ := ih (Nat.le_trans enough keeps.grown)
        ((AllQuiet.congr symbols).mpr rest_quiet)
      have same : (loadModCode env index s).1.tried env rest = s.tried env rest := by
        unfold tried
        simp only [symbols.hookSlots, symbols.symbols]
      rw [same] at keeps' renewed'
      refine ⟨(keeps.mono ?_).trans (keeps'.mono ?_), fun other either => ?_⟩
      · rintro other ⟨mem, unhooked⟩
        rw [List.mem_singleton.mp mem] at unhooked ⊢
        exact ⟨List.mem_cons_self, unhooked⟩
      · exact fun other both => ⟨List.mem_cons_of_mem index both.1, both.2⟩
      · rw [codePass_cons]
        apply renewed'
        by_cases here : index ∈ s.tried env [index] ∧ other = index
        · rw [here.2]
          exact Or.inr (renewed here.1)
        · have kept : ((loadModCode env index s).1.mods other).codeHandle =
              (s.mods other).codeHandle := by
            apply keeps.codeHandle
            intro mem
            have only := List.mem_singleton.mp mem.1
            subst only
            exact here ⟨mem, rfl⟩
          rcases either with ⟨mem, unhooked⟩ | before
          · rcases List.mem_cons.mp mem with only | later
            · subst only
              exact absurd ⟨⟨List.mem_cons_self, unhooked⟩, rfl⟩ here
            · exact Or.inl ⟨later, unhooked⟩
          · refine Or.inr fun handle owned => before handle ?_
            rw [← kept]
            exact owned

theorem codePass_ok (enough : base ≤ s.handles.length) (quiet : s.AllQuiet env indices)
    (ok : (codePass env indices s).2 = []) :
    ∀ index ∈ indices, index ∈ s.tried env indices ∧
      (s.mods index).recompilerContext.functions = [] := by
  induction indices generalizing s with
  | nil => exact fun index mem => absurd mem List.not_mem_nil
  | cons index rest ih =>
      obtain ⟨first, later⟩ := (codePass_errors env index rest s).mp ok
      obtain ⟨adds, symbols⟩ := loadModCode_frame env index enough
      have rest_quiet : s.AllQuiet env rest := fun other mem =>
        quiet other (List.mem_cons_of_mem index mem)
      have others := ih (adds enough).1 ((AllQuiet.congr symbols).mpr rest_quiet) later
      intro other mem
      rcases List.mem_cons.mp mem with rfl | mem
      · obtain ⟨handle, none⟩ := (loadModCode_quiet (quiet other List.mem_cons_self)).2 first
        refine ⟨⟨List.mem_cons_self, fun hooked => ?_⟩, none⟩
        have fails : env.HandleFails s.hookSlots other (s.mods other).recompilerContext := by
          unfold LoadEnv.HandleFails
          rw [if_pos hooked.1]
          exact Or.inl hooked
        exact makeCodeHandle_fails.mpr fails handle
      · obtain ⟨⟨-, unhooked⟩, none⟩ := others other mem
        rw [symbols.hookSlots, symbols.symbols] at unhooked
        rw [symbols.symbols] at none
        exact ⟨⟨List.mem_cons_of_mem index mem, unhooked⟩, none⟩

end CodePass

/-! ## The third pass and the leftover hooks, without functions -/

/-- A step over a mod without functions whose handle is new: it changes that handle at most. -/
structure Links (base : Nat) (s t : CodeMods) : Prop where
  keeps : Keeps base ∅ s t
  mods : t.mods = s.mods
  hookSlots : t.hookSlots = s.hookSlots

def LinksNew (base index : Nat) (s t : CodeMods) : Prop :=
  Renewed base index s → (s.mods index).recompilerContext.functions = [] → Links base s t

section ThirdPass
variable {env : LoadEnv} {base index : Nat} {s : CodeMods}

theorem Links.refl (base : Nat) (s : CodeMods) : Links base s s :=
  ⟨.refl base ∅ s, rfl, rfl⟩

theorem Links.trans {t u : CodeMods} (first : Links base s t) (second : Links base t u) :
    Links base s u :=
  ⟨first.keeps.trans second.keeps, second.mods.trans first.mods,
    second.hookSlots.trans first.hookSlots⟩

theorem LinksNew.refl (base index : Nat) (s : CodeMods) : LinksNew base index s s :=
  fun _ _ => .refl base s

theorem LinksNew.trans {s t u : CodeMods} (first : LinksNew base index s t)
    (second : LinksNew base index t u) : LinksNew base index s u := by
  intro renewed none
  have links := first renewed none
  refine links.trans (second ?_ ?_)
  · unfold Renewed
    rw [links.mods]
    exact renewed
  · rw [links.mods]
    exact none

theorem updateHandle_links (f : CodeHandle → CodeHandle) :
    LinksNew base index s (s.updateHandle index f) := by
  intro renewed _
  unfold updateHandle
  split
  · exact .refl base s
  · rename_i handle here
    refine ⟨⟨rfl, rfl, rfl, rfl, rfl, rfl, fun _ _ => rfl, fun old below => ?_,
      Nat.le_of_eq (List.length_modify ..).symm⟩, rfl, rfl⟩
    have apart : handle ≠ old := Nat.ne_of_gt (Nat.lt_of_lt_of_le below (renewed handle here))
    exact List.getElem?_modify_ne f _ apart

theorem lookupImport_links {importIndex : Nat} {id name : String} {t : CodeMods}
    {func : Option GenericFunction}
    (found : lookupImport env index importIndex id name s = .ok (t, func)) : Links base s t := by
  have shim (f : ShimFunction) : Links base s (s.newShim f).1 :=
    ⟨⟨rfl, rfl, rfl, rfl, rfl, rfl, fun _ _ => rfl, fun _ _ => rfl, Nat.le_refl _⟩, rfl, rfl⟩
  unfold lookupImport at found
  split at found
  · split at found
    · cases found
      exact .refl base s
    · split at found
      · cases found
        exact shim _
      · cases found
        exact .refl base s
  · split at found
    · cases found
      exact .refl base s
    · split at found
      · cases found
        exact .refl base s
      · split at found
        · cases found
          exact shim _
        · cases found

theorem bindImport_links (symbol : ImportSymbol × Nat) :
    LinksNew base index s (bindImport env index symbol s).1 := by
  unfold bindImport
  dsimp only
  split
  · exact fun _ _ => .refl base s
  · rename_i found
    exact fun _ _ => lookupImport_links found
  · rename_i found
    exact LinksNew.trans (fun _ _ => lookupImport_links found) (updateHandle_links _)

theorem no_functions {context : RecompilerContext} (none : context.functions = []) :
    context.callbacks = [] ∧ context.hooks = [] ∧ context.replacements = [] := by
  have below {n : Nat} (inside : n < context.functions.length) : False := by
    rw [none] at inside
    exact Nat.not_lt_zero n inside
  refine ⟨?_, ?_, ?_⟩
  · exact List.eq_nil_iff_forall_not_mem.mpr fun c mem => below (context.callback_lt c mem)
  · exact List.eq_nil_iff_forall_not_mem.mpr fun h mem => below (context.hook_lt h mem)
  · exact List.eq_nil_iff_forall_not_mem.mpr fun r mem => below (context.replacement_lt r mem)

theorem resolveCodeDependencies_links (env : LoadEnv) (base index : Nat) (s : CodeMods) :
    LinksNew base index s (resolveCodeDependencies env index s).1 := by
  refine untilError_related (LinksNew.refl base index) LinksNew.trans (fun f mem t => ?_) s
  simp only [List.mem_cons, List.not_mem_nil, or_false] at mem
  rcases mem with rfl | rfl | rfl | rfl | rfl | rfl
  · unfold populateReferenceSymbols
    dsimp only
    split
    · exact fun _ _ => .refl base t
    · exact updateHandle_links _
  · refine untilError_related (LinksNew.refl base index) LinksNew.trans (fun f mem u => ?_) t
    obtain ⟨symbol, -, rfl⟩ := List.mem_map.mp mem
    exact bindImport_links symbol
  · intro _ none
    rw [registerCallbacks, (no_functions none).1]
    exact .refl base t
  · intro _ none
    rw [registerHooks, (no_functions none).2.1]
    exact .refl base t
  · exact updateHandle_links _
  · intro _ none
    rw [installReplacements, (no_functions none).2.2]
    exact .refl base t

def resolvePass (env : LoadEnv) (indices : List Nat) : Step CodeMods LoadFailure :=
  collect (indices.map (ofMod (resolveCodeDependencies env)))

theorem resolvePass_links {indices : List Nat}
    (new : ∀ index ∈ indices, Renewed base index s ∧
      (s.mods index).recompilerContext.functions = []) :
    Links base s (resolvePass env indices s).1 := by
  induction indices generalizing s with
  | nil => exact .refl base s
  | cons index rest ih =>
      obtain ⟨renewed, none⟩ := new index List.mem_cons_self
      have first := resolveCodeDependencies_links env base index s renewed none
      refine first.trans (ih fun other mem => ?_)
      have other_new := new other (List.mem_cons_of_mem index mem)
      unfold Renewed at other_new ⊢
      change (∀ handle, ((resolveCodeDependencies env index s).1.mods other).codeHandle = _ → _) ∧
        ((resolveCodeDependencies env index s).1.mods other).recompilerContext.functions = []
      rw [first.mods]
      exact other_new

theorem regenerateLeftovers_empty (empty : s.hookSlots = .empty) :
    (regenerateLeftovers env s).2 = [] := by
  have none : s.unprocessedHooks = [] := by
    rw [unprocessedHooks, empty]
    rfl
  unfold regenerateLeftovers
  rw [if_pos none]

end ThirdPass

end CodeMods

end N64ModernRuntime.Librecomp
