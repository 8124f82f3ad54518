import N64ModernRuntime.Librecomp.LoadMods
import N64ModernRuntime.Librecomp.ModOrder

/-!
# mods.cpp: the exports of native libraries

Each library of a mod fills the one table of exports, which `load_native_library`
clears first.
-/

set_option autoImplicit false

namespace N64ModernRuntime.Librecomp

open FailingSteps

def LoadEnv.libraryFilename (env : LoadEnv) (manifest : NativeLibraryManifest) : String :=
  manifest.name ++ env.platformExtension

/-- The library is found, has the version that is supported, and every symbol that
its manifest names. -/
def LoadEnv.LibraryGood (env : LoadEnv) (index : Nat) (manifest : NativeLibraryManifest) : Prop :=
  ∃ library, env.dynamicLibrary index (env.libraryFilename manifest) = some library ∧
    library.apiVersion = 1 ∧ ∀ name ∈ manifest.exports, library.symbols name = true

def exportsOf (filename : String) (names : List String) (name : String) : Option GenericFunction :=
  if name ∈ names then some (.symbol filename name) else none

namespace CodeMods

/-- Nothing but the names of the exports can keep the code from being loaded. -/
structure Loadable (env : LoadEnv) (index : Nat) (s : CodeMods) : Prop where
  handle : (makeCodeHandle env index s).2 = []
  libraries : ∀ manifest ∈ (env.files index).nativeLibraries, env.LibraryGood index manifest
  sections : ∀ function ∈ (s.mods index).recompilerContext.functions,
    function.sectionIndex < (s.mods index).recompilerContext.sections.length

def ExportsApart (libraries : List NativeLibraryManifest) : Prop :=
  libraries.Pairwise fun first second => first.exports.Disjoint second.exports

/-- Exports with names of their own lead to their symbols; two libraries with one
name are turned away. -/
structure NativeExportsKept (env : LoadEnv) (index : Nat) (s : CodeMods) : Prop where
  resolved : (loadModCode env index s).2 = [] →
    ((env.files index).nativeLibraries.flatMap NativeLibraryManifest.exports).Nodup →
      ∀ manifest ∈ (env.files index).nativeLibraries, ∀ name ∈ manifest.exports,
        (s.mods index).exportsByName name = none →
          ((loadModCode env index s).1.mods index).getExportFunction name =
            some (.symbol (env.libraryFilename manifest) name)
  rejected : ¬ ExportsApart (env.files index).nativeLibraries →
    ∃ name, (loadModCode env index s).2 = [⟨.duplicateExport, name⟩]

/-- Some library names an export twice, or no two libraries name one and those of all
but the last are exports of the code too. -/
def ExportsSafe (env : LoadEnv) (index : Nat) (s : CodeMods) : Prop :=
  (∃ manifest ∈ (env.files index).nativeLibraries, ¬ manifest.exports.Nodup) ∨
    (ExportsApart (env.files index).nativeLibraries ∧
      ∀ manifest ∈ (env.files index).nativeLibraries.dropLast, ∀ name ∈ manifest.exports,
        (s.mods index).exportsByName name ≠ none)

/-! ## One library -/

structure SameCode (index : Nat) (s t : CodeMods) : Prop where
  exportsByName : (t.mods index).exportsByName = (s.mods index).exportsByName
  context : (t.mods index).recompilerContext = (s.mods index).recompilerContext

theorem SameCode.refl (index : Nat) (s : CodeMods) : SameCode index s s := ⟨rfl, rfl⟩

theorem SameCode.trans {index : Nat} {s t u : CodeMods} (first : SameCode index s t)
    (second : SameCode index t u) : SameCode index s u :=
  ⟨second.exportsByName.trans first.exportsByName, second.context.trans first.context⟩

@[simp] theorem setMod_self (s : CodeMods) (index : Nat) (f : ModCode → ModCode) :
    (s.setMod index f).mods index = f (s.mods index) :=
  Function.update_self _ _ _

section Library

variable {env : LoadEnv} {index : Nat} {s : CodeMods} {library : DynamicLibrary}
  {manifest : NativeLibraryManifest} {filename : String} {names done : List String}

theorem addNativeExport_new (manifest : NativeLibraryManifest) {name : String}
    (symbol : library.symbols name = true)
    (table : (s.mods index).nativeLibraryExports = exportsOf filename done) (new : name ∉ done) :
    ∃ t, addNativeExport library manifest filename index name s = (t, []) ∧ SameCode index s t ∧
      (t.mods index).nativeLibraryExports = exportsOf filename (done ++ [name]) := by
  have absent : (s.mods index).nativeLibraryExports name = none := by
    rw [table, exportsOf, if_neg new]
  have added : addNativeExport library manifest filename index name s =
      (s.setMod index fun m => { m with
        nativeLibraryExports := emplace m.nativeLibraryExports name (.symbol filename name) }, []) := by
    rw [addNativeExport, absent, if_neg (by simp), if_pos symbol]
  refine ⟨_, added, ⟨?_, ?_⟩, ?_⟩
  · rw [setMod_self]
  · rw [setMod_self]
  · rw [setMod_self, table]
    funext other
    change (exportsOf filename done other).or _ = _
    unfold exportsOf
    by_cases listed : other ∈ done
    · rw [if_pos listed, if_pos (List.mem_append_left _ listed), Option.some_or]
    · rw [if_neg listed, Option.none_or]
      by_cases same : other = name
      · subst same
        rw [if_pos rfl, if_pos (List.mem_append_right _ List.mem_cons_self)]
      · rw [if_neg same, if_neg]
        intro mem
        rcases List.mem_append.mp mem with earlier | last
        · exact listed earlier
        · exact same (List.mem_singleton.mp last)

theorem addNativeExport_known (library : DynamicLibrary) (manifest : NativeLibraryManifest)
    {name : String}
    (table : (s.mods index).nativeLibraryExports = exportsOf filename done) (known : name ∈ done) :
    addNativeExport library manifest filename index name s = (s, [⟨.duplicateExport, name⟩]) := by
  have present : ((s.mods index).nativeLibraryExports name).isSome = true := by
    rw [table, exportsOf, if_pos known]
    rfl
  rw [addNativeExport, if_pos present]

theorem addNativeExports_ok (manifest : NativeLibraryManifest)
    (symbols : ∀ name ∈ names, library.symbols name = true)
    (table : (s.mods index).nativeLibraryExports = exportsOf filename done)
    (distinct : (done ++ names).Nodup) :
    ∃ t, untilError (names.map (addNativeExport library manifest filename index)) s = (t, []) ∧
      SameCode index s t ∧
      (t.mods index).nativeLibraryExports = exportsOf filename (done ++ names) := by
  induction names generalizing s done with
  | nil => exact ⟨s, rfl, .refl index s, by rw [List.append_nil, table]⟩
  | cons name rest ih =>
      have new : name ∉ done := by
        intro known
        exact List.disjoint_of_nodup_append distinct known List.mem_cons_self
      obtain ⟨t, added, same, table'⟩ :=
        addNativeExport_new manifest (symbols name List.mem_cons_self) table new
      have distinct' : (done ++ [name] ++ rest).Nodup := by
        rw [List.append_assoc, List.singleton_append]
        exact distinct
      obtain ⟨u, run, same', table''⟩ :=
        ih (fun other mem => symbols other (List.mem_cons_of_mem name mem)) table' distinct'
      refine ⟨u, ?_, same.trans same', ?_⟩
      · rw [List.map_cons, untilError_cons_ok _ (by rw [added]), added, run]
      · rw [table'', List.append_assoc, List.singleton_append]

/-- The first name that is there already ends the loop. -/
theorem addNativeExports_twice (manifest : NativeLibraryManifest)
    (symbols : ∀ name ∈ names, library.symbols name = true)
    (table : (s.mods index).nativeLibraryExports = exportsOf filename done)
    (distinct : done.Nodup) (twice : ¬ (done ++ names).Nodup) :
    ∃ t name, untilError (names.map (addNativeExport library manifest filename index)) s =
      (t, [⟨.duplicateExport, name⟩]) := by
  induction names generalizing s done with
  | nil =>
      rw [List.append_nil] at twice
      exact absurd distinct twice
  | cons name rest ih =>
      by_cases known : name ∈ done
      · refine ⟨s, name, ?_⟩
        have failed := addNativeExport_known library manifest table known
        rw [List.map_cons, untilError_cons_failed _ (by rw [failed]; simp), failed]
      · obtain ⟨t, added, -, table'⟩ :=
          addNativeExport_new manifest (symbols name List.mem_cons_self) table known
        have distinct' : (done ++ [name]).Nodup :=
          List.nodup_append.mpr ⟨distinct, List.nodup_singleton name, by
            intro a listed b last same
            exact known (List.mem_singleton.mp last ▸ same ▸ listed)⟩
        have twice' : ¬ (done ++ [name] ++ rest).Nodup := by
          rw [List.append_assoc, List.singleton_append]
          exact twice
        obtain ⟨u, other, run⟩ :=
          ih (fun other mem => symbols other (List.mem_cons_of_mem name mem)) table' distinct' twice'
        refine ⟨u, other, ?_⟩
        rw [List.map_cons, untilError_cons_ok _ (by rw [added]), added, run]

theorem loadNativeLibrary_good (s : CodeMods) (good : env.LibraryGood index manifest) :
    ∃ library t, (∀ name ∈ manifest.exports, library.symbols name = true) ∧ SameCode index s t ∧
      (t.mods index).nativeLibraryExports = exportsOf (env.libraryFilename manifest) [] ∧
      loadNativeLibrary env index manifest s =
        untilError (manifest.exports.map
          (addNativeExport library manifest (env.libraryFilename manifest) index)) t := by
  obtain ⟨library, found, version, symbols⟩ := good
  have valid : validateApiVersion (env.libraryFilename manifest) library.apiVersion = [] := by
    rw [validateApiVersion, if_pos version]
  have loaded : loadNativeLibrary env index manifest s =
      untilError (manifest.exports.map
          (addNativeExport library manifest (env.libraryFilename manifest) index))
        ((s.setMod index fun m => { m with
          nativeLibraries := m.nativeLibraries ++ [env.libraryFilename manifest]
        }).clearNativeExports index) := by
    rw [loadNativeLibrary]
    rw [← LoadEnv.libraryFilename, found]
    simp only [valid, ne_eq, not_true_eq_false, if_false]
  refine ⟨library, _, symbols, ⟨?_, ?_⟩, ?_, loaded⟩
  · rw [clearNativeExports, setMod_self, setMod_self]
  · rw [clearNativeExports, setMod_self, setMod_self]
  · rw [clearNativeExports, setMod_self]
    rfl

end Library

/-! ## All libraries -/

section Libraries

variable {env : LoadEnv} {index : Nat} {s : CodeMods} {libraries : List NativeLibraryManifest}

/-- Where no library names an export twice, the table is that of the last one. -/
theorem loadNativeLibraries_ok (good : ∀ manifest ∈ libraries, env.LibraryGood index manifest)
    (distinct : ∀ manifest ∈ libraries, manifest.exports.Nodup) :
    ∃ t, untilError (libraries.map (loadNativeLibrary env index)) s = (t, []) ∧ SameCode index s t ∧
      ∀ last, libraries.getLast? = some last →
        (t.mods index).nativeLibraryExports =
          exportsOf (env.libraryFilename last) last.exports := by
  induction libraries generalizing s with
  | nil => exact ⟨s, rfl, .refl index s, fun last none_last => by contradiction⟩
  | cons manifest rest ih =>
      obtain ⟨library, t, symbols, same, cleared, run⟩ :=
        loadNativeLibrary_good s (good manifest List.mem_cons_self)
      obtain ⟨u, added, same', table⟩ := addNativeExports_ok manifest symbols cleared
        (distinct manifest List.mem_cons_self)
      obtain ⟨v, later, same'', last_table⟩ :=
        ih (s := u) (fun other mem => good other (List.mem_cons_of_mem manifest mem))
          (fun other mem => distinct other (List.mem_cons_of_mem manifest mem))
      refine ⟨v, ?_, (same.trans same').trans same'', ?_⟩
      · rw [List.map_cons, untilError_cons_ok _ (by rw [run, added]), run, added, later]
      · intro last is_last
        cases rest with
        | nil =>
            cases is_last
            cases later
            exact table
        | cons next rest => exact last_table last is_last

theorem loadNativeLibraries_twice (good : ∀ manifest ∈ libraries, env.LibraryGood index manifest)
    (twice : ∃ manifest ∈ libraries, ¬ manifest.exports.Nodup) :
    ∃ t name, untilError (libraries.map (loadNativeLibrary env index)) s =
      (t, [⟨.duplicateExport, name⟩]) := by
  induction libraries generalizing s with
  | nil =>
      obtain ⟨manifest, mem, -⟩ := twice
      contradiction
  | cons manifest rest ih =>
      obtain ⟨library, t, symbols, -, cleared, run⟩ :=
        loadNativeLibrary_good s (good manifest List.mem_cons_self)
      by_cases here : manifest.exports.Nodup
      · obtain ⟨u, added, -, -⟩ := addNativeExports_ok manifest symbols cleared here
        have later : ∃ other ∈ rest, ¬ other.exports.Nodup := by
          obtain ⟨other, mem, repeats⟩ := twice
          rcases List.mem_cons.mp mem with rfl | mem
          · exact absurd here repeats
          · exact ⟨other, mem, repeats⟩
        obtain ⟨v, name, failed⟩ :=
          ih (s := u) (fun other mem => good other (List.mem_cons_of_mem manifest mem)) later
        refine ⟨v, name, ?_⟩
        rw [List.map_cons, untilError_cons_ok _ (by rw [run, added]), run, added, failed]
      · obtain ⟨u, name, failed⟩ :=
          addNativeExports_twice manifest symbols cleared List.nodup_nil here
        refine ⟨u, name, ?_⟩
        rw [List.map_cons, untilError_cons_failed _ (by rw [run, failed]; simp), run, failed]

end Libraries

/-! ## load_mod_code -/

section LoadModCode

variable {env : LoadEnv} {index : Nat} {s : CodeMods}

theorem newHandle_same (s : CodeMods) (handle : CodeHandle) :
    SameCode index s (s.newHandle index handle) := by
  refine ⟨?_, ?_⟩ <;> simp only [newHandle, setMod_self]

theorem dropHandle_same (s : CodeMods) : SameCode index s (s.dropHandle index) := by
  refine ⟨?_, ?_⟩ <;> simp only [dropHandle, setMod_self]

theorem makeOffline_same (env : LoadEnv) (maps : HookMaps) (s : CodeMods) :
    SameCode index s (makeOffline env index maps s).1 := by
  unfold makeOffline
  dsimp only
  split
  · exact .refl index s
  · split
    · exact dropHandle_same s
    · split
      · exact newHandle_same s _
      · exact dropHandle_same s

theorem makeLive_same (env : LoadEnv) (maps : HookMaps) (s : CodeMods) :
    SameCode index s (makeLive env index maps s).1 := by
  unfold makeLive
  dsimp only
  split
  · exact newHandle_same s _
  · exact dropHandle_same s

theorem makeCodeHandle_same (index : Nat) (env : LoadEnv) (s : CodeMods) :
    SameCode index s (makeCodeHandle env index s).1 := by
  have processed (slots : List Bool) : SameCode index s { s with processedHookSlots := slots } :=
    ⟨rfl, rfl⟩
  rw [makeCodeHandle]
  split
  · exact (processed _).trans (makeOffline_same env _ _)
  · exact (processed _).trans (makeLive_same env _ _)

theorem publishFunction_ok {function : ModFunction × Nat}
    (inside : function.1.sectionIndex < (s.mods index).recompilerContext.sections.length) :
    ∃ funcMap, publishFunction index function s = ({ s with funcMap := funcMap }, []) := by
  unfold publishFunction
  dsimp only
  rw [List.getElem?_eq_getElem inside]
  exact ⟨_, rfl⟩

theorem publishFunctions_ok (sections : ∀ function ∈ (s.mods index).recompilerContext.functions,
    function.sectionIndex < (s.mods index).recompilerContext.sections.length) :
    ∃ funcMap, publishFunctions index s = ({ s with funcMap := funcMap }, []) := by
  have every : ∀ functions : List (ModFunction × Nat),
      (∀ function ∈ functions,
        function.1.sectionIndex < (s.mods index).recompilerContext.sections.length) →
      ∀ before, ∃ funcMap, untilError (functions.map (publishFunction index))
        { s with funcMap := before } = ({ s with funcMap := funcMap }, []) := by
    intro functions
    induction functions with
    | nil => exact fun _ before => ⟨before, rfl⟩
    | cons function rest ih =>
        intro inside before
        obtain ⟨next, published⟩ := publishFunction_ok (s := { s with funcMap := before })
          (inside function List.mem_cons_self)
        obtain ⟨funcMap, later⟩ :=
          ih (fun other mem => inside other (List.mem_cons_of_mem function mem)) next
        refine ⟨funcMap, ?_⟩
        rw [List.map_cons, untilError_cons_ok _ (by rw [published]), published]
        exact later
  exact every _ (fun function mem => sections function.1 (List.fst_mem_of_mem_zipIdx mem)) s.funcMap

theorem loadModCode_libraries (loadable : Loadable env index s) :
    ∃ t, SameCode index s t ∧
      (∀ u errors, errors ≠ [] →
        untilError ((env.files index).nativeLibraries.map (loadNativeLibrary env index)) t =
          (u, errors) → (loadModCode env index s).2 = errors) ∧
      ∀ u, SameCode index t u →
        untilError ((env.files index).nativeLibraries.map (loadNativeLibrary env index)) t = (u, []) →
          ∃ funcMap, loadModCode env index s = ({ u with funcMap := funcMap }, []) := by
  have same := makeCodeHandle_same index env s
  have steps : loadModCode env index s =
      untilError ((env.files index).nativeLibraries.map (loadNativeLibrary env index) ++
        [publishFunctions index]) (makeCodeHandle env index s).1 := by
    rw [loadModCode, List.cons_append, untilError_cons_ok _ loadable.handle]
  refine ⟨(makeCodeHandle env index s).1, same, ?_, ?_⟩
  · intro u errors failed run
    rw [steps, untilError_append_failed _ (by rw [run]; exact failed), run]
  · intro u same' run
    have sections : ∀ function ∈ (u.mods index).recompilerContext.functions,
        function.sectionIndex < (u.mods index).recompilerContext.sections.length := by
      rw [(same.trans same').context]
      exact loadable.sections
    obtain ⟨funcMap, published⟩ := publishFunctions_ok sections
    refine ⟨funcMap, ?_⟩
    rw [steps, untilError_append_ok _ (by rw [run]), run,
      untilError_cons_ok _ (by rw [published]), published]
    rfl

end LoadModCode

/-- Of several libraries only the last one's exports stay, and one name in two of
them is let through. -/
theorem native_exports_kept_iff (env : LoadEnv) (index : Nat) (s : CodeMods)
    (loadable : Loadable env index s) :
    NativeExportsKept env index s ↔ ExportsSafe env index s := by
  obtain ⟨t, same, fails, succeeds⟩ := loadModCode_libraries loadable
  by_cases twice : ∃ manifest ∈ (env.files index).nativeLibraries, ¬ manifest.exports.Nodup
  · obtain ⟨u, name, run⟩ := loadNativeLibraries_twice (s := t) loadable.libraries twice
    have failed := fails u _ (by simp) run
    refine iff_of_true ⟨fun succeeded => ?_, fun _ => ⟨name, failed⟩⟩ (.inl twice)
    rw [failed] at succeeded
    contradiction
  · have distinct : ∀ manifest ∈ (env.files index).nativeLibraries, manifest.exports.Nodup := by
      intro manifest mem
      by_contra repeats
      exact twice ⟨manifest, mem, repeats⟩
    obtain ⟨u, run, same', table⟩ := loadNativeLibraries_ok (s := t) loadable.libraries distinct
    obtain ⟨funcMap, loaded⟩ := succeeds u same' run
    have lookup : ∀ name, (s.mods index).exportsByName name = none →
        ((loadModCode env index s).1.mods index).getExportFunction name =
          (u.mods index).nativeLibraryExports name := by
      intro name unshadowed
      rw [loaded, ModCode.getExportFunction]
      dsimp only
      rw [(same.trans same').exportsByName, unshadowed]
    constructor
    · intro kept
      have apart : ExportsApart (env.files index).nativeLibraries := by
        by_contra shared
        obtain ⟨name, failed⟩ := kept.rejected shared
        rw [loaded] at failed
        contradiction
      refine .inr ⟨apart, ?_⟩
      intro manifest mem name exported unshadowed
      have all_distinct := List.nodup_flatMap.mpr ⟨distinct, apart⟩
      have resolved := kept.resolved (by rw [loaded]) all_distinct manifest
        (List.mem_of_mem_dropLast mem) name exported unshadowed
      have some_library : (env.files index).nativeLibraries ≠ [] := by
        intro empty
        rw [empty] at mem
        contradiction
      have split := List.dropLast_append_getLast some_library
      -- the table is that of the last library, which does not name the export
      rw [lookup name unshadowed, table _ (List.getLast?_eq_getLast_of_ne_nil some_library),
        exportsOf, if_neg] at resolved
      · contradiction
      · intro also
        rw [ExportsApart, ← split, List.pairwise_append] at apart
        exact apart.2.2 manifest mem _ List.mem_cons_self exported also
    · rintro (repeats | ⟨apart, shadowed⟩)
      · exact absurd repeats twice
      · refine ⟨fun _ _ manifest mem name exported unshadowed => ?_, fun shared => absurd apart shared⟩
        have some_library := List.ne_nil_of_mem mem
        have split := List.dropLast_append_getLast some_library
        rw [← split] at mem
        rcases List.mem_append.mp mem with earlier | last
        · exact absurd unshadowed (shadowed manifest earlier name exported)
        · have is_last := List.mem_singleton.mp last
          rw [lookup name unshadowed, table _ (List.getLast?_eq_getLast_of_ne_nil some_library),
            exportsOf, ← is_last, if_pos exported]

/-! ## A mod with libraries and no code -/

def libraryEnv (libraries : List NativeLibraryManifest) : LoadEnv where
  projectVersion := ⟨1, 0, 0⟩
  codeContentType := 0
  code := ⟨[], by decide, by simp, by simp⟩
  patches := ⟨[], by decide, by simp, by simp⟩
  patchBinary := []
  decompressedRom := []
  files _ := ⟨false, "mod.so", "mod.so", none, none, libraries⟩
  parseModSymbols _ _ := (.ofCode [] [], true)
  recompiles _ _ _ := true
  referenceJumps _ := []
  dynamicLibrary _ _ := some ⟨fun _ => true, 1⟩
  platformExtension := ".so"
  baseExports _ := none
  extBaseExports _ := none
  baseEventIndex _ := none
  numBaseEvents := 0
  manualPatchSymbols _ := none
  sectionAbsolute := 0xFFFE
  sectionEvent := 0xFFFD
  isRegularReferenceSection _ := false
  dependencySelf := "."
  dependencyBaseRecomp := "*"
  absolute_reserved := by decide
  sortHooks := StdSort.insertion _
  sortRegistered := StdSort.insertion _

def nothingLoaded : CodeMods where
  context := ModContext.emptyContext
  mods _ := ⟨none, .ofCode [] [], [], fun _ => none, fun _ => none, fun _ => none, []⟩
  loadedModsById _ := none
  loadedCodeMods := []
  patchedFuncs := []
  hookSlots := .empty
  processedHookSlots := []
  regeneratedCodeHandle := none
  basePatchedCodeHandle := none
  shimFunctions := []
  numEvents := 0
  bytes _ := none
  funcMap _ := none
  gHookSlots := []
  gEventListeners := []
  handles := []
  loadAddress := 0x81000000
  ramUsed := 0
  baseEventIndices _ := 0

theorem libraries_loadable (libraries : List NativeLibraryManifest) :
    Loadable (libraryEnv libraries) 0 nothingLoaded :=
  ⟨rfl, fun _ _ => ⟨⟨fun _ => true, 1⟩, rfl, rfl, fun _ _ => rfl⟩, by simp [nothingLoaded, RecompilerContext.ofCode]⟩

def exportingMod : CodeMods :=
  { nothingLoaded with
    mods := fun _ => ModCode.populateExports
      ⟨none, { RecompilerContext.ofCode [⟨0, 0x80000000, 8, 0, [], false, true⟩]
          [⟨0x80000000, 0, [], "connect", 0⟩] with
            exportedFuncs := [0], exported_lt := by simp [RecompilerContext.ofCode] },
        [0x81000000], fun _ => none, fun _ => none, fun _ => none, []⟩ }

/-- Two libraries, of which the first one's export is one of the code too. -/
theorem two_libraries_kept :
    NativeExportsKept (libraryEnv [⟨"net", ["connect"]⟩, ⟨"gui", ["draw", "close"]⟩]) 0 exportingMod := by
  have loadable : Loadable (libraryEnv [⟨"net", ["connect"]⟩, ⟨"gui", ["draw", "close"]⟩]) 0
      exportingMod :=
    ⟨rfl, fun _ _ => ⟨⟨fun _ => true, 1⟩, rfl, rfl, fun _ _ => rfl⟩, by decide⟩
  refine (native_exports_kept_iff _ _ _ loadable).mpr (.inr ⟨?_, ?_⟩)
  · refine List.pairwise_pair.mpr fun name first second => ?_
    rw [List.mem_singleton.mp first] at second
    exact absurd second (by decide)
  · intro manifest mem name exported
    rw [List.mem_singleton.mp mem] at exported
    rw [List.mem_singleton.mp exported]
    decide

/-- The second library drops the export of the first. -/
theorem first_library_dropped :
    Loadable (libraryEnv [⟨"net", ["connect"]⟩, ⟨"gui", ["draw"]⟩]) 0 nothingLoaded ∧
      ¬ NativeExportsKept (libraryEnv [⟨"net", ["connect"]⟩, ⟨"gui", ["draw"]⟩]) 0 nothingLoaded := by
  refine ⟨libraries_loadable _, fun kept => ?_⟩
  have resolved := kept.resolved (by decide) (by decide) ⟨"net", ["connect"]⟩ (by decide) "connect"
    (by decide) rfl
  exact absurd resolved (by decide)

end CodeMods

end N64ModernRuntime.Librecomp
