import Mathlib.Data.Set.Basic
import N64ModernRuntime.Librecomp.NativeExports

/-!
# mods.cpp: what loading adds to the tables

A load that fails is to leave `func_map` and the tables of the mods as they were.
Most of its steps do not touch them; the others only ever add to them, so that
what a whole load has added shows in the marks that are new after it.
-/

set_option autoImplicit false

namespace N64ModernRuntime.Librecomp

open FailingSteps

namespace CodeMods

/-! ## Marks -/

/-- What the phases only ever add to. -/
inductive Mark
  | exported (index : Nat) (name : String)
  | event (index : Nat) (name : String)
  | library (index count : Nat)
  | published (address : UInt32)

/-- The marks of a load that began with `base` code handles. -/
def marks (base : Nat) (s : CodeMods) : Set Mark
  | .exported index name => ((s.mods index).exportsByName name).isSome
  | .event index name => ((s.mods index).eventsByName name).isSome
  | .library index count => count < (s.mods index).nativeLibraries.length
  | .published address => ∃ handle i, base ≤ handle ∧ s.funcMap address = some (.code handle i)

/-! ## Steps that leave the tables alone -/

structure ModTables where
  exportsByName : String → Option Nat
  eventsByName : String → Option Nat
  nativeLibraryExports : String → Option GenericFunction
  nativeLibraries : List String

def tables (s : CodeMods) (index : Nat) : ModTables :=
  ⟨(s.mods index).exportsByName, (s.mods index).eventsByName,
    (s.mods index).nativeLibraryExports, (s.mods index).nativeLibraries⟩

structure SameTables (s t : CodeMods) : Prop where
  tables : t.tables = s.tables
  funcMap : t.funcMap = s.funcMap
  handles : s.handles.length ≤ t.handles.length

theorem SameTables.refl (s : CodeMods) : SameTables s s := ⟨rfl, rfl, Nat.le_refl _⟩

theorem SameTables.trans {s t u : CodeMods} (first : SameTables s t) (second : SameTables t u) :
    SameTables s u :=
  ⟨second.tables.trans first.tables, second.funcMap.trans first.funcMap,
    Nat.le_trans first.handles second.handles⟩

section SameTables
variable (env : LoadEnv) (index : Nat) (s : CodeMods)

theorem setMod_tables {f : ModCode → ModCode}
    (same : ∀ m : ModCode, (f m).exportsByName = m.exportsByName ∧
      (f m).eventsByName = m.eventsByName ∧ (f m).nativeLibraryExports = m.nativeLibraryExports ∧
      (f m).nativeLibraries = m.nativeLibraries) : (s.setMod index f).tables = s.tables := by
  funext other
  rw [CodeMods.tables, CodeMods.tables, setMod]
  by_cases here : other = index
  · subst here
    obtain ⟨exports, events, native, libraries⟩ := same (s.mods other)
    dsimp only
    rw [Function.update_self, exports, events, native, libraries]
  · dsimp only
    rw [Function.update_of_ne here]

theorem updateHandle_same (f : CodeHandle → CodeHandle) :
    SameTables s (s.updateHandle index f) := by
  unfold updateHandle
  split
  · exact .refl s
  · exact ⟨rfl, rfl, Nat.le_of_eq (List.length_modify ..).symm⟩

theorem populateReferenceSymbols_same :
    SameTables s (populateReferenceSymbols env index s).1 := by
  unfold populateReferenceSymbols
  dsimp only
  split
  · exact .refl s
  · exact updateHandle_same index s _

theorem lookupImport_same {importIndex : Nat} {id name : String} {t : CodeMods}
    {func : Option GenericFunction}
    (found : lookupImport env index importIndex id name s = .ok (t, func)) : SameTables s t := by
  have shim (f : ShimFunction) : SameTables s (s.newShim f).1 := ⟨rfl, rfl, Nat.le_refl _⟩
  unfold lookupImport at found
  split at found
  · split at found
    · cases found
      exact .refl s
    · split at found
      · cases found
        exact shim _
      · cases found
        exact .refl s
  · split at found
    · cases found
      exact .refl s
    · split at found
      · cases found
        exact .refl s
      · split at found
        · cases found
          exact shim _
        · cases found

theorem bindImport_same (symbol : ImportSymbol × Nat) :
    SameTables s (bindImport env index symbol s).1 := by
  unfold bindImport
  dsimp only
  split
  · exact .refl s
  · rename_i found
    exact lookupImport_same env index s found
  · rename_i found
    exact (lookupImport_same env index s found).trans (updateHandle_same index _ _)

theorem registerCallback_same (callback : Callback) :
    SameTables s (registerCallback env index callback s).1 := by
  unfold registerCallback
  dsimp only
  split
  · exact .refl s
  · split
    · exact .refl s
    · exact .refl s
    · exact ⟨rfl, rfl, Nat.le_refl _⟩

theorem registerHook_same (hook : FunctionHook) : SameTables s (registerHook index hook s).1 := by
  unfold registerHook
  split
  · exact .refl s
  · exact ⟨rfl, rfl, Nat.le_refl _⟩

theorem installReplacement_same (replacement : FunctionReplacement) :
    SameTables s (installReplacement env index replacement s).1 := by
  unfold installReplacement
  split
  · exact .refl s
  · split
    · exact .refl s
    · split
      · exact .refl s
      · exact ⟨rfl, rfl, Nat.le_refl _⟩

theorem untilError_same {ε : Type} {fs : List (Step CodeMods ε)}
    (steps : ∀ f ∈ fs, ∀ s, SameTables s (f s).1) : SameTables s (untilError fs s).1 :=
  untilError_related SameTables.refl SameTables.trans steps s

theorem resolveCodeDependencies_same : SameTables s (resolveCodeDependencies env index s).1 := by
  apply untilError_same
  intro f mem s
  simp only [List.mem_cons, List.not_mem_nil, or_false] at mem
  rcases mem with rfl | rfl | rfl | rfl | rfl | rfl
  · exact populateReferenceSymbols_same env index s
  · refine untilError_same s fun f mem t => ?_
    obtain ⟨symbol, -, rfl⟩ := List.mem_map.mp mem
    exact bindImport_same env index t symbol
  · refine untilError_same s fun f mem t => ?_
    obtain ⟨callback, -, rfl⟩ := List.mem_map.mp mem
    exact registerCallback_same env index t callback
  · refine untilError_same s fun f mem t => ?_
    obtain ⟨hook, -, rfl⟩ := List.mem_map.mp mem
    exact registerHook_same index t hook
  · exact updateHandle_same index s _
  · refine untilError_same s fun f mem t => ?_
    obtain ⟨replacement, -, rfl⟩ := List.mem_map.mp mem
    exact installReplacement_same env index t replacement

theorem applyRegenlist_same {list : RegeneratedList} {rom : List UInt8} {t : CodeMods}
    (applied : s.applyRegenlist env list rom = some t) : SameTables s t := by
  unfold applyRegenlist at applied
  split at applied
  · cases applied
    refine ⟨rfl, rfl, ?_⟩
    change _ ≤ (s.handles ++ _).length
    rw [List.length_append]
    exact Nat.le_add_right _ _
  · cases applied

theorem regenerateLeftovers_same : SameTables s (regenerateLeftovers env s).1 := by
  have types : SameTables s s.setHookTypes := ⟨rfl, rfl, Nat.le_refl _⟩
  unfold regenerateLeftovers
  split
  · exact types
  · refine types.trans ?_
    unfold regenerateWithHooks
    split
    · exact .refl _
    · refine untilError_same _ fun f mem t => ?_
      simp only [List.mem_cons, List.not_mem_nil, or_false] at mem
      rcases mem with rfl | rfl
      · dsimp only [regenerateVanilla]
        split
        · exact .refl t
        · split
          · exact ⟨rfl, rfl, Nat.le_refl _⟩
          · rename_i applied
            have same := applyRegenlist_same env t applied
            exact ⟨same.tables, same.funcMap, same.handles⟩
      · dsimp only [regeneratePatched]
        split
        · exact .refl t
        · split
          · exact .refl t
          · split
            · exact ⟨rfl, rfl, Nat.le_refl _⟩
            · rename_i applied
              have same := applyRegenlist_same env t applied
              exact ⟨same.tables, same.funcMap, same.handles⟩

end SameTables

/-! ## Steps that add to the tables -/

def AddsMarks (base : Nat) (s t : CodeMods) : Prop :=
  base ≤ s.handles.length → base ≤ t.handles.length ∧ marks base s ⊆ marks base t

theorem AddsMarks.refl (base : Nat) (s : CodeMods) : AddsMarks base s s :=
  fun enough => ⟨enough, subset_rfl⟩

theorem AddsMarks.trans {base : Nat} {s t u : CodeMods} (first : AddsMarks base s t)
    (second : AddsMarks base t u) : AddsMarks base s u := fun enough =>
  ⟨(second (first enough).1).1, (first enough).2.trans (second (first enough).1).2⟩

theorem SameTables.marks_eq {s t : CodeMods} (same : SameTables s t) (base : Nat) :
    marks base t = marks base s := by
  have table (index : Nat) := congrFun same.tables index
  simp only [CodeMods.tables, ModTables.mk.injEq] at table
  ext mark
  cases mark with
  | exported index name =>
      change ((t.mods index).exportsByName name).isSome = true ↔ _
      rw [(table index).1]
      rfl
  | event index name =>
      change ((t.mods index).eventsByName name).isSome = true ↔ _
      rw [(table index).2.1]
      rfl
  | library index count =>
      change count < (t.mods index).nativeLibraries.length ↔ _
      rw [(table index).2.2.2]
      rfl
  | published address =>
      change (∃ handle i, base ≤ handle ∧ t.funcMap address = some (.code handle i)) ↔ _
      rw [same.funcMap]
      rfl

theorem SameTables.adds {s t : CodeMods} (same : SameTables s t) (base : Nat) :
    AddsMarks base s t := fun enough =>
  ⟨Nat.le_trans enough same.handles, (same.marks_eq base).symm.subset⟩

/-! ## Parts of a load in which the process stays -/

/-- The state after a part of a load in which the process, the tables, and the first `base`
code handles have stayed, and the mods that are not `renewed` have kept their handles. -/
structure Keeps (base : Nat) (renewed : Set Nat) (s t : CodeMods) : Prop where
  tables : t.tables = s.tables
  bytes : t.bytes = s.bytes
  funcMap : t.funcMap = s.funcMap
  patchedFuncs : t.patchedFuncs = s.patchedFuncs
  regenerated : t.regeneratedCodeHandle = s.regeneratedCodeHandle
  basePatched : t.basePatchedCodeHandle = s.basePatchedCodeHandle
  codeHandle : ∀ index ∉ renewed, (t.mods index).codeHandle = (s.mods index).codeHandle
  handles : ∀ handle < base, t.handles[handle]? = s.handles[handle]?
  grown : s.handles.length ≤ t.handles.length

namespace Keeps

variable {base : Nat} {renewed : Set Nat} {s t u : CodeMods}

theorem refl (base : Nat) (renewed : Set Nat) (s : CodeMods) : Keeps base renewed s s :=
  ⟨rfl, rfl, rfl, rfl, rfl, rfl, fun _ _ => rfl, fun _ _ => rfl, Nat.le_refl _⟩

theorem trans (first : Keeps base renewed s t) (second : Keeps base renewed t u) :
    Keeps base renewed s u where
  tables := second.tables.trans first.tables
  bytes := second.bytes.trans first.bytes
  funcMap := second.funcMap.trans first.funcMap
  patchedFuncs := second.patchedFuncs.trans first.patchedFuncs
  regenerated := second.regenerated.trans first.regenerated
  basePatched := second.basePatched.trans first.basePatched
  codeHandle index other := (second.codeHandle index other).trans (first.codeHandle index other)
  handles handle old := (second.handles handle old).trans (first.handles handle old)
  grown := Nat.le_trans first.grown second.grown

theorem mono {other : Set Nat} (keeps : Keeps base renewed s t) (sub : renewed ⊆ other) :
    Keeps base other s t :=
  { keeps with codeHandle := fun index out => keeps.codeHandle index fun mem => out (sub mem) }

theorem sameTables (keeps : Keeps base renewed s t) : SameTables s t :=
  ⟨keeps.tables, keeps.funcMap, keeps.grown⟩

end Keeps

section SetMod
variable (index : Nat) (s : CodeMods)

theorem setMod_other {f : ModCode → ModCode} {other : Nat} (apart : other ≠ index) :
    (s.setMod index f).mods other = s.mods other := Function.update_of_ne apart _ _

theorem setMod_keeps (base : Nat) (renewed : Set Nat) {f : ModCode → ModCode}
    (same : ∀ m : ModCode, (f m).exportsByName = m.exportsByName ∧
      (f m).eventsByName = m.eventsByName ∧ (f m).nativeLibraryExports = m.nativeLibraryExports ∧
      (f m).nativeLibraries = m.nativeLibraries)
    (handle : ∀ m : ModCode, (f m).codeHandle = m.codeHandle) :
    Keeps base renewed s (s.setMod index f) := by
  refine ⟨setMod_tables index s same, rfl, rfl, rfl, rfl, rfl, ?_, fun _ _ => rfl, Nat.le_refl _⟩
  intro other _
  by_cases here : other = index
  · rw [here, setMod_self, handle]
  · rw [setMod_other index s here]

end SetMod

/-! ## The mods and their dependencies -/

end CodeMods

def ModContext.hasId (c : ModContext) (id : String) (index : Nat) : Bool :=
  (c.openedMods[index]?).any fun mod => decide (mod.modId = id)

def ModContext.SameManifests (c d : ModContext) : Prop :=
  ∀ index : Nat, (d.openedMods[index]?).map ModHandle.manifest =
    (c.openedMods[index]?).map ModHandle.manifest

/-- A mod that is not loaded: its runtime is too old for it. -/
def ModContext.LoadFails (c : ModContext) (env : LoadEnv) (index : Nat) : Prop :=
  ∃ mod, c.openedMods[index]? = some mod ∧ (c.loadMod env.projectVersion mod).1 ≠ none

def ModContext.DependencyFails (c : ModContext) (lookup : String → Option Nat) (index : Nat) :
    Prop :=
  ∃ mod, c.openedMods[index]? = some mod ∧ ∃ d ∈ mod.manifest.dependencies, d.optional = false ∧
    ∀ dependency, (lookup d.modId).bind (fun i => c.openedMods[i]?) = some dependency →
      dependency.manifest.version.lt d.version = true

def ModContext.codeEnabled (c : ModContext) (env : LoadEnv) (lookup : String → Option Nat)
    (indices : List Nat) : List Nat :=
  indices.flatMap fun index =>
    match c.openedMods[index]? with
    | none => []
    | some mod => ((c.loadMod env.projectVersion mod).2.filter fun call =>
        decide (call.typeId = env.codeContentType)).filterMap fun call => lookup call.modId

theorem ModContext.SameManifests.refl (c : ModContext) : c.SameManifests c := fun _ => rfl

theorem ModContext.SameManifests.trans {c d e : ModContext} (first : c.SameManifests d)
    (second : d.SameManifests e) : c.SameManifests e :=
  fun index => (second index).trans (first index)

theorem ModContext.SameManifests.symm {c d : ModContext} (same : c.SameManifests d) :
    d.SameManifests c :=
  fun index => (same index).symm

theorem ModContext.disableRuntimeToggle_same (c : ModContext) (ids : List String) :
    c.SameManifests (c.disableRuntimeToggle ids) := by
  intro index
  change ((c.openedMods.map (ModHandle.disableRuntimeToggle ids))[index]?).map _ = _
  rw [List.getElem?_map, Option.map_map]
  congr 1
  funext mod
  exact disableRuntimeToggle_manifest ids mod

theorem ModContext.DependencyFails.congr {c d : ModContext} {lookup : String → Option Nat}
    {index : Nat} (same : c.SameManifests d) :
    d.DependencyFails lookup index ↔ c.DependencyFails lookup index := by
  have oneWay {c d : ModContext} (same : c.SameManifests d)
      (fails : d.DependencyFails lookup index) : c.DependencyFails lookup index := by
    obtain ⟨mod, here, dependency, mem, required, unmet⟩ := fails
    have manifest := same index
    rw [here] at manifest
    obtain ⟨other, here', manifest'⟩ := Option.map_eq_some_iff.mp manifest.symm
    refine ⟨other, here', dependency, by rw [manifest']; exact mem, required, ?_⟩
    intro found lookedUp
    obtain ⟨i, known, opened⟩ := Option.bind_eq_some_iff.mp lookedUp
    have manifest := same i
    rw [opened] at manifest
    obtain ⟨twin, twin_opened, twin_manifest⟩ := Option.map_eq_some_iff.mp manifest
    rw [← twin_manifest]
    exact unmet twin (Option.bind_eq_some_iff.mpr ⟨i, known, twin_opened⟩)
  exact ⟨oneWay same, oneWay same.symm⟩

namespace CodeMods

section LoadPass
variable {env : LoadEnv} {indices : List Nat} {s : CodeMods}

def lookupWith (s : CodeMods) (indices : List Nat) (id : String) : Option Nat :=
  (s.loadedModsById id).or (indices.find? (s.context.hasId id))

def loadPass (env : LoadEnv) (indices : List Nat) : Step CodeMods LoadFailure :=
  collect (indices.map (loadActiveMod env))

structure LoadsMod (env : LoadEnv) (index : Nat) (mod : ModHandle) (s t : CodeMods) : Prop where
  keeps : ∀ base renewed, Keeps base renewed s t
  context : t.context = s.context
  hookSlots : t.hookSlots = s.hookSlots
  loadedModsById : t.loadedModsById = emplace s.loadedModsById mod.modId index
  loadedCodeMods : t.loadedCodeMods = s.loadedCodeMods ++
    ((s.context.loadMod env.projectVersion mod).2.filter fun call =>
      decide (call.typeId = env.codeContentType)).filterMap fun call =>
        emplace s.loadedModsById mod.modId index call.modId

theorem loadActiveMod_loads (env : LoadEnv) {index : Nat} {mod : ModHandle}
    (here : s.context.openedMods[index]? = some mod) :
    LoadsMod env index mod s (loadActiveMod env index s).1 ∧
      ((loadActiveMod env index s).2 = [] ↔
        (s.context.loadMod env.projectVersion mod).1 = none) := by
  have emptied (base : Nat) (renewed : Set Nat) := setMod_keeps index s base renewed
    (f := fun m => { m with sectionLoadAddresses := [] }) (fun _ => ⟨rfl, rfl, rfl, rfl⟩)
    fun _ => rfl
  unfold loadActiveMod
  rw [here]
  refine ⟨⟨fun base renewed => ?_, rfl, rfl, rfl, rfl⟩, ?_⟩
  · exact ⟨(emptied base renewed).tables, rfl, rfl, rfl, rfl, rfl,
      (emptied base renewed).codeHandle, fun _ _ => rfl, Nat.le_refl _⟩
  · change List.map _ (s.context.loadMod env.projectVersion mod).1.toList = [] ↔ _
    rw [List.map_eq_nil_iff, Option.toList_eq_nil_iff]

theorem loadMod_calls {c : ModContext} {version : Version} {mod : ModHandle} :
    ∀ call ∈ (c.loadMod version mod).2, call.modId = mod.modId := by
  intro call mem
  unfold ModContext.loadMod at mem
  split at mem
  · cases mem
  · obtain ⟨type, -, rfl⟩ := List.mem_map.mp mem
    rfl

structure LoadsMods (env : LoadEnv) (indices : List Nat) (s t : CodeMods) : Prop where
  keeps : ∀ base renewed, Keeps base renewed s t
  context : t.context = s.context
  hookSlots : t.hookSlots = s.hookSlots
  loadedModsById : t.loadedModsById = s.lookupWith indices
  loadedCodeMods : t.loadedCodeMods =
    s.loadedCodeMods ++ s.context.codeEnabled env (s.lookupWith indices) indices

theorem hasId_of_opened {c : ModContext} {index : Nat} {mod : ModHandle}
    (here : c.openedMods[index]? = some mod) (id : String) :
    c.hasId id index = decide (mod.modId = id) := by
  rw [ModContext.hasId, here]
  rfl

theorem LoadsMod.lookupWith_eq {index : Nat} {mod : ModHandle} {t : CodeMods} (rest : List Nat)
    (here : s.context.openedMods[index]? = some mod) (loads : LoadsMod env index mod s t) :
    t.lookupWith rest = s.lookupWith (index :: rest) := by
  funext id
  rw [lookupWith, lookupWith, loads.context, loads.loadedModsById, emplace, List.find?_cons,
    hasId_of_opened here, Option.or_assoc]
  by_cases same : id = mod.modId
  · rw [if_pos same, decide_eq_true same.symm]
    rfl
  · rw [if_neg same, decide_eq_false (Ne.symm same)]
    rfl

theorem codeEnabled_cons {c : ModContext} {index : Nat} {mod : ModHandle}
    (lookup : String → Option Nat) (rest : List Nat)
    (here : c.openedMods[index]? = some mod) :
    c.codeEnabled env lookup (index :: rest) =
      (((c.loadMod env.projectVersion mod).2.filter fun call =>
        decide (call.typeId = env.codeContentType)).filterMap fun call => lookup call.modId) ++
        c.codeEnabled env lookup rest := by
  conv_lhs => rw [ModContext.codeEnabled, List.flatMap_cons, here]
  rfl

theorem loadPass_spec (env : LoadEnv) (indices : List Nat) (s : CodeMods)
    (opened : ∀ index ∈ indices, ∃ mod, s.context.openedMods[index]? = some mod) :
    LoadsMods env indices s (loadPass env indices s).1 ∧
      ((loadPass env indices s).2 = [] ↔ ∀ index ∈ indices, ¬ s.context.LoadFails env index) := by
  induction indices generalizing s with
  | nil =>
      refine ⟨⟨fun base renewed => .refl base renewed s, rfl, rfl, ?_, (List.append_nil _).symm⟩,
        iff_of_true rfl fun index mem => absurd mem List.not_mem_nil⟩
      funext id
      exact Option.or_none.symm
  | cons index rest ih =>
      obtain ⟨mod, here⟩ := opened index List.mem_cons_self
      obtain ⟨loads, good⟩ := loadActiveMod_loads env here
      have run : (loadPass env (index :: rest) s).1 =
        (loadPass env rest (loadActiveMod env index s).1).1 := rfl
      have errors : (loadPass env (index :: rest) s).2 = (loadActiveMod env index s).2 ++
        (loadPass env rest (loadActiveMod env index s).1).2 := rfl
      rw [run, errors]
      generalize (loadActiveMod env index s).1 = t at loads
      obtain ⟨later, ok⟩ := ih t (by
        rw [loads.context]
        exact fun other mem => opened other (List.mem_cons_of_mem index mem))
      have lookups := loads.lookupWith_eq rest here
      rw [loads.context] at ok
      refine ⟨⟨fun base renewed => (loads.keeps base renewed).trans (later.keeps base renewed),
        later.context.trans loads.context, later.hookSlots.trans loads.hookSlots,
        later.loadedModsById.trans lookups, ?_⟩, ?_⟩
      · rw [later.loadedCodeMods, loads.loadedCodeMods, lookups, loads.context, List.append_assoc,
          codeEnabled_cons _ rest here]
        congr 2
        refine List.filterMap_congr fun call mem => ?_
        rw [loadMod_calls call (List.mem_of_mem_filter mem), emplace_self, lookupWith,
          List.find?_cons, hasId_of_opened here, decide_eq_true rfl]
      · rw [List.append_eq_nil_iff, good, ok, List.forall_mem_cons]
        refine and_congr_left' ?_
        constructor
        · rintro none ⟨other, same, fails⟩
          cases here.symm.trans same
          exact fails none
        · intro good
          by_contra fails
          exact good ⟨mod, here, fails⟩

end LoadPass

section CheckPass
variable {env : LoadEnv} {index : Nat} {s t : CodeMods}

theorem manifestDependency_congr (same : s.context.SameManifests t.context) (index : Nat)
    (id : String) : t.manifestDependency index id = s.manifestDependency index id := by
  have dependencies (c : CodeMods) : c.manifestDependency index id =
      ((c.context.openedMods[index]?).map ModHandle.manifest).bind fun manifest =>
        manifest.dependencies.find? fun dependency => decide (dependency.modId = id) := by
    rw [manifestDependency, Option.bind_map]
    rfl
  rw [dependencies, dependencies, same index]

def checkPass (indices : List Nat) : Step CodeMods LoadFailure :=
  collect (indices.map checkActiveMod)

structure ChecksMods (s t : CodeMods) : Prop where
  keeps : ∀ base renewed, Keeps base renewed s t
  context : s.context.SameManifests t.context
  hookSlots : t.hookSlots = s.hookSlots
  loadedModsById : t.loadedModsById = s.loadedModsById
  loadedCodeMods : t.loadedCodeMods = s.loadedCodeMods

theorem ChecksMods.refl (s : CodeMods) : ChecksMods s s :=
  ⟨fun base renewed => .refl base renewed s, ModContext.SameManifests.refl _, rfl, rfl, rfl⟩

theorem ChecksMods.trans {u : CodeMods} (first : ChecksMods s t) (second : ChecksMods t u) :
    ChecksMods s u where
  keeps base renewed := (first.keeps base renewed).trans (second.keeps base renewed)
  context := first.context.trans second.context
  hookSlots := second.hookSlots.trans first.hookSlots
  loadedModsById := second.loadedModsById.trans first.loadedModsById
  loadedCodeMods := second.loadedCodeMods.trans first.loadedCodeMods

theorem checkActiveMod_checks (index : Nat) (s : CodeMods) :
    ChecksMods s (checkActiveMod index s).1 := by
  unfold checkActiveMod
  split
  · exact .refl s
  · exact ⟨fun _ _ => ⟨rfl, rfl, rfl, rfl, rfl, rfl, fun _ _ => rfl, fun _ _ => rfl, Nat.le_refl _⟩,
      ModContext.disableRuntimeToggle_same _ _, rfl, rfl, rfl⟩

theorem checkDependencies_eq_nil {mod : ModHandle} : s.checkDependencies mod = [] ↔
    ∀ d ∈ mod.manifest.dependencies, d.optional = false →
      ∃ dependency, s.loadedDependency d = some dependency ∧
        dependency.manifest.version.lt d.version = false := by
  rw [checkDependencies, List.filterMap_eq_nil_iff]
  constructor
  · intro met d mem required
    have good := met d (List.mem_filter.mpr ⟨mem, by rw [required]; rfl⟩)
    cases loaded : s.loadedDependency d with
    | none =>
        rw [loaded] at good
        cases good
    | some dependency =>
        rw [loaded] at good
        refine ⟨dependency, rfl, ?_⟩
        by_contra old
        rw [Bool.not_eq_false] at old
        dsimp only at good
        rw [if_pos old] at good
        cases good
  · intro met d mem
    obtain ⟨mem, required⟩ := List.mem_filter.mp mem
    obtain ⟨dependency, loaded, new⟩ := met d mem (Bool.not_eq_true' _ |>.mp required)
    rw [loaded]
    dsimp only
    rw [new]
    rfl

theorem checkActiveMod_ok : (checkActiveMod index s).2 = [] ↔
    ¬ s.context.DependencyFails s.loadedModsById index := by
  unfold checkActiveMod
  cases here : s.context.openedMods[index]? with
  | none =>
      refine iff_of_true rfl ?_
      rintro ⟨mod, opened, -⟩
      rw [here] at opened
      cases opened
  | some mod =>
      dsimp only
      rw [List.map_eq_nil_iff, checkDependencies_eq_nil]
      constructor
      · rintro met ⟨other, opened, d, mem, required, unmet⟩
        cases here.symm.trans opened
        obtain ⟨dependency, loaded, new⟩ := met d mem required
        rw [unmet dependency loaded] at new
        cases new
      · intro met d mem required
        by_contra none
        refine met ⟨mod, here, d, mem, required, fun dependency loaded => ?_⟩
        by_contra new
        exact none ⟨dependency, loaded, Bool.not_eq_true _ |>.mp new⟩

theorem checkPass_spec (indices : List Nat) (s : CodeMods) :
    ChecksMods s (checkPass indices s).1 ∧
      ((checkPass indices s).2 = [] ↔
        ∀ index ∈ indices, ¬ s.context.DependencyFails s.loadedModsById index) := by
  induction indices generalizing s with
  | nil => exact ⟨.refl s, iff_of_true rfl fun index mem => absurd mem List.not_mem_nil⟩
  | cons index rest ih =>
      have first := checkActiveMod_checks index s
      obtain ⟨later, ok⟩ := ih (checkActiveMod index s).1
      refine ⟨first.trans later, ?_⟩
      have errors : (checkPass (index :: rest) s).2 = (checkActiveMod index s).2 ++
        (checkPass rest (checkActiveMod index s).1).2 := rfl
      rw [errors, List.append_eq_nil_iff, ok, checkActiveMod_ok, List.forall_mem_cons,
        first.loadedModsById]
      refine and_congr_right fun _ => forall₂_congr fun other _ => ?_
      rw [ModContext.DependencyFails.congr first.context]

end CheckPass

end CodeMods

end N64ModernRuntime.Librecomp
