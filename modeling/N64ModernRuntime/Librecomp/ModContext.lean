import Mathlib.Data.Finset.Insert
import N64ModernRuntime.Lib.Worklist

/-!
# mods.cpp: the opened mods of a `ModContext`

The mods that a scan has opened, which of them are enabled, the order in which
they are shown, and the requests to the configuration thread.  A callback that
a content type does not have is a null pointer in the source; here it is
`false`.
-/

set_option autoImplicit false

namespace N64ModernRuntime.Librecomp

/-- `emplace` on an `unordered_map`: a key that is there keeps its value. -/
def emplace {α : Type} (map : String → Option α) (key : String) (value : α) :
    String → Option α :=
  fun k => (map k).or (if k = key then some value else none)

theorem emplace_self {α : Type} (map : String → Option α) (key : String) (value : α) :
    emplace map key value key = (map key).or (some value) := by
  rw [emplace, if_pos rfl]

theorem emplace_of_ne {α : Type} (map : String → Option α) {key other : String} (value : α)
    (differ : other ≠ key) : emplace map key value other = map other := by
  rw [emplace, if_neg differ, Option.or_none]

structure Version where
  major : Int
  minor : Int
  patch : Int
  deriving DecidableEq, Repr

/-- `operator<=>` does not look at the suffix. -/
def Version.lt (v w : Version) : Bool :=
  v.major < w.major ||
    (v.major = w.major && (v.minor < w.minor || (v.minor = w.minor && v.patch < w.patch)))

structure Dependency where
  modId : String
  version : Version
  optional : Bool
  deriving DecidableEq, Repr

/-- The variants of `ConfigOption`, with what is checked of them. -/
inductive ConfigOption where
  | none
  | enum (options : List String)
  | number
  | string
  deriving DecidableEq, Repr

/-- `ConfigValueVariant`; a double is kept as its bits. -/
inductive ConfigValueVariant where
  | monostate
  | uint32 (value : UInt32)
  | double (bits : UInt64)
  | string (value : String)
  deriving DecidableEq, Repr

abbrev ConfigStorage := String → Option ConfigValueVariant

abbrev ConfigSchema := String → Option ConfigOption

structure ModManifest where
  modId : String
  dependencies : List Dependency
  configSchema : ConfigSchema
  minimumRecompVersion : Version
  version : Version
  enabledByDefault : Bool

structure ModContentType where
  allowRuntimeToggle : Bool
  onEnabled : Bool
  onDisabled : Bool
  onReordered : Bool
  deriving DecidableEq, Repr

abbrev ModContentTypeId := Nat

structure ModHandle where
  manifest : ModManifest
  configStorage : ConfigStorage
  gameIndices : List Nat
  contentTypes : List ModContentTypeId
  runtimeToggleable : Bool

def ModHandle.modId (mod : ModHandle) : String := mod.manifest.modId

def ModHandle.isForGame (mod : ModHandle) (gameIndex : Nat) : Bool := gameIndex ∈ mod.gameIndices

def ModHandle.isRuntimeToggleable (mod : ModHandle) : Bool := mod.runtimeToggleable

inductive ModConfigQueueVariant where
  | saveMod (modId : String)
  | save
  | finish
  deriving DecidableEq, Repr

/-- The part of `ModContext` that does not belong to loaded code.  In
`activeGame` and `modOrderLookup`, `none` stands for `(size_t)-1`. -/
structure ModContext where
  contentTypes : List ModContentType
  modGameIds : String → Option Nat
  openedMods : List ModHandle
  openedModsOrder : List Nat
  modOrderLookup : List (Option Nat)
  modIds : Finset String
  enabledMods : Finset String
  autoEnabledMods : Finset String
  activeGame : Option Nat
  modConfigurationThreadQueue : List ModConfigQueueVariant

namespace ModContext

/-- `opened_mods_by_id`: `emplace` keeps the first mod of an id. -/
def openedModsById (c : ModContext) (id : String) : Option Nat :=
  c.openedMods.findIdx? fun mod => mod.modId = id

/-- `opened_mods[opened_mods_by_id[id]]` -/
def findMod (c : ModContext) (id : String) : Option ModHandle :=
  c.openedMods.find? fun mod => mod.modId = id

theorem findMod_modId {c : ModContext} {id : String} {mod : ModHandle}
    (found : c.findMod id = some mod) : mod.modId = id := by
  simpa using List.find?_some found

theorem findMod_mem {c : ModContext} {id : String} {mod : ModHandle}
    (found : c.findMod id = some mod) : mod ∈ c.openedMods :=
  List.mem_of_find?_eq_some found

/-! ## Opening mods -/

def isContentRuntimeToggleable (c : ModContext) (type : ModContentTypeId) : Bool :=
  match c.contentTypes[type]? with
  | some contentType => contentType.allowRuntimeToggle
  | none => false

def newHandle (c : ModContext) (manifest : ModManifest) (configStorage : ConfigStorage)
    (gameIndices : List Nat) (contentTypes : List ModContentTypeId) : ModHandle :=
  { manifest := manifest
    configStorage := configStorage
    gameIndices := gameIndices
    contentTypes := contentTypes
    runtimeToggleable := contentTypes.all c.isContentRuntimeToggleable }

def addOpenedMod (c : ModContext) (manifest : ModManifest) (configStorage : ConfigStorage)
    (gameIndices : List Nat) (contentTypes : List ModContentTypeId) : ModContext :=
  { c with
    openedMods := c.openedMods ++ [c.newHandle manifest configStorage gameIndices contentTypes]
    openedModsOrder := c.openedModsOrder ++ [c.openedMods.length] }

/-- `open_mod_from_manifest` after the manifest is parsed: the id is taken even
where a game of the mod is not known. -/
def openModFromManifest (c : ModContext) (manifest : ModManifest) (modGameIds : List String)
    (contentTypes : List ModContentTypeId) (configStorage : ConfigStorage) : ModContext :=
  if manifest.modId ∈ c.modIds then c
  else
    let taken := { c with modIds := insert manifest.modId c.modIds }
    match modGameIds.mapM c.modGameIds with
    | none => taken
    | some gameIndices => taken.addOpenedMod manifest configStorage gameIndices contentTypes

def closeMods (c : ModContext) : ModContext :=
  { c with
    openedMods := []
    openedModsOrder := []
    modOrderLookup := []
    modIds := ∅
    enabledMods := ∅
    autoEnabledMods := ∅ }

structure UniqueIds (c : ModContext) : Prop where
  nodup : (c.openedMods.map ModHandle.modId).Nodup
  taken : ∀ mod ∈ c.openedMods, mod.modId ∈ c.modIds

theorem closeMods_unique (c : ModContext) : c.closeMods.UniqueIds :=
  ⟨List.nodup_nil, by simp [closeMods]⟩

theorem openModFromManifest_unique {c : ModContext} (unique : c.UniqueIds)
    (manifest : ModManifest) (modGameIds : List String) (contentTypes : List ModContentTypeId)
    (configStorage : ConfigStorage) :
    (c.openModFromManifest manifest modGameIds contentTypes configStorage).UniqueIds := by
  unfold openModFromManifest
  by_cases known : manifest.modId ∈ c.modIds
  · rwa [if_pos known]
  · rw [if_neg known]
    cases modGameIds.mapM c.modGameIds with
    | none =>
        exact ⟨unique.nodup, fun mod opened => Finset.mem_insert_of_mem (unique.taken mod opened)⟩
    | some gameIndices =>
        constructor
        · simp only [addOpenedMod, List.map_append, List.map_cons, List.map_nil]
          refine List.nodup_append.mpr ⟨unique.nodup, List.nodup_singleton _, ?_⟩
          intro id used id' new same
          obtain ⟨mod, opened, rfl⟩ := List.mem_map.mp used
          rw [List.mem_singleton.mp new] at same
          have same_id : mod.modId = manifest.modId := same
          exact known (same_id ▸ unique.taken mod opened)
        · intro mod opened
          rcases List.mem_append.mp opened with opened | new
          · exact Finset.mem_insert_of_mem (unique.taken mod opened)
          · rw [List.mem_singleton.mp new]
            exact Finset.mem_insert_self manifest.modId c.modIds

theorem findMod_of_mem {c : ModContext} (distinct : (c.openedMods.map ModHandle.modId).Nodup)
    {mod : ModHandle} (opened : mod ∈ c.openedMods) : c.findMod mod.modId = some mod := by
  have exists_mod : (c.openedMods.find? fun m => m.modId = mod.modId).isSome :=
    List.find?_isSome.mpr ⟨mod, opened, by simp⟩
  obtain ⟨other, found⟩ := Option.isSome_iff_exists.mp exists_mod
  have same : other.modId = mod.modId := findMod_modId found
  have := List.inj_on_of_nodup_map distinct (findMod_mem found) opened same
  rw [ModContext.findMod, found, this]

end ModContext

/-! ## Enabling mods -/

structure ContentCall where
  typeId : ModContentTypeId
  modId : String
  enabled : Bool
  deriving DecidableEq, Repr

/-- The order in which an `unordered_set` is iterated. -/
structure SetOrder where
  list : Finset String → List String
  mem : ∀ (s : Finset String) (x : String), x ∈ list s ↔ x ∈ s
  nodup : ∀ s : Finset String, (list s).Nodup

/-- The locals of the worklist loops in `enable_mod`; the top of the stack is
the head of `pending`. -/
structure Walk where
  autoEnabledMods : Finset String
  pending : List String
  calls : List ContentCall

namespace ModContext

def onEnabled (c : ModContext) (mod : ModHandle) : List ContentCall :=
  (mod.contentTypes.filter fun type => (c.contentTypes[type]?.map (·.onEnabled)).getD false).map
    fun type => ⟨type, mod.modId, true⟩

def onDisabled (c : ModContext) (mod : ModHandle) : List ContentCall :=
  (mod.contentTypes.filter fun type => (c.contentTypes[type]?.map (·.onDisabled)).getD false).map
    fun type => ⟨type, mod.modId, false⟩

/-- The body of the loop over the dependencies of `currentMod`. -/
def autoEnable (fire : ModHandle → List ContentCall) (currentMod : ModHandle) (w : Walk)
    (dependency : Dependency) : Walk :=
  if dependency.optional ∨ dependency.modId ∈ w.autoEnabledMods then w
  else
    { autoEnabledMods := insert dependency.modId w.autoEnabledMods
      pending := dependency.modId :: w.pending
      calls := w.calls ++ fire currentMod }

def visitPending (c : ModContext) (fire : ModHandle → List ContentCall) (w : Walk) : Walk :=
  match w.pending with
  | [] => w
  | currentId :: rest =>
    match c.findMod currentId with
    | none => { w with pending := rest }
    | some currentMod =>
      currentMod.manifest.dependencies.foldl (autoEnable fire currentMod) { w with pending := rest }

/-- `while (!pending.empty())`, for at most so many turns. -/
def walkPending (c : ModContext) (fire : ModHandle → List ContentCall) : Nat → Walk → Walk
  | 0, w => w
  | turns + 1, w => c.walkPending fire turns (c.visitPending fire w)

/-- More turns than the loop takes (`walkFrom_ends`). -/
def turns (c : ModContext) : Nat :=
  2 * (c.openedMods.flatMap fun mod => mod.manifest.dependencies).length + 1

def walkFrom (c : ModContext) (fire : ModHandle → List ContentCall)
    (autoEnabledMods : Finset String) (root : String) : Walk :=
  c.walkPending fire c.turns ⟨autoEnabledMods, [root], []⟩

/-- `rebuilt_auto_enabled` -/
def rebuildAutoEnabled (c : ModContext) (roots : List String) : Finset String :=
  roots.foldl (fun rebuilt root => (c.walkFrom (fun _ => []) rebuilt root).autoEnabledMods) ∅

/-- The calls for one id of the old auto-enabled mods. -/
def dropPrevious (c : ModContext) (rebuilt : Finset String) (previousId : String) :
    List ContentCall :=
  if previousId ∈ rebuilt then []
  else
    match c.findMod previousId with
    | some previousMod => c.onDisabled previousMod
    | none => []

/-- The `on_disabled` calls for the ids in `previous` that are not in `rebuilt`. -/
def disableDropped (c : ModContext) (previous : List String) (rebuilt : Finset String) :
    List ContentCall :=
  previous.flatMap (c.dropPrevious rebuilt)

def setEnabled (c : ModContext) (enabledMods autoEnabledMods : Finset String) : ModContext :=
  { c with enabledMods := enabledMods, autoEnabledMods := autoEnabledMods }

/-- The calls that enabling makes for a mod: none before mods are loaded. -/
def fireEnabled (c : ModContext) (mod : ModHandle) : List ContentCall :=
  if c.activeGame.isSome then c.onEnabled mod else []

def enableBranch (c : ModContext) (modId : String) (mod : ModHandle) :
    ModContext × List ContentCall :=
  if modId ∈ c.enabledMods then (c, [])
  else
    (c.setEnabled (insert modId c.enabledMods)
        (c.walkFrom c.fireEnabled c.autoEnabledMods modId).autoEnabledMods,
      c.fireEnabled mod ++ (c.walkFrom c.fireEnabled c.autoEnabledMods modId).calls)

/-- `rebuilt_auto_enabled` once `modId` is out of the enabled mods. -/
def rebuiltWithout (c : ModContext) (order : SetOrder) (modId : String) : Finset String :=
  c.rebuildAutoEnabled (order.list (c.enabledMods.erase modId))

def disableBranch (c : ModContext) (order : SetOrder) (modId : String) (mod : ModHandle) :
    ModContext × List ContentCall :=
  if modId ∈ c.enabledMods then
    (c.setEnabled (c.enabledMods.erase modId) (c.rebuiltWithout order modId),
      if c.activeGame.isSome then
        c.onDisabled mod ++
          c.disableDropped (order.list c.autoEnabledMods) (c.rebuiltWithout order modId)
      else [])
  else (c, [])

section Frame

variable (c : ModContext) (order : SetOrder) (modId : String) (mod : ModHandle)

@[simp] theorem enableBranch_openedMods :
    (c.enableBranch modId mod).1.openedMods = c.openedMods := by
  unfold enableBranch
  split <;> rfl

@[simp] theorem enableBranch_activeGame :
    (c.enableBranch modId mod).1.activeGame = c.activeGame := by
  unfold enableBranch
  split <;> rfl

@[simp] theorem disableBranch_openedMods :
    (c.disableBranch order modId mod).1.openedMods = c.openedMods := by
  unfold disableBranch
  split <;> rfl

@[simp] theorem disableBranch_activeGame :
    (c.disableBranch order modId mod).1.activeGame = c.activeGame := by
  unfold disableBranch
  split <;> rfl

end Frame

def rejects (c : ModContext) (mod : ModHandle) : Bool :=
  match c.activeGame with
  | none => false
  | some game => !mod.isRuntimeToggleable || !mod.isForGame game

def enqueue (c : ModContext) (request : ModConfigQueueVariant) : ModContext :=
  { c with modConfigurationThreadQueue := c.modConfigurationThreadQueue ++ [request] }

def enableMod (c : ModContext) (order : SetOrder) (modId : String) (enabled triggerSave : Bool) :
    ModContext × List ContentCall :=
  match c.findMod modId with
  | none => (c, [])
  | some mod =>
    if c.rejects mod then (c, [])
    else
      let toggled := if enabled then c.enableBranch modId mod else c.disableBranch order modId mod
      (if triggerSave then toggled.1.enqueue .save else toggled.1, toggled.2)

/-- A call of `enable_mod` changes the two sets and the queue, and nothing else. -/
theorem enableMod_frame (c : ModContext) (order : SetOrder) (modId : String)
    (enabled triggerSave : Bool) :
    ∃ enabledMods autoEnabledMods queue,
      (c.enableMod order modId enabled triggerSave).1 =
        { c with
          enabledMods := enabledMods
          autoEnabledMods := autoEnabledMods
          modConfigurationThreadQueue := queue } := by
  have branches : ∀ mod, ∃ enabledMods autoEnabledMods,
      (if enabled then c.enableBranch modId mod else c.disableBranch order modId mod).1
        = c.setEnabled enabledMods autoEnabledMods := by
    intro mod
    cases enabled with
    | true =>
        simp only [if_true, enableBranch]
        split
        · exact ⟨c.enabledMods, c.autoEnabledMods, rfl⟩
        · exact ⟨_, _, rfl⟩
    | false =>
        simp only [Bool.false_eq_true, if_false, disableBranch]
        split
        · exact ⟨_, _, rfl⟩
        · exact ⟨c.enabledMods, c.autoEnabledMods, rfl⟩
  unfold enableMod
  cases c.findMod modId with
  | none => exact ⟨c.enabledMods, c.autoEnabledMods, c.modConfigurationThreadQueue, rfl⟩
  | some mod =>
      dsimp only
      by_cases rejected : c.rejects mod = true
      · rw [if_pos rejected]
        exact ⟨c.enabledMods, c.autoEnabledMods, c.modConfigurationThreadQueue, rfl⟩
      · rw [if_neg rejected]
        obtain ⟨enabledMods, autoEnabledMods, toggled⟩ := branches mod
        refine ⟨enabledMods, autoEnabledMods,
          if triggerSave then c.modConfigurationThreadQueue ++ [.save]
            else c.modConfigurationThreadQueue, ?_⟩
        dsimp only
        rw [toggled]
        cases triggerSave <;> rfl

end ModContext

end N64ModernRuntime.Librecomp
