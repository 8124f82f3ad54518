import Mathlib.Logic.Function.Basic
import N64ModernRuntime.Librecomp.ContentCallbacks
import N64ModernRuntime.Librecomp.ModOrder

/-!
# mods.cpp: the configuration thread

The calls that change a setting put a request into the queue.  The thread takes
requests until none comes for a second, and then writes what they name; the
destructor asks it to end through the same queue.
-/

set_option autoImplicit false

namespace N64ModernRuntime.Librecomp

open Transition

/-! ## set_mod_config_value -/

def ConfigOption.accepts : ConfigOption → ConfigValueVariant → Bool
  | .enum options, .uint32 index => decide (index.toNat < options.length)
  | .number, .double _ => true
  | .string, .string _ => true
  | _, _ => false

namespace ModContext

/-- `mod.config_storage.value_map[option_id] = value` -/
def storeValue (c : ModContext) (modIndex : Nat) (optionId : String) (value : ConfigValueVariant) :
    ModContext :=
  { c with
    openedMods := c.openedMods.modify modIndex fun mod =>
      { mod with configStorage := Function.update mod.configStorage optionId (some value) } }

/-- A value that is turned away, or that no option has, still asks for a save. -/
def setModConfigValue (c : ModContext) (modIndex : Nat) (optionId : String)
    (value : ConfigValueVariant) : ModContext :=
  match c.openedMods[modIndex]? with
  | none => c
  | some mod =>
    match mod.manifest.configSchema optionId with
    | none => c.enqueue (.saveMod mod.modId)
    | some .none => c
    | some option =>
      (if option.accepts value then c.storeValue modIndex optionId value else c).enqueue
        (.saveMod mod.modId)

/-- The overload that takes an id. -/
def setModConfigValueOf (c : ModContext) (modId optionId : String) (value : ConfigValueVariant) :
    ModContext :=
  match c.openedModsById modId with
  | none => c
  | some modIndex => c.setModConfigValue modIndex optionId value

def acceptsValue (c : ModContext) (modIndex : Nat) (optionId : String) (value : ConfigValueVariant) :
    Option String :=
  match c.openedMods[modIndex]? with
  | none => none
  | some mod =>
    match mod.manifest.configSchema optionId with
    | none => none
    | some option => if option.accepts value then some mod.modId else none

/-- What `save_mods_config` is given. -/
def modsConfig (c : ModContext) : ModsConfig :=
  { enabledMods := c.enabledMods
    modOrder := c.openedModsOrder.filterMap fun modIndex =>
      c.openedMods[modIndex]?.map ModHandle.modId }

end ModContext

/-! ## The files -/

/-- A value in a file: an enumeration is kept as the text of its option. -/
inductive SavedValue where
  | string (value : String)
  | number (bits : UInt64)
  deriving DecidableEq, Repr

/-- `none` for a value of another variant, which is never stored. -/
def ConfigOption.save : ConfigOption → ConfigValueVariant → Option SavedValue
  | .enum options, .uint32 index => (options[index.toNat]?).map .string
  | .number, .double bits => some (.number bits)
  | .string, .string value => some (.string value)
  | _, _ => Option.none

theorem ConfigOption.save_accepted {option : ConfigOption} {value : ConfigValueVariant}
    (accepted : option.accepts value = true) : ∃ saved, option.save value = some saved := by
  cases option with
  | none => cases value <;> cases accepted
  | enum options =>
      cases value with
      | uint32 index =>
          have inside : index.toNat < options.length := of_decide_eq_true accepted
          exact ⟨.string options[index.toNat], by rw [save, List.getElem?_eq_getElem inside]; rfl⟩
      | monostate => cases accepted
      | double bits => cases accepted
      | string text => cases accepted
  | number =>
      cases value with
      | double bits => exact ⟨.number bits, rfl⟩
      | monostate => cases accepted
      | uint32 index => cases accepted
      | string text => cases accepted
  | string =>
      cases value with
      | string text => exact ⟨.string text, rfl⟩
      | monostate => cases accepted
      | uint32 index => cases accepted
      | double bits => cases accepted

/-- The configuration file of a mod, less the version of the runtime. -/
structure ModConfigFile where
  modId : String
  modVersion : Version
  storage : String → Option SavedValue

/-- The maps that hold what a batch saves; an entry of an earlier batch stays. -/
structure ModSnapshot where
  storage : ConfigStorage
  schema : ConfigSchema
  version : Version

def ModHandle.snapshot (mod : ModHandle) : ModSnapshot :=
  { storage := mod.configStorage
    schema := mod.manifest.configSchema
    version := mod.manifest.version }

/-- What `operator[]` of the maps makes of a missing id. -/
def ModSnapshot.empty : ModSnapshot := ⟨fun _ => none, fun _ => none, ⟨-1, -1, -1⟩⟩

def saveModConfigStorage (modId : String) (mod : ModSnapshot) : ModConfigFile :=
  { modId := modId
    modVersion := mod.version
    storage := fun optionId =>
      (mod.storage optionId).bind fun value =>
        (mod.schema optionId).bind fun option => option.save value }

/-! ## dirty_mod_configuration_thread_process -/

inductive ConfigThreadPc where
  /-- in `wait_dequeue` -/
  | waiting
  /-- in the loop with the timeout, or on its way out of it -/
  | draining
  /-- holding `opened_mods_mutex`; the mods of the batch that are to be copied -/
  | snapshotting (todo : List String)
  | writing (todo : List String)
  | checkSave
  | writingConfig (config : ModContext.ModsConfig)
  | finished

/-- The context, the locals of the thread and the files.  `accepted` holds the last
value that a call has stored, `askedSave` says that a call has asked for a save of
the enabled set and the order. -/
structure ConfigRun where
  context : ModContext
  destroying : Bool
  pc : ConfigThreadPc
  active : Bool
  pendingMods : Finset String
  pendingMod : String → Option ModSnapshot
  pendingConfigSave : Bool
  modFile : String → Option ModConfigFile
  configFile : Option ModContext.ModsConfig
  accepted : String → String → Option ConfigValueVariant
  askedSave : Bool

inductive ConfigLabel where
  | setModConfigValue (modIndex : Nat) (optionId : String) (value : ConfigValueVariant)
  | enableMod (modId : String) (enabled : Bool)
  | setModIndex (modGameId modId : String) (index : Nat)
  /-- the destructor, up to `join` -/
  | destroy
  /-- the thread, which takes the request at `choice` if it takes one -/
  | thread (choice : Nat)

namespace ConfigRun

def handleVariant (s : ConfigRun) : ModConfigQueueVariant → ConfigRun
  | .finish => { s with active := false }
  | .save => { s with pendingConfigSave := true }
  | .saveMod modId => { s with pendingMods := insert modId s.pendingMods }

def queue (s : ConfigRun) : List ModConfigQueueVariant := s.context.modConfigurationThreadQueue

def taking (s : ConfigRun) (variant : ModConfigQueueVariant) (choice : Nat) : ConfigRun :=
  { s.handleVariant variant with
    context := { s.context with modConfigurationThreadQueue := s.queue.eraseIdx choice }
    pc := .draining }

/-- The queue does not order the requests of different threads: any one may be next. -/
def dequeue (s : ConfigRun) (choice : Nat) : Option ConfigRun :=
  (s.queue[choice]?).map fun variant => s.taking variant choice

def snapshotMod (s : ConfigRun) (modId : String) : String → Option ModSnapshot :=
  match s.context.findMod modId with
  | none => s.pendingMod
  | some mod => Function.update s.pendingMod modId (some mod.snapshot)

def threadStep (order : SetOrder) (s : ConfigRun) (choice : Nat) : Option ConfigRun :=
  match s.pc with
  | .waiting => s.dequeue choice
  | .draining =>
    if !s.active then some { s with pc := .finished }
    else
      match s.queue with
      -- the second is over
      | [] => some { s with
          pc := if s.pendingMods = ∅ then .checkSave else .snapshotting (order.list s.pendingMods) }
      | _ :: _ => s.dequeue choice
  | .snapshotting [] => some { s with pc := .writing (order.list s.pendingMods) }
  | .snapshotting (modId :: todo) =>
    some { s with pendingMod := s.snapshotMod modId, pc := .snapshotting todo }
  | .writing [] => some { s with pendingMods := ∅, pc := .checkSave }
  | .writing (modId :: todo) =>
    some { s with
      modFile := Function.update s.modFile modId
        (some (saveModConfigStorage modId ((s.pendingMod modId).getD ModSnapshot.empty)))
      pc := .writing todo }
  | .checkSave =>
    some { s with
      pc := if s.pendingConfigSave then .writingConfig s.context.modsConfig else .waiting }
  | .writingConfig config =>
    some { s with configFile := some config, pendingConfigSave := false, pc := .waiting }
  | .finished => none

def holdsOpenedMods (s : ConfigRun) : Bool :=
  match s.pc with
  | .snapshotting _ => true
  | _ => false

def change (s : ConfigRun) (context : ModContext) : ConfigRun :=
  { s with
    context := context
    askedSave := s.askedSave ||
      decide (context.modConfigurationThreadQueue ≠ s.context.modConfigurationThreadQueue) }

def acceptValue (s : ConfigRun) (modIndex : Nat) (optionId : String) (value : ConfigValueVariant) :
    String → String → Option ConfigValueVariant :=
  match s.context.acceptsValue modIndex optionId value with
  | none => s.accepted
  | some modId =>
    Function.update s.accepted modId (Function.update (s.accepted modId) optionId (some value))

/-- No call is made once the context is being destroyed. -/
def step (order : SetOrder) (s : ConfigRun) : ConfigLabel → Option ConfigRun
  | .setModConfigValue modIndex optionId value =>
    if s.destroying then none
    else some { s with
      context := s.context.setModConfigValue modIndex optionId value
      accepted := s.acceptValue modIndex optionId value }
  | .enableMod modId enabled =>
    if s.destroying || s.holdsOpenedMods then none
    else some (s.change (s.context.enableMod order modId enabled true).1)
  | .setModIndex modGameId modId index =>
    if s.destroying || s.holdsOpenedMods then none
    else some (s.change (s.context.setModIndex modGameId modId index))
  | .destroy =>
    if s.destroying then none
    else some { s with context := s.context.enqueue .finish, destroying := true }
  | .thread choice => s.threadStep order choice

structure Started (s : ConfigRun) : Prop where
  unique : s.context.UniqueIds
  queue : s.queue = []
  destroying : s.destroying = false
  pc : s.pc = .waiting
  active : s.active = true
  pendingMods : s.pendingMods = ∅
  pendingConfigSave : s.pendingConfigSave = false
  accepted : ∀ modId optionId, s.accepted modId optionId = none
  askedSave : s.askedSave = false

/-- The destructor runs when every request has been taken and no batch waits for
its second to pass. -/
def Settled (s : ConfigRun) (l : ConfigLabel) : Prop :=
  match l with
  | .destroy => s.queue = [] ∧ s.pc ≠ .draining
  | _ => True

/-- The files hold the last accepted values, and the last enabled set and order. -/
structure Kept (s : ConfigRun) : Prop where
  values : ∀ modId optionId value, s.accepted modId optionId = some value →
    ∃ mod option file, s.context.findMod modId = some mod ∧
      mod.manifest.configSchema optionId = some option ∧ s.modFile modId = some file ∧
      file.storage optionId = option.save value ∧ (option.save value).isSome
  config : s.askedSave = true → s.configFile = some s.context.modsConfig

end ConfigRun

/-! ## What the calls do to the context -/

namespace ModContext

variable {c : ModContext}

theorem setModConfigValue_cases (c : ModContext) (modIndex : Nat) (optionId : String)
    (value : ConfigValueVariant) :
    (c.setModConfigValue modIndex optionId value = c ∧ c.acceptsValue modIndex optionId value = none) ∨
    ∃ mod, c.openedMods[modIndex]? = some mod ∧
      ((c.setModConfigValue modIndex optionId value = c.enqueue (.saveMod mod.modId) ∧
          c.acceptsValue modIndex optionId value = none) ∨
        ∃ option, mod.manifest.configSchema optionId = some option ∧ option.accepts value = true ∧
          c.setModConfigValue modIndex optionId value =
            (c.storeValue modIndex optionId value).enqueue (.saveMod mod.modId) ∧
          c.acceptsValue modIndex optionId value = some mod.modId) := by
  unfold setModConfigValue acceptsValue
  cases opened : c.openedMods[modIndex]? with
  | none => exact Or.inl ⟨rfl, rfl⟩
  | some mod =>
      dsimp only
      cases schema : mod.manifest.configSchema optionId with
      | none => exact Or.inr ⟨mod, rfl, Or.inl ⟨rfl, rfl⟩⟩
      | some option =>
          cases accepts : option.accepts value with
          | true =>
              refine Or.inr ⟨mod, rfl, Or.inr ⟨option, schema, accepts, ?_, if_pos accepts⟩⟩
              cases option with
              | none => cases value <;> cases accepts
              | enum options => dsimp only; rw [if_pos accepts]
              | number => dsimp only; rw [if_pos accepts]
              | string => dsimp only; rw [if_pos accepts]
          | false =>
              have turned_away : (if option.accepts value then some mod.modId else none) = none := by
                rw [accepts]
                rfl
              cases option with
              | none => exact Or.inl ⟨rfl, turned_away⟩
              | enum options => exact Or.inr ⟨mod, rfl, Or.inl ⟨by dsimp only; rw [accepts]; rfl, turned_away⟩⟩
              | number => exact Or.inr ⟨mod, rfl, Or.inl ⟨by dsimp only; rw [accepts]; rfl, turned_away⟩⟩
              | string => exact Or.inr ⟨mod, rfl, Or.inl ⟨by dsimp only; rw [accepts]; rfl, turned_away⟩⟩

def stored (mod : ModHandle) (optionId : String) (value : ConfigValueVariant) : ModHandle :=
  { mod with configStorage := Function.update mod.configStorage optionId (some value) }

theorem getElem?_storeValue (modIndex : Nat) (optionId : String) (value : ConfigValueVariant) (j : Nat) :
    (c.storeValue modIndex optionId value).openedMods[j]? =
      if modIndex = j then (c.openedMods[j]?).map (stored · optionId value) else c.openedMods[j]? := by
  rw [storeValue, List.getElem?_modify]
  by_cases here : modIndex = j
  · simp only [if_pos here]
    rfl
  · simp only [if_neg here]
    cases c.openedMods[j]? <;> rfl

theorem storeValue_modIds (modIndex : Nat) (optionId : String) (value : ConfigValueVariant) (j : Nat) :
    ((c.storeValue modIndex optionId value).openedMods[j]?).map ModHandle.modId =
      (c.openedMods[j]?).map ModHandle.modId := by
  rw [getElem?_storeValue]
  by_cases here : modIndex = j
  · rw [if_pos here, Option.map_map]
    rfl
  · rw [if_neg here]

theorem storeValue_nodup (modIndex : Nat) (optionId : String) (value : ConfigValueVariant)
    (distinct : (c.openedMods.map ModHandle.modId).Nodup) :
    ((c.storeValue modIndex optionId value).openedMods.map ModHandle.modId).Nodup := by
  have same : (c.storeValue modIndex optionId value).openedMods.map ModHandle.modId =
      c.openedMods.map ModHandle.modId := by
    apply List.ext_getElem?
    intro j
    rw [List.getElem?_map, List.getElem?_map, storeValue_modIds]
  rw [same]
  exact distinct

theorem storeValue_modsConfig (modIndex : Nat) (optionId : String) (value : ConfigValueVariant) :
    (c.storeValue modIndex optionId value).modsConfig = c.modsConfig := by
  unfold modsConfig
  have same : (fun j => ((c.storeValue modIndex optionId value).openedMods[j]?).map ModHandle.modId) =
      fun j => (c.openedMods[j]?).map ModHandle.modId :=
    funext (storeValue_modIds modIndex optionId value)
  rw [same]
  rfl

theorem findMod_stored {modIndex : Nat} (optionId : String) (value : ConfigValueVariant)
    (distinct : (c.openedMods.map ModHandle.modId).Nodup) {mod : ModHandle}
    (opened : c.openedMods[modIndex]? = some mod) :
    (c.storeValue modIndex optionId value).findMod mod.modId = some (stored mod optionId value) := by
  have there : (c.storeValue modIndex optionId value).openedMods[modIndex]? =
      some (stored mod optionId value) := by
    rw [getElem?_storeValue, if_pos rfl, opened]
    rfl
  exact findMod_of_mem (storeValue_nodup modIndex optionId value distinct) (List.mem_of_getElem? there)

theorem findMod_not_stored {modIndex : Nat} (optionId : String) (value : ConfigValueVariant)
    (distinct : (c.openedMods.map ModHandle.modId).Nodup) {mod other : ModHandle} {id : String}
    (opened : c.openedMods[modIndex]? = some mod) (differ : id ≠ mod.modId)
    (found : c.findMod id = some other) :
    (c.storeValue modIndex optionId value).findMod id = some other := by
  obtain ⟨j, at_j⟩ := List.getElem?_of_mem (findMod_mem found)
  have other_id : other.modId = id := findMod_modId found
  have apart : modIndex ≠ j := by
    rintro rfl
    cases opened.symm.trans at_j
    exact differ other_id.symm
  have there : (c.storeValue modIndex optionId value).openedMods[j]? = some other := by
    rw [getElem?_storeValue, if_neg apart, at_j]
  rw [← other_id]
  exact findMod_of_mem (storeValue_nodup modIndex optionId value distinct) (List.mem_of_getElem? there)

/-- A call that saves leaves the context alone or asks for a save. -/
structure AsksSave (c after : ModContext) : Prop where
  openedMods : after.openedMods = c.openedMods
  queue : after.modConfigurationThreadQueue = c.modConfigurationThreadQueue ++ [.save]

theorem enableMod_asks (c : ModContext) (order : SetOrder) (modId : String) (enabled : Bool) :
    (c.enableMod order modId enabled true).1 = c ∨
      AsksSave c (c.enableMod order modId enabled true).1 := by
  unfold enableMod
  cases c.findMod modId with
  | none => exact Or.inl rfl
  | some mod =>
      dsimp only
      by_cases rejected : c.rejects mod = true
      · rw [if_pos rejected]
        exact Or.inl rfl
      · rw [if_neg rejected]
        refine Or.inr ?_
        cases enabled with
        | true =>
            refine ⟨enableBranch_openedMods c modId mod, ?_⟩
            have queue : (c.enableBranch modId mod).1.modConfigurationThreadQueue =
                c.modConfigurationThreadQueue := by
              unfold enableBranch
              split <;> rfl
            exact congrArg (· ++ [.save]) queue
        | false =>
            refine ⟨disableBranch_openedMods c order modId mod, ?_⟩
            have queue : (c.disableBranch order modId mod).1.modConfigurationThreadQueue =
                c.modConfigurationThreadQueue := by
              unfold disableBranch
              split <;> rfl
            exact congrArg (· ++ [.save]) queue

theorem setModIndex_asks (c : ModContext) (modGameId modId : String) (index : Nat) :
    c.setModIndex modGameId modId index = c ∨ AsksSave c (c.setModIndex modGameId modId index) := by
  unfold setModIndex
  cases c.openedModsById modId with
  | none => exact Or.inl rfl
  | some modIndex => exact Or.inr ⟨rfl, rfl⟩

end ModContext

/-! ## The invariant -/

namespace ConfigRun

def WillCopy (s : ConfigRun) (modId : String) : Prop :=
  match s.pc with
  | .draining => modId ∈ s.pendingMods
  | .snapshotting todo => modId ∈ todo ∧ modId ∈ s.pendingMods
  | _ => False

def WillWrite (s : ConfigRun) (modId : String) : Prop :=
  match s.pc with
  | .snapshotting _ => modId ∈ s.pendingMods
  | .writing todo => modId ∈ todo
  | _ => False

def Copied (s : ConfigRun) (modId : String) : Prop :=
  ∃ mod, s.context.findMod modId = some mod ∧ s.pendingMod modId = some mod.snapshot

def Filed (s : ConfigRun) (modId : String) : Prop :=
  ∃ mod, s.context.findMod modId = some mod ∧
    s.modFile modId = some (saveModConfigStorage modId mod.snapshot)

/-- The mod is in its file as it is, or will come there. -/
def Covered (s : ConfigRun) (modId : String) : Prop :=
  .saveMod modId ∈ s.queue ∨ s.WillCopy modId ∨ (s.WillWrite modId ∧ s.Copied modId) ∨
    (¬s.WillWrite modId ∧ s.Filed modId)

def WillSave (s : ConfigRun) : Prop :=
  match s.pc with
  | .draining => s.pendingConfigSave = true
  | .snapshotting _ => s.pendingConfigSave = true
  | .writing _ => s.pendingConfigSave = true
  | .checkSave => s.pendingConfigSave = true
  | .writingConfig config => config = s.context.modsConfig
  | _ => False

def WritesConfig (s : ConfigRun) : Prop :=
  match s.pc with
  | .writingConfig _ => True
  | _ => False

def CoveredConfig (s : ConfigRun) : Prop :=
  .save ∈ s.queue ∨ s.WillSave ∨ (¬s.WritesConfig ∧ s.configFile = some s.context.modsConfig)

def Tidy (s : ConfigRun) : Prop :=
  match s.pc with
  | .waiting => s.pendingMods = ∅ ∧ s.pendingConfigSave = false
  | .checkSave => s.pendingMods = ∅
  | .writingConfig _ => s.pendingMods = ∅
  | .finished => s.destroying = true ∧ s.queue = [] ∧ s.pendingMods = ∅
  | _ => True

inductive Ending (s : ConfigRun) : Prop
  | before (alive : s.destroying = false) (active : s.active = true) (none_queued : .finish ∉ s.queue)
  | queued (dying : s.destroying = true) (active : s.active = true) (alone : s.queue = [.finish])
      (past : s.pc ≠ .draining)
  | taken (dying : s.destroying = true) (inactive : s.active = false) (empty : s.queue = [])
      (nothing : s.pendingMods = ∅) (no_save : s.pendingConfigSave = false)
      (stops : s.pc = .draining ∨ s.pc = .finished)

structure Invariant (s : ConfigRun) : Prop where
  distinct : (s.context.openedMods.map ModHandle.modId).Nodup
  stored : ∀ modId optionId value, s.accepted modId optionId = some value →
    ∃ mod option, s.context.findMod modId = some mod ∧
      mod.manifest.configSchema optionId = some option ∧ option.accepts value = true ∧
      mod.configStorage optionId = some value
  covered : ∀ modId optionId value, s.accepted modId optionId = some value → s.Covered modId
  coveredConfig : s.askedSave = true → s.CoveredConfig
  tidy : s.Tidy
  ending : s.Ending

variable {s t : ConfigRun}

theorem Started.invariant (started : s.Started) : s.Invariant where
  distinct := started.unique.nodup
  stored modId optionId value accepted := by
    rw [started.accepted] at accepted
    cases accepted
  covered modId optionId value accepted := by
    rw [started.accepted] at accepted
    cases accepted
  coveredConfig asked := by
    rw [started.askedSave] at asked
    cases asked
  tidy := by
    unfold Tidy
    rw [started.pc]
    exact ⟨started.pendingMods, started.pendingConfigSave⟩
  ending := .before started.destroying started.active (by rw [started.queue]; exact List.not_mem_nil)

theorem Invariant.kept (inv : s.Invariant) (finished : s.pc = .finished) : s.Kept := by
  have tidy := inv.tidy
  unfold Tidy at tidy
  rw [finished] at tidy
  obtain ⟨_, empty, _⟩ := tidy
  constructor
  · intro modId optionId value accepted
    obtain ⟨mod, option, found, schema, accepts, holds⟩ := inv.stored modId optionId value accepted
    obtain ⟨saved, saves⟩ := ConfigOption.save_accepted accepts
    have filed : s.Filed modId := by
      rcases inv.covered modId optionId value accepted with queued | copy | ⟨write, _⟩ | ⟨_, filed⟩
      · rw [empty] at queued
        exact absurd queued List.not_mem_nil
      · unfold WillCopy at copy
        rw [finished] at copy
        exact copy.elim
      · unfold WillWrite at write
        rw [finished] at write
        exact write.elim
      · exact filed
    obtain ⟨mod', found', file⟩ := filed
    cases found.symm.trans found'
    refine ⟨mod, option, _, found, schema, file, ?_, by rw [saves]; rfl⟩
    change (mod.configStorage optionId).bind _ = _
    rw [holds]
    change (mod.manifest.configSchema optionId).bind _ = _
    rw [schema]
    rfl
  · intro asked
    rcases inv.coveredConfig asked with queued | save | ⟨_, filed⟩
    · rw [empty] at queued
      exact absurd queued List.not_mem_nil
    · unfold WillSave at save
      rw [finished] at save
      exact save.elim
    · exact filed

/-! ## The calls -/

structure SameThread (s t : ConfigRun) : Prop where
  pc : t.pc = s.pc
  pendingMods : t.pendingMods = s.pendingMods
  pendingMod : t.pendingMod = s.pendingMod
  pendingConfigSave : t.pendingConfigSave = s.pendingConfigSave
  modFile : t.modFile = s.modFile
  configFile : t.configFile = s.configFile

theorem Covered.mono (same : SameThread s t) {modId : String}
    (grows : ∀ request ∈ s.queue, request ∈ t.queue)
    (found : ∀ mod, s.context.findMod modId = some mod → t.context.findMod modId = some mod)
    (covered : s.Covered modId) : t.Covered modId := by
  have write : t.WillWrite modId ↔ s.WillWrite modId := by
    unfold WillWrite
    rw [same.pc, same.pendingMods]
  rcases covered with queued | copy | ⟨will_write, mod, is_mod, copied⟩ | ⟨done, mod, is_mod, filed⟩
  · exact Or.inl (grows _ queued)
  · refine Or.inr (Or.inl ?_)
    unfold WillCopy at copy ⊢
    rw [same.pc, same.pendingMods]
    exact copy
  · exact Or.inr (Or.inr (Or.inl ⟨write.mpr will_write, mod, found mod is_mod, by rw [same.pendingMod, copied]⟩))
  · refine Or.inr (Or.inr (Or.inr ⟨fun will => done (write.mp will), mod, found mod is_mod, ?_⟩))
    rw [same.modFile, filed]

theorem CoveredConfig.mono (same : SameThread s t)
    (grows : ∀ request ∈ s.queue, request ∈ t.queue)
    (config : t.context.modsConfig = s.context.modsConfig) (covered : s.CoveredConfig) :
    t.CoveredConfig := by
  rcases covered with queued | save | ⟨done, filed⟩
  · exact Or.inl (grows _ queued)
  · refine Or.inr (Or.inl ?_)
    unfold WillSave at save ⊢
    rw [same.pc, same.pendingConfigSave, config]
    exact save
  · refine Or.inr (Or.inr ⟨?_, by rw [same.configFile, filed, config]⟩)
    unfold WritesConfig at done ⊢
    rw [same.pc]
    exact done

theorem Tidy.of_alive (same : SameThread s t) (alive : s.destroying = false) (tidy : s.Tidy) : t.Tidy := by
  unfold Tidy at tidy ⊢
  rw [same.pc, same.pendingMods, same.pendingConfigSave]
  cases pc : s.pc with
  | waiting => rwa [pc] at tidy
  | checkSave => rwa [pc] at tidy
  | writingConfig config => rwa [pc] at tidy
  | finished =>
      rw [pc] at tidy
      rw [alive] at tidy
      exact Bool.noConfusion tidy.1
  | draining => trivial
  | snapshotting todo => trivial
  | writing todo => trivial

theorem Ending.alive (ending : s.Ending) (alive : s.destroying = false) :
    s.active = true ∧ .finish ∉ s.queue := by
  cases ending with
  | before _ active none_queued => exact ⟨active, none_queued⟩
  | queued dying => exact Bool.noConfusion (alive.symm.trans dying)
  | taken dying => exact Bool.noConfusion (alive.symm.trans dying)

theorem not_finish_append {queue : List ModConfigQueueVariant} (none_queued : .finish ∉ queue)
    {request : ModConfigQueueVariant} (other : request ≠ .finish) : .finish ∉ queue ++ [request] := by
  intro mem
  rcases List.mem_append.mp mem with old | new
  · exact none_queued old
  · exact other (List.mem_singleton.mp new).symm

theorem Invariant.change (inv : s.Invariant) (alive : s.destroying = false) {after : ModContext}
    (asks : after = s.context ∨ ModContext.AsksSave s.context after) : (s.change after).Invariant := by
  obtain ⟨active, none_queued⟩ := inv.ending.alive alive
  have same : SameThread s (s.change after) := ⟨rfl, rfl, rfl, rfl, rfl, rfl⟩
  rcases asks with unchanged | ⟨opened, queue⟩
  · subst unchanged
    refine ⟨inv.distinct, inv.stored, fun modId optionId value accepted =>
      (inv.covered modId optionId value accepted).mono same (fun _ => id) (fun _ => id), fun asked => ?_,
      inv.tidy.of_alive same alive, .before alive active none_queued⟩
    have asked_before : s.askedSave = true := by
      rcases Bool.or_eq_true_iff.mp asked with before | differs
      · exact before
      · exact absurd rfl (of_decide_eq_true differs)
    exact (inv.coveredConfig asked_before).mono same (fun _ => id) rfl
  · have grows : ∀ request ∈ s.queue, request ∈ (s.change after).queue := fun request mem => by
      change request ∈ after.modConfigurationThreadQueue
      rw [queue]
      exact List.mem_append_left _ mem
    have found (modId : String) : after.findMod modId = s.context.findMod modId := by
      rw [ModContext.findMod, opened, ModContext.findMod]
    constructor
    · change (after.openedMods.map ModHandle.modId).Nodup
      rw [opened]
      exact inv.distinct
    · intro modId optionId value accepted
      obtain ⟨mod, option, is_mod, rest⟩ := inv.stored modId optionId value accepted
      exact ⟨mod, option, (found modId).trans is_mod, rest⟩
    · intro modId optionId value accepted
      exact (inv.covered modId optionId value accepted).mono same grows fun mod is_mod =>
        (found modId).trans is_mod
    · intro _
      refine Or.inl ?_
      change .save ∈ after.modConfigurationThreadQueue
      rw [queue]
      exact List.mem_append_right _ (List.mem_singleton_self _)
    · exact inv.tidy.of_alive same alive
    · refine .before alive active ?_
      change .finish ∉ after.modConfigurationThreadQueue
      rw [queue]
      exact not_finish_append none_queued ModConfigQueueVariant.noConfusion

theorem Invariant.enqueue (inv : s.Invariant) (alive : s.destroying = false)
    {request : ModConfigQueueVariant} (other : request ≠ .finish) :
    ({ s with context := s.context.enqueue request } : ConfigRun).Invariant := by
  obtain ⟨active, none_queued⟩ := inv.ending.alive alive
  have same : SameThread s { s with context := s.context.enqueue request } := ⟨rfl, rfl, rfl, rfl, rfl, rfl⟩
  have grows : ∀ r ∈ s.queue, r ∈ s.queue ++ [request] := fun r mem => List.mem_append_left _ mem
  exact ⟨inv.distinct, inv.stored,
    fun modId optionId value accepted =>
      (inv.covered modId optionId value accepted).mono same grows fun _ => id,
    fun asked => (inv.coveredConfig asked).mono same grows rfl, inv.tidy.of_alive same alive,
    .before alive active (not_finish_append none_queued other)⟩

def storing (s : ConfigRun) (modIndex : Nat) (modId optionId : String) (value : ConfigValueVariant) :
    ConfigRun :=
  { s with
    context := (s.context.storeValue modIndex optionId value).enqueue (.saveMod modId)
    accepted := Function.update s.accepted modId
      (Function.update (s.accepted modId) optionId (some value)) }

theorem Invariant.storing (inv : s.Invariant) (alive : s.destroying = false) {modIndex : Nat}
    {mod : ModHandle} (opened : s.context.openedMods[modIndex]? = some mod) {optionId : String}
    {option : ConfigOption} (schema : mod.manifest.configSchema optionId = some option)
    {value : ConfigValueVariant} (accepts : option.accepts value = true) :
    (s.storing modIndex mod.modId optionId value).Invariant := by
  obtain ⟨active, none_queued⟩ := inv.ending.alive alive
  have same : SameThread s (s.storing modIndex mod.modId optionId value) :=
    ⟨rfl, rfl, rfl, rfl, rfl, rfl⟩
  have grows : ∀ r ∈ s.queue, r ∈ s.queue ++ [.saveMod mod.modId] :=
    fun r mem => List.mem_append_left _ mem
  have here := ModContext.findMod_stored optionId value inv.distinct opened
  constructor
  · exact ModContext.storeValue_nodup modIndex optionId value inv.distinct
  · intro modId optionId' value' accepted
    by_cases this_mod : modId = mod.modId
    · subst this_mod
      change Function.update s.accepted mod.modId _ mod.modId optionId' = some value' at accepted
      rw [Function.update_self] at accepted
      by_cases this_option : optionId' = optionId
      · subst this_option
        rw [Function.update_self] at accepted
        cases accepted
        refine ⟨_, option, here, schema, accepts, ?_⟩
        exact Function.update_self optionId' (some value) mod.configStorage
      · rw [Function.update_of_ne this_option] at accepted
        obtain ⟨mod', option', is_mod, schema', accepts', holds⟩ := inv.stored _ _ _ accepted
        have same_mod := ModContext.findMod_of_mem inv.distinct (List.mem_of_getElem? opened)
        cases same_mod.symm.trans is_mod
        refine ⟨_, option', here, schema', accepts', ?_⟩
        exact (Function.update_of_ne this_option (some value) mod.configStorage).trans holds
    · change Function.update s.accepted mod.modId _ modId optionId' = some value' at accepted
      rw [Function.update_of_ne this_mod] at accepted
      obtain ⟨mod', option', is_mod, rest⟩ := inv.stored _ _ _ accepted
      exact ⟨mod', option', ModContext.findMod_not_stored optionId value inv.distinct opened this_mod is_mod,
        rest⟩
  · intro modId optionId' value' accepted
    by_cases this_mod : modId = mod.modId
    · subst this_mod
      exact Or.inl (List.mem_append_right _ (List.mem_singleton_self _))
    · change Function.update s.accepted mod.modId _ modId optionId' = some value' at accepted
      rw [Function.update_of_ne this_mod] at accepted
      exact (inv.covered modId optionId' value' accepted).mono same grows fun _ is_mod =>
        ModContext.findMod_not_stored optionId value inv.distinct opened this_mod is_mod
  · intro asked
    exact (inv.coveredConfig asked).mono same grows
      (ModContext.storeValue_modsConfig (c := s.context) modIndex optionId value)
  · exact inv.tidy.of_alive same alive
  · exact .before alive active (not_finish_append none_queued nofun)

theorem Invariant.setModConfigValue (inv : s.Invariant) (alive : s.destroying = false) (modIndex : Nat)
    (optionId : String) (value : ConfigValueVariant) :
    ({ s with
      context := s.context.setModConfigValue modIndex optionId value
      accepted := s.acceptValue modIndex optionId value } : ConfigRun).Invariant := by
  rcases s.context.setModConfigValue_cases modIndex optionId value with
    ⟨unchanged, none_accepted⟩ | ⟨mod, opened, ⟨asks, none_accepted⟩ |
      ⟨option, schema, accepts, stores, accepted⟩⟩
  · rw [unchanged, acceptValue, none_accepted]
    exact inv
  · rw [asks, acceptValue, none_accepted]
    exact inv.enqueue alive nofun
  · rw [stores, acceptValue, accepted]
    exact inv.storing alive opened schema accepts

theorem Invariant.destroy (inv : s.Invariant) (alive : s.destroying = false)
    (settled : s.queue = [] ∧ s.pc ≠ .draining) :
    ({ s with context := s.context.enqueue .finish, destroying := true } : ConfigRun).Invariant := by
  obtain ⟨empty, past⟩ := settled
  obtain ⟨active, _⟩ := inv.ending.alive alive
  have same : SameThread s { s with context := s.context.enqueue .finish, destroying := true } :=
    ⟨rfl, rfl, rfl, rfl, rfl, rfl⟩
  have grows : ∀ r ∈ s.queue, r ∈ s.queue ++ [.finish] := fun r mem => List.mem_append_left _ mem
  have alone : s.queue ++ [.finish] = [.finish] := by rw [empty, List.nil_append]
  have tidy := inv.tidy.of_alive same alive
  exact ⟨inv.distinct, inv.stored,
    fun modId optionId value accepted =>
      (inv.covered modId optionId value accepted).mono same grows fun _ => id,
    fun asked => (inv.coveredConfig asked).mono same grows rfl, tidy, .queued rfl active alone past⟩

/-! ## The thread -/

theorem mem_eraseIdx_or {requests : List ModConfigQueueVariant} {choice : Nat}
    {taken request : ModConfigQueueVariant} (at_choice : requests[choice]? = some taken)
    (mem : request ∈ requests) : request = taken ∨ request ∈ requests.eraseIdx choice := by
  obtain ⟨j, at_j⟩ := List.getElem?_of_mem mem
  by_cases here : j = choice
  · subst here
    exact Or.inl (Option.some.inj (at_j.symm.trans at_choice))
  · exact Or.inr (List.mem_eraseIdx_iff_getElem?.mpr ⟨j, here, at_j⟩)

section HandleVariant

variable (s : ConfigRun) (variant : ModConfigQueueVariant)

@[simp] theorem handleVariant_context : (s.handleVariant variant).context = s.context := by
  cases variant <;> rfl

@[simp] theorem handleVariant_destroying : (s.handleVariant variant).destroying = s.destroying := by
  cases variant <;> rfl

@[simp] theorem handleVariant_pendingMod : (s.handleVariant variant).pendingMod = s.pendingMod := by
  cases variant <;> rfl

@[simp] theorem handleVariant_modFile : (s.handleVariant variant).modFile = s.modFile := by
  cases variant <;> rfl

@[simp] theorem handleVariant_configFile : (s.handleVariant variant).configFile = s.configFile := by
  cases variant <;> rfl

@[simp] theorem handleVariant_accepted : (s.handleVariant variant).accepted = s.accepted := by
  cases variant <;> rfl

@[simp] theorem handleVariant_askedSave : (s.handleVariant variant).askedSave = s.askedSave := by
  cases variant <;> rfl

theorem handleVariant_pendingMods {modId : String} (pending : modId ∈ s.pendingMods) :
    modId ∈ (s.handleVariant variant).pendingMods := by
  cases variant with
  | saveMod other => exact Finset.mem_insert_of_mem pending
  | save => exact pending
  | finish => exact pending

theorem handleVariant_pendingConfigSave (pending : s.pendingConfigSave = true) :
    (s.handleVariant variant).pendingConfigSave = true := by
  cases variant with
  | saveMod other => exact pending
  | save => rfl
  | finish => exact pending

end HandleVariant

def Takes (s : ConfigRun) : Prop := s.pc = .waiting ∨ s.pc = .draining

theorem Takes.willCopy (takes : s.Takes) {modId : String} (copy : s.WillCopy modId) :
    modId ∈ s.pendingMods := by
  unfold WillCopy at copy
  rcases takes with pc | pc
  · rw [pc] at copy
    exact copy.elim
  · rwa [pc] at copy

theorem Takes.not_willWrite (takes : s.Takes) {modId : String} : ¬s.WillWrite modId := by
  unfold WillWrite
  rcases takes with pc | pc
  · rw [pc]
    exact id
  · rw [pc]
    exact id

theorem Takes.willSave (takes : s.Takes) (save : s.WillSave) : s.pendingConfigSave = true := by
  unfold WillSave at save
  rcases takes with pc | pc
  · rw [pc] at save
    exact save.elim
  · rwa [pc] at save

theorem Covered.taking (takes : s.Takes) {variant : ModConfigQueueVariant} {choice : Nat}
    (at_choice : s.queue[choice]? = some variant) {modId : String} (covered : s.Covered modId) :
    (s.taking variant choice).Covered modId := by
  rcases covered with queued | copy | ⟨write, _⟩ | ⟨_, mod, found, filed⟩
  · rcases mem_eraseIdx_or at_choice queued with rfl | left
    · exact Or.inr (Or.inl (Finset.mem_insert_self modId s.pendingMods))
    · exact Or.inl left
  · exact Or.inr (Or.inl (handleVariant_pendingMods s variant (takes.willCopy copy)))
  · exact absurd write takes.not_willWrite
  · refine Or.inr (Or.inr (Or.inr ⟨id, mod, found, ?_⟩))
    rw [← filed]
    exact congrFun (handleVariant_modFile s variant) modId

theorem CoveredConfig.taking (takes : s.Takes) {variant : ModConfigQueueVariant} {choice : Nat}
    (at_choice : s.queue[choice]? = some variant) (covered : s.CoveredConfig) :
    (s.taking variant choice).CoveredConfig := by
  rcases covered with queued | save | ⟨_, filed⟩
  · rcases mem_eraseIdx_or at_choice queued with rfl | left
    · exact Or.inr (Or.inl rfl)
    · exact Or.inl left
  · exact Or.inr (Or.inl (handleVariant_pendingConfigSave s variant (takes.willSave save)))
  · refine Or.inr (Or.inr ⟨id, ?_⟩)
    exact (handleVariant_configFile s variant).trans filed

theorem Ending.taking (ending : s.Ending) (tidy : s.Tidy) (takes : s.Takes)
    {variant : ModConfigQueueVariant} {choice : Nat} (at_choice : s.queue[choice]? = some variant) :
    (s.taking variant choice).Ending := by
  cases ending with
  | before alive active none_queued =>
      have other : variant ≠ .finish := by
        rintro rfl
        exact none_queued (List.mem_of_getElem? at_choice)
      refine .before ((handleVariant_destroying s variant).trans alive) ?_ fun mem =>
        none_queued (List.mem_of_mem_eraseIdx mem)
      cases variant with
      | finish => exact absurd rfl other
      | save => exact active
      | saveMod other => exact active
  | queued dying active alone past =>
      have waits : s.pc = .waiting := takes.resolve_right past
      unfold Tidy at tidy
      rw [waits] at tidy
      rw [alone] at at_choice
      cases choice with
      | succ choice => cases at_choice
      | zero =>
          cases at_choice
          refine .taken dying rfl ?_ tidy.1 tidy.2 (Or.inl rfl)
          change s.queue.eraseIdx 0 = []
          rw [alone]
          rfl
  | taken dying inactive empty nothing no_save stops =>
      rw [empty] at at_choice
      cases at_choice

theorem Invariant.taking (inv : s.Invariant) (takes : s.Takes) {variant : ModConfigQueueVariant}
    {choice : Nat} (at_choice : s.queue[choice]? = some variant) :
    (s.taking variant choice).Invariant where
  distinct := inv.distinct
  stored modId optionId value accepted := by
    refine inv.stored modId optionId value ?_
    rw [← handleVariant_accepted s variant]
    exact accepted
  covered modId optionId value accepted := by
    refine (inv.covered modId optionId value ?_).taking takes at_choice
    rw [← handleVariant_accepted s variant]
    exact accepted
  coveredConfig asked := by
    refine (inv.coveredConfig ?_).taking takes at_choice
    rw [← handleVariant_askedSave s variant]
    exact asked
  tidy := trivial
  ending := inv.ending.taking inv.tidy takes at_choice

theorem Invariant.dequeue (inv : s.Invariant) (takes : s.Takes) {choice : Nat}
    (taken : s.dequeue choice = some t) : t.Invariant := by
  obtain ⟨variant, at_choice, rfl⟩ := Option.map_eq_some_iff.mp taken
  exact inv.taking takes at_choice

structure Moves (s t : ConfigRun) : Prop where
  context : t.context = s.context
  accepted : t.accepted = s.accepted
  askedSave : t.askedSave = s.askedSave
  destroying : t.destroying = s.destroying
  active : t.active = s.active

theorem Moves.queue (moves : Moves s t) : t.queue = s.queue :=
  congrArg ModContext.modConfigurationThreadQueue moves.context

/-- It need only look after the mods that are opened. -/
theorem Invariant.moves (inv : s.Invariant) (moves : Moves s t)
    (covered : ∀ modId mod, s.context.findMod modId = some mod → s.Covered modId → t.Covered modId)
    (coveredConfig : s.CoveredConfig → t.CoveredConfig) (tidy : t.Tidy) (ending : t.Ending) :
    t.Invariant where
  distinct := by
    rw [moves.context]
    exact inv.distinct
  stored modId optionId value accepted := by
    rw [moves.context]
    rw [moves.accepted] at accepted
    exact inv.stored modId optionId value accepted
  covered modId optionId value accepted := by
    rw [moves.accepted] at accepted
    obtain ⟨mod, _, found, _⟩ := inv.stored modId optionId value accepted
    exact covered modId mod found (inv.covered modId optionId value accepted)
  coveredConfig asked := by
    rw [moves.askedSave] at asked
    exact coveredConfig (inv.coveredConfig asked)
  tidy := tidy
  ending := ending

theorem Ending.moves (ending : s.Ending) (moves : Moves s t) (active : s.active = true)
    (past : t.pc ≠ .draining) : t.Ending := by
  cases ending with
  | before alive _ none_queued =>
      exact .before (moves.destroying.trans alive) (moves.active.trans active) (moves.queue ▸ none_queued)
  | queued dying _ alone _ =>
      exact .queued (moves.destroying.trans dying) (moves.active.trans active) (moves.queue.trans alone) past
  | taken _ inactive => exact Bool.noConfusion (active.symm.trans inactive)

theorem Ending.active (ending : s.Ending) (not_draining : s.pc ≠ .draining)
    (not_finished : s.pc ≠ .finished) : s.active = true := by
  cases ending with
  | before _ active => exact active
  | queued _ active => exact active
  | taken _ _ _ _ _ stops => exact (stops.elim not_draining not_finished).elim

theorem Invariant.finish (inv : s.Invariant) (pc : s.pc = .draining) (inactive : s.active = false) :
    ({ s with pc := .finished } : ConfigRun).Invariant := by
  have moves : Moves s { s with pc := .finished } := ⟨rfl, rfl, rfl, rfl, rfl⟩
  have takes : s.Takes := Or.inr pc
  cases inv.ending with
  | before _ active => exact Bool.noConfusion (inactive.symm.trans active)
  | queued _ active => exact Bool.noConfusion (inactive.symm.trans active)
  | taken dying _ empty nothing no_save _ =>
      refine inv.moves moves (fun modId mod _ covered => ?_) (fun covered => ?_) ⟨dying, empty, nothing⟩
        (.taken dying inactive empty nothing no_save (Or.inr rfl))
      · rcases covered with queued | copy | ⟨write, _⟩ | ⟨_, filed⟩
        · exact Or.inl queued
        · have pending := takes.willCopy copy
          rw [nothing] at pending
          exact absurd pending (Finset.notMem_empty modId)
        · exact absurd write takes.not_willWrite
        · exact Or.inr (Or.inr (Or.inr ⟨id, filed⟩))
      · rcases covered with queued | save | ⟨_, filed⟩
        · exact Or.inl queued
        · exact Bool.noConfusion (no_save.symm.trans (takes.willSave save))
        · exact Or.inr (Or.inr ⟨id, filed⟩)

theorem Invariant.startSnapshot (order : SetOrder) (inv : s.Invariant) (pc : s.pc = .draining)
    (active : s.active = true) :
    ({ s with pc := .snapshotting (order.list s.pendingMods) } : ConfigRun).Invariant := by
  have moves : Moves s { s with pc := .snapshotting (order.list s.pendingMods) } := ⟨rfl, rfl, rfl, rfl, rfl⟩
  have takes : s.Takes := Or.inr pc
  refine inv.moves moves (fun modId mod _ covered => ?_) (fun covered => ?_) trivial
    (inv.ending.moves moves active nofun)
  · by_cases pending : modId ∈ s.pendingMods
    · exact Or.inr (Or.inl ⟨(order.mem s.pendingMods modId).mpr pending, pending⟩)
    · rcases covered with queued | copy | ⟨write, _⟩ | ⟨_, filed⟩
      · exact Or.inl queued
      · exact absurd (takes.willCopy copy) pending
      · exact absurd write takes.not_willWrite
      · exact Or.inr (Or.inr (Or.inr ⟨pending, filed⟩))
  · rcases covered with queued | save | ⟨_, filed⟩
    · exact Or.inl queued
    · exact Or.inr (Or.inl (takes.willSave save))
    · exact Or.inr (Or.inr ⟨id, filed⟩)

theorem Invariant.skipSnapshot (inv : s.Invariant) (pc : s.pc = .draining) (active : s.active = true)
    (nothing : s.pendingMods = ∅) : ({ s with pc := .checkSave } : ConfigRun).Invariant := by
  have moves : Moves s { s with pc := .checkSave } := ⟨rfl, rfl, rfl, rfl, rfl⟩
  have takes : s.Takes := Or.inr pc
  refine inv.moves moves (fun modId mod _ covered => ?_) (fun covered => ?_) nothing
    (inv.ending.moves moves active nofun)
  · rcases covered with queued | copy | ⟨write, _⟩ | ⟨_, filed⟩
    · exact Or.inl queued
    · have pending := takes.willCopy copy
      rw [nothing] at pending
      exact absurd pending (Finset.notMem_empty modId)
    · exact absurd write takes.not_willWrite
    · exact Or.inr (Or.inr (Or.inr ⟨id, filed⟩))
  · rcases covered with queued | save | ⟨_, filed⟩
    · exact Or.inl queued
    · exact Or.inr (Or.inl (takes.willSave save))
    · exact Or.inr (Or.inr ⟨id, filed⟩)

theorem Invariant.active_at (inv : s.Invariant) {pc : ConfigThreadPc} (at_pc : s.pc = pc)
    (not_draining : pc ≠ .draining) (not_finished : pc ≠ .finished) : s.active = true :=
  inv.ending.active (at_pc ▸ not_draining) (at_pc ▸ not_finished)

theorem Invariant.startWriting (order : SetOrder) (inv : s.Invariant) (pc : s.pc = .snapshotting []) :
    ({ s with pc := .writing (order.list s.pendingMods) } : ConfigRun).Invariant := by
  have moves : Moves s { s with pc := .writing (order.list s.pendingMods) } := ⟨rfl, rfl, rfl, rfl, rfl⟩
  have will_write (modId : String) : s.WillWrite modId ↔ modId ∈ order.list s.pendingMods := by
    unfold WillWrite
    rw [pc]
    exact (order.mem s.pendingMods modId).symm
  refine inv.moves moves (fun modId mod _ covered => ?_) (fun covered => ?_) trivial
    (inv.ending.moves moves (inv.active_at pc nofun nofun) nofun)
  · rcases covered with queued | copy | ⟨write, copied⟩ | ⟨done, filed⟩
    · exact Or.inl queued
    · unfold WillCopy at copy
      rw [pc] at copy
      exact absurd copy.1 List.not_mem_nil
    · exact Or.inr (Or.inr (Or.inl ⟨(will_write modId).mp write, copied⟩))
    · exact Or.inr (Or.inr (Or.inr ⟨fun mem => done ((will_write modId).mpr mem), filed⟩))
  · rcases covered with queued | save | ⟨_, filed⟩
    · exact Or.inl queued
    · unfold WillSave at save
      rw [pc] at save
      exact Or.inr (Or.inl save)
    · exact Or.inr (Or.inr ⟨id, filed⟩)

theorem snapshotMod_self {modId : String} {mod : ModHandle} (found : s.context.findMod modId = some mod) :
    s.snapshotMod modId modId = some mod.snapshot := by
  rw [snapshotMod, found]
  exact Function.update_self modId _ _

theorem snapshotMod_other {copied modId : String} (other : modId ≠ copied) :
    s.snapshotMod copied modId = s.pendingMod modId := by
  unfold snapshotMod
  cases s.context.findMod copied with
  | none => rfl
  | some mod => exact Function.update_of_ne other _ _

theorem Invariant.snapshot (inv : s.Invariant) {copied : String} {todo : List String}
    (pc : s.pc = .snapshotting (copied :: todo)) :
    ({ s with pendingMod := s.snapshotMod copied, pc := .snapshotting todo } : ConfigRun).Invariant := by
  have moves : Moves s { s with pendingMod := s.snapshotMod copied, pc := .snapshotting todo } :=
    ⟨rfl, rfl, rfl, rfl, rfl⟩
  have will_write (modId : String) : s.WillWrite modId ↔ modId ∈ s.pendingMods := by
    unfold WillWrite
    rw [pc]
  refine inv.moves moves (fun modId mod found covered => ?_) (fun covered => ?_) trivial
    (inv.ending.moves moves (inv.active_at pc nofun nofun) nofun)
  · rcases covered with queued | copy | ⟨write, mod', found', has_copy⟩ | ⟨done, filed⟩
    · exact Or.inl queued
    · unfold WillCopy at copy
      rw [pc] at copy
      obtain ⟨mem, pending⟩ := copy
      by_cases this_mod : modId = copied
      · subst this_mod
        exact Or.inr (Or.inr (Or.inl ⟨pending, mod, found, snapshotMod_self found⟩))
      · exact Or.inr (Or.inl ⟨List.mem_of_ne_of_mem this_mod mem, pending⟩)
    · refine Or.inr (Or.inr (Or.inl ⟨(will_write modId).mp write, mod', found', ?_⟩))
      by_cases this_mod : modId = copied
      · subst this_mod
        exact snapshotMod_self found'
      · exact (snapshotMod_other this_mod).trans has_copy
    · exact Or.inr (Or.inr (Or.inr ⟨fun mem => done ((will_write modId).mpr mem), filed⟩))
  · rcases covered with queued | save | ⟨_, filed⟩
    · exact Or.inl queued
    · unfold WillSave at save
      rw [pc] at save
      exact Or.inr (Or.inl save)
    · exact Or.inr (Or.inr ⟨id, filed⟩)

def wrote (s : ConfigRun) (written : String) (todo : List String) : ConfigRun :=
  { s with
    modFile := Function.update s.modFile written
      (some (saveModConfigStorage written ((s.pendingMod written).getD ModSnapshot.empty)))
    pc := .writing todo }

theorem Invariant.wrote (inv : s.Invariant) {written : String} {todo : List String}
    (pc : s.pc = .writing (written :: todo)) : (s.wrote written todo).Invariant := by
  have moves : Moves s (s.wrote written todo) := ⟨rfl, rfl, rfl, rfl, rfl⟩
  have will_write (modId : String) : s.WillWrite modId ↔ modId ∈ written :: todo := by
    unfold WillWrite
    rw [pc]
  refine inv.moves moves (fun modId mod _ covered => ?_) (fun covered => ?_) trivial
    (inv.ending.moves moves (inv.active_at pc nofun nofun) nofun)
  · rcases covered with queued | copy | ⟨write, mod', found, has_copy⟩ | ⟨done, mod', found, file⟩
    · exact Or.inl queued
    · unfold WillCopy at copy
      rw [pc] at copy
      exact copy.elim
    · by_cases later : modId ∈ todo
      · exact Or.inr (Or.inr (Or.inl ⟨later, mod', found, has_copy⟩))
      · have here : modId = written :=
          (List.mem_cons.mp ((will_write modId).mp write)).resolve_right later
        subst here
        refine Or.inr (Or.inr (Or.inr ⟨later, mod', found, ?_⟩))
        refine (Function.update_self modId _ s.modFile).trans ?_
        rw [has_copy, Option.getD_some]
    · have not_here : modId ∉ written :: todo := fun mem => done ((will_write modId).mpr mem)
      have other : modId ≠ written := fun same => not_here (same ▸ List.mem_cons_self)
      refine Or.inr (Or.inr (Or.inr ⟨fun mem => not_here (List.mem_cons_of_mem _ mem), mod', found, ?_⟩))
      exact (Function.update_of_ne other _ s.modFile).trans file
  · rcases covered with queued | save | ⟨_, filed⟩
    · exact Or.inl queued
    · unfold WillSave at save
      rw [pc] at save
      exact Or.inr (Or.inl save)
    · exact Or.inr (Or.inr ⟨id, filed⟩)

theorem Covered.idle {modId : String} (covered : s.Covered modId) (no_copy : ¬s.WillCopy modId)
    (no_write : ¬s.WillWrite modId) : .saveMod modId ∈ s.queue ∨ s.Filed modId := by
  rcases covered with queued | copy | ⟨write, _⟩ | ⟨_, filed⟩
  · exact Or.inl queued
  · exact absurd copy no_copy
  · exact absurd write no_write
  · exact Or.inr filed

theorem Covered.of_idle {modId : String} (no_write : ¬s.WillWrite modId)
    (covered : .saveMod modId ∈ s.queue ∨ s.Filed modId) : s.Covered modId :=
  covered.elim Or.inl fun filed => Or.inr (Or.inr (Or.inr ⟨no_write, filed⟩))

theorem Invariant.endBatch (inv : s.Invariant) (pc : s.pc = .writing []) :
    ({ s with pendingMods := ∅, pc := .checkSave } : ConfigRun).Invariant := by
  have moves : Moves s { s with pendingMods := ∅, pc := .checkSave } := ⟨rfl, rfl, rfl, rfl, rfl⟩
  refine inv.moves moves (fun modId mod _ covered => ?_) (fun covered => ?_) rfl
    (inv.ending.moves moves (inv.active_at pc nofun nofun) nofun)
  · have no_copy : ¬s.WillCopy modId := by
      unfold WillCopy
      rw [pc]
      exact id
    have no_write : ¬s.WillWrite modId := by
      unfold WillWrite
      rw [pc]
      exact List.not_mem_nil
    exact Covered.of_idle id (covered.idle no_copy no_write)
  · rcases covered with queued | save | ⟨_, filed⟩
    · exact Or.inl queued
    · unfold WillSave at save
      rw [pc] at save
      exact Or.inr (Or.inl save)
    · exact Or.inr (Or.inr ⟨id, filed⟩)

theorem no_copy_checkSave {modId : String} (pc : s.pc = .checkSave) : ¬s.WillCopy modId := by
  unfold WillCopy
  rw [pc]
  exact id

theorem no_write_checkSave {modId : String} (pc : s.pc = .checkSave) : ¬s.WillWrite modId := by
  unfold WillWrite
  rw [pc]
  exact id

theorem Invariant.startConfig (inv : s.Invariant) (pc : s.pc = .checkSave) :
    ({ s with pc := .writingConfig s.context.modsConfig } : ConfigRun).Invariant := by
  have moves : Moves s { s with pc := .writingConfig s.context.modsConfig } := ⟨rfl, rfl, rfl, rfl, rfl⟩
  have tidy := inv.tidy
  unfold Tidy at tidy
  rw [pc] at tidy
  exact inv.moves moves
    (fun _ _ _ covered => Covered.of_idle id (covered.idle (no_copy_checkSave pc) (no_write_checkSave pc)))
    (fun _ => Or.inr (Or.inl rfl)) tidy (inv.ending.moves moves (inv.active_at pc nofun nofun) nofun)

theorem Invariant.sleep (inv : s.Invariant) (pc : s.pc = .checkSave)
    (pending : s.pendingConfigSave = false) : ({ s with pc := .waiting } : ConfigRun).Invariant := by
  have moves : Moves s { s with pc := .waiting } := ⟨rfl, rfl, rfl, rfl, rfl⟩
  have tidy := inv.tidy
  unfold Tidy at tidy
  rw [pc] at tidy
  refine inv.moves moves
    (fun _ _ _ covered => Covered.of_idle id (covered.idle (no_copy_checkSave pc) (no_write_checkSave pc)))
    (fun covered => ?_) ⟨tidy, pending⟩ (inv.ending.moves moves (inv.active_at pc nofun nofun) nofun)
  rcases covered with queued | save | ⟨_, filed⟩
  · exact Or.inl queued
  · unfold WillSave at save
    rw [pc] at save
    exact Bool.noConfusion (pending.symm.trans save)
  · exact Or.inr (Or.inr ⟨id, filed⟩)

theorem Invariant.wroteConfig (inv : s.Invariant) {config : ModContext.ModsConfig}
    (pc : s.pc = .writingConfig config) :
    ({ s with configFile := some config, pendingConfigSave := false, pc := .waiting } :
      ConfigRun).Invariant := by
  have moves : Moves s { s with configFile := some config, pendingConfigSave := false, pc := .waiting } :=
    ⟨rfl, rfl, rfl, rfl, rfl⟩
  have tidy := inv.tidy
  unfold Tidy at tidy
  rw [pc] at tidy
  refine inv.moves moves (fun modId mod _ covered => ?_) (fun covered => ?_) ⟨tidy, rfl⟩
    (inv.ending.moves moves (inv.active_at pc nofun nofun) nofun)
  · have no_copy : ¬s.WillCopy modId := by
      unfold WillCopy
      rw [pc]
      exact id
    have no_write : ¬s.WillWrite modId := by
      unfold WillWrite
      rw [pc]
      exact id
    exact Covered.of_idle id (covered.idle no_copy no_write)
  · rcases covered with queued | save | ⟨not_writing, _⟩
    · exact Or.inl queued
    · unfold WillSave at save
      rw [pc] at save
      exact Or.inr (Or.inr ⟨id, congrArg some save⟩)
    · unfold WritesConfig at not_writing
      rw [pc] at not_writing
      exact absurd trivial not_writing

theorem Invariant.threadStep (inv : s.Invariant) {order : SetOrder} {choice : Nat}
    (taken : s.threadStep order choice = some t) : t.Invariant := by
  unfold ConfigRun.threadStep at taken
  cases pc : s.pc with
  | waiting =>
      rw [pc] at taken
      exact inv.dequeue (Or.inl pc) taken
  | draining =>
      rw [pc] at taken
      by_cases ended : (!s.active) = true
      · simp only [if_pos ended] at taken
        cases taken
        exact inv.finish pc ((Bool.not_eq_true' _).mp ended)
      · have active : s.active = true := by
          cases active : s.active with
          | true => rfl
          | false => exact absurd (by rw [active]; rfl) ended
        simp only [if_neg ended] at taken
        cases empty : s.queue with
        | cons request rest =>
            rw [empty] at taken
            exact inv.dequeue (Or.inr pc) taken
        | nil =>
            rw [empty] at taken
            by_cases nothing : s.pendingMods = ∅
            · simp only [if_pos nothing] at taken
              cases taken
              exact inv.skipSnapshot pc active nothing
            · simp only [if_neg nothing] at taken
              cases taken
              exact inv.startSnapshot order pc active
  | snapshotting todo =>
      rw [pc] at taken
      cases todo with
      | nil =>
          cases taken
          exact inv.startWriting order pc
      | cons copied todo =>
          cases taken
          exact inv.snapshot pc
  | writing todo =>
      rw [pc] at taken
      cases todo with
      | nil =>
          cases taken
          exact inv.endBatch pc
      | cons written todo =>
          cases taken
          exact inv.wrote pc
  | checkSave =>
      rw [pc] at taken
      by_cases pending : s.pendingConfigSave = true
      · simp only [if_pos pending] at taken
        cases taken
        exact inv.startConfig pc
      · simp only [if_neg pending] at taken
        cases taken
        exact inv.sleep pc (Bool.eq_false_iff.mpr pending)
  | writingConfig config =>
      rw [pc] at taken
      cases taken
      exact inv.wroteConfig pc
  | finished =>
      rw [pc] at taken
      cases taken

theorem Invariant.step (inv : s.Invariant) {order : SetOrder} {l : ConfigLabel}
    (settled : s.Settled l) (taken : s.step order l = some t) : t.Invariant := by
  cases l with
  | thread choice => exact inv.threadStep taken
  | setModConfigValue modIndex optionId value =>
      obtain ⟨alive, same⟩ := Option.ite_none_left_eq_some.mp taken
      cases same
      exact inv.setModConfigValue (Bool.eq_false_iff.mpr alive) modIndex optionId value
  | enableMod modId enabled =>
      obtain ⟨alive, same⟩ := Option.ite_none_left_eq_some.mp taken
      cases same
      have alive : s.destroying = false :=
        Bool.eq_false_iff.mpr fun dying => alive (by rw [dying]; rfl)
      exact inv.change alive (ModContext.enableMod_asks s.context order modId enabled)
  | setModIndex modGameId modId index =>
      obtain ⟨alive, same⟩ := Option.ite_none_left_eq_some.mp taken
      cases same
      have alive : s.destroying = false :=
        Bool.eq_false_iff.mpr fun dying => alive (by rw [dying]; rfl)
      exact inv.change alive (ModContext.setModIndex_asks s.context modGameId modId index)
  | destroy =>
      obtain ⟨alive, same⟩ := Option.ite_none_left_eq_some.mp taken
      cases same
      exact inv.destroy (Bool.eq_false_iff.mpr alive) settled

theorem Reach.thread {order : SetOrder} (before : Reach (ConfigRun.step order) Settled Started s)
    (choice : Nat) (taken : s.threadStep order choice = some t) :
    Reach (ConfigRun.step order) Settled Started t :=
  .next (.thread choice) before trivial taken

end ConfigRun

end N64ModernRuntime.Librecomp
