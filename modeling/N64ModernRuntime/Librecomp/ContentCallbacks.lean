import Mathlib.Data.Finset.Sort
import Mathlib.Data.String.Basic
import N64ModernRuntime.Lib.SignedLog
import N64ModernRuntime.Lib.Transition
import N64ModernRuntime.Librecomp.AutoEnabled

/-!
# mods.cpp: the content callbacks of loaded mods

`load_mods` calls `on_enabled` for the mods that it loads, and `enable_mod`
calls `on_enabled` and `on_disabled` while mods are loaded.  A content type of a
mod is in balance when it has been enabled once more than disabled exactly if
the mod is active.
-/

set_option autoImplicit false

namespace N64ModernRuntime.Librecomp

open SignedLog
open Transition

inductive ModLoadError where
  | minimumRecompVersionNotMet
  | missingDependency
  | wrongDependencyVersion
  deriving DecidableEq, Repr

namespace ModContext

def Active (c : ModContext) (id : String) : Prop := id ∈ c.enabledMods ∨ id ∈ c.autoEnabledMods

instance (c : ModContext) (id : String) : Decidable (c.Active id) :=
  inferInstanceAs (Decidable (_ ∨ _))

def activeMods (c : ModContext) (game : Nat) : List ModHandle :=
  c.openedMods.filter fun mod => mod.isForGame game ∧ c.Active mod.modId

def loadMod (c : ModContext) (projectVersion : Version) (mod : ModHandle) :
    Option ModLoadError × List ContentCall :=
  if projectVersion.lt mod.manifest.minimumRecompVersion then
    (some .minimumRecompVersionNotMet, [])
  else (none, c.onEnabled mod)

/-- The errors of `check_dependencies`, where the loaded mods are the active ones. -/
def checkDependencies (c : ModContext) (game : Nat) (mod : ModHandle) : List ModLoadError :=
  (mod.manifest.dependencies.filter fun d => !d.optional).filterMap fun d =>
    match (c.activeMods game).find? fun m => m.modId = d.modId with
    | none => some .missingDependency
    | some depMod =>
      if depMod.manifest.version.lt d.version then some .wrongDependencyVersion else none

/-- The ids for which `check_dependencies` calls `disable_runtime_toggle`. -/
def toggleDisabled (c : ModContext) (game : Nat) : List String :=
  (c.activeMods game).flatMap fun mod =>
    (if mod.manifest.dependencies = [] then [] else [mod.modId]) ++
      (mod.manifest.dependencies.filter fun d => !d.optional).map Dependency.modId

end ModContext

/-- `disable_runtime_toggle`, for a mod whose id is listed. -/
def ModHandle.disableRuntimeToggle (ids : List String) (mod : ModHandle) : ModHandle :=
  if mod.modId ∈ ids then { mod with runtimeToggleable := false } else mod

section DisableRuntimeToggle

variable (ids : List String) (mod : ModHandle)

@[simp] theorem disableRuntimeToggle_manifest :
    (mod.disableRuntimeToggle ids).manifest = mod.manifest := by
  unfold ModHandle.disableRuntimeToggle
  split <;> rfl

@[simp] theorem disableRuntimeToggle_modId : (mod.disableRuntimeToggle ids).modId = mod.modId := by
  simp only [ModHandle.modId, disableRuntimeToggle_manifest]

@[simp] theorem disableRuntimeToggle_contentTypes :
    (mod.disableRuntimeToggle ids).contentTypes = mod.contentTypes := by
  unfold ModHandle.disableRuntimeToggle
  split <;> rfl

@[simp] theorem disableRuntimeToggle_isForGame (game : Nat) :
    (mod.disableRuntimeToggle ids).isForGame game = mod.isForGame game := by
  unfold ModHandle.disableRuntimeToggle ModHandle.isForGame
  split <;> rfl

end DisableRuntimeToggle

namespace ModContext

def disableRuntimeToggle (c : ModContext) (ids : List String) : ModContext :=
  { c with openedMods := c.openedMods.map (ModHandle.disableRuntimeToggle ids) }

/-- A `load_mods` that returns no error.  The phases for code mods that come
after the dependencies make no content callback and leave this part of the
context alone. -/
def loadMods (c : ModContext) (projectVersion : Version) (modGameId : String) :
    Option (ModContext × List ContentCall) :=
  match c.modGameIds modGameId with
  | none => none
  | some game =>
    if (c.activeMods game).any fun mod => (c.loadMod projectVersion mod).1.isSome then none
    else if (c.activeMods game).any fun mod => c.checkDependencies game mod ≠ [] then none
    else
      some ({ c.disableRuntimeToggle (c.toggleDisabled game) with activeGame := some game },
        (c.activeMods game).flatMap fun mod => (c.loadMod projectVersion mod).2)

end ModContext

/-! ## Balance -/

def ContentCall.key (call : ContentCall) : ModContentTypeId × String := (call.typeId, call.modId)

def callbackNet (type : ModContentTypeId) (id : String) (log : List ContentCall) : Int :=
  net ContentCall.key ContentCall.enabled (type, id) log

structure LoadedMods where
  context : ModContext
  log : List ContentCall

/-- Every content type of every opened mod of the game is enabled once more
than disabled exactly if the mod is active, and was never more than one ahead
or one behind. -/
def LoadedMods.Balanced (s : LoadedMods) : Prop :=
  ∀ game, s.context.activeGame = some game →
    ∀ mod ∈ s.context.openedMods, mod.isForGame game = true → ∀ type ∈ mod.contentTypes,
      callbackNet type mod.modId s.log = (if s.context.Active mod.modId then 1 else 0) ∧
      Within ContentCall.key ContentCall.enabled (type, mod.modId) s.log

def LoadedMods.step (s : LoadedMods) (call : ModContext.EnableCall) : Option LoadedMods :=
  let result := s.context.enableMod call.order call.modId call.enabled call.triggerSave
  some ⟨result.1, s.log ++ result.2⟩

/-! ## When the callbacks are right -/

namespace ModContext

/-- No content type is listed twice for the mod, and each has `on_enabled`. -/
structure FiresEnabled (c : ModContext) (mod : ModHandle) : Prop where
  distinct : mod.contentTypes.Nodup
  present : ∀ type ∈ mod.contentTypes, (c.contentTypes[type]?.map (·.onEnabled)).getD false = true

structure FiresDisabled (c : ModContext) (mod : ModHandle) : Prop where
  distinct : mod.contentTypes.Nodup
  present : ∀ type ∈ mod.contentTypes, (c.contentTypes[type]?.map (·.onDisabled)).getD false = true

def Watched (c : ModContext) (mod : ModHandle) : Prop :=
  mod ∈ c.openedMods ∧ (∃ game, c.activeGame = some game ∧ mod.isForGame game = true) ∧
    mod.contentTypes ≠ []

/-- Enabling a mod with content makes no other mod active and finds it inactive;
enabling a mod without content makes no mod with content active. -/
structure EnableRight (c : ModContext) (mod : ModHandle) : Prop where
  content : mod.contentTypes ≠ [] → c.FiresEnabled mod ∧ mod.modId ∉ c.autoEnabledMods ∧
    ∀ dependency ∈ c.requiredDependencies mod.modId, dependency ∈ c.autoEnabledMods
  reached : ∀ other, c.Watched other → Relation.TransGen c.Requires mod.modId other.modId →
    c.Active other.modId

/-- The mod to disable is not required by an enabled mod, itself included, and
no enabled mod was required only by it. -/
structure DisableRight (c : ModContext) (mod : ModHandle) : Prop where
  content : mod.contentTypes ≠ [] → c.FiresDisabled mod ∧ mod.modId ∉ c.autoEnabledMods
  dropped : ∀ other, c.Watched other → other.modId ≠ mod.modId →
    other.modId ∈ c.autoEnabledMods → ¬ c.Required (c.enabledMods.erase mod.modId) other.modId →
      c.FiresDisabled other ∧ other.modId ∉ c.enabledMods

end ModContext

def ModContext.LoadRight (c : ModContext) (game : Nat) : Prop :=
  ∀ mod ∈ c.activeMods game, c.FiresEnabled mod

/-- A call that is rejected or repeats what is so already is right. -/
def LoadedMods.CallRight (s : LoadedMods) (call : ModContext.EnableCall) : Prop :=
  ∀ mod, s.context.findMod call.modId = some mod → s.context.rejects mod = false →
    if call.enabled then call.modId ∉ s.context.enabledMods → s.context.EnableRight mod
    else call.modId ∈ s.context.enabledMods → s.context.DisableRight mod

/-! ## The callbacks of one mod -/

section OneMod

variable {c : ModContext} {mod : ModHandle} {type : ModContentTypeId} {id : String}

theorem eventsOf_calls {present : ModContentTypeId → Bool} {enabled : Bool}
    (distinct : mod.contentTypes.Nodup) (all : ∀ t ∈ mod.contentTypes, present t = true)
    (listed : type ∈ mod.contentTypes) :
    eventsOf ContentCall.key (type, mod.modId)
        ((mod.contentTypes.filter present).map fun t => (⟨t, mod.modId, enabled⟩ : ContentCall))
      = [⟨type, mod.modId, enabled⟩] := by
  have kept : mod.contentTypes.filter present = mod.contentTypes := List.filter_eq_self.mpr all
  have matching : (fun t => decide (ContentCall.key ⟨t, mod.modId, enabled⟩ = (type, mod.modId)))
      = fun t => decide (t = type) := by
    funext t
    simp [ContentCall.key]
  have once : mod.contentTypes.filter (fun t => decide (t = type)) = [type] := by
    rw [List.filter_eq, List.count_eq_one_of_mem distinct listed, List.replicate_one]
  rw [kept, eventsOf, List.filter_map]
  simp only [Function.comp_def, matching, once, List.map_cons, List.map_nil]

theorem eventsOf_calls_other {types : List ModContentTypeId} {enabled : Bool}
    (other : mod.modId ≠ id) :
    eventsOf ContentCall.key (type, id)
      (types.map fun t => (⟨t, mod.modId, enabled⟩ : ContentCall)) = [] := by
  refine List.filter_eq_nil_iff.mpr fun call made => ?_
  obtain ⟨t, -, rfl⟩ := List.mem_map.mp made
  simp [ContentCall.key, other]

theorem onEnabled_self (fires : c.FiresEnabled mod) (listed : type ∈ mod.contentTypes) :
    eventsOf ContentCall.key (type, mod.modId) (c.onEnabled mod) = [⟨type, mod.modId, true⟩] :=
  eventsOf_calls fires.distinct fires.present listed

theorem onDisabled_self (fires : c.FiresDisabled mod) (listed : type ∈ mod.contentTypes) :
    eventsOf ContentCall.key (type, mod.modId) (c.onDisabled mod) = [⟨type, mod.modId, false⟩] :=
  eventsOf_calls fires.distinct fires.present listed

theorem onEnabled_other (other : mod.modId ≠ id) :
    eventsOf ContentCall.key (type, id) (c.onEnabled mod) = [] := eventsOf_calls_other other

theorem onDisabled_other (other : mod.modId ≠ id) :
    eventsOf ContentCall.key (type, id) (c.onDisabled mod) = [] := eventsOf_calls_other other

end OneMod

/-! ## Balance is kept when the events of a step match the change -/

/-- What is known of one content type of one mod. -/
structure InBalance (type : ModContentTypeId) (id : String) (active : Prop) [Decidable active]
    (log : List ContentCall) : Prop where
  count : callbackNet type id log = (if active then 1 else 0)
  within : Within ContentCall.key ContentCall.enabled (type, id) log

section Changes

variable {type : ModContentTypeId} {id : String} {log calls : List ContentCall}
  {before after : Prop} [Decidable before] [Decidable after]

/-- With at most one event of the mod in `calls`, only the new count matters. -/
theorem InBalance.append (balance : InBalance type id before log)
    (few : (eventsOf ContentCall.key (type, id) calls).length ≤ 1)
    (count : callbackNet type id log + callbackNet type id calls = (if after then 1 else 0)) :
    InBalance type id after (log ++ calls) := by
  have count' : callbackNet type id (log ++ calls) = (if after then 1 else 0) := by
    rw [← count, callbackNet, net_append]
    rfl
  refine ⟨count', balance.within.append few ?_⟩
  change callbackNet type id (log ++ calls) = 0 ∨ callbackNet type id (log ++ calls) = 1
  rw [count']
  split
  · exact .inr rfl
  · exact .inl rfl

theorem InBalance.silent (balance : InBalance type id before log)
    (none_made : eventsOf ContentCall.key (type, id) calls = []) (same : after ↔ before) :
    InBalance type id after (log ++ calls) := by
  refine balance.append (by rw [none_made]; exact Nat.zero_le 1) ?_
  have zero : callbackNet type id calls = 0 := net_of_no_event none_made
  rw [balance.count, zero, add_zero]
  simp only [same]

theorem InBalance.enabled (balance : InBalance type id before log)
    (made : eventsOf ContentCall.key (type, id) calls = [⟨type, id, true⟩])
    (inactive : ¬ before) (active : after) : InBalance type id after (log ++ calls) := by
  refine balance.append (by rw [made]; exact Nat.le_refl 1) ?_
  have one : callbackNet type id calls = 1 := net_of_one_event made
  rw [balance.count, one, if_neg inactive, if_pos active, zero_add]

theorem InBalance.disabled (balance : InBalance type id before log)
    (made : eventsOf ContentCall.key (type, id) calls = [⟨type, id, false⟩])
    (active : before) (inactive : ¬ after) : InBalance type id after (log ++ calls) := by
  refine balance.append (by rw [made]; exact Nat.le_refl 1) ?_
  have minus : callbackNet type id calls = -1 := net_of_one_event made
  rw [balance.count, minus, if_pos active, if_neg inactive]
  rfl

end Changes

/-! ## One call -/

/-- What holds in every state of a run after a load for `game`. -/
structure LoadedMods.Good (game : Nat) (s : LoadedMods) : Prop where
  distinct : (s.context.openedMods.map ModHandle.modId).Nodup
  loaded : s.context.activeGame = some game
  auto : s.context.AutoExact
  balance : ∀ mod ∈ s.context.openedMods, mod.isForGame game = true → ∀ type ∈ mod.contentTypes,
    InBalance type mod.modId (s.context.Active mod.modId) s.log

namespace ModContext

variable {c : ModContext} {game : Nat}

/-- A mod with content that a right call reaches was active already. -/
theorem walk_active (auto : c.AutoExact) {mod other : ModHandle} (right : c.EnableRight mod)
    (watched : c.Watched other) :
    c.Active other.modId ∨ other.modId = mod.modId
      ↔ other.modId ∈ insert mod.modId c.enabledMods ∨
          other.modId ∈ (c.walkFrom c.fireEnabled c.autoEnabledMods mod.modId).autoEnabledMods := by
  rw [mem_walkFrom c.fireEnabled mod.modId (Required.closed auto), Finset.mem_insert]
  constructor
  · rintro ((enabled | auto_enabled) | same)
    · exact .inl (.inr enabled)
    · exact .inr (.inl auto_enabled)
    · exact .inl (.inl same)
  · rintro ((same | enabled) | (auto_enabled | path))
    · exact .inr same
    · exact .inl (.inl enabled)
    · exact .inl (.inr auto_enabled)
    · exact .inl (right.reached other watched path)

/-- The walk of a right call does not begin an edge at a mod with content. -/
theorem walk_silent (distinct : (c.openedMods.map ModHandle.modId).Nodup) (auto : c.AutoExact)
    {mod other : ModHandle} (opened : mod ∈ c.openedMods) (right : c.EnableRight mod)
    (watched : c.Watched other) (type : ModContentTypeId) :
    eventsOf ContentCall.key (type, other.modId)
      (c.walkFrom c.fireEnabled c.autoEnabledMods mod.modId).calls = [] := by
  obtain ⟨new, found, marks, parents⟩ := 
    Worklist.found_run c.turns (rootState c.autoEnabledMods mod.modId)
  have calls := (c.walkFrom_follows c.fireEnabled c.autoEnabledMods mod.modId).calls
  rw [walked, found] at calls
  rw [calls]
  refine eventsOf_flatMap_nil fun e he => ?_
  have fresh : e.2 ∉ c.autoEnabledMods := marks.fresh e he
  have edge : c.Requires e.1 e.2 := marks.edge e he
  have not_other : e.1 ≠ other.modId := by
    intro same
    rcases parents e he with root | child
    · have is_root : e.1 = mod.modId := by simpa [rootState] using root
      have same_mod : mod = other :=
        List.inj_on_of_nodup_map distinct opened watched.1 (is_root.symm.trans same)
      have content := (right.content (same_mod ▸ watched.2.2)).2.2
      exact fresh (content e.2 (is_root ▸ edge))
    · obtain ⟨e', he', reached⟩ := List.mem_map.mp child
      have new_id : e.1 ∉ c.autoEnabledMods := reached ▸ marks.fresh e' he'
      have marked : e.1 ∈ (c.walked c.autoEnabledMods mod.modId).marked :=
        (marks.marked e.1).mpr (.inr child)
      have path := ((mem_walked mod.modId (Required.closed auto) e.1).mp marked).resolve_left new_id
      have active := right.reached other watched (same ▸ path)
      rw [← same] at active
      exact fresh ((auto e.2).mpr ⟨e.1, active.resolve_right new_id, .single edge⟩)
  cases lookup : c.findMod e.1 with
  | none => rfl
  | some current =>
      have other_mod : current.modId ≠ other.modId := findMod_modId lookup ▸ not_other
      simp only [Option.map_some, Option.getD_some, fireEnabled]
      split
      · exact onEnabled_other other_mod
      · rfl

end ModContext

theorem enable_keeps_balance {game : Nat} {s : LoadedMods} (good : s.Good game) {mod : ModHandle}
    (opened : mod ∈ s.context.openedMods) (new : mod.modId ∉ s.context.enabledMods)
    (right : s.context.EnableRight mod) {other : ModHandle} (listed : other ∈ s.context.openedMods)
    (for_game : other.isForGame game = true) {type : ModContentTypeId}
    (has_type : type ∈ other.contentTypes) :
    InBalance type other.modId ((s.context.enableBranch mod.modId mod).1.Active other.modId)
      (s.log ++ (s.context.enableBranch mod.modId mod).2) := by
  have balance := good.balance other listed for_game type has_type
  have watched : s.context.Watched other :=
    ⟨listed, ⟨game, good.loaded, for_game⟩, List.ne_nil_of_mem has_type⟩
  have active := ModContext.walk_active good.auto right watched
  have silent := ModContext.walk_silent good.distinct good.auto opened right watched type
  have fires : s.context.fireEnabled mod = s.context.onEnabled mod := by
    simp [ModContext.fireEnabled, good.loaded]
  simp only [ModContext.enableBranch, if_neg new]
  by_cases same : other.modId = mod.modId
  · obtain rfl : other = mod := List.inj_on_of_nodup_map good.distinct listed opened same
    obtain ⟨callbacks, not_auto, -⟩ := right.content watched.2.2
    refine balance.enabled ?_ (fun was => was.elim new not_auto) (active.mp (.inr rfl))
    rw [eventsOf_append, silent, fires, onEnabled_self callbacks has_type, List.append_nil]
  · refine balance.silent ?_ ?_
    · rw [eventsOf_append, silent, fires, onEnabled_other (Ne.symm same), List.append_nil]
    · exact active.symm.trans ⟨fun h => h.resolve_right same, .inl⟩

section Dropped

variable {c : ModContext} {order : SetOrder} {autoEnabled rebuilt : Finset String}
  {type : ModContentTypeId} {id : String}

theorem dropPrevious_other {y : String} (other : y ∉ rebuilt → y ≠ id) :
    eventsOf ContentCall.key (type, id) (c.dropPrevious rebuilt y) = [] := by
  unfold ModContext.dropPrevious
  by_cases kept : y ∈ rebuilt
  · rw [if_pos kept]
    rfl
  · rw [if_neg kept]
    cases lookup : c.findMod y with
    | none => rfl
    | some previousMod =>
        exact onDisabled_other (ModContext.findMod_modId lookup ▸ other kept)

theorem dropped_other (other : ∀ y ∈ autoEnabled, y ∉ rebuilt → y ≠ id) :
    eventsOf ContentCall.key (type, id) (c.disableDropped (order.list autoEnabled) rebuilt) = [] :=
  eventsOf_flatMap_nil fun y hy => dropPrevious_other (other y ((order.mem autoEnabled y).mp hy))

theorem dropped_self {mod : ModHandle} (found : c.findMod id = some mod)
    (was : id ∈ autoEnabled) (gone : id ∉ rebuilt) :
    eventsOf ContentCall.key (type, id) (c.disableDropped (order.list autoEnabled) rebuilt)
      = eventsOf ContentCall.key (type, id) (c.onDisabled mod) := by
  have self : c.dropPrevious rebuilt id = c.onDisabled mod := by
    simp only [ModContext.dropPrevious, if_neg gone, found]
  rw [ModContext.disableDropped, ← self]
  exact eventsOf_flatMap_single (order.nodup autoEnabled) ((order.mem autoEnabled id).mpr was)
    fun y _ differs => dropPrevious_other fun _ => differs

end Dropped

theorem disable_keeps_balance {game : Nat} {s : LoadedMods} (good : s.Good game)
    (order : SetOrder) {mod : ModHandle} (opened : mod ∈ s.context.openedMods)
    (enabled : mod.modId ∈ s.context.enabledMods) (right : s.context.DisableRight mod)
    {other : ModHandle} (listed : other ∈ s.context.openedMods)
    (for_game : other.isForGame game = true) {type : ModContentTypeId}
    (has_type : type ∈ other.contentTypes) :
    InBalance type other.modId ((s.context.disableBranch order mod.modId mod).1.Active other.modId)
      (s.log ++ (s.context.disableBranch order mod.modId mod).2) := by
  have balance := good.balance other listed for_game type has_type
  have watched : s.context.Watched other :=
    ⟨listed, ⟨game, good.loaded, for_game⟩, List.ne_nil_of_mem has_type⟩
  have rebuilt : other.modId ∈ s.context.rebuiltWithout order mod.modId
      ↔ s.context.Required (s.context.enabledMods.erase mod.modId) other.modId :=
    ModContext.mem_rebuildAutoEnabled order _ _
  have smaller : s.context.Required (s.context.enabledMods.erase mod.modId) other.modId →
      other.modId ∈ s.context.autoEnabledMods := by
    rintro ⟨root, kept, path⟩
    exact (good.auto other.modId).mpr ⟨root, Finset.mem_of_mem_erase kept, path⟩
  have loaded : s.context.activeGame.isSome = true := by rw [good.loaded]; rfl
  simp only [ModContext.disableBranch, if_pos enabled, if_pos loaded]
  have active : ((s.context.setEnabled (s.context.enabledMods.erase mod.modId)
        (s.context.rebuiltWithout order mod.modId)).Active other.modId)
      ↔ other.modId ≠ mod.modId ∧ other.modId ∈ s.context.enabledMods ∨
        s.context.Required (s.context.enabledMods.erase mod.modId) other.modId := by
    rw [← rebuilt, ← Finset.mem_erase]
    rfl
  by_cases same : other.modId = mod.modId
  · obtain rfl : other = mod := List.inj_on_of_nodup_map good.distinct listed opened same
    obtain ⟨callbacks, not_auto⟩ := right.content watched.2.2
    have gone : ¬ s.context.Required (s.context.enabledMods.erase other.modId) other.modId :=
      fun required => not_auto (smaller required)
    have silent : eventsOf ContentCall.key (type, other.modId)
        (s.context.disableDropped (order.list s.context.autoEnabledMods)
          (s.context.rebuiltWithout order other.modId)) = [] :=
      dropped_other fun y was _ is_mod => not_auto (is_mod ▸ was)
    refine balance.disabled ?_ (.inl enabled) ?_
    · rw [eventsOf_append, silent, onDisabled_self callbacks has_type, List.append_nil]
    · rw [active]
      rintro (⟨differs, -⟩ | required)
      · exact differs rfl
      · exact gone required
  · have first : eventsOf ContentCall.key (type, other.modId) (s.context.onDisabled mod) = [] :=
      onDisabled_other (Ne.symm same)
    by_cases dropped : other.modId ∈ s.context.autoEnabledMods ∧
        ¬ s.context.Required (s.context.enabledMods.erase mod.modId) other.modId
    · obtain ⟨was_auto, gone⟩ := dropped
      obtain ⟨callbacks, not_enabled⟩ := right.dropped other watched same was_auto gone
      have events : eventsOf ContentCall.key (type, other.modId)
          (s.context.disableDropped (order.list s.context.autoEnabledMods) _) = _ :=
        dropped_self (ModContext.findMod_of_mem good.distinct listed) was_auto (mt rebuilt.mp gone)
      refine balance.disabled ?_ (.inr was_auto) ?_
      · rw [eventsOf_append, first, events, onDisabled_self callbacks has_type, List.nil_append]
      · rw [active]
        rintro (⟨-, still⟩ | required)
        · exact not_enabled still
        · exact gone required
    · have silent : eventsOf ContentCall.key (type, other.modId)
          (s.context.disableDropped (order.list s.context.autoEnabledMods)
            (s.context.rebuiltWithout order mod.modId)) = [] := by
        refine dropped_other fun y was gone is_other => dropped ?_
        subst is_other
        exact ⟨was, mt rebuilt.mpr gone⟩
      refine balance.silent ?_ ?_
      · rw [eventsOf_append, first, silent, List.append_nil]
      · rw [active]
        constructor
        · rintro (⟨-, still⟩ | required)
          · exact .inl still
          · exact .inr (smaller required)
        · rintro (still | was_auto)
          · exact .inl ⟨same, still⟩
          · exact .inr (by_contra fun gone => dropped ⟨was_auto, gone⟩)

namespace LoadedMods

variable {game : Nat} {s : LoadedMods}

theorem Good.enqueue (good : s.Good game) (request : ModConfigQueueVariant) :
    Good game ⟨s.context.enqueue request, s.log⟩ :=
  ⟨good.distinct, good.loaded, good.auto, good.balance⟩

theorem Good.enableBranch (good : s.Good game) {mod : ModHandle}
    (opened : mod ∈ s.context.openedMods)
    (right : mod.modId ∉ s.context.enabledMods → s.context.EnableRight mod) :
    Good game ⟨(s.context.enableBranch mod.modId mod).1,
      s.log ++ (s.context.enableBranch mod.modId mod).2⟩ := by
  by_cases already : mod.modId ∈ s.context.enabledMods
  · simp only [ModContext.enableBranch, if_pos already, List.append_nil]
    exact good
  · refine ⟨?_, ?_, ModContext.enableBranch_exact good.auto mod.modId mod, ?_⟩
    · simpa using good.distinct
    · simpa using good.loaded
    · intro other listed for_game type has_type
      have opened_before : other ∈ s.context.openedMods := by simpa using listed
      exact enable_keeps_balance good opened already (right already) opened_before for_game has_type

theorem Good.disableBranch (good : s.Good game) (order : SetOrder) {mod : ModHandle}
    (opened : mod ∈ s.context.openedMods)
    (right : mod.modId ∈ s.context.enabledMods → s.context.DisableRight mod) :
    Good game ⟨(s.context.disableBranch order mod.modId mod).1,
      s.log ++ (s.context.disableBranch order mod.modId mod).2⟩ := by
  by_cases enabled : mod.modId ∈ s.context.enabledMods
  · refine ⟨?_, ?_, ModContext.disableBranch_exact good.auto order mod.modId mod, ?_⟩
    · simpa using good.distinct
    · simpa using good.loaded
    · intro other listed for_game type has_type
      have opened_before : other ∈ s.context.openedMods := by simpa using listed
      exact disable_keeps_balance good order opened enabled (right enabled) opened_before for_game
        has_type
  · simp only [ModContext.disableBranch, if_neg enabled, List.append_nil]
    exact good

theorem Good.step (good : s.Good game) {call : ModContext.EnableCall} (right : s.CallRight call)
    {t : LoadedMods} (taken : s.step call = some t) : t.Good game := by
  obtain rfl := Option.some.inj taken
  unfold ModContext.enableMod
  cases lookup : s.context.findMod call.modId with
  | none => simpa using good
  | some mod =>
      have is_id : mod.modId = call.modId := ModContext.findMod_modId lookup
      have opened : mod ∈ s.context.openedMods := ModContext.findMod_mem lookup
      dsimp only
      by_cases rejected : s.context.rejects mod = true
      · simpa [rejected] using good
      · have called := right mod lookup (by simpa using rejected)
        rw [if_neg rejected]
        have toggled : Good game
            ⟨(if call.enabled then s.context.enableBranch call.modId mod
                else s.context.disableBranch call.order call.modId mod).1,
              s.log ++ (if call.enabled then s.context.enableBranch call.modId mod
                else s.context.disableBranch call.order call.modId mod).2⟩ := by
          cases enabled : call.enabled with
          | true =>
              rw [enabled, if_pos rfl, ← is_id] at called
              rw [if_pos rfl, ← is_id]
              exact good.enableBranch opened called
          | false =>
              rw [enabled, if_neg Bool.false_ne_true, ← is_id] at called
              rw [if_neg Bool.false_ne_true, ← is_id]
              exact good.disableBranch call.order opened called
        cases call.triggerSave with
        | true => exact toggled.enqueue .save
        | false => exact toggled

end LoadedMods

/-! ## The load -/

namespace ModContext

variable {c : ModContext}

theorem disableRuntimeToggle_requires (ids : List String) :
    (c.disableRuntimeToggle ids).Requires = c.Requires := by
  have next : (c.disableRuntimeToggle ids).requiredDependencies = c.requiredDependencies := by
    funext id
    have found : (c.disableRuntimeToggle ids).findMod id
        = (c.findMod id).map (ModHandle.disableRuntimeToggle ids) := by
      simp only [findMod, disableRuntimeToggle, List.find?_map, Function.comp_def,
        disableRuntimeToggle_modId]
    simp only [requiredDependencies, found]
    cases c.findMod id with
    | none => rfl
    | some mod => simp
  rw [Requires, next]

theorem loadMods_some {projectVersion : Version} {modGameId : String} {s : LoadedMods}
    (loaded : c.loadMods projectVersion modGameId = some (s.context, s.log)) :
    ∃ game, c.modGameIds modGameId = some game ∧
      s.context = { c.disableRuntimeToggle (c.toggleDisabled game) with activeGame := some game } ∧
      s.log = (c.activeMods game).flatMap c.onEnabled := by
  unfold loadMods at loaded
  split at loaded
  · contradiction
  · rename_i game known
    split at loaded
    · contradiction
    · rename_i none_old
      split at loaded
      · contradiction
      · obtain ⟨context, log⟩ := Prod.mk.inj (Option.some.inj loaded)
        refine ⟨game, known, context.symm, log.symm.trans ?_⟩
        refine List.flatMap_congr fun mod active => ?_
        have new_enough : ¬ projectVersion.lt mod.manifest.minimumRecompVersion = true := by
          intro old
          refine none_old (List.any_eq_true.mpr ⟨mod, active, ?_⟩)
          simp [loadMod, old]
        rw [loadMod, if_neg new_enough]

theorem load_balance (distinct : (c.openedMods.map ModHandle.modId).Nodup) {game : Nat}
    (right : c.LoadRight game) {mod : ModHandle} (opened : mod ∈ c.openedMods)
    (for_game : mod.isForGame game = true) {type : ModContentTypeId}
    (has_type : type ∈ mod.contentTypes) :
    InBalance type mod.modId (c.Active mod.modId) ((c.activeMods game).flatMap c.onEnabled) := by
  have start : InBalance type mod.modId False [] := ⟨rfl, within_nil⟩
  have others : ∀ m ∈ c.activeMods game, m ≠ mod →
      eventsOf ContentCall.key (type, mod.modId) (c.onEnabled m) = [] := by
    intro m active differs
    refine onEnabled_other fun same => differs ?_
    exact List.inj_on_of_nodup_map distinct (List.mem_filter.mp active).1 opened same
  rw [← List.nil_append ((c.activeMods game).flatMap c.onEnabled)]
  by_cases active : c.Active mod.modId
  · have listed : mod ∈ c.activeMods game :=
      List.mem_filter.mpr ⟨opened, by simp [for_game, active]⟩
    have loaded_once : (c.activeMods game).Nodup := (List.Nodup.of_map _ distinct).filter _
    refine start.enabled ?_ id active
    rw [eventsOf_flatMap_single loaded_once listed others]
    exact onEnabled_self (right mod listed) has_type
  · refine start.silent (eventsOf_flatMap_nil fun m loaded => others m loaded ?_) (by simp [active])
    rintro rfl
    have was : c.Active m.modId := by simpa [for_game] using (List.mem_filter.mp loaded).2
    exact active was

def Loads (c : ModContext) (projectVersion : Version) (modGameId : String) (s : LoadedMods) :
    Prop :=
  c.loadMods projectVersion modGameId = some (s.context, s.log)

theorem loads_good (distinct : (c.openedMods.map ModHandle.modId).Nodup) (auto : c.AutoExact)
    {projectVersion : Version} {modGameId : String} {s : LoadedMods}
    (loaded : c.Loads projectVersion modGameId s)
    (right : ∀ game, c.modGameIds modGameId = some game → c.LoadRight game) :
    ∃ game, s.Good game := by
  obtain ⟨game, known, context, log⟩ := loadMods_some loaded
  have ids : s.context.openedMods.map ModHandle.modId = c.openedMods.map ModHandle.modId := by
    rw [context]
    simp [disableRuntimeToggle]
  refine ⟨game, ids ▸ distinct, by rw [context], ?_, ?_⟩
  · intro id
    rw [Required, context]
    change id ∈ c.autoEnabledMods ↔ ∃ root ∈ c.enabledMods, Relation.TransGen
      (c.disableRuntimeToggle (c.toggleDisabled game)).Requires root id
    rw [disableRuntimeToggle_requires]
    exact auto id
  · intro mod listed for_game type has_type
    rw [context] at listed
    obtain ⟨original, opened, rfl⟩ := List.mem_map.mp listed
    simp only [disableRuntimeToggle_isForGame, disableRuntimeToggle_contentTypes] at for_game has_type
    have balance := load_balance distinct (right game known) opened for_game has_type
    rw [log, disableRuntimeToggle_modId]
    have same : s.context.Active original.modId ↔ c.Active original.modId := by
      rw [context]
      rfl
    exact ⟨by rw [balance.count]; simp only [same], balance.within⟩

end ModContext

/-! ## Runs -/

/-- Mods loaded from the state that some calls of `enable_mod` leave. -/
def LoadedFrom (c : ModContext) (before : List ModContext.EnableCall) (projectVersion : Version)
    (modGameId : String) (s : LoadedMods) : Prop :=
  (c.noneEnabled.enableMods before).Loads projectVersion modGameId s

/-- The load and every call that follows it are right: then all content types
are in balance after each call. -/
theorem content_callbacks_balanced {c : ModContext} (unique : c.UniqueIds)
    {before : List ModContext.EnableCall} {projectVersion : Version} {modGameId : String}
    (load_right : ∀ game, (c.noneEnabled.enableMods before).modGameIds modGameId = some game →
      (c.noneEnabled.enableMods before).LoadRight game)
    {s : LoadedMods}
    (reached : Reach LoadedMods.step LoadedMods.CallRight
      (LoadedFrom c before projectVersion modGameId) s) :
    s.Balanced := by
  have distinct : ((c.noneEnabled.enableMods before).openedMods.map ModHandle.modId).Nodup := by
    rw [ModContext.enableMods_openedMods]
    exact unique.nodup
  have auto := ModContext.enableMods_exact c.noneEnabled_exact before
  have good : ∃ game, s.Good game := by
    refine reached.invariant (I := fun t => ∃ game, t.Good game) ?_ ?_
    · exact fun t loaded => ModContext.loads_good distinct auto loaded load_right
    · rintro t call u ⟨game, good⟩ right taken
      exact ⟨game, good.step right taken⟩
  obtain ⟨game, good⟩ := good
  intro game' loaded mod opened for_game type has_type
  obtain rfl : game = game' := Option.some.inj (good.loaded.symm.trans loaded)
  have balance := good.balance mod opened for_game type has_type
  exact ⟨balance.count, balance.within⟩

/-! ## A mod and the mod it requires -/

def sortedOrder : SetOrder :=
  ⟨fun s => s.sort (· ≤ ·), fun s _ => s.mem_sort _, fun s => s.sort_nodup _⟩

def textureMod (id : String) (requires : List String) : ModHandle :=
  { manifest :=
      { modId := id
        dependencies := requires.map fun d => ⟨d, ⟨1, 0, 0⟩, false⟩
        configSchema := fun _ => none
        minimumRecompVersion := ⟨1, 0, 0⟩
        version := ⟨1, 0, 0⟩
        enabledByDefault := false }
    configStorage := fun _ => none
    gameIndices := [0]
    contentTypes := [1]
    runtimeToggleable := true }

/-- Mod `a` requires mod `b`; type 0 is the code content type. -/
def twoMods : ModContext :=
  { contentTypes := [⟨false, true, false, false⟩, ⟨true, true, true, true⟩]
    modGameIds := fun id => if id = "game" then some 0 else none
    openedMods := [textureMod "a" ["b"], textureMod "b" []]
    openedModsOrder := [0, 1]
    modOrderLookup := [some 0, some 1]
    modIds := {"a", "b"}
    enabledMods := ∅
    autoEnabledMods := ∅
    activeGame := none
    modConfigurationThreadQueue := [] }

def twoModsLoaded : LoadedMods := ⟨{ twoMods with activeGame := some 0 }, []⟩

def enableCall (id : String) : ModContext.EnableCall := ⟨sortedOrder, id, true, false⟩

theorem twoMods_unique : twoMods.UniqueIds := ⟨by decide, by decide⟩

theorem twoMods_loads : LoadedFrom twoMods [] ⟨1, 0, 0⟩ "game" twoModsLoaded := rfl

/-- Enabling `a` calls its `on_enabled` a second time, in place of that of `b`. -/
theorem required_mod_not_called :
    ¬ ∀ s, Reach LoadedMods.step Always (LoadedFrom twoMods [] ⟨1, 0, 0⟩ "game") s →
        s.Balanced := by
  intro claimed
  have balanced := claimed _ (.next (enableCall "a") (.start twoMods_loads) trivial rfl)
  have opened : textureMod "a" ["b"] ∈
      (twoModsLoaded.context.enableMod sortedOrder "a" true false).1.openedMods := by
    rw [ModContext.enableMod_openedMods]
    exact List.mem_cons_self
  have count := (balanced 0 (by decide) _ opened (by decide) 1 (by decide)).1
  exact absurd count (by decide)

theorem no_dependency_right : twoModsLoaded.CallRight (enableCall "b") := by
  intro mod found _
  obtain rfl : textureMod "b" [] = mod := Option.some.inj found
  intro _
  have required : twoModsLoaded.context.requiredDependencies "b" = [] := by decide
  refine ⟨fun _ => ⟨⟨by decide, by decide⟩, by decide, by decide⟩, ?_⟩
  intro other _ path
  obtain ⟨next, edge, -⟩ := Relation.TransGen.head'_iff.mp path
  have listed : next ∈ twoModsLoaded.context.requiredDependencies "b" := edge
  rw [required] at listed
  contradiction

theorem enabling_alone_balanced :
    ∃ s, s.context.enabledMods = {"b"} ∧ Reach LoadedMods.step LoadedMods.CallRight
        (LoadedFrom twoMods [] ⟨1, 0, 0⟩ "game") s ∧ s.Balanced := by
  have reached : Reach LoadedMods.step LoadedMods.CallRight
      (LoadedFrom twoMods [] ⟨1, 0, 0⟩ "game") _ :=
    .next (enableCall "b") (.start twoMods_loads) no_dependency_right rfl
  refine ⟨_, ?_, reached, content_callbacks_balanced twoMods_unique ?_ reached⟩
  · decide
  · intro game known mod active
    obtain rfl : game = 0 := Option.some.inj (known.symm.trans rfl)
    have none_active : (twoMods.noneEnabled.enableMods []).activeMods 0 = [] := by decide
    rw [none_active] at active
    contradiction

end N64ModernRuntime.Librecomp
