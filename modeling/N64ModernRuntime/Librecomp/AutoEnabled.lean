import N64ModernRuntime.Librecomp.ModContext

/-!
# mods.cpp: the auto-enabled mods are those that an enabled mod requires

`enable_mod` keeps `auto_enabled_mods` with a worklist that does not look again
at what is already auto-enabled, and rebuilds the set when a mod is disabled.
Both give what the enabled mods reach over required dependencies.
-/

set_option autoImplicit false

namespace N64ModernRuntime.Librecomp

open Worklist (Edge Marks)
open Relation (TransGen)

namespace ModContext

def requiredDependencies (c : ModContext) (id : String) : List String :=
  match c.findMod id with
  | none => []
  | some mod => (mod.manifest.dependencies.filter fun d => !d.optional).map Dependency.modId

abbrev Requires (c : ModContext) : String → String → Prop := Edge c.requiredDependencies

/-- What some mod in `roots` reaches over one or more required dependencies. -/
def Required (c : ModContext) (roots : Finset String) (id : String) : Prop :=
  ∃ root ∈ roots, TransGen c.Requires root id

end ModContext

/-! ## The loops are a worklist -/

def Walk.worklist (w : Walk) (found : List (String × String)) : Worklist.State String :=
  ⟨w.autoEnabledMods, w.pending, found⟩

/-- The loop stands where the worklist does, and has called `fire` for the mod
at the beginning of each marked edge. -/
structure Walk.Follows (c : ModContext) (fire : ModHandle → List ContentCall) (w : Walk)
    (s : Worklist.State String) : Prop where
  marked : w.autoEnabledMods = s.marked
  pending : w.pending = s.pending
  calls : w.calls = s.found.flatMap fun e => ((c.findMod e.1).map fire).getD []

section Follows

variable {c : ModContext} {fire : ModHandle → List ContentCall}

theorem autoEnable_follows {id : String} {mod : ModHandle} (opened : c.findMod id = some mod)
    {w : Walk} {s : Worklist.State String} (follows : w.Follows c fire s) (d : Dependency) :
    (ModContext.autoEnable fire mod w d).Follows c fire
      (if d.optional then s else s.mark id d.modId) := by
  unfold ModContext.autoEnable
  by_cases optional : d.optional = true
  · rw [if_pos (.inl optional), if_pos optional]
    exact follows
  · rw [if_neg optional, Worklist.State.mark, ← follows.marked]
    by_cases old : d.modId ∈ w.autoEnabledMods
    · rw [if_pos (.inr old), if_pos old]
      exact follows
    · rw [if_neg (by simp [optional, old]), if_neg old]
      refine ⟨rfl, by rw [follows.pending], ?_⟩
      simp [follows.calls, opened]

theorem dependencies_follow {id : String} {mod : ModHandle} (opened : c.findMod id = some mod)
    (dependencies : List Dependency) {w : Walk} {s : Worklist.State String}
    (follows : w.Follows c fire s) :
    (dependencies.foldl (ModContext.autoEnable fire mod) w).Follows c fire
      (((dependencies.filter fun d => !d.optional).map Dependency.modId).foldl
        (Worklist.State.mark id) s) := by
  induction dependencies generalizing w s with
  | nil => exact follows
  | cons d rest ih =>
      have first := autoEnable_follows opened follows d
      rw [List.foldl_cons]
      by_cases optional : d.optional = true
      · rw [if_pos optional] at first
        simpa [optional] using ih first
      · rw [if_neg optional] at first
        simpa [optional] using ih first

theorem visitPending_follows {w : Walk} {s : Worklist.State String}
    (follows : w.Follows c fire s) :
    (c.visitPending fire w).Follows c fire (s.visit c.requiredDependencies) := by
  unfold ModContext.visitPending Worklist.State.visit
  rw [follows.pending]
  cases pending : s.pending with
  | nil => exact follows
  | cons id rest =>
      have popped : Walk.Follows c fire { w with pending := rest } { s with pending := rest } :=
        ⟨follows.marked, rfl, follows.calls⟩
      cases found : c.findMod id with
      | none => simpa [ModContext.requiredDependencies, found] using popped
      | some mod =>
          simp only [ModContext.requiredDependencies, found]
          exact dependencies_follow found mod.manifest.dependencies popped

theorem walkPending_follows (n : Nat) {w : Walk} {s : Worklist.State String}
    (follows : w.Follows c fire s) :
    (c.walkPending fire n w).Follows c fire (Worklist.run c.requiredDependencies n s) := by
  induction n generalizing w s with
  | zero => exact follows
  | succ n ih => exact ih (visitPending_follows follows)

end Follows

namespace ModContext

section Walks

variable (c : ModContext) (fire : ModHandle → List ContentCall)
  (autoEnabledMods : Finset String) (root : String)

def rootState : Worklist.State String := ⟨autoEnabledMods, [root], []⟩

def walked : Worklist.State String :=
  Worklist.run c.requiredDependencies c.turns (rootState autoEnabledMods root)

theorem walkFrom_follows :
    (c.walkFrom fire autoEnabledMods root).Follows c fire (c.walked autoEnabledMods root) :=
  walkPending_follows c.turns ⟨rfl, rfl, rfl⟩

def allDependencies : List Dependency :=
  c.openedMods.flatMap fun mod => mod.manifest.dependencies

theorem requiredDependencies_listed (id dependency : String)
    (required : dependency ∈ c.requiredDependencies id) :
    dependency ∈ (c.allDependencies.map Dependency.modId).toFinset := by
  unfold requiredDependencies at required
  cases found : c.findMod id with
  | none => simp [found] at required
  | some mod =>
      rw [found] at required
      obtain ⟨d, listed, rfl⟩ := List.mem_map.mp required
      refine List.mem_toFinset.mpr (List.mem_map_of_mem (List.mem_flatMap.mpr ⟨mod, ?_, ?_⟩))
      · exact findMod_mem found
      · exact (List.mem_filter.mp listed).1

/-- The loops of `enable_mod` end: nothing is pending after `turns` turns. -/
theorem walked_ends : (c.walked autoEnabledMods root).pending = [] := by
  refine Worklist.run_ends c.requiredDependencies_listed c.turns _ ?_
  have few : ((c.allDependencies.map Dependency.modId).toFinset \ autoEnabledMods).card
      ≤ c.allDependencies.length := by
    calc ((c.allDependencies.map Dependency.modId).toFinset \ autoEnabledMods).card
        ≤ (c.allDependencies.map Dependency.modId).toFinset.card :=
          Finset.card_le_card Finset.sdiff_subset
      _ ≤ (c.allDependencies.map Dependency.modId).length := List.toFinset_card_le _
      _ = c.allDependencies.length := List.length_map _
  simp only [Worklist.State.size, rootState, turns, List.length_singleton]
  exact Nat.add_le_add_right (Nat.mul_le_mul_left 2 few) 1

theorem walkFrom_ends : (c.walkFrom fire autoEnabledMods root).pending = [] := by
  rw [(c.walkFrom_follows fire autoEnabledMods root).pending, walked_ends]

def ClosedUnderRequires (s : Finset String) : Prop :=
  ∀ id ∈ s, ∀ dependency ∈ c.requiredDependencies id, dependency ∈ s

variable {c autoEnabledMods}

theorem mem_walked (closed : c.ClosedUnderRequires autoEnabledMods) (id : String) :
    id ∈ (c.walked autoEnabledMods root).marked
      ↔ id ∈ autoEnabledMods ∨ TransGen c.Requires root id := by
  have reached := Worklist.mem_marked_run (s := rootState autoEnabledMods root)
    (fun x old => .inr (closed x old)) (c.walked_ends autoEnabledMods root) id
  rw [walked, reached]
  simp [rootState]

theorem mem_walkFrom (closed : c.ClosedUnderRequires autoEnabledMods) (id : String) :
    id ∈ (c.walkFrom fire autoEnabledMods root).autoEnabledMods
      ↔ id ∈ autoEnabledMods ∨ TransGen c.Requires root id := by
  rw [(c.walkFrom_follows fire autoEnabledMods root).marked]
  exact mem_walked root closed id

end Walks

/-! ## The set after a call -/

/-- `auto_enabled_mods` is what the enabled mods require. -/
def AutoExact (c : ModContext) : Prop :=
  ∀ id, id ∈ c.autoEnabledMods ↔ c.Required c.enabledMods id

variable {c : ModContext}

theorem Required.closed {s : Finset String} {roots : Finset String}
    (exact_ : ∀ id, id ∈ s ↔ c.Required roots id) : c.ClosedUnderRequires s := by
  intro id reached dependency edge
  obtain ⟨root, enabled, path⟩ := (exact_ id).mp reached
  exact (exact_ dependency).mpr ⟨root, enabled, path.tail edge⟩

theorem required_insert {roots : Finset String} (root id : String) :
    c.Required (insert root roots) id ↔ c.Required roots id ∨ TransGen c.Requires root id := by
  constructor
  · rintro ⟨r, enabled, path⟩
    rcases Finset.mem_insert.mp enabled with rfl | enabled
    · exact .inr path
    · exact .inl ⟨r, enabled, path⟩
  · rintro (⟨r, enabled, path⟩ | path)
    · exact ⟨r, Finset.mem_insert_of_mem enabled, path⟩
    · exact ⟨root, Finset.mem_insert_self root roots, path⟩

/-- The walk from a newly enabled mod gives what the enlarged set requires. -/
theorem walk_exact {roots autoEnabledMods : Finset String} (fire : ModHandle → List ContentCall)
    (before : ∀ id, id ∈ autoEnabledMods ↔ c.Required roots id) (root id : String) :
    id ∈ (c.walkFrom fire autoEnabledMods root).autoEnabledMods
      ↔ c.Required (insert root roots) id := by
  rw [mem_walkFrom fire root (Required.closed before), required_insert, before]

theorem rebuild_exact_from (roots : List String) (old done : Finset String)
    (before : ∀ id, id ∈ old ↔ c.Required done id) (id : String) :
    id ∈ roots.foldl (fun rebuilt root =>
        (c.walkFrom (fun _ => []) rebuilt root).autoEnabledMods) old
      ↔ c.Required (done ∪ roots.toFinset) id := by
  induction roots generalizing old done with
  | nil => simpa using before id
  | cons root rest ih =>
      rw [List.foldl_cons, ih _ (insert root done) (walk_exact _ before root)]
      rw [List.toFinset_cons, Finset.insert_union, Finset.union_insert]

/-- The rebuilt set is what the roots require, in whatever order they are taken. -/
theorem mem_rebuildAutoEnabled (order : SetOrder) (roots : Finset String) (id : String) :
    id ∈ c.rebuildAutoEnabled (order.list roots) ↔ c.Required roots id := by
  have none_required : ∀ id, id ∈ (∅ : Finset String) ↔ c.Required ∅ id := by
    simp [Required]
  have same_roots : (order.list roots).toFinset = roots := by
    ext x
    rw [List.mem_toFinset, order.mem]
  unfold rebuildAutoEnabled
  rw [rebuild_exact_from _ ∅ ∅ none_required id, Finset.empty_union, same_roots]

theorem autoExact_setEnabled (enabledMods autoEnabledMods : Finset String) :
    (c.setEnabled enabledMods autoEnabledMods).AutoExact
      ↔ ∀ id, id ∈ autoEnabledMods ↔ c.Required enabledMods id := Iff.rfl

theorem autoExact_enqueue (request : ModConfigQueueVariant) :
    (c.enqueue request).AutoExact ↔ c.AutoExact := Iff.rfl

theorem enableBranch_exact (exact_ : c.AutoExact) (modId : String) (mod : ModHandle) :
    (c.enableBranch modId mod).1.AutoExact := by
  unfold enableBranch
  by_cases already : modId ∈ c.enabledMods
  · rwa [if_pos already]
  · rw [if_neg already]
    exact (autoExact_setEnabled _ _).mpr (walk_exact c.fireEnabled exact_ modId)

theorem disableBranch_exact (exact_ : c.AutoExact) (order : SetOrder) (modId : String)
    (mod : ModHandle) : (c.disableBranch order modId mod).1.AutoExact := by
  unfold disableBranch
  by_cases enabled : modId ∈ c.enabledMods
  · rw [if_pos enabled]
    exact (autoExact_setEnabled _ _).mpr (mem_rebuildAutoEnabled order (c.enabledMods.erase modId))
  · rwa [if_neg enabled]

theorem enableMod_exact (exact_ : c.AutoExact) (order : SetOrder) (modId : String)
    (enabled triggerSave : Bool) : (c.enableMod order modId enabled triggerSave).1.AutoExact := by
  unfold enableMod
  cases c.findMod modId with
  | none => exact exact_
  | some mod =>
      dsimp only
      by_cases rejected : c.rejects mod = true
      · rwa [if_pos rejected]
      · rw [if_neg rejected]
        have toggled : (if enabled then c.enableBranch modId mod
            else c.disableBranch order modId mod).1.AutoExact := by
          cases enabled with
          | true => exact enableBranch_exact exact_ modId mod
          | false => exact disableBranch_exact exact_ order modId mod
        cases triggerSave with
        | true => exact (autoExact_enqueue .save).mpr toggled
        | false => exact toggled

/-! ## Runs of calls -/

/-- A call of `enable_mod`, with the order in which it finds the sets. -/
structure EnableCall where
  order : SetOrder
  modId : String
  enabled : Bool
  triggerSave : Bool

def enableMods (c : ModContext) (calls : List EnableCall) : ModContext :=
  calls.foldl (fun c call => (c.enableMod call.order call.modId call.enabled call.triggerSave).1) c

def noneEnabled (c : ModContext) : ModContext :=
  { c with enabledMods := ∅, autoEnabledMods := ∅ }

theorem noneEnabled_exact (c : ModContext) : c.noneEnabled.AutoExact := by
  intro id
  simp [noneEnabled, Required]

theorem enableMods_exact (exact_ : c.AutoExact) (calls : List EnableCall) :
    (c.enableMods calls).AutoExact := by
  induction calls generalizing c with
  | nil => exact exact_
  | cons call rest ih =>
      exact ih (enableMod_exact exact_ call.order call.modId call.enabled call.triggerSave)

theorem enableMod_openedMods (c : ModContext) (order : SetOrder) (modId : String)
    (enabled triggerSave : Bool) :
    (c.enableMod order modId enabled triggerSave).1.openedMods = c.openedMods := by
  obtain ⟨_, _, _, same⟩ := c.enableMod_frame order modId enabled triggerSave
  rw [same]

theorem enableMods_openedMods (c : ModContext) (calls : List EnableCall) :
    (c.enableMods calls).openedMods = c.openedMods := by
  induction calls generalizing c with
  | nil => rfl
  | cons call rest ih =>
      rw [enableMods, List.foldl_cons]
      exact (ih _).trans (c.enableMod_openedMods call.order call.modId call.enabled call.triggerSave)

theorem requires_congr {c d : ModContext} (same : d.openedMods = c.openedMods) :
    d.Requires = c.Requires := by
  have next : d.requiredDependencies = c.requiredDependencies := by
    funext id
    simp only [requiredDependencies, findMod, same]
  rw [Requires, next]

/-- After any calls of `enable_mod` the auto-enabled mods are those that an
enabled mod reaches over one or more required dependencies, and a rebuild in
any order gives the set that is there. -/
theorem auto_enabled_mods_closure (c : ModContext) (calls : List EnableCall) :
    (∀ id, id ∈ (c.noneEnabled.enableMods calls).autoEnabledMods
      ↔ ∃ root ∈ (c.noneEnabled.enableMods calls).enabledMods, TransGen c.Requires root id) ∧
    ∀ order : SetOrder,
      (c.noneEnabled.enableMods calls).rebuildAutoEnabled
          (order.list (c.noneEnabled.enableMods calls).enabledMods)
        = (c.noneEnabled.enableMods calls).autoEnabledMods := by
  have exact_ := enableMods_exact c.noneEnabled_exact calls
  have graph : (c.noneEnabled.enableMods calls).Requires = c.Requires :=
    requires_congr (enableMods_openedMods c.noneEnabled calls)
  constructor
  · intro id
    rw [exact_ id, Required, graph]
  · intro order
    ext id
    rw [mem_rebuildAutoEnabled, exact_ id]

end ModContext

end N64ModernRuntime.Librecomp
