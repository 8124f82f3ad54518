import N64ModernRuntime.Lib.Transition
import N64ModernRuntime.Librecomp.MadeHandles

/-!
# mods.cpp: loads that fail

`load_mods` calls `unload_mods` when a phase has met an error.  That puts back the
bytes of native functions and clears the hooks and the listeners; `func_map`, the
tables of the mods and their code handles stay.  The loads that are undone all the
same are those whose phases have added nothing there.
-/

set_option autoImplicit false

namespace N64ModernRuntime.Librecomp

open FailingSteps

namespace CodeMods

/-! ## What a failed load is to leave -/

def NoDangling (s : CodeMods) : Prop :=
  ∀ handle index, s.JumpTarget (.code handle index) → s.Owned handle

/-- A load has left nothing behind, and the context is as one that has loaded nothing. -/
structure Undone (before after : CodeMods) : Prop where
  bytes : after.bytes = before.bytes
  funcMap : after.funcMap = before.funcMap
  hookSlots : after.hookSlots = before.hookSlots
  gHookSlots : after.gHookSlots = before.gHookSlots
  gEventListeners : after.gEventListeners = before.gEventListeners
  exportsByName : ∀ index, (after.mods index).exportsByName = (before.mods index).exportsByName
  eventsByName : ∀ index, (after.mods index).eventsByName = (before.mods index).eventsByName
  nativeLibraryExports : ∀ index,
    (after.mods index).nativeLibraryExports = (before.mods index).nativeLibraryExports
  nativeLibraries : ∀ index,
    (after.mods index).nativeLibraries = (before.mods index).nativeLibraries
  noDangling : after.NoDangling
  patchedFuncs : after.patchedFuncs = []
  loadedModsById : after.loadedModsById = fun _ => none
  processedHookSlots : after.processedHookSlots = []
  shimFunctions : after.shimFunctions = []
  activeGame : after.context.activeGame = none

structure Unloaded (s : CodeMods) : Prop where
  hookSlots : s.hookSlots = .empty
  gHookSlots : s.gHookSlots = []
  gEventListeners : s.gEventListeners = []

/-- A code handle is owned by a mod that keeps it, or by the context. -/
def OwnedApart (s : CodeMods) (renewed : Set Nat) (handle : Nat) : Prop :=
  (∃ index ∉ renewed, (s.mods index).codeHandle = some handle) ∨
    s.regeneratedCodeHandle = some handle ∨ s.basePatchedCodeHandle = some handle

section Undone
variable {env : LoadEnv} {renewed : Set Nat} {s t : CodeMods}

theorem Undone.tables (undone : Undone s t) : t.tables = s.tables := by
  funext index
  rw [CodeMods.tables, CodeMods.tables, undone.exportsByName, undone.eventsByName,
    undone.nativeLibraryExports, undone.nativeLibraries]

theorem marks_congr {base : Nat} (tables : t.tables = s.tables) (funcMap : t.funcMap = s.funcMap) :
    marks base t = marks base s :=
  SameTables.marks_eq (s := s) (t := { t with handles := s.handles })
    ⟨tables, funcMap, Nat.le_refl _⟩ base

theorem Undone.marks_eq (base : Nat) (undone : Undone s (t.unloadMods env)) :
    marks base t = marks base s :=
  marks_congr (t := t.unloadMods env) undone.tables undone.funcMap

theorem Undone.unloaded (undone : Undone s (t.unloadMods env)) : s.Unloaded :=
  ⟨undone.hookSlots.symm, undone.gHookSlots.symm, undone.gEventListeners.symm⟩

theorem Keeps.unpatch_eq (unpatched : s.patchedFuncs = [])
    (keeps : Keeps s.handles.length renewed s t) : t.unpatch = s.bytes := by
  funext native
  rw [unpatch, keeps.patchedFuncs, unpatched]
  exact congrFun keeps.bytes native

theorem Keeps.jumpTarget_iff (env : LoadEnv) (made : s.Made) (unpatched : s.patchedFuncs = [])
    (unloaded : s.Unloaded) (keeps : Keeps s.handles.length renewed s t)
    (func : GenericFunction) :
    (t.unloadMods env).JumpTarget func ↔ s.JumpTarget func := by
  have bytes : (t.unloadMods env).bytes = s.bytes := keeps.unpatch_eq unpatched
  have funcMap : (t.unloadMods env).funcMap = s.funcMap := keeps.funcMap
  have listeners := unloaded.gEventListeners
  have hooks := unloaded.gHookSlots
  have handles {handle index : Nat} (target : s.JumpTarget (.code handle index)) :
      (t.unloadMods env).handles[handle]? = s.handles[handle]? :=
    keeps.handles handle (made.handlesMade handle index target)
  constructor
  · intro target
    exact target.transfer bytes.symm funcMap.symm listeners hooks
      fun _ _ _ before => (handles before).symm
  · intro target
    exact target.transfer bytes funcMap listeners.symm hooks.symm fun _ _ before _ => handles before

theorem Keeps.owned_iff (keeps : Keeps s.handles.length renewed s t)
    (new : ∀ index ∈ renewed, Renewed s.handles.length index t) {handle : Nat}
    (old : handle < s.handles.length) :
    (t.unloadMods env).Owned handle ↔ s.OwnedApart renewed handle := by
  change ((∃ index, (t.mods index).codeHandle = some handle) ∨
    t.regeneratedCodeHandle = some handle ∨ t.basePatchedCodeHandle = some handle) ↔ _
  rw [keeps.regenerated, keeps.basePatched]
  refine or_congr_left ⟨?_, ?_⟩
  · rintro ⟨index, owns⟩
    have apart : index ∉ renewed := fun mem =>
      Nat.not_le_of_lt old (new index mem handle owns)
    exact ⟨index, apart, (keeps.codeHandle index apart).symm.trans owns⟩
  · rintro ⟨index, apart, owns⟩
    exact ⟨index, (keeps.codeHandle index apart).trans owns⟩

/-- A load in which the process has stayed is undone if nothing was registered before it, and
every jump leads to a handle that is kept. -/
theorem Keeps.undone_iff (made : s.Made) (unpatched : s.patchedFuncs = [])
    (keeps : Keeps s.handles.length renewed s t)
    (new : ∀ index ∈ renewed, Renewed s.handles.length index t) :
    Undone s (t.unloadMods env) ↔ s.Unloaded ∧
      ∀ handle index, s.JumpTarget (.code handle index) → s.OwnedApart renewed handle := by
  constructor
  · intro undone
    refine ⟨undone.unloaded, fun handle index target => ?_⟩
    have after := (keeps.jumpTarget_iff env made unpatched undone.unloaded _).mpr target
    exact (keeps.owned_iff new (made.handlesMade handle index target)).mp
      (undone.noDangling handle index after)
  · rintro ⟨unloaded, linked⟩
    have table (index : Nat) := congrFun keeps.tables index
    simp only [CodeMods.tables, ModTables.mk.injEq] at table
    refine ⟨?_, keeps.funcMap, unloaded.hookSlots.symm, unloaded.gHookSlots.symm,
      unloaded.gEventListeners.symm, fun index => (table index).1, fun index => (table index).2.1,
      fun index => (table index).2.2.1, fun index => (table index).2.2.2, ?_, rfl, rfl, rfl, rfl,
      rfl⟩
    · exact keeps.unpatch_eq unpatched
    · intro handle index after
      have target := (keeps.jumpTarget_iff env made unpatched unloaded _).mp after
      exact (keeps.owned_iff new (made.handlesMade handle index target)).mpr
        (linked handle index target)

end Undone

/-! ## The condition -/

section Condition
variable (s : CodeMods) (env : LoadEnv) (game : Nat)

def codeModIndices : List Nat :=
  s.context.codeEnabled env (s.lookupWith (activeModIndices s.context game))
    (activeModIndices s.context game)

def StopsEarly : Prop :=
  ∃ index ∈ activeModIndices s.context game, s.context.LoadFails env index ∨
    s.context.DependencyFails (s.lookupWith (activeModIndices s.context game)) index

def ReachesCode : Prop :=
  ¬ s.StopsEarly env game ∧ ∀ index ∈ s.codeModIndices env game, ¬ s.InitFails env index

def newHookSlots : HookSlots := addHookSlots env (s.codeModIndices env game) .empty

def renewedMods : Set Nat :=
  {index | s.ReachesCode env game ∧ index ∈ s.codeModIndices env game ∧
    ∀ context ∈ env.symbolsTaken index,
      ¬ env.OfflineHooked (s.newHookSlots env game) index context}

/-- The tables of the process and of the mods stay as they are: the first pass over the code,
where it is reached, meets only names that the tables have, and the second has nothing to put
into them. -/
structure TablesKept : Prop where
  known : ¬ s.StopsEarly env game →
    ∀ index ∈ s.codeModIndices env game, env.NamesKnown index (s.tables index)
  quiet : s.ReachesCode env game → ∀ index ∈ s.codeModIndices env game,
    ∀ context ∈ env.symbolsTaken index, env.CodeQuiet (s.newHookSlots env game) index context

/-- The loads that leave nothing behind when they fail: nothing is registered before, the tables
are kept, and no jump leads into the code of a mod that gets another code handle or loses its
own. -/
structure LeavesNothing : Prop extends s.TablesKept env game where
  unloaded : s.Unloaded
  linked : ∀ handle index, s.JumpTarget (.code handle index) →
    s.OwnedApart (s.renewedMods env game) handle

end Condition

/-! ## The phases of a load that fails -/

section Phases
variable {env : LoadEnv} {game base : Nat} {s t : CodeMods}

theorem activeMods_opened (c : ModContext) (game : Nat) :
    ∀ index ∈ activeModIndices c game, ∃ mod, c.openedMods[index]? = some mod := by
  intro index mem
  have below := List.mem_range.mp (List.mem_filter.mp mem).1
  exact ⟨_, List.getElem?_eq_getElem below⟩

structure Checked (env : LoadEnv) (game : Nat) (s t : CodeMods) : Prop where
  keeps : ∀ base renewed, Keeps base renewed s t
  manifests : s.context.SameManifests t.context
  hookSlots : t.hookSlots = s.hookSlots
  loadedCodeMods : t.loadedCodeMods = s.codeModIndices env game

theorem manifestPhases (env : LoadEnv) (game : Nat) (loadAddress : UInt32) (s : CodeMods) :
    (s.StopsEarly env game ∧ (untilError (phases env game) (s.startLoad env loadAddress)).2 ≠ [] ∧
      ∀ base renewed, Keeps base renewed s
        (untilError (phases env game) (s.startLoad env loadAddress)).1) ∨
    (¬ s.StopsEarly env game ∧ ∃ t, Checked env game s t ∧
      untilError (phases env game) (s.startLoad env loadAddress) =
        untilError (codePhases env) t) := by
  have started (base : Nat) (renewed : Set Nat) :
      Keeps base renewed s (s.startLoad env loadAddress) :=
    ⟨rfl, rfl, rfl, rfl, rfl, rfl, fun _ _ => rfl, fun _ _ => rfl, Nat.le_refl _⟩
  have first : forActiveMods game (loadActiveMod env) (s.startLoad env loadAddress) =
    loadPass env (activeModIndices s.context game) (s.startLoad env loadAddress) := rfl
  obtain ⟨loads, ok⟩ := loadPass_spec env (activeModIndices s.context game)
    (s.startLoad env loadAddress) (activeMods_opened s.context game)
  rw [← first] at loads ok
  have loaded (base : Nat) (renewed : Set Nat) :=
    (started base renewed).trans (loads.keeps base renewed)
  by_cases good : (forActiveMods game (loadActiveMod env) (s.startLoad env loadAddress)).2 = []
  · have second : forActiveMods game checkActiveMod
        (forActiveMods game (loadActiveMod env) (s.startLoad env loadAddress)).1 =
          checkPass (activeModIndices s.context game)
            (forActiveMods game (loadActiveMod env) (s.startLoad env loadAddress)).1 := by
      rw [forActiveMods, loads.context]
      rfl
    have run : untilError (phases env game) (s.startLoad env loadAddress) =
        untilError (forActiveMods game checkActiveMod :: codePhases env)
          (forActiveMods game (loadActiveMod env) (s.startLoad env loadAddress)).1 :=
      untilError_cons_ok _ good
    generalize forActiveMods game (loadActiveMod env) (s.startLoad env loadAddress) = r at *
    obtain ⟨checks, met⟩ := checkPass_spec (activeModIndices s.context game) r.1
    rw [← second] at checks met
    rw [loads.context, loads.loadedModsById] at met
    by_cases fine : (forActiveMods game checkActiveMod r.1).2 = []
    · right
      refine ⟨?_, _, ⟨fun base renewed => (loaded base renewed).trans (checks.keeps base renewed),
        ?_, checks.hookSlots.trans loads.hookSlots, ?_⟩, run.trans (untilError_cons_ok _ fine)⟩
      · rintro ⟨index, mem, fails | fails⟩
        · exact ok.mp good index mem fails
        · exact met.mp fine index mem fails
      · have manifests := checks.context
        rw [loads.context] at manifests
        exact manifests
      · rw [checks.loadedCodeMods, loads.loadedCodeMods]
        rfl
    · left
      rw [run, untilError_cons_failed _ fine]
      refine ⟨?_, fine, fun base renewed =>
        (loaded base renewed).trans (checks.keeps base renewed)⟩
      rw [met] at fine
      push Not at fine
      obtain ⟨index, mem, fails⟩ := fine
      exact ⟨index, mem, Or.inr fails⟩
  · left
    have run : untilError (phases env game) (s.startLoad env loadAddress) =
        forActiveMods game (loadActiveMod env) (s.startLoad env loadAddress) :=
      untilError_cons_failed _ good
    rw [run]
    refine ⟨?_, good, loaded⟩
    rw [ok] at good
    push Not at good
    obtain ⟨index, mem, fails⟩ := good
    exact ⟨index, mem, Or.inl fails⟩

structure Placed (env : LoadEnv) (indices : List Nat) (s t : CodeMods) : Prop where
  loadedCodeMods : t.loadedCodeMods = indices
  symbols : ∀ index ∈ indices, ∃ context, env.symbolsTaken index = some context ∧
    (t.mods index).recompilerContext = context
  hookSlots : t.hookSlots = addHookSlots env indices s.hookSlots

theorem initPass_placed (ok : (initPass env s.loadedCodeMods s).2 = []) :
    Placed env s.loadedCodeMods s (setUp (initPass env s.loadedCodeMods s).1).1 := by
  obtain ⟨symbols, slots⟩ := initPass_ok ok
  exact ⟨(initPass_frame env s.loadedCodeMods s).2, symbols, slots⟩

theorem Placed.symbols_iff {indices : List Nat} {index : Nat} (placed : Placed env indices s t)
    (mem : index ∈ indices) (P : RecompilerContext → Prop) :
    P (t.mods index).recompilerContext ↔ ∀ context ∈ env.symbolsTaken index, P context := by
  obtain ⟨context, taken, same⟩ := placed.symbols index mem
  rw [same]
  constructor
  · intro holds other taken'
    cases taken.symm.trans taken'
    exact holds
  · exact fun holds => holds context taken

def placedPhases (env : LoadEnv) : List (Step CodeMods LoadFailure) :=
  [forCodeMods (loadModCode env), forCodeMods (resolveCodeDependencies env),
    regenerateLeftovers env, finishSetup env]

theorem resolvePass_same (env : LoadEnv) (indices : List Nat) (s : CodeMods) :
    SameTables s (resolvePass env indices s).1 := by
  refine collect_related SameTables.refl SameTables.trans (fun f mem t => ?_) s
  obtain ⟨index, -, rfl⟩ := List.mem_map.mp mem
  exact resolveCodeDependencies_same env index t

theorem placedPhases_same (env : LoadEnv) (s : CodeMods) :
    SameTables (codePass env s.loadedCodeMods s).1 (untilError (placedPhases env) s).1 := by
  refine untilError_cons_rule (.refl _) fun _ => ?_
  have third := resolvePass_same env (codePass env s.loadedCodeMods s).1.loadedCodeMods
    (codePass env s.loadedCodeMods s).1
  refine untilError_cons_rule third fun _ => ?_
  have fourth := third.trans (regenerateLeftovers_same env _)
  refine untilError_cons_rule fourth fun _ => ?_
  rw [untilError_singleton]
  exact fourth.trans ⟨rfl, rfl, Nat.le_refl _⟩

theorem addHookSlots_none {indices : List Nat} {slots : HookSlots}
    (none : ∀ index ∈ indices, ∀ context ∈ env.symbolsTaken index, context.hooks = []) :
    addHookSlots env indices slots = slots := by
  unfold addHookSlots
  induction indices with
  | nil => rfl
  | cons index rest ih =>
      have later := ih fun other mem => none other (List.mem_cons_of_mem index mem)
      cases taken : env.symbolsTaken index with
      | none => rwa [List.filterMap_cons, taken]
      | some context =>
          have here := none index List.mem_cons_self context taken
          rw [List.filterMap_cons, taken, List.foldl_cons, here]
          exact later

theorem Placed.no_hookSlots {indices : List Nat} (placed : Placed env indices s t)
    (empty : s.hookSlots = .empty)
    (none : ∀ index ∈ indices, (t.mods index).recompilerContext.functions = []) :
    t.hookSlots = .empty := by
  rw [placed.hookSlots, empty]
  refine addHookSlots_none fun index mem => ?_
  have symbols := placed.symbols_iff mem fun context => context.hooks = []
  exact symbols.mp (no_functions (none index mem)).2.1

theorem lastPhases_ok (empty : s.hookSlots = .empty) :
    (untilError [regenerateLeftovers env, finishSetup env] s).2 = [] := by
  rw [untilError_cons_ok _ (regenerateLeftovers_empty empty), untilError_singleton]
  rfl

/-- Where the second pass puts nothing into the tables, the load fails there or in the third. -/
theorem placedPhases_keeps {indices : List Nat} (enough : base ≤ t.handles.length)
    (empty : s.hookSlots = .empty) (placed : Placed env indices s t)
    (quiet : t.AllQuiet env indices) (failed : (untilError (placedPhases env) t).2 ≠ []) :
    Keeps base (t.tried env indices) t (untilError (placedPhases env) t).1 ∧
      ∀ index ∈ t.tried env indices, Renewed base index (untilError (placedPhases env) t).1 := by
  have loaded := placed.loadedCodeMods
  subst loaded
  obtain ⟨keeps, renewed⟩ := codePass_keeps enough quiet
  have symbols := (codePass_frame env t.loadedCodeMods enough).2
  by_cases ok : (codePass env t.loadedCodeMods t).2 = []
  · have new := codePass_ok enough quiet ok
    have second : untilError (placedPhases env) t =
        untilError (forCodeMods (resolveCodeDependencies env) ::
          [regenerateLeftovers env, finishSetup env]) (codePass env t.loadedCodeMods t).1 :=
      untilError_cons_ok _ ok
    have third : forCodeMods (resolveCodeDependencies env) (codePass env t.loadedCodeMods t).1 =
        resolvePass env t.loadedCodeMods (codePass env t.loadedCodeMods t).1 := by
      rw [forCodeMods, symbols.loadedCodeMods]
      rfl
    have links : Links base (codePass env t.loadedCodeMods t).1
        (resolvePass env t.loadedCodeMods (codePass env t.loadedCodeMods t).1).1 := by
      refine resolvePass_links fun index mem => ⟨renewed index (Or.inl (new index mem).1), ?_⟩
      rw [symbols.symbols]
      exact (new index mem).2
    have slots := placed.no_hookSlots empty fun index mem => (new index mem).2
    rw [← symbols.hookSlots, ← links.hookSlots] at slots
    have fails : (resolvePass env t.loadedCodeMods (codePass env t.loadedCodeMods t).1).2 ≠ [] := by
      intro resolved
      rw [← third] at resolved slots
      rw [second, untilError_cons_ok _ resolved] at failed
      exact failed (lastPhases_ok slots)
    rw [← third] at fails
    rw [second, untilError_cons_failed _ fails, third]
    refine ⟨keeps.trans (links.keeps.mono (Set.empty_subset _)), fun index mem => ?_⟩
    unfold Renewed
    rw [links.mods]
    exact renewed index (Or.inl mem)
  · have second : untilError (placedPhases env) t = codePass env t.loadedCodeMods t :=
      untilError_cons_failed _ ok
    rw [second]
    exact ⟨keeps, fun index mem => renewed index (Or.inl mem)⟩

theorem Checked.tables (checked : Checked env game s t) : t.tables = s.tables :=
  (checked.keeps 0 ∅).tables

theorem Checked.reachesCode_iff (checked : Checked env game s t) (going : ¬ s.StopsEarly env game) :
    (initPass env t.loadedCodeMods t).2 = [] ↔ s.ReachesCode env game := by
  rw [initPass_ok_iff, checked.loadedCodeMods, ReachesCode, and_iff_right going]
  exact forall₂_congr fun index _ => not_congr (InitFails.congr checked.manifests)

theorem codePhases_failed (failed : (initPass env t.loadedCodeMods t).2 ≠ []) :
    untilError (codePhases env) t = initPass env t.loadedCodeMods t :=
  untilError_cons_failed _ failed

theorem codePhases_placed (ok : (initPass env t.loadedCodeMods t).2 = []) :
    untilError (codePhases env) t =
      untilError (placedPhases env) (setUp (initPass env t.loadedCodeMods t).1).1 := by
  have first : untilError (codePhases env) t = untilError (setUp :: placedPhases env)
    (initPass env t.loadedCodeMods t).1 := untilError_cons_ok _ ok
  rw [first]
  exact untilError_cons_ok _ rfl

theorem Checked.slots {u : CodeMods} (checked : Checked env game s t) (unloaded : s.Unloaded)
    (placed : Placed env t.loadedCodeMods t u) : u.hookSlots = s.newHookSlots env game := by
  rw [placed.hookSlots, checked.hookSlots, unloaded.hookSlots, checked.loadedCodeMods]
  rfl

theorem Checked.allQuiet_iff {u : CodeMods} (checked : Checked env game s t)
    (unloaded : s.Unloaded) (placed : Placed env t.loadedCodeMods t u) :
    u.AllQuiet env t.loadedCodeMods ↔
      ∀ index ∈ s.codeModIndices env game, ∀ context ∈ env.symbolsTaken index,
        env.CodeQuiet (s.newHookSlots env game) index context := by
  unfold AllQuiet
  rw [checked.slots unloaded placed, ← checked.loadedCodeMods]
  exact forall₂_congr fun index mem => placed.symbols_iff mem _

theorem Checked.tried_eq {u : CodeMods} (checked : Checked env game s t) (unloaded : s.Unloaded)
    (placed : Placed env t.loadedCodeMods t u) (reaches : s.ReachesCode env game) :
    u.tried env t.loadedCodeMods = s.renewedMods env game := by
  ext index
  unfold CodeMods.tried renewedMods
  rw [Set.mem_ofPred_eq, Set.mem_ofPred_eq, and_iff_right reaches,
    checked.slots unloaded placed, ← checked.loadedCodeMods]
  exact and_congr_right fun mem => placed.symbols_iff mem
    fun context => ¬ env.OfflineHooked (s.newHookSlots env game) index context

theorem Made.unpublished (made : s.Made) (address : UInt32) :
    Mark.published address ∉ marks s.handles.length s := by
  rintro ⟨handle, i, new, here⟩
  exact Nat.not_le_of_lt (made.funcMap address _ here handle i rfl) new

theorem Checked.kept_of_undone (made : s.Made) (checked : Checked env game s t)
    (undone : Undone s ((untilError (codePhases env) t).1.unloadMods env)) :
    s.TablesKept env game := by
  have enough : s.handles.length ≤ t.handles.length := (checked.keeps 0 ∅).grown
  have before : marks s.handles.length t = marks s.handles.length s :=
    marks_congr checked.tables (checked.keeps 0 ∅).funcMap
  have after := undone.marks_eq s.handles.length
  obtain ⟨enough', first⟩ := initPass_adds env s.handles.length t.loadedCodeMods t enough
  have names (same : marks s.handles.length (initPass env t.loadedCodeMods t).1 =
      marks s.handles.length t) :
      ∀ index ∈ s.codeModIndices env game, env.NamesKnown index (s.tables index) := by
    rw [← checked.loadedCodeMods, ← checked.tables]
    exact initPass_known enough same
  by_cases ok : (initPass env t.loadedCodeMods t).2 = []
  · rw [codePhases_placed ok] at undone after
    have placed := initPass_placed ok
    have set : SameTables (initPass env t.loadedCodeMods t).1
        (setUp (initPass env t.loadedCodeMods t).1).1 := ⟨rfl, rfl, Nat.le_refl _⟩
    have set_marks := set.marks_eq s.handles.length
    have set_enough : s.handles.length ≤
        (setUp (initPass env t.loadedCodeMods t).1).1.handles.length := enough'
    generalize (setUp (initPass env t.loadedCodeMods t).1).1 = u at *
    obtain ⟨enough'', second⟩ := (codePass_frame env u.loadedCodeMods set_enough).1 set_enough
    have rest := (placedPhases_same env u).marks_eq s.handles.length
    -- no mark is added from the state before the load to the one after it
    have all : marks s.handles.length (codePass env u.loadedCodeMods u).1 =
        marks s.handles.length t := rest.symm.trans (after.trans before.symm)
    have init_marks : marks s.handles.length (initPass env t.loadedCodeMods t).1 =
        marks s.handles.length t := by
      refine Set.Subset.antisymm ?_ first
      rw [← set_marks, ← all]
      exact second
    refine ⟨fun _ => names init_marks, fun _ => ?_⟩
    have unpublished (address : UInt32) : Mark.published address ∉ marks s.handles.length u := by
      rw [set_marks, init_marks, before]
      exact made.unpublished address
    refine (checked.allQuiet_iff undone.unloaded placed).mp ?_
    rw [← placed.loadedCodeMods]
    exact codePass_allQuiet set_enough unpublished
      (all.trans (init_marks.symm.trans set_marks.symm))
  · rw [codePhases_failed ok] at after
    refine ⟨fun _ => names (after.trans before.symm), fun reaches => ?_⟩
    exact absurd ((checked.reachesCode_iff reaches.1).mpr reaches) ok

/-- A load that finds nothing to add changes no more than the new handles and their mods. -/
theorem Checked.keeps_of_kept (checked : Checked env game s t) (going : ¬ s.StopsEarly env game)
    (failed : (untilError (codePhases env) t).2 ≠ []) (unloaded : s.Unloaded)
    (kept : s.TablesKept env game) :
    Keeps s.handles.length (s.renewedMods env game) s (untilError (codePhases env) t).1 ∧
      ∀ index ∈ s.renewedMods env game,
        Renewed s.handles.length index (untilError (codePhases env) t).1 := by
  have enough : s.handles.length ≤ t.handles.length := (checked.keeps 0 ∅).grown
  have first (renewed : Set Nat) :
      Keeps s.handles.length renewed s (initPass env t.loadedCodeMods t).1 := by
    refine (checked.keeps _ _).trans (initPass_keeps ?_)
    rw [checked.loadedCodeMods, checked.tables]
    exact kept.known going
  by_cases ok : (initPass env t.loadedCodeMods t).2 = []
  · have reaches := (checked.reachesCode_iff going).mp ok
    have placed := initPass_placed ok
    have set : Keeps s.handles.length (s.renewedMods env game) s
        (setUp (initPass env t.loadedCodeMods t).1).1 := (first _).trans
      ⟨rfl, rfl, rfl, rfl, rfl, rfl, fun _ _ => rfl, fun _ _ => rfl, Nat.le_refl _⟩
    rw [codePhases_placed ok] at failed ⊢
    generalize (setUp (initPass env t.loadedCodeMods t).1).1 = u at *
    have quiet := (checked.allQuiet_iff unloaded placed).mpr (kept.quiet reaches)
    obtain ⟨keeps, renewed⟩ := placedPhases_keeps set.grown
      (checked.hookSlots.trans unloaded.hookSlots) placed quiet failed
    rw [checked.tried_eq unloaded placed reaches] at keeps renewed
    exact ⟨set.trans keeps, renewed⟩
  · have stops : ¬ s.ReachesCode env game := mt (checked.reachesCode_iff going).mpr ok
    rw [codePhases_failed ok]
    exact ⟨first _, fun index mem => absurd mem.1 stops⟩

end Phases

/-! ## Failed loads of a process -/

end CodeMods

def ModCode.opened : ModCode where
  codeHandle := none
  recompilerContext := .ofCode [] []
  sectionLoadAddresses := []
  exportsByName _ := none
  eventsByName _ := none
  nativeLibraryExports _ := none
  nativeLibraries := []

/-- What happens to the mods and to `func_map` between loads, and the loads. -/
inductive ModsCall
  | load (env : LoadEnv) (modGameId : String) (loadAddress : UInt32)
  /-- Mods are opened, enabled, disabled or put in another order. -/
  | configure (context : ModContext)
  /-- `close_mods`, and what is opened then -/
  | reopen (context : ModContext)
  /-- An overlay of the game is loaded or unloaded. -/
  | overlay (address : UInt32) (func : Option RecompFunc)

namespace CodeMods

def step (s : CodeMods) : ModsCall → Option CodeMods
  | .load env modGameId loadAddress => some (loadMods env modGameId loadAddress s).1
  | .configure context => some { s with context := context }
  | .reopen context => some { s with context := context, mods := fun _ => .opened }
  | .overlay address func =>
      some { s with funcMap := Function.update s.funcMap address (func.map .native) }

structure Started (s : CodeMods) : Prop where
  bytes : ∀ native, s.bytes native = none
  patchedFuncs : s.patchedFuncs = []
  funcMap : ∀ address, ∀ func ∈ s.funcMap address, ∃ native, func = .native native
  gEventListeners : s.gEventListeners = []
  gHookSlots : s.gHookSlots = []
  handles : s.handles = []
  mods : s.mods = fun _ => .opened

theorem Started.made {s : CodeMods} (started : s.Started) : s.Made where
  bytes native func here := by
    rw [started.bytes] at here
    cases here
  replacedBytes patch mem := by
    rw [started.patchedFuncs] at mem
    cases mem
  funcMap address func here := by
    obtain ⟨native, rfl⟩ := started.funcMap address func here
    rintro _ _ ⟨⟩
  listeners listeners mem := by
    rw [started.gEventListeners] at mem
    cases mem
  hooks slot mem := by
    rw [started.gHookSlots] at mem
    cases mem
  imports handle mem := by
    rw [started.handles] at mem
    cases mem
  nativeExports index name func here := by
    rw [started.mods] at here
    cases here
  owners index handle here := by
    rw [started.mods] at here
    cases here

theorem step_made {s t : CodeMods} {call : ModsCall} (made : s.Made)
    (taken : s.step call = some t) : t.Made := by
  cases call with
  | load env modGameId loadAddress =>
      cases taken
      exact loadMods_made env modGameId loadAddress made
  | configure context =>
      cases taken
      exact { made with }
  | reopen context =>
      cases taken
      refine { made with nativeExports := ?_, owners := ?_ }
      · rintro _ _ _ ⟨⟩
      · rintro _ _ ⟨⟩
  | overlay address func =>
      cases taken
      refine { made with funcMap := ?_ }
      intro other f here
      have here : Function.update s.funcMap address (func.map .native) other = some f := here
      rw [Function.update_apply] at here
      split at here
      · obtain ⟨native, -, rfl⟩ := Option.map_eq_some_iff.mp here
        rintro _ _ ⟨⟩
      · exact made.funcMap other f here

def Reached (s : CodeMods) : Prop := Transition.Reach step Transition.Always Started s

theorem Reached.made {s : CodeMods} (reached : s.Reached) : s.Made :=
  Transition.Reach.invariant (fun _ started => started.made)
    (fun _ _ _ made _ taken => step_made made taken) reached

/-- A failed load is a run of the phases up to the one that fails, and `unload_mods`. -/
theorem loadMods_failed {env : LoadEnv} {modGameId : String} {loadAddress : UInt32} {game : Nat}
    {s : CodeMods} (known : s.context.modGameIds modGameId = some game)
    (failed : (loadMods env modGameId loadAddress s).2 ≠ []) :
    s.patchedFuncs = [] ∧
      (untilError (phases env game) (s.startLoad env loadAddress)).2 ≠ [] ∧
      (loadMods env modGameId loadAddress s).1 =
        (untilError (phases env game) (s.startLoad env loadAddress)).1.unloadMods env := by
  have known' : (s.startLoad env loadAddress).context.modGameIds modGameId = some game := known
  unfold loadMods at failed ⊢
  simp only [known'] at failed ⊢
  split at failed
  · exact absurd rfl failed
  · rename_i unpatched
    rw [if_neg unpatched]
    have unpatched : s.patchedFuncs = [] := not_not.mp unpatched
    split at failed
    · exact absurd rfl failed
    · rename_i stopped
      rw [if_neg stopped]
      exact ⟨unpatched, stopped, rfl⟩

/-- A load of a known game that fails leaves nothing behind exactly when it keeps the tables. -/
theorem failed_load_undone_iff (env : LoadEnv) (modGameId : String) (loadAddress : UInt32)
    {game : Nat} {s : CodeMods} (reached : s.Reached)
    (known : s.context.modGameIds modGameId = some game)
    (failed : (loadMods env modGameId loadAddress s).2 ≠ []) :
    Undone s (loadMods env modGameId loadAddress s).1 ↔ s.LeavesNothing env game := by
  obtain ⟨unpatched, stopped, run⟩ := loadMods_failed known failed
  rw [run]
  have made := reached.made
  rcases manifestPhases env game loadAddress s with ⟨early, -, keeps⟩ | ⟨going, t, checked, same⟩
  · have none : ¬ s.ReachesCode env game := fun reaches => reaches.1 early
    have kept : s.TablesKept env game :=
      ⟨fun going => absurd early going, fun reaches => absurd reaches none⟩
    rw [(keeps _ (s.renewedMods env game)).undone_iff made unpatched
      fun index mem => absurd mem.1 none]
    exact ⟨fun both => ⟨kept, both.1, both.2⟩, fun leaves => ⟨leaves.unloaded, leaves.linked⟩⟩
  · rw [same] at stopped ⊢
    constructor
    · intro undone
      have kept := checked.kept_of_undone made undone
      obtain ⟨keeps, renewed⟩ := checked.keeps_of_kept going stopped undone.unloaded kept
      obtain ⟨unloaded, linked⟩ := (keeps.undone_iff made unpatched renewed).mp undone
      exact ⟨kept, unloaded, linked⟩
    · intro leaves
      obtain ⟨keeps, renewed⟩ := checked.keeps_of_kept going stopped leaves.unloaded
        leaves.toTablesKept
      exact (keeps.undone_iff made unpatched renewed).mpr ⟨leaves.unloaded, leaves.linked⟩

/-! ## Two loads -/

theorem nothingLoaded_started (context : ModContext) :
    Started { nothingLoaded with context := context } where
  bytes _ := rfl
  patchedFuncs := rfl
  funcMap _ _ here := by cases here
  gEventListeners := rfl
  gHookSlots := rfl
  handles := rfl
  mods := rfl

def oneCodeMod (minimum : Version) : ModContext :=
  { contentTypes := [⟨false, true, false, false⟩]
    modGameIds := fun id => if id = "game" then some 0 else none
    openedMods := [⟨⟨"mod", [], fun _ => none, minimum, ⟨1, 0, 0⟩, false⟩, fun _ => none, [0], [0],
      false⟩]
    openedModsOrder := [0]
    modOrderLookup := [some 0]
    modIds := {"mod"}
    enabledMods := {"mod"}
    autoEnabledMods := ∅
    activeGame := none
    modConfigurationThreadQueue := [] }

/-- The symbols name one function, and an import that the runtime does not have. -/
def missingImportEnv : LoadEnv :=
  { libraryEnv [] with
    parseModSymbols := fun _ _ => ({ RecompilerContext.ofCode
      [⟨0, 0x80000000, 8, 0, [], false, true⟩] [⟨0x80000000, 0, [], "mod_main", 0⟩] with
      dependencies := ["*"]
      importSymbols := [⟨"missing", 0⟩] }, true) }

/-- A load that fails at an import leaves the functions of the mod in `func_map`. -/
theorem failed_load_publishes :
    Reached { nothingLoaded with context := oneCodeMod ⟨1, 0, 0⟩ } ∧
      (loadMods missingImportEnv "game" 0x81000000
        { nothingLoaded with context := oneCodeMod ⟨1, 0, 0⟩ }).2 =
          [.code "mod" ⟨.invalidImport, "*:missing"⟩] ∧
      ¬ Undone { nothingLoaded with context := oneCodeMod ⟨1, 0, 0⟩ }
        (loadMods missingImportEnv "game" 0x81000000
          { nothingLoaded with context := oneCodeMod ⟨1, 0, 0⟩ }).1 := by
  refine ⟨.start (nothingLoaded_started _), by decide +kernel, fun undone => ?_⟩
  have published : (loadMods missingImportEnv "game" 0x81000000
      { nothingLoaded with context := oneCodeMod ⟨1, 0, 0⟩ }).1.funcMap 0x81000000 =
        some (.code 0 0) := by decide +kernel
  rw [undone.funcMap] at published
  cases published

def emptyCodeEnv : LoadEnv :=
  { libraryEnv [] with
    parseModSymbols := fun _ _ => ({ RecompilerContext.ofCode [] [] with
      dependencies := ["*"]
      importSymbols := [⟨"missing", 0⟩] }, true) }

/-- A load that fails when its code has been loaded, and had nothing to publish, is undone. -/
theorem missing_import_undone :
    (loadMods emptyCodeEnv "game" 0x81000000
      { nothingLoaded with context := oneCodeMod ⟨1, 0, 0⟩ }).2 =
        [.code "mod" ⟨.invalidImport, "*:missing"⟩] ∧
    Undone { nothingLoaded with context := oneCodeMod ⟨1, 0, 0⟩ }
      (loadMods emptyCodeEnv "game" 0x81000000
        { nothingLoaded with context := oneCodeMod ⟨1, 0, 0⟩ }).1 := by
  have fails : (loadMods emptyCodeEnv "game" 0x81000000
      { nothingLoaded with context := oneCodeMod ⟨1, 0, 0⟩ }).2 =
        [.code "mod" ⟨.invalidImport, "*:missing"⟩] := by decide +kernel
  have symbols : ∀ index context, emptyCodeEnv.symbolsTaken index = some context →
      context = { RecompilerContext.ofCode [] [] with
        dependencies := ["*"]
        importSymbols := [⟨"missing", 0⟩] } := by
    intro index context taken
    exact (Option.some.inj taken).symm
  refine ⟨fails, (failed_load_undone_iff _ _ _ (.start (nothingLoaded_started _)) rfl
    (by rw [fails]; simp)).mpr ⟨⟨?_, ?_⟩, ⟨rfl, rfl, rfl⟩, ?_⟩⟩
  · intro _ index _ context taken
    rw [symbols index context taken]
    exact ⟨fun name mem => (List.not_mem_nil mem).elim, fun name mem => (List.not_mem_nil mem).elim⟩
  · intro _ index _ context taken
    rw [symbols index context taken]
    exact Or.inr ⟨rfl, fun function mem => by cases mem⟩
  · intro handle index target
    have made := (nothingLoaded_started (oneCodeMod ⟨1, 0, 0⟩)).made.handlesMade handle index target
    exact absurd made (Nat.not_lt_zero handle)

end CodeMods

end N64ModernRuntime.Librecomp
