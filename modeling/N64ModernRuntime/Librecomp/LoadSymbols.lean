import N64ModernRuntime.Librecomp.LoadTables
import N64ModernRuntime.Librecomp.ModLayout

/-!
# mods.cpp: the first pass over the code of mods

`init_mod_code` puts the names of exports and events into the tables of the mod
before it comes to the checks that may fail.  What it does to the tables, and
when it fails, can be read from the symbols.
-/

set_option autoImplicit false

namespace N64ModernRuntime.Librecomp

open FailingSteps

namespace CodeMods

/-! ## The symbols of a mod -/

section Emplace
variable {α : Type} {map : String → Option α}

/-- `emplace` for one pair after another -/
def emplaceAll (map : String → Option α) (pairs : List (String × α)) : String → Option α :=
  pairs.foldl (fun map pair => emplace map pair.1 pair.2) map

theorem isSome_emplaceAll (pairs : List (String × α)) (k : String) :
    (emplaceAll map pairs k).isSome ↔ (map k).isSome ∨ k ∈ pairs.map Prod.fst := by
  induction pairs generalizing map with
  | nil => exact (or_iff_left List.not_mem_nil).symm
  | cons pair rest ih =>
      have first : (emplace map pair.1 pair.2 k).isSome ↔ (map k).isSome ∨ k = pair.1 := by
        rw [emplace, Option.isSome_or, Bool.or_eq_true]
        split
        · rename_i same
          exact or_congr_right (iff_of_true rfl same)
        · rename_i other
          exact or_congr_right (iff_of_false Bool.false_ne_true other)
      rw [emplaceAll, List.foldl_cons, ← emplaceAll, ih, first, List.map_cons, List.mem_cons,
        or_assoc]

theorem emplace_present {key : String} (value : α) (present : (map key).isSome) :
    emplace map key value = map := by
  funext k
  rw [emplace]
  by_cases same : k = key
  · subst same
    rw [if_pos rfl]
    cases here : map k with
    | none => rw [here] at present; contradiction
    | some v => rfl
  · rw [if_neg same, Option.or_none]

theorem emplaceAll_present {pairs : List (String × α)}
    (present : ∀ k ∈ pairs.map Prod.fst, (map k).isSome) : emplaceAll map pairs = map := by
  induction pairs with
  | nil => rfl
  | cons pair rest ih =>
      rw [emplaceAll, List.foldl_cons, emplace_present _ (present pair.1 List.mem_cons_self)]
      exact ih fun k mem => present k (List.mem_cons_of_mem _ mem)

end Emplace

end CodeMods

def RecompilerContext.exportPairs (context : RecompilerContext) : List (String × Nat) :=
  context.exportedFuncs.filterMap fun funcIndex =>
    (context.functions[funcIndex]?).map fun exported => (exported.name, funcIndex)

theorem ModCode.populateExports_eq (mod : ModCode) :
    mod.populateExports = { mod with
      exportsByName :=
        CodeMods.emplaceAll mod.exportsByName mod.recompilerContext.exportPairs } := by
  rw [populateExports, CodeMods.emplaceAll, RecompilerContext.exportPairs, List.foldl_filterMap]
  congr 2
  funext exports funcIndex
  cases mod.recompilerContext.functions[funcIndex]? with
  | none => rfl
  | some exported => rfl

theorem ModCode.populateEvents_eq (mod : ModCode) :
    mod.populateEvents = { mod with
      eventsByName := CodeMods.emplaceAll mod.eventsByName
        mod.recompilerContext.eventSymbols.zipIdx } := rfl

def LoadEnv.symbolsTaken (env : LoadEnv) (index : Nat) : Option RecompilerContext :=
  match env.modSymbols index with
  | .error _ => none
  | .ok context => if env.decompressedRom = [] ∧ context.hooks ≠ [] then none else some context

def CodeMods.DependencyMissing (s : CodeMods) (env : LoadEnv) (index : Nat)
    (context : RecompilerContext) : Prop :=
  ∃ id ∈ context.dependencies, id ≠ env.dependencyBaseRecomp ∧ id ≠ env.dependencySelf ∧
    s.manifestDependency index id = none

def CodeMods.InitFails (s : CodeMods) (env : LoadEnv) (index : Nat) : Prop :=
  ∀ context, env.symbolsTaken index = some context →
    s.DependencyMissing env index context ∨ context.relocOutOfRange = true

def LoadEnv.NamesKnown (env : LoadEnv) (index : Nat) (tables : CodeMods.ModTables) : Prop :=
  ∀ context, env.symbolsTaken index = some context →
    (∀ name ∈ context.exportPairs.map Prod.fst, (tables.exportsByName name).isSome) ∧
      ∀ name ∈ context.eventSymbols, (tables.eventsByName name).isSome

namespace CodeMods

section Symbols
variable {env : LoadEnv} {index : Nat} {s : CodeMods} {context : RecompilerContext}

theorem symbolsTaken_eq_some : env.symbolsTaken index = some context ↔
    env.modSymbols index = .ok context ∧ ¬ (env.decompressedRom = [] ∧ context.hooks ≠ []) := by
  unfold LoadEnv.symbolsTaken
  cases symbols : env.modSymbols index with
  | error e => exact iff_of_false (fun none => by cases none) fun both => by cases both.1
  | ok other =>
      dsimp only
      split
      · rename_i unavailable
        refine iff_of_false (fun none => by cases none) fun both => ?_
        cases both.1
        exact both.2 unavailable
      · rename_i available
        constructor
        · intro same
          cases same
          exact ⟨rfl, available⟩
        · intro both
          cases both.1
          rfl

theorem modContext_eq (symbols : env.modSymbols index = .ok context) (old : RecompilerContext) :
    env.modContext index old = context := by
  unfold LoadEnv.modSymbols at symbols
  unfold LoadEnv.modContext
  dsimp only at symbols ⊢
  split at symbols
  · cases symbols
  · rename_i syms
    split at symbols
    · cases symbols
    · rename_i binary
      have both : (env.files index).binarySyms.isSome = (env.files index).binary.isSome := by
        cases first : (env.files index).binarySyms with
        | none =>
            cases second : (env.files index).binary with
            | none => rfl
            | some data => exact absurd ⟨by rw [second]; rfl, by rw [first]; rfl⟩ binary
        | some data =>
            cases second : (env.files index).binary with
            | none => exact absurd ⟨by rw [first]; rfl, by rw [second]; rfl⟩ syms
            | some other => rfl
      rw [if_pos both]
      split at symbols
      · exact Except.ok.inj symbols
      · cases symbols

def takeSymbols (s : CodeMods) (env : LoadEnv) (index : Nat) : CodeMods :=
  (s.setMod index fun m =>
    { m with recompilerContext := env.modContext index m.recompilerContext }).setMod index
      fun m => m.populateExports.populateEvents

theorem initModCode_taken (taken : env.symbolsTaken index = some context) :
    initModCode env index s = untilError [checkManifest env context index, layOut context index]
      (s.takeSymbols env index) := by
  obtain ⟨symbols, available⟩ := symbolsTaken_eq_some.mp taken
  unfold initModCode
  simp only [symbols]
  rw [if_neg available]
  rfl

theorem initModCode_untaken (untaken : env.symbolsTaken index = none) :
    (initModCode env index s).2 ≠ [] ∧
      (initModCode env index s).1 = s.setMod index fun m =>
        { m with recompilerContext := env.modContext index m.recompilerContext } := by
  unfold LoadEnv.symbolsTaken at untaken
  unfold initModCode
  cases symbols : env.modSymbols index with
  | error e =>
      exact ⟨List.cons_ne_nil _ _, rfl⟩
  | ok context =>
      rw [symbols] at untaken
      dsimp only at untaken
      split at untaken
      · rename_i unavailable
        dsimp only
        rw [if_pos unavailable]
        exact ⟨List.cons_ne_nil _ _, rfl⟩
      · cases untaken

theorem takeSymbols_tables (taken : env.symbolsTaken index = some context) :
    (s.takeSymbols env index).tables = Function.update s.tables index
      { s.tables index with
        exportsByName := emplaceAll (s.tables index).exportsByName context.exportPairs
        eventsByName := emplaceAll (s.tables index).eventsByName context.eventSymbols.zipIdx } := by
  have symbols := modContext_eq (symbolsTaken_eq_some.mp taken).1 (s.mods index).recompilerContext
  funext other
  by_cases here : other = index
  · subst here
    rw [Function.update_self, takeSymbols, CodeMods.tables, setMod_self, setMod_self,
      ModCode.populateEvents_eq, ModCode.populateExports_eq]
    dsimp only
    rw [symbols]
    rfl
  · rw [Function.update_of_ne here, takeSymbols, CodeMods.tables, setMod_other _ _ here,
      setMod_other _ _ here]
    rfl

theorem takeSymbols_mods (s : CodeMods) (env : LoadEnv) (index other : Nat) :
    ((s.takeSymbols env index).mods other).codeHandle = (s.mods other).codeHandle ∧
      ((s.takeSymbols env index).mods other).recompilerContext =
        if other = index then env.modContext index (s.mods index).recompilerContext
        else (s.mods other).recompilerContext := by
  by_cases here : other = index
  · subst here
    rw [if_pos rfl, takeSymbols, setMod_self, setMod_self, ModCode.populateEvents_eq,
      ModCode.populateExports_eq]
    exact ⟨rfl, rfl⟩
  · rw [if_neg here, takeSymbols, setMod_other _ _ here, setMod_other _ _ here]
    exact ⟨rfl, rfl⟩

theorem layOut_keeps (base : Nat) (renewed : Set Nat) (context : RecompilerContext) (index : Nat)
    (s : CodeMods) : Keeps base renewed s (layOut context index s).1 := by
  have placed := setMod_keeps index s base renewed
    (f := fun m => { m with
      sectionLoadAddresses := (layoutSections s.loadAddress context.sections).1 })
    (fun _ => ⟨rfl, rfl, rfl, rfl⟩) fun _ => rfl
  unfold layOut
  dsimp only
  split
  · exact placed
  · exact ⟨placed.tables, rfl, rfl, rfl, rfl, rfl, placed.codeHandle, fun _ _ => rfl,
      Nat.le_refl _⟩

theorem checkLayOut (env : LoadEnv) (context : RecompilerContext) (index : Nat) (s : CodeMods) :
    (untilError [checkManifest env context index, layOut context index] s).1 = s ∨
      (untilError [checkManifest env context index, layOut context index] s).1 =
        (layOut context index s).1 := by
  have state := checkManifest_state env context index s
  by_cases manifest : (checkManifest env context index s).2 = []
  · rw [untilError_cons_ok _ manifest, state, untilError_singleton]
    exact Or.inr rfl
  · rw [untilError_cons_failed _ manifest, state]
    exact Or.inl rfl

theorem checkLayOut_keeps (base : Nat) (renewed : Set Nat) (env : LoadEnv)
    (context : RecompilerContext) (index : Nat) (s : CodeMods) :
    Keeps base renewed s
      (untilError [checkManifest env context index, layOut context index] s).1 := by
  rcases checkLayOut env context index s with same | laid
  · rw [same]
    exact .refl base renewed s
  · rw [laid]
    exact layOut_keeps base renewed context index s
theorem initModCode_untaken_keeps (base : Nat) (renewed : Set Nat)
    (untaken : env.symbolsTaken index = none) :
    Keeps base renewed s (initModCode env index s).1 := by
  rw [(initModCode_untaken untaken).2]
  exact setMod_keeps index s base renewed (fun _ => ⟨rfl, rfl, rfl, rfl⟩) fun _ => rfl

theorem initModCode_keeps (base : Nat) (renewed : Set Nat)
    (known : env.NamesKnown index (s.tables index)) :
    Keeps base renewed s (initModCode env index s).1 := by
  cases taken : env.symbolsTaken index with
  | none =>
      exact initModCode_untaken_keeps base renewed taken
  | some context =>
      obtain ⟨exports, events⟩ := known context taken
      rw [initModCode_taken taken]
      refine Keeps.trans ?_ (checkLayOut_keeps base renewed env context index _)
      refine ⟨?_, rfl, rfl, rfl, rfl, rfl, fun other _ => (takeSymbols_mods s env index other).1,
        fun _ _ => rfl, Nat.le_refl _⟩
      rw [takeSymbols_tables taken, emplaceAll_present exports, emplaceAll_present]
      · exact Function.update_eq_self index s.tables
      · rw [List.zipIdx_map_fst]
        exact events

theorem initModCode_marks (base : Nat) (taken : env.symbolsTaken index = some context) :
    marks base s ⊆ marks base (initModCode env index s).1 ∧
      (∀ name ∈ context.exportPairs.map Prod.fst,
        .exported index name ∈ marks base (initModCode env index s).1) ∧
      ∀ name ∈ context.eventSymbols,
        .event index name ∈ marks base (initModCode env index s).1 := by
  have kept := (checkLayOut_keeps base ∅ env context index (s.takeSymbols env index)).sameTables
  have table := congrFun (takeSymbols_tables (s := s) taken)
  rw [initModCode_taken taken, kept.marks_eq base]
  have exported (other : Nat) (name : String) :
      .exported other name ∈ marks base (s.takeSymbols env index) ↔
        ((s.mods other).exportsByName name).isSome ∨
          other = index ∧ name ∈ context.exportPairs.map Prod.fst := by
    have here := congrArg (fun t : ModTables => (t.exportsByName name).isSome) (table other)
    change (((s.takeSymbols env index).tables other).exportsByName name).isSome = true ↔ _
    rw [here]
    by_cases same : other = index
    · subst same
      rw [Function.update_self, isSome_emplaceAll]
      exact or_congr_right (and_iff_right rfl).symm
    · rw [Function.update_of_ne same]
      exact (or_iff_left fun both => same both.1).symm
  have event (other : Nat) (name : String) :
      .event other name ∈ marks base (s.takeSymbols env index) ↔
        ((s.mods other).eventsByName name).isSome ∨
          other = index ∧ name ∈ context.eventSymbols := by
    have here := congrArg (fun t : ModTables => (t.eventsByName name).isSome) (table other)
    change (((s.takeSymbols env index).tables other).eventsByName name).isSome = true ↔ _
    rw [here]
    by_cases same : other = index
    · subst same
      rw [Function.update_self, isSome_emplaceAll, List.zipIdx_map_fst]
      exact or_congr_right (and_iff_right rfl).symm
    · rw [Function.update_of_ne same]
      exact (or_iff_left fun both => same both.1).symm
  have libraries (other : Nat) : ((s.takeSymbols env index).mods other).nativeLibraries =
      (s.mods other).nativeLibraries := by
    have here := congrArg ModTables.nativeLibraries (table other)
    change ((s.takeSymbols env index).tables other).nativeLibraries = _
    rw [here]
    by_cases same : other = index
    · subst same
      rw [Function.update_self]
      rfl
    · rw [Function.update_of_ne same]
      rfl
  refine ⟨?_, fun name mem => (exported index name).mpr (Or.inr ⟨rfl, mem⟩),
    fun name mem => (event index name).mpr (Or.inr ⟨rfl, mem⟩)⟩
  intro mark mem
  cases mark with
  | exported other name => exact (exported other name).mpr (Or.inl mem)
  | event other name => exact (event other name).mpr (Or.inl mem)
  | library other count =>
      change count < ((s.takeSymbols env index).mods other).nativeLibraries.length
      rw [libraries]
      exact mem
  | published address => exact mem

theorem initModCode_adds (env : LoadEnv) (base index : Nat) (s : CodeMods) :
    AddsMarks base s (initModCode env index s).1 := by
  cases taken : env.symbolsTaken index with
  | none =>
      exact (initModCode_untaken_keeps base ∅ taken).sameTables.adds base
  | some context =>
      intro enough
      refine ⟨?_, (initModCode_marks base taken).1⟩
      rw [initModCode_taken taken]
      exact Nat.le_trans enough
        (checkLayOut_keeps base ∅ env context index (s.takeSymbols env index)).grown

theorem initModCode_known (base : Nat)
    (same : marks base (initModCode env index s).1 = marks base s) :
    env.NamesKnown index (s.tables index) := by
  intro context taken
  obtain ⟨-, exports, events⟩ := initModCode_marks (s := s) base taken
  rw [same] at exports events
  exact ⟨exports, events⟩

theorem checkManifest_fails (env : LoadEnv) (context : RecompilerContext) (index : Nat)
    (s : CodeMods) :
    (checkManifest env context index s).2 ≠ [] ↔ s.DependencyMissing env index context := by
  have missing : (context.dependencies.any fun id => decide (id ≠ env.dependencyBaseRecomp) &&
      decide (id ≠ env.dependencySelf) && (s.manifestDependency index id).isNone) = true ↔
        s.DependencyMissing env index context := by
    simp only [List.any_eq_true, Bool.and_eq_true, decide_eq_true_eq, Option.isNone_iff_eq_none,
      and_assoc]
    rfl
  rw [← missing]
  unfold checkManifest
  split
  · rename_i found
    exact iff_of_true (List.cons_ne_nil _ _) found
  · rename_i absent
    exact iff_of_false (fun error => error rfl) absent

theorem layOut_fails (context : RecompilerContext) (index : Nat) (s : CodeMods) :
    (layOut context index s).2 ≠ [] ↔ context.relocOutOfRange = true := by
  unfold layOut
  dsimp only
  split
  · rename_i outside
    exact iff_of_true (List.cons_ne_nil _ _) outside
  · rename_i inside
    exact iff_of_false (fun error => error rfl) inside

theorem initModCode_fails : (initModCode env index s).2 ≠ [] ↔ s.InitFails env index := by
  cases taken : env.symbolsTaken index with
  | none =>
      refine iff_of_true (initModCode_untaken taken).1 fun context other => ?_
      rw [taken] at other
      cases other
  | some context =>
      have fails : s.InitFails env index ↔
          s.DependencyMissing env index context ∨ context.relocOutOfRange = true := by
        constructor
        · exact fun all => all context taken
        · intro here other same
          cases taken.symm.trans same
          exact here
      rw [fails, initModCode_taken taken]
      by_cases manifest : (checkManifest env context index (s.takeSymbols env index)).2 = []
      · have present := mt (checkManifest_fails env context index _).mpr (not_not_intro manifest)
        rw [untilError_cons_ok _ manifest, untilError_singleton, layOut_fails]
        exact (or_iff_right present).symm
      · rw [untilError_cons_failed _ manifest]
        have missing := (checkManifest_fails env context index _).mp manifest
        exact iff_of_true manifest (Or.inl missing)

theorem initModCode_frame (env : LoadEnv) (index : Nat) (s : CodeMods) :
    (initModCode env index s).1.context = s.context ∧
      (initModCode env index s).1.loadedCodeMods = s.loadedCodeMods ∧
      ∀ other, ((initModCode env index s).1.mods other).recompilerContext =
        if other = index then env.modContext index (s.mods index).recompilerContext
        else (s.mods other).recompilerContext := by
  cases taken : env.symbolsTaken index with
  | none =>
      rw [(initModCode_untaken taken).2]
      refine ⟨rfl, rfl, fun other => ?_⟩
      by_cases here : other = index
      · subst here
        rw [if_pos rfl, setMod_self]
      · rw [if_neg here, setMod_other _ _ here]
  | some context =>
      rw [initModCode_taken taken]
      have contexts (other : Nat) := (takeSymbols_mods s env index other).2
      rcases checkLayOut env context index (s.takeSymbols env index) with same | laid
      · rw [same]
        exact ⟨rfl, rfl, contexts⟩
      · rw [laid]
        unfold layOut
        dsimp only
        have placed (other : Nat) : (((s.takeSymbols env index).setMod index fun m => { m with
            sectionLoadAddresses := (layoutSections (s.takeSymbols env index).loadAddress
              context.sections).1 }).mods other).recompilerContext =
            ((s.takeSymbols env index).mods other).recompilerContext := by
          by_cases here : other = index
          · rw [here, setMod_self]
          · rw [setMod_other _ _ here]
        split
        · exact ⟨rfl, rfl, fun other => (placed other).trans (contexts other)⟩
        · exact ⟨rfl, rfl, fun other => (placed other).trans (contexts other)⟩

theorem initModCode_ok (ok : (initModCode env index s).2 = []) :
    ∃ context, env.symbolsTaken index = some context ∧
      (initModCode env index s).1.hookSlots =
        context.hooks.foldl (fun slots hook => slots.add hook.definition) s.hookSlots := by
  cases taken : env.symbolsTaken index with
  | none => exact absurd ok (initModCode_untaken taken).1
  | some context =>
      refine ⟨context, rfl, ?_⟩
      rw [initModCode_taken taken] at ok ⊢
      have manifest : (checkManifest env context index (s.takeSymbols env index)).2 = [] := by
        by_contra failed
        rw [untilError_cons_failed _ failed] at ok
        exact failed ok
      rw [untilError_cons_ok _ manifest, checkManifest_state, untilError_singleton] at ok ⊢
      have inside := mt (layOut_fails context index _).mpr (not_not_intro ok)
      unfold layOut
      dsimp only
      rw [if_neg inside]
      rfl

end Symbols

/-! ## The first pass -/

theorem InitFails.congr {s t : CodeMods} {env : LoadEnv} {index : Nat}
    (same : s.context.SameManifests t.context) :
    t.InitFails env index ↔ s.InitFails env index := by
  unfold InitFails DependencyMissing
  simp only [manifestDependency_congr same]

theorem namesKnown_congr {s t : CodeMods} {env : LoadEnv} {index base : Nat}
    (same : marks base t = marks base s) (known : env.NamesKnown index (t.tables index)) :
    env.NamesKnown index (s.tables index) := by
  intro context taken
  obtain ⟨exports, events⟩ := known context taken
  refine ⟨fun name mem => ?_, fun name mem => ?_⟩
  · have mark : Mark.exported index name ∈ marks base t := exports name mem
    rw [same] at mark
    exact mark
  · have mark : Mark.event index name ∈ marks base t := events name mem
    rw [same] at mark
    exact mark

section InitPhase
variable (env : LoadEnv)

def initPass (indices : List Nat) : Step CodeMods LoadFailure :=
  collect (indices.map (ofMod (initModCode env)))

theorem initPass_cons (index : Nat) (rest : List Nat) (s : CodeMods) :
    (initPass env (index :: rest) s).1 = (initPass env rest (initModCode env index s).1).1 :=
  rfl

theorem initPass_errors (index : Nat) (rest : List Nat) (s : CodeMods) :
    (initPass env (index :: rest) s).2 = [] ↔ (initModCode env index s).2 = [] ∧
      (initPass env rest (initModCode env index s).1).2 = [] := by
  change (_ ++ (initPass env rest (initModCode env index s).1).2) = [] ↔ _
  rw [List.append_eq_nil_iff]
  exact and_congr_left' List.map_eq_nil_iff

variable {env} {indices : List Nat} {s : CodeMods}

theorem initPass_frame (env : LoadEnv) (indices : List Nat) (s : CodeMods) :
    (initPass env indices s).1.context = s.context ∧
      (initPass env indices s).1.loadedCodeMods = s.loadedCodeMods := by
  induction indices generalizing s with
  | nil => exact ⟨rfl, rfl⟩
  | cons index rest ih =>
      obtain ⟨context, loaded, -⟩ := initModCode_frame env index s
      rw [initPass_cons]
      obtain ⟨context', loaded'⟩ := ih (initModCode env index s).1
      exact ⟨context'.trans context, loaded'.trans loaded⟩

theorem initPass_ok_iff :
    (initPass env indices s).2 = [] ↔ ∀ index ∈ indices, ¬ s.InitFails env index := by
  induction indices generalizing s with
  | nil => exact iff_of_true rfl fun index mem => absurd mem List.not_mem_nil
  | cons index rest ih =>
      have context := (initModCode_frame env index s).1
      rw [initPass_errors, ih, List.forall_mem_cons, ← initModCode_fails, not_not]
      refine and_congr_right fun _ => forall₂_congr fun other _ => ?_
      refine not_congr (InitFails.congr ?_)
      rw [context]
      exact .refl s.context

theorem initPass_adds (env : LoadEnv) (base : Nat) (indices : List Nat) (s : CodeMods) :
    AddsMarks base s (initPass env indices s).1 := by
  induction indices generalizing s with
  | nil => exact .refl base s
  | cons index rest ih => exact (initModCode_adds env base index s).trans (ih _)

theorem initPass_keeps {base : Nat} {renewed : Set Nat}
    (known : ∀ index ∈ indices, env.NamesKnown index (s.tables index)) :
    Keeps base renewed s (initPass env indices s).1 := by
  induction indices generalizing s with
  | nil => exact .refl base renewed s
  | cons index rest ih =>
      have first := initModCode_keeps base renewed (known index List.mem_cons_self)
      refine first.trans (ih fun other mem => ?_)
      rw [first.tables]
      exact known other (List.mem_cons_of_mem index mem)

theorem initPass_known {base : Nat} (enough : base ≤ s.handles.length)
    (same : marks base (initPass env indices s).1 = marks base s) :
    ∀ index ∈ indices, env.NamesKnown index (s.tables index) := by
  induction indices generalizing s with
  | nil => exact fun index mem => absurd mem List.not_mem_nil
  | cons index rest ih =>
      rw [initPass_cons] at same
      obtain ⟨enough', sub⟩ := initModCode_adds env base index s enough
      have later := (initPass_adds env base rest _ enough').2
      have here : marks base (initModCode env index s).1 = marks base s :=
        (later.trans same.subset).antisymm sub
      intro other mem
      rcases List.mem_cons.mp mem with rfl | mem
      · exact initModCode_known base here
      · exact namesKnown_congr here (ih enough' (same.trans here.symm) other mem)

def addHookSlots (env : LoadEnv) (indices : List Nat) (slots : HookSlots) : HookSlots :=
  (indices.filterMap env.symbolsTaken).foldl
    (fun slots context => context.hooks.foldl (fun slots hook => slots.add hook.definition) slots)
    slots

theorem initPass_ok (ok : (initPass env indices s).2 = []) :
    (∀ index ∈ indices, ∃ context, env.symbolsTaken index = some context ∧
      ((initPass env indices s).1.mods index).recompilerContext = context) ∧
      (initPass env indices s).1.hookSlots = addHookSlots env indices s.hookSlots := by
  have stays (rest : List Nat) {index : Nat} {context : RecompilerContext}
      (taken : env.symbolsTaken index = some context) :
      ∀ t : CodeMods, (t.mods index).recompilerContext = context →
        ((initPass env rest t).1.mods index).recompilerContext = context := by
    induction rest with
    | nil => exact fun t here => here
    | cons other rest ih =>
        intro t here
        rw [initPass_cons]
        apply ih
        rw [(initModCode_frame env other t).2.2]
        split
        · rename_i same
          subst same
          exact modContext_eq (symbolsTaken_eq_some.mp taken).1 _
        · exact here
  induction indices generalizing s with
  | nil => exact ⟨fun index mem => absurd mem List.not_mem_nil, rfl⟩
  | cons index rest ih =>
      obtain ⟨first, later⟩ := (initPass_errors env index rest s).mp ok
      obtain ⟨context, taken, slots⟩ := initModCode_ok first
      obtain ⟨contexts, slots'⟩ := ih later
      rw [initPass_cons]
      refine ⟨fun other mem => ?_, ?_⟩
      · rcases List.mem_cons.mp mem with rfl | mem
        · refine ⟨context, taken, stays rest taken _ ?_⟩
          rw [(initModCode_frame env other s).2.2, if_pos rfl]
          exact modContext_eq (symbolsTaken_eq_some.mp taken).1 _
        · exact contexts other mem
      · rw [slots', slots, addHookSlots, addHookSlots, List.filterMap_cons, taken]
        rfl

end InitPhase

end CodeMods

end N64ModernRuntime.Librecomp
