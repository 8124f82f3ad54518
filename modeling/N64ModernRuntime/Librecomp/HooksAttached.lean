import N64ModernRuntime.Librecomp.RegeneratedHooks

/-!
# mods.cpp: the function that runs each hook

After an accepted load a hook slot is in the hook map of a generated function:
of the replacement that a mod has for the hooked function, of the patch of the
base recomp, or of the function itself.  Which one is decided by the hook alone,
so what two hooks share can be told before the load.
-/

set_option autoImplicit false

namespace N64ModernRuntime.Librecomp

open FailingSteps WriteLog

/-! ## Bodies -/

inductive HookBody where
  | replacement (modIndex funcIndex : Nat)
  | vanilla (sectionRom functionVram : UInt32)
  | patch (sectionRom functionVram : UInt32)
  deriving DecidableEq, Repr

namespace LoadEnv

variable (env : LoadEnv)

def replacementsOf (indices : List Nat) : List (Nat × FunctionReplacement) :=
  indices.flatMap fun index =>
    (((env.symbolsTaken index).map RecompilerContext.replacements).getD []).map fun replacement =>
      (index, replacement)

def replacementOf (indices : List Nat) (definition : HookDefinition) :
    Option (Nat × FunctionReplacement) :=
  (env.replacementsOf indices).find? fun entry =>
    decide (entry.2.definition definition.atReturn = definition)

/-- A patch of the base recomp, as the function of the patch binary that it is found as. -/
def patchBody (patch : BasePatchedFunction) (definition : HookDefinition) : HookBody :=
  let hook := (env.patches.patchedHook (patch, definition, 0)).1
  .patch hook.sectionRom hook.functionVram

def hookBody (indices : List Nat) (definition : HookDefinition) : HookBody :=
  match env.replacementOf indices definition with
  | some (modIndex, replacement) => .replacement modIndex replacement.funcIndex
  | none =>
      match env.codeSource.patchOf definition with
      | some patch => env.patchBody patch definition
      | none => .vanilla definition.sectionRom definition.functionVram

/-- The native function that a function of the patch binary is installed over. -/
def patchNative (sectionRom functionVram : UInt32) : Option RecompFunc :=
  (env.patchSource.entryOf ⟨sectionRom, functionVram, false⟩).bind FuncEntry.func

def Lands (definition : HookDefinition) : HookBody → Prop
  | .patch sectionRom functionVram =>
      env.patchNative sectionRom functionVram = env.nativeOf definition
  | .replacement _ _ | .vanilla _ _ => True

instance (definition : HookDefinition) (body : HookBody) : Decidable (env.Lands definition body) := by
  cases body <;> unfold Lands <;> infer_instance

end LoadEnv

/-! ## What is to hold, and when it does -/

namespace CodeMods

/-- A function of a code handle that the load from `s` to `t` has made runs the slot. -/
def Attaches (s t : CodeMods) (slot : Nat) (atReturn : Bool) (handle index : Nat) : Prop :=
  s.handles.length ≤ handle ∧ ∃ code, t.handles[handle]? = some code ∧
    index < code.context.functions.length ∧ code.hookSlot atReturn index = some slot

/-- Each slot is attached to one function, and a call of the hooked function comes to it. -/
structure HooksAttached (env : LoadEnv) (s t : CodeMods) : Prop where
  attached : ∀ (slot : Nat) (definition : HookDefinition),
    t.hookSlots.definitions[slot]? = some definition →
      ∃ handle index, Attaches s t slot definition.atReturn handle index ∧
        (∀ handle' index', Attaches s t slot definition.atReturn handle' index' →
          handle' = handle ∧ index' = index) ∧
        ∃ native, env.nativeOf definition = some native ∧
          t.bytes native = some (.code handle index)
  regenerated : t.regeneratedCodeHandle = s.regeneratedCodeHandle ∨
    ∃ handle code, t.regeneratedCodeHandle = some handle ∧ s.handles.length ≤ handle ∧
      t.handles[handle]? = some code ∧ code.RegeneratedExactly env.code
  basePatched : t.basePatchedCodeHandle = s.basePatchedCodeHandle ∨
    ∃ handle code, t.basePatchedCodeHandle = some handle ∧ s.handles.length ≤ handle ∧
      t.handles[handle]? = some code ∧ code.RegeneratedExactly env.patches

/-- Every hooked function can be called natively, a patch is installed over the
function that it is found by, hooked functions that are one native function have
one body, and a body has one hook of each kind. -/
structure HooksSafe (env : LoadEnv) (indices : List Nat) (slots : HookSlots) : Prop where
  named : ∀ d ∈ slots.definitions, (env.nativeOf d).isSome
  lands : ∀ d ∈ slots.definitions, env.Lands d (env.hookBody indices d)
  apart : ∀ d ∈ slots.definitions, ∀ e ∈ slots.definitions, env.nativeOf d = env.nativeOf e →
    env.hookBody indices d = env.hookBody indices e
  own : ∀ d ∈ slots.definitions, ∀ e ∈ slots.definitions, d.atReturn = e.atReturn →
    env.hookBody indices d = env.hookBody indices e → d = e

instance (env : LoadEnv) (indices : List Nat) (slots : HookSlots) :
    Decidable (HooksSafe env indices slots) :=
  decidable_of_iff ((∀ d ∈ slots.definitions, (env.nativeOf d).isSome) ∧
      (∀ d ∈ slots.definitions, env.Lands d (env.hookBody indices d)) ∧
      (∀ d ∈ slots.definitions, ∀ e ∈ slots.definitions, env.nativeOf d = env.nativeOf e →
        env.hookBody indices d = env.hookBody indices e) ∧
      ∀ d ∈ slots.definitions, ∀ e ∈ slots.definitions, d.atReturn = e.atReturn →
        env.hookBody indices d = env.hookBody indices e → d = e)
    ⟨fun ⟨named, lands, apart, own⟩ => ⟨named, lands, apart, own⟩,
      fun safe => ⟨safe.named, safe.lands, safe.apart, safe.own⟩⟩

/-! ## Where the bodies are -/

/-- A body is a function of a handle: the handles of the mods come first, from
`base` on, then that of the vanilla functions and that of the patches. -/
inductive BodyAt (indices : List Nat) (groups patchGroups : List RegenGroup)
    (base patchHandle : Nat) : HookBody → Nat → Nat → Prop
  | replacement {j modIndex : Nat} (funcIndex : Nat) (here : indices[j]? = some modIndex) :
      BodyAt indices groups patchGroups base patchHandle (.replacement modIndex funcIndex)
        (base + j) funcIndex
  | vanilla {index : Nat} {group : RegenGroup} (here : groups[index]? = some group) :
      BodyAt indices groups patchGroups base patchHandle
        (.vanilla group.sectionRom group.functionVram) (base + indices.length) index
  | patch {index : Nat} {group : RegenGroup} (here : patchGroups[index]? = some group) :
      BodyAt indices groups patchGroups base patchHandle
        (.patch group.sectionRom group.functionVram) patchHandle index

structure Loaded (env : LoadEnv) (indices : List Nat) (s v t : CodeMods)
    (list patchList : RegeneratedList) (groups patchGroups : List RegenGroup)
    (patchHandle : Nat) : Prop where
  replaced : Replaced env indices s v
  named : ∀ d ∈ v.hookSlots.definitions, (env.nativeOf d).isSome
  vanilla : env.codeSource.Builds env env.decompressedRom (v.leftoverHooks env) list groups
  patched : env.patchSource.Builds env env.patchBinary (env.basePatchedHooks list) patchList
    patchGroups
  placed : RegeneratedAt env v t list patchList patchHandle

namespace Loaded

variable {env : LoadEnv} {indices : List Nat} {s v t : CodeMods}
  {list patchList : RegeneratedList} {groups patchGroups : List RegenGroup} {patchHandle : Nat}
  {d : HookDefinition} {slot : Nat}

theorem handles_length (loaded : Loaded env indices s v t list patchList groups patchGroups
    patchHandle) : v.handles.length = s.handles.length + indices.length := by
  have lengths := congrArg List.length loaded.replaced.handles
  rwa [List.length_append, List.length_map, List.length_map, List.length_map] at lengths

/-! ### Replacements -/

theorem replacementsOf_eq (replaced : Replaced env indices s v) :
    env.replacementsOf indices = indices.flatMap fun index =>
      (v.mods index).recompilerContext.replacements.map fun replacement =>
        (index, replacement) := by
  refine List.flatMap_congr fun index mem => ?_
  rw [replaced.symbols index mem]
  rfl

theorem mem_replacementsOf (replaced : Replaced env indices s v)
    {entry : Nat × FunctionReplacement} :
    entry ∈ env.replacementsOf indices ↔
      entry.1 ∈ indices ∧ entry.2 ∈ (v.mods entry.1).recompilerContext.replacements := by
  rw [replacementsOf_eq replaced, List.mem_flatMap]
  constructor
  · rintro ⟨index, mem, inside⟩
    obtain ⟨replacement, here, rfl⟩ := List.mem_map.mp inside
    exact ⟨mem, here⟩
  · rintro ⟨mem, here⟩
    exact ⟨entry.1, mem, List.mem_map.mpr ⟨entry.2, here, rfl⟩⟩

theorem natives_nodup (replaced : Replaced env indices s v) :
    ((env.replacementsOf indices).map fun entry =>
      env.nativeOf (entry.2.definition false)).Nodup := by
  have writes : (env.replacementsOf indices).map
      (fun entry => env.nativeOf (entry.2.definition false)) =
        ((v.modWrites env indices).map Prod.fst).map some := by
    rw [replacementsOf_eq replaced, modWrites, List.map_flatMap, List.map_flatMap, List.map_flatMap]
    refine List.flatMap_congr fun index mem => ?_
    have named := replaced.named index mem
    unfold replacementWrites
    generalize (v.mods index).recompilerContext.replacements = replacements at named ⊢
    induction replacements with
    | nil => rfl
    | cons replacement rest ih =>
        obtain ⟨here, later⟩ := List.forall_mem_cons.mp named
        obtain ⟨native, found⟩ := Option.isSome_iff_exists.mp here
        rw [List.map_cons, List.map_cons, ih later, List.filterMap_cons]
        simp only [found, Option.map_some, List.map_cons]
  rw [writes]
  exact replaced.once.map (Option.some_injective _)

theorem replacement_unique (replaced : Replaced env indices s v)
    {entry other : Nat × FunctionReplacement} (mem : entry ∈ env.replacementsOf indices)
    (mem' : other ∈ env.replacementsOf indices) {atReturn : Bool}
    (same : entry.2.definition atReturn = other.2.definition atReturn) : entry = other := by
  refine List.inj_on_of_nodup_map (natives_nodup replaced) mem mem' ?_
  have rom : entry.2.originalSectionVrom = other.2.originalSectionVrom :=
    congrArg HookDefinition.sectionRom same
  have vram : entry.2.originalVram = other.2.originalVram :=
    congrArg HookDefinition.functionVram same
  change env.getFuncBySectionRomFunctionVram _ _ = env.getFuncBySectionRomFunctionVram _ _
  exact congrArg₂ _ rom vram

theorem replacementOf_eq_some (replaced : Replaced env indices s v)
    {entry : Nat × FunctionReplacement} :
    env.replacementOf indices d = some entry ↔
      entry ∈ env.replacementsOf indices ∧ entry.2.definition d.atReturn = d := by
  constructor
  · intro found
    have same := List.find?_some found
    exact ⟨List.mem_of_find?_eq_some found, of_decide_eq_true same⟩
  · rintro ⟨mem, same⟩
    have some_entry : (env.replacementOf indices d).isSome :=
      List.find?_isSome.mpr ⟨entry, mem, decide_eq_true same⟩
    obtain ⟨other, found⟩ := Option.isSome_iff_exists.mp some_entry
    have same' := List.find?_some found
    have equal := replacement_unique replaced (List.mem_of_find?_eq_some found) mem
      ((of_decide_eq_true same').trans same.symm)
    rw [found, equal]

theorem index_unique (replaced : Replaced env indices s v) {entry : Nat × FunctionReplacement}
    (mem : entry ∈ env.replacementsOf indices) {i j : Nat} (here : indices[i]? = some entry.1)
    (there : indices[j]? = some entry.1) : i = j := by
  have distinct := List.Nodup.of_map _ (natives_nodup replaced)
  rw [replacementsOf_eq replaced, List.nodup_flatMap] at distinct
  have inside := (mem_replacementsOf replaced).mp mem
  obtain ⟨iBelow, iHere⟩ := List.getElem?_eq_some_iff.mp here
  obtain ⟨jBelow, jHere⟩ := List.getElem?_eq_some_iff.mp there
  have both {a b : Nat} (aBelow : a < indices.length) (bBelow : b < indices.length)
      (aHere : indices[a] = entry.1) (bHere : indices[b] = entry.1) : ¬ a < b := by
    intro less
    have disjoint := List.pairwise_iff_getElem.mp distinct.2 a b aBelow bBelow less
    unfold Function.onFun at disjoint
    rw [aHere, bHere] at disjoint
    have there : entry ∈ (v.mods entry.1).recompilerContext.replacements.map
        fun replacement => (entry.1, replacement) := List.mem_map.mpr ⟨entry.2, inside.2, rfl⟩
    exact disjoint there there
  exact Nat.le_antisymm (Nat.not_lt.mp (both jBelow iBelow jHere iHere))
    (Nat.not_lt.mp (both iBelow jBelow iHere jHere))

theorem processed_iff (replaced : Replaced env indices s v)
    (here : v.hookSlots.definitions[slot]? = some d) :
    v.processedHookSlots[slot]? = some true ↔ (env.replacementOf indices d).isSome := by
  rw [replaced.processed slot (List.getElem?_eq_some_iff.mp here).1, Option.isSome_iff_exists]
  constructor
  · rintro ⟨index, mem, replacement, inside, atReturn, found⟩
    have same := Option.some.inj ((HookSlots.find_eq_some.mp found).symm.trans here)
    refine ⟨(index, replacement), (replacementOf_eq_some replaced).mpr
      ⟨(mem_replacementsOf replaced).mpr ⟨mem, inside⟩, ?_⟩⟩
    rw [← same]
    rfl
  · rintro ⟨entry, found⟩
    obtain ⟨mem, same⟩ := (replacementOf_eq_some replaced).mp found
    obtain ⟨listed, inside⟩ := (mem_replacementsOf replaced).mp mem
    refine ⟨entry.1, listed, entry.2, inside, d.atReturn, HookSlots.find_eq_some.mpr ?_⟩
    rw [same]
    exact here

theorem mem_leftoverHooks (replaced : Replaced env indices s v) :
    (d, slot) ∈ v.leftoverHooks env ↔
      v.hookSlots.definitions[slot]? = some d ∧ env.replacementOf indices d = none := by
  unfold leftoverHooks
  rw [LoadEnv.mem_sortHooks, mem_unprocessedHooks]
  refine and_congr_right fun here => ?_
  rw [processed_iff replaced here, Option.not_isSome_iff_eq_none]

/-! ### The hooks of a handle -/

theorem hookSlot_replacement {index : Nat} (atReturn : Bool) (funcIndex : Nat)
    {code : CodeHandle} (same : code.hookedCode = v.hookedCode index) :
    code.hookSlot atReturn funcIndex = (replacementHooks v.hookSlots
      (v.mods index).recompilerContext.replacements atReturn).lookup funcIndex := by
  have entries : code.entryFuncHooks = _ := congrArg HookedCode.entryFuncHooks same
  have returns : code.returnFuncHooks = _ := congrArg HookedCode.returnFuncHooks same
  rw [← ofReplacements_hooks []]
  unfold CodeHandle.hookSlot HookMaps.hooks
  rw [entries, returns]
  rfl

theorem hookSlot_regenerated (list : RegeneratedList) (rom : List UInt8) (atReturn : Bool)
    (index : Nat) : (env.regeneratedHandle list rom).hookSlot atReturn index =
      (list.hookMap atReturn).lookup index := rfl

theorem modHandle (loaded : Loaded env indices s v t list patchList groups patchGroups patchHandle)
    {j index : Nat} (here : indices[j]? = some index) :
    ∃ code, t.handles[s.handles.length + j]? = some code ∧
      code.hookedCode = v.hookedCode index := by
  have hooked : (v.handles.map CodeHandle.hookedCode)[s.handles.length + j]? =
      some (v.hookedCode index) := by
    rw [loaded.replaced.handles, List.getElem?_append_right (by simp), List.length_map,
      Nat.add_sub_cancel_left, List.getElem?_map, here, Option.map_some]
  rw [List.getElem?_map] at hooked
  obtain ⟨code, there, same⟩ := Option.map_eq_some_iff.mp hooked
  obtain ⟨below, same'⟩ := List.getElem?_eq_some_iff.mp there
  exact ⟨code, by rw [List.prefix_iff_getElem?.mp loaded.placed.prefix_ _ below, same'], same⟩

theorem handle_cases
    (loaded : Loaded env indices s v t list patchList groups patchGroups patchHandle)
    {handle : Nat} {code : CodeHandle} (new : s.handles.length ≤ handle)
    (here : t.handles[handle]? = some code) :
    (∃ j index, handle = s.handles.length + j ∧ indices[j]? = some index ∧
        code.hookedCode = v.hookedCode index) ∨
      handle = s.handles.length + indices.length ∧
        code = env.regeneratedHandle list env.decompressedRom ∨
      handle = patchHandle ∧ code = env.regeneratedHandle patchList env.patchBinary := by
  rw [← loaded.handles_length]
  by_cases old : handle < v.handles.length
  · left
    have there : v.handles[handle]? = some code := by
      rw [List.prefix_iff_getElem?.mp loaded.placed.prefix_ _ old] at here
      rw [List.getElem?_eq_getElem old, here]
    have below : handle - s.handles.length < indices.length := by
      rw [loaded.handles_length] at old
      omega
    refine ⟨handle - s.handles.length, indices[handle - s.handles.length], by omega,
      List.getElem?_eq_getElem below, ?_⟩
    have hooked := congrArg (fun l => l[handle]?) loaded.replaced.handles
    simp only [List.getElem?_map, there, Option.map_some] at hooked
    rw [List.getElem?_append_right (by simpa using new), List.length_map, List.getElem?_map,
      List.getElem?_eq_getElem below] at hooked
    exact Option.some.inj hooked
  · exact .inr (loaded.placed.cases_ handle code (Nat.not_lt.mp old) here)

/-! ### The body of a hook -/

theorem hookBody_replacement {entry : Nat × FunctionReplacement}
    (found : env.replacementOf indices d = some entry) :
    env.hookBody indices d = .replacement entry.1 entry.2.funcIndex := by
  unfold LoadEnv.hookBody
  rw [found]

theorem hookBody_patch {patch : BasePatchedFunction} (none : env.replacementOf indices d = none)
    (patched : env.codeSource.patchOf d = some patch) :
    env.hookBody indices d = env.patchBody patch d := by
  unfold LoadEnv.hookBody
  rw [none, patched]

theorem hookBody_vanilla (none : env.replacementOf indices d = none)
    (unpatched : env.codeSource.patchOf d = Option.none) :
    env.hookBody indices d = .vanilla d.sectionRom d.functionVram := by
  unfold LoadEnv.hookBody
  rw [none, unpatched]

theorem mem_of_lookup {entries : List (Nat × Nat)} {index slot : Nat}
    (found : entries.lookup index = some slot) : (index, slot) ∈ entries := by
  obtain ⟨before, after, rfl, -⟩ := List.lookup_eq_some_iff.mp found
  exact List.mem_append_right _ List.mem_cons_self

theorem groupOf_words {source : RegenSource} {group : RegenGroup} (of : source.GroupOf d group) :
    group.sectionRom = d.sectionRom ∧ group.functionVram = d.functionVram :=
  HookDefinition.place_inj.mp of.place

theorem functions_ne
    (loaded : Loaded env indices s v t list patchList groups patchGroups patchHandle)
    {index : Nat} {group : RegenGroup} (here : groups[index]? = some group) :
    list.functions ≠ [] := by
  rw [loaded.vanilla.lists.functions, Ne, List.map_eq_nil_iff]
  rintro rfl
  cases here

theorem patchFunctions_ne
    (loaded : Loaded env indices s v t list patchList groups patchGroups patchHandle)
    {index : Nat} {group : RegenGroup} (here : patchGroups[index]? = some group) :
    patchList.functions ≠ [] := by
  rw [loaded.patched.lists.functions, Ne, List.map_eq_nil_iff]
  rintro rfl
  cases here

theorem mem_basePatchedHooks
    (loaded : Loaded env indices s v t list patchList groups patchGroups patchHandle)
    {hook : HookDefinition × Nat} :
    hook ∈ env.basePatchedHooks list ↔ ∃ patch vanillaHook, vanillaHook ∈ v.leftoverHooks env ∧
      env.codeSource.patchOf vanillaHook.1 = some patch ∧
        env.patches.patchedHook (patch, vanillaHook) = hook := by
  unfold LoadEnv.basePatchedHooks
  rw [LoadEnv.mem_sortHooks, List.mem_map, Prod.exists]
  refine exists_congr fun patch => exists_congr fun vanillaHook => ?_
  rw [loaded.vanilla.lists.patched, and_assoc]

theorem attaches_bodyAt
    (loaded : Loaded env indices s v t list patchList groups patchGroups patchHandle)
    {atReturn : Bool} {handle index : Nat} (attaches : Attaches s t slot atReturn handle index) :
    ∃ d, v.hookSlots.definitions[slot]? = some d ∧ d.atReturn = atReturn ∧
      BodyAt indices groups patchGroups s.handles.length patchHandle
        (env.hookBody indices d) handle index := by
  obtain ⟨new, code, here, -, mapped⟩ := attaches
  rcases loaded.handle_cases new here with ⟨j, modIndex, rfl, mod, same⟩ | ⟨rfl, rfl⟩ | ⟨rfl, rfl⟩
  · rw [hookSlot_replacement atReturn index same] at mapped
    obtain ⟨replacement, inside, rfl, found⟩ :=
      mem_replacementHooks.mp (mem_of_lookup mapped)
    refine ⟨_, HookSlots.find_eq_some.mp found, rfl, ?_⟩
    have listed : (modIndex, replacement) ∈ env.replacementsOf indices :=
      (mem_replacementsOf loaded.replaced).mpr ⟨List.mem_of_getElem? mod, inside⟩
    rw [hookBody_replacement ((replacementOf_eq_some loaded.replaced).mpr ⟨listed, rfl⟩)]
    exact .replacement _ mod
  · rw [hookSlot_regenerated] at mapped
    obtain ⟨hook, mem, rfl, kind, group, there, of⟩ :=
      loaded.vanilla.lists.sound atReturn index slot mapped
    obtain ⟨slots, none⟩ := (mem_leftoverHooks loaded.replaced).mp mem
    obtain ⟨rom, vram⟩ := groupOf_words of
    refine ⟨hook.1, slots, kind, ?_⟩
    rw [hookBody_vanilla none of.unpatched, ← rom, ← vram]
    exact .vanilla there
  · rw [hookSlot_regenerated] at mapped
    obtain ⟨patchHook, mem, rfl, kind, group, there, of⟩ :=
      loaded.patched.lists.sound atReturn index slot mapped
    obtain ⟨patch, hook, left, patched, rfl⟩ := loaded.mem_basePatchedHooks.mp mem
    obtain ⟨slots, none⟩ := (mem_leftoverHooks loaded.replaced).mp left
    obtain ⟨rom, vram⟩ := groupOf_words of
    refine ⟨hook.1, slots, kind, ?_⟩
    have body : env.hookBody indices hook.1 = .patch group.sectionRom group.functionVram := by
      rw [hookBody_patch none patched, rom, vram]
      rfl
    rw [body]
    exact .patch there

/-! ### Bodies and their places -/

theorem group_unique {source : RegenSource} {rom : List UInt8}
    {hooks : List (HookDefinition × Nat)} {made : RegeneratedList} {groups : List RegenGroup}
    (builds : source.Builds env rom hooks made groups) {i j : Nat} {group other : RegenGroup}
    (here : groups[i]? = some group) (there : groups[j]? = some other)
    (sectionRom : group.sectionRom = other.sectionRom)
    (functionVram : group.functionVram = other.functionVram) : i = j := by
  have same : group.place = other.place := by
    unfold RegenGroup.place
    rw [sectionRom, functionVram]
  obtain ⟨iBelow, iHere⟩ := List.getElem?_eq_some_iff.mp here
  obtain ⟨jBelow, jHere⟩ := List.getElem?_eq_some_iff.mp there
  have increasing := List.pairwise_iff_getElem.mp builds.lists.increasing
  rcases Nat.lt_trichotomy i j with less | equal | less
  · have before := increasing i j iBelow jBelow less
    rw [iHere, jHere, same] at before
    exact absurd before (lt_irrefl _)
  · exact equal
  · have before := increasing j i jBelow iBelow less
    rw [iHere, jHere, same] at before
    exact absurd before (lt_irrefl _)

theorem body_unique
    (loaded : Loaded env indices s v t list patchList groups patchGroups patchHandle)
    {body other : HookBody} {handle index : Nat}
    (here : BodyAt indices groups patchGroups s.handles.length patchHandle body handle index)
    (there : BodyAt indices groups patchGroups s.handles.length patchHandle other handle index) :
    body = other := by
  have patchHandle_le : s.handles.length + indices.length ≤ patchHandle := by
    rw [← loaded.handles_length]
    exact loaded.placed.patchHandle_le
  have patchHandle_lt {index : Nat} {group : RegenGroup} (here : groups[index]? = some group) :
      s.handles.length + indices.length < patchHandle := by
    rw [← loaded.handles_length]
    exact loaded.placed.patchHandle_lt (loaded.functions_ne here)
  generalize same : handle = place at there
  cases here with
  | replacement funcIndex mod =>
      have below := (List.getElem?_eq_some_iff.mp mod).1
      cases there with
      | replacement _ mod' =>
          rw [Nat.add_left_cancel same, mod'] at mod
          rw [Option.some.inj mod]
      | vanilla group => omega
      | patch group => omega
  | vanilla group =>
      cases there with
      | replacement _ mod' =>
          have below := (List.getElem?_eq_some_iff.mp mod').1
          omega
      | vanilla group' =>
          rw [Option.some.inj (group.symm.trans group')]
      | patch group' =>
          have apart := patchHandle_lt group
          omega
  | patch group =>
      cases there with
      | replacement _ mod' =>
          have below := (List.getElem?_eq_some_iff.mp mod').1
          omega
      | vanilla group' =>
          have apart := patchHandle_lt group'
          omega
      | patch group' =>
          rw [Option.some.inj (group.symm.trans group')]

theorem place_unique
    (loaded : Loaded env indices s v t list patchList groups patchGroups patchHandle)
    {handle index handle' index' : Nat}
    (here : BodyAt indices groups patchGroups s.handles.length patchHandle
      (env.hookBody indices d) handle index)
    (there : BodyAt indices groups patchGroups s.handles.length patchHandle
      (env.hookBody indices d) handle' index') : handle = handle' ∧ index = index' := by
  generalize of : env.hookBody indices d = body at here there
  cases here with
  | replacement funcIndex mod =>
      cases there with
      | replacement _ mod' =>
          cases found : env.replacementOf indices d with
          | some entry =>
              rw [hookBody_replacement found] at of
              have mem := ((replacementOf_eq_some loaded.replaced).mp found).1
              cases of
              exact ⟨congrArg _ (index_unique loaded.replaced mem mod mod'), rfl⟩
          | none =>
              unfold LoadEnv.hookBody at of
              rw [found] at of
              cases patched : env.codeSource.patchOf d with
              | none => simp [patched] at of
              | some patch => simp [patched, LoadEnv.patchBody] at of
  | @vanilla index group mod =>
      generalize vram : group.functionVram = functionVram at there
      generalize rom : group.sectionRom = sectionRom at there
      cases there with
      | vanilla mod' => exact ⟨rfl, group_unique loaded.vanilla mod mod' rom vram⟩
  | @patch index group mod =>
      generalize vram : group.functionVram = functionVram at there
      generalize rom : group.sectionRom = sectionRom at there
      cases there with
      | patch mod' => exact ⟨rfl, group_unique loaded.patched mod mod' rom vram⟩

theorem entryOf_group {source : RegenSource} {rom : List UInt8}
    {hooks : List (HookDefinition × Nat)} {made : RegeneratedList} {groups : List RegenGroup}
    (builds : source.Builds env rom hooks made groups) {i : Nat} {group : RegenGroup}
    (here : groups[i]? = some group) (atReturn : Bool) :
    source.entryOf ⟨group.sectionRom, group.functionVram, atReturn⟩ = some group.entry := by
  obtain ⟨hook, -, of⟩ := builds.ofHook group (List.mem_of_getElem? here)
  obtain ⟨rom, vram⟩ := groupOf_words of
  rw [← of.entry, rom, vram]
  rfl

theorem bodyAt_exists
    (loaded : Loaded env indices s v t list patchList groups patchGroups patchHandle)
    (here : v.hookSlots.definitions[slot]? = some d) :
    ∃ handle index, BodyAt indices groups patchGroups s.handles.length patchHandle
      (env.hookBody indices d) handle index := by
  cases found : env.replacementOf indices d with
  | some entry =>
      obtain ⟨mem, -⟩ := (replacementOf_eq_some loaded.replaced).mp found
      obtain ⟨j, mod⟩ := List.getElem?_of_mem ((mem_replacementsOf loaded.replaced).mp mem).1
      rw [hookBody_replacement found]
      exact ⟨_, _, .replacement _ mod⟩
  | none =>
      have left := (mem_leftoverHooks loaded.replaced).mpr ⟨here, found⟩
      cases patched : env.codeSource.patchOf d with
      | none =>
          obtain ⟨group, mem, of⟩ := loaded.vanilla.lists.grouped _ left patched
          obtain ⟨index, there⟩ := List.getElem?_of_mem mem
          obtain ⟨rom, vram⟩ := groupOf_words of
          rw [hookBody_vanilla found patched, ← rom, ← vram]
          exact ⟨_, _, .vanilla there⟩
      | some patch =>
          have mem := loaded.mem_basePatchedHooks.mpr ⟨patch, (d, slot), left, patched, rfl⟩
          obtain ⟨group, mem, of⟩ := loaded.patched.lists.grouped _ mem rfl
          obtain ⟨index, there⟩ := List.getElem?_of_mem mem
          obtain ⟨rom, vram⟩ := groupOf_words of
          have body : env.hookBody indices d = .patch group.sectionRom group.functionVram := by
            rw [hookBody_patch found patched, rom, vram]
            rfl
          rw [body]
          exact ⟨_, _, .patch there⟩

theorem bodyAt_attaches
    (loaded : Loaded env indices s v t list patchList groups patchGroups patchHandle)
    (here : v.hookSlots.definitions[slot]? = some d) {handle index : Nat}
    (at_ : BodyAt indices groups patchGroups s.handles.length patchHandle
      (env.hookBody indices d) handle index) :
    ∃ other, Attaches s t other d.atReturn handle index := by
  cases found : env.replacementOf indices d with
  | some entry =>
      obtain ⟨mem, same⟩ := (replacementOf_eq_some loaded.replaced).mp found
      have inside := ((mem_replacementsOf loaded.replaced).mp mem).2
      rw [hookBody_replacement found] at at_
      cases at_ with
      | replacement _ mod =>
          obtain ⟨code, there, hooked⟩ := loaded.modHandle mod
          have mapped := mem_replacementHooks.mpr
            ⟨entry.2, inside, rfl, HookSlots.find_eq_some.mpr (same.symm ▸ here)⟩
          obtain ⟨other, taken⟩ := Option.isSome_iff_exists.mp
            (List.lookup_isSome_iff.mpr ⟨_, mapped, beq_self_eq_true _⟩)
          refine ⟨other, Nat.le_add_right _ _, code, there, ?_,
            (hookSlot_replacement _ _ hooked).trans taken⟩
          have context : code.context = _ := congrArg HookedCode.context hooked
          rw [context]
          exact (v.mods entry.1).recompilerContext.replacement_lt entry.2 inside
  | none =>
      have left := (mem_leftoverHooks loaded.replaced).mpr ⟨here, found⟩
      cases patched : env.codeSource.patchOf d with
      | none =>
          rw [hookBody_vanilla found patched] at at_
          generalize vram : d.functionVram = functionVram at at_
          generalize rom : d.sectionRom = sectionRom at at_
          cases at_ with
          | vanilla there =>
              obtain ⟨group', mem, of⟩ := loaded.vanilla.lists.grouped _ left patched
              obtain ⟨index', there'⟩ := List.getElem?_of_mem mem
              obtain ⟨rom', vram'⟩ := groupOf_words of
              cases group_unique loaded.vanilla there there' (rom.symm.trans rom'.symm)
                (vram.symm.trans vram'.symm)
              obtain ⟨other, taken⟩ := Option.isSome_iff_exists.mp
                (loaded.vanilla.lists.total _ left _ _ there' of)
              refine ⟨other, Nat.le_add_right _ _, env.regeneratedHandle list
                env.decompressedRom, ?_, ?_, taken⟩
              · rw [← loaded.handles_length]
                exact loaded.placed.vanilla (loaded.functions_ne there)
              · rw [loaded.vanilla.length]
                exact (List.getElem?_eq_some_iff.mp there).1
      | some patch =>
          have mem := loaded.mem_basePatchedHooks.mpr ⟨patch, (d, slot), left, patched, rfl⟩
          obtain ⟨group', mem', of⟩ := loaded.patched.lists.grouped _ mem rfl
          obtain ⟨index', there'⟩ := List.getElem?_of_mem mem'
          obtain ⟨rom', vram'⟩ := groupOf_words of
          have body : env.hookBody indices d = .patch group'.sectionRom group'.functionVram := by
            rw [hookBody_patch found patched, rom', vram']
            rfl
          rw [body] at at_
          generalize vram : group'.functionVram = functionVram at at_
          generalize rom : group'.sectionRom = sectionRom at at_
          cases at_ with
          | patch there =>
              cases group_unique loaded.patched there there' rom.symm vram.symm
              obtain ⟨other, taken⟩ := Option.isSome_iff_exists.mp
                (loaded.patched.lists.total _ mem _ _ there' of)
              refine ⟨other, ?_, env.regeneratedHandle patchList env.patchBinary, ?_, ?_, taken⟩
              · refine Nat.le_trans ?_ loaded.placed.patchHandle_le
                rw [loaded.handles_length]
                exact Nat.le_add_right _ _
              · exact loaded.placed.patched (loaded.patchFunctions_ne there)
              · rw [loaded.patched.length]
                exact (List.getElem?_eq_some_iff.mp there).1

/-! ### The jumps -/

inductive JumpAt (env : LoadEnv) (indices : List Nat) (v : CodeMods) (base : Nat)
    (groups patchGroups : List RegenGroup) (patchHandle : Nat) :
    RecompFunc → Nat → Nat → Prop
  | replacement {j modIndex : Nat} {native : RecompFunc} (replacement : FunctionReplacement)
      (here : indices[j]? = some modIndex)
      (inside : replacement ∈ (v.mods modIndex).recompilerContext.replacements)
      (found : env.nativeOf (replacement.definition false) = some native) :
      JumpAt env indices v base groups patchGroups patchHandle native (base + j)
        replacement.funcIndex
  | vanilla {index : Nat} {group : RegenGroup} {native : RecompFunc}
      (here : groups[index]? = some group) (found : group.entry.func = some native) :
      JumpAt env indices v base groups patchGroups patchHandle native (base + indices.length) index
  | patch {index : Nat} {group : RegenGroup} {native : RecompFunc}
      (here : patchGroups[index]? = some group) (found : group.entry.func = some native) :
      JumpAt env indices v base groups patchGroups patchHandle native patchHandle index

theorem mem_modWrites (replaced : Replaced env indices s v) {native : RecompFunc}
    {prologue : Prologue} (mem : (native, prologue) ∈ v.modWrites env indices) :
    ∃ handle index, prologue = some (.code handle index) ∧
      JumpAt env indices v s.handles.length groups patchGroups patchHandle native handle
        index := by
  unfold modWrites at mem
  obtain ⟨modIndex, listed, write⟩ := List.mem_flatMap.mp mem
  obtain ⟨replacement, inside, made⟩ := List.mem_filterMap.mp write
  obtain ⟨native', found, same⟩ := Option.map_eq_some_iff.mp made
  cases same
  obtain ⟨j, here, owned⟩ := replaced.owner modIndex listed
  refine ⟨_, _, ?_, .replacement replacement here inside found⟩
  rw [ModCode.functionHandle, owned]
  rfl

theorem mem_listWrites {funcPtrs : List (Option RecompFunc)} {list : List RegenGroup}
    (pointers : funcPtrs = list.map fun group => group.entry.func) {handle : Nat}
    {native : RecompFunc} {prologue : Prologue} :
    (native, prologue) ∈ regeneratedWrites handle 0 funcPtrs ↔
      ∃ index group, list[index]? = some group ∧ group.entry.func = some native ∧
        prologue = some (.code handle index) := by
  rw [mem_regeneratedWrites, pointers]
  refine exists_congr fun index => ?_
  rw [List.getElem?_map, Option.map_eq_some_iff]
  constructor
  · rintro ⟨⟨group, here, found⟩, same⟩
    exact ⟨group, here, found, same⟩
  · rintro ⟨group, here, found, same⟩
    exact ⟨⟨group, here, found⟩, same⟩

def regenWrites (base patchHandle : Nat) (list patchList : RegeneratedList) :
    List (RecompFunc × Prologue) :=
  regeneratedWrites base 0 list.funcPtrs ++ regeneratedWrites patchHandle 0 patchList.funcPtrs

theorem mem_regenWrites
    (loaded : Loaded env indices s v t list patchList groups patchGroups patchHandle)
    {native : RecompFunc} {prologue : Prologue}
    (mem : (native, prologue) ∈ regenWrites v.handles.length patchHandle list patchList) :
    ∃ handle index, prologue = some (.code handle index) ∧
      JumpAt env indices v s.handles.length groups patchGroups patchHandle native handle
        index := by
  unfold regenWrites at mem
  rw [loaded.handles_length] at mem
  rcases List.mem_append.mp mem with write | write
  · obtain ⟨index, group, here, found, rfl⟩ :=
      (mem_listWrites loaded.vanilla.lists.funcPtrs).mp write
    exact ⟨_, _, rfl, .vanilla here found⟩
  · obtain ⟨index, group, here, found, rfl⟩ :=
      (mem_listWrites loaded.patched.lists.funcPtrs).mp write
    exact ⟨_, _, rfl, .patch here found⟩

theorem bytes_eq
    (loaded : Loaded env indices s v t list patchList groups patchGroups patchHandle) :
    t.bytes = writeAll (writeAll s.bytes (v.modWrites env indices))
      (regenWrites v.handles.length patchHandle list patchList) := by
  rw [loaded.placed.bytes, loaded.replaced.bytes]
  rfl

theorem bytes_cases
    (loaded : Loaded env indices s v t list patchList groups patchGroups patchHandle)
    (native : RecompFunc) :
    t.bytes native = s.bytes native ∨ ∃ handle index,
      t.bytes native = some (.code handle index) ∧
        JumpAt env indices v s.handles.length groups patchGroups patchHandle native handle
          index := by
  rw [loaded.bytes_eq]
  rcases writeAll_cases (writeAll s.bytes (v.modWrites env indices))
    (regenWrites v.handles.length patchHandle list patchList) native with
    ⟨-, old⟩ | new
  · rw [old]
    rcases writeAll_cases s.bytes (v.modWrites env indices) native with
      ⟨-, older⟩ | new
    · exact .inl older
    · exact .inr (mem_modWrites loaded.replaced new)
  · exact .inr (loaded.mem_regenWrites new)

/-- A list writes to a native function only for a hook of that function which is left over. -/
theorem leftover_of_jump
    (loaded : Loaded env indices s v t list patchList groups patchGroups patchHandle)
    (safe : HooksSafe env indices v.hookSlots) {native : RecompFunc} {prologue : Prologue}
    (mem : (native, prologue) ∈ regenWrites v.handles.length patchHandle list patchList) :
    ∃ d ∈ v.hookSlots.definitions, env.nativeOf d = some native ∧
      env.replacementOf indices d = none ∧ ∃ handle index, prologue = some (.code handle index) ∧
        BodyAt indices groups patchGroups s.handles.length patchHandle (env.hookBody indices d)
          handle index := by
  unfold regenWrites at mem
  rw [loaded.handles_length] at mem
  rcases List.mem_append.mp mem with write | write
  · obtain ⟨index, group, here, found, rfl⟩ :=
      (mem_listWrites loaded.vanilla.lists.funcPtrs).mp write
    obtain ⟨⟨d, slot⟩, left, of⟩ := loaded.vanilla.ofHook group (List.mem_of_getElem? here)
    obtain ⟨slots, none⟩ := (mem_leftoverHooks loaded.replaced).mp left
    obtain ⟨rom, vram⟩ := groupOf_words of
    refine ⟨d, List.mem_of_getElem? slots, ?_, none, _, _, rfl, ?_⟩
    · rw [LoadEnv.nativeOf_entry, of.entry]
      exact found
    · rw [hookBody_vanilla none of.unpatched, ← rom, ← vram]
      exact .vanilla here
  · obtain ⟨index, group, here, found, rfl⟩ :=
      (mem_listWrites loaded.patched.lists.funcPtrs).mp write
    obtain ⟨patchHook, mem, of⟩ := loaded.patched.ofHook group (List.mem_of_getElem? here)
    obtain ⟨patch, ⟨d, slot⟩, left, patched, rfl⟩ := loaded.mem_basePatchedHooks.mp mem
    obtain ⟨slots, none⟩ := (mem_leftoverHooks loaded.replaced).mp left
    obtain ⟨rom, vram⟩ := groupOf_words of
    have body : env.hookBody indices d = .patch group.sectionRom group.functionVram := by
      rw [hookBody_patch none patched, rom, vram]
      rfl
    have listed := List.mem_of_getElem? slots
    have lands := safe.lands d listed
    rw [body] at lands
    refine ⟨d, listed, ?_, none, _, _, rfl, ?_⟩
    · rw [← (lands : _ = env.nativeOf d), LoadEnv.patchNative, entryOf_group loaded.patched here]
      exact found
    · rw [body]
      exact .patch here

theorem bytes_bodyAt
    (loaded : Loaded env indices s v t list patchList groups patchGroups patchHandle)
    (safe : HooksSafe env indices v.hookSlots)
    (here : v.hookSlots.definitions[slot]? = some d) {native : RecompFunc}
    (named : env.nativeOf d = some native) {handle index : Nat}
    (at_ : BodyAt indices groups patchGroups s.handles.length patchHandle
      (env.hookBody indices d) handle index) : t.bytes native = some (.code handle index) := by
  have listed := List.mem_of_getElem? here
  have agree {prologue : Prologue}
      (mem : (native, prologue) ∈ regenWrites v.handles.length patchHandle list patchList) :
      env.replacementOf indices d = none ∧ prologue = some (.code handle index) := by
    obtain ⟨e, listed', named', none, handle', index', rfl, at'⟩ := loaded.leftover_of_jump safe mem
    have body := safe.apart d listed e listed' (named.trans named'.symm)
    rw [← body] at at'
    obtain ⟨rfl, rfl⟩ := loaded.place_unique at_ at'
    refine ⟨?_, rfl⟩
    cases found : env.replacementOf indices d with
    | none => rfl
    | some entry =>
        rw [hookBody_replacement found] at body
        cases patched : env.codeSource.patchOf e with
        | none =>
            rw [hookBody_vanilla none patched] at body
            cases body
        | some patch =>
            rw [hookBody_patch none patched, LoadEnv.patchBody] at body
            cases body
  rw [loaded.bytes_eq]
  cases found : env.replacementOf indices d with
  | some entry =>
      rw [writeAll_unwritten]
      · obtain ⟨mem, same⟩ := (replacementOf_eq_some loaded.replaced).mp found
        have inside := (mem_replacementsOf loaded.replaced).mp mem
        obtain ⟨j, mod, owned⟩ := loaded.replaced.owner entry.1 inside.1
        have natives : env.nativeOf (entry.2.definition false) = some native := by
          rw [← named, ← same]
          rfl
        have write : (native, some (GenericFunction.code (s.handles.length + j)
            entry.2.funcIndex)) ∈ v.modWrites env indices := by
          unfold modWrites
          refine List.mem_flatMap.mpr ⟨entry.1, inside.1, List.mem_filterMap.mpr
            ⟨entry.2, inside.2, ?_⟩⟩
          rw [natives, Option.map_some, ModCode.functionHandle, owned]
          rfl
        rw [hookBody_replacement found] at at_
        obtain ⟨rfl, rfl⟩ : s.handles.length + j = handle ∧ entry.2.funcIndex = index := by
          cases at_ with
          | replacement _ mod' =>
              rw [index_unique loaded.replaced mem mod mod']
              exact ⟨rfl, rfl⟩
        refine writeAll_agree ⟨_, write, rfl⟩ ?_
        rintro ⟨native', prologue⟩ mem' rfl
        exact congrArg Prod.snd
          (List.inj_on_of_nodup_map loaded.replaced.once mem' write rfl)
      · rintro ⟨native', prologue⟩ mem rfl
        rw [(agree mem).1] at found
        cases found
  | none =>
      refine writeAll_agree ?_ ?_
      · unfold regenWrites
        rw [loaded.handles_length]
        cases patched : env.codeSource.patchOf d with
        | none =>
            rw [hookBody_vanilla found patched] at at_
            generalize vram : d.functionVram = functionVram at at_
            generalize rom : d.sectionRom = sectionRom at at_
            cases at_ with
            | vanilla there =>
                refine ⟨_, List.mem_append_left _
                  ((mem_listWrites loaded.vanilla.lists.funcPtrs).mpr
                    ⟨_, _, there, ?_, rfl⟩), rfl⟩
                rw [← named, LoadEnv.nativeOf_entry]
                have entry := entryOf_group loaded.vanilla there d.atReturn
                rw [← rom, ← vram] at entry
                exact (congrArg (fun e => e.bind FuncEntry.func) entry).symm
        | some patch =>
            obtain ⟨sectionRom, functionVram, body⟩ :
                ∃ sectionRom functionVram, env.hookBody indices d =
                  .patch sectionRom functionVram := ⟨_, _, hookBody_patch found patched⟩
            have lands := safe.lands d listed
            rw [body] at at_ lands
            cases at_ with
            | patch there =>
                refine ⟨_, List.mem_append_right _
                  ((mem_listWrites loaded.patched.lists.funcPtrs).mpr
                    ⟨_, _, there, ?_, rfl⟩), rfl⟩
                rw [← named, ← (lands : _ = env.nativeOf d), LoadEnv.patchNative, entryOf_group loaded.patched there]
                rfl
      · rintro ⟨native', prologue⟩ mem rfl
        exact (agree mem).2

theorem attached_of_safe
    (loaded : Loaded env indices s v t list patchList groups patchGroups patchHandle)
    (safe : HooksSafe env indices v.hookSlots)
    (regenerated : t.regeneratedCodeHandle = s.regeneratedCodeHandle ∨
      ∃ handle code, t.regeneratedCodeHandle = some handle ∧ s.handles.length ≤ handle ∧
        t.handles[handle]? = some code ∧ code.RegeneratedExactly env.code)
    (basePatched : t.basePatchedCodeHandle = s.basePatchedCodeHandle ∨
      ∃ handle code, t.basePatchedCodeHandle = some handle ∧ s.handles.length ≤ handle ∧
        t.handles[handle]? = some code ∧ code.RegeneratedExactly env.patches)
    (slots : t.hookSlots = v.hookSlots) : HooksAttached env s t := by
  refine ⟨fun slot d here => ?_, regenerated, basePatched⟩
  rw [slots] at here
  obtain ⟨handle, index, at_⟩ := loaded.bodyAt_exists here
  obtain ⟨other, attaches⟩ := loaded.bodyAt_attaches here at_
  have same : other = slot := by
    obtain ⟨e, there, kind, at'⟩ := loaded.attaches_bodyAt attaches
    have equal := safe.own d (List.mem_of_getElem? here) e (List.mem_of_getElem? there) kind.symm
      (loaded.body_unique at_ at')
    rw [← equal] at there
    exact Option.some.inj
      ((HookSlots.find_eq_some.mpr there).symm.trans (HookSlots.find_eq_some.mpr here))
  rw [same] at attaches
  refine ⟨handle, index, attaches, fun handle' index' attaches' => ?_, ?_⟩
  · obtain ⟨e, there, -, at'⟩ := loaded.attaches_bodyAt attaches'
    cases here.symm.trans there
    exact loaded.place_unique at' at_
  · obtain ⟨native, named⟩ := Option.isSome_iff_exists.mp
      (safe.named d (List.mem_of_getElem? here))
    exact ⟨native, named, loaded.bytes_bodyAt safe here named at_⟩

theorem safe_of_attached
    (loaded : Loaded env indices s v t list patchList groups patchGroups patchHandle)
    (made : s.Made) (slots : t.hookSlots = v.hookSlots) (attached : HooksAttached env s t) :
    HooksSafe env indices v.hookSlots := by
  -- the function that a native one jumps to is the body of every hook of it
  have jumps {slot : Nat} {d : HookDefinition} (here : v.hookSlots.definitions[slot]? = some d) :
      ∃ handle index native, Attaches s t slot d.atReturn handle index ∧
        env.nativeOf d = some native ∧ t.bytes native = some (.code handle index) ∧
        BodyAt indices groups patchGroups s.handles.length patchHandle (env.hookBody indices d)
          handle index := by
    rw [← slots] at here
    obtain ⟨handle, index, attaches, -, native, named, jump⟩ := attached.attached slot d here
    obtain ⟨e, there, -, at_⟩ := loaded.attaches_bodyAt attaches
    rw [slots] at here
    cases here.symm.trans there
    exact ⟨handle, index, native, attaches, named, jump, at_⟩
  refine ⟨fun d mem => ?_, fun d mem => ?_, fun d mem e mem' same => ?_, fun d mem e mem' kind same => ?_⟩
  · obtain ⟨slot, here⟩ := List.getElem?_of_mem mem
    obtain ⟨_, _, native, -, named, -⟩ := jumps here
    rw [named]
    rfl
  · obtain ⟨slot, here⟩ := List.getElem?_of_mem mem
    obtain ⟨handle, index, native, ⟨new, -⟩, named, jump, at_⟩ := jumps here
    cases body : env.hookBody indices d with
    | replacement modIndex funcIndex => trivial
    | vanilla sectionRom functionVram => trivial
    | patch sectionRom functionVram => ?_
    rw [body] at at_
    change env.patchNative sectionRom functionVram = env.nativeOf d
    rcases loaded.bytes_cases native with old | ⟨handle', index', jump', jumpAt⟩
    · rw [old] at jump
      exact absurd new (Nat.not_le.mpr (made.bytes native _ jump handle index rfl))
    · rw [jump] at jump'
      cases jump'
      have patchHandle_le : s.handles.length + indices.length ≤ patchHandle := by
        rw [← loaded.handles_length]
        exact loaded.placed.patchHandle_le
      generalize place : handle = patchPlace at at_
      cases at_ with
      | patch there =>
          cases jumpAt with
          | replacement replacement mod =>
              have below := (List.getElem?_eq_some_iff.mp mod).1
              omega
          | vanilla group =>
              have apart := loaded.placed.patchHandle_lt (loaded.functions_ne group)
              rw [loaded.handles_length] at apart
              omega
          | patch group found =>
              rw [Option.some.inj (group.symm.trans there)] at found
              rw [LoadEnv.patchNative, entryOf_group loaded.patched there, named]
              exact found
  · obtain ⟨slot, here⟩ := List.getElem?_of_mem mem
    obtain ⟨slot', here'⟩ := List.getElem?_of_mem mem'
    obtain ⟨handle, index, native, -, named, jump, at_⟩ := jumps here
    obtain ⟨handle', index', native', -, named', jump', at'⟩ := jumps here'
    cases named.symm.trans (same.trans named')
    cases jump.symm.trans jump'
    exact loaded.body_unique at_ at'
  · obtain ⟨slot, here⟩ := List.getElem?_of_mem mem
    obtain ⟨slot', here'⟩ := List.getElem?_of_mem mem'
    obtain ⟨handle, index, -, ⟨-, code, there, -, mapped⟩, -, -, at_⟩ := jumps here
    obtain ⟨handle', index', -, ⟨-, code', there', -, mapped'⟩, -, -, at'⟩ := jumps here'
    rw [← same] at at'
    obtain ⟨rfl, rfl⟩ := loaded.place_unique at_ at'
    cases there.symm.trans there'
    rw [← kind] at mapped'
    cases mapped.symm.trans mapped'
    exact Option.some.inj (here.symm.trans here')

end Loaded

/-! ## An accepted load -/

theorem applyRegenlist_hookSlots {env : LoadEnv} {s t : CodeMods} {list : RegeneratedList}
    {rom : List UInt8} (applied : s.applyRegenlist env list rom = some t) :
    t.hookSlots = s.hookSlots := by
  rw [applyRegenlist_eq applied]
  rfl

theorem regenerateVanilla_hookSlots (env : LoadEnv) (list : RegeneratedList) (s : CodeMods) :
    (s.regenerateVanilla env list).1.hookSlots = s.hookSlots := by
  unfold regenerateVanilla
  split
  · rfl
  · cases applied : s.applyRegenlist env list env.decompressedRom with
    | none => rfl
    | some installed =>
        have kept := applyRegenlist_hookSlots applied
        exact kept

theorem regeneratePatched_hookSlots (env : LoadEnv) (list : RegeneratedList) (s : CodeMods) :
    (s.regeneratePatched env list).1.hookSlots = s.hookSlots := by
  unfold regeneratePatched
  split
  · rfl
  · cases env.patchSource.buildRegenList (env.basePatchedHooks list) with
    | error error => rfl
    | ok patchList =>
        dsimp only
        cases applied : s.applyRegenlist env patchList env.patchBinary with
        | none => rfl
        | some installed =>
        have kept := applyRegenlist_hookSlots applied
        exact kept

theorem regenerateLeftovers_hookSlots (env : LoadEnv) (s : CodeMods) :
    (regenerateLeftovers env s).1.hookSlots = s.hookSlots := by
  unfold regenerateLeftovers
  split
  · rfl
  unfold regenerateWithHooks
  split
  · rfl
  rename_i list _
  refine untilError_related (R := fun s t => CodeMods.hookSlots t = s.hookSlots) (fun _ => rfl)
    (fun first second => second.trans first) (fun f mem s => ?_) s.setHookTypes
  rcases List.mem_pair.mp mem with rfl | rfl
  · exact regenerateVanilla_hookSlots env list s
  · exact regeneratePatched_hookSlots env list s

theorem RegeneratedAt.sameJumps {env : LoadEnv} {s t u : CodeMods}
    {list patchList : RegeneratedList} {patchHandle : Nat}
    (placed : RegeneratedAt env s t list patchList patchHandle) (same : SameJumps t u) :
    RegeneratedAt env s u list patchList patchHandle := by
  refine ⟨?_, placed.patchHandle_le, placed.patchHandle_lt, ?_, ?_, ?_, ?_⟩
  · rw [same.handles]
    exact placed.prefix_
  · rw [same.handles]
    exact placed.cases_
  · rw [same.handles]
    exact placed.vanilla
  · rw [same.handles]
    exact placed.patched
  · rw [same.bytes]
    exact placed.bytes

/-- After an accepted load every hook is attached, exactly when that is safe. -/
theorem hooks_attached_iff (env : LoadEnv) {modGameId : String} {loadAddress : UInt32} {game : Nat}
    {s : CodeMods} (reached : s.Reached) (unpatched : s.patchedFuncs = [])
    (known : s.context.modGameIds modGameId = some game)
    (codeSorted : env.code.RelocsSorted) (patchesSorted : env.patches.RelocsSorted)
    (accepted : (loadMods env modGameId loadAddress s).2 = []) :
    HooksAttached env s (loadMods env modGameId loadAddress s).1 ↔
      HooksSafe env (s.codeModIndices env game)
        (addHookSlots env (s.codeModIndices env game) s.hookSlots) := by
  obtain ⟨game', known', v, replaced, regenerated, same, slots⟩ := loadMods_accepted unpatched accepted
  cases known.symm.trans known'
  generalize (loadMods env modGameId loadAddress s).1 = t at same slots ⊢
  rw [← replaced.hookSlots]
  replace slots := slots.trans (regenerateLeftovers_hookSlots env v)
  have loads (named : ∀ d ∈ v.hookSlots.definitions, (env.nativeOf d).isSome) :
      ∃ list patchList groups patchGroups patchHandle,
        Loaded env (s.codeModIndices env game) s v t list patchList groups patchGroups
          patchHandle ∧
        Regenerates env v (regenerateLeftovers env v).1 list patchList groups patchGroups := by
    obtain ⟨list, patchList, groups, patchGroups, regenerates⟩ :=
      regenerateLeftovers_ok named codeSorted patchesSorted regenerated
    obtain ⟨patchHandle, placed⟩ := regenerates.placed
    exact ⟨list, patchList, groups, patchGroups, patchHandle,
      ⟨replaced, named, regenerates.vanilla, regenerates.patched, placed.sameJumps same⟩,
      regenerates⟩
  constructor
  · intro attached
    have named : ∀ d ∈ v.hookSlots.definitions, (env.nativeOf d).isSome := by
      intro d mem
      obtain ⟨slot, here⟩ := List.getElem?_of_mem mem
      rw [← slots] at here
      obtain ⟨_, _, -, -, native, found, -⟩ := attached.attached slot d here
      rw [found]
      rfl
    obtain ⟨_, _, _, _, _, loaded, -⟩ := loads named
    exact loaded.safe_of_attached reached.made slots attached
  · intro safe
    obtain ⟨_, _, _, _, _, loaded, regenerates⟩ := loads safe.named
    have older : s.handles.length ≤ v.handles.length := by
      rw [loaded.handles_length]
      exact Nat.le_add_right _ _
    refine loaded.attached_of_safe safe ?_ ?_ slots
    · rw [same.regenerated, same.handles, ← replaced.regenerated]
      refine regenerates.regenerated.imp_right ?_
      rintro ⟨handle, code, here, le, made, exact_⟩
      exact ⟨handle, code, here, Nat.le_trans older le, made, exact_⟩
    · rw [same.basePatched, same.handles, ← replaced.basePatched]
      refine regenerates.basePatched.imp_right ?_
      rintro ⟨handle, code, here, le, made, exact_⟩
      exact ⟨handle, code, here, Nat.le_trans older le, made, exact_⟩

/-- Three functions of the game, the second of which the base recomp patches; the
first loads an address of the third, and the third calls the first. -/
def gameTable : CodeTable where
  sections := [⟨⟨0, 0x80100000, 0x30,
    [⟨some 10, 0, 0x10⟩, ⟨some 11, 0x10, 0x10⟩, ⟨some 12, 0x20, 0x10⟩], 0, 0, 0⟩,
    [⟨0x0, 0x20, 0, .hi16⟩, ⟨0x4, 0x20, 0, .lo16⟩, ⟨0x24, 0, 0, .mips26⟩]⟩]
  count_le := by decide
  no_wrap := by decide
  aligned := by decide

def patchTable : CodeTable where
  sections := [⟨⟨0, 0x80200000, 0x20, [⟨some 11, 0, 0x20⟩], 0, 0, 0⟩,
    [⟨0x8, 0x10, 0, .hi16⟩, ⟨0xC, 0x10, 0, .lo16⟩]⟩]
  count_le := by decide
  no_wrap := by decide
  aligned := by decide

def hookingEnv : LoadEnv :=
  { libraryEnv [] with
    code := gameTable
    patches := patchTable
    patchBinary := List.replicate 0x20 0
    decompressedRom := List.replicate 0x30 0
    absolute_reserved := by decide
    parseModSymbols := fun _ _ => ({ RecompilerContext.ofCode
      [⟨0, 0x80000000, 16, 0, [], false, true⟩]
      [⟨0x80000000, 0, [], "mod_main", 0⟩, ⟨0x80000008, 8, [], "mod_hook", 0⟩] with
      hooks := [⟨1, 0, 0x80100000, false⟩, ⟨1, 0, 0x80100000, true⟩,
        ⟨1, 0, 0x80100010, false⟩, ⟨1, 0, 0x80100020, true⟩]
      hook_lt := by decide
      replacements := [⟨0, 0, 0x80100000, false⟩]
      replacement_lt := by decide }, true) }

theorem hooks_attached_once :
    HooksAttached hookingEnv { nothingLoaded with context := oneCodeMod ⟨1, 0, 0⟩ }
      (loadMods hookingEnv "game" 0x81000000
        { nothingLoaded with context := oneCodeMod ⟨1, 0, 0⟩ }).1 := by
  refine (hooks_attached_iff hookingEnv (.start (nothingLoaded_started _)) rfl rfl ?_ ?_ ?_).mpr ?_
  · intro s mem
    cases List.mem_singleton.mp mem
    decide
  · intro s mem
    cases List.mem_singleton.mp mem
    decide
  · decide +kernel
  · decide +kernel

/-- The mod replaces the last function too, with what replaces the first. -/
def sharingEnv : LoadEnv :=
  { hookingEnv with
    parseModSymbols := fun _ _ => ({ (hookingEnv.parseModSymbols [] []).1 with
      replacements := [⟨0, 0, 0x80100000, false⟩, ⟨0, 0, 0x80100020, false⟩]
      replacement_lt := by decide
      hook_lt := by decide }, true) }

example : ¬ HooksSafe sharingEnv [0] (addHookSlots sharingEnv [0] .empty) := by decide +kernel

end CodeMods

end N64ModernRuntime.Librecomp
