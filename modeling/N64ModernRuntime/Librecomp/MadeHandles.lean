import N64ModernRuntime.Librecomp.LoadCode

/-!
# mods.cpp: the code handles that jumps lead into

Jumps lead into code from the starts of native functions, from `func_map`, from
listeners and hooks, and from imports.  Over whole loads each of them leads into
a code handle that has been made before.
-/

set_option autoImplicit false

namespace N64ModernRuntime.Librecomp

open FailingSteps

namespace CodeMods

/-- What the jumps of the process lead to: from the starts of native functions, from
`func_map`, from listeners and hooks, and from the imports of the code that they lead into. -/
inductive JumpTarget (s : CodeMods) : GenericFunction → Prop
  | prologue (native : RecompFunc) {func : GenericFunction} (here : s.bytes native = some func) :
      JumpTarget s func
  | lookup (address : UInt32) {func : GenericFunction} (here : s.funcMap address = some func) :
      JumpTarget s func
  | listener {listeners : List EventListener} (event : listeners ∈ s.gEventListeners)
      {l : EventListener} (here : l ∈ listeners) : JumpTarget s l.func
  | hook {slot : HookSlot} (registered : slot ∈ s.gHookSlots) {h : RegisteredHook}
      (here : h ∈ slot.hooks) : JumpTarget s h.func
  | imported {handle index : Nat} {h : CodeHandle} (code : JumpTarget s (.code handle index))
      (made : s.handles[handle]? = some h) (symbol : Nat) {func : GenericFunction}
      (here : h.importedFuncs symbol = some func) : JumpTarget s func
theorem JumpTarget.transfer {s t : CodeMods} (bytes : t.bytes = s.bytes)
    (funcMap : t.funcMap = s.funcMap) (listeners : t.gEventListeners = s.gEventListeners)
    (hooks : t.gHookSlots = s.gHookSlots)
    (handles : ∀ handle index, s.JumpTarget (.code handle index) →
      t.JumpTarget (.code handle index) → t.handles[handle]? = s.handles[handle]?)
    {func : GenericFunction} (target : s.JumpTarget func) : t.JumpTarget func := by
  induction target with
  | prologue native here =>
      rw [← bytes] at here
      exact .prologue native here
  | lookup address here =>
      rw [← funcMap] at here
      exact .lookup address here
  | listener event here =>
      rw [← listeners] at event
      exact .listener event here
  | hook registered here =>
      rw [← hooks] at registered
      exact .hook registered here
  | imported code made symbol here after =>
      rw [← handles _ _ code after] at made
      exact .imported after made symbol here

def HandlesMade (s : CodeMods) : Prop :=
  ∀ handle index, s.JumpTarget (.code handle index) → handle < s.handles.length

end CodeMods

def GenericFunction.Below (bound : Nat) (func : GenericFunction) : Prop :=
  ∀ handle index, func = .code handle index → handle < bound

theorem GenericFunction.Below.mono {bound more : Nat} {func : GenericFunction}
    (below : func.Below bound) (le : bound ≤ more) : func.Below more :=
  fun handle index same => Nat.lt_of_lt_of_le (below handle index same) le

theorem GenericFunction.below_code {bound handle : Nat} (index : Nat) (lt : handle < bound) :
    (GenericFunction.code handle index).Below bound := by
  rintro _ _ ⟨⟩
  exact lt

namespace CodeMods

/-- Every function of a code handle is one of the first `bound` handles. -/
structure MadeBelow (bound : Nat) (s : CodeMods) : Prop where
  bytes : ∀ native, ∀ func ∈ s.bytes native, func.Below bound
  replacedBytes : ∀ patch ∈ s.patchedFuncs, ∀ func ∈ patch.2.replacedBytes, func.Below bound
  funcMap : ∀ address, ∀ func ∈ s.funcMap address, func.Below bound
  listeners : ∀ listeners ∈ s.gEventListeners, ∀ l ∈ listeners, l.func.Below bound
  hooks : ∀ slot ∈ s.gHookSlots, ∀ hook ∈ slot.hooks, hook.func.Below bound
  imports : ∀ handle ∈ s.handles, ∀ symbol, ∀ func ∈ handle.importedFuncs symbol, func.Below bound
  nativeExports : ∀ index name, ∀ func ∈ (s.mods index).nativeLibraryExports name,
    func.Below bound
  owners : ∀ index, ∀ handle ∈ (s.mods index).codeHandle, handle < bound

def Made (s : CodeMods) : Prop := s.MadeBelow s.handles.length

def KeepsMade (s t : CodeMods) : Prop := s.Made → t.Made

theorem KeepsMade.refl (s : CodeMods) : KeepsMade s s := fun made => made

theorem KeepsMade.trans {s t u : CodeMods} (first : KeepsMade s t) (second : KeepsMade t u) :
    KeepsMade s u := fun made => second (first made)

theorem MadeBelow.mono {bound more : Nat} {s : CodeMods} (made : s.MadeBelow bound)
    (le : bound ≤ more) : s.MadeBelow more where
  bytes native func mem := (made.bytes native func mem).mono le
  replacedBytes patch mem func here := (made.replacedBytes patch mem func here).mono le
  funcMap address func mem := (made.funcMap address func mem).mono le
  listeners listeners mem l here := (made.listeners listeners mem l here).mono le
  hooks slot mem hook here := (made.hooks slot mem hook here).mono le
  imports handle mem symbol func here := (made.imports handle mem symbol func here).mono le
  nativeExports index name func mem := (made.nativeExports index name func mem).mono le
  owners index handle mem := Nat.lt_of_lt_of_le (made.owners index handle mem) le

theorem Made.handlesMade {s : CodeMods} (made : s.Made) : s.HandlesMade := by
  have every {func : GenericFunction} (target : s.JumpTarget func) :
      func.Below s.handles.length := by
    cases target with
    | prologue native here => exact made.bytes native func here
    | lookup address here => exact made.funcMap address func here
    | listener event here => exact made.listeners _ event _ here
    | hook registered here => exact made.hooks _ registered _ here
    | imported code handle symbol here =>
        exact made.imports _ (List.mem_of_getElem? handle) symbol func here
  exact fun handle index target => every target handle index rfl

section MadeSteps
variable {env : LoadEnv} {bound index : Nat} {s : CodeMods}

theorem MadeBelow.setMod (made : s.MadeBelow bound) {f : ModCode → ModCode}
    (owner : ∀ handle ∈ (f (s.mods index)).codeHandle, handle < bound)
    (native : ∀ name, ∀ func ∈ (f (s.mods index)).nativeLibraryExports name, func.Below bound) :
    (s.setMod index f).MadeBelow bound := by
  refine { made with nativeExports := ?_, owners := ?_ }
  · intro other name func mem
    by_cases here : other = index
    · subst here
      rw [setMod_self] at mem
      exact native name func mem
    · rw [setMod_other index s here] at mem
      exact made.nativeExports other name func mem
  · intro other handle mem
    by_cases here : other = index
    · subst here
      rw [setMod_self] at mem
      exact owner handle mem
    · rw [setMod_other index s here] at mem
      exact made.owners other handle mem

theorem Made.setMod (made : s.Made) {f : ModCode → ModCode}
    (same : ∀ m : ModCode, (f m).codeHandle = m.codeHandle ∧
      (f m).nativeLibraryExports = m.nativeLibraryExports) : (s.setMod index f).Made := by
  refine MadeBelow.setMod made ?_ ?_
  · rw [(same _).1]
    exact made.owners index
  · rw [(same _).2]
    exact made.nativeExports index

theorem loadActiveMod_made (made : s.Made) : (loadActiveMod env index s).1.Made := by
  unfold loadActiveMod
  split
  · exact made
  · have emptied : (s.setMod index fun m => { m with sectionLoadAddresses := [] }).Made :=
      made.setMod fun _ => ⟨rfl, rfl⟩
    exact { emptied with }

theorem checkActiveMod_made (made : s.Made) : (checkActiveMod index s).1.Made := by
  unfold checkActiveMod
  split
  · exact made
  · exact { made with }

theorem layOut_made (context : RecompilerContext) (made : s.Made) :
    (layOut context index s).1.Made := by
  have placed : (s.setMod index fun m => { m with
      sectionLoadAddresses := (layoutSections s.loadAddress context.sections).1 }).Made :=
    made.setMod fun _ => ⟨rfl, rfl⟩
  unfold layOut
  dsimp only
  split
  · exact placed
  · exact { placed with }

theorem initModCode_made (made : s.Made) : (initModCode env index s).1.Made := by
  have context : (s.setMod index fun m => { m with
      recompilerContext := env.modContext index m.recompilerContext }).Made :=
    made.setMod fun _ => ⟨rfl, rfl⟩
  cases taken : env.symbolsTaken index with
  | none =>
      rw [(initModCode_untaken taken).2]
      exact context
  | some symbols =>
      have names : (s.takeSymbols env index).Made := by
        refine Made.setMod context fun m => ?_
        rw [ModCode.populateEvents_eq, ModCode.populateExports_eq]
        exact ⟨rfl, rfl⟩
      rw [initModCode_taken taken]
      rcases checkLayOut env symbols index (s.takeSymbols env index) with same | laid
      · rw [same]
        exact names
      · rw [laid]
        exact layOut_made symbols names

theorem mem_resize {α : Type} {xs : List α} {size : Nat} {fill x : α}
    (mem : x ∈ resize xs size fill) : x ∈ xs ∨ x = fill := by
  rcases List.mem_append.mp mem with kept | filled
  · exact Or.inl (List.mem_of_mem_take kept)
  · exact Or.inr (List.eq_of_mem_replicate filled)

theorem setUp_made (made : s.Made) : (setUp s).1.Made := by
  refine { made with listeners := ?_, hooks := ?_ }
  · intro listeners mem l here
    rcases mem_resize mem with old | new
    · exact made.listeners listeners old l here
    · rw [new] at here
      cases here
  · intro slot mem hook here
    rcases mem_resize mem with old | new
    · exact made.hooks slot old hook here
    · rw [new] at here
      cases here

/-! ### The second pass -/

theorem newHandle_made (made : s.Made) {handle : CodeHandle}
    (unbound : handle.importedFuncs = fun _ => none) : (s.newHandle index handle).Made := by
  have more := made.mono (Nat.le_succ s.handles.length)
  have set : (s.setMod index fun m => { m with
      codeHandle := some s.handles.length }).MadeBelow (s.handles.length + 1) := by
    refine more.setMod ?_ (more.nativeExports index)
    rintro _ ⟨⟩
    exact Nat.lt_succ_self _
  have length : (s.newHandle index handle).handles.length = s.handles.length + 1 :=
    List.length_append
  unfold Made
  rw [length]
  refine { set with imports := ?_ }
  intro other mem symbol func here
  rcases List.mem_append.mp mem with old | new
  · exact more.imports other old symbol func here
  · rw [List.mem_singleton.mp new, unbound] at here
    cases here

theorem dropHandle_made (made : s.Made) : (s.dropHandle index).Made := by
  refine MadeBelow.setMod made ?_ (made.nativeExports index)
  rintro _ ⟨⟩

theorem makeCodeHandle_made (env : LoadEnv) (index : Nat) (made : s.Made) :
    (makeCodeHandle env index s).1.Made := by
  rw [makeCodeHandle]
  have processed (slots : List Bool) : ({ s with processedHookSlots := slots } : CodeMods).Made :=
    { made with }
  split
  · unfold makeOffline
    dsimp only
    split
    · exact processed _
    · split
      · exact dropHandle_made (processed _)
      · split
        · exact newHandle_made (processed _) rfl
        · exact dropHandle_made (processed _)
  · unfold makeLive
    dsimp only
    split
    · exact newHandle_made (processed _) rfl
    · exact dropHandle_made (processed _)

theorem addNativeExport_made (library : DynamicLibrary) (manifest : NativeLibraryManifest)
    (filename name : String) (made : s.Made) :
    (addNativeExport library manifest filename index name s).1.Made := by
  unfold addNativeExport
  split
  · exact made
  · split
    · refine MadeBelow.setMod (f := fun m => { m with
        nativeLibraryExports := emplace m.nativeLibraryExports name (.symbol filename name) })
        made (made.owners index) ?_
      intro other func mem
      have mem : emplace (s.mods index).nativeLibraryExports name (.symbol filename name) other =
        some func := mem
      rw [emplace] at mem
      rcases Option.or_eq_some_iff.mp mem with old | ⟨-, new⟩
      · exact made.nativeExports index other func old
      · split at new
        · cases new
          rintro _ _ ⟨⟩
        · cases new
    · exact made

theorem loadNativeLibrary_made (manifest : NativeLibraryManifest) (made : s.Made) :
    (loadNativeLibrary env index manifest s).1.Made := by
  have added : (s.setMod index fun m => { m with
      nativeLibraries := m.nativeLibraries ++ [env.libraryFilename manifest] }).Made :=
    made.setMod fun _ => ⟨rfl, rfl⟩
  rw [loadNativeLibrary]
  split
  · exact added
  · rename_i library found
    split
    · exact added
    · refine untilError_related KeepsMade.refl KeepsMade.trans (fun f mem t made => ?_) _ ?_
      · obtain ⟨name, -, rfl⟩ := List.mem_map.mp mem
        exact addNativeExport_made library manifest _ name made
      · refine MadeBelow.setMod (f := fun m => { m with
          nativeLibraryExports := fun _ => none }) added (added.owners index) ?_
        rintro _ _ ⟨⟩

theorem publishFunctions_made {handle : Nat} (made : s.Made)
    (owned : (s.mods index).codeHandle = some handle) : (publishFunctions index s).1.Made := by
  obtain ⟨after, run, publishes⟩ := publishAll_publishes
    (s.mods index).recompilerContext.functions.zipIdx owned
  have run : (publishFunctions index s).1 = { s with funcMap := after } := run
  rw [run]
  refine { made with funcMap := ?_ }
  intro address func mem
  rcases publishes address with same | ⟨i, new⟩
  · exact made.funcMap address func (same.symm.trans mem)
  · cases new.symm.trans mem
    exact GenericFunction.below_code i (made.owners index handle owned)

theorem loadModCode_made (env : LoadEnv) (index : Nat) (made : s.Made) :
    (loadModCode env index s).1.Made ∧
    s.handles.length ≤ (loadModCode env index s).1.handles.length ∧
    ((loadModCode env index s).2 = [] → 0 < (loadModCode env index s).1.handles.length) := by
  have handles := makeCodeHandle_made env index made
  have grown := (makeCodeHandle_keeps env index (Nat.le_refl s.handles.length)).1.grown
  by_cases ok : (makeCodeHandle env index s).2 = []
  · have owned := makeCodeHandle_ok ok
    rw [loadModCode_ok ok]
    generalize (makeCodeHandle env index s).1 = t at handles owned grown
    have libraries := loadNativeLibraries_adds env index t (env.files index).nativeLibraries
    have made' : (untilError ((env.files index).nativeLibraries.map
        (loadNativeLibrary env index)) t).1.Made := by
      refine untilError_related KeepsMade.refl KeepsMade.trans (fun f mem u made => ?_) t handles
      obtain ⟨manifest, -, rfl⟩ := List.mem_map.mp mem
      exact loadNativeLibrary_made manifest made
    have some_handle := Nat.lt_of_le_of_lt (Nat.zero_le _) (handles.owners index _ owned)
    have length := congrArg List.length libraries.handles
    by_cases good : (untilError
        ((env.files index).nativeLibraries.map (loadNativeLibrary env index)) t).2 = []
    · rw [untilError_append_ok _ good, untilError_singleton]
      rw [← libraries.codeHandle] at owned
      obtain ⟨after, run, -⟩ := publishAll_publishes _ owned
      have run : (publishFunctions index (untilError ((env.files index).nativeLibraries.map
          (loadNativeLibrary env index)) t).1).1 = _ := run
      refine ⟨publishFunctions_made made' owned, ?_, fun _ => ?_⟩
      · rw [run]
        exact Nat.le_trans grown (Nat.le_of_eq length.symm)
      · rw [run]
        exact Nat.lt_of_lt_of_eq some_handle length.symm
    · rw [untilError_append_failed _ good]
      exact ⟨made', Nat.le_trans grown (Nat.le_of_eq length.symm), fun bad => absurd bad good⟩
  · rw [loadModCode_failed ok]
    exact ⟨handles, grown, fun bad => absurd bad ok⟩

theorem codePass_made (env : LoadEnv) (indices : List Nat) (made : s.Made) :
    (codePass env indices s).1.Made ∧
    s.handles.length ≤ (codePass env indices s).1.handles.length ∧
    ((codePass env indices s).2 = [] → indices ≠ [] →
      0 < (codePass env indices s).1.handles.length) := by
  induction indices generalizing s with
  | nil => exact ⟨made, Nat.le_refl _, fun _ some => absurd rfl some⟩
  | cons index rest ih =>
      obtain ⟨first, grown, some_handle⟩ := loadModCode_made env index made
      obtain ⟨later, grown', -⟩ := ih first
      rw [codePass_errors]
      rw [codePass_cons]
      exact ⟨later, Nat.le_trans grown grown', fun ok _ =>
        Nat.lt_of_lt_of_le (some_handle ok.1) grown'⟩

/-! ### The third pass -/

def KeepsLinked (s t : CodeMods) : Prop :=
  s.Made ∧ 0 < s.handles.length → t.Made ∧ 0 < t.handles.length

theorem KeepsLinked.refl (s : CodeMods) : KeepsLinked s s := fun both => both

theorem KeepsLinked.trans {s t u : CodeMods} (first : KeepsLinked s t)
    (second : KeepsLinked t u) : KeepsLinked s u := fun both => second (first both)

theorem mem_modify {α : Type} {xs : List α} {i : Nat} {f : α → α} {x : α}
    (mem : x ∈ xs.modify i f) : x ∈ xs ∨ ∃ y ∈ xs, x = f y := by
  obtain ⟨n, here⟩ := List.mem_iff_getElem?.mp mem
  rw [List.getElem?_modify] at here
  obtain ⟨y, found, same⟩ := Option.map_eq_some_iff.mp here
  have old := List.mem_of_getElem? found
  split at same
  · exact Or.inr ⟨y, old, same.symm⟩
  · exact Or.inl (same ▸ old)

theorem updateHandle_made (index : Nat) {f : CodeHandle → CodeHandle} (made : s.Made)
    (imports : ∀ handle ∈ s.handles, ∀ symbol, ∀ func ∈ (f handle).importedFuncs symbol,
      func.Below s.handles.length) :
    (s.updateHandle index f).Made ∧
      (s.updateHandle index f).handles.length = s.handles.length := by
  unfold updateHandle
  split
  · exact ⟨made, rfl⟩
  · rename_i own here
    have length : (s.handles.modify own f).length = s.handles.length := List.length_modify ..
    refine ⟨?_, length⟩
    unfold Made
    dsimp only
    rw [length]
    refine { made with imports := ?_ }
    intro handle mem symbol func bound
    rcases mem_modify mem with old | ⟨other, old, rfl⟩
    · exact made.imports handle old symbol func bound
    · exact imports other old symbol func bound

theorem functionHandle_below (made : s.Made) (some_handle : 0 < s.handles.length)
    (funcIndex : Nat) :
    ((s.mods index).functionHandle funcIndex).Below s.handles.length := by
  refine GenericFunction.below_code funcIndex ?_
  cases owned : (s.mods index).codeHandle with
  | none => exact some_handle
  | some handle => exact made.owners index handle owned

theorem getExportFunction_below (made : s.Made) (some_handle : 0 < s.handles.length)
    {name : String} {func : GenericFunction}
    (found : (s.mods index).getExportFunction name = some func) : func.Below s.handles.length := by
  unfold ModCode.getExportFunction at found
  split at found
  · cases found
    exact functionHandle_below made some_handle _
  · exact made.nativeExports index name func found

theorem lookupImport_made (made : s.Made) (some_handle : 0 < s.handles.length)
    {importIndex : Nat} {id name : String} {t : CodeMods} {func : Option GenericFunction}
    (found : lookupImport env index importIndex id name s = .ok (t, func)) :
    t.Made ∧ t.handles.length = s.handles.length ∧
      ∀ f ∈ func, f.Below s.handles.length := by
  have shim (f : ShimFunction) : (s.newShim f).1.Made ∧
      (s.newShim f).1.handles.length = s.handles.length ∧
        ∀ func ∈ (s.newShim f).2, func.Below s.handles.length := by
    refine ⟨{ made with }, rfl, ?_⟩
    rintro _ ⟨⟩ _ _ ⟨⟩
  unfold lookupImport at found
  split at found
  · split at found
    · cases found
      refine ⟨made, rfl, ?_⟩
      rintro _ ⟨⟩ _ _ ⟨⟩
    · split at found
      · cases found
        exact shim _
      · cases found
        refine ⟨made, rfl, ?_⟩
        rintro _ ⟨⟩
  · split at found
    · cases found
      exact ⟨made, rfl, fun f here => getExportFunction_below made some_handle here⟩
    · split at found
      · cases found
        exact ⟨made, rfl, fun f here => getExportFunction_below made some_handle here⟩
      · split at found
        · cases found
          exact shim _
        · cases found

theorem bindImport_made (symbol : ImportSymbol × Nat) :
    KeepsLinked s (bindImport env index symbol s).1 := by
  rintro ⟨made, some_handle⟩
  unfold bindImport
  dsimp only
  split
  · exact ⟨made, some_handle⟩
  · rename_i found
    obtain ⟨made', length, -⟩ := lookupImport_made made some_handle found
    exact ⟨made', Nat.lt_of_lt_of_eq some_handle length.symm⟩
  · rename_i t func found
    obtain ⟨made', length, below⟩ := lookupImport_made made some_handle found
    obtain ⟨made'', length'⟩ := updateHandle_made index
      (f := fun h => { h with
        importedFuncs := Function.update h.importedFuncs symbol.2 (some func) }) made' (by
      intro handle mem other f here
      have here : Function.update handle.importedFuncs symbol.2 (some func) other = some f := here
      rw [Function.update_apply] at here
      split at here
      · cases here
        rw [length]
        exact below _ rfl
      · exact made'.imports handle mem other f here)
    exact ⟨made'', by
      rw [length', length]
      exact some_handle⟩

theorem registerCallback_made (callback : Callback) :
    KeepsLinked s (registerCallback env index callback s).1 := by
  rintro ⟨made, some_handle⟩
  unfold registerCallback
  dsimp only
  split
  · exact ⟨made, some_handle⟩
  · split
    · exact ⟨made, some_handle⟩
    · exact ⟨made, some_handle⟩
    · refine ⟨{ made with listeners := ?_ }, some_handle⟩
      intro listeners mem l here
      rcases mem_modify mem with old | ⟨other, old, rfl⟩
      · exact made.listeners listeners old l here
      · rcases List.mem_append.mp here with here | new
        · exact made.listeners other old l here
        · rw [List.mem_singleton.mp new]
          exact functionHandle_below made some_handle _

theorem registerHook_made (hook : FunctionHook) :
    KeepsLinked s (registerHook index hook s).1 := by
  rintro ⟨made, some_handle⟩
  unfold registerHook
  split
  · exact ⟨made, some_handle⟩
  · refine ⟨{ made with hooks := ?_ }, some_handle⟩
    intro slot mem registered here
    rcases mem_modify mem with old | ⟨other, old, rfl⟩
    · exact made.hooks slot old registered here
    · rcases List.mem_append.mp here with here | new
      · exact made.hooks other old registered here
      · rw [List.mem_singleton.mp new]
        exact functionHandle_below made some_handle _

theorem patchFunc_below {bound : Nat} {bytes : RecompFunc → Prologue} {target : Option RecompFunc}
    {replacement : GenericFunction} (below : ∀ native, ∀ func ∈ bytes native, func.Below bound)
    (new : replacement.Below bound) :
    ∀ native, ∀ func ∈ patchFunc bytes target replacement native, func.Below bound := by
  intro native func mem
  cases target with
  | none => exact below native func mem
  | some place =>
      have mem : Function.update bytes place (some replacement) native = some func := mem
      rw [Function.update_apply] at mem
      split at mem
      · cases mem
        exact new
      · exact below native func mem

theorem installReplacement_made (replacement : FunctionReplacement) :
    KeepsLinked s (installReplacement env index replacement s).1 := by
  rintro ⟨made, some_handle⟩
  unfold installReplacement
  split
  · exact ⟨made, some_handle⟩
  · rename_i toReplace found
    split
    · exact ⟨made, some_handle⟩
    · split
      · exact ⟨made, some_handle⟩
      · refine ⟨{ made with bytes := ?_, replacedBytes := ?_ }, some_handle⟩
        · change ∀ native, ∀ func ∈ patchFunc s.bytes (some toReplace)
            ((s.mods index).functionHandle replacement.funcIndex) native,
              func.Below s.handles.length
          exact patchFunc_below made.bytes (functionHandle_below made some_handle _)
        · intro patch mem func here
          rcases List.mem_append.mp mem with old | new
          · exact made.replacedBytes patch old func here
          · rw [List.mem_singleton.mp new] at here
            exact made.bytes toReplace func here

theorem resolveCodeDependencies_made (env : LoadEnv) (index : Nat) (s : CodeMods) :
    KeepsLinked s (resolveCodeDependencies env index s).1 := by
  have addresses {s : CodeMods} {f : CodeHandle → CodeHandle}
      (same : ∀ h, (f h).importedFuncs = h.importedFuncs) :
      KeepsLinked s (s.updateHandle index f) := by
    rintro ⟨made, some_handle⟩
    obtain ⟨made', length⟩ := updateHandle_made index (f := f) made (by
      intro handle mem symbol func here
      rw [same] at here
      exact made.imports handle mem symbol func here)
    exact ⟨made', Nat.lt_of_lt_of_eq some_handle length.symm⟩
  refine untilError_related KeepsLinked.refl KeepsLinked.trans (fun f mem t => ?_) s
  simp only [List.mem_cons, List.not_mem_nil, or_false] at mem
  rcases mem with rfl | rfl | rfl | rfl | rfl | rfl
  · unfold populateReferenceSymbols
    dsimp only
    split
    · exact .refl t
    · exact addresses fun _ => rfl
  · refine untilError_related KeepsLinked.refl KeepsLinked.trans (fun f mem u => ?_) t
    obtain ⟨symbol, -, rfl⟩ := List.mem_map.mp mem
    exact bindImport_made symbol
  · refine untilError_related KeepsLinked.refl KeepsLinked.trans (fun f mem u => ?_) t
    obtain ⟨callback, -, rfl⟩ := List.mem_map.mp mem
    exact registerCallback_made callback
  · refine untilError_related KeepsLinked.refl KeepsLinked.trans (fun f mem u => ?_) t
    obtain ⟨hook, -, rfl⟩ := List.mem_map.mp mem
    exact registerHook_made hook
  · exact addresses fun _ => rfl
  · refine untilError_related KeepsLinked.refl KeepsLinked.trans (fun f mem u => ?_) t
    obtain ⟨replacement, -, rfl⟩ := List.mem_map.mp mem
    exact installReplacement_made replacement

theorem resolvePass_made (env : LoadEnv) {indices : List Nat} (s : CodeMods) (made : s.Made)
    (some_handle : indices ≠ [] → 0 < s.handles.length) : (resolvePass env indices s).1.Made := by
  cases indices with
  | nil => exact made
  | cons index rest =>
      refine (collect_related KeepsLinked.refl KeepsLinked.trans (fun f mem t => ?_) s
        ⟨made, some_handle (List.cons_ne_nil _ _)⟩).1
      obtain ⟨other, -, rfl⟩ := List.mem_map.mp mem
      exact resolveCodeDependencies_made env other t

/-! ### Regenerated functions, and the end of a load -/

theorem patchAll_below {bound handle : Nat} (lt : handle < bound)
    (targets : List (Option RecompFunc)) :
    ∀ (first : Nat) (bytes : RecompFunc → Prologue),
      (∀ native, ∀ func ∈ bytes native, func.Below bound) →
        ∀ native, ∀ func ∈ patchAll handle first targets bytes native, func.Below bound := by
  induction targets with
  | nil => exact fun first bytes below => below
  | cons target rest ih =>
      intro first bytes below
      exact ih _ _ (patchFunc_below below (GenericFunction.below_code first lt))

theorem applyRegenlist_made {list : RegeneratedList} {rom : List UInt8} {t : CodeMods}
    (made : s.Made) (applied : s.applyRegenlist env list rom = some t) : t.Made := by
  unfold applyRegenlist at applied
  split at applied
  · cases applied
    have length : (s.install env list rom).handles.length = s.handles.length + 1 :=
      List.length_append
    have more := made.mono (Nat.le_succ s.handles.length)
    unfold Made
    rw [length]
    refine { more with bytes := ?_, imports := ?_ }
    · exact patchAll_below (Nat.lt_succ_self _) _ 0 _ more.bytes
    · intro handle mem symbol func here
      rcases List.mem_append.mp mem with old | new
      · exact more.imports handle old symbol func here
      · rw [List.mem_singleton.mp new] at here
        cases here
  · cases applied

theorem regenerateVanilla_made (list : RegeneratedList) (made : s.Made) :
    (s.regenerateVanilla env list).1.Made := by
  unfold regenerateVanilla
  split
  · exact made
  · split
    · exact { made with }
    · rename_i installed applied
      have made' := applyRegenlist_made made applied
      exact { made' with }

theorem regeneratePatched_made (list : RegeneratedList) (made : s.Made) :
    (s.regeneratePatched env list).1.Made := by
  unfold regeneratePatched
  split
  · exact made
  · split
    · exact made
    · split
      · exact { made with }
      · rename_i installed applied
        have made' := applyRegenlist_made made applied
        exact { made' with }

theorem setHookTypes_made (made : s.Made) : s.setHookTypes.Made := by
  refine { made with hooks := ?_ }
  intro slot mem hook here
  obtain ⟨⟨old, i⟩, mem', rfl⟩ := List.mem_map.mp mem
  refine made.hooks old (List.fst_mem_of_mem_zipIdx mem') hook ?_
  dsimp only at here
  split at here
  · exact here
  · exact here

theorem regenerateLeftovers_made (env : LoadEnv) (made : s.Made) :
    (regenerateLeftovers env s).1.Made := by
  unfold regenerateLeftovers
  split
  · exact setHookTypes_made made
  · unfold regenerateWithHooks
    split
    · exact setHookTypes_made made
    · rename_i list built
      refine untilError_related KeepsMade.refl KeepsMade.trans (fun f mem t made => ?_) _
        (setHookTypes_made made)
      simp only [List.mem_cons, List.not_mem_nil, or_false] at mem
      rcases mem with rfl | rfl
      · exact regenerateVanilla_made list made
      · exact regeneratePatched_made list made

theorem finishSetup_made (made : s.Made) : (finishSetup env s).1.Made := by
  refine { made with listeners := ?_, hooks := ?_ }
  · intro listeners mem l here
    obtain ⟨old, mem', rfl⟩ := List.mem_map.mp mem
    exact made.listeners old mem' l ((env.sortRegistered.perm _ old).mem_iff.mp here)
  · intro slot mem hook here
    obtain ⟨old, mem', rfl⟩ := List.mem_map.mp mem
    exact made.hooks old mem' hook ((env.sortRegistered.perm _ old.hooks).mem_iff.mp here)

theorem unloadMods_made (made : s.Made) : (s.unloadMods env).Made := by
  refine { made with bytes := ?_, replacedBytes := ?_, listeners := ?_, hooks := ?_ }
  · intro native func mem
    have mem : s.unpatch native = some func := mem
    unfold unpatch at mem
    split at mem
    · rename_i patch here
      obtain ⟨front, back, split, -⟩ := List.lookup_eq_some_iff.mp here
      refine made.replacedBytes (native, patch) ?_ func mem
      rw [split]
      exact List.mem_append_right front List.mem_cons_self
    · exact made.bytes native func mem
  · rintro patch ⟨⟩
  · rintro listeners ⟨⟩
  · rintro slot ⟨⟩

end MadeSteps

/-! ## Whole loads -/

section Loads
variable {env : LoadEnv} {game : Nat} {s : CodeMods}

def codePhases (env : LoadEnv) : List (Step CodeMods LoadFailure) :=
  [forCodeMods (initModCode env), setUp, forCodeMods (loadModCode env),
    forCodeMods (resolveCodeDependencies env), regenerateLeftovers env, finishSetup env]

theorem codePhases_made (made : s.Made) : (untilError (codePhases env) s).1.Made := by
  have first : (forCodeMods (initModCode env) s).1.Made := by
    refine collect_related KeepsMade.refl KeepsMade.trans (fun f mem t made => ?_) s made
    obtain ⟨index, -, rfl⟩ := List.mem_map.mp mem
    exact initModCode_made made
  refine untilError_cons_rule first fun _ => ?_
  have set := setUp_made first
  refine untilError_cons_rule set fun _ => ?_
  generalize (setUp (forCodeMods (initModCode env) s).1).1 = t at set
  obtain ⟨second, -, some_handle⟩ := codePass_made env t.loadedCodeMods set
  have same := (codePass_frame env t.loadedCodeMods (Nat.le_refl t.handles.length)).2
  refine untilError_cons_rule second fun ok => ?_
  have third : (forCodeMods (resolveCodeDependencies env)
      (forCodeMods (loadModCode env) t).1).1.Made := by
    refine resolvePass_made env _ second fun some => ?_
    exact some_handle ok fun none => some (same.loadedCodeMods.trans none)
  refine untilError_cons_rule third fun _ => ?_
  have fourth := regenerateLeftovers_made env third
  refine untilError_cons_rule fourth fun _ => ?_
  rw [untilError_singleton]
  exact finishSetup_made fourth

theorem phases_made (env : LoadEnv) (game : Nat) (made : s.Made) :
    (untilError (phases env game) s).1.Made := by
  have first : (forActiveMods game (loadActiveMod env) s).1.Made := by
    refine collect_related KeepsMade.refl KeepsMade.trans (fun f mem t made => ?_) s made
    obtain ⟨index, -, rfl⟩ := List.mem_map.mp mem
    exact loadActiveMod_made made
  refine untilError_cons_rule first fun _ => ?_
  generalize (forActiveMods game (loadActiveMod env) s).1 = t at first
  have second : (forActiveMods game checkActiveMod t).1.Made := by
    refine collect_related KeepsMade.refl KeepsMade.trans (fun f mem t made => ?_) t first
    obtain ⟨index, -, rfl⟩ := List.mem_map.mp mem
    exact checkActiveMod_made made
  exact untilError_cons_rule second fun _ => codePhases_made second

/-- Over a whole load, every code handle that a function belongs to has been made. -/
theorem loadMods_made (env : LoadEnv) (modGameId : String) (loadAddress : UInt32)
    (made : s.Made) : (loadMods env modGameId loadAddress s).1.Made := by
  have started : (s.startLoad env loadAddress).Made := { made with }
  unfold loadMods
  dsimp only
  split
  · exact started
  · rename_i game known
    split
    · exact started
    · have loaded := phases_made env game started
      split
      · exact { loaded with }
      · exact unloadMods_made loaded

end Loads

end CodeMods

end N64ModernRuntime.Librecomp
