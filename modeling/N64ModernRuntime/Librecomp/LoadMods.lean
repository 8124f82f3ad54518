import N64ModernRuntime.Librecomp.HookRegen

/-!
# mods.cpp: load_mods and unload_mods

Loading goes through its phases one after another, each over all mods; a phase
with an error is the last one, and `unload_mods` runs after it.
-/

set_option autoImplicit false

namespace N64ModernRuntime.Librecomp

open FailingSteps

def resize {α : Type} (xs : List α) (size : Nat) (fill : α) : List α :=
  xs.take size ++ List.replicate (size - xs.length) fill

namespace CodeMods

def setMod (s : CodeMods) (index : Nat) (f : ModCode → ModCode) : CodeMods :=
  { s with mods := Function.update s.mods index (f (s.mods index)) }

def modId (s : CodeMods) (index : Nat) : String :=
  (s.context.openedMods[index]?.map ModHandle.modId).getD ""

/-- A step of the code of one mod, with its errors as `load_mods` returns them. -/
def ofMod (f : Nat → Step CodeMods CodeError) (index : Nat) : Step CodeMods LoadFailure :=
  fun s => ((f index s).1, (f index s).2.map (.code (s.modId index)))

/-! ## The mods and their dependencies -/

def activeModIndices (c : ModContext) (game : Nat) : List Nat :=
  (List.range c.openedMods.length).filter fun index =>
    (c.openedMods[index]?).any fun mod => mod.isForGame game && decide (c.Active mod.modId)

/-- What the callbacks of content do for code: `on_code_mod_enabled`. -/
def onCodeModEnabled (s : CodeMods) (env : LoadEnv) (calls : List ContentCall) : List Nat :=
  (calls.filter fun call => decide (call.typeId = env.codeContentType)).filterMap
    fun call => s.loadedModsById call.modId

/-- The body of the loop over `opened_mods`, for an active mod. -/
def loadActiveMod (env : LoadEnv) (index : Nat) : Step CodeMods LoadFailure := fun s =>
  match s.context.openedMods[index]? with
  | none => (s, [])
  | some mod =>
      let result := s.context.loadMod env.projectVersion mod
      let s := { s.setMod index fun m => { m with sectionLoadAddresses := [] } with
        loadedModsById := emplace s.loadedModsById mod.modId index }
      ({ s with loadedCodeMods := s.loadedCodeMods ++ s.onCodeModEnabled env result.2 },
        result.1.toList.map (.load mod.modId))

/-- The required dependencies that are loaded, by `loaded_mods_by_id`. -/
def loadedDependency (s : CodeMods) (dependency : Dependency) : Option ModHandle :=
  (s.loadedModsById dependency.modId).bind fun index => s.context.openedMods[index]?

def checkDependencies (s : CodeMods) (mod : ModHandle) : List ModLoadError :=
  (mod.manifest.dependencies.filter fun d => !d.optional).filterMap fun d =>
    match s.loadedDependency d with
    | none => some .missingDependency
    | some depMod =>
        if depMod.manifest.version.lt d.version then some .wrongDependencyVersion else none

/-- The ids of the mods for which it calls `disable_runtime_toggle`. -/
def toggleDisabled (s : CodeMods) (mod : ModHandle) : List String :=
  (if mod.manifest.dependencies = [] then [] else [mod.modId]) ++
    (mod.manifest.dependencies.filter fun d => !d.optional).filterMap fun d =>
      (s.loadedDependency d).map ModHandle.modId

def checkActiveMod (index : Nat) : Step CodeMods LoadFailure := fun s =>
  match s.context.openedMods[index]? with
  | none => (s, [])
  | some mod =>
      ({ s with context := s.context.disableRuntimeToggle (s.toggleDisabled mod) },
        (s.checkDependencies mod).map (.load mod.modId))

end CodeMods

/-! ## Symbols, sections and slots -/

/-- `populate_exports`, from one exported function on -/
def ModCode.populateExports (mod : ModCode) : ModCode :=
  { mod with
    exportsByName := mod.recompilerContext.exportedFuncs.foldl
      (fun exports funcIndex =>
        match mod.recompilerContext.functions[funcIndex]? with
        | none => exports
        | some exported => emplace exports exported.name funcIndex)
      mod.exportsByName }

def ModCode.populateEvents (mod : ModCode) : ModCode :=
  { mod with
    eventsByName := mod.recompilerContext.eventSymbols.zipIdx.foldl
      (fun events event => emplace events event.1 event.2) mod.eventsByName }

def layoutSections : UInt32 → List ModSection → List UInt32 × UInt32
  | address, [] => ([], address)
  | address, section_ :: rest =>
      if section_.fixedAddress then
        let laid := layoutSections address rest
        (section_.ramAddr :: laid.1, laid.2)
      else
        let laid := layoutSections
          (((address + section_.size + section_.bssSize + 15) &&& (0xFFFFFFF0 : UInt32)) + 0x400)
          rest
        (address :: laid.1, laid.2)

def RecompilerContext.relocOutOfRange (context : RecompilerContext) : Bool :=
  context.sections.any fun section_ => section_.relocs.any fun reloc =>
    decide (reloc.type = .mips32) && !reloc.referenceSymbol &&
      decide (context.sections.length ≤ reloc.targetSection)

namespace CodeMods

def manifestDependency (s : CodeMods) (index : Nat) (id : String) : Option Dependency :=
  s.context.openedMods[index]?.bind fun mod =>
    mod.manifest.dependencies.find? fun dependency => decide (dependency.modId = id)

/-- The rest of `init_mod_code` once the symbols have been taken in. -/
def layOut (context : RecompilerContext) (index : Nat) : Step CodeMods CodeError := fun s =>
  let laid := layoutSections s.loadAddress context.sections
  let s := s.setMod index fun m => { m with sectionLoadAddresses := laid.1 }
  if context.relocOutOfRange then (s, [⟨.failedToParseSyms, ""⟩])
  else
    ({ s with
      numEvents := s.numEvents + context.eventSymbols.length
      hookSlots := context.hooks.foldl (fun slots hook => slots.add hook.definition) s.hookSlots
      loadAddress := laid.2
      ramUsed := s.ramUsed + (laid.2 - s.loadAddress)
      baseEventIndices := Function.update s.baseEventIndices index (s.numEvents % 2 ^ 32) }, [])

def checkManifest (env : LoadEnv) (context : RecompilerContext) (index : Nat) :
    Step CodeMods CodeError := fun s =>
  if context.dependencies.any fun id => decide (id ≠ env.dependencyBaseRecomp) &&
      decide (id ≠ env.dependencySelf) && (s.manifestDependency index id).isNone then
    (s, [⟨.missingDependencyInManifest, ""⟩])
  else (s, [])

end CodeMods

def LoadEnv.modSymbols (env : LoadEnv) (index : Nat) : Except CodeError RecompilerContext :=
  let files := env.files index
  if files.binarySyms.isSome ∧ files.binary.isNone then .error ⟨.hasSymsButNoBinary, ""⟩
  else if files.binary.isSome ∧ files.binarySyms.isNone then .error ⟨.hasBinaryButNoSyms, ""⟩
  else
    let parsed := env.parseModSymbols (files.binarySyms.getD []) (files.binary.getD [])
    if parsed.2 then .ok parsed.1 else .error ⟨.failedToParseSyms, ""⟩

def LoadEnv.modContext (env : LoadEnv) (index : Nat) (old : RecompilerContext) :
    RecompilerContext :=
  let files := env.files index
  if files.binarySyms.isSome = files.binary.isSome then
    (env.parseModSymbols (files.binarySyms.getD []) (files.binary.getD [])).1
  else old

namespace CodeMods

def initModCode (env : LoadEnv) (index : Nat) : Step CodeMods CodeError := fun s =>
  let s := s.setMod index fun m =>
    { m with recompilerContext := env.modContext index m.recompilerContext }
  match env.modSymbols index with
  | .error error => (s, [error])
  | .ok context =>
      if env.decompressedRom = [] ∧ context.hooks ≠ [] then (s, [⟨.hooksUnavailable, ""⟩])
      else
        untilError [checkManifest env context index, layOut context index]
          (s.setMod index fun m => m.populateExports.populateEvents)

def setUp : Step CodeMods LoadFailure := fun s =>
  ({ s with
    gEventListeners := resize s.gEventListeners s.numEvents []
    gHookSlots := resize s.gHookSlots s.hookSlots.definitions.length ⟨[], false⟩
    processedHookSlots := List.replicate s.hookSlots.definitions.length false }, [])

end CodeMods

/-! ## Code, libraries and functions -/

structure HookMaps where
  entryFuncHooks : List (Nat × Nat)
  returnFuncHooks : List (Nat × Nat)
  processedHookSlots : List Bool

/-- The two maps are filled with `emplace`. -/
def HookMaps.addReplacement (slots : HookSlots) (maps : HookMaps)
    (replacement : FunctionReplacement) : HookMaps :=
  let maps :=
    match slots.find (replacement.definition false) with
    | none => maps
    | some slot => { maps with
        entryFuncHooks := maps.entryFuncHooks ++ [(replacement.funcIndex, slot)]
        processedHookSlots := maps.processedHookSlots.set slot true }
  match slots.find (replacement.definition true) with
  | none => maps
  | some slot => { maps with
      returnFuncHooks := maps.returnFuncHooks ++ [(replacement.funcIndex, slot)]
      processedHookSlots := maps.processedHookSlots.set slot true }

def HookMaps.ofReplacements (slots : HookSlots) (processed : List Bool)
    (replacements : List FunctionReplacement) : HookMaps :=
  replacements.foldl (HookMaps.addReplacement slots) ⟨[], [], processed⟩

def validateApiVersion (filename : String) (apiVersion : UInt32) : List CodeError :=
  if apiVersion = 1 then []
  else if apiVersion = 0xFFFFFFFF then [⟨.noSpecifiedApiVersion, filename⟩]
  else [⟨.unsupportedApiVersion, filename ++ ":" ++ toString apiVersion.toNat⟩]

/-- The symbols that every offline mod has. -/
def dynamicLibrarySymbols : List String :=
  ["imported_funcs", "reference_symbol_funcs", "base_event_index", "recomp_trigger_event",
    "get_function", "cop0_status_write", "cop0_status_read", "switch_error", "do_break",
    "reference_section_addresses", "section_addresses"]

def DynamicLibrary.good (library : DynamicLibrary) (context : RecompilerContext) : Bool :=
  (context.functions.zipIdx.all fun (function, index) =>
      library.symbols (if function.name = "" then "mod_func_" ++ toString index
        else function.name)) &&
    dynamicLibrarySymbols.all library.symbols

def CodeHandle.ofMod (live : Bool) (baseEventIndex : Nat) (context : RecompilerContext)
    (maps : HookMaps) : CodeHandle where
  live := live
  baseEventIndex := baseEventIndex
  context := context
  entryFuncHooks := maps.entryFuncHooks
  returnFuncHooks := maps.returnFuncHooks
  originalSectionIndices := []
  importedFuncs := fun _ => none
  referenceSymbolFuncs := []
  localSectionAddresses := context.sections.map fun _ => 0

/-- `get_function_handle` of the mod's code handle -/
def ModCode.functionHandle (mod : ModCode) (index : Nat) : GenericFunction :=
  .code (mod.codeHandle.getD 0) index

namespace CodeMods

def newHandle (s : CodeMods) (index : Nat) (handle : CodeHandle) : CodeMods :=
  { s.setMod index fun m => { m with codeHandle := some s.handles.length } with
    handles := s.handles ++ [handle] }

def dropHandle (s : CodeMods) (index : Nat) : CodeMods :=
  s.setMod index fun m => { m with codeHandle := none }

def makeOffline (env : LoadEnv) (index : Nat) (maps : HookMaps) : Step CodeMods CodeError :=
  fun s =>
    let files := env.files index
    let context := (s.mods index).recompilerContext
    if maps.entryFuncHooks ≠ [] ∨ maps.returnFuncHooks ≠ [] then (s, [⟨.offlineModHooked, ""⟩])
    else
      match env.dynamicLibrary index files.dllFilename with
      | none => (s.dropHandle index, [⟨.failedToLoadNativeCode, files.dllPath⟩])
      | some library =>
          if library.good context then
            (s.newHandle index (.ofMod false (s.baseEventIndices index) context maps),
              validateApiVersion files.dllFilename library.apiVersion)
          else (s.dropHandle index, [⟨.failedToLoadNativeCode, files.dllPath⟩])

def makeLive (env : LoadEnv) (index : Nat) (maps : HookMaps) : Step CodeMods CodeError := fun s =>
  let context := (s.mods index).recompilerContext
  if env.recompiles context maps.entryFuncHooks maps.returnFuncHooks then
    (s.newHandle index (.ofMod true (s.baseEventIndices index) context maps), [])
  else (s.dropHandle index, [⟨.failedToRecompile, ""⟩])

/-- The part of `load_mod_code` up to the code handle. -/
def makeCodeHandle (env : LoadEnv) (index : Nat) : Step CodeMods CodeError := fun s =>
  let maps := HookMaps.ofReplacements s.hookSlots s.processedHookSlots
    (s.mods index).recompilerContext.replacements
  let s := { s with processedHookSlots := maps.processedHookSlots }
  if (env.files index).offline then makeOffline env index maps s else makeLive env index maps s

def addNativeExport (library : DynamicLibrary) (manifest : NativeLibraryManifest)
    (filename : String) (index : Nat) (name : String) : Step CodeMods CodeError := fun s =>
  if ((s.mods index).nativeLibraryExports name).isSome then (s, [⟨.duplicateExport, name⟩])
  else if library.symbols name then
    (s.setMod index fun m => { m with
      nativeLibraryExports := emplace m.nativeLibraryExports name (.symbol filename name) }, [])
  else (s, [⟨.failedToFindNativeExport, manifest.name ++ ":" ++ name⟩])

def clearNativeExports (s : CodeMods) (index : Nat) : CodeMods :=
  s.setMod index fun m => { m with nativeLibraryExports := fun _ => none }

def loadNativeLibrary (env : LoadEnv) (index : Nat) (manifest : NativeLibraryManifest) :
    Step CodeMods CodeError := fun s =>
  let filename := manifest.name ++ env.platformExtension
  let s := s.setMod index fun m => { m with nativeLibraries := m.nativeLibraries ++ [filename] }
  match env.dynamicLibrary index filename with
  | none => (s, [⟨.failedToLoadNativeLibrary, filename⟩])
  | some library =>
      if validateApiVersion filename library.apiVersion ≠ [] then
        (s, validateApiVersion filename library.apiVersion)
      else
        untilError (manifest.exports.map (addNativeExport library manifest filename index))
          (s.clearNativeExports index)

/-- `func_map[func_address] = func_handle` for one function of the mod. -/
def publishFunction (index : Nat) (function : ModFunction × Nat) : Step CodeMods CodeError :=
  fun s =>
    let mod := s.mods index
    match mod.recompilerContext.sections[function.1.sectionIndex]? with
    | none => (s, [⟨.failedToParseSyms, ""⟩])
    | some section_ =>
        let address := function.1.vram - section_.ramAddr +
          (mod.sectionLoadAddresses[function.1.sectionIndex]?).getD 0
        ({ s with
          funcMap := Function.update s.funcMap address (some (mod.functionHandle function.2)) }, [])

def publishFunctions (index : Nat) : Step CodeMods CodeError := fun s =>
  untilError ((s.mods index).recompilerContext.functions.zipIdx.map (publishFunction index)) s

def loadModCode (env : LoadEnv) (index : Nat) : Step CodeMods CodeError :=
  untilError
    (makeCodeHandle env index ::
      (env.files index).nativeLibraries.map (loadNativeLibrary env index) ++
      [publishFunctions index])

end CodeMods

/-! ## Imports, callbacks, hooks and replacements -/

def ModCode.getExportFunction (mod : ModCode) (name : String) : Option GenericFunction :=
  match mod.exportsByName name with
  | some index => some (mod.functionHandle index)
  | none => mod.nativeLibraryExports name

/-- The calls that `populate_reference_symbols` resolves. -/
def LoadEnv.handleJumps (env : LoadEnv) (live : Bool) (context : RecompilerContext) :
    List (Nat × UInt32) :=
  if live then env.referenceJumps context
  else
    (context.sections.flatMap ModSection.relocs).filterMap fun reloc =>
      if reloc.type = .mips26 ∧ reloc.referenceSymbol ∧
          env.isRegularReferenceSection reloc.targetSection then
        some (reloc.targetSection, reloc.targetSectionOffset)
      else none

namespace CodeMods

def updateHandle (s : CodeMods) (index : Nat) (f : CodeHandle → CodeHandle) : CodeMods :=
  match (s.mods index).codeHandle with
  | none => s
  | some handle => { s with handles := s.handles.modify handle f }

def populateReferenceSymbols (env : LoadEnv) (index : Nat) : Step CodeMods CodeError := fun s =>
  let jumps := env.handleJumps (!(env.files index).offline) (s.mods index).recompilerContext
  match env.unresolvedReference jumps with
  | some error => (s, [error])
  | none =>
      (s.updateHandle index fun h => { h with referenceSymbolFuncs := env.referenceFuncs jumps },
        [])

def newShim (s : CodeMods) (shim : ShimFunction) : CodeMods × Option GenericFunction :=
  ({ s with shimFunctions := s.shimFunctions ++ [shim] }, some (.shim s.shimFunctions.length))

/-- What an import is bound to; `none` where no function was found. -/
def lookupImport (env : LoadEnv) (index : Nat) (importIndex : Nat) (id name : String)
    (s : CodeMods) : Except CodeError (CodeMods × Option GenericFunction) :=
  if id = env.dependencyBaseRecomp then
    match env.baseExports name with
    | some func => .ok (s, some (.native func))
    | none =>
        match env.extBaseExports name with
        | some func => .ok (s.newShim (.extBaseExport func index))
        | none => .ok (s, none)
  else if id = env.dependencySelf then .ok (s, (s.mods index).getExportFunction name)
  else
    match s.loadedModsById id with
    | some dependency => .ok (s, (s.mods dependency).getExportFunction name)
    | none =>
        if (s.manifestDependency index id).isSome then
          .ok (s.newShim (.unmetDependency
            ((importIndex % 2 ^ 32) * 2 ^ 32 + index % 2 ^ 32)))
        else
          .error ⟨.internalError, "Failed to find import dependency while loading code: " ++ id⟩

def bindImport (env : LoadEnv) (index : Nat) (symbol : ImportSymbol × Nat) :
    Step CodeMods CodeError := fun s =>
  let id := ((s.mods index).recompilerContext.dependencies[symbol.1.dependencyIndex]?).getD ""
  match lookupImport env index symbol.2 id symbol.1.name s with
  | .error error => (s, [error])
  | .ok (s, none) => (s, [⟨.invalidImport, id ++ ":" ++ symbol.1.name⟩])
  | .ok (s, some func) =>
      (s.updateHandle index fun h => { h with
        importedFuncs := Function.update h.importedFuncs symbol.2 (some func) }, [])

def bindImports (env : LoadEnv) (index : Nat) : Step CodeMods CodeError := fun s =>
  untilError ((s.mods index).recompilerContext.importSymbols.zipIdx.map (bindImport env index)) s

def globalEventIndex (s : CodeMods) (index : Nat) (eventName : String) : Option Nat :=
  ((s.mods index).eventsByName eventName).map fun event =>
    (((s.mods index).codeHandle.bind fun handle => s.handles[handle]?).map
      CodeHandle.baseEventIndex).getD 0 + event

/-- The event of a callback; `ok none` where the dependency is optional and not loaded. -/
def lookupEvent (env : LoadEnv) (index : Nat) (id eventName : String) (s : CodeMods) :
    Except CodeError (Option Nat) :=
  let found := fun event : Option Nat =>
    match event with
    | some event => Except.ok (some event)
    | none => .error ⟨.invalidCallbackEvent, id ++ ":" ++ eventName⟩
  if id = env.dependencyBaseRecomp then found (env.baseEventIndex eventName)
  else if id = env.dependencySelf then found (s.globalEventIndex index eventName)
  else
    match s.loadedModsById id with
    | some dependency => found (s.globalEventIndex dependency eventName)
    | none =>
        if (s.manifestDependency index id).any fun dependency => dependency.optional then .ok none
        else
          .error ⟨.internalError, "Failed to find callback dependency while loading code: " ++ id⟩

def registerCallback (env : LoadEnv) (index : Nat) (callback : Callback) :
    Step CodeMods CodeError := fun s =>
  let mod := s.mods index
  match mod.recompilerContext.dependencyEvents[callback.dependencyEventIndex]? with
  | none => (s, [])
  | some event =>
      let id := (mod.recompilerContext.dependencies[event.dependencyIndex]?).getD ""
      match lookupEvent env index id event.eventName s with
      | .error error => (s, [error])
      | .ok none => (s, [])
      | .ok (some eventIndex) =>
          ({ s with gEventListeners := s.gEventListeners.modify eventIndex fun listeners =>
              listeners ++ [⟨index, mod.functionHandle callback.functionIndex⟩] }, [])

def registerCallbacks (env : LoadEnv) (index : Nat) : Step CodeMods CodeError := fun s =>
  untilError ((s.mods index).recompilerContext.callbacks.map (registerCallback env index)) s

def registerHook (index : Nat) (hook : FunctionHook) : Step CodeMods CodeError := fun s =>
  match s.hookSlots.find hook.definition with
  | none => (s, [⟨.internalError, "Failed to register hook"⟩])
  | some slot =>
      ({ s with gHookSlots := s.gHookSlots.modify slot fun hookSlot => { hookSlot with
          hooks := hookSlot.hooks ++
            [⟨index, (s.mods index).functionHandle hook.funcIndex⟩] } }, [])

def registerHooks (index : Nat) : Step CodeMods CodeError := fun s =>
  untilError ((s.mods index).recompilerContext.hooks.map (registerHook index)) s

def setLocalSectionAddresses (index : Nat) : Step CodeMods CodeError := fun s =>
  (s.updateHandle index fun h => { h with
    localSectionAddresses := (s.mods index).sectionLoadAddresses }, [])

def replacementErrorParam (replacement : FunctionReplacement) : String :=
  hookErrorParam replacement.originalSectionVrom replacement.originalVram

/-- A jump to the replacement, once the bytes that it overwrites have been saved. -/
def replaceFunc (s : CodeMods) (index : Nat) (toReplace : RecompFunc) (funcIndex : Nat) :
    CodeMods :=
  { s with
    patchedFuncs := s.patchedFuncs ++ [(toReplace, ⟨s.bytes toReplace, s.modId index⟩)]
    bytes := patchFunc s.bytes (some toReplace) ((s.mods index).functionHandle funcIndex) }

def installReplacement (env : LoadEnv) (index : Nat) (replacement : FunctionReplacement) :
    Step CodeMods CodeError := fun s =>
  match env.getFuncBySectionRomFunctionVram replacement.originalSectionVrom
      replacement.originalVram with
  | none => (s, [⟨.invalidFunctionReplacement, replacementErrorParam replacement⟩])
  | some toReplace =>
      if replacement.force = false ∧
          (getBasePatchedFuncs env.code env.patches (some toReplace)).isSome then
        (s, [⟨.baseRecompConflict, replacementErrorParam replacement⟩])
      else
        match s.patchedFuncs.lookup toReplace with
        | some patch => (s, [⟨.modConflict, patch.modId⟩])
        | none => (s.replaceFunc index toReplace replacement.funcIndex, [])

def installReplacements (env : LoadEnv) (index : Nat) : Step CodeMods CodeError := fun s =>
  untilError ((s.mods index).recompilerContext.replacements.map (installReplacement env index)) s

def resolveCodeDependencies (env : LoadEnv) (index : Nat) : Step CodeMods CodeError :=
  untilError [populateReferenceSymbols env index, bindImports env index,
    registerCallbacks env index, registerHooks index, setLocalSectionAddresses index,
    installReplacements env index]

/-! ## Leftover hooks -/

def setHookTypes (s : CodeMods) : CodeMods :=
  { s with gHookSlots := s.gHookSlots.zipIdx.map fun (slot, index) =>
      match s.hookSlots.definitions[index]? with
      | none => slot
      | some definition => { slot with isReturnHook := definition.atReturn } }

def unprocessedHooks (s : CodeMods) : List (HookDefinition × Nat) :=
  s.hookSlots.definitions.zipIdx.filter fun hook => !(s.processedHookSlots[hook.2]?).getD false

def regenerateLeftovers (env : LoadEnv) : Step CodeMods LoadFailure := fun s =>
  if s.unprocessedHooks = [] then (s.setHookTypes, [])
  else regenerateWithHooks env (env.sortHooks.sort hookBefore s.unprocessedHooks) s.setHookTypes

def modOrderIndex (s : CodeMods) (index : Nat) : Nat :=
  ((s.context.modOrderLookup[index]?).bind id).getD (2 ^ 64 - 1)

/-- `finish_event_setup` and `finish_hook_setup` -/
def finishSetup (env : LoadEnv) : Step CodeMods LoadFailure := fun s =>
  let before : RegisteredHook → RegisteredHook → Bool := fun a b =>
    decide (s.modOrderIndex a.modIndex < s.modOrderIndex b.modIndex)
  ({ s with
    gEventListeners := s.gEventListeners.map (env.sortRegistered.sort before)
    gHookSlots := s.gHookSlots.map fun slot => { slot with
      hooks := env.sortRegistered.sort
        (if slot.isReturnHook then fun a b => before b a else before) slot.hooks } }, [])

/-! ## Loading and unloading -/

def unpatch (s : CodeMods) (func : RecompFunc) : Prologue :=
  match s.patchedFuncs.lookup func with
  | some patch => patch.replacedBytes
  | none => s.bytes func

def unloadMods (s : CodeMods) (env : LoadEnv) : CodeMods :=
  { s with
    bytes := s.unpatch
    patchedFuncs := []
    loadedModsById := fun _ => none
    hookSlots := .empty
    processedHookSlots := []
    shimFunctions := []
    gEventListeners := []
    gHookSlots := []
    numEvents := env.numBaseEvents
    context := { s.context with activeGame := none } }

def forActiveMods (game : Nat) (f : Nat → Step CodeMods LoadFailure) :
    Step CodeMods LoadFailure := fun s =>
  collect ((activeModIndices s.context game).map f) s

def forCodeMods (f : Nat → Step CodeMods CodeError) : Step CodeMods LoadFailure := fun s =>
  collect (s.loadedCodeMods.map (ofMod f)) s

def phases (env : LoadEnv) (game : Nat) : List (Step CodeMods LoadFailure) :=
  [forActiveMods game (loadActiveMod env),
    forActiveMods game checkActiveMod,
    forCodeMods (initModCode env),
    setUp,
    forCodeMods (loadModCode env),
    forCodeMods (resolveCodeDependencies env),
    regenerateLeftovers env,
    finishSetup env]

def startLoad (s : CodeMods) (env : LoadEnv) (loadAddress : UInt32) : CodeMods :=
  { s with
    numEvents := env.numBaseEvents
    loadedCodeMods := []
    loadAddress := loadAddress
    ramUsed := 0
    baseEventIndices := fun _ => 0 }

def loadMods (env : LoadEnv) (modGameId : String) (loadAddress : UInt32) :
    Step CodeMods LoadFailure := fun s =>
  let s := s.startLoad env loadAddress
  match s.context.modGameIds modGameId with
  | none => (s, [.invalidGame modGameId])
  | some game =>
      -- "Mods already loaded!"
      if s.patchedFuncs ≠ [] then (s, [])
      else
        let loaded := untilError (phases env game) s
        if loaded.2 = [] then
          ({ loaded.1 with context := { loaded.1.context with activeGame := some game } }, [])
        else (loaded.1.unloadMods env, loaded.2)

end CodeMods

end N64ModernRuntime.Librecomp
