import N64ModernRuntime.Lib.FailingSteps
import N64ModernRuntime.Lib.StdSort
import N64ModernRuntime.Librecomp.ContentCallbacks
import N64ModernRuntime.Librecomp.Sections

/-!
# mods.cpp: the code of mods

What loading the code of mods reads (the section tables of the game and of its
patches, the files of the mods, what the recompiler and the host's loader
answer) and what it writes: code handles, the jumps at the start of native
functions, `func_map`, the hook slots, the event listeners and the tables of
each mod.  Guest memory is left out.
-/

set_option autoImplicit false

namespace N64ModernRuntime.Librecomp

/-! ## The section tables -/

inductive RelocType where
  | none | mips16 | mips32 | rel32 | mips26 | hi16 | lo16 | gprel16
  deriving DecidableEq, Repr

structure RelocEntry where
  offset : UInt32
  targetSectionOffset : UInt32
  targetSection : Nat
  type : RelocType
  deriving DecidableEq, Repr

structure RelocatedSection extends SectionTableEntry where
  relocs : List RelocEntry
  deriving DecidableEq, Repr

/-- The sections of the game or of its patches as the recompiler emits them:
with 16-bit indices below `0xFFFF`, none past the end of the address space, and
every function at a word. -/
structure CodeTable where
  sections : List RelocatedSection
  count_le : sections.length ≤ 0xFFFF
  no_wrap : ∀ s ∈ sections, s.ramAddr.toNat + s.size.toNat ≤ 2 ^ 32
  aligned : ∀ s ∈ sections, ∀ fe ∈ s.funcs, (s.ramAddr + fe.offset) &&& 3 = 0

namespace CodeTable

/-- `code_sections_by_rom`, filled in the order of the table: the last section stays. -/
def codeSectionsByRom (table : CodeTable) (rom : UInt32) : Option Nat :=
  ((List.range table.sections.length).filter fun index =>
    decide (table.sections[index]?.map (fun s => s.romAddr) = some rom)).getLast?

/-- `patch_code_sections_by_rom`: `emplace` keeps the first section. -/
def patchCodeSectionsByRom (table : CodeTable) (rom : UInt32) : Option Nat :=
  table.sections.findIdx? fun s => decide (s.romAddr = rom)

def getSectionRamAddr (table : CodeTable) (index : Nat) : UInt32 :=
  (table.sections[index]?.map fun s => s.ramAddr).getD 0xFFFFFFFF

def getSectionRomAddr (table : CodeTable) (index : Nat) : UInt32 :=
  (table.sections[index]?.map fun s => s.romAddr).getD 0xFFFFFFFF

def getSectionRelocs (table : CodeTable) (index : Nat) : List RelocEntry :=
  (table.sections[index]?.map fun s => s.relocs).getD []

def getFunctionEntry (table : CodeTable) (index functionIndex : Nat) : Option FuncEntry :=
  table.sections[index]?.bind fun s => s.funcs[functionIndex]?

def getFuncEntryBySectionIndexFunctionOffset (table : CodeTable) (index : Nat)
    (functionOffset : UInt32) : Option FuncEntry :=
  match table.sections[index]? with
  | none => none
  | some s =>
      if s.size ≤ functionOffset then none
      else s.funcs.find? fun fe => decide (fe.offset = functionOffset)

end CodeTable

structure BasePatchedFunction where
  patchSection : Nat
  functionIndex : Nat
  deriving DecidableEq, Repr

/-- `patch_funcs_by_ptr`: `emplace` keeps the first function of a pointer. -/
def patchFuncsByPtr (patches : CodeTable) (func : Option RecompFunc) :
    Option BasePatchedFunction :=
  ((patches.sections.zipIdx.flatMap fun (s, ps) => s.funcs.zipIdx.map fun (fe, fi) =>
    (fe.func, (⟨ps, fi⟩ : BasePatchedFunction))).find? fun entry => decide (entry.1 = func)).map
      Prod.snd

/-- A vanilla function whose pointer is also one of the patches is overridden by that patch. -/
def getBasePatchedFuncs (code patches : CodeTable) (func : Option RecompFunc) :
    Option BasePatchedFunction :=
  if func ∈ code.sections.flatMap fun s => s.funcs.map FuncEntry.func then
    patchFuncsByPtr patches func
  else none

/-! ## The symbols of a mod -/

structure HookDefinition where
  sectionRom : UInt32
  functionVram : UInt32
  atReturn : Bool
  deriving DecidableEq, Repr

structure Reloc where
  address : UInt32
  targetSectionOffset : UInt32
  symbolIndex : UInt32
  targetSection : Nat
  type : RelocType
  referenceSymbol : Bool
  deriving DecidableEq, Repr

structure ModSection where
  romAddr : UInt32
  ramAddr : UInt32
  size : UInt32
  bssSize : UInt32
  relocs : List Reloc
  fixedAddress : Bool
  relocatable : Bool
  deriving DecidableEq, Repr

/-- `words` are the bytes of the instructions. -/
structure ModFunction where
  vram : UInt32
  rom : UInt32
  words : List UInt8
  name : String
  sectionIndex : Nat
  deriving DecidableEq, Repr

structure FunctionHook where
  funcIndex : Nat
  originalSectionVrom : UInt32
  originalVram : UInt32
  /-- `HookFlags::AtReturn` -/
  atReturn : Bool
  deriving DecidableEq, Repr

structure FunctionReplacement where
  funcIndex : Nat
  originalSectionVrom : UInt32
  originalVram : UInt32
  /-- `ReplacementFlags::Force` -/
  force : Bool
  deriving DecidableEq, Repr

structure ImportSymbol where
  name : String
  dependencyIndex : Nat
  deriving DecidableEq, Repr

structure DependencyEvent where
  dependencyIndex : Nat
  eventName : String
  deriving DecidableEq, Repr

structure Callback where
  functionIndex : Nat
  dependencyEventIndex : Nat
  deriving DecidableEq, Repr

/-- `N64Recomp::Context`, in which the functions that are named by index are there. -/
structure RecompilerContext where
  sections : List ModSection
  functions : List ModFunction
  exportedFuncs : List Nat
  eventSymbols : List String
  /-- `dependencies_by_name`, in the order of its indices -/
  dependencies : List String
  importSymbols : List ImportSymbol
  dependencyEvents : List DependencyEvent
  callbacks : List Callback
  hooks : List FunctionHook
  replacements : List FunctionReplacement
  exported_lt : ∀ func ∈ exportedFuncs, func < functions.length
  callback_lt : ∀ callback ∈ callbacks, callback.functionIndex < functions.length
  hook_lt : ∀ hook ∈ hooks, hook.funcIndex < functions.length
  replacement_lt : ∀ replacement ∈ replacements, replacement.funcIndex < functions.length

def RecompilerContext.ofCode (sections : List ModSection) (functions : List ModFunction) :
    RecompilerContext where
  sections := sections
  functions := functions
  exportedFuncs := []
  eventSymbols := []
  dependencies := []
  importSymbols := []
  dependencyEvents := []
  callbacks := []
  hooks := []
  replacements := []
  exported_lt := by simp
  callback_lt := by simp
  hook_lt := by simp
  replacement_lt := by simp

def FunctionHook.definition (hook : FunctionHook) : HookDefinition :=
  ⟨hook.originalSectionVrom, hook.originalVram, hook.atReturn⟩

def FunctionReplacement.definition (replacement : FunctionReplacement) (atReturn : Bool) :
    HookDefinition :=
  ⟨replacement.originalSectionVrom, replacement.originalVram, atReturn⟩

/-- `hook_slots`: the slot of a definition is its place in the list. -/
structure HookSlots where
  definitions : List HookDefinition
  nodup : definitions.Nodup

namespace HookSlots

def empty : HookSlots := ⟨[], List.nodup_nil⟩

def find (slots : HookSlots) (definition : HookDefinition) : Option Nat :=
  slots.definitions.findIdx? fun other => decide (other = definition)

def add (slots : HookSlots) (definition : HookDefinition) : HookSlots :=
  if h : definition ∈ slots.definitions then slots
  else
    { definitions := slots.definitions ++ [definition]
      nodup := by
        rw [← List.concat_eq_append]
        exact slots.nodup.concat h }

end HookSlots

/-! ## What loading answers with -/

inductive CodeModLoadError where
  | internalError
  | hasSymsButNoBinary
  | hasBinaryButNoSyms
  | failedToParseSyms
  | missingDependencyInManifest
  | failedToLoadNativeCode
  | failedToLoadNativeLibrary
  | failedToFindNativeExport
  | failedToRecompile
  | invalidReferenceSymbol
  | invalidImport
  | invalidCallbackEvent
  | invalidFunctionReplacement
  | hooksUnavailable
  | invalidHook
  | cannotBeHooked
  | baseRecompConflict
  | modConflict
  | duplicateExport
  | offlineModHooked
  | noSpecifiedApiVersion
  | unsupportedApiVersion
  deriving DecidableEq, Repr

structure CodeError where
  error : CodeModLoadError
  param : String
  deriving DecidableEq, Repr

/-- `ModLoadErrorDetails`; those of code are `FailedToLoadCode`. -/
inductive LoadFailure where
  | invalidGame (modGameId : String)
  | load (modId : String) (error : ModLoadError)
  | code (modId : String) (error : CodeError)
  deriving DecidableEq, Repr

/-! ## Functions and code handles -/

/-- What a `recomp_func_t*` of a running process leads to. -/
inductive GenericFunction where
  | native (func : RecompFunc)
  /-- a function of a code handle -/
  | code (handle index : Nat)
  /-- a symbol of a native library -/
  | symbol (library name : String)
  | shim (index : Nat)
  deriving DecidableEq, Repr

abbrev Prologue := Option GenericFunction

structure PatchData where
  replacedBytes : Prologue
  modId : String
  deriving DecidableEq, Repr

/-- The two kinds of `ModCodeHandle`; the hook maps are lists in which the entry
that counts comes first. -/
structure CodeHandle where
  /-- made by the live recompiler -/
  live : Bool
  baseEventIndex : Nat
  context : RecompilerContext
  entryFuncHooks : List (Nat × Nat)
  returnFuncHooks : List (Nat × Nat)
  originalSectionIndices : List Nat
  importedFuncs : Nat → Option GenericFunction
  referenceSymbolFuncs : List (Option RecompFunc)
  localSectionAddresses : List UInt32

def CodeHandle.hookSlot (handle : CodeHandle) (atReturn : Bool) (index : Nat) : Option Nat :=
  (if atReturn then handle.returnFuncHooks else handle.entryFuncHooks).lookup index

/-! ## The mods -/

structure NativeLibraryManifest where
  name : String
  exports : List String
  deriving DecidableEq, Repr

structure ModFiles where
  /-- the name of the mod's file ends in `.offline.nrm` -/
  offline : Bool
  /-- its path with the extension of a library, and the last part of that -/
  dllPath : String
  dllFilename : String
  binarySyms : Option (List UInt8)
  binary : Option (List UInt8)
  nativeLibraries : List NativeLibraryManifest

structure DynamicLibrary where
  symbols : String → Bool
  apiVersion : UInt32

structure RegisteredHook where
  modIndex : Nat
  func : GenericFunction
  deriving DecidableEq, Repr

structure HookSlot where
  hooks : List RegisteredHook
  isReturnHook : Bool
  deriving DecidableEq, Repr

/-- The fields are those of a registered hook. -/
abbrev EventListener := RegisteredHook

/-- The shims: what they wrap, and their argument. -/
inductive ShimFunction where
  | extBaseExport (func : RecompFunc) (modIndex : Nat)
  | unmetDependency (argument : Nat)
  deriving DecidableEq, Repr

/-- The part of a `ModHandle` that belongs to its code. -/
structure ModCode where
  codeHandle : Option Nat
  recompilerContext : RecompilerContext
  sectionLoadAddresses : List UInt32
  exportsByName : String → Option Nat
  eventsByName : String → Option Nat
  nativeLibraryExports : String → Option GenericFunction
  nativeLibraries : List String

/-- The part of `ModContext` for code, the registries that its functions write,
and every code handle that was ever made; one that nothing owns has been freed.
The last three are locals of `load_mods`. -/
structure CodeMods where
  context : ModContext
  mods : Nat → ModCode
  loadedModsById : String → Option Nat
  loadedCodeMods : List Nat
  patchedFuncs : List (RecompFunc × PatchData)
  hookSlots : HookSlots
  processedHookSlots : List Bool
  regeneratedCodeHandle : Option Nat
  basePatchedCodeHandle : Option Nat
  shimFunctions : List ShimFunction
  numEvents : Nat
  bytes : RecompFunc → Prologue
  funcMap : UInt32 → Option GenericFunction
  gHookSlots : List HookSlot
  gEventListeners : List (List EventListener)
  handles : List CodeHandle
  loadAddress : UInt32
  ramUsed : UInt32
  baseEventIndices : Nat → Nat

/-- A code handle is alive while a mod or the context owns it. -/
def CodeMods.Owned (s : CodeMods) (handle : Nat) : Prop :=
  (∃ index, (s.mods index).codeHandle = some handle) ∨
    s.regeneratedCodeHandle = some handle ∨ s.basePatchedCodeHandle = some handle

/-- The comparator of both sorts: by section, then by address. -/
def hookBefore (lhs rhs : HookDefinition × Nat) : Bool :=
  if lhs.1.sectionRom = rhs.1.sectionRom then decide (lhs.1.functionVram < rhs.1.functionVram)
  else decide (lhs.1.sectionRom < rhs.1.sectionRom)

def HookDefinition.place (definition : HookDefinition) : Nat :=
  definition.sectionRom.toNat * 2 ^ 32 + definition.functionVram.toNat

theorem HookDefinition.place_inj {d e : HookDefinition} :
    d.place = e.place ↔ d.sectionRom = e.sectionRom ∧ d.functionVram = e.functionVram := by
  have := d.functionVram.toNat_lt
  have := e.functionVram.toNat_lt
  constructor
  · intro same
    unfold place at same
    exact ⟨UInt32.toNat_inj.mp (by omega), UInt32.toNat_inj.mp (by omega)⟩
  · rintro ⟨rom, vram⟩
    rw [place, place, rom, vram]

theorem hookBefore_place (a b : HookDefinition × Nat) :
    hookBefore a b = decide (a.1.place < b.1.place) := by
  have := a.1.functionVram.toNat_lt
  have := b.1.functionVram.toNat_lt
  unfold hookBefore HookDefinition.place
  split
  · rename_i same
    rw [same, decide_eq_decide, UInt32.lt_iff_toNat_lt]
    omega
  · rename_i apart
    have differ : a.1.sectionRom.toNat ≠ b.1.sectionRom.toNat := fun h => apart (UInt32.toNat_inj.mp h)
    rw [decide_eq_decide, UInt32.lt_iff_toNat_lt]
    omega

theorem hookBefore_weak : StdSort.StrictWeak hookBefore := .of_key hookBefore_place

/-- What the process gives to a load: the tables, the files, and the answers of
the recompiler, of the host's loader and of `std::sort`. -/
structure LoadEnv where
  projectVersion : Version
  codeContentType : ModContentTypeId
  code : CodeTable
  patches : CodeTable
  patchBinary : List UInt8
  decompressedRom : List UInt8
  files : Nat → ModFiles
  /-- the context that `parse_mod_symbols` leaves, and whether it is `Good` -/
  parseModSymbols : List UInt8 → List UInt8 → RecompilerContext × Bool
  /-- every function recompiles with these hooks, and the output is good -/
  recompiles : RecompilerContext → List (Nat × Nat) → List (Nat × Nat) → Bool
  /-- the reference symbol jumps of the output: section and offset -/
  referenceJumps : RecompilerContext → List (Nat × UInt32)
  /-- a library in the directory of a mod -/
  dynamicLibrary : Nat → String → Option DynamicLibrary
  platformExtension : String
  baseExports : String → Option RecompFunc
  extBaseExports : String → Option RecompFunc
  baseEventIndex : String → Option Nat
  numBaseEvents : Nat
  manualPatchSymbols : UInt32 → Option RecompFunc
  /-- constants of `N64Recomp`: two of the indices that it reserves, and its test
  for the others; two names of dependencies that are no mods -/
  sectionAbsolute : Nat
  sectionEvent : Nat
  isRegularReferenceSection : Nat → Bool
  dependencySelf : String
  dependencyBaseRecomp : String
  absolute_reserved : code.sections.length ≤ sectionAbsolute
  sortHooks : StdSort.Sorter (HookDefinition × Nat)
  sortRegistered : StdSort.Sorter RegisteredHook

namespace LoadEnv

variable (env : LoadEnv)

def isManualPatchSymbol (vram : UInt32) : Bool :=
  decide (0x8F000000 ≤ vram) && decide (vram < 0x90000000)

def getFuncBySectionIndexFunctionOffset (index : Nat) (functionOffset : UInt32) :
    Option RecompFunc :=
  match env.code.getFuncEntryBySectionIndexFunctionOffset index functionOffset with
  | some entry => entry.func
  | none =>
      if index = env.sectionAbsolute ∧ isManualPatchSymbol functionOffset then
        env.manualPatchSymbols functionOffset
      else none

def getFuncBySectionRomFunctionVram (sectionRom functionVram : UInt32) : Option RecompFunc :=
  (env.code.codeSectionsByRom sectionRom).bind fun index =>
    env.getFuncBySectionIndexFunctionOffset index
      (functionVram - env.code.getSectionRamAddr index)

end LoadEnv

/-! ## What the lookups find -/

section Lookups
variable {table : CodeTable} {offset : UInt32} {index : Nat} {fe : FuncEntry}

theorem getFuncEntry_some
    (found : table.getFuncEntryBySectionIndexFunctionOffset index offset = some fe) :
    ∃ s, table.sections[index]? = some s ∧ fe ∈ s.funcs ∧ fe.offset = offset ∧
      offset < s.size := by
  unfold CodeTable.getFuncEntryBySectionIndexFunctionOffset at found
  cases here : table.sections[index]? with
  | none =>
      rw [here] at found
      contradiction
  | some s =>
      rw [here] at found
      dsimp only at found
      split at found
      · contradiction
      · rename_i below
        have same := List.find?_some found
        exact ⟨s, rfl, List.mem_of_find?_eq_some found, of_decide_eq_true same,
          UInt32.not_le.mp below⟩

end Lookups

end N64ModernRuntime.Librecomp
