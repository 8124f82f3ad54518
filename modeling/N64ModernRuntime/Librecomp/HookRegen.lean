import N64ModernRuntime.Lib.RangeCursor
import N64ModernRuntime.Lib.Segments
import N64ModernRuntime.Librecomp.CodeMods

/-!
# mods.cpp: functions regenerated for their hooks

A hooked function that no mod has replaced is recompiled once more with its
hooks, from the game's binary or from that of the patches, and its native
version becomes a jump to the new one.  `build_regen_list` gathers the functions
in one pass over the hooks, which come in the order of section and address.
-/

set_option autoImplicit false

namespace N64ModernRuntime.Librecomp

open RangeCursor Segments

def RelocEntry.place (reloc : RelocEntry) : Nat := reloc.offset.toNat

/-! ## The list of what to regenerate -/

structure RegeneratedSection where
  romAddr : UInt32
  ramAddr : UInt32
  originalIndex : Nat
  firstFuncIndex : Nat
  firstRelocIndex : Nat
  relocatable : Bool
  deriving DecidableEq, Repr

structure RegeneratedFunction where
  sectionOffset : UInt32
  size : UInt32
  deriving DecidableEq, Repr

/-- The fields are those of an entry of the table. -/
abbrev RegeneratedReloc := RelocEntry

structure RegeneratedList where
  sections : List RegeneratedSection
  functions : List RegeneratedFunction
  relocs : List RegeneratedReloc
  funcPtrs : List (Option RecompFunc)
  entryFuncHooks : List (Nat × Nat)
  returnFuncHooks : List (Nat × Nat)
  patchedHooks : List (BasePatchedFunction × HookDefinition × Nat)

/-- The locals that `build_regen_list` carries from hook to hook; `basePatched`
is `cur_base_patched` where `cur_func_is_base_patched` holds. -/
structure RegenCursor where
  list : RegeneratedList
  sectionRom : UInt32
  sectionVram : UInt32
  sectionIndex : Nat
  functionVram : UInt32
  sectionRelocs : List RelocEntry
  sectionRelocIndex : Nat
  basePatched : Option BasePatchedFunction

def RegenCursor.start : RegenCursor where
  list := ⟨[], [], [], [], [], [], []⟩
  sectionRom := 0xFFFFFFFF
  sectionVram := 0xFFFFFFFF
  sectionIndex := 0xFFFF
  functionVram := 0xFFFFFFFF
  sectionRelocs := []
  sectionRelocIndex := 0
  basePatched := none

def hex (n : Nat) : String := String.ofList (Nat.toDigits 16 n)

/-- `setw(8)` with `setfill('0')` -/
def hex8 (n : Nat) : String :=
  String.ofList (List.replicate (8 - (Nat.toDigits 16 n).length) '0') ++ hex n

def hookErrorParam (sectionRom functionVram : UInt32) : String :=
  "section: 0x" ++ hex sectionRom.toNat ++ " func: 0x" ++ hex8 functionVram.toNat

/-- What a run of `build_regen_list` reads: the tables of the game or of the
patches (`patched_regenlist`). -/
structure RegenSource where
  patched : Bool
  table : CodeTable
  sectionVromMap : UInt32 → Option Nat
  basePatchedFuncs : Option RecompFunc → Option BasePatchedFunction

namespace RegenSource

variable (source : RegenSource)

def enterSection (c : RegenCursor) (rom : UInt32) : Option RegenCursor :=
  (source.sectionVromMap rom).map fun index =>
    let relocs := source.table.getSectionRelocs index
    { c with
      list := { c.list with
        sections := c.list.sections ++ [{
          romAddr := rom
          ramAddr := source.table.getSectionRamAddr index
          originalIndex := index
          firstFuncIndex := c.list.functions.length
          firstRelocIndex := c.list.relocs.length
          relocatable := !source.patched && !relocs.isEmpty }] }
      sectionRom := rom
      sectionVram := source.table.getSectionRamAddr index
      sectionIndex := index
      functionVram := 0xFFFFFFFF
      sectionRelocs := relocs
      sectionRelocIndex := 0 }

/-- The two loops over the relocations: skip those before the function, then
copy those before its end. -/
def copyRelocs (c : RegenCursor) (offset size : UInt32) : RegenCursor :=
  let index := c.sectionRelocIndex +
    skipped RelocEntry.place c.sectionRelocs c.sectionRelocIndex offset.toNat
  let copied := taken RelocEntry.place c.sectionRelocs index (offset.toNat + size.toNat)
  { c with
    list := { c.list with relocs := c.list.relocs ++ copied }
    sectionRelocIndex := index + copied.length }

def enterFunction (c : RegenCursor) (vram : UInt32) : Except CodeModLoadError RegenCursor :=
  let offset := vram - c.sectionVram
  match source.table.getFuncEntryBySectionIndexFunctionOffset c.sectionIndex offset with
  | none => .error .invalidHook
  | some entry =>
      if entry.romSize = 0 then .error .cannotBeHooked
      else
        let basePatched := if source.patched then none else source.basePatchedFuncs entry.func
        let list :=
          if basePatched.isSome then c.list
          else { c.list with
            functions := c.list.functions ++ [⟨offset, entry.romSize⟩]
            funcPtrs := c.list.funcPtrs ++ [entry.func] }
        .ok (copyRelocs { c with
          list := list
          functionVram := vram
          basePatched := basePatched } offset entry.romSize)

/-- `regenlist.functions.size() - 1` -/
def lastFunction (list : RegeneratedList) : Nat :=
  if list.functions.length = 0 then 2 ^ 64 - 1 else list.functions.length - 1

def attachHook (c : RegenCursor) (hook : HookDefinition × Nat) : RegenCursor :=
  match c.basePatched with
  | some patched =>
      { c with list := { c.list with
          patchedHooks := c.list.patchedHooks ++ [(patched, hook)] } }
  | none =>
      if hook.1.atReturn then
        { c with list := { c.list with
            returnFuncHooks := (lastFunction c.list, hook.2) :: c.list.returnFuncHooks } }
      else
        { c with list := { c.list with
            entryFuncHooks := (lastFunction c.list, hook.2) :: c.list.entryFuncHooks } }

/-- The body of the loop up to the function of the hook. -/
def seek (c : RegenCursor) (definition : HookDefinition) : Except CodeModLoadError RegenCursor := do
  let c ← if definition.sectionRom ≠ c.sectionRom then
      match source.enterSection c definition.sectionRom with
      | none => .error .invalidHook
      | some entered => .ok entered
    else .ok c
  if definition.functionVram ≠ c.functionVram then source.enterFunction c definition.functionVram
  else .ok c

def gather : List (HookDefinition × Nat) → RegenCursor → Except CodeError RegenCursor
  | [], c => .ok c
  | hook :: rest, c =>
      match source.seek c hook.1 with
      | .error error => .error ⟨error, hookErrorParam hook.1.sectionRom hook.1.functionVram⟩
      | .ok found => gather rest (attachHook found hook)

def buildRegenList (hooks : List (HookDefinition × Nat)) : Except CodeError RegeneratedList :=
  (source.gather hooks .start).map RegenCursor.list

end RegenSource

/-! ## From the list to code -/

namespace RegeneratedList

variable (list : RegeneratedList)

def funcListEnd (sectionIndex : Nat) : Nat :=
  (list.sections[sectionIndex + 1]?.map RegeneratedSection.firstFuncIndex).getD
    list.functions.length

def relocListEnd (sectionIndex : Nat) : Nat :=
  (list.sections[sectionIndex + 1]?.map RegeneratedSection.firstRelocIndex).getD list.relocs.length

def relocOut (sectionEvent : Nat) (section_ : RegeneratedSection) (reloc : RegeneratedReloc) :
    Reloc where
  address := reloc.offset + section_.ramAddr
  targetSectionOffset := reloc.targetSectionOffset
  symbolIndex := if reloc.targetSection = sectionEvent then reloc.targetSectionOffset else 0
  targetSection := reloc.targetSection
  type := reloc.type
  referenceSymbol := true

def functionOut (rom : List UInt8) (section_ : RegeneratedSection)
    (sectionIndex functionIndex : Nat) (function : RegeneratedFunction) : ModFunction where
  vram := section_.ramAddr + function.sectionOffset
  rom := section_.romAddr + function.sectionOffset
  words := (rom.drop (section_.romAddr + function.sectionOffset).toNat).take
    (function.size.toNat / 4 * 4)
  name := "patch_function_" ++ toString functionIndex
  sectionIndex := sectionIndex

def sectionOut (sectionEvent : Nat) (section_ : RegeneratedSection) (sectionIndex : Nat) :
    ModSection where
  romAddr := section_.romAddr
  ramAddr := section_.ramAddr
  size := 0
  bssSize := 0
  relocs := (slice list.relocs section_.firstRelocIndex (list.relocListEnd sectionIndex)).map
    (relocOut sectionEvent section_)
  fixedAddress := false
  relocatable := section_.relocatable

/-- The functions come section by section, so their indices are those of the list. -/
def contextFromRegeneratedList (sectionEvent : Nat) (rom : List UInt8) : RecompilerContext :=
  .ofCode
    (list.sections.zipIdx.map fun (section_, index) => list.sectionOut sectionEvent section_ index)
    (list.sections.zipIdx.flatMap fun (section_, index) =>
      (slice list.functions section_.firstFuncIndex (list.funcListEnd index)).mapIdx fun i =>
        functionOut rom section_ index (section_.firstFuncIndex + i))

end RegeneratedList

def patchFunc (bytes : RecompFunc → Prologue) (target : Option RecompFunc)
    (replacement : GenericFunction) : RecompFunc → Prologue :=
  match target with
  | none => bytes
  | some func => Function.update bytes func (some replacement)

/-- The loop over `func_ptrs`, from one index on. -/
def patchAll (handle : Nat) : Nat → List (Option RecompFunc) → (RecompFunc → Prologue) →
    RecompFunc → Prologue
  | _, [], bytes => bytes
  | index, target :: rest, bytes =>
      patchAll handle (index + 1) rest (patchFunc bytes target (.code handle index))

def referenceErrorParam (section_ : Nat) (offset : UInt32) : String :=
  "section: " ++ hex section_ ++ " func offset: 0x" ++ hex offset.toNat

/-- `populate_reference_symbols`: the error of the first jump that leads nowhere. -/
def LoadEnv.unresolvedReference (env : LoadEnv) (jumps : List (Nat × UInt32)) :
    Option CodeError :=
  (jumps.find? fun jump => (env.getFuncBySectionIndexFunctionOffset jump.1 jump.2).isNone).map
    fun jump => ⟨.invalidReferenceSymbol, referenceErrorParam jump.1 jump.2⟩

def LoadEnv.referenceFuncs (env : LoadEnv) (jumps : List (Nat × UInt32)) :
    List (Option RecompFunc) :=
  jumps.map fun jump => env.getFuncBySectionIndexFunctionOffset jump.1 jump.2

/-- The handle of a regenerated list; it has no sections of its own. -/
def LoadEnv.regeneratedHandle (env : LoadEnv) (list : RegeneratedList) (rom : List UInt8) :
    CodeHandle where
  live := true
  baseEventIndex := 0
  context := list.contextFromRegeneratedList env.sectionEvent rom
  entryFuncHooks := list.entryFuncHooks
  returnFuncHooks := list.returnFuncHooks
  originalSectionIndices := list.sections.map RegeneratedSection.originalIndex
  importedFuncs := fun _ => none
  referenceSymbolFuncs :=
    env.referenceFuncs
      (env.referenceJumps (list.contextFromRegeneratedList env.sectionEvent rom))
  localSectionAddresses := []

def LoadEnv.regenerates (env : LoadEnv) (list : RegeneratedList) (rom : List UInt8) : Bool :=
  let context := list.contextFromRegeneratedList env.sectionEvent rom
  env.recompiles context list.entryFuncHooks list.returnFuncHooks &&
    (env.unresolvedReference (env.referenceJumps context)).isNone

/-- The new handle, and its functions in the place of the native ones. -/
def CodeMods.install (s : CodeMods) (env : LoadEnv) (list : RegeneratedList) (rom : List UInt8) :
    CodeMods :=
  { s with
    handles := s.handles ++ [env.regeneratedHandle list rom]
    bytes := patchAll s.handles.length 0 list.funcPtrs s.bytes }

/-- `none` where no handle comes back. -/
def CodeMods.applyRegenlist (s : CodeMods) (env : LoadEnv) (list : RegeneratedList)
    (rom : List UInt8) : Option CodeMods :=
  if env.regenerates list rom then some (s.install env list rom) else none

def internalFailure : LoadFailure := .code "" ⟨.internalError, ""⟩

/-- A hook of a function that the base recomp patches, as one of the patch binary. -/
def CodeTable.patchedHook (patches : CodeTable)
    (entry : BasePatchedFunction × HookDefinition × Nat) : HookDefinition × Nat :=
  (⟨patches.getSectionRomAddr entry.1.patchSection,
    patches.getSectionRamAddr entry.1.patchSection +
      ((patches.getFunctionEntry entry.1.patchSection entry.1.functionIndex).map
        FuncEntry.offset).getD 0,
    entry.2.1.atReturn⟩, entry.2.2)

namespace LoadEnv

def codeSource (env : LoadEnv) : RegenSource where
  patched := false
  table := env.code
  sectionVromMap := env.code.codeSectionsByRom
  basePatchedFuncs := getBasePatchedFuncs env.code env.patches

def patchSource (env : LoadEnv) : RegenSource where
  patched := true
  table := env.patches
  sectionVromMap := env.patches.patchCodeSectionsByRom
  basePatchedFuncs := fun _ => none

def basePatchedHooks (env : LoadEnv) (list : RegeneratedList) : List (HookDefinition × Nat) :=
  env.sortHooks.sort hookBefore (list.patchedHooks.map env.patches.patchedHook)

end LoadEnv

namespace CodeMods

/-- The part of `regenerate_with_hooks` for the game's own functions. -/
def regenerateVanilla (s : CodeMods) (env : LoadEnv) (list : RegeneratedList) :
    CodeMods × List LoadFailure :=
  if list.functions = [] then (s, [])
  else
    match s.applyRegenlist env list env.decompressedRom with
    | none => ({ s with regeneratedCodeHandle := none }, [internalFailure])
    | some installed => ({ installed with regeneratedCodeHandle := some s.handles.length }, [])

/-- The part of `regenerate_with_hooks` for the functions of the patches. -/
def regeneratePatched (s : CodeMods) (env : LoadEnv) (list : RegeneratedList) :
    CodeMods × List LoadFailure :=
  if list.patchedHooks = [] then (s, [])
  else
    match env.patchSource.buildRegenList (env.basePatchedHooks list) with
    | .error error => (s, [.code "" error])
    | .ok patchList =>
        match s.applyRegenlist env patchList env.patchBinary with
        | none =>
            ({ s with regeneratedCodeHandle := none, basePatchedCodeHandle := none },
              [internalFailure])
        | some installed =>
            ({ installed with basePatchedCodeHandle := some s.handles.length }, [])

def regenerateWithHooks (env : LoadEnv) (hooks : List (HookDefinition × Nat)) (s : CodeMods) :
    CodeMods × List LoadFailure :=
  match env.codeSource.buildRegenList hooks with
  | .error error => (s, [.code "" error])
  | .ok list =>
      FailingSteps.untilError [fun s => s.regenerateVanilla env list,
        fun s => s.regeneratePatched env list] s

end CodeMods

end N64ModernRuntime.Librecomp
