import N64ModernRuntime.Librecomp.CodeMods
import N64ModernRuntime.Librecomp.ModsConfigFile
import N64ModernRuntime.Librecomp.VersionString

/-!
# mod_manifest.cpp: the manifest of a mod

`parse_manifest` reads the fields in turn and stops at the first one that is not
as it should be; its error names the field.  The schema keeps its options in a
list, and beside it a map from their ids into the list, which keeps the first
option of an id.
-/

set_option autoImplicit false

namespace N64ModernRuntime.Librecomp

inductive ModOpenError where
  | noManifest
  | failedToParseManifest
  | invalidManifestSchema
  | incorrectManifestFieldType
  | missingConfigSchemaField
  | incorrectConfigSchemaType
  | invalidConfigSchemaDefault
  | invalidVersionString
  | invalidMinimumRecompVersionString
  | invalidDependencyString
  | missingManifestField
  | duplicateMod
  | wrongGame
  deriving DecidableEq, Repr

/-- An error comes with the `error_param`. -/
abbrev OpenResult := Except (ModOpenError × String)

/-- The conversions to `double`, as bits, and the check of mod ids, which belongs
to the recompiler. -/
structure ManifestEnv where
  /-- `json::parse`, without exceptions -/
  parse : List UInt8 → Option Json
  ofUnsigned : UInt64 → UInt64
  ofInteger : Int64 → UInt64
  validateModId : String → Bool

/-! ## Values of one JSON type -/

def getBoolean : Json → Option Bool
  | .boolean b => some b
  | _ => none

/-- `get_ptr<const int64_t*>`, which takes unsigned numbers too. -/
def getInteger : Json → Option Int64
  | .integer n => some n
  | .unsigned n => some n.toInt64
  | _ => none

/-- `get<double>()` of what `is_number`. -/
def getNumber (env : ManifestEnv) : Json → Option UInt64
  | .float bits => some bits
  | .integer n => some (env.ofInteger n)
  | .unsigned n => some (env.ofUnsigned n)
  | _ => none

/-- `read_field`; a field without a fallback is required. -/
def readField {α : Type} (get : Json → Option α) (data : Json) (key : String)
    (fallback : Option α) : OpenResult α :=
  match data.find key with
  | none =>
    match fallback with
    | none => throw (.missingManifestField, key)
    | some value => pure value
  | some found =>
    match get found with
    | none => throw (.incorrectManifestFieldType, key)
    | some value => pure value

def readArrayField {α : Type} (get : Json → Option α) (data : Json) (key : String)
    (required : Bool) : OpenResult (List α) :=
  readField (getToVec get) data key (if required then none else some [])

def readVersionField (data : Json) (key : String) (parseFailureError : ModOpenError) :
    OpenResult SuffixedVersion := do
  let raw ← readField getString data key none
  match SuffixedVersion.fromString raw.toList ⟨⟨-1, -1, -1⟩, []⟩ with
  | (true, version) => return version
  | (false, _) => throw (parseFailureError, raw)

/-- "id" or "id:version" -/
def parseDependency (env : ManifestEnv) (text : String) : Option Dependency :=
  let modId := String.ofList (text.toList.takeWhile fun c => c ≠ ':')
  if !env.validateModId modId then none
  else
    match text.toList.dropWhile fun c => c ≠ ':' with
    | [] => some ⟨modId, ⟨0, 0, 0⟩, false⟩
    | _ :: version =>
      match SuffixedVersion.fromString version ⟨⟨0, 0, 0⟩, []⟩ with
      | (true, version) => some ⟨modId, version.toVersion, false⟩
      | (false, _) => none

def readDependencyList (env : ManifestEnv) (data : Json) (key : String) (optional : Bool) :
    OpenResult (List Dependency) := do
  let raw ← readArrayField getString data key false
  raw.mapM fun entry =>
    match parseDependency env entry with
    | some dependency => pure { dependency with optional := optional }
    | none => throw (.invalidDependencyString, entry)

/-! ## The config schema -/

structure ConfigOptionEnum where
  options : List String
  defaultValue : UInt32
  deriving DecidableEq, Repr

/-- Numbers are kept as the bits of their `double`. -/
structure ConfigOptionNumber where
  min : UInt64
  max : UInt64
  step : UInt64
  precision : Int32
  percent : Bool
  defaultValue : UInt64
  deriving DecidableEq

structure ConfigOptionString where
  defaultValue : String
  deriving DecidableEq, Repr

/-- The variant also says the type, which the source keeps beside it. -/
inductive ConfigOptionVariant where
  | enum (option : ConfigOptionEnum)
  | number (option : ConfigOptionNumber)
  | string (option : ConfigOptionString)
  deriving DecidableEq

/-- A `ConfigOption` of the source. -/
structure SchemaOption where
  id : String
  name : String
  description : String
  variant : ConfigOptionVariant
  deriving DecidableEq

def readSchemaField {α : Type} (get : Json → Option α) (object : Json) (key : String)
    (fallback : α) : OpenResult α :=
  match object.find key with
  | none => pure fallback
  | some found =>
    match get found with
    | none => throw (.incorrectConfigSchemaType, key)
    | some value => pure value

def readRequiredSchemaString (object : Json) (key : String) : OpenResult String :=
  match object.find key with
  | none => throw (.missingConfigSchemaField, key)
  | some _ => readSchemaField getString object key ""

def parseEnumOption (optionJson : Json) : OpenResult ConfigOptionEnum := do
  let options ← readSchemaField (getToVec getString) optionJson "options" []
  let defaultString ← readSchemaField (fun j => (getString j).map some) optionJson "default" none
  match defaultString with
  | none => return ⟨options, 0⟩
  | some text =>
    match options.findIdx? fun option => option = text with
    | none => throw (.invalidConfigSchemaDefault, "default")
    | some index => return ⟨options, UInt32.ofNat index⟩

def parseNumberOption (env : ManifestEnv) (optionJson : Json) : OpenResult ConfigOptionNumber := do
  let min ← readSchemaField (getNumber env) optionJson "min" 0
  let max ← readSchemaField (getNumber env) optionJson "max" 0
  let step ← readSchemaField (getNumber env) optionJson "step" 0
  let precision ← readSchemaField getInteger optionJson "precision" 0
  let percent ← readSchemaField getBoolean optionJson "percent" false
  let defaultValue ← readSchemaField (getNumber env) optionJson "default" 0
  return ⟨min, max, step, precision.toInt32, percent, defaultValue⟩

def parseStringOption (optionJson : Json) : OpenResult ConfigOptionString := do
  let defaultValue ← readSchemaField getString optionJson "default" ""
  return ⟨defaultValue⟩

def parseVariant (env : ManifestEnv) (optionJson : Json) (type : String) :
    OpenResult ConfigOptionVariant :=
  if type = "Enum" then .enum <$> parseEnumOption optionJson
  else if type = "Number" then .number <$> parseNumberOption env optionJson
  else if type = "String" then .string <$> parseStringOption optionJson
  else throw (.incorrectConfigSchemaType, "type")

def parseConfigSchemaOption (env : ManifestEnv) (optionJson : Json) : OpenResult SchemaOption := do
  let id ← readRequiredSchemaString optionJson "id"
  let name ← readRequiredSchemaString optionJson "name"
  let description ← readSchemaField getString optionJson "description" ""
  let type ← readRequiredSchemaString optionJson "type"
  let variant ← parseVariant env optionJson type
  return ⟨id, name, description, variant⟩

/-- A `ConfigSchema` of the source. -/
structure SchemaTable where
  options : List SchemaOption
  optionsById : String → Option Nat
  /-- the map leads to the first option of an id -/
  first : ∀ id, optionsById id = options.findIdx? fun option => option.id = id

namespace SchemaTable

def empty : SchemaTable := ⟨[], fun _ => none, fun _ => rfl⟩

/-- The end of `parse_config_schema_option`. -/
def append (schema : SchemaTable) (option : SchemaOption) : SchemaTable where
  options := schema.options ++ [option]
  optionsById := emplace schema.optionsById option.id schema.options.length
  first id := by
    rw [List.findIdx?_append, ← schema.first id, List.findIdx?_cons, List.findIdx?_nil]
    by_cases same : option.id = id
    · subst same
      rw [emplace_self]
      simp
    · rw [emplace_of_ne _ _ (Ne.symm same)]
      simp [same]

/-- `options[options_by_id[id]]` -/
def find (schema : SchemaTable) (id : String) : Option SchemaOption :=
  (schema.optionsById id).bind fun index => schema.options[index]?

theorem find_eq (schema : SchemaTable) (id : String) :
    schema.find id = schema.options.find? fun option => option.id = id := by
  rw [find, schema.first]
  generalize schema.options = options
  cases found : options.findIdx? fun option => decide (option.id = id) with
  | none =>
      rw [Option.bind_none]
      symm
      rw [List.find?_eq_none]
      intro option listed
      have other := List.findIdx?_eq_none_iff.mp found option listed
      rw [other]
      exact Bool.false_ne_true
  | some index =>
      obtain ⟨below, is_first, earlier⟩ := List.findIdx?_eq_some_iff_getElem.mp found
      rw [Option.bind_some, List.getElem?_eq_getElem below]
      symm
      rw [List.find?_eq_some_iff_getElem]
      exact ⟨is_first, index, below, rfl, fun j less => by simpa using earlier j less⟩

end SchemaTable

/-! ## parse_manifest -/

/-- The fields of a `ModManifest` that `parse_manifest` fills in. -/
structure ManifestFields where
  modGameIds : List String
  modId : String
  displayName : String
  description : String
  shortDescription : String
  authors : List String
  dependencies : List Dependency
  dependenciesById : String → Option Nat
  configSchema : SchemaTable
  minimumRecompVersion : SuffixedVersion
  version : SuffixedVersion
  enabledByDefault : Bool
  nativeLibraries : List NativeLibraryManifest

def readNativeLibraries (data : Json) : OpenResult (List NativeLibraryManifest) :=
  match data.find "native_libraries" with
  | none => pure []
  | some (.object members) =>
    (Json.items members).mapM fun library =>
      match getToVec getString library.2 with
      | none => throw (.incorrectManifestFieldType, "native_libraries")
      | some names => pure ⟨library.1, names⟩
  | some _ => throw (.incorrectManifestFieldType, "native_libraries")

def readOptions (env : ManifestEnv) (schema : SchemaTable) (options : List Json) :
    OpenResult SchemaTable :=
  options.foldlM (fun schema option => schema.append <$> parseConfigSchemaOption env option) schema

def readConfigSchema (env : ManifestEnv) (data : Json) : OpenResult SchemaTable :=
  match data.find "config_schema" with
  | none => pure .empty
  | some (.object members) =>
    match (Json.object members).find "options" with
    | none => throw (.missingConfigSchemaField, "options")
    | some (.array options) => readOptions env .empty options
    | some _ => throw (.incorrectManifestFieldType, "options")
  | some _ => throw (.incorrectManifestFieldType, "config_schema")

def dependencyTable (dependencies : List Dependency) : String → Option Nat :=
  dependencies.zipIdx.foldl (fun table d => emplace table d.1.modId d.2) fun _ => none

def readManifest (env : ManifestEnv) (data : Json) : OpenResult ManifestFields := do
  let modGameId ← readField getString data "game_id" none
  let modId ← readField getString data "id" none
  let displayName ← readField getString data "display_name" none
  let description ← readField getString data "description" (some "")
  let shortDescription ← readField getString data "short_description" (some "")
  let version ← readVersionField data "version" .invalidVersionString
  let authors ← readArrayField getString data "authors" true
  let minimumRecompVersion ←
    readVersionField data "minimum_recomp_version" .invalidMinimumRecompVersionString
  let enabledByDefault ← readField getBoolean data "enabled_by_default" (some true)
  let required ← readDependencyList env data "dependencies" false
  let optional ← readDependencyList env data "optional_dependencies" true
  let nativeLibraries ← readNativeLibraries data
  let configSchema ← readConfigSchema env data
  return {
    modGameIds := [modGameId]
    modId := modId
    displayName := displayName
    description := description
    shortDescription := shortDescription
    authors := authors
    dependencies := required ++ optional
    dependenciesById := dependencyTable (required ++ optional)
    configSchema := configSchema
    minimumRecompVersion := minimumRecompVersion
    version := version
    enabledByDefault := enabledByDefault
    nativeLibraries := nativeLibraries }

def parseManifest (env : ManifestEnv) (manifestData : List UInt8) : OpenResult ManifestFields :=
  match env.parse manifestData with
  | none => throw (.failedToParseManifest, "")
  | some (.object members) => readManifest env (.object members)
  | some _ => throw (.invalidManifestSchema, "")

/-! ## The errors of parse_manifest -/

def ModOpenError.ofManifest : ModOpenError → Bool
  | .noManifest => false
  | .duplicateMod => false
  | .wrongGame => false
  | _ => true

def OfManifest {α : Type} (result : OpenResult α) : Prop :=
  ∀ e, result = .error e → e.1.ofManifest = true

section Errors

variable {α β : Type}

theorem ofManifest_pure (a : α) : OfManifest (pure a) := fun _ absurd => by cases absurd

theorem ofManifest_throw {e : ModOpenError × String} (own : e.1.ofManifest = true) :
    OfManifest (throw e : OpenResult α) := by
  intro e' same
  cases same
  exact own

theorem ofManifest_bind {result : OpenResult α} {next : α → OpenResult β}
    (first : OfManifest result) (rest : ∀ a, OfManifest (next a)) : OfManifest (result >>= next) := by
  intro e same
  cases here : result with
  | error e' =>
      rw [here] at same
      cases same
      exact first e here
  | ok a =>
      rw [here] at same
      exact rest a e same

theorem ofManifest_map {result : OpenResult α} (f : α → β) (first : OfManifest result) :
    OfManifest (f <$> result) := by
  intro e same
  cases here : result with
  | error e' =>
      rw [here] at same
      cases same
      exact first e here
  | ok a =>
      rw [here] at same
      cases same

theorem ofManifest_mapM {f : α → OpenResult β} (each : ∀ a, OfManifest (f a)) (as : List α) :
    OfManifest (as.mapM f) := by
  induction as with
  | nil =>
      rw [List.mapM_nil]
      exact ofManifest_pure _
  | cons a as ih =>
      rw [List.mapM_cons]
      exact ofManifest_bind (each a) fun _ => ofManifest_bind ih fun _ => ofManifest_pure _

theorem ofManifest_foldlM {f : β → α → OpenResult β} (each : ∀ b a, OfManifest (f b a))
    (as : List α) (b : β) : OfManifest (as.foldlM f b) := by
  induction as generalizing b with
  | nil => exact ofManifest_pure b
  | cons a as ih =>
      rw [List.foldlM_cons]
      exact ofManifest_bind (each b a) fun b' => ih b'

theorem readField_ofManifest (get : Json → Option α) (data : Json) (key : String)
    (fallback : Option α) : OfManifest (readField get data key fallback) := by
  unfold readField
  cases data.find key with
  | none =>
      cases fallback with
      | none => exact ofManifest_throw rfl
      | some value => exact ofManifest_pure value
  | some found =>
      dsimp only
      cases get found with
      | none => exact ofManifest_throw rfl
      | some value => exact ofManifest_pure value

theorem readVersionField_ofManifest (data : Json) (key : String) {e : ModOpenError}
    (own : e.ofManifest = true) : OfManifest (readVersionField data key e) := by
  refine ofManifest_bind (readField_ofManifest _ _ _ _) fun raw => ?_
  rcases SuffixedVersion.fromString raw.toList ⟨⟨-1, -1, -1⟩, []⟩ with ⟨- | -, version⟩
  · exact ofManifest_throw own
  · exact ofManifest_pure version

variable (env : ManifestEnv)

theorem readDependencyList_ofManifest (data : Json) (key : String) (optional : Bool) :
    OfManifest (readDependencyList env data key optional) := by
  refine ofManifest_bind (readField_ofManifest _ _ _ _) fun raw => ofManifest_mapM (fun entry => ?_) raw
  cases parseDependency env entry with
  | none => exact ofManifest_throw rfl
  | some dependency => exact ofManifest_pure _

theorem readSchemaField_ofManifest (get : Json → Option α) (object : Json) (key : String)
    (fallback : α) : OfManifest (readSchemaField get object key fallback) := by
  unfold readSchemaField
  cases object.find key with
  | none => exact ofManifest_pure fallback
  | some found =>
      dsimp only
      cases get found with
      | none => exact ofManifest_throw rfl
      | some value => exact ofManifest_pure value

theorem readRequiredSchemaString_ofManifest (object : Json) (key : String) :
    OfManifest (readRequiredSchemaString object key) := by
  unfold readRequiredSchemaString
  cases object.find key with
  | none => exact ofManifest_throw rfl
  | some found => exact readSchemaField_ofManifest _ _ _ _

theorem parseVariant_ofManifest (optionJson : Json) (type : String) :
    OfManifest (parseVariant env optionJson type) := by
  unfold parseVariant
  by_cases is_enum : type = "Enum"
  · rw [if_pos is_enum]
    refine ofManifest_map _ (ofManifest_bind (readSchemaField_ofManifest _ _ _ _) fun options =>
      ofManifest_bind (readSchemaField_ofManifest _ _ _ _) fun text => ?_)
    cases text with
    | none => exact ofManifest_pure _
    | some text =>
        dsimp only
        cases options.findIdx? fun option => option = text with
        | none => exact ofManifest_throw rfl
        | some index => exact ofManifest_pure _
  · rw [if_neg is_enum]
    by_cases is_number : type = "Number"
    · rw [if_pos is_number]
      refine ofManifest_map _ ?_
      refine ofManifest_bind (readSchemaField_ofManifest _ _ _ _) fun _ => ?_
      refine ofManifest_bind (readSchemaField_ofManifest _ _ _ _) fun _ => ?_
      refine ofManifest_bind (readSchemaField_ofManifest _ _ _ _) fun _ => ?_
      refine ofManifest_bind (readSchemaField_ofManifest _ _ _ _) fun _ => ?_
      refine ofManifest_bind (readSchemaField_ofManifest _ _ _ _) fun _ => ?_
      exact ofManifest_bind (readSchemaField_ofManifest _ _ _ _) fun _ => ofManifest_pure _
    · rw [if_neg is_number]
      by_cases is_string : type = "String"
      · rw [if_pos is_string]
        exact ofManifest_map _
          (ofManifest_bind (readSchemaField_ofManifest _ _ _ _) fun _ => ofManifest_pure _)
      · rw [if_neg is_string]
        exact ofManifest_throw rfl

theorem parseConfigSchemaOption_ofManifest (optionJson : Json) :
    OfManifest (parseConfigSchemaOption env optionJson) := by
  refine ofManifest_bind (readRequiredSchemaString_ofManifest _ _) fun _ => ?_
  refine ofManifest_bind (readRequiredSchemaString_ofManifest _ _) fun _ => ?_
  refine ofManifest_bind (readSchemaField_ofManifest _ _ _ _) fun _ => ?_
  refine ofManifest_bind (readRequiredSchemaString_ofManifest _ _) fun type => ?_
  exact ofManifest_bind (parseVariant_ofManifest env optionJson type) fun _ => ofManifest_pure _

theorem readConfigSchema_ofManifest (data : Json) : OfManifest (readConfigSchema env data) := by
  unfold readConfigSchema
  cases data.find "config_schema" with
  | none => exact ofManifest_pure _
  | some schema =>
      cases schema with
      | object members =>
          dsimp only
          cases (Json.object members).find "options" with
          | none => exact ofManifest_throw rfl
          | some found =>
              cases found with
              | array options =>
                  exact ofManifest_foldlM
                    (fun _ option => ofManifest_map _ (parseConfigSchemaOption_ofManifest env option))
                    options _
              | _ => exact ofManifest_throw rfl
      | _ => exact ofManifest_throw rfl

theorem readNativeLibraries_ofManifest (data : Json) : OfManifest (readNativeLibraries data) := by
  unfold readNativeLibraries
  cases data.find "native_libraries" with
  | none => exact ofManifest_pure _
  | some libraries =>
      cases libraries with
      | object members =>
          refine ofManifest_mapM (fun library => ?_) _
          cases getToVec getString library.2 with
          | none => exact ofManifest_throw rfl
          | some names => exact ofManifest_pure _
      | _ => exact ofManifest_throw rfl

theorem readManifest_ofManifest (data : Json) : OfManifest (readManifest env data) := by
  refine ofManifest_bind (readField_ofManifest _ _ _ _) fun _ => ?_
  refine ofManifest_bind (readField_ofManifest _ _ _ _) fun _ => ?_
  refine ofManifest_bind (readField_ofManifest _ _ _ _) fun _ => ?_
  refine ofManifest_bind (readField_ofManifest _ _ _ _) fun _ => ?_
  refine ofManifest_bind (readField_ofManifest _ _ _ _) fun _ => ?_
  refine ofManifest_bind (readVersionField_ofManifest _ _ rfl) fun _ => ?_
  refine ofManifest_bind (readField_ofManifest _ _ _ _) fun _ => ?_
  refine ofManifest_bind (readVersionField_ofManifest _ _ rfl) fun _ => ?_
  refine ofManifest_bind (readField_ofManifest _ _ _ _) fun _ => ?_
  refine ofManifest_bind (readDependencyList_ofManifest env _ _ _) fun _ => ?_
  refine ofManifest_bind (readDependencyList_ofManifest env _ _ _) fun _ => ?_
  refine ofManifest_bind (readNativeLibraries_ofManifest _) fun _ => ?_
  exact ofManifest_bind (readConfigSchema_ofManifest env _) fun _ => ofManifest_pure _

/-- `parse_manifest` only returns errors about the manifest. -/
theorem parseManifest_ofManifest (manifestData : List UInt8) :
    OfManifest (parseManifest env manifestData) := by
  unfold parseManifest
  cases env.parse manifestData with
  | none => exact ofManifest_throw rfl
  | some data =>
      cases data with
      | object members => exact readManifest_ofManifest env _
      | _ => exact ofManifest_throw rfl

end Errors

/-! ## What the rest of the runtime looks at -/

def SchemaOption.toConfigOption (option : SchemaOption) : ConfigOption :=
  match option.variant with
  | .enum e => .enum e.options
  | .number _ => .number
  | .string _ => .string

def SchemaTable.toConfigSchema (schema : SchemaTable) : ConfigSchema := fun id =>
  (schema.find id).map SchemaOption.toConfigOption

def ManifestFields.toModManifest (manifest : ManifestFields) : ModManifest where
  modId := manifest.modId
  dependencies := manifest.dependencies
  configSchema := manifest.configSchema.toConfigSchema
  minimumRecompVersion := manifest.minimumRecompVersion.toVersion
  version := manifest.version.toVersion
  enabledByDefault := manifest.enabledByDefault

end N64ModernRuntime.Librecomp
