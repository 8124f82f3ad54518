import N64ModernRuntime.Librecomp.ManifestJson

/-!
# mod_manifest.cpp, mods.cpp: the stored configuration of a mod

`load_mod_config_storage` walks the list of the options, while
`set_mod_config_value` and `save_mod_config_storage` look an option up through
its id.  The two agree where no id comes twice.
-/

set_option autoImplicit false

namespace N64ModernRuntime.Librecomp

/-! ## load_mod_config_storage -/

/-- `uint32_t(match - option_enum.options.begin())` -/
def ConfigOptionEnum.indexOf (option : ConfigOptionEnum) (text : String) : Option UInt32 :=
  (option.options.findIdx? fun o => o = text).map UInt32.ofNat

namespace SchemaOption

def read (env : ManifestEnv) (option : SchemaOption) (stored : Json) : Option ConfigValueVariant :=
  match option.variant with
  | .enum e => (getString stored).bind fun text => (e.indexOf text).map .uint32
  | .number _ => (getNumber env stored).map .double
  | .string _ => (getString stored).map .string

def takes (env : ManifestEnv) (option : SchemaOption) (stored : Json) : Bool :=
  match option.variant with
  | .enum e => (getString stored).any fun text => text ∈ e.options
  | .number _ => (getNumber env stored).isSome
  | .string _ => (getString stored).isSome

theorem read_isSome (env : ManifestEnv) (option : SchemaOption) (stored : Json) :
    (option.read env stored).isSome = option.takes env stored := by
  unfold read takes
  cases option.variant with
  | enum e =>
      cases getString stored with
      | none => rfl
      | some text =>
          dsimp only
          rw [Option.bind_some, Option.isSome_map, ConfigOptionEnum.indexOf, Option.isSome_map,
            Option.any_some, List.findIdx?_isSome]
          rw [Bool.eq_iff_iff, List.any_eq_true, decide_eq_true_eq]
          simp
  | number n => exact Option.isSome_map
  | string s => exact Option.isSome_map

end SchemaOption

section Load

variable (env : ManifestEnv)

def loadOption (storageJson : Json) (storage : ConfigStorage) (option : SchemaOption) :
    ConfigStorage :=
  match (storageJson.find option.id).bind (option.read env) with
  | none => storage
  | some value => Function.update storage option.id (some value)

def loadModConfigStorage (file backup : Option (List UInt8)) (expectedModId : String)
    (storage : ConfigStorage) (schema : SchemaTable) : Bool × ConfigStorage :=
  match readJsonWithBackups env.parse file backup with
  | none => (false, storage)
  | some configJson =>
    match (configJson.find "mod_id").bind getString with
    | none => (false, storage)
    | some storedModId =>
      if storedModId ≠ expectedModId then (false, storage)
      else
        match configJson.find "storage" with
        | some (.object members) =>
          (true, schema.options.foldl (loadOption env (.object members)) storage)
        | _ => (false, storage)

def lastTaker (options : List SchemaOption) (id : String) (stored : Json) : Option SchemaOption :=
  options.reverse.find? fun option => option.id = id && option.takes env stored

theorem foldl_loadOption (storageJson : Json) (options : List SchemaOption)
    (storage : ConfigStorage) (id : String) :
    options.foldl (loadOption env storageJson) storage id
      = ((storageJson.find id).bind fun stored =>
          (lastTaker env options id stored).bind fun option => option.read env stored).or
        (storage id) := by
  induction options using List.reverseRecOn with
  | nil =>
      cases storageJson.find id <;> rfl
  | append_singleton options option ih =>
      rw [List.foldl_append, List.foldl_cons, List.foldl_nil, loadOption]
      by_cases same : option.id = id
      · subst same
        cases found : storageJson.find option.id with
        | none =>
            rw [found] at ih
            rw [Option.bind_none, Option.bind_none]
            exact ih
        | some stored =>
            rw [found, Option.bind_some] at ih
            have here := option.read_isSome env stored
            rw [Option.bind_some, Option.bind_some, lastTaker, List.reverse_append,
              List.reverse_singleton, List.singleton_append]
            cases value : option.read env stored with
            | none =>
                rw [value, Option.isSome_none] at here
                rw [List.find?_cons_of_neg (by simp [← here])]
                exact ih
            | some v =>
                rw [value, Option.isSome_some] at here
                rw [List.find?_cons_of_pos (by simp [← here]), Option.bind_some, value]
                exact Function.update_self _ _ _
      · have skipped : ∀ stored, lastTaker env (options ++ [option]) id stored
            = lastTaker env options id stored := by
          intro stored
          rw [lastTaker, List.reverse_append, List.reverse_singleton, List.singleton_append,
            List.find?_cons_of_neg (by simp [same])]
          rfl
        simp only [skipped]
        rw [← ih]
        cases (storageJson.find option.id).bind (option.read env) with
        | none => rfl
        | some value => exact Function.update_of_ne (Ne.symm same) _ _

end Load

/-! ## save_mod_config_storage -/

inductive BadAccess where
  /-- `std::get` of another alternative -/
  | variant
  /-- an index past the end of a list -/
  | index
  deriving DecidableEq, Repr

def SchemaOption.write (option : SchemaOption) (value : ConfigValueVariant) : Except BadAccess Json :=
  match option.variant, value with
  | .enum e, .uint32 index =>
    match e.options[index.toNat]? with
    | some text => pure (.string text)
    | none => throw .index
  | .number _, .double bits => pure (.float bits)
  | .string _, .string text => pure (.string text)
  | _, _ => throw .variant

def saveEntry (schema : SchemaTable) (storageJson : Json) (entry : String × ConfigValueVariant) :
    Except BadAccess Json :=
  match schema.find entry.1 with
  | none => pure storageJson
  | some option => do
    let value ← option.write entry.2
    return storageJson.assign entry.1 value

/-- The entries are those of the map, in the order it is iterated in. -/
def Iterates (storage : ConfigStorage) (entries : List (String × ConfigValueVariant)) : Prop :=
  (entries.map Prod.fst).Nodup ∧ ∀ id value, (id, value) ∈ entries ↔ storage id = some value

def savedConfig (modId : String) (modVersion recompVersion : SuffixedVersion) (storageJson : Json) :
    Json :=
  .object
    [("mod_id", .string modId),
      ("mod_version", .string (String.ofList modVersion.toText)),
      ("recomp_version", .string (String.ofList recompVersion.toText)),
      ("storage", storageJson)]

namespace SchemaTable

def saveModConfigStorage (schema : SchemaTable) (modId : String)
    (modVersion recompVersion : SuffixedVersion) (entries : List (String × ConfigValueVariant)) :
    Except BadAccess Json := do
  let storageJson ← entries.foldlM (saveEntry schema) .null
  return savedConfig modId modVersion recompVersion storageJson

def Matches (schema : SchemaTable) (storage : ConfigStorage) : Prop :=
  ∀ id value option, storage id = some value → schema.find id = some option →
    option.toConfigOption.accepts value = true

end SchemaTable

def SavedValue.toJson : SavedValue → Json
  | .string value => .string value
  | .number bits => .float bits

theorem SchemaOption.write_eq (option : SchemaOption) (value : ConfigValueVariant) :
    (option.write value).toOption = (option.toConfigOption.save value).map SavedValue.toJson := by
  unfold write toConfigOption
  cases option.variant with
  | enum e =>
      cases value with
      | uint32 index =>
          dsimp only [ConfigOption.save]
          cases e.options[index.toNat]? <;> rfl
      | _ => rfl
  | number n => cases value <;> rfl
  | string s => cases value <;> rfl

theorem SchemaOption.write_accepted {option : SchemaOption} {value : ConfigValueVariant}
    (accepted : option.toConfigOption.accepts value = true) : ∃ json, option.write value = .ok json := by
  obtain ⟨saved, here⟩ := ConfigOption.save_accepted accepted
  have same := option.write_eq value
  rw [here, Option.map_some] at same
  cases written : option.write value with
  | error bad =>
      rw [written] at same
      cases same
  | ok json => exact ⟨json, rfl⟩

section Save

variable {schema : SchemaTable}

theorem saveEntry_ok {j : Json} (assigned : j.Assigned) {entry : String × ConfigValueVariant}
    (accepted : ∀ option, schema.find entry.1 = some option →
      option.toConfigOption.accepts entry.2 = true) :
    ∃ j', saveEntry schema j entry = .ok j' ∧ j'.Assigned ∧
      (j' = .null ↔ j = .null ∧ schema.find entry.1 = none) ∧
      (∀ id, id ≠ entry.1 → j'.find id = j.find id) ∧
      ∀ option, schema.find entry.1 = some option →
        j'.find entry.1 = (option.write entry.2).toOption := by
  unfold saveEntry
  cases found : schema.find entry.1 with
  | none =>
      refine ⟨j, rfl, assigned, ?_, fun _ _ => rfl, fun option absurd => by cases absurd⟩
      simp
  | some option =>
      obtain ⟨value, written⟩ := SchemaOption.write_accepted (accepted option found)
      obtain ⟨assigned', full⟩ := Json.assign_assigned assigned entry.1 value
      refine ⟨j.assign entry.1 value, ?_, assigned', ?_, ?_, ?_⟩
      · dsimp only
        rw [written]
        rfl
      · simp [full]
      · intro id differ
        rw [Json.find_assign assigned, if_neg differ]
      · intro option' same
        cases same
        rw [Json.find_assign assigned, if_pos rfl, written]
        rfl

theorem saveEntries_ok (entries : List (String × ConfigValueVariant))
    (distinct : (entries.map Prod.fst).Nodup) {j : Json} (assigned : j.Assigned)
    (accepted : ∀ entry ∈ entries, ∀ option, schema.find entry.1 = some option →
      option.toConfigOption.accepts entry.2 = true) :
    ∃ j', entries.foldlM (saveEntry schema) j = .ok j' ∧ j'.Assigned ∧
      (j' = .null ↔ j = .null ∧ ∀ entry ∈ entries, schema.find entry.1 = none) ∧
      (∀ id, id ∉ entries.map Prod.fst → j'.find id = j.find id) ∧
      ∀ entry ∈ entries, ∀ option, schema.find entry.1 = some option →
        j'.find entry.1 = (option.write entry.2).toOption := by
  induction entries generalizing j with
  | nil => exact ⟨j, rfl, assigned, by simp, fun _ _ => rfl, fun _ none => by cases none⟩
  | cons entry entries ih =>
      rw [List.map_cons, List.nodup_cons] at distinct
      obtain ⟨fresh, distinct⟩ := distinct
      obtain ⟨j₁, first, assigned₁, null₁, frame₁, here₁⟩ :=
        saveEntry_ok assigned (accepted entry List.mem_cons_self)
      obtain ⟨j₂, rest, assigned₂, null₂, frame₂, here₂⟩ :=
        ih distinct assigned₁ fun e mem => accepted e (List.mem_cons_of_mem entry mem)
      refine ⟨j₂, ?_, assigned₂, ?_, ?_, ?_⟩
      · rw [List.foldlM_cons, first]
        exact rest
      · rw [null₂, null₁, List.forall_mem_cons, and_assoc]
      · intro id absent
        rw [List.map_cons, List.mem_cons, not_or] at absent
        rw [frame₂ id absent.2, frame₁ id absent.1]
      · intro e mem option found
        rcases List.mem_cons.mp mem with rfl | later
        · rw [frame₂ e.1 fresh, here₁ option found]
        · exact here₂ e later option found

end Save

namespace SchemaTable

variable {schema : SchemaTable} {storage : ConfigStorage}
  {entries : List (String × ConfigValueVariant)}

/-- A storage that matches is saved: under each id of the schema there is what its value
is written as, and nothing else; where no id is in the schema, the member is `null`. -/
theorem Matches.saved (matching : schema.Matches storage) (iterates : Iterates storage entries)
    (modId : String) (modVersion recompVersion : SuffixedVersion) :
    ∃ storageJson, schema.saveModConfigStorage modId modVersion recompVersion entries
        = .ok (savedConfig modId modVersion recompVersion storageJson) ∧
      storageJson.Assigned ∧
      (storageJson = .null ↔ ∀ id value, storage id = some value → schema.find id = none) ∧
      ∀ id option, schema.find id = some option →
        storageJson.find id = (storage id).bind fun value => (option.write value).toOption := by
  obtain ⟨distinct, listed⟩ := iterates
  obtain ⟨storageJson, saved, assigned, null, frame, here⟩ :=
    saveEntries_ok entries distinct (j := .null) (Or.inl rfl)
      fun entry mem option (found : schema.find entry.1 = some option) =>
        matching entry.1 entry.2 option ((listed _ _).mp mem) found
  refine ⟨storageJson, ?_, assigned, ?_, ?_⟩
  · rw [saveModConfigStorage, saved]
    rfl
  · rw [null]
    constructor
    · rintro ⟨-, none⟩ id value stored
      exact none (id, value) ((listed id value).mpr stored)
    · intro none
      exact ⟨rfl, fun entry mem => none entry.1 entry.2 ((listed _ _).mp mem)⟩
  · intro id option found
    cases stored : storage id with
    | none =>
        have absent : id ∉ entries.map Prod.fst := by
          intro mem
          obtain ⟨entry, mem, same⟩ := List.mem_map.mp mem
          have there := (listed entry.1 entry.2).mp mem
          rw [same, stored] at there
          cases there
        rw [frame id absent]
        rfl
    | some value =>
        exact here (id, value) ((listed id value).mpr stored) option found

end SchemaTable

/-! ## Where the loop over the list and the map of ids agree -/

/-- What `last` makes of a stored value is of the alternative of `first`, and in range. -/
def SchemaOption.agrees (first last : SchemaOption) (stored : Json) : Prop :=
  match first.variant, last.variant with
  | .enum e, .enum e' =>
    ∀ text index, getString stored = some text → e'.indexOf text = some index →
      index.toNat < e.options.length
  | .number _, .number _ => True
  | .string _, .string _ => True
  | _, _ => False

theorem SchemaOption.accepts_read_iff {env : ManifestEnv} {first last : SchemaOption}
    {stored : Json} {value : ConfigValueVariant} (read : last.read env stored = some value) :
    first.toConfigOption.accepts value = true ↔ first.agrees last stored := by
  unfold SchemaOption.read at read
  unfold toConfigOption agrees
  cases kind : last.variant with
  | enum e' =>
      rw [kind] at read
      obtain ⟨text, is_text, indexed⟩ := Option.bind_eq_some_iff.mp read
      obtain ⟨index, found, rfl⟩ := Option.map_eq_some_iff.mp indexed
      cases first.variant with
      | enum e =>
          dsimp only [ConfigOption.accepts]
          rw [decide_eq_true_eq]
          constructor
          · intro inside text' index' is_text' found'
            cases is_text.symm.trans is_text'
            cases found.symm.trans found'
            exact inside
          · exact fun agree => agree text index is_text found
      | number n => exact iff_of_false Bool.false_ne_true not_false
      | string t => exact iff_of_false Bool.false_ne_true not_false
  | number n =>
      rw [kind] at read
      obtain ⟨bits, -, rfl⟩ := Option.map_eq_some_iff.mp read
      cases first.variant with
      | enum e => exact iff_of_false Bool.false_ne_true not_false
      | number n => exact iff_of_true rfl trivial
      | string t => exact iff_of_false Bool.false_ne_true not_false
  | string t =>
      rw [kind] at read
      obtain ⟨text, -, rfl⟩ := Option.map_eq_some_iff.mp read
      cases first.variant with
      | enum e => exact iff_of_false Bool.false_ne_true not_false
      | number n => exact iff_of_false Bool.false_ne_true not_false
      | string t => exact iff_of_true rfl trivial

/-- The members of the `storage` of a file that is for this mod. -/
def storedMembers (configJson : Option Json) (modId : String) : Option (List (String × Json)) :=
  match configJson with
  | none => none
  | some json =>
    if (json.find "mod_id").bind getString = some modId then
      match json.find "storage" with
      | some (.object members) => some members
      | _ => none
    else none

/-- For each id that the file has a value for, the last option that takes it agrees with
the first option of the id. -/
def LoadRight (env : ManifestEnv) (configJson : Option Json) (modId : String)
    (schema : SchemaTable) : Prop :=
  ∀ members id stored first last, storedMembers configJson modId = some members →
    (Json.object members).find id = some stored → schema.find id = some first →
    lastTaker env schema.options id stored = some last → first.agrees last stored

section Loaded

variable (env : ManifestEnv) (file backup : Option (List UInt8)) (modId : String)
  (schema : SchemaTable)

theorem loadModConfigStorage_eq :
    loadModConfigStorage env file backup modId (fun _ => none) schema
      = match storedMembers (readJsonWithBackups env.parse file backup) modId with
        | none => (false, fun _ => none)
        | some members => (true, fun id =>
            ((Json.object members).find id).bind fun stored =>
              (lastTaker env schema.options id stored).bind fun option => option.read env stored) := by
  unfold loadModConfigStorage storedMembers
  cases readJsonWithBackups env.parse file backup with
  | none => rfl
  | some json =>
      dsimp only
      cases (json.find "mod_id").bind getString with
      | none => rfl
      | some storedModId =>
          by_cases same : storedModId = modId
          · subst same
            rw [if_pos rfl]
            dsimp only
            rw [if_neg (not_not_intro rfl)]
            cases json.find "storage" with
            | none => rfl
            | some storageJson =>
                cases storageJson with
                | object members =>
                    dsimp only
                    congr 1
                    funext id
                    rw [foldl_loadOption, Option.or_none]
                | _ => rfl
          · rw [if_neg (fun equal => same (Option.some.inj equal))]
            dsimp only
            rw [if_pos same]

theorem lastTaker_some {env : ManifestEnv} {options : List SchemaOption} {id : String}
    {stored : Json} {last : SchemaOption} (taken : lastTaker env options id stored = some last) :
    last.id = id ∧ ∃ value, last.read env stored = some value := by
  have found := List.find?_some taken
  rw [Bool.and_eq_true, decide_eq_true_eq, ← SchemaOption.read_isSome] at found
  exact ⟨found.1, Option.isSome_iff_exists.mp found.2⟩

/-- What is loaded matches just where the two look-ups agree. -/
theorem loaded_matches_iff :
    schema.Matches (loadModConfigStorage env file backup modId (fun _ => none) schema).2
      ↔ LoadRight env (readJsonWithBackups env.parse file backup) modId schema := by
  rw [loadModConfigStorage_eq]
  generalize readJsonWithBackups env.parse file backup = configJson
  constructor
  · intro matching members id stored first last right found is_first taken
    obtain ⟨-, value, read⟩ := lastTaker_some taken
    refine (SchemaOption.accepts_read_iff read).mp (matching id value first ?_ is_first)
    rw [right]
    dsimp only
    rw [found, Option.bind_some, taken, Option.bind_some, read]
  · intro right id value first loaded is_first
    cases right_file : storedMembers configJson modId with
    | none =>
        rw [right_file] at loaded
        cases loaded
    | some members =>
        rw [right_file] at loaded
        obtain ⟨stored, found, loaded⟩ := Option.bind_eq_some_iff.mp loaded
        obtain ⟨last, taken, read⟩ := Option.bind_eq_some_iff.mp loaded
        exact (SchemaOption.accepts_read_iff read).mpr
          (right members id stored first last right_file found is_first taken)

end Loaded

/-! ## The calls of set_mod_config_value -/

inductive SetValueCall where
  | byIndex (modIndex : Nat) (optionId : String) (value : ConfigValueVariant)
  | byId (modId optionId : String) (value : ConfigValueVariant)

namespace ModContext

variable {c : ModContext}

def setValue (c : ModContext) : SetValueCall → ModContext
  | .byIndex modIndex optionId value => c.setModConfigValue modIndex optionId value
  | .byId modId optionId value => c.setModConfigValueOf modId optionId value

def setValues (c : ModContext) (calls : List SetValueCall) : ModContext := calls.foldl setValue c

def StoredRight (mod : ModHandle) : Prop :=
  ∀ id value option, mod.configStorage id = some value →
    mod.manifest.configSchema id = some option → option.accepts value = true

theorem setModConfigValue_stored (modIndex : Nat) (optionId : String) (value : ConfigValueVariant)
    {j : Nat} {mod : ModHandle} (opened : c.openedMods[j]? = some mod) (right : StoredRight mod) :
    ∃ mod', (c.setModConfigValue modIndex optionId value).openedMods[j]? = some mod' ∧
      mod'.manifest = mod.manifest ∧ StoredRight mod' := by
  rcases c.setModConfigValue_cases modIndex optionId value with ⟨same, -⟩ | ⟨target, here, next⟩
  · rw [same]
    exact ⟨mod, opened, rfl, right⟩
  · rcases next with ⟨same, -⟩ | ⟨option, found, accepted, same, -⟩
    · rw [same]
      exact ⟨mod, opened, rfl, right⟩
    · rw [same]
      change ∃ mod', (c.storeValue modIndex optionId value).openedMods[j]? = some mod' ∧ _
      rw [getElem?_storeValue, opened]
      by_cases hit : modIndex = j
      · subst hit
        cases opened.symm.trans here
        rw [if_pos rfl]
        refine ⟨stored mod optionId value, rfl, rfl, ?_⟩
        intro id value' option' has found'
        by_cases same_id : id = optionId
        · subst same_id
          have is_value : value = value' := by
            simpa only [stored, Function.update_self, Option.some.injEq] using has
          cases found.symm.trans found'
          rw [← is_value]
          exact accepted
        · refine right id value' option' ?_ found'
          simpa only [stored, Function.update_of_ne same_id] using has
      · rw [if_neg hit]
        exact ⟨mod, rfl, rfl, right⟩

theorem setValue_stored (call : SetValueCall) {j : Nat} {mod : ModHandle}
    (opened : c.openedMods[j]? = some mod) (right : StoredRight mod) :
    ∃ mod', (c.setValue call).openedMods[j]? = some mod' ∧
      mod'.manifest = mod.manifest ∧ StoredRight mod' := by
  cases call with
  | byIndex modIndex optionId value =>
      exact setModConfigValue_stored modIndex optionId value opened right
  | byId modId optionId value =>
      rw [setValue, setModConfigValueOf]
      cases c.openedModsById modId with
      | none => exact ⟨mod, opened, rfl, right⟩
      | some modIndex => exact setModConfigValue_stored modIndex optionId value opened right

/-- A value that an option does not accept is never stored. -/
theorem setValues_stored (calls : List SetValueCall) {j : Nat} {mod : ModHandle}
    (opened : c.openedMods[j]? = some mod) (right : StoredRight mod) :
    ∃ mod', (c.setValues calls).openedMods[j]? = some mod' ∧
      mod'.manifest = mod.manifest ∧ StoredRight mod' := by
  induction calls generalizing c mod with
  | nil => exact ⟨mod, opened, rfl, right⟩
  | cons call calls ih =>
      obtain ⟨mod₁, opened₁, same₁, right₁⟩ := setValue_stored call opened right
      obtain ⟨mod₂, opened₂, same₂, right₂⟩ := ih opened₁ right₁
      exact ⟨mod₂, opened₂, same₂.trans same₁, right₂⟩

/-- The end of `open_mod_from_manifest`. -/
def openStored (c : ModContext) (env : ManifestEnv) (manifest : ManifestFields)
    (file backup : Option (List UInt8)) (gameIndices : List Nat)
    (contentTypes : List ModContentTypeId) : ModContext :=
  c.addOpenedMod manifest.toModManifest
    (loadModConfigStorage env file backup manifest.modId (fun _ => none) manifest.configSchema).2
    gameIndices contentTypes

end ModContext

theorem matches_iff_storedRight {manifest : ManifestFields} {mod : ModHandle}
    (same : mod.manifest = manifest.toModManifest) :
    manifest.configSchema.Matches mod.configStorage ↔ ModContext.StoredRight mod := by
  have schema : ∀ id, mod.manifest.configSchema id
      = (manifest.configSchema.find id).map SchemaOption.toConfigOption := by
    intro id
    rw [same]
    rfl
  constructor
  · intro matching id value option has found
    rw [schema] at found
    obtain ⟨schemaOption, is_first, rfl⟩ := Option.map_eq_some_iff.mp found
    exact matching id value schemaOption has is_first
  · intro right id value option has found
    refine right id value option.toConfigOption has ?_
    rw [schema, found, Option.map_some]

/-- After any calls the stored values match and are written without a bad access, if
and only if the file's values are taken by options that agree with the first ones. -/
theorem stored_values_match_iff (env : ManifestEnv) (c : ModContext) (manifest : ManifestFields)
    (file backup : Option (List UInt8)) (gameIndices : List Nat)
    (contentTypes : List ModContentTypeId) (recompVersion : SuffixedVersion) :
    (∀ calls : List SetValueCall, ∃ mod,
      ((c.openStored env manifest file backup gameIndices contentTypes).setValues
          calls).openedMods[c.openedMods.length]? = some mod ∧
        manifest.configSchema.Matches mod.configStorage ∧
        ∀ entries, Iterates mod.configStorage entries →
          ∃ json, manifest.configSchema.saveModConfigStorage manifest.modId manifest.version
            recompVersion entries = .ok json)
      ↔ LoadRight env (readJsonWithBackups env.parse file backup) manifest.modId
          manifest.configSchema := by
  rw [← loaded_matches_iff]
  have opened : (c.openStored env manifest file backup gameIndices
      contentTypes).openedMods[c.openedMods.length]?
        = some (c.newHandle manifest.toModManifest
            (loadModConfigStorage env file backup manifest.modId (fun _ => none)
              manifest.configSchema).2 gameIndices contentTypes) := by
    change (c.openedMods ++ [_])[c.openedMods.length]? = _
    rw [List.getElem?_append_right (Nat.le_refl _), Nat.sub_self]
    rfl
  constructor
  · intro always
    obtain ⟨mod, here, matching, -⟩ := always []
    cases opened.symm.trans here
    exact matching
  · intro matching calls
    have right : ModContext.StoredRight (c.newHandle manifest.toModManifest
        (loadModConfigStorage env file backup manifest.modId (fun _ => none)
          manifest.configSchema).2 gameIndices contentTypes) :=
      (matches_iff_storedRight rfl).mp matching
    obtain ⟨mod, here, same, right⟩ := ModContext.setValues_stored calls opened right
    have matching := (matches_iff_storedRight same).mpr right
    refine ⟨mod, here, matching, fun entries iterates => ?_⟩
    obtain ⟨storageJson, saved, -⟩ := matching.saved iterates manifest.modId manifest.version
      recompVersion
    exact ⟨_, saved⟩

/-! ## Two options of one id -/

/-- The bytes of a text in ASCII, on lines as `std::setw(4)` makes them. -/
def printBytes (json : Json) : List UInt8 :=
  (json.print 5 ['\n']).map fun c => UInt8.ofNat c.toNat

/-- What the conversions to `double` and the check of mod ids do is not used: the texts
have strings alone, and no dependencies. -/
def asciiEnv : ManifestEnv where
  parse bytes := Json.parse (bytes.map fun b => Char.ofNat b.toNat)
  ofUnsigned _ := 0
  ofInteger _ := 0
  validateModId _ := true

def repeatedIdJson : Json :=
  .object
    [("game_id", .string "g"), ("id", .string "m"), ("display_name", .string "M"),
      ("version", .string "1.0.0"), ("authors", .array [.string "A"]),
      ("minimum_recomp_version", .string "1.0.0"),
      ("config_schema", .object [("options", .array
        [.object [("id", .string "o"), ("name", .string "O"), ("type", .string "Enum"),
            ("options", .array [.string "x"])],
          .object [("id", .string "o"), ("name", .string "O"), ("type", .string "String")]])])]

def repeatedIdStored : Json :=
  .object [("mod_id", .string "m"), ("storage", .object [("o", .string "y")])]

def version100 : SuffixedVersion := ⟨⟨1, 0, 0⟩, []⟩

set_option maxRecDepth 8000 in
theorem parse_repeatedId : asciiEnv.parse (printBytes repeatedIdJson) = some repeatedIdJson := by
  rfl

theorem parse_repeatedIdStored :
    asciiEnv.parse (printBytes repeatedIdStored) = some repeatedIdStored := by
  rfl

/-- The string is stored for the second option, and written as a value of the first. -/
theorem repeated_id_bad_variant :
    ∃ manifest, parseManifest asciiEnv (printBytes repeatedIdJson) = .ok manifest ∧
      (loadModConfigStorage asciiEnv (some (printBytes repeatedIdStored)) none manifest.modId
        (fun _ => none) manifest.configSchema).2 "o" = some (.string "y") ∧
      ¬ manifest.configSchema.Matches (loadModConfigStorage asciiEnv
        (some (printBytes repeatedIdStored)) none manifest.modId (fun _ => none)
        manifest.configSchema).2 ∧
      manifest.configSchema.saveModConfigStorage manifest.modId manifest.version version100
        [("o", .string "y")] = .error .variant := by
  have accepted : ∃ manifest, parseManifest asciiEnv (printBytes repeatedIdJson) = .ok manifest ∧
      manifest.modId = "m" ∧ manifest.configSchema.options
        = [⟨"o", "O", "", .enum ⟨["x"], 0⟩⟩, ⟨"o", "O", "", .string ⟨""⟩⟩] := by
    rw [parseManifest, parse_repeatedId]
    exact ⟨_, rfl, rfl, rfl⟩
  obtain ⟨manifest, accepted, modId, options⟩ := accepted
  have first : manifest.configSchema.find "o" = some ⟨"o", "O", "", .enum ⟨["x"], 0⟩⟩ := by
    rw [SchemaTable.find_eq, options]
    rfl
  have stored : (loadModConfigStorage asciiEnv (some (printBytes repeatedIdStored)) none
      manifest.modId (fun _ => none) manifest.configSchema).2 "o" = some (.string "y") := by
    rw [loadModConfigStorage, readJsonWithBackups, Option.bind_some, parse_repeatedIdStored,
      modId, options]
    rfl
  refine ⟨manifest, accepted, stored, fun matching => ?_, ?_⟩
  · exact absurd (matching "o" _ _ stored first) (by decide)
  · rw [SchemaTable.saveModConfigStorage, List.foldlM_cons, saveEntry, first]
    rfl

/-! ## Options with distinct ids -/

section Distinct

variable {schema : SchemaTable}

theorem find?_iff_mem {α : Type} {xs : List α} {p : α → Bool}
    (unique : ∀ a ∈ xs, ∀ b ∈ xs, p a = true → p b = true → a = b) (a : α) :
    xs.find? p = some a ↔ a ∈ xs ∧ p a = true := by
  constructor
  · exact fun found => ⟨List.mem_of_find?_eq_some found, List.find?_some found⟩
  · rintro ⟨mem, has⟩
    cases found : xs.find? p with
    | none => exact absurd has (List.find?_eq_none.mp found a mem)
    | some b =>
        rw [unique b (List.mem_of_find?_eq_some found) a mem (List.find?_some found) has]

theorem lastTaker_distinct (env : ManifestEnv)
    (distinct : (schema.options.map SchemaOption.id).Nodup) (id : String) (stored : Json) :
    lastTaker env schema.options id stored
      = (schema.find id).filter fun option => option.takes env stored := by
  have same_id := List.inj_on_of_nodup_map distinct
  ext option
  rw [SchemaTable.find_eq, lastTaker, find?_iff_mem, Option.filter_eq_some_iff, find?_iff_mem]
  · rw [List.mem_reverse, Bool.and_eq_true, decide_eq_true_eq, and_assoc]
  · intro a listed b listed' is_a is_b
    exact same_id listed listed' ((of_decide_eq_true is_a).trans (of_decide_eq_true is_b).symm)
  · intro a listed b listed' is_a is_b
    rw [Bool.and_eq_true, decide_eq_true_eq] at is_a is_b
    exact same_id (List.mem_reverse.mp listed) (List.mem_reverse.mp listed')
      (is_a.1.trans is_b.1.symm)

theorem SchemaOption.agrees_self (option : SchemaOption) (stored : Json) :
    option.agrees option stored := by
  unfold agrees
  cases option.variant with
  | enum e =>
      intro text index _ found
      obtain ⟨place, here, rfl⟩ := Option.map_eq_some_iff.mp found
      obtain ⟨inside, -⟩ := List.findIdx?_eq_some_iff_getElem.mp here
      rw [UInt32.toNat_ofNat']
      exact Nat.lt_of_le_of_lt (Nat.mod_le _ _) inside
  | number n => trivial
  | string t => trivial

theorem loadRight_of_distinct (env : ManifestEnv) (configJson : Option Json) (modId : String)
    (distinct : (schema.options.map SchemaOption.id).Nodup) :
    LoadRight env configJson modId schema := by
  intro members id stored first last _ _ is_first taken
  rw [lastTaker_distinct env distinct, is_first] at taken
  obtain ⟨same, -⟩ := Option.filter_eq_some_iff.mp taken
  cases same
  exact first.agrees_self stored

/-- The option reads what it writes, save for an index that has its text earlier on. -/
theorem SchemaOption.read_write_iff (env : ManifestEnv) {option : SchemaOption}
    {value : ConfigValueVariant} (accepted : option.toConfigOption.accepts value = true) :
    ((option.write value).toOption.bind fun json => option.read env json) = some value ↔
      ∀ e index, option.variant = .enum e → value = .uint32 index →
        ∀ j < index.toNat, e.options[j]? ≠ e.options[index.toNat]? := by
  unfold toConfigOption at accepted
  unfold write read
  cases kind : option.variant with
  | enum e =>
      rw [kind] at accepted
      cases value with
      | uint32 index =>
          have inside : index.toNat < e.options.length := of_decide_eq_true accepted
          dsimp only
          rw [List.getElem?_eq_getElem inside]
          change (e.indexOf e.options[index.toNat]).map ConfigValueVariant.uint32
            = some (.uint32 index) ↔ _
          constructor
          · intro back e' index' same same' j less equal
            cases same
            cases same'
            obtain ⟨found, first, is_index⟩ := Option.map_eq_some_iff.mp back
            cases is_index
            obtain ⟨place, here, is_place⟩ := Option.map_eq_some_iff.mp first
            obtain ⟨below, -, earlier⟩ := List.findIdx?_eq_some_iff_getElem.mp here
            have at_most : index.toNat ≤ place := by
              rw [← is_place, UInt32.toNat_ofNat']
              exact Nat.mod_le _ _
            have differ := earlier j (Nat.lt_of_lt_of_le less at_most)
            rw [List.getElem?_eq_getElem (Nat.lt_trans less inside),
              List.getElem?_eq_getElem inside, Option.some.injEq] at equal
            exact differ (decide_eq_true equal)
          · intro first
            have found : e.options.findIdx? (fun o => decide (o = e.options[index.toNat]))
                = some index.toNat := by
              rw [List.findIdx?_eq_some_iff_getElem]
              refine ⟨inside, decide_eq_true rfl, fun j less equal => ?_⟩
              refine first e index rfl rfl j less ?_
              rw [List.getElem?_eq_getElem (Nat.lt_trans less inside),
                List.getElem?_eq_getElem inside, of_decide_eq_true equal]
            rw [ConfigOptionEnum.indexOf, found, Option.map_some, Option.map_some,
              UInt32.ofNat_toNat]
      | _ => cases accepted
  | number n =>
      rw [kind] at accepted
      cases value with
      | double bits => exact iff_of_true rfl (fun _ _ absurd => by cases absurd)
      | _ => cases accepted
  | string t =>
      rw [kind] at accepted
      cases value with
      | string text => exact iff_of_true rfl (fun _ _ absurd => by cases absurd)
      | _ => cases accepted

theorem storedMembers_saved (modId : String) (modVersion recompVersion : SuffixedVersion)
    (storageJson : Json) :
    storedMembers (some (savedConfig modId modVersion recompVersion storageJson)) modId
      = match storageJson with
        | .object members => some members
        | _ => none := by
  have declared : ((savedConfig modId modVersion recompVersion storageJson).find "mod_id").bind
      getString = some modId := rfl
  have found : (savedConfig modId modVersion recompVersion storageJson).find "storage"
      = some storageJson := rfl
  rw [storedMembers, if_pos declared, found]
  cases storageJson <;> rfl

def SchemaTable.known (schema : SchemaTable) (storage : ConfigStorage) : ConfigStorage := fun id =>
  if (schema.find id).isSome then storage id else none

/-- What is read from members that hold the values, where no two options have one id. -/
theorem loaded_known_iff {storage : ConfigStorage} {members : List (String × Json)}
    (env : ManifestEnv) (distinct : (schema.options.map SchemaOption.id).Nodup)
    (matching : schema.Matches storage)
    (written : ∀ id option, schema.find id = some option →
      (Json.object members).find id = (storage id).bind fun value => (option.write value).toOption) :
    (fun id => ((Json.object members).find id).bind fun stored =>
        (lastTaker env schema.options id stored).bind fun option => option.read env stored)
        = schema.known storage ↔
      ∀ id option e index, schema.find id = some option → option.variant = .enum e →
        storage id = some (.uint32 index) →
        ∀ j < index.toNat, e.options[j]? ≠ e.options[index.toNat]? := by
  have loaded : ∀ id option value, schema.find id = some option → storage id = some value →
      (((Json.object members).find id).bind fun stored =>
        (lastTaker env schema.options id stored).bind fun option => option.read env stored)
        = (option.write value).toOption.bind fun json => option.read env json := by
    intro id option value known stored
    rw [written id option known, stored, Option.bind_some]
    congr 1
    funext json
    rw [lastTaker_distinct env distinct, known, Option.filter_some, ← SchemaOption.read_isSome]
    cases value : option.read env json with
    | none => rfl
    | some v => exact value
  constructor
  · intro same id option e index known kind stored
    have here := congrFun same id
    rw [loaded id option _ known stored, SchemaTable.known, known, Option.isSome_some,
      if_pos rfl, stored] at here
    exact (SchemaOption.read_write_iff env (matching id _ option stored known)).mp here e index
      kind rfl
  · intro first
    funext id
    rw [SchemaTable.known]
    cases known : schema.find id with
    | none =>
        rw [if_neg (by simp)]
        cases (Json.object members).find id with
        | none => rfl
        | some stored =>
            rw [Option.bind_some, lastTaker_distinct env distinct, known]
            rfl
    | some option =>
        rw [Option.isSome_some, if_pos rfl]
        cases stored : storage id with
        | none => rw [written id option known, stored, Option.bind_none, Option.bind_none]
        | some value =>
            rw [loaded id option value known stored]
            refine (SchemaOption.read_write_iff env (matching id _ option stored known)).mpr ?_
            rintro e index kind rfl
            exact first id option e index known kind stored

/-- The file gives the stored values back, if and only if one of their ids is in the schema
and no index has its text earlier in its list. -/
theorem config_round_trip_iff {storage : ConfigStorage}
    {entries : List (String × ConfigValueVariant)} (env : ManifestEnv) (dump : Json → List UInt8)
    (modId : String) (modVersion recompVersion : SuffixedVersion) (backup : Option (List UInt8))
    (distinct : (schema.options.map SchemaOption.id).Nodup) (matching : schema.Matches storage)
    (iterates : Iterates storage entries)
    (readsBack : ∀ json, schema.saveModConfigStorage modId modVersion recompVersion entries = .ok json →
      env.parse (dump json) = some json) :
    (∃ json, schema.saveModConfigStorage modId modVersion recompVersion entries = .ok json ∧
      loadModConfigStorage env (some (dump json)) backup modId (fun _ => none) schema
        = (true, schema.known storage))
      ↔ (∃ id, (storage id).isSome ∧ (schema.find id).isSome) ∧
        ∀ id option e index, schema.find id = some option → option.variant = .enum e →
          storage id = some (.uint32 index) →
          ∀ j < index.toNat, e.options[j]? ≠ e.options[index.toNat]? := by
  obtain ⟨storageJson, saved, assigned, null, written⟩ :=
    matching.saved iterates modId modVersion recompVersion
  have read : readJsonWithBackups env.parse (some (dump (savedConfig modId modVersion recompVersion
      storageJson))) backup = some (savedConfig modId modVersion recompVersion storageJson) := by
    rw [readJsonWithBackups, Option.bind_some, readsBack _ saved]
  have only : (∃ json, schema.saveModConfigStorage modId modVersion recompVersion entries = .ok json ∧
      loadModConfigStorage env (some (dump json)) backup modId (fun _ => none) schema
        = (true, schema.known storage))
      ↔ loadModConfigStorage env (some (dump (savedConfig modId modVersion recompVersion
          storageJson))) backup modId (fun _ => none) schema = (true, schema.known storage) := by
    rw [saved]
    simp
  rw [only, loadModConfigStorage_eq, read, storedMembers_saved]
  rcases assigned with rfl | ⟨members, rfl, -⟩
  · -- the member is `null`, and is not read
    refine iff_of_false (fun absurd => by cases absurd) ?_
    rintro ⟨⟨id, stored, known⟩, -⟩
    obtain ⟨value, stored⟩ := Option.isSome_iff_exists.mp stored
    rw [null.mp rfl id value stored] at known
    cases known
  · have some_id : ∃ id, (storage id).isSome ∧ (schema.find id).isSome := by
      by_contra unknown
      have all : ∀ id value, storage id = some value → schema.find id = none := by
        intro id value stored
        rw [← Option.not_isSome_iff_eq_none]
        exact fun known => unknown ⟨id, by rw [stored]; rfl, known⟩
      cases null.mpr all
    dsimp only
    rw [Prod.mk.injEq, and_iff_right rfl, and_iff_right some_id]
    exact loaded_known_iff env distinct matching written

/-! ## A list of two texts, and a text -/

def twoOptions : SchemaTable :=
  (SchemaTable.empty.append ⟨"o", "O", "", .enum ⟨["Low", "High"], 0⟩⟩).append
    ⟨"s", "S", "", .string ⟨""⟩⟩

def twoValues : ConfigStorage :=
  Function.update (Function.update (fun _ => none) "o" (some (.uint32 1))) "s" (some (.string "hi"))

theorem twoValues_cases {id : String} {value : ConfigValueVariant}
    (stored : twoValues id = some value) :
    (id = "s" ∧ value = .string "hi") ∨ (id = "o" ∧ value = .uint32 1) := by
  unfold twoValues at stored
  by_cases text : id = "s"
  · subst text
    rw [Function.update_self, Option.some.injEq] at stored
    exact Or.inl ⟨rfl, stored.symm⟩
  · rw [Function.update_of_ne text] at stored
    by_cases choice : id = "o"
    · subst choice
      rw [Function.update_self, Option.some.injEq] at stored
      exact Or.inr ⟨rfl, stored.symm⟩
    · rw [Function.update_of_ne choice] at stored
      cases stored

def twoSaved : Json :=
  savedConfig "m" version100 version100 (.object [("o", .string "High"), ("s", .string "hi")])

set_option maxRecDepth 8000 in
theorem parse_twoSaved : asciiEnv.parse (printBytes twoSaved) = some twoSaved := by
  rfl

theorem two_values_restored :
    ∃ json, twoOptions.saveModConfigStorage "m" version100 version100
        [("s", .string "hi"), ("o", .uint32 1)] = .ok json ∧
      loadModConfigStorage asciiEnv (some (printBytes json)) none "m" (fun _ => none) twoOptions
        = (true, twoOptions.known twoValues) := by
  have matching : twoOptions.Matches twoValues := by
    intro id value option stored found
    rcases twoValues_cases stored with ⟨rfl, rfl⟩ | ⟨rfl, rfl⟩
    · cases found
      rfl
    · cases found
      rfl
  have iterates : Iterates twoValues [("s", .string "hi"), ("o", .uint32 1)] := by
    refine ⟨by decide, fun id value => ⟨fun listed => ?_, fun stored => ?_⟩⟩
    · rcases List.mem_cons.mp listed with same | listed
      · cases same
        rfl
      · cases List.mem_singleton.mp listed
        rfl
    · rcases twoValues_cases stored with ⟨rfl, rfl⟩ | ⟨rfl, rfl⟩
      · exact List.mem_cons_self
      · exact List.mem_cons_of_mem _ List.mem_cons_self
  refine (config_round_trip_iff asciiEnv printBytes "m" version100 version100 none (by decide)
    matching iterates ?_).mpr ⟨⟨"o", rfl, rfl⟩, ?_⟩
  · intro json saved
    cases saved
    exact parse_twoSaved
  · intro id option e index found kind stored
    rcases twoValues_cases stored with ⟨rfl, same⟩ | ⟨rfl, same⟩
    · cases same
    · cases same
      cases found
      cases kind
      decide

/-- The member of an empty storage is `null`, and such a file is turned away. -/
theorem empty_storage_not_read :
    ∃ json, twoOptions.saveModConfigStorage "m" version100 version100 [] = .ok json ∧
      Iterates (fun _ => none) [] ∧
      ∀ (env : ManifestEnv) (text : List UInt8), env.parse text = some json →
        loadModConfigStorage env (some text) none "m" (fun _ => none) twoOptions
          = (false, fun _ => none) := by
  refine ⟨_, rfl, ⟨List.nodup_nil, fun id value => iff_of_false List.not_mem_nil (nomatch ·)⟩,
    fun env text reads => ?_⟩
  rw [loadModConfigStorage_eq, readJsonWithBackups, Option.bind_some, reads, storedMembers_saved]

end Distinct

end N64ModernRuntime.Librecomp
