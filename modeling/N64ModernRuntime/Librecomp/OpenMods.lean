import N64ModernRuntime.Librecomp.StoredConfig

/-!
# mod_manifest.cpp: open_mod_from_manifest

A call parses the manifest of a mod, or makes a default one, checks its id and
its games, and puts the mod into the tables.  The id goes into `mod_ids` between
the two checks.
-/

set_option autoImplicit false

namespace N64ModernRuntime.Librecomp

/-- A `ModFileHandle` with the path that it was opened from. -/
structure ModFile where
  readFile : String → Option (List UInt8)
  fileExists : String → Bool
  /-- `filename()` and `stem()` of the path -/
  filename : String
  stem : String

structure OpenCall where
  file : ModFile
  supportedContentTypes : List ModContentTypeId
  requiresManifest : Bool

structure OpenEnv where
  manifests : ManifestEnv
  contentFilename : ModContentTypeId → String
  /-- the configuration file of a mod, and its backup -/
  configFile : String → Option (List UInt8)
  configBackup : String → Option (List UInt8)

structure ModTables where
  context : ModContext
  /-- the keys of `mod_game_ids`, as the map lists them -/
  gameIds : List String
  gameIds_known : ∀ id ∈ gameIds, (context.modGameIds id).isSome
  openedModsById : String → Option Nat
  openedModsByFilename : String → Option Nat

def defaultManifest (gameIds : List String) (stem : String) : ManifestFields where
  modGameIds := gameIds
  modId := stem
  displayName := stem
  description := ""
  shortDescription := ""
  authors := ["Unknown"]
  dependencies := []
  dependenciesById := fun _ => none
  configSchema := .empty
  minimumRecompVersion := ⟨⟨0, 0, 0⟩, []⟩
  version := ⟨⟨0, 0, 0⟩, []⟩
  enabledByDefault := true
  nativeLibraries := []

namespace ModTables

def modIds (t : ModTables) : Finset String := t.context.modIds

def openedMods (t : ModTables) : List ModHandle := t.context.openedMods

def closeMods (t : ModTables) : ModTables :=
  { t with
    context := t.context.closeMods
    openedModsById := fun _ => none
    openedModsByFilename := fun _ => none }

def manifestOf (t : ModTables) (env : OpenEnv) (call : OpenCall) : OpenResult ManifestFields :=
  match call.file.readFile "mod.json" with
  | none =>
    if call.requiresManifest then throw (.noManifest, "")
    else pure (defaultManifest t.gameIds call.file.stem)
  | some manifestData => parseManifest env.manifests manifestData

/-- The indices of the games; the error is the first id that is not known. -/
def findGames (t : ModTables) (modGameIds : List String) : OpenResult (List Nat) :=
  modGameIds.mapM fun id =>
    match t.context.modGameIds id with
    | none => throw (.wrongGame, id)
    | some index => pure index

def detectContentTypes (t : ModTables) (env : OpenEnv) (call : OpenCall) : List ModContentTypeId :=
  (if call.supportedContentTypes = [] then List.range t.context.contentTypes.length
    else call.supportedContentTypes).filter fun type => call.file.fileExists (env.contentFilename type)

def addOpenedMod (t : ModTables) (manifest : ManifestFields) (filename : String)
    (configStorage : ConfigStorage) (gameIndices : List Nat) (contentTypes : List ModContentTypeId) :
    ModTables :=
  { t with
    context := t.context.addOpenedMod manifest.toModManifest configStorage gameIndices contentTypes
    openedModsById := emplace t.openedModsById manifest.modId t.context.openedMods.length
    openedModsByFilename := emplace t.openedModsByFilename filename t.context.openedMods.length }

def takeId (t : ModTables) (id : String) : ModTables :=
  { t with context := { t.context with modIds := insert id t.context.modIds } }

def openWith (t : ModTables) (env : OpenEnv) (call : OpenCall) (manifest : ManifestFields) :
    OpenResult Unit × ModTables :=
  if manifest.modId ∈ t.modIds then (throw (.duplicateMod, manifest.modId), t)
  else
    let taken := t.takeId manifest.modId
    match taken.findGames manifest.modGameIds with
    | .error e => (throw e, taken)
    | .ok gameIndices =>
      let configStorage := (loadModConfigStorage env.manifests (env.configFile manifest.modId)
        (env.configBackup manifest.modId) manifest.modId (fun _ => none) manifest.configSchema).2
      (pure (), taken.addOpenedMod manifest call.file.filename configStorage gameIndices
        (taken.detectContentTypes env call))

def openModFromManifest (t : ModTables) (env : OpenEnv) (call : OpenCall) :
    OpenResult Unit × ModTables :=
  match t.manifestOf env call with
  | .error e => (throw e, t)
  | .ok manifest => t.openWith env call manifest

/-- `mod_ids` has the ids of the opened mods, and the map leads to their indices. -/
structure Clean (t : ModTables) : Prop where
  ids : ∀ id, id ∈ t.modIds ↔ ∃ mod ∈ t.openedMods, mod.modId = id
  byId : ∀ (i : Nat) mod, t.openedMods[i]? = some mod → t.openedModsById mod.modId = some i

/-- The call leaves clean tables; after an error they are as they were, and a mod that is
turned away as a duplicate has the id of an opened one. -/
structure Traceless (env : OpenEnv) (t : ModTables) (call : OpenCall) : Prop where
  clean : (t.openModFromManifest env call).2.Clean
  failed : ∀ e, (t.openModFromManifest env call).1 = .error e →
    (t.openModFromManifest env call).2.modIds = t.modIds ∧
    (t.openModFromManifest env call).2.openedMods = t.openedMods ∧
    (t.openModFromManifest env call).2.openedModsById = t.openedModsById
  duplicate : ∀ id, (t.openModFromManifest env call).1 = .error (.duplicateMod, id) →
    (∃ manifest, t.manifestOf env call = .ok manifest ∧ manifest.modId = id) ∧
    ∃ mod ∈ t.openedMods, mod.modId = id

def GamesKnown (env : OpenEnv) (t : ModTables) (call : OpenCall) : Prop :=
  ∀ manifest, t.manifestOf env call = .ok manifest →
    (∃ mod ∈ t.openedMods, mod.modId = manifest.modId) ∨
      ∀ id ∈ manifest.modGameIds, (t.context.modGameIds id).isSome

def EachCall (P : ModTables → OpenCall → Prop) (env : OpenEnv) : ModTables → List OpenCall → Prop
  | _, [] => True
  | t, call :: calls => P t call ∧ EachCall P env (t.openModFromManifest env call).2 calls

/-! ## The outcomes of a call -/

variable {t : ModTables} {env : OpenEnv} {call : OpenCall}

theorem findGames_cons (t : ModTables) (id : String) (ids : List String) :
    t.findGames (id :: ids)
      = match t.context.modGameIds id with
        | none => .error (.wrongGame, id)
        | some index => (index :: ·) <$> t.findGames ids := by
  rw [findGames, List.mapM_cons]
  cases t.context.modGameIds id with
  | none => rfl
  | some index => rfl

theorem findGames_known {ids : List String}
    (known : ∀ id ∈ ids, (t.context.modGameIds id).isSome) :
    ∃ indices, t.findGames ids = .ok indices := by
  induction ids with
  | nil => exact ⟨[], rfl⟩
  | cons id ids ih =>
      obtain ⟨index, here⟩ := Option.isSome_iff_exists.mp (known id List.mem_cons_self)
      obtain ⟨indices, rest⟩ := ih fun other listed => known other (List.mem_cons_of_mem id listed)
      exact ⟨index :: indices, by rw [findGames_cons, here, rest]; rfl⟩

theorem findGames_unknown {ids : List String}
    (unknown : ∃ id ∈ ids, t.context.modGameIds id = none) :
    ∃ id, t.findGames ids = .error (.wrongGame, id) := by
  induction ids with
  | nil =>
      obtain ⟨id, listed, -⟩ := unknown
      cases listed
  | cons id ids ih =>
      rw [findGames_cons]
      cases here : t.context.modGameIds id with
      | none => exact ⟨id, rfl⟩
      | some index =>
          obtain ⟨other, listed, none⟩ := unknown
          rcases List.mem_cons.mp listed with rfl | listed
          · rw [here] at none
            cases none
          · obtain ⟨first, rest⟩ := ih ⟨other, listed, none⟩
            exact ⟨first, by rw [rest]; rfl⟩

/-- The search for the games is that of the model without error texts. -/
theorem findGames_toOption (t : ModTables) (ids : List String) :
    (t.findGames ids).toOption = ids.mapM t.context.modGameIds := by
  induction ids with
  | nil => rfl
  | cons id ids ih =>
      rw [findGames_cons, List.mapM_cons]
      cases t.context.modGameIds id with
      | none => rfl
      | some index =>
          rw [← ih]
          cases t.findGames ids <;> rfl

theorem openWith_context (t : ModTables) (env : OpenEnv) (call : OpenCall)
    (manifest : ManifestFields) :
    (t.openWith env call manifest).2.context
      = t.context.openModFromManifest manifest.toModManifest manifest.modGameIds
          ((t.takeId manifest.modId).detectContentTypes env call)
          (loadModConfigStorage env.manifests (env.configFile manifest.modId)
            (env.configBackup manifest.modId) manifest.modId (fun _ => none)
            manifest.configSchema).2 := by
  have games := (t.takeId manifest.modId).findGames_toOption manifest.modGameIds
  change _ = manifest.modGameIds.mapM t.context.modGameIds at games
  rw [openWith, ModContext.openModFromManifest, ← games]
  by_cases taken : manifest.modId ∈ t.modIds
  · rw [if_pos taken]
    exact (if_pos taken).symm
  · rw [if_neg taken]
    refine Eq.trans ?_ (if_neg taken).symm
    dsimp only
    cases (t.takeId manifest.modId).findGames manifest.modGameIds <;> rfl

theorem manifestOf_error {e : ModOpenError × String} (failed : t.manifestOf env call = .error e) :
    e.1 ≠ .duplicateMod := by
  unfold manifestOf at failed
  cases data : call.file.readFile "mod.json" with
  | none =>
      rw [data] at failed
      dsimp only at failed
      by_cases required : call.requiresManifest = true
      · rw [if_pos required] at failed
        cases failed
        decide
      · rw [if_neg required] at failed
        cases failed
  | some manifestData =>
      rw [data] at failed
      intro duplicate
      have own := parseManifest_ofManifest env.manifests manifestData e failed
      rw [duplicate] at own
      cases own

theorem openModFromManifest_cases (t : ModTables) (env : OpenEnv) (call : OpenCall) :
    (∃ e, e.1 ≠ ModOpenError.duplicateMod ∧ t.manifestOf env call = .error e ∧
      t.openModFromManifest env call = (.error e, t)) ∨
    ∃ manifest, t.manifestOf env call = .ok manifest ∧
      ((manifest.modId ∈ t.modIds ∧
          t.openModFromManifest env call = (.error (.duplicateMod, manifest.modId), t)) ∨
        (manifest.modId ∉ t.modIds ∧ (∃ id ∈ manifest.modGameIds, t.context.modGameIds id = none) ∧
          ∃ id, t.openModFromManifest env call
            = (.error (.wrongGame, id), t.takeId manifest.modId)) ∨
        (manifest.modId ∉ t.modIds ∧
          (∀ id ∈ manifest.modGameIds, (t.context.modGameIds id).isSome) ∧
          ∃ configStorage gameIndices contentTypes, t.openModFromManifest env call
            = (.ok (), (t.takeId manifest.modId).addOpenedMod manifest call.file.filename
                configStorage gameIndices contentTypes))) := by
  unfold openModFromManifest
  cases read : t.manifestOf env call with
  | error e => exact Or.inl ⟨e, manifestOf_error read, rfl, rfl⟩
  | ok manifest =>
      refine Or.inr ⟨manifest, rfl, ?_⟩
      dsimp only
      unfold openWith
      by_cases taken : manifest.modId ∈ t.modIds
      · exact Or.inl ⟨taken, if_pos taken⟩
      · rw [if_neg taken]
        by_cases unknown : ∃ id ∈ manifest.modGameIds, t.context.modGameIds id = none
        · obtain ⟨id, failed⟩ := findGames_unknown (t := t.takeId manifest.modId) unknown
          refine Or.inr (Or.inl ⟨taken, unknown, id, ?_⟩)
          dsimp only
          rw [failed]
          rfl
        · have known : ∀ id ∈ manifest.modGameIds, (t.context.modGameIds id).isSome := by
            intro id listed
            rw [Option.isSome_iff_ne_none]
            exact fun none => unknown ⟨id, listed, none⟩
          obtain ⟨indices, found⟩ := findGames_known (t := t.takeId manifest.modId) known
          refine Or.inr (Or.inr ⟨taken, known, ?_⟩)
          dsimp only
          rw [found]
          exact ⟨_, indices, _, rfl⟩

/-! ## Clean tables -/

structure Exact (t : ModTables) : Prop where
  clean : t.Clean
  opened : ∀ id i, t.openedModsById id = some i → ∃ mod ∈ t.openedMods, mod.modId = id

theorem closeMods_exact (t : ModTables) : t.closeMods.Exact := by
  refine ⟨⟨fun id => ?_, fun i mod here => ?_⟩, fun id i found => ?_⟩
  · exact iff_of_false (Finset.notMem_empty id) (by rintro ⟨mod, opened, -⟩; cases opened)
  · cases here
  · cases found

theorem addOpenedMod_exact (exact_ : t.Exact) {manifest : ManifestFields}
    (fresh : manifest.modId ∉ t.modIds) (filename : String) (configStorage : ConfigStorage)
    (gameIndices : List Nat) (contentTypes : List ModContentTypeId) :
    ((t.takeId manifest.modId).addOpenedMod manifest filename configStorage gameIndices
      contentTypes).Exact := by
  obtain ⟨⟨ids, byId⟩, opened⟩ := exact_
  obtain ⟨new, mods, new_id⟩ : ∃ new : ModHandle,
      ((t.takeId manifest.modId).addOpenedMod manifest filename configStorage gameIndices
        contentTypes).openedMods = t.openedMods ++ [new] ∧ new.modId = manifest.modId :=
    ⟨_, rfl, rfl⟩
  have map : ((t.takeId manifest.modId).addOpenedMod manifest filename configStorage gameIndices
      contentTypes).openedModsById
        = emplace t.openedModsById manifest.modId t.openedMods.length := rfl
  have unmapped : t.openedModsById manifest.modId = none := by
    cases found : t.openedModsById manifest.modId with
    | none => rfl
    | some i => exact absurd ((ids _).mpr (opened _ i found)) fresh
  refine ⟨⟨fun id => ?_, fun i mod here => ?_⟩, fun id i found => ?_⟩
  · rw [mods]
    change id ∈ insert manifest.modId t.modIds ↔ _
    rw [Finset.mem_insert, ids]
    constructor
    · rintro (rfl | ⟨mod, listed, same⟩)
      · exact ⟨new, List.mem_append_right _ List.mem_cons_self, new_id⟩
      · exact ⟨mod, List.mem_append_left _ listed, same⟩
    · rintro ⟨mod, listed, rfl⟩
      rcases List.mem_append.mp listed with listed | listed
      · exact Or.inr ⟨mod, listed, rfl⟩
      · rw [List.mem_singleton.mp listed]
        exact Or.inl new_id
  · rw [mods] at here
    rw [map]
    by_cases old : i < t.openedMods.length
    · rw [List.getElem?_append_left old] at here
      have apart : mod.modId ≠ manifest.modId := by
        intro same
        exact fresh (same ▸ (ids _).mpr ⟨mod, List.mem_of_getElem? here, rfl⟩)
      rw [emplace_of_ne _ _ apart]
      exact byId i mod here
    · rw [List.getElem?_append_right (Nat.le_of_not_lt old)] at here
      obtain ⟨last, same⟩ := List.getElem?_eq_some_iff.mp here
      rw [List.length_singleton, Nat.lt_one_iff] at last
      have is_new : mod = new := by
        rw [← same]
        simp [last]
      rw [is_new, new_id, emplace_self, unmapped, Option.none_or]
      congr 1
      omega
  · rw [map] at found
    rw [mods]
    by_cases same : id = manifest.modId
    · exact ⟨new, List.mem_append_right _ List.mem_cons_self, new_id.trans same.symm⟩
    · rw [emplace_of_ne _ _ same] at found
      obtain ⟨mod, listed, same_id⟩ := opened id i found
      exact ⟨mod, List.mem_append_left _ listed, same_id⟩

/-- A call that finds its games, or no free id, leaves no trace of an error. -/
theorem gamesKnown_traceless (exact_ : t.Exact) (known : GamesKnown env t call) :
    Traceless env t call ∧ (t.openModFromManifest env call).2.Exact := by
  rcases t.openModFromManifest_cases env call with ⟨e, other, -, result⟩ | ⟨manifest, read, outcome⟩
  · rw [result]
    refine ⟨⟨?_, ?_, ?_⟩, exact_⟩
    · rw [result]
      exact exact_.clean
    · rw [result]
      exact fun _ _ => ⟨rfl, rfl, rfl⟩
    · rw [result]
      intro id duplicate
      cases duplicate
      exact absurd rfl other
  · rcases outcome with ⟨taken, result⟩ | ⟨fresh, unknown, -⟩ | ⟨fresh, -, _, _, _, result⟩
    · rw [result]
      refine ⟨⟨?_, ?_, ?_⟩, exact_⟩
      · rw [result]
        exact exact_.clean
      · rw [result]
        exact fun _ _ => ⟨rfl, rfl, rfl⟩
      · rw [result]
        intro id duplicate
        cases duplicate
        exact ⟨⟨manifest, read, rfl⟩, (exact_.clean.ids _).mp taken⟩
    · rcases known manifest read with opened | all
      · exact absurd ((exact_.clean.ids _).mpr opened) fresh
      · obtain ⟨id, listed, none⟩ := unknown
        have some := all id listed
        rw [none] at some
        cases some
    · have after := addOpenedMod_exact exact_ fresh call.file.filename
      rw [result]
      refine ⟨⟨?_, ?_, ?_⟩, after _ _ _⟩
      · rw [result]
        exact (after _ _ _).clean
      · rw [result]
        intro e absurd
        cases absurd
      · rw [result]
        intro id absurd
        cases absurd

/-- A free id with a game that is not known stays behind in `mod_ids`. -/
theorem traceless_gamesKnown (exact_ : t.Exact) (traceless : Traceless env t call) :
    GamesKnown env t call := by
  intro manifest read
  rcases t.openModFromManifest_cases env call with ⟨e, -, failed, -⟩ | ⟨manifest', read', outcome⟩
  · rw [read] at failed
    cases failed
  · cases read.symm.trans read'
    rcases outcome with ⟨taken, -⟩ | ⟨fresh, -, id, result⟩ | ⟨-, all, -⟩
    · exact Or.inl ((exact_.clean.ids _).mp taken)
    · obtain ⟨same, -, -⟩ := traceless.failed (.wrongGame, id) (by rw [result])
      rw [result] at same
      have reserved : manifest.modId ∈ (t.takeId manifest.modId).modIds :=
        Finset.mem_insert_self _ _
      rw [same] at reserved
      exact absurd reserved fresh
    · exact Or.inr all

theorem eachCall_iff (exact_ : t.Exact) (calls : List OpenCall) :
    EachCall (Traceless env) env t calls ↔ EachCall (GamesKnown env) env t calls := by
  induction calls generalizing t with
  | nil => exact Iff.rfl
  | cons call calls ih =>
      constructor
      · rintro ⟨traceless, rest⟩
        have known := traceless_gamesKnown exact_ traceless
        exact ⟨known, (ih (gamesKnown_traceless exact_ known).2).mp rest⟩
      · rintro ⟨known, rest⟩
        obtain ⟨traceless, exact'⟩ := gamesKnown_traceless exact_ known
        exact ⟨traceless, (ih exact').mpr rest⟩

/-- In one scan, failed calls leave no trace, if and only if every manifest that is read
names an opened mod or known games alone. -/
theorem open_traceless_iff (t : ModTables) (env : OpenEnv) (calls : List OpenCall) :
    EachCall (Traceless env) env t.closeMods calls
      ↔ EachCall (GamesKnown env) env t.closeMods calls :=
  eachCall_iff t.closeMods_exact calls

/-! ## A mod of another game, and one with its id -/

def manifestJson (gameId : String) : Json :=
  .object
    [("game_id", .string gameId), ("id", .string "m"), ("display_name", .string "M"),
      ("version", .string "1.0.0"), ("authors", .array [.string "A"]),
      ("minimum_recomp_version", .string "1.0.0")]

def callOf (gameId : String) : OpenCall where
  file :=
    { readFile := fun path => if path = "mod.json" then some (printBytes (manifestJson gameId)) else none
      fileExists := fun path => path = "mod.json"
      filename := gameId ++ ".nrm"
      stem := gameId }
  supportedContentTypes := []
  requiresManifest := true

def scanEnv : OpenEnv := ⟨asciiEnv, fun _ => "mod_binary.bin", fun _ => none, fun _ => none⟩

def oneGame : ModTables where
  context := ⟨[], fun id => if id = "g" then some 0 else none, [], [], [], ∅, ∅, ∅, none, []⟩
  gameIds := ["g"]
  gameIds_known := by decide
  openedModsById _ := none
  openedModsByFilename _ := none

set_option maxRecDepth 8000 in
theorem parse_manifestJson (gameId : String) (short : gameId = "g" ∨ gameId = "h") :
    asciiEnv.parse (printBytes (manifestJson gameId)) = some (manifestJson gameId) := by
  rcases short with rfl | rfl
  · rfl
  · rfl

theorem manifestOf_callOf (t : ModTables) (gameId : String) (short : gameId = "g" ∨ gameId = "h") :
    ∃ manifest, t.manifestOf scanEnv (callOf gameId) = .ok manifest ∧ manifest.modId = "m" ∧
      manifest.modGameIds = [gameId] := by
  have read : (callOf gameId).file.readFile "mod.json" = some (printBytes (manifestJson gameId)) := by
    simp [callOf]
  rw [manifestOf, read]
  change ∃ manifest, parseManifest asciiEnv (printBytes (manifestJson gameId)) = .ok manifest ∧ _
  rw [parseManifest, parse_manifestJson gameId short]
  rcases short with rfl | rfl
  · exact ⟨_, rfl, rfl, rfl⟩
  · exact ⟨_, rfl, rfl, rfl⟩

/-- The mod of the game "h" fails and its id stays, so the mod of "g" is a duplicate of none. -/
theorem wrong_game_reserves :
    (oneGame.openModFromManifest scanEnv (callOf "h")).1 = .error (.wrongGame, "h") ∧
      "m" ∈ (oneGame.openModFromManifest scanEnv (callOf "h")).2.modIds ∧
      (oneGame.openModFromManifest scanEnv (callOf "h")).2.openedMods = [] ∧
      ((oneGame.openModFromManifest scanEnv (callOf "h")).2.openModFromManifest scanEnv
        (callOf "g")).1 = .error (.duplicateMod, "m") ∧
      (oneGame.openModFromManifest scanEnv (callOf "g")).1 = .ok () := by
  obtain ⟨other, readOther, otherId, otherGames⟩ :=
    manifestOf_callOf oneGame "h" (Or.inr rfl)
  obtain ⟨good, readGood, goodId, goodGames⟩ :=
    manifestOf_callOf oneGame "g" (Or.inl rfl)
  have failed : oneGame.openModFromManifest scanEnv (callOf "h")
      = (.error (.wrongGame, "h"), oneGame.takeId "m") := by
    rw [openModFromManifest, readOther]
    dsimp only
    rw [openWith, otherId, otherGames, if_neg (by decide)]
    rfl
  obtain ⟨again, readAgain, againId, -⟩ :=
    manifestOf_callOf (oneGame.takeId "m") "g" (Or.inl rfl)
  rw [failed]
  refine ⟨rfl, by decide, rfl, ?_, ?_⟩
  · rw [openModFromManifest, readAgain]
    dsimp only
    rw [openWith, againId, if_pos (by decide)]
    rfl
  · rw [openModFromManifest, readGood]
    dsimp only
    rw [openWith, goodId, goodGames, if_neg (by decide)]
    rfl

end ModTables

end N64ModernRuntime.Librecomp
