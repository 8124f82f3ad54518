import N64ModernRuntime.Lib.JsonText
import N64ModernRuntime.Lib.StdSort
import N64ModernRuntime.Librecomp.ModConfigThread

/-!
# mods.cpp: the order of the mods in a file

`save_mods_config` writes the ids of the opened mods in their order, and
`load_mods_config` gives every opened mod a sort key: its index, or for a mod
that the file names the place of its last mention, behind all indices.  How a
JSON value is written as text and read back belongs to a library; here it is a
pair of functions.
-/

set_option autoImplicit false

namespace N64ModernRuntime.Librecomp

def getString : Json → Option String
  | .string s => some s
  | _ => none

/-- `get_to_vec`: one element of another kind, and nothing is taken. -/
def getToVec {α : Type} (get : Json → Option α) : Json → Option (List α)
  | .array elements => elements.mapM get
  | _ => none

section Files

variable {Text : Type}

/-- `read_json_with_backups`; `none` is a file that does not open. -/
def readJsonWithBackups (parse : Text → Option Json) (file backup : Option Text) : Option Json :=
  match file.bind parse with
  | some json => some json
  | none => backup.bind parse

/-- A field that is a list of strings, and `[]` where there is none. -/
def stringsAt (json : Json) (key : String) : List String :=
  ((json.find key).bind (getToVec getString)).getD []

def parseModsConfig (parse : Text → Option Json) (file backup : Option Text) :
    ModContext.ModsConfig :=
  match readJsonWithBackups parse file backup with
  | none => ⟨∅, []⟩
  | some json => ⟨(stringsAt json "enabled_mods").toFinset, stringsAt json "mod_order"⟩

def saveModsConfig (order : SetOrder) (config : ModContext.ModsConfig) : Json :=
  .object
    [("enabled_mods", .array ((order.list config.enabledMods).map .string)),
      ("mod_order", .array (config.modOrder.map .string))]

theorem getToVec_strings (strings : List String) :
    getToVec getString (.array (strings.map .string)) = some strings := by
  unfold getToVec
  dsimp only
  induction strings with
  | nil => rfl
  | cons s strings ih =>
      rw [List.map_cons, List.mapM_cons, ih]
      rfl

theorem parse_saveModsConfig (parse : Text → Option Json) (order : SetOrder)
    (config : ModContext.ModsConfig) (text : Text) (backup : Option Text)
    (readsBack : parse text = some (saveModsConfig order config)) :
    parseModsConfig parse (some text) backup = config := by
  have json : readJsonWithBackups parse (some text) backup = some (saveModsConfig order config) := by
    rw [readJsonWithBackups, Option.bind_some, readsBack]
  have enabled : stringsAt (saveModsConfig order config) "enabled_mods"
      = order.list config.enabledMods := by
    rw [stringsAt]
    change ((some _).bind (getToVec getString)).getD [] = _
    rw [Option.bind_some, getToVec_strings]
    rfl
  have named : stringsAt (saveModsConfig order config) "mod_order" = config.modOrder := by
    rw [stringsAt]
    change ((some _).bind (getToVec getString)).getD [] = _
    rw [Option.bind_some, getToVec_strings]
    rfl
  have same_set : (order.list config.enabledMods).toFinset = config.enabledMods := by
    ext id
    rw [List.mem_toFinset, order.mem]
  rw [parseModsConfig, json]
  dsimp only
  rw [enabled, named, same_set]

end Files

namespace ModContext

variable {c : ModContext}

/-! ## The order that a list of names asks for -/

def isNamed (c : ModContext) (names : List String) (modIndex : Nat) : Bool :=
  (c.idAt modIndex).any (· ∈ names)

def newMods (c : ModContext) (names : List String) : List Nat :=
  (List.range c.openedMods.length).filter fun modIndex => !c.isNamed names modIndex

/-- The mods that the list names, each where it names it last; `dedup` keeps the
last of equal entries. -/
def namedMods (c : ModContext) (names : List String) : List Nat :=
  names.dedup.filterMap c.openedModsById

def orderedIds (c : ModContext) : List String := c.openedModsOrder.filterMap c.idAt

structure Opened (c : ModContext) : Prop where
  distinct : (c.openedMods.map ModHandle.modId).Nodup
  listed : c.openedModsOrder.length = c.openedMods.length

theorem openedModsById_iff (distinct : (c.openedMods.map ModHandle.modId).Nodup) (id : String)
    (modIndex : Nat) : c.openedModsById id = some modIndex ↔ c.idAt modIndex = some id := by
  constructor
  · intro found
    obtain ⟨mod, here, same⟩ := openedModsById_lt found
    rw [idAt, here, Option.map_some, same]
  · intro at_index
    obtain ⟨mod, here, same⟩ := Option.map_eq_some_iff.mp at_index
    have opened : mod ∈ c.openedMods := List.mem_of_getElem? here
    cases found : c.openedModsById id with
    | none =>
        have absent := List.findIdx?_eq_none_iff.mp found mod opened
        simp [same] at absent
    | some other =>
        obtain ⟨mod', here', same'⟩ := openedModsById_lt found
        have at_other : c.idAt other = some id := by
          rw [idAt, here', Option.map_some, same']
        rw [idAt_injective distinct at_other at_index]

theorem idAt_lt {modIndex : Nat} {id : String} (at_index : c.idAt modIndex = some id) :
    modIndex < c.openedMods.length := by
  obtain ⟨mod, here, -⟩ := Option.map_eq_some_iff.mp at_index
  exact (List.getElem?_eq_some_iff.mp here).1

theorem mem_namedMods (distinct : (c.openedMods.map ModHandle.modId).Nodup) (names : List String)
    (modIndex : Nat) : modIndex ∈ c.namedMods names ↔ c.isNamed names modIndex = true := by
  rw [namedMods, List.mem_filterMap]
  constructor
  · rintro ⟨id, named, found⟩
    have at_index := (openedModsById_iff distinct id modIndex).mp found
    rw [isNamed, at_index, Option.any_some]
    exact decide_eq_true (List.mem_dedup.mp named)
  · intro named
    cases at_index : c.idAt modIndex with
    | none =>
        rw [isNamed, at_index] at named
        contradiction
    | some id =>
        rw [isNamed, at_index, Option.any_some, decide_eq_true_eq] at named
        exact ⟨id, List.mem_dedup.mpr named, (openedModsById_iff distinct id modIndex).mpr at_index⟩

/-! ## The keys -/

def keyAt (keys : List Nat) (modIndex : Nat) : Nat := keys[modIndex]?.getD 0

def fillKeys (c : ModContext) (count : Nat) (names : List String) (place : Nat)
    (keys : List Nat) : List Nat :=
  (names.zipIdx place).foldl (fun keys entry =>
    match c.openedModsById entry.1 with
    | none => keys
    | some modIndex => keys.set modIndex (count + entry.2)) keys

theorem relativeOrder_eq (c : ModContext) (config : ModsConfig) :
    c.relativeOrder config
      = c.fillKeys c.openedMods.length config.modOrder 0 (List.range c.openedMods.length) := rfl

theorem fillKeys_cons (c : ModContext) (count : Nat) (name : String) (names : List String)
    (place : Nat) (keys : List Nat) :
    c.fillKeys count (name :: names) place keys
      = c.fillKeys count names (place + 1)
          (match c.openedModsById name with
            | none => keys
            | some modIndex => keys.set modIndex (count + place)) := by
  rw [fillKeys, List.zipIdx_cons, List.foldl_cons]
  rfl

theorem fillKeys_new (count : Nat) (names : List String) {modIndex : Nat}
    (new : ∀ name ∈ names, c.openedModsById name ≠ some modIndex) (place : Nat) (keys : List Nat) :
    keyAt (c.fillKeys count names place keys) modIndex = keyAt keys modIndex := by
  induction names generalizing place keys with
  | nil => rfl
  | cons name names ih =>
      rw [fillKeys_cons, ih fun other listed => new other (List.mem_cons_of_mem name listed)]
      have away := new name List.mem_cons_self
      cases found : c.openedModsById name with
      | none => rfl
      | some other =>
          rw [found, ne_eq, Option.some.injEq] at away
          dsimp only [keyAt]
          rw [List.getElem?_set_ne away]

/-- The keys of the named mods grow along the order of their last mentions. -/
theorem fillKeys_named (distinct : (c.openedMods.map ModHandle.modId).Nodup) (count : Nat)
    (names : List String) (place : Nat) (keys : List Nat)
    (long : keys.length = c.openedMods.length) :
    (c.namedMods names).Pairwise (fun a b =>
        keyAt (c.fillKeys count names place keys) a < keyAt (c.fillKeys count names place keys) b) ∧
      ∀ a ∈ c.namedMods names, count + place ≤ keyAt (c.fillKeys count names place keys) a := by
  induction names generalizing place keys with
  | nil => exact ⟨List.Pairwise.nil, fun a named => by simp [namedMods] at named⟩
  | cons name names ih =>
      have long' : (match c.openedModsById name with
          | none => keys
          | some modIndex => keys.set modIndex (count + place)).length = c.openedMods.length := by
        cases c.openedModsById name with
        | none => exact long
        | some modIndex =>
            dsimp only
            rw [List.length_set, long]
      obtain ⟨grow, above⟩ := ih (place + 1) _ long'
      rw [← fillKeys_cons] at grow above
      by_cases again : name ∈ names
      · -- a later mention decides
        have same : c.namedMods (name :: names) = c.namedMods names := by
          rw [namedMods, List.dedup_cons_of_mem again, namedMods]
        rw [same]
        refine ⟨grow, fun a named => ?_⟩
        have high := above a named
        omega
      · have split : c.namedMods (name :: names)
            = (c.openedModsById name).toList ++ c.namedMods names := by
          rw [namedMods, List.dedup_cons_of_notMem again, List.filterMap_cons, namedMods]
          cases c.openedModsById name <;> rfl
        cases found : c.openedModsById name with
        | none =>
            rw [split, found]
            refine ⟨grow, fun a named => ?_⟩
            have high := above a named
            omega
        | some modIndex =>
            have here : keyAt (c.fillKeys count (name :: names) place keys) modIndex
                = count + place := by
              rw [fillKeys_cons, fillKeys_new]
              · have inside : modIndex < keys.length := by
                  rw [long]
                  exact idAt_lt ((openedModsById_iff distinct name modIndex).mp found)
                rw [found, keyAt, List.getElem?_set_self inside, Option.getD_some]
              · intro other listed found'
                have first := (openedModsById_iff distinct name modIndex).mp found
                have second := (openedModsById_iff distinct other modIndex).mp found'
                rw [first, Option.some.injEq] at second
                exact again (second ▸ listed)
            rw [split, found]
            refine ⟨List.pairwise_cons.mpr ⟨fun a named => ?_, grow⟩, fun a named => ?_⟩
            · have high := above a named
              omega
            · rcases List.mem_cons.mp named with rfl | named
              · exact Nat.le_of_eq here.symm
              · have high := above a named
                omega

/-- The comparator of `std::sort`. -/
def keyBefore (keys : List Nat) (lhs rhs : Nat) : Bool := decide (keyAt keys lhs < keyAt keys rhs)

theorem keyBefore_weak (keys : List Nat) : StdSort.StrictWeak (keyBefore keys) :=
  .of_key fun _ _ => rfl

theorem sortByKeys_sorted (keys : List Nat) (count : Nat) :
    StdSort.Sorted (keyBefore keys) (sortByKeys keys count) := by
  have total : Std.Total fun lhs rhs : Nat => keys[lhs]?.getD 0 ≤ keys[rhs]?.getD 0 :=
    ⟨fun lhs rhs => Nat.le_total _ _⟩
  have transitive : IsTrans Nat fun lhs rhs => keys[lhs]?.getD 0 ≤ keys[rhs]?.getD 0 :=
    ⟨fun _ _ _ first second => Nat.le_trans first second⟩
  refine List.Pairwise.imp ?_ (List.pairwise_insertionSort _ (List.range count))
  intro lhs rhs ordered
  exact decide_eq_false (Nat.not_lt.mpr ordered)

/-- The new mods in index order, and behind them the named ones. -/
theorem keys_grow (distinct : (c.openedMods.map ModHandle.modId).Nodup) (config : ModsConfig) :
    (c.newMods config.modOrder ++ c.namedMods config.modOrder).Pairwise fun a b =>
      keyBefore (c.relativeOrder config) a b = true := by
  have new_key : ∀ a ∈ c.newMods config.modOrder, keyAt (c.relativeOrder config) a = a ∧
      a < c.openedMods.length := by
    intro a new
    obtain ⟨inside, unnamed⟩ := List.mem_filter.mp new
    rw [List.mem_range] at inside
    rw [relativeOrder_eq, fillKeys_new, keyAt, List.getElem?_range inside]
    · exact ⟨rfl, inside⟩
    · intro name listed found
      have at_index := (openedModsById_iff distinct name a).mp found
      rw [isNamed, at_index] at unnamed
      simp [listed] at unnamed
  obtain ⟨grow, above⟩ := fillKeys_named distinct c.openedMods.length config.modOrder 0
    (List.range c.openedMods.length) List.length_range
  rw [← relativeOrder_eq] at grow above
  refine List.pairwise_append.mpr ⟨?_, ?_, ?_⟩
  · have increasing : (c.newMods config.modOrder).Pairwise (· < ·) :=
      List.pairwise_lt_range.sublist List.filter_sublist
    refine List.Pairwise.imp_of_mem ?_ increasing
    intro a b in_a in_b less
    rw [keyBefore, (new_key a in_a).1, (new_key b in_b).1]
    exact decide_eq_true less
  · exact grow.imp fun less => decide_eq_true less
  · intro a new b named
    obtain ⟨key, inside⟩ := new_key a new
    have high := above b named
    rw [keyBefore, decide_eq_true_eq, key]
    omega

theorem new_named_perm (distinct : (c.openedMods.map ModHandle.modId).Nodup) (config : ModsConfig) :
    (List.range c.openedMods.length).Perm
      (c.newMods config.modOrder ++ c.namedMods config.modOrder) := by
  have nodup : (c.newMods config.modOrder ++ c.namedMods config.modOrder).Nodup := by
    refine (keys_grow distinct config).imp ?_
    rintro a b less rfl
    rw [(keyBefore_weak _).asymm a a less] at less
    contradiction
  refine (List.perm_ext_iff_of_nodup List.nodup_range nodup).mpr fun a => ?_
  rw [List.mem_append, newMods, List.mem_filter, mem_namedMods distinct]
  constructor
  · intro inside
    cases named : c.isNamed config.modOrder a with
    | true => exact Or.inr rfl
    | false => exact Or.inl ⟨inside, rfl⟩
  · rintro (⟨inside, -⟩ | named)
    · exact inside
    · cases at_index : c.idAt a with
      | none =>
          rw [isNamed, at_index] at named
          contradiction
      | some id => exact List.mem_range.mpr (idAt_lt at_index)

/-- Whatever sort `std::sort` is, it leaves this order. -/
theorem any_sort_order (distinct : (c.openedMods.map ModHandle.modId).Nodup) (config : ModsConfig)
    (sorter : StdSort.Sorter Nat) :
    sorter.sort (keyBefore (c.relativeOrder config)) (List.range c.openedMods.length)
      = c.newMods config.modOrder ++ c.namedMods config.modOrder := by
  refine StdSort.Sorted.unique ?_ (sorter.sorted _ _ (keyBefore_weak _)) (keyBefore_weak _)
    (keys_grow distinct config)
  exact (sorter.perm _ _).trans (new_named_perm distinct config)

theorem sortByKeys_order (distinct : (c.openedMods.map ModHandle.modId).Nodup)
    (config : ModsConfig) :
    sortByKeys (c.relativeOrder config) c.openedMods.length
      = c.newMods config.modOrder ++ c.namedMods config.modOrder := by
  refine StdSort.Sorted.unique ?_ (sortByKeys_sorted _ _) (keyBefore_weak _)
    (keys_grow distinct config)
  exact (insertionSort_range_perm _ _).trans (new_named_perm distinct config)

/-! ## load_mods_config -/

theorem loadModsConfig_order (opened : c.Opened) (order : SetOrder) (config : ModsConfig) :
    (c.loadModsConfig order config).openedModsOrder
        = c.newMods config.modOrder ++ c.namedMods config.modOrder ∧
      (c.loadModsConfig order config).openedMods = c.openedMods := by
  obtain ⟨_, _, _, same⟩ := enableConfigured_frame order config c.openedMods
    { c with
      openedModsOrder := sortByKeys (c.relativeOrder config) c.openedModsOrder.length
      }.rebuildModOrderLookup
  rw [loadModsConfig, same]
  refine ⟨?_, rfl⟩
  rw [opened.listed]
  exact sortByKeys_order opened.distinct config

theorem ids_of_places (distinct : (c.openedMods.map ModHandle.modId).Nodup) (ids : List String)
    (opened : ∀ id ∈ ids, id ∈ c.openedMods.map ModHandle.modId) :
    (ids.filterMap c.openedModsById).filterMap c.idAt = ids := by
  induction ids with
  | nil => rfl
  | cons id ids ih =>
      obtain ⟨modIndex, here⟩ := List.mem_iff_getElem?.mp (opened id List.mem_cons_self)
      have at_index : c.idAt modIndex = some id := by
        rw [idAt, ← List.getElem?_map, here]
      have found := (openedModsById_iff distinct id modIndex).mpr at_index
      rw [List.filterMap_cons_some found, List.filterMap_cons_some at_index,
        ih fun other listed => opened other (List.mem_cons_of_mem id listed)]

theorem filterMap_range {α : Type} (xs : List α) :
    (List.range xs.length).filterMap (fun i => xs[i]?) = xs := by
  induction xs with
  | nil => rfl
  | cons x xs ih =>
      have first : (x :: xs)[0]? = some x := rfl
      rw [List.length_cons, List.range_succ_eq_map, List.filterMap_cons, first,
        List.filterMap_map]
      exact congrArg (x :: ·) ih

theorem orderedIds_perm (perm : c.OrderPermutation) :
    c.orderedIds.Perm (c.openedMods.map ModHandle.modId) := by
  have by_index : c.idAt = fun modIndex => (c.openedMods.map ModHandle.modId)[modIndex]? := by
    funext modIndex
    rw [List.getElem?_map]
    rfl
  have all : (List.range c.openedMods.length).filterMap c.idAt
      = c.openedMods.map ModHandle.modId := by
    rw [by_index, ← List.length_map (f := ModHandle.modId), filterMap_range]
  rw [← all]
  exact perm.filterMap _

/-- The ids that a context saves come back in their order, whatever order the
same mods are opened in. -/
theorem reload_orderedIds {s : ModContext} (opened : c.Opened) (saved : s.OrderPermutation)
    (same : (s.openedMods.map ModHandle.modId).Perm (c.openedMods.map ModHandle.modId))
    (order : SetOrder) :
    (c.loadModsConfig order s.modsConfig).orderedIds = s.orderedIds := by
  have ids_perm : s.orderedIds.Perm (c.openedMods.map ModHandle.modId) :=
    (orderedIds_perm saved).trans same
  have names : s.modsConfig.modOrder = s.orderedIds := rfl
  have none_new : c.newMods s.orderedIds = [] := by
    rw [newMods, List.filter_eq_nil_iff]
    intro modIndex inside
    rw [List.mem_range] at inside
    have at_index : c.idAt modIndex = some (c.openedMods[modIndex]).modId := by
      rw [idAt, List.getElem?_eq_getElem inside, Option.map_some]
    have listed : (c.openedMods[modIndex]).modId ∈ s.orderedIds :=
      ids_perm.mem_iff.mpr (List.mem_map_of_mem (List.getElem_mem inside))
    rw [isNamed, at_index, Option.any_some]
    simp [listed]
  have all_named : c.namedMods s.orderedIds = s.orderedIds.filterMap c.openedModsById := by
    rw [namedMods, (ids_perm.nodup_iff.mpr opened.distinct).dedup]
  obtain ⟨sequence, mods⟩ := loadModsConfig_order opened order s.modsConfig
  have idAt_same : (c.loadModsConfig order s.modsConfig).idAt = c.idAt := by
    funext modIndex
    rw [idAt, mods, idAt]
  rw [orderedIds, sequence, idAt_same, names, none_new, List.nil_append, all_named]
  exact ids_of_places opened.distinct _ fun id listed => ids_perm.mem_iff.mp listed

/-- A folder scan leaves such a context, and so do the calls after it. -/
theorem reached_opened (reached : Transition.Reach orderStep OrderRight NoneOpened c) :
    c.Opened ∧ c.OrderPermutation := by
  obtain ⟨perm, unique⟩ := reached_good reached
  refine ⟨⟨unique.nodup, ?_⟩, perm⟩
  rw [perm.length_eq, List.length_range]

/-- The order after `load_mods_config`, for every file; and a file that was
saved restores the order, in whatever order the mods are opened again. -/
theorem mod_order_restored {Text : Type} (dump : Json → Text) (parse : Text → Option Json)
    (opened : c.Opened) (order : SetOrder) :
    (∀ file backup : Option Text,
      (c.loadModsConfig order (parseModsConfig parse file backup)).OrderPermutation ∧
      (c.loadModsConfig order (parseModsConfig parse file backup)).openedModsOrder
        = c.newMods (parseModsConfig parse file backup).modOrder
          ++ c.namedMods (parseModsConfig parse file backup).modOrder) ∧
    ∀ (s : ModContext) (backup : Option Text), s.OrderPermutation →
      (s.openedMods.map ModHandle.modId).Perm (c.openedMods.map ModHandle.modId) →
      parse (dump (saveModsConfig order s.modsConfig)) = some (saveModsConfig order s.modsConfig) →
      (c.loadModsConfig order (parseModsConfig parse
        (some (dump (saveModsConfig order s.modsConfig))) backup)).orderedIds = s.orderedIds := by
  constructor
  · intro file backup
    generalize parseModsConfig parse file backup = config
    obtain ⟨sequence, mods⟩ := loadModsConfig_order opened order config
    refine ⟨?_, sequence⟩
    rw [OrderPermutation, sequence, mods]
    exact (new_named_perm opened.distinct config).symm
  · intro s backup saved same readsBack
    rw [parse_saveModsConfig parse order s.modsConfig _ backup readsBack]
    exact reload_orderedIds opened saved same order

/-! ## Three mods, opened again in the other order -/

def printString : Json → List Char
  | .string s => '"' :: (s.toList ++ ['"'])
  | _ => []

def printArray : Json → List Char
  | .array elements => '[' :: ([','].intercalate (elements.map printString) ++ [']'])
  | _ => []

def printObject : Json → List Char
  | .object members => '\x7b' ::
      ([','].intercalate
        (members.map fun m => printString (.string m.1) ++ ':' :: printArray m.2) ++ ['\x7d'])
  | _ => []

def lastToFront : ModContext := scanned.setModIndex "" "c" 0

def rescanned : ModContext :=
  scanCalls.reverse.foldl (fun c call => (orderStep c call).getD c) emptyContext

theorem lastToFront_saved : saveModsConfig sortedOrder lastToFront.modsConfig
    = .object
        [("enabled_mods", .array []),
          ("mod_order", .array [.string "c", .string "a", .string "b"])] := by
  have none_enabled : sortedOrder.list lastToFront.modsConfig.enabledMods = [] :=
    Finset.sort_empty _
  have ids : lastToFront.modsConfig.modOrder = ["c", "a", "b"] := by decide
  rw [saveModsConfig, none_enabled, ids]
  rfl

theorem three_mods_restored :
    (rescanned.loadModsConfig sortedOrder (parseModsConfig Json.parse
      (some (printObject (saveModsConfig sortedOrder lastToFront.modsConfig))) none)).orderedIds
      = ["c", "a", "b"] := by
  have opened : rescanned.Opened := ⟨by decide, by decide⟩
  have saved : lastToFront.OrderPermutation := by
    unfold OrderPermutation
    decide
  have readsBack : Json.parse (printObject (saveModsConfig sortedOrder lastToFront.modsConfig))
      = some (saveModsConfig sortedOrder lastToFront.modsConfig) := by
    rw [lastToFront_saved]
    rfl
  rw [(mod_order_restored printObject Json.parse opened sortedOrder).2 lastToFront none saved
    (by decide) readsBack]
  decide

end ModContext

end N64ModernRuntime.Librecomp
