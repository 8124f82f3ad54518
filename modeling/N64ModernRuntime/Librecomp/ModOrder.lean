import Mathlib.Data.List.Sort
import N64ModernRuntime.Lib.Transition
import N64ModernRuntime.Librecomp.ModContext

/-!
# mods.cpp: the order of the opened mods

`opened_mods_order` lists the indices of the opened mods, and `mod_order_lookup`
is its inverse once it is rebuilt.  `set_mod_index` moves one mod while it scans
the list: it inserts and erases in front of the entry that it looks at.
-/

set_option autoImplicit false

namespace N64ModernRuntime.Librecomp

/-! ## The scan of `set_mod_index` -/

structure MoveScan where
  order : List Nat
  i : Nat
  visibleIndex : Nat
  inserted : Bool
  erased : Bool
  deriving DecidableEq, Repr

section Scan

variable (visible : Nat → Bool) (index modIndex : Nat)

/-- The body of the loop, for an entry that is shown. -/
def MoveScan.visibleEntry (s : MoveScan) (entry : Nat) : MoveScan :=
  if index = s.visibleIndex then
    { s with order := s.order.insertIdx s.i modIndex, inserted := true }
  else if modIndex = entry then
    { s with order := s.order.eraseIdx s.i, erased := true }
  else s

def MoveScan.turn (s : MoveScan) (entry : Nat) : MoveScan :=
  if visible entry then
    { s.visibleEntry index modIndex entry with visibleIndex := s.visibleIndex + 1, i := s.i + 1 }
  else { s with i := s.i + 1 }

/-- `for (...; i < size && (!inserted || !erased); i++)`, for at most so many turns. -/
def MoveScan.loop : Nat → MoveScan → MoveScan
  | 0, s => s
  | turns + 1, s =>
    if s.inserted && s.erased then s
    else
      match s.order[s.i]? with
      | none => s
      | some entry => MoveScan.loop turns (s.turn visible index modIndex entry)

/-- The loop and the `push_back` after it.  The list grows by one entry at most. -/
def moveInOrder (order : List Nat) : List Nat :=
  let s := MoveScan.loop visible index modIndex (order.length + 1) ⟨order, 0, 0, false, false⟩
  if s.inserted then s.order else s.order ++ [modIndex]

end Scan

namespace ModContext

/-- The entry is shown for the game; an empty id stands for all games. -/
def visible (c : ModContext) (modGameId : String) (modIndex : Nat) : Bool :=
  match c.openedMods[modIndex]? with
  | none => false
  | some mod =>
    modGameId = "" ||
      match c.modGameIds modGameId with
      | none => false
      | some gameIndex => mod.isForGame gameIndex

/-- The ids of the mods of `get_all_mod_details`. -/
def getAllModDetails (c : ModContext) (modGameId : String) : List String :=
  (c.openedModsOrder.filter (c.visible modGameId)).filterMap fun modIndex =>
    c.openedMods[modIndex]?.map ModHandle.modId

/-- The lookup filled from the order, which starts with `-1` everywhere. -/
def lookupOf (order : List Nat) (count : Nat) : List (Option Nat) :=
  order.zipIdx.foldl (fun lookup entry => lookup.set entry.1 (some entry.2))
    (List.replicate count none)

def rebuildModOrderLookup (c : ModContext) : ModContext :=
  { c with modOrderLookup := lookupOf c.openedModsOrder c.openedMods.length }

def setModIndex (c : ModContext) (modGameId modId : String) (index : Nat) : ModContext :=
  match c.openedModsById modId with
  | none => c
  | some modIndex =>
    ({ c with
        openedModsOrder := moveInOrder (c.visible modGameId) index modIndex c.openedModsOrder
      }.rebuildModOrderLookup).enqueue .save

/-! ## load_mods_config -/

/-- What `parse_mods_config` finds; both are empty where there is no file. -/
structure ModsConfig where
  enabledMods : Finset String
  modOrder : List String

def relativeOrder (c : ModContext) (config : ModsConfig) : List Nat :=
  config.modOrder.zipIdx.foldl (fun keys entry =>
    match c.openedModsById entry.1 with
    | none => keys
    | some modIndex => keys.set modIndex (c.openedMods.length + entry.2))
    (List.range c.openedMods.length)

/-- The keys are distinct, so that any sort gives the same list. -/
def sortByKeys (keys : List Nat) (count : Nat) : List Nat :=
  (List.range count).insertionSort fun lhs rhs => keys[lhs]?.getD 0 ≤ keys[rhs]?.getD 0

/-- The body of the last loop: new mods whose manifest opts in are enabled too. -/
def enableConfigured (c : ModContext) (order : SetOrder) (config : ModsConfig) (mod : ModHandle) :
    ModContext :=
  if (mod.modId ∉ config.modOrder ∧ mod.manifest.enabledByDefault) ∨
      mod.modId ∈ config.enabledMods then
    (c.enableMod order mod.modId true false).1
  else c

def loadModsConfig (c : ModContext) (order : SetOrder) (config : ModsConfig) : ModContext :=
  c.openedMods.foldl (fun d mod => d.enableConfigured order config mod)
    { c with
      openedModsOrder := sortByKeys (c.relativeOrder config) c.openedModsOrder.length
      }.rebuildModOrderLookup

end ModContext

/-! ## One turn of the scan -/

section Turns

variable {visible : Nat → Bool} {index modIndex : Nat}

def shown (visible : Nat → Bool) (entries : List Nat) : Nat := (entries.filter visible).length

theorem shown_append (left right : List Nat) :
    shown visible (left ++ right) = shown visible left + shown visible right := by
  simp only [shown, List.filter_append, List.length_append]

theorem shown_cons (entry : Nat) (rest : List Nat) :
    shown visible (entry :: rest) = (if visible entry then 1 else 0) + shown visible rest := by
  by_cases is_shown : visible entry = true
  · simp [shown, is_shown, Nat.add_comm]
  · simp [shown, is_shown]

theorem insertIdx_here (done rest : List Nat) (x : Nat) :
    (done ++ rest).insertIdx done.length x = done ++ x :: rest := by
  induction done with
  | nil => rfl
  | cons y done ih => simp [ih]

theorem eraseIdx_here (done rest : List Nat) (x : Nat) :
    (done ++ x :: rest).eraseIdx done.length = done ++ rest := by
  induction done with
  | nil => rfl
  | cons y done ih => simp [ih]

theorem getElem?_here (done rest : List Nat) (x : Nat) :
    (done ++ x :: rest)[done.length]? = some x := by
  simp

def MoveScan.Steps (visible : Nat → Bool) (index modIndex : Nat) (turns : Nat)
    (s t : MoveScan) : Prop :=
  ∀ n, MoveScan.loop visible index modIndex (n + turns) s
    = MoveScan.loop visible index modIndex n t

theorem MoveScan.Steps.trans {s t u : MoveScan} {m n : Nat}
    (first : MoveScan.Steps visible index modIndex m s t)
    (second : MoveScan.Steps visible index modIndex n t u) :
    MoveScan.Steps visible index modIndex (m + n) s u := by
  intro k
  rw [Nat.add_comm m n, ← Nat.add_assoc, first, second]

def MoveScan.Ended (visible : Nat → Bool) (index modIndex : Nat) (s : MoveScan) : Prop :=
  ∀ n, MoveScan.loop visible index modIndex n s = s

theorem MoveScan.Steps.loop_eq {s t : MoveScan} {m n : Nat}
    (steps : MoveScan.Steps visible index modIndex m s t)
    (ended : MoveScan.Ended visible index modIndex t) (enough : m ≤ n) :
    MoveScan.loop visible index modIndex n s = t := by
  obtain ⟨k, rfl⟩ := Nat.exists_eq_add_of_le' enough
  rw [steps k, ended k]

theorem steps_skip (visible : Nat → Bool) (index modIndex : Nat) (entries done rest : List Nat)
    (v : Nat) (inserted erased : Bool)
    (goes_on : (inserted && erased) = false)
    (others : ∀ entry ∈ entries, visible entry = true → entry ≠ modIndex)
    (away : index < v ∨ v + shown visible entries ≤ index) :
    MoveScan.Steps visible index modIndex entries.length
      ⟨done ++ (entries ++ rest), done.length, v, inserted, erased⟩
      ⟨(done ++ entries) ++ rest, (done ++ entries).length, v + shown visible entries, inserted,
        erased⟩ := by
  induction entries generalizing done v with
  | nil =>
      intro n
      simp [shown]
  | cons entry entries ih =>
      intro n
      have later := ih (done ++ [entry]) (v + if visible entry then 1 else 0)
        (fun e he => others e (List.mem_cons_of_mem entry he)) (by rw [shown_cons] at away; omega)
      have turned : MoveScan.turn visible index modIndex
            ⟨done ++ (entry :: entries ++ rest), done.length, v, inserted, erased⟩ entry
          = ⟨(done ++ [entry]) ++ (entries ++ rest), (done ++ [entry]).length,
              v + if visible entry then 1 else 0, inserted, erased⟩ := by
        unfold MoveScan.turn MoveScan.visibleEntry
        by_cases is_shown : visible entry = true
        · have not_here : index ≠ v := by
            rw [shown_cons, if_pos is_shown] at away
            omega
          have not_mod : modIndex ≠ entry := Ne.symm (others entry List.mem_cons_self is_shown)
          simp [is_shown, not_here, not_mod]
        · simp [is_shown]
      have here : (done ++ (entry :: entries ++ rest))[done.length]? = some entry :=
        getElem?_here done (entries ++ rest) entry
      rw [List.length_cons, ← Nat.add_assoc, MoveScan.loop, if_neg (by simp [goes_on])]
      simp only [here, turned]
      rw [later n, shown_cons]
      simp [Nat.add_assoc]

theorem steps_insert (visible : Nat → Bool) (index modIndex : Nat) (done rest : List Nat) (entry : Nat) (erased : Bool)
    (is_shown : visible entry = true) :
    MoveScan.Steps visible index modIndex 1
      ⟨done ++ entry :: rest, done.length, index, false, erased⟩
      ⟨(done ++ [modIndex]) ++ entry :: rest, (done ++ [modIndex]).length, index + 1, true,
        erased⟩ := by
  intro n
  rw [MoveScan.loop, if_neg (by simp)]
  simp only [getElem?_here]
  rw [MoveScan.turn, if_pos is_shown, MoveScan.visibleEntry, if_pos rfl]
  simp only [insertIdx_here, List.append_assoc, List.singleton_append, List.length_append,
    List.length_singleton]

theorem steps_erase (visible : Nat → Bool) (index modIndex : Nat) (done rest : List Nat) (v : Nat) (inserted : Bool)
    (is_shown : visible modIndex = true) (away : index ≠ v) :
    MoveScan.Steps visible index modIndex 1
      ⟨done ++ modIndex :: rest, done.length, v, inserted, false⟩
      ⟨done ++ rest, done.length + 1, v + 1, inserted, true⟩ := by
  intro n
  rw [MoveScan.loop, if_neg (by simp)]
  simp only [getElem?_here]
  rw [MoveScan.turn, if_pos is_shown, MoveScan.visibleEntry, if_neg away, if_pos rfl]
  simp only [eraseIdx_here]

theorem ended_at_end (order : List Nat) (i v : Nat) (inserted erased : Bool)
    (past : order.length ≤ i) :
    MoveScan.Ended visible index modIndex ⟨order, i, v, inserted, erased⟩ := by
  intro n
  cases n with
  | zero => rfl
  | succ n => simp [MoveScan.loop, past]

theorem ended_both (order : List Nat) (i v : Nat) :
    MoveScan.Ended visible index modIndex ⟨order, i, v, true, true⟩ := by
  intro n
  cases n with
  | zero => rfl
  | succ n => simp [MoveScan.loop]

theorem exists_shown (entries : List Nat) (k : Nat) (inside : k < shown visible entries) :
    ∃ before entry after, entries = before ++ entry :: after ∧ visible entry = true ∧
      shown visible before = k := by
  induction entries generalizing k with
  | nil => simp [shown] at inside
  | cons entry rest ih =>
      rw [shown_cons] at inside
      by_cases is_shown : visible entry = true
      · rw [if_pos is_shown] at inside
        cases k with
        | zero => exact ⟨[], entry, rest, rfl, is_shown, rfl⟩
        | succ k =>
            obtain ⟨before, e, after, rfl, e_shown, count⟩ := ih k (by omega)
            refine ⟨entry :: before, e, after, rfl, e_shown, ?_⟩
            rw [shown_cons, if_pos is_shown, count, Nat.add_comm]
      · rw [if_neg is_shown] at inside
        obtain ⟨before, e, after, rfl, e_shown, count⟩ := ih k (by omega)
        refine ⟨entry :: before, e, after, rfl, e_shown, ?_⟩
        rw [shown_cons, if_neg is_shown, count, Nat.zero_add]

/-! ## The whole scan for a mod that is shown -/

variable {before after : List Nat}

theorem moveInOrder_eq {order : List Nat} {turns : Nat} {t : MoveScan}
    (steps : MoveScan.Steps visible index modIndex turns ⟨order, 0, 0, false, false⟩ t)
    (ended : MoveScan.Ended visible index modIndex t) (enough : turns ≤ order.length + 1) :
    moveInOrder visible index modIndex order
      = if t.inserted then t.order else t.order ++ [modIndex] := by
  rw [moveInOrder, steps.loop_eq ended enough]

theorem moveInOrder_back (is_shown : visible modIndex = true) (fresh : modIndex ∉ before)
    (earlier : index < shown visible before) :
    ∃ l₁ l₂, moveInOrder visible index modIndex (before ++ modIndex :: after)
        = l₁ ++ modIndex :: l₂ ∧
      l₁ ++ l₂ = before ++ after ∧ shown visible l₁ = index := by
  obtain ⟨l₁, entry, l₂, rfl, entry_shown, count⟩ := exists_shown before index earlier
  refine ⟨l₁, entry :: l₂ ++ after, ?_, by simp, count⟩
  have others : ∀ e ∈ l₁ ++ entry :: l₂, visible e = true → e ≠ modIndex := by
    rintro e he - rfl
    exact fresh he
  have skip := steps_skip visible index modIndex l₁ []
    (entry :: l₂ ++ modIndex :: after) 0 false false rfl
    (fun e he => others e (List.mem_append_left _ he)) (by omega)
  have insert := steps_insert visible index modIndex l₁
    (l₂ ++ modIndex :: after) entry false entry_shown
  have skip_more := steps_skip visible index modIndex
    (entry :: l₂) (l₁ ++ [modIndex]) (modIndex :: after) (index + 1) true false rfl
    (fun e he => others e (List.mem_append_right _ he)) (by omega)
  have erase := steps_erase visible index modIndex ((l₁ ++ [modIndex]) ++ entry :: l₂) after
    (index + 1 + shown visible (entry :: l₂)) true is_shown (by omega)
  simp only [List.nil_append, List.length_nil, Nat.zero_add, count, List.cons_append,
    List.append_assoc] at skip insert skip_more erase
  have steps := ((skip.trans insert).trans skip_more).trans erase
  rw [List.append_assoc, List.cons_append]
  rw [moveInOrder_eq steps (ended_both _ _ _) (by simp; omega)]
  simp

theorem moveInOrder_stay (is_shown : visible modIndex = true) (fresh : modIndex ∉ before)
    (same : index = shown visible before) :
    moveInOrder visible index modIndex (before ++ modIndex :: after)
      = before ++ modIndex :: after := by
  have others : ∀ e ∈ before, visible e = true → e ≠ modIndex := by
    rintro e he - rfl
    exact fresh he
  have skip := steps_skip visible index modIndex before []
    (modIndex :: after) 0 false false rfl others (by omega)
  have insert := steps_insert visible index modIndex before after modIndex false
    is_shown
  have erase := steps_erase visible index modIndex (before ++ [modIndex]) after (index + 1) true is_shown
    (by omega)
  simp only [List.nil_append, List.length_nil, Nat.zero_add, ← same, List.append_assoc,
    List.singleton_append] at skip insert erase
  have steps := (skip.trans insert).trans erase
  rw [moveInOrder_eq steps (ended_both _ _ _) (by simp)]
  simp

theorem steps_to_erased (visible : Nat → Bool) (index : Nat) {modIndex : Nat} (before after : List Nat)
    (is_shown : visible modIndex = true) (fresh : modIndex ∉ before)
    (later : shown visible before < index) :
    MoveScan.Steps visible index modIndex (before.length + 1)
      ⟨before ++ modIndex :: after, 0, 0, false, false⟩
      ⟨before ++ after, before.length + 1, shown visible before + 1, false, true⟩ := by
  have others : ∀ e ∈ before, visible e = true → e ≠ modIndex := by
    rintro e he - rfl
    exact fresh he
  have skip := steps_skip visible index modIndex before []
    (modIndex :: after) 0 false false rfl others (by omega)
  have erase := steps_erase visible index modIndex before after (shown visible before) false is_shown
    (by omega)
  simp only [List.nil_append, List.length_nil, Nat.zero_add] at skip
  exact skip.trans erase

theorem moveInOrder_last (is_shown : visible modIndex = true) (fresh : modIndex ∉ before)
    (later : shown visible before < index) :
    moveInOrder visible index modIndex (before ++ [modIndex]) = before ++ [modIndex] := by
  have steps := steps_to_erased visible index before [] is_shown fresh later
  rw [moveInOrder_eq steps (ended_at_end _ _ _ _ _ (by simp)) (by simp)]
  simp

theorem moveInOrder_end {next : Nat} (is_shown : visible modIndex = true)
    (fresh : modIndex ∉ before ++ next :: after)
    (later : shown visible before + 1 + shown visible after ≤ index) :
    moveInOrder visible index modIndex (before ++ modIndex :: next :: after)
      = before ++ next :: after ++ [modIndex] := by
  have erased := steps_to_erased visible index before (next :: after) is_shown
    (fun he => fresh (List.mem_append_left _ he)) (by omega)
  have others : ∀ e ∈ after, visible e = true → e ≠ modIndex := by
    rintro e he - rfl
    exact fresh (List.mem_append_right _ (List.mem_cons_of_mem next he))
  have skip := steps_skip visible index modIndex after
    (before ++ [next]) [] (shown visible before + 1) false true rfl others (by omega)
  simp only [List.append_assoc, List.singleton_append, List.length_append, List.length_singleton,
    List.append_nil] at skip
  have steps := erased.trans skip
  rw [moveInOrder_eq steps (ended_at_end _ _ _ _ _ (by simp)) (by simp; omega)]
  simp

theorem moveInOrder_forward {next : Nat} (is_shown : visible modIndex = true)
    (fresh : modIndex ∉ before ++ next :: after) (later : shown visible before < index)
    (reached : index < shown visible before + 1 + shown visible after) :
    ∃ l₁ l₂, moveInOrder visible index modIndex (before ++ modIndex :: next :: after)
        = l₁ ++ modIndex :: l₂ ∧
      l₁ ++ l₂ = before ++ next :: after ∧
      shown visible l₁ + 1 = index + if visible next then 1 else 0 := by
  have inside : index - shown visible before - 1 < shown visible after := by omega
  obtain ⟨l₁, entry, l₂, rfl, entry_shown, count⟩ := exists_shown after _ inside
  refine ⟨before ++ next :: l₁, entry :: l₂, ?_, by simp, ?_⟩
  · have erased := steps_to_erased visible index before (next :: (l₁ ++ entry :: l₂)) is_shown
      (fun he => fresh (List.mem_append_left _ he)) later
    have others : ∀ e ∈ l₁, visible e = true → e ≠ modIndex := by
      rintro e he - rfl
      exact fresh (by simp [he])
    have skip := steps_skip visible index modIndex l₁
      (before ++ [next]) (entry :: l₂) (shown visible before + 1) false true rfl others (by omega)
    have insert := steps_insert visible index modIndex
      ((before ++ [next]) ++ l₁) l₂ entry true entry_shown
    have target : shown visible before + 1 + shown visible l₁ = index := by omega
    simp only [List.append_assoc, List.singleton_append, List.length_append,
      List.length_singleton, target] at skip insert
    have steps := (erased.trans skip).trans insert
    rw [moveInOrder_eq steps (ended_both _ _ _) (by simp; omega)]
    simp
  · rw [shown_append, shown_cons]
    omega

/-- The mod does not move towards the end past an entry that is not shown and
comes directly after it. -/
def ScanRight (visible : Nat → Bool) (index : Nat) (before after : List Nat) : Prop :=
  index ≤ shown visible before ∨ shown visible before + shown visible after < index ∨
    ∃ next, after.head? = some next ∧ visible next = true

/-- A mod that is shown is moved to one place, which is the right one exactly
if the scan is right. -/
theorem moveInOrder_shown (index : Nat) (is_shown : visible modIndex = true)
    (fresh : modIndex ∉ before ++ after) :
    ∃ l₁ l₂, moveInOrder visible index modIndex (before ++ modIndex :: after)
        = l₁ ++ modIndex :: l₂ ∧
      l₁ ++ l₂ = before ++ after ∧
      (shown visible l₁ = min index (shown visible (before ++ after))
        ↔ ScanRight visible index before after) := by
  have fresh_before : modIndex ∉ before := fun he => fresh (List.mem_append_left _ he)
  rcases Nat.lt_trichotomy index (shown visible before) with earlier | same | later
  · obtain ⟨l₁, l₂, moved, rest, count⟩ := moveInOrder_back is_shown fresh_before
      earlier
    refine ⟨l₁, l₂, moved, rest, ?_⟩
    rw [count, shown_append]
    exact ⟨fun _ => .inl (by omega), fun _ => by omega⟩
  · refine ⟨before, after, moveInOrder_stay is_shown fresh_before same, rfl, ?_⟩
    rw [shown_append]
    exact ⟨fun _ => .inl (by omega), fun _ => by omega⟩
  · cases after with
    | nil =>
        refine ⟨before, [], moveInOrder_last is_shown fresh_before later, rfl, ?_⟩
        rw [List.append_nil]
        exact ⟨fun _ => .inr (.inl (by simpa [shown] using later)), fun _ => by omega⟩
    | cons next after =>
        have tail : shown visible (before ++ next :: after)
            = shown visible before + ((if visible next then 1 else 0) + shown visible after) := by
          rw [shown_append, shown_cons]
        by_cases reached : index < shown visible before + 1 + shown visible after
        · obtain ⟨l₁, l₂, moved, rest, count⟩ := moveInOrder_forward is_shown fresh later reached
          refine ⟨l₁, l₂, moved, rest, ?_⟩
          rw [tail]
          by_cases next_shown : visible next = true
          · rw [if_pos next_shown] at count ⊢
            exact ⟨fun _ => .inr (.inr ⟨next, rfl, next_shown⟩), fun _ => by omega⟩
          · rw [if_neg next_shown] at count ⊢
            constructor
            · intro place
              omega
            · rintro (early | late | ⟨next', first, next_shown'⟩)
              · omega
              · rw [shown_cons, if_neg next_shown] at late
                omega
              · exact absurd (Option.some.inj first ▸ next_shown') next_shown
        · refine ⟨before ++ next :: after, [], ?_, List.append_nil _, ?_⟩
          · exact moveInOrder_end is_shown fresh (by omega)
          · rw [tail]
            by_cases next_shown : visible next = true
            · rw [if_pos next_shown]
              exact ⟨fun _ => .inr (.inr ⟨next, rfl, next_shown⟩), fun _ => by omega⟩
            · rw [if_neg next_shown]
              refine ⟨fun _ => .inr (.inl ?_), fun _ => by omega⟩
              rw [shown_cons, if_neg next_shown]
              omega

def MoveScan.Grows (length : Nat) (s : MoveScan) : Prop :=
  s.erased = false ∧ length + (if s.inserted then 1 else 0) ≤ s.order.length

theorem turn_grows (hidden : visible modIndex = false) {length entry : Nat} {s : MoveScan}
    (grows : s.Grows length) (here : s.order[s.i]? = some entry) :
    (s.turn visible index modIndex entry).Grows length := by
  obtain ⟨kept, long⟩ := grows
  unfold MoveScan.turn
  by_cases is_shown : visible entry = true
  · rw [if_pos is_shown]
    have inside : s.i < s.order.length := (List.getElem?_eq_some_iff.mp here).1
    have not_mod : modIndex ≠ entry := by
      rintro rfl
      rw [hidden] at is_shown
      contradiction
    unfold MoveScan.visibleEntry
    by_cases target : index = s.visibleIndex
    · rw [if_pos target]
      refine ⟨kept, ?_⟩
      have longer := List.length_insertIdx_of_le_length (Nat.le_of_lt inside) modIndex
      simp only [if_true, longer]
      omega
    · rw [if_neg target, if_neg not_mod]
      exact ⟨kept, long⟩
  · rw [if_neg is_shown]
    exact ⟨kept, long⟩

theorem loop_grows (hidden : visible modIndex = false) {length : Nat} (n : Nat) {s : MoveScan}
    (grows : s.Grows length) :
    (MoveScan.loop visible index modIndex n s).Grows length := by
  induction n generalizing s with
  | zero => exact grows
  | succ n ih =>
      rw [MoveScan.loop]
      split
      · exact grows
      · split
        · exact grows
        · rename_i here
          exact ih (turn_grows hidden grows here)

theorem moveInOrder_hidden (hidden : visible modIndex = false) (order : List Nat) :
    moveInOrder visible index modIndex order ≠ order := by
  have start : MoveScan.Grows order.length ⟨order, 0, 0, false, false⟩ := ⟨rfl, Nat.le_refl _⟩
  have grows : (MoveScan.loop visible index modIndex (order.length + 1)
      ⟨order, 0, 0, false, false⟩).Grows order.length := loop_grows hidden _ start
  intro same
  have length := congrArg List.length same
  unfold moveInOrder at length
  generalize MoveScan.loop visible index modIndex (order.length + 1) ⟨order, 0, 0, false, false⟩ = t
    at grows length
  obtain ⟨-, long⟩ := grows
  cases inserted : t.inserted with
  | true =>
      simp only [inserted, if_true] at long length
      omega
  | false =>
      simp only [inserted, Bool.false_eq_true, if_false, List.length_append,
        List.length_singleton] at long length
      omega

end Turns

/-! ## The lookup -/

section Lookup

theorem getElem?_fill {order : List Nat} (distinct : order.Nodup) (k : Nat)
    (lookup : List (Option Nat)) (i : Nat) :
    ((order.zipIdx k).foldl (fun l entry => l.set entry.1 (some entry.2)) lookup)[i]?
      = if i ∈ order then lookup[i]?.map fun _ => some (k + order.idxOf i) else lookup[i]? := by
  induction order generalizing k lookup with
  | nil => simp
  | cons x rest ih =>
      obtain ⟨new, distinct⟩ := List.nodup_cons.mp distinct
      rw [List.zipIdx_cons, List.foldl_cons, ih distinct]
      by_cases same : i = x
      · subst same
        rw [if_neg new, if_pos List.mem_cons_self, List.getElem?_set, if_pos rfl,
          List.idxOf_cons_self]
        by_cases inside : i < lookup.length
        · rw [if_pos inside, List.getElem?_eq_getElem inside]
          rfl
        · rw [if_neg inside, List.getElem?_eq_none (Nat.le_of_not_lt inside)]
          rfl
      · have head : List.idxOf i (x :: rest) = List.idxOf i rest + 1 :=
          List.idxOf_cons_ne rest (Ne.symm same)
        simp only [List.mem_cons, same, false_or, head, List.getElem?_set,
          if_neg (Ne.symm same)]
        by_cases later : i ∈ rest
        · rw [if_pos later, if_pos later]
          simp only [Nat.add_assoc, Nat.add_comm 1]
        · rw [if_neg later, if_neg later]

theorem length_fill (order : List Nat) (k : Nat) (lookup : List (Option Nat)) :
    ((order.zipIdx k).foldl (fun l entry => l.set entry.1 (some entry.2)) lookup).length
      = lookup.length := by
  induction order generalizing k lookup with
  | nil => rfl
  | cons x rest ih => rw [List.zipIdx_cons, List.foldl_cons, ih, List.length_set]

variable {order : List Nat} {count : Nat}

theorem length_lookupOf : (ModContext.lookupOf order count).length = count := by
  rw [ModContext.lookupOf, length_fill, List.length_replicate]

/-- Of an order that lists every index once, the lookup is the inverse. -/
theorem lookupOf_inverse (perm : order.Perm (List.range count)) (modIndex orderIndex : Nat) :
    (ModContext.lookupOf order count)[modIndex]? = some (some orderIndex)
      ↔ order[orderIndex]? = some modIndex := by
  have distinct : order.Nodup := perm.nodup_iff.mpr List.nodup_range
  have inside : modIndex ∈ order ↔ modIndex < count := perm.mem_iff.trans List.mem_range
  rw [ModContext.lookupOf, getElem?_fill distinct]
  by_cases listed : modIndex ∈ order
  · rw [if_pos listed, List.getElem?_replicate, if_pos (inside.mp listed)]
    simp only [Option.map_some, Nat.zero_add, Option.some.injEq]
    constructor
    · rintro rfl
      rw [List.getElem?_idxOf listed]
    · intro found
      obtain ⟨below, rfl⟩ := List.getElem?_eq_some_iff.mp found
      exact distinct.idxOf_getElem orderIndex below
  · rw [if_neg listed, List.getElem?_replicate, if_neg (mt inside.mpr listed)]
    constructor
    · intro found
      contradiction
    · intro found
      exact absurd (List.mem_of_getElem? found) listed

end Lookup

namespace ModContext

/-- `opened_mods_order` lists every opened mod once. -/
def OrderPermutation (c : ModContext) : Prop :=
  c.openedModsOrder.Perm (List.range c.openedMods.length)

/-- `mod_order_lookup` is the inverse of `opened_mods_order`. -/
def LookupInverse (c : ModContext) : Prop :=
  c.modOrderLookup.length = c.openedMods.length ∧
    ∀ modIndex orderIndex : Nat, c.modOrderLookup[modIndex]? = some (some orderIndex)
      ↔ c.openedModsOrder[orderIndex]? = some modIndex

variable {c : ModContext}

theorem rebuildModOrderLookup_inverse (perm : c.OrderPermutation) :
    c.rebuildModOrderLookup.LookupInverse :=
  ⟨length_lookupOf, lookupOf_inverse perm⟩

/-! ## Moving a mod -/

/-- What `set_mod_index` is for: of the mods that are shown, the named one is at
the index, or last; the others keep their order, and a mod that is not shown
leaves everything as it is. -/
structure Moved (c d : ModContext) (modGameId modId : String) (index : Nat) : Prop where
  perm : d.OrderPermutation
  inverse : d.LookupInverse
  place : ∀ modIndex, c.openedModsById modId = some modIndex →
    c.visible modGameId modIndex = true →
      d.openedModsOrder.filter (· ≠ modIndex) = c.openedModsOrder.filter (· ≠ modIndex) ∧
      (d.getAllModDetails modGameId)[min index ((c.getAllModDetails modGameId).length - 1)]?
        = some modId
  idle : (∀ modIndex, c.openedModsById modId = some modIndex →
    c.visible modGameId modIndex = false) → d = c

/-- When `set_mod_index` does that: the mod is shown, and does not move towards
the end past an entry that is not shown and comes directly after it.  For an
unknown mod the lookup has to be up to date. -/
def SetModIndexRight (c : ModContext) (modGameId modId : String) (index : Nat) : Prop :=
  match c.openedModsById modId with
  | none => c.LookupInverse
  | some modIndex =>
    c.visible modGameId modIndex = true ∧
      ∀ before after, c.openedModsOrder = before ++ modIndex :: after →
        ScanRight (c.visible modGameId) index before after

theorem openedModsById_lt {modId : String} {modIndex : Nat}
    (found : c.openedModsById modId = some modIndex) :
    ∃ mod, c.openedMods[modIndex]? = some mod ∧ mod.modId = modId := by
  obtain ⟨inside, same, -⟩ := List.findIdx?_eq_some_iff_getElem.mp found
  exact ⟨c.openedMods[modIndex], List.getElem?_eq_getElem inside, by simpa using same⟩

theorem getElem?_only {α : Type} {left right : List α} {x : α} (not_left : x ∉ left)
    (not_right : x ∉ right) (k : Nat) : (left ++ x :: right)[k]? = some x ↔ left.length = k := by
  constructor
  · intro found
    rcases Nat.lt_trichotomy k left.length with before | same | after
    · rw [List.getElem?_append_left before] at found
      exact absurd (List.mem_of_getElem? found) not_left
    · exact same.symm
    · rw [List.getElem?_append_right (by omega)] at found
      obtain ⟨j, rest⟩ : ∃ j, k - left.length = j + 1 := ⟨k - left.length - 1, by omega⟩
      rw [rest, List.getElem?_cons_succ] at found
      exact absurd (List.mem_of_getElem? found) not_right
  · rintro rfl
    simp

def idAt (c : ModContext) (modIndex : Nat) : Option String :=
  c.openedMods[modIndex]?.map ModHandle.modId

theorem idAt_of_visible {modGameId : String} {modIndex : Nat}
    (is_shown : c.visible modGameId modIndex = true) : ∃ id, c.idAt modIndex = some id := by
  unfold visible at is_shown
  cases here : c.openedMods[modIndex]? with
  | none => simp [here] at is_shown
  | some mod => exact ⟨mod.modId, by rw [idAt, here]; rfl⟩

theorem idAt_injective (distinct : (c.openedMods.map ModHandle.modId).Nodup) {i j : Nat}
    {id : String} (first : c.idAt i = some id) (second : c.idAt j = some id) : i = j := by
  have first' : (c.openedMods.map ModHandle.modId)[i]? = some id := by
    rw [List.getElem?_map]
    exact first
  have second' : (c.openedMods.map ModHandle.modId)[j]? = some id := by
    rw [List.getElem?_map]
    exact second
  have inside : i < (c.openedMods.map ModHandle.modId).length :=
    (List.getElem?_eq_some_iff.mp first').1
  exact (List.getElem?_inj inside distinct).mp (first'.trans second'.symm)

theorem length_shown_ids (modGameId : String) (entries : List Nat) :
    ((entries.filter (c.visible modGameId)).filterMap c.idAt).length
      = shown (c.visible modGameId) entries := by
  induction entries with
  | nil => rfl
  | cons entry rest ih =>
      rw [shown_cons, ← ih]
      by_cases is_shown : c.visible modGameId entry = true
      · obtain ⟨id, at_entry⟩ := idAt_of_visible is_shown
        rw [List.filter_cons_of_pos is_shown, List.filterMap_cons_some at_entry, if_pos is_shown,
          List.length_cons, Nat.add_comm]
      · rw [List.filter_cons_of_neg is_shown, if_neg is_shown, Nat.zero_add]

theorem getAllModDetails_place (distinct : (c.openedMods.map ModHandle.modId).Nodup)
    {modGameId modId : String} {modIndex : Nat} (found : c.openedModsById modId = some modIndex)
    (is_shown : c.visible modGameId modIndex = true) {before after : List Nat}
    (order : c.openedModsOrder = before ++ modIndex :: after)
    (fresh : modIndex ∉ before ++ after) (k : Nat) :
    (c.getAllModDetails modGameId)[k]? = some modId ↔ shown (c.visible modGameId) before = k := by
  have at_mod : c.idAt modIndex = some modId := by
    obtain ⟨mod, here, rfl⟩ := openedModsById_lt found
    rw [idAt, here]
    rfl
  have absent : ∀ entries : List Nat, modIndex ∉ entries →
      modId ∉ (entries.filter (c.visible modGameId)).filterMap c.idAt := by
    intro entries missing listed
    obtain ⟨entry, inside, at_entry⟩ := List.mem_filterMap.mp listed
    rw [idAt_injective distinct at_entry at_mod] at inside
    exact missing (List.mem_filter.mp inside).1
  have split : c.getAllModDetails modGameId
      = (before.filter (c.visible modGameId)).filterMap c.idAt ++
        modId :: (after.filter (c.visible modGameId)).filterMap c.idAt := by
    rw [getAllModDetails, order, List.filter_append, List.filter_cons_of_pos is_shown]
    change List.filterMap c.idAt _ = _
    rw [List.filterMap_append, List.filterMap_cons_some at_mod]
  rw [split, getElem?_only, length_shown_ids]
  · exact absent before fun he => fresh (List.mem_append_left _ he)
  · exact absent after fun he => fresh (List.mem_append_right _ he)

theorem length_getAllModDetails (modGameId : String) :
    (c.getAllModDetails modGameId).length = shown (c.visible modGameId) c.openedModsOrder :=
  length_shown_ids modGameId c.openedModsOrder

theorem mem_order (perm : c.OrderPermutation) {modId : String} {modIndex : Nat}
    (found : c.openedModsById modId = some modIndex) : modIndex ∈ c.openedModsOrder := by
  obtain ⟨mod, here, -⟩ := openedModsById_lt found
  exact perm.mem_iff.mpr (List.mem_range.mpr (List.getElem?_eq_some_iff.mp here).1)

theorem OrderPermutation.fresh (perm : c.OrderPermutation) {before after : List Nat}
    {modIndex : Nat} (split : c.openedModsOrder = before ++ modIndex :: after) :
    modIndex ∉ before ++ after := by
  have distinct : (before ++ modIndex :: after).Nodup :=
    split ▸ perm.nodup_iff.mpr List.nodup_range
  exact (List.nodup_cons.mp (List.nodup_middle.mp distinct)).1

section SetModIndex

variable {modGameId modId : String} {index modIndex : Nat}

theorem setModIndex_some (found : c.openedModsById modId = some modIndex) :
    c.setModIndex modGameId modId index
      = ({ c with
          openedModsOrder := moveInOrder (c.visible modGameId) index modIndex c.openedModsOrder
        }.rebuildModOrderLookup).enqueue .save := by
  simp only [setModIndex, found]

theorem setModIndex_shown (index : Nat) (distinct : (c.openedMods.map ModHandle.modId).Nodup)
    (perm : c.OrderPermutation) (found : c.openedModsById modId = some modIndex)
    (is_shown : c.visible modGameId modIndex = true) {before after : List Nat}
    (split : c.openedModsOrder = before ++ modIndex :: after) :
    (c.setModIndex modGameId modId index).OrderPermutation ∧
      (c.setModIndex modGameId modId index).openedModsOrder.filter (· ≠ modIndex)
        = c.openedModsOrder.filter (· ≠ modIndex) ∧
      (((c.setModIndex modGameId modId index).getAllModDetails modGameId)[
          min index ((c.getAllModDetails modGameId).length - 1)]? = some modId
        ↔ ScanRight (c.visible modGameId) index before after) := by
  have fresh := perm.fresh split
  obtain ⟨l₁, l₂, moved, rest, place⟩ :=
    moveInOrder_shown index is_shown fresh
  have order : (c.setModIndex modGameId modId index).openedModsOrder = l₁ ++ modIndex :: l₂ := by
    rw [setModIndex_some found, ← moved, ← split]
    rfl
  have same_mods : (c.setModIndex modGameId modId index).openedMods = c.openedMods := by
    rw [setModIndex_some found]
    rfl
  have same_visible : (c.setModIndex modGameId modId index).visible modGameId
      = c.visible modGameId := by
    rw [setModIndex_some found]
    rfl
  have same_id : (c.setModIndex modGameId modId index).openedModsById modId = some modIndex := by
    rw [setModIndex_some found]
    exact found
  refine ⟨?_, ?_, ?_⟩
  · rw [OrderPermutation, order, same_mods]
    have swapped : (l₁ ++ modIndex :: l₂).Perm (before ++ modIndex :: after) :=
      calc (l₁ ++ modIndex :: l₂).Perm (modIndex :: (l₁ ++ l₂)) := List.perm_middle
        _ = modIndex :: (before ++ after) := by rw [rest]
        List.Perm _ (before ++ modIndex :: after) := List.perm_middle.symm
    exact swapped.trans (split ▸ perm)
  · rw [order, split]
    have drop_mod : ∀ left right : List Nat,
        (left ++ modIndex :: right).filter (· ≠ modIndex) = (left ++ right).filter (· ≠ modIndex) := by
      intro left right
      simp
    rw [drop_mod, drop_mod, rest]
  · have last : (c.getAllModDetails modGameId).length - 1
        = shown (c.visible modGameId) (before ++ after) := by
      rw [length_getAllModDetails, split, shown_append, shown_cons, if_pos is_shown, shown_append]
      omega
    have distinct' : ((c.setModIndex modGameId modId index).openedMods.map ModHandle.modId).Nodup := by
      rw [same_mods]
      exact distinct
    have is_shown' : (c.setModIndex modGameId modId index).visible modGameId modIndex = true := by
      rw [same_visible]
      exact is_shown
    rw [getAllModDetails_place distinct' same_id is_shown' order (rest ▸ fresh), same_visible, last,
      place]

/-- `set_mod_index` does what it is for exactly if the move is right. -/
theorem setModIndex_moved_iff (distinct : (c.openedMods.map ModHandle.modId).Nodup)
    (perm : c.OrderPermutation) :
    Moved c (c.setModIndex modGameId modId index) modGameId modId index
      ↔ c.SetModIndexRight modGameId modId index := by
  unfold SetModIndexRight
  cases found : c.openedModsById modId with
  | none =>
      have same : c.setModIndex modGameId modId index = c := by
        simp only [setModIndex, found]
      rw [same]
      constructor
      · exact fun moved => moved.inverse
      · exact fun inverse => ⟨perm, inverse, by simp [found], fun _ => rfl⟩
  | some modIndex =>
      cases is_shown : c.visible modGameId modIndex with
      | false =>
          constructor
          · intro moved
            have same := moved.idle fun other other_found => by
              rw [← Option.some.inj (found.symm.trans other_found)]
              exact is_shown
            have same_order := congrArg openedModsOrder same
            rw [setModIndex_some found] at same_order
            exact absurd same_order (moveInOrder_hidden is_shown c.openedModsOrder)
          · rintro ⟨shown_too, -⟩
            rw [is_shown] at shown_too
            contradiction
      | true =>
          obtain ⟨before, after, split⟩ := List.append_of_mem (mem_order perm found)
          constructor
          · intro moved
            refine ⟨is_shown, fun before after split => ?_⟩
            obtain ⟨-, -, place⟩ := setModIndex_shown index distinct perm found is_shown split
            exact place.mp (moved.place modIndex found is_shown).2
          · rintro ⟨-, right⟩
            obtain ⟨perm', others, place⟩ :=
              setModIndex_shown index distinct perm found is_shown split
            refine ⟨perm', ?_, ?_, ?_⟩
            · rw [setModIndex_some found] at perm' ⊢
              exact rebuildModOrderLookup_inverse perm'
            · intro other other_found _
              obtain rfl : modIndex = other := Option.some.inj (found.symm.trans other_found)
              exact ⟨others, place.mpr (right before after split)⟩
            · intro hidden
              have not_shown := hidden modIndex found
              rw [is_shown] at not_shown
              contradiction

end SetModIndex

/-! ## load_mods_config -/

theorem insertionSort_range_perm (keys : List Nat) (count : Nat) :
    (sortByKeys keys count).Perm (List.range count) := List.perm_insertionSort _ _

theorem enableConfigured_frame (order : SetOrder) (config : ModsConfig) (mods : List ModHandle)
    (d : ModContext) :
    ∃ enabledMods autoEnabledMods queue,
      mods.foldl (fun d mod => d.enableConfigured order config mod) d =
        { d with
          enabledMods := enabledMods
          autoEnabledMods := autoEnabledMods
          modConfigurationThreadQueue := queue } := by
  induction mods generalizing d with
  | nil => exact ⟨_, _, _, rfl⟩
  | cons mod rest ih =>
      have first : ∃ enabledMods autoEnabledMods queue, d.enableConfigured order config mod =
          { d with
            enabledMods := enabledMods
            autoEnabledMods := autoEnabledMods
            modConfigurationThreadQueue := queue } := by
        unfold enableConfigured
        split
        · exact d.enableMod_frame order mod.modId true false
        · exact ⟨_, _, _, rfl⟩
      obtain ⟨_, _, _, same⟩ := first
      obtain ⟨_, _, _, same'⟩ := ih (d.enableConfigured order config mod)
      rw [List.foldl_cons, same', same]
      exact ⟨_, _, _, rfl⟩

theorem loadModsConfig_keeps (perm : c.OrderPermutation) (order : SetOrder) (config : ModsConfig) :
    (c.loadModsConfig order config).OrderPermutation ∧
      (c.loadModsConfig order config).LookupInverse ∧
      (c.loadModsConfig order config).openedMods = c.openedMods ∧
      (c.loadModsConfig order config).modIds = c.modIds := by
  have same_length : c.openedModsOrder.length = c.openedMods.length := by
    rw [perm.length_eq, List.length_range]
  have sorted : OrderPermutation { c with
      openedModsOrder := sortByKeys (c.relativeOrder config) c.openedModsOrder.length } := by
    rw [same_length]
    exact insertionSort_range_perm _ _
  obtain ⟨_, _, _, same⟩ := enableConfigured_frame order config c.openedMods
    { c with
      openedModsOrder := sortByKeys (c.relativeOrder config) c.openedModsOrder.length
      }.rebuildModOrderLookup
  rw [loadModsConfig, same]
  exact ⟨sorted, rebuildModOrderLookup_inverse sorted, rfl, rfl⟩

/-! ## Runs -/

inductive OrderCall where
  /-- A folder scan begins. -/
  | closeMods
  | openMod (manifest : ModManifest) (modGameIds : List String)
      (contentTypes : List ModContentTypeId) (configStorage : ConfigStorage)
  | loadModsConfig (order : SetOrder) (config : ModsConfig)
  | enableMod (order : SetOrder) (modId : String) (enabled triggerSave : Bool)
  | setModIndex (modGameId modId : String) (index : Nat)

def orderStep (c : ModContext) : OrderCall → Option ModContext
  | .closeMods => some c.closeMods
  | .openMod manifest modGameIds contentTypes configStorage =>
    some (c.openModFromManifest manifest modGameIds contentTypes configStorage)
  | .loadModsConfig order config => some (c.loadModsConfig order config)
  | .enableMod order modId enabled triggerSave =>
    some (c.enableMod order modId enabled triggerSave).1
  | .setModIndex modGameId modId index => some (c.setModIndex modGameId modId index)

/-- Only the calls of `set_mod_index` have something to meet. -/
def OrderRight (c : ModContext) : OrderCall → Prop
  | .setModIndex modGameId modId index => c.SetModIndexRight modGameId modId index
  | _ => True

def NoneOpened (c : ModContext) : Prop := c.closeMods = c

theorem openModFromManifest_perm (perm : c.OrderPermutation) (manifest : ModManifest)
    (modGameIds : List String) (contentTypes : List ModContentTypeId)
    (configStorage : ConfigStorage) :
    (c.openModFromManifest manifest modGameIds contentTypes configStorage).OrderPermutation := by
  unfold openModFromManifest
  split
  · exact perm
  · split
    · exact perm
    · simp only [OrderPermutation, addOpenedMod, List.length_append, List.length_singleton,
        List.range_succ]
      exact perm.append_right _

theorem setModIndex_unique (unique : c.UniqueIds) (modGameId modId : String) (index : Nat) :
    (c.setModIndex modGameId modId index).UniqueIds := by
  unfold setModIndex
  split
  · exact unique
  · exact ⟨unique.nodup, unique.taken⟩

theorem orderStep_keeps {call : OrderCall} {d : ModContext} (right : OrderRight c call)
    (good : c.OrderPermutation ∧ c.UniqueIds) (taken : orderStep c call = some d) :
    d.OrderPermutation ∧ d.UniqueIds := by
  obtain ⟨perm, unique⟩ := good
  cases call with
  | closeMods =>
      cases taken
      exact ⟨List.Perm.refl _, closeMods_unique c⟩
  | openMod manifest modGameIds contentTypes configStorage =>
      cases taken
      exact ⟨openModFromManifest_perm perm manifest modGameIds contentTypes configStorage,
        openModFromManifest_unique unique manifest modGameIds contentTypes configStorage⟩
  | loadModsConfig order config =>
      cases taken
      obtain ⟨perm', -, mods, ids⟩ := loadModsConfig_keeps perm order config
      refine ⟨perm', ⟨?_, ?_⟩⟩
      · rw [mods]
        exact unique.nodup
      · rw [mods, ids]
        exact unique.taken
  | enableMod order modId enabled triggerSave =>
      cases taken
      obtain ⟨_, _, _, same⟩ := c.enableMod_frame order modId enabled triggerSave
      simp only [same]
      exact ⟨perm, ⟨unique.nodup, unique.taken⟩⟩
  | setModIndex modGameId modId index =>
      cases taken
      have moved := (setModIndex_moved_iff unique.nodup perm).mpr right
      exact ⟨moved.perm, setModIndex_unique unique modGameId modId index⟩

theorem reached_good {s : ModContext}
    (reached : Transition.Reach orderStep OrderRight NoneOpened s) :
    s.OrderPermutation ∧ s.UniqueIds := by
  refine reached.invariant ?_ fun t call u good right taken => orderStep_keeps right good taken
  intro t closed
  rw [← closed]
  exact ⟨List.Perm.refl _, closeMods_unique t⟩

/-- In a run whose calls of `set_mod_index` are right the order stays a
permutation, and each further call of `load_mods_config` or `set_mod_index`
does what it is for, of the latter exactly those that are right. -/
theorem mod_order_permutation {s : ModContext}
    (reached : Transition.Reach orderStep OrderRight NoneOpened s) :
    s.OrderPermutation ∧
      (∀ order config, (s.loadModsConfig order config).OrderPermutation ∧
        (s.loadModsConfig order config).LookupInverse) ∧
      ∀ modGameId modId index,
        Moved s (s.setModIndex modGameId modId index) modGameId modId index
          ↔ s.SetModIndexRight modGameId modId index := by
  have good := reached_good reached
  refine ⟨good.1, fun order config => ?_, fun modGameId modId index => ?_⟩
  · obtain ⟨perm, inverse, -, -⟩ := loadModsConfig_keeps good.1 order config
    exact ⟨perm, inverse⟩
  · exact setModIndex_moved_iff good.2.nodup good.1

/-! ## Three mods of two games -/

def emptyContext : ModContext :=
  { contentTypes := []
    modGameIds := fun id => if id = "game" then some 0 else if id = "other" then some 1 else none
    openedMods := []
    openedModsOrder := []
    modOrderLookup := []
    modIds := ∅
    enabledMods := ∅
    autoEnabledMods := ∅
    activeGame := none
    modConfigurationThreadQueue := [] }

def openPlain (id game : String) : OrderCall :=
  .openMod ⟨id, [], fun _ => none, ⟨1, 0, 0⟩, ⟨1, 0, 0⟩, false⟩ [game] [] fun _ => none

def scanCalls : List OrderCall := [openPlain "a" "game", openPlain "b" "other", openPlain "c" "game"]

def scanned : ModContext :=
  scanCalls.foldl (fun c call => (orderStep c call).getD c) emptyContext

theorem scanned_reached (right : ModContext → OrderCall → Prop)
    (opens : ∀ c id game, right c (openPlain id game)) :
    Transition.Reach orderStep right NoneOpened scanned := by
  have start : Transition.Reach orderStep right NoneOpened emptyContext := .start rfl
  exact .next (openPlain "c" "game") (.next (openPlain "b" "other")
    (.next (openPlain "a" "game") start (opens _ _ _) rfl) (opens _ _ _) rfl) (opens _ _ _) rfl

/-- A mod that the filter hides is listed twice; past a hidden mod the named one
does not arrive. -/
theorem set_mod_index_goes_wrong :
    ∃ s, Transition.Reach orderStep Transition.Always NoneOpened s ∧
      ¬ (s.setModIndex "game" "b" 0).OrderPermutation ∧
      ¬ Moved s (s.setModIndex "game" "a" 1) "game" "a" 1 := by
  refine ⟨scanned, scanned_reached _ fun _ _ _ => trivial, ?_, ?_⟩
  · intro perm
    exact absurd perm.length_eq (by decide)
  · intro moved
    exact absurd (moved.place 0 (by decide) (by decide)).2 (by decide)

theorem scanned_right : OrderRight scanned (.setModIndex "" "c" 0) := by
  have found : scanned.openedModsById "c" = some 2 := by decide
  simp only [OrderRight, SetModIndexRight, found]
  exact ⟨by decide, fun before _ _ => .inl (Nat.zero_le _)⟩

/-- The last mod goes to the front of all mods. -/
theorem last_mod_to_front :
    (scanned.setModIndex "" "c" 0).openedModsOrder = [2, 0, 1] ∧
      (scanned.setModIndex "" "c" 0).OrderPermutation := by
  have reached := Transition.Reach.next (.setModIndex "" "c" 0)
    (scanned_reached OrderRight fun _ _ _ => trivial) scanned_right rfl
  exact ⟨by decide, (mod_order_permutation reached).1⟩

end ModContext

end N64ModernRuntime.Librecomp
