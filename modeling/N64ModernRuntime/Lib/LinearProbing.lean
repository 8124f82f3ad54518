import Mathlib.Algebra.GroupWithZero.Nat
import Mathlib.Data.Finset.Card
import Mathlib.Data.Fintype.Card

/-!
# Open addressing with linear probing and no deletion

A table of `cap` slots, each empty or taken by one key.  A key goes to the first
slot from its home on that is empty or its own.
-/

set_option autoImplicit false

namespace LinearProbing

variable {κ ε σ : Type} {cap : Nat}

theorem getElem_set (table : Vector σ cap) (i j : Fin cap) (s : σ) :
    (table.set i s)[j] = if i = j then s else table[j] := by
  rw [Fin.getElem_fin, Vector.getElem_set]
  simp only [Fin.val_inj]
  rfl

section Table

-- where the probes of a key begin, and the key that a slot is taken by
variable [NeZero cap] (home : κ → Nat) (key : σ → Option κ)

def slot (k : κ) (probe : Nat) : Fin cap := Fin.ofNat cap (home k + probe)

def Open (s : σ) (k : κ) : Prop := key s = none ∨ key s = some k

/-- All probes of `k` before the one at `i` meet slots that are taken by other keys. -/
def Leads (table : Vector σ cap) (k : κ) (i : Fin cap) : Prop :=
  ∃ probe < cap, slot home k probe = i ∧
    ∀ earlier < probe, ¬Open key table[(slot home k earlier : Fin cap)] k

def Placed (table : Vector σ cap) : Prop :=
  ∀ (i : Fin cap) (k : κ), key table[i] = some k → Leads home key table k i

def find [DecidableEq κ] (table : Vector σ cap) (k : κ) : Option (Fin cap) :=
  ((List.range cap).find? fun probe =>
    decide (key table[(slot home k probe : Fin cap)] = none ∨
      key table[(slot home k probe : Fin cap)] = some k)).map (slot home k)

variable {home key} {table : Vector σ cap}

theorem slot_surjective (k : κ) (i : Fin cap) : ∃ probe < cap, slot home k probe = i := by
  have first := Nat.mod_lt (home k) (Nat.pos_of_neZero cap)
  have inside := i.isLt
  have place (probe : Nat) (turns : Nat) (at_ : home k % cap + probe = cap * turns + i) :
      slot home k probe = i := by
    apply Fin.ext
    have split := Nat.div_add_mod (home k) cap
    rw [slot, Fin.val_ofNat, ← split, Nat.add_assoc, at_, ← Nat.add_assoc, ← Nat.mul_add,
      Nat.mul_add_mod, Nat.mod_eq_of_lt inside]
  by_cases after : home k % cap ≤ i
  · exact ⟨i - home k % cap, by omega, place _ 0 (by omega)⟩
  · exact ⟨i + cap - home k % cap, by omega, place _ 1 (by omega)⟩

theorem placed_empty {empty : σ} (free : key empty = none) :
    Placed home key (Vector.replicate cap empty) := by
  intro i k taken
  rw [Fin.getElem_fin, Vector.getElem_replicate, free] at taken
  cases taken

omit [NeZero cap] in
/-- A slot that is closed to a key stays so when another key goes to its own or to an empty
slot. -/
theorem closed_set {i j : Fin cap} {k k' : κ} {s : σ} (opens : Open key table[i] k)
    (taken : key s = some k) (closed : ¬Open key table[j] k') :
    ¬Open key (table.set i s)[j] k' := by
  rw [getElem_set]
  split
  · rename_i same
    subst same
    rintro (free | own)
    · rw [taken] at free
      cases free
    · rw [taken] at own
      cases own
      exact closed opens
  · exact closed

section Find

variable [DecidableEq κ] {i : Fin cap} {k : κ}

theorem find_eq_some_iff :
    find home key table k = some i ↔ Leads home key table k i ∧ Open key table[i] k := by
  simp only [find, Option.map_eq_some_iff, List.find?_range_eq_some, List.mem_range,
    decide_eq_true_eq, Bool.not_eq_true', decide_eq_false_iff_not]
  constructor
  · rintro ⟨probe, ⟨opens, inside, earlier⟩, rfl⟩
    exact ⟨⟨probe, inside, rfl, earlier⟩, opens⟩
  · rintro ⟨⟨probe, inside, rfl, earlier⟩, opens⟩
    exact ⟨probe, ⟨opens, inside, earlier⟩, rfl⟩

theorem find_eq_none_iff :
    find home key table k = none ↔ ∀ i : Fin cap, ¬Open key table[i] k := by
  simp only [find, Option.map_eq_none_iff, List.find?_eq_none, List.mem_range, decide_eq_true_eq]
  constructor
  · intro none_opens i
    obtain ⟨probe, inside, rfl⟩ : ∃ probe < cap, slot home k probe = i := slot_surjective k i
    exact none_opens probe inside
  · intro none_opens probe _
    exact none_opens (slot home k probe)

theorem Placed.find (placed : Placed home key table) (taken : key table[i] = some k) :
    find home key table k = some i :=
  find_eq_some_iff.mpr ⟨placed i k taken, Or.inr taken⟩

theorem Placed.unique {j : Fin cap} (placed : Placed home key table)
    (first : key table[i] = some k) (second : key table[j] = some k) : i = j := by
  have same := placed.find first
  rw [placed.find second] at same
  exact (Option.some.inj same).symm

/-- Where a key goes it is placed, and no other key is moved. -/
theorem Placed.set {s : σ} (placed : Placed home key table)
    (goes : LinearProbing.find home key table k = some i) (taken : key s = some k) :
    Placed home key (table.set i s) := by
  obtain ⟨leads, opens⟩ := find_eq_some_iff.mp goes
  have kept {k' : κ} {j : Fin cap} (leads : Leads home key table k' j) :
      Leads home key (table.set i s) k' j := by
    obtain ⟨probe, inside, at_, earlier⟩ := leads
    exact ⟨probe, inside, at_, fun q before => closed_set opens taken (earlier q before)⟩
  intro j k' holds
  rw [getElem_set] at holds
  split at holds
  · rename_i same
    subst same
    rw [taken] at holds
    cases holds
    exact kept leads
  · exact kept (placed j k' holds)

end Find

end Table

/-! ## Runs of pushes -/

section Run

variable [DecidableEq κ] [NeZero cap] (home : κ → Nat) (key : σ → Option κ) (put : κ → ε → σ → σ)
  (empty : σ)

def push (table : Vector σ cap) (p : κ × ε) : Vector σ cap :=
  match find home key table p.1 with
  | some i => table.set i (put p.1 p.2 table[i])
  | none => table

def eventsOf (k : κ) (pushes : List (κ × ε)) : List ε :=
  (pushes.filter fun p => p.1 = k).map Prod.snd

def contents (k : κ) (events : List ε) : σ := events.foldl (fun s e => put k e s) empty

/-- The table after some pushes: every pushed key has a slot, which holds its own events. -/
structure Holds (table : Vector σ cap) (pushes : List (κ × ε)) : Prop where
  placed : Placed home key table
  free : ∀ i : Fin cap, key table[i] = none → table[i] = empty
  taken : ∀ (i : Fin cap) (k : κ), key table[i] = some k →
    k ∈ pushes.map Prod.fst ∧ table[i] = contents put empty k (eventsOf k pushes)
  owns : ∀ k ∈ pushes.map Prod.fst, ∃ i : Fin cap, key table[i] = some k

variable {home key put empty} {table : Vector σ cap} {pushes : List (κ × ε)}

/-- A key finds a slot as long as no more than `cap` keys are pushed. -/
theorem Holds.room (holds : Holds home key put empty table pushes) {k : κ} {keys : Finset κ}
    (pushed : ∀ k' ∈ pushes.map Prod.fst, k' ∈ keys) (mem : k ∈ keys) (few : keys.card ≤ cap) :
    ∃ i, find home key table k = some i := by
  cases found : find home key table k with
  | some i => exact ⟨i, rfl⟩
  | none =>
      have closed := find_eq_none_iff.mp found
      have other (i : Fin cap) : ∃ k', key table[i] = some k' ∧ k' ≠ k := by
        cases taken : key table[i] with
        | none => exact absurd (Or.inl taken) (closed i)
        | some k' =>
            refine ⟨k', rfl, ?_⟩
            rintro rfl
            exact closed i (Or.inr taken)
      choose owner taken differ using other
      have injective : Function.Injective owner := by
        intro i j same
        exact holds.placed.unique (taken i) (same ▸ taken j)
      have apart : k ∉ Finset.univ.image owner := by
        intro mem
        obtain ⟨i, -, same⟩ := Finset.mem_image.mp mem
        exact differ i same
      have within : insert k (Finset.univ.image owner) ⊆ keys := by
        intro k' mem'
        rcases Finset.mem_insert.mp mem' with rfl | image
        · exact mem
        · obtain ⟨i, -, rfl⟩ := Finset.mem_image.mp image
          exact pushed _ (holds.taken i _ (taken i)).1
      have count := Finset.card_le_card within
      rw [Finset.card_insert_of_notMem apart, Finset.card_image_of_injective _ injective,
        Finset.card_univ, Fintype.card_fin] at count
      omega

theorem holds_empty (free : key empty = none) :
    Holds home key put empty (Vector.replicate cap empty) ([] : List (κ × ε)) where
  placed := placed_empty free
  free i _ := by rw [Fin.getElem_fin, Vector.getElem_replicate]
  taken i k taken := by
    rw [Fin.getElem_fin, Vector.getElem_replicate, free] at taken
    cases taken
  owns k mem := absurd mem List.not_mem_nil

theorem eventsOf_append (k : κ) (pushes : List (κ × ε)) (p : κ × ε) :
    eventsOf k (pushes ++ [p]) = eventsOf k pushes ++ (if p.1 = k then [p.2] else []) := by
  rw [eventsOf, List.filter_append, List.map_append, eventsOf]
  congr 1
  by_cases own : p.1 = k
  · rw [if_pos own, List.filter_cons, if_pos (decide_eq_true own), List.filter_nil, List.map_cons,
      List.map_nil]
  · rw [if_neg own, List.filter_cons, if_neg (by simpa using own), List.filter_nil, List.map_nil]

theorem eventsOf_eq_nil {k : κ} (absent : k ∉ pushes.map Prod.fst) : eventsOf k pushes = [] := by
  rw [eventsOf, List.map_eq_nil_iff, List.filter_eq_nil_iff]
  intro p mem own
  exact absent (List.mem_map.mpr ⟨p, mem, of_decide_eq_true own⟩)

omit [DecidableEq κ] in
theorem contents_append (k : κ) (events : List ε) (e : ε) :
    contents put empty k (events ++ [e]) = put k e (contents put empty k events) := by
  rw [contents, List.foldl_append]
  rfl

theorem Holds.found (holds : Holds home key put empty table pushes) {k : κ} {i : Fin cap}
    (goes : find home key table k = some i) :
    table[i] = contents put empty k (eventsOf k pushes) := by
  rcases (find_eq_some_iff.mp goes).2 with free | taken
  · have absent : k ∉ pushes.map Prod.fst := by
      intro mem
      obtain ⟨j, taken⟩ := holds.owns k mem
      have same := holds.placed.find taken
      rw [goes] at same
      cases same
      rw [free] at taken
      cases taken
    rw [holds.free i free, eventsOf_eq_nil absent]
    rfl
  · exact (holds.taken i _ taken).2

theorem Holds.push (holds : Holds home key put empty table pushes) {p : κ × ε} {i : Fin cap}
    (own : ∀ s, key (put p.1 p.2 s) = some p.1) (goes : find home key table p.1 = some i) :
    Holds home key put empty (push home key put table p) (pushes ++ [p]) := by
  have opens := (find_eq_some_iff.mp goes).2
  have result : LinearProbing.push home key put table p = table.set i (put p.1 p.2 table[i]) := by
    rw [LinearProbing.push, goes]
  have pushed (k : κ) : k ∈ (pushes ++ [p]).map Prod.fst ↔ k ∈ pushes.map Prod.fst ∨ k = p.1 := by
    rw [List.map_append, List.mem_append, List.map_singleton, List.mem_singleton]
  rw [result]
  refine ⟨holds.placed.set goes (own _), ?_, ?_, ?_⟩
  · intro j free
    rw [getElem_set] at free ⊢
    split at free
    · rw [own] at free
      cases free
    · rename_i away
      rw [if_neg away]
      exact holds.free j free
  · intro j k taken
    rw [getElem_set] at taken ⊢
    rw [pushed, eventsOf_append]
    split at taken
    · rename_i here
      rw [own] at taken
      cases taken
      refine ⟨Or.inr rfl, ?_⟩
      rw [if_pos here, if_pos rfl, contents_append, holds.found goes]
    · rename_i away
      have before := holds.taken j k taken
      have other : p.1 ≠ k := by
        rintro rfl
        have same := holds.placed.find taken
        rw [goes] at same
        exact away (Option.some.inj same)
      rw [if_neg away, if_neg other, List.append_nil]
      exact ⟨Or.inl before.1, before.2⟩
  · intro k mem
    have first : key (table.set i (put p.1 p.2 table[i]))[i] = some p.1 := by
      rw [getElem_set, if_pos rfl, own]
    rcases (pushed k).mp mem with before | rfl
    · obtain ⟨j, taken⟩ := holds.owns k before
      by_cases here : i = j
      · subst here
        rcases opens with free | same
        · rw [free] at taken
          cases taken
        · rw [same] at taken
          cases taken
          exact ⟨i, first⟩
      · refine ⟨j, ?_⟩
        rw [getElem_set, if_neg here]
        exact taken
    · exact ⟨i, first⟩

/-- Every run of pushes of at most `cap` keys, from the empty table on. -/
theorem run_holds (free : key empty = none) (pushes : List (κ × ε))
    (own : ∀ p ∈ pushes, ∀ s, key (put p.1 p.2 s) = some p.1)
    (few : (pushes.map Prod.fst).toFinset.card ≤ cap) :
    Holds home key put empty
      (pushes.foldl (push home key put) (Vector.replicate cap empty)) pushes := by
  -- the keys of the whole run bound those of its first pushes
  have prefixes (front : List (κ × ε)) : ∀ back, pushes = front ++ back →
      Holds home key put empty (front.foldl (push home key put) (Vector.replicate cap empty))
        front := by
    induction front using List.reverseRecOn with
    | nil => exact fun _ _ => holds_empty free
    | append_singleton front p ih =>
        intro back split
        have before := ih (p :: back) (by rw [split, List.append_assoc, List.singleton_append])
        have within (k : κ) (mem : k ∈ (front ++ [p]).map Prod.fst) :
            k ∈ (pushes.map Prod.fst).toFinset := by
          rw [List.mem_toFinset, split, List.map_append]
          exact List.mem_append_left _ mem
        obtain ⟨i, goes⟩ := before.room (k := p.1)
          (fun k mem => within k (by rw [List.map_append]; exact List.mem_append_left _ mem))
          (within p.1 (List.mem_map.mpr ⟨p, List.mem_append_right _ List.mem_cons_self, rfl⟩)) few
        rw [List.foldl_append]
        have mem : p ∈ pushes := by
          rw [split]
          exact List.mem_append_left _ (List.mem_append_right _ List.mem_cons_self)
        exact before.push (own p mem) goes
  exact prefixes pushes [] (List.append_nil pushes).symm

end Run

end LinearProbing
