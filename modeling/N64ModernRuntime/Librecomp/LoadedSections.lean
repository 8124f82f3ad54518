import N64ModernRuntime.Librecomp.OverlayMoves

/-!
# overlays.cpp: no two loaded sections share an address

`load_overlays` takes out what overlaps the section that it loads.  A fragment
takes out only what starts at its own base, and `load_overlay_by_id` takes out
nothing but the section itself, and that only if it is not at its link address.
-/

set_option autoImplicit false

namespace N64ModernRuntime.Librecomp

open AddressMap Transition

variable {table : SectionTable}

def SectionTable.rangeAt (table : SectionTable) (index : table.Index) (base : UInt32) : Range :=
  ⟨base, (table.codeSections index).size⟩

def Unrepeated (loaded : List (LoadedSection table)) : Prop :=
  loaded.Pairwise fun e e' => e.sectionTableIndex ≠ e'.sectionTableIndex

structure Overlays.Disjoint (s : Overlays table) : Prop where
  indices : Unrepeated s.loadedSections
  ranges : s.loadedSections.Pairwise fun e e' => e.range.Apart e'.range

/-- No other section that is loaded shares an address with the section at `base`. -/
def Overlays.FreeFor (s : Overlays table) (index : table.Index) (base : UInt32) : Prop :=
  ∀ e ∈ s.loadedSections, e.sectionTableIndex ≠ index → (table.rangeAt index base).Apart e.range

/-- What the calls that do not look for overlaps need for what they load. -/
def LoadsApart (s : Overlays table) : Call → Prop
  | .loadOverlayById id ramAddr =>
      ∀ index, table.overlays[id]? = some index →
        let prevAddress := s.sectionAddresses (table.codeSections index).index
        if prevAddress = (table.codeSections index).ramAddr then
          s.loadedAs index = none ∧ s.FreeFor index ramAddr
        else s.FreeFor index (prevAddress + ramAddr)
  | .registerRuntimeFragment rdram id fragmentPtr =>
      fragmentPtr ≠ 0 → ∀ index, selectSection table rdram id fragmentPtr = some index →
        ∀ e ∈ s.loadedSections, e.sectionTableIndex ≠ index → e.loadedRamAddr ≠ fragmentPtr →
          (table.rangeAt index fragmentPtr).Apart e.range
  | _ => True

/-! ## What a move does to the list -/

/-- A section is loaded only when it is not in the list. -/
def LoadsUnlisted (s : Overlays table) : Move table → Prop
  | .load index _ => s.loadedAs index = none
  | _ => True

/-- A section is put only where no other one is. -/
def LoadsFree (s : Overlays table) : Move table → Prop
  | .load index ram => s.FreeFor index ram
  | .bind _ _ index fragmentPtr => s.FreeFor index fragmentPtr
  | _ => True

theorem mem_setLoaded_cases {loaded : List (LoadedSection table)} {index : table.Index}
    {base : UInt32} {e : LoadedSection table} (member : e ∈ setLoaded loaded index base) :
    e = ⟨base, index⟩ ∨ e ∈ loaded := by
  induction loaded with
  | nil => exact .inl (List.mem_singleton.mp member)
  | cons first rest ih =>
      unfold setLoaded at member
      split at member
      · rcases List.mem_cons.mp member with rfl | member
        · exact .inl rfl
        · exact .inr (List.mem_cons_of_mem _ member)
      · rcases List.mem_cons.mp member with rfl | member
        · exact .inr (List.mem_cons_self ..)
        · exact (ih member).imp_right (List.mem_cons_of_mem _)

theorem setLoaded_indices {loaded : List (LoadedSection table)} (index : table.Index)
    (base : UInt32) (indices : Unrepeated loaded) :
    Unrepeated (setLoaded loaded index base) := by
  induction loaded with
  | nil => exact List.pairwise_singleton _ _
  | cons first rest ih =>
      obtain ⟨others, restIndices⟩ := List.pairwise_cons.mp indices
      unfold setLoaded
      split
      · rename_i same
        refine List.pairwise_cons.mpr ⟨fun e member => ?_, restIndices⟩
        have other := others e member
        rw [same] at other
        exact other
      · rename_i other
        refine List.pairwise_cons.mpr ⟨fun e member => ?_, ih restIndices⟩
        rcases mem_setLoaded_cases member with rfl | member
        · exact other
        · exact others e member

theorem setLoaded_ranges {loaded : List (LoadedSection table)} {index : table.Index}
    {base : UInt32}
    (indices : Unrepeated loaded)
    (ranges : loaded.Pairwise fun e e' => e.range.Apart e'.range)
    (free : ∀ e ∈ loaded, e.sectionTableIndex ≠ index → (table.rangeAt index base).Apart e.range) :
    (setLoaded loaded index base).Pairwise fun e e' => e.range.Apart e'.range := by
  induction loaded with
  | nil => exact List.pairwise_singleton _ _
  | cons first rest ih =>
      obtain ⟨others, restIndices⟩ := List.pairwise_cons.mp indices
      obtain ⟨apart, restRanges⟩ := List.pairwise_cons.mp ranges
      have restFree : ∀ e ∈ rest, e.sectionTableIndex ≠ index →
          (table.rangeAt index base).Apart e.range :=
        fun e member => free e (List.mem_cons_of_mem _ member)
      unfold setLoaded
      split
      · rename_i same
        refine List.pairwise_cons.mpr ⟨fun e member => ?_, restRanges⟩
        have other := others e member
        rw [same] at other
        exact restFree e member (Ne.symm other)
      · rename_i other
        refine List.pairwise_cons.mpr ⟨fun e member => ?_, ih restIndices restRanges restFree⟩
        rcases mem_setLoaded_cases member with rfl | member
        · exact (free first (List.mem_cons_self ..) other).symm
        · exact apart e member

theorem indices_keeps : @Keeps table LoadsUnlisted fun s =>
    Unrepeated s.loadedSections where
  move := by
    intro s m indices enabled allowed
    cases m with
    | unload e => exact indices.sublist List.erase_sublist
    | evict e => exact indices.sublist List.erase_sublist
    | load index ram =>
        refine List.pairwise_append.mpr ⟨indices, List.pairwise_singleton _ _, ?_⟩
        intro e member e' new
        rw [List.mem_singleton.mp new]
        exact Overlays.loadedAs_none.mp allowed e member
    | supersede id fragmentPtr => exact indices
    | recordLiveRange id range => exact indices
    | bind rdram id index fragmentPtr => exact setLoaded_indices index fragmentPtr indices
    | scan rdram e => exact indices
  install := by
    intro s next p indices _ installed
    rw [(tryInstall_frame installed).2.1]
    exact indices
  queue := fun s p indices _ => indices
  unqueue := fun s left indices _ => indices

theorem disjoint_keeps : @Keeps table (fun s m => LoadsUnlisted s m ∧ LoadsFree s m)
    Overlays.Disjoint where
  move := by
    intro s m disjoint enabled allowed
    refine ⟨indices_keeps.move s m disjoint.indices enabled allowed.1, ?_⟩
    cases m with
    | unload e => exact disjoint.ranges.sublist List.erase_sublist
    | evict e => exact disjoint.ranges.sublist List.erase_sublist
    | load index ram =>
        refine List.pairwise_append.mpr ⟨disjoint.ranges, List.pairwise_singleton _ _, ?_⟩
        intro e member e' new
        rw [List.mem_singleton.mp new]
        exact (allowed.2 e member (Overlays.loadedAs_none.mp allowed.1 e member)).symm
    | supersede id fragmentPtr => exact disjoint.ranges
    | recordLiveRange id range => exact disjoint.ranges
    | bind rdram id index fragmentPtr =>
        exact setLoaded_ranges disjoint.indices disjoint.ranges allowed.2
    | scan rdram e => exact disjoint.ranges
  install := by
    intro s next p disjoint _ installed
    have frame := (tryInstall_frame installed).2.1
    exact ⟨by rw [frame]; exact disjoint.indices, by rw [frame]; exact disjoint.ranges⟩
  queue := fun s p disjoint _ => ⟨disjoint.indices, disjoint.ranges⟩
  unqueue := fun s left disjoint _ => ⟨disjoint.indices, disjoint.ranges⟩

/-! ## `load_overlays` clears the place first -/

theorem runtimeRangesOverlap_apart {a b : Range} (none : ¬ runtimeRangesOverlap a b) :
    a.Apart b := by
  simp only [runtimeRangesOverlap, Bool.and_eq_true, decide_eq_true_eq, not_and_or,
    Nat.not_lt] at none
  rcases none with behind | before
  · exact (Range.apart_of_le behind).symm
  · exact Range.apart_of_le before

namespace Overlays

open Move

theorem freeFor_of_overlapping {s : Overlays table} {index : table.Index} {base : UInt32}
    (none : s.overlapping index base = none) : s.FreeFor index base := by
  intro e member other
  have apart := List.find?_eq_none.mp none e member
  rw [Bool.and_eq_true, decide_eq_true_eq, not_and] at apart
  exact runtimeRangesOverlap_apart (apart other)

theorem unloadIndex_loaded (s : Overlays table) (index : table.Index) :
    (s.unloadOverlayBySectionIndex index).loadedSections =
      match s.loadedAs index with
      | none => s.loadedSections
      | some e => s.loadedSections.erase e := by
  unfold unloadOverlayBySectionIndex loadedAs
  cases s.loadedSections.find? fun e => decide (e.sectionTableIndex = index) <;> rfl

theorem unloadIndex_sublist (s : Overlays table) (index : table.Index) :
    (s.unloadOverlayBySectionIndex index).loadedSections.Sublist s.loadedSections := by
  rw [unloadIndex_loaded]
  cases s.loadedAs index with
  | none => exact List.Sublist.refl _
  | some e => exact List.erase_sublist

/-- The loop of `evict_overlapping_sections` ends with nothing left to evict. -/
theorem evictOverlapping_clears (rounds : Nat) (s : Overlays table) (index : table.Index)
    (impliedBase : UInt32) (enough : s.loadedSections.length ≤ rounds) :
    (evictOverlappingSections rounds s index impliedBase).overlapping index impliedBase = none := by
  induction rounds generalizing s with
  | zero =>
      have empty : s.loadedSections = [] := List.length_eq_zero_iff.mp (by omega)
      rw [evictOverlappingSections, overlapping, empty, List.find?_nil]
  | succ rounds ih =>
      unfold evictOverlappingSections
      cases found : s.overlapping index impliedBase with
      | none => exact found
      | some e =>
          apply ih
          have loaded := List.mem_of_find?_eq_some found
          rw [unloadIndex_loaded]
          cases listed : s.loadedAs e.sectionTableIndex with
          | none => exact absurd rfl (loadedAs_none.mp listed e loaded)
          | some e' =>
              have shorter := List.length_erase_of_mem (loadedAs_mem listed).1
              dsimp only
              omega

theorem evictOverlapping_unloads (rounds : Nat) (s : Overlays table) (index : table.Index)
    (impliedBase : UInt32) :
    ∀ m ∈ evictOverlappingMoves rounds s index impliedBase, ∃ e, m = .unload e := by
  induction rounds generalizing s with
  | zero => intro m none; cases none
  | succ rounds ih =>
      intro m member
      unfold evictOverlappingMoves at member
      cases found : s.overlapping index impliedBase with
      | none => rw [found] at member; cases member
      | some e =>
          rw [found] at member
          rcases List.mem_append.mp member with first | later
          · obtain ⟨e', _, rfl⟩ := List.mem_map.mp first
            exact ⟨e', rfl⟩
          · exact ih _ m later

theorem indices_nodup {loaded : List (LoadedSection table)}
    (indices : Unrepeated loaded) :
    loaded.Nodup :=
  indices.imp fun other equal => other (congrArg LoadedSection.sectionTableIndex equal)

theorem indices_eq {loaded : List (LoadedSection table)}
    (indices : Unrepeated loaded)
    {e e' : LoadedSection table} (member : e ∈ loaded) (member' : e' ∈ loaded)
    (same : e.sectionTableIndex = e'.sectionTableIndex) : e = e' := by
  have equal := List.Pairwise.forall_of_forall_of_flip
    (R := fun e e' : LoadedSection table => e.sectionTableIndex = e'.sectionTableIndex → e = e')
    (fun _ _ _ => rfl) (indices.imp fun other same => absurd same other)
    (indices.imp fun other same => absurd same.symm other)
  exact equal member member' same

theorem unloadIndex_unlisted {s : Overlays table} (index : table.Index)
    (indices : Unrepeated s.loadedSections) :
    (s.unloadOverlayBySectionIndex index).loadedAs index = none := by
  rw [loadedAs_none, unloadIndex_loaded]
  cases listed : s.loadedAs index with
  | none => exact loadedAs_none.mp listed
  | some e =>
      obtain ⟨loaded, own⟩ := loadedAs_mem listed
      intro e' left same
      obtain ⟨different, loaded'⟩ := (List.Nodup.mem_erase_iff (indices_nodup indices)).mp left
      exact different (indices_eq indices loaded' loaded (same.trans own.symm))

end Overlays

theorem Move.Chain.of_all {ok : Overlays table → Move table → Prop} {moves : List (Move table)}
    (all : ∀ m ∈ moves, ∀ s, ok s m) (s : Overlays table) : Move.Chain ok s moves := by
  induction moves generalizing s with
  | nil => trivial
  | cons m rest ih =>
      exact ⟨all m (List.mem_cons_self ..) s, ih (fun m' member =>
        all m' (List.mem_cons_of_mem _ member)) _⟩

namespace Overlays

open Move

theorem registerIfNew_allowed {s : Overlays table} (target : table.Index × UInt32)
    (indices : Unrepeated s.loadedSections) :
    Chain (fun s m => LoadsUnlisted s m ∧ LoadsFree s m) s (s.registerIfNewMoves target) := by
  have unloads := evictOverlapping_unloads s.loadedSections.length s target.1 target.2
  have performs := evictOverlapping_performs s.loadedSections.length s target.1 target.2
  have evicts : Chain (fun s m => LoadsUnlisted s m ∧ LoadsFree s m) s _ :=
    Chain.of_all (fun m member s => by
      obtain ⟨e, rfl⟩ := unloads m member
      exact ⟨trivial, trivial⟩) s
  refine chain_append.mpr ⟨evicts, ?_⟩
  rw [← performs.result]
  have clear := evictOverlapping_clears s.loadedSections.length s target.1 target.2 (Nat.le_refl _)
  have kept := indices_keeps.run performs (evicts.imp fun s m allowed => allowed.1) indices
  revert clear kept
  generalize evictOverlappingSections s.loadedSections.length s target.1 target.2 = cleared
  intro clear kept
  have free := freeFor_of_overlapping clear
  unfold reloadMoves
  cases listed : cleared.loadedAs target.1 with
  | none => exact ⟨⟨listed, free⟩, trivial⟩
  | some e =>
      dsimp only
      split
      · refine chain_append.mpr ⟨?_, ⟨?_, ?_⟩, trivial⟩
        · refine Chain.of_all (fun m member s => ?_) cleared
          obtain ⟨e', _, rfl⟩ := List.mem_map.mp member
          exact ⟨trivial, trivial⟩
        · rw [← (unloadIndex_performs cleared target.1).result]
          exact unloadIndex_unlisted target.1 kept
        · rw [← (unloadIndex_performs cleared target.1).result]
          exact fun e' left => free e' ((unloadIndex_sublist cleared target.1).subset left)
      · trivial

theorem load_allowed (targets : List (table.Index × UInt32)) {s : Overlays table}
    (indices : Unrepeated s.loadedSections) :
    Chain (fun s m => LoadsUnlisted s m ∧ LoadsFree s m) s (loadMoves targets s) := by
  induction targets generalizing s with
  | nil => trivial
  | cons target rest ih =>
      have allowed := registerIfNew_allowed target indices
      have performs := registerIfNew_performs s target
      refine chain_append.mpr ⟨allowed, ?_⟩
      rw [← performs.result]
      exact ih (indices_keeps.run performs (allowed.imp fun s m ok => ok.1) indices)

theorem mem_evict_iff (prior : List (LoadedSection table)) (s : Overlays table)
    (nodup : s.loadedSections.Nodup) (e : LoadedSection table) :
    e ∈ (prior.foldl evict s).loadedSections ↔ e ∈ s.loadedSections ∧ e ∉ prior := by
  induction prior generalizing s with
  | nil => simp only [List.foldl_nil, List.not_mem_nil, not_false_eq_true, and_true]
  | cons first rest ih =>
      have left : (s.evict first).loadedSections = s.loadedSections.erase first := rfl
      rw [List.foldl_cons, ih _ (by rw [left]; exact nodup.erase first), left,
        List.Nodup.mem_erase_iff nodup, List.mem_cons, not_or]
      tauto

/-- When a section is bound, no other one starts at its base any more. -/
theorem mem_evicted {s : Overlays table} {skip : Option table.Index} {fragmentPtr : UInt32}
    (nodup : s.loadedSections.Nodup) (e : LoadedSection table) :
    e ∈ (s.evictPriorAtBase skip fragmentPtr).loadedSections ↔
      e ∈ s.loadedSections ∧
        (e.loadedRamAddr = fragmentPtr → some e.sectionTableIndex = skip) := by
  rw [evictPriorAtBase, mem_evict_iff _ _ nodup, priorAtBase, List.mem_filter,
    Bool.and_eq_true, decide_eq_true_eq, decide_eq_true_eq]
  tauto

theorem loadOverlayById_allowed {s : Overlays table} {index : table.Index} {ramAddr : UInt32}
    (indices : Unrepeated s.loadedSections)
    (apart :
      let prevAddress := s.sectionAddresses (table.codeSections index).index
      if prevAddress = (table.codeSections index).ramAddr then
        s.loadedAs index = none ∧ s.FreeFor index ramAddr
      else s.FreeFor index (prevAddress + ramAddr)) :
    Chain (fun s m => LoadsUnlisted s m ∧ LoadsFree s m) s
      (s.loadOverlayByIdMoves index ramAddr) := by
  unfold loadOverlayByIdMoves
  dsimp only at apart ⊢
  split
  · rename_i atLink
    rw [if_pos atLink] at apart
    exact ⟨apart, trivial⟩
  · rename_i moved
    rw [if_neg moved] at apart
    have performs := unloadIndex_performs s index
    refine chain_append.mpr ⟨?_, ⟨?_, ?_⟩, trivial⟩
    · refine Chain.of_all (fun m member s => ?_) s
      obtain ⟨e, _, rfl⟩ := List.mem_map.mp member
      exact ⟨trivial, trivial⟩
    · rw [← performs.result]
      exact unloadIndex_unlisted index indices
    · rw [← performs.result]
      exact fun e left => apart e ((unloadIndex_sublist s index).subset left)

theorem evictPrior_allowed (s : Overlays table) (skip : Option table.Index)
    (fragmentPtr : UInt32) :
    Chain (fun s m => LoadsUnlisted s m ∧ LoadsFree s m) s (s.evictMoves skip fragmentPtr) := by
  refine Chain.of_all (fun m member s => ?_) s
  obtain ⟨e, _, rfl⟩ := List.mem_map.mp member
  exact ⟨trivial, trivial⟩

theorem register_allowed {s : Overlays table} {rdram : Rdram} {id fragmentPtr : UInt32}
    (nodup : s.loadedSections.Nodup)
    (apart : LoadsApart s (.registerRuntimeFragment rdram id fragmentPtr)) :
    Chain (fun s m => LoadsUnlisted s m ∧ LoadsFree s m) s
      (s.registerMoves rdram id fragmentPtr) := by
  unfold registerMoves
  split
  · trivial
  · rename_i someBase
    cases selected : selectSection table rdram id fragmentPtr with
    | none =>
        refine chain_append.mpr ⟨evictPrior_allowed s none fragmentPtr, ⟨trivial, trivial⟩, ?_⟩
        split
        · exact ⟨⟨trivial, trivial⟩, trivial⟩
        · trivial
    | some index =>
        refine chain_append.mpr ⟨evictPrior_allowed s (some index) fragmentPtr,
          ⟨trivial, ?_⟩, trivial⟩
        rw [← (evictPrior_performs s (some index) fragmentPtr).result]
        intro e left other
        obtain ⟨loaded, kept⟩ := (mem_evicted nodup e).mp left
        refine apart someBase index selected e loaded other fun sameBase => ?_
        exact other (Option.some.inj (kept sameBase))

theorem calls_allowed {s : Overlays table} {call : Call} (disjoint : s.Disjoint)
    (apart : LoadsApart s call) :
    MovesMeet (fun s m => LoadsUnlisted s m ∧ LoadsFree s m) s call := by
  have unloads : ∀ (s : Overlays table) (index : table.Index),
      Chain (fun s m => LoadsUnlisted s m ∧ LoadsFree s m) s (s.unloadIndexMoves index) := by
    intro s index
    refine Chain.of_all (fun m member s => ?_) s
    obtain ⟨e, _, rfl⟩ := List.mem_map.mp member
    exact ⟨trivial, trivial⟩
  unfold MovesMeet
  cases call with
  | loadOverlays rom ramAddr size => exact load_allowed _ disjoint.indices
  | loadOverlayById id ramAddr =>
      simp only [callMoves]
      cases listed : table.overlays[id]? with
      | none => trivial
      | some index => exact loadOverlayById_allowed disjoint.indices (apart index listed)
  | unloadOverlayById id =>
      simp only [callMoves]
      cases table.overlays[id]? with
      | none => trivial
      | some index => exact unloads s index
  | unloadOverlays ramAddr size =>
      refine Chain.of_all (fun m member s => ?_) s
      obtain ⟨e, _, rfl⟩ := List.mem_map.mp member
      exact ⟨trivial, trivial⟩
  | registerRuntimeFragment rdram id fragmentPtr =>
      exact register_allowed (indices_nodup disjoint.indices) apart
  | unregisterRuntimeFragment id =>
      simp only [callMoves]
      cases s.runtimeFragmentIdToSection id with
      | none => trivial
      | some index => exact unloads s index
  | scanLoadedFragmentTrampolines rdram rom size =>
      refine Chain.of_all (fun m member s => ?_) s
      obtain ⟨e, _, rfl⟩ := List.mem_map.mp member
      exact ⟨trivial, trivial⟩

end Overlays

/-! ## The condition is exact -/

theorem slots_keep_loaded (loaded : List (LoadedSection table)) :
    Keeps (fun _ _ => False) fun s : Overlays table => s.loadedSections = loaded where
  move := fun _ _ _ _ none => none.elim
  install := fun _ _ _ kept _ installed => (tryInstall_frame installed).2.1.trans kept
  queue := fun _ _ kept _ => kept
  unqueue := fun _ _ kept _ => kept

namespace Overlays

theorem register_loaded {s : Overlays table} {rdram : Rdram} {id fragmentPtr : UInt32}
    {index : table.Index} (someBase : fragmentPtr ≠ 0)
    (selected : selectSection table rdram id fragmentPtr = some index) :
    (s.registerRuntimeFragment rdram id fragmentPtr).loadedSections =
      setLoaded (s.evictPriorAtBase (some index) fragmentPtr).loadedSections index
        fragmentPtr := by
  rw [registerRuntimeFragment, if_neg someBase, selected]
  have keeps := slots_keep_loaded (setLoaded
    (s.evictPriorAtBase (some index) fragmentPtr).loadedSections index fragmentPtr)
  refine keeps.retry (keeps.scan ?_ ?_ (if_pos rfl)).1
  · rfl
  · exact Keeps.mem_setLoaded _ index fragmentPtr

theorem mem_setLoaded_other {loaded : List (LoadedSection table)} {index : table.Index}
    {base : UInt32} {e : LoadedSection table} (member : e ∈ loaded)
    (other : e.sectionTableIndex ≠ index) : e ∈ setLoaded loaded index base := by
  induction loaded with
  | nil => contradiction
  | cons first rest ih =>
      unfold setLoaded
      split
      · rename_i own
        rcases List.mem_cons.mp member with rfl | member
        · contradiction
        · exact List.mem_cons_of_mem _ member
      · rcases List.mem_cons.mp member with rfl | member
        · exact List.mem_cons_self ..
        · exact List.mem_cons_of_mem _ (ih member)

theorem mem_setLoaded_iff {loaded : List (LoadedSection table)} (indices : Unrepeated loaded)
    (index : table.Index) (base : UInt32) (e : LoadedSection table) :
    e ∈ setLoaded loaded index base ↔
      e = ⟨base, index⟩ ∨ e ∈ loaded ∧ e.sectionTableIndex ≠ index := by
  constructor
  · intro member
    by_cases own : e.sectionTableIndex = index
    · left
      have bound := Keeps.mem_setLoaded loaded index base
      exact indices_eq (setLoaded_indices index base indices) member bound own
    · rcases mem_setLoaded_cases member with rfl | loaded
      · exact absurd rfl own
      · exact .inr ⟨loaded, own⟩
  · rintro (rfl | ⟨member, other⟩)
    · exact Keeps.mem_setLoaded loaded index base
    · exact mem_setLoaded_other member other

theorem Disjoint.apart {s : Overlays table} (disjoint : s.Disjoint) {e e' : LoadedSection table}
    (member : e ∈ s.loadedSections) (member' : e' ∈ s.loadedSections) (different : e ≠ e') :
    e.range.Apart e'.range := by
  have ordered : s.loadedSections.Pairwise fun e e' => e ≠ e' → e.range.Apart e'.range := by
    apply disjoint.ranges.imp
    intro e e' apart _
    exact apart
  have flipped : s.loadedSections.Pairwise
      (flip fun e e' => e ≠ e' → e.range.Apart e'.range) := by
    apply disjoint.ranges.imp
    intro e e' apart _
    exact apart.symm
  exact List.Pairwise.forall_of_forall_of_flip (fun _ _ none => absurd rfl none) ordered flipped
    member member' different

theorem loads_apart_of_register {s : Overlays table} {rdram : Rdram} {id fragmentPtr : UInt32}
    (disjoint : s.Disjoint) (after : (s.registerRuntimeFragment rdram id fragmentPtr).Disjoint) :
    LoadsApart s (.registerRuntimeFragment rdram id fragmentPtr) := by
  intro someBase index selected e loaded other elsewhere
  have list := register_loaded (s := s) someBase selected
  have bound : (⟨fragmentPtr, index⟩ : LoadedSection table) ∈
      (s.registerRuntimeFragment rdram id fragmentPtr).loadedSections := by
    rw [list]
    exact Keeps.mem_setLoaded _ index fragmentPtr
  have kept : e ∈ (s.registerRuntimeFragment rdram id fragmentPtr).loadedSections := by
    rw [list]
    refine mem_setLoaded_other ((mem_evicted (indices_nodup disjoint.indices) e).mpr ?_) other
    exact ⟨loaded, fun same => absurd same elsewhere⟩
  exact after.apart bound kept fun same => other (congrArg LoadedSection.sectionTableIndex same.symm)

theorem loads_apart_of_load {s : Overlays table} {index : table.Index} {base : UInt32}
    (after : (s.loadOverlay index base).Disjoint) :
    s.loadedAs index = none ∧ s.FreeFor index base := by
  obtain ⟨_, _, others⟩ := List.pairwise_append.mp after.indices
  obtain ⟨_, _, apart⟩ := List.pairwise_append.mp after.ranges
  refine ⟨loadedAs_none.mpr fun e member => ?_, fun e member _ => ?_⟩
  · exact others e member _ (List.mem_singleton_self _)
  · exact (apart e member _ (List.mem_singleton_self _)).symm

/-- Where the condition fails, the call leaves two sections that share an address, or one
section in two entries. -/
theorem disjoint_iff_loads_apart {s t : Overlays table} {call : Call} (disjoint : s.Disjoint)
    (returned : overlayStep s call = some t) : t.Disjoint ↔ LoadsApart s call := by
  refine ⟨fun after => ?_, fun apart =>
    disjoint_keeps.step disjoint (calls_allowed disjoint apart) returned⟩
  cases call with
  | loadOverlayById id ramAddr =>
      intro index listed
      simp only [overlayStep, listed, Option.map_some, Option.some.injEq] at returned
      subst returned
      unfold loadOverlayById at after
      dsimp only at after ⊢
      split
      · rename_i atLink
        rw [if_pos atLink] at after
        exact loads_apart_of_load after
      · rename_i moved
        rw [if_neg moved] at after
        intro e loaded other
        have free := (loads_apart_of_load after).2
        refine free e ?_ other
        rw [unloadIndex_loaded]
        cases found : s.loadedAs index with
        | none => exact loaded
        | some own =>
            refine (List.mem_erase_of_ne fun same => ?_).mpr loaded
            rw [same] at other
            exact other (loadedAs_mem found).2
  | registerRuntimeFragment rdram id fragmentPtr =>
      cases returned
      exact loads_apart_of_register disjoint after
  | loadOverlays rom ramAddr size => trivial
  | unloadOverlayById id => trivial
  | unloadOverlays ramAddr size => trivial
  | unregisterRuntimeFragment id => trivial
  | scanLoadedFragmentTrampolines rdram rom size => trivial

end Overlays

/-- The loaded sections are disjoint in every run in which a fragment is only bound apart
from the sections at other bases, and a section that is loaded by id is not loaded already. -/
theorem loaded_sections_disjoint {s : Overlays table}
    (reached : Reach overlayStep LoadsApart OverlaysStarted s) : s.Disjoint := by
  refine reached.invariant ?_ ?_
  · rintro s rfl
    exact ⟨List.Pairwise.nil, List.Pairwise.nil⟩
  · intro s call t disjoint apart returned
    exact disjoint_keeps.step disjoint (Overlays.calls_allowed disjoint apart) returned

/-- A fragment with one jump slot, which is also a function, and one function behind it; and a
fragment with a function at its start. -/
def twoFragments : SectionTable where
  numCodeSections := 2
  codeSections := fun i =>
    if i = 0 then ⟨0x1000, 0x81000000, 0x1000, [⟨some 1, 0x20, 8⟩, ⟨some 2, 0x28, 0x40⟩], 0, 0,
      0xFFFFFFFF⟩
    else ⟨0x2000, 0x81100000, 0x1000, [⟨some 3, 0, 0x40⟩], 1, 0, 0xFFFFFFFF⟩
  overlays := [0, 1]
  sorted := by decide
  index_injective := by decide
  aligned := by decide
  offset_lt := by decide
  offset_injective := by decide

def firstFragment : twoFragments.Index := (0 : Fin 2)

def secondFragment : twoFragments.Index := (1 : Fin 2)

def emptyRdram : Rdram := fun _ => 0

def wordsRdram (words : List (UInt32 × UInt32)) : Rdram := fun hostOffset =>
  let paddr := hostOffset ^^^ 3
  match words.lookup (paddr - (paddr &&& 3)) with
  | none => 0
  | some word => (word >>> (8 * (3 - (paddr &&& 3)))).toUInt8

theorem loaded_sections_disjoint_two : ∃ s : Overlays twoFragments,
    Reach overlayStep LoadsApart OverlaysStarted s ∧
      s.loadedSections = [⟨0x80100000, firstFragment⟩, ⟨0x80200000, secondFragment⟩] ∧
      s.Disjoint := by
  let first := (Overlays.initOverlays twoFragments).registerRuntimeFragment emptyRdram 0 0x80100000
  let second := first.registerRuntimeFragment emptyRdram 1 0x80200000
  have firstList : first.loadedSections = [⟨0x80100000, firstFragment⟩] := by decide
  have secondList : second.loadedSections =
      [⟨0x80100000, firstFragment⟩, ⟨0x80200000, secondFragment⟩] := by decide
  have apart : LoadsApart first (.registerRuntimeFragment emptyRdram 1 0x80200000) := by
    intro _ index selected e loaded _ _
    have index : index = secondFragment := by
      have second : selectSection twoFragments emptyRdram 1 0x80200000 = some secondFragment := by
        decide
      exact Option.some.inj (selected.symm.trans second)
    subst index
    rw [firstList, List.mem_singleton] at loaded
    subst loaded
    refine (Range.apart_of_le ?_).symm
    decide
  have empty : LoadsApart (Overlays.initOverlays twoFragments)
      (.registerRuntimeFragment emptyRdram 0 0x80100000) := by
    intro _ index _ e none
    cases none
  have reached : Reach overlayStep LoadsApart OverlaysStarted second :=
    .next _ (.next _ (.start rfl) empty rfl) apart rfl
  exact ⟨second, reached, secondList, loaded_sections_disjoint reached⟩

theorem fragments_overlap : ¬ ∀ s : Overlays twoFragments,
    Reach overlayStep Always OverlaysStarted s → s.Disjoint := by
  intro claimed
  let first := (Overlays.initOverlays twoFragments).registerRuntimeFragment emptyRdram 0 0x80100000
  let second := first.registerRuntimeFragment emptyRdram 1 0x80100800
  have reached : Reach overlayStep Always OverlaysStarted second :=
    .next (.registerRuntimeFragment emptyRdram 1 0x80100800)
      (.next (.registerRuntimeFragment emptyRdram 0 0x80100000) (.start rfl) trivial rfl) trivial rfl
  have list : second.loadedSections =
      [⟨0x80100000, firstFragment⟩, ⟨0x80100800, secondFragment⟩] := by decide
  have apart := (claimed second reached).ranges
  rw [list] at apart
  have both := List.rel_of_pairwise_cons apart (List.mem_singleton_self _)
  exact both 0x80100800 (by decide) (by decide)

end N64ModernRuntime.Librecomp
