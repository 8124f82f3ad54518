import N64ModernRuntime.Librecomp.LoadedSections

/-!
# overlays.cpp: the section-address table

Recompiled code reads `section_addresses` in every relocation.  An entry holds
the base of a section that is loaded and the link address of one that is not,
except that the setter drops a base that is not a multiple of 4.
-/

set_option autoImplicit false

namespace N64ModernRuntime.Librecomp

open AddressMap Transition

variable {table : SectionTable}

def Overlays.addressOf (s : Overlays table) (index : table.Index) : UInt32 :=
  s.sectionAddresses (table.codeSections index).index

/-- Where every section is, for the bases that the setter accepts. -/
structure Overlays.Located (s : Overlays table) : Prop where
  indices : Unrepeated s.loadedSections
  loaded : ∀ e ∈ s.loadedSections, e.loadedRamAddr &&& 3 = 0 →
    s.addressOf e.sectionTableIndex = e.loadedRamAddr
  unloaded : ∀ index, s.loadedAs index = none →
    s.addressOf index = (table.codeSections index).ramAddr
  aligned : ∀ slot, s.sectionAddresses slot &&& 3 = 0

def Overlays.LocatedAnywhere (s : Overlays table) : Prop :=
  (∀ e ∈ s.loadedSections, s.addressOf e.sectionTableIndex = e.loadedRamAddr) ∧
    (∀ index, s.loadedAs index = none →
      s.addressOf index = (table.codeSections index).ramAddr) ∧
    ∀ slot, s.sectionAddresses slot &&& 3 = 0

/-- `load_overlay_by_id` is not called for a section that is loaded while its entry holds its
link address. -/
def LoadsOnce (s : Overlays table) : Call → Prop
  | .loadOverlayById id _ =>
      ∀ index, table.overlays[id]? = some index →
        s.addressOf index = (table.codeSections index).ramAddr → s.loadedAs index = none
  | _ => True

/-! ## The setter -/

theorem secaddrSet_own {addresses : Nat → UInt32} {slot : Nat} {value : UInt32}
    (aligned : value &&& 3 = 0) : secaddrSet addresses slot value slot = value := by
  rw [secaddrSet, if_neg (not_not_intro aligned), if_pos rfl]

theorem secaddrSet_other {addresses : Nat → UInt32} {slot other : Nat} {value : UInt32}
    (different : other ≠ slot) : secaddrSet addresses slot value other = addresses other := by
  unfold secaddrSet
  split
  · rfl
  · exact if_neg different

theorem secaddrSet_aligned {addresses : Nat → UInt32} (slot : Nat) (value : UInt32)
    (aligned : ∀ slot, addresses slot &&& 3 = 0) (other : Nat) :
    secaddrSet addresses slot value other &&& 3 = 0 := by
  unfold secaddrSet
  split
  · exact aligned other
  · rename_i kept
    dsimp only
    split
    · exact not_not.mp kept
    · exact aligned other

/-! ## The moves -/

namespace Overlays

theorem Located.drop {s : Overlays table} {e : LoadedSection table} {funcMap : FuncMap}
    (located : s.Located) (member : e ∈ s.loadedSections) : (s.drop e funcMap).Located := by
  have nodup := indices_nodup located.indices
  have others : ∀ index, index ≠ e.sectionTableIndex →
      (s.drop e funcMap).addressOf index = s.addressOf index :=
    fun index other => secaddrSet_other fun same => other (table.index_injective _ _ same)
  refine ⟨located.indices.sublist List.erase_sublist, ?_, ?_, ?_⟩
  · intro e' left aligned
    obtain ⟨different, loaded⟩ := (List.Nodup.mem_erase_iff nodup).mp left
    rw [others _ fun same => different (indices_eq located.indices loaded member same)]
    exact located.loaded e' loaded aligned
  · intro index unlisted
    by_cases own : index = e.sectionTableIndex
    · rw [own]
      exact secaddrSet_own (table.aligned _)
    · rw [others index own]
      refine located.unloaded index (loadedAs_none.mpr fun e' loaded same => ?_)
      have different : e' ≠ e := fun equal => own (by rw [← same, equal])
      exact loadedAs_none.mp unlisted e'
        ((List.Nodup.mem_erase_iff nodup).mpr ⟨different, loaded⟩) same
  · exact secaddrSet_aligned _ _ located.aligned

theorem Located.place {s : Overlays table} {index : table.Index} {base : UInt32}
    {next : Overlays table} (located : s.Located)
    (addresses : next.sectionAddresses =
      secaddrSet s.sectionAddresses (table.codeSections index).index base)
    (indices : Unrepeated next.loadedSections)
    (list : ∀ e, e ∈ next.loadedSections ↔
      e = ⟨base, index⟩ ∨ e ∈ s.loadedSections ∧ e.sectionTableIndex ≠ index) :
    next.Located := by
  have others : ∀ other, other ≠ index → next.addressOf other = s.addressOf other := by
    intro other different
    rw [addressOf, addresses]
    exact secaddrSet_other fun same => different (table.index_injective _ _ same)
  refine ⟨indices, ?_, ?_, ?_⟩
  · intro e member aligned
    rcases (list e).mp member with rfl | ⟨loaded, other⟩
    · rw [addressOf, addresses]
      exact secaddrSet_own aligned
    · rw [others _ other]
      exact located.loaded e loaded aligned
  · intro other unlisted
    have different : other ≠ index := by
      rintro rfl
      exact loadedAs_none.mp unlisted _ ((list _).mpr (.inl rfl)) rfl
    rw [others other different]
    refine located.unloaded other (loadedAs_none.mpr fun e loaded same => ?_)
    exact loadedAs_none.mp unlisted e ((list e).mpr (.inr ⟨loaded, same ▸ different⟩)) same
  · rw [addresses]
    exact secaddrSet_aligned _ _ located.aligned

end Overlays

theorem located_keeps : @Keeps table LoadsUnlisted Overlays.Located where
  move := by
    intro s m located enabled allowed
    have indices := indices_keeps.move s m located.indices enabled allowed
    cases m with
    | unload e => exact located.drop enabled
    | evict e => exact located.drop enabled
    | load index ram =>
        refine located.place rfl indices fun e => ?_
        have unlisted := Overlays.loadedAs_none.mp allowed e
        have appended : (Move.apply s (.load index ram)).loadedSections =
            s.loadedSections ++ [⟨ram, index⟩] := rfl
        rw [appended, List.mem_append, List.mem_singleton]
        tauto
    | supersede id fragmentPtr =>
        exact ⟨indices, located.loaded, located.unloaded, located.aligned⟩
    | recordLiveRange id range => exact ⟨indices, located.loaded, located.unloaded, located.aligned⟩
    | bind rdram id index fragmentPtr =>
        exact located.place rfl indices fun e =>
          Overlays.mem_setLoaded_iff located.indices index fragmentPtr e
    | scan rdram e => exact ⟨indices, located.loaded, located.unloaded, located.aligned⟩
  install := by
    intro s next p located _ installed
    obtain ⟨func, rfl⟩ := tryInstall_some installed
    exact ⟨located.indices, located.loaded, located.unloaded, located.aligned⟩
  queue := fun s p located _ => ⟨located.indices, located.loaded, located.unloaded, located.aligned⟩
  unqueue := fun s left located _ =>
    ⟨located.indices, located.loaded, located.unloaded, located.aligned⟩

/-! ## The calls -/

namespace Overlays

open Move

theorem setLinkAddress_each (indices : List table.Index) (addresses : Nat → UInt32)
    (index : table.Index)
    (given : index ∈ indices ∨
      addresses (table.codeSections index).index = (table.codeSections index).ramAddr) :
    indices.foldl setLinkAddress addresses (table.codeSections index).index =
      (table.codeSections index).ramAddr := by
  induction indices generalizing addresses with
  | nil =>
      rcases given with none | same
      · contradiction
      · exact same
  | cons first rest ih =>
      apply ih
      by_cases own : index = first
      · right
        rw [setLinkAddress, ← own]
        exact secaddrSet_own (table.aligned index)
      · rcases given with member | same
        · exact .inl ((List.mem_cons.mp member).resolve_left own)
        · right
          rw [setLinkAddress, secaddrSet_other fun equal => own (table.index_injective _ _ equal)]
          exact same

theorem setLinkAddress_aligned (indices : List table.Index) (addresses : Nat → UInt32)
    (aligned : ∀ slot, addresses slot &&& 3 = 0) (slot : Nat) :
    indices.foldl setLinkAddress addresses slot &&& 3 = 0 := by
  induction indices generalizing addresses with
  | nil => exact aligned slot
  | cons first rest ih => exact ih _ (secaddrSet_aligned _ _ aligned)

theorem init_located : (initOverlays table).Located := by
  refine ⟨List.Pairwise.nil, fun e none => (List.not_mem_nil none).elim, fun index _ => ?_, ?_⟩
  · exact setLinkAddress_each _ _ index (.inl (List.mem_finRange index))
  · exact setLinkAddress_aligned _ _ fun _ => rfl

theorem calls_unlisted {s : Overlays table} {call : Call} (indices : Unrepeated s.loadedSections)
    (once : LoadsOnce s call) : MovesMeet LoadsUnlisted s call := by
  have unloads : ∀ (s : Overlays table) (index : table.Index),
      Chain LoadsUnlisted s (s.unloadIndexMoves index) := by
    intro s index
    refine Chain.of_all (fun m member s => ?_) s
    obtain ⟨e, _, rfl⟩ := List.mem_map.mp member
    trivial
  have evicts : ∀ (skip : Option table.Index) (fragmentPtr : UInt32),
      Chain LoadsUnlisted s (s.evictMoves skip fragmentPtr) :=
    fun skip fragmentPtr =>
      (evictPrior_allowed s skip fragmentPtr).imp fun s m allowed => allowed.1
  unfold MovesMeet
  cases call with
  | loadOverlays rom ramAddr size =>
      exact (load_allowed _ indices).imp fun s m allowed => allowed.1
  | loadOverlayById id ramAddr =>
      simp only [callMoves]
      cases listed : table.overlays[id]? with
      | none => trivial
      | some index =>
          dsimp only [loadOverlayByIdMoves]
          split
          · rename_i atLink
            exact ⟨once index listed atLink, trivial⟩
          · refine chain_append.mpr ⟨unloads s index, ?_, trivial⟩
            rw [← (unloadIndex_performs s index).result]
            exact unloadIndex_unlisted index indices
  | unloadOverlayById id =>
      simp only [callMoves]
      cases table.overlays[id]? with
      | none => trivial
      | some index => exact unloads s index
  | unloadOverlays ramAddr size =>
      refine Chain.of_all (fun m member s => ?_) s
      obtain ⟨e, _, rfl⟩ := List.mem_map.mp member
      trivial
  | registerRuntimeFragment rdram id fragmentPtr =>
      simp only [callMoves, registerMoves]
      split
      · trivial
      · cases selectSection table rdram id fragmentPtr with
        | none =>
            refine chain_append.mpr ⟨evicts none fragmentPtr, trivial, ?_⟩
            split
            · exact ⟨trivial, trivial⟩
            · trivial
        | some index =>
            exact chain_append.mpr ⟨evicts (some index) fragmentPtr, trivial, trivial⟩
  | unregisterRuntimeFragment id =>
      simp only [callMoves]
      cases s.runtimeFragmentIdToSection id with
      | none => trivial
      | some index => exact unloads s index
  | scanLoadedFragmentTrampolines rdram rom size =>
      refine Chain.of_all (fun m member s => ?_) s
      obtain ⟨e, _, rfl⟩ := List.mem_map.mp member
      trivial

end Overlays

/-- The table says where every section is that is loaded at a multiple of 4, and holds the link
address of every section that is not loaded. -/
theorem section_addresses_located {s : Overlays table}
    (reached : Reach overlayStep LoadsOnce OverlaysStarted s) : s.Located := by
  refine reached.invariant ?_ ?_
  · rintro s rfl
    exact Overlays.init_located
  · intro s call t located once returned
    exact located_keeps.step located (Overlays.calls_unlisted located.indices once) returned

theorem section_addresses_located_two : ∃ s : Overlays twoFragments,
    Reach overlayStep LoadsOnce OverlaysStarted s ∧
      s.loadedSections = [⟨0x80100000, firstFragment⟩, ⟨0x80400000, secondFragment⟩] ∧
      s.addressOf firstFragment = 0x80100000 ∧ s.addressOf secondFragment = 0x80400000 ∧
      s.Located := by
  let first := (Overlays.initOverlays twoFragments).registerRuntimeFragment emptyRdram 0 0x80100000
  let both := first.loadOverlayById secondFragment 0x80400000
  have once : LoadsOnce first (.loadOverlayById 1 0x80400000) := by
    intro index listed _
    have index : index = secondFragment := (Option.some.inj listed).symm
    subst index
    show first.loadedAs secondFragment = none
    decide
  have reached : Reach overlayStep LoadsOnce OverlaysStarted both :=
    .next (.loadOverlayById 1 0x80400000)
      (.next (.registerRuntimeFragment emptyRdram 0 0x80100000) (.start rfl) trivial rfl) once rfl
  have list : both.loadedSections =
      [⟨0x80100000, firstFragment⟩, ⟨0x80400000, secondFragment⟩] := by decide
  have located := section_addresses_located reached
  refine ⟨both, reached, list, ?_, ?_, located⟩
  · exact located.loaded ⟨0x80100000, firstFragment⟩ (by rw [list]; decide) (by decide)
  · exact located.loaded ⟨0x80400000, secondFragment⟩ (by rw [list]; decide) (by decide)

/-- The setter drops the base of a fragment that does not lie at a multiple of 4. -/
theorem misaligned_base_dropped : ¬ ∀ s : Overlays twoFragments,
    Reach overlayStep Always OverlaysStarted s → s.LocatedAnywhere := by
  intro claimed
  let loaded := (Overlays.initOverlays twoFragments).registerRuntimeFragment emptyRdram 0 0x80100002
  have reached : Reach overlayStep Always OverlaysStarted loaded :=
    .next (.registerRuntimeFragment emptyRdram 0 0x80100002) (.start rfl) trivial rfl
  have list : loaded.loadedSections = [⟨0x80100002, firstFragment⟩] := by decide
  have address := (claimed loaded reached).1 ⟨0x80100002, firstFragment⟩ (by rw [list]; decide)
  have kept : loaded.addressOf firstFragment = 0x81000000 := by decide
  rw [kept] at address
  exact absurd address (by decide)

end N64ModernRuntime.Librecomp
