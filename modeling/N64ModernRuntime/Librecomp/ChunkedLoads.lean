import Mathlib.Algebra.GroupWithZero.Nat
import Mathlib.Data.List.Count
import N64ModernRuntime.Librecomp.LoadedSections

/-!
# overlays.cpp: sections that are loaded in chunks

A DMA transfer may hold whole sections, end in one or begin in one.  Wherever
an interval of ROM is cut, each section in it is registered by the transfer
that holds it or by the first one that begins in it.
-/

set_option autoImplicit false

namespace N64ModernRuntime.Librecomp

open AddressMap

variable {table : SectionTable}

/-- The calls for chunks of these sizes, one behind the other. -/
def Overlays.loadChunks (s : Overlays table) : UInt32 → UInt32 → List UInt32 →
    Option (Overlays table)
  | _, _, [] => some s
  | rom, ramAddr, size :: rest =>
      (s.loadOverlays rom ramAddr size).bind fun s => s.loadChunks (rom + size) (ramAddr + size) rest

def SectionTable.romRange (table : SectionTable) (index : table.Index) : Range :=
  ⟨(table.codeSections index).romAddr, (table.codeSections index).size⟩

def chunkBytes (sizes : List UInt32) : Nat := (sizes.map UInt32.toNat).sum

structure SectionTable.Separate (table : SectionTable) : Prop where
  nonempty : ∀ index : table.Index, (table.codeSections index).size ≠ 0
  disjoint : ∀ index other : table.Index, index ≠ other →
    (table.romRange index).Apart (table.romRange other)

theorem SectionTable.Separate.positive (separate : table.Separate) (index : table.Index) :
    0 < (table.codeSections index).size.toNat := by
  rw [Nat.pos_iff_ne_zero]
  exact fun none => separate.nonempty index (UInt32.toNat_inj.mp none)

def SectionTable.InRom (table : SectionTable) (index : table.Index) (lo hi : Nat) : Prop :=
  lo ≤ (table.codeSections index).romAddr.toNat ∧
    (table.codeSections index).romAddr.toNat + (table.codeSections index).size.toNat ≤ hi

instance (index : table.Index) (lo hi : Nat) : Decidable (table.InRom index lo hi) :=
  inferInstanceAs (Decidable (_ ∧ _))

/-- Chunks of an interval of ROM that cuts no section, within 32 bits. -/
structure Chunked (table : SectionTable) (rom ramAddr : UInt32) (sizes : List UInt32) : Prop where
  positive : ∀ size ∈ sizes, size ≠ 0
  rom_fits : rom.toNat + chunkBytes sizes < UInt32.size
  ram_fits : ramAddr.toNat + chunkBytes sizes < UInt32.size
  uncut : ∀ index : table.Index, table.InRom index rom.toNat (rom.toNat + chunkBytes sizes) ∨
    rom.toNat + chunkBytes sizes ≤ (table.codeSections index).romAddr.toNat ∨
      (table.codeSections index).romAddr.toNat + (table.codeSections index).size.toNat ≤ rom.toNat

def ListedOnce (loaded : List (LoadedSection table)) (index : table.Index) : Prop :=
  loaded.countP (fun e => decide (e.sectionTableIndex = index)) ≤ 1

/-! ## The bounds -/

section Bounds

theorem findIdx_finRange {n : Nat} (p : Fin n → Bool) (upward : ∀ i j, i ≤ j → p i = true → p j = true)
    (i : Fin n) : i.val < (List.finRange n).findIdx p ↔ p i = false := by
  constructor
  · intro before
    have not_here := List.not_of_lt_findIdx before
    rw [List.getElem_finRange] at not_here
    exact not_here
  · intro not_here
    by_contra behind
    have place : (List.finRange n).findIdx p < (List.finRange n).length := by
      rw [List.length_finRange]
      exact lt_of_le_of_lt (Nat.le_of_not_lt behind) i.isLt
    have holds := List.findIdx_getElem (w := place)
    rw [List.getElem_finRange] at holds
    have later := upward _ i (Fin.le_def.mpr (by simpa using Nat.le_of_not_lt behind)) holds
    rw [not_here] at later
    contradiction

theorem lt_lowerBound_iff (rom : UInt32) (i : table.Index) :
    i.val < table.lowerBound rom ↔ (table.codeSections i).romAddr.toNat < rom.toNat := by
  rw [SectionTable.lowerBound, findIdx_finRange _ (fun i j order first => ?_), decide_eq_false_iff_not,
    UInt32.not_le, UInt32.lt_iff_toNat_lt]
  exact decide_eq_true (UInt32.le_trans (of_decide_eq_true first) (table.sorted i j order))

theorem lt_upperBound_iff (rom : UInt32) (i : table.Index) :
    i.val < table.upperBound rom ↔ (table.codeSections i).romAddr.toNat ≤ rom.toNat := by
  rw [SectionTable.upperBound, findIdx_finRange _ (fun i j order first => ?_), decide_eq_false_iff_not,
    UInt32.not_lt, UInt32.le_iff_toNat_le]
  exact decide_eq_true (UInt32.lt_of_lt_of_le (of_decide_eq_true first) (table.sorted i j order))

end Bounds

/-! ## One registration -/

theorem ListedOnce.sublist {loaded rest : List (LoadedSection table)} {index : table.Index}
    (once : ListedOnce loaded index) (part : rest.Sublist loaded) : ListedOnce rest index :=
  le_trans part.countP_le once

theorem ListedOnce.eq {loaded : List (LoadedSection table)} {e e' : LoadedSection table}
    (once : ListedOnce loaded e.sectionTableIndex) (member : e ∈ loaded) (member' : e' ∈ loaded)
    (same : e'.sectionTableIndex = e.sectionTableIndex) : e' = e := by
  unfold ListedOnce at once
  rw [List.countP_eq_length_filter] at once
  set own := loaded.filter fun e' => decide (e'.sectionTableIndex = e.sectionTableIndex)
  have here : e ∈ own := List.mem_filter.mpr ⟨member, decide_eq_true rfl⟩
  have here' : e' ∈ own := List.mem_filter.mpr ⟨member', decide_eq_true same⟩
  match own, once with
  | [], _ => exact absurd here List.not_mem_nil
  | [only], _ => rw [List.mem_singleton.mp here, List.mem_singleton.mp here']

namespace Overlays

theorem unloadIndex_keeps {s : Overlays table} {index : table.Index} {e : LoadedSection table}
    (member : e ∈ s.loadedSections) (other : e.sectionTableIndex ≠ index) :
    e ∈ (s.unloadOverlayBySectionIndex index).loadedSections := by
  rw [unloadIndex_loaded]
  cases listed : s.loadedAs index with
  | none => exact member
  | some e' =>
      refine (List.mem_erase_of_ne fun same => other ?_).mpr member
      rw [same]
      exact (loadedAs_mem listed).2

theorem unloadIndex_clears {s : Overlays table} {index : table.Index}
    (once : ListedOnce s.loadedSections index) :
    (s.unloadOverlayBySectionIndex index).loadedSections.countP
      (fun e => decide (e.sectionTableIndex = index)) = 0 := by
  rw [unloadIndex_loaded]
  cases listed : s.loadedAs index with
  | none =>
      refine List.countP_eq_zero.mpr fun e member => ?_
      rw [decide_eq_true_eq]
      exact loadedAs_none.mp listed e member
  | some e =>
      obtain ⟨member, own⟩ := loadedAs_mem listed
      dsimp only
      rw [List.countP_erase, if_pos ⟨member, decide_eq_true own⟩]
      exact Nat.sub_eq_zero_of_le once

theorem evict_sublist (rounds : Nat) (index : table.Index) (base : UInt32) :
    ∀ s : Overlays table, (evictOverlappingSections rounds s index base).loadedSections.Sublist
      s.loadedSections := by
  induction rounds with
  | zero => intro s; exact List.Sublist.refl _
  | succ rounds ih =>
      intro s
      rw [evictOverlappingSections]
      split
      · exact List.Sublist.refl _
      · exact (ih _).trans (unloadIndex_sublist s _)

theorem evict_keeps (rounds : Nat) (index : table.Index) (base : UInt32) {e : LoadedSection table}
    (apart : runtimeRangesOverlap ⟨base, (table.codeSections index).size⟩ e.range = false) :
    ∀ s : Overlays table, e ∈ s.loadedSections → ListedOnce s.loadedSections e.sectionTableIndex →
      e ∈ (evictOverlappingSections rounds s index base).loadedSections := by
  induction rounds with
  | zero => intro s member _; exact member
  | succ rounds ih =>
      intro s member once
      rw [evictOverlappingSections]
      cases found : s.overlapping index base with
      | none => exact member
      | some e' =>
          have listed := List.mem_of_find?_eq_some found
          have overlaps := List.find?_some found
          rw [Bool.and_eq_true] at overlaps
          have other : e.sectionTableIndex ≠ e'.sectionTableIndex := by
            intro same
            have equal := once.eq member listed same.symm
            rw [equal, apart] at overlaps
            exact Bool.false_ne_true overlaps.2
          exact ih _ (unloadIndex_keeps member other) (once.sublist (unloadIndex_sublist s _))

section Register
variable (s : Overlays table) (target : table.Index × UInt32)

theorem registerIfNew_places :
    (⟨target.2, target.1⟩ : LoadedSection table) ∈ (s.registerIfNew target).loadedSections := by
  unfold registerIfNew
  generalize evictOverlappingSections s.loadedSections.length s target.1 target.2 = cleared
  dsimp only
  cases listed : cleared.loadedSections.find? fun e => decide (e.sectionTableIndex = target.1) with
  | none => exact List.mem_append_right _ (List.mem_singleton_self _)
  | some e =>
      dsimp only
      split
      · exact List.mem_append_right _ (List.mem_singleton_self _)
      · rename_i same
        obtain ⟨member, own⟩ := loadedAs_mem (s := cleared) listed
        rw [not_not] at same
        rw [← same, ← own]
        exact member

theorem registerIfNew_keeps {e : LoadedSection table} (member : e ∈ s.loadedSections)
    (once : ListedOnce s.loadedSections e.sectionTableIndex)
    (other : e.sectionTableIndex ≠ target.1)
    (apart : runtimeRangesOverlap ⟨target.2, (table.codeSections target.1).size⟩ e.range = false) :
    e ∈ (s.registerIfNew target).loadedSections := by
  have kept := evict_keeps s.loadedSections.length target.1 target.2 apart s member once
  unfold registerIfNew
  generalize evictOverlappingSections s.loadedSections.length s target.1 target.2 = cleared at kept
  dsimp only
  cases cleared.loadedSections.find? fun e => decide (e.sectionTableIndex = target.1) with
  | none => exact List.mem_append_left _ kept
  | some e' =>
      dsimp only
      split
      · exact List.mem_append_left _ (unloadIndex_keeps kept other)
      · exact kept

theorem loadOverlay_once {index other : table.Index} {ram : UInt32} {cleared : Overlays table}
    (once : ListedOnce cleared.loadedSections other)
    (free : index = other → cleared.loadedSections.countP
      (fun e => decide (e.sectionTableIndex = other)) = 0) :
    ListedOnce (cleared.loadOverlay index ram).loadedSections other := by
  unfold ListedOnce at once ⊢
  rw [loadOverlay, List.countP_append, List.countP_singleton]
  by_cases same : index = other
  · rw [free same]
    split <;> omega
  · rw [if_neg (by simpa using same)]
    exact once

theorem registerIfNew_once {index : table.Index} (once : ListedOnce s.loadedSections index) :
    ListedOnce (s.registerIfNew target).loadedSections index := by
  have kept := once.sublist (evict_sublist s.loadedSections.length target.1 target.2 s)
  unfold registerIfNew
  generalize evictOverlappingSections s.loadedSections.length s target.1 target.2 = cleared at kept
  dsimp only
  cases listed : cleared.loadedSections.find? fun e => decide (e.sectionTableIndex = target.1) with
  | none =>
      refine loadOverlay_once kept fun same => List.countP_eq_zero.mpr fun e member => ?_
      rw [← same]
      exact List.find?_eq_none.mp listed e member
  | some e =>
      dsimp only
      split
      · refine loadOverlay_once (kept.sublist (unloadIndex_sublist cleared _)) fun same => ?_
        rw [same]
        exact unloadIndex_clears kept
      · exact kept

end Register

end Overlays

/-! ## The targets of one chunk -/

def SectionTable.placed (table : SectionTable) (rom ramAddr : UInt32) (index : table.Index) :
    UInt32 :=
  (table.codeSections index).romAddr - rom + ramAddr

theorem placed_later (rom ramAddr size : UInt32) (index : table.Index) :
    table.placed (rom + size) (ramAddr + size) index = table.placed rom ramAddr index := by
  unfold SectionTable.placed
  rw [← UInt32.toBitVec_inj]
  simp only [UInt32.toBitVec_add, UInt32.toBitVec_sub]
  grind

theorem placed_toNat {rom : UInt32} (ramAddr : UInt32) {index : table.Index}
    (behind : rom.toNat ≤ (table.codeSections index).romAddr.toNat)
    (fits : ramAddr.toNat + ((table.codeSections index).romAddr.toNat - rom.toNat) < UInt32.size) :
    (table.placed rom ramAddr index).toNat =
      ramAddr.toNat + ((table.codeSections index).romAddr.toNat - rom.toNat) := by
  unfold SectionTable.placed
  rw [UInt32.toNat_add, UInt32.toNat_sub_of_le _ _ (UInt32.le_iff_toNat_le.mpr behind)]
  exact (Nat.mod_eq_of_lt (by rw [Nat.add_comm]; exact fits)).trans (Nat.add_comm _ _)

section Targets
variable {rom ramAddr size : UInt32}

theorem lowerBound_le (rom : UInt32) : table.lowerBound rom ≤ table.numCodeSections := by
  have length : table.lowerBound rom ≤ (List.finRange table.numCodeSections).length :=
    List.findIdx_le_length
  rwa [List.length_finRange] at length

theorem bounds_ordered (fits : rom.toNat + size.toNat < UInt32.size) :
    table.lowerBound rom ≤ table.upperBound (rom + size) := by
  by_contra crossed
  have inTable : table.upperBound (rom + size) < table.numCodeSections := by
    exact lt_of_lt_of_le (Nat.lt_of_not_le crossed) (lowerBound_le rom)
  have before := (lt_lowerBound_iff rom ⟨_, inTable⟩).mp (Nat.lt_of_not_le crossed)
  have notIn := mt (lt_upperBound_iff (rom + size) ⟨_, inTable⟩).mpr (Nat.lt_irrefl _)
  rw [UInt32.toNat_add, Nat.mod_eq_of_lt fits] at notIn
  omega

/-- Every call of `register_if_new` is for a section that reaches beyond the
start of the chunk and begins at its end at the latest. -/
theorem mem_loadTargets (separate : table.Separate) (fits : rom.toNat + size.toNat < UInt32.size) :
    ∃ targets, loadTargets table rom ramAddr size = some targets ∧
      ∀ target ∈ targets, target.2 = table.placed rom ramAddr target.1 ∧
        rom.toNat < (table.codeSections target.1).romAddr.toNat +
          (table.codeSections target.1).size.toNat ∧
        (table.codeSections target.1).romAddr.toNat ≤ rom.toNat + size.toNat := by
  have chunkEnd : (rom + size).toNat = rom.toNat + size.toNat := by
    rw [UInt32.toNat_add, Nat.mod_eq_of_lt fits]
  refine ⟨_, if_neg (Nat.not_lt.mpr (bounds_ordered fits)), fun target member => ?_⟩
  rcases List.mem_append.mp member with member | start
  rcases List.mem_append.mp member with whole | part
  · obtain ⟨index, -, found⟩ := List.mem_filterMap.mp whole
    dsimp only at found
    split at found
    · rename_i inChunk
      cases found
      obtain ⟨behind, before, -⟩ := inChunk
      rw [lt_upperBound_iff, chunkEnd] at before
      have first := mt (lt_lowerBound_iff rom index).mpr (Nat.not_lt.mpr behind)
      refine ⟨rfl, ?_, before⟩
      have := separate.positive index
      dsimp only
      omega
    · cases found
  · obtain ⟨index, -, found⟩ := List.exists_of_findSome?_eq_some (Option.mem_toList.mp part)
    dsimp only at found
    split at found
    · rename_i reaches
      cases found
      obtain ⟨-, before, inside⟩ := reaches
      rw [UInt32.le_iff_toNat_le] at before
      rw [UInt32.lt_iff_toNat_lt, UInt32.toNat_add] at inside
      refine ⟨?_, lt_of_lt_of_le inside (Nat.mod_le _ _), le_trans before (Nat.le_add_right _ _)⟩
      dsimp only [SectionTable.placed]
      rw [← UInt32.toBitVec_inj]
      simp only [UInt32.toBitVec_add, UInt32.toBitVec_sub]
      grind
    · cases found
  · obtain ⟨index, -, found⟩ := List.exists_of_findSome?_eq_some (Option.mem_toList.mp start)
    dsimp only at found
    split at found
    · rename_i starts
      cases found
      refine ⟨rfl, ?_, ?_⟩
      · rw [starts.2.1]
        exact Nat.lt_add_of_pos_right (separate.positive index)
      · rw [starts.2.1]
        omega
    · cases found

theorem SectionTable.Separate.rom_cases (separate : table.Separate) {index other : table.Index}
    (different : index ≠ other) :
    (table.codeSections index).romAddr.toNat + (table.codeSections index).size.toNat ≤
        (table.codeSections other).romAddr.toNat ∨
      (table.codeSections other).romAddr.toNat + (table.codeSections other).size.toNat ≤
        (table.codeSections index).romAddr.toNat := by
  have apart := separate.disjoint index other different
  by_contra crossed
  rw [not_or, Nat.not_le, Nat.not_le] at crossed
  rcases Nat.le_total (table.codeSections index).romAddr.toNat
    (table.codeSections other).romAddr.toNat with order | order
  · exact apart (table.codeSections other).romAddr ⟨order, crossed.1⟩
      ⟨Nat.le_refl _, Nat.lt_add_of_pos_right (separate.positive other)⟩
  · exact apart (table.codeSections index).romAddr
      ⟨Nat.le_refl _, Nat.lt_add_of_pos_right (separate.positive index)⟩ ⟨order, crossed.2⟩

/-- The section that a chunk begins in stands right before the lower bound. -/
theorem lowerBound_straddled (separate : table.Separate) {index : table.Index}
    (before : (table.codeSections index).romAddr.toNat < rom.toNat)
    (reaches : rom.toNat < (table.codeSections index).romAddr.toNat +
      (table.codeSections index).size.toNat) : index.val + 1 = table.lowerBound rom := by
  have inside := (lt_lowerBound_iff rom index).mpr before
  by_contra other
  have bound : table.lowerBound rom ≤ table.numCodeSections := lowerBound_le rom
  have next : index.val + 1 < table.numCodeSections := by omega
  have earlier := (lt_lowerBound_iff rom ⟨index.val + 1, next⟩).mp (by dsimp only; omega)
  have sorted := table.sorted index ⟨index.val + 1, next⟩ (Fin.le_def.mpr (Nat.le_succ _))
  rw [UInt32.le_iff_toNat_le] at sorted
  have different : index ≠ ⟨index.val + 1, next⟩ := fun same => by
    have equal := congrArg Fin.val same
    exact absurd equal (Nat.ne_of_lt (Nat.lt_succ_self _))
  rcases separate.rom_cases different with behind | ahead
  · omega
  · have := separate.positive ⟨index.val + 1, next⟩
    omega

theorem chunk_covers (separate : table.Separate) (fits : rom.toNat + size.toNat < UInt32.size)
    {index : table.Index} (reaches : rom.toNat < (table.codeSections index).romAddr.toNat +
      (table.codeSections index).size.toNat)
    (ends : (table.codeSections index).romAddr.toNat + (table.codeSections index).size.toNat ≤
      rom.toNat + size.toNat) {targets : List (table.Index × UInt32)}
    (walked : loadTargets table rom ramAddr size = some targets) :
    (index, table.placed rom ramAddr index) ∈ targets := by
  have chunkEnd : (rom + size).toNat = rom.toNat + size.toNat := by
    rw [UInt32.toNat_add, Nat.mod_eq_of_lt fits]
  have sectionEnd : ((table.codeSections index).romAddr + (table.codeSections index).size).toNat =
      (table.codeSections index).romAddr.toNat + (table.codeSections index).size.toNat := by
    rw [UInt32.toNat_add, Nat.mod_eq_of_lt (lt_of_le_of_lt ends fits)]
  rw [loadTargets, if_neg (Nat.not_lt.mpr (bounds_ordered fits))] at walked
  cases walked
  rcases Nat.lt_or_ge (table.codeSections index).romAddr.toNat rom.toNat with before | behind
  · -- the chunk begins in the section
    have place := lowerBound_straddled separate before reaches
    refine List.mem_append_left _ (List.mem_append_right _ (Option.mem_toList.mpr ?_))
    have own : (if index.val + 1 = table.lowerBound rom ∧ (table.codeSections index).romAddr ≤ rom ∧
        rom < (table.codeSections index).romAddr + (table.codeSections index).size then
        some (index, ramAddr - (rom - (table.codeSections index).romAddr)) else none) =
          some (index, table.placed rom ramAddr index) := by
      rw [if_pos ⟨place, UInt32.le_iff_toNat_le.mpr (le_of_lt before), by
        rw [UInt32.lt_iff_toNat_lt, sectionEnd]
        exact reaches⟩, SectionTable.placed]
      congr 2
      rw [← UInt32.toBitVec_inj]
      simp only [UInt32.toBitVec_add, UInt32.toBitVec_sub]
      grind
    cases found : partTarget table rom ramAddr with
    | none =>
        have missing := List.findSome?_eq_none_iff.mp found index (List.mem_finRange index)
        exact absurd (missing.symm.trans own) (by simp)
    | some target =>
        obtain ⟨other, -, held⟩ := List.exists_of_findSome?_eq_some found
        dsimp only at held
        split at held
        · rename_i holds
          have same : other = index := Fin.ext (Nat.succ_injective (holds.1.trans place.symm))
          subst same
          rw [if_pos holds] at own
          rw [← held, own]
        · cases held
  · refine List.mem_append_left _ (List.mem_append_left _ (List.mem_filterMap.mpr ?_))
    refine ⟨index, List.mem_finRange index, if_pos ⟨?_, ?_, ?_⟩⟩
    · exact Nat.le_of_not_lt (mt (lt_lowerBound_iff rom index).mp (Nat.not_lt.mpr behind))
    · rw [lt_upperBound_iff, chunkEnd]
      omega
    · rw [UInt32.le_iff_toNat_le, chunkEnd, sectionEnd]
      exact ends

end Targets

/-! ## All the chunks -/

section Chunks
variable {rom ramAddr : UInt32} {sizes : List UInt32}

/-- Sections of the interval do not meet where they are copied to, and none meets the
section behind the interval. -/
theorem Chunked.placed_apart (chunked : Chunked table rom ramAddr sizes)
    (separate : table.Separate) {target index : table.Index} (different : target ≠ index)
    (inside : table.InRom index rom.toNat (rom.toNat + chunkBytes sizes))
    (reaches : rom.toNat < (table.codeSections target).romAddr.toNat +
      (table.codeSections target).size.toNat)
    (starts : (table.codeSections target).romAddr.toNat ≤ rom.toNat + chunkBytes sizes) :
    runtimeRangesOverlap
      ⟨table.placed rom ramAddr target, (table.codeSections target).size⟩
      ⟨table.placed rom ramAddr index, (table.codeSections index).size⟩ = false := by
  obtain ⟨lower, upper⟩ := inside
  have fits := chunked.ram_fits
  have behind : rom.toNat ≤ (table.codeSections target).romAddr.toNat := by
    rcases chunked.uncut target with held | after | before
    · exact held.1
    · exact le_trans (Nat.le_add_right _ _) after
    · exact absurd reaches (Nat.not_lt.mpr before)
  have place := placed_toNat ramAddr behind (by omega)
  have place' := placed_toNat ramAddr lower (by omega)
  dsimp only [runtimeRangesOverlap]
  rw [place, place', Bool.and_eq_false_iff, decide_eq_false_iff_not, decide_eq_false_iff_not]
  rcases separate.rom_cases different with order | order
  · exact Or.inr (by omega)
  · exact Or.inl (by omega)

/-- The calls for one chunk: its targets come in and what was placed stays. -/
theorem Chunked.registerIfNew_fold (chunked : Chunked table rom ramAddr sizes)
    (separate : table.Separate) (targets : List (table.Index × UInt32))
    (good : ∀ target ∈ targets, target.2 = table.placed rom ramAddr target.1 ∧
      rom.toNat < (table.codeSections target.1).romAddr.toNat +
        (table.codeSections target.1).size.toNat ∧
      (table.codeSections target.1).romAddr.toNat ≤ rom.toNat + chunkBytes sizes)
    (s : Overlays table) {index : table.Index}
    (inside : table.InRom index rom.toNat (rom.toNat + chunkBytes sizes))
    (once : ListedOnce s.loadedSections index) :
    ListedOnce (targets.foldl Overlays.registerIfNew s).loadedSections index ∧
      (⟨table.placed rom ramAddr index, index⟩ ∈ s.loadedSections ∨
          (index, table.placed rom ramAddr index) ∈ targets →
        ⟨table.placed rom ramAddr index, index⟩ ∈
          (targets.foldl Overlays.registerIfNew s).loadedSections) := by
  induction targets generalizing s with
  | nil => exact ⟨once, fun held => held.resolve_right List.not_mem_nil⟩
  | cons target rest ih =>
      obtain ⟨base, reaches, starts⟩ := good target (List.mem_cons_self ..)
      obtain ⟨later, kept⟩ := ih (fun target member => good target (List.mem_cons_of_mem _ member))
        (s.registerIfNew target) (s.registerIfNew_once target once)
      refine ⟨later, fun held => kept ?_⟩
      by_cases own : target.1 = index
      · subst own
        rw [← base]
        exact Or.inl (s.registerIfNew_places target)
      · rcases held with listed | member
        · refine Or.inl (s.registerIfNew_keeps target listed once (Ne.symm own) ?_)
          rw [base]
          exact chunked.placed_apart separate own inside reaches starts
        · rcases List.mem_cons.mp member with rfl | member
          · exact absurd rfl own
          · exact Or.inr member

theorem Chunked.loadChunks_places (chunked : Chunked table rom ramAddr sizes)
    (separate : table.Separate) (rest : List UInt32) :
    ∀ (next ram : UInt32) (s : Overlays table),
      rom.toNat ≤ next.toNat →
      next.toNat + chunkBytes rest = rom.toNat + chunkBytes sizes →
      (∀ index, table.placed next ram index = table.placed rom ramAddr index) →
      (∀ index, table.InRom index rom.toNat (rom.toNat + chunkBytes sizes) →
        ListedOnce s.loadedSections index) →
      (∀ index, table.InRom index rom.toNat next.toNat →
        ⟨table.placed rom ramAddr index, index⟩ ∈ s.loadedSections) →
      ∃ t, s.loadChunks next ram rest = some t ∧
        ∀ index, table.InRom index rom.toNat (rom.toNat + chunkBytes sizes) →
          ⟨table.placed rom ramAddr index, index⟩ ∈ t.loadedSections := by
  induction rest with
  | nil =>
      intro next ram s _ whole _ _ placed
      refine ⟨s, rfl, fun index inside => placed index ?_⟩
      rw [← whole] at inside
      exact inside
  | cons size rest ih =>
      intro next ram s behind whole same once placed
      have bytes : chunkBytes (size :: rest) = size.toNat + chunkBytes rest := rfl
      have total := chunked.rom_fits
      have fits : next.toNat + size.toNat < UInt32.size := by omega
      have chunkEnd : (next + size).toNat = next.toNat + size.toNat := by
        rw [UInt32.toNat_add, Nat.mod_eq_of_lt fits]
      obtain ⟨targets, walked, good⟩ := mem_loadTargets separate fits
      have fold := fun {index} inside => chunked.registerIfNew_fold separate targets
        (fun target member => by
          obtain ⟨base, reaches, starts⟩ := good target member
          exact ⟨base.trans (same target.1), lt_of_le_of_lt behind reaches,
            le_trans starts (by omega)⟩) s inside (once index inside)
      have called : s.loadOverlays next ram size =
          some (targets.foldl Overlays.registerIfNew s) := by
        rw [Overlays.loadOverlays, walked, Option.map_some]
      rw [Overlays.loadChunks, called, Option.bind_some]
      refine ih (next + size) (ram + size) _ (by omega) (by omega)
        (fun index => (placed_later next ram size index).trans (same index))
        (fun index inside => (fold inside).1) fun index inside => ?_
      have within : table.InRom index rom.toNat (rom.toNat + chunkBytes sizes) :=
        ⟨inside.1, le_trans inside.2 (by omega)⟩
      refine (fold within).2 ?_
      rcases Nat.lt_or_ge next.toNat ((table.codeSections index).romAddr.toNat +
        (table.codeSections index).size.toNat) with reaches | ended
      · rw [← same index]
        exact Or.inr (chunk_covers separate fits reaches (by rw [← chunkEnd]; exact inside.2) walked)
      · exact Or.inl (placed index ⟨inside.1, ended⟩)

/-- Wherever the interval is cut, each section in it is listed at its copied address. -/
theorem load_overlays_chunked (s : Overlays table) (separate : table.Separate)
    (chunked : Chunked table rom ramAddr sizes)
    (once : ∀ index, table.InRom index rom.toNat (rom.toNat + chunkBytes sizes) →
      ListedOnce s.loadedSections index) :
    ∃ t, s.loadChunks rom ramAddr sizes = some t ∧
      ∀ index, table.InRom index rom.toNat (rom.toNat + chunkBytes sizes) →
        ⟨table.placed rom ramAddr index, index⟩ ∈ t.loadedSections := by
  refine chunked.loadChunks_places separate sizes rom ramAddr s (Nat.le_refl _) rfl
    (fun _ => rfl) once fun index inside => ?_
  have := separate.positive index
  obtain ⟨lower, upper⟩ := inside
  omega

end Chunks

theorem twoFragments_separate : twoFragments.Separate where
  nonempty := by decide
  disjoint := by
    intro index other different
    have order : (twoFragments.romRange index).lo.toNat + (twoFragments.romRange index).len.toNat ≤
          (twoFragments.romRange other).lo.toNat ∨
        (twoFragments.romRange other).lo.toNat + (twoFragments.romRange other).len.toNat ≤
          (twoFragments.romRange index).lo.toNat := by
      revert index other
      decide
    rcases order with before | behind
    · exact Range.apart_of_le before
    · exact (Range.apart_of_le behind).symm

/-- Both fragments, cut in the first one and in the second one. -/
theorem load_overlays_chunked_cut :
    ∃ t, (Overlays.initOverlays twoFragments).loadChunks 0x1000 0x81000000 [0x800, 0x1000, 0x800] =
        some t ∧
      ∀ index, twoFragments.InRom index 0x1000 0x3000 →
        ⟨twoFragments.placed 0x1000 0x81000000 index, index⟩ ∈ t.loadedSections := by
  have chunked : Chunked twoFragments 0x1000 0x81000000 [0x800, 0x1000, 0x800] :=
    ⟨by simp, by decide, by decide, fun index => Or.inl (by revert index; decide)⟩
  exact load_overlays_chunked _ twoFragments_separate chunked fun _ _ => Nat.zero_le _

/-- A section that two calls by id have listed twice: at its link address, and where the
second section of the interval is copied to. -/
def listedTwice : Overlays twoFragments :=
  ((Overlays.initOverlays twoFragments).loadOverlayById firstFragment 0x81000000).loadOverlayById
    firstFragment 0x81001000

/-- The first section is registered where it is, and the second one evicts both of its entries. -/
theorem listed_twice_is_lost :
    twoFragments.Separate ∧ Chunked twoFragments 0x1000 0x81000000 [0x2000] ∧
      twoFragments.InRom firstFragment 0x1000 0x3000 ∧
      (listedTwice.loadChunks 0x1000 0x81000000 [0x2000]).map Overlays.loadedSections =
        some [⟨0x81001000, secondFragment⟩] ∧
      ¬ ∃ t, listedTwice.loadChunks 0x1000 0x81000000 [0x2000] = some t ∧
        ∀ index, twoFragments.InRom index 0x1000 0x3000 →
          ⟨twoFragments.placed 0x1000 0x81000000 index, index⟩ ∈ t.loadedSections := by
  have inside : twoFragments.InRom firstFragment 0x1000 0x3000 := by decide
  have final : (listedTwice.loadChunks 0x1000 0x81000000 [0x2000]).map Overlays.loadedSections =
      some [⟨0x81001000, secondFragment⟩] := by decide +kernel
  refine ⟨twoFragments_separate,
    ⟨by simp, by decide, by decide, fun index => Or.inl (by revert index; decide)⟩,
    inside, final, ?_⟩
  rintro ⟨t, returned, placed⟩
  rw [returned, Option.map_some, Option.some_inj] at final
  have listed := placed firstFragment inside
  rw [final, List.mem_singleton] at listed
  exact absurd (congrArg LoadedSection.sectionTableIndex listed) (by decide)

end N64ModernRuntime.Librecomp
