import N64ModernRuntime.Librecomp.LoadedSections

/-!
# overlays.cpp: the table of synthetic fragments

`recomp_synthetic_fragments` holds, for each bucket of the synthetic pool, the
base that a section was registered at.  `register_runtime_fragment` is its only
writer; what takes a section out, or loads one from ROM, leaves it as it is.
-/

set_option autoImplicit false

namespace N64ModernRuntime.Librecomp

open AddressMap Transition

variable {table : SectionTable}

/-- `recomp_resolve_synthetic_fragment`; `none` where it aborts. -/
def Overlays.resolveSyntheticFragment (s : Overlays table) (addr : UInt32) : Option UInt32 :=
  if ¬ isSyntheticAddr addr then some 0
  else match s.syntheticFragments (syntheticBucketIdx addr) with
    | none => none
    | some slot =>
        let offset := addr &&& 0x000FFFFF
        if slot.size ≤ offset then none else some (slot.runtimeBase + offset)

def SectionTable.Synthetic (table : SectionTable) (index : table.Index) : Prop :=
  isSyntheticAddr (table.codeSections index).ramAddr = true

instance (index : table.Index) : Decidable (table.Synthetic index) :=
  inferInstanceAs (Decidable (_ = true))

def SectionTable.bucket (table : SectionTable) (index : table.Index) : Nat :=
  syntheticBucketIdx (table.codeSections index).ramAddr

def LoadedSection.slot (e : LoadedSection table) : SyntheticFragmentSlot table :=
  ⟨e.loadedRamAddr, e.entry.size, e.sectionTableIndex⟩

structure Overlays.SlotsMatch (s : Overlays table) : Prop where
  registered : ∀ slot f, s.syntheticFragments slot = some f →
    ∃ e ∈ s.loadedSections, f = e.slot ∧ table.Synthetic e.sectionTableIndex ∧
      table.bucket e.sectionTableIndex = slot
  loaded : ∀ e ∈ s.loadedSections, table.Synthetic e.sectionTableIndex →
    s.syntheticFragments (table.bucket e.sectionTableIndex) = some e.slot

/-- No section with a link address in the pool is taken out or loaded from ROM,
and none is bound to the bucket of another that is loaded. -/
def SlotKept (s : Overlays table) : Move table → Prop
  | .unload e | .evict e => ¬ table.Synthetic e.sectionTableIndex
  | .load index _ => ¬ table.Synthetic index
  | .bind _ _ index _ => table.Synthetic index → ∀ e ∈ s.loadedSections,
      table.Synthetic e.sectionTableIndex → table.bucket e.sectionTableIndex = table.bucket index →
        e.sectionTableIndex = index
  | _ => True

structure KeepsSlots (s : Overlays table) (call : Call) : Prop where
  moves : MovesMeet SlotKept s call

def SyntheticOnce (loaded : List (LoadedSection table)) : Prop :=
  loaded.Pairwise fun e e' => table.Synthetic e.sectionTableIndex →
    e.sectionTableIndex ≠ e'.sectionTableIndex

theorem setLoaded_once {loaded : List (LoadedSection table)} (index : table.Index)
    (base : UInt32) (once : SyntheticOnce loaded) : SyntheticOnce (setLoaded loaded index base) := by
  induction loaded with
  | nil => exact List.pairwise_singleton _ _
  | cons first rest ih =>
      obtain ⟨others, restOnce⟩ := List.pairwise_cons.mp once
      unfold setLoaded
      split
      · rename_i same
        refine List.pairwise_cons.mpr ⟨fun e member synthetic => ?_, restOnce⟩
        have other := others e member
        rw [same] at other
        exact other synthetic
      · rename_i other
        refine List.pairwise_cons.mpr ⟨fun e member synthetic => ?_, ih restOnce⟩
        rcases mem_setLoaded_cases member with rfl | member
        · exact other
        · exact others e member synthetic

theorem mem_setLoaded_other {loaded : List (LoadedSection table)} {index : table.Index}
    {base : UInt32} {e : LoadedSection table} (member : e ∈ loaded)
    (other : e.sectionTableIndex ≠ index) : e ∈ setLoaded loaded index base := by
  induction loaded with
  | nil => exact absurd member List.not_mem_nil
  | cons first rest ih =>
      unfold setLoaded
      split
      · rename_i same
        rcases List.mem_cons.mp member with rfl | member
        · exact absurd same other
        · exact List.mem_cons_of_mem _ member
      · rcases List.mem_cons.mp member with rfl | member
        · exact List.mem_cons_self
        · exact List.mem_cons_of_mem _ (ih member)

theorem setLoaded_moves {loaded : List (LoadedSection table)} {index : table.Index} {base : UInt32}
    (once : SyntheticOnce loaded) (synthetic : table.Synthetic index) {e : LoadedSection table}
    (member : e ∈ setLoaded loaded index base) (same : e.sectionTableIndex = index) :
    e = ⟨base, index⟩ := by
  induction loaded with
  | nil => exact List.mem_singleton.mp member
  | cons first rest ih =>
      obtain ⟨others, restOnce⟩ := List.pairwise_cons.mp once
      unfold setLoaded at member
      split at member
      · rename_i here
        rcases List.mem_cons.mp member with rfl | member
        · rfl
        · have other := others e member (by rw [here]; exact synthetic)
          exact absurd (here.trans same.symm) other
      · rename_i elsewhere
        rcases List.mem_cons.mp member with rfl | member
        · exact absurd same elsewhere
        · exact ih restOnce member

/-! ## The moves -/

namespace Overlays.SlotsMatch

theorem erase {s : Overlays table} (kept : s.SlotsMatch) {e : LoadedSection table}
    (plain : ¬ table.Synthetic e.sectionTableIndex) (funcMap : FuncMap) :
    (s.drop e funcMap).SlotsMatch where
  registered := by
    intro slot f found
    obtain ⟨e', listed, same, synthetic, bucket⟩ := kept.registered slot f found
    refine ⟨e', (List.mem_erase_of_ne ?_).mpr listed, same, synthetic, bucket⟩
    rintro rfl
    exact plain synthetic
  loaded := fun e' listed => kept.loaded e' (List.mem_of_mem_erase listed)

theorem load {s : Overlays table} (kept : s.SlotsMatch) {index : table.Index}
    (plain : ¬ table.Synthetic index) (ram : UInt32) : (s.loadOverlay index ram).SlotsMatch where
  registered := by
    intro slot f found
    obtain ⟨e, listed, own⟩ := kept.registered slot f found
    exact ⟨e, List.mem_append_left _ listed, own⟩
  loaded := by
    intro e listed synthetic
    rcases List.mem_append.mp listed with old | new
    · exact kept.loaded e old synthetic
    · rw [List.mem_singleton.mp new] at synthetic
      exact absurd synthetic plain

theorem bind {s : Overlays table} (kept : s.SlotsMatch) (once : SyntheticOnce s.loadedSections)
    {index : table.Index} {rdram : Rdram} (id fragmentPtr : UInt32)
    (alone : SlotKept s (.bind rdram id index fragmentPtr)) :
    (s.bindSection id index fragmentPtr).SlotsMatch := by
  by_cases synthetic : table.Synthetic index
  · have slots : ∀ slot, (s.bindSection id index fragmentPtr).syntheticFragments slot =
        if slot = table.bucket index then some (⟨fragmentPtr, index⟩ : LoadedSection table).slot
        else s.syntheticFragments slot := by
      intro slot
      have pool : isSyntheticAddr (table.codeSections index).ramAddr = true := synthetic
      simp only [bindSection, pool, true_and]
      rfl
    refine ⟨fun slot f found => ?_, fun e listed own => ?_⟩
    · rw [slots] at found
      split at found
      · rename_i here
        cases found
        exact ⟨_, Keeps.mem_setLoaded _ index fragmentPtr, rfl, synthetic, here.symm⟩
      · rename_i elsewhere
        obtain ⟨e, listed, same, own, bucket⟩ := kept.registered slot f found
        refine ⟨e, mem_setLoaded_other listed ?_, same, own, bucket⟩
        intro here
        rw [here] at bucket
        exact elsewhere bucket.symm
    · rw [slots]
      by_cases here : e.sectionTableIndex = index
      · have moved := setLoaded_moves once synthetic listed here
        rw [if_pos (by rw [here]), moved]
      · rcases mem_setLoaded_cases listed with rfl | old
        · exact absurd rfl here
        · rw [if_neg fun bucket => here (alone synthetic e old own bucket)]
          exact kept.loaded e old own
  · have slots : (s.bindSection id index fragmentPtr).syntheticFragments = s.syntheticFragments := by
      have pool : isSyntheticAddr (table.codeSections index).ramAddr = false :=
        Bool.eq_false_iff.mpr synthetic
      simp only [bindSection, pool, Bool.false_eq_true, false_and, if_false]
    refine ⟨fun slot f found => ?_, fun e listed own => ?_⟩
    · rw [slots] at found
      obtain ⟨e, listed, same, own, bucket⟩ := kept.registered slot f found
      refine ⟨e, mem_setLoaded_other listed ?_, same, own, bucket⟩
      rintro rfl
      exact synthetic own
    · rw [slots]
      rcases mem_setLoaded_cases listed with rfl | old
      · exact absurd own synthetic
      · exact kept.loaded e old own

end Overlays.SlotsMatch

theorem slots_keeps : @Keeps table SlotKept fun s =>
    s.SlotsMatch ∧ SyntheticOnce s.loadedSections where
  move := by
    intro s m holds enabled allowed
    obtain ⟨kept, once⟩ := holds
    cases m with
    | unload e => exact ⟨kept.erase allowed _, once.sublist List.erase_sublist⟩
    | evict e => exact ⟨kept.erase allowed _, once.sublist List.erase_sublist⟩
    | load index ram =>
        refine ⟨kept.load allowed ram, ?_⟩
        refine List.pairwise_append.mpr ⟨once, List.pairwise_singleton _ _, ?_⟩
        intro e member e' new synthetic same
        rw [List.mem_singleton.mp new] at same
        rw [same] at synthetic
        exact allowed synthetic
    | supersede id fragmentPtr => exact ⟨⟨kept.registered, kept.loaded⟩, once⟩
    | recordLiveRange id range => exact ⟨⟨kept.registered, kept.loaded⟩, once⟩
    | bind rdram id index fragmentPtr =>
        have superseded : (s.supersede id fragmentPtr).SlotsMatch := ⟨kept.registered, kept.loaded⟩
        have alone : SlotKept (s.supersede id fragmentPtr) (.bind rdram id index fragmentPtr) :=
          allowed
        have bound := superseded.bind once id fragmentPtr alone
        exact ⟨⟨bound.registered, bound.loaded⟩, setLoaded_once index fragmentPtr once⟩
    | scan rdram e => exact ⟨⟨kept.registered, kept.loaded⟩, once⟩
  install := by
    intro s next p holds _ installed
    obtain ⟨func, rfl⟩ := tryInstall_some installed
    exact ⟨⟨holds.1.registered, holds.1.loaded⟩, holds.2⟩
  queue := fun s p holds _ => ⟨⟨holds.1.registered, holds.1.loaded⟩, holds.2⟩
  unqueue := fun s left holds _ => ⟨⟨holds.1.registered, holds.1.loaded⟩, holds.2⟩

def Overlays.Resolves (s : Overlays table) : Prop :=
  ∀ addr ptr, isSyntheticAddr addr = true → s.resolveSyntheticFragment addr = some ptr →
    ∃ e ∈ s.loadedSections, table.Synthetic e.sectionTableIndex ∧
      table.bucket e.sectionTableIndex = syntheticBucketIdx addr ∧ e.Owns ptr

theorem Overlays.SlotsMatch.resolves {s : Overlays table} (kept : s.SlotsMatch) : s.Resolves := by
  intro addr ptr pool resolved
  simp only [resolveSyntheticFragment, pool, not_true_eq_false, if_false] at resolved
  split at resolved
  · contradiction
  · rename_i slot found
    split at resolved
    · contradiction
    · rename_i inside
      cases resolved
      obtain ⟨e, listed, rfl, synthetic, bucket⟩ := kept.registered _ _ found
      refine ⟨e, listed, synthetic, bucket, ?_⟩
      have offset : e.slot.runtimeBase + (addr &&& 0x000FFFFF) - e.loadedRamAddr =
          addr &&& 0x000FFFFF := by
        rw [UInt32.add_comm]
        exact UInt32.add_sub_cancel _ _
      unfold LoadedSection.Owns
      rw [offset]
      exact UInt32.not_le.mp inside

/-- The table matches the loaded sections in every run in which no section of
the pool is taken out, loaded from ROM or bound over another one. -/
theorem synthetic_fragments_match {s : Overlays table}
    (reached : Reach overlayStep KeepsSlots OverlaysStarted s) :
    s.SlotsMatch ∧ s.Resolves := by
  have matched : s.SlotsMatch ∧ SyntheticOnce s.loadedSections := by
    refine reached.invariant (I := fun s => s.SlotsMatch ∧ SyntheticOnce s.loadedSections) ?_ ?_
    · rintro s rfl
      refine ⟨⟨fun slot f found => ?_, fun e listed => ?_⟩, List.Pairwise.nil⟩
      · cases found
      · cases listed
    · intro s call t holds allowed returned
      exact slots_keeps.step holds allowed.moves returned
  exact ⟨matched.1, matched.1.resolves⟩

/-- A model variant in the first bucket of the pool, with the hash of 0x100 zeroes. -/
def oneVariant : SectionTable where
  numCodeSections := 1
  codeSections := fun _ => ⟨0x1000, 0xC0000000, 0x1000, [⟨some 1, 0, 0x40⟩], 0,
    0xD80AC658736BB725, 5⟩
  overlays := [⟨0, Nat.zero_lt_one⟩]
  sorted := by decide
  index_injective := by decide
  aligned := by decide
  offset_lt := by decide
  offset_injective := by decide

def theVariant : oneVariant.Index := ⟨0, Nat.zero_lt_one⟩

def registerVariant : Call := .registerRuntimeFragment emptyRdram 5 0x80200000

def variantRegistered : Overlays oneVariant :=
  (Overlays.initOverlays oneVariant).registerRuntimeFragment emptyRdram 5 0x80200000

theorem synthetic_fragments_match_moved : ∃ s : Overlays oneVariant,
    Reach overlayStep KeepsSlots OverlaysStarted s ∧
      s.loadedSections = [⟨0x80300000, theVariant⟩] ∧ s.SlotsMatch ∧ s.Resolves := by
  have selected : ∀ base, base = 0x80200000 ∨ base = 0x80300000 →
      selectSection oneVariant emptyRdram 5 base = some theVariant := by
    rintro base (rfl | rfl) <;> decide +kernel
  have prior : variantRegistered.priorAtBase (some theVariant) 0x80300000 = [] := by
    decide +kernel
  have list : variantRegistered.loadedSections = [⟨0x80200000, theVariant⟩] := by decide +kernel
  have first : KeepsSlots (Overlays.initOverlays oneVariant) registerVariant := by
    refine ⟨?_⟩
    rw [MovesMeet, registerVariant,
      Overlays.registerMoves_alone (by decide) (selected _ (.inl rfl)) (by decide)]
    exact ⟨fun _ _ listed => absurd listed List.not_mem_nil, trivial⟩
  have moved : KeepsSlots variantRegistered (.registerRuntimeFragment emptyRdram 5 0x80300000) := by
    refine ⟨?_⟩
    rw [MovesMeet, Overlays.registerMoves_alone (by decide) (selected _ (.inr rfl)) prior]
    refine ⟨fun _ e listed _ _ => ?_, trivial⟩
    rw [list, List.mem_singleton] at listed
    rw [listed]
  have reached : Reach overlayStep KeepsSlots OverlaysStarted
      (variantRegistered.registerRuntimeFragment emptyRdram 5 0x80300000) :=
    .next _ (.next registerVariant (.start rfl) first rfl) moved rfl
  exact ⟨_, reached, by decide +kernel, synthetic_fragments_match reached⟩

theorem stale_slot : ¬ ∀ s : Overlays oneVariant,
    Reach overlayStep Always OverlaysStarted s → s.SlotsMatch := by
  intro claimed
  have reached : Reach overlayStep Always OverlaysStarted
      (variantRegistered.unregisterRuntimeFragment 5) :=
    .next (.unregisterRuntimeFragment 5) (.next registerVariant (.start rfl) trivial rfl) trivial rfl
  have gone : (variantRegistered.unregisterRuntimeFragment 5).loadedSections = [] := by
    decide +kernel
  have slot : (variantRegistered.unregisterRuntimeFragment 5).syntheticFragments 0 =
      some ⟨0x80200000, 0x1000, theVariant⟩ := by decide +kernel
  obtain ⟨e, listed, -⟩ := (claimed _ reached).registered 0 _ slot
  rw [gone] at listed
  cases listed

end N64ModernRuntime.Librecomp
