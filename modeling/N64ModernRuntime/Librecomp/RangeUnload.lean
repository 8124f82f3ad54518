import Mathlib.Algebra.Group.Nat.Defs
import N64ModernRuntime.Librecomp.SectionAddresses

/-!
# overlays.cpp: unloading an address range

`unload_overlays` compares the end of the range with the start of a section by
`>=`, and the two starts as signed numbers.  A section that begins where the
range ends is taken for one that reaches into it, and one at or above
0x80000000 for one that begins before a range below.
-/

set_option autoImplicit false

namespace N64ModernRuntime.Librecomp

open AddressMap Transition

variable {table : SectionTable}

def LoadedSection.Inside (e : LoadedSection table) (r : Range) : Prop :=
  r.lo.toNat ≤ e.loadedRamAddr.toNat ∧
    e.loadedRamAddr.toNat + e.entry.size.toNat ≤ r.lo.toNat + r.len.toNat

instance (e : LoadedSection table) (r : Range) : Decidable (e.Inside r) :=
  inferInstanceAs (Decidable (_ ∧ _))

/-- A list of sections that a range does not cut through. -/
structure Whole (loaded : List (LoadedSection table)) (r : Range) : Prop where
  fits : r.Fits
  nonempty : ∀ e ∈ loaded, e.entry.size ≠ 0
  disjoint : loaded.Pairwise fun e e' => e.range.Apart e'.range
  uncut : ∀ e ∈ loaded, e.Inside r ∨ e.range.Apart r

/-- The call returns without the sections in the range, whose addresses are
those of the link again, and with everything else as it was. -/
def UnloadsInside (s : Overlays table) (r : Range) : Prop :=
  ∃ t, s.unloadOverlays r.lo r.len = some t ∧
    t.loadedSections = s.loadedSections.filter (fun e => !decide (e.Inside r)) ∧
    (∀ e ∈ s.loadedSections, e.Inside r → t.sectionAddresses e.entry.index = e.entry.ramAddr) ∧
    ∀ slot, (∀ e ∈ s.loadedSections, e.Inside r → e.entry.index ≠ slot) →
      t.sectionAddresses slot = s.sectionAddresses slot

/-- The section is outside and begins where the range ends, or the range is
empty and lies in the section. -/
def LoadedSection.Adjoins (e : LoadedSection table) (r : Range) : Prop :=
  ¬ e.Inside r ∧ r.lo.toNat < (e.loadedRamAddr + e.entry.size).toNat ∧
    (e.loadedRamAddr.toNat = r.lo.toNat + r.len.toNat ∨
      r.len = 0 ∧ e.loadedRamAddr.toNat ≤ r.lo.toNat)

def LoadedSection.Straddled (e : LoadedSection table) (r : Range) : Prop :=
  e.Inside r ∧ r.lo.toNat < 2 ^ 31 ∧ 2 ^ 31 ≤ e.loadedRamAddr.toNat

/-! ## The loop -/

namespace Overlays

theorem unloadEach_stops {ramAddr size : UInt32} {e : LoadedSection table}
    (touched : unloadTouches ramAddr size e = true)
    (partly : unloadsPartially ramAddr size e = true) (entries : List (LoadedSection table)) :
    ∀ s : Overlays table, e ∈ entries → unloadEach ramAddr size entries s = none := by
  induction entries with
  | nil => intro s member; exact absurd member List.not_mem_nil
  | cons first rest ih =>
      intro s member
      rw [unloadEach]
      rcases List.mem_cons.mp member with rfl | member
      · rw [if_pos touched, if_pos partly]
      · split
        · split
          · rfl
          · exact ih _ member
        · exact ih _ member

theorem unloadEach_runs {ramAddr size : UInt32} (entries : List (LoadedSection table))
    (never : ∀ e ∈ entries, unloadTouches ramAddr size e = true →
      unloadsPartially ramAddr size e = false) : ∀ s : Overlays table,
    unloadEach ramAddr size entries s =
      some ((entries.filter (unloadTouches ramAddr size)).foldl unloadSection s) := by
  induction entries with
  | nil => intro s; rfl
  | cons e rest ih =>
      intro s
      have behind := ih fun e member => never e (List.mem_cons_of_mem _ member)
      rw [unloadEach]
      cases touched : unloadTouches ramAddr size e with
      | true =>
          rw [if_pos rfl, never e List.mem_cons_self touched, if_neg Bool.false_ne_true, behind,
            List.filter_cons_of_pos touched, List.foldl_cons]
      | false =>
          rw [if_neg Bool.false_ne_true, behind,
            List.filter_cons_of_neg (by rw [touched]; exact Bool.false_ne_true)]

theorem unloadSections_loaded (out : List (LoadedSection table)) : ∀ s : Overlays table,
    (out.foldl unloadSection s).loadedSections = s.loadedSections.diff out := by
  induction out with
  | nil => intro s; rfl
  | cons e rest ih =>
      intro s
      rw [List.foldl_cons, ih, List.diff_cons]
      rfl

theorem unloadSections_address (out : List (LoadedSection table)) : ∀ s : Overlays table,
    (∀ e ∈ out, (out.foldl unloadSection s).sectionAddresses e.entry.index = e.entry.ramAddr) ∧
      ∀ slot, (∀ e ∈ out, e.entry.index ≠ slot) →
        (out.foldl unloadSection s).sectionAddresses slot = s.sectionAddresses slot := by
  induction out with
  | nil =>
      intro s
      exact ⟨fun e member => absurd member List.not_mem_nil, fun _ _ => rfl⟩
  | cons first rest ih =>
      intro s
      obtain ⟨reset, others⟩ := ih (s.unloadSection first)
      have here : (s.unloadSection first).sectionAddresses first.entry.index =
          first.entry.ramAddr := secaddrSet_own (table.aligned _)
      rw [List.foldl_cons]
      refine ⟨fun e member => ?_, fun slot away => ?_⟩
      · rcases List.mem_cons.mp member with rfl | member
        · by_cases again : ∃ e' ∈ rest, e'.entry.index = e.entry.index
          · obtain ⟨e', inRest, same⟩ := again
            have section_ : e'.sectionTableIndex = e.sectionTableIndex :=
              table.index_injective _ _ same
            have entry : e'.entry = e.entry := congrArg table.codeSections section_
            rw [← entry]
            exact reset e' inRest
          · rw [others _ fun e' inRest same => again ⟨e', inRest, same⟩, here]
        · exact reset e member
      · rw [others slot fun e inRest => away e (List.mem_cons_of_mem _ inRest)]
        exact secaddrSet_other (Ne.symm (away first List.mem_cons_self))

end Overlays

/-! ## Where a whole section stands -/

section Whole
variable {loaded : List (LoadedSection table)} {r : Range} {e : LoadedSection table}

theorem Whole.positive (whole : Whole loaded r) (member : e ∈ loaded) : 0 < e.entry.size.toNat := by
  rw [Nat.pos_iff_ne_zero]
  exact fun none => whole.nonempty e member (UInt32.toNat_inj.mp none)

theorem Whole.nodup (whole : Whole loaded r) : loaded.Nodup := by
  refine List.Pairwise.imp_of_mem (fun {e e'} member _ apart same => ?_) whole.disjoint
  subst same
  have positive := whole.positive member
  have own : e.range.Contains e.loadedRamAddr := ⟨le_refl _, Nat.lt_add_of_pos_right positive⟩
  exact apart e.loadedRamAddr own own

/-- A section apart from the range lies behind it, or before it, or the range is empty. -/
theorem Whole.apart_cases (whole : Whole loaded r) (member : e ∈ loaded)
    (apart : e.range.Apart r) : r.len.toNat = 0 ∨
      r.lo.toNat + r.len.toNat ≤ e.loadedRamAddr.toNat ∨
      e.loadedRamAddr.toNat + e.entry.size.toNat ≤ r.lo.toNat := by
  by_contra reaches
  rw [not_or, not_or] at reaches
  have positive := whole.positive member
  rcases Nat.le_total r.lo.toNat e.loadedRamAddr.toNat with behind | before
  · refine apart e.loadedRamAddr ⟨le_refl _, Nat.lt_add_of_pos_right positive⟩ ⟨behind, ?_⟩
    omega
  · refine apart r.lo ⟨before, ?_⟩ ⟨le_refl _, ?_⟩
    · change r.lo.toNat < e.loadedRamAddr.toNat + e.entry.size.toNat
      omega
    · omega

theorem signed_lt_iff {a b : UInt32} (order : b.toNat ≤ a.toNat) :
    a.toInt32 < b.toInt32 ↔ b.toNat < 2 ^ 31 ∧ 2 ^ 31 ≤ a.toNat := by
  rw [Int32.lt_iff_toInt_lt]
  change a.toBitVec.toInt < b.toBitVec.toInt ↔ _
  rw [BitVec.toInt_eq_toNat_cond, BitVec.toInt_eq_toNat_cond, UInt32.toNat_toBitVec,
    UInt32.toNat_toBitVec]
  have := a.toNat_lt
  have := b.toNat_lt
  split <;> split <;> omega

theorem Whole.touches_iff (whole : Whole loaded r) : Overlays.unloadTouches r.lo r.len e = true ↔
    r.lo.toNat < (e.loadedRamAddr + e.entry.size).toNat ∧
      e.loadedRamAddr.toNat ≤ r.lo.toNat + r.len.toNat := by
  have fits : (r.lo + r.len).toNat = r.lo.toNat + r.len.toNat := by
    rw [UInt32.toNat_add, Nat.mod_eq_of_lt whole.fits]
  simp only [Overlays.unloadTouches, Bool.and_eq_true, decide_eq_true_eq, UInt32.lt_iff_toNat_lt,
    UInt32.le_iff_toNat_le, fits]

theorem Whole.inside_touches (whole : Whole loaded r) (member : e ∈ loaded) (inside : e.Inside r) :
    Overlays.unloadTouches r.lo r.len e = true ∧
      (Overlays.unloadsPartially r.lo r.len e = true ↔ e.Straddled r) := by
  have fits := whole.fits
  have positive := whole.positive member
  obtain ⟨start, stop⟩ := inside
  unfold Range.Fits at fits
  have rangeEnd : (r.lo + r.len).toNat = r.lo.toNat + r.len.toNat := by
    rw [UInt32.toNat_add, Nat.mod_eq_of_lt fits]
  have sectionEnd : (e.loadedRamAddr + e.entry.size).toNat =
      e.loadedRamAddr.toNat + e.entry.size.toNat := by
    rw [UInt32.toNat_add, Nat.mod_eq_of_lt (lt_of_le_of_lt stop fits)]
  refine ⟨whole.touches_iff.mpr ⟨by omega, by omega⟩, ?_⟩
  simp only [Overlays.unloadsPartially, Bool.or_eq_true, decide_eq_true_eq, signed_lt_iff start,
    UInt32.lt_iff_toNat_lt, rangeEnd, sectionEnd]
  constructor
  · rintro (signs | shorter)
    · exact ⟨⟨start, stop⟩, signs⟩
    · omega
  · exact fun straddled => Or.inl straddled.2

theorem Whole.outside_touches (whole : Whole loaded r) (member : e ∈ loaded)
    (outside : ¬ e.Inside r) : Overlays.unloadTouches r.lo r.len e = true ↔ e.Adjoins r := by
  have apart := (whole.uncut e member).resolve_left outside
  have wrapped : (e.loadedRamAddr + e.entry.size).toNat ≤
      e.loadedRamAddr.toNat + e.entry.size.toNat := by
    rw [UInt32.toNat_add]
    exact Nat.mod_le _ _
  rw [whole.touches_iff]
  constructor
  · rintro ⟨past, before⟩
    refine ⟨outside, past, ?_⟩
    rcases whole.apart_cases member apart with empty | behind | ahead
    · exact Or.inr ⟨UInt32.toNat_inj.mp empty, by omega⟩
    · exact Or.inl (le_antisymm before behind)
    · omega
  · rintro ⟨-, past, place | ⟨empty, before⟩⟩
    · exact ⟨past, le_of_eq place⟩
    · exact ⟨past, le_trans before (Nat.le_add_right _ _)⟩

end Whole

/-- A range that cuts no section is unloaded right exactly when no section
begins at its end and no two starts differ in the sign. -/
theorem unload_overlays_range_iff (s : Overlays table) (r : Range)
    (whole : Whole s.loadedSections r) :
    UnloadsInside s r ↔ ∀ e ∈ s.loadedSections, ¬ e.Adjoins r ∧ ¬ e.Straddled r := by
  by_cases stops : ∃ e ∈ s.loadedSections, Overlays.unloadTouches r.lo r.len e = true ∧
      Overlays.unloadsPartially r.lo r.len e = true
  · obtain ⟨e, member, touched, partly⟩ := stops
    refine iff_of_false ?_ fun clear => ?_
    · rintro ⟨t, returned, -⟩
      rw [Overlays.unloadOverlays, Overlays.unloadEach_stops touched partly _ s member] at returned
      contradiction
    · by_cases inside : e.Inside r
      · exact (clear e member).2 ((whole.inside_touches member inside).2.mp partly)
      · exact (clear e member).1 ((whole.outside_touches member inside).mp touched)
  · have never : ∀ e ∈ s.loadedSections, Overlays.unloadTouches r.lo r.len e = true →
        Overlays.unloadsPartially r.lo r.len e = false := fun e member touched =>
      Bool.eq_false_iff.mpr fun partly => stops ⟨e, member, touched, partly⟩
    have returns := Overlays.unloadEach_runs s.loadedSections never s
    set out := s.loadedSections.filter (Overlays.unloadTouches r.lo r.len) with out_eq
    obtain ⟨reset, others⟩ := Overlays.unloadSections_address out s
    have list : (out.foldl Overlays.unloadSection s).loadedSections =
        s.loadedSections.filter fun e => !Overlays.unloadTouches r.lo r.len e := by
      rw [Overlays.unloadSections_loaded, whole.nodup.sdiff_eq_filter]
      refine List.filter_congr fun e member => ?_
      simp [out_eq, List.mem_filter, member]
    constructor
    · rintro ⟨t, returned, kept, -⟩ e member
      rw [Overlays.unloadOverlays, returns] at returned
      cases returned
      rw [list] at kept
      refine ⟨fun adjoins => ?_, fun straddled => ?_⟩
      · have touched := (whole.outside_touches member adjoins.1).mpr adjoins
        have stays : e ∈ s.loadedSections.filter fun e => !decide (e.Inside r) :=
          List.mem_filter.mpr ⟨member, by simpa using adjoins.1⟩
        rw [← kept, List.mem_filter, touched] at stays
        exact absurd stays.2 (by simp)
      · obtain ⟨touched, partly⟩ := whole.inside_touches member straddled.1
        exact stops ⟨e, member, touched, partly.mpr straddled⟩
    · intro clear
      have touches : ∀ e ∈ s.loadedSections,
          Overlays.unloadTouches r.lo r.len e = decide (e.Inside r) := by
        intro e member
        by_cases inside : e.Inside r
        · rw [(whole.inside_touches member inside).1, decide_eq_true inside]
        · rw [decide_eq_false inside, ← Bool.not_eq_true, whole.outside_touches member inside]
          exact (clear e member).1
      refine ⟨_, returns, ?_, fun e member inside => ?_, fun slot away => ?_⟩
      · rw [list]
        exact List.filter_congr fun e member => by rw [touches e member]
      · exact reset e (List.mem_filter.mpr ⟨member, by rw [touches e member]; simpa using inside⟩)
      · refine others slot fun e inOut => ?_
        obtain ⟨member, touched⟩ := List.mem_filter.mp inOut
        rw [touches e member] at touched
        exact away e member (of_decide_eq_true touched)

/-- One section at the end of a range, and one above 0x80000000 in a range that
begins below. -/
def besideRange : Overlays twoFragments :=
  { Overlays.initOverlays twoFragments with loadedSections := [⟨0x80001000, firstFragment⟩] }

theorem range_unload_stops :
    (Whole besideRange.loadedSections ⟨0x80000000, 0x1000⟩ ∧
      ¬ UnloadsInside besideRange ⟨0x80000000, 0x1000⟩) ∧
    (Whole besideRange.loadedSections ⟨0x7FFFF000, 0x4000⟩ ∧
      ¬ UnloadsInside besideRange ⟨0x7FFFF000, 0x4000⟩) := by
  have stopped : ∀ r : Range,
      besideRange.unloadOverlays r.lo r.len = none → ¬ UnloadsInside besideRange r := by
    rintro r none ⟨t, returned, -⟩
    rw [none] at returned
    contradiction
  have whole : ∀ r : Range, r.Fits →
      ((⟨0x80001000, firstFragment⟩ : LoadedSection twoFragments).Inside r ∨
        (⟨0x80001000, firstFragment⟩ : LoadedSection twoFragments).range.Apart r) →
      Whole besideRange.loadedSections r := by
    intro r fits uncut
    refine ⟨fits, ?_, List.pairwise_singleton _ _, ?_⟩ <;> intro e member <;>
      rw [List.mem_singleton.mp member]
    · decide
    · exact uncut
  refine ⟨⟨whole _ (by decide) (Or.inr (Range.apart_of_le (by decide)).symm), ?_⟩,
    ⟨whole _ (by decide) (Or.inl (by decide)), ?_⟩⟩
  · exact stopped _ (by decide +kernel)
  · exact stopped _ (by decide +kernel)

def partedRange : Overlays twoFragments :=
  { Overlays.initOverlays twoFragments with
    loadedSections := [⟨0x80001000, firstFragment⟩, ⟨0x80300000, secondFragment⟩] }

theorem unload_overlays_range_parted : UnloadsInside partedRange ⟨0x80001000, 0x1000⟩ := by
  have cases : ∀ e ∈ partedRange.loadedSections, e = ⟨0x80001000, firstFragment⟩ ∨
      e = ⟨0x80300000, secondFragment⟩ := by
    intro e member
    rcases List.mem_cons.mp member with first | rest
    · exact .inl first
    · exact .inr (List.mem_singleton.mp rest)
  have whole : Whole partedRange.loadedSections ⟨0x80001000, 0x1000⟩ := by
    refine ⟨by decide, fun e member => ?_, ?_, fun e member => ?_⟩
    · rcases cases e member with rfl | rfl <;> decide
    · refine List.pairwise_pair.mpr (Range.apart_of_le ?_)
      decide
    · rcases cases e member with rfl | rfl
      · exact .inl (by decide)
      · exact .inr (Range.apart_of_le (by decide)).symm
  refine (unload_overlays_range_iff partedRange ⟨0x80001000, 0x1000⟩ whole).mpr fun e member => ?_
  rcases cases e member with rfl | rfl
  · exact ⟨fun adjoins => adjoins.1 (by decide), fun straddled => absurd straddled.2.1 (by decide)⟩
  · exact ⟨fun adjoins => absurd adjoins.2.2 (by decide),
      fun straddled => absurd straddled.1 (by decide)⟩

end N64ModernRuntime.Librecomp
