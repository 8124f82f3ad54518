import N64ModernRuntime.Librecomp.SyntheticFragments

/-!
# overlays.cpp: the section that a fragment is bound to

A fragment is told by the hash of its first bytes.  Where no hash matches, its
header and its size still choose a section, and neither looks at the hash of
the section that it chooses.
-/

set_option autoImplicit false

namespace N64ModernRuntime.Librecomp

/-! ## The call and the choice -/

def Binds (table : SectionTable) (rdram : Rdram) (id fragmentPtr : UInt32) (index : table.Index) :
    Prop :=
  ∀ s : Overlays table,
    (s.registerRuntimeFragment rdram id fragmentPtr).runtimeFragmentIdToSection id = some index

variable {table : SectionTable}

theorem slots_keep_ids (ids : UInt32 → Option table.Index) :
    Keeps (fun _ _ => False) fun s : Overlays table => s.runtimeFragmentIdToSection = ids where
  move := fun _ _ _ _ none => none.elim
  install := fun _ _ _ kept _ installed => by
    obtain ⟨func, rfl⟩ := tryInstall_some installed
    exact kept
  queue := fun _ _ kept _ => kept
  unqueue := fun _ _ kept _ => kept

theorem binds_iff {rdram : Rdram} {id fragmentPtr : UInt32} {index : table.Index} :
    Binds table rdram id fragmentPtr index ↔
      fragmentPtr ≠ 0 ∧ selectSection table rdram id fragmentPtr = some index := by
  have bound : ∀ other, fragmentPtr ≠ 0 → selectSection table rdram id fragmentPtr = some other →
      Binds table rdram id fragmentPtr other := by
    intro other someBase selected s
    rw [Overlays.registerRuntimeFragment, if_neg someBase, selected]
    have keeps := slots_keep_ids
      (((s.evictPriorAtBase (some other) fragmentPtr).supersede id fragmentPtr).bindSection id other
        fragmentPtr).runtimeFragmentIdToSection
    refine (congrFun (keeps.retry (keeps.scan ?_ ?_ (if_pos rfl)).1) id).trans (if_pos rfl)
    · rfl
    · exact Keeps.mem_setLoaded _ other fragmentPtr
  constructor
  · intro binds
    have initially := binds (Overlays.initOverlays table)
    by_cases someBase : fragmentPtr = 0
    · rw [Overlays.registerRuntimeFragment, if_pos someBase] at initially
      cases initially
    · refine ⟨someBase, ?_⟩
      cases selected : selectSection table rdram id fragmentPtr with
      | none =>
          rw [Overlays.registerRuntimeFragment, if_neg someBase, selected] at initially
          dsimp only [Overlays.leaveUnregistered] at initially
          split at initially <;> cases initially
      | some other =>
          have own := bound other someBase selected (Overlays.initOverlays table)
          exact own.symm.trans initially
  · rintro ⟨someBase, selected⟩
    exact bound index someBase selected

/-! ## The rules -/

section Rules
variable (table : SectionTable) (rdram : Rdram) (id fragmentPtr : UInt32)

def liveHash (rdram : Rdram) (fragmentPtr : UInt32) : UInt64 :=
  fnv1a64 (hashWindow rdram (fragmentPtr &&& 0x1FFFFFFF))

def Candidate (i : table.Index) : Prop := isCandidate id (table.codeSections i) = true

def ExtentOk (i : table.Index) : Prop :=
  extentOk (fragSizeInRam rdram fragmentPtr) (table.codeSections i) = true

/-- A candidate that the id names alone, and that has no hash. -/
def SoleUnhashed (i : table.Index) : Prop :=
  Candidate table id i ∧ (∀ j, Candidate table id j → j = i) ∧ (table.codeSections i).contentHash = 0

def HashMatches (i : table.Index) : Prop :=
  Candidate table id i ∧ (table.codeSections i).contentHash ≠ 0 ∧
    (table.codeSections i).contentHash = liveHash rdram fragmentPtr ∧ ExtentOk table rdram fragmentPtr i

def Rescues (i : table.Index) : Prop :=
  Candidate table id i ∧ ExtentOk table rdram fragmentPtr i ∧
    ∃ linkVram, headerLinkVram rdram fragmentPtr = some linkVram ∧
      unsignedContains (table.codeSections i).ramAddr (table.codeSections i).size linkVram = true

def StartsAtHeader (i : table.Index) : Prop :=
  ExtentOk table rdram fragmentPtr i ∧
    headerLinkVram rdram fragmentPtr = some (table.codeSections i).ramAddr

def FitsSize (i : table.Index) : Prop :=
  Candidate table id i ∧ fragSizeInRam rdram fragmentPtr ≠ 0 ∧
    (table.codeSections i).size ≤ fragSizeInRam rdram fragmentPtr

/-- The section that the header names, or else the size. -/
inductive NamedUnchecked : table.Index → Prop where
  | rescue (i : table.Index) (here : Rescues table rdram id fragmentPtr i)
      (first : ∀ j, j < i → ¬ Rescues table rdram id fragmentPtr j) : NamedUnchecked i
  | header (i : table.Index) (missed : ∀ j, ¬ Rescues table rdram id fragmentPtr j)
      (here : StartsAtHeader table rdram fragmentPtr i)
      (first : ∀ j, j < i → ¬ StartsAtHeader table rdram fragmentPtr j) : NamedUnchecked i
  | size (i : table.Index) (missed : ∀ j, ¬ Rescues table rdram id fragmentPtr j)
      (absent : ∀ j, ¬ StartsAtHeader table rdram fragmentPtr j)
      (here : FitsSize table rdram id fragmentPtr i)
      (only : ∀ j, FitsSize table rdram id fragmentPtr j → j = i) : NamedUnchecked i

end Rules

/-! ## What each rule finds -/

section First
variable {n : Nat} {p : Fin n → Bool} {P : Fin n → Prop}

theorem find?_first (same : ∀ i, p i = true ↔ P i) {i : Fin n} :
    (List.finRange n).find? p = some i ↔ P i ∧ ∀ j, j < i → ¬ P j := by
  rw [List.find?_eq_some_iff_getElem, same i]
  refine and_congr_right fun _ => ?_
  constructor
  · rintro ⟨place, bound, here, first⟩ j before
    rw [List.getElem_finRange] at here
    subst here
    have earlier := first j.val before
    rw [List.getElem_finRange] at earlier
    rw [← same j]
    simpa using earlier
  · intro first
    refine ⟨i.val, by simp, by simp, fun j before => ?_⟩
    have earlier := first ⟨j, lt_trans before i.isLt⟩ before
    rw [← same] at earlier
    simpa using earlier

theorem find?_absent (same : ∀ i, p i = true ↔ P i) :
    (List.finRange n).find? p = none ↔ ∀ i, ¬ P i := by
  rw [List.find?_eq_none]
  simp only [List.mem_finRange, true_imp_iff, same]

theorem filter_only (same : ∀ i, p i = true ↔ P i) {i : Fin n} :
    (List.finRange n).filter p = [i] ↔ P i ∧ ∀ j, P j → j = i := by
  have nodup : ((List.finRange n).filter p).Nodup := (List.nodup_finRange n).filter _
  rw [← List.perm_singleton, List.perm_ext_iff_of_nodup nodup (List.nodup_singleton i)]
  simp only [List.mem_filter, List.mem_finRange, true_and, List.mem_singleton, same]
  constructor
  · intro equal
    exact ⟨(equal i).mpr rfl, fun j => (equal j).mp⟩
  · rintro ⟨here, only⟩ j
    refine ⟨only j, ?_⟩
    rintro rfl
    exact here

end First

section Select
variable {rdram : Rdram} {id fragmentPtr : UInt32}

theorem sole_unhashed_iff :
    ((table.candidates id).length = 1 ∧ ¬ (table.candidates id).any
      (fun i => decide ((table.codeSections i).contentHash ≠ 0)) = true) ↔
      ∃ i, SoleUnhashed table id i := by
  have only_iff := fun i : table.Index =>
    filter_only (p := fun i => isCandidate id (table.codeSections i)) (fun _ => Iff.rfl) (i := i)
  constructor
  · rintro ⟨one, unhashed⟩
    obtain ⟨i, only⟩ := List.length_eq_one_iff.mp one
    rw [only] at unhashed
    obtain ⟨here, others⟩ := (only_iff i).mp only
    exact ⟨i, here, others, by simpa using unhashed⟩
  · rintro ⟨i, here, others, unhashed⟩
    have only : table.candidates id = [i] := (only_iff i).mpr ⟨here, others⟩
    rw [only]
    exact ⟨rfl, by simpa using unhashed⟩

theorem selectByContent_hash {i : table.Index} (here : HashMatches table rdram id fragmentPtr i) :
    ∃ j, selectByContent table rdram fragmentPtr (table.candidates id) = some j ∧
      HashMatches table rdram id fragmentPtr j := by
  have same : ∀ i, decide (isCandidate id (table.codeSections i) = true ∧
      (decide ((table.codeSections i).contentHash ≠ 0) &&
        decide ((table.codeSections i).contentHash = liveHash rdram fragmentPtr) &&
        extentOk (fragSizeInRam rdram fragmentPtr) (table.codeSections i)) = true) = true ↔
      HashMatches table rdram id fragmentPtr i := by
    intro i
    simp only [Bool.and_eq_true, decide_eq_true_eq, HashMatches, Candidate, ExtentOk, and_assoc]
  unfold selectByContent SectionTable.candidates
  dsimp only
  rw [List.find?_filter]
  cases found : (List.finRange table.numCodeSections).find? fun i =>
      decide (isCandidate id (table.codeSections i) = true ∧
        (decide ((table.codeSections i).contentHash ≠ 0) &&
          decide ((table.codeSections i).contentHash = fnv1a64
            (hashWindow rdram (fragmentPtr &&& 0x1FFFFFFF))) &&
          extentOk (fragSizeInRam rdram fragmentPtr) (table.codeSections i)) = true) with
  | none => exact absurd here ((find?_absent same).mp found i)
  | some j => exact ⟨j, rfl, ((find?_first same).mp found).1⟩

theorem selectByContent_missed
    (missed : ∀ i, ¬ HashMatches table rdram id fragmentPtr i) :
    (∀ i, selectByContent table rdram fragmentPtr (table.candidates id) = some i ↔
      Rescues table rdram id fragmentPtr i ∧
        ∀ j, j < i → ¬ Rescues table rdram id fragmentPtr j) ∧
    (selectByContent table rdram fragmentPtr (table.candidates id) = none ↔
      ∀ i, ¬ Rescues table rdram id fragmentPtr i) := by
  have none_matches : (table.candidates id).find? (fun i =>
      decide ((table.codeSections i).contentHash ≠ 0) &&
        decide ((table.codeSections i).contentHash = fnv1a64
          (hashWindow rdram (fragmentPtr &&& 0x1FFFFFFF))) &&
        extentOk (fragSizeInRam rdram fragmentPtr) (table.codeSections i)) = none := by
    rw [SectionTable.candidates, List.find?_filter]
    refine (find?_absent fun i => ?_).mpr missed
    simp only [Bool.and_eq_true, decide_eq_true_eq, HashMatches, Candidate, ExtentOk, and_assoc,
      liveHash]
  unfold selectByContent
  dsimp only
  rw [none_matches]
  cases header : headerLinkVram rdram fragmentPtr with
  | none =>
      have never : ∀ i, ¬ Rescues table rdram id fragmentPtr i := by
        rintro i ⟨-, -, linkVram, found, -⟩
        rw [header] at found
        cases found
      exact ⟨fun i => ⟨fun found => (nomatch found), fun held => absurd held.1 (never i)⟩,
        ⟨fun _ => never, fun _ => rfl⟩⟩
  | some linkVram =>
      have same : ∀ i, decide (isCandidate id (table.codeSections i) = true ∧
          (unsignedContains (table.codeSections i).ramAddr (table.codeSections i).size linkVram &&
            extentOk (fragSizeInRam rdram fragmentPtr) (table.codeSections i)) = true) = true ↔
          Rescues table rdram id fragmentPtr i := by
        intro i
        simp only [Bool.and_eq_true, decide_eq_true_eq, Rescues, Candidate, ExtentOk, header,
          Option.some_inj, exists_eq_left', and_comm]
      have chosen : (none <|> (some linkVram).bind fun linkVram =>
          (table.candidates id).find? fun i =>
            unsignedContains (table.codeSections i).ramAddr (table.codeSections i).size linkVram &&
              extentOk (fragSizeInRam rdram fragmentPtr) (table.codeSections i)) =
          (List.finRange table.numCodeSections).find? fun i =>
            decide (isCandidate id (table.codeSections i) = true ∧
              (unsignedContains (table.codeSections i).ramAddr (table.codeSections i).size
                linkVram && extentOk (fragSizeInRam rdram fragmentPtr) (table.codeSections i)) =
                  true) := by
        rw [← List.find?_filter]
        rfl
      rw [chosen]
      exact ⟨fun i => find?_first same, find?_absent same⟩

theorem selectByHeader_spec :
    (∀ i, selectByHeader table rdram fragmentPtr = some i ↔
      StartsAtHeader table rdram fragmentPtr i ∧
        ∀ j, j < i → ¬ StartsAtHeader table rdram fragmentPtr j) ∧
    (selectByHeader table rdram fragmentPtr = none ↔
      ∀ i, ¬ StartsAtHeader table rdram fragmentPtr i) := by
  unfold selectByHeader
  cases header : headerLinkVram rdram fragmentPtr with
  | none =>
      have never : ∀ i, ¬ StartsAtHeader table rdram fragmentPtr i := by
        rintro i ⟨-, found⟩
        rw [header] at found
        cases found
      exact ⟨fun i => ⟨fun found => (nomatch found), fun held => absurd held.1 (never i)⟩,
        ⟨fun _ => never, fun _ => rfl⟩⟩
  | some linkVram =>
      have same : ∀ i, (decide ((table.codeSections i).ramAddr = linkVram) &&
          extentOk (fragSizeInRam rdram fragmentPtr) (table.codeSections i)) = true ↔
          StartsAtHeader table rdram fragmentPtr i := by
        intro i
        rw [Bool.and_eq_true, decide_eq_true_eq, StartsAtHeader, ExtentOk, header, Option.some_inj,
          and_comm, eq_comm (a := linkVram)]
      exact ⟨fun i => find?_first same, find?_absent same⟩

theorem selectBySize_iff (i : table.Index) :
    selectBySize table rdram fragmentPtr (table.candidates id) = some i ↔
      FitsSize table rdram id fragmentPtr i ∧
        ∀ j, FitsSize table rdram id fragmentPtr j → j = i := by
  unfold selectBySize
  dsimp only
  by_cases unknown : fragSizeInRam rdram fragmentPtr = 0
  · rw [if_pos unknown]
    exact ⟨fun found => (nomatch found), fun held => absurd unknown held.1.2.1⟩
  · have same : ∀ i, (decide ((table.codeSections i).size ≤ fragSizeInRam rdram fragmentPtr) &&
        isCandidate id (table.codeSections i)) = true ↔ FitsSize table rdram id fragmentPtr i := by
      intro i
      rw [Bool.and_eq_true, decide_eq_true_eq, FitsSize, Candidate, and_comm]
      simp only [unknown, ne_eq, not_false_eq_true, true_and]
    rw [if_neg unknown, SectionTable.candidates, List.filter_filter, ← filter_only same]
    cases (List.finRange table.numCodeSections).filter fun i =>
        decide ((table.codeSections i).size ≤ fragSizeInRam rdram fragmentPtr) &&
          isCandidate id (table.codeSections i) with
    | nil => exact ⟨fun found => (nomatch found), fun found => (nomatch found)⟩
    | cons first rest =>
        cases rest with
        | nil => rw [Option.some_inj, List.singleton_inj]
        | cons second rest =>
            exact ⟨fun found => (nomatch found), fun found => nomatch (List.cons.inj found).2⟩

theorem selectSection_unchecked (notSole : ¬ ∃ i, SoleUnhashed table id i)
    (missed : ∀ i, ¬ HashMatches table rdram id fragmentPtr i) (i : table.Index) :
    selectSection table rdram id fragmentPtr = some i ↔
      NamedUnchecked table rdram id fragmentPtr i := by
  obtain ⟨content, noContent⟩ := selectByContent_missed missed
  obtain ⟨header, noHeader⟩ := @selectByHeader_spec table rdram fragmentPtr
  have order : selectSection table rdram id fragmentPtr =
      (selectByContent table rdram fragmentPtr (table.candidates id) <|>
        selectByHeader table rdram fragmentPtr <|>
          selectBySize table rdram fragmentPtr (table.candidates id)).filter fun i =>
            extentOk (fragSizeInRam rdram fragmentPtr) (table.codeSections i) := by
    unfold selectSection
    dsimp only
    rw [if_neg (mt sole_unhashed_iff.mp notSole)]
  rw [order, Option.filter_eq_some_iff]
  constructor
  · rintro ⟨found, -⟩
    cases byContent : selectByContent table rdram fragmentPtr (table.candidates id) with
    | some j =>
        rw [byContent] at found
        cases found
        obtain ⟨here, first⟩ := (content i).mp byContent
        exact .rescue i here first
    | none =>
        have missed := noContent.mp byContent
        rw [byContent] at found
        cases byHeader : selectByHeader table rdram fragmentPtr with
        | some j =>
            rw [byHeader] at found
            cases found
            obtain ⟨here, first⟩ := (header i).mp byHeader
            exact .header i missed here first
        | none =>
            rw [byHeader] at found
            obtain ⟨here, only⟩ := (selectBySize_iff i).mp found
            exact .size i missed (noHeader.mp byHeader) here only
  · intro named
    cases named with
    | rescue here first =>
        rw [(content i).mpr ⟨here, first⟩]
        exact ⟨rfl, here.2.1⟩
    | header missed here first =>
        rw [noContent.mpr missed, (header i).mpr ⟨here, first⟩]
        exact ⟨rfl, here.1⟩
    | size missed absent here only =>
        rw [noContent.mpr missed, noHeader.mpr absent, (selectBySize_iff i).mpr ⟨here, only⟩]
        refine ⟨rfl, ?_⟩
        rw [extentOk, decide_eq_true here.2.2, Bool.or_true]

theorem selectSection_checked
    (checked : (∃ i, SoleUnhashed table id i) ∨ ∃ i, HashMatches table rdram id fragmentPtr i)
    {i : table.Index} (selected : selectSection table rdram id fragmentPtr = some i) :
    (table.codeSections i).contentHash = 0 ∨
      (table.codeSections i).contentHash = liveHash rdram fragmentPtr := by
  unfold selectSection at selected
  dsimp only at selected
  rw [Option.filter_eq_some_iff] at selected
  obtain ⟨found, -⟩ := selected
  by_cases sole : ∃ i, SoleUnhashed table id i
  · rw [if_pos (sole_unhashed_iff.mpr sole)] at found
    obtain ⟨j, here, others, unhashed⟩ := sole
    have only : table.candidates id = [j] := (filter_only fun _ => Iff.rfl).mpr ⟨here, others⟩
    rw [only] at found
    cases found
    exact Or.inl unhashed
  · rw [if_neg (mt sole_unhashed_iff.mp sole)] at found
    obtain ⟨j, here⟩ := checked.resolve_left sole
    obtain ⟨k, content, -, -, equal, -⟩ := selectByContent_hash here
    rw [content] at found
    cases found
    exact Or.inr equal

end Select

/-! ## Binding by content -/

/-- Code is bound only to the bytes that it was made from, and no more of it than there are. -/
def BoundByContent (table : SectionTable) (rdram : Rdram) (id fragmentPtr : UInt32) : Prop :=
  ∀ index, Binds table rdram id fragmentPtr index →
    ((table.codeSections index).contentHash ≠ 0 →
      liveHash rdram fragmentPtr = (table.codeSections index).contentHash) ∧
    (fragSizeInRam rdram fragmentPtr ≠ 0 →
      (table.codeSections index).size ≤ fragSizeInRam rdram fragmentPtr)

theorem selectSection_fits {rdram : Rdram} {id fragmentPtr : UInt32} {i : table.Index}
    (selected : selectSection table rdram id fragmentPtr = some i)
    (known : fragSizeInRam rdram fragmentPtr ≠ 0) :
    (table.codeSections i).size ≤ fragSizeInRam rdram fragmentPtr := by
  have fits := (Option.filter_eq_some_iff.mp selected).2
  rw [extentOk, Bool.or_eq_true, decide_eq_true_eq, decide_eq_true_eq] at fits
  exact fits.resolve_left known

theorem register_runtime_fragment_content_iff (table : SectionTable) (rdram : Rdram)
    (id fragmentPtr : UInt32) :
    BoundByContent table rdram id fragmentPtr ↔
      fragmentPtr = 0 ∨ (∃ i, SoleUnhashed table id i) ∨
        (∃ i, HashMatches table rdram id fragmentPtr i) ∨
          ∀ i, NamedUnchecked table rdram id fragmentPtr i →
            (table.codeSections i).contentHash ≠ 0 →
              liveHash rdram fragmentPtr = (table.codeSections i).contentHash := by
  constructor
  · intro bound
    by_cases someBase : fragmentPtr = 0
    · exact Or.inl someBase
    refine Or.inr ?_
    by_cases sole : ∃ i, SoleUnhashed table id i
    · exact Or.inl sole
    refine Or.inr ?_
    by_cases matching : ∃ i, HashMatches table rdram id fragmentPtr i
    · exact Or.inl matching
    refine Or.inr fun i named hashed => ?_
    have selected := (selectSection_unchecked sole (not_exists.mp matching) i).mpr named
    exact (bound i (binds_iff.mpr ⟨someBase, selected⟩)).1 hashed
  · intro condition i binds
    obtain ⟨someBase, selected⟩ := binds_iff.mp binds
    refine ⟨fun hashed => ?_, selectSection_fits selected⟩
    by_cases checked : (∃ i, SoleUnhashed table id i) ∨
        ∃ i, HashMatches table rdram id fragmentPtr i
    · rcases selectSection_checked checked selected with none | equal
      · exact absurd none hashed
      · exact equal.symm
    · rw [not_or] at checked
      have named := (selectSection_unchecked checked.1 (not_exists.mp checked.2) i).mp selected
      rcases condition with zero | sole | matching | unchecked
      · exact absurd zero someBase
      · exact absurd sole checked.1
      · exact absurd matching checked.2
      · exact unchecked i named hashed

/-- A fragment header at 0x80200000, without a jump in it. -/
def headerRdram : Rdram := wordsRdram
  [(0x00200008, 0x46524147), (0x0020000C, 0x4D454E54), (0x0020001C, 0x1000)]

/-- The only variant that fits is bound, to bytes with another hash. -/
theorem size_binds_unmatched :
    Binds oneVariant headerRdram 5 0x80200000 theVariant ∧
      (oneVariant.codeSections theVariant).contentHash ≠ 0 ∧
      liveHash headerRdram 0x80200000 ≠ (oneVariant.codeSections theVariant).contentHash ∧
      ¬ BoundByContent oneVariant headerRdram 5 0x80200000 := by
  have binds : Binds oneVariant headerRdram 5 0x80200000 theVariant :=
    binds_iff.mpr ⟨by decide, by decide +kernel⟩
  have hashed : (oneVariant.codeSections theVariant).contentHash ≠ 0 := by decide
  have other : liveHash headerRdram 0x80200000 ≠
      (oneVariant.codeSections theVariant).contentHash := by decide +kernel
  exact ⟨binds, hashed, other, fun bound => other ((bound theVariant binds).1 hashed)⟩

end N64ModernRuntime.Librecomp
