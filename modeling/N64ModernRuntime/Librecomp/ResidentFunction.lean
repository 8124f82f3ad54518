import Mathlib.Data.List.Perm.Subperm
import N64ModernRuntime.Librecomp.Overlays
import N64ModernRuntime.Librecomp.SelfHeal

/-!
# overlays.cpp: the function that is resident at an address

A miss is looked for in the loaded sections one behind the other, and in each
of them from its link base first.  The function that is resident is found when
no loaded section, itself included, knows the address from another base.
-/

set_option autoImplicit false

namespace N64ModernRuntime.Librecomp

open AddressMap

variable {table : SectionTable}

/-! ## Ranges in 32 bits -/

theorem unsignedContains_iff {r : Range} {addr : UInt32} :
    unsignedContains r.lo r.len addr = true ↔ r.Fits ∧ r.Contains addr := by
  have := r.lo.toNat_lt
  have := r.len.toNat_lt
  unfold unsignedContains Range.Fits Range.Contains
  rw [Bool.and_eq_true, decide_eq_true_eq, decide_eq_true_eq, UInt32.le_iff_toNat_le,
    UInt32.lt_iff_toNat_lt, UInt32.toNat_add]
  simp only [UInt32.size]
  omega

/-! ## One section -/

def FuncEntry.range (fe : FuncEntry) : Range := ⟨fe.offset, fe.romSize⟩

def SectionTableEntry.functionAt (sec : SectionTableEntry) (offset : UInt32) : Option FuncEntry :=
  sec.funcs.find? fun fe => fe.func.isSome && unsignedContains fe.offset fe.romSize offset

namespace LoadedSection

def linkBase (e : LoadedSection table) : UInt32 :=
  if isSyntheticAddr e.entry.ramAddr then e.entry.originalFragmentBase.getD e.entry.ramAddr
  else e.entry.ramAddr

/-- The base from which the scan reads the address. -/
def readFrom (e : LoadedSection table) (addr : UInt32) : Option UInt32 :=
  [e.linkBase, e.loadedRamAddr, e.entry.ramAddr].find? fun base =>
    unsignedContains base e.entry.size addr

/-- What the recompiled code is to be entered with, for a function of the section. -/
def found (e : LoadedSection table) (host : RecompFunc) (offset : UInt32) (fe : FuncEntry) :
    Enclosing :=
  ⟨host, e.linkBase + offset, e.linkBase + fe.offset⟩

theorem enclosing_eq_some {e : LoadedSection table} {addr : UInt32} {answer : Enclosing} :
    e.enclosing addr = some answer ↔ ∃ base fe host, e.readFrom addr = some base ∧
      e.entry.functionAt (addr - base) = some fe ∧ fe.func = some host ∧
        e.found host (addr - base) fe = answer := by
  have unfolded : e.enclosing addr = (e.readFrom addr).bind fun base =>
      (e.entry.functionAt (addr - base)).bind fun fe =>
        fe.func.map fun host => e.found host (addr - base) fe := by
    simp only [enclosing, readFrom, SectionTableEntry.functionAt, unsignedContains, linkBase, found,
      Bool.and_assoc]
  rw [unfolded, Option.bind_eq_some_iff]
  simp only [Option.bind_eq_some_iff, Option.map_eq_some_iff]
  constructor
  · rintro ⟨base, read, fe, function, host, code, same⟩
    exact ⟨base, fe, host, read, function, code, same⟩
  · rintro ⟨base, fe, host, read, function, code, same⟩
    exact ⟨base, read, fe, function, host, code, same⟩

structure Resident (e : LoadedSection table) (fe : FuncEntry) (host : RecompFunc) (addr : UInt32) :
    Prop where
  loaded : e.range.Contains addr
  listed : fe ∈ e.entry.funcs
  code : fe.func = some host
  inside : fe.range.Contains (addr - e.loadedRamAddr)

/-- The section reads the address from where it is loaded, and knows no other function there. -/
structure ReadsOwn (e : LoadedSection table) (fe : FuncEntry) (addr : UInt32) : Prop where
  sectionFits : e.range.Fits
  functionFits : fe.range.Fits
  link : unsignedContains e.linkBase e.entry.size addr = true → e.linkBase = e.loadedRamAddr
  only : ∀ fe' ∈ e.entry.funcs, fe'.func.isSome = true →
    unsignedContains fe'.offset fe'.romSize (addr - e.loadedRamAddr) = true → fe' = fe

theorem ReadsOwn.enclosing {e : LoadedSection table} {fe : FuncEntry} {host : RecompFunc}
    {addr : UInt32} (own : e.ReadsOwn fe addr) (resident : e.Resident fe host addr) :
    e.enclosing addr = some (e.found host (addr - e.loadedRamAddr) fe) := by
  have holds : unsignedContains e.loadedRamAddr e.entry.size addr = true :=
    unsignedContains_iff.mpr ⟨own.sectionFits, resident.loaded⟩
  have read : e.readFrom addr = some e.loadedRamAddr := by
    unfold readFrom
    cases link : unsignedContains e.linkBase e.entry.size addr with
    | true => rw [List.find?_cons, link, own.link link]
    | false => rw [List.find?_cons, link, List.find?_cons, holds]
  have covers : (fe.func.isSome &&
      unsignedContains fe.offset fe.romSize (addr - e.loadedRamAddr)) = true := by
    rw [resident.code, Option.isSome_some, Bool.true_and]
    exact unsignedContains_iff.mpr ⟨own.functionFits, resident.inside⟩
  have function : e.entry.functionAt (addr - e.loadedRamAddr) = some fe := by
    cases first : e.entry.functionAt (addr - e.loadedRamAddr) with
    | none => exact absurd covers (List.find?_eq_none.mp first fe resident.listed)
    | some fe' =>
        have covers' := List.find?_some first
        rw [Bool.and_eq_true] at covers'
        rw [own.only fe' (List.mem_of_find?_eq_some first) covers'.1 covers'.2]
  exact enclosing_eq_some.mpr ⟨_, fe, host, read, function, resident.code, rfl⟩

/-- A section that names the right function reads the address from where it is loaded. -/
theorem Resident.read_own {e : LoadedSection table} {fe : FuncEntry} {host : RecompFunc}
    {addr : UInt32} (resident : e.Resident fe host addr)
    (names : e.enclosing addr = some (e.found host (addr - e.loadedRamAddr) fe)) :
    e.range.Fits ∧ fe.range.Fits ∧
      (unsignedContains e.linkBase e.entry.size addr = true → e.linkBase = e.loadedRamAddr) := by
  obtain ⟨base, fe', host', read, function, -, same⟩ := enclosing_eq_some.mp names
  have target := congrArg Enclosing.linkTarget same
  have start := congrArg Enclosing.funcStartLink same
  have own : base = e.loadedRamAddr :=
    (UInt32.sub_right_inj addr).mp ((UInt32.add_right_inj e.linkBase).mp target)
  subst own
  have equal : fe' = fe :=
    table.offset_injective e.sectionTableIndex fe' (List.mem_of_find?_eq_some function) fe
      resident.listed ((UInt32.add_right_inj e.linkBase).mp start)
  subst equal
  have covers := List.find?_some function
  rw [Bool.and_eq_true] at covers
  have holds : unsignedContains e.loadedRamAddr e.entry.size addr = true :=
    List.find?_some (p := fun base => unsignedContains base e.entry.size addr) read
  refine ⟨(unsignedContains_iff.mp holds).1, (unsignedContains_iff.mp covers.2).1, fun link => ?_⟩
  rw [readFrom, List.find?_cons, link] at read
  exact Option.some.inj read

end LoadedSection

/-! ## The scan -/

/-- A scan finds `x` whatever is listed with `e` and wherever, when nothing listed answers
something else. -/
theorem findSome?_every_order {α β : Type} {f : α → Option β} {l : List α} {e : α} {x : β}
    (listed : e ∈ l) :
    (∀ l' : List α, l'.Subperm l → e ∈ l' → l'.findSome? f = some x) ↔
      f e = some x ∧ ∀ e' ∈ l, ∀ y, f e' = some y → y = x := by
  constructor
  · intro always
    have alone := always [e] (List.singleton_subperm_iff.mpr listed) (List.mem_singleton_self e)
    rw [List.findSome?_singleton] at alone
    refine ⟨alone, fun e' member y answers => ?_⟩
    by_cases same : e' = e
    · rw [same, alone] at answers
      exact (Option.some.inj answers).symm
    · have pair : List.Nodup [e', e] := by simpa using same
      have within : [e', e] ⊆ l := by
        intro e'' inPair
        rcases List.mem_cons.mp inPair with rfl | last
        · exact member
        · rwa [List.mem_singleton.mp last]
      have first := always [e', e] (List.subperm_of_subset pair within)
        (List.mem_cons_of_mem _ (List.mem_singleton_self e))
      rw [List.findSome?_cons, answers] at first
      exact Option.some.inj first
  · rintro ⟨own, agree⟩ l' part member
    cases scan : l'.findSome? f with
    | none =>
        rw [List.findSome?_eq_none_iff.mp scan e member] at own
        contradiction
    | some y =>
        obtain ⟨e', member', answers⟩ := List.exists_of_findSome?_eq_some scan
        rw [agree e' (part.subset member') y answers]

/-- Whichever of these sections are loaded and in whichever order, a function that is resident
at `addr` is found. -/
def FindsResident (s : Overlays table) (addr : UInt32) : Prop :=
  ∀ loaded : List (LoadedSection table), loaded.Subperm s.loadedSections →
    ∀ e ∈ loaded, ∀ fe host, e.Resident fe host addr →
      findResidentEnclosingFunction { s with loadedSections := loaded } addr =
        some ⟨host, e.linkBase + (addr - e.loadedRamAddr), e.linkBase + fe.offset⟩

/-- No loaded section takes the address for another place: the resident one reads it from where
it is loaded, and another one that has a function at the base that it reads it from has the same
function there, under the same link addresses. -/
def ReadAsResident (s : Overlays table) (addr : UInt32) : Prop :=
  ∀ e ∈ s.loadedSections, ∀ fe host, e.Resident fe host addr →
    e.ReadsOwn fe addr ∧ ∀ e' ∈ s.loadedSections, e' ≠ e → ∀ base fe' host',
      e'.readFrom addr = some base → e'.entry.functionAt (addr - base) = some fe' →
        fe'.func = some host' → host' = host ∧
          e'.linkBase + (addr - base) = e.linkBase + (addr - e.loadedRamAddr) ∧
            e'.linkBase + fe'.offset = e.linkBase + fe.offset

theorem find_resident_enclosing_function_iff (s : Overlays table) (addr : UInt32) :
    FindsResident s addr ↔ ReadAsResident s addr := by
  constructor
  · intro finds e listed fe host resident
    have always : ∀ loaded : List (LoadedSection table), loaded.Subperm s.loadedSections →
        e ∈ loaded → loaded.findSome? (·.enclosing addr) =
          some (e.found host (addr - e.loadedRamAddr) fe) :=
      fun loaded part member => finds loaded part e member fe host resident
    obtain ⟨own, agree⟩ := (findSome?_every_order listed).mp always
    obtain ⟨sectionFits, functionFits, link⟩ := resident.read_own own
    refine ⟨⟨sectionFits, functionFits, link, fun fe' listed' code' covers => ?_⟩, ?_⟩
    · -- the other function is resident as well
      obtain ⟨host', code'⟩ := Option.isSome_iff_exists.mp code'
      have resident' : e.Resident fe' host' addr :=
        ⟨resident.loaded, listed', code', (unsignedContains_iff.mp covers).2⟩
      have own' := finds [e] (List.singleton_subperm_iff.mpr listed) e (List.mem_singleton_self e)
        fe' host' resident'
      rw [findResidentEnclosingFunction, List.findSome?_singleton, own] at own'
      have start := congrArg Enclosing.funcStartLink (Option.some.inj own')
      exact table.offset_injective e.sectionTableIndex fe' listed' fe resident.listed
        ((UInt32.add_right_inj e.linkBase).mp start).symm
    · intro e' listed' _ base fe' host' read function code
      have same := agree e' listed' _
        (LoadedSection.enclosing_eq_some.mpr ⟨base, fe', host', read, function, code, rfl⟩)
      exact ⟨congrArg Enclosing.host same, congrArg Enclosing.linkTarget same,
        congrArg Enclosing.funcStartLink same⟩
  · intro alone loaded part e member fe host resident
    obtain ⟨own, others⟩ := alone e (part.subset member) fe host resident
    refine (findSome?_every_order (part.subset member)).mpr ⟨own.enclosing resident, ?_⟩
      loaded part member
    intro e' listed' answer answers
    by_cases same : e' = e
    · rw [same, own.enclosing resident] at answers
      exact (Option.some.inj answers).symm
    · obtain ⟨base, fe', host', read, function, code, rfl⟩ :=
        LoadedSection.enclosing_eq_some.mp answers
      obtain ⟨host_eq, target_eq, start_eq⟩ :=
        others e' listed' same base fe' host' read function code
      rw [LoadedSection.found, host_eq, target_eq, start_eq]

def twoOverlays : SectionTable where
  numCodeSections := 2
  codeSections := fun i =>
    if i = ⟨0, Nat.zero_lt_two⟩ then ⟨0x1000, 0x80200000, 0x1000, [⟨some 1, 0, 0x1000⟩], 0, 0, 0xFFFFFFFF⟩
    else ⟨0x2000, 0x80300000, 0x1000, [⟨some 2, 0, 0x1000⟩], 1, 0, 0xFFFFFFFF⟩
  overlays := [⟨0, Nat.zero_lt_two⟩, ⟨1, Nat.one_lt_two⟩]
  sorted := by decide
  index_injective := by decide
  aligned := by decide
  offset_lt := by decide
  offset_injective := by decide

def firstOverlay : twoOverlays.Index := ⟨0, Nat.zero_lt_two⟩

def secondOverlay : twoOverlays.Index := ⟨1, Nat.one_lt_two⟩

def movedOverlays : Option (Overlays twoOverlays) :=
  ((Overlays.initOverlays twoOverlays).loadOverlays 0x1000 0x80400000 0x1000).bind fun s =>
    s.loadOverlays 0x2000 0x80200000 0x1000

/-- The function of the first overlay is found at an address where the second one is. -/
theorem link_range_shadows_resident : ∃ s, movedOverlays = some s ∧
    (s.loadedSections.Pairwise fun e e' => e.range.Apart e'.range) ∧
    (⟨0x80200000, secondOverlay⟩ : LoadedSection twoOverlays) ∈ s.loadedSections ∧
    (⟨0x80200000, secondOverlay⟩ : LoadedSection twoOverlays).Resident ⟨some 2, 0, 0x1000⟩ 2 0x80200010 ∧
    findResidentEnclosingFunction s 0x80200010 = some ⟨1, 0x80200010, 0x80200000⟩ ∧
    ¬ FindsResident s 0x80200010 := by
  have list : movedOverlays.map Overlays.loadedSections =
      some [⟨0x80400000, firstOverlay⟩, ⟨0x80200000, secondOverlay⟩] := by decide +kernel
  obtain ⟨s, reached, listed⟩ := Option.map_eq_some_iff.mp list
  have member : (⟨0x80200000, secondOverlay⟩ : LoadedSection twoOverlays) ∈ s.loadedSections := by
    rw [listed]
    decide
  have resident : (⟨0x80200000, secondOverlay⟩ : LoadedSection twoOverlays).Resident ⟨some 2, 0, 0x1000⟩ 2
      0x80200010 := ⟨by decide, by decide, rfl, by decide⟩
  have result : findResidentEnclosingFunction s 0x80200010 = some ⟨1, 0x80200010, 0x80200000⟩ := by
    rw [findResidentEnclosingFunction, listed]
    decide +kernel
  refine ⟨s, reached, ?_, member, resident, result, fun finds => ?_⟩
  · rw [listed]
    refine List.pairwise_pair.mpr (Range.apart_of_le ?_).symm
    decide
  · have right := finds s.loadedSections (List.Subperm.refl _) _ member _ _ resident
    exact absurd (result.symm.trans right) (by decide)

end N64ModernRuntime.Librecomp
