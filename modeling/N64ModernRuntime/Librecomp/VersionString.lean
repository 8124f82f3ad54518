import N64ModernRuntime.Lib.Numerals
import N64ModernRuntime.Librecomp.ModContext

/-!
# recomp.cpp: version strings

`from_string` looks for the first two dots and then converts the three fields
between them; the conversion of the last one may stop early, at a suffix.
-/

set_option autoImplicit false

namespace N64ModernRuntime.Librecomp

open Numerals

/-- `recomp::Version`, with the suffix that no comparison looks at. -/
structure SuffixedVersion extends Version where
  suffix : List Char
  deriving DecidableEq, Repr

namespace SuffixedVersion

/-- `std::to_string` of an `int` -/
def intText (n : Int) : List Char := if n < 0 then '-' :: decimal n.natAbs else decimal n.toNat

def toText (v : SuffixedVersion) : List Char :=
  intText v.major ++ '.' :: (intText v.minor ++ '.' :: (intText v.patch ++ v.suffix))

/-- `str.find('.', pos)` -/
def findDot (str : List Char) (pos : Nat) : Option Nat :=
  ((str.drop pos).findIdx? fun c => c = '.').map (pos + ·)

def fieldOf (str : List Char) (first last : Nat) : List Char := (str.take last).drop first

def component (field : List Char) : FromChars := fromChars 65535 field

def fullyConsumed (field : List Char) : Bool :=
  (component field).ec = .ok && (component field).ptr = field.length

/-- The part of `from_string` after the dots; what the last conversion leaves of its
field goes up to the end of the string. -/
def fromFields (major minor patch : List Char) (out : SuffixedVersion) : Bool × SuffixedVersion :=
  let accepted (suffix : List Char) : Bool × SuffixedVersion :=
    (true, ⟨⟨(component major).value, (component minor).value, (component patch).value⟩, suffix⟩)
  if !fullyConsumed major || !fullyConsumed minor then (false, out)
  else if (component patch).ec ≠ .ok then (false, out)
  else
    match patch.drop (component patch).ptr with
    | [] => accepted []
    | c :: rest => if c = '+' ∨ c = '-' then accepted (c :: rest) else (false, out)

/-- `from_string`: its answer, and `out` afterwards. -/
def fromString (str : List Char) (out : SuffixedVersion) : Bool × SuffixedVersion :=
  match findDot str 0 with
  | none => (false, out)
  | some firstDot =>
    match findDot str (firstDot + 1) with
    | none => (false, out)
    | some secondDot =>
      fromFields (fieldOf str 0 firstDot) (fieldOf str (firstDot + 1) secondDot)
        (fieldOf str (secondDot + 1) str.length) out

/-! ## The strings of versions -/

def Component (text : List Char) (n : Int) : Prop :=
  ∃ value : Nat, Writes text value ∧ value ≤ 65535 ∧ n = value

def Suffix (text : List Char) : Prop :=
  text = [] ∨ text.head? = some '+' ∨ text.head? = some '-'

instance (text : List Char) : Decidable (Suffix text) := inferInstanceAs (Decidable (_ ∨ _ ∨ _))

def Spells (str : List Char) (v : SuffixedVersion) : Prop :=
  ∃ major minor patch, str = major ++ '.' :: (minor ++ '.' :: (patch ++ v.suffix)) ∧
    Component major v.major ∧ Component minor v.minor ∧ Component patch v.patch ∧ Suffix v.suffix

/-- The components are numbers that `from_string` can write. -/
structure InRange (v : SuffixedVersion) : Prop where
  major : 0 ≤ v.major ∧ v.major ≤ 65535
  minor : 0 ≤ v.minor ∧ v.minor ≤ 65535
  patch : 0 ≤ v.patch ∧ v.patch ≤ 65535

/-! ## The dots -/

section Dots

variable {str major minor tail : List Char} {out : SuffixedVersion}

theorem findDot_here (front rest : List Char) {text : List Char} (no_dot : '.' ∉ text) :
    findDot (front ++ (text ++ '.' :: rest)) front.length = some (front.length + text.length) := by
  have away : text.findIdx? (fun c => decide (c = '.')) = none := by
    rw [List.findIdx?_eq_none_iff]
    intro c mem
    exact decide_eq_false fun same => no_dot (same ▸ mem)
  rw [findDot, List.drop_left, List.findIdx?_append, away, List.findIdx?_cons]
  simp

theorem findDot_some {pos i : Nat} (found : findDot str pos = some i) :
    ∃ text rest, str.drop pos = text ++ '.' :: rest ∧ '.' ∉ text := by
  obtain ⟨j, here, -⟩ := Option.map_eq_some_iff.mp found
  obtain ⟨below, is_dot, before⟩ := List.findIdx?_eq_some_iff_getElem.mp here
  refine ⟨(str.drop pos).take j, (str.drop pos).drop (j + 1), ?_, ?_⟩
  · have dot : (str.drop pos)[j] = '.' := of_decide_eq_true is_dot
    rw [← dot, List.getElem_cons_drop, List.take_append_drop]
  · intro mem
    obtain ⟨k, k_below, same⟩ := List.mem_iff_getElem.mp mem
    rw [List.length_take] at k_below
    rw [List.getElem_take] at same
    have earlier := before k (by omega)
    exact earlier (decide_eq_true same)

theorem Component.no_dot {text : List Char} {n : Int} (component : Component text n) : '.' ∉ text := by
  obtain ⟨value, writes, -, -⟩ := component
  intro mem
  exact absurd (writes.digits '.' mem) (by decide)

theorem fromString_fields (no_dot_major : '.' ∉ major) (no_dot_minor : '.' ∉ minor) :
    fromString (major ++ '.' :: (minor ++ '.' :: tail)) out = fromFields major minor tail out := by
  have first : findDot (major ++ '.' :: (minor ++ '.' :: tail)) 0 = some major.length := by
    have found := findDot_here [] (minor ++ '.' :: tail) no_dot_major
    rw [List.nil_append, List.length_nil, Nat.zero_add] at found
    exact found
  have front : major ++ '.' :: (minor ++ '.' :: tail) =
      (major ++ ['.']) ++ (minor ++ '.' :: tail) := by
    rw [List.append_assoc, List.singleton_append]
  have front_length : (major ++ ['.']).length = major.length + 1 := List.length_append
  have second : findDot (major ++ '.' :: (minor ++ '.' :: tail)) (major.length + 1) =
      some (major.length + 1 + minor.length) := by
    rw [front, ← front_length]
    exact findDot_here _ _ no_dot_minor
  have behind : major ++ '.' :: (minor ++ '.' :: tail) =
      (major ++ '.' :: (minor ++ ['.'])) ++ tail := by
    rw [List.append_assoc, List.cons_append, List.append_assoc, List.singleton_append]
  have behind_length : (major ++ '.' :: (minor ++ ['.'])).length =
      major.length + 1 + minor.length + 1 := by
    rw [List.length_append, List.length_cons, List.length_append, List.length_singleton]
    omega
  have field_major : fieldOf (major ++ '.' :: (minor ++ '.' :: tail)) 0 major.length = major := by
    rw [fieldOf, List.drop_zero, List.take_left]
  have field_minor : fieldOf (major ++ '.' :: (minor ++ '.' :: tail)) (major.length + 1)
      (major.length + 1 + minor.length) = minor := by
    rw [fieldOf, front, ← front_length, ← List.length_append, ← List.append_assoc, List.take_left,
      List.drop_left]
  have field_patch : fieldOf (major ++ '.' :: (minor ++ '.' :: tail))
      (major.length + 1 + minor.length + 1) (major ++ '.' :: (minor ++ '.' :: tail)).length = tail := by
    rw [fieldOf, List.take_length, behind, ← behind_length, List.drop_left]
  rw [fromString, first]
  dsimp only
  rw [second]
  dsimp only
  rw [field_major, field_minor, field_patch]

/-- A string in which only one dot can be found, or none, is rejected; every other
one has fields. -/
theorem fromString_cases (str : List Char) (out : SuffixedVersion) :
    fromString str out = (false, out) ∨
      ∃ major minor tail, str = major ++ '.' :: (minor ++ '.' :: tail) ∧
        '.' ∉ major ∧ '.' ∉ minor := by
  cases first : findDot str 0 with
  | none =>
      left
      rw [fromString, first]
  | some firstDot =>
      obtain ⟨major, rest, split, no_dot_major⟩ := findDot_some first
      rw [List.drop_zero] at split
      have place : firstDot = major.length := by
        have found := findDot_here [] rest no_dot_major
        rw [List.nil_append, ← split, List.length_nil, Nat.zero_add, first] at found
        exact Option.some.inj found
      cases second : findDot str (firstDot + 1) with
      | none =>
          left
          rw [fromString, first]
          dsimp only
          rw [second]
      | some secondDot =>
          right
          obtain ⟨minor, tail, split', no_dot_minor⟩ := findDot_some second
          have rest_eq : str.drop (firstDot + 1) = rest := by
            have front : str = (major ++ ['.']) ++ rest := by
              rw [List.append_assoc, List.singleton_append, split]
            have front_length : (major ++ ['.']).length = firstDot + 1 := by
              rw [List.length_append, place]
              rfl
            rw [front, ← front_length, List.drop_left]
          rw [rest_eq] at split'
          exact ⟨major, minor, tail, by rw [split, split'], no_dot_major, no_dot_minor⟩

end Dots

/-! ## The fields -/

section Fields

variable {major minor patch suffix : List Char} {a b c : Int}

theorem fullyConsumed_iff (field : List Char) :
    fullyConsumed field = true ↔ Component field (component field).value := by
  rw [fullyConsumed, Bool.and_eq_true, decide_eq_true_eq, decide_eq_true_eq]
  constructor
  · rintro ⟨ok, whole⟩
    obtain ⟨digits, rest, split, ptr, writes, fits⟩ := fromChars_ok ok
    have all_digits : digits = field := by
      have length : digits.length = field.length := by
        rw [← ptr]
        exact whole
      rw [split] at length ⊢
      rw [List.length_append] at length
      rw [List.length_eq_zero_iff.mp (by omega : rest.length = 0), List.append_nil]
    rw [all_digits] at writes
    exact ⟨_, writes, fits, rfl⟩
  · rintro ⟨value, writes, fits, -⟩
    rw [component, fromChars_whole writes fits]
    exact ⟨rfl, rfl⟩

theorem component_field (field : Component major a) : a = (component major).value := by
  obtain ⟨value, writes, fits, rfl⟩ := field
  rw [component, fromChars_whole writes fits]

theorem Suffix.stops (suffix_ok : Suffix suffix) (c : Char) (head : suffix.head? = some c) :
    c.isDigit = false := by
  rcases suffix_ok with rfl | plus | minus
  · contradiction
  · rw [plus] at head
    cases head
    decide
  · rw [minus] at head
    cases head
    decide

theorem fromFields_spelled (out : SuffixedVersion) (field_major : Component major a)
    (field_minor : Component minor b) (field_patch : Component patch c) (suffix_ok : Suffix suffix) :
    fromFields major minor (patch ++ suffix) out = (true, ⟨⟨a, b, c⟩, suffix⟩) := by
  have major_value := component_field field_major
  have minor_value := component_field field_minor
  have whole_major := (fullyConsumed_iff major).mpr (major_value ▸ field_major)
  have whole_minor := (fullyConsumed_iff minor).mpr (minor_value ▸ field_minor)
  obtain ⟨value, writes, fits, rfl⟩ := field_patch
  have read : component (patch ++ suffix) = ⟨patch.length, .ok, value⟩ :=
    fromChars_writes writes fits suffix_ok.stops
  rw [fromFields, whole_major, whole_minor, read, major_value, minor_value]
  dsimp only
  rw [List.drop_left]
  cases suffix with
  | nil => rfl
  | cons first rest =>
      have sign : first = '+' ∨ first = '-' := by
        rcases suffix_ok with empty | plus | minus
        · contradiction
        · exact .inl (Option.some.inj plus)
        · exact .inr (Option.some.inj minus)
      dsimp only
      rw [if_pos sign]
      rfl

theorem fromFields_cases (major minor tail : List Char) (out : SuffixedVersion) :
    fromFields major minor tail out = (false, out) ∨
      ∃ patch a b c suffix, tail = patch ++ suffix ∧ Component major a ∧ Component minor b ∧
        Component patch c ∧ Suffix suffix := by
  by_cases consumed : fullyConsumed major = true ∧ fullyConsumed minor = true
  · by_cases ok : (component tail).ec = .ok
    · obtain ⟨patch, suffix, split, ptr, writes, fits⟩ := fromChars_ok ok
      have rest : tail.drop (component tail).ptr = suffix := by
        rw [component, ptr]
        conv_lhs => rw [split]
        exact List.drop_left
      by_cases suffix_ok : Suffix suffix
      · right
        exact ⟨patch, _, _, _, suffix, split, (fullyConsumed_iff major).mp consumed.1,
          (fullyConsumed_iff minor).mp consumed.2, ⟨_, writes, fits, rfl⟩, suffix_ok⟩
      · left
        rw [fromFields, consumed.1, consumed.2, rest]
        cases suffix with
        | nil => exact absurd (.inl rfl) suffix_ok
        | cons first rest =>
            have not_sign : ¬ (first = '+' ∨ first = '-') := by
              rintro (rfl | rfl)
              · exact suffix_ok (.inr (.inl rfl))
              · exact suffix_ok (.inr (.inr rfl))
            dsimp only
            rw [if_neg not_sign, if_neg (by simp), if_neg (by simpa using ok)]
    · left
      rw [fromFields, consumed.1, consumed.2, if_neg (by simp), if_pos ok]
  · left
    have some_left : (!fullyConsumed major || !fullyConsumed minor) = true := by
      rw [Bool.or_eq_true, Bool.not_eq_true', Bool.not_eq_true']
      by_cases whole : fullyConsumed major = true
      · exact .inr (Bool.eq_false_iff.mpr fun also => consumed ⟨whole, also⟩)
      · exact .inl (Bool.eq_false_iff.mpr whole)
    rw [fromFields, if_pos some_left]

end Fields

/-! ## Reading what is written -/

section Round

variable {str : List Char} {v : SuffixedVersion}

theorem fromString_spelled (spells : Spells str v) (out : SuffixedVersion) :
    fromString str out = (true, v) := by
  obtain ⟨major, minor, patch, rfl, field_major, field_minor, field_patch, suffix_ok⟩ := spells
  rw [fromString_fields field_major.no_dot field_minor.no_dot]
  exact fromFields_spelled out field_major field_minor field_patch suffix_ok

/-- A string is rejected, and nothing written, or it spells what is written. -/
theorem fromString_outcome (str : List Char) (out : SuffixedVersion) :
    fromString str out = (false, out) ∨
      ∃ v, Spells str v ∧ fromString str out = (true, v) := by
  rcases fromString_cases str out with rejected | ⟨major, minor, tail, rfl, no_dot, no_dot'⟩
  · exact .inl rejected
  · rw [fromString_fields no_dot no_dot']
    rcases fromFields_cases major minor tail out with
      rejected | ⟨patch, a, b, c, suffix, rfl, field_major, field_minor, field_patch, suffix_ok⟩
    · exact .inl rejected
    · right
      refine ⟨⟨⟨a, b, c⟩, suffix⟩, ?_, ?_⟩
      · exact ⟨major, minor, patch, rfl, field_major, field_minor, field_patch, suffix_ok⟩
      · exact fromFields_spelled out field_major field_minor field_patch suffix_ok

theorem intText_component {n : Int} (low : 0 ≤ n) (high : n ≤ 65535) : Component (intText n) n := by
  refine ⟨n.toNat, ?_, by omega, (Int.toNat_of_nonneg low).symm⟩
  rw [intText, if_neg (Int.not_lt.mpr low)]
  exact decimal_writes n.toNat

theorem toText_spells (suffix_ok : Suffix v.suffix) (range : v.InRange) : Spells (toText v) v :=
  ⟨_, _, _, rfl, intText_component range.major.1 range.major.2,
    intText_component range.minor.1 range.minor.2, intText_component range.patch.1 range.patch.2,
    suffix_ok⟩

theorem Component.range {text : List Char} {n : Int} (component : Component text n) :
    0 ≤ n ∧ n ≤ 65535 := by
  obtain ⟨value, -, fits, rfl⟩ := component
  omega

theorem Spells.inRange (spells : Spells str v) : v.InRange := by
  obtain ⟨major, minor, patch, -, field_major, field_minor, field_patch, -⟩ := spells
  exact ⟨field_major.range, field_minor.range, field_patch.range⟩

theorem Spells.suffix_ok (spells : Spells str v) : Suffix v.suffix := by
  obtain ⟨major, minor, patch, -, -, -, -, suffix_ok⟩ := spells
  exact suffix_ok

end Round

/-- `from_string` accepts what spells a version, and nothing else, and leaves `out`
as it was; what `to_string` makes of an accepted version is read back, and of any
version with a suffix of the right form exactly if its components are in range. -/
theorem version_string_exact (str : List Char) (out : SuffixedVersion) :
    ((fromString str out).1 = true ↔ ∃ v, Spells str v) ∧
      ((fromString str out).1 = true → Spells str (fromString str out).2) ∧
      ((fromString str out).1 = false → (fromString str out).2 = out) ∧
      ((fromString str out).1 = true → ∀ other,
        fromString (toText (fromString str out).2) other = (true, (fromString str out).2)) ∧
      ∀ v, Suffix v.suffix → (fromString (toText v) out = (true, v) ↔ v.InRange) := by
  have reads : ∀ v, Suffix v.suffix → (fromString (toText v) out = (true, v) ↔ v.InRange) := by
    intro v suffix_ok
    constructor
    · intro read
      rcases fromString_outcome (toText v) out with rejected | ⟨w, spells, accepted⟩
      · rw [rejected] at read
        cases read
      · rw [accepted] at read
        cases read
        exact spells.inRange
    · exact fun range => fromString_spelled (toText_spells suffix_ok range) out
  rcases fromString_outcome str out with rejected | ⟨v, spells, accepted⟩
  · rw [rejected]
    refine ⟨⟨fun yes => by contradiction, ?_⟩, fun yes => by contradiction, fun _ => rfl,
      fun yes => by contradiction, reads⟩
    rintro ⟨v, spells⟩
    rw [fromString_spelled spells out] at rejected
    cases rejected
  · rw [accepted]
    refine ⟨⟨fun _ => ⟨v, spells⟩, fun _ => rfl⟩, fun _ => spells, fun no => by contradiction, ?_,
      reads⟩
    intro _ other
    exact fromString_spelled (toText_spells spells.suffix_ok spells.inRange) other

/-- The version that nothing has set is written and not read back. -/
theorem unset_version_not_read :
    ¬ ∀ v out, Suffix v.suffix → fromString (toText v) out = (true, v) := by
  intro reads
  have read := reads ⟨⟨-1, -1, -1⟩, []⟩ ⟨⟨-1, -1, -1⟩, []⟩ (.inl rfl)
  exact absurd read (by decide)

example : fromString "1.20.3-rc.1".toList ⟨⟨-1, -1, -1⟩, []⟩ = (true, ⟨⟨1, 20, 3⟩, "-rc.1".toList⟩) := by
  decide

end SuffixedVersion

end N64ModernRuntime.Librecomp
