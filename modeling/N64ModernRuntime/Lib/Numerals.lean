import Mathlib.Algebra.Group.Nat.Defs
import Mathlib.Data.List.Basic
import Mathlib.Tactic.Common

/-!
# Numerals

What `printf` writes for an unsigned number and what `strtoull` reads with base 0.
-/

set_option autoImplicit false

namespace Numerals

/-! ## Writing -/

/-- `%u` -/
def decimal (n : Nat) : List Char := Nat.toDigits 10 n

/-- `%X` -/
def upperHex (n : Nat) : List Char := (Nat.toDigits 16 n).map Char.toUpper

/-- `%0<width>X` -/
def paddedHex (width n : Nat) : List Char := (upperHex n).leftpad width '0'

/-! ## Reading -/

def isSpace (c : Char) : Bool := c == ' ' || (decide (9 ≤ c.toNat) && decide (c.toNat ≤ 13))

def digitValue (c : Char) : Option Nat :=
  if c.isDigit then some (c.toNat - '0'.toNat)
  else if c.isLower then some (c.toNat - 'a'.toNat + 10)
  else if c.isUpper then some (c.toNat - 'A'.toNat + 10)
  else none

def digitIn (base : Nat) (c : Char) : Option Nat := (digitValue c).filter fun d => decide (d < base)

def readDigits (base : Nat) : Nat → List Char → Nat
  | value, [] => value
  | value, c :: cs =>
    match digitIn base c with
    | some d => readDigits base (base * value + d) cs
    | none => value

/-- With base 0 the text names its base: `0x` before a digit, a leading zero, or neither. -/
def readMagnitude : List Char → Nat
  | '0' :: x :: d :: cs =>
    if (x = 'x' ∨ x = 'X') ∧ (digitIn 16 d).isSome then readDigits 16 0 (d :: cs)
    else readDigits 8 0 ('0' :: x :: d :: cs)
  | '0' :: cs => readDigits 8 0 ('0' :: cs)
  | cs => readDigits 10 0 cs

def readSigned : List Char → Bool × Nat
  | '-' :: cs => (true, readMagnitude cs)
  | '+' :: cs => (false, readMagnitude cs)
  | cs => (false, readMagnitude cs)

/-- `strtoull(text, nullptr, 0)` -/
def strtoull (text : List Char) : UInt64 :=
  let (negative, value) := readSigned (text.dropWhile isSpace)
  if 2 ^ 64 ≤ value then UInt64.ofNat (2 ^ 64 - 1)
  else if negative then -UInt64.ofNat value
  else UInt64.ofNat value

/-! ## What is written is read -/

section

variable {base d n width : Nat}

theorem digitIn_upper (small : d < 16) : digitIn 16 d.digitChar.toUpper = some d := by
  have every : ∀ d < 16, digitIn 16 d.digitChar.toUpper = some d := by decide
  exact every d small

theorem readDigits_append (value : Nat) {digits : List Nat} {text : List Char}
    (written : text.map (digitIn base) = digits.map some) (rest : List Char) :
    readDigits base value (text ++ rest) =
      readDigits base (digits.foldl (fun value d => base * value + d) value) rest := by
  induction text generalizing value digits with
  | nil =>
    cases digits with
    | nil => rfl
    | cons d digits => simp at written
  | cons c text ih =>
    cases digits with
    | nil => simp at written
    | cons d digits =>
      rw [List.map_cons, List.map_cons, List.cons.injEq] at written
      rw [List.cons_append, readDigits, written.1, List.foldl_cons]
      exact ih _ written.2

theorem exists_digits (several : 1 < base) {shown : Char → Char}
    (reads : ∀ d < base, digitIn base (shown d.digitChar) = some d) (n : Nat) :
    ∃ digits : List Nat,
      ((Nat.toDigits base n).map shown).map (digitIn base) = digits.map some ∧
        ∀ value, digits.foldl (fun value d => base * value + d) value =
          base ^ digits.length * value + n := by
  induction n using Nat.strongRecOn with
  | ind n ih =>
    rcases Nat.lt_or_ge n base with small | big
    · refine ⟨[n], ?_, fun value => ?_⟩
      · rw [Nat.toDigits_of_lt_base small, List.map_singleton, List.map_singleton, reads n small,
          List.map_singleton]
      · simp
    · have positive : 0 < base := Nat.lt_of_succ_lt several
      obtain ⟨digits, written, folded⟩ := ih (n / base) (Nat.div_lt_self (by omega) several)
      refine ⟨digits ++ [n % base], ?_, fun value => ?_⟩
      · rw [Nat.toDigits_of_base_le several big, List.map_append, List.map_append, written,
          List.map_append, List.map_singleton, List.map_singleton,
          reads (n % base) (Nat.mod_lt n positive), List.map_singleton]
      · rw [List.foldl_append, folded, List.foldl_cons, List.foldl_nil, List.length_append,
          List.length_singleton, Nat.pow_succ]
        have split := Nat.div_add_mod n base
        rw [Nat.mul_add, ← Nat.mul_assoc, Nat.mul_comm base (base ^ digits.length)]
        omega

theorem upperHex_digits (n : Nat) : ∃ digits : List Nat,
    (upperHex n).map (digitIn 16) = digits.map some ∧
      ∀ value, digits.foldl (fun value d => 16 * value + d) value =
        16 ^ digits.length * value + n :=
  exists_digits (by decide) (fun _ small => digitIn_upper small) n

theorem readDigits_decimal (n : Nat) : readDigits 10 0 (decimal n) = n := by
  have every : ∀ d < 10, digitIn 10 (id d.digitChar) = some d := by decide
  obtain ⟨digits, written, folded⟩ := exists_digits (by decide) every n
  rw [List.map_id] at written
  have read := readDigits_append 0 written []
  rw [List.append_nil, folded, Nat.mul_zero, Nat.zero_add] at read
  exact read

theorem readDigits_paddedHex (width n : Nat) : readDigits 16 0 (paddedHex width n) = n := by
  obtain ⟨digits, written, folded⟩ := upperHex_digits n
  have zeros : ∀ k, (List.replicate k '0').map (digitIn 16) = (List.replicate k 0).map some := by
    intro k
    rw [List.map_replicate, List.map_replicate]
    rfl
  have padded := readDigits_append 0
    (zeros (width - (upperHex n).length)) (upperHex n)
  have rest := readDigits_append 0 written []
  rw [List.append_nil, folded, Nat.mul_zero, Nat.zero_add] at rest
  have still : ∀ k, (List.replicate k 0).foldl (fun value d => 16 * value + d) 0 = 0 := by
    intro k
    induction k with
    | zero => rfl
    | succ k ih => rw [List.replicate_succ, List.foldl_cons, Nat.mul_zero, Nat.zero_add, ih]
  rw [paddedHex, List.leftpad, padded, still, rest]
  rfl

end

theorem upperHex_isDigit (n : Nat) : ∀ c ∈ upperHex n, (digitIn 16 c).isSome = true := by
  intro c mem
  obtain ⟨digits, written, -⟩ := upperHex_digits n
  have image : digitIn 16 c ∈ (upperHex n).map (digitIn 16) := List.mem_map_of_mem mem
  rw [written, List.mem_map] at image
  obtain ⟨d, -, same⟩ := image
  rw [← same, Option.isSome_some]

theorem paddedHex_digits (width n : Nat) : ∀ c ∈ paddedHex width n, (digitIn 16 c).isSome = true := by
  intro c mem
  rw [paddedHex, List.leftpad, List.mem_append] at mem
  rcases mem with zero | digit
  · rw [List.eq_of_mem_replicate zero]
    decide
  · exact upperHex_isDigit n c digit

theorem paddedHex_ne_nil (width n : Nat) : paddedHex width n ≠ [] := by
  rw [paddedHex, List.leftpad, upperHex]
  intro empty
  rw [List.append_eq_nil_iff, List.map_eq_nil_iff] at empty
  exact Nat.toDigits_ne_nil empty.2

theorem strtoull_paddedHex {width n : Nat} (fits : n < 2 ^ 64) :
    strtoull ('0' :: 'x' :: paddedHex width n) = UInt64.ofNat n := by
  have front : ('0' :: 'x' :: paddedHex width n).dropWhile isSpace = '0' :: 'x' :: paddedHex width n :=
    rfl
  have magnitude : readMagnitude ('0' :: 'x' :: paddedHex width n) = n := by
    cases text : paddedHex width n with
    | nil => exact absurd text (paddedHex_ne_nil width n)
    | cons d cs =>
      have good := paddedHex_digits width n d (by rw [text]; exact List.mem_cons_self)
      rw [readMagnitude, if_pos ⟨Or.inl rfl, good⟩, ← text, readDigits_paddedHex]
  have signed : readSigned ('0' :: 'x' :: paddedHex width n) = (false, n) := by
    rw [readSigned, magnitude]
    all_goals simp
  rw [strtoull, front, signed]
  simp only [Nat.not_le.mpr fits, if_false, Bool.false_eq_true]

/-! ## The conversion that says where it stopped -/

inductive Errc where
  | ok
  | invalidArgument
  | resultOutOfRange
  deriving DecidableEq, Repr

/-- How many characters `from_chars` has matched and how it went; the value is
written where it is `ok`. -/
structure FromChars where
  ptr : Nat
  ec : Errc
  value : Nat
  deriving DecidableEq, Repr

/-- `std::from_chars` into an unsigned type with the largest value `max`: there is
no sign, and a number that is too large is matched up to its end. -/
def fromChars (max : Nat) (text : List Char) : FromChars :=
  let digits := text.takeWhile Char.isDigit
  let value := Nat.ofDigitChars 10 digits 0
  if digits = [] then ⟨0, .invalidArgument, 0⟩
  else if max < value then ⟨digits.length, .resultOutOfRange, 0⟩
  else ⟨digits.length, .ok, value⟩

section FromChars

variable {max n : Nat} {text rest : List Char}

structure Writes (text : List Char) (n : Nat) : Prop where
  nonempty : text ≠ []
  digits : ∀ c ∈ text, c.isDigit = true
  value : Nat.ofDigitChars 10 text 0 = n

theorem decimal_writes (n : Nat) : Writes (decimal n) n where
  nonempty := Nat.toDigits_ne_nil
  digits _ mem := Nat.isDigit_of_mem_toDigits (by decide) (by decide) mem
  value := Nat.ofDigitChars_ten_toDigits

theorem fromChars_writes (writes : Writes text n) (fits : n ≤ max)
    (stops : ∀ c, rest.head? = some c → c.isDigit = false) :
    fromChars max (text ++ rest) = ⟨text.length, .ok, n⟩ := by
  have matched : (text ++ rest).takeWhile Char.isDigit = text := by
    rw [List.takeWhile_append_of_pos writes.digits]
    cases rest with
    | nil => exact List.append_nil text
    | cons c rest =>
        rw [List.takeWhile_cons_of_neg (Bool.eq_false_iff.mp (stops c rfl)), List.append_nil]
  rw [fromChars, matched, if_neg writes.nonempty, writes.value, if_neg (Nat.not_lt.mpr fits)]

theorem fromChars_whole (writes : Writes text n) (fits : n ≤ max) :
    fromChars max text = ⟨text.length, .ok, n⟩ := by
  have read : fromChars max (text ++ []) = ⟨text.length, .ok, n⟩ :=
    fromChars_writes writes fits (by simp)
  rwa [List.append_nil] at read

/-- What is matched is a number that fits, and the rest does not go on with a digit. -/
theorem fromChars_ok (ok : (fromChars max text).ec = .ok) :
    ∃ digits rest, text = digits ++ rest ∧ (fromChars max text).ptr = digits.length ∧
      Writes digits (fromChars max text).value ∧ (fromChars max text).value ≤ max := by
  have split : text.takeWhile Char.isDigit ++ text.dropWhile Char.isDigit = text :=
    List.takeWhile_append_dropWhile
  refine ⟨text.takeWhile Char.isDigit, text.dropWhile Char.isDigit, split.symm, ?_⟩
  by_cases none_matched : text.takeWhile Char.isDigit = []
  · have failed : fromChars max text = ⟨0, .invalidArgument, 0⟩ := if_pos none_matched
    rw [failed] at ok
    contradiction
  · by_cases large : max < Nat.ofDigitChars 10 (text.takeWhile Char.isDigit) 0
    · have failed : fromChars max text =
          ⟨(text.takeWhile Char.isDigit).length, .resultOutOfRange, 0⟩ :=
        (if_neg none_matched).trans (if_pos large)
      rw [failed] at ok
      contradiction
    · have read : fromChars max text =
          ⟨(text.takeWhile Char.isDigit).length, .ok,
            Nat.ofDigitChars 10 (text.takeWhile Char.isDigit) 0⟩ :=
        (if_neg none_matched).trans (if_neg large)
      rw [read]
      refine ⟨rfl, ⟨none_matched, ?_, rfl⟩, Nat.not_lt.mp large⟩
      intro c mem
      exact List.all_eq_true.mp List.all_takeWhile c mem

end FromChars

end Numerals
