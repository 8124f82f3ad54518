import Mathlib.Data.List.Nodup
import Mathlib.Data.String.Basic
import N64ModernRuntime.Lib.Numerals

/-!
# JSON texts

The values, the grammar of the texts that denote them, and a parser.  The
grammar has no escapes, no negative and no fractional numbers: it is what a
program that prints its own file by hand stays within.
-/

set_option autoImplicit false

/-- An object has its members as its text has them. -/
inductive Json where
  | null
  | boolean (b : Bool)
  | unsigned (n : UInt64)
  | integer (n : Int64)
  | float (bits : UInt64)
  | string (s : String)
  | array (elements : List Json)
  | object (members : List (String × Json))

namespace Json

/-- Of two members with one name the later one counts. -/
def find (j : Json) (key : String) : Option Json :=
  match j with
  | .object members => (members.reverse.find? fun m => m.1 == key).map Prod.snd
  | _ => none

/-- `object[key] = value`, where the members are in the order of their names. -/
def setMember (key : String) (value : Json) : List (String × Json) → List (String × Json)
  | [] => [(key, value)]
  | m :: members =>
    if key = m.1 then (key, value) :: members
    else if key < m.1 then (key, value) :: m :: members
    else m :: setMember key value members

/-- `j[key] = value`, which makes an object of `null`. -/
def assign (j : Json) (key : String) (value : Json) : Json :=
  match j with
  | .object members => .object (setMember key value members)
  | _ => .object [(key, value)]

def items (members : List (String × Json)) : List (String × Json) :=
  members.foldl (fun sorted m => setMember m.1 m.2 sorted) []

def Sorted (members : List (String × Json)) : Prop := members.Pairwise fun m n => m.1 < n.1

theorem Sorted.nodup {members : List (String × Json)} (sorted : Sorted members) :
    (members.map Prod.fst).Nodup := by
  rw [List.Nodup, List.pairwise_map]
  exact sorted.imp fun less => ne_of_lt less

/-- Where no name comes twice, all members count. -/
theorem find_iff_mem {members : List (String × Json)} (distinct : (members.map Prod.fst).Nodup)
    (key : String) (value : Json) :
    (Json.object members).find key = some value ↔ (key, value) ∈ members := by
  have reversed : (members.reverse.map Prod.fst).Nodup := by
    rwa [List.map_reverse, List.nodup_reverse]
  rw [find, Option.map_eq_some_iff]
  rw [← List.mem_reverse]
  generalize members.reverse = ms at reversed
  induction ms with
  | nil => simp
  | cons m ms ih =>
      rw [List.map_cons, List.nodup_cons] at reversed
      obtain ⟨fresh, rest⟩ := reversed
      by_cases here : m.1 = key
      · have absent : (key, value) ∉ ms := fun mem => fresh (here ▸ List.mem_map_of_mem mem)
        rw [List.find?_cons_of_pos (by simp [here]), List.mem_cons]
        constructor
        · rintro ⟨m', same, rfl⟩
          cases same
          exact Or.inl (Prod.ext here.symm rfl)
        · rintro (same | later)
          · exact ⟨m, rfl, by rw [← same]⟩
          · exact absurd later absent
      · rw [List.find?_cons_of_neg (by simp [here]), List.mem_cons]
        refine (ih rest).trans ?_
        constructor
        · exact Or.inr
        · rintro (same | later)
          · exact absurd (by rw [← same]) here
          · exact later

theorem mem_setMember {members : List (String × Json)} (sorted : Sorted members) (key : String)
    (value : Json) (m : String × Json) :
    m ∈ setMember key value members ↔ m = (key, value) ∨ (m.1 ≠ key ∧ m ∈ members) := by
  induction members with
  | nil => simp [setMember]
  | cons n members ih =>
      obtain ⟨above, rest⟩ := List.pairwise_cons.mp sorted
      rw [setMember]
      by_cases same : key = n.1
      · -- the names behind are larger
        have differ : ∀ m ∈ members, m.1 ≠ key := fun m mem equal =>
          ne_of_lt (above m mem) (same.symm.trans equal.symm)
        rw [if_pos same, List.mem_cons, List.mem_cons]
        constructor
        · rintro (here | later)
          · exact Or.inl here
          · exact Or.inr ⟨differ m later, Or.inr later⟩
        · rintro (here | ⟨other, head | later⟩)
          · exact Or.inl here
          · exact absurd (by rw [head, same]) other
          · exact Or.inr later
      · rw [if_neg same]
        by_cases less : key < n.1
        · have differ : ∀ m ∈ n :: members, m.1 ≠ key := by
            intro m mem
            rcases List.mem_cons.mp mem with rfl | later
            · exact Ne.symm same
            · exact ne_of_gt (lt_trans less (above m later))
          rw [if_pos less, List.mem_cons]
          constructor
          · rintro (here | later)
            · exact Or.inl here
            · exact Or.inr ⟨differ m later, later⟩
          · rintro (here | ⟨-, later⟩)
            · exact Or.inl here
            · exact Or.inr later
        · rw [if_neg less, List.mem_cons, ih rest, List.mem_cons]
          constructor
          · rintro (head | here | ⟨other, later⟩)
            · refine Or.inr ⟨?_, Or.inl head⟩
              rw [head]
              exact Ne.symm same
            · exact Or.inl here
            · exact Or.inr ⟨other, Or.inr later⟩
          · rintro (here | ⟨other, head | later⟩)
            · exact Or.inr (Or.inl here)
            · exact Or.inl head
            · exact Or.inr (Or.inr ⟨other, later⟩)

theorem setMember_sorted {members : List (String × Json)} (sorted : Sorted members) (key : String)
    (value : Json) : Sorted (setMember key value members) := by
  induction members with
  | nil => exact List.pairwise_singleton _ _
  | cons n members ih =>
      obtain ⟨above, rest⟩ := List.pairwise_cons.mp sorted
      rw [setMember]
      by_cases same : key = n.1
      · rw [if_pos same]
        refine List.pairwise_cons.mpr ⟨fun m mem => ?_, rest⟩
        rw [same]
        exact above m mem
      · rw [if_neg same]
        by_cases less : key < n.1
        · rw [if_pos less]
          refine List.pairwise_cons.mpr ⟨fun m mem => ?_, sorted⟩
          rcases List.mem_cons.mp mem with rfl | later
          · exact less
          · exact lt_trans less (above m later)
        · rw [if_neg less]
          refine List.pairwise_cons.mpr ⟨fun m mem => ?_, ih rest⟩
          rcases (mem_setMember rest key value m).mp mem with rfl | ⟨-, later⟩
          · exact lt_of_le_of_ne (not_lt.mp less) (Ne.symm same)
          · exact above m later

theorem find_setMember {members : List (String × Json)} (sorted : Sorted members)
    (key name : String) (value : Json) :
    (Json.object (setMember key value members)).find name
      = if name = key then some value else (Json.object members).find name := by
  have distinct := sorted.nodup
  have distinct' := (setMember_sorted sorted key value).nodup
  ext found
  rw [find_iff_mem distinct', mem_setMember sorted]
  by_cases same : name = key
  · rw [if_pos same, Option.some.injEq]
    constructor
    · rintro (here | ⟨other, -⟩)
      · exact (congrArg Prod.snd here).symm
      · exact absurd same other
    · intro here
      exact Or.inl (by rw [same, here])
  · rw [if_neg same, find_iff_mem distinct]
    constructor
    · rintro (here | ⟨-, later⟩)
      · exact absurd (congrArg Prod.fst here) same
      · exact later
    · exact fun later => Or.inr ⟨same, later⟩

def Assigned (j : Json) : Prop := j = .null ∨ ∃ members, j = .object members ∧ Sorted members

theorem assign_assigned {j : Json} (assigned : Assigned j) (key : String) (value : Json) :
    Assigned (j.assign key value) ∧ j.assign key value ≠ .null := by
  rcases assigned with rfl | ⟨members, rfl, sorted⟩
  · exact ⟨Or.inr ⟨_, rfl, List.pairwise_singleton _ _⟩, Json.noConfusion⟩
  · exact ⟨Or.inr ⟨_, rfl, setMember_sorted sorted key value⟩, Json.noConfusion⟩

theorem find_assign {j : Json} (assigned : Assigned j) (key name : String) (value : Json) :
    (j.assign key value).find name = if name = key then some value else j.find name := by
  rcases assigned with rfl | ⟨members, rfl, sorted⟩
  · exact find_setMember List.Pairwise.nil key name value
  · exact find_setMember sorted key name value

/-! ## The grammar -/

def isBlank (c : Char) : Bool := c == ' ' || c == '\n' || c == '\t' || c == '\r'

def Blank (text : List Char) : Prop := ∀ c ∈ text, isBlank c = true

/-- A character that stands for itself in a string. -/
def isPlain (c : Char) : Bool := c != '"' && c != '\\' && decide (0x20 ≤ c.toNat)

def Plain (text : List Char) : Prop := ∀ c ∈ text, isPlain c = true

instance (text : List Char) : Decidable (Blank text) :=
  List.decidableBAll (isBlank · = true) text

instance (text : List Char) : Decidable (Plain text) :=
  List.decidableBAll (isPlain · = true) text

inductive Separated {α : Type} (Item : List Char → α → Prop) : List Char → List α → Prop where
  | one {text : List Char} {a : α} : Item text a → Separated Item text [a]
  | more {text texts : List Char} {a : α} {as : List α} :
      Item text a → Separated Item texts as → Separated Item (text ++ ',' :: texts) (a :: as)

inductive Member (Element : List Char → Json → Prop) : List Char → String × Json → Prop where
  | mk {before key between text : List Char} {j : Json} :
      Blank before → Plain key → Blank between → Element text j →
      Member Element (before ++ '"' :: (key ++ '"' :: (between ++ ':' :: text))) (String.ofList key, j)

inductive Value (Element : List Char → Json → Prop) : List Char → Json → Prop where
  | string {text : List Char} :
      Plain text → Value Element ('"' :: (text ++ ['"'])) (.string (String.ofList text))
  | unsigned (n : UInt64) : Value Element (Numerals.decimal n.toNat) (.unsigned n)
  | emptyArray {blank : List Char} : Blank blank → Value Element ('[' :: (blank ++ [']'])) (.array [])
  | array {text : List Char} {elements : List Json} :
      Separated Element text elements → Value Element ('[' :: (text ++ [']'])) (.array elements)
  | emptyObject {blank : List Char} :
      Blank blank → Value Element ('\x7b' :: (blank ++ ['\x7d'])) (.object [])
  | object {text : List Char} {members : List (String × Json)} :
      Separated (Member Element) text members →
      Value Element ('\x7b' :: (text ++ ['\x7d'])) (.object members)

inductive Padded (Element : List Char → Json → Prop) : List Char → Json → Prop where
  | mk {before text after : List Char} {j : Json} :
      Blank before → Value Element text j → Blank after → Padded Element (before ++ (text ++ after)) j

/-- The texts with at most `depth` values inside each other. -/
def Denotes : Nat → List Char → Json → Prop
  | 0 => fun _ _ => False
  | depth + 1 => Padded (Denotes depth)

def Reads (parse : List Char → Option Json) : Prop :=
  ∀ depth text j, Denotes depth text j → parse text = some j

/-! ## A parser -/

def skipBlank (text : List Char) : List Char := text.dropWhile isBlank

def parseString (text : List Char) : Option (String × List Char) :=
  match text.dropWhile isPlain with
  | '"' :: rest => some (String.ofList (text.takeWhile isPlain), rest)
  | _ => none

def parseUnsigned (text : List Char) : Option (Json × List Char) :=
  let digits := text.takeWhile Char.isDigit
  let value := Numerals.readDigits 10 0 digits
  if digits = Numerals.decimal value ∧ value < 2 ^ 64 then
    some (.unsigned (UInt64.ofNat value), text.dropWhile Char.isDigit)
  else none

/-- The number bounds the items. -/
def parseSeparated {α : Type} (item : List Char → Option (α × List Char)) :
    Nat → List Char → Option (List α × List Char)
  | 0, _ => none
  | bound + 1, text =>
    match item text with
    | none => none
    | some (a, ',' :: rest) => (parseSeparated item bound rest).map fun r => (a :: r.1, r.2)
    | some (a, rest) => some ([a], rest)

def closing {α : Type} (bracket : Char) : Option (α × List Char) → Option (α × List Char)
  | some (a, c :: rest) => if c = bracket then some (a, rest) else none
  | _ => none

def parseMember (element : List Char → Option (Json × List Char)) (text : List Char) :
    Option ((String × Json) × List Char) :=
  match skipBlank text with
  | '"' :: rest =>
    (parseString rest).bind fun key =>
      match skipBlank key.2 with
      | ':' :: rest => (element rest).map fun r => ((key.1, r.1), r.2)
      | _ => none
  | _ => none

def parseValue (element : List Char → Option (Json × List Char)) :
    List Char → Option (Json × List Char)
  | '"' :: rest => (parseString rest).map fun r => (.string r.1, r.2)
  | '[' :: rest =>
    if (skipBlank rest).head? = some ']' then some (.array [], (skipBlank rest).tail)
    else (closing ']' (parseSeparated element rest.length rest)).map fun r => (.array r.1, r.2)
  | '\x7b' :: rest =>
    if (skipBlank rest).head? = some '\x7d' then some (.object [], (skipBlank rest).tail)
    else (closing '\x7d' (parseSeparated (parseMember element) rest.length rest)).map fun r =>
      (.object r.1, r.2)
  | text => parseUnsigned text

/-- The number bounds the depth. -/
def parseElement : Nat → List Char → Option (Json × List Char)
  | 0, _ => none
  | depth + 1, text =>
    (parseValue (parseElement depth) (skipBlank text)).map fun r => (r.1, skipBlank r.2)

def parse (text : List Char) : Option Json :=
  match parseElement (text.length + 1) text with
  | some (j, []) => some j
  | _ => none

/-! ## A printer -/

/-- Each item on a line of its own. -/
def bracketed (opens closes : Char) (line : List Char) (items : List (List Char)) : List Char :=
  if items = [] then [opens, closes]
  else
    opens :: ([','].intercalate (items.map fun item => line ++ ' ' :: ' ' :: ' ' :: ' ' :: item) ++
      line ++ [closes])

/-- The strings, lists and objects in a value, no more than `depth` of them inside each
other; `line` starts a line. -/
def print : Nat → List Char → Json → List Char
  | _, _, .string s => '"' :: (s.toList ++ ['"'])
  | depth + 1, line, .array elements =>
    bracketed '[' ']' line (elements.map (print depth (line ++ [' ', ' ', ' ', ' '])))
  | depth + 1, line, .object members =>
    bracketed '\x7b' '\x7d' line (members.map fun m =>
      '"' :: (m.1.toList ++ '"' :: ':' :: ' ' :: print depth (line ++ [' ', ' ', ' ', ' ']) m.2))
  | _, _, _ => []

/-! ## The parser reads the grammar -/

def Ends (rest : List Char) : Prop :=
  rest = [] ∨ ∃ c cs, rest = c :: cs ∧ (c = ',' ∨ c = ']' ∨ c = '\x7d')

theorem isDigit_of_isBlank {c : Char} (blank : isBlank c = true) : c.isDigit = false := by
  simp only [isBlank, Bool.or_eq_true, beq_iff_eq] at blank
  rcases blank with ((rfl | rfl) | rfl) | rfl
  all_goals decide

theorem ends_cons {c : Char} (rest : List Char) (here : c = ',' ∨ c = ']' ∨ c = '\x7d') :
    Ends (c :: rest) :=
  Or.inr ⟨c, rest, rfl, here⟩

theorem Ends.head {rest : List Char} (ends : Ends rest) {c : Char} (here : rest.head? = some c) :
    isBlank c = false ∧ c.isDigit = false := by
  rcases ends with rfl | ⟨c', cs, rfl, rfl | rfl | rfl⟩
  · cases here
  all_goals
    rw [List.head?_cons, Option.some.injEq] at here
    subst here
    decide

theorem dropWhile_span {p : Char → Bool} {text : List Char} (rest : List Char)
    (all : ∀ c ∈ text, p c = true)
    (stops : ∀ c, rest.head? = some c → p c = false) :
    (text ++ rest).dropWhile p = rest ∧ (text ++ rest).takeWhile p = text := by
  rw [List.dropWhile_append_of_pos all, List.takeWhile_append_of_pos all]
  cases rest with
  | nil => exact ⟨rfl, List.append_nil text⟩
  | cons c rest =>
    have stop := stops c rfl
    rw [List.dropWhile_cons_of_neg (by rw [stop]; decide),
      List.takeWhile_cons_of_neg (by rw [stop]; decide), List.append_nil]
    exact ⟨rfl, rfl⟩

theorem skipBlank_append {blank rest : List Char} (all : Blank blank)
    (stops : ∀ c, rest.head? = some c → isBlank c = false) : skipBlank (blank ++ rest) = rest :=
  (dropWhile_span rest all stops).1

theorem parseString_plain {text : List Char} (plain : Plain text) (rest : List Char) :
    parseString (text ++ '"' :: rest) = some (String.ofList text, rest) := by
  obtain ⟨dropped, taken⟩ := dropWhile_span ('"' :: rest) plain fun c here => by
    rw [List.head?_cons, Option.some.injEq] at here
    subst here
    decide
  rw [parseString, dropped, taken]
  rfl

theorem decimal_isDigit {n : Nat} {c : Char} (mem : c ∈ Numerals.decimal n) : c.isDigit = true :=
  Nat.isDigit_of_mem_toDigits (by decide) (by decide) mem

theorem parseUnsigned_decimal (n : UInt64) {rest : List Char}
    (stops : ∀ c, rest.head? = some c → c.isDigit = false) :
    parseUnsigned (Numerals.decimal n.toNat ++ rest) = some (.unsigned n, rest) := by
  obtain ⟨dropped, taken⟩ := dropWhile_span rest (fun c mem => decimal_isDigit mem) stops
  rw [parseUnsigned, dropped, taken, Numerals.readDigits_decimal]
  rw [if_pos ⟨rfl, n.toNat_lt⟩, UInt64.ofNat_toNat]

section

variable {α : Type} {Item : List Char → α → Prop} {item : List Char → Option (α × List Char)}

/-- With one comma between any two, there are no more items than characters. -/
theorem Separated.length_le {text : List Char} {as : List α} (separated : Separated Item text as) :
    as.length ≤ text.length + 1 := by
  induction separated with
  | one _ => simp
  | more _ _ ih =>
    rw [List.length_cons, List.length_append, List.length_cons]
    omega

theorem parseSeparated_reads {bound limit : Nat} {text rest : List Char} {as : List α}
    (reads : ∀ text a, Item text a → text.length ≤ limit →
      ∀ rest, Ends rest → item (text ++ rest) = some (a, rest))
    (separated : Separated Item text as) (short : text.length ≤ limit) (few : as.length ≤ bound)
    {c : Char} (closes : c = ']' ∨ c = '\x7d') :
    parseSeparated item bound (text ++ c :: rest) = some (as, c :: rest) := by
  induction separated generalizing bound with
  | @one text a here =>
    cases bound with
    | zero => simp at few
    | succ bound =>
      have read := reads text a here short (c :: rest) (ends_cons rest (Or.inr closes))
      rcases closes with rfl | rfl
      · rw [parseSeparated, read]
        simp
      · rw [parseSeparated, read]
        simp
  | @more text texts a as here _ ih =>
    rw [List.length_append, List.length_cons] at short
    cases bound with
    | zero => simp at few
    | succ bound =>
      have read := reads text a here (by omega) (',' :: (texts ++ c :: rest))
        (ends_cons _ (Or.inl rfl))
      have others := ih (by omega) (by simpa using few)
      rw [List.append_assoc, List.cons_append, parseSeparated, read]
      simp only [others, Option.map_some]

end

section

variable {Element : List Char → Json → Prop} {element : List Char → Option (Json × List Char)}
  {limit : Nat} {text rest : List Char}

theorem Value.head {j : Json} (value : Value Element text j) :
    ∃ c cs, text = c :: cs ∧ isBlank c = false ∧ c ≠ ']' ∧ c ≠ '\x7d' := by
  cases value with
  | unsigned n =>
    cases same : Numerals.decimal n.toNat with
    | nil => exact absurd same Nat.toDigits_ne_nil
    | cons c cs =>
      have digit := decimal_isDigit (n := n.toNat) (c := c) (by rw [same]; exact List.mem_cons_self)
      refine ⟨c, cs, rfl, ?_, ?_, ?_⟩
      · cases blank : isBlank c with
        | false => rfl
        | true =>
          rw [isDigit_of_isBlank blank] at digit
          cases digit
      · rintro rfl
        exact absurd digit (by decide)
      · rintro rfl
        exact absurd digit (by decide)
  | _ => exact ⟨_, _, rfl, by decide, by decide, by decide⟩

theorem parseMember_reads
    (reads : ∀ text j, Element text j → text.length ≤ limit →
      ∀ rest, Ends rest → element (text ++ rest) = some (j, rest))
    {m : String × Json} (member : Member Element text m) (short : text.length ≤ limit)
    (ends : Ends rest) : parseMember element (text ++ rest) = some (m, rest) := by
  cases member with
  | @mk before key between text j blank plain blank' here =>
    rw [List.length_append, List.length_cons, List.length_append, List.length_cons,
      List.length_append, List.length_cons] at short
    have shape : before ++ '"' :: (key ++ '"' :: (between ++ ':' :: text)) ++ rest =
        before ++ '"' :: (key ++ '"' :: (between ++ ':' :: (text ++ rest))) := by
      simp only [List.append_assoc, List.cons_append]
    have opens : skipBlank (before ++ '"' :: (key ++ '"' :: (between ++ ':' :: (text ++ rest)))) =
        '"' :: (key ++ '"' :: (between ++ ':' :: (text ++ rest))) :=
      skipBlank_append blank fun c here => by
        rw [List.head?_cons, Option.some.injEq] at here
        subst here
        decide
    have colon : skipBlank (between ++ ':' :: (text ++ rest)) = ':' :: (text ++ rest) :=
      skipBlank_append blank' fun c here => by
        rw [List.head?_cons, Option.some.injEq] at here
        subst here
        decide
    rw [shape, parseMember, opens]
    simp only [parseString_plain plain, Option.bind_some, colon]
    rw [reads text j here (by omega) rest ends, Option.map_some]

/-- Blanks and the bracket that closes an empty collection. -/
theorem skipBlank_closing {blank : List Char} (all : Blank blank) {c : Char}
    (closes : isBlank c = false) (rest : List Char) :
    skipBlank (blank ++ [c] ++ rest) = c :: rest := by
  rw [List.append_assoc]
  refine skipBlank_append all fun c' here => ?_
  rw [List.singleton_append, List.head?_cons, Option.some.injEq] at here
  rw [← here]
  exact closes

theorem Separated.head {α : Type} {Item : List Char → α → Prop} {p : List Char → Prop}
    {as : List α} (items : ∀ text a, Item text a → ∀ rest, p (text ++ rest))
    (separated : Separated Item text as) (rest : List Char) : p (text ++ rest) := by
  cases separated with
  | one here => exact items _ _ here rest
  | @more text texts _ _ here _ =>
    rw [List.append_assoc]
    exact items _ _ here _

theorem Padded.head {j : Json} (padded : Padded Element text j) (rest : List Char) :
    (skipBlank (text ++ rest)).head? ≠ some ']' := by
  obtain ⟨blank, value, -⟩ := padded
  obtain ⟨c, cs, rfl, opens, notBracket, -⟩ := value.head
  rw [List.append_assoc, List.append_assoc, List.cons_append,
    skipBlank_append blank fun c' here => by
      rw [List.head?_cons, Option.some.injEq] at here
      rw [← here]
      exact opens]
  rw [List.head?_cons]
  exact fun same => notBracket (Option.some.inj same)

theorem Member.head {m : String × Json} (member : Member Element text m) (rest : List Char) :
    (skipBlank (text ++ rest)).head? ≠ some '\x7d' := by
  obtain ⟨blank, -, -, -⟩ := member
  rw [List.append_assoc, List.cons_append, skipBlank_append blank fun c here => by
    rw [List.head?_cons, Option.some.injEq] at here
    subst here
    decide]
  rw [List.head?_cons]
  decide

theorem parseValue_reads
    (reads : ∀ text j, Element text j → text.length ≤ limit →
      ∀ rest, Ends rest → element (text ++ rest) = some (j, rest))
    (opens : ∀ text j, Element text j → ∀ rest, (skipBlank (text ++ rest)).head? ≠ some ']')
    {j : Json} (value : Value Element text j) (short : text.length ≤ limit + 1)
    (stops : ∀ c, rest.head? = some c → c.isDigit = false) :
    parseValue element (text ++ rest) = some (j, rest) := by
  cases value with
  | @string text plain =>
    rw [List.cons_append, List.append_assoc, parseValue, List.singleton_append,
      parseString_plain plain, Option.map_some]
  | unsigned n =>
    have read := parseUnsigned_decimal n stops
    cases same : Numerals.decimal n.toNat with
    | nil => exact absurd same Nat.toDigits_ne_nil
    | cons c cs =>
      have digit := decimal_isDigit (n := n.toNat) (c := c) (by rw [same]; exact List.mem_cons_self)
      rw [same, List.cons_append] at read
      rw [List.cons_append, parseValue, read]
      all_goals
        rintro rest' same'
        rw [(List.cons.inj same').1] at digit
        exact absurd digit (by decide)
  | @emptyArray blank all =>
    have closed := skipBlank_closing all (c := ']') (by decide) rest
    rw [List.cons_append, parseValue, closed, if_pos (List.head?_cons), List.tail_cons]
  | @array text elements separated =>
    rw [List.length_cons, List.length_append, List.length_singleton] at short
    have full := separated.head (p := fun text => (skipBlank text).head? ≠ some ']') opens
      ([']'] ++ rest)
    have few := separated.length_le
    rw [List.cons_append, parseValue, List.append_assoc, if_neg full, List.singleton_append,
      parseSeparated_reads reads separated (by omega)
        (by rw [List.length_append, List.length_cons]; omega) (Or.inl rfl)]
    rfl
  | @emptyObject blank all =>
    have closed := skipBlank_closing all (c := '\x7d') (by decide) rest
    rw [List.cons_append, parseValue, closed, if_pos (List.head?_cons), List.tail_cons]
  | @object text members separated =>
    rw [List.length_cons, List.length_append, List.length_singleton] at short
    have full := separated.head (p := fun text => (skipBlank text).head? ≠ some '\x7d')
      (fun _ _ member => member.head) (['\x7d'] ++ rest)
    have few := separated.length_le
    rw [List.cons_append, parseValue, List.append_assoc, if_neg full, List.singleton_append,
      parseSeparated_reads (fun _ _ member short _ ends => parseMember_reads reads member short ends)
        separated (by omega) (by rw [List.length_append, List.length_cons]; omega) (Or.inr rfl)]
    rfl

end

theorem parseElement_reads {depth fuel : Nat} {text rest : List Char} {j : Json}
    (denotes : Denotes depth text j) (short : text.length ≤ fuel) (ends : Ends rest) :
    parseElement (fuel + 1) (text ++ rest) = some (j, rest) := by
  induction depth generalizing fuel text rest j with
  | zero => exact denotes.elim
  | succ depth ih =>
    have opens : ∀ text j, Denotes depth text j →
        ∀ rest, (skipBlank (text ++ rest)).head? ≠ some ']' := by
      intro text j here rest
      cases depth with
      | zero => exact here.elim
      | succ depth => exact here.head rest
    obtain ⟨blank, value, blank'⟩ := denotes
    rename_i before text after
    rw [List.length_append, List.length_append] at short
    obtain ⟨c, cs, starts, opening, -, -⟩ := value.head
    have first : skipBlank (before ++ (text ++ (after ++ rest))) = text ++ (after ++ rest) :=
      skipBlank_append blank fun c' here => by
        rw [starts, List.cons_append, List.head?_cons, Option.some.injEq] at here
        rw [← here]
        exact opening
    have last : skipBlank (after ++ rest) = rest :=
      skipBlank_append blank' fun c' here => (ends.head here).1
    have stops : ∀ c, (after ++ rest).head? = some c → c.isDigit = false := by
      intro c' here
      cases after with
      | nil => exact (ends.head here).2
      | cons b after =>
        rw [List.cons_append, List.head?_cons, Option.some.injEq] at here
        rw [← here]
        exact isDigit_of_isBlank (blank' b List.mem_cons_self)
    cases fuel with
    | zero =>
      rw [starts, List.length_cons] at short
      omega
    | succ fuel =>
      rw [List.append_assoc, List.append_assoc, parseElement, first,
        parseValue_reads (fun _ _ here small _ ends => ih here small ends) opens value (by omega)
          stops, Option.map_some, last]

/-- The parser reads every text of the grammar. -/
theorem parse_reads : Reads parse := by
  intro depth text j denotes
  have read := parseElement_reads denotes (Nat.le_refl text.length) (Or.inl rfl : Ends [])
  rw [List.append_nil] at read
  rw [parse, read]

end Json
