import Mathlib.Data.BitVec
import Mathlib.Logic.Function.Basic

/-!
# The bytes of big-endian words on a little-endian host

A memory of the host in which an aligned word lies in the host's own order.  The
byte at an address is then the one that lies in its word from the other end: its
address is taken with the two low bits inverted.
-/

set_option autoImplicit false

namespace SwappedWords

variable {w : Nat}

abbrev HostBytes (w : Nat) := BitVec w → BitVec 8

namespace HostBytes

variable (m : HostBytes w)

def byte (a : BitVec w) : BitVec 8 := m (a ^^^ 3)

def setByte (a : BitVec w) (v : BitVec 8) : HostBytes w := Function.update m (a ^^^ 3) v

def word (a : BitVec w) : BitVec 32 := m (a + 3) ++ m (a + 2) ++ m (a + 1) ++ m a

def setWord (a : BitVec w) (v : BitVec 32) : HostBytes w :=
  Function.update (Function.update (Function.update (Function.update m
    a (v.extractLsb' 0 8)) (a + 1) (v.extractLsb' 8 8))
    (a + 2) (v.extractLsb' 16 8)) (a + 3) (v.extractLsb' 24 8)

end HostBytes

/-! ## Addresses -/

/-- An index below the size of a unit is applied inside the unit. -/
theorem xor_in_unit (n k : Nat) {i x : Nat} (small : i < 2 ^ n) (index : x < 2 ^ n) :
    (2 ^ n * k + i) ^^^ x = 2 ^ n * k + (i ^^^ x) := by
  have high : ((2 ^ n * k + i) ^^^ x) / 2 ^ n = k := by
    rw [Nat.xor_div_two_pow, Nat.mul_add_div (Nat.two_pow_pos n), Nat.div_eq_of_lt small,
      Nat.div_eq_of_lt index]
    exact Nat.xor_zero k
  have low : ((2 ^ n * k + i) ^^^ x) % 2 ^ n = i ^^^ x := by
    rw [Nat.xor_mod_two_pow, Nat.mul_add_mod, Nat.mod_eq_of_lt small, Nat.mod_eq_of_lt index]
  rw [← Nat.div_add_mod ((2 ^ n * k + i) ^^^ x) (2 ^ n), high, low]

theorem xor_next_unit (n p : Nat) {x : Nat} (index : x < 2 ^ n) :
    (p + 2 ^ n) ^^^ x = (p ^^^ x) + 2 ^ n := by
  have small := Nat.mod_lt p (Nat.two_pow_pos n)
  have here := xor_in_unit n (p / 2 ^ n) small index
  have next := xor_in_unit n (p / 2 ^ n + 1) small index
  rw [Nat.div_add_mod] at here
  rw [Nat.mul_add, Nat.mul_one, Nat.add_right_comm, Nat.div_add_mod] at next
  rw [next, here, Nat.add_right_comm]

theorem xor_in_word (k : Nat) {i x : Nat} (small : i < 4) (index : x < 4) :
    (4 * k + i) ^^^ x = 4 * k + (i ^^^ x) := xor_in_unit 2 k small index

theorem xor_three (k i : Nat) (small : i < 4) : (4 * k + i) ^^^ 3 = 4 * k + (3 - i) := by
  rw [xor_in_word k small (by decide)]
  match i, small with
  | 0, _ => rfl
  | 1, _ => rfl
  | 2, _ => rfl
  | 3, _ => rfl

section Addresses

variable (wide : 2 ≤ w)

include wide

theorem four_dvd : ∃ k, 2 ^ w = 4 * k :=
  ⟨2 ^ (w - 2), by rw [← Nat.pow_add 2 2, Nat.add_sub_cancel' wide]⟩

theorem toNat_add_small {a : BitVec w} (aligned : a.toNat % 4 = 0) {j : Nat} (small : j < 4) :
    (a + BitVec.ofNat w j).toNat = a.toNat + j := by
  obtain ⟨k, size⟩ := four_dvd wide
  have bound := a.isLt
  rw [BitVec.toNat_add, BitVec.toNat_ofNat, Nat.mod_eq_of_lt (a := j) (by omega),
    Nat.mod_eq_of_lt (by omega)]

/-- The byte at an address lies in its word from the other end. -/
theorem xor_three_add {a : BitVec w} (aligned : a.toNat % 4 = 0) {j : Nat} (small : j < 4) :
    (a + BitVec.ofNat w j) ^^^ 3 = a + BitVec.ofNat w (3 - j) := by
  obtain ⟨k, size⟩ := four_dvd wide
  have positive := a.isLt
  have three : (3 : BitVec w).toNat = 3 := by
    change (BitVec.ofNat w 3).toNat = 3
    rw [BitVec.toNat_ofNat, Nat.mod_eq_of_lt (by omega)]
  rw [← BitVec.toNat_inj, BitVec.toNat_xor, toNat_add_small wide aligned small, three,
    toNat_add_small wide aligned (by omega)]
  have split : a.toNat = 4 * (a.toNat / 4) := by omega
  rw [split]
  exact xor_three _ _ small

theorem add_apart (a : BitVec w) {i j : Nat} (below : i < 4) (below' : j < 4) (differ : i ≠ j) :
    a + BitVec.ofNat w i ≠ a + BitVec.ofNat w j := by
  obtain ⟨k, size⟩ := four_dvd wide
  have positive := a.isLt
  intro same
  have offsets := congrArg BitVec.toNat ((BitVec.add_right_inj _).mp same)
  rw [BitVec.toNat_ofNat, BitVec.toNat_ofNat, Nat.mod_eq_of_lt (by omega),
    Nat.mod_eq_of_lt (by omega)] at offsets
  exact differ offsets

end Addresses

/-! ## Reads after writes -/

namespace HostBytes

variable {m : HostBytes w} {a : BitVec w}

theorem byte_setByte (m : HostBytes w) (a : BitVec w) (v : BitVec 8) (x : BitVec w) :
    (m.setByte a v).byte x = if x = a then v else m.byte x := by
  rw [byte, setByte]
  by_cases same : x = a
  · rw [same, if_pos rfl, Function.update_self]
  · rw [if_neg same, Function.update_of_ne fun equal => same ((BitVec.xor_left_inj _).mp equal)]
    rfl

theorem setWord_at (wide : 2 ≤ w) (m : HostBytes w) (a : BitVec w) (v : BitVec 32) {j : Nat}
    (small : j < 4) : m.setWord a v (a + BitVec.ofNat w j) = v.extractLsb' (8 * j) 8 := by
  have apart {i k : Nat} (below : i < 4) (below' : k < 4) (differ : i ≠ k) :=
    add_apart wide a below below' differ
  have zero : a = a + BitVec.ofNat w 0 := (BitVec.add_zero a).symm
  have from_zero {k : Nat} (below : k < 4) (differ : 0 ≠ k) : a ≠ a + BitVec.ofNat w k := by
    have moved := apart (i := 0) (by decide) below differ
    rwa [← zero] at moved
  match j, small with
  | 0, _ =>
      rw [← zero, setWord]
      exact (Function.update_of_ne (from_zero (k := 3) (by decide) (by decide)) _ _).trans
        ((Function.update_of_ne (from_zero (k := 2) (by decide) (by decide)) _ _).trans
          ((Function.update_of_ne (from_zero (k := 1) (by decide) (by decide)) _ _).trans
            (Function.update_self _ _ _)))
  | 1, _ =>
      rw [setWord]
      exact (Function.update_of_ne (apart (k := 3) (by decide) (by decide) (by decide)) _ _).trans
        ((Function.update_of_ne (apart (k := 2) (by decide) (by decide) (by decide)) _ _).trans
          (Function.update_self _ _ _))
  | 2, _ =>
      rw [setWord]
      exact (Function.update_of_ne (apart (k := 3) (by decide) (by decide) (by decide)) _ _).trans
        (Function.update_self _ _ _)
  | 3, _ => exact Function.update_self _ _ _

theorem setWord_frame (v : BitVec 32) {q : BitVec w}
    (away : ∀ j < 4, q ≠ a + BitVec.ofNat w j) : m.setWord a v q = m q := by
  have first : q ≠ a := by
    have here := away 0 (by decide)
    rwa [BitVec.add_zero] at here
  have second : q ≠ a + 1 := away 1 (by decide)
  have third : q ≠ a + 2 := away 2 (by decide)
  have fourth : q ≠ a + 3 := away 3 (by decide)
  rw [setWord, Function.update_of_ne fourth, Function.update_of_ne third,
    Function.update_of_ne second, Function.update_of_ne first]

section Aligned

variable (wide : 2 ≤ w) (aligned : a.toNat % 4 = 0)

include wide aligned

theorem byte_add (m : HostBytes w) {j : Nat} (small : j < 4) :
    m.byte (a + BitVec.ofNat w j) = m (a + BitVec.ofNat w (3 - j)) := by
  rw [byte, xor_three_add wide aligned small]

/-- An aligned word is its bytes, the first one first. -/
theorem word_eq (m : HostBytes w) :
    m.word a = m.byte a ++ m.byte (a + 1) ++ m.byte (a + 2) ++ m.byte (a + 3) := by
  have zero : a = a + BitVec.ofNat w 0 := (BitVec.add_zero a).symm
  have first : m.byte a = m (a + 3) := by
    have here := byte_add wide aligned m (j := 0) (by decide)
    rwa [← zero] at here
  have last : m.byte (a + 3) = m a := by
    have here := byte_add wide aligned m (j := 3) (by decide)
    rwa [Nat.sub_self, ← zero] at here
  have second : m.byte (a + 1) = m (a + 2) := byte_add wide aligned m (j := 1) (by decide)
  have third : m.byte (a + 2) = m (a + 1) := byte_add wide aligned m (j := 2) (by decide)
  rw [word, first, second, third, last]

theorem byte_setWord (m : HostBytes w) (v : BitVec 32) {j : Nat} (small : j < 4) :
    (m.setWord a v).byte (a + BitVec.ofNat w j) = v.extractLsb' (8 * (3 - j)) 8 := by
  rw [byte_add wide aligned _ small]
  exact setWord_at wide m a v (by omega)

theorem byte_setWord_frame (m : HostBytes w) (v : BitVec 32) {x : BitVec w}
    (away : ∀ j < 4, x ≠ a + BitVec.ofNat w j) : (m.setWord a v).byte x = m.byte x := by
  refine setWord_frame v fun j small equal => away (3 - j) (by omega) ?_
  have back := congrArg (· ^^^ 3) equal
  rw [BitVec.xor_assoc, BitVec.xor_self, BitVec.xor_zero, xor_three_add wide aligned small] at back
  exact back

end Aligned

end HostBytes

/-! ## Words at any address -/

namespace HostBytes

def bigWord (m : HostBytes w) (a : BitVec w) : BitVec 32 :=
  m.byte a ++ m.byte (a + 1) ++ m.byte (a + 2) ++ m.byte (a + 3)

def setBigWord (m : HostBytes w) (a : BitVec w) (v : BitVec 32) : HostBytes w :=
  (((m.setByte a (v.extractLsb' 24 8)).setByte (a + 1) (v.extractLsb' 16 8)).setByte
    (a + 2) (v.extractLsb' 8 8)).setByte (a + 3) (v.extractLsb' 0 8)

variable {m m' : HostBytes w} {a : BitVec w}

theorem append_bytes (v : BitVec 32) :
    v.extractLsb' 24 8 ++ v.extractLsb' 16 8 ++ v.extractLsb' 8 8 ++ v.extractLsb' 0 8 = v := by
  apply BitVec.eq_of_getLsbD_eq
  intro i below
  simp only [BitVec.getLsbD_append, BitVec.getLsbD_extractLsb']
  grind

theorem bigWord_congr (same : ∀ j < 4, m'.byte (a + BitVec.ofNat w j) = m.byte (a + BitVec.ofNat w j)) :
    m'.bigWord a = m.bigWord a := by
  have first := same 0 (by decide)
  rw [BitVec.add_zero] at first
  have second : m'.byte (a + 1) = m.byte (a + 1) := same 1 (by decide)
  have third : m'.byte (a + 2) = m.byte (a + 2) := same 2 (by decide)
  have fourth : m'.byte (a + 3) = m.byte (a + 3) := same 3 (by decide)
  rw [bigWord, bigWord, first, second, third, fourth]

theorem byte_setBigWord_frame (v : BitVec 32) {x : BitVec w}
    (away : ∀ j < 4, x ≠ a + BitVec.ofNat w j) : (m.setBigWord a v).byte x = m.byte x := by
  have first := away 0 (by decide)
  rw [BitVec.add_zero] at first
  have second : x ≠ a + 1 := away 1 (by decide)
  have third : x ≠ a + 2 := away 2 (by decide)
  have fourth : x ≠ a + 3 := away 3 (by decide)
  rw [setBigWord, byte_setByte, if_neg fourth, byte_setByte, if_neg third, byte_setByte,
    if_neg second, byte_setByte, if_neg first]

theorem bigWord_setBigWord (wide : 2 ≤ w) (v : BitVec 32) : (m.setBigWord a v).bigWord a = v := by
  have apart {i k : Nat} (below : i < 4) (below' : k < 4) (differ : i ≠ k) :=
    add_apart wide a below below' differ
  have from_zero {k : Nat} (below : k < 4) (differ : 0 ≠ k) : a ≠ a + BitVec.ofNat w k := by
    have moved := apart (i := 0) (by decide) below differ
    rwa [BitVec.add_zero] at moved
  have zero_one : a ≠ a + 1 := from_zero (k := 1) (by decide) (by decide)
  have zero_two : a ≠ a + 2 := from_zero (k := 2) (by decide) (by decide)
  have zero_three : a ≠ a + 3 := from_zero (k := 3) (by decide) (by decide)
  have one_two : a + 1 ≠ a + 2 := apart (i := 1) (k := 2) (by decide) (by decide) (by decide)
  have one_three : a + 1 ≠ a + 3 := apart (i := 1) (k := 3) (by decide) (by decide) (by decide)
  have two_three : a + 2 ≠ a + 3 := apart (i := 2) (k := 3) (by decide) (by decide) (by decide)
  have first : (m.setBigWord a v).byte a = v.extractLsb' 24 8 := by
    rw [setBigWord, byte_setByte, if_neg zero_three, byte_setByte, if_neg zero_two, byte_setByte,
      if_neg zero_one, byte_setByte, if_pos rfl]
  have second : (m.setBigWord a v).byte (a + 1) = v.extractLsb' 16 8 := by
    rw [setBigWord, byte_setByte, if_neg one_three, byte_setByte, if_neg one_two, byte_setByte,
      if_pos rfl]
  have third : (m.setBigWord a v).byte (a + 2) = v.extractLsb' 8 8 := by
    rw [setBigWord, byte_setByte, if_neg two_three, byte_setByte, if_pos rfl]
  have fourth : (m.setBigWord a v).byte (a + 3) = v.extractLsb' 0 8 := by
    rw [setBigWord, byte_setByte, if_pos rfl]
  rw [bigWord, first, second, third, fourth]
  exact append_bytes v

end HostBytes

/-! ## Addresses that are integers -/

def bigEndianAt (bytes : Int → BitVec 8) (n : Int) : BitVec 32 :=
  bytes n ++ bytes (n + 1) ++ bytes (n + 2) ++ bytes (n + 3)

namespace HostBytes

def byteAt (m : HostBytes w) (n : Int) : BitVec 8 := m.byte (BitVec.ofInt w n)

end HostBytes

theorem bigEndianAt_congr {bytes bytes' : Int → BitVec 8} {n : Int}
    (same : ∀ k, n ≤ k → k < n + 4 → bytes k = bytes' k) :
    bigEndianAt bytes n = bigEndianAt bytes' n := by
  rw [bigEndianAt, same n (by omega) (by omega), same (n + 1) (by omega) (by omega),
    same (n + 2) (by omega) (by omega), same (n + 3) (by omega) (by omega)]
  rfl

theorem ofInt_add_nat (n : Int) (i : Nat) :
    BitVec.ofInt w n + BitVec.ofNat w i = BitVec.ofInt w (n + i) := by
  rw [BitVec.ofInt_add, BitVec.ofInt_natCast]

theorem ofInt_inj {lo n k : Int} (above : lo ≤ n) (below : n < lo + 2 ^ w) (above' : lo ≤ k)
    (below' : k < lo + 2 ^ w) (same : BitVec.ofInt w n = BitVec.ofInt w k) : n = k := by
  have nats := congrArg BitVec.toNat same
  rw [BitVec.toNat_ofInt, BitVec.toNat_ofInt] at nats
  have size : (0 : Int) < ((2 ^ w : Nat) : Int) := by exact_mod_cast Nat.two_pow_pos w
  have first := Int.emod_nonneg n size.ne'
  have second := Int.emod_nonneg k size.ne'
  have residues : n % ((2 ^ w : Nat) : Int) = k % ((2 ^ w : Nat) : Int) := by omega
  have divides : ((2 ^ w : Nat) : Int) ∣ n - k :=
    Int.dvd_of_emod_eq_zero (Int.emod_eq_emod_iff_emod_sub_eq_zero.mp residues)
  have whole : (2 : Int) ^ w = ((2 ^ w : Nat) : Int) := by push_cast; rfl
  have zero := Int.eq_zero_of_dvd_of_natAbs_lt_natAbs divides (by omega)
  omega

theorem ofInt_aligned (wide : 2 ≤ w) {n : Int} (aligned : n % 4 = 0) :
    (BitVec.ofInt w n).toNat % 4 = 0 := by
  obtain ⟨k, size⟩ := four_dvd wide
  have four : (4 : Int) ∣ ((2 ^ w : Nat) : Int) := ⟨k, by rw [size]; push_cast; rfl⟩
  have residue : n % ((2 ^ w : Nat) : Int) % 4 = n % 4 := Int.emod_emod_of_dvd n four
  rw [BitVec.toNat_ofInt]
  omega

namespace HostBytes

variable {lo : Int}

def fill (m : HostBytes w) (n : Int) (size : Nat) (value : Nat → BitVec 8) : HostBytes w :=
  (List.range size).foldl (fun m (i : Nat) => m.setByte (BitVec.ofInt w (n + i)) (value i)) m

theorem byteAt_fill (m : HostBytes w) {n : Int} {size : Nat} (value : Nat → BitVec 8)
    (above : lo ≤ n) (below : n + size ≤ lo + 2 ^ w) {k : Int} (above' : lo ≤ k) (below' : k < lo + 2 ^ w) :
    (m.fill n size value).byteAt k
      = if n ≤ k ∧ k < n + size then value (k - n).toNat else m.byteAt k := by
  induction size with
  | zero => rw [if_neg (by omega)]; rfl
  | succ size ih =>
      rw [fill, List.range_succ, List.foldl_append]
      change (setByte (fill m n size value) _ _).byte _ = _
      rw [byte_setByte]
      have before := ih (by omega)
      by_cases here : k = n + size
      · rw [if_pos (by rw [here]), if_pos (by omega)]
        congr 1
        omega
      · rw [if_neg fun same => here (ofInt_inj above' below' (by omega) (by omega) same)]
        refine before.trans ?_
        by_cases inside : n ≤ k ∧ k < n + size
        · rw [if_pos inside, if_pos (by omega)]
        · rw [if_neg inside, if_neg (by omega)]

variable (wide : 2 ≤ w) {n : Int} (aligned : n % 4 = 0)

include wide aligned

theorem word_ofInt (m : HostBytes w) : m.word (BitVec.ofInt w n) = bigEndianAt m.byteAt n := by
  have second : BitVec.ofInt w n + 1 = BitVec.ofInt w (n + 1) := ofInt_add_nat n 1
  have third : BitVec.ofInt w n + 2 = BitVec.ofInt w (n + 2) := ofInt_add_nat n 2
  have fourth : BitVec.ofInt w n + 3 = BitVec.ofInt w (n + 3) := ofInt_add_nat n 3
  rw [word_eq wide (ofInt_aligned wide aligned), second, third, fourth]
  rfl

theorem bigEndianAt_setWord (m : HostBytes w) (v : BitVec 32) :
    bigEndianAt (m.setWord (BitVec.ofInt w n) v).byteAt n = v := by
  have at_byte {j : Nat} (small : j < 4) :
      (m.setWord (BitVec.ofInt w n) v).byteAt (n + j) = v.extractLsb' (8 * (3 - j)) 8 := by
    rw [byteAt, ← ofInt_add_nat]
    exact byte_setWord wide (ofInt_aligned wide aligned) m v small
  have first := at_byte (j := 0) (by decide)
  have second : (m.setWord _ v).byteAt (n + 1) = _ := at_byte (j := 1) (by decide)
  have third : (m.setWord _ v).byteAt (n + 2) = _ := at_byte (j := 2) (by decide)
  have fourth : (m.setWord _ v).byteAt (n + 3) = _ := at_byte (j := 3) (by decide)
  rw [Nat.cast_zero, Int.add_zero] at first
  rw [bigEndianAt, first, second, third, fourth]
  rw [BitVec.extractLsb'_append_extractLsb'_eq_extractLsb' (by decide),
    BitVec.extractLsb'_append_extractLsb'_eq_extractLsb' (by decide),
    BitVec.extractLsb'_append_extractLsb'_eq_extractLsb' (by decide)]
  exact BitVec.extractLsb'_eq_self

theorem byteAt_setWord_frame (m : HostBytes w) (v : BitVec 32) (above : lo ≤ n)
    (below : n + 4 ≤ lo + 2 ^ w) {k : Int} (above' : lo ≤ k) (below' : k < lo + 2 ^ w)
    (away : ¬ (n ≤ k ∧ k < n + 4)) :
    (m.setWord (BitVec.ofInt w n) v).byteAt k = m.byteAt k := by
  refine byte_setWord_frame wide (ofInt_aligned wide aligned) m v fun j small same => ?_
  rw [ofInt_add_nat] at same
  have equal := ofInt_inj above' below' (by omega) (by omega) same
  omega

end HostBytes

/-! ## Words that are added to -/

structure Addend where
  address : Int
  amount : BitVec 32
  deriving DecidableEq

def Addend.Covers (a : Addend) (n : Int) : Prop := a.address ≤ n ∧ n < a.address + 4

def Addend.Apart (a b : Addend) : Prop :=
  a.address + 4 ≤ b.address ∨ b.address + 4 ≤ a.address

instance (a b : Addend) : Decidable (a.Apart b) := instDecidableOr

theorem Addend.Apart.symm {a b : Addend} (apart : a.Apart b) : b.Apart a := Or.symm apart

theorem Addend.Apart.not_covers {a b : Addend} (apart : a.Apart b) {n : Int} (inside : a.Covers n) :
    ¬ b.Covers n := by
  obtain ⟨above, below⟩ := inside
  rintro ⟨above', below'⟩
  rcases apart with before | after
  · omega
  · omega

def HostBytes.add (m : HostBytes w) (a : Addend) : HostBytes w :=
  m.setWord (BitVec.ofInt w a.address) (m.word (BitVec.ofInt w a.address) + a.amount)

/-- From `lo` to `limit` the second bytes are the first ones with the words added to. -/
structure Adds (lo limit : Int) (addends : List Addend) (bytes bytes' : Int → BitVec 8) : Prop where
  frame : ∀ n, lo ≤ n → n < limit → (∀ a ∈ addends, ¬ a.Covers n) → bytes' n = bytes n
  words : ∀ a ∈ addends, lo ≤ a.address → a.address + 4 ≤ limit →
    bigEndianAt bytes' a.address = bigEndianAt bytes a.address + a.amount

namespace Adds

section Runs

variable {lo lo' limit limit' : Int} {first second : List Addend}
  {bytes bytes' bytes'' : Int → BitVec 8}

theorem mono (adds : Adds lo limit first bytes bytes') (more : lo ≤ lo') (less : limit' ≤ limit) :
    Adds lo' limit' first bytes bytes' where
  frame n above below := adds.frame n (by omega) (by omega)
  words a mem above below := adds.words a mem (by omega) (by omega)

theorem of_eq (same : ∀ n, lo ≤ n → n < limit → bytes' n = bytes n) :
    Adds lo limit [] bytes bytes' :=
  ⟨fun n above below _ => same n above below, fun _ mem => absurd mem List.not_mem_nil⟩

theorem trans (adds : Adds lo limit first bytes bytes')
    (adds' : Adds lo limit second bytes' bytes'')
    (apart : ∀ a ∈ first, ∀ b ∈ second, a.Apart b) :
    Adds lo limit (first ++ second) bytes bytes'' where
  frame n above below away :=
    (adds'.frame n above below fun b mem => away b (List.mem_append_right first mem)).trans
      (adds.frame n above below fun a mem => away a (List.mem_append_left second mem))
  words a mem above below := by
    rcases List.mem_append.mp mem with mem | mem
    · rw [← adds.words a mem above below]
      refine bigEndianAt_congr fun k from_start to_end => ?_
      exact adds'.frame k (by omega) (by omega) fun b mem' =>
        (apart a mem b mem').not_covers ⟨from_start, to_end⟩
    · rw [adds'.words a mem above below]
      congr 1
      refine bigEndianAt_congr fun k from_start to_end => ?_
      exact adds.frame k (by omega) (by omega) fun b mem' =>
        (apart b mem' a mem).symm.not_covers ⟨from_start, to_end⟩

end Runs

variable {lo : Int} (wide : 2 ≤ w)

include wide

theorem add (m : HostBytes w) {a : Addend} (aligned : a.address % 4 = 0) (above : lo ≤ a.address)
    (below : a.address + 4 ≤ lo + 2 ^ w) :
    Adds lo (lo + 2 ^ w) [a] m.byteAt (m.add a).byteAt where
  frame n above' below' away :=
    HostBytes.byteAt_setWord_frame wide aligned m _ above below above' below'
      (away a List.mem_cons_self)
  words b mem _ _ := by
    rw [List.mem_singleton.mp mem, HostBytes.add, HostBytes.bigEndianAt_setWord wide aligned,
      HostBytes.word_ofInt wide aligned]

/-- Words that are apart are added to one after another. -/
theorem run (addends : List Addend) (m : HostBytes w) (apart : addends.Pairwise Addend.Apart)
    (aligned : ∀ a ∈ addends, a.address % 4 = 0)
    (inside : ∀ a ∈ addends, lo ≤ a.address ∧ a.address + 4 ≤ lo + 2 ^ w) :
    Adds lo (lo + 2 ^ w) addends m.byteAt (addends.foldl HostBytes.add m).byteAt := by
  induction addends generalizing m with
  | nil => exact of_eq fun _ _ _ => rfl
  | cons a rest ih =>
      obtain ⟨from_a, apart⟩ := List.pairwise_cons.mp apart
      obtain ⟨above, below⟩ := inside a List.mem_cons_self
      have here := add wide m (aligned a List.mem_cons_self) above below
      have later := ih (m.add a) apart (fun b mem => aligned b (List.mem_cons_of_mem a mem))
        fun b mem => inside b (List.mem_cons_of_mem a mem)
      refine here.trans later fun c mem b mem' => ?_
      rw [List.mem_singleton.mp mem]
      exact from_a b mem'

end Adds

end SwappedWords
