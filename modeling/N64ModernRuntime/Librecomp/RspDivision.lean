import N64ModernRuntime.Librecomp.RspArithmetic
import N64ModernRuntime.Librecomp.RspTransfers

/-!
# rsp_vu_impl.hpp: how close divisions are

The tables hold nine bits of a reciprocal and of an inverse square root.  For every word
the quotient that is shifted out of an entry is `2 ^ 31` over the number, or over its
root, up to one part in 512.
-/

set_option autoImplicit false

namespace N64ModernRuntime.Librecomp

open Sse

/-! ## The tables -/

theorem quotient_entry {a b entry : Nat} (low : 513 ≤ a) (high : a < 1024) (isB : b = 2 ^ 34 / a)
    (isEntry : entry = (b + 1) / 2 ^ 8) :
    65536 ≤ entry ∧ entry < 131072 ∧ entry * a ≤ 2 ^ 26 + 3 ∧ 2 ^ 26 ≤ entry * a + 1019 := by
  have positive : 0 < a := by omega
  have least : b * a ≤ 2 ^ 34 := isB ▸ Nat.div_mul_le_self (2 ^ 34) a
  have most : 2 ^ 34 < b * a + a := isB ▸ Nat.lt_div_mul_add positive
  have below : 16777216 ≤ b := isB ▸ (Nat.le_div_iff_mul_le positive).mpr (by omega)
  have above : b < 33554431 := isB ▸ (Nat.div_lt_iff_lt_mul positive).mpr (by omega)
  have up : entry * 256 ≤ b + 1 := by omega
  have down : b + 1 ≤ entry * 256 + 255 := by omega
  have scaledUp := Nat.mul_le_mul_right a up
  have scaledDown := Nat.mul_le_mul_right a down
  have product : entry * 256 * a = entry * a * 256 := Nat.mul_right_comm _ _ _
  rw [Nat.add_mul, product] at scaledUp
  rw [Nat.add_mul, Nat.add_mul, product] at scaledDown
  refine ⟨by omega, by omega, by omega, by omega⟩

/-- An entry with its leading one is close to `2 ^ 26` over the upper bits. -/
theorem reciprocal_entry {index : Nat} (inside : index < 512) :
    let entry := 65536 + (rspReciprocals index).toNat
    entry < 131072 ∧ entry * (index + 512) ≤ 2 ^ 26 + 3 ∧
      2 ^ 26 ≤ entry * (index + 512) + 1019 := by
  by_cases first : index = 0
  · subst first
    decide
  · obtain ⟨low, high, bounds⟩ := quotient_entry (a := index + 512) (by omega) (by omega) rfl rfl
    have whole : 65536 + (rspReciprocals index).toNat = (2 ^ 34 / (index + 512) + 1) / 2 ^ 8 := by
      rw [rspReciprocals, if_neg first, BitVec.toNat_ofNat]
      omega
    simp only [whole]
    exact ⟨high, bounds⟩

theorem growRoot_spec (a rounds b : Nat) :
    let root := growRoot a rounds b
    b ≤ root ∧ root ≤ b + rounds ∧ (root = b ∨ a * root * root < 2 ^ 44) ∧
      (root < b + rounds → 2 ^ 44 ≤ a * (root + 1) * (root + 1)) := by
  induction rounds generalizing b with
  | zero =>
      simp only [growRoot]
      exact ⟨le_rfl, le_rfl, .inl trivial, fun more => absurd more (Nat.lt_irrefl b)⟩
  | succ rounds ih =>
      intro root
      by_cases more : a * (b + 1) * (b + 1) < 2 ^ 44
      · obtain ⟨from_, upTo, below, last⟩ := ih (b + 1)
        have isRoot : root = growRoot a rounds (b + 1) := if_pos more
        rw [← isRoot] at from_ upTo below last
        refine ⟨by omega, by omega, .inr ?_, fun inside => last (by omega)⟩
        rcases below with same | below
        · rw [same]
          exact more
        · exact below
      · have isRoot : root = b := if_neg more
        rw [isRoot]
        exact ⟨le_rfl, by omega, .inl rfl, fun _ => not_lt.mp more⟩

/-- The loop for an entry ends, with the greatest number that its test lets through. -/
theorem growRoot_ends {a : Nat} (low : 256 ≤ a) (high : a < 1024) :
    let root := growRoot a (2 ^ 17) (2 ^ 17)
    2 ^ 17 ≤ root ∧ root < 2 ^ 18 ∧ a * root * root < 2 ^ 44 ∧
      2 ^ 44 ≤ a * (root + 1) * (root + 1) := by
  intro root
  obtain ⟨from_, upTo, below, last⟩ := growRoot_spec a (2 ^ 17) (2 ^ 17)
  have small : a * root * root < 2 ^ 44 := by
    rcases below with same | below
    · rw [show root = 2 ^ 17 from same]
      omega
    · exact below
  have ends : root < 2 ^ 18 := by
    by_contra beyond
    have square : 2 ^ 18 * 2 ^ 18 ≤ root * root := Nat.mul_le_mul (by omega) (by omega)
    have product := Nat.mul_le_mul low square
    rw [← Nat.mul_assoc a] at product
    omega
  exact ⟨from_, ends, small, last (by omega)⟩

def rootDivisor (index : Nat) : Nat := (index + 512) / if index % 2 = 1 then 2 else 1

theorem rootDivisor_bounds {index : Nat} (inside : index < 512) :
    256 ≤ rootDivisor index ∧ rootDivisor index < 1024 := by
  unfold rootDivisor
  split_ifs
  · omega
  · omega

/-- An entry with its leading one is close to `2 ^ 21` over the square root. -/
theorem inverseSquareRoot_entry {index : Nat} (inside : index < 512) :
    let entry := 65536 + (rspInverseSquareRoots index).toNat
    entry < 131072 ∧ rootDivisor index * entry * entry < 2 ^ 42 ∧
      2 ^ 42 ≤ rootDivisor index * (entry + 1) * (entry + 1) := by
  obtain ⟨low, high⟩ := rootDivisor_bounds inside
  obtain ⟨from_, ends, below, above⟩ := growRoot_ends low high
  have isEntry : 65536 + (rspInverseSquareRoots index).toNat =
      growRoot (rootDivisor index) (2 ^ 17) (2 ^ 17) / 2 := by
    have unfolded : rspInverseSquareRoots index =
        BitVec.ofNat 16 (growRoot (rootDivisor index) (2 ^ 17) (2 ^ 17) / 2) := rfl
    rw [unfolded, BitVec.toNat_ofNat]
    omega
  simp only [isEntry]
  generalize growRoot (rootDivisor index) (2 ^ 17) (2 ^ 17) = root at *
  generalize rootDivisor index = a at *
  have up : 2 * (root / 2) ≤ root := by omega
  have down : root + 1 ≤ 2 * (root / 2 + 1) := by omega
  have squared := Nat.mul_le_mul (Nat.mul_le_mul_left a up) up
  have squared' := Nat.mul_le_mul (Nat.mul_le_mul_left a down) down
  generalize root / 2 = entry at *
  have four : a * (2 * entry) * (2 * entry) = 4 * (a * entry * entry) := by ring
  have four' : a * (2 * (entry + 1)) * (2 * (entry + 1)) =
      4 * (a * (entry + 1) * (entry + 1)) := by ring
  rw [four] at squared
  rw [four'] at squared'
  refine ⟨by omega, by omega, by omega⟩

/-! ## Divisions -/

/-- `data`: below the halfwords the source does not add the one of a complement. -/
def magnitude (x : Int) : Nat := if x > -32768 then x.natAbs else (-x - 1).toNat

/-- `result ^ mask` as a number -/
def signedQuotient (x : Int) (q : Nat) : Int := if x < 0 then -q - 1 else q

theorem sign_of_neg {input : BitVec 32} (negative : input.toInt < 0) :
    input.sshiftRight 31 = BitVec.allOnes 32 := by
  have range := BitVec.le_toInt input
  apply BitVec.eq_of_toInt_eq
  rw [BitVec.toInt_sshiftRight, Int.shiftRight_eq_div_pow]
  have ones : (BitVec.allOnes 32).toInt = -1 := rfl
  rw [ones]
  omega

theorem sign_of_nonneg {input : BitVec 32} (nonneg : 0 ≤ input.toInt) :
    input.sshiftRight 31 = 0 := by
  have range := BitVec.toInt_lt (x := input)
  apply BitVec.eq_of_toInt_eq
  rw [BitVec.toInt_sshiftRight, Int.shiftRight_eq_div_pow]
  have zeros : (0 : BitVec 32).toInt = 0 := rfl
  rw [zeros]
  omega

theorem toNat_data (input : BitVec 32) :
    let mask := input.sshiftRight 31
    let data := input ^^^ mask
    (if input.toInt > -32768 then data - mask else data).toNat = magnitude input.toInt := by
  have range := input.isLt
  have signed := BitVec.toInt_eq_toNat_cond input
  intro mask data
  by_cases negative : input.toInt < 0
  · have ones : mask = BitVec.allOnes 32 := sign_of_neg negative
    have isData : data.toNat = 2 ^ 32 - 1 - input.toNat := by
      simp only [data, ones, BitVec.xor_allOnes, BitVec.toNat_not]
    unfold magnitude
    by_cases long : input.toInt > -32768
    · rw [if_pos long, if_pos long, BitVec.toNat_sub, isData, ones, BitVec.toNat_allOnes]
      omega
    · rw [if_neg long, if_neg long, isData]
      omega
  · have zeros : mask = 0 := sign_of_nonneg (not_lt.mp negative)
    have isData : data = input := by
      simp only [data, zeros]
      exact BitVec.xor_zero
    unfold magnitude
    have long : input.toInt > -32768 := by omega
    rw [if_pos long, if_pos long, isData, zeros]
    rw [show input - 0 = input from BitVec.sub_zero input]
    omega

theorem upper_bits (m : Nat) : (m &&& 0x7fc00000) >>> 22 = m / 2 ^ 22 % 512 := by
  rw [Nat.shiftRight_and_distrib, Nat.shiftRight_eq_div_pow]
  exact Nat.and_two_pow_sub_one_eq_mod _ 9

theorem leading_one {data : BitVec 32} (positive : 0 < data.toNat) :
    2 ^ 31 ≤ data.toNat * 2 ^ clz32 data ∧ data.toNat * 2 ^ clz32 data < 2 ^ 32 := by
  have least := Nat.log2_self_le positive.ne'
  have most := Nat.lt_log2_self (n := data.toNat)
  have inside : data.toNat.log2 < 32 := (Nat.log2_lt positive.ne').mpr data.isLt
  have down := Nat.mul_le_mul_right (2 ^ clz32 data) least
  have up := Nat.mul_lt_mul_of_pos_right most (Nat.two_pow_pos (clz32 data))
  rw [← Nat.pow_add] at down up
  have below : data.toNat.log2 + clz32 data = 31 := by
    unfold clz32
    omega
  have above : data.toNat.log2 + 1 + clz32 data = 32 := by omega
  rw [below] at down
  rw [above] at up
  exact ⟨down, up⟩

theorem toNat_quotient (entry : BitVec 16) (places : Nat) :
    (((0x10000 ||| entry.setWidth 32 : BitVec 32) <<< 14).sshiftRight places).toNat =
      (65536 + entry.toNat) * 2 ^ 14 / 2 ^ places := by
  have inside := entry.isLt
  have whole : ((0x10000 ||| entry.setWidth 32 : BitVec 32) <<< 14).toNat =
      (65536 + entry.toNat) * 2 ^ 14 := by
    have joined := toNat_join 1 entry
    have top : (1 : BitVec 16).setWidth 32 <<< 16 = 0x10000 := rfl
    rw [top] at joined
    rw [BitVec.toNat_shiftLeft, joined, Nat.shiftLeft_eq]
    change (1 * 65536 + entry.toNat) * 2 ^ 14 % 2 ^ 32 = _
    omega
  have positive : ((0x10000 ||| entry.setWidth 32 : BitVec 32) <<< 14).msb = false := by
    rw [BitVec.msb_eq_decide, whole, decide_eq_false_iff_not]
    omega
  rw [BitVec.sshiftRight_eq_of_msb_false positive, BitVec.toNat_ushiftRight, whole,
    Nat.shiftRight_eq_div_pow]

theorem divide_zero (entry : (shift index : Nat) → BitVec 16) (places : (shift : Nat) → Nat) :
    Vu.divide 0 entry places = 0x7fffffff := rfl

theorem divide_least (entry : (shift index : Nat) → BitVec 16) (places : (shift : Nat) → Nat) :
    Vu.divide 0xffff8000 entry places = 0xffff0000 := rfl

theorem quotient_lt (entry : BitVec 16) (places : Nat) :
    (((0x10000 ||| entry.setWidth 32 : BitVec 32) <<< 14).sshiftRight places).toNat < 2 ^ 31 := by
  have inside := entry.isLt
  rw [toNat_quotient]
  exact lt_of_le_of_lt (Nat.div_le_self _ _) (by omega)

/-- `^ mask` -/
theorem toInt_xor_sign {input r : BitVec 32} (small : r.toNat < 2 ^ 31) :
    (r ^^^ input.sshiftRight 31).toInt = signedQuotient input.toInt r.toNat := by
  unfold signedQuotient
  by_cases negative : input.toInt < 0
  · have complement : (r ^^^ input.sshiftRight 31).toNat = 2 ^ 32 - 1 - r.toNat := by
      rw [sign_of_neg negative, BitVec.xor_allOnes, BitVec.toNat_not]
    rw [BitVec.toInt_eq_toNat_cond, complement, if_neg (by omega), if_pos negative]
    omega
  · have same : r ^^^ input.sshiftRight 31 = r := by
      rw [sign_of_nonneg (not_lt.mp negative)]
      exact BitVec.xor_zero
    rw [same, BitVec.toInt_eq_toNat_cond, if_pos (by omega), if_neg negative]

theorem divide_eq {input : BitVec 32} (nonzero : input ≠ 0) (least : input.toInt ≠ -32768)
    (entry : (shift index : Nat) → BitVec 16) (places : (shift : Nat) → Nat) :
    let data := magnitude input.toInt
    let shift := 31 - data.log2
    0 < data ∧ (2 ^ 31 ≤ data * 2 ^ shift ∧ data * 2 ^ shift < 2 ^ 32) ∧
      (Vu.divide input entry places).toInt = signedQuotient input.toInt
        ((65536 + (entry shift (data * 2 ^ shift / 2 ^ 22 - 512)).toNat) * 2 ^ 14 /
          2 ^ places shift) := by
  intro data shift
  have given := toNat_data input
  have isZero : input.toInt = 0 ↔ input = 0 := BitVec.toInt_inj (y := 0)
  have positive : 0 < data := by
    simp only [data, magnitude]
    have other := mt isZero.mp nonzero
    split_ifs
    · omega
    · omega
  simp only at given
  simp only [Vu.divide]
  generalize (if input.toInt > -32768 then
    (input ^^^ input.sshiftRight 31) - input.sshiftRight 31
    else input ^^^ input.sshiftRight 31) = d at *
  replace given : d.toNat = data := given
  have isShift : clz32 d = shift := by
    unfold clz32
    rw [given]
  have leading := leading_one (show 0 < d.toNat by omega)
  rw [isShift, given] at leading
  have some : d ≠ 0 := by
    rintro rfl
    exact positive.ne given
  refine ⟨positive, leading, ?_⟩
  rw [if_neg some, if_neg least, isShift, given, Nat.shiftLeft_eq, upper_bits]
  have index : data * 2 ^ shift / 2 ^ 22 % 512 = data * 2 ^ shift / 2 ^ 22 - 512 := by omega
  rw [index, toInt_xor_sign (quotient_lt _ _), toNat_quotient]

/-- A shift to the right divides by what is left of the normalising shift. -/
theorem shifted_quotient (d x : Nat) {p r : Nat} (positive : 0 < r) :
    x / r * r * (d * p) ≤ x * (d * p) ∧ x * (d * p) ≤ (x / r + 1) * r * (d * p) := by
  constructor
  · exact Nat.mul_le_mul_right _ (Nat.div_mul_le_self x r)
  · rw [Nat.add_mul, Nat.one_mul]
    exact Nat.mul_le_mul_right _ (Nat.lt_div_mul_add positive).le

/-- A reciprocal is `2 ^ 31` over the magnitude, up to one part in 512 and the last place. -/
theorem reciprocal_close {input : BitVec 32} (nonzero : input ≠ 0)
    (least : input.toInt ≠ -32768) :
    ∃ q : Nat, (Vu.reciprocal input).toInt = signedQuotient input.toInt q ∧
      q * magnitude input.toInt ≤ 2 ^ 31 + 2 ^ 22 + 2 ^ 6 ∧
      2 ^ 31 < (q + 1) * magnitude input.toInt + 2 ^ 15 := by
  obtain ⟨positive, leading, isQuotient⟩ := divide_eq nonzero least
    (fun _ index => rspReciprocals index) fun shift => 31 - shift
  refine ⟨_, isQuotient, ?_⟩
  generalize magnitude input.toInt = d at *
  have shift : 31 - d.log2 ≤ 31 := Nat.sub_le _ _
  generalize 31 - d.log2 = s at *
  have upper : d * 2 ^ s / 2 ^ 22 - 512 < 512 := by omega
  obtain ⟨small, high, low⟩ := reciprocal_entry upper
  have above : d * 2 ^ s / 2 ^ 22 - 512 + 512 = d * 2 ^ s / 2 ^ 22 := by omega
  simp only [above] at high low
  generalize 65536 + (rspReciprocals (d * 2 ^ s / 2 ^ 22 - 512)).toNat = entry at *
  obtain ⟨down, up⟩ := shifted_quotient d (entry * 2 ^ 14) (p := 2 ^ s) (Nat.two_pow_pos (31 - s))
  generalize entry * 2 ^ 14 / 2 ^ (31 - s) = q at *
  have whole : 2 ^ s * 2 ^ (31 - s) = 2 ^ 31 := by
    rw [← Nat.pow_add, Nat.add_sub_cancel' shift]
  have same (n : Nat) : n * 2 ^ (31 - s) * (d * 2 ^ s) = n * d * 2 ^ 31 := by
    rw [← whole]
    ring
  rw [same] at down up
  generalize d * 2 ^ s = m at *
  have least : m / 2 ^ 22 * 2 ^ 22 ≤ m := Nat.div_mul_le_self _ _
  have most : m ≤ m / 2 ^ 22 * 2 ^ 22 + 2 ^ 22 := (Nat.lt_div_mul_add (by decide)).le
  generalize m / 2 ^ 22 = a at *
  have least' := Nat.mul_le_mul_left (entry * 2 ^ 14) least
  have most' := Nat.mul_le_mul_left (entry * 2 ^ 14) most
  have product : entry * 2 ^ 14 * (a * 2 ^ 22) = entry * a * 2 ^ 36 := by ring
  have rest : entry * 2 ^ 14 * 2 ^ 22 = entry * 2 ^ 36 := by ring
  rw [product] at least'
  rw [Nat.mul_add, product, rest] at most'
  constructor
  · omega
  · omega

theorem root_close {d m u r k entry : Nat} (positive : 0 < r)
    (whole : u * (r * r) * m = d * 2 ^ 31) (least : k * 2 ^ 23 ≤ m)
    (most : m ≤ k * 2 ^ 23 + 2 ^ 23) (low : 256 ≤ k) (high : u * k < 1024)
    (small : entry < 131072) (below : u * k * entry * entry < 2 ^ 42)
    (above : 2 ^ 42 ≤ u * k * (entry + 1) * (entry + 1)) :
    let q := entry * 2 ^ 14 / r
    q * q * d < 2 ^ 62 + 2 ^ 54 ∧ 2 ^ 62 < (q + 1) * (q + 1) * d + 2 ^ 48 := by
  intro q
  have down : q * r ≤ entry * 2 ^ 14 := Nat.div_mul_le_self _ _
  have up : entry * 2 ^ 14 ≤ (q + 1) * r := by
    rw [Nat.add_mul, Nat.one_mul]
    exact (Nat.lt_div_mul_add positive).le
  generalize q = q at *
  have down₂ := Nat.mul_le_mul_right (u * m) (Nat.mul_le_mul down down)
  have up₂ := Nat.mul_le_mul_right (u * m) (Nat.mul_le_mul up up)
  have least₂ := Nat.mul_le_mul_left (u * entry * entry * 2 ^ 28) least
  have most₂ := Nat.mul_le_mul_left (u * entry * entry * 2 ^ 28) most
  have square (n : Nat) : n * r * (n * r) * (u * m) = n * n * d * 2 ^ 31 := by
    calc n * r * (n * r) * (u * m) = n * n * (u * (r * r) * m) := by ring
      _ = n * n * d * 2 ^ 31 := by rw [whole, Nat.mul_assoc (n * n)]
  have entries : entry * 2 ^ 14 * (entry * 2 ^ 14) * (u * m) = u * entry * entry * 2 ^ 28 * m := by
    ring
  have product : u * entry * entry * 2 ^ 28 * (k * 2 ^ 23) = u * k * entry * entry * 2 ^ 51 := by
    ring
  have rest : u * entry * entry * 2 ^ 28 * 2 ^ 23 = u * entry * entry * 2 ^ 51 := by ring
  have next : u * k * (entry + 1) * (entry + 1) =
      u * k * entry * entry + u * k * (2 * entry + 1) := by ring
  have smaller : 256 * (u * entry * entry) ≤ u * k * entry * entry := by
    calc 256 * (u * entry * entry) ≤ k * (u * entry * entry) := Nat.mul_le_mul_right _ low
      _ = u * k * entry * entry := by ring
  have step : u * k * (2 * entry + 1) ≤ 1023 * 262143 := Nat.mul_le_mul (by omega) (by omega)
  rw [square, entries] at down₂
  rw [square, entries] at up₂
  rw [product] at least₂
  rw [Nat.mul_add, product, rest] at most₂
  rw [next] at above
  constructor
  · omega
  · omega

theorem root_index (n s : Nat) (inside : n < 512) :
    (n &&& 0x1fe) ||| (s &&& 1) = n / 2 * 2 + s % 2 := by
  have half : (n &&& 0x1fe) / 2 = n / 2 := by
    rw [Nat.and_div_two]
    exact (Nat.and_two_pow_sub_one_eq_mod _ 8).trans (Nat.mod_eq_of_lt (by omega))
  have even : (n &&& 0x1fe) % 2 = 0 := 
    (Nat.and_mod_two_pow (n := 1)).trans (Nat.and_zero (n % 2 ^ 1))
  have upper : n &&& 0x1fe = 2 ^ 1 * (n / 2) := by omega
  rw [upper, Nat.and_one_is_mod, ← Nat.two_pow_add_eq_or_of_lt (Nat.mod_lt s (by decide))]
  omega

/-- An inverse square root is `2 ^ 31` over the root, up to one part in 512 and the last place. -/
theorem inverseSquareRoot_close {input : BitVec 32} (nonzero : input ≠ 0)
    (least : input.toInt ≠ -32768) :
    ∃ q : Nat, (Vu.inverseSquareRoot input).toInt = signedQuotient input.toInt q ∧
      q * q * magnitude input.toInt < 2 ^ 62 + 2 ^ 54 ∧
      2 ^ 62 < (q + 1) * (q + 1) * magnitude input.toInt + 2 ^ 48 := by
  obtain ⟨positive, leading, isQuotient⟩ := divide_eq nonzero least
    (fun shift index => rspInverseSquareRoots ((index &&& 0x1fe) ||| (shift &&& 1)))
    fun shift => (31 - shift) >>> 1
  refine ⟨_, isQuotient, ?_⟩
  generalize magnitude input.toInt = d at *
  have shift : 31 - d.log2 ≤ 31 := Nat.sub_le _ _
  generalize 31 - d.log2 = s at *
  have upper : d * 2 ^ s / 2 ^ 22 - 512 < 512 := by omega
  have inside : (d * 2 ^ s / 2 ^ 22 - 512) / 2 * 2 + s % 2 < 512 := by omega
  obtain ⟨small, below, above⟩ := inverseSquareRoot_entry inside
  simp only [root_index _ _ upper, Nat.shiftRight_eq_div_pow]
  have isDivisor : rootDivisor ((d * 2 ^ s / 2 ^ 22 - 512) / 2 * 2 + s % 2) =
      (2 - s % 2) * (d * 2 ^ s / 2 ^ 23) := by
    unfold rootDivisor
    rcases Nat.mod_two_eq_zero_or_one s with even | odd
    · rw [if_neg (by omega), even]
      omega
    · rw [if_pos (by omega), odd]
      omega
  have whole : (2 - s % 2) * (2 ^ ((31 - s) / 2 ^ 1) * 2 ^ ((31 - s) / 2 ^ 1)) * (d * 2 ^ s) =
      d * 2 ^ 31 := by
    have square : 2 ^ ((31 - s) / 2 ^ 1) * 2 ^ ((31 - s) / 2 ^ 1) * 2 ^ s =
        2 ^ ((31 - s) / 2 ^ 1 + (31 - s) / 2 ^ 1 + s) := by
      rw [Nat.pow_add, Nat.pow_add]
    rw [Nat.mul_left_comm, Nat.mul_assoc (2 - s % 2), square]
    rcases Nat.mod_two_eq_zero_or_one s with even | odd
    · have places : (31 - s) / 2 ^ 1 + (31 - s) / 2 ^ 1 + s = 30 := by omega
      rw [even, places]
      rfl
    · have places : (31 - s) / 2 ^ 1 + (31 - s) / 2 ^ 1 + s = 31 := by omega
      rw [odd, places, Nat.one_mul]
  have bounds := (rootDivisor_bounds inside).2
  rw [isDivisor] at below above bounds
  exact root_close (Nat.two_pow_pos _) whole (Nat.div_mul_le_self _ _)
    (Nat.lt_div_mul_add (by decide)).le (by omega) bounds small below above

/-! ## Words of two halves -/

theorem toNat_halves (hi lo : BitVec 16) : (hi ++ lo).toNat = hi.toNat * 65536 + lo.toNat := by
  have low := lo.isLt
  rw [BitVec.toNat_append, ← Nat.shiftLeft_add_eq_or_of_lt low, Nat.shiftLeft_eq]

theorem toInt_halves (hi lo : BitVec 16) : (hi ++ lo).toInt = word hi lo := by
  have high := toInt_cases hi
  have low := lo.isLt
  unfold word
  rw [BitVec.toInt_eq_toNat_cond, toNat_halves]
  split_ifs
  · omega
  · omega

theorem word_halves (x : BitVec 32) :
    word ((x >>> 16).setWidth 16) (x.setWidth 16) = x.toInt := by
  have inside := x.isLt
  rw [← toInt_halves]
  refine congrArg BitVec.toInt (BitVec.eq_of_toNat_eq ?_)
  rw [toNat_halves, BitVec.toNat_setWidth, BitVec.toNat_setWidth, BitVec.toNat_ushiftRight,
    Nat.shiftRight_eq_div_pow]
  omega

def IsQuotient (root : Bool) (x y : Int) : Prop :=
  if x = 0 then y = 2147483647
  else if x = -32768 then y = -65536
  else ∃ q : Nat, y = signedQuotient x q ∧
    if root then q * q * magnitude x < 2 ^ 62 + 2 ^ 54 ∧
      2 ^ 62 < (q + 1) * (q + 1) * magnitude x + 2 ^ 48
    else q * magnitude x ≤ 2 ^ 31 + 2 ^ 22 + 2 ^ 6 ∧ 2 ^ 31 < (q + 1) * magnitude x + 2 ^ 15

def division (root : Bool) (input : BitVec 32) : BitVec 32 :=
  match root with
  | false => Vu.reciprocal input
  | true => Vu.inverseSquareRoot input

theorem division_isQuotient (root : Bool) (input : BitVec 32) :
    IsQuotient root input.toInt (division root input).toInt := by
  unfold IsQuotient
  by_cases none : input.toInt = 0
  · have isZero : input = 0 := BitVec.eq_of_toInt_eq none
    rw [if_pos none, isZero]
    have quotient : division root 0 = 0x7fffffff := by
      cases root
      · rw [division, Vu.reciprocal, divide_zero]
      · rw [division, Vu.inverseSquareRoot, divide_zero]
    rw [quotient]
    rfl
  · rw [if_neg none]
    by_cases least : input.toInt = -32768
    · have isLeast : input = 0xffff8000 := BitVec.eq_of_toInt_eq least
      rw [if_pos least, isLeast]
      have quotient : division root 0xffff8000 = 0xffff0000 := by
        cases root
        · rw [division, Vu.reciprocal, divide_least]
        · rw [division, Vu.inverseSquareRoot, divide_least]
      rw [quotient]
      rfl
    · have nonzero : input ≠ 0 := by
        rintro rfl
        exact none rfl
      rw [if_neg least]
      cases root
      · exact reciprocal_close nonzero least
      · exact inverseSquareRoot_close nonzero least

/-! ## The instructions -/

section Instructions
variable {σ : Type}

def highHalf (root : Bool) : Fin 16 → Fin 32 → Fin 8 → Fin 32 → VectorInstruction :=
  if root then .vrsqh else .vrcph

def lowHalf (root : Bool) : Fin 16 → Fin 32 → Fin 8 → Fin 32 → VectorInstruction :=
  if root then .vrsq true else .vrcp true

theorem execute_highHalf (build : Build) (root : Bool) (e : Fin 16) (vd : Fin 32) (de : Fin 8)
    (vt : Fin 32) (s : Rsp σ) :
    s.execute build (highHalf root e vd de vt) =
      s.setVu (s.vu.divideHigh e vd de vt ((s.vu.r vt).call build e)) := by
  cases root
  · rfl
  · rfl

theorem execute_lowHalf (build : Build) (root : Bool) (e : Fin 16) (vd : Fin 32) (de : Fin 8)
    (vt : Fin 32) (s : Rsp σ) :
    s.execute build (lowHalf root e vd de vt) =
      s.setVu (s.vu.setQuotient vd de ((s.vu.r vt).call build e)
        (division root (s.vu.divInput true ((s.vu.r vt).element (Fin.ofNat 8 e))))) := by
  cases root
  · rfl
  · rfl

/-- The high half of a number, its low half and any register give the halves of the quotient. -/
theorem Rsp.divides (build : Build) (root : Bool) (s : Rsp σ) (e e' : Fin 16)
    {hi lo vh vl vz : Fin 32} (de : Fin 8) (loHi : lo ≠ hi) (vlHi : vl ≠ hi) :
    let t := s.executeAll build
      [highHalf root e hi de vh, lowHalf root e lo de vl, highHalf root e' hi de vz]
    IsQuotient root
      (word ((s.vu.r vh).element (Fin.ofNat 8 e)) ((s.vu.r vl).element (Fin.ofNat 8 e)))
      (word ((t.vu.r hi).element de) ((t.vu.r lo).element de)) := by
  intro t
  obtain ⟨s₁, isFirst⟩ : ∃ s₁, s₁ = s.execute build (highHalf root e hi de vh) := ⟨_, rfl⟩
  obtain ⟨s₂, isSecond⟩ : ∃ s₂, s₂ = s₁.execute build (lowHalf root e lo de vl) := ⟨_, rfl⟩
  have isThird : t = s₂.execute build (highHalf root e' hi de vz) := by
    rw [isSecond, isFirst]
    rfl
  have input : s₁.vu.divInput true ((s₁.vu.r vl).element (Fin.ofNat 8 e)) =
      (s.vu.r vh).element (Fin.ofNat 8 e) ++ (s.vu.r vl).element (Fin.ofNat 8 e) := by
    rw [isFirst, execute_highHalf]
    simp [Rsp.setVu, Vu.divideHigh, Vu.setR, Vu.divInput, vlHi]
  have low : (t.vu.r lo).element de = (division root
      ((s.vu.r vh).element (Fin.ofNat 8 e) ++
        (s.vu.r vl).element (Fin.ofNat 8 e))).setWidth 16 := by
    rw [isThird, execute_highHalf, isSecond, execute_lowHalf, input]
    simp [Rsp.setVu, Vu.divideHigh, Vu.setR, Vu.setQuotient, loHi]
  have high : (t.vu.r hi).element de = (division root
      ((s.vu.r vh).element (Fin.ofNat 8 e) ++
        (s.vu.r vl).element (Fin.ofNat 8 e)) >>> 16).setWidth 16 := by
    rw [isThird, execute_highHalf, isSecond, execute_lowHalf, input]
    simp [Rsp.setVu, Vu.divideHigh, Vu.setR, Vu.setQuotient]
  rw [low, high, word_halves, ← toInt_halves]
  exact division_isQuotient root _

theorem Rsp.divides_oneAndAHalf :
    let s : Rsp Unit := ⟨Vu.twoWords, ⟨0, fun _ => 0, ()⟩⟩
    let t := s.executeAll .simd
      [highHalf true 0 2 0 4, lowHalf true 0 1 0 3, highHalf true 0 2 0 0]
    IsQuotient true (word ((s.vu.r 4).element 0) ((s.vu.r 3).element 0))
      (word ((t.vu.r 2).element 0) ((t.vu.r 1).element 0)) :=
  Rsp.divides .simd true _ 0 0 0 (by decide) (by decide)

end Instructions

end N64ModernRuntime.Librecomp
