import N64ModernRuntime.Lib.WriteLog
import N64ModernRuntime.Librecomp.RspMicrocode

/-!
# rsp_vu_impl.hpp: what loads and stores move

A quadword at any address is moved in two parts, and eight registers are transposed by
diagonals that go through rows of the data memory.
-/

set_option autoImplicit false

namespace N64ModernRuntime.Librecomp

open Sse WriteLog

/-! ## Places in the data memory -/

def dmemPlace (address : BitVec 32) (k : Nat) : BitVec 12 :=
  dmemIndex (address + BitVec.ofNat 32 k)

theorem dmemIndex_inj {a b : BitVec 32} :
    dmemIndex a = dmemIndex b ↔ a.toNat % 4096 = b.toNat % 4096 := by
  have swap (x : BitVec 32) : dmemIndex x = x.setWidth 12 ^^^ 3#12 := by
    rw [dmemIndex, BitVec.setWidth_xor]
    rfl
  rw [swap, swap, BitVec.xor_left_inj, ← BitVec.toNat_inj, BitVec.toNat_setWidth,
    BitVec.toNat_setWidth]

theorem dmemPlace_inj {address : BitVec 32} {i j : Nat} :
    dmemPlace address i = dmemPlace address j ↔ i % 4096 = j % 4096 := by
  rw [dmemPlace, dmemPlace, dmemIndex_inj, BitVec.toNat_add, BitVec.toNat_add, BitVec.toNat_ofNat,
    BitVec.toNat_ofNat]
  omega

theorem dmemPlace_add (address : BitVec 32) (i j : Nat) :
    dmemPlace (address + BitVec.ofNat 32 i) j = dmemPlace address (i + j) := by
  rw [dmemPlace, dmemPlace, BitVec.add_assoc, ← BitVec.ofNat_add]

/-! ## Loops over bytes -/

theorem byte_setByte (vt : R128) (i : Fin 16) (value : BitVec 8) :
    (vt.setByte i value).byte = Function.update vt.byte i value := by
  funext j
  simp only [R128.setByte, R128.byte, V128.byte_ofBytes, Fin.rev_inj]
  by_cases here : j = i
  · rw [if_pos here, here, Function.update_self]
  · rw [if_neg here, Function.update_of_ne here]
    rfl

theorem byte_setBytes {ι : Type} (rounds : List ι) (place : ι → Fin 16) (value : ι → BitVec 8)
    (vt : R128) :
    (rounds.foldl (fun vt k => vt.setByte (place k) (value k)) vt).byte =
      writeAll vt.byte (rounds.map fun k => (place k, value k)) := by
  induction rounds generalizing vt with
  | nil => rfl
  | cons k rest ih => rw [List.foldl_cons, ih, byte_setByte, List.map_cons, writeAll_cons]

theorem R128.ext_byte {v w : R128} (same : ∀ i : Fin 16, v.byte i = w.byte i) : v = w := by
  refine V128.ext_byte fun i => ?_
  have here := same i.rev
  rwa [R128.byte, R128.byte, Fin.rev_rev] at here

theorem byte_loadBytes (dmem : Dmem) (vt : R128) {start stop : Nat} (inside : stop ≤ 16)
    (address : BitVec 32) (j : Fin 16) :
    (loadBytes dmem vt start stop address).byte j =
      if start ≤ j.val ∧ j.val < stop then dmem (dmemPlace address (j.val - start))
      else vt.byte j := by
  rw [loadBytes, byte_setBytes]
  split_ifs with here
  · apply writeAll_agree
    · refine ⟨(Fin.ofNat 16 (start + (j.val - start)), _),
        List.mem_map.mpr ⟨j.val - start, List.mem_range.mpr (by omega), rfl⟩, Fin.ext ?_⟩
      simp only [Fin.ofNat]
      omega
    · intro write mem same
      obtain ⟨k, inRange, rfl⟩ := List.mem_map.mp mem
      rw [List.mem_range] at inRange
      have place : (start + k) % 16 = j.val := congrArg Fin.val same
      have round : k = j.val - start := by omega
      rw [round]
      rfl
  · apply writeAll_unwritten
    intro write mem same
    obtain ⟨k, inRange, rfl⟩ := List.mem_map.mp mem
    rw [List.mem_range] at inRange
    have place : (start + k) % 16 = j.val := congrArg Fin.val same
    omega

theorem storeBytes_eq (dmem : Dmem) (start count : Nat) (value : Nat → BitVec 8)
    (address : BitVec 32) : storeBytes dmem start count value address =
      writeAll dmem ((List.range count).map fun k =>
        (dmemPlace address k, value (start + k))) := by
  rw [storeBytes, writeAll, List.foldl_map]
  rfl

/-! ## Quadwords at any address -/

section Quadwords
variable {rs rs' : BitVec 32} {imm imm' : BitVec 8}

theorem toNat_and_15 (x : BitVec 32) : (x &&& 15).toNat = x.toNat % 16 := by
  rw [BitVec.toNat_and]
  exact Nat.and_two_pow_sub_one_eq_mod x.toNat 4

theorem and_not_eq_sub (x m : BitVec 32) : x &&& ~~~m = x - (x &&& m) := by
  have apart : (x &&& ~~~m) &&& (x &&& m) = 0#32 := by
    ext i
    simp
    grind
  have whole : (x &&& ~~~m) + (x &&& m) = x := by
    rw [BitVec.add_eq_or_of_and_eq_zero _ _ apart]
    ext i
    simp
    grind
  exact BitVec.eq_sub_iff_add_eq.mpr whole

theorem toNat_next_and_15 (address : BitVec 32) :
    (address + 16 &&& 15).toNat = address.toNat % 16 := by
  rw [toNat_and_15, BitVec.toNat_add]
  change (address.toNat + 16) % 2 ^ 32 % 16 = _
  omega

theorem toNat_sixteen_sub {x : BitVec 32} {n : Nat} (low : x.toNat = n % 16) :
    (16 - x).toNat = 16 - n % 16 := by
  rw [BitVec.toNat_sub, low]
  change (2 ^ 32 - n % 16 + 16) % 2 ^ 32 = _
  omega

theorem align_next (address : BitVec 32) :
    (address + 16) &&& ~~~15 = address + BitVec.ofNat 32 (16 - address.toNat % 16) := by
  have rest := toNat_and_15 (address + 16)
  have below := address.isLt
  have sixteen : (16 : BitVec 32).toNat = 16 := rfl
  rw [BitVec.toNat_add, sixteen] at rest
  rw [and_not_eq_sub]
  apply BitVec.eq_of_toNat_eq
  rw [BitVec.toNat_sub, rest, BitVec.toNat_add, BitVec.toNat_add, sixteen, BitVec.toNat_ofNat]
  omega

/-- The bytes that `LQV` leaves out are those that `LRV` reads from the next sixteen. -/
theorem byte_lqv_lrv (e : Fin 16) (dmem : Dmem) (vt : R128)
    (next : effectiveAddress rs' imm' 16 = effectiveAddress rs imm 16 + 16) (j : Fin 16) :
    (lrv e dmem rs' imm' (lqv e dmem rs imm vt)).byte j =
      if e.val ≤ j.val then dmem (dmemPlace (effectiveAddress rs imm 16) (j.val - e.val))
      else vt.byte j := by
  rw [lrv, lqv, next]
  generalize effectiveAddress rs imm 16 = address
  have low := toNat_and_15 address
  have low' := toNat_next_and_15 address
  have stop : (16 + BitVec.ofNat 32 e.val - (address &&& 15)).toNat =
      16 + e.val - address.toNat % 16 := by
    rw [BitVec.toNat_sub, BitVec.toNat_add, low, BitVec.toNat_ofNat]
    change (2 ^ 32 - address.toNat % 16 + (16 + e.val % 2 ^ 32) % 2 ^ 32) % 2 ^ 32 = _
    omega
  have start : (16 - ((address + 16 &&& 15) - BitVec.ofNat 32 e.val)).toNat =
      16 + e.val - address.toNat % 16 := by
    rw [BitVec.toNat_sub, BitVec.toNat_sub, low', BitVec.toNat_ofNat]
    change (2 ^ 32 - (2 ^ 32 - e.val % 2 ^ 32 + address.toNat % 16) % 2 ^ 32 + 16) % 2 ^ 32 = _
    omega
  simp only [stop, start, align_next]
  rw [byte_loadBytes _ _ le_rfl, byte_loadBytes _ _ (Nat.min_le_right _ _), dmemPlace_add]
  by_cases right : 16 + e.val - address.toNat % 16 ≤ j.val
  · have place : 16 - address.toNat % 16 + (j.val - (16 + e.val - address.toNat % 16)) =
        j.val - e.val := by omega
    rw [if_pos ⟨right, j.isLt⟩, if_pos (by omega), place]
  · rw [if_neg (by omega)]
    by_cases left : e.val ≤ j.val
    · rw [if_pos (by omega), if_pos left]
    · rw [if_neg (by omega), if_neg left]

theorem sqv_srv_eq (e : Fin 16) (dmem : Dmem) (vt : R128)
    (next : effectiveAddress rs' imm' 16 = effectiveAddress rs imm 16 + 16) :
    srv e vt rs' imm' (sqv e vt rs imm dmem) =
      writeAll dmem ((List.range 16).map fun k =>
        (dmemPlace (effectiveAddress rs imm 16) k, vt.byte (Fin.ofNat 16 (e.val + k)))) := by
  rw [srv, sqv, next]
  generalize effectiveAddress rs imm 16 = address
  have low := toNat_and_15 address
  have low' := toNat_next_and_15 address
  have parts : List.range 16 = List.range (16 - address.toNat % 16) ++
      (List.range (address.toNat % 16)).map (16 - address.toNat % 16 + ·) := by
    rw [← List.range_add]
    congr 1
    omega
  simp only [toNat_sixteen_sub low, toNat_sixteen_sub low', low', align_next]
  rw [storeBytes_eq, storeBytes_eq, ← writeAll_append, parts, List.map_append, List.map_map]
  simp only [Function.comp_def, dmemPlace_add, Nat.add_assoc, Nat.add_comm (16 - _)]

/-- The sixteen bytes from `e` on, around the end of the register, are where `LQV` and `LRV` look
for them, and nothing else is stored. -/
theorem dmem_sqv_srv (e : Fin 16) (dmem : Dmem) (vt : R128)
    (next : effectiveAddress rs' imm' 16 = effectiveAddress rs imm 16 + 16) :
    let stored := srv e vt rs' imm' (sqv e vt rs imm dmem)
    let place := dmemPlace (effectiveAddress rs imm 16)
    (∀ k : Fin 16, stored (place k) = vt.byte (e + k)) ∧
      ∀ i, (∀ k : Fin 16, i ≠ place k) → stored i = dmem i := by
  intro stored place
  rw [show stored = _ from sqv_srv_eq e dmem vt next]
  constructor
  · intro k
    apply writeAll_agree
    · exact ⟨_, List.mem_map.mpr ⟨k, List.mem_range.mpr k.isLt, rfl⟩, rfl⟩
    · intro write mem same
      obtain ⟨k', inRange, rfl⟩ := List.mem_map.mp mem
      rw [List.mem_range] at inRange
      have round := dmemPlace_inj.mp same
      have inside := k.isLt
      refine congrArg vt.byte (Fin.ext ?_)
      change (e.val + k') % 16 = (e.val + k.val) % 16
      omega
  · intro i away
    apply writeAll_unwritten
    intro write mem same
    obtain ⟨k, inRange, rfl⟩ := List.mem_map.mp mem
    exact away ⟨k, List.mem_range.mp inRange⟩ same.symm

/-- A quadword that was stored is loaded back, around the end of the data memory too. -/
theorem quadword_transfers (e e' : Fin 16) (dmem : Dmem) (vt old : R128)
    (next : effectiveAddress rs' imm' 16 = effectiveAddress rs imm 16 + 16) :
    let stored := srv e vt rs' imm' (sqv e vt rs imm dmem)
    let place := dmemPlace (effectiveAddress rs imm 16)
    (∀ k : Fin 16, stored (place k) = vt.byte (e + k)) ∧
      (∀ i, (∀ k : Fin 16, i ≠ place k) → stored i = dmem i) ∧
      ∀ j : Fin 16, (lrv e' stored rs' imm' (lqv e' stored rs imm old)).byte j =
        if e'.val ≤ j.val then vt.byte (e + (j - e')) else old.byte j := by
  intro stored place
  obtain ⟨written, kept⟩ := dmem_sqv_srv e dmem vt next
  refine ⟨written, kept, fun j => ?_⟩
  rw [byte_lqv_lrv _ _ _ next]
  split_ifs with later
  · have round : (j - e').val = j.val - e'.val := Fin.sub_val_of_le later
    rw [← written, round]
  · rfl

theorem quadword_transfers_wrapped :
    let v : R128 := 0x00112233445566778899aabbccddeeff#128
    let stored := srv 3 v 0xffd 1 (sqv 3 v 0xffd 0 fun _ => 0)
    let place := dmemPlace (effectiveAddress 0xffd 0 16)
    (∀ k : Fin 16, stored (place k) = v.byte (3 + k)) ∧
      (∀ i, (∀ k : Fin 16, i ≠ place k) → stored i = 0) ∧
      ∀ j : Fin 16, (lrv 2 stored 0xffd 1 (lqv 2 stored 0xffd 0 (0 : BitVec 128))).byte j =
        if 2 ≤ j.val then v.byte (3 + (j - 2)) else R128.byte (0 : BitVec 128) j :=
  quadword_transfers 3 2 _ _ _ (by decide)

end Quadwords

/-! ## Eight registers and eight rows -/

section Rows
variable {address rs : BitVec 32} {imm : BitVec 8}

theorem toNat_and_7 (x : BitVec 32) : (x &&& 7).toNat = x.toNat % 8 := by
  rw [BitVec.toNat_and]
  exact Nat.and_two_pow_sub_one_eq_mod x.toNat 3

theorem aligned_begin (aligned : address.toNat % 16 = 0) :
    address &&& 7 = 0 ∧ address &&& 8 = 0 ∧ address &&& ~~~7 = address := by
  have low : address &&& 7 = 0 := by
    apply BitVec.eq_of_toNat_eq
    rw [toNat_and_7]
    change _ = 0
    omega
  have next : address &&& 8 = 0 := by
    have all : address &&& 15 = 0 := by
      apply BitVec.eq_of_toNat_eq
      rw [toNat_and_15]
      exact aligned
    have part : (8 : BitVec 32) = 15 &&& 8 := rfl
    rw [part, ← BitVec.and_assoc, all]
    exact BitVec.zero_and
  refine ⟨low, next, ?_⟩
  rw [and_not_eq_sub, low]
  exact BitVec.sub_zero _

theorem stv_eq (e : Fin 16) (vt : Fin 32) (r : Fin 32 → R128) (rs : BitVec 32) (imm : BitVec 8)
    (dmem : Dmem) :
    let address := effectiveAddress rs imm 16
    let even := e.val / 2 * 2
    stv e vt r rs imm dmem = writeAll dmem ((List.range 16).map fun t =>
      (dmemIndex ((address &&& ~~~7) +
          (((address &&& 7) - BitVec.ofNat 32 even + BitVec.ofNat 32 t) &&& 15)),
        (r (blockRegister vt (t / 2))).byte (Fin.ofNat 16 (16 - even + t)))) := rfl

/-- `STV` stores the elements of a diagonal of the eight registers in their own places. -/
theorem dmem_stv (e : Fin 16) (vt : Fin 32) (r : Fin 32 → R128) (dmem : Dmem)
    (isAddress : effectiveAddress rs imm 16 = address) (aligned : address.toNat % 16 = 0) :
    (∀ p : Fin 16, stv e vt r rs imm dmem (dmemPlace address p) =
        (r (blockRegister vt ((p.val / 2 + e.val / 2) % 8))).byte p) ∧
      ∀ i, (∀ p : Fin 16, i ≠ dmemPlace address p) → stv e vt r rs imm dmem i = dmem i := by
  obtain ⟨low, -, begins⟩ := aligned_begin aligned
  have places (t : Nat) (inside : t < 16) :
      dmemIndex ((address &&& ~~~7) +
        (((address &&& 7) - BitVec.ofNat 32 (e.val / 2 * 2) + BitVec.ofNat 32 t) &&& 15)) =
      dmemPlace address ((t + 16 - e.val / 2 * 2) % 16) := by
    rw [begins, low, dmemPlace]
    congr 2
    apply BitVec.eq_of_toNat_eq
    rw [toNat_and_15, BitVec.toNat_add, BitVec.toNat_sub, BitVec.toNat_ofNat, BitVec.toNat_ofNat,
      BitVec.toNat_ofNat]
    change ((2 ^ 32 - e.val / 2 * 2 % 2 ^ 32 + 0) % 2 ^ 32 + t % 2 ^ 32) % 2 ^ 32 % 16 = _
    omega
  rw [stv_eq]
  simp only [isAddress]
  constructor
  · intro p
    apply writeAll_agree
    · refine ⟨_, List.mem_map.mpr ⟨(p.val + e.val / 2 * 2) % 16,
        List.mem_range.mpr (by omega), rfl⟩, ?_⟩
      rw [places _ (by omega), dmemPlace_inj]
      omega
    · intro write mem same
      obtain ⟨t, inRange, rfl⟩ := List.mem_map.mp mem
      rw [List.mem_range] at inRange
      rw [places t inRange, dmemPlace_inj] at same
      have register : t / 2 = (p.val / 2 + e.val / 2) % 8 := by omega
      have byte : Fin.ofNat 16 (16 - e.val / 2 * 2 + t) = p := by
        apply Fin.ext
        change (16 - e.val / 2 * 2 + t) % 16 = p.val
        omega
      simp only [register, byte]
  · intro i away
    apply writeAll_unwritten
    intro write mem same
    obtain ⟨t, inRange, rfl⟩ := List.mem_map.mp mem
    rw [List.mem_range] at inRange
    rw [places t inRange] at same
    exact away ⟨(t + 16 - e.val / 2 * 2) % 16, by omega⟩ same.symm

def ltvRound (dmem : Dmem) (vt : Fin 32) (begins : BitVec 32)
    (state : (Fin 32 → R128) × BitVec 32 × Nat) (i : Fin 8) : (Fin 32 → R128) × BitVec 32 × Nat :=
  let next (address : BitVec 32) : BitVec 32 :=
    if address + 1 = begins + 16 then begins else address + 1
  let here := blockRegister vt state.2.2
  let v := (state.1 here).setByte (Fin.ofNat 16 (i.val * 2 + 0)) (rspMemB dmem state.2.1)
  let v := v.setByte (Fin.ofNat 16 (i.val * 2 + 1)) (rspMemB dmem (next state.2.1))
  (Function.update state.1 here v, next (next state.2.1), (state.2.2 + 1) % 8)

theorem ltv_eq (e : Fin 16) (dmem : Dmem) (rs : BitVec 32) (imm : BitVec 8) (vt : Fin 32)
    (r : Fin 32 → R128) :
    let address := effectiveAddress rs imm 16
    let begins := address &&& ~~~7
    ltv e dmem rs imm vt r = ((List.finRange 8).foldl (ltvRound dmem vt begins)
      (r, begins + ((BitVec.ofNat 32 e.val + (address &&& 8)) &&& 15), e.val / 2)).1 := rfl

theorem next_around (begins : BitVec 32) (t : Nat) :
    (if begins + BitVec.ofNat 32 (t % 16) + 1 = begins + 16 then begins
      else begins + BitVec.ofNat 32 (t % 16) + 1) = begins + BitVec.ofNat 32 ((t + 1) % 16) := by
  have step : begins + BitVec.ofNat 32 (t % 16) + 1 = begins + BitVec.ofNat 32 (t % 16 + 1) := by
    rw [BitVec.ofNat_add, BitVec.add_assoc]
    rfl
  rw [step]
  by_cases last : t % 16 = 15
  · have first : (t + 1) % 16 = 0 := by omega
    rw [last, first]
    exact (if_pos rfl).trans (BitVec.add_zero begins).symm
  · have more : t % 16 + 1 = (t + 1) % 16 := by omega
    rw [if_neg, more]
    intro same
    have end_ := congrArg BitVec.toNat ((BitVec.add_right_inj begins).mp same)
    rw [BitVec.toNat_ofNat] at end_
    change (t % 16 + 1) % 2 ^ 32 = 16 at end_
    omega

/-- What `LTV` has read after a number of rounds. -/
structure LtvRead (e : Fin 16) (dmem : Dmem) (vt : Fin 32) (begins : BitVec 32)
    (r : Fin 32 → R128) (n : Nat) (state : (Fin 32 → R128) × BitVec 32 × Nat) : Prop where
  address : state.2.1 = begins + BitVec.ofNat 32 ((e.val + 2 * n) % 16)
  vtoff : state.2.2 = (e.val / 2 + n) % 8
  byte : ∀ (k : Fin 32) (q : Fin 16), (state.1 k).byte q =
    if k = blockRegister vt ((e.val / 2 + q.val / 2) % 8) ∧ q.val / 2 < n then
      dmem (dmemPlace begins ((e.val + q.val) % 16))
    else (r k).byte q

theorem LtvRead.round {e : Fin 16} {dmem : Dmem} {vt : Fin 32} {begins : BitVec 32}
    {r : Fin 32 → R128} {state : (Fin 32 → R128) × BitVec 32 × Nat} (i : Fin 8)
    (read : LtvRead e dmem vt begins r i state) :
    LtvRead e dmem vt begins r (i + 1) (ltvRound dmem vt begins state i) := by
  have second : begins + BitVec.ofNat 32 ((e.val + 2 * i.val + 1) % 16) =
      begins + BitVec.ofNat 32 ((e.val + (2 * i.val + 1)) % 16) := rfl
  constructor
  · simp only [ltvRound, read.address, next_around]
    rfl
  · simp only [ltvRound, read.vtoff]
    omega
  · intro k q
    have first := i.isLt
    have even : Fin.ofNat 16 (i.val * 2 + 0) = q ↔ q.val = 2 * i.val := by
      rw [Fin.ext_iff]
      change (i.val * 2 + 0) % 16 = q.val ↔ _
      omega
    have odd : Fin.ofNat 16 (i.val * 2 + 1) = q ↔ q.val = 2 * i.val + 1 := by
      rw [Fin.ext_iff]
      change (i.val * 2 + 1) % 16 = q.val ↔ _
      omega
    simp only [ltvRound, read.address, read.vtoff, next_around]
    by_cases here : k = blockRegister vt ((e.val / 2 + i.val) % 8)
    · rw [here, Function.update_self, byte_setByte, byte_setByte]
      by_cases second : q.val = 2 * i.val + 1
      · have round : q.val / 2 = i.val := by omega
        have place : (e.val + 2 * i.val + 1) % 16 = (e.val + q.val) % 16 := by omega
        rw [odd.mpr second, Function.update_self, round, if_pos ⟨rfl, by omega⟩, place]
        rfl
      · rw [Function.update_of_ne (mt (odd.mp ∘ Eq.symm) second)]
        by_cases first : q.val = 2 * i.val
        · have round : q.val / 2 = i.val := by omega
          rw [even.mpr first, Function.update_self, round, if_pos ⟨rfl, by omega⟩, first]
          rfl
        · have other : q.val / 2 < i.val + 1 ↔ q.val / 2 < i.val := by omega
          rw [Function.update_of_ne (mt (even.mp ∘ Eq.symm) first), read.byte]
          simp only [other]
    · rw [Function.update_of_ne here, read.byte]
      have same : (k = blockRegister vt ((e.val / 2 + q.val / 2) % 8) ∧ q.val / 2 < i.val + 1) ↔
          (k = blockRegister vt ((e.val / 2 + q.val / 2) % 8) ∧ q.val / 2 < i.val) := by
        constructor
        · rintro ⟨register, before⟩
          refine ⟨register, ?_⟩
          have other : q.val / 2 ≠ i.val := by
            intro equal
            exact here (equal ▸ register)
          omega
        · rintro ⟨register, before⟩
          exact ⟨register, by omega⟩
      simp only [same]

theorem byte_ltv (e : Fin 16) (dmem : Dmem) (vt : Fin 32) (r : Fin 32 → R128)
    (isAddress : effectiveAddress rs imm 16 = address) (aligned : address.toNat % 16 = 0)
    (k : Fin 32) (q : Fin 16) :
    (ltv e dmem rs imm vt r k).byte q =
      if k = blockRegister vt ((e.val / 2 + q.val / 2) % 8) then
        dmem (dmemPlace address ((e.val + q.val) % 16))
      else (r k).byte q := by
  obtain ⟨-, next, begins⟩ := aligned_begin aligned
  have first : (BitVec.ofNat 32 e.val + (address &&& 8)) &&& 15 =
      BitVec.ofNat 32 ((e.val + 2 * 0) % 16) := by
    apply BitVec.eq_of_toNat_eq
    rw [next, toNat_and_15, BitVec.toNat_add, BitVec.toNat_ofNat, BitVec.toNat_ofNat]
    change (e.val % 2 ^ 32 + 0) % 2 ^ 32 % 16 = _
    omega
  have start : LtvRead e dmem vt address r 0
      (r, address + BitVec.ofNat 32 ((e.val + 2 * 0) % 16), e.val / 2) := by
    refine ⟨rfl, ?_, fun k q => ?_⟩
    · simp only
      omega
    · rw [if_neg fun none => absurd none.2 (Nat.not_lt_zero _)]
  have filled := counted_loop _ _ start fun i _ read => read.round i
  have all : q.val / 2 < 8 := by omega
  rw [ltv_eq]
  simp only [isAddress, begins, first, filled.byte, all, and_true]

end Rows

/-! ## Transposition -/

theorem blockRegister_inj {vt : Fin 32} {i j : Nat} (left : i < 8) (right : j < 8) :
    blockRegister vt i = blockRegister vt j ↔ i = j := by
  have below := vt.isLt
  rw [Fin.ext_iff]
  change (vt.val / 8 * 8 + i) % 32 = (vt.val / 8 * 8 + j) % 32 ↔ i = j
  omega

def Rsp.executeAll {σ : Type} (build : Build) (program : List VectorInstruction) (s : Rsp σ) :
    Rsp σ :=
  program.foldl (fun s i => s.execute build i) s

def storeDiagonals (vt rs : Fin 32) (imm : Fin 8 → BitVec 8) : List VectorInstruction :=
  (List.finRange 8).map fun i => .stv (Fin.ofNat 16 (2 * i.val)) vt rs (imm i)

def loadDiagonals (vt rs : Fin 32) (imm : Fin 8 → BitVec 8) : List VectorInstruction :=
  (List.finRange 8).map fun i => .ltv (Fin.ofNat 16 (16 - 2 * i.val)) vt rs (imm i)

section Transposition
variable {σ : Type} {s : Rsp σ} {vt vt' rs : Fin 32} {imm : Fin 8 → BitVec 8} {address : BitVec 32}

def Rows (s : Rsp σ) (rs : Fin 32) (imm : Fin 8 → BitVec 8) (address : BitVec 32) : Prop :=
  address.toNat % 16 = 0 ∧
    ∀ i, effectiveAddress (s.scalar.r rs) (imm i) 16 = address + BitVec.ofNat 32 (16 * i.val)

theorem Rows.aligned (rows : Rows s rs imm address) (i : Fin 8) :
    (address + BitVec.ofNat 32 (16 * i.val)).toNat % 16 = 0 := by
  have first := rows.1
  rw [BitVec.toNat_add, BitVec.toNat_ofNat]
  omega

structure DiagonalsStored (s : Rsp σ) (vt : Fin 32) (address : BitVec 32) (n : Nat)
    (t : Rsp σ) : Prop where
  vu : t.vu = s.vu
  r : t.scalar.r = s.scalar.r
  row : ∀ i : Fin 8, i.val < n → ∀ p : Fin 16,
    t.scalar.dmem (dmemPlace address (16 * i.val + p.val)) =
      (s.vu.r (blockRegister vt ((p.val / 2 + i.val) % 8))).byte p
  other : ∀ j, (∀ m < 128, j ≠ dmemPlace address m) → t.scalar.dmem j = s.scalar.dmem j

theorem DiagonalsStored.round (build : Build) (rows : Rows s rs imm address) (i : Fin 8)
    {t : Rsp σ} (stored : DiagonalsStored s vt address i t) :
    DiagonalsStored s vt address (i + 1)
      (t.execute build (.stv (Fin.ofNat 16 (2 * i.val)) vt rs (imm i))) := by
  have here : effectiveAddress (t.scalar.r rs) (imm i) 16 =
      address + BitVec.ofNat 32 (16 * i.val) := by
    rw [stored.r]
    exact rows.2 i
  have element : (Fin.ofNat 16 (2 * i.val)).val / 2 = i.val := by
    change 2 * i.val % 16 / 2 = i.val
    omega
  obtain ⟨written, kept⟩ := dmem_stv (Fin.ofNat 16 (2 * i.val)) vt t.vu.r t.scalar.dmem here
    (rows.aligned i)
  simp only [dmemPlace_add, element] at written kept
  constructor
  · exact stored.vu
  · exact stored.r
  · intro j before p
    by_cases same : j = i
    · subst same
      rw [← stored.vu]
      exact written p
    · rw [← stored.row j (by omega) p]
      refine kept _ fun q => ?_
      rw [Ne, dmemPlace_inj]
      omega
  · intro j away
    rw [← stored.other j away]
    exact kept j fun p => away _ (by omega)

theorem diagonals_stored (build : Build) (vt : Fin 32) (rows : Rows s rs imm address) :
    DiagonalsStored s vt address 8 (s.executeAll build (storeDiagonals vt rs imm)) := by
  rw [Rsp.executeAll, storeDiagonals, List.foldl_map]
  refine counted_loop _ _ ⟨rfl, rfl, ?_, fun _ _ => rfl⟩ fun i _ stored => stored.round build rows i
  intro i none
  exact absurd none (Nat.not_lt_zero _)

theorem r_execute_ltv (build : Build) (t : Rsp σ) (e : Fin 16) (vt rs : Fin 32) (imm : BitVec 8) :
    (t.execute build (.ltv e vt rs imm)).vu.r =
      ltv e t.scalar.dmem (t.scalar.r rs) imm vt t.vu.r := rfl

/-- What the loads leave in the registers after a number of rows of `s` that `stored` holds. -/
structure DiagonalsLoaded (s stored : Rsp σ) (vt vt' : Fin 32) (n : Nat) (t : Rsp σ) : Prop where
  scalar : t.scalar = stored.scalar
  byte : ∀ (c : Fin 8) (q : Fin 16), (t.vu.r (blockRegister vt' c)).byte q =
    if (q.val / 2 + 8 - c.val) % 8 < n then
      (s.vu.r (blockRegister vt (q.val / 2))).byte (Fin.ofNat 16 (2 * c.val + q.val % 2))
    else (stored.vu.r (blockRegister vt' c)).byte q
  other : ∀ k, (∀ c : Fin 8, k ≠ blockRegister vt' c) → t.vu.r k = stored.vu.r k

theorem DiagonalsLoaded.round (build : Build) {stored t : Rsp σ} (rows : Rows s rs imm address)
    (row : DiagonalsStored s vt address 8 stored) (i : Fin 8)
    (loaded : DiagonalsLoaded s stored vt vt' i t) :
    DiagonalsLoaded s stored vt vt' (i + 1)
      (t.execute build (.ltv (Fin.ofNat 16 (16 - 2 * i.val)) vt' rs (imm i))) := by
  have here : effectiveAddress (t.scalar.r rs) (imm i) 16 =
      address + BitVec.ofNat 32 (16 * i.val) := by
    rw [loaded.scalar, row.r]
    exact rows.2 i
  have element : (Fin.ofNat 16 (16 - 2 * i.val)).val = (16 - 2 * i.val) % 16 := rfl
  have read := byte_ltv (Fin.ofNat 16 (16 - 2 * i.val)) t.scalar.dmem vt' t.vu.r here
    (rows.aligned i)
  simp only [dmemPlace_add, element] at read
  have inside := i.isLt
  constructor
  · exact loaded.scalar
  · intro c q
    have register := c.isLt
    rw [r_execute_ltv, read, loaded.byte]
    simp only [blockRegister_inj register (Nat.mod_lt _ (show 0 < 8 by decide))]
    by_cases now : (q.val / 2 + 8 - c.val) % 8 = i.val
    · have turn : c.val = ((16 - 2 * i.val) % 16 / 2 + q.val / 2) % 8 := by omega
      have stored := row.row i inside ⟨((16 - 2 * i.val) % 16 + q.val) % 16, by omega⟩
      have column : (((16 - 2 * i.val) % 16 + q.val) % 16 / 2 + i.val) % 8 = q.val / 2 := by omega
      have byte : (⟨((16 - 2 * i.val) % 16 + q.val) % 16, by omega⟩ : Fin 16) =
          Fin.ofNat 16 (2 * c.val + q.val % 2) := by
        apply Fin.ext
        change ((16 - 2 * i.val) % 16 + q.val) % 16 = (2 * c.val + q.val % 2) % 16
        omega
      simp only [column] at stored
      rw [if_pos turn, if_pos (by omega), loaded.scalar, stored, byte]
    · have turn : c.val ≠ ((16 - 2 * i.val) % 16 / 2 + q.val / 2) % 8 := by omega
      have before : (q.val / 2 + 8 - c.val) % 8 < i.val + 1 ↔
          (q.val / 2 + 8 - c.val) % 8 < i.val := by omega
      rw [if_neg turn]
      simp only [before]
  · intro k away
    refine R128.ext_byte fun q => ?_
    rw [r_execute_ltv, read, if_neg (away ⟨_, Nat.mod_lt _ (by decide)⟩), loaded.other k away]

theorem element_eq_of_byte {v w : R128} {n c : Fin 8}
    (same : ∀ b < 2,
      v.byte (Fin.ofNat 16 (2 * n.val + b)) = w.byte (Fin.ofNat 16 (2 * c.val + b))) :
    v.element n = w.element c := by
  refine BitVec.eq_of_getLsbD_eq fun j inside => ?_
  have place (k : Fin 8) : (⟨2 * k.rev.val + j / 8, by omega⟩ : Fin 16) =
      (Fin.ofNat 16 (2 * k.val + (1 - j / 8))).rev := by
    apply Fin.ext
    change 2 * (8 - (k.val + 1)) + j / 8 = 16 - ((2 * k.val + (1 - j / 8)) % 16 + 1)
    omega
  have half := same (1 - j / 8) (by omega)
  rw [R128.element, R128.element, V128.getLsbD_lane v n.rev inside,
    V128.getLsbD_lane w c.rev inside, place, place]
  exact congrArg (fun x => BitVec.getLsbD x (j % 8)) half

theorem Rsp.executeAll_append (build : Build) (first second : List VectorInstruction) :
    s.executeAll build (first ++ second) = (s.executeAll build first).executeAll build second :=
  List.foldl_append

theorem diagonals_loaded (build : Build) (vt' : Fin 32) {stored : Rsp σ}
    (rows : Rows s rs imm address) (row : DiagonalsStored s vt address 8 stored) :
    DiagonalsLoaded s stored vt vt' 8 (stored.executeAll build (loadDiagonals vt' rs imm)) := by
  rw [Rsp.executeAll, loadDiagonals, List.foldl_map]
  refine counted_loop _ _ ⟨rfl, ?_, fun _ _ => rfl⟩ fun i _ loaded =>
    loaded.round build rows row i
  intro c q
  rw [if_neg (Nat.not_lt_zero _)]

/-- Eight registers that are stored by diagonals and loaded back are transposed. -/
theorem Rsp.transposes (build : Build) (vt vt' : Fin 32) (rows : Rows s rs imm address) :
    let t := s.executeAll build (storeDiagonals vt rs imm ++ loadDiagonals vt' rs imm)
    (∀ c n : Fin 8, (t.vu.r (blockRegister vt' c)).element n =
        (s.vu.r (blockRegister vt n)).element c) ∧
      (∀ k, (∀ c : Fin 8, k ≠ blockRegister vt' c) → t.vu.r k = s.vu.r k) ∧
      ∀ j, (∀ m < 128, j ≠ dmemPlace address m) → t.scalar.dmem j = s.scalar.dmem j := by
  intro t
  have stored := diagonals_stored build vt rows
  have loaded := diagonals_loaded build vt' rows stored
  rw [← Rsp.executeAll_append] at loaded
  refine ⟨fun c n => ?_, fun k away => ?_, fun j away => ?_⟩
  · refine element_eq_of_byte fun b low => ?_
    have column : (Fin.ofNat 16 (2 * n.val + b)).val / 2 = n.val := by
      change (2 * n.val + b) % 16 / 2 = n.val
      omega
    have half : (Fin.ofNat 16 (2 * n.val + b)).val % 2 = b := by
      change (2 * n.val + b) % 16 % 2 = b
      omega
    rw [loaded.byte, if_pos (Nat.mod_lt _ (by decide)), column, half]
  · rw [loaded.other k away, stored.vu]
  · rw [loaded.scalar, stored.other j away]

theorem Rsp.transposes_diagonals :
    let s : Rsp Unit := ⟨.ofRegisters fun k => R128.ofElements fun n => BitVec.ofNat 16 (8 * k + n),
      ⟨0, fun _ => 0, ()⟩⟩
    let imm : Fin 8 → BitVec 8 := fun i => BitVec.ofNat 8 i
    let t := s.executeAll .simd (storeDiagonals 8 1 imm ++ loadDiagonals 16 1 imm)
    (∀ c n : Fin 8, (t.vu.r (blockRegister 16 c)).element n =
        (s.vu.r (blockRegister 8 n)).element c) ∧
      (∀ k, (∀ c : Fin 8, k ≠ blockRegister 16 c) → t.vu.r k = s.vu.r k) ∧
      ∀ j, (∀ m < 128, j ≠ dmemPlace 0 m) → t.scalar.dmem j = s.scalar.dmem j :=
  Rsp.transposes .simd 8 16 ⟨by decide, by decide⟩

end Transposition

end N64ModernRuntime.Librecomp
