import N64ModernRuntime.Lib.SwappedWords

/-!
# recomp.cpp: the byte order of a ROM

`check_rom_start`, `byteswap_data` and `select_rom`.  A byte outside of a buffer
is no byte: what reads or writes one has no result.
-/

set_option autoImplicit false

namespace N64ModernRuntime.Librecomp

def firstRomBytes : List UInt8 := [0x80, 0x37, 0x12, 0x40]

inductive ByteswapType where
  | notByteswapped
  | byteswapped4
  | byteswapped2
  | invalid
  deriving DecidableEq, Repr

/-- The first four bytes are those of the magic value in the order `a`, `b`, `c`, `d`. -/
def StartsInOrder (romData : List UInt8) (a b c d : Nat) : Prop :=
  romData[0]? = firstRomBytes[a]? ∧ romData[1]? = firstRomBytes[b]? ∧
    romData[2]? = firstRomBytes[c]? ∧ romData[3]? = firstRomBytes[d]?

instance (romData : List UInt8) (a b c d : Nat) : Decidable (StartsInOrder romData a b c d) :=
  inferInstanceAs (Decidable (_ ∧ _ ∧ _ ∧ _))

def checkRomStart (romData : List UInt8) : ByteswapType :=
  if romData.length < 4 then .invalid
  else if StartsInOrder romData 0 1 2 3 then .notByteswapped
  else if StartsInOrder romData 3 2 1 0 then .byteswapped4
  else if StartsInOrder romData 1 0 3 2 then .byteswapped2
  else .invalid

/-- `rom_data[i] = b` -/
def storeByte (romData : List UInt8) (i : Nat) (b : UInt8) : Option (List UInt8) :=
  if i < romData.length then some (romData.set i b) else none

/-- One turn of the loop of `byteswap_data`. -/
def byteswapWord (indexXor pos : Nat) (romData : List UInt8) : Option (List UInt8) := do
  let b0 ← romData[pos + 0]?
  let b1 ← romData[pos + 1]?
  let b2 ← romData[pos + 2]?
  let b3 ← romData[pos + 3]?
  let romData ← storeByte romData (pos + (0 ^^^ indexXor)) b0
  let romData ← storeByte romData (pos + (1 ^^^ indexXor)) b1
  let romData ← storeByte romData (pos + (2 ^^^ indexXor)) b2
  storeByte romData (pos + (3 ^^^ indexXor)) b3

/-- `pos` runs over the multiples of four below the size. -/
def byteswapData (romData : List UInt8) (indexXor : Nat) : Option (List UInt8) :=
  (List.range ((romData.length + 3) / 4)).foldlM
    (fun romData k => byteswapWord indexXor (4 * k) romData) romData

/-- The switch of `select_rom`.  There is no image where it returns `NotARom`. -/
def undoSwap (romData : List UInt8) : Option (Option (List UInt8)) :=
  match checkRomStart romData with
  | .invalid => some none
  | .byteswapped2 => (byteswapData romData 1).map some
  | .byteswapped4 => (byteswapData romData 3).map some
  | .notByteswapped => some (some romData)

inductive RomValidationError where
  | good
  | failedToOpen
  | notARom
  | incorrectRom
  | notYet
  | incorrectVersion
  | otherError
  deriving DecidableEq, Repr

/-- What `select_rom` reads of a `GameEntry`. -/
structure GameEntry where
  romHash : UInt64
  internalName : List UInt8
  gameId : List UInt8
  isEnabled : Bool

/-- `game_id + u8".z64"` -/
def GameEntry.storedFilename (entry : GameEntry) : List UInt8 :=
  entry.gameId ++ [0x2E, 0x7A, 0x36, 0x34]

/-- `rom_data.resize((rom_data.size() + 3) & ~3)` -/
def resizeToWords (romData : List UInt8) : List UInt8 :=
  romData ++ List.replicate ((romData.length + 3) / 4 * 4 - romData.length) 0

/-- `string_view{data + 0x20, size} == internal_name`: bytes are read if the sizes are equal. -/
def nameIs (romData internalName : List UInt8) (size : Nat) : Option Bool :=
  if size = internalName.length then
    if 0x20 + size ≤ romData.length then
      some (decide ((romData.drop 0x20).take size = internalName))
    else none
  else some false

/-- What `select_rom` returns where the hash of the native image is wrong. -/
def wrongHash (entry : GameEntry) (romData : List UInt8) : Option RomValidationError := do
  if ← nameIs romData entry.internalName entry.internalName.length then
    return .incorrectVersion
  if entry.isEnabled then
    if ← nameIs romData entry.internalName 19 then
      return .notYet
  return .incorrectRom

/-- The end of `select_rom`, with the name and content of the file that it writes.  `hash`
is `XXH3_64bits`. -/
def storeIfHashed (hash : List UInt8 → UInt64) (entry : GameEntry) (romData : List UInt8) :
    Option (RomValidationError × Option (List UInt8 × List UInt8)) :=
  if hash romData = entry.romHash then some (.good, some (entry.storedFilename, romData))
  else (wrongHash entry romData).map fun error => (error, none)

/-- `select_rom` for the content of the file, which is empty if it cannot be opened. -/
def selectRom (gameRoms : List UInt8 → Option GameEntry) (hash : List UInt8 → UInt64)
    (file gameId : List UInt8) : Option (RomValidationError × Option (List UInt8 × List UInt8)) :=
  match gameRoms gameId with
  | none => some (.otherError, none)
  | some entry =>
      if file = [] then some (.failedToOpen, none)
      else
        (undoSwap (resizeToWords file)).bind fun
          | none => some (.notARom, none)
          | some romData => storeIfHashed hash entry romData

/-! ## The loop -/

def swappedByte (indexXor : Nat) (romData : List UInt8) (p : Nat) : Option UInt8 :=
  romData[p ^^^ indexXor]?

section Loop

variable {indexXor : Nat} {romData : List UInt8}

theorem storeByte_eq {i : Nat} (inside : i < romData.length) (b : UInt8) :
    storeByte romData i b = some (romData.set i b) := if_pos inside

theorem xor_small {i : Nat} (small : i < 4) (index : indexXor < 4) : i ^^^ indexXor < 4 :=
  Nat.xor_lt_two_pow (n := 2) small index

theorem xor_twice (i x : Nat) : i ^^^ x ^^^ x = i := by
  rw [Nat.xor_assoc, Nat.xor_self, Nat.xor_zero]

theorem swappedByte_in_word (index : indexXor < 4) (k : Nat) {i : Nat} (small : i < 4) :
    swappedByte indexXor romData (4 * k + i) = romData[4 * k + (i ^^^ indexXor)]? := by
  rw [swappedByte, SwappedWords.xor_in_word k small index]

theorem getElem?_four_sets (romData : List UInt8) (pos : Nat) {o0 o1 o2 o3 : Nat} (b0 b1 b2 b3 : UInt8)
    (apart : [o0, o1, o2, o3].Nodup) (inside : ∀ o ∈ [o0, o1, o2, o3], pos + o < romData.length) :
    let after :=
      (((romData.set (pos + o0) b0).set (pos + o1) b1).set (pos + o2) b2).set (pos + o3) b3
    (after[pos + o0]? = some b0 ∧ after[pos + o1]? = some b1 ∧ after[pos + o2]? = some b2 ∧
      after[pos + o3]? = some b3) ∧
    ∀ p, (∀ o ∈ [o0, o1, o2, o3], p ≠ pos + o) → after[p]? = romData[p]? := by
  simp only [List.mem_cons, List.not_mem_nil, or_false, forall_eq_or_imp, forall_eq] at inside ⊢
  simp only [List.nodup_cons, List.mem_cons, List.not_mem_nil, or_false, not_or] at apart
  simp only [List.getElem?_set, List.length_set]
  refine ⟨⟨?_, ?_, ?_, ?_⟩, fun p away => ?_⟩ <;> grind

theorem byteswapWord_getElem? (romData : List UInt8) (index : indexXor < 4) (k : Nat)
    (inside : 4 * k + 4 ≤ romData.length) :
    ∃ after, byteswapWord indexXor (4 * k) romData = some after ∧
      after.length = romData.length ∧
      ∀ p, after[p]? =
        if 4 * k ≤ p ∧ p < 4 * k + 4 then swappedByte indexXor romData p else romData[p]? := by
  have byte {i : Nat} (small : i < 4) : ∃ b, romData[4 * k + i]? = some b :=
    ⟨romData[4 * k + i], List.getElem?_eq_getElem (by omega)⟩
  obtain ⟨b0, read0⟩ := byte (i := 0) (by decide)
  obtain ⟨b1, read1⟩ := byte (i := 1) (by decide)
  obtain ⟨b2, read2⟩ := byte (i := 2) (by decide)
  obtain ⟨b3, read3⟩ := byte (i := 3) (by decide)
  have bound {i : Nat} (small : i < 4) : 4 * k + (i ^^^ indexXor) < romData.length := by
    have := xor_small small index
    omega
  have run : byteswapWord indexXor (4 * k) romData =
      some ((((romData.set (4 * k + (0 ^^^ indexXor)) b0).set (4 * k + (1 ^^^ indexXor)) b1).set
        (4 * k + (2 ^^^ indexXor)) b2).set (4 * k + (3 ^^^ indexXor)) b3) := by
    simp only [byteswapWord, read0, read1, read2, read3, Option.bind_eq_bind, Option.bind_some]
    rw [storeByte_eq (bound (by decide)), Option.bind_some,
      storeByte_eq (by rw [List.length_set]; exact bound (by decide)), Option.bind_some,
      storeByte_eq (by rw [List.length_set, List.length_set]; exact bound (by decide)),
      Option.bind_some, storeByte_eq]
    rw [List.length_set, List.length_set, List.length_set]
    exact bound (by decide)
  have apart : ∀ x < 4, [0 ^^^ x, 1 ^^^ x, 2 ^^^ x, 3 ^^^ x].Nodup := by decide
  obtain ⟨⟨at0, at1, at2, at3⟩, frame⟩ := getElem?_four_sets romData (4 * k) b0 b1
    b2 b3 (apart indexXor index) (by
      simp only [List.mem_cons, List.not_mem_nil, or_false, forall_eq_or_imp, forall_eq]
      exact ⟨bound (by decide), bound (by decide), bound (by decide), bound (by decide)⟩)
  refine ⟨_, run, by simp only [List.length_set], fun p => ?_⟩
  by_cases within : 4 * k ≤ p ∧ p < 4 * k + 4
  · obtain ⟨j, small, rfl⟩ : ∃ j < 4, p = 4 * k + j := ⟨p - 4 * k, by omega, by omega⟩
    rw [if_pos within, swappedByte_in_word index k small]
    -- the byte comes from the offset that the store with this index brought here
    obtain ⟨i, source, rfl⟩ : ∃ i < 4, j = i ^^^ indexXor :=
      ⟨j ^^^ indexXor, xor_small small index, (xor_twice j indexXor).symm⟩
    rw [xor_twice]
    have offsets : i = 0 ∨ i = 1 ∨ i = 2 ∨ i = 3 := by omega
    rcases offsets with rfl | rfl | rfl | rfl
    · rw [at0, read0]
    · rw [at1, read1]
    · rw [at2, read2]
    · rw [at3, read3]
  · rw [if_neg within]
    apply frame
    simp only [List.mem_cons, List.not_mem_nil, or_false, forall_eq_or_imp, forall_eq]
    have off {i : Nat} (small : i < 4) : p ≠ 4 * k + (i ^^^ indexXor) := by
      have := xor_small small index
      omega
    exact ⟨off (by decide), off (by decide), off (by decide), off (by decide)⟩

theorem byteswap_words (romData : List UInt8) (index : indexXor < 4) (n : Nat) (inside : 4 * n ≤ romData.length) :
    ∃ after, (List.range n).foldlM (fun romData k => byteswapWord indexXor (4 * k) romData)
        romData = some after ∧ after.length = romData.length ∧
      ∀ p, after[p]? = if p < 4 * n then swappedByte indexXor romData p else romData[p]? := by
  induction n with
  | zero => exact ⟨romData, rfl, rfl, fun p => (if_neg (by omega)).symm⟩
  | succ n ih =>
      obtain ⟨before, run, same, bytes⟩ := ih (by omega)
      obtain ⟨after, turn, same', bytes'⟩ :=
        byteswapWord_getElem? before index n (by omega)
      refine ⟨after, ?_, by omega, fun p => ?_⟩
      · rw [List.range_succ, List.foldlM_append, run]
        simp only [Option.bind_eq_bind, Option.bind_some, List.foldlM_cons, List.foldlM_nil, turn]
        rfl
      rw [bytes']
      by_cases within : 4 * n ≤ p ∧ p < 4 * n + 4
      · obtain ⟨j, small, rfl⟩ : ∃ j < 4, p = 4 * n + j := ⟨p - 4 * n, by omega, by omega⟩
        rw [if_pos within, if_pos (by omega), swappedByte_in_word index n small,
          swappedByte_in_word index n small, bytes, if_neg (by omega)]
      · rw [if_neg within, bytes]
        by_cases below : p < 4 * n
        · rw [if_pos below, if_pos (by omega)]
        · rw [if_neg below, if_neg (by omega)]

theorem byteswapData_getElem? (romData : List UInt8) (index : indexXor < 4) (whole : 4 ∣ romData.length) :
    ∃ after, byteswapData romData indexXor = some after ∧ after.length = romData.length ∧
      ∀ p, after[p]? = swappedByte indexXor romData p := by
  obtain ⟨n, size⟩ := whole
  have turns : (romData.length + 3) / 4 = n := by omega
  obtain ⟨after, run, same, bytes⟩ := byteswap_words romData index n (by omega)
  refine ⟨after, by rw [byteswapData, turns, run], same, fun p => ?_⟩
  rw [bytes]
  by_cases below : p < 4 * n
  · rw [if_pos below]
  · obtain ⟨k, j, small, rfl⟩ : ∃ k j, j < 4 ∧ p = 4 * k + j :=
      ⟨p / 4, p % 4, Nat.mod_lt _ (by decide), (Nat.div_add_mod p 4).symm⟩
    rw [if_neg below, swappedByte_in_word index k small, List.getElem?_eq_none (by omega),
      List.getElem?_eq_none (by omega)]

theorem byteswapData_of_order {dump : List UInt8} (index : indexXor < 4)
    (whole : 4 ∣ dump.length) (order : ∀ p, dump[p]? = swappedByte indexXor romData p) :
    byteswapData dump indexXor = some romData := by
  obtain ⟨after, run, _, bytes⟩ := byteswapData_getElem? dump index whole
  have same : after = romData := by
    apply List.ext_getElem?
    intro p
    rw [bytes, swappedByte, order, swappedByte, xor_twice]
  rw [run, same]

/-- `byteswap_data` is its own inverse. -/
theorem byteswapData_twice (index : indexXor < 4) (whole : 4 ∣ romData.length) :
    (byteswapData romData indexXor).bind (byteswapData · indexXor) = some romData := by
  obtain ⟨after, run, same, bytes⟩ := byteswapData_getElem? romData index whole
  rw [run, Option.bind_some]
  exact byteswapData_of_order index (same ▸ whole) bytes

end Loop

/-! ## Dumps -/

/-- A dump with the two bytes of each halfword exchanged. -/
def halfwordSwapped : List UInt8 → List UInt8
  | a :: b :: rest => b :: a :: halfwordSwapped rest
  | rest => rest

/-- A dump with the four bytes of each word in reverse. -/
def wordReversed : List UInt8 → List UInt8
  | a :: b :: c :: d :: rest => d :: c :: b :: a :: wordReversed rest
  | rest => rest

theorem halfwordSwapped_getElem? (image : List UInt8) (whole : 2 ∣ image.length) (p : Nat) :
    (halfwordSwapped image)[p]? = swappedByte 1 image p := by
  induction image using halfwordSwapped.induct generalizing p with
  | case1 a b rest ih =>
      have shorter : 2 ∣ rest.length := by
        simp only [List.length_cons] at whole
        omega
      match p with
      | 0 => rfl
      | 1 => rfl
      | p + 2 =>
          have next : (p + 2) ^^^ 1 = (p ^^^ 1) + 2 := SwappedWords.xor_next_unit 1 p (by decide)
          simp only [halfwordSwapped, swappedByte, next, List.getElem?_cons_succ]
          exact ih shorter p
  | case2 rest short =>
      rcases rest with _ | ⟨a, _ | ⟨b, rest⟩⟩
      · rfl
      · simp only [List.length_cons, List.length_nil] at whole
        omega
      · exact absurd rfl (short a b rest)

theorem wordReversed_getElem? (image : List UInt8) (whole : 4 ∣ image.length) (p : Nat) :
    (wordReversed image)[p]? = swappedByte 3 image p := by
  induction image using wordReversed.induct generalizing p with
  | case1 a b c d rest ih =>
      have shorter : 4 ∣ rest.length := by
        simp only [List.length_cons] at whole
        omega
      match p with
      | 0 => rfl
      | 1 => rfl
      | 2 => rfl
      | 3 => rfl
      | p + 4 =>
          have next : (p + 4) ^^^ 3 = (p ^^^ 3) + 4 := SwappedWords.xor_next_unit 2 p (by decide)
          simp only [wordReversed, swappedByte, next, List.getElem?_cons_succ]
          exact ih shorter p
  | case2 rest short =>
      rcases rest with _ | ⟨a, _ | ⟨b, _ | ⟨c, _ | ⟨d, rest⟩⟩⟩⟩
      · rfl
      · simp only [List.length_cons, List.length_nil] at whole
        omega
      · simp only [List.length_cons, List.length_nil] at whole
        omega
      · simp only [List.length_cons, List.length_nil] at whole
        omega
      · exact absurd rfl (short a b c d rest)

theorem length_halfwordSwapped (image : List UInt8) :
    (halfwordSwapped image).length = image.length := by
  fun_induction halfwordSwapped image with
  | case1 a b rest ih => rw [List.length_cons, List.length_cons, ih]; rfl
  | case2 rest short => rfl

theorem length_wordReversed (image : List UInt8) : (wordReversed image).length = image.length := by
  fun_induction wordReversed image with
  | case1 a b c d rest ih =>
      rw [List.length_cons, List.length_cons, List.length_cons, List.length_cons, ih]
      rfl
  | case2 rest short => rfl

structure NativeImage (image : List UInt8) : Prop where
  whole : 4 ∣ image.length
  magic : firstRomBytes <+: image

namespace NativeImage

variable {image : List UInt8}

theorem check_native (native : NativeImage image) : checkRomStart image = .notByteswapped := by
  obtain ⟨rest, rfl⟩ := native.magic
  rfl

theorem check_halfwordSwapped (native : NativeImage image) :
    checkRomStart (halfwordSwapped image) = .byteswapped2 := by
  obtain ⟨rest, rfl⟩ := native.magic
  rfl

theorem check_wordReversed (native : NativeImage image) :
    checkRomStart (wordReversed image) = .byteswapped4 := by
  obtain ⟨rest, rfl⟩ := native.magic
  rfl

theorem byteswap_halfwordSwapped (native : NativeImage image) :
    byteswapData (halfwordSwapped image) 1 = some image := by
  apply byteswapData_of_order (by decide)
  · rw [length_halfwordSwapped]
    exact native.whole
  · exact halfwordSwapped_getElem? image (Nat.dvd_trans (by decide) native.whole)

theorem byteswap_wordReversed (native : NativeImage image) :
    byteswapData (wordReversed image) 3 = some image := by
  apply byteswapData_of_order (by decide)
  · rw [length_wordReversed]
    exact native.whole
  · exact wordReversed_getElem? image native.whole

end NativeImage

def IsDump (image dump : List UInt8) : Prop :=
  dump = image ∨ dump = halfwordSwapped image ∨ dump = wordReversed image

theorem NativeImage.undoSwap_dump {image dump : List UInt8} (native : NativeImage image)
    (is : IsDump image dump) : undoSwap dump = some (some image) := by
  rcases is with rfl | rfl | rfl
  · rw [undoSwap, native.check_native]
  · rw [undoSwap, native.check_halfwordSwapped]
    simp only [native.byteswap_halfwordSwapped, Option.map_some]
  · rw [undoSwap, native.check_wordReversed]
    simp only [native.byteswap_wordReversed, Option.map_some]

theorem rom_order_normalised {image : List UInt8} (native : NativeImage image) :
    checkRomStart image = .notByteswapped ∧
      checkRomStart (halfwordSwapped image) = .byteswapped2 ∧
      checkRomStart (wordReversed image) = .byteswapped4 ∧
      byteswapData (halfwordSwapped image) 1 = some image ∧
      byteswapData (wordReversed image) 3 = some image ∧
      (∀ dump, IsDump image dump → undoSwap dump = some (some image)) ∧
      ∀ indexXor, indexXor = 1 ∨ indexXor = 3 → ∀ buffer : List UInt8, 4 ∣ buffer.length →
        (byteswapData buffer indexXor).bind (byteswapData · indexXor) = some buffer := by
  refine ⟨native.check_native, native.check_halfwordSwapped, native.check_wordReversed,
    native.byteswap_halfwordSwapped, native.byteswap_wordReversed,
    fun dump is => native.undoSwap_dump is, ?_⟩
  intro indexXor which buffer whole
  have index : indexXor < 4 := by omega
  exact byteswapData_twice index whole

theorem two_words_normalised :
    undoSwap [0x37, 0x80, 0x40, 0x12, 0x02, 0x01, 0x04, 0x03] =
      some (some [0x80, 0x37, 0x12, 0x40, 0x01, 0x02, 0x03, 0x04]) := by
  have native : NativeImage [0x80, 0x37, 0x12, 0x40, 0x01, 0x02, 0x03, 0x04] :=
    ⟨by decide, [0x01, 0x02, 0x03, 0x04], rfl⟩
  exact (rom_order_normalised native).2.2.2.2.2.1 _ (Or.inr (Or.inl rfl))

/-! ## select_rom -/

section SelectRom

variable (gameRoms : List UInt8 → Option GameEntry) (hash : List UInt8 → UInt64)
  (gameId : List UInt8)

theorem resizeToWords_whole {romData : List UInt8} (whole : 4 ∣ romData.length) :
    resizeToWords romData = romData := by
  obtain ⟨n, size⟩ := whole
  have none : (romData.length + 3) / 4 * 4 - romData.length = 0 := by omega
  rw [resizeToWords, none, List.replicate_zero, List.append_nil]

theorem IsDump.length {image dump : List UInt8} (is : IsDump image dump) :
    dump.length = image.length := by
  rcases is with rfl | rfl | rfl
  · rfl
  · exact length_halfwordSwapped image
  · exact length_wordReversed image

/-- Every dump of an image is judged as the image. -/
theorem selectRom_dump {image dump : List UInt8} {entry : GameEntry} (native : NativeImage image)
    (is : IsDump image dump) (known : gameRoms gameId = some entry) :
    selectRom gameRoms hash dump gameId = storeIfHashed hash entry image := by
  have size := is.length
  have some_bytes : dump ≠ [] := by
    obtain ⟨rest, rfl⟩ := native.magic
    rintro rfl
    cases size
  rw [selectRom, known]
  simp only [if_neg some_bytes, resizeToWords_whole (size ▸ native.whole : 4 ∣ dump.length),
    native.undoSwap_dump is, Option.bind_some]

/-- A dump of the game's ROM is accepted, and its native image is stored. -/
theorem selectRom_good {image dump : List UInt8} {entry : GameEntry} (native : NativeImage image)
    (is : IsDump image dump) (known : gameRoms gameId = some entry)
    (hashed : hash image = entry.romHash) :
    selectRom gameRoms hash dump gameId = some (.good, some (entry.storedFilename, image)) := by
  rw [selectRom_dump gameRoms hash gameId native is known, storeIfHashed, if_pos hashed]

/-- The names of 19 bytes have been compared before: `NotYet` is never returned. -/
theorem wrongHash_ne_notYet (entry : GameEntry) (romData : List UInt8) :
    wrongHash entry romData ≠ some .notYet := by
  unfold wrongHash
  cases first : nameIs romData entry.internalName entry.internalName.length with
  | none =>
      intro result
      cases result
  | some same =>
      cases same with
      | true =>
          intro result
          cases result
      | false =>
          -- a name of another length is not compared, and one of 19 bytes is the same comparison
          have second : nameIs romData entry.internalName 19 = some false := by
            by_cases size : 19 = entry.internalName.length
            · rw [size]
              exact first
            · exact if_neg size
          rw [second]
          cases entry.isEnabled with
          | true =>
              intro result
              cases result
          | false =>
              intro result
              cases result

theorem selectRom_ne_notYet (file : List UInt8) (written : Option (List UInt8 × List UInt8)) :
    selectRom gameRoms hash file gameId ≠ some (.notYet, written) := by
  intro result
  unfold selectRom at result
  cases known : gameRoms gameId with
  | none =>
      rw [known] at result
      cases result
  | some entry =>
      rw [known] at result
      dsimp only at result
      split at result
      · cases result
      cases undone : undoSwap (resizeToWords file) with
      | none =>
          rw [undone] at result
          cases result
      | some image =>
          rw [undone, Option.bind_some] at result
          cases image with
          | none => cases result
          | some romData =>
              dsimp only at result
              unfold storeIfHashed at result
              split at result
              · cases result
              · obtain ⟨error, wrong, same⟩ := Option.map_eq_some_iff.mp result
                have := congrArg Prod.fst same
                subst this
                exact wrongHash_ne_notYet entry romData wrong

end SelectRom

end N64ModernRuntime.Librecomp
