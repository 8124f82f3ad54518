import N64ModernRuntime.Librecomp.PiBus

/-!
# pi.cpp: the completion of a DMA

Every branch of `do_dma` that returns is to post one message to the queue of the
request.  The message arrives if the queue takes it when the transfer is over,
which is looked at in the memory that has the requested bytes in place.
-/

set_option autoImplicit false

namespace N64ModernRuntime.Librecomp

open CheckedBuffer SaveDevice

structure PiRequest where
  mq : UInt64
  dramAddr : UInt64
  physicalAddr : UInt32
  size : UInt32
  direction : UInt32
  deriving DecidableEq, Repr

def SaveRequest.piRequest : SaveRequest → Option PiRequest
  | .osPiStartDma r6 r7 dramAddr size mq =>
    some ⟨mq, dramAddr, k1ToPhys (r7.toUInt32 ||| romBase), size, r6.toUInt32⟩
  | .osEPiStartDma r6 baseAddress devAddr dramAddr size mq =>
    some ⟨mq, dramAddr, k1ToPhys (baseAddress ||| devAddr), size, r6.toUInt32⟩
  | _ => none

/-! ## What is wanted of a transfer -/

def OnlyInside (before after : GuestMemory) (ramAddress : UInt64) (size : Nat) : Prop :=
  ∀ addr, (∀ pos < size,
      GuestMemory.bytePlace (destination ramAddress pos) ≠ GuestMemory.bytePlace addr) →
    after.byte addr = before.byte addr

/-- What a read of the chip's id stores: one word, two, or two and zeros. -/
def idBytes (size : Nat) : List UInt8 :=
  if size < 4 then []
  else if size < 8 then [0x11, 0x11, 0x80, 0x01]
  else [0x11, 0x11, 0x80, 0x01, 0x00, 0xC2, 0x00, 0x1D] ++ List.replicate (size - 8) 0

variable {type : SaveType} {table : SectionTable}

def saveBytes (buffer : Vector UInt8 (getSaveSize type)) (offset size : UInt32) : List UInt8 :=
  (loopIndices offset size).map fun i => (buffer[i]?).getD 0

def requestedBytes (cart : Cart) (d : SaveDevice (PiBus table) type) (p : PiRequest) :
    List UInt8 :=
  if p.direction ≠ 0 then []
  else if romBase ≤ p.physicalAddr then
    cart.bytes (p.physicalAddr - romBase).toNat p.size.toNat
  else if p.physicalAddr < sramBase then []
  else if flashRegionContains type p.physicalAddr p.size then
    if d.flashMode = .id then idBytes p.size.toNat
    else saveBytes d.saveBuffer (p.physicalAddr - sramBase) p.size
  else if sramAllowed type then saveBytes d.saveBuffer (p.physicalAddr - sramBase) p.size
  else List.replicate p.size.toNat 0xFF

variable (scheduler : Scheduler)

/-- The call returns and has sent one message, to the queue of the request; before
that a read has changed bytes of the destination alone, and a write none. -/
def Answered (d : SaveDevice (PiBus table) type) (result : SaveResult (PiBus table) type)
    (p : PiRequest) : Prop :=
  ∃ after memory overlays, result = .ok after ∧
    after.rdram = PiBus.osSendMesg scheduler
      { d.rdram with memory := memory, overlays := some overlays } p.mq ∧
    after.rdram.posted = (p.mq, memory) :: d.rdram.posted ∧
    (p.direction = 0 → OnlyInside d.rdram.memory memory p.dramAddr p.size.toNat) ∧
    (p.direction ≠ 0 → memory = d.rdram.memory)

def QueueTakes (cart : Cart) (d : SaveDevice (PiBus table) type) (p : PiRequest) : Prop :=
  PiBus.Takes scheduler
    { d.rdram with
      memory := d.rdram.memory.putBytes p.dramAddr 0 (requestedBytes cart d p) } p.mq

/-- From every state with a mode of the flash chip, a transfer is answered
whenever its queue takes the message. -/
def DmaAnswered (cart : Cart) (table : SectionTable) (type : SaveType) (mode : FlashMode)
    (request : SaveRequest) : Prop :=
  ∀ p, request.piRequest = some p → ∀ d : SaveDevice (PiBus table) type,
    d.flashMode = mode → d.rdram.overlays.isSome →
      (Answered scheduler d (d.perform (cart.piGuest scheduler) request) p ↔
        QueueTakes scheduler cart d p)

structure DmaRight (table : SectionTable) (type : SaveType) (mode : FlashMode) (p : PiRequest) :
    Prop where
  /-- a region that `do_dma` knows -/
  known : driveBase ≤ p.physicalAddr
  romRead : romBase ≤ p.physicalAddr → p.direction = 0
  /-- the sections of the transfer are found in the table -/
  loads : romBase ≤ p.physicalAddr →
    table.lowerBound (p.physicalAddr - romBase) ≤
      table.upperBound (p.physicalAddr - romBase + p.size)
  /-- what goes to the save lies in its buffer -/
  saveFits : sramAllowed type = true → sramBase ≤ p.physicalAddr → p.physicalAddr < romBase →
    p.size.toNat = 0 ∨ (p.physicalAddr - sramBase).toNat + p.size.toNat ≤ getSaveSize type
  /-- the id of the flash chip is stored as words -/
  idAligned : p.direction = 0 → mode = .id →
    flashRegionContains type p.physicalAddr p.size = true → 4 ≤ p.size.toNat →
      p.dramAddr.toNat % 4 = 0

/-! ## Stores of the destination -/

namespace OnlyInside

variable {before middle after : GuestMemory} {ramAddress : UInt64} {size : Nat}

theorem refl (m : GuestMemory) (ramAddress : UInt64) (size : Nat) :
    OnlyInside m m ramAddress size :=
  fun _ _ => rfl

theorem putBytes (m : GuestMemory) (ramAddress : UInt64) {pos size : Nat} {values : List UInt8}
    (inside : pos + values.length ≤ size ∨ values = []) :
    OnlyInside m (m.putBytes ramAddress pos values) ramAddress size := by
  intro addr away
  refine GuestMemory.putBytes_frame fun i below => ?_
  rcases inside with inside | none_at
  · exact away (pos + i) (by omega)
  · rw [none_at] at below
    contradiction

end OnlyInside

namespace GuestMemory

variable {m : GuestMemory} {ramAddress : UInt64}

theorem putBytes_append (first second : List UInt8) : ∀ (m : GuestMemory) (pos : Nat),
    m.putBytes ramAddress pos (first ++ second)
      = (m.putBytes ramAddress pos first).putBytes ramAddress (pos + first.length) second := by
  induction first with
  | nil => intro m pos; rfl
  | cons value first ih =>
      intro m pos
      rw [List.cons_append, putBytes, putBytes, ih, List.length_cons, Nat.add_assoc,
        Nat.add_comm 1]

def wordBytes (v : BitVec 32) : List UInt8 :=
  (List.range 4).map fun i => ⟨v.extractLsb' (8 * (3 - i)) 8⟩

theorem setWord_eq_putBytes (aligned : ramAddress.toNat % 4 = 0) {pos : Nat} (word : pos % 4 = 0)
    (near : pos + 4 ≤ 2 ^ 30) (v : BitVec 32) :
    m.setWord (destination ramAddress pos) v = m.putBytes ramAddress pos (wordBytes v) := by
  have start : (destination ramAddress pos).toNat % 4 = 0 := by
    rw [destination, BitVec.toNat_add, BitVec.toNat_ofNat, UInt64.toNat_toBitVec]
    omega
  have swapped : ∀ i < 4, bytePlace (destination ramAddress (pos + i))
      = place (destination ramAddress pos) + BitVec.ofNat 30 (3 - i) := by
    intro i small
    have offset : destination ramAddress (pos + i)
        = destination ramAddress pos + BitVec.ofNat 64 i := by
      rw [destination, destination, BitVec.ofNat_add, BitVec.add_assoc]
    rw [bytePlace, offset, place_xor_three start small]
  funext q
  by_cases hit : ∃ j < 4, q = place (destination ramAddress pos) + BitVec.ofNat 30 j
  · obtain ⟨j, small, rfl⟩ := hit
    have below : 3 - j < 4 := by omega
    have back : 3 - (3 - j) = j := by omega
    have value : (wordBytes v)[3 - j]? = some ⟨v.extractLsb' (8 * j) 8⟩ := by
      rw [wordBytes, List.getElem?_map, List.getElem?_range below, Option.map_some, back]
    have stored : (m.putBytes ramAddress pos (wordBytes v)).byte
        (destination ramAddress (pos + (3 - j))) = v.extractLsb' (8 * j) 8 :=
      putBytes_byte ramAddress pos value fun later above last => by
        rw [wordBytes, List.length_map, List.length_range] at last
        exact places_apart (Nat.add_lt_add_left above pos) (by omega)
    rw [setWord_at m _ v small, ← stored]
    change putBytes _ _ _ _ (bytePlace (destination ramAddress (pos + (3 - j)))) = _
    rw [swapped _ below, back]
  · have away : ∀ j < 4, q ≠ place (destination ramAddress pos) + BitVec.ofNat 30 j :=
      fun j small same => hit ⟨j, small, same⟩
    have reached : bytePlace (q.setWidth 64 ^^^ 3) = q := by
      rw [bytePlace, BitVec.xor_assoc, BitVec.xor_self, BitVec.xor_zero, place,
        BitVec.setWidth_setWidth_of_le _ (by decide), BitVec.setWidth_eq]
    have kept : (m.putBytes ramAddress pos (wordBytes v)).byte (q.setWidth 64 ^^^ 3)
        = m.byte (q.setWidth 64 ^^^ 3) := putBytes_frame fun i below => by
      rw [wordBytes, List.length_map, List.length_range] at below
      rw [swapped i below, reached]
      exact (away (3 - i) (by omega)).symm
    change putBytes _ _ _ _ (bytePlace _) = m (bytePlace _) at kept
    rw [reached] at kept
    rw [setWord_frame v away, kept]

end GuestMemory

/-! ## The branches -/

section Branches

variable {scheduler : Scheduler} {cart : Cart} {d : SaveDevice (PiBus table) type} {p : PiRequest}

/-- The result of a transfer that has stored the requested bytes and then sends
its message. -/
def Transferred (scheduler : Scheduler) (cart : Cart) (d : SaveDevice (PiBus table) type)
    (result : SaveResult (PiBus table) type) (p : PiRequest) : Prop :=
  ∃ (middle : SaveDevice (PiBus table) type) (overlays : Overlays table),
    result = .ok (middle.sendMesg (cart.piGuest scheduler) p.mq) ∧
    middle.rdram =
      { d.rdram with
        memory := d.rdram.memory.putBytes p.dramAddr 0 (requestedBytes cart d p)
        overlays := some overlays }

theorem setMemBytes_eq (bus : PiBus table) (address : UInt64) (values : List UInt8) (pos : UInt32)
    (short : pos.toNat + values.length ≤ 2 ^ 32) :
    setMemBytes (cart.piGuest scheduler) bus pos address values
      = { bus with memory := bus.memory.putBytes address pos.toNat values } := by
  induction values generalizing bus pos with
  | nil => rfl
  | cons value values ih =>
      rw [List.length_cons] at short
      rw [setMemBytes, GuestMemory.putBytes]
      by_cases last : values = []
      · rw [last]
        rfl
      · have some_left : values.length ≠ 0 := fun none_left => last (List.length_eq_zero_iff.mp none_left)
        have next : (pos + 1).toNat = pos.toNat + 1 := by
          rw [UInt32.toNat_add]
          change (pos.toNat + 1) % 2 ^ 32 = _
          omega
        rw [ih _ _ (by rw [next]; omega), next]
        rfl

theorem fillRdram_eq (bus : PiBus table) (pos size : UInt32) (address : UInt64) (value : UInt8) :
    fillRdram (cart.piGuest scheduler) bus pos size address value
      = { bus with
          memory := bus.memory.putBytes address pos.toNat
            (List.replicate (size.toNat - pos.toNat) value) } := by
  have size_lt := size.toNat_lt
  have pos_lt := pos.toNat_lt
  rw [fillRdram, setMemBytes_eq bus address _ pos (by rw [List.length_replicate]; omega)]

theorem transferred_idle (middle : SaveDevice (PiBus table) type) (left : middle.rdram = d.rdram)
    (started : d.rdram.overlays.isSome) (nothing : requestedBytes cart d p = []) :
    Transferred scheduler cart d (.ok (middle.sendMesg (cart.piGuest scheduler) p.mq)) p := by
  obtain ⟨overlays, loaded⟩ := Option.isSome_iff_exists.mp started
  refine ⟨middle, overlays, rfl, ?_⟩
  rw [left, nothing, ← loaded]
  rfl

theorem romRead_transferred (started : d.rdram.overlays.isSome) (reads : p.direction = 0)
    (rom : romBase ≤ p.physicalAddr)
    (loads : table.lowerBound (p.physicalAddr - romBase) ≤
      table.upperBound (p.physicalAddr - romBase + p.size)) :
    Transferred scheduler cart d
      (.ok (({ d with rdram := d.rdram.doRomRead cart p.dramAddr p.physicalAddr p.size }).sendMesg
        (cart.piGuest scheduler) p.mq)) p := by
  obtain ⟨overlays, here⟩ := Option.isSome_iff_exists.mp started
  obtain ⟨done, read, -⟩ := cart.doRomRead_eq p.dramAddr ⟨d.rdram.memory, []⟩ p.physicalAddr p.size
  have found : ∃ loaded, overlays.loadOverlays (p.physicalAddr - romBase) p.dramAddr.toUInt32 p.size
      = some loaded := by
    rw [Overlays.loadOverlays, loadTargets, if_neg (Nat.not_lt.mpr loads)]
    exact ⟨_, rfl⟩
  obtain ⟨loaded, found⟩ := found
  have requested : requestedBytes cart d p
      = cart.bytes (p.physicalAddr - romBase).toNat p.size.toNat := by
    rw [requestedBytes, if_neg (not_not.mpr reads), if_pos rom]
  refine ⟨_, Overlays.scanLoadedFragmentTrampolines (d.rdram.memory.putBytes p.dramAddr 0
    (requestedBytes cart d p)).rdram loaded (p.physicalAddr - romBase) p.size, rfl, ?_⟩
  change PiBus.doRomRead cart d.rdram p.dramAddr p.physicalAddr p.size = _
  rw [PiBus.doRomRead, read, here, Option.bind_some, found, Option.map_some, requested]

theorem saveRead_transferred (started : d.rdram.overlays.isSome) {offset : UInt32}
    (requested : requestedBytes cart d p = saveBytes d.saveBuffer offset p.size)
    (fits : p.size.toNat = 0 ∨ offset.toNat + p.size.toNat ≤ getSaveSize type) :
    Transferred scheduler cart d
      (d.saveRead (cart.piGuest scheduler) p.dramAddr offset p.size >>= fun after =>
        pure (after.sendMesg (cart.piGuest scheduler) p.mq)) p := by
  obtain ⟨overlays, here⟩ := Option.isSome_iff_exists.mp started
  obtain ⟨values, run, read⟩ :=
    saveRead_inside (d := d) (cart.piGuest scheduler) p.dramAddr fits
  have found := readAll_getElem? _ run
  have same : values = saveBytes d.saveBuffer offset p.size := by
    have plain := congrArg (List.map fun value : Option UInt8 => value.getD 0) found
    rw [List.map_map, List.map_map] at plain
    exact (List.map_id values).symm.trans plain
  have size_lt := p.size.toNat_lt
  have short : (0 : UInt32).toNat + values.length ≤ 2 ^ 32 := by
    rw [same, saveBytes, loopIndices, List.length_map, List.length_map, List.length_range]
    change 0 + p.size.toNat ≤ 2 ^ 32
    omega
  rw [read]
  refine ⟨_, overlays, rfl, ?_⟩
  change setMemBytes (cart.piGuest scheduler) d.rdram 0 p.dramAddr values = _
  rw [setMemBytes_eq d.rdram p.dramAddr values 0 short, requested, same, ← here]
  rfl

theorem saveWrite_transferred (started : d.rdram.overlays.isSome) {offset : UInt32}
    (nothing : requestedBytes cart d p = [])
    (fits : p.size.toNat = 0 ∨ offset.toNat + p.size.toNat ≤ getSaveSize type) :
    Transferred scheduler cart d
      (d.saveWrite (cart.piGuest scheduler) p.dramAddr offset p.size >>= fun after =>
        pure (after.sendMesg (cart.piGuest scheduler) p.mq)) p := by
  have below := loopIndices_below fits (Nat.le_of_lt (getSaveSize_lt type))
  obtain ⟨buffer, -, run⟩ :=
    store_inside (d := d) (d.memBytes (cart.piGuest scheduler) p.dramAddr p.size) below
  rw [saveWrite, run]
  exact transferred_idle _ rfl started nothing

theorem readId_transferred (started : d.rdram.overlays.isSome)
    (requested : requestedBytes cart d p = idBytes p.size.toNat)
    (aligned : 4 ≤ p.size.toNat → p.dramAddr.toNat % 4 = 0) :
    Transferred scheduler cart d
      (.ok ((d.readId (cart.piGuest scheduler) p.dramAddr p.size).sendMesg
        (cart.piGuest scheduler) p.mq)) p := by
  obtain ⟨overlays, here⟩ := Option.isSome_iff_exists.mp started
  refine ⟨_, overlays, rfl, ?_⟩
  rw [readId, requested, ← here]
  dsimp only
  rw [fillRdram_eq]
  have word : ∀ (bus : PiBus table) (pos v : UInt32), pos.toNat % 4 = 0 → 4 ≤ p.size.toNat →
      pos.toNat + 4 ≤ 2 ^ 30 → (cart.piGuest scheduler).setMemW bus pos p.dramAddr v
        = { bus with
            memory := bus.memory.putBytes p.dramAddr pos.toNat
              (GuestMemory.wordBytes v.toBitVec) } := by
    intro bus pos v start some_word near
    rw [← GuestMemory.setWord_eq_putBytes (aligned some_word) start near]
    rfl
  by_cases eight : 8 ≤ p.size.toNat
  · have four : 4 ≤ p.size.toNat := by omega
    have second : p.size ≥ 8 := UInt32.le_iff_toNat_le.mpr eight
    have first : p.size ≥ 4 := UInt32.le_iff_toNat_le.mpr four
    rw [if_pos second, if_pos first, word _ 4 _ rfl four (by decide), word _ 0 _ rfl four (by decide),
      idBytes, if_neg (by omega), if_neg (by omega), GuestMemory.putBytes_append]
    rfl
  · have second : ¬ p.size ≥ 8 := fun long => eight (UInt32.le_iff_toNat_le.mp long)
    have none_left : p.size.toNat - (8 : UInt32).toNat = 0 := by
      change p.size.toNat - 8 = 0
      omega
    rw [if_neg second, none_left]
    by_cases four : 4 ≤ p.size.toNat
    · have first : p.size ≥ 4 := UInt32.le_iff_toNat_le.mpr four
      rw [if_pos first, word _ 0 _ rfl four (by decide), idBytes, if_neg (by omega),
        if_pos (by omega)]
      rfl
    · have first : ¬ p.size ≥ 4 := fun long => four (UInt32.le_iff_toNat_le.mp long)
      rw [if_neg first, idBytes, if_pos (by omega)]
      rfl

end Branches

/-! ## do_dma -/

section Dma

variable {scheduler : Scheduler} {cart : Cart} {d : SaveDevice (PiBus table) type} {p : PiRequest}

theorem requestedBytes_length : (requestedBytes cart d p).length ≤ p.size.toNat := by
  have save : ∀ offset, (saveBytes d.saveBuffer offset p.size).length = p.size.toNat := by
    intro offset
    rw [saveBytes, loopIndices, List.length_map, List.length_map, List.length_range]
  unfold requestedBytes
  split
  · exact Nat.zero_le _
  split
  · rw [Cart.bytes]
    split
    · rw [List.length_take]
      omega
    · rw [List.length_replicate]
  split
  · exact Nat.zero_le _
  split
  · split
    · unfold idBytes
      split
      · exact Nat.zero_le _
      split
      · change 4 ≤ p.size.toNat
        omega
      · rw [List.length_append, List.length_replicate]
        change 8 + _ ≤ _
        omega
    · exact Nat.le_of_eq (save _)
  split
  · exact Nat.le_of_eq (save _)
  · rw [List.length_replicate]

theorem requestedBytes_write (cart : Cart) (d : SaveDevice (PiBus table) type)
    (writes : p.direction ≠ 0) : requestedBytes cart d p = [] :=
  if_pos writes

/-- The message of a transfer arrives exactly if the queue takes it. -/
theorem Transferred.answered_iff {result : SaveResult (PiBus table) type}
    (transferred : Transferred scheduler cart d result p) :
    Answered scheduler d result p ↔ QueueTakes scheduler cart d p := by
  obtain ⟨middle, overlays, rfl, left⟩ := transferred
  have loaded : middle.rdram.overlays = some overlays := by rw [left]
  have takes_iff : middle.rdram.Takes scheduler p.mq ↔ QueueTakes scheduler cart d p := by
    rw [left]
    exact Iff.rfl
  rw [← takes_iff]
  constructor
  · rintro ⟨after, memory, overlays', same, -, posted, -⟩
    cases same
    change (middle.rdram.osSendMesg scheduler p.mq).posted = _ at posted
    by_contra refused
    rw [PiBus.posted_of_refused loaded refused, left] at posted
    exact absurd (congrArg List.length posted) (by simp)
  · intro takes
    refine ⟨_, d.rdram.memory.putBytes p.dramAddr 0 (requestedBytes cart d p), overlays, rfl, ?_, ?_,
      ?_, ?_⟩
    · rw [← left]
      rfl
    · change (middle.rdram.osSendMesg scheduler p.mq).posted = _
      rw [PiBus.posted_of_takes loaded takes, left]
    · intro _
      refine OnlyInside.putBytes _ _ (Or.inl ?_)
      rw [Nat.zero_add]
      exact requestedBytes_length
    · intro writes
      rw [requestedBytes_write cart d writes]
      rfl

theorem not_region_of_low {physicalAddr size : UInt32} (low : ¬ sramBase ≤ physicalAddr) :
    ¬ flashRegionContains type physicalAddr size = true := by
  intro region
  rw [flashRegionContains, if_pos (UInt32.not_le.mp low), ite_self] at region
  cases region

theorem flashRegion_small {physicalAddr size : UInt32}
    (region : flashRegionContains type physicalAddr size = true) : size.toNat < 2 ^ 29 := by
  have fits := flashRegionContains_fits region
  have bound : getSaveSize type ≤ 0x20000 := by cases type <;> decide
  omega

theorem requestedBytes_read (cart : Cart) (d : SaveDevice (PiBus table) type)
    (reads : p.direction = 0) (rom : ¬ romBase ≤ p.physicalAddr) :
    requestedBytes cart d p =
      if p.physicalAddr < sramBase then []
      else if flashRegionContains type p.physicalAddr p.size then
        if d.flashMode = .id then idBytes p.size.toNat
        else saveBytes d.saveBuffer (p.physicalAddr - sramBase) p.size
      else if sramAllowed type then saveBytes d.saveBuffer (p.physicalAddr - sramBase) p.size
      else List.replicate p.size.toNat 0xFF := by
  rw [requestedBytes, if_neg (not_not.mpr reads), if_neg rom]

/-- A read of the save or of a drive that is not there. -/
theorem doDma_read_transferred (started : d.rdram.overlays.isSome)
    (right : DmaRight table type d.flashMode p) (reads : p.direction = 0)
    (rom : ¬ romBase ≤ p.physicalAddr) :
    Transferred scheduler cart d
      (d.doDma (cart.piGuest scheduler) p.mq p.dramAddr p.physicalAddr p.size p.direction) p := by
  have high : p.physicalAddr < romBase := UInt32.not_le.mp rom
  have bytes := requestedBytes_read cart d reads rom
  unfold doDma
  rw [if_pos reads, if_neg rom]
  by_cases region : flashRegionContains type p.physicalAddr p.size = true
  · have fits := flashRegionContains_fits region
    have low : ¬ p.physicalAddr < sramBase := fun low =>
      not_region_of_low (UInt32.not_le.mpr low) region
    rw [if_neg low, if_pos region] at bytes
    rw [if_pos region]
    by_cases id_mode : d.flashMode = .id
    · rw [if_pos id_mode] at bytes ⊢
      exact readId_transferred started bytes fun word => right.idAligned reads id_mode region word
    · rw [if_neg id_mode] at bytes ⊢
      exact saveRead_transferred started bytes (Or.inr fits)
  rw [if_neg region]
  by_cases low : p.physicalAddr ≥ sramBase
  · rw [if_neg (UInt32.not_lt.mpr low), if_neg region] at bytes
    rw [if_pos low]
    cases allowed : sramAllowed type with
    | false =>
        obtain ⟨overlays, here⟩ := Option.isSome_iff_exists.mp started
        rw [allowed] at bytes
        refine ⟨_, overlays, rfl, ?_⟩
        change fillRdram (cart.piGuest scheduler) d.rdram 0 p.size p.dramAddr 0xFF = _
        rw [fillRdram_eq, bytes, ← here]
        rfl
    | true =>
        rw [allowed] at bytes
        exact saveRead_transferred started bytes (right.saveFits allowed low high)
  · rw [if_pos (UInt32.not_le.mp low)] at bytes
    rw [if_neg low, if_pos right.known]
    exact transferred_idle d rfl started bytes

/-- A write changes the save at most, or what is staged for it. -/
theorem doDma_write_transferred (started : d.rdram.overlays.isSome)
    (right : DmaRight table type d.flashMode p) (writes : p.direction ≠ 0)
    (rom : ¬ romBase ≤ p.physicalAddr) :
    Transferred scheduler cart d
      (d.doDma (cart.piGuest scheduler) p.mq p.dramAddr p.physicalAddr p.size p.direction) p := by
  have high : p.physicalAddr < romBase := UInt32.not_le.mp rom
  have nothing := requestedBytes_write cart d writes
  unfold doDma
  rw [if_neg writes, if_neg rom]
  by_cases region : flashRegionContains type p.physicalAddr p.size = true
  · rw [if_pos region]
    by_cases program : d.flashMode = .pageProgram
    · rw [if_pos program]
      have staged : (d.stagePage (cart.piGuest scheduler) p.dramAddr p.size).rdram = d.rdram := by
        unfold stagePage
        rfl
      exact transferred_idle _ staged started nothing
    · rw [if_neg program]
      exact transferred_idle d rfl started nothing
  rw [if_neg region]
  by_cases low : p.physicalAddr ≥ sramBase
  · rw [if_pos low]
    cases allowed : sramAllowed type with
    | false => exact transferred_idle d rfl started nothing
    | true => exact saveWrite_transferred started nothing (right.saveFits allowed low high)
  · rw [if_neg low, if_pos right.known]
    exact transferred_idle d rfl started nothing

theorem doDma_transferred (started : d.rdram.overlays.isSome)
    (right : DmaRight table type d.flashMode p) :
    Transferred scheduler cart d
      (d.doDma (cart.piGuest scheduler) p.mq p.dramAddr p.physicalAddr p.size p.direction) p := by
  by_cases rom : p.physicalAddr ≥ romBase
  · have reads := right.romRead rom
    unfold doDma
    rw [if_pos reads, if_pos rom]
    exact romRead_transferred started reads rom (right.loads rom)
  · by_cases reads : p.direction = 0
    · exact doDma_read_transferred started right reads rom
    · exact doDma_write_transferred started right reads rom

end Dma

/-! ## The id at an address that is not aligned -/

section Unaligned

variable {ramAddress : UInt64}

theorem destination_place (ramAddress : UInt64) (pos : Nat) :
    GuestMemory.place (destination ramAddress pos)
      = GuestMemory.place ramAddress.toBitVec + BitVec.ofNat 30 pos := by
  rw [← BitVec.toNat_inj, GuestMemory.place, GuestMemory.place, destination, BitVec.toNat_setWidth,
    BitVec.toNat_add, BitVec.toNat_add, BitVec.toNat_setWidth, BitVec.toNat_ofNat, BitVec.toNat_ofNat]
  omega

def wordStart (ramAddress : UInt64) : Gpr := BitVec.ofNat 64 (ramAddress.toNat / 4 * 4)

theorem wordStart_toNat : (wordStart ramAddress).toNat = ramAddress.toNat / 4 * 4 := by
  have bound := ramAddress.toNat_lt
  rw [wordStart, BitVec.toNat_ofNat]
  omega

theorem wordStart_place (ramAddress : UInt64) :
    GuestMemory.bytePlace (wordStart ramAddress)
      = GuestMemory.place (destination ramAddress 0)
        + BitVec.ofNat 30 (3 - ramAddress.toNat % 4) := by
  have start : (wordStart ramAddress).toNat % 4 = 0 := by
    rw [wordStart_toNat]
    omega
  have swapped := GuestMemory.place_xor_three start (i := 0) (by decide)
  have plain : wordStart ramAddress + BitVec.ofNat 64 0 = wordStart ramAddress := BitVec.add_zero _
  rw [plain] at swapped
  rw [GuestMemory.bytePlace, swapped, destination_place, ← BitVec.toNat_inj]
  simp only [BitVec.toNat_add, GuestMemory.place, BitVec.toNat_setWidth, BitVec.toNat_ofNat,
    wordStart_toNat, UInt64.toNat_toBitVec]
  omega

theorem wordStart_away (unaligned : ramAddress.toNat % 4 ≠ 0) {pos : Nat} (near : pos < 2 ^ 29) :
    GuestMemory.bytePlace (destination ramAddress pos)
      ≠ GuestMemory.bytePlace (wordStart ramAddress) := by
  intro same
  simp only [GuestMemory.bytePlace, GuestMemory.place, BitVec.setWidth_xor] at same
  have sums := congrArg BitVec.toNat ((BitVec.xor_left_inj _).mp same)
  rw [BitVec.toNat_setWidth, BitVec.toNat_setWidth, wordStart_toNat, destination,
    BitVec.toNat_add, BitVec.toNat_ofNat, UInt64.toNat_toBitVec] at sums
  omega

theorem flashIdType_byte {k : Nat} (low : k ≠ 0) (high : k < 4) :
    flashIdType.toBitVec.extractLsb' (8 * (3 - k)) 8 ≠ 0 := by
  match k, low, high with
  | 1, _, _ => decide
  | 2, _, _ => decide
  | 3, _, _ => decide

/-- The first word of the id starts in front of an address that is not aligned. -/
theorem idWord_outside (unaligned : ramAddress.toNat % 4 ≠ 0) (m : GuestMemory) :
    (m.setWord (destination ramAddress 0) flashIdType.toBitVec).byte (wordStart ramAddress) ≠ 0 := by
  change GuestMemory.setWord _ _ _ (GuestMemory.bytePlace (wordStart ramAddress)) ≠ 0
  rw [wordStart_place, GuestMemory.setWord_at _ _ _ (by omega)]
  exact flashIdType_byte unaligned (Nat.mod_lt _ (by decide))

/-- The second word is behind it. -/
theorem nextWord_keeps (ramAddress : UInt64) (m : GuestMemory) (v : BitVec 32) :
    (m.setWord (destination ramAddress 4) v).byte (wordStart ramAddress)
      = m.byte (wordStart ramAddress) := by
  refine GuestMemory.setWord_frame _ fun j below same => ?_
  change GuestMemory.bytePlace (wordStart ramAddress) = _ at same
  rw [wordStart_place, destination_place, destination_place, BitVec.add_assoc,
    BitVec.add_assoc] at same
  have offsets := congrArg BitVec.toNat ((BitVec.add_right_inj _).mp same)
  simp only [BitVec.toNat_add, BitVec.toNat_ofNat] at offsets
  omega

variable {scheduler : Scheduler} {cart : Cart} {d : SaveDevice (PiBus table) type} {p : PiRequest}

theorem Answered.memory_eq {middle : SaveDevice (PiBus table) type} {overlays : Overlays table}
    (answered : Answered scheduler d (.ok (middle.sendMesg (cart.piGuest scheduler) p.mq)) p)
    (loaded : middle.rdram.overlays = some overlays) (takes : middle.rdram.Takes scheduler p.mq) :
    (p.direction = 0 → OnlyInside d.rdram.memory middle.rdram.memory p.dramAddr p.size.toNat) := by
  obtain ⟨after, memory, overlays', same, -, posted, inside, -⟩ := answered
  cases same
  change (middle.rdram.osSendMesg scheduler p.mq).posted = _ at posted
  rw [PiBus.posted_of_takes loaded takes] at posted
  have memories : middle.rdram.memory = memory := congrArg Prod.snd (List.cons.inj posted).1
  rw [memories]
  exact inside

theorem readId_unanswered (reads : p.direction = 0) (blank : d.rdram.memory = fun _ => 0)
    {overlays : Overlays table} (loaded : d.rdram.overlays = some overlays)
    (host : d.rdram.gameThread = false) (word : 4 ≤ p.size.toNat) (small : p.size.toNat < 2 ^ 29)
    (unaligned : p.dramAddr.toNat % 4 ≠ 0) :
    ¬ Answered scheduler d
      (.ok ((d.readId (cart.piGuest scheduler) p.dramAddr p.size).sendMesg
        (cart.piGuest scheduler) p.mq)) p := by
  intro answered
  have four : p.size ≥ 4 := UInt32.le_iff_toNat_le.mpr word
  -- the memory after the words, whether there are one or two of them
  have words : ∃ memory, (if p.size ≥ 8 then
        (cart.piGuest scheduler).setMemW
          ((cart.piGuest scheduler).setMemW d.rdram 0 p.dramAddr flashIdType) 4 p.dramAddr flashIdMaker
        else (cart.piGuest scheduler).setMemW d.rdram 0 p.dramAddr flashIdType)
          = { d.rdram with memory := memory } ∧
      memory.byte (wordStart p.dramAddr) ≠ 0 := by
    have first := idWord_outside unaligned d.rdram.memory
    by_cases eight : p.size ≥ 8
    · rw [if_pos eight]
      refine ⟨_, rfl, ?_⟩
      exact (nextWord_keeps p.dramAddr _ flashIdMaker.toBitVec).symm ▸ first
    · rw [if_neg eight]
      exact ⟨_, rfl, first⟩
  obtain ⟨written, stored, nonzero⟩ := words
  have final : (d.readId (cart.piGuest scheduler) p.dramAddr p.size).rdram =
      { d.rdram with
        memory := written.putBytes p.dramAddr 8 (List.replicate (p.size.toNat - 8) 0) } := by
    rw [readId]
    dsimp only
    rw [if_pos four, stored, fillRdram_eq]
    rfl
  have inside := answered.memory_eq (by rw [final]; exact loaded)
    (fun game => by rw [final, host] at game; cases game) reads
  have away : ∀ pos < p.size.toNat,
      GuestMemory.bytePlace (destination p.dramAddr pos)
        ≠ GuestMemory.bytePlace (wordStart p.dramAddr) := fun pos below =>
    wordStart_away unaligned (Nat.lt_trans below small)
  have unchanged := inside (wordStart p.dramAddr) away
  rw [final, blank] at unchanged
  have filled : OnlyInside written
      (written.putBytes p.dramAddr 8 (List.replicate (p.size.toNat - 8) 0)) p.dramAddr p.size.toNat := by
    refine OnlyInside.putBytes _ _ ?_
    rw [List.length_replicate]
    by_cases eight : 8 ≤ p.size.toNat
    · exact Or.inl (by omega)
    · right
      rw [Nat.sub_eq_zero_of_le (by omega)]
      rfl
  rw [filled _ away] at unchanged
  exact nonzero unchanged

end Unaligned

/-! ## Transfers that are not answered -/

section Converse

variable {scheduler : Scheduler} {cart : Cart} {d : SaveDevice (PiBus table) type} {p : PiRequest}

/-- Where a span leaves the buffer the call does not return. -/
theorem touches_unanswered {offset : UInt32} {result : SaveResult (PiBus table) type}
    (touches : Touches d offset p.size result)
    (leaves : ¬ (p.size.toNat = 0 ∨ offset.toNat + p.size.toNat ≤ getSaveSize type)) :
    ¬ Answered scheduler d
      (result >>= fun after => pure (after.sendMesg (cart.piGuest scheduler) p.mq)) p := by
  obtain ⟨some_byte, past⟩ := not_or.mp leaves
  obtain ⟨index, run⟩ := touches.outside some_byte (Nat.lt_of_not_le past)
  rintro ⟨after, memory, overlays, same, -⟩
  rw [run] at same
  cases same

theorem silent_unanswered {after : SaveDevice (PiBus table) type}
    (silent : after.rdram.posted = d.rdram.posted) : ¬ Answered scheduler d (.ok after) p := by
  rintro ⟨_, memory, overlays, same, -, posted, -⟩
  cases same
  rw [silent] at posted
  exact absurd (congrArg List.length posted) (by simp)

/-- A transfer whose sections are not found does not get to its message. -/
theorem romRead_unanswered
    (lost : ¬ table.lowerBound (p.physicalAddr - romBase) ≤
      table.upperBound (p.physicalAddr - romBase + p.size)) :
    ¬ Answered scheduler d
      (.ok (({ d with rdram := d.rdram.doRomRead cart p.dramAddr p.physicalAddr p.size }).sendMesg
        (cart.piGuest scheduler) p.mq)) p := by
  have stuck : ∀ s : Overlays table,
      s.loadOverlays (p.physicalAddr - romBase) p.dramAddr.toUInt32 p.size = none := by
    intro s
    rw [Overlays.loadOverlays, loadTargets, if_pos (Nat.lt_of_not_le lost), Option.map_none]
  have hung : (d.rdram.doRomRead cart p.dramAddr p.physicalAddr p.size).overlays = none := by
    rw [PiBus.doRomRead]
    cases d.rdram.overlays with
    | none => rfl
    | some s => rw [Option.bind_some, stuck s, Option.map_none]
  refine silent_unanswered ?_
  change (PiBus.osSendMesg scheduler (d.rdram.doRomRead cart p.dramAddr p.physicalAddr p.size)
    p.mq).posted = _
  rw [PiBus.osSendMesg, hung]
  rfl

/-- A device with a mode of the flash chip and empty memory, after
`init_overlays`; the caller is no game thread. -/
def blankDevice (table : SectionTable) (type : SaveType) (mode : FlashMode) :
    SaveDevice (PiBus table) type where
  rdram := ⟨fun _ => 0, some (Overlays.initOverlays table), false, [], []⟩
  saveBuffer := Vector.replicate _ 0
  touched := []
  writeBuffer := Vector.replicate _ 0
  flashMode := mode
  flashStatus := 0
  flashPendingErasePage := 0
  pending_le := SaveDevice.no_page_le
  flashWriteBuffer := Vector.replicate _ 0
  r2 := 0

theorem right_of_answered {mode : FlashMode}
    (answered : Answered scheduler (blankDevice table type mode)
      ((blankDevice table type mode).doDma (cart.piGuest scheduler) p.mq p.dramAddr p.physicalAddr
        p.size p.direction) p) :
    DmaRight table type mode p := by
  unfold doDma at answered
  constructor
  · by_contra unknown
    have drive : ¬ p.physicalAddr ≥ driveBase := unknown
    have low : ¬ p.physicalAddr ≥ sramBase := fun low => drive (UInt32.le_trans (by decide) low)
    have rom : ¬ p.physicalAddr ≥ romBase := fun rom => low (UInt32.le_trans (by decide) rom)
    have region : ¬ flashRegionContains type p.physicalAddr p.size = true := not_region_of_low low
    by_cases reads : p.direction = 0
    · rw [if_pos reads, if_neg rom, if_neg region, if_neg low, if_neg drive] at answered
      exact silent_unanswered rfl answered
    · rw [if_neg reads, if_neg rom, if_neg region, if_neg low, if_neg drive] at answered
      exact silent_unanswered rfl answered
  · intro rom
    by_contra writes
    rw [if_neg writes, if_pos rom] at answered
    obtain ⟨after, memory, overlays, same, -⟩ := answered
    cases same
  · intro rom
    by_contra lost
    by_cases reads : p.direction = 0
    · rw [if_pos reads, if_pos rom] at answered
      exact romRead_unanswered lost answered
    · rw [if_neg reads, if_pos rom] at answered
      obtain ⟨after, memory, overlays, same, -⟩ := answered
      cases same
  · intro allowed low high
    by_contra leaves
    have rom : ¬ p.physicalAddr ≥ romBase := UInt32.not_le.mpr high
    have region : ¬ flashRegionContains type p.physicalAddr p.size = true := fun region =>
      leaves (Or.inr (flashRegionContains_fits region))
    have not_open : ¬ (!sramAllowed type) = true := by simp [allowed]
    by_cases reads : p.direction = 0
    · rw [if_pos reads, if_neg rom, if_neg region, if_pos low, if_neg not_open] at answered
      exact touches_unanswered (saveRead_touches p.dramAddr) leaves answered
    · rw [if_neg reads, if_neg rom, if_neg region, if_pos low, if_neg not_open] at answered
      exact touches_unanswered (saveWrite_touches p.dramAddr) leaves answered
  · intro reads id_mode region word
    by_contra unaligned
    have rom : ¬ p.physicalAddr ≥ romBase := by
      intro rom
      have fits := flashRegionContains_fits region
      have bound : getSaveSize type ≤ 0x20000 := by cases type <;> decide
      have base : sramBase ≤ p.physicalAddr := UInt32.le_trans (by decide) rom
      have high := UInt32.le_iff_toNat_le.mp rom
      rw [UInt32.toNat_sub_of_le _ _ base] at fits
      change 0x10000000 ≤ _ at high
      change p.physicalAddr.toNat - 0x08000000 + _ ≤ _ at fits
      omega
    have is_id : (blankDevice table type mode).flashMode = .id := id_mode
    rw [if_pos reads, if_neg rom, if_pos region, if_pos is_id] at answered
    exact readId_unanswered reads rfl rfl rfl word (flashRegion_small region) unaligned answered

end Converse

/-! ## The two calls -/

theorem perform_answered_iff {scheduler : Scheduler} {cart : Cart} {request : SaveRequest}
    {p : PiRequest} (asks : request.piRequest = some p) (d : SaveDevice (PiBus table) type) :
    Answered scheduler d (d.perform (cart.piGuest scheduler) request) p ↔
      Answered scheduler d
        (d.doDma (cart.piGuest scheduler) p.mq p.dramAddr p.physicalAddr p.size p.direction) p := by
  have run : d.perform (cart.piGuest scheduler) request
      = (d.doDma (cart.piGuest scheduler) p.mq p.dramAddr p.physicalAddr p.size p.direction).map
          fun after => after.returns 0 := by
    cases request with
    | osPiStartDma r6 r7 dramAddr size mq =>
        cases asks
        exact bind_return _ _
    | osEPiStartDma r6 baseAddress devAddr dramAddr size mq =>
        cases asks
        exact bind_return _ _
    | _ => cases asks
  rw [run]
  constructor
  · rintro ⟨after, memory, overlays, same, left, posted, inside, idle⟩
    cases result : d.doDma (cart.piGuest scheduler) p.mq p.dramAddr p.physicalAddr p.size
        p.direction with
    | error stop =>
        rw [result] at same
        cases same
    | ok done =>
        rw [result] at same
        cases same
        exact ⟨done, memory, overlays, rfl, left, posted, inside, idle⟩
  · rintro ⟨after, memory, overlays, same, left, posted, inside, idle⟩
    rw [same]
    exact ⟨after.returns 0, memory, overlays, rfl, left, posted, inside, idle⟩

/-- For every cartridge, section table, save type, mode of the flash chip and
request, and whatever the thread machine does: from every such state the
transfer is answered exactly when its queue takes the message, if and only if
it is a right one. -/
theorem dma_answered_iff (scheduler : Scheduler) (cart : Cart) (table : SectionTable)
    (type : SaveType) (mode : FlashMode) (request : SaveRequest) :
    DmaAnswered scheduler cart table type mode request ↔
      ∀ p, request.piRequest = some p → DmaRight table type mode p := by
  constructor
  · intro answered p asks
    have blank := (answered p asks (blankDevice table type mode) rfl rfl).mpr
      fun game => by cases game
    exact right_of_answered ((perform_answered_iff asks _).mp blank)
  · rintro right p asks d rfl started
    exact (perform_answered_iff asks d).trans
      (doDma_transferred started (right p asks)).answered_iff

def noSections : SectionTable where
  numCodeSections := 0
  codeSections := fun i => i.elim0
  overlays := []
  sorted := fun i => i.elim0
  index_injective := fun i => i.elim0
  aligned := fun i => i.elim0
  offset_lt := fun i => i.elim0
  offset_injective := fun i => i.elim0

def unknownRead : SaveRequest :=
  .osEPiStartDma 0 0xA5000000 0 0xFFFFFFFF80100000 4 0xFFFFFFFF80200000

/-- It returns without a message, although the queue takes one. -/
theorem unknown_read_unanswered :
    ¬ ∀ (scheduler : Scheduler) (cart : Cart) (table : SectionTable) (type : SaveType)
        (request : SaveRequest) (p : PiRequest), request.piRequest = some p →
      ∀ d : SaveDevice (PiBus table) type, d.rdram.overlays.isSome → QueueTakes scheduler cart d p →
        Answered scheduler d (d.perform (cart.piGuest scheduler) request) p := by
  intro always
  have answered := always ⟨fun m _ => m, id⟩ smallCart noSections .none unknownRead _ rfl
    (blankDevice noSections .none .readArray) rfl fun game => by cases game
  have asks : unknownRead.piRequest = some _ := rfl
  have right := right_of_answered ((perform_answered_iff asks _).mp answered)
  exact absurd right.known (by decide)

end N64ModernRuntime.Librecomp
