import N64ModernRuntime.Librecomp.Overlays
import N64ModernRuntime.Librecomp.RomReads
import N64ModernRuntime.Ultramodern.Threads

/-!
# pi.cpp: what a DMA does outside the save

A transfer from the cartridge loads overlays and scans them for jump slots, and
every transfer ends in a send to a message queue that lies in guest memory
itself.
-/

set_option autoImplicit false

namespace N64ModernRuntime.Librecomp

open Ultramodern (Ptr OSMesg MesgRing QueuedMessage inKseg0 mqIsFull)

/-! ## mesgqueue.cpp on guest memory -/

namespace GuestMemory

variable (m : GuestMemory)

def field (p : Ptr) (offset : UInt32) : UInt32 := ⟨m.word (sx32 (p + offset).toBitVec)⟩

def setField (p : Ptr) (offset value : UInt32) : GuestMemory :=
  m.setWord (sx32 (p + offset).toBitVec) value.toBitVec

def s32Field (p : Ptr) (offset : UInt32) : Int := (m.field p offset).toBitVec.toInt

def mesgRing (mq : Ptr) : MesgRing where
  validCount := m.s32Field mq 8
  first := m.s32Field mq 12
  msgCount := m.s32Field mq 16
  msg := m.field mq 20
  slots := fun i => m.field (m.field mq 20) (4 * UInt32.ofNat i.toNat)

def rdram : Rdram := fun offset => ⟨m (offset.toBitVec.setWidth 30)⟩

end GuestMemory

/-- The checks at the head of `do_send`. -/
def ringGuard (mq : Ptr) (ring : MesgRing) : Bool :=
  inKseg0 mq && inKseg0 ring.msg && decide (0 < ring.msgCount) && decide (ring.msgCount ≤ 0x10000) &&
    decide (0 ≤ ring.first) && decide (ring.first < ring.msgCount) &&
    decide (0 ≤ ring.validCount) && decide (ring.validCount ≤ ring.msgCount)

theorem sendGuard_eq (m : Ultramodern.Memory) (mq : Ptr) :
    Ultramodern.sendGuard m mq = ringGuard mq (m.mesgQueue mq).toMesgRing := rfl

def GuestMemory.takesMesg (m : GuestMemory) (mq : Ptr) : Bool :=
  ringGuard mq (m.mesgRing mq) && !mqIsFull (m.mesgRing mq)

example : (GuestMemory.ofWords 0x200000 [0, 0, 0, 0, 4, 0x80200100]).takesMesg 0x80200000 = true ∧
    (GuestMemory.ofWords 0x200000 [0, 0, 4, 0, 4, 0x80200100]).takesMesg 0x80200000 = false := by
  decide

/-- What a send leaves to the thread machine, where other threads can run. -/
structure Scheduler where
  /-- the first thread that waits for a message of the queue -/
  wakeReceiver : GuestMemory → Ptr → GuestMemory
  checkRunningQueue : GuestMemory → GuestMemory

variable (scheduler : Scheduler)

namespace GuestMemory

def mesgSlot (ring : MesgRing) (jam : Bool) : Int :=
  if jam then (ring.first + ring.msgCount - 1).tmod ring.msgCount
  else (ring.first + ring.validCount).tmod ring.msgCount

def putMesg (m : GuestMemory) (mq : Ptr) (msg : OSMesg) (jam : Bool) : GuestMemory :=
  let slot := mesgSlot (m.mesgRing mq) jam
  let moved := if jam then m.setField mq 12 (UInt32.ofInt slot) else m
  let stored := moved.setField (moved.field mq 20) (4 * UInt32.ofNat slot.toNat) msg
  stored.setField mq 8 (stored.field mq 8 + 1)

/-- `do_send(mq, msg, jam, /*block=*/false)`; `none` is the failed send. -/
def doSend (m : GuestMemory) (mq : Ptr) (msg : OSMesg) (jam : Bool) : Option GuestMemory :=
  if m.takesMesg mq then
    let sent := m.putMesg mq msg jam
    some (if sent.field mq 0 = 0 then sent else scheduler.wakeReceiver sent mq)
  else none

/-- The argument is what `try_dequeue` gives, in its order. -/
def dequeueExternalMessages : List QueuedMessage → GuestMemory → List QueuedMessage × GuestMemory
  | [], m => ([], m)
  | toSend :: rest, m =>
      match m.doSend scheduler toSend.mq toSend.mesg toSend.jam with
      | some sent => dequeueExternalMessages rest sent
      | none =>
          if toSend.coalescible then dequeueExternalMessages rest m
          else (rest ++ [toSend], m)

end GuestMemory

/-! ## The ring in guest memory -/

namespace GuestMemory

def WordsApart (a b : UInt32) : Prop :=
  ∀ i < 4, ∀ j < 4, place (sx32 a.toBitVec) + BitVec.ofNat 30 i ≠
    place (sx32 b.toBitVec) + BitVec.ofNat 30 j

theorem WordsApart.symm {a b : UInt32} (apart : WordsApart a b) : WordsApart b a :=
  fun i below j below' same => apart j below' i below same.symm

theorem place_sx32 (a : UInt32) : (place (sx32 a.toBitVec)).toNat = a.toNat % 2 ^ 30 := by
  have low : place (sx32 a.toBitVec) = a.toBitVec.setWidth 30 := by
    rw [place, sx32]
    ext i below
    simp only [BitVec.getElem_setWidth, BitVec.getLsbD_signExtend]
    grind
  rw [low, BitVec.toNat_setWidth, UInt32.toNat_toBitVec]

theorem wordsApart_of_lt (p : Ptr) {k k' : UInt32} (below : k.toNat + 4 ≤ k'.toNat)
    (near : k'.toNat < 2 ^ 29) : WordsApart (p + k) (p + k') := by
  intro i small j small' same
  have sums := congrArg BitVec.toNat same
  rw [BitVec.toNat_add, BitVec.toNat_add, place_sx32, place_sx32, UInt32.toNat_add, UInt32.toNat_add,
    BitVec.toNat_ofNat, BitVec.toNat_ofNat] at sums
  omega

variable {m : GuestMemory} {p p' : Ptr} {k k' v : UInt32}

theorem field_setField : (m.setField p k v).field p k = v := by
  have at_place : ∀ j < 4, m.setField p k v (place (sx32 (p + k).toBitVec) + BitVec.ofNat 30 j)
      = v.toBitVec.extractLsb' (8 * j) 8 := fun j small => setWord_at m _ v.toBitVec small
  have first := at_place 0 (by decide)
  rw [BitVec.add_zero] at first
  have second : m.setField p k v (place (sx32 (p + k).toBitVec) + 1) = _ := at_place 1 (by decide)
  have third : m.setField p k v (place (sx32 (p + k).toBitVec) + 2) = _ := at_place 2 (by decide)
  have fourth : m.setField p k v (place (sx32 (p + k).toBitVec) + 3) = _ := at_place 3 (by decide)
  rw [field, word, first, second, third, fourth]
  exact congrArg UInt32.ofBitVec (SwappedWords.HostBytes.append_bytes v.toBitVec)

theorem field_setField_other (apart : WordsApart (p + k) (p' + k')) :
    (m.setField p' k' v).field p k = m.field p k := by
  have kept : ∀ i < 4, m.setField p' k' v (place (sx32 (p + k).toBitVec) + BitVec.ofNat 30 i)
      = m (place (sx32 (p + k).toBitVec) + BitVec.ofNat 30 i) :=
    fun i small => setWord_frame v.toBitVec fun j small' => apart i small j small'
  have first := kept 0 (by decide)
  rw [BitVec.add_zero] at first
  have second : m.setField p' k' v (place (sx32 (p + k).toBitVec) + 1) = _ := kept 1 (by decide)
  have third : m.setField p' k' v (place (sx32 (p + k).toBitVec) + 2) = _ := kept 2 (by decide)
  have fourth : m.setField p' k' v (place (sx32 (p + k).toBitVec) + 3) = _ := kept 3 (by decide)
  rw [field, word, first, second, third, fourth]
  rfl

/-- The fields of the queue's ring and its slots are words of their own. -/
def RingApart (m : GuestMemory) (mq : Ptr) : Prop :=
  ∀ i : Int, 0 ≤ i → i < (m.mesgRing mq).msgCount → ∀ k ∈ [(8 : UInt32), 12, 16, 20],
    WordsApart (mq + k) ((m.mesgRing mq).msg + 4 * UInt32.ofNat i.toNat)

theorem mesgSlot_bounds {ring : MesgRing} {mq : Ptr} (guard : ringGuard mq ring) (jam : Bool) :
    0 ≤ mesgSlot ring jam ∧ mesgSlot ring jam < ring.msgCount ∧ ring.msgCount ≤ 0x10000 := by
  simp only [ringGuard, Bool.and_eq_true, decide_eq_true_eq] at guard
  obtain ⟨⟨⟨⟨⟨⟨⟨_, _⟩, some_slot⟩, bounded⟩, first⟩, _⟩, valid⟩, _⟩ := guard
  have slot : ∀ n : Int, 0 ≤ n → 0 ≤ n.tmod ring.msgCount ∧ n.tmod ring.msgCount < ring.msgCount :=
    fun n above => ⟨Int.tmod_nonneg _ above, Int.tmod_lt_of_pos _ some_slot⟩
  unfold mesgSlot
  split
  · exact ⟨(slot _ (by omega)).1, (slot _ (by omega)).2, bounded⟩
  · exact ⟨(slot _ (by omega)).1, (slot _ (by omega)).2, bounded⟩

theorem s32_add_one {x : UInt32} (above : 0 ≤ x.toBitVec.toInt) (below : x.toBitVec.toInt < 2 ^ 31 - 1) :
    (x + 1).toBitVec.toInt = x.toBitVec.toInt + 1 := by
  have size := x.toNat_lt
  rw [BitVec.toInt_eq_toNat_cond, UInt32.toNat_toBitVec] at above below ⊢
  rw [BitVec.toInt_eq_toNat_cond, UInt32.toNat_toBitVec, UInt32.toNat_add]
  change 0 ≤ if 2 * x.toNat < 2 ^ 32 then _ else _ at above
  have one : (1 : UInt32).toNat = 1 := rfl
  rw [one]
  split at above <;> split at below <;> split <;> omega

theorem s32_ofInt {n : Int} (above : 0 ≤ n) (below : n < 2 ^ 31) :
    (UInt32.ofInt n).toBitVec.toInt = n := by
  have value : (UInt32.ofInt n).toNat = n.toNat := by
    rw [UInt32.ofInt, UInt32.toNat_ofNat']
    omega
  rw [BitVec.toInt_eq_toNat_cond, UInt32.toNat_toBitVec, value]
  split <;> omega

section Put

variable {mq : Ptr}

theorem putMesg_field (takes : m.takesMesg mq) (apart : m.RingApart mq) (msg : OSMesg)
    (jam : Bool) :
    let slot := mesgSlot (m.mesgRing mq) jam
    let sent := m.putMesg mq msg jam
    sent.field mq 8 = m.field mq 8 + 1 ∧
      sent.field mq 12 = (if jam then UInt32.ofInt slot else m.field mq 12) ∧
      sent.field mq 16 = m.field mq 16 ∧ sent.field mq 20 = m.field mq 20 := by
  intro slot sent
  simp only [takesMesg, Bool.and_eq_true] at takes
  obtain ⟨above, below, -⟩ := mesgSlot_bounds takes.1 jam
  have near : ∀ k k' : UInt32, k.toNat + 4 ≤ k'.toNat → k'.toNat < 2 ^ 29 →
      WordsApart (mq + k) (mq + k') := fun k k' => wordsApart_of_lt mq
  have moved : ∀ k ∈ [(8 : UInt32), 16, 20],
      (if jam then m.setField mq 12 (UInt32.ofInt slot) else m).field mq k = m.field mq k := by
    intro k member
    split
    · refine field_setField_other ?_
      simp only [List.mem_cons, List.not_mem_nil, or_false] at member
      rcases member with rfl | rfl | rfl
      · exact near 8 12 (by decide) (by decide)
      · exact (near 12 16 (by decide) (by decide)).symm
      · exact (near 12 20 (by decide) (by decide)).symm
    · rfl
  have first : (if jam then m.setField mq 12 (UInt32.ofInt slot) else m).field mq 12
      = if jam then UInt32.ofInt slot else m.field mq 12 := by
    split
    · exact field_setField
    · rfl
  have buffer := moved 20 (by decide)
  have stored : ∀ k ∈ [(8 : UInt32), 12, 16, 20], ∀ moved : GuestMemory,
      (moved.setField (m.field mq 20) (4 * UInt32.ofNat slot.toNat) msg).field mq k
        = moved.field mq k :=
    fun k member moved => field_setField_other (apart slot above below k member)
  have sent_eq : sent =
      let moved := if jam then m.setField mq 12 (UInt32.ofInt slot) else m
      let stored := moved.setField (moved.field mq 20) (4 * UInt32.ofNat slot.toNat) msg
      stored.setField mq 8 (stored.field mq 8 + 1) := rfl
  dsimp only at sent_eq
  rw [buffer] at sent_eq
  have counted : ∀ k, 8 + 4 ≤ k.toNat → k.toNat < 2 ^ 29 → k ∈ [(8 : UInt32), 12, 16, 20] →
      sent.field mq k = (if jam then m.setField mq 12 (UInt32.ofInt slot) else m).field mq k := by
    intro k far small member
    rw [sent_eq, field_setField_other (near 8 k far small).symm, stored k member]
  refine ⟨?_, ?_, ?_, ?_⟩
  · rw [sent_eq, field_setField, stored 8 (by decide), moved 8 (by decide)]
  · rw [counted 12 (by decide) (by decide) (by decide), first]
  · rw [counted 16 (by decide) (by decide) (by decide), moved 16 (by decide)]
  · rw [counted 20 (by decide) (by decide) (by decide), buffer]

theorem putMesg_slots (takes : m.takesMesg mq) (apart : m.RingApart mq) (msg : OSMesg)
    (jam : Bool) {i : Int} (inside : 0 ≤ i) (below : i < (m.mesgRing mq).msgCount) :
    ((m.putMesg mq msg jam).mesgRing mq).slots i
      = if i = mesgSlot (m.mesgRing mq) jam then msg else (m.mesgRing mq).slots i := by
  obtain ⟨-, -, -, buffer⟩ := putMesg_field takes apart msg jam
  simp only [takesMesg, Bool.and_eq_true] at takes
  obtain ⟨above, within, small⟩ := mesgSlot_bounds takes.1 jam
  have away : ∀ k ∈ [(8 : UInt32), 12, 16, 20],
      WordsApart ((m.mesgRing mq).msg + 4 * UInt32.ofNat i.toNat) (mq + k) := fun k member =>
    (apart i inside below k member).symm
  have moved_buffer : (if jam then m.setField mq 12 (UInt32.ofInt (mesgSlot (m.mesgRing mq) jam))
      else m).field mq 20 = (m.mesgRing mq).msg := by
    split
    · exact field_setField_other (wordsApart_of_lt mq (by decide) (by decide)).symm
    · rfl
  have moved : (if jam then m.setField mq 12 (UInt32.ofInt (mesgSlot (m.mesgRing mq) jam))
      else m).field (m.mesgRing mq).msg (4 * UInt32.ofNat i.toNat) = (m.mesgRing mq).slots i := by
    split
    · exact field_setField_other (away 12 (by decide))
    · rfl
  change (m.putMesg mq msg jam).field ((m.putMesg mq msg jam).field mq 20)
    (4 * UInt32.ofNat i.toNat) = _
  rw [buffer, putMesg, moved_buffer]
  change field _ (m.mesgRing mq).msg _ = _
  rw [field_setField_other (away 8 (by decide))]
  by_cases same : i = mesgSlot (m.mesgRing mq) jam
  · rw [if_pos same, same, field_setField]
  · rw [if_neg same, field_setField_other, moved]
    have words : ∀ {n : Int}, 0 ≤ n → n < 0x10000 →
        (4 * UInt32.ofNat n.toNat).toNat = 4 * n.toNat := by
      intro n above below
      rw [UInt32.toNat_mul, UInt32.toNat_ofNat']
      change 4 * _ % _ = _
      omega
    have here := words inside (by omega)
    have there := words above (by omega)
    rcases Int.lt_or_gt_of_ne same with lower | higher
    · exact wordsApart_of_lt _ (by omega) (by omega)
    · exact (wordsApart_of_lt _ (by omega) (by omega)).symm

/-- The stores of a send are `MesgRing.put`. -/
theorem putMesg_ring (takes : m.takesMesg mq) (apart : m.RingApart mq) (msg : OSMesg) (jam : Bool) :
    let next := (m.putMesg mq msg jam).mesgRing mq
    let put := (m.mesgRing mq).put msg jam
    next.validCount = put.validCount ∧ next.first = put.first ∧ next.msgCount = put.msgCount ∧
      next.msg = put.msg ∧ ∀ i, 0 ≤ i → i < put.msgCount → next.slots i = put.slots i := by
  obtain ⟨count, first, capacity, buffer⟩ := putMesg_field takes apart msg jam
  have slots := fun i => putMesg_slots takes apart msg jam (i := i)
  simp only [takesMesg, Bool.and_eq_true] at takes
  obtain ⟨above, within, small⟩ := mesgSlot_bounds takes.1 jam
  have filled : ((m.putMesg mq msg jam).mesgRing mq).validCount = (m.mesgRing mq).validCount + 1 := by
    have guard := takes.1
    simp only [ringGuard, Bool.and_eq_true, decide_eq_true_eq] at guard
    obtain ⟨⟨⟨_, bounded⟩, positive⟩, fits⟩ := guard
    change (UInt32.toBitVec (field _ mq 8)).toInt = _
    rw [count]
    exact s32_add_one positive (lt_of_le_of_lt fits (by omega))
  have moved : ((m.putMesg mq msg jam).mesgRing mq).first
      = if jam then mesgSlot (m.mesgRing mq) jam else (m.mesgRing mq).first := by
    change (UInt32.toBitVec (field _ mq 12)).toInt = _
    rw [first]
    split
    · exact s32_ofInt above (by omega)
    · rfl
  have same_capacity : ((m.putMesg mq msg jam).mesgRing mq).msgCount = (m.mesgRing mq).msgCount := by
    change (UInt32.toBitVec (field _ mq 16)).toInt = _
    rw [capacity]
    rfl
  cases jam with
  | true =>
      refine ⟨filled, moved, same_capacity, buffer, fun i inside below => ?_⟩
      rw [slots i inside below]
      exact (Function.update_apply _ _ _ _).symm
  | false =>
      refine ⟨filled, moved, same_capacity, buffer, fun i inside below => ?_⟩
      rw [slots i inside below]
      exact (Function.update_apply _ _ _ _).symm

end Put

end GuestMemory

/-! ## The bus -/

variable (table : SectionTable)

/-- `overlays` is `none` once a call of `load_overlays` has not returned; nothing
that comes after it happens.  `posted` has the messages of `dma_complete` that
have entered a queue, with the memory that the transfer had left, the last one
first. -/
structure PiBus where
  memory : GuestMemory
  overlays : Option (Overlays table)
  /-- `is_game_thread()` -/
  gameThread : Bool
  external : List QueuedMessage
  posted : List (UInt64 × GuestMemory)

variable {table}

namespace PiBus

/-- `osSendMesg(mq, 0, OS_MESG_NOBLOCK)` -/
def osSendMesg (bus : PiBus table) (mq : UInt64) : PiBus table :=
  match bus.overlays with
  | none => bus
  | some _ =>
      if bus.gameThread then
        let (left, drained) := bus.memory.dequeueExternalMessages scheduler bus.external
        match drained.doSend scheduler mq.toUInt32 0 false with
        | some sent =>
            { bus with
              memory := scheduler.checkRunningQueue sent
              external := left
              posted := (mq, bus.memory) :: bus.posted }
        | none => { bus with memory := scheduler.checkRunningQueue drained, external := left }
      else
        { bus with
          external := bus.external ++ [⟨mq.toUInt32, 0, false, false⟩]
          posted := (mq, bus.memory) :: bus.posted }

/-- The read of `do_dma` from the cartridge, up to its completion. -/
def doRomRead (cart : Cart) (bus : PiBus table) (address : UInt64) (physicalAddr size : UInt32) :
    PiBus table :=
  let memory := (cart.doRomRead ⟨bus.memory, []⟩ address physicalAddr size.toUInt64).memory
  let romOffset := physicalAddr - romBase
  { bus with
    memory := memory
    overlays := (bus.overlays.bind fun s => s.loadOverlays romOffset address.toUInt32 size).map
      fun s => Overlays.scanLoadedFragmentTrampolines memory.rdram s romOffset size }

/-- The message of a transfer that has left this state enters a queue: at once,
or in the external queue where the caller is no game thread. -/
def Takes (bus : PiBus table) (mq : UInt64) : Prop :=
  bus.gameThread → (bus.memory.dequeueExternalMessages scheduler bus.external).2.takesMesg mq.toUInt32

variable {scheduler} {bus : PiBus table} {overlays : Overlays table} {mq : UInt64}

theorem posted_of_takes (loaded : bus.overlays = some overlays) (takes : bus.Takes scheduler mq) :
    (bus.osSendMesg scheduler mq).posted = (mq, bus.memory) :: bus.posted := by
  rw [osSendMesg, loaded]
  dsimp only
  split
  · rename_i game
    rw [GuestMemory.doSend, if_pos (takes game)]
  · rfl

theorem posted_of_refused (loaded : bus.overlays = some overlays)
    (refused : ¬ bus.Takes scheduler mq) :
    (bus.osSendMesg scheduler mq).posted = bus.posted := by
  obtain ⟨game, full⟩ := Classical.not_imp.mp refused
  rw [osSendMesg, loaded]
  dsimp only
  rw [if_pos game, GuestMemory.doSend, if_neg full]

end PiBus

def Cart.piGuest (cart : Cart) : SaveGuest (PiBus table) where
  memB bus pos address :=
    ⟨guestMacros.memB bus.memory (BitVec.ofNat 64 pos.toNat) address.toBitVec⟩
  setMemB bus pos address value := { bus with memory := bus.memory.putByte address pos.toNat value }
  setMemW bus pos address value :=
    { bus with
      memory := guestMacros.setMemW bus.memory (BitVec.ofNat 64 pos.toNat) address.toBitVec
        value.toBitVec }
  osSendMesg bus mq := bus.osSendMesg scheduler mq
  doRomRead bus address physicalAddr size := bus.doRomRead cart address physicalAddr size
  doRomPio bus address physicalAddr :=
    { bus with memory := (cart.doRomPio ⟨bus.memory, []⟩ address physicalAddr).memory }
  flashHandle := 0x80800000

end N64ModernRuntime.Librecomp
