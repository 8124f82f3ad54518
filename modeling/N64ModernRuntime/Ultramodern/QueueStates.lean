import N64ModernRuntime.Lib.LinearProbing

/-!
# mesgqueue.cpp: the never-evict table of queue events

`qstate_push` and the copy of the table that a probe takes.  The event ring of
`record` is left out.
-/

set_option autoImplicit false

namespace N64ModernRuntime.Ultramodern.MesgLog

open LinearProbing

structure Event where
  seq : UInt64
  ms : UInt64
  mq : UInt32
  msg : UInt32
  thread : UInt32
  threadId : UInt16
  validBefore : UInt16
  validAfter : UInt16
  op : UInt8
  block : UInt8
  gameThread : UInt8
  pad : UInt8
  reserved : UInt16
  deriving DecidableEq, Repr

def Event.zero : Event := ⟨0, 0, 0, 0, 0, 0, 0, 0, 0, 0, 0, 0, 0⟩

def qevents : Nat := 64

def qcap : Nat := 1024

instance : NeZero qcap := ⟨Nat.succ_ne_zero 1023⟩

structure QState where
  queue : UInt32
  count : UInt32
  last : Vector Event qevents

def QState.zero : QState := ⟨0, 0, Vector.replicate qevents Event.zero⟩

theorem position_lt (count : UInt32) : (count &&& 63).toNat < qevents := by
  rw [UInt32.toNat_and]
  exact Nat.lt_of_le_of_lt Nat.and_le_right (by decide)

/-- `q.count & (QEVENTS - 1)` -/
def position (count : UInt32) : Fin qevents := ⟨(count &&& 63).toNat, position_lt count⟩

/-- What `qstate_push` does to the slot that it stops at. -/
def QState.record (mq : UInt32) (e : Event) (q : QState) : QState where
  queue := mq
  count := q.count + 1
  last := q.last.set (position q.count) e

/-- `qstates[(h + probe) % QCAP]` -/
def probeSlot (mq : UInt32) (probe : Nat) : Fin qcap :=
  Fin.ofNat qcap ((mq >>> 3).toNat % qcap + probe)

def stopsAt (qstates : Vector QState qcap) (mq : UInt32) : Option (Fin qcap) :=
  ((List.range qcap).find? fun probe =>
    let q := qstates[probeSlot mq probe]
    decide (q.queue = 0 ∨ q.queue = mq)).map (probeSlot mq)

def qstatePush (qstates : Vector QState qcap) (mq : UInt32) (e : Event) : Vector QState qcap :=
  if mq = 0 then qstates
  else
    match stopsAt qstates mq with
    | some i => qstates.set i (qstates[i].record mq e)
    | none => qstates

def qstatesAfter (pushes : List (UInt32 × Event)) : Vector QState qcap :=
  pushes.foldl (fun qstates p => qstatePush qstates p.1 p.2) (Vector.replicate qcap QState.zero)

/-! ## One slot -/

def owner (q : QState) : Option UInt32 := if q.queue = 0 then none else some q.queue

theorem owner_eq_some {q : QState} {mq : UInt32} (some_queue : mq ≠ 0) :
    owner q = some mq ↔ q.queue = mq := by
  unfold owner
  split
  · rename_i zero
    rw [zero]
    exact iff_of_false (fun same => nomatch same) (Ne.symm some_queue)
  · rw [Option.some_inj]

/-- A slot with the events of its queue: how many there were, and the last ones, from the
position of the count backwards. -/
structure Recorded (q : QState) (events : List Event) : Prop where
  count : q.count = UInt32.ofNat events.length
  history : ∀ k < min events.length qevents,
    some (q.last.get (position (q.count - 1 - UInt32.ofNat k))) = events[events.length - 1 - k]?
  only : ∀ e ∈ q.last, e ∈ events ∨ e = Event.zero

theorem position_ofNat (m : Nat) : (position (UInt32.ofNat m)).val = m % 64 := by
  change (UInt32.ofNat m &&& 63).toNat = m % 64
  have mask : (63 : UInt32).toNat = 2 ^ 6 - 1 := rfl
  rw [UInt32.toNat_and, mask, Nat.and_two_pow_sub_one_eq_mod, UInt32.toNat_ofNat']
  exact Nat.mod_mod_of_dvd m (by decide)

theorem get_record (mq : UInt32) (e : Event) (q : QState) (i : Fin qevents) :
    (q.record mq e).last.get i = if position q.count = i then e else q.last.get i :=
  getElem_set q.last (position q.count) i e

structure RingOf (q : QState) (events : List Event) : Prop where
  count : q.count = UInt32.ofNat events.length
  kept : ∀ m < events.length, events.length ≤ m + 64 →
    some (q.last.get (position (UInt32.ofNat m))) = events[m]?
  only : ∀ e ∈ q.last, e ∈ events ∨ e = Event.zero

theorem ringOf_zero : RingOf QState.zero [] where
  count := rfl
  kept m below := absurd below (Nat.not_lt_zero m)
  only _ mem := Or.inr (Vector.eq_of_mem_replicate mem)

/-- A push overwrites the event that is 64 behind. -/
theorem RingOf.record {q : QState} {events : List Event} (ring : RingOf q events) (mq : UInt32)
    (e : Event) : RingOf (q.record mq e) (events ++ [e]) where
  count := by
    have next : (q.record mq e).count = q.count + 1 := rfl
    rw [next, ring.count, List.length_append, List.length_singleton, UInt32.ofNat_add]
    rfl
  kept m below near := by
    rw [List.length_append, List.length_singleton] at below near
    rw [get_record, ring.count]
    by_cases new : m = events.length
    · rw [new, if_pos rfl, List.getElem?_append_right (Nat.le_refl _), Nat.sub_self,
        List.getElem?_cons_zero]
    · have older : m < events.length := by omega
      have elsewhere : position (UInt32.ofNat events.length) ≠ position (UInt32.ofNat m) := by
        intro same
        have positions := congrArg Fin.val same
        rw [position_ofNat, position_ofNat] at positions
        omega
      rw [if_neg elsewhere, List.getElem?_append_left older]
      exact ring.kept m older (by omega)
  only e' mem := by
    have stored : e' ∈ q.last.set (position q.count).val e (position q.count).isLt := mem
    rw [List.mem_append, List.mem_singleton]
    rcases Vector.mem_or_eq_of_mem_set stored with old | new
    · rcases ring.only e' old with kept | zero
      · exact Or.inl (Or.inl kept)
      · exact Or.inr zero
    · exact Or.inl (Or.inr new)

theorem RingOf.recorded {q : QState} {events : List Event} (ring : RingOf q events) :
    Recorded q events where
  count := ring.count
  history k near := by
    have back : q.count - 1 - UInt32.ofNat k = UInt32.ofNat (events.length - 1 - k) := by
      have sum : events.length = events.length - 1 - k + k + 1 := by omega
      rw [ring.count]
      conv_lhs => rw [sum, UInt32.ofNat_add, UInt32.ofNat_add]
      rw [show UInt32.ofNat 1 = 1 from rfl, UInt32.add_sub_cancel, UInt32.add_sub_cancel]
    rw [back]
    exact ring.kept _ (by omega) (by unfold qevents at near; omega)
  only := ring.only

theorem contents_ringOf (mq : UInt32) (events : List Event) :
    RingOf (contents QState.record QState.zero mq events) events := by
  induction events using List.reverseRecOn with
  | nil => exact ringOf_zero
  | append_singleton events e ih =>
      rw [contents_append]
      exact ih.record mq e

/-! ## The table -/

/-- `(mq >> 3) % QCAP` -/
def homeSlot (mq : UInt32) : Nat := (mq >>> 3).toNat % qcap

theorem owner_record {mq : UInt32} (some_queue : mq ≠ 0) (e : Event) (q : QState) :
    owner (q.record mq e) = some mq := (owner_eq_some some_queue).mpr rfl

/-- `qstate_push` is the push of linear probing. -/
theorem qstatePush_eq (qstates : Vector QState qcap) {mq : UInt32} (some_queue : mq ≠ 0)
    (e : Event) : qstatePush qstates mq e = push homeSlot owner QState.record qstates (mq, e) := by
  have stops (q : QState) : (q.queue = 0 ∨ q.queue = mq) ↔ (owner q = none ∨ owner q = some mq) := by
    rw [owner_eq_some some_queue]
    have free : owner q = none ↔ q.queue = 0 := by
      unfold owner
      split
      · rename_i zero
        exact iff_of_true rfl zero
      · rename_i taken
        exact iff_of_false (Option.some_ne_none _) taken
    rw [free]
  have probes : (fun probe => decide (qstates[probeSlot mq probe].queue = 0 ∨
        qstates[probeSlot mq probe].queue = mq)) =
      fun probe => decide (owner qstates[(slot homeSlot mq probe : Fin qcap)] = none ∨
        owner qstates[(slot homeSlot mq probe : Fin qcap)] = some mq) :=
    funext fun probe => decide_eq_decide.mpr (stops _)
  have found : stopsAt qstates mq = find homeSlot owner qstates mq := by
    rw [stopsAt, find]
    dsimp only
    rw [probes]
    rfl
  rw [qstatePush, if_neg some_queue, push, found]
  cases find homeSlot owner qstates mq with
  | none => rfl
  | some i => rfl

theorem qstatesAfter_eq (pushes : List (UInt32 × Event)) :
    qstatesAfter pushes = (pushes.filter fun p => p.1 ≠ 0).foldl
      (push homeSlot owner QState.record) (Vector.replicate qcap QState.zero) := by
  rw [qstatesAfter, List.foldl_filter]
  congr 1
  funext qstates p
  by_cases null : p.1 = 0
  · rw [qstatePush, if_pos null, if_neg (by simpa using null)]
  · rw [qstatePush_eq qstates null, if_pos (by simpa using null)]

section Pushes

variable {pushes : List (UInt32 × Event)}

def pushedQueues (pushes : List (UInt32 × Event)) : Finset UInt32 :=
  (pushes.map Prod.fst).toFinset.erase 0

theorem mem_pushedQueues {mq : UInt32} :
    mq ∈ pushedQueues pushes ↔ mq ≠ 0 ∧ mq ∈ pushes.map Prod.fst := by
  rw [pushedQueues, Finset.mem_erase, List.mem_toFinset]

theorem map_filter_nonzero (pushes : List (UInt32 × Event)) :
    ((pushes.filter fun p => p.1 ≠ 0).map Prod.fst).toFinset = pushedQueues pushes := by
  ext mq
  rw [List.mem_toFinset, mem_pushedQueues, List.mem_map, List.mem_map]
  constructor
  · rintro ⟨p, mem, rfl⟩
    obtain ⟨pushed, nonzero⟩ := List.mem_filter.mp mem
    exact ⟨of_decide_eq_true nonzero, p, pushed, rfl⟩
  · rintro ⟨nonzero, p, pushed, rfl⟩
    exact ⟨p, List.mem_filter.mpr ⟨pushed, decide_eq_true nonzero⟩, rfl⟩

theorem eventsOf_filter_nonzero {mq : UInt32} (some_queue : mq ≠ 0) :
    eventsOf mq (pushes.filter fun p => p.1 ≠ 0) = eventsOf mq pushes := by
  rw [eventsOf, eventsOf, List.filter_filter]
  congr 1
  apply List.filter_congr
  intro p _
  by_cases own : p.1 = mq
  · rw [decide_eq_true own, Bool.true_and, decide_eq_true (own ▸ some_queue)]
  · rw [decide_eq_false own, Bool.false_and]

theorem qstatesAfter_holds (few : (pushedQueues pushes).card ≤ qcap) :
    Holds homeSlot owner QState.record QState.zero (qstatesAfter pushes)
      (pushes.filter fun p => p.1 ≠ 0) := by
  rw [qstatesAfter_eq]
  apply run_holds rfl
  · intro p mem q
    exact owner_record (of_decide_eq_true (List.mem_filter.mp mem).2) p.2 q
  · rw [map_filter_nonzero]
    exact few

theorem slot_recorded (few : (pushedQueues pushes).card ≤ qcap) (i : Fin qcap)
    (taken : (qstatesAfter pushes)[i].queue ≠ 0) :
    (qstatesAfter pushes)[i].queue ∈ pushedQueues pushes ∧
      Recorded (qstatesAfter pushes)[i] (eventsOf (qstatesAfter pushes)[i].queue pushes) := by
  have holds := qstatesAfter_holds few
  obtain ⟨mem, contents⟩ := holds.taken i _ ((owner_eq_some taken).mpr rfl)
  refine ⟨by rw [← map_filter_nonzero]; exact List.mem_toFinset.mpr mem, ?_⟩
  rw [eventsOf_filter_nonzero taken] at contents
  generalize (qstatesAfter pushes)[i] = q at contents ⊢
  have ring := contents_ringOf q.queue (eventsOf q.queue pushes)
  rw [← contents] at ring
  exact ring.recorded

theorem slot_exists (few : (pushedQueues pushes).card ≤ qcap) {mq : UInt32}
    (pushed : mq ∈ pushedQueues pushes) : ∃ i : Fin qcap, (qstatesAfter pushes)[i].queue = mq := by
  have some_queue := (mem_pushedQueues.mp pushed).1
  rw [← map_filter_nonzero, List.mem_toFinset] at pushed
  obtain ⟨i, taken⟩ := (qstatesAfter_holds few).owns mq pushed
  exact ⟨i, (owner_eq_some some_queue).mp taken⟩

theorem slot_unique (few : (pushedQueues pushes).card ≤ qcap) {mq : UInt32} (some_queue : mq ≠ 0)
    {i j : Fin qcap} (first : (qstatesAfter pushes)[i].queue = mq)
    (second : (qstatesAfter pushes)[j].queue = mq) : i = j :=
  (qstatesAfter_holds few).placed.unique ((owner_eq_some some_queue).mpr first)
    ((owner_eq_some some_queue).mpr second)

/-- After every run of pushes of at most 1024 queues: each of them has one slot, each slot
that is taken records the pushes of its queue, and the others are empty. -/
theorem queue_states_recorded (few : (pushedQueues pushes).card ≤ qcap) :
    (∀ mq ∈ pushedQueues pushes, ∃! i : Fin qcap, (qstatesAfter pushes)[i].queue = mq) ∧
      (∀ i : Fin qcap, (qstatesAfter pushes)[i].queue ≠ 0 →
        (qstatesAfter pushes)[i].queue ∈ pushedQueues pushes ∧
          Recorded (qstatesAfter pushes)[i] (eventsOf (qstatesAfter pushes)[i].queue pushes)) ∧
      ∀ i : Fin qcap, (qstatesAfter pushes)[i].queue = 0 →
        (qstatesAfter pushes)[i] = QState.zero := by
  refine ⟨?_, slot_recorded few, ?_⟩
  · intro mq pushed
    obtain ⟨i, owns⟩ := slot_exists few pushed
    exact ⟨i, owns, fun j also => slot_unique few (mem_pushedQueues.mp pushed).1 also owns⟩
  · intro i null
    exact (qstatesAfter_holds few).free i (if_pos null)

end Pushes

def collidingPushes : List (UInt32 × Event) :=
  [(0x80000008, { Event.zero with mq := 0x80000008 }),
    (0x80002008, { Event.zero with mq := 0x80002008 }),
    (0x80000008, { Event.zero with mq := 0x80000008, seq := 2 })]

theorem colliding_queues_recorded :
    ∃! i : Fin qcap, (qstatesAfter collidingPushes)[i].queue = 0x80002008 := by
  have few : (pushedQueues collidingPushes).card ≤ qcap := by decide
  exact (queue_states_recorded few).1 0x80002008 (mem_pushedQueues.mpr (by decide))

/-! ## The copy for a probe -/

/-- The loop of `ultramodern_mesg_qstates_copy`, with the entries that may still be written. -/
def copyFrom : Nat → List QState → List QState
  | _, [] => []
  | 0, _ :: _ => []
  | room + 1, q :: rest =>
      if q.queue ≠ 0 then q :: copyFrom room rest else copyFrom (room + 1) rest

/-- `ultramodern_mesg_qstates_copy`; nothing is written to a null pointer.  `*n_written` is the
length of what is written. -/
def mesgQstatesCopy (outGiven : Bool) (room : Nat) (qstates : Vector QState qcap) : List QState :=
  if outGiven then copyFrom room qstates.toList else []

theorem copyFrom_eq (room : Nat) (qs : List QState) :
    copyFrom room qs = (qs.filter fun q => q.queue ≠ 0).take room := by
  induction qs generalizing room with
  | nil => rw [copyFrom, List.filter_nil, List.take_nil]
  | cons q rest ih =>
      cases room with
      | zero => rw [copyFrom, List.take_zero]
      | succ room =>
          by_cases taken : q.queue ≠ 0
          · rw [copyFrom, if_pos taken, List.filter_cons, if_pos (decide_eq_true taken),
              List.take_succ_cons, ih]
          · rw [copyFrom, if_neg taken, List.filter_cons, if_neg (by simpa using taken), ih]

section Copy

variable {pushes : List (UInt32 × Event)}

theorem mem_taken_slots (q : QState) :
    q ∈ (qstatesAfter pushes).toList.filter (fun q => q.queue ≠ 0) ↔
      ∃ i : Fin qcap, (qstatesAfter pushes)[i] = q ∧ q.queue ≠ 0 := by
  rw [List.mem_filter, Vector.mem_toList_iff, Vector.mem_iff_getElem]
  constructor
  · rintro ⟨⟨i, below, same⟩, taken⟩
    exact ⟨⟨i, below⟩, same, of_decide_eq_true taken⟩
  · rintro ⟨i, same, taken⟩
    exact ⟨⟨i.val, i.isLt, same⟩, decide_eq_true taken⟩

theorem taken_slots_distinct (few : (pushedQueues pushes).card ≤ qcap) :
    (((qstatesAfter pushes).toList.filter fun q => q.queue ≠ 0).map QState.queue).Nodup := by
  rw [List.Nodup, List.pairwise_map, List.pairwise_filter, List.pairwise_iff_getElem]
  intro i j below below' before taken _ same
  rw [Vector.length_toList] at below below'
  have slots : (⟨i, below⟩ : Fin qcap) = ⟨j, below'⟩ :=
    slot_unique few (of_decide_eq_true taken) rfl same.symm
  have index : i = j := congrArg Fin.val slots
  omega

theorem taken_slots_queues (few : (pushedQueues pushes).card ≤ qcap) :
    (((qstatesAfter pushes).toList.filter fun q => q.queue ≠ 0).map QState.queue).toFinset =
      pushedQueues pushes := by
  ext mq
  rw [List.mem_toFinset, List.mem_map]
  constructor
  · rintro ⟨q, mem, rfl⟩
    obtain ⟨i, rfl, taken⟩ := (mem_taken_slots q).mp mem
    exact (slot_recorded few i taken).1
  · intro pushed
    obtain ⟨i, rfl⟩ := slot_exists few pushed
    exact ⟨_, (mem_taken_slots _).mpr ⟨i, rfl, (mem_pushedQueues.mp pushed).1⟩, rfl⟩

/-- With room for all pushed queues the probe gets each of them once, with its record. -/
theorem mesgQstatesCopy_complete (few : (pushedQueues pushes).card ≤ qcap) {room : Nat}
    (enough : (pushedQueues pushes).card ≤ room) :
    let copied := mesgQstatesCopy true room (qstatesAfter pushes)
    (copied.map QState.queue).Nodup ∧ (copied.map QState.queue).toFinset = pushedQueues pushes ∧
      ∀ q ∈ copied, Recorded q (eventsOf q.queue pushes) := by
  have distinct := taken_slots_distinct few
  have queues := taken_slots_queues few
  have length : ((qstatesAfter pushes).toList.filter fun q => q.queue ≠ 0).length ≤ room := by
    have count := List.toFinset_card_of_nodup distinct
    rw [queues, List.length_map] at count
    omega
  have copied : mesgQstatesCopy true room (qstatesAfter pushes) =
      (qstatesAfter pushes).toList.filter fun q => q.queue ≠ 0 := by
    rw [mesgQstatesCopy, if_pos rfl, copyFrom_eq, List.take_of_length_le length]
  rw [copied]
  refine ⟨distinct, queues, fun q mem => ?_⟩
  obtain ⟨i, rfl, taken⟩ := (mem_taken_slots q).mp mem
  exact (slot_recorded few i taken).2

end Copy

end N64ModernRuntime.Ultramodern.MesgLog
