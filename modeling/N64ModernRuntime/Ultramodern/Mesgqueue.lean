import N64ModernRuntime.Lib.Ring
import N64ModernRuntime.Ultramodern.ThreadQueue

/-!
# mesgqueue.cpp: the guest message queues

`do_send` and `do_recv` on one memory, without the blocking loops, which hand
the CPU over and belong to the thread machine.  The ring of a queue refines a
bounded double-ended queue of capacity `msgCount`.
-/

set_option autoImplicit false

namespace N64ModernRuntime.Ultramodern

open Ring

def osCreateMesgQueue (m : Memory) (mq : Ptr) (msg : Ptr) (count : Int) : Memory :=
  m.modifyMesgQueue mq fun queue =>
    { queue with
      blockedOnRecv := nullptr
      blockedOnSend := nullptr
      msgCount := count
      msg := msg
      validCount := 0
      first := 0 }

def mqIsEmpty (ring : MesgRing) : Bool := decide (ring.validCount = 0)

def mqIsFull (ring : MesgRing) : Bool := decide (ring.msgCount ≤ ring.validCount)

def inKseg0 (p : Ptr) : Bool := decide (0x80000000 ≤ p) && decide (p < 0x80800000)

/-- The checks at the head of `do_send`; a queue that fails one is left alone. -/
def sendGuard (m : Memory) (mq : Ptr) : Bool :=
  let ring := (m.mesgQueue mq).toMesgRing
  inKseg0 mq && inKseg0 ring.msg && decide (0 < ring.msgCount) && decide (ring.msgCount ≤ 0x10000) &&
    decide (0 ≤ ring.first) && decide (ring.first < ring.msgCount) &&
    decide (0 ≤ ring.validCount) && decide (ring.validCount ≤ ring.msgCount)

/-- scheduling.cpp -/
def scheduleRunningThread (m : Memory) (t : Ptr) : Memory :=
  (threadQueueInsert m .running t).modifyThread t fun thread => { thread with state := .queued }

/-- The tail of `do_send` and of `do_recv`: the first thread waiting on the
other side is made runnable. -/
def wakeFirst (m : Memory) (blocked : ThreadQueue) : Memory :=
  if threadQueueEmpty m blocked then m
  else scheduleRunningThread (threadQueuePop m blocked).2 (threadQueuePop m blocked).1

/-- `%` on `s32` truncates. -/
def MesgRing.put (ring : MesgRing) (msg : OSMesg) (jam : Bool) : MesgRing :=
  if jam then
    let first := (ring.first + ring.msgCount - 1).tmod ring.msgCount
    { ring with
      first := first
      slots := Function.update ring.slots first msg
      validCount := ring.validCount + 1 }
  else
    let last := (ring.first + ring.validCount).tmod ring.msgCount
    { ring with
      slots := Function.update ring.slots last msg
      validCount := ring.validCount + 1 }

def MesgRing.take (ring : MesgRing) : MesgRing :=
  { ring with
    first := (ring.first + 1).tmod ring.msgCount
    validCount := ring.validCount - 1 }

/-- `do_send` from the point where the queue is known not to be full -/
def sendInto (m : Memory) (mq : Ptr) (msg : OSMesg) (jam : Bool) : Memory :=
  wakeFirst (m.setRing mq ((m.mesgQueue mq).put msg jam)) (.blockedOnRecv mq)

/-- `do_recv` from the point where the queue is known not to be empty, without
the store of the message through `msg_` -/
def recvFrom (m : Memory) (mq : Ptr) : Memory :=
  wakeFirst (m.setRing mq (m.mesgQueue mq).take) (.blockedOnSend mq)

/-- `do_send(mq, msg, jam, /*block=*/false)` -/
def doSend (m : Memory) (mq : Ptr) (msg : OSMesg) (jam : Bool) : Bool × Memory :=
  if sendGuard m mq = false then (false, m)
  else if mqIsFull (m.mesgQueue mq).toMesgRing then (false, m)
  else (true, sendInto m mq msg jam)

/-- `do_recv(mq, msg_, /*block=*/false)`; `none` is the failed receive, otherwise
the message that goes to `*msg_`. -/
def doRecv (m : Memory) (mq : Ptr) : Option OSMesg × Memory :=
  let ring := (m.mesgQueue mq).toMesgRing
  if mqIsEmpty ring then (none, m)
  else (some (ring.slots ring.first), recvFrom m mq)

/-! ## Frames -/

section Frames
variable (m : Memory) (q : ThreadQueue) (t u mq : Ptr)

theorem scheduleRunningThread_field {γ : Type} (field : OSThread → γ)
    (keeps : ∀ (thread : OSThread) p (link : Option ThreadQueue) state,
      field { thread with next := p, queue := link, state := state } = field thread) :
    field ((scheduleRunningThread m t).thread u) = field (m.thread u) := by
  unfold scheduleRunningThread
  rw [modifyThread_field _ _ _ _ field fun thread => keeps thread thread.next thread.queue .queued]
  exact threadQueueInsert_field m .running t u field
    (fun thread p => keeps thread p thread.queue thread.state) fun _ => keeps

theorem wakeFirst_field {γ : Type} (field : OSThread → γ)
    (keeps : ∀ (thread : OSThread) p (link : Option ThreadQueue) state,
      field { thread with next := p, queue := link, state := state } = field thread) :
    field ((wakeFirst m q).thread u) = field (m.thread u) := by
  unfold wakeFirst
  split
  · rfl
  · rw [scheduleRunningThread_field _ _ _ field keeps]
    exact threadQueuePop_field m q u field fun _ thread =>
      keeps thread thread.next none thread.state

@[simp] theorem scheduleRunningThread_ring :
    ((scheduleRunningThread m t).mesgQueue mq).toMesgRing = (m.mesgQueue mq).toMesgRing := by
  simp [scheduleRunningThread]

@[simp] theorem wakeFirst_ring :
    ((wakeFirst m q).mesgQueue mq).toMesgRing = (m.mesgQueue mq).toMesgRing := by
  unfold wakeFirst
  split <;> simp

@[simp] theorem sendInto_ring_self (msg : OSMesg) (jam : Bool) :
    ((sendInto m mq msg jam).mesgQueue mq).toMesgRing = (m.mesgQueue mq).put msg jam := by
  simp [sendInto]

theorem sendInto_ring_other {mq other : Ptr} (msg : OSMesg) (jam : Bool) (apart : other ≠ mq) :
    ((sendInto m mq msg jam).mesgQueue other).toMesgRing = (m.mesgQueue other).toMesgRing := by
  rw [sendInto, wakeFirst_ring, setRing_ring_other _ _ apart]

@[simp] theorem recvFrom_ring_self :
    ((recvFrom m mq).mesgQueue mq).toMesgRing = (m.mesgQueue mq).take := by
  simp [recvFrom]

theorem recvFrom_ring_other {mq other : Ptr} (apart : other ≠ mq) :
    ((recvFrom m mq).mesgQueue other).toMesgRing = (m.mesgQueue other).toMesgRing := by
  rw [recvFrom, wakeFirst_ring, setRing_ring_other _ _ apart]

theorem doSend_ring_other {mq other : Ptr} (msg : OSMesg) (jam : Bool) (apart : other ≠ mq) :
    ((doSend m mq msg jam).2.mesgQueue other).toMesgRing = (m.mesgQueue other).toMesgRing := by
  unfold doSend
  split
  · rfl
  split
  · rfl
  · exact sendInto_ring_other m msg jam apart

theorem doRecv_ring_other {mq other : Ptr} (apart : other ≠ mq) :
    ((doRecv m mq).2.mesgQueue other).toMesgRing = (m.mesgQueue other).toMesgRing := by
  unfold doRecv
  simp only
  split
  · rfl
  · exact recvFrom_ring_other m apart

end Frames

/-! ## The ring as a bounded double-ended queue -/

/-- The ring holds these messages, front first. -/
structure MesgRing.Holds (ring : MesgRing) (capacity : Int) (contents : List OSMesg) : Prop where
  msgCount : ring.msgCount = capacity
  validCount : ring.validCount = contents.length
  fits : (contents.length : Int) ≤ capacity
  first_nonneg : 0 ≤ ring.first
  first_lt : ring.first < capacity
  slots : window capacity ring.first contents.length ring.slots = contents

section Refinement
variable {ring : MesgRing} {capacity : Int} {contents : List OSMesg}

theorem MesgRing.Holds.full_iff (held : ring.Holds capacity contents) :
    mqIsFull ring = true ↔ (contents.length : Int) = capacity := by
  have := held.fits
  simp only [mqIsFull, held.msgCount, held.validCount, decide_eq_true_eq]
  omega

theorem MesgRing.Holds.empty_iff (held : ring.Holds capacity contents) :
    mqIsEmpty ring = true ↔ contents = [] := by
  rw [← List.length_eq_zero_iff]
  simp [mqIsEmpty, held.validCount]

theorem MesgRing.Holds.put (held : ring.Holds capacity contents) (msg : OSMesg) (jam : Bool)
    (room : (contents.length : Int) < capacity) :
    (ring.put msg jam).Holds capacity (if jam then msg :: contents else contents ++ [msg]) := by
  have positive : 0 < capacity := by omega
  have first := held.first_nonneg
  cases jam with
  | true =>
      have base : (ring.first + ring.msgCount - 1).tmod ring.msgCount =
          (ring.first + capacity - 1) % capacity := by
        rw [held.msgCount, Int.tmod_eq_emod_of_nonneg (by omega)]
      have shifted := window_push_front ring.first ring.slots msg room
      simp only [MesgRing.put, if_true, base]
      refine ⟨held.msgCount, ?_, ?_, ?_, ?_, ?_⟩
      · simp [held.validCount]
      · simp only [List.length_cons]
        omega
      · exact Int.emod_nonneg _ (by omega)
      · exact Int.emod_lt_of_pos _ positive
      · rw [List.length_cons, shifted, held.slots]
  | false =>
      have last : (ring.first + ring.validCount).tmod ring.msgCount =
          place capacity ring.first contents.length := by
        rw [held.msgCount, held.validCount, Int.tmod_eq_emod_of_nonneg (by omega)]
        rfl
      have extended := window_push_back ring.first ring.slots msg room
      simp only [MesgRing.put, Bool.false_eq_true, if_false, last]
      refine ⟨held.msgCount, ?_, ?_, first, held.first_lt, ?_⟩
      · simp [held.validCount]
      · simp only [List.length_append, List.length_singleton]
        omega
      · rw [List.length_append, List.length_singleton, extended, held.slots]

theorem MesgRing.Holds.take {msg : OSMesg} (held : ring.Holds capacity (msg :: contents)) :
    ring.slots ring.first = msg ∧ ring.take.Holds capacity contents := by
  have first := held.first_nonneg
  have below := held.first_lt
  have fits := held.fits
  simp only [List.length_cons] at fits
  have split := held.slots
  rw [List.length_cons, window_pop_front, Int.emod_eq_of_lt first below] at split
  obtain ⟨front, rest⟩ := List.cons.inj split
  refine ⟨front, held.msgCount, ?_, ?_, ?_, ?_, ?_⟩
  · simp [MesgRing.take, held.validCount]
  · omega
  all_goals
    simp only [MesgRing.take, held.msgCount]
    rw [Int.tmod_eq_emod_of_nonneg (by omega)]
  · exact Int.emod_nonneg _ (by omega)
  · exact Int.emod_lt_of_pos _ (by omega)
  · exact rest

end Refinement

/-- A queue that passes the checks of `do_send` for good: it is in RDRAM, its
buffer is, and the ring holds some list within a sane capacity. -/
structure Memory.WellFormed (m : Memory) (mq : Ptr) (capacity : Int) (contents : List OSMesg) :
    Prop where
  queue : inKseg0 mq = true
  buffer : inKseg0 (m.mesgQueue mq).msg = true
  sane : capacity ≤ 0x10000
  ring : (m.mesgQueue mq).Holds capacity contents

section WellFormed
variable {m : Memory} {mq : Ptr} {capacity : Int} {contents : List OSMesg}

theorem Memory.WellFormed.guard (formed : m.WellFormed mq capacity contents) :
    sendGuard m mq = true := by
  have ring := formed.ring
  have first := ring.first_nonneg
  have below := ring.first_lt
  have fits := ring.fits
  have sane := formed.sane
  simp only [sendGuard, formed.queue, formed.buffer, ring.msgCount, ring.validCount,
    Bool.and_eq_true, decide_eq_true_eq, true_and]
  omega

theorem Memory.WellFormed.of_ring {m' : Memory} (formed : m.WellFormed mq capacity contents)
    (same : (m'.mesgQueue mq).toMesgRing = (m.mesgQueue mq).toMesgRing) :
    m'.WellFormed mq capacity contents := by
  refine ⟨formed.queue, ?_, formed.sane, ?_⟩
  · rw [same]
    exact formed.buffer
  · rw [same]
    exact formed.ring

@[simp] theorem put_msg (ring : MesgRing) (msg : OSMesg) (jam : Bool) :
    (ring.put msg jam).msg = ring.msg := by
  cases jam <;> rfl

@[simp] theorem put_msgCount (ring : MesgRing) (msg : OSMesg) (jam : Bool) :
    (ring.put msg jam).msgCount = ring.msgCount := by
  cases jam <;> rfl

@[simp] theorem put_validCount (ring : MesgRing) (msg : OSMesg) (jam : Bool) :
    (ring.put msg jam).validCount = ring.validCount + 1 := by
  cases jam <;> rfl

theorem Memory.WellFormed.sendInto (formed : m.WellFormed mq capacity contents) (msg : OSMesg)
    (jam : Bool) (room : (contents.length : Int) < capacity) :
    (sendInto m mq msg jam).WellFormed mq capacity
      (if jam then msg :: contents else contents ++ [msg]) := by
  refine ⟨formed.queue, ?_, formed.sane, ?_⟩
  · rw [sendInto_ring_self, put_msg]
    exact formed.buffer
  · rw [sendInto_ring_self]
    exact formed.ring.put msg jam room

theorem Memory.WellFormed.recvFrom {msg : OSMesg}
    (formed : m.WellFormed mq capacity (msg :: contents)) :
    (recvFrom m mq).WellFormed mq capacity contents := by
  refine ⟨formed.queue, ?_, formed.sane, ?_⟩
  · rw [recvFrom_ring_self]
    exact formed.buffer
  · rw [recvFrom_ring_self]
    exact formed.ring.take.2

/-- A non-blocking send to a well-formed queue fails, changing nothing, exactly
when the queue is full. -/
theorem Memory.WellFormed.doSend (formed : m.WellFormed mq capacity contents) (msg : OSMesg)
    (jam : Bool) :
    doSend m mq msg jam =
      if (contents.length : Int) = capacity then (false, m)
      else (true, Ultramodern.sendInto m mq msg jam) := by
  have full := formed.ring.full_iff
  simp only [Ultramodern.doSend, formed.guard, Bool.true_eq_false, if_false]
  split <;> split <;> simp_all

theorem osCreateMesgQueue_wellFormed (m : Memory) {mq msg : Ptr} {count : Int}
    (queue : inKseg0 mq = true) (buffer : inKseg0 msg = true) (positive : 1 ≤ count)
    (sane : count ≤ 0x10000) : (osCreateMesgQueue m mq msg count).WellFormed mq count [] := by
  refine ⟨queue, ?_, sane, ?_⟩
  · simpa [osCreateMesgQueue, Memory.modifyMesgQueue] using buffer
  · constructor <;> simp [osCreateMesgQueue, Memory.modifyMesgQueue] <;> omega

end WellFormed

/-! ## Sequences of non-blocking calls -/

inductive MesgCall where
  | osSendMesg (msg : OSMesg)
  | osJamMesg (msg : OSMesg)
  | osRecvMesg
  deriving DecidableEq, Repr

structure MesgResult where
  ret : Int
  received : Option OSMesg
  deriving DecidableEq, Repr

/-- `osSendMesg`, `osJamMesg` and `osRecvMesg` with OS_MESG_NOBLOCK on a game
thread with no external message pending, up to the rescheduling at their end. -/
def mesgCall (m : Memory) (mq : Ptr) : MesgCall → MesgResult × Memory
  | .osSendMesg msg =>
      let (sent, m) := doSend m mq msg false
      (⟨if sent then 0 else -1, none⟩, m)
  | .osJamMesg msg =>
      let (sent, m) := doSend m mq msg true
      (⟨if sent then 0 else -1, none⟩, m)
  | .osRecvMesg =>
      let (received, m) := doRecv m mq
      (⟨if received.isSome then 0 else -1, received⟩, m)

/-- What the calls are for: a double-ended queue of bounded capacity. -/
def dequeCall (capacity : Int) (contents : List OSMesg) : MesgCall → MesgResult × List OSMesg
  | .osSendMesg msg =>
      if (contents.length : Int) = capacity then (⟨-1, none⟩, contents)
      else (⟨0, none⟩, contents ++ [msg])
  | .osJamMesg msg =>
      if (contents.length : Int) = capacity then (⟨-1, none⟩, contents)
      else (⟨0, none⟩, msg :: contents)
  | .osRecvMesg =>
      match contents with
      | [] => (⟨-1, none⟩, [])
      | msg :: rest => (⟨0, some msg⟩, rest)

/-- One call: the ring answers as the deque does, and a failed call leaves it alone. -/
theorem mesgCall_refines {m : Memory} {mq : Ptr} {capacity : Int} {contents : List OSMesg}
    (formed : m.WellFormed mq capacity contents) (call : MesgCall) :
    (mesgCall m mq call).1 = (dequeCall capacity contents call).1 ∧
      (mesgCall m mq call).2.WellFormed mq capacity (dequeCall capacity contents call).2 ∧
      ((mesgCall m mq call).1.ret = -1 → (mesgCall m mq call).2 = m) := by
  have fits := formed.ring.fits
  cases call with
  | osSendMesg msg =>
      simp only [mesgCall, dequeCall, formed.doSend msg false]
      split
      · exact ⟨rfl, formed, fun _ => rfl⟩
      · exact ⟨rfl, by simpa using formed.sendInto msg false (by omega), by simp⟩
  | osJamMesg msg =>
      simp only [mesgCall, dequeCall, formed.doSend msg true]
      split
      · exact ⟨rfl, formed, fun _ => rfl⟩
      · exact ⟨rfl, by simpa using formed.sendInto msg true (by omega), by simp⟩
  | osRecvMesg =>
      have empty := formed.ring.empty_iff
      cases contents with
      | nil =>
          have none : mqIsEmpty (m.mesgQueue mq).toMesgRing = true := empty.mpr rfl
          simp only [mesgCall, dequeCall, doRecv, none, if_true]
          exact ⟨by rfl, formed, fun _ => trivial⟩
      | cons msg rest =>
          have some : ¬ mqIsEmpty (m.mesgQueue mq).toMesgRing = true := by simp [empty]
          simp only [mesgCall, dequeCall, doRecv, if_neg some, formed.ring.take.1]
          exact ⟨rfl, formed.recvFrom, by simp⟩

theorem mesgCall_ring_other (m : Memory) {mq other : Ptr} (call : MesgCall) (apart : other ≠ mq) :
    ((mesgCall m mq call).2.mesgQueue other).toMesgRing = (m.mesgQueue other).toMesgRing := by
  cases call with
  | osSendMesg msg => exact doSend_ring_other m msg false apart
  | osJamMesg msg => exact doSend_ring_other m msg true apart
  | osRecvMesg => exact doRecv_ring_other m apart

/-- What happens to a memory between the calls on a queue: calls on other
queues, and the scheduler's work on the threads. -/
inductive MesgEvent where
  | call (mq : Ptr) (call : MesgCall)
  | insert (queue : ThreadQueue) (t : Ptr)
  | pop (queue : ThreadQueue)
  | remove (queue : Option ThreadQueue) (t : Ptr)
  | thread (t : Ptr) (update : OSThread → OSThread)

def mesgEvent (mq : Ptr) (m : Memory) : MesgEvent → Option MesgResult × Memory
  | .call target call =>
      (if target = mq then some (mesgCall m target call).1 else none, (mesgCall m target call).2)
  | .insert queue t => (none, threadQueueInsert m queue t)
  | .pop queue => (none, (threadQueuePop m queue).2)
  | .remove queue t => (none, (threadQueueRemove m queue t).2)
  | .thread t update => (none, m.modifyThread t update)

def mesgEvents (mq : Ptr) : Memory → List MesgEvent → List MesgResult × Memory
  | m, [] => ([], m)
  | m, event :: rest =>
      let (result, next) := mesgEvent mq m event
      let (results, final) := mesgEvents mq next rest
      (result.toList ++ results, final)

def dequeCalls (capacity : Int) : List OSMesg → List MesgCall → List MesgResult × List OSMesg
  | contents, [] => ([], contents)
  | contents, call :: rest =>
      let (result, next) := dequeCall capacity contents call
      let (results, final) := dequeCalls capacity next rest
      (result :: results, final)

def callsOn (mq : Ptr) : List MesgEvent → List MesgCall
  | [] => []
  | .call target call :: rest => if target = mq then call :: callsOn mq rest else callsOn mq rest
  | _ :: rest => callsOn mq rest

theorem mesgEvent_ring_other (m : Memory) {mq : Ptr} (event : MesgEvent)
    (apart : ∀ call, event ≠ .call mq call) :
    (mesgEvent mq m event).1 = none ∧
      ((mesgEvent mq m event).2.mesgQueue mq).toMesgRing = (m.mesgQueue mq).toMesgRing := by
  cases event with
  | call target call =>
      have other : target ≠ mq := fun same => apart call (same ▸ rfl)
      exact ⟨if_neg other, mesgCall_ring_other m call (Ne.symm other)⟩
  | insert queue t => exact ⟨rfl, threadQueueInsert_ring m queue t mq⟩
  | pop queue => exact ⟨rfl, threadQueuePop_ring m queue mq⟩
  | remove queue t => exact ⟨rfl, threadQueueRemove_ring m t queue mq⟩
  | thread t update => exact ⟨rfl, rfl⟩

theorem callsOn_other {mq : Ptr} {event : MesgEvent} (rest : List MesgEvent)
    (apart : ∀ call, event ≠ .call mq call) : callsOn mq (event :: rest) = callsOn mq rest := by
  cases event with
  | call target call =>
      have other : target ≠ mq := fun same => apart call (same ▸ rfl)
      simp only [callsOn, if_neg other]
  | insert queue t => rfl
  | pop queue => rfl
  | remove queue t => rfl
  | thread t update => rfl

theorem mesgEvents_refines (mq : Ptr) {capacity : Int} : ∀ (events : List MesgEvent)
    {m : Memory} {contents : List OSMesg}, m.WellFormed mq capacity contents →
      (mesgEvents mq m events).1 = (dequeCalls capacity contents (callsOn mq events)).1 ∧
        (mesgEvents mq m events).2.WellFormed mq capacity
          (dequeCalls capacity contents (callsOn mq events)).2 := by
  intro events
  induction events with
  | nil => intro m contents formed; exact ⟨rfl, formed⟩
  | cons event rest ih =>
      intro m contents formed
      by_cases here : ∃ call, event = .call mq call
      · obtain ⟨call, rfl⟩ := here
        obtain ⟨result, next, _⟩ := mesgCall_refines formed call
        obtain ⟨results, final⟩ := ih next
        simp only [mesgEvents, mesgEvent, callsOn, if_true, dequeCalls, Option.toList_some,
          List.singleton_append]
        exact ⟨by rw [result, results], final⟩
      · have apart : ∀ call, event ≠ .call mq call := fun call same => here ⟨call, same⟩
        obtain ⟨silent, same⟩ := mesgEvent_ring_other m event apart
        obtain ⟨results, final⟩ := ih (formed.of_ring same)
        simp only [mesgEvents, silent, callsOn_other rest apart, Option.toList_none,
          List.nil_append]
        exact ⟨results, final⟩

/-- A queue made by `osCreateMesgQueue` is a double-ended queue of capacity
`count` for any calls: the results are the deque's, the ring holds the deque's
contents within its bounds, and a call that fails then leaves the ring alone. -/
theorem ring_refines_deque (m : Memory) (mq msg : Ptr) (count : Int) (events : List MesgEvent)
    (queue : inKseg0 mq = true) (buffer : inKseg0 msg = true) (positive : 1 ≤ count)
    (sane : count ≤ 0x10000) :
    let (results, final) := mesgEvents mq (osCreateMesgQueue m mq msg count) events
    let (expected, contents) := dequeCalls count [] (callsOn mq events)
    results = expected ∧ (final.mesgQueue mq).Holds count contents ∧
      0 ≤ (final.mesgQueue mq).first ∧ (final.mesgQueue mq).first < count ∧
      0 ≤ (final.mesgQueue mq).validCount ∧ (final.mesgQueue mq).validCount ≤ count ∧
      ∀ call, (mesgCall final mq call).1.ret = -1 → (mesgCall final mq call).2 = final := by
  obtain ⟨results, formed⟩ := mesgEvents_refines mq events
    (osCreateMesgQueue_wellFormed m queue buffer positive sane)
  have ring := formed.ring
  have fits := ring.fits
  refine ⟨results, ring, ring.first_nonneg, ring.first_lt, ?_, ?_, ?_⟩
  · rw [ring.validCount]
    exact Int.natCast_nonneg _
  · rw [ring.validCount]
    exact fits
  · exact fun call => (mesgCall_refines formed call).2.2

theorem ring_refines_deque_small :
    let (results, final) := mesgEvents 0x80004000
      (osCreateMesgQueue ⟨fun _ => {}, fun _ => ⟨⟨0, 0, 0, 0, fun _ => 0⟩, 0, 0⟩, 0⟩
        0x80004000 0x80005000 1)
      [.call 0x80004000 (.osJamMesg 7), .call 0x80004000 (.osSendMesg 8),
        .call 0x80004000 .osRecvMesg]
    results = [⟨0, none⟩, ⟨-1, none⟩, ⟨0, some 7⟩] ∧ (final.mesgQueue 0x80004000).Holds 1 [] := by
  have refines := ring_refines_deque ⟨fun _ => {}, fun _ => ⟨⟨0, 0, 0, 0, fun _ => 0⟩, 0, 0⟩, 0⟩
    0x80004000 0x80005000 1 [.call 0x80004000 (.osJamMesg 7), .call 0x80004000 (.osSendMesg 8),
      .call 0x80004000 .osRecvMesg] (by decide) (by decide) (by decide) (by decide)
  exact ⟨refines.1, refines.2.1⟩

end N64ModernRuntime.Ultramodern
