import Mathlib.Data.Finset.Card
import Mathlib.Data.Finset.Max
import N64ModernRuntime.Lib.IntrusiveList

/-!
# Guest objects: OSThread, OSMesgQueue and the queue heads

RDRAM is read at two types only, so it is modelled as one table of threads and
one of message queues, both by guest address; objects of one type do not
overlap.  A `PTR(PTR(OSThread))` is always the running-queue sentinel or one
of the two list heads of a message queue, and `ThreadQueue` names which.
-/

set_option autoImplicit false

namespace N64ModernRuntime.Ultramodern

open IntrusiveList

/-- `PTR(x)`, an `int32_t` that the code reads back as `uint32_t`. -/
abbrev Ptr := UInt32

abbrev OSPri := Int

/-- `PTR(void)` -/
abbrev OSMesg := UInt32

abbrev ContextId := Nat

def nullptr : Ptr := 0

inductive OSThreadState where
  | stopped
  | queued
  | running
  | blocked
  deriving DecidableEq, Repr

inductive ThreadQueue where
  | running
  | blockedOnRecv (mq : Ptr)
  | blockedOnSend (mq : Ptr)
  deriving DecidableEq, Repr

/-- The guest address of the head word; `running_queue` is the sentinel -1. -/
def ThreadQueue.addr : ThreadQueue → Ptr
  | .running => 0xFFFFFFFF
  | .blockedOnRecv mq => mq
  | .blockedOnSend mq => mq + 4

/-- `queue` is `none` for NULL, and so is `context`. -/
structure OSThread where
  next : Ptr := nullptr
  priority : OSPri := 0
  queue : Option ThreadQueue := none
  state : OSThreadState := .stopped
  context : Option ContextId := none
  deriving DecidableEq, Repr

/-- The ring part of an OSMesgQueue together with the buffer `msg` points at. -/
structure MesgRing where
  validCount : Int
  first : Int
  msgCount : Int
  msg : Ptr
  slots : Int → OSMesg

structure OSMesgQueue extends MesgRing where
  blockedOnRecv : Ptr
  blockedOnSend : Ptr

structure Memory where
  thread : Ptr → OSThread
  mesgQueue : Ptr → OSMesgQueue
  runningQueueImpl : Ptr

/-- A guest pointer is dereferenced as an OSThread only if this holds. -/
def validThreadPtr (p : Ptr) : Bool :=
  decide (0x80000000 ≤ p) && decide (p < 0x80800000) && decide (p &&& 3 = 0)

theorem validThreadPtr_nullptr : validThreadPtr nullptr = false := rfl

theorem ne_nullptr_of_valid {p : Ptr} (valid : validThreadPtr p = true) : p ≠ nullptr := by
  rintro rfl
  rw [validThreadPtr_nullptr] at valid
  contradiction

/-- `queue_to_ptr`, read -/
def Memory.head (m : Memory) : ThreadQueue → Ptr
  | .running => m.runningQueueImpl
  | .blockedOnRecv mq => (m.mesgQueue mq).blockedOnRecv
  | .blockedOnSend mq => (m.mesgQueue mq).blockedOnSend

def Memory.modifyMesgQueue (m : Memory) (mq : Ptr) (f : OSMesgQueue → OSMesgQueue) : Memory :=
  { m with mesgQueue := fun other => if other = mq then f (m.mesgQueue mq) else m.mesgQueue other }

/-- `queue_to_ptr`, written -/
def Memory.setHead (m : Memory) (q : ThreadQueue) (p : Ptr) : Memory :=
  match q with
  | .running => { m with runningQueueImpl := p }
  | .blockedOnRecv mq => m.modifyMesgQueue mq fun queue => { queue with blockedOnRecv := p }
  | .blockedOnSend mq => m.modifyMesgQueue mq fun queue => { queue with blockedOnSend := p }

def Memory.modifyThread (m : Memory) (t : Ptr) (f : OSThread → OSThread) : Memory :=
  { m with thread := fun u => if u = t then f (m.thread t) else m.thread u }

def Memory.setRing (m : Memory) (mq : Ptr) (ring : MesgRing) : Memory :=
  m.modifyMesgQueue mq fun queue => { queue with toMesgRing := ring }

/-- The thread queues of a memory, as intrusive lists. -/
def Memory.heap (m : Memory) : Heap ThreadQueue Ptr where
  head := m.head
  next := fun t => (m.thread t).next

def Memory.store (m : Memory) (c : Cell ThreadQueue Ptr) (p : Ptr) : Memory :=
  match c with
  | .head q => m.setHead q p
  | .next t => m.modifyThread t fun thread => { thread with next := p }

section Frames
variable (m : Memory) (q : ThreadQueue) (t u : Ptr) (p : Ptr) (f : OSThread → OSThread)

@[simp] theorem setHead_thread : (m.setHead q p).thread = m.thread := by
  cases q <;> rfl

@[simp] theorem modifyThread_self : (m.modifyThread t f).thread t = f (m.thread t) := by
  simp [Memory.modifyThread]

theorem modifyThread_other {t u : Ptr} (apart : u ≠ t) :
    (m.modifyThread t f).thread u = m.thread u := by
  simp [Memory.modifyThread, apart]

/-- A field that the update of one thread keeps is kept in every thread. -/
theorem modifyThread_field {γ : Type} (field : OSThread → γ)
    (keeps : ∀ thread, field (f thread) = field thread) :
    field ((m.modifyThread t f).thread u) = field (m.thread u) := by
  by_cases same : u = t
  · subst same
    rw [modifyThread_self, keeps]
  · rw [modifyThread_other m f same]

@[simp] theorem modifyThread_mesgQueue : (m.modifyThread t f).mesgQueue = m.mesgQueue := rfl

@[simp] theorem modifyThread_head : (m.modifyThread t f).head q = m.head q := by
  cases q <;> rfl

@[simp] theorem setHead_ring (mq : Ptr) :
    ((m.setHead q p).mesgQueue mq).toMesgRing = (m.mesgQueue mq).toMesgRing := by
  cases q with
  | running => rfl
  | blockedOnRecv other | blockedOnSend other =>
      by_cases same : mq = other
      · subst same
        simp [Memory.setHead, Memory.modifyMesgQueue]
      · simp [Memory.setHead, Memory.modifyMesgQueue, same]

@[simp] theorem setRing_thread (mq : Ptr) (ring : MesgRing) :
    (m.setRing mq ring).thread = m.thread := rfl

@[simp] theorem setRing_head (mq : Ptr) (ring : MesgRing) :
    (m.setRing mq ring).head q = m.head q := by
  cases q with
  | running => rfl
  | blockedOnRecv other | blockedOnSend other =>
      by_cases same : other = mq
      · subst same
        simp [Memory.setRing, Memory.modifyMesgQueue, Memory.head]
      · simp [Memory.setRing, Memory.modifyMesgQueue, Memory.head, same]

@[simp] theorem setRing_ring_self (mq : Ptr) (ring : MesgRing) :
    ((m.setRing mq ring).mesgQueue mq).toMesgRing = ring := by
  simp [Memory.setRing, Memory.modifyMesgQueue]

theorem setRing_ring_other {mq other : Ptr} (ring : MesgRing) (apart : other ≠ mq) :
    ((m.setRing mq ring).mesgQueue other).toMesgRing = (m.mesgQueue other).toMesgRing := by
  simp [Memory.setRing, Memory.modifyMesgQueue, apart]

theorem setHead_head : (m.setHead q p).head = Function.update m.head q p := by
  funext q'
  by_cases same : q' = q
  · subst same
    cases q' <;> simp [Memory.setHead, Memory.modifyMesgQueue, Memory.head]
  · rw [Function.update_of_ne same]
    cases q with
    | running => cases q' <;> first | rfl | exact absurd rfl same
    | blockedOnRecv mq | blockedOnSend mq =>
        cases q' with
        | running => rfl
        | blockedOnRecv other | blockedOnSend other =>
            by_cases address : other = mq
            · subst address
              first
              | exact absurd rfl same
              | simp [Memory.setHead, Memory.modifyMesgQueue, Memory.head]
            · simp [Memory.setHead, Memory.modifyMesgQueue, Memory.head, address]

theorem heap_store (c : Cell ThreadQueue Ptr) : (m.store c p).heap = m.heap.store c p := by
  cases c with
  | head q =>
      simp only [Memory.store, Memory.heap, Heap.store, setHead_head, setHead_thread]
  | next t =>
      simp only [Memory.store, Memory.heap, Heap.store]
      congr 1
      funext u
      by_cases same : u = t
      · subst same
        simp
      · rw [modifyThread_other m _ same, Function.update_of_ne same]

/-- An update that keeps `next` keeps the lists. -/
theorem heap_modifyThread (keeps : ∀ thread, (f thread).next = thread.next) :
    (m.modifyThread t f).heap = m.heap := by
  unfold Memory.heap
  congr 1
  funext u
  exact modifyThread_field m t u f OSThread.next keeps

theorem heap_setRing (mq : Ptr) (ring : MesgRing) : (m.setRing mq ring).heap = m.heap := by
  unfold Memory.heap
  congr 1
  funext q
  exact setRing_head m q mq ring

/-- A store of a link keeps every thread field other than `next`. -/
theorem store_field {γ : Type} (c : Cell ThreadQueue Ptr) (field : OSThread → γ)
    (keeps : ∀ (thread : OSThread) (next : Ptr), field { thread with next := next } = field thread) :
    field ((m.store c p).thread u) = field (m.thread u) := by
  cases c with
  | head q => rw [Memory.store, setHead_thread]
  | next t => exact modifyThread_field m t u _ field fun thread => keeps thread p

@[simp] theorem store_ring (c : Cell ThreadQueue Ptr) (mq : Ptr) :
    ((m.store c p).mesgQueue mq).toMesgRing = (m.mesgQueue mq).toMesgRing := by
  cases c with
  | head q => exact setHead_ring m q p mq
  | next t => rfl

end Frames

/-- The OSThread objects of a game: valid pointers, at least `sizeof(OSThread)`
(44 bytes of fields) apart. -/
structure ThreadLayout where
  addrs : Finset Ptr
  valid : ∀ t ∈ addrs, validThreadPtr t = true
  apart : ∀ t ∈ addrs, ∀ u ∈ addrs, t.toNat < u.toNat → t.toNat + 44 ≤ u.toNat

abbrev ThreadLayout.Thread (layout : ThreadLayout) := { t : Ptr // t ∈ layout.addrs }

/-- 8 MiB of RDRAM hold fewer OSThreads than the 0x40000 steps that a queue
walk is allowed. -/
theorem ThreadLayout.card_le (layout : ThreadLayout) : layout.addrs.card ≤ 0x40000 := by
  have bounds : ∀ t ∈ layout.addrs, 0x80000000 ≤ t.toNat ∧ t.toNat < 0x80800000 := by
    intro t member
    have valid := layout.valid t member
    simp only [validThreadPtr, Bool.and_eq_true, decide_eq_true_eq] at valid
    exact ⟨UInt32.le_iff_toNat_le.mp valid.1.1, UInt32.lt_iff_toNat_lt.mp valid.1.2⟩
  have slots : layout.addrs.card ≤ (Finset.range 0x40000).card := by
    refine Finset.card_le_card_of_injOn (fun t => (t.toNat - 0x80000000) / 44) ?_ ?_
    · intro t member
      have := bounds t member
      simp only [Finset.coe_range, Set.mem_Iio]
      omega
    · intro t member u other same
      have ht := bounds t member
      have hu := bounds u other
      simp only at same
      apply UInt32.toNat_inj.mp
      rcases Nat.lt_trichotomy t.toNat u.toNat with less | equal | more
      · have := layout.apart t member u other less
        omega
      · exact equal
      · have := layout.apart u other t member more
        omega
  simpa using slots

end N64ModernRuntime.Ultramodern
