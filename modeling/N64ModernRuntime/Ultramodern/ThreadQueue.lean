import Mathlib.Data.List.Sort
import N64ModernRuntime.Ultramodern.Ultra64

/-!
# threadqueue.cpp

The walks of insert and remove validate every pointer before they follow it
and give up after 0x40000 steps.  `Memory.Queues` connects a memory to the
abstract picture, a list of threads for each queue, and the three operations
refine ordered insertion, tail and erase on it.
-/

set_option autoImplicit false

namespace N64ModernRuntime.Ultramodern

open IntrusiveList

/-- The bound on `guard` in the queue walks. -/
def walkGuard : Nat := 0x40000

/-- The insert walk passes the links to valid threads that outrank the new one. -/
def outranks (m : Memory) (priority : OSPri) (p : Ptr) : Bool :=
  decide (p ≠ nullptr) && validThreadPtr p && decide (priority < (m.thread p).priority)

def threadQueueInsert (m : Memory) (queue : ThreadQueue) (added : Ptr) : Memory :=
  let link := m.heap.walk (outranks m (m.thread added).priority) walkGuard (.head queue)
  -- a corrupt tail is severed rather than spliced in
  let severed :=
    if m.heap.load link ≠ nullptr ∧ validThreadPtr (m.heap.load link) = false then
      m.store link nullptr
    else m
  let spliced := severed.modifyThread added fun thread =>
    { thread with
      next := severed.heap.load link
      queue := some queue
      state := if queue = .running then .queued else .blocked }
  spliced.store link added

def threadQueuePop (m : Memory) (queue : ThreadQueue) : Ptr × Memory :=
  let popped := m.head queue
  if validThreadPtr popped then
    (popped, (m.setHead queue (m.thread popped).next).modifyThread popped
      fun thread => { thread with queue := none })
  else (nullptr, m.setHead queue nullptr)

/-- The scan of `threadQueueRemove`; the first argument is the rest of the guard. -/
def threadQueueScan (m : Memory) (t : Ptr) : Nat → Cell ThreadQueue Ptr → Bool × Memory
  | 0, link =>
      if m.heap.load link = nullptr then (false, m) else (false, m.store link nullptr)
  | budget + 1, link =>
      let cur := m.heap.load link
      if cur = nullptr then (false, m)
      else if validThreadPtr cur = false then (false, m.store link nullptr)
      else if cur = t then
        (true, (m.store link (m.thread cur).next).modifyThread cur
          fun thread => { thread with queue := none })
      else threadQueueScan m t budget (.next cur)

/-- A queue pointer that is neither the running queue nor an aligned RDRAM
address (NULL included) is not scanned. -/
def threadQueueRemove (m : Memory) (queue : Option ThreadQueue) (t : Ptr) : Bool × Memory :=
  match queue with
  | none => (false, m)
  | some q =>
      if q ≠ .running ∧ validThreadPtr q.addr = false then (false, m)
      else threadQueueScan m t walkGuard (.head q)

def threadQueueEmpty (m : Memory) (queue : ThreadQueue) : Bool := decide (m.head queue = nullptr)

def threadQueuePeek (m : Memory) (queue : ThreadQueue) : Ptr := m.head queue

/-! ## What the operations leave alone -/

section Frames
variable (m : Memory) (q : ThreadQueue) (t u : Ptr)

/-- Insert changes no field of any thread but `next`, and `queue` and `state`
of the added one. -/
theorem threadQueueInsert_field {γ : Type} (field : OSThread → γ)
    (next : ∀ (thread : OSThread) p, field { thread with next := p } = field thread)
    (linked : u = t → ∀ (thread : OSThread) p (link : Option ThreadQueue) state,
      field { thread with next := p, queue := link, state := state } = field thread) :
    field ((threadQueueInsert m q t).thread u) = field (m.thread u) := by
  simp only [threadQueueInsert]
  rw [store_field _ _ _ _ field next]
  generalize m.heap.walk _ _ _ = link
  have severed : field ((if m.heap.load link ≠ nullptr ∧
      validThreadPtr (m.heap.load link) = false then m.store link nullptr else m).thread u) =
        field (m.thread u) := by
    split
    · exact store_field _ _ _ _ field next
    · rfl
  by_cases same : u = t
  · subst same
    rw [modifyThread_self, linked rfl]
    exact severed
  · rw [modifyThread_other _ _ same]
    exact severed

@[simp] theorem threadQueueInsert_priority :
    ((threadQueueInsert m q t).thread u).priority = (m.thread u).priority :=
  threadQueueInsert_field m q t u _ (fun _ _ => rfl) fun _ _ _ _ _ => rfl

@[simp] theorem threadQueueInsert_context :
    ((threadQueueInsert m q t).thread u).context = (m.thread u).context :=
  threadQueueInsert_field m q t u _ (fun _ _ => rfl) fun _ _ _ _ _ => rfl

theorem threadQueueInsert_state_other {t u : Ptr} (apart : u ≠ t) :
    ((threadQueueInsert m q t).thread u).state = (m.thread u).state :=
  threadQueueInsert_field m q t u _ (fun _ _ => rfl) fun same => absurd same apart

theorem threadQueueInsert_queue_other {t u : Ptr} (apart : u ≠ t) :
    ((threadQueueInsert m q t).thread u).queue = (m.thread u).queue :=
  threadQueueInsert_field m q t u _ (fun _ _ => rfl) fun same => absurd same apart

theorem threadQueueInsert_queue_self : ((threadQueueInsert m q t).thread t).queue = some q := by
  simp only [threadQueueInsert]
  rw [store_field _ _ _ _ OSThread.queue fun _ _ => rfl, modifyThread_self]

theorem threadQueueInsert_state_self : ((threadQueueInsert m q t).thread t).state =
    if q = .running then .queued else .blocked := by
  simp only [threadQueueInsert]
  rw [store_field _ _ _ _ OSThread.state fun _ _ => rfl, modifyThread_self]

@[simp] theorem threadQueueInsert_ring (mq : Ptr) :
    ((threadQueueInsert m q t).mesgQueue mq).toMesgRing = (m.mesgQueue mq).toMesgRing := by
  simp only [threadQueueInsert, store_ring, modifyThread_mesgQueue]
  split
  · rw [store_ring]
  · rfl

/-- Pop changes no field of any thread but `queue` of the popped one. -/
theorem threadQueuePop_field {γ : Type} (field : OSThread → γ)
    (keeps : u = m.head q → ∀ thread : OSThread, field { thread with queue := none } = field thread) :
    field ((threadQueuePop m q).2.thread u) = field (m.thread u) := by
  simp only [threadQueuePop]
  split
  · by_cases same : u = m.head q
    · subst same
      rw [modifyThread_self, keeps rfl, setHead_thread]
    · rw [modifyThread_other _ _ same, setHead_thread]
  · rw [setHead_thread]

@[simp] theorem threadQueuePop_priority :
    ((threadQueuePop m q).2.thread u).priority = (m.thread u).priority :=
  threadQueuePop_field m q u _ fun _ _ => rfl

@[simp] theorem threadQueuePop_context :
    ((threadQueuePop m q).2.thread u).context = (m.thread u).context :=
  threadQueuePop_field m q u _ fun _ _ => rfl

@[simp] theorem threadQueuePop_state :
    ((threadQueuePop m q).2.thread u).state = (m.thread u).state :=
  threadQueuePop_field m q u _ fun _ _ => rfl

@[simp] theorem threadQueuePop_ring (mq : Ptr) :
    ((threadQueuePop m q).2.mesgQueue mq).toMesgRing = (m.mesgQueue mq).toMesgRing := by
  simp only [threadQueuePop]
  split <;> simp

/-- Remove changes no field of any thread but `next`, and `queue` of the removed one. -/
theorem threadQueueScan_field {γ : Type} (field : OSThread → γ)
    (next : ∀ (thread : OSThread) p, field { thread with next := p } = field thread)
    (unlinked : ∀ thread : OSThread, field { thread with queue := none } = field thread) :
    ∀ (budget : Nat) (link : Cell ThreadQueue Ptr),
      field ((threadQueueScan m t budget link).2.thread u) = field (m.thread u) := by
  intro budget
  induction budget with
  | zero =>
      intro link
      simp only [threadQueueScan]
      split
      · rfl
      · exact store_field _ _ _ _ field next
  | succ budget ih =>
      intro link
      simp only [threadQueueScan]
      split
      · rfl
      split
      · exact store_field _ _ _ _ field next
      split
      · rw [modifyThread_field _ _ _ _ field unlinked, store_field _ _ _ _ field next]
      · exact ih _

theorem threadQueueRemove_field {γ : Type} (queue : Option ThreadQueue) (field : OSThread → γ)
    (next : ∀ (thread : OSThread) p, field { thread with next := p } = field thread)
    (unlinked : ∀ thread : OSThread, field { thread with queue := none } = field thread) :
    field ((threadQueueRemove m queue t).2.thread u) = field (m.thread u) := by
  unfold threadQueueRemove
  cases queue with
  | none => rfl
  | some q =>
      simp only
      split
      · rfl
      · exact threadQueueScan_field m t u field next unlinked _ _

@[simp] theorem threadQueueRemove_priority (queue : Option ThreadQueue) :
    ((threadQueueRemove m queue t).2.thread u).priority = (m.thread u).priority :=
  threadQueueRemove_field m t u queue _ (fun _ _ => rfl) fun _ => rfl

@[simp] theorem threadQueueRemove_context (queue : Option ThreadQueue) :
    ((threadQueueRemove m queue t).2.thread u).context = (m.thread u).context :=
  threadQueueRemove_field m t u queue _ (fun _ _ => rfl) fun _ => rfl

@[simp] theorem threadQueueRemove_state (queue : Option ThreadQueue) :
    ((threadQueueRemove m queue t).2.thread u).state = (m.thread u).state :=
  threadQueueRemove_field m t u queue _ (fun _ _ => rfl) fun _ => rfl

theorem threadQueueScan_ring (mq : Ptr) : ∀ (budget : Nat) (link : Cell ThreadQueue Ptr),
    ((threadQueueScan m t budget link).2.mesgQueue mq).toMesgRing =
      (m.mesgQueue mq).toMesgRing := by
  intro budget
  induction budget with
  | zero =>
      intro link
      simp only [threadQueueScan]
      split <;> simp
  | succ budget ih =>
      intro link
      simp only [threadQueueScan]
      split
      · rfl
      split
      · simp
      split
      · simp
      · exact ih _

@[simp] theorem threadQueueRemove_ring (queue : Option ThreadQueue) (mq : Ptr) :
    ((threadQueueRemove m queue t).2.mesgQueue mq).toMesgRing =
      (m.mesgQueue mq).toMesgRing := by
  unfold threadQueueRemove
  cases queue with
  | none => rfl
  | some q =>
      simp only
      split
      · rfl
      · exact threadQueueScan_ring m t mq _ _

end Frames

/-! ## The chain of one queue -/

/-- `a` goes in front of `b` when `b` does not outrank it. -/
def Before (m : Memory) (a b : Ptr) : Prop := (m.thread b).priority ≤ (m.thread a).priority

instance (m : Memory) : DecidableRel (Before m) :=
  fun a b => inferInstanceAs (Decidable ((m.thread b).priority ≤ (m.thread a).priority))

instance (m : Memory) : Std.Total (Before m) :=
  ⟨fun a b => le_total (m.thread b).priority (m.thread a).priority⟩

instance (m : Memory) : IsTrans Ptr (Before m) := ⟨fun _ _ _ first second => le_trans second first⟩

/-- Insertion depends on a memory through the priorities only. -/
theorem orderedInsert_before {m m' : Memory}
    (same : ∀ u, (m'.thread u).priority = (m.thread u).priority) (t : Ptr) (l : List Ptr) :
    l.orderedInsert (Before m') t = l.orderedInsert (Before m) t := by
  induction l with
  | nil => rfl
  | cons b rest ih =>
      have order : Before m' t b ↔ Before m t b := by
        unfold Before
        rw [same, same]
      rw [List.orderedInsert_cons, List.orderedInsert_cons, ih]
      exact if_congr order rfl rfl

def insertLink (m : Memory) (queue : ThreadQueue) (added : Ptr) : Cell ThreadQueue Ptr :=
  m.heap.walk (outranks m (m.thread added).priority) walkGuard (.head queue)

/-- What the new thread is linked to: the rest of the chain, or nothing when a
corrupt tail is severed. -/
def insertRest (m : Memory) (queue : ThreadQueue) (added : Ptr) : Ptr :=
  let rest := m.heap.load (insertLink m queue added)
  if validThreadPtr rest then rest else nullptr

theorem before_iff {m m' : Memory} {a b : Ptr}
    (first : (m'.thread a).priority = (m.thread a).priority)
    (second : (m'.thread b).priority = (m.thread b).priority) : Before m' a b ↔ Before m a b := by
  unfold Before
  rw [first, second]

theorem pairwise_before {m m' : Memory} {l : List Ptr} (sorted : l.Pairwise (Before m))
    (priority : ∀ t ∈ l, (m'.thread t).priority = (m.thread t).priority) :
    l.Pairwise (Before m') := by
  refine sorted.imp_of_mem ?_
  intro a b inA inB order
  exact (before_iff (priority a inA) (priority b inB)).mpr order

section Chain
variable (m : Memory) (q : ThreadQueue) (t : Ptr)

/-- Linking a thread to `rest` on its way into a queue, as the lists see it. -/
theorem heap_link (rest : Ptr) (state : OSThreadState) :
    (m.modifyThread t fun thread =>
      { thread with next := rest, queue := some q, state := state }).heap =
        m.heap.store (.next t) rest := by
  rw [← heap_store]
  unfold Memory.heap
  congr 1
  funext u
  by_cases same : u = t
  · subst same
    simp [Memory.store]
  · simp [Memory.store, modifyThread_other _ _ same]

/-- The links after an insert: the new thread's, then the one it is hung on. -/
theorem heap_threadQueueInsert :
    (threadQueueInsert m q t).heap =
      (m.heap.store (.next t) (insertRest m q t)).store (insertLink m q t) t := by
  unfold threadQueueInsert
  extract_lets link severed spliced
  have here : insertLink m q t = link := rfl
  rw [heap_store, heap_link, insertRest, here]
  by_cases corrupt : m.heap.load link ≠ nullptr ∧ validThreadPtr (m.heap.load link) = false
  · have cut : severed = m.store link nullptr := if_pos corrupt
    rw [cut, heap_store, Heap.load_store_self, Heap.store_store, corrupt.2]
    rfl
  · have cut : severed = m := if_neg corrupt
    rw [cut]
    cases valid : validThreadPtr (m.heap.load link) with
    | true => rfl
    | false =>
        have empty : m.heap.load link = nullptr := by
          by_contra some
          exact corrupt ⟨some, valid⟩
        rw [empty]
        rfl

variable {m q} {l : List Ptr}

/-- The insert walk passes exactly the threads that the new one does not go before. -/
theorem takeWhile_outranks (valid : ∀ b ∈ l, validThreadPtr b = true) (t : Ptr) :
    l.takeWhile (outranks m (m.thread t).priority) =
      l.takeWhile fun b => decide (¬ Before m t b) := by
  have same : ∀ b ∈ l, outranks m (m.thread t).priority b = decide (¬ Before m t b) := by
    intro b member
    simp [outranks, valid b member, ne_nullptr_of_valid (valid b member), Before]
  clear valid
  induction l with
  | nil => rfl
  | cons b rest ih =>
      have tail := ih fun c member => same c (List.mem_cons_of_mem _ member)
      rw [List.takeWhile_cons, List.takeWhile_cons, same b (List.mem_cons_self ..), tail]

theorem insertLink_chain (linked : Links m.heap.next nullptr (m.head q) l)
    (valid : ∀ b ∈ l, validThreadPtr b = true) (short : l.length ≤ walkGuard) (t : Ptr) :
    insertLink m q t = (Cell.head q).after (l.takeWhile fun b => decide (¬ Before m t b)) := by
  rw [← takeWhile_outranks valid]
  exact Heap.walk_after m.heap nullptr _ (by simp [outranks]) l walkGuard (.head q) linked
    (le_trans (List.takeWhile_prefix _).length_le short)

/-- On a chain in order, the new thread is linked to whatever it goes before. -/
theorem insertRest_chain (linked : Links m.heap.next nullptr (m.head q) l)
    (valid : ∀ b ∈ l, validThreadPtr b = true) (short : l.length ≤ walkGuard) (t : Ptr) :
    insertRest m q t = m.heap.load (insertLink m q t) := by
  have split : (l.takeWhile fun b => decide (¬ Before m t b)) ++
      (l.dropWhile fun b => decide (¬ Before m t b)) = l := List.takeWhile_append_dropWhile
  have behind := m.heap.links_after q (split.symm ▸ linked)
  rw [← insertLink_chain linked valid short] at behind
  unfold insertRest
  cases post : l.dropWhile fun b => decide (¬ Before m t b) with
  | nil =>
      rw [post] at behind
      have empty : m.heap.load (insertLink m q t) = nullptr := behind
      simp [empty]
  | cons b tail =>
      rw [post] at behind
      have here := valid b (by rw [← split, post]; simp)
      simp [behind.1, here]

/-- The scan finds a thread of the queue behind the nodes in front of it. -/
theorem threadQueueScan_found {post : List Ptr} : ∀ (pre before : List Ptr) (budget : Nat),
    Links m.heap.next nullptr (m.head q) (before ++ (pre ++ t :: post)) →
      (∀ x ∈ pre ++ t :: post, validThreadPtr x = true) → t ∉ pre → pre.length < budget →
      threadQueueScan m t budget ((Cell.head q).after before) =
        (true, (m.store ((Cell.head q).after (before ++ pre)) (m.thread t).next).modifyThread t
          fun thread => { thread with queue := none }) := by
  intro pre
  induction pre with
  | nil =>
      intro before budget linked valid _ enough
      cases budget with
      | zero => simp at enough
      | succ budget =>
          have loaded := (m.heap.links_after q linked).1
          have valid := valid t (by simp)
          simp only [threadQueueScan, loaded, ne_nullptr_of_valid valid, valid, if_false,
            Bool.true_eq_false, if_true, List.append_nil]
  | cons x pre ih =>
      intro before budget linked valid apart enough
      cases budget with
      | zero => simp at enough
      | succ budget =>
          have loaded := (m.heap.links_after q linked).1
          rw [List.cons_append, List.append_cons] at linked
          have step := ih (before ++ [x]) budget linked
            (fun y member => valid y (List.mem_cons_of_mem _ member))
            (fun member => apart (List.mem_cons_of_mem _ member))
            (by simp only [List.length_cons] at enough; omega)
          rw [Cell.after_concat] at step
          have valid := valid x (by simp)
          have other : x ≠ t := fun same => apart (same ▸ List.mem_cons_self ..)
          simp only [threadQueueScan, loaded, ne_nullptr_of_valid valid, valid, if_false,
            Bool.true_eq_false, other]
          rw [step, List.append_assoc, List.singleton_append]

/-- The scan of a queue that does not hold the thread changes nothing. -/
theorem threadQueueScan_miss : ∀ (rest before : List Ptr) (budget : Nat),
    Links m.heap.next nullptr (m.head q) (before ++ rest) →
      (∀ x ∈ rest, validThreadPtr x = true) → t ∉ rest → rest.length ≤ budget →
      threadQueueScan m t budget ((Cell.head q).after before) = (false, m) := by
  intro rest
  induction rest with
  | nil =>
      intro before budget linked _ _ _
      have loaded : m.heap.load ((Cell.head q).after before) = nullptr :=
        m.heap.links_after q linked
      cases budget <;> simp [threadQueueScan, loaded]
  | cons x rest ih =>
      intro before budget linked valid apart enough
      cases budget with
      | zero => simp at enough
      | succ budget =>
          have loaded := (m.heap.links_after q linked).1
          rw [List.append_cons] at linked
          have step := ih (before ++ [x]) budget linked
            (fun y member => valid y (List.mem_cons_of_mem _ member))
            (fun member => apart (List.mem_cons_of_mem _ member))
            (by simp only [List.length_cons] at enough; omega)
          rw [Cell.after_concat] at step
          have valid := valid x (by simp)
          have other : x ≠ t := fun same => apart (same ▸ List.mem_cons_self ..)
          simp only [threadQueueScan, loaded, ne_nullptr_of_valid valid, valid, if_false,
            Bool.true_eq_false, other]
          exact step

end Chain

/-! ## The abstract picture -/

/-- The memory holds these lists: the chain of each queue is its list, the
`queue` field of a thread names exactly the list it is on, and all linked
threads are valid pointers. -/
structure Memory.Queues (m : Memory) (lists : ThreadQueue → List Ptr) : Prop where
  represents : m.heap.Represents nullptr lists
  named : ∀ t q, t ∈ lists q ↔ (m.thread t).queue = some q
  valid : ∀ q, ∀ t ∈ lists q, validThreadPtr t = true

section Refinement
variable {m : Memory} {lists : ThreadQueue → List Ptr}

theorem Memory.Queues.head_nil_iff (held : m.Queues lists) (q : ThreadQueue) :
    m.head q = nullptr ↔ lists q = [] := held.represents.head_nil_iff q

theorem Memory.Queues.unlinked_iff (held : m.Queues lists) (t : Ptr) :
    (m.thread t).queue = none ↔ ∀ q, t ∉ lists q := by
  constructor
  · intro none q member
    rw [(held.named t q).mp member] at none
    contradiction
  · intro out
    cases queue : (m.thread t).queue with
    | none => rfl
    | some q => exact absurd ((held.named t q).mpr queue) (out q)

theorem Memory.Queues.modifyThread (held : m.Queues lists) (t : Ptr) (f : OSThread → OSThread)
    (next : ∀ thread, (f thread).next = thread.next)
    (queue : ∀ thread, (f thread).queue = thread.queue) :
    (m.modifyThread t f).Queues lists := by
  refine ⟨?_, ?_, held.valid⟩
  · rw [heap_modifyThread m t f next]
    exact held.represents
  · intro u q
    rw [modifyThread_field m t u f OSThread.queue queue]
    exact held.named u q

theorem Memory.Queues.renew (held : m.Queues lists) {t : Ptr} (f : OSThread → OSThread)
    (unlinked : (m.thread t).queue = none) (renewed : (f (m.thread t)).queue = none) :
    (m.modifyThread t f).Queues lists := by
  have out := (held.unlinked_iff t).mp unlinked
  refine ⟨⟨?_, held.represents.disjoint⟩, ?_, held.valid⟩
  · intro q
    have linked := held.represents.links q
    rw [Memory.heap] at linked ⊢
    simp only [modifyThread_head]
    refine links_congr ?_ linked
    intro u member
    have other : u ≠ t := fun same => out q (same ▸ member)
    simp only [modifyThread_other m f other]
  · intro u q
    by_cases same : u = t
    · subst same
      rw [modifyThread_self, renewed]
      simp [out q]
    · rw [modifyThread_other m f same]
      exact held.named u q

theorem Memory.Queues.setRing (held : m.Queues lists) (mq : Ptr) (ring : MesgRing) :
    (m.setRing mq ring).Queues lists := by
  refine ⟨?_, held.named, held.valid⟩
  rw [heap_setRing]
  exact held.represents

theorem Memory.Queues.insert (held : m.Queues lists) (q : ThreadQueue) {t : Ptr}
    (valid : validThreadPtr t = true) (unlinked : (m.thread t).queue = none)
    (short : (lists q).length ≤ walkGuard) :
    (threadQueueInsert m q t).Queues
      (Function.update lists q ((lists q).orderedInsert (Before m) t)) := by
  have out := (held.unlinked_iff t).mp unlinked
  have linked := held.represents.links q
  have hung := insertLink_chain linked (held.valid q) short t
  have tail := insertRest_chain linked (held.valid q) short t
  rw [List.orderedInsert_eq_take_drop]
  set passed := (lists q).takeWhile fun b => decide (¬ Before m t b)
  set rest := (lists q).dropWhile fun b => decide (¬ Before m t b)
  have split : lists q = passed ++ rest := (List.takeWhile_append_dropWhile).symm
  refine ⟨?_, ?_, ?_⟩
  · rw [heap_threadQueueInsert, tail, hung]
    exact held.represents.splice q split (ne_nullptr_of_valid valid) out
  · intro u q'
    by_cases same : u = t
    · subst same
      rw [threadQueueInsert_queue_self, Option.some.injEq]
      by_cases here : q' = q
      · subst here
        simp
      · simp [Function.update_of_ne here, out q', Ne.symm here]
    · rw [threadQueueInsert_queue_other m q same, ← held.named u q']
      by_cases here : q' = q
      · subst here
        rw [Function.update_self, split]
        simp [same]
      · rw [Function.update_of_ne here]
  · intro q' u member
    by_cases here : q' = q
    · subst here
      rw [Function.update_self, List.mem_append, List.mem_cons] at member
      rcases member with member | rfl | member
      · exact held.valid q' u (by rw [split]; simp [member])
      · exact valid
      · exact held.valid q' u (by rw [split]; simp [member])
    · rw [Function.update_of_ne here] at member
      exact held.valid q' u member

theorem Memory.Queues.unlink (held : m.Queues lists) (q : ThreadQueue) {pre post : List Ptr}
    {t : Ptr} (split : lists q = pre ++ t :: post) :
    ((m.store ((Cell.head q).after pre) (m.thread t).next).modifyThread t
      fun thread => { thread with queue := none }).Queues
        (Function.update lists q (pre ++ post)) := by
  have distinct := held.represents.nodup q
  rw [split] at distinct
  have gone : t ∉ pre ++ post := fun member =>
    (List.nodup_cons.mp (List.nodup_middle.mp distinct)).1 member
  have inQ : t ∈ lists q := by rw [split]; simp
  refine ⟨?_, ?_, ?_⟩
  · have frame := heap_modifyThread (m.store ((Cell.head q).after pre) (m.thread t).next) t
      (fun thread => { thread with queue := none }) fun _ => rfl
    rw [frame, heap_store]
    exact held.represents.unlink q split
  · intro u q'
    by_cases same : u = t
    · subst same
      rw [modifyThread_self]
      simp only [reduceCtorEq, iff_false]
      by_cases here : q' = q
      · subst here
        rw [Function.update_self]
        exact gone
      · rw [Function.update_of_ne here]
        exact fun member => here (held.represents.disjoint q' q u member inQ)
    · rw [modifyThread_other _ _ same, store_field _ _ _ _ OSThread.queue fun _ _ => rfl,
        ← held.named u q']
      by_cases here : q' = q
      · subst here
        rw [Function.update_self, split]
        simp [same]
      · rw [Function.update_of_ne here]
  · intro q' u member
    by_cases here : q' = q
    · subst here
      rw [Function.update_self] at member
      refine held.valid q' u ?_
      rw [split]
      rcases List.mem_append.mp member with member | member <;> simp [member]
    · rw [Function.update_of_ne here] at member
      exact held.valid q' u member

theorem Memory.Queues.pop (held : m.Queues lists) {q : ThreadQueue} {t : Ptr} {rest : List Ptr}
    (split : lists q = t :: rest) :
    (threadQueuePop m q).1 = t ∧
      (threadQueuePop m q).2.Queues (Function.update lists q rest) := by
  have head : m.head q = t := held.represents.head_cons split
  have valid := held.valid q t (by rw [split]; simp)
  simp only [threadQueuePop, head, valid, if_true, true_and]
  exact held.unlink q (show lists q = [] ++ t :: rest from split)

theorem Memory.Queues.remove (held : m.Queues lists) {q : ThreadQueue} {t : Ptr}
    (scanned : q = .running ∨ validThreadPtr q.addr = true) (member : t ∈ lists q)
    (short : (lists q).length ≤ walkGuard) :
    (threadQueueRemove m (some q) t).1 = true ∧
      (threadQueueRemove m (some q) t).2.Queues
        (Function.update lists q ((lists q).erase t)) := by
  obtain ⟨pre, post, split, first⟩ : ∃ pre post, lists q = pre ++ t :: post ∧ t ∉ pre := by
    obtain ⟨pre, post, split, first⟩ := List.eq_append_cons_of_mem member
    exact ⟨pre, post, split, first⟩
  have guard : ¬ (q ≠ .running ∧ validThreadPtr q.addr = false) := by
    rintro ⟨other, invalid⟩
    rcases scanned with same | valid
    · exact other same
    · rw [valid] at invalid
      contradiction
  have linked : Links m.heap.next nullptr (m.head q) ([] ++ (pre ++ t :: post)) :=
    split ▸ held.represents.links q
  have found := threadQueueScan_found t pre [] walkGuard linked (split ▸ held.valid q) first (by
    rw [split] at short
    simp only [List.length_append, List.length_cons] at short
    omega)
  simp only [threadQueueRemove, if_neg guard]
  rw [show (Cell.head q : Cell ThreadQueue Ptr) = (Cell.head q).after [] from rfl, found]
  refine ⟨rfl, ?_⟩
  rw [split, List.erase_append_right _ first, List.erase_cons_head]
  exact held.unlink q split

theorem Memory.Queues.remove_miss (held : m.Queues lists) (q : ThreadQueue) {t : Ptr}
    (out : t ∉ lists q) (short : (lists q).length ≤ walkGuard) :
    threadQueueRemove m (some q) t = (false, m) := by
  simp only [threadQueueRemove]
  split
  · rfl
  · exact threadQueueScan_miss t (lists q) [] walkGuard (held.represents.links q) (held.valid q)
      out short

end Refinement

end N64ModernRuntime.Ultramodern
