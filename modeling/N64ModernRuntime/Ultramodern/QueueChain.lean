import N64ModernRuntime.Ultramodern.ThreadQueue

/-!
# One thread queue by itself

`Memory.Queues` speaks of all the queues at once and of the `queue` fields.
Here a single chain is followed from its head, whatever the other queues hold
and whichever queue the threads believe they are in.
-/

set_option autoImplicit false

namespace N64ModernRuntime.Ultramodern

open IntrusiveList

structure Memory.QueueHolds (m : Memory) (q : ThreadQueue) (l : List Ptr) : Prop where
  links : Links m.heap.next nullptr (m.head q) l
  sorted : l.Pairwise (Before m)

/-- A queue the code can work on: valid threads, fewer than the walks may pass,
and a queue pointer that is itself acceptable. -/
structure Memory.QueueInOrder (m : Memory) (q : ThreadQueue) (l : List Ptr) : Prop extends
    m.QueueHolds q l where
  valid : ∀ t ∈ l, validThreadPtr t = true
  short : l.length < walkGuard
  place : q = .running ∨ validThreadPtr q.addr = true

section InOrder
variable {m : Memory} {q : ThreadQueue} {l : List Ptr}

theorem Memory.QueueInOrder.insert (held : m.QueueInOrder q l) {t : Ptr} (here : t ≠ nullptr)
    (out : t ∉ l) : (threadQueueInsert m q t).QueueHolds q (l.orderedInsert (Before m) t) := by
  have hung := insertLink_chain held.links held.valid (le_of_lt held.short) t
  have tail := insertRest_chain held.links held.valid (le_of_lt held.short) t
  have order := (held.sorted.orderedInsert t l)
  refine ⟨?_, pairwise_before order fun u _ => threadQueueInsert_priority m q t u⟩
  have linked := held.links
  rw [List.orderedInsert_eq_take_drop]
  set passed := l.takeWhile fun b => decide (¬ Before m t b)
  set rest := l.dropWhile fun b => decide (¬ Before m t b)
  have split : l = passed ++ rest := (List.takeWhile_append_dropWhile).symm
  rw [split] at linked
  have behind := m.heap.links_after q linked
  have changed : (threadQueueInsert m q t).heap =
      Heap.store ⟨m.heap.head, Function.update m.heap.next t (insertRest m q t)⟩
        ((Cell.head q).after passed) t := by
    rw [heap_threadQueueInsert, hung]
    rfl
  have other : ∀ x ∈ l, x ≠ t := by
    rintro x member rfl
    exact out member
  change Links (threadQueueInsert m q t).heap.next nullptr ((threadQueueInsert m q t).heap.head q) _
  rw [changed]
  apply m.heap.links_redirect q _ linked
  · intro x member
    exact Function.update_of_ne (other x (by rw [split]; exact List.mem_append_left _ member)) _ _
  · refine ⟨rfl, here, ?_⟩
    rw [Function.update_self, tail, hung]
    refine links_congr (fun x member => ?_) behind
    exact Function.update_of_ne (other x (by rw [split]; exact List.mem_append_right _ member)) _ _
  · intro x member inPassed
    rcases List.mem_cons.mp member with rfl | member
    · exact out (by rw [split]; exact List.mem_append_left _ inPassed)
    · exact (List.nodup_append.mp (links_nodup linked)).2.2 x inPassed x member rfl
  · exact fun member => links_ne_nil linked _ (List.mem_append_left _ member) rfl

theorem Memory.QueueInOrder.unlink (held : m.QueueInOrder q l) {pre post : List Ptr} {t : Ptr}
    (split : l = pre ++ t :: post) :
    ((m.store ((Cell.head q).after pre) (m.thread t).next).modifyThread t
      fun thread => { thread with queue := none }).QueueHolds q (pre ++ post) := by
  have linked := held.links
  rw [split] at linked
  have distinct := links_nodup linked
  constructor
  · have frame := heap_modifyThread (m.store ((Cell.head q).after pre) (m.thread t).next) t
      (fun thread => { thread with queue := none }) fun _ => rfl
    change Links (Memory.heap _).next nullptr ((Memory.heap _).head q) _
    rw [frame, heap_store]
    apply m.heap.links_redirect q m.heap.next linked fun _ _ => rfl
    · exact (links_suffix pre linked).2.2
    · intro x member inPre
      exact (List.nodup_append.mp distinct).2.2 x inPre x (List.mem_cons_of_mem _ member) rfl
    · exact fun member => links_ne_nil linked _ (List.mem_append_left _ member) rfl
  · have sorted := held.sorted
    rw [split] at sorted
    refine pairwise_before (sorted.sublist ?_) fun u _ => ?_
    · exact (List.sublist_cons_self t post).append_left pre
    · have stored := store_field m u (m.thread t).next ((Cell.head q).after pre)
        OSThread.priority fun _ _ => rfl
      exact (modifyThread_field _ t u (fun thread => { thread with queue := none })
        OSThread.priority fun _ => rfl).trans stored

theorem Memory.QueueInOrder.pop {t : Ptr} {rest : List Ptr} (held : m.QueueInOrder q (t :: rest)) :
    (threadQueuePop m q).1 = t ∧ (threadQueuePop m q).2.QueueHolds q rest := by
  have head : m.head q = t := held.links.1
  have valid := held.valid t (List.mem_cons_self ..)
  simp only [threadQueuePop, head, valid, if_true, true_and]
  exact held.unlink (show t :: rest = [] ++ t :: rest from rfl)

theorem Memory.QueueInOrder.remove (held : m.QueueInOrder q l) {t : Ptr} (member : t ∈ l) :
    (threadQueueRemove m (some q) t).1 = true ∧
      (threadQueueRemove m (some q) t).2.QueueHolds q (l.erase t) := by
  obtain ⟨pre, post, split, first⟩ := List.eq_append_cons_of_mem member
  have guard : ¬ (q ≠ .running ∧ validThreadPtr q.addr = false) := by
    rintro ⟨other, invalid⟩
    rcases held.place with same | valid
    · exact other same
    · rw [valid] at invalid
      contradiction
  have linked := held.links
  have short := held.short
  rw [split] at linked short
  have found := threadQueueScan_found t pre [] walkGuard linked (split ▸ held.valid) first (by
    simp only [List.length_append, List.length_cons] at short
    omega)
  simp only [threadQueueRemove, if_neg guard]
  rw [show (Cell.head q : Cell ThreadQueue Ptr) = (Cell.head q).after [] from rfl, found]
  refine ⟨rfl, ?_⟩
  rw [split, List.erase_append_right _ first, List.erase_cons_head]
  exact held.unlink split

theorem Memory.QueueInOrder.remove_miss (held : m.QueueInOrder q l) {t : Ptr} (out : t ∉ l) :
    threadQueueRemove m (some q) t = (false, m) := by
  simp only [threadQueueRemove]
  split
  · rfl
  · exact threadQueueScan_miss t l [] walkGuard held.links held.valid out (le_of_lt held.short)

end InOrder

/-- The three operations on a queue that is in order, for every position and tie. -/
theorem queue_operations (m : Memory) (q : ThreadQueue) (l : List Ptr)
    (held : m.QueueInOrder q l) :
    (∀ t, t ≠ nullptr → t ∉ l → ∃ l', l'.Perm (t :: l) ∧ (threadQueueInsert m q t).QueueHolds q l') ∧
    (l = [] → (threadQueuePop m q).1 = nullptr) ∧
    (∀ t rest, l = t :: rest → (threadQueuePop m q).1 = t ∧
      (∀ u ∈ l, (m.thread u).priority ≤ (m.thread t).priority) ∧
      (threadQueuePop m q).2.QueueHolds q rest) ∧
    (∀ t ∈ l, (threadQueueRemove m (some q) t).1 = true ∧
      (threadQueueRemove m (some q) t).2.QueueHolds q (l.erase t)) ∧
    ∀ t, t ∉ l → threadQueueRemove m (some q) t = (false, m) := by
  refine ⟨?_, ?_, ?_, ?_, ?_⟩
  · intro t here out
    exact ⟨_, List.perm_orderedInsert _ t l, held.insert here out⟩
  · rintro rfl
    have empty : m.head q = nullptr := held.links
    simp [threadQueuePop, empty, validThreadPtr_nullptr]
  · rintro t rest rfl
    obtain ⟨popped, left⟩ := held.pop
    refine ⟨popped, ?_, left⟩
    intro u member
    rcases List.mem_cons.mp member with rfl | member
    · exact le_refl _
    · exact (List.pairwise_cons.mp held.sorted).1 u member
  · exact fun t member => held.remove member
  · exact fun t out => held.remove_miss out

/-- The running queue holds two threads of priorities 5 and 3. -/
def pairMemory : Memory where
  thread := fun t =>
    if t = 0x80001000 then
      { next := 0x80002000, priority := 5, queue := some .running, state := .queued }
    else if t = 0x80002000 then { priority := 3, queue := some .running, state := .queued }
    else { priority := 4 }
  mesgQueue := fun _ =>
    { validCount := 0, first := 0, msgCount := 0, msg := nullptr, slots := fun _ => 0
      blockedOnRecv := nullptr, blockedOnSend := nullptr }
  runningQueueImpl := 0x80001000

theorem queue_operations_pair :
    (∃ l', l'.Perm [0x80003000, 0x80001000, 0x80002000] ∧
      (threadQueueInsert pairMemory .running 0x80003000).QueueHolds .running l') ∧
    (threadQueuePop pairMemory .running).1 = 0x80001000 := by
  have held : pairMemory.QueueInOrder .running [0x80001000, 0x80002000] :=
    { links := ⟨rfl, by decide, rfl, by decide, rfl⟩
      sorted := by decide
      valid := List.all_eq_true.mp rfl
      short := by decide
      place := Or.inl rfl }
  obtain ⟨insert, -, pop, -⟩ := queue_operations pairMemory .running _ held
  exact ⟨insert 0x80003000 (by decide) (by decide), (pop _ _ rfl).1⟩

end N64ModernRuntime.Ultramodern
