import N64ModernRuntime.Ultramodern.Membership

/-!
# osSetThreadPri on a thread that is in a queue

The comment in the source says such a thread is re-inserted so that the queue
order tracks its new priority.  The remove clears `queue`, and the insert that
follows reads it.
-/

set_option autoImplicit false

namespace N64ModernRuntime.Ultramodern

open Transition IntrusiveList

variable {layout : ThreadLayout}

/-- `t` has the new priority and is still in `q`, which holds the threads it
held, again in order; no other queue and no other priority has changed. -/
structure Memory.Requeued (m m' : Memory) (lists : ThreadQueue → List Ptr) (q : ThreadQueue)
    (t : Ptr) (pri : OSPri) (l : List Ptr) : Prop where
  queues : m'.Queues (Function.update lists q l)
  same : l.Perm (lists q)
  sorted : l.Pairwise (Before m')
  priority : (m'.thread t).priority = pri
  linked : (m'.thread t).queue = some q
  others : ∀ u, u ≠ t → (m'.thread u).priority = (m.thread u).priority

/-- The re-insertion, and then the switch to the head of the running queue if
it outranks the caller. -/
def PrioritySet (k : Kernel) (c : ContextId) (lists : ThreadQueue → List Ptr) (q : ThreadQueue)
    (t : Ptr) (pri : OSPri) : Prop :=
  ∃ m' l k', k.memory.Requeued m' lists q t pri l ∧
    checkRunningQueue (k.withMemory m') c 0 = .ok k' ∧ osSetThreadPri k c (some t) pri = .ok k'

section SetThreadPri
variable {k : Kernel} {c : ContextId} {lists : ThreadQueue → List Ptr} {q : ThreadQueue} {t : Ptr}
  {pri : OSPri}

/-- Whatever the new priority, the insert is handed the NULL that the remove
has left in `queue`. -/
theorem osSetThreadPri_loses (linked : k.memory.Linked layout lists)
    (place : q = .running ∨ validThreadPtr q.addr = true) (member : t ∈ lists q)
    (other : t ≠ k.self c) (changed : (k.memory.thread t).priority ≠ pri) :
    osSetThreadPri k c (some t) pri = .error .nullDereference := by
  have renamed : (k.memory.setPriority t pri).Queues lists :=
    linked.queues.modifyThread t _ (fun _ => rfl) fun _ => rfl
  have here : (k.memory.thread t).queue = some q := (linked.queues.named t q).mp member
  obtain ⟨-, queues⟩ := renamed.remove place member (linked.short q)
  have unlinked : ((threadQueueRemove (k.memory.setPriority t pri) (some q) t).2.thread t).queue =
      none := by
    refine (queues.unlinked_iff t).mpr fun q' inList => ?_
    rw [mem_update_iff] at inList
    rcases inList with ⟨rfl, inList⟩ | ⟨apart, inList⟩
    · have distinct := linked.queues.represents.nodup q'
      exact (distinct.not_mem_erase) inList
    · exact apart (linked.queues.represents.disjoint q' q t inList member)
  have live := linked.live q t member
  simp only [osSetThreadPri, Option.getD_some, if_pos changed, here]
  rw [if_pos ⟨other, live⟩, unlinked]

/-- A sorted rearrangement of the running queue has a head of the same priority. -/
theorem settled_of_requeued {m m' : Memory} {l : List Ptr} {self : Ptr}
    (queues : m.Queues lists) (requeued : m.Requeued m' lists q t (m.thread t).priority l)
    (settled : Settled m' self) : Settled m self := by
  have priority : ∀ u, (m'.thread u).priority = (m.thread u).priority := by
    intro u
    by_cases same : u = t
    · rw [same]
      exact requeued.priority
    · exact requeued.others u same
  have perm : (Function.update lists q l .running).Perm (lists .running) := by
    by_cases here : ThreadQueue.running = q
    · subst here
      rw [Function.update_self]
      exact requeued.same
    · rw [Function.update_of_ne here]
  cases held : lists .running with
  | nil => exact Or.inl ((queues.head_nil_iff .running).mpr held)
  | cons x rest =>
      have head : m.head .running = x := queues.represents.head_cons held
      refine Or.inr ?_
      rw [head]
      cases held' : Function.update lists q l .running with
      | nil =>
          rw [held', held] at perm
          exact absurd perm.length_eq (by simp)
      | cons y rest' =>
          have head' : m'.head .running = y := requeued.queues.represents.head_cons held'
          have inList : x ∈ y :: rest' := by
            rw [← held']
            exact perm.mem_iff.mpr (by rw [held]; simp)
          have front : (m.thread x).priority ≤ (m.thread y).priority := by
            by_cases here : ThreadQueue.running = q
            · subst here
              rw [Function.update_self] at held'
              have sorted := requeued.sorted
              rw [held'] at sorted
              rcases List.mem_cons.mp inList with rfl | inList
              · exact le_refl _
              · have order := (List.pairwise_cons.mp sorted).1 x inList
                unfold Before at order
                rwa [priority, priority] at order
            · rw [Function.update_of_ne here, held] at held'
              rw [(List.cons.inj held').1]
          rcases settled with empty | fair
          · rw [head'] at empty
            have valid := requeued.queues.valid .running y (by rw [held']; simp)
            exact absurd empty (ne_nullptr_of_valid valid)
          · rw [head', priority, priority] at fair
            exact le_trans front fair

theorem osSetThreadPri_same (unchanged : (k.memory.thread t).priority = pri) :
    osSetThreadPri k c (some t) pri = .ok (k.setPc c (.running (.guest 0))) := by
  simp [osSetThreadPri, unchanged]

theorem checkRunningQueue_settled {ret : Int} (settled : Settled k.memory (k.self c)) :
    checkRunningQueue k c ret = .ok (k.setPc c (.running (.guest ret))) := by
  unfold checkRunningQueue
  split
  · rfl
  · rename_i busy
    rcases settled with empty | fair
    · exact absurd (by simpa [threadQueueEmpty] using empty) busy
    · exact if_neg (Int.not_lt.mpr fair)

end SetThreadPri

/-- A thread in a queue is served as intended only when there is nothing to
do: it has that priority and nobody in front outranks the caller. -/
theorem set_thread_pri_iff (k : Kernel) (c : ContextId) (lists : ThreadQueue → List Ptr)
    (q : ThreadQueue) (t : Ptr) (pri : OSPri) (linked : k.memory.Linked layout lists)
    (place : q = .running ∨ validThreadPtr q.addr = true) (member : t ∈ lists q)
    (other : t ≠ k.self c) :
    PrioritySet k c lists q t pri ↔
      (k.memory.thread t).priority = pri ∧ Settled k.memory (k.self c) := by
  constructor
  · rintro ⟨m', l, k', requeued, checked, ran⟩
    have unchanged : (k.memory.thread t).priority = pri := by
      by_contra changed
      rw [osSetThreadPri_loses linked place member other changed] at ran
      contradiction
    refine ⟨unchanged, ?_⟩
    rw [osSetThreadPri_same unchanged] at ran
    cases ran
    rcases checkRunningQueue_ok checked with ⟨settled, -⟩ | ⟨w, cp, -, -, -, -, switched⟩
    · subst unchanged
      exact settled_of_requeued linked.queues requeued settled
    · have pc := congrArg (fun k : Kernel => k.pc c) switched
      simp [handOff_pc] at pc
  · rintro ⟨unchanged, settled⟩
    refine ⟨k.memory, lists q, _, ?_, checkRunningQueue_settled settled,
      osSetThreadPri_same unchanged⟩
    refine ⟨?_, List.Perm.refl _, linked.sorted q, unchanged,
      (linked.queues.named t q).mp member, fun u _ => rfl⟩
    rw [Function.update_eq_self]
    exact linked.queues

/-- Thread A runs with priority 5 and has started B with priority 3. -/
theorem queued_pair : ∃ (k : Kernel) (lists : ThreadQueue → List Ptr),
    k.memory.Linked threeThreads lists ∧ threadB.val ∈ lists .running ∧ threadB.val ≠ k.self 0 ∧
      (k.memory.thread threadB.val).priority = 3 ∧ Settled k.memory (k.self 0) := by
  obtain ⟨k, ran, queue, self, priority, settled⟩ :
      ∃ k, run step NamesUnlinked (Kernel.boot smallRings)
        [.outsideCreate threadA 5, .outsideStart threadA, .wake 0,
          .call 0 (.osCreateThread threadB 3), .call 0 (.osStartThread threadB)] = some k ∧
        (k.memory.thread threadB.val).queue = some .running ∧ k.self 0 = threadA.val ∧
        (k.memory.thread threadB.val).priority = 3 ∧ Settled k.memory (k.self 0) :=
    ⟨_, rfl, rfl, rfl, rfl, Or.inr (by decide)⟩
  have reached : Reach (@step threeThreads) NamesUnlinked Booted k :=
    reach_of_run _ ⟨smallRings, rfl⟩ ran
  obtain ⟨lists, queued⟩ := reach_queued (fun _ _ => id) reached
  refine ⟨k, lists, queued.linked, ?_, ?_, priority, settled⟩
  · exact (queued.linked.queues.named _ _).mpr queue
  · rw [self]
    decide

theorem set_thread_pri_iff_pair : ∃ (k : Kernel) (lists : ThreadQueue → List Ptr),
    PrioritySet k 0 lists .running threadB.val 3 := by
  obtain ⟨k, lists, linked, member, other, priority, settled⟩ := queued_pair
  exact ⟨k, lists, (set_thread_pri_iff k 0 lists .running threadB.val 3 linked (Or.inl rfl) member
    other).mpr ⟨priority, settled⟩⟩

/-- Raising the priority of a thread that waits to run. -/
theorem raised_thread_lost : ¬ ∀ (k : Kernel) (c : ContextId) (lists : ThreadQueue → List Ptr)
    (q : ThreadQueue) (t : Ptr) (pri : OSPri), k.memory.Linked threeThreads lists →
      q = .running ∨ validThreadPtr q.addr = true → t ∈ lists q → t ≠ k.self c →
        PrioritySet k c lists q t pri := by
  intro always
  obtain ⟨k, lists, linked, member, other, priority, -⟩ := queued_pair
  obtain ⟨m', l, k', -, -, ran⟩ :=
    always k 0 lists .running threadB.val 4 linked (Or.inl rfl) member other
  have lost : osSetThreadPri k 0 (some threadB.val) 4 = .error .nullDereference :=
    osSetThreadPri_loses linked (Or.inl rfl) member other (by rw [priority]; decide)
  rw [lost] at ran
  contradiction

end N64ModernRuntime.Ultramodern
