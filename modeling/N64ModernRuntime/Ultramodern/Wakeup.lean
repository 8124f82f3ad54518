import N64ModernRuntime.Ultramodern.Priority

/-!
# No lost wakeups on the message queues

A woken thread is not handed the message or the slot it waited for: it tests
again, and may find that another thread was faster.  What is never lost is the
count.  While threads wait on a side of a queue, every message (or free slot)
that they could have is matched by a thread that was popped from their list
and has yet to test again.
-/

set_option autoImplicit false

namespace N64ModernRuntime.Ultramodern

open Transition IntrusiveList

variable {layout : ThreadLayout}

/-- What the threads of a blocked list wait for: messages, or free slots. -/
def Memory.supply (m : Memory) : ThreadQueue → Int
  | .running => 0
  | .blockedOnRecv mq => (m.mesgQueue mq).validCount
  | .blockedOnSend mq => (m.mesgQueue mq).msgCount - (m.mesgQueue mq).validCount

/-- The list whose blocking loop a host thread is in. -/
def Pc.retests : Pc → Option ThreadQueue
  | .running (.retest op) => some op.blocked
  | .waiting _ (.retest op) => some op.blocked
  | _ => none

/-- Popped from the list, and not back at the test of its loop. -/
def Kernel.InFlight (k : Kernel) (q : ThreadQueue) (c : ContextId) : Prop :=
  (k.pc c).retests = some q ∧ (k.thread c).queue ≠ some q

instance (k : Kernel) (q : ThreadQueue) (c : ContextId) : Decidable (k.InFlight q c) :=
  inferInstanceAs (Decidable ((k.pc c).retests = some q ∧ (k.thread c).queue ≠ some q))

def Kernel.flight (k : Kernel) (q : ThreadQueue) : Finset ContextId :=
  (Finset.range k.contexts).filter (k.InFlight q)

/-- Threads that wait in a list are in the loop of that list, and as many as
the supply are on their way to test again. -/
structure Kernel.Wakeful (k : Kernel) : Prop where
  parked : ∀ t q, q ≠ .running → (k.memory.thread t).queue = some q →
    ∃ d on op, k.self d = t ∧ k.pc d = .waiting on (.retest op) ∧ op.blocked = q
  counted : ∀ t q, q ≠ .running → (k.memory.thread t).queue = some q →
    k.memory.supply q ≤ (k.flight q).card

section Supply
variable {m : Memory} {op : MesgOp} {q : ThreadQueue}

theorem wakes_ne_blocked (op : MesgOp) : op.wakes ≠ op.blocked := by
  cases op <;> simp [MesgOp.wakes, MesgOp.blocked]

theorem supply_of_stuck (stuck : op.stuck m = true) : m.supply op.blocked ≤ 0 := by
  cases op with
  | send mq msg jam =>
      simp only [MesgOp.stuck, mqIsFull, decide_eq_true_eq] at stuck
      simp only [MesgOp.blocked, Memory.supply]
      omega
  | recv mq =>
      simp only [MesgOp.stuck, mqIsEmpty, decide_eq_true_eq] at stuck
      simp only [MesgOp.blocked, Memory.supply]
      omega

theorem supply_congr {m' : Memory}
    (rings : ∀ mq, (m'.mesgQueue mq).toMesgRing = (m.mesgQueue mq).toMesgRing) :
    m'.supply q = m.supply q := by
  cases q <;> simp only [Memory.supply, rings]

theorem sendInto_counts (mq other : Ptr) (msg : OSMesg) (jam : Bool) :
    ((sendInto m mq msg jam).mesgQueue other).msgCount = (m.mesgQueue other).msgCount ∧
      ((sendInto m mq msg jam).mesgQueue other).validCount =
        (m.mesgQueue other).validCount + (if other = mq then 1 else 0) := by
  by_cases same : other = mq
  · subst same
    simp
  · rw [sendInto_ring_other m msg jam same]
    simp [same]

theorem recvFrom_counts (mq other : Ptr) :
    ((recvFrom m mq).mesgQueue other).msgCount = (m.mesgQueue other).msgCount ∧
      ((recvFrom m mq).mesgQueue other).validCount =
        (m.mesgQueue other).validCount - (if other = mq then 1 else 0) := by
  by_cases same : other = mq
  · subst same
    simp [MesgRing.take]
  · rw [recvFrom_ring_other m same]
    simp [same]

/-- A transfer takes one from its own side and gives one to the other. -/
theorem supply_transfer (m : Memory) (op : MesgOp) (q : ThreadQueue) : (op.transfer m).supply q =
    m.supply q + (if q = op.wakes then 1 else 0) - (if q = op.blocked then 1 else 0) := by
  cases op with
  | send mq msg jam =>
      cases q with
      | running => simp [Memory.supply, MesgOp.wakes, MesgOp.blocked]
      | blockedOnRecv other =>
          have counts := sendInto_counts (m := m) mq other msg jam
          simp only [MesgOp.transfer, Memory.supply, counts, MesgOp.wakes, MesgOp.blocked,
            ThreadQueue.blockedOnRecv.injEq, reduceCtorEq, if_false]
          omega
      | blockedOnSend other =>
          have counts := sendInto_counts (m := m) mq other msg jam
          simp only [MesgOp.transfer, Memory.supply, counts, MesgOp.wakes, MesgOp.blocked,
            ThreadQueue.blockedOnSend.injEq, reduceCtorEq, if_false]
          omega
  | recv mq =>
      cases q with
      | running => simp [Memory.supply, MesgOp.wakes, MesgOp.blocked]
      | blockedOnRecv other =>
          have counts := recvFrom_counts (m := m) mq other
          simp only [MesgOp.transfer, Memory.supply, counts, MesgOp.wakes, MesgOp.blocked,
            ThreadQueue.blockedOnRecv.injEq, reduceCtorEq, if_false]
          omega
      | blockedOnSend other =>
          have counts := recvFrom_counts (m := m) mq other
          simp only [MesgOp.transfer, Memory.supply, counts, MesgOp.wakes, MesgOp.blocked,
            ThreadQueue.blockedOnSend.injEq, reduceCtorEq, if_false]
          omega

end Supply

section Step
variable {k k' : Kernel} {l : Label layout} {lists : ThreadQueue → List Ptr}

theorem mem_flight {q : ThreadQueue} {c : ContextId} :
    c ∈ k.flight q ↔ c < k.contexts ∧ k.InFlight q c := by
  simp [Kernel.flight]

/-- A step that parks nobody, pops nobody from a blocked list and lets nobody test again. -/
theorem Kernel.Wakeful.mono (wakeful : k.Wakeful)
    (queue : ∀ t q, q ≠ .running → (k'.memory.thread t).queue = some q →
      (k.memory.thread t).queue = some q)
    (rings : ∀ mq, (k'.memory.mesgQueue mq).toMesgRing = (k.memory.mesgQueue mq).toMesgRing)
    (contexts : k.contexts ≤ k'.contexts) (self : ∀ d, d < k.contexts → k'.self d = k.self d)
    (retests : ∀ d, d < k.contexts → (k'.pc d).retests = (k.pc d).retests)
    (waits : ∀ t q, (k'.memory.thread t).queue = some q → ∀ d on op, d < k.contexts →
      k.self d = t → k.pc d = .waiting on (.retest op) → k'.pc d = k.pc d)
    (coherent : k.Coherent) : k'.Wakeful := by
  have below : ∀ {d on op}, k.pc d = .waiting on (.retest op) → d < k.contexts :=
    fun here => coherent.created (not_finished here (by simp))
  constructor
  · intro t q side queued
    obtain ⟨d, on, op, owns, here, blocked⟩ := wakeful.parked t q side (queue t q side queued)
    refine ⟨d, on, op, (self d (below here)).trans owns, ?_, blocked⟩
    rw [waits t q queued d on op (below here) owns here]
    exact here
  · intro t q side queued
    rw [supply_congr rings]
    refine le_trans (wakeful.counted t q side (queue t q side queued)) ?_
    refine Int.ofNat_le.mpr (Finset.card_le_card ?_)
    intro d member
    obtain ⟨old, loop, popped⟩ := mem_flight.mp member
    refine mem_flight.mpr ⟨lt_of_lt_of_le old contexts, ?_, ?_⟩
    · rw [retests d old]
      exact loop
    · rw [Kernel.thread, self d old]
      exact fun linked => popped (queue _ q side linked)

theorem mem_wakeLists_blocked {m : Memory} {blocked q : ThreadQueue} {u : Ptr} (side : q ≠ .running)
    (member : u ∈ wakeLists m lists blocked q) : u ∈ lists q := by
  unfold wakeLists at member
  cases split : lists blocked with
  | nil =>
      rw [split] at member
      exact member
  | cons t rest =>
      rw [split] at member
      rcases mem_update_iff.mp member with ⟨same, _⟩ | ⟨_, elsewhere⟩
      · exact absurd same side
      · rcases mem_update_iff.mp elsewhere with ⟨same, behind⟩ | ⟨_, untouched⟩
        · rw [same, split]
          exact List.mem_cons_of_mem _ behind
        · exact untouched

theorem not_mem_wakeLists {m : Memory} {blocked : ThreadQueue} {t : Ptr} {rest : List Ptr}
    (side : blocked ≠ .running) (split : lists blocked = t :: rest) (distinct : (lists blocked).Nodup) :
    t ∉ wakeLists m lists blocked blocked := by
  intro member
  unfold wakeLists at member
  rw [split] at member distinct
  rcases mem_update_iff.mp member with ⟨same, _⟩ | ⟨_, elsewhere⟩
  · exact side same
  · rcases mem_update_iff.mp elsewhere with ⟨_, behind⟩ | ⟨other, _⟩
    · exact (List.nodup_cons.mp distinct).1 behind
    · exact other rfl

section Transfer
variable {c : ContextId} {after after' : Cont} {op : MesgOp} {q : ThreadQueue}

theorem transfer_fewer (queued : k.Queued layout lists) {t : Ptr} (side : q ≠ .running)
    (inside : ((op.transfer k.memory).thread t).queue = some q) :
    (k.memory.thread t).queue = some q :=
  (queued.linked.queues.named t q).mp
    (mem_wakeLists_blocked side (((queued.linked.transfer op).queues.named t q).mpr inside))

theorem waiting_ne_running {d on : ContextId} (here : k.pc c = .running after)
    (loop : k.pc d = .waiting on (.retest op)) : d ≠ c := by
  intro mine
  rw [mine, here] at loop
  contradiction

/-- A transfer takes nobody but its own thread out of flight. -/
theorem flight_transfer (queued : k.Queued layout lists) {d : ContextId} (side : q ≠ .running)
    (other : d ≠ c) (member : d ∈ k.flight q) :
    d ∈ ((k.withMemory (op.transfer k.memory)).setPc c (.running after')).flight q := by
  obtain ⟨old, loop, popped⟩ := mem_flight.mp member
  refine mem_flight.mpr ⟨old, ?_, ?_⟩
  · rw [setPc_pc_other _ other, withMemory_pc]
    exact loop
  · rw [Kernel.thread, setPc_self, withMemory_self]
    exact fun inside => popped (transfer_fewer queued side inside)

/-- A thread that runs is in flight for the list of its own loop only. -/
theorem flight_of_running (here : k.pc c = .running after)
    (same : ∀ other, after = .retest other → other = op) (member : c ∈ k.flight q) :
    q = op.blocked := by
  obtain ⟨_, loop, _⟩ := mem_flight.mp member
  rw [here] at loop
  cases after with
  | guest ret => contradiction
  | drain op block => contradiction
  | retest other =>
      rw [same other rfl] at loop
      exact (Option.some.inj loop).symm

/-- The head of the woken list, which was not empty, is popped and is in flight now. -/
theorem flight_wakes (one : k.OneToken) (queued : k.Queued layout lists) (wakeful : k.Wakeful)
    (here : k.pc c = .running after) {t : Ptr} (side : op.wakes ≠ .running)
    (inside : ((op.transfer k.memory).thread t).queue = some op.wakes) :
    ∃ d ∉ k.flight op.wakes,
      d ∈ ((k.withMemory (op.transfer k.memory)).setPc c (.running after')).flight op.wakes := by
  have linked := queued.linked
  have named := (linked.transfer op).queues.named
  obtain ⟨head, rest, split⟩ : ∃ head rest, lists op.wakes = head :: rest := by
    refine List.exists_cons_of_ne_nil ?_
    intro empty
    have member := mem_wakeLists_blocked side ((named t _).mpr inside)
    rw [empty] at member
    contradiction
  have waits := (linked.queues.named head op.wakes).mp (by rw [split]; exact List.mem_cons_self ..)
  obtain ⟨d, on, op', owns, loop, blocked⟩ := wakeful.parked head op.wakes side waits
  have gone := not_mem_wakeLists (m := k.memory) side split
    (linked.queues.represents.nodup op.wakes)
  refine ⟨d, ?_, mem_flight.mpr ⟨one.coherent.created (not_finished loop (by simp)), ?_, ?_⟩⟩
  · intro member
    obtain ⟨_, _, popped⟩ := mem_flight.mp member
    rw [Kernel.thread, owns] at popped
    exact popped waits
  · rw [setPc_pc_other _ (waiting_ne_running here loop), withMemory_pc, loop, ← blocked]
    rfl
  · rw [Kernel.thread, setPc_self, withMemory_self, owns, setPc_memory, withMemory_memory]
    exact fun back => gone ((named head op.wakes).mpr back)

/-- A transfer by a running thread, which leaves its loop, if it was in one. -/
theorem Kernel.Wakeful.transfer (one : k.OneToken) (queued : k.Queued layout lists)
    (wakeful : k.Wakeful) (here : k.pc c = .running after)
    (same : ∀ other, after = .retest other → other = op) :
    ((k.withMemory (op.transfer k.memory)).setPc c (.running after')).Wakeful := by
  constructor
  · intro t q side inside
    obtain ⟨d, on, op', owns, loop, blocked⟩ :=
      wakeful.parked t q side (transfer_fewer queued side inside)
    refine ⟨d, on, op', by simpa using owns, ?_, blocked⟩
    rw [setPc_pc_other _ (waiting_ne_running here loop), withMemory_pc]
    exact loop
  · intro t q side inside
    have before := wakeful.counted t q side (transfer_fewer queued side inside)
    rw [setPc_memory, withMemory_memory, supply_transfer]
    by_cases own : q = op.blocked
    · have less : (k.flight q).card - 1 ≤
          (((k.withMemory (op.transfer k.memory)).setPc c (.running after')).flight q).card := by
        refine le_trans Finset.pred_card_le_card_erase
          (Finset.card_le_card (s := (k.flight q).erase c) ?_)
        intro d member
        obtain ⟨other, member⟩ := Finset.mem_erase.mp member
        exact flight_transfer queued side other member
      rw [if_pos own, if_neg fun woken => wakes_ne_blocked op (woken.symm.trans own)]
      omega
    · have keeps : k.flight q ⊆
          ((k.withMemory (op.transfer k.memory)).setPc c (.running after')).flight q := by
        intro d member
        refine flight_transfer queued side ?_ member
        intro mine
        exact own (flight_of_running here same (mine ▸ member))
      by_cases woken : q = op.wakes
      · subst woken
        obtain ⟨d, linked, joins⟩ := flight_wakes one queued wakeful here side inside
        have more : (k.flight op.wakes).card + 1 ≤
            (((k.withMemory (op.transfer k.memory)).setPc c (.running after')).flight op.wakes).card := by
          rw [← Finset.card_insert_of_notMem linked]
          exact Finset.card_le_card (Finset.insert_subset joins keeps)
        rw [if_pos rfl, if_neg (wakes_ne_blocked op)]
        omega
      · have more := Finset.card_le_card keeps
        rw [if_neg woken, if_neg own]
        omega

end Transfer

/-- Message calls, ticks and exits; creates on vacant OSThreads and starts of STOPPED ones. -/
def WakeupCalls (k : Kernel) : Label layout → Prop
  | .outsideCreate t _ => (k.memory.thread t.val).context = none
  | .call _ (.osCreateThread t _) =>
      (k.memory.thread t.val).context = none ∧ (k.memory.thread t.val).queue = none
  | .call _ (.osStartThread t) => (k.memory.thread t.val).state = .stopped
  | .call _ .osStopThread | .call _ (.osDestroyThread _) | .call _ (.osSetThreadPri _ _) => False
  | _ => True

instance (k : Kernel) : ∀ l : Label layout, Decidable (WakeupCalls k l)
  | .outsideCreate t _ => inferInstanceAs (Decidable ((k.memory.thread t.val).context = none))
  | .call _ (.osCreateThread t _) =>
      inferInstanceAs (Decidable ((k.memory.thread t.val).context = none ∧ _ = none))
  | .call _ (.osStartThread t) =>
      inferInstanceAs (Decidable ((k.memory.thread t.val).state = .stopped))
  | .call _ .osStopThread | .call _ (.osDestroyThread _) | .call _ (.osSetThreadPri _ _) => isFalse id
  | .outsideStart _ | .wake _ | .unwind _ | .deliver _ _ | .drained _ | .retest _ => isTrue trivial
  | .call _ (.mesg _ _) | .call _ (.idle _) | .call _ (.schedulerTick _ _) | .call _ .exit =>
      isTrue trivial

theorem WakeupCalls.fresh (ok : WakeupCalls k l) : CreatesFresh k l := by
  cases l with
  | outsideCreate t pri => exact ok
  | call c what =>
      cases what with
      | osCreateThread t pri => exact ok.1
      | osStartThread t => trivial
      | osStopThread => trivial
      | osDestroyThread t => trivial
      | osSetThreadPri t pri => trivial
      | mesg op block => trivial
      | idle external => trivial
      | schedulerTick external skip => trivial
      | exit => trivial
  | outsideStart t => trivial
  | wake c => trivial
  | unwind c => trivial
  | deliver c msg => trivial
  | drained c => trivial
  | retest c => trivial

/-- A create does not name the calling thread, whose context is live. -/
theorem WakeupCalls.idle (ok : WakeupCalls k l) (loyal : k.Loyal) (taken : step k l = some k') :
    NamesIdle k l := by
  cases l with
  | call c what =>
      cases what with
      | osCreateThread t pri =>
          refine ⟨ok.2, ?_⟩
          intro own
          obtain ⟨ret, here⟩ := call_here taken
          have current : (k.memory.thread (k.self c)).context = some c := loyal.running c _ here
          rw [← own, ok.1] at current
          contradiction
      | osStartThread t => exact .inl ok
      | osStopThread => trivial
      | osDestroyThread t => trivial
      | osSetThreadPri t pri => exact absurd ok id
      | mesg op block => trivial
      | idle external => trivial
      | schedulerTick external skip => trivial
      | exit => trivial
  | outsideCreate t pri => trivial
  | outsideStart t => trivial
  | wake c => trivial
  | unwind c => trivial
  | deliver c msg => trivial
  | drained c => trivial
  | retest c => trivial

/-- A host thread that waits is the one of its OSThread. -/
def Kernel.Alive (k : Kernel) : Prop := ∀ d on after, k.pc d = .waiting on after → k.current d

theorem Kernel.Wakeful.acts (one : k.OneToken) (queued : k.Queued layout lists)
    (wakeful : k.Wakeful) (ok : WakeupCalls k l) {c : ContextId} {after after' : Cont} {m : Memory}
    (here : k.pc c = .running after) (acts : Acts k c after l m) (once : ∀ op, after' ≠ .retest op) :
    ((k.withMemory m).setPc c (.running after')).Wakeful := by
  have moved : (∀ op, after ≠ .retest op) → ∀ m : Memory,
      (∀ t q, q ≠ .running → (m.thread t).queue = some q → (k.memory.thread t).queue = some q) →
      (∀ mq, (m.mesgQueue mq).toMesgRing = (k.memory.mesgQueue mq).toMesgRing) →
      ((k.withMemory m).setPc c (.running after')).Wakeful := by
    intro fresh m queue rings
    refine wakeful.mono queue rings (Nat.le_refl _) (fun d _ => by simp) ?_ ?_ one.coherent
    · intro d _
      rw [setPc_pc]
      split
      · rename_i mine
        rw [mine, here]
        cases after with
        | retest op => exact absurd rfl (fresh op)
        | guest ret =>
            cases after' with
            | retest op => exact absurd rfl (once op)
            | guest ret => rfl
            | drain op block => rfl
        | drain op block =>
            cases after' with
            | retest op => exact absurd rfl (once op)
            | guest ret => rfl
            | drain op block => rfl
      · rfl
    · intro t q _ d on op _ _ loop
      refine setPc_pc_other _ ?_
      intro mine
      rw [mine, here] at loop
      contradiction
  cases acts with
  | nothing fresh => exact moved fresh k.memory (fun _ _ _ => id) fun _ => rfl
  | transfer op ready same => exact wakeful.transfer one queued here same
  | start t fresh =>
      refine moved fresh _ ?_ fun mq => scheduleRunningThread_ring ..
      intro u q side inside
      by_cases same : u = t.val
      · rw [same, scheduleRunningThread, modifyThread_self] at inside
        have running := threadQueueInsert_queue_self k.memory .running t.val
        exact absurd (Option.some.inj (inside.symm.trans running)) side
      · rw [← inside, scheduleRunningThread, modifyThread_other _ _ same,
          threadQueueInsert_queue_other k.memory .running same]
  | priority t pri => exact absurd ok id
  | requeue t target pri queue => exact absurd ok id

/-- Only the host thread of `c` moves, and OSThreads keep their contexts. -/
theorem Kernel.Alive.moves_one {c : ContextId} {pc : Pc} (alive : k.Alive)
    (self : ∀ d, k'.self d = k.self d)
    (contexts : ∀ u, (k'.memory.thread u).context = (k.memory.thread u).context)
    (others : ∀ d, d ≠ c → k'.pc d = k.pc d) (mine : k'.pc c = pc)
    (allowed : ∀ on after, pc = .waiting on after → k.current c) : k'.Alive := by
  intro d on after here
  rw [Kernel.current, Kernel.thread, self, contexts]
  by_cases same : d = c
  · subst same
    exact allowed on after (mine ▸ here)
  · exact alive d on after (others d same ▸ here)

theorem create_alive {t : Ptr} (coherent : k.Coherent) (alive : k.Alive) (pri : OSPri)
    (vacant : (k.memory.thread t).context = none) : (osCreateThread k t pri).Alive := by
  intro d on after here
  rw [create_pc] at here
  split at here
  · rename_i new
    rw [Kernel.current, Kernel.thread, create_self, if_pos new, create_thread_context,
      if_pos rfl, new]
  · exact create_current vacant (coherent.created (not_finished here (by simp)))
      (alive d on after here)

theorem creates_alive {c : ContextId} {t : Ptr} {after : Cont} (coherent : k.Coherent)
    (alive : k.Alive) (pri : OSPri) (vacant : (k.memory.thread t).context = none) :
    ((osCreateThread k t pri).setPc c (.running after)).Alive := by
  intro d on after' waits
  rw [setPc_pc] at waits
  split at waits
  · contradiction
  · rw [setPc_current]
    exact create_alive coherent alive pri vacant d on after' waits

theorem outsideStart_alive (alive : k.Alive) (t : Ptr) (cp : ContextId) :
    Kernel.Alive
      { (k.withMemory (k.memory.setState t .queued)).signal cp with started := true } := by
  intro d on after here
  have before := (signal_pc (k.withMemory (k.memory.setState t .queued)) d cp).symm.trans here
  exact (signal_current (k := k.withMemory (k.memory.setState t .queued))).mpr
    ((withMemory_current fun u => setState_context ..).mpr (alive d on after before))

/-- The OSThread that loses its context is that of the host thread that ends. -/
theorem exits_alive {c cp : ContextId} (alive : k.Alive) (own : (k.thread c).context = some c) :
    (((k.withMemory (threadQueuePop (k.memory.clearContext (k.self c)) .running).2).signal
      cp).setPc c .finished).Alive := by
  intro d on after waits
  rw [setPc_pc] at waits
  split at waits
  · contradiction
  · rename_i other
    rw [signal_pc, withMemory_pc] at waits
    have current : (k.memory.thread (k.self d)).context = some d := alive d on after waits
    have apart : k.self d ≠ k.self c := by
      intro same
      have mine : (k.memory.thread (k.self c)).context = some c := own
      rw [same, mine] at current
      exact other (Option.some.inj current).symm
    rw [setPc_current, signal_current, Kernel.current, Kernel.thread, withMemory_memory,
      withMemory_self, threadQueuePop_context, clearContext_context, if_neg apart]
    exact current

theorem Kernel.Alive.step (one : k.OneToken) (loyal : k.Loyal) (alive : k.Alive)
    (ok : WakeupCalls k l) (outcome : Outcome k l k') : k'.Alive := by
  have coherent := one.coherent
  cases outcome with
  | aborts halt => exact alive
  | outsideCreate t pri closed => exact create_alive coherent alive pri ok
  | outsideStart t cp closed owner => exact outsideStart_alive alive t.val cp
  | wakes c on after here signalled own =>
      refine alive.moves_one (c := c) (fun d => by simp) (fun u => setState_context ..) ?_
        (setPc_pc_self ..) fun _ _ waits => by contradiction
      intro d other
      rw [setPc_pc_other _ other, withMemory_pc, consume_pc]
  | wakesStale c on after here signalled stale =>
      refine alive.moves_one (c := c) (fun d => by simp) (fun u => rfl) ?_ (setPc_pc_self ..)
        fun _ _ waits => by contradiction
      intro d other
      rw [setPc_pc_other _ other, consume_pc]
  | creates c t pri ret here => exact creates_alive coherent alive pri ok.1
  | proceeds c after after' m here acts once calm =>
      refine alive.moves_one (c := c) (fun d => by simp) acts.context ?_ (setPc_pc_self ..)
        fun _ _ waits => by contradiction
      intro d other
      rw [setPc_pc_other _ other, withMemory_pc]
  | swaps c w cp after ret m front_ here acts busy front outranked caller owner =>
      refine alive.moves_one (c := c) (fun d => by simp) ?_ ?_ (setPc_pc_self ..)
        fun _ _ _ => loyal.running c after here
      · intro u
        rw [handOff_memory, swap_context, acts.context]
      · intro d other
        rw [handOff_pc, if_neg other]
  | parks c w cp after op m here same stuck parked caller busy owner =>
      subst parked
      refine alive.moves_one (c := c) (fun d => by simp) ?_ ?_ (setPc_pc_self ..)
        fun _ _ _ => loyal.running c after here
      · intro u
        rw [handOff_memory, threadQueuePop_context, threadQueueInsert_context]
      · intro d other
        rw [handOff_pc, if_neg other]
  | stops c w cp ret here caller busy owner => exact absurd ok id
  | destroys c t target ret here named other => exact absurd ok id
  | exits c cp here own m cleared busy owner =>
      subst cleared
      exact exits_alive alive own
  | fades c here stale =>
      refine alive.moves_one (c := c) (fun d => by simp) (fun u => rfl) ?_ (setPc_pc_self ..)
        fun _ _ waits => by contradiction
      intro d other
      rw [setPc_pc_other _ other]

theorem retests_none_of_tail {c : ContextId}
    (here : (∃ ret, k.pc c = .running (.guest ret)) ∨ k.pc c = .unwinding) :
    (k.pc c).retests = none ∧ ∀ on after, k.pc c ≠ .waiting on after := by
  rcases here with ⟨ret, here⟩ | here <;> rw [here] <;> exact ⟨rfl, fun _ _ => by simp⟩

/-- Only the host thread of `c` moves, to where it is in no blocking loop, and
threads leave the blocked lists only where none of them waited. -/
theorem Kernel.Wakeful.leaves {c : ContextId} {pc : Pc} (wakeful : k.Wakeful)
    (coherent : k.Coherent)
    (queue : ∀ t q, q ≠ .running → (k'.memory.thread t).queue = some q →
      (k.memory.thread t).queue = some q)
    (rings : ∀ mq, (k'.memory.mesgQueue mq).toMesgRing = (k.memory.mesgQueue mq).toMesgRing)
    (contexts : k'.contexts = k.contexts) (self : ∀ d, k'.self d = k.self d)
    (others : ∀ d, d ≠ c → k'.pc d = k.pc d) (mine : k'.pc c = pc)
    (was : (k.pc c).retests = none ∧ ∀ on after, k.pc c ≠ .waiting on after)
    (now : pc.retests = none) : k'.Wakeful := by
  refine wakeful.mono queue rings (Nat.le_of_eq contexts.symm) (fun d _ => self d) ?_ ?_ coherent
  · intro d _
    by_cases same : d = c
    · rw [same, mine, now, was.1]
    · rw [others d same]
  · intro t q _ d on op _ _ loop
    refine others d ?_
    intro same
    exact was.2 on _ (same ▸ loop)

theorem Kernel.Wakeful.create (wakeful : k.Wakeful) (coherent : k.Coherent) (t : Ptr) (pri : OSPri) :
    (osCreateThread k t pri).Wakeful := by
  refine wakeful.mono ?_ (fun mq => rfl) (Nat.le_succ _) ?_ ?_ ?_ coherent
  · intro u q side inside
    simp only [osCreateThread] at inside
    by_cases same : u = t
    · rw [same, modifyThread_self] at inside
      contradiction
    · rwa [modifyThread_other _ _ same] at inside
  · intro d old
    rw [create_self, if_neg (Nat.ne_of_lt old)]
  · intro d old
    rw [create_pc, if_neg (Nat.ne_of_lt old)]
  · intro u q _ d on op old _ _
    rw [create_pc, if_neg (Nat.ne_of_lt old)]

theorem swap_fewer (m : Memory) (t u : Ptr) {q : ThreadQueue} (side : q ≠ .running)
    (inside : ((scheduleRunningThread (threadQueuePop m .running).2 t).thread u).queue = some q) :
    (m.thread u).queue = some q := by
  by_cases same : u = t
  · rw [same, scheduleRunningThread, modifyThread_self] at inside
    have running := threadQueueInsert_queue_self (threadQueuePop m .running).2 .running t
    exact absurd (Option.some.inj (inside.symm.trans running)) side
  · refine threadQueuePop_fewer .running q u ?_
    rw [← inside, scheduleRunningThread, modifyThread_other _ _ same,
      threadQueueInsert_queue_other _ .running same]

/-- A stuck thread joins the list of its loop. -/
theorem Kernel.Wakeful.park {c w cp : ContextId} {after : Cont} {op : MesgOp}
    (wakeful : k.Wakeful) (here : k.pc c = .running after)
    (same : ∀ other, after = .retest other → other = op) (stuck : op.stuck k.memory = true) :
    (k.handOff (threadQueuePop (threadQueueInsert k.memory op.blocked (k.self c)) .running).2 c w cp
      (.retest op)).Wakeful := by
  have before : ∀ u q, u ≠ k.self c → ((threadQueuePop (threadQueueInsert k.memory op.blocked
      (k.self c)) .running).2.thread u).queue = some q → (k.memory.thread u).queue = some q := by
    intro u q other inside
    have inserted := threadQueuePop_fewer .running q u inside
    rwa [threadQueueInsert_queue_other k.memory op.blocked other] at inserted
  have own : ∀ q, ((threadQueuePop (threadQueueInsert k.memory op.blocked (k.self c))
      .running).2.thread (k.self c)).queue = some q → q = op.blocked := by
    intro q inside
    have inserted := threadQueuePop_fewer .running q (k.self c) inside
    rw [threadQueueInsert_queue_self] at inserted
    exact (Option.some.inj inserted).symm
  have rings : ∀ q, (threadQueuePop (threadQueueInsert k.memory op.blocked (k.self c))
      .running).2.supply q = k.memory.supply q := fun q => supply_congr fun mq => by simp
  constructor
  · intro t q side inside
    rw [handOff_memory] at inside
    by_cases mine : t = k.self c
    · subst mine
      exact ⟨c, w, op, by simp, by simp [handOff_pc], (own q inside).symm⟩
    · obtain ⟨d, on, op', owns, loop, blocked⟩ := wakeful.parked t q side (before t q mine inside)
      have other : d ≠ c := by
        intro moved
        rw [moved, here] at loop
        contradiction
      exact ⟨d, on, op', by simpa using owns, by rw [handOff_pc, if_neg other, loop], blocked⟩
  · intro t q side inside
    rw [handOff_memory] at inside ⊢
    rw [rings]
    by_cases blocked : q = op.blocked
    · rw [blocked]
      exact le_trans (supply_of_stuck stuck) (Int.natCast_nonneg _)
    · have other : t ≠ k.self c := fun mine => blocked (own q (mine ▸ inside))
      refine le_trans (wakeful.counted t q side (before t q other inside)) ?_
      refine Int.ofNat_le.mpr (Finset.card_le_card ?_)
      intro d member
      obtain ⟨old, loop, popped⟩ := mem_flight.mp member
      have moved : d ≠ c := by
        rintro rfl
        rw [here] at loop
        cases after with
        | guest ret => contradiction
        | drain op' block => contradiction
        | retest op' =>
            rw [same op' rfl] at loop
            exact blocked (Option.some.inj loop).symm
      refine mem_flight.mpr ⟨old, ?_, ?_⟩
      · rw [handOff_pc, if_neg moved]
        exact loop
      · rw [Kernel.thread, handOff_self, handOff_memory]
        intro linked
        by_cases mine : k.self d = k.self c
        · exact blocked (own q (mine ▸ linked))
        · exact popped (before _ q mine linked)

/-- A host thread that takes its signal goes on to the test of its loop. -/
theorem wakes_wakeful {c on : ContextId} {after : Cont} (coherent : k.Coherent)
    (queued : k.Queued layout lists) (wakeful : k.Wakeful) (here : k.pc c = .waiting on after)
    (signalled : 0 < (k.context on).running) (own : (k.thread c).context = some on) :
    (((k.consume on).withMemory (k.memory.setState (k.self c) .running)).setPc c
      (.running after)).Wakeful := by
  have owner : (k.memory.thread (k.self c)).context = some on := own
  have pending : 0 < k.undelivered on := by
    rwa [Kernel.undelivered, if_pos (coherent.current owner)]
  have out := queued.turn on (tokens_of_undelivered pending)
  rw [(coherent.waiting c on after here).2.1] at out
  have queue : ∀ t q, ((k.memory.setState (k.self c) .running).thread t).queue = some q →
      (k.memory.thread t).queue = some q := by
    intro t q inside
    rwa [setState_field _ _ t _ OSThread.queue fun _ => rfl] at inside
  refine wakeful.mono (fun t q _ => queue t q) (fun mq => rfl) (Nat.le_refl _)
    (fun d _ => by simp) ?_ ?_ coherent
  · intro d _
    rw [setPc_pc]
    split
    · rename_i mine
      rw [mine, here]
      cases after <;> rfl
    · simp
  · intro t q inside d on' op _ owns loop
    have other : d ≠ c := by
      intro same
      rw [same] at owns
      subst owns
      exact out q ((queued.linked.queues.named _ q).mpr (queue _ q inside))
    rw [setPc_pc_other _ other, withMemory_pc, consume_pc]

theorem outsideStart_wakeful (coherent : k.Coherent) (wakeful : k.Wakeful) (t : Ptr)
    (cp : ContextId) : Kernel.Wakeful
      { (k.withMemory (k.memory.setState t .queued)).signal cp with started := true } := by
  refine wakeful.mono ?_ (fun mq => rfl) (Nat.le_refl _) (fun d _ => signal_self _ d cp)
    (fun d _ => congrArg Pc.retests (signal_pc _ d cp)) (fun t q _ d on op _ _ _ => signal_pc _ d cp)
    coherent
  intro u q side inside
  rw [← inside]
  exact (setState_field k.memory t u .queued OSThread.queue fun _ => rfl).symm

theorem creates_wakeful {c : ContextId} {ret : Int} (one : k.OneToken) (wakeful : k.Wakeful)
    (t : Ptr) (pri : OSPri) (here : k.pc c = .running (.guest ret)) :
    ((osCreateThread k t pri).setPc c (.running (.guest 0))).Wakeful := by
  have coherent := one.coherent
  have old : c ≠ k.contexts := Nat.ne_of_lt (one.running_below here)
  refine (wakeful.create coherent t pri).leaves (c := c) (coherent.create t pri)
    (fun _ _ _ => id) (fun mq => rfl) rfl (fun d => by simp)
    (fun d other => setPc_pc_other _ other) (setPc_pc_self ..) ?_ rfl
  rw [create_pc, if_neg old, here]
  exact ⟨rfl, fun _ _ => by simp⟩

/-- The caller leaves its loop, and then goes back into the running queue. -/
theorem swaps_wakeful {c w cp : ContextId} {after : Cont} {ret : Int} {m : Memory}
    (one : k.OneToken) (queued : k.Queued layout lists) (wakeful : k.Wakeful)
    (ok : WakeupCalls k l) (here : k.pc c = .running after) (acts : Acts k c after l m) :
    (k.handOff (scheduleRunningThread (threadQueuePop m .running).2 (k.self c)) c w cp
      (.guest ret)).Wakeful := by
  have acted : ((k.withMemory m).setPc c (.running (.guest ret))).Wakeful :=
    wakeful.acts one queued ok here acts fun _ => by simp
  have kept : ((k.withMemory m).setPc c (.running (.guest ret))).Coherent :=
    one.coherent.stays (not_finished here (by simp))
      (fun u d owned => by rwa [acts.context] at owned) trivial
  refine acted.leaves (c := c) kept (fun t q side inside => ?_) (fun mq => ?_) rfl
    (fun d => by simp) ?_ (setPc_pc_self ..) ?_ rfl
  · exact swap_fewer m (k.self c) t side inside
  · simp
  · intro d other
    rw [handOff_pc, if_neg other, setPc_pc_other _ other, withMemory_pc]
  · rw [setPc_pc_self]
    exact ⟨rfl, fun _ _ => by simp⟩

theorem exits_wakeful {c cp : ContextId} (coherent : k.Coherent) (wakeful : k.Wakeful)
    (here : (∃ ret, k.pc c = .running (.guest ret)) ∨ k.pc c = .unwinding) :
    (((k.withMemory (threadQueuePop (k.memory.clearContext (k.self c)) .running).2).signal
      cp).setPc c .finished).Wakeful := by
  refine wakeful.leaves (c := c) coherent (fun t q side inside => ?_) (fun mq => ?_) rfl
    (fun d => by simp) ?_ (setPc_pc_self ..) (retests_none_of_tail here) rfl
  · have before := threadQueuePop_fewer .running q t inside
    rwa [clearContext_field _ _ t OSThread.queue fun _ => rfl] at before
  · simp [Memory.clearContext]
  · intro d other
    rw [setPc_pc_other _ other, signal_pc, withMemory_pc]

theorem Kernel.Wakeful.step (one : k.OneToken) (loyal : k.Loyal) (alive : k.Alive)
    (queued : k.Queued layout lists) (wakeful : k.Wakeful) (ok : WakeupCalls k l)
    (outcome : Outcome k l k') : k'.Wakeful := by
  have coherent := one.coherent
  cases outcome with
  | aborts halt => exact ⟨wakeful.parked, wakeful.counted⟩
  | outsideCreate t pri closed => exact wakeful.create coherent t.val pri
  | outsideStart t cp closed owner => exact outsideStart_wakeful coherent wakeful t.val cp
  | wakes c on after here signalled own =>
      exact wakes_wakeful coherent queued wakeful here signalled own
  | wakesStale c on after here signalled stale =>
      have same := loyal.waiting c on after here
      subst same
      exact absurd (alive on on after here) stale
  | creates c t pri ret here => exact creates_wakeful one wakeful t.val pri here
  | proceeds c after after' m here acts once calm =>
      exact wakeful.acts one queued ok here acts once
  | swaps c w cp after ret m front_ here acts busy front outranked caller owner =>
      exact swaps_wakeful one queued wakeful ok here acts
  | parks c w cp after op m here same stuck parked caller busy owner =>
      subst parked
      exact wakeful.park here same stuck
  | stops c w cp ret here caller busy owner => exact absurd ok id
  | destroys c t target ret here named other => exact absurd ok id
  | exits c cp here own m cleared busy owner =>
      subst cleared
      exact exits_wakeful coherent wakeful here
  | fades c here stale =>
      exact wakeful.leaves (c := c) coherent (fun _ _ _ => id) (fun mq => rfl) rfl (fun d => by simp)
        (fun d other => setPc_pc_other _ other) (setPc_pc_self ..) (retests_none_of_tail here) rfl

end Step

/-! ## Runs -/

theorem reach_wakeupCalls {k : Kernel} (reached : Reach (@step layout) WakeupCalls Booted k) :
    k.Loyal ∧ ∃ lists, k.Queued layout lists := by
  have loyal : ∀ {k}, Reach (@step layout) WakeupCalls Booted k → k.Loyal :=
    fun before => reach_loyal (fun _ _ => WakeupCalls.fresh) before
  exact ⟨loyal reached,
    (reach_awake (fun _ _ _ before ok taken => ok.idle (loyal before) taken) reached).1⟩

theorem reach_wakeful {k : Kernel} (reached : Reach (@step layout) WakeupCalls Booted k) :
    k.Alive ∧ k.Wakeful := by
  refine Reach.invariant_of (I := fun k => k.Alive ∧ k.Wakeful) (fun _ => id) ?_ ?_ reached
  · rintro k ⟨rings, rfl⟩
    refine ⟨fun d on after here => by contradiction, ?_, ?_⟩ <;> intro t q _ inside <;>
      contradiction
  · intro k l k' before ⟨alive, wakeful⟩ ok taken
    have one := reach_oneToken before
    obtain ⟨loyal, lists, queued⟩ := reach_wakeupCalls before
    have outcome := (step_outcome taken).2
    exact ⟨alive.step one loyal ok outcome, wakeful.step one loyal alive queued ok outcome⟩

/-- While a thread waits to receive, every message is matched by a receiver in
flight, and while one waits to send, every free slot by a sender in flight. -/
theorem no_lost_wakeup {k : Kernel} (reached : Reach (@step layout) WakeupCalls Booted k) (mq : Ptr) :
    ((k.memory.mesgQueue mq).blockedOnRecv ≠ nullptr →
      (k.memory.mesgQueue mq).validCount ≤ (k.flight (.blockedOnRecv mq)).card) ∧
    ((k.memory.mesgQueue mq).blockedOnSend ≠ nullptr →
      (k.memory.mesgQueue mq).msgCount - (k.memory.mesgQueue mq).validCount ≤
        (k.flight (.blockedOnSend mq)).card) := by
  obtain ⟨_, lists, queued⟩ := reach_wakeupCalls reached
  obtain ⟨_, wakeful⟩ := reach_wakeful reached
  have queues := queued.linked.queues
  have waiting : ∀ q, k.memory.head q ≠ nullptr → ∃ t, (k.memory.thread t).queue = some q := by
    intro q busy
    have some : lists q ≠ [] := fun empty => busy ((queues.head_nil_iff q).mpr empty)
    obtain ⟨t, rest, split⟩ := List.exists_cons_of_ne_nil some
    exact ⟨t, (queues.named t q).mp (by rw [split]; exact List.mem_cons_self ..)⟩
  constructor
  · intro parked
    obtain ⟨t, queued⟩ := waiting (.blockedOnRecv mq) parked
    exact wakeful.counted t _ (by simp) queued
  · intro parked
    obtain ⟨t, queued⟩ := waiting (.blockedOnSend mq) parked
    exact wakeful.counted t _ (by simp) queued

/-- Two receivers wait; a send wakes the first, which has yet to test again. -/
theorem no_lost_wakeup_small : ∃ k, Reach (@step threeThreads) WakeupCalls Booted k ∧
    (k.memory.mesgQueue smallQueue).blockedOnRecv ≠ nullptr ∧
    (k.memory.mesgQueue smallQueue).validCount = 1 ∧
    (k.memory.mesgQueue smallQueue).validCount ≤ (k.flight (.blockedOnRecv smallQueue)).card := by
  obtain ⟨k, ran, parked, one⟩ : ∃ k, run step WakeupCalls (Kernel.boot smallRings)
      [.outsideCreate threadA 5, .outsideStart threadA, .wake 0,
        .call 0 (.osCreateThread threadB 10), .call 0 (.osStartThread threadB), .wake 1,
        .call 1 (.mesg (.recv smallQueue) true), .drained 1, .wake 0,
        .call 0 (.osCreateThread threadC 9), .call 0 (.osStartThread threadC), .wake 2,
        .call 2 (.mesg (.recv smallQueue) true), .drained 2, .wake 0,
        .call 0 (.mesg (.send smallQueue 7 false) true), .drained 0, .wake 1] = some k ∧
      (k.memory.mesgQueue smallQueue).blockedOnRecv ≠ nullptr ∧
      (k.memory.mesgQueue smallQueue).validCount = 1 := ⟨_, rfl, by decide, rfl⟩
  have reached : Reach (@step threeThreads) WakeupCalls Booted k :=
    reach_of_run _ ⟨smallRings, rfl⟩ ran
  exact ⟨k, reached, parked, one, (no_lost_wakeup reached smallQueue).1 parked⟩

end N64ModernRuntime.Ultramodern
