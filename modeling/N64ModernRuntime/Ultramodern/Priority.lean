import N64ModernRuntime.Ultramodern.Membership

/-!
# Priority scheduling

The running queue is sorted, and whoever gets the CPU was at its head, so no
thread that waits to run outranks the one in guest code.  The check at the end
of every API call keeps this true after threads were made runnable.
-/

set_option autoImplicit false

namespace N64ModernRuntime.Ultramodern

open Transition IntrusiveList

variable {layout : ThreadLayout}

/-! ## STOPPED threads -/

section Awake
variable {m : Memory} {t u : Ptr}

theorem threadQueueInsert_awake (q : ThreadQueue) (awake : (m.thread u).state ≠ .stopped) :
    ((threadQueueInsert m q t).thread u).state ≠ .stopped := by
  by_cases same : u = t
  · subst same
    rw [threadQueueInsert_state_self]
    split <;> simp
  · rwa [threadQueueInsert_state_other m q same]

theorem setState_awake {state : OSThreadState} (runs : state ≠ .stopped)
    (awake : (m.thread u).state ≠ .stopped) : ((m.setState t state).thread u).state ≠ .stopped := by
  by_cases same : u = t
  · subst same
    rwa [Memory.setState, modifyThread_self]
  · rwa [Memory.setState, modifyThread_other _ _ same]

theorem scheduleRunningThread_awake (awake : (m.thread u).state ≠ .stopped) :
    ((scheduleRunningThread m t).thread u).state ≠ .stopped :=
  setState_awake (by simp) (threadQueueInsert_awake .running awake)

theorem wakeFirst_awake (q : ThreadQueue) (awake : (m.thread u).state ≠ .stopped) :
    ((wakeFirst m q).thread u).state ≠ .stopped := by
  unfold wakeFirst
  split
  · exact awake
  · refine scheduleRunningThread_awake ?_
    rwa [threadQueuePop_state]

theorem Acts.awake {k : Kernel} {c : ContextId} {after : Cont} {l : Label layout}
    (acts : Acts k c after l m) (awake : (k.memory.thread u).state ≠ .stopped) :
    (m.thread u).state ≠ .stopped := by
  cases acts with
  | nothing => exact awake
  | transfer op => cases op <;> exact wakeFirst_awake _ awake
  | start t => exact scheduleRunningThread_awake awake
  | priority t pri =>
      rwa [setPriority_field _ _ _ _ OSThread.state fun _ => rfl]
  | requeue t target pri queue =>
      refine threadQueueInsert_awake queue ?_
      rwa [threadQueueRemove_state, setPriority_field _ _ _ _ OSThread.state fun _ => rfl]

end Awake

/-- Whoever has the CPU is not STOPPED. -/
def Kernel.Awake (k : Kernel) : Prop := ∀ c, 0 < k.tokens c → (k.thread c).state ≠ .stopped

/-- Starts name STOPPED threads, or others that are idle; creates do not name
the thread that calls. -/
def NamesIdle (k : Kernel) : Label layout → Prop
  | .call c (.osCreateThread t _) => (k.memory.thread t.val).queue = none ∧ t.val ≠ k.self c
  | .call c (.osStartThread t) =>
      (k.memory.thread t.val).state = .stopped ∨
        ((k.memory.thread t.val).queue = none ∧ t.val ≠ k.self c)
  | .call c (.osSetThreadPri t _) => (t.map Subtype.val).getD (k.self c) = k.self c
  | _ => True

section Step
variable {k k' : Kernel} {l : Label layout} {lists : ThreadQueue → List Ptr}

/-- Linked threads and the running one are never STOPPED, so a STOPPED thread is idle. -/
theorem NamesIdle.unlinked {c : ContextId} {what : GuestCall layout} {after : Cont}
    (side : NamesIdle k (.call c what)) (queued : k.Queued layout lists) (awake : k.Awake)
    (here : k.pc c = .running after) : NamesUnlinked k (.call c what) := by
  cases what with
  | osCreateThread t pri => exact side.1
  | osSetThreadPri t pri => exact side
  | osStartThread t =>
      rcases side with stopped | idle
      · constructor
        · rw [queued.linked.queues.unlinked_iff]
          intro q member
          exact queued.linked.live q t.val member stopped
        · intro own
          rw [own] at stopped
          exact awake c (tokens_of_running here) stopped
      · exact idle
  | osStopThread => trivial
  | osDestroyThread t => trivial
  | mesg op block => trivial
  | idle external => trivial
  | schedulerTick external skip => trivial
  | exit => trivial

theorem call_here {c : ContextId} {what : GuestCall layout}
    (taken : step k (.call c what) = some k') : ∃ ret, k.pc c = .running (.guest ret) := by
  unfold step at taken
  split at taken
  · contradiction
  simp only [enabledStep] at taken
  split at taken
  · rename_i ret here
    exact ⟨ret, here⟩
  · contradiction

theorem NamesIdle.step (side : NamesIdle k l) (queued : k.Queued layout lists) (awake : k.Awake)
    (taken : step k l = some k') : NamesUnlinked k l := by
  cases l with
  | call c what =>
      obtain ⟨ret, here⟩ := call_here taken
      exact side.unlinked queued awake here
  | outsideCreate t pri => trivial
  | outsideStart t => trivial
  | wake c => trivial
  | unwind c => trivial
  | deliver c msg => trivial
  | drained c => trivial
  | retest c => trivial

theorem Kernel.Awake.moves {h : ContextId} (one : k.OneToken) (held : 0 < k.tokens h)
    (state : (k.thread h).state ≠ .stopped) : k.Awake := by
  intro c mine
  rw [one.unique mine held]
  exact state

theorem Memory.Linked.popped_awake {m : Memory} (linked : m.Linked layout lists)
    (busy : m.head .running ≠ nullptr) :
    (m.thread (m.head .running)).state ≠ .stopped ∧
      (threadQueuePop m .running).1 = m.head .running := by
  obtain ⟨t, rest, split, head, popped⟩ := linked.busy busy
  rw [head, popped]
  exact ⟨linked.live .running t (by rw [split]; exact List.mem_cons_self ..), rfl⟩

theorem outsideStart_awake {t : Ptr} {cp : ContextId} (one : k.OneToken)
    (owner : (k.memory.thread t).context = some cp) (next : k'.OneToken)
    (started : k' = { (k.withMemory (k.memory.setState t .queued)).signal cp with
      started := true }) : k'.Awake := by
  subst started
  have owns := (one.coherent.owner _ _ owner).2
  have signalled : 0 < ((k.withMemory (k.memory.setState t .queued)).signal cp).undelivered cp :=
    undelivered_of_signal (by rw [setState_context]; exact owner) owns
  refine Kernel.Awake.moves next (tokens_of_undelivered signalled) ?_
  have state : (((k.withMemory (k.memory.setState t .queued)).signal cp).thread cp).state ≠
      .stopped := by
    simp [Kernel.thread, owns, Memory.setState]
  exact state

theorem creates_awake {c : ContextId} {t : Ptr} {pri : OSPri} {ret : Int} (one : k.OneToken)
    (awake : k.Awake) (other : t ≠ k.self c) (here : k.pc c = .running (.guest ret))
    (next : k'.OneToken)
    (created : k' = (osCreateThread k t pri).setPc c (.running (.guest 0))) : k'.Awake := by
  subst created
  have below := one.running_below here
  refine Kernel.Awake.moves next (tokens_of_running (setPc_pc_self ..)) ?_
  rw [Kernel.thread, setPc_self, create_self, if_neg (Nat.ne_of_lt below)]
  simp only [setPc_memory, osCreateThread]
  rw [modifyThread_other _ _ (Ne.symm other)]
  exact awake c (tokens_of_running here)

theorem swaps_awake {c w cp : ContextId} {after : Cont} {ret : Int} {m : Memory} {front : Ptr}
    (one : k.OneToken) (queued : k.Queued layout lists) (side : NamesUnlinked k l)
    (here : k.pc c = .running after) (acts : Acts k c after l m)
    (busy : m.head .running ≠ nullptr)
    (turn : front = m.head .running ∨ front = (threadQueuePop m .running).1)
    (owner : (m.thread front).context = some cp) (next : k'.OneToken)
    (swapped : k' = k.handOff (scheduleRunningThread (threadQueuePop m .running).2 (k.self c)) c w
      cp (.guest ret)) : k'.Awake := by
  subst swapped
  obtain ⟨lists₁, linked₁, out₁⟩ := queued.acted side here acts
  obtain ⟨runs, popped⟩ := linked₁.popped_awake busy
  have head : front = m.head .running := turn.elim id (·.trans popped)
  subst head
  have owns := (one.coherent.owner _ _ (acts.context _ ▸ owner)).2
  refine Kernel.Awake.moves next (tokens_of_signal (by rw [swap_context]; exact owner) owns) ?_
  rw [Kernel.thread, handOff_self, handOff_memory, owns]
  refine scheduleRunningThread_awake ?_
  rwa [threadQueuePop_state]

/-- The thread that takes over comes from the running queue. -/
theorem pop_awake {c cp : ContextId} {m : Memory} {pc : Pc} (linked : m.Linked layout lists)
    (busy : m.head .running ≠ nullptr)
    (owner : (m.thread (threadQueuePop m .running).1).context = some cp)
    (owns : k.self cp = (threadQueuePop m .running).1) (next : k'.OneToken)
    (popped : k' = ((k.withMemory (threadQueuePop m .running).2).signal cp).setPc c pc) :
    k'.Awake := by
  subst popped
  obtain ⟨runs, head⟩ := linked.popped_awake busy
  rw [head] at owner owns
  refine Kernel.Awake.moves next
    (tokens_of_signal (by rw [threadQueuePop_context]; exact owner) owns) ?_
  rw [Kernel.thread, setPc_self, setPc_memory, signal_self, signal_memory, withMemory_self,
    withMemory_memory, owns, threadQueuePop_state]
  exact runs

theorem destroys_awake {c : ContextId} {target : Ptr} {ret : Int} (awake : k.Awake)
    (here : k.pc c = .running (.guest ret)) (next : k'.OneToken)
    (destroyed : k' = (osDestroyOther k target).setPc c (.running (.guest 0))) : k'.Awake := by
  subst destroyed
  have mine := awake c (tokens_of_running here)
  rcases osDestroyOther_cases k target with ⟨_, same⟩ | ⟨tc, owner, same⟩ <;> rw [same] at next ⊢
  · refine Kernel.Awake.moves next (tokens_of_running (setPc_pc_self ..)) ?_
    rw [Kernel.thread, setPc_self, setPc_memory, withMemory_self, withMemory_memory,
      detach_state]
    exact mine
  · refine Kernel.Awake.moves next (tokens_of_running (setPc_pc_self ..)) ?_
    rw [Kernel.thread, setPc_self, setPc_memory, signal_self, signal_memory, withMemory_self,
      withMemory_memory, clearContext_field _ _ _ OSThread.state fun _ => rfl, detach_state]
    exact mine

theorem Kernel.Awake.step (one : k.OneToken) (queued : k.Queued layout lists) (awake : k.Awake)
    (idle : NamesIdle k l) (side : NamesUnlinked k l) (outcome : Outcome k l k') : k'.Awake := by
  have next := one.step outcome
  have linked := queued.linked
  cases outcome with
  | aborts halt => exact awake
  | outsideCreate t pri closed =>
      intro c held
      have unstarted : (osCreateThread k t.val pri).started = false := closed
      rw [next.started held] at unstarted
      contradiction
  | outsideStart t cp closed owner => exact outsideStart_awake one owner next rfl
  | wakes c on after here signalled own =>
      refine Kernel.Awake.moves next (tokens_of_running (setPc_pc_self ..)) ?_
      simp [Kernel.thread, Memory.setState]
  | wakesStale c on after here signalled stale =>
      intro d held
      simpa [Kernel.thread] using awake d (tokens_consume (tokens_setPc_idle rfl held))
  | creates c t pri ret here => exact creates_awake one awake idle.2 here next rfl
  | proceeds c after after' m here acts once calm =>
      refine Kernel.Awake.moves next (tokens_of_running (setPc_pc_self ..)) ?_
      rw [Kernel.thread, setPc_self, setPc_memory, withMemory_self, withMemory_memory]
      exact acts.awake (awake c (tokens_of_running here))
  | swaps c w cp after ret m front_ here acts busy front outranked caller owner =>
      exact swaps_awake one queued side here acts busy front owner next rfl
  | parks c w cp after op m here same stuck parked caller busy owner =>
      subst parked
      obtain ⟨lists₁, linked₁⟩ := queued.parked one here op.blocked
      have owner' := (threadQueueInsert_context ..).symm.trans owner
      exact pop_awake linked₁ busy owner
        (one.coherent.owner _ _ owner').2 next rfl
  | stops c w cp ret here caller busy owner =>
      exact pop_awake linked busy owner (one.coherent.owner _ _ owner).2 next rfl
  | destroys c t target ret here named other => exact destroys_awake awake here next rfl
  | exits c cp here own m cleared busy owner =>
      subst cleared
      exact pop_awake (linked.clearContext (k.self c)) busy owner
        (one.coherent.owner _ _ (clearContext_owner owner).2).2 next rfl
  | fades c here stale =>
      intro d held
      simpa [Kernel.thread] using awake d (tokens_setPc_idle rfl held)

end Step

theorem reach_awake {ok : Kernel → Label layout → Prop} {k : Kernel}
    (side : ∀ k l k', Reach step ok Booted k → ok k l → step k l = some k' → NamesIdle k l)
    (reached : Reach step ok Booted k) : (∃ lists, k.Queued layout lists) ∧ k.Awake := by
  refine Reach.invariant_of (J := Reach step ok Booted)
    (I := fun k => (∃ lists, k.Queued layout lists) ∧ k.Awake) (fun _ => id) ?_ ?_ reached
  · intro k booted
    refine ⟨boot_queued k booted, ?_⟩
    intro c held
    have started := (boot_oneToken k booted).started held
    obtain ⟨rings, rfl⟩ := booted
    contradiction
  · intro k l k' before ⟨⟨lists, queued⟩, awake⟩ ok taken
    have one := reach_oneToken before
    have idle := side k l k' before ok taken
    have unlinked := idle.step queued awake taken
    have outcome := (step_outcome taken).2
    exact ⟨queued.step one unlinked outcome, awake.step one queued idle unlinked outcome⟩

/-! ## The ceiling -/

/-- No thread in the running queue outranks `t`. -/
def Memory.Ceiling (m : Memory) (t : Ptr) : Prop :=
  ∀ u, (m.thread u).queue = some .running → (m.thread u).priority ≤ (m.thread t).priority

/-- The thread in guest code, and the one that is about to be, are not outranked. -/
def Kernel.Ceiling (k : Kernel) : Prop :=
  ∀ c, (0 < k.undelivered c ∨ ∃ ret, k.pc c = .running (.guest ret)) →
    k.memory.Ceiling (k.self c)

section Memories
variable {m m' : Memory} {t : Ptr} {lists : ThreadQueue → List Ptr}

/-- The running queue may lose threads. -/
theorem Memory.Ceiling.mono (ceiling : m.Ceiling t)
    (fewer : ∀ u, (m'.thread u).queue = some .running → (m.thread u).queue = some .running)
    (priority : ∀ u, (m'.thread u).priority = (m.thread u).priority) : m'.Ceiling t := by
  intro u queued
  rw [priority, priority]
  exact ceiling u (fewer u queued)

theorem Memory.Linked.head_ceiling (linked : m.Linked layout lists) {rest : List Ptr}
    (split : lists .running = t :: rest) : m.Ceiling t := by
  intro u queued
  have member := (linked.queues.named u .running).mpr queued
  have sorted := linked.sorted .running
  rw [split] at member sorted
  rcases List.mem_cons.mp member with rfl | behind
  · exact Int.le_refl _
  · exact (List.pairwise_cons.mp sorted).1 u behind

theorem Memory.Linked.settled_ceiling (linked : m.Linked layout lists) (settled : Settled m t) :
    m.Ceiling t := by
  intro u queued
  have member := (linked.queues.named u .running).mpr queued
  rcases settled with empty | front
  · rw [(linked.queues.head_nil_iff .running).mp empty] at member
    contradiction
  · cases split : lists .running with
    | nil =>
        rw [split] at member
        contradiction
    | cons head rest =>
        have named : m.head .running = head := linked.queues.represents.head_cons split
        rw [named] at front
        exact le_trans (linked.head_ceiling split u queued) front

theorem Memory.Linked.empty_ceiling (linked : m.Linked layout lists) (empty : lists .running = []) :
    m.Ceiling t := by
  intro u queued
  have member := (linked.queues.named u .running).mpr queued
  rw [empty] at member
  contradiction

theorem threadQueuePop_fewer (q q' : ThreadQueue) (u : Ptr)
    (queued : ((threadQueuePop m q).2.thread u).queue = some q') :
    (m.thread u).queue = some q' := by
  by_cases head : u = m.head q
  · by_cases valid : validThreadPtr (m.head q) = true
    · rw [threadQueuePop, if_pos valid, head, modifyThread_self] at queued
      contradiction
    · rw [threadQueuePop, if_neg valid, setHead_thread] at queued
      exact queued
  · rw [← queued]
    exact (threadQueuePop_field m q u OSThread.queue fun same => absurd same head).symm

/-- The popped thread outranks all that stay. -/
theorem Memory.Linked.popped_ceiling (linked : m.Linked layout lists)
    (busy : m.head .running ≠ nullptr) :
    (threadQueuePop m .running).2.Ceiling (m.head .running) := by
  obtain ⟨t, rest, split, head, _⟩ := linked.busy busy
  rw [head]
  exact (linked.head_ceiling split).mono (threadQueuePop_fewer .running .running)
    fun u => threadQueuePop_priority m .running u

theorem scheduleRunningThread_priority (u : Ptr) :
    ((scheduleRunningThread m t).thread u).priority = (m.thread u).priority :=
  scheduleRunningThread_field m t u OSThread.priority fun _ _ _ _ => rfl

theorem Memory.Ceiling.schedule {next : Ptr} (ceiling : m.Ceiling next)
    (below : (m.thread t).priority ≤ (m.thread next).priority) :
    (scheduleRunningThread m t).Ceiling next := by
  intro u queued
  rw [scheduleRunningThread_priority, scheduleRunningThread_priority]
  by_cases same : u = t
  · rw [same]
    exact below
  · refine ceiling u ?_
    rw [← queued, scheduleRunningThread]
    rw [modifyThread_other _ _ same, threadQueueInsert_queue_other m .running same]

theorem detach_fewer (u : Ptr) (linked : m.Linked layout lists)
    (queued : ((detach m t).thread u).queue = some .running) :
    (m.thread u).queue = some .running := by
  obtain ⟨lists', linked', fewer⟩ := linked.detach t
  have member := (linked'.queues.named u .running).mpr queued
  exact (linked.queues.named u .running).mp ((fewer .running).subset member)

end Memories

section Step
variable {k k' : Kernel} {l : Label layout} {lists : ThreadQueue → List Ptr}

theorem Kernel.OneToken.quiet {c : ContextId} {after : Cont} (one : k.OneToken)
    (here : k.pc c = .running after) (d : ContextId) : k.undelivered d = 0 := by
  obtain ⟨h, holder, _⟩ := one.holder
  exact (holder.of_executing (executing_of_running here)).2.1 d

theorem Kernel.Ceiling.moves {h : ContextId} (one : k.OneToken) (held : 0 < k.tokens h)
    (ceiling : (0 < k.undelivered h ∨ ∃ ret, k.pc h = .running (.guest ret)) →
      k.memory.Ceiling (k.self h)) : k.Ceiling := by
  intro c turn
  have mine : 0 < k.tokens c := by
    rcases turn with signalled | ⟨ret, here⟩
    · exact tokens_of_undelivered signalled
    · exact tokens_of_running here
  have same := one.unique mine held
  subst same
  exact ceiling turn

/-- Still running: only a return to guest code has to keep the ceiling. -/
theorem Kernel.Ceiling.stays {c : ContextId} {after : Cont} (one : k.OneToken)
    (here : k.pc c = .running after)
    (ceiling : (∃ ret, after = .guest ret) → k.memory.Ceiling (k.self c)) : k.Ceiling := by
  refine Kernel.Ceiling.moves one (tokens_of_running here) ?_
  rintro (signalled | ⟨ret, guest⟩)
  · rw [one.quiet here] at signalled
    contradiction
  · rw [here] at guest
    exact ceiling ⟨ret, Pc.running.inj guest⟩

/-- The tick's slow path is not entered. -/
def NoSlowTick (_ : Kernel) : Label layout → Prop
  | .call _ (.schedulerTick _ _) => False
  | _ => True

/-- The thread that takes its signal was not outranked when it was signalled. -/
theorem wakes_ceiling {c on : ContextId} {after : Cont} (one : k.OneToken) (ceiling : k.Ceiling)
    (here : k.pc c = .waiting on after) (signalled : 0 < (k.context on).running)
    (own : (k.thread c).context = some on) (next : k'.OneToken)
    (woken : k' = ((k.consume on).withMemory (k.memory.setState (k.self c) .running)).setPc c
      (.running after)) : k'.Ceiling := by
  subst woken
  have owner : (k.memory.thread (k.self c)).context = some on := own
  have pending : 0 < k.undelivered on := by
    rw [Kernel.undelivered, if_pos (one.coherent.current owner)]
    exact signalled
  have before := ceiling on (.inl pending)
  rw [(one.coherent.waiting c on after here).2.1] at before
  refine Kernel.Ceiling.stays next (setPc_pc_self ..) fun _ => ?_
  rw [setPc_memory, withMemory_memory, setPc_self, withMemory_self, consume_self]
  refine before.mono (fun u queued => ?_) fun u => setState_field _ _ u _ OSThread.priority
    fun _ => rfl
  rwa [setState_field _ _ u _ OSThread.queue fun _ => rfl] at queued

theorem wakesStale_ceiling {c on : ContextId} (ceiling : k.Ceiling) :
    ((k.consume on).setPc c .unwinding).Ceiling := by
  intro d turn
  have before : 0 < k.undelivered d ∨ ∃ ret, k.pc d = .running (.guest ret) := by
    rw [setPc_undelivered, consume_undelivered, setPc_pc, consume_pc] at turn
    rcases turn with signalled | ⟨ret, guest⟩
    · exact .inl (by omega)
    · split at guest
      · contradiction
      · exact .inr ⟨ret, guest⟩
  simpa using ceiling d before

/-- A new thread is in no queue, and it is not the caller. -/
theorem creates_ceiling {c : ContextId} {t : Ptr} {pri : OSPri} {ret : Int} (one : k.OneToken)
    (ceiling : k.Ceiling) (other : t ≠ k.self c) (here : k.pc c = .running (.guest ret))
    (next : k'.OneToken)
    (created : k' = (osCreateThread k t pri).setPc c (.running (.guest 0))) : k'.Ceiling := by
  subst created
  have below := one.running_below here
  refine Kernel.Ceiling.stays next (setPc_pc_self ..) fun _ => ?_
  rw [setPc_memory, setPc_self, create_self, if_neg (Nat.ne_of_lt below)]
  intro u queued
  simp only [osCreateThread] at queued ⊢
  by_cases same : u = t
  · rw [same, modifyThread_self] at queued
    contradiction
  · rw [modifyThread_other _ _ same] at queued ⊢
    rw [modifyThread_other _ _ (Ne.symm other)]
    exact ceiling c (.inr ⟨ret, here⟩) u queued

/-- Back in guest code the check has found nobody in front of the caller, or
nothing has changed. -/
theorem proceeds_ceiling {c : ContextId} {after after' : Cont} {m : Memory}
    (queued : k.Queued layout lists) (ceiling : k.Ceiling) (side : NamesUnlinked k l)
    (calm : NoSlowTick k l) (here : k.pc c = .running after) (acts : Acts k c after l m)
    (check : ∀ ret, after' = .guest ret → Settled m (k.self c) ∨
      (m = k.memory ∧ ∃ ret, after = .guest ret) ∨
      ∃ external, l = .call c (.schedulerTick external true))
    (next : k'.OneToken) (went : k' = (k.withMemory m).setPc c (.running after')) :
    k'.Ceiling := by
  subst went
  refine Kernel.Ceiling.stays next (setPc_pc_self ..) ?_
  rintro ⟨ret, rfl⟩
  rw [setPc_memory, withMemory_memory, setPc_self, withMemory_self]
  rcases check ret rfl with settled | ⟨rfl, ret', rfl⟩ | ⟨external, rfl⟩
  · obtain ⟨lists', linked', _⟩ := queued.acted side here acts
    exact linked'.settled_ceiling settled
  · exact ceiling c (.inr ⟨ret', here⟩)
  · contradiction

/-- The caller goes back into the running queue behind the thread that takes over. -/
theorem swaps_ceiling {c w cp : ContextId} {after : Cont} {ret : Int} {m : Memory} {front : Ptr}
    (one : k.OneToken) (queued : k.Queued layout lists) (side : NamesUnlinked k l)
    (calm : NoSlowTick k l) (here : k.pc c = .running after) (acts : Acts k c after l m)
    (busy : m.head .running ≠ nullptr)
    (turn : front = m.head .running ∨ front = (threadQueuePop m .running).1)
    (outranked : (m.thread (k.self c)).priority < (m.thread (m.head .running)).priority ∨
      ∃ external, l = .call c (.schedulerTick external false))
    (owner : (m.thread front).context = some cp) (next : k'.OneToken)
    (swapped : k' = k.handOff (scheduleRunningThread (threadQueuePop m .running).2 (k.self c)) c w
      cp (.guest ret)) : k'.Ceiling := by
  subst swapped
  obtain ⟨lists₁, linked₁, out₁⟩ := queued.acted side here acts
  have head : front = m.head .running := turn.elim id (·.trans (linked₁.popped_awake busy).2)
  subst head
  have owns := (one.coherent.owner _ _ (acts.context _ ▸ owner)).2
  refine Kernel.Ceiling.moves next
    (tokens_of_signal (by rw [swap_context]; exact owner) owns) fun _ => ?_
  rw [handOff_memory, handOff_self, owns]
  refine (linked₁.popped_ceiling busy).schedule ?_
  rw [threadQueuePop_priority, threadQueuePop_priority]
  rcases outranked with less | ⟨external, rfl⟩
  · exact Int.le_of_lt less
  · contradiction

/-- The head of the running queue takes over. -/
theorem pop_ceiling {c cp : ContextId} {m : Memory} {pc : Pc} (linked : m.Linked layout lists)
    (busy : m.head .running ≠ nullptr)
    (owner : (m.thread (threadQueuePop m .running).1).context = some cp)
    (owns : k.self cp = (threadQueuePop m .running).1) (next : k'.OneToken)
    (popped : k' = ((k.withMemory (threadQueuePop m .running).2).signal cp).setPc c pc) :
    k'.Ceiling := by
  subst popped
  rw [(linked.popped_awake busy).2] at owner owns
  refine Kernel.Ceiling.moves next
    (tokens_of_signal (by rw [threadQueuePop_context]; exact owner) owns) fun _ => ?_
  rw [setPc_memory, signal_memory, withMemory_memory, setPc_self, signal_self, withMemory_self,
    owns]
  exact linked.popped_ceiling busy

/-- Destroying a thread takes it off its queue and raises nobody. -/
theorem destroys_ceiling {c : ContextId} {target : Ptr} {ret : Int}
    (queued : k.Queued layout lists) (ceiling : k.Ceiling) (here : k.pc c = .running (.guest ret))
    (next : k'.OneToken)
    (destroyed : k' = (osDestroyOther k target).setPc c (.running (.guest 0))) :
    k'.Ceiling := by
  subst destroyed
  have guest : k.memory.Ceiling (k.self c) := ceiling c (.inr ⟨ret, here⟩)
  have kept : (detach k.memory target).Ceiling (k.self c) :=
    guest.mono (fun u => detach_fewer u queued.linked) fun u => detach_priority target u
  rcases osDestroyOther_cases k target with ⟨_, same⟩ | ⟨tc, owner, same⟩ <;> rw [same] at next ⊢
  · refine Kernel.Ceiling.stays next (setPc_pc_self ..) fun _ => ?_
    rw [setPc_memory, withMemory_memory, setPc_self, withMemory_self]
    exact kept
  · refine Kernel.Ceiling.stays next (setPc_pc_self ..) fun _ => ?_
    rw [setPc_memory, signal_memory, withMemory_memory, setPc_self, signal_self,
      withMemory_self]
    refine kept.mono (fun u queued => ?_) fun u =>
      clearContext_field _ target u OSThread.priority fun _ => rfl
    rwa [clearContext_field _ target u OSThread.queue fun _ => rfl] at queued

theorem fades_ceiling {c : ContextId} (ceiling : k.Ceiling) : (k.setPc c .finished).Ceiling := by
  intro d turn
  have before : 0 < k.undelivered d ∨ ∃ ret, k.pc d = .running (.guest ret) := by
    rw [setPc_undelivered, setPc_pc] at turn
    refine turn.imp id ?_
    rintro ⟨ret, guest⟩
    split at guest
    · contradiction
    · exact ⟨ret, guest⟩
  simpa using ceiling d before

theorem Kernel.Ceiling.step (one : k.OneToken) (queued : k.Queued layout lists)
    (ceiling : k.Ceiling) (side : NamesUnlinked k l) (idle : NamesIdle k l) (calm : NoSlowTick k l)
    (outcome : Outcome k l k') : k'.Ceiling := by
  have next := one.step outcome
  have linked := queued.linked
  cases outcome with
  | aborts halt => exact ceiling
  | outsideCreate t pri closed =>
      have created := linked.create pri (queued.unlinked_of_closed closed t.val)
      exact fun c _ => created.empty_ceiling (queued.closed closed .running)
  | outsideStart t cp closed owner =>
      exact fun c _ => (linked.setState t.val (by simp)).empty_ceiling (queued.closed closed .running)
  | wakes c on after here signalled own =>
      exact wakes_ceiling one ceiling here signalled own next rfl
  | wakesStale c on after here signalled stale => exact wakesStale_ceiling ceiling
  | creates c t pri ret here => exact creates_ceiling one ceiling idle.2 here next rfl
  | proceeds c after after' m here acts once check =>
      exact proceeds_ceiling queued ceiling side calm here acts check next rfl
  | swaps c w cp after ret m front_ here acts busy front outranked caller owner =>
      exact swaps_ceiling one queued side calm here acts busy front outranked owner next rfl
  | parks c w cp after op m here same stuck parked caller busy owner =>
      subst parked
      obtain ⟨lists₁, linked₁⟩ := queued.parked one here op.blocked
      have owner' := (threadQueueInsert_context ..).symm.trans owner
      exact pop_ceiling linked₁ busy owner
        (one.coherent.owner _ _ owner').2 next rfl
  | stops c w cp ret here caller busy owner =>
      exact pop_ceiling linked busy owner (one.coherent.owner _ _ owner).2 next rfl
  | destroys c t target ret here named other =>
      exact destroys_ceiling queued ceiling here next rfl
  | exits c cp here own m cleared busy owner =>
      subst cleared
      exact pop_ceiling (linked.clearContext (k.self c)) busy owner
        (one.coherent.owner _ _ (clearContext_owner owner).2).2 next rfl
  | fades c here stale => exact fades_ceiling ceiling

end Step

/-! ## Runs -/

theorem reach_ceiling {ok : Kernel → Label layout → Prop} {k : Kernel}
    (side : ∀ k l, ok k l → NamesIdle k l ∧ NoSlowTick k l) (reached : Reach step ok Booted k) :
    k.Ceiling := by
  refine Reach.invariant_of (J := Reach step ok Booted) (fun _ => id) ?_ ?_ reached
  · rintro k ⟨rings, rfl⟩ c _ u queued
    contradiction
  · intro k l k' before ceiling ok taken
    obtain ⟨⟨lists, queued⟩, awake⟩ := reach_awake (fun k l _ _ ok _ => (side k l ok).1) before
    have idle := (side k l ok).1
    exact ceiling.step (reach_oneToken before) queued (idle.step queued awake taken) idle
      (side k l ok).2 (step_outcome taken).2

/-- Ways to get a thread past the check, each of them a call the runtime takes. -/
inductive Loophole where
  /-- `osCreateThread` on a thread that is in a queue -/
  | linkedCreate
  /-- `osCreateThread` on the calling thread -/
  | ownCreate
  /-- the tick's slow path, returning before its forced yield -/
  | skippedTick
  deriving DecidableEq, Repr

/-- The calls of a game that starts only idle threads, changes only its own
priority and never lets the tick yield. -/
def PriorityCalls (hole : Option Loophole) (k : Kernel) : Label layout → Prop
  | .call c (.osCreateThread t _) =>
      ((k.memory.thread t.val).queue = none ∨ hole = some .linkedCreate) ∧
        (t.val ≠ k.self c ∨ hole = some .ownCreate)
  | .call c (.osStartThread t) =>
      (k.memory.thread t.val).state = .stopped ∨
        ((k.memory.thread t.val).queue = none ∧ t.val ≠ k.self c)
  | .call c (.osSetThreadPri t _) => (t.map Subtype.val).getD (k.self c) = k.self c
  | .call _ (.schedulerTick _ skip) => skip = true ∧ hole = some .skippedTick
  | _ => True

instance (hole : Option Loophole) (k : Kernel) :
    ∀ l : Label layout, Decidable (PriorityCalls hole k l)
  | .call c (.osCreateThread t _) =>
      inferInstanceAs (Decidable (((k.memory.thread t.val).queue = none ∨ _) ∧ (t.val ≠ k.self c ∨ _)))
  | .call c (.osStartThread t) =>
      inferInstanceAs (Decidable (_ ∨ ((k.memory.thread t.val).queue = none ∧ t.val ≠ k.self c)))
  | .call c (.osSetThreadPri t _) =>
      inferInstanceAs (Decidable ((t.map Subtype.val).getD (k.self c) = k.self c))
  | .call _ (.schedulerTick _ skip) => inferInstanceAs (Decidable (skip = true ∧ _))
  | .outsideCreate _ _ | .outsideStart _ | .wake _ | .unwind _ | .deliver _ _ | .drained _
  | .retest _ => isTrue trivial
  | .call _ .osStopThread | .call _ (.osDestroyThread _) | .call _ (.mesg _ _) | .call _ (.idle _)
  | .call _ .exit => isTrue trivial

theorem priorityCalls_idle (k : Kernel) (l : Label layout) (ok : PriorityCalls none k l) :
    NamesIdle k l ∧ NoSlowTick k l := by
  cases l with
  | call c what =>
      cases what with
      | osCreateThread t pri =>
          obtain ⟨linked, own⟩ := ok
          exact ⟨⟨linked.resolve_right (by simp), own.resolve_right (by simp)⟩, trivial⟩
      | osStartThread t => exact ⟨ok, trivial⟩
      | osSetThreadPri t pri => exact ⟨ok, trivial⟩
      | schedulerTick external skip => exact absurd ok.2 (by simp)
      | osStopThread => exact ⟨trivial, trivial⟩
      | osDestroyThread t => exact ⟨trivial, trivial⟩
      | mesg op block => exact ⟨trivial, trivial⟩
      | idle external => exact ⟨trivial, trivial⟩
      | exit => exact ⟨trivial, trivial⟩
  | outsideCreate t pri => exact ⟨trivial, trivial⟩
  | outsideStart t => exact ⟨trivial, trivial⟩
  | wake c => exact ⟨trivial, trivial⟩
  | unwind c => exact ⟨trivial, trivial⟩
  | deliver c msg => exact ⟨trivial, trivial⟩
  | drained c => exact ⟨trivial, trivial⟩
  | retest c => exact ⟨trivial, trivial⟩

def Kernel.Outranked (k : Kernel) (c : ContextId) : Prop :=
  ∃ chain, Links (fun t => (k.memory.thread t).next) nullptr (k.memory.head .running) chain ∧
    ∃ t ∈ chain, (k.thread c).priority < (k.memory.thread t).priority

/-- A thread in guest code is not outranked by one that waits to run. -/
theorem not_outranked {k : Kernel} {c : ContextId} {ret : Int}
    (reached : Reach (@step layout) (PriorityCalls none) Booted k)
    (here : k.pc c = .running (.guest ret)) : ¬ k.Outranked c := by
  rintro ⟨chain, links, t, member, outranks⟩
  obtain ⟨⟨lists, queued⟩, _⟩ := reach_awake
    (fun k l _ _ ok _ => (priorityCalls_idle k l ok).1) reached
  have queues := queued.linked.queues
  have same : chain = lists .running := links_unique links (queues.represents.links .running)
  rw [same] at member
  have ceiling := reach_ceiling priorityCalls_idle reached c (.inr ⟨ret, here⟩) t
    ((queues.named t .running).mp member)
  exact absurd outranks (Int.not_lt.mpr ceiling)

/-- A higher thread is woken by a send, runs, and waits again. -/
theorem not_outranked_small : ∃ k, Reach (@step threeThreads) (PriorityCalls none) Booted k ∧
    k.pc 0 = .running (.guest 0) ∧ ¬ k.Outranked 0 := by
  obtain ⟨k, ran, here⟩ : ∃ k, run step (PriorityCalls none) (Kernel.boot smallRings)
      [.outsideCreate threadA 5, .outsideStart threadA, .wake 0,
        .call 0 (.osCreateThread threadB 10), .call 0 (.osStartThread threadB), .wake 1,
        .call 1 (.mesg (.recv smallQueue) true), .drained 1, .wake 0,
        .call 0 (.mesg (.send smallQueue 7 false) true), .drained 0, .wake 1, .retest 1,
        .call 1 (.mesg (.recv smallQueue) true), .drained 1, .wake 0] = some k ∧
      k.pc 0 = .running (.guest 0) := ⟨_, rfl, rfl⟩
  have reached : Reach (@step threeThreads) (PriorityCalls none) Booted k :=
    reach_of_run _ ⟨smallRings, rfl⟩ ran
  exact ⟨k, reached, here, not_outranked reached here⟩

/-- A message call or `osSetThreadPri` never returns to an outranked caller. -/
def CeilingOnReturn (hole : Option Loophole) : Prop :=
  ∀ (k k' : Kernel) (c : ContextId) (l : Label threeThreads),
    Reach (@step threeThreads) (PriorityCalls hole) Booted k →
      (l = .drained c ∨ ∃ t pri, l = .call c (.osSetThreadPri t pri)) →
        step k l = some k' → (∃ ret, k'.pc c = .running (.guest ret)) → ¬ k'.Outranked c

/-- Each of the loopholes lets a call return to an outranked caller. -/
theorem loopholes_outrank : ¬ CeilingOnReturn (some .linkedCreate) ∧
    ¬ CeilingOnReturn (some .ownCreate) ∧ ¬ CeilingOnReturn (some .skippedTick) := by
  refine ⟨?_, ?_, ?_⟩ <;> intro always
  · obtain ⟨k, k', ran, taken, here, head, first, second, outranks⟩ :
        ∃ k k', run step (PriorityCalls (some .linkedCreate)) (Kernel.boot smallRings)
          [.outsideCreate threadA 5, .outsideStart threadA, .wake 0,
            .call 0 (.osCreateThread threadB 5), .call 0 (.osStartThread threadB),
            .call 0 (.osCreateThread threadC 3), .call 0 (.osStartThread threadC),
            .call 0 (.osCreateThread threadC 10),
            .call 0 (.mesg (.send smallQueue 7 false) false)] = some k ∧
        step k (.drained 0 : Label threeThreads) = some k' ∧ k'.pc 0 = .running (.guest 0) ∧
        k'.memory.head .running = threadB.val ∧
        (k'.memory.thread threadB.val).next = threadC.val ∧
        (k'.memory.thread threadC.val).next = nullptr ∧
        (k'.thread 0).priority < (k'.memory.thread threadC.val).priority :=
      ⟨_, _, rfl, rfl, rfl, rfl, rfl, rfl, by decide⟩
    exact always k k' 0 _ (reach_of_run _ ⟨smallRings, rfl⟩ ran) (.inl rfl) taken ⟨0, here⟩
      ⟨[threadB.val, threadC.val], ⟨head, by decide, first, by decide, second⟩, threadC.val,
        by simp, outranks⟩
  · obtain ⟨k, k', ran, taken, here, head, first, outranks⟩ :
        ∃ k k', run step (PriorityCalls (some .ownCreate)) (Kernel.boot smallRings)
          [.outsideCreate threadA 5, .outsideStart threadA, .wake 0,
            .call 0 (.osCreateThread threadB 4), .call 0 (.osStartThread threadB),
            .call 0 (.osCreateThread threadA 3)] = some k ∧
        step k (.call 0 (.osSetThreadPri none 3) : Label threeThreads) = some k' ∧
        k'.pc 0 = .running (.guest 0) ∧ k'.memory.head .running = threadB.val ∧
        (k'.memory.thread threadB.val).next = nullptr ∧
        (k'.thread 0).priority < (k'.memory.thread threadB.val).priority :=
      ⟨_, _, rfl, rfl, rfl, rfl, rfl, by decide⟩
    exact always k k' 0 _ (reach_of_run _ ⟨smallRings, rfl⟩ ran) (.inr ⟨none, 3, rfl⟩) taken
      ⟨0, here⟩ ⟨[threadB.val], ⟨head, by decide, first⟩, threadB.val, by simp, outranks⟩
  · obtain ⟨k, k', ran, taken, here, head, first, outranks⟩ :
        ∃ k k', run step (PriorityCalls (some .skippedTick)) (Kernel.boot smallRings)
          [.outsideCreate threadA 5, .outsideStart threadA, .wake 0,
            .call 0 (.osCreateThread threadB 10), .call 0 (.osStartThread threadB), .wake 1,
            .call 1 (.mesg (.recv smallQueue) true), .drained 1, .wake 0,
            .call 0 (.schedulerTick (some ⟨smallQueue, 7, false, false⟩) true)] = some k ∧
        step k (.call 0 (.osSetThreadPri none 5) : Label threeThreads) = some k' ∧
        k'.pc 0 = .running (.guest 0) ∧ k'.memory.head .running = threadB.val ∧
        (k'.memory.thread threadB.val).next = nullptr ∧
        (k'.thread 0).priority < (k'.memory.thread threadB.val).priority :=
      ⟨_, _, rfl, rfl, rfl, rfl, rfl, by decide⟩
    exact always k k' 0 _ (reach_of_run _ ⟨smallRings, rfl⟩ ran) (.inr ⟨none, 5, rfl⟩) taken
      ⟨0, here⟩ ⟨[threadB.val], ⟨head, by decide, first⟩, threadB.val, by simp, outranks⟩

end N64ModernRuntime.Ultramodern
