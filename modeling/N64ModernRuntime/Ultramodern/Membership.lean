import N64ModernRuntime.Ultramodern.CpuToken

/-!
# Thread-queue membership

While every thread that is started or created is in no queue, the queues of
the machine are lists of distinct threads, each named by the `queue` field of
its members, and a thread that executes guest code is in none of them.
-/

set_option autoImplicit false

namespace N64ModernRuntime.Ultramodern

open Transition IntrusiveList

/-- The picture of the thread queues, with what keeps the walks within their bounds. -/
structure Memory.Linked (layout : ThreadLayout) (m : Memory) (lists : ThreadQueue → List Ptr) :
    Prop where
  queues : m.Queues lists
  members : ∀ q, ∀ t ∈ lists q, t ∈ layout.addrs
  live : ∀ q, ∀ t ∈ lists q, (m.thread t).state ≠ .stopped
  sorted : ∀ q, (lists q).Pairwise (Before m)

/-- The lists after the first thread of `blocked` was made runnable. -/
def wakeLists (m : Memory) (lists : ThreadQueue → List Ptr) (blocked : ThreadQueue) :
    ThreadQueue → List Ptr :=
  match lists blocked with
  | [] => lists
  | t :: rest =>
      Function.update (Function.update lists blocked rest) .running
        ((lists .running).orderedInsert (Before m) t)

section Linked
variable {layout : ThreadLayout} {m : Memory} {lists : ThreadQueue → List Ptr}

theorem Memory.Linked.short (linked : m.Linked layout lists) (q : ThreadQueue) :
    (lists q).length ≤ walkGuard := by
  have distinct := linked.queues.represents.nodup q
  rw [← List.toFinset_card_of_nodup distinct]
  refine le_trans (Finset.card_le_card ?_) layout.card_le
  intro t member
  exact linked.members q t (List.mem_toFinset.mp member)

theorem mem_update_iff {q q' : ThreadQueue} {l : List Ptr} {u : Ptr} :
    u ∈ Function.update lists q l q' ↔ (q' = q ∧ u ∈ l) ∨ (q' ≠ q ∧ u ∈ lists q') := by
  by_cases same : q' = q
  · subst same
    simp
  · simp [same]

/-- Threads may leave the queues. -/
theorem Memory.Linked.shrink {m' : Memory} {lists' : ThreadQueue → List Ptr}
    (linked : m.Linked layout lists) (queues : m'.Queues lists')
    (fewer : ∀ q, (lists' q).Sublist (lists q))
    (state : ∀ q, ∀ t ∈ lists' q, (m'.thread t).state = (m.thread t).state)
    (priority : ∀ q, ∀ t ∈ lists' q, (m'.thread t).priority = (m.thread t).priority) :
    m'.Linked layout lists' := by
  refine ⟨queues, ?_, ?_, ?_⟩
  · intro q t member
    exact linked.members q t ((fewer q).subset member)
  · intro q t member
    rw [state q t member]
    exact linked.live q t ((fewer q).subset member)
  · intro q
    exact pairwise_before ((linked.sorted q).sublist (fewer q)) (priority q)

theorem Memory.Linked.insert (linked : m.Linked layout lists) (q : ThreadQueue) {t : Ptr}
    (known : t ∈ layout.addrs) (unlinked : (m.thread t).queue = none) :
    (threadQueueInsert m q t).Linked layout
      (Function.update lists q ((lists q).orderedInsert (Before m) t)) := by
  refine ⟨linked.queues.insert q (layout.valid t known) unlinked (linked.short q), ?_, ?_, ?_⟩
  · intro q' u member
    rw [mem_update_iff, List.mem_orderedInsert] at member
    rcases member with ⟨_, rfl | member⟩ | ⟨_, member⟩
    · exact known
    · exact linked.members q u member
    · exact linked.members q' u member
  · intro q' u member
    rw [mem_update_iff, List.mem_orderedInsert] at member
    by_cases same : u = t
    · subst same
      rw [threadQueueInsert_state_self]
      split <;> simp
    · rw [threadQueueInsert_state_other m q same]
      rcases member with ⟨_, same' | member⟩ | ⟨_, member⟩
      · exact absurd same' same
      · exact linked.live q u member
      · exact linked.live q' u member
  · intro q'
    refine pairwise_before ?_ fun u _ => threadQueueInsert_priority m q t u
    by_cases same : q' = q
    · subst same
      rw [Function.update_self]
      exact (linked.sorted q').orderedInsert t
    · rw [Function.update_of_ne same]
      exact linked.sorted q'

theorem Memory.Linked.setState (linked : m.Linked layout lists) (t : Ptr) {state : OSThreadState}
    (runs : state ≠ .stopped) : (m.setState t state).Linked layout lists := by
  refine ⟨linked.queues.modifyThread t _ (fun _ => rfl) fun _ => rfl, linked.members, ?_, ?_⟩
  · intro q u member
    by_cases same : u = t
    · subst same
      rw [Memory.setState, modifyThread_self]
      exact runs
    · rw [Memory.setState, modifyThread_other _ _ same]
      exact linked.live q u member
  · intro q
    exact pairwise_before (linked.sorted q) fun u _ =>
      setState_field m t u state OSThread.priority fun _ => rfl

theorem Memory.Linked.schedule (linked : m.Linked layout lists) {t : Ptr}
    (known : t ∈ layout.addrs) (unlinked : (m.thread t).queue = none) :
    (scheduleRunningThread m t).Linked layout
      (Function.update lists .running ((lists .running).orderedInsert (Before m) t)) :=
  (linked.insert .running known unlinked).setState t (by simp)

/-- A thread in no queue may be overwritten by one that is in none either. -/
theorem Memory.Linked.renew (linked : m.Linked layout lists) {t : Ptr} (f : OSThread → OSThread)
    (unlinked : (m.thread t).queue = none) (renewed : (f (m.thread t)).queue = none) :
    (m.modifyThread t f).Linked layout lists := by
  have out := (linked.queues.unlinked_iff t).mp unlinked
  have other : ∀ q, ∀ u ∈ lists q, u ≠ t := by
    intro q u member same
    exact out q (same ▸ member)
  refine linked.shrink (linked.queues.renew f unlinked renewed) (fun q => List.Sublist.refl _) ?_ ?_ <;>
    intro q u member <;> rw [modifyThread_other m f (other q u member)]

theorem update_sublist {q : ThreadQueue} {l : List Ptr} (fewer : l.Sublist (lists q))
    (q' : ThreadQueue) : (Function.update lists q l q').Sublist (lists q') := by
  by_cases same : q' = q
  · subst same
    rwa [Function.update_self]
  · rw [Function.update_of_ne same]

theorem Memory.Linked.pop (linked : m.Linked layout lists) {q : ThreadQueue} {t : Ptr}
    {rest : List Ptr} (split : lists q = t :: rest) :
    (threadQueuePop m q).1 = t ∧
      (threadQueuePop m q).2.Linked layout (Function.update lists q rest) ∧
      ∀ q', t ∉ Function.update lists q rest q' := by
  obtain ⟨popped, queues⟩ := linked.queues.pop split
  refine ⟨popped, linked.shrink queues (update_sublist ?_) ?_ ?_, ?_⟩
  · rw [split]
    exact List.sublist_cons_self t rest
  · exact fun _ u _ => threadQueuePop_state m q u
  · exact fun _ u _ => threadQueuePop_priority m q u
  · intro q' member
    have inQ : t ∈ lists q := by rw [split]; exact List.mem_cons_self ..
    rcases mem_update_iff.mp member with ⟨rfl, behind⟩ | ⟨other, elsewhere⟩
    · have distinct := linked.queues.represents.nodup q'
      rw [split] at distinct
      exact (List.nodup_cons.mp distinct).1 behind
    · exact other (linked.queues.represents.disjoint q' q t elsewhere inQ)

theorem Memory.Linked.setRing (linked : m.Linked layout lists) (mq : Ptr) (ring : MesgRing) :
    (m.setRing mq ring).Linked layout lists :=
  linked.shrink (linked.queues.setRing mq ring) (fun _ => List.Sublist.refl _) (fun _ _ _ => rfl)
    fun _ _ _ => rfl

theorem Memory.Linked.wakeFirst (linked : m.Linked layout lists) {blocked : ThreadQueue}
    (side : blocked ≠ .running) :
    (wakeFirst m blocked).Linked layout (wakeLists m lists blocked) := by
  unfold Ultramodern.wakeFirst wakeLists
  have empty := linked.queues.head_nil_iff blocked
  cases split : lists blocked with
  | nil =>
      rw [if_pos (by simp [threadQueueEmpty, empty, split])]
      exact linked
  | cons t rest =>
      rw [if_neg (by simp [threadQueueEmpty, empty, split])]
      obtain ⟨popped, next, out⟩ := linked.pop split
      have known := linked.members blocked t (by rw [split]; exact List.mem_cons_self ..)
      rw [popped]
      have scheduled := next.schedule known ((next.queues.unlinked_iff t).mpr out)
      rw [Function.update_of_ne (Ne.symm side), orderedInsert_before (m := m)
        fun u => threadQueuePop_priority m blocked u] at scheduled
      exact scheduled

theorem mem_wakeLists {blocked q : ThreadQueue} {u : Ptr} (member : u ∈ wakeLists m lists blocked q) :
    ∃ q', u ∈ lists q' := by
  unfold wakeLists at member
  cases split : lists blocked with
  | nil =>
      rw [split] at member
      exact ⟨q, member⟩
  | cons t rest =>
      rw [split] at member
      rcases mem_update_iff.mp member with ⟨_, ordered⟩ | ⟨_, elsewhere⟩
      · rcases (List.mem_orderedInsert _).mp ordered with rfl | queued
        · exact ⟨blocked, by rw [split]; exact List.mem_cons_self ..⟩
        · exact ⟨.running, queued⟩
      · rcases mem_update_iff.mp elsewhere with ⟨_, behind⟩ | ⟨_, untouched⟩
        · exact ⟨blocked, by rw [split]; exact List.mem_cons_of_mem _ behind⟩
        · exact ⟨q, untouched⟩

theorem Memory.Linked.transfer (linked : m.Linked layout lists) (op : MesgOp) :
    (op.transfer m).Linked layout (wakeLists m lists op.wakes) := by
  cases op with
  | send mq msg jam =>
      have put := linked.setRing mq ((m.mesgQueue mq).put msg jam)
      exact put.wakeFirst (by simp)
  | recv mq =>
      have took := linked.setRing mq (m.mesgQueue mq).take
      exact took.wakeFirst (by simp)

theorem Memory.Linked.clearContext (linked : m.Linked layout lists) (t : Ptr) :
    (m.clearContext t).Linked layout lists :=
  linked.shrink (linked.queues.modifyThread t _ (fun _ => rfl) fun _ => rfl)
    (fun _ => List.Sublist.refl _)
    (fun _ u _ => clearContext_field m t u OSThread.state fun _ => rfl)
    fun _ u _ => clearContext_field m t u OSThread.priority fun _ => rfl

theorem detach_state (t u : Ptr) : ((detach m t).thread u).state = (m.thread u).state := by
  unfold detach
  split
  · exact threadQueueRemove_state ..
  · rfl

theorem detach_priority (t u : Ptr) : ((detach m t).thread u).priority = (m.thread u).priority := by
  unfold detach
  split
  · exact threadQueueRemove_priority ..
  · rfl

theorem Memory.Linked.detach (linked : m.Linked layout lists) (t : Ptr) :
    ∃ lists', (detach m t).Linked layout lists' ∧ ∀ q, (lists' q).Sublist (lists q) := by
  have unchanged : ∃ lists', m.Linked layout lists' ∧ ∀ q, (lists' q).Sublist (lists q) :=
    ⟨lists, linked, fun _ => List.Sublist.refl _⟩
  unfold Ultramodern.detach
  split
  · cases queue : (m.thread t).queue with
    | none => exact unchanged
    | some q =>
        by_cases scanned : q = .running ∨ validThreadPtr q.addr = true
        · have member := (linked.queues.named t q).mpr queue
          have removed := (linked.queues.remove scanned member (linked.short q)).2
          have fewer : ∀ q', (Function.update lists q ((lists q).erase t) q').Sublist (lists q') :=
            update_sublist List.erase_sublist
          exact ⟨_, linked.shrink removed fewer (fun _ u _ => threadQueueRemove_state m t u _)
            fun _ u _ => threadQueueRemove_priority m t u _, fewer⟩
        · have skipped : q ≠ .running ∧ validThreadPtr q.addr = false := by
            simpa [not_or] using scanned
          have same : threadQueueRemove m (some q) t = (false, m) := by
            simp only [threadQueueRemove, if_pos skipped]
          rw [same]
          exact unchanged
  · exact unchanged

end Linked

/-! ## The machine -/

variable {layout : ThreadLayout}

/-- No create or start is given a thread that is in a queue, and no start the
caller itself; priorities are changed by their own threads only. -/
def NamesUnlinked (k : Kernel) : Label layout → Prop
  | .call _ (.osCreateThread t _) => (k.memory.thread t.val).queue = none
  | .call c (.osStartThread t) => (k.memory.thread t.val).queue = none ∧ t.val ≠ k.self c
  | .call c (.osSetThreadPri t _) => (t.map Subtype.val).getD (k.self c) = k.self c
  | _ => True

instance (k : Kernel) : ∀ l : Label layout, Decidable (NamesUnlinked k l)
  | .call _ (.osCreateThread t _) => inferInstanceAs (Decidable ((k.memory.thread t.val).queue = none))
  | .call c (.osStartThread t) =>
      inferInstanceAs (Decidable ((k.memory.thread t.val).queue = none ∧ t.val ≠ k.self c))
  | .call c (.osSetThreadPri t _) =>
      inferInstanceAs (Decidable ((t.map Subtype.val).getD (k.self c) = k.self c))
  | .outsideCreate _ _ | .outsideStart _ | .wake _ | .unwind _ | .deliver _ _ | .drained _
  | .retest _ => isTrue trivial
  | .call _ .osStopThread | .call _ (.osDestroyThread _) | .call _ (.mesg _ _) | .call _ (.idle _)
  | .call _ (.schedulerTick _ _) | .call _ .exit => isTrue trivial

/-- The queues of a machine as lists; whoever has the CPU is in none. -/
structure Kernel.Queued (layout : ThreadLayout) (k : Kernel) (lists : ThreadQueue → List Ptr) :
    Prop where
  linked : k.memory.Linked layout lists
  selves : ∀ c, c < k.contexts → k.self c ∈ layout.addrs
  turn : ∀ c, 0 < k.tokens c → ∀ q, k.self c ∉ lists q
  closed : k.started = false → ∀ q, lists q = []

section Step
variable {k k' : Kernel} {l : Label layout} {lists lists' : ThreadQueue → List Ptr}

theorem Kernel.OneToken.unique {c d : ContextId} (one : k.OneToken) (first : 0 < k.tokens c)
    (second : 0 < k.tokens d) : c = d := by
  obtain ⟨h, holder, _⟩ := one.holder
  rw [holder c] at first
  rw [holder d] at second
  split at first
  · rename_i mine
    split at second
    · rename_i theirs
      exact Option.some.inj (mine.symm.trans theirs)
    · omega
  · omega

theorem Kernel.OneToken.started {c : ContextId} (one : k.OneToken) (held : 0 < k.tokens c) :
    k.started = true := by
  obtain ⟨h, holder, closed⟩ := one.holder
  by_contra unstarted
  rw [holder c, closed (by simpa using unstarted)] at held
  simp at held

theorem tokens_of_running {c : ContextId} {after : Cont} (here : k.pc c = .running after) :
    0 < k.tokens c := by
  simp [Kernel.tokens, executing_of_running here]

theorem Kernel.OneToken.running_below {c : ContextId} {after : Cont} (one : k.OneToken)
    (here : k.pc c = .running after) : c < k.contexts :=
  one.coherent.created (not_finished here (by simp))

theorem undelivered_of_signal {cp : ContextId} {m : Memory} {t : Ptr}
    (owner : (m.thread t).context = some cp) (owns : k.self cp = t) :
    0 < ((k.withMemory m).signal cp).undelivered cp := by
  have current : (k.withMemory m).current cp := by
    rw [Kernel.current, Kernel.thread, withMemory_memory, withMemory_self, owns]
    exact owner
  rw [signal_undelivered, if_pos ⟨rfl, current⟩]
  omega

theorem tokens_of_undelivered {c : ContextId} (signalled : 0 < k.undelivered c) :
    0 < k.tokens c := by
  rw [Kernel.tokens]
  omega

theorem tokens_of_signal {c cp : ContextId} {m : Memory} {pc : Pc} {t : Ptr}
    (owner : (m.thread t).context = some cp) (owns : k.self cp = t) :
    0 < (((k.withMemory m).signal cp).setPc c pc).tokens cp := by
  refine tokens_of_undelivered ?_
  rw [setPc_undelivered]
  exact undelivered_of_signal owner owns

/-- A host thread that is not running and moves on does not gain the CPU. -/
theorem tokens_setPc_idle {c d : ContextId} {pc : Pc} (idle : pc.executing = false)
    (held : 0 < (k.setPc c pc).tokens d) : 0 < k.tokens d := by
  rw [Kernel.tokens, setPc_executing, setPc_undelivered] at held
  rw [Kernel.tokens]
  split at held
  · rw [if_neg (by simp [idle])] at held
    omega
  · exact held

theorem tokens_consume {c d : ContextId} (held : 0 < (k.consume c).tokens d) : 0 < k.tokens d := by
  rw [Kernel.tokens, consume_undelivered, consume_executing] at held
  rw [Kernel.tokens]
  omega

theorem Memory.Linked.create (linked : k.memory.Linked layout lists) {t : Ptr} (pri : OSPri)
    (unlinked : (k.memory.thread t).queue = none) :
    (osCreateThread k t pri).memory.Linked layout lists := by
  let created : OSThread :=
    { next := nullptr, queue := none, priority := pri, state := .stopped
      context := some k.contexts }
  exact linked.renew (fun _ => created) unlinked rfl

/-- The new lists are right if they are the new memory's and leave out the one
thread that has the CPU now. -/
theorem Kernel.Queued.moves {h : ContextId} (queued : k.Queued layout lists) (one : k'.OneToken)
    (contexts : k'.contexts = k.contexts) (self : ∀ d, k'.self d = k.self d)
    (linked : k'.memory.Linked layout lists') (held : 0 < k'.tokens h)
    (out : ∀ q, k.self h ∉ lists' q) : k'.Queued layout lists' := by
  refine ⟨linked, ?_, ?_, ?_⟩
  · intro c below
    rw [self]
    exact queued.selves c (contexts ▸ below)
  · intro c mine
    rw [self, one.unique mine held]
    exact out
  · intro stopped
    rw [one.started held] at stopped
    contradiction

/-- A thread that runs acts on the lists without entering them. -/
theorem Acts.linked {c : ContextId} {after : Cont} {m : Memory} (acts : Acts k c after l m)
    (linked : k.memory.Linked layout lists) (side : NamesUnlinked k l)
    (out : ∀ q, k.self c ∉ lists q) :
    ∃ lists', m.Linked layout lists' ∧ ∀ q, k.self c ∉ lists' q := by
  cases acts with
  | nothing => exact ⟨lists, linked, out⟩
  | transfer op =>
      refine ⟨_, linked.transfer op, ?_⟩
      intro q member
      obtain ⟨q', before⟩ := mem_wakeLists member
      exact out q' before
  | start t =>
      refine ⟨_, linked.schedule t.property side.1, ?_⟩
      intro q member
      rw [mem_update_iff, List.mem_orderedInsert] at member
      rcases member with ⟨_, same | member⟩ | ⟨_, member⟩
      · exact side.2 same.symm
      · exact out _ member
      · exact out _ member
  | priority t pri =>
      have unlinked := (linked.queues.unlinked_iff (k.self c)).mpr out
      have own : (t.map Subtype.val).getD (k.self c) = k.self c := side
      rw [own]
      exact ⟨lists, linked.renew _ unlinked unlinked, out⟩
  | requeue t target pri queue named other =>
      have own : (t.map Subtype.val).getD (k.self c) = k.self c := side
      exact absurd (named.symm.trans own) other

theorem Memory.Linked.busy {m : Memory} (linked : m.Linked layout lists)
    (busy : m.head .running ≠ nullptr) :
    ∃ t rest, lists .running = t :: rest ∧ m.head .running = t ∧
      (threadQueuePop m .running).1 = t := by
  cases split : lists .running with
  | nil => exact absurd ((linked.queues.head_nil_iff .running).mpr split) busy
  | cons t rest =>
      exact ⟨t, rest, rfl, linked.queues.represents.head_cons split, (linked.pop split).1⟩

/-- After what a running thread has done, it is still in no list. -/
theorem Kernel.Queued.acted {c : ContextId} {after : Cont} {m : Memory}
    (queued : k.Queued layout lists) (side : NamesUnlinked k l) (here : k.pc c = .running after)
    (acts : Acts k c after l m) : ∃ lists', m.Linked layout lists' ∧ ∀ q, k.self c ∉ lists' q :=
  acts.linked queued.linked side (queued.turn c (tokens_of_running here))

/-- A running thread may go into any list. -/
theorem Kernel.Queued.parked {c : ContextId} {after : Cont} (queued : k.Queued layout lists)
    (one : k.OneToken) (here : k.pc c = .running after) (q : ThreadQueue) :
    ∃ lists', (threadQueueInsert k.memory q (k.self c)).Linked layout lists' := by
  have known : k.self c ∈ layout.addrs := queued.selves c (one.running_below here)
  have unlinked := (queued.linked.queues.unlinked_iff _).mpr
    (queued.turn c (tokens_of_running here))
  exact ⟨_, queued.linked.insert q known unlinked⟩

/-- Before the first start nothing is in a queue. -/
theorem Kernel.Queued.unlinked_of_closed (queued : k.Queued layout lists)
    (closed : k.started = false) (t : Ptr) : (k.memory.thread t).queue = none := by
  rw [queued.linked.queues.unlinked_iff]
  intro q
  rw [queued.closed closed q]
  exact List.not_mem_nil

theorem outsideCreate_queued (queued : k.Queued layout lists) (t : layout.Thread) (pri : OSPri)
    (closed : k.started = false) : (osCreateThread k t.val pri).Queued layout lists := by
  have empty := queued.closed closed
  refine ⟨queued.linked.create pri (queued.unlinked_of_closed closed t.val), ?_, ?_, fun _ => empty⟩
  · intro c below
    rw [create_self]
    split
    · exact t.property
    · rename_i old
      exact queued.selves c (Nat.lt_of_le_of_ne (Nat.le_of_lt_succ below) old)
  · intro c _ q
    rw [empty q]
    exact List.not_mem_nil

theorem outsideStart_queued (queued : k.Queued layout lists) (t : Ptr) (cp : ContextId)
    (closed : k.started = false) : Kernel.Queued layout
      { (k.withMemory (k.memory.setState t .queued)).signal cp with started := true } lists := by
  have empty := queued.closed closed
  refine ⟨queued.linked.setState t (by simp), ?_, ?_, fun _ => empty⟩
  · intro c below
    exact (signal_self _ c cp).symm ▸ queued.selves c below
  · intro c _ q
    rw [empty q]
    exact List.not_mem_nil

/-- A thread that takes its signal has been in no queue since it was signalled. -/
theorem wakes_queued {c on : ContextId} {after : Cont} (one : k.OneToken)
    (queued : k.Queued layout lists) (here : k.pc c = .waiting on after)
    (signalled : 0 < (k.context on).running) (own : (k.thread c).context = some on)
    (next : k'.OneToken) (woken : k' = ((k.consume on).withMemory
      (k.memory.setState (k.self c) .running)).setPc c (.running after)) :
    k'.Queued layout lists := by
  subst woken
  have owner : (k.memory.thread (k.self c)).context = some on := own
  have pending : 0 < k.tokens on := by
    rw [Kernel.tokens, Kernel.undelivered, if_pos (one.coherent.current owner)]
    omega
  have out := queued.turn on pending
  rw [(one.coherent.waiting c on after here).2.1] at out
  exact queued.moves next rfl (fun d => by simp) (queued.linked.setState _ (by simp))
    (tokens_of_running (setPc_pc_self ..)) out

theorem wakesStale_queued {c on : ContextId} (queued : k.Queued layout lists) :
    ((k.consume on).setPc c .unwinding).Queued layout lists := by
  refine ⟨queued.linked, fun d below => by simpa using queued.selves d below, ?_, queued.closed⟩
  intro d held q
  simpa using queued.turn d (tokens_consume (tokens_setPc_idle rfl held)) q

theorem creates_queued {c : ContextId} {t : layout.Thread} {pri : OSPri} {ret : Int}
    (one : k.OneToken) (queued : k.Queued layout lists)
    (unlinked : (k.memory.thread t.val).queue = none) (here : k.pc c = .running (.guest ret))
    (next : k'.OneToken)
    (created : k' = (osCreateThread k t.val pri).setPc c (.running (.guest 0))) :
    k'.Queued layout lists := by
  subst created
  have below := one.running_below here
  refine ⟨queued.linked.create pri unlinked, ?_, ?_, ?_⟩
  · intro d made
    rw [setPc_self, create_self]
    split
    · exact t.property
    · rename_i old
      exact queued.selves d (Nat.lt_of_le_of_ne (Nat.le_of_lt_succ made) old)
  · intro d held q
    rw [next.unique held (tokens_of_running (setPc_pc_self ..)), setPc_self, create_self,
      if_neg (Nat.ne_of_lt below)]
    exact queued.turn c (tokens_of_running here) q
  · intro stopped
    rw [next.started (tokens_of_running (setPc_pc_self ..))] at stopped
    contradiction

/-- The head of the running queue is popped and takes over. -/
theorem pop_queued {c cp : ContextId} {m : Memory} {pc : Pc} (queued : k.Queued layout lists)
    (linked : m.Linked layout lists') (busy : m.head .running ≠ nullptr)
    (owner : (m.thread (threadQueuePop m .running).1).context = some cp)
    (owns : k.self cp = (threadQueuePop m .running).1) (next : k'.OneToken)
    (popped : k' = ((k.withMemory (threadQueuePop m .running).2).signal cp).setPc c pc) :
    ∃ rest, k'.Queued layout (Function.update lists' .running rest) := by
  subst popped
  obtain ⟨t, rest, split, _, head⟩ := linked.busy busy
  obtain ⟨_, linked', out⟩ := linked.pop split
  rw [head] at owner owns
  exact ⟨rest, queued.moves next rfl (fun d => by simp) linked'
    (tokens_of_signal (by rw [threadQueuePop_context]; exact owner) owns) (owns ▸ out)⟩

/-- The caller goes back into the running queue and its head takes over. -/
theorem swaps_queued {c w cp : ContextId} {after : Cont} {ret : Int} {m : Memory} {front : Ptr}
    (one : k.OneToken) (queued : k.Queued layout lists) (side : NamesUnlinked k l)
    (here : k.pc c = .running after) (acts : Acts k c after l m)
    (busy : m.head .running ≠ nullptr)
    (turn : front = m.head .running ∨ front = (threadQueuePop m .running).1)
    (owner : (m.thread front).context = some cp) (next : k'.OneToken)
    (swapped : k' = k.handOff (scheduleRunningThread (threadQueuePop m .running).2 (k.self c)) c w
      cp (.guest ret)) :
    ∃ lists', k'.Queued layout lists' := by
  subst swapped
  obtain ⟨lists₁, linked₁, out₁⟩ := queued.acted side here acts
  obtain ⟨t, rest, split, head, popped⟩ := linked₁.busy busy
  obtain rfl : front = t := turn.elim (·.trans head) (·.trans popped)
  obtain ⟨_, linked₂, out₂⟩ := linked₁.pop split
  have mine : ∀ q, k.self c ∉ Function.update lists₁ .running rest q := by
    intro q member
    rcases mem_update_iff.mp member with ⟨_, behind⟩ | ⟨_, elsewhere⟩
    · exact out₁ .running (by rw [split]; exact List.mem_cons_of_mem _ behind)
    · exact out₁ q elsewhere
  have known : k.self c ∈ layout.addrs := queued.selves c (one.running_below here)
  have linked₃ := linked₂.schedule known ((linked₂.queues.unlinked_iff _).mpr mine)
  have owner' : (k.memory.thread front).context = some cp := acts.context front ▸ owner
  have owns := (one.coherent.owner _ _ owner').2
  refine ⟨_, queued.moves next rfl (fun d => by simp) linked₃
    (tokens_of_signal (by rw [swap_context]; exact owner) owns) ?_⟩
  intro q member
  rw [owns, mem_update_iff, List.mem_orderedInsert] at member
  rcases member with ⟨_, same | member⟩ | ⟨_, member⟩
  · exact out₁ .running (by rw [split, ← same]; exact List.mem_cons_self ..)
  · exact out₂ _ member
  · exact out₂ _ member

/-- The caller goes into the list it blocks on and the head of the running queue takes over. -/
theorem parks_queued {c w cp : ContextId} {after after' : Cont} {q : ThreadQueue}
    (one : k.OneToken) (queued : k.Queued layout lists) (here : k.pc c = .running after)
    (busy : (threadQueueInsert k.memory q (k.self c)).head .running ≠ nullptr)
    (owner : (k.memory.thread (threadQueuePop (threadQueueInsert k.memory q (k.self c))
      .running).1).context = some cp) (next : k'.OneToken)
    (parked : k' = k.handOff (threadQueuePop (threadQueueInsert k.memory q (k.self c)) .running).2
      c w cp after') :
    ∃ lists', k'.Queued layout lists' := by
  obtain ⟨lists₁, linked₁⟩ := queued.parked one here q
  obtain ⟨rest, left⟩ := pop_queued queued linked₁ busy
    ((threadQueueInsert_context ..).trans owner) (one.coherent.owner _ _ owner).2 next parked
  exact ⟨_, left⟩

/-- The destroyed thread leaves its queue; the caller stays in none. -/
theorem destroys_queued {c : ContextId} {target : Ptr} {ret : Int}
    (queued : k.Queued layout lists) (here : k.pc c = .running (.guest ret)) (next : k'.OneToken)
    (destroyed : k' = (osDestroyOther k target).setPc c (.running (.guest 0))) :
    ∃ lists', k'.Queued layout lists' := by
  subst destroyed
  obtain ⟨lists', linked', fewer⟩ := queued.linked.detach target
  have out : ∀ q, k.self c ∉ lists' q :=
    fun q member => queued.turn c (tokens_of_running here) q ((fewer q).subset member)
  rcases osDestroyOther_cases k target with ⟨_, same⟩ | ⟨tc, owner, same⟩ <;> rw [same] at next ⊢
  · exact ⟨lists', queued.moves next rfl (fun d => by simp) linked'
      (tokens_of_running (setPc_pc_self ..)) out⟩
  · exact ⟨lists', queued.moves next rfl (fun d => by simp) (linked'.clearContext target)
      (tokens_of_running (setPc_pc_self ..)) out⟩

theorem fades_queued {c : ContextId} (queued : k.Queued layout lists) :
    (k.setPc c .finished).Queued layout lists := by
  refine ⟨queued.linked, fun d below => by simpa using queued.selves d below, ?_, queued.closed⟩
  intro d held q
  simpa using queued.turn d (tokens_setPc_idle rfl held) q

theorem Kernel.Queued.step (one : k.OneToken) (queued : k.Queued layout lists)
    (side : NamesUnlinked k l) (outcome : Outcome k l k') :
    ∃ lists', k'.Queued layout lists' := by
  have next := one.step outcome
  cases outcome with
  | aborts halt =>
      exact ⟨lists, queued.linked, queued.selves, queued.turn, queued.closed⟩
  | outsideCreate t pri closed => exact ⟨lists, outsideCreate_queued queued t pri closed⟩
  | outsideStart t cp closed owner => exact ⟨lists, outsideStart_queued queued t.val cp closed⟩
  | wakes c on after here signalled own =>
      exact ⟨lists, wakes_queued one queued here signalled own next rfl⟩
  | wakesStale c on after here signalled stale => exact ⟨lists, wakesStale_queued queued⟩
  | creates c t pri ret here => exact ⟨lists, creates_queued one queued side here next rfl⟩
  | proceeds c after after' m here acts once calm =>
      obtain ⟨lists', linked', out⟩ := queued.acted side here acts
      exact ⟨lists', queued.moves next rfl (fun d => by simp) linked'
        (tokens_of_running (setPc_pc_self ..)) out⟩
  | swaps c w cp after ret m front_ here acts busy front outranked caller owner =>
      exact swaps_queued one queued side here acts busy front owner next rfl
  | parks c w cp after op m here same stuck parked caller busy owner =>
      subst parked
      rw [threadQueueInsert_context] at owner
      exact parks_queued one queued here busy owner next rfl
  | stops c w cp ret here caller busy owner =>
      obtain ⟨rest, left⟩ := pop_queued queued queued.linked busy owner
        (one.coherent.owner _ _ owner).2 next rfl
      exact ⟨_, left⟩
  | destroys c t target ret here named other => exact destroys_queued queued here next rfl
  | exits c cp here own m cleared busy owner =>
      subst cleared
      obtain ⟨rest, left⟩ := pop_queued queued (queued.linked.clearContext (k.self c)) busy owner
        (one.coherent.owner _ _ (clearContext_owner owner).2).2 next rfl
      exact ⟨_, left⟩
  | fades c here stale => exact ⟨lists, fades_queued queued⟩

end Step

/-! ## Runs -/

theorem boot_queued (k : Kernel) (booted : Booted k) : ∃ lists, k.Queued layout lists := by
  obtain ⟨rings, rfl⟩ := booted
  refine ⟨fun _ => [], ⟨⟨⟨fun q => ?_, ?_⟩, ?_, ?_⟩, ?_, ?_, fun _ => List.Pairwise.nil⟩, ?_, ?_,
    fun _ _ => rfl⟩
  · cases q <;> rfl
  · intro q q' t member
    contradiction
  · intro t q
    simp [Kernel.boot, bootMemory]
  · intro q t member
    contradiction
  · intro q t member
    contradiction
  · intro q t member
    contradiction
  · intro c below
    exact absurd below (Nat.not_lt_zero c)
  · intro c _ q
    exact List.not_mem_nil

theorem reach_queued {ok : Kernel → Label layout → Prop} {k : Kernel}
    (side : ∀ k l, ok k l → NamesUnlinked k l) (reached : Reach step ok Booted k) :
    ∃ lists, k.Queued layout lists :=
  reached.invariant_of (fun _ before => reach_oneToken before) boot_queued
    fun _ _ _ one ⟨_, queued⟩ ok taken => queued.step one (side _ _ ok) (step_outcome taken).2

/-- The chains of the queues are these lists, no thread is linked twice, the
`queue` field names the list that links a thread, and a thread that executes is
in no list. -/
structure Kernel.MembershipIn (k : Kernel) (lists : ThreadQueue → List Ptr) : Prop where
  chains : ∀ q, Links (fun t => (k.memory.thread t).next) nullptr (k.memory.head q) (lists q)
  acyclic : ∀ q, (lists q).Nodup
  single : ∀ q q' t, t ∈ lists q → t ∈ lists q' → q = q'
  named : ∀ t q, t ∈ lists q ↔ (k.memory.thread t).queue = some q
  running : ∀ c after, k.pc c = .running after → ∀ q, k.self c ∉ lists q

def Kernel.Membership (k : Kernel) : Prop := ∃ lists, k.MembershipIn lists

/-- While creates and starts name unlinked threads, membership holds in every state. -/
theorem membership_of_names_unlinked {k : Kernel}
    (reached : Reach (@step layout) NamesUnlinked Booted k) : k.Membership := by
  obtain ⟨lists, queued⟩ := reach_queued (fun _ _ => id) reached
  have queues := queued.linked.queues
  exact ⟨lists, queues.represents.links, queues.represents.nodup, queues.represents.disjoint,
    queues.named, fun c after here => queued.turn c (tokens_of_running here)⟩

/-- A thread blocks on a receive, another fills the queue, blocks on a send and
the first one is destroyed where it waits to run. -/
theorem membership_small : ∃ k, Reach (@step threeThreads) NamesUnlinked Booted k ∧
    k.Membership := by
  obtain ⟨k, ran⟩ : ∃ k, run step NamesUnlinked (Kernel.boot smallRings)
      [.outsideCreate threadA 5, .outsideStart threadA, .wake 0,
        .call 0 (.osCreateThread threadB 10), .call 0 (.osStartThread threadB), .wake 1,
        .call 1 (.mesg (.recv smallQueue) true), .drained 1, .wake 0,
        .call 0 (.osSetThreadPri none 20), .call 0 (.mesg (.send smallQueue 7 false) true),
        .drained 0, .call 0 (.osDestroyThread (some threadB)), .wake 1, .unwind 1] = some k :=
    ⟨_, rfl⟩
  have reached : Reach (@step threeThreads) NamesUnlinked Booted k :=
    reach_of_run _ ⟨smallRings, rfl⟩ ran
  exact ⟨k, reached, membership_of_names_unlinked reached⟩

/-- The calls membership is about: any but `osSetThreadPri`. -/
def KeepsPriorities (_ : Kernel) : Label layout → Prop
  | .call _ (.osSetThreadPri _ _) => False
  | _ => True

instance (k : Kernel) : ∀ l : Label layout, Decidable (KeepsPriorities k l)
  | .call _ (.osSetThreadPri _ _) => isFalse id
  | .outsideCreate _ _ | .outsideStart _ | .wake _ | .unwind _ | .deliver _ _ | .drained _
  | .retest _ => isTrue trivial
  | .call _ (.osCreateThread _ _) | .call _ (.osStartThread _) | .call _ .osStopThread
  | .call _ (.osDestroyThread _) | .call _ (.mesg _ _) | .call _ (.idle _)
  | .call _ (.schedulerTick _ _) | .call _ .exit => isTrue trivial

/-- A second start of a thread that is in the running queue links it to itself. -/
theorem double_start_cycle : ¬ ∀ k, Reach (@step threeThreads) KeepsPriorities Booted k →
    k.Membership := by
  intro always
  obtain ⟨k, ran, head, next⟩ : ∃ k, run step KeepsPriorities (Kernel.boot smallRings)
      [.outsideCreate threadA 5, .outsideStart threadA, .wake 0,
        .call 0 (.osCreateThread threadB 3), .call 0 (.osStartThread threadB),
        .call 0 (.osStartThread threadB)] = some k ∧ k.memory.head .running = threadB.val ∧
      (k.memory.thread threadB.val).next = threadB.val := ⟨_, rfl, rfl, rfl⟩
  have reached : Reach (@step threeThreads) KeepsPriorities Booted k :=
    reach_of_run _ ⟨smallRings, rfl⟩ ran
  obtain ⟨lists, sound⟩ := always k reached
  have chain := sound.chains .running
  rw [head] at chain
  cases split : lists .running with
  | nil =>
      rw [split] at chain
      have ended : threadB.val = nullptr := chain
      exact absurd ended (by decide)
  | cons t rest =>
      rw [split] at chain
      obtain ⟨same, some, tail⟩ := chain
      -- the chain behind the thread is the chain of the thread again
      have again : Links (fun t => (k.memory.thread t).next) nullptr t rest := by
        have itself : (k.memory.thread t).next = t := by rw [← same, next]
        simpa only [itself] using tail
      have longer : rest = t :: rest := links_unique again ⟨rfl, some, tail⟩
      exact absurd (congrArg List.length longer) (by simp)

end N64ModernRuntime.Ultramodern
