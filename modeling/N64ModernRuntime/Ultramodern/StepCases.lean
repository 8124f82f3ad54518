import N64ModernRuntime.Ultramodern.Threads

/-!
# What one step of the thread machine can do

`Outcome` lists the results of a step once, with the guards that were passed;
`step_outcome` says the list is complete.  Every invariant of the machine is
proved by cases on it.
-/

set_option autoImplicit false

namespace N64ModernRuntime.Ultramodern

/-! ## Threads under the updates of one field -/

section Updates
variable (m : Memory) (t u : Ptr) (q : ThreadQueue) (state : OSThreadState) (pri : OSPri)

theorem clearContext_field {γ : Type} (field : OSThread → γ)
    (keeps : ∀ thread : OSThread, field { thread with context := none } = field thread) :
    field ((m.clearContext t).thread u) = field (m.thread u) :=
  modifyThread_field m t u _ field keeps

theorem setState_field {γ : Type} (field : OSThread → γ)
    (keeps : ∀ thread : OSThread, field { thread with state := state } = field thread) :
    field ((m.setState t state).thread u) = field (m.thread u) :=
  modifyThread_field m t u _ field keeps

theorem setPriority_field {γ : Type} (field : OSThread → γ)
    (keeps : ∀ thread : OSThread, field { thread with priority := pri } = field thread) :
    field ((m.setPriority t pri).thread u) = field (m.thread u) :=
  modifyThread_field m t u _ field keeps

@[simp] theorem setState_context : ((m.setState t state).thread u).context = (m.thread u).context :=
  setState_field m t u state OSThread.context fun _ => rfl

@[simp] theorem setPriority_context :
    ((m.setPriority t pri).thread u).context = (m.thread u).context :=
  setPriority_field m t u pri OSThread.context fun _ => rfl

theorem clearContext_context : ((m.clearContext t).thread u).context =
    if u = t then none else (m.thread u).context := by
  unfold Memory.clearContext
  split
  · rename_i same
    subst same
    rw [modifyThread_self]
  · rename_i other
    rw [modifyThread_other m _ other]

@[simp] theorem clearContext_head : (m.clearContext t).head q = m.head q :=
  modifyThread_head m q t _

end Updates

/-! ## Contexts under the updates of a kernel -/

/-- `running.wait()` that found a count -/
def Kernel.consume (k : Kernel) (c : ContextId) : Kernel :=
  k.modifyContext c fun context => { context with running := context.running - 1 }

/-- The CPU goes to context `cp` and the host thread of `c` waits on `w`. -/
def Kernel.handOff (k : Kernel) (m : Memory) (c w cp : ContextId) (after : Cont) : Kernel :=
  ((k.withMemory m).signal cp).setPc c (.waiting w after)

section Fields
variable (k : Kernel) (m : Memory) (c d w : ContextId) (pc : Pc) (after : Cont)

@[simp] theorem withMemory_memory : (k.withMemory m).memory = m := rfl
@[simp] theorem setPc_memory : (k.setPc d pc).memory = k.memory := rfl
@[simp] theorem signal_memory : (k.signal d).memory = k.memory := rfl
@[simp] theorem consume_memory : (k.consume d).memory = k.memory := rfl
@[simp] theorem handOff_memory : (k.handOff m c w d after).memory = m := rfl

@[simp] theorem withMemory_contexts : (k.withMemory m).contexts = k.contexts := rfl
@[simp] theorem setPc_contexts : (k.setPc d pc).contexts = k.contexts := rfl
@[simp] theorem signal_contexts : (k.signal d).contexts = k.contexts := rfl
@[simp] theorem consume_contexts : (k.consume d).contexts = k.contexts := rfl
@[simp] theorem handOff_contexts : (k.handOff m c w d after).contexts = k.contexts := rfl

@[simp] theorem withMemory_started : (k.withMemory m).started = k.started := rfl
@[simp] theorem setPc_started : (k.setPc d pc).started = k.started := rfl
@[simp] theorem signal_started : (k.signal d).started = k.started := rfl
@[simp] theorem consume_started : (k.consume d).started = k.started := rfl
@[simp] theorem handOff_started : (k.handOff m c w d after).started = k.started := rfl

@[simp] theorem withMemory_context : (k.withMemory m).context = k.context := rfl

theorem modifyContext_context (f : UltraThreadContext → UltraThreadContext) :
    (k.modifyContext d f).context c = if c = d then f (k.context d) else k.context c := by
  simp [Kernel.modifyContext]

@[simp] theorem withMemory_self : (k.withMemory m).self c = k.self c := rfl

@[simp] theorem setPc_self : (k.setPc d pc).self c = k.self c := by
  unfold Kernel.self Kernel.setPc
  rw [modifyContext_context]
  split <;> simp_all

@[simp] theorem signal_self : (k.signal d).self c = k.self c := by
  unfold Kernel.self Kernel.signal
  rw [modifyContext_context]
  split <;> simp_all

@[simp] theorem consume_self : (k.consume d).self c = k.self c := by
  unfold Kernel.self Kernel.consume
  rw [modifyContext_context]
  split <;> simp_all

@[simp] theorem handOff_self (cp : ContextId) :
    (k.handOff m d w cp after).self c = k.self c := by
  simp [Kernel.handOff]

@[simp] theorem withMemory_pc : (k.withMemory m).pc c = k.pc c := rfl

theorem setPc_pc : (k.setPc d pc).pc c = if c = d then pc else k.pc c := by
  unfold Kernel.pc Kernel.setPc
  rw [modifyContext_context]
  split <;> rfl

@[simp] theorem setPc_pc_self : (k.setPc c pc).pc c = pc := by simp [setPc_pc]

@[simp] theorem signal_pc : (k.signal d).pc c = k.pc c := by
  unfold Kernel.pc Kernel.signal
  rw [modifyContext_context]
  split <;> simp_all

@[simp] theorem consume_pc : (k.consume d).pc c = k.pc c := by
  unfold Kernel.pc Kernel.consume
  rw [modifyContext_context]
  split <;> simp_all

theorem handOff_pc (cp : ContextId) :
    (k.handOff m d w cp after).pc c = if c = d then .waiting w after else k.pc c := by
  simp [Kernel.handOff, setPc_pc]

end Fields

/-! ## The scheduling functions, read backwards -/

/-- No thread of the running queue is in front of a caller `t`, as far as its head tells. -/
def Settled (m : Memory) (t : Ptr) : Prop :=
  m.head .running = nullptr ∨ (m.thread (m.head .running)).priority ≤ (m.thread t).priority

section Inversion
variable {k k' : Kernel} {c : ContextId} {t : Ptr} {after : Cont} {ret : Int}

theorem settle_cases {result : Except Halt Kernel} (settled : k.settle result = k') :
    (∃ halt, k' = { k with halted := some halt }) ∨ result = .ok k' := by
  cases result with
  | error halt => exact .inl ⟨halt, settled.symm⟩
  | ok next => exact .inr (congrArg Except.ok settled)

theorem resumeThread_ok (ok : resumeThread k t = .ok k') :
    ∃ cp, (k.memory.thread t).context = some cp ∧ k' = k.signal cp := by
  unfold resumeThread at ok
  split at ok
  · contradiction
  · rename_i cp owner
    cases ok
    exact ⟨cp, owner, rfl⟩

theorem runNextThread_ok (ok : runNextThread k = .ok k') :
    ∃ cp, k.memory.head .running ≠ nullptr ∧
      (k.memory.thread (threadQueuePop k.memory .running).1).context = some cp ∧
      k' = (k.withMemory (threadQueuePop k.memory .running).2).signal cp := by
  unfold runNextThread at ok
  split at ok
  · contradiction
  · rename_i busy
    obtain ⟨cp, owner, done⟩ := resumeThread_ok ok
    rw [withMemory_memory, threadQueuePop_context] at owner
    exact ⟨cp, by simpa [threadQueueEmpty] using busy, owner, done⟩

theorem runNextThreadAndWait_ok (ok : runNextThreadAndWait k c after = .ok k') :
    ∃ w cp, (k.thread c).context = some w ∧ k.memory.head .running ≠ nullptr ∧
      (k.memory.thread (threadQueuePop k.memory .running).1).context = some cp ∧
      k' = k.handOff (threadQueuePop k.memory .running).2 c w cp after := by
  unfold runNextThreadAndWait at ok
  split at ok
  · contradiction
  · rename_i w caller
    cases ran : runNextThread k with
    | error halt => rw [ran] at ok; contradiction
    | ok middle =>
        rw [ran] at ok
        obtain ⟨cp, busy, owner, rfl⟩ := runNextThread_ok ran
        cases ok
        exact ⟨w, cp, caller, busy, owner, rfl⟩

theorem swapToThread_ok (ok : swapToThread k c t after = .ok k') :
    ∃ w cp, (k.thread c).context = some w ∧ (k.memory.thread t).context = some cp ∧
      k' = k.handOff (scheduleRunningThread k.memory (k.self c)) c w cp after := by
  unfold swapToThread resumeThreadAndWait at ok
  split at ok
  · contradiction
  · rename_i w caller
    have frame : ∀ u, ((scheduleRunningThread k.memory (k.self c)).thread u).context =
        (k.memory.thread u).context := fun u =>
      scheduleRunningThread_field k.memory (k.self c) u OSThread.context fun _ _ _ _ => rfl
    cases ran : resumeThread (k.withMemory (scheduleRunningThread k.memory (k.self c))) t with
    | error halt => rw [ran] at ok; contradiction
    | ok middle =>
        rw [ran] at ok
        obtain ⟨cp, owner, rfl⟩ := resumeThread_ok ran
        cases ok
        refine ⟨w, cp, ?_, ?_, rfl⟩
        · rw [← caller]
          exact (frame (k.self c)).symm
        · rw [← owner]
          exact (frame t).symm

/-- The two ways out of a hand-over to the front of the running queue. -/
theorem checkRunningQueue_ok (ok : checkRunningQueue k c ret = .ok k') :
    (Settled k.memory (k.self c) ∧ k' = k.setPc c (.running (.guest ret))) ∨
    (∃ w cp, (k.thread c).context = some w ∧ k.memory.head .running ≠ nullptr ∧
      (k.thread c).priority < (k.memory.thread (k.memory.head .running)).priority ∧
      (k.memory.thread (k.memory.head .running)).context = some cp ∧
      k' = k.handOff (scheduleRunningThread (threadQueuePop k.memory .running).2 (k.self c)) c w cp
        (.guest ret)) := by
  unfold checkRunningQueue at ok
  split at ok
  · rename_i empty
    cases ok
    exact .inl ⟨.inl (by simpa [threadQueueEmpty] using empty), rfl⟩
  · rename_i busy
    dsimp only at ok
    split at ok
    · rename_i outranked
      obtain ⟨w, cp, caller, owner, rfl⟩ := swapToThread_ok ok
      refine .inr ⟨w, cp, ?_, by simpa [threadQueueEmpty] using busy, outranked, ?_, rfl⟩
      · rw [← caller]
        exact (threadQueuePop_context k.memory .running (k.self c)).symm
      · rw [← owner]
        exact (threadQueuePop_context k.memory .running _).symm
    · rename_i fair
      cases ok
      exact .inl ⟨.inr (Int.not_lt.mp fair), rfl⟩

theorem yieldToAnyQueued_ok (ok : yieldToAnyQueued k c = .ok k') :
    (Settled k.memory (k.self c) ∧ k' = k.setPc c (.running (.guest 0))) ∨
    (∃ w cp, (k.thread c).context = some w ∧ k.memory.head .running ≠ nullptr ∧
      (k.memory.thread (threadQueuePop k.memory .running).1).context = some cp ∧
      k' = k.handOff (scheduleRunningThread (threadQueuePop k.memory .running).2 (k.self c)) c w cp
        (.guest 0)) := by
  unfold yieldToAnyQueued at ok
  split at ok
  · rename_i empty
    cases ok
    exact .inl ⟨.inl (by simpa [threadQueueEmpty] using empty), rfl⟩
  · rename_i busy
    obtain ⟨w, cp, caller, owner, rfl⟩ := swapToThread_ok ok
    refine .inr ⟨w, cp, ?_, by simpa [threadQueueEmpty] using busy, ?_, rfl⟩
    · rw [← caller]
      exact (threadQueuePop_context k.memory .running (k.self c)).symm
    · rw [← owner]
      exact (threadQueuePop_context k.memory .running _).symm

theorem runGameThreadTail_ok (ok : runGameThreadTail k c = .ok k') :
    ((k.thread c).context ≠ some c ∧ k' = k.setPc c .finished) ∨
    (∃ cp, (k.thread c).context = some c ∧ (k.memory.clearContext (k.self c)).head .running ≠ nullptr ∧
      ((k.memory.clearContext (k.self c)).thread
        (threadQueuePop (k.memory.clearContext (k.self c)) .running).1).context = some cp ∧
      k' = ((k.withMemory (threadQueuePop (k.memory.clearContext (k.self c)) .running).2).signal
        cp).setPc c .finished) := by
  unfold runGameThreadTail at ok
  split at ok
  · rename_i own
    cases ran : runNextThread (k.withMemory (k.memory.clearContext (k.self c))) with
    | error halt => rw [ran] at ok; contradiction
    | ok middle =>
        rw [ran] at ok
        obtain ⟨cp, busy, owner, rfl⟩ := runNextThread_ok ran
        cases ok
        exact .inr ⟨cp, own, busy, owner, rfl⟩
  · rename_i stale
    cases ok
    exact .inl ⟨stale, rfl⟩

end Inversion

/-! ## Outcomes -/

/-- The list a call that cannot proceed waits on. -/
def MesgOp.blocked : MesgOp → ThreadQueue
  | .send mq _ _ => .blockedOnSend mq
  | .recv mq => .blockedOnRecv mq

/-- The list a call that proceeds wakes the first thread of. -/
def MesgOp.wakes : MesgOp → ThreadQueue
  | .send mq _ _ => .blockedOnRecv mq
  | .recv mq => .blockedOnSend mq

def MesgOp.stuck (m : Memory) : MesgOp → Bool
  | .send mq _ _ => mqIsFull (m.mesgQueue mq).toMesgRing
  | .recv mq => mqIsEmpty (m.mesgQueue mq).toMesgRing

def MesgOp.transfer (m : Memory) : MesgOp → Memory
  | .send mq msg jam => sendInto m mq msg jam
  | .recv mq => recvFrom m mq

variable {layout : ThreadLayout}

/-- What a running thread does to the memory before it returns, hands the CPU
on or goes on in the same call. -/
inductive Acts (k : Kernel) (c : ContextId) (after : Cont) : Label layout → Memory → Prop
  | nothing {l : Label layout} (fresh : ∀ op, after ≠ .retest op) : Acts k c after l k.memory
  | transfer {l : Label layout} (op : MesgOp) (ready : op.stuck k.memory = false)
      (same : ∀ other, after = .retest other → other = op) :
      Acts k c after l (op.transfer k.memory)
  | start (t : layout.Thread) (fresh : ∀ op, after ≠ .retest op) :
      Acts k c after (.call c (.osStartThread t)) (scheduleRunningThread k.memory t.val)
  | priority (t : Option layout.Thread) (pri : OSPri) (fresh : ∀ op, after ≠ .retest op) :
      Acts k c after (.call c (.osSetThreadPri t pri))
        (k.memory.setPriority ((t.map Subtype.val).getD (k.self c)) pri)
  | requeue (t : Option layout.Thread) (target : Ptr) (pri : OSPri) (queue : ThreadQueue)
      (named : (t.map Subtype.val).getD (k.self c) = target) (other : target ≠ k.self c)
      (fresh : ∀ op, after ≠ .retest op) :
      Acts k c after (.call c (.osSetThreadPri t pri))
        (threadQueueInsert (threadQueueRemove (k.memory.setPriority target pri)
          (k.memory.thread target).queue target).2 queue target)

inductive Outcome (k : Kernel) : Label layout → Kernel → Prop
  | aborts (l : Label layout) (halt : Halt) : Outcome k l { k with halted := some halt }
  | outsideCreate (t : layout.Thread) (pri : OSPri) (closed : k.started = false) :
      Outcome k (.outsideCreate t pri) (osCreateThread k t.val pri)
  | outsideStart (t : layout.Thread) (cp : ContextId) (closed : k.started = false)
      (owner : (k.memory.thread t.val).context = some cp) :
      Outcome k (.outsideStart t)
        { (k.withMemory (k.memory.setState t.val .queued)).signal cp with started := true }
  | wakes (c on : ContextId) (after : Cont) (here : k.pc c = .waiting on after)
      (signalled : 0 < (k.context on).running) (own : (k.thread c).context = some on) :
      Outcome k (.wake c)
        (((k.consume on).withMemory (k.memory.setState (k.self c) .running)).setPc c
          (.running after))
  | wakesStale (c on : ContextId) (after : Cont) (here : k.pc c = .waiting on after)
      (signalled : 0 < (k.context on).running) (stale : (k.thread c).context ≠ some on) :
      Outcome k (.wake c) ((k.consume on).setPc c .unwinding)
  | creates (c : ContextId) (t : layout.Thread) (pri : OSPri) (ret : Int)
      (here : k.pc c = .running (.guest ret)) :
      Outcome k (.call c (.osCreateThread t pri))
        ((osCreateThread k t.val pri).setPc c (.running (.guest 0)))
  /-- still running afterwards; where it is back in guest code, either nobody in
  the running queue is in front of it, or nothing changed, or it skipped the check -/
  | proceeds {l : Label layout} (c : ContextId) (after after' : Cont) (m : Memory)
      (here : k.pc c = .running after) (acts : Acts k c after l m)
      (once : ∀ op, after' ≠ .retest op)
      (calm : ∀ ret, after' = .guest ret → Settled m (k.self c) ∨
        (m = k.memory ∧ ∃ ret, after = .guest ret) ∨
        ∃ external, l = .call c (.schedulerTick external true)) :
      Outcome k l ((k.withMemory m).setPc c (.running after'))
  | swaps {l : Label layout} (c w cp : ContextId) (after : Cont) (ret : Int) (m : Memory)
      (next : Ptr) (here : k.pc c = .running after) (acts : Acts k c after l m)
      (busy : m.head .running ≠ nullptr)
      (front : next = m.head .running ∨ next = (threadQueuePop m .running).1)
      (outranked : (m.thread (k.self c)).priority < (m.thread (m.head .running)).priority ∨
        ∃ external, l = .call c (.schedulerTick external false))
      (caller : (m.thread (k.self c)).context = some w)
      (owner : (m.thread next).context = some cp) :
      Outcome k l (k.handOff (scheduleRunningThread (threadQueuePop m .running).2 (k.self c)) c w cp
        (.guest ret))
  | parks {l : Label layout} (c w cp : ContextId) (after : Cont) (op : MesgOp) (m : Memory)
      (here : k.pc c = .running after) (same : ∀ other, after = .retest other → other = op)
      (stuck : op.stuck k.memory = true)
      (parked : m = threadQueueInsert k.memory op.blocked (k.self c))
      (caller : (m.thread (k.self c)).context = some w)
      (busy : m.head .running ≠ nullptr)
      (owner : (m.thread (threadQueuePop m .running).1).context = some cp) :
      Outcome k l (k.handOff (threadQueuePop m .running).2 c w cp (.retest op))
  | stops (c w cp : ContextId) (ret : Int) (here : k.pc c = .running (.guest ret))
      (caller : (k.thread c).context = some w) (busy : k.memory.head .running ≠ nullptr)
      (owner : (k.memory.thread (threadQueuePop k.memory .running).1).context = some cp) :
      Outcome k (.call c .osStopThread)
        (k.handOff (threadQueuePop k.memory .running).2 c w cp (.guest 0))
  | destroys (c : ContextId) (t : Option layout.Thread) (target : Ptr) (ret : Int)
      (here : k.pc c = .running (.guest ret))
      (named : (t.map Subtype.val).getD (k.self c) = target) (other : target ≠ k.self c) :
      Outcome k (.call c (.osDestroyThread t))
        ((osDestroyOther k target).setPc c (.running (.guest 0)))
  /-- the end of `run_game_thread`, the context still its OSThread's -/
  | exits {l : Label layout} (c cp : ContextId)
      (here : (∃ ret, k.pc c = .running (.guest ret)) ∨ k.pc c = .unwinding)
      (own : (k.thread c).context = some c) (m : Memory)
      (cleared : m = k.memory.clearContext (k.self c)) (busy : m.head .running ≠ nullptr)
      (owner : (m.thread (threadQueuePop m .running).1).context = some cp) :
      Outcome k l (((k.withMemory (threadQueuePop m .running).2).signal cp).setPc c .finished)
  | fades {l : Label layout} (c : ContextId)
      (here : (∃ ret, k.pc c = .running (.guest ret)) ∨ k.pc c = .unwinding)
      (stale : (k.thread c).context ≠ some c) : Outcome k l (k.setPc c .finished)

section Complete
variable {k k' : Kernel} {c : ContextId} {l : Label layout} {after : Cont} {m : Memory}

theorem Acts.context (acts : Acts k c after l m) (u : Ptr) :
    (m.thread u).context = (k.memory.thread u).context := by
  cases acts with
  | nothing => rfl
  | transfer op =>
      cases op with
      | send mq msg jam =>
          exact wakeFirst_field _ _ u OSThread.context fun _ _ _ _ => rfl
      | recv mq =>
          exact wakeFirst_field _ _ u OSThread.context fun _ _ _ _ => rfl
  | start t =>
      exact scheduleRunningThread_field k.memory t.val u OSThread.context fun _ _ _ _ => rfl
  | priority t pri => exact setPriority_context ..
  | requeue t target pri queue =>
      rw [threadQueueInsert_context, threadQueueRemove_context, setPriority_context]

/-- Whatever a running thread did, the check at the end of its call is one of two outcomes. -/
theorem check_outcome {ret : Int} (here : k.pc c = .running after) (acts : Acts k c after l m)
    (ok : checkRunningQueue (k.withMemory m) c ret = .ok k') : Outcome k l k' := by
  rcases checkRunningQueue_ok ok with ⟨settled, rfl⟩ | ⟨w, cp, caller, busy, outranked, owner, rfl⟩
  · exact .proceeds c after (.guest ret) m here acts (fun _ => by simp) fun _ _ => .inl settled
  · exact .swaps c w cp after ret m _ here acts busy (.inl rfl) (.inl outranked) caller owner

theorem tail_outcome (here : (∃ ret, k.pc c = .running (.guest ret)) ∨ k.pc c = .unwinding)
    (ok : runGameThreadTail k c = .ok k') : Outcome k l k' := by
  rcases runGameThreadTail_ok ok with ⟨stale, rfl⟩ | ⟨cp, own, busy, owner, rfl⟩
  · exact .fades c here stale
  · exact .exits c cp here own _ rfl busy owner

theorem doSend_acts (fresh : ∀ op, after ≠ .retest op) (mq : Ptr) (msg : OSMesg) (jam : Bool) :
    Acts k c after l (doSend k.memory mq msg jam).2 := by
  unfold doSend
  split
  · exact .nothing fresh
  split
  · exact .nothing fresh
  · rename_i room
    exact .transfer (.send mq msg jam) (by simpa [MesgOp.stuck] using room)
      fun other same => absurd same (fresh other)

theorem doRecv_acts (fresh : ∀ op, after ≠ .retest op) (mq : Ptr) :
    Acts k c after l (doRecv k.memory mq).2 := by
  unfold doRecv
  dsimp only
  split
  · exact .nothing fresh
  · rename_i some
    exact .transfer (.recv mq) (by simpa [MesgOp.stuck] using some)
      fun other same => absurd same (fresh other)

theorem handOnOption_acts (fresh : ∀ op, after ≠ .retest op) (external : Option QueuedMessage) :
    Acts k c after l (handOnOption k.memory external) := by
  cases external with
  | none => exact .nothing fresh
  | some msg => exact doSend_acts fresh msg.mq msg.mesg msg.jam

theorem mesgBlock_eq (op : MesgOp) : mesgBlock k c op =
    if op.stuck k.memory then
      runNextThreadAndWait (k.withMemory (threadQueueInsert k.memory op.blocked (k.self c))) c
        (.retest op)
    else checkRunningQueue (k.withMemory (op.transfer k.memory)) c 0 := by
  cases op <;> rfl

theorem mesgBlock_outcome {op : MesgOp} (here : k.pc c = .running after)
    (same : ∀ other, after = .retest other → other = op) (ok : mesgBlock k c op = .ok k') :
    Outcome k l k' := by
  rw [mesgBlock_eq] at ok
  split at ok
  · rename_i stuck
    obtain ⟨w, cp, caller, busy, owner, rfl⟩ := runNextThreadAndWait_ok ok
    exact .parks c w cp after op _ here same stuck rfl caller busy owner
  · rename_i ready
    exact check_outcome here (.transfer op (by simpa using ready) same) ok

theorem mesgTransfer_outcome {op : MesgOp} {block : Bool} (here : k.pc c = .running after)
    (fresh : ∀ op, after ≠ .retest op) (ok : mesgTransfer k c op block = .ok k') :
    Outcome k l k' := by
  cases block with
  | false =>
      cases op with
      | send mq msg jam => exact check_outcome here (doSend_acts fresh mq msg jam) ok
      | recv mq => exact check_outcome here (doRecv_acts fresh mq) ok
  | true =>
      have again : ∀ op other, after = .retest other → other = op :=
        fun _ other retest => absurd retest (fresh other)
      cases op with
      | send mq msg jam =>
          simp only [mesgTransfer] at ok
          split at ok
          · exact mesgBlock_outcome here (again _) ok
          · exact check_outcome here (.nothing fresh) ok
      | recv mq =>
          have blocks : mesgBlock k c (.recv mq) = .ok k' := ok
          exact mesgBlock_outcome here (again _) blocks

theorem osSetThreadPri_outcome {t : Option layout.Thread} {pri : OSPri} {ret : Int}
    (here : k.pc c = .running (.guest ret))
    (ok : osSetThreadPri k c (t.map Subtype.val) pri = .ok k') :
    Outcome k (.call c (.osSetThreadPri t pri)) k' := by
  have fresh : ∀ op, Cont.guest ret ≠ .retest op := fun _ => by simp
  unfold osSetThreadPri at ok
  dsimp only at ok
  split at ok
  · split at ok
    · rename_i other
      split at ok
      · contradiction
      · rename_i queue _
        exact check_outcome here (.requeue t _ pri queue rfl other.1 fresh) ok
    · exact check_outcome here (.priority t pri fresh) ok
  · cases ok
    exact .proceeds c _ (.guest 0) k.memory here (.nothing fresh) (fun _ => by simp)
      fun _ _ => .inr (.inl ⟨rfl, ret, rfl⟩)

theorem guestCall_outcome {what : GuestCall layout} {ret : Int}
    (here : k.pc c = .running (.guest ret)) (ok : guestCall k c what = .ok k') :
    Outcome k (.call c what) k' := by
  have fresh : ∀ op, Cont.guest ret ≠ .retest op := fun _ => by simp
  cases what with
  | osCreateThread t pri =>
      cases ok
      exact .creates c t pri ret here
  | osStartThread t => exact check_outcome here (.start t fresh) ok
  | osStopThread =>
      obtain ⟨w, cp, caller, busy, owner, rfl⟩ := runNextThreadAndWait_ok ok
      exact .stops c w cp ret here caller busy owner
  | osDestroyThread t =>
      simp only [guestCall, osDestroyThread] at ok
      split at ok
      · exact tail_outcome (.inl ⟨ret, here⟩) ok
      · rename_i other
        cases ok
        exact .destroys c t _ ret here rfl other
  | osSetThreadPri t pri => exact osSetThreadPri_outcome here ok
  | mesg op block =>
      cases ok
      exact .proceeds c _ (.drain op block) k.memory here (.nothing fresh) (fun _ => by simp)
        fun _ drain => by simp at drain
  | idle external => exact check_outcome here (handOnOption_acts fresh external) ok
  | schedulerTick external skip =>
      have acts := handOnOption_acts (k := k) (c := c)
        (l := (.call c (.schedulerTick external skip) : Label layout)) fresh external
      cases skip with
      | true =>
          cases ok
          exact .proceeds c _ (.guest 0) _ here acts (fun _ => by simp)
            fun _ _ => .inr (.inr ⟨external, rfl⟩)
      | false =>
          rcases yieldToAnyQueued_ok ok with ⟨settled, rfl⟩ | ⟨w, cp, caller, busy, owner, rfl⟩
          · exact .proceeds c _ (.guest 0) _ here acts (fun _ => by simp) fun _ _ => .inl settled
          · exact .swaps c w cp _ 0 _ _ here acts busy (.inr rfl) (.inr ⟨external, rfl⟩) caller owner
  | exit => exact tail_outcome (.inl ⟨ret, here⟩) ok

theorem wakeResumed_outcome {on : ContextId} (here : k.pc c = .waiting on after)
    (signalled : 0 < (k.context on).running) :
    Outcome k (.wake c : Label layout) (wakeResumed k c on after) := by
  have own : ((k.consume on).thread c).context = (k.thread c).context := by
    simp [Kernel.thread]
  unfold wakeResumed
  dsimp only
  split
  · rename_i current
    have kept : (k.consume on).self c = k.self c := consume_self k c on
    have outcome : Outcome k (.wake c : Label layout) _ :=
      .wakes c on after here signalled (own ▸ current)
    rw [← kept] at outcome
    exact outcome
  · rename_i stale
    exact .wakesStale c on after here signalled (own ▸ stale)

/-- The outcomes are all there are. -/
theorem step_outcome (taken : step k l = some k') : k.halted = none ∧ Outcome k l k' := by
  unfold step at taken
  split at taken
  · contradiction
  rename_i alive
  refine ⟨by simpa using alive, ?_⟩
  have settled : ∀ result, k.settle result = k' →
      (∀ next, result = .ok next → Outcome k l next) → Outcome k l k' := by
    intro result settle good
    rcases settle_cases settle with ⟨halt, rfl⟩ | ok
    · exact .aborts l halt
    · exact good k' ok
  cases l with
  | outsideCreate t pri =>
      simp only [enabledStep] at taken
      split at taken
      · contradiction
      · rename_i closed
        cases taken
        exact .outsideCreate t pri (by simpa using closed)
  | outsideStart t =>
      simp only [enabledStep] at taken
      split at taken
      · contradiction
      · rename_i closed
        refine settled _ (Option.some.inj taken) fun next ok => ?_
        cases ran : osStartThreadOutside k t.val with
        | error halt => rw [ran] at ok; contradiction
        | ok middle =>
            rw [ran] at ok
            obtain ⟨cp, owner, rfl⟩ := resumeThread_ok ran
            cases ok
            refine .outsideStart t cp (by simpa using closed) ?_
            rw [← owner]
            exact (setState_context ..).symm
  | wake c =>
      simp only [enabledStep] at taken
      split at taken
      · rename_i on after here
        split at taken
        · rename_i signalled
          cases taken
          exact wakeResumed_outcome here signalled
        · contradiction
      · contradiction
  | unwind c =>
      simp only [enabledStep] at taken
      split at taken
      · rename_i here
        exact settled _ (Option.some.inj taken) fun next ok => tail_outcome (.inr here) ok
      · contradiction
  | call c what =>
      simp only [enabledStep] at taken
      split at taken
      · rename_i ret here
        exact settled _ (Option.some.inj taken) fun next ok => guestCall_outcome here ok
      · contradiction
  | deliver c msg =>
      simp only [enabledStep] at taken
      split at taken
      · rename_i op block here
        cases taken
        exact .proceeds c _ (.drain op block) _ here
          (doSend_acts (fun _ => by simp) msg.mq msg.mesg msg.jam) (fun _ => by simp)
          fun _ drain => by simp at drain
      · contradiction
  | drained c =>
      simp only [enabledStep] at taken
      split at taken
      · rename_i op block here
        exact settled _ (Option.some.inj taken) fun next ok =>
          mesgTransfer_outcome here (fun _ => by simp) ok
      · contradiction
  | retest c =>
      simp only [enabledStep] at taken
      split at taken
      · rename_i op here
        exact settled _ (Option.some.inj taken) fun next ok =>
          mesgBlock_outcome here (fun _ same => (Cont.retest.inj same).symm) ok
      · contradiction

end Complete

end N64ModernRuntime.Ultramodern
