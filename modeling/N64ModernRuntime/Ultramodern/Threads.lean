import N64ModernRuntime.Lib.Transition
import N64ModernRuntime.Ultramodern.Mesgqueue

/-!
# threads.cpp, scheduling.cpp and the blocking calls of mesgqueue.cpp

Every OSThread is run by a host thread of its own, created together with an
`UltraThreadContext` whose `running` semaphore the host thread sleeps on.  The
code between two waits on such a semaphore is one step; a step that hands the
CPU over signals the next context and leaves its own host thread waiting.
`Pc` says where each host thread is, `Cont` what it does once it has the CPU.
-/

set_option autoImplicit false

namespace N64ModernRuntime.Ultramodern

inductive MesgOp where
  | send (mq : Ptr) (msg : OSMesg) (jam : Bool)
  | recv (mq : Ptr)
  deriving DecidableEq, Repr

inductive Cont where
  /-- in the guest's own code; the last API call returned `ret` -/
  | guest (ret : Int)
  /-- in `dequeue_external_messages` at the head of a message call -/
  | drain (op : MesgOp) (block : Bool)
  /-- woken in the blocking loop of `do_send` or `do_recv`, about to test again -/
  | retest (op : MesgOp)
  deriving DecidableEq, Repr

inductive Pc where
  | running (after : Cont)
  /-- in `wait_for_resumed(on)` -/
  | waiting (on : ContextId) (after : Cont)
  /-- `thread_terminated` is on its way to `run_game_thread` -/
  | unwinding
  | finished
  deriving DecidableEq, Repr

/-- A context together with its host thread; `self` is the host thread's `thread_self`. -/
structure UltraThreadContext where
  self : Ptr := nullptr
  running : Nat := 0
  pc : Pc := .finished
  deriving DecidableEq, Repr

/-- What ends the process: the exception of `run_next_thread`, which nothing
catches, or a read through a null pointer. -/
inductive Halt where
  | noRunnableThreads
  | nullDereference
  deriving DecidableEq, Repr

/-- Contexts are numbered in the order of their creation and never reused. -/
structure Kernel where
  memory : Memory
  context : ContextId → UltraThreadContext
  contexts : Nat
  started : Bool
  halted : Option Halt

def Kernel.self (k : Kernel) (c : ContextId) : Ptr := (k.context c).self

def Kernel.pc (k : Kernel) (c : ContextId) : Pc := (k.context c).pc

def Kernel.thread (k : Kernel) (c : ContextId) : OSThread := k.memory.thread (k.self c)

def Kernel.modifyContext (k : Kernel) (c : ContextId)
    (f : UltraThreadContext → UltraThreadContext) : Kernel :=
  { k with context := fun d => if d = c then f (k.context c) else k.context d }

def Kernel.setPc (k : Kernel) (c : ContextId) (pc : Pc) : Kernel :=
  k.modifyContext c fun context => { context with pc := pc }

def Kernel.signal (k : Kernel) (c : ContextId) : Kernel :=
  k.modifyContext c fun context => { context with running := context.running + 1 }

def Kernel.withMemory (k : Kernel) (m : Memory) : Kernel := { k with memory := m }

/-- `t->context = nullptr` -/
def Memory.clearContext (m : Memory) (t : Ptr) : Memory :=
  m.modifyThread t fun thread => { thread with context := none }

def Memory.setState (m : Memory) (t : Ptr) (state : OSThreadState) : Memory :=
  m.modifyThread t fun thread => { thread with state := state }

def Memory.setPriority (m : Memory) (t : Ptr) (pri : OSPri) : Memory :=
  m.modifyThread t fun thread => { thread with priority := pri }

/-! ## threads.cpp, scheduling.cpp -/

def resumeThread (k : Kernel) (t : Ptr) : Except Halt Kernel :=
  match (k.memory.thread t).context with
  | none => .error .nullDereference
  | some c => .ok (k.signal c)

def runNextThread (k : Kernel) : Except Halt Kernel :=
  if threadQueueEmpty k.memory .running then .error .noRunnableThreads
  else
    let popped := threadQueuePop k.memory .running
    resumeThread (k.withMemory popped.2) popped.1

def runNextThreadAndWait (k : Kernel) (c : ContextId) (after : Cont) : Except Halt Kernel :=
  match (k.thread c).context with
  | none => .error .nullDereference
  | some callerCtx => (runNextThread k).map fun k => k.setPc c (.waiting callerCtx after)

def resumeThreadAndWait (k : Kernel) (c : ContextId) (t : Ptr) (after : Cont) :
    Except Halt Kernel :=
  match (k.thread c).context with
  | none => .error .nullDereference
  | some callerCtx => (resumeThread k t).map fun k => k.setPc c (.waiting callerCtx after)

def swapToThread (k : Kernel) (c : ContextId) (target : Ptr) (after : Cont) :
    Except Halt Kernel :=
  resumeThreadAndWait (k.withMemory (scheduleRunningThread k.memory (k.self c))) c target after

/-- The last act of an API call that returns `ret`. -/
def checkRunningQueue (k : Kernel) (c : ContextId) (ret : Int) : Except Halt Kernel :=
  if threadQueueEmpty k.memory .running then .ok (k.setPc c (.running (.guest ret)))
  else
    let next := threadQueuePeek k.memory .running
    if (k.thread c).priority < (k.memory.thread next).priority then
      swapToThread (k.withMemory (threadQueuePop k.memory .running).2) c next (.guest ret)
    else .ok (k.setPc c (.running (.guest ret)))

/-- scheduler_tick.cpp -/
def yieldToAnyQueued (k : Kernel) (c : ContextId) : Except Halt Kernel :=
  if threadQueueEmpty k.memory .running then .ok (k.setPc c (.running (.guest 0)))
  else
    let popped := threadQueuePop k.memory .running
    swapToThread (k.withMemory popped.2) c popped.1 (.guest 0)

/-- The end of `run_game_thread`, reached when the body returns or unwinds. -/
def runGameThreadTail (k : Kernel) (c : ContextId) : Except Halt Kernel :=
  if (k.thread c).context = some c then
    (runNextThread (k.withMemory (k.memory.clearContext (k.self c)))).map fun k =>
      k.setPc c .finished
  else .ok (k.setPc c .finished)

def osCreateThread (k : Kernel) (t : Ptr) (pri : OSPri) : Kernel :=
  { k with
    memory := k.memory.modifyThread t fun _ =>
      { next := nullptr, queue := none, priority := pri, state := .stopped
        context := some k.contexts }
    context := fun d =>
      if d = k.contexts then { self := t, running := 0, pc := .waiting k.contexts (.guest 0) }
      else k.context d
    contexts := k.contexts + 1 }

/-- `osStartThread` on a game thread -/
def osStartThread (k : Kernel) (c : ContextId) (t : Ptr) : Except Halt Kernel :=
  checkRunningQueue (k.withMemory (scheduleRunningThread k.memory t)) c 0

/-- `osStartThread` where `thread_self` is null -/
def osStartThreadOutside (k : Kernel) (t : Ptr) : Except Halt Kernel :=
  resumeThread (k.withMemory (k.memory.setState t .queued)) t

/-- `osStopThread` on the calling thread, the supported case -/
def osStopThread (k : Kernel) (c : ContextId) : Except Halt Kernel :=
  runNextThreadAndWait k c (.guest 0)

/-- `osDestroyThread` takes a thread that is not STOPPED off its queue. -/
def detach (m : Memory) (t : Ptr) : Memory :=
  if (m.thread t).state ≠ .stopped then (threadQueueRemove m (m.thread t).queue t).2 else m

/-- The destroy of another thread: its context is cleared and its host thread woken. -/
def osDestroyOther (k : Kernel) (t : Ptr) : Kernel :=
  let memory := detach k.memory t
  match (memory.thread t).context with
  | none => k.withMemory memory
  | some targetCtx => (k.withMemory (memory.clearContext t)).signal targetCtx

/-- A destroy of the calling thread throws `thread_terminated`, which
`run_game_thread` catches. -/
def osDestroyThread (k : Kernel) (c : ContextId) (t : Option Ptr) : Except Halt Kernel :=
  let t := t.getD (k.self c)
  if t = k.self c then runGameThreadTail k c
  else .ok ((osDestroyOther k t).setPc c (.running (.guest 0)))

/-- The insert takes the thread's queue as the remove left it: after a
successful remove that is NULL. -/
def osSetThreadPri (k : Kernel) (c : ContextId) (t : Option Ptr) (pri : OSPri) :
    Except Halt Kernel :=
  let t := t.getD (k.self c)
  let thread := k.memory.thread t
  if thread.priority ≠ pri then
    let memory := k.memory.setPriority t pri
    if t ≠ k.self c ∧ thread.state ≠ .stopped then
      let removed := (threadQueueRemove memory thread.queue t).2
      match (removed.thread t).queue with
      | none => .error .nullDereference
      | some queue => checkRunningQueue (k.withMemory (threadQueueInsert removed queue t)) c 0
    else checkRunningQueue (k.withMemory memory) c 0
  else .ok (k.setPc c (.running (.guest 0)))

/-! ## The message calls -/

/-- One pass of the blocking loop of `do_send` or `do_recv`: park, or do the transfer. -/
def mesgBlock (k : Kernel) (c : ContextId) (op : MesgOp) : Except Halt Kernel :=
  match op with
  | .send mq msg jam =>
      if mqIsFull (k.memory.mesgQueue mq).toMesgRing then
        runNextThreadAndWait
          (k.withMemory (threadQueueInsert k.memory (.blockedOnSend mq) (k.self c))) c (.retest op)
      else checkRunningQueue (k.withMemory (sendInto k.memory mq msg jam)) c 0
  | .recv mq =>
      if mqIsEmpty (k.memory.mesgQueue mq).toMesgRing then
        runNextThreadAndWait
          (k.withMemory (threadQueueInsert k.memory (.blockedOnRecv mq) (k.self c))) c (.retest op)
      else checkRunningQueue (k.withMemory (recvFrom k.memory mq)) c 0

/-- A message call from the point where its drain is over. -/
def mesgTransfer (k : Kernel) (c : ContextId) (op : MesgOp) (block : Bool) : Except Halt Kernel :=
  match op, block with
  | .send mq msg jam, false =>
      let (sent, memory) := doSend k.memory mq msg jam
      checkRunningQueue (k.withMemory memory) c (if sent then 0 else -1)
  | .recv mq, false =>
      let (received, memory) := doRecv k.memory mq
      checkRunningQueue (k.withMemory memory) c (if received.isSome then 0 else -1)
  | .send mq _ _, true =>
      if sendGuard k.memory mq then mesgBlock k c op else checkRunningQueue k c (-1)
  | .recv _, true => mesgBlock k c op

structure QueuedMessage where
  mq : Ptr
  mesg : OSMesg
  jam : Bool
  coalescible : Bool
  deriving DecidableEq, Repr

/-- The non-blocking send with which every consumer of the external queue
hands a message on. -/
def handOn (m : Memory) (msg : QueuedMessage) : Bool × Memory := doSend m msg.mq msg.mesg msg.jam

def handOnOption (m : Memory) : Option QueuedMessage → Memory
  | none => m
  | some msg => (handOn m msg).2

/-! ## The thread machine -/

variable (layout : ThreadLayout)

inductive GuestCall where
  | osCreateThread (t : layout.Thread) (pri : OSPri)
  | osStartThread (t : layout.Thread)
  | osStopThread
  | osDestroyThread (t : Option layout.Thread)
  | osSetThreadPri (t : Option layout.Thread) (pri : OSPri)
  | mesg (op : MesgOp) (block : Bool)
  /-- `yield_self`, `yield_self_1ms`, a round of `pause_self`, and the tick
  without a yield request: at most one external message, then the check -/
  | idle (external : Option QueuedMessage)
  /-- the tick on a yield request; `skip` is the RSP poll that returns early -/
  | schedulerTick (external : Option QueuedMessage) (skip : Bool)
  /-- the thread's entry point returns -/
  | exit

inductive Label where
  | outsideCreate (t : layout.Thread) (pri : OSPri)
  | outsideStart (t : layout.Thread)
  | wake (c : ContextId)
  | unwind (c : ContextId)
  | call (c : ContextId) (what : GuestCall layout)
  | deliver (c : ContextId) (msg : QueuedMessage)
  | drained (c : ContextId)
  | retest (c : ContextId)

variable {layout}

def guestCall (k : Kernel) (c : ContextId) : GuestCall layout → Except Halt Kernel
  | .osCreateThread t pri =>
      .ok ((osCreateThread k t.val pri).setPc c (.running (.guest 0)))
  | .osStartThread t => osStartThread k c t.val
  | .osStopThread => osStopThread k c
  | .osDestroyThread t => osDestroyThread k c (t.map Subtype.val)
  | .osSetThreadPri t pri => osSetThreadPri k c (t.map Subtype.val) pri
  | .mesg op block => .ok (k.setPc c (.running (.drain op block)))
  | .idle external => checkRunningQueue (k.withMemory (handOnOption k.memory external)) c 0
  | .schedulerTick external skip =>
      let k := k.withMemory (handOnOption k.memory external)
      if skip then .ok (k.setPc c (.running (.guest 0))) else yieldToAnyQueued k c
  | .exit => runGameThreadTail k c

/-- `wait_for_resumed(on)` once the semaphore has a count to take. -/
def wakeResumed (k : Kernel) (c : ContextId) (on : ContextId) (after : Cont) : Kernel :=
  let k := k.modifyContext on fun context => { context with running := context.running - 1 }
  if (k.thread c).context = some on then
    (k.withMemory (k.memory.setState (k.self c) .running)).setPc c (.running after)
  else k.setPc c .unwinding

def Kernel.settle (k : Kernel) : Except Halt Kernel → Kernel
  | .ok next => next
  | .error halt => { k with halted := some halt }

def enabledStep (k : Kernel) : Label layout → Option Kernel
  | .outsideCreate t pri => if k.started then none else some (osCreateThread k t.val pri)
  | .outsideStart t =>
      if k.started then none
      else some (k.settle ((osStartThreadOutside k t.val).map fun k => { k with started := true }))
  | .wake c =>
      match k.pc c with
      | .waiting on after =>
          if 0 < (k.context on).running then some (wakeResumed k c on after) else none
      | _ => none
  | .unwind c =>
      match k.pc c with
      | .unwinding => some (k.settle (runGameThreadTail k c))
      | _ => none
  | .call c what =>
      match k.pc c with
      | .running (.guest _) => some (k.settle (guestCall k c what))
      | _ => none
  | .deliver c msg =>
      match k.pc c with
      | .running (.drain op block) =>
          some ((k.withMemory (handOn k.memory msg).2).setPc c (.running (.drain op block)))
      | _ => none
  | .drained c =>
      match k.pc c with
      | .running (.drain op block) => some (k.settle (mesgTransfer k c op block))
      | _ => none
  | .retest c =>
      match k.pc c with
      | .running (.retest op) => some (k.settle (mesgBlock k c op))
      | _ => none

def step (k : Kernel) (l : Label layout) : Option Kernel :=
  if k.halted.isSome then none else enabledStep k l

/-- No thread created, none waiting anywhere; the rings hold whatever they hold. -/
def bootMemory (rings : Ptr → MesgRing) : Memory where
  thread := fun _ => {}
  mesgQueue := fun mq =>
    { toMesgRing := rings mq, blockedOnRecv := nullptr, blockedOnSend := nullptr }
  runningQueueImpl := nullptr

def Kernel.boot (rings : Ptr → MesgRing) : Kernel where
  memory := bootMemory rings
  context := fun _ => {}
  contexts := 0
  started := false
  halted := none

def Booted (k : Kernel) : Prop := ∃ rings, k = Kernel.boot rings

/-! ## A small game, to run the machine on -/

def threeThreads : ThreadLayout where
  addrs := {0x80001000, 0x80002000, 0x80003000}
  valid := by
    simp only [Finset.forall_mem_insert, Finset.mem_singleton, forall_eq]
    decide
  apart := by
    simp only [Finset.forall_mem_insert, Finset.mem_singleton, forall_eq]
    decide

def threadA : threeThreads.Thread := ⟨0x80001000, by decide⟩
def threadB : threeThreads.Thread := ⟨0x80002000, by decide⟩
def threadC : threeThreads.Thread := ⟨0x80003000, by decide⟩

def smallQueue : Ptr := 0x80004000

def smallRings : Ptr → MesgRing := fun _ =>
  { validCount := 0, first := 0, msgCount := 1, msg := 0x80005000, slots := fun _ => 0 }

end N64ModernRuntime.Ultramodern
