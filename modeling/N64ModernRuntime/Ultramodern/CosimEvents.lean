import Mathlib.Data.Prod.Lex
import N64ModernRuntime.Lib.DueQueue
import N64ModernRuntime.Ultramodern.Events
import N64ModernRuntime.Ultramodern.Timer

/-!
# The co-simulation clock and its RCP events

timer.cpp and events.cpp as they are built with N64_COSIM: a tick counter that
the host advances, VI retraces that are handed out as tokens, and a vector of
events that are delivered when the counter has reached their due cycle.
-/

set_option autoImplicit false

namespace N64ModernRuntime.Ultramodern

inductive CosimRcpEventKind where
  | spComplete
  | dpComplete
  | viRetrace
  | aiEvent
  deriving DecidableEq, Repr

structure CosimRcpEvent where
  dueCycle : UInt64
  seq : UInt64
  gfxSeq : UInt64
  taskType : UInt32
  mq : Ptr
  msg : OSMesg
  kind : CosimRcpEventKind
  deriving DecidableEq, Repr

def mGfxTask : UInt32 := 1

def mAudTask : UInt32 := 2

/-- The suffixes of `cosim_scheduled_` and `cosim_delivered_`. -/
inductive CosimCounter where
  | sp
  | dp
  | vi
  | ai
  | spGfx
  | spAudio
  | spOther
  deriving DecidableEq, Repr

abbrev CosimCounts := CosimCounter → UInt64

def countedIn (kind : CosimRcpEventKind) (taskType : UInt32) : CosimCounter → Bool
  | .sp => decide (kind = .spComplete)
  | .dp => decide (kind = .dpComplete)
  | .vi => decide (kind = .viRetrace)
  | .ai => decide (kind = .aiEvent)
  | .spGfx => decide (kind = .spComplete ∧ taskType = mGfxTask)
  | .spAudio => decide (kind = .spComplete ∧ taskType ≠ mGfxTask ∧ taskType = mAudTask)
  | .spOther => decide (kind = .spComplete ∧ taskType ≠ mGfxTask ∧ taskType ≠ mAudTask)

def CosimRcpEvent.counted (ev : CosimRcpEvent) (counter : CosimCounter) : Bool :=
  countedIn ev.kind ev.taskType counter

def CosimCounts.count (counts : CosimCounts) (ev : CosimRcpEvent) : CosimCounts :=
  fun counter => if ev.counted counter then counts counter + 1 else counts counter

/-- A delivered event, with the clock and the rendered sequence it met and the
message that was posted for it. -/
structure CosimDelivery where
  event : CosimRcpEvent
  now : UInt64
  rendered : UInt64
  post : Post
  deriving DecidableEq, Repr

def counterPerVi : UInt64 := 781250

/-- The last four fields are no variables of the source: the events scheduled
and delivered since the last `reset_rcp_events`, and since the last
`reset_vi_counter` the tokens accepted and the clock at each VI. -/
structure Cosim where
  timeTicks : UInt64
  cpuRetired : UInt64
  cpuModelEvents : UInt64
  totalVis : UInt64
  remainingRetraces : Int
  dummyOdd : Bool
  viTokens : UInt32
  nextViCycle : UInt64
  viNeedsRebase : Bool
  viControlEnabled : Bool
  rcpEvents : List CosimRcpEvent
  rcpNextSeq : UInt64
  gfxNextSeq : UInt64
  gfxRenderedSeq : UInt64
  viAdvancing : Bool
  scheduled : CosimCounts
  delivered : CosimCounts
  context : EventsContext
  gameStarted : Bool
  scheduledLog : List CosimRcpEvent
  deliveredLog : List CosimDelivery
  viAccepted : Nat
  viClock : List UInt64

namespace Cosim

/-! ## timer.cpp -/

def syncTimeFloor (s : Cosim) : Cosim :=
  -- `total_vis * counter_per_vi`; the kernel would unfold a product by a large literal
  let viFloor := counterPerVi * s.totalVis
  if s.timeTicks < viFloor then { s with timeTicks := viFloor } else s

def resetTime (s : Cosim) : Cosim := { s with timeTicks := 0, cpuRetired := 0, cpuModelEvents := 0 }

def getTimeTicks (s : Cosim) : UInt64 := s.syncTimeFloor.timeTicks

def advanceTimeTicks (s : Cosim) (ticks : UInt64) : Cosim :=
  if ticks = 0 then s
  else
    let s := s.syncTimeFloor
    { s with timeTicks := s.timeTicks + ticks }

/-- The advance to a cycle that may have passed. -/
def advanceTo (s : Cosim) (due : UInt64) : Cosim :=
  if s.timeTicks < due then s.advanceTimeTicks (due - s.timeTicks) else s

def advanceCpuCycles (s : Cosim) (retired cycles : UInt64) : Cosim :=
  let s := if retired ≠ 0 then { s with cpuRetired := s.cpuRetired + retired } else s
  let s :=
    if retired ≠ 0 ∨ cycles ≠ 0 then { s with cpuModelEvents := s.cpuModelEvents + 1 } else s
  s.advanceTimeTicks cycles

/-! ## Scheduling -/

/-- What the two scheduling functions share. -/
def push (s : Cosim) (kind : CosimRcpEventKind) (taskType : UInt32) (gfxSeq : UInt64) (mq : Ptr)
    (msg : OSMesg) (delay : UInt64) : Cosim :=
  let s := s.syncTimeFloor
  let ev : CosimRcpEvent :=
    { dueCycle := s.timeTicks + delay, seq := s.rcpNextSeq, gfxSeq := gfxSeq, taskType := taskType
      mq := mq, msg := msg, kind := kind }
  { s with
    rcpNextSeq := s.rcpNextSeq + 1
    rcpEvents := s.rcpEvents ++ [ev]
    scheduled := s.scheduled.count ev
    scheduledLog := s.scheduledLog ++ [ev] }

def scheduleRcpEvent (s : Cosim) (kind : CosimRcpEventKind) (taskType : UInt32) (delay : UInt64)
    (gfxSeq : UInt64) : Cosim :=
  s.push kind taskType gfxSeq nullptr 0 delay

def scheduleQueueEvent (s : Cosim) (kind : CosimRcpEventKind) (mq : Ptr) (msg : OSMesg)
    (delay : UInt64) : Cosim :=
  if mq = nullptr then s else s.push kind 0 0 mq msg delay

/-- The gfx thread has sent the display list of a task. -/
def gfxRendered (s : Cosim) (gfxSeq : UInt64) : Cosim :=
  if gfxSeq ≠ 0 ∧ s.gfxRenderedSeq < gfxSeq then { s with gfxRenderedSeq := gfxSeq } else s

def resetRcpEvents (s : Cosim) : Cosim :=
  { s with
    rcpEvents := [], rcpNextSeq := 0, gfxNextSeq := 0, gfxRenderedSeq := 0, viAdvancing := false
    scheduled := fun _ => 0, delivered := fun _ => 0, scheduledLog := [], deliveredLog := [] }

/-! ## Delivery -/

def earlier (ev best : CosimRcpEvent) : Bool :=
  decide (ev.dueCycle < best.dueCycle) ||
    (decide (ev.dueCycle = best.dueCycle) && decide (ev.seq < best.seq))

def isDue (now : UInt64) (ev : CosimRcpEvent) : Bool := !decide (now < ev.dueCycle)

/-- A DP completion whose display list has not been sent. -/
def blocked (rendered : UInt64) (ev : CosimRcpEvent) : Bool :=
  decide (ev.kind = .dpComplete) && decide (ev.gfxSeq ≠ 0) && decide (rendered < ev.gfxSeq)

def erase (s : Cosim) (best : Nat) : Cosim := { s with rcpEvents := s.rcpEvents.eraseIdx best }

def popDueRcpEvent (s : Cosim) (now : UInt64) : Option (CosimRcpEvent × Cosim) :=
  match DueQueue.best (isDue now) earlier s.rcpEvents with
  | none => none
  | some (bestEv, best) =>
      if blocked s.gfxRenderedSeq bestEv then none
      else some (bestEv, s.erase best)

/-- The message posted for an event; `sp_complete` and `dp_complete` look their
queue up, the others carry it. -/
def postOf (context : EventsContext) (ev : CosimRcpEvent) : Post :=
  match ev.kind with
  | .spComplete => ⟨context.sp.mq, context.sp.msg, false⟩
  | .dpComplete => ⟨context.dp.mq, context.dp.msg, false⟩
  | .viRetrace => ⟨ev.mq, ev.msg, true⟩
  | .aiEvent => ⟨ev.mq, ev.msg, false⟩

def delivery (s : Cosim) (ev : CosimRcpEvent) : CosimDelivery :=
  { event := ev, now := s.timeTicks, rendered := s.gfxRenderedSeq, post := postOf s.context ev }

def deliver (s : Cosim) (ev : CosimRcpEvent) : Cosim :=
  { s with
    delivered := s.delivered.count ev, deliveredLog := s.deliveredLog ++ [s.delivery ev] }

/-- The pop at the cycle the clock shows. -/
def popNow (s : Cosim) : Option CosimRcpEvent × Cosim :=
  match s.popDueRcpEvent s.timeTicks with
  | none => (none, s)
  | some (ev, popped) => (some ev, popped)

/-- The body of the delivery loop, `next` being the rounds behind it; the first
component counts the events delivered. -/
def deliverRound (next : Cosim → UInt32 × Cosim) (s : Cosim) : UInt32 × Cosim :=
  match s.popNow with
  | (none, s) => (0, s)
  | (some ev, popped) =>
      let behind := next (popped.deliver ev)
      (behind.1 + 1, behind.2)

/-- The loop of `ultramodern_cosim_deliver_due_rcp_events`; the clock is read
in every round. -/
def deliverLoop : Nat → Cosim → UInt32 × Cosim
  | 0, s => (0, s)
  | fuel + 1, s => deliverRound (deliverLoop fuel) s.syncTimeFloor

/-- Every round but the last takes an event out. -/
def deliverDueRcpEvents (s : Cosim) : UInt32 × Cosim := deliverLoop (s.rcpEvents.length + 1) s

/-- `submit_rsp_task`; a graphics task has been rendered when the call goes on.
The delays come from the environment. -/
def submitRspTask (s : Cosim) (taskType : UInt32) (gfxSpDelay gfxDpDelay rspSpDelay : UInt64) :
    Cosim :=
  if taskType = mGfxTask then
    let gfxSeq := s.gfxNextSeq + 1
    let s := ({ s with gfxNextSeq := gfxSeq } : Cosim).gfxRendered gfxSeq
    let s := s.scheduleRcpEvent .spComplete taskType gfxSpDelay 0
    s.scheduleRcpEvent .dpComplete taskType gfxDpDelay gfxSeq
  else s.scheduleRcpEvent .spComplete taskType rspSpDelay 0

/-! ## VI retraces -/

/-- The rebase of the first request after a `reset_vi_counter`. -/
def rebase (s : Cosim) : Cosim :=
  if s.viNeedsRebase then
    { s with
      totalVis := 0, remainingRetraces := 1, nextViCycle := counterPerVi, viNeedsRebase := false }
  else s

def acceptViTokens (s : Cosim) (accepted : UInt32) : Cosim :=
  { s with viTokens := s.viTokens + accepted, viAccepted := s.viAccepted + accepted.toNat }

/-- The number of tokens accepted -/
def requestVi (s : Cosim) (count : UInt32) : UInt32 × Cosim :=
  if count = 0 ∨ ¬ s.gameStarted then (0, s)
  else
    let s := s.rebase
    let room := 0xFFFFFFFF - s.viTokens
    let accepted := if room < count then room else count
    (accepted, s.acceptViTokens accepted)

def resetViCounter (s : Cosim) : Cosim :=
  { s with
    viTokens := 0, viNeedsRebase := true, viControlEnabled := true, totalVis := 0
    remainingRetraces := 1, nextViCycle := counterPerVi, viAccepted := 0, viClock := [] }

/-- `ultramodern_cosim_advance_vi` up to the flip of the VI state. -/
def flipVi (s : Cosim) : Cosim :=
  let s := { s with viAdvancing := true, totalVis := s.totalVis + 1 }
  let s :=
    if s.context.vi.next.mode = none then
      { s with
        context := { s.context with vi := s.context.vi.setDummy s.dummyOdd }
        dummyOdd := !s.dummyOdd }
    else s
  { s with context := { s.context with vi := s.context.vi.updateVi } }

/-- The countdown of `ultramodern_cosim_advance_vi`. -/
def countRetrace (s : Cosim) : Cosim :=
  let curState := s.context.vi.curr
  let s := { s with remainingRetraces := s.remainingRetraces - 1 }
  if s.remainingRetraces ≤ 0 then
    let s :=
      if curState.mq ≠ nullptr then s.scheduleQueueEvent .viRetrace curState.mq curState.msg 0
      else s
    { s with remainingRetraces := if 0 < curState.retraceCount then curState.retraceCount else 1 }
  else s

def audioEvent (s : Cosim) : Cosim :=
  if s.context.ai.mq ≠ nullptr then
    s.scheduleQueueEvent .aiEvent s.context.ai.mq s.context.ai.msg 0
  else s

def advanceVi (s : Cosim) : Cosim :=
  { s.flipVi.countRetrace.audioEvent with viAdvancing := false }

def spendViToken (s : Cosim) : Cosim :=
  { s with
    viTokens := s.viTokens - 1, nextViCycle := s.nextViCycle + counterPerVi
    viClock := s.viClock ++ [s.timeTicks] }

/-- `ultramodern_cosim_advance_due_vi` up to the VI itself; `false` when it returns 0. -/
def takeViToken (s : Cosim) (allowTimeAdvance : UInt32) : Bool × Cosim :=
  if ¬ s.viControlEnabled ∨ ¬ s.gameStarted then (false, s)
  else
    let s := s.rebase
    if s.viTokens = 0 then (false, s)
    else
      let s := s.syncTimeFloor
      let due := s.nextViCycle
      if s.timeTicks < due ∧ allowTimeAdvance = 0 then (false, s)
      else
        let s := (s.advanceTo due).syncTimeFloor
        if s.timeTicks < s.nextViCycle then (false, s)
        else (true, s.spendViToken)

def advanceDueVi (s : Cosim) (allowTimeAdvance : UInt32) : UInt32 × Cosim :=
  let taken := s.takeViToken allowTimeAdvance
  if taken.1 then
    let delivered := taken.2.advanceVi.deliverDueRcpEvents
    (1 + delivered.1, delivered.2)
  else (0, taken.2)

/-! ## What is due -/

def viDueNow (s : Cosim) : Bool × Cosim :=
  if ¬ s.viControlEnabled ∨ ¬ s.gameStarted ∨ s.viTokens = 0 then (false, s)
  else
    let due := if s.viNeedsRebase then counterPerVi else s.nextViCycle
    let s := s.syncTimeFloor
    (decide (due ≤ s.timeTicks), s)

def rcpEventDue (s : Cosim) : UInt32 × Cosim :=
  if s.viAdvancing then (1, s)
  else
    let viDue := s.viDueNow
    if viDue.1 then (1, viDue.2)
    else
      let s := viDue.2.syncTimeFloor
      let deliverable := s.rcpEvents.any fun ev =>
        isDue s.timeTicks ev && !blocked s.gfxRenderedSeq ev
      (if deliverable then 1 else 0, s)

def nextRcpDue (s : Cosim) : Option UInt64 :=
  match s.rcpEvents with
  | [] => none
  | first :: _ =>
      some (s.rcpEvents.foldl
        (fun best ev => if earlier ev best then ev else best) first).dueCycle

def nextViDue (s : Cosim) : Option UInt64 :=
  if ¬ s.viControlEnabled ∨ ¬ s.gameStarted ∨ s.viTokens = 0 then none
  else some (if s.viNeedsRebase then counterPerVi else s.nextViCycle)

def advanceToNextRcpEvent (s : Cosim) : UInt32 × Cosim :=
  let vi := s.advanceDueVi 0
  let rcp := vi.2.deliverDueRcpEvents
  if vi.1 + rcp.1 ≠ 0 then (vi.1 + rcp.1, rcp.2)
  else
    let s := rcp.2
    let rcpDue := s.nextRcpDue
    let viDue := s.nextViDue
    if rcpDue = none ∧ viDue = none then (0, s)
    else
      let s := s.syncTimeFloor
      if viDue.isSome ∧ (rcpDue = none ∨ viDue.getD 0 ≤ rcpDue.getD 0) then
        (s.advanceTo (viDue.getD 0)).advanceDueVi 0
      else (s.advanceTo (rcpDue.getD 0)).deliverDueRcpEvents

def boot : Cosim where
  timeTicks := 0
  cpuRetired := 0
  cpuModelEvents := 0
  totalVis := 0
  remainingRetraces := 1
  dummyOdd := false
  viTokens := 0
  nextViCycle := 0
  viNeedsRebase := true
  viControlEnabled := false
  rcpEvents := []
  rcpNextSeq := 0
  gfxNextSeq := 0
  gfxRenderedSeq := 0
  viAdvancing := false
  scheduled := fun _ => 0
  delivered := fun _ => 0
  context := {}
  gameStarted := false
  scheduledLog := []
  deliveredLog := []
  viAccepted := 0
  viClock := []

end Cosim

inductive CosimOp where
  | resetTime
  | advanceTimeTicks (ticks : UInt64)
  | advanceCpuCycles (retired cycles : UInt64)
  | scheduleRcpEvent (kind : CosimRcpEventKind) (taskType : UInt32) (delay gfxSeq : UInt64)
  | scheduleQueueEvent (kind : CosimRcpEventKind) (mq : Ptr) (msg : OSMesg) (delay : UInt64)
  | submitRspTask (taskType : UInt32) (gfxSpDelay gfxDpDelay rspSpDelay : UInt64)
  | gfxRendered (gfxSeq : UInt64)
  | deliverDueRcpEvents
  | rcpEventDue
  | requestVi (count : UInt32)
  | resetViCounter
  | advanceDueVi (allowTimeAdvance : UInt32)
  | advanceToNextRcpEvent
  | osViSetEvent (mq : Ptr) (msg : OSMesg) (retraceCount : UInt32)
  | osSetEventMesg (event : OSEvent) (mq : Ptr) (msg : OSMesg)
  | startGame
  deriving DecidableEq, Repr

def Cosim.perform (s : Cosim) : CosimOp → Cosim
  | .resetTime => s.resetTime
  | .advanceTimeTicks ticks => s.advanceTimeTicks ticks
  | .advanceCpuCycles retired cycles => s.advanceCpuCycles retired cycles
  | .scheduleRcpEvent kind taskType delay gfxSeq => s.scheduleRcpEvent kind taskType delay gfxSeq
  | .scheduleQueueEvent kind mq msg delay => s.scheduleQueueEvent kind mq msg delay
  | .submitRspTask taskType gfxSp gfxDp rspSp => s.submitRspTask taskType gfxSp gfxDp rspSp
  | .gfxRendered gfxSeq => s.gfxRendered gfxSeq
  | .deliverDueRcpEvents => s.deliverDueRcpEvents.2
  | .rcpEventDue => s.rcpEventDue.2
  | .requestVi count => (s.requestVi count).2
  | .resetViCounter => s.resetViCounter
  | .advanceDueVi allowTimeAdvance => (s.advanceDueVi allowTimeAdvance).2
  | .advanceToNextRcpEvent => s.advanceToNextRcpEvent.2
  | .osViSetEvent mq msg count => { s with context := s.context.osViSetEvent mq msg count }
  | .osSetEventMesg event mq msg => { s with context := s.context.osSetEventMesg event mq msg }
  | .startGame => { s with gameStarted := true }

def cosimStep (s : Cosim) (op : CosimOp) : Option Cosim := some (s.perform op)

end N64ModernRuntime.Ultramodern
