import N64ModernRuntime.Ultramodern.CosimEvents
import N64ModernRuntime.Ultramodern.External

/-!
# sp.cpp, events.cpp: the tasks of the RSP

`osSpTaskStartGo` checks an OSTask and submits it.  A graphics task is copied
into the queue of the gfx thread, which reports that the RSP is done before it
draws and that the RDP is done after it; of any other task the SP thread is
given the address.  This is the build without co-simulation.  Of the actions
for the renderer only their place in the queue is kept, and the counters, the
logs and the SP_STATUS mirror are left out.
-/

set_option autoImplicit false

namespace N64ModernRuntime.Ultramodern

open Transition ProducerQueue

structure OSTask where
  type : UInt32
  flags : UInt32
  ucodeBoot : Ptr
  ucodeBootSize : UInt32
  ucode : Ptr
  ucodeSize : UInt32
  ucodeData : Ptr
  ucodeDataSize : UInt32
  dramStack : Ptr
  dramStackSize : UInt32
  outputBuff : Ptr
  outputBuffSize : Ptr
  dataPtr : Ptr
  dataSize : UInt32
  yieldDataPtr : Ptr
  yieldDataSize : UInt32
  deriving DecidableEq, Repr

def sizeofOSTask : UInt32 := 64

def mVidTask : UInt32 := 3

def mNjpegTask : UInt32 := 4

/-- `sp_task_log::RDRAM_SIZE` -/
def taskRdramSize : UInt32 := 8 * 1024 * 1024

def kMaxTaskDataSize : UInt32 := 0x100000

def rdramRange (vaddr size : UInt32) : Bool :=
  let paddr := vaddr &&& 0x1FFFFFFF
  decide (paddr < taskRdramSize) && decide (size ≤ taskRdramSize - paddr)

def knownTaskType (type : UInt32) : Bool :=
  decide (type = mGfxTask) || decide (type = mAudTask) || decide (type = mVidTask)
    || decide (type = mNjpegTask) || decide (type = 6)

def OSTask.dataShapeSane (task : OSTask) : Bool :=
  if task.dataSize = 0 ∨ task.dataSize > kMaxTaskDataSize then false
  else if task.dataPtr = nullptr ∨ ¬ rdramRange task.dataPtr task.dataSize then false
  else true

/-- `task_shape_runnable`, of a task that is not null -/
def OSTask.shapeRunnable (task : OSTask) : Bool :=
  let hasUcode := decide (task.ucode ≠ nullptr) && rdramRange task.ucode 1
  let hasBoot := decide (task.ucodeBoot ≠ nullptr) && decide (task.ucodeBootSize ≠ 0)
    && rdramRange task.ucodeBoot 1
  if ¬ knownTaskType task.type then false
  else if ¬ hasUcode ∧ ¬ hasBoot then false
  else if hasBoot then true
  else task.dataShapeSane

/-! ## The two threads and their queues -/

inductive GfxAction where
  | spTask (task : OSTask)
  | screenUpdate
  | updateConfig
  deriving DecidableEq, Repr

def GfxAction.task? : GfxAction → Option OSTask
  | .spTask task => some task
  | .screenUpdate | .updateConfig => none

inductive GfxPc where
  | looping
  | waiting
  | taken (task : OSTask)
  | drawing (task : OSTask)
  | drawn (task : OSTask)
  | ended
  deriving DecidableEq, Repr

inductive TaskPc where
  | waiting
  | running (task : Ptr)
  | ran (task : Ptr)
  | ended
  deriving DecidableEq, Repr

def gfxThread : Nat := 0

def taskThread : Nat := 1

/-- A call of `sp_complete` or `dp_complete`, with the event that was registered then. -/
structure GfxReport where
  event : OSEvent
  task : OSTask
  slot : EventSlot
  deriving DecidableEq, Repr

structure TaskReport where
  task : Ptr
  slot : EventSlot
  deriving DecidableEq, Repr

/-- `post_rcp_event` of a completion -/
def EventSlot.completion (slot : EventSlot) : QueuedMessage := ⟨slot.mq, slot.msg, false, false⟩

/-- `tasks` is the memory, where an OSTask is read.  A null pointer in the queue
of the SP thread is `none`.  The logs hold what was submitted and by which
thread, what the two threads have taken, and what they have reported. -/
structure TaskPipeline where
  tasks : Ptr → OSTask
  context : EventsContext
  exited : Bool
  actionQueue : Queue Nat GfxAction
  spTaskQueue : Queue Nat (Option Ptr)
  gfx : GfxPc
  task : TaskPc
  external : External
  gfxSubmitted : Queue Nat OSTask
  gfxTaken : Queue Nat OSTask
  gfxReports : List GfxReport
  rspSubmitted : Queue Nat Ptr
  rspTaken : Queue Nat Ptr
  rspReports : List TaskReport

variable (layout : ThreadLayout)

inductive PipelineLabel where
  | osSpTaskStartGo (thread : Nat) (task : Ptr)
  /-- any store to memory: by the game, by a microcode or by the renderer -/
  | store (tasks : Ptr → OSTask)
  | osSetEventMesg (event : OSEvent) (mq : Ptr) (msg : OSMesg)
  | screenUpdate (thread : Nat)
  | updateConfig (thread : Nat)
  | gfxThread (i : Option Nat)
  | taskThread (i : Nat)
  | quit
  | joinEventThreads (thread : Nat)
  | external (l : ExternalLabel layout)

variable {layout}

/-- What the other threads do; the two threads post nothing but completions. -/
def ExternalLabel.byOthers : ExternalLabel layout → Bool
  | .post thread _ => decide (thread ≠ gfxThread) && decide (thread ≠ taskThread)
  | _ => true

namespace TaskPipeline

def submitRspTask (s : TaskPipeline) (thread : Nat) (task : Ptr) : TaskPipeline :=
  if (s.tasks task).type = mGfxTask then
    { s with
      actionQueue := s.actionQueue.enqueue thread (.spTask (s.tasks task))
      gfxSubmitted := s.gfxSubmitted.enqueue thread (s.tasks task) }
  else
    { s with
      spTaskQueue := s.spTaskQueue.enqueue thread (some task)
      rspSubmitted := s.rspSubmitted.enqueue thread task }

def osSpTaskStartGo (s : TaskPipeline) (thread : Nat) (task : Ptr) : TaskPipeline :=
  if rdramRange task sizeofOSTask && (s.tasks task).shapeRunnable then s.submitRspTask thread task
  else s

/-- The dispatch on an action that was dequeued. -/
def startAction (s : TaskPipeline) (taken : Element Nat GfxAction × Queue Nat GfxAction) :
    TaskPipeline :=
  match taken.1.item with
  | .spTask task =>
      { s with
        actionQueue := taken.2
        gfx := .taken task
        gfxTaken := s.gfxTaken.enqueue taken.1.producer task }
  | .screenUpdate | .updateConfig => { s with actionQueue := taken.2, gfx := .looping }

def gfxReport (s : TaskPipeline) (event : OSEvent) (task : OSTask) (slot : EventSlot) (pc : GfxPc) :
    TaskPipeline :=
  { s with gfx := pc, gfxReports := s.gfxReports ++ [⟨event, task, slot⟩] }

def startTask (s : TaskPipeline) (taken : Element Nat (Option Ptr) × Queue Nat (Option Ptr)) :
    TaskPipeline :=
  match taken.1.item with
  | some task =>
      { s with
        spTaskQueue := taken.2
        task := .running task
        rspTaken := s.rspTaken.enqueue taken.1.producer task }
  | none => { s with spTaskQueue := taken.2, task := .ended }

def taskReport (s : TaskPipeline) (task : Ptr) : TaskPipeline :=
  { s with task := .waiting, rspReports := s.rspReports ++ [⟨task, s.context.sp⟩] }

variable (layout) in
/-- A piece of `gfx_thread_func`: what it does to the pipeline, and the post that
goes with it. -/
def gfxStep (s : TaskPipeline) (i : Option Nat) :
    Option (TaskPipeline × Option (ExternalLabel layout)) :=
  match s.gfx with
  | .looping => some ({ s with gfx := if s.exited then .ended else .waiting }, none)
  | .waiting =>
      match i with
      | none => some ({ s with gfx := .looping }, none)
      | some i => (s.actionQueue.dequeue i).map fun taken => (s.startAction taken, none)
  | .taken task =>
      some (s.gfxReport .sp task s.context.sp (.drawing task),
        some (.post gfxThread s.context.sp.completion))
  | .drawing task => some ({ s with gfx := .drawn task }, none)
  | .drawn task =>
      some (s.gfxReport .dp task s.context.dp .looping,
        some (.post gfxThread s.context.dp.completion))
  | .ended => none

variable (layout) in
def taskStep (s : TaskPipeline) (i : Nat) :
    Option (TaskPipeline × Option (ExternalLabel layout)) :=
  match s.task with
  | .waiting => (s.spTaskQueue.dequeue i).map fun taken => (s.startTask taken, none)
  | .running task => some ({ s with task := .ran task }, none)
  | .ran task => some (s.taskReport task, some (.post taskThread s.context.sp.completion))
  | .ended => none

def outcome (s : TaskPipeline) : PipelineLabel layout →
    Option (TaskPipeline × Option (ExternalLabel layout))
  | .osSpTaskStartGo thread task => some (s.osSpTaskStartGo thread task, none)
  | .store tasks => some ({ s with tasks := tasks }, none)
  | .osSetEventMesg event mq msg =>
      some ({ s with context := s.context.osSetEventMesg event mq msg }, none)
  | .screenUpdate thread =>
      some ({ s with actionQueue := s.actionQueue.enqueue thread .screenUpdate }, none)
  | .updateConfig thread =>
      some ({ s with actionQueue := s.actionQueue.enqueue thread .updateConfig }, none)
  | .gfxThread i => s.gfxStep layout i
  | .taskThread i => s.taskStep layout i
  | .quit => some ({ s with exited := true }, none)
  | .joinEventThreads thread =>
      if s.gfx = .ended then
        some ({ s with spTaskQueue := s.spTaskQueue.enqueue thread none }, none)
      else none
  | .external l => if l.byOthers then some (s, some l) else none

def boot (tasks : Ptr → OSTask) (external : External) : TaskPipeline where
  tasks := tasks
  context := {}
  exited := false
  actionQueue := []
  spTaskQueue := []
  gfx := .looping
  task := .waiting
  external := external
  gfxSubmitted := []
  gfxTaken := []
  gfxReports := []
  rspSubmitted := []
  rspTaken := []
  rspReports := []

end TaskPipeline

def pipelineStep (s : TaskPipeline) (l : PipelineLabel layout) : Option TaskPipeline :=
  (s.outcome l).bind fun done =>
    match done.2 with
    | none => some done.1
    | some posts => (externalStep s.external posts).map fun x => { done.1 with external := x }

def PipelineBooted (s : TaskPipeline) : Prop :=
  ∃ tasks external, ExternalBooted external ∧ s = TaskPipeline.boot tasks external

def MeetsExternal (ok : External → ExternalLabel layout → Prop) (s : TaskPipeline)
    (l : PipelineLabel layout) : Prop :=
  ∀ done ∈ s.outcome l, ∀ posts ∈ done.2, ok s.external posts

/-! ## The accounts of the two threads -/

def GfxPc.inHand : GfxPc → List OSTask
  | .taken task | .drawing task | .drawn task => [task]
  | .looping | .waiting | .ended => []

def GfxPc.reported : GfxPc → List (OSEvent × OSTask)
  | .drawing task | .drawn task => [(.sp, task)]
  | .looping | .waiting | .taken _ | .ended => []

def TaskPc.inHand : TaskPc → List Ptr
  | .running task | .ran task => [task]
  | .waiting | .ended => []

def GfxReport.about (report : GfxReport) : OSEvent × OSTask := (report.event, report.task)

def bothReports (task : OSTask) : List (OSEvent × OSTask) := [(.sp, task), (.dp, task)]

def External.postedBy (x : External) (thread : Nat) : List QueuedMessage :=
  (x.posted.filter fun post => decide (post.thread = thread)).map Posted.msg

/-- Both threads take the tasks of each submitter in their order, each once; a
task that the gfx thread has taken is reported twice, the RSP first, and one
that the SP thread has taken once. -/
structure TaskPipeline.Booked (s : TaskPipeline) : Prop where
  gfxQueue : Transfers GfxAction.task? s.actionQueue s.gfxTaken s.gfxSubmitted
  rspQueue : Transfers id s.spTaskQueue s.rspTaken s.rspSubmitted
  gfxReported : ∃ finished : List OSTask, s.gfxTaken.items = finished ++ s.gfx.inHand ∧
    s.gfxReports.map GfxReport.about = finished.flatMap bothReports ++ s.gfx.reported
  rspReported : s.rspTaken.items = s.rspReports.map TaskReport.task ++ s.task.inHand
  runnable : ∀ task ∈ s.gfxSubmitted.items, task.type = mGfxTask ∧ task.shapeRunnable = true

structure TaskPipeline.Posted (s : TaskPipeline) : Prop where
  gfx : s.external.postedBy gfxThread = s.gfxReports.map fun report => report.slot.completion
  task : s.external.postedBy taskThread = s.rspReports.map fun report => report.slot.completion

section Booked
variable {s t : TaskPipeline}

theorem TaskPipeline.Booked.submitRspTask (booked : s.Booked) (thread : Nat) {task : Ptr}
    (runnable : (s.tasks task).shapeRunnable = true) : (s.submitRspTask thread task).Booked := by
  unfold TaskPipeline.submitRspTask
  split
  · rename_i graphics
    refine ⟨booked.gfxQueue.enqueue thread rfl, booked.rspQueue, booked.gfxReported,
      booked.rspReported, fun other member => ?_⟩
    rw [items_enqueue] at member
    rcases List.mem_append.mp member with old | new
    · exact booked.runnable other old
    · rw [List.mem_singleton.mp new]
      exact ⟨graphics, runnable⟩
  · exact ⟨booked.gfxQueue, booked.rspQueue.enqueue thread rfl, booked.gfxReported,
      booked.rspReported, booked.runnable⟩

theorem TaskPipeline.Booked.osSpTaskStartGo (booked : s.Booked) (thread : Nat) (task : Ptr) :
    (s.osSpTaskStartGo thread task).Booked := by
  unfold TaskPipeline.osSpTaskStartGo
  split
  · rename_i passed
    exact booked.submitRspTask thread (Bool.and_eq_true_iff.mp passed).2
  · exact booked

theorem TaskPipeline.Booked.startAction (booked : s.Booked) (waits : s.gfx = .waiting) {i : Nat}
    {taken : Element Nat GfxAction × Queue Nat GfxAction}
    (served : s.actionQueue.dequeue i = some taken) : (s.startAction taken).Booked := by
  obtain ⟨⟨producer, action⟩, rest⟩ := taken
  obtain ⟨finished, items, reports⟩ := booked.gfxReported
  rw [waits] at items reports
  cases action with
  | spTask task =>
      refine ⟨booked.gfxQueue.dequeue served rfl, booked.rspQueue, ⟨finished, ?_, reports⟩,
        booked.rspReported, booked.runnable⟩
      have before : s.gfxTaken.items = finished := items.trans (List.append_nil finished)
      simp [TaskPipeline.startAction, items_enqueue, before, GfxPc.inHand]
  | screenUpdate | updateConfig =>
      exact ⟨booked.gfxQueue.dequeue_other served rfl, booked.rspQueue, ⟨finished, items, reports⟩,
        booked.rspReported, booked.runnable⟩

theorem TaskPipeline.Booked.startTask (booked : s.Booked) (waits : s.task = .waiting) {i : Nat}
    {taken : Element Nat (Option Ptr) × Queue Nat (Option Ptr)}
    (served : s.spTaskQueue.dequeue i = some taken) : (s.startTask taken).Booked := by
  obtain ⟨⟨producer, item⟩, rest⟩ := taken
  have reported := booked.rspReported
  rw [waits] at reported
  cases item with
  | some task =>
      refine ⟨booked.gfxQueue, booked.rspQueue.dequeue served rfl, booked.gfxReported, ?_,
        booked.runnable⟩
      have before : s.rspTaken.items = s.rspReports.map TaskReport.task :=
        reported.trans (List.append_nil _)
      simp [TaskPipeline.startTask, items_enqueue, before, TaskPc.inHand]
  | none =>
      exact ⟨booked.gfxQueue, booked.rspQueue.dequeue_other served rfl, booked.gfxReported,
        reported, booked.runnable⟩

theorem TaskPipeline.Booked.idle (booked : s.Booked) (free : s.gfx.inHand = [])
    (quiet : s.gfx.reported = []) {pc : GfxPc} (free' : pc.inHand = [])
    (quiet' : pc.reported = []) : ({ s with gfx := pc } : TaskPipeline).Booked := by
  obtain ⟨finished, items, reports⟩ := booked.gfxReported
  rw [free] at items
  rw [quiet] at reports
  refine ⟨booked.gfxQueue, booked.rspQueue, ⟨finished, ?_, ?_⟩, booked.rspReported, booked.runnable⟩
  · simpa [free'] using items
  · simpa [quiet'] using reports

theorem TaskPipeline.Booked.reportSp (booked : s.Booked) {task : OSTask} (pc : s.gfx = .taken task)
    (slot : EventSlot) : (s.gfxReport .sp task slot (.drawing task)).Booked := by
  obtain ⟨finished, items, reports⟩ := booked.gfxReported
  rw [pc] at items reports
  refine ⟨booked.gfxQueue, booked.rspQueue, ⟨finished, items, ?_⟩, booked.rspReported,
    booked.runnable⟩
  have before : s.gfxReports.map GfxReport.about = finished.flatMap bothReports :=
    reports.trans (List.append_nil _)
  simp [TaskPipeline.gfxReport, before, GfxPc.reported, GfxReport.about]

theorem TaskPipeline.Booked.reportDp (booked : s.Booked) {task : OSTask} (pc : s.gfx = .drawn task)
    (slot : EventSlot) : (s.gfxReport .dp task slot .looping).Booked := by
  obtain ⟨finished, items, reports⟩ := booked.gfxReported
  rw [pc] at items reports
  refine ⟨booked.gfxQueue, booked.rspQueue, ⟨finished ++ [task], ?_, ?_⟩, booked.rspReported,
    booked.runnable⟩
  · simpa [TaskPipeline.gfxReport, GfxPc.inHand] using items
  · simp [TaskPipeline.gfxReport, reports, GfxPc.reported, GfxReport.about, bothReports]

theorem TaskPipeline.Booked.taskReport (booked : s.Booked) {task : Ptr} (pc : s.task = .ran task) :
    (s.taskReport task).Booked := by
  have reported := booked.rspReported
  rw [pc] at reported
  refine ⟨booked.gfxQueue, booked.rspQueue, booked.gfxReported, ?_, booked.runnable⟩
  simp [TaskPipeline.taskReport, reported, TaskPc.inHand]

theorem TaskPipeline.Booked.gfxStep (booked : s.Booked) {i : Option Nat}
    {posts : Option (ExternalLabel layout)} (taken : s.gfxStep layout i = some (t, posts)) :
    t.Booked := by
  cases pc : s.gfx with
  | looping =>
      simp only [TaskPipeline.gfxStep, pc] at taken
      cases taken
      refine booked.idle (by rw [pc]; rfl) (by rw [pc]; rfl) ?_ ?_
      · cases s.exited <;> rfl
      · cases s.exited <;> rfl
  | waiting =>
      cases i with
      | none =>
          simp only [TaskPipeline.gfxStep, pc] at taken
          cases taken
          exact booked.idle (by rw [pc]; rfl) (by rw [pc]; rfl) rfl rfl
      | some i =>
          simp only [TaskPipeline.gfxStep, pc] at taken
          obtain ⟨next, served, done⟩ := Option.map_eq_some_iff.mp taken
          cases done
          exact booked.startAction pc served
  | taken task =>
      simp only [TaskPipeline.gfxStep, pc] at taken
      cases taken
      exact booked.reportSp pc s.context.sp
  | drawing task =>
      simp only [TaskPipeline.gfxStep, pc] at taken
      cases taken
      obtain ⟨finished, items, reports⟩ := booked.gfxReported
      rw [pc] at items reports
      exact ⟨booked.gfxQueue, booked.rspQueue, ⟨finished, items, reports⟩, booked.rspReported,
        booked.runnable⟩
  | drawn task =>
      simp only [TaskPipeline.gfxStep, pc] at taken
      cases taken
      exact booked.reportDp pc s.context.dp
  | ended =>
      simp only [TaskPipeline.gfxStep, pc] at taken
      contradiction

theorem TaskPipeline.Booked.taskStep (booked : s.Booked) {i : Nat}
    {posts : Option (ExternalLabel layout)} (taken : s.taskStep layout i = some (t, posts)) :
    t.Booked := by
  cases pc : s.task with
  | waiting =>
      simp only [TaskPipeline.taskStep, pc] at taken
      obtain ⟨next, served, done⟩ := Option.map_eq_some_iff.mp taken
      cases done
      exact booked.startTask pc served
  | running task =>
      simp only [TaskPipeline.taskStep, pc] at taken
      cases taken
      have reported := booked.rspReported
      rw [pc] at reported
      exact ⟨booked.gfxQueue, booked.rspQueue, booked.gfxReported, reported, booked.runnable⟩
  | ran task =>
      simp only [TaskPipeline.taskStep, pc] at taken
      cases taken
      exact booked.taskReport pc
  | ended =>
      simp only [TaskPipeline.taskStep, pc] at taken
      contradiction

theorem TaskPipeline.Booked.outcome (booked : s.Booked) {l : PipelineLabel layout}
    {posts : Option (ExternalLabel layout)} (taken : s.outcome l = some (t, posts)) : t.Booked := by
  cases l with
  | osSpTaskStartGo thread task =>
      cases taken
      exact booked.osSpTaskStartGo thread task
  | screenUpdate thread | updateConfig thread =>
      cases taken
      exact ⟨booked.gfxQueue.enqueue_other thread rfl, booked.rspQueue, booked.gfxReported,
        booked.rspReported, booked.runnable⟩
  | store _ | osSetEventMesg _ _ _ | quit =>
      cases taken
      exact ⟨booked.gfxQueue, booked.rspQueue, booked.gfxReported, booked.rspReported,
        booked.runnable⟩
  | gfxThread i => exact booked.gfxStep taken
  | taskThread i => exact booked.taskStep taken
  | joinEventThreads thread =>
      rw [TaskPipeline.outcome] at taken
      split at taken
      · cases taken
        exact ⟨booked.gfxQueue, booked.rspQueue.enqueue_other thread rfl, booked.gfxReported,
          booked.rspReported, booked.runnable⟩
      · contradiction
  | external l =>
      rw [TaskPipeline.outcome] at taken
      split at taken
      · cases taken
        exact booked
      · contradiction

end Booked

/-! ## What the two threads post -/

section Posts
variable {x x' : External} {s t : TaskPipeline}

theorem postedBy_enqueueExternal (x : External) (thread p : Nat) (msg : QueuedMessage) :
    (x.enqueueExternal thread msg).postedBy p =
      x.postedBy p ++ if thread = p then [msg] else [] := by
  by_cases mine : thread = p
  · simp [External.postedBy, External.enqueueExternal, List.filter_append, mine]
  · simp [External.postedBy, External.enqueueExternal, List.filter_append, mine]

theorem postedBy_post {thread : Nat} {msg : QueuedMessage}
    (ran : externalStep x (.post thread msg : ExternalLabel layout) = some x') (p : Nat) :
    x'.postedBy p = x.postedBy p ++ if thread = p then [msg] else [] := by
  simp only [externalStep] at ran
  split at ran
  · contradiction
  · cases ran
    exact postedBy_enqueueExternal x thread p msg

theorem postedBy_others {l : ExternalLabel layout} (ran : externalStep x l = some x')
    (others : l.byOthers = true) {p : Nat} (mine : p = gfxThread ∨ p = taskThread) :
    x'.postedBy p = x.postedBy p := by
  have booking := (externalStep_booking ran).2
  cases booking with
  | keeps k => rfl
  | delivers k i e rest taken sent rings => rfl
  | drops k i e rest taken refused lossy => rfl
  | putsBack k c i e rest taken refused => rfl
  | posts thread msg =>
      have foreign : thread ≠ p := by
        simp only [ExternalLabel.byOthers, Bool.and_eq_true, decide_eq_true_eq] at others
        rcases mine with rfl | rfl
        · exact others.1
        · exact others.2
      rw [postedBy_enqueueExternal, if_neg foreign]
      exact List.append_nil _

inductive Reporting (s t : TaskPipeline) : Option (ExternalLabel layout) → Prop
  | none (gfx : t.gfxReports = s.gfxReports) (task : t.rspReports = s.rspReports) :
      Reporting s t none
  | others {l : ExternalLabel layout} (others : l.byOthers = true) (same : t = s) :
      Reporting s t (some l)
  | gfx (report : GfxReport) (gfx : t.gfxReports = s.gfxReports ++ [report])
      (task : t.rspReports = s.rspReports) :
      Reporting s t (some (.post gfxThread report.slot.completion))
  | task (report : TaskReport) (gfx : t.gfxReports = s.gfxReports)
      (task : t.rspReports = s.rspReports ++ [report]) :
      Reporting s t (some (.post taskThread report.slot.completion))

theorem gfxStep_reporting {i : Option Nat} {posts : Option (ExternalLabel layout)}
    (taken : s.gfxStep layout i = some (t, posts)) :
    t.external = s.external ∧ Reporting s t posts := by
  unfold TaskPipeline.gfxStep at taken
  split at taken
  · cases taken
    exact ⟨rfl, .none rfl rfl⟩
  · split at taken
    · cases taken
      exact ⟨rfl, .none rfl rfl⟩
    · obtain ⟨⟨⟨producer, action⟩, rest⟩, served, done⟩ := Option.map_eq_some_iff.mp taken
      cases done
      cases action with
      | spTask task => exact ⟨rfl, .none rfl rfl⟩
      | screenUpdate | updateConfig => exact ⟨rfl, .none rfl rfl⟩
  · rename_i task pc
    cases taken
    exact ⟨rfl, .gfx ⟨.sp, task, s.context.sp⟩ rfl rfl⟩
  · cases taken
    exact ⟨rfl, .none rfl rfl⟩
  · rename_i task pc
    cases taken
    exact ⟨rfl, .gfx ⟨.dp, task, s.context.dp⟩ rfl rfl⟩
  · contradiction

theorem taskStep_reporting {i : Nat} {posts : Option (ExternalLabel layout)}
    (taken : s.taskStep layout i = some (t, posts)) :
    t.external = s.external ∧ Reporting s t posts := by
  unfold TaskPipeline.taskStep at taken
  split at taken
  · obtain ⟨⟨⟨producer, item⟩, rest⟩, served, done⟩ := Option.map_eq_some_iff.mp taken
    cases done
    cases item with
    | some task => exact ⟨rfl, .none rfl rfl⟩
    | none => exact ⟨rfl, .none rfl rfl⟩
  · cases taken
    exact ⟨rfl, .none rfl rfl⟩
  · rename_i task pc
    cases taken
    exact ⟨rfl, .task ⟨task, s.context.sp⟩ rfl rfl⟩
  · contradiction

theorem osSpTaskStartGo_reporting (s : TaskPipeline) (thread : Nat) (task : Ptr) :
    (s.osSpTaskStartGo thread task).external = s.external ∧
      Reporting s (s.osSpTaskStartGo thread task) (none : Option (ExternalLabel layout)) := by
  unfold TaskPipeline.osSpTaskStartGo TaskPipeline.submitRspTask
  split
  · split
    · exact ⟨rfl, .none rfl rfl⟩
    · exact ⟨rfl, .none rfl rfl⟩
  · exact ⟨rfl, .none rfl rfl⟩

theorem outcome_reporting {l : PipelineLabel layout} {posts : Option (ExternalLabel layout)}
    (taken : s.outcome l = some (t, posts)) : t.external = s.external ∧ Reporting s t posts := by
  cases l with
  | osSpTaskStartGo thread task =>
      cases taken
      exact osSpTaskStartGo_reporting s thread task
  | store _ | osSetEventMesg _ _ _ | screenUpdate _ | updateConfig _ | quit =>
      cases taken
      exact ⟨rfl, .none rfl rfl⟩
  | gfxThread i => exact gfxStep_reporting taken
  | taskThread i => exact taskStep_reporting taken
  | joinEventThreads thread =>
      rw [TaskPipeline.outcome] at taken
      split at taken
      · cases taken
        exact ⟨rfl, .none rfl rfl⟩
      · contradiction
  | external l =>
      rw [TaskPipeline.outcome] at taken
      split at taken
      · rename_i others
        cases taken
        exact ⟨rfl, .others others rfl⟩
      · contradiction

theorem TaskPipeline.Posted.reporting (posted : s.Posted) {l : ExternalLabel layout}
    (reporting : Reporting s t (some l)) (ran : externalStep s.external l = some x') :
    ({ t with external := x' } : TaskPipeline).Posted := by
  cases reporting with
  | others others same =>
      subst same
      exact ⟨(postedBy_others ran others (.inl rfl)).trans posted.gfx,
        (postedBy_others ran others (.inr rfl)).trans posted.task⟩
  | gfx report gfx task =>
      refine ⟨?_, ?_⟩
      · simp [postedBy_post ran, posted.gfx, gfx]
      · have apart : gfxThread ≠ taskThread := by decide
        simp [postedBy_post ran, posted.task, task, apart]
  | task report gfx task =>
      refine ⟨?_, ?_⟩
      · have apart : taskThread ≠ gfxThread := by decide
        simp [postedBy_post ran, posted.gfx, gfx, apart]
      · simp [postedBy_post ran, posted.task, task]

end Posts

/-! ## Runs -/

section Runs
variable {s t : TaskPipeline} {l : PipelineLabel layout}

theorem pipelineStep_cases (ran : pipelineStep s l = some t) :
    ∃ next posts, s.outcome l = some (next, posts) ∧
      (posts = none ∧ t = next ∨
        ∃ e x, posts = some e ∧ externalStep s.external e = some x ∧
          t = { next with external := x }) := by
  obtain ⟨⟨next, posts⟩, taken, ran⟩ := Option.bind_eq_some_iff.mp ran
  refine ⟨next, posts, taken, ?_⟩
  cases posts with
  | none =>
      cases ran
      exact .inl ⟨rfl, rfl⟩
  | some e =>
      obtain ⟨x, posted, done⟩ := Option.map_eq_some_iff.mp ran
      exact .inr ⟨e, x, rfl, posted, done.symm⟩

theorem boot_booked (booted : PipelineBooted s) : s.Booked ∧ s.Posted := by
  obtain ⟨tasks, external, ⟨rings, rfl⟩, rfl⟩ := booted
  refine ⟨⟨fun _ => rfl, fun _ => rfl, ⟨[], rfl, rfl⟩, rfl, ?_⟩, ⟨rfl, rfl⟩⟩
  intro task member
  contradiction

theorem reach_booked {ok : TaskPipeline → PipelineLabel layout → Prop}
    (reached : Reach pipelineStep ok PipelineBooted s) : s.Booked ∧ s.Posted := by
  refine reached.invariant (fun _ => boot_booked) ?_
  intro s l t ⟨booked, posted⟩ _ ran
  obtain ⟨next, posts, taken, quiet | ⟨e, x, isPost, entered, rfl⟩⟩ := pipelineStep_cases ran
  · obtain ⟨rfl, rfl⟩ := quiet
    obtain ⟨same, reporting⟩ := outcome_reporting taken
    refine ⟨booked.outcome taken, ?_⟩
    cases reporting with
    | none gfx task =>
        refine ⟨?_, ?_⟩
        · rw [same, gfx]
          exact posted.gfx
        · rw [same, task]
          exact posted.task
  · have after := booked.outcome taken
    subst isPost
    exact ⟨⟨after.gfxQueue, after.rspQueue, after.gfxReported, after.rspReported, after.runnable⟩,
      posted.reporting (outcome_reporting taken).2 entered⟩

/-- The external queue of a run is in a run of its own. -/
theorem reach_external {ok : External → ExternalLabel layout → Prop}
    (reached : Reach pipelineStep (MeetsExternal ok) PipelineBooted s) :
    Reach externalStep ok ExternalBooted s.external := by
  refine reached.invariant (I := fun s => Reach externalStep ok ExternalBooted s.external) ?_ ?_
  · rintro s ⟨tasks, external, booted, rfl⟩
    exact .start booted
  · intro s l t before side ran
    obtain ⟨next, posts, taken, quiet | ⟨e, x, isPost, entered, rfl⟩⟩ := pipelineStep_cases ran
    · obtain ⟨rfl, rfl⟩ := quiet
      rw [(outcome_reporting taken).1]
      exact before
    · exact .next e before (side _ taken e isPost) entered

theorem mem_postedBy {x : External} {post : Posted} (member : post ∈ x.posted) :
    post.msg ∈ x.postedBy post.thread :=
  List.mem_map_of_mem (List.mem_filter.mpr ⟨member, decide_eq_true rfl⟩)

theorem completion_reliable (posted : s.Posted) {post : Posted} (member : post ∈ s.external.posted)
    (mine : post.thread = gfxThread ∨ post.thread = taskThread) : post.msg.coalescible = false := by
  have logged := mem_postedBy member
  rcases mine with gfx | task
  · rw [gfx, posted.gfx] at logged
    obtain ⟨report, _, isReport⟩ := List.mem_map.mp logged
    rw [← isReport]
    rfl
  · rw [task, posted.task] at logged
    obtain ⟨report, _, isReport⟩ := List.mem_map.mp logged
    rw [← isReport]
    rfl

/-- The tasks of each thread are taken in the order in which it has submitted
them, a graphics task as it was then; what has been taken is reported, twice or
once, and every report is in the external queue or has entered its queue once. -/
theorem tasks_completed
    (reached : Reach (@pipelineStep layout) (MeetsExternal KeepsReliable) PipelineBooted s) :
    s.Booked ∧ s.Posted ∧
      (∀ task ∈ s.gfxTaken.items, task.type = mGfxTask ∧ task.shapeRunnable = true) ∧
      ∀ post ∈ s.external.posted, post.thread = gfxThread ∨ post.thread = taskThread →
        s.external.Kept post := by
  obtain ⟨booked, posted⟩ := reach_booked reached
  refine ⟨booked, posted, fun task taken => booked.runnable task (booked.gfxQueue.mem taken), ?_⟩
  intro post member mine
  exact (external_messages_kept (reach_external reached)).1 post member
    (completion_reliable posted member mine)

end Runs

instance (x : TaskPipeline) (l : PipelineLabel layout) :
    Decidable (MeetsExternal KeepsReliable x l) :=
  inferInstanceAs (Decidable (∀ done ∈ x.outcome l, ∀ posts ∈ done.2,
    KeepsReliable x.external posts))

def displayList : OSTask :=
  ⟨1, 0, 0, 0, 0x80100000, 0x1000, 0x80101000, 0x800, 0, 0, 0, 0, 0x80200000, 0x400, 0, 0⟩

/-- One graphics task from its submission to its second report. -/
theorem tasks_completed_displayList : ∃ s : TaskPipeline,
    s.gfxReports.map GfxReport.about = bothReports displayList ∧
      s.external.posted.map Posted.msg = [completion 8, completion 9] ∧
      ∀ post ∈ s.external.posted, s.external.Kept post := by
  obtain ⟨s, ran, reports, posted⟩ : ∃ s, run (@pipelineStep threeThreads)
      (MeetsExternal KeepsReliable) (TaskPipeline.boot (fun _ => displayList)
        (External.boot smallRings))
      [.osSetEventMesg .sp smallQueue 8, .osSetEventMesg .dp smallQueue 9,
        .osSpTaskStartGo 2 0x80300000, .gfxThread none, .gfxThread (some 0), .gfxThread none,
        .gfxThread none, .gfxThread none] = some s ∧
      s.gfxReports.map GfxReport.about = bothReports displayList ∧
      s.external.posted = [⟨0, 0, completion 8⟩, ⟨1, 0, completion 9⟩] :=
    ⟨_, rfl, rfl, rfl⟩
  have reached : Reach (@pipelineStep threeThreads) (MeetsExternal KeepsReliable)
      PipelineBooted s := reach_of_run _ ⟨_, _, ⟨smallRings, rfl⟩, rfl⟩ ran
  refine ⟨s, reports, by rw [posted]; rfl, fun post member => ?_⟩
  refine (tasks_completed reached).2.2.2 post member ?_
  rw [posted] at member
  simp only [List.mem_cons, List.not_mem_nil, or_false] at member
  rcases member with rfl | rfl
  · exact .inl rfl
  · exact .inl rfl

end N64ModernRuntime.Ultramodern
