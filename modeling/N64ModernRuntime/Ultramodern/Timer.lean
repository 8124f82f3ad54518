import N64ModernRuntime.Lib.ComparatorSet
import N64ModernRuntime.Lib.ProducerQueue
import N64ModernRuntime.Lib.Transition
import N64ModernRuntime.Ultramodern.Ultra64

/-!
# timer.cpp: OSTimer and the timer thread

The timer thread keeps its pending timers in a set whose comparator reads the
deadline out of the guest's OSTimer, and `osSetTimer` writes that deadline
before the timer thread knows of the call.
-/

set_option autoImplicit false

namespace N64ModernRuntime.Ultramodern

open Transition ProducerQueue ComparatorSet

/-- In ticks of the CPU counter; a `u64`. -/
abbrev OSTime := UInt64

structure OSTimer where
  interval : OSTime := 0
  timestamp : OSTime := 0
  mq : Ptr := nullptr
  msg : OSMesg := 0
  deriving DecidableEq, Repr

inductive TimerCommand where
  | insert (timer : Ptr)
  | cancel (timer : Ptr)
  deriving DecidableEq, Repr

/-- Where `timer_thread` is. -/
inductive TimerLoop where
  /-- in the loop of `try_dequeue` -/
  | draining
  /-- past it -/
  | choosing
  /-- in `wait_dequeue_timed` until `deadline`, `next` taken out of the set -/
  | waiting (next : Ptr) (deadline : Int)
  deriving DecidableEq, Repr

/-- `elapsed` is the time since `start_time` in nanoseconds.  `cancelled` says
that the last command applied to a timer was a cancel, and `fired` is the log of
the `osSendMesg` calls: the timer, the queue and the message. -/
structure Timers where
  elapsed : Nat
  timer : Ptr → OSTimer
  commandQueue : Queue ContextId TimerCommand
  pending : List Ptr
  loop : TimerLoop
  cancelled : Ptr → Bool
  fired : List (Ptr × Ptr × OSMesg)

def counterPerMs : UInt64 := 46875

def durationToTicks (nanos : Nat) : OSTime := UInt64.ofNat (nanos / 1000) * counterPerMs / 1000

/-- In microseconds; the product wraps. -/
def ticksToDuration (ticks : OSTime) : UInt64 := ticks * 1000 / counterPerMs

def ticksToTimepoint (ticks : OSTime) : Int := (ticksToDuration ticks).toNat * 1000

def Timers.timeNow (s : Timers) : OSTime := durationToTicks s.elapsed

/-- `TO_PTR` as an offset into rdram -/
def rdramOffset (p : Ptr) : UInt32 := p - 0x80000000

def byDeadline (timer : Ptr → OSTimer) (lhs rhs : Ptr) : Bool :=
  if (timer lhs).timestamp ≠ (timer rhs).timestamp then
    decide ((timer lhs).timestamp < (timer rhs).timestamp)
  else decide (rdramOffset lhs < rdramOffset rhs)

def Timers.insertPending (s : Timers) (t : Ptr) : Timers :=
  { s with pending := insert (byDeadline s.timer) t s.pending }

def Timers.erasePending (s : Timers) (t : Ptr) : Timers :=
  { s with pending := erase (byDeadline s.timer) t s.pending }

def Timers.modifyTimer (s : Timers) (t : Ptr) (f : OSTimer → OSTimer) : Timers :=
  { s with timer := fun u => if u = t then f (s.timer t) else s.timer u }

def applyCommand (s : Timers) : TimerCommand → Timers
  | .insert t =>
      { s.insertPending t with cancelled := fun u => if u = t then false else s.cancelled u }
  | .cancel t =>
      { s.erasePending t with cancelled := fun u => if u = t then true else s.cancelled u }

/-- The deadline that `osSetTimer` writes. -/
def Timers.firstDeadline (s : Timers) (countdown interval : OSTime) : OSTime :=
  (if countdown = 0 then interval else countdown) + s.timeNow

/-- `c` is the calling thread, a producer of the command queue. -/
def osSetTimer (s : Timers) (c : ContextId) (t : Ptr) (countdown interval : OSTime) (mq : Ptr)
    (msg : OSMesg) : Timers :=
  let set := s.modifyTimer t fun _ =>
    { interval := interval, timestamp := s.firstDeadline countdown interval, mq := mq, msg := msg }
  { set with commandQueue := s.commandQueue.enqueue c (.insert t) }

def osStopTimer (s : Timers) (c : ContextId) (t : Ptr) : Timers :=
  { s with commandQueue := s.commandQueue.enqueue c (.cancel t) }

/-- The message goes out; a periodic timer is armed again from now. -/
def Timers.fire (s : Timers) (next : Ptr) : Timers :=
  let timer := s.timer next
  let sent := { s with fired := s.fired ++ [(next, timer.mq, timer.msg)], loop := .draining }
  if timer.interval ≠ 0 then
    (sent.modifyTimer next fun timer =>
      { timer with timestamp := timer.interval + s.timeNow }).insertPending next
  else sent

/-- `i` is the position of the command that is dequeued. -/
inductive TimerLabel where
  | clock (nanos : Nat)
  | osSetTimer (c : ContextId) (t : Ptr) (countdown interval : OSTime) (mq : Ptr) (msg : OSMesg)
  | osStopTimer (c : ContextId) (t : Ptr)
  /-- a command out of the queue, with `try_dequeue` or, while the set is empty,
  with `wait_dequeue` -/
  | command (i : Nat)
  | drained
  | choose
  | preempted (i : Nat)
  | timedOut
  deriving DecidableEq, Repr

def timerStep (s : Timers) : TimerLabel → Option Timers
  | .clock nanos => some { s with elapsed := s.elapsed + nanos }
  | .osSetTimer c t countdown interval mq msg => some (osSetTimer s c t countdown interval mq msg)
  | .osStopTimer c t => some (osStopTimer s c t)
  | .command i =>
      if s.loop = .draining ∨ s.loop = .choosing ∧ s.pending = [] then
        (s.commandQueue.dequeue i).map fun taken =>
          applyCommand { s with commandQueue := taken.2 } taken.1.item
      else none
  | .drained =>
      if s.loop = .draining ∧ s.commandQueue = [] then some { s with loop := .choosing } else none
  | .choose =>
      match s.loop, s.pending with
      | .choosing, next :: _ =>
          let s := s.erasePending next
          let remaining := ticksToTimepoint (s.timer next).timestamp - s.elapsed
          if 0 ≤ remaining then
            -- the wait is told the time in whole microseconds
            some { s with loop := .waiting next (s.elapsed + remaining / 1000 * 1000) }
          else some (s.fire next)
      | _, _ => none
  | .preempted i =>
      match s.loop with
      | .waiting next _ =>
          (s.commandQueue.dequeue i).map fun taken =>
            applyCommand { s.insertPending next with commandQueue := taken.2, loop := .draining }
              taken.1.item
      | _ => none
  | .timedOut =>
      match s.loop with
      | .waiting next deadline =>
          if s.commandQueue = [] ∧ deadline ≤ s.elapsed then some (s.fire next) else none
      | _ => none

def TimersStarted (s : Timers) : Prop :=
  s.commandQueue = [] ∧ s.pending = [] ∧ s.loop = .draining ∧ (∀ t, s.cancelled t = false) ∧
    s.fired = []

/-! ## The comparator -/

theorem rdramOffset_injective {p q : Ptr} (same : rdramOffset p = rdramOffset q) : p = q := by
  have restored := congrArg (· + 0x80000000) same
  simpa [rdramOffset] using restored

theorem byDeadline_iff (timer : Ptr → OSTimer) (lhs rhs : Ptr) : byDeadline timer lhs rhs = true ↔
    (timer lhs).timestamp < (timer rhs).timestamp ∨
      (timer lhs).timestamp = (timer rhs).timestamp ∧ rdramOffset lhs < rdramOffset rhs := by
  unfold byDeadline
  split
  · rename_i apart
    simp [apart]
  · rename_i same
    simp [not_not.mp same]

theorem timestamp_le {timer : Ptr → OSTimer} {lhs rhs : Ptr}
    (less : byDeadline timer lhs rhs = true) :
    (timer lhs).timestamp ≤ (timer rhs).timestamp := by
  rcases (byDeadline_iff timer lhs rhs).mp less with sooner | ⟨same, _⟩
  · exact UInt64.le_of_lt sooner
  · rw [same]
    exact UInt64.le_refl _

theorem byDeadline_strictTotal (timer : Ptr → OSTimer) : StrictTotal (byDeadline timer) where
  irrefl x := by simp [byDeadline]
  trans x y z := by
    simp only [byDeadline_iff]
    rintro (sooner | ⟨same, below⟩) (sooner' | ⟨same', below'⟩)
    · exact .inl (UInt64.lt_trans sooner sooner')
    · exact .inl (same' ▸ sooner)
    · exact .inl (same ▸ sooner')
    · exact .inr ⟨same.trans same', UInt32.lt_trans below below'⟩
  total x y := by
    simp only [← Bool.not_eq_true, byDeadline_iff, not_or, not_and, UInt64.not_lt, UInt32.not_lt]
    rintro ⟨later, above⟩ ⟨later', above'⟩
    have same := UInt64.le_antisymm later' later
    exact rdramOffset_injective (UInt32.le_antisymm (above' same.symm) (above same))

/-- The comparison of two timers reads nothing but their two deadlines. -/
theorem byDeadline_congr {timer timer' : Ptr → OSTimer} {lhs rhs : Ptr}
    (left : timer' lhs = timer lhs) (right : timer' rhs = timer rhs) :
    byDeadline timer' lhs rhs = byDeadline timer lhs rhs := by
  unfold byDeadline
  rw [left, right]

/-! ## The pending set stays ordered -/

/-- The order of `t` and `u` once `t` has been set. -/
def Timers.SetBefore (s : Timers) (t u : Ptr) (countdown interval : OSTime) : Prop :=
  s.firstDeadline countdown interval < (s.timer u).timestamp ∨
    s.firstDeadline countdown interval = (s.timer u).timestamp ∧ rdramOffset t < rdramOffset u

/-- The new deadline of a timer of the pending set keeps its place among the others. -/
def KeepsPlace (s : Timers) : TimerLabel → Prop
  | .osSetTimer _ t countdown interval _ _ => t ∈ s.pending → ∀ u ∈ s.pending, u ≠ t →
      (s.SetBefore t u countdown interval ↔ byDeadline s.timer t u = true)
  | _ => True

instance (s : Timers) (t u : Ptr) (countdown interval : OSTime) :
    Decidable (s.SetBefore t u countdown interval) :=
  inferInstanceAs (Decidable (_ < _ ∨ _ = _ ∧ _ < _))

instance (s : Timers) : ∀ l : TimerLabel, Decidable (KeepsPlace s l)
  | .osSetTimer _ t countdown interval _ _ =>
      let _ : Decidable (∀ u ∈ s.pending, u ≠ t →
          (s.SetBefore t u countdown interval ↔ byDeadline s.timer t u = true)) :=
        List.decidableBAll _ s.pending
      inferInstanceAs (Decidable (t ∈ s.pending → _))
  | .clock _ | .osStopTimer _ _ | .command _ | .drained | .choose | .preempted _ | .timedOut =>
      isTrue trivial

/-- `next` is out of the set while it is waited for, and first of all as long
as no command has come. -/
structure Timers.Waits (s : Timers) (next : Ptr) : Prop where
  absent : next ∉ s.pending
  live : s.cancelled next = false
  first : s.commandQueue = [] → ∀ u ∈ s.pending, byDeadline s.timer next u = true

/-- The pending set is ordered and no timer in it is cancelled. -/
structure Timers.SetTidy (s : Timers) : Prop where
  ordered : Ordered (byDeadline s.timer) s.pending
  cancelled : ∀ t, s.cancelled t = true → t ∉ s.pending

structure Timers.Tidy (s : Timers) : Prop extends s.SetTidy where
  waits : ∀ next deadline, s.loop = .waiting next deadline → s.Waits next

section Operations
variable {s : Timers} {t u next : Ptr}

theorem mem_insertPending : u ∈ (s.insertPending t).pending ↔ u = t ∨ u ∈ s.pending :=
  mem_insert (byDeadline_strictTotal s.timer)

theorem Timers.SetTidy.insertPending (tidy : s.SetTidy) (live : s.cancelled t = false) :
    (s.insertPending t).SetTidy := by
  refine ⟨insert_ordered (byDeadline_strictTotal s.timer) tidy.ordered, ?_⟩
  intro u stopped member
  have stopped' : s.cancelled u = true := stopped
  rcases mem_insertPending.mp member with rfl | old
  · rw [live] at stopped'
    contradiction
  · exact tidy.cancelled u stopped' old

theorem Timers.SetTidy.erasePending (tidy : s.SetTidy) : (s.erasePending t).SetTidy :=
  ⟨erase_ordered tidy.ordered,
    fun u stopped member => tidy.cancelled u stopped (erase_sublist.subset member)⟩

theorem Timers.SetTidy.applyCommand (tidy : s.SetTidy) (command : TimerCommand) :
    (applyCommand s command).SetTidy := by
  have order := byDeadline_strictTotal s.timer
  cases command with
  | insert t =>
      refine ⟨insert_ordered order tidy.ordered, fun u stopped member => ?_⟩
      simp only [Ultramodern.applyCommand] at stopped
      split at stopped
      · contradiction
      · rename_i other
        exact tidy.cancelled u stopped (((mem_insert order).mp member).resolve_left other)
  | cancel t =>
      refine ⟨erase_ordered tidy.ordered, fun u stopped member => ?_⟩
      obtain ⟨apart, old⟩ := (mem_erase order tidy.ordered).mp member
      simp only [Ultramodern.applyCommand, if_neg apart] at stopped
      exact tidy.cancelled u stopped old

theorem modifyTimer_other {f : OSTimer → OSTimer} (other : u ≠ t) :
    (s.modifyTimer t f).timer u = s.timer u := by
  simp [Timers.modifyTimer, other]

theorem osSetTimer_other (c : ContextId) (countdown interval : OSTime) (mq : Ptr) (msg : OSMesg)
    (other : u ≠ t) : (osSetTimer s c t countdown interval mq msg).timer u = s.timer u := by
  simp [osSetTimer, Timers.modifyTimer, other]

theorem setBefore_iff (c : ContextId) (countdown interval : OSTime) (mq : Ptr) (msg : OSMesg)
    (other : u ≠ t) : s.SetBefore t u countdown interval ↔
      byDeadline (osSetTimer s c t countdown interval mq msg).timer t u = true := by
  rw [byDeadline_iff, osSetTimer_other c countdown interval mq msg other]
  simp [Timers.SetBefore, osSetTimer, Timers.modifyTimer]

theorem applyCommand_loop (s : Timers) (command : TimerCommand) :
    (applyCommand s command).loop = s.loop := by
  cases command <;> rfl

/-- A timer out of the set may change its deadline. -/
theorem Timers.SetTidy.modifyTimer (tidy : s.SetTidy) (absent : t ∉ s.pending)
    (f : OSTimer → OSTimer) : (s.modifyTimer t f).SetTidy := by
  refine ⟨tidy.ordered.congr fun u hu v hv less => ?_, tidy.cancelled⟩
  have left : u ≠ t := fun same => absent (same ▸ hu)
  have right : v ≠ t := fun same => absent (same ▸ hv)
  rw [byDeadline_congr (modifyTimer_other left) (modifyTimer_other right)]
  exact less

theorem Timers.SetTidy.fire (tidy : s.SetTidy) (absent : next ∉ s.pending)
    (live : s.cancelled next = false) : (s.fire next).Tidy := by
  have sent : ({ s with
      fired := s.fired ++ [(next, (s.timer next).mq, (s.timer next).msg)]
      loop := .draining } : Timers).SetTidy := ⟨tidy.ordered, tidy.cancelled⟩
  unfold Timers.fire
  dsimp only
  split
  · exact ⟨(sent.modifyTimer absent _).insertPending live, fun _ _ waiting => by contradiction⟩
  · exact ⟨sent, fun _ _ waiting => by contradiction⟩

/-- A call on a timer keeps the order if it keeps the place of the timer. -/
theorem Timers.SetTidy.osSetTimer (tidy : s.SetTidy) (c : ContextId) (countdown interval : OSTime)
    (mq : Ptr) (msg : OSMesg)
    (place : KeepsPlace s (.osSetTimer c t countdown interval mq msg)) :
    (osSetTimer s c t countdown interval mq msg).SetTidy := by
  have order := byDeadline_strictTotal s.timer
  refine ⟨tidy.ordered.congr fun u hu v hv less => ?_, tidy.cancelled⟩
  have apart : u ≠ v := order.ne_of_lt less
  by_cases left : u = t
  · subst left
    exact (setBefore_iff c countdown interval mq msg apart.symm).mp
      ((place hu v hv apart.symm).mpr less)
  by_cases right : v = t
  · subst right
    refine (byDeadline_strictTotal _).lt_of_not apart ?_
    rw [← Bool.not_eq_true, ← setBefore_iff c countdown interval mq msg apart, place hv u hu apart,
      order.asymm less]
    exact Bool.false_ne_true
  · rw [← less]
    exact byDeadline_congr (osSetTimer_other c countdown interval mq msg left)
      (osSetTimer_other c countdown interval mq msg right)

end Operations

section Steps
variable {s s' : Timers} {l : TimerLabel}

theorem erasePending_head {next : Ptr} {rest : List Ptr} (front : s.pending = next :: rest) :
    (s.erasePending next).pending = rest := by
  unfold Timers.erasePending
  rw [front]
  exact erase_head (byDeadline_strictTotal s.timer)

theorem Timers.Tidy.choose (tidy : s.Tidy) {next : Ptr} {rest : List Ptr}
    (front : s.pending = next :: rest) : (s.erasePending next).SetTidy ∧
      (∀ u ∈ rest, byDeadline s.timer next u = true) ∧ next ∉ rest ∧ s.cancelled next = false := by
  have ordered := tidy.ordered
  rw [front] at ordered
  obtain ⟨first, _⟩ := List.pairwise_cons.mp ordered
  refine ⟨tidy.toSetTidy.erasePending, first, ?_, ?_⟩
  · exact (List.nodup_cons.mp (ordered.nodup (byDeadline_strictTotal s.timer))).1
  · rw [← Bool.not_eq_true]
    intro stopped
    exact tidy.cancelled next stopped (by rw [front]; exact List.mem_cons_self)

theorem Timers.Tidy.step (tidy : s.Tidy) (place : KeepsPlace s l)
    (taken : timerStep s l = some s') : s'.Tidy := by
  cases l with
  | clock nanos =>
      cases taken
      exact ⟨⟨tidy.ordered, tidy.cancelled⟩, fun next deadline waiting =>
        ⟨(tidy.waits next deadline waiting).absent, (tidy.waits next deadline waiting).live,
          (tidy.waits next deadline waiting).first⟩⟩
  | osSetTimer c t countdown interval mq msg =>
      cases taken
      refine ⟨tidy.toSetTidy.osSetTimer c countdown interval mq msg place, fun next deadline waiting => ?_⟩
      have waits := tidy.waits next deadline waiting
      refine ⟨waits.absent, waits.live, fun empty => ?_⟩
      simp [Ultramodern.osSetTimer, Queue.enqueue] at empty
  | osStopTimer c t =>
      cases taken
      refine ⟨⟨tidy.ordered, tidy.cancelled⟩, fun next deadline waiting => ?_⟩
      have waits := tidy.waits next deadline waiting
      refine ⟨waits.absent, waits.live, fun empty => ?_⟩
      simp [osStopTimer, Queue.enqueue] at empty
  | command i =>
      simp only [timerStep] at taken
      split at taken
      · rename_i looping
        obtain ⟨⟨e, rest⟩, _, rfl⟩ := Option.map_eq_some_iff.mp taken
        have moved : ({ s with commandQueue := rest } : Timers).SetTidy :=
          ⟨tidy.ordered, tidy.cancelled⟩
        refine ⟨moved.applyCommand e.item, fun next deadline waiting => ?_⟩
        rw [applyCommand_loop] at waiting
        rcases looping with here | ⟨here, _⟩
        · exact absurd (waiting.symm.trans here) (by simp)
        · exact absurd (waiting.symm.trans here) (by simp)
      · contradiction
  | drained =>
      simp only [timerStep] at taken
      split at taken
      · cases taken
        exact ⟨⟨tidy.ordered, tidy.cancelled⟩, fun _ _ waiting => by contradiction⟩
      · contradiction
  | choose =>
      simp only [timerStep] at taken
      split at taken
      · rename_i next rest _ front
        obtain ⟨erased, first, absent, live⟩ := tidy.choose front
        have left := erasePending_head front
        split at taken
        · cases taken
          refine ⟨⟨erased.ordered, erased.cancelled⟩, fun other deadline waiting => ?_⟩
          obtain ⟨rfl, _⟩ := TimerLoop.waiting.inj waiting
          exact ⟨by rw [← left] at absent; exact absent, live, fun _ => by rw [← left] at first; exact first⟩
        · cases taken
          exact erased.fire (by rw [left]; exact absent) live
      · contradiction
  | preempted i =>
      simp only [timerStep] at taken
      split at taken
      · rename_i next deadline waiting
        obtain ⟨⟨e, rest⟩, _, rfl⟩ := Option.map_eq_some_iff.mp taken
        have waits := tidy.waits next deadline waiting
        have inserted := tidy.toSetTidy.insertPending waits.live
        have moved : ({ s.insertPending next with
            commandQueue := rest
            loop := .draining } : Timers).SetTidy := ⟨inserted.ordered, inserted.cancelled⟩
        refine ⟨moved.applyCommand e.item, fun other deadline' waiting => ?_⟩
        rw [applyCommand_loop] at waiting
        contradiction
      · contradiction
  | timedOut =>
      simp only [timerStep] at taken
      split at taken
      · rename_i next deadline waiting
        split at taken
        · cases taken
          have waits := tidy.waits next deadline waiting
          exact tidy.toSetTidy.fire waits.absent waits.live
        · contradiction
      · contradiction

def Timers.FiresFirst (s : Timers) : Prop :=
  ∀ l s', timerStep s l = some s' → s'.fired = s.fired ∨
    ∃ t, s'.fired = s.fired ++ [(t, (s.timer t).mq, (s.timer t).msg)] ∧
      ∀ u ∈ s.pending, (s.timer t).timestamp ≤ (s.timer u).timestamp

theorem applyCommand_fired (s : Timers) (command : TimerCommand) :
    (applyCommand s command).fired = s.fired := by
  cases command <;> rfl

theorem fire_fired (s : Timers) (t : Ptr) :
    (s.fire t).fired = s.fired ++ [(t, (s.timer t).mq, (s.timer t).msg)] := by
  unfold Timers.fire
  dsimp only
  split <;> rfl

theorem Timers.Tidy.firesFirst (tidy : s.Tidy) : s.FiresFirst := by
  intro l s' taken
  cases l with
  | clock nanos => cases taken; exact .inl rfl
  | osSetTimer c t countdown interval mq msg => cases taken; exact .inl rfl
  | osStopTimer c t => cases taken; exact .inl rfl
  | command i =>
      simp only [timerStep] at taken
      split at taken
      · obtain ⟨⟨e, rest⟩, _, rfl⟩ := Option.map_eq_some_iff.mp taken
        exact .inl (applyCommand_fired _ _)
      · contradiction
  | drained =>
      simp only [timerStep] at taken
      split at taken
      · cases taken
        exact .inl rfl
      · contradiction
  | choose =>
      simp only [timerStep] at taken
      split at taken
      · rename_i next rest _ front
        obtain ⟨_, first, _, _⟩ := tidy.choose front
        split at taken
        · cases taken
          exact .inl rfl
        · cases taken
          refine .inr ⟨next, fire_fired _ next, fun u member => ?_⟩
          rw [front] at member
          rcases List.mem_cons.mp member with rfl | later
          · exact UInt64.le_refl _
          · exact timestamp_le (first u later)
      · contradiction
  | preempted i =>
      simp only [timerStep] at taken
      split at taken
      · obtain ⟨⟨e, rest⟩, _, rfl⟩ := Option.map_eq_some_iff.mp taken
        exact .inl (applyCommand_fired _ _)
      · contradiction
  | timedOut =>
      simp only [timerStep] at taken
      split at taken
      · rename_i next deadline waiting
        split at taken
        · rename_i due
          cases taken
          have first := (tidy.waits next deadline waiting).first due.1
          exact .inr ⟨next, fire_fired s next, fun u member => timestamp_le (first u member)⟩
        · contradiction
      · contradiction

end Steps

/-! ## Runs -/

/-- Strictly ordered by the current deadlines, no timer twice, none that was cancelled. -/
structure Timers.PendingSound (s : Timers) : Prop where
  ordered : s.pending.Pairwise fun t u => (s.timer t).timestamp < (s.timer u).timestamp ∨
    (s.timer t).timestamp = (s.timer u).timestamp ∧ rdramOffset t < rdramOffset u
  nodup : s.pending.Nodup
  cancelled : ∀ t, s.cancelled t = true → t ∉ s.pending

theorem Timers.Tidy.pendingSound {s : Timers} (tidy : s.Tidy) : s.PendingSound :=
  ⟨tidy.ordered.imp fun less => (byDeadline_iff s.timer _ _).mp less,
    tidy.ordered.nodup (byDeadline_strictTotal s.timer), tidy.cancelled⟩

theorem Timers.PendingSound.byDeadline_ordered {s : Timers} (sound : s.PendingSound) :
    Ordered (byDeadline s.timer) s.pending :=
  sound.ordered.imp fun sooner => (byDeadline_iff s.timer _ _).mpr sooner

theorem started_tidy {s : Timers} (started : TimersStarted s) : s.Tidy := by
  obtain ⟨_, empty, loop, live, _⟩ := started
  refine ⟨⟨?_, fun t stopped => ?_⟩, fun next deadline waiting => ?_⟩
  · rw [empty]
    exact List.Pairwise.nil
  · rw [live t] at stopped
    contradiction
  · rw [loop] at waiting
    contradiction

/-- While no call moves a pending timer to another place of the set, the set is
sound in every state, and only a timer with the smallest deadline fires. -/
theorem pending_of_keepsPlace {s : Timers} (reached : Reach timerStep KeepsPlace TimersStarted s) :
    s.PendingSound ∧ s.FiresFirst := by
  have tidy : s.Tidy := reached.invariant (fun _ => started_tidy)
    fun _ _ _ before place taken => before.step place taken
  exact ⟨tidy.pendingSound, tidy.firesFirst⟩

/-- The condition is exact: a call that does not meet it leaves the set out of order. -/
theorem disordered_of_not_keepsPlace {s s' : Timers} {l : TimerLabel} (sound : s.PendingSound)
    (unmet : ¬ KeepsPlace s l) (taken : timerStep s l = some s') : ¬ s'.PendingSound := by
  intro sound'
  cases l with
  | osSetTimer c t countdown interval mq msg =>
      cases taken
      refine unmet fun ht u hu other => ?_
      have ordered := sound.byDeadline_ordered
      have ordered' := sound'.byDeadline_ordered
      have same := ordered.agree (byDeadline_strictTotal _) (byDeadline_strictTotal _) ordered' ht hu
      rw [setBefore_iff c countdown interval mq msg other, ← same]
  | clock nanos => exact unmet trivial
  | osStopTimer c t => exact unmet trivial
  | command i => exact unmet trivial
  | drained => exact unmet trivial
  | choose => exact unmet trivial
  | preempted i => exact unmet trivial
  | timedOut => exact unmet trivial

def stoppedClock : Timers where
  elapsed := 0
  timer := fun _ => {}
  commandQueue := []
  pending := []
  loop := .draining
  cancelled := fun _ => false
  fired := []

/-- Two timers; the later one is set again, still the later, and the first fires. -/
theorem pending_small : ∃ s, Reach timerStep KeepsPlace TimersStarted s ∧
    s.pending = [0x80002000] ∧ s.fired = [(0x80001000, 0x80004000, 7)] ∧ s.PendingSound := by
  obtain ⟨s, ran, pending, fired⟩ : ∃ s, run timerStep KeepsPlace stoppedClock
      [.osSetTimer 0 0x80001000 100 0 0x80004000 7, .osSetTimer 0 0x80002000 200 0 0x80004000 8,
        .command 0, .command 0, .drained, .choose, .osSetTimer 0 0x80002000 300 0 0x80004000 8,
        .preempted 0, .drained, .choose, .clock 10000, .timedOut] = some s ∧
      s.pending = [0x80002000] ∧ s.fired = [(0x80001000, 0x80004000, 7)] := ⟨_, rfl, rfl, rfl⟩
  have reached : Reach timerStep KeepsPlace TimersStarted s :=
    reach_of_run _ ⟨rfl, rfl, rfl, fun _ => rfl, rfl⟩ ran
  exact ⟨s, reached, pending, fired, (pending_of_keepsPlace reached).1⟩

/-- The first of two timers is set behind the second while it is in the set. -/
theorem rearm_disorders : ¬ ∀ s, Reach timerStep Always TimersStarted s → s.PendingSound := by
  intro always
  obtain ⟨s, ran, pending, first, second⟩ : ∃ s, run timerStep Always stoppedClock
      [.osSetTimer 0 0x80001000 100 0 0x80004000 7, .osSetTimer 0 0x80002000 200 0 0x80004000 8,
        .command 0, .command 0, .osSetTimer 0 0x80001000 300 0 0x80004000 7] = some s ∧
      s.pending = [0x80001000, 0x80002000] ∧ (s.timer 0x80001000).timestamp = 300 ∧
      (s.timer 0x80002000).timestamp = 200 := ⟨_, rfl, rfl, rfl, rfl⟩
  have reached : Reach timerStep Always TimersStarted s :=
    reach_of_run _ ⟨rfl, rfl, rfl, fun _ => rfl, rfl⟩ ran
  have ordered := (always s reached).ordered
  rw [pending, List.pairwise_pair, first, second] at ordered
  exact absurd ordered (by decide)

end N64ModernRuntime.Ultramodern
