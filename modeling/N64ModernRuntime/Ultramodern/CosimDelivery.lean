import N64ModernRuntime.Lib.Transition
import N64ModernRuntime.Ultramodern.CosimEvents

/-!
# Delivery of co-simulation events

Every scheduled event is pending or has been delivered once, whatever is
scheduled, rendered, advanced and delivered in between.  The due check answers
another question than the delivery when a DP completion blocks the vector.
-/

set_option autoImplicit false

namespace N64ModernRuntime.Ultramodern

open Transition

def CosimRcpEvent.key (ev : CosimRcpEvent) : ℕ ×ₗ ℕ := toLex (ev.dueCycle.toNat, ev.seq.toNat)

theorem earlier_iff (a b : CosimRcpEvent) : Cosim.earlier a b = true ↔ a.key < b.key := by
  simp only [Cosim.earlier, CosimRcpEvent.key, Bool.or_eq_true, Bool.and_eq_true,
    decide_eq_true_eq, Prod.Lex.toLex_lt_toLex, UInt64.lt_iff_toNat_lt, UInt64.toNat_inj]

structure CosimBooks where
  rcpEvents : List CosimRcpEvent
  rcpNextSeq : UInt64
  scheduled : CosimCounts
  delivered : CosimCounts
  scheduledLog : List CosimRcpEvent
  deliveredLog : List CosimDelivery

def CosimBooks.schedule (b : CosimBooks) (ev : CosimRcpEvent) : CosimBooks :=
  { b with
    rcpEvents := b.rcpEvents ++ [ev]
    rcpNextSeq := b.rcpNextSeq + 1
    scheduled := b.scheduled.count ev
    scheduledLog := b.scheduledLog ++ [ev] }

def CosimBooks.settle (b : CosimBooks) (deliveries : List CosimDelivery)
    (rest : List CosimRcpEvent) : CosimBooks :=
  { b with
    rcpEvents := rest
    delivered := (deliveries.map CosimDelivery.event).foldl CosimCounts.count b.delivered
    deliveredLog := b.deliveredLog ++ deliveries }

namespace Cosim

def books (s : Cosim) : CosimBooks where
  rcpEvents := s.rcpEvents
  rcpNextSeq := s.rcpNextSeq
  scheduled := s.scheduled
  delivered := s.delivered
  scheduledLog := s.scheduledLog
  deliveredLog := s.deliveredLog

section Books
variable (s : Cosim)

/-- The functions of timer.cpp move the clock and nothing else of the events. -/
theorem syncTimeFloor_clock : ∃ ticks, s.syncTimeFloor = { s with timeTicks := ticks } := by
  simp only [syncTimeFloor]
  split
  · exact ⟨_, rfl⟩
  · exact ⟨s.timeTicks, rfl⟩

theorem advanceTimeTicks_clock (ticks : UInt64) :
    ∃ later, s.advanceTimeTicks ticks = { s with timeTicks := later } := by
  obtain ⟨synced, same⟩ := s.syncTimeFloor_clock
  simp only [advanceTimeTicks, same]
  split
  · exact ⟨s.timeTicks, rfl⟩
  · exact ⟨_, rfl⟩

theorem advanceTo_clock (due : UInt64) :
    ∃ later, s.advanceTo due = { s with timeTicks := later } := by
  unfold advanceTo
  split
  · exact s.advanceTimeTicks_clock _
  · exact ⟨s.timeTicks, rfl⟩

@[simp] theorem syncTimeFloor_books : s.syncTimeFloor.books = s.books := by
  obtain ⟨ticks, same⟩ := s.syncTimeFloor_clock
  rw [same]
  rfl

theorem syncTimeFloor_rcpEvents : s.syncTimeFloor.rcpEvents = s.rcpEvents := by
  obtain ⟨ticks, same⟩ := s.syncTimeFloor_clock
  rw [same]

theorem syncTimeFloor_gfxRenderedSeq : s.syncTimeFloor.gfxRenderedSeq = s.gfxRenderedSeq := by
  obtain ⟨ticks, same⟩ := s.syncTimeFloor_clock
  rw [same]

theorem syncTimeFloor_scheduledLog : s.syncTimeFloor.scheduledLog = s.scheduledLog := by
  obtain ⟨ticks, same⟩ := s.syncTimeFloor_clock
  rw [same]

theorem syncTimeFloor_deliveredLog : s.syncTimeFloor.deliveredLog = s.deliveredLog := by
  obtain ⟨ticks, same⟩ := s.syncTimeFloor_clock
  rw [same]

@[simp] theorem advanceTimeTicks_books (ticks : UInt64) :
    (s.advanceTimeTicks ticks).books = s.books := by
  obtain ⟨later, same⟩ := s.advanceTimeTicks_clock ticks
  rw [same]
  rfl

@[simp] theorem advanceTo_books (due : UInt64) : (s.advanceTo due).books = s.books := by
  obtain ⟨later, same⟩ := s.advanceTo_clock due
  rw [same]
  rfl

@[simp] theorem advanceCpuCycles_books (retired cycles : UInt64) :
    (s.advanceCpuCycles retired cycles).books = s.books := by
  simp only [advanceCpuCycles, advanceTimeTicks_books]
  split <;> split <;> simp only [books]

@[simp] theorem gfxRendered_books (gfxSeq : UInt64) : (s.gfxRendered gfxSeq).books = s.books := by
  unfold gfxRendered
  split <;> rfl

@[simp] theorem rebase_books : s.rebase.books = s.books := by
  unfold rebase
  split <;> rfl

@[simp] theorem acceptViTokens_books (accepted : UInt32) :
    (s.acceptViTokens accepted).books = s.books := by
  simp only [acceptViTokens, books]

@[simp] theorem requestVi_books (count : UInt32) : (s.requestVi count).2.books = s.books := by
  simp only [requestVi]
  split
  · rfl
  · rw [acceptViTokens_books, rebase_books]

@[simp] theorem spendViToken_books : s.spendViToken.books = s.books := by
  simp only [spendViToken, books]

@[simp] theorem takeViToken_books (allow : UInt32) : (s.takeViToken allow).2.books = s.books := by
  simp only [takeViToken]
  split
  · rfl
  split
  · rw [rebase_books]
  split
  · rw [syncTimeFloor_books, rebase_books]
  split
  · rw [syncTimeFloor_books, advanceTo_books, syncTimeFloor_books, rebase_books]
  · rw [spendViToken_books, syncTimeFloor_books, advanceTo_books, syncTimeFloor_books, rebase_books]

@[simp] theorem viDueNow_books : s.viDueNow.2.books = s.books := by
  simp only [viDueNow]
  split
  · rfl
  · exact syncTimeFloor_books s

@[simp] theorem rcpEventDue_books : s.rcpEventDue.2.books = s.books := by
  simp only [rcpEventDue]
  split
  · rfl
  split
  · exact viDueNow_books s
  · exact (syncTimeFloor_books _).trans (viDueNow_books s)

@[simp] theorem flipVi_books : s.flipVi.books = s.books := by
  simp only [flipVi]
  split <;> rfl

end Books

/-! ## The books balance -/

/-- Nothing is lost, delivered twice or miscounted, nothing was delivered before
its time, and the events are numbered in the order they were scheduled in. -/
structure Balanced (b : CosimBooks) : Prop where
  once : (b.deliveredLog.map CosimDelivery.event ++ b.rcpEvents).Perm b.scheduledLog
  counted : ∀ counter,
    b.scheduled counter = b.delivered counter + UInt64.ofNat (b.rcpEvents.countP (·.counted counter))
  deliveries : ∀ counter, b.delivered counter =
    UInt64.ofNat (b.deliveredLog.countP fun delivery => delivery.event.counted counter)
  due : ∀ delivery ∈ b.deliveredLog, delivery.event.dueCycle ≤ delivery.now
  rendered : ∀ delivery ∈ b.deliveredLog, delivery.event.kind = .dpComplete →
    delivery.event.gfxSeq ≤ delivery.rendered
  nextSeq : b.rcpNextSeq = UInt64.ofNat b.scheduledLog.length
  numbered : b.scheduledLog.map CosimRcpEvent.seq =
    (List.range b.scheduledLog.length).map UInt64.ofNat

theorem count_eq (counts : CosimCounts) (ev : CosimRcpEvent) (counter : CosimCounter) :
    counts.count ev counter = counts counter + UInt64.ofNat ([ev].countP (·.counted counter)) := by
  unfold CosimCounts.count
  by_cases counted : ev.counted counter = true
  · simp [counted]
  · simp [counted]

theorem ofNat_countP_append {α : Type} (p : α → Bool) (l l' : List α) :
    UInt64.ofNat ((l ++ l').countP p) = UInt64.ofNat (l.countP p) + UInt64.ofNat (l'.countP p) := by
  rw [List.countP_append, UInt64.ofNat_add]

theorem Balanced.schedule {b : CosimBooks} (balanced : Balanced b) {ev : CosimRcpEvent}
    (number : ev.seq = b.rcpNextSeq) : Balanced (b.schedule ev) := by
  refine ⟨?_, ?_, ?_, ?_, ?_, ?_, ?_⟩ <;> simp only [CosimBooks.schedule]
  · rw [← List.append_assoc]
    exact balanced.once.append_right _
  · intro counter
    rw [count_eq, ofNat_countP_append, ← UInt64.add_assoc, balanced.counted counter]
  · exact balanced.deliveries
  · exact balanced.due
  · exact balanced.rendered
  · rw [balanced.nextSeq, List.length_append, UInt64.ofNat_add]
    rfl
  · rw [List.map_append, balanced.numbered, List.length_append, List.length_singleton,
      List.range_succ, List.map_append, List.map_singleton, List.map_singleton, number,
      balanced.nextSeq]

theorem push_books (s : Cosim) (kind : CosimRcpEventKind) (taskType : UInt32) (gfxSeq : UInt64)
    (mq : Ptr) (msg : OSMesg) (delay : UInt64) : ∃ ev, ev.seq = s.books.rcpNextSeq ∧
      (s.push kind taskType gfxSeq mq msg delay).books = s.books.schedule ev := by
  obtain ⟨ticks, same⟩ := s.syncTimeFloor_clock
  unfold push
  rw [same]
  refine ⟨⟨ticks + delay, s.rcpNextSeq, gfxSeq, taskType, mq, msg, kind⟩, rfl, ?_⟩
  simp only [books, CosimBooks.schedule]

theorem Balanced.push {s : Cosim} (balanced : Balanced s.books) (kind : CosimRcpEventKind)
    (taskType : UInt32) (gfxSeq : UInt64) (mq : Ptr) (msg : OSMesg) (delay : UInt64) :
    Balanced (s.push kind taskType gfxSeq mq msg delay).books := by
  obtain ⟨ev, number, same⟩ := s.push_books kind taskType gfxSeq mq msg delay
  rw [same]
  exact balanced.schedule number

theorem Balanced.scheduleQueueEvent {s : Cosim} (balanced : Balanced s.books)
    (kind : CosimRcpEventKind) (mq : Ptr) (msg : OSMesg) (delay : UInt64) :
    Balanced (s.scheduleQueueEvent kind mq msg delay).books := by
  unfold Cosim.scheduleQueueEvent
  split
  · exact balanced
  · exact balanced.push _ _ _ _ _ _

theorem Balanced.submitRspTask {s : Cosim} (balanced : Balanced s.books) (taskType : UInt32)
    (gfxSp gfxDp rspSp : UInt64) :
    Balanced (s.submitRspTask taskType gfxSp gfxDp rspSp).books := by
  simp only [Cosim.submitRspTask, scheduleRcpEvent]
  split
  · apply Balanced.push
    apply Balanced.push
    rw [gfxRendered_books]
    exact balanced
  · exact balanced.push _ _ _ _ _ _

theorem Balanced.advanceVi {s : Cosim} (balanced : Balanced s.books) :
    Balanced s.advanceVi.books := by
  have flipped : Balanced s.flipVi.books := by rwa [flipVi_books]
  have counted : Balanced s.flipVi.countRetrace.books := by
    simp only [countRetrace]
    generalize s.flipVi = s at flipped
    split
    · split
      · exact flipped.scheduleQueueEvent (s := { s with
          remainingRetraces := s.remainingRetraces - 1 }) _ _ _ _
      · exact flipped
    · exact flipped
  change Balanced s.flipVi.countRetrace.audioEvent.books
  unfold audioEvent
  split
  · exact counted.scheduleQueueEvent _ _ _ _
  · exact counted

/-! ## What one delivery call does -/

def drained (s : Cosim) (split : List CosimRcpEvent × List CosimRcpEvent) : Cosim :=
  { s with
    rcpEvents := split.2
    delivered := split.1.foldl CosimCounts.count s.delivered
    deliveredLog := s.deliveredLog ++ split.1.map s.delivery }

/-- The clock is not behind the VI count. -/
def Synced (s : Cosim) : Prop := ¬ s.timeTicks < counterPerVi * s.totalVis

theorem syncTimeFloor_synced (s : Cosim) : s.syncTimeFloor.Synced := by
  unfold Synced
  simp only [syncTimeFloor]
  split
  · exact UInt64.lt_irrefl _
  · assumption

theorem Synced.syncTimeFloor {s : Cosim} (synced : s.Synced) : s.syncTimeFloor = s := if_neg synced

def drain (s : Cosim) (fuel : Nat) : List CosimRcpEvent × List CosimRcpEvent :=
  DueQueue.drain (isDue s.timeTicks) (blocked s.gfxRenderedSeq) earlier fuel s.rcpEvents

theorem drain_perm (s : Cosim) (fuel : Nat) :
    ((s.drain fuel).1 ++ (s.drain fuel).2).Perm s.rcpEvents :=
  DueQueue.drain_perm earlier_iff fuel s.rcpEvents

theorem drain_ready (s : Cosim) (fuel : Nat) : ∀ ev ∈ (s.drain fuel).1,
    ev ∈ s.rcpEvents ∧ isDue s.timeTicks ev = true ∧ blocked s.gfxRenderedSeq ev = false :=
  DueQueue.drain_ready earlier_iff fuel s.rcpEvents

theorem drain_sorted (s : Cosim) (fuel : Nat) :
    (s.drain fuel).1.Pairwise fun a b => a.key ≤ b.key :=
  DueQueue.drain_sorted earlier_iff fuel s.rcpEvents

def round (s : Cosim) (ev : CosimRcpEvent) (best : Nat) : Cosim := (s.erase best).deliver ev

section Round
variable (s : Cosim) (ev : CosimRcpEvent) (best : Nat)

theorem round_synced (synced : s.Synced) : (s.round ev best).Synced := by
  simp only [Synced, round, deliver, erase] at synced ⊢
  exact synced

theorem round_delivery : (s.round ev best).delivery = s.delivery := by
  funext other
  simp only [delivery, round, deliver, erase]

theorem round_drain (fuel : Nat) : (s.round ev best).drain fuel =
    DueQueue.drain (isDue s.timeTicks) (blocked s.gfxRenderedSeq) earlier fuel
      (s.rcpEvents.eraseIdx best) := by
  simp only [drain, round, deliver, erase]

theorem round_drained (events rest : List CosimRcpEvent) :
    (s.round ev best).drained (events, rest) = s.drained (ev :: events, rest) := by
  have log : (s.round ev best).deliveredLog = s.deliveredLog ++ [s.delivery ev] := by
    simp only [round, deliver, erase, delivery]
  simp only [Cosim.drained, round_delivery, log, List.map_cons, List.append_assoc,
    List.singleton_append, List.foldl_cons]
  simp only [round, deliver, erase]

end Round

theorem drained_nothing (s : Cosim) : s.drained ([], s.rcpEvents) = s := by
  simp only [Cosim.drained, List.foldl_nil, List.map_nil, List.append_nil]

theorem popNow_eq (s : Cosim) :
    s.popNow = match DueQueue.best (isDue s.timeTicks) earlier s.rcpEvents with
      | none => (none, s)
      | some (ev, best) =>
          if blocked s.gfxRenderedSeq ev then (none, s) else (some ev, s.erase best) := by
  simp only [popNow, popDueRcpEvent]
  cases DueQueue.best (isDue s.timeTicks) earlier s.rcpEvents with
  | none => rfl
  | some picked =>
      obtain ⟨ev, best⟩ := picked
      cases stuck : blocked s.gfxRenderedSeq ev <;> simp [stuck]

/-- The loop is the drain of the vector at a clock that stands still. -/
theorem deliverLoop_drain : ∀ (fuel : Nat) (s : Cosim), s.Synced →
    deliverLoop fuel s = (UInt32.ofNat (s.drain fuel).1.length, s.drained (s.drain fuel)) := by
  intro fuel
  induction fuel with
  | zero =>
      intro s _
      rw [deliverLoop, drain, DueQueue.drain, drained_nothing]
      rfl
  | succ fuel ih =>
      intro s synced
      rw [deliverLoop, synced.syncTimeFloor, deliverRound, popNow_eq, drain, DueQueue.drain]
      cases DueQueue.best (isDue s.timeTicks) earlier s.rcpEvents with
      | none =>
          simp only [drained_nothing, List.length_nil]
          rfl
      | some picked =>
          obtain ⟨ev, i⟩ := picked
          cases stuck : blocked s.gfxRenderedSeq ev with
          | true =>
              simp only [stuck, if_true, drained_nothing, List.length_nil]
              rfl
          | false =>
              have behind := ih (s.round ev i) (s.round_synced ev i synced)
              rw [round_drain] at behind
              simp only [stuck, Bool.false_eq_true, if_false]
              rw [← round_drained, ← round, behind, List.length_cons, UInt32.ofNat_add]
              rfl

theorem deliverDueRcpEvents_drain (s : Cosim) :
    s.deliverDueRcpEvents =
      (UInt32.ofNat (s.syncTimeFloor.drain (s.rcpEvents.length + 1)).1.length,
        s.syncTimeFloor.drained (s.syncTimeFloor.drain (s.rcpEvents.length + 1))) := by
  have synced := syncTimeFloor_synced s
  rw [← deliverLoop_drain _ _ synced, deliverDueRcpEvents, deliverLoop, deliverLoop,
    synced.syncTimeFloor]

theorem foldl_count (events : List CosimRcpEvent) (counter : CosimCounter) :
    ∀ counts : CosimCounts, events.foldl CosimCounts.count counts counter =
      counts counter + UInt64.ofNat (events.countP (·.counted counter)) := by
  induction events with
  | nil => intro counts; simp
  | cons ev rest ih =>
      intro counts
      rw [List.foldl_cons, ih, count_eq, UInt64.add_assoc, ← ofNat_countP_append,
        List.singleton_append]

theorem not_blocked {rendered : UInt64} {ev : CosimRcpEvent} (free : blocked rendered ev = false)
    (dp : ev.kind = .dpComplete) : ev.gfxSeq ≤ rendered := by
  simp only [blocked, dp, decide_true, Bool.true_and, Bool.and_eq_false_iff,
    decide_eq_false_iff_not, ne_eq, not_not, UInt64.not_lt] at free
  rcases free with none | sent
  · rw [none]
    exact UInt64.le_iff_toNat_le.mpr (Nat.zero_le _)
  · exact sent

theorem Balanced.settle {b : CosimBooks} (balanced : Balanced b) {deliveries : List CosimDelivery}
    {rest : List CosimRcpEvent}
    (perm : (deliveries.map CosimDelivery.event ++ rest).Perm b.rcpEvents)
    (due : ∀ delivery ∈ deliveries, delivery.event.dueCycle ≤ delivery.now)
    (rendered : ∀ delivery ∈ deliveries, delivery.event.kind = .dpComplete →
      delivery.event.gfxSeq ≤ delivery.rendered) : Balanced (b.settle deliveries rest) := by
  refine ⟨?_, ?_, ?_, ?_, ?_, ?_, ?_⟩ <;> simp only [CosimBooks.settle]
  · rw [List.map_append, List.append_assoc]
    exact (perm.append_left _).trans balanced.once
  · intro counter
    rw [balanced.counted, foldl_count, UInt64.add_assoc, ← ofNat_countP_append, perm.countP_eq]
  · intro counter
    rw [foldl_count, balanced.deliveries, ofNat_countP_append, List.countP_map]
    rfl
  · intro delivery member
    rcases List.mem_append.mp member with old | new
    · exact balanced.due delivery old
    · exact due delivery new
  · intro delivery member
    rcases List.mem_append.mp member with old | new
    · exact balanced.rendered delivery old
    · exact rendered delivery new
  · exact balanced.nextSeq
  · exact balanced.numbered

theorem delivery_events (s : Cosim) (events : List CosimRcpEvent) :
    (events.map s.delivery).map CosimDelivery.event = events := by
  rw [List.map_map]
  exact List.map_id _

theorem drained_books (s : Cosim) (events rest : List CosimRcpEvent) :
    (s.drained (events, rest)).books = s.books.settle (events.map s.delivery) rest := by
  simp only [Cosim.drained, books, CosimBooks.settle, delivery_events]

theorem Balanced.drained {s : Cosim} (balanced : Balanced s.books) (fuel : Nat) :
    Balanced (s.drained (s.drain fuel)).books := by
  have perm := s.drain_perm fuel
  have ready := s.drain_ready fuel
  generalize s.drain fuel = split at perm ready
  obtain ⟨events, rest⟩ := split
  rw [drained_books]
  apply balanced.settle
  · rw [delivery_events]
    exact perm
  · intro delivery member
    obtain ⟨ev, inEvents, rfl⟩ := List.mem_map.mp member
    have isDue := (ready ev inEvents).2.1
    simp only [Cosim.isDue, Bool.not_eq_true', decide_eq_false_iff_not, UInt64.not_lt] at isDue
    exact isDue
  · intro delivery member dp
    obtain ⟨ev, inEvents, rfl⟩ := List.mem_map.mp member
    exact not_blocked (ready ev inEvents).2.2 dp

theorem Balanced.deliverDueRcpEvents {s : Cosim} (balanced : Balanced s.books) :
    Balanced s.deliverDueRcpEvents.2.books := by
  rw [deliverDueRcpEvents_drain]
  apply Balanced.drained
  rwa [syncTimeFloor_books]

theorem Balanced.advanceDueVi {s : Cosim} (balanced : Balanced s.books) (allow : UInt32) :
    Balanced (s.advanceDueVi allow).2.books := by
  have taken : Balanced (s.takeViToken allow).2.books := by rwa [takeViToken_books]
  simp only [Cosim.advanceDueVi]
  split
  · exact taken.advanceVi.deliverDueRcpEvents
  · exact taken

theorem Balanced.advanceToNextRcpEvent {s : Cosim} (balanced : Balanced s.books) :
    Balanced s.advanceToNextRcpEvent.2.books := by
  have first := (balanced.advanceDueVi 0).deliverDueRcpEvents
  simp only [Cosim.advanceToNextRcpEvent]
  generalize (s.advanceDueVi 0).2.deliverDueRcpEvents = rcp at first
  split
  · exact first
  split
  · exact first
  have moved : ∀ due, Balanced (rcp.2.syncTimeFloor.advanceTo due).books := by
    intro due
    rwa [advanceTo_books, syncTimeFloor_books]
  split
  · exact (moved _).advanceDueVi 0
  · exact (moved _).deliverDueRcpEvents

theorem Balanced.perform {s : Cosim} (balanced : Balanced s.books) (op : CosimOp) :
    Balanced (s.perform op).books := by
  cases op with
  | resetTime | resetViCounter | osViSetEvent | osSetEventMesg | startGame => exact balanced
  | advanceTimeTicks ticks => simpa [Cosim.perform] using balanced
  | advanceCpuCycles retired cycles => simpa [Cosim.perform] using balanced
  | scheduleRcpEvent kind taskType delay gfxSeq => exact balanced.push _ _ _ _ _ _
  | scheduleQueueEvent kind mq msg delay => exact balanced.scheduleQueueEvent _ _ _ _
  | submitRspTask taskType gfxSp gfxDp rspSp => exact balanced.submitRspTask _ _ _ _
  | gfxRendered gfxSeq => simpa [Cosim.perform] using balanced
  | deliverDueRcpEvents => exact balanced.deliverDueRcpEvents
  | rcpEventDue => simpa [Cosim.perform] using balanced
  | requestVi count => simpa [Cosim.perform] using balanced
  | advanceDueVi allow => exact balanced.advanceDueVi allow
  | advanceToNextRcpEvent => exact balanced.advanceToNextRcpEvent

end Cosim

/-- The co-simulation right after `ultramodern_cosim_reset_rcp_events`. -/
def RcpReset (s : Cosim) : Prop := ∃ before : Cosim, s = before.resetRcpEvents

theorem reach_balanced {s : Cosim} (reached : Reach cosimStep Always RcpReset s) :
    Cosim.Balanced s.books := by
  refine reached.invariant (I := fun s => Cosim.Balanced s.books) (fun s first => ?_)
    fun s op t balanced _ taken => ?_
  · obtain ⟨before, rfl⟩ := first
    exact
      { once := List.Perm.refl _
        counted := fun _ => rfl
        deliveries := fun _ => rfl
        due := by intro delivery member; simp [Cosim.books, Cosim.resetRcpEvents] at member
        rendered := by intro delivery member; simp [Cosim.books, Cosim.resetRcpEvents] at member
        nextSeq := rfl
        numbered := rfl }
  · cases taken
    exact balanced.perform op

def InOrder (a b : CosimDelivery) : Prop :=
  a.event.dueCycle < b.event.dueCycle ∨
    (a.event.dueCycle = b.event.dueCycle ∧ a.event.seq ≤ b.event.seq)

def StrictlyInOrder (a b : CosimDelivery) : Prop :=
  a.event.dueCycle < b.event.dueCycle ∨
    (a.event.dueCycle = b.event.dueCycle ∧ a.event.seq < b.event.seq)

/-- What a delivery call made now adds to the log comes in order; in strictly
increasing order as long as the sequence counter has not wrapped. -/
def Cosim.DeliversInOrder (s : Cosim) : Prop :=
  ∃ segment, s.deliverDueRcpEvents.2.deliveredLog = s.deliveredLog ++ segment ∧
    segment.Pairwise InOrder ∧
    (s.scheduledLog.length ≤ 2 ^ 64 → segment.Pairwise StrictlyInOrder)

theorem inOrder_of_key {a b : CosimDelivery} (order : a.event.key ≤ b.event.key) : InOrder a b := by
  rw [CosimRcpEvent.key, CosimRcpEvent.key, Prod.Lex.toLex_le_toLex] at order
  rcases order with sooner | ⟨same, before⟩
  · exact Or.inl (UInt64.lt_iff_toNat_lt.mpr sooner)
  · exact Or.inr ⟨UInt64.toNat_inj.mp same, UInt64.le_iff_toNat_le.mpr before⟩

theorem InOrder.strict {a b : CosimDelivery} (order : InOrder a b)
    (apart : a.event.seq ≠ b.event.seq) : StrictlyInOrder a b := by
  rcases order with sooner | ⟨same, before⟩
  · exact Or.inl sooner
  · exact Or.inr ⟨same, UInt64.lt_of_le_of_ne before apart⟩

theorem numbered_nodup {n : Nat} (few : n ≤ 2 ^ 64) : ((List.range n).map UInt64.ofNat).Nodup := by
  refine List.Nodup.map_on ?_ List.nodup_range
  intro i inRange j inRange' same
  have iSmall : i < 2 ^ 64 := lt_of_lt_of_le (List.mem_range.mp inRange) few
  have jSmall : j < 2 ^ 64 := lt_of_lt_of_le (List.mem_range.mp inRange') few
  have equal := congrArg UInt64.toNat same
  rwa [UInt64.toNat_ofNat_of_lt' iSmall, UInt64.toNat_ofNat_of_lt' jSmall] at equal

theorem Cosim.Balanced.pending_distinct {b : CosimBooks} (balanced : Balanced b)
    (few : b.scheduledLog.length ≤ 2 ^ 64) : (b.rcpEvents.map CosimRcpEvent.seq).Nodup := by
  have all : (b.scheduledLog.map CosimRcpEvent.seq).Nodup := by
    rw [balanced.numbered]
    exact numbered_nodup few
  have perm := balanced.once.map CosimRcpEvent.seq
  have whole := perm.nodup_iff.mpr all
  rw [List.map_append] at whole
  exact (List.nodup_append.mp whole).2.1

theorem Cosim.Balanced.deliversInOrder {s : Cosim} (balanced : Balanced s.books) :
    s.DeliversInOrder := by
  have synced : Balanced s.syncTimeFloor.books := by rwa [syncTimeFloor_books]
  have log := syncTimeFloor_deliveredLog s
  have scheduled := syncTimeFloor_scheduledLog s
  have perm := s.syncTimeFloor.drain_perm (s.rcpEvents.length + 1)
  have sorted := s.syncTimeFloor.drain_sorted (s.rcpEvents.length + 1)
  set events := (s.syncTimeFloor.drain (s.rcpEvents.length + 1)).1
  have ordered : (events.map s.syncTimeFloor.delivery).Pairwise InOrder :=
    List.pairwise_map.mpr (sorted.imp fun {a b} order => inOrder_of_key order)
  refine ⟨events.map s.syncTimeFloor.delivery, ?_, ordered, fun few => ?_⟩
  · rw [deliverDueRcpEvents_drain, ← log]
    rfl
  · have pending := synced.pending_distinct (by rw [← scheduled] at few; exact few)
    have distinct : (events.map CosimRcpEvent.seq).Nodup := by
      have whole := (perm.map CosimRcpEvent.seq).nodup_iff.mpr pending
      rw [List.map_append] at whole
      exact (List.nodup_append.mp whole).1
    have apart : (events.map s.syncTimeFloor.delivery).Pairwise
        fun a b => a.event.seq ≠ b.event.seq :=
      List.pairwise_map.mpr (List.pairwise_map.mp distinct)
    exact (ordered.and apart).imp fun {a b} both => both.1.strict both.2

/-- Delivered once or pending, in step with every counter, none before its due
cycle, no DP completion before its display list was sent. -/
structure Cosim.Accounted (s : Cosim) : Prop where
  once : (s.deliveredLog.map CosimDelivery.event ++ s.rcpEvents).Perm s.scheduledLog
  counted : ∀ counter, s.scheduled counter =
    s.delivered counter + UInt64.ofNat (s.rcpEvents.countP (·.counted counter))
  deliveries : ∀ counter, s.delivered counter =
    UInt64.ofNat (s.deliveredLog.countP fun delivery => delivery.event.counted counter)
  due : ∀ delivery ∈ s.deliveredLog, delivery.event.dueCycle ≤ delivery.now
  rendered : ∀ delivery ∈ s.deliveredLog, delivery.event.kind = .dpComplete →
    delivery.event.gfxSeq ≤ delivery.rendered

/-- In every state since the last reset. -/
theorem cosim_events_accounted {s : Cosim} (reached : Reach cosimStep Always RcpReset s) :
    s.Accounted ∧ s.DeliversInOrder := by
  have balanced := reach_balanced reached
  exact ⟨⟨balanced.once, balanced.counted, balanced.deliveries, balanced.due, balanced.rendered⟩,
    balanced.deliversInOrder⟩

theorem cosim_events_accounted_run : ∃ s, Reach cosimStep Always RcpReset s ∧
    s.deliveredLog.length = 2 ∧ s.rcpEvents.length = 1 ∧ s.Accounted ∧ s.DeliversInOrder := by
  obtain ⟨s, ran, delivered, pending⟩ : ∃ s, run cosimStep Always Cosim.boot.resetRcpEvents
      [.scheduleRcpEvent .spComplete mAudTask 2048 0, .submitRspTask mGfxTask 512 4096 2048,
        .advanceTimeTicks 3000, .deliverDueRcpEvents] = some s ∧
      s.deliveredLog.length = 2 ∧ s.rcpEvents.length = 1 := ⟨_, rfl, rfl, rfl⟩
  have reached : Reach cosimStep Always RcpReset s := reach_of_run _ ⟨Cosim.boot, rfl⟩ ran
  exact ⟨s, reached, delivered, pending, cosim_events_accounted reached⟩

/-! ## The due check -/

def Cosim.Deliverable (s : Cosim) : Prop :=
  ∃ ev ∈ s.rcpEvents, isDue s.getTimeTicks ev = true ∧ blocked s.gfxRenderedSeq ev = false

/-- The earliest due event is a DP completion that waits for its display list,
while another event is due and could be delivered. -/
def Cosim.HeadBlocked (s : Cosim) : Prop :=
  ∃ pre head post, s.rcpEvents = pre ++ head :: post ∧
    DueQueue.Picked (isDue s.getTimeTicks) CosimRcpEvent.key pre head post ∧
    blocked s.gfxRenderedSeq head = true ∧ s.Deliverable

def Cosim.Delivers (s : Cosim) : Prop := s.deliverDueRcpEvents.2.deliveredLog ≠ s.deliveredLog

namespace Cosim

theorem viDueNow_sync (s : Cosim) : s.viDueNow.2.syncTimeFloor = s.syncTimeFloor := by
  simp only [viDueNow]
  split
  · rfl
  · exact (syncTimeFloor_synced s).syncTimeFloor

/-- With no VI in sight the due check looks at the vector alone. -/
theorem rcpEventDue_quiet {s : Cosim} (quiet : s.viAdvancing = false) (noVi : s.viDueNow.1 = false) :
    s.rcpEventDue = (if s.rcpEvents.any fun ev =>
      isDue s.getTimeTicks ev && !blocked s.gfxRenderedSeq ev then 1 else 0, s.syncTimeFloor) := by
  simp only [rcpEventDue, quiet, noVi, Bool.false_eq_true, if_false, viDueNow_sync,
    syncTimeFloor_rcpEvents, syncTimeFloor_gfxRenderedSeq]
  rfl

/-- A delivery takes something out exactly when the scan picks an event that is
not blocked. -/
theorem delivers_iff (s : Cosim) : s.Delivers ↔
    ∃ e i, DueQueue.best (isDue s.getTimeTicks) earlier s.rcpEvents = some (e, i) ∧
      blocked s.gfxRenderedSeq e = false := by
  have log := syncTimeFloor_deliveredLog s
  have nothing : s.deliverDueRcpEvents.2.deliveredLog = s.deliveredLog ↔
      (s.syncTimeFloor.drain (s.rcpEvents.length + 1)).1 = [] := by
    rw [deliverDueRcpEvents_drain]
    simp only [Cosim.drained, log, List.append_right_eq_self, List.map_eq_nil_iff]
  unfold Delivers getTimeTicks
  rw [ne_eq, nothing, drain, DueQueue.drain_nil_iff, syncTimeFloor_rcpEvents,
    syncTimeFloor_gfxRenderedSeq]
  simp only [not_forall, Bool.not_eq_true, exists_prop]

theorem rcpEventDue_iff {s : Cosim} (quiet : s.viAdvancing = false) (noVi : s.viDueNow.1 = false) :
    s.rcpEventDue.1 = 1 ↔ s.Deliverable := by
  rw [rcpEventDue_quiet quiet noVi]
  have any : (s.rcpEvents.any fun ev =>
      isDue s.getTimeTicks ev && !blocked s.gfxRenderedSeq ev) = true ↔ s.Deliverable := by
    simp only [Deliverable, List.any_eq_true, Bool.and_eq_true, Bool.not_eq_true']
  rw [← any]
  cases (s.rcpEvents.any fun ev => isDue s.getTimeTicks ev && !blocked s.gfxRenderedSeq ev) <;>
    simp

/-- The clock that the delivery behind the due check meets is the same. -/
theorem delivers_behind_check {s : Cosim} (quiet : s.viAdvancing = false)
    (noVi : s.viDueNow.1 = false) : s.rcpEventDue.2.Delivers ↔
      ∃ e i, DueQueue.best (isDue s.getTimeTicks) earlier s.rcpEvents = some (e, i) ∧
        blocked s.gfxRenderedSeq e = false := by
  have same : s.syncTimeFloor.getTimeTicks = s.getTimeTicks := by
    rw [getTimeTicks, (syncTimeFloor_synced s).syncTimeFloor, getTimeTicks]
  rw [rcpEventDue_quiet quiet noVi, delivers_iff, same, syncTimeFloor_rcpEvents,
    syncTimeFloor_gfxRenderedSeq]

end Cosim

/-- The check and the delivery behind it agree except where a blocked DP
completion stands first. -/
theorem rcp_event_due_agrees_iff (s : Cosim) (quiet : s.viAdvancing = false)
    (noVi : s.viDueNow.1 = false) :
    (s.rcpEventDue.1 = 1 ↔ s.rcpEventDue.2.Delivers) ↔ ¬ s.HeadBlocked := by
  rw [Cosim.rcpEventDue_iff quiet noVi, Cosim.delivers_behind_check quiet noVi]
  cases found : DueQueue.best (Cosim.isDue s.getTimeTicks) Cosim.earlier s.rcpEvents with
  | none =>
      have idle := DueQueue.best_none found
      have nothing : ¬ s.Deliverable := by
        rintro ⟨ev, member, due, -⟩
        rw [idle ev member] at due
        contradiction
      have unblocked : ¬ s.HeadBlocked := fun ⟨_, _, _, _, _, _, other⟩ => nothing other
      simp [nothing, unblocked]
  | some picked =>
      obtain ⟨e, i⟩ := picked
      obtain ⟨pre, post, split, -, first⟩ := DueQueue.best_some earlier_iff found
      cases stuck : Cosim.blocked s.gfxRenderedSeq e with
      | true =>
          have head : s.HeadBlocked ↔ s.Deliverable :=
            ⟨fun ⟨_, _, _, _, _, _, other⟩ => other,
              fun other => ⟨pre, e, post, split, first, stuck, other⟩⟩
          simp [head, stuck]
      | false =>
          have some : s.Deliverable := ⟨e, by rw [split]; simp, first.isDue, stuck⟩
          have unblocked : ¬ s.HeadBlocked := by
            rintro ⟨pre', head, post', split', first', waits, -⟩
            obtain ⟨-, rfl, -⟩ := first.unique first' (split.symm.trans split')
            rw [stuck] at waits
            contradiction
          simp [some, unblocked, stuck]

/-- A display list that has not been sent, and an SP completion due behind it. -/
def waitingForRender : Cosim :=
  { ((Cosim.boot.scheduleRcpEvent .dpComplete mGfxTask 512 1).scheduleRcpEvent
      .spComplete mAudTask 1024 0).advanceTimeTicks 2048 with gameStarted := true }

theorem waiting_for_render_disagrees : ¬ ∀ s : Cosim, s.viAdvancing = false →
    s.viDueNow.1 = false → (s.rcpEventDue.1 = 1 ↔ s.rcpEventDue.2.Delivers) := by
  intro agrees
  have both := agrees waitingForRender rfl rfl
  have due : waitingForRender.rcpEventDue.1 = 1 := by decide
  have delivered := both.mp due
  rw [Cosim.delivers_behind_check rfl rfl] at delivered
  obtain ⟨e, i, found, free⟩ := delivered
  have first : DueQueue.best (Cosim.isDue waitingForRender.getTimeTicks) Cosim.earlier
      waitingForRender.rcpEvents =
        some (⟨512, 0, 1, mGfxTask, nullptr, 0, .dpComplete⟩, 0) := by decide
  rw [first] at found
  cases found
  exact absurd free (by decide)

/-- An SP completion that is due, between a display list due later that has not
been sent and an SP completion that is not due. -/
def mixedEvents : Cosim :=
  { (((Cosim.boot.scheduleRcpEvent .dpComplete mGfxTask 1024 1).scheduleRcpEvent
      .spComplete mAudTask 512 0).scheduleRcpEvent .spComplete mAudTask 4096 0).advanceTimeTicks 2048
    with gameStarted := true }

theorem rcp_event_due_agrees_mixed : mixedEvents.rcpEventDue.1 = 1 ∧
    (∃ ev ∈ mixedEvents.rcpEvents, Cosim.isDue mixedEvents.getTimeTicks ev = true ∧
      Cosim.blocked mixedEvents.gfxRenderedSeq ev = true) ∧
    (∃ ev ∈ mixedEvents.rcpEvents, Cosim.isDue mixedEvents.getTimeTicks ev = false) ∧
    mixedEvents.rcpEventDue.2.Delivers := by
  have due : mixedEvents.rcpEventDue.1 = 1 := by decide
  have unblocked : ¬ mixedEvents.HeadBlocked := by
    rintro ⟨pre, head, post, split, picked, waits, -⟩
    have found : DueQueue.best (Cosim.isDue mixedEvents.getTimeTicks) Cosim.earlier
        mixedEvents.rcpEvents = some (⟨512, 1, 0, mAudTask, nullptr, 0, .spComplete⟩, 1) := by
      decide
    obtain ⟨before, after, cut, -, first⟩ := DueQueue.best_some earlier_iff found
    obtain ⟨-, rfl, -⟩ := first.unique picked (cut.symm.trans split)
    exact absurd waits (by decide)
  exact ⟨due, by decide, by decide,
    ((rcp_event_due_agrees_iff mixedEvents rfl rfl).mpr unblocked).mp due⟩

end N64ModernRuntime.Ultramodern
