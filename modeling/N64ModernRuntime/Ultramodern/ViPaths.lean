import N64ModernRuntime.Ultramodern.CosimDelivery

/-!
# The two copies of the VI countdown

`vi_thread_func` and `ultramodern_cosim_advance_vi` count the same ticks down
from the same registrations.  The thread tests its countdown for zero and
reloads whatever count is registered, so a count that is not positive stops it
for good; the co-simulation tests for at most zero and reloads at least one.
-/

set_option autoImplicit false

namespace N64ModernRuntime.Ultramodern

/-- What a retrace reads of a `ViState`. -/
structure RetraceSlot where
  mq : Ptr
  msg : OSMesg
  count : Int
  deriving DecidableEq, Repr

def ViState.slot (state : ViState) : RetraceSlot := ⟨state.mq, state.msg, state.retraceCount⟩

inductive ViOp where
  | osViSetEvent (mq : Ptr) (msg : OSMesg) (retraceCount : UInt32)
  | tick
  deriving DecidableEq, Repr

/-- The registration in force at each tick: the last one before it. -/
def slotsAt : RetraceSlot → List ViOp → List RetraceSlot
  | _, [] => []
  | _, .osViSetEvent mq msg count :: ops => slotsAt ⟨mq, msg, retraceInt count⟩ ops
  | slot, .tick :: ops => slot :: slotsAt slot ops

def threadPosts : ViThread → List ViOp → List (List Post)
  | _, [] => []
  | s, .osViSetEvent mq msg count :: ops =>
      threadPosts { s with context := s.context.osViSetEvent mq msg count } ops
  | s, .tick :: ops =>
      let round := viThreadRound s true
      round.1 :: threadPosts round.2 ops

/-- The events that one call of `advance_vi` schedules, as they are posted. -/
def Cosim.viPosts (s : Cosim) : List Post :=
  (s.advanceVi.scheduledLog.drop s.scheduledLog.length).map (postOf s.context)

def cosimPosts : Cosim → List ViOp → List (List Post)
  | _, [] => []
  | s, .osViSetEvent mq msg count :: ops =>
      cosimPosts { s with context := s.context.osViSetEvent mq msg count } ops
  | s, .tick :: ops => s.viPosts :: cosimPosts s.advanceVi ops

def Cosim.startVi (s : Cosim) (context : EventsContext) : Cosim :=
  { s with context := context, remainingRetraces := 1, gameStarted := true }

/-- Once a countdown has ended on a count that is not positive, none ends on a
registered queue again.  `left` counts the ticks down, such a count as one. -/
def EndsQuietly : Bool → Int → List RetraceSlot → Prop
  | _, _, [] => True
  | stopped, left, slot :: rest =>
      if left - 1 ≤ 0 then
        (stopped = true → slot.mq = nullptr) ∧
          EndsQuietly (stopped || decide (slot.count ≤ 0)) (if 0 < slot.count then slot.count else 1)
            rest
      else EndsQuietly stopped (left - 1) rest

/-! ## One tick -/

def RetraceSlot.post (slot : RetraceSlot) : Post := ⟨slot.mq, slot.msg, true⟩

def aiPosts (context : EventsContext) : List Post :=
  if context.ai.mq ≠ nullptr then [⟨context.ai.mq, context.ai.msg, false⟩] else []

def retracePosts (ended : Bool) (slot : RetraceSlot) : List Post :=
  if ended = true ∧ slot.mq ≠ nullptr then [slot.post] else []

theorem setNext_next (vi : Vi) (state : ViState) : (vi.setNext state).next = state := by
  simp [Vi.setNext, Vi.next]

theorem updateVi_curr (vi : Vi) : vi.updateVi.curr = vi.next := by
  simp [Vi.updateVi, Vi.curr, Vi.next, Function.update_of_ne]

theorem updateVi_next (vi : Vi) : vi.updateVi.next = vi.next := by
  simp [Vi.updateVi, Vi.next]

theorem setDummy_slot (vi : Vi) (odd : Bool) : (vi.setDummy odd).next.slot = vi.next.slot := by
  rw [Vi.setDummy, setNext_next]
  rfl

theorem osViSetEvent_slot (context : EventsContext) (mq : Ptr) (msg : OSMesg) (count : UInt32) :
    (context.osViSetEvent mq msg count).vi.next.slot = ⟨mq, msg, retraceInt count⟩ := by
  simp only [EventsContext.osViSetEvent, setNext_next]
  rfl

def threadLeft (left : Int) (slot : RetraceSlot) : Int :=
  if left - 1 = 0 then slot.count else left - 1

def cosimLeft (left : Int) (slot : RetraceSlot) : Int :=
  if left - 1 ≤ 0 then if 0 < slot.count then slot.count else 1 else left - 1

theorem viThreadRound_tick (s : ViThread) :
    (viThreadRound s true).1 =
      retracePosts (decide (s.remainingRetraces - 1 = 0)) s.context.vi.next.slot ++
        aiPosts s.context ∧
    (viThreadRound s true).2.context.vi.next.slot = s.context.vi.next.slot ∧
    (viThreadRound s true).2.context.ai = s.context.ai ∧
    (viThreadRound s true).2.remainingRetraces =
      threadLeft s.remainingRetraces s.context.vi.next.slot := by
  simp only [viThreadRound, not_true_eq_false, false_or, if_true, updateVi_curr, updateVi_next]
  -- what the dummy mode changes is no part of a slot
  have kept : ∀ d : ViThread, d.context.vi.next.slot = s.context.vi.next.slot →
      d.context.ai = s.context.ai → d.remainingRetraces = s.remainingRetraces →
      ((if d.remainingRetraces - 1 = 0 ∧ d.context.vi.next.mq ≠ nullptr then
          [Post.mk d.context.vi.next.mq d.context.vi.next.msg true] else []) ++
        (if d.context.ai.mq ≠ nullptr then [Post.mk d.context.ai.mq d.context.ai.msg false]
          else []) =
        retracePosts (decide (s.remainingRetraces - 1 = 0)) s.context.vi.next.slot ++
          aiPosts s.context) ∧
      d.context.vi.next.slot = s.context.vi.next.slot ∧ d.context.ai = s.context.ai ∧
      (if d.remainingRetraces - 1 = 0 then d.context.vi.next.retraceCount
        else d.remainingRetraces - 1) = threadLeft s.remainingRetraces s.context.vi.next.slot := by
    intro d slot ai left
    refine ⟨?_, slot, ai, ?_⟩
    · rw [← slot, ← left, ai]
      simp only [retracePosts, aiPosts, RetraceSlot.post, ViState.slot, decide_eq_true_eq]
    · rw [← slot, ← left]
      rfl
  split
  · exact kept _ (setDummy_slot _ _) rfl rfl
  · exact kept s rfl rfl rfl

section Cosim
variable (s : Cosim)

theorem flipVi_tick : s.flipVi.context.vi.curr.slot = s.context.vi.next.slot ∧
    s.flipVi.context.vi.next.slot = s.context.vi.next.slot ∧
    s.flipVi.context.ai = s.context.ai ∧ s.flipVi.remainingRetraces = s.remainingRetraces ∧
    s.flipVi.scheduledLog = s.scheduledLog := by
  simp only [Cosim.flipVi, updateVi_curr, updateVi_next]
  split
  · exact ⟨setDummy_slot _ _, setDummy_slot _ _, rfl, rfl, rfl⟩
  · exact ⟨rfl, rfl, rfl, rfl, rfl⟩

theorem scheduleQueueEvent_tick (context : EventsContext) {kind : CosimRcpEventKind}
    (carries : kind = .viRetrace ∨ kind = .aiEvent) (mq : Ptr) (msg : OSMesg) :
    ∃ events, (s.scheduleQueueEvent kind mq msg 0).scheduledLog = s.scheduledLog ++ events ∧
      events.map (Cosim.postOf context) =
        (if mq ≠ nullptr then [⟨mq, msg, decide (kind = .viRetrace)⟩] else []) ∧
      (s.scheduleQueueEvent kind mq msg 0).context = s.context ∧
      (s.scheduleQueueEvent kind mq msg 0).remainingRetraces = s.remainingRetraces := by
  by_cases null : mq = nullptr
  · refine ⟨[], ?_, ?_, ?_, ?_⟩ <;> simp [Cosim.scheduleQueueEvent, null]
  · obtain ⟨ticks, same⟩ := s.syncTimeFloor_clock
    have pushed : s.scheduleQueueEvent kind mq msg 0 = s.push kind 0 0 mq msg 0 := if_neg null
    rw [pushed, Cosim.push, same]
    refine ⟨[_], rfl, ?_, rfl, rfl⟩
    rcases carries with rfl | rfl <;> simp [Cosim.postOf, null]

theorem countRetrace_tick (context : EventsContext) :
    ∃ events, s.countRetrace.scheduledLog = s.scheduledLog ++ events ∧
      events.map (Cosim.postOf context) =
        retracePosts (decide (s.remainingRetraces - 1 ≤ 0)) s.context.vi.curr.slot ∧
      s.countRetrace.context = s.context ∧
      s.countRetrace.remainingRetraces = cosimLeft s.remainingRetraces s.context.vi.curr.slot := by
  simp only [Cosim.countRetrace, cosimLeft, retracePosts]
  split
  · rename_i ended
    obtain ⟨events, log, posts, same, -⟩ := scheduleQueueEvent_tick
      ({ s with remainingRetraces := s.remainingRetraces - 1 } : Cosim) context
      (Or.inl (Eq.refl CosimRcpEventKind.viRetrace)) s.context.vi.curr.mq s.context.vi.curr.msg
    by_cases null : s.context.vi.curr.mq = nullptr
    · refine ⟨[], ?_, ?_, ?_, ?_⟩ <;> simp [null, ViState.slot]
    · refine ⟨events, ?_, ?_, ?_, ?_⟩
      · simpa [null] using log
      · rw [posts]
        simp [ended, null, ViState.slot, RetraceSlot.post]
      · simpa [null] using same
      · rfl
  · rename_i counting
    exact ⟨[], by simp, by simp [counting], rfl, rfl⟩

theorem audioEvent_tick (context : EventsContext) :
    ∃ events, s.audioEvent.scheduledLog = s.scheduledLog ++ events ∧
      events.map (Cosim.postOf context) = aiPosts s.context ∧ s.audioEvent.context = s.context ∧
      s.audioEvent.remainingRetraces = s.remainingRetraces := by
  unfold Cosim.audioEvent aiPosts
  split
  · rename_i registered
    obtain ⟨events, log, posts, same, left⟩ := scheduleQueueEvent_tick s context
      (Or.inr (Eq.refl CosimRcpEventKind.aiEvent)) s.context.ai.mq s.context.ai.msg
    refine ⟨events, log, ?_, same, left⟩
    rw [posts, if_pos registered]
    rfl
  · exact ⟨[], by simp, rfl, rfl, rfl⟩

theorem advanceVi_tick :
    s.viPosts = retracePosts (decide (s.remainingRetraces - 1 ≤ 0)) s.context.vi.next.slot ++
      aiPosts s.context ∧
    s.advanceVi.context.vi.next.slot = s.context.vi.next.slot ∧
    s.advanceVi.context.ai = s.context.ai ∧
    s.advanceVi.remainingRetraces = cosimLeft s.remainingRetraces s.context.vi.next.slot := by
  obtain ⟨curr, next, ai, left, log⟩ := flipVi_tick s
  obtain ⟨retraces, log₁, posts₁, same₁, left₁⟩ := countRetrace_tick s.flipVi s.context
  obtain ⟨audio, log₂, posts₂, same₂, left₂⟩ := audioEvent_tick s.flipVi.countRetrace s.context
  refine ⟨?_, ?_, ?_, ?_⟩
  · have whole : s.advanceVi.scheduledLog = s.scheduledLog ++ (retraces ++ audio) := by
      rw [Cosim.advanceVi, log₂, log₁, log, List.append_assoc]
    have audible : aiPosts s.flipVi.countRetrace.context = aiPosts s.context := by
      rw [aiPosts, same₁, ai, aiPosts]
    rw [Cosim.viPosts, whole, List.drop_left, List.map_append, posts₁, posts₂, left, curr, audible]
  · rw [Cosim.advanceVi, same₂, same₁, next]
  · rw [Cosim.advanceVi, same₂, same₁, ai]
  · rw [Cosim.advanceVi, left₂, left₁, left, curr]

end Cosim

/-! ## Whole histories -/

/-- How the two countdowns stand while everything posted was the same: equal,
or the thread's stopped for good. -/
def Aligned (stopped : Bool) (thread cosim : Int) : Prop :=
  1 ≤ cosim ∧ if stopped then thread ≤ 0 else thread = cosim

theorem Aligned.tick {stopped : Bool} {thread cosim : Int} (aligned : Aligned stopped thread cosim)
    (slot : RetraceSlot) :
    Aligned (if cosim - 1 ≤ 0 then stopped || decide (slot.count ≤ 0) else stopped)
      (threadLeft thread slot) (cosimLeft cosim slot) := by
  obtain ⟨positive, relation⟩ := aligned
  unfold Aligned threadLeft cosimLeft
  cases stopped with
  | true =>
      simp only [if_true] at relation
      refine ⟨by split <;> [split; skip] <;> omega, ?_⟩
      simp only [Bool.true_or, ite_self, if_true]
      split <;> omega
  | false =>
      simp only [Bool.false_eq_true, if_false] at relation
      subst relation
      refine ⟨by split <;> [split; skip] <;> omega, ?_⟩
      by_cases ended : thread - 1 ≤ 0
      · have last : thread - 1 = 0 := by omega
        by_cases stops : slot.count ≤ 0
        · simp [last, stops]
        · have positive : 0 < slot.count := by omega
          simp [last, stops, positive]
      · have more : ¬ thread - 1 = 0 := by omega
        simp [ended, more]

/-- At one tick the two posts differ exactly when the thread has stopped and the
co-simulation ends a countdown on a registered queue. -/
theorem Aligned.posts_iff {stopped : Bool} {thread cosim : Int}
    (aligned : Aligned stopped thread cosim) (slot : RetraceSlot) :
    retracePosts (decide (thread - 1 = 0)) slot = retracePosts (decide (cosim - 1 ≤ 0)) slot ↔
      (cosim - 1 ≤ 0 → stopped = true → slot.mq = nullptr) := by
  obtain ⟨positive, relation⟩ := aligned
  unfold retracePosts
  cases stopped with
  | true =>
      simp only [if_true] at relation
      have silent : ¬ thread - 1 = 0 := by omega
      by_cases ended : cosim - 1 ≤ 0 <;> by_cases null : slot.mq = nullptr <;>
        simp [silent, ended, null]
  | false =>
      simp only [Bool.false_eq_true, if_false] at relation
      have same : (thread - 1 = 0) ↔ (cosim - 1 ≤ 0) := by omega
      simp [same]

theorem posts_agree_iff (ops : List ViOp) : ∀ (thread : ViThread) (cosim : Cosim) (stopped : Bool),
    thread.context.vi.next.slot = cosim.context.vi.next.slot →
    thread.context.ai = cosim.context.ai →
    Aligned stopped thread.remainingRetraces cosim.remainingRetraces →
    (threadPosts thread ops = cosimPosts cosim ops ↔
      EndsQuietly stopped cosim.remainingRetraces (slotsAt cosim.context.vi.next.slot ops)) := by
  induction ops with
  | nil =>
      intro thread cosim stopped _ _ _
      exact iff_of_true rfl trivial
  | cons op rest ih =>
      intro thread cosim stopped slot ai aligned
      cases op with
      | osViSetEvent mq msg count =>
          have registered := ih { thread with context := thread.context.osViSetEvent mq msg count }
            { cosim with context := cosim.context.osViSetEvent mq msg count } stopped
            (by rw [osViSetEvent_slot, osViSetEvent_slot]) ai aligned
          rw [osViSetEvent_slot] at registered
          exact registered
      | tick =>
          obtain ⟨posts, next, ai₁, left⟩ := viThreadRound_tick thread
          obtain ⟨posts', next', ai₂, left'⟩ := advanceVi_tick cosim
          have aligned' := aligned.tick cosim.context.vi.next.slot
          rw [← left', ← slot, ← left, slot] at aligned'
          have behind := ih (viThreadRound thread true).2 cosim.advanceVi _
            (by rw [next, next', slot]) (by rw [ai₁, ai₂, ai]) aligned'
          have audible : aiPosts thread.context = aiPosts cosim.context := by
            rw [aiPosts, ai, aiPosts]
          simp only [threadPosts, cosimPosts, List.cons.injEq, slotsAt]
          rw [posts, posts', audible, List.append_left_inj, slot, aligned.posts_iff, behind, next',
            left', EndsQuietly, cosimLeft]
          split
          · rename_i ended
            simp only [ended, true_implies]
          · rename_i counting
            simp only [counting, false_implies, true_and]

/-- The two paths post the same at every tick exactly when the countdowns end
quietly once one has ended on a count that is not positive. -/
theorem vi_paths_agree_iff (context : EventsContext) (odd : Bool) (s : Cosim) (ops : List ViOp) :
    threadPosts ⟨context, odd, 1⟩ ops = cosimPosts (s.startVi context) ops ↔
      EndsQuietly false 1 (slotsAt context.vi.next.slot ops) :=
  posts_agree_iff ops ⟨context, odd, 1⟩ (s.startVi context) false rfl rfl ⟨le_refl _, rfl⟩

def zeroCount : List ViOp := [.osViSetEvent 0x80100000 7 0, .tick, .tick]

theorem zero_count_disagrees : ¬ ∀ (context : EventsContext) (s : Cosim) (ops : List ViOp),
    threadPosts ⟨context, false, 1⟩ ops = cosimPosts (s.startVi context) ops := by
  intro agrees
  have quiet := (posts_agree_iff zeroCount ⟨{}, false, 1⟩ (Cosim.boot.startVi {}) false rfl rfl
    ⟨le_refl _, rfl⟩).mp (agrees {} Cosim.boot zeroCount)
  have null : (0x80100000 : Ptr) = nullptr := quiet.2.1 rfl
  exact absurd null (by decide)

end N64ModernRuntime.Ultramodern
