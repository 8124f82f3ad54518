import Mathlib.Data.List.Perm.Basic
import Mathlib.Data.List.Range
import N64ModernRuntime.Lib.ProducerQueue
import N64ModernRuntime.Ultramodern.StepCases

/-!
# The external queue of mesgqueue.cpp

Host threads post to `external_messages`; game threads take from it in
`dequeue_external_messages`, in the two idle waits and in the scheduler tick,
and hand each message on with a send that does not block.  The queue keeps the
order of each producer and no other.
-/

set_option autoImplicit false

namespace N64ModernRuntime.Ultramodern

open Transition ProducerQueue

/-- A game thread enqueues only what it puts back. -/
inductive Producer where
  | host (thread : Nat)
  | game (c : ContextId)
  deriving DecidableEq, Repr

/-- One call of `enqueue_external_tagged` by a host thread. -/
structure Posted where
  id : Nat
  thread : Nat
  msg : QueuedMessage
  deriving DecidableEq, Repr

/-- The thread machine with its external queue.  The logs hold what was posted,
what has entered its target, what was put back and what was dropped, each of
the last two with the fullness of the target when it was dequeued. -/
structure External where
  kernel : Kernel
  externalMessages : Queue Producer Posted
  posted : List Posted
  delivered : List Posted
  requeued : List (Posted × Bool)
  dropped : List (Posted × Bool)

variable (layout : ThreadLayout)

/-- `i` is the position of the element that the dequeue takes. -/
inductive ExternalLabel where
  | post (thread : Nat) (msg : QueuedMessage)
  | guest (l : Label layout)
  | drain (c : ContextId) (i : Nat)
  | idle (c : ContextId) (i : Nat)
  | tick (c : ContextId) (i : Nat) (skip : Bool)

variable {layout}

def Label.handsOn : Label layout → Option QueuedMessage
  | .deliver _ msg => some msg
  | .call _ (.idle external) => external
  | .call _ (.schedulerTick external _) => external
  | _ => none

def Label.endsDrain : Label layout → Bool
  | .drained _ => true
  | _ => false

/-- A step of the thread machine; one that ends the process leaves the rest alone. -/
def External.advance (x : External) (l : Label layout) (record : External → External) :
    Option External :=
  (step x.kernel l).map fun k =>
    if k.halted.isSome then { x with kernel := k } else record { x with kernel := k }

def External.targetFull (x : External) (post : Posted) : Bool :=
  mqIsFull (x.kernel.memory.mesgQueue post.msg.mq).toMesgRing

def External.enqueueExternal (x : External) (thread : Nat) (msg : QueuedMessage) : External :=
  let post : Posted := ⟨x.posted.length, thread, msg⟩
  { x with
    externalMessages := x.externalMessages.enqueue (.host thread) post
    posted := x.posted ++ [post] }

variable (layout) in
/-- One round of the loop of `dequeue_external_messages`.  A put back ends the
loop, and the call goes on with its own transfer. -/
def External.dequeueExternalMessages (x : External) (c : ContextId)
    (taken : Element Producer Posted × Queue Producer Posted) : Option External :=
  let post := taken.1.item
  if (handOn x.kernel.memory post.msg).1 then
    x.advance (.deliver c post.msg : Label layout) fun next =>
      { next with externalMessages := taken.2, delivered := x.delivered ++ [post] }
  else if post.msg.coalescible then
    x.advance (.deliver c post.msg : Label layout) fun next =>
      { next with
        externalMessages := taken.2
        dropped := x.dropped ++ [(post, x.targetFull post)] }
  else
    x.advance (.drained c : Label layout) fun next =>
      { next with
        externalMessages := Queue.enqueue taken.2 (.game c) post
        requeued := x.requeued ++ [(post, x.targetFull post)] }

variable (layout) in
/-- `wait_for_external_message` and `wait_for_external_message_timed` that got a
message: whether the send succeeds is not looked at. -/
def External.waitForExternalMessage (x : External)
    (call : Option QueuedMessage → GuestCall layout) (c : ContextId)
    (taken : Element Producer Posted × Queue Producer Posted) : Option External :=
  let post := taken.1.item
  x.advance (.call c (call (some post.msg))) fun next =>
    if (handOn x.kernel.memory post.msg).1 then
      { next with externalMessages := taken.2, delivered := x.delivered ++ [post] }
    else
      { next with
        externalMessages := taken.2
        dropped := x.dropped ++ [(post, x.targetFull post)] }

def externalStep (x : External) : ExternalLabel layout → Option External
  | .post thread msg =>
      if x.kernel.halted.isSome then none else some (x.enqueueExternal thread msg)
  | .guest l =>
      -- `try_dequeue` fails, and a drain ends, on an empty queue only
      if l.handsOn.isNone && (!l.endsDrain || x.externalMessages.isEmpty) then x.advance l id
      else none
  | .drain c i => (x.externalMessages.dequeue i).bind (x.dequeueExternalMessages layout c)
  | .idle c i => (x.externalMessages.dequeue i).bind (x.waitForExternalMessage layout .idle c)
  | .tick c i skip =>
      (x.externalMessages.dequeue i).bind
        (x.waitForExternalMessage layout (fun external => .schedulerTick external skip) c)

def External.boot (rings : Ptr → MesgRing) : External where
  kernel := Kernel.boot rings
  externalMessages := []
  posted := []
  delivered := []
  requeued := []
  dropped := []

def ExternalBooted (x : External) : Prop := ∃ rings, x = External.boot rings

/-! ## What one step does to the queue and the logs -/

/-- A dequeue with which a game thread waits. -/
def ExternalLabel.waitsOn (i : Nat) : ExternalLabel layout → Prop
  | .idle _ j => j = i
  | .tick _ j _ => j = i
  | _ => False

inductive Booking (x : External) : ExternalLabel layout → External → Prop
  | keeps (l : ExternalLabel layout) (k : Kernel) : Booking x l { x with kernel := k }
  | posts (thread : Nat) (msg : QueuedMessage) :
      Booking x (.post thread msg) (x.enqueueExternal thread msg)
  | delivers {l : ExternalLabel layout} (k : Kernel) (i : Nat) (e : Element Producer Posted)
      (rest : Queue Producer Posted) (taken : x.externalMessages.dequeue i = some (e, rest))
      (sent : (handOn x.kernel.memory e.item.msg).1 = true)
      (rings : ∀ mq, (k.memory.mesgQueue mq).toMesgRing =
        ((handOn x.kernel.memory e.item.msg).2.mesgQueue mq).toMesgRing) :
      Booking x l
        { x with kernel := k, externalMessages := rest, delivered := x.delivered ++ [e.item] }
  | drops {l : ExternalLabel layout} (k : Kernel) (i : Nat) (e : Element Producer Posted)
      (rest : Queue Producer Posted) (taken : x.externalMessages.dequeue i = some (e, rest))
      (refused : (handOn x.kernel.memory e.item.msg).1 = false)
      (lossy : e.item.msg.coalescible = true ∨ l.waitsOn i) :
      Booking x l
        { x with
          kernel := k
          externalMessages := rest
          dropped := x.dropped ++ [(e.item, x.targetFull e.item)] }
  | putsBack {l : ExternalLabel layout} (k : Kernel) (c : ContextId) (i : Nat)
      (e : Element Producer Posted) (rest : Queue Producer Posted)
      (taken : x.externalMessages.dequeue i = some (e, rest))
      (refused : (handOn x.kernel.memory e.item.msg).1 = false) :
      Booking x l
        { x with
          kernel := k
          externalMessages := Queue.enqueue rest (.game c) e.item
          requeued := x.requeued ++ [(e.item, x.targetFull e.item)] }

section Step
variable {k k' : Kernel} {c : ContextId} {x x' : External} {l : ExternalLabel layout}

theorem checkRunningQueue_rings {ret : Int} (ok : checkRunningQueue k c ret = .ok k') (mq : Ptr) :
    (k'.memory.mesgQueue mq).toMesgRing = (k.memory.mesgQueue mq).toMesgRing := by
  rcases checkRunningQueue_ok ok with ⟨_, rfl⟩ | ⟨w, cp, _, _, _, _, rfl⟩
  · rfl
  · simp

theorem yieldToAnyQueued_rings (ok : yieldToAnyQueued k c = .ok k') (mq : Ptr) :
    (k'.memory.mesgQueue mq).toMesgRing = (k.memory.mesgQueue mq).toMesgRing := by
  rcases yieldToAnyQueued_ok ok with ⟨_, rfl⟩ | ⟨w, cp, _, _, _, rfl⟩
  · rfl
  · simp

/-- A step that hands a message on and does not end the process changes the
rings as the send does. -/
theorem handsOn_rings {kl : Label layout} {msg : QueuedMessage} (hands : kl.handsOn = some msg)
    (taken : step k kl = some k') (alive : k'.halted = none) (mq : Ptr) :
    (k'.memory.mesgQueue mq).toMesgRing =
      ((handOn k.memory msg).2.mesgQueue mq).toMesgRing := by
  have settled : ∀ result, k.settle result = k' → result = .ok k' := by
    intro result settle
    rcases settle_cases settle with ⟨halt, rfl⟩ | ok
    · contradiction
    · exact ok
  unfold step at taken
  split at taken
  · contradiction
  unfold Label.handsOn at hands
  split at hands
  · cases hands
    simp only [enabledStep] at taken
    split at taken
    · cases taken
      rfl
    · contradiction
  · cases hands
    simp only [enabledStep] at taken
    split at taken
    · exact checkRunningQueue_rings (settled _ (Option.some.inj taken)) mq
    · contradiction
  · rename_i skip
    cases hands
    simp only [enabledStep] at taken
    split at taken
    · have ok := settled _ (Option.some.inj taken)
      simp only [guestCall] at ok
      split at ok
      · cases ok
        rfl
      · exact yieldToAnyQueued_rings ok mq
    · contradiction
  · contradiction

theorem advance_cases {kl : Label layout} {record : External → External}
    (ran : x.advance kl record = some x') :
    ∃ k, step x.kernel kl = some k ∧ (k.halted.isSome = true ∧ x' = { x with kernel := k } ∨
      k.halted = none ∧ x' = record { x with kernel := k }) := by
  obtain ⟨k, taken, rfl⟩ := Option.map_eq_some_iff.mp ran
  refine ⟨k, taken, ?_⟩
  split
  · rename_i halted
    exact .inl ⟨halted, rfl⟩
  · rename_i alive
    exact .inr ⟨by simpa using alive, rfl⟩

theorem dequeueExternalMessages_booking {i : Nat}
    {taken : Element Producer Posted × Queue Producer Posted}
    (found : x.externalMessages.dequeue i = some taken)
    (ran : x.dequeueExternalMessages layout c taken = some x') :
    (∃ kl : Label layout, step x.kernel kl = some x'.kernel) ∧ Booking x l x' := by
  unfold External.dequeueExternalMessages at ran
  dsimp only at ran
  split at ran
  · rename_i sent
    obtain ⟨k, stepped, ⟨_, rfl⟩ | ⟨alive, rfl⟩⟩ := advance_cases ran
    · exact ⟨⟨_, stepped⟩, .keeps l k⟩
    · exact ⟨⟨_, stepped⟩, .delivers k i taken.1 taken.2 found sent
      (handsOn_rings rfl stepped alive)⟩
  · rename_i refused
    rw [Bool.not_eq_true] at refused
    split at ran
    · rename_i coalescible
      obtain ⟨k, stepped, ⟨_, rfl⟩ | ⟨alive, rfl⟩⟩ := advance_cases ran
      · exact ⟨⟨_, stepped⟩, .keeps l k⟩
      · exact ⟨⟨_, stepped⟩, .drops k i taken.1 taken.2 found refused (.inl coalescible)⟩
    · obtain ⟨k, stepped, ⟨_, rfl⟩ | ⟨alive, rfl⟩⟩ := advance_cases ran
      · exact ⟨⟨_, stepped⟩, .keeps l k⟩
      · exact ⟨⟨_, stepped⟩, .putsBack k c i taken.1 taken.2 found refused⟩

theorem waitForExternalMessage_booking {call : Option QueuedMessage → GuestCall layout}
    (hands : ∀ msg, (Label.call c (call (some msg))).handsOn = some msg) {i : Nat}
    {taken : Element Producer Posted × Queue Producer Posted}
    (found : x.externalMessages.dequeue i = some taken) (waits : l.waitsOn i)
    (ran : x.waitForExternalMessage layout call c taken = some x') :
    (∃ kl : Label layout, step x.kernel kl = some x'.kernel) ∧ Booking x l x' := by
  unfold External.waitForExternalMessage at ran
  obtain ⟨k, stepped, ⟨_, rfl⟩ | ⟨alive, rfl⟩⟩ := advance_cases ran
  · exact ⟨⟨_, stepped⟩, .keeps l k⟩
  · dsimp only
    split
    · rename_i sent
      exact ⟨⟨_, stepped⟩, .delivers k i taken.1 taken.2 found sent
      (handsOn_rings (hands _) stepped alive)⟩
    · rename_i refused
      rw [Bool.not_eq_true] at refused
      exact ⟨⟨_, stepped⟩, .drops k i taken.1 taken.2 found refused (.inr waits)⟩

/-- The thread machine below takes a step or stays, and the logs change in one of five ways. -/
theorem externalStep_booking (ran : externalStep x l = some x') :
    (x'.kernel = x.kernel ∨ ∃ kl : Label layout, step x.kernel kl = some x'.kernel) ∧
      Booking x l x' := by
  cases l with
  | post thread msg =>
      simp only [externalStep] at ran
      split at ran
      · contradiction
      · cases ran
        exact ⟨.inl rfl, .posts thread msg⟩
  | guest kl =>
      simp only [externalStep] at ran
      split at ran
      · obtain ⟨k, stepped, ⟨_, rfl⟩ | ⟨alive, rfl⟩⟩ := advance_cases ran
        all_goals exact ⟨.inr ⟨kl, stepped⟩, .keeps _ k⟩
      · contradiction
  | drain c i =>
      obtain ⟨taken, found, ran⟩ := Option.bind_eq_some_iff.mp ran
      obtain ⟨stepped, booking⟩ := dequeueExternalMessages_booking found ran
      exact ⟨.inr stepped, booking⟩
  | idle c i =>
      have waits : (ExternalLabel.idle c i : ExternalLabel layout).waitsOn i := rfl
      obtain ⟨taken, found, ran⟩ := Option.bind_eq_some_iff.mp ran
      obtain ⟨stepped, booking⟩ := waitForExternalMessage_booking (fun _ => rfl) found waits ran
      exact ⟨.inr stepped, booking⟩
  | tick c i skip =>
      have waits : (ExternalLabel.tick c i skip : ExternalLabel layout).waitsOn i := rfl
      obtain ⟨taken, found, ran⟩ := Option.bind_eq_some_iff.mp ran
      obtain ⟨stepped, booking⟩ := waitForExternalMessage_booking (fun _ => rfl) found waits ran
      exact ⟨.inr stepped, booking⟩

end Step

/-! ## Well-formed targets stay well formed -/

section Targets
variable {m : Memory} {k k' : Kernel} {c : ContextId} {mq : Ptr} {capacity : Int}
  {contents : List OSMesg}

/-- The checks of `do_send` pass exactly for the queues that hold some list. -/
theorem sendGuard_iff : sendGuard m mq = true ↔
    ∃ capacity contents, m.WellFormed mq capacity contents := by
  constructor
  · intro guard
    simp only [sendGuard, Bool.and_eq_true, decide_eq_true_eq] at guard
    obtain ⟨⟨⟨⟨⟨⟨⟨queue, buffer⟩, positive⟩, sane⟩, first⟩, below⟩, valid⟩, fits⟩ := guard
    let ring := (m.mesgQueue mq).toMesgRing
    refine ⟨ring.msgCount, Ring.window ring.msgCount ring.first ring.validCount.toNat ring.slots,
      queue, buffer, sane, rfl, ?_, ?_, first, below, ?_⟩
    all_goals rw [Ring.window_length]
    · exact (Int.toNat_of_nonneg valid).symm
    · rw [Int.toNat_of_nonneg valid]
      exact fits
  · rintro ⟨capacity, contents, formed⟩
    exact formed.guard

theorem Memory.WellFormed.transfer (formed : m.WellFormed mq capacity contents) (op : MesgOp)
    (ready : op.stuck m = false) : ∃ contents, (op.transfer m).WellFormed mq capacity contents := by
  cases op with
  | send target msg jam =>
      by_cases same : mq = target
      · subst same
        have room : ¬ (contents.length : Int) = capacity := by
          rw [← formed.ring.full_iff]
          simpa [MesgOp.stuck] using ready
        have fits := formed.ring.fits
        exact ⟨_, formed.sendInto msg jam (by omega)⟩
      · exact ⟨contents, formed.of_ring (sendInto_ring_other m msg jam same)⟩
  | recv target =>
      by_cases same : mq = target
      · subst same
        have some : contents ≠ [] := by
          rw [Ne, ← formed.ring.empty_iff]
          simpa [MesgOp.stuck] using ready
        obtain ⟨msg, rest, rfl⟩ := List.exists_cons_of_ne_nil some
        exact ⟨rest, formed.recvFrom⟩
      · exact ⟨contents, formed.of_ring (recvFrom_ring_other m same)⟩

theorem Memory.WellFormed.acts {after : Cont} {l : Label layout}
    (formed : k.memory.WellFormed mq capacity contents) (acts : Acts k c after l m) :
    ∃ contents, m.WellFormed mq capacity contents := by
  cases acts with
  | nothing => exact ⟨contents, formed⟩
  | transfer op ready => exact formed.transfer op ready
  | start t => exact ⟨contents, formed.of_ring (by simp)⟩
  | priority t pri => exact ⟨contents, formed.of_ring rfl⟩
  | requeue t target pri queue => exact ⟨contents, formed.of_ring (by simp [Memory.setPriority])⟩

theorem osDestroyOther_ring (k : Kernel) (t mq : Ptr) :
    ((osDestroyOther k t).memory.mesgQueue mq).toMesgRing =
      (k.memory.mesgQueue mq).toMesgRing := by
  have detached : ((detach k.memory t).mesgQueue mq).toMesgRing =
      (k.memory.mesgQueue mq).toMesgRing := by
    unfold detach
    split
    · exact threadQueueRemove_ring ..
    · rfl
  unfold osDestroyOther
  dsimp only
  split <;> exact detached

theorem Memory.WellFormed.outcome {l : Label layout}
    (formed : k.memory.WellFormed mq capacity contents) (outcome : Outcome k l k') :
    ∃ contents, k'.memory.WellFormed mq capacity contents := by
  cases outcome with
  | aborts halt => exact ⟨contents, formed⟩
  | outsideCreate t pri closed => exact ⟨contents, formed.of_ring rfl⟩
  | outsideStart t cp closed owner => exact ⟨contents, formed.of_ring rfl⟩
  | wakes c on after here signalled own => exact ⟨contents, formed.of_ring rfl⟩
  | wakesStale c on after here signalled stale => exact ⟨contents, formed⟩
  | creates c t pri ret here => exact ⟨contents, formed.of_ring rfl⟩
  | proceeds c after after' m here acts once calm => exact formed.acts acts
  | swaps c w cp after ret m next here acts busy front outranked caller owner =>
      obtain ⟨contents, formed⟩ := formed.acts acts
      exact ⟨contents, formed.of_ring (by simp)⟩
  | parks c w cp after op m here same stuck parked caller busy owner =>
      exact ⟨contents, formed.of_ring (by simp [parked])⟩
  | stops c w cp ret here caller busy owner => exact ⟨contents, formed.of_ring (by simp)⟩
  | destroys c t target ret here named other =>
      exact ⟨contents, formed.of_ring (osDestroyOther_ring k target mq)⟩
  | exits c cp here own m cleared busy owner =>
      exact ⟨contents, formed.of_ring (by simp [cleared, Memory.clearContext])⟩
  | fades c here stale => exact ⟨contents, formed⟩

theorem step_sendGuard {l : Label layout} (taken : step k l = some k')
    (guard : sendGuard k.memory mq = true) : sendGuard k'.memory mq = true := by
  obtain ⟨capacity, contents, formed⟩ := sendGuard_iff.mp guard
  obtain ⟨contents, formed⟩ := formed.outcome (step_outcome taken).2
  exact formed.guard

theorem handOn_refused {msg : QueuedMessage} (guard : sendGuard m msg.mq = true)
    (refused : (handOn m msg).1 = false) : mqIsFull (m.mesgQueue msg.mq).toMesgRing = true := by
  unfold handOn doSend at refused
  rw [if_neg (by simp [guard])] at refused
  split at refused
  · rename_i full
    exact full
  · contradiction

theorem handOn_full {msg : QueuedMessage}
    (full : mqIsFull (m.mesgQueue msg.mq).toMesgRing = true) : (handOn m msg).1 = false := by
  unfold handOn doSend
  split
  · rfl
  · rfl

theorem handOn_sent {msg : QueuedMessage} (sent : (handOn m msg).1 = true) :
    ((handOn m msg).2.mesgQueue msg.mq).toMesgRing =
      (m.mesgQueue msg.mq).put msg.mesg msg.jam := by
  unfold handOn doSend at sent ⊢
  split at sent
  · contradiction
  split at sent
  · contradiction
  · rename_i guard room
    rw [if_neg guard, if_neg room]
    exact sendInto_ring_self ..

end Targets

/-! ## The logs account for every post -/

def SoundPost (x : External) : ExternalLabel layout → Prop
  | .post _ msg => sendGuard x.kernel.memory msg.mq = true
  | _ => True

/-- What the logs and the queue hold together: each post once, the posts of a
host thread in order, and from a game thread only what was put back. -/
structure External.Accounted (x : External) : Prop where
  numbered : x.posted.map Posted.id = List.range x.posted.length
  kept : ∀ post, x.externalMessages.items.count post + x.delivered.count post +
    (x.dropped.map Prod.fst).count post = x.posted.count post
  fifo : ∀ thread, x.externalMessages.ofProducer (.host thread) <:+
    x.posted.filter fun post => decide (post.thread = thread)
  putBack : ∀ c, ∀ post ∈ x.externalMessages.ofProducer (.game c),
    post ∈ x.requeued.map Prod.fst

section Accounts
variable {x x' : External} {l : ExternalLabel layout}

theorem dequeue_count {queue rest : Queue Producer Posted} {e : Element Producer Posted} {i : Nat}
    (taken : queue.dequeue i = some (e, rest)) (post : Posted) :
    queue.items.count post = rest.items.count post + [e.item].count post := by
  rw [(dequeue_perm taken).count_eq post, ← List.singleton_append, List.count_append]
  exact Nat.add_comm ..

/-- What a consumer leaves in the queue keeps the order of every host thread,
and still holds from a game thread only what was put back. -/
theorem External.Accounted.taken (accounted : x.Accounted) {i : Nat}
    {e : Element Producer Posted} {rest : Queue Producer Posted}
    (taken : x.externalMessages.dequeue i = some (e, rest)) :
    (∀ thread, rest.ofProducer (.host thread) <:+
      x.posted.filter fun post => decide (post.thread = thread)) ∧
    ∀ c, ∀ post ∈ rest.ofProducer (.game c), post ∈ x.requeued.map Prod.fst :=
  ⟨fun thread => (dequeue_suffix taken _).trans (accounted.fifo thread),
    fun c post member => accounted.putBack c post ((dequeue_suffix taken _).subset member)⟩

theorem External.Accounted.enqueueExternal (accounted : x.Accounted) (thread : Nat)
    (msg : QueuedMessage) : (x.enqueueExternal thread msg).Accounted := by
  refine ⟨?_, ?_, ?_, ?_⟩
  · simp [External.enqueueExternal, accounted.numbered, List.range_succ]
  · intro post
    have kept := accounted.kept post
    simp only [External.enqueueExternal, items_enqueue, List.count_append]
    omega
  · intro other
    simp only [External.enqueueExternal, List.filter_append]
    by_cases same : thread = other
    · obtain ⟨before, whole⟩ := accounted.fifo thread
      rw [← same, ofProducer_enqueue_self, ← whole]
      exact ⟨before, by simp⟩
    · rw [ofProducer_enqueue_other _ _ (by simpa using same)]
      simpa [same] using accounted.fifo other
  · intro c post member
    simp only [External.enqueueExternal] at member
    rw [ofProducer_enqueue_other _ _ (by simp)] at member
    exact accounted.putBack c post member

theorem External.Accounted.booking (accounted : x.Accounted) (booking : Booking x l x') :
    x'.Accounted := by
  cases booking with
  | keeps k => exact ⟨accounted.numbered, accounted.kept, accounted.fifo, accounted.putBack⟩
  | posts thread msg => exact accounted.enqueueExternal thread msg
  | delivers k i e rest taken sent rings =>
      obtain ⟨fifo, putBack⟩ := accounted.taken taken
      refine ⟨accounted.numbered, fun post => ?_, fifo, putBack⟩
      have kept := accounted.kept post
      rw [dequeue_count taken] at kept
      simp only [List.count_append]
      omega
  | drops k i e rest taken refused lossy =>
      obtain ⟨fifo, putBack⟩ := accounted.taken taken
      refine ⟨accounted.numbered, fun post => ?_, fifo, putBack⟩
      have kept := accounted.kept post
      rw [dequeue_count taken] at kept
      simp only [List.map_append, List.count_append, List.map_cons, List.map_nil]
      omega
  | putsBack k c i e rest taken refused =>
      obtain ⟨fifo, putBack⟩ := accounted.taken taken
      refine ⟨accounted.numbered, fun post => ?_, fun thread => ?_, ?_⟩
      · have kept := accounted.kept post
        rw [dequeue_count taken] at kept
        simp only [items_enqueue, List.count_append]
        omega
      · simp only [ofProducer_enqueue_other _ _ (show Producer.game c ≠ .host thread by simp)]
        exact fifo thread
      · intro d post member
        simp only [List.map_append, List.map_cons, List.map_nil, List.mem_append,
          List.mem_singleton]
        by_cases same : c = d
        · subst same
          rw [ofProducer_enqueue_self] at member
          rcases List.mem_append.mp member with old | new
          · exact .inl (putBack c post old)
          · exact .inr (List.mem_singleton.mp new)
        · rw [ofProducer_enqueue_other _ _ (by simpa using same)] at member
          exact .inl (putBack d post member)

/-- Every target is well formed, so only a full one ever refused a message. -/
structure External.Guarded (x : External) : Prop where
  targets : ∀ post ∈ x.posted, sendGuard x.kernel.memory post.msg.mq = true
  requeued : ∀ entry ∈ x.requeued, entry.2 = true
  dropped : ∀ entry ∈ x.dropped, entry.2 = true

theorem mem_posted_iff (accounted : x.Accounted) (post : Posted) : post ∈ x.posted ↔
    post ∈ x.externalMessages.items ∨ post ∈ x.delivered ∨ post ∈ x.dropped.map Prod.fst := by
  have kept := accounted.kept post
  simp only [← List.count_pos_iff]
  omega

theorem taken_posted (accounted : x.Accounted) {i : Nat} {e : Element Producer Posted}
    {rest : Queue Producer Posted} (taken : x.externalMessages.dequeue i = some (e, rest)) :
    e.item ∈ x.posted :=
  (mem_posted_iff accounted _).mpr
    (.inl ((dequeue_perm taken).mem_iff.mpr List.mem_cons_self))

theorem External.Guarded.step (guarded : x.Guarded) (accounted : x.Accounted)
    (side : SoundPost x l) (ran : externalStep x l = some x') : x'.Guarded := by
  obtain ⟨kernel, booking⟩ := externalStep_booking ran
  have kept : ∀ mq, sendGuard x.kernel.memory mq = true → sendGuard x'.kernel.memory mq = true := by
    intro mq guard
    rcases kernel with same | ⟨kl, taken⟩
    · rw [same]
      exact guard
    · exact step_sendGuard taken guard
  have full : ∀ {i : Nat} {e : Element Producer Posted} {rest : Queue Producer Posted},
      x.externalMessages.dequeue i = some (e, rest) →
      (handOn x.kernel.memory e.item.msg).1 = false → x.targetFull e.item = true :=
    fun taken refused => handOn_refused (guarded.targets _ (taken_posted accounted taken)) refused
  cases booking with
  | keeps k => exact ⟨fun post member => kept _ (guarded.targets post member), guarded.requeued,
      guarded.dropped⟩
  | posts thread msg =>
      refine ⟨fun post member => kept _ ?_, guarded.requeued, guarded.dropped⟩
      rcases List.mem_append.mp member with old | new
      · exact guarded.targets post old
      · rw [List.mem_singleton.mp new]
        exact side
  | delivers k i e rest taken sent rings =>
      exact ⟨fun post member => kept _ (guarded.targets post member), guarded.requeued,
        guarded.dropped⟩
  | drops k i e rest taken refused lossy =>
      refine ⟨fun post member => kept _ (guarded.targets post member), guarded.requeued, ?_⟩
      intro entry member
      rcases List.mem_append.mp member with old | new
      · exact guarded.dropped entry old
      · rw [List.mem_singleton.mp new]
        exact full taken refused
  | putsBack k c i e rest taken refused =>
      refine ⟨fun post member => kept _ (guarded.targets post member), ?_, guarded.dropped⟩
      intro entry member
      rcases List.mem_append.mp member with old | new
      · exact guarded.requeued entry old
      · rw [List.mem_singleton.mp new]
        exact full taken refused

theorem boot_accounted (booted : ExternalBooted x) : x.Accounted ∧ x.Guarded := by
  obtain ⟨rings, rfl⟩ := booted
  refine ⟨⟨rfl, fun _ => rfl, fun thread => List.suffix_refl _, ?_⟩, ?_, ?_, ?_⟩
  · intro c post member
    contradiction
  · intro post member
    contradiction
  · intro entry member
    contradiction
  · intro entry member
    contradiction

theorem reach_accounted {ok : External → ExternalLabel layout → Prop}
    (side : ∀ x l, ok x l → SoundPost x l) (reached : Reach externalStep ok ExternalBooted x) :
    x.Accounted ∧ x.Guarded :=
  reached.invariant (fun _ => boot_accounted) fun x l _ ⟨accounted, guarded⟩ met ran =>
    ⟨accounted.booking (externalStep_booking ran).2, guarded.step accounted (side x l met) ran⟩

theorem posted_count (accounted : x.Accounted) {post : Posted} (member : post ∈ x.posted) :
    x.posted.count post = 1 := by
  have distinct : (x.posted.map Posted.id).Nodup := by
    rw [accounted.numbered]
    exact List.nodup_range
  exact List.count_eq_one_of_mem distinct.of_map member

end Accounts

/-! ## Nothing reliable is lost while no wait meets a full queue -/

/-- No wait takes a reliable message while its target is full. -/
def KeepsReliable (x : External) (l : ExternalLabel layout) : Prop :=
  SoundPost x l ∧
    match l with
    | .idle _ i | .tick _ i _ =>
        (x.externalMessages.dequeue i).all (fun taken =>
          taken.1.item.msg.coalescible || !x.targetFull taken.1.item) = true
    | _ => True

instance (x : External) : ∀ l : ExternalLabel layout, Decidable (SoundPost x l)
  | .post _ msg => inferInstanceAs (Decidable (sendGuard x.kernel.memory msg.mq = true))
  | .guest _ | .drain _ _ | .idle _ _ | .tick _ _ _ => isTrue trivial

instance (x : External) : ∀ l : ExternalLabel layout, Decidable (KeepsReliable x l)
  | .post _ _ | .guest _ | .drain _ _ => inferInstanceAs (Decidable (_ ∧ True))
  | .idle _ _ | .tick _ _ _ => inferInstanceAs (Decidable (_ ∧ _ = true))

def External.DropsCoalescible (x : External) : Prop :=
  ∀ entry ∈ x.dropped, entry.1.msg.coalescible = true ∧ entry.2 = true

def External.Kept (x : External) (post : Posted) : Prop :=
  x.externalMessages.items.count post + x.delivered.count post = 1

def External.DeliversByPut (layout : ThreadLayout) (x : External) : Prop :=
  ∀ (l : ExternalLabel layout) x', externalStep x l = some x' →
    x'.delivered = x.delivered ∨ ∃ post, x'.delivered = x.delivered ++ [post] ∧
      (x'.kernel.memory.mesgQueue post.msg.mq).toMesgRing =
        (x.kernel.memory.mesgQueue post.msg.mq).put post.msg.mesg post.msg.jam

section Reliable
variable {x x' : External} {l : ExternalLabel layout}

theorem External.DropsCoalescible.step (coalescible : x.DropsCoalescible)
    (accounted : x.Accounted) (guarded : x.Guarded) (side : KeepsReliable x l)
    (ran : externalStep x l = some x') : x'.DropsCoalescible := by
  have full := (guarded.step accounted side.1 ran).dropped
  have booking := (externalStep_booking ran).2
  cases booking with
  | keeps k => exact coalescible
  | posts thread msg => exact coalescible
  | delivers k i e rest taken sent rings => exact coalescible
  | putsBack k c i e rest taken refused => exact coalescible
  | drops k i e rest taken refused lossy =>
      intro entry member
      refine ⟨?_, full entry member⟩
      rcases List.mem_append.mp member with old | new
      · exact (coalescible entry old).1
      · rw [List.mem_singleton.mp new]
        rcases lossy with droppable | waits
        · exact droppable
        · have refuses : x.targetFull e.item = true :=
            full _ (List.mem_append.mpr (.inr (List.mem_singleton_self _)))
          have room := side.2
          cases l with
          | post thread msg => exact absurd waits id
          | guest kl => exact absurd waits id
          | drain c j => exact absurd waits id
          | idle c j =>
              obtain rfl : j = i := waits
              simpa [taken, refuses] using room
          | tick c j skip =>
              obtain rfl : j = i := waits
              simpa [taken, refuses] using room

theorem deliversByPut (x : External) : x.DeliversByPut layout := by
  intro l x' ran
  have booking := (externalStep_booking ran).2
  cases booking with
  | keeps k => exact .inl rfl
  | posts thread msg => exact .inl rfl
  | drops k i e rest taken refused lossy => exact .inl rfl
  | putsBack k c i e rest taken refused => exact .inl rfl
  | delivers k i e rest taken sent rings =>
      exact .inr ⟨e.item, rfl, (rings _).trans (handOn_sent sent)⟩

theorem reach_dropsCoalescible {ok : External → ExternalLabel layout → Prop}
    (side : ∀ x l, ok x l → KeepsReliable x l) (reached : Reach externalStep ok ExternalBooted x) :
    x.DropsCoalescible := by
  refine reached.invariant_of
    (fun _ before => reach_accounted (fun _ _ met => (side _ _ met).1) before) ?_ ?_
  · rintro s ⟨rings, rfl⟩ entry member
    contradiction
  · intro s l t accounts coalescible met ran
    exact coalescible.step accounts.1 accounts.2 (side s l met) ran

/-- While no wait takes a reliable message from under a full target, every
reliable post stays in the external queue until it enters its target, once, and
a coalescible one is dropped at most once, by a full target. -/
theorem external_messages_kept (reached : Reach (@externalStep layout) KeepsReliable
    ExternalBooted x) :
    (∀ post ∈ x.posted, post.msg.coalescible = false → x.Kept post) ∧
      (∀ post ∈ x.posted, x.Kept post ∧ post ∉ x.dropped.map Prod.fst ∨
        (x.dropped.map Prod.fst).count post = 1 ∧ post ∉ x.externalMessages.items ∧
          post ∉ x.delivered) ∧
      x.DropsCoalescible ∧ x.DeliversByPut layout := by
  have accounts := reach_accounted (fun _ _ side => side.1) reached
  have dropped := reach_dropsCoalescible (fun _ _ => id) reached
  have once : ∀ post ∈ x.posted, x.externalMessages.items.count post + x.delivered.count post +
      (x.dropped.map Prod.fst).count post = 1 := fun post member => by
    rw [accounts.1.kept, posted_count accounts.1 member]
  refine ⟨fun post member reliable => ?_, fun post member => ?_, dropped, deliversByPut x⟩
  · have absent : (x.dropped.map Prod.fst).count post = 0 := by
      rw [List.count_eq_zero]
      intro lost
      obtain ⟨entry, entered, rfl⟩ := List.mem_map.mp lost
      rw [(dropped entry entered).1] at reliable
      contradiction
    have total := once post member
    unfold External.Kept
    omega
  · have total := once post member
    simp only [External.Kept, ← List.count_eq_zero]
    omega

/-- A wait that is not met loses the message for good. -/
theorem wait_loses {call : Option QueuedMessage → GuestCall layout} {c : ContextId} {i : Nat}
    {taken : Element Producer Posted × Queue Producer Posted} (accounted : x.Accounted)
    (found : x.externalMessages.dequeue i = some taken) (full : x.targetFull taken.1.item = true)
    (ran : x.waitForExternalMessage layout call c taken = some x')
    (alive : x'.kernel.halted = none) : ¬ x'.Kept taken.1.item := by
  have refused : (handOn x.kernel.memory taken.1.item.msg).1 = false := handOn_full full
  have total := accounted.kept taken.1.item
  rw [posted_count accounted (taken_posted accounted found), dequeue_count found,
    List.count_singleton_self] at total
  unfold External.Kept
  unfold External.waitForExternalMessage at ran
  obtain ⟨k, _, ⟨halted, rfl⟩ | ⟨_, rfl⟩⟩ := advance_cases ran
  · rw [alive] at halted
    contradiction
  · simp only [refused, Bool.false_eq_true, if_false]
    omega

/-- The condition is exact: a step that does not meet it, in a process that
goes on, loses a reliable message. -/
theorem loses_of_not_keepsReliable (accounted : x.Accounted) (sound : SoundPost x l)
    (unmet : ¬ KeepsReliable x l) (ran : externalStep x l = some x')
    (alive : x'.kernel.halted = none) :
    ∃ post ∈ x.posted, post.msg.coalescible = false ∧ ¬ x'.Kept post := by
  have reliable : ∀ {i : Nat} {taken : Element Producer Posted × Queue Producer Posted},
      x.externalMessages.dequeue i = some taken →
      ¬ (x.externalMessages.dequeue i).all (fun taken =>
        taken.1.item.msg.coalescible || !x.targetFull taken.1.item) = true →
      taken.1.item.msg.coalescible = false ∧ x.targetFull taken.1.item = true := by
    intro i taken found fails
    simpa [found] using fails
  cases l with
  | post thread msg => exact absurd ⟨sound, trivial⟩ unmet
  | guest kl => exact absurd ⟨sound, trivial⟩ unmet
  | drain c i => exact absurd ⟨sound, trivial⟩ unmet
  | idle c i =>
      obtain ⟨taken, found, ran⟩ := Option.bind_eq_some_iff.mp ran
      obtain ⟨lossless, full⟩ := reliable found fun met => unmet ⟨sound, met⟩
      exact ⟨_, taken_posted accounted found, lossless, wait_loses accounted found full ran alive⟩
  | tick c i skip =>
      obtain ⟨taken, found, ran⟩ := Option.bind_eq_some_iff.mp ran
      obtain ⟨lossless, full⟩ := reliable found fun met => unmet ⟨sound, met⟩
      exact ⟨_, taken_posted accounted found, lossless, wait_loses accounted found full ran alive⟩

end Reliable

def retrace : QueuedMessage := ⟨smallQueue, 8, false, true⟩
def completion (mesg : OSMesg) : QueuedMessage := ⟨smallQueue, mesg, false, false⟩

def fillQueue : List (ExternalLabel threeThreads) :=
  [.guest (.outsideCreate threadA 5), .guest (.outsideStart threadA), .guest (.wake 0),
    .guest (.call 0 (.mesg (.send smallQueue 7 false) false)), .guest (.drained 0)]

/-- A receive drains: the retrace is dropped, the completion put back; the
next wait delivers it. -/
theorem external_messages_kept_small : ∃ x, Reach (@externalStep threeThreads) KeepsReliable
    ExternalBooted x ∧ x.delivered = [⟨1, 0, completion 9⟩] ∧
      x.dropped = [(⟨0, 0, retrace⟩, true)] ∧ ∀ post ∈ x.posted,
        post.msg.coalescible = false → x.Kept post := by
  obtain ⟨x, ran, delivered, dropped⟩ : ∃ x,
      run externalStep KeepsReliable (External.boot smallRings)
        (fillQueue ++ [.post 0 retrace, .post 0 (completion 9),
          .guest (.call 0 (.mesg (.recv smallQueue) false)), .drain 0 0, .drain 0 0,
          .idle 0 0]) = some x ∧ x.delivered = [⟨1, 0, completion 9⟩] ∧
      x.dropped = [(⟨0, 0, retrace⟩, true)] := ⟨_, rfl, rfl, rfl⟩
  have reached : Reach (@externalStep threeThreads) KeepsReliable ExternalBooted x :=
    reach_of_run _ ⟨smallRings, rfl⟩ ran
  exact ⟨x, reached, delivered, dropped, (external_messages_kept reached).1⟩

/-- An idle wait that meets a full queue loses a completion. -/
theorem idle_wait_loses : ¬ ∀ x, Reach (@externalStep threeThreads) SoundPost ExternalBooted x →
    ∀ post ∈ x.posted, post.msg.coalescible = false → x.Kept post := by
  intro always
  obtain ⟨x, ran, posted, lost⟩ : ∃ x, run externalStep SoundPost (External.boot smallRings)
      (fillQueue ++ [.post 0 (completion 9), .idle 0 0]) = some x ∧
      x.posted = [⟨0, 0, completion 9⟩] ∧
      x.externalMessages.items.count ⟨0, 0, completion 9⟩ +
        x.delivered.count ⟨0, 0, completion 9⟩ = 0 := ⟨_, rfl, rfl, rfl⟩
  have reached : Reach (@externalStep threeThreads) SoundPost ExternalBooted x :=
    reach_of_run _ ⟨smallRings, rfl⟩ ran
  have kept := always x reached ⟨0, 0, completion 9⟩ (by simp [posted]) rfl
  unfold External.Kept at kept
  omega

end N64ModernRuntime.Ultramodern
