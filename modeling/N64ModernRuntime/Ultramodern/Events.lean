import Mathlib.Algebra.Group.Int.Defs
import N64ModernRuntime.Ultramodern.Ultra64

/-!
# events.cpp: the registered events and the VI thread

Of a `ViState` only what decides the messages is kept: the queue, the message
and the retrace count, and the mode pointer, which is tested for null.  The
registers that `update_vi` stages for the renderer are left out.
-/

set_option autoImplicit false

namespace N64ModernRuntime.Ultramodern

inductive ViMode where
  | dummy
  | guest (mode : Ptr)
  deriving DecidableEq, Repr

structure ViState where
  mode : Option ViMode := none
  framebuffer : Ptr := nullptr
  mq : Ptr := nullptr
  msg : OSMesg := 0
  retraceCount : Int := 1
  deriving DecidableEq, Repr

/-- The double buffer; `curState` is the index of the state in force. -/
structure Vi where
  curState : Bool := false
  states : Bool → ViState := fun _ => {}

def Vi.curr (vi : Vi) : ViState := vi.states vi.curState

def Vi.next (vi : Vi) : ViState := vi.states (!vi.curState)

def Vi.setNext (vi : Vi) (state : ViState) : Vi :=
  { vi with states := Function.update vi.states (!vi.curState) state }

/-- The flip at the end of `update_vi`: the next state comes into force and is
copied into the new next one. -/
def Vi.updateVi (vi : Vi) : Vi :=
  { curState := !vi.curState, states := Function.update vi.states vi.curState vi.next }

def Vi.setDummy (vi : Vi) (odd : Bool) : Vi :=
  vi.setNext { vi.next with
    mode := some .dummy
    framebuffer := if odd then 0x80700000 + 0x25800 else 0x80700000 }

/-- An `mq` and `msg` pair of `events_context`. -/
structure EventSlot where
  mq : Ptr := nullptr
  msg : OSMesg := 0
  deriving DecidableEq, Repr

structure EventsContext where
  vi : Vi := {}
  sp : EventSlot := {}
  dp : EventSlot := {}
  ai : EventSlot := {}
  si : EventSlot := {}

inductive OSEvent where
  | sp
  | dp
  | ai
  | si
  | other
  deriving DecidableEq, Repr

def EventsContext.osSetEventMesg (context : EventsContext) (event : OSEvent) (mq : Ptr)
    (msg : OSMesg) : EventsContext :=
  match event with
  | .sp => { context with sp := ⟨mq, msg⟩ }
  | .dp => { context with dp := ⟨mq, msg⟩ }
  | .ai => { context with ai := ⟨mq, msg⟩ }
  | .si => { context with si := ⟨mq, msg⟩ }
  | .other => context

/-- The `u32` retrace count of the call is kept in an `int`. -/
def retraceInt (count : UInt32) : Int :=
  if count.toNat < 2 ^ 31 then count.toNat else count.toNat - 2 ^ 32

def EventsContext.osViSetEvent (context : EventsContext) (mq : Ptr) (msg : OSMesg)
    (retraceCount : UInt32) : EventsContext :=
  let next := { context.vi.next with mq := mq, msg := msg, retraceCount := retraceInt retraceCount }
  { context with vi := context.vi.setNext next }

/-- The arguments of a `post_rcp_event`. -/
structure Post where
  mq : Ptr
  msg : OSMesg
  coalescible : Bool
  deriving DecidableEq, Repr

/-- The VI thread between two rounds of its loop.  Its countdown is an `int`;
signed overflow, which the source leaves undefined, is not modelled. -/
structure ViThread where
  context : EventsContext
  odd : Bool
  remainingRetraces : Int

/-- One round of the loop of `vi_thread_func`, with the events it posts. -/
def viThreadRound (s : ViThread) (gameStarted : Bool) : List Post × ViThread :=
  let dummied :=
    if ¬ gameStarted ∨ s.context.vi.next.mode = none then
      { s with context := { s.context with vi := s.context.vi.setDummy s.odd }, odd := !s.odd }
    else s
  let flipped :=
    { dummied with context := { dummied.context with vi := dummied.context.vi.updateVi } }
  if gameStarted then
    let remaining := flipped.remainingRetraces - 1
    let curState := flipped.context.vi.curr
    let retrace : List Post :=
      if remaining = 0 ∧ curState.mq ≠ nullptr then [⟨curState.mq, curState.msg, true⟩] else []
    let audio : List Post :=
      if flipped.context.ai.mq ≠ nullptr then
        [⟨flipped.context.ai.mq, flipped.context.ai.msg, false⟩]
      else []
    (retrace ++ audio, { flipped with
      remainingRetraces := if remaining = 0 then curState.retraceCount else remaining })
  else ([], flipped)

end N64ModernRuntime.Ultramodern
