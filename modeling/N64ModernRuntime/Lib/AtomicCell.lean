import Mathlib.Data.List.Induction
import Mathlib.Logic.Function.Basic
import N64ModernRuntime.Lib.Transition

/-!
# An atomic cell that threads update in compare-exchange loops

An operation either gives up on the value that it sees or names the next one.
It is one instruction, or a loop that loads the cell and exchanges it as long
as nobody else was faster; a weak exchange may also fail for no reason.  All
accesses to one cell are in one order, whatever the memory order.  The log has
each operation at the access that decided it, with whether it took effect.
-/

set_option autoImplicit false

namespace AtomicCell

open Transition

/-- `next op a` is `none` where the operation gives up on `a`. -/
structure Operations (α ο : Type) where
  next : ο → α → Option α
  single : ο → Bool

variable {α ο : Type}

structure Entry (ο : Type) where
  thread : Nat
  op : ο
  done : Bool

/-- `loops` has the operations that are in their loops, each with the value that
it has seen last; `calls` has every call that was made, with its thread. -/
structure Cell (α ο : Type) where
  value : α
  loops : Nat → Option (ο × α)
  log : List (Entry ο)
  calls : List (Nat × ο)

inductive Access (ο : Type) where
  | call (thread : Nat) (op : ο)
  | compareExchange (thread : Nat) (fails : Bool)

variable (ops : Operations α ο)

def Cell.sees (c : Cell α ο) (thread : Nat) (op : ο) : Cell α ο :=
  match ops.next op c.value with
  | none =>
      { c with
        loops := Function.update c.loops thread none, log := c.log ++ [⟨thread, op, false⟩] }
  | some _ => { c with loops := Function.update c.loops thread (some (op, c.value)) }

def Cell.commits (c : Cell α ο) (thread : Nat) (op : ο) (a : α) : Cell α ο :=
  { c with
    value := a
    loops := Function.update c.loops thread none
    log := c.log ++ [⟨thread, op, true⟩] }

def Cell.called (c : Cell α ο) (thread : Nat) (op : ο) : Cell α ο :=
  { c with calls := c.calls ++ [(thread, op)] }

variable [DecidableEq α]

def step (c : Cell α ο) : Access ο → Option (Cell α ο)
  | .call thread op =>
      match c.loops thread with
      | some _ => none
      | none =>
          if ops.single op then
            match ops.next op c.value with
            | none => some ((c.called thread op).sees ops thread op)
            | some a => some ((c.called thread op).commits thread op a)
          else some ((c.called thread op).sees ops thread op)
  | .compareExchange thread fails =>
      match c.loops thread with
      | none => none
      | some (op, seen) =>
          match ops.next op seen with
          | none => none
          | some a =>
              if c.value = seen ∧ ¬ fails then some (c.commits thread op a)
              else some (c.sees ops thread op)

def start (a : α) : Cell α ο := ⟨a, fun _ => none, [], []⟩

/-- The value after the operations of a log one after the other, if each of them
does what the log says. -/
def replay : α → List (Entry ο) → Option α
  | a, [] => some a
  | a, entry :: rest =>
      match ops.next entry.op a with
      | none => if entry.done then none else replay a rest
      | some b => if entry.done then replay b rest else none

section Replay
variable {ops} {a b : α}

omit [DecidableEq α] in
theorem replay_append (log log' : List (Entry ο)) :
    replay ops a (log ++ log') = (replay ops a log).bind fun b => replay ops b log' := by
  induction log generalizing a with
  | nil => rfl
  | cons entry rest ih =>
      simp only [List.cons_append, replay]
      cases ops.next entry.op a with
      | none => cases entry.done <;> simp [ih]
      | some b => cases entry.done <;> simp [ih]

omit [DecidableEq α] in
theorem replay_cons {entry : Entry ο} {rest : List (Entry ο)}
    (replayed : replay ops a (entry :: rest) = some b) :
    (ops.next entry.op a = none ∧ entry.done = false ∧ replay ops a rest = some b) ∨
      ∃ middle, ops.next entry.op a = some middle ∧ entry.done = true ∧
        replay ops middle rest = some b := by
  simp only [replay] at replayed
  cases next : ops.next entry.op a with
  | none =>
      cases done : entry.done with
      | false =>
          simp only [next, done, Bool.false_eq_true, if_false] at replayed
          exact .inl ⟨rfl, rfl, replayed⟩
      | true => simp [next, done] at replayed
  | some middle =>
      cases done : entry.done with
      | false => simp [next, done] at replayed
      | true =>
          simp only [next, done, if_true] at replayed
          exact .inr ⟨middle, rfl, rfl, replayed⟩

omit [DecidableEq α] in
/-- An invariant of the operations holds after every log that can be replayed. -/
theorem replay_invariant {I : List (Entry ο) → α → Prop} (base : I [] a)
    (keeps : ∀ log entry b, I log b →
      (ops.next entry.op b = none → entry.done = false → I (log ++ [entry]) b) ∧
      ∀ c, ops.next entry.op b = some c → entry.done = true → I (log ++ [entry]) c)
    {log : List (Entry ο)} (replayed : replay ops a log = some b) : I log b := by
  induction log using List.reverseRecOn generalizing b with
  | nil =>
      cases replayed
      exact base
  | append_singleton log entry ih =>
      rw [replay_append] at replayed
      obtain ⟨middle, before, last⟩ := Option.bind_eq_some_iff.mp replayed
      obtain ⟨gives, takes⟩ := keeps log entry middle (ih before)
      rcases replay_cons last with ⟨next, done, same⟩ | ⟨c, next, done, same⟩
      · cases same
        exact gives next done
      · cases same
        exact takes b next done

end Replay

section Linearizable
variable {ops} {c c' : Cell α ο} {a : α}

omit [DecidableEq α] in
theorem sees_replay (replayed : replay ops a c.log = some c.value) (thread : Nat) (op : ο) :
    replay ops a (c.sees ops thread op).log = some (c.sees ops thread op).value := by
  unfold Cell.sees
  cases next : ops.next op c.value with
  | none => simp [replay_append, replayed, replay, next]
  | some b => exact replayed

omit [DecidableEq α] in
theorem commits_replay (replayed : replay ops a c.log = some c.value) (thread : Nat) {op : ο}
    {b : α} (next : ops.next op c.value = some b) :
    replay ops a (c.commits thread op b).log = some (c.commits thread op b).value := by
  simp [Cell.commits, replay_append, replayed, replay, next]

/-- A call, or a compare-exchange of the loop that a thread is in, either sees the
value or commits to what the operation makes of it. -/
theorem step_cases {l : Access ο} (ran : step ops c l = some c') :
    (∃ thread op, l = .call thread op ∧ c.loops thread = none ∧
      (c' = (c.called thread op).sees ops thread op ∨
        ∃ b, ops.single op = true ∧ ops.next op c.value = some b ∧
          c' = (c.called thread op).commits thread op b)) ∨
    ∃ thread fails op seen, l = .compareExchange thread fails ∧
      c.loops thread = some (op, seen) ∧
      (c' = c.sees ops thread op ∨
        ∃ b, c.value = seen ∧ fails = false ∧ ops.next op c.value = some b ∧
          c' = c.commits thread op b) := by
  cases l with
  | call thread op =>
      simp only [step] at ran
      split at ran
      · contradiction
      rename_i idle
      refine .inl ⟨thread, op, rfl, idle, ?_⟩
      split at ran
      · rename_i single
        split at ran
        · cases ran
          exact .inl rfl
        · rename_i b next
          cases ran
          exact .inr ⟨b, single, next, rfl⟩
      · cases ran
        exact .inl rfl
  | compareExchange thread fails =>
      simp only [step] at ran
      split at ran
      · contradiction
      rename_i op seen looping
      refine .inr ⟨thread, fails, op, seen, rfl, looping, ?_⟩
      split at ran
      · contradiction
      rename_i b next
      split at ran
      · rename_i exchanged
        obtain ⟨same, succeeds⟩ := exchanged
        cases ran
        exact .inr ⟨b, same, Bool.eq_false_iff.mpr succeeds, same ▸ next, rfl⟩
      · cases ran
        exact .inl rfl

theorem step_replay (replayed : replay ops a c.log = some c.value) {l : Access ο}
    (ran : step ops c l = some c') : replay ops a c'.log = some c'.value := by
  obtain ⟨thread, op, -, -, rfl | ⟨b, -, next, rfl⟩⟩ |
    ⟨thread, fails, op, seen, -, -, rfl | ⟨b, -, -, next, rfl⟩⟩ := step_cases ran
  · exact sees_replay (c := c.called thread op) replayed thread op
  · exact commits_replay (c := c.called thread op) replayed thread next
  · exact sees_replay replayed thread op
  · exact commits_replay replayed thread next

/-- The calls of a thread that are in the log, and the one that is in its loop. -/
def Cell.ofThread (c : Cell α ο) (thread : Nat) : List ο :=
  (c.log.filter fun entry => decide (entry.thread = thread)).map Entry.op ++
    ((c.loops thread).map Prod.fst).toList

def Cell.callsOf (c : Cell α ο) (thread : Nat) : List ο :=
  (c.calls.filter fun call => decide (call.1 = thread)).map Prod.snd

omit [DecidableEq α] in
theorem sees_ofThread (c : Cell α ο) (thread : Nat) (op : ο) (p : Nat) :
    (c.sees ops thread op).ofThread p =
      if thread = p then
        (c.log.filter fun entry => decide (entry.thread = p)).map Entry.op ++ [op]
      else c.ofThread p := by
  unfold Cell.sees
  by_cases mine : thread = p
  · subst mine
    cases ops.next op c.value with
    | none => simp [Cell.ofThread, List.filter_append]
    | some b => simp [Cell.ofThread]
  · have other : p ≠ thread := fun same => mine same.symm
    cases ops.next op c.value with
    | none => simp [Cell.ofThread, List.filter_append, mine, other]
    | some b => simp [Cell.ofThread, mine, other]

omit [DecidableEq α] in
theorem sees_callsOf (c : Cell α ο) (thread : Nat) (op : ο) (p : Nat) :
    (c.sees ops thread op).callsOf p = c.callsOf p := by
  unfold Cell.sees
  split
  · rfl
  · rfl

omit [DecidableEq α] in
theorem commits_ofThread (c : Cell α ο) (thread : Nat) (op : ο) (b : α) (p : Nat) :
    (c.commits thread op b).ofThread p =
      if thread = p then
        (c.log.filter fun entry => decide (entry.thread = p)).map Entry.op ++ [op]
      else c.ofThread p := by
  by_cases mine : thread = p
  · subst mine
    simp [Cell.commits, Cell.ofThread, List.filter_append]
  · have other : p ≠ thread := fun same => mine same.symm
    simp [Cell.commits, Cell.ofThread, List.filter_append, mine, other]

omit [DecidableEq α] in
theorem called_callsOf (c : Cell α ο) (thread : Nat) (op : ο) (p : Nat) :
    (c.called thread op).callsOf p = c.callsOf p ++ if thread = p then [op] else [] := by
  by_cases mine : thread = p
  · simp [Cell.called, Cell.callsOf, List.filter_append, mine]
  · simp [Cell.called, Cell.callsOf, List.filter_append, mine]

omit [DecidableEq α] in
theorem called_inOrder (ordered : ∀ p, c.ofThread p = c.callsOf p) {thread : Nat}
    (idle : c.loops thread = none) (op : ο) (p : Nat) :
    (if thread = p then
        (c.log.filter fun entry => decide (entry.thread = p)).map Entry.op ++ [op]
      else c.ofThread p) = (c.called thread op).callsOf p := by
  have before := ordered p
  rw [called_callsOf]
  by_cases mine : thread = p
  · subst mine
    rw [if_pos rfl, if_pos rfl, ← before]
    simp [Cell.ofThread, idle]
  · rw [if_neg mine, if_neg mine, List.append_nil, ← before]

omit [DecidableEq α] in
theorem looping_inOrder (ordered : ∀ p, c.ofThread p = c.callsOf p) {thread : Nat} {op : ο}
    {seen : α} (looping : c.loops thread = some (op, seen)) (p : Nat) :
    (if thread = p then
        (c.log.filter fun entry => decide (entry.thread = p)).map Entry.op ++ [op]
      else c.ofThread p) = c.callsOf p := by
  rw [← ordered p]
  by_cases mine : thread = p
  · subst mine
    simp [Cell.ofThread, looping]
  · rw [if_neg mine]

theorem step_inOrder (ordered : ∀ p, c.ofThread p = c.callsOf p) {l : Access ο}
    (ran : step ops c l = some c') (p : Nat) : c'.ofThread p = c'.callsOf p := by
  obtain ⟨thread, op, -, idle, sees | ⟨b, -, -, rfl⟩⟩ |
    ⟨thread, fails, op, seen, -, looping, sees | ⟨b, -, -, -, rfl⟩⟩ := step_cases ran
  · have after := called_inOrder ordered idle op p
    rw [sees]
    exact (sees_ofThread _ thread op p).trans (after.trans (sees_callsOf _ thread op p).symm)
  · exact (commits_ofThread _ thread op _ p).trans (called_inOrder ordered idle op p)
  · have kept := looping_inOrder ordered looping p
    rw [sees]
    exact (sees_ofThread _ thread op p).trans (kept.trans (sees_callsOf _ thread op p).symm)
  · exact (commits_ofThread _ thread op _ p).trans (looping_inOrder ordered looping p)

omit [DecidableEq α] in
theorem sees_log (c : Cell α ο) (thread : Nat) (op : ο) :
    (c.sees ops thread op).log = c.log ∨ (c.sees ops thread op).loops thread = none ∧
      ∃ entry : Entry ο, entry.thread = thread ∧ (c.sees ops thread op).log = c.log ++ [entry] := by
  unfold Cell.sees
  cases ops.next op c.value with
  | none => exact .inr ⟨Function.update_self .., ⟨thread, op, false⟩, rfl, rfl⟩
  | some b => exact .inl rfl

omit [DecidableEq α] in
theorem commits_log (c : Cell α ο) (thread : Nat) (op : ο) (b : α) :
    (c.commits thread op b).loops thread = none ∧ ∃ entry : Entry ο, entry.thread = thread ∧
      (c.commits thread op b).log = c.log ++ [entry] :=
  ⟨Function.update_self .., ⟨thread, op, true⟩, rfl, rfl⟩

/-- The cell holds what its log gives when the operations run one at a time, and
the log has the calls of every thread in their order, up to one in its loop. -/
theorem linearizable {ok : Cell α ο → Access ο → Prop}
    (reached : Reach (step ops) ok (fun c => c = start a) c) :
    replay ops a c.log = some c.value ∧ ∀ p, c.ofThread p = c.callsOf p := by
  refine reached.invariant
    (I := fun c => replay ops a c.log = some c.value ∧ ∀ p, c.ofThread p = c.callsOf p) ?_ ?_
  · intro s first
    rw [first]
    exact ⟨rfl, fun _ => rfl⟩
  · intro s l t ⟨replayed, ordered⟩ _ ran
    exact ⟨step_replay replayed ran, step_inOrder ordered ran⟩

end Linearizable

end AtomicCell
