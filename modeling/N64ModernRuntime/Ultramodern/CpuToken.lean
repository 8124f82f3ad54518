import Mathlib.Algebra.BigOperators.Group.Finset.Piecewise
import N64ModernRuntime.Ultramodern.StepCases

/-!
# The CPU token

At any time at most one context has the CPU: its host thread executes guest
code, or its `running` semaphore has a count that it has yet to take.  Counts
on contexts that their OSThread has dropped do not matter, since they only
wake a host thread to unwind.
-/

set_option autoImplicit false

namespace N64ModernRuntime.Ultramodern

open Transition

def Pc.executing : Pc → Bool
  | .running _ => true
  | _ => false

def Kernel.executing (k : Kernel) (c : ContextId) : Bool := (k.pc c).executing

/-- `self->context == ctx` -/
def Kernel.current (k : Kernel) (c : ContextId) : Prop := (k.thread c).context = some c

instance (k : Kernel) (c : ContextId) : Decidable (k.current c) :=
  inferInstanceAs (Decidable ((k.thread c).context = some c))

/-- The counts on a context that is still the one of its OSThread. -/
def Kernel.undelivered (k : Kernel) (c : ContextId) : Nat :=
  if k.current c then (k.context c).running else 0

def Kernel.tokens (k : Kernel) (c : ContextId) : Nat :=
  (if k.executing c then 1 else 0) + k.undelivered c

/-- Whose turn it is, if anybody's. -/
def Kernel.Holder (k : Kernel) (h : Option ContextId) : Prop :=
  ∀ c, k.tokens c = if h = some c then 1 else 0

structure Kernel.Coherent (k : Kernel) : Prop where
  owner : ∀ t c, (k.memory.thread t).context = some c → c < k.contexts ∧ k.self c = t
  fresh : ∀ c, k.contexts ≤ c → k.context c = {}
  waiting : ∀ c on after, k.pc c = .waiting on after →
    on < k.contexts ∧ k.self on = k.self c ∧ (on = c ∨ (k.thread c).context ≠ some c)
  unwinding : ∀ c, k.pc c = .unwinding → (k.thread c).context ≠ some c

section Counting
variable {k k' : Kernel} {c d : ContextId} {h : Option ContextId}

theorem executing_of_running {after : Cont} (here : k.pc c = .running after) :
    k.executing c = true := by
  rw [Kernel.executing, here]
  rfl

theorem Kernel.Holder.of_executing (holder : k.Holder h) (running : k.executing c = true) :
    h = some c ∧ (∀ d, k.undelivered d = 0) ∧ ∀ d, k.executing d = decide (d = c) := by
  have mine := holder c
  simp only [Kernel.tokens, running, if_true] at mine
  have turn : h = some c := by
    by_contra other
    rw [if_neg other] at mine
    omega
  subst turn
  refine ⟨rfl, ?_, ?_⟩ <;> intro d <;> have others := holder d <;>
    simp only [Kernel.tokens, Option.some.injEq] at others <;> by_cases same : d = c
  · subst same
    simp only [running, if_true] at others
    omega
  · rw [if_neg (Ne.symm same)] at others
    omega
  · subst same
    simpa using running
  · rw [if_neg (Ne.symm same)] at others
    have idle : k.executing d ≠ true := by
      intro busy
      rw [if_pos busy] at others
      omega
    simpa [same] using idle

theorem Kernel.Holder.of_undelivered (holder : k.Holder h) (signalled : 0 < k.undelivered c) :
    h = some c ∧ (∀ d, k.undelivered d = if d = c then 1 else 0) ∧ ∀ d, k.executing d = false := by
  have mine := holder c
  have turn : h = some c := by
    by_contra other
    simp only [Kernel.tokens, if_neg other] at mine
    omega
  subst turn
  have idle : ∀ d, k.executing d = false := by
    intro d
    by_contra busy
    have running : k.executing d = true := by simpa using busy
    have := (holder.of_executing running).2.1 c
    omega
  refine ⟨rfl, fun d => ?_, idle⟩
  have others := holder d
  simp only [Kernel.tokens, idle d, Bool.false_eq_true, if_false, Nat.zero_add,
    Option.some.injEq] at others
  rw [others]
  simp only [eq_comm]

theorem holder_of_running (running : ∀ d, k.executing d = decide (d = c))
    (quiet : ∀ d, k.undelivered d = 0) : k.Holder (some c) := by
  intro d
  by_cases same : d = c
  · subst same
    simp [Kernel.tokens, running, quiet]
  · simp [Kernel.tokens, running, quiet, same, Ne.symm same]

theorem holder_of_signal (idle : ∀ d, k.executing d = false)
    (signalled : ∀ d, k.undelivered d = if d = c then 1 else 0) : k.Holder (some c) := by
  intro d
  simp [Kernel.tokens, idle, signalled, eq_comm]

theorem Kernel.Holder.congr (holder : k.Holder h) (executing : ∀ d, k'.executing d = k.executing d)
    (undelivered : ∀ d, k'.undelivered d = k.undelivered d) : k'.Holder h := by
  intro d
  rw [Kernel.tokens, executing, undelivered]
  exact holder d

theorem setPc_executing (pc : Pc) :
    (k.setPc c pc).executing d = if d = c then pc.executing else k.executing d := by
  rw [Kernel.executing, setPc_pc]
  split <;> rfl

@[simp] theorem signal_executing : (k.signal c).executing d = k.executing d := by
  simp [Kernel.executing]

@[simp] theorem consume_executing : (k.consume c).executing d = k.executing d := by
  simp [Kernel.executing]

@[simp] theorem withMemory_executing (m : Memory) :
    (k.withMemory m).executing d = k.executing d := rfl

@[simp] theorem setPc_current (pc : Pc) : (k.setPc c pc).current d ↔ k.current d := by
  simp [Kernel.current, Kernel.thread]

@[simp] theorem signal_current : (k.signal c).current d ↔ k.current d := by
  simp [Kernel.current, Kernel.thread]

@[simp] theorem consume_current : (k.consume c).current d ↔ k.current d := by
  simp [Kernel.current, Kernel.thread]

@[simp] theorem setPc_undelivered (pc : Pc) :
    (k.setPc c pc).undelivered d = k.undelivered d := by
  have running : ((k.setPc c pc).context d).running = (k.context d).running := by
    unfold Kernel.setPc
    rw [modifyContext_context]
    split <;> simp_all
  simp only [Kernel.undelivered, setPc_current, running]

theorem signal_undelivered :
    (k.signal c).undelivered d = k.undelivered d + if d = c ∧ k.current c then 1 else 0 := by
  simp only [Kernel.undelivered, signal_current]
  unfold Kernel.signal
  rw [modifyContext_context]
  by_cases here : d = c
  · subst here
    by_cases current : k.current d <;> simp [current]
  · simp [here]

theorem consume_undelivered :
    (k.consume c).undelivered d = k.undelivered d - if d = c then 1 else 0 := by
  simp only [Kernel.undelivered, consume_current]
  unfold Kernel.consume
  rw [modifyContext_context]
  by_cases here : d = c
  · subst here
    by_cases current : k.current d <;> simp [current]
  · simp [here]

theorem withMemory_current {m : Memory}
    (contexts : ∀ u, (m.thread u).context = (k.memory.thread u).context) :
    (k.withMemory m).current d ↔ k.current d := by
  simp [Kernel.current, Kernel.thread, contexts]

theorem withMemory_undelivered {m : Memory}
    (contexts : ∀ u, (m.thread u).context = (k.memory.thread u).context) :
    (k.withMemory m).undelivered d = k.undelivered d := by
  simp only [Kernel.undelivered, withMemory_current contexts, withMemory_context]

end Counting

/-! ## One step -/

/-- Where a step of the machine may take the host thread of `c`. -/
def Kernel.Goes (k : Kernel) (c : ContextId) : Pc → Prop
  | .running _ => True
  | .waiting on _ => (k.thread c).context = some on
  | .unwinding => (k.thread c).context ≠ some c
  | .finished => True

section Step
variable {layout : ThreadLayout} {k k' : Kernel} {l : Label layout} {h : Option ContextId}

/-- A step that creates no context keeps the kernel coherent if OSThreads only
drop contexts and no host thread starts to wait on a foreign one. -/
theorem Kernel.Coherent.moves (coherent : k.Coherent) (contexts : k'.contexts = k.contexts)
    (self : ∀ d, k'.self d = k.self d)
    (owner : ∀ t d, (k'.memory.thread t).context = some d → (k.memory.thread t).context = some d)
    (fresh : ∀ d, k.contexts ≤ d → k'.context d = k.context d)
    (pc : ∀ d, k'.pc d = k.pc d ∨ k.Goes d (k'.pc d)) : k'.Coherent := by
  have dropped : ∀ d, (k.thread d).context ≠ some d → (k'.thread d).context ≠ some d := by
    intro d stale current
    rw [Kernel.thread, self] at current
    exact stale (owner _ _ current)
  refine ⟨?_, ?_, ?_, ?_⟩
  · intro t d owned
    rw [contexts, self]
    exact coherent.owner t d (owner t d owned)
  · intro d above
    rw [contexts] at above
    rw [fresh d above]
    exact coherent.fresh d above
  · intro d on after here
    rw [contexts, self, self]
    rcases pc d with same | goes
    · rw [same] at here
      obtain ⟨below, owns, own⟩ := coherent.waiting d on after here
      exact ⟨below, owns, own.imp id (dropped d)⟩
    · rw [here] at goes
      have owned : (k.thread d).context = some on := goes
      obtain ⟨below, owns⟩ := coherent.owner _ _ owned
      refine ⟨below, owns, ?_⟩
      by_cases own : on = d
      · exact .inl own
      · exact .inr (dropped d (by rw [owned]; simpa using own))
  · intro d here
    rcases pc d with same | goes
    · rw [same] at here
      exact dropped d (coherent.unwinding d here)
    · rw [here] at goes
      exact dropped d goes

theorem setPc_fresh {c d : ContextId} (pc : Pc) (other : d ≠ c) :
    (k.setPc c pc).context d = k.context d := by
  rw [Kernel.setPc, modifyContext_context, if_neg other]

theorem signal_fresh {c d : ContextId} (other : d ≠ c) :
    (k.signal c).context d = k.context d := by
  rw [Kernel.signal, modifyContext_context, if_neg other]

theorem consume_fresh {c d : ContextId} (other : d ≠ c) :
    (k.consume c).context d = k.context d := by
  rw [Kernel.consume, modifyContext_context, if_neg other]

/-- A host thread that is not finished belongs to a context that was created. -/
theorem Kernel.Coherent.created {c : ContextId} (coherent : k.Coherent)
    (live : k.pc c ≠ .finished) : c < k.contexts := by
  by_contra above
  exact live (by rw [Kernel.pc, coherent.fresh c (Nat.not_lt.mp above)])

section Create
variable (k) (t : Ptr) (pri : OSPri) (d : ContextId)

theorem create_context_other {d : ContextId} (old : d ≠ k.contexts) :
    (osCreateThread k t pri).context d = k.context d := by
  simp [osCreateThread, old]

theorem create_self : (osCreateThread k t pri).self d = if d = k.contexts then t else k.self d := by
  unfold Kernel.self
  split
  · rename_i new
    simp [osCreateThread, new]
  · rename_i old
    rw [create_context_other k t pri old]

theorem create_pc : (osCreateThread k t pri).pc d =
    if d = k.contexts then .waiting k.contexts (.guest 0) else k.pc d := by
  unfold Kernel.pc
  split
  · rename_i new
    simp [osCreateThread, new]
  · rename_i old
    rw [create_context_other k t pri old]

theorem create_thread_context (u : Ptr) : ((osCreateThread k t pri).memory.thread u).context =
    if u = t then some k.contexts else (k.memory.thread u).context := by
  split
  · rename_i same
    subst same
    simp [osCreateThread]
  · rename_i other
    simp only [osCreateThread]
    rw [modifyThread_other _ _ other]

end Create

theorem Kernel.Coherent.create (coherent : k.Coherent) (t : Ptr) (pri : OSPri) :
    (osCreateThread k t pri).Coherent := by
  have stale : ∀ d, d < k.contexts → (k.thread d).context ≠ some d →
      ((osCreateThread k t pri).thread d).context ≠ some d := by
    intro d below stale
    rw [Kernel.thread, create_self, if_neg (Nat.ne_of_lt below), create_thread_context]
    split
    · intro same
      exact Nat.ne_of_gt below (Option.some.inj same)
    · exact stale
  refine ⟨?_, ?_, ?_, ?_⟩
  · intro u d owned
    rw [create_thread_context] at owned
    rw [create_self]
    split at owned
    · rename_i same
      cases owned
      exact ⟨Nat.lt_succ_self _, by simp [same]⟩
    · obtain ⟨below, owns⟩ := coherent.owner u d owned
      exact ⟨Nat.lt_succ_of_lt below, by rw [if_neg (Nat.ne_of_lt below), owns]⟩
  · intro d above
    have new : k.contexts < d := above
    rw [create_context_other k t pri (Nat.ne_of_gt new)]
    exact coherent.fresh d (Nat.le_of_lt new)
  · intro d on after here
    rw [create_pc] at here
    split at here
    · rename_i new
      cases here
      exact ⟨Nat.lt_succ_self _, by rw [new], .inl new.symm⟩
    · rename_i old
      obtain ⟨below, owns, own⟩ := coherent.waiting d on after here
      have created := coherent.created (c := d) (by rw [here]; simp)
      rw [create_self, create_self, if_neg old, if_neg (Nat.ne_of_lt below)]
      exact ⟨Nat.lt_succ_of_lt below, owns, own.imp id (stale d created)⟩
  · intro d here
    rw [create_pc] at here
    split at here
    · contradiction
    · exact stale d (coherent.created (c := d) (by rw [here]; simp)) (coherent.unwinding d here)

theorem detach_context (m : Memory) (t u : Ptr) :
    ((detach m t).thread u).context = (m.thread u).context := by
  unfold detach
  split
  · exact threadQueueRemove_context ..
  · rfl

theorem osDestroyOther_cases (k : Kernel) (t : Ptr) :
    ((k.memory.thread t).context = none ∧
      osDestroyOther k t = k.withMemory (detach k.memory t)) ∨
    ∃ tc, (k.memory.thread t).context = some tc ∧
      osDestroyOther k t = (k.withMemory ((detach k.memory t).clearContext t)).signal tc := by
  have frame := detach_context k.memory t t
  unfold osDestroyOther
  cases owner : ((detach k.memory t).thread t).context with
  | none => exact .inl ⟨frame ▸ owner, by simp only [owner]⟩
  | some tc => exact .inr ⟨tc, frame ▸ owner, by simp only [owner]⟩

/-- A running host thread may change where it is, its memory may drop contexts,
and one context that an OSThread still has may be signalled. -/
theorem Kernel.Coherent.runs {c cp : ContextId} {m : Memory} {pc : Pc} (coherent : k.Coherent)
    (live : k.pc c ≠ .finished)
    (owner : ∀ t d, (m.thread t).context = some d → (k.memory.thread t).context = some d)
    (goes : k.Goes c pc) (signalled : cp < k.contexts) :
    (((k.withMemory m).signal cp).setPc c pc).Coherent := by
  have below := coherent.created live
  refine coherent.moves rfl (fun d => by simp) owner ?_ ?_
  · intro d above
    rw [setPc_fresh pc (Nat.ne_of_gt (lt_of_lt_of_le below above)),
      signal_fresh (Nat.ne_of_gt (lt_of_lt_of_le signalled above)), withMemory_context]
  · intro d
    rw [setPc_pc]
    split
    · rename_i same
      subst same
      exact .inr goes
    · exact .inl (by simp)

/-- The same without a signal. -/
theorem Kernel.Coherent.stays {c : ContextId} {m : Memory} {pc : Pc} (coherent : k.Coherent)
    (live : k.pc c ≠ .finished)
    (owner : ∀ t d, (m.thread t).context = some d → (k.memory.thread t).context = some d)
    (goes : k.Goes c pc) : ((k.withMemory m).setPc c pc).Coherent := by
  have below := coherent.created live
  refine coherent.moves rfl (fun d => by simp) owner ?_ ?_
  · intro d above
    rw [setPc_fresh pc (Nat.ne_of_gt (lt_of_lt_of_le below above)), withMemory_context]
  · intro d
    rw [setPc_pc]
    split
    · rename_i same
      subst same
      exact .inr goes
    · exact .inl (by simp)

theorem not_finished {c : ContextId} {pc : Pc} (here : k.pc c = pc) (live : pc ≠ .finished) :
    k.pc c ≠ .finished := by
  rw [here]
  exact live

theorem not_finished_of_tail {c : ContextId}
    (here : (∃ ret, k.pc c = .running (.guest ret)) ∨ k.pc c = .unwinding) :
    k.pc c ≠ .finished := by
  rcases here with ⟨ret, here⟩ | here <;> simp [here]

theorem clearContext_owner {m : Memory} {t u : Ptr} {d : ContextId}
    (owned : ((m.clearContext t).thread u).context = some d) :
    u ≠ t ∧ (m.thread u).context = some d := by
  rw [clearContext_context] at owned
  split at owned
  · contradiction
  · rename_i other
    exact ⟨other, owned⟩

theorem swap_context (m : Memory) (t u : Ptr) :
    ((scheduleRunningThread (threadQueuePop m .running).2 t).thread u).context =
      (m.thread u).context := by
  rw [scheduleRunningThread_field _ t u OSThread.context fun _ _ _ _ => rfl,
    threadQueuePop_context]

/-- The context of a waiting host thread gives one count. -/
theorem Kernel.Coherent.consume {on : ContextId} (coherent : k.Coherent) (below : on < k.contexts) :
    (k.consume on).Coherent :=
  coherent.moves rfl (fun d => consume_self k d on) (fun _ _ => id)
    (fun _ above => consume_fresh (Nat.ne_of_gt (lt_of_lt_of_le below above)))
    fun d => .inl (consume_pc k d on)

theorem wakesStale_coherent {c on : ContextId} {after : Cont} (coherent : k.Coherent)
    (here : k.pc c = .waiting on after) (stale : (k.thread c).context ≠ some on) :
    ((k.consume on).setPc c .unwinding).Coherent := by
  obtain ⟨below, _, own⟩ := coherent.waiting c on after here
  refine (coherent.consume below).stays (m := k.memory) (by simp [here]) (fun _ _ => id) ?_
  have left : (k.thread c).context ≠ some c := by
    rcases own with rfl | left
    · exact stale
    · exact left
  simpa [Kernel.Goes, Kernel.thread] using left

theorem destroys_coherent {c : ContextId} {target : Ptr} {ret : Int} (coherent : k.Coherent)
    (here : k.pc c = .running (.guest ret)) :
    ((osDestroyOther k target).setPc c (.running (.guest 0))).Coherent := by
  have live := not_finished here (by simp)
  rcases osDestroyOther_cases k target with ⟨_, same⟩ | ⟨tc, owner, same⟩ <;> rw [same]
  · refine coherent.stays live ?_ trivial
    intro u d owned
    rw [detach_context] at owned
    exact owned
  · refine coherent.runs live ?_ trivial (coherent.owner _ _ owner).1
    intro u d owned
    have kept := (clearContext_owner owned).2
    rw [detach_context] at kept
    exact kept

theorem Kernel.Coherent.step (coherent : k.Coherent) (outcome : Outcome k l k') : k'.Coherent := by
  cases outcome with
  | aborts halt =>
      exact coherent.moves rfl (fun _ => rfl) (fun _ _ => id) (fun _ _ => rfl) fun _ => .inl rfl
  | outsideCreate t pri => exact coherent.create t.val pri
  | outsideStart t cp closed owner =>
      refine coherent.moves rfl (fun d => signal_self _ d cp) ?_ ?_ fun d => .inl (signal_pc _ d cp)
      · intro u d owned
        rw [← owned]
        exact (setState_context ..).symm
      · intro d above
        exact signal_fresh (Nat.ne_of_gt (lt_of_lt_of_le (coherent.owner _ _ owner).1 above))
  | wakes c on after here signalled own =>
      have consumed := coherent.consume (coherent.waiting c on after here).1
      refine consumed.stays (by simp [here]) ?_ trivial
      intro u d owned
      rw [← owned]
      exact (setState_context ..).symm
  | wakesStale c on after here signalled stale =>
      exact wakesStale_coherent coherent here stale
  | creates c t pri ret here =>
      have old : c ≠ k.contexts :=
        Nat.ne_of_lt (coherent.created (not_finished here (by simp)))
      refine (coherent.create t.val pri).stays (m := (osCreateThread k t.val pri).memory) ?_
        (fun _ _ => id) trivial
      rw [create_pc, if_neg old, here]
      simp
  | proceeds c after after' m here acts once calm =>
      refine coherent.stays (not_finished here (by simp)) ?_ trivial
      intro u d owned
      rw [← acts.context]
      exact owned
  | swaps c w cp after ret m next here acts busy front outranked caller owner =>
      have owner' : (k.memory.thread next).context = some cp := acts.context next ▸ owner
      refine coherent.runs (not_finished here (by simp)) ?_ ?_ (coherent.owner _ _ owner').1
      · intro u d owned
        rw [swap_context, acts.context] at owned
        exact owned
      · rw [acts.context] at caller
        exact caller
  | parks c w cp after op m here same stuck parked caller busy owner =>
      subst parked
      rw [threadQueueInsert_context] at caller owner
      refine coherent.runs (not_finished here (by simp)) ?_ caller (coherent.owner _ _ owner).1
      intro u d owned
      rw [threadQueuePop_context, threadQueueInsert_context] at owned
      exact owned
  | stops c w cp ret here caller busy owner =>
      refine coherent.runs (not_finished here (by simp)) ?_ caller (coherent.owner _ _ owner).1
      intro u d owned
      rw [threadQueuePop_context] at owned
      exact owned
  | destroys c t target ret here named other => exact destroys_coherent coherent here
  | exits c cp here own m cleared busy owner =>
      subst cleared
      have live := not_finished_of_tail here
      refine coherent.runs live ?_ trivial (coherent.owner _ _ (clearContext_owner owner).2).1
      intro u d owned
      rw [threadQueuePop_context] at owned
      exact (clearContext_owner owned).2
  | fades c here stale =>
      exact coherent.stays (m := k.memory) (not_finished_of_tail here) (fun _ _ => id) trivial

/-! ### How the token moves -/

theorem Kernel.Holder.of_none (holder : k.Holder none) (d : ContextId) :
    k.executing d = false ∧ k.undelivered d = 0 := by
  have empty := holder d
  simp only [Kernel.tokens, reduceCtorEq, if_false] at empty
  constructor
  · by_contra busy
    have running : k.executing d = true := by simpa using busy
    rw [if_pos running] at empty
    omega
  · omega

theorem holder_none (idle : ∀ d, k.executing d = false) (quiet : ∀ d, k.undelivered d = 0) :
    k.Holder none := by
  intro d
  simp [Kernel.tokens, idle, quiet]

theorem withMemory_undelivered_zero {m : Memory} {d : ContextId}
    (owner : ∀ t d, (m.thread t).context = some d → (k.memory.thread t).context = some d)
    (quiet : k.undelivered d = 0) : (k.withMemory m).undelivered d = 0 := by
  unfold Kernel.undelivered at *
  split
  · rename_i current
    have before : k.current d := owner _ _ current
    rw [if_pos before] at quiet
    exact quiet
  · rfl

/-- The running host thread stops running and signals a current context. -/
theorem Kernel.Holder.hands {c cp : ContextId} {m : Memory} {pc : Pc} (holder : k.Holder h)
    (running : k.executing c = true)
    (owner : ∀ t d, (m.thread t).context = some d → (k.memory.thread t).context = some d)
    (current : (k.withMemory m).current cp) (idle : pc.executing = false) :
    (((k.withMemory m).signal cp).setPc c pc).Holder (some cp) := by
  obtain ⟨_, quiet, only⟩ := holder.of_executing running
  refine holder_of_signal ?_ ?_
  · intro d
    rw [setPc_executing]
    split
    · exact idle
    · rename_i other
      simp [only, other]
  · intro d
    rw [setPc_undelivered, signal_undelivered, withMemory_undelivered_zero owner (quiet d)]
    simp [current]

/-- The running host thread goes on running; a signal it gives is to a stale context. -/
theorem Kernel.Holder.keeps {c : ContextId} (holder : k.Holder h) (running : k.executing c = true)
    (executing : ∀ d, k'.executing d = k.executing d)
    (undelivered : ∀ d, k.undelivered d = 0 → k'.undelivered d = 0) : k'.Holder (some c) := by
  obtain ⟨_, quiet, only⟩ := holder.of_executing running
  exact holder_of_running (fun d => (executing d).trans (only d)) fun d => undelivered d (quiet d)

theorem setPc_executing_same {c d : ContextId} {pc : Pc} (running : k.executing c = pc.executing) :
    (k.setPc c pc).executing d = k.executing d := by
  rw [setPc_executing]
  split
  · rename_i same
    rw [same, running]
  · rfl

/-- With no token about, a signal to a current context is the token. -/
theorem Kernel.Holder.opens {cp : ContextId} (holder : k.Holder none) (current : k.current cp) :
    (k.signal cp).Holder (some cp) := by
  refine holder_of_signal (fun d => signal_executing.trans (holder.of_none d).1) ?_
  intro d
  rw [signal_undelivered, (holder.of_none d).2]
  simp [current]

/-- A host thread that takes the one undelivered signal runs with the token. -/
theorem Kernel.Holder.takes {c on : ContextId} {m : Memory} {pc : Pc} (holder : k.Holder h)
    (pending : 0 < k.undelivered on)
    (frame : ∀ t, (m.thread t).context = ((k.consume on).memory.thread t).context)
    (goes : pc.executing = true) :
    (((k.consume on).withMemory m).setPc c pc).Holder (some c) := by
  obtain ⟨_, signals, idle⟩ := holder.of_undelivered pending
  refine holder_of_running ?_ ?_
  · intro d
    rw [setPc_executing, withMemory_executing, consume_executing, idle]
    split
    · rename_i mine
      simp [mine, goes]
    · rename_i other
      simp [other]
  · intro d
    have kept : ((k.consume on).withMemory m).undelivered d = (k.consume on).undelivered d :=
      withMemory_undelivered frame
    rw [setPc_undelivered, kept, consume_undelivered, signals]
    split <;> rfl

/-- The running host thread stops running and signals nobody. -/
theorem Kernel.Holder.drops {c : ContextId} {pc : Pc} (holder : k.Holder h)
    (running : k.executing c = true) (idle : pc.executing = false) : (k.setPc c pc).Holder none := by
  obtain ⟨_, quiet, only⟩ := holder.of_executing running
  refine holder_none ?_ fun d => (setPc_undelivered _).trans (quiet d)
  intro d
  rw [setPc_executing]
  split
  · exact idle
  · rename_i other
    simp [only, other]

theorem create_executing (coherent : k.Coherent) (t : Ptr) (pri : OSPri) (d : ContextId) :
    (osCreateThread k t pri).executing d = k.executing d := by
  rw [Kernel.executing, create_pc, Kernel.executing]
  split
  · rename_i new
    rw [new, Kernel.pc, coherent.fresh _ (Nat.le_refl _)]
    rfl
  · rfl

theorem create_undelivered_zero (t : Ptr) (pri : OSPri) {d : ContextId}
    (quiet : k.undelivered d = 0) : (osCreateThread k t pri).undelivered d = 0 := by
  unfold Kernel.undelivered at *
  split
  · rename_i current
    by_cases new : d = k.contexts
    · simp [osCreateThread, new]
    · rw [create_context_other k t pri new]
      rw [Kernel.current, Kernel.thread, create_self, if_neg new, create_thread_context] at current
      split at current
      · exact absurd (Option.some.inj current).symm new
      · have before : k.current d := current
        rwa [if_pos before] at quiet
  · rfl

theorem Kernel.Coherent.current (coherent : k.Coherent) {t : Ptr} {cp : ContextId}
    (owner : (k.memory.thread t).context = some cp) : k.current cp := by
  rw [Kernel.current, Kernel.thread, (coherent.owner t cp owner).2]
  exact owner

/-- What a step may do with the token `h`: keep it, pass it on, or lose it with a host
thread that runs in a context its OSThread has dropped. -/
def TokenStep (k : Kernel) (h : Option ContextId) (k' : Kernel) : Prop :=
  ∃ h', k'.Holder h' ∧ (k'.started = false → h' = none) ∧
    (h' = none → k'.started = true → (h = none ∧ k.started = true) ∨
      ∃ c, k.executing c = true ∧ ¬ k.current c)

theorem TokenStep.stays (holder : k'.Holder h) (closed : k.started = false → h = none)
    (same : k'.started = k.started) : TokenStep k h k' := by
  refine ⟨h, holder, ?_, ?_⟩
  · intro stopped
    exact closed (same ▸ stopped)
  · intro none started
    exact .inl ⟨none, same ▸ started⟩

theorem TokenStep.moves {c : ContextId} (started : k.started = true)
    (same : k'.started = k.started) (next : k'.Holder (some c)) : TokenStep k h k' := by
  refine ⟨some c, next, ?_, fun none => by simp at none⟩
  intro stopped
  rw [same, started] at stopped
  contradiction

/-- Before the first start no host thread runs. -/
theorem Kernel.Holder.started {c : ContextId} (holder : k.Holder h)
    (closed : k.started = false → h = none) (running : k.executing c = true) :
    k.started = true := by
  by_contra unstarted
  have turn := (holder.of_executing running).1
  rw [closed (by simpa using unstarted)] at turn
  contradiction

theorem outsideCreate_token (coherent : k.Coherent) (holder : k.Holder none) (t : Ptr) (pri : OSPri)
    (unstarted : k.started = false) : TokenStep k none (osCreateThread k t pri) := by
  refine ⟨none, holder_none ?_ ?_, fun _ => rfl, fun _ started => ?_⟩
  · intro d
    rw [create_executing coherent]
    exact (holder.of_none d).1
  · intro d
    exact create_undelivered_zero _ _ (holder.of_none d).2
  · have same : k.started = true := started
    rw [unstarted] at same
    contradiction

theorem outsideStart_token {t : Ptr} {cp : ContextId} (coherent : k.Coherent)
    (holder : k.Holder none) (owner : (k.memory.thread t).context = some cp) :
    TokenStep k none
      { (k.withMemory (k.memory.setState t .queued)).signal cp with started := true } := by
  have current : (k.withMemory (k.memory.setState t .queued)).current cp :=
    (withMemory_current fun u => setState_context ..).mpr (coherent.current owner)
  have queued : (k.withMemory (k.memory.setState t .queued)).Holder none :=
    holder.congr (fun d => withMemory_executing _)
      fun d => withMemory_undelivered fun u => setState_context ..
  exact ⟨some cp, queued.opens current, fun stopped => by simp at stopped,
    fun none => by simp at none⟩

theorem wakes_token {c on : ContextId} {after : Cont} (coherent : k.Coherent)
    (holder : k.Holder h) (closed : k.started = false → h = none)
    (signalled : 0 < (k.context on).running) (own : (k.thread c).context = some on) :
    TokenStep k h (((k.consume on).withMemory (k.memory.setState (k.self c) .running)).setPc c
      (.running after)) := by
  have owner : (k.memory.thread (k.self c)).context = some on := own
  have pending : 0 < k.undelivered on := by
    rwa [Kernel.undelivered, if_pos (coherent.current owner)]
  have turn := (holder.of_undelivered pending).1
  have started : k.started = true := by
    by_contra unstarted
    rw [closed (by simpa using unstarted)] at turn
    contradiction
  exact .moves (c := c) started rfl (holder.takes pending (fun u => setState_context ..) rfl)

/-- The signal of a context its OSThread has dropped is no token. -/
theorem wakesStale_token {c on : ContextId} {after : Cont} (coherent : k.Coherent)
    (holder : k.Holder h) (closed : k.started = false → h = none)
    (here : k.pc c = .waiting on after) (stale : (k.thread c).context ≠ some on) :
    TokenStep k h ((k.consume on).setPc c .unwinding) := by
  have same := (coherent.waiting c on after here).2.1
  have gone : ¬ k.current on := by
    rw [Kernel.current, Kernel.thread, same]
    exact stale
  refine .stays (holder.congr ?_ ?_) closed rfl
  · intro d
    rw [setPc_executing_same, consume_executing]
    rw [consume_executing, Kernel.executing, here]
    rfl
  · intro d
    rw [setPc_undelivered, consume_undelivered]
    split
    · rename_i mine
      simp [mine, Kernel.undelivered, gone]
    · rfl

theorem creates_token {c : ContextId} {ret : Int} (coherent : k.Coherent) (holder : k.Holder h)
    (closed : k.started = false → h = none) (t : Ptr) (pri : OSPri)
    (here : k.pc c = .running (.guest ret)) :
    TokenStep k h ((osCreateThread k t pri).setPc c (.running (.guest 0))) := by
  have running := executing_of_running here
  refine .moves (holder.started closed running) rfl (holder.keeps running ?_ ?_)
  · intro d
    rw [setPc_executing_same, create_executing coherent]
    rw [create_executing coherent, running]
    rfl
  · intro d quiet
    rw [setPc_undelivered]
    exact create_undelivered_zero _ _ quiet

theorem proceeds_token {c : ContextId} {after after' : Cont} {m : Memory} (holder : k.Holder h)
    (closed : k.started = false → h = none) (here : k.pc c = .running after)
    (acts : Acts k c after l m) : TokenStep k h ((k.withMemory m).setPc c (.running after')) := by
  have running := executing_of_running here
  refine .moves (holder.started closed running) rfl (holder.keeps running ?_ ?_)
  · intro d
    rw [setPc_executing_same, withMemory_executing]
    rw [withMemory_executing, running]
    rfl
  · intro d quiet
    rw [setPc_undelivered, withMemory_undelivered acts.context, quiet]

/-- A hand-off passes the token from the caller to the context it signals. -/
theorem handOff_token {c w cp : ContextId} {after after' : Cont} {m : Memory} {t : Ptr}
    (coherent : k.Coherent) (holder : k.Holder h) (closed : k.started = false → h = none)
    (here : k.pc c = .running after)
    (frame : ∀ u, (m.thread u).context = (k.memory.thread u).context)
    (owner : (k.memory.thread t).context = some cp) :
    TokenStep k h (k.handOff m c w cp after') := by
  have running := executing_of_running here
  refine .moves (holder.started closed running) rfl (holder.hands running ?_ ?_ rfl)
  · intro u d owned
    rwa [frame] at owned
  · exact (withMemory_current frame).mpr (coherent.current owner)

/-- Destroying another thread keeps the token, the signal it gives being stale. -/
theorem destroys_token {c : ContextId} {target : Ptr} {ret : Int} (coherent : k.Coherent)
    (holder : k.Holder h) (closed : k.started = false → h = none)
    (here : k.pc c = .running (.guest ret)) :
    TokenStep k h ((osDestroyOther k target).setPc c (.running (.guest 0))) := by
  have running := executing_of_running here
  have started := holder.started closed running
  rcases osDestroyOther_cases k target with ⟨_, same⟩ | ⟨tc, owner, same⟩
  · refine .moves started (by rw [same]; rfl) (holder.keeps running ?_ ?_) <;>
      intro d <;> rw [same]
    · rw [setPc_executing_same, withMemory_executing]
      rw [withMemory_executing, running]
      rfl
    · intro quiet
      rw [setPc_undelivered, withMemory_undelivered fun u => detach_context .., quiet]
  · have stale : ¬ (k.withMemory ((detach k.memory target).clearContext target)).current tc := by
      intro current
      exact (clearContext_owner current).1 (coherent.owner _ _ owner).2
    refine .moves started (by rw [same]; rfl) (holder.keeps running ?_ ?_) <;>
      intro d <;> rw [same]
    · rw [setPc_executing_same, signal_executing, withMemory_executing]
      rw [signal_executing, withMemory_executing, running]
      rfl
    · intro quiet
      have dropped := withMemory_undelivered_zero
        (m := (detach k.memory target).clearContext target) (fun u d owned => by
          have kept := (clearContext_owner owned).2
          rwa [detach_context] at kept) quiet
      rw [setPc_undelivered, signal_undelivered, dropped]
      simp [stale]

theorem exits_token {c cp : ContextId} (coherent : k.Coherent) (holder : k.Holder h)
    (closed : k.started = false → h = none)
    (here : (∃ ret, k.pc c = .running (.guest ret)) ∨ k.pc c = .unwinding)
    (own : (k.thread c).context = some c)
    (owner : ((k.memory.clearContext (k.self c)).thread
      (threadQueuePop (k.memory.clearContext (k.self c)) .running).1).context = some cp) :
    TokenStep k h (((k.withMemory (threadQueuePop (k.memory.clearContext (k.self c))
      .running).2).signal cp).setPc c .finished) := by
  have running : k.executing c = true := by
    rcases here with ⟨ret, here⟩ | here
    · exact executing_of_running here
    · exact absurd own (coherent.unwinding c here)
  have drops : ∀ u d, ((threadQueuePop (k.memory.clearContext (k.self c)) .running).2.thread
      u).context = some d → (k.memory.thread u).context = some d := by
    intro u d owned
    rw [threadQueuePop_context] at owned
    exact (clearContext_owner owned).2
  refine .moves (holder.started closed running) rfl (holder.hands running drops ?_ rfl)
  have owns := (coherent.owner _ _ (clearContext_owner owner).2).2
  rw [Kernel.current, Kernel.thread, withMemory_memory, withMemory_self, owns,
    threadQueuePop_context]
  exact owner

/-- The one way to lose the token: a running host thread returns from a context its
OSThread has dropped. -/
theorem fades_token {c : ContextId} (holder : k.Holder h) (closed : k.started = false → h = none)
    (here : (∃ ret, k.pc c = .running (.guest ret)) ∨ k.pc c = .unwinding)
    (stale : (k.thread c).context ≠ some c) : TokenStep k h (k.setPc c .finished) := by
  rcases here with ⟨ret, here⟩ | here
  · have running := executing_of_running here
    exact ⟨none, holder.drops running rfl, fun _ => rfl, fun _ _ => .inr ⟨c, running, stale⟩⟩
  · refine .stays (holder.congr ?_ ?_) closed rfl
    · intro d
      rw [setPc_executing_same]
      rw [Kernel.executing, here]
      rfl
    · intro d
      exact setPc_undelivered _

theorem holder_step (coherent : k.Coherent) (holder : k.Holder h)
    (closed : k.started = false → h = none) (outcome : Outcome k l k') : TokenStep k h k' := by
  cases outcome with
  | aborts halt => exact .stays holder closed rfl
  | outsideCreate t pri unstarted =>
      rw [closed unstarted] at holder ⊢
      exact outsideCreate_token coherent holder t.val pri unstarted
  | outsideStart t cp unstarted owner =>
      rw [closed unstarted] at holder ⊢
      exact outsideStart_token coherent holder owner
  | wakes c on after here signalled own => exact wakes_token coherent holder closed signalled own
  | wakesStale c on after here signalled stale =>
      exact wakesStale_token coherent holder closed here stale
  | creates c t pri ret here => exact creates_token coherent holder closed t.val pri here
  | proceeds c after after' m here acts once calm => exact proceeds_token holder closed here acts
  | swaps c w cp after ret m next here acts busy front outranked caller owner =>
      refine handOff_token coherent holder closed here (fun u => ?_)
        ((acts.context next).symm.trans owner)
      exact (swap_context m (k.self c) u).trans (acts.context u)
  | parks c w cp after op m here same stuck parked caller busy owner =>
      subst parked
      rw [threadQueueInsert_context] at owner
      refine handOff_token coherent holder closed here (fun u => ?_) owner
      rw [threadQueuePop_context, threadQueueInsert_context]
  | stops c w cp ret here caller busy owner =>
      exact handOff_token coherent holder closed here
        (fun u => threadQueuePop_context k.memory .running u) owner
  | destroys c t target ret here named other => exact destroys_token coherent holder closed here
  | exits c cp here own m cleared busy owner =>
      subst cleared
      exact exits_token coherent holder closed here own owner
  | fades c here stale => exact fades_token holder closed here stale

end Step

/-! ## Runs -/

section Runs
variable {layout : ThreadLayout}

/-- Coherent contexts, at most one token, none before the first start. -/
structure Kernel.OneToken (k : Kernel) : Prop where
  coherent : k.Coherent
  holder : ∃ h, k.Holder h ∧ (k.started = false → h = none)

theorem boot_oneToken (k : Kernel) (booted : Booted k) : k.OneToken := by
  obtain ⟨rings, rfl⟩ := booted
  refine ⟨⟨?_, fun _ _ => rfl, ?_, ?_⟩, none, holder_none (fun _ => rfl) ?_, fun _ => rfl⟩
  · intro t c owned
    contradiction
  · intro c on after here
    contradiction
  · intro c here
    contradiction
  · intro d
    unfold Kernel.undelivered
    split <;> rfl

theorem Kernel.OneToken.step {k k' : Kernel} {l : Label layout} (one : k.OneToken)
    (outcome : Outcome k l k') : k'.OneToken := by
  obtain ⟨h, holder, closed⟩ := one.holder
  obtain ⟨h', next, closed', _⟩ := holder_step one.coherent holder closed outcome
  exact ⟨one.coherent.step outcome, h', next, closed'⟩

theorem reach_oneToken {ok : Kernel → Label layout → Prop} {k : Kernel}
    (reached : Reach step ok Booted k) : k.OneToken :=
  reached.invariant boot_oneToken fun _ _ _ one _ taken => one.step (step_outcome taken).2

/-- OSThreads are created only where no context is live. -/
def CreatesFresh (k : Kernel) : Label layout → Prop
  | .outsideCreate t _ => (k.memory.thread t.val).context = none
  | .call _ (.osCreateThread t _) => (k.memory.thread t.val).context = none
  | _ => True

instance (k : Kernel) : ∀ l : Label layout, Decidable (CreatesFresh k l)
  | .outsideCreate t _ => inferInstanceAs (Decidable ((k.memory.thread t.val).context = none))
  | .call _ (.osCreateThread t _) =>
      inferInstanceAs (Decidable ((k.memory.thread t.val).context = none))
  | .outsideStart _ | .wake _ | .unwind _ | .deliver _ _ | .drained _ | .retest _ => isTrue trivial
  | .call _ (.osStartThread _) | .call _ .osStopThread | .call _ (.osDestroyThread _)
  | .call _ (.osSetThreadPri _ _) | .call _ (.mesg _ _) | .call _ (.idle _)
  | .call _ (.schedulerTick _ _) | .call _ .exit => isTrue trivial

/-- Host threads run and wait on contexts of their own, and once the game runs
somebody has the token. -/
structure Kernel.Loyal (k : Kernel) : Prop where
  running : ∀ c after, k.pc c = .running after → k.current c
  waiting : ∀ c on after, k.pc c = .waiting on after → on = c
  turn : k.started = true → ∃ c, k.Holder (some c)

def Kernel.OnOwn (k : Kernel) : Prop :=
  (∀ c after, k.pc c = .running after → k.current c) ∧
    ∀ c on after, k.pc c = .waiting on after → on = c

def Kernel.GoesOwn (k : Kernel) (c : ContextId) : Pc → Prop
  | .running _ => k.current c
  | .waiting on _ => on = c
  | _ => True

section Step
variable {k k' : Kernel} {l : Label layout}

theorem Kernel.Loyal.moves (loyal : k.Loyal)
    (current : ∀ d, k'.executing d = true → k.current d → k'.current d)
    (pc : ∀ d, k'.pc d = k.pc d ∨ k.GoesOwn d (k'.pc d)) :
    k'.OnOwn := by
  constructor
  · intro c after here
    refine current c (executing_of_running here) ?_
    rcases pc c with same | goes
    · exact loyal.running c after (same ▸ here)
    · rw [here] at goes
      exact goes
  · intro c on after here
    rcases pc c with same | goes
    · exact loyal.waiting c on after (same ▸ here)
    · rw [here] at goes
      exact goes

/-- Only the host thread of `c` moves, and OSThreads keep their contexts. -/
theorem Kernel.Loyal.moves_one {c : ContextId} {pc : Pc} (loyal : k.Loyal)
    (self : ∀ d, k'.self d = k.self d)
    (contexts : ∀ u, (k'.memory.thread u).context = (k.memory.thread u).context)
    (others : ∀ d, d ≠ c → k'.pc d = k.pc d) (mine : k'.pc c = pc) (goes : k.GoesOwn c pc) :
    k'.OnOwn := by
  refine loyal.moves ?_ ?_
  · intro d _ current
    rw [Kernel.current, Kernel.thread, self, contexts]
    exact current
  · intro d
    by_cases same : d = c
    · subst same
      rw [mine]
      exact .inr goes
    · exact .inl (others d same)

theorem setPc_pc_other {c d : ContextId} (pc : Pc) (other : d ≠ c) : (k.setPc c pc).pc d = k.pc d := by
  rw [setPc_pc, if_neg other]

theorem Kernel.Loyal.caller {c w : ContextId} {after : Cont} (loyal : k.Loyal)
    (here : k.pc c = .running after) (caller : (k.thread c).context = some w) : w = c := by
  have own : (k.thread c).context = some c := loyal.running c after here
  rw [own] at caller
  exact (Option.some.inj caller).symm

theorem create_current {t : Ptr} {pri : OSPri} {d : ContextId}
    (vacant : (k.memory.thread t).context = none) (below : d < k.contexts) (current : k.current d) :
    (osCreateThread k t pri).current d := by
  rw [Kernel.current, Kernel.thread, create_self, if_neg (Nat.ne_of_lt below),
    create_thread_context]
  split
  · rename_i same
    rw [Kernel.current, Kernel.thread, same, vacant] at current
    contradiction
  · exact current

theorem Kernel.OneToken.only {c d : ContextId} {after : Cont} (one : k.OneToken)
    (here : k.pc c = .running after) (running : k.executing d = true) : d = c := by
  obtain ⟨h, holder, _⟩ := one.holder
  have only := (holder.of_executing (executing_of_running here)).2.2 d
  rw [running] at only
  simpa using only.symm

/-- While running contexts are current, no step loses the token. -/
theorem Kernel.Loyal.keeps_turn (one : k.OneToken) (loyal : k.Loyal) (outcome : Outcome k l k')
    (started : k'.started = true) : ∃ c, k'.Holder (some c) := by
  obtain ⟨h, holder, closed⟩ := one.holder
  obtain ⟨h', next, _, lost⟩ := holder_step one.coherent holder closed outcome
  cases h' with
  | some c => exact ⟨c, next⟩
  | none =>
      rcases lost rfl started with ⟨rfl, before⟩ | ⟨c, running, stale⟩
      · obtain ⟨c, held⟩ := loyal.turn before
        have := held c
        rw [holder c] at this
        simp at this
      · exfalso
        cases here : k.pc c with
        | running after => exact stale (loyal.running c after here)
        | waiting on after => simp [Kernel.executing, here, Pc.executing] at running
        | unwinding => simp [Kernel.executing, here, Pc.executing] at running
        | finished => simp [Kernel.executing, here, Pc.executing] at running

theorem outsideCreate_onOwn {t : Ptr} (coherent : k.Coherent) (loyal : k.Loyal) (pri : OSPri)
    (vacant : (k.memory.thread t).context = none) : (osCreateThread k t pri).OnOwn := by
  refine loyal.moves ?_ ?_
  · intro d running current
    rw [create_executing coherent] at running
    have live : k.pc d ≠ .finished := by
      intro finished
      simp [Kernel.executing, finished, Pc.executing] at running
    exact create_current vacant (coherent.created live) current
  · intro d
    rw [create_pc]
    split
    · rename_i new
      exact .inr new.symm
    · exact .inl rfl

theorem outsideStart_onOwn (loyal : k.Loyal) (t : Ptr) (cp : ContextId) :
    Kernel.OnOwn
      { (k.withMemory (k.memory.setState t .queued)).signal cp with started := true } := by
  refine loyal.moves ?_ fun d => .inl (signal_pc _ d cp)
  intro d _ current
  exact (signal_current (k := k.withMemory (k.memory.setState t .queued))).mpr
    ((withMemory_current fun u => setState_context ..).mpr current)

theorem wakes_onOwn {c on : ContextId} {after : Cont} (loyal : k.Loyal)
    (here : k.pc c = .waiting on after) (own : (k.thread c).context = some on) :
    (((k.consume on).withMemory (k.memory.setState (k.self c) .running)).setPc c
      (.running after)).OnOwn := by
  have same := loyal.waiting c on after here
  subst same
  refine loyal.moves_one (c := on) (fun d => by simp) (fun u => setState_context ..) ?_
    (setPc_pc_self ..) own
  intro d other
  rw [setPc_pc_other _ other, withMemory_pc, consume_pc]

theorem wakesStale_onOwn {c on : ContextId} (loyal : k.Loyal) :
    ((k.consume on).setPc c .unwinding).OnOwn := by
  refine loyal.moves_one (c := c) (fun d => by simp) (fun u => rfl) ?_ (setPc_pc_self ..) trivial
  intro d other
  rw [setPc_pc_other _ other, consume_pc]

theorem creates_onOwn {c : ContextId} {t : Ptr} {ret : Int} (one : k.OneToken) (loyal : k.Loyal)
    (pri : OSPri) (vacant : (k.memory.thread t).context = none)
    (here : k.pc c = .running (.guest ret)) :
    ((osCreateThread k t pri).setPc c (.running (.guest 0))).OnOwn := by
  have old := one.coherent.created (not_finished here (by simp))
  refine loyal.moves ?_ ?_
  · intro d running current
    rw [setPc_current]
    refine create_current vacant ?_ current
    rw [setPc_executing] at running
    split at running
    · rename_i mine
      rw [mine]
      exact old
    · rw [create_executing one.coherent] at running
      rw [one.only here running]
      exact old
  · intro d
    rw [setPc_pc]
    split
    · rename_i mine
      rw [mine]
      exact .inr (loyal.running c _ here)
    · rw [create_pc]
      split
      · rename_i new
        exact .inr new.symm
      · exact .inl rfl

theorem proceeds_onOwn {c : ContextId} {after after' : Cont} {m : Memory} (loyal : k.Loyal)
    (here : k.pc c = .running after) (acts : Acts k c after l m) :
    ((k.withMemory m).setPc c (.running after')).OnOwn := by
  refine loyal.moves_one (c := c) (fun d => by simp) acts.context ?_ (setPc_pc_self ..)
    (loyal.running c after here)
  intro d other
  rw [setPc_pc_other _ other, withMemory_pc]

theorem handOff_onOwn {c w cp : ContextId} {after after' : Cont} {m : Memory} (loyal : k.Loyal)
    (here : k.pc c = .running after) (caller : (k.thread c).context = some w)
    (frame : ∀ u, (m.thread u).context = (k.memory.thread u).context) :
    (k.handOff m c w cp after').OnOwn := by
  refine loyal.moves_one (c := c) (fun d => by simp) ?_ ?_ (setPc_pc_self ..)
    (loyal.caller here caller)
  · intro u
    rw [handOff_memory, frame]
  · intro d other
    rw [handOff_pc, if_neg other]

theorem destroys_onOwn {c : ContextId} {target : Ptr} {ret : Int} (one : k.OneToken)
    (loyal : k.Loyal) (here : k.pc c = .running (.guest ret)) (other : target ≠ k.self c) :
    ((osDestroyOther k target).setPc c (.running (.guest 0))).OnOwn := by
  have mine := loyal.running c _ here
  rcases osDestroyOther_cases k target with ⟨_, same⟩ | ⟨tc, owner, same⟩ <;> rw [same]
  · refine loyal.moves_one (c := c) (fun d => by simp) (fun u => detach_context ..) ?_
      (setPc_pc_self ..) mine
    intro d apart
    rw [setPc_pc_other _ apart, withMemory_pc]
  · refine loyal.moves ?_ ?_
    · intro d running current
      have here' : d = c := by
        rw [setPc_executing] at running
        split at running
        · assumption
        · exact one.only here (by simpa using running)
      subst here'
      rw [setPc_current, signal_current, Kernel.current, Kernel.thread, withMemory_memory,
        withMemory_self, clearContext_context, if_neg (Ne.symm other), detach_context]
      exact current
    · intro d
      rw [setPc_pc]
      split
      · rename_i same
        rw [same]
        exact .inr mine
      · exact .inl (by simp)

/-- A thread that ends leaves nobody running. -/
theorem exits_onOwn {c cp : ContextId} {m : Memory} (one : k.OneToken) (loyal : k.Loyal)
    (here : (∃ ret, k.pc c = .running (.guest ret)) ∨ k.pc c = .unwinding)
    (own : (k.thread c).context = some c) :
    (((k.withMemory m).signal cp).setPc c .finished).OnOwn := by
  have running : ∃ after, k.pc c = .running after := by
    rcases here with ⟨ret, here⟩ | here
    · exact ⟨_, here⟩
    · exact absurd own (one.coherent.unwinding c here)
  obtain ⟨after, here⟩ := running
  refine loyal.moves ?_ ?_
  · intro d busy _
    rw [setPc_executing] at busy
    split at busy
    · contradiction
    · rename_i other
      exact absurd (one.only here (by simpa using busy)) other
  · intro d
    rw [setPc_pc]
    split
    · exact .inr trivial
    · exact .inl (by simp)

theorem fades_onOwn {c : ContextId} (loyal : k.Loyal) : (k.setPc c .finished).OnOwn := by
  refine loyal.moves_one (c := c) (fun d => by simp) (fun u => rfl) ?_ (setPc_pc_self ..) trivial
  intro d other
  rw [setPc_pc_other _ other]

theorem Kernel.Loyal.step (one : k.OneToken) (loyal : k.Loyal) (fresh : CreatesFresh k l)
    (outcome : Outcome k l k') : k'.Loyal := by
  suffices moved : k'.OnOwn from ⟨moved.1, moved.2, loyal.keeps_turn one outcome⟩
  cases outcome with
  | aborts halt => exact ⟨loyal.running, loyal.waiting⟩
  | outsideCreate t pri closed => exact outsideCreate_onOwn one.coherent loyal pri fresh
  | outsideStart t cp closed owner => exact outsideStart_onOwn loyal t.val cp
  | wakes c on after here signalled own => exact wakes_onOwn loyal here own
  | wakesStale c on after here signalled stale => exact wakesStale_onOwn loyal
  | creates c t pri ret here => exact creates_onOwn one loyal pri fresh here
  | proceeds c after after' m here acts once calm => exact proceeds_onOwn loyal here acts
  | swaps c w cp after ret m next here acts busy front outranked caller owner =>
      rw [acts.context] at caller
      refine handOff_onOwn loyal here caller fun u => ?_
      rw [swap_context, acts.context]
  | parks c w cp after op m here same stuck parked caller busy owner =>
      subst parked
      rw [threadQueueInsert_context] at caller
      refine handOff_onOwn loyal here caller fun u => ?_
      rw [threadQueuePop_context, threadQueueInsert_context]
  | stops c w cp ret here caller busy owner =>
      exact handOff_onOwn loyal here caller fun u => threadQueuePop_context ..
  | destroys c t target ret here named other => exact destroys_onOwn one loyal here other
  | exits c cp here own m cleared busy owner => exact exits_onOwn one loyal here own
  | fades c here stale => exact fades_onOwn loyal

end Step

theorem boot_loyal (k : Kernel) (booted : Booted k) : k.Loyal := by
  obtain ⟨rings, rfl⟩ := booted
  exact ⟨fun _ _ here => by contradiction, fun _ _ _ here => by contradiction,
    fun started => by contradiction⟩

theorem reach_loyal {ok : Kernel → Label layout → Prop} {k : Kernel}
    (fresh : ∀ k l, ok k l → CreatesFresh k l) (reached : Reach step ok Booted k) : k.Loyal :=
  reached.invariant_of (fun _ before => reach_oneToken before) boot_loyal
    fun _ _ _ one loyal side taken => loyal.step one (fresh _ _ side) (step_outcome taken).2

def Kernel.executingThreads (k : Kernel) : Nat :=
  ((Finset.range k.contexts).filter fun c => k.executing c = true).card

def Kernel.undeliveredSignals (k : Kernel) : Nat := ∑ c ∈ Finset.range k.contexts, k.undelivered c

theorem tokens_sum (k : Kernel) :
    k.executingThreads + k.undeliveredSignals = ∑ c ∈ Finset.range k.contexts, k.tokens c := by
  rw [Kernel.executingThreads, Kernel.undeliveredSignals, Finset.card_filter,
    ← Finset.sum_add_distrib]
  rfl

/-- Once the first game thread was started, exactly one CPU token is about. -/
theorem cpu_token_unique {k : Kernel} (reached : Reach (@step layout) CreatesFresh Booted k)
    (started : k.started = true) : k.executingThreads + k.undeliveredSignals = 1 := by
  have coherent := (reach_oneToken reached).coherent
  obtain ⟨c, holder⟩ := (reach_loyal (fun _ _ fresh => fresh) reached).turn started
  have below : c < k.contexts := by
    by_contra above
    have nothing := coherent.fresh c (Nat.not_lt.mp above)
    have mine := holder c
    simp [Kernel.tokens, Kernel.undelivered, Kernel.executing, Kernel.pc, nothing,
      Pc.executing] at mine
  rw [tokens_sum, Finset.sum_congr rfl fun d _ => holder d]
  simp [below]

/-- A thread preempts the one that starts it, blocks, is destroyed while it waits and unwinds. -/
theorem cpu_token_unique_small : ∃ k, Reach (@step threeThreads) CreatesFresh Booted k ∧
    k.executingThreads + k.undeliveredSignals = 1 := by
  obtain ⟨k, ran, started⟩ : ∃ k, run step CreatesFresh (Kernel.boot smallRings)
      [.outsideCreate threadA 5, .outsideStart threadA, .wake 0,
        .call 0 (.osCreateThread threadB 10), .call 0 (.osStartThread threadB), .wake 1,
        .call 1 (.mesg (.recv smallQueue) true), .drained 1, .wake 0,
        .call 0 (.osDestroyThread (some threadB)), .wake 1, .unwind 1] = some k ∧
      k.started = true := ⟨_, rfl, rfl⟩
  have reached : Reach (@step threeThreads) CreatesFresh Booted k :=
    reach_of_run _ ⟨smallRings, rfl⟩ ran
  exact ⟨k, reached, cpu_token_unique reached started⟩

end Runs

end N64ModernRuntime.Ultramodern
