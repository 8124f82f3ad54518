import N64ModernRuntime.Librecomp.SpStatus

/-!
# rsp.cpp: the mirror of SP_STATUS

The game does not see the atomic word but a word of guest memory.  After each
operation `publish_sp_status` loads the status and stores it there, and
between the two other threads may operate and publish.
-/

set_option autoImplicit false

namespace N64ModernRuntime.Librecomp

open AtomicCell Transition

/-- Where a thread is in `publish_sp_status`. -/
inductive Publishing where
  | done
  | loads
  | stores (value : BitVec 32)
  deriving DecidableEq, Repr

/-- `publisher` is the thread that has stored last. -/
structure MirroredStatus where
  status : Cell (BitVec 32) SpStatusOp
  mirror : BitVec 32
  publishing : Nat → Publishing
  publisher : Option Nat

inductive MirrorLabel where
  | access (l : Access SpStatusOp)
  | load (thread : Nat)
  | store (thread : Nat)

def accessor : Access SpStatusOp → Nat
  | .call thread _ => thread
  | .compareExchange thread _ => thread

namespace MirroredStatus

def operated (s : MirroredStatus) (thread : Nat) (c : Cell (BitVec 32) SpStatusOp) :
    MirroredStatus :=
  match c.loops thread with
  | none => { s with status := c, publishing := Function.update s.publishing thread .loads }
  | some _ => { s with status := c }

def step (s : MirroredStatus) : MirrorLabel → Option MirroredStatus
  | .access l =>
      if s.publishing (accessor l) = .done then
        (AtomicCell.step spStatusOps s.status l).map (s.operated (accessor l))
      else none
  | .load thread =>
      match s.publishing thread with
      | .loads =>
          some { s with
            publishing := Function.update s.publishing thread (.stores s.status.value) }
      | .done | .stores _ => none
  | .store thread =>
      match s.publishing thread with
      | .stores value =>
          some { s with
            mirror := value
            publishing := Function.update s.publishing thread .done
            publisher := some thread }
      | .done | .loads => none

def boot : MirroredStatus := ⟨start 0, 0, fun _ => .done, none⟩

/-- The value is that of the status at a moment after every operation of the thread. -/
def Shows (s : MirroredStatus) (value : BitVec 32) (thread : Nat) : Prop :=
  ∃ before after, s.status.log = before ++ after ∧ replay spStatusOps 0 before = some value ∧
    ∀ entry ∈ after, entry.thread ≠ thread

def Held (s : MirroredStatus) (value : BitVec 32) : Prop :=
  ∃ before after, s.status.log = before ++ after ∧ replay spStatusOps 0 before = some value

/-- What is about to be stored, and what has been, is not older than the
operations of the thread that publishes it. -/
structure Published (s : MirroredStatus) : Prop where
  replayed : replay spStatusOps 0 s.status.log = some s.status.value
  held : s.Held s.mirror
  stores : ∀ thread value, s.publishing thread = .stores value → s.Shows value thread
  stored : ∀ thread, s.publisher = some thread → s.publishing thread = .done →
    s.Shows s.mirror thread

end MirroredStatus

section Access
variable {c c' : Cell (BitVec 32) SpStatusOp} {l : Access SpStatusOp}

theorem access_log (ran : AtomicCell.step spStatusOps c l = some c') :
    c'.log = c.log ∨ c'.loops (accessor l) = none ∧
      ∃ entry : Entry SpStatusOp, entry.thread = accessor l ∧ c'.log = c.log ++ [entry] := by
  obtain ⟨thread, op, rfl, -, rfl | ⟨b, -, -, rfl⟩⟩ |
    ⟨thread, fails, op, seen, rfl, -, rfl | ⟨b, -, -, -, rfl⟩⟩ := step_cases ran
  · exact sees_log (c.called thread op) thread op
  · exact .inr (commits_log (c.called thread op) thread op b)
  · exact sees_log c thread op
  · exact .inr (commits_log c thread op b)

end Access

namespace MirroredStatus

section Operated
variable (s : MirroredStatus) (thread : Nat) (c : Cell (BitVec 32) SpStatusOp)

@[simp]
theorem operated_status : (s.operated thread c).status = c := by
  unfold operated
  cases c.loops thread with
  | none => rfl
  | some looping => rfl

@[simp]
theorem operated_mirror : (s.operated thread c).mirror = s.mirror := by
  unfold operated
  cases c.loops thread with
  | none => rfl
  | some looping => rfl

@[simp]
theorem operated_publisher : (s.operated thread c).publisher = s.publisher := by
  unfold operated
  cases c.loops thread with
  | none => rfl
  | some looping => rfl

variable {thread}

theorem operated_publishing {other : Nat} (foreign : other ≠ thread) :
    (s.operated thread c).publishing other = s.publishing other := by
  unfold operated
  cases c.loops thread with
  | none => exact Function.update_of_ne foreign _ _
  | some looping => rfl

end Operated

section Runs
variable {s t : MirroredStatus}

theorem Shows.grow {value : BitVec 32} {thread : Nat} (shows : s.Shows value thread)
    (log : t.status.log = s.status.log ∨ ∃ entry : Entry SpStatusOp, entry.thread ≠ thread ∧
      t.status.log = s.status.log ++ [entry]) : t.Shows value thread := by
  obtain ⟨before, after, cut, replayed, others⟩ := shows
  rcases log with same | ⟨entry, foreign, grown⟩
  · exact ⟨before, after, same.trans cut, replayed, others⟩
  · refine ⟨before, after ++ [entry], ?_, replayed, fun other member => ?_⟩
    · rw [grown, cut, List.append_assoc]
    · rcases List.mem_append.mp member with old | new
      · exact others other old
      · rw [List.mem_singleton.mp new]
        exact foreign

theorem Held.grow {value : BitVec 32} (held : s.Held value)
    (log : t.status.log = s.status.log ∨ ∃ entry, t.status.log = s.status.log ++ [entry]) :
    t.Held value := by
  obtain ⟨before, after, cut, replayed⟩ := held
  rcases log with same | ⟨entry, grown⟩
  · exact ⟨before, after, same.trans cut, replayed⟩
  · exact ⟨before, after ++ [entry], by rw [grown, cut, List.append_assoc], replayed⟩

theorem Published.operated (published : s.Published) {l : Access SpStatusOp}
    (idle : s.publishing (accessor l) = .done) {c : Cell (BitVec 32) SpStatusOp}
    (ran : AtomicCell.step spStatusOps s.status l = some c) :
    (s.operated (accessor l) c).Published := by
  have log := access_log ran
  have others : ∀ {value thread}, thread ≠ accessor l → s.Shows value thread →
      (s.operated (accessor l) c).Shows value thread := by
    intro value thread other shows
    refine shows.grow ?_
    rw [operated_status]
    rcases log with same | ⟨_, entry, mine, grown⟩
    · exact .inl same
    · exact .inr ⟨entry, fun foreign => other (foreign.symm.trans mine), grown⟩
  refine ⟨?_, ?_, fun thread value pending => ?_, fun thread last finished => ?_⟩
  · rw [operated_status]
    exact step_replay published.replayed ran
  · rw [operated_mirror]
    refine published.held.grow ?_
    rw [operated_status]
    exact log.imp id fun ⟨_, entry, _, grown⟩ => ⟨entry, grown⟩
  · by_cases mine : thread = accessor l
    · subst mine
      unfold MirroredStatus.operated at pending
      cases looping : c.loops (accessor l) with
      | none => simp [looping] at pending
      | some _ => simp [looping, idle] at pending
    · have pended := (operated_publishing s c mine).symm.trans pending
      exact others mine (published.stores thread value pended)
  · rw [operated_mirror]
    rw [operated_publisher] at last
    by_cases mine : thread = accessor l
    · subst mine
      -- the operation is still in its loop, so its thread has added nothing to the log
      have shows := published.stored _ last idle
      refine shows.grow ?_
      rw [operated_status]
      rcases log with same | ⟨ended, _, _, _⟩
      · exact .inl same
      · simp [MirroredStatus.operated, ended] at finished
    · have before := (operated_publishing s c mine).symm.trans finished
      exact others mine (published.stored thread last before)

theorem Published.step (published : s.Published) {l : MirrorLabel}
    (ran : s.step l = some t) : t.Published := by
  cases l with
  | access l =>
      simp only [MirroredStatus.step] at ran
      split at ran
      · rename_i idle
        obtain ⟨c, accessed, rfl⟩ := Option.map_eq_some_iff.mp ran
        exact published.operated idle accessed
      · contradiction
  | load thread =>
      simp only [MirroredStatus.step] at ran
      split at ran
      · rename_i loading
        cases ran
        refine ⟨published.replayed, published.held, fun other value pending => ?_,
          fun other last finished => ?_⟩
        · by_cases mine : other = thread
          · subst mine
            simp only [Function.update_self, Publishing.stores.injEq] at pending
            exact ⟨s.status.log, [], (List.append_nil _).symm, pending ▸ published.replayed,
              fun _ member => by contradiction⟩
          · simp only [Function.update_of_ne mine] at pending
            exact published.stores other value pending
        · by_cases mine : other = thread
          · subst mine
            simp at finished
          · simp only [Function.update_of_ne mine] at finished
            exact published.stored other last finished
      · contradiction
      · contradiction
  | store thread =>
      simp only [MirroredStatus.step] at ran
      split at ran
      · rename_i value storing
        cases ran
        obtain ⟨before, after, cut, replayed, others⟩ := published.stores thread value storing
        refine ⟨published.replayed, ⟨before, after, cut, replayed⟩, fun other value pending => ?_,
          fun other last _ => ?_⟩
        · by_cases mine : other = thread
          · subst mine
            simp at pending
          · simp only [Function.update_of_ne mine] at pending
            exact published.stores other value pending
        · cases last
          exact ⟨before, after, cut, replayed, others⟩
      · contradiction
      · contradiction

theorem boot_published : boot.Published where
  replayed := rfl
  held := ⟨[], [], rfl, rfl⟩
  stores _ _ pending := by contradiction
  stored _ last _ := by contradiction

theorem Published.current (published : s.Published) {thread : Nat}
    (shows : s.Shows s.mirror thread)
    (last : s.status.log.getLast?.map Entry.thread = some thread) :
    s.mirror = s.status.value := by
  obtain ⟨before, after, cut, replayed, others⟩ := shows
  have whole := published.replayed
  rw [cut] at last whole
  cases after using List.reverseRecOn with
  | nil =>
      rw [List.append_nil, replayed] at whole
      exact Option.some.inj whole
  | append_singleton rest entry =>
      rw [← List.append_assoc, List.getLast?_concat] at last
      have foreign := others entry (List.mem_append.mpr (.inr (List.mem_singleton_self entry)))
      exact absurd (Option.some.inj last) foreign

/-- The mirror always holds what the status was at some moment, after all that the
thread has done that published it; when that thread was also the last one to
operate, it holds the status. -/
theorem mirror_published (reached : Reach step Always (fun s => s = boot) s) :
    s.Held s.mirror ∧ ∀ thread, s.publisher = some thread → s.publishing thread = .done →
      s.Shows s.mirror thread ∧
        (s.status.log.getLast?.map Entry.thread = some thread → s.mirror = s.status.value) := by
  have published : s.Published := by
    refine reached.invariant (I := Published) ?_ ?_
    · intro first isBoot
      rw [isBoot]
      exact boot_published
    · intro before l after kept _ ran
      exact kept.step ran
  refine ⟨published.held, fun thread last finished => ?_⟩
  have shows := published.stored thread last finished
  exact ⟨shows, published.current shows⟩

theorem mirror_published_signal : ∃ s : MirroredStatus,
    s.status.log.length = 2 ∧ s.mirror = s.status.value ∧ s.mirror = 0x400 := by
  obtain ⟨s, ran, log, publisher, finished, mirror⟩ : ∃ s, run step Always boot
      [.access (.call 0 (.writeSpStatus 0x8000)), .access (.compareExchange 0 false),
        .load 0, .access (.call 1 (.markSpTaskComplete 1)), .store 0, .load 1, .store 1] = some s ∧
      s.status.log = [⟨0, .writeSpStatus 0x8000, true⟩, ⟨1, .markSpTaskComplete 1, true⟩] ∧
      s.publisher = some 1 ∧ s.publishing 1 = .done ∧ s.mirror = 0x400 :=
    ⟨_, rfl, rfl, rfl, rfl, rfl⟩
  have reached : Reach step Always (fun s => s = boot) s := reach_of_run _ rfl ran
  exact ⟨s, by rw [log]; rfl,
    ((mirror_published reached).2 1 publisher finished).2 (by rw [log]; rfl), mirror⟩

/-- A thread that is slow to publish hides the completion of a graphics task, also
when nobody is at work any more. -/
theorem mirror_stale : ¬ ∀ s, Reach step Always (fun s => s = boot) s →
    (∀ thread, s.publishing thread = .done ∧ s.status.loops thread = none) →
    s.mirror = s.status.value := by
  intro always
  obtain ⟨s, ran, others, zero, one, mirror, status⟩ : ∃ s, run step Always boot
      [.access (.call 0 (.writeSpStatus 0x8000)), .access (.compareExchange 0 false),
        .load 0, .access (.call 1 (.markSpTaskComplete 1)), .load 1, .store 1, .store 0] = some s ∧
      (∀ thread, s.publishing (thread + 2) = .done ∧ s.status.loops (thread + 2) = none) ∧
      (s.publishing 0 = .done ∧ s.status.loops 0 = none) ∧
      (s.publishing 1 = .done ∧ s.status.loops 1 = none) ∧
      s.mirror = 0 ∧ s.status.value = 0x400 :=
    ⟨_, rfl, fun _ => ⟨rfl, rfl⟩, ⟨rfl, rfl⟩, ⟨rfl, rfl⟩, rfl, rfl⟩
  have same := always s (reach_of_run _ rfl ran) fun thread =>
    match thread with
    | 0 => zero
    | 1 => one
    | thread + 2 => others thread
  rw [mirror, status] at same
  contradiction

end Runs

end MirroredStatus

end N64ModernRuntime.Librecomp
