import N64ModernRuntime.Ultramodern.CosimDelivery

/-!
# The accounts of the co-simulation VI

The clock, the VI count, the tokens and the next VI cycle are moved by several
calls.  After a reset they stand in a fixed relation: one period for every VI
that has happened, and every token accepted is spent or outstanding.
-/

set_option autoImplicit false

namespace N64ModernRuntime.Ultramodern

open Transition

/-- The variables that the VI token calls keep their accounts in. -/
structure ViBooks where
  totalVis : UInt64
  viTokens : UInt32
  nextViCycle : UInt64
  viAccepted : Nat
  viClock : List UInt64

namespace Cosim

def viBooks (s : Cosim) : ViBooks where
  totalVis := s.totalVis
  viTokens := s.viTokens
  nextViCycle := s.nextViCycle
  viAccepted := s.viAccepted
  viClock := s.viClock

/-- The accounts have not moved, no rebase was asked for, and the clock has not
gone back. -/
structure Later (s t : Cosim) : Prop where
  same : t.viBooks = s.viBooks
  rebase : t.viNeedsRebase = true → s.viNeedsRebase = true
  later : s.getTimeTicks ≤ t.getTimeTicks

structure Paced (s : Cosim) : Prop where
  fresh : s.viNeedsRebase = true → s.totalVis = 0 ∧ s.nextViCycle = counterPerVi
  next : s.nextViCycle.toNat = (s.totalVis.toNat + 1) * 781250
  accepted : s.viAccepted = s.totalVis.toNat + s.viTokens.toNat
  happened : s.viClock.length = s.totalVis.toNat
  onTime : ∀ i cycle, s.viClock[i]? = some cycle → (i + 1) * 781250 ≤ cycle.toNat

theorem getTimeTicks_toNat (s : Cosim) :
    s.getTimeTicks.toNat = max s.timeTicks.toNat (counterPerVi * s.totalVis).toNat := by
  simp only [getTimeTicks, syncTimeFloor]
  generalize counterPerVi * s.totalVis = viFloor
  split
  · rename_i behind
    rw [UInt64.lt_iff_toNat_lt] at behind
    exact (max_eq_right (le_of_lt behind)).symm
  · rename_i ahead
    rw [UInt64.lt_iff_toNat_lt, not_lt] at ahead
    exact (max_eq_left ahead).symm

section Later
variable {s t u : Cosim}

theorem Later.refl (s : Cosim) : Later s s := ⟨rfl, id, UInt64.le_refl _⟩

theorem Later.trans (first : Later s t) (second : Later t u) : Later s u :=
  ⟨second.same.trans first.same, fun asked => first.rebase (second.rebase asked),
    UInt64.le_trans first.later second.later⟩

theorem Later.of_ticks (same : t.viBooks = s.viBooks)
    (rebase : t.viNeedsRebase = true → s.viNeedsRebase = true) (ticks : s.timeTicks ≤ t.timeTicks) :
    Later s t := by
  refine ⟨same, rebase, ?_⟩
  have floor : t.totalVis = s.totalVis := congrArg ViBooks.totalVis same
  rw [UInt64.le_iff_toNat_le] at ticks ⊢
  rw [getTimeTicks_toNat, getTimeTicks_toNat, floor]
  exact max_le_max ticks (le_refl _)

theorem Paced.of_books (paced : Paced s) (same : t.viBooks = s.viBooks)
    (rebase : t.viNeedsRebase = true → s.viNeedsRebase = true) : Paced t := by
  have totalVis : t.totalVis = s.totalVis := congrArg ViBooks.totalVis same
  have viTokens : t.viTokens = s.viTokens := congrArg ViBooks.viTokens same
  have nextViCycle : t.nextViCycle = s.nextViCycle := congrArg ViBooks.nextViCycle same
  have viAccepted : t.viAccepted = s.viAccepted := congrArg ViBooks.viAccepted same
  have viClock : t.viClock = s.viClock := congrArg ViBooks.viClock same
  refine ⟨?_, ?_, ?_, ?_, ?_⟩
  · intro asked
    rw [totalVis, nextViCycle]
    exact paced.fresh (rebase asked)
  · rw [totalVis, nextViCycle]
    exact paced.next
  · rw [totalVis, viTokens, viAccepted]
    exact paced.accepted
  · rw [totalVis, viClock]
    exact paced.happened
  · rw [viClock]
    exact paced.onTime

theorem Paced.later (paced : Paced s) (later : Later s t) : Paced t :=
  paced.of_books later.same later.rebase

end Later

/-! ## Calls that leave the accounts alone -/

section Frame
variable (s : Cosim)

theorem syncTimeFloor_later : Later s s.syncTimeFloor := by
  have ticks : s.timeTicks ≤ s.syncTimeFloor.timeTicks := by
    have clock := getTimeTicks_toNat s
    rw [UInt64.le_iff_toNat_le]
    exact le_of_le_of_eq (le_max_left _ _) clock.symm
  obtain ⟨later, same⟩ := s.syncTimeFloor_clock
  rw [same] at ticks ⊢
  exact Later.of_ticks rfl id ticks

theorem advanceTo_ticks {due : UInt64} (synced : s.Synced) : Later s (s.advanceTo due) := by
  unfold advanceTo
  split
  · rename_i early
    have later : s.timeTicks < s.timeTicks + (due - s.timeTicks) := by
      rw [UInt64.add_comm, UInt64.sub_add_cancel]
      exact early
    have reached : s.advanceTimeTicks (due - s.timeTicks) =
        { s with timeTicks := s.timeTicks + (due - s.timeTicks) } := by
      have moves : due - s.timeTicks ≠ 0 := by
        intro still
        rw [still, UInt64.add_zero] at later
        exact UInt64.lt_irrefl _ later
      rw [advanceTimeTicks, if_neg moves, synced.syncTimeFloor]
    rw [reached]
    exact Later.of_ticks rfl id (UInt64.le_of_lt later)
  · exact Later.refl s

theorem push_later (kind : CosimRcpEventKind) (taskType : UInt32) (gfxSeq : UInt64) (mq : Ptr)
    (msg : OSMesg) (delay : UInt64) : Later s (s.push kind taskType gfxSeq mq msg delay) := by
  refine (syncTimeFloor_later s).trans ?_
  simp only [push]
  exact Later.of_ticks rfl id (UInt64.le_refl _)

theorem scheduleQueueEvent_later (kind : CosimRcpEventKind) (mq : Ptr) (msg : OSMesg)
    (delay : UInt64) : Later s (s.scheduleQueueEvent kind mq msg delay) := by
  unfold scheduleQueueEvent
  split
  · exact Later.refl s
  · exact push_later s _ _ _ _ _ _

theorem gfxRendered_later (gfxSeq : UInt64) : Later s (s.gfxRendered gfxSeq) := by
  unfold gfxRendered
  split
  · exact Later.of_ticks rfl id (UInt64.le_refl _)
  · exact Later.refl s

theorem submitRspTask_later (taskType : UInt32) (gfxSp gfxDp rspSp : UInt64) :
    Later s (s.submitRspTask taskType gfxSp gfxDp rspSp) := by
  simp only [submitRspTask, scheduleRcpEvent]
  split
  · refine Later.trans ?_ ((push_later _ _ _ _ _ _ _).trans (push_later _ _ _ _ _ _ _))
    refine Later.trans ?_ (gfxRendered_later _ _)
    exact Later.of_ticks rfl id (UInt64.le_refl _)
  · exact push_later s _ _ _ _ _ _

theorem deliverDueRcpEvents_later : Later s s.deliverDueRcpEvents.2 := by
  rw [deliverDueRcpEvents_drain]
  refine (syncTimeFloor_later s).trans ?_
  exact Later.of_ticks rfl id (UInt64.le_refl _)

theorem viDueNow_later : Later s s.viDueNow.2 := by
  simp only [viDueNow]
  split
  · exact Later.refl s
  · exact syncTimeFloor_later s

theorem rcpEventDue_later : Later s s.rcpEventDue.2 := by
  simp only [rcpEventDue]
  split
  · exact Later.refl s
  split
  · exact viDueNow_later s
  · exact (viDueNow_later s).trans (syncTimeFloor_later _)

theorem countRetrace_later : Later s s.countRetrace := by
  simp only [countRetrace]
  have counted : Later s { s with remainingRetraces := s.remainingRetraces - 1 } :=
    Later.of_ticks rfl id (UInt64.le_refl _)
  split
  · refine counted.trans (Later.trans (t := if s.context.vi.curr.mq ≠ nullptr then
      ({ s with remainingRetraces := s.remainingRetraces - 1 } : Cosim).scheduleQueueEvent
        .viRetrace s.context.vi.curr.mq s.context.vi.curr.msg 0
      else { s with remainingRetraces := s.remainingRetraces - 1 }) ?_ ?_)
    · split
      · exact scheduleQueueEvent_later _ _ _ _ _
      · exact Later.refl _
    · exact Later.of_ticks rfl id (UInt64.le_refl _)
  · exact counted

theorem audioEvent_later : Later s s.audioEvent := by
  unfold audioEvent
  split
  · exact scheduleQueueEvent_later _ _ _ _ _
  · exact Later.refl s

theorem rebase_later {s : Cosim} (paced : Paced s) : Later s s.rebase := by
  unfold rebase
  split
  · rename_i asked
    obtain ⟨none, first⟩ := paced.fresh asked
    refine Later.of_ticks ?_ (by intro again; contradiction) (UInt64.le_refl _)
    simp only [viBooks, none, first]
  · exact Later.refl s

end Frame

/-! ## One VI -/

theorem rebase_settled (s : Cosim) : s.rebase.viNeedsRebase = false := by
  unfold rebase
  split
  · rfl
  · rename_i settled
    exact Bool.eq_false_iff.mpr settled

theorem takeViToken_cases {s : Cosim} (paced : Paced s) (allow : UInt32) :
    ((s.takeViToken allow).1 = false ∧ Later s (s.takeViToken allow).2) ∨
    ∃ u, Later s u ∧ u.viNeedsRebase = false ∧ u.viTokens ≠ 0 ∧ u.nextViCycle ≤ u.timeTicks ∧
      s.takeViToken allow = (true, u.spendViToken) := by
  have rebased := rebase_later paced
  have settled := rebase_settled s
  simp only [takeViToken]
  split
  · exact Or.inl ⟨rfl, Later.refl s⟩
  generalize s.rebase = r at rebased settled
  split
  · exact Or.inl ⟨rfl, rebased⟩
  rename_i outstanding
  have floor := syncTimeFloor_later r
  have synced := syncTimeFloor_synced r
  have tokens : r.syncTimeFloor.viTokens = r.viTokens := congrArg ViBooks.viTokens floor.same
  generalize r.syncTimeFloor = f at floor synced tokens
  have moved := (advanceTo_ticks f synced).trans
    (syncTimeFloor_later (f.advanceTo f.nextViCycle))
  generalize (f.advanceTo f.nextViCycle).syncTimeFloor = u at moved
  have later : Later s u := (rebased.trans floor).trans moved
  split
  · exact Or.inl ⟨rfl, rebased.trans floor⟩
  split
  · exact Or.inl ⟨rfl, later⟩
  rename_i ready
  refine Or.inr ⟨u, later, ?_, ?_, UInt64.not_lt.mp ready, rfl⟩
  · rw [← Bool.not_eq_true] at settled ⊢
    exact fun asked => settled (floor.rebase (moved.rebase asked))
  · rw [show u.viTokens = r.viTokens from (congrArg ViBooks.viTokens moved.same).trans tokens]
    exact outstanding

theorem flipVi_books_vi (s : Cosim) :
    s.flipVi.viBooks = { s.viBooks with totalVis := s.totalVis + 1 } ∧
      s.flipVi.viNeedsRebase = s.viNeedsRebase ∧ s.flipVi.timeTicks = s.timeTicks := by
  simp only [flipVi]
  split <;> exact ⟨rfl, rfl, rfl⟩

theorem advanceVi_later (s : Cosim) : Later s.flipVi s.advanceVi := by
  refine ((countRetrace_later s.flipVi).trans (audioEvent_later _)).trans ?_
  exact Later.of_ticks rfl id (UInt64.le_refl _)

theorem spend_paced {u : Cosim} (paced : Paced u) (settled : u.viNeedsRebase = false)
    (outstanding : u.viTokens ≠ 0) (ready : u.nextViCycle ≤ u.timeTicks)
    (room : u.nextViCycle.toNat + 781250 < 2 ^ 64) :
    Paced u.spendViToken.flipVi ∧ u.getTimeTicks ≤ u.spendViToken.flipVi.getTimeTicks ∧
      u.spendViToken.flipVi.nextViCycle.toNat = u.nextViCycle.toNat + 781250 := by
  obtain ⟨books, rebase, ticks⟩ := flipVi_books_vi u.spendViToken
  have totalVis : u.spendViToken.flipVi.totalVis = u.totalVis + 1 := congrArg ViBooks.totalVis books
  have tokens : u.spendViToken.flipVi.viTokens = u.viTokens - 1 := congrArg ViBooks.viTokens books
  have nextCycle : u.spendViToken.flipVi.nextViCycle = u.nextViCycle + counterPerVi :=
    congrArg ViBooks.nextViCycle books
  have accepted : u.spendViToken.flipVi.viAccepted = u.viAccepted :=
    congrArg ViBooks.viAccepted books
  have clock : u.spendViToken.flipVi.viClock = u.viClock ++ [u.timeTicks] :=
    congrArg ViBooks.viClock books
  have sameTicks : u.spendViToken.flipVi.timeTicks = u.timeTicks := ticks
  have next := paced.next
  have totalNat : (u.totalVis + 1).toNat = u.totalVis.toNat + 1 := by
    rw [UInt64.toNat_add, show (1 : UInt64).toNat = 1 from rfl, Nat.mod_eq_of_lt]
    omega
  have nextNat : (u.nextViCycle + counterPerVi).toNat = u.nextViCycle.toNat + 781250 := by
    rw [UInt64.toNat_add, show counterPerVi.toNat = 781250 from rfl, Nat.mod_eq_of_lt room]
  have tokenNat : (u.viTokens - 1).toNat + 1 = u.viTokens.toNat := by
    have positive : 1 ≤ u.viTokens.toNat := by
      rw [Nat.one_le_iff_ne_zero]
      exact fun none => outstanding (UInt32.toNat_inj.mp none)
    have one : (1 : UInt32) ≤ u.viTokens := UInt32.le_iff_toNat_le.mpr (by simpa using positive)
    rw [UInt32.toNat_sub_of_le _ _ one]
    exact Nat.sub_add_cancel positive
  have due : (u.totalVis.toNat + 1) * 781250 ≤ u.timeTicks.toNat := by
    rw [← next]
    exact UInt64.le_iff_toNat_le.mp ready
  refine ⟨⟨?_, ?_, ?_, ?_, ?_⟩, ?_, ?_⟩
  · intro asked
    rw [rebase, spendViToken, settled] at asked
    exact absurd asked Bool.false_ne_true
  · rw [totalVis, nextCycle, totalNat, nextNat, next]
    omega
  · rw [totalVis, tokens, accepted, totalNat, paced.accepted]
    omega
  · rw [totalVis, clock, totalNat, List.length_append, paced.happened, List.length_singleton]
  · intro i cycle found
    rw [clock] at found
    rcases Nat.lt_or_ge i u.viClock.length with old | new
    · rw [List.getElem?_append_left old] at found
      exact paced.onTime i cycle found
    · rw [List.getElem?_append_right new, List.getElem?_singleton] at found
      split at found
      · rename_i last
        cases found
        have place : i = u.totalVis.toNat := by
          rw [← paced.happened]
          omega
        rw [place]
        exact due
      · cases found
  · rw [UInt64.le_iff_toNat_le, getTimeTicks_toNat, getTimeTicks_toNat, sameTicks, totalVis,
      UInt64.toNat_mul, UInt64.toNat_mul, totalNat, show counterPerVi.toNat = 781250 from rfl,
      Nat.mod_eq_of_lt (by omega), Nat.mod_eq_of_lt (by omega)]
    omega
  · rw [nextCycle, nextNat]

/-- A step under the accounts: they hold behind it and the clock has not gone
back, with at most `vis` VIs on the way. -/
structure Advances (vis : Nat) (s t : Cosim) : Prop where
  paced : Paced t
  later : s.getTimeTicks ≤ t.getTimeTicks
  next : t.nextViCycle.toNat ≤ s.nextViCycle.toNat + vis * 781250

section Advances
variable {s t u : Cosim} {m n : Nat}

theorem Later.advances (later : Later s t) (paced : Paced s) : Advances 0 s t := by
  refine ⟨paced.later later, later.later, ?_⟩
  rw [show t.nextViCycle = s.nextViCycle from congrArg ViBooks.nextViCycle later.same]
  omega

theorem Advances.trans (first : Advances m s t) (second : Advances n t u) :
    Advances (m + n) s u := by
  refine ⟨second.paced, UInt64.le_trans first.later second.later, ?_⟩
  have step := first.next
  have step' := second.next
  omega

theorem Advances.mono (advances : Advances m s t) (most : m ≤ n) : Advances n s t := by
  refine ⟨advances.paced, advances.later, le_trans advances.next ?_⟩
  exact Nat.add_le_add_left (Nat.mul_le_mul_right _ most) _

theorem advanceDueVi_advances (paced : Paced s) (allow : UInt32)
    (room : s.nextViCycle.toNat + 781250 < 2 ^ 64) : Advances 1 s (s.advanceDueVi allow).2 := by
  have taken := takeViToken_cases paced allow
  simp only [advanceDueVi]
  generalize s.takeViToken allow = result at taken
  rcases taken with ⟨refused, later⟩ | ⟨u, later, settled, outstanding, ready, rfl⟩
  · rw [refused, if_neg Bool.false_ne_true]
    exact (later.advances paced).mono (Nat.zero_le 1)
  · rw [if_pos rfl]
    have cycle : u.nextViCycle = s.nextViCycle := congrArg ViBooks.nextViCycle later.same
    rw [← cycle] at room
    obtain ⟨flipped, clock, next⟩ :=
      spend_paced (paced.later later) settled outstanding ready room
    have happens : Advances 1 u u.spendViToken.flipVi := ⟨flipped, clock, by omega⟩
    have delivered := (advanceVi_later u.spendViToken).trans (deliverDueRcpEvents_later _)
    exact ((later.advances paced).trans happens).trans (delivered.advances flipped)

theorem advanceToNextRcpEvent_advances (paced : Paced s)
    (room : s.nextViCycle.toNat + 2 * 781250 < 2 ^ 64) : Advances 2 s s.advanceToNextRcpEvent.2 := by
  have first := advanceDueVi_advances paced 0 (by omega)
  have head := first.trans ((deliverDueRcpEvents_later _).advances first.paced)
  simp only [advanceToNextRcpEvent]
  generalize (s.advanceDueVi 0).2.deliverDueRcpEvents = rcp at head
  split
  · exact head.mono (by omega)
  split
  · exact head.mono (by omega)
  have moved : ∀ due, Advances 0 rcp.2 (rcp.2.syncTimeFloor.advanceTo due) := fun due =>
    ((syncTimeFloor_later _).trans (advanceTo_ticks _ (syncTimeFloor_synced _))).advances head.paced
  split
  · rename_i viFirst
    have step := head.trans (moved (rcp.2.nextViDue.getD 0))
    have more := advanceDueVi_advances step.paced 0 (by have := step.next; omega)
    exact (step.trans more).mono (by omega)
  · have step := head.trans (moved (rcp.2.nextRcpDue.getD 0))
    exact (step.trans ((deliverDueRcpEvents_later _).advances step.paced)).mono (by omega)

theorem acceptViTokens_paced (paced : Paced s) {accepted : UInt32}
    (room : s.viTokens.toNat + accepted.toNat < 2 ^ 32) :
    Advances 0 s (s.acceptViTokens accepted) := by
  have tokens : (s.viTokens + accepted).toNat = s.viTokens.toNat + accepted.toNat := by
    rw [UInt32.toNat_add, Nat.mod_eq_of_lt room]
  have books := paced.accepted
  refine ⟨⟨paced.fresh, paced.next, ?_, paced.happened, paced.onTime⟩, ?_, Nat.le_refl _⟩
  · simp only [acceptViTokens, tokens]
    omega
  · rw [UInt64.le_iff_toNat_le, getTimeTicks_toNat, getTimeTicks_toNat, acceptViTokens]

theorem requestVi_advances (paced : Paced s) (count : UInt32) :
    Advances 0 s (s.requestVi count).2 := by
  simp only [requestVi]
  split
  · exact (Later.refl s).advances paced
  have rebased := (rebase_later paced).advances paced
  generalize s.rebase = r at rebased
  have left : (0xFFFFFFFF - r.viTokens).toNat = 0xFFFFFFFF - r.viTokens.toNat := by
    rw [UInt32.toNat_sub_of_le]
    · rfl
    · exact UInt32.le_iff_toNat_le.mpr (Nat.le_of_lt_succ r.viTokens.toNat_lt)
  have bound := r.viTokens.toNat_lt
  refine rebased.trans (acceptViTokens_paced rebased.paced ?_)
  split
  · omega
  · rename_i fits
    rw [UInt32.lt_iff_toNat_lt, left] at fits
    omega

end Advances

end Cosim

/-- No reset, and the next VI cycle does not wrap. -/
def InRange (s : Cosim) : CosimOp → Prop
  | .resetTime | .resetViCounter => False
  | .advanceDueVi _ => s.nextViCycle.toNat + 781250 < 2 ^ 64
  | .advanceToNextRcpEvent => s.nextViCycle.toNat + 2 * 781250 < 2 ^ 64
  | _ => True

instance (s : Cosim) (op : CosimOp) : Decidable (InRange s op) := by
  cases op <;> dsimp only [InRange] <;> infer_instance

/-- A call that adds to the clock does not take it past its 64 bits. -/
def ClockFits (s : Cosim) : CosimOp → Prop
  | .advanceTimeTicks ticks | .advanceCpuCycles _ ticks =>
      s.getTimeTicks.toNat + ticks.toNat < 2 ^ 64
  | _ => True

namespace Cosim

theorem advanceTimeTicks_paced {s : Cosim} (paced : Paced s) (ticks : UInt64) :
    Paced (s.advanceTimeTicks ticks) := by
  obtain ⟨later, same⟩ := s.advanceTimeTicks_clock ticks
  rw [same]
  exact paced.of_books rfl id

theorem advanceTimeTicks_later (s : Cosim) {ticks : UInt64}
    (fits : s.getTimeTicks.toNat + ticks.toNat < 2 ^ 64) : Later s (s.advanceTimeTicks ticks) := by
  rw [getTimeTicks] at fits
  simp only [advanceTimeTicks]
  split
  · exact Later.refl s
  · refine (syncTimeFloor_later s).trans (Later.of_ticks rfl id ?_)
    rw [UInt64.le_iff_toNat_le, UInt64.toNat_add, Nat.mod_eq_of_lt fits]
    exact Nat.le_add_right _ _

theorem countCpu_later (s : Cosim) (retired cycles : UInt64) : ∃ counted, Later s counted ∧
    counted.getTimeTicks = s.getTimeTicks ∧
    s.advanceCpuCycles retired cycles = counted.advanceTimeTicks cycles := by
  refine ⟨_, ?_, ?_, rfl⟩
  · split <;> split <;> exact Later.of_ticks rfl id (UInt64.le_refl _)
  · rw [← UInt64.toNat_inj, getTimeTicks_toNat, getTimeTicks_toNat]
    split <;> split <;> rfl

theorem Paced.perform {s : Cosim} (paced : Paced s) {op : CosimOp} (inRange : InRange s op) :
    Paced (s.perform op) ∧ (ClockFits s op → s.getTimeTicks ≤ (s.perform op).getTimeTicks) := by
  have keeps : ∀ {t : Cosim}, Later s t →
      Paced t ∧ (ClockFits s op → s.getTimeTicks ≤ t.getTimeTicks) :=
    fun later => ⟨paced.later later, fun _ => later.later⟩
  have moves : ∀ {vis : Nat} {t : Cosim}, Advances vis s t →
      Paced t ∧ (ClockFits s op → s.getTimeTicks ≤ t.getTimeTicks) :=
    fun advances => ⟨advances.paced, fun _ => advances.later⟩
  cases op with
  | resetTime => exact absurd inRange id
  | resetViCounter => exact absurd inRange id
  | advanceTimeTicks ticks =>
      exact ⟨advanceTimeTicks_paced paced ticks, fun fits => (advanceTimeTicks_later s fits).later⟩
  | advanceCpuCycles retired cycles =>
      obtain ⟨counted, later, same, step⟩ := countCpu_later s retired cycles
      simp only [Cosim.perform, step]
      refine ⟨advanceTimeTicks_paced (paced.later later) cycles, fun fits => ?_⟩
      rw [ClockFits, ← same] at fits
      exact UInt64.le_trans later.later (advanceTimeTicks_later counted fits).later
  | scheduleRcpEvent kind taskType delay gfxSeq => exact keeps (push_later s _ _ _ _ _ _)
  | scheduleQueueEvent kind mq msg delay => exact keeps (scheduleQueueEvent_later s _ _ _ _)
  | submitRspTask taskType gfxSp gfxDp rspSp => exact keeps (submitRspTask_later s _ _ _ _)
  | gfxRendered gfxSeq => exact keeps (gfxRendered_later s _)
  | deliverDueRcpEvents => exact keeps (deliverDueRcpEvents_later s)
  | rcpEventDue => exact keeps (rcpEventDue_later s)
  | requestVi count => exact moves (requestVi_advances paced count)
  | advanceDueVi allow => exact moves (advanceDueVi_advances paced allow inRange)
  | advanceToNextRcpEvent => exact moves (advanceToNextRcpEvent_advances paced inRange)
  | osViSetEvent mq msg count => exact keeps (Later.of_ticks rfl id (UInt64.le_refl _))
  | osSetEventMesg event mq msg => exact keeps (Later.of_ticks rfl id (UInt64.le_refl _))
  | startGame => exact keeps (Later.of_ticks rfl id (UInt64.le_refl _))

structure ViAccounted (s : Cosim) : Prop where
  next : s.nextViCycle.toNat = (s.totalVis.toNat + 1) * 781250
  tokens : s.totalVis.toNat + s.viTokens.toNat = s.viAccepted
  floor : s.totalVis.toNat * 781250 ≤ s.getTimeTicks.toNat
  happened : s.viClock.length = s.totalVis.toNat
  onTime : ∀ i cycle, s.viClock[i]? = some cycle → (i + 1) * 781250 ≤ cycle.toNat

theorem Paced.accounted {s : Cosim} (paced : Paced s) : s.ViAccounted := by
  refine ⟨paced.next, paced.accepted.symm, ?_, paced.happened, paced.onTime⟩
  have next := paced.next
  have bound := s.nextViCycle.toNat_lt
  rw [getTimeTicks_toNat, UInt64.toNat_mul, show counterPerVi.toNat = 781250 from rfl,
    Nat.mod_eq_of_lt (by omega)]
  omega

end Cosim

def ViReset (s : Cosim) : Prop := ∃ before : Cosim, s = before.resetViCounter.resetTime

theorem reach_paced {s : Cosim} (reached : Reach cosimStep InRange ViReset s) : Cosim.Paced s := by
  refine reached.invariant (I := Cosim.Paced) (fun s first => ?_) fun s op t paced inRange taken => ?_
  · obtain ⟨before, rfl⟩ := first
    exact
      { fresh := fun _ => ⟨rfl, rfl⟩
        next := by
          simp only [Cosim.resetTime, Cosim.resetViCounter]
          decide
        accepted := rfl
        happened := rfl
        onTime := by
          intro i cycle found
          cases found }
  · cases taken
    exact (paced.perform inRange).1

/-- In every state since the resets; a step takes the clock back only by
wrapping it. -/
theorem cosim_vi_accounted {s : Cosim} (reached : Reach cosimStep InRange ViReset s) :
    s.ViAccounted ∧ ∀ op t, InRange s op → ClockFits s op → cosimStep s op = some t →
      s.getTimeTicks ≤ t.getTimeTicks := by
  have paced := reach_paced reached
  refine ⟨paced.accounted, fun op t inRange fits taken => ?_⟩
  cases taken
  exact (paced.perform inRange).2 fits

/-- Three tokens, the time of two VIs, and one of them taken. -/
def oneViTaken : Cosim :=
  ((({ Cosim.boot with gameStarted := true } : Cosim).resetViCounter.resetTime.perform
    (.requestVi 3)).perform (.advanceTimeTicks 1562500)).perform (.advanceDueVi 0)

theorem cosim_vi_accounted_run : oneViTaken.totalVis = 1 ∧ oneViTaken.viTokens = 2 ∧
    oneViTaken.ViAccounted ∧ ∀ op t, InRange oneViTaken op → ClockFits oneViTaken op →
      cosimStep oneViTaken op = some t → oneViTaken.getTimeTicks ≤ t.getTimeTicks := by
  have reached : Reach cosimStep InRange ViReset oneViTaken :=
    .next (.advanceDueVi 0)
      (.next (.advanceTimeTicks 1562500)
        (.next (.requestVi 3) (.start ⟨{ Cosim.boot with gameStarted := true }, rfl⟩) trivial rfl)
        trivial rfl)
      (by decide +kernel) rfl
  exact ⟨by decide +kernel, by decide +kernel, cosim_vi_accounted reached⟩

def lastTick : Cosim := Cosim.boot.resetViCounter.resetTime.advanceTimeTicks 0xFFFFFFFFFFFFFFFF

theorem clock_wraps : ¬ ∀ s op t, Reach cosimStep
    (fun _ op => op ≠ CosimOp.resetTime ∧ op ≠ CosimOp.resetViCounter) ViReset s →
      op ≠ CosimOp.resetTime → op ≠ CosimOp.resetViCounter → cosimStep s op = some t →
      s.getTimeTicks ≤ t.getTimeTicks := by
  intro never
  have reached : Reach cosimStep
      (fun _ op => op ≠ CosimOp.resetTime ∧ op ≠ CosimOp.resetViCounter) ViReset lastTick :=
    .next (.advanceTimeTicks 0xFFFFFFFFFFFFFFFF) (.start ⟨Cosim.boot, rfl⟩) (by decide) rfl
  have later := never lastTick (.advanceTimeTicks 1) _ reached (by decide) (by decide) rfl
  exact absurd later (by decide)

end N64ModernRuntime.Ultramodern
