import N64ModernRuntime.Lib.AtomicCell
import N64ModernRuntime.Ultramodern.CosimEvents

/-!
# rsp.cpp: SP_STATUS and the budget of the scheduler tick

The game and its microcodes write to SP_STATUS while the threads of the RSP
report completions, each through one atomic word.  A second word lets the
scheduler tick return early, at most twice after a graphics task.
-/

set_option autoImplicit false

namespace N64ModernRuntime.Librecomp

open AtomicCell Transition

/-! ## Writes to the status -/

/-- `1u << bit` -/
def statusBit (bit : Nat) : BitVec 32 := BitVec.twoPow 32 bit

/-- `apply_pair`, with the numbers of the bits -/
def applyPair (value : BitVec 32) (clearBit setBit readBit : Nat) (status : BitVec 32) :
    BitVec 32 :=
  let clear := value &&& statusBit clearBit != 0
  let set := value &&& statusBit setBit != 0
  if clear = set then status
  else if set then status ||| statusBit readBit
  else status &&& ~~~statusBit readBit

def applySpStatusWrite (status value : BitVec 32) : BitVec 32 :=
  let status := applyPair value 0 1 0 status -- halt
  let status :=
    if value &&& statusBit 2 ≠ 0 then status &&& ~~~statusBit 1 else status -- broke
  let status := applyPair value 5 6 5 status -- single-step
  let status := applyPair value 7 8 6 status -- interrupt-on-break
  (List.range 8).foldl
    (fun status i => applyPair value (9 + i * 2) (10 + i * 2) (7 + i) status) status

/-- What the bits to clear and to set say together. -/
def pairDecides (value : BitVec 32) (clearBit setBit : Nat) : Option Bool :=
  if value.getLsbD clearBit = value.getLsbD setBit then none else some (value.getLsbD setBit)

/-- What a write says about a bit of the status: the halt, broke, single-step and
interrupt bits, and the signals. -/
def writeDecides (value : BitVec 32) (bit : Nat) : Option Bool :=
  if bit = 0 then pairDecides value 0 1
  else if bit = 1 then if value.getLsbD 2 then some false else none
  else if bit = 5 then pairDecides value 5 6
  else if bit = 6 then pairDecides value 7 8
  else if 7 ≤ bit ∧ bit < 15 then pairDecides value (9 + (bit - 7) * 2) (10 + (bit - 7) * 2)
  else none

section Writes
variable {value status : BitVec 32}

theorem getLsbD_statusBit {bit : Nat} (inside : bit < 32) (k : Nat) :
    (statusBit bit).getLsbD k = decide (bit = k) := by
  simp [statusBit, BitVec.getLsbD_twoPow, inside]

theorem and_statusBit (value : BitVec 32) {bit : Nat} (inside : bit < 32) :
    (value &&& statusBit bit != 0) = value.getLsbD bit := by
  have masked : value &&& statusBit bit = if value.getLsbD bit then statusBit bit else 0 :=
    BitVec.and_twoPow value bit
  rw [masked]
  cases value.getLsbD bit with
  | false => rfl
  | true =>
      have nonzero : statusBit bit ≠ 0 := by
        intro zero
        have set := getLsbD_statusBit inside bit
        rw [zero, decide_eq_true rfl] at set
        simp at set
      exact bne_iff_ne.mpr nonzero

theorem getLsbD_orBit {bit : Nat} (inside : bit < 32) (k : Nat) :
    (status ||| statusBit bit).getLsbD k = (status.getLsbD k || decide (bit = k)) := by
  rw [BitVec.getLsbD_or, getLsbD_statusBit inside]

theorem getLsbD_clearBit {bit : Nat} (inside : bit < 32) {k : Nat} (kIn : k < 32) :
    (status &&& ~~~statusBit bit).getLsbD k = (status.getLsbD k && !decide (bit = k)) := by
  rw [BitVec.getLsbD_and, BitVec.getLsbD_not, getLsbD_statusBit inside, decide_eq_true kIn,
    Bool.true_and]

theorem getLsbD_applyPair {clearBit setBit readBit : Nat} (clearIn : clearBit < 32)
    (setIn : setBit < 32) (readIn : readBit < 32) {k : Nat} (kIn : k < 32) :
    (applyPair value clearBit setBit readBit status).getLsbD k =
      if k = readBit then (pairDecides value clearBit setBit).getD (status.getLsbD k)
      else status.getLsbD k := by
  unfold applyPair pairDecides
  rw [and_statusBit value clearIn, and_statusBit value setIn]
  by_cases agree : value.getLsbD clearBit = value.getLsbD setBit
  · rw [if_pos agree, if_pos agree]
    exact (ite_self _).symm
  · rw [if_neg agree, if_neg agree]
    by_cases mine : k = readBit
    · subst mine
      rw [if_pos rfl]
      cases value.getLsbD setBit with
      | false =>
          refine (getLsbD_clearBit readIn kIn).trans ?_
          simp
      | true =>
          refine (getLsbD_orBit readIn k).trans ?_
          simp
    · have other : decide (readBit = k) = false := decide_eq_false fun same => mine same.symm
      rw [if_neg mine]
      cases value.getLsbD setBit with
      | false =>
          refine (getLsbD_clearBit readIn kIn).trans ?_
          rw [other, Bool.not_false, Bool.and_true]
      | true =>
          refine (getLsbD_orBit readIn k).trans ?_
          rw [other, Bool.or_false]

theorem getLsbD_signals {k : Nat} (kIn : k < 32) : ∀ {n : Nat}, n ≤ 8 →
    ((List.range n).foldl
      (fun status i => applyPair value (9 + i * 2) (10 + i * 2) (7 + i) status) status).getLsbD k =
      if 7 ≤ k ∧ k < 7 + n then
        (pairDecides value (9 + (k - 7) * 2) (10 + (k - 7) * 2)).getD (status.getLsbD k)
      else status.getLsbD k := by
  intro n
  induction n with
  | zero =>
      intro _
      rw [if_neg (by omega)]
      rfl
  | succ n ih =>
      intro inside
      have before := ih (by omega)
      rw [List.range_succ, List.foldl_append]
      simp only [List.foldl_cons, List.foldl_nil]
      rw [getLsbD_applyPair (by omega) (by omega) (by omega) kIn, before]
      by_cases here : k = 7 + n
      · subst here
        have place : 7 + n - 7 = n := by omega
        rw [if_pos rfl, if_neg (by omega), if_pos (by omega), place]
      · rw [if_neg here]
        by_cases earlier : 7 ≤ k ∧ k < 7 + n
        · rw [if_pos earlier, if_pos (by omega)]
        · rw [if_neg earlier, if_neg (by omega)]

/-- A write decides the bits that it speaks of and no others. -/
theorem getLsbD_applySpStatusWrite (status value : BitVec 32) {k : Nat} (kIn : k < 32) :
    (applySpStatusWrite status value).getLsbD k =
      (writeDecides value k).getD (status.getLsbD k) := by
  have broke : ∀ status : BitVec 32,
      (if value &&& statusBit 2 ≠ 0 then status &&& ~~~statusBit 1 else status).getLsbD k =
        if k = 1 then (if value.getLsbD 2 then some false else none).getD (status.getLsbD k)
        else status.getLsbD k := by
    intro status
    have tested := and_statusBit value (show 2 < 32 by decide)
    cases cleared : value.getLsbD 2 with
    | true =>
        rw [cleared] at tested
        rw [if_pos (bne_iff_ne.mp tested), getLsbD_clearBit (by decide) kIn]
        by_cases mine : k = 1
        · simp [mine]
        · have other : decide (1 = k) = false := decide_eq_false fun same => mine same.symm
          rw [if_neg mine, other, Bool.not_false, Bool.and_true]
    | false =>
        rw [cleared] at tested
        have kept : ¬ value &&& statusBit 2 ≠ 0 := fun set => by
          rw [bne_iff_ne.mpr set] at tested
          contradiction
        rw [if_neg kept]
        simp
  unfold applySpStatusWrite writeDecides
  simp only [getLsbD_signals kIn (le_refl 8), broke,
    getLsbD_applyPair (show 0 < 32 by decide) (show 1 < 32 by decide) (show 0 < 32 by decide) kIn,
    getLsbD_applyPair (show 5 < 32 by decide) (show 6 < 32 by decide) (show 5 < 32 by decide) kIn,
    getLsbD_applyPair (show 7 < 32 by decide) (show 8 < 32 by decide) (show 6 < 32 by decide) kIn]
  split_ifs <;> first | rfl | omega

end Writes

/-! ## The status word -/

inductive SpStatusOp where
  | writeSpStatus (value : BitVec 32)
  | markSpTaskComplete (taskType : UInt32)
  deriving DecidableEq, Repr

def kSpStatusSignal3 : BitVec 32 := statusBit 10

def SpStatusOp.apply : SpStatusOp → BitVec 32 → BitVec 32
  | .writeSpStatus value, status => applySpStatusWrite status value
  | .markSpTaskComplete taskType, status =>
      if taskType = Ultramodern.mGfxTask then status ||| kSpStatusSignal3 else status

/-- A completion is a `fetch_or`, a write a compare-exchange loop. -/
def spStatusOps : Operations (BitVec 32) SpStatusOp where
  next op status := some (op.apply status)
  single
    | .writeSpStatus _ => false
    | .markSpTaskComplete _ => true

def SpStatusOp.decides : SpStatusOp → Nat → Option Bool
  | .writeSpStatus value, bit => writeDecides value bit
  | .markSpTaskComplete taskType, bit =>
      if taskType = Ultramodern.mGfxTask ∧ bit = 10 then some true else none

def lastDecided (log : List (Entry SpStatusOp)) (bit : Nat) : Option Bool :=
  log.reverse.findSome? fun entry => entry.op.decides bit

section Status
variable {c : Cell (BitVec 32) SpStatusOp}

theorem getLsbD_apply (op : SpStatusOp) (status : BitVec 32) {bit : Nat} (inside : bit < 32) :
    (op.apply status).getLsbD bit = (op.decides bit).getD (status.getLsbD bit) := by
  cases op with
  | writeSpStatus value => exact getLsbD_applySpStatusWrite status value inside
  | markSpTaskComplete taskType =>
      simp only [SpStatusOp.apply, SpStatusOp.decides]
      by_cases graphics : taskType = Ultramodern.mGfxTask
      · rw [if_pos graphics]
        refine (getLsbD_orBit (by decide) bit).trans ?_
        by_cases mine : bit = 10
        · simp [graphics, mine]
        · have other : decide (10 = bit) = false := decide_eq_false fun same => mine same.symm
          rw [if_neg (fun both => mine both.2), other, Bool.or_false]
          rfl
      · rw [if_neg graphics, if_neg (fun both => graphics both.1)]
        rfl

theorem lastDecided_append (log : List (Entry SpStatusOp)) (entry : Entry SpStatusOp) (bit : Nat) :
    lastDecided (log ++ [entry]) bit = (entry.op.decides bit).or (lastDecided log bit) := by
  unfold lastDecided
  rw [List.reverse_append, List.reverse_singleton, List.singleton_append, List.findSome?_cons]
  cases entry.op.decides bit with
  | none => rfl
  | some b => rfl

/-- Whatever the threads do at once, every bit of the status is what the last
operation says that speaks of it; no write and no completion is lost, and each
thread's take effect in its order. -/
theorem sp_status_bits
    (reached : Reach (step spStatusOps) Always (fun c => c = start 0) c) :
    (∀ bit < 32, c.value.getLsbD bit = (lastDecided c.log bit).getD false) ∧
      (∀ entry ∈ c.log, entry.done = true) ∧ ∀ thread, c.ofThread thread = c.callsOf thread := by
  obtain ⟨replayed, ordered⟩ := linearizable reached
  have bits : (∀ bit < 32, c.value.getLsbD bit = (lastDecided c.log bit).getD false) ∧
      ∀ entry ∈ c.log, entry.done = true := by
    refine replay_invariant (I := fun log status =>
      (∀ bit < 32, status.getLsbD bit = (lastDecided log bit).getD false) ∧
        ∀ entry ∈ log, entry.done = true) ?_ ?_ replayed
    · refine ⟨fun bit _ => ?_, fun entry member => ?_⟩
      · exact BitVec.getLsbD_zero
      · contradiction
    · intro log entry status ⟨said, done⟩
      refine ⟨fun gives => ?_, fun next takes isDone => ⟨fun bit inside => ?_, ?_⟩⟩
      · contradiction
      · cases takes
        rw [getLsbD_apply entry.op status inside, said bit inside, lastDecided_append]
        cases entry.op.decides bit with
        | none => rfl
        | some b => rfl
      · intro other member
        rcases List.mem_append.mp member with old | new
        · exact done other old
        · rw [List.mem_singleton.mp new]
          exact isDone
  exact ⟨bits.1, bits.2, ordered⟩

theorem sp_status_bits_race : ∃ c : Cell (BitVec 32) SpStatusOp,
    c.log.map Entry.op = [.markSpTaskComplete 1, .writeSpStatus 0x8000] ∧
      c.value.getLsbD 10 = false := by
  obtain ⟨c, ran, log⟩ : ∃ c, run (step spStatusOps) Always (start 0)
      [.call 0 (.writeSpStatus 0x8000), .call 1 (.markSpTaskComplete 1), .compareExchange 0 false,
        .compareExchange 0 false] = some c ∧
      c.log = [⟨1, .markSpTaskComplete 1, true⟩, ⟨0, .writeSpStatus 0x8000, true⟩] :=
    ⟨_, rfl, rfl⟩
  have reached : Reach (step spStatusOps) Always (fun c => c = start 0) c :=
    reach_of_run _ rfl ran
  refine ⟨c, by rw [log]; rfl, ?_⟩
  rw [(sp_status_bits reached).1 10 (by decide), log]
  rfl

end Status

/-! ## The budget of the scheduler tick -/

inductive PreemptSkipOp where
  | markSpTaskComplete (taskType : UInt32)
  | consumePreemptSkipBudget
  deriving DecidableEq, Repr

/-- `recomp_rsp_consume_preempt_skip_budget` returns 1 where it takes effect. -/
def preemptSkipOps : Operations (BitVec 32) PreemptSkipOp where
  next
    | .markSpTaskComplete taskType, budget =>
        some (if taskType = Ultramodern.mGfxTask then 2 else budget)
    | .consumePreemptSkipBudget, budget => if budget ≠ 0 then some (budget - 1) else none
  single
    | .markSpTaskComplete _ => true
    | .consumePreemptSkipBudget => false

def PreemptSkipOp.refills : PreemptSkipOp → Bool
  | .markSpTaskComplete taskType => decide (taskType = Ultramodern.mGfxTask)
  | .consumePreemptSkipBudget => false

/-- The calls that have returned 1. -/
def skips (log : List (Entry PreemptSkipOp)) : Nat :=
  log.countP fun entry => entry.done && decide (entry.op = .consumePreemptSkipBudget)

section Budget
variable {c : Cell (BitVec 32) PreemptSkipOp}

theorem next_lowers {op : PreemptSkipOp} {budget next : BitVec 32} (quiet : op.refills = false)
    (takes : preemptSkipOps.next op budget = some next) :
    next.toNat + (if op = .consumePreemptSkipBudget then 1 else 0) = budget.toNat := by
  cases op with
  | markSpTaskComplete taskType =>
      have other : taskType ≠ Ultramodern.mGfxTask := of_decide_eq_false quiet
      simp only [preemptSkipOps, if_neg other, Option.some.injEq] at takes
      simp [takes]
  | consumePreemptSkipBudget =>
      simp only [preemptSkipOps] at takes
      split at takes
      · cases takes
        rw [if_pos rfl]
        bv_omega
      · contradiction

/-- While nothing refills it, the budget goes down by one with each skip. -/
theorem skips_spend {log : List (Entry PreemptSkipOp)} {budget left : BitVec 32}
    (quiet : ∀ entry ∈ log, entry.op.refills = false)
    (replayed : replay preemptSkipOps budget log = some left) :
    skips log + left.toNat = budget.toNat := by
  induction log generalizing budget with
  | nil =>
      cases replayed
      exact Nat.zero_add _
  | cons entry rest ih =>
      have mine := quiet entry List.mem_cons_self
      have counted : skips (entry :: rest) = skips rest +
          if entry.done && decide (entry.op = .consumePreemptSkipBudget) then 1 else 0 :=
        List.countP_cons
      rcases replay_cons replayed with ⟨next, done, later⟩ | ⟨middle, next, done, later⟩
      · have spent := ih (fun other member => quiet other (List.mem_cons_of_mem _ member)) later
        rw [counted, done]
        exact spent
      · have spent := ih (fun other member => quiet other (List.mem_cons_of_mem _ member)) later
        rw [counted, done, ← next_lowers mine next, ← spent]
        simp only [Bool.true_and, decide_eq_true_eq]
        omega

theorem budget_le_two {log : List (Entry PreemptSkipOp)} {budget : BitVec 32}
    (replayed : replay preemptSkipOps 0 log = some budget) : budget.toNat ≤ 2 := by
  refine replay_invariant (I := fun _ budget => budget.toNat ≤ 2) (by decide) ?_ replayed
  intro _ entry before small
  refine ⟨fun _ _ => small, fun next takes _ => ?_⟩
  cases op : entry.op with
  | markSpTaskComplete taskType =>
      simp only [preemptSkipOps, op, Option.some.injEq] at takes
      rw [← takes]
      split
      · decide
      · exact small
  | consumePreemptSkipBudget =>
      simp only [preemptSkipOps, op] at takes
      split at takes
      · cases takes
        bv_omega
      · contradiction

/-- However many threads ask at once, at most two ticks skip until the next
graphics task is complete: each takes one off the budget, and a tick is refused
where nothing is left. -/
theorem preempt_skips (reached : Reach (step preemptSkipOps) Always (fun c => c = start 0) c)
    {before after : List (Entry PreemptSkipOp)} (cut : c.log = before ++ after)
    (quiet : ∀ entry ∈ after, entry.op.refills = false) :
    skips after ≤ 2 ∧ ∃ left, replay preemptSkipOps 0 before = some left ∧
      skips after + c.value.toNat = left.toNat ∧
      ∀ entry ∈ after.head?, entry.op = .consumePreemptSkipBudget →
        (entry.done = true ↔ left ≠ 0) := by
  have replayed := (linearizable reached).1
  rw [cut, replay_append] at replayed
  obtain ⟨left, first, second⟩ := Option.bind_eq_some_iff.mp replayed
  have spent := skips_spend quiet second
  have small := budget_le_two first
  refine ⟨by omega, left, first, spent, ?_⟩
  intro entry isHead asks
  cases after with
  | nil => contradiction
  | cons head rest =>
      cases isHead
      rcases replay_cons second with ⟨next, done, _⟩ | ⟨middle, next, done, _⟩
      · rw [done]
        simp only [preemptSkipOps, asks, ite_eq_right_iff] at next
        refine ⟨fun wrong => by contradiction, fun something => ?_⟩
        exact absurd (next something) (by simp)
      · refine ⟨fun _ empty => ?_, fun _ => done⟩
        simp only [preemptSkipOps, asks, empty] at next
        contradiction

theorem preempt_skips_three : ∃ c : Cell (BitVec 32) PreemptSkipOp,
    c.log.length = 4 ∧ skips (c.log.drop 1) ≤ 2 := by
  obtain ⟨c, ran, log⟩ : ∃ c, run (step preemptSkipOps) Always (start 0)
      [.call 0 (.markSpTaskComplete 1), .call 1 .consumePreemptSkipBudget,
        .call 2 .consumePreemptSkipBudget, .compareExchange 1 false, .compareExchange 2 false,
        .compareExchange 2 false, .call 3 .consumePreemptSkipBudget] = some c ∧
      c.log = [⟨0, .markSpTaskComplete 1, true⟩] ++
        [⟨1, .consumePreemptSkipBudget, true⟩, ⟨2, .consumePreemptSkipBudget, true⟩,
          ⟨3, .consumePreemptSkipBudget, false⟩] := ⟨_, rfl, rfl⟩
  have reached : Reach (step preemptSkipOps) Always (fun c => c = start 0) c :=
    reach_of_run _ rfl ran
  refine ⟨c, by rw [log]; rfl, ?_⟩
  have skipped := (preempt_skips reached log (by decide)).1
  rw [log]
  exact skipped

end Budget

end N64ModernRuntime.Librecomp
