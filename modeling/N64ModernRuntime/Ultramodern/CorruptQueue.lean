import N64ModernRuntime.Ultramodern.QueueChain

/-!
# Thread queues over arbitrary RDRAM

A game that frees an OSThread while it is linked leaves garbage in a chain, and
nothing keeps two OSThreads that a chain names from overlapping.  Here the
functions of threadqueue.cpp run on the words of RDRAM, and each is given with
the OSThreads it dereferences.
-/

set_option autoImplicit false

namespace N64ModernRuntime.Ultramodern

open IntrusiveList

/-- RDRAM by guest address, in 32-bit words.  `queue_to_ptr` sends the sentinel
`running_queue` to a static of the host; that head is the word at -1, where
RDRAM has none. -/
structure QueueRam where
  word : Ptr → UInt32

def runningQueue : Ptr := 0xFFFFFFFF

def OSThreadState.value : OSThreadState → UInt32
  | .stopped => 0
  | .queued => 1
  | .running => 2
  | .blocked => 3

namespace QueueRam

/-- `next` is the first word of an OSThread, so a link is at the address of the
head word or of the thread that holds it. -/
def store (r : QueueRam) (link : Ptr) (value : UInt32) : QueueRam :=
  ⟨Function.update r.word link value⟩

def priority (r : QueueRam) (t : Ptr) : OSPri := (r.word (t + 4)).toBitVec.toInt

/-- `flags` and `state` share a word. -/
def setState (r : QueueRam) (t : Ptr) (state : OSThreadState) : QueueRam :=
  r.store (t + 16) ((r.word (t + 16) &&& (0xFFFF : UInt32)) ||| (state.value <<< 16))

/-- The insert walk: the threads whose priority it reads and the link it stops at. -/
def insertWalk (r : QueueRam) (priority : OSPri) : Nat → Ptr → List Ptr × Ptr
  | 0, link => ([], link)
  | budget + 1, link =>
      let cur := r.word link
      if cur ≠ nullptr ∧ validThreadPtr cur = true then
        if priority < r.priority cur then
          let behind := r.insertWalk priority budget cur
          (cur :: behind.1, behind.2)
        else ([cur], link)
      else ([], link)

def insertLink (r : QueueRam) (queue added : Ptr) : Ptr :=
  (r.insertWalk (r.priority added) walkGuard queue).2

/-- `thread_queue_insert` up to the trace. -/
def threadQueueInsert (r : QueueRam) (queue added : Ptr) : QueueRam :=
  let link := r.insertLink queue added
  let severed :=
    if r.word link ≠ nullptr ∧ validThreadPtr (r.word link) = false then r.store link nullptr else r
  let linked := (severed.store added (severed.word link)).store (added + 8) queue
  let stated :=
    if queue = runningQueue then linked.setState added .queued
    else if queue ≠ nullptr then linked.setState added .blocked
    else linked
  stated.store link added

/-- The loop that traces the queue after an insertion.  It has no guard of its
own: without an end to the chain it has none either. -/
def insertTrace (r : QueueRam) : Nat → Ptr → Option (List Ptr)
  | 0, _ => none
  | fuel + 1, link =>
      let cur := r.word link
      if cur = nullptr then some [] else (r.insertTrace fuel cur).map (cur :: ·)

end QueueRam

/-- The OSThreads that `sched_log::record` looks at; `self` is `this_thread()`. -/
def recordReads (self thread : Ptr) : List Ptr :=
  (if thread ≠ nullptr then [thread] else []) ++ if self ≠ nullptr then [self] else []

namespace QueueRam

/-- The OSThreads that `thread_queue_insert` dereferences. -/
def threadQueueInsertReads (r : QueueRam) (self queue added : Ptr) (fuel : Nat) :
    Option (List Ptr) :=
  ((r.threadQueueInsert queue added).insertTrace fuel queue).map fun traced =>
    added :: (r.insertWalk (r.priority added) walkGuard queue).1 ++
      recordReads self added ++ traced

/-- The result, RDRAM and the OSThreads that were dereferenced. -/
def threadQueuePop (r : QueueRam) (self queue : Ptr) : Ptr × QueueRam × List Ptr :=
  let popped := r.word queue
  if validThreadPtr popped = false then (nullptr, r.store queue nullptr, [])
  else
    (popped, (r.store queue (r.word popped)).store (popped + 8) nullptr,
      popped :: recordReads self popped)

/-- The scan of `threadQueueRemove`; the first argument is the rest of the guard. -/
def threadQueueScan (r : QueueRam) (t : Ptr) : Nat → Ptr → Bool × QueueRam × List Ptr
  | 0, link =>
      if r.word link = nullptr then (false, r, []) else (false, r.store link nullptr, [])
  | budget + 1, link =>
      let cur := r.word link
      if cur = nullptr then (false, r, [])
      else if validThreadPtr cur = false then (false, r.store link nullptr, [])
      else if cur = t then (true, (r.store link (r.word cur)).store (cur + 8) nullptr, [cur])
      else
        let behind := r.threadQueueScan t budget cur
        (behind.1, behind.2.1, cur :: behind.2.2)

def threadQueueRemove (r : QueueRam) (self queue t : Ptr) : Bool × QueueRam × List Ptr :=
  if queue ≠ runningQueue ∧ validThreadPtr queue = false then (false, r, recordReads self t)
  else
    let scanned := r.threadQueueScan t walkGuard queue
    (scanned.1, scanned.2.1, scanned.2.2 ++ recordReads self t)

end QueueRam

/-! ## The typed model of the same words -/

/-- The objects of Ultra64 at every address of RDRAM at once, with the fields
that a queue walk reads. -/
def QueueRam.objects (r : QueueRam) : Memory where
  thread := fun t => { next := r.word t, priority := r.priority t }
  mesgQueue := fun mq =>
    { validCount := 0, first := 0, msgCount := 0, msg := nullptr, slots := fun _ => 0
      blockedOnRecv := r.word mq, blockedOnSend := r.word (mq + 4) }
  runningQueueImpl := r.word runningQueue

def cellAddr : Cell ThreadQueue Ptr → Ptr
  | .head q => q.addr
  | .next t => t

section Objects
variable (r : QueueRam)

@[simp] theorem objects_load (c : Cell ThreadQueue Ptr) :
    r.objects.heap.load c = r.word (cellAddr c) := by
  cases c with
  | head q => cases q <;> rfl
  | next t => rfl

theorem objects_walk (priority : OSPri) : ∀ (budget : Nat) (c : Cell ThreadQueue Ptr),
    (r.insertWalk priority budget (cellAddr c)).2 =
      cellAddr (r.objects.heap.walk (outranks r.objects priority) budget c) := by
  intro budget
  induction budget with
  | zero => intro c; rfl
  | succ budget ih =>
      intro c
      simp only [QueueRam.insertWalk, Heap.walk, outranks, objects_load, Bool.and_eq_true,
        decide_eq_true_eq]
      split
      · rename_i followed
        split
        · rename_i higher
          rw [if_pos ⟨followed, higher⟩]
          exact ih (.next _)
        · rename_i higher
          rw [if_neg fun passes => higher passes.2]
      · rename_i refused
        rw [if_neg fun passes => refused passes.1]

theorem objects_insertLink (q : ThreadQueue) (t : Ptr) :
    r.insertLink q.addr t = cellAddr (insertLink r.objects q t) :=
  objects_walk r (r.priority t) walkGuard (.head q)

end Objects

/-! ## The words after an insertion -/

namespace QueueRam

def insertRest (r : QueueRam) (queue added : Ptr) : Ptr :=
  let rest := r.word (r.insertLink queue added)
  if validThreadPtr rest then rest else nullptr

/-- What the 16 bits of `state` leave of their word. -/
def stateWord (r : QueueRam) (queue added : Ptr) : UInt32 :=
  (r.word (added + 16) &&& (0xFFFF : UInt32)) |||
    ((if queue = runningQueue then OSThreadState.queued else .blocked).value <<< 16)

section Insert
variable {r : QueueRam} {q t : Ptr}

theorem word_store (r : QueueRam) (link value x : Ptr) :
    (r.store link value).word x = if x = link then value else r.word x :=
  Function.update_apply r.word link value x

theorem add_ne_self {k : UInt32} (some : k ≠ 0) : t + k ≠ t := by
  intro same
  exact some (by simpa using same)

theorem word_threadQueueInsert (place : q ≠ nullptr) (x : Ptr) :
    (r.threadQueueInsert q t).word x =
      if x = r.insertLink q t then t
      else if x = t + 16 then r.stateWord q t
      else if x = t + 8 then q
      else if x = t then r.insertRest q t
      else r.word x := by
  have state : t + 16 ≠ t + 8 := by simp
  have eight : t + 8 ≠ t := add_ne_self (by decide)
  have sixteen : t + 16 ≠ t := add_ne_self (by decide)
  simp only [threadQueueInsert, place, ne_eq, not_false_eq_true, if_true]
  rw [word_store]
  split
  · rfl
  rename_i apart
  generalize link_eq : r.insertLink q t = link at apart ⊢
  have severed : ∀ y, y ≠ link → (if ¬r.word link = nullptr ∧ validThreadPtr (r.word link) = false
      then r.store link nullptr else r).word y = r.word y := by
    intro y other
    split
    · rw [word_store, if_neg other]
    · rfl
  have rest : (if ¬r.word link = nullptr ∧ validThreadPtr (r.word link) = false
      then r.store link nullptr else r).word link = r.insertRest q t := by
    simp only [insertRest, link_eq]
    split
    · rename_i corrupt
      rw [word_store, if_pos rfl, corrupt.2]
      rfl
    · rename_i sound
      cases valid : validThreadPtr (r.word link) with
      | true => rfl
      | false =>
          by_contra other
          exact sound ⟨other, valid⟩
  rw [rest]
  generalize (if ¬r.word link = nullptr ∧ validThreadPtr (r.word link) = false
      then r.store link nullptr else r) = cut at severed
  by_cases running : q = runningQueue
  all_goals
    simp only [running, if_true, if_false, setState, stateWord, word_store, state, sixteen]
    split
    · rename_i here
      subst here
      rw [severed _ apart]
    split
    · rfl
    split
    · rfl
    · exact severed x apart

theorem stateWord_bad (r : QueueRam) (q t : Ptr) :
    validThreadPtr (r.stateWord q t) = false ∧ r.stateWord q t ≠ nullptr := by
  have low : ∀ value : UInt32, value.toNat &&& 65535 < 2 ^ 18 := by
    intro value
    have := Nat.and_le_right (n := value.toNat) (m := 65535)
    omega
  have bounds : 65536 ≤ (r.stateWord q t).toNat ∧ (r.stateWord q t).toNat < 2 ^ 18 := by
    unfold stateWord
    split
    all_goals
      rw [UInt32.toNat_or, UInt32.toNat_and]
      refine ⟨le_trans ?_ Nat.right_le_or, Nat.or_lt_two_pow (low _) ?_⟩
      · decide
      · decide
  constructor
  · have small : ¬ 0x80000000 ≤ r.stateWord q t := by
      rw [UInt32.le_iff_toNat_le]
      have : (0x80000000 : UInt32).toNat = 2147483648 := rfl
      omega
    simp [validThreadPtr, small]
  · intro zero
    rw [zero] at bounds
    have : nullptr.toNat = 0 := rfl
    omega

end Insert

end QueueRam

/-- Away from the two other words of the new thread, and where no two cells
share the address of the link or of the new thread, the words after an
insertion are those of the typed model. -/
theorem objects_threadQueueInsert (r : QueueRam) (q : ThreadQueue) (t : Ptr)
    (place : q.addr ≠ nullptr) (c : Cell ThreadQueue Ptr) (notQueue : cellAddr c ≠ t + 8)
    (notState : cellAddr c ≠ t + 16)
    (link : cellAddr c = r.insertLink q.addr t → c = insertLink r.objects q t)
    (added : cellAddr c = t → c = .next t) :
    (threadQueueInsert r.objects q t).heap.load c =
      (r.threadQueueInsert q.addr t).word (cellAddr c) := by
  have rest : insertRest r.objects q t = r.insertRest q.addr t := by
    rw [insertRest, QueueRam.insertRest, objects_load, objects_insertLink]
  rw [heap_threadQueueInsert, QueueRam.word_threadQueueInsert place, if_neg notState,
    if_neg notQueue]
  by_cases here : c = insertLink r.objects q t
  · rw [← here, Heap.load_store_self, if_pos]
    rw [objects_insertLink, ← here]
  rw [Heap.load_store_other here, if_neg fun same => here (link same)]
  by_cases self : c = .next t
  · rw [self, Heap.load_store_self, rest]
    exact (if_pos rfl).symm
  · rw [Heap.load_store_other self, if_neg fun same => self (added same), objects_load]

/-- An OSThread at 0x80003008 overlaps the new one: its `next` is overwritten by
the queue. -/
example : ((QueueRam.mk fun p => if p = runningQueue then 0x80003008 else 0).threadQueueInsert
    runningQueue 0x80003000).word 0x80003008 = runningQueue := rfl

/-! ## Pop, remove and the insert walk look before every step -/

namespace QueueRam

section Reads
variable {r : QueueRam} {q t self : Ptr}

theorem insertWalk_valid (priority : OSPri) : ∀ (budget : Nat) (link : Ptr),
    ∀ p ∈ (r.insertWalk priority budget link).1, validThreadPtr p = true := by
  intro budget
  induction budget with
  | zero => intro link p member; simp [insertWalk] at member
  | succ budget ih =>
      intro link p member
      simp only [insertWalk] at member
      split at member
      · rename_i followed
        split at member
        · rcases List.mem_cons.mp member with rfl | member
          · exact followed.2
          · exact ih _ p member
        · rw [List.mem_singleton.mp member]
          exact followed.2
      · simp at member

theorem recordReads_valid (self_ok : self = nullptr ∨ validThreadPtr self = true)
    (valid : validThreadPtr t = true) : ∀ p ∈ recordReads self t, validThreadPtr p = true := by
  intro p member
  rcases List.mem_append.mp member with member | member
  · split at member
    · rw [List.mem_singleton.mp member]
      exact valid
    · simp at member
  · split at member
    · rename_i some
      rw [List.mem_singleton.mp member]
      exact self_ok.resolve_left some
    · simp at member

theorem popReads_valid (q : Ptr) (self_ok : self = nullptr ∨ validThreadPtr self = true) :
    ∀ p ∈ (r.threadQueuePop self q).2.2, validThreadPtr p = true := by
  intro p member
  simp only [threadQueuePop] at member
  split at member
  · simp at member
  · rename_i sound
    have valid : validThreadPtr (r.word q) = true := by simpa using sound
    rcases List.mem_cons.mp member with rfl | member
    · exact valid
    · exact recordReads_valid self_ok valid p member

theorem scanReads_valid : ∀ (budget : Nat) (link : Ptr),
    ∀ p ∈ (r.threadQueueScan t budget link).2.2, validThreadPtr p = true := by
  intro budget
  induction budget with
  | zero =>
      intro link p member
      simp only [threadQueueScan] at member
      split at member <;> simp at member
  | succ budget ih =>
      intro link p member
      simp only [threadQueueScan] at member
      split at member
      · simp at member
      split at member
      · simp at member
      rename_i _ sound
      have valid : validThreadPtr (r.word link) = true := by simpa using sound
      split at member
      · rw [List.mem_singleton.mp member]
        exact valid
      · rcases List.mem_cons.mp member with rfl | member
        · exact valid
        · exact ih _ p member

theorem removeReads_valid (q : Ptr) (self_ok : self = nullptr ∨ validThreadPtr self = true)
    (valid : validThreadPtr t = true) :
    ∀ p ∈ (r.threadQueueRemove self q t).2.2, validThreadPtr p = true := by
  have recorded := recordReads_valid self_ok valid
  intro p member
  simp only [threadQueueRemove] at member
  split at member
  · exact recorded p member
  · rcases List.mem_append.mp member with member | member
    · exact scanReads_valid _ _ p member
    · exact recorded p member

/-- The trace ends exactly where the chain does. -/
theorem insertTrace_links : ∀ (fuel : Nat) (link : Ptr) (reads : List Ptr),
    r.insertTrace fuel link = some reads → Links r.word nullptr (r.word link) reads := by
  intro fuel
  induction fuel with
  | zero => intro link reads traced; simp [insertTrace] at traced
  | succ fuel ih =>
      intro link reads traced
      simp only [insertTrace] at traced
      split at traced
      · rename_i ended
        cases Option.some.inj traced
        exact ended
      · rename_i some
        obtain ⟨behind, ran, rfl⟩ := Option.map_eq_some_iff.mp traced
        exact ⟨rfl, some, ih _ behind ran⟩

theorem insertTrace_ends : ∀ (l : List Ptr) (link : Ptr),
    Links r.word nullptr (r.word link) l → r.insertTrace (l.length + 1) link = some l := by
  intro l
  induction l with
  | nil =>
      intro link linked
      have ended : r.word link = nullptr := linked
      simp [insertTrace, ended]
  | cons x rest ih =>
      intro link linked
      obtain ⟨here, some, tail⟩ := linked
      have behind := ih x tail
      rw [List.length_cons, insertTrace]
      simp only [here, some, if_false, behind]
      rfl

end Reads

/-! ## Which chains an insertion leaves with an end -/

/-- From `queue` the insert walk passes the threads of `passed`, and the chain
goes on through `rest` to `e`, which is no thread.  The insertion of `t` leaves
it with an end: the walk reaches a corrupt `e`, and none of the words that the
trace follows is `next`, `queue` or `state` of `t` (a walk that starts at `t`
itself loses what it passed). -/
structure InsertEnds (r : QueueRam) (queue t : Ptr) (passed rest : List Ptr) (e : Ptr) :
    Prop where
  chain : Follows r.word (r.word queue) (passed ++ rest) e
  valid : ∀ x ∈ passed ++ rest, validThreadPtr x = true
  ended : validThreadPtr e = false
  higher : ∀ x ∈ passed, r.priority t < r.priority x
  within : passed.length ≤ walkGuard
  stops : passed.length < walkGuard → ∀ x ∈ rest.head?, r.priority x ≤ r.priority t
  severed : e ≠ nullptr → rest = []
  place : passed = [] → queue ≠ t
  before : queue = t ∨ ∀ x ∈ (queue :: passed).dropLast, x ≠ t + 8 ∧ x ≠ t + 16
  behind : ∀ x ∈ rest, x ≠ t ∧ x ≠ t + 8 ∧ x ≠ t + 16

section Ends
variable {r : QueueRam} {q t : Ptr}

theorem apart_of_valid {x y : Ptr} (good : validThreadPtr x = true)
    (bad : validThreadPtr y = false) : x ≠ y := by
  rintro rfl
  rw [good] at bad
  contradiction

/-- Where an insert walk over arbitrary words has been and where it stops. -/
theorem insertWalk_follows (priority : OSPri) : ∀ (budget : Nat) (link : Ptr), ∃ passed,
    (r.insertWalk priority budget link).2 = (link :: passed).getLast (by simp) ∧
      Follows r.word (r.word link) passed (r.word (r.insertWalk priority budget link).2) ∧
      (∀ x ∈ passed, validThreadPtr x = true ∧ priority < r.priority x) ∧
      passed.length ≤ budget ∧
      (passed.length < budget →
        validThreadPtr (r.word (r.insertWalk priority budget link).2) = true →
          r.priority (r.word (r.insertWalk priority budget link).2) ≤ priority) := by
  intro budget
  induction budget with
  | zero => intro link; exact ⟨[], rfl, rfl, by simp, by simp, by simp⟩
  | succ budget ih =>
      intro link
      rw [insertWalk]
      simp only
      split
      · rename_i followed
        split
        · rename_i higher
          obtain ⟨passed, stops, walked, all, within, refused⟩ := ih (r.word link)
          refine ⟨r.word link :: passed, ?_, ⟨rfl, walked⟩, ?_, ?_, ?_⟩
          · rw [List.getLast_cons_cons]
            exact stops
          · exact List.forall_mem_cons.mpr ⟨⟨followed.2, higher⟩, all⟩
          · simpa using within
          · exact fun shorter => refused (by simpa using shorter)
        · rename_i lower
          exact ⟨[], rfl, rfl, by simp, by simp, fun _ _ => not_lt.mp lower⟩
      · rename_i refused
        refine ⟨[], rfl, rfl, by simp, by simp, fun _ valid => ?_⟩
        exact absurd ⟨ne_nullptr_of_valid valid, valid⟩ refused

theorem insertWalk_reaches (priority : OSPri) {f : Ptr} : ∀ (passed : List Ptr) (budget : Nat)
    (link : Ptr), Follows r.word (r.word link) passed f →
      (∀ x ∈ passed, validThreadPtr x = true ∧ priority < r.priority x) →
      passed.length ≤ budget →
      (passed.length < budget → validThreadPtr f = true → r.priority f ≤ priority) →
        (r.insertWalk priority budget link).2 = (link :: passed).getLast (by simp) := by
  intro passed
  induction passed with
  | nil =>
      intro budget link walked _ _ refused
      obtain rfl : r.word link = f := walked
      cases budget with
      | zero => rfl
      | succ budget =>
          rw [insertWalk]
          simp only
          split
          · rename_i followed
            rw [if_neg (not_lt.mpr (refused (Nat.succ_pos _) followed.2))]
            rfl
          · rfl
  | cons x passed ih =>
      intro budget link walked all within refused
      obtain ⟨here, behind⟩ := walked
      obtain ⟨⟨valid, higher⟩, all⟩ := List.forall_mem_cons.mp all
      cases budget with
      | zero => simp at within
      | succ budget =>
          rw [insertWalk, here]
          simp only
          rw [if_pos ⟨ne_nullptr_of_valid valid, valid⟩, if_pos higher, List.getLast_cons_cons]
          refine ih budget x behind all (by simpa using within) ?_
          exact fun shorter => refused (by simpa using shorter)

end Ends

end QueueRam

namespace QueueRam

section Degrades
variable {r : QueueRam} {q t : Ptr}

theorem nodes_split (q : Ptr) (passed : List Ptr) :
    (q :: passed).dropLast ++ [(q :: passed).getLast (by simp)] = q :: passed :=
  List.dropLast_append_getLast _

theorem word_added (place : q ≠ nullptr) (apart : t ≠ r.insertLink q t) :
    (r.threadQueueInsert q t).word t = r.insertRest q t := by
  rw [word_threadQueueInsert place, if_neg apart, if_neg (add_ne_self (by decide)).symm,
    if_neg (add_ne_self (by decide)).symm, if_pos rfl]

/-- The words of the link, of the new thread and of the nodes before them that
the insertion keeps lead from the queue to what the new thread is linked to. -/
theorem insert_follows {passed : List Ptr} (place : q ≠ nullptr)
    (link : r.insertLink q t = (q :: passed).getLast (by simp))
    (walked : Follows r.word (r.word q) passed (r.word (r.insertLink q t)))
    (distinct : (q :: passed).Nodup) (out : t ∉ q :: passed)
    (kept : ∀ x ∈ (q :: passed).dropLast, x ≠ t + 8 ∧ x ≠ t + 16) :
    Follows (r.threadQueueInsert q t).word ((r.threadQueueInsert q t).word q)
      (passed ++ [t]) (r.insertRest q t) := by
  have split := nodes_split q passed
  rw [← link] at split
  generalize (q :: passed).dropLast = pre at split kept
  have inside : r.insertLink q t ∈ q :: passed := by
    rw [← split]
    simp
  have other : t ≠ r.insertLink q t := by
    intro same
    exact out (same ▸ inside)
  have first : Follows r.word q pre (r.insertLink q t) := by
    have whole : Follows r.word q (q :: passed) (r.word (r.insertLink q t)) := ⟨rfl, walked⟩
    rw [← split] at whole
    obtain ⟨b, first, here, -⟩ := follows_append.mp whole
    exact here ▸ first
  have after : Follows (r.threadQueueInsert q t).word q (pre ++ [r.insertLink q t] ++ [t])
      (r.insertRest q t) := by
    refine follows_append.mpr ⟨t, follows_append.mpr ⟨_, ?_, rfl, ?_⟩, rfl, ?_⟩
    · refine follows_congr (fun x member => ?_) first
      have notLink : x ≠ r.insertLink q t := by
        rintro rfl
        rw [← split] at distinct
        exact (List.nodup_append.mp distinct).2.2 _ member _ (by simp) rfl
      have notAdded : x ≠ t := by
        rintro rfl
        exact out (split ▸ List.mem_append_left _ member)
      obtain ⟨notQueue, notState⟩ := kept x member
      rw [word_threadQueueInsert place, if_neg notLink, if_neg notState, if_neg notQueue,
        if_neg notAdded]
    · rw [word_threadQueueInsert place, if_pos rfl]
      rfl
    · rw [word_added place other]
      rfl
  rw [split] at after
  exact after.2

namespace InsertEnds
variable {passed rest : List Ptr} {e : Ptr}

/-- The walk stops behind `passed`. -/
theorem insertLink_eq (ends : r.InsertEnds q t passed rest e) :
    r.insertLink q t = (q :: passed).getLast (by simp) := by
  obtain ⟨f, walked, tail⟩ := follows_append.mp ends.chain
  refine insertWalk_reaches _ passed walkGuard q walked
    (fun x member => ⟨ends.valid x (List.mem_append_left _ member), ends.higher x member⟩)
    ends.within ?_
  intro shorter followed
  cases rest with
  | nil =>
      obtain rfl : f = e := tail
      rw [ends.ended] at followed
      contradiction
  | cons x rest =>
      obtain ⟨rfl, -⟩ := tail
      exact ends.stops shorter f (by simp)

/-- The word of the link is where the chain goes on behind `passed`. -/
theorem link_follows (ends : r.InsertEnds q t passed rest e) :
    Follows r.word (r.word q) passed (r.word (r.insertLink q t)) ∧
      Follows r.word (r.word (r.insertLink q t)) rest e := by
  obtain ⟨f, walked, tail⟩ := follows_append.mp ends.chain
  have stopped : r.word (r.insertLink q t) = f := by
    have whole : Follows r.word q (q :: passed) f := ⟨rfl, walked⟩
    rw [← nodes_split q passed, ← ends.insertLink_eq] at whole
    obtain ⟨b, -, here, met⟩ := follows_append.mp whole
    exact here ▸ met
  rw [stopped]
  exact ⟨walked, tail⟩

theorem insertRest_follows (ends : r.InsertEnds q t passed rest e) :
    Follows r.word (r.insertRest q t) rest nullptr := by
  have tail := ends.link_follows.2
  unfold insertRest
  cases rest with
  | nil =>
      have stopped : r.word (r.insertLink q t) = e := tail
      simp [stopped, ends.ended, Follows]
  | cons x rest =>
      obtain rfl : e = nullptr := by
        by_contra some
        exact absurd (ends.severed some) (by simp)
      have followed := ends.valid x (by simp)
      rw [← tail.1] at followed
      rw [if_pos followed]
      exact tail

/-- The chain meets no thread twice, and not the head word. -/
theorem nodup (ends : r.InsertEnds q t passed rest e) : (q :: passed ++ rest).Nodup := by
  have linked : Links r.word e (r.word q) (passed ++ rest) :=
    links_iff_follows.mpr
      ⟨ends.chain, fun member => apart_of_valid (ends.valid e member) ends.ended rfl⟩
  exact List.nodup_cons.mpr ⟨fun member => links_ne_start linked member rfl, links_nodup linked⟩

theorem added_not_passed (ends : r.InsertEnds q t passed rest e) : t ∉ passed :=
  fun member => lt_irrefl _ (ends.higher t member)

theorem added_ne_link (ends : r.InsertEnds q t passed rest e) : t ≠ r.insertLink q t := by
  have link := ends.insertLink_eq
  intro same
  cases passed with
  | nil => exact ends.place rfl (by rw [same]; exact link.symm)
  | cons x passed =>
      rw [List.getLast_cons_cons] at link
      exact ends.added_not_passed (same ▸ link ▸ List.getLast_mem _)

/-- The insertion stores to no thread of `rest`. -/
theorem rest_kept (ends : r.InsertEnds q t passed rest e) (place : q ≠ nullptr) :
    Follows (r.threadQueueInsert q t).word (r.insertRest q t) rest nullptr := by
  have inside : r.insertLink q t ∈ q :: passed := ends.insertLink_eq ▸ List.getLast_mem _
  refine follows_congr (fun x member => ?_) ends.insertRest_follows
  obtain ⟨notAdded, notQueue, notState⟩ := ends.behind x member
  have notLink : x ≠ r.insertLink q t :=
    fun same => (List.nodup_append.mp ends.nodup).2.2 _ inside x member same.symm
  rw [word_threadQueueInsert place, if_neg notLink, if_neg notState, if_neg notQueue,
    if_neg notAdded]

theorem links (ends : r.InsertEnds q t passed rest e) (place : q ≠ nullptr)
    (valid : validThreadPtr t = true) :
    ∃ l, Links (r.threadQueueInsert q t).word nullptr ((r.threadQueueInsert q t).word q) l ∧
      ∀ x ∈ l, validThreadPtr x = true := by
  have passedValid : ∀ x ∈ passed, validThreadPtr x = true :=
    fun x member => ends.valid x (List.mem_append_left _ member)
  have restValid : ∀ x ∈ rest, validThreadPtr x = true :=
    fun x member => ends.valid x (List.mem_append_right _ member)
  have behind := ends.rest_kept place
  have out : ∀ {l : List Ptr}, (∀ x ∈ l, validThreadPtr x = true) → nullptr ∉ l :=
    fun all member => apart_of_valid (all nullptr member) validThreadPtr_nullptr rfl
  by_cases self : q = t
  · -- the head word is `next` of the new thread
    refine ⟨rest, links_iff_follows.mpr ⟨?_, out restValid⟩, restValid⟩
    have apart := ends.added_ne_link
    rw [self] at apart behind place ⊢
    rw [word_added place apart]
    exact behind
  · have once := (List.nodup_append.mp ends.nodup).1
    have begins := insert_follows place ends.insertLink_eq ends.link_follows.1 once
      (by simp [ends.added_not_passed, Ne.symm self]) (ends.before.resolve_left self)
    have sound : ∀ x ∈ passed ++ [t] ++ rest, validThreadPtr x = true := by
      intro x member
      rcases List.mem_append.mp member with member | member
      · rcases List.mem_append.mp member with member | member
        · exact passedValid x member
        · rw [List.mem_singleton.mp member]
          exact valid
      · exact restValid x member
    exact ⟨passed ++ [t] ++ rest,
      links_iff_follows.mpr ⟨follows_append.mpr ⟨_, begins, behind⟩, out sound⟩, sound⟩

end InsertEnds

end Degrades

end QueueRam

namespace QueueRam

/-- An insertion whose walk passed `passed` and that left the queue as the
chain `l` of valid threads. -/
structure LeavesChain (r : QueueRam) (q t : Ptr) (passed l : List Ptr) : Prop where
  place : q ≠ nullptr
  added : validThreadPtr t = true
  linked : Links (r.threadQueueInsert q t).word nullptr ((r.threadQueueInsert q t).word q) l
  sound : ∀ x ∈ l, validThreadPtr x = true
  link : r.insertLink q t = (q :: passed).getLast (by simp)
  walked : Follows r.word (r.word q) passed (r.word (r.insertLink q t))
  valid : ∀ x ∈ passed, validThreadPtr x = true
  out : t ∉ passed

namespace LeavesChain
variable {r : QueueRam} {q t : Ptr} {passed l : List Ptr}

theorem leaves (chain : r.LeavesChain q t passed l) {S : Ptr → Prop} (out : ¬ S nullptr)
    (start : S ((r.threadQueueInsert q t).word q))
    (closed : ∀ x, validThreadPtr x = true → S x → S ((r.threadQueueInsert q t).word x)) :
    False :=
  out (follows_closed (fun x member => closed x (chain.sound x member)) start
    (links_iff_follows.mp chain.linked).1)

theorem nodes_some (chain : r.LeavesChain q t passed l) : ∀ x ∈ q :: passed, x ≠ nullptr :=
  List.forall_mem_cons.mpr ⟨chain.place, fun x member => ne_nullptr_of_valid (chain.valid x member)⟩

theorem nodes_follow (chain : r.LeavesChain q t passed l) :
    Follows r.word q (q :: passed) (r.word (r.insertLink q t)) := ⟨rfl, chain.walked⟩

theorem link_apart (chain : r.LeavesChain q t passed l) : t ≠ r.insertLink q t := by
  intro same
  have head : q = t := by
    have link := chain.link
    cases passed with
    | nil => rw [same]; exact link.symm
    | cons x passed =>
        rw [List.getLast_cons_cons] at link
        exact absurd (same ▸ link ▸ List.getLast_mem _) chain.out
  have closed : ∀ x, x = t → (r.threadQueueInsert q t).word x = t := by
    rintro x rfl
    rw [word_threadQueueInsert chain.place, if_pos same]
  exact chain.leaves (ne_nullptr_of_valid chain.added).symm (closed q head) fun x _ => closed x

theorem rest_out (chain : r.LeavesChain q t passed l) : r.insertRest q t ∉ q :: passed := by
  intro back
  have stopped : r.word (r.insertLink q t) = r.insertRest q t := by
    have followed := chain.nodes_some _ back
    unfold insertRest at followed ⊢
    cases valid : validThreadPtr (r.word (r.insertLink q t)) with
    | true => simp [valid]
    | false => simp [valid] at followed
  have step : ∀ x, x ∈ q :: passed ∨ x = t → (r.threadQueueInsert q t).word x ∈ q :: passed ∨
      (r.threadQueueInsert q t).word x = t ∨
        (r.threadQueueInsert q t).word x = r.stateWord q t := by
    intro x inside
    rw [word_threadQueueInsert chain.place]
    split
    · exact Or.inr (Or.inl rfl)
    split
    · exact Or.inr (Or.inr rfl)
    split
    · exact Or.inl (by simp)
    split
    · exact Or.inl back
    rename_i notAdded
    rcases follows_next_mem chain.nodes_follow (inside.resolve_right notAdded) with member | met
    · exact Or.inl member
    · rw [met, stopped]
      exact Or.inl back
  refine chain.leaves (S := fun x => x ∈ q :: passed ∨ x = t ∨ x = r.stateWord q t)
    ?_ (step q (Or.inl (by simp))) ?_
  · rintro (member | same | same)
    · exact chain.nodes_some _ member rfl
    · exact ne_nullptr_of_valid chain.added same.symm
    · exact (stateWord_bad r q t).2 same.symm
  · rintro x followed (member | same | same)
    · exact step x (Or.inl member)
    · exact step x (Or.inr same)
    · exact absurd same (apart_of_valid followed (stateWord_bad r q t).1)

theorem nodup (chain : r.LeavesChain q t passed l) : (q :: passed).Nodup := by
  by_contra twice
  -- a walk that meets a node twice ends inside, at a valid thread
  have inside := follows_end_mem chain.nodes_follow twice
  have followed : validThreadPtr (r.word (r.insertLink q t)) = true := by
    by_cases again : q ∈ passed
    · rcases List.mem_cons.mp inside with same | member
      · rw [same]
        exact chain.valid q again
      · exact chain.valid _ member
    · refine chain.valid _ (follows_end_mem chain.walked fun once => twice ?_)
      exact List.nodup_cons.mpr ⟨again, once⟩
  refine chain.rest_out ?_
  rw [insertRest, if_pos followed]
  exact inside

theorem before (chain : r.LeavesChain q t passed l) (self : q ≠ t)
    (distinct : (q :: passed).Nodup) :
    ∀ x ∈ (q :: passed).dropLast, x ≠ t + 8 ∧ x ≠ t + 16 := by
  intro x member
  by_contra hit
  have split := nodes_split q passed
  have whole := chain.nodes_follow
  rw [← chain.link] at split
  generalize (q :: passed).dropLast = pre at split member
  -- the nodes up to the overwritten one
  obtain ⟨first, later, rfl⟩ := List.append_of_mem member
  have toHit : Follows r.word q first x := by
    rw [← split, List.append_assoc, List.cons_append] at whole
    obtain ⟨y, first, here, -⟩ := follows_append.mp whole
    exact here ▸ first
  have notLast : ∀ y ∈ first ++ [x], y ∈ first ++ x :: later := by
    intro y inside
    simp only [List.mem_append, List.mem_cons, List.not_mem_nil, or_false] at inside ⊢
    tauto
  have member_nodes : ∀ y ∈ first ++ [x], y ∈ q :: passed := fun y inside =>
    split ▸ List.mem_append_left _ (notLast y inside)
  have head : q ∈ first ++ [x] := by
    cases first with
    | nil => simp [show q = x from toHit]
    | cons y first => simp [show q = y from toHit.1]
  have step : ∀ y ∈ first ++ [x], (r.threadQueueInsert q t).word y ∈ first ++ [x] ∨
      (r.threadQueueInsert q t).word y = r.stateWord q t := by
    intro y inside
    have notLink : y ≠ r.insertLink q t := by
      rintro rfl
      rw [← split] at distinct
      exact (List.nodup_append.mp distinct).2.2 _ (notLast _ inside) _ (by simp) rfl
    have notAdded : y ≠ t := by
      rintro rfl
      rcases List.mem_cons.mp (member_nodes y inside) with same | member
      · exact self same.symm
      · exact chain.out member
    rw [word_threadQueueInsert chain.place, if_neg notLink, if_neg notAdded]
    split
    · exact Or.inr rfl
    split
    · exact Or.inl head
    rename_i notState notQueue
    rcases List.mem_append.mp inside with member | here
    · rcases follows_next_mem toHit member with member | met
      · exact Or.inl (List.mem_append_left _ member)
      · exact Or.inl (by simp [met])
    · rw [List.mem_singleton.mp here] at notState notQueue
      exact absurd ⟨notQueue, notState⟩ hit
  refine chain.leaves (S := fun y => y ∈ first ++ [x] ∨ y = r.stateWord q t) ?_ (step q head) ?_
  · rintro (member | same)
    · exact chain.nodes_some _ (member_nodes _ member) rfl
    · exact (stateWord_bad r q t).2 same.symm
  · rintro y followed (member | same)
    · exact step y member
    · exact absurd same (apart_of_valid followed (stateWord_bad r q t).1)

theorem behind (chain : r.LeavesChain q t passed l) {rest : List Ptr}
    (begins : q = t ∨ Follows (r.threadQueueInsert q t).word ((r.threadQueueInsert q t).word q)
      passed t)
    (linked : Links (r.threadQueueInsert q t).word nullptr (r.insertRest q t) rest)
    (sound : ∀ x ∈ rest, validThreadPtr x = true) :
    ∀ x ∈ rest, x ≠ r.insertLink q t ∧ x ≠ t ∧ x ≠ t + 8 ∧ x ≠ t + 16 := by
  have added := word_added chain.place chain.link_apart
  have some := ne_nullptr_of_valid chain.added
  have outAdded : t ∉ rest := fun member => links_ne_start linked member added
  have step : ∀ y, y ∈ rest → (r.threadQueueInsert q t).word y ∈ rest ∨
      (r.threadQueueInsert q t).word y = nullptr :=
    fun y member => follows_next_mem (links_iff_follows.mp linked).1 member
  have notLink : r.insertLink q t ∉ rest := by
    intro member
    have next := step _ member
    rw [word_threadQueueInsert chain.place, if_pos rfl] at next
    exact next.elim outAdded some
  have outQueue : q ∉ rest := by
    intro member
    rcases begins with rfl | begins
    · exact outAdded member
    · have nodes : Follows (r.threadQueueInsert q t).word q (q :: passed) t := ⟨rfl, begins⟩
      have reached := follows_closed (S := fun y => y ∈ rest ∨ y = nullptr)
        (fun y inside from_rest => step y (from_rest.resolve_right (chain.nodes_some y inside)))
        (Or.inl member) nodes
      exact reached.elim outAdded some
  intro x member
  have apart : x ≠ r.insertLink q t := fun same => notLink (same ▸ member)
  have next := step x member
  rw [word_threadQueueInsert chain.place, if_neg apart] at next
  refine ⟨apart, fun same => outAdded (same ▸ member), ?_, ?_⟩
  · intro same
    rw [if_neg (by rw [same]; simp), if_pos same] at next
    exact next.elim outQueue chain.place
  · intro same
    rw [if_pos same] at next
    obtain ⟨bad, other⟩ := stateWord_bad r q t
    exact next.elim (fun member => apart_of_valid (sound _ member) bad rfl) other

theorem rest_links (chain : r.LeavesChain q t passed l)
    (begins : q = t ∨ Follows (r.threadQueueInsert q t).word ((r.threadQueueInsert q t).word q)
      (passed ++ [t]) (r.insertRest q t)) :
    ∃ rest, Links (r.threadQueueInsert q t).word nullptr (r.insertRest q t) rest ∧
      ∀ x ∈ rest, validThreadPtr x = true := by
  rcases begins with rfl | begins
  · have linked := chain.linked
    rw [word_added chain.place chain.link_apart] at linked
    exact ⟨l, linked, chain.sound⟩
  · obtain ⟨whole, ended⟩ := links_iff_follows.mp chain.linked
    have shorter : (passed ++ [t]).length ≤ l.length := by
      by_contra longer
      rcases List.mem_append.mp (follows_mem_of_shorter whole begins (by omega)) with member | member
      · exact chain.nodes_some _ (List.mem_cons_of_mem _ member) rfl
      · exact ne_nullptr_of_valid chain.added (List.mem_singleton.mp member).symm
    obtain ⟨rest, rfl, behind⟩ := follows_extends begins whole shorter
    exact ⟨rest, links_iff_follows.mpr ⟨behind, fun member => ended (List.mem_append_right _ member)⟩,
      fun x member => chain.sound x (List.mem_append_right _ member)⟩

end LeavesChain

theorem insertEnds_of_links {r : QueueRam} {q t : Ptr} {l : List Ptr}
    (place : q ≠ nullptr) (added : validThreadPtr t = true)
    (linked : Links (r.threadQueueInsert q t).word nullptr ((r.threadQueueInsert q t).word q) l)
    (sound : ∀ x ∈ l, validThreadPtr x = true) : ∃ passed rest e, r.InsertEnds q t passed rest e := by
  obtain ⟨passed, link, walked, all, within, refused⟩ :=
    insertWalk_follows (r.priority t) walkGuard q
  change Follows r.word (r.word q) passed (r.word (r.insertLink q t)) at walked
  have chain : r.LeavesChain q t passed l :=
    { place := place, added := added, linked := linked, sound := sound, link := link
      walked := walked, valid := fun x member => (all x member).1
      out := fun member => lt_irrefl _ (all t member).2 }
  have distinct := chain.nodup
  have begins : q = t ∨ Follows (r.threadQueueInsert q t).word
      ((r.threadQueueInsert q t).word q) (passed ++ [t]) (r.insertRest q t) := by
    by_cases self : q = t
    · exact Or.inl self
    · refine Or.inr (insert_follows place link walked distinct ?_ (chain.before self distinct))
      simp [Ne.symm self, chain.out]
  obtain ⟨rest, restLinked, restSound⟩ := chain.rest_links begins
  have kept := chain.behind (begins.imp_right fun follows => by
    obtain ⟨x, first, here, -⟩ := follows_append.mp follows
    exact here ▸ first) restLinked restSound
  have unchanged : Follows r.word (r.insertRest q t) rest nullptr := by
    refine follows_congr (fun x member => ?_) (links_iff_follows.mp restLinked).1
    obtain ⟨notLink, notAdded, notQueue, notState⟩ := kept x member
    rw [word_threadQueueInsert place, if_neg notLink, if_neg notState, if_neg notQueue,
      if_neg notAdded]
  have placed : passed = [] → q ≠ t := by
    rintro rfl same
    have here : r.insertLink q t = q := chain.link
    exact chain.link_apart (same.symm.trans here.symm)
  have before : q = t ∨ ∀ x ∈ (q :: passed).dropLast, x ≠ t + 8 ∧ x ≠ t + 16 :=
    or_iff_not_imp_left.mpr fun self => chain.before self distinct
  cases followed : validThreadPtr (r.word (r.insertLink q t)) with
  | false =>
      exact ⟨passed, [], _,
        { chain := by simpa using walked
          valid := by simpa using chain.valid
          ended := followed
          higher := fun x member => (all x member).2
          within := within
          stops := by simp
          severed := fun _ => rfl
          place := placed
          before := before
          behind := by simp }⟩
  | true =>
      have rest_eq : r.insertRest q t = r.word (r.insertLink q t) := by
        rw [insertRest, if_pos followed]
      rw [rest_eq] at unchanged
      refine ⟨passed, rest, nullptr,
        { chain := follows_append.mpr ⟨_, walked, unchanged⟩
          valid := ?_
          ended := validThreadPtr_nullptr
          higher := fun x member => (all x member).2
          within := within
          stops := ?_
          severed := fun some => absurd rfl some
          place := placed
          before := before
          behind := fun x member => (kept x member).2 }⟩
      · intro x member
        exact (List.mem_append.mp member).elim (chain.valid x) (restSound x)
      · intro shorter x first
        cases rest with
        | nil => simp at first
        | cons y rest =>
            obtain ⟨here, -⟩ := unchanged
            obtain rfl : y = x := by simpa using first
            rw [← here]
            exact refused shorter followed

end QueueRam

def InsertDegrades (r : QueueRam) (self q t : Ptr) : Prop :=
  ∃ fuel reads, r.threadQueueInsertReads self q t fuel = some reads ∧
    ∀ p ∈ reads, validThreadPtr p = true

structure QueueDegrades (r : QueueRam) (thisThread q t : Ptr) : Prop where
  insert : InsertDegrades r thisThread q t
  pop : ∀ p ∈ (r.threadQueuePop thisThread q).2.2, validThreadPtr p = true
  remove : ∀ queue, ∀ p ∈ (r.threadQueueRemove thisThread queue t).2.2, validThreadPtr p = true

theorem insertDegrades_iff_links {r : QueueRam} {self q t : Ptr}
    (self_ok : self = nullptr ∨ validThreadPtr self = true) (valid : validThreadPtr t = true) :
    InsertDegrades r self q t ↔
      ∃ l, Links (r.threadQueueInsert q t).word nullptr ((r.threadQueueInsert q t).word q) l ∧
        ∀ x ∈ l, validThreadPtr x = true := by
  constructor
  · rintro ⟨fuel, reads, ran, sound⟩
    obtain ⟨traced, ended, rfl⟩ := Option.map_eq_some_iff.mp ran
    exact ⟨traced, QueueRam.insertTrace_links fuel _ traced ended,
      fun x member => sound x (List.mem_append_right _ member)⟩
  · rintro ⟨l, linked, sound⟩
    refine ⟨l.length + 1, _, Option.map_eq_some_iff.mpr
      ⟨l, QueueRam.insertTrace_ends l q linked, rfl⟩, ?_⟩
    intro p member
    rcases List.mem_append.mp member with member | member
    · rcases List.mem_append.mp member with member | member
      · rcases List.mem_cons.mp member with rfl | member
        · exact valid
        · exact QueueRam.insertWalk_valid _ _ _ p member
      · exact QueueRam.recordReads_valid self_ok valid p member
    · exact sound p member

/-- On arbitrary RDRAM pop and remove end and follow valid pointers only; an
insert does so exactly when the chain that it leaves comes to an end. -/
theorem corrupt_queues_degrade_iff (r : QueueRam) (self q t : Ptr)
    (self_ok : self = nullptr ∨ validThreadPtr self = true)
    (queue_ok : q = runningQueue ∨ validThreadPtr q = true) (valid : validThreadPtr t = true) :
    QueueDegrades r self q t ↔ ∃ passed rest e, r.InsertEnds q t passed rest e := by
  have place : q ≠ nullptr := by
    rcases queue_ok with rfl | aligned
    · decide
    · exact ne_nullptr_of_valid aligned
  constructor
  · intro degrades
    obtain ⟨l, linked, sound⟩ := (insertDegrades_iff_links self_ok valid).mp degrades.insert
    exact QueueRam.insertEnds_of_links place valid linked sound
  · rintro ⟨passed, rest, e, ends⟩
    have inserted := (insertDegrades_iff_links self_ok valid).mpr (ends.links place valid)
    exact ⟨inserted, QueueRam.popReads_valid q self_ok,
      fun queue => QueueRam.removeReads_valid queue self_ok valid⟩

/-- The running queue links threads of priorities 5 and 3 at 0x80001000 and
0x80002000; the thread at 0x80003000 has priority 4. -/
def pairRam : QueueRam where
  word := fun p =>
    if p = runningQueue then 0x80001000
    else if p = 0x80001000 then 0x80002000
    else if p = 0x80001004 then 5
    else if p = 0x80002004 then 3
    else if p = 0x80003004 then 4
    else 0

theorem corrupt_queues_degrade_iff_pair :
    QueueDegrades pairRam nullptr runningQueue 0x80003000 := by
  have five : pairRam.priority 0x80001000 = 5 := rfl
  have three : pairRam.priority 0x80002000 = 3 := rfl
  have four : pairRam.priority 0x80003000 = 4 := rfl
  have ends : pairRam.InsertEnds runningQueue 0x80003000 [0x80001000] [0x80002000] nullptr :=
    { chain := ⟨rfl, rfl, rfl⟩
      valid := List.all_eq_true.mp rfl
      ended := rfl
      higher := List.forall_mem_singleton.mpr (by rw [four, five]; decide)
      within := by decide
      stops := fun _ x first => by
        obtain rfl := Option.some.inj first
        rw [three, four]
        decide
      severed := fun some => absurd rfl some
      place := by decide
      before := Or.inr (List.forall_mem_singleton.mpr (by decide))
      behind := List.forall_mem_singleton.mpr (by decide) }
  exact (corrupt_queues_degrade_iff pairRam nullptr runningQueue 0x80003000 (Or.inl rfl)
    (Or.inl rfl) (by decide)).mpr ⟨_, _, _, ends⟩

/-- `pairRam`, where the second thread's object has been freed and its `next`
overwritten. -/
def freedRam : QueueRam := pairRam.store 0x80002000 0x12345678

/-- A thread inserted in front of the freed one sends the trace through it. -/
theorem freed_thread_traced : ¬ ∀ (r : QueueRam) (self q t : Ptr),
    self = nullptr ∨ validThreadPtr self = true → q = runningQueue ∨ validThreadPtr q = true →
      validThreadPtr t = true → QueueDegrades r self q t := by
  intro always
  have degrades := always freedRam nullptr runningQueue 0x80003000 (Or.inl rfl) (Or.inl rfl)
    (by decide)
  obtain ⟨l, linked, sound⟩ := (insertDegrades_iff_links (Or.inl rfl) (by decide)).mp degrades.insert
  -- 0x80001000, the new thread, 0x80002000, and then the overwritten pointer
  have walked : Follows (freedRam.threadQueueInsert runningQueue 0x80003000).word
      ((freedRam.threadQueueInsert runningQueue 0x80003000).word runningQueue)
      [0x80001000, 0x80003000, 0x80002000] 0x12345678 := ⟨rfl, rfl, rfl, rfl⟩
  obtain ⟨whole, -⟩ := links_iff_follows.mp linked
  rcases Nat.lt_or_ge 3 l.length with longer | shorter
  · have met := follows_mem_of_shorter walked whole longer
    exact absurd (sound _ met) (by decide)
  · obtain ⟨rest, split, behind⟩ := follows_extends whole walked shorter
    cases rest with
    | nil =>
        have equal : nullptr = 0x12345678 := behind
        exact absurd equal (by decide)
    | cons x rest =>
        have null : nullptr ∈ [0x80001000, 0x80003000, (0x80002000 : Ptr)] := by
          rw [split, behind.1]
          simp
        exact absurd null (by decide)

end N64ModernRuntime.Ultramodern
