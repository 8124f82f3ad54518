import N64ModernRuntime.Librecomp.Files

/-!
# pi.cpp: the save buffer and the saving thread

Game code writes into the save buffer and signals; the saving thread folds the
signals into flushes of the buffer, answers a pending change of the save file
and looks at the exit flag, one after the other.
-/

set_option autoImplicit false

namespace N64ModernRuntime.Librecomp

open Transition

/-- The three ways game code writes to the buffer. -/
inductive SaveCall where
  | saveWritePtr (bytes : Bytes) (offset : Nat)
  /-- the bytes are those that `MEM_B` reads -/
  | saveWrite (bytes : Bytes) (offset : Nat)
  | saveClear (start size : Nat) (value : UInt8)
  deriving DecidableEq, Repr

def SaveCall.offset : SaveCall → Nat
  | .saveWritePtr _ offset => offset
  | .saveWrite _ offset => offset
  | .saveClear start _ _ => start

def SaveCall.bytes : SaveCall → Bytes
  | .saveWritePtr bytes _ => bytes
  | .saveWrite bytes _ => bytes
  | .saveClear _ size value => List.replicate size value

/-- `assert(offset + count <= save_buffer.size())` -/
def SaveCall.fits (call : SaveCall) (buffer : Bytes) : Bool :=
  decide (call.offset + call.bytes.length ≤ buffer.length)

def SaveCall.apply (buffer : Bytes) (call : SaveCall) : Bytes :=
  buffer.take call.offset ++ call.bytes ++ buffer.drop (call.offset + call.bytes.length)

/-- A buffer on its way to a file; `seen` counts the writes that were in it. -/
structure Snapshot where
  content : Bytes
  seen : Nat
  deriving DecidableEq, Repr

variable (Path : Type)

/-- Where `saving_thread_func` is. -/
inductive SaverPc where
  | exitCheck
  /-- in the coalescing loop; `dirty` says that `folded` is not 0 -/
  | draining (folded : Nat)
  /-- at the head of `update_save_file` -/
  | flushing
  /-- the temp file of this path is open -/
  | opened (path : Path)
  /-- the temp file is written -/
  | written
  | swapCheck
  | finished
  deriving DecidableEq, Repr

inductive ChangerPc where
  | idle
  /-- in `swap_file_ready_sempahore.wait()` -/
  | waiting
  | granted
  /-- the path is set, the file not yet read -/
  | reloading
  deriving DecidableEq, Repr

/-- `log` holds every write that has landed in the buffer, `inFlight` the ones
among them that have not returned; the file was last read into the buffer, as
`loaded`, when the log had `base` entries.  `beforeExit` are the writes that had
returned when the exit flag was set. -/
structure Saving where
  buffer : Bytes
  blankValue : UInt8
  path : Path
  file : Path → Option Snapshot
  temp : Path → Option Snapshot
  writeSemaphore : Nat
  swapPending : Nat
  swapReady : Nat
  exited : Bool
  saver : SaverPc Path
  changer : ChangerPc
  loaded : Bytes
  base : Nat
  log : List SaveCall
  inFlight : List Nat
  beforeExit : List Nat

inductive SavingLabel where
  /-- a write up to the release of the buffer's lock -/
  | write (call : SaveCall)
  /-- its signal, and the return -/
  | returns (i : Nat)
  | saver
  | change
  | granted
  | switch (path : Path)
  | reload
  | exit
  deriving DecidableEq, Repr

variable {Path} [DecidableEq Path]

def maxCoalesced : Nat := 128

def setFile (files : Path → Option Snapshot) (path : Path) (file : Option Snapshot) :
    Path → Option Snapshot :=
  fun p => if p = path then file else files p

/-- One step of the saving thread, file writes succeeding.  The wait on the write
semaphore times out only if there is nothing to take; the path is read when the
temp file is opened, and again when it is copied. -/
def saverStep (s : Saving Path) : Option (Saving Path) :=
  match s.saver with
  | .exitCheck => some { s with saver := if s.exited then .finished else .draining 0 }
  | .draining folded =>
      if 0 < s.writeSemaphore then
        some { s with
          writeSemaphore := s.writeSemaphore - 1
          -- a signal beyond the cap is taken and ends the loop
          saver := if folded < maxCoalesced then .draining (folded + 1) else .flushing }
      else some { s with saver := if 0 < folded then .flushing else .swapCheck }
  | .flushing =>
      some { s with temp := setFile s.temp s.path (some ⟨[], 0⟩), saver := .opened s.path }
  | .opened path =>
      some { s with
        temp := setFile s.temp path (some ⟨s.buffer, s.log.length⟩)
        saver := .written }
  | .written =>
      match s.temp s.path with
      | none => some { s with saver := .swapCheck }
      | some snapshot =>
          some { s with
            file := setFile s.file s.path (some snapshot)
            temp := setFile s.temp s.path none
            saver := .swapCheck }
  | .swapCheck =>
      if 0 < s.swapPending then
        some { s with
          swapPending := s.swapPending - 1
          swapReady := s.swapReady + 1
          saver := .exitCheck }
      else some { s with saver := .exitCheck }
  | .finished => none

/-- The buffer is blanked, then filled from the file as far as that goes. -/
def readSaveFile (s : Saving Path) : Bytes :=
  match s.file s.path with
  | none => List.replicate s.buffer.length s.blankValue
  | some snapshot =>
      snapshot.content.take s.buffer.length ++
        List.replicate (s.buffer.length - snapshot.content.length) s.blankValue

def Saving.returned (s : Saving Path) : List Nat :=
  (List.range s.log.length).filter fun i => decide (i ∉ s.inFlight)

/-- The guest thread in `change_save_file` keeps the CPU until it returns, so no
write overlaps the call. -/
def savingStep (s : Saving Path) : SavingLabel Path → Option (Saving Path)
  | .write call =>
      if s.changer = .idle ∧ call.fits s.buffer = true then
        some { s with
          buffer := call.apply s.buffer
          log := s.log ++ [call]
          inFlight := s.inFlight ++ [s.log.length] }
      else none
  | .returns i =>
      if i ∈ s.inFlight then
        some { s with
          inFlight := s.inFlight.filter fun j => decide (j ≠ i)
          writeSemaphore := s.writeSemaphore + 1 }
      else none
  | .saver => saverStep s
  | .change =>
      if s.changer = .idle ∧ s.inFlight = [] then
        some { s with swapPending := s.swapPending + 1, changer := .waiting }
      else none
  | .granted =>
      if s.changer = .waiting ∧ 0 < s.swapReady then
        some { s with swapReady := s.swapReady - 1, changer := .granted }
      else none
  | .switch path =>
      if s.changer = .granted then some { s with path := path, changer := .reloading } else none
  | .reload =>
      if s.changer = .reloading then
        some { s with
          buffer := readSaveFile s
          loaded := readSaveFile s
          base := s.log.length
          changer := .idle }
      else none
  | .exit =>
      if s.exited then none else some { s with exited := true, beforeExit := s.returned }

/-- After `init_saving`, over files of any content. -/
structure SavingStarted (s : Saving Path) : Prop where
  old : ∀ path snapshot, s.file path = some snapshot ∨ s.temp path = some snapshot →
    snapshot.seen = 0
  loaded : s.loaded = s.buffer
  semaphores : s.writeSemaphore = 0 ∧ s.swapPending = 0 ∧ s.swapReady = 0
  saver : s.saver = .exitCheck
  changer : s.changer = .idle
  running : s.exited = false
  logs : s.base = 0 ∧ s.log = [] ∧ s.inFlight = [] ∧ s.beforeExit = []

/-! ## What the save file holds -/

def applyCalls (buffer : Bytes) (calls : List SaveCall) : Bytes := calls.foldl SaveCall.apply buffer

/-- The writes that the save file has seen. -/
def Saving.fileSeen (s : Saving Path) : Nat := (s.file s.path).elim 0 Snapshot.seen

/-- The same after the copy of the temp file. -/
def Saving.finalSeen (s : Saving Path) : Nat := (s.temp s.path).elim s.fileSeen Snapshot.seen

/-- The save file holds the buffer as it was after some write from `i` on. -/
def Saving.Contains (s : Saving Path) (i : Nat) : Prop :=
  ∃ snapshot, s.file s.path = some snapshot ∧ i < snapshot.seen ∧
    snapshot.content = applyCalls s.loaded ((s.log.take snapshot.seen).drop s.base)

/-- The save file has write `i`, or gets it before the saving thread is back at
the head of its loop. -/
def Saving.SecuredAt (s : Saving Path) (i : Nat) : SaverPc Path → Prop
  | .flushing => True
  | .draining folded => 0 < folded ∨ i < s.fileSeen
  | .opened path => path = s.path ∨ i < s.fileSeen
  | .written => i < s.finalSeen
  | .exitCheck | .swapCheck | .finished => i < s.fileSeen

/-- Write `i` is in the file when the saving thread next answers a change. -/
def Saving.SwapSafeAt (s : Saving Path) (i : Nat) : SaverPc Path → Prop
  | .exitCheck | .draining _ | .finished => True
  | pc => s.SecuredAt i pc

/-- Write `i` is in the file when the saving thread next looks at the exit flag. -/
def Saving.ExitSafeAt (s : Saving Path) (i : Nat) : SaverPc Path → Prop
  | .draining _ => True
  | pc => s.SecuredAt i pc

instance (s : Saving Path) (i : Nat) : ∀ pc, Decidable (s.SecuredAt i pc)
  | .flushing => isTrue trivial
  | .draining folded => inferInstanceAs (Decidable (0 < folded ∨ i < s.fileSeen))
  | .opened path => inferInstanceAs (Decidable (path = s.path ∨ i < s.fileSeen))
  | .written => inferInstanceAs (Decidable (i < s.finalSeen))
  | .exitCheck | .swapCheck | .finished => inferInstanceAs (Decidable (i < s.fileSeen))

instance (s : Saving Path) (i : Nat) : ∀ pc, Decidable (s.SwapSafeAt i pc)
  | .exitCheck | .draining _ | .finished => isTrue trivial
  | .flushing => inferInstanceAs (Decidable (s.SecuredAt i .flushing))
  | .opened path => inferInstanceAs (Decidable (s.SecuredAt i (.opened path)))
  | .written => inferInstanceAs (Decidable (s.SecuredAt i .written))
  | .swapCheck => inferInstanceAs (Decidable (s.SecuredAt i .swapCheck))

instance (s : Saving Path) (i : Nat) : ∀ pc, Decidable (s.ExitSafeAt i pc)
  | .draining _ => isTrue trivial
  | .exitCheck => inferInstanceAs (Decidable (s.SecuredAt i .exitCheck))
  | .finished => inferInstanceAs (Decidable (s.SecuredAt i .finished))
  | .flushing => inferInstanceAs (Decidable (s.SecuredAt i .flushing))
  | .opened path => inferInstanceAs (Decidable (s.SecuredAt i (.opened path)))
  | .written => inferInstanceAs (Decidable (s.SecuredAt i .written))
  | .swapCheck => inferInstanceAs (Decidable (s.SecuredAt i .swapCheck))

/-- At the call of `change_save_file`, and at the setting of the exit flag, the
saving thread has not passed the end of its loop with a write left behind. -/
def KeepsWrites (s : Saving Path) : SavingLabel Path → Prop
  | .change => ∀ i < s.log.length, s.base ≤ i → s.SwapSafeAt i s.saver
  | .exit => s.changer = .reloading ∨ ∀ i ∈ s.returned, s.base ≤ i → s.ExitSafeAt i s.saver
  | _ => True

instance (s : Saving Path) : ∀ l : SavingLabel Path, Decidable (KeepsWrites s l)
  | .change => inferInstanceAs (Decidable (∀ i < s.log.length, s.base ≤ i →
      s.SwapSafeAt i s.saver))
  | .exit => inferInstanceAs (Decidable (s.changer = .reloading ∨
      ∀ i ∈ s.returned, s.base ≤ i → s.ExitSafeAt i s.saver))
  | .write _ | .returns _ | .saver | .granted | .switch _ | .reload => isTrue trivial

/-- No write is lost: the old file has every write when the path is about to
change, and the file has every write that had returned before the exit flag was
set once the saving thread has ended. -/
structure Saving.NothingLost (s : Saving Path) : Prop where
  switch : s.changer = .granted → ∀ i < s.log.length, s.base ≤ i → s.Contains i
  exit : s.saver = .finished → s.changer ≠ .reloading → ∀ i ∈ s.beforeExit, s.base ≤ i →
    s.Contains i

/-! ## The steps of the saving thread -/

inductive SaverMove (s : Saving Path) : Saving Path → Prop
  | checks (here : s.saver = .exitCheck) (next : SaverPc Path)
      (flag : s.exited = true ∧ next = .finished ∨ s.exited = false ∧ next = .draining 0) :
      SaverMove s { s with saver := next }
  | takes (folded : Nat) (here : s.saver = .draining folded) (some : 0 < s.writeSemaphore)
      (next : SaverPc Path) (dirty : next = .draining (folded + 1) ∨ next = .flushing) :
      SaverMove s { s with writeSemaphore := s.writeSemaphore - 1, saver := next }
  | timesOut (folded : Nat) (here : s.saver = .draining folded) (none : s.writeSemaphore = 0)
      (next : SaverPc Path)
      (ended : 0 < folded ∧ next = .flushing ∨ folded = 0 ∧ next = .swapCheck) :
      SaverMove s { s with saver := next }
  | opens (here : s.saver = .flushing) :
      SaverMove s
        { s with temp := setFile s.temp s.path (some ⟨[], 0⟩), saver := .opened s.path }
  | writes (path : Path) (here : s.saver = .opened path) :
      SaverMove s
        { s with
          temp := setFile s.temp path (some ⟨s.buffer, s.log.length⟩)
          saver := .written }
  | fails (here : s.saver = .written) (absent : s.temp s.path = none) :
      SaverMove s { s with saver := .swapCheck }
  | copies (here : s.saver = .written) (snapshot : Snapshot)
      (present : s.temp s.path = some snapshot) :
      SaverMove s
        { s with
          file := setFile s.file s.path (some snapshot)
          temp := setFile s.temp s.path none
          saver := .swapCheck }
  | grants (here : s.saver = .swapCheck) (pending : 0 < s.swapPending) :
      SaverMove s
        { s with
          swapPending := s.swapPending - 1
          swapReady := s.swapReady + 1
          saver := .exitCheck }
  | skips (here : s.saver = .swapCheck) (calm : s.swapPending = 0) :
      SaverMove s { s with saver := .exitCheck }

section Moves
variable {s s' : Saving Path} {i : Nat}

theorem saverStep_move (taken : saverStep s = some s') : SaverMove s s' := by
  unfold saverStep at taken
  split at taken
  · rename_i here
    cases taken
    refine .checks here _ ?_
    split
    · rename_i exited
      exact .inl ⟨exited, rfl⟩
    · rename_i running
      exact .inr ⟨by simpa using running, rfl⟩
  · rename_i folded here
    split at taken
    · rename_i some
      cases taken
      refine .takes folded here some _ ?_
      split
      · exact .inl rfl
      · exact .inr rfl
    · rename_i none
      cases taken
      refine .timesOut folded here (Nat.eq_zero_of_not_pos none) _ ?_
      split
      · rename_i dirty
        exact .inl ⟨dirty, rfl⟩
      · rename_i clean
        exact .inr ⟨Nat.eq_zero_of_not_pos clean, rfl⟩
  · rename_i here
    cases taken
    exact .opens here
  · rename_i path here
    cases taken
    exact .writes path here
  · rename_i here
    split at taken
    · rename_i absent
      cases taken
      exact .fails here absent
    · rename_i snapshot present
      cases taken
      exact .copies here snapshot present
  · rename_i here
    split at taken
    · rename_i pending
      cases taken
      exact .grants here pending
    · rename_i calm
      cases taken
      exact .skips here (Nat.eq_zero_of_not_pos calm)
  · contradiction

/-- Whatever the saving thread does, the buffer and the calls on it are not its own. -/
theorem SaverMove.frame (move : SaverMove s s') : s'.path = s.path ∧ s'.log = s.log ∧
    s'.base = s.base ∧ s'.buffer = s.buffer ∧ s'.loaded = s.loaded ∧ s'.inFlight = s.inFlight ∧
    s'.changer = s.changer ∧ s'.exited = s.exited ∧ s'.beforeExit = s.beforeExit := by
  cases move <;> exact ⟨rfl, rfl, rfl, rfl, rfl, rfl, rfl, rfl, rfl⟩

/-- Each label with what was checked before it. -/
inductive SavingMove (s : Saving Path) : SavingLabel Path → Saving Path → Prop
  | write (call : SaveCall) (free : s.changer = .idle) :
      SavingMove s (.write call)
        { s with
          buffer := call.apply s.buffer
          log := s.log ++ [call]
          inFlight := s.inFlight ++ [s.log.length] }
  | returns (i : Nat) (pending : i ∈ s.inFlight) :
      SavingMove s (.returns i)
        { s with
          inFlight := s.inFlight.filter fun j => decide (j ≠ i)
          writeSemaphore := s.writeSemaphore + 1 }
  | saver {s' : Saving Path} (move : SaverMove s s') : SavingMove s .saver s'
  | change (free : s.changer = .idle) (quiet : s.inFlight = []) :
      SavingMove s .change { s with swapPending := s.swapPending + 1, changer := .waiting }
  | granted (waiting : s.changer = .waiting) (answered : 0 < s.swapReady) :
      SavingMove s .granted { s with swapReady := s.swapReady - 1, changer := .granted }
  | switch (path : Path) (answered : s.changer = .granted) :
      SavingMove s (.switch path) { s with path := path, changer := .reloading }
  | reload (reloading : s.changer = .reloading) :
      SavingMove s .reload
        { s with
          buffer := readSaveFile s
          loaded := readSaveFile s
          base := s.log.length
          changer := .idle }
  | exit (running : s.exited = false) :
      SavingMove s .exit { s with exited := true, beforeExit := s.returned }

theorem savingStep_move {l : SavingLabel Path} (taken : savingStep s l = some s') :
    SavingMove s l s' := by
  cases l with
  | saver => exact .saver (saverStep_move taken)
  | write call =>
      simp only [savingStep] at taken
      split at taken
      · rename_i free
        cases taken
        exact .write call free.1
      · contradiction
  | returns i =>
      simp only [savingStep] at taken
      split at taken
      · rename_i pending
        cases taken
        exact .returns i pending
      · contradiction
  | change =>
      simp only [savingStep] at taken
      split at taken
      · rename_i free
        cases taken
        exact .change free.1 free.2
      · contradiction
  | granted =>
      simp only [savingStep] at taken
      split at taken
      · rename_i answered
        cases taken
        exact .granted answered.1 answered.2
      · contradiction
  | switch path =>
      simp only [savingStep] at taken
      split at taken
      · rename_i answered
        cases taken
        exact .switch path answered
      · contradiction
  | reload =>
      simp only [savingStep] at taken
      split at taken
      · rename_i reloading
        cases taken
        exact .reload reloading
      · contradiction
  | exit =>
      simp only [savingStep] at taken
      split at taken
      · contradiction
      · rename_i running
        cases taken
        exact .exit (by simpa using running)

end Moves

/-! ## The buffer and the snapshots -/

/-- The snapshot is the buffer as it was after some of the writes; only writes
since the buffer was last read are known to be in it. -/
structure Records (loaded : Bytes) (base : Nat) (log : List SaveCall) (snapshot : Snapshot) :
    Prop where
  seen : snapshot.seen ≤ log.length
  content : base < snapshot.seen →
    snapshot.content = applyCalls loaded ((log.take snapshot.seen).drop base)

theorem Records.write {loaded : Bytes} {base : Nat} {log : List SaveCall} {snapshot : Snapshot}
    (records : Records loaded base log snapshot) (call : SaveCall) :
    Records loaded base (log ++ [call]) snapshot := by
  refine ⟨?_, fun later => ?_⟩
  · rw [List.length_append]
    exact Nat.le_add_right_of_le records.seen
  · rw [List.take_append_of_le_length records.seen]
    exact records.content later

theorem Records.reload {loaded : Bytes} {base : Nat} {log : List SaveCall} {snapshot : Snapshot}
    (records : Records loaded base log snapshot) (fresh : Bytes) :
    Records fresh log.length log snapshot :=
  ⟨records.seen, fun later => absurd records.seen (Nat.not_le.mpr later)⟩

/-- What holds at any time: the buffer is what was read and the writes since,
and so is every snapshot taken since. -/
structure Saving.Booked (s : Saving Path) : Prop where
  base : s.base ≤ s.log.length
  buffer : s.buffer = applyCalls s.loaded (s.log.drop s.base)
  file : ∀ path snapshot, s.file path = some snapshot →
    Records s.loaded s.base s.log snapshot
  temp : ∀ path snapshot, s.temp path = some snapshot →
    Records s.loaded s.base s.log snapshot

section Booked
variable {s s' : Saving Path}

theorem setFile_some {files : Path → Option Snapshot} {path p : Path} {file : Option Snapshot}
    {snapshot : Snapshot} (here : setFile files path file p = some snapshot) :
    file = some snapshot ∨ files p = some snapshot := by
  unfold setFile at here
  split at here
  · exact .inl here
  · exact .inr here

omit [DecidableEq Path] in
theorem Saving.Booked.now (booked : s.Booked) :
    Records s.loaded s.base s.log ⟨s.buffer, s.log.length⟩ :=
  ⟨Nat.le_refl _, fun _ => by rw [List.take_length]; exact booked.buffer⟩

theorem Saving.Booked.move (booked : s.Booked) (move : SaverMove s s') : s'.Booked := by
  obtain ⟨base, buffer, file, temp⟩ := booked
  cases move with
  | checks here next flag => exact ⟨base, buffer, file, temp⟩
  | takes folded here some next dirty => exact ⟨base, buffer, file, temp⟩
  | timesOut folded here none next ended => exact ⟨base, buffer, file, temp⟩
  | opens here =>
      refine ⟨base, buffer, file, fun p snapshot found => ?_⟩
      rcases setFile_some found with new | old
      · cases new
        exact ⟨Nat.zero_le _, fun later => absurd later (Nat.not_lt_zero _)⟩
      · exact temp p snapshot old
  | writes path here =>
      refine ⟨base, buffer, file, fun p snapshot found => ?_⟩
      rcases setFile_some found with new | old
      · cases new
        exact (Saving.Booked.mk base buffer file temp).now
      · exact temp p snapshot old
  | fails here absent => exact ⟨base, buffer, file, temp⟩
  | copies here snapshot present =>
      refine ⟨base, buffer, fun p other found => ?_, fun p other found => ?_⟩
      · rcases setFile_some found with new | old
        · cases new
          exact temp _ _ present
        · exact file p other old
      · rcases setFile_some found with new | old
        · contradiction
        · exact temp p other old
  | grants here pending => exact ⟨base, buffer, file, temp⟩
  | skips here calm => exact ⟨base, buffer, file, temp⟩

theorem Saving.Booked.step {l : SavingLabel Path} (booked : s.Booked) (step : SavingMove s l s') :
    s'.Booked := by
  obtain ⟨base, buffer, file, temp⟩ := booked
  cases step with
  | write call free =>
      refine ⟨?_, ?_, fun p snapshot found => (file p snapshot found).write call,
        fun p snapshot found => (temp p snapshot found).write call⟩
      · simp only [List.length_append]
        exact Nat.le_add_right_of_le base
      · simp only [List.drop_append_of_le_length base, applyCalls, List.foldl_append,
          List.foldl_cons, List.foldl_nil]
        rw [buffer]
        rfl
  | returns i pending => exact ⟨base, buffer, file, temp⟩
  | saver move => exact (Saving.Booked.mk base buffer file temp).move move
  | change free quiet => exact ⟨base, buffer, file, temp⟩
  | granted waiting answered => exact ⟨base, buffer, file, temp⟩
  | switch path answered => exact ⟨base, buffer, file, temp⟩
  | reload reloading =>
      refine ⟨Nat.le_refl _, ?_, fun p snapshot found => (file p snapshot found).reload _,
        fun p snapshot found => (temp p snapshot found).reload _⟩
      simp [applyCalls]
  | exit running => exact ⟨base, buffer, file, temp⟩

end Booked

/-! ## Every signal leads to a flush -/

/-- The semaphores of a change, and the writes that the exit flag is about. -/
structure Saving.Counted (s : Saving Path) : Prop where
  tokens : s.swapPending + s.swapReady = if s.changer = .waiting then 1 else 0
  quiet : s.changer ≠ .idle → s.inFlight = []
  running : s.exited = false → s.beforeExit = []
  ended : s.saver = .finished → s.exited = true
  returned : ∀ i ∈ s.beforeExit, i < s.log.length ∧ i ∉ s.inFlight

/-- While the path is the one that the buffer was read from: a write that has
returned is secured or its signal, or a later one, is still to be taken. -/
structure Saving.Settled (s : Saving Path) : Prop where
  work : ∀ i < s.log.length, s.base ≤ i → i ∉ s.inFlight →
    0 < s.writeSemaphore ∨ s.SecuredAt i s.saver
  stale : ∀ path, s.saver = .opened path → path ≠ s.path → s.fileSeen ≤ s.base
  newer : s.saver = .written → ∀ snapshot, s.temp s.path = some snapshot →
    s.fileSeen ≤ s.base ∨ s.fileSeen ≤ snapshot.seen
  swap : s.changer = .waiting → 0 < s.swapPending → ∀ i < s.log.length, s.base ≤ i →
    s.SwapSafeAt i s.saver
  ready : s.changer = .waiting → 0 < s.swapReady → ∀ i < s.log.length, s.base ≤ i →
    i < s.fileSeen
  granted : s.changer = .granted → ∀ i < s.log.length, s.base ≤ i → i < s.fileSeen
  exit : ∀ i ∈ s.beforeExit, s.base ≤ i → s.ExitSafeAt i s.saver

section Settled
variable {s s' : Saving Path} {i : Nat}

@[simp] theorem setFile_self (files : Path → Option Snapshot) (path : Path)
    (file : Option Snapshot) : setFile files path file path = file :=
  if_pos rfl

theorem setFile_other (files : Path → Option Snapshot) {path p : Path} (file : Option Snapshot)
    (other : p ≠ path) : setFile files path file p = files p :=
  if_neg other

theorem held_move (settled : s.Settled) (move : SaverMove s s') (fresh : s.base ≤ i)
    (held : i < s.fileSeen) : i < s'.fileSeen := by
  cases move with
  | checks here next flag => exact held
  | takes folded here some next dirty => exact held
  | timesOut folded here none next ended => exact held
  | opens here => exact held
  | writes path here => exact held
  | fails here absent => exact held
  | grants here pending => exact held
  | skips here calm => exact held
  | copies here snapshot present =>
      simp only [Saving.fileSeen, setFile_self, Option.elim_some]
      rcases settled.newer here snapshot present with old | newer
      · omega
      · exact Nat.lt_of_lt_of_le held newer

/-- A round of the saving thread never gives up a secured write. -/
theorem secured_move (settled : s.Settled) (move : SaverMove s s') (landed : i < s.log.length)
    (fresh : s.base ≤ i) (secured : s.SecuredAt i s.saver) : s'.SecuredAt i s'.saver := by
  cases move with
  | checks here next flag =>
      rw [here] at secured
      rcases flag with ⟨_, rfl⟩ | ⟨_, rfl⟩
      · exact secured
      · exact .inr secured
  | takes folded here some next dirty =>
      rcases dirty with rfl | rfl
      · exact .inl (Nat.succ_pos _)
      · trivial
  | timesOut folded here none next ended =>
      rw [here] at secured
      rcases ended with ⟨_, rfl⟩ | ⟨rfl, rfl⟩
      · trivial
      · exact secured.resolve_left (Nat.lt_irrefl 0)
  | opens here => exact .inl rfl
  | writes path here =>
      rw [here] at secured
      simp only [Saving.SecuredAt, Saving.finalSeen]
      by_cases same : path = s.path
      · rw [same, setFile_self]
        exact landed
      · rw [setFile_other _ _ (Ne.symm same)]
        have held := secured.resolve_left same
        have none_held := settled.stale path here same
        omega
  | fails here absent =>
      rw [here] at secured
      simp only [Saving.SecuredAt, Saving.finalSeen, absent, Option.elim_none] at secured
      exact secured
  | copies here snapshot present =>
      rw [here] at secured
      simp only [Saving.SecuredAt, Saving.finalSeen, present, Option.elim_some] at secured
      simpa only [Saving.SecuredAt, Saving.fileSeen, setFile_self, Option.elim_some] using secured
  | grants here pending =>
      rw [here] at secured
      exact secured
  | skips here calm =>
      rw [here] at secured
      exact secured

omit [DecidableEq Path] in
/-- At the end of a loop without a signal the file has whatever has returned. -/
theorem held_of_timeout (settled : s.Settled) (here : s.saver = .draining 0)
    (none : s.writeSemaphore = 0) (landed : i < s.log.length) (fresh : s.base ≤ i)
    (returned : i ∉ s.inFlight) : i < s.fileSeen := by
  rcases settled.work i landed fresh returned with some | secured
  · omega
  · rw [here] at secured
    exact secured.resolve_left (Nat.lt_irrefl 0)

theorem work_move (settled : s.Settled) (move : SaverMove s s') (landed : i < s.log.length)
    (fresh : s.base ≤ i) (returned : i ∉ s.inFlight) :
    0 < s'.writeSemaphore ∨ s'.SecuredAt i s'.saver := by
  rcases settled.work i landed fresh returned with some | secured
  · cases move with
    | takes folded here _ next dirty =>
        rcases dirty with rfl | rfl
        · exact .inr (.inl (Nat.succ_pos _))
        · exact .inr trivial
    | timesOut folded here none next ended => omega
    | checks here next flag => exact .inl some
    | opens here => exact .inl some
    | writes path here => exact .inl some
    | fails here absent => exact .inl some
    | copies here snapshot present => exact .inl some
    | grants here pending => exact .inl some
    | skips here calm => exact .inl some
  · exact .inr (secured_move settled move landed fresh secured)

theorem swap_move (settled : s.Settled) (counted : s.Counted) (move : SaverMove s s')
    (waiting : s.changer = .waiting) (pending : 0 < s'.swapPending) (landed : i < s.log.length)
    (fresh : s.base ≤ i) : s'.SwapSafeAt i s'.saver := by
  have tokens := counted.tokens
  rw [if_pos waiting] at tokens
  have quiet : i ∉ s.inFlight := by
    rw [counted.quiet (by simp [waiting])]
    exact List.not_mem_nil
  have safe : 0 < s.swapPending → s.SwapSafeAt i s.saver := fun still =>
    settled.swap waiting still i landed fresh
  cases move with
  | checks here next flag =>
      rcases flag with ⟨_, rfl⟩ | ⟨_, rfl⟩
      · trivial
      · trivial
  | takes folded here some next dirty =>
      rcases dirty with rfl | rfl
      · trivial
      · trivial
  | timesOut folded here none next ended =>
      rcases ended with ⟨_, rfl⟩ | ⟨rfl, rfl⟩
      · trivial
      · have held := held_of_timeout settled here none landed fresh quiet
        exact held
  | opens here => exact .inl rfl
  | writes path here =>
      have secured := safe pending
      rw [here] at secured
      exact secured_move settled (.writes path here) landed fresh (here ▸ secured)
  | fails here absent =>
      have secured := safe pending
      rw [here] at secured
      exact secured_move settled (.fails here absent) landed fresh (here ▸ secured)
  | copies here snapshot present =>
      have secured := safe pending
      rw [here] at secured
      exact secured_move settled (.copies here snapshot present) landed fresh (here ▸ secured)
  | grants here old =>
      have gone : s.swapPending - 1 = 0 := by omega
      exact absurd gone (Nat.ne_of_gt pending)
  | skips here calm => trivial

/-- The answer to a change comes when the file is up to date. -/
theorem ready_move (settled : s.Settled) (move : SaverMove s s') (waiting : s.changer = .waiting)
    (ready : 0 < s'.swapReady) (landed : i < s.log.length) (fresh : s.base ≤ i) :
    i < s'.fileSeen := by
  cases move with
  | grants here pending =>
      have held := settled.swap waiting pending i landed fresh
      rw [here] at held
      exact held
  | checks here next flag => exact settled.ready waiting ready i landed fresh
  | takes folded here some next dirty => exact settled.ready waiting ready i landed fresh
  | timesOut folded here none next ended => exact settled.ready waiting ready i landed fresh
  | opens here => exact settled.ready waiting ready i landed fresh
  | writes path here => exact settled.ready waiting ready i landed fresh
  | fails here absent => exact settled.ready waiting ready i landed fresh
  | skips here calm => exact settled.ready waiting ready i landed fresh
  | copies here snapshot present =>
      exact held_move settled (.copies here snapshot present) fresh
        (settled.ready waiting ready i landed fresh)

theorem exit_move (settled : s.Settled) (counted : s.Counted) (move : SaverMove s s')
    (before : i ∈ s.beforeExit) (fresh : s.base ≤ i) : s'.ExitSafeAt i s'.saver := by
  obtain ⟨landed, returned⟩ := counted.returned i before
  have safe := settled.exit i before fresh
  have secured : ∀ pc, s.saver = pc → s.ExitSafeAt i pc := fun pc here => here ▸ safe
  cases move with
  | checks here next flag =>
      rcases flag with ⟨_, rfl⟩ | ⟨_, rfl⟩
      · exact secured _ here
      · trivial
  | takes folded here some next dirty =>
      rcases dirty with rfl | rfl
      · trivial
      · trivial
  | timesOut folded here none next ended =>
      rcases ended with ⟨_, rfl⟩ | ⟨rfl, rfl⟩
      · trivial
      · have held := held_of_timeout settled here none landed fresh returned
        exact held
  | opens here => exact .inl rfl
  | writes path here =>
      exact secured_move settled (.writes path here) landed fresh (here ▸ secured _ here)
  | fails here absent =>
      exact secured_move settled (.fails here absent) landed fresh (here ▸ secured _ here)
  | copies here snapshot present =>
      exact secured_move settled (.copies here snapshot present) landed fresh
        (here ▸ secured _ here)
  | grants here pending => exact secured _ here
  | skips here calm => exact secured _ here

theorem stale_move (move : SaverMove s s') (path : Path)
    (opened : s'.saver = .opened path) (other : path ≠ s'.path) : s'.fileSeen ≤ s'.base := by
  cases move with
  | opens here =>
      cases opened
      exact absurd rfl other
  | checks here next flag =>
      rcases flag with ⟨_, rfl⟩ | ⟨_, rfl⟩ <;> contradiction
  | takes folded here some next dirty =>
      rcases dirty with rfl | rfl <;> contradiction
  | timesOut folded here none next ended =>
      rcases ended with ⟨_, rfl⟩ | ⟨_, rfl⟩ <;> contradiction
  | writes p here => contradiction
  | fails here absent => contradiction
  | copies here snapshot present => contradiction
  | grants here pending => contradiction
  | skips here calm => contradiction

omit [DecidableEq Path] in
theorem fileSeen_le (booked : s.Booked) : s.fileSeen ≤ s.log.length := by
  unfold Saving.fileSeen
  cases found : s.file s.path with
  | none => exact Nat.zero_le _
  | some snapshot => exact (booked.file s.path snapshot found).seen

theorem newer_move (settled : s.Settled) (booked : s.Booked) (move : SaverMove s s')
    (written : s'.saver = .written) (snapshot : Snapshot)
    (present : s'.temp s'.path = some snapshot) :
    s'.fileSeen ≤ s'.base ∨ s'.fileSeen ≤ snapshot.seen := by
  cases move with
  | writes path here =>
      by_cases same : path = s.path
      · subst same
        simp only [setFile_self, Option.some.injEq] at present
        subst present
        have bound := fileSeen_le booked
        exact .inr bound
      · exact .inl (settled.stale path here same)
  | checks here next flag =>
      rcases flag with ⟨_, rfl⟩ | ⟨_, rfl⟩ <;> contradiction
  | takes folded here some next dirty =>
      rcases dirty with rfl | rfl <;> contradiction
  | timesOut folded here none next ended =>
      rcases ended with ⟨_, rfl⟩ | ⟨_, rfl⟩ <;> contradiction
  | opens here => contradiction
  | fails here absent => contradiction
  | copies here other found => contradiction
  | grants here pending => contradiction
  | skips here calm => contradiction

theorem Saving.Settled.move (settled : s.Settled) (booked : s.Booked) (counted : s.Counted)
    (move : SaverMove s s') : s'.Settled := by
  obtain ⟨_, log, base, _, _, inFlight, changer, _, before⟩ := move.frame
  refine ⟨?_, fun path => stale_move move path, newer_move settled booked move, ?_, ?_,
    ?_, ?_⟩
  · rw [log, base, inFlight]
    exact fun i landed fresh returned => work_move settled move landed fresh returned
  · rw [log, base, changer]
    exact fun waiting pending i landed fresh =>
      swap_move settled counted move waiting pending landed fresh
  · rw [log, base, changer]
    exact fun waiting ready i landed fresh => ready_move settled move waiting ready landed fresh
  · rw [log, base, changer]
    exact fun granted i landed fresh =>
      held_move settled move fresh (settled.granted granted i landed fresh)
  · rw [before, base]
    exact fun i member fresh => exit_move settled counted move member fresh

theorem Saving.Counted.move (counted : s.Counted) (move : SaverMove s s') : s'.Counted := by
  obtain ⟨tokens, quiet, running, ended, returned⟩ := counted
  cases move with
  | checks here next flag =>
      refine ⟨tokens, quiet, running, fun finished => ?_, returned⟩
      rcases flag with ⟨exited, _⟩ | ⟨_, rfl⟩
      · exact exited
      · contradiction
  | takes folded here some next dirty =>
      refine ⟨tokens, quiet, running, fun finished => ?_, returned⟩
      rcases dirty with rfl | rfl <;> contradiction
  | timesOut folded here none next ended =>
      refine ⟨tokens, quiet, running, fun finished => ?_, returned⟩
      rcases ended with ⟨_, rfl⟩ | ⟨_, rfl⟩ <;> contradiction
  | opens here => exact ⟨tokens, quiet, running, fun finished => by contradiction, returned⟩
  | writes path here => exact ⟨tokens, quiet, running, fun finished => by contradiction, returned⟩
  | fails here absent => exact ⟨tokens, quiet, running, fun finished => by contradiction, returned⟩
  | copies here snapshot present =>
      exact ⟨tokens, quiet, running, fun finished => by contradiction, returned⟩
  | grants here pending =>
      refine ⟨?_, quiet, running, fun finished => by contradiction, returned⟩
      rw [← tokens]
      dsimp only
      omega
  | skips here calm => exact ⟨tokens, quiet, running, fun finished => by contradiction, returned⟩

omit [DecidableEq Path] in
theorem mem_returned : i ∈ s.returned ↔ i < s.log.length ∧ i ∉ s.inFlight := by
  simp [Saving.returned]

theorem Saving.Counted.step {l : SavingLabel Path} (counted : s.Counted)
    (step : SavingMove s l s') : s'.Counted := by
  obtain ⟨tokens, quiet, running, ended, returned⟩ := counted
  cases step with
  | write call free =>
      refine ⟨tokens, fun busy => absurd free busy, running, ended, fun i member => ?_⟩
      obtain ⟨landed, absent⟩ := returned i member
      simp only [List.length_append, List.length_singleton, List.mem_append,
        List.mem_singleton, not_or]
      exact ⟨by omega, absent, by omega⟩
  | returns i pending =>
      refine ⟨tokens, fun busy => ?_, running, ended, fun j member => ?_⟩
      · rw [quiet busy] at pending
        contradiction
      · obtain ⟨landed, absent⟩ := returned j member
        exact ⟨landed, fun still => absent (List.mem_filter.mp still).1⟩
  | saver move => exact (Saving.Counted.mk tokens quiet running ended returned).move move
  | change free empty =>
      rw [if_neg (by simp [free])] at tokens
      exact ⟨by simp; omega, fun _ => empty, running, ended, returned⟩
  | granted waiting answered =>
      rw [if_pos waiting] at tokens
      exact ⟨by simp; omega, fun _ => quiet (by simp [waiting]), running, ended, returned⟩
  | switch path answered =>
      rw [if_neg (by simp [answered])] at tokens
      exact ⟨tokens, fun _ => quiet (by simp [answered]), running, ended, returned⟩
  | reload reloading =>
      rw [if_neg (by simp [reloading])] at tokens
      exact ⟨tokens, fun busy => absurd rfl busy, running, ended, returned⟩
  | exit off =>
      exact ⟨tokens, quiet, fun off => by contradiction, fun _ => rfl,
        fun i member => mem_returned.mp member⟩

omit [DecidableEq Path] in
theorem Saving.Settled.reload (booked : s.Booked) (counted : s.Counted) :
    Saving.Settled
      { s with
        buffer := readSaveFile s
        loaded := readSaveFile s
        base := s.log.length
        changer := .idle } := by
  have bound := fileSeen_le booked
  refine ⟨fun i landed fresh => absurd landed (Nat.not_lt.mpr fresh), fun _ _ _ => bound,
    fun _ _ _ => .inl bound, fun waiting => by contradiction, fun waiting => by contradiction,
    fun granted => by contradiction, fun i member fresh => ?_⟩
  exact absurd (counted.returned i member).1 (Nat.not_lt.mpr fresh)

theorem Saving.Settled.step {l : SavingLabel Path} (settled : s.Settled) (booked : s.Booked)
    (counted : s.Counted) (keeps : KeepsWrites s l) (step : SavingMove s l s')
    (home : s'.changer ≠ .reloading) : s'.Settled := by
  obtain ⟨work, stale, newer, swap, ready, granted, exit⟩ := settled
  cases step with
  | write call free =>
      refine ⟨fun i landed fresh absent => ?_, stale, newer, fun waiting => ?_,
        fun waiting => ?_, fun given => ?_, exit⟩
      · simp only [List.length_append, List.length_singleton, List.mem_append,
          List.mem_singleton, not_or] at landed absent
        exact work i (by omega) fresh absent.1
      · exact absurd (free.symm.trans waiting) (by simp)
      · exact absurd (free.symm.trans waiting) (by simp)
      · exact absurd (free.symm.trans given) (by simp)
  | returns i pending =>
      exact ⟨fun _ _ _ _ => .inl (Nat.succ_pos _), stale, newer, swap, ready, granted, exit⟩
  | saver move =>
      exact (Saving.Settled.mk work stale newer swap ready granted exit).move booked counted move
  | change free quiet =>
      have tokens := counted.tokens
      rw [if_neg (by simp [free])] at tokens
      refine ⟨work, stale, newer, fun _ _ => keeps, fun _ some => ?_, fun given => ?_, exit⟩
      · have none : s.swapReady = 0 := by omega
        exact absurd none (Nat.ne_of_gt some)
      · contradiction
  | granted waiting answered =>
      exact ⟨work, stale, newer, fun again => by contradiction, fun again => by contradiction,
        fun _ => ready waiting answered, exit⟩
  | switch path answered => exact absurd rfl home
  | reload reloading => exact .reload booked counted
  | exit running => exact ⟨work, stale, newer, swap, ready, granted, keeps.resolve_left home⟩

theorem settled_of_reloading {l : SavingLabel Path} (booked : s.Booked) (counted : s.Counted)
    (step : SavingMove s l s') (reloading : s.changer = .reloading)
    (home : s'.changer ≠ .reloading) : s'.Settled := by
  cases step with
  | reload _ => exact .reload booked counted
  | write call free => exact absurd (free.symm.trans reloading) (by simp)
  | change free quiet => exact absurd (free.symm.trans reloading) (by simp)
  | granted waiting answered => exact absurd (waiting.symm.trans reloading) (by simp)
  | switch path answered => exact absurd rfl home
  | returns i pending => exact absurd reloading home
  | saver move =>
      obtain ⟨_, _, _, _, _, _, changer, _⟩ := move.frame
      exact absurd (changer.trans reloading) home
  | exit running => exact absurd reloading home

structure Saving.Sound (s : Saving Path) : Prop where
  booked : s.Booked
  counted : s.Counted
  settled : s.changer ≠ .reloading → s.Settled

theorem Saving.Sound.step {l : SavingLabel Path} (sound : s.Sound) (keeps : KeepsWrites s l)
    (taken : savingStep s l = some s') : s'.Sound := by
  have step := savingStep_move taken
  refine ⟨sound.booked.step step, sound.counted.step step, fun home => ?_⟩
  by_cases reloading : s.changer = .reloading
  · exact settled_of_reloading sound.booked sound.counted step reloading home
  · exact (sound.settled reloading).step sound.booked sound.counted keeps step home

omit [DecidableEq Path] in
theorem started_sound (started : SavingStarted s) : s.Sound := by
  obtain ⟨old, loaded, ⟨_, pending, ready⟩, saver, changer, running, ⟨base, log, inFlight, before⟩⟩ :=
    started
  have records : ∀ path snapshot, s.file path = some snapshot ∨ s.temp path = some snapshot →
      Records s.loaded s.base s.log snapshot := fun path snapshot found =>
    ⟨by rw [old path snapshot found]; exact Nat.zero_le _,
      fun later => by rw [old path snapshot found] at later; exact absurd later (Nat.not_lt_zero _)⟩
  refine ⟨⟨by simp [base], by simp [log, loaded, applyCalls], fun p c found => records p c (.inl found),
    fun p c found => records p c (.inr found)⟩, ⟨?_, ?_, fun _ => before, ?_, ?_⟩, fun _ => ?_⟩
  · simp [pending, ready, changer]
  · simp [changer]
  · simp [saver]
  · simp [before]
  · refine ⟨?_, ?_, ?_, ?_, ?_, ?_, ?_⟩
    all_goals simp [log, saver, changer, before]

omit [DecidableEq Path] in
theorem Saving.Booked.contains (booked : s.Booked) (fresh : s.base ≤ i) (held : i < s.fileSeen) :
    s.Contains i := by
  unfold Saving.fileSeen at held
  cases found : s.file s.path with
  | none =>
      rw [found] at held
      exact absurd held (Nat.not_lt_zero _)
  | some snapshot =>
      rw [found, Option.elim_some] at held
      exact ⟨snapshot, found, held,
        (booked.file s.path snapshot found).content (Nat.lt_of_le_of_lt fresh held)⟩

end Settled

/-- While no change of the file is asked for, and the exit flag not set, with a
write left behind by the saving thread, no write is lost. -/
theorem nothing_lost {s : Saving Path} (reached : Reach savingStep KeepsWrites SavingStarted s) :
    s.NothingLost := by
  have sound : s.Sound := reached.invariant (fun _ => started_sound)
    fun _ _ _ before keeps taken => before.step keeps taken
  refine ⟨fun granted i landed fresh => ?_, fun finished home i member fresh => ?_⟩
  · have settled := sound.settled (by simp [granted])
    exact sound.booked.contains fresh (settled.granted granted i landed fresh)
  · have safe := (sound.settled home).exit i member fresh
    rw [finished] at safe
    exact sound.booked.contains fresh safe

def freshStart : Saving Nat where
  buffer := [0, 0]
  blankValue := 0
  path := 0
  file := fun _ => none
  temp := fun _ => none
  writeSemaphore := 0
  swapPending := 0
  swapReady := 0
  exited := false
  saver := .exitCheck
  changer := .idle
  loaded := [0, 0]
  base := 0
  log := []
  inFlight := []
  beforeExit := []

theorem freshStart_started : SavingStarted freshStart :=
  ⟨fun _ _ found => by rcases found with found | found <;> contradiction, rfl, ⟨rfl, rfl, rfl⟩, rfl,
    rfl, rfl, rfl, rfl, rfl, rfl⟩

theorem nothing_lost_small : ∃ s, Reach savingStep KeepsWrites SavingStarted s ∧
    s.saver = .finished ∧ s.path = 1 ∧ s.file 0 = some ⟨[7, 0], 1⟩ ∧ s.Contains 1 := by
  obtain ⟨s, ran, saver, path, old, changer, before, base⟩ : ∃ s,
      run savingStep KeepsWrites freshStart
        [.write (.saveWrite [7] 0), .returns 0, .saver, .change, .saver, .saver, .saver, .saver,
          .saver, .saver, .granted, .switch 1, .reload, .write (.saveClear 1 1 9),
          .returns 1, .saver, .saver, .exit, .saver, .saver, .saver, .saver, .saver,
          .saver] = some s ∧ s.saver = .finished ∧ s.path = 1 ∧ s.file 0 = some ⟨[7, 0], 1⟩ ∧
      s.changer = .idle ∧ s.beforeExit = [0, 1] ∧ s.base = 1 :=
    ⟨_, rfl, rfl, rfl, rfl, rfl, rfl, rfl⟩
  have reached : Reach savingStep KeepsWrites SavingStarted s :=
    reach_of_run _ freshStart_started ran
  exact ⟨s, reached, saver, path, old,
    (nothing_lost reached).exit saver (by simp [changer]) 1 (by simp [before]) (by simp [base])⟩

/-- A write lands between the end of the loop and the swap check. -/
theorem gap_write_lost : ¬ ∀ s : Saving Nat, Reach savingStep Always SavingStarted s →
    s.NothingLost := by
  intro always
  obtain ⟨s, ran, granted, log, base, file⟩ : ∃ s, run savingStep Always freshStart
      [.saver, .saver, .write (.saveWrite [7] 0), .returns 0, .change, .saver, .granted] = some s ∧
      s.changer = .granted ∧ s.log.length = 1 ∧ s.base = 0 ∧ s.file s.path = none :=
    ⟨_, rfl, rfl, rfl, rfl, rfl⟩
  have reached : Reach savingStep Always SavingStarted s :=
    reach_of_run _ freshStart_started ran
  obtain ⟨snapshot, found, _⟩ := (always s reached).switch granted 0 (by omega) (by omega)
  rw [file] at found
  contradiction

end N64ModernRuntime.Librecomp
