import N64ModernRuntime.Lib.Transition

/-!
# files.cpp: saves through a temporary and a backup file

`update_save_file` writes the buffer to the .temp file and then copies the
primary file to .bak and .temp to the primary.  A copy truncates its target and
then writes it; the process may end before any step, and a write may be cut short.
-/

set_option autoImplicit false

namespace N64ModernRuntime.Librecomp

open Transition

abbrev Bytes := List UInt8

inductive SaveFilePc where
  | idle
  /-- the temp file is open and empty -/
  | writing (buffer : Bytes)
  /-- at the head of `finalize_output_file_with_backup` -/
  | finalizing
  /-- the backup is open and empty -/
  | copyingBackup
  | backedUp
  /-- the primary is open and empty -/
  | copyingPrimary
  | removing
  deriving DecidableEq, Repr

/-- The three files of one save path.  `handed` is the log of the buffers that
were handed to a save, `completed` counts the saves that returned without failure. -/
structure SaveFiles where
  primary : Option Bytes
  backup : Option Bytes
  temp : Option Bytes
  pc : SaveFilePc
  handed : List Bytes
  completed : Nat

/-- `opened` says whether a file could be opened for writing, and `written` how
many bytes reached it. -/
inductive SaveFileLabel where
  | openTemp (buffer : Bytes) (opened : Bool)
  | writeTemp (written : Nat)
  | openBackup (opened : Bool)
  | writeBackup (written : Nat)
  | openPrimary (opened : Bool)
  | writePrimary (written : Nat)
  | removeTemp (removed : Bool)
  /-- the process ends, and another one starts over the same files -/
  | crash
  deriving DecidableEq, Repr

/-- `copy_file` fails where it could not write the whole of its source. -/
def copied (source : Bytes) (written : Nat) (next : SaveFilePc) : SaveFilePc :=
  if written < source.length then .idle else next

def saveFileStep (s : SaveFiles) : SaveFileLabel → Option SaveFiles
  | .openTemp buffer opened =>
      if s.pc = .idle then
        let s := { s with handed := s.handed ++ [buffer] }
        some (if opened then { s with temp := some [], pc := .writing buffer } else s)
      else none
  | .writeTemp written =>
      match s.pc with
      -- nothing looks at the state of the stream after the write
      | .writing buffer => some { s with temp := some (buffer.take written), pc := .finalizing }
      | _ => none
  | .openBackup opened =>
      if s.pc = .finalizing then
        match s.primary with
        | none => some { s with pc := .backedUp }
        | some _ =>
            some (if opened then { s with backup := some [], pc := .copyingBackup }
              else { s with pc := .idle })
      else none
  | .writeBackup written =>
      match s.pc, s.primary with
      | .copyingBackup, some bytes =>
          some { s with backup := some (bytes.take written), pc := copied bytes written .backedUp }
      | _, _ => none
  | .openPrimary opened =>
      if s.pc = .backedUp then
        some (if s.temp.isSome && opened then { s with primary := some [], pc := .copyingPrimary }
          else { s with pc := .idle })
      else none
  | .writePrimary written =>
      match s.pc, s.temp with
      | .copyingPrimary, some bytes =>
          some { s with primary := some (bytes.take written), pc := copied bytes written .removing }
      | _, _ => none
  | .removeTemp removed =>
      if s.pc = .removing then
        some { s with
          temp := if removed then none else s.temp
          pc := .idle
          completed := s.completed + 1 }
      else none
  | .crash => some { s with pc := .idle }

/-- A file that exists can be opened for reading. -/
def SaveFiles.openInputFileWithBackup (s : SaveFiles) : Option Bytes :=
  match s.primary with
  | some bytes => some bytes
  | none => s.backup

/-- Before the first save, over files of any content. -/
def NothingSaved (s : SaveFiles) : Prop := s.pc = .idle ∧ s.handed = [] ∧ s.completed = 0

/-- After a completed save the reader gets a whole buffer of some save. -/
def SaveFiles.Recoverable (s : SaveFiles) : Prop :=
  s.pc = .idle → 0 < s.completed → ∃ buffer ∈ s.handed, s.openInputFileWithBackup = some buffer

/-- The copy onto the primary file is of a whole buffer, and once there is a
completed save it comes to its end. -/
def ReplacesWhole (s : SaveFiles) : SaveFileLabel → Prop
  | .openPrimary opened => opened = true → ∃ buffer ∈ s.handed, s.temp = some buffer
  | .writePrimary written => 0 < s.completed → ∀ bytes ∈ s.temp, bytes.length ≤ written
  | .crash => 0 < s.completed → s.pc ≠ .copyingPrimary
  | _ => True

instance (s : SaveFiles) : ∀ l : SaveFileLabel, Decidable (ReplacesWhole s l)
  | .openPrimary opened =>
      inferInstanceAs (Decidable (opened = true → ∃ buffer ∈ s.handed, s.temp = some buffer))
  | .writePrimary written =>
      inferInstanceAs (Decidable (0 < s.completed → ∀ bytes ∈ s.temp, bytes.length ≤ written))
  | .crash => inferInstanceAs (Decidable (0 < s.completed → s.pc ≠ .copyingPrimary))
  | .openTemp _ _ | .writeTemp _ | .openBackup _ | .writeBackup _ | .removeTemp _ => isTrue trivial

/-! ## The primary file is whole outside the copy onto it -/

def SaveFiles.Whole (s : SaveFiles) (file : Option Bytes) : Prop :=
  ∃ buffer ∈ s.handed, file = some buffer

structure SaveFiles.Intact (s : SaveFiles) : Prop where
  primary : 0 < s.completed → s.pc ≠ .copyingPrimary → s.Whole s.primary
  /-- so the first save completes over a whole file too -/
  removing : s.pc = .removing → s.Whole s.primary
  /-- during the copy the temp file is the whole one -/
  temp : s.pc = .copyingPrimary → s.Whole s.temp

section Step
variable {s s' : SaveFiles}

/-- A step outside the copy onto the primary file that leaves that file alone. -/
theorem SaveFiles.Intact.of_primary (intact : s.Intact) (before : s.pc ≠ .copyingPrimary)
    (same : s'.primary = s.primary) (handed : ∀ buffer ∈ s.handed, buffer ∈ s'.handed)
    (completed : s'.completed = s.completed) (after : s'.pc ≠ .copyingPrimary)
    (next : s'.pc ≠ .removing) : s'.Intact := by
  refine ⟨fun some _ => ?_, fun removing => absurd removing next,
    fun copying => absurd copying after⟩
  obtain ⟨buffer, member, whole⟩ := intact.primary (completed ▸ some) before
  exact ⟨buffer, handed buffer member, same.trans whole⟩

theorem SaveFiles.Intact.openPrimary {opened : Bool} (intact : s.Intact) (here : s.pc = .backedUp)
    (whole : ReplacesWhole s (.openPrimary opened))
    (taken : saveFileStep s (.openPrimary opened) = some s') : s'.Intact := by
  simp only [saveFileStep, if_pos here] at taken
  split at taken
  · rename_i opens
    cases taken
    have temp : s.Whole s.temp := whole (Bool.and_eq_true_iff.mp opens).2
    exact ⟨fun _ elsewhere => absurd rfl elsewhere, fun removing => by contradiction,
      fun _ => temp⟩
  · cases taken
    exact intact.of_primary (by simp [here]) rfl (fun _ => id) rfl (by simp) (by simp)

theorem SaveFiles.Intact.writePrimary {written : Nat} (intact : s.Intact)
    (whole : ReplacesWhole s (.writePrimary written))
    (taken : saveFileStep s (.writePrimary written) = some s') : s'.Intact := by
  simp only [saveFileStep] at taken
  split at taken
  · rename_i bytes here temp
    cases taken
    obtain ⟨buffer, member, same⟩ := intact.temp here
    have handed : bytes ∈ s.handed := Option.some.inj (temp.symm.trans same) ▸ member
    have finished : bytes.length ≤ written → s.Whole (some (bytes.take written)) := fun complete =>
      ⟨bytes, handed, by rw [List.take_of_length_le complete]⟩
    refine ⟨fun some _ => finished (whole some bytes temp), fun removing => ?_,
      fun copying => ?_⟩
    · by_cases short : written < bytes.length
      · simp only [copied, if_pos short] at removing
        contradiction
      · exact finished (Nat.not_lt.mp short)
    · by_cases short : written < bytes.length
      · simp only [copied, if_pos short] at copying
        contradiction
      · simp only [copied, if_neg short] at copying
        contradiction
  · contradiction

theorem SaveFiles.Intact.step {l : SaveFileLabel} (intact : s.Intact) (whole : ReplacesWhole s l)
    (taken : saveFileStep s l = some s') : s'.Intact := by
  cases l with
  | openTemp buffer opened =>
      simp only [saveFileStep] at taken
      split at taken
      · rename_i idle
        have grown : ∀ bytes ∈ s.handed, bytes ∈ s.handed ++ [buffer] :=
          fun bytes member => List.mem_append.mpr (.inl member)
        cases opened with
        | true =>
            cases taken
            exact intact.of_primary (by simp [idle]) rfl grown rfl (by simp) (by simp)
        | false =>
            cases taken
            exact intact.of_primary (by simp [idle]) rfl grown rfl (by simp [idle]) (by simp [idle])
      · contradiction
  | writeTemp written =>
      simp only [saveFileStep] at taken
      split at taken
      · rename_i buffer here
        cases taken
        exact intact.of_primary (by simp [here]) rfl (fun _ => id) rfl (by simp) (by simp)
      · contradiction
  | openBackup opened =>
      simp only [saveFileStep] at taken
      split at taken
      · rename_i here
        split at taken
        · cases taken
          exact intact.of_primary (by simp [here]) rfl (fun _ => id) rfl (by simp) (by simp)
        · cases opened <;> cases taken <;>
            exact intact.of_primary (by simp [here]) rfl (fun _ => id) rfl (by simp) (by simp)
      · contradiction
  | writeBackup written =>
      simp only [saveFileStep] at taken
      split at taken
      · rename_i bytes here _
        cases taken
        refine intact.of_primary (by simp [here]) rfl (fun _ => id) rfl ?_ ?_
        all_goals
          simp only [copied]
          split <;> simp
      · contradiction
  | openPrimary opened =>
      by_cases here : s.pc = .backedUp
      · exact intact.openPrimary here whole taken
      · simp [saveFileStep, here] at taken
  | writePrimary written => exact intact.writePrimary whole taken
  | removeTemp removed =>
      simp only [saveFileStep] at taken
      split at taken
      · rename_i here
        cases taken
        have whole := intact.removing here
        exact ⟨fun _ _ => whole, fun removing => by contradiction, fun copying => by contradiction⟩
      · contradiction
  | crash =>
      cases taken
      exact ⟨fun some _ => intact.primary some (whole some), fun removing => by contradiction,
        fun copying => by contradiction⟩

end Step

/-- While every copy onto the primary file is of a whole buffer and, after the
first completed save, comes to its end, the file that is opened holds such a
buffer, whatever else fails and wherever else the process ends. -/
theorem recoverable_of_replacesWhole {s : SaveFiles}
    (reached : Reach saveFileStep ReplacesWhole NothingSaved s) : s.Recoverable := by
  have intact : s.Intact := by
    refine reached.invariant ?_ fun _ _ _ before whole taken => before.step whole taken
    rintro s ⟨pc, _, completed⟩
    exact ⟨by simp [completed], by simp [pc], by simp [pc]⟩
  intro idle completed
  obtain ⟨buffer, member, whole⟩ := intact.primary completed (by simp [idle])
  exact ⟨buffer, member, by simp [SaveFiles.openInputFileWithBackup, whole]⟩

/-- A save of which no step fails: the primary file is the buffer, the backup what
the primary file was. -/
theorem save_completes {s : SaveFiles} (idle : s.pc = .idle) (buffer : Bytes) :
    ∃ ls s', run saveFileStep Always s ls = some s' ∧ s'.primary = some buffer ∧
      s'.temp = none ∧ s'.pc = .idle ∧ s'.completed = s.completed + 1 ∧
      (s.primary.isSome = true → s'.backup = s.primary) := by
  cases old : s.primary with
  | none =>
      refine ⟨[.openTemp buffer true, .writeTemp buffer.length, .openBackup true,
        .openPrimary true, .writePrimary buffer.length, .removeTemp true],
        ⟨some buffer, s.backup, none, .idle, s.handed ++ [buffer], s.completed + 1⟩, ?_, rfl, rfl,
        rfl, rfl, fun present => by contradiction⟩
      simp [run, Always, saveFileStep, idle, old, copied]
  | some bytes =>
      refine ⟨[.openTemp buffer true, .writeTemp buffer.length, .openBackup true,
        .writeBackup bytes.length, .openPrimary true, .writePrimary buffer.length,
        .removeTemp true],
        ⟨some buffer, some bytes, none, .idle, s.handed ++ [buffer], s.completed + 1⟩, ?_, rfl,
        rfl, rfl, rfl, fun _ => rfl⟩
      simp [run, Always, saveFileStep, idle, old, copied]

def noFiles : SaveFiles := ⟨none, none, none, .idle, [], 0⟩

/-- A crash in the first copy of all, a completed save, a crash in the next backup. -/
theorem recoverable_small : ∃ s, Reach saveFileStep ReplacesWhole NothingSaved s ∧
    s.backup = some [1] ∧ ∃ buffer ∈ s.handed, s.openInputFileWithBackup = some buffer := by
  obtain ⟨s, ran, backup, idle, completed⟩ : ∃ s, run saveFileStep ReplacesWhole noFiles
      [.openTemp [0] true, .writeTemp 1, .openBackup true, .openPrimary true, .crash,
        .openTemp [1, 2] true, .writeTemp 2, .openBackup true, .writeBackup 0, .openPrimary true,
        .writePrimary 2, .removeTemp true, .openTemp [3, 4] true, .writeTemp 1, .openBackup true,
        .writeBackup 1, .crash] = some s ∧ s.backup = some [1] ∧ s.pc = .idle ∧ s.completed = 1 :=
    ⟨_, rfl, rfl, rfl, rfl⟩
  have reached : Reach saveFileStep ReplacesWhole NothingSaved s :=
    reach_of_run _ ⟨rfl, rfl, rfl⟩ ran
  exact ⟨s, reached, backup, recoverable_of_replacesWhole reached idle (by simp [completed])⟩

/-- A crash between the truncation of the primary file and its first byte. -/
theorem crash_truncates : ¬ ∀ s, Reach saveFileStep Always NothingSaved s → s.Recoverable := by
  intro always
  obtain ⟨s, ran, primary, idle, completed, handed⟩ : ∃ s, run saveFileStep Always noFiles
      [.openTemp [1, 2] true, .writeTemp 2, .openBackup true, .openPrimary true, .writePrimary 2,
        .removeTemp true, .openTemp [3, 4] true, .writeTemp 2, .openBackup true, .writeBackup 2,
        .openPrimary true, .crash] = some s ∧ s.primary = some [] ∧ s.pc = .idle ∧
      s.completed = 1 ∧ s.handed = [[1, 2], [3, 4]] := ⟨_, rfl, rfl, rfl, rfl, rfl⟩
  have reached : Reach saveFileStep Always NothingSaved s :=
    reach_of_run _ ⟨rfl, rfl, rfl⟩ ran
  obtain ⟨buffer, member, opened⟩ := always s reached idle (by simp [completed])
  simp only [SaveFiles.openInputFileWithBackup, primary, Option.some.injEq] at opened
  rw [handed, ← opened] at member
  exact absurd member (by decide)

end N64ModernRuntime.Librecomp
