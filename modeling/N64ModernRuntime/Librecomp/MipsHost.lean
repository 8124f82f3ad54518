import Mathlib.Tactic.SplitIfs
import N64ModernRuntime.Librecomp.MipsInterp

/-!
# mips_interp.cpp: what an interpretation does to the host

Only a native function sees the detector and the host.  An interpretation that
finds none leaves both as they were and does not depend on them; any other
leaves alone what its native functions do.
-/

set_option autoImplicit false

namespace N64ModernRuntime.Librecomp

section InHost

variable {μ ε ε' : Type}

def Machine.inHost (s : Machine μ ε) (active touched : Bool) (host : ε') : Machine μ ε' :=
  ⟨s.ctx, s.rdram, active, touched, host⟩

def Exec.inHost (result : Exec μ ε) (active touched : Bool) (host : ε') : Exec μ ε' :=
  match result with
  | .done s => .done (s.inHost active touched host)
  | .unimplemented s => .unimplemented (s.inHost active touched host)
  | .fault => .fault

def InterpResult.inHost (result : InterpResult μ ε) (active touched : Bool) (host : ε') :
    InterpResult μ ε' :=
  match result with
  | .returned s => .returned (s.inHost active touched host)
  | .failed s => .failed (s.inHost active touched host)
  | .fault => .fault
  | .outOfFuel => .outOfFuel

variable {active touched : Bool} {host : ε'}

@[simp]
theorem Machine.inHost_setR (s : Machine μ ε) (i : BitVec 5) (v : Gpr) :
    (s.inHost active touched host).setR i v = (s.setR i v).inHost active touched host := by
  unfold Machine.setR
  split <;> rfl

theorem Machine.inHost_self (s : Machine μ ε) :
    s.inHost s.shadowActive s.shadowTouchedNative s.host = s := rfl

theorem Machine.inHost_ite (p : Prop) [Decidable p] (s s' : Machine μ ε) :
    (if p then s else s').inHost active touched host
      = if p then s.inHost active touched host else s'.inHost active touched host :=
  apply_ite (·.inHost active touched host) p s s'

theorem Exec.inHost_ite (p : Prop) [Decidable p] (a b : Exec μ ε) :
    (if p then a else b).inHost active touched host
      = if p then a.inHost active touched host else b.inHost active touched host :=
  apply_ite (·.inHost active touched host) p a b

theorem InterpResult.inHost_ite (p : Prop) [Decidable p] (a b : InterpResult μ ε) :
    (if p then a else b).inHost active touched host
      = if p then a.inHost active touched host else b.inHost active touched host :=
  apply_ite (·.inHost active touched host) p a b

theorem execSpecial_inHost (insn : Insn) (s : Machine μ ε) :
    execSpecial insn (s.inHost active touched host)
      = (execSpecial insn s).inHost active touched host := by
  simp only [execSpecial, Machine.inHost_setR]
  split <;> first
    | rfl
    | (simp only [Exec.inHost_ite]; rfl)
    | (simp only [Exec.inHost, Machine.inHost_ite]; rfl)

theorem execCop1Compute_inHost (fp : HostFloat) (insn : Insn) (s : Machine μ ε) :
    execCop1Compute fp insn (s.inHost active touched host)
      = (execCop1Compute fp insn s).inHost active touched host := by
  simp only [execCop1Compute]
  split <;> first
    | rfl
    | (simp only [Exec.inHost_ite]; rfl)
    | (simp only [Exec.inHost, Machine.inHost_ite]; rfl)

theorem execCop1_inHost (fp : HostFloat) (insn : Insn) (s : Machine μ ε) :
    execCop1 fp insn (s.inHost active touched host)
      = (execCop1 fp insn s).inHost active touched host := by
  simp only [execCop1, Machine.inHost_setR]
  split <;> first | rfl | exact execCop1Compute_inHost fp insn s

theorem execNoncontrol_inHost (fp : HostFloat) (H : RecompH μ) (insn : Insn)
    (s : Machine μ ε) :
    execNoncontrol fp H insn (s.inHost active touched host)
      = (execNoncontrol fp H insn s).inHost active touched host := by
  simp only [execNoncontrol, Machine.inHost_setR]
  split <;> first
    | rfl
    | exact execSpecial_inHost insn s
    | exact execCop1_inHost fp insn s
    | exact congrArg Exec.done (Machine.inHost_setR (s.setRdram _) _ _)

theorem execDelaySlot_inHost (fp : HostFloat) (H : RecompH μ) (pc : BitVec 32)
    (s : Machine μ ε) :
    execDelaySlot H fp pc (s.inHost active touched host)
      = (execDelaySlot H fp pc s).inHost active touched host :=
  execNoncontrol_inHost fp H _ s

theorem Machine.inHost_link (s : Machine μ ε) (link : Bool) (i : BitVec 5) (v : Gpr) :
    (if link then (s.inHost active touched host).setR i v else s.inHost active touched host)
      = (if link then s.setR i v else s).inHost active touched host := by
  rw [Machine.inHost_setR, Machine.inHost_ite]

theorem decodeBranch_inHost (insn : Insn) (s : Machine μ ε) :
    decodeBranch insn (s.inHost active touched host) = decodeBranch insn s := rfl

theorem Exec.andThen_inHost {result : Exec μ ε} {next : Machine μ ε → InterpResult μ ε}
    {next' : Machine μ ε' → InterpResult μ ε'}
    (same : ∀ s, next' (s.inHost active touched host) = (next s).inHost active touched host) :
    (result.inHost active touched host).andThen next'
      = (result.andThen next).inHost active touched host := by
  cases result with
  | done s => exact same s
  | unimplemented s => rfl
  | fault => rfl

theorem InterpResult.andThen_inHost {result : InterpResult μ ε}
    {next : Machine μ ε → InterpResult μ ε} {next' : Machine μ ε' → InterpResult μ ε'}
    (same : ∀ s, next' (s.inHost active touched host) = (next s).inHost active touched host) :
    (result.inHost active touched host).andThen next'
      = (result.andThen next).inHost active touched host := by
  cases result with
  | returned s => exact same s
  | failed s => rfl
  | fault => rfl
  | outOfFuel => rfl

end InHost

section Loop

variable {μ ε ε' : Type} {H : RecompH μ} {fp : HostFloat} {active touched : Bool}
  {host : ε'}

abbrev noNative (μ ε : Type) : LookupFunction μ ε := fun _ _ => none

/-- The loop does the same under every detector and host. -/
def Blind (active touched : Bool) (host : ε') (loop : Continue μ ε) (loop' : Continue μ ε') :
    Prop :=
  ∀ (returnTarget pc : BitVec 32) (depth : Nat) (s : Machine μ ε),
    loop' returnTarget pc depth (s.inHost active touched host)
      = (loop returnTarget pc depth s).inHost active touched host

section Cases

variable {loop : Continue μ ε} {loop' : Continue μ ε'} {returnTarget pc : BitVec 32}
  {depth : Nat}

theorem Blind.transfer (blind : Blind active touched host loop loop') (link : Bool)
    (target : BitVec 32) (s : Machine μ ε) :
    interpretTransfer (noNative μ ε') loop' returnTarget pc depth link target
        (s.inHost active touched host)
      = (interpretTransfer (noNative μ ε) loop returnTarget pc depth link target s).inHost
          active touched host := by
  cases link with
  | false => exact blind returnTarget target depth s
  | true =>
      simp only [interpretTransfer, if_true]
      rw [← InterpResult.andThen_inHost fun s => blind returnTarget (pc + 8) depth s]
      congr 1
      split
      · rfl
      · exact blind _ _ _ s

theorem Blind.branch (blind : Blind active touched host loop loop') (b : Branch)
    (s : Machine μ ε) :
    interpretBranch H fp loop' returnTarget pc depth b (s.inHost active touched host)
      = (interpretBranch H fp loop returnTarget pc depth b s).inHost active touched host := by
  obtain ⟨take, likely, link⟩ := b
  simp only [interpretBranch, Machine.inHost_link, execDelaySlot_inHost]
  cases likely with
  | false => exact Exec.andThen_inHost fun s => blind _ _ _ s
  | true =>
      cases take with
      | false => exact blind _ _ _ _
      | true => exact Exec.andThen_inHost fun s => blind _ _ _ s

end Cases

theorem interpretLoop_inHost (fuel : Nat) :
    Blind active touched host (interpretLoop H fp (noNative μ ε) fuel)
      (interpretLoop H fp (noNative μ ε') fuel) := by
  induction fuel with
  | zero => intro returnTarget pc depth s; rfl
  | succ fuel blind =>
      intro returnTarget pc depth s
      have fetched : ifetch H (s.inHost active touched host).rdram pc
        = ifetch H s.rdram pc := rfl
      simp only [interpretLoop, fetched]
      split
      · rfl
      cases (ifetch H s.rdram pc).control with
      | jump link =>
          simp only [Machine.inHost_link, execDelaySlot_inHost]
          exact Exec.andThen_inHost fun s => blind.transfer link _ s
      | jumpRegister link =>
          simp only [Machine.inHost_link, execDelaySlot_inHost]
          refine Exec.andThen_inHost fun after => ?_
          simp only [InterpResult.inHost_ite, ← blind.transfer]
          rfl
      | branch =>
          simp only [decodeBranch_inHost]
          cases decodeBranch (ifetch H s.rdram pc) s with
          | some b => exact blind.branch b s
          | none => rfl
      | cop1Branch => exact blind.branch _ s
      | none =>
          simp only [execNoncontrol_inHost]
          exact Exec.andThen_inHost fun s => blind _ _ _ s

/-- Code that finds no native function runs alike under every detector and
host, and leaves them as they are. -/
theorem leaf_inHost (fuel : Nat) (startPc : BitVec 32) (s : Machine μ ε) :
    recompInterpretFunction H fp (noNative μ ε') fuel startPc
        (s.inHost active touched host)
      = (recompInterpretFunction H fp (noNative μ ε) fuel startPc s).inHost
          active touched host := by
  simp only [recompInterpretFunction, interpret]
  split
  · rfl
  · exact interpretLoop_inHost fuel _ _ _ s

end Loop

section KeepsHost

variable {μ ε γ : Type} {H : RecompH μ} {fp : HostFloat} {lookup : LookupFunction μ ε}
  {p : ε → γ}

def InterpResult.state (result : InterpResult μ ε) : Option (Machine μ ε) :=
  match result with
  | .returned s => some s
  | .failed s => some s
  | .fault => none
  | .outOfFuel => none

/-- The native functions that are found leave `p` of the host as it is. -/
def QuietLookup (p : ε → γ) (lookup : LookupFunction μ ε) : Prop :=
  ∀ (s : Machine μ ε) (target : BitVec 32) (nf : Machine μ ε → Machine μ ε),
    lookup s target = some nf → ∀ t : Machine μ ε, p (nf t).host = p t.host

def InterpResult.Keeps (p : ε → γ) (h : γ) (result : InterpResult μ ε) : Prop :=
  ∀ s', result.state = some s' → p s'.host = h

def QuietLoop (p : ε → γ) (loop : Continue μ ε) : Prop :=
  ∀ (returnTarget pc : BitVec 32) (depth : Nat) (s : Machine μ ε),
    (loop returnTarget pc depth s).Keeps p (p s.host)

theorem InterpResult.keeps_returned {s : Machine μ ε} :
    (InterpResult.returned s).Keeps p (p s.host) := by
  rintro s' ⟨⟩
  rfl

theorem InterpResult.keeps_failed {s : Machine μ ε} :
    (InterpResult.failed s).Keeps p (p s.host) := by
  rintro s' ⟨⟩
  rfl

theorem Exec.andThen_keeps {insn : Insn} {s : Machine μ ε}
    {next : Machine μ ε → InterpResult μ ε} (quiet : ∀ t, (next t).Keeps p (p t.host)) :
    ((execNoncontrol fp H insn s).andThen next).Keeps p (p s.host) := by
  have same : execNoncontrol fp H insn (s.inHost s.shadowActive s.shadowTouchedNative s.host) = _ :=
    execNoncontrol_inHost fp H insn s
  rw [s.inHost_self] at same
  cases result : execNoncontrol fp H insn s with
  | done t =>
      rw [result] at same
      obtain host : t = t.inHost _ _ s.host := Exec.done.inj same
      rw [host]
      exact quiet _
  | unimplemented t =>
      rw [result] at same
      obtain host : t = t.inHost _ _ s.host := Exec.unimplemented.inj same
      rw [host]
      exact InterpResult.keeps_failed
  | fault =>
      rintro s' ⟨⟩

theorem InterpResult.andThen_keeps {h : γ} {result : InterpResult μ ε}
    {next : Machine μ ε → InterpResult μ ε} (kept : result.Keeps p h)
    (quiet : ∀ t, (next t).Keeps p (p t.host)) : (result.andThen next).Keeps p h := by
  cases result with
  | returned t =>
      rw [← kept t rfl]
      exact quiet t
  | failed t => exact kept
  | fault => exact kept
  | outOfFuel => exact kept

section Cases

variable {loop : Continue μ ε} {returnTarget pc : BitVec 32} {depth : Nat}

theorem QuietLoop.transfer (quiet : QuietLoop p loop) (natives : QuietLookup p lookup)
    (link : Bool) (target : BitVec 32) (s : Machine μ ε) :
    (interpretTransfer lookup loop returnTarget pc depth link target s).Keeps p (p s.host) := by
  unfold interpretTransfer
  cases found : lookup s target with
  | some nf =>
      have called : p (nf (noteNativeCall s)).host = p s.host := by
        rw [natives s target nf found]
        unfold noteNativeCall
        split <;> rfl
      rw [← called]
      cases link with
      | false => exact InterpResult.keeps_returned
      | true => exact quiet _ _ _ _
  | none =>
      cases link with
      | false => exact quiet _ _ _ s
      | true =>
          refine InterpResult.andThen_keeps ?_ (quiet returnTarget (pc + 8) depth)
          split
          · exact InterpResult.keeps_failed
          · exact quiet _ _ _ s

theorem Machine.setR_host (s : Machine μ ε) (i : BitVec 5) (v : Gpr) :
    (s.setR i v).host = s.host := by
  unfold Machine.setR
  split <;> rfl

theorem Machine.link_host (s : Machine μ ε) (link : Bool) (i : BitVec 5) (v : Gpr) :
    (if link then s.setR i v else s).host = s.host := by
  split
  · exact s.setR_host i v
  · rfl

theorem QuietLoop.branch (quiet : QuietLoop p loop) (b : Branch) (s : Machine μ ε) :
    (interpretBranch H fp loop returnTarget pc depth b s).Keeps p (p s.host) := by
  obtain ⟨take, likely, link⟩ := b
  rw [← Machine.link_host s link 31 (sx32 (pc + 8))]
  simp only [interpretBranch]
  cases likely with
  | false => exact Exec.andThen_keeps fun t => quiet _ _ _ t
  | true =>
      cases take with
      | false => exact quiet _ _ _ _
      | true => exact Exec.andThen_keeps fun t => quiet _ _ _ t

end Cases

theorem interpretLoop_keeps (natives : QuietLookup p lookup) (fuel : Nat) :
    QuietLoop p (interpretLoop H fp lookup fuel) := by
  induction fuel with
  | zero =>
      rintro returnTarget pc depth s s' ⟨⟩
  | succ fuel quiet =>
      intro returnTarget pc depth s
      simp only [interpretLoop]
      split
      · exact InterpResult.keeps_failed
      cases (ifetch H s.rdram pc).control with
      | jump link =>
          rw [← Machine.link_host s link 31 (sx32 (pc + 8))]
          exact Exec.andThen_keeps fun t => quiet.transfer natives link _ t
      | jumpRegister link =>
          rw [← Machine.link_host s link (ifetch H s.rdram pc).rd (sx32 (pc + 8))]
          refine Exec.andThen_keeps fun t => ?_
          split
          · exact InterpResult.keeps_returned
          · exact quiet.transfer natives link _ t
      | branch =>
          simp only
          cases decodeBranch (ifetch H s.rdram pc) s with
          | some b => exact quiet.branch b s
          | none => exact InterpResult.keeps_failed
      | cop1Branch => exact quiet.branch _ s
      | none => exact Exec.andThen_keeps fun t => quiet _ _ _ t

/-- What of the host every native function leaves alone, an interpretation does. -/
theorem interpret_keeps (natives : QuietLookup p lookup) {fuel : Nat} {startPc : BitVec 32}
    {s s' : Machine μ ε}
    (left : (recompInterpretFunction H fp lookup fuel startPc s).state = some s') :
    p s'.host = p s.host := by
  unfold recompInterpretFunction interpret at left
  split at left
  · cases left
    rfl
  · exact interpretLoop_keeps natives fuel _ _ _ s s' left

end KeepsHost

end N64ModernRuntime.Librecomp
