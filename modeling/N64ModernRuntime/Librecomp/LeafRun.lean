import N64ModernRuntime.Lib.Transition
import N64ModernRuntime.Librecomp.MipsControl
import N64ModernRuntime.Librecomp.ShardSource

/-!
# mips_interp.cpp: the interpreter in a safe leaf

`fragment_is_safe_leaf` looks for jumps and not for branches, at words and not
at where a run goes on.  The loop of `interpret` is cut into its turns here, and
a run stays in the leaf as long as what the scan leaves out does.
-/

set_option autoImplicit false

namespace N64ModernRuntime.Librecomp

open Transition

/-! ## The turns of the loop -/

structure InterpFrame (ε : Type) where
  pc : BitVec 32
  state : Machine GuestMemory ε

inductive Turn (ε : Type) where
  | onward (next : InterpFrame ε)
  /-- through the entry value of `$ra` -/
  | returned (s : Machine GuestMemory ε)
  /-- a native function, or the interpreter again -/
  | calls
  /-- `return false`, or a fault -/
  | stops

section Turns
variable {ε : Type} (fp : HostFloat) (lookup : LookupFunction GuestMemory ε)
  (returnTarget : BitVec 32)

def Exec.turn (result : Exec GuestMemory ε) (next : Machine GuestMemory ε → Turn ε) : Turn ε :=
  match result with
  | .done s => next s
  | .unimplemented _ => .stops
  | .fault => .stops

def transferTurn (link : Bool) (target : BitVec 32) (s : Machine GuestMemory ε) : Turn ε :=
  if (lookup s target).isSome || link then .calls else .onward ⟨target, s⟩

/-- The branches of both kinds; `none` is an unimplemented one. -/
def decodeAnyBranch (insn : Insn) (s : Machine GuestMemory ε) : Option Branch :=
  if insn.control = .branch then decodeBranch insn s else some (decodeCop1Branch insn s)

def Branch.slotRuns (b : Branch) : Bool := !b.likely || b.take

def branchTurn (f : InterpFrame ε) (b : Branch) : Turn ε :=
  let target := (ifetch guestMacros f.state.rdram f.pc).branchTarget f.pc
  let s := if b.link then f.state.setR 31 (sx32 (f.pc + 8)) else f.state
  if b.slotRuns then
    (execDelaySlot guestMacros fp f.pc s).turn fun s =>
      .onward ⟨if b.take then target else f.pc + 8, s⟩
  else .onward ⟨f.pc + 8, s⟩

def InterpFrame.insn (f : InterpFrame ε) : Insn := ifetch guestMacros f.state.rdram f.pc

def InterpFrame.turn (f : InterpFrame ε) : Turn ε :=
  if f.pc &&& 3 ≠ 0 then .stops
  else
    match f.insn.control with
    | .jump link =>
      let s := if link then f.state.setR 31 (sx32 (f.pc + 8)) else f.state
      (execDelaySlot guestMacros fp f.pc s).turn (transferTurn lookup link (f.insn.jumpTarget f.pc))
    | .jumpRegister link =>
      let target := low (f.state.R f.insn.rs)
      let s := if link then f.state.setR f.insn.rd (sx32 (f.pc + 8)) else f.state
      (execDelaySlot guestMacros fp f.pc s).turn fun s =>
        if !link && target = returnTarget then .returned s else transferTurn lookup link target s
    | .none => (execNoncontrol fp guestMacros f.insn f.state).turn fun s => .onward ⟨f.pc + 4, s⟩
    | _ =>
      match decodeAnyBranch f.insn f.state with
      | some b => branchTurn fp f b
      | none => .stops

def InterpFrame.slotRuns (f : InterpFrame ε) : Bool :=
  match f.insn.control with
  | .jump _ => true
  | .jumpRegister _ => true
  | .none => false
  | _ => (decodeAnyBranch f.insn f.state).any Branch.slotRuns

def InterpFrame.fetched (f : InterpFrame ε) : List (BitVec 32) :=
  if f.pc &&& 3 ≠ 0 then [] else f.pc :: (if f.slotRuns then [f.pc + 4] else [])

def InterpFrame.step (f : InterpFrame ε) (_ : Unit) : Option (InterpFrame ε) :=
  match f.turn fp lookup returnTarget with
  | .onward next => some next
  | _ => none

def Turn.Makes (fuel depth : Nat) (result : InterpResult GuestMemory ε) : Turn ε → Prop
  | .onward next =>
      result = interpretLoop guestMacros fp lookup fuel returnTarget next.pc depth next.state
  | .returned s => result = .returned s
  | .calls => True
  | .stops => ∀ s, result ≠ .returned s

theorem Exec.turn_makes {fuel depth : Nat} {result : Exec GuestMemory ε}
    {next : Machine GuestMemory ε → Turn ε}
    {next' : Machine GuestMemory ε → InterpResult GuestMemory ε}
    (makes : ∀ s, (next s).Makes fp lookup returnTarget fuel depth (next' s)) :
    (result.turn next).Makes fp lookup returnTarget fuel depth (result.andThen next') := by
  cases result with
  | done s => exact makes s
  | unimplemented s =>
      intro _ same
      cases same
  | fault =>
      intro _ same
      cases same

theorem transferTurn_makes (fuel depth : Nat) (pc : BitVec 32) (link : Bool) (target : BitVec 32)
    (s : Machine GuestMemory ε) :
    (transferTurn lookup link target s).Makes fp lookup returnTarget fuel depth
      (interpretTransfer lookup (interpretLoop guestMacros fp lookup fuel) returnTarget pc depth link
        target s) := by
  unfold transferTurn interpretTransfer
  cases lookup s target with
  | some nf => trivial
  | none =>
      cases link with
      | true => trivial
      | false => rfl

theorem branchTurn_makes (fuel depth : Nat) (f : InterpFrame ε) (b : Branch) :
    (branchTurn fp f b).Makes fp lookup returnTarget fuel depth
      (interpretBranch guestMacros fp (interpretLoop guestMacros fp lookup fuel) returnTarget f.pc
        depth b f.state) := by
  unfold branchTurn interpretBranch Branch.slotRuns
  dsimp only
  cases likely : b.likely with
  | true =>
      cases take : b.take with
      | true => exact Exec.turn_makes fp lookup returnTarget fun s => rfl
      | false => rfl
  | false => exact Exec.turn_makes fp lookup returnTarget fun s => rfl

theorem InterpFrame.turn_makes (fuel depth : Nat) (f : InterpFrame ε) :
    (f.turn fp lookup returnTarget).Makes fp lookup returnTarget fuel depth
      (interpretLoop guestMacros fp lookup (fuel + 1) returnTarget f.pc depth f.state) := by
  unfold InterpFrame.turn interpretLoop
  split
  · intro _ same
    cases same
  · dsimp only [InterpFrame.insn]
    cases control : (ifetch guestMacros f.state.rdram f.pc).control with
    | jump link =>
        exact Exec.turn_makes fp lookup returnTarget fun s =>
          transferTurn_makes fp lookup returnTarget fuel depth f.pc link _ s
    | jumpRegister link =>
        refine Exec.turn_makes fp lookup returnTarget fun s => ?_
        split
        · rfl
        · exact transferTurn_makes fp lookup returnTarget fuel depth f.pc link _ s
    | branch =>
        dsimp only [decodeAnyBranch]
        rw [if_pos control]
        cases decodeBranch (ifetch guestMacros f.state.rdram f.pc) f.state with
        | some b => exact branchTurn_makes fp lookup returnTarget fuel depth f b
        | none =>
            intro _ same
            cases same
    | cop1Branch =>
        dsimp only [decodeAnyBranch]
        rw [if_neg (by rw [control]; exact Control.noConfusion)]
        exact branchTurn_makes fp lookup returnTarget fuel depth f _
    | none => exact Exec.turn_makes fp lookup returnTarget fun s => rfl

end Turns

/-! ## What the scan reads -/

def InLeaf (lo len : UInt32) (a : BitVec 32) : Prop :=
  lo.toNat ≤ a.toNat ∧ a.toNat < lo.toNat + len.toNat

instance (lo len : UInt32) (a : BitVec 32) : Decidable (InLeaf lo len a) :=
  inferInstanceAs (Decidable (_ ∧ _))

section Scan
variable {lo len : UInt32} {image m : GuestMemory} {a : BitVec 32}

end Scan

/-! ## A run in the leaf -/

section Run
variable {ε : Type} (fp : HostFloat) (lookup : LookupFunction GuestMemory ε)
  (returnTarget : BitVec 32) (image : GuestMemory) (lo len : UInt32)

structure StaysInLeaf (f : InterpFrame ε) : Prop where
  fetched : ∀ a ∈ f.fetched, InLeaf lo len a
  quiet : f.turn fp lookup returnTarget ≠ .calls

/-- What the scan does not look at: the delay slots and the next word, the branches, `$ra`, and
what is registered for the target of a jump. -/
structure LeafTurn (f : InterpFrame ε) : Prop where
  slot : f.slotRuns = true → InLeaf lo len (f.pc + 4)
  straight : f.insn.control = .none → InLeaf lo len (f.pc + 4)
  branch : f.insn.control = .branch ∨ f.insn.control = .cop1Branch →
    ∀ b, decodeAnyBranch f.insn f.state = some b →
      InLeaf lo len (if b.take then f.insn.branchTarget f.pc else f.pc + 8)
  link : f.insn.control = .jumpRegister false → low (f.state.R 31) = returnTarget
  jump : f.insn.control = .jump false → ∀ s,
    execDelaySlot guestMacros fp f.pc f.state = .done s → lookup s (f.insn.jumpTarget f.pc) = none

variable {fp lookup returnTarget image lo len}

theorem Exec.turn_onward {result : Exec GuestMemory ε} {next : Machine GuestMemory ε → Turn ε}
    {f : InterpFrame ε} (onward : result.turn next = .onward f) :
    ∃ s, result = .done s ∧ next s = .onward f := by
  cases result with
  | done s => exact ⟨s, rfl, onward⟩
  | unimplemented s => cases onward
  | fault => cases onward

theorem Exec.turn_calls {result : Exec GuestMemory ε} {next : Machine GuestMemory ε → Turn ε}
    (calls : result.turn next = .calls) : ∃ s, result = .done s ∧ next s = .calls := by
  cases result with
  | done s => exact ⟨s, rfl, calls⟩
  | unimplemented s => cases calls
  | fault => cases calls

theorem branchTurn_leads {f : InterpFrame ε} {b : Branch} :
    branchTurn fp f b ≠ .calls ∧ ∀ next, branchTurn fp f b = .onward next →
      next.pc = if b.take then f.insn.branchTarget f.pc else f.pc + 8 := by
  unfold branchTurn
  dsimp only
  split
  · refine ⟨fun calls => ?_, fun next onward => ?_⟩
    · obtain ⟨s, -, calls⟩ := Exec.turn_calls calls
      cases calls
    · obtain ⟨s, -, onward⟩ := Exec.turn_onward onward
      cases onward
      rfl
  · rename_i skipped
    refine ⟨fun calls => (nomatch calls), fun next onward => ?_⟩
    cases onward
    have untaken : b.take = false := by
      unfold Branch.slotRuns at skipped
      cases take : b.take with
      | false => rfl
      | true =>
          rw [take, Bool.or_true] at skipped
          exact absurd rfl skipped
    rw [untaken]
    rfl

theorem LeafTurn.branch_leads {f : InterpFrame ε} (turn : LeafTurn fp lookup returnTarget lo len f)
    (is : f.insn.control = .branch ∨ f.insn.control = .cop1Branch) :
    (match decodeAnyBranch f.insn f.state with
      | some b => branchTurn fp f b
      | none => .stops) ≠ Turn.calls ∧
    ∀ next, (match decodeAnyBranch f.insn f.state with
      | some b => branchTurn fp f b
      | none => .stops) = Turn.onward next → InLeaf lo len next.pc := by
  have target := turn.branch is
  cases decoded : decodeAnyBranch f.insn f.state with
  | none => exact ⟨fun calls => (nomatch calls), fun next onward => (nomatch onward)⟩
  | some b =>
      obtain ⟨quiet, leads⟩ := @branchTurn_leads ε fp f b
      refine ⟨quiet, fun next onward => ?_⟩
      rw [leads next onward]
      exact target b decoded

theorem LeafTurn.stays {f : InterpFrame ε} (turn : LeafTurn fp lookup returnTarget lo len f)
    (inside : InLeaf lo len f.pc)
    (scanned : f.pc &&& 3 = 0 → f.insn.control ≠ .jump true ∧
      (f.insn.control = .jump false → InLeaf lo len (f.insn.jumpTarget f.pc)) ∧
        ∀ link, f.insn.control = .jumpRegister link → link = false ∧ f.insn.rs = 31) :
    StaysInLeaf fp lookup returnTarget lo len f ∧
      ∀ next, f.turn fp lookup returnTarget = .onward next → InLeaf lo len next.pc := by
  by_cases aligned : f.pc &&& 3 = 0
  · obtain ⟨noCall, jumps, registers⟩ := scanned aligned
    have fetched : ∀ a ∈ f.fetched, InLeaf lo len a := by
      intro a member
      unfold InterpFrame.fetched at member
      rw [if_neg (not_not.mpr aligned)] at member
      rcases List.mem_cons.mp member with rfl | member
      · exact inside
      · split at member
        · rename_i runs
          rw [List.mem_singleton.mp member]
          exact turn.slot runs
        · cases member
    have leads : f.turn fp lookup returnTarget ≠ .calls ∧
        ∀ next, f.turn fp lookup returnTarget = .onward next → InLeaf lo len next.pc := by
      unfold InterpFrame.turn
      rw [if_neg (not_not.mpr aligned)]
      cases control : f.insn.control with
      | jump link =>
          cases link with
          | true => exact absurd control noCall
          | false =>
              have known := turn.jump control
              dsimp only
              refine ⟨fun calls => ?_, fun next onward => ?_⟩
              · obtain ⟨s, done, calls⟩ := Exec.turn_calls calls
                rw [transferTurn, known s done] at calls
                cases calls
              · obtain ⟨s, done, onward⟩ := Exec.turn_onward onward
                rw [transferTurn, known s done] at onward
                cases onward
                exact jumps control
      | jumpRegister link =>
          obtain ⟨rfl, own⟩ := registers link control
          have entry := turn.link control
          rw [own]
          change low (f.state.R 31) = returnTarget at entry
          dsimp only
          rw [entry]
          refine ⟨fun calls => ?_, fun next onward => ?_⟩
          · obtain ⟨s, done, calls⟩ := Exec.turn_calls calls
            simp at calls
          · obtain ⟨s, done, onward⟩ := Exec.turn_onward onward
            simp at onward
      | branch => exact turn.branch_leads (Or.inl control)
      | cop1Branch => exact turn.branch_leads (Or.inr control)
      | none =>
          have next := turn.straight control
          dsimp only
          refine ⟨fun calls => ?_, fun next' onward => ?_⟩
          · obtain ⟨s, -, calls⟩ := Exec.turn_calls calls
            cases calls
          · obtain ⟨s, -, onward⟩ := Exec.turn_onward onward
            cases onward
            exact next
    exact ⟨⟨fetched, leads.1⟩, leads.2⟩
  · have still : f.turn fp lookup returnTarget = .stops := by
      rw [InterpFrame.turn, if_pos aligned]
    refine ⟨⟨fun a member => ?_, fun calls => (nomatch still.symm.trans calls)⟩, fun next onward => ?_⟩
    · rw [InterpFrame.fetched, if_pos aligned] at member
      cases member
    · rw [still] at onward
      cases onward

end Run

/-! ## A branch out of the leaf -/

end N64ModernRuntime.Librecomp
