import Mathlib.Tactic.SplitIfs
import N64ModernRuntime.Lib.DelaySlot
import N64ModernRuntime.Librecomp.GuestMemory

/-!
# mips_interp.cpp: branches, jumps and calls

The reference is the MIPS processor with its pc and next pc.  It executes the
instructions that are not branches or jumps as `exec_noncontrol` does; what is
compared here is where control goes and in which state.
-/

set_option autoImplicit false

namespace N64ModernRuntime.Librecomp

open DelaySlot

section Reference

variable {μ ε : Type} (H : RecompH μ) (fp : HostFloat)

def branchIf (s : Machine μ ε) (cond : Prop) [Decidable cond] (target : BitVec 32) :
    Option (Machine μ ε × Flow (BitVec 32)) :=
  some (s, if cond then .branch target else .next)

def branchLikelyIf (s : Machine μ ε) (cond : Prop) [Decidable cond] (target : BitVec 32) :
    Option (Machine μ ε × Flow (BitVec 32)) :=
  some (s, if cond then .branch target else .nullify)

/-- One instruction of the MIPS processor at `pc`. -/
def mipsExecute (pc : BitVec 32) (s : Machine μ ε) :
    Option (Machine μ ε × Flow (BitVec 32)) :=
  let insn := ifetch H s.rdram pc
  let vs := s.R insn.rs
  let vt := s.R insn.rt
  let offset := pc + 4 + insn.simm32 <<< 2
  let link := pc + 8
  let plain :=
    match execNoncontrol fp H insn s with
    | .done s' => some (s', Flow.next)
    | _ => none
  match insn.op with
  -- j, jal
  | 0x02#6 => some (s, .jump (insn.jumpTarget pc))
  | 0x03#6 => some (s.setR 31 (sx32 link), .call (insn.jumpTarget pc) link)
  | 0x00#6 =>
    match insn.fn with
    -- jr, jalr
    | 0x08#6 => some (s, .register (low vs))
    | 0x09#6 => some (s.setR insn.rd (sx32 link), .call (low vs) link)
    | _ => plain
  | 0x01#6 =>
    match insn.rt with
    -- bltz, bgez, bltzl, bgezl, bltzal, bgezal
    | 0x00#5 => branchIf s (vs.toInt < 0) offset
    | 0x01#5 => branchIf s (0 ≤ vs.toInt) offset
    | 0x02#5 => branchLikelyIf s (vs.toInt < 0) offset
    | 0x03#5 => branchLikelyIf s (0 ≤ vs.toInt) offset
    | 0x10#5 => branchIf (s.setR 31 (sx32 link)) (vs.toInt < 0) offset
    | 0x11#5 => branchIf (s.setR 31 (sx32 link)) (0 ≤ vs.toInt) offset
    | _ => none
  -- beq, bne, blez, bgtz and their likely forms
  | 0x04#6 => branchIf s (vs = vt) offset
  | 0x05#6 => branchIf s (vs ≠ vt) offset
  | 0x06#6 => branchIf s (vs.toInt ≤ 0) offset
  | 0x07#6 => branchIf s (0 < vs.toInt) offset
  | 0x14#6 => branchLikelyIf s (vs = vt) offset
  | 0x15#6 => branchLikelyIf s (vs ≠ vt) offset
  | 0x16#6 => branchLikelyIf s (vs.toInt ≤ 0) offset
  | 0x17#6 => branchLikelyIf s (0 < vs.toInt) offset
  | 0x11#6 =>
    if insn.rs = 0x08 then
      -- bc1f, bc1t and their likely forms
      let holds := (s.ctx.cop0Regs 1).getLsbD 23 = insn.getLsbD 16
      if insn.getLsbD 17 then branchLikelyIf s holds offset else branchIf s holds offset
    else plain
  | _ => plain

def mipsProcessor : Processor (Machine μ ε) (BitVec 32) where
  advance := (· + 4)
  execute := mipsExecute H fp

/-- The instruction at `pc`, called with its return address in `$ra`. -/
def calledAt (pc : BitVec 32) (s : Machine μ ε) : Config (Machine μ ε) (BitVec 32) :=
  .start s pc (pc + 4) (low (s.R 31))

variable (lookup : LookupFunction μ ε)

def ArrivesUnknown (before after : Config (Machine μ ε) (BitVec 32)) : Prop :=
  (before.pending = .jump ∨ ∃ link, before.pending = .call link) →
    lookup after.state after.pc = none

/-- A call arrives with its link in `$ra`. -/
def KeepsLink (before after : Config (Machine μ ε) (BitVec 32)) : Prop :=
  match before.pending with
  | .call link => low (after.state.R 31) = link
  | _ => True

instance (before after : Config (Machine μ ε) (BitVec 32)) :
    Decidable (KeepsLink before after) := by
  unfold KeepsLink
  split <;> infer_instance

end Reference

section Simulation

variable {μ ε : Type} {H : RecompH μ} {fp : HostFloat}

/-! What the five cases of the loop say about the word. -/

section Control

variable {insn : Insn}

theorem Insn.of_control_jump {link : Bool} (is : insn.control = .jump link) :
    insn.op = 0x02 ∧ link = false ∨ insn.op = 0x03 ∧ link = true := by
  unfold Insn.control at is
  split_ifs at is with codes
  cases is
  rcases codes with code | code
  · exact .inl ⟨code, by simp [code]⟩
  · exact .inr ⟨code, by simp [code]⟩

theorem Insn.of_control_jumpRegister {link : Bool} (is : insn.control = .jumpRegister link) :
    insn.op = 0x00 ∧ (insn.fn = 0x08 ∧ link = false ∨ insn.fn = 0x09 ∧ link = true) := by
  unfold Insn.control at is
  split_ifs at is with _ codes
  cases is
  obtain ⟨op, code | code⟩ := codes
  · exact ⟨op, .inl ⟨code, by simp [code]⟩⟩
  · exact ⟨op, .inr ⟨code, by simp [code]⟩⟩

theorem Insn.of_control_branch (is : insn.control = .branch) :
    insn.op = 0x01 ∨ insn.op = 0x04 ∨ insn.op = 0x05 ∨ insn.op = 0x06 ∨ insn.op = 0x07
      ∨ insn.op = 0x14 ∨ insn.op = 0x15 ∨ insn.op = 0x16 ∨ insn.op = 0x17 := by
  unfold Insn.control at is
  split_ifs at is with _ _ codes
  bv_omega

theorem Insn.of_control_cop1Branch (is : insn.control = .cop1Branch) :
    insn.op = 0x11 ∧ insn.rs = 0x08 := by
  unfold Insn.control at is
  split_ifs at is with _ _ _ codes
  exact codes

theorem Insn.of_control_none (is : insn.control = .none) :
    ¬(insn.op = 0x02 ∨ insn.op = 0x03)
      ∧ ¬(insn.op = 0x00 ∧ (insn.fn = 0x08 ∨ insn.fn = 0x09))
      ∧ ¬(insn.op = 0x01 ∨ (0x04 ≤ insn.op ∧ insn.op ≤ 0x07)
        ∨ (0x14 ≤ insn.op ∧ insn.op ≤ 0x17))
      ∧ ¬(insn.op = 0x11 ∧ insn.rs = 0x08) := by
  unfold Insn.control at is
  split_ifs at is with jump register branch cop1
  exact ⟨jump, register, branch, cop1⟩

end Control

theorem control_of_done {insn : Insn} {s s' : Machine μ ε}
    (done : execNoncontrol fp H insn s = .done s') : insn.control = .none := by
  cases is : insn.control with
  | none => rfl
  | jump link =>
      rcases Insn.of_control_jump is with ⟨code, _⟩ | ⟨code, _⟩ <;>
        simp [execNoncontrol, code] at done
  | jumpRegister link =>
      obtain ⟨code, ⟨code', _⟩ | ⟨code', _⟩⟩ := Insn.of_control_jumpRegister is <;>
        simp [execNoncontrol, execSpecial, code, code'] at done
  | branch =>
      rcases Insn.of_control_branch is with
          code | code | code | code | code | code | code | code | code <;>
        simp [execNoncontrol, code] at done
  | cop1Branch =>
      obtain ⟨code, code'⟩ := Insn.of_control_cop1Branch is
      simp [execNoncontrol, execCop1, code, code'] at done

/-! What the reference does with the word at `pc`, in the terms of the loop. -/

section Execute

variable {pc : BitVec 32} {s : Machine μ ε}

theorem mipsExecute_jump {link : Bool} (is : (ifetch H s.rdram pc).control = .jump link) :
    mipsExecute H fp pc s = some
      (if link then
        (s.setR 31 (sx32 (pc + 8)), .call ((ifetch H s.rdram pc).jumpTarget pc) (pc + 8))
      else (s, .jump ((ifetch H s.rdram pc).jumpTarget pc))) := by
  rcases Insn.of_control_jump is with ⟨code, rfl⟩ | ⟨code, rfl⟩ <;>
    simp [mipsExecute, code]

theorem mipsExecute_jumpRegister {link : Bool}
    (is : (ifetch H s.rdram pc).control = .jumpRegister link) :
    mipsExecute H fp pc s = some
      (if link then
        (s.setR (ifetch H s.rdram pc).rd (sx32 (pc + 8)),
          .call (low (s.R (ifetch H s.rdram pc).rs)) (pc + 8))
      else (s, .register (low (s.R (ifetch H s.rdram pc).rs)))) := by
  obtain ⟨code, ⟨code', rfl⟩ | ⟨code', rfl⟩⟩ := Insn.of_control_jumpRegister is <;>
    simp [mipsExecute, code, code']

def Branch.flow (b : Branch) (target : BitVec 32) : Flow (BitVec 32) :=
  if b.take then .branch target else if b.likely then .nullify else .next

theorem mipsExecute_branch {b : Branch} (is : (ifetch H s.rdram pc).control = .branch)
    (decoded : decodeBranch (ifetch H s.rdram pc) s = some b) :
    mipsExecute H fp pc s = some
      (if b.link then s.setR 31 (sx32 (pc + 8)) else s,
        b.flow ((ifetch H s.rdram pc).branchTarget pc)) := by
  have codes := Insn.of_control_branch is
  unfold decodeBranch at decoded
  split at decoded
  · rename_i code
    split at decoded <;> (try cases decoded) <;> rename_i code' <;>
      simp [mipsExecute, code, code', branchIf, branchLikelyIf, Branch.flow,
        Insn.branchTarget, BitVec.slt]
  case h_10 =>
    -- no further opcode is a branch
    simp_all
  all_goals
    cases decoded
    rename_i code
    simp [mipsExecute, code, branchIf, branchLikelyIf, Branch.flow, Insn.branchTarget,
      BitVec.sle]

theorem mipsExecute_cop1Branch (is : (ifetch H s.rdram pc).control = .cop1Branch) :
    mipsExecute H fp pc s = some
      (s, (decodeCop1Branch (ifetch H s.rdram pc) s).flow
        ((ifetch H s.rdram pc).branchTarget pc)) := by
  obtain ⟨code, code'⟩ := Insn.of_control_cop1Branch is
  cases tf : (ifetch H s.rdram pc)[16] <;>
    cases nd : (ifetch H s.rdram pc)[17] <;>
      simp [mipsExecute, code, code', tf, nd, decodeCop1Branch, Branch.flow,
        Insn.branchTarget, branchIf, branchLikelyIf]

theorem mipsExecute_none {s' : Machine μ ε} (is : (ifetch H s.rdram pc).control = .none)
    (done : execNoncontrol fp H (ifetch H s.rdram pc) s = .done s') :
    mipsExecute H fp pc s = some (s', .next) := by
  obtain ⟨jump, register, branch, cop1⟩ := Insn.of_control_none is
  simp only [mipsExecute, done]
  split <;> rename_i code
  case h_3 =>
    split <;> rename_i code' <;> simp_all
  case h_13 =>
    rw [if_neg fun fmt => cop1 ⟨code, fmt⟩]
  case h_14 => rfl
  all_goals simp [code] at jump branch

theorem mipsExecute_slot {s' : Machine μ ε} (done : execDelaySlot H fp pc s = .done s') :
    mipsExecute H fp (pc + 4) s = some (s', .next) :=
  mipsExecute_none (control_of_done done) done

end Execute

theorem Exec.andThen_returned {result : Exec μ ε} {next : Machine μ ε → InterpResult μ ε}
    {s' : Machine μ ε} (returned : result.andThen next = .returned s') :
    ∃ s, result = .done s ∧ next s = .returned s' := by
  cases result with
  | done s => exact ⟨s, rfl, returned⟩
  | unimplemented s => cases returned
  | fault => cases returned

theorem InterpResult.andThen_returned {result : InterpResult μ ε}
    {next : Machine μ ε → InterpResult μ ε} {s' : Machine μ ε}
    (returned : result.andThen next = .returned s') :
    ∃ s, result = .returned s ∧ next s = .returned s' := by
  cases result with
  | returned s => exact ⟨s, rfl, returned⟩
  | failed s => cases returned
  | fault => cases returned
  | outOfFuel => cases returned

def inFrame (s : Machine μ ε) (pc returnTarget : BitVec 32) (links : List (BitVec 32)) :
    Config (Machine μ ε) (BitVec 32) :=
  ⟨s, pc, pc + 4, .none, returnTarget :: links⟩

structure Follows (H : RecompH μ) (fp : HostFloat) (lookup : LookupFunction μ ε)
    (c : Config (Machine μ ε) (BitVec 32)) : Prop where
  unknown : Throughout (mipsProcessor H fp) (ArrivesUnknown lookup) c
  keeps : Throughout (mipsProcessor H fp) KeepsLink c

variable {lookup : LookupFunction μ ε}

theorem Follows.reached {c c' : Config (Machine μ ε) (BitVec 32)} (follows : Follows H fp lookup c)
    (reaches : Reaches (mipsProcessor H fp) c c') : Follows H fp lookup c' :=
  ⟨follows.unknown.reached reaches, follows.keeps.reached reaches⟩

/-- A run of the loop that returns is one of the reference to the return of
the innermost call. -/
def Simulates (H : RecompH μ) (fp : HostFloat) (lookup : LookupFunction μ ε)
    (loop : Continue μ ε) : Prop :=
  ∀ (returnTarget pc : BitVec 32) (depth : Nat) (s s' : Machine μ ε)
    (links : List (BitVec 32)),
    loop returnTarget pc depth s = .returned s' →
    Follows H fp lookup (inFrame s pc returnTarget links) →
    Reaches (mipsProcessor H fp) (inFrame s pc returnTarget links)
      ⟨s', returnTarget, returnTarget + 4, .none, links⟩

section Cases

variable {loop : Continue μ ε} {returnTarget pc : BitVec 32} {depth : Nat}
  {s s' : Machine μ ε} {links : List (BitVec 32)}

theorem Simulates.transfer (simulates : Simulates H fp lookup loop) {link : Bool}
    {target : BitVec 32} (unknown : lookup s target = none)
    (kept : link = true → low (s.R 31) = pc + 8)
    (returned : interpretTransfer lookup loop returnTarget pc depth link target s
      = .returned s')
    (follows : Follows H fp lookup
      (inFrame s target (if link then pc + 8 else returnTarget)
        (if link then returnTarget :: links else links))) :
    Reaches (mipsProcessor H fp)
      (inFrame s target (if link then pc + 8 else returnTarget)
        (if link then returnTarget :: links else links))
      ⟨s', returnTarget, returnTarget + 4, .none, links⟩ := by
  simp only [interpretTransfer, unknown] at returned
  cases link with
  | false => exact simulates _ _ _ _ _ _ returned follows
  | true =>
      obtain ⟨back, callee, rest⟩ := InterpResult.andThen_returned returned
      split_ifs at callee with deep
      rw [kept rfl] at callee
      have first := simulates _ _ _ _ _ _ callee follows
      exact first.trans (simulates _ _ _ _ _ _ rest (follows.reached first))

theorem Simulates.slot (simulates : Simulates H fp lookup loop) {link : Bool}
    {target : BitVec 32} {after : Machine μ ε}
    (slot : execDelaySlot H fp pc s = .done after)
    (returned : interpretTransfer lookup loop returnTarget pc depth link target after
      = .returned s')
    (follows : Follows H fp lookup (inSlot (mipsProcessor H fp) s pc target
      (if link then .call (pc + 8) else .jump) (returnTarget :: links))) :
    Reaches (mipsProcessor H fp)
      (inSlot (mipsProcessor H fp) s pc target
        (if link then .call (pc + 8) else .jump) (returnTarget :: links))
      ⟨s', returnTarget, returnTarget + 4, .none, links⟩ := by
  have arrives : Steps (mipsProcessor H fp) (inSlot (mipsProcessor H fp) s pc target _ _) _ :=
    step_slot returnTarget links (if link then .call (pc + 8) else .jump) (mipsExecute_slot slot)
  have unknown := follows.unknown _ _ .refl arrives
  have keeps := follows.keeps _ _ .refl arrives
  have onward := follows.reached (.single arrives)
  apply Relation.ReflTransGen.head arrives
  cases link with
  | false =>
      exact simulates.transfer (unknown (.inl rfl)) (by simp) returned onward
  | true =>
      exact simulates.transfer (unknown (.inr ⟨_, rfl⟩)) (fun _ => keeps) returned
        onward

theorem Simulates.onward (simulates : Simulates H fp lookup loop)
    {c : Config (Machine μ ε) (BitVec 32)} (follows : Follows H fp lookup c)
    (reaches : Reaches (mipsProcessor H fp) c (inFrame s pc returnTarget links))
    (returned : loop returnTarget pc depth s = .returned s') :
    Reaches (mipsProcessor H fp) c ⟨s', returnTarget, returnTarget + 4, .none, links⟩ :=
  reaches.trans (simulates _ _ _ _ _ _ returned (follows.reached reaches))

theorem Simulates.branch (simulates : Simulates H fp lookup loop) {b : Branch}
    (fetched : mipsExecute H fp pc s = some
      (if b.link then s.setR 31 (sx32 (pc + 8)) else s,
        b.flow ((ifetch H s.rdram pc).branchTarget pc)))
    (returned : interpretBranch H fp loop returnTarget pc depth b s = .returned s')
    (follows : Follows H fp lookup (inFrame s pc returnTarget links)) :
    Reaches (mipsProcessor H fp) (inFrame s pc returnTarget links)
      ⟨s', returnTarget, returnTarget + 4, .none, links⟩ := by
  have twice : pc + 4 + 4 = pc + 8 := by bv_omega
  obtain ⟨take, likely, link⟩ := b
  simp only [interpretBranch] at returned
  cases likely with
  | true =>
      cases take with
      | true =>
          obtain ⟨after, slot, rest⟩ := Exec.andThen_returned returned
          exact simulates.onward follows (reaches_branch _ _ fetched (mipsExecute_slot slot)) rest
      | false =>
          have nullified := reaches_nullified (p := mipsProcessor H fp) returnTarget links fetched
          simp only [mipsProcessor, twice] at nullified
          exact simulates.onward follows nullified returned
  | false =>
      obtain ⟨after, slot, rest⟩ := Exec.andThen_returned returned
      cases take with
      | true =>
          exact simulates.onward follows (reaches_branch _ _ fetched (mipsExecute_slot slot)) rest
      | false =>
          have untaken := reaches_untaken (p := mipsProcessor H fp) returnTarget links
            fetched (mipsExecute_slot slot)
          simp only [mipsProcessor, twice] at untaken
          exact simulates.onward follows untaken rest

theorem reaches_return {insn_rs : Gpr} {after : Machine μ ε}
    (fetched : mipsExecute H fp pc s = some (s, .register (low insn_rs)))
    (slot : execDelaySlot H fp pc s = .done after) (back : low insn_rs = returnTarget) :
    Reaches (mipsProcessor H fp) (inFrame s pc returnTarget links)
      ⟨after, returnTarget, returnTarget + 4, .none, links⟩ := by
  have jumps := reaches_register (p := mipsProcessor H fp) returnTarget links fetched
  rw [back, if_pos rfl] at jumps
  exact jumps.tail (step_slot _ _ .ret (mipsExecute_slot slot))

end Cases

theorem interpretLoop_simulates (fuel : Nat) :
    Simulates H fp lookup (interpretLoop H fp lookup fuel) := by
  induction fuel with
  | zero =>
      intro returnTarget pc depth s s' links returned
      cases returned
  | succ fuel ih =>
      intro returnTarget pc depth s s' links returned follows
      simp only [interpretLoop] at returned
      split_ifs at returned with misaligned
      split at returned
      · rename_i link is
        have fetched : mipsExecute H fp pc s = _ := mipsExecute_jump is
        obtain ⟨after, slot, rest⟩ := Exec.andThen_returned returned
        cases link with
        | false =>
            have jumps := reaches_jump (p := mipsProcessor H fp) returnTarget links fetched
            exact jumps.trans (ih.slot slot rest (follows.reached jumps))
        | true =>
            have calls := reaches_call (p := mipsProcessor H fp) returnTarget links fetched
            exact calls.trans (ih.slot slot rest (follows.reached calls))
      · rename_i link is
        have fetched : mipsExecute H fp pc s = _ := mipsExecute_jumpRegister is
        obtain ⟨after, slot, rest⟩ := Exec.andThen_returned returned
        cases link with
        | false =>
            by_cases back : low (s.R (ifetch H s.rdram pc).rs) = returnTarget
            · simp only [back, Bool.not_false, decide_true, Bool.and_true, if_true] at rest
              cases rest
              exact reaches_return fetched slot back
            · simp only [back, Bool.not_false, decide_false, Bool.and_false] at rest
              have jumps := reaches_register (p := mipsProcessor H fp) returnTarget links
                fetched
              rw [if_neg (Ne.symm back)] at jumps
              exact jumps.trans (ih.slot slot rest (follows.reached jumps))
        | true =>
            have calls := reaches_call (p := mipsProcessor H fp) returnTarget links fetched
            exact calls.trans (ih.slot slot rest (follows.reached calls))
      · rename_i is
        split at returned
        · rename_i b decoded
          exact ih.branch (mipsExecute_branch is decoded) returned follows
        · cases returned
      · rename_i is
        apply ih.branch _ returned follows
        exact mipsExecute_cop1Branch is
      · rename_i is
        obtain ⟨after, done, rest⟩ := Exec.andThen_returned returned
        exact ih.onward follows (reaches_next _ _ (mipsExecute_none is done)) rest

/-- A call that the interpreter returns from is the call of the reference,
provided that no jump meets a native function and that every call of the run
arrives with its link in `$ra`. -/
theorem interpret_simulates_processor {fuel depth : Nat} {entry : BitVec 32}
    {s s' : Machine μ ε}
    (returned : interpret H fp lookup fuel entry depth s = .returned s')
    (unknown : Throughout (mipsProcessor H fp) (ArrivesUnknown lookup) (calledAt entry s))
    (keeps : Throughout (mipsProcessor H fp) KeepsLink (calledAt entry s)) :
    Returns (mipsProcessor H fp) (calledAt entry s) s' := by
  unfold interpret at returned
  split_ifs at returned with deep
  have reaches := interpretLoop_simulates fuel _ _ _ _ _ [] returned ⟨unknown, keeps⟩
  exact ⟨_, reaches, rfl, rfl⟩

end Simulation

section Linked

/-- `jalr $v0, $t9` calls a function that returns with `jr $v0`, and counts in
`$v1` how often it comes back. -/
def linkedElsewhere : GuestMemory := GuestMemory.ofWords 0x1000
  [0x03201009, 0x00000000, 0x24630001, 0x03e00008, 0x00000000, 0x00400008, 0x00000000]

def atEntry (rdram : GuestMemory) (t9 : Gpr) : Machine GuestMemory Unit where
  ctx := { emptyContext with
    r := Function.update (Function.update (fun _ => 0) 31 0x80002000) 25 t9 }
  rdram := rdram
  shadowActive := false
  shadowTouchedNative := false
  host := ()

def noFunctions : LookupFunction GuestMemory Unit := fun _ _ => none

def InterpResult.r {μ ε : Type} (result : InterpResult μ ε) (i : BitVec 5) : Option Gpr :=
  match result with
  | .returned s => some (s.R i)
  | _ => none

theorem InterpResult.of_r {μ ε : Type} {result : InterpResult μ ε} {i : BitVec 5} {v : Gpr}
    (holds : result.r i = some v) : ∃ s, result = .returned s ∧ s.R i = v := by
  cases result with
  | returned s => exact ⟨s, rfl, Option.some.inj holds⟩
  | failed s => cases holds
  | fault => cases holds
  | outOfFuel => cases holds

theorem linkedElsewhere_resumes_twice :
    ∃ s', interpret guestMacros wholeFloat noFunctions 10 0x80001000 0
        (atEntry linkedElsewhere 0x80001014) = .returned s'
      ∧ Throughout (mipsProcessor guestMacros wholeFloat) (ArrivesUnknown noFunctions)
        (calledAt 0x80001000 (atEntry linkedElsewhere 0x80001014))
      ∧ (∃ s'', Returns (mipsProcessor guestMacros wholeFloat)
        (calledAt 0x80001000 (atEntry linkedElsewhere 0x80001014)) s'')
      ∧ ¬ Returns (mipsProcessor guestMacros wholeFloat)
        (calledAt 0x80001000 (atEntry linkedElsewhere 0x80001014)) s' := by
  have twice : (interpret guestMacros wholeFloat noFunctions 10 0x80001000 0
      (atEntry linkedElsewhere 0x80001014)).r 3 = some 2 := by decide
  have once : (run (mipsProcessor guestMacros wholeFloat) 7
      (calledAt 0x80001000 (atEntry linkedElsewhere 0x80001014))).map (fun last =>
        (last.links, last.state.R 3)) = some ([], 1) := by decide
  obtain ⟨last, ran, shape⟩ := Option.map_eq_some_iff.mp once
  obtain ⟨stopped, v1⟩ := Prod.mk.inj shape
  have returns : Returns (mipsProcessor guestMacros wholeFloat)
      (calledAt 0x80001000 (atEntry linkedElsewhere 0x80001014)) last.state :=
    ⟨last, reaches_of_run 7 ran, stopped, rfl⟩
  obtain ⟨s', returned, v1'⟩ := InterpResult.of_r twice
  refine ⟨s', returned, fun _ _ _ _ _ => rfl, ⟨_, returns⟩, ?_⟩
  intro other
  rw [other.unique returns, v1] at v1'
  exact absurd v1' (by decide)

/-- A `jal` whose delay slot counts in `$v1`, between saving and restoring
`$ra`. -/
def linkedInRa : GuestMemory := GuestMemory.ofWords 0x1000
  [0x03e08025, 0x0c000406, 0x24630001, 0x0200f825, 0x03e00008, 0x24630001, 0x03e00008,
    0x00000000]

theorem linkedInRa_simulates : ∃ s',
    interpret guestMacros wholeFloat noFunctions 10 0x80001000 0 (atEntry linkedInRa 0)
      = .returned s'
    ∧ Returns (mipsProcessor guestMacros wholeFloat)
      (calledAt 0x80001000 (atEntry linkedInRa 0)) s' := by
  have twice : (interpret guestMacros wholeFloat noFunctions 10 0x80001000 0
      (atEntry linkedInRa 0)).r 3 = some 2 := by decide
  obtain ⟨s', returned, _⟩ := InterpResult.of_r twice
  exact ⟨s', returned, interpret_simulates_processor returned (fun _ _ _ _ _ => rfl)
    (throughout_of_allAlong 11 (by decide))⟩

end Linked

end N64ModernRuntime.Librecomp
