import Mathlib.Logic.Relation

/-!
# Processors with a branch delay slot

A processor holds the address of the instruction it executes and of the one
after it.  A transfer of control replaces the second, so the instruction
behind it, its delay slot, still comes first.  The machine keeps the link
addresses of the calls it is in: a jump through a register to the innermost
one is the return of that call, and the machine stops when the outermost call
has returned.
-/

set_option autoImplicit false

namespace DelaySlot

variable {σ A : Type}

inductive Flow (A : Type) where
  | next
  | branch (target : A)
  /-- A likely branch that is not taken: its delay slot is not executed. -/
  | nullify
  | jump (target : A)
  | call (target link : A)
  /-- A jump through a register. -/
  | register (target : A)

/-- What is under way while the delay slot is executed. -/
inductive Pending (A : Type) where
  | none
  | jump
  | call (link : A)
  | ret

structure Processor (σ A : Type) where
  advance : A → A
  /-- Execute the instruction at an address; `none` if there is none. -/
  execute : A → σ → Option (σ × Flow A)

structure Config (σ A : Type) where
  state : σ
  pc : A
  npc : A
  pending : Pending A
  links : List A

/-- The links when the transfer that is under way arrives. -/
def Pending.arrive (pending : Pending A) (links : List A) : List A :=
  match pending with
  | .none => links
  | .jump => links
  | .call link => link :: links
  | .ret => links.tail

def Config.start (state : σ) (pc npc link : A) : Config σ A :=
  ⟨state, pc, npc, .none, [link]⟩

section Machine

variable [DecidableEq A] (p : Processor σ A)

def step (c : Config σ A) : Option (Config σ A) :=
  if c.links = [] then none
  else
    match p.execute c.pc c.state with
    | none => none
    | some (s, flow) =>
      let links := c.pending.arrive c.links
      match flow with
      | .next => some ⟨s, c.npc, p.advance c.npc, .none, links⟩
      | .branch target => some ⟨s, c.npc, target, .none, links⟩
      | .nullify => some ⟨s, p.advance c.npc, p.advance (p.advance c.npc), .none, links⟩
      | .jump target => some ⟨s, c.npc, target, .jump, links⟩
      | .call target link => some ⟨s, c.npc, target, .call link, links⟩
      | .register target =>
        some ⟨s, c.npc, target, if links.head? = some target then .ret else .jump, links⟩

def Steps (c c' : Config σ A) : Prop := step p c = some c'

def Reaches : Config σ A → Config σ A → Prop := Relation.ReflTransGen (Steps p)

/-- The outermost call of `c` returns in the state `s`. -/
def Returns (c : Config σ A) (s : σ) : Prop :=
  ∃ last, Reaches p c last ∧ last.links = [] ∧ last.state = s

/-- `P` holds of each step of the run from `c` on. -/
def Throughout (P : Config σ A → Config σ A → Prop) (c : Config σ A) : Prop :=
  ∀ before after, Reaches p c before → Steps p before after → P before after

def run : Nat → Config σ A → Option (Config σ A)
  | 0, c => some c
  | n + 1, c => (step p c).bind (run n)

variable {p}

theorem reaches_of_run {c last : Config σ A} (n : Nat) (ran : run p n c = some last) :
    Reaches p c last := by
  induction n generalizing c with
  | zero =>
      cases ran
      exact .refl
  | succ n ih =>
      obtain ⟨middle, taken, ran⟩ := Option.bind_eq_some_iff.mp ran
      exact Relation.ReflTransGen.head taken (ih ran)

theorem step_of_stopped {c : Config σ A} (stopped : c.links = []) : step p c = none := by
  simp [step, stopped]

def allAlong (p : Processor σ A) (P : Config σ A → Config σ A → Prop)
    [∀ c c', Decidable (P c c')] : Nat → Config σ A → Bool
  | 0, _ => false
  | n + 1, c =>
    match step p c with
    | none => true
    | some c' => P c c' && allAlong p P n c'

theorem throughout_of_allAlong {P : Config σ A → Config σ A → Prop}
    [∀ c c', Decidable (P c c')] {c : Config σ A} (n : Nat)
    (holds : allAlong p P n c = true) : Throughout p P c := by
  intro before after reaches taken
  induction n generalizing c with
  | zero => cases holds
  | succ n ih =>
      rw [allAlong] at holds
      rcases Relation.ReflTransGen.cases_head reaches with same | ⟨middle, first, onward⟩
      · subst same
        rw [taken] at holds
        simp only [Bool.and_eq_true, decide_eq_true_eq] at holds
        exact holds.1
      · rw [first] at holds
        simp only [Bool.and_eq_true, decide_eq_true_eq] at holds
        exact ih holds.2 onward

theorem Throughout.reached {P : Config σ A → Config σ A → Prop} {c c' : Config σ A}
    (all : Throughout p P c) (reaches : Reaches p c c') : Throughout p P c' := by
  intro before after onward
  exact all before after (reaches.trans onward)

/-- A run passes through every state that another run from the same one does. -/
theorem Reaches.comparable {c last middle : Config σ A} (first : Reaches p c last)
    (stopped : last.links = []) (second : Reaches p c middle) : Reaches p middle last := by
  induction second with
  | refl => exact first
  | @tail before after _ taken ih =>
      rcases Relation.ReflTransGen.cases_head ih with same | ⟨other, otherTaken, onward⟩
      · subst same
        have stuck : step p before = none := step_of_stopped stopped
        simp [Steps, stuck] at taken
      · have same : some other = some after := otherTaken.symm.trans taken
        rwa [Option.some.inj same] at onward

theorem Returns.unique {c : Config σ A} {s t : σ} (first : Returns p c s)
    (second : Returns p c t) : s = t := by
  obtain ⟨last, reaches, stopped, rfl⟩ := first
  obtain ⟨last', reaches', stopped', rfl⟩ := second
  have onward := reaches.comparable stopped reaches'
  rcases Relation.ReflTransGen.cases_head onward with same | ⟨other, taken, _⟩
  · rw [same]
  · have stuck : step p last' = none := step_of_stopped stopped'
    simp [Steps, stuck] at taken

/-! An instruction, and a transfer with its delay slot, from a sequential state. -/

section Sequential

variable {s s' : σ} {pc : A} (link : A) (links : List A)

theorem reaches_next (fetched : p.execute pc s = some (s', .next)) :
    Reaches p ⟨s, pc, p.advance pc, .none, link :: links⟩
      ⟨s', p.advance pc, p.advance (p.advance pc), .none, link :: links⟩ := by
  apply Relation.ReflTransGen.single
  simp [Steps, step, fetched, Pending.arrive]

theorem reaches_nullified (fetched : p.execute pc s = some (s', .nullify)) :
    Reaches p ⟨s, pc, p.advance pc, .none, link :: links⟩
      ⟨s', p.advance (p.advance pc), p.advance (p.advance (p.advance pc)), .none,
        link :: links⟩ := by
  apply Relation.ReflTransGen.single
  simp [Steps, step, fetched, Pending.arrive]

theorem step_slot {npc target : A} (pending : Pending A)
    (slot : p.execute npc s = some (s', .next)) :
    Steps p ⟨s, npc, target, pending, link :: links⟩
      ⟨s', target, p.advance target, .none, pending.arrive (link :: links)⟩ := by
  simp [Steps, step, slot]

variable {s'' : σ} {target : A}

theorem reaches_branch (fetched : p.execute pc s = some (s', .branch target))
    (slot : p.execute (p.advance pc) s' = some (s'', .next)) :
    Reaches p ⟨s, pc, p.advance pc, .none, link :: links⟩
      ⟨s'', target, p.advance target, .none, link :: links⟩ := by
  apply Relation.ReflTransGen.tail _ (step_slot link links .none slot)
  apply Relation.ReflTransGen.single
  simp [Steps, step, fetched, Pending.arrive]

/-- A branch that is not taken is followed by its slot. -/
theorem reaches_untaken (fetched : p.execute pc s = some (s', .next))
    (slot : p.execute (p.advance pc) s' = some (s'', .next)) :
    Reaches p ⟨s, pc, p.advance pc, .none, link :: links⟩
      ⟨s'', p.advance (p.advance pc), p.advance (p.advance (p.advance pc)), .none,
        link :: links⟩ :=
  (reaches_next link links fetched).trans (reaches_next link links slot)

def inSlot (p : Processor σ A) (s : σ) (pc target : A) (pending : Pending A)
    (links : List A) : Config σ A :=
  ⟨s, p.advance pc, target, pending, links⟩

theorem reaches_jump (fetched : p.execute pc s = some (s', .jump target)) :
    Reaches p ⟨s, pc, p.advance pc, .none, link :: links⟩
      (inSlot p s' pc target .jump (link :: links)) := by
  apply Relation.ReflTransGen.single
  simp [Steps, step, fetched, Pending.arrive, inSlot]

theorem reaches_call {back : A} (fetched : p.execute pc s = some (s', .call target back)) :
    Reaches p ⟨s, pc, p.advance pc, .none, link :: links⟩
      (inSlot p s' pc target (.call back) (link :: links)) := by
  apply Relation.ReflTransGen.single
  simp [Steps, step, fetched, Pending.arrive, inSlot]

theorem reaches_register (fetched : p.execute pc s = some (s', .register target)) :
    Reaches p ⟨s, pc, p.advance pc, .none, link :: links⟩
      (inSlot p s' pc target (if link = target then .ret else .jump) (link :: links)) := by
  apply Relation.ReflTransGen.single
  simp [Steps, step, fetched, Pending.arrive, inSlot]

end Sequential

end Machine

end DelaySlot
