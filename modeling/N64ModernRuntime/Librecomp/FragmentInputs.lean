import Mathlib.Algebra.Group.Int.Defs
import Mathlib.Algebra.Group.Nat.Defs
import N64ModernRuntime.Librecomp.SyntheticFragments

/-!
# overlays.cpp: the inputs of the fragment resolver

The entry hook of a game's resolver pushes the address that it was asked for,
and the exit hook pops it to resolve it again.  The stack of a thread is an
array of 16 with an `int` for its height, which goes on counting on both sides.
-/

set_option autoImplicit false

namespace N64ModernRuntime.Librecomp

variable {table : SectionTable}

/-! ## The stack of a thread -/

def kFragmentInputStackDepth : Nat := 16

structure InputStack where
  stack : Vector UInt32 kFragmentInputStackDepth
  sp : Int

def InputStack.zeroed : InputStack := ⟨Vector.replicate kFragmentInputStackDepth 0, 0⟩

/-- The value of an `int`; `none` where the arithmetic overflows. -/
def intValue (n : Int) : Option Int := if -2 ^ 31 ≤ n ∧ n < 2 ^ 31 then some n else none

/-- `s_fragment_input_stack[idx] = input`; `none` outside the array. -/
def InputStack.store (s : InputStack) (idx : Int) (input : UInt32) : Option InputStack :=
  if inside : 0 ≤ idx ∧ idx.toNat < kFragmentInputStackDepth then
    some { s with stack := s.stack.set idx.toNat input inside.2 }
  else none

/-- `s_fragment_input_stack[idx]`; `none` outside the array. -/
def InputStack.load (s : InputStack) (idx : Int) : Option UInt32 :=
  if 0 ≤ idx then s.stack[idx.toNat]? else none

def librecompFragmentInputPush (input : UInt32) (s : InputStack) : Option InputStack :=
  (if s.sp < kFragmentInputStackDepth then s.store s.sp input else some s).bind fun s =>
    (intValue (s.sp + 1)).map fun sp => { s with sp := sp }

def librecompFragmentInputPop (s : InputStack) : Option (UInt32 × InputStack) :=
  (intValue (s.sp - 1)).bind fun sp =>
    let idx := if 0 ≤ sp ∧ sp < kFragmentInputStackDepth then sp else 0
    (s.load idx).map fun input => (input, { s with sp := sp })

/-! ## The resolver -/

namespace Overlays

def addrInLoadedVariant (s : Overlays table) (bucket addr : UInt32) : Bool :=
  s.loadedSections.any fun e =>
    e.entry.ramAddr == bucket && decide (e.loadedRamAddr ≤ addr)
      && decide (addr < e.loadedRamAddr + e.entry.size)

/-- `recomp_resolve_via_data_context`: the first section around the data decides. -/
def resolveViaDataContext (s : Overlays table) (linkVaddr dataCtxAddr : UInt32) : UInt32 :=
  let bucket := linkVaddr &&& 0xFFF00000
  let offset := linkVaddr &&& 0x000FFFFF
  if linkVaddr < 0x81000000 ∨ 0x90000000 ≤ linkVaddr ∨ dataCtxAddr = 0 then 0
  else
    match s.loadedSections.find? fun e =>
        decide (e.loadedRamAddr ≤ dataCtxAddr) && decide (dataCtxAddr < e.loadedRamAddr + e.entry.size) with
    | none => 0
    | some e =>
      if e.entry.ramAddr ≠ bucket ∨ e.entry.size ≤ offset then 0 else e.loadedRamAddr + offset

/-- `librecomp_fragment_resolve_exit` behind its pop; `none` where it aborts. -/
def resolveInput (s : Overlays table) (input gameResult dataCtxAddr : UInt32) : Option UInt32 :=
  (s.resolveSyntheticFragment input).map fun synth =>
    if synth ≠ 0 then synth
    else if input &&& 0xFFF00000 ≠ 0x8FF00000 then gameResult
    else if input < 0x81000000 ∨ 0x90000000 ≤ input then gameResult
    else if s.addrInLoadedVariant (input &&& 0xFFF00000) gameResult then gameResult
    else
      let resolved := s.resolveViaDataContext input dataCtxAddr
      if resolved ≠ 0 then resolved else gameResult

end Overlays

def librecompFragmentResolveExit (overlays : Overlays table) (gameResult dataCtxAddr : UInt32)
    (s : InputStack) : Option (Option UInt32 × InputStack) :=
  (librecompFragmentInputPop s).map fun popped =>
    (overlays.resolveInput popped.1 gameResult dataCtxAddr, popped.2)

/-! ## Sequences -/

inductive InputOp where
  | push (input : UInt32)
  | pop
  deriving DecidableEq

/-- What the pops return, in their order; `none` when an access is outside the
array or the height overflows. -/
def runInputs : List InputOp → InputStack → Option (List UInt32)
  | [], _ => some []
  | .push input :: ops, s => (librecompFragmentInputPush input s).bind (runInputs ops)
  | .pop :: ops, s =>
    (librecompFragmentInputPop s).bind fun popped => (runInputs ops popped.2).map (popped.1 :: ·)

/-- For each pop the argument of the push that it matches, the open ones given
innermost first. -/
def matchingInputs : List InputOp → List UInt32 → List (Option UInt32)
  | [], _ => []
  | .push input :: ops, opened => matchingInputs ops (input :: opened)
  | .pop :: ops, [] => none :: matchingInputs ops []
  | .pop :: ops, input :: opened => some input :: matchingInputs ops opened

def Returned (want : Option UInt32) (got : UInt32) : Prop := ∀ input, want = some input → got = input

def InputsReturned (ops : List InputOp) : Prop :=
  ∃ got, runInputs ops .zeroed = some got ∧ List.Forall₂ Returned (matchingInputs ops []) got

/-- No push behind a pop without a push, and no pop of an input that was pushed
with 16 others open, unless the outermost of them is the same.  The open inputs
and the pops without a push are counted by an `int`. -/
def Manageable : List InputOp → List UInt32 → Nat → Prop
  | [], _, _ => True
  | .push input :: ops, opened, missed =>
    missed = 0 ∧ opened.length + 1 < 2 ^ 31 ∧ Manageable ops (input :: opened) missed
  | .pop :: ops, [], missed => missed < 2 ^ 31 ∧ Manageable ops [] (missed + 1)
  | .pop :: ops, input :: opened, missed =>
    (opened.length < kFragmentInputStackDepth ∨ opened.getLast? = some input) ∧
      Manageable ops opened missed

/-! ## What the array holds -/

/-- The outermost open inputs are in the array, up to its end. -/
structure InputStack.Holds (s : InputStack) (opened : List UInt32) (missed : Nat) : Prop where
  height : s.sp = opened.length - missed
  fits : opened.length < 2 ^ 31
  below : missed ≠ 0 → opened = []
  stored : ∀ i < kFragmentInputStackDepth, i < opened.length → s.stack[i]? = opened.reverse[i]?

namespace InputStack.Holds

variable {s t : InputStack} {opened : List UInt32} {missed : Nat} {input : UInt32}

theorem zeroed : InputStack.zeroed.Holds [] 0 where
  height := rfl
  fits := by decide
  below := fun _ => rfl
  stored := fun i _ below => absurd below (Nat.not_lt_zero i)

theorem push_below (holds : s.Holds opened missed) (below : missed ≠ 0) :
    librecompFragmentInputPush input s = none := by
  have height := holds.height
  rw [holds.below below, List.length_nil] at height
  have low : s.sp < kFragmentInputStackDepth := by
    change s.sp < (16 : Nat)
    omega
  rw [librecompFragmentInputPush, if_pos low, store, dif_neg, Option.bind_none]
  omega

theorem push_overflow (holds : s.Holds opened 0) (full : ¬ opened.length + 1 < 2 ^ 31) :
    librecompFragmentInputPush input s = none := by
  have height := holds.height
  have high : ¬ s.sp < kFragmentInputStackDepth := by
    change ¬ s.sp < (16 : Nat)
    omega
  rw [librecompFragmentInputPush, if_neg high, Option.bind_some, intValue, if_neg (by omega),
    Option.map_none]

theorem push (holds : s.Holds opened 0) (fits : opened.length + 1 < 2 ^ 31) :
    ∃ t, librecompFragmentInputPush input s = some t ∧ t.Holds (input :: opened) 0 := by
  have height := holds.height
  have counted : intValue (s.sp + 1) = some (s.sp + 1) := if_pos (by omega)
  have taller : s.sp + 1 = ((input :: opened).length : Int) - (0 : Nat) := by
    rw [List.length_cons]
    omega
  by_cases low : s.sp < kFragmentInputStackDepth
  · have inside : 0 ≤ s.sp ∧ s.sp.toNat < kFragmentInputStackDepth := by
      omega
    refine ⟨⟨s.stack.set s.sp.toNat input inside.2, s.sp + 1⟩, ?_, ⟨taller, fits, ?_, ?_⟩⟩
    · rw [librecompFragmentInputPush, if_pos low, store, dif_pos inside, Option.bind_some, counted]
      rfl
    · exact fun absurd => (absurd rfl).elim
    · intro i inside' below
      have at_top : s.sp.toNat = opened.length := by omega
      rw [List.length_cons] at below
      rw [List.reverse_cons]
      by_cases top : i = opened.length
      · subst top
        simp only [at_top]
        rw [Vector.getElem?_set_self, ← List.length_reverse, List.getElem?_concat_length]
      · have old := holds.stored i inside' (by omega)
        have apart : s.sp.toNat ≠ i := by omega
        have lower : i < opened.reverse.length := by
          rw [List.length_reverse]
          omega
        rw [Vector.getElem?_set_ne _ apart, old, List.getElem?_append_left lower]
  · refine ⟨⟨s.stack, s.sp + 1⟩, ?_, ⟨taller, fits, ?_, ?_⟩⟩
    · rw [librecompFragmentInputPush, if_neg low, Option.bind_some, counted]
      rfl
    · exact fun absurd => (absurd rfl).elim
    · intro i inside' below
      have tall : opened.length ≥ kFragmentInputStackDepth := by omega
      rw [List.reverse_cons, List.getElem?_append_left (by rw [List.length_reverse]; omega)]
      exact holds.stored i inside' (by omega)

theorem pop_overflow (holds : s.Holds [] missed) (far : ¬ missed < 2 ^ 31) :
    librecompFragmentInputPop s = none := by
  have height := holds.height
  rw [List.length_nil] at height
  rw [librecompFragmentInputPop, intValue, if_neg (by omega), Option.bind_none]

theorem pop_missed (holds : s.Holds [] missed) (near : missed < 2 ^ 31) :
    ∃ got t, librecompFragmentInputPop s = some (got, t) ∧ t.Holds [] (missed + 1) := by
  have height := holds.height
  rw [List.length_nil] at height
  have counted : intValue (s.sp - 1) = some (s.sp - 1) := if_pos (by omega)
  have below : ¬ (0 ≤ s.sp - 1 ∧ s.sp - 1 < kFragmentInputStackDepth) := by omega
  refine ⟨s.stack.get ⟨0, by decide⟩, ⟨s.stack, s.sp - 1⟩, ?_, ⟨?_, by decide, fun _ => rfl, ?_⟩⟩
  · rw [librecompFragmentInputPop, counted, Option.bind_some]
    simp only [if_neg below, load]
    rfl
  · rw [List.length_nil]
    change s.sp - 1 = _
    omega
  · exact fun i _ below => absurd below (Nat.not_lt_zero i)

theorem pop_open (holds : s.Holds (input :: opened) missed) :
    ∃ got t, librecompFragmentInputPop s = some (got, t) ∧ t.Holds opened missed ∧
      (got = input ↔ opened.length < kFragmentInputStackDepth ∨ opened.getLast? = some input) := by
  have none_missed : missed = 0 := by
    by_contra below
    cases holds.below below
  subst none_missed
  have height := holds.height
  have fits := holds.fits
  rw [List.length_cons] at height fits
  have counted : intValue (s.sp - 1) = some (s.sp - 1) := if_pos (by omega)
  have lower : ∀ t : InputStack, t.stack = s.stack → t.sp = s.sp - 1 → t.Holds opened 0 := by
    intro t same height'
    refine ⟨by omega, by omega, fun absurd => (absurd rfl).elim, fun i inside below => ?_⟩
    have old := holds.stored i inside (by rw [List.length_cons]; omega)
    rw [List.reverse_cons, List.getElem?_append_left (by rw [List.length_reverse]; exact below)] at old
    rw [same]
    exact old
  by_cases near : opened.length < kFragmentInputStackDepth
  · have idx : (if 0 ≤ s.sp - 1 ∧ s.sp - 1 < kFragmentInputStackDepth then s.sp - 1 else 0) =
        (opened.length : Int) := by
      rw [if_pos (by omega)]
      omega
    have top := holds.stored opened.length near (by rw [List.length_cons]; omega)
    rw [List.reverse_cons, ← List.length_reverse, List.getElem?_concat_length,
      List.length_reverse] at top
    refine ⟨input, ⟨s.stack, s.sp - 1⟩, ?_, lower _ rfl rfl, ?_⟩
    · rw [librecompFragmentInputPop, counted, Option.bind_some]
      simp only [idx, load, if_pos (Int.natCast_nonneg _), Int.toNat_natCast, top, Option.map_some]
    · exact ⟨fun _ => Or.inl near, fun _ => rfl⟩
  · have idx : (if 0 ≤ s.sp - 1 ∧ s.sp - 1 < kFragmentInputStackDepth then s.sp - 1 else 0) = 0 :=
      if_neg (by omega)
    have bottom := holds.stored 0 (by decide) (Nat.succ_pos _)
    have filled : opened ≠ [] := by
      intro empty
      subst empty
      exact near (by decide)
    rw [List.reverse_cons, List.getElem?_append_left (by
        rw [List.length_reverse]; exact List.length_pos_iff.mpr filled)] at bottom
    rw [← List.head?_eq_getElem?, List.head?_reverse, List.getLast?_eq_some_getLast filled] at bottom
    refine ⟨opened.getLast filled, ⟨s.stack, s.sp - 1⟩, ?_, lower _ rfl rfl, ?_⟩
    · rw [librecompFragmentInputPop, counted, Option.bind_some]
      simp only [idx, load, if_pos (Int.le_refl 0), Int.toNat_zero, bottom, Option.map_some]
    · rw [List.getLast?_eq_some_getLast filled, Option.some.injEq, or_iff_right near]

end InputStack.Holds

/-! ## Which sequences return their inputs -/

theorem returned_iff (ops : List InputOp) {s : InputStack} {opened : List UInt32} {missed : Nat}
    (holds : s.Holds opened missed) :
    (∃ got, runInputs ops s = some got ∧ List.Forall₂ Returned (matchingInputs ops opened) got) ↔
      Manageable ops opened missed := by
  induction ops generalizing s opened missed with
  | nil => exact ⟨fun _ => trivial, fun _ => ⟨[], rfl, .nil⟩⟩
  | cons op ops ih =>
    cases op with
    | push input =>
      by_cases level : missed = 0
      · subst level
        by_cases fits : opened.length + 1 < 2 ^ 31
        · obtain ⟨t, pushed, holds'⟩ := holds.push fits
          rw [Manageable, runInputs, matchingInputs, pushed, Option.bind_some, ih holds']
          exact ⟨fun rest => ⟨rfl, fits, rest⟩, fun ⟨_, _, rest⟩ => rest⟩
        · rw [Manageable, runInputs, holds.push_overflow fits, Option.bind_none]
          exact ⟨fun ⟨_, ran, _⟩ => (nomatch ran), fun ⟨_, fits', _⟩ => absurd fits' fits⟩
      · rw [Manageable, runInputs, holds.push_below level, Option.bind_none]
        exact ⟨fun ⟨_, ran, _⟩ => (nomatch ran), fun ⟨level', _⟩ => absurd level' level⟩
    | pop =>
      cases opened with
      | nil =>
        by_cases near : missed < 2 ^ 31
        · obtain ⟨got, t, popped, holds'⟩ := holds.pop_missed near
          rw [Manageable, ← ih holds', runInputs, matchingInputs, popped, Option.bind_some]
          constructor
          · rintro ⟨gots, ran, returned⟩
            obtain ⟨rest, after, rfl⟩ := Option.map_eq_some_iff.mp ran
            exact ⟨near, rest, after, (List.forall₂_cons.mp returned).2⟩
          · rintro ⟨_, rest, ran, returned⟩
            refine ⟨got :: rest, ?_, .cons ?_ returned⟩
            · rw [ran, Option.map_some]
            · intro input absurd
              cases absurd
        · rw [Manageable, runInputs, holds.pop_overflow near, Option.bind_none]
          exact ⟨fun ⟨_, ran, _⟩ => (nomatch ran), fun ⟨near', _⟩ => absurd near' near⟩
      | cons input opened =>
        obtain ⟨got, t, popped, holds', right⟩ := holds.pop_open
        rw [Manageable, ← ih holds', ← right, runInputs, matchingInputs, popped, Option.bind_some]
        constructor
        · rintro ⟨gots, ran, returned⟩
          obtain ⟨rest, after, rfl⟩ := Option.map_eq_some_iff.mp ran
          obtain ⟨first, returned⟩ := List.forall₂_cons.mp returned
          exact ⟨first input rfl, rest, after, returned⟩
        · rintro ⟨same, rest, ran, returned⟩
          refine ⟨got :: rest, ?_, .cons ?_ returned⟩
          · rw [ran, Option.map_some]
          · intro input' wanted
            exact same.trans (Option.some.inj wanted)

/-- A thread's pushes and pops stay inside the array and return the matching
inputs exactly when they are manageable. -/
theorem fragment_inputs_returned_iff (ops : List InputOp) :
    InputsReturned ops ↔ Manageable ops [] 0 :=
  returned_iff ops .zeroed

/-- The exit hook resolves the input that its entry hook has pushed. -/
theorem resolve_exit_matching {s : InputStack} {opened : List UInt32} {missed : Nat} {input : UInt32}
    (holds : s.Holds (input :: opened) missed) (near : opened.length < kFragmentInputStackDepth)
    (overlays : Overlays table) (gameResult dataCtxAddr : UInt32) :
    ∃ t, librecompFragmentResolveExit overlays gameResult dataCtxAddr s =
      some (overlays.resolveInput input gameResult dataCtxAddr, t) ∧ t.Holds opened missed := by
  obtain ⟨got, t, popped, holds', right⟩ := holds.pop_open
  have same := right.mpr (Or.inl near)
  subst same
  exact ⟨t, by rw [librecompFragmentResolveExit, popped, Option.map_some], holds'⟩

def seventeenDeep : List InputOp :=
  (List.range 17).map (fun n => .push (UInt32.ofNat n + 0x8FF00000)) ++ [.pop]

def NeverBelow : List InputOp → Nat → Prop
  | [], _ => True
  | .push _ :: ops, height => NeverBelow ops (height + 1)
  | .pop :: _, 0 => False
  | .pop :: ops, height + 1 => NeverBelow ops height

instance decideNeverBelow : ∀ (ops : List InputOp) (height : Nat), Decidable (NeverBelow ops height)
  | [], _ => isTrue trivial
  | .push _ :: ops, height => decideNeverBelow ops (height + 1)
  | .pop :: _, 0 => isFalse id
  | .pop :: ops, height + 1 => decideNeverBelow ops height

/-- The 17th input is not stored, and after a pop on the empty stack a push
writes in front of the array. -/
theorem inputs_lost : NeverBelow seventeenDeep 0 ∧ ¬ InputsReturned seventeenDeep ∧
    runInputs [.pop, .push 0x8FF00010, .pop] .zeroed = none := by
  have got : runInputs seventeenDeep .zeroed = some [0x8FF00000] := by decide +kernel
  have wanted : matchingInputs seventeenDeep [] = [some 0x8FF00010] := by decide +kernel
  refine ⟨by decide, ?_, by decide +kernel⟩
  rintro ⟨gots, ran, returned⟩
  rw [got, Option.some.injEq] at ran
  subst ran
  rw [wanted] at returned
  have same := (List.forall₂_cons.mp returned).1 0x8FF00010 rfl
  exact absurd same (by decide)

end N64ModernRuntime.Librecomp
