import N64ModernRuntime.Librecomp.GuestMemory
import N64ModernRuntime.Librecomp.MipsHost

/-!
# overlays.cpp: the shadow diff

The memory that the macros address has 1 GiB.  `run_shadow_diff` saves,
compares and restores its first 8 MiB.
-/

set_option autoImplicit false

namespace N64ModernRuntime.Librecomp

/-- `constexpr size_t RAM = 0x800000;` -/
def ramSize : Nat := 0x800000

/-- The contents of `ram0` or `ramI`. -/
abbrev RamCopy := Fin ramSize → BitVec 8

namespace GuestMemory

/-- `memcpy(copy, rdram, RAM)` -/
def ram (m : GuestMemory) : RamCopy := fun i => m (BitVec.ofNat 30 i)

/-- `memcpy(rdram, copy, RAM)` -/
def setRam (m : GuestMemory) (copy : RamCopy) : GuestMemory := fun place =>
  if inside : place.toNat < ramSize then copy ⟨place.toNat, inside⟩ else m place

def AgreeAbove (m m' : GuestMemory) : Prop :=
  ∀ place : BitVec 30, ramSize ≤ place.toNat → m place = m' place

theorem ram_setRam (m : GuestMemory) (copy : RamCopy) : (m.setRam copy).ram = copy := by
  funext i
  have inside : (BitVec.ofNat 30 i).toNat = i := by
    have := i.isLt
    simp only [ramSize] at this
    simp only [BitVec.toNat_ofNat]
    omega
  simp only [ram, setRam, inside, i.isLt, dite_true]

theorem setRam_eq_iff {m m' : GuestMemory} {copy : RamCopy} :
    m.setRam copy = m' ↔ copy = m'.ram ∧ m.AgreeAbove m' := by
  constructor
  · rintro rfl
    refine ⟨(ram_setRam m copy).symm, fun place above => ?_⟩
    rw [setRam, dif_neg (by omega)]
  · rintro ⟨rfl, above⟩
    funext place
    by_cases inside : place.toNat < ramSize
    · simp [setRam, inside, ram]
    · rw [setRam, dif_neg inside]
      exact above place (by omega)

end GuestMemory

/-- The thread's `ram0` and `ramI`, and what else a native function can reach. -/
structure ShadowHost (ε : Type) where
  ram0 : RamCopy
  ramI : RamCopy
  rest : ε

structure ShadowDiffOutcome where
  interpOk : Bool := false
  deviceTouch : Bool := false
  ranNative : Bool := false
  clean : Bool := false
  deriving DecidableEq, Repr

/-- The registers `r1`..`r31`, `f0`..`f31`, `hi` and `lo`. -/
def shadowRegsEqual (a b : RecompContext) : Bool :=
  decide (∀ i, i ≠ 0 → a.r i = b.r i) && decide (∀ i, a.f i = b.f i)
    && (a.hi == b.hi && a.lo == b.lo)

section ShadowDiff

variable {ε : Type}

/-- The entry state with a copy in `ram0` and the device detector armed. -/
def armed (s : Machine GuestMemory (ShadowHost ε)) : Machine GuestMemory (ShadowHost ε) :=
  { s with
    host := { s.host with ram0 := s.rdram.ram }
    shadowTouchedNative := false
    shadowActive := true }

/-- `t_shadow_active = false;` -/
def disarmed (s : Machine GuestMemory (ShadowHost ε)) :
    Machine GuestMemory (ShadowHost ε) :=
  { s with shadowActive := false }

@[simp]
theorem disarmed_touched (s : Machine GuestMemory (ShadowHost ε)) :
    (disarmed s).shadowTouchedNative = s.shadowTouchedNative := rfl

/-- `*ctx = ctx0; memcpy(rdram, ram0, RAM);` -/
def putBack (ctx0 : RecompContext) (s : Machine GuestMemory (ShadowHost ε)) :
    Machine GuestMemory (ShadowHost ε) :=
  { s with ctx := ctx0, rdram := s.rdram.setRam s.host.ram0 }

/-- After PASS 1: the result is copied to `ramI`, and the start state is put
back for the native candidate. -/
def rewound (ctx0 : RecompContext) (s : Machine GuestMemory (ShadowHost ε)) :
    Machine GuestMemory (ShadowHost ε) :=
  putBack ctx0 { s with host := { s.host with ramI := s.rdram.ram } }

variable (H : RecompH GuestMemory) (fp : HostFloat)
  (lookup : LookupFunction GuestMemory (ShadowHost ε)) (fuel : Nat) (addr : BitVec 32)
  (fn : Machine GuestMemory (ShadowHost ε) → Machine GuestMemory (ShadowHost ε))

/-- PASS 1, the single interpreter run from the entry state. -/
def interpreterPass (s : Machine GuestMemory (ShadowHost ε)) :
    InterpResult GuestMemory (ShadowHost ε) :=
  recompInterpretFunction H fp lookup fuel addr (armed s)

/-- `none` when the interpreter does not come back. -/
def runShadowDiff (s : Machine GuestMemory (ShadowHost ε)) :
    Option (Machine GuestMemory (ShadowHost ε) × ShadowDiffOutcome) :=
  let ctx0 := s.ctx
  match interpreterPass H fp lookup fuel addr s with
  | .failed s => some (putBack ctx0 (disarmed s), {})
  | .returned s =>
    let s := disarmed s
    if s.shadowTouchedNative then some (s, { interpOk := true, deviceTouch := true })
    else
      let ctxI := s.ctx
      let s := fn (rewound ctx0 s)
      let clean := shadowRegsEqual s.ctx ctxI
        && decide (∀ i, s.rdram.ram i = s.host.ramI i)
      some ({ s with ctx := ctxI, rdram := s.rdram.setRam s.host.ramI },
        { interpOk := true, ranNative := true, clean := clean })
  | .fault => none
  | .outOfFuel => none

def nativePass (s : Machine GuestMemory (ShadowHost ε)) :
    Option (Machine GuestMemory (ShadowHost ε)) :=
  match interpreterPass H fp lookup fuel addr s with
  | .returned t => if t.shadowTouchedNative then none else some (rewound s.ctx (disarmed t))
  | _ => none

/-- `s'` has the context and the memory that the interpreter alone leaves, or
those of the entry state `s` when it fails. -/
def ShadowTransparent (s s' : Machine GuestMemory (ShadowHost ε)) : Prop :=
  match interpreterPass H fp lookup fuel addr s with
  | .failed _ => s'.ctx = s.ctx ∧ s'.rdram = s.rdram
  | .returned t => s'.ctx = t.ctx ∧ s'.rdram = t.rdram
  | _ => True

/-- Nothing that has to be undone lies outside the copied 8 MiB, and the copy
is still there when it is written back. -/
def SnapshotSuffices (s : Machine GuestMemory (ShadowHost ε)) : Prop :=
  match interpreterPass H fp lookup fuel addr s with
  | .failed t => t.host.ram0 = s.rdram.ram ∧ t.rdram.AgreeAbove s.rdram
  | .returned t =>
    t.shadowTouchedNative = false →
      let native := fn (rewound s.ctx (disarmed t))
      native.host.ramI = t.rdram.ram ∧ native.rdram.AgreeAbove t.rdram
  | _ => True

end ShadowDiff

section Transparent

variable {ε : Type} {H : RecompH GuestMemory} {fp : HostFloat}
  {lookup : LookupFunction GuestMemory (ShadowHost ε)} {fuel : Nat} {addr : BitVec 32}
  {fn : Machine GuestMemory (ShadowHost ε) → Machine GuestMemory (ShadowHost ε)}
  {s s' : Machine GuestMemory (ShadowHost ε)} {o : ShadowDiffOutcome}

/-- The diff leaves the context and the memory of the interpreter run, or of
the entry state, exactly when the first 8 MiB are all there was to undo. -/
theorem shadow_diff_transparent_iff
    (run : runShadowDiff H fp lookup fuel addr fn s = some (s', o)) :
    ShadowTransparent H fp lookup fuel addr s s'
      ↔ SnapshotSuffices H fp lookup fuel addr fn s := by
  unfold runShadowDiff at run
  unfold ShadowTransparent SnapshotSuffices
  cases pass : interpreterPass H fp lookup fuel addr s with
  | failed t =>
      simp only [pass, Option.some.injEq, Prod.mk.injEq] at run
      obtain ⟨rfl, rfl⟩ := run
      exact (and_iff_right rfl).trans GuestMemory.setRam_eq_iff
  | returned t =>
      simp only [pass, disarmed_touched] at run
      by_cases touched : t.shadowTouchedNative
      · -- the result of the interpreter is live already
        simp only [touched, if_true, Option.some.injEq, Prod.mk.injEq] at run
        obtain ⟨rfl, rfl⟩ := run
        simp [disarmed, touched]
      · simp only [touched, Bool.false_eq_true, if_false, Option.some.injEq,
          Prod.mk.injEq] at run
        obtain ⟨rfl, rfl⟩ := run
        simp only [touched, forall_const]
        exact (and_iff_right rfl).trans GuestMemory.setRam_eq_iff
  | fault => simp [pass] at run
  | outOfFuel => simp [pass] at run

theorem runShadowDiff_returned {t : Machine GuestMemory (ShadowHost ε)}
    (fn : Machine GuestMemory (ShadowHost ε) → Machine GuestMemory (ShadowHost ε))
    (pass : interpreterPass H fp lookup fuel addr s = .returned t) :
    ∃ s' o, runShadowDiff H fp lookup fuel addr fn s = some (s', o) ∧ o.interpOk = true := by
  simp only [runShadowDiff, pass]
  split
  · exact ⟨_, _, rfl, rfl⟩
  · exact ⟨_, _, rfl, rfl⟩

theorem runShadowDiff_failed {t : Machine GuestMemory (ShadowHost ε)}
    (pass : interpreterPass H fp lookup fuel addr s = .failed t) :
    runShadowDiff H fp lookup fuel addr fn s = some (putBack s.ctx (disarmed t), {}) := by
  simp only [runShadowDiff, pass]

theorem nativePass_eq_some {n : Machine GuestMemory (ShadowHost ε)} :
    nativePass H fp lookup fuel addr s = some n ↔
      ∃ t, interpreterPass H fp lookup fuel addr s = .returned t ∧
        t.shadowTouchedNative = false ∧ n = rewound s.ctx (disarmed t) := by
  unfold nativePass
  constructor
  · intro native
    split at native
    · rename_i t pass
      split at native
      · cases native
      · rename_i untouched
        cases native
        exact ⟨t, pass, Bool.eq_false_iff.mpr untouched, rfl⟩
    · cases native
  · rintro ⟨t, pass, untouched, rfl⟩
    rw [pass]
    dsimp only
    rw [if_neg (Bool.eq_false_iff.mp untouched)]

/-- A candidate that does nothing where the interpreter does nothing passes. -/
theorem runShadowDiff_idle {t : Machine GuestMemory (ShadowHost ε)}
    (pass : interpreterPass H fp lookup fuel addr s = .returned t)
    (untouched : t.shadowTouchedNative = false)
    (idle : fn (rewound s.ctx (disarmed t)) = rewound s.ctx (disarmed t))
    (regs : shadowRegsEqual s.ctx t.ctx = true) (ram : t.host.ram0 = t.rdram.ram) :
    ∃ s', runShadowDiff H fp lookup fuel addr fn s =
      some (s', { interpOk := true, ranNative := true, clean := true }) := by
  have not_touched : ¬(disarmed t).shadowTouchedNative = true := by
    rw [disarmed_touched, untouched]
    exact Bool.false_ne_true
  have same_ram : ∀ i, (rewound s.ctx (disarmed t)).rdram.ram i = (rewound s.ctx (disarmed t)).host.ramI i := by
    intro i
    change ((t.rdram.setRam t.host.ram0).ram) i = t.rdram.ram i
    rw [GuestMemory.ram_setRam, ram]
  have clean : (shadowRegsEqual (rewound s.ctx (disarmed t)).ctx (disarmed t).ctx
      && decide (∀ i, (rewound s.ctx (disarmed t)).rdram.ram i = (rewound s.ctx (disarmed t)).host.ramI i)) = true :=
    (Bool.and_eq_true _ _).mpr ⟨regs, decide_eq_true same_ram⟩
  unfold runShadowDiff
  dsimp only
  rw [pass]
  dsimp only
  rw [if_neg not_touched, idle, clean]
  exact ⟨_, rfl⟩

/-- Where no native function is found, the pass is the interpreter run without
the detector. -/
theorem interpreterPass_leaf (fuel : Nat) (addr : BitVec 32)
    (s : Machine GuestMemory (ShadowHost ε)) :
    interpreterPass H fp (noNative _ _) fuel addr s
      = (recompInterpretFunction H fp (noNative _ _) fuel addr s).inHost true false
          { s.host with ram0 := s.rdram.ram } :=
  leaf_inHost fuel addr s

/-- A leaf that the interpreter cannot run is undone exactly when it has
written nothing from 8 MiB on. -/
theorem failed_leaf_undone_iff {t : Machine GuestMemory (ShadowHost ε)}
    (run : runShadowDiff H fp (noNative _ _) fuel addr fn s = some (s', o))
    (failed : recompInterpretFunction H fp (noNative _ _) fuel addr s = .failed t) :
    s'.ctx = s.ctx ∧ s'.rdram = s.rdram ↔ t.rdram.AgreeAbove s.rdram := by
  simp only [runShadowDiff, interpreterPass_leaf, failed, InterpResult.inHost,
    Option.some.injEq, Prod.mk.injEq] at run
  obtain ⟨rfl, rfl⟩ := run
  refine (and_iff_right rfl).trans (GuestMemory.setRam_eq_iff.trans (and_iff_right rfl))

end Transparent

section Leaves

def InterpResult.gaveUp {μ ε : Type} (result : InterpResult μ ε) : Bool :=
  match result with
  | .failed _ => true
  | _ => false

theorem InterpResult.of_gaveUp {μ ε : Type} {result : InterpResult μ ε}
    (holds : result.gaveUp = true) : ∃ s, result = .failed s := by
  cases result with
  | failed s => exact ⟨s, rfl⟩
  | returned s => cases holds
  | fault => cases holds
  | outOfFuel => cases holds

/-- Entered with 1 in `$a0`, `a1` in `$a1` and `$ra` elsewhere. -/
def leafEntry (rdram : GuestMemory) (a1 : Gpr) : Machine GuestMemory (ShadowHost Unit) where
  ctx := { emptyContext with
    r := Function.update (Function.update (Function.update (fun _ => 0) 4 1) 5 a1)
      31 0x80002000 }
  rdram := rdram
  shadowActive := false
  shadowTouchedNative := false
  host := ⟨fun _ => 0, fun _ => 0, ()⟩

/-- `sw $a0, 0($a1); dmult $a0, $a1; jr $ra; nop` -/
def storeThenDmult : GuestMemory := GuestMemory.ofWords 0x1000
  [0xACA40000, 0x0085001C, 0x03E00008, 0x00000000]

/-- The store goes to the PI registers, behind the 8 MiB, and stays there when
the interpreter gives up at the `dmult`. -/
theorem failed_diff_keeps_store :
    ∃ s' o, runShadowDiff guestMacros wholeFloat (noNative _ _) 4 0x80001000 id
        (leafEntry storeThenDmult 0xFFFFFFFFA4600000) = some (s', o)
      ∧ o.interpOk = false
      ∧ ¬ShadowTransparent guestMacros wholeFloat (noNative _ _) 4 0x80001000
        (leafEntry storeThenDmult 0xFFFFFFFFA4600000) s' := by
  have stored : (runShadowDiff guestMacros wholeFloat (noNative _ _) 4 0x80001000 id
      (leafEntry storeThenDmult 0xFFFFFFFFA4600000)).map
      (fun after => (after.1.rdram 0x24600000, after.2.interpOk)) = some (1, false) := by
    decide
  obtain ⟨⟨s', o⟩, run, left⟩ := Option.map_eq_some_iff.mp stored
  obtain ⟨byte, notOk⟩ := Prod.mk.inj left
  refine ⟨s', o, run, notOk, ?_⟩
  have fails : (interpreterPass guestMacros wholeFloat (noNative _ _) 4 0x80001000
      (leafEntry storeThenDmult 0xFFFFFFFFA4600000)).gaveUp = true := by decide
  obtain ⟨t, pass⟩ := InterpResult.of_gaveUp fails
  unfold ShadowTransparent
  rw [pass]
  rintro ⟨_, same⟩
  rw [same] at byte
  exact absurd byte (by decide)

/-- `sw $a0, 0($a1); jr $ra; nop` -/
def storeAndReturn : GuestMemory := GuestMemory.ofWords 0x1000
  [0xACA40000, 0x03E00008, 0x00000000]

/-- A candidate that does nothing is discarded. -/
theorem idle_candidate_discarded :
    ∃ s' o, runShadowDiff guestMacros wholeFloat (noNative _ _) 4 0x80001000 id
        (leafEntry storeAndReturn 0xFFFFFFFF80100000) = some (s', o)
      ∧ o.ranNative = true
      ∧ ShadowTransparent guestMacros wholeFloat (noNative _ _) 4 0x80001000
        (leafEntry storeAndReturn 0xFFFFFFFF80100000) s' := by
  have comes : (runShadowDiff guestMacros wholeFloat (noNative _ _) 4 0x80001000 id
      (leafEntry storeAndReturn 0xFFFFFFFF80100000)).map (fun after => after.2.ranNative)
      = some true := by decide
  obtain ⟨⟨s', o⟩, run, native⟩ := Option.map_eq_some_iff.mp comes
  refine ⟨s', o, run, native, (shadow_diff_transparent_iff run).mpr ?_⟩
  have succeeds : (interpreterPass guestMacros wholeFloat (noNative _ _) 4 0x80001000
      (leafEntry storeAndReturn 0xFFFFFFFF80100000)).gaveUp = false := by decide
  unfold SnapshotSuffices
  generalize interpreterPass guestMacros wholeFloat (noNative _ _) 4 0x80001000
      (leafEntry storeAndReturn 0xFFFFFFFF80100000) = pass at succeeds ⊢
  cases pass with
  | returned t =>
      intro _
      exact ⟨rfl, fun place above => dif_neg (Nat.not_lt.mpr above)⟩
  | failed t => cases succeeds
  | fault => trivial
  | outOfFuel => trivial

end Leaves

end N64ModernRuntime.Librecomp
