import N64ModernRuntime.Librecomp.SelfHeal

/-!
# overlays.cpp: a missed function is executed from the state of its call

An interpretation that fails part way has changed the context and the memory,
and the next tier executes the function from there.
-/

set_option autoImplicit false

namespace N64ModernRuntime.Librecomp

open Fallback

variable {table : SectionTable} {ε : Type}

section Undone

variable (env : HealEnv table ε)

/-! Which of the lower tiers execute the function, each where it is reached. -/

def JitRuns (s : Thread table ε) : Prop :=
  env.jitTierEnabled = true ∧ addrInResidentStaticSection table s.selfHealAddr = true ∧
    jitCompileFunction env s.rdram s.selfHealAddr ≠ none

def RestoreRuns (s : Thread table ε) : Prop := s.heal.evictedFuncs s.selfHealAddr ≠ none

def FragmentRuns (s : Thread table ε) : Prop :=
  fragmentArmed env s = true ∧ fragmentEligible s = true ∧
    fragmentRun env (trackCandidate env s.selfHealAddr s).1 ≠ .bookkeeping

def RunsBelow (s : Thread table ε) : Prop :=
  JitRuns env s ∨ RestoreRuns s ∨ FragmentRuns env s ∨ env.interpEnabled = true

/-- What a shadow diff puts back after an interpretation that ends in `t` is the memory with
which it has begun. -/
def PutsBack (s t : Thread table ε) : Prop :=
  t.host.ram0 = s.rdram.ram ∧ t.rdram.AgreeAbove s.rdram

/-- A shadow diff puts the memory back before the native function is run, and where its
interpretation fails before the floor is; a pinned interpretation that fails before the floor
is run has changed nothing. -/
def ExecutionUndone (faddr : UInt32) (c : Option FragmentCandidate) (s : Thread table ε) :
    Prop :=
  match fragmentRun env c with
  | .shadow _ _ =>
    let pass := interpreterPass env.H env.fp (lookupFunctionOrNull env) env.fuel faddr.toBitVec s
    (∀ t, pass = .returned t → t.shadowTouchedNative = false → PutsBack s t) ∧
      (env.interpEnabled = true → ∀ t, pass = .failed t → PutsBack s t)
  | .pinned => env.interpEnabled = true →
      ∀ t, interpretFunction env faddr s = .failed t → Thread.view t = s.view
  | _ => True

def FragmentUndone (s : Thread table ε) : Prop :=
  fragmentArmed env s = true → fragmentEligible s = true →
    let (c, t) := trackCandidate env s.selfHealAddr s
    ExecutionUndone env s.selfHealAddr c t

/-- The fragment tier, where the tiers in front of it execute nothing, undoes what fails. -/
def LowerUndone (s : Thread table ε) : Prop :=
  ¬ JitRuns env s → ¬ RestoreRuns s → FragmentUndone env s

/-- No interpretation leaves anything behind before the function is executed again: an
enclosing function that rejects the entry has run nothing, the interpretation that follows
has changed nothing when it fails, and the fragment tier undoes what fails. -/
def FailuresUndone (s : Thread table ε) : Prop :=
  match dispatchEnclosing env s.selfHealAddr s with
  | .notFound => LowerUndone env s
  | .returned _ => True
  | .rejected t =>
    if t.heal.rejectInterpDepth < kMaxRejectInterpDepth then
      t.view = s.view ∧ ∀ u, interpretFunction env s.selfHealAddr t.deeper = .failed u →
        (RunsBelow env (Thread.shallower u) → Thread.view u = s.view) ∧
          LowerUndone env (Thread.shallower u)
    else (RunsBelow env t → t.view = s.view) ∧ LowerUndone env t

end Undone

section Tiers

variable {env : HealEnv table ε} {s s' : Thread table ε}

def Use.runView (use : Use table ε) : Option (RecompContext × GuestMemory) :=
  use.runs.map Thread.view

theorem faithful_view_iff {tier : HealTier table ε} :
    Faithful Use.runView Thread.view tier s
      ↔ ∀ use ∈ (tier s).log, ∀ t, use.runs = some t → t.view = s.view := by
  simp only [Faithful, reads, List.mem_filterMap, Use.runView, Option.map_eq_some_iff]
  constructor
  · intro faithful use logged t runs
    exact faithful t.view ⟨use, logged, t, runs, rfl⟩
  · rintro own view ⟨use, logged, t, runs, rfl⟩
    exact own use logged t runs

theorem Single.faithful_view {tier : HealTier table ε} (single : Single tier)
    (s : Thread table ε) : Faithful Use.runView Thread.view tier s :=
  faithful_view_iff.mpr fun use logged => (single.uses s use logged).2

theorem reads_view {tier : HealTier table ε} : reads Use.runView tier s =
    ((tier s).log.filterMap Use.runs).map Thread.view :=
  (List.map_filterMap ..).symm

theorem reads_eq_nil {tier : HealTier table ε} :
    reads Use.runView tier s = [] ↔ ∀ use ∈ (tier s).log, use.runs = none := by
  simp [reads, Use.runView, List.filterMap_eq_nil_iff]

theorem Plain.opens_view {tier : HealTier table ε} (plain : Plain tier) :
    Opens Use.runView Thread.view tier where
  first s view head := by
    rw [reads_view, List.head?_map] at head
    obtain ⟨t, first, rfl⟩ := Option.map_eq_some_iff.mp head
    exact plain.first s t first
  silent s s' none next := (plain.silent s s' (reads_eq_nil.mp none) next).1

theorem enclosingTier_opens_view : Opens Use.runView Thread.view (enclosingTier env) where
  first s view head := by
    simp only [reads, enclosingTier] at head
    split at head
    · simp [Use.runView] at head
    · simpa [Use.runView, eq_comm] using head
    · split at head
      · split at head <;> simpa [Use.runView, eq_comm] using head
      · simpa [Use.runView, eq_comm] using head
  silent s s' none next := by
    simp only [reads, enclosingTier] at none next
    split at next
    · cases next
      rfl
    · cases next
    · split at next
      · split at next <;> simp_all [Use.runView]
      · simp_all [Use.runView]

theorem floorTier_view : reads Use.runView (floorTier env) s
    = if env.interpEnabled then [s.view] else [] := by
  cases enabled : env.interpEnabled with
  | false => simp [reads, floorTier, enabled]
  | true =>
      simp only [reads, floorTier, enabled]
      cases interpretFunction env s.selfHealAddr s <;> simp [Use.runView]

theorem floorTier_opens_view : Opens Use.runView Thread.view (floorTier env) where
  first s view head := by
    rw [floorTier_view] at head
    split at head
    · simpa [eq_comm] using head
    · cases head
  silent s s' none next := by
    rw [floorTier_view] at none
    split at none
    · cases none
    · simp_all [floorTier]

theorem floorTier_faithful_view : Faithful Use.runView Thread.view (floorTier env) s := by
  intro view among
  rw [floorTier_view] at among
  split at among
  · exact List.mem_singleton.mp among
  · cases among

theorem reads_floor : reads Use.runView (inOrder [floorTier env]) s ≠ []
    ↔ env.interpEnabled = true := by
  rw [reads_singleton, floorTier_view]
  cases env.interpEnabled <;> simp

/-! Which tiers execute the function -/

theorem jitTier_runs_iff : ((jitTier env s).outcome = .next s ↔ ¬ JitRuns env s) ∧
    (reads Use.runView (jitTier env) s ≠ [] ↔ JitRuns env s) := by
  rw [ne_eq, reads_eq_nil]
  simp only [jitTier, JitRuns]
  by_cases enabled : env.jitTierEnabled
  · by_cases resident : addrInResidentStaticSection table s.selfHealAddr
    · cases jitCompileFunction env s.rdram s.selfHealAddr <;> simp [enabled, resident]
    · simp [enabled, resident]
  · simp [enabled]

theorem restoreTier_runs_iff : ((restoreTier env s).outcome = .next s ↔ ¬ RestoreRuns s) ∧
    (reads Use.runView (restoreTier env) s ≠ [] ↔ RestoreRuns s) := by
  rw [ne_eq, reads_eq_nil]
  simp only [restoreTier, RestoreRuns]
  cases s.heal.evictedFuncs s.selfHealAddr <;> simp

theorem fragmentTier_reads : reads Use.runView (fragmentTier env) s ≠ [] ↔ FragmentRuns env s := by
  rw [ne_eq, reads_eq_nil]
  unfold fragmentTier FragmentRuns
  by_cases armed : fragmentArmed env s
  · by_cases eligible : fragmentEligible s
    · simp only [armed, eligible, Bool.not_true, Bool.false_eq_true, if_false, true_and,
        executeFragment_log]
      by_cases run : fragmentRun env (trackCandidate env s.selfHealAddr s).1 = .bookkeeping
      · simp [run]
      · obtain ⟨rest, uses⟩ := fragmentUses_head env s.selfHealAddr
          (trackCandidate env s.selfHealAddr s).1 (trackCandidate env s.selfHealAddr s).2
        simp [run, uses]
    · simp [armed, eligible]
  · simp [armed]

/-- Where the fragment tier executes nothing the floor is reached. -/
theorem fragmentTier_silent (idle : ¬ FragmentRuns env s) :
    ∃ s', (fragmentTier env s).outcome = .next s' := by
  unfold fragmentTier
  by_cases armed : fragmentArmed env s
  · by_cases eligible : fragmentEligible s
    · have run : fragmentRun env (trackCandidate env s.selfHealAddr s).1 = .bookkeeping := by
        by_contra runs
        exact idle ⟨armed, eligible, runs⟩
      simp [armed, eligible, executeFragment_bookkeeping run]
    · simp [armed, eligible]
  · simp [armed]

theorem reads_fragments : reads Use.runView (inOrder [fragmentTier env, floorTier env]) s ≠ [] ↔
    FragmentRuns env s ∨ env.interpEnabled = true := by
  rw [← fragmentTier_reads]
  by_cases runs : reads Use.runView (fragmentTier env) s = []
  · obtain ⟨s', next⟩ := fragmentTier_silent fun own => fragmentTier_reads.mpr own runs
    rw [reads_next next, runs, List.nil_append, reads_floor]
    simp
  · simp [runs, reads_cons_ne_nil runs]

theorem runsBelow_iff : reads Use.runView (inOrder (lowerTiers env)) s ≠ [] ↔ RunsBelow env s := by
  unfold RunsBelow lowerTiers
  by_cases jit : JitRuns env s
  · simp [jit, reads_cons_ne_nil (jitTier_runs_iff.2.mpr jit)]
  · rw [reads_next (jitTier_runs_iff.1.mpr jit),
      not_not.mp fun reads => jit (jitTier_runs_iff.2.mp reads), List.nil_append]
    by_cases restore : RestoreRuns s
    · simp [restore, reads_cons_ne_nil (restoreTier_runs_iff.2.mpr restore)]
    · rw [reads_next (restoreTier_runs_iff.1.mpr restore),
        not_not.mp fun reads => restore (restoreTier_runs_iff.2.mp reads), List.nil_append,
        reads_fragments]
      simp [jit, restore]

/-! What is left behind -/

theorem putBack_view_iff {t : Thread table ε} :
    Thread.view (putBack s.ctx (disarmed t)) = s.view ↔ PutsBack s t :=
  Prod.mk_right_inj.trans GuestMemory.setRam_eq_iff

theorem rewound_view_iff {t : Thread table ε} :
    Thread.view (rewound s.ctx (disarmed t)) = s.view ↔ PutsBack s t :=
  Prod.mk_right_inj.trans GuestMemory.setRam_eq_iff

theorem executeFragment_undone_iff (faddr : UInt32) (c : Option FragmentCandidate) :
    ((∀ use ∈ (executeFragment env faddr c s).log, ∀ t, use.runs = some t → t.view = s.view) ∧
      (env.interpEnabled = true →
        ∀ s', (executeFragment env faddr c s).outcome = .next s' → s'.view = s.view)) ↔
      ExecutionUndone env faddr c s := by
  simp only [executeFragment_log, executeFragment_next, ExecutionUndone, fragmentUses, shadowLog]
  cases fragmentRun env c with
  | bookkeeping => simp
  | native fn => simp
  | shadow fn hash =>
      refine and_congr ?_ (forall_congr' fun _ => ?_)
      · constructor
        · intro own t pass untouched
          refine rewound_view_iff.mp (own ⟨faddr, some (rewound s.ctx (disarmed t))⟩ ?_ _ rfl)
          rw [if_neg (by simp), nativePass_eq_some.mpr ⟨t, pass, untouched, rfl⟩]
          simp
        · intro own use logged t runs
          rw [if_neg (by simp)] at logged
          rcases List.mem_cons.mp logged with rfl | native
          · cases runs
            rfl
          · obtain ⟨n, second, rfl⟩ := List.mem_map.mp native
            cases runs
            obtain ⟨u, pass, untouched, rfl⟩ := nativePass_eq_some.mp (Option.mem_toList.mp second)
            exact rewound_view_iff.mpr (own u pass untouched)
      · constructor
        · intro kept t failed
          exact putBack_view_iff.mp (kept _ (.inr (.inl ⟨fn, hash, t, rfl, failed, rfl⟩)))
        · rintro all s' (⟨⟨⟩, _⟩ | ⟨_, _, t, _, failed, rfl⟩ | ⟨⟨⟩, _⟩)
          exact putBack_view_iff.mpr (all t failed)
  | pinned => simp

theorem fragmentTier_undone_iff :
    (Faithful Use.runView Thread.view (fragmentTier env) s ∧ (env.interpEnabled = true →
      ∀ s', (fragmentTier env s).outcome = .next s' → s'.view = s.view)) ↔
      FragmentUndone env s := by
  rw [faithful_view_iff]
  unfold FragmentUndone fragmentTier
  by_cases armed : fragmentArmed env s
  · by_cases eligible : fragmentEligible s
    · simp only [armed, eligible, Bool.not_true, Bool.false_eq_true, if_false, forall_const]
      rw [← trackCandidate_view s.selfHealAddr]
      exact executeFragment_undone_iff _ _
    · simp [armed, eligible]
  · simp [armed]

theorem steady_fragments_iff :
    Steady Use.runView Thread.view [fragmentTier env, floorTier env] s
      ↔ FragmentUndone env s := by
  rw [← fragmentTier_undone_iff]
  simp only [Steady, floorTier_faithful_view, reads_floor, true_and, and_true]
  refine and_congr_right fun _ => ?_
  constructor
  · intro steady enabled s' next
    exact (steady s' next).1 enabled
  · intro undone s' next
    exact ⟨fun enabled => undone enabled s' next, by simp [reads, inOrder]⟩

theorem steady_lower_iff :
    Steady Use.runView Thread.view (lowerTiers env) s ↔ LowerUndone env s := by
  unfold lowerTiers LowerUndone
  rw [steady_cons_of_same (jitTier_single.faithful_view s) fun s' => jitTier_next,
    steady_cons_of_same (restoreTier_single.faithful_view s) fun s' => restoreTier_next,
    steady_fragments_iff, jitTier_runs_iff.1, restoreTier_runs_iff.1]

theorem enclosingTier_undone_iff :
    (Faithful Use.runView Thread.view (enclosingTier env) s
        ∧ ∀ s', (enclosingTier env s).outcome = .next s' →
          (RunsBelow env s' → s'.view = s.view) ∧ LowerUndone env s')
      ↔ FailuresUndone env s := by
  simp only [Faithful, reads, enclosingTier, FailuresUndone]
  cases dispatchEnclosing env s.selfHealAddr s with
  | notFound => simp [Use.runView]
  | returned t => simp [Use.runView]
  | rejected t =>
      by_cases shallow : t.heal.rejectInterpDepth < kMaxRejectInterpDepth
      · simp only [shallow, if_true]
        cases interpretFunction env s.selfHealAddr t.deeper <;> simp [Use.runView]
      · simp [shallow, Use.runView]

/-- In one call of the trampoline the missed function is executed only from the
context and the memory of the call exactly when the interpretations that come
before another execution have changed nothing, or nothing that a shadow diff
does not put back. -/
theorem executed_from_entry_iff (env : HealEnv table ε) (s : Thread table ε) :
    (∀ use ∈ (unhandledLookupTrampoline env s).log, ∀ t, use.runs = some t →
      t.view = s.view) ↔ FailuresUndone env s := by
  have opens : ∀ tier ∈ enclosingTier env :: lowerTiers env,
      Opens Use.runView Thread.view tier := by
    intro tier among
    simp only [lowerTiers, List.mem_cons, List.not_mem_nil, or_false] at among
    rcases among with rfl | rfl | rfl | rfl | rfl
    · exact enclosingTier_opens_view
    · exact jitTier_single.plain.opens_view
    · exact restoreTier_single.plain.opens_view
    · exact fragmentTier_plain.opens_view
    · exact floorTier_opens_view
  refine faithful_view_iff.symm.trans ((faithful_iff_steady opens s).trans ?_)
  rw [Steady, ← enclosingTier_undone_iff]
  refine and_congr_right fun _ => forall₂_congr fun s' _ => ?_
  rw [runsBelow_iff, steady_lower_iff]

end Tiers

section Rejected

def oneFragment : SectionTable where
  numCodeSections := 1
  codeSections _ := ⟨0x1000, 0x82000000, 0x1000, [⟨some 1, 0, 0x40⟩], 0, 0, 0xFFFFFFFF⟩
  overlays := [0]
  sorted := by decide
  index_injective := by decide
  aligned := by decide
  offset_lt := by decide
  offset_injective := by decide

def loadedFragment : Overlays oneFragment :=
  { Overlays.initOverlays oneFragment with
    loadedSections := [⟨0x80300000, (0 : Fin 1)⟩]
    funcMap := fun a => if a = 0x80300000 ∨ a = 0x82000000 then some 1 else none }

/-- Entered at an address of the fragment that has been missed, with `$ra` in
other code. -/
def missedAt (addr : UInt32) (rdram : GuestMemory) : Thread oneFragment Unit where
  ctx := { emptyContext with r := Function.update (fun _ => 0) 31 0x80002000 }
  rdram := rdram
  shadowActive := false
  shadowTouchedNative := false
  host := ⟨fun _ => 0, fun _ => 0, loadedFragment, addr, 0, fun _ => none, fun _ => [], ()⟩

/-- The switches have their defaults.  The function of the fragment has no
label at an entry in its middle. -/
def rejectingEnv : HealEnv oneFragment Unit where
  H := guestMacros
  fp := wholeFloat
  fuel := 8
  call f s :=
    if f = 1 ∧ s.ctx.dispatchEntryTarget ≠ 0 then
      { s with ctx := { s.ctx with
          dispatchEntryRejected := true
          dispatchEntryRejectedTarget := s.ctx.dispatchEntryTarget } }
    else s
  discoverFunctionBounds _ _ := some 16
  codegenFunction _ _ := some 2
  jitTierEnabled := true
  fragJitEnabled := true
  fragNativeEnabled := true
  fragDiffBudget := 8
  interpEnabled := true

/-- `addiu $v0, $v0, 1; dmult $a0, $a1; jr $ra; nop` -/
def countThenDmult : GuestMemory := GuestMemory.ofWords 0x300020
  [0x24420001, 0x0085001C, 0x03E00008, 0x00000000]

/-- The interpretation after the reject counts in `$v0` before it gives up, and
the lower tiers begin from there. -/
theorem rejected_entry_counts_twice :
    ¬∀ use ∈ (unhandledLookupTrampoline rejectingEnv (missedAt 0x80300020 countThenDmult)).log,
      ∀ t, use.runs = some t →
        t.view = (missedAt 0x80300020 countThenDmult).view := by
  have counts : (unhandledLookupTrampoline rejectingEnv
      (missedAt 0x80300020 countThenDmult)).log.map (fun use => use.runs.map (·.R 2))
      = [some 0, some 0, none, none, some 1, some 1] := by decide
  intro same
  have last : some 1 ∈ (unhandledLookupTrampoline rejectingEnv
      (missedAt 0x80300020 countThenDmult)).log.map (fun use => use.runs.map (·.R 2)) := by
    rw [counts]
    decide
  obtain ⟨use, logged, ran⟩ := List.mem_map.mp last
  obtain ⟨t, runs, v0⟩ := Option.map_eq_some_iff.mp ran
  have entry : t.R 2 = (missedAt 0x80300020 countThenDmult).R 2 :=
    congrArg (fun view => view.1.r 2) (same use logged t runs)
  rw [v0] at entry
  exact absurd entry (by decide)

end Rejected

end N64ModernRuntime.Librecomp
