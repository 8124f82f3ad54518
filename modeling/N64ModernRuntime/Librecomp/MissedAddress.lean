import N64ModernRuntime.Librecomp.MissedFunction

/-!
# overlays.cpp: the address of a miss

`g_self_heal_addr` is read again by each tier, and a miss inside a tier writes
it.
-/

set_option autoImplicit false

namespace N64ModernRuntime.Librecomp

open Fallback

variable {table : SectionTable} {ε : Type}

section Kept

variable (env : HealEnv table ε)

/-- The last miss inside the rejecting function, or inside the interpretation
that has failed after it, was of the same address. -/
def RejectKept (s : Thread table ε) : Prop :=
  match dispatchEnclosing env s.selfHealAddr s with
  | .rejected t =>
    if t.heal.rejectInterpDepth < kMaxRejectInterpDepth then
      ∀ u, interpretFunction env s.selfHealAddr t.deeper = .failed u →
        Thread.selfHealAddr u = s.selfHealAddr
    else t.selfHealAddr = s.selfHealAddr
  | _ => True

def ExecutionKept (faddr : UInt32) (c : Option FragmentCandidate) (s : Thread table ε) :
    Prop :=
  match fragmentRun env c with
  | .shadow _ _ =>
    ∀ t, interpreterPass env.H env.fp (lookupFunctionOrNull env) env.fuel faddr.toBitVec s
        = .failed t →
      Thread.selfHealAddr t = s.selfHealAddr
  | .pinned => ∀ t, interpretFunction env faddr s = .failed t →
      Thread.selfHealAddr t = s.selfHealAddr
  | _ => True

def FragmentKept (s : Thread table ε) : Prop :=
  fragmentArmed env s = true → fragmentEligible s = true →
    let (c, t) := trackCandidate env s.selfHealAddr s
    ExecutionKept env s.selfHealAddr c t

def FloorKept (s : Thread table ε) : Prop :=
  ∀ t, interpretFunction env s.selfHealAddr s = .returned t →
    Thread.selfHealAddr t = s.selfHealAddr

def EntersFloor (s s' : Thread table ε) : Prop :=
  (inOrder [enclosingTier env, jitTier env, restoreTier env, fragmentTier env] s).outcome
    = .next s'

/-- No code that runs before the address is read again has left a miss of
another address. -/
structure AddressKept (s : Thread table ε) : Prop where
  reject : RejectKept env s
  fragment : ∀ s', EntersFragments env s s' → env.interpEnabled = true → FragmentKept env s'
  floor : ∀ s', EntersFloor env s s' → env.interpEnabled = true → FloorKept env s'

end Kept

section Tiers

variable {env : HealEnv table ε} {s s' : Thread table ε}

def Use.read (use : Use table ε) : Option UInt32 := some use.addr

theorem faithful_addr_iff {tier : HealTier table ε} :
    Faithful Use.read Thread.selfHealAddr tier s
      ↔ ∀ use ∈ (tier s).log, use.addr = s.selfHealAddr := by
  simp [Faithful, reads, Use.read]

theorem reads_addr_eq_nil {tier : HealTier table ε} :
    reads Use.read tier s = [] ↔ (tier s).log = [] := by
  simp [reads, Use.read, List.eq_nil_iff_forall_not_mem]

theorem Plain.faithful_addr {tier : HealTier table ε} (plain : Plain tier)
    (s : Thread table ε) : Faithful Use.read Thread.selfHealAddr tier s :=
  faithful_addr_iff.mpr fun use logged => plain.addrs s use logged

theorem Plain.opens_addr {tier : HealTier table ε} (plain : Plain tier) :
    Opens Use.read Thread.selfHealAddr tier where
  first s addr head := plain.faithful_addr s addr (List.mem_of_head? head)
  silent s s' none next := by
    refine (plain.silent s s' (fun use logged => ?_) next).2
    rw [reads_addr_eq_nil.mp none] at logged
    cases logged

/-- The dispatch and the interpretation after a reject use the address that was
read before them. -/
theorem enclosingTier_addrs (s : Thread table ε) : (enclosingTier env s).log ≠ []
    ∧ ∀ use ∈ (enclosingTier env s).log, use.addr = s.selfHealAddr := by
  simp only [enclosingTier]
  split
  · simp
  · simp
  · split
    · split <;> simp
    · simp

theorem enclosingTier_opens_addr : Opens Use.read Thread.selfHealAddr (enclosingTier env) where
  first s addr head :=
    faithful_addr_iff.mpr (enclosingTier_addrs s).2 addr (List.mem_of_head? head)
  silent s _ none _ := absurd (reads_addr_eq_nil.mp none) (enclosingTier_addrs s).1

theorem floorTier_opens_addr : Opens Use.read Thread.selfHealAddr (floorTier env) where
  first s addr head := by
    simp only [reads, floorTier] at head
    split at head
    · cases head
    · split at head <;> simpa [Use.read, eq_comm] using head
  silent s s' none next := by
    simp only [reads, floorTier] at none next
    split at next
    · cases next
      rfl
    · split at next <;> simp_all [Use.read]

theorem floorTier_addr_iff : Faithful Use.read Thread.selfHealAddr (floorTier env) s
    ↔ (env.interpEnabled = true → FloorKept env s) := by
  rw [faithful_addr_iff]
  cases enabled : env.interpEnabled with
  | false => simp [floorTier, enabled]
  | true =>
      simp only [floorTier, enabled, FloorKept]
      cases interpretFunction env s.selfHealAddr s <;> simp

theorem reads_addr_floor : reads Use.read (inOrder [floorTier env]) s ≠ []
    ↔ env.interpEnabled = true := by
  rw [reads_singleton, ne_eq, reads_addr_eq_nil]
  cases enabled : env.interpEnabled with
  | false => simp [floorTier, enabled]
  | true =>
      simp only [floorTier, enabled]
      cases interpretFunction env s.selfHealAddr s <;> simp

theorem reads_addr_restore : reads Use.read (restoreTier env) s ≠ [] := by
  rw [ne_eq, reads_addr_eq_nil]
  simp only [restoreTier]
  split <;> simp

/-- The tier of the eviction test reads the address in any case. -/
theorem reads_addr_lower : reads Use.read (inOrder (lowerTiers env)) s ≠ [] := by
  rcases next_or_stopped (jitTier env) s with ⟨s', next⟩ | stopped
  · obtain rfl := jitTier_next next
    rw [lowerTiers, reads_next next]
    exact List.append_ne_nil_of_right_ne_nil _ (reads_cons_ne_nil reads_addr_restore)
  · refine reads_cons_ne_nil ?_
    rw [ne_eq, reads_addr_eq_nil]
    intro none
    simp only [jitTier] at none stopped
    split at none
    · split at none
      · split at none <;> cases none
      · cases none
    · simp_all

theorem executeFragment_addr_iff (faddr : UInt32) (c : Option FragmentCandidate) :
    (∀ s', (executeFragment env faddr c s).outcome = .next s' →
        s'.selfHealAddr = s.selfHealAddr)
      ↔ ExecutionKept env faddr c s := by
  simp only [executeFragment_next, ExecutionKept]
  cases fragmentRun env c with
  | bookkeeping => simp
  | native fn => simp
  | shadow fn hash =>
      constructor
      · intro kept t failed
        exact kept (putBack s.ctx (disarmed t)) (.inr (.inl ⟨fn, hash, t, rfl, failed, rfl⟩))
      · rintro all s' (⟨⟨⟩, _⟩ | ⟨_, _, t, _, failed, rfl⟩ | ⟨⟨⟩, _⟩)
        exact all t failed
  | pinned => simp

theorem fragmentTier_addr_iff :
    (∀ s', (fragmentTier env s).outcome = .next s' → s'.selfHealAddr = s.selfHealAddr)
      ↔ FragmentKept env s := by
  unfold FragmentKept fragmentTier
  by_cases armed : fragmentArmed env s
  · by_cases eligible : fragmentEligible s
    · simp only [armed, eligible, Bool.not_true, Bool.false_eq_true, if_false, forall_const]
      refine Iff.trans ?_ (executeFragment_addr_iff s.selfHealAddr _)
      rw [trackCandidate_addr]
    · simp [armed, eligible]
  · simp [armed]

theorem enclosingTier_kept_iff :
    (∀ s', (enclosingTier env s).outcome = .next s' → s'.selfHealAddr = s.selfHealAddr)
      ↔ RejectKept env s := by
  simp only [enclosingTier, RejectKept]
  cases dispatchEnclosing env s.selfHealAddr s with
  | notFound => simp
  | returned t => simp
  | rejected t =>
      by_cases shallow : t.heal.rejectInterpDepth < kMaxRejectInterpDepth
      · simp only [shallow, if_true]
        cases interpretFunction env s.selfHealAddr t.deeper <;> simp
        rfl
      · simp [shallow]

theorem steady_addr_fragments_iff :
    Steady Use.read Thread.selfHealAddr [fragmentTier env, floorTier env] s
      ↔ (env.interpEnabled = true → FragmentKept env s)
        ∧ ∀ s', (fragmentTier env s).outcome = .next s' → env.interpEnabled = true →
          FloorKept env s' := by
  simp only [Steady, fragmentTier_plain.faithful_addr, floorTier_addr_iff, reads_addr_floor,
    true_and, and_true, ← fragmentTier_addr_iff]
  constructor
  · intro steady
    exact ⟨fun enabled s' next => (steady s' next).1 enabled,
      fun s' next => (steady s' next).2.1⟩
  · rintro ⟨kept, floor⟩ s' next
    exact ⟨fun enabled => kept enabled s' next, floor s' next, by simp [reads, inOrder]⟩

theorem steady_addr_lower_iff :
    Steady Use.read Thread.selfHealAddr (lowerTiers env) s
      ↔ (∀ s', (inOrder [jitTier env, restoreTier env] s).outcome = .next s' →
          env.interpEnabled = true → FragmentKept env s')
        ∧ ∀ s', (inOrder [jitTier env, restoreTier env, fragmentTier env] s).outcome
            = .next s' →
          env.interpEnabled = true → FloorKept env s' := by
  unfold lowerTiers
  rw [steady_cons_of_same (jitTier_single.plain.faithful_addr s) fun s' => jitTier_next,
    steady_cons_of_same (restoreTier_single.plain.faithful_addr s) fun s' => restoreTier_next,
    steady_addr_fragments_iff]
  simp only [inOrder_next]
  constructor
  · intro steady
    constructor
    · rintro s' ⟨t, jit, u, restore, last⟩
      obtain rfl := jitTier_next jit
      obtain rfl := restoreTier_next restore
      cases last
      exact (steady jit restore).1
    · rintro s' ⟨t, jit, u, restore, v, fragment, last⟩
      obtain rfl := jitTier_next jit
      obtain rfl := restoreTier_next restore
      cases last
      exact (steady jit restore).2 _ fragment
  · rintro ⟨fragment, floor⟩ jit restore
    exact ⟨fragment s ⟨s, jit, s, restore, rfl⟩,
      fun s' next => floor s' ⟨s, jit, s, restore, s', next, rfl⟩⟩

theorem getFunction_missed {addr : UInt32} {s₀ : Thread table ε}
    (missed : getFunction addr s₀ = (.unhandledLookupTrampoline, s)) :
    s.selfHealAddr = addr := by
  unfold getFunction at missed
  split at missed
  · cases missed
  · cases missed
    rfl

/-- The tiers of a call that follows a miss use the address of the miss exactly
when no code that they run before reading it again has left another one. -/
theorem missed_address_used_iff {env : HealEnv table ε} {addr : UInt32}
    {s₀ s : Thread table ε}
    (missed : getFunction addr s₀ = (.unhandledLookupTrampoline, s)) :
    (∀ use ∈ (unhandledLookupTrampoline env s).log, use.addr = addr)
      ↔ AddressKept env s := by
  have opens : ∀ tier ∈ enclosingTier env :: lowerTiers env,
      Opens Use.read Thread.selfHealAddr tier := by
    intro tier among
    simp only [lowerTiers, List.mem_cons, List.not_mem_nil, or_false] at among
    rcases among with rfl | rfl | rfl | rfl | rfl
    · exact enclosingTier_opens_addr
    · exact jitTier_single.plain.opens_addr
    · exact restoreTier_single.plain.opens_addr
    · exact fragmentTier_plain.opens_addr
    · exact floorTier_opens_addr
  have written : s.selfHealAddr = addr := getFunction_missed missed
  rw [← written]
  refine faithful_addr_iff.symm.trans ((faithful_iff_steady opens s).trans ?_)
  rw [Steady]
  constructor
  · rintro ⟨_, onward⟩
    refine ⟨enclosingTier_kept_iff.mp fun s' next => (onward s' next).1 reads_addr_lower,
      fun s' enters => ?_, fun s' enters => ?_⟩
    · obtain ⟨t, next, rest⟩ := inOrder_next.mp enters
      exact (steady_addr_lower_iff.mp (onward t next).2).1 s' rest
    · obtain ⟨t, next, rest⟩ := inOrder_next.mp enters
      exact (steady_addr_lower_iff.mp (onward t next).2).2 s' rest
  · rintro ⟨reject, fragment, floor⟩
    refine ⟨faithful_addr_iff.mpr (enclosingTier_addrs s).2, fun s' next => ?_⟩
    refine ⟨fun _ => enclosingTier_kept_iff.mpr reject s' next, steady_addr_lower_iff.mpr ?_⟩
    exact ⟨fun t rest => fragment t (inOrder_next.mpr ⟨s', next, rest⟩),
      fun t rest => floor t (inOrder_next.mpr ⟨s', next, rest⟩)⟩

end Tiers

section Quiet

variable {env : HealEnv table ε}

def QuietNatives (env : HealEnv table ε) : Prop :=
  ∀ (f : RecompFunc) (s : Thread table ε), (env.call f s).selfHealAddr = s.selfHealAddr

theorem quietLookup (quiet : QuietNatives env) :
    QuietLookup (fun host => host.rest.selfHealAddr) (lookupFunctionOrNull env) := by
  intro s target nf found t
  obtain ⟨f, _, rfl⟩ := Option.map_eq_some_iff.mp found
  exact quiet f t

theorem dispatchEnclosing_addr (quiet : QuietNatives env) {s t : Thread table ε}
    {addr : UInt32} (rejected : dispatchEnclosing env addr s = .rejected t) :
    t.selfHealAddr = s.selfHealAddr := by
  unfold dispatchEnclosing at rejected
  split at rejected
  · cases rejected
  · simp only at rejected
    split at rejected
    · cases rejected
      exact quiet _ _
    · cases rejected

theorem interpretFunction_addr (quiet : QuietNatives env) {addr : UInt32}
    {s s' : Thread table ε} (left : (interpretFunction env addr s).state = some s') :
    s'.selfHealAddr = s.selfHealAddr :=
  interpret_keeps (quietLookup quiet) left

/-- Where the native functions are quiet, every tier uses the address of the
miss. -/
theorem addressKept_of_quiet (quiet : QuietNatives env) (s : Thread table ε) :
    AddressKept env s where
  reject := by
    unfold RejectKept
    split
    · rename_i t rejected
      have kept := dispatchEnclosing_addr quiet rejected
      split
      · intro u failed
        have left := interpretFunction_addr quiet (congrArg InterpResult.state failed)
        exact left.trans kept
      · exact kept
    · trivial
  fragment s' _ _ _ _ := by
    simp only [ExecutionKept]
    split
    · intro t failed
      exact interpret_keeps (s := armed _) (quietLookup quiet)
        (congrArg InterpResult.state failed)
    · intro t failed
      exact interpretFunction_addr quiet (congrArg InterpResult.state failed)
    · trivial
  floor _ _ _ _ returned := interpretFunction_addr quiet (congrArg InterpResult.state returned)

end Quiet

section Nested

/-- `jal 0x80100000; nop; dmult $a0, $a1; jr $ra; nop` at 0x80300020, and
`jr $ra; nop` at 0x80400000. -/
def callThenDmult : GuestMemory := fun place =>
  if place.toNat < 0x400000 then
    GuestMemory.ofWords 0x300020
      [0x0C040000, 0x00000000, 0x0085001C, 0x03E00008, 0x00000000] place
  else GuestMemory.ofWords 0x400000 [0x03E00008, 0x00000000] place

def beforeMiss : Thread oneFragment Unit :=
  (missedAt 0 callThenDmult).setHeal { (missedAt 0 callThenDmult).heal with
    overlays := { Overlays.initOverlays oneFragment with
      funcMap := fun a => if a = 0x80100000 then some 1 else none } }

def quietEnv : HealEnv oneFragment Unit :=
  { rejectingEnv with
    call := fun _ s => s
    discoverFunctionBounds := fun _ addr => some (if addr = 0x80400000 then 8 else 20) }

/-- A leaf that is missed is healed under its own address. -/
theorem leaf_miss_keeps_address : ∃ s,
    getFunction 0x80400000 beforeMiss = (.unhandledLookupTrampoline, s)
      ∧ AddressKept quietEnv s := by
  have missed : getFunction 0x80400000 beforeMiss
      = (.unhandledLookupTrampoline, (getFunction 0x80400000 beforeMiss).2) := rfl
  exact ⟨_, missed, (missed_address_used_iff missed).mp (by decide)⟩

/-- The native function looks 0x80400000 up, misses it, and calls the
trampoline. -/
def nestingEnv : HealEnv oneFragment Unit :=
  { quietEnv with
    call := fun f s =>
      if f = 1 then
        match (unhandledLookupTrampoline quietEnv (getFunction 0x80400000 s).2).outcome with
        | .ended s' => s'
        | _ => s
      else s }

/-- The pinned interpretation of 0x80300020 fails after the nested miss, and
the floor interprets 0x80400000 in its place. -/
theorem nested_miss_takes_over : ∃ s,
    getFunction 0x80300020 beforeMiss = (.unhandledLookupTrampoline, s)
      ∧ ¬∀ use ∈ (unhandledLookupTrampoline nestingEnv s).log, use.addr = 0x80300020 :=
  ⟨_, rfl, by decide⟩

end Nested

end N64ModernRuntime.Librecomp
