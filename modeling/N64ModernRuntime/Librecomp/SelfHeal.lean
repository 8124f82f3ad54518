import N64ModernRuntime.Lib.Fallback
import N64ModernRuntime.Librecomp.Fragments
import N64ModernRuntime.Librecomp.ShadowDiff

/-!
# overlays.cpp: what a lookup miss is healed with

`unhandled_lookup_trampoline` tries its tiers in order.  `HealEnv` holds what is
not in the repository: the code of the recompiled functions, the bounds and the
code that N64Recomp and tcc find for a function, and the environment variables.
-/

set_option autoImplicit false

namespace N64ModernRuntime.Librecomp

open Fallback

structure FragmentCandidate where
  addr : UInt32
  contentHash : UInt64
  codeLo : UInt32
  codeLen : UInt32
  fn : Option RecompFunc
  diffPasses : UInt32
  deviceTouch : Bool
  blacklisted : Bool
  deriving DecidableEq, Repr

/-- The statics of the trampoline.  `selfHealAddr` and `rejectInterpDepth` are
those of one thread. -/
structure HealHost (table : SectionTable) (ε : Type) where
  overlays : Overlays table
  selfHealAddr : UInt32
  rejectInterpDepth : Nat
  evictedFuncs : FuncMap
  fragCands : UInt32 → List FragmentCandidate
  rest : ε

abbrev Thread (table : SectionTable) (ε : Type) :=
  Machine GuestMemory (ShadowHost (HealHost table ε))

structure HealEnv (table : SectionTable) (ε : Type) where
  H : RecompH GuestMemory
  fp : HostFloat
  fuel : Nat
  /-- Calls a recompiled function. -/
  call : RecompFunc → Thread table ε → Thread table ε
  discoverFunctionBounds : List UInt8 → UInt32 → Option Nat
  /-- The compiler, under its guard and its watchdog. -/
  codegenFunction : UInt32 → List (BitVec 32) → Option RecompFunc
  jitTierEnabled : Bool
  fragJitEnabled : Bool
  fragNativeEnabled : Bool
  fragDiffBudget : UInt32
  interpEnabled : Bool

variable {table : SectionTable} {ε : Type}

namespace Thread

def heal (s : Thread table ε) : HealHost table ε := s.host.rest

def setHeal (s : Thread table ε) (heal : HealHost table ε) : Thread table ε :=
  { s with host := { s.host with rest := heal } }

def selfHealAddr (s : Thread table ε) : UInt32 := s.heal.selfHealAddr

/-- `func_map[(int32_t)addr] = f;` -/
def setFunc (s : Thread table ε) (addr : UInt32) (f : RecompFunc) : Thread table ε :=
  s.setHeal { s.heal with
    overlays := { s.heal.overlays with
      funcMap := Function.update s.heal.overlays.funcMap addr (some f) } }

end Thread

/-! ## Reading code -/

/-- `rdram[(paddr + i) ^ 3]` for `i < len` -/
def codeBytes (m : GuestMemory) (addr : UInt32) (len : Nat) : List UInt8 :=
  (List.range len).map fun i =>
    ⟨m ((((addr &&& 0x1FFFFFFF) + UInt32.ofNat i) ^^^ 3).toBitVec.setWidth 30)⟩

def fragmentLiveCodeHash (m : GuestMemory) (addr len : UInt32) : UInt64 :=
  fnv1a64 (codeBytes m addr len.toNat)

/-- 32 KiB, or what is left up to the end of RDRAM. -/
def codeWindow (addr : UInt32) : Nat :=
  min 0x8000 (0x00800000 - (addr &&& 0x1FFFFFFF).toNat)

/-- The word of four bytes, the first one in the high or the low bits. -/
def bigEndian : List UInt8 → BitVec 32
  | [a, b, c, d] => a.toBitVec ++ b.toBitVec ++ c.toBitVec ++ d.toBitVec
  | _ => 0

def littleEndian : List UInt8 → BitVec 32
  | [a, b, c, d] => d.toBitVec ++ c.toBitVec ++ b.toBitVec ++ a.toBitVec
  | _ => 0

/-- A word of a safe leaf: no call, no jump out of the function and no computed
jump. -/
def safeLeafWord (codeLo codeLen pcv : UInt32) (w : Insn) : Bool :=
  if w.op = 0x03 then false
  else if w.op = 0x02 then
    let tgt : UInt32 := (pcv &&& 0xF0000000) ||| ⟨(w &&& 0x03FFFFFF) <<< 2⟩
    !(decide (tgt < codeLo) || decide (codeLo + codeLen ≤ tgt))
  else if w.op = 0x00 then
    if w.fn = 0x09 then false
    else if w.fn = 0x08 then decide (w.rs = 31)
    else true
  else true

def fragmentIsSafeLeaf (m : GuestMemory) (codeLo codeLen : UInt32) : Bool :=
  (List.range (codeLen.toNat / 4)).all fun i =>
    let pcv := codeLo + UInt32.ofNat (4 * i)
    safeLeafWord codeLo codeLen pcv (bigEndian (codeBytes m pcv 4))

section Trampoline

variable (env : HealEnv table ε)

/-- `discover_function_bounds`, with the checks that its callers make. -/
def discoveredSize (m : GuestMemory) (addr : UInt32) : Option Nat :=
  let window := codeWindow addr
  if window < 8 then none
  else
    (env.discoverFunctionBounds (codeBytes m addr window) addr).filter fun size =>
      decide (8 ≤ size) && decide (size % 4 = 0) && decide (size ≤ window)

def jitCompileFunction (m : GuestMemory) (vram : UInt32) : Option RecompFunc :=
  if vram < 0x80000000 ∨ 0x80800000 ≤ vram then none
  else
    (discoveredSize env m vram).bind fun size =>
      env.codegenFunction vram ((List.range (size / 4)).map fun w =>
        littleEndian (codeBytes m (vram + UInt32.ofNat (4 * w)) 4))

def lookupFunctionOrNull : LookupFunction GuestMemory (ShadowHost (HealHost table ε)) :=
  fun s addr => (Thread.heal s).overlays.funcMap ⟨addr⟩ |>.map env.call

def interpretFunction (addr : UInt32) (s : Thread table ε) :
    InterpResult GuestMemory (ShadowHost (HealHost table ε)) :=
  recompInterpretFunction env.H env.fp (lookupFunctionOrNull env) env.fuel addr.toBitVec s

/-! ## The tiers -/

/-- A tier reads the address of the miss; `runs` is the state from which it
executes the function. -/
structure Use (table : SectionTable) (ε : Type) where
  addr : UInt32
  runs : Option (Thread table ε)

abbrev HealTier (table : SectionTable) (ε : Type) := Tier (Thread table ε) (Use table ε)

structure Enclosing where
  host : RecompFunc
  linkTarget : UInt32
  funcStartLink : UInt32
  deriving DecidableEq, Repr

def LoadedSection.enclosing (e : LoadedSection table) (addr : UInt32) : Option Enclosing :=
  let sec := e.entry
  let synthBase := sec.ramAddr
  let linkBase :=
    if isSyntheticAddr synthBase then sec.originalFragmentBase.getD synthBase else synthBase
  ([linkBase, e.loadedRamAddr, synthBase].find? fun base =>
      decide (base ≤ addr) && decide (addr < base + sec.size)).bind fun base =>
    let offset := addr - base
    (sec.funcs.find? fun fe =>
        fe.func.isSome && decide (fe.offset ≤ offset)
          && decide (offset < fe.offset + fe.romSize)).bind fun fe =>
      fe.func.map fun host => ⟨host, linkBase + offset, linkBase + fe.offset⟩

def findResidentEnclosingFunction (o : Overlays table) (addr : UInt32) : Option Enclosing :=
  o.loadedSections.findSome? (·.enclosing addr)

def kMaxRejectInterpDepth : Nat := 96

/-- `returned` and `rejected` are the host's return, with `dispatch_entry_target`
put back. -/
inductive Dispatch (table : SectionTable) (ε : Type) where
  | notFound
  | returned (s : Thread table ε)
  | rejected (s : Thread table ε)

def Enclosing.entry (e : Enclosing) (s : Thread table ε) : Thread table ε :=
  { s with
    ctx := { s.ctx with
      dispatchEntryTarget :=
        if e.linkTarget = e.funcStartLink then 0 else e.linkTarget.toBitVec
      dispatchEntryRejected := false
      dispatchEntryRejectedTarget := 0 } }

def dispatchEnclosing (addr : UInt32) (s : Thread table ε) : Dispatch table ε :=
  match findResidentEnclosingFunction s.heal.overlays addr with
  | none => .notFound
  | some e =>
    let saved := s.ctx.dispatchEntryTarget
    let s := env.call e.host (e.entry s)
    if s.ctx.dispatchEntryRejected then
      .rejected { s with
        ctx := { s.ctx with
          dispatchEntryTarget := saved
          dispatchEntryRejected := false
          dispatchEntryRejectedTarget := 0 } }
    else .returned { s with ctx := { s.ctx with dispatchEntryTarget := saved } }

/-- `g_reject_interp_depth++`, and `--` after the interpretation. -/
def Thread.deeper (s : Thread table ε) : Thread table ε :=
  s.setHeal { s.heal with rejectInterpDepth := s.heal.rejectInterpDepth + 1 }

def Thread.shallower (s : Thread table ε) : Thread table ε :=
  s.setHeal { s.heal with rejectInterpDepth := s.heal.rejectInterpDepth - 1 }

def enclosingTier : HealTier table ε := fun s =>
  let addr := s.selfHealAddr
  match dispatchEnclosing env addr s with
  | .notFound => ⟨[⟨addr, none⟩], .next s⟩
  | .returned s' => ⟨[⟨addr, some s⟩], .ended s'⟩
  | .rejected s' =>
    if s'.heal.rejectInterpDepth < kMaxRejectInterpDepth then
      let log := [⟨addr, some s⟩, ⟨addr, some s'⟩]
      match interpretFunction env addr s'.deeper with
      | .returned s'' => ⟨log, .ended (Thread.shallower s'')⟩
      | .failed s'' => ⟨log, .next (Thread.shallower s'')⟩
      | .fault => ⟨log, .lost⟩
      | .outOfFuel => ⟨log, .lost⟩
    else ⟨[⟨addr, some s⟩], .next s'⟩

def addrInResidentStaticSection (table : SectionTable) (addr : UInt32) : Bool :=
  (List.finRange table.numCodeSections).any fun i =>
    let sec := table.codeSections i
    let base := sec.ramAddr
    !isSyntheticAddr base && decide (0x80000000 ≤ base) && decide (base < 0x80800000)
      && decide (base ≤ addr) && decide (addr < base + sec.size)

def jitTier : HealTier table ε := fun s =>
  if env.jitTierEnabled then
    let addr := s.selfHealAddr
    if addrInResidentStaticSection table addr then
      match jitCompileFunction env s.rdram addr with
      | some jitted =>
        let s' := s.setFunc addr jitted
        ⟨[⟨addr, none⟩, ⟨addr, some s'⟩], .ended (env.call jitted s')⟩
      | none => ⟨[⟨addr, none⟩], .next s⟩
    else ⟨[⟨addr, none⟩], .next s⟩
  else ⟨[], .next s⟩

/-- The tier of the eviction test. -/
def restoreTier : HealTier table ε := fun s =>
  let addr := s.selfHealAddr
  match s.heal.evictedFuncs addr with
  | some restore =>
    let s' := (s.setFunc addr restore)
    let s' := s'.setHeal { s'.heal with
      evictedFuncs := Function.update s'.heal.evictedFuncs addr none }
    ⟨[⟨addr, some s'⟩], .ended (env.call restore s')⟩
  | none => ⟨[⟨addr, none⟩], .next s⟩

/-! The fragment tier -/

def liveCandidate (faddr : UInt32) (s : Thread table ε) : Option FragmentCandidate :=
  (s.heal.fragCands faddr).find? fun c =>
    decide (0 < c.codeLen) && fragmentLiveCodeHash s.rdram c.codeLo c.codeLen == c.contentHash

def newCandidate (m : GuestMemory) (faddr : UInt32) : Option FragmentCandidate :=
  (discoveredSize env m faddr).map fun size =>
    let len := UInt32.ofNat size
    let leaf := fragmentIsSafeLeaf m faddr len
    { addr := faddr
      contentHash := fragmentLiveCodeHash m faddr len
      codeLo := faddr
      codeLen := len
      fn := if env.fragNativeEnabled && leaf then jitCompileFunction env m faddr else none
      diffPasses := 0
      deviceTouch := env.fragNativeEnabled && !leaf
      blacklisted := false }

def renewCandidate (m : GuestMemory) (faddr : UInt32) (live c : FragmentCandidate) :
    FragmentCandidate :=
  if env.fragNativeEnabled && live.fn.isNone && !live.deviceTouch && !live.blacklisted
      && decide (0 < live.codeLen) then
    if fragmentIsSafeLeaf m live.codeLo live.codeLen then
      { c with fn := (jitCompileFunction env m faddr).or c.fn }
    else { c with deviceTouch := true }
  else c

def updateByHash (hash : UInt64) (change : FragmentCandidate → FragmentCandidate) :
    List FragmentCandidate → List FragmentCandidate
  | [] => []
  | c :: cs => if c.contentHash = hash then change c :: cs else c :: updateByHash hash change cs

def Thread.setCands (s : Thread table ε) (faddr : UInt32) (cands : List FragmentCandidate) :
    Thread table ε :=
  s.setHeal { s.heal with fragCands := Function.update s.heal.fragCands faddr cands }

def trackCandidate (faddr : UInt32) (s : Thread table ε) :
    Option FragmentCandidate × Thread table ε :=
  match liveCandidate faddr s with
  | some live =>
    (some (renewCandidate env s.rdram faddr live live),
      s.setCands faddr (updateByHash live.contentHash (renewCandidate env s.rdram faddr live)
        (s.heal.fragCands faddr)))
  | none =>
    match newCandidate env s.rdram faddr with
    | some c => (some c, s.setCands faddr (s.heal.fragCands faddr ++ [c]))
    | none => (none, s)

/-- How the fragment is executed; `bookkeeping` leaves it to the floor. -/
inductive FragmentRun where
  | bookkeeping
  | native (fn : RecompFunc)
  | shadow (fn : RecompFunc) (hash : UInt64)
  | pinned
  deriving DecidableEq, Repr

def fragmentRun (c : Option FragmentCandidate) : FragmentRun :=
  match c with
  | none => .bookkeeping
  | some c =>
    if !env.fragNativeEnabled then .bookkeeping
    else if c.deviceTouch || c.blacklisted then .pinned
    else
      match c.fn with
      | none => .bookkeeping
      | some fn =>
        if env.fragDiffBudget ≤ c.diffPasses then .native fn else .shadow fn c.contentHash

def fragApplyDiffOutcome (faddr : UInt32) (hash : UInt64) (o : ShadowDiffOutcome)
    (s : Thread table ε) : Thread table ε :=
  s.setCands faddr (updateByHash hash (fun c =>
    if o.deviceTouch then { c with deviceTouch := true }
    else if o.ranNative then
      if o.clean then
        if c.diffPasses < env.fragDiffBudget then { c with diffPasses := c.diffPasses + 1 }
        else c
      else { c with diffPasses := 0 }
    else c) (s.heal.fragCands faddr))

def fragmentEligible (s : Thread table ε) : Bool :=
  decide (0x80000000 ≤ s.selfHealAddr) && decide (s.selfHealAddr < 0x80800000)
    && !addrInResidentStaticSection table s.selfHealAddr

/-- The tier is entered: it is switched on, and this is no miss inside a diff. -/
def fragmentArmed (s : Thread table ε) : Bool := env.fragJitEnabled && !s.shadowActive

def shadowDiff (faddr : UInt32) (fn : RecompFunc) (s : Thread table ε) :
    Option (Thread table ε × ShadowDiffOutcome) :=
  runShadowDiff env.H env.fp (lookupFunctionOrNull env) env.fuel faddr.toBitVec
    (env.call fn) s

/-- A shadow diff executes the function twice. -/
def shadowLog (faddr : UInt32) (s : Thread table ε) : List (Use table ε) :=
  ⟨faddr, some s⟩ :: (nativePass env.H env.fp (lookupFunctionOrNull env) env.fuel
    faddr.toBitVec s).toList.map fun t => ⟨faddr, some t⟩

def executeFragment (faddr : UInt32) (c : Option FragmentCandidate) : HealTier table ε :=
  fun s =>
  match fragmentRun env c with
  | .bookkeeping => ⟨[⟨faddr, none⟩], .next s⟩
  | .native fn => ⟨[⟨faddr, some s⟩], .ended (env.call fn s)⟩
  | .shadow fn hash =>
    match shadowDiff env faddr fn s with
    | none => ⟨shadowLog env faddr s, .lost⟩
    | some (s', o) =>
      if o.interpOk then
        ⟨shadowLog env faddr s, .ended (fragApplyDiffOutcome env faddr hash o s')⟩
      else ⟨shadowLog env faddr s, .next s'⟩
  | .pinned =>
    match interpretFunction env faddr s with
    | .returned s' => ⟨[⟨faddr, some s⟩], .ended s'⟩
    | .failed s' => ⟨[⟨faddr, some s⟩], .next s'⟩
    | .fault => ⟨[⟨faddr, some s⟩], .lost⟩
    | .outOfFuel => ⟨[⟨faddr, some s⟩], .lost⟩

def fragmentTier : HealTier table ε := fun s =>
  if !fragmentArmed env s then ⟨[], .next s⟩
  else
    let faddr := s.selfHealAddr
    if !fragmentEligible s then ⟨[⟨faddr, none⟩], .next s⟩
    else
      let (c, s) := trackCandidate env faddr s
      executeFragment env faddr c s

/-- After a run it reads the address once more, for the record of what has been
interpreted. -/
def floorTier : HealTier table ε := fun s =>
  if !env.interpEnabled then ⟨[], .next s⟩
  else
    let addr := s.selfHealAddr
    match interpretFunction env addr s with
    | .returned s' => ⟨[⟨addr, some s⟩, ⟨Thread.selfHealAddr s', none⟩], .ended s'⟩
    | .failed s' => ⟨[⟨addr, some s⟩], .next s'⟩
    | .fault => ⟨[⟨addr, some s⟩], .lost⟩
    | .outOfFuel => ⟨[⟨addr, some s⟩], .lost⟩

/-- A call that falls through all tiers aborts. -/
def unhandledLookupTrampoline : HealTier table ε :=
  inOrder [enclosingTier env, jitTier env, restoreTier env, fragmentTier env, floorTier env]

/-- The tiers behind the dispatch into the enclosing function. -/
def lowerTiers : List (HealTier table ε) :=
  [jitTier env, restoreTier env, fragmentTier env, floorTier env]

def EntersFragments (s s' : Thread table ε) : Prop :=
  (inOrder [enclosingTier env, jitTier env, restoreTier env] s).outcome = .next s'

/-! ## The lookup -/

inductive Lookup where
  | func (f : RecompFunc)
  | unhandledLookupTrampoline
  deriving DecidableEq, Repr

def getFunction (addr : UInt32) (s : Thread table ε) : Lookup × Thread table ε :=
  match s.heal.overlays.funcMap addr with
  | some f => (.func f, s)
  | none => (.unhandledLookupTrampoline, s.setHeal { s.heal with selfHealAddr := addr })

end Trampoline

/-! ## What the tiers keep -/

namespace Thread

/-- The context and the memory, but for the marks of a rejected entry. -/
def view (s : Thread table ε) : RecompContext × GuestMemory :=
  ({ s.ctx with dispatchEntryRejected := false, dispatchEntryRejectedTarget := 0 }, s.rdram)

@[simp]
theorem shallower_view (s : Thread table ε) : s.shallower.view = s.view := rfl

end Thread

section Plain

variable {env : HealEnv table ε} {s s' : Thread table ε}

theorem trackCandidate_view (faddr : UInt32) :
    (trackCandidate env faddr s).2.view = s.view := by
  unfold trackCandidate
  split
  · rfl
  · split <;> rfl

theorem trackCandidate_addr (faddr : UInt32) :
    (trackCandidate env faddr s).2.selfHealAddr = s.selfHealAddr := by
  unfold trackCandidate
  split
  · rfl
  · split <;> rfl

/-- A tier that acts on the address at which it begins, first executes the
function from the state at which it begins, and hands both on where it has
executed nothing. -/
structure Plain (tier : HealTier table ε) : Prop where
  addrs : ∀ s, ∀ use ∈ (tier s).log, use.addr = s.selfHealAddr
  first : ∀ s t, ((tier s).log.filterMap Use.runs).head? = some t → t.view = s.view
  silent : ∀ s s', (∀ use ∈ (tier s).log, use.runs = none) →
    (tier s).outcome = .next s' → s'.view = s.view ∧ s'.selfHealAddr = s.selfHealAddr

theorem jitTier_next (next : (jitTier env s).outcome = .next s') : s' = s := by
  unfold jitTier at next
  grind

theorem restoreTier_next (next : (restoreTier env s).outcome = .next s') : s' = s := by
  unfold restoreTier at next
  grind

/-- Two tiers execute the function at most once. -/
structure Single (tier : HealTier table ε) : Prop where
  uses : ∀ s, ∀ use ∈ (tier s).log, use.addr = s.selfHealAddr
    ∧ ∀ t, use.runs = some t → t.view = s.view
  same : ∀ s s', (tier s).outcome = .next s' → s' = s

theorem Single.plain {tier : HealTier table ε} (single : Single tier) : Plain tier where
  addrs s use among := (single.uses s use among).1
  first s t head := by
    obtain ⟨use, among, runs⟩ := List.mem_filterMap.mp (List.mem_of_head? head)
    exact (single.uses s use among).2 t runs
  silent s s' _ next := by
    rw [single.same s s' next]
    exact ⟨rfl, rfl⟩

theorem jitTier_single : Single (jitTier env) where
  uses s use among := by
    simp only [jitTier] at among
    split at among
    · split at among
      · split at among
        · simp only [List.mem_cons, List.not_mem_nil, or_false] at among
          rcases among with rfl | rfl
          · exact ⟨rfl, by simp⟩
          · exact ⟨rfl, by rintro t ⟨⟩; rfl⟩
        · obtain rfl := List.mem_singleton.mp among
          exact ⟨rfl, by simp⟩
      · obtain rfl := List.mem_singleton.mp among
        exact ⟨rfl, by simp⟩
    · cases among
  same s s' next := jitTier_next next

theorem restoreTier_single : Single (restoreTier env) where
  uses s use among := by
    simp only [restoreTier] at among
    split at among
    · obtain rfl := List.mem_singleton.mp among
      exact ⟨rfl, by rintro t ⟨⟩; rfl⟩
    · obtain rfl := List.mem_singleton.mp among
      exact ⟨rfl, by simp⟩
  same s s' next := restoreTier_next next

/-- The executions of a fragment, but for its bookkeeping. -/
def fragmentUses (env : HealEnv table ε) (faddr : UInt32) (c : Option FragmentCandidate)
    (s : Thread table ε) : List (Use table ε) :=
  match fragmentRun env c with
  | .shadow _ _ => shadowLog env faddr s
  | _ => [⟨faddr, some s⟩]

theorem executeFragment_log (faddr : UInt32) (c : Option FragmentCandidate) :
    (executeFragment env faddr c s).log =
      if fragmentRun env c = .bookkeeping then [⟨faddr, none⟩] else fragmentUses env faddr c s := by
  unfold executeFragment fragmentUses
  cases fragmentRun env c with
  | bookkeeping => rfl
  | native fn => rfl
  | shadow fn hash =>
      simp only
      split
      · rfl
      · split <;> rfl
  | pinned =>
      simp only
      split <;> rfl

theorem fragmentUses_addr {faddr : UInt32} {c : Option FragmentCandidate} :
    ∀ use ∈ fragmentUses env faddr c s, use.addr = faddr := by
  unfold fragmentUses shadowLog
  cases fragmentRun env c <;> simp

theorem fragmentUses_head (env : HealEnv table ε) (faddr : UInt32)
    (c : Option FragmentCandidate) (s : Thread table ε) :
    ∃ rest, fragmentUses env faddr c s = ⟨faddr, some s⟩ :: rest := by
  unfold fragmentUses
  split
  · exact ⟨_, rfl⟩
  · exact ⟨[], rfl⟩

theorem executeFragment_bookkeeping {faddr : UInt32} {c : Option FragmentCandidate}
    (run : fragmentRun env c = .bookkeeping) :
    executeFragment env faddr c s = ⟨[⟨faddr, none⟩], .next s⟩ := by
  unfold executeFragment
  rw [run]

theorem executeFragment_next {faddr : UInt32} {c : Option FragmentCandidate} :
    (executeFragment env faddr c s).outcome = .next s' ↔
      fragmentRun env c = .bookkeeping ∧ s' = s
      ∨ (∃ fn hash t, fragmentRun env c = .shadow fn hash
        ∧ interpreterPass env.H env.fp (lookupFunctionOrNull env) env.fuel faddr.toBitVec s
          = .failed t
        ∧ s' = putBack s.ctx (disarmed t))
      ∨ fragmentRun env c = .pinned ∧ interpretFunction env faddr s = .failed s' := by
  unfold executeFragment
  cases fragmentRun env c with
  | bookkeeping => simp [eq_comm]
  | native fn => simp
  | shadow fn hash =>
      cases pass : interpreterPass env.H env.fp (lookupFunctionOrNull env) env.fuel
          faddr.toBitVec s with
      | failed t => simp [shadowDiff, runShadowDiff_failed pass, eq_comm]
      | returned t =>
          obtain ⟨t', o, run, ok⟩ := runShadowDiff_returned (env.call fn) pass
          simp [shadowDiff, run, ok]
      | fault => simp [shadowDiff, runShadowDiff, pass]
      | outOfFuel => simp [shadowDiff, runShadowDiff, pass]
  | pinned =>
      simp only
      cases interpretFunction env faddr s <;> simp [eq_comm]

theorem fragmentTier_plain : Plain (fragmentTier env) where
  addrs s use among := by
    unfold fragmentTier at among
    split at among
    · cases among
    · split at among
      · obtain rfl := List.mem_singleton.mp among
        rfl
      · dsimp only at among
        rw [executeFragment_log] at among
        split at among
        · obtain rfl := List.mem_singleton.mp among
          rfl
        · exact fragmentUses_addr use among
  first s t head := by
    unfold fragmentTier at head
    split at head
    · cases head
    · split at head
      · cases head
      · dsimp only at head
        rw [executeFragment_log] at head
        split at head
        · cases head
        · obtain ⟨rest, uses⟩ := fragmentUses_head env s.selfHealAddr
            (trackCandidate env s.selfHealAddr s).1 (trackCandidate env s.selfHealAddr s).2
          rw [uses] at head
          cases head
          exact trackCandidate_view _
  silent s s' none next := by
    unfold fragmentTier at none next
    split at next
    · cases next
      exact ⟨rfl, rfl⟩
    · rename_i armed
      rw [if_neg armed] at none
      split at next
      · cases next
        exact ⟨rfl, rfl⟩
      · rename_i eligible
        rw [if_neg eligible] at none
        dsimp only at none next
        by_cases run : fragmentRun env (trackCandidate env s.selfHealAddr s).1 = .bookkeeping
        · rw [executeFragment_bookkeeping run] at next
          cases next
          exact ⟨trackCandidate_view _, trackCandidate_addr _⟩
        · rw [executeFragment_log, if_neg run] at none
          obtain ⟨rest, uses⟩ := fragmentUses_head env s.selfHealAddr
            (trackCandidate env s.selfHealAddr s).1 (trackCandidate env s.selfHealAddr s).2
          rw [uses] at none
          cases none _ (List.mem_cons_self ..)

end Plain

end N64ModernRuntime.Librecomp
