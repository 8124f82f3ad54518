import N64ModernRuntime.Lib.CleanStreak
import N64ModernRuntime.Lib.Transition
import N64ModernRuntime.Librecomp.MissedFunction
import N64ModernRuntime.Librecomp.SelfHeal

/-!
# overlays.cpp: the fragment tier on many threads

A dispatch copies a candidate under the lock, decides without it, and applies the
outcome of a diff under it again.  The game may write to memory between any two
reads of a dispatch, so every step reads memory of its own.
-/

set_option autoImplicit false

namespace N64ModernRuntime.Librecomp

open Transition CleanStreak

variable {table : SectionTable} {ε : Type}

/-! ## The manifest -/

/-- The fields of an entry, as `get_u64` finds them. -/
structure ManifestEntry where
  addr : Option UInt64
  contentHash : Option UInt64
  codeLo : Option UInt64
  codeLen : Option UInt64

/-- A file that parses, less the entries behind one that throws. -/
structure FragmentManifest where
  formatVer : UInt32
  codegenVer : UInt32
  archAbi : String
  candidates : List ManifestEntry

def fragManifestFormatVer : UInt32 := 1
def fragCodegenVer : UInt32 := 1

/-- `PSR_FRAG_CACHE`, and the platform of the build. -/
structure FragmentCache where
  fragCacheEnabled : Bool
  archAbi : String

def ManifestEntry.candidate (e : ManifestEntry) : FragmentCandidate :=
  let addr := (e.addr.getD 0).toUInt32
  { addr := addr
    contentHash := e.contentHash.getD 0
    codeLo := (e.codeLo.getD addr.toUInt64).toUInt32
    codeLen := (e.codeLen.getD 0).toUInt32
    fn := none
    diffPasses := 0
    deviceTouch := false
    blacklisted := false }

def hasHash (hash : UInt64) (cands : List FragmentCandidate) : Bool :=
  cands.any fun c => decide (c.contentHash = hash)

/-- A candidate whose hash the chain of its address has already is skipped. -/
def loadCandidate (cands : UInt32 → List FragmentCandidate) (c : FragmentCandidate) :
    UInt32 → List FragmentCandidate :=
  if c.addr = 0 ∨ c.codeLen = 0 ∨ c.contentHash = 0 then cands
  else if hasHash c.contentHash (cands c.addr) then cands
  else Function.update cands c.addr (cands c.addr ++ [c])

def loadFragmentManifest (cache : FragmentCache) (m : FragmentManifest)
    (cands : UInt32 → List FragmentCandidate) : UInt32 → List FragmentCandidate :=
  if cache.fragCacheEnabled && m.formatVer == fragManifestFormatVer && m.codegenVer == fragCodegenVer
      && m.archAbi == cache.archAbi then
    (m.candidates.map ManifestEntry.candidate).foldl loadCandidate cands
  else cands

/-! ## A dispatch -/

/-- The `live_*` locals. -/
structure LiveCandidate where
  hash : UInt64
  lo : UInt32
  len : UInt32
  passes : UInt32
  fn : Option RecompFunc
  deviceTouch : Bool
  blacklisted : Bool

def FragmentCandidate.live (c : FragmentCandidate) : LiveCandidate where
  hash := c.contentHash
  lo := c.codeLo
  len := c.codeLen
  passes := c.diffPasses
  fn := c.fn
  deviceTouch := c.deviceTouch
  blacklisted := c.blacklisted

inductive DispatchPc where
  /-- before the lookup of the live candidate -/
  | entered
  | discovering
  /-- new content, before `push_back` under the lock -/
  | pushing (c : FragmentCandidate)
  /-- a live candidate without a shard -/
  | scanning (live : LiveCandidate)
  /-- compiled, before the lock -/
  | attaching (live : LiveCandidate) (fn : Option RecompFunc)
  /-- rejected by the scan, before the lock -/
  | pinning (live : LiveCandidate)
  | deciding (live : LiveCandidate)
  | diffing (hash : UInt64) (fn : RecompFunc)
  /-- in `frag_apply_diff_outcome`, before the lock -/
  | applying (hash : UInt64) (o : ShadowDiffOutcome)
  /-- has left the tier -/
  | done

/-- What the unlocked parts of one step see. -/
structure DispatchReads (table : SectionTable) (ε : Type) where
  body : GuestMemory
  hashed : GuestMemory
  scanned : GuestMemory
  compiled : GuestMemory
  /-- the thread at the start of a diff -/
  thread : Thread table ε

inductive FragEvent where
  | diffed (faddr : UInt32) (hash : UInt64) (o : ShadowDiffOutcome)
  /-- by `fragment_is_safe_leaf` -/
  | rejected (faddr : UInt32) (hash : UInt64)
  /-- a shard has run on the live state -/
  | native (faddr : UInt32) (hash : UInt64)

section Dispatch

variable (env : HealEnv table ε)

/-- A candidate for new content, each part from the memory that it reads. -/
def discoverCandidate (reads : DispatchReads table ε) (faddr : UInt32) : Option FragmentCandidate :=
  (discoveredSize env reads.body faddr).map fun size =>
    let len := UInt32.ofNat size
    let leaf := fragmentIsSafeLeaf reads.scanned faddr len
    { addr := faddr
      contentHash := fragmentLiveCodeHash reads.hashed faddr len
      codeLo := faddr
      codeLen := len
      fn := if env.fragNativeEnabled && leaf then jitCompileFunction env reads.compiled faddr else none
      diffPasses := 0
      deviceTouch := env.fragNativeEnabled && !leaf
      blacklisted := false }

def matchingCandidate (m : GuestMemory) (cands : List FragmentCandidate) : Option FragmentCandidate :=
  cands.find? fun c =>
    decide (0 < c.codeLen) && fragmentLiveCodeHash m c.codeLo c.codeLen == c.contentHash

/-- After the lookup: a candidate that may get a shard is scanned first. -/
def afterLookup (live : LiveCandidate) : DispatchPc :=
  if env.fragNativeEnabled && live.fn.isNone && !live.deviceTouch && !live.blacklisted
      && decide (0 < live.len) then .scanning live
  else .deciding live

def FragmentCandidate.applyOutcome (o : ShadowDiffOutcome) (c : FragmentCandidate) :
    FragmentCandidate :=
  if o.deviceTouch then { c with deviceTouch := true }
  else if o.ranNative then
    if o.clean then
      if c.diffPasses < env.fragDiffBudget then { c with diffPasses := c.diffPasses + 1 }
      else c
    else { c with diffPasses := 0 }
  else c

def LiveCandidate.eligible (live : LiveCandidate) : Bool := !live.deviceTouch && !live.blacklisted

/-- What a step of a dispatch does to its place, to the chain of its address and
to the log. -/
structure DispatchMove where
  pc : DispatchPc
  cands : List FragmentCandidate
  log : List FragEvent

def lookupMove (reads : DispatchReads table ε) (cands : List FragmentCandidate) : DispatchMove :=
  match matchingCandidate reads.hashed cands with
  | some c => ⟨afterLookup env c.live, cands, []⟩
  | none => ⟨.discovering, cands, []⟩

def discoverMove (reads : DispatchReads table ε) (faddr : UInt32) (cands : List FragmentCandidate) :
    DispatchMove :=
  match discoverCandidate env reads faddr with
  | some c => ⟨.pushing c, cands, if c.deviceTouch then [.rejected faddr c.contentHash] else []⟩
  | none => ⟨.done, cands, []⟩

def scanMove (reads : DispatchReads table ε) (faddr : UInt32) (cands : List FragmentCandidate)
    (live : LiveCandidate) : DispatchMove :=
  if fragmentIsSafeLeaf reads.scanned live.lo live.len then
    ⟨.attaching live (jitCompileFunction env reads.compiled faddr), cands, []⟩
  else ⟨.pinning live, cands, [.rejected faddr live.hash]⟩

def decideMove (faddr : UInt32) (cands : List FragmentCandidate) (live : LiveCandidate) : DispatchMove :=
  match live.fn with
  | none => ⟨.done, cands, []⟩
  | some fn =>
    if env.fragNativeEnabled && live.eligible then
      if env.fragDiffBudget ≤ live.passes then ⟨.done, cands, [.native faddr live.hash]⟩
      else ⟨.diffing live.hash fn, cands, []⟩
    -- interpreted, here or on the floor
    else ⟨.done, cands, []⟩

/-- `none` when the interpreter of the diff does not come back. -/
def diffMove (reads : DispatchReads table ε) (faddr : UInt32) (cands : List FragmentCandidate)
    (hash : UInt64) (fn : RecompFunc) : Option DispatchMove :=
  (shadowDiff env faddr fn reads.thread).map fun after =>
    ⟨if after.2.interpOk then .applying hash after.2 else .done, cands, [.diffed faddr hash after.2]⟩

def dispatchMove (reads : DispatchReads table ε) (faddr : UInt32) (cands : List FragmentCandidate) :
    DispatchPc → Option DispatchMove
  | .entered => some (lookupMove env reads cands)
  | .discovering => some (discoverMove env reads faddr cands)
  | .pushing c => some ⟨.deciding c.live, cands ++ [c], []⟩
  | .scanning live => some (scanMove env reads faddr cands live)
  | .attaching live fn =>
    some ⟨.deciding (if hasHash live.hash cands then { live with fn := fn.or live.fn } else live),
      updateByHash live.hash (fun c => { c with fn := fn.or c.fn }) cands, []⟩
  | .pinning live =>
    some ⟨.deciding (if hasHash live.hash cands then { live with deviceTouch := true } else live),
      updateByHash live.hash (fun c => { c with deviceTouch := true }) cands, []⟩
  | .deciding live => some (decideMove env faddr cands live)
  | .diffing hash fn => diffMove env reads faddr cands hash fn
  | .applying hash o => some ⟨.done, updateByHash hash (FragmentCandidate.applyOutcome env o) cands, []⟩
  | .done => none

end Dispatch

/-! A dispatch that is not interrupted reads one memory, and does what `fragmentTier`
does. -/

theorem newCandidate_eq (env : HealEnv table ε) (m : GuestMemory) (faddr : UInt32) (s : Thread table ε) :
    newCandidate env m faddr = discoverCandidate env ⟨m, m, m, m, s⟩ faddr := rfl

theorem liveCandidate_eq (faddr : UInt32) (s : Thread table ε) :
    liveCandidate faddr s = matchingCandidate s.rdram (s.heal.fragCands faddr) := rfl

theorem fragApplyDiffOutcome_eq (env : HealEnv table ε) (faddr : UInt32) (hash : UInt64)
    (o : ShadowDiffOutcome) (s : Thread table ε) :
    fragApplyDiffOutcome env faddr hash o s =
      s.setCands faddr
        (updateByHash hash (FragmentCandidate.applyOutcome env o) (s.heal.fragCands faddr)) := rfl

theorem decideMove_eq (env : HealEnv table ε) (faddr : UInt32) (cands : List FragmentCandidate)
    (c : FragmentCandidate) :
    decideMove env faddr cands c.live =
      match fragmentRun env (some c) with
      | .native _ => ⟨.done, cands, [.native faddr c.contentHash]⟩
      | .shadow fn hash => ⟨.diffing hash fn, cands, []⟩
      | .pinned => ⟨.done, cands, []⟩
      | .bookkeeping => ⟨.done, cands, []⟩ := by
  obtain ⟨_, hash, _, _, fn, passes, touch, blacklisted⟩ := c
  unfold decideMove fragmentRun FragmentCandidate.live LiveCandidate.eligible
  cases fn with
  | none =>
      cases env.fragNativeEnabled <;> cases touch <;> cases blacklisted <;> rfl
  | some fn =>
      by_cases full : env.fragDiffBudget ≤ passes
      · cases env.fragNativeEnabled <;> cases touch <;> cases blacklisted <;> simp [full]
      · cases env.fragNativeEnabled <;> cases touch <;> cases blacklisted <;> simp [full]

/-! ## The tier -/

/-- One activation of the trampoline in the tier; those of one thread may be nested. -/
structure TierDispatch where
  faddr : UInt32
  pc : DispatchPc

/-- The log holds its newest event first. -/
structure FragTier where
  fragCands : UInt32 → List FragmentCandidate
  dispatches : List TierDispatch
  log : List FragEvent

inductive TierLabel (table : SectionTable) (ε : Type) where
  /-- `init_overlays` -/
  | loadManifest (m : FragmentManifest)
  /-- a miss, with `t_shadow_active` of its thread -/
  | enter (faddr : UInt32) (shadowActive : Bool)
  | next (i : Nat) (reads : DispatchReads table ε)

namespace FragTier

def moved (s : FragTier) (i : Nat) (faddr : UInt32) (m : DispatchMove) : FragTier :=
  { fragCands := Function.update s.fragCands faddr m.cands
    dispatches := s.dispatches.set i ⟨faddr, m.pc⟩
    log := m.log ++ s.log }

def step (env : HealEnv table ε) (cache : FragmentCache) (s : FragTier) :
    TierLabel table ε → Option FragTier
  | .loadManifest m =>
    if env.fragJitEnabled then some { s with fragCands := loadFragmentManifest cache m s.fragCands }
    else none
  | .enter faddr shadowActive =>
    if env.fragJitEnabled && !shadowActive && decide (0x80000000 ≤ faddr) && decide (faddr < 0x80800000)
        && !addrInResidentStaticSection table faddr then
      some { s with dispatches := s.dispatches ++ [⟨faddr, .entered⟩] }
    else none
  | .next i reads =>
    (s.dispatches[i]?).bind fun d =>
      (dispatchMove env reads d.faddr (s.fragCands d.faddr) d.pc).map (s.moved i d.faddr)

structure Started (s : FragTier) : Prop where
  fragCands : ∀ faddr, s.fragCands faddr = []
  dispatches : s.dispatches = []
  log : s.log = []

end FragTier

/-! ## What the log says about a candidate -/

namespace ShadowDiffOutcome

def isClean (o : ShadowDiffOutcome) : Bool := !o.deviceTouch && o.ranNative && o.clean

def isDivergent (o : ShadowDiffOutcome) : Bool := !o.deviceTouch && o.ranNative && !o.clean

end ShadowDiffOutcome

def FragEvent.verdict (faddr : UInt32) (hash : UInt64) : FragEvent → Verdict
  | .diffed faddr' hash' o =>
    if faddr' = faddr ∧ hash' = hash then
      if o.isClean then .clean else if o.isDivergent then .divergent else .other
    else .other
  | .rejected _ _ => .other
  | .native _ _ => .other

/-- The clean diffs of the candidate that have ended since its latest divergent one. -/
def cleanStreak (faddr : UInt32) (hash : UInt64) (log : List FragEvent) : Nat :=
  streak (FragEvent.verdict faddr hash) log

def Barred (faddr : UInt32) (hash : UInt64) (log : List FragEvent) : Prop :=
  .rejected faddr hash ∈ log ∨ ∃ o : ShadowDiffOutcome, .diffed faddr hash o ∈ log ∧ o.deviceTouch = true

/-- What a native run of the candidate needs to have been logged before. -/
structure Validated (budget : UInt32) (faddr : UInt32) (hash : UInt64) (log : List FragEvent) : Prop where
  streak : budget.toNat ≤ cleanStreak faddr hash log
  not_barred : ¬Barred faddr hash log

/-- Every native run was validated when it ran. -/
def CleanPromotions (budget : UInt32) (log : List FragEvent) : Prop :=
  ∀ newer older faddr hash, log = newer ++ .native faddr hash :: older → Validated budget faddr hash older

/-! ## When the trust is not out of date -/

/-- What bars the candidate from native runs has been found and waits for the lock. -/
def DispatchPc.Bars (hash : UInt64) : DispatchPc → Prop
  | .pushing c => c.contentHash = hash ∧ c.deviceTouch = true
  | .pinning live => live.hash = hash
  | .applying hash' o => hash' = hash ∧ o.deviceTouch = true
  | _ => False

def DispatchPc.CarriesDivergent (hash : UInt64) : DispatchPc → Prop
  | .applying hash' o => hash' = hash ∧ o.isDivergent = true
  | _ => False

/-- A verdict against the candidate has been found and is not in its chain yet. -/
def DispatchPc.Accuses (hash : UInt64) (pc : DispatchPc) : Prop :=
  pc.Bars hash ∨ pc.CarriesDivergent hash

def DispatchPc.Trusts (env : HealEnv table ε) (hash : UInt64) : DispatchPc → Prop
  | .deciding live => live.hash = hash ∧ live.fn.isSome = true ∧ live.eligible = true ∧
      env.fragDiffBudget ≤ live.passes
  | _ => False

def DispatchPc.carriesClean (hash : UInt64) : DispatchPc → Bool
  | .applying hash' o => decide (hash' = hash) && o.isClean
  | _ => false

def DispatchPc.Names (hash : UInt64) : DispatchPc → Prop
  | .scanning live => live.hash = hash
  | .attaching live _ => live.hash = hash
  | .pinning live => live.hash = hash
  | .deciding live => live.hash = hash
  | .diffing hash' _ => hash' = hash
  | .applying hash' _ => hash' = hash
  | _ => False

def passesOf (hash : UInt64) : List FragmentCandidate → Nat
  | [] => 0
  | c :: cands => if c.contentHash = hash then c.diffPasses.toNat else passesOf hash cands

def Pinned (hash : UInt64) (cands : List FragmentCandidate) : Prop :=
  ∃ c ∈ cands, c.contentHash = hash ∧ c.deviceTouch = true

namespace FragTier

def Accused (s : FragTier) (faddr : UInt32) (hash : UInt64) : Prop :=
  ∃ d ∈ s.dispatches, d.faddr = faddr ∧ d.pc.Accuses hash

def cleanWaiting (s : FragTier) (faddr : UInt32) (hash : UInt64) : Nat :=
  s.dispatches.countP fun d => decide (d.faddr = faddr) && d.pc.carriesClean hash

/-- The chain still has the trust in the candidate, and nothing is held against it. -/
structure InGoodStanding (env : HealEnv table ε) (s : FragTier) (faddr : UInt32) (hash : UInt64) :
    Prop where
  passes : env.fragDiffBudget.toNat ≤ passesOf hash (s.fragCands faddr)
  not_pinned : ¬Pinned hash (s.fragCands faddr)
  not_accused : ¬s.Accused faddr hash

/-- No verdict comes between the decision to run a shard and its run; a dispatch
decides on trust that is still good; and a divergent outcome is applied after the
clean ones that ended before it. -/
structure MoveTimely (env : HealEnv table ε) (s : FragTier) (d : TierDispatch) (pc : DispatchPc) :
    Prop where
  verdict : ∀ hash, pc.Accuses hash → ∀ other ∈ s.dispatches, other.faddr = d.faddr → ¬other.pc.Trusts env hash
  trust : ∀ hash, pc.Trusts env hash → s.InGoodStanding env d.faddr hash
  order : ∀ hash, d.pc.CarriesDivergent hash →
    s.cleanWaiting d.faddr hash ≤ cleanStreak d.faddr hash s.log

def Timely (env : HealEnv table ε) (s : FragTier) : TierLabel table ε → Prop
  | .next i reads => ∀ d, s.dispatches[i]? = some d →
      ∀ m, dispatchMove env reads d.faddr (s.fragCands d.faddr) d.pc = some m → s.MoveTimely env d m.pc
  | _ => True

end FragTier

/-! ## Chains -/

section Chains

variable {cands : List FragmentCandidate} {hash hash' : UInt64}
  {change : FragmentCandidate → FragmentCandidate}

theorem passesOf_append {c : FragmentCandidate} (fresh : c.diffPasses = 0) :
    passesOf hash (cands ++ [c]) = passesOf hash cands := by
  induction cands with
  | nil => simp [passesOf, fresh]
  | cons first cands ih => simp only [List.cons_append, passesOf, ih]

structure KeepsMarks (change : FragmentCandidate → FragmentCandidate) : Prop where
  hash : ∀ c, (change c).contentHash = c.contentHash
  touch : ∀ c, c.deviceTouch = true → (change c).deviceTouch = true

theorem passesOf_updateByHash_other (keeps : KeepsMarks change) (other : hash' ≠ hash) :
    passesOf hash' (updateByHash hash change cands) = passesOf hash' cands := by
  induction cands with
  | nil => rfl
  | cons c cands ih =>
      by_cases here : c.contentHash = hash
      · have differs : c.contentHash ≠ hash' := fun same => other (same.symm.trans here)
        simp only [updateByHash, if_pos here, passesOf, keeps.hash c, if_neg differs]
      · simp only [updateByHash, if_neg here, passesOf, ih]

theorem passesOf_updateByHash (keeps : KeepsMarks change) {n k : Nat}
    (grows : ∀ c, (change c).diffPasses.toNat ≤ c.diffPasses.toNat + k) (bound : passesOf hash cands ≤ n) :
    passesOf hash (updateByHash hash change cands) ≤ n + k := by
  induction cands with
  | nil => exact Nat.zero_le _
  | cons c cands ih =>
      by_cases here : c.contentHash = hash
      · simp only [passesOf, if_pos here] at bound
        simp only [updateByHash, if_pos here, passesOf, keeps.hash c]
        exact (grows c).trans (Nat.add_le_add_right bound k)
      · simp only [passesOf, if_neg here] at bound
        simp only [updateByHash, if_neg here, passesOf]
        exact ih bound

theorem passesOf_reset (keeps : KeepsMarks change) (resets : ∀ c, (change c).diffPasses = 0) :
    passesOf hash (updateByHash hash change cands) = 0 := by
  induction cands with
  | nil => rfl
  | cons c cands ih =>
      by_cases here : c.contentHash = hash
      · simp only [updateByHash, if_pos here, passesOf, keeps.hash c, resets c]
        rfl
      · simp only [updateByHash, if_neg here, passesOf, ih]

theorem passesOf_updateByHash_same (keeps : KeepsMarks change)
    (same : ∀ c, (change c).diffPasses = c.diffPasses) :
    passesOf hash' (updateByHash hash change cands) = passesOf hash' cands := by
  induction cands with
  | nil => rfl
  | cons c cands ih =>
      by_cases here : c.contentHash = hash
      · simp only [updateByHash, if_pos here, passesOf, keeps.hash c, same c]
      · simp only [updateByHash, if_neg here, passesOf, ih]

theorem hasHash_iff : hasHash hash cands = true ↔ ∃ c ∈ cands, c.contentHash = hash := by
  simp [hasHash]

structure Grows (before after : List FragmentCandidate) : Prop where
  known : ∀ hash, hasHash hash before = true → hasHash hash after = true
  pinned : ∀ hash, Pinned hash before → Pinned hash after

theorem Grows.refl (cands : List FragmentCandidate) : Grows cands cands := ⟨fun _ => id, fun _ => id⟩

theorem Grows.append (cands new : List FragmentCandidate) : Grows cands (cands ++ new) := by
  constructor
  · intro hash known
    obtain ⟨c, mem, same⟩ := hasHash_iff.mp known
    exact hasHash_iff.mpr ⟨c, List.mem_append_left _ mem, same⟩
  · rintro hash ⟨c, mem, marked⟩
    exact ⟨c, List.mem_append_left _ mem, marked⟩

theorem mem_updateByHash {c : FragmentCandidate} (mem : c ∈ cands) :
    c ∈ updateByHash hash change cands ∨ change c ∈ updateByHash hash change cands := by
  induction cands with
  | nil => cases mem
  | cons first cands ih =>
      by_cases here : first.contentHash = hash
      · rw [updateByHash, if_pos here]
        rcases List.mem_cons.mp mem with same | later
        · subst same
          exact Or.inr List.mem_cons_self
        · exact Or.inl (List.mem_cons_of_mem _ later)
      · rw [updateByHash, if_neg here]
        rcases List.mem_cons.mp mem with same | later
        · subst same
          exact Or.inl List.mem_cons_self
        · exact (ih later).imp (List.mem_cons_of_mem _) (List.mem_cons_of_mem _)

theorem Grows.update (keeps : KeepsMarks change) : Grows cands (updateByHash hash change cands) := by
  constructor
  · intro hash' known
    obtain ⟨c, mem, same⟩ := hasHash_iff.mp known
    rcases mem_updateByHash mem with kept | changed
    · exact hasHash_iff.mpr ⟨c, kept, same⟩
    · exact hasHash_iff.mpr ⟨change c, changed, (keeps.hash c).trans same⟩
  · rintro hash' ⟨c, mem, same, touch⟩
    rcases mem_updateByHash mem with kept | changed
    · exact ⟨c, kept, same, touch⟩
    · exact ⟨change c, changed, (keeps.hash c).trans same, keeps.touch c touch⟩

theorem pinned_of_update (keeps : KeepsMarks change) (pins : ∀ c, (change c).deviceTouch = true)
    (known : hasHash hash cands = true) : Pinned hash (updateByHash hash change cands) := by
  induction cands with
  | nil => cases known
  | cons c cands ih =>
      by_cases here : c.contentHash = hash
      · rw [updateByHash, if_pos here]
        exact ⟨change c, List.mem_cons_self, (keeps.hash c).trans here, pins c⟩
      · have later : hasHash hash cands = true := by
          rw [hasHash, List.any_cons, decide_eq_false here] at known
          exact known
        obtain ⟨pinned, mem, marked⟩ := ih later
        rw [updateByHash, if_neg here]
        exact ⟨pinned, List.mem_cons_of_mem _ mem, marked⟩

end Chains

/-! ## What a step of a dispatch does -/

section Moves

variable {env : HealEnv table ε} {reads : DispatchReads table ε} {faddr : UInt32}
  {cands : List FragmentCandidate} {pc : DispatchPc} {m : DispatchMove} {hash : UInt64}

theorem applyOutcome_keeps (o : ShadowDiffOutcome) : KeepsMarks (FragmentCandidate.applyOutcome env o) := by
  constructor
  · intro c
    unfold FragmentCandidate.applyOutcome
    split_ifs <;> rfl
  · intro c touch
    unfold FragmentCandidate.applyOutcome
    split_ifs <;> first | exact touch | rfl

theorem attach_keeps (fn : Option RecompFunc) : KeepsMarks fun c => { c with fn := fn.or c.fn } :=
  ⟨fun _ => rfl, fun _ => id⟩

theorem pin_keeps : KeepsMarks fun c => { c with deviceTouch := true } := ⟨fun _ => rfl, fun _ _ => rfl⟩

theorem shadowDiff_not_ok {fn : RecompFunc} {s s' : Thread table ε} {o : ShadowDiffOutcome}
    (ran : shadowDiff env faddr fn s = some (s', o)) (failed : o.interpOk = false) :
    o.deviceTouch = false ∧ o.ranNative = false := by
  unfold shadowDiff runShadowDiff at ran
  dsimp only at ran
  split at ran
  · cases ran
    exact ⟨rfl, rfl⟩
  · split at ran
    · cases ran
      cases failed
    · cases ran
      cases failed
  · cases ran
  · cases ran

inductive DispatchTurn (env : HealEnv table ε) (faddr : UInt32) (cands : List FragmentCandidate) :
    DispatchPc → DispatchMove → Prop
  | copies (c : FragmentCandidate) (mem : c ∈ cands) :
      DispatchTurn env faddr cands .entered ⟨afterLookup env c.live, cands, []⟩
  | misses : DispatchTurn env faddr cands .entered ⟨.discovering, cands, []⟩
  | discovers (c : FragmentCandidate) (fresh : c.diffPasses = 0) (leaf : c.deviceTouch = false) :
      DispatchTurn env faddr cands .discovering ⟨.pushing c, cands, []⟩
  | discoversCall (c : FragmentCandidate) (fresh : c.diffPasses = 0) (touch : c.deviceTouch = true) :
      DispatchTurn env faddr cands .discovering ⟨.pushing c, cands, [.rejected faddr c.contentHash]⟩
  | noBounds : DispatchTurn env faddr cands .discovering ⟨.done, cands, []⟩
  | pushes (c : FragmentCandidate) :
      DispatchTurn env faddr cands (.pushing c) ⟨.deciding c.live, cands ++ [c], []⟩
  | accepts (live : LiveCandidate) (fn : Option RecompFunc) :
      DispatchTurn env faddr cands (.scanning live) ⟨.attaching live fn, cands, []⟩
  | rejects (live : LiveCandidate) :
      DispatchTurn env faddr cands (.scanning live) ⟨.pinning live, cands, [.rejected faddr live.hash]⟩
  | attaches (live : LiveCandidate) (fn fn' : Option RecompFunc) :
      DispatchTurn env faddr cands (.attaching live fn) ⟨.deciding { live with fn := fn' },
        updateByHash live.hash (fun c => { c with fn := fn.or c.fn }) cands, []⟩
  | pins (live : LiveCandidate) (touch : Bool) :
      DispatchTurn env faddr cands (.pinning live) ⟨.deciding { live with deviceTouch := touch },
        updateByHash live.hash (fun c => { c with deviceTouch := true }) cands, []⟩
  | runs (live : LiveCandidate) (trusts : (DispatchPc.deciding live).Trusts env live.hash) :
      DispatchTurn env faddr cands (.deciding live) ⟨.done, cands, [.native faddr live.hash]⟩
  | startsDiff (live : LiveCandidate) (fn : RecompFunc) :
      DispatchTurn env faddr cands (.deciding live) ⟨.diffing live.hash fn, cands, []⟩
  | leaves (live : LiveCandidate) : DispatchTurn env faddr cands (.deciding live) ⟨.done, cands, []⟩
  | diffs (hash : UInt64) (fn : RecompFunc) (o : ShadowDiffOutcome) :
      DispatchTurn env faddr cands (.diffing hash fn) ⟨.applying hash o, cands, [.diffed faddr hash o]⟩
  | failsDiff (hash : UInt64) (fn : RecompFunc) (o : ShadowDiffOutcome)
      (no_touch : o.deviceTouch = false) (not_run : o.ranNative = false) :
      DispatchTurn env faddr cands (.diffing hash fn) ⟨.done, cands, [.diffed faddr hash o]⟩
  | applies (hash : UInt64) (o : ShadowDiffOutcome) :
      DispatchTurn env faddr cands (.applying hash o)
        ⟨.done, updateByHash hash (FragmentCandidate.applyOutcome env o) cands, []⟩

theorem lookupMove_turn : DispatchTurn env faddr cands .entered (lookupMove env reads cands) := by
  unfold lookupMove
  cases found : matchingCandidate reads.hashed cands with
  | some c => exact .copies c (List.mem_of_find?_eq_some found)
  | none => exact .misses

theorem discoverMove_turn :
    DispatchTurn env faddr cands .discovering (discoverMove env reads faddr cands) := by
  unfold discoverMove
  cases found : discoverCandidate env reads faddr with
  | none => exact .noBounds
  | some c =>
      have fresh : c.diffPasses = 0 := by
        obtain ⟨size, _, same⟩ := Option.map_eq_some_iff.mp found
        cases same
        rfl
      dsimp only
      split_ifs with touch
      · exact .discoversCall c fresh touch
      · exact .discovers c fresh (Bool.eq_false_iff.mpr touch)

theorem scanMove_turn (live : LiveCandidate) :
    DispatchTurn env faddr cands (.scanning live) (scanMove env reads faddr cands live) := by
  unfold scanMove
  split_ifs
  · exact .accepts live _
  · exact .rejects live

theorem attach_turn (live : LiveCandidate) (fn : Option RecompFunc) :
    DispatchTurn env faddr cands (.attaching live fn)
      ⟨.deciding (if hasHash live.hash cands then { live with fn := fn.or live.fn } else live),
        updateByHash live.hash (fun c => { c with fn := fn.or c.fn }) cands, []⟩ := by
  split_ifs
  · exact .attaches live fn _
  · exact .attaches live fn live.fn

theorem pin_turn (live : LiveCandidate) :
    DispatchTurn env faddr cands (.pinning live)
      ⟨.deciding (if hasHash live.hash cands then { live with deviceTouch := true } else live),
        updateByHash live.hash (fun c => { c with deviceTouch := true }) cands, []⟩ := by
  split_ifs
  · exact .pins live true
  · exact .pins live live.deviceTouch

theorem decideMove_turn (live : LiveCandidate) :
    DispatchTurn env faddr cands (.deciding live) (decideMove env faddr cands live) := by
  unfold decideMove
  cases shard : live.fn with
  | none => exact .leaves live
  | some fn =>
      dsimp only
      split_ifs with armed full
      · have eligible := ((Bool.and_eq_true _ _).mp armed).2
        exact .runs live ⟨rfl, by rw [shard]; rfl, eligible, full⟩
      · exact .startsDiff live fn
      · exact .leaves live

theorem diffMove_turn {fn : RecompFunc} (taken : diffMove env reads faddr cands hash fn = some m) :
    DispatchTurn env faddr cands (.diffing hash fn) m := by
  obtain ⟨⟨s', o⟩, ran, same⟩ := Option.map_eq_some_iff.mp taken
  cases same
  dsimp only
  split_ifs with ok
  · exact .diffs hash fn o
  · obtain ⟨no_touch, not_run⟩ := shadowDiff_not_ok ran (Bool.eq_false_iff.mpr ok)
    exact .failsDiff hash fn o no_touch not_run

theorem dispatchMove_turn (taken : dispatchMove env reads faddr cands pc = some m) :
    DispatchTurn env faddr cands pc m := by
  cases pc with
  | entered => cases taken; exact lookupMove_turn
  | discovering => cases taken; exact discoverMove_turn
  | pushing c => cases taken; exact .pushes c
  | scanning live => cases taken; exact scanMove_turn live
  | attaching live fn => cases taken; exact attach_turn live fn
  | pinning live => cases taken; exact pin_turn live
  | deciding live => cases taken; exact decideMove_turn live
  | diffing hash fn => exact diffMove_turn taken
  | applying hash o => cases taken; exact .applies hash o
  | done => cases taken

theorem DispatchTurn.grows (turn : DispatchTurn env faddr cands pc m) : Grows cands m.cands := by
  cases turn with
  | pushes c => exact Grows.append cands [c]
  | attaches live fn _ => exact Grows.update (attach_keeps fn)
  | pins live _ => exact Grows.update pin_keeps
  | applies hash o => exact Grows.update (applyOutcome_keeps o)
  | _ => exact Grows.refl cands

inductive TrustEffect (faddr : UInt32) (hash : UInt64) (cands : List FragmentCandidate) (pc : DispatchPc)
    (m : DispatchMove) : Prop
  | quiet (passes : passesOf hash m.cands = passesOf hash cands)
      (log : ∀ older, cleanStreak faddr hash (m.log ++ older) = cleanStreak faddr hash older)
      (before : pc.carriesClean hash = false) (after : m.pc.carriesClean hash = false)
      (no_divergent : ¬pc.CarriesDivergent hash)
  | endsClean (passes : passesOf hash m.cands = passesOf hash cands)
      (log : ∀ older, cleanStreak faddr hash (m.log ++ older) = cleanStreak faddr hash older + 1)
      (before : pc.carriesClean hash = false) (no_divergent : ¬pc.CarriesDivergent hash)
  | endsDivergent (after : m.pc.CarriesDivergent hash)
  | appliesClean (passes : passesOf hash m.cands ≤ passesOf hash cands + 1) (log : m.log = [])
      (before : pc.carriesClean hash = true) (after : m.pc.carriesClean hash = false)
      (no_divergent : ¬pc.CarriesDivergent hash)
  | appliesDivergent (passes : passesOf hash m.cands = 0) (log : m.log = [])
      (before : pc.carriesClean hash = false) (after : m.pc.carriesClean hash = false)
      (divergent : pc.CarriesDivergent hash)

theorem TrustEffect.silent (passes : passesOf hash m.cands = passesOf hash cands) (log : m.log = [])
    (before : pc.carriesClean hash = false) (after : m.pc.carriesClean hash = false)
    (no_divergent : ¬pc.CarriesDivergent hash) : TrustEffect faddr hash cands pc m :=
  .quiet passes (fun older => by rw [log]; rfl) before after no_divergent

theorem cleanStreak_rejected (faddr' : UInt32) (hash' : UInt64) (older : List FragEvent) :
    cleanStreak faddr hash (.rejected faddr' hash' :: older) = cleanStreak faddr hash older :=
  streak_other rfl

theorem cleanStreak_native (faddr' : UInt32) (hash' : UInt64) (older : List FragEvent) :
    cleanStreak faddr hash (.native faddr' hash' :: older) = cleanStreak faddr hash older :=
  streak_other rfl

/-- An outcome is clean, or divergent, or says nothing about the trust. -/
theorem ShadowDiffOutcome.kinds (o : ShadowDiffOutcome) :
    (o.isClean = true ∧ o.isDivergent = false) ∨ (o.isClean = false ∧ o.isDivergent = true) ∨
      (o.isClean = false ∧ o.isDivergent = false) := by
  rcases o with ⟨ok, touch, ran, clean⟩
  cases touch <;> cases ran <;> cases clean <;> simp [isClean, isDivergent]

theorem verdict_diffed (o : ShadowDiffOutcome) :
    FragEvent.verdict faddr hash (.diffed faddr hash o) =
      if o.isClean then .clean else if o.isDivergent then .divergent else .other := if_pos ⟨rfl, rfl⟩

theorem verdict_diffed_other {hash' : UInt64} (other : hash' ≠ hash) (o : ShadowDiffOutcome) :
    FragEvent.verdict faddr hash (.diffed faddr hash' o) = .other := if_neg fun same => other same.2

theorem diff_effect {hash' : UInt64} {fn : RecompFunc} {o : ShadowDiffOutcome}
    (logged : m.log = [.diffed faddr hash' o]) (same : m.cands = cands)
    (applies : m.pc = .applying hash' o ∨ (m.pc = .done ∧ o.ranNative = false)) :
    TrustEffect faddr hash cands (.diffing hash' fn) m := by
  have passes : passesOf hash m.cands = passesOf hash cands := by rw [same]
  by_cases here : hash' = hash
  · subst here
    rcases o.kinds with ⟨clean, _⟩ | ⟨_, divergent⟩ | ⟨not_clean, not_divergent⟩
    · refine .endsClean passes (fun older => ?_) rfl id
      rw [logged]
      exact streak_clean ((verdict_diffed o).trans (if_pos clean))
    · refine .endsDivergent ?_
      rcases applies with applying | ⟨_, not_run⟩
      · rw [applying]
        exact ⟨rfl, divergent⟩
      · rw [ShadowDiffOutcome.isDivergent, not_run] at divergent
        simp at divergent
    · refine .quiet passes (fun older => ?_) rfl ?_ id
      · rw [logged]
        refine streak_other ((verdict_diffed o).trans ?_)
        rw [not_clean, not_divergent]
        rfl
      · rcases applies with applying | ⟨done, _⟩
        · rw [applying, DispatchPc.carriesClean, not_clean, Bool.and_false]
        · rw [done]
          rfl
  · refine .quiet passes (fun older => ?_) rfl ?_ id
    · rw [logged]
      exact streak_other (verdict_diffed_other here o)
    · rcases applies with applying | ⟨done, _⟩
      · rw [applying, DispatchPc.carriesClean, decide_eq_false here, Bool.false_and]
      · rw [done]
        rfl

theorem apply_effect {hash' : UInt64} {o : ShadowDiffOutcome} :
    TrustEffect faddr hash cands (.applying hash' o)
      ⟨.done, updateByHash hash' (FragmentCandidate.applyOutcome env o) cands, []⟩ := by
  have keeps : KeepsMarks (FragmentCandidate.applyOutcome env o) := applyOutcome_keeps o
  by_cases here : hash' = hash
  · subst here
    rcases o.kinds with ⟨clean, not_divergent⟩ | ⟨not_clean, divergent⟩ | ⟨not_clean, not_divergent⟩
    · refine .appliesClean (passesOf_updateByHash keeps (fun c => ?_) (Nat.le_refl _)) rfl ?_ rfl ?_
      · unfold FragmentCandidate.applyOutcome
        split_ifs with touch ran ok below
        · exact Nat.le_succ _
        · have bound : c.diffPasses.toNat < env.fragDiffBudget.toNat := below
          have fits := env.fragDiffBudget.toNat_lt
          have one : (1 : UInt32).toNat = 1 := rfl
          have counted : (c.diffPasses + 1).toNat = c.diffPasses.toNat + 1 := by
            rw [UInt32.toNat_add, one]
            exact Nat.mod_eq_of_lt (by omega)
          exact Nat.le_of_eq counted
        · exact Nat.le_succ _
        · exact Nat.zero_le _
        · exact Nat.le_succ _
      · rw [DispatchPc.carriesClean, clean, decide_eq_true rfl]
        rfl
      · rintro ⟨_, divergent⟩
        exact Bool.noConfusion (not_divergent.symm.trans divergent)
    · refine .appliesDivergent (passesOf_reset keeps fun c => ?_) rfl ?_ rfl ⟨rfl, divergent⟩
      · have ⟨⟨no_touch, ran⟩, diverged⟩ : (o.deviceTouch = false ∧ o.ranNative = true) ∧ o.clean = false := by
          simpa [ShadowDiffOutcome.isDivergent] using divergent
        simp [FragmentCandidate.applyOutcome, no_touch, ran, diverged]
      · rw [DispatchPc.carriesClean, not_clean, Bool.and_false]
    · refine .silent (passesOf_updateByHash_same keeps fun c => ?_) rfl ?_ rfl ?_
      · unfold FragmentCandidate.applyOutcome
        by_cases touch : o.deviceTouch = true
        · rw [if_pos touch]
        · have not_run : ¬o.ranNative = true := fun ran => by
            simp [ShadowDiffOutcome.isClean, touch, ran] at not_clean
            simp [ShadowDiffOutcome.isDivergent, touch, ran, not_clean] at not_divergent
          rw [if_neg touch, if_neg not_run]
      · rw [DispatchPc.carriesClean, not_clean, Bool.and_false]
      · rintro ⟨_, divergent⟩
        exact Bool.noConfusion (not_divergent.symm.trans divergent)
  · refine .silent (passesOf_updateByHash_other keeps (Ne.symm here)) rfl ?_ rfl fun divergent => here divergent.1
    rw [DispatchPc.carriesClean, decide_eq_false here, Bool.false_and]

theorem DispatchTurn.effect (turn : DispatchTurn env faddr cands pc m)
    (fresh : ∀ c, pc = .pushing c → c.diffPasses = 0) : TrustEffect faddr hash cands pc m := by
  cases turn with
  | copies c _ =>
      refine .silent rfl rfl rfl ?_ id
      unfold afterLookup
      split_ifs <;> rfl
  | misses => exact .silent rfl rfl rfl rfl id
  | discovers c _ _ => exact .silent rfl rfl rfl rfl id
  | discoversCall c _ _ => exact .quiet rfl (cleanStreak_rejected faddr c.contentHash) rfl rfl id
  | noBounds => exact .silent rfl rfl rfl rfl id
  | pushes c => exact .silent (passesOf_append (fresh c rfl)) rfl rfl rfl id
  | accepts live fn => exact .silent rfl rfl rfl rfl id
  | rejects live => exact .quiet rfl (cleanStreak_rejected faddr live.hash) rfl rfl id
  | attaches live fn _ =>
      exact .silent (passesOf_updateByHash_same (attach_keeps fn) fun _ => rfl) rfl rfl rfl id
  | pins live _ => exact .silent (passesOf_updateByHash_same pin_keeps fun _ => rfl) rfl rfl rfl id
  | runs live _ => exact .quiet rfl (cleanStreak_native faddr live.hash) rfl rfl id
  | startsDiff live fn => exact .silent rfl rfl rfl rfl id
  | leaves live => exact .silent rfl rfl rfl rfl id
  | diffs hash' fn o => exact diff_effect rfl rfl (Or.inl rfl)
  | failsDiff hash' fn o _ not_run => exact diff_effect rfl rfl (Or.inr ⟨rfl, not_run⟩)
  | applies hash' o => exact apply_effect

/-! What is logged. -/

def FragEvent.Against (faddr : UInt32) (hash : UInt64) (e : FragEvent) : Prop :=
  e.verdict faddr hash = .divergent ∨ Barred faddr hash [e]

theorem barred_append {newer older : List FragEvent} :
    Barred faddr hash (newer ++ older) ↔ Barred faddr hash newer ∨ Barred faddr hash older := by
  unfold Barred
  simp only [List.mem_append]
  constructor
  · rintro ((new | old) | ⟨o, new | old, touch⟩)
    · exact Or.inl (Or.inl new)
    · exact Or.inr (Or.inl old)
    · exact Or.inl (Or.inr ⟨o, new, touch⟩)
    · exact Or.inr (Or.inr ⟨o, old, touch⟩)
  · rintro ((rejected | ⟨o, new, touch⟩) | (rejected | ⟨o, old, touch⟩))
    · exact Or.inl (Or.inl rejected)
    · exact Or.inr ⟨o, Or.inl new, touch⟩
    · exact Or.inl (Or.inr rejected)
    · exact Or.inr ⟨o, Or.inr old, touch⟩

theorem barred_mem {log : List FragEvent} (barred : Barred faddr hash log) :
    ∃ e ∈ log, Barred faddr hash [e] := by
  rcases barred with mem | ⟨o, mem, touch⟩
  · exact ⟨_, mem, Or.inl (List.mem_singleton_self _)⟩
  · exact ⟨_, mem, Or.inr ⟨o, List.mem_singleton_self _, touch⟩⟩

theorem not_barred_nil : ¬Barred faddr hash [] := by
  rintro (mem | ⟨o, mem, _⟩) <;> cases mem

theorem not_barred_native (faddr' : UInt32) (hash' : UInt64) : ¬Barred faddr hash [.native faddr' hash'] := by
  rintro (mem | ⟨o, mem, _⟩) <;> cases List.mem_singleton.mp mem

theorem against_rejected {faddr' : UInt32} {hash' : UInt64}
    (against : (FragEvent.rejected faddr' hash').Against faddr hash) : faddr = faddr' ∧ hash = hash' := by
  rcases against with divergent | mem | ⟨o, mem, _⟩
  · exact Verdict.noConfusion divergent
  · cases List.mem_singleton.mp mem
    exact ⟨rfl, rfl⟩
  · cases List.mem_singleton.mp mem

theorem not_against_native (faddr' : UInt32) (hash' : UInt64) :
    ¬(FragEvent.native faddr' hash').Against faddr hash := by
  rintro (divergent | barred)
  · exact Verdict.noConfusion divergent
  · exact not_barred_native faddr' hash' barred

theorem barred_diffed {faddr' : UInt32} {hash' : UInt64} {o : ShadowDiffOutcome}
    (barred : Barred faddr hash [.diffed faddr' hash' o]) :
    faddr = faddr' ∧ hash = hash' ∧ o.deviceTouch = true := by
  rcases barred with mem | ⟨o', mem, touch⟩
  · cases List.mem_singleton.mp mem
  · cases List.mem_singleton.mp mem
    exact ⟨rfl, rfl, touch⟩

theorem against_diffed {faddr' : UInt32} {hash' : UInt64} {o : ShadowDiffOutcome}
    (against : (FragEvent.diffed faddr' hash' o).Against faddr hash) :
    faddr = faddr' ∧ hash = hash' ∧ (o.deviceTouch = true ∨ o.isDivergent = true) := by
  rcases against with divergent | barred
  · unfold FragEvent.verdict at divergent
    dsimp only at divergent
    split_ifs at divergent with same clean diverged
    exact ⟨same.1.symm, same.2.symm, Or.inr diverged⟩
  · obtain ⟨same, same', touch⟩ := barred_diffed barred
    exact ⟨same, same', Or.inl touch⟩

/-- What is logged against a candidate is about one of this address, and waits
for the lock from now on. -/
theorem DispatchTurn.logs {faddr' : UInt32} {e : FragEvent} (turn : DispatchTurn env faddr cands pc m)
    (mem : e ∈ m.log) (against : e.Against faddr' hash) :
    faddr' = faddr ∧ m.pc.Accuses hash ∧ (Barred faddr' hash [e] → m.pc.Bars hash) := by
  cases turn with
  | discoversCall c _ touch =>
      cases List.mem_singleton.mp mem
      obtain ⟨same_addr, same_hash⟩ := against_rejected against
      exact ⟨same_addr, Or.inl ⟨same_hash.symm, touch⟩, fun _ => ⟨same_hash.symm, touch⟩⟩
  | rejects live =>
      cases List.mem_singleton.mp mem
      obtain ⟨same_addr, same_hash⟩ := against_rejected against
      exact ⟨same_addr, Or.inl same_hash.symm, fun _ => same_hash.symm⟩
  | runs live _ =>
      cases List.mem_singleton.mp mem
      exact absurd against (not_against_native faddr live.hash)
  | diffs hash' fn o =>
      cases List.mem_singleton.mp mem
      obtain ⟨same_addr, same_hash, verdict⟩ := against_diffed against
      exact ⟨same_addr, verdict.imp (⟨same_hash.symm, ·⟩) (⟨same_hash.symm, ·⟩),
        fun barred => ⟨same_hash.symm, (barred_diffed barred).2.2⟩⟩
  | failsDiff hash' fn o no_touch not_run =>
      cases List.mem_singleton.mp mem
      obtain ⟨_, _, touch | divergent⟩ := against_diffed against
      · exact Bool.noConfusion (no_touch.symm.trans touch)
      · rw [ShadowDiffOutcome.isDivergent, not_run] at divergent
        simp at divergent
  | _ => cases mem

theorem DispatchTurn.elsewhere {faddr' : UInt32} {e : FragEvent} (turn : DispatchTurn env faddr cands pc m)
    (other : faddr' ≠ faddr) (mem : e ∈ m.log) : e.verdict faddr' hash = .other := by
  cases turn with
  | discoversCall c _ _ =>
      cases List.mem_singleton.mp mem
      rfl
  | rejects live =>
      cases List.mem_singleton.mp mem
      rfl
  | runs live _ =>
      cases List.mem_singleton.mp mem
      rfl
  | diffs hash' fn o =>
      cases List.mem_singleton.mp mem
      exact if_neg fun same => other same.1.symm
  | failsDiff hash' fn o _ _ =>
      cases List.mem_singleton.mp mem
      exact if_neg fun same => other same.1.symm
  | _ => cases mem

theorem DispatchTurn.native {faddr' : UInt32} (turn : DispatchTurn env faddr cands pc m)
    (mem : .native faddr' hash ∈ m.log) :
    m.log = [.native faddr hash] ∧ faddr' = faddr ∧ pc.Trusts env hash := by
  cases turn with
  | runs live trusts =>
      cases List.mem_singleton.mp mem
      exact ⟨rfl, rfl, trusts⟩
  | discoversCall c _ _ => cases List.mem_singleton.mp mem
  | rejects live => cases List.mem_singleton.mp mem
  | diffs hash' fn o => cases List.mem_singleton.mp mem
  | failsDiff hash' fn o _ _ => cases List.mem_singleton.mp mem
  | _ => cases mem

theorem DispatchTurn.fresh {c : FragmentCandidate} (turn : DispatchTurn env faddr cands pc m)
    (pushing : m.pc = .pushing c) : c.diffPasses = 0 := by
  cases turn with
  | discovers c' fresh _ =>
      cases pushing
      exact fresh
  | discoversCall c' fresh _ =>
      cases pushing
      exact fresh
  | copies c' _ =>
      unfold afterLookup at pushing
      dsimp only at pushing
      split_ifs at pushing
  | _ => cases pushing

theorem DispatchTurn.silent (turn : DispatchTurn env faddr cands pc m)
    (trusts : m.pc.Trusts env hash) : m.log = [] := by
  cases turn with
  | discoversCall c _ _ => exact trusts.elim
  | rejects live => exact trusts.elim
  | runs live _ => exact trusts.elim
  | diffs hash' fn o => exact trusts.elim
  | failsDiff hash' fn o _ _ => exact trusts.elim
  | _ => rfl

theorem hasHash_of_mem {c : FragmentCandidate} (mem : c ∈ cands) : hasHash c.contentHash cands = true :=
  hasHash_iff.mpr ⟨c, mem, rfl⟩

theorem DispatchTurn.names (turn : DispatchTurn env faddr cands pc m)
    (known : ∀ hash, pc.Names hash → hasHash hash cands = true) (names : m.pc.Names hash) :
    hasHash hash m.cands = true := by
  have kept := turn.grows.known hash
  cases turn with
  | copies c mem =>
      have same : c.contentHash = hash := by
        unfold afterLookup at names
        split_ifs at names <;> exact names
      exact same ▸ hasHash_of_mem mem
  | pushes c => exact names ▸ hasHash_of_mem (List.mem_append_right _ (List.mem_singleton_self c))
  | misses => exact names.elim
  | discovers c _ _ => exact names.elim
  | discoversCall c _ _ => exact names.elim
  | noBounds => exact names.elim
  | runs live _ => exact names.elim
  | leaves live => exact names.elim
  | failsDiff hash' fn o _ _ => exact names.elim
  | applies hash' o => exact names.elim
  | _ => exact kept (known hash names)

/-- What bars the candidate is in the chain once its step is done. -/
theorem DispatchTurn.bars (turn : DispatchTurn env faddr cands pc m)
    (known : ∀ hash, pc.Names hash → hasHash hash cands = true) (bars : pc.Bars hash) :
    Pinned hash m.cands := by
  cases turn with
  | pushes c => exact ⟨c, List.mem_append_right _ (List.mem_singleton_self c), bars⟩
  | pins live _ =>
      cases bars
      exact pinned_of_update pin_keeps (fun _ => rfl) (known live.hash rfl)
  | applies hash' o =>
      obtain ⟨same, touch⟩ := bars
      cases same
      refine pinned_of_update (applyOutcome_keeps o) (fun c => ?_) (known _ rfl)
      unfold FragmentCandidate.applyOutcome
      rw [if_pos touch]
  | _ => exact bars.elim

end Moves

theorem Validated.append {budget : UInt32} {faddr : UInt32} {hash : UInt64} {newer older : List FragEvent}
    (valid : Validated budget faddr hash older) (kind : ∀ e ∈ newer, ¬e.Against faddr hash) :
    Validated budget faddr hash (newer ++ older) := by
  induction newer with
  | nil => exact valid
  | cons e newer ih =>
      have rest := ih fun e' mem => kind e' (List.mem_cons_of_mem _ mem)
      have this_event := kind e List.mem_cons_self
      constructor
      · exact rest.streak.trans (streak_grows fun divergent => this_event (Or.inl divergent))
      · intro barred
        have split : Barred faddr hash ([e] ++ (newer ++ older)) := barred
        rcases barred_append.mp split with now | before
        · exact this_event (Or.inr now)
        · exact rest.not_barred before

/-! ## The invariant -/

namespace FragTier

variable {env : HealEnv table ε} {cache : FragmentCache} {s : FragTier}

def DivergenceWaits (s : FragTier) (faddr : UInt32) (hash : UInt64) : Prop :=
  ∃ d ∈ s.dispatches, d.faddr = faddr ∧ d.pc.CarriesDivergent hash

def BarWaits (s : FragTier) (faddr : UInt32) (hash : UInt64) : Prop :=
  ∃ d ∈ s.dispatches, d.faddr = faddr ∧ d.pc.Bars hash

structure Invariant (env : HealEnv table ε) (s : FragTier) : Prop where
  fresh : ∀ d ∈ s.dispatches, ∀ c, d.pc = .pushing c → c.diffPasses = 0
  known : ∀ d ∈ s.dispatches, ∀ hash, d.pc.Names hash → hasHash hash (s.fragCands d.faddr) = true
  /-- The passes, with those that still wait, are clean diffs of the streak. -/
  counted : ∀ faddr hash, ¬s.DivergenceWaits faddr hash →
    passesOf hash (s.fragCands faddr) + s.cleanWaiting faddr hash ≤ cleanStreak faddr hash s.log
  barred : ∀ faddr hash, Barred faddr hash s.log →
    Pinned hash (s.fragCands faddr) ∨ s.BarWaits faddr hash
  trusted : ∀ d ∈ s.dispatches, ∀ hash, d.pc.Trusts env hash →
    Validated env.fragDiffBudget d.faddr hash s.log
  promotions : CleanPromotions env.fragDiffBudget s.log

theorem Started.invariant (started : s.Started) : s.Invariant env := by
  have none_running (d : TierDispatch) : d ∉ s.dispatches := by
    rw [started.dispatches]
    exact List.not_mem_nil
  constructor
  · exact fun d mem => absurd mem (none_running d)
  · exact fun d mem => absurd mem (none_running d)
  · intro faddr hash _
    rw [started.fragCands, cleanWaiting, started.dispatches]
    exact Nat.zero_le _
  · intro faddr hash barred
    rw [started.log] at barred
    exact absurd barred not_barred_nil
  · exact fun d mem => absurd mem (none_running d)
  · intro newer older faddr hash split
    rw [started.log] at split
    exact absurd split.symm (by simp)

theorem Invariant.validated (inv : s.Invariant env) {faddr : UInt32} {hash : UInt64}
    (good : s.InGoodStanding env faddr hash) : Validated env.fragDiffBudget faddr hash s.log := by
  constructor
  · have no_divergence : ¬s.DivergenceWaits faddr hash := fun ⟨d, mem, same, waits⟩ =>
      good.not_accused ⟨d, mem, same, Or.inr waits⟩
    have counted := inv.counted faddr hash no_divergence
    have full := good.passes
    omega
  · intro barred
    rcases inv.barred faddr hash barred with pinned | ⟨d, mem, same, bars⟩
    · exact good.not_pinned pinned
    · exact good.not_accused ⟨d, mem, same, Or.inl bars⟩

/-! ## A step -/

section Next

variable {i : Nat} {d : TierDispatch} {m : DispatchMove} {faddr : UInt32} {hash : UInt64}

theorem moved_cands_self : (s.moved i d.faddr m).fragCands d.faddr = m.cands := by
  unfold moved
  exact Function.update_self d.faddr m.cands s.fragCands

theorem moved_cands_other (other : faddr ≠ d.faddr) :
    (s.moved i d.faddr m).fragCands faddr = s.fragCands faddr := by
  unfold moved
  exact Function.update_of_ne other m.cands s.fragCands

theorem moved_grows (turn : DispatchTurn env d.faddr (s.fragCands d.faddr) d.pc m) (faddr : UInt32) :
    Grows (s.fragCands faddr) ((s.moved i d.faddr m).fragCands faddr) := by
  by_cases here : faddr = d.faddr
  · subst here
    rw [moved_cands_self]
    exact turn.grows
  · rw [moved_cands_other here]
    exact Grows.refl _

theorem cleanWaiting_moved (at_i : s.dispatches[i]? = some d) (hash : UInt64) :
    (s.moved i d.faddr m).cleanWaiting d.faddr hash + (if d.pc.carriesClean hash then 1 else 0) =
      s.cleanWaiting d.faddr hash + (if m.pc.carriesClean hash then 1 else 0) := by
  have counted := countP_worker (fun d' : TierDispatch =>
    decide (d'.faddr = d.faddr) && d'.pc.carriesClean hash) at_i ⟨d.faddr, m.pc⟩
  unfold cleanWaiting moved
  simpa using counted

theorem cleanWaiting_moved_other (at_i : s.dispatches[i]? = some d) (other : faddr ≠ d.faddr) :
    (s.moved i d.faddr m).cleanWaiting faddr hash = s.cleanWaiting faddr hash := by
  have differs : decide (d.faddr = faddr) = false := decide_eq_false (Ne.symm other)
  have counted := countP_worker (fun d' : TierDispatch =>
    decide (d'.faddr = faddr) && d'.pc.carriesClean hash) at_i ⟨d.faddr, m.pc⟩
  unfold cleanWaiting moved
  simpa [differs] using counted

theorem cleanStreak_moved_other (turn : DispatchTurn env d.faddr (s.fragCands d.faddr) d.pc m)
    (other : faddr ≠ d.faddr) :
    cleanStreak faddr hash (m.log ++ s.log) = cleanStreak faddr hash s.log :=
  streak_append_other fun _ mem => turn.elsewhere other mem

theorem divergenceWaits_moved (at_i : s.dispatches[i]? = some d) (quiet : ¬d.pc.CarriesDivergent hash ∨ faddr ≠ d.faddr)
    (waits : s.DivergenceWaits faddr hash) : (s.moved i d.faddr m).DivergenceWaits faddr hash := by
  obtain ⟨d', mem, same, carries⟩ := waits
  rcases mem_set_of_mem at_i mem with moved | kept
  · subst moved
    rcases quiet with no_divergent | other
    · exact absurd carries no_divergent
    · exact absurd same.symm other
  · exact ⟨d', kept, same, carries⟩

theorem Invariant.counted_moved (inv : s.Invariant env) (at_i : s.dispatches[i]? = some d)
    (turn : DispatchTurn env d.faddr (s.fragCands d.faddr) d.pc m)
    (timely : s.MoveTimely env d m.pc)
    (no_divergence : ¬(s.moved i d.faddr m).DivergenceWaits d.faddr hash) :
    passesOf hash m.cands + (s.moved i d.faddr m).cleanWaiting d.faddr hash ≤
      cleanStreak d.faddr hash (m.log ++ s.log) := by
  have waiting := cleanWaiting_moved (m := m) at_i hash
  have counted (quiet : ¬d.pc.CarriesDivergent hash) := inv.counted d.faddr hash fun waits =>
    no_divergence (divergenceWaits_moved at_i (Or.inl quiet) waits)
  cases turn.effect (inv.fresh d (List.mem_of_getElem? at_i)) with
  | quiet passes log before after no_divergent =>
      have bound := counted no_divergent
      simp only [before, after, Bool.false_eq_true, if_false, Nat.add_zero] at waiting
      rw [passes, log, waiting]
      exact bound
  | endsClean passes log before no_divergent =>
      have bound := counted no_divergent
      simp only [before, Bool.false_eq_true, if_false, Nat.add_zero] at waiting
      have one : (if m.pc.carriesClean hash = true then 1 else 0) ≤ 1 := by split_ifs <;> omega
      rw [passes, log, waiting]
      omega
  | endsDivergent after =>
      exact absurd ⟨⟨d.faddr, m.pc⟩, mem_set_self_of_getElem? at_i _, rfl, after⟩ no_divergence
  | appliesClean passes log before after no_divergent =>
      have bound := counted no_divergent
      simp only [before, after, Bool.false_eq_true, if_false, if_true, Nat.add_zero] at waiting
      rw [log, List.nil_append]
      omega
  | appliesDivergent passes log before after divergent =>
      simp only [before, after, Bool.false_eq_true, if_false, Nat.add_zero] at waiting
      rw [passes, log, waiting, Nat.zero_add]
      exact timely.order hash divergent

/-- A native run in the log is an older one, or the one of the step. -/
theorem native_split (turn : DispatchTurn env d.faddr (s.fragCands d.faddr) d.pc m)
    {newer older : List FragEvent} (split : m.log ++ s.log = newer ++ .native faddr hash :: older) :
    (∃ newer', s.log = newer' ++ .native faddr hash :: older) ∨
      (faddr = d.faddr ∧ d.pc.Trusts env hash ∧ s.log = older) := by
  rcases List.append_eq_append_iff.mp split with ⟨newer', _, rest⟩ | ⟨ran, logged, rest⟩
  · exact Or.inl ⟨newer', rest⟩
  · cases ran with
    | nil => exact Or.inl ⟨[], rest.symm⟩
    | cons e ran =>
        obtain ⟨same, older_is⟩ := List.cons.inj rest
        subst same
        obtain ⟨one, here, trusts⟩ := turn.native (by
          rw [logged]
          exact List.mem_append_right _ List.mem_cons_self)
        have nothing_else : ran = [] := by
          have lengths := congrArg List.length (logged.symm.trans one)
          simp only [List.length_append, List.length_cons, List.length_nil] at lengths
          exact List.length_eq_zero_iff.mp (by omega)
        rw [nothing_else] at older_is
        exact Or.inr ⟨here, trusts, older_is.symm⟩

theorem Invariant.moved (inv : s.Invariant env) (at_i : s.dispatches[i]? = some d)
    (turn : DispatchTurn env d.faddr (s.fragCands d.faddr) d.pc m)
    (timely : s.MoveTimely env d m.pc) : (s.moved i d.faddr m).Invariant env := by
  have mem := List.mem_of_getElem? at_i
  constructor
  · intro d' mem' c pushing
    rcases mem_set_cases mem' with old | new
    · exact inv.fresh d' old c pushing
    · subst new
      exact turn.fresh pushing
  · intro d' mem' hash names
    rcases mem_set_cases mem' with old | new
    · exact (moved_grows turn d'.faddr).known hash (inv.known d' old hash names)
    · subst new
      rw [moved_cands_self]
      exact turn.names (inv.known d mem) names
  · intro faddr hash no_divergence
    by_cases here : faddr = d.faddr
    · subst here
      rw [moved_cands_self]
      exact inv.counted_moved at_i turn timely no_divergence
    · have bound := inv.counted faddr hash fun waits =>
        no_divergence (divergenceWaits_moved at_i (Or.inr here) waits)
      rw [moved_cands_other here, cleanWaiting_moved_other at_i here]
      exact bound.trans (Nat.le_of_eq (cleanStreak_moved_other turn here).symm)
  · intro faddr hash barred
    rcases barred_append.mp barred with now | before
    · obtain ⟨e, logged, one⟩ := barred_mem now
      obtain ⟨here, _, bars⟩ := turn.logs logged (Or.inr one)
      exact Or.inr ⟨⟨d.faddr, m.pc⟩, mem_set_self_of_getElem? at_i _, here.symm, bars one⟩
    · rcases inv.barred faddr hash before with pinned | ⟨d', mem', here, bars⟩
      · exact Or.inl ((moved_grows turn faddr).pinned hash pinned)
      · rcases mem_set_of_mem at_i mem' with moved | kept
        · subst moved here
          rw [moved_cands_self]
          exact Or.inl (turn.bars (inv.known d' mem') bars)
        · exact Or.inr ⟨d', kept, here, bars⟩
  · intro d' mem' hash trusts
    rcases mem_set_cases mem' with old | new
    · refine (inv.trusted d' old hash trusts).append fun e logged against => ?_
      obtain ⟨here, accuses, _⟩ := turn.logs logged against
      exact timely.verdict hash accuses d' old here trusts
    · subst new
      change Validated env.fragDiffBudget d.faddr hash (m.log ++ s.log)
      rw [turn.silent trusts]
      exact inv.validated (timely.trust hash trusts)
  · intro newer older faddr hash split
    have split' : m.log ++ s.log = newer ++ .native faddr hash :: older := split
    rcases native_split turn split' with ⟨_, log_is⟩ | ⟨here, trusts, log_is⟩
    · exact inv.promotions _ older faddr hash log_is
    · rw [here, ← log_is]
      exact inv.trusted d mem hash trusts

end Next

/-! ## The other steps -/

structure Extends (before after : UInt32 → List FragmentCandidate) : Prop where
  grows : ∀ faddr, Grows (before faddr) (after faddr)
  passes : ∀ faddr hash, passesOf hash (after faddr) = passesOf hash (before faddr)

theorem Extends.trans {a b c : UInt32 → List FragmentCandidate} (first : Extends a b) (second : Extends b c) :
    Extends a c where
  grows faddr :=
    ⟨fun hash known => (second.grows faddr).known hash ((first.grows faddr).known hash known),
      fun hash pinned => (second.grows faddr).pinned hash ((first.grows faddr).pinned hash pinned)⟩
  passes faddr hash := (second.passes faddr hash).trans (first.passes faddr hash)

theorem Extends.refl (cands : UInt32 → List FragmentCandidate) : Extends cands cands :=
  ⟨fun _ => Grows.refl _, fun _ _ => rfl⟩

theorem loadCandidate_extends (cands : UInt32 → List FragmentCandidate) {c : FragmentCandidate}
    (fresh : c.diffPasses = 0) : Extends cands (loadCandidate cands c) := by
  unfold loadCandidate
  split_ifs
  · exact Extends.refl cands
  · exact Extends.refl cands
  · constructor
    · intro faddr
      by_cases here : faddr = c.addr
      · subst here
        rw [Function.update_self]
        exact Grows.append _ _
      · rw [Function.update_of_ne here]
        exact Grows.refl _
    · intro faddr hash
      by_cases here : faddr = c.addr
      · subst here
        rw [Function.update_self, passesOf_append fresh]
      · rw [Function.update_of_ne here]

theorem loadFragmentManifest_extends (cache : FragmentCache) (m : FragmentManifest)
    (cands : UInt32 → List FragmentCandidate) : Extends cands (loadFragmentManifest cache m cands) := by
  unfold loadFragmentManifest
  split_ifs
  · generalize m.candidates = entries
    induction entries generalizing cands with
    | nil => exact Extends.refl cands
    | cons e entries ih => exact (loadCandidate_extends cands rfl).trans (ih _)
  · exact Extends.refl cands

theorem Invariant.loaded (inv : s.Invariant env) {cands : UInt32 → List FragmentCandidate}
    (more : Extends s.fragCands cands) : ({ s with fragCands := cands } : FragTier).Invariant env := by
  constructor
  · exact inv.fresh
  · exact fun d mem hash names => (more.grows d.faddr).known hash (inv.known d mem hash names)
  · intro faddr hash no_divergence
    have bound := inv.counted faddr hash no_divergence
    change passesOf hash (cands faddr) + _ ≤ _
    rw [more.passes faddr hash]
    exact bound
  · exact fun faddr hash barred => (inv.barred faddr hash barred).imp_left ((more.grows faddr).pinned hash)
  · exact inv.trusted
  · exact inv.promotions

theorem Invariant.entered (inv : s.Invariant env) (faddr : UInt32) :
    ({ s with dispatches := s.dispatches ++ [⟨faddr, .entered⟩] } : FragTier).Invariant env := by
  have cases_of {d : TierDispatch} (mem : d ∈ s.dispatches ++ [⟨faddr, .entered⟩]) :
      d ∈ s.dispatches ∨ d.pc = .entered := by
    rcases List.mem_append.mp mem with old | new
    · exact Or.inl old
    · rw [List.mem_singleton.mp new]
      exact Or.inr rfl
  constructor
  · intro d mem c pushing
    rcases cases_of mem with old | new
    · exact inv.fresh d old c pushing
    · cases new.symm.trans pushing
  · intro d mem hash names
    rcases cases_of mem with old | new
    · exact inv.known d old hash names
    · rw [new] at names
      exact names.elim
  · intro faddr' hash no_divergence
    have bound := inv.counted faddr' hash fun ⟨d, mem, rest⟩ =>
      no_divergence ⟨d, List.mem_append_left _ mem, rest⟩
    have none_new : cleanWaiting { s with dispatches := s.dispatches ++ [⟨faddr, .entered⟩] } faddr' hash =
        s.cleanWaiting faddr' hash := by
      unfold cleanWaiting
      simp [List.countP_append, DispatchPc.carriesClean]
    rw [none_new]
    exact bound
  · intro faddr' hash barred
    exact (inv.barred faddr' hash barred).imp_right fun ⟨d, mem, rest⟩ =>
      ⟨d, List.mem_append_left _ mem, rest⟩
  · intro d mem hash trusts
    rcases cases_of mem with old | new
    · exact inv.trusted d old hash trusts
    · rw [new] at trusts
      exact trusts.elim
  · exact inv.promotions

theorem Invariant.step (inv : s.Invariant env) {l : TierLabel table ε} {t : FragTier}
    (timely : s.Timely env l) (taken : s.step env cache l = some t) : t.Invariant env := by
  cases l with
  | loadManifest m =>
      obtain ⟨_, same⟩ := Option.ite_none_right_eq_some.mp taken
      cases same
      exact inv.loaded (loadFragmentManifest_extends cache m s.fragCands)
  | enter faddr shadowActive =>
      obtain ⟨_, same⟩ := Option.ite_none_right_eq_some.mp taken
      cases same
      exact inv.entered faddr
  | next i reads =>
      obtain ⟨d, at_i, moves⟩ := Option.bind_eq_some_iff.mp taken
      obtain ⟨m, move, same⟩ := Option.map_eq_some_iff.mp moves
      cases same
      exact inv.moved at_i (dispatchMove_turn move) (timely d at_i m move)

/-- In a run in which no trust is out of date, every shard that runs on the live
state has been validated. -/
theorem promotions_clean (env : HealEnv table ε) (cache : FragmentCache) {s : FragTier}
    (reached : Reach (FragTier.step env cache) (FragTier.Timely env) Started s) :
    CleanPromotions env.fragDiffBudget s.log :=
  Invariant.promotions
    (reached.invariant (fun _ started => started.invariant)
      fun _ _ _ inv timely taken => inv.step timely taken)

end FragTier

/-! ## A shard that is wrong for one input -/

/-- `jr $ra; nop` at 0x80400000 -/
def justReturn : GuestMemory := GuestMemory.ofWords 0x400000 [0x03E00008, 0x00000000]

def returning (a0 : Gpr) : Thread oneFragment Unit :=
  { missedAt 0x80400000 justReturn with
    ctx := { (missedAt 0x80400000 justReturn).ctx with
      r := Function.update (missedAt 0x80400000 justReturn).ctx.r 4 a0 } }

def wrongOnOne : HealEnv oneFragment Unit :=
  { rejectingEnv with
    call := fun _ s =>
      if s.ctx.r 4 = 1 then { s with ctx := { s.ctx with r := Function.update s.ctx.r 2 1 } } else s
    discoverFunctionBounds := fun _ _ => some 8
    fragDiffBudget := 1 }

theorem clean_on_zero : ∃ s', shadowDiff wrongOnOne 0x80400000 2 (returning 0) =
    some (s', { interpOk := true, ranNative := true, clean := true }) :=
  runShadowDiff_idle (t := _) rfl rfl rfl (by decide) rfl

theorem divergent_on_one : ∃ s', shadowDiff wrongOnOne 0x80400000 2 (returning 1) =
    some (s', { interpOk := true, ranNative := true, clean := false }) := by
  have outcome : (shadowDiff wrongOnOne 0x80400000 2 (returning 1)).map (fun after => after.2) =
      some { interpOk := true, ranNative := true, clean := false } := by decide
  obtain ⟨⟨s', o⟩, ran, same⟩ := Option.map_eq_some_iff.mp outcome
  exact ⟨s', ran.trans (congrArg some (Prod.ext rfl same))⟩

namespace FragTier

def noFragments : FragTier := ⟨fun _ => [], [], []⟩

theorem noFragments_started : noFragments.Started := ⟨fun _ => rfl, rfl, rfl⟩

def returningReads (a0 : Gpr) : DispatchReads oneFragment Unit :=
  ⟨justReturn, justReturn, justReturn, justReturn, returning a0⟩

def noCache : FragmentCache := ⟨false, "unknown-arch"⟩

def missReturn : TierLabel oneFragment Unit := .enter 0x80400000 false

theorem step_next {table : SectionTable} {ε : Type} {env : HealEnv table ε} {cache : FragmentCache}
    {s : FragTier} {i : Nat} {reads : DispatchReads table ε} {d : TierDispatch} {m : DispatchMove}
    (at_i : s.dispatches[i]? = some d)
    (move : dispatchMove env reads d.faddr (s.fragCands d.faddr) d.pc = some m) :
    s.step env cache (.next i reads) = some (s.moved i d.faddr m) := by
  rw [step, at_i, Option.bind_some, move, Option.map_some]

theorem diff_move {a0 : Gpr} {cands : List FragmentCandidate} {hash : UInt64} {fn : RecompFunc}
    {s' : Thread oneFragment Unit} {o : ShadowDiffOutcome}
    (ran : shadowDiff wrongOnOne 0x80400000 fn (returning a0) = some (s', o)) :
    dispatchMove wrongOnOne (returningReads a0) 0x80400000 cands (.diffing hash fn) =
      some ⟨if o.interpOk then .applying hash o else .done, cands, [.diffed 0x80400000 hash o]⟩ := by
  change (shadowDiff wrongOnOne 0x80400000 fn (returning a0)).map _ = _
  rw [ran]
  rfl

/-- The third dispatch copies full trust, the diff of the second one diverges and
is applied, and the third runs the shard. -/
theorem stale_promotion :
    ¬ ∀ s, Reach (FragTier.step wrongOnOne noCache) Always Started s →
        CleanPromotions wrongOnOne.fragDiffBudget s.log := by
  intro claimed
  obtain ⟨_, clean⟩ := clean_on_zero
  obtain ⟨_, divergent⟩ := divergent_on_one
  have first : Reach (FragTier.step wrongOnOne noCache) Always Started _ :=
    .next missReturn (.start noFragments_started) trivial rfl
  have discovering := Reach.next (.next 0 (returningReads 0)) first trivial rfl
  have pushing := Reach.next (.next 0 (returningReads 0)) discovering trivial rfl
  have pushed := Reach.next (.next 0 (returningReads 0)) pushing trivial rfl
  have diffing := Reach.next (.next 0 (returningReads 0)) pushed trivial rfl
  have second := Reach.next missReturn diffing trivial rfl
  have found := Reach.next (.next 1 (returningReads 0)) second trivial rfl
  have both := Reach.next (.next 1 (returningReads 0)) found trivial rfl
  have ended := Reach.next (.next 0 (returningReads 0)) both trivial (step_next rfl (diff_move clean))
  have applied := Reach.next (.next 0 (returningReads 0)) ended trivial rfl
  have third := Reach.next missReturn applied trivial rfl
  have trusts := Reach.next (.next 2 (returningReads 0)) third trivial rfl
  have diverged := Reach.next (.next 1 (returningReads 1)) trusts trivial (step_next rfl (diff_move divergent))
  have reset := Reach.next (.next 1 (returningReads 1)) diverged trivial rfl
  have native := Reach.next (.next 2 (returningReads 0)) reset trivial rfl
  have valid := claimed _ native [] _ 0x80400000 (fragmentLiveCodeHash justReturn 0x80400000 8) rfl
  have streak_is : cleanStreak 0x80400000 (fragmentLiveCodeHash justReturn 0x80400000 8)
      [.diffed 0x80400000 (fragmentLiveCodeHash justReturn 0x80400000 8) ⟨true, false, true, false⟩,
        .diffed 0x80400000 (fragmentLiveCodeHash justReturn 0x80400000 8) ⟨true, false, true, true⟩] = 0 :=
    streak_divergent rfl
  exact absurd (valid.streak.trans (Nat.le_of_eq streak_is)) (by decide)

theorem reach_move {s : FragTier} (i : Nat) (reads : DispatchReads oneFragment Unit)
    {d : TierDispatch} {m : DispatchMove}
    (before : Reach (FragTier.step wrongOnOne noCache) (FragTier.Timely wrongOnOne) Started s)
    (at_i : s.dispatches[i]? = some d)
    (move : dispatchMove wrongOnOne reads d.faddr (s.fragCands d.faddr) d.pc = some m)
    (timely : s.MoveTimely wrongOnOne d m.pc) :
    Reach (FragTier.step wrongOnOne noCache) (FragTier.Timely wrongOnOne) Started (s.moved i d.faddr m) := by
  refine .next (.next i reads) before ?_ (step_next at_i move)
  intro d' at_i' m' move'
  cases at_i.symm.trans at_i'
  cases move.symm.trans move'
  exact timely

theorem quiet_timely {s : FragTier} {d : TierDispatch} {pc : DispatchPc}
    (no_verdict : ∀ hash, ¬pc.Accuses hash) (no_trust : ∀ hash, ¬pc.Trusts wrongOnOne hash)
    (no_divergent : ∀ hash, ¬d.pc.CarriesDivergent hash) : s.MoveTimely wrongOnOne d pc :=
  ⟨fun hash verdict => absurd verdict (no_verdict hash), fun hash trusts => absurd trusts (no_trust hash),
    fun hash divergent => absurd divergent (no_divergent hash)⟩

/-- The shard passes its diff and runs at the next miss. -/
theorem promotion_in_time :
    ∃ s, Reach (FragTier.step wrongOnOne noCache) (FragTier.Timely wrongOnOne) Started s ∧
      .native 0x80400000 (fragmentLiveCodeHash justReturn 0x80400000 8) ∈ s.log ∧
      CleanPromotions wrongOnOne.fragDiffBudget s.log := by
  obtain ⟨_, clean⟩ := clean_on_zero
  have first : Reach (FragTier.step wrongOnOne noCache) (FragTier.Timely wrongOnOne) Started _ :=
    .next missReturn (.start noFragments_started) trivial rfl
  have discovering := reach_move 0 (returningReads 0) first rfl rfl
    (quiet_timely (fun _ => nofun) (fun _ => nofun) fun _ => nofun)
  have pushing := reach_move 0 (returningReads 0) discovering rfl rfl
    (quiet_timely (fun _ accuses => absurd (accuses.elim And.right False.elim) (by decide)) (fun _ => id)
      fun _ => id)
  have pushed := reach_move 0 (returningReads 0) pushing rfl rfl
    (quiet_timely (fun _ accuses => accuses.elim id id) (fun _ trusts => absurd trusts.2.2.2 (by decide))
      fun _ => id)
  have diffing := reach_move 0 (returningReads 0) pushed rfl rfl
    (quiet_timely (fun _ accuses => accuses.elim id id) (fun _ => id) fun _ => id)
  have ended := reach_move 0 (returningReads 0) diffing rfl (diff_move clean)
    (quiet_timely (fun _ accuses => absurd (accuses.elim And.right And.right) (by decide)) (fun _ => id)
      fun _ => id)
  have applied := reach_move 0 (returningReads 0) ended rfl rfl
    (quiet_timely (fun _ accuses => accuses.elim id id) (fun _ => id)
      fun _ divergent => Bool.noConfusion divergent.2)
  have second := Reach.next missReturn applied trivial rfl
  have trusting := reach_move 1 (returningReads 0) second rfl rfl
    ⟨fun _ accuses => accuses.elim False.elim False.elim, fun hash trusts => by
      obtain ⟨same, _⟩ := trusts
      subst same
      refine ⟨by decide, ?_, ?_⟩
      · rintro ⟨c, mem, _, touch⟩
        cases List.mem_singleton.mp mem
        exact absurd touch (by decide)
      · rintro ⟨d, mem, _, accuses⟩
        rcases List.mem_cons.mp mem with first | second
        · cases first
          exact accuses.elim id id
        · cases List.mem_singleton.mp second
          exact accuses.elim id id, fun _ => nofun⟩
  have native := reach_move 1 (returningReads 0) trusting rfl rfl
    (quiet_timely (fun _ accuses => accuses.elim id id) (fun _ => id) fun _ => id)
  exact ⟨_, native, List.mem_cons_self, promotions_clean wrongOnOne noCache native⟩

end FragTier

end N64ModernRuntime.Librecomp
