import N64ModernRuntime.Librecomp.FragmentTrust

/-!
# overlays.cpp: the code that a shard was compiled from

A dispatch hashes the range of its candidate and the compiler finds a range of
its own.  Each candidate has here, beside its fields, the code that its shard
was compiled from; no step looks at it.
-/

set_option autoImplicit false

namespace N64ModernRuntime.Librecomp

open Transition

variable {table : SectionTable} {ε : Type}

/-- What the compiler found at the address of the candidate. -/
structure ShardSource where
  size : Nat
  bytes : List UInt8
  deriving DecidableEq

structure SourcedCandidate where
  cand : FragmentCandidate
  source : Option ShardSource
  deriving DecidableEq

def ShardSource.Current (src : ShardSource) (m : GuestMemory) (faddr : UInt32) : Prop :=
  codeBytes m faddr src.size = src.bytes

/-! ## A dispatch -/

section Dispatch
variable (env : HealEnv table ε) (m : GuestMemory) (faddr : UInt32)

def compiledSource : Option ShardSource :=
  (jitCompileFunction env m faddr).bind fun _ =>
    (discoveredSize env m faddr).map fun size => ⟨size, codeBytes m faddr size⟩

/-- The live candidate gets a shard in this dispatch, if it compiles. -/
def getsShard (live : FragmentCandidate) : Bool :=
  env.fragNativeEnabled && live.fn.isNone && !live.deviceTouch && !live.blacklisted
    && decide (0 < live.codeLen) && fragmentIsSafeLeaf m live.codeLo live.codeLen

def SourcedCandidate.isLive (k : SourcedCandidate) : Bool :=
  decide (0 < k.cand.codeLen) &&
    fragmentLiveCodeHash m k.cand.codeLo k.cand.codeLen == k.cand.contentHash

def renewSourced (live k : SourcedCandidate) : SourcedCandidate where
  cand := renewCandidate env m faddr live.cand k.cand
  source := if getsShard env m live.cand then (compiledSource env m faddr).or k.source else k.source

def newSourced : Option SourcedCandidate :=
  (newCandidate env m faddr).map fun c =>
    ⟨c, if c.fn.isSome then compiledSource env m faddr else none⟩

def updateSourced (hash : UInt64) (change : SourcedCandidate → SourcedCandidate) :
    List SourcedCandidate → List SourcedCandidate
  | [] => []
  | k :: rest =>
      if k.cand.contentHash = hash then change k :: rest else k :: updateSourced hash change rest

def trackSourced (chain : List SourcedCandidate) : Option SourcedCandidate × List SourcedCandidate :=
  match chain.find? (SourcedCandidate.isLive m) with
  | some live =>
      (some (renewSourced env m faddr live live),
        updateSourced live.cand.contentHash (renewSourced env m faddr live) chain)
  | none =>
      match newSourced env m faddr with
      | some k => (some k, chain ++ [k])
      | none => (none, chain)

end Dispatch

/-! The dispatch is that of the tier, with the sources beside it. -/

theorem updateSourced_cands (hash : UInt64) {change : SourcedCandidate → SourcedCandidate}
    {change' : FragmentCandidate → FragmentCandidate} (same : ∀ k, (change k).cand = change' k.cand)
    (chain : List SourcedCandidate) :
    (updateSourced hash change chain).map SourcedCandidate.cand =
      updateByHash hash change' (chain.map SourcedCandidate.cand) := by
  induction chain with
  | nil => rfl
  | cons k rest ih =>
      rw [updateSourced, List.map_cons, updateByHash]
      split
      · rw [List.map_cons, same]
      · rw [List.map_cons, ih]

theorem trackSourced_cands (env : HealEnv table ε) (faddr : UInt32) (s : Thread table ε)
    (chain : List SourcedCandidate)
    (same : s.heal.fragCands faddr = chain.map SourcedCandidate.cand) :
    trackCandidate env faddr s =
      ((trackSourced env s.rdram faddr chain).1.map SourcedCandidate.cand,
        s.setCands faddr ((trackSourced env s.rdram faddr chain).2.map SourcedCandidate.cand)) := by
  have live : liveCandidate faddr s =
      (chain.find? (SourcedCandidate.isLive s.rdram)).map SourcedCandidate.cand := by
    rw [liveCandidate, same, List.find?_map]
    rfl
  unfold trackCandidate trackSourced
  rw [live]
  cases chain.find? (SourcedCandidate.isLive s.rdram) with
  | some k =>
      dsimp only [Option.map_some]
      have renewed := updateSourced_cands k.cand.contentHash
        (fun k' => show (renewSourced env s.rdram faddr k k').cand =
          renewCandidate env s.rdram faddr k.cand k'.cand from rfl) chain
      rw [same, renewed]
      rfl
  | none =>
      dsimp only [Option.map_none, newSourced]
      cases newCandidate env s.rdram faddr with
      | some c =>
          dsimp only [Option.map_some]
          rw [List.map_append, same]
          rfl
      | none =>
          dsimp only [Option.map_none]
          rw [← same, Thread.setCands, Function.update_eq_self]
          rfl

/-! ## The tier -/

structure ShardTier where
  rdram : GuestMemory
  chains : UInt32 → List SourcedCandidate

inductive ShardLabel where
  /-- `init_overlays` -/
  | loadManifest (m : FragmentManifest)
  /-- the game writes to memory, by itself or in what a dispatch executes -/
  | change (m : GuestMemory)
  | dispatch (faddr : UInt32)
  /-- `frag_apply_diff_outcome` -/
  | outcome (faddr : UInt32) (hash : UInt64) (o : ShadowDiffOutcome)

def loadSourced (chains : UInt32 → List SourcedCandidate) (c : FragmentCandidate) :
    UInt32 → List SourcedCandidate :=
  if c.addr = 0 ∨ c.codeLen = 0 ∨ c.contentHash = 0 then chains
  else if hasHash c.contentHash ((chains c.addr).map SourcedCandidate.cand) then chains
  else Function.update chains c.addr (chains c.addr ++ [⟨c, none⟩])

theorem loadSourced_cands (chains : UInt32 → List SourcedCandidate) (c : FragmentCandidate) :
    (fun faddr => (loadSourced chains c faddr).map SourcedCandidate.cand) =
      loadCandidate (fun faddr => (chains faddr).map SourcedCandidate.cand) c := by
  unfold loadSourced loadCandidate
  split
  · rfl
  · split
    · rfl
    · funext faddr
      by_cases own : faddr = c.addr
      · subst own
        rw [Function.update_self, Function.update_self, List.map_append]
        rfl
      · rw [Function.update_of_ne own, Function.update_of_ne own]

namespace ShardTier

variable (env : HealEnv table ε) (cache : FragmentCache)

def loaded (s : ShardTier) (m : FragmentManifest) : ShardTier :=
  if cache.fragCacheEnabled && m.formatVer == fragManifestFormatVer
      && m.codegenVer == fragCodegenVer && m.archAbi == cache.archAbi then
    { s with chains := (m.candidates.map ManifestEntry.candidate).foldl loadSourced s.chains }
  else s

def track (s : ShardTier) (faddr : UInt32) : Option SourcedCandidate × List SourcedCandidate :=
  trackSourced env s.rdram faddr (s.chains faddr)

def takes (table : SectionTable) (faddr : UInt32) : Bool :=
  decide (0x80000000 ≤ faddr) && decide (faddr < 0x80800000)
    && !addrInResidentStaticSection table faddr

def step (s : ShardTier) : ShardLabel → Option ShardTier
  | .loadManifest m => if env.fragJitEnabled then some (s.loaded cache m) else none
  | .change m => some { s with rdram := m }
  | .dispatch faddr =>
      if env.fragJitEnabled && takes table faddr then
        some { s with chains := Function.update s.chains faddr (s.track env faddr).2 }
      else none
  | .outcome faddr hash o =>
      some { s with chains := Function.update s.chains faddr (updateSourced hash
        (fun k => { k with cand := FragmentCandidate.applyOutcome env o k.cand })
        (s.chains faddr)) }

def Executes (k : SourcedCandidate) : Prop :=
  (∃ fn, fragmentRun env (some k.cand) = .native fn) ∨
    ∃ fn hash, fragmentRun env (some k.cand) = .shadow fn hash

def RunsOnSource (s : ShardTier) (faddr : UInt32) : Prop :=
  ∀ k, (s.track env faddr).1 = some k → Executes env k →
    ∃ src, k.source = some src ∧ src.Current s.rdram faddr

structure Started (s : ShardTier) : Prop where
  chains : ∀ faddr, s.chains faddr = []

end ShardTier

/-! ## What has to be covered -/

/-- The hash of the range reads every byte of the code at `faddr`. -/
def Covers (codeLo codeLen faddr : UInt32) (size : Nat) : Prop :=
  (codeLo &&& 0x1FFFFFFF).toNat ≤ (faddr &&& 0x1FFFFFFF).toNat ∧
    (faddr &&& 0x1FFFFFFF).toNat + size ≤ (codeLo &&& 0x1FFFFFFF).toNat + codeLen.toNat

instance (codeLo codeLen faddr : UInt32) (size : Nat) :
    Decidable (Covers codeLo codeLen faddr size) := inferInstanceAs (Decidable (_ ∧ _))

def codeOffset (codeLo faddr : UInt32) : Nat :=
  (faddr &&& 0x1FFFFFFF).toNat - (codeLo &&& 0x1FFFFFFF).toNat

theorem codeBytes_covered {codeLo codeLen faddr : UInt32} {size : Nat}
    (covers : Covers codeLo codeLen faddr size) (m : GuestMemory) :
    codeBytes m faddr size =
      ((codeBytes m codeLo codeLen.toNat).drop (codeOffset codeLo faddr)).take size := by
  obtain ⟨starts, ends⟩ := covers
  refine List.ext_getElem ?_ fun i inside inside' => ?_
  · simp only [codeBytes, List.length_map, List.length_range, List.length_take, List.length_drop,
      codeOffset]
    omega
  · simp only [codeBytes, List.getElem_map, List.getElem_range, List.getElem_take,
      List.getElem_drop]
    have place : (faddr &&& 0x1FFFFFFF) + UInt32.ofNat i =
        (codeLo &&& 0x1FFFFFFF) + UInt32.ofNat (codeOffset codeLo faddr + i) := by
      rw [← UInt32.toNat_inj, UInt32.toNat_add, UInt32.toNat_add, UInt32.toNat_ofNat',
        UInt32.toNat_ofNat', codeOffset]
      omega
    rw [place]

section Conditions
variable (S : Set (List UInt8)) (env : HealEnv table ε) (s : ShardTier) (faddr : UInt32)

structure Hashed : Prop where
  keyed : ∀ k ∈ s.chains faddr, codeBytes s.rdram k.cand.codeLo k.cand.codeLen.toNat ∈ S
  new : (s.chains faddr).find? (SourcedCandidate.isLive s.rdram) = none →
    ∀ c, newCandidate env s.rdram faddr = some c →
      codeBytes s.rdram faddr c.codeLen.toNat ∈ S

/-- A candidate that gets a shard has in its range all that the compiler finds, and is the first
one of its chain with its hash. -/
def CompilesCovered : Prop :=
  ∀ live, (s.chains faddr).find? (SourcedCandidate.isLive s.rdram) = some live →
    getsShard env s.rdram live.cand = true → ∀ src, compiledSource env s.rdram faddr = some src →
      Covers live.cand.codeLo live.cand.codeLen faddr src.size ∧
        (s.chains faddr).find? (fun k => decide (k.cand.contentHash = live.cand.contentHash)) =
          some live

def MeetsHashed : ShardLabel → Prop
  | .dispatch faddr => Hashed S env s faddr
  | _ => True

def MeetsCovered : ShardLabel → Prop
  | .dispatch faddr => Hashed S env s faddr ∧ CompilesCovered env s faddr
  | _ => True

end Conditions

/-! ## Every shard is keyed by its source -/

section Sources
variable {S : Set (List UInt8)} {env : HealEnv table ε} {m : GuestMemory} {faddr : UInt32}

/-- The shard was compiled from a part of the content that the candidate is keyed by. -/
def SourcedCandidate.Keyed (S : Set (List UInt8)) (faddr : UInt32) (k : SourcedCandidate) : Prop :=
  k.cand.fn.isSome = true → ∃ src, k.source = some src ∧ ∃ content ∈ S,
    fnv1a64 content = k.cand.contentHash ∧
      Covers k.cand.codeLo k.cand.codeLen faddr src.size ∧
        src.bytes = (content.drop (codeOffset k.cand.codeLo faddr)).take src.size

theorem compiledSource_none (failed : jitCompileFunction env m faddr = none) :
    compiledSource env m faddr = none := by
  rw [compiledSource, failed, Option.bind_none]

theorem compiledSource_some {fn : RecompFunc} (compiled : jitCompileFunction env m faddr = some fn) :
    ∃ src, compiledSource env m faddr = some src ∧ src.Current m faddr ∧
      discoveredSize env m faddr = some src.size := by
  have unfolded := compiled
  rw [jitCompileFunction] at unfolded
  split at unfolded
  · cases unfolded
  · obtain ⟨size, found, -⟩ := Option.bind_eq_some_iff.mp unfolded
    refine ⟨⟨size, codeBytes m faddr size⟩, ?_, rfl, found⟩
    rw [compiledSource, compiled, Option.bind_some, found, Option.map_some]

theorem discoveredSize_le {size : Nat} (found : discoveredSize env m faddr = some size) :
    size ≤ 0x8000 := by
  unfold discoveredSize at found
  dsimp only at found
  split at found
  · cases found
  · have holds := (Option.filter_eq_some_iff.mp found).2
    simp only [Bool.and_eq_true, decide_eq_true_eq] at holds
    exact le_trans holds.2 (Nat.min_le_left _ _)

theorem newSourced_current {k : SourcedCandidate} (found : newSourced env m faddr = some k)
    {src : ShardSource} (known : k.source = some src) : src.Current m faddr := by
  obtain ⟨c, -, rfl⟩ := Option.map_eq_some_iff.mp found
  dsimp only at known
  split at known
  · obtain ⟨fn, compiled, -⟩ := Option.bind_eq_some_iff.mp known
    obtain ⟨src', known', current, -⟩ := compiledSource_some compiled
    rw [known, Option.some_inj] at known'
    rw [known']
    exact current
  · cases known

theorem newSourced_keyed {k : SourcedCandidate} (found : newSourced env m faddr = some k)
    (hashed : ∀ c, newCandidate env m faddr = some c → codeBytes m faddr c.codeLen.toNat ∈ S) :
    k.Keyed S faddr := by
  obtain ⟨c, new, rfl⟩ := Option.map_eq_some_iff.mp found
  have content := hashed c new
  obtain ⟨size, discovered, rfl⟩ := Option.map_eq_some_iff.mp new
  have small := discoveredSize_le discovered
  have len : (UInt32.ofNat size).toNat = size := UInt32.toNat_ofNat_of_lt' (by
    simp only [UInt32.size]
    omega)
  dsimp only at content ⊢
  rw [len] at content
  intro hasShard
  rw [if_pos hasShard]
  have compiled : (jitCompileFunction env m faddr).isSome = true := by
    split at hasShard
    · exact hasShard
    · cases hasShard
  obtain ⟨fn, compiled⟩ := Option.isSome_iff_exists.mp compiled
  obtain ⟨src, known, current, same⟩ := compiledSource_some compiled
  rw [discovered, Option.some_inj] at same
  have covers : Covers faddr (UInt32.ofNat size) faddr src.size :=
    ⟨Nat.le_refl _, by rw [len, same]⟩
  refine ⟨src, known, _, content, ?_, covers, ?_⟩
  · rw [fragmentLiveCodeHash, len]
  · rw [← current, codeBytes_covered covers, len]

theorem renewCandidate_spec (live c : FragmentCandidate) :
    (renewCandidate env m faddr live c).contentHash = c.contentHash ∧
      (renewCandidate env m faddr live c).codeLo = c.codeLo ∧
      (renewCandidate env m faddr live c).codeLen = c.codeLen ∧
      (renewCandidate env m faddr live c).fn =
        if getsShard env m live then (jitCompileFunction env m faddr).or c.fn else c.fn := by
  unfold renewCandidate getsShard
  split
  · rename_i due
    rw [due, Bool.true_and]
    split
    · exact ⟨rfl, rfl, rfl, rfl⟩
    · exact ⟨rfl, rfl, rfl, rfl⟩
  · rename_i notDue
    rw [Bool.eq_false_iff.mpr notDue, Bool.false_and]
    exact ⟨rfl, rfl, rfl, rfl⟩

theorem renewSourced_keyed {live k : SourcedCandidate} (keyed : k.Keyed S faddr)
    (covered : getsShard env m live.cand = true → ∀ src, compiledSource env m faddr = some src →
      Covers k.cand.codeLo k.cand.codeLen faddr src.size ∧
        codeBytes m k.cand.codeLo k.cand.codeLen.toNat ∈ S ∧
        fnv1a64 (codeBytes m k.cand.codeLo k.cand.codeLen.toNat) = k.cand.contentHash) :
    (renewSourced env m faddr live k).Keyed S faddr := by
  obtain ⟨hash, lo, len, fn⟩ := renewCandidate_spec (m := m) live.cand k.cand
  unfold SourcedCandidate.Keyed
  dsimp only [renewSourced]
  rw [hash, lo, len, fn]
  by_cases due : getsShard env m live.cand = true
  · rw [if_pos due, if_pos due]
    cases compiled : jitCompileFunction env m faddr with
    | none =>
        rw [compiledSource_none compiled]
        exact keyed
    | some fn =>
        intro _
        obtain ⟨src, known, current, -⟩ := compiledSource_some compiled
        obtain ⟨covers, content, same⟩ := covered due src known
        refine ⟨src, by rw [known, Option.some_or], _, content, same, covers, ?_⟩
        rw [← current, codeBytes_covered covers]
  · rw [if_neg due, if_neg due]
    exact keyed

theorem mem_updateSourced {hash : UInt64} {change : SourcedCandidate → SourcedCandidate}
    {chain : List SourcedCandidate} {k : SourcedCandidate}
    (member : k ∈ updateSourced hash change chain) :
    k ∈ chain ∨ ∃ first,
      chain.find? (fun k => decide (k.cand.contentHash = hash)) = some first ∧ k = change first := by
  induction chain with
  | nil => cases member
  | cons first rest ih =>
      rw [updateSourced] at member
      split at member
      · rename_i same
        rcases List.mem_cons.mp member with rfl | member
        · exact Or.inr ⟨first, List.find?_cons_of_pos (decide_eq_true same), rfl⟩
        · exact Or.inl (List.mem_cons_of_mem _ member)
      · rename_i other
        rcases List.mem_cons.mp member with rfl | member
        · exact Or.inl (List.mem_cons_self ..)
        · rcases ih member with old | ⟨first', found, rfl⟩
          · exact Or.inl (List.mem_cons_of_mem _ old)
          · refine Or.inr ⟨first', ?_, rfl⟩
            rwa [List.find?_cons_of_neg (by simpa using other)]

end Sources

namespace ShardTier

variable {S : Set (List UInt8)} {env : HealEnv table ε} {cache : FragmentCache} {s t : ShardTier}

def AllKeyed (S : Set (List UInt8)) (s : ShardTier) : Prop :=
  ∀ faddr, ∀ k ∈ s.chains faddr, k.Keyed S faddr

theorem isLive_hash {k : SourcedCandidate} {m : GuestMemory} (live : k.isLive m = true) :
    fnv1a64 (codeBytes m k.cand.codeLo k.cand.codeLen.toNat) = k.cand.contentHash := by
  rw [SourcedCandidate.isLive, Bool.and_eq_true, beq_iff_eq] at live
  exact live.2

theorem AllKeyed.tracked (keyed : s.AllKeyed S) {faddr : UInt32} (hashed : Hashed S env s faddr)
    (covered : CompilesCovered env s faddr) :
    ∀ k ∈ (s.track env faddr).2, k.Keyed S faddr := by
  intro k member
  unfold track trackSourced at member
  cases found : (s.chains faddr).find? (SourcedCandidate.isLive s.rdram) with
  | some live =>
      rw [found] at member
      rcases mem_updateSourced member with old | ⟨first, isFirst, rfl⟩
      · exact keyed faddr k old
      · have inChain := List.mem_of_find?_eq_some isFirst
        refine renewSourced_keyed (keyed faddr first inChain) fun due src compiled => ?_
        obtain ⟨covers, own⟩ := covered live found due src compiled
        rw [own, Option.some_inj] at isFirst
        subst isFirst
        exact ⟨covers, hashed.keyed live inChain, isLive_hash (List.find?_some found)⟩
  | none =>
      rw [found] at member
      dsimp only at member
      cases new : newSourced env s.rdram faddr with
      | some k' =>
          rw [new] at member
          rcases List.mem_append.mp member with old | last
          · exact keyed faddr k old
          · rw [List.mem_singleton.mp last]
            exact newSourced_keyed new (hashed.new found)
      | none =>
          rw [new] at member
          exact keyed faddr k member

theorem loadSourced_keyed {chains : UInt32 → List SourcedCandidate}
    (keyed : ∀ faddr, ∀ k ∈ chains faddr, k.Keyed S faddr) {c : FragmentCandidate}
    (noShard : c.fn = none) :
    ∀ faddr, ∀ k ∈ loadSourced chains c faddr, k.Keyed S faddr := by
  intro faddr k member
  unfold loadSourced at member
  split at member
  · exact keyed faddr k member
  · split at member
    · exact keyed faddr k member
    · by_cases own : faddr = c.addr
      · subst own
        rw [Function.update_self] at member
        rcases List.mem_append.mp member with old | last
        · exact keyed _ k old
        · rw [List.mem_singleton.mp last]
          intro hasShard
          dsimp only at hasShard
          rw [noShard] at hasShard
          cases hasShard
      · rw [Function.update_of_ne own] at member
        exact keyed faddr k member

theorem AllKeyed.loaded (keyed : s.AllKeyed S) (m : FragmentManifest) :
    (s.loaded cache m).AllKeyed S := by
  unfold ShardTier.loaded
  split
  · have fold : ∀ (entries : List FragmentCandidate) (chains : UInt32 → List SourcedCandidate),
        (∀ c ∈ entries, c.fn = none) → (∀ faddr, ∀ k ∈ chains faddr, k.Keyed S faddr) →
          ∀ faddr, ∀ k ∈ entries.foldl loadSourced chains faddr, k.Keyed S faddr := by
      intro entries
      induction entries with
      | nil => exact fun _ _ keyed => keyed
      | cons c rest ih =>
          intro chains noShard keyed
          exact ih _ (fun c member => noShard c (List.mem_cons_of_mem _ member))
            (loadSourced_keyed keyed (noShard c (List.mem_cons_self ..)))
    refine fold _ _ (fun c member => ?_) keyed
    obtain ⟨entry, -, rfl⟩ := List.mem_map.mp member
    rfl
  · exact keyed

theorem AllKeyed.step (keyed : s.AllKeyed S) {l : ShardLabel} (meets : MeetsCovered S env s l)
    (taken : s.step env cache l = some t) : t.AllKeyed S := by
  cases l with
  | loadManifest m =>
      rw [ShardTier.step] at taken
      split at taken
      · cases taken
        exact keyed.loaded m
      · cases taken
  | change m =>
      cases taken
      exact keyed
  | dispatch faddr =>
      rw [ShardTier.step] at taken
      split at taken
      · cases taken
        intro faddr' k member
        by_cases own : faddr' = faddr
        · subst own
          dsimp only at member
          rw [Function.update_self] at member
          exact keyed.tracked meets.1 meets.2 k member
        · dsimp only at member
          rw [Function.update_of_ne own] at member
          exact keyed faddr' k member
      · cases taken
  | outcome faddr hash o =>
      cases taken
      intro faddr' k member
      by_cases own : faddr' = faddr
      · subst own
        dsimp only at member
        rw [Function.update_self] at member
        rcases mem_updateSourced member with old | ⟨first, isFirst, rfl⟩
        · exact keyed _ k old
        · have kept := keyed faddr' first (List.mem_of_find?_eq_some isFirst)
          unfold SourcedCandidate.Keyed at kept ⊢
          dsimp only [FragmentCandidate.applyOutcome]
          split_ifs <;> exact kept
      · dsimp only at member
        rw [Function.update_of_ne own] at member
        exact keyed faddr' k member

theorem Executes.hasShard {k : SourcedCandidate} (executes : Executes env k) :
    k.cand.fn.isSome = true := by
  cases shard : k.cand.fn with
  | some fn => rfl
  | none =>
      rcases executes with ⟨fn, run⟩ | ⟨fn, hash, run⟩ <;> dsimp only [fragmentRun] at run <;>
        rw [shard] at run <;> split_ifs at run

theorem AllKeyed.runsOnSource (keyed : s.AllKeyed S) (injective : Set.InjOn fnv1a64 S)
    {faddr : UInt32} (hashed : Hashed S env s faddr) : s.RunsOnSource env faddr := by
  intro k tracked executes
  have hasShard := executes.hasShard
  unfold track trackSourced at tracked
  cases found : (s.chains faddr).find? (SourcedCandidate.isLive s.rdram) with
  | some live =>
      rw [found, Option.some_inj] at tracked
      subst tracked
      have inChain := List.mem_of_find?_eq_some found
      obtain ⟨-, -, -, fn⟩ := renewCandidate_spec (m := s.rdram) live.cand live.cand
      have older : live.cand.fn.isSome = true →
          ∃ src, live.source = some src ∧ src.Current s.rdram faddr := by
        intro shard
        obtain ⟨src, known, content, inS, same, covers, part⟩ := keyed faddr live inChain shard
        have equal := injective (hashed.keyed live inChain) inS
          ((isLive_hash (List.find?_some found)).trans same.symm)
        refine ⟨src, known, ?_⟩
        rw [ShardSource.Current, codeBytes_covered covers, equal, part]
      dsimp only [renewSourced] at hasShard ⊢
      rw [fn] at hasShard
      by_cases due : getsShard env s.rdram live.cand = true
      · rw [if_pos due] at hasShard ⊢
        cases compiled : jitCompileFunction env s.rdram faddr with
        | none =>
            rw [compiled] at hasShard
            rw [compiledSource_none compiled]
            exact older hasShard
        | some fn =>
            obtain ⟨src, known, current, -⟩ := compiledSource_some compiled
            exact ⟨src, by rw [known, Option.some_or], current⟩
      · rw [if_neg due] at hasShard ⊢
        exact older hasShard
  | none =>
      rw [found] at tracked
      dsimp only at tracked
      cases new : newSourced env s.rdram faddr with
      | some k' =>
          rw [new, Option.some_inj] at tracked
          subst tracked
          obtain ⟨src, known, -⟩ := newSourced_keyed new (hashed.new found) hasShard
          exact ⟨src, known, newSourced_current new known⟩
      | none =>
          rw [new] at tracked
          cases tracked

/-- In every run whose compilations are covered, with hashes that tell its contents apart. -/
theorem shards_run_on_source (env : HealEnv table ε) (cache : FragmentCache)
    (S : Set (List UInt8)) (injective : Set.InjOn fnv1a64 S) {s : ShardTier}
    (reached : Reach (ShardTier.step env cache) (MeetsCovered S env) Started s) {faddr : UInt32}
    (hashed : Hashed S env s faddr) : s.RunsOnSource env faddr := by
  have keyed : s.AllKeyed S := reached.invariant
    (fun s started faddr k member => by
      rw [started.chains faddr] at member
      cases member)
    fun _ _ _ keyed meets taken => keyed.step meets taken
  exact keyed.runsOnSource injective hashed

/-! ## A candidate that is keyed by the first word -/

def coverageCache : FragmentCache := ⟨true, "unknown-arch"⟩

/-- One entry for 0x80400000, with the first `codeLen` bytes of the function there. -/
def returnManifest (codeLen : UInt32) : FragmentManifest :=
  ⟨fragManifestFormatVer, fragCodegenVer, "unknown-arch",
    [⟨some 0x80400000, some (fragmentLiveCodeHash justReturn 0x80400000 codeLen),
      some 0x80400000, some codeLen.toUInt64⟩]⟩

def returnCandidate (codeLen : UInt32) (fn : Option RecompFunc) : FragmentCandidate :=
  ⟨0x80400000, fragmentLiveCodeHash justReturn 0x80400000 codeLen, 0x80400000, codeLen, fn, 0,
    false, false⟩

def returnSource : ShardSource := ⟨8, codeBytes justReturn 0x80400000 8⟩

/-- `jr $ra; addiu $v0, $zero, 1`: the second word is not that of `justReturn`. -/
def returnOne : GuestMemory := GuestMemory.ofWords 0x400000 [0x03E00008, 0x24020001]

def atStart : ShardTier := ⟨justReturn, fun _ => []⟩

def manifestLoaded (codeLen : UInt32) : ShardTier :=
  atStart.loaded coverageCache (returnManifest codeLen)

def compiledOnce (codeLen : UInt32) : ShardTier :=
  { manifestLoaded codeLen with
    chains := Function.update (manifestLoaded codeLen).chains 0x80400000
      ((manifestLoaded codeLen).track wrongOnOne 0x80400000).2 }

theorem manifestLoaded_chain : (manifestLoaded 4).chains 0x80400000 =
      [⟨returnCandidate 4 none, none⟩] ∧
    (manifestLoaded 8).chains 0x80400000 = [⟨returnCandidate 8 none, none⟩] := by
  constructor <;> decide +kernel

theorem compiledOnce_chain : (compiledOnce 4).chains 0x80400000 =
      [⟨returnCandidate 4 (some 2), some returnSource⟩] ∧
    (compiledOnce 8).chains 0x80400000 = [⟨returnCandidate 8 (some 2), some returnSource⟩] := by
  constructor <;> decide +kernel

theorem hashed_of_chain {S : Set (List UInt8)} {env : HealEnv oneFragment Unit} {s : ShardTier}
    {faddr : UInt32} {k : SourcedCandidate} (chain : s.chains faddr = [k])
    (live : k.isLive s.rdram = true)
    (content : codeBytes s.rdram k.cand.codeLo k.cand.codeLen.toNat ∈ S) : Hashed S env s faddr where
  keyed := by
    intro k' member
    rw [chain, List.mem_singleton] at member
    rw [member]
    exact content
  new := by
    intro absent
    rw [chain, List.find?_singleton, live] at absent
    cases absent

/-- The second word of the function is written after the shard has been compiled, and the hash of
the first word is still right. -/
theorem stale_tail : ∃ S : Set (List UInt8), Set.InjOn fnv1a64 S ∧ ∃ s : ShardTier,
    Reach (ShardTier.step wrongOnOne coverageCache) (MeetsHashed S wrongOnOne) Started s ∧
      Hashed S wrongOnOne s 0x80400000 ∧ ¬ s.RunsOnSource wrongOnOne 0x80400000 := by
  let S : Set (List UInt8) := {codeBytes justReturn 0x80400000 4}
  let written : ShardTier := { compiledOnce 4 with rdram := returnOne }
  have first : Reach (ShardTier.step wrongOnOne coverageCache) (MeetsHashed S wrongOnOne) Started
      (manifestLoaded 4) := .next (.loadManifest (returnManifest 4)) (.start ⟨fun _ => rfl⟩) trivial rfl
  have compiled : Reach (ShardTier.step wrongOnOne coverageCache) (MeetsHashed S wrongOnOne) Started
      (compiledOnce 4) := by
    refine .next (.dispatch 0x80400000) first ?_ rfl
    exact hashed_of_chain manifestLoaded_chain.1 (by decide +kernel) rfl
  have changed : Reach (ShardTier.step wrongOnOne coverageCache) (MeetsHashed S wrongOnOne) Started
      written := .next (.change returnOne) compiled trivial rfl
  have same : codeBytes returnOne 0x80400000 4 = codeBytes justReturn 0x80400000 4 := by
    decide +kernel
  refine ⟨S, Set.injOn_singleton _ _, written, changed,
    hashed_of_chain compiledOnce_chain.1 (by decide +kernel) same, fun runs => ?_⟩
  have tracked : (written.track wrongOnOne 0x80400000).1 =
      some ⟨returnCandidate 4 (some 2), some returnSource⟩ := by decide +kernel
  obtain ⟨src, known, current⟩ := runs _ tracked (Or.inr ⟨2, _, rfl⟩)
  cases known
  revert current
  unfold ShardSource.Current
  decide +kernel

theorem shards_run_on_source_one :
    (∃ k, ((compiledOnce 8).track wrongOnOne 0x80400000).1 = some k ∧ Executes wrongOnOne k) ∧
      (compiledOnce 8).RunsOnSource wrongOnOne 0x80400000 := by
  let S : Set (List UInt8) := {codeBytes justReturn 0x80400000 8}
  have first : Reach (ShardTier.step wrongOnOne coverageCache) (MeetsCovered S wrongOnOne) Started
      (manifestLoaded 8) := .next (.loadManifest (returnManifest 8)) (.start ⟨fun _ => rfl⟩) trivial rfl
  have covered : CompilesCovered wrongOnOne (manifestLoaded 8) 0x80400000 := by
    intro live found _ src compiled
    have own : compiledSource wrongOnOne justReturn 0x80400000 = some returnSource := by
      decide +kernel
    have isLive : (SourcedCandidate.isLive justReturn ⟨returnCandidate 8 none, none⟩) = true := by
      decide +kernel
    rw [manifestLoaded_chain.2] at found ⊢
    cases (List.find?_cons_of_pos isLive).symm.trans found
    cases own.symm.trans compiled
    exact ⟨by decide +kernel, List.find?_cons_of_pos (decide_eq_true rfl)⟩
  have compiled : Reach (ShardTier.step wrongOnOne coverageCache) (MeetsCovered S wrongOnOne) Started
      (compiledOnce 8) := by
    refine .next (.dispatch 0x80400000) first ⟨?_, covered⟩ rfl
    exact hashed_of_chain manifestLoaded_chain.2 (by decide +kernel) rfl
  have tracked : ((compiledOnce 8).track wrongOnOne 0x80400000).1 =
      some ⟨returnCandidate 8 (some 2), some returnSource⟩ := by decide +kernel
  refine ⟨⟨_, tracked, Or.inr ⟨2, _, rfl⟩⟩, ?_⟩
  exact shards_run_on_source wrongOnOne coverageCache S (Set.injOn_singleton _ _) compiled
    (hashed_of_chain compiledOnce_chain.2 (by decide +kernel) rfl)

end ShardTier

end N64ModernRuntime.Librecomp
