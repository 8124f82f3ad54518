import Mathlib.Data.List.Perm.Subperm
import N64ModernRuntime.Librecomp.Overlays

/-!
# overlays.cpp: the moves that the calls are made of

What a call does to the loaded sections is a list of moves, each on one entry
or on one range of `func_map`; jump slots are resolved after the last of them.
An invariant of the overlays is shown for the moves and for one jump slot.
-/

set_option autoImplicit false

namespace N64ModernRuntime.Librecomp

open AddressMap Transition

variable {table : SectionTable}

inductive Move (table : SectionTable) where
  | unload (e : LoadedSection table)
  | evict (e : LoadedSection table)
  | load (index : table.Index) (ram : UInt32)
  | supersede (id fragmentPtr : UInt32)
  | recordLiveRange (id : UInt32) (range : Range)
  | bind (rdram : Rdram) (id : UInt32) (index : table.Index) (fragmentPtr : UInt32)
  | scan (rdram : Rdram) (e : LoadedSection table)

namespace Move

def apply (s : Overlays table) : Move table → Overlays table
  | .unload e => s.unloadSection e
  | .evict e => s.evict e
  | .load index ram => s.loadOverlay index ram
  | .supersede id fragmentPtr => s.supersede id fragmentPtr
  | .recordLiveRange id range => s.recordLiveRange id range
  | .bind rdram id index fragmentPtr =>
      ((s.supersede id fragmentPtr).bindSection id index fragmentPtr).readJumps rdram
        ⟨fragmentPtr, index⟩
  | .scan rdram e => s.readJumps rdram e

/-- Only a loaded section is taken out or scanned. -/
def Enabled (s : Overlays table) : Move table → Prop
  | .unload e => e ∈ s.loadedSections
  | .evict e => e ∈ s.loadedSections
  | .scan _ e => e ∈ s.loadedSections
  | _ => True

def run (s : Overlays table) (moves : List (Move table)) : Overlays table := moves.foldl apply s

def Chain (ok : Overlays table → Move table → Prop) : Overlays table → List (Move table) → Prop
  | _, [] => True
  | s, m :: rest => ok s m ∧ Chain ok (apply s m) rest

theorem chain_append {ok : Overlays table → Move table → Prop} {s : Overlays table}
    {first second : List (Move table)} :
    Chain ok s (first ++ second) ↔ Chain ok s first ∧ Chain ok (run s first) second := by
  induction first generalizing s with
  | nil => simp only [List.nil_append, Chain, run, List.foldl_nil, true_and]
  | cons m rest ih =>
      simp only [List.cons_append, Chain, ih, run, List.foldl_cons, and_assoc]

theorem Chain.imp {ok ok' : Overlays table → Move table → Prop}
    (weaker : ∀ s m, ok s m → ok' s m) {s : Overlays table} {moves : List (Move table)}
    (chain : Chain ok s moves) : Chain ok' s moves := by
  induction moves generalizing s with
  | nil => trivial
  | cons m rest ih => exact ⟨weaker s m chain.1, ih chain.2⟩

theorem Chain.and {ok ok' : Overlays table → Move table → Prop} {s : Overlays table}
    {moves : List (Move table)} (chain : Chain ok s moves) (chain' : Chain ok' s moves) :
    Chain (fun s m => ok s m ∧ ok' s m) s moves := by
  induction moves generalizing s with
  | nil => trivial
  | cons m rest ih => exact ⟨⟨chain.1, chain'.1⟩, ih chain.2 chain'.2⟩

/-- The moves can be made one after another, and lead to `t`. -/
structure Performs (s : Overlays table) (moves : List (Move table)) (t : Overlays table) :
    Prop where
  result : t = run s moves
  enabled : Chain (fun s m => m.Enabled s) s moves

theorem Performs.none (s : Overlays table) : Performs s [] s := ⟨rfl, trivial⟩

theorem Performs.one {s : Overlays table} {m : Move table} (enabled : m.Enabled s) :
    Performs s [m] (m.apply s) :=
  ⟨rfl, enabled, trivial⟩

theorem Performs.append {s t u : Overlays table} {first second : List (Move table)}
    (done : Performs s first t) (next : Performs t second u) : Performs s (first ++ second) u := by
  have middle := done.result
  subst middle
  refine ⟨?_, chain_append.mpr ⟨done.enabled, next.enabled⟩⟩
  rw [next.result]
  exact List.foldl_append.symm

end Move

/-! ## The moves of the calls -/

namespace Overlays

def loadedAs (s : Overlays table) (index : table.Index) : Option (LoadedSection table) :=
  s.loadedSections.find? fun e => decide (e.sectionTableIndex = index)

def unloadIndexMoves (s : Overlays table) (index : table.Index) : List (Move table) :=
  (s.loadedAs index).toList.map .unload

def evictOverlappingMoves : Nat → Overlays table → table.Index → UInt32 → List (Move table)
  | 0, _, _, _ => []
  | rounds + 1, s, index, impliedBase =>
      match s.overlapping index impliedBase with
      | none => []
      | some e =>
          s.unloadIndexMoves e.sectionTableIndex ++ evictOverlappingMoves rounds
            (s.unloadOverlayBySectionIndex e.sectionTableIndex) index impliedBase

/-- The end of `register_if_new`, when nothing overlaps any more. -/
def reloadMoves (s : Overlays table) (target : table.Index × UInt32) : List (Move table) :=
  match s.loadedAs target.1 with
  | none => [.load target.1 target.2]
  | some e =>
      if e.loadedRamAddr ≠ target.2 then
        s.unloadIndexMoves target.1 ++ [.load target.1 target.2]
      else []

def registerIfNewMoves (s : Overlays table) (target : table.Index × UInt32) :
    List (Move table) :=
  evictOverlappingMoves s.loadedSections.length s target.1 target.2 ++
    reloadMoves (evictOverlappingSections s.loadedSections.length s target.1 target.2) target

def loadMoves : List (table.Index × UInt32) → Overlays table → List (Move table)
  | [], _ => []
  | target :: rest, s => s.registerIfNewMoves target ++ loadMoves rest (s.registerIfNew target)

def loadOverlayByIdMoves (s : Overlays table) (index : table.Index) (ramAddr : UInt32) :
    List (Move table) :=
  let prevAddress := s.sectionAddresses (table.codeSections index).index
  if prevAddress = (table.codeSections index).ramAddr then [.load index ramAddr]
  else s.unloadIndexMoves index ++ [.load index (prevAddress + ramAddr)]

def unloadOverlaysMoves (s : Overlays table) (ramAddr size : UInt32) : List (Move table) :=
  (s.loadedSections.filter (unloadTouches ramAddr size)).map .unload

def evictMoves (s : Overlays table) (skip : Option table.Index) (fragmentPtr : UInt32) :
    List (Move table) :=
  (s.priorAtBase skip fragmentPtr).map .evict

def registerMoves (s : Overlays table) (rdram : Rdram) (id fragmentPtr : UInt32) :
    List (Move table) :=
  if fragmentPtr = 0 then []
  else match selectSection table rdram id fragmentPtr with
    | none =>
        s.evictMoves none fragmentPtr ++ .supersede id fragmentPtr ::
          if fragSizeInRam rdram fragmentPtr ≠ 0 then
            [.recordLiveRange id ⟨fragmentPtr, fragSizeInRam rdram fragmentPtr⟩]
          else []
    | some index =>
        s.evictMoves (some index) fragmentPtr ++ [.bind rdram id index fragmentPtr]

def callMoves (s : Overlays table) : Call → List (Move table)
  | .loadOverlays rom ramAddr size =>
      loadMoves ((loadTargets table rom ramAddr size).getD []) s
  | .loadOverlayById id ramAddr =>
      match table.overlays[id]? with
      | none => []
      | some index => s.loadOverlayByIdMoves index ramAddr
  | .unloadOverlayById id =>
      match table.overlays[id]? with
      | none => []
      | some index => s.unloadIndexMoves index
  | .unloadOverlays ramAddr size => s.unloadOverlaysMoves ramAddr size
  | .registerRuntimeFragment rdram id fragmentPtr => s.registerMoves rdram id fragmentPtr
  | .unregisterRuntimeFragment id =>
      match s.runtimeFragmentIdToSection id with
      | none => []
      | some index => s.unloadIndexMoves index
  | .scanLoadedFragmentTrampolines rdram rom size => (s.writtenSections rom size).map (.scan rdram)

end Overlays

def MovesMeet (ok : Overlays table → Move table → Prop) (s : Overlays table) (call : Call) :
    Prop :=
  Move.Chain ok s (s.callMoves call)

/-! ## A call is its moves -/

namespace Overlays

open Move

theorem loadedAs_mem {s : Overlays table} {index : table.Index} {e : LoadedSection table}
    (found : s.loadedAs index = some e) :
    e ∈ s.loadedSections ∧ e.sectionTableIndex = index := by
  refine ⟨List.mem_of_find?_eq_some found, ?_⟩
  have same := List.find?_some found
  exact of_decide_eq_true same

theorem loadedAs_none {s : Overlays table} {index : table.Index} :
    s.loadedAs index = none ↔ ∀ e ∈ s.loadedSections, e.sectionTableIndex ≠ index := by
  simp only [loadedAs, List.find?_eq_none, decide_eq_true_eq]

theorem unloadIndex_performs (s : Overlays table) (index : table.Index) :
    Performs s (s.unloadIndexMoves index) (s.unloadOverlayBySectionIndex index) := by
  unfold unloadOverlayBySectionIndex unloadIndexMoves
  cases found : s.loadedAs index with
  | none =>
      rw [loadedAs] at found
      rw [found]
      exact .none s
  | some e =>
      have loaded := (loadedAs_mem found).1
      rw [loadedAs] at found
      rw [found]
      exact .one loaded

theorem evictOverlapping_performs (rounds : Nat) (s : Overlays table) (index : table.Index)
    (impliedBase : UInt32) :
    Performs s (evictOverlappingMoves rounds s index impliedBase)
      (evictOverlappingSections rounds s index impliedBase) := by
  induction rounds generalizing s with
  | zero => exact .none s
  | succ rounds ih =>
      unfold evictOverlappingSections evictOverlappingMoves
      cases s.overlapping index impliedBase with
      | none => exact .none s
      | some e =>
          exact (unloadIndex_performs s e.sectionTableIndex).append
            (ih (s.unloadOverlayBySectionIndex e.sectionTableIndex))

theorem registerIfNew_performs (s : Overlays table) (target : table.Index × UInt32) :
    Performs s (s.registerIfNewMoves target) (s.registerIfNew target) := by
  refine (evictOverlapping_performs s.loadedSections.length s target.1 target.2).append ?_
  unfold registerIfNew reloadMoves loadedAs
  generalize evictOverlappingSections s.loadedSections.length s target.1 target.2 = cleared
  dsimp only
  cases cleared.loadedSections.find? fun e => decide (e.sectionTableIndex = target.1) with
  | none => exact .one trivial
  | some e =>
      dsimp only
      split
      · exact (unloadIndex_performs cleared target.1).append (.one trivial)
      · exact .none cleared

theorem load_performs (targets : List (table.Index × UInt32)) (s : Overlays table) :
    Performs s (loadMoves targets s) (targets.foldl registerIfNew s) := by
  induction targets generalizing s with
  | nil => exact .none s
  | cons target rest ih => exact (registerIfNew_performs s target).append (ih _)

theorem loadOverlayById_performs (s : Overlays table) (index : table.Index) (ramAddr : UInt32) :
    Performs s (s.loadOverlayByIdMoves index ramAddr) (s.loadOverlayById index ramAddr) := by
  unfold loadOverlayByIdMoves loadOverlayById
  dsimp only
  split
  · exact .one trivial
  · exact (unloadIndex_performs s index).append (.one trivial)

theorem erase_subperm {e : LoadedSection table} {rest loaded : List (LoadedSection table)}
    (among : (e :: rest).Subperm loaded) : e ∈ loaded ∧ rest.Subperm (loaded.erase e) := by
  refine ⟨among.subset (List.mem_cons_self ..), ?_⟩
  have erased := among.erase e
  rwa [List.erase_cons_head] at erased

theorem evict_performs (prior : List (LoadedSection table)) (s : Overlays table)
    (among : prior.Subperm s.loadedSections) :
    Performs s (prior.map .evict) (prior.foldl evict s) := by
  induction prior generalizing s with
  | nil => exact .none s
  | cons e rest ih =>
      obtain ⟨loaded, among⟩ := erase_subperm among
      exact (Performs.one (m := .evict e) loaded).append (ih (s.evict e) among)

theorem unloadEach_performs {ramAddr size : UInt32} (entries : List (LoadedSection table))
    (s t : Overlays table) (among : entries.Subperm s.loadedSections)
    (done : unloadEach ramAddr size entries s = some t) :
    Performs s ((entries.filter (unloadTouches ramAddr size)).map .unload) t := by
  induction entries generalizing s with
  | nil =>
      cases done
      exact .none _
  | cons e rest ih =>
      obtain ⟨loaded, restAmong⟩ := erase_subperm among
      unfold unloadEach at done
      split at done
      · rename_i touched
        split at done
        · contradiction
        · rw [List.filter_cons_of_pos touched]
          exact (Performs.one (m := .unload e) loaded).append (ih (s.unloadSection e) restAmong done)
      · rename_i untouched
        rw [List.filter_cons_of_neg untouched]
        exact ih s ((List.sublist_cons_self e rest).subperm.trans among) done

theorem readEach_performs (rdram : Rdram) (entries : List (LoadedSection table))
    (s : Overlays table) (loaded : ∀ e ∈ entries, e ∈ s.loadedSections) :
    Performs s (entries.map (.scan rdram)) (entries.foldl (readJumps rdram) s) := by
  induction entries generalizing s with
  | nil => exact .none s
  | cons e rest ih =>
      exact (Performs.one (m := .scan rdram e) (loaded e (List.mem_cons_self ..))).append
        (ih _ fun e' member => loaded e' (List.mem_cons_of_mem _ member))

theorem evictPrior_performs (s : Overlays table) (skip : Option table.Index)
    (fragmentPtr : UInt32) :
    Performs s (s.evictMoves skip fragmentPtr) (s.evictPriorAtBase skip fragmentPtr) :=
  evict_performs (s.priorAtBase skip fragmentPtr) s List.filter_sublist.subperm

end Overlays

/-- Where nothing else starts at the base, registering is one move. -/
theorem Overlays.registerMoves_alone {s : Overlays table} {rdram : Rdram} {id fragmentPtr : UInt32}
    {index : table.Index} (someBase : fragmentPtr ≠ 0)
    (selected : selectSection table rdram id fragmentPtr = some index)
    (alone : s.priorAtBase (some index) fragmentPtr = []) :
    s.callMoves (.registerRuntimeFragment rdram id fragmentPtr) =
      [.bind rdram id index fragmentPtr] := by
  simp only [callMoves, registerMoves, if_neg someBase, selected, evictMoves, alone, List.map_nil,
    List.nil_append]

/-! ## Invariants of the overlays -/

def PendingTrampoline.Current (p : PendingTrampoline table) (s : Overlays table) : Prop :=
  s.slotJumps p.fragment (p.trampolineRuntimeAddr - p.fragment.loadedRamAddr) =
    some p.linkTimeTarget

structure PendingTrampoline.FromScan (p : PendingTrampoline table) (s : Overlays table) :
    Prop where
  loaded : p.fragment ∈ s.loadedSections
  slot : p.fragment.HasSlotAt p.trampolineRuntimeAddr
  current : p.Current s

/-- What has to be shown of an invariant `I` for the calls to keep it whose moves meet `ok`. -/
structure Keeps (ok : Overlays table → Move table → Prop) (I : Overlays table → Prop) : Prop where
  move : ∀ s m, I s → m.Enabled s → ok s m → I (m.apply s)
  install : ∀ s next p, I s → (p ∈ s.pendingTrampolines ∨ p.FromScan s) →
    s.tryInstallTrampoline p = some next → I next
  queue : ∀ s p, I s → p.FromScan s →
    I { s with pendingTrampolines := s.pendingTrampolines ++ [p] }
  unqueue : ∀ s left, I s → (∀ p ∈ left, p ∈ s.pendingTrampolines) →
    I { s with pendingTrampolines := left }

theorem tryInstall_some {s next : Overlays table} {p : PendingTrampoline table}
    (installed : s.tryInstallTrampoline p = some next) : ∃ func, next = s.installSlot p func := by
  unfold Overlays.tryInstallTrampoline at installed
  dsimp only at installed
  split at installed
  · contradiction
  · obtain ⟨func, _, rfl⟩ := Option.map_eq_some_iff.mp installed
    exact ⟨func, rfl⟩

theorem tryInstall_frame {s next : Overlays table} {p : PendingTrampoline table}
    (installed : s.tryInstallTrampoline p = some next) :
    next.pendingTrampolines = s.pendingTrampolines ∧ next.loadedSections = s.loadedSections ∧
      next.slotJumps = s.slotJumps := by
  obtain ⟨func, rfl⟩ := tryInstall_some installed
  exact ⟨rfl, rfl, rfl⟩

namespace Keeps

variable {ok : Overlays table → Move table → Prop} {I : Overlays table → Prop}

theorem run (keeps : Keeps ok I) {s t : Overlays table} {moves : List (Move table)}
    (performs : Move.Performs s moves t) (allowed : Move.Chain ok s moves) (holds : I s) : I t := by
  obtain ⟨rfl, enabled⟩ := performs
  induction moves generalizing s with
  | nil => exact holds
  | cons m rest ih => exact ih allowed.2 (keeps.move s m holds enabled.1 allowed.1) enabled.2

theorem retryPending (keeps : Keeps ok I) (waiting : List (PendingTrampoline table))
    (s : Overlays table) (holds : I s) (among : ∀ p ∈ waiting, p ∈ s.pendingTrampolines) :
    I (Overlays.retryPending waiting s).2 ∧
      (Overlays.retryPending waiting s).2.pendingTrampolines = s.pendingTrampolines ∧
      ∀ p ∈ (Overlays.retryPending waiting s).1, p ∈ waiting := by
  induction waiting generalizing s with
  | nil => exact ⟨holds, rfl, fun p none => none⟩
  | cons p rest ih =>
      have restAmong : ∀ q ∈ rest, q ∈ s.pendingTrampolines :=
        fun q member => among q (List.mem_cons_of_mem _ member)
      unfold Overlays.retryPending
      cases tried : s.tryInstallTrampoline p with
      | some next =>
          have pending := (tryInstall_frame tried).1
          have installed := keeps.install s next p holds (.inl (among p (List.mem_cons_self ..))) tried
          obtain ⟨done, kept, left⟩ := ih next installed (by rw [pending]; exact restAmong)
          exact ⟨done, kept.trans pending, fun q member => List.mem_cons_of_mem _ (left q member)⟩
      | none =>
          obtain ⟨done, kept, left⟩ := ih s holds restAmong
          refine ⟨done, kept, ?_⟩
          intro q member
          rcases List.mem_cons.mp member with rfl | member
          · exact List.mem_cons_self ..
          · exact List.mem_cons_of_mem _ (left q member)

theorem retry (keeps : Keeps ok I) {s : Overlays table} (holds : I s) :
    I s.retryPendingTrampolines := by
  obtain ⟨done, kept, left⟩ :=
    keeps.retryPending s.pendingTrampolines s holds (fun p member => member)
  exact keeps.unqueue _ _ done (by rw [kept]; exact left)

theorem slots (keeps : Keeps ok I) {e : LoadedSection table}
    (found : List (PendingTrampoline table)) (s : Overlays table) (holds : I s)
    (loaded : e ∈ s.loadedSections)
    (scanned : ∀ p ∈ found, p.fragment = e ∧ e.HasSlotAt p.trampolineRuntimeAddr ∧ p.Current s) :
    I (found.foldl Overlays.installOrQueue s) ∧
      (found.foldl Overlays.installOrQueue s).loadedSections = s.loadedSections ∧
      (found.foldl Overlays.installOrQueue s).slotJumps = s.slotJumps := by
  induction found generalizing s with
  | nil => exact ⟨holds, rfl, rfl⟩
  | cons p rest ih =>
      have slot : p.FromScan s := by
        obtain ⟨own, slot, current⟩ := scanned p (List.mem_cons_self ..)
        exact ⟨own ▸ loaded, own ▸ slot, current⟩
      have one : I (s.installOrQueue p) ∧
          (s.installOrQueue p).loadedSections = s.loadedSections ∧
          (s.installOrQueue p).slotJumps = s.slotJumps := by
        unfold Overlays.installOrQueue
        cases tried : s.tryInstallTrampoline p with
        | some next =>
            exact ⟨keeps.install s next p holds (.inr slot) tried, (tryInstall_frame tried).2⟩
        | none => exact ⟨keeps.queue s p holds slot, rfl, rfl⟩
      have restScanned : ∀ q ∈ rest, q.fragment = e ∧ e.HasSlotAt q.trampolineRuntimeAddr ∧
          q.Current (s.installOrQueue p) := by
        intro q member
        rw [PendingTrampoline.Current, one.2.2]
        exact scanned q (List.mem_cons_of_mem _ member)
      obtain ⟨done, kept, jumps⟩ :=
        ih (s.installOrQueue p) one.1 (by rw [one.2.1]; exact loaded) restScanned
      exact ⟨done, kept.trans one.2.1, jumps.trans one.2.2⟩

theorem scan (keeps : Keeps ok I) {rdram : Rdram} {s : Overlays table} {e : LoadedSection table}
    (holds : I s) (loaded : e ∈ s.loadedSections) (read : s.slotJumps e = foundJumps rdram e) :
    I (Overlays.scanFragmentSectionTrampolines rdram s e) ∧
      (Overlays.scanFragmentSectionTrampolines rdram s e).loadedSections = s.loadedSections ∧
      (Overlays.scanFragmentSectionTrampolines rdram s e).slotJumps = s.slotJumps := by
  unfold Overlays.scanFragmentSectionTrampolines
  split
  · rename_i magic
    refine keeps.slots _ s holds loaded fun p scanned => ?_
    obtain ⟨own, slot⟩ := fragmentSlots_hasSlot scanned
    refine ⟨own, slot, ?_⟩
    rw [PendingTrampoline.Current, own, read]
    exact fragmentSlots_jump magic scanned
  · exact ⟨holds, rfl, rfl⟩

theorem scanEach (keeps : Keeps ok I) (rdram : Rdram) (entries : List (LoadedSection table))
    (s : Overlays table) (holds : I s) (loaded : ∀ e ∈ entries, e ∈ s.loadedSections)
    (read : ∀ e ∈ entries, s.slotJumps e = foundJumps rdram e) :
    I (entries.foldl (Overlays.scanFragmentSectionTrampolines rdram) s) := by
  induction entries generalizing s with
  | nil => exact holds
  | cons e rest ih =>
      obtain ⟨done, kept, jumps⟩ := keeps.scan holds (loaded e (List.mem_cons_self ..))
        (read e (List.mem_cons_self ..))
      refine ih _ done (fun e' member => ?_) fun e' member => ?_
      · rw [kept]
        exact loaded e' (List.mem_cons_of_mem _ member)
      · rw [jumps]
        exact read e' (List.mem_cons_of_mem _ member)

theorem readEach (rdram : Rdram) (entries : List (LoadedSection table)) (s : Overlays table) :
    (entries.foldl (Overlays.readJumps rdram) s).loadedSections = s.loadedSections ∧
      ∀ e, (e ∈ entries ∨ s.slotJumps e = foundJumps rdram e) →
        (entries.foldl (Overlays.readJumps rdram) s).slotJumps e = foundJumps rdram e := by
  induction entries generalizing s with
  | nil => exact ⟨rfl, fun e read => read.resolve_left (List.not_mem_nil)⟩
  | cons head rest ih =>
      obtain ⟨list, jumps⟩ := ih (s.readJumps rdram head)
      refine ⟨list, fun e read => jumps e ?_⟩
      by_cases own : e = head
      · right
        rw [own]
        exact if_pos rfl
      · rcases read with member | before
        · exact .inl ((List.mem_cons.mp member).resolve_left own)
        · exact .inr ((if_neg own).trans before)

theorem mem_setLoaded (loaded : List (LoadedSection table)) (index : table.Index)
    (base : UInt32) : (⟨base, index⟩ : LoadedSection table) ∈ setLoaded loaded index base := by
  induction loaded with
  | nil => exact List.mem_singleton_self _
  | cons e rest ih =>
      unfold setLoaded
      split
      · exact List.mem_cons_self ..
      · exact List.mem_cons_of_mem _ ih

theorem register (keeps : Keeps ok I) {s : Overlays table} (rdram : Rdram) (id fragmentPtr : UInt32)
    (holds : I s) (allowed : Move.Chain ok s (s.registerMoves rdram id fragmentPtr)) :
    I (s.registerRuntimeFragment rdram id fragmentPtr) := by
  unfold Overlays.registerMoves at allowed
  unfold Overlays.registerRuntimeFragment
  split
  · exact holds
  · rename_i someBase
    rw [if_neg someBase] at allowed
    cases selected : selectSection table rdram id fragmentPtr with
    | none =>
        rw [selected] at allowed
        have evicted := s.evictPrior_performs none fragmentPtr
        have superseded := Move.Performs.one (s := s.evictPriorAtBase none fragmentPtr)
          (m := .supersede id fragmentPtr) trivial
        unfold Overlays.leaveUnregistered
        dsimp only
        split
        · rename_i sized
          rw [if_pos sized] at allowed
          have recorded := Move.Performs.one
            (s := (s.evictPriorAtBase none fragmentPtr).supersede id fragmentPtr)
            (m := .recordLiveRange id ⟨fragmentPtr, fragSizeInRam rdram fragmentPtr⟩) trivial
          exact keeps.run (evicted.append (superseded.append recorded)) allowed holds
        · rename_i unknown
          rw [if_neg unknown] at allowed
          exact keeps.run (evicted.append superseded) allowed holds
    | some index =>
        rw [selected] at allowed
        have evicted := s.evictPrior_performs (some index) fragmentPtr
        have bound := keeps.run
          (evicted.append (.one (m := .bind rdram id index fragmentPtr) trivial)) allowed holds
        have member := mem_setLoaded (s.evictPriorAtBase (some index) fragmentPtr).loadedSections
          index fragmentPtr
        exact keeps.retry (keeps.scan bound member (if_pos rfl)).1

/-- The rule for invariants: the moves and one slot give every call. -/
theorem step (keeps : Keeps ok I) {s t : Overlays table} {call : Call} (holds : I s)
    (allowed : MovesMeet ok s call) (returned : overlayStep s call = some t) : I t := by
  cases call with
  | loadOverlays rom ramAddr size =>
      obtain ⟨targets, walked, rfl⟩ := Option.map_eq_some_iff.mp returned
      rw [MovesMeet, Overlays.callMoves, walked] at allowed
      exact keeps.run (Overlays.load_performs targets s) allowed holds
  | loadOverlayById id ramAddr =>
      obtain ⟨index, listed, rfl⟩ := Option.map_eq_some_iff.mp returned
      rw [MovesMeet, Overlays.callMoves, listed] at allowed
      exact keeps.run (s.loadOverlayById_performs index ramAddr) allowed holds
  | unloadOverlayById id =>
      obtain ⟨index, listed, rfl⟩ := Option.map_eq_some_iff.mp returned
      rw [MovesMeet, Overlays.callMoves, listed] at allowed
      exact keeps.run (s.unloadIndex_performs index) allowed holds
  | unloadOverlays ramAddr size =>
      exact keeps.run (Overlays.unloadEach_performs s.loadedSections s t (List.Subperm.refl _)
        returned) allowed holds
  | registerRuntimeFragment rdram id fragmentPtr =>
      cases returned
      exact keeps.register rdram id fragmentPtr holds allowed
  | unregisterRuntimeFragment id =>
      cases returned
      unfold Overlays.unregisterRuntimeFragment
      rw [MovesMeet, Overlays.callMoves] at allowed
      cases known : s.runtimeFragmentIdToSection id with
      | none => exact holds
      | some index =>
          rw [known] at allowed
          exact keeps.run (s.unloadIndex_performs index) allowed holds
  | scanLoadedFragmentTrampolines rdram rom size =>
      cases returned
      have among : ∀ e ∈ s.writtenSections rom size, e ∈ s.loadedSections :=
        fun e member => List.mem_of_mem_filter member
      have read := keeps.run (Overlays.readEach_performs rdram _ s among) allowed holds
      obtain ⟨list, jumps⟩ := readEach rdram (s.writtenSections rom size) s
      refine keeps.retry (keeps.scanEach rdram _ _ read (fun e member => ?_) fun e member => ?_)
      · rw [list]
        exact among e member
      · exact jumps e (.inl member)

end Keeps

end N64ModernRuntime.Librecomp
