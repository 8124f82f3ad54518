import N64ModernRuntime.Librecomp.RegenList

/-!
# mods.cpp: the relocations of regenerated functions

The list is kept flat: a section of it is known by where its functions and its
relocations start.  Cut again into its sections, each function stands in it
once, beside exactly the relocations of the table in its range.
-/

set_option autoImplicit false

namespace N64ModernRuntime.Librecomp

open RangeCursor Segments

/-- The part of the list for one section; `ranges` are those of all functions
that were entered in it, also of the patched ones. -/
structure RegenPart where
  rom : UInt32
  index : Nat
  functions : List RegeneratedFunction
  ranges : List RangeCursor.Range
  relocs : List RelocEntry

def RegeneratedFunction.range (function : RegeneratedFunction) : RangeCursor.Range :=
  ⟨function.sectionOffset.toNat, function.sectionOffset.toNat + function.size.toNat⟩

def CodeTable.RelocsSorted (table : CodeTable) : Prop :=
  ∀ s ∈ table.sections, s.relocs.Pairwise fun a b => a.place ≤ b.place

namespace RegenSource

variable (source : RegenSource)

def sectionOf (part : RegenPart) (firstFuncIndex firstRelocIndex : Nat) : RegeneratedSection where
  romAddr := part.rom
  ramAddr := source.table.getSectionRamAddr part.index
  originalIndex := part.index
  firstFuncIndex := firstFuncIndex
  firstRelocIndex := firstRelocIndex
  relocatable := !source.patched && !(source.table.getSectionRelocs part.index).isEmpty

def sectionsOf : Nat → Nat → List RegenPart → List RegeneratedSection
  | _, _, [] => []
  | functions, relocs, part :: rest =>
      source.sectionOf part functions relocs ::
        sectionsOf (functions + part.functions.length) (relocs + part.relocs.length) rest

structure Assembles (parts : List RegenPart) (list : RegeneratedList) : Prop where
  sections : list.sections = source.sectionsOf 0 0 parts
  functions : list.functions = (parts.map RegenPart.functions).flatten
  relocs : list.relocs = (parts.map RegenPart.relocs).flatten

/-- A part is right when it has the functions of the table in order, and for
each of them the relocations of the table in its range. -/
structure PartRight (part : RegenPart) : Prop where
  section_ : source.sectionVromMap part.rom = some part.index
  entries : ∀ f ∈ part.functions, ∃ entry,
    source.table.getFuncEntryBySectionIndexFunctionOffset part.index f.sectionOffset = some entry ∧
      entry.romSize = f.size
  increasing : part.functions.Pairwise fun f g => f.sectionOffset < g.sectionOffset
  ranges : ∀ f ∈ part.functions, f.range ∈ part.ranges
  relocs : ∀ range ∈ part.ranges, part.relocs.filter (range.holds RelocEntry.place) =
    (source.table.getSectionRelocs part.index).filter (range.holds RelocEntry.place)

/-- The cursor is in the section of the part, at the function that begins at `floor`. -/
structure InPart (c : RegenCursor) (part : RegenPart) (floor : Nat) : Prop where
  relocs : c.sectionRelocs = source.table.getSectionRelocs part.index
  exact_ : Exact RelocEntry.place (source.table.getSectionRelocs part.index) part.ranges floor
    c.sectionRelocIndex part.relocs
  below : ∀ f ∈ part.functions, f.sectionOffset.toNat ≤ floor

structure Partitioned (done : List (HookDefinition × Nat)) (parts : List RegenPart)
    (c : RegenCursor) : Prop where
  assembles : source.Assembles parts c.list
  right : ∀ part ∈ parts, source.PartRight part
  increasing : parts.Pairwise fun p q => p.rom < q.rom
  ofHook : ∀ part ∈ parts, ∃ hook ∈ done, part.rom = hook.1.sectionRom
  last : ∀ hook, done.getLast? = some hook → ∃ front part, parts = front ++ [part] ∧
    part.rom = hook.1.sectionRom ∧ part.index = c.sectionIndex ∧
    source.InPart c part (source.offsetOf hook.1.sectionRom hook.1.functionVram).toNat

end RegenSource

/-! ## Parts and sections -/

section Sections

variable {source : RegenSource} {parts front : List RegenPart} {part : RegenPart}

theorem sectionsOf_append (functions relocs : Nat) (later : List RegenPart) :
    source.sectionsOf functions relocs (front ++ later) =
      source.sectionsOf functions relocs front ++
        source.sectionsOf (functions + (front.map RegenPart.functions).flatten.length)
          (relocs + (front.map RegenPart.relocs).flatten.length) later := by
  induction front generalizing functions relocs with
  | nil => rfl
  | cons part front ih =>
      simp only [List.cons_append, RegenSource.sectionsOf, ih, List.map_cons, List.flatten_cons,
        List.length_append, Nat.add_assoc]

theorem getElem?_sectionsOf (functions relocs index : Nat) :
    (source.sectionsOf functions relocs parts)[index]? = parts[index]?.map fun part =>
      source.sectionOf part (functions + start (parts.map RegenPart.functions) index)
        (relocs + start (parts.map RegenPart.relocs) index) := by
  induction parts generalizing functions relocs index with
  | nil => rfl
  | cons part rest ih =>
      cases index with
      | zero => rfl
      | succ index =>
          simp only [RegenSource.sectionsOf, List.getElem?_cons_succ, ih]
          congr 1
          funext other
          simp only [start, List.map_cons, List.take_succ_cons, List.flatten_cons,
            List.length_append, Nat.add_assoc]

theorem sectionsOf_last {grown : RegenPart} (functions relocs : Nat) (rom : grown.rom = part.rom)
    (index : grown.index = part.index) :
    source.sectionsOf functions relocs (front ++ [grown]) =
      source.sectionsOf functions relocs (front ++ [part]) := by
  simp only [sectionsOf_append, RegenSource.sectionsOf, RegenSource.sectionOf, rom, index]

end Sections

/-! ## Offsets -/

section Offsets

variable {source : RegenSource} {d e : HookDefinition} {entry other : FuncEntry}

theorem offsetOf_toNat (known : source.entryOf d = some entry) :
    ∃ index, source.sectionVromMap d.sectionRom = some index ∧
      (source.offsetOf d.sectionRom d.functionVram).toNat +
        (source.table.getSectionRamAddr index).toNat = d.functionVram.toNat := by
  obtain ⟨index, section_, found⟩ := Option.bind_eq_some_iff.mp known
  obtain ⟨s, here, -, -, inside⟩ := getFuncEntry_some found
  have ram : source.table.getSectionRamAddr index = s.ramAddr := by
    rw [CodeTable.getSectionRamAddr, here]
    rfl
  have offset : source.offsetOf d.sectionRom d.functionVram = d.functionVram - s.ramAddr := by
    rw [RegenSource.offsetOf, section_, ← ram]
    rfl
  have wrap := source.table.no_wrap s (List.mem_of_getElem? here)
  refine ⟨index, section_, ?_⟩
  rw [offset, UInt32.lt_iff_toNat_lt, UInt32.toNat_sub] at inside
  rw [offset, ram, UInt32.toNat_sub]
  have := d.functionVram.toNat_lt
  have := s.ramAddr.toNat_lt
  omega

theorem offsetOf_lt (rom : d.sectionRom = e.sectionRom) (dKnown : source.entryOf d = some entry)
    (eKnown : source.entryOf e = some other) (below : d.functionVram < e.functionVram) :
    (source.offsetOf d.sectionRom d.functionVram).toNat <
      (source.offsetOf e.sectionRom e.functionVram).toNat := by
  obtain ⟨index, section_, dOffset⟩ := offsetOf_toNat dKnown
  obtain ⟨index', section', eOffset⟩ := offsetOf_toNat eKnown
  rw [rom, section'] at section_
  obtain rfl : index' = index := Option.some.inj section_
  rw [UInt32.lt_iff_toNat_lt] at below
  omega

end Offsets

/-! ## One hook more -/

section Pass

variable {source : RegenSource} {done : List (HookDefinition × Nat)} {groups : List RegenGroup}
  {parts front : List RegenPart} {part : RegenPart} {c found : RegenCursor}
  {hook : HookDefinition × Nat} {floor : Nat}

def emittedFunctions (emitted : Bool) (function : RegeneratedFunction) :
    List RegeneratedFunction :=
  if emitted then [function] else []

def RegenCursor.copyStart (c : RegenCursor) (offset : UInt32) : Nat :=
  c.sectionRelocIndex + skipped RelocEntry.place c.sectionRelocs c.sectionRelocIndex offset.toNat

def RegenCursor.copied (c : RegenCursor) (function : RegeneratedFunction) : List RelocEntry :=
  taken RelocEntry.place c.sectionRelocs (c.copyStart function.sectionOffset) function.range.upper

/-- What entering a function does to the three lists and to the cursor in the
relocations; a patched function is not emitted. -/
structure EntersList (c found : RegenCursor) (function : RegeneratedFunction) (emitted : Bool) :
    Prop where
  sections : found.list.sections = c.list.sections
  functions : found.list.functions = c.list.functions ++ emittedFunctions emitted function
  relocs : found.list.relocs = c.list.relocs ++ c.copied function
  sectionRelocs : found.sectionRelocs = c.sectionRelocs
  sectionRelocIndex : found.sectionRelocIndex =
    c.copyStart function.sectionOffset + (c.copied function).length
  sectionIndex : found.sectionIndex = c.sectionIndex

theorem enterFunction_list {vram : UInt32}
    (entered : source.enterFunction c vram = .ok found) :
    ∃ entry emitted, source.table.getFuncEntryBySectionIndexFunctionOffset c.sectionIndex
        (vram - c.sectionVram) = some entry ∧
      EntersList c found ⟨vram - c.sectionVram, entry.romSize⟩ emitted := by
  unfold RegenSource.enterFunction at entered
  dsimp only at entered
  cases known : source.table.getFuncEntryBySectionIndexFunctionOffset c.sectionIndex
      (vram - c.sectionVram) with
  | none =>
      rw [known] at entered
      contradiction
  | some entry =>
      rw [known] at entered
      dsimp only at entered
      split at entered
      · contradiction
      · generalize (if source.patched then none else source.basePatchedFuncs entry.func) = patch
          at entered
        cases patch with
        | some patch =>
            cases entered
            exact ⟨entry, false, rfl, rfl, (List.append_nil _).symm, rfl, rfl, rfl, rfl⟩
        | none =>
            cases entered
            exact ⟨entry, true, rfl, rfl, rfl, rfl, rfl, rfl, rfl⟩

def RegenPart.grow (part : RegenPart) (function : RegeneratedFunction) (emitted : Bool)
    (copied : List RelocEntry) : RegenPart :=
  { part with
    functions := part.functions ++ emittedFunctions emitted function
    ranges := part.ranges ++ [function.range]
    relocs := part.relocs ++ copied }

theorem mem_emittedFunctions {f function : RegeneratedFunction} {emitted : Bool}
    (member : f ∈ emittedFunctions emitted function) : f = function := by
  cases emitted with
  | true => exact List.mem_singleton.mp member
  | false => exact absurd member List.not_mem_nil

theorem RegenSource.Assembles.grow {function : RegeneratedFunction} {emitted : Bool}
    (assembles : source.Assembles (front ++ [part]) c.list)
    (enters : EntersList c found function emitted) :
    source.Assembles (front ++ [part.grow function emitted (c.copied function)]) found.list where
  sections := by
    rw [enters.sections, assembles.sections]
    have rom : (part.grow function emitted (c.copied function)).rom = part.rom := rfl
    exact (sectionsOf_last 0 0 rom rfl).symm
  functions := by
    rw [enters.functions, assembles.functions]
    simp [RegenPart.grow]
  relocs := by
    rw [enters.relocs, assembles.relocs]
    simp [RegenPart.grow]

section Growing

variable {function : RegeneratedFunction} {entry : FuncEntry} {emitted : Bool}

theorem RegenSource.InPart.grow (inside : source.InPart c part floor)
    (sorted : (source.table.getSectionRelocs part.index).Pairwise fun a b => a.place ≤ b.place)
    (above : floor ≤ function.sectionOffset.toNat) (enters : EntersList c found function emitted) :
    source.InPart found (part.grow function emitted (c.copied function))
      function.sectionOffset.toNat where
  relocs := enters.sectionRelocs.trans inside.relocs
  exact_ := by
    have exact_ := inside.exact_.next sorted function.range above
    rw [← inside.relocs] at exact_
    rw [enters.sectionRelocIndex]
    exact inside.relocs ▸ exact_
  below f member := by
    rcases List.mem_append.mp member with old | new_
    · exact Nat.le_trans (inside.below f old) above
    · rw [mem_emittedFunctions new_]

theorem RegenSource.PartRight.grow (right : source.PartRight part)
    (inside : source.InPart found (part.grow function emitted (c.copied function)) floor)
    (known : source.table.getFuncEntryBySectionIndexFunctionOffset part.index
      function.sectionOffset = some entry) (size : entry.romSize = function.size)
    (new_ : ∀ f ∈ part.functions, f.sectionOffset < function.sectionOffset) :
    source.PartRight (part.grow function emitted (c.copied function)) where
  section_ := right.section_
  entries f member := by
    rcases List.mem_append.mp member with old | own
    · exact right.entries f old
    · rw [mem_emittedFunctions own]
      exact ⟨entry, known, size⟩
  increasing := by
    refine List.pairwise_append.mpr ⟨right.increasing, ?_, ?_⟩
    · cases emitted
      · exact .nil
      · exact List.pairwise_singleton _ _
    · intro f old g own
      rw [mem_emittedFunctions own]
      exact new_ f old
  ranges f member := by
    rcases List.mem_append.mp member with old | own
    · exact List.mem_append_left _ (right.ranges f old)
    · rw [mem_emittedFunctions own]
      exact List.mem_append_right _ (List.mem_singleton_self _)
  relocs range member := inside.exact_.filter member

end Growing

theorem CodeTable.RelocsSorted.at {table : CodeTable} (sorted : table.RelocsSorted) (index : Nat) :
    (table.getSectionRelocs index).Pairwise fun a b => a.place ≤ b.place := by
  rw [CodeTable.getSectionRelocs]
  cases here : table.sections[index]? with
  | none => exact .nil
  | some s => exact sorted s (List.mem_of_getElem? here)

theorem enterSection_parts {entered : RegenCursor} {rom : UInt32}
    (assembles : source.Assembles parts c.list)
    (moved : source.enterSection c rom = some entered) :
    ∃ index, source.sectionVromMap rom = some index ∧
      source.Assembles (parts ++ [⟨rom, index, [], [], []⟩]) entered.list ∧
      source.PartRight ⟨rom, index, [], [], []⟩ ∧
      source.InPart entered ⟨rom, index, [], [], []⟩ 0 ∧ entered.sectionIndex = index ∧
      entered.sectionVram = source.table.getSectionRamAddr index := by
  obtain ⟨index, section_, rfl⟩ := Option.map_eq_some_iff.mp moved
  refine ⟨index, section_, ⟨?_, ?_, ?_⟩, ⟨section_, ?_, .nil, ?_, ?_⟩, ⟨rfl, .start, ?_⟩, rfl, rfl⟩
  · rw [sectionsOf_append]
    simp only [assembles.sections, RegenSource.sectionsOf, RegenSource.sectionOf,
      assembles.functions, assembles.relocs, Nat.zero_add]
  · simp [assembles.functions]
  · simp [assembles.relocs]
  · exact fun f none => absurd none List.not_mem_nil
  · exact fun f none => absurd none List.not_mem_nil
  · exact fun range none => absurd none List.not_mem_nil
  · exact fun f none => absurd none List.not_mem_nil

theorem attachHook_parts (c : RegenCursor) (hook : HookDefinition × Nat) :
    (RegenSource.attachHook c hook).list.sections = c.list.sections ∧
      (RegenSource.attachHook c hook).list.functions = c.list.functions ∧
      (RegenSource.attachHook c hook).list.relocs = c.list.relocs ∧
      (RegenSource.attachHook c hook).sectionRelocs = c.sectionRelocs ∧
      (RegenSource.attachHook c hook).sectionRelocIndex = c.sectionRelocIndex ∧
      (RegenSource.attachHook c hook).sectionIndex = c.sectionIndex := by
  unfold RegenSource.attachHook
  cases c.basePatched with
  | some patch => exact ⟨rfl, rfl, rfl, rfl, rfl, rfl⟩
  | none =>
      dsimp only
      split <;> exact ⟨rfl, rfl, rfl, rfl, rfl, rfl⟩

structure RegenSource.Reached (source : RegenSource) (done : List (HookDefinition × Nat))
    (front : List RegenPart) (part : RegenPart) (c : RegenCursor) (definition : HookDefinition) :
    Prop where
  assembles : source.Assembles (front ++ [part]) c.list
  right : ∀ p ∈ front ++ [part], source.PartRight p
  increasing : (front ++ [part]).Pairwise fun p q => p.rom < q.rom
  ofHook : ∀ p ∈ front, ∃ hook ∈ done, p.rom = hook.1.sectionRom
  rom : part.rom = definition.sectionRom
  index : part.index = c.sectionIndex
  inside : source.InPart c part
    (source.offsetOf definition.sectionRom definition.functionVram).toNat

theorem RegenSource.Reached.attach
    (reached : source.Reached done front part c hook.1) :
    source.Partitioned (done ++ [hook]) (front ++ [part]) (RegenSource.attachHook c hook) := by
  obtain ⟨sections, functions, relocs, sectionRelocs, sectionRelocIndex, sectionIndex⟩ :=
    attachHook_parts c hook
  obtain ⟨assembles, right, increasing, ofHook, rom, index, inside⟩ := reached
  refine ⟨⟨sections.trans assembles.sections, functions.trans assembles.functions,
    relocs.trans assembles.relocs⟩, right, increasing, ?_, ?_⟩
  · intro p member
    rcases List.mem_append.mp member with old | own
    · obtain ⟨h, passed, same⟩ := ofHook p old
      exact ⟨h, List.mem_append_left _ passed, same⟩
    · rw [List.mem_singleton.mp own]
      exact ⟨hook, List.mem_append_right _ (List.mem_singleton_self _), rom⟩
  · intro h final
    rw [List.getLast?_concat] at final
    obtain rfl : hook = h := Option.some.inj final
    refine ⟨front, part, rfl, rom, index.trans sectionIndex.symm, ⟨sectionRelocs.trans inside.relocs,
      ?_, inside.below⟩⟩
    rw [sectionRelocIndex]
    exact inside.exact_

theorem HookDefinition.sectionRom_le {d e : HookDefinition} (le : d.place ≤ e.place) :
    d.sectionRom ≤ e.sectionRom := by
  have := d.functionVram.toNat_lt
  have := e.functionVram.toNat_lt
  unfold place at le
  rw [UInt32.le_iff_toNat_le]
  omega

theorem HookDefinition.functionVram_le {d e : HookDefinition} (le : d.place ≤ e.place)
    (rom : d.sectionRom = e.sectionRom) : d.functionVram ≤ e.functionVram := by
  unfold place at le
  rw [rom] at le
  rw [UInt32.le_iff_toNat_le]
  omega

theorem RegenSource.Partitioned.seek (sorted : source.table.RelocsSorted)
    (gathered : source.Gathered done groups c) (partitioned : source.Partitioned done parts c)
    (regular : hook.1.functionVram ≠ 0xFFFFFFFF)
    (above : ∀ h ∈ done, h.1.place ≤ hook.1.place)
    (inOrder : done.Pairwise fun a b => a.1.place ≤ b.1.place)
    (sought : source.seek c hook.1 = .ok found) :
    ∃ front part, source.Reached done front part found hook.1 := by
  have ofFront : ∀ {front : List RegenPart} {part : RegenPart}, parts = front ++ [part] →
      ∀ p ∈ front, ∃ hook ∈ done, p.rom = hook.1.sectionRom := by
    intro front part cut p member
    exact partitioned.ofHook p (cut ▸ List.mem_append_left _ member)
  rcases seek_cases gathered regular sought with
    ⟨last, final, same, rfl⟩ | ⟨last, final, rom, apart, entered⟩ | ⟨apart, middle, moved, entered⟩
  · obtain ⟨front, part, cut, ofLast, index, inside⟩ := partitioned.last last final
    obtain ⟨sameRom, sameVram⟩ := HookDefinition.place_inj.mp same
    rw [sameRom, sameVram] at inside
    exact ⟨front, part, cut ▸ partitioned.assembles, cut ▸ partitioned.right,
      cut ▸ partitioned.increasing, ofFront cut, ofLast.trans sameRom, index, inside⟩
  · obtain ⟨front, part, cut, ofLast, index, inside⟩ := partitioned.last last final
    have stands := (gathered.last last final).stands
    obtain ⟨lastEntry, lastKnown, -⟩ := (gathered.last last final).known
    have section_ : source.sectionVromMap hook.1.sectionRom = some c.sectionIndex :=
      rom ▸ stands.sectionIndex
    obtain ⟨_, own⟩ := enterFunction_ok section_ stands.sectionVram
      (stands.sectionRom.trans rom) entered
    obtain ⟨entry, emitted, known, enters⟩ := enterFunction_list entered
    have offset : source.offsetOf hook.1.sectionRom hook.1.functionVram =
        hook.1.functionVram - c.sectionVram := by
      rw [offsetOf, section_, stands.sectionVram]
      rfl
    have later : (source.offsetOf last.1.sectionRom last.1.functionVram).toNat <
        (hook.1.functionVram - c.sectionVram).toNat := by
      have le := above last (List.mem_of_getLast? final)
      have below := UInt32.lt_of_le_of_ne (HookDefinition.functionVram_le le rom) apart
      rw [← offset]
      exact offsetOf_lt rom lastKnown own.known below
    have grown := inside.grow (sorted.at part.index) (Nat.le_of_lt later) enters
    have right : source.PartRight part := partitioned.right part (cut ▸ List.mem_append_right _
      (List.mem_singleton_self _))
    have rightGrown := right.grow grown (index ▸ known) rfl fun f member =>
      UInt32.lt_iff_toNat_lt.mpr (Nat.lt_of_le_of_lt (inside.below f member) later)
    have assembles : source.Assembles (front ++ [part]) c.list := cut ▸ partitioned.assembles
    have increasing : (front ++ [part]).Pairwise fun p q => p.rom < q.rom :=
      cut ▸ partitioned.increasing
    refine ⟨front, _, assembles.grow enters, ?_, ?_, ofFront cut, ofLast.trans rom,
      index.trans enters.sectionIndex.symm, offset ▸ grown⟩
    · intro p member
      rcases List.mem_append.mp member with old | new_
      · exact partitioned.right p (cut ▸ List.mem_append_left _ old)
      · rw [List.mem_singleton.mp new_]
        exact rightGrown
    · obtain ⟨before, -, across⟩ := List.pairwise_append.mp increasing
      refine List.pairwise_append.mpr ⟨before, List.pairwise_singleton _ _, ?_⟩
      intro p old q new_
      rw [List.mem_singleton.mp new_]
      exact across p old part (List.mem_singleton_self _)
  · obtain ⟨index, section_, assembles, right, inside, sectionIndex, sectionVram⟩ :=
      enterSection_parts partitioned.assembles moved
    obtain ⟨entry, emitted, known, enters⟩ := enterFunction_list entered
    have offset : source.offsetOf hook.1.sectionRom hook.1.functionVram =
        hook.1.functionVram - middle.sectionVram := by
      rw [offsetOf, section_, sectionVram]
      rfl
    have grown := inside.grow (sorted.at index) (Nat.zero_le _) enters
    have rightGrown := right.grow grown (sectionIndex ▸ known) rfl
      fun f none => absurd none List.not_mem_nil
    refine ⟨parts, _, assembles.grow enters, ?_, ?_, partitioned.ofHook, rfl,
      sectionIndex.symm.trans enters.sectionIndex.symm, offset ▸ grown⟩
    · intro p member
      rcases List.mem_append.mp member with old | new_
      · exact partitioned.right p old
      · rw [List.mem_singleton.mp new_]
        exact rightGrown
    · -- the sections come in order, and this is not the last one again
      refine List.pairwise_append.mpr ⟨partitioned.increasing, List.pairwise_singleton _ _, ?_⟩
      intro p old q new_
      rw [List.mem_singleton.mp new_]
      obtain ⟨h, passed, rom⟩ := partitioned.ofHook p old
      obtain ⟨last, final⟩ : ∃ last, done.getLast? = some last :=
        Option.isSome_iff_exists.mp (List.getLast?_isSome.mpr (List.ne_nil_of_mem passed))
      obtain ⟨before, rfl⟩ := List.getLast?_eq_some_iff.mp final
      have toLast : h.1.sectionRom ≤ last.1.sectionRom := by
        rcases List.mem_append.mp passed with earlier | own
        · exact HookDefinition.sectionRom_le ((List.pairwise_append.mp inOrder).2.2 h earlier last
            (List.mem_singleton_self _))
        · rw [List.mem_singleton.mp own]
          exact UInt32.le_refl _
      have fromLast : last.1.sectionRom < hook.1.sectionRom := UInt32.lt_of_le_of_ne
        (HookDefinition.sectionRom_le (above last (List.mem_of_getLast? final))) (apart last final)
      rw [rom]
      exact UInt32.lt_of_le_of_lt toLast fromLast

theorem gather_parts {hooks : List (HookDefinition × Nat)} (sorted : source.table.RelocsSorted)
    (gathered : source.Gathered done groups c) (partitioned : source.Partitioned done parts c)
    (regular : ∀ h ∈ hooks, h.1.functionVram ≠ 0xFFFFFFFF)
    (inOrder : (done ++ hooks).Pairwise fun a b => a.1.place ≤ b.1.place)
    (ran : source.gather hooks c = .ok found) :
    ∃ parts', source.Partitioned (done ++ hooks) parts' found := by
  induction hooks generalizing done groups parts c with
  | nil =>
      cases ran
      exact ⟨parts, by rwa [List.append_nil]⟩
  | cons hook rest ih =>
      unfold RegenSource.gather at ran
      cases sought : source.seek c hook.1 with
      | error e =>
          rw [sought] at ran
          contradiction
      | ok next =>
          rw [sought] at ran
          obtain ⟨before, -, across⟩ := List.pairwise_append.mp inOrder
          have above := fun h passed => across h passed hook List.mem_cons_self
          have real := regular hook List.mem_cons_self
          obtain ⟨groups', gathered'⟩ := gathered.next real above before sought
          obtain ⟨front, part, reached⟩ := partitioned.seek sorted gathered real above before sought
          rw [List.append_cons] at inOrder ⊢
          exact ih gathered' reached.attach
            (fun h member => regular h (List.mem_cons_of_mem _ member)) inOrder ran

theorem partitioned_start : source.Partitioned [] [] .start where
  assembles := ⟨rfl, rfl, rfl⟩
  right := fun p none => absurd none List.not_mem_nil
  increasing := .nil
  ofHook := fun p none => absurd none List.not_mem_nil
  last := fun h final => by contradiction

theorem buildRegenList_parts {hooks : List (HookDefinition × Nat)} {list : RegeneratedList}
    (sorted : source.table.RelocsSorted)
    (regular : ∀ h ∈ hooks, h.1.functionVram ≠ 0xFFFFFFFF)
    (inOrder : hooks.Pairwise fun a b => a.1.place ≤ b.1.place)
    (built : source.buildRegenList hooks = .ok list) :
    ∃ parts, source.Assembles parts list ∧ (∀ part ∈ parts, source.PartRight part) ∧
      parts.Pairwise fun p q => p.rom < q.rom := by
  unfold RegenSource.buildRegenList at built
  cases ran : source.gather hooks .start with
  | error e =>
      rw [ran] at built
      contradiction
  | ok found =>
      rw [ran] at built
      cases built
      obtain ⟨parts, partitioned⟩ :=
        gather_parts sorted gathered_start partitioned_start regular inOrder ran
      exact ⟨parts, partitioned.assembles, partitioned.right, partitioned.increasing⟩

end Pass

/-! ## The context -/

/-- What the relocation of a table says, and the one of a context in a section at `ramAddr`. -/
def RelocEntry.content (reloc : RelocEntry) : UInt32 × Nat × UInt32 × RelocType :=
  (reloc.offset, reloc.targetSection, reloc.targetSectionOffset, reloc.type)

def Reloc.content (ramAddr : UInt32) (reloc : Reloc) : UInt32 × Nat × UInt32 × RelocType :=
  (reloc.address - ramAddr, reloc.targetSection, reloc.targetSectionOffset, reloc.type)

def FuncEntry.covers (entry : FuncEntry) (offset : UInt32) : Bool :=
  decide (entry.offset.toNat ≤ offset.toNat) &&
    decide (offset.toNat < entry.offset.toNat + entry.romSize.toNat)

/-- The function is that of an entry of the table, and among the relocations of
its section exactly those of the table in its range are in its range. -/
def CodeHandle.FunctionExact (table : CodeTable) (handle : CodeHandle) (function : ModFunction) :
    Prop :=
  ∃ section_ index entry, handle.context.sections[function.sectionIndex]? = some section_ ∧
    handle.originalSectionIndices[function.sectionIndex]? = some index ∧
    table.getFuncEntryBySectionIndexFunctionOffset index (function.vram - section_.ramAddr) =
      some entry ∧
    (section_.relocs.map (Reloc.content section_.ramAddr)).filter (fun r => entry.covers r.1) =
      ((table.getSectionRelocs index).map RelocEntry.content).filter (fun r => entry.covers r.1)

/-- Each function is emitted once, by the section that it is from and its
address, and exactly. -/
structure CodeHandle.RegeneratedExactly (table : CodeTable) (handle : CodeHandle) : Prop where
  once : (handle.context.functions.map fun function =>
    (handle.originalSectionIndices[function.sectionIndex]?, function.vram)).Nodup
  exact_ : ∀ function ∈ handle.context.functions, handle.FunctionExact table function

section Context

variable {source : RegenSource} {parts : List RegenPart} {list : RegeneratedList}
  {sectionEvent : Nat} {rom : List UInt8} {index : Nat} {part : RegenPart}

theorem RegenSource.Assembles.sectionAt (assembles : source.Assembles parts list)
    (here : parts[index]? = some part) :
    list.sections[index]? = some (source.sectionOf part
      (start (parts.map RegenPart.functions) index) (start (parts.map RegenPart.relocs) index)) := by
  rw [assembles.sections, getElem?_sectionsOf, here, Option.map_some, Nat.zero_add, Nat.zero_add]

/-- The ends of a section in the flat lists are the starts of the next one. -/
theorem RegenSource.Assembles.ends (assembles : source.Assembles parts list) (index : Nat) :
    list.funcListEnd index = start (parts.map RegenPart.functions) (index + 1) ∧
      list.relocListEnd index = start (parts.map RegenPart.relocs) (index + 1) := by
  unfold RegeneratedList.funcListEnd RegeneratedList.relocListEnd
  rw [assembles.sections, getElem?_sectionsOf, assembles.functions, assembles.relocs]
  cases next : parts[index + 1]? with
  | some other =>
      simp only [Option.map_some, Option.getD_some, RegenSource.sectionOf, Nat.zero_add, and_self]
  | none =>
      have past : parts.length ≤ index + 1 := List.getElem?_eq_none_iff.mp next
      simp only [Option.map_none, Option.getD_none]
      rw [start_of_length_le (by rwa [List.length_map]),
        start_of_length_le (by rwa [List.length_map])]
      exact ⟨rfl, rfl⟩

theorem RegenSource.Assembles.slices (assembles : source.Assembles parts list)
    (here : parts[index]? = some part) :
    slice list.functions (start (parts.map RegenPart.functions) index) (list.funcListEnd index) =
        part.functions ∧
      slice list.relocs (start (parts.map RegenPart.relocs) index) (list.relocListEnd index) =
        part.relocs := by
  obtain ⟨functionsEnd, relocsEnd⟩ := assembles.ends index
  rw [functionsEnd, relocsEnd, assembles.functions, assembles.relocs]
  exact ⟨slice_flatten (by rw [List.getElem?_map, here, Option.map_some]),
    slice_flatten (by rw [List.getElem?_map, here, Option.map_some])⟩

def RegenSource.partSection (source : RegenSource) (parts : List RegenPart) (index : Nat)
    (part : RegenPart) : RegeneratedSection :=
  source.sectionOf part (start (parts.map RegenPart.functions) index)
    (start (parts.map RegenPart.relocs) index)

theorem RegenSource.Assembles.contextFunctions (assembles : source.Assembles parts list) :
    (list.contextFromRegeneratedList sectionEvent rom).functions =
      parts.zipIdx.flatMap fun (part, index) => part.functions.mapIdx fun i =>
        RegeneratedList.functionOut rom (source.partSection parts index part) index
          (start (parts.map RegenPart.functions) index + i) := by
  have sections : list.sections.zipIdx =
      parts.zipIdx.map fun entry => (source.partSection parts entry.2 entry.1, entry.2) := by
    apply List.ext_getElem?
    intro index
    rw [List.getElem?_zipIdx, List.getElem?_map, List.getElem?_zipIdx, assembles.sections,
      getElem?_sectionsOf]
    cases parts[index]? with
    | none => rfl
    | some part => simp only [Option.map_some, Nat.zero_add, partSection]
  have flat : (list.contextFromRegeneratedList sectionEvent rom).functions =
      list.sections.zipIdx.flatMap fun entry =>
        (slice list.functions entry.1.firstFuncIndex (list.funcListEnd entry.2)).mapIdx fun i =>
          RegeneratedList.functionOut rom entry.1 entry.2 (entry.1.firstFuncIndex + i) := rfl
  rw [flat, sections, List.flatMap_map]
  refine List.flatMap_congr fun entry member => ?_
  have here : parts[entry.2]? = some entry.1 := List.mem_zipIdx_iff_getElem?.mp member
  have cut := (assembles.slices here).1
  simp only [partSection, sectionOf, cut]

theorem RegenSource.Assembles.contextSection (assembles : source.Assembles parts list)
    (here : parts[index]? = some part) :
    ∃ section_, (list.contextFromRegeneratedList sectionEvent rom).sections[index]? =
        some section_ ∧ section_.ramAddr = source.table.getSectionRamAddr part.index ∧
      section_.relocs.map (Reloc.content section_.ramAddr) = part.relocs.map RelocEntry.content := by
  have at_ := assembles.sectionAt here
  have cut := (assembles.slices here).2
  have sections : (list.contextFromRegeneratedList sectionEvent rom).sections =
      list.sections.zipIdx.map fun entry => list.sectionOut sectionEvent entry.1 entry.2 := rfl
  refine ⟨_, by rw [sections, List.getElem?_map, List.getElem?_zipIdx, at_]; rfl, rfl, ?_⟩
  simp only [RegeneratedList.sectionOut, Nat.zero_add, sectionOf, cut, List.map_map]
  refine List.map_congr_left fun reloc _ => ?_
  simp only [Function.comp, Reloc.content, RegeneratedList.relocOut, RelocEntry.content,
    UInt32.add_sub_cancel]

theorem filter_content {relocs : List RelocEntry} {entry : FuncEntry}
    {function : RegeneratedFunction} (offset : entry.offset = function.sectionOffset)
    (size : entry.romSize = function.size) :
    (relocs.map RelocEntry.content).filter (fun r => entry.covers r.1) =
      (relocs.filter (function.range.holds RelocEntry.place)).map RelocEntry.content := by
  rw [List.filter_map]
  congr 2
  funext reloc
  simp only [Function.comp, FuncEntry.covers, RelocEntry.content, RangeCursor.Range.holds,
    RegeneratedFunction.range, RelocEntry.place, offset, size]
  rfl

theorem originalSectionIndex (assembles : source.Assembles parts list)
    (here : parts[index]? = some part) :
    (list.sections.map RegeneratedSection.originalIndex)[index]? = some part.index := by
  rw [List.getElem?_map, assembles.sectionAt here]
  rfl

/-- The map from `rom` leads to a section that begins there. -/
def RegenSource.RomsMatch (source : RegenSource) : Prop :=
  ∀ rom index, source.sectionVromMap rom = some index →
    ∃ s, source.table.sections[index]? = some s ∧ s.romAddr = rom

theorem regeneratedHandle_exact (env : LoadEnv) (assembles : source.Assembles parts list)
    (right : ∀ part ∈ parts, source.PartRight part)
    (increasing : parts.Pairwise fun p q => p.rom < q.rom) (roms : source.RomsMatch) :
    (env.regeneratedHandle list rom).RegeneratedExactly source.table where
  once := by
    refine List.pairwise_map.mpr ?_
    change List.Pairwise _ (list.contextFromRegeneratedList env.sectionEvent rom).functions
    rw [assembles.contextFunctions]
    refine List.pairwise_flatMap.mpr ⟨?_, ?_⟩
    · -- in one section the offsets grow
      rintro ⟨part, index⟩ there
      have here : parts[index]? = some part := List.mem_zipIdx_iff_getElem?.mp there
      have offsets := (right part (List.mem_of_getElem? here)).increasing
      refine List.pairwise_iff_getElem.mpr fun i j iBelow jBelow less same => ?_
      rw [List.length_mapIdx] at iBelow jBelow
      have differ := List.pairwise_iff_getElem.mp offsets i j iBelow jBelow less
      simp only [List.getElem_mapIdx, RegeneratedList.functionOut, Prod.mk.injEq, true_and,
        UInt32.add_right_inj] at same
      rw [same] at differ
      exact UInt32.lt_irrefl _ differ
    · -- two sections are different ones of the table
      refine List.pairwise_iff_getElem.mpr fun i j iBelow jBelow less f inF g inG same => ?_
      rw [List.length_zipIdx] at iBelow jBelow
      simp only [List.getElem_zipIdx, Nat.zero_add] at inF inG
      obtain ⟨_, _, rfl⟩ := List.mem_mapIdx.mp inF
      obtain ⟨_, _, rfl⟩ := List.mem_mapIdx.mp inG
      have iHere := List.getElem?_eq_getElem iBelow
      have jHere := List.getElem?_eq_getElem jBelow
      have sameIndex : some (parts[i].index) = some (parts[j].index) :=
        (originalSectionIndex assembles iHere).symm.trans
          ((Prod.mk.inj same).1.trans (originalSectionIndex assembles jHere))
      obtain ⟨s, sHere, sRom⟩ := roms _ _ (right _ (List.getElem_mem iBelow)).section_
      obtain ⟨t, tHere, tRom⟩ := roms _ _ (right _ (List.getElem_mem jBelow)).section_
      rw [Option.some.inj sameIndex, tHere] at sHere
      have differ := List.pairwise_iff_getElem.mp increasing i j iBelow jBelow less
      rw [← sRom, ← tRom, Option.some.inj sHere] at differ
      exact UInt32.lt_irrefl _ differ
  exact_ function member := by
    change function ∈ (list.contextFromRegeneratedList env.sectionEvent rom).functions at member
    rw [assembles.contextFunctions] at member
    obtain ⟨⟨part, index⟩, there, inside⟩ := List.mem_flatMap.mp member
    have here : parts[index]? = some part := List.mem_zipIdx_iff_getElem?.mp there
    obtain ⟨i, below, rfl⟩ := List.mem_mapIdx.mp inside
    have emitted := List.getElem_mem below
    have partRight := right part (List.mem_of_getElem? here)
    obtain ⟨section_, sectionHere, ram, relocs⟩ := assembles.contextSection here
    obtain ⟨entry, known, size⟩ := partRight.entries _ emitted
    obtain ⟨-, -, -, offset, -⟩ := getFuncEntry_some known
    refine ⟨section_, part.index, entry, sectionHere, originalSectionIndex assembles here, ?_, ?_⟩
    · rw [ram]
      simp only [RegeneratedList.functionOut, RegenSource.partSection, RegenSource.sectionOf,
        UInt32.add_comm (source.table.getSectionRamAddr part.index), UInt32.add_sub_cancel]
      exact known
    · rw [relocs, filter_content offset size, filter_content offset size,
        partRight.relocs _ (partRight.ranges _ emitted)]

end Context

end N64ModernRuntime.Librecomp
