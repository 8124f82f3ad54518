import N64ModernRuntime.Librecomp.Fragments

/-!
# overlays.cpp: what the helpers write into `func_map` and erase from it

Each helper seen at one address: what it leaves there, and where it comes from.
-/

set_option autoImplicit false

namespace N64ModernRuntime.Librecomp

open AddressMap

variable {table : SectionTable}

section Aliases
variable {section_ : SectionTableEntry} {runtimeBase offset a : UInt32} {funcs : List FuncEntry}
  {funcMap : FuncMap} {f : RecompFunc}

theorem mem_linkAliases : a ∈ section_.linkAliases runtimeBase offset ↔
    section_.ramAddr ≠ runtimeBase ∧ a = section_.ramAddr + offset ∨
      ∃ base, section_.originalFragmentBase = some base ∧ a = base + offset := by
  simp only [SectionTableEntry.linkAliases, List.mem_append, List.mem_map, Option.mem_toList]
  constructor
  · rintro (link | ⟨base, known, rfl⟩)
    · split at link
      · exact .inl ⟨‹_›, List.mem_singleton.mp link⟩
      · contradiction
    · exact .inr ⟨base, known, rfl⟩
  · rintro (⟨moved, rfl⟩ | ⟨base, known, rfl⟩)
    · left
      rw [if_pos moved]
      exact List.mem_singleton_self _
    · exact .inr ⟨base, known, rfl⟩

theorem mem_aliases : a ∈ section_.aliases runtimeBase offset ↔
    a = runtimeBase + offset ∨ a = section_.ramAddr + offset ∨
      ∃ base, section_.originalFragmentBase = some base ∧ a = base + offset := by
  rw [SectionTableEntry.aliases, List.mem_cons, mem_linkAliases]
  constructor
  · rintro (own | ⟨_, link⟩ | original)
    · exact .inl own
    · exact .inr (.inl link)
    · exact .inr (.inr original)
  · rintro (own | link | original)
    · exact .inl own
    · by_cases moved : section_.ramAddr = runtimeBase
      · rw [moved] at link
        exact .inl link
      · exact .inr (.inl ⟨moved, link⟩)
    · exact .inr (.inr original)

theorem installAliases_some (found : funcs.foldl (installSectionFuncAliases section_ runtimeBase)
    funcMap a = some f) :
    (∃ func ∈ funcs, func.func = some f ∧ a ∈ section_.aliases runtimeBase func.offset) ∨
      funcMap a = some f := by
  induction funcs generalizing funcMap with
  | nil => exact .inr found
  | cons func rest ih =>
      rcases ih found with ⟨other, member, known⟩ | before
      · exact .inl ⟨other, List.mem_cons_of_mem _ member, known⟩
      · unfold installSectionFuncAliases at before
        cases known : func.func with
        | none =>
            rw [known] at before
            exact .inr before
        | some g =>
            rw [known] at before
            rcases insertAll_some before with ⟨alias_, rfl⟩ | ⟨_, before⟩
            · exact .inl ⟨func, List.mem_cons_self .., known, alias_⟩
            · exact .inr before

theorem eraseAliases_some (left : funcs.foldl (eraseSectionFuncAliases section_ runtimeBase)
    funcMap a = some f) :
    funcMap a = some f ∧
      ∀ func ∈ funcs, func.func ≠ none → a ∉ section_.aliases runtimeBase func.offset := by
  induction funcs generalizing funcMap with
  | nil => exact ⟨left, fun _ none => (List.not_mem_nil none).elim⟩
  | cons func rest ih =>
      obtain ⟨before, others⟩ := ih left
      unfold eraseSectionFuncAliases at before
      cases known : func.func with
      | none =>
          rw [known] at before
          refine ⟨before, fun other member some => ?_⟩
          rcases List.mem_cons.mp member with rfl | member
          · exact absurd known some
          · exact others other member some
      | some g =>
          rw [known] at before
          obtain ⟨outside, before⟩ := eraseAll_some before
          refine ⟨before, fun other member some => ?_⟩
          rcases List.mem_cons.mp member with rfl | member
          · exact outside
          · exact others other member some

theorem eraseSlots_some {offsets : List UInt32}
    (left : offsets.foldl (eraseFragmentSlotAliases section_ runtimeBase) funcMap a = some f) :
    funcMap a = some f ∧ ∀ offset ∈ offsets, a ∉ section_.aliases runtimeBase offset := by
  induction offsets generalizing funcMap with
  | nil => exact ⟨left, fun _ none => (List.not_mem_nil none).elim⟩
  | cons offset rest ih =>
      obtain ⟨before, others⟩ := ih left
      obtain ⟨outside, before⟩ := eraseAll_some before
      refine ⟨before, fun other member => ?_⟩
      rcases List.mem_cons.mp member with rfl | member
      · exact outside
      · exact others other member

theorem fragRangeErase_some {range : Range} (left : fragRangeErase funcMap range a = some f) :
    funcMap a = some f ∧ ¬ (range.lo ≤ a ∧ a < range.lo + range.len) := by
  unfold fragRangeErase at left
  split at left
  · rename_i empty
    refine ⟨left, ?_⟩
    rw [empty, UInt32.add_zero]
    exact fun between => UInt32.not_lt.mpr between.1 between.2
  · obtain ⟨outside, before⟩ := eraseBetween_some left
    exact ⟨before, outside⟩

theorem installSectionFuncAliases_other {func : FuncEntry}
    (outside : a ∉ section_.aliases runtimeBase func.offset) :
    installSectionFuncAliases section_ runtimeBase funcMap func a = funcMap a := by
  unfold installSectionFuncAliases
  cases func.func with
  | none => rfl
  | some f => exact insertAll_other outside

/-- An address that is an alias of nothing else leads to `f` when `f` has been installed. -/
theorem installAliases_own
    (only : ∀ func ∈ funcs, ∀ g, func.func = some g →
      a ∈ section_.aliases runtimeBase func.offset → g = f)
    (given : (∃ func ∈ funcs, func.func = some f ∧ a ∈ section_.aliases runtimeBase func.offset) ∨
      funcMap a = some f) :
    funcs.foldl (installSectionFuncAliases section_ runtimeBase) funcMap a = some f := by
  induction funcs generalizing funcMap with
  | nil =>
      rcases given with ⟨func, none, _⟩ | before
      · exact (List.not_mem_nil none).elim
      · exact before
  | cons func rest ih =>
      refine ih (fun other member => only other (List.mem_cons_of_mem _ member)) ?_
      by_cases alias_ : a ∈ section_.aliases runtimeBase func.offset
      · cases known : func.func with
        | some g =>
            right
            rw [installSectionFuncAliases, known, ← only func (List.mem_cons_self ..) g known alias_]
            exact insertAll_mem alias_
        | none =>
            rcases given with ⟨other, member, installed, alias'⟩ | before
            · rcases List.mem_cons.mp member with rfl | member
              · rw [known] at installed
                contradiction
              · exact .inl ⟨other, member, installed, alias'⟩
            · right
              rw [installSectionFuncAliases, known]
              exact before
      · rcases given with ⟨other, member, installed, alias'⟩ | before
        · rcases List.mem_cons.mp member with rfl | member
          · contradiction
          · exact .inl ⟨other, member, installed, alias'⟩
        · right
          rw [installSectionFuncAliases_other alias_]
          exact before

theorem installAliases_other
    (outside : ∀ func ∈ funcs, a ∉ section_.aliases runtimeBase func.offset) :
    funcs.foldl (installSectionFuncAliases section_ runtimeBase) funcMap a = funcMap a := by
  induction funcs generalizing funcMap with
  | nil => rfl
  | cons func rest ih =>
      rw [List.foldl_cons, ih fun other member => outside other (List.mem_cons_of_mem _ member)]
      exact installSectionFuncAliases_other (outside func (List.mem_cons_self ..))

theorem eraseAliases_other
    (outside : ∀ func ∈ funcs, a ∉ section_.aliases runtimeBase func.offset) :
    funcs.foldl (eraseSectionFuncAliases section_ runtimeBase) funcMap a = funcMap a := by
  induction funcs generalizing funcMap with
  | nil => rfl
  | cons func rest ih =>
      rw [List.foldl_cons, ih fun other member => outside other (List.mem_cons_of_mem _ member)]
      unfold eraseSectionFuncAliases
      cases func.func with
      | none => rfl
      | some g => exact eraseAll_other (outside func (List.mem_cons_self ..))

theorem eraseSlots_other {offsets : List UInt32}
    (outside : ∀ offset ∈ offsets, a ∉ section_.aliases runtimeBase offset) :
    offsets.foldl (eraseFragmentSlotAliases section_ runtimeBase) funcMap a = funcMap a := by
  induction offsets generalizing funcMap with
  | nil => rfl
  | cons offset rest ih =>
      rw [List.foldl_cons, ih fun other member => outside other (List.mem_cons_of_mem _ member)]
      exact eraseAll_other (outside offset (List.mem_cons_self ..))

theorem fragRangeErase_other {range : Range} (outside : ¬ range.Contains a) :
    fragRangeErase funcMap range a = funcMap a := by
  unfold fragRangeErase
  split
  · rfl
  · exact if_neg fun between => outside (contains_of_between between)

end Aliases

theorem supersede_other {s : Overlays table} {id fragmentPtr a : UInt32}
    (outside : ∀ range, s.supersededRange id fragmentPtr = some range → ¬ range.Contains a) :
    (s.supersede id fragmentPtr).funcMap a = s.funcMap a := by
  unfold Overlays.supersede
  dsimp only
  cases known : s.supersededRange id fragmentPtr with
  | none => rfl
  | some range => exact fragRangeErase_other (outside range known)

theorem supersede_some {s : Overlays table} {id fragmentPtr a : UInt32} {f : RecompFunc}
    (left : (s.supersede id fragmentPtr).funcMap a = some f) :
    s.funcMap a = some f ∧ ∀ range, s.supersededRange id fragmentPtr = some range →
      ¬ (range.lo ≤ a ∧ a < range.lo + range.len) := by
  unfold Overlays.supersede at left
  dsimp only at left
  cases known : s.supersededRange id fragmentPtr with
  | none =>
      rw [known] at left
      exact ⟨left, fun range some => nomatch some⟩
  | some range =>
      rw [known] at left
      obtain ⟨before, outside⟩ := fragRangeErase_some left
      refine ⟨before, fun range' same => ?_⟩
      rw [← Option.some.inj same]
      exact outside

end N64ModernRuntime.Librecomp
