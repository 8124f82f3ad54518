import N64ModernRuntime.Lib.JsonText
import N64ModernRuntime.Librecomp.FragmentTrust

/-!
# The text of the fragment manifest

`persist_fragment_manifest_locked` prints the candidates by hand, and
`load_fragment_manifest` reads them through a JSON library.  The library is a
parameter; what the candidates of the next session are is proved of its texts.
-/

set_option autoImplicit false

namespace N64ModernRuntime.Librecomp

open Numerals
open Transition (Reach)

/-! ## Printing -/

/-- `g_frag_cands`: a chain for each address, and the order in which the map is
gone through. -/
structure FragCandMap where
  chains : UInt32 → List FragmentCandidate
  keys : List UInt32
  keys_nodup : keys.Nodup
  covered : ∀ addr, chains addr ≠ [] → addr ∈ keys
  keyed : ∀ addr, ∀ c ∈ chains addr, c.addr = addr

def fragArchAbis : List String :=
  ["x86_64-win64", "x86_64-sysv", "aarch64-win64", "aarch64-sysv", "unknown-arch"]

def candidateText (c : FragmentCandidate) : List Char :=
  "    \x7b\"addr\": \"0x".toList ++ paddedHex 8 c.addr.toNat ++
    "\", \"content_hash\": \"0x".toList ++ paddedHex 16 c.contentHash.toNat ++
    "\", \"code_lo\": \"0x".toList ++ paddedHex 8 c.codeLo.toNat ++
    "\", \"code_len\": ".toList ++ decimal c.codeLen.toNat ++ "\x7d".toList

structure Printed where
  i : Nat
  text : List Char

def Printed.candidate (total : Nat) (p : Printed) (c : FragmentCandidate) : Printed :=
  let i := p.i + 1
  ⟨i, p.text ++ candidateText c ++ (if i < total then ",".toList else "".toList) ++ "\n".toList⟩

def Printed.chain (total : Nat) (p : Printed) (cands : List FragmentCandidate) : Printed :=
  cands.foldl (Printed.candidate total) p

def FragCandMap.total (m : FragCandMap) : Nat :=
  m.keys.foldl (fun total addr => total + (m.chains addr).length) 0

def FragCandMap.print (m : FragCandMap) : Printed :=
  m.keys.foldl (fun (p : Printed) addr => p.chain m.total (m.chains addr)) ⟨0, []⟩

/-- `none` where no file is written. -/
def persistFragmentManifest (cache : FragmentCache) (m : FragCandMap) : Option (List Char) :=
  if cache.fragCacheEnabled then
    some ("\x7b\n".toList ++
      "  \"format_ver\": ".toList ++ decimal fragManifestFormatVer.toNat ++ ",\n".toList ++
      "  \"codegen_ver\": ".toList ++ decimal fragCodegenVer.toNat ++ ",\n".toList ++
      "  \"arch_abi\": \"".toList ++ cache.archAbi.toList ++ "\",\n".toList ++
      "  \"candidates\": [\n".toList ++ m.print.text ++ "  ]\n\x7d\n".toList)
  else none

/-! ## Reading -/

/-- `j.value(key, 0u)`, where it does not throw -/
def valueUnsigned (j : Json) (key : String) : Option UInt32 :=
  match j.find key with
  | none => some 0
  | some (.unsigned n) => some n.toUInt32
  | some (.integer n) => some n.toUInt64.toUInt32
  | some (.float bits) => some (Float.ofBits bits).toUInt32
  | some (.boolean b) => some (if b then 1 else 0)
  | some _ => none

def valueString (j : Json) (key : String) : Option String :=
  match j.find key with
  | none => some ""
  | some (.string s) => some s
  | some _ => none

/-- `get_u64`; `none` gives the default. -/
def getU64 (e : Json) (key : String) : Option UInt64 :=
  match e.find key with
  | some (.string s) => some (strtoull s.toList)
  | some (.unsigned n) => some n
  | some (.integer n) => some n.toUInt64
  | _ => none

/-- What is not an object is skipped. -/
def manifestEntry (e : Json) : Option ManifestEntry :=
  match e with
  | .object _ =>
    some ⟨getU64 e "addr", getU64 e "content_hash", getU64 e "code_lo", getU64 e "code_len"⟩
  | _ => none

def fragmentManifest (j : Json) : Option FragmentManifest :=
  match j with
  | .object _ =>
    (valueUnsigned j "format_ver").bind fun formatVer =>
      (valueUnsigned j "codegen_ver").bind fun codegenVer =>
        (valueString j "arch_abi").bind fun archAbi =>
          match j.find "candidates" with
          | some (.array entries) =>
            some ⟨formatVer, codegenVer, archAbi, entries.filterMap manifestEntry⟩
          | _ => none
  | _ => none

/-- `load_fragment_manifest` on a file, `none` if there is none. -/
def loadManifestFile (parse : List Char → Option Json) (fragJitEnabled : Bool) (cache : FragmentCache)
    (file : Option (List Char)) (cands : UInt32 → List FragmentCandidate) :
    UInt32 → List FragmentCandidate :=
  if fragJitEnabled then
    match (file.bind parse).bind fragmentManifest with
    | some m => loadFragmentManifest cache m cands
    | none => cands
  else cands

/-! ## What is printed -/

/-- The string that stands for a number of up to `width` digits. -/
def hexJson (width n : Nat) : Json := .string (String.ofList ('0' :: 'x' :: paddedHex width n))

def candidateJson (c : FragmentCandidate) : Json :=
  .object [("addr", hexJson 8 c.addr.toNat), ("content_hash", hexJson 16 c.contentHash.toNat),
    ("code_lo", hexJson 8 c.codeLo.toNat), ("code_len", .unsigned c.codeLen.toUInt64)]

def manifestJson (archAbi : String) (cands : List FragmentCandidate) : Json :=
  .object [("format_ver", .unsigned fragManifestFormatVer.toUInt64),
    ("codegen_ver", .unsigned fragCodegenVer.toUInt64), ("arch_abi", .string archAbi),
    ("candidates", .array (cands.map candidateJson))]

def FragCandMap.all (m : FragCandMap) : List FragmentCandidate := m.keys.flatMap m.chains

def candidateLines : List FragmentCandidate → List Char
  | [] => []
  | [c] => candidateText c ++ "\n".toList
  | c :: d :: cands => candidateText c ++ ",\n".toList ++ candidateLines (d :: cands)

section Printing

variable {m : FragCandMap}

theorem total_eq : m.total = m.all.length := by
  have general : ∀ (keys : List UInt32) (n : Nat),
      keys.foldl (fun total addr => total + (m.chains addr).length) n =
        n + (keys.flatMap m.chains).length := by
    intro keys
    induction keys with
    | nil => intro n; rfl
    | cons addr keys ih =>
      intro n
      rw [List.foldl_cons, ih, List.flatMap_cons, List.length_append, Nat.add_assoc]
  rw [FragCandMap.total, general, Nat.zero_add, FragCandMap.all]

theorem chain_append (total : Nat) (p : Printed) (cands others : List FragmentCandidate) :
    p.chain total (cands ++ others) = (p.chain total cands).chain total others :=
  List.foldl_append

theorem printed_all (total : Nat) (keys : List UInt32) (p : Printed) :
    keys.foldl (fun p addr => p.chain total (m.chains addr)) p =
      p.chain total (keys.flatMap m.chains) := by
  induction keys generalizing p with
  | nil => rfl
  | cons addr keys ih => rw [List.foldl_cons, ih, List.flatMap_cons, chain_append]

/-- The comma is left out once the counter has reached the total. -/
theorem chain_text (cands : List FragmentCandidate) (p : Printed) :
    (p.chain (p.i + cands.length) cands).text = p.text ++ candidateLines cands := by
  induction cands generalizing p with
  | nil => exact (List.append_nil p.text).symm
  | cons c cands ih =>
    have next := ih (p.candidate (p.i + (c :: cands).length) c)
    have total : (p.candidate (p.i + (c :: cands).length) c).i + cands.length =
        p.i + (c :: cands).length := by
      change p.i + 1 + cands.length = p.i + (cands.length + 1)
      omega
    rw [total] at next
    rw [Printed.chain, List.foldl_cons, ← Printed.chain, next]
    cases cands with
    | nil =>
      rw [Printed.candidate, if_neg (by simp)]
      simp [candidateLines]
    | cons d cands =>
      rw [Printed.candidate, if_pos (by simp)]
      simp [candidateLines]

/-- Between the brackets stands one line for each candidate. -/
theorem persist_text (cache : FragmentCache) (enabled : cache.fragCacheEnabled = true) :
    persistFragmentManifest cache m = some ("\x7b\n".toList ++
      "  \"format_ver\": ".toList ++ decimal fragManifestFormatVer.toNat ++ ",\n".toList ++
      "  \"codegen_ver\": ".toList ++ decimal fragCodegenVer.toNat ++ ",\n".toList ++
      "  \"arch_abi\": \"".toList ++ cache.archAbi.toList ++ "\",\n".toList ++
      "  \"candidates\": [\n".toList ++ candidateLines m.all ++ "  ]\n\x7d\n".toList) := by
  have printed := chain_text m.all ⟨0, []⟩
  rw [Nat.zero_add, ← total_eq, List.nil_append] at printed
  rw [persistFragmentManifest, if_pos enabled, FragCandMap.print, printed_all, ← FragCandMap.all,
    printed]

end Printing

/-! ## The text denotes the candidates -/

theorem isPlain_of_digit {c : Char} (digit : (digitIn 16 c).isSome = true) : Json.isPlain c = true := by
  have some_value : (digitValue c).isSome = true := by
    cases value : digitValue c with
    | none => rw [digitIn, value] at digit; cases digit
    | some d => rfl
  have range : 0x30 ≤ c.toNat := by
    by_contra low
    rw [digitValue, if_neg, if_neg, if_neg] at some_value
    · cases some_value
    all_goals
      delta Char.isUpper Char.isLower Char.isDigit
      simp only [Bool.and_eq_true, decide_eq_true_eq, ge_iff_le, UInt32.le_iff_toNat_le]
      change ¬(_ ≤ c.toNat ∧ _)
      simp
      omega
  simp only [Json.isPlain, Bool.and_eq_true, bne_iff_ne, decide_eq_true_eq]
  refine ⟨⟨?_, ?_⟩, by omega⟩
  · rintro rfl
    exact absurd digit (by decide)
  · rintro rfl
    exact absurd digit (by decide)

theorem hexJson_value (Element : List Char → Json → Prop) (width n : Nat) :
    Json.Value Element ('"' :: ('0' :: 'x' :: paddedHex width n ++ ['"'])) (hexJson width n) := by
  refine Json.Value.string fun c mem => ?_
  rcases List.mem_cons.mp mem with rfl | mem
  · decide
  rcases List.mem_cons.mp mem with rfl | mem
  · decide
  · exact isPlain_of_digit (paddedHex_digits width n c mem)

theorem member_denotes {depth : Nat} {before text after : List Char} {j : Json} (key : String)
    (blank : Json.Blank before) (plain : Json.Plain key.toList)
    (value : Json.Value (Json.Denotes depth) text j) (blank' : Json.Blank after) :
    Json.Member (Json.Denotes (depth + 1))
      (before ++ '"' :: (key.toList ++ '"' :: ([] ++ ':' :: ([' '] ++ (text ++ after))))) (key, j) := by
  have none_blank : Json.Blank [] := fun c mem => by cases mem
  have element : Json.Denotes (depth + 1) ([' '] ++ (text ++ after)) j :=
    Json.Padded.mk (by decide) value blank'
  have member := Json.Member.mk blank plain none_blank element
  rw [String.ofList_toList] at member
  exact member

theorem candidate_denotes (c : FragmentCandidate) : ∃ text,
    candidateText c = "    ".toList ++ text ∧ Json.Value (Json.Denotes 1) text (candidateJson c) := by
  have none_blank : Json.Blank [] := fun c mem => by cases mem
  have space : Json.Blank [' '] := by decide
  have addr := member_denotes "addr" none_blank (by decide)
    (hexJson_value (Json.Denotes 0) 8 c.addr.toNat) none_blank
  have hash := member_denotes "content_hash" space (by decide)
    (hexJson_value (Json.Denotes 0) 16 c.contentHash.toNat) none_blank
  have lo := member_denotes "code_lo" space (by decide)
    (hexJson_value (Json.Denotes 0) 8 c.codeLo.toNat) none_blank
  have number : Json.Value (Json.Denotes 0) _ _ := .unsigned c.codeLen.toUInt64
  have len := member_denotes "code_len" space (by decide) number none_blank
  have object := Json.Value.object (.more addr (.more hash (.more lo (.one len))))
  refine ⟨_, ?_, object⟩
  unfold candidateText
  simp only [String.reduceToList, List.append_assoc, List.cons_append, List.nil_append,
    List.append_nil, UInt32.toNat_toUInt64]

theorem blank_append {before after : List Char} (blank : Json.Blank before) (blank' : Json.Blank after) :
    Json.Blank (before ++ after) :=
  fun c mem => (List.mem_append.mp mem).elim (blank c) (blank' c)

theorem line_denotes (c : FragmentCandidate) {before after : List Char} (blank : Json.Blank before)
    (blank' : Json.Blank after) :
    Json.Denotes 2 (before ++ (candidateText c ++ after)) (candidateJson c) := by
  obtain ⟨text, same, value⟩ := candidate_denotes c
  have padded := Json.Padded.mk (blank_append blank (by decide : Json.Blank "    ".toList)) value blank'
  rw [same, List.append_assoc, ← List.append_assoc]
  exact padded

theorem lines_denote (c : FragmentCandidate) (cands : List FragmentCandidate)
    {before after : List Char} (blank : Json.Blank before) (blank' : Json.Blank after) :
    Json.Separated (Json.Denotes 2) (before ++ (candidateLines (c :: cands) ++ after))
      ((c :: cands).map candidateJson) := by
  induction cands generalizing c before with
  | nil =>
    have last := line_denotes c blank (blank_append (by decide : Json.Blank "\n".toList) blank')
    rw [← List.append_assoc (candidateText c)] at last
    exact .one last
  | cons d cands ih =>
    have first := line_denotes c blank (by decide : Json.Blank [])
    have others := ih d (by decide : Json.Blank "\n".toList)
    have separated := Json.Separated.more first others
    rw [List.append_nil] at separated
    have shape : before ++ (candidateLines (c :: d :: cands) ++ after) =
        before ++ candidateText c ++ ',' :: ("\n".toList ++ (candidateLines (d :: cands) ++ after)) := by
      rw [candidateLines]
      simp only [String.reduceToList, List.append_assoc, List.cons_append, List.nil_append]
    rw [shape]
    exact separated

theorem array_denotes (cands : List FragmentCandidate) :
    Json.Value (Json.Denotes 2) ('[' :: ("\n".toList ++ (candidateLines cands ++ "  ".toList) ++ [']']))
      (.array (cands.map candidateJson)) := by
  cases cands with
  | nil => exact Json.Value.emptyArray (by decide)
  | cons c cands => exact .array (lines_denote c cands (by decide) (by decide))

theorem manifest_denotes {cache : FragmentCache} {m : FragCandMap} {text : List Char}
    (platform : cache.archAbi ∈ fragArchAbis) (written : persistFragmentManifest cache m = some text) :
    ∃ depth, Json.Denotes depth text (manifestJson cache.archAbi m.all) := by
  have enabled : cache.fragCacheEnabled = true := by
    by_contra off
    rw [persistFragmentManifest, if_neg off] at written
    cases written
  have plain : Json.Plain cache.archAbi.toList := by
    have every : ∀ abi ∈ fragArchAbis, Json.Plain abi.toList := by decide
    exact every cache.archAbi platform
  rw [persist_text cache enabled, Option.some.injEq] at written
  have none_blank : Json.Blank [] := fun c mem => by cases mem
  have indent : Json.Blank "\n  ".toList := by decide
  have format := member_denotes "format_ver" indent (by decide)
    (.unsigned fragManifestFormatVer.toUInt64 : Json.Value (Json.Denotes 2) _ _) none_blank
  have codegen := member_denotes "codegen_ver" indent (by decide)
    (.unsigned fragCodegenVer.toUInt64 : Json.Value (Json.Denotes 2) _ _) none_blank
  have abi := member_denotes "arch_abi" indent (by decide)
    (.string plain : Json.Value (Json.Denotes 2) _ _) none_blank
  have cands := member_denotes "candidates" indent (by decide) (array_denotes m.all)
    (by decide : Json.Blank "\n".toList)
  rw [String.ofList_toList] at abi
  have object := Json.Value.object (.more format (.more codegen (.more abi (.one cands))))
  refine ⟨4, ?_⟩
  have document : Json.Denotes 4 _ (manifestJson cache.archAbi m.all) :=
    Json.Padded.mk none_blank object (by decide : Json.Blank "\n".toList)
  rw [← written]
  convert document using 1
  simp only [String.reduceToList, List.append_assoc, List.cons_append, List.nil_append,
    List.append_nil, UInt32.toNat_toUInt64]

/-! ## What the next session has -/

/-- The candidate without what a session has found out about it. -/
def FragmentCandidate.reloaded (c : FragmentCandidate) : FragmentCandidate :=
  { c with fn := none, diffPasses := 0, deviceTouch := false, blacklisted := false }

def FragmentCandidate.entry (c : FragmentCandidate) : ManifestEntry :=
  ⟨some c.addr.toUInt64, some c.contentHash, some c.codeLo.toUInt64, some c.codeLen.toUInt64⟩

theorem entry_candidate (c : FragmentCandidate) : c.entry.candidate = c.reloaded := by
  simp only [ManifestEntry.candidate, FragmentCandidate.entry, Option.getD_some,
    UInt32.toUInt32_toUInt64, FragmentCandidate.reloaded]

theorem strtoull_word (width : Nat) (n : UInt32) :
    strtoull ('0' :: 'x' :: paddedHex width n.toNat) = n.toUInt64 := by
  rw [strtoull_paddedHex (Nat.lt_trans n.toNat_lt (by decide))]
  exact UInt64.toNat_inj.mp (by simp)

theorem manifestEntry_candidate (c : FragmentCandidate) :
    manifestEntry (candidateJson c) = some c.entry := by
  have addr : getU64 (candidateJson c) "addr" = some c.addr.toUInt64 := by
    have found : (candidateJson c).find "addr" = some (hexJson 8 c.addr.toNat) := rfl
    simp only [getU64, found, hexJson, String.toList_ofList, strtoull_word]
  have hash : getU64 (candidateJson c) "content_hash" = some c.contentHash := by
    have found : (candidateJson c).find "content_hash" = some (hexJson 16 c.contentHash.toNat) := rfl
    simp only [getU64, found, hexJson, String.toList_ofList, strtoull_paddedHex c.contentHash.toNat_lt,
      UInt64.ofNat_toNat]
  have lo : getU64 (candidateJson c) "code_lo" = some c.codeLo.toUInt64 := by
    have found : (candidateJson c).find "code_lo" = some (hexJson 8 c.codeLo.toNat) := rfl
    simp only [getU64, found, hexJson, String.toList_ofList, strtoull_word]
  have len : getU64 (candidateJson c) "code_len" = some c.codeLen.toUInt64 := rfl
  rw [candidateJson] at addr hash lo len ⊢
  rw [manifestEntry, addr, hash, lo, len]
  rfl

theorem fragmentManifest_json (archAbi : String) (cands : List FragmentCandidate) :
    fragmentManifest (manifestJson archAbi cands) =
      some ⟨fragManifestFormatVer, fragCodegenVer, archAbi, cands.map FragmentCandidate.entry⟩ := by
  have entries : (cands.map candidateJson).filterMap manifestEntry =
      cands.map FragmentCandidate.entry := by
    rw [List.filterMap_map]
    have each : (manifestEntry ∘ candidateJson) = some ∘ FragmentCandidate.entry :=
      funext manifestEntry_candidate
    rw [each, List.filterMap_eq_map]
  rw [← entries]
  rfl

structure Loads (cands : UInt32 → List FragmentCandidate) (c : FragmentCandidate) : Prop where
  addr : c.addr ≠ 0
  codeLen : c.codeLen ≠ 0
  contentHash : c.contentHash ≠ 0
  new : hasHash c.contentHash (cands c.addr) = false

theorem loadCandidate_new {cands : UInt32 → List FragmentCandidate} {c : FragmentCandidate}
    (loads : Loads cands c) (addr : UInt32) :
    loadCandidate cands c addr = cands addr ++ [c].filter fun c => decide (c.addr = addr) := by
  rw [loadCandidate, if_neg, if_neg]
  · by_cases here : c.addr = addr
    · subst here
      simp
    · rw [Function.update_of_ne (Ne.symm here)]
      simp [here]
  · rw [loads.new]
    decide
  · rintro (zero | zero | zero)
    · exact loads.addr zero
    · exact loads.codeLen zero
    · exact loads.contentHash zero

theorem loadCandidates_new (new : List FragmentCandidate) (cands : UInt32 → List FragmentCandidate)
    (loads : ∀ c ∈ new, Loads cands c)
    (distinct : new.Pairwise fun c d => c.addr = d.addr → c.contentHash ≠ d.contentHash)
    (addr : UInt32) :
    new.foldl loadCandidate cands addr =
      cands addr ++ new.filter fun c => decide (c.addr = addr) := by
  induction new generalizing cands with
  | nil => exact (List.append_nil _).symm
  | cons c new ih =>
    obtain ⟨apart, distinct⟩ := List.pairwise_cons.mp distinct
    have added := loadCandidate_new (loads c List.mem_cons_self)
    have still : ∀ d ∈ new, Loads (loadCandidate cands c) d := by
      intro d mem
      have before := loads d (List.mem_cons_of_mem _ mem)
      refine ⟨before.addr, before.codeLen, before.contentHash, ?_⟩
      have old := before.new
      rw [hasHash, List.any_eq_false] at old
      rw [hasHash, List.any_eq_false, added]
      intro c' mem'
      rcases List.mem_append.mp mem' with mem' | mem'
      · exact old c' mem'
      · obtain ⟨mem', same⟩ := List.mem_filter.mp mem'
        rw [List.mem_singleton.mp mem'] at same ⊢
        rw [decide_eq_true_eq]
        exact apart d mem (of_decide_eq_true same)
    rw [List.foldl_cons, ih _ still distinct, added, List.append_assoc, ← List.filter_append,
      List.singleton_append]

/-! ## The chains of a tier are those of a map -/

namespace FragTier

variable {table : SectionTable} {ε : Type} {env : HealEnv table ε} {cache : FragmentCache} {s t : FragTier}

structure Keyed (s : FragTier) : Prop where
  chains : ∀ addr, ∀ c ∈ s.fragCands addr, c.addr = addr
  pushing : ∀ d ∈ s.dispatches, ∀ c, d.pc = .pushing c → c.addr = d.faddr

theorem updateByHash_addr {hash : UInt64} {change : FragmentCandidate → FragmentCandidate}
    (keeps : ∀ c, (change c).addr = c.addr) {addr : UInt32} {cands : List FragmentCandidate}
    (keyed : ∀ c ∈ cands, c.addr = addr) : ∀ c ∈ updateByHash hash change cands, c.addr = addr := by
  induction cands with
  | nil =>
    intro c mem
    cases mem
  | cons first cands ih =>
    obtain ⟨here, later⟩ := List.forall_mem_cons.mp keyed
    intro c mem
    rw [updateByHash] at mem
    split_ifs at mem
    · rcases List.mem_cons.mp mem with rfl | mem
      · exact (keeps first).trans here
      · exact later c mem
    · rcases List.mem_cons.mp mem with rfl | mem
      · exact here
      · exact ih later c mem

theorem turn_addr {faddr : UInt32} {cands : List FragmentCandidate} {pc : DispatchPc} {m : DispatchMove}
    (turn : DispatchTurn env faddr cands pc m) (pushing : ∀ c, pc = .pushing c → c.addr = faddr)
    (keyed : ∀ c ∈ cands, c.addr = faddr) : ∀ c ∈ m.cands, c.addr = faddr := by
  cases turn with
  | pushes new =>
    intro c mem
    rcases List.mem_append.mp mem with mem | mem
    · exact keyed c mem
    · rw [List.mem_singleton.mp mem]
      exact pushing new rfl
  | attaches live fn _ =>
    refine updateByHash_addr (fun c => ?_) keyed
    rfl
  | pins live _ =>
    refine updateByHash_addr (fun c => ?_) keyed
    rfl
  | applies hash o =>
    refine updateByHash_addr (fun c => ?_) keyed
    unfold FragmentCandidate.applyOutcome
    split_ifs <;> rfl
  | _ => exact keyed

theorem move_addr {reads : DispatchReads table ε} {faddr : UInt32} {cands : List FragmentCandidate}
    {pc : DispatchPc} {m : DispatchMove} {c : FragmentCandidate}
    (move : dispatchMove env reads faddr cands pc = some m) (pushing : m.pc = .pushing c) :
    c.addr = faddr := by
  have turn := dispatchMove_turn move
  cases pc with
  | discovering =>
    rw [dispatchMove, Option.some.injEq, discoverMove] at move
    cases found : discoverCandidate env reads faddr with
    | none =>
      rw [found] at move
      subst move
      cases pushing
    | some new =>
      rw [found] at move
      subst move
      cases pushing
      obtain ⟨size, -, rfl⟩ := Option.map_eq_some_iff.mp found
      rfl
  | _ =>
    cases turn <;>
      first
      | cases pushing
      | (unfold afterLookup at pushing
         dsimp only at pushing
         split_ifs at pushing)

theorem loadCandidate_addr {cands : UInt32 → List FragmentCandidate} {new : FragmentCandidate}
    (keyed : ∀ addr, ∀ c ∈ cands addr, c.addr = addr) :
    ∀ addr, ∀ c ∈ loadCandidate cands new addr, c.addr = addr := by
  intro addr c mem
  unfold loadCandidate at mem
  split_ifs at mem
  · exact keyed addr c mem
  · exact keyed addr c mem
  · by_cases here : addr = new.addr
    · subst here
      rw [Function.update_self] at mem
      rcases List.mem_append.mp mem with mem | mem
      · exact keyed _ c mem
      · rw [List.mem_singleton.mp mem]
    · rw [Function.update_of_ne here] at mem
      exact keyed addr c mem

theorem Keyed.step (keyed : s.Keyed) {l : TierLabel table ε} (taken : s.step env cache l = some t) :
    t.Keyed := by
  cases l with
  | loadManifest m =>
    obtain ⟨-, same⟩ := Option.ite_none_right_eq_some.mp taken
    cases same
    refine ⟨?_, keyed.pushing⟩
    change ∀ addr, ∀ c ∈ loadFragmentManifest cache m s.fragCands addr, c.addr = addr
    unfold loadFragmentManifest
    split_ifs
    · generalize m.candidates.map ManifestEntry.candidate = new
      have chains := keyed.chains
      revert chains
      generalize s.fragCands = cands
      intro chains
      induction new generalizing cands with
      | nil => exact chains
      | cons c new ih => exact ih _ (loadCandidate_addr chains)
    · exact keyed.chains
  | enter faddr shadowActive =>
    obtain ⟨-, same⟩ := Option.ite_none_right_eq_some.mp taken
    cases same
    refine ⟨keyed.chains, fun d mem c pushing => ?_⟩
    rcases List.mem_append.mp mem with old | new
    · exact keyed.pushing d old c pushing
    · rw [List.mem_singleton.mp new] at pushing
      cases pushing
  | next i reads =>
    obtain ⟨d, at_i, moves⟩ := Option.bind_eq_some_iff.mp taken
    obtain ⟨m, move, same⟩ := Option.map_eq_some_iff.mp moves
    cases same
    have mem := List.mem_of_getElem? at_i
    constructor
    · intro addr
      by_cases here : addr = d.faddr
      · subst here
        rw [moved_cands_self]
        exact turn_addr (dispatchMove_turn move) (keyed.pushing d mem) (keyed.chains d.faddr)
      · rw [moved_cands_other here]
        exact keyed.chains addr
    · intro d' mem' c pushing
      rcases CleanStreak.mem_set_cases mem' with old | new
      · exact keyed.pushing d' old c pushing
      · subst new
        exact move_addr move pushing

/-- Every session's chains, with an order of their addresses, make a map that can be printed. -/
theorem keyed_run (reached : Reach (FragTier.step env cache) Transition.Always Started s) : s.Keyed := by
  refine reached.invariant (fun s started => ⟨fun addr c mem => ?_, fun d mem => ?_⟩)
    fun _ _ _ keyed _ taken => keyed.step taken
  · rw [started.fragCands] at mem
    cases mem
  · rw [started.dispatches] at mem
    cases mem

end FragTier

section RoundTrip

variable {m : FragCandMap}

theorem filter_flatMap {keys : List UInt32} (nodup : keys.Nodup) (addr : UInt32) :
    (keys.flatMap m.chains).filter (fun c => decide (c.addr = addr)) =
      if addr ∈ keys then m.chains addr else [] := by
  induction keys with
  | nil => rfl
  | cons key keys ih =>
    obtain ⟨fresh, nodup⟩ := List.nodup_cons.mp nodup
    rw [List.flatMap_cons, List.filter_append, ih nodup]
    by_cases here : key = addr
    · subst here
      rw [if_neg fresh, if_pos List.mem_cons_self, List.append_nil, List.filter_eq_self]
      exact fun c mem => decide_eq_true (m.keyed key c mem)
    · have others : (m.chains key).filter (fun c => decide (c.addr = addr)) = [] := by
        rw [List.filter_eq_nil_iff]
        intro c mem
        rw [m.keyed key c mem, decide_eq_true_eq]
        exact here
      have same : addr ∈ key :: keys ↔ addr ∈ keys := by
        rw [List.mem_cons, or_iff_right (Ne.symm here)]
      rw [others, List.nil_append]
      simp only [same]

theorem filter_all (addr : UInt32) :
    m.all.filter (fun c => decide (c.addr = addr)) = m.chains addr := by
  rw [FragCandMap.all, filter_flatMap m.keys_nodup]
  split_ifs with known
  · rfl
  · by_contra filled
    exact known (m.covered addr fun empty => filled empty.symm)

theorem all_distinct (distinct : ∀ addr, ((m.chains addr).map FragmentCandidate.contentHash).Nodup) :
    m.all.Pairwise fun c d => c.addr = d.addr → c.contentHash ≠ d.contentHash := by
  rw [FragCandMap.all, List.pairwise_flatMap]
  constructor
  · intro addr _
    have apart := List.pairwise_map.mp (distinct addr)
    refine apart.imp fun {c d} differ _ => ?_
    exact differ
  · refine m.keys_nodup.imp fun {key key'} differ c mem d mem' same => ?_
    rw [m.keyed key c mem, m.keyed key' d mem'] at same
    exact absurd same differ

/-- The candidates that a session persists are those the next one starts with. -/
theorem fragment_manifest_round_trip (parse : List Char → Option Json) (reads : Json.Reads parse)
    (cache : FragmentCache) (enabled : cache.fragCacheEnabled = true)
    (platform : cache.archAbi ∈ fragArchAbis) (m : FragCandMap)
    (filled : ∀ addr, ∀ c ∈ m.chains addr, c.addr ≠ 0 ∧ c.codeLen ≠ 0 ∧ c.contentHash ≠ 0)
    (distinct : ∀ addr, ((m.chains addr).map FragmentCandidate.contentHash).Nodup) :
    ∃ text, persistFragmentManifest cache m = some text ∧
      ∀ addr, loadManifestFile parse true cache (some text) (fun _ => []) addr =
        (m.chains addr).map FragmentCandidate.reloaded := by
  have written := persist_text (m := m) cache enabled
  refine ⟨_, written, fun addr => ?_⟩
  obtain ⟨depth, denotes⟩ := manifest_denotes platform written
  have candidates : (m.all.map FragmentCandidate.entry).map ManifestEntry.candidate =
      m.all.map FragmentCandidate.reloaded := by
    rw [List.map_map]
    exact List.map_congr_left fun c _ => entry_candidate c
  have loads : ∀ c ∈ m.all.map FragmentCandidate.reloaded, Loads (fun _ => []) c := by
    intro c mem
    obtain ⟨c', mem', rfl⟩ := List.mem_map.mp mem
    obtain ⟨key, -, held⟩ := List.mem_flatMap.mp mem'
    obtain ⟨addr, len, hash⟩ := filled key c' held
    exact ⟨addr, len, hash, rfl⟩
  have apart : (m.all.map FragmentCandidate.reloaded).Pairwise
      fun c d => c.addr = d.addr → c.contentHash ≠ d.contentHash :=
    List.pairwise_map.mpr (all_distinct distinct)
  have tags : (cache.fragCacheEnabled && fragManifestFormatVer == fragManifestFormatVer &&
      fragCodegenVer == fragCodegenVer && cache.archAbi == cache.archAbi) = true := by
    simp [enabled]
  rw [loadManifestFile, if_pos rfl, Option.bind_some, reads depth _ _ denotes, Option.bind_some,
    fragmentManifest_json]
  change loadFragmentManifest cache _ _ addr = _
  rw [loadFragmentManifest, if_pos tags, candidates, loadCandidates_new _ _ loads apart,
    List.nil_append, List.filter_map]
  congr 1
  exact filter_all addr

end RoundTrip

def twoContents : FragCandMap where
  chains := Function.update (fun _ => []) 0x80400000
    [⟨0x80400000, 0x1, 0x80400000, 8, none, 0, true, false⟩,
      ⟨0x80400000, 0xCBF29CE484222325, 0x80400000, 0x40, none, 16, false, false⟩]
  keys := [0x80400000]
  keys_nodup := by decide
  covered addr filled := by
    by_contra other
    rw [List.mem_singleton] at other
    exact filled (Function.update_of_ne other _ _)
  keyed addr c mem := by
    by_cases here : addr = 0x80400000
    · subst here
      rw [Function.update_self] at mem
      revert mem
      revert c
      decide
    · rw [Function.update_of_ne here] at mem
      cases mem

theorem fragment_manifest_round_trip_two :
    ∃ text, persistFragmentManifest ⟨true, "x86_64-sysv"⟩ twoContents = some text ∧
      loadManifestFile Json.parse true ⟨true, "x86_64-sysv"⟩ (some text) (fun _ => []) 0x80400000 =
        [⟨0x80400000, 0x1, 0x80400000, 8, none, 0, false, false⟩,
          ⟨0x80400000, 0xCBF29CE484222325, 0x80400000, 0x40, none, 0, false, false⟩] := by
  have at_address {P : List FragmentCandidate → Prop} (here : P (twoContents.chains 0x80400000))
      (empty : P []) : ∀ addr, P (twoContents.chains addr) := by
    intro addr
    by_cases same : addr = 0x80400000
    · subst same
      exact here
    · have other : twoContents.chains addr = [] := by
        change Function.update (fun _ => []) _ _ addr = []
        rw [Function.update_of_ne same]
      rw [other]
      exact empty
  obtain ⟨text, written, loaded⟩ := fragment_manifest_round_trip Json.parse Json.parse_reads
    ⟨true, "x86_64-sysv"⟩ rfl (by decide) twoContents
    (at_address (P := fun cands => ∀ c ∈ cands, c.addr ≠ 0 ∧ c.codeLen ≠ 0 ∧ c.contentHash ≠ 0)
      (by decide) (by decide))
    (at_address (P := fun cands => (cands.map FragmentCandidate.contentHash).Nodup)
      (by decide) (by decide))
  exact ⟨text, written, loaded 0x80400000⟩

end N64ModernRuntime.Librecomp
