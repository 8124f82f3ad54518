import N64ModernRuntime.Lib.IntrusiveList
import N64ModernRuntime.Lib.SwappedWords

/-!
# audio_uaf_protect.cpp: silencing the voices of a list

The walk over the intrusive voice lists of the synth, in memory that the guest may
have corrupted.  A walk keeps the nodes that it visits.  The counts are unbounded
here; the messages, the voice ring and the fields of the layout that only the ring
reads are left out.
-/

set_option autoImplicit false

namespace N64ModernRuntime.Librecomp.AudioUaf

open SwappedWords IntrusiveList

structure VoiceLayout where
  nSynVarVaddr : BitVec 32
  allocListOffset : BitVec 32
  lameListOffset : BitVec 32
  voiceEmMotionOffset : BitVec 32
  voiceDcTableOffset : BitVec 32
  voiceEmMotionStoppedValue : BitVec 32
  maxVoiceCount : BitVec 32

/-- The `State` behind `state()`. -/
structure UafState where
  registered : Bool
  layout : VoiceLayout

abbrev Rdram := HostBytes 32

def kSkipList : BitVec 32 := 0xFFFFFFFF

def InRdramKseg0 (vaddr : BitVec 32) : Prop := 0x80000000#32 ≤ vaddr ∧ vaddr < 0x80800000#32

instance (vaddr : BitVec 32) : Decidable (InRdramKseg0 vaddr) :=
  inferInstanceAs (Decidable (_ ∧ _))

def toPaddr (vaddr : BitVec 32) : BitVec 32 := vaddr &&& 0x1FFFFFFF#32

def loadBe32 (rdram : Rdram) (paddr : BitVec 32) : BitVec 32 := rdram.bigWord paddr

def storeBe32 (rdram : Rdram) (paddr val : BitVec 32) : Rdram := rdram.setBigWord paddr val

def resolveSynth (st : UafState) (rdram : Rdram) : BitVec 32 :=
  if st.registered = false then 0
  else if ¬InRdramKseg0 st.layout.nSynVarVaddr then 0
  else
    let synthV := loadBe32 rdram (toPaddr st.layout.nSynVarVaddr)
    if ¬InRdramKseg0 synthV then 0 else synthV

/-! ## The walk -/

/-- What a visitor does at a node: whether it marks the node as silenced, and the memory after. -/
abbrev Visit := BitVec 32 → Rdram → Bool × Rdram

structure Walk where
  rdram : Rdram
  silenced : Nat
  visited : List (BitVec 32)

/-- The loop of `walk_list`, with the number of nodes that it may still visit. -/
def walkFrom (visit : Visit) (listHeadV : BitVec 32) : Nat → BitVec 32 → Walk → Walk
  | 0, _, walk => walk
  | iters + 1, nodeV, walk =>
      if nodeV ≠ listHeadV ∧ InRdramKseg0 nodeV then
        let after := visit nodeV walk.rdram
        walkFrom visit listHeadV iters (loadBe32 after.2 (toPaddr nodeV))
          { rdram := after.2
            silenced := walk.silenced + (if after.1 then 1 else 0)
            visited := walk.visited ++ [nodeV] }
      else walk

def walkList (visit : Visit) (rdram : Rdram) (synthV listOffset maxVoices : BitVec 32) : Walk :=
  if listOffset = kSkipList then ⟨rdram, 0, []⟩
  else
    let listHeadV := synthV + listOffset
    if ¬InRdramKseg0 listHeadV then ⟨rdram, 0, []⟩
    else
      walkFrom visit listHeadV maxVoices.toNat (loadBe32 rdram (toPaddr listHeadV)) ⟨rdram, 0, []⟩

/-! ## The silencers -/

/-- The place of `em_motion` in a voice. -/
def emMotion (layout : VoiceLayout) (voiceV : BitVec 32) : BitVec 32 :=
  toPaddr voiceV + layout.voiceEmMotionOffset

/-- `dc_table` of the voice lies in `[start, end)`. -/
def dcTableInRange (layout : VoiceLayout) (startVaddr endVaddr : BitVec 32) (rdram : Rdram)
    (voiceV : BitVec 32) : Bool :=
  let dcTable := loadBe32 rdram (toPaddr voiceV + layout.voiceDcTableOffset)
  decide (startVaddr ≤ dcTable ∧ dcTable < endVaddr)

/-- Both visitors: the voices that pass a test are stopped. -/
def stopVoice (layout : VoiceLayout) (test : Rdram → BitVec 32 → Bool) : Visit :=
  fun voiceV rdram =>
    if test rdram voiceV then
      (true, storeBe32 rdram (emMotion layout voiceV) layout.voiceEmMotionStoppedValue)
    else (false, rdram)

/-- The returned number, the memory, and what was visited on the two lists. -/
structure Silencing where
  result : Int
  rdram : Rdram
  allocVisited : List (BitVec 32)
  lameVisited : List (BitVec 32)

def silenceLists (st : UafState) (rdram : Rdram) (test : Rdram → BitVec 32 → Bool) : Silencing :=
  let synthV := resolveSynth st rdram
  if synthV = 0 then ⟨-1, rdram, [], []⟩
  else
    let visit := stopVoice st.layout test
    let alloc := walkList visit rdram synthV st.layout.allocListOffset st.layout.maxVoiceCount
    let lame := walkList visit alloc.rdram synthV st.layout.lameListOffset st.layout.maxVoiceCount
    ⟨(alloc.silenced + lame.silenced : Nat), lame.rdram, alloc.visited, lame.visited⟩

def silenceVoicesInRange (st : UafState) (rdram : Rdram) (startVaddr endVaddr : BitVec 32) :
    Silencing :=
  if endVaddr ≤ startVaddr then ⟨0, rdram, [], []⟩
  else silenceLists st rdram (dcTableInRange st.layout startVaddr endVaddr)

def silenceAllVoices (st : UafState) (rdram : Rdram) : Silencing :=
  silenceLists st rdram fun _ _ => true

/-! ## Any memory -/

section Bounds

variable (visit : Visit) (listHeadV : BitVec 32)

/-- The loop visits no more nodes than it is given, and only nodes inside RDRAM. -/
theorem walkFrom_bounded (iters : Nat) (nodeV : BitVec 32) (walk : Walk) :
    ∃ more, (walkFrom visit listHeadV iters nodeV walk).visited = walk.visited ++ more ∧
      more.length ≤ iters ∧ ∀ v ∈ more, InRdramKseg0 v := by
  induction iters generalizing nodeV walk with
  | zero => exact ⟨[], (List.append_nil _).symm, Nat.le_refl 0, fun v mem => absurd mem List.not_mem_nil⟩
  | succ iters ih =>
      rw [walkFrom]
      split
      · rename_i enters
        obtain ⟨more, visited, few, inside⟩ := ih (loadBe32 (visit nodeV walk.rdram).2 (toPaddr nodeV))
          { rdram := (visit nodeV walk.rdram).2
            silenced := walk.silenced + (if (visit nodeV walk.rdram).1 then 1 else 0)
            visited := walk.visited ++ [nodeV] }
        refine ⟨nodeV :: more, ?_, Nat.succ_le_succ few, ?_⟩
        · rw [visited, List.append_assoc, List.singleton_append]
        · intro v mem
          rcases List.mem_cons.mp mem with rfl | later
          · exact enters.2
          · exact inside v later
      · exact ⟨[], (List.append_nil _).symm, Nat.zero_le _, fun v mem => absurd mem List.not_mem_nil⟩

theorem walkList_bounded (rdram : Rdram) (synthV listOffset maxVoices : BitVec 32) :
    (walkList visit rdram synthV listOffset maxVoices).visited.length ≤ maxVoices.toNat ∧
      ∀ v ∈ (walkList visit rdram synthV listOffset maxVoices).visited, InRdramKseg0 v := by
  have none : ([] : List (BitVec 32)).length ≤ maxVoices.toNat ∧
      ∀ v ∈ ([] : List (BitVec 32)), InRdramKseg0 v :=
    ⟨Nat.zero_le _, fun v mem => absurd mem List.not_mem_nil⟩
  unfold walkList
  split
  · exact none
  · dsimp only
    split
    · exact none
    · obtain ⟨more, visited, few, inside⟩ := walkFrom_bounded visit (synthV + listOffset)
        maxVoices.toNat (loadBe32 rdram (toPaddr (synthV + listOffset))) ⟨rdram, 0, []⟩
      rw [visited, List.nil_append]
      exact ⟨few, inside⟩

theorem silenceLists_bounded (st : UafState) (rdram : Rdram) (test : Rdram → BitVec 32 → Bool) :
    (silenceLists st rdram test).allocVisited.length ≤ st.layout.maxVoiceCount.toNat ∧
      (silenceLists st rdram test).lameVisited.length ≤ st.layout.maxVoiceCount.toNat ∧
      ∀ v ∈ (silenceLists st rdram test).allocVisited ++ (silenceLists st rdram test).lameVisited,
        InRdramKseg0 v := by
  unfold silenceLists
  dsimp only
  split
  · exact ⟨Nat.zero_le _, Nat.zero_le _, fun v mem => absurd mem List.not_mem_nil⟩
  · have alloc := walkList_bounded (stopVoice st.layout test) rdram (resolveSynth st rdram)
      st.layout.allocListOffset st.layout.maxVoiceCount
    have lame := walkList_bounded (stopVoice st.layout test)
      (walkList (stopVoice st.layout test) rdram (resolveSynth st rdram)
        st.layout.allocListOffset st.layout.maxVoiceCount).rdram (resolveSynth st rdram)
      st.layout.lameListOffset st.layout.maxVoiceCount
    refine ⟨alloc.1, lame.1, fun v mem => ?_⟩
    rcases List.mem_append.mp mem with first | second
    · exact alloc.2 v first
    · exact lame.2 v second

end Bounds

/-! ## Voices in memory -/

section Geometry

variable (layout : VoiceLayout) (size : Nat)

/-- The link, `em_motion` and `dc_table` are members of a struct of `size` bytes, the link at
its start and `em_motion` behind it. -/
structure VoiceStruct : Prop where
  emBehindLink : 4 ≤ layout.voiceEmMotionOffset.toNat
  emInside : layout.voiceEmMotionOffset.toNat + 4 ≤ size
  dcInside : layout.voiceDcTableOffset.toNat + 4 ≤ size

def base (voiceV : BitVec 32) : Nat := (toPaddr voiceV).toNat

def InsideRdram (voiceV : BitVec 32) : Prop :=
  InRdramKseg0 voiceV ∧ base voiceV + size ≤ 0x800000

def Separate (u v : BitVec 32) : Prop := base u + size ≤ base v ∨ base v + size ≤ base u

def HeadApart (headV v : BitVec 32) : Prop := base headV + 4 ≤ base v ∨ base v + size ≤ base headV

/-- Memory outside the voices, but with their links: what silencing them must not change. -/
def Outside (voices : List (BitVec 32)) (x : BitVec 32) : Prop :=
  ∀ v ∈ voices, x.toNat < base v + 4 ∨ base v + size ≤ x.toNat

variable (test : Rdram → BitVec 32 → Bool)

/-- `after` is `before` with the voices that pass the test stopped, and no other byte changed. -/
structure SilencedIn (before after : Rdram) (voices : List (BitVec 32)) : Prop where
  stopped : ∀ v ∈ voices, test before v = true →
    loadBe32 after (emMotion layout v) = layout.voiceEmMotionStoppedValue
  others : ∀ x, (∀ v ∈ voices, test before v = true → ∀ j < 4,
    x ≠ emMotion layout v + BitVec.ofNat 32 j) → after.byte x = before.byte x

def ReadsStruct : Prop :=
  ∀ (before after : Rdram) (v : BitVec 32), InsideRdram size v →
    (∀ x : BitVec 32, base v ≤ x.toNat → x.toNat < base v + size → after.byte x = before.byte x) →
    test after v = test before v

variable {layout size test} {before middle after : Rdram}

theorem toNat_add_offset {v offset : BitVec 32} {j : Nat} (inside : InsideRdram size v)
    (member : offset.toNat + 4 ≤ size) (small : j < 4) :
    (toPaddr v + offset + BitVec.ofNat 32 j).toNat = base v + offset.toNat + j := by
  have fits := inside.2
  unfold base at fits ⊢
  rw [BitVec.toNat_add, BitVec.toNat_add, BitVec.toNat_ofNat]
  omega

theorem loadBe32_member {v offset : BitVec 32} (inside : InsideRdram size v)
    (member : offset.toNat + 4 ≤ size)
    (same : ∀ x : BitVec 32, base v + offset.toNat ≤ x.toNat → x.toNat < base v + offset.toNat + 4 →
      after.byte x = before.byte x) :
    loadBe32 after (toPaddr v + offset) = loadBe32 before (toPaddr v + offset) := by
  apply HostBytes.bigWord_congr
  intro j small
  have place := toNat_add_offset inside member small
  exact same _ (by omega) (by omega)

theorem loadBe32_link (v : BitVec 32)
    (same : ∀ x : BitVec 32, base v ≤ x.toNat → x.toNat < base v + 4 →
      after.byte x = before.byte x) :
    loadBe32 after (toPaddr v) = loadBe32 before (toPaddr v) := by
  apply HostBytes.bigWord_congr
  intro j small
  have physical : (toPaddr v).toNat < 2 ^ 29 := by
    rw [toPaddr, BitVec.toNat_and]
    exact Nat.lt_of_le_of_lt Nat.and_le_right (by decide)
  have place : (toPaddr v + BitVec.ofNat 32 j).toNat = base v + j := by
    unfold base
    rw [BitVec.toNat_add, BitVec.toNat_ofNat]
    omega
  exact same _ (by omega) (by omega)

theorem dcTableInRange_readsStruct (struct : VoiceStruct layout size) (startVaddr endVaddr : BitVec 32) :
    ReadsStruct size (dcTableInRange layout startVaddr endVaddr) := by
  intro before after v inside same
  have member := struct.dcInside
  unfold dcTableInRange
  rw [loadBe32_member inside member fun x low high => same x (by omega) (by omega)]

theorem stopVoice_fst (test : Rdram → BitVec 32 → Bool) (v : BitVec 32) (before : Rdram) :
    (stopVoice layout test v before).1 = test before v := by
  unfold stopVoice
  cases test before v with
  | true => rfl
  | false => rfl

namespace SilencedIn

theorem nil : SilencedIn layout test before before [] where
  stopped _ mem := absurd mem List.not_mem_nil
  others _ _ := rfl

theorem outside {voices : List (BitVec 32)} (silenced : SilencedIn layout test before after voices)
    (struct : VoiceStruct layout size) (inside : ∀ v ∈ voices, InsideRdram size v) {x : BitVec 32}
    (away : Outside size voices x) : after.byte x = before.byte x := by
  apply silenced.others
  rintro v mem - j small rfl
  have place := toNat_add_offset (inside v mem) struct.emInside small
  have behind := struct.emBehindLink
  have member := struct.emInside
  have apart := away v mem
  rw [emMotion, place] at apart
  omega

theorem single (test : Rdram → BitVec 32 → Bool) (before : Rdram) (v : BitVec 32) :
    SilencedIn layout test before (stopVoice layout test v before).2 [v] := by
  unfold stopVoice
  by_cases hit : test before v = true
  · rw [if_pos hit]
    constructor
    · intro u mem _
      rw [List.mem_singleton.mp mem]
      exact HostBytes.bigWord_setBigWord (by decide) _
    · intro x away
      exact HostBytes.byte_setBigWord_frame _ (away v List.mem_cons_self hit)
  · rw [if_neg hit]
    constructor
    · intro u mem pass
      rw [List.mem_singleton.mp mem] at pass
      exact absurd pass hit
    · intro x _
      rfl

theorem append {first second : List (BitVec 32)} (struct : VoiceStruct layout size)
    (one : SilencedIn layout test before middle first)
    (two : SilencedIn layout test middle after second)
    (same : ∀ u ∈ second, test middle u = test before u)
    (inside : ∀ v ∈ first, InsideRdram size v) (inside' : ∀ u ∈ second, InsideRdram size u)
    (separate : ∀ v ∈ first, ∀ u ∈ second, Separate size v u) :
    SilencedIn layout test before after (first ++ second) where
  stopped v mem hit := by
    rcases List.mem_append.mp mem with early | late
    · rw [← one.stopped v early hit]
      apply loadBe32_member (inside v early) struct.emInside
      intro x low high
      apply two.outside struct inside'
      intro u mem'
      have apart := separate v early u mem'
      have member := struct.emInside
      unfold Separate at apart
      omega
    · exact two.stopped v late ((same v late).trans hit)
  others x away := by
    have early := one.others x fun v mem => away v (List.mem_append_left _ mem)
    rw [← early]
    apply two.others
    intro u mem hit
    exact away u (List.mem_append_right _ mem) ((same u mem).symm.trans hit)

variable {voices : List (BitVec 32)} (silenced : SilencedIn layout test before after voices)
  (struct : VoiceStruct layout size) (inside : ∀ v ∈ voices, InsideRdram size v)

include silenced struct inside

theorem test_eq (reads : ReadsStruct size test) {u : BitVec 32} (here : InsideRdram size u)
    (separate : ∀ v ∈ voices, Separate size v u) : test after u = test before u := by
  apply reads before after u here
  intro x low high
  apply silenced.outside struct inside
  intro v mem
  have apart := separate v mem
  unfold Separate at apart
  omega

theorem link_eq {u : BitVec 32} (apart : ∀ v ∈ voices, u = v ∨ HeadApart size u v) :
    loadBe32 after (toPaddr u) = loadBe32 before (toPaddr u) := by
  apply loadBe32_link
  intro x low high
  apply silenced.outside struct inside
  intro v mem
  rcases apart v mem with rfl | away
  · exact Or.inl high
  · unfold HeadApart at away
    omega

end SilencedIn

theorem Separate.headApart {u v : BitVec 32} (struct : VoiceStruct layout size)
    (separate : Separate size v u) : HeadApart size u v := by
  have member := struct.emInside
  unfold Separate at separate
  unfold HeadApart
  omega

def next (rdram : Rdram) (v : BitVec 32) : BitVec 32 := loadBe32 rdram (toPaddr v)

/-- A visit leaves the link of its voice, and all that is read of voices apart from it. -/
theorem stopVoice_keeps (before : Rdram) (struct : VoiceStruct layout size)
    (reads : ReadsStruct size test) {v : BitVec 32} (here : InsideRdram size v) {rest : List (BitVec 32)}
    (inside : ∀ u ∈ rest, InsideRdram size u) (apart : ∀ u ∈ rest, Separate size v u) :
    (∀ u ∈ v :: rest, next (stopVoice layout test v before).2 u = next before u) ∧
      ∀ u ∈ rest, test (stopVoice layout test v before).2 u = test before u := by
  have one : SilencedIn layout test before _ [v] := SilencedIn.single test before v
  have alone : ∀ u ∈ [v], InsideRdram size u := fun u mem => List.mem_singleton.mp mem ▸ here
  refine ⟨fun u mem => ?_, fun u mem => ?_⟩
  · apply one.link_eq struct alone
    intro w only
    rw [List.mem_singleton.mp only]
    rcases List.mem_cons.mp mem with same | later
    · exact Or.inl same
    · exact Or.inr ((apart u later).headApart struct)
  · apply one.test_eq struct alone reads (inside u mem)
    intro w only
    rw [List.mem_singleton.mp only]
    exact apart u mem

/-- The walk along a circular list silences its voices and comes back to the head. -/
theorem walkFrom_links {headV : BitVec 32} (struct : VoiceStruct layout size)
    (reads : ReadsStruct size test) (nodes : List (BitVec 32)) :
    ∀ (before : Rdram) (nodeV : BitVec 32) (iters silenced : Nat) (visited : List (BitVec 32)),
      nodes.length ≤ iters → Links (next before) headV nodeV nodes →
      (∀ v ∈ nodes, InsideRdram size v) → nodes.Pairwise (Separate size) →
      ∃ after, walkFrom (stopVoice layout test) headV iters nodeV ⟨before, silenced, visited⟩ =
          ⟨after, silenced + nodes.countP (test before), visited ++ nodes⟩ ∧
        SilencedIn layout test before after nodes := by
  induction nodes with
  | nil =>
      intro before nodeV iters silenced visited _ linked _ _
      have back : nodeV = headV := linked
      refine ⟨before, ?_, SilencedIn.nil⟩
      rw [List.append_nil, List.countP_nil, Nat.add_zero]
      cases iters with
      | zero => rfl
      | succ iters => rw [walkFrom, if_neg fun enters => enters.1 back]
  | cons v rest ih =>
      intro before nodeV iters silenced visited few linked inside separate
      obtain ⟨rfl, other, linked⟩ := linked
      obtain ⟨iters, rfl⟩ : ∃ n, iters = n + 1 := by
        cases iters with
        | zero => exact absurd few (Nat.not_succ_le_zero _)
        | succ n => exact ⟨n, rfl⟩
      obtain ⟨apart, separate⟩ := List.pairwise_cons.mp separate
      have here := inside nodeV List.mem_cons_self
      have inside' : ∀ u ∈ rest, InsideRdram size u :=
        fun u mem => inside u (List.mem_cons_of_mem _ mem)
      obtain ⟨links, tests⟩ := stopVoice_keeps before struct reads here inside' apart
      have linked' : Links (next (stopVoice layout test nodeV before).2) headV
          (loadBe32 (stopVoice layout test nodeV before).2 (toPaddr nodeV)) rest := by
        have link := links nodeV List.mem_cons_self
        unfold next at link
        rw [link]
        exact links_congr (fun u mem => links u (List.mem_cons_of_mem _ mem)) linked
      obtain ⟨after, run, two⟩ := ih (stopVoice layout test nodeV before).2 _ iters
        (silenced + if (stopVoice layout test nodeV before).1 then 1 else 0) (visited ++ [nodeV])
        (Nat.le_of_succ_le_succ few) linked' inside' separate
      refine ⟨after, ?_, ?_⟩
      · rw [walkFrom, if_pos ⟨other, here.1⟩]
        dsimp only
        rw [run, List.append_assoc, List.singleton_append, List.countP_cons, stopVoice_fst,
          List.countP_congr fun u mem => by rw [tests u mem]]
        congr 1
        omega
      · have one : SilencedIn layout test before _ [nodeV] := SilencedIn.single test before nodeV
        apply one.append struct two tests (fun v only => List.mem_singleton.mp only ▸ here) inside'
        intro v only u mem
        rw [List.mem_singleton.mp only]
        exact apart u mem

theorem voices_fit {voices : List (BitVec 32)} (inside : ∀ v ∈ voices, InsideRdram size v)
    (separate : voices.Pairwise (Separate size)) : voices.length * size ≤ 0x800000 := by
  have alone : (voices.flatMap fun v => List.range' (base v) size).Nodup := by
    rw [List.nodup_flatMap]
    refine ⟨fun v _ => List.nodup_range', separate.imp ?_⟩
    intro u v apart x first second
    rw [List.mem_range'_1] at first second
    unfold Separate at apart
    omega
  have within : (voices.flatMap fun v => List.range' (base v) size) ⊆ List.range 0x800000 := by
    intro x mem
    obtain ⟨v, listed, covered⟩ := List.mem_flatMap.mp mem
    rw [List.mem_range'_1] at covered
    have fits := (inside v listed).2
    rw [List.mem_range]
    omega
  have few := (List.subperm_of_subset alone within).length_le
  rw [List.length_range, List.length_flatMap] at few
  simpa using few

end Geometry

/-! ## Circular lists -/

structure CircularList (rdram : Rdram) (headV maxVoices : BitVec 32) (nodes : List (BitVec 32)) :
    Prop where
  headInside : InRdramKseg0 headV
  linked : Links (next rdram) headV (next rdram headV) nodes
  few : nodes.length ≤ maxVoices.toNat

/-- The list of the synth at an offset; one that the layout skips is empty. -/
def ListAt (rdram : Rdram) (synthV listOffset maxVoices : BitVec 32) (nodes : List (BitVec 32)) :
    Prop :=
  if listOffset = kSkipList then nodes = []
  else CircularList rdram (synthV + listOffset) maxVoices nodes

/-- The two lists of the synth: circular, inside RDRAM, and without a byte in common. -/
structure VoiceLists (st : UafState) (size : Nat) (rdram : Rdram) (alloc lame : List (BitVec 32)) :
    Prop where
  registered : st.registered = true
  struct : VoiceStruct st.layout size
  synVar : InRdramKseg0 st.layout.nSynVarVaddr
  synth : InRdramKseg0 (loadBe32 rdram (toPaddr st.layout.nSynVarVaddr))
  allocAt : ListAt rdram (loadBe32 rdram (toPaddr st.layout.nSynVarVaddr))
    st.layout.allocListOffset st.layout.maxVoiceCount alloc
  lameAt : ListAt rdram (loadBe32 rdram (toPaddr st.layout.nSynVarVaddr))
    st.layout.lameListOffset st.layout.maxVoiceCount lame
  inside : ∀ v ∈ alloc ++ lame, InsideRdram size v
  separate : (alloc ++ lame).Pairwise (Separate size)
  headApart : st.layout.lameListOffset ≠ kSkipList → ∀ v ∈ alloc, HeadApart size
    (loadBe32 rdram (toPaddr st.layout.nSynVarVaddr) + st.layout.lameListOffset) v

section Lists

variable {layout : VoiceLayout} {st : UafState} {size : Nat} {test : Rdram → BitVec 32 → Bool}
  {before after rdram : Rdram} {synthV listOffset maxVoices : BitVec 32}
  {alloc lame nodes voices : List (BitVec 32)}

theorem ListAt.silenced (here : ListAt before synthV listOffset maxVoices nodes)
    (silenced : SilencedIn layout test before after voices) (struct : VoiceStruct layout size)
    (inside : ∀ v ∈ voices, InsideRdram size v)
    (headApart : listOffset ≠ kSkipList → ∀ v ∈ voices, HeadApart size (synthV + listOffset) v)
    (separate : ∀ v ∈ voices, ∀ u ∈ nodes, Separate size v u) :
    ListAt after synthV listOffset maxVoices nodes := by
  unfold ListAt at here ⊢
  by_cases skipped : listOffset = kSkipList
  · rwa [if_pos skipped] at here ⊢
  · rw [if_neg skipped] at here ⊢
    have head : next after (synthV + listOffset) = next before (synthV + listOffset) :=
      silenced.link_eq struct inside fun v mem => Or.inr (headApart skipped v mem)
    refine ⟨here.headInside, ?_, here.few⟩
    rw [head]
    refine links_congr (fun u mem => ?_) here.linked
    exact silenced.link_eq struct inside fun v listed =>
      Or.inr ((separate v listed u mem).headApart struct)

theorem walkList_listAt (here : ListAt before synthV listOffset maxVoices nodes)
    (struct : VoiceStruct layout size) (reads : ReadsStruct size test)
    (inside : ∀ v ∈ nodes, InsideRdram size v) (separate : nodes.Pairwise (Separate size)) :
    ∃ after, walkList (stopVoice layout test) before synthV listOffset maxVoices =
        ⟨after, nodes.countP (test before), nodes⟩ ∧
      SilencedIn layout test before after nodes := by
  unfold ListAt at here
  unfold walkList
  by_cases skipped : listOffset = kSkipList
  · rw [if_pos skipped] at here ⊢
    rw [here]
    exact ⟨before, rfl, SilencedIn.nil⟩
  · rw [if_neg skipped] at here ⊢
    obtain ⟨after, run, silenced⟩ := walkFrom_links struct reads nodes before
      (next before (synthV + listOffset)) maxVoices.toNat 0 [] here.few here.linked inside separate
    rw [Nat.zero_add, List.nil_append] at run
    refine ⟨after, ?_, silenced⟩
    dsimp only
    rw [if_neg (not_not_intro here.headInside)]
    exact run

namespace VoiceLists

variable (lists : VoiceLists st size rdram alloc lame)

include lists

theorem resolveSynth_eq :
    resolveSynth st rdram = loadBe32 rdram (toPaddr st.layout.nSynVarVaddr) := by
  unfold resolveSynth
  dsimp only
  rw [if_neg (by rw [lists.registered]; decide), if_neg (not_not_intro lists.synVar),
    if_neg (not_not_intro lists.synth)]

theorem resolveSynth_ne : resolveSynth st rdram ≠ 0 := by
  intro none
  have inside := lists.synth
  rw [← lists.resolveSynth_eq, none] at inside
  exact absurd inside (by decide)

theorem silenceLists (reads : ReadsStruct size test) :
    ∃ after, AudioUaf.silenceLists st rdram test =
        ⟨((alloc ++ lame).countP (test rdram) : Nat), after, alloc, lame⟩ ∧
      SilencedIn st.layout test rdram after (alloc ++ lame) := by
  obtain ⟨separateAlloc, separateLame, across⟩ := List.pairwise_append.mp lists.separate
  have insideAlloc : ∀ v ∈ alloc, InsideRdram size v :=
    fun v mem => lists.inside v (List.mem_append_left _ mem)
  have insideLame : ∀ v ∈ lame, InsideRdram size v :=
    fun v mem => lists.inside v (List.mem_append_right _ mem)
  obtain ⟨middle, first, one⟩ :=
    walkList_listAt lists.allocAt lists.struct reads insideAlloc separateAlloc
  have lameAt := lists.lameAt.silenced one lists.struct insideAlloc lists.headApart across
  obtain ⟨after, second, two⟩ :=
    walkList_listAt lameAt lists.struct reads insideLame separateLame
  have same : ∀ u ∈ lame, test middle u = test rdram u := fun u mem =>
    one.test_eq lists.struct insideAlloc reads (insideLame u mem) fun v listed => across v listed u mem
  have counted : lame.countP (test middle) = lame.countP (test rdram) :=
    List.countP_congr fun u mem => by rw [same u mem]
  refine ⟨after, ?_, one.append lists.struct two same insideAlloc insideLame across⟩
  unfold AudioUaf.silenceLists
  dsimp only
  rw [if_neg lists.resolveSynth_ne, lists.resolveSynth_eq, first]
  dsimp only
  rw [second, List.countP_append, counted]

theorem result_lt (reads : ReadsStruct size test) :
    (AudioUaf.silenceLists st rdram test).result < 0x80000000 := by
  obtain ⟨after, run, -⟩ := lists.silenceLists reads
  have fits := voices_fit lists.inside lists.separate
  have behind := lists.struct.emBehindLink
  have member := lists.struct.emInside
  have all : (alloc ++ lame).length * 8 ≤ 0x800000 :=
    Nat.le_trans (Nat.mul_le_mul_left _ (by omega)) fits
  have counted := List.countP_le_length (p := test rdram) (l := alloc ++ lame)
  rw [run]
  change ((List.countP (test rdram) (alloc ++ lame) : Nat) : Int) < _
  omega

end VoiceLists

end Lists

/-! ## The silencers of a range and of all voices -/

theorem dcTableInRange_empty (layout : VoiceLayout) {startVaddr endVaddr : BitVec 32}
    (empty : endVaddr ≤ startVaddr) (rdram : Rdram) (v : BitVec 32) :
    dcTableInRange layout startVaddr endVaddr rdram v = false := by
  apply decide_eq_false
  rintro ⟨low, high⟩
  bv_omega

/-- On well-formed lists, exactly the listed voices in the range are stopped and counted; on any
memory, the walks are bounded and stay inside RDRAM. -/
theorem voices_silenced (st : UafState) (startVaddr endVaddr : BitVec 32) :
    (∀ (size : Nat) (rdram : Rdram) (alloc lame : List (BitVec 32)),
      VoiceLists st size rdram alloc lame →
        SilencedIn st.layout (dcTableInRange st.layout startVaddr endVaddr) rdram
            (silenceVoicesInRange st rdram startVaddr endVaddr).rdram (alloc ++ lame) ∧
          (silenceVoicesInRange st rdram startVaddr endVaddr).result =
            ((alloc ++ lame).countP (dcTableInRange st.layout startVaddr endVaddr rdram) : Nat)) ∧
      ∀ rdram : Rdram,
        (silenceVoicesInRange st rdram startVaddr endVaddr).allocVisited.length ≤
            st.layout.maxVoiceCount.toNat ∧
          (silenceVoicesInRange st rdram startVaddr endVaddr).lameVisited.length ≤
            st.layout.maxVoiceCount.toNat ∧
          ∀ v ∈ (silenceVoicesInRange st rdram startVaddr endVaddr).allocVisited ++
              (silenceVoicesInRange st rdram startVaddr endVaddr).lameVisited, InRdramKseg0 v := by
  by_cases empty : endVaddr ≤ startVaddr
  · have misses := dcTableInRange_empty st.layout empty
    have nothing (rdram : Rdram) :
        silenceVoicesInRange st rdram startVaddr endVaddr = ⟨0, rdram, [], []⟩ := if_pos empty
    refine ⟨fun size rdram alloc lame _ => ?_, fun rdram => ?_⟩
    · rw [nothing, List.countP_eq_zero.mpr fun v _ => by rw [misses]; decide]
      refine ⟨⟨fun v _ hit => ?_, fun _ _ => rfl⟩, rfl⟩
      exact absurd ((misses rdram v).symm.trans hit) (by decide)
    · rw [nothing]
      exact ⟨Nat.zero_le _, Nat.zero_le _, fun v mem => absurd mem List.not_mem_nil⟩
  · have walks (rdram : Rdram) : silenceVoicesInRange st rdram startVaddr endVaddr =
        silenceLists st rdram (dcTableInRange st.layout startVaddr endVaddr) := if_neg empty
    refine ⟨fun size rdram alloc lame lists => ?_, fun rdram => ?_⟩
    · obtain ⟨after, run, silenced⟩ :=
        lists.silenceLists (dcTableInRange_readsStruct lists.struct startVaddr endVaddr)
      rw [walks, run]
      exact ⟨silenced, rfl⟩
    · rw [walks]
      exact silenceLists_bounded st rdram _

theorem first_voice_silenced :
    let st : UafState := ⟨true, ⟨0x80000010, 0x0C, 0x14, 0x08, 0x10, 0, 4⟩⟩
    let rdram : Rdram := [(0x010, 0x80000100), (0x10C, 0x80000200), (0x200, 0x8000010C),
      (0x208, 1), (0x210, 0x80001000), (0x114, 0x80000300), (0x300, 0x80000114), (0x308, 1),
      (0x310, 0x80002000)].foldl (fun m word => storeBe32 m word.1 word.2) fun _ => 0
    SilencedIn st.layout (dcTableInRange st.layout 0x80001000 0x80002000) rdram
        (silenceVoicesInRange st rdram 0x80001000 0x80002000).rdram [0x80000200, 0x80000300] ∧
      (silenceVoicesInRange st rdram 0x80001000 0x80002000).result = 1 := by
  intro st rdram
  have synthV : loadBe32 rdram (toPaddr st.layout.nSynVarVaddr) = 0x80000100 := by decide +kernel
  have lists : VoiceLists st 0x20 rdram [0x80000200] [0x80000300] := by
    refine ⟨rfl, ⟨by decide, by decide, by decide⟩, by decide, ?_, ?_, ?_, ?_, ?_, ?_⟩
    · rw [synthV]
      decide
    · rw [synthV]
      exact ⟨by decide, ⟨by decide +kernel, by decide, by unfold Links; decide +kernel⟩, by decide⟩
    · rw [synthV]
      exact ⟨by decide, ⟨by decide +kernel, by decide, by unfold Links; decide +kernel⟩, by decide⟩
    · intro v mem
      rcases List.mem_pair.mp mem with rfl | rfl
      · exact ⟨by decide, by decide⟩
      · exact ⟨by decide, by decide⟩
    · exact List.pairwise_pair.mpr (Or.inl (by decide))
    · rw [synthV]
      intro _ v mem
      rw [List.mem_singleton.mp mem]
      exact Or.inl (by decide)
  have silenced := (voices_silenced st 0x80001000 0x80002000).1 0x20 rdram _ _ lists
  exact ⟨silenced.1, silenced.2.trans (by decide +kernel)⟩

/-- Every listed voice is stopped, and their number is returned. -/
theorem all_voices_silenced {st : UafState} {size : Nat} {rdram : Rdram}
    {alloc lame : List (BitVec 32)} (lists : VoiceLists st size rdram alloc lame) :
    (∀ v ∈ alloc ++ lame, loadBe32 (silenceAllVoices st rdram).rdram (emMotion st.layout v) =
        st.layout.voiceEmMotionStoppedValue) ∧
      (silenceAllVoices st rdram).result = (alloc ++ lame).length := by
  have reads : ReadsStruct size fun _ _ => true := fun _ _ _ _ _ => rfl
  obtain ⟨after, run, silenced⟩ := lists.silenceLists reads
  rw [silenceAllVoices, run, List.countP_true]
  exact ⟨fun v mem => silenced.stopped v mem rfl, rfl⟩

end N64ModernRuntime.Librecomp.AudioUaf
