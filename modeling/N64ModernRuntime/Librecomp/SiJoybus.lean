import N64ModernRuntime.Lib.CheckedBuffer
import N64ModernRuntime.Librecomp.TransferPak

/-!
# si_joybus.cpp: the frames of a PIF command block

`run_joybus` over the copy of the block, every index of which is checked here:
a load or store outside the 64 bytes ends the run with that index.  The copies
between RDRAM and the block and the trace are left out.
-/

set_option autoImplicit false

namespace N64ModernRuntime.Librecomp.SiJoybus

open CheckedBuffer GbCart

abbrev Block := Vector UInt8 64

def joyInfo : UInt8 := 0x00

def joyState : UInt8 := 0x01

def joyRead : UInt8 := 0x02

def joyWrite : UInt8 := 0x03

def rxNoDevice : UInt8 := 0x80

/-- `data_crc`, with the bits of each byte from the highest on and eight zero bits at the end. -/
def dataCrc (data : List UInt8) : UInt8 :=
  let shift (crc : UInt32) (bit : Bool) : UInt32 :=
    let xorv : UInt32 := if crc &&& 0x80 ≠ 0 then 0x85 else 0
    ((crc <<< 1) ||| (if bit then 1 else 0)) ^^^ xorv
  let bits := data.flatMap fun byte =>
    [0x80, 0x40, 0x20, 0x10, 0x08, 0x04, 0x02, 0x01].map fun mask : UInt8 =>
      decide (byte &&& mask ≠ 0)
  ((bits ++ List.replicate 8 false).foldl shift 0).toUInt8

structure Frame where
  start : Nat
  chan : Nat
  tx : Nat
  rx : Nat
  inBlock : start + 2 + tx + rx ≤ 64
  deriving DecidableEq, Repr

def Frame.cmdI (f : Frame) : Nat := f.start + 2

def Frame.rxI (f : Frame) : Nat := f.start + 2 + f.tx

def Frame.next (f : Frame) : Nat := f.rxI + f.rx

inductive Head where
  | stop
  | skip (chan position : Nat)
  | frame (f : Frame)

/-- The tests of the loop before the command byte. -/
def headAt (blk : Block) (chan p : Nat) : Head :=
  if inside : p < 63 then
    let t := blk[p]
    if t = 0xFE then .stop
    else if t = 0xFF then .skip chan (p + 1)
    else if t = 0x00 then .skip (chan + 1) (p + 1)
    else if t = 0xFD then .skip chan (p + 1)
    else
      let tx := (t &&& 0x3F).toNat
      let rx := (blk[p + 1] &&& 0x3F).toNat
      if fits : p + 2 + tx + rx ≤ 64 then
        if 3 < chan then .skip (chan + 1) (p + 2 + tx + rx)
        else .frame ⟨p, chan, tx, rx, fits⟩
      else .stop
  else .stop

/-- A read or write command that got to the cartridge of a port. -/
structure PakUse where
  write : Bool
  tx : Nat
  deriving DecidableEq, Repr

structure Joybus where
  blk : Block
  ports : Ports
  pakUses : List PakUse := []

namespace Joybus

def load (s : Joybus) (i : Nat) : Except Nat UInt8 :=
  if inside : i < 64 then .ok s.blk[i] else .error i

def store (s : Joybus) (writes : List (Nat × UInt8)) : Except Nat Joybus :=
  match writeAll s.blk writes with
  | .ok blk => .ok { s with blk := blk }
  | .error i => .error i

def noDevice (s : Joybus) (f : Frame) : Except Nat Joybus := do
  let length ← s.load (f.start + 1)
  s.store [(f.start + 1, length ||| rxNoDevice)]

def address (s : Joybus) (f : Frame) : Except Nat UInt16 := do
  let high ← s.load (f.cmdI + 1)
  let low ← s.load (f.cmdI + 2)
  return (high.toUInt16 <<< 8) ||| low.toUInt16

def info (s : Joybus) (f : Frame) : Except Nat Joybus :=
  if 3 ≤ f.rx then
    s.store [(f.rxI, 0x05), (f.rxI + 1, 0x00),
      (f.rxI + 2, if hasPak s.ports f.chan then 0x01 else 0x00)]
  else .ok s

def logged (s : Joybus) (ret : Int) (use : PakUse) : Joybus :=
  if ret = 0 then { s with pakUses := s.pakUses ++ [use] } else s

def readCommand (s : Joybus) (f : Frame) : Except Nat Joybus := do
  let addr ← s.address f
  let block := readBlock s.ports f.chan (addr >>> 5)
  let s := ({ s with ports := block.2.2 } : Joybus).logged block.1 ⟨false, f.tx⟩
  if block.1 = 0 ∧ 33 ≤ f.rx then
    s.store ((block.2.1.zipIdx.map fun byte => (f.rxI + byte.2, byte.1)) ++
      [(f.rxI + 32, dataCrc block.2.1)])
  else s.noDevice f

def writeCommand (s : Joybus) (f : Frame) : Except Nat Joybus := do
  let addr ← s.address f
  let data ← readAll s.blk ((List.range 32).map fun i => f.cmdI + 3 + i)
  let block := writeBlock s.ports f.chan (addr >>> 5) data
  let s := ({ s with ports := block.2 } : Joybus).logged block.1 ⟨true, f.tx⟩
  if block.1 = 0 ∧ 1 ≤ f.rx then s.store [(f.rxI, dataCrc data)] else s.noDevice f

def idle (s : Joybus) (f : Frame) : Except Nat Joybus :=
  s.store ((List.range f.rx).map fun i => (f.rxI + i, 0))

def answer (s : Joybus) (f : Frame) : Except Nat Joybus := do
  let cmd ← s.load f.cmdI
  if cmd = joyInfo then s.info f
  else if cmd = joyRead then s.readCommand f
  else if cmd = joyWrite then s.writeCommand f
  else if cmd = joyState then s.idle f
  else .ok s

/-- The loop; `none` when the rounds allowed do not suffice. -/
def rounds : Nat → Joybus → Nat → Nat → Option (Except Nat Joybus)
  | 0, _, _, _ => none
  | fuel + 1, s, chan, p =>
      match headAt s.blk chan p with
      | .stop => some (.ok s)
      | .skip chan p => rounds fuel s chan p
      | .frame f =>
          match s.answer f with
          | .error i => some (.error i)
          | .ok s => rounds fuel s (chan + 1) f.next

end Joybus

def runJoybus (blk : Block) (ports : Ports) : Option (Except Nat Joybus) :=
  Joybus.rounds 64 ⟨blk, ports, []⟩ 0 0

def framesFrom : Nat → Block → Nat → Nat → List Frame
  | 0, _, _, _ => []
  | fuel + 1, blk, chan, p =>
      match headAt blk chan p with
      | .stop => []
      | .skip chan p => framesFrom fuel blk chan p
      | .frame f => f :: framesFrom fuel blk (chan + 1) f.next

def frames (blk : Block) : List Frame := framesFrom 64 blk 0 0

/-! ## One command -/

def Frame.Touches (f : Frame) (i : Nat) : Prop := i = f.start + 1 ∨ (f.rxI ≤ i ∧ i < f.next)

def Frame.lastRead (f : Frame) (cmd : UInt8) : Nat :=
  if cmd = joyRead then f.cmdI + 2 else if cmd = joyWrite then f.cmdI + 34 else f.cmdI

def Frame.Readable (f : Frame) (blk : Block) : Prop :=
  ∃ cmd, blk[f.cmdI]? = some cmd ∧ f.lastRead cmd < 64

def Frame.uses (f : Frame) (blk : Block) (ports : Ports) : List PakUse :=
  if hasPak ports f.chan then
    if blk[f.cmdI]? = some joyRead then [⟨false, f.tx⟩]
    else if blk[f.cmdI]? = some joyWrite then [⟨true, f.tx⟩]
    else []
  else []

theorem Frame.touches_lt {f : Frame} {i : Nat} (touches : f.Touches i) : i < f.next := by
  have size : f.start + 2 ≤ f.next := by
    unfold Frame.next Frame.rxI
    omega
  rcases touches with length | received
  · omega
  · exact received.2

theorem Frame.next_le (f : Frame) : f.next ≤ 64 := f.inBlock

/-- The run of a command: it changes only bytes of its frame, and no port's pak. -/
structure Answered (f : Frame) (uses : List PakUse) (s t : Joybus) : Prop where
  kept : ∀ i (below : i < 64), ¬ f.Touches i → t.blk[i] = s.blk[i]
  configured : ∀ port, (t.ports port).configured = (s.ports port).configured
  logged : t.pakUses = s.pakUses ++ uses

theorem Answered.refl (f : Frame) (s : Joybus) : Answered f [] s s :=
  ⟨fun _ _ _ => rfl, fun _ => rfl, (List.append_nil _).symm⟩

theorem Answered.trans {f : Frame} {uses uses' : List PakUse} {s t u : Joybus} (first : Answered f uses s t)
    (second : Answered f uses' t u) : Answered f (uses ++ uses') s u := by
  refine ⟨fun i below away => ?_, fun port => ?_, ?_⟩
  · rw [second.kept i below away, first.kept i below away]
  · rw [second.configured, first.configured]
  · rw [second.logged, first.logged, List.append_assoc]

namespace Joybus

theorem load_inside (s : Joybus) {i : Nat} (inside : i < 64) : s.load i = .ok s.blk[i] := dif_pos inside

theorem load_outside (s : Joybus) {i : Nat} (outside : 64 ≤ i) : s.load i = .error i :=
  dif_neg (Nat.not_lt.mpr outside)

section Commands
variable {f : Frame}

theorem store_answered (s : Joybus) {writes : List (Nat × UInt8)}
    (inFrame : ∀ w ∈ writes, f.Touches w.1) :
    ∃ t, s.store writes = .ok t ∧ Answered f [] s t := by
  obtain ⟨after, run⟩ := writeAll_inside writes s.blk fun w member =>
    lt_of_lt_of_le (Frame.touches_lt (inFrame w member)) f.next_le
  refine ⟨{ s with blk := after }, by rw [store, run], ?_, fun _ => rfl, (List.append_nil _).symm⟩
  intro i below away
  refine getElem_writeAll_frame writes run i below fun member => away ?_
  obtain ⟨w, inWrites, rfl⟩ := List.mem_map.mp member
  exact inFrame w inWrites

theorem noDevice_answered (s : Joybus) (f : Frame) :
    ∃ t, s.noDevice f = .ok t ∧ Answered f [] s t := by
  have inside : f.start + 1 < 64 := by
    have := f.inBlock
    omega
  unfold noDevice
  rw [load_inside s inside]
  refine store_answered s fun w member => ?_
  rw [List.mem_singleton.mp member]
  exact Or.inl rfl

theorem address_inside (s : Joybus) (inside : f.cmdI + 2 < 64) : ∃ addr, s.address f = .ok addr := by
  unfold address
  rw [load_inside s (show f.cmdI + 1 < 64 by omega), load_inside s inside]
  exact ⟨_, rfl⟩

theorem address_outside (s : Joybus) (outside : 64 ≤ f.cmdI + 2) :
    ∃ i, 64 ≤ i ∧ s.address f = .error i := by
  unfold address
  by_cases first : f.cmdI + 1 < 64
  · rw [load_inside s first, load_outside s outside]
    exact ⟨_, outside, rfl⟩
  · rw [load_outside s (Nat.le_of_not_lt first)]
    exact ⟨_, Nat.le_of_not_lt first, rfl⟩

theorem info_answered (s : Joybus) (f : Frame) : ∃ t, s.info f = .ok t ∧ Answered f [] s t := by
  unfold info
  split
  · refine store_answered s fun w member => Or.inr ?_
    have size : f.next = f.rxI + f.rx := rfl
    simp only [List.mem_cons, List.not_mem_nil, or_false] at member
    rcases member with rfl | rfl | rfl <;> dsimp only <;> omega
  · exact ⟨s, rfl, Answered.refl f s⟩

theorem idle_answered (s : Joybus) (f : Frame) : ∃ t, s.idle f = .ok t ∧ Answered f [] s t := by
  refine store_answered s fun w member => Or.inr ?_
  obtain ⟨i, inRange, rfl⟩ := List.mem_map.mp member
  exact ⟨Nat.le_add_right _ _, Nat.add_lt_add_left (List.mem_range.mp inRange) _⟩

theorem logged_answered (s : Joybus) (f : Frame) {ports : Ports} {ret : Int} (use : PakUse)
    (same : ∀ port, (ports port).configured = (s.ports port).configured)
    (success : ret = 0 ↔ hasPak s.ports f.chan = true) :
    Answered f (if hasPak s.ports f.chan then [use] else []) s
      (({ s with ports := ports } : Joybus).logged ret use) := by
  unfold logged
  by_cases there : hasPak s.ports f.chan = true
  · rw [if_pos (success.mpr there), if_pos there]
    exact ⟨fun _ _ _ => rfl, same, rfl⟩
  · rw [if_neg (mt success.mp there), if_neg there]
    exact ⟨fun _ _ _ => rfl, same, (List.append_nil _).symm⟩

theorem readCommand_inside (s : Joybus) (inside : f.cmdI + 2 < 64) :
    ∃ t, s.readCommand f = .ok t ∧
      Answered f (if hasPak s.ports f.chan then [⟨false, f.tx⟩] else []) s t := by
  obtain ⟨addr, found⟩ := address_inside s inside
  obtain ⟨success, length, same⟩ := readBlock_pak s.ports f.chan (addr >>> 5)
  have called := logged_answered s f ⟨false, f.tx⟩ same success
  unfold readCommand
  rw [found]
  simp only [bind, Except.bind]
  generalize readBlock s.ports f.chan (addr >>> 5) = block at success length same called
  generalize ({ s with ports := block.2.2 } : Joybus).logged block.1 ⟨false, f.tx⟩ = u at called
  have next : ∃ t, (if block.1 = 0 ∧ 33 ≤ f.rx then
      u.store ((block.2.1.zipIdx.map fun byte => (f.rxI + byte.2, byte.1)) ++
        [(f.rxI + 32, dataCrc block.2.1)])
      else u.noDevice f) = .ok t ∧ Answered f [] u t := by
    split
    · rename_i answers
      refine store_answered u fun w member => Or.inr ?_
      have size : f.next = f.rxI + f.rx := rfl
      rcases List.mem_append.mp member with data | crc
      · obtain ⟨byte, inData, rfl⟩ := List.mem_map.mp data
        have place := (List.mem_zipIdx inData).2.1
        have whole : block.2.1.length = 32 := length
        dsimp only
        omega
      · rw [List.mem_singleton.mp crc]
        dsimp only
        omega
    · exact noDevice_answered u f
  obtain ⟨t, ran, changed⟩ := next
  refine ⟨t, ran, ?_⟩
  have whole := called.trans changed
  rwa [List.append_nil] at whole

theorem writeCommand_inside (s : Joybus) (inside : f.cmdI + 34 < 64) :
    ∃ t, s.writeCommand f = .ok t ∧
      Answered f (if hasPak s.ports f.chan then [⟨true, f.tx⟩] else []) s t := by
  obtain ⟨addr, found⟩ := address_inside s (f := f) (by omega)
  obtain ⟨data, loaded⟩ := readAll_inside ((List.range 32).map fun i => f.cmdI + 3 + i) s.blk
    fun i member => by
      obtain ⟨j, inRange, rfl⟩ := List.mem_map.mp member
      have := List.mem_range.mp inRange
      omega
  obtain ⟨success, same⟩ := writeBlock_pak s.ports f.chan (addr >>> 5) data
  have called := logged_answered s f ⟨true, f.tx⟩ same success
  unfold writeCommand
  rw [found]
  simp only [bind, Except.bind, loaded]
  generalize writeBlock s.ports f.chan (addr >>> 5) data = block at success same called
  generalize ({ s with ports := block.2 } : Joybus).logged block.1 ⟨true, f.tx⟩ = u at called
  have next : ∃ t, (if block.1 = 0 ∧ 1 ≤ f.rx then u.store [(f.rxI, dataCrc data)]
      else u.noDevice f) = .ok t ∧ Answered f [] u t := by
    split
    · rename_i answers
      refine store_answered u fun w member => Or.inr ?_
      rw [List.mem_singleton.mp member]
      exact ⟨le_refl _, Nat.lt_add_of_pos_right answers.2⟩
    · exact noDevice_answered u f
  obtain ⟨t, ran, changed⟩ := next
  refine ⟨t, ran, ?_⟩
  have whole := called.trans changed
  rwa [List.append_nil] at whole

theorem readCommand_outside (s : Joybus) (outside : 64 ≤ f.cmdI + 2) :
    ∃ i, 64 ≤ i ∧ s.readCommand f = .error i := by
  obtain ⟨i, past, failed⟩ := address_outside s outside
  exact ⟨i, past, by rw [readCommand, failed]; rfl⟩

theorem writeCommand_outside (s : Joybus) (outside : 64 ≤ f.cmdI + 34) :
    ∃ i, 64 ≤ i ∧ s.writeCommand f = .error i := by
  by_cases inside : f.cmdI + 2 < 64
  · obtain ⟨addr, found⟩ := address_inside s inside
    obtain ⟨i, past, failed⟩ := readAll_outside ((List.range 32).map fun i => f.cmdI + 3 + i) s.blk
      ⟨f.cmdI + 34, List.mem_map.mpr ⟨31, by simp, by omega⟩, outside⟩
    refine ⟨i, past, ?_⟩
    rw [writeCommand, found]
    simp only [bind, Except.bind, failed]
  · obtain ⟨i, past, failed⟩ := address_outside s (f := f) (Nat.le_of_not_lt inside)
    exact ⟨i, past, by rw [writeCommand, failed]; rfl⟩

end Commands

theorem answer_readable (s : Joybus) {f : Frame} (readable : f.Readable s.blk) :
    ∃ t, s.answer f = .ok t ∧ Answered f (f.uses s.blk s.ports) s t := by
  obtain ⟨cmd, found, last⟩ := readable
  obtain ⟨inside, rfl⟩ := Vector.getElem?_eq_some_iff.mp found
  unfold answer Frame.uses
  rw [load_inside s inside, found]
  simp only [bind, Except.bind, Option.some.injEq]
  generalize s.blk[f.cmdI] = cmd at last
  unfold Frame.lastRead at last
  by_cases info : cmd = joyInfo
  · subst info
    obtain ⟨t, ran, done⟩ := info_answered s f
    refine ⟨t, by rw [if_pos rfl, ran], ?_⟩
    rw [if_neg (show joyInfo ≠ joyRead by decide), if_neg (show joyInfo ≠ joyWrite by decide),
      ite_self]
    exact done
  rw [if_neg info]
  by_cases read : cmd = joyRead
  · subst read
    rw [if_pos rfl] at last ⊢
    rw [if_pos rfl]
    exact readCommand_inside s last
  rw [if_neg read] at last ⊢
  rw [if_neg read]
  by_cases write : cmd = joyWrite
  · subst write
    rw [if_pos rfl] at last ⊢
    rw [if_pos rfl]
    exact writeCommand_inside s last
  rw [if_neg write, if_neg write, ite_self]
  split
  · exact idle_answered s f
  · exact ⟨s, rfl, Answered.refl f s⟩

theorem answer_unreadable (s : Joybus) {f : Frame} (unreadable : ¬ f.Readable s.blk) :
    ∃ i, 64 ≤ i ∧ s.answer f = .error i := by
  unfold answer
  by_cases inside : f.cmdI < 64
  · have past : 64 ≤ f.lastRead s.blk[f.cmdI] := by
      by_contra within
      exact unreadable ⟨_, Vector.getElem?_eq_getElem inside, Nat.lt_of_not_le within⟩
    rw [load_inside s inside]
    simp only [bind, Except.bind]
    generalize s.blk[f.cmdI] = cmd at past
    unfold Frame.lastRead at past
    by_cases read : cmd = joyRead
    · subst read
      rw [if_pos rfl] at past
      rw [if_neg (by decide), if_pos rfl]
      exact readCommand_outside s past
    rw [if_neg read] at past
    by_cases write : cmd = joyWrite
    · subst write
      rw [if_pos rfl] at past
      rw [if_neg (by decide), if_neg (by decide), if_pos rfl]
      exact writeCommand_outside s past
    rw [if_neg write] at past
    exact absurd inside (Nat.not_lt.mpr past)
  · rw [load_outside s (Nat.le_of_not_lt inside)]
    exact ⟨_, Nat.le_of_not_lt inside, rfl⟩

end Joybus

/-! ## The loop -/

theorem headAt_congr {blk blk' : Block} {chan p : Nat}
    (same : ∀ i (below : i < 64), p ≤ i → blk[i] = blk'[i]) : headAt blk chan p = headAt blk' chan p := by
  unfold headAt
  by_cases inside : p < 63
  · simp only [dif_pos inside, same p (by omega) (le_refl _), same (p + 1) (by omega) (by omega)]
  · simp only [dif_neg inside]

theorem headAt_skip {blk : Block} {chan p chan' p' : Nat} (found : headAt blk chan p = .skip chan' p') :
    p < 63 ∧ p < p' := by
  unfold headAt at found
  split at found
  · rename_i inside
    refine ⟨inside, ?_⟩
    dsimp only at found
    repeat' split at found
    all_goals first | contradiction | (cases found; omega)
  · contradiction

theorem headAt_frame {blk : Block} {chan p : Nat} {f : Frame} (found : headAt blk chan p = .frame f) :
    p < 63 ∧ f.start = p ∧ f.chan = chan ∧ chan ≤ 3 := by
  unfold headAt at found
  split at found
  · rename_i inside
    refine ⟨inside, ?_⟩
    dsimp only at found
    repeat' split at found
    all_goals first | contradiction | (cases found; exact ⟨rfl, rfl, by omega⟩)
  · contradiction

theorem Frame.next_gt (f : Frame) : f.start + 2 ≤ f.next := by
  unfold Frame.next Frame.rxI
  omega

theorem Frame.local_congr {f : Frame} {blk blk' : Block}
    (same : ∀ i (below : i < 64), f.start ≤ i → blk[i] = blk'[i]) : blk[f.cmdI]? = blk'[f.cmdI]? := by
  by_cases inside : f.cmdI < 64
  · rw [Vector.getElem?_eq_getElem inside, Vector.getElem?_eq_getElem inside,
      same f.cmdI inside (by unfold Frame.cmdI; omega)]
  · rw [Vector.getElem?_eq_none (Nat.le_of_not_lt inside),
      Vector.getElem?_eq_none (Nat.le_of_not_lt inside)]

theorem rounds_readable (blk : Block) (ports : Ports) : ∀ (fuel : Nat) (s : Joybus) (chan p : Nat),
    63 < fuel + p → 1 ≤ fuel → (∀ i (below : i < 64), p ≤ i → s.blk[i] = blk[i]) →
    (∀ port, (s.ports port).configured = (ports port).configured) →
    (∀ f ∈ framesFrom fuel blk chan p, f.Readable blk) →
      ∃ t, s.rounds fuel chan p = some (.ok t) ∧
        (∀ i (below : i < 64), (∀ f ∈ framesFrom fuel blk chan p, ¬ f.Touches i) →
          t.blk[i] = s.blk[i]) ∧
        t.pakUses = s.pakUses ++ (framesFrom fuel blk chan p).flatMap (·.uses blk ports) := by
  intro fuel
  induction fuel with
  | zero =>
      intro s chan p _ positive
      exact absurd positive (by decide)
  | succ fuel ih =>
      intro s chan p enough _ same configured readable
      have here : headAt s.blk chan p = headAt blk chan p := headAt_congr same
      rw [Joybus.rounds, here]
      rw [framesFrom] at readable ⊢
      cases found : headAt blk chan p with
      | stop => exact ⟨s, rfl, fun _ _ _ => rfl, (List.append_nil _).symm⟩
      | skip chan' p' =>
          obtain ⟨early, forward⟩ := headAt_skip found
          rw [found] at readable
          exact ih s chan' p' (by omega) (by omega)
            (fun i below behind => same i below (by omega)) configured readable
      | frame f =>
          obtain ⟨early, start, -, -⟩ := headAt_frame found
          have forward := f.next_gt
          rw [found] at readable
          have bytes : ∀ i (below : i < 64), f.start ≤ i → s.blk[i] = blk[i] :=
            fun i below behind => same i below (by omega)
          have cmd := Frame.local_congr bytes
          have ready : f.Readable s.blk := by
            unfold Frame.Readable
            rw [cmd]
            exact readable f (by simp)
          obtain ⟨t, ran, done⟩ := s.answer_readable ready
          have use : f.uses s.blk s.ports = f.uses blk ports := by
            unfold Frame.uses hasPak
            rw [cmd, configured]
          obtain ⟨u, rest, kept, uses⟩ := ih t (chan + 1) f.next (by omega) (by omega)
            (fun i below behind => by
              rw [done.kept i below fun touches => by have := Frame.touches_lt touches; omega]
              exact same i below (by omega))
            (fun port => (done.configured port).trans (configured port))
            fun g member => readable g (List.mem_cons_of_mem f member)
          refine ⟨u, ?_, ?_, ?_⟩
          · rw [← rest]
            simp only [ran]
          · intro i below away
            rw [kept i below fun g member => away g (List.mem_cons_of_mem f member)]
            exact done.kept i below (away f List.mem_cons_self)
          · rw [uses, done.logged, use, List.flatMap_cons, List.append_assoc]

theorem rounds_unreadable (blk : Block) : ∀ (fuel : Nat) (s : Joybus) (chan p : Nat),
    63 < fuel + p → 1 ≤ fuel → (∀ i (below : i < 64), p ≤ i → s.blk[i] = blk[i]) →
    (∃ f ∈ framesFrom fuel blk chan p, ¬ f.Readable blk) →
      ∃ i, 64 ≤ i ∧ s.rounds fuel chan p = some (.error i) := by
  intro fuel
  induction fuel with
  | zero =>
      intro s chan p _ positive
      exact absurd positive (by decide)
  | succ fuel ih =>
      intro s chan p enough _ same unreadable
      have here : headAt s.blk chan p = headAt blk chan p := headAt_congr same
      rw [Joybus.rounds, here]
      rw [framesFrom] at unreadable
      cases found : headAt blk chan p with
      | stop =>
          rw [found] at unreadable
          obtain ⟨f, member, -⟩ := unreadable
          cases member
      | skip chan' p' =>
          obtain ⟨early, forward⟩ := headAt_skip found
          rw [found] at unreadable
          exact ih s chan' p' (by omega) (by omega)
            (fun i below behind => same i below (by omega)) unreadable
      | frame f =>
          obtain ⟨early, start, -, -⟩ := headAt_frame found
          have forward := f.next_gt
          rw [found] at unreadable
          have bytes : ∀ i (below : i < 64), f.start ≤ i → s.blk[i] = blk[i] :=
            fun i below behind => same i below (by omega)
          have cmd := Frame.local_congr bytes
          have ready : f.Readable s.blk ↔ f.Readable blk := by
            unfold Frame.Readable
            rw [cmd]
          by_cases readable : f.Readable blk
          · obtain ⟨t, ran, done⟩ := s.answer_readable (ready.mpr readable)
            obtain ⟨g, member, unread⟩ := unreadable
            have later : ∃ g ∈ framesFrom fuel blk (chan + 1) f.next, ¬ g.Readable blk := by
              rcases List.mem_cons.mp member with rfl | member
              · exact absurd readable unread
              · exact ⟨g, member, unread⟩
            simp only [ran]
            refine ih t (chan + 1) f.next (by omega) (by omega) (fun i below behind => ?_) later
            rw [done.kept i below fun touches => by have := Frame.touches_lt touches; omega]
            exact same i below (by omega)
          · obtain ⟨i, past, failed⟩ := s.answer_unreadable (mt ready.mp readable)
            exact ⟨i, past, by simp only [failed]⟩

/-! ## The whole block -/

def PakUse.Covered (use : PakUse) : Prop := (if use.write then 35 else 3) ≤ use.tx

instance (use : PakUse) : Decidable use.Covered := inferInstanceAs (Decidable (_ ≤ _))

/-- The run stays inside the block, changes only receive bytes and receive-length
bytes of frames, and gets to a cartridge only with covered commands. -/
def SafeRun (blk : Block) (ports : Ports) : Prop :=
  ∃ t, runJoybus blk ports = some (.ok t) ∧
    (∀ i (below : i < 64), t.blk[i] ≠ blk[i] → ∃ f ∈ frames blk, f.Touches i) ∧
    ∀ use ∈ t.pakUses, use.Covered

/-- What `run_joybus` takes for granted of a frame. -/
def Frame.Declared (f : Frame) (blk : Block) (ports : Ports) : Prop :=
  f.Readable blk ∧ (hasPak ports f.chan = true →
    (blk[f.cmdI]? = some joyRead → 3 ≤ f.tx) ∧ (blk[f.cmdI]? = some joyWrite → 35 ≤ f.tx))

theorem Frame.uses_covered (f : Frame) (blk : Block) (ports : Ports) :
    (∀ use ∈ f.uses blk ports, use.Covered) ↔ (hasPak ports f.chan = true →
      (blk[f.cmdI]? = some joyRead → 3 ≤ f.tx) ∧ (blk[f.cmdI]? = some joyWrite → 35 ≤ f.tx)) := by
  unfold Frame.uses
  cases hasPak ports f.chan with
  | false => simp
  | true =>
      by_cases read : blk[f.cmdI]? = some joyRead
      · have other : joyRead ≠ joyWrite := by decide
        simp [read, PakUse.Covered, other]
      · by_cases write : blk[f.cmdI]? = some joyWrite
        · have other : joyWrite ≠ joyRead := by decide
          simp [write, PakUse.Covered, other]
        · simp [read, write]

/-- Every run ends; it is safe exactly when every frame on channels 0 to 3
declares what its command uses. -/
theorem joybus_safe_iff (blk : Block) (ports : Ports) :
    runJoybus blk ports ≠ none ∧
      (SafeRun blk ports ↔ ∀ f ∈ frames blk, f.Declared blk ports) := by
  by_cases readable : ∀ f ∈ frames blk, f.Readable blk
  · obtain ⟨t, ran, kept, uses⟩ := rounds_readable blk ports 64 ⟨blk, ports, []⟩ 0 0 (by decide)
      (by decide) (fun _ _ _ => rfl) (fun _ => rfl) readable
    refine ⟨by rw [runJoybus, ran]; exact Option.some_ne_none _, ?_⟩
    have logged : t.pakUses = (frames blk).flatMap (·.uses blk ports) := uses
    have covered : (∀ use ∈ t.pakUses, use.Covered) ↔ ∀ f ∈ frames blk, f.Declared blk ports := by
      rw [logged]
      constructor
      · intro all f member
        refine ⟨readable f member, (f.uses_covered blk ports).mp fun use inUses => ?_⟩
        exact all use (List.mem_flatMap.mpr ⟨f, member, inUses⟩)
      · intro all use member
        obtain ⟨f, inFrames, inUses⟩ := List.mem_flatMap.mp member
        exact (f.uses_covered blk ports).mpr (all f inFrames).2 use inUses
    rw [← covered]
    constructor
    · rintro ⟨t', ran', -, all⟩
      rw [runJoybus, ran] at ran'
      cases ran'
      exact all
    · refine fun all => ⟨t, ran, fun i below changed => ?_, all⟩
      by_contra none_touches
      exact changed (kept i below fun f member touches => none_touches ⟨f, member, touches⟩)
  · have unreadable : ∃ f ∈ frames blk, ¬ f.Readable blk := by
      by_contra none_unreadable
      exact readable fun f member => by_contra fun unread => none_unreadable ⟨f, member, unread⟩
    obtain ⟨i, past, failed⟩ := rounds_unreadable blk 64 ⟨blk, ports, []⟩ 0 0 (by decide)
      (by decide) (fun _ _ _ => rfl) unreadable
    refine ⟨by rw [runJoybus, failed]; exact Option.some_ne_none _, ?_⟩
    constructor
    · rintro ⟨t, ran, -⟩
      rw [runJoybus, failed] at ran
      cases ran
    · intro declared
      exact absurd (fun f member => (declared f member).1) readable

def lastFrame : Block :=
  (((Vector.replicate 64 (0 : UInt8)).set 0 0x3B).set 1 0x01).set 2 0xFF |>.set 62 0x40

def shortRead : Block :=
  (((Vector.replicate 64 (0 : UInt8)).set 0 0x01).set 1 0x21).set 2 0x02 |>.set 36 0xFE

def shortFrame : Frame := ⟨0, 0, 1, 0x21, by decide⟩

def onePak : Ports := fun port => { configured := decide (port = 0) }

theorem joybus_unsafe : ¬ SafeRun lastFrame onePak ∧ ¬ SafeRun shortRead onePak := by
  constructor
  · have last : (⟨62, 1, 0, 0, by decide⟩ : Frame) ∈ framesFrom 64 lastFrame 0 0 := by
      decide +kernel
    have outside : lastFrame[64]? = none := by decide +kernel
    obtain ⟨i, -, failed⟩ := rounds_unreadable lastFrame 64 ⟨lastFrame, onePak, []⟩ 0 0 (by decide)
      (by decide) (fun _ _ _ => rfl) ⟨_, last, fun ⟨cmd, found, _⟩ => by
        rw [Frame.cmdI, outside] at found
        cases found⟩
    rintro ⟨t, ran, -⟩
    rw [runJoybus, failed] at ran
    cases ran
  · have only : framesFrom 64 shortRead 0 0 = [shortFrame] := by decide +kernel
    have cmd : shortRead[2]? = some joyRead := by decide +kernel
    obtain ⟨t, ran, -, uses⟩ := rounds_readable shortRead onePak 64 ⟨shortRead, onePak, []⟩ 0 0
      (by decide) (by decide) (fun _ _ _ => rfl) (fun _ => rfl) fun f member => by
        rw [only, List.mem_singleton] at member
        subst member
        exact ⟨joyRead, cmd, by decide⟩
    rintro ⟨t', ran', -, covered⟩
    rw [runJoybus, ran] at ran'
    cases ran'
    have logged : (⟨false, 1⟩ : PakUse) ∈ t.pakUses := by
      have use : shortFrame.uses shortRead onePak = [⟨false, 1⟩] := by
        rw [Frame.uses, if_pos (by decide), if_pos (show shortRead[shortFrame.cmdI]? = _ from cmd)]
        rfl
      rw [uses, only, List.flatMap_cons, use]
      exact List.mem_cons_self
    exact absurd (covered _ logged) (by decide)

end N64ModernRuntime.Librecomp.SiJoybus
