import N64ModernRuntime.Lib.SwappedWords
import N64ModernRuntime.Librecomp.MipsInterp

/-!
# The guest memory as the host sees it

Every byte that the memory macros can address: an address counts modulo
`0x40000000`.  Words are stored in the order of a little-endian host, so bytes
and halfwords are swapped inside their word.
-/

set_option autoImplicit false

namespace N64ModernRuntime.Librecomp

abbrev GuestMemory := BitVec 30 → BitVec 8

namespace GuestMemory

variable (m : GuestMemory)

/-- The offset from `rdram`: `addr & 0x3FFFFFFF`. -/
def place (addr : Gpr) : BitVec 30 := addr.setWidth 30

def half (addr : Gpr) : BitVec 16 := m (place addr + 1) ++ m (place addr)

def word (addr : Gpr) : BitVec 32 :=
  m (place addr + 3) ++ m (place addr + 2) ++ m (place addr + 1) ++ m (place addr)

def doubleword (addr : Gpr) : Gpr := m.word addr ++ m.word (addr + 4)

def setByte (addr : Gpr) (v : BitVec 8) : GuestMemory := Function.update m (place addr) v

def setHalf (addr : Gpr) (v : BitVec 16) : GuestMemory :=
  Function.update (Function.update m (place addr) (v.extractLsb' 0 8))
    (place addr + 1) (v.extractLsb' 8 8)

def setWord (addr : Gpr) (v : BitVec 32) : GuestMemory :=
  Function.update (Function.update (Function.update (Function.update m
    (place addr) (v.extractLsb' 0 8)) (place addr + 1) (v.extractLsb' 8 8))
    (place addr + 2) (v.extractLsb' 16 8)) (place addr + 3) (v.extractLsb' 24 8)

def setDoubleword (addr : Gpr) (v : Gpr) : GuestMemory :=
  (m.setWord addr (v.extractLsb' 32 32)).setWord (addr + 4) (low v)

/-- How far the left and the right part of an unaligned access are shifted in
a unit of `w` bits. -/
def leftShift (addr : Gpr) (bytes : Nat) : Nat := 8 * (addr.toNat % bytes)

def rightShift (addr : Gpr) (bytes : Nat) : Nat := 8 * (bytes - 1 - addr.toNat % bytes)

/-- The bits of `kept` outside the shifted ones of `mask`, and `v` inside. -/
def merge {w : Nat} (kept mask v : BitVec w) : BitVec w := (kept &&& ~~~mask) ||| v

def byte (addr : Gpr) : BitVec 8 := m (place (addr ^^^ 3))

def wordLeft (addr initial : Gpr) : Gpr :=
  let shift := leftShift addr 4
  sx32 (merge (low initial) (BitVec.allOnes 32 <<< shift) (m.word (addr &&& ~~~3) <<< shift))

def wordRight (addr initial : Gpr) : Gpr :=
  let shift := rightShift addr 4
  sx32 (merge (low initial) (BitVec.allOnes 32 >>> shift) (m.word (addr &&& ~~~3) >>> shift))

def doublewordLeft (addr initial : Gpr) : Gpr :=
  let shift := leftShift addr 8
  merge initial (BitVec.allOnes 64 <<< shift) (m.doubleword (addr &&& ~~~7) <<< shift)

def doublewordRight (addr initial : Gpr) : Gpr :=
  let shift := rightShift addr 8
  merge initial (BitVec.allOnes 64 >>> shift) (m.doubleword (addr &&& ~~~7) >>> shift)

def setWordLeft (addr v : Gpr) : GuestMemory :=
  let shift := leftShift addr 4
  m.setWord (addr &&& ~~~3) (merge (m.word (addr &&& ~~~3))
    (BitVec.allOnes 32 >>> shift) (low v >>> shift))

def setWordRight (addr v : Gpr) : GuestMemory :=
  let shift := rightShift addr 4
  m.setWord (addr &&& ~~~3) (merge (m.word (addr &&& ~~~3))
    (BitVec.allOnes 32 <<< shift) (low v <<< shift))

def setDoublewordLeft (addr v : Gpr) : GuestMemory :=
  let shift := leftShift addr 8
  m.setDoubleword (addr &&& ~~~7) (merge (m.doubleword (addr &&& ~~~7))
    (BitVec.allOnes 64 >>> shift) (v >>> shift))

def setDoublewordRight (addr v : Gpr) : GuestMemory :=
  let shift := rightShift addr 8
  m.setDoubleword (addr &&& ~~~7) (merge (m.doubleword (addr &&& ~~~7))
    (BitVec.allOnes 64 <<< shift) (v <<< shift))

end GuestMemory

open GuestMemory in
def guestMacros : RecompH GuestMemory where
  memB m offset reg := m.byte (reg + offset)
  memH m offset reg := m.half ((reg + offset) ^^^ 2)
  memW m offset reg := m.word (reg + offset)
  memBU m offset reg := m.byte (reg + offset)
  memHU m offset reg := m.half ((reg + offset) ^^^ 2)
  memWU m offset reg := m.word (reg + offset)
  setMemB m offset reg v := m.setByte ((reg + offset) ^^^ 3) v
  setMemH m offset reg v := m.setHalf ((reg + offset) ^^^ 2) v
  setMemW m offset reg v := m.setWord (reg + offset) v
  loadDoubleword m reg offset := m.doubleword (reg + offset)
  sd m v offset reg := m.setDoubleword (reg + offset) v
  doLwl m initial offset reg := m.wordLeft (reg + offset) initial
  doLwr m initial offset reg := m.wordRight (reg + offset) initial
  doLdl m initial offset reg := m.doublewordLeft (reg + offset) initial
  doLdr m initial offset reg := m.doublewordRight (reg + offset) initial
  doSwl m offset reg v := m.setWordLeft (reg + offset) v
  doSwr m offset reg v := m.setWordRight (reg + offset) v
  doSdl m offset reg v := m.setDoublewordLeft (reg + offset) v
  doSdr m offset reg v := m.setDoublewordRight (reg + offset) v

/-- A memory of zeros with `words` from `addr` on. -/
def GuestMemory.ofWords (addr : BitVec 30) (words : List (BitVec 32)) : GuestMemory :=
  fun place =>
    let offset := (place - addr).toNat
    (words.getD (offset / 4) 0).extractLsb' (8 * (offset % 4)) 8

/-- Unsigned integers in the place of floating-point numbers.  They have the
bit patterns of `float` and `double` at zero. -/
def wholeFormat (w : Nat) : HostFormat w where
  add a b := a + b
  sub a b := a - b
  mul a b := a * b
  div a b := a / b
  sqrt a := a
  fabs a := a
  neg a := a
  trunc a := a
  round a := a
  ceil a := a
  floor a := a
  ofInt32 a := a.setWidth w

def wholeFloat : HostFloat where
  float := wholeFormat 32
  double := wholeFormat 64
  promote a := a.setWidth 64
  demote a := low a
  toInt32 a := low a
  lt a b := a.ult b
  eq a b := a = b

def emptyContext : RecompContext where
  r _ := 0
  f _ := 0
  hi := 0
  lo := 0
  cop0Regs _ := 0
  mips3FloatMode := false
  dispatchEntryTarget := 0
  dispatchEntryRejected := false
  dispatchEntryRejectedTarget := 0

/-! ## The bytes of a word -/

theorem GuestMemory.place_xor_three {a : Gpr} (aligned : a.toNat % 4 = 0) {i : Nat} (small : i < 4) :
    place ((a + BitVec.ofNat 64 i) ^^^ 3) = place a + BitVec.ofNat 30 (3 - i) := by
  have sum : place (a + BitVec.ofNat 64 i) = place a + BitVec.ofNat 30 i := by
    rw [← BitVec.toNat_inj, place, place, BitVec.toNat_setWidth, BitVec.toNat_add,
      BitVec.toNat_ofNat, BitVec.toNat_add, BitVec.toNat_setWidth, BitVec.toNat_ofNat]
    omega
  have aligned' : (place a).toNat % 4 = 0 := by
    rw [place, BitVec.toNat_setWidth]
    omega
  have low : place ((a + BitVec.ofNat 64 i) ^^^ 3) = place (a + BitVec.ofNat 64 i) ^^^ 3 :=
    BitVec.setWidth_xor
  rw [low, sum]
  exact SwappedWords.xor_three_add (by decide) aligned' small

namespace GuestMemory

variable {m : GuestMemory} {addr : Gpr} {q : BitVec 30}

theorem setWord_frame (v : BitVec 32) (away : ∀ j < 4, q ≠ place addr + BitVec.ofNat 30 j) :
    m.setWord addr v q = m q :=
  SwappedWords.HostBytes.setWord_frame v away

theorem setWord_at (m : GuestMemory) (addr : Gpr) (v : BitVec 32) {j : Nat} (small : j < 4) :
    m.setWord addr v (place addr + BitVec.ofNat 30 j) = v.extractLsb' (8 * j) 8 :=
  SwappedWords.HostBytes.setWord_at (by decide) m (place addr) v small

end GuestMemory

end N64ModernRuntime.Librecomp
