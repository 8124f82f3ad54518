import N64ModernRuntime.Librecomp.GbCart

/-!
# gbcart.cpp: the ports of the Transfer Pak

The accessory side of gbcart.cpp: the control registers of a port and the
block reads and writes of the controller functions.  The diagnostic ring and
the save file are left out.
-/

set_option autoImplicit false

namespace N64ModernRuntime.Librecomp.GbCart

def portCount : Nat := 4

def pfsErrNoPak : Int := 1

def transferPakAddressMask : UInt16 := 0x7FFF

def transferPakCartWindow : UInt16 := 0x4000

def blockSize : Nat := 32

structure Port where
  configured : Bool := false
  pakEnabled : Bool := false
  cartEnabled : Bool := false
  addressBank : UInt8 := 3
  resetState : UInt8 := 0
  cart : Cartridge := { rom := [], ram := [], romOpenBusStart := 0, mbc := .unsupported }
  deriving DecidableEq, Repr

namespace Port

/-- A read of the status register moves the reset state on. -/
def status (port : Port) : UInt8 × Port :=
  let value : UInt8 := (if port.cartEnabled then (0x01 : UInt8) else 0) |||
    ((port.resetState &&& 0x03) <<< 2) ||| (if port.configured then 0 else 0x40) |||
    (if port.pakEnabled then 0x80 else 0)
  let resetState :=
    if port.cartEnabled ∧ port.resetState = 3 then 2
    else if ¬ port.cartEnabled ∧ port.resetState = 2 then 1
    else if ¬ port.cartEnabled ∧ port.resetState = 1 then 0
    else port.resetState
  (value, { port with resetState := resetState })

def busAddress (port : Port) (accessoryAddress : UInt16) : UInt16 :=
  transferPakCartWindow * port.addressBank.toUInt16 + accessoryAddress - transferPakCartWindow

def read (port : Port) (accessoryAddress : UInt16) : UInt8 × Port :=
  let accessoryAddress := accessoryAddress &&& transferPakAddressMask
  if ¬ port.pakEnabled then (0, port)
  else if accessoryAddress ≤ 0x1FFF then (0x84, port)
  else if accessoryAddress ≤ 0x2FFF then (port.addressBank, port)
  else if accessoryAddress ≤ 0x3FFF then port.status
  else if ¬ port.cartEnabled then (0, port)
  else (port.cart.read (port.busAddress accessoryAddress), port)

def write (port : Port) (accessoryAddress : UInt16) (value : UInt8) : Port :=
  let accessoryAddress := accessoryAddress &&& transferPakAddressMask
  if accessoryAddress ≤ 0x1FFF then
    let enabled :=
      if value = 0x84 then true else if value = 0xFE then false else port.pakEnabled
    if ¬ port.pakEnabled ∧ enabled then
      { port with pakEnabled := enabled, addressBank := 3, cartEnabled := false, resetState := 0 }
    else { port with pakEnabled := enabled }
  else if ¬ port.pakEnabled then port
  else if accessoryAddress ≤ 0x2FFF then
    { port with addressBank := if 3 < value then 0 else value }
  else if accessoryAddress ≤ 0x3FFF then
    let enabled : Bool := value &&& 1 ≠ 0
    { port with
      cartEnabled := enabled
      resetState := if ¬ port.cartEnabled ∧ enabled then 2 else port.resetState }
  else if ¬ port.cartEnabled then port
  else { port with cart := port.cart.write (port.busAddress accessoryAddress) value }

def readEach (byteAddress : UInt16) (answers : List UInt8 × Port) (i : Nat) : List UInt8 × Port :=
  let answer := answers.2.read (byteAddress + UInt16.ofNat i)
  (answers.1 ++ [answer.1], answer.2)

/-- A register area answers one read 32 times, the window a read for each byte. -/
def readBytes (port : Port) (byteAddress : UInt16) : List UInt8 × Port :=
  if byteAddress &&& transferPakAddressMask ≤ 0x3FFF then
    let answer := port.read byteAddress
    (List.replicate blockSize answer.1, answer.2)
  else (List.range blockSize).foldl (readEach byteAddress) ([], port)

def writeBytes (port : Port) (byteAddress : UInt16) (data : List UInt8) : Port :=
  data.zipIdx.foldl (fun port byte => port.write (byteAddress + UInt16.ofNat byte.2) byte.1) port

theorem read_configured (port : Port) (address : UInt16) :
    (port.read address).2.configured = port.configured := by
  simp only [read]
  repeat' split
  all_goals rfl

theorem write_configured (port : Port) (address : UInt16) (value : UInt8) :
    (port.write address value).configured = port.configured := by
  simp only [write]
  repeat' split
  all_goals rfl

theorem readEach_fold (byteAddress : UInt16) (l : List Nat) : ∀ start : List UInt8 × Port,
    (l.foldl (readEach byteAddress) start).1.length = start.1.length + l.length ∧
      (l.foldl (readEach byteAddress) start).2.configured = start.2.configured := by
  induction l with
  | nil => intro start; exact ⟨rfl, rfl⟩
  | cons i rest ih =>
      intro start
      obtain ⟨length, configured⟩ := ih (readEach byteAddress start i)
      rw [List.foldl_cons]
      refine ⟨length.trans ?_, configured.trans (read_configured _ _)⟩
      simp only [readEach, List.length_append, List.length_cons, List.length_nil]
      omega

theorem readBytes_length (port : Port) (byteAddress : UInt16) :
    (port.readBytes byteAddress).1.length = blockSize := by
  unfold readBytes
  split
  · exact List.length_replicate
  · rw [(readEach_fold byteAddress _ _).1, List.length_range]
    exact Nat.zero_add _

theorem readBytes_configured (port : Port) (byteAddress : UInt16) :
    (port.readBytes byteAddress).2.configured = port.configured := by
  unfold readBytes
  split
  · exact read_configured _ _
  · exact (readEach_fold byteAddress _ _).2

theorem writeBytes_configured (port : Port) (byteAddress : UInt16) (data : List UInt8) :
    (port.writeBytes byteAddress data).configured = port.configured := by
  unfold writeBytes
  generalize data.zipIdx = bytes
  induction bytes generalizing port with
  | nil => rfl
  | cons byte rest ih =>
      rw [List.foldl_cons, ih]
      exact write_configured _ _ _

end Port

abbrev Ports := Nat → Port

def hasPak (ports : Ports) (port : Nat) : Bool := decide (port < portCount) && (ports port).configured

/-- `read_block`, with the error code first. -/
def readBlock (ports : Ports) (port : Nat) (blockAddress : UInt16) : Int × List UInt8 × Ports :=
  if ¬ hasPak ports port then (pfsErrNoPak, List.replicate blockSize 0, ports)
  else
    let answer := (ports port).readBytes (blockAddress * UInt16.ofNat blockSize)
    (0, answer.1, Function.update ports port answer.2)

def writeBlock (ports : Ports) (port : Nat) (blockAddress : UInt16) (data : List UInt8) :
    Int × Ports :=
  if ¬ hasPak ports port then (pfsErrNoPak, ports)
  else
    (0, Function.update ports port
      ((ports port).writeBytes (blockAddress * UInt16.ofNat blockSize) data))

theorem update_configured (ports : Ports) (port : Nat) {after : Port}
    (same : after.configured = (ports port).configured) (other : Nat) :
    (Function.update ports port after other).configured = (ports other).configured := by
  by_cases here : other = port
  · subst here
    rw [Function.update_self, same]
  · rw [Function.update_of_ne here]

/-- A block read or write fails exactly without a cartridge, and no port changes
whether it has one. -/
theorem readBlock_pak (ports : Ports) (port : Nat) (blockAddress : UInt16) :
    ((readBlock ports port blockAddress).1 = 0 ↔ hasPak ports port = true) ∧
      (readBlock ports port blockAddress).2.1.length = blockSize ∧
      ∀ other, ((readBlock ports port blockAddress).2.2 other).configured =
        (ports other).configured := by
  unfold readBlock
  split
  · rename_i missing
    exact ⟨by simp [pfsErrNoPak, missing], List.length_replicate, fun _ => rfl⟩
  · rename_i there
    refine ⟨by simpa using there, Port.readBytes_length _ _, ?_⟩
    exact update_configured ports port (Port.readBytes_configured _ _)

theorem writeBlock_pak (ports : Ports) (port : Nat) (blockAddress : UInt16) (data : List UInt8) :
    ((writeBlock ports port blockAddress data).1 = 0 ↔ hasPak ports port = true) ∧
      ∀ other, ((writeBlock ports port blockAddress data).2 other).configured =
        (ports other).configured := by
  unfold writeBlock
  split
  · rename_i missing
    exact ⟨by simp [pfsErrNoPak, missing], fun _ => rfl⟩
  · rename_i there
    refine ⟨by simpa using there, ?_⟩
    exact update_configured ports port (Port.writeBytes_configured _ _ _)

end N64ModernRuntime.Librecomp.GbCart
