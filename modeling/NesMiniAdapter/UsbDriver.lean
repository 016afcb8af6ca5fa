import NesMiniAdapter.InterruptedProgram
import NesMiniAdapter.UsbCrc16

/-!
The USB driver between packets and the main program: the interrupt routine of
`usbdrv/asmcommon.inc`, one packet at a time, and the functions of
`usbdrv/usbdrv.c` under the settings of `usbconfig.h`, one access to a shared variable
at a time.
-/

namespace NesMiniAdapter.UsbDriver

open NesMiniAdapter.InterruptedProgram
open NesMiniAdapter.UsbCrc16

abbrev Byte := BitVec 8

abbrev usbpidSetup : Byte := 0x2D#8
abbrev usbpidOut : Byte := 0xE1#8
abbrev usbpidIn : Byte := 0x69#8
abbrev usbpidData0 : Byte := 0xC3#8
abbrev usbpidData1 : Byte := 0x4B#8
abbrev usbpidAck : Byte := 0xD2#8
abbrev usbpidNak : Byte := 0x5A#8
abbrev usbpidStall : Byte := 0x1E#8

abbrev usbBufsize : Nat := 11
abbrev usbNoMsg : Byte := 0xFF#8
abbrev usbFlgMsgptrIsRom : Byte := 0x40#8
abbrev usbMask : Byte := 0x0A#8
abbrev usbIdle : Byte := 0x08#8

abbrev usbrqTypeMask : Byte := 0x60#8
abbrev usbrqTypeStandard : Byte := 0#8

/-- What `usbMsgPtr` points to: the rest of a descriptor in the program memory, or a
variable. -/
inductive MsgPtr where
  | flash (bytes : List Byte)
  | usbTxBuf (i : Nat)
  | usbConfiguration
  | elsewhere

def MsgPtr.next : MsgPtr → MsgPtr
  | .flash bytes => .flash bytes.tail
  | .usbTxBuf i => .usbTxBuf (i + 1)
  | _ => .elsewhere

structure UsbTxStatus where
  len : Byte
  buffer : Nat → Byte

/-- The variables of the driver. -/
structure Usb where
  usbRxBuf : Nat → Byte
  usbInputBufOffset : Byte
  usbDeviceAddr : Byte
  usbNewDeviceAddr : Byte
  usbConfiguration : Byte
  usbRxLen : Byte
  usbCurrentTok : Byte
  usbRxToken : Byte
  usbTxLen : Byte
  usbTxBuf : Nat → Byte
  usbTxStatus1 : UsbTxStatus
  usbMsgPtr : MsgPtr
  usbMsgLen : Byte
  usbMsgFlags : Byte
  wasReset : Bool

/-- What happens on the bus for one packet from the host. -/
inductive Exchange where
  /-- Nothing is sent. -/
  | ignored
  /-- A token for a packet of data that will follow. -/
  | token (pid : Byte)
  /-- Data for the main program, acknowledged. -/
  | stored (token : Byte) (data : List Byte)
  /-- Short data, acknowledged and dropped. -/
  | acked
  /-- Data that found the buffer full, with `NAK` as the answer. -/
  | refused
  /-- An IN token, answered with a packet. -/
  | sent (endpoint : Byte) (packet : List Byte)
  /-- An IN token, answered with a handshake. -/
  | handshake (endpoint pid : Byte)
  deriving DecidableEq, Repr

section Interrupt

/-- The receiver writes the packet to the half of the buffer that is its own. -/
def receive (packet : List Byte) (u : Usb) : Usb :=
  { u with usbRxBuf := fun i =>
      if u.usbInputBufOffset.toNat ≤ i then
        (packet.take usbBufsize).getD (i - u.usbInputBufOffset.toNat) (u.usbRxBuf i)
      else u.usbRxBuf i }

/-- A byte of the packet that was received. -/
def received (u : Usb) (i : Nat) : Byte := u.usbRxBuf (u.usbInputBufOffset.toNat + i)

def ignorePacket (u : Usb) : Exchange × Usb := (.ignored, { u with usbCurrentTok := 0#8 })

/-- `cnt` bytes have been received, with the identifier and the CRC. -/
def handleData (cnt : Nat) (u : Usb) : Exchange × Usb :=
  if u.usbCurrentTok = 0#8 then (.ignored, u)
  else if u.usbRxLen ≠ 0#8 then (.refused, u)
  else if cnt < 4 then (.acked, u)
  else
    (.stored u.usbCurrentTok ((List.range (cnt - 3)).map fun i => received u (1 + i)),
      { u with
        usbRxLen := BitVec.ofNat 8 cnt
        usbRxToken := u.usbCurrentTok
        usbInputBufOffset := BitVec.ofNat 8 usbBufsize - u.usbInputBufOffset })

/-- What `usbSendAndReti` sends; `len` counts the sync byte. -/
def packetOf (len : Byte) (buffer : Nat → Byte) : List Byte :=
  (List.range (len.toNat - 1)).map buffer

/-- The address takes effect after any packet of data. -/
def assignAddress (u : Usb) : Usb := { u with usbDeviceAddr := u.usbNewDeviceAddr <<< 1 }

def handleIn1 (endpoint : Byte) (u : Usb) : Exchange × Usb :=
  if u.usbTxStatus1.len.getLsbD 4 then (.handshake endpoint u.usbTxStatus1.len, u)
  else
    (.sent endpoint (packetOf u.usbTxStatus1.len u.usbTxStatus1.buffer),
      assignAddress { u with usbTxStatus1 := { u.usbTxStatus1 with len := usbpidNak } })

def handleIn (endpoint : Byte) (u : Usb) : Exchange × Usb :=
  if 1 ≤ u.usbRxLen.toInt then (.handshake endpoint usbpidNak, u)
  else if endpoint ≠ 0#8 then handleIn1 endpoint u
  else if u.usbTxLen.getLsbD 4 then (.handshake endpoint u.usbTxLen, u)
  else
    (.sent endpoint (packetOf u.usbTxLen u.usbTxBuf),
      assignAddress { u with usbTxLen := usbpidNak })

def se0 (cnt : Nat) (u : Usb) : Exchange × Usb :=
  let token := received u 0
  if token = usbpidData0 ∨ token = usbpidData1 then handleData cnt u
  else if received u 1 <<< 1 ≠ u.usbDeviceAddr then ignorePacket u
  else if token = usbpidIn then
    handleIn ((received u 2 <<< 1 ||| received u 1 >>> 7) &&& 0x0F#8) u
  else if token = usbpidSetup ∨ token = usbpidOut then
    (.token token, { u with usbCurrentTok := token })
  else ignorePacket u

/-- A packet that does not fit into the buffer ends in `overflow`. -/
def usbInterrupt (packet : List Byte) (u : Usb) : Exchange × Usb :=
  if usbBufsize < packet.length then ignorePacket (receive packet u)
  else se0 packet.length (receive packet u)

end Interrupt

/-- The driver on the bus: what has happened there, what the program will read from the
two lines, and the values for OSCCAL that the calibrations to come will find. -/
structure Bus where
  usb : Usb
  trace : List Exchange
  samples : List Byte
  osccal : Byte
  calibrations : List Byte

instance : Logged Bus where
  Entry := Exchange
  log b := b.trace

def handler (packet : List Byte) (b : Bus) : Bus :=
  { b with
    usb := (usbInterrupt packet b.usb).2
    trace := b.trace ++ [(usbInterrupt packet b.usb).1] }

/-- Programs that the packets of the host interrupt. -/
abbrev Main (α : Type) := Program Bus (List Byte) α

section Descriptors

def usbHidReportDescriptor : List Byte :=
  [0x05, 0x01, 0x09, 0x04, 0xA1, 0x01, 0x05, 0x09, 0x19, 0x01, 0x29, 0x0C, 0x15, 0x00, 0x25, 0x01,
    0x95, 0x0C, 0x75, 0x01, 0x81, 0x02, 0x95, 0x04, 0x81, 0x03, 0xC0]

def usbDescriptorString0 : List Byte := [4, 3, 0x09, 0x04]

/-- `USB_STRING_DESCRIPTOR_HEADER` and the characters, as words. -/
def stringDescriptor (name : List Char) : List Byte :=
  BitVec.ofNat 8 (2 * name.length + 2) :: 3#8 ::
    name.flatMap fun c => [BitVec.ofNat 8 c.toNat, 0#8]

def usbDescriptorStringVendor : List Byte := stringDescriptor "albertgonzalez.coffee".toList

def usbDescriptorStringDevice : List Byte :=
  stringDescriptor "NES Mini Controller Adapter".toList

def usbDescriptorDevice : List Byte :=
  [18, 1, 0x10, 0x01, 0, 0, 0, 8, 0xC0, 0x16, 0x01, 0x01, 0x00, 0x01, 1, 2, 0, 1]

def usbDescriptorConfiguration : List Byte :=
  [9, 2, 34, 0, 1, 1, 0, 0x80, 10,
    9, 4, 0, 0, 1, 3, 0, 0, 0,
    9, 0x21, 0x01, 0x01, 0x00, 0x01, 0x22, 27, 0,
    7, 5, 0x81, 0x03, 8, 0, 100]

end Descriptors

section Accesses

def get {α : Type} (f : Usb → α) : Main α := load handler fun b => f b.usb

def set (f : Usb → Usb) : Main Unit := store handler fun b => { b with usb := f b.usb }

def putTxBuf (i : Nat) (v : Byte) : Main Unit :=
  set fun u => { u with usbTxBuf := Function.update u.usbTxBuf i v }

def putTxBuf1 (i : Nat) (v : Byte) : Main Unit :=
  set fun u => { u with usbTxStatus1 :=
    { u.usbTxStatus1 with buffer := Function.update u.usbTxStatus1.buffer i v } }

def setTxLen1 (v : Byte) : Main Unit :=
  set fun u => { u with usbTxStatus1 := { u.usbTxStatus1 with len := v } }

def usbin : Main Byte :=
  access handler fun b => (b.samples.headD usbIdle, { b with samples := b.samples.tail })

end Accesses

section SetInterrupt

def usbResetDataToggling : Main Unit := putTxBuf1 0 usbpidData1

/-- `data` is the address of a byte of a buffer, with its number there. -/
def usbCrc16Append (read : Nat → Main Byte) (write : Nat → Byte → Main Unit) (data len : Nat) :
    Main Unit := do
  let bytes ← forUpTo (fun i => read (data + i)) len
  write (data + len) ((crc16 bytes).extractLsb' 0 8)
  write (data + len + 1) ((crc16 bytes).extractLsb' 8 8)

/-- The beginning of `usbGenericSetInterrupt`: an empty buffer gets a new token, a packet
that waits there is not sent any more. -/
def claimTxStatus : Main Unit := do
  if ((← get (·.usbTxStatus1.len)) &&& 0x10#8) ≠ 0#8 then
    let token ← get (·.usbTxStatus1.buffer 0)
    putTxBuf1 0 (token ^^^ (usbpidData0 ^^^ usbpidData1))
  else
    setTxLen1 usbpidNak

/-- With its only argument for `txStatus`; `len` is the length of `data`. -/
def usbGenericSetInterrupt (data : List Byte) : Main Unit := do
  claimTxStatus
  let _ ← forUpTo (fun i => putTxBuf1 (1 + i) (data.getD i 0#8)) (max data.length 1)
  usbCrc16Append (fun i => get (·.usbTxStatus1.buffer i)) putTxBuf1 1 data.length
  setTxLen1 (BitVec.ofNat 8 data.length + 4#8)

def usbSetInterrupt (data : List Byte) : Main Unit := usbGenericSetInterrupt data

def usbInterruptIsReady : Main Bool := do
  return ((← get (·.usbTxStatus1.len)) &&& 0x10#8) ≠ 0#8

end SetInterrupt

section Control

/-- A byte of the request at `data` in the receive buffer. -/
def request (data i : Nat) : Main Byte := get (·.usbRxBuf (data + i))

abbrev bmRequestType : Nat := 0
abbrev bRequest : Nat := 1
abbrev wValueLow : Nat := 2
abbrev wValueHigh : Nat := 3
abbrev wLengthLow : Nat := 6
abbrev wLengthHigh : Nat := 7

/-- `GET_DESCRIPTOR` for a descriptor in the program memory. -/
def getDescriptor (descriptor : List Byte) (offset len : Nat) : Main Byte := do
  set fun u => { u with usbMsgPtr := .flash (descriptor.drop offset) }
  return BitVec.ofNat 8 len

/-- The string descriptor with a number. -/
def getString (index : Byte) : Main Byte :=
  if index = 0#8 then getDescriptor usbDescriptorString0 0 4
  else if index = 1#8 then getDescriptor usbDescriptorStringVendor 0 44
  else if index = 2#8 then getDescriptor usbDescriptorStringDevice 0 56
  else pure 0#8

def findDescriptor (rq : Nat) (kind : Byte) : Main Byte :=
  if kind = 1#8 then getDescriptor usbDescriptorDevice 0 18
  else if kind = 2#8 then getDescriptor usbDescriptorConfiguration 0 34
  else if kind = 3#8 then request rq wValueLow >>= getString
  else if kind = 0x21#8 then getDescriptor usbDescriptorConfiguration 18 9
  else if kind = 0x22#8 then getDescriptor usbHidReportDescriptor 0 27
  else pure 0#8

def usbDriverDescriptor (rq : Nat) : Main Byte := do
  let kind ← request rq wValueHigh
  let len ← findDescriptor rq kind
  set fun u => { u with usbMsgFlags := usbFlgMsgptrIsRom }
  return len

/-- What the cases of `usbDriverSetup` write, but for `usbMsgPtr`. -/
def applyRequest (bRequest value : Byte) : Main Unit :=
  if bRequest = 0#8 then putTxBuf 10 0#8
  else if bRequest = 5#8 then set fun u => { u with usbNewDeviceAddr := value }
  else if bRequest = 9#8 then set fun u => { u with usbConfiguration := value }
  else if bRequest = 11#8 then usbResetDataToggling
  else pure ()

def usbDriverSetup (rq : Nat) : Main Byte := do
  let value ← request rq wValueLow
  putTxBuf 9 0#8
  let bRequest ← request rq bRequest
  if bRequest = 6#8 then usbDriverDescriptor rq
  else
    applyRequest bRequest value
    set fun u => { u with
      usbMsgPtr := if bRequest = 8#8 then .usbConfiguration else .usbTxBuf 9 }
    return if bRequest = 0#8 then 2#8 else if bRequest = 8#8 ∨ bRequest = 10#8 then 1#8 else 0#8

/-- In `main.c`, which implements no request of its own. -/
def usbFunctionSetup : Main Byte := return 0#8

def setupReply (data : Nat) (type : Byte) : Main Byte :=
  if type &&& usbrqTypeMask ≠ usbrqTypeStandard then usbFunctionSetup else usbDriverSetup data

/-- What `wLength` leaves of a reply: its high byte is only compared with zero. -/
def limitReply (data : Nat) (replyLen high : Byte) : Main Byte :=
  if high = 0#8 then do
    let low ← request data wLengthLow
    return if low < replyLen then low else replyLen
  else pure replyLen

/-- `usbProcessRx` for a request of eight bytes. -/
def processSetup (data : Nat) : Main Unit := do
  putTxBuf 0 usbpidData0
  set fun u => { u with usbTxLen := usbpidNak }
  set fun u => { u with usbMsgFlags := 0#8 }
  let type ← request data bmRequestType
  let replyLen ← setupReply data type
  let high ← request data wLengthHigh
  let msgLen ← limitReply data replyLen high
  set fun u => { u with usbMsgLen := msgLen }

def usbProcessRx (data : Nat) (len : Byte) : Main Unit := do
  if (← get (·.usbRxToken)) = usbpidSetup then
    if len = 8#8 then
      processSetup data

end Control

section Transmit

/-- What `usbMsgPtr` is read as depends on the flag. -/
def readMsg (rom : Bool) (r : MsgPtr) : Main Byte :=
  match rom, r with
  | true, .flash bytes => return bytes.headD 0#8
  | false, .usbTxBuf i => get (·.usbTxBuf i)
  | false, .usbConfiguration => get (·.usbConfiguration)
  | _, _ => return 0#8

/-- The loop of `usbDeviceRead`. -/
def readMessage (data len : Nat) : Main Unit := do
  let r ← get (·.usbMsgPtr)
  let flags ← get (·.usbMsgFlags)
  let rom := flags &&& usbFlgMsgptrIsRom ≠ 0#8
  let _ ← forUpTo (fun i => do putTxBuf (data + i) (← readMsg rom (MsgPtr.next^[i] r))) len
  set fun u => { u with usbMsgPtr := MsgPtr.next^[len] r }

def usbDeviceRead (data len : Nat) : Main Byte := do
  (if 0 < len then readMessage data len else pure ())
  return BitVec.ofNat 8 len

/-- The end of `usbBuildTxBlock`, with the length of the data. -/
def finishTxBlock (len : Byte) : Main Unit := do
  if len ≤ 8#8 then
    usbCrc16Append (fun i => get (·.usbTxBuf i)) putTxBuf 1 len.toNat
    set fun u => { u with usbMsgLen := if len + 4#8 < 12#8 then usbNoMsg else u.usbMsgLen }
    set fun u => { u with usbTxLen := len + 4#8 }
  else
    set fun u => { u with usbMsgLen := usbNoMsg }
    set fun u => { u with usbTxLen := usbpidStall }

def usbBuildTxBlock : Main Unit := do
  let msgLen ← get (·.usbMsgLen)
  let wantLen := if 8#8 < msgLen then 8#8 else msgLen
  set fun u => { u with usbMsgLen := u.usbMsgLen - wantLen }
  let token ← get (·.usbTxBuf 0)
  putTxBuf 0 (token ^^^ (usbpidData0 ^^^ usbpidData1))
  let len ← usbDeviceRead 1 wantLen.toNat
  finishTxBlock len

/-- Whether both lines are low in the next `n` samples. -/
def isReset : Nat → Main Bool
  | 0 => return true
  | n + 1 => do
      if (← usbin) &&& usbMask ≠ 0#8 then return false
      isReset n

/-- What `usbPoll` does with a packet of `len` bytes from the host. -/
def takePacket (len : Byte) : Main Unit := do
  let offset ← get (·.usbInputBufOffset)
  usbProcessRx (usbBufsize + 1 - offset.toNat) len
  set fun u => { u with usbRxLen := 0#8 }

def pollReceive : Main Unit := do
  let rxLen ← get (·.usbRxLen)
  let len := rxLen - 3#8
  if 0 ≤ len.toInt then
    takePacket len

def pollTransmit : Main Unit := do
  if ((← get (·.usbTxLen)) &&& 0x10#8) ≠ 0#8 then
    if (← get (·.usbMsgLen)) ≠ usbNoMsg then
      usbBuildTxBlock

def resetAddresses : Main Unit := do
  set fun u => { u with usbNewDeviceAddr := 0#8 }
  set fun u => { u with usbDeviceAddr := 0#8 }

/-- One access, as no interrupt comes between its `cli()` and its `sei()`. -/
def calibrate : Main Unit :=
  store handler fun b => { b with
    osccal := b.calibrations.headD b.osccal, calibrations := b.calibrations.tail }

/-- `USB_RESET_HOOK`, from `osccal.h`. -/
def usbResetHook (resetStarts : Bool) : Main Unit :=
  if resetStarts then pure () else calibrate

def usbHandleResetHook (notResetState : Bool) : Main Unit := do
  let isReset := !notResetState
  if (← get (·.wasReset)) ≠ isReset then
    usbResetHook isReset
    set fun u => { u with wasReset := isReset }

def pollReset : Main Unit := do
  let reset ← isReset 20
  (if reset then resetAddresses else pure ())
  usbHandleResetHook !reset

def usbPoll : Main Unit := do
  pollReceive
  pollTransmit
  pollReset

end Transmit

/-- The variables at power-up. -/
def zeroed : Usb where
  usbRxBuf _ := 0#8
  usbInputBufOffset := 0#8
  usbDeviceAddr := 0#8
  usbNewDeviceAddr := 0#8
  usbConfiguration := 0#8
  usbRxLen := 0#8
  usbCurrentTok := 0#8
  usbRxToken := 0#8
  usbTxLen := usbpidNak
  usbTxBuf _ := 0#8
  usbTxStatus1 := ⟨0#8, fun _ => 0#8⟩
  usbMsgPtr := .elsewhere
  usbMsgLen := usbNoMsg
  usbMsgFlags := 0#8
  wasReset := false

/-- What `usbInit` does to the variables, before interrupts are enabled. -/
def usbInit (u : Usb) : Usb :=
  { u with usbTxStatus1 := ⟨usbpidNak, Function.update u.usbTxStatus1.buffer 0 usbpidData1⟩ }

/-- One round of the main loop, as far as it concerns the driver, with the report that it
would hand over. -/
def iteration (report : List Byte) : Main Bool := do
  usbPoll
  let ready ← usbInterruptIsReady
  (if ready then usbSetInterrupt report else pure ())
  return ready

/-- `n` rounds, with the reports handed over. -/
def mainLoop (reports : Nat → List Byte) : Nat → Main (List (List Byte))
  | 0 => return []
  | n + 1 => do
      let handed ← mainLoop reports n
      let ready ← iteration (reports n)
      return if ready then handed ++ [reports n] else handed

/-- The bus after `usbInit`. -/
def start (samples calibrations : List Byte) : Bus :=
  ⟨usbInit zeroed, [], samples, 0#8, calibrations⟩

end NesMiniAdapter.UsbDriver
