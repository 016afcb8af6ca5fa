import NesMiniAdapter.I2cTransaction

/-!
The controller driver, `nesminicontrollerdrv.c`, and the loop of `main.c` that
polls it, over any platform that has an I2C driver.
-/

namespace NesMiniAdapter.NesMiniController

open NesMiniAdapter.ByteBits
open NesMiniAdapter.FuelledProgram
open NesMiniAdapter.I2cTransaction

abbrev nesI2cAddressWrite : BitVec 8 := 0xA4#8
abbrev nesI2cAddressRead : BitVec 8 := 0xA5#8

abbrev nesButtonUp : BitVec 16 := 0x0001#16
abbrev nesButtonRight : BitVec 16 := 0x8000#16
abbrev nesButtonDown : BitVec 16 := 0x4000#16
abbrev nesButtonLeft : BitVec 16 := 0x0002#16
abbrev nesButtonA : BitVec 16 := 0x0010#16
abbrev nesButtonB : BitVec 16 := 0x0040#16
abbrev nesButtonX : BitVec 16 := 0x0008#16
abbrev nesButtonY : BitVec 16 := 0x0020#16
abbrev nesButtonL : BitVec 16 := 0x2000#16
abbrev nesButtonR : BitVec 16 := 0x0200#16
abbrev nesButtonStart : BitVec 16 := 0x0400#16
abbrev nesButtonSelect : BitVec 16 := 0x1000#16

abbrev ledPin : Nat := 4

structure SnesControllerState where
  buttons : BitVec 16
  connected : BitVec 8
  deriving DecidableEq, Repr

structure SnesReport where
  commonButtonMask : BitVec 8
  snesButtonMask : BitVec 8
  deriving DecidableEq, Repr

/-- What the two files use of the microcontroller. -/
structure Platform (β : Type) extends I2cDriver β where
  ddrbOr : BitVec 8 → Program β Unit
  portbOr : BitVec 8 → Program β Unit
  portbAnd : BitVec 8 → Program β Unit
  delayMs : Nat → Program β Unit

section Driver

variable {β : Type} (platform : Platform β)

def snesInit : Program β Unit := platform.i2cInit

def snesConnect (state : SnesControllerState) : Program β SnesControllerState := do
  platform.i2cStart
  let nack ← platform.i2cWriteByte nesI2cAddressWrite
  let state :=
    if nack &&& 0x01#8 ≠ 0#8 then { state with connected := 0#8 }
    else { state with connected := 1#8 }
  let _ ← platform.i2cWriteByte 0xF0#8
  let _ ← platform.i2cWriteByte 0x55#8
  platform.i2cStop
  return state

/-- The loop of `snes_get_state` from round `x` on, with `n` rounds to go. -/
def readButtons (x : Nat) (buttons : BitVec 16) : Nat → Program β (BitVec 16)
  | 0 => return buttons
  | n + 1 => do
      let read ← platform.i2cReadByte (if x ≥ 5 then 0xFF#8 else 0x00#8)
      let buttons :=
        if x ≥ 4 then
          let read := read ^^^ 0xFF#8
          let buttons := buttons ||| read.setWidth 16
          if x = 4 then buttons <<< 8 else buttons
        else buttons
      readButtons (x + 1) buttons n

def snesGetState (state : SnesControllerState) : Program β SnesControllerState := do
  platform.i2cStart
  let nack ← platform.i2cWriteByte nesI2cAddressWrite
  let state :=
    if nack &&& 0x01#8 ≠ 0#8 then { state with connected := 0#8 }
    else { state with connected := 1#8 }
  let _ ← platform.i2cWriteByte 0x00#8
  platform.i2cStop
  if state.connected = 0#8 then
    return { state with buttons := 0#16 }
  else
    platform.delayMs 5
    platform.i2cStart
    let _ ← platform.i2cWriteByte nesI2cAddressRead
    let buttons ← readButtons platform 0 0#16 6
    platform.i2cStop
    return { state with buttons := buttons }

end Driver

/-- `if (buttons & button) mask |= bit`. In the source the first button of each
byte assigns the mask, which is zero by then. -/
def addButton (buttons button : BitVec 16) (bit : Nat) (mask : BitVec 8) : BitVec 8 :=
  if buttons &&& button ≠ 0#16 then mask ||| 0x01#8 <<< bit else mask

def snesSetReportButtons (state : SnesControllerState) : SnesReport where
  commonButtonMask :=
    let mask := 0x00#8
    let mask := if state.buttons &&& nesButtonUp ≠ 0#16 then 0x01#8 else mask
    let mask := addButton state.buttons nesButtonRight 1 mask
    let mask := addButton state.buttons nesButtonDown 2 mask
    let mask := addButton state.buttons nesButtonLeft 3 mask
    let mask := addButton state.buttons nesButtonSelect 4 mask
    let mask := addButton state.buttons nesButtonStart 5 mask
    let mask := addButton state.buttons nesButtonB 6 mask
    addButton state.buttons nesButtonA 7 mask
  snesButtonMask :=
    let mask := 0x00#8
    let mask := if state.buttons &&& nesButtonX ≠ 0#16 then 0x01#8 else mask
    let mask := addButton state.buttons nesButtonY 1 mask
    let mask := addButton state.buttons nesButtonL 2 mask
    addButton state.buttons nesButtonR 3 mask

/-- One round of the main loop: the state of the controller and of the platform
before and after it, and the report handed to `usbSetInterrupt`, if any. -/
structure Iteration (β : Type) where
  before : SnesControllerState
  after : SnesControllerState
  start : β
  finish : β
  report : Option SnesReport

section Main

variable {β : Type} (platform : Platform β)

/-- The branches under `usbInterruptIsReady()`. -/
def poll (state : SnesControllerState) : Program β SnesControllerState :=
  if state.connected ≠ 0#8 then
    snesGetState platform state
  else do
    platform.portbOr (bv ledPin)
    let state ← snesConnect platform state
    (if state.connected ≠ 0#8 then platform.portbAnd (~~~bv ledPin) else pure ())
    return state

/-- The LED at the end of a round. -/
def showButtons (state : SnesControllerState) : Program β Unit :=
  if state.connected ≠ 0#8 then
    if state.buttons ≠ 0#16 then
      platform.portbOr (bv ledPin)
    else
      platform.portbAnd (~~~bv ledPin)
  else
    pure ()

def interrupt (state : SnesControllerState) :
    Program β (SnesControllerState × Option SnesReport) := do
  let state ← poll platform state
  return (state, some (snesSetReportButtons state))

/-- A round of the loop. `usb` stands for `usbPoll` and `usbInterruptIsReady`. -/
def iteration (usb : Program β Bool) (state : SnesControllerState) :
    Program β (Iteration β) := do
  let ready ← usb
  let start ← get
  let (after, report) ← (if ready then interrupt platform state else pure (state, none))
  showButtons platform after
  let finish ← get
  return ⟨state, after, start, finish, report⟩

/-- As many rounds as there are entries in the list. -/
def mainLoop : List (Program β Bool) → SnesControllerState → Program β (List (Iteration β))
  | [], _ => return []
  | usb :: usbs, state => do
      let round ← iteration platform usb state
      let rounds ← mainLoop usbs round.after
      return round :: rounds

/-- `main` from the first `snes_connect` on. -/
def connectAndPoll (usbs : List (Program β Bool)) : Program β (List (Iteration β)) := do
  let state ← snesConnect platform ⟨0#16, 0#8⟩
  mainLoop platform usbs state

/-- `main`, as far as the controller and the bus are concerned. -/
def main (usbs : List (Program β Bool)) : Program β (List (Iteration β)) := do
  platform.ddrbOr (bv ledPin)
  snesInit platform
  connectAndPoll platform usbs

end Main

end NesMiniAdapter.NesMiniController
