import NesMiniAdapter.ByteBits
import NesMiniAdapter.FuelledProgram
import NesMiniAdapter.OpenDrainBus

/-!
Port B and the USI of the ATtiny85, as far as the two I2C drivers use them,
wired to two open-drain lines and one slave. Registers keep their full width.
Writing a register, polling PINB and every microsecond of a delay give the
slave one sample of the lines.
-/

namespace NesMiniAdapter.Attiny85

open NesMiniAdapter.ByteBits
open NesMiniAdapter.FuelledProgram
open NesMiniAdapter.OpenDrainBus

/-- The USI takes SDA from pin 0 of port B and SCL from pin 2. -/
abbrev pb0 : Nat := 0
abbrev pb2 : Nat := 2

/-- Bits of USICR. -/
abbrev usitc : Nat := 0
abbrev usiclk : Nat := 1
abbrev usics0 : Nat := 2
abbrev usics1 : Nat := 3
abbrev usiwm0 : Nat := 4
abbrev usiwm1 : Nat := 5

/-- Bits of USISR. The flags USIPF and USIDC are cleared with the others and
never read by the drivers, so they have no state of their own. -/
abbrev usicnt0 : Nat := 0
abbrev usidc : Nat := 4
abbrev usipf : Nat := 5
abbrev usioif : Nat := 6
abbrev usisif : Nat := 7

/-- The registers behind the two pins. `sdaLatch` is the output latch between
bit 7 of USIDR and SDA, `startHold` the start detector's hold on SCL. -/
structure Mcu where
  ddrb : BitVec 8
  portb : BitVec 8
  usidr : BitVec 8
  usicr : BitVec 8
  usicnt : BitVec 4
  startFlag : Bool
  overflowFlag : Bool
  sdaLatch : Bool
  startHold : Bool
  deriving DecidableEq, Repr

namespace Mcu

def twoWire (m : Mcu) : Bool := m.usicr.getLsbD usiwm1 && !m.usicr.getLsbD usiwm0

/-- The shift register is clocked by the rising edge of SCL. -/
def risingClock (m : Mcu) : Bool := m.usicr.getLsbD usics1 && !m.usicr.getLsbD usics0

/-- The counter is clocked by the strobe USITC. -/
def strobeClock (m : Mcu) : Bool := m.usicr.getLsbD usics1 && m.usicr.getLsbD usiclk

/-- The output of the latch behind SDA. With an external clock it is open only
while SCL is low. -/
def dataOut (m : Mcu) (scl : Bool) : Bool :=
  if m.usicr.getLsbD usics1 && scl then m.sdaLatch else m.usidr.getLsbD 7

/-- The level the master leaves on SDA. In two-wire mode a zero in PORTB or in
the latch pulls the line; otherwise only PORTB does. -/
def sdaOut (m : Mcu) (scl : Bool) : Bool :=
  !(m.ddrb.getLsbD pb0 && (!m.portb.getLsbD pb0 || (m.twoWire && !m.dataOut scl)))

def sclOut (m : Mcu) : Bool :=
  !(m.ddrb.getLsbD pb2 && (!m.portb.getLsbD pb2 || m.startHold))

/-- What the USI does when the lines go from `old` to `new`: the latch follows,
a rising SCL shifts SDA in, a falling SDA under a high SCL sets the start flag,
and with that flag set a falling SCL is held. -/
def sense (old new : Lines) (m : Mcu) : Mcu :=
  { m with
    sdaLatch := m.dataOut new.scl
    usidr := if m.risingClock && !old.scl && new.scl then shiftIn m.usidr new.sda else m.usidr
    startFlag := m.startFlag || (m.twoWire && old.scl && new.scl && old.sda && !new.sda)
    startHold := m.startHold || (m.twoWire && m.startFlag && old.scl && !new.scl) }

/-- The counter counts one clock; its overflow sets the flag. -/
def count (m : Mcu) : Mcu :=
  { m with
    usicnt := m.usicnt + 1
    overflowFlag := m.overflowFlag || decide (m.usicnt = 15#4) }

/-- The strobe toggles SCL in PORTB, and clocks the counter if it is selected. -/
def strobe (m : Mcu) : Mcu :=
  let m' := { m with portb := m.portb ^^^ bv pb2 }
  if m.strobeClock then m'.count else m'

/-- A write to USICR. USITC always reads as zero. -/
def writeUsicr (v : BitVec 8) (m : Mcu) : Mcu :=
  let m' := { m with usicr := v &&& ~~~bv usitc }
  if v.getLsbD usitc then m'.strobe else m'

/-- A write to USISR: a one clears a flag, and the low bits load the counter. -/
def writeUsisr (v : BitVec 8) (m : Mcu) : Mcu :=
  { m with
    startFlag := m.startFlag && !v.getLsbD usisif
    startHold := m.startHold && !v.getLsbD usisif
    overflowFlag := m.overflowFlag && !v.getLsbD usioif
    usicnt := v.setWidth 4 }

/-- The flags and the counter as USISR shows them. -/
def readUsisr (m : Mcu) : BitVec 8 :=
  (if m.startFlag then bv usisif else 0#8) |||
    (if m.overflowFlag then bv usioif else 0#8) ||| m.usicnt.setWidth 8

end Mcu

/-- The microcontroller, the lines and the slave. `trace` records the events on
the lines, `ports` the pair of DDRB and PORTB after each write to a register. -/
structure Board (σ : Type) where
  mcu : Mcu
  lines : Lines
  slave : σ
  trace : List Event
  ports : List (BitVec 8 × BitVec 8)

namespace Board

variable {σ : Type} (S : Slave σ)

def levels (b : Board σ) : Lines :=
  let scl := b.mcu.sclOut && S.scl b.slave
  ⟨b.mcu.sdaOut scl && S.sda b.slave, scl⟩

/-- The lines take their levels and the USI senses the change. -/
def settle (b : Board σ) : Board σ :=
  { b with
    mcu := b.mcu.sense b.lines (b.levels S)
    lines := b.levels S
    trace := b.trace ++ edges b.lines (b.levels S) (S.sda b.slave) }

def react (b : Board σ) : Board σ := { b with slave := S.react b.slave b.lines }

/-- One sample: the lines settle, the slave reacts, the lines settle again. -/
def tick (b : Board σ) : Board σ := ((b.settle S).react S).settle S

/-- The registers after a write, the lines still as they were. -/
def written (f : Mcu → Mcu) (b : Board σ) : Board σ :=
  { b with
    mcu := f b.mcu
    ports := b.ports ++ [((f b.mcu).ddrb, (f b.mcu).portb)] }

/-- A write to a register of the microcontroller. -/
def access (f : Mcu → Mcu) (b : Board σ) : Board σ := (b.written f).tick S

/-- PINB. Only the two pins of the bus are modelled; the others read as zero. -/
def pinb (b : Board σ) : BitVec 8 :=
  (if b.lines.sda then bv pb0 else 0#8) ||| (if b.lines.scl then bv pb2 else 0#8)

end Board

section Registers

variable {σ : Type} (S : Slave σ)

def ddrbOr (mask : BitVec 8) : Program (Board σ) Unit :=
  modify (Board.access S fun m => { m with ddrb := m.ddrb ||| mask })

def ddrbAnd (mask : BitVec 8) : Program (Board σ) Unit :=
  modify (Board.access S fun m => { m with ddrb := m.ddrb &&& mask })

def portbOr (mask : BitVec 8) : Program (Board σ) Unit :=
  modify (Board.access S fun m => { m with portb := m.portb ||| mask })

def portbAnd (mask : BitVec 8) : Program (Board σ) Unit :=
  modify (Board.access S fun m => { m with portb := m.portb &&& mask })

def usidrSet (v : BitVec 8) : Program (Board σ) Unit :=
  modify (Board.access S fun m => { m with usidr := v })

def usicrSet (v : BitVec 8) : Program (Board σ) Unit :=
  modify (Board.access S fun m => m.writeUsicr v)

/-- `USICR |= mask`, a single bit set instruction on this device. -/
def usicrOr (mask : BitVec 8) : Program (Board σ) Unit :=
  modify (Board.access S fun m => m.writeUsicr (m.usicr ||| mask))

def usisrSet (v : BitVec 8) : Program (Board σ) Unit :=
  modify (Board.access S fun m => m.writeUsisr v)

/-- PORTB as read back: the output register, not the pins. -/
def readPortb : Program (Board σ) (BitVec 8) := do
  return (← get).mcu.portb

def readUsidr : Program (Board σ) (BitVec 8) := do
  return (← get).mcu.usidr

def readUsisr : Program (Board σ) (BitVec 8) := do
  return (← get).mcu.readUsisr

/-- A poll of the pins. -/
def readPinb : Program (Board σ) (BitVec 8) := do
  let b ← get
  set (b.tick S)
  return b.pinb

def delayUs (n : Nat) : Program (Board σ) Unit :=
  modify (Board.tick S)^[n]

def delayMs (n : Nat) : Program (Board σ) Unit :=
  delayUs S (1000 * n)

end Registers

end NesMiniAdapter.Attiny85
