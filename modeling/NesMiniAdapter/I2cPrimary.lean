import NesMiniAdapter.Attiny85

/-!
The USI driver, `i2cattiny85/i2c_primary.c`.
-/

namespace NesMiniAdapter.I2cPrimary

open NesMiniAdapter.ByteBits
open NesMiniAdapter.FuelledProgram
open NesMiniAdapter.OpenDrainBus
open NesMiniAdapter.Attiny85

abbrev pinSda : Nat := pb0
abbrev pinScl : Nat := pb2

abbrev waitLong : Nat := 5
abbrev waitShort : Nat := 4

abbrev usisrClock8Bits : BitVec 8 := 0b11110000#8
abbrev usisrClock1Bit : BitVec 8 := 0b11111110#8

variable {σ : Type} (S : Slave σ)

def i2cInit : Program (Board σ) Unit := do
  ddrbOr S (bv pinSda)
  ddrbOr S (bv pinScl)
  portbOr S (bv pinScl)
  portbOr S (bv pinSda)
  usidrSet S 0xFF#8
  usicrSet S (bv usiwm1 ||| bv usics1 ||| bv usiclk)
  usisrSet S (bv usisif ||| bv usioif ||| bv usipf ||| bv usidc ||| 0x0#8 <<< usicnt0)

/-- The first half of `i2c_start`: SDA and SCL are released, and the loop asks
PORTB, not PINB, whether SCL is high. -/
def i2cStartRelease : Program (Board σ) Unit := do
  portbOr S (bv pinSda)
  portbOr S (bv pinScl)
  whileLoop (do return (← readPortb) &&& bv pinScl == 0#8) (pure ())

/-- The second half, from the write that pulls SDA low. -/
def i2cStartPull : Program (Board σ) Unit := do
  portbAnd S (~~~bv pinSda)
  delayUs S waitLong
  portbAnd S (~~~bv pinScl)
  portbOr S (bv pinSda)

def i2cStart : Program (Board σ) Unit := do
  i2cStartRelease S
  i2cStartPull S

/-- `!(PINB & (1 << PIN_SCL))` -/
def sclLow : Program (Board σ) Bool := do
  return (← readPinb S) &&& bv pinScl == 0#8

def i2cStop : Program (Board σ) Unit := do
  portbAnd S (~~~bv pinSda)
  portbOr S (bv pinScl)
  whileLoop (sclLow S) (pure ())
  delayUs S waitLong
  portbOr S (bv pinSda)
  delayUs S waitShort

/-- One round of the loop of `i2c_transfer`: a clock pulse. -/
def clockPulse : Program (Board σ) Unit := do
  delayUs S waitLong
  usicrOr S (bv usitc)
  whileLoop (sclLow S) (pure ())
  delayUs S waitShort
  usicrOr S (bv usitc)

def i2cTransfer (usisrMask : BitVec 8) : Program (Board σ) (BitVec 8) := do
  portbAnd S (~~~bv pinScl)
  usisrSet S usisrMask
  doWhile (clockPulse S) (do return (← readUsisr) &&& bv usioif == 0#8)
  delayUs S waitLong
  let temp ← readUsidr
  usidrSet S 0xFF#8
  return temp

def i2cWriteByte (data : BitVec 8) : Program (Board σ) (BitVec 8) := do
  usidrSet S data
  let _ ← i2cTransfer S usisrClock8Bits
  ddrbAnd S (~~~bv pinSda)
  let nack ← i2cTransfer S usisrClock1Bit
  ddrbOr S (bv pinSda)
  return nack

def i2cReadByte (nack : BitVec 8) : Program (Board σ) (BitVec 8) := do
  ddrbAnd S (~~~bv pinSda)
  let data ← i2cTransfer S usisrClock8Bits
  ddrbOr S (bv pinSda)
  usidrSet S nack
  let _ ← i2cTransfer S usisrClock1Bit
  return data

end NesMiniAdapter.I2cPrimary
