import NesMiniAdapter.Attiny85

/-!
The old bit-banging driver, `i2cattiny85/i2cattiny85.c`.
-/

namespace NesMiniAdapter.I2cAttiny85

open NesMiniAdapter.ByteBits
open NesMiniAdapter.FuelledProgram
open NesMiniAdapter.OpenDrainBus
open NesMiniAdapter.Attiny85

abbrev portSda : Nat := pb0
abbrev portScl : Nat := pb2
abbrev pinSda : Nat := pb0
abbrev pinScl : Nat := pb2

variable {σ : Type} (S : Slave σ)

def i2cReadSda : Program (Board σ) (BitVec 8) := do
  return if (← readPinb S) &&& bv pinSda != 0#8 then 1#8 else 0#8

def i2cReadScl : Program (Board σ) (BitVec 8) := do
  return if (← readPinb S) &&& bv pinScl != 0#8 then 1#8 else 0#8

def i2cSetSda : Program (Board σ) Unit := do
  ddrbAnd S (~~~bv portSda)
  portbOr S (bv portSda)

def i2cSetScl : Program (Board σ) Unit := do
  ddrbAnd S (~~~bv portScl)
  portbOr S (bv portScl)

def i2cClearSda : Program (Board σ) Unit := do
  ddrbOr S (bv portSda)
  portbAnd S (~~~bv portSda)

def i2cClearScl : Program (Board σ) Unit := do
  ddrbOr S (bv portScl)
  portbAnd S (~~~bv portScl)

def i2cDelay : Program (Board σ) Unit := delayMs S 1

/-- `while (i2c_read_scl() == 0) { }` -/
def waitScl : Program (Board σ) Unit :=
  whileLoop (do return (← i2cReadScl S) == 0#8) (pure ())

def i2cStart : Program (Board σ) Unit := do
  i2cSetSda S
  i2cSetScl S
  i2cDelay S
  i2cClearSda S
  i2cClearScl S

def i2cStop : Program (Board σ) Unit := do
  i2cClearSda S
  i2cDelay S
  i2cSetScl S
  waitScl S
  i2cDelay S
  i2cSetSda S

def i2cWriteSingleBit (bit : BitVec 8) : Program (Board σ) Unit := do
  (if bit != 0#8 then i2cSetSda S else i2cClearSda S)
  i2cSetScl S
  waitScl S
  i2cClearScl S

def i2cReadSingleBit : Program (Board σ) (BitVec 8) := do
  i2cSetSda S
  i2cSetScl S
  waitScl S
  let bit ← i2cReadSda S
  i2cClearScl S
  return bit

/-- The loop of `i2c_write_byte`, with `n` rounds to go. -/
def writeBits : Nat → BitVec 8 → Program (Board σ) Unit
  | 0, _ => pure ()
  | n + 1, byte => do
      i2cWriteSingleBit S (if byte &&& 0x80#8 != 0#8 then 1#8 else 0#8)
      writeBits n (byte <<< 1)

def i2cWriteByte (byte : BitVec 8) : Program (Board σ) (BitVec 8) := do
  writeBits S 8 byte
  i2cReadSingleBit S

/-- The loop of `i2c_read_byte`, with `n` rounds to go. -/
def readBits : Nat → BitVec 8 → Program (Board σ) (BitVec 8)
  | 0, byte => return byte
  | n + 1, byte => do
      let bit ← i2cReadSingleBit S
      readBits n (byte <<< 1 ||| bit)

def i2cReadByte (nack : BitVec 8) : Program (Board σ) (BitVec 8) := do
  let byte ← readBits S 8 0#8
  i2cWriteSingleBit S nack
  return byte

end NesMiniAdapter.I2cAttiny85
