import NesMiniAdapter.ByteBits
import NesMiniAdapter.FuelledProgram

/-!
The transmitter of `utils/uart_raw.c`. The level of its pin is recorded once
for each `DELAY_US`.
-/

namespace NesMiniAdapter.UartRaw

open NesMiniAdapter.ByteBits
open NesMiniAdapter.FuelledProgram

abbrev uartTxPin : Nat := 4

/-- The registers behind the pin, and the line so far. -/
structure Uart where
  ddrb : BitVec 8
  portb : BitVec 8
  samples : List Bool
  deriving DecidableEq, Repr

namespace Uart

/-- The level on the line. As an input, the pin leaves it idle at 1. -/
def level (u : Uart) : Bool := !u.ddrb.getLsbD uartTxPin || u.portb.getLsbD uartTxPin

def delay (u : Uart) : Uart := { u with samples := u.samples ++ [u.level] }

end Uart

def uartRawInit (u : Uart) : Uart := { u with ddrb := u.ddrb ||| bv uartTxPin }

def uartRawTx1 (u : Uart) : Uart := { u with portb := u.portb ||| bv uartTxPin }

def uartRawTx0 (u : Uart) : Uart := { u with portb := u.portb &&& ~~~bv uartTxPin }

/-- The loop of `uart_raw_send_byte`, with `n` rounds to go. -/
def sendBits : Nat → BitVec 8 → Uart → Uart
  | 0, _, u => u
  | n + 1, byte, u =>
      let u := if byte &&& 0x01#8 ≠ 0#8 then uartRawTx1 u else uartRawTx0 u
      sendBits n (byte >>> 1) u.delay

def uartRawSendByte (byte : BitVec 8) (u : Uart) : Uart :=
  let u := (uartRawTx0 u).delay
  let u := sendBits 8 byte u
  (uartRawTx1 u).delay

/-- The loop of `uart_raw_send_string` from index `i`, with `n` rounds to go. A
read outside the string is `none`. -/
def sendChars (string : List (BitVec 8)) (i : Nat) : Nat → Uart → Option Uart
  | 0, u => some u
  | n + 1, u => do
      let c ← string[i]?
      sendChars string (i + 1) n (uartRawSendByte c u)

def uartRawSendString (string : List (BitVec 8)) (length : BitVec 8) (u : Uart) : Option Uart :=
  sendChars string 0 length.toNat u

/-- The first NUL of a block of memory, `none` if the search leaves the block. -/
def firstNul : List (BitVec 8) → Option Nat
  | [] => none
  | c :: cs => if c = 0#8 then some 0 else (firstNul cs).map (· + 1)

/-- `strcat(dest, src)`, with the block `dest` points to and the characters of
`src` before its NUL. An access outside the block is `none`. -/
def strcat (dest src : List (BitVec 8)) : Option (List (BitVec 8)) := do
  let p ← firstNul dest
  if p + src.length + 1 ≤ dest.length then
    some (dest.take p ++ src ++ [0#8] ++ dest.drop (p + src.length + 1))
  else none

def lineEnd : List (BitVec 8) := [0x0A#8, 0x0D#8]

/-- `length_2`, a signed `char` on AVR. -/
def lengthTwo (length : BitVec 8) : BitVec 8 := length + 2#8

/-- `length_2` as the argument of `malloc`. -/
def mallocSize (length : BitVec 8) : BitVec 16 := (lengthTwo length).signExtend 16

/-- `malloc` is given by what the block of a size contains at first. -/
def uartRawSendLine (malloc : (size : BitVec 16) → Vector (BitVec 8) size.toNat)
    (string : List (BitVec 8)) (length : BitVec 8) (u : Uart) : Option Uart := do
  let string2 := (malloc (mallocSize length)).toList
  let string2 ← strcat string2 string
  let string2 ← strcat string2 lineEnd
  uartRawSendString string2 (lengthTwo length) u

/-- `h` is a signed `char`. -/
def hexAscii (h : BitVec 8) : BitVec 8 :=
  let h := h &&& 0x0F#8
  let h := if (10#8).sle h then h + (0x61#8 - 10#8 - 0x30#8) else h
  h + 0x30#8

/-- `string[i]`; a read outside the string is `none`. -/
def charAt (string : List (BitVec 8)) (i : BitVec 8) : Program Uart (BitVec 8) :=
  fun _ u => (string[i.toNat]?).map fun c => (c, u)

/-- `c >> 4` as a `char`: `c` is promoted to `int` with its sign. -/
def shiftedChar (c : BitVec 8) : BitVec 8 := ((c.signExtend 16).sshiftRight 4).setWidth 8

def uartRawSendHexLine (string : List (BitVec 8)) (length : BitVec 8) : Program Uart Unit := do
  forBelow length fun i => do
    let c ← charAt string i
    modify (uartRawSendByte (hexAscii (shiftedChar c)))
    modify (uartRawSendByte (hexAscii c))
  modify (uartRawSendByte 0x0A#8)
  modify (uartRawSendByte 0x0D#8)

end NesMiniAdapter.UartRaw
