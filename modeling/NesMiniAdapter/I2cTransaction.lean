import NesMiniAdapter.ByteBits
import NesMiniAdapter.FuelledProgram
import NesMiniAdapter.OpenDrainBus

/-!
I2C transactions as a caller of a driver sees them, byte by byte, and as the
bus sees them, slot by slot.
-/

namespace NesMiniAdapter.I2cTransaction

open NesMiniAdapter.ByteBits
open NesMiniAdapter.FuelledProgram
open NesMiniAdapter.OpenDrainBus

/-- The functions both I2C drivers define, on states `β`. -/
structure I2cDriver (β : Type) where
  i2cInit : Program β Unit
  i2cStart : Program β Unit
  i2cStop : Program β Unit
  i2cWriteByte : BitVec 8 → Program β (BitVec 8)
  i2cReadByte : BitVec 8 → Program β (BitVec 8)

/-- What a caller asks for between START and STOP. -/
inductive Call where
  | write (data : BitVec 8)
  | read (nack : BitVec 8)
  deriving DecidableEq, Repr

namespace I2cDriver

variable {β : Type} (driver : I2cDriver β)

def call : Call → Program β (BitVec 8)
  | .write data => driver.i2cWriteByte data
  | .read nack => driver.i2cReadByte nack

def calls : List Call → Program β (List (BitVec 8))
  | [] => return []
  | c :: cs => do
      let r ← driver.call c
      let rs ← calls cs
      return r :: rs

def transaction (cs : List Call) : Program β (List (BitVec 8)) := do
  driver.i2cStart
  let rs ← driver.calls cs
  driver.i2cStop
  return rs

def transactions : List (List Call) → Program β (List (List (BitVec 8)))
  | [] => return []
  | cs :: rest => do
      let rs ← driver.transaction cs
      let others ← transactions rest
      return rs :: others

end I2cDriver

/-- A byte the master sends, and the slave's acknowledge. -/
def writeSlots (data : BitVec 8) : List Slot :=
  (bitsOf data).map .master ++ [.slave]

/-- A byte the slave sends, and the bit the master answers with. -/
def readSlots (answer : Bool) : List Slot :=
  List.replicate 8 .slave ++ [.master answer]

def Call.slots : Call → List Slot
  | .write data => writeSlots data
  | .read nack => readSlots (nack.getLsbD 7)

/-- The levels on SDA in the slots of a call that returned `r`. -/
def Call.bits : Call → BitVec 8 → List Bool
  | .write data, r => bitsOf data ++ [r.getLsbD 0]
  | .read nack, r => bitsOf r ++ [nack.getLsbD 7]

theorem Call.length_slots (c : Call) (r : BitVec 8) : c.slots.length = (c.bits r).length := by
  cases c <;> rfl

def slotsOf : List Call → List Slot
  | [] => []
  | c :: cs => c.slots ++ slotsOf cs

/-- The levels in the slots of calls that returned `rs`. -/
def levelsOf : List Call → List (BitVec 8) → List Bool
  | c :: cs, r :: rs => c.bits r ++ levelsOf cs rs
  | _, _ => []

/-- The events of a transaction: START, nine pulses for each call, STOP. -/
def transactionEvents (cs : List Call) (rs : List (BitVec 8)) : List Event :=
  [.start, .fall] ++ pulses (slotsOf cs) (levelsOf cs rs) ++
    [Slot.rise (.master false) false, .stop]

def conversationEvents : List (List Call) → List (List (BitVec 8)) → List Event
  | cs :: rest, rs :: others => transactionEvents cs rs ++ conversationEvents rest others
  | _, _ => []

/-- For each call of a list one result, as `P` has it. -/
def Results (P : Call → BitVec 8 → Prop) : List Call → List (BitVec 8) → Prop
  | [], [] => True
  | c :: cs, r :: rs => P c r ∧ Results P cs rs
  | _, _ => False

def ResultLists (P : Call → BitVec 8 → Prop) :
    List (List Call) → List (List (BitVec 8)) → Prop
  | [], [] => True
  | cs :: rest, rs :: others => Results P cs rs ∧ ResultLists P rest others
  | _, _ => False

/-- What `s`, at rest, must do for a caller to hold the transactions `css` with
it: drive SDA only in the slave's slots, change it only while SCL is low, and
hold SCL only while it is low and for finitely many samples. -/
def Complies {σ : Type} (S : Slave σ) (css : List (List Call)) (s : σ) : Prop :=
  Resting S s ∧ Conversation True S (css.map slotsOf) (fun _ _ => True) s

end NesMiniAdapter.I2cTransaction
