import NesMiniAdapter.NesMiniTransactions
import NesMiniAdapter.UsiPlatform

/-!
The controller as a file of registers on the bus, and the driver on the wires
with it.
-/

namespace NesMiniAdapter.RegisterController

open NesMiniAdapter.FuelledProgram
open NesMiniAdapter.Attiny85
open NesMiniAdapter.EventDriven
open NesMiniAdapter.GpioPins
open NesMiniAdapter.ByteDriven
open NesMiniAdapter.UsiConversation
open NesMiniAdapter.NesMiniController
open NesMiniAdapter.NesMiniTransactions
open NesMiniAdapter.UsiPlatform

/-- The registers and the pointer. `pointed` tells whether a write has set the
pointer since the controller was last addressed. -/
structure Registers where
  file : BitVec 8 → BitVec 8
  pointer : BitVec 8
  pointed : Bool

def store (file : BitVec 8 → BitVec 8) (register value : BitVec 8) : BitVec 8 → BitVec 8 :=
  fun r => if r = register then value else file r

def press (register4 register5 : BitVec 8) (file : BitVec 8 → BitVec 8) :
    BitVec 8 → BitVec 8 :=
  store (store file 0x04#8 register4) 0x05#8 register5

/-- A slave at address 0x52. The first byte written sets the pointer, which
moves on after every other byte. -/
def registerSlave : ByteSlave Registers where
  address byte s := (byte >>> 1 == 0x52#8, { s with pointed := false })
  take byte s :=
    (true,
      if s.pointed then
        { s with file := store s.file s.pointer byte, pointer := s.pointer + 1 }
      else
        { s with pointer := byte, pointed := true })
  give s := s.file s.pointer
  gave s := { s with pointer := s.pointer + 1 }

/-- The controller on the lines. It holds SCL after the `n`-th falling edge for
`hold n` samples. -/
def controller (hold : Nat → Nat) : EventSlave (BitState Registers) :=
  registerSlave.toEventSlave hold

section Transactions

variable {hold : Nat → Nat} {file : BitVec 8 → BitVec 8} {pointer : BitVec 8} {pointed : Bool}
  {n : Nat}

theorem connect_transacts :
    Transacts True (controller hold) connectCalls ⟨⟨file, pointer, pointed⟩, .idle, n⟩
      [0xFE#8, 0xFE#8, 0xFE#8]
      ⟨⟨store file 0xF0#8 0x55#8, 0xF1#8, true⟩, .idle, n + 28⟩ := by
  have hcalls : PerformsAll True (controller hold) connectCalls
      ⟨⟨file, pointer, pointed⟩, .receive true [], n + 1⟩ [0xFE#8, 0xFE#8, 0xFE#8]
      ⟨⟨store file 0xF0#8 0x55#8, 0xF1#8, true⟩, .receive false [], n + 28⟩ :=
    ⟨_, performs_write rfl, _, performs_write rfl, _, performs_write rfl, rfl⟩
  exact transacts_of_performs rfl hcalls rfl

theorem select_transacts :
    Transacts True (controller hold) selectCalls ⟨⟨file, pointer, pointed⟩, .idle, n⟩
      [0xFE#8, 0xFE#8] ⟨⟨file, 0x00#8, true⟩, .idle, n + 19⟩ := by
  have hcalls : PerformsAll True (controller hold) selectCalls
      ⟨⟨file, pointer, pointed⟩, .receive true [], n + 1⟩ [0xFE#8, 0xFE#8]
      ⟨⟨file, 0x00#8, true⟩, .receive false [], n + 19⟩ :=
    ⟨_, performs_write rfl, _, performs_write rfl, rfl⟩
  exact transacts_of_performs rfl hcalls rfl

def sixRegisters (file : BitVec 8 → BitVec 8) : List (BitVec 8) :=
  [file 0x00#8, file 0x01#8, file 0x02#8, file 0x03#8, file 0x04#8, file 0x05#8]

theorem readout_transacts :
    Transacts True (controller hold) readoutCalls ⟨⟨file, 0x00#8, pointed⟩, .idle, n⟩
      (0xFE#8 :: sixRegisters file) ⟨⟨file, 0x06#8, false⟩, .idle, n + 64⟩ := by
  have hcalls : PerformsAll True (controller hold) readoutCalls
      ⟨⟨file, 0x00#8, pointed⟩, .receive true [], n + 1⟩ (0xFE#8 :: sixRegisters file)
      ⟨⟨file, 0x06#8, false⟩, .idle, n + 64⟩ :=
    ⟨_, performs_write rfl, _, performs_read _, _, performs_read _, _, performs_read _,
      _, performs_read _, _, performs_read _, _, performs_read _, rfl⟩
  exact transacts_of_performs rfl hcalls rfl

end Transactions

/-- The bus is idle, and the controller's registers are `file`. -/
def Holds (hold : Nat → Nat) (file : BitVec 8 → BitVec 8)
    (b : Board (Watch (BitState Registers))) : Prop :=
  ∃ pointer pointed n, Rests (controller hold) ⟨⟨file, pointer, pointed⟩, .idle, n⟩ b

section Driver

variable {hold : Nat → Nat} {file : BitVec 8 → BitVec 8} {state : SnesControllerState}
  {b : Board (Watch (BitState Registers))}

theorem connect_ends (h : Holds hold file b) :
    Ends (snesConnect (usiPlatform (controller hold).toSlave) state) b fun state' b' =>
      state' = { state with connected := 1#8 } ∧ Holds hold (store file 0xF0#8 0x55#8) b' := by
  obtain ⟨pointer, pointed, n, hrests⟩ := h
  refine snesConnect_ends ((transaction_ends connect_transacts (by simp [connectCalls])
    hrests).mono ?_)
  rintro rs b' ⟨rfl, hrests'⟩
  exact ⟨rfl, _, _, _, hrests'⟩

theorem getState_ends (h : Holds hold file b) :
    Ends (snesGetState (usiPlatform (controller hold).toSlave) state) b fun state' b' =>
      state' = ⟨~~~(file 0x04#8 ++ file 0x05#8), 1#8⟩ ∧ Holds hold file b' := by
  obtain ⟨pointer, pointed, n, hrests⟩ := h
  refine snesGetState_ends ((transaction_ends select_transacts (by simp [selectCalls])
    hrests).mono ?_)
  rintro rs b₁ ⟨rfl, hrests₁⟩
  refine (delayMs_ends hrests₁ rfl 5).mono ?_
  intro _ b₂ hrests₂
  refine (transaction_ends readout_transacts (by simp [readoutCalls]) hrests₂).mono ?_
  rintro rs b₃ ⟨rfl, hrests₃⟩
  exact ⟨by rw [sixRegisters, decode_eq], _, _, _, hrests₃⟩

end Driver

/-- A call of the driver, and what the controller's button registers are by then. -/
inductive Request where
  | connect
  | getState
  deriving DecidableEq, Repr

structure Step where
  register4 : BitVec 8
  register5 : BitVec 8
  request : Request
  deriving DecidableEq, Repr

def Request.run {β : Type} (platform : Platform β) (state : SnesControllerState) :
    Request → Program β SnesControllerState
  | .connect => snesConnect platform state
  | .getState => snesGetState platform state

/-- The buttons change between the calls. The results are the driver's state and
the registers after each call. -/
def session (platform : Platform (Board (Watch (BitState Registers)))) :
    List Step → SnesControllerState →
      Program (Board (Watch (BitState Registers)))
        (List (SnesControllerState × (BitVec 8 → BitVec 8)))
  | [], _ => return []
  | step :: steps, state => do
      modify fun b => { b with
        slave.state.bytes.file :=
          press step.register4 step.register5 b.slave.state.bytes.file }
      let state ← step.request.run platform state
      let b ← get
      let rest ← session platform steps state
      return (state, b.slave.state.bytes.file) :: rest

end NesMiniAdapter.RegisterController
