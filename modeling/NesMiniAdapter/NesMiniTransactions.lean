import Mathlib.Data.List.Forall2
import NesMiniAdapter.NesMiniController

/-!
The functions of the controller driver as transactions on the bus, and the
rules for them and for the main loop.
-/

namespace NesMiniAdapter.NesMiniTransactions

open NesMiniAdapter.FuelledProgram
open NesMiniAdapter.I2cTransaction
open NesMiniAdapter.NesMiniController

/-- 0x55 into register 0xF0. -/
def connectCalls : List Call :=
  [.write nesI2cAddressWrite, .write 0xF0#8, .write 0x55#8]

/-- The register pointer to 0x00. -/
def selectCalls : List Call :=
  [.write nesI2cAddressWrite, .write 0x00#8]

/-- The reads of `readButtons` from round `x` on. -/
def readCalls (x : Nat) : Nat → List Call
  | 0 => []
  | n + 1 => .read (if x ≥ 5 then 0xFF#8 else 0x00#8) :: readCalls (x + 1) n

/-- Six registers from the pointer on. -/
def readoutCalls : List Call :=
  .write nesI2cAddressRead :: readCalls 0 6

/-- Bit 0 of the first result: whether the address byte was acknowledged. -/
def addressAck : List (BitVec 8) → Bool
  | nack :: _ => nack &&& 0x01#8 == 0#8
  | [] => false

/-- `connected` as the driver sets it. -/
def connectedBy (rs : List (BitVec 8)) : BitVec 8 :=
  if addressAck rs then 1#8 else 0#8

/-- What `readButtons` makes of the bytes from round `x` on. -/
def decodeFrom (x : Nat) (buttons : BitVec 16) : List (BitVec 8) → BitVec 16
  | [] => buttons
  | read :: reads =>
      decodeFrom (x + 1)
        (if x ≥ 4 then
          if x = 4 then (buttons ||| (read ^^^ 0xFF#8).setWidth 16) <<< 8
          else buttons ||| (read ^^^ 0xFF#8).setWidth 16
        else buttons) reads

variable {β : Type} {platform : Platform β}

theorem readButtons_eq (x n : Nat) (buttons : BitVec 16) :
    readButtons platform x buttons n = do
      let rs ← platform.calls (readCalls x n)
      return decodeFrom x buttons rs := by
  induction n generalizing x buttons with
  | zero => rfl
  | succ n ih =>
      simp only [readButtons, readCalls, I2cDriver.calls, I2cDriver.call, bind_assoc,
        pure_bind, decodeFrom, ih]

/-- The buttons as `snes_get_state` decodes the results of `readoutCalls`. -/
def decode (rs : List (BitVec 8)) : BitVec 16 := decodeFrom 0 0#16 rs.tail

theorem snesConnect_eq (state : SnesControllerState) :
    snesConnect platform state = do
      let rs ← platform.transaction connectCalls
      return { state with connected := connectedBy rs } := by
  simp only [snesConnect, I2cDriver.transaction, connectCalls, I2cDriver.calls,
    I2cDriver.call, bind_assoc, pure_bind]
  apply bind_congr
  intro _
  apply bind_congr
  intro nack
  by_cases h : nack &&& 0x01#8 = 0#8
  · simp [connectedBy, addressAck, h]
  · simp [connectedBy, addressAck, h]

theorem snesGetState_eq (state : SnesControllerState) :
    snesGetState platform state = do
      let rs ← platform.transaction selectCalls
      if addressAck rs then
        platform.delayMs 5
        let rs ← platform.transaction readoutCalls
        return ⟨decode rs, 1#8⟩
      else
        return ⟨0#16, 0#8⟩ := by
  simp only [snesGetState, I2cDriver.transaction, selectCalls, readoutCalls, I2cDriver.calls,
    I2cDriver.call, bind_assoc, pure_bind, readButtons_eq]
  apply bind_congr
  intro _
  apply bind_congr
  intro nack
  by_cases h : nack &&& 0x01#8 = 0#8
  · simp [addressAck, decode, h]
  · simp [addressAck, h]

theorem getLsbD_inverted (v : BitVec 8) (i : Nat) :
    ((v ^^^ 0xFF#8).setWidth 16).getLsbD i = (decide (i < 8) && !v.getLsbD i) := by
  have hones : (0xFF#8).getLsbD i = decide (i < 8) := by
    rw [show 0xFF#8 = BitVec.allOnes 8 by rfl, BitVec.getLsbD_allOnes]
  rw [BitVec.getLsbD_setWidth, BitVec.getLsbD_xor, hones]
  by_cases h : i < 8
  · simp [h, show i < 16 by omega]
  · simp [h, BitVec.getLsbD_of_ge v i (by omega)]

/-- The complement of the fifth and the sixth byte. -/
theorem decode_eq (ack b1 b2 b3 b4 b5 b6 : BitVec 8) :
    decode [ack, b1, b2, b3, b4, b5, b6] = ~~~(b5 ++ b6) := by
  have hdecode : decode [ack, b1, b2, b3, b4, b5, b6] =
      (0#16 ||| (b5 ^^^ 0xFF#8).setWidth 16) <<< 8 ||| (b6 ^^^ 0xFF#8).setWidth 16 := rfl
  rw [hdecode]
  apply BitVec.eq_of_getLsbD_eq
  intro i hi
  rw [BitVec.getLsbD_or, BitVec.getLsbD_shiftLeft, BitVec.getLsbD_or, getLsbD_inverted,
    getLsbD_inverted, BitVec.getLsbD_not, BitVec.getLsbD_append]
  by_cases h : i < 8
  · simp [h, hi]
  · simp [h, hi, show i - 8 < 8 by omega]

section Rules

variable {state : SnesControllerState} {b : β}

theorem snesConnect_ends {Q : SnesControllerState → β → Prop}
    (h : Ends (platform.transaction connectCalls) b fun rs b' =>
      Q { state with connected := connectedBy rs } b') :
    Ends (snesConnect platform state) b Q := by
  rw [snesConnect_eq]
  refine ends_bind (h.mono ?_)
  intro rs b' hQ
  exact ends_pure hQ

theorem snesGetState_ends {Q : SnesControllerState → β → Prop}
    (h : Ends (platform.transaction selectCalls) b fun rs b₁ =>
      if addressAck rs then
        Ends (platform.delayMs 5) b₁ fun _ b₂ =>
          Ends (platform.transaction readoutCalls) b₂ fun rs' b₃ => Q ⟨decode rs', 1#8⟩ b₃
      else Q ⟨0#16, 0#8⟩ b₁) :
    Ends (snesGetState platform state) b Q := by
  rw [snesGetState_eq]
  refine ends_bind (h.mono ?_)
  intro rs b₁ h₁
  cases hack : addressAck rs with
  | false =>
      rw [hack] at h₁
      exact ends_pure h₁
  | true =>
      rw [hack] at h₁
      refine ends_bind (h₁.mono ?_)
      intro _ b₂ h₂
      refine ends_bind (h₂.mono ?_)
      intro rs' b₃ hQ
      exact ends_pure hQ

/-- What is true of every round, given what holds between rounds. -/
theorem mainLoop_ends {ι : Type} {usb : ι → Program β Bool}
    {I : SnesControllerState → β → Prop} {Law : ι → Iteration β → Prop}
    (hround : ∀ i state b, I state b → Ends (iteration platform (usb i) state) b
      fun round b' => Law i round ∧ I round.after b')
    {is : List ι} (h : I state b) :
    Ends (mainLoop platform (is.map usb) state) b fun rounds _ =>
      List.Forall₂ Law is rounds := by
  induction is generalizing state b with
  | nil => exact ends_pure .nil
  | cons i is ih =>
      refine ends_bind ((hround i state b h).mono ?_)
      rintro round b₁ ⟨hlaw, hI⟩
      refine ends_bind ((ih hI).mono ?_)
      intro rounds b₂ hlaws
      exact ends_pure (.cons hlaw hlaws)

end Rules

end NesMiniAdapter.NesMiniTransactions
