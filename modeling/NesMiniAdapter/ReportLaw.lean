import NesMiniAdapter.NesMiniTransactions

/-!
What the main loop reports on a bus that answers as it likes.
-/

namespace NesMiniAdapter.ReportLaw

open NesMiniAdapter.ByteBits
open NesMiniAdapter.FuelledProgram
open NesMiniAdapter.I2cTransaction
open NesMiniAdapter.NesMiniController
open NesMiniAdapter.NesMiniTransactions

/-- One call of an I2C function, with what it returned. -/
inductive BusCall where
  | start
  | stop
  | call (c : Call) (r : BitVec 8)
  deriving DecidableEq, Repr

/-- A bus on which every write and read returns what `answer` makes of the calls
so far. The state is the list of these calls. -/
def adversary (answer : List BusCall → Call → BitVec 8) : Platform (List BusCall) where
  i2cInit := pure ()
  i2cStart := modify (· ++ [.start])
  i2cStop := modify (· ++ [.stop])
  i2cWriteByte data := do
    let log ← get
    set (log ++ [.call (.write data) (answer log (.write data))])
    return answer log (.write data)
  i2cReadByte nack := do
    let log ← get
    set (log ++ [.call (.read nack) (answer log (.read nack))])
    return answer log (.read nack)
  ddrbOr _ := pure ()
  portbOr _ := pure ()
  portbAnd _ := pure ()
  delayMs _ := pure ()

def callsOf (round : Iteration (List BusCall)) : List BusCall :=
  round.finish.drop round.start.length

def bytesRead (log : List BusCall) : List (BitVec 8) :=
  log.filterMap fun
    | .call (.read _) r => some r
    | _ => none

/-- What the first write of the write address returned. -/
def addressResult (log : List BusCall) : Option (BitVec 8) :=
  log.findSome? fun
    | .call (.write data) r => if data = nesI2cAddressWrite then some r else none
    | _ => none

/-- The buttons of HID bits 0 to 11. Bits 12 to 15 are constant. -/
def hidButtons : List (BitVec 16) :=
  [nesButtonUp, nesButtonRight, nesButtonDown, nesButtonLeft, nesButtonSelect, nesButtonStart,
    nesButtonB, nesButtonA, nesButtonX, nesButtonY, nesButtonL, nesButtonR]

/-- A bit of the report, low byte first. -/
def hidBit (report : SnesReport) (i : Nat) : Bool :=
  (report.snesButtonMask ++ report.commonButtonMask).getLsbD i

/-- Whether HID bit `i` is a button that is down in `buttons`. -/
def hidPressed (buttons : BitVec 16) (i : Nat) : Bool :=
  hidButtons[i]?.any fun button => buttons &&& button != 0#16

def zeroReport : SnesReport := ⟨0#8, 0#8⟩

/-- What a round may report. -/
def Lawful (round : Iteration (List BusCall)) (report : SnesReport) : Prop :=
  if round.before.connected = 0#8 ∨
      (addressResult (callsOf round)).any (· &&& 0x01#8 != 0#8) then
    report = zeroReport
  else
    ∃ b1 b2 b3 b4 b5 b6, bytesRead (callsOf round) = [b1, b2, b3, b4, b5, b6] ∧
      ∀ i, hidBit report i = hidPressed (~~~(b5 ++ b6)) i

theorem addButton_getLsbD (buttons button : BitVec 16) (bit : Nat) (mask : BitVec 8)
    {i : Nat} (hi : i < 8) :
    (addButton buttons button bit mask).getLsbD i =
      (mask.getLsbD i || decide (bit = i) && (buttons &&& button != 0#16)) := by
  unfold addButton
  by_cases h : buttons &&& button = 0#16
  · simp [h]
  · have hdown : (buttons &&& button != 0#16) = true := by simpa using h
    rw [if_pos h, getLsbD_or_bv _ _ hi, hdown, Bool.and_true]

theorem firstButton_eq (buttons button : BitVec 16) :
    (if buttons &&& button ≠ 0#16 then 0x01#8 else 0x00#8) =
      addButton buttons button 0 0x00#8 := rfl

theorem hidBit_snesSetReportButtons (state : SnesControllerState) (i : Nat) :
    hidBit (snesSetReportButtons state) i = hidPressed state.buttons i := by
  rw [hidBit, BitVec.getLsbD_append]
  by_cases hlow : i < 8
  · simp only [hlow, snesSetReportButtons, firstButton_eq, addButton_getLsbD _ _ _ _ hlow]
    match i, hlow with
    | 0, _ | 1, _ | 2, _ | 3, _ | 4, _ | 5, _ | 6, _ | 7, _ => simp [hidPressed, hidButtons]
  · obtain ⟨j, rfl⟩ := Nat.exists_eq_add_of_le' (Nat.le_of_not_lt hlow)
    simp only [hlow, if_false, Nat.add_sub_cancel]
    by_cases hhigh : j < 8
    · simp only [snesSetReportButtons, firstButton_eq, addButton_getLsbD _ _ _ _ hhigh]
      match j, hhigh with
      | 0, _ | 1, _ | 2, _ | 3, _ | 4, _ | 5, _ | 6, _ | 7, _ => simp [hidPressed, hidButtons]
    · rw [BitVec.getLsbD_of_ge _ _ (by omega), hidPressed,
        List.getElem?_eq_none (by simp [hidButtons]; omega)]
      rfl

theorem hidPressed_zero (i : Nat) : hidPressed 0#16 i = false := by
  unfold hidPressed
  cases hidButtons[i]? <;> simp

section Adversary

variable {answer : List BusCall → Call → BitVec 8} {log : List BusCall}

theorem call_ends (c : Call) : Ends ((adversary answer).call c) log fun r log' =>
    log' = log ++ [.call c r] := by
  cases c with
  | write data => exact ⟨_, _, rfl, 0, fun _ _ => rfl⟩
  | read nack => exact ⟨_, _, rfl, 0, fun _ _ => rfl⟩

theorem calls_ends (cs : List Call) : Ends ((adversary answer).calls cs) log fun rs log' =>
    rs.length = cs.length ∧ log' = log ++ List.zipWith .call cs rs := by
  induction cs generalizing log with
  | nil => exact ends_pure ⟨rfl, by simp⟩
  | cons c cs ih =>
      refine ends_bind ((call_ends c).mono ?_)
      rintro r log₁ rfl
      refine ends_bind (ih.mono ?_)
      rintro rs log₂ ⟨hlength, rfl⟩
      exact ends_pure ⟨by simp [hlength], by simp⟩

def transactionLog (cs : List Call) (rs : List (BitVec 8)) : List BusCall :=
  [.start] ++ List.zipWith .call cs rs ++ [.stop]

theorem transaction_ends (cs : List Call) :
    Ends ((adversary answer).transaction cs) log fun rs log' =>
      rs.length = cs.length ∧ log' = log ++ transactionLog cs rs := by
  refine ends_bind (ends_modify ?_)
  refine ends_bind ((calls_ends cs).mono ?_)
  rintro rs log₂ ⟨hlength, rfl⟩
  refine ends_bind (ends_modify ?_)
  exact ends_pure ⟨hlength, by simp [transactionLog]⟩

/-- What a poll that starts with `connected` leaves in `buttons`, given its calls. -/
def Polled (connected : BitVec 8) (calls : List BusCall) (buttons : BitVec 16) : Prop :=
  if connected = 0#8 ∨ (addressResult calls).any (· &&& 0x01#8 != 0#8) then
    buttons = 0#16
  else
    ∃ b1 b2 b3 b4 b5 b6, bytesRead calls = [b1, b2, b3, b4, b5, b6] ∧
      buttons = ~~~(b5 ++ b6)

/-- The driver clears the buttons when it finds the controller gone. -/
def Cleared (state : SnesControllerState) : Prop :=
  state.connected = 0#8 → state.buttons = 0#16

theorem addressResult_select (nack r : BitVec 8) (log : List BusCall) :
    addressResult (transactionLog selectCalls [nack, r] ++ log) = some nack := by
  simp [addressResult, transactionLog, selectCalls]

theorem snesConnect_keeps (state : SnesControllerState) :
    Ends (snesConnect (adversary answer) state) log fun after log' =>
      after.buttons = state.buttons ∧ ∃ calls, log' = log ++ calls := by
  refine snesConnect_ends ((transaction_ends _).mono ?_)
  rintro rs log' ⟨-, rfl⟩
  exact ⟨rfl, _, rfl⟩

theorem snesGetState_polled {state : SnesControllerState} (h : state.connected ≠ 0#8) :
    Ends (snesGetState (adversary answer) state) log fun after log' =>
      Cleared after ∧ ∃ calls, log' = log ++ calls ∧
        Polled state.connected calls after.buttons := by
  refine snesGetState_ends ((transaction_ends _).mono ?_)
  rintro rs log₁ ⟨hlength, rfl⟩
  match rs, hlength with
  | [nack, r], _ =>
      have hnack : (nack &&& 0x01#8 != 0#8) = !addressAck [nack, r] := rfl
      cases hack : addressAck [nack, r] with
      | false =>
          refine ⟨fun _ => rfl, _, rfl, ?_⟩
          rw [Polled, if_pos]
          right
          rw [← List.append_nil (transactionLog _ _), addressResult_select, Option.any_some,
            hnack, hack]
          rfl
      | true =>
          refine ends_pure ((transaction_ends _).mono ?_)
          rintro rs' log₂ ⟨hlength', rfl⟩
          match rs', hlength' with
          | [ack, b1, b2, b3, b4, b5, b6], _ =>
              refine ⟨fun hzero => by simp at hzero, _, List.append_assoc _ _ _, ?_⟩
              rw [Polled, if_neg]
              · exact ⟨b1, b2, b3, b4, b5, b6, rfl, decode_eq ack b1 b2 b3 b4 b5 b6⟩
              · rw [addressResult_select, Option.any_some, hnack, hack]
                simpa using h

/-- While the controller is away the buttons stay cleared: `snes_connect` leaves
them alone. -/
theorem poll_polled {state : SnesControllerState} (h : Cleared state) :
    Ends (poll (adversary answer) state) log fun after log' =>
      Cleared after ∧ ∃ calls, log' = log ++ calls ∧
        Polled state.connected calls after.buttons := by
  unfold poll
  by_cases hconnected : state.connected = 0#8
  · rw [if_neg (by simpa using hconnected)]
    refine ends_bind (ends_pure ?_)
    refine ends_bind ((snesConnect_keeps state).mono ?_)
    rintro after log' ⟨hbuttons, calls, hcalls⟩
    have hzero : after.buttons = 0#16 := hbuttons.trans (h hconnected)
    have hdone : Cleared after ∧ ∃ calls, log' = log ++ calls ∧
        Polled state.connected calls after.buttons :=
      ⟨fun _ => hzero, calls, hcalls, by rw [Polled, if_pos (Or.inl hconnected)]; exact hzero⟩
    refine ends_bind ?_
    by_cases hafter : after.connected ≠ 0#8
    · rw [if_pos hafter]
      exact ends_pure (ends_pure hdone)
    · rw [if_neg hafter]
      exact ends_pure (ends_pure hdone)
  · rw [if_pos hconnected]
    exact snesGetState_polled hconnected

theorem showButtons_ends (state : SnesControllerState) :
    Ends (showButtons (adversary answer) state) log fun _ log' => log' = log := by
  unfold showButtons
  split_ifs
  · exact ends_pure rfl
  · exact ends_pure rfl
  · exact ends_pure rfl

/-- A report shows the buttons the poll left. -/
theorem lawful_of_polled {round : Iteration (List BusCall)} {calls : List BusCall}
    (hcalls : round.finish = round.start ++ calls)
    (h : Polled round.before.connected calls round.after.buttons) :
    Lawful round (snesSetReportButtons round.after) := by
  have hcallsOf : callsOf round = calls := by
    rw [callsOf, hcalls, List.drop_left]
  rw [Lawful, hcallsOf]
  rw [Polled] at h
  split_ifs at h ⊢ with hcond
  · unfold snesSetReportButtons
    rw [h]
    rfl
  · obtain ⟨b1, b2, b3, b4, b5, b6, hread, hbuttons⟩ := h
    refine ⟨b1, b2, b3, b4, b5, b6, hread, ?_⟩
    intro i
    rw [hidBit_snesSetReportButtons, hbuttons]

theorem iteration_lawful {ready : Bool} {state : SnesControllerState} (h : Cleared state) :
    Ends (iteration (adversary answer) (pure ready) state) log fun round _ =>
      (round.report.isSome = ready ∧ ∀ report, round.report = some report → Lawful round report) ∧
        Cleared round.after := by
  unfold iteration
  refine ends_bind (ends_pure ?_)
  refine ends_bind (ends_get ?_)
  refine ends_bind ?_
  cases ready with
  | false =>
      refine ends_pure ?_
      refine ends_bind ((showButtons_ends state).mono ?_)
      rintro _ log' rfl
      refine ends_bind (ends_get ?_)
      exact ends_pure ⟨⟨rfl, fun _ hreport => by simp at hreport⟩, h⟩
  | true =>
      refine ends_bind ((poll_polled h).mono ?_)
      rintro after log' ⟨hcleared, calls, hcalls, hpolled⟩
      refine ends_pure ?_
      refine ends_bind ((showButtons_ends after).mono ?_)
      rintro _ log'' rfl
      refine ends_bind (ends_get ?_)
      refine ends_pure ⟨⟨rfl, ?_⟩, hcleared⟩
      rintro report ⟨⟩
      exact lawful_of_polled hcalls hpolled

/-- Whatever the bus answers, `main` goes on, and every report is lawful. -/
theorem reports_lawful (answer : List BusCall → Call → BitVec 8) (readies : List Bool) :
    Ends (main (adversary answer) (readies.map pure)) [] fun rounds _ =>
      List.Forall₂ (fun ready round => round.report.isSome = ready ∧
        ∀ report, round.report = some report → Lawful round report) readies rounds := by
  refine ends_bind (ends_pure ?_)
  refine ends_bind (ends_pure ?_)
  refine ends_bind ((snesConnect_keeps _).mono ?_)
  rintro state log ⟨hbuttons, -⟩
  refine mainLoop_ends (I := fun state _ => Cleared state) ?_ (fun _ => hbuttons)
  intro ready state' log' hcleared
  exact iteration_lawful hcleared

end Adversary

end NesMiniAdapter.ReportLaw
