import NesMiniAdapter.RegisterController
import NesMiniAdapter.ReportLaw
import NesMiniAdapter.SocketCalls

/-!
The main loop over the wires, with a controller that is pulled out for good at
some edge of SCL.
-/

namespace NesMiniAdapter.HotUnplug

open NesMiniAdapter.FuelledProgram
open NesMiniAdapter.Attiny85
open NesMiniAdapter.EventDriven
open NesMiniAdapter.ByteDriven
open NesMiniAdapter.I2cTransaction
open NesMiniAdapter.UsiConversation
open NesMiniAdapter.NesMiniController
open NesMiniAdapter.NesMiniTransactions
open NesMiniAdapter.UsiPlatform
open NesMiniAdapter.RegisterController
open NesMiniAdapter.ReportLaw
open NesMiniAdapter.Socket
open NesMiniAdapter.SocketCalls

/-- The controller is pulled out at event `k` of the bus. -/
def removal (k : Nat) : Nat → Change := fun n => if n = k then .remove else .keep

/-- The controller in a socket out of which it is pulled. -/
def removable (hold : Nat → Nat) (k : Nat) : EventSlave (Plugged (BitState Registers)) :=
  socket (controller hold) id (removal k)

abbrev ControllerBoard := Board (Watch (Plugged (BitState Registers)))

theorem removal_dormant (hold : Nat → Nat) (k : Nat) :
    Dormant (controller hold) id (removal k) fun _ => False where
  sda _ h := h.elim
  rise _ _ h := h
  fall _ h := h
  stop _ h := h.elim
  insert n t h := by
    unfold removal at h
    split_ifs at h

section Transactions

variable {hold : Nat → Nat} {k : Nat} {s : Plugged (BitState Registers)} {b : ControllerBoard}

/-- A transaction that the controller, while it is there, would answer with `rs`. -/
theorem transaction_unplugged {cs : List Call} {rs : List (BitVec 8)} {t' : BitState Registers}
    (hne : cs ≠ []) (hlength : rs.length = cs.length)
    (h : s.present = true → Transacts True (controller hold) cs s.device rs t')
    (hrests : Rests (removable hold k) s b) :
    Ends ((usiPlatform (removable hold k).toSlave).transaction cs) b fun rs' b' =>
      List.Forall₂ Covers rs rs' ∧
      (s.present = false → rs' = cs.map fun _ => 0xFF#8) ∧
      ∃ s', Rests (removable hold k) s' b' ∧
        (s'.present = true → s.present = true ∧ s'.device = t') := by
  have hstart : (removable hold k).sda ((removable hold k).start s) = true :=
    sda_start (fun _ => rfl) s
  have hidle : (removable hold k).sda s = true := by
    change (!s.present || (controller hold).sda s.device) = true
    cases hpresent : s.present with
    | false => rfl
    | true => exact (h hpresent).idle
  rcases begin_cases (removal_dormant hold k) s with hout | ⟨t, hbegin, hfound⟩
  · obtain ⟨s', htransacts, hout'⟩ := transacts_out (removal_dormant hold k) cs hidle hstart hout
    refine (transaction_ends htransacts hne hrests).mono ?_
    rintro rs' b' ⟨rfl, hrests'⟩
    exact ⟨covers_ones_all hlength, fun _ => rfl, s', hrests', fun hpresent =>
      (hout' hpresent).elim⟩
  · rcases hfound with ⟨hpresent, rfl⟩ | ⟨hinsert, -⟩
    · obtain ⟨rs', s', htransacts, hcovers, hs'⟩ :=
        transacts_plugged (removal_dormant hold k) hidle hstart hbegin (h hpresent)
      refine (transaction_ends htransacts hne hrests).mono ?_
      rintro rs'' b' ⟨rfl, hrests'⟩
      refine ⟨hcovers, fun habsent => by simp [hpresent] at habsent, s', hrests', ?_⟩
      intro hpresent'
      rcases hs' with hs' | hout
      · rw [hs']
        exact ⟨hpresent, rfl⟩
      · exact (hout hpresent').elim
    · exact ((removal_dormant hold k).insert _ s.device hinsert).elim

end Transactions

/-- The buttons of `buttons` are among those of `pressed`. -/
def Within (buttons pressed : BitVec 16) : Prop :=
  ∀ i, buttons.getLsbD i = true → pressed.getLsbD i = true

theorem within_of_covers {file : BitVec 8 → BitVec 8} {rs : List (BitVec 8)}
    (h : List.Forall₂ Covers (0xFE#8 :: sixRegisters file) rs) :
    Within (decode rs) (~~~(file 0x04#8 ++ file 0x05#8)) := by
  match rs, h with
  | [r, b1, b2, b3, b4, b5, b6], h =>
      simp only [sixRegisters, List.forall₂_cons] at h
      obtain ⟨-, -, -, -, -, h5, h6, -⟩ := h
      rw [decode_eq]
      intro i hbit
      rw [BitVec.getLsbD_not, BitVec.getLsbD_append] at hbit ⊢
      have h5' := h5 (i - 8)
      have h6' := h6 i
      split_ifs at hbit ⊢ with hi
      · cases hfile : (file 0x05#8).getLsbD i <;> simp_all
      · cases hfile : (file 0x04#8).getLsbD (i - 8) <;> simp_all

def shown (s : Plugged (BitState Registers)) : BitVec 16 :=
  ~~~(s.device.bytes.file 0x04#8 ++ s.device.bytes.file 0x05#8)

section Polls

variable {hold : Nat → Nat} {k : Nat} {s : Plugged (BitState Registers)} {b : ControllerBoard}
  {state : SnesControllerState}

theorem connect_unplugged (hrests : Rests (removable hold k) s b) (hs : Settled s) :
    Ends (snesConnect (usiPlatform (removable hold k).toSlave) state) b fun after b' =>
      after.buttons = state.buttons ∧ ∃ s', Rests (removable hold k) s' b' ∧ Settled s' ∧
        (s.present = false → s'.present = false ∧ after.connected = 0#8) := by
  rcases s with ⟨⟨⟨file, pointer, pointed⟩, phase, n⟩, present, events⟩
  have htransacts : present = true → Transacts True (controller hold) connectCalls
      ⟨⟨file, pointer, pointed⟩, phase, n⟩ [0xFE#8, 0xFE#8, 0xFE#8]
      ⟨⟨store file 0xF0#8 0x55#8, 0xF1#8, true⟩, .idle, n + 28⟩ := by
    intro hpresent
    obtain rfl : phase = .idle := hs hpresent
    exact connect_transacts
  refine snesConnect_ends ((transaction_unplugged (by simp [connectCalls]) rfl htransacts
    hrests).mono ?_)
  rintro rs b' ⟨-, hgone, s', hrests', hs'⟩
  refine ⟨rfl, s', hrests', ?_, ?_⟩
  · intro hpresent
    rw [(hs' hpresent).2]
  · intro habsent
    rw [hgone habsent]
    exact ⟨Bool.eq_false_iff.mpr fun hpresent =>
      Bool.eq_false_iff.mp habsent (hs' hpresent).1, rfl⟩

theorem getState_unplugged (hrests : Rests (removable hold k) s b) (hs : Settled s) :
    Ends (snesGetState (usiPlatform (removable hold k).toSlave) state) b fun after b' =>
      Cleared after ∧ Within after.buttons (shown s) ∧
      ∃ s', Rests (removable hold k) s' b' ∧ Settled s' ∧
        (s.present = false → s'.present = false ∧ after.connected = 0#8) := by
  rcases s with ⟨⟨⟨file, pointer, pointed⟩, phase, n⟩, present, events⟩
  have hselect : present = true → Transacts True (controller hold) selectCalls
      ⟨⟨file, pointer, pointed⟩, phase, n⟩ [0xFE#8, 0xFE#8]
      ⟨⟨file, 0x00#8, true⟩, .idle, n + 19⟩ := by
    intro hpresent
    obtain rfl : phase = .idle := hs hpresent
    exact select_transacts
  refine snesGetState_ends ((transaction_unplugged (by simp [selectCalls]) rfl hselect
    hrests).mono ?_)
  rintro rs b₁ ⟨-, hgone, s₁, hrests₁, hs₁⟩
  have hsettled₁ : Settled s₁ := by
    intro hpresent
    rw [(hs₁ hpresent).2]
  cases hack : addressAck rs with
  | false =>
      rw [if_neg Bool.false_ne_true]
      refine ⟨fun _ => rfl, fun i hbit => by simp at hbit, s₁, hrests₁, hsettled₁, ?_⟩
      intro habsent
      exact ⟨Bool.eq_false_iff.mpr fun hpresent =>
        Bool.eq_false_iff.mp habsent (hs₁ hpresent).1, rfl⟩
  | true =>
      rw [if_pos rfl]
      refine (delayMs_ends hrests₁ (sda_of_settled hsettled₁) 5).mono ?_
      intro _ b₂ hrests₂
      have hreadout : s₁.present = true → Transacts True (controller hold) readoutCalls
          s₁.device (0xFE#8 :: sixRegisters file)
          ⟨⟨file, 0x06#8, false⟩, .idle, n + 19 + 64⟩ := by
        intro hpresent
        rw [(hs₁ hpresent).2]
        exact readout_transacts
      refine (transaction_unplugged (by simp [readoutCalls]) rfl hreadout hrests₂).mono ?_
      rintro rs' b₃ ⟨hcovers, -, s₃, hrests₃, hs₃⟩
      refine ⟨fun hzero => by simp at hzero, within_of_covers hcovers, s₃, hrests₃, ?_, ?_⟩
      · intro hpresent
        rw [(hs₃ hpresent).2]
      · intro habsent
        rw [hgone habsent] at hack
        cases hack

def AfterPoll (s : Plugged (BitState Registers)) (after : SnesControllerState)
    (s' : Plugged (BitState Registers)) : Prop :=
  Cleared after ∧ Within after.buttons (shown s) ∧ Settled s' ∧
    (s.present = false → s'.present = false ∧ after.connected = 0#8)

theorem poll_unplugged (hrests : Rests (removable hold k) s b) (hs : Settled s)
    (hcleared : Cleared state) :
    Ends (poll (usiPlatform (removable hold k).toSlave) state) b fun after b' =>
      ∃ s', Rests (removable hold k) s' b' ∧ (removable hold k).sda s' = true ∧
        AfterPoll s after s' := by
  refine poll_ends hrests (sda_of_settled hs) ?_ ?_
  · intro hconnected b₁ hrests₁
    refine (connect_unplugged hrests₁ hs).mono ?_
    rintro after b' ⟨hbuttons, s', hrests', hs', hgone⟩
    have hzero : after.buttons = 0#16 := hbuttons.trans (hcleared hconnected)
    refine ⟨s', hrests', sda_of_settled hs', fun _ => hzero, ?_, hs', hgone⟩
    intro i hbit
    rw [hzero] at hbit
    simp at hbit
  · intro _
    refine (getState_unplugged hrests hs).mono ?_
    rintro after b' ⟨hcleared', hwithin, s', hrests', hs', hgone⟩
    exact ⟨s', hrests', sda_of_settled hs', hcleared', hwithin, hs', hgone⟩

end Polls

/-- What happens before a round asks for the interrupt: time goes by, the
buttons change, and the answer is `ready`. -/
structure Lap where
  samples : Nat
  register4 : BitVec 8
  register5 : BitVec 8
  ready : Bool

def Lap.usb (hold : Nat → Nat) (k : Nat) (lap : Lap) : Program ControllerBoard Bool := do
  delayUs (removable hold k).toSlave lap.samples
  modify fun b => { b with
    slave.state.device.bytes.file :=
      press lap.register4 lap.register5 b.slave.state.device.bytes.file }
  return lap.ready

def Gone (b : ControllerBoard) : Prop := b.slave.state.present = false

/-- The report has only buttons that the controller shows as pressed. -/
def Truthful (round : Iteration ControllerBoard) : Prop :=
  ∀ report, round.report = some report → ∀ i, hidBit report i = true →
    hidPressed (shown round.start.slave.state) i = true

/-- The round leaves `connected` at zero and reports nothing but zeros. -/
def Silent (round : Iteration ControllerBoard) : Prop :=
  round.after.connected = 0#8 ∧ ∀ report, round.report = some report → report = zeroReport

theorem hidPressed_mono {buttons pressed : BitVec 16} (h : Within buttons pressed) {i : Nat}
    (hi : hidPressed buttons i = true) : hidPressed pressed i = true := by
  unfold hidPressed at hi ⊢
  cases hbutton : hidButtons[i]? with
  | none =>
      rw [hbutton] at hi
      cases hi
  | some button =>
      rw [hbutton] at hi
      simp only [Option.any_some, bne_iff_ne] at hi ⊢
      intro hzero
      apply hi
      apply BitVec.eq_of_getLsbD_eq
      intro j hj
      have hj := congrArg (fun v : BitVec 16 => v.getLsbD j) hzero
      have hwithin := h j
      simp only [BitVec.getLsbD_and, BitVec.getLsbD_zero] at hj ⊢
      cases hbit : buttons.getLsbD j <;> simp_all

section Rounds

variable {hold : Nat → Nat} {k : Nat} {b : ControllerBoard} {state : SnesControllerState}
  {s : Plugged (BitState Registers)}

def Between (hold : Nat → Nat) (k : Nat) (state : SnesControllerState) (b : ControllerBoard) :
    Prop :=
  Cleared state ∧ ∃ s, Rests (removable hold k) s b ∧ Settled s

theorem gone_iff (h : Rests (removable hold k) s b) : Gone b ↔ s.present = false := by
  rw [Gone, h.slave]
  rfl

theorem usb_ends (lap : Lap) (hrests : Rests (removable hold k) s b) (hs : Settled s) :
    Ends (lap.usb hold k) b fun ready b₁ => ∃ s₁, Rests (removable hold k) s₁ b₁ ∧
      (removable hold k).sda s₁ = true ∧ ready = lap.ready ∧ Settled s₁ ∧
        s₁.present = s.present := by
  refine ends_bind ((delayUs_ends hrests (sda_of_settled hs) lap.samples).mono ?_)
  intro _ b₁ hrests₁
  refine ends_bind (ends_modify ?_)
  refine ends_pure ⟨{ s with
    device.bytes.file := press lap.register4 lap.register5 s.device.bytes.file },
    ⟨hrests₁.lines, ?_, hrests₁.mcu⟩, sda_of_settled hs, rfl, hs, rfl⟩
  rw [hrests₁.slave]
  rfl

/-- One round: its report is truthful, and once the controller is gone the round
is silent if it sends a report or starts out with `connected` at zero. -/
theorem iteration_unplugged (lap : Lap) (h : Between hold k state b) :
    Ends (iteration (usiPlatform (removable hold k).toSlave) (lap.usb hold k) state) b
      fun round b' => Between hold k round.after b' ∧ round.report.isSome = lap.ready ∧
        Truthful round ∧ (Gone b → Gone round.start) ∧
        (Gone round.start → round.report.isSome = true ∨ state.connected = 0#8 →
          Silent round ∧ Gone b') := by
  obtain ⟨hcleared, s, hrests, hs⟩ := h
  refine (iteration_ends (usb_ends lap hrests hs)
    fun s₁ b₁ hrests₁ _ hs₁ => poll_unplugged hrests₁ hs₁.2.1 hcleared).mono ?_
  rintro round b' ⟨s₁, s', ⟨hstart, hfinish, -⟩, rfl, hbefore, hround⟩
  rcases hround with ⟨⟨hready, hs₁, hpresent⟩, hafter, rfl, hreport⟩ |
    ⟨⟨hready, hs₁, hpresent⟩, ⟨hcleared', hwithin, hs', hgone'⟩, hreport⟩
  · rw [Truthful, Silent, hafter, hreport, gone_iff hrests, gone_iff hstart, gone_iff hfinish,
      hpresent]
    refine ⟨⟨hcleared, s', hfinish, hs₁⟩, hready, (fun _ hnone => by cases hnone), id, ?_⟩
    rintro hgone (hsent | hconnected)
    · cases hsent
    · exact ⟨⟨hconnected, fun _ hnone => by cases hnone⟩, hgone⟩
  · rw [Truthful, Silent, hreport, gone_iff hrests, gone_iff hstart, gone_iff hfinish, hpresent]
    refine ⟨⟨hcleared', s', hfinish, hs'⟩, hready, ?_, id, ?_⟩
    · rintro report ⟨⟩ i hi
      rw [hidBit_snesSetReportButtons] at hi
      rw [hstart.slave]
      exact hidPressed_mono hwithin hi
    · intro hgone _
      obtain ⟨habsent, hconnected⟩ := hgone' (hpresent.trans hgone)
      refine ⟨⟨hconnected, ?_⟩, habsent⟩
      rintro report ⟨⟩
      rw [snesSetReportButtons, hcleared' hconnected]
      rfl

/-- Every report is truthful, and from the first one on that is sent with the
controller gone, all rounds are silent. -/
structure FailsSafe (rounds : List (Iteration ControllerBoard)) : Prop where
  truthful : ∀ round ∈ rounds, Truthful round
  silent : ∀ round ∈ rounds, Gone round.start → round.report.isSome = true → Silent round
  stays : rounds.Pairwise fun round later =>
    Gone round.start → round.report.isSome = true → Silent later

theorem mainLoop_failsSafe (laps : List Lap) (h : Between hold k state b) :
    Ends (mainLoop (usiPlatform (removable hold k).toSlave) (laps.map (Lap.usb hold k)) state) b
      fun rounds _ => rounds.map (fun round => round.report.isSome) = laps.map Lap.ready ∧
        FailsSafe rounds ∧
        (Gone b → state.connected = 0#8 → ∀ round ∈ rounds, Silent round) := by
  induction laps generalizing state b with
  | nil =>
      refine ends_pure ⟨rfl, ⟨by simp, by simp, .nil⟩, by simp⟩
  | cons lap laps ih =>
      refine ends_bind ((iteration_unplugged lap h).mono ?_)
      rintro round b₁ ⟨hbetween, hready, htruthful, hgone, hround⟩
      refine ends_bind ((ih hbetween).mono ?_)
      rintro rounds b₂ ⟨hreadies, ⟨htruthfuls, hsilent, hstays⟩, hrest⟩
      refine ends_pure ⟨by simp [hready, hreadies], ⟨?_, ?_, ?_⟩, ?_⟩
      · exact List.forall_mem_cons.mpr ⟨htruthful, htruthfuls⟩
      · refine List.forall_mem_cons.mpr ⟨?_, hsilent⟩
        intro hstart hreport
        exact (hround hstart (Or.inl hreport)).1
      · refine .cons ?_ hstays
        intro later hlater hstart hreport
        obtain ⟨hquiet, hgone₁⟩ := hround hstart (Or.inl hreport)
        exact hrest hgone₁ hquiet.1 later hlater
      · intro hgoneb hconnected
        obtain ⟨hquiet, hgone₁⟩ := hround (hgone hgoneb) (Or.inr hconnected)
        exact List.forall_mem_cons.mpr ⟨hquiet, hrest hgone₁ hquiet.1⟩

end Rounds

/-- A board as `i2c_init` leaves it, with the controller in the socket. -/
def pluggedBoard (ddrb portb : BitVec 8) (registers : Registers) : ControllerBoard :=
  ⟨initMcu ddrb portb, ⟨true, true⟩, resting ⟨⟨registers, .idle, 0⟩, true, 0⟩, [], []⟩

/-- Whenever the controller is pulled out, every call returns and the main loop
fails safe. -/
theorem unplugging_failsSafe (hold : Nat → Nat) (k : Nat) (registers : Registers)
    (ddrb portb : BitVec 8) (laps : List Lap) :
    Ends (connectAndPoll (usiPlatform (removable hold k).toSlave) (laps.map (Lap.usb hold k)))
      (pluggedBoard ddrb portb registers) fun rounds _ =>
        rounds.map (fun round => round.report.isSome) = laps.map Lap.ready ∧
        FailsSafe rounds := by
  have hrests : Rests (removable hold k) ⟨⟨registers, .idle, 0⟩, true, 0⟩
      (pluggedBoard ddrb portb registers) := ⟨rfl, rfl, initMcu_rested ddrb portb⟩
  refine ends_bind ((connect_unplugged hrests fun _ => rfl).mono ?_)
  rintro state b ⟨hbuttons, s, hrests', hs, -⟩
  refine (mainLoop_failsSafe laps ⟨fun _ => hbuttons, s, hrests', hs⟩).mono ?_
  rintro rounds b' ⟨hreadies, hsafe, -⟩
  exact ⟨hreadies, hsafe⟩

end NesMiniAdapter.HotUnplug
