import NesMiniAdapter.EventDriven
import NesMiniAdapter.GpioPins
import NesMiniAdapter.I2cConversation
import NesMiniAdapter.UsiTransfer

/-!
Conversations of the USI driver, from the state `i2c_init` leaves.
-/

namespace NesMiniAdapter.UsiConversation

open NesMiniAdapter.ByteBits
open NesMiniAdapter.FuelledProgram
open NesMiniAdapter.OpenDrainBus
open NesMiniAdapter.Attiny85
open NesMiniAdapter.BoardPhases
open NesMiniAdapter.GpioPins
open NesMiniAdapter.EventDriven
open NesMiniAdapter.I2cPrimary
open NesMiniAdapter.I2cTransaction
open NesMiniAdapter.I2cConversation
open NesMiniAdapter.UsiTransfer

variable {σ : Type} {S : Slave σ} {strict : Prop}

/-- `i2c_primary.c`. -/
def usiDriver (S : Slave σ) : I2cDriver (Board σ) where
  i2cInit := i2cInit S
  i2cStart := i2cStart S
  i2cStop := i2cStop S
  i2cWriteByte := i2cWriteByte S
  i2cReadByte := i2cReadByte S

/-- What the driver's functions return: `i2c_write_byte` the slave's bit below
seven ones, `i2c_read_byte` any byte. -/
def UsiResult : Call → BitVec 8 → Prop
  | .write _, r => r = 0xFE#8 ∨ r = 0xFF#8
  | .read _, _ => True

/-- The registers after a call: SCL low, SDA released, nothing pending. -/
def Ready (m : Mcu) : Prop := Pins true true false m ∧ Cleared m

section Calls

variable {rest : List Slot} {Q : List Bool → σ → Prop} {b : Board σ}

theorem call_ends {c : Call} (h : InLow S (Session strict S (c.slots ++ rest) Q) b)
    (hm : Pins true true false b.mcu) :
    Ends ((usiDriver S).call c) b fun r b' => UsiResult c r ∧
      InLow S (Session strict S rest fun bits => Q (c.bits r ++ bits)) b' ∧
      Ready b'.mcu ∧
      (strict → b'.trace = b.trace ++ pulses c.slots (c.bits r)) := by
  cases c with
  | write data =>
      refine (i2cWriteByte_ends h hm).mono ?_
      rintro r b' ⟨ack, rfl, hlow, hm', hclear, htrace⟩
      have hack : (shiftIn 0xFF#8 ack).getLsbD 0 = ack := by
        simp only [shiftIn_getLsbD, if_true]
      refine ⟨?_, ?_, ⟨hm', hclear⟩, ?_⟩
      · cases ack
        · exact Or.inl rfl
        · exact Or.inr rfl
      · simpa only [Call.bits, hack, List.append_assoc, List.singleton_append] using hlow
      · simpa only [Call.slots, Call.bits, hack] using htrace
  | read nack =>
      refine (i2cReadByte_ends h hm).mono ?_
      rintro r b' ⟨hlow, hm', hclear, htrace⟩
      refine ⟨trivial, ?_, ⟨hm', hclear⟩, htrace⟩
      simpa only [Call.bits, List.append_assoc, List.singleton_append] using hlow

end Calls

theorem usi_speaks : SpeaksI2c strict S (usiDriver S) (fun _ => True) UsiResult
    Rested (Pins true true false) Ready where
  start := i2cStart_ends
  begun := fun h => h.1
  call := fun _ h hm => call_ends h hm
  stop := fun h hm => i2cStop_ends h hm.1 hm.2

/-- The registers `i2c_init` leaves, when it found `ddrb` and `portb`. -/
def initMcu (ddrb portb : BitVec 8) : Mcu where
  ddrb := ddrb ||| bv pinSda ||| bv pinScl
  portb := portb ||| bv pinScl ||| bv pinSda
  usidr := 0xFF#8
  usicr := bv usiwm1 ||| bv usics1 ||| bv usiclk
  usicnt := 0#4
  startFlag := false
  overflowFlag := false
  sdaLatch := true
  startHold := false

theorem initMcu_rested (ddrb portb : BitVec 8) : Rested (initMcu ddrb portb) := by
  refine ⟨⟨rfl, ?_, ?_, ?_, ?_⟩, rfl, rfl, rfl, by simp [initMcu]⟩
  all_goals
    simp only [initMcu]
    rw [getLsbD_or_bv _ _ (by decide), getLsbD_or_bv _ _ (by decide)]
    simp

/-- A slave that does not hold SCL in the pulse `i2c_init` makes: with PORTB
still zero, the writes to DDRB pull both lines low, and those to PORTB release
SCL first, which is a START and a STOP with one clock pulse between them. -/
def Unheld (S : Slave σ) (Q : σ → Prop) : σ → Prop :=
  Idle S fun s => (∀ ms, S.scl (S.lows ms s) = true) ∧ Stopping True S Q s

/-- From power-on, `i2c_init` leaves its registers and both lines high. -/
theorem i2cInit_ends {Q : σ → Prop} {b : Board σ} (h : AtRest S (Unheld S Q) b)
    (hm : Gpio false false false false b.mcu) (hflag : b.mcu.startFlag = false) :
    Ends (i2cInit S) b fun _ b' => AtRest S Q b' ∧
      b'.mcu = initMcu b.mcu.ddrb b.mcu.portb ∧
      b'.trace = b.trace ++ transactionEvents [] [] := by
  have hm₁ := hm.ddrbOrSda
  refine ends_bind (h.start_ends hm₁.sclOut (hm₁.sdaOut true) ?_)
  intro b₁ hstart₁ hmcu₁ htrace₁
  rw [steadied_of_off hm₁.usicr, flagged_of_off hm₁.latched.usicr] at hmcu₁
  have hm₂ : Gpio true true false false { b₁.mcu with ddrb := b₁.mcu.ddrb ||| bv pb2 } := by
    rw [hmcu₁]
    exact hm₁.latched.ddrbOrScl
  refine ends_bind (hstart₁.fall_ends hm₂.sclOut (hm₂.sdaOut false) ?_)
  intro b₂ hlow₂ hmcu₂ htrace₂
  rw [holding_of_off hm₂.latched.usicr] at hmcu₂
  have hm₃ : Gpio true true false true { b₂.mcu with portb := b₂.mcu.portb ||| bv pb2 } := by
    rw [hmcu₂]
    exact hm₂.latched.portbOrScl
  have hlow₂' : InLow S (fun s => (∀ ms, S.scl (S.lows ms s) = true) ∧
      Clocked True S (.master false)
        (fun _ s' => Resting S (S.high true s') ∧ Q (S.high true s')) s) b₂ := hlow₂
  refine ends_bind (hlow₂'.free_ends hm₃.sclOut (hm₃.sdaOut false) (by rw [hmcu₂]; rfl) ?_)
  intro bit b₃ hrisen₃
  have hmcu₃ := hrisen₃.mcu
  rw [risen_of_off hm₃.usicr] at hmcu₃
  have hm₄ : Gpio true true true true { b₃.mcu with portb := b₃.mcu.portb ||| bv pb0 } := by
    rw [hmcu₃]
    exact hm₃.latched.portbOrSda
  refine ends_bind (hrisen₃.stop_ends hm₄.sclOut (hm₄.sdaOut true) ?_)
  intro b₄ hrest₄ hmcu₄ htrace₄
  rw [steadied_of_off hm₄.usicr] at hmcu₄
  have hm₅ : Gpio true true true true { b₄.mcu with usidr := 0xFF#8 } := by
    rw [hmcu₄]
    obtain ⟨h₁, h₂, h₃, h₄, h₅, h₆⟩ := hm₄
    exact ⟨h₁, h₂, h₃, h₄, h₅, h₆⟩
  refine ends_bind (hrest₄.write_ends hm₅.sclOut (hm₅.sdaOut true) ?_)
  intro b₅ hrest₅ hmcu₅ htrace₅
  rw [steadied_of_off hm₅.usicr] at hmcu₅
  have hmcu₅' : b₅.mcu = { initMcu b.mcu.ddrb b.mcu.portb with
      usicr := 0#8, usicnt := b.mcu.usicnt, overflowFlag := b.mcu.overflowFlag } := by
    rw [hmcu₅, hmcu₄, hmcu₃, hmcu₂, hmcu₁]
    simp only [latched, initMcu, hm.usicr, hm.hold, hflag, pinSda, pinScl]
    rfl
  -- From here on the registers are at rest in two-wire mode.
  have hm₆ : Rested (b₅.mcu.writeUsicr (bv usiwm1 ||| bv usics1 ||| bv usiclk)) := by
    obtain ⟨⟨h₁, h₂, h₃, h₄, h₅⟩, h₆, h₇, h₈, h₉⟩ := initMcu_rested b.mcu.ddrb b.mcu.portb
    rw [hmcu₅']
    exact ⟨⟨rfl, h₂, h₃, h₄, h₅⟩, h₆, h₇, h₈, h₉⟩
  refine ends_bind (hrest₅.write_ends hm₆.sclOut hm₆.sdaOut ?_)
  intro b₆ hrest₆ hmcu₆ htrace₆
  rw [steadied_of_usicr hm₆.pins.usicr] at hmcu₆
  have hm₇ : b₆.mcu.writeUsisr (bv usisif ||| bv usioif ||| bv usipf ||| bv usidc |||
      0x0#8 <<< usicnt0) = initMcu b.mcu.ddrb b.mcu.portb := by
    rw [hmcu₆, hmcu₅']
    cases b.mcu.overflowFlag <;> rfl
  have hrested := initMcu_rested b.mcu.ddrb b.mcu.portb
  refine hrest₆.write_ends (by rw [hm₇]; exact hrested.sclOut)
    (by rw [hm₇]; exact hrested.sdaOut) ?_
  intro b₇ hrest₇ hmcu₇ htrace₇
  rw [hm₇, steadied_of_usicr hrested.pins.usicr] at hmcu₇
  refine ⟨hrest₇, hmcu₇, ?_⟩
  rw [htrace₇, htrace₆, htrace₅, htrace₄ trivial, htrace₂, htrace₁]
  simp [transactionEvents, slotsOf, pulses]

section EventSlave

variable {τ : Type} {E : EventSlave τ} {t : τ}

theorem resting_unheld (hidle : E.sda t = true) (hstart : E.sda (E.start t) = true)
    (hhold : E.stretch (E.begin t) = 0) (hsda : E.sda (E.begin t) = true)
    (hrise : E.sda (E.rise false (E.begin t)) = true)
    (hfinish : E.sda (E.finish (E.begin t)) = true) :
    Unheld E.toSlave (· = resting (E.finish (E.begin t))) (resting t) := by
  refine resting_idle hidle hstart ?_
  intro w hlow hw
  exact ⟨fun ms => beq_iff_eq.mpr (hold_lows hlow.2 (hw.trans hhold) ms),
    hlow.stopping hsda hrise hfinish rfl⟩

/-- To a slave that leaves the lines alone the pulse is a START and a STOP. -/
theorem i2cInit_resting {b : Board (Watch τ)} (hlines : b.lines = ⟨true, true⟩)
    (hslave : b.slave = resting t) (hm : Gpio false false false false b.mcu)
    (hflag : b.mcu.startFlag = false) (hidle : E.sda t = true)
    (hstart : E.sda (E.start t) = true) (hhold : E.stretch (E.begin t) = 0)
    (hsda : E.sda (E.begin t) = true) (hrise : E.sda (E.rise false (E.begin t)) = true)
    (hfinish : E.sda (E.finish (E.begin t)) = true) :
    Ends (i2cInit E.toSlave) b fun _ b' => b'.lines = ⟨true, true⟩ ∧
      b'.slave = resting (E.finish (E.begin t)) ∧ b'.mcu = initMcu b.mcu.ddrb b.mcu.portb ∧
      b'.trace = b.trace ++ transactionEvents [] [] := by
  have hrest : AtRest E.toSlave (Unheld E.toSlave (· = resting (E.finish (E.begin t)))) b :=
    ⟨hlines, resting t, 0, resting_resting hidle,
      resting_unheld hidle hstart hhold hsda hrise hfinish, hslave⟩
  refine (i2cInit_ends hrest hm hflag).mono ?_
  rintro _ b' ⟨⟨hlines', s, n, -, rfl, hslave'⟩, hmcu, htrace⟩
  rw [high_resting hfinish] at hslave'
  exact ⟨hlines', hslave', hmcu, htrace⟩

end EventSlave

/-- From the state `i2c_init` leaves, every transaction with a slave that
complies ends, and the bus shows exactly its bytes and the slave's answers. -/
theorem transactions_wellFormed {css : List (List Call)} (hne : ∀ cs ∈ css, cs ≠ [])
    {ddrb portb : BitVec 8} {b : Board σ} (hm : b.mcu = initMcu ddrb portb)
    (hlines : b.lines = ⟨true, true⟩) (hs : Complies S css b.slave) :
    Ends ((usiDriver S).transactions css) b fun rss b' =>
      ResultLists UsiResult css rss ∧
      b'.trace = b.trace ++ conversationEvents css rss ∧ b'.lines = ⟨true, true⟩ := by
  have hrested : Rested b.mcu := by
    rw [hm]
    exact initMcu_rested ddrb portb
  have hrest : AtRest S (Conversation True S (css.map slotsOf) fun _ _ => True) b :=
    ⟨hlines, b.slave, 0, hs.1, hs.2, rfl⟩
  refine (usi_speaks.transactions_ends (fun _ _ _ _ => trivial) hne hrest hrested).mono ?_
  rintro rss b' ⟨hrss, hrest', -, htrace⟩
  exact ⟨hrss, htrace trivial, hrest'.lines⟩

/-- A board at power-on, with a slave in state `s`. -/
def poweredBoard (s : σ) : Board σ :=
  ⟨⟨0#8, 0#8, 0#8, 0#8, 0#4, false, false, false, false⟩, ⟨true, true⟩, s, [], []⟩

theorem poweredBoard_gpio (s : σ) : Gpio false false false false (poweredBoard s).mcu := by
  constructor
  all_goals simp [poweredBoard]

/-- Counts what it sees on the bus: after the pulse of `i2c_init` it acknowledges the first
byte, sends a zero for bit 5 of the next one, and holds SCL longer and longer. -/
def counting : EventSlave (Nat × Bool) where
  sda t := t.2
  stretch t := t.1 - 3
  start t := (t.1 + 1, true)
  stop t := (t.1 + 1, true)
  rise _ t := (t.1 + 1, t.2)
  fall t := (t.1, t.1 != 12 && t.1 != 15)

theorem transactions_wellFormed_counting :
    Ends (do
        (usiDriver counting.toSlave).i2cInit
        (usiDriver counting.toSlave).transactions
          [[.write 0xA4#8, .read 0xFF#8], [.write 0x00#8]])
      (poweredBoard (resting (0, true))) fun rss b' =>
        ResultLists UsiResult [[.write 0xA4#8, .read 0xFF#8], [.write 0x00#8]] rss ∧
        b'.trace = transactionEvents [] [] ++
          conversationEvents [[.write 0xA4#8, .read 0xFF#8], [.write 0x00#8]] rss ∧
        b'.lines = ⟨true, true⟩ := by
  have hfollows : counting.FollowsConversation True
      ([[.write 0xA4#8, .read 0xFF#8], [.write 0x00#8]].map slotsOf) (3, true) := by
    simp [slotsOf, Call.slots, writeSlots, readSlots, bitsOf, counting,
      EventSlave.FollowsConversation, EventSlave.FollowsTransaction, EventSlave.Follows,
      EventSlave.Steady, EventSlave.begin, EventSlave.after, EventSlave.clock, EventSlave.finish,
      List.replicate]
  refine ends_bind ((i2cInit_resting (t := (0, true)) rfl rfl (poweredBoard_gpio _) rfl rfl rfl rfl
    rfl rfl rfl).mono ?_)
  rintro _ b ⟨hlines, hslave, hmcu, htrace⟩
  have hcomplies : Complies counting.toSlave [[.write 0xA4#8, .read 0xFF#8], [.write 0x00#8]]
      b.slave := by
    rw [hslave]
    exact ⟨resting_resting rfl, resting_conversation hfollows trivial⟩
  have hends := transactions_wellFormed (by simp) hmcu hlines hcomplies
  rw [htrace] at hends
  exact hends

end NesMiniAdapter.UsiConversation
