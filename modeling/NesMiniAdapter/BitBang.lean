import NesMiniAdapter.GpioPins
import NesMiniAdapter.I2cAttiny85
import NesMiniAdapter.I2cConversation

/-!
What each function of the bit-banging driver does on the lines, for any slave
that behaves over the slots the function clocks.
-/

namespace NesMiniAdapter.BitBang

open NesMiniAdapter.ByteBits
open NesMiniAdapter.FuelledProgram
open NesMiniAdapter.OpenDrainBus
open NesMiniAdapter.Attiny85
open NesMiniAdapter.BoardPhases
open NesMiniAdapter.GpioPins
open NesMiniAdapter.I2cAttiny85
open NesMiniAdapter.I2cTransaction
open NesMiniAdapter.I2cConversation

variable {σ : Type} {S : Slave σ}

/-- `i2cattiny85.c`. -/
def bitBangDriver (S : Slave σ) : I2cDriver (Board σ) where
  i2cInit := pure ()
  i2cStart := i2cStart S
  i2cStop := i2cStop S
  i2cWriteByte := i2cWriteByte S
  i2cReadByte := i2cReadByte S

def Released (m : Mcu) : Prop := ∃ sda scl, Gpio false false sda scl m

/-- SCL is pulled low, and SDA is an input or pulled low. -/
def Clocking (m : Mcu) : Prop := ∃ level, Gpio (!level) true level false m

section Rest

variable {P : σ → Prop} {R : Unit → Board σ → Prop} {b : Board σ} {ddrSda ddrScl portSda
  portScl : Bool} {f : Mcu → Mcu}

theorem rest_write_ends (h : AtRest S P b) (hm : Gpio ddrSda ddrScl portSda portScl (f b.mcu))
    (hsda : (!ddrSda || portSda) = true) (hscl : (!ddrScl || portScl) = true)
    (hR : ∀ b', AtRest S P b' → Gpio ddrSda ddrScl portSda portScl b'.mcu →
      b'.mcu = latched b'.mcu → b'.trace = b.trace → R () b') :
    Ends (modify (Board.access S f)) b R := by
  refine h.write_ends (hm.sclOut.trans hscl) ((hm.sdaOut true).trans hsda) ?_
  intro b' hrest hmcu htrace
  rw [steadied_of_off hm.usicr] at hmcu
  refine hR b' hrest ?_ ?_ htrace
  · rw [hmcu]
    exact hm.latched
  · rw [hmcu]
    rfl

theorem low_write_ends (h : InLow S P b) (hm : Gpio ddrSda true portSda false (f b.mcu))
    (hR : ∀ b', InLow S P b' → Gpio ddrSda true portSda false b'.mcu →
      b'.mcu = latched b'.mcu → b'.trace = b.trace → R () b') :
    Ends (modify (Board.access S f)) b R := by
  refine h.write_ends hm.sclOut ?_
  intro b' hlow hmcu htrace
  refine hR b' hlow ?_ ?_ htrace
  · rw [hmcu]
    exact hm.latched
  · rw [hmcu]
    rfl

end Rest

theorem setLevel_ends {P : σ → Prop} {R : Unit → Board σ → Prop} {b : Board σ} (level : Bool)
    (h : InLow S P b) (hm : Clocking b.mcu)
    (hR : ∀ b', InLow S P b' → Gpio (!level) true level false b'.mcu →
      b'.mcu = latched b'.mcu → b'.trace = b.trace → R () b') :
    Ends (if level then i2cSetSda S else i2cClearSda S) b R := by
  obtain ⟨old, hm⟩ := hm
  cases level with
  | true =>
      refine ends_bind (low_write_ends h hm.ddrbAndSda ?_)
      intro b₁ hlow₁ hm₁ _ htrace₁
      refine low_write_ends hlow₁ hm₁.portbOrSda ?_
      intro b₂ hlow₂ hm₂ hsteady₂ htrace₂
      exact hR b₂ hlow₂ hm₂ hsteady₂ (htrace₂.trans htrace₁)
  | false =>
      refine ends_bind (low_write_ends h hm.ddrbOrSda ?_)
      intro b₁ hlow₁ hm₁ _ htrace₁
      refine low_write_ends hlow₁ hm₁.portbAndSda ?_
      intro b₂ hlow₂ hm₂ hsteady₂ htrace₂
      exact hR b₂ hlow₂ hm₂ hsteady₂ (htrace₂.trans htrace₁)

theorem i2cReadScl_polls : PollsScl S (do return (← i2cReadScl S) == 0#8) := by
  intro b Q h
  refine ⟨!b.lines.scl, b.tick S, h, 0, fun _ _ => ?_⟩
  have hpinb : ((if b.pinb &&& bv pinScl != 0#8 then 1#8 else 0#8) == 0#8) = !b.lines.scl := by
    unfold Board.pinb
    cases b.lines.sda <;> cases b.lines.scl <;> decide
  rw [← hpinb]
  rfl

section Pulse

variable {slot : Slot} {K : Bool → σ → Prop} {b : Board σ} {level : Bool}

theorem i2cSetScl_ends (h : InLow S (Clocked True S slot K) b)
    (hm : Gpio (!level) true level false b.mcu) (hsteady : b.mcu = latched b.mcu)
    (hlevel : slot.level = level) :
    Ends (i2cSetScl S) b fun _ b' => ∃ m, Gpio (!level) false level true m ∧
      (Waiting True S slot K m b.trace b' ∨
        ∃ n bit, Risen True S slot K m b.trace n bit b') := by
  have hm₁ := hm.ddrbAndScl
  have hsda : (!(!level) || level) = slot.level := by
    rw [hlevel]
    simp
  have hrelease := access_release h (f := fun m => { m with ddrb := m.ddrb &&& ~~~bv portScl })
    (hm₁.sclOut.trans rfl) ((hm₁.sdaOut false).trans hsda) (by rw [hsteady]; rfl)
  refine ends_bind (ends_modify (ends_modify ?_))
  refine ⟨_, hm₁.latched.portbOrScl, ?_⟩
  have hm₂ := hm₁.latched.portbOrScl
  rcases hrelease with hwait | ⟨n, bit, hrisen⟩
  · have hagain := access_release hwait.low
      (f := fun m => { m with portb := m.portb ||| bv portScl })
      (by rw [hwait.mcu]; exact hm₂.sclOut.trans rfl)
      (by rw [hwait.mcu]; exact (hm₂.sdaOut false).trans hsda) (by rw [hwait.mcu]; rfl)
    rw [hwait.mcu, hwait.trace] at hagain
    exact hagain
  · right
    have hmcu := hrisen.mcu
    rw [risen_of_off hm₁.usicr] at hmcu
    refine ⟨n + 1, bit, hrisen.access ?_ ?_ ?_⟩
    · rw [hmcu]
      exact hm₂.sclOut.trans rfl
    · rw [hmcu]
      exact (hm₂.sdaOut true).trans hsda
    · rw [hmcu, risen_of_off hm₂.usicr, steadied_of_off hm₂.usicr]

theorem waitScl_risen_ends {m : Mcu} {trace : List Event} (hm : Gpio (!level) false level true m)
    (hlevel : slot.level = level)
    (h : Waiting True S slot K m trace b ∨ ∃ n bit, Risen True S slot K m trace n bit b) :
    Ends (waitScl S) b fun _ b' => ∃ n bit, Risen True S slot K m trace (n + 1) bit b' := by
  refine waitScl_ends i2cReadScl_polls (hm.sclOut.trans rfl) ?_ h
  rw [hm.sdaOut, hlevel]
  simp

theorem i2cClearScl_ends {m : Mcu} {trace : List Event} {n : Nat} {bit : Bool}
    (hm : Gpio (!level) false level true m) (hlevel : slot.level = level)
    (h : Risen True S slot K m trace (n + 1) bit b) :
    Ends (i2cClearScl S) b fun _ b' =>
      InLow S (fun s => ∃ s' m, K bit s' ∧ s = S.low m s') b' ∧ Clocking b'.mcu ∧
        b'.trace = trace ++ slot.pulse bit := by
  have hmcu := h.mcu
  rw [risen_of_off hm.usicr] at hmcu
  have hm₁ : Gpio (!level) true level true { b.mcu with ddrb := b.mcu.ddrb ||| bv portScl } := by
    rw [hmcu]
    exact hm.latched.ddrbOrScl
  have hrisen₁ : Risen True S slot K { b.mcu with ddrb := b.mcu.ddrb ||| bv portScl } trace
      (n + 1 + 1) bit (b.access S fun m => { m with ddrb := m.ddrb ||| bv portScl }) := by
    refine h.access (hm₁.sclOut.trans rfl) ?_ ?_
    · rw [hm₁.sdaOut, hlevel]
      simp
    · rw [risen_of_off hm₁.usicr, steadied_of_off hm₁.usicr]
  refine ends_bind (ends_modify (ends_modify ?_))
  have hmcu₁ := hrisen₁.mcu
  rw [risen_of_off hm₁.usicr] at hmcu₁
  have hm₂ := hm₁.latched.portbAndScl
  rw [← hmcu₁] at hm₂
  obtain ⟨hlow, hmcu₂, htrace⟩ := hrisen₁.pulse.fall
    (f := fun m => { m with portb := m.portb &&& ~~~bv portScl })
    (P := fun s => ∃ s' m, K bit s' ∧ s = S.low m s') hm₂.sclOut
    (fun s hK => ⟨s, _, hK, rfl⟩)
  refine ⟨hlow, ⟨level, ?_⟩, ?_⟩
  · rw [hmcu₂, holding_of_off hm₂.latched.usicr]
    exact hm₂.latched
  · rw [htrace, hrisen₁.trace trivial]
    simp [Slot.pulse]

end Pulse

section Bits

variable {rest : List Slot} {Q : List Bool → σ → Prop} {b : Board σ}

theorem i2cWriteSingleBit_ends {bit : BitVec 8} {v : Bool} (hv : (bit != 0#8) = v)
    (h : InLow S (Session True S (.master v :: rest) Q) b) (hm : Clocking b.mcu) :
    Ends (i2cWriteSingleBit S bit) b fun _ b' =>
      InLow S (Session True S rest fun bits => Q (v :: bits)) b' ∧ Clocking b'.mcu ∧
        b'.trace = b.trace ++ Slot.pulse (.master v) v := by
  have h' : InLow S (Clocked True S (.master v) fun bit s' => ∀ m,
      Session True S rest (fun bits => Q (bit :: bits)) (S.low m s')) b := h
  unfold i2cWriteSingleBit
  rw [hv]
  refine ends_bind (setLevel_ends v h' hm ?_)
  intro b₁ hlow₁ hm₁ hsteady₁ htrace₁
  refine ends_bind ((i2cSetScl_ends hlow₁ hm₁ hsteady₁ rfl).mono ?_)
  rintro _ b₂ ⟨m₂, hm₂, hrelease₂⟩
  refine ends_bind ((waitScl_risen_ends hm₂ rfl hrelease₂).mono ?_)
  rintro _ b₃ ⟨n, bit, hrisen₃⟩
  obtain rfl := (hrisen₃.sent v rfl).1
  refine (i2cClearScl_ends hm₂ rfl hrisen₃).mono ?_
  rintro _ b₄ ⟨hlow₄, hm₄, htrace₄⟩
  refine ⟨hlow₄.mono ?_, hm₄, ?_⟩
  · rintro s ⟨s', m, hs', rfl⟩
    exact hs' m
  · rw [htrace₄, htrace₁]

theorem i2cReadSda_ends {R : BitVec 8 → Board σ → Prop} {b : Board σ}
    (h : R (if b.lines.sda then 1#8 else 0#8) (b.tick S)) : Ends (i2cReadSda S) b R := by
  refine ⟨_, b.tick S, h, 0, fun _ _ => ?_⟩
  have hpinb : (b.pinb &&& bv pinSda != 0#8) = b.lines.sda := by
    unfold Board.pinb
    cases b.lines.sda <;> cases b.lines.scl <;> decide
  rw [← hpinb]
  rfl

theorem i2cReadSingleBit_ends (h : InLow S (Session True S (.slave :: rest) Q) b)
    (hm : Clocking b.mcu) :
    Ends (i2cReadSingleBit S) b fun r b' => ∃ bit, r = (if bit then 1#8 else 0#8) ∧
      InLow S (Session True S rest fun bits => Q (bit :: bits)) b' ∧ Clocking b'.mcu ∧
        b'.trace = b.trace ++ Slot.pulse .slave bit := by
  have h' : InLow S (Clocked True S .slave fun bit s' => ∀ m,
      Session True S rest (fun bits => Q (bit :: bits)) (S.low m s')) b := h
  refine ends_bind (setLevel_ends true h' hm ?_)
  intro b₁ hlow₁ hm₁ hsteady₁ htrace₁
  refine ends_bind ((i2cSetScl_ends hlow₁ hm₁ hsteady₁ rfl).mono ?_)
  rintro _ b₂ ⟨m₂, hm₂, hrelease₂⟩
  refine ends_bind ((waitScl_risen_ends hm₂ rfl hrelease₂).mono ?_)
  rintro _ b₃ ⟨n, bit, hrisen₃⟩
  refine ends_bind (i2cReadSda_ends ?_)
  have hrisen₄ := hrisen₃.tick (hm₂.sclOut.trans rfl) ((hm₂.sdaOut false).trans rfl)
  refine ends_bind ((i2cClearScl_ends hm₂ rfl hrisen₄).mono ?_)
  rintro _ b₅ ⟨hlow₅, hm₅, htrace₅⟩
  refine ends_pure ⟨bit, ?_, hlow₅.mono ?_, hm₅, ?_⟩
  · rw [hrisen₃.kept trivial]
  · rintro s ⟨s', m, hs', rfl⟩
    exact hs' m
  · rw [htrace₅, htrace₁]

/-- The top `n` bits of a byte, most significant first. -/
def topBits : Nat → BitVec 8 → List Bool
  | 0, _ => []
  | n + 1, byte => byte.getLsbD 7 :: topBits n (byte <<< 1)

theorem topBits_eight (byte : BitVec 8) : topBits 8 byte = bitsOf byte := by
  simp [topBits, bitsOf]

theorem and_0x80_ne (byte : BitVec 8) :
    ((if byte &&& 0x80#8 != 0#8 then 1#8 else 0#8) != 0#8) = byte.getLsbD 7 := by
  have hbit : (byte &&& 0x80#8 != 0#8) = byte.getLsbD 7 := and_bv_ne_zero byte (i := 7) (by decide)
  rw [hbit]
  cases byte.getLsbD 7 <;> rfl

theorem writeBits_ends {n : Nat} {byte : BitVec 8}
    (h : InLow S (Session True S ((topBits n byte).map .master ++ rest) Q) b)
    (hm : Clocking b.mcu) :
    Ends (writeBits S n byte) b fun _ b' =>
      InLow S (Session True S rest fun bits => Q (topBits n byte ++ bits)) b' ∧
      Clocking b'.mcu ∧
      b'.trace = b.trace ++ pulses ((topBits n byte).map .master) (topBits n byte) := by
  induction n generalizing byte b Q with
  | zero => exact ends_pure ⟨h, hm, by simp [topBits, pulses]⟩
  | succ n ih =>
      refine ends_bind ((i2cWriteSingleBit_ends (and_0x80_ne byte) h hm).mono ?_)
      rintro _ b₁ ⟨hlow₁, hm₁, htrace₁⟩
      refine (ih hlow₁ hm₁).mono ?_
      rintro _ b₂ ⟨hlow₂, hm₂, htrace₂⟩
      refine ⟨hlow₂, hm₂, ?_⟩
      rw [htrace₂, htrace₁, List.append_assoc]
      rfl

theorem readBits_ends {n : Nat} {byte : BitVec 8}
    (h : InLow S (Session True S (List.replicate n .slave ++ rest) Q) b)
    (hm : Clocking b.mcu) :
    Ends (readBits S n byte) b fun r b' => ∃ bits, bits.length = n ∧
      r = bits.foldl shiftIn byte ∧
      InLow S (Session True S rest fun bits' => Q (bits ++ bits')) b' ∧ Clocking b'.mcu ∧
      b'.trace = b.trace ++ pulses (List.replicate n .slave) bits := by
  induction n generalizing byte b Q with
  | zero => exact ends_pure ⟨[], rfl, rfl, h, hm, by simp [pulses]⟩
  | succ n ih =>
      refine ends_bind ((i2cReadSingleBit_ends h hm).mono ?_)
      rintro r b₁ ⟨bit, rfl, hlow₁, hm₁, htrace₁⟩
      refine (ih hlow₁ hm₁).mono ?_
      rintro r b₂ ⟨bits, hlength, hr, hlow₂, hm₂, htrace₂⟩
      refine ⟨bit :: bits, by rw [List.length_cons, hlength], hr, hlow₂, hm₂, ?_⟩
      rw [htrace₂, htrace₁, List.append_assoc]
      rfl

/-- The calls with which `nesminicontrollerdrv.c` uses a driver: it answers a
byte it read with 0x00 or 0xFF. -/
def Answered : Call → Prop
  | .write _ => True
  | .read nack => nack = 0x00#8 ∨ nack = 0xFF#8

/-- `i2c_write_byte` returns the slave's bit. -/
def BitBangResult : Call → BitVec 8 → Prop
  | .write _, r => r = 0#8 ∨ r = 1#8
  | .read _, _ => True

theorem i2cWriteByte_ends {data : BitVec 8}
    (h : InLow S (Session True S (writeSlots data ++ rest) Q) b) (hm : Clocking b.mcu) :
    Ends (i2cWriteByte S data) b fun r b' => ∃ ack, r = (if ack then 1#8 else 0#8) ∧
      InLow S (Session True S rest fun bits => Q (bitsOf data ++ ack :: bits)) b' ∧
      Clocking b'.mcu ∧
      b'.trace = b.trace ++ pulses (writeSlots data) (bitsOf data ++ [ack]) := by
  rw [writeSlots, List.append_assoc, ← topBits_eight] at h
  refine ends_bind ((writeBits_ends h hm).mono ?_)
  rintro _ b₁ ⟨hlow₁, hm₁, htrace₁⟩
  refine (i2cReadSingleBit_ends hlow₁ hm₁).mono ?_
  rintro r b₂ ⟨ack, hr, hlow₂, hm₂, htrace₂⟩
  rw [topBits_eight] at hlow₂ htrace₁
  refine ⟨ack, hr, hlow₂, hm₂, ?_⟩
  rw [htrace₂, htrace₁, List.append_assoc, writeSlots, pulses_append (by simp)]
  simp [pulses]

theorem i2cReadByte_ends {nack : BitVec 8} (hnack : nack = 0x00#8 ∨ nack = 0xFF#8)
    (h : InLow S (Session True S (readSlots (nack.getLsbD 7) ++ rest) Q) b)
    (hm : Clocking b.mcu) :
    Ends (i2cReadByte S nack) b fun r b' =>
      InLow S (Session True S rest fun bits =>
        Q (bitsOf r ++ nack.getLsbD 7 :: bits)) b' ∧ Clocking b'.mcu ∧
      b'.trace = b.trace ++
        pulses (readSlots (nack.getLsbD 7)) (bitsOf r ++ [nack.getLsbD 7]) := by
  rw [readSlots, List.append_assoc] at h
  refine ends_bind ((readBits_ends h hm).mono ?_)
  rintro r b₁ ⟨bits, hlength, hr, hlow₁, hm₁, htrace₁⟩
  have hbits : bitsOf r = bits := by
    rw [hr]
    exact bitsOf_shiftIn hlength _
  subst hbits
  have hanswer : (nack != 0#8) = nack.getLsbD 7 := by
    rcases hnack with rfl | rfl
    · rfl
    · rfl
  refine ends_bind ((i2cWriteSingleBit_ends hanswer hlow₁ hm₁).mono ?_)
  rintro _ b₂ ⟨hlow₂, hm₂, htrace₂⟩
  refine ends_pure ⟨hlow₂, hm₂, ?_⟩
  rw [htrace₂, htrace₁, List.append_assoc, readSlots, pulses_append (by simp)]
  simp [pulses]

theorem call_ends {c : Call} (hc : Answered c)
    (h : InLow S (Session True S (c.slots ++ rest) Q) b) (hm : Clocking b.mcu) :
    Ends ((bitBangDriver S).call c) b fun r b' => BitBangResult c r ∧
      InLow S (Session True S rest fun bits => Q (c.bits r ++ bits)) b' ∧ Clocking b'.mcu ∧
      (True → b'.trace = b.trace ++ pulses c.slots (c.bits r)) := by
  cases c with
  | write data =>
      refine (i2cWriteByte_ends h hm).mono ?_
      rintro r b' ⟨ack, rfl, hlow, hm', htrace⟩
      have hack : (if ack then 1#8 else 0#8).getLsbD 0 = ack := by
        cases ack <;> rfl
      refine ⟨?_, ?_, hm', fun _ => ?_⟩
      · cases ack
        · exact Or.inl rfl
        · exact Or.inr rfl
      · simpa only [Call.bits, hack, List.append_assoc, List.singleton_append] using hlow
      · simpa only [Call.slots, Call.bits, hack] using htrace
  | read nack =>
      refine (i2cReadByte_ends hc h hm).mono ?_
      rintro r b' ⟨hlow, hm', htrace⟩
      refine ⟨trivial, ?_, hm', fun _ => htrace⟩
      simpa only [Call.bits, List.append_assoc, List.singleton_append] using hlow

end Bits

theorem i2cStart_ends {K : σ → Prop} {b : Board σ} (h : AtRest S (Idle S K) b)
    (hm : Released b.mcu) :
    Ends (i2cStart S) b fun _ b' =>
      InLow S K b' ∧ Clocking b'.mcu ∧ b'.trace = b.trace ++ [.start, .fall] := by
  obtain ⟨sda, scl, hm⟩ := hm
  refine ends_bind (ends_bind (rest_write_ends h hm.ddrbAndSda rfl rfl ?_))
  intro b₁ hrest₁ hm₁ _ htrace₁
  refine rest_write_ends hrest₁ hm₁.portbOrSda rfl rfl ?_
  intro b₂ hrest₂ hm₂ _ htrace₂
  refine ends_bind (ends_bind (rest_write_ends hrest₂ hm₂.ddrbAndScl rfl rfl ?_))
  intro b₃ hrest₃ hm₃ _ htrace₃
  refine rest_write_ends hrest₃ hm₃.portbOrScl rfl rfl ?_
  intro b₄ hrest₄ hm₄ hsteady₄ htrace₄
  have hsteady : b₄.mcu = steadied b₄.mcu := by
    rw [steadied_of_off hm₄.usicr, ← hsteady₄]
  refine ends_bind (hrest₄.delay_ends hsteady hm₄.sclOut (hm₄.sdaOut true) ?_)
  intro b₅ hrest₅ hmcu₅ htrace₅
  rw [← hmcu₅] at hm₄
  refine ends_bind (ends_bind (rest_write_ends hrest₅ hm₄.ddrbOrSda rfl rfl ?_))
  intro b₆ hrest₆ hm₆ _ htrace₆
  have hm₇ := hm₆.portbAndSda
  refine hrest₆.start_ends hm₇.sclOut (hm₇.sdaOut true) ?_
  intro b₇ hstart₇ hmcu₇ htrace₇
  rw [steadied_of_off hm₇.usicr, flagged_of_off hm₇.latched.usicr] at hmcu₇
  have hm₇' := hm₇.latched
  rw [← hmcu₇] at hm₇'
  have hm₈ := hm₇'.ddrbOrScl
  refine ends_bind (hstart₇.write_ends hm₈.sclOut (hm₈.sdaOut true) ?_)
  intro b₈ hstart₈ hmcu₈ htrace₈
  rw [steadied_of_off hm₈.usicr] at hmcu₈
  have hm₈' := hm₈.latched
  rw [← hmcu₈] at hm₈'
  have hm₉ := hm₈'.portbAndScl
  refine hstart₈.fall_ends hm₉.sclOut (hm₉.sdaOut false) ?_
  intro b₉ hlow₉ hmcu₉ htrace₉
  rw [holding_of_off hm₉.latched.usicr] at hmcu₉
  refine ⟨hlow₉, ⟨false, ?_⟩, ?_⟩
  · rw [hmcu₉]
    exact hm₉.latched
  · rw [htrace₉, htrace₈, htrace₇, htrace₆, htrace₅, htrace₄, htrace₃, htrace₂, htrace₁]
    simp

theorem i2cStop_ends {Q : σ → Prop} {b : Board σ} (h : InLow S (Stopping True S Q) b)
    (hm : Clocking b.mcu) :
    Ends (i2cStop S) b fun _ b' => AtRest S Q b' ∧ Released b'.mcu ∧
      (True → b'.trace = b.trace ++ [Slot.rise (.master false) false, .stop]) := by
  have h' : InLow S (Clocked True S (.master false) fun _ s' =>
      Resting S (S.high true s') ∧ Q (S.high true s')) b := h
  refine ends_bind (setLevel_ends false h' hm ?_)
  intro b₁ hlow₁ hm₁ hsteady₁ htrace₁
  refine ends_bind (hlow₁.delay_ends hsteady₁ hm₁.sclOut ?_)
  intro b₂ hlow₂ hmcu₂ htrace₂
  rw [← hmcu₂] at hm₁ hsteady₁
  refine ends_bind ((i2cSetScl_ends hlow₂ hm₁ hsteady₁ rfl).mono ?_)
  rintro _ b₃ ⟨m₃, hm₃, hrelease₃⟩
  refine ends_bind ((waitScl_risen_ends hm₃ rfl hrelease₃).mono ?_)
  rintro _ b₄ ⟨n, bit, hrisen₄⟩
  refine ends_bind (hrisen₄.delay_ends hm₃.sclOut (hm₃.sdaOut false) ?_)
  intro n' b₅ hrisen₅
  have hmcu₅ := hrisen₅.mcu
  rw [risen_of_off hm₃.usicr] at hmcu₅
  have hm₅ := hm₃.latched
  rw [← hmcu₅] at hm₅
  have hm₆ := hm₅.ddrbAndSda
  refine ends_bind (hrisen₅.stop_ends hm₆.sclOut (hm₆.sdaOut true) ?_)
  intro b₆ hrest₆ hmcu₆ htrace₆
  rw [steadied_of_off hm₆.usicr] at hmcu₆
  have hm₆' := hm₆.latched
  rw [← hmcu₆] at hm₆'
  refine rest_write_ends hrest₆ hm₆'.portbOrSda rfl rfl ?_
  intro b₇ hrest₇ hm₇ _ htrace₇
  refine ⟨hrest₇, ⟨true, true, hm₇⟩, fun _ => ?_⟩
  rw [htrace₇, htrace₆ trivial, htrace₂, htrace₁]

theorem bitBang_speaks : SpeaksI2c True S (bitBangDriver S) Answered BitBangResult
    Released Clocking Clocking where
  start := i2cStart_ends
  begun := id
  call := call_ends
  stop := i2cStop_ends

end NesMiniAdapter.BitBang
