import NesMiniAdapter.BoardPhases
import NesMiniAdapter.I2cPrimary
import NesMiniAdapter.I2cTransaction

/-!
What each function of the USI driver does on the lines, for any slave that
behaves over the slots the function clocks.
-/

namespace NesMiniAdapter.UsiTransfer

open NesMiniAdapter.ByteBits
open NesMiniAdapter.FuelledProgram
open NesMiniAdapter.OpenDrainBus
open NesMiniAdapter.Attiny85
open NesMiniAdapter.BoardPhases
open NesMiniAdapter.I2cPrimary
open NesMiniAdapter.I2cTransaction

variable {σ : Type} {S : Slave σ} {strict : Prop}

/-- The registers of the USI master: two-wire mode as `i2c_init` selects it,
SCL an output, SDA one if `drive`, and PORTB with `sda` and `scl`. -/
structure Pins (drive sda scl : Bool) (m : Mcu) : Prop where
  usicr : m.usicr = 0b00101010#8
  ddrSda : m.ddrb.getLsbD pb0 = drive
  ddrScl : m.ddrb.getLsbD pb2 = true
  portSda : m.portb.getLsbD pb0 = sda
  portScl : m.portb.getLsbD pb2 = scl

section Registers

variable {drive sda scl : Bool} {m m' : Mcu}

theorem twoWire_of_usicr (h : m.usicr = 0b00101010#8) : m.twoWire = true := by
  simp [Mcu.twoWire, h, usiwm1, usiwm0]

theorem risingClock_of_usicr (h : m.usicr = 0b00101010#8) : m.risingClock = true := by
  simp [Mcu.risingClock, h, usics1, usics0]

theorem dataOut_true_of_usicr (h : m.usicr = 0b00101010#8) :
    m.dataOut true = m.sdaLatch := by
  simp [Mcu.dataOut, h, usics1]

theorem steadied_of_usicr (h : m.usicr = 0b00101010#8) : steadied m = m := by
  rw [steadied, dataOut_true_of_usicr h]

theorem Pins.of_eq (h : Pins drive sda scl m) (husicr : m'.usicr = m.usicr)
    (hddrb : m'.ddrb = m.ddrb) (hportb : m'.portb = m.portb) : Pins drive sda scl m' := by
  obtain ⟨h₁, h₂, h₃, h₄, h₅⟩ := h
  refine ⟨husicr.trans h₁, ?_, ?_, ?_, ?_⟩
  · rw [hddrb, h₂]
  · rw [hddrb, h₃]
  · rw [hportb, h₄]
  · rw [hportb, h₅]

theorem Pins.sclOut (h : Pins drive sda scl m) : m.sclOut = (scl && !m.startHold) := by
  rw [Mcu.sclOut, h.ddrScl, h.portScl]
  simp

theorem Pins.sclOut_low (h : Pins drive sda false m) : m.sclOut = false := by
  rw [h.sclOut]
  rfl

theorem Pins.sdaOut (h : Pins drive sda scl m) (level : Bool) :
    m.sdaOut level = (!drive || (sda && m.dataOut level)) := by
  rw [Mcu.sdaOut, h.ddrSda, h.portSda, twoWire_of_usicr h.usicr]
  simp

theorem Pins.setSda (h : Pins drive sda scl m) :
    Pins drive true scl { m with portb := m.portb ||| bv pinSda } := by
  refine ⟨h.usicr, h.ddrSda, h.ddrScl, ?_, ?_⟩
  · rw [getLsbD_or_bv _ _ (by decide)]
    simp
  · rw [getLsbD_or_bv _ _ (by decide), h.portScl]
    simp

theorem Pins.clearSda (h : Pins drive sda scl m) :
    Pins drive false scl { m with portb := m.portb &&& ~~~bv pinSda } := by
  refine ⟨h.usicr, h.ddrSda, h.ddrScl, ?_, ?_⟩
  · rw [getLsbD_and_not_bv _ _ (by decide)]
    simp
  · rw [getLsbD_and_not_bv _ _ (by decide), h.portScl]
    simp

theorem Pins.setScl (h : Pins drive sda scl m) :
    Pins drive sda true { m with portb := m.portb ||| bv pinScl } := by
  refine ⟨h.usicr, h.ddrSda, h.ddrScl, ?_, ?_⟩
  · rw [getLsbD_or_bv _ _ (by decide), h.portSda]
    simp
  · rw [getLsbD_or_bv _ _ (by decide)]
    simp

theorem Pins.clearScl (h : Pins drive sda scl m) :
    Pins drive sda false { m with portb := m.portb &&& ~~~bv pinScl } := by
  refine ⟨h.usicr, h.ddrSda, h.ddrScl, ?_, ?_⟩
  · rw [getLsbD_and_not_bv _ _ (by decide), h.portSda]
    simp
  · rw [getLsbD_and_not_bv _ _ (by decide)]
    simp

theorem Pins.driveSda (h : Pins drive sda scl m) :
    Pins true sda scl { m with ddrb := m.ddrb ||| bv pinSda } := by
  refine ⟨h.usicr, ?_, ?_, h.portSda, h.portScl⟩
  · rw [getLsbD_or_bv _ _ (by decide)]
    simp
  · rw [getLsbD_or_bv _ _ (by decide), h.ddrScl]
    simp

theorem Pins.releaseSda (h : Pins drive sda scl m) :
    Pins false sda scl { m with ddrb := m.ddrb &&& ~~~bv pinSda } := by
  refine ⟨h.usicr, ?_, ?_, h.portSda, h.portScl⟩
  · rw [getLsbD_and_not_bv _ _ (by decide)]
    simp
  · rw [getLsbD_and_not_bv _ _ (by decide), h.ddrScl]
    simp

/-- The strobe toggles SCL and counts once. -/
theorem writeUsicr_usitc (h : m.usicr = 0b00101010#8) :
    m.writeUsicr (m.usicr ||| bv usitc) = { m with
      portb := m.portb ^^^ bv pb2
      usicnt := m.usicnt + 1
      overflowFlag := m.overflowFlag || decide (m.usicnt = 15#4) } := by
  simp [Mcu.writeUsicr, Mcu.strobe, Mcu.strobeClock, Mcu.count, h, usitc, usics1, usiclk]

end Registers

/-- The registers within a transfer: `u` in USIDR, `left` pulses to go. -/
structure Shifting (drive : Bool) (u : BitVec 8) (left : Nat) (m : Mcu) : Prop where
  usi : Pins drive true false m
  steady : m = latched m
  flag : m.startFlag = false
  hold : m.startHold = false
  usidr : m.usidr = u
  count : (left = 0 ∧ m.overflowFlag = true) ∨
    (m.overflowFlag = false ∧ m.usicnt.toNat + 2 * left = 16)

/-- The strobe that releases SCL keeps what SDA shows. -/
theorem Shifting.release {drive : Bool} {u : BitVec 8} {left : Nat} {m : Mcu}
    (h : Shifting drive u left m) :
    (m.writeUsicr (m.usicr ||| bv usitc)).sclOut = true ∧
      (m.writeUsicr (m.usicr ||| bv usitc)).sdaOut false = (!drive || u.getLsbD 7) ∧
      (m.writeUsicr (m.usicr ||| bv usitc)).sdaLatch = m.usidr.getLsbD 7 := by
  rw [writeUsicr_usitc h.usi.usicr]
  refine ⟨?_, ?_, ?_⟩
  · rw [Mcu.sclOut, h.usi.ddrScl, h.hold, getLsbD_xor_bv _ _ (by decide), h.usi.portScl]
    rfl
  · have hsda := h.usi.sdaOut false
    rw [dataOut_false, h.usidr, Bool.true_and] at hsda
    rw [← hsda, Mcu.sdaOut, Mcu.sdaOut, getLsbD_xor_bv _ _ (by decide)]
    simp [Mcu.twoWire]
  · rw [h.steady]
    rfl

/-- Two more counts of a counter that has `left + 1` pulses to go: it overflows
with the second one if that was the last pulse. -/
theorem counts_pulse {count : BitVec 4} {left : Nat} (h : count.toNat + 2 * (left + 1) = 16) :
    (left = 0 ∧ (decide (count = 15#4) || decide (count + 1 = 15#4)) = true) ∨
      ((decide (count = 15#4) || decide (count + 1 = 15#4)) = false ∧
        (count + 1 + 1).toNat + 2 * left = 16) := by
  have hfirst : count ≠ 15#4 := by
    intro heq
    rw [heq] at h
    simp at h
    omega
  have hsecond : count + 1 = 15#4 ↔ left = 0 := by
    rw [← BitVec.toNat_inj, BitVec.toNat_add]
    simp
    omega
  rw [decide_eq_false hfirst, Bool.false_or, decide_eq_true_eq, decide_eq_false_iff_not, hsecond]
  by_cases hleft : left = 0
  · exact Or.inl ⟨hleft, hleft⟩
  · refine Or.inr ⟨hleft, ?_⟩
    simp only [BitVec.toNat_add]
    simp
    omega

/-- Both strobes of a pulse: SCL is low again, USIDR has shifted, the counter
has gone up by two. -/
theorem Shifting.pulse {drive : Bool} {u : BitVec 8} {left : Nat} {m : Mcu}
    (h : Shifting drive u (left + 1) m) (bit : Bool) :
    let m₁ := risen (m.writeUsicr (m.usicr ||| bv usitc)) bit
    let m₂ := m₁.writeUsicr (m₁.usicr ||| bv usitc)
    m₂.sclOut = false ∧ Shifting drive (shiftIn u bit) left (holding (latched m₂)) := by
  intro m₁ m₂
  have hm₁ : m₁ = { m with
      portb := m.portb ^^^ bv pb2
      usicnt := m.usicnt + 1
      overflowFlag := m.overflowFlag || decide (m.usicnt = 15#4)
      sdaLatch := u.getLsbD 7
      usidr := shiftIn u bit } := by
    have hclock := risingClock_of_usicr h.usi.usicr
    simp only [m₁, writeUsicr_usitc h.usi.usicr, risen, latched, h.usidr]
    simp_all [Mcu.risingClock]
  have hm₂ : m₂ = { m with
      usicnt := m.usicnt + 1 + 1
      overflowFlag := m.overflowFlag || decide (m.usicnt = 15#4) ||
        decide (m.usicnt + 1 = 15#4)
      sdaLatch := u.getLsbD 7
      usidr := shiftIn u bit } := by
    have husicr : m₁.usicr = 0b00101010#8 := by
      rw [hm₁]
      exact h.usi.usicr
    simp only [m₂, writeUsicr_usitc husicr]
    rw [hm₁, BitVec.xor_assoc, BitVec.xor_self, BitVec.xor_zero]
  have hcount : m.overflowFlag = false ∧ m.usicnt.toNat + 2 * (left + 1) = 16 := by
    rcases h.count with ⟨hleft, -⟩ | hcount
    · omega
    · exact hcount
  obtain ⟨hover, hcount⟩ := hcount
  rw [hm₂]
  refine ⟨?_, ⟨h.usi.of_eq rfl rfl rfl, rfl, h.flag, ?_, rfl, ?_⟩⟩
  · rw [Mcu.sclOut, h.usi.ddrScl, h.usi.portScl]
    rfl
  · simp [holding, latched, h.hold, h.flag]
  · simp only [holding, latched, hover, Bool.false_or]
    exact counts_pulse hcount

theorem sclLow_polls : PollsScl S (sclLow S) := by
  intro b Q h
  refine ⟨!b.lines.scl, b.tick S, h, 0, fun _ _ => ?_⟩
  have hpinb : (b.pinb &&& bv pinScl == 0#8) = !b.lines.scl := by
    unfold Board.pinb
    cases b.lines.sda <;> cases b.lines.scl <;> decide
  rw [← hpinb]
  rfl

theorem clockPulse_ends {drive : Bool} {u : BitVec 8} {left : Nat} {slot : Slot}
    {K : Bool → σ → Prop} {b : Board σ}
    (h : InLow S (Clocked strict S slot K) b) (hm : Shifting drive u (left + 1) b.mcu)
    (hlevel : slot.level = (!drive || u.getLsbD 7)) :
    Ends (clockPulse S) b fun _ b' => ∃ bit,
      InLow S (fun s => ∃ s' m, K bit s' ∧ s = S.low m s') b' ∧
        Shifting drive (shiftIn u bit) left b'.mcu ∧
        (strict → b'.trace = b.trace ++ slot.pulse bit) ∧
        ∀ v, slot = .master v → bit = v := by
  obtain ⟨hlow, hmcu, htrace⟩ := h.ticks hm.steady hm.usi.sclOut_low waitLong
  obtain ⟨hscl, hsda, hlatch⟩ := hm.release
  refine ends_bind (ends_modify ?_)
  have hrelease := access_release hlow (f := fun m => m.writeUsicr (m.usicr ||| bv usitc))
    (by rw [hmcu, hscl]) (by rw [hmcu, hsda, hlevel])
    (by rw [hmcu, hlatch, writeUsicr_usitc hm.usi.usicr])
  rw [hmcu, htrace] at hrelease
  refine ends_bind (ends_modify ?_)
  refine ends_bind ((waitScl_ends sclLow_polls hscl (hsda.trans hlevel.symm) hrelease).mono ?_)
  rintro _ b₂ ⟨n, bit, hrisen⟩
  refine ends_bind (ends_modify ?_)
  obtain ⟨hpulse, hmcu₃, htrace₃, -, hsent⟩ :=
    hrisen.ticks hscl (hsda.trans hlevel.symm) waitShort
  rw [Nat.add_right_comm] at hpulse
  obtain ⟨hscl', hshift⟩ := hm.pulse bit
  refine ends_modify ⟨bit, ?_⟩
  have hfall := hpulse.fall (f := fun m => m.writeUsicr (m.usicr ||| bv usitc))
    (P := fun s => ∃ s' m, K bit s' ∧ s = S.low m s')
    (by rw [hmcu₃]; exact hscl') (fun s hK => ⟨s, _, hK, rfl⟩)
  obtain ⟨hlow₄, hmcu₄, htrace₄⟩ := hfall
  refine ⟨hlow₄, ?_, ?_, fun v hv => (hsent v hv).1⟩
  · rw [hmcu₄, hmcu₃]
    exact hshift
  · intro hstrict
    rw [htrace₄, htrace₃ hstrict]
    simp [Slot.pulse]

/-- Over the slots, bit 7 of USIDR is what the master must leave on SDA. -/
def Feeds (drive : Bool) : BitVec 8 → List Slot → Prop
  | _, [] => True
  | u, slot :: slots =>
      slot.level = (!drive || u.getLsbD 7) ∧ ∀ bit, Feeds drive (shiftIn u bit) slots

/-- Within a transfer of `slots` from board `b₀` with `u₀` in USIDR: `left`
slots are to come, and the others have been clocked. -/
def Midway (strict : Prop) (S : Slave σ) (drive : Bool) (slots rest : List Slot)
    (Q : List Bool → σ → Prop) (u₀ : BitVec 8) (b₀ : Board σ) (left : Nat)
    (b : Board σ) : Prop :=
  ∃ past todo bits, past ++ todo = slots ∧ todo.length = left ∧ Carries past bits ∧
    Feeds drive (bits.foldl shiftIn u₀) todo ∧
    Shifting drive (bits.foldl shiftIn u₀) left b.mcu ∧
    InLow S (Session strict S (todo ++ rest) fun bits' => Q (bits ++ bits')) b ∧
    (strict → b.trace = b₀.trace ++ pulses past bits)

section Transfer

variable {drive : Bool} {slots rest : List Slot} {Q : List Bool → σ → Prop}
  {u₀ : BitVec 8} {b₀ b : Board σ} {left : Nat}

theorem Midway.step (h : Midway strict S drive slots rest Q u₀ b₀ (left + 1) b) :
    Ends (clockPulse S) b fun _ b' => Midway strict S drive slots rest Q u₀ b₀ left b' := by
  obtain ⟨past, todo, bits, hslots, hlength, hcarries, hfeeds, hshift, hlow, htrace⟩ := h
  cases todo with
  | nil => simp at hlength
  | cons slot todo =>
      have hclocked : InLow S (Clocked strict S slot fun bit s' =>
          ∀ m, Session strict S (todo ++ rest)
            (fun bits' => Q (bits ++ bit :: bits')) (S.low m s')) b := hlow
      refine (clockPulse_ends hclocked hshift hfeeds.1).mono ?_
      rintro _ b' ⟨bit, hlow', hshift', htrace', hsent⟩
      have hfold : (bits ++ [bit]).foldl shiftIn u₀ = shiftIn (bits.foldl shiftIn u₀) bit := by
        simp
      have hcarries' : Carries (past ++ [slot]) (bits ++ [bit]) :=
        hcarries.append ⟨hsent, trivial⟩
      refine ⟨past ++ [slot], todo, bits ++ [bit], by simpa using hslots,
        by simpa using hlength, hcarries', ?_, ?_, ?_, ?_⟩
      · rw [hfold]
        exact hfeeds.2 bit
      · rw [hfold]
        exact hshift'
      · refine hlow'.mono ?_
        rintro s ⟨s', m, hs', rfl⟩
        simpa using hs' m
      · intro hstrict
        rw [htrace' hstrict, htrace hstrict, pulses_append hcarries.length]
        simp [pulses]

theorem readUsisr_usioif (m : Mcu) :
    (m.readUsisr &&& bv usioif == 0#8) = !m.overflowFlag := by
  unfold Mcu.readUsisr
  generalize m.usicnt = c
  cases m.startFlag <;> cases m.overflowFlag <;> revert c <;> decide

theorem transferLoop_ends (h : Midway strict S drive slots rest Q u₀ b₀ (left + 1) b) :
    Ends (doWhile (clockPulse S) (do return (← readUsisr) &&& bv usioif == 0#8)) b
      fun _ b' => Midway strict S drive slots rest Q u₀ b₀ 0 b' := by
  refine ends_bind (h.step.mono ?_)
  intro _ b₁ h₁
  refine ends_whileLoop (Midway strict S drive slots rest Q u₀ b₀) ?_ h₁
  intro n b h
  refine ⟨!b.mcu.overflowFlag, b, ?_, 0, fun _ _ => ?_⟩
  · cases n with
    | zero =>
        obtain ⟨_, _, _, _, _, _, _, hshift, _⟩ := id h
        rcases hshift.count with ⟨-, hover⟩ | ⟨-, hcount⟩
        · simpa [hover] using h
        · have := b.mcu.usicnt.isLt
          omega
    | succ n =>
        obtain ⟨_, _, _, _, _, _, _, hshift, _⟩ := id h
        rcases hshift.count with ⟨hleft, -⟩ | ⟨hover, -⟩
        · simp at hleft
        · simp only [hover]
          exact h.step.mono fun _ b' h' => ⟨n, Nat.lt_succ_self n, h'⟩
  · rw [← readUsisr_usioif]
    rfl

/-- After a transfer: SDA released by USIDR, nothing pending at the start detector. -/
structure Cleared (m : Mcu) : Prop where
  steady : m = latched m
  usidr : m.usidr = 0xFF#8
  flag : m.startFlag = false
  hold : m.startHold = false

/-- The registers once USISR is loaded, with `left` pulses to count. -/
theorem shifting_of_writeUsisr {mask : BitVec 8} {m : Mcu} (hm : Pins drive true false m)
    (hflag : mask.getLsbD usisif = true) (hover : mask.getLsbD usioif = true)
    (hcount : (mask.setWidth 4).toNat + 2 * left = 16) :
    Shifting drive m.usidr left (latched (m.writeUsisr mask)) := by
  refine ⟨hm.of_eq rfl rfl rfl, rfl, ?_, ?_, rfl, Or.inr ⟨?_, hcount⟩⟩
  · change (_ && !mask.getLsbD usisif) = false
    simp only [hflag, Bool.not_true, Bool.and_false]
  · change (_ && !mask.getLsbD usisif) = false
    simp only [hflag, Bool.not_true, Bool.and_false]
  · change (_ && !mask.getLsbD usioif) = false
    simp only [hover, Bool.not_true, Bool.and_false]

theorem i2cTransfer_ends {mask : BitVec 8}
    (h : InLow S (Session strict S (slots ++ rest) Q) b) (hm : Pins drive true false b.mcu)
    (hfeeds : Feeds drive b.mcu.usidr slots)
    (hflag : mask.getLsbD usisif = true) (hover : mask.getLsbD usioif = true)
    (hcount : (mask.setWidth 4).toNat + 2 * slots.length = 16) :
    Ends (i2cTransfer S mask) b fun r b' => ∃ bits, Carries slots bits ∧
      r = bits.foldl shiftIn b.mcu.usidr ∧
      InLow S (Session strict S rest fun bits' => Q (bits ++ bits')) b' ∧
      Pins drive true false b'.mcu ∧ Cleared b'.mcu ∧
      (strict → b'.trace = b.trace ++ pulses slots bits) := by
  obtain ⟨hlow₁, hmcu₁, htrace₁⟩ :=
    h.access (f := fun m => { m with portb := m.portb &&& ~~~bv pinScl })
      hm.clearScl.sclOut_low
  refine ends_bind (ends_modify ?_)
  have hm₁ : Pins drive true false (Board.access S
      (fun m => { m with portb := m.portb &&& ~~~bv pinScl }) b).mcu := by
    rw [hmcu₁]
    exact hm.clearScl.of_eq rfl rfl rfl
  have hm₂ : Pins drive true false ((Board.access S
      (fun m => { m with portb := m.portb &&& ~~~bv pinScl }) b).mcu.writeUsisr mask) :=
    hm₁.of_eq rfl rfl rfl
  obtain ⟨hlow₂, hmcu₂, htrace₂⟩ :=
    hlow₁.access (f := fun m => m.writeUsisr mask) hm₂.sclOut_low
  refine ends_bind (ends_modify ?_)
  obtain ⟨left, hleft⟩ : ∃ left, slots.length = left + 1 := by
    have := (mask.setWidth 4).isLt
    exact ⟨slots.length - 1, by omega⟩
  have hmid : Midway strict S drive slots rest Q b.mcu.usidr b (left + 1)
      (Board.access S (fun m => m.writeUsisr mask) (Board.access S
        (fun m => { m with portb := m.portb &&& ~~~bv pinScl }) b)) := by
    refine ⟨[], slots, [], rfl, hleft, trivial, hfeeds, ?_, hlow₂, ?_⟩
    · have husidr : (Board.access S
          (fun m => { m with portb := m.portb &&& ~~~bv pinScl }) b).mcu.usidr = b.mcu.usidr := by
        rw [hmcu₁]
        rfl
      rw [hmcu₂, List.foldl_nil, ← husidr]
      exact shifting_of_writeUsisr hm₁ hflag hover (by omega)
    · intro _
      rw [htrace₂, htrace₁]
      simp [pulses]
  refine ends_bind ((transferLoop_ends hmid).mono ?_)
  rintro _ b₃ ⟨past, todo, bits, hslots, hlength, hcarries, -, hshift, hlow₃, htrace₃⟩
  obtain rfl := List.eq_nil_of_length_eq_zero hlength
  obtain rfl : past = slots := by simpa using hslots
  obtain ⟨hlow₄, hmcu₄, htrace₄⟩ :=
    hlow₃.ticks hshift.steady hshift.usi.sclOut_low waitLong
  refine ends_bind (ends_modify ?_)
  refine ends_bind (ends_bind (ends_get (ends_pure ?_)))
  obtain ⟨hlow₅, hmcu₅, htrace₅⟩ :=
    hlow₄.access (f := fun m => { m with usidr := 0xFF#8 })
      (by rw [hmcu₄]; exact hshift.usi.sclOut_low)
  refine ends_bind (ends_modify (ends_pure ⟨bits, hcarries, ?_, hlow₅, ?_, ?_, ?_⟩))
  · rw [hmcu₄, hshift.usidr]
  · rw [hmcu₅, hmcu₄]
    exact hshift.usi.of_eq rfl rfl rfl
  · rw [hmcu₅, hmcu₄]
    exact ⟨rfl, rfl, hshift.flag, hshift.hold⟩
  · intro hstrict
    rw [htrace₅, htrace₄, htrace₃ hstrict]

end Transfer

theorem feeds_bitsOf (d : BitVec 8) : Feeds true d ((bitsOf d).map .master) := by
  simp only [bitsOf, List.map_cons, List.map_nil, Feeds, Slot.level, shiftIn_getLsbD]
  simp

theorem feeds_slave (u : BitVec 8) (n : Nat) : Feeds false u (List.replicate n .slave) := by
  induction n generalizing u with
  | zero => trivial
  | succ n ih => exact ⟨rfl, fun bit => ih (shiftIn u bit)⟩

theorem Cleared.of_eq {m m' : Mcu} (h : Cleared m) (hsteady : m' = latched m')
    (husidr : m'.usidr = m.usidr) (hflag : m'.startFlag = m.startFlag)
    (hhold : m'.startHold = m.startHold) : Cleared m' :=
  ⟨hsteady, husidr.trans h.usidr, hflag.trans h.flag, hhold.trans h.hold⟩

section Calls

variable {rest : List Slot} {Q : List Bool → σ → Prop} {b : Board σ}

/-- `DDRB &= ~(1 << PIN_SDA)` between transfers. -/
theorem releaseSda_ends {P : σ → Prop} {R : Unit → Board σ → Prop}
    {drive : Bool} (h : InLow S P b) (hm : Pins drive true false b.mcu)
    (hR : ∀ b', InLow S P b' → Pins false true false b'.mcu → b'.mcu = latched b'.mcu →
      b'.mcu.usidr = b.mcu.usidr → b'.trace = b.trace → R () b') :
    Ends (ddrbAnd S (~~~bv pinSda)) b R := by
  obtain ⟨hlow, hmcu, htrace⟩ :=
    h.access (f := fun m => { m with ddrb := m.ddrb &&& ~~~bv pinSda })
      hm.releaseSda.sclOut_low
  refine ends_modify (hR _ hlow ?_ ?_ ?_ htrace)
  · rw [hmcu]
    exact hm.releaseSda.of_eq rfl rfl rfl
  · rw [hmcu]
    rfl
  · rw [hmcu]
    rfl

/-- `DDRB |= (1 << PIN_SDA)` after a transfer. -/
theorem driveSda_ends {P : σ → Prop} {R : Unit → Board σ → Prop}
    {drive : Bool} (h : InLow S P b) (hm : Pins drive true false b.mcu) (hclear : Cleared b.mcu)
    (hR : ∀ b', InLow S P b' → Pins true true false b'.mcu → Cleared b'.mcu →
      b'.trace = b.trace → R () b') :
    Ends (ddrbOr S (bv pinSda)) b R := by
  obtain ⟨hlow, hmcu, htrace⟩ :=
    h.access (f := fun m => { m with ddrb := m.ddrb ||| bv pinSda })
      hm.driveSda.sclOut_low
  refine ends_modify (hR _ hlow ?_ ?_ htrace)
  · rw [hmcu]
    exact hm.driveSda.of_eq rfl rfl rfl
  · rw [hmcu]
    exact hclear.of_eq rfl rfl rfl rfl

/-- `USIDR = v` while SCL is low. -/
theorem loadUsidr_ends {P : σ → Prop} {R : Unit → Board σ → Prop} {v : BitVec 8}
    {drive : Bool} (h : InLow S P b) (hm : Pins drive true false b.mcu)
    (hR : ∀ b', InLow S P b' → Pins drive true false b'.mcu → b'.mcu.usidr = v →
      b'.trace = b.trace → R () b') :
    Ends (usidrSet S v) b R := by
  obtain ⟨hlow, hmcu, htrace⟩ :=
    h.access (f := fun m => { m with usidr := v }) hm.sclOut_low
  refine ends_modify (hR _ hlow ?_ ?_ htrace)
  · rw [hmcu]
    exact hm.of_eq rfl rfl rfl
  · rw [hmcu]
    rfl

theorem i2cWriteByte_ends {d : BitVec 8}
    (h : InLow S (Session strict S (writeSlots d ++ rest) Q) b)
    (hm : Pins true true false b.mcu) :
    Ends (i2cWriteByte S d) b fun r b' => ∃ ack, r = shiftIn 0xFF#8 ack ∧
      InLow S (Session strict S rest fun bits => Q (bitsOf d ++ ack :: bits)) b' ∧
      Pins true true false b'.mcu ∧ Cleared b'.mcu ∧
      (strict → b'.trace = b.trace ++ pulses (writeSlots d) (bitsOf d ++ [ack])) := by
  refine ends_bind (loadUsidr_ends h hm ?_)
  intro b₁ hlow₁ hm₁ husidr₁ htrace₁
  rw [writeSlots, List.append_assoc] at hlow₁
  refine ends_bind ((i2cTransfer_ends hlow₁ hm₁ (by rw [husidr₁]; exact feeds_bitsOf d)
    (by decide) (by decide) (by simp [bitsOf])).mono ?_)
  rintro _ b₂ ⟨bits, hcarries, -, hlow₂, hm₂, hclear₂, htrace₂⟩
  obtain rfl := carries_master hcarries
  refine ends_bind (releaseSda_ends hlow₂ hm₂ ?_)
  intro b₃ hlow₃ hm₃ hsteady₃ husidr₃ htrace₃
  refine ends_bind ((i2cTransfer_ends hlow₃ hm₃ (feeds_slave _ 1)
    (by decide) (by decide) (by simp)).mono ?_)
  rintro r b₄ ⟨acks, hcarries', hr, hlow₄, hm₄, hclear₄, htrace₄⟩
  obtain ⟨ack, rfl⟩ := List.length_eq_one_iff.mp hcarries'.length.symm
  refine ends_bind (driveSda_ends hlow₄ hm₄ hclear₄ ?_)
  intro b₅ hlow₅ hm₅ hclear₅ htrace₅
  refine ends_pure ⟨ack, ?_, by simpa using hlow₅, hm₅, hclear₅, ?_⟩
  · rw [hr, husidr₃, hclear₂.usidr]
    rfl
  · intro hstrict
    rw [htrace₅, htrace₄ hstrict, htrace₃, htrace₂ hstrict, htrace₁, List.append_assoc,
      ← pulses_append hcarries.length]
    rfl

theorem i2cReadByte_ends {k : BitVec 8}
    (h : InLow S (Session strict S (readSlots (k.getLsbD 7) ++ rest) Q) b)
    (hm : Pins true true false b.mcu) :
    Ends (i2cReadByte S k) b fun r b' =>
      InLow S (Session strict S rest fun bits =>
        Q (bitsOf r ++ k.getLsbD 7 :: bits)) b' ∧
      Pins true true false b'.mcu ∧ Cleared b'.mcu ∧
      (strict → b'.trace = b.trace ++
        pulses (readSlots (k.getLsbD 7)) (bitsOf r ++ [k.getLsbD 7])) := by
  refine ends_bind (releaseSda_ends h hm ?_)
  intro b₁ hlow₁ hm₁ hsteady₁ husidr₁ htrace₁
  rw [readSlots, List.append_assoc] at hlow₁
  refine ends_bind ((i2cTransfer_ends hlow₁ hm₁ (feeds_slave _ 8)
    (by decide) (by decide) (by simp)).mono ?_)
  rintro r b₂ ⟨bits, hcarries, hr, hlow₂, hm₂, hclear₂, htrace₂⟩
  have hbits : bitsOf r = bits := by
    rw [hr]
    exact bitsOf_shiftIn (by simpa using hcarries.length.symm) _
  subst hbits
  refine ends_bind (driveSda_ends hlow₂ hm₂ hclear₂ ?_)
  intro b₃ hlow₃ hm₃ hclear₃ htrace₃
  refine ends_bind (loadUsidr_ends hlow₃ hm₃ ?_)
  intro b₄ hlow₄ hm₄ husidr₄ htrace₄
  have hfeeds : Feeds true b₄.mcu.usidr [.master (k.getLsbD 7)] := by
    rw [husidr₄]
    exact ⟨rfl, fun _ => trivial⟩
  refine ends_bind ((i2cTransfer_ends hlow₄ hm₄ hfeeds
    (by decide) (by decide) (by simp)).mono ?_)
  rintro _ b₅ ⟨answers, hcarries', -, hlow₅, hm₅, hclear₅, htrace₅⟩
  obtain rfl := @carries_master [k.getLsbD 7] _ hcarries'
  refine ends_pure ⟨by simpa using hlow₅, hm₅, hclear₅, ?_⟩
  intro hstrict
  rw [htrace₅ hstrict, htrace₄, htrace₃, htrace₂ hstrict, htrace₁, List.append_assoc,
    ← pulses_append hcarries.length]
  rfl

end Calls

structure Rested (m : Mcu) : Prop where
  pins : Pins true true true m
  flag : m.startFlag = false
  hold : m.startHold = false
  latch : m.sdaLatch = true
  top : m.usidr.getLsbD 7 = true

theorem Rested.sclOut {m : Mcu} (h : Rested m) : m.sclOut = true := by
  rw [h.pins.sclOut, h.hold]
  rfl

theorem Rested.sdaOut {m : Mcu} (h : Rested m) : m.sdaOut true = true := by
  rw [h.pins.sdaOut, dataOut_true_of_usicr h.pins.usicr, h.latch]
  rfl

theorem Rested.setSda {m : Mcu} (h : Rested m) :
    Rested { m with portb := m.portb ||| bv pinSda } :=
  ⟨h.pins.setSda, h.flag, h.hold, h.latch, h.top⟩

theorem Rested.setScl {m : Mcu} (h : Rested m) :
    Rested { m with portb := m.portb ||| bv pinScl } :=
  ⟨h.pins.setScl, h.flag, h.hold, h.latch, h.top⟩

theorem Rested.write_ends {Q : σ → Prop} {R : Unit → Board σ → Prop} {b : Board σ}
    {f : Mcu → Mcu} (h : AtRest S Q b) (hm : Rested (f b.mcu))
    (hR : ∀ b', AtRest S Q b' → Rested b'.mcu → b'.trace = b.trace → R () b') :
    Ends (modify (Board.access S f)) b R := by
  refine h.write_ends hm.sclOut hm.sdaOut ?_
  intro b' hrest hmcu htrace
  rw [steadied_of_usicr hm.pins.usicr] at hmcu
  exact hR b' hrest (by rw [hmcu]; exact hm) htrace

theorem readPortb_scl_ends {b : Board σ} {drive sda : Bool} {Q : Unit → Board σ → Prop}
    (h : Pins drive sda true b.mcu) (hQ : Q () b) :
    Ends (whileLoop (do return (← readPortb) &&& bv pinScl == 0#8) (pure ()) :
      Program (Board σ) Unit) b Q := by
  refine ends_whileLoop_of_false ⟨_, b, ⟨?_, hQ⟩, 0, fun _ _ => rfl⟩
  apply beq_eq_false_iff_ne.mpr
  intro heq
  have := congrArg (fun v : BitVec 8 => v.getLsbD pb2) heq
  simp only [BitVec.getLsbD_and, h.portScl] at this
  exact absurd this (by decide)

theorem i2cStartRelease_ends {Q : σ → Prop} {b : Board σ} (h : AtRest S Q b)
    (hm : Rested b.mcu) :
    Ends (i2cStartRelease S) b fun _ b' =>
      AtRest S Q b' ∧ Rested b'.mcu ∧ b'.trace = b.trace := by
  refine ends_bind (Rested.write_ends h hm.setSda ?_)
  intro b₁ hrest₁ hm₁ htrace₁
  refine ends_bind (Rested.write_ends hrest₁ hm₁.setScl ?_)
  intro b₂ hrest₂ hm₂ htrace₂
  exact readPortb_scl_ends hm₂.pins ⟨hrest₂, hm₂, htrace₂.trans htrace₁⟩

theorem i2cStartPull_ends {K : σ → Prop} {b : Board σ} (h : AtRest S (Idle S K) b)
    (hm : Rested b.mcu) :
    Ends (i2cStartPull S) b fun _ b' =>
      InLow S K b' ∧ Pins true true false b'.mcu ∧
        b'.trace = b.trace ++ [.start, .fall] := by
  have hpins := hm.pins.clearSda
  refine ends_bind (h.start_ends (by rw [hpins.sclOut, hm.hold]; rfl)
    (by rw [hpins.sdaOut]; rfl) ?_)
  intro b₁ hstart₁ hmcu₁ htrace₁
  rw [steadied_of_usicr hpins.usicr] at hmcu₁
  have hpins₁ : Pins true false true b₁.mcu := by
    rw [hmcu₁]
    exact hpins.of_eq rfl rfl rfl
  have hhold₁ : b₁.mcu.startHold = false := by
    rw [hmcu₁]
    exact hm.hold
  refine ends_bind (hstart₁.delay_ends (steadied_of_usicr hpins₁.usicr).symm
    (by rw [hpins₁.sclOut, hhold₁]; rfl) (by rw [hpins₁.sdaOut]; rfl) ?_)
  intro b₂ hstart₂ hmcu₂ htrace₂
  rw [← hmcu₂] at hpins₁
  refine ends_bind (hstart₂.fall_ends hpins₁.clearScl.sclOut_low
    (by rw [hpins₁.clearScl.sdaOut]; rfl) ?_)
  intro b₃ hlow₃ hmcu₃ htrace₃
  have hpins₃ : Pins true false false b₃.mcu := by
    rw [hmcu₃]
    exact hpins₁.clearScl.of_eq rfl rfl rfl
  refine hlow₃.write_ends hpins₃.setSda.sclOut_low ?_
  intro b₄ hlow₄ hmcu₄ htrace₄
  refine ⟨hlow₄, ?_, ?_⟩
  · rw [hmcu₄]
    exact hpins₃.setSda.of_eq rfl rfl rfl
  · rw [htrace₄, htrace₃, htrace₂, htrace₁]
    simp

theorem i2cStart_ends {K : σ → Prop} {b : Board σ} (h : AtRest S (Idle S K) b)
    (hm : Rested b.mcu) :
    Ends (i2cStart S) b fun _ b' =>
      InLow S K b' ∧ Pins true true false b'.mcu ∧
        b'.trace = b.trace ++ [.start, .fall] := by
  refine ends_bind ((i2cStartRelease_ends h hm).mono ?_)
  rintro _ b₁ ⟨hrest₁, hm₁, htrace₁⟩
  rw [← htrace₁]
  exact i2cStartPull_ends hrest₁ hm₁

/-- The registers once SCL is up with SDA low, and then SDA is released. The
rising edge shifts USIDR once more, but its bit 7 stays set. -/
theorem rested_of_risen {m : Mcu} (hm : Pins true false false m) (hclear : Cleared m)
    (bit : Bool) :
    Rested { risen { m with portb := m.portb ||| bv pinScl } bit with
      portb := (risen { m with portb := m.portb ||| bv pinScl } bit).portb ||| bv pinSda } where
  pins := by
    have hrisen : Pins true false true (risen { m with portb := m.portb ||| bv pinScl } bit) :=
      hm.setScl.of_eq rfl rfl rfl
    exact hrisen.setSda
  flag := hclear.flag
  hold := hclear.hold
  latch := by
    change m.usidr.getLsbD 7 = true
    rw [hclear.usidr]
    rfl
  top := by
    change (if Mcu.risingClock { m with portb := _ } then
      shiftIn m.usidr bit else m.usidr).getLsbD 7 = true
    rw [risingClock_of_usicr hm.setScl.usicr, if_pos rfl, hclear.usidr, shiftIn_getLsbD]
    rfl

theorem i2cStop_ends {Q : σ → Prop} {b : Board σ} (h : InLow S (Stopping strict S Q) b)
    (hm : Pins true true false b.mcu) (hclear : Cleared b.mcu) :
    Ends (i2cStop S) b fun _ b' => AtRest S Q b' ∧ Rested b'.mcu ∧
      (strict → b'.trace = b.trace ++ [Slot.rise (.master false) false, .stop]) := by
  refine ends_bind (h.write_ends hm.clearSda.sclOut_low ?_)
  intro b₁ hlow₁ hmcu₁ htrace₁
  have hpins₁ : Pins true false false b₁.mcu := by
    rw [hmcu₁]
    exact hm.clearSda.of_eq rfl rfl rfl
  have hclear₁ : Cleared b₁.mcu := by
    rw [hmcu₁]
    exact hclear.of_eq rfl rfl rfl rfl
  have hclocked : InLow S (Clocked strict S (.master false) fun _ s' =>
      Resting S (S.high true s') ∧ Q (S.high true s')) b₁ := hlow₁
  have hscl : Mcu.sclOut { b₁.mcu with portb := b₁.mcu.portb ||| bv pinScl } = true := by
    rw [hpins₁.setScl.sclOut, hclear₁.hold]
    rfl
  have hsda : Mcu.sdaOut { b₁.mcu with portb := b₁.mcu.portb ||| bv pinScl } false =
      Slot.level (.master false) := by
    rw [hpins₁.setScl.sdaOut]
    rfl
  have hlatch : b₁.mcu.sdaLatch = b₁.mcu.usidr.getLsbD 7 := by
    rw [hmcu₁]
    rfl
  refine ends_bind (ends_modify ?_)
  have hrelease := access_release hclocked
    (f := fun m => { m with portb := m.portb ||| bv pinScl }) hscl hsda hlatch
  refine ends_bind ((waitScl_ends sclLow_polls hscl hsda hrelease).mono ?_)
  rintro _ b₂ ⟨n, bit, hrisen₂⟩
  refine ends_bind (hrisen₂.delay_ends hscl hsda ?_)
  intro n' b₃ hrisen₃
  have hm₃ : Rested { b₃.mcu with portb := b₃.mcu.portb ||| bv pinSda } := by
    rw [hrisen₃.mcu]
    exact rested_of_risen hpins₁ hclear₁ bit
  refine ends_bind (hrisen₃.stop_ends
    (f := fun m => { m with portb := m.portb ||| bv pinSda }) hm₃.sclOut hm₃.sdaOut ?_)
  intro b₄ hrest₄ hmcu₄ htrace₄
  rw [steadied_of_usicr hm₃.pins.usicr] at hmcu₄
  have hm₄ : Rested b₄.mcu := by
    rw [hmcu₄]
    exact hm₃
  refine hrest₄.delay_ends (steadied_of_usicr hm₄.pins.usicr).symm hm₄.sclOut hm₄.sdaOut ?_
  intro b₅ hrest₅ hmcu₅ htrace₅
  refine ⟨hrest₅, by rw [hmcu₅]; exact hm₄, ?_⟩
  intro hstrict
  rw [htrace₅, htrace₄ hstrict, htrace₁]

end NesMiniAdapter.UsiTransfer
