import NesMiniAdapter.BitBang

/-!
DDRB and PORTB between any two writes of the bit-banging driver, for any slave
that stretches the clock for finitely many samples.
-/

namespace NesMiniAdapter.OpenDrainWrites

open NesMiniAdapter.ByteBits
open NesMiniAdapter.FuelledProgram
open NesMiniAdapter.OpenDrainBus
open NesMiniAdapter.Attiny85
open NesMiniAdapter.BoardPhases
open NesMiniAdapter.GpioPins
open NesMiniAdapter.I2cAttiny85
open NesMiniAdapter.BitBang

inductive BitBangCall where
  | start
  | stop
  | write (data : BitVec 8)
  | read (nack : BitVec 8)
  deriving DecidableEq, Repr

section Run

variable {σ : Type} (S : Slave σ)

def bitBangCall : BitBangCall → Program (Board σ) Unit
  | .start => i2cStart S
  | .stop => i2cStop S
  | .write data => do
      let _ ← i2cWriteByte S data
  | .read nack => do
      let _ ← i2cReadByte S nack

def bitBangCalls : List BitBangCall → Program (Board σ) Unit
  | [] => pure ()
  | c :: cs => do
      bitBangCall S c
      bitBangCalls cs

end Run

/-- With these values of DDRB and PORTB neither pin is an output driving 1. -/
def OpenDrain (ports : BitVec 8 × BitVec 8) : Prop :=
  (ports.1.getLsbD portSda && ports.2.getLsbD portSda) = false ∧
    (ports.1.getLsbD portScl && ports.2.getLsbD portScl) = false

instance (ports : BitVec 8 × BitVec 8) : Decidable (OpenDrain ports) :=
  inferInstanceAs (Decidable (_ ∧ _))

/-- Whatever its state, the slave releases SCL after finitely many low samples. -/
def StretchesFinitely {σ : Type} (S : Slave σ) : Prop :=
  ∀ s master, ∃ n, S.scl ((S.low master)^[n] s) = true

/-- Each line is released, with the pull-up on, or pulled low. -/
def Wired (sda scl : Bool) (m : Mcu) : Prop := Gpio (!sda) (!scl) sda scl m

variable {σ : Type} {S : Slave σ}

section Ticks

variable {ddrSda ddrScl portSda portScl : Bool} {b : Board σ}

theorem sense_gpio {m : Mcu} (h : Gpio ddrSda ddrScl portSda portScl m) (old new : Lines) :
    Gpio ddrSda ddrScl portSda portScl (m.sense old new) := by
  refine ⟨h.usicr, ?_, h.ddrSda, h.ddrScl, h.portSda, h.portScl⟩
  rw [Mcu.sense, twoWire_of_off h.usicr, h.hold]
  rfl

theorem openDrain_gpio {m : Mcu} (h : Gpio ddrSda ddrScl portSda portScl m) :
    OpenDrain (m.ddrb, m.portb) ↔ (ddrSda && portSda) = false ∧ (ddrScl && portScl) = false := by
  unfold OpenDrain
  rw [h.ddrSda, h.portSda, h.ddrScl, h.portScl]

theorem tick_gpio (h : Gpio ddrSda ddrScl portSda portScl b.mcu) :
    Gpio ddrSda ddrScl portSda portScl (b.tick S).mcu ∧
      (b.tick S).lines.scl = ((!ddrScl || portScl) && S.scl (b.tick S).slave) := by
  have hsettled := sense_gpio h b.lines (b.levels S)
  refine ⟨sense_gpio hsettled _ _, ?_⟩
  rw [← hsettled.sclOut]
  rfl

theorem ticks_gpio (h : Gpio ddrSda ddrScl portSda portScl b.mcu) (n : Nat) :
    Gpio ddrSda ddrScl portSda portScl ((Board.tick S)^[n] b).mcu ∧
      ((Board.tick S)^[n] b).ports = b.ports := by
  induction n with
  | zero => exact ⟨h, rfl⟩
  | succ n ih =>
      rw [Function.iterate_succ_apply']
      exact ⟨(tick_gpio ih.1).1, ih.2⟩

/-- While the slave holds SCL, a sample is a low one. -/
theorem tick_held {sda : Bool} (h : Wired sda true b.mcu)
    (hsettled : b.lines.scl = S.scl b.slave) (hlow : b.lines.scl = false) :
    (b.tick S).slave = S.low sda b.slave := by
  have hscl : (b.levels S).scl = false := by
    change (b.mcu.sclOut && S.scl b.slave) = false
    rw [← hsettled, hlow, Bool.and_false]
  have hsda : (b.levels S).sda = (sda && S.sda b.slave) := by
    change (b.mcu.sdaOut _ && S.sda b.slave) = _
    rw [h.sdaOut]
    simp
  have hlevels : b.levels S = ⟨sda && S.sda b.slave, false⟩ := by
    rw [← hsda, ← hscl]
  change S.react b.slave (b.levels S) = _
  rw [hlevels]
  rfl

end Ticks

/-- From `b` to `b'`: the lines end up at `sda` and `scl`, and every state of the
registers on the way is open drain exactly if `clean` holds. -/
structure Effect (sda scl : Bool) (clean : Prop) (b b' : Board σ) : Prop where
  wired : Wired sda scl b'.mcu
  written : ∃ ports, b'.ports = b.ports ++ ports ∧ ((∀ p ∈ ports, OpenDrain p) ↔ clean)

section Effects

variable {sda scl sda' scl' : Bool} {b b₁ b' : Board σ} {P Q : Prop}

theorem Effect.congr (h : Effect sda scl P b b') (hPQ : P ↔ Q) : Effect sda scl Q b b' := by
  obtain ⟨hwired, ports, hports, hclean⟩ := h
  exact ⟨hwired, ports, hports, hclean.trans hPQ⟩

theorem Effect.trans (h : Effect sda scl P b b₁) (h' : Effect sda' scl' Q b₁ b') :
    Effect sda' scl' (P ∧ Q) b b' := by
  obtain ⟨-, ports, hports, hclean⟩ := h
  obtain ⟨hwired, ports', hports', hclean'⟩ := h'
  refine ⟨hwired, ports ++ ports', ?_, ?_⟩
  · rw [hports', hports, List.append_assoc]
  · rw [List.forall_mem_append, hclean, hclean']

theorem Effect.rest (hm : Wired sda scl b'.mcu) (hports : b'.ports = b.ports) :
    Effect sda scl True b b' :=
  ⟨hm, [], by rw [hports, List.append_nil], by simp⟩

/-- A primitive writes DDRB and then PORTB. -/
theorem twoWrites_ends {f g : Mcu → Mcu} {ddrSda ddrScl portSda portScl : Bool}
    (hf : Gpio ddrSda ddrScl portSda portScl (f b.mcu))
    (hg : ∀ m, Gpio ddrSda ddrScl portSda portScl m → Wired sda scl (g m)) :
    Ends (do modify (Board.access S f); modify (Board.access S g)) b fun _ b' =>
      Effect sda scl ((ddrSda && portSda) = false ∧ (ddrScl && portScl) = false) b b' ∧
        b'.lines.scl = (scl && S.scl b'.slave) := by
  refine ends_bind (ends_modify (ends_modify ?_))
  have hm₁ : Gpio ddrSda ddrScl portSda portScl (b.access S f).mcu :=
    (tick_gpio (b := b.written f) hf).1
  have hg₁ := hg _ hm₁
  obtain ⟨hm₂, hscl⟩ := tick_gpio (S := S) (b := (b.access S f).written g) hg₁
  refine ⟨⟨hm₂, [((f b.mcu).ddrb, (f b.mcu).portb),
    ((g (b.access S f).mcu).ddrb, (g (b.access S f).mcu).portb)], ?_, ?_⟩, ?_⟩
  · change (b.ports ++ [_]) ++ [_] = _
    rw [List.append_assoc]
    rfl
  · simp only [List.mem_cons, List.not_mem_nil, or_false, forall_eq_or_imp, forall_eq]
    rw [openDrain_gpio hf, openDrain_gpio hg₁]
    simp
  · rw [Bool.not_not, Bool.or_self] at hscl
    exact hscl

theorem i2cSetSda_effect (h : Wired sda scl b.mcu) :
    Ends (i2cSetSda S) b fun _ b' => Effect true scl True b b' := by
  refine (twoWrites_ends h.ddrbAndSda fun m hm => hm.portbOrSda).mono ?_
  rintro _ b' ⟨heffect, -⟩
  exact heffect.congr (by simp)

theorem i2cSetScl_effect (h : Wired sda scl b.mcu) :
    Ends (i2cSetScl S) b fun _ b' =>
      Effect sda true True b b' ∧ b'.lines.scl = S.scl b'.slave := by
  refine (twoWrites_ends h.ddrbAndScl fun m hm => hm.portbOrScl).mono ?_
  rintro _ b' ⟨heffect, hscl⟩
  exact ⟨heffect.congr (by simp), hscl⟩

/-- SDA becomes an output while its PORTB bit still has the pull-up on. -/
theorem i2cClearSda_effect (h : Wired sda scl b.mcu) :
    Ends (i2cClearSda S) b fun _ b' => Effect false scl (sda = false) b b' := by
  refine (twoWrites_ends h.ddrbOrSda fun m hm => hm.portbAndSda).mono ?_
  rintro _ b' ⟨heffect, -⟩
  exact heffect.congr (by simp)

theorem i2cClearScl_effect (h : Wired sda scl b.mcu) :
    Ends (i2cClearScl S) b fun _ b' => Effect sda false (scl = false) b b' := by
  refine (twoWrites_ends h.ddrbOrScl fun m hm => hm.portbAndScl).mono ?_
  rintro _ b' ⟨heffect, -⟩
  exact heffect.congr (by simp)

theorem i2cDelay_effect (h : Wired sda scl b.mcu) :
    Ends (i2cDelay S) b fun _ b' => Effect sda scl True b b' := by
  obtain ⟨hm, hports⟩ := ticks_gpio (S := S) h (1000 * 1)
  exact ends_modify (.rest hm hports)

theorem waitScl_effect (hfinite : StretchesFinitely S) (h : Wired sda true b.mcu)
    (hsettled : b.lines.scl = S.scl b.slave) :
    Ends (waitScl S) b fun _ b' => Effect sda true True b b' := by
  obtain ⟨n, hn⟩ := hfinite b.slave sda
  refine ends_whileLoop (fun n b' => Effect sda true True b b' ∧
    b'.lines.scl = S.scl b'.slave ∧ S.scl ((S.low sda)^[n] b'.slave) = true) ?_
    ⟨.rest h rfl, hsettled, hn⟩
  rintro n b₁ ⟨heffect, hsettled₁, hn₁⟩
  obtain ⟨hm, hscl⟩ := tick_gpio (S := S) heffect.wired
  have htick : Effect sda true True b (b₁.tick S) :=
    (heffect.trans (.rest hm rfl)).congr (by simp)
  apply i2cReadScl_polls
  cases hlow : b₁.lines.scl with
  | true => exact htick
  | false =>
      refine ends_pure ?_
      cases n with
      | zero =>
          rw [Function.iterate_zero_apply, ← hsettled₁, hlow] at hn₁
          cases hn₁
      | succ n =>
          refine ⟨n, Nat.lt_succ_self n, htick, hscl, ?_⟩
          rw [tick_held heffect.wired hsettled₁ hlow]
          exact hn₁

/-- `i2c_set_scl` and the loop that waits for SCL, before the rest of a function. -/
theorem raiseScl_ends {α : Type} {rest : Program (Board σ) α} {R : α → Board σ → Prop}
    (hfinite : StretchesFinitely S) (h : Wired sda scl b.mcu)
    (hR : ∀ b', Effect sda true True b b' → Ends rest b' R) :
    Ends (do i2cSetScl S; waitScl S; rest) b R := by
  refine ends_bind ((i2cSetScl_effect h).mono ?_)
  rintro _ b₁ ⟨heffect₁, hsettled⟩
  refine ends_bind ((waitScl_effect hfinite heffect₁.wired hsettled).mono ?_)
  intro _ b₂ heffect₂
  exact hR b₂ ((heffect₁.trans heffect₂).congr (by simp))

theorem i2cReadSda_effect (h : Wired sda scl b.mcu) :
    Ends (i2cReadSda S) b fun _ b' => Effect sda scl True b b' :=
  ⟨_, b.tick S, .rest (tick_gpio h).1 rfl, 0, fun _ _ => rfl⟩

/-- In every bit SCL is pulled low with its pull-up still on. -/
theorem i2cReadSingleBit_effect (hfinite : StretchesFinitely S) (h : Wired sda scl b.mcu) :
    Ends (i2cReadSingleBit S) b fun _ b' => Effect true false False b b' := by
  refine ends_bind ((i2cSetSda_effect h).mono ?_)
  intro _ b₁ heffect₁
  refine raiseScl_ends hfinite heffect₁.wired ?_
  intro b₂ heffect₂
  refine ends_bind ((i2cReadSda_effect heffect₂.wired).mono ?_)
  intro bit b₃ heffect₃
  refine ends_bind ((i2cClearScl_effect heffect₃.wired).mono ?_)
  intro _ b₄ heffect₄
  exact ends_pure ((((heffect₁.trans heffect₂).trans heffect₃).trans heffect₄).congr (by simp))

theorem i2cWriteSingleBit_effect (hfinite : StretchesFinitely S) (h : Wired sda scl b.mcu)
    (bit : BitVec 8) :
    Ends (i2cWriteSingleBit S bit) b fun _ b' => Effect (bit != 0#8) false False b b' := by
  have hlevel : Ends (if bit != 0#8 then i2cSetSda S else i2cClearSda S) b fun _ b' =>
      ∃ P, Effect (bit != 0#8) scl P b b' := by
    cases hbit : bit != 0#8 with
    | true =>
        refine (i2cSetSda_effect h).mono ?_
        intro _ b' heffect
        exact ⟨_, heffect⟩
    | false =>
        refine (i2cClearSda_effect h).mono ?_
        intro _ b' heffect
        exact ⟨_, heffect⟩
  refine ends_bind (hlevel.mono ?_)
  rintro _ b₁ ⟨P, heffect₁⟩
  refine raiseScl_ends hfinite heffect₁.wired ?_
  intro b₂ heffect₂
  refine (i2cClearScl_effect heffect₂.wired).mono ?_
  intro _ b₃ heffect₃
  exact ((heffect₁.trans heffect₂).trans heffect₃).congr (by simp)

theorem writeBits_effect (hfinite : StretchesFinitely S) (h : Wired sda scl b.mcu) (n : Nat)
    (byte : BitVec 8) :
    Ends (writeBits S n byte) b fun _ b' => ∃ sda' scl', Effect sda' scl' (n = 0) b b' := by
  induction n generalizing sda scl b byte with
  | zero => exact ends_pure ⟨sda, scl, (Effect.rest h rfl).congr (by simp)⟩
  | succ n ih =>
      refine ends_bind ((i2cWriteSingleBit_effect hfinite h _).mono ?_)
      intro _ b₁ heffect₁
      refine (ih heffect₁.wired (byte <<< 1)).mono ?_
      rintro _ b₂ ⟨sda', scl', heffect₂⟩
      exact ⟨sda', scl', (heffect₁.trans heffect₂).congr (by simp)⟩

theorem readBits_effect (hfinite : StretchesFinitely S) (h : Wired sda scl b.mcu) (n : Nat)
    (byte : BitVec 8) :
    Ends (readBits S n byte) b fun _ b' => ∃ sda' scl', Effect sda' scl' (n = 0) b b' := by
  induction n generalizing sda scl b byte with
  | zero => exact ends_pure ⟨sda, scl, (Effect.rest h rfl).congr (by simp)⟩
  | succ n ih =>
      refine ends_bind ((i2cReadSingleBit_effect hfinite h).mono ?_)
      intro bit b₁ heffect₁
      refine (ih heffect₁.wired (byte <<< 1 ||| bit)).mono ?_
      rintro _ b₂ ⟨sda', scl', heffect₂⟩
      exact ⟨sda', scl', (heffect₁.trans heffect₂).congr (by simp)⟩

end Effects

section Calls

variable {sda scl : Bool} {b : Board σ}

theorem i2cStart_effect (h : Wired sda scl b.mcu) :
    Ends (i2cStart S) b fun _ b' => Effect false false False b b' := by
  refine ends_bind ((i2cSetSda_effect h).mono ?_)
  intro _ b₁ heffect₁
  refine ends_bind ((i2cSetScl_effect heffect₁.wired).mono ?_)
  rintro _ b₂ ⟨heffect₂, -⟩
  refine ends_bind ((i2cDelay_effect heffect₂.wired).mono ?_)
  intro _ b₃ heffect₃
  refine ends_bind ((i2cClearSda_effect heffect₃.wired).mono ?_)
  intro _ b₄ heffect₄
  refine (i2cClearScl_effect heffect₄.wired).mono ?_
  intro _ b₅ heffect₅
  exact ((((heffect₁.trans heffect₂).trans heffect₃).trans heffect₄).trans heffect₅).congr
    (by simp)

theorem i2cStop_effect (hfinite : StretchesFinitely S) (h : Wired sda scl b.mcu) :
    Ends (i2cStop S) b fun _ b' => Effect true true (sda = false) b b' := by
  refine ends_bind ((i2cClearSda_effect h).mono ?_)
  intro _ b₁ heffect₁
  refine ends_bind ((i2cDelay_effect heffect₁.wired).mono ?_)
  intro _ b₂ heffect₂
  refine raiseScl_ends hfinite heffect₂.wired ?_
  intro b₃ heffect₃
  refine ends_bind ((i2cDelay_effect heffect₃.wired).mono ?_)
  intro _ b₄ heffect₄
  refine (i2cSetSda_effect heffect₄.wired).mono ?_
  intro _ b₅ heffect₅
  exact ((((heffect₁.trans heffect₂).trans heffect₃).trans heffect₄).trans heffect₅).congr
    (by simp)

/-- Only `i2c_stop` with SDA low from before leaves out the state in question. -/
theorem bitBangCall_effect (hfinite : StretchesFinitely S) (h : Wired sda scl b.mcu)
    (c : BitBangCall) :
    Ends (bitBangCall S c) b fun _ b' => ∃ sda' scl',
      Effect sda' scl' (c = .stop ∧ sda = false) b b' ∧ (c = .stop → sda' = true) := by
  cases c with
  | start =>
      refine (i2cStart_effect h).mono ?_
      intro _ b' heffect
      exact ⟨false, false, heffect.congr (by simp), by simp⟩
  | stop =>
      refine (i2cStop_effect hfinite h).mono ?_
      intro _ b' heffect
      exact ⟨true, true, heffect.congr (by simp), by simp⟩
  | write data =>
      refine ends_bind (ends_bind ((writeBits_effect hfinite h 8 data).mono ?_))
      rintro _ b₁ ⟨sda₁, scl₁, heffect₁⟩
      refine (i2cReadSingleBit_effect hfinite heffect₁.wired).mono ?_
      intro _ b₂ heffect₂
      exact ends_pure ⟨true, false, (heffect₁.trans heffect₂).congr (by simp), by simp⟩
  | read nack =>
      refine ends_bind (ends_bind ((readBits_effect hfinite h 8 0#8).mono ?_))
      rintro byte b₁ ⟨sda₁, scl₁, heffect₁⟩
      refine ends_bind ((i2cWriteSingleBit_effect hfinite heffect₁.wired nack).mono ?_)
      intro _ b₂ heffect₂
      exact ends_pure (ends_pure ⟨_, false, (heffect₁.trans heffect₂).congr (by simp), by simp⟩)

theorem bitBangCalls_effect (hfinite : StretchesFinitely S) (h : Wired sda scl b.mcu)
    (cs : List BitBangCall) :
    Ends (bitBangCalls S cs) b fun _ b' => ∃ sda' scl',
      Effect sda' scl' (cs = [] ∨ cs = [.stop] ∧ sda = false) b b' := by
  induction cs generalizing sda scl b with
  | nil => exact ends_pure ⟨sda, scl, (Effect.rest h rfl).congr (by simp)⟩
  | cons c cs ih =>
      refine ends_bind ((bitBangCall_effect hfinite h c).mono ?_)
      rintro _ b₁ ⟨sda₁, scl₁, heffect₁, hstop⟩
      refine (ih heffect₁.wired).mono ?_
      rintro _ b₂ ⟨sda₂, scl₂, heffect₂⟩
      refine ⟨sda₂, scl₂, (heffect₁.trans heffect₂).congr ?_⟩
      constructor
      · rintro ⟨⟨rfl, hsda⟩, rfl | ⟨-, hsda₁⟩⟩
        · exact Or.inr ⟨rfl, hsda⟩
        · rw [hstop rfl] at hsda₁
          cases hsda₁
      · rintro (hnil | ⟨hcs, hsda⟩)
        · cases hnil
        · obtain ⟨rfl, rfl⟩ := List.cons.inj hcs
          exact ⟨⟨rfl, hsda⟩, Or.inl rfl⟩

/-- Both pins are inputs with the pull-up on. Every call then goes through a
state in which a pin drives 1. -/
theorem calls_openDrain_iff (hfinite : StretchesFinitely S) (h : Wired true true b.mcu)
    (cs : List BitBangCall) :
    Ends (bitBangCalls S cs) b fun _ b' => ∃ ports, b'.ports = b.ports ++ ports ∧
      ((∀ p ∈ ports, OpenDrain p) ↔ cs = []) := by
  refine (bitBangCalls_effect hfinite h cs).mono ?_
  rintro _ b' ⟨sda', scl', heffect⟩
  exact (heffect.congr (by simp)).written

end Calls

/-- Leaves both lines alone. -/
def quietSlave : Slave Unit where
  sda _ := true
  scl _ := true
  react s _ := s

def pulledUpBoard : Board Unit :=
  ⟨⟨0#8, 0x05#8, 0#8, 0#8, 0#4, false, false, false, false⟩, ⟨true, true⟩, (), [], []⟩

theorem pulledUpBoard_wired : Wired true true pulledUpBoard.mcu := ⟨rfl, rfl, rfl, rfl, rfl, rfl⟩

theorem calls_openDrain_iff_start :
    Ends (bitBangCalls quietSlave [.start]) pulledUpBoard fun _ b' => ∃ ports,
      b'.ports = pulledUpBoard.ports ++ ports ∧
        ((∀ p ∈ ports, OpenDrain p) ↔ [BitBangCall.start] = []) :=
  calls_openDrain_iff (fun _ _ => ⟨0, rfl⟩) pulledUpBoard_wired [.start]

/-- The first `i2c_start` already turns SDA into an output that drives 1. -/
theorem not_openDrain :
    ¬ Ends (bitBangCalls quietSlave [.start]) pulledUpBoard fun _ b' =>
      ∀ p ∈ b'.ports, OpenDrain p := by
  intro h
  have hrun := bitBangCalls_effect (S := quietSlave) (fun _ _ => ⟨0, rfl⟩) pulledUpBoard_wired
    [.start]
  obtain ⟨_, b', hopen, sda, scl, -, ports, hports, hclean⟩ := (h.and hrun).exists
  rw [hports] at hopen
  have hfalse := hclean.mp hopen
  simp at hfalse

end NesMiniAdapter.OpenDrainWrites
