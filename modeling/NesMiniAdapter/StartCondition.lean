import NesMiniAdapter.EventDriven
import NesMiniAdapter.I2cPrimary

/-!
The level of SCL at the moment `i2c_start` pulls SDA low, over any run of the
USI driver and for any slave that stretches the clock.
-/

namespace NesMiniAdapter.StartCondition

open NesMiniAdapter.ByteBits
open NesMiniAdapter.FuelledProgram
open NesMiniAdapter.OpenDrainBus
open NesMiniAdapter.EventDriven
open NesMiniAdapter.Attiny85
open NesMiniAdapter.I2cPrimary

/-- A call of the driver. -/
inductive UsiCall where
  | init
  | start
  | stop
  | write (data : BitVec 8)
  | read (nack : BitVec 8)
  deriving DecidableEq, Repr

section Run

variable {σ : Type} (S : Slave σ)

def usiCall : UsiCall → Program (Board σ) Unit
  | .init => i2cInit S
  | .start => i2cStart S
  | .stop => i2cStop S
  | .write data => do
      let _ ← i2cWriteByte S data
  | .read nack => do
      let _ ← i2cReadByte S nack

/-- For each `i2c_start` of a run, the board when it is called and the board
just before the write that pulls SDA low. A call that does not end is the last
one of its run. -/
def startMoments (fuel : Nat) : List UsiCall → Board σ → List (Board σ × Board σ)
  | [], _ => []
  | c :: cs, b =>
      let moment :=
        if c = .start then
          (((i2cStartRelease S).run fuel).run b).toList.map fun (_, b') => (b, b')
        else []
      moment ++ match ((usiCall S c).run fuel).run b with
        | some (_, b') => startMoments fuel cs b'
        | none => []

end Run

variable {τ : Type} {E : EventSlave τ}

/-- Neither the start detector nor the slave holds SCL beyond the two samples
that `i2c_start` gives it. -/
def Unstretched (b : Board (Watch τ)) : Prop :=
  b.mcu.startHold = false ∧ b.slave.hold ≤ 2

/-- SCL is an output of the master, the line has settled, and while it is low
the slave has seen it low. -/
structure Driving (E : EventSlave τ) (b : Board (Watch τ)) : Prop where
  ddrScl : b.mcu.ddrb.getLsbD pb2 = true
  settled : b.lines.scl = (b.mcu.sclOut && E.toSlave.scl b.slave)
  seen : b.lines.scl = false → b.slave.seen.scl = false

section Ticks

variable {b : Board (Watch τ)}

theorem sense_startHold {m : Mcu} {old new : Lines} (h : (old.scl && !new.scl) = false) :
    (m.sense old new).startHold = m.startHold := by
  simp only [Mcu.sense]
  cases hold : old.scl <;> cases hnew : new.scl <;> simp_all

theorem sense_sclOut {m : Mcu} {old new : Lines} (h : (old.scl && !new.scl) = false) :
    (m.sense old new).sclOut = m.sclOut := by
  simp only [Mcu.sclOut, sense_startHold h]
  rfl

theorem watch_seen (w : Watch τ) (lines : Lines) : (E.watch w lines).seen = lines := by
  obtain ⟨t, ⟨sda, scl⟩, hold⟩ := w
  obtain ⟨sda', scl'⟩ := lines
  cases scl <;> cases scl' <;> cases sda <;> cases sda' <;> rfl

theorem watch_hold_of_scl {w : Watch τ} {lines : Lines} (h : lines.scl = true) :
    (E.watch w lines).hold = 0 := by
  obtain ⟨t, ⟨sda, scl⟩, hold⟩ := w
  obtain ⟨sda', scl'⟩ := lines
  cases scl <;> cases sda <;> cases sda' <;> simp_all [EventSlave.watch]

theorem toSlave_scl (w : Watch τ) : E.toSlave.scl w = decide (w.hold = 0) := by
  change (w.hold == 0) = _
  rw [beq_eq_decide]

theorem tick_scl (hfall : (b.lines.scl && !(b.levels E.toSlave).scl) = false) :
    (b.tick E.toSlave).lines.scl =
      (b.mcu.sclOut && decide ((E.watch b.slave (b.levels E.toSlave)).hold = 0)) := by
  change (((b.settle E.toSlave).react E.toSlave).levels E.toSlave).scl = _
  have hout : ((b.settle E.toSlave).react E.toSlave).mcu.sclOut = b.mcu.sclOut :=
    sense_sclOut hfall
  rw [Board.levels, hout, toSlave_scl]
  rfl

/-- SCL does not fall while the lines settle for the second time in a sample. -/
theorem tick_keeps_scl (b : Board (Watch τ)) :
    ((b.levels E.toSlave).scl && !(b.tick E.toSlave).lines.scl) = false := by
  cases hscl : (b.levels E.toSlave).scl with
  | false => rfl
  | true =>
      have hout : b.mcu.sclOut = true := by
        simp only [Board.levels, Bool.and_eq_true] at hscl
        exact hscl.1
      rw [tick_scl (by rw [hscl]; simp), hout, watch_hold_of_scl hscl]
      rfl

theorem tick_startHold (hfall : (b.lines.scl && !(b.levels E.toSlave).scl) = false) :
    (b.tick E.toSlave).mcu.startHold = b.mcu.startHold := by
  have hsecond : (b.tick E.toSlave).mcu.startHold =
      ((b.settle E.toSlave).react E.toSlave).mcu.startHold := sense_startHold (tick_keeps_scl b)
  rw [hsecond]
  exact sense_startHold hfall

theorem tick_settled (b : Board (Watch τ)) :
    (b.tick E.toSlave).lines.scl =
      ((b.tick E.toSlave).mcu.sclOut && E.toSlave.scl (b.tick E.toSlave).slave) ∧
    ((b.tick E.toSlave).lines.scl = false → (b.tick E.toSlave).slave.seen.scl = false) := by
  constructor
  · have hout : (b.tick E.toSlave).mcu.sclOut =
        ((b.settle E.toSlave).react E.toSlave).mcu.sclOut := sense_sclOut (tick_keeps_scl b)
    rw [hout]
    rfl
  · intro hlow
    have hfall := tick_keeps_scl (E := E) b
    change (E.watch b.slave (b.levels E.toSlave)).seen.scl = false
    rw [watch_seen]
    rw [hlow] at hfall
    simpa using hfall

theorem tick_scl_high (hout : b.mcu.sclOut = true) (hhold : b.slave.hold = 0) :
    (b.tick E.toSlave).lines.scl = true ∧ (b.tick E.toSlave).slave.hold = 0 ∧
      (b.tick E.toSlave).mcu.startHold = b.mcu.startHold := by
  have hlevels : (b.levels E.toSlave).scl = true := by
    simp [Board.levels, hout, toSlave_scl, hhold]
  have hfall : (b.lines.scl && !(b.levels E.toSlave).scl) = false := by
    rw [hlevels]
    simp
  have hslave := watch_hold_of_scl (E := E) (w := b.slave) hlevels
  refine ⟨?_, hslave, tick_startHold hfall⟩
  rw [tick_scl hfall, hout, hslave]
  rfl

/-- A sample that starts with SCL low: the slave holds it for one sample less,
and it goes up once nobody holds it. -/
theorem tick_scl_low (hlines : b.lines.scl = false) (hseen : b.slave.seen.scl = false) :
    (b.tick E.toSlave).lines.scl = (b.mcu.sclOut && decide (b.slave.hold ≤ 1)) ∧
      (b.tick E.toSlave).slave.hold = b.slave.hold - 1 ∧
      (b.tick E.toSlave).mcu.startHold = b.mcu.startHold := by
  have hfall : (b.lines.scl && !(b.levels E.toSlave).scl) = false := by
    rw [hlines]
    rfl
  have hslave : (E.watch b.slave (b.levels E.toSlave)).hold = b.slave.hold - 1 := by
    cases hscl : (b.levels E.toSlave).scl with
    | true =>
        have hhold : b.slave.hold = 0 := by
          simp only [Board.levels, toSlave_scl, Bool.and_eq_true, decide_eq_true_eq] at hscl
          exact hscl.2
        rw [watch_hold_of_scl hscl, hhold]
    | false => simp [EventSlave.watch, hseen, hscl]
  refine ⟨?_, hslave, tick_startHold hfall⟩
  rw [tick_scl hfall, hslave]
  congr 1
  apply decide_eq_decide.mpr
  omega

end Ticks

section Invariant

theorem tick_driving {b : Board (Watch τ)} (h : b.mcu.ddrb.getLsbD pb2 = true) :
    Driving E (b.tick E.toSlave) := by
  obtain ⟨hsettled, hseen⟩ := tick_settled (E := E) b
  exact ⟨h, hsettled, hseen⟩

theorem preserves_access {f : Mcu → Mcu}
    (hf : ∀ m : Mcu, m.ddrb.getLsbD pb2 = true → (f m).ddrb.getLsbD pb2 = true) :
    Preserves (Driving E) (modify (Board.access E.toSlave f)) :=
  preserves_modify fun b hb => tick_driving (b := b.written f) (hf b.mcu hb.ddrScl)

theorem preserves_delayUs (n : Nat) : Preserves (Driving E) (delayUs E.toSlave n) := by
  refine preserves_modify ?_
  intro b hb
  induction n with
  | zero => exact hb
  | succ n ih =>
      rw [Function.iterate_succ_apply']
      exact tick_driving ih.ddrScl

theorem preserves_readPinb : Preserves (Driving E) (readPinb E.toSlave) := by
  rintro fuel b a b' hI ⟨⟩
  exact tick_driving hI.ddrScl

theorem preserves_portbOr (mask : BitVec 8) :
    Preserves (Driving E) (portbOr E.toSlave mask) := preserves_access fun _ h => h

theorem preserves_portbAnd (mask : BitVec 8) :
    Preserves (Driving E) (portbAnd E.toSlave mask) := preserves_access fun _ h => h

theorem preserves_usidrSet (v : BitVec 8) :
    Preserves (Driving E) (usidrSet E.toSlave v) := preserves_access fun _ h => h

theorem preserves_usisrSet (v : BitVec 8) :
    Preserves (Driving E) (usisrSet E.toSlave v) := preserves_access fun _ h => h

theorem writeUsicr_ddrb (m : Mcu) (v : BitVec 8) : (m.writeUsicr v).ddrb = m.ddrb := by
  simp only [Mcu.writeUsicr, Mcu.strobe]
  split
  · split <;> rfl
  · rfl

theorem preserves_usicrSet (v : BitVec 8) : Preserves (Driving E) (usicrSet E.toSlave v) := by
  refine preserves_access ?_
  intro m h
  rw [writeUsicr_ddrb, h]

theorem preserves_usicrOr (mask : BitVec 8) :
    Preserves (Driving E) (usicrOr E.toSlave mask) := by
  refine preserves_access ?_
  intro m h
  rw [writeUsicr_ddrb, h]

theorem preserves_ddrbOr (mask : BitVec 8) :
    Preserves (Driving E) (ddrbOr E.toSlave mask) := by
  refine preserves_access ?_
  intro m h
  simp [h]

theorem preserves_ddrbAnd_sda :
    Preserves (Driving E) (ddrbAnd E.toSlave (~~~bv pinSda)) := by
  refine preserves_access ?_
  intro m h
  rw [getLsbD_and_not_bv _ _ (by decide), h]
  rfl

theorem preserves_read {α : Type} (f : Board (Watch τ) → α) :
    Preserves (Driving E) (do return f (← get)) :=
  preserves_bind preserves_get fun _ => preserves_pure _

theorem preserves_sclLow : Preserves (Driving E) (sclLow E.toSlave) :=
  preserves_bind preserves_readPinb fun _ => preserves_pure _

theorem preserves_waitScl :
    Preserves (Driving E) (whileLoop (sclLow E.toSlave) (pure ())) :=
  preserves_whileLoop preserves_sclLow (preserves_pure ())

theorem preserves_i2cStart : Preserves (Driving E) (i2cStart E.toSlave) := by
  refine preserves_bind ?_ fun _ => ?_
  · refine preserves_bind (preserves_portbOr _) fun _ =>
      preserves_bind (preserves_portbOr _) fun _ => preserves_whileLoop ?_ (preserves_pure ())
    exact preserves_bind (preserves_read _) fun _ => preserves_pure _
  · exact preserves_bind (preserves_portbAnd _) fun _ =>
      preserves_bind (preserves_delayUs _) fun _ =>
        preserves_bind (preserves_portbAnd _) fun _ => preserves_portbOr _

theorem preserves_i2cStop : Preserves (Driving E) (i2cStop E.toSlave) :=
  preserves_bind (preserves_portbAnd _) fun _ =>
    preserves_bind (preserves_portbOr _) fun _ =>
      preserves_bind preserves_waitScl fun _ =>
        preserves_bind (preserves_delayUs _) fun _ =>
          preserves_bind (preserves_portbOr _) fun _ => preserves_delayUs _

theorem preserves_clockPulse : Preserves (Driving E) (clockPulse E.toSlave) :=
  preserves_bind (preserves_delayUs _) fun _ =>
    preserves_bind (preserves_usicrOr _) fun _ =>
      preserves_bind preserves_waitScl fun _ =>
        preserves_bind (preserves_delayUs _) fun _ => preserves_usicrOr _

theorem preserves_i2cTransfer (mask : BitVec 8) :
    Preserves (Driving E) (i2cTransfer E.toSlave mask) := by
  refine preserves_bind (preserves_portbAnd _) fun _ =>
    preserves_bind (preserves_usisrSet _) fun _ =>
      preserves_bind (preserves_doWhile preserves_clockPulse ?_) fun _ =>
        preserves_bind (preserves_delayUs _) fun _ =>
          preserves_bind (preserves_read _) fun _ =>
            preserves_bind (preserves_usidrSet _) fun _ => preserves_pure _
  exact preserves_bind (preserves_read _) fun _ => preserves_pure _

theorem preserves_i2cWriteByte (data : BitVec 8) :
    Preserves (Driving E) (i2cWriteByte E.toSlave data) :=
  preserves_bind (preserves_usidrSet _) fun _ =>
    preserves_bind (preserves_i2cTransfer _) fun _ =>
      preserves_bind preserves_ddrbAnd_sda fun _ =>
        preserves_bind (preserves_i2cTransfer _) fun _ =>
          preserves_bind (preserves_ddrbOr _) fun _ => preserves_pure _

theorem preserves_i2cReadByte (nack : BitVec 8) :
    Preserves (Driving E) (i2cReadByte E.toSlave nack) :=
  preserves_bind preserves_ddrbAnd_sda fun _ =>
    preserves_bind (preserves_i2cTransfer _) fun _ =>
      preserves_bind (preserves_ddrbOr _) fun _ =>
        preserves_bind (preserves_usidrSet _) fun _ =>
          preserves_bind (preserves_i2cTransfer _) fun _ => preserves_pure _

theorem preserves_i2cInit : Preserves (Driving E) (i2cInit E.toSlave) :=
  preserves_bind (preserves_ddrbOr _) fun _ =>
    preserves_bind (preserves_ddrbOr _) fun _ =>
      preserves_bind (preserves_portbOr _) fun _ =>
        preserves_bind (preserves_portbOr _) fun _ =>
          preserves_bind (preserves_usidrSet _) fun _ =>
            preserves_bind (preserves_usicrSet _) fun _ => preserves_usisrSet _

theorem preserves_usiCall (c : UsiCall) : Preserves (Driving E) (usiCall E.toSlave c) := by
  cases c with
  | init => exact preserves_i2cInit
  | start => exact preserves_i2cStart
  | stop => exact preserves_i2cStop
  | write data => exact preserves_bind (preserves_i2cWriteByte data) fun _ => preserves_pure _
  | read nack => exact preserves_bind (preserves_i2cReadByte nack) fun _ => preserves_pure _

/-- Whatever the registers were, after `i2c_init` SCL is an output. -/
theorem i2cInit_driving {fuel : Nat} {b b' : Board (Watch τ)}
    (h : ((i2cInit E.toSlave).run fuel).run b = some ((), b')) : Driving E b' := by
  obtain ⟨rfl⟩ : some ((), b') = _ := h.symm
  refine tick_driving ?_
  change (b.mcu.ddrb ||| bv pinSda ||| bv pinScl).getLsbD pb2 = true
  rw [getLsbD_or_bv _ _ (by decide)]
  simp

end Invariant

/-- The first two writes of `i2c_start`. -/
def released (E : EventSlave τ) (b : Board (Watch τ)) : Board (Watch τ) :=
  (b.access E.toSlave fun m => { m with portb := m.portb ||| bv pinSda }).access E.toSlave
    fun m => { m with portb := m.portb ||| bv pinScl }

/-- The loop of `i2c_start` reads PORTB only, so it does not change the board. -/
theorem eq_released {b b' : Board (Watch τ)} {fuel : Nat}
    (hrun : ((i2cStartRelease E.toSlave).run fuel).run b = some ((), b')) :
    b' = released E b := by
  have hkeep : Preserves (fun b' : Board (Watch τ) => b' = released E b)
      (whileLoop (do return (← readPortb) &&& bv pinScl == 0#8) (pure ())) := by
    refine preserves_whileLoop ?_ (preserves_pure ())
    exact preserves_bind (preserves_bind preserves_get fun _ => preserves_pure _) fun _ =>
      preserves_pure _
  exact hkeep fuel (released E b) () b' rfl hrun

/-- With SCL an output that is up, the start detector does not hold it. -/
theorem startHold_of_sclOut {m : Mcu} (hddr : m.ddrb.getLsbD pb2 = true)
    (hout : m.sclOut = true) : m.startHold = false := by
  rw [Mcu.sclOut, hddr] at hout
  simp at hout
  exact hout.2

/-- At the moment `i2c_start` pulls SDA low, SCL is high exactly if nobody held
it for longer than those writes take. -/
theorem released_scl {b : Board (Watch τ)} (h : Driving E b) :
    (released E b).lines.scl = true ↔ Unstretched b := by
  obtain ⟨hddr, hsettled, hseen⟩ := h
  let b₁ := b.access E.toSlave fun m => { m with portb := m.portb ||| bv pinSda }
  have hseen₁ : b₁.lines.scl = false → b₁.slave.seen.scl = false :=
    (tick_settled (b.written fun m => { m with portb := m.portb ||| bv pinSda })).2
  have hout₂ : Mcu.sclOut { b₁.mcu with portb := b₁.mcu.portb ||| bv pinScl } =
      !b₁.mcu.startHold := by
    have hddr₁ : b₁.mcu.ddrb.getLsbD pb2 = true := hddr
    rw [Mcu.sclOut, getLsbD_or_bv _ _ (by decide), hddr₁]
    simp
  have hout₁ : Mcu.sclOut { b.mcu with portb := b.mcu.portb ||| bv pinSda } = b.mcu.sclOut := by
    rw [Mcu.sclOut, getLsbD_or_bv _ _ (by decide)]
    simp [Mcu.sclOut]
  cases hscl : b.lines.scl with
  | true =>
      rw [hscl, toSlave_scl] at hsettled
      simp only [Bool.true_eq, Bool.and_eq_true, decide_eq_true_eq] at hsettled
      obtain ⟨hout, hhold⟩ := hsettled
      have hstart : b.mcu.startHold = false := startHold_of_sclOut hddr hout
      obtain ⟨-, hhold₁, hstart₁⟩ := tick_scl_high (E := E)
        (b := b.written fun m => { m with portb := m.portb ||| bv pinSda })
        (hout₁.trans hout) hhold
      obtain ⟨hscl₂, -⟩ := tick_scl_high (E := E)
        (b := b₁.written fun m => { m with portb := m.portb ||| bv pinScl })
        (hout₂.trans (by rw [show b₁.mcu.startHold = false from hstart₁.trans hstart]; rfl)) hhold₁
      exact ⟨fun _ => ⟨hstart, by omega⟩, fun _ => hscl₂⟩
  | false =>
      obtain ⟨hscl₁, hhold₁, hstart₁⟩ := tick_scl_low (E := E)
        (b := b.written fun m => { m with portb := m.portb ||| bv pinSda }) hscl (hseen hscl)
      change b₁.lines.scl = (Mcu.sclOut _ && _) at hscl₁
      change b₁.slave.hold = b.slave.hold - 1 at hhold₁
      change b₁.mcu.startHold = b.mcu.startHold at hstart₁
      cases hup : b₁.lines.scl with
      | true =>
          rw [hup] at hscl₁
          simp only [Bool.true_eq, Bool.and_eq_true, decide_eq_true_eq] at hscl₁
          obtain ⟨hout, hhold⟩ := hscl₁
          have hstart : b.mcu.startHold = false :=
            startHold_of_sclOut hddr (hout₁.symm.trans hout)
          change b.slave.hold ≤ 1 at hhold
          obtain ⟨hscl₂, -⟩ := tick_scl_high (E := E)
            (b := b₁.written fun m => { m with portb := m.portb ||| bv pinScl })
            (hout₂.trans (by rw [hstart₁, hstart]; rfl))
            (show b₁.slave.hold = 0 by omega)
          exact ⟨fun _ => ⟨hstart, by omega⟩, fun _ => hscl₂⟩
      | false =>
          obtain ⟨hscl₂, -⟩ := tick_scl_low (E := E)
            (b := b₁.written fun m => { m with portb := m.portb ||| bv pinScl }) hup (hseen₁ hup)
          change (released E b).lines.scl =
            (Mcu.sclOut { b₁.mcu with portb := b₁.mcu.portb ||| bv pinScl } &&
              decide (b₁.slave.hold ≤ 1)) at hscl₂
          rw [hscl₂, hout₂, hstart₁, hhold₁]
          simp only [Bool.and_eq_true, Bool.not_eq_true', decide_eq_true_eq, Unstretched]
          constructor
          · rintro ⟨hstart, hhold⟩
            exact ⟨hstart, by omega⟩
          · rintro ⟨hstart, hhold⟩
            exact ⟨hstart, by omega⟩

/-- Every `i2c_start` of a run is called on a board that drives SCL, and its
moment is after its first two writes. -/
theorem startMoments_driving {fuel : Nat} {cs : List UsiCall} {b : Board (Watch τ)}
    (h : Driving E b) :
    ∀ p ∈ startMoments E.toSlave fuel cs b, Driving E p.1 ∧ p.2 = released E p.1 := by
  induction cs generalizing b with
  | nil => simp [startMoments]
  | cons c cs ih =>
      rintro ⟨b₀, b₁⟩ hp
      rw [startMoments, List.mem_append] at hp
      rcases hp with hmoment | hrest
      · split at hmoment
        · simp only [List.mem_map, Option.mem_toList, Prod.exists, Prod.mk.injEq] at hmoment
          obtain ⟨_, b', hrun, rfl, rfl⟩ := hmoment
          exact ⟨h, eq_released hrun⟩
        · simp at hmoment
      · split at hrest
        · rename_i b' hrun
          exact ih (preserves_usiCall c fuel b () b' h hrun) _ hrest
        · simp at hrest

/-- In a run that begins with `i2c_init`, every `i2c_start` pulls SDA low under
a high SCL if and only if each is called when neither the start detector nor
the slave goes on holding SCL. -/
theorem i2cStart_waits_iff (E : EventSlave τ) (fuel : Nat) (cs : List UsiCall)
    (b : Board (Watch τ)) :
    (∀ p ∈ startMoments E.toSlave fuel (.init :: cs) b, p.2.lines.scl = true) ↔
      ∀ p ∈ startMoments E.toSlave fuel (.init :: cs) b, Unstretched p.1 := by
  have hmoments : ∀ p ∈ startMoments E.toSlave fuel (.init :: cs) b,
      Driving E p.1 ∧ p.2 = released E p.1 := by
    intro p hp
    rw [startMoments] at hp
    simp only [reduceCtorEq, if_false, List.nil_append] at hp
    split at hp
    · rename_i b' hrun
      exact startMoments_driving (i2cInit_driving hrun) p hp
    · simp at hp
  constructor
  · intro h p hp
    obtain ⟨hdriving, hreleased⟩ := hmoments p hp
    rw [← released_scl hdriving, ← hreleased]
    exact h p hp
  · intro h p hp
    obtain ⟨hdriving, hreleased⟩ := hmoments p hp
    rw [hreleased, released_scl hdriving]
    exact h p hp

/-- Holds SCL for ten samples after the ninth bit since START. -/
def slowSlave : EventSlave Nat where
  sda _ := true
  stretch n := if n = 9 then 10 else 0
  start _ := 0
  stop _ := 0
  rise _ n := n + 1
  fall n := n

/-- Both pins inputs, the USI off, both lines high. -/
def powerOnBoard : Board (Watch Nat) :=
  ⟨⟨0#8, 0#8, 0#8, 0#8, 0#4, false, false, false, false⟩, ⟨true, true⟩,
    ⟨0, ⟨true, true⟩, 0⟩, [], []⟩

/-- After a byte for which the slave still holds SCL, `i2c_start` pulls SDA low
under a low SCL. -/
theorem i2cStart_does_not_wait :
    ¬ ∀ p ∈ startMoments slowSlave.toSlave 100 [.init, .start, .write 0xA4#8, .start]
      powerOnBoard, p.2.lines.scl = true := by
  decide +kernel

end NesMiniAdapter.StartCondition
