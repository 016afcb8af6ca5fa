import NesMiniAdapter.Attiny85

/-!
What one sample does to a board in each phase of the bus: SCL held low by the
master, SCL released and waited for, SCL high, and the edges between them.
These lemmas are about what the master leaves on the lines, not about the
registers that make it do so, and serve both drivers.
-/

namespace NesMiniAdapter.BoardPhases

open NesMiniAdapter.ByteBits
open NesMiniAdapter.FuelledProgram
open NesMiniAdapter.OpenDrainBus
open NesMiniAdapter.Attiny85

variable {σ : Type} {S : Slave σ}

/-- The latch follows bit 7 of USIDR while SCL is low. -/
def latched (m : Mcu) : Mcu := { m with sdaLatch := m.usidr.getLsbD 7 }

@[simp] theorem latched_sclOut (m : Mcu) : (latched m).sclOut = m.sclOut := rfl

@[simp] theorem dataOut_false (m : Mcu) : m.dataOut false = m.usidr.getLsbD 7 := by
  simp [Mcu.dataOut]

@[simp] theorem latched_sdaOut_false (m : Mcu) :
    (latched m).sdaOut false = m.sdaOut false := by
  simp [Mcu.sdaOut, latched, Mcu.twoWire]

@[simp] theorem latched_latched (m : Mcu) : latched (latched m) = latched m := rfl

theorem settle_low {b : Board σ} (hscl : b.lines.scl = false)
    (hout : (b.mcu.sclOut && S.scl b.slave) = false) :
    b.settle S = { b with
      mcu := latched b.mcu
      lines := ⟨b.mcu.sdaOut false && S.sda b.slave, false⟩ } := by
  simp [Board.settle, Board.levels, hout, Mcu.sense, edges, hscl, latched]

theorem settle_rise {b : Board σ} (hscl : b.lines.scl = false)
    (hout : b.mcu.sclOut = true) (hfree : S.scl b.slave = true) :
    b.settle S = { b with
      mcu := { b.mcu with
        sdaLatch := b.mcu.dataOut true
        usidr := if b.mcu.risingClock then
            shiftIn b.mcu.usidr (b.mcu.sdaOut true && S.sda b.slave)
          else b.mcu.usidr }
      lines := ⟨b.mcu.sdaOut true && S.sda b.slave, true⟩
      trace := b.trace ++
        [.rise (b.mcu.sdaOut true && S.sda b.slave) (S.sda b.slave)] } := by
  simp [Board.settle, Board.levels, hout, hfree, Mcu.sense, edges, hscl]

theorem settle_high {b : Board σ} (hscl : b.lines.scl = true)
    (hout : b.mcu.sclOut = true) (hfree : S.scl b.slave = true)
    (hsda : b.lines.sda = true → (b.mcu.sdaOut true && S.sda b.slave) = true) :
    b.settle S = { b with
      mcu := { b.mcu with sdaLatch := b.mcu.dataOut true }
      lines := ⟨b.mcu.sdaOut true && S.sda b.slave, true⟩
      trace := b.trace ++
        if (b.mcu.sdaOut true && S.sda b.slave) = b.lines.sda then [] else [.stop] } := by
  have hlevels : b.levels S = ⟨b.mcu.sdaOut true && S.sda b.slave, true⟩ := by
    simp [Board.levels, hout, hfree]
  simp only [Board.settle, hlevels]
  generalize (b.mcu.sdaOut true && S.sda b.slave) = v at hsda
  cases hold : b.lines.sda <;> cases v <;>
    simp_all [Mcu.sense, edges]

theorem settle_start {b : Board σ} (hscl : b.lines = ⟨true, true⟩)
    (hout : b.mcu.sclOut = true) (hfree : S.scl b.slave = true)
    (hsda : b.mcu.sdaOut true = false) :
    b.settle S = { b with
      mcu := { b.mcu with
        sdaLatch := b.mcu.dataOut true
        startFlag := b.mcu.startFlag || b.mcu.twoWire }
      lines := ⟨false, true⟩
      trace := b.trace ++ [.start] } := by
  simp [Board.settle, Board.levels, hout, hfree, hsda, Mcu.sense, edges, hscl]

/-- With its flag set, the start detector holds a falling SCL. -/
def holding (m : Mcu) : Mcu :=
  { m with startHold := m.startHold || (m.twoWire && m.startFlag) }

theorem settle_fall {b : Board σ} (hscl : b.lines.scl = true)
    (hout : (b.mcu.sclOut && S.scl b.slave) = false) :
    b.settle S = { b with
      mcu := holding (latched b.mcu)
      lines := ⟨b.mcu.sdaOut false && S.sda b.slave, false⟩
      trace := b.trace ++ [.fall] } := by
  simp [holding, Mcu.twoWire, Board.settle, Board.levels, hout, Mcu.sense, edges, hscl, latched]

theorem tick_low {b : Board σ} (hscl : b.lines.scl = false)
    (hout : b.mcu.sclOut = false) :
    b.tick S = { b with
      mcu := latched b.mcu
      lines := ⟨b.mcu.sdaOut false && S.sda (S.low (b.mcu.sdaOut false) b.slave), false⟩
      slave := S.low (b.mcu.sdaOut false) b.slave } := by
  rw [Board.tick, settle_low hscl (by simp [hout]), Board.react,
    settle_low rfl (by simp [hout])]
  simp [Slave.low]

theorem tick_fall {b : Board σ} (hscl : b.lines.scl = true)
    (hout : b.mcu.sclOut = false) :
    b.tick S = { b with
      mcu := holding (latched b.mcu)
      lines := ⟨b.mcu.sdaOut false && S.sda (S.low (b.mcu.sdaOut false) b.slave), false⟩
      slave := S.low (b.mcu.sdaOut false) b.slave
      trace := b.trace ++ [.fall] } := by
  have hreact : (b.settle S).react S = { b with
      mcu := holding (latched b.mcu)
      lines := ⟨b.mcu.sdaOut false && S.sda b.slave, false⟩
      slave := S.low (b.mcu.sdaOut false) b.slave
      trace := b.trace ++ [.fall] } := by
    rw [settle_fall hscl (by simp [hout])]
    rfl
  have hsda : (holding (latched b.mcu)).sdaOut false = b.mcu.sdaOut false := by
    rw [← latched_sdaOut_false b.mcu]
    rfl
  have hscl' : (holding (latched b.mcu)).sclOut = false := by
    cases hhold : (holding (latched b.mcu)).startHold <;>
      simp_all [Mcu.sclOut, latched, holding]
  rw [Board.tick, hreact, settle_low (b := { b with
      mcu := holding (latched b.mcu)
      lines := ⟨b.mcu.sdaOut false && S.sda b.slave, false⟩
      slave := S.low (b.mcu.sdaOut false) b.slave
      trace := b.trace ++ [.fall] }) rfl (by simp [hscl'])]
  simp only [hsda]
  rfl

/-- SCL is low, and the slave has been shown low samples since a state in `P`. -/
structure InLow (S : Slave σ) (P : σ → Prop) (b : Board σ) : Prop where
  scl : b.lines.scl = false
  slave : ∃ s ms, P s ∧ b.slave = S.lows ms s

theorem InLow.mono {P Q : σ → Prop} {b : Board σ} (h : InLow S P b)
    (hPQ : ∀ s, P s → Q s) : InLow S Q b := by
  obtain ⟨hscl, s, ms, hP, hs⟩ := h
  exact ⟨hscl, s, ms, hPQ s hP, hs⟩

theorem InLow.tick {P : σ → Prop} {b : Board σ} (h : InLow S P b)
    (hout : b.mcu.sclOut = false) :
    InLow S P (b.tick S) ∧ (b.tick S).mcu = latched b.mcu ∧
      (b.tick S).trace = b.trace := by
  obtain ⟨hscl, s, ms, hP, hs⟩ := h
  rw [tick_low hscl hout]
  refine ⟨⟨rfl, s, ms ++ [b.mcu.sdaOut false], hP, ?_⟩, rfl, rfl⟩
  rw [Slave.lows_concat, ← hs]

theorem InLow.access {P : σ → Prop} {b : Board σ} (h : InLow S P b) {f : Mcu → Mcu}
    (hout : (f b.mcu).sclOut = false) :
    InLow S P (b.access S f) ∧ (b.access S f).mcu = latched (f b.mcu) ∧
      (b.access S f).trace = b.trace :=
  InLow.tick (b := b.written f) ⟨h.scl, h.slave⟩ hout

theorem InLow.ticks {P : σ → Prop} {b : Board σ} (h : InLow S P b)
    (hlatch : b.mcu = latched b.mcu) (hout : b.mcu.sclOut = false) (n : Nat) :
    InLow S P ((Board.tick S)^[n] b) ∧ ((Board.tick S)^[n] b).mcu = b.mcu ∧
      ((Board.tick S)^[n] b).trace = b.trace := by
  induction n with
  | zero => exact ⟨h, rfl, rfl⟩
  | succ n ih =>
      obtain ⟨hlow, hmcu, htrace⟩ := ih
      rw [Function.iterate_succ_apply']
      obtain ⟨hlow', hmcu', htrace'⟩ := hlow.tick (by rw [hmcu, hout])
      exact ⟨hlow', by rw [hmcu', hmcu, ← hlatch], htrace'.trans htrace⟩

/-- SCL is high in a clock pulse, and the slave has been shown `n` high
samples since the state `s` in which SCL went up. -/
structure InPulse (strict : Prop) (S : Slave σ) (level : Bool) (K : σ → Prop)
    (n : Nat) (b : Board σ) : Prop where
  lines : b.lines = ⟨level && S.sda b.slave, true⟩
  free : S.scl b.slave = true
  slave : ∃ s, Pulse strict S level K s ∧ b.slave = (S.high level)^[n] s

/-- The latch is steady while SCL is high. -/
def steadied (m : Mcu) : Mcu := { m with sdaLatch := m.dataOut true }

@[simp] theorem steadied_sclOut (m : Mcu) : (steadied m).sclOut = m.sclOut := rfl

@[simp] theorem steadied_dataOut_true (m : Mcu) :
    (steadied m).dataOut true = m.dataOut true := by
  cases h : m.usicr.getLsbD usics1 <;> simp [steadied, Mcu.dataOut, h]

@[simp] theorem steadied_sdaOut_true (m : Mcu) :
    (steadied m).sdaOut true = m.sdaOut true := by
  simp only [Mcu.sdaOut, steadied_dataOut_true]
  rfl

theorem steadied_steadied (m : Mcu) : steadied (steadied m) = steadied m := by
  rw [steadied, steadied_dataOut_true]
  rfl

theorem tick_high {b : Board σ} (level : Bool)
    (hlines : b.lines = ⟨level && S.sda b.slave, true⟩)
    (hout : b.mcu.sclOut = true) (hsda : b.mcu.sdaOut true = level)
    (hfree : S.scl b.slave = true) (hfree' : S.scl (S.high level b.slave) = true)
    (hup : S.sda b.slave = true → S.sda (S.high level b.slave) = true) :
    b.tick S = { b with
      mcu := steadied b.mcu
      lines := ⟨level && S.sda (S.high level b.slave), true⟩
      slave := S.high level b.slave
      trace := b.trace ++
        if (level && S.sda (S.high level b.slave)) = (level && S.sda b.slave) then []
        else [.stop] } := by
  have hfirst : b.settle S = { b with mcu := steadied b.mcu } := by
    rw [settle_high (by simp [hlines]) hout hfree (by simp [hlines, hsda])]
    simp [hlines, hsda, steadied]
  have hreact : S.react b.slave b.lines = S.high level b.slave := by
    simp [hlines, Slave.high]
  rw [Board.tick, hfirst, Board.react]
  simp only [hreact]
  rw [settle_high (by simp [hlines]) (by simpa using hout) hfree']
  · simp only [steadied_sdaOut_true, hsda, hlines]
    rw [← steadied, steadied_steadied]
  · simp only [hlines, steadied_sdaOut_true, hsda]
    cases level <;> simp_all

theorem InPulse.tick {strict : Prop} {level : Bool} {K : σ → Prop} {n : Nat}
    {b : Board σ} (h : InPulse strict S level K n b) (hout : b.mcu.sclOut = true)
    (hsda : b.mcu.sdaOut true = level) :
    InPulse strict S level K (n + 1) (b.tick S) ∧ (b.tick S).mcu = steadied b.mcu ∧
      (strict → (b.tick S).trace = b.trace) := by
  obtain ⟨hlines, hfree, s, hpulse, hs⟩ := h
  obtain ⟨hfree', hup, hkeep, -⟩ := hpulse n
  rw [Function.iterate_succ_apply', ← hs] at hfree' hup hkeep
  rw [tick_high level hlines hout hsda hfree hfree' hup]
  refine ⟨⟨rfl, hfree', s, hpulse, ?_⟩, rfl, ?_⟩
  · rw [Function.iterate_succ_apply', ← hs]
  · intro hstrict
    simp [hkeep hstrict]

theorem InPulse.kept {strict : Prop} {level : Bool} {K : σ → Prop} {n : Nat}
    {b : Board σ} (h : InPulse strict S level K n b) (hout : b.mcu.sclOut = true)
    (hsda : b.mcu.sdaOut true = level) (hstrict : strict) :
    (b.tick S).lines = b.lines := by
  obtain ⟨hlines, hfree, s, hpulse, hs⟩ := h
  obtain ⟨hfree', hup, hkeep, -⟩ := hpulse n
  rw [Function.iterate_succ_apply', ← hs] at hfree' hup hkeep
  rw [tick_high level hlines hout hsda hfree hfree' hup]
  change (⟨level && S.sda (S.high level b.slave), true⟩ : Lines) = b.lines
  rw [hkeep hstrict, hlines]

theorem InPulse.quiet {strict : Prop} {level : Bool} {K : σ → Prop} {n : Nat}
    {b : Board σ} (h : InPulse strict S level K n b) (hout : b.mcu.sclOut = true)
    (hsda : b.mcu.sdaOut true = level) (hquiet : S.sda b.slave = true) :
    S.sda (b.tick S).slave = true := by
  obtain ⟨hlines, hfree, s, hpulse, hs⟩ := h
  obtain ⟨hfree', hup, -⟩ := hpulse n
  rw [Function.iterate_succ_apply', ← hs] at hfree' hup
  rw [tick_high level hlines hout hsda hfree hfree' hup]
  exact hup hquiet

theorem InPulse.fall {strict : Prop} {level : Bool} {K : σ → Prop} {n : Nat}
    {b : Board σ} (h : InPulse strict S level K (n + 1) b) {f : Mcu → Mcu}
    (hout : (f b.mcu).sclOut = false) {P : σ → Prop}
    (hP : ∀ s, K s → P (S.low ((f b.mcu).sdaOut false) s)) :
    InLow S P (b.access S f) ∧
      (b.access S f).mcu = holding (latched (f b.mcu)) ∧
      (b.access S f).trace = b.trace ++ [.fall] := by
  obtain ⟨hlines, -, s, hpulse, hs⟩ := h
  obtain ⟨-, -, -, hK⟩ := hpulse n
  rw [← hs] at hK
  have hscl : (b.written f).lines.scl = true := by
    simp [Board.written, hlines]
  have hout' : (b.written f).mcu.sclOut = false := hout
  rw [Board.access, tick_fall hscl hout']
  refine ⟨⟨rfl, S.low ((f b.mcu).sdaOut false) b.slave, [], hP b.slave hK, rfl⟩, ?_, ?_⟩
  · rfl
  · rfl

/-- The registers after SCL rose with `bit` on SDA. -/
def risen (m : Mcu) (bit : Bool) : Mcu :=
  { latched m with usidr := if m.risingClock then shiftIn m.usidr bit else m.usidr }

@[simp] theorem risen_latched (m : Mcu) (bit : Bool) :
    risen (latched m) bit = risen m bit := rfl

@[simp] theorem risen_sclOut (m : Mcu) (bit : Bool) : (risen m bit).sclOut = m.sclOut := rfl

theorem risen_dataOut_true (m : Mcu) (bit : Bool) :
    (risen m bit).dataOut true = m.usidr.getLsbD 7 := by
  cases h : m.usicr.getLsbD usics1 <;>
    simp [risen, latched, Mcu.dataOut, Mcu.risingClock, h]

@[simp] theorem steadied_risen (m : Mcu) (bit : Bool) :
    steadied (risen m bit) = risen m bit := by
  rw [steadied, risen_dataOut_true]
  rfl

@[simp] theorem risen_sdaOut_true (m : Mcu) (bit : Bool) :
    (risen m bit).sdaOut true = m.sdaOut false := by
  simp only [Mcu.sdaOut, risen_dataOut_true, dataOut_false]
  rfl

/-- SCL has gone up in a slot, `n` high samples ago. -/
structure Risen (strict : Prop) (S : Slave σ) (slot : Slot) (K : Bool → σ → Prop)
    (m : Mcu) (trace : List Event) (n : Nat) (bit : Bool) (b : Board σ) : Prop where
  pulse : InPulse strict S slot.level (K bit) n b
  mcu : b.mcu = risen m bit
  trace : strict → b.trace = trace ++ [slot.rise bit]
  kept : strict → b.lines.sda = bit
  sent : ∀ v, slot = .master v → bit = v ∧ S.sda b.slave = true

/-- The master has released SCL in a slot, and the slave still holds it. -/
structure Waiting (strict : Prop) (S : Slave σ) (slot : Slot) (K : Bool → σ → Prop)
    (m : Mcu) (trace : List Event) (b : Board σ) : Prop where
  low : InLow S (Clocked strict S slot K) b
  mcu : b.mcu = latched m
  trace : b.trace = trace

theorem risen_of_settle {strict : Prop} {slot : Slot} {K : Bool → σ → Prop}
    {m : Mcu} {trace : List Event} {b : Board σ}
    (hscl : b.lines.scl = false) (hmcu : latched b.mcu = latched m)
    (hout : m.sclOut = true) (hsda : m.sdaOut false = slot.level)
    (hlatch : b.mcu.sdaLatch = b.mcu.usidr.getLsbD 7) (htrace : b.trace = trace)
    (hfree : S.scl b.slave = true)
    (hquiet : ∀ bit, slot = .master bit → S.sda b.slave = true)
    (hpulse : Pulse strict S slot.level (K (slot.level && S.sda b.slave)) b.slave) :
    Risen strict S slot K m trace 0 (slot.level && S.sda b.slave) (b.settle S) := by
  have hb : b.mcu = latched m := by
    rw [← hmcu, latched, ← hlatch]
  have htrue : b.mcu.sdaOut true = slot.level := by
    rw [← hsda, hb]
    have := risen_sdaOut_true (latched m) false
    cases h : m.usicr.getLsbD usics1 <;>
      simp [Mcu.sdaOut, latched, Mcu.dataOut, Mcu.twoWire, h]
  have hdata : b.mcu.dataOut true = m.usidr.getLsbD 7 := by
    rw [hb]
    cases h : m.usicr.getLsbD usics1 <;> simp [latched, Mcu.dataOut, h]
  rw [settle_rise hscl (by rw [hb, latched_sclOut, hout]) hfree]
  simp only [htrue, hdata]
  refine ⟨⟨rfl, hfree, b.slave, hpulse, rfl⟩, ?_, ?_, fun _ => rfl, ?_⟩
  · simp [hb, risen, latched, Mcu.risingClock]
  · intro _
    rw [htrace]
    cases slot with
    | master bit => simp [Slot.rise, hquiet bit rfl]
    | slave => simp [Slot.rise, Slot.level]
  · rintro v rfl
    exact ⟨by simp [Slot.level, hquiet v rfl], hquiet v rfl⟩

theorem Risen.settle {strict : Prop} {slot : Slot} {K : Bool → σ → Prop}
    {m : Mcu} {trace : List Event} {n : Nat} {bit : Bool} {b : Board σ}
    (h : Risen strict S slot K m trace n bit b) (hout : m.sclOut = true)
    (hsda : m.sdaOut false = slot.level) : b.settle S = b := by
  obtain ⟨⟨hlines, hfree, -⟩, hmcu, -⟩ := h
  have hsteady : { b.mcu with sdaLatch := b.mcu.dataOut true } = b.mcu := by
    change steadied b.mcu = b.mcu
    rw [hmcu, steadied_risen]
  have hsda' : b.mcu.sdaOut true = slot.level := by
    rw [hmcu, risen_sdaOut_true, hsda]
  rw [settle_high (by simp [hlines]) (by rw [hmcu, risen_sclOut, hout]) hfree
    (by simp [hlines, hsda']), hsteady]
  simp only [hsda', hlines, if_true, List.append_nil]
  rw [← hlines]

theorem Risen.next {strict : Prop} {slot : Slot} {K : Bool → σ → Prop}
    {m : Mcu} {trace : List Event} {n : Nat} {bit : Bool} {b : Board σ}
    (hpulse : InPulse strict S slot.level (K bit) n b)
    (htrace : strict → b.trace = trace ++ [slot.rise bit])
    (hkept : strict → b.lines.sda = bit)
    (hsent : ∀ v, slot = .master v → bit = v ∧ S.sda b.slave = true)
    (hout : b.mcu.sclOut = true) (hsda : b.mcu.sdaOut true = slot.level)
    (hm : steadied b.mcu = risen m bit) :
    Risen strict S slot K m trace (n + 1) bit (b.tick S) := by
  obtain ⟨hpulse', hmcu', htrace'⟩ := hpulse.tick hout hsda
  refine ⟨hpulse', hmcu'.trans hm, ?_, ?_, ?_⟩
  · intro hstrict
    exact (htrace' hstrict).trans (htrace hstrict)
  · intro hstrict
    rw [hpulse.kept hout hsda hstrict, hkept hstrict]
  · rintro v rfl
    obtain ⟨hbit, hquiet⟩ := hsent v rfl
    exact ⟨hbit, hpulse.quiet hout hsda hquiet⟩

theorem Risen.tick {strict : Prop} {slot : Slot} {K : Bool → σ → Prop}
    {m : Mcu} {trace : List Event} {n : Nat} {bit : Bool} {b : Board σ}
    (h : Risen strict S slot K m trace n bit b) (hout : m.sclOut = true)
    (hsda : m.sdaOut false = slot.level) :
    Risen strict S slot K m trace (n + 1) bit (b.tick S) := by
  refine Risen.next h.pulse h.trace h.kept h.sent ?_ ?_ ?_
  · rw [h.mcu, risen_sclOut, hout]
  · rw [h.mcu, risen_sdaOut_true, hsda]
  · rw [h.mcu, steadied_risen]

theorem Risen.access {strict : Prop} {slot : Slot} {K : Bool → σ → Prop}
    {m m' : Mcu} {trace : List Event} {n : Nat} {bit : Bool} {b : Board σ}
    (h : Risen strict S slot K m trace n bit b) {f : Mcu → Mcu}
    (hout : (f b.mcu).sclOut = true) (hsda : (f b.mcu).sdaOut true = slot.level)
    (hm : steadied (f b.mcu) = risen m' bit) :
    Risen strict S slot K m' trace (n + 1) bit (b.access S f) :=
  Risen.next (b := b.written f) ⟨h.pulse.lines, h.pulse.free, h.pulse.slave⟩
    h.trace h.kept h.sent hout hsda hm

theorem Risen.ticks {strict : Prop} {slot : Slot} {K : Bool → σ → Prop}
    {m : Mcu} {trace : List Event} {n : Nat} {bit : Bool} {b : Board σ}
    (h : Risen strict S slot K m trace n bit b) (hout : m.sclOut = true)
    (hsda : m.sdaOut false = slot.level) (k : Nat) :
    Risen strict S slot K m trace (n + k) bit ((Board.tick S)^[k] b) := by
  induction k with
  | zero => exact h
  | succ k ih =>
      rw [Function.iterate_succ_apply']
      exact ih.tick hout hsda

theorem tick_free {strict : Prop} {slot : Slot} {K : Bool → σ → Prop} {b : Board σ}
    (h : InLow S (Clocked strict S slot K) b) (hout : b.mcu.sclOut = true)
    (hsda : b.mcu.sdaOut false = slot.level)
    (hlatch : b.mcu.sdaLatch = b.mcu.usidr.getLsbD 7) (hfree : S.scl b.slave = true) :
    ∃ bit, Risen strict S slot K b.mcu b.trace 1 bit (b.tick S) := by
  obtain ⟨hscl, s, ms, hclocked, hs⟩ := h
  obtain ⟨hquiet, -, hpulse⟩ := hclocked ms
  rw [← hs] at hquiet hpulse
  have hrisen : Risen strict S slot K b.mcu b.trace 0 (slot.level && S.sda b.slave)
      (b.settle S) :=
    risen_of_settle hscl rfl hout hsda hlatch rfl hfree hquiet (hpulse hfree)
  have htick : b.tick S = (b.settle S).tick S := by
    rw [Board.tick, Board.tick, hrisen.settle hout hsda]
  refine ⟨slot.level && S.sda b.slave, ?_⟩
  rw [htick]
  exact hrisen.tick hout hsda

/-- One sample after the master has released SCL: either SCL is up, or the
slave holds it and has had one more low sample. -/
theorem tick_release {strict : Prop} {slot : Slot} {K : Bool → σ → Prop} {b : Board σ}
    (h : InLow S (Clocked strict S slot K) b) (hout : b.mcu.sclOut = true)
    (hsda : b.mcu.sdaOut false = slot.level)
    (hlatch : b.mcu.sdaLatch = b.mcu.usidr.getLsbD 7) :
    (S.scl b.slave = false ∧ (b.tick S).slave = S.low slot.level b.slave ∧
        Waiting strict S slot K b.mcu b.trace (b.tick S)) ∨
      ∃ n bit, Risen strict S slot K b.mcu b.trace n bit (b.tick S) := by
  cases hfree : S.scl b.slave with
  | true =>
      obtain ⟨bit, hrisen⟩ := tick_free h hout hsda hlatch hfree
      exact Or.inr ⟨1, bit, hrisen⟩
  | false =>
      obtain ⟨hscl, s, ms, hclocked, hs⟩ := h
      have hlow : S.lows (ms ++ [slot.level]) s = S.low slot.level b.slave := by
        rw [Slave.lows_concat, ← hs]
      have hreact : (b.settle S).react S = { b with
          mcu := latched b.mcu
          lines := ⟨slot.level && S.sda b.slave, false⟩
          slave := S.low slot.level b.slave } := by
        rw [settle_low hscl (by simp [hfree]), hsda]
        rfl
      cases hfree' : S.scl (S.low slot.level b.slave) with
      | true =>
          right
          obtain ⟨hquiet, -, hpulse⟩ := hclocked (ms ++ [slot.level])
          rw [hlow] at hquiet hpulse
          refine ⟨0, slot.level && S.sda (S.low slot.level b.slave), ?_⟩
          rw [Board.tick, hreact]
          exact risen_of_settle (b := { b with
              mcu := latched b.mcu
              lines := ⟨slot.level && S.sda b.slave, false⟩
              slave := S.low slot.level b.slave })
            rfl rfl hout hsda rfl rfl hfree' hquiet (hpulse hfree')
      | false =>
          left
          rw [Board.tick, hreact, settle_low rfl (by simp [hfree'])]
          exact ⟨rfl, rfl, ⟨⟨rfl, s, ms ++ [slot.level], hclocked, hlow.symm⟩, rfl, rfl⟩⟩

/-- `test` polls PINB once and asks whether SCL is low. -/
def PollsScl (S : Slave σ) (test : Program (Board σ) Bool) : Prop :=
  ∀ b Q, Q (!b.lines.scl) (b.tick S) → Ends test b Q

theorem access_release {strict : Prop} {slot : Slot} {K : Bool → σ → Prop} {b : Board σ}
    (h : InLow S (Clocked strict S slot K) b) {f : Mcu → Mcu}
    (hout : (f b.mcu).sclOut = true) (hsda : (f b.mcu).sdaOut false = slot.level)
    (hlatch : (f b.mcu).sdaLatch = (f b.mcu).usidr.getLsbD 7) :
    Waiting strict S slot K (f b.mcu) b.trace (b.access S f) ∨
      ∃ n bit, Risen strict S slot K (f b.mcu) b.trace n bit (b.access S f) := by
  have hlow : InLow S (Clocked strict S slot K) (b.written f) := ⟨h.scl, h.slave⟩
  rcases tick_release hlow hout hsda hlatch with ⟨-, -, hwait⟩ | hrisen
  · exact Or.inl hwait
  · exact Or.inr hrisen

theorem waitScl_ends {strict : Prop} {slot : Slot} {K : Bool → σ → Prop}
    {m : Mcu} {trace : List Event} {b : Board σ} {test : Program (Board σ) Bool}
    (htest : PollsScl S test)
    (hout : m.sclOut = true) (hsda : m.sdaOut false = slot.level)
    (h : Waiting strict S slot K m trace b ∨
      ∃ n bit, Risen strict S slot K m trace n bit b) :
    Ends (whileLoop test (pure ())) b fun _ b' =>
      ∃ n bit, Risen strict S slot K m trace (n + 1) bit b' := by
  -- A waiting slave lets go after `n` low samples, which bounds the rounds.
  let I : Nat → Board σ → Prop := fun rounds b =>
    (∃ n < rounds, Waiting strict S slot K m trace b ∧
        S.scl ((S.low slot.level)^[n] b.slave) = true) ∨
      ∃ n bit, Risen strict S slot K m trace n bit b
  have hstart : ∃ rounds, I rounds b := by
    rcases h with hwait | hrisen
    · obtain ⟨-, s, ms, hclocked, hs⟩ := hwait.low
      obtain ⟨-, hfree, -⟩ := hclocked ms
      obtain ⟨n, hn⟩ := hfree slot.level
      exact ⟨n + 1, Or.inl ⟨n, Nat.lt_succ_self n, hwait, by rw [hs, hn]⟩⟩
    · exact ⟨0, Or.inr hrisen⟩
  obtain ⟨rounds, hI⟩ := hstart
  refine ends_whileLoop I ?_ hI
  rintro rounds b (⟨n, hn, ⟨hlow, hmcu, htrace⟩, hfree⟩ | ⟨n, bit, hrisen⟩)
  · refine htest _ _ ?_
    rw [hlow.scl]
    refine ends_pure ?_
    have hrelease := tick_release hlow (by rw [hmcu, latched_sclOut, hout])
      (by rw [hmcu, latched_sdaOut_false, hsda]) (by rw [hmcu]; rfl)
    rw [hmcu, htrace] at hrelease
    rcases hrelease with ⟨hheld, hslave, hwait⟩ | ⟨k, bit, hrisen⟩
    · cases n with
      | zero => simp [hheld] at hfree
      | succ n =>
          refine ⟨n + 1, hn, Or.inl ⟨n, Nat.lt_succ_self n, ?_, ?_⟩⟩
          · exact ⟨hwait.low, hwait.mcu, hwait.trace⟩
          · rw [hslave]
            exact hfree
    · refine ⟨0, by omega, Or.inr ⟨k, bit, ?_⟩⟩
      exact ⟨hrisen.pulse, hrisen.mcu, hrisen.trace, hrisen.kept, hrisen.sent⟩
  · refine htest _ _ ?_
    rw [hrisen.pulse.lines]
    exact ⟨n, bit, hrisen.tick hout hsda⟩

/-- Both lines are high between transactions, `Q` held of the slave when they
went up, and it has been shown high samples since. -/
structure AtRest (S : Slave σ) (Q : σ → Prop) (b : Board σ) : Prop where
  lines : b.lines = ⟨true, true⟩
  slave : ∃ s n, Resting S s ∧ Q s ∧ b.slave = (S.high true)^[n] s

theorem AtRest.tick {Q : σ → Prop} {b : Board σ} (h : AtRest S Q b)
    (hout : b.mcu.sclOut = true) (hsda : b.mcu.sdaOut true = true) :
    AtRest S Q (b.tick S) ∧ (b.tick S).mcu = steadied b.mcu ∧
      (b.tick S).trace = b.trace := by
  obtain ⟨hlines, s, n, hrest, hQ, hs⟩ := h
  obtain ⟨hsda₀, hscl₀⟩ := hrest n
  obtain ⟨hsda₁, hscl₁⟩ := hrest (n + 1)
  rw [Function.iterate_succ_apply', ← hs] at hsda₁ hscl₁
  rw [← hs] at hsda₀ hscl₀
  rw [tick_high true (by simp [hlines, hsda₀]) hout hsda hscl₀ hscl₁
    fun _ => hsda₁]
  refine ⟨⟨by simp [hsda₁], s, n + 1, hrest, hQ, ?_⟩, rfl, by simp [hsda₀, hsda₁]⟩
  rw [Function.iterate_succ_apply', ← hs]

theorem AtRest.access {Q : σ → Prop} {b : Board σ} (h : AtRest S Q b) {f : Mcu → Mcu}
    (hout : (f b.mcu).sclOut = true) (hsda : (f b.mcu).sdaOut true = true) :
    AtRest S Q (b.access S f) ∧ (b.access S f).mcu = steadied (f b.mcu) ∧
      (b.access S f).trace = b.trace :=
  AtRest.tick (b := b.written f) ⟨h.lines, h.slave⟩ hout hsda

theorem AtRest.ticks {Q : σ → Prop} {b : Board σ} (h : AtRest S Q b)
    (hsteady : b.mcu = steadied b.mcu) (hout : b.mcu.sclOut = true)
    (hsda : b.mcu.sdaOut true = true) (k : Nat) :
    AtRest S Q ((Board.tick S)^[k] b) ∧ ((Board.tick S)^[k] b).mcu = b.mcu ∧
      ((Board.tick S)^[k] b).trace = b.trace := by
  induction k with
  | zero => exact ⟨h, rfl, rfl⟩
  | succ k ih =>
      obtain ⟨hrest, hmcu, htrace⟩ := ih
      rw [Function.iterate_succ_apply']
      obtain ⟨hrest', hmcu', htrace'⟩ :=
        hrest.tick (by rw [hmcu, hout]) (by rw [hmcu, hsda])
      exact ⟨hrest', by rw [hmcu', hmcu, ← hsteady], htrace'.trans htrace⟩

/-- The master has pulled SDA low under a high SCL, `k + 1` samples ago. -/
structure Started (S : Slave σ) (K : σ → Prop) (b : Board σ) : Prop where
  lines : b.lines = ⟨false, true⟩
  slave : ∃ s n k, Resting S s ∧ Idle S K s ∧
    b.slave = (S.high false)^[k + 1] ((S.high true)^[n] s)

/-- The start detector has seen a START, if it is on. -/
def flagged (m : Mcu) : Mcu := { m with startFlag := m.startFlag || m.twoWire }

@[simp] theorem flagged_sclOut (m : Mcu) : (flagged m).sclOut = m.sclOut := rfl

@[simp] theorem flagged_sdaOut (m : Mcu) (scl : Bool) :
    (flagged m).sdaOut scl = m.sdaOut scl := rfl

theorem steadied_flagged (m : Mcu) : steadied (flagged m) = flagged (steadied m) := rfl

theorem tick_start {b : Board σ} (hlines : b.lines = ⟨true, true⟩)
    (hout : b.mcu.sclOut = true) (hsda : b.mcu.sdaOut true = false)
    (hfree : S.scl b.slave = true) (hfree' : S.scl (S.high false b.slave) = true) :
    b.tick S = { b with
      mcu := flagged (steadied b.mcu)
      lines := ⟨false, true⟩
      slave := S.high false b.slave
      trace := b.trace ++ [.start] } := by
  have hreact : (b.settle S).react S = { b with
      mcu := flagged (steadied b.mcu)
      lines := ⟨false, true⟩
      slave := S.high false b.slave
      trace := b.trace ++ [.start] } := by
    rw [settle_start hlines hout hfree hsda]
    simp [Board.react, Slave.high, flagged, steadied, Mcu.twoWire]
  have hsda' : (flagged (steadied b.mcu)).sdaOut true = false := by
    rw [flagged_sdaOut, steadied_sdaOut_true, hsda]
  have hmcu : { flagged (steadied b.mcu) with
      sdaLatch := (flagged (steadied b.mcu)).dataOut true } = flagged (steadied b.mcu) := by
    change steadied (flagged (steadied b.mcu)) = _
    rw [steadied_flagged, steadied_steadied]
  rw [Board.tick, hreact, settle_high (b := { b with
      mcu := flagged (steadied b.mcu)
      lines := ⟨false, true⟩
      slave := S.high false b.slave
      trace := b.trace ++ [.start] }) rfl (by simp [hout]) hfree' (by simp), hmcu]
  simp [hsda']

theorem AtRest.start {K : σ → Prop} {b : Board σ} (h : AtRest S (Idle S K) b)
    {f : Mcu → Mcu} (hout : (f b.mcu).sclOut = true)
    (hsda : (f b.mcu).sdaOut true = false) :
    Started S K (b.access S f) ∧ (b.access S f).mcu = flagged (steadied (f b.mcu)) ∧
      (b.access S f).trace = b.trace ++ [.start] := by
  obtain ⟨hlines, s, n, hrest, hidle, hs⟩ := h
  have hfree : S.scl (b.written f).slave = true := by
    change S.scl b.slave = true
    rw [hs]
    exact (hrest n).2
  have hfree' : S.scl (S.high false (b.written f).slave) = true := by
    change S.scl (S.high false b.slave) = true
    rw [hs]
    exact (hidle n 0).2.1
  rw [Board.access, tick_start (b := b.written f) hlines hout hsda hfree hfree']
  refine ⟨⟨rfl, s, n, 0, hrest, hidle, ?_⟩, rfl, rfl⟩
  change S.high false b.slave = _
  rw [hs]
  rfl

theorem Started.tick {K : σ → Prop} {b : Board σ} (h : Started S K b)
    (hout : b.mcu.sclOut = true) (hsda : b.mcu.sdaOut true = false) :
    Started S K (b.tick S) ∧ (b.tick S).mcu = steadied b.mcu ∧
      (b.tick S).trace = b.trace := by
  obtain ⟨hlines, s, n, k, hrest, hidle, hs⟩ := h
  obtain ⟨-, hscl₀, -⟩ := hidle n k
  obtain ⟨hsda₁, hscl₁, -⟩ := hidle n (k + 1)
  rw [Function.iterate_succ_apply', ← hs] at hsda₁ hscl₁
  rw [← hs] at hscl₀
  rw [tick_high false (by simp [hlines]) hout hsda hscl₀ hscl₁ fun _ => hsda₁]
  refine ⟨⟨by simp, s, n, k + 1, hrest, hidle, ?_⟩, rfl, by simp⟩
  rw [Function.iterate_succ_apply', ← hs]

theorem Started.ticks {K : σ → Prop} {b : Board σ} (h : Started S K b)
    (hsteady : b.mcu = steadied b.mcu) (hout : b.mcu.sclOut = true)
    (hsda : b.mcu.sdaOut true = false) (n : Nat) :
    Started S K ((Board.tick S)^[n] b) ∧ ((Board.tick S)^[n] b).mcu = b.mcu ∧
      ((Board.tick S)^[n] b).trace = b.trace := by
  induction n with
  | zero => exact ⟨h, rfl, rfl⟩
  | succ n ih =>
      obtain ⟨hstarted, hmcu, htrace⟩ := ih
      rw [Function.iterate_succ_apply']
      obtain ⟨hstarted', hmcu', htrace'⟩ :=
        hstarted.tick (by rw [hmcu, hout]) (by rw [hmcu, hsda])
      exact ⟨hstarted', by rw [hmcu', hmcu, ← hsteady], htrace'.trans htrace⟩

theorem Started.fall {K : σ → Prop} {b : Board σ} (h : Started S K b) {f : Mcu → Mcu}
    (hout : (f b.mcu).sclOut = false) (hsda : (f b.mcu).sdaOut false = false) :
    InLow S K (b.access S f) ∧ (b.access S f).mcu = holding (latched (f b.mcu)) ∧
      (b.access S f).trace = b.trace ++ [.fall] := by
  obtain ⟨hlines, s, n, k, hrest, hidle, hs⟩ := h
  obtain ⟨-, -, hK⟩ := hidle n k
  rw [← hs] at hK
  have hscl : (b.written f).lines.scl = true := by
    simp [Board.written, hlines]
  have hout' : (b.written f).mcu.sclOut = false := hout
  have hsda' : (b.written f).mcu.sdaOut false = false := hsda
  rw [Board.access, tick_fall hscl hout', hsda']
  refine ⟨⟨rfl, S.low false b.slave, [], hK, rfl⟩, ?_, ?_⟩
  · rfl
  · rfl

theorem tick_stop {b : Board σ} (hlines : b.lines = ⟨false, true⟩)
    (hout : b.mcu.sclOut = true) (hsda : b.mcu.sdaOut true = true)
    (hfree : S.scl b.slave = true) (hquiet : S.sda b.slave = true)
    (hfree' : S.scl (S.high true b.slave) = true)
    (hquiet' : S.sda (S.high true b.slave) = true) :
    b.tick S = { b with
      mcu := steadied b.mcu
      lines := ⟨true, true⟩
      slave := S.high true b.slave
      trace := b.trace ++ [.stop] } := by
  have hreact : (b.settle S).react S = { b with
      mcu := steadied b.mcu
      lines := ⟨true, true⟩
      slave := S.high true b.slave
      trace := b.trace ++ [.stop] } := by
    rw [settle_high (by simp [hlines]) hout hfree (by simp [hlines])]
    simp [hsda, hquiet, hlines, Board.react, Slave.high, steadied]
  have hmcu : { steadied b.mcu with sdaLatch := (steadied b.mcu).dataOut true } =
      steadied b.mcu := by
    change steadied (steadied b.mcu) = _
    rw [steadied_steadied]
  rw [Board.tick, hreact, settle_high (b := { b with
      mcu := steadied b.mcu
      lines := ⟨true, true⟩
      slave := S.high true b.slave
      trace := b.trace ++ [.stop] }) rfl (by simp [hout]) hfree' (by simp [hsda, hquiet']),
    hmcu]
  simp [hsda, hquiet']

theorem Risen.stop {strict : Prop} {Q : σ → Prop} {m : Mcu} {trace : List Event}
    {n : Nat} {bit : Bool} {b : Board σ}
    (h : Risen strict S (.master false)
      (fun _ s' => Resting S (S.high true s') ∧ Q (S.high true s')) m trace (n + 1) bit b)
    {f : Mcu → Mcu} (hout : (f b.mcu).sclOut = true) (hsda : (f b.mcu).sdaOut true = true) :
    AtRest S Q (b.access S f) ∧ (b.access S f).mcu = steadied (f b.mcu) ∧
      (strict → (b.access S f).trace = trace ++ [Slot.rise (.master false) false, .stop]) := by
  obtain ⟨⟨hlines, hfree, s, hpulse, hs⟩, -, htrace, -, hsent⟩ := h
  obtain ⟨-, -, -, hrest, hQ⟩ := hpulse n
  obtain ⟨hbit, hquiet⟩ := hsent false rfl
  rw [← hs] at hrest hQ
  obtain ⟨hquiet', hfree'⟩ := hrest 0
  have hlines' : (b.written f).lines = ⟨false, true⟩ := by
    simp [Board.written, hlines, Slot.level]
  rw [Board.access, tick_stop (b := b.written f) hlines' hout hsda hfree hquiet hfree' hquiet']
  refine ⟨⟨rfl, S.high true b.slave, 0, hrest, hQ, rfl⟩, rfl, ?_⟩
  intro hstrict
  change b.trace ++ [.stop] = _
  rw [htrace hstrict, hbit]
  simp

section Rules

variable {strict : Prop} {P : σ → Prop} {b : Board σ} {f : Mcu → Mcu}
  {R : Unit → Board σ → Prop}

/-! The same facts as rules for the two primitive programs, a register write
and a delay. -/

theorem InLow.write_ends (h : InLow S P b) (hout : (f b.mcu).sclOut = false)
    (hR : ∀ b', InLow S P b' → b'.mcu = latched (f b.mcu) → b'.trace = b.trace → R () b') :
    Ends (modify (Board.access S f)) b R := by
  obtain ⟨hlow, hmcu, htrace⟩ := h.access hout
  exact ends_modify (hR _ hlow hmcu htrace)

theorem InLow.delay_ends (h : InLow S P b) (hlatch : b.mcu = latched b.mcu)
    (hout : b.mcu.sclOut = false) {n : Nat}
    (hR : ∀ b', InLow S P b' → b'.mcu = b.mcu → b'.trace = b.trace → R () b') :
    Ends (delayUs S n) b R := by
  obtain ⟨hlow, hmcu, htrace⟩ := h.ticks hlatch hout n
  exact ends_modify (hR _ hlow hmcu htrace)

theorem AtRest.write_ends (h : AtRest S P b) (hout : (f b.mcu).sclOut = true)
    (hsda : (f b.mcu).sdaOut true = true)
    (hR : ∀ b', AtRest S P b' → b'.mcu = steadied (f b.mcu) → b'.trace = b.trace → R () b') :
    Ends (modify (Board.access S f)) b R := by
  obtain ⟨hrest, hmcu, htrace⟩ := h.access hout hsda
  exact ends_modify (hR _ hrest hmcu htrace)

theorem AtRest.delay_ends (h : AtRest S P b) (hsteady : b.mcu = steadied b.mcu)
    (hout : b.mcu.sclOut = true) (hsda : b.mcu.sdaOut true = true) {n : Nat}
    (hR : ∀ b', AtRest S P b' → b'.mcu = b.mcu → b'.trace = b.trace → R () b') :
    Ends (delayUs S n) b R := by
  obtain ⟨hrest, hmcu, htrace⟩ := h.ticks hsteady hout hsda n
  exact ends_modify (hR _ hrest hmcu htrace)

theorem AtRest.start_ends (h : AtRest S (Idle S P) b) (hout : (f b.mcu).sclOut = true)
    (hsda : (f b.mcu).sdaOut true = false)
    (hR : ∀ b', Started S P b' → b'.mcu = flagged (steadied (f b.mcu)) →
      b'.trace = b.trace ++ [.start] → R () b') :
    Ends (modify (Board.access S f)) b R := by
  obtain ⟨hstart, hmcu, htrace⟩ := h.start hout hsda
  exact ends_modify (hR _ hstart hmcu htrace)

theorem Started.write_ends (h : Started S P b) (hout : (f b.mcu).sclOut = true)
    (hsda : (f b.mcu).sdaOut true = false)
    (hR : ∀ b', Started S P b' → b'.mcu = steadied (f b.mcu) → b'.trace = b.trace → R () b') :
    Ends (modify (Board.access S f)) b R := by
  have hwritten : Started S P (b.written f) := ⟨h.lines, h.slave⟩
  obtain ⟨hstart, hmcu, htrace⟩ := hwritten.tick hout hsda
  exact ends_modify (hR _ hstart hmcu htrace)

theorem Started.delay_ends (h : Started S P b) (hsteady : b.mcu = steadied b.mcu)
    (hout : b.mcu.sclOut = true) (hsda : b.mcu.sdaOut true = false) {n : Nat}
    (hR : ∀ b', Started S P b' → b'.mcu = b.mcu → b'.trace = b.trace → R () b') :
    Ends (delayUs S n) b R := by
  obtain ⟨hstart, hmcu, htrace⟩ := h.ticks hsteady hout hsda n
  exact ends_modify (hR _ hstart hmcu htrace)

theorem Started.fall_ends (h : Started S P b) (hout : (f b.mcu).sclOut = false)
    (hsda : (f b.mcu).sdaOut false = false)
    (hR : ∀ b', InLow S P b' → b'.mcu = holding (latched (f b.mcu)) →
      b'.trace = b.trace ++ [.fall] → R () b') :
    Ends (modify (Board.access S f)) b R := by
  obtain ⟨hlow, hmcu, htrace⟩ := h.fall hout hsda
  exact ends_modify (hR _ hlow hmcu htrace)

theorem InLow.free_ends {slot : Slot} {K : Bool → σ → Prop}
    (h : InLow S (fun s => (∀ ms, S.scl (S.lows ms s) = true) ∧ Clocked strict S slot K s) b)
    (hout : (f b.mcu).sclOut = true) (hsda : (f b.mcu).sdaOut false = slot.level)
    (hlatch : (f b.mcu).sdaLatch = (f b.mcu).usidr.getLsbD 7)
    (hR : ∀ bit b', Risen strict S slot K (f b.mcu) b.trace 1 bit b' → R () b') :
    Ends (modify (Board.access S f)) b R := by
  obtain ⟨hscl, s, ms, ⟨hfree, hclocked⟩, hs⟩ := h
  have hlow : InLow S (Clocked strict S slot K) (b.written f) := ⟨hscl, s, ms, hclocked, hs⟩
  have hfree' : S.scl (b.written f).slave = true := by
    change S.scl b.slave = true
    rw [hs]
    exact hfree ms
  obtain ⟨bit, hrisen⟩ := tick_free hlow hout hsda hlatch hfree'
  exact ends_modify (hR bit _ hrisen)

theorem Risen.delay_ends {slot : Slot} {K : Bool → σ → Prop} {m : Mcu}
    {trace : List Event} {n : Nat} {bit : Bool}
    (h : Risen strict S slot K m trace (n + 1) bit b) (hout : m.sclOut = true)
    (hsda : m.sdaOut false = slot.level) {k : Nat}
    (hR : ∀ n b', Risen strict S slot K m trace (n + 1) bit b' → R () b') :
    Ends (delayUs S k) b R := by
  have hrisen := h.ticks hout hsda k
  rw [Nat.add_right_comm] at hrisen
  exact ends_modify (hR _ _ hrisen)

theorem Risen.stop_ends {m : Mcu} {trace : List Event} {n : Nat} {bit : Bool}
    (h : Risen strict S (.master false)
      (fun _ s' => Resting S (S.high true s') ∧ P (S.high true s')) m trace (n + 1) bit b)
    (hout : (f b.mcu).sclOut = true) (hsda : (f b.mcu).sdaOut true = true)
    (hR : ∀ b', AtRest S P b' → b'.mcu = steadied (f b.mcu) →
      (strict → b'.trace = trace ++ [Slot.rise (.master false) false, .stop]) → R () b') :
    Ends (modify (Board.access S f)) b R := by
  obtain ⟨hrest, hmcu, htrace⟩ := h.stop hout hsda
  exact ends_modify (hR _ hrest hmcu htrace)

end Rules

end NesMiniAdapter.BoardPhases
