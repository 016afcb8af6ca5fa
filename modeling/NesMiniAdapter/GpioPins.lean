import NesMiniAdapter.BoardPhases

/-!
The two pins with the USI off: DDRB and PORTB alone decide what is on the
lines, and the registers change only in the latch.
-/

namespace NesMiniAdapter.GpioPins

open NesMiniAdapter.ByteBits
open NesMiniAdapter.Attiny85
open NesMiniAdapter.BoardPhases

/-- The bits of DDRB and PORTB behind the two pins, the USI off. -/
structure Gpio (ddrSda ddrScl portSda portScl : Bool) (m : Mcu) : Prop where
  usicr : m.usicr = 0#8
  hold : m.startHold = false
  ddrSda : m.ddrb.getLsbD pb0 = ddrSda
  ddrScl : m.ddrb.getLsbD pb2 = ddrScl
  portSda : m.portb.getLsbD pb0 = portSda
  portScl : m.portb.getLsbD pb2 = portScl

section Levels

variable {m : Mcu}

theorem twoWire_of_off (h : m.usicr = 0#8) : m.twoWire = false := by
  simp [Mcu.twoWire, h]

theorem flagged_of_off (h : m.usicr = 0#8) : flagged m = m := by
  simp [flagged, twoWire_of_off h]

theorem holding_of_off (h : m.usicr = 0#8) : holding m = m := by
  simp [holding, twoWire_of_off h]

theorem steadied_of_off (h : m.usicr = 0#8) : steadied m = latched m := by
  simp [steadied, latched, Mcu.dataOut, h]

theorem risen_of_off (h : m.usicr = 0#8) (bit : Bool) : risen m bit = latched m := by
  simp [risen, latched, Mcu.risingClock, h]

end Levels

namespace Gpio

variable {ddrSda ddrScl portSda portScl : Bool} {m : Mcu}

theorem sclOut (h : Gpio ddrSda ddrScl portSda portScl m) :
    m.sclOut = (!ddrScl || portScl) := by
  rw [Mcu.sclOut, h.ddrScl, h.portScl, h.hold]
  simp

theorem sdaOut (h : Gpio ddrSda ddrScl portSda portScl m) (scl : Bool) :
    m.sdaOut scl = (!ddrSda || portSda) := by
  rw [Mcu.sdaOut, h.ddrSda, h.portSda, twoWire_of_off h.usicr]
  simp

theorem latched (h : Gpio ddrSda ddrScl portSda portScl m) :
    Gpio ddrSda ddrScl portSda portScl (latched m) :=
  ⟨h.usicr, h.hold, h.ddrSda, h.ddrScl, h.portSda, h.portScl⟩

theorem ddrbOrSda (h : Gpio ddrSda ddrScl portSda portScl m) :
    Gpio true ddrScl portSda portScl { m with ddrb := m.ddrb ||| bv pb0 } := by
  refine ⟨h.usicr, h.hold, ?_, ?_, h.portSda, h.portScl⟩
  · rw [getLsbD_or_bv _ _ (by decide)]
    simp
  · rw [getLsbD_or_bv _ _ (by decide), h.ddrScl]
    simp

theorem ddrbOrScl (h : Gpio ddrSda ddrScl portSda portScl m) :
    Gpio ddrSda true portSda portScl { m with ddrb := m.ddrb ||| bv pb2 } := by
  refine ⟨h.usicr, h.hold, ?_, ?_, h.portSda, h.portScl⟩
  · rw [getLsbD_or_bv _ _ (by decide), h.ddrSda]
    simp
  · rw [getLsbD_or_bv _ _ (by decide)]
    simp

theorem ddrbAndSda (h : Gpio ddrSda ddrScl portSda portScl m) :
    Gpio false ddrScl portSda portScl { m with ddrb := m.ddrb &&& ~~~bv pb0 } := by
  refine ⟨h.usicr, h.hold, ?_, ?_, h.portSda, h.portScl⟩
  · rw [getLsbD_and_not_bv _ _ (by decide)]
    simp
  · rw [getLsbD_and_not_bv _ _ (by decide), h.ddrScl]
    simp

theorem ddrbAndScl (h : Gpio ddrSda ddrScl portSda portScl m) :
    Gpio ddrSda false portSda portScl { m with ddrb := m.ddrb &&& ~~~bv pb2 } := by
  refine ⟨h.usicr, h.hold, ?_, ?_, h.portSda, h.portScl⟩
  · rw [getLsbD_and_not_bv _ _ (by decide), h.ddrSda]
    simp
  · rw [getLsbD_and_not_bv _ _ (by decide)]
    simp

theorem portbOrSda (h : Gpio ddrSda ddrScl portSda portScl m) :
    Gpio ddrSda ddrScl true portScl { m with portb := m.portb ||| bv pb0 } := by
  refine ⟨h.usicr, h.hold, h.ddrSda, h.ddrScl, ?_, ?_⟩
  · rw [getLsbD_or_bv _ _ (by decide)]
    simp
  · rw [getLsbD_or_bv _ _ (by decide), h.portScl]
    simp

theorem portbOrScl (h : Gpio ddrSda ddrScl portSda portScl m) :
    Gpio ddrSda ddrScl portSda true { m with portb := m.portb ||| bv pb2 } := by
  refine ⟨h.usicr, h.hold, h.ddrSda, h.ddrScl, ?_, ?_⟩
  · rw [getLsbD_or_bv _ _ (by decide), h.portSda]
    simp
  · rw [getLsbD_or_bv _ _ (by decide)]
    simp

theorem portbAndSda (h : Gpio ddrSda ddrScl portSda portScl m) :
    Gpio ddrSda ddrScl false portScl { m with portb := m.portb &&& ~~~bv pb0 } := by
  refine ⟨h.usicr, h.hold, h.ddrSda, h.ddrScl, ?_, ?_⟩
  · rw [getLsbD_and_not_bv _ _ (by decide)]
    simp
  · rw [getLsbD_and_not_bv _ _ (by decide), h.portScl]
    simp

theorem portbAndScl (h : Gpio ddrSda ddrScl portSda portScl m) :
    Gpio ddrSda ddrScl portSda false { m with portb := m.portb &&& ~~~bv pb2 } := by
  refine ⟨h.usicr, h.hold, h.ddrSda, h.ddrScl, ?_, ?_⟩
  · rw [getLsbD_and_not_bv _ _ (by decide), h.portSda]
    simp
  · rw [getLsbD_and_not_bv _ _ (by decide)]
    simp

end Gpio

end NesMiniAdapter.GpioPins
