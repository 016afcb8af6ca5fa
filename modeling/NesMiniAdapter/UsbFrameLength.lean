import NesMiniAdapter.Oscillator
import NesMiniAdapter.UsbCrc16

/-!
`usbMeasureFrameLength` of `usbdrv/usbdrvasm.S`: it waits for a strobe of the host and
counts until the next one.
-/

namespace NesMiniAdapter.UsbFrameLength

open NesMiniAdapter.AvrMachine
open NesMiniAdapter.Oscillator (fCpu targetValue)
open NesMiniAdapter.UsbCrc16 (called)

@[simp] abbrev usbIn : Port := 0x16
@[simp] abbrev usbMinus : Nat := 3
@[simp] abbrev usbMask : BitVec 8 := 0x0A

@[simp] abbrev cnt16L : Reg := 24#5
@[simp] abbrev cnt16H : Reg := 25#5
@[simp] abbrev cnt16 : Reg := cnt16L
@[simp] abbrev cntH : Reg := 26#5

inductive MeasureLabel where
  | usbMeasureFrameLength
  | usbMFTime16
  | usbMFWaitStrobe
  | usbMFWaitIdle
  | usbMFWaitLoop
  | usbMFTimeout
  deriving DecidableEq, Repr

open MeasureLabel

/-- The code, with the two lines as they are in each cycle. `clr` is `eor`. -/
def measureCode (pins : Nat → BitVec 8) : Code MeasureLabel where
  block
    | usbMeasureFrameLength => [.ldi cntH 6, .eor cnt16L cnt16L, .eor cnt16H cnt16H]
    | usbMFTime16 => [.dec cntH, .breq usbMFTimeout]
    | usbMFWaitStrobe =>
        [.sbiw cnt16 1, .breq usbMFTime16, .sbic usbIn usbMinus, .rjmp usbMFWaitStrobe]
    | usbMFWaitIdle =>
        [.sbis usbIn usbMinus, .rjmp usbMFWaitIdle, .ldi cnt16L 1, .eor cnt16H cnt16H]
    | usbMFWaitLoop =>
        [.in cntH usbIn, .adiw cnt16 1, .breq usbMFTimeout, .andi cntH usbMask,
          .brne usbMFWaitLoop]
    | usbMFTimeout => [.ret]
  next
    | usbMeasureFrameLength => usbMFTime16
    | usbMFTime16 => usbMFWaitStrobe
    | usbMFWaitStrobe => usbMFWaitIdle
    | usbMFWaitIdle => usbMFWaitLoop
    | usbMFWaitLoop => usbMFTimeout
    | usbMFTimeout => usbMFTimeout
  flash _ := 0
  input a := if a = usbIn then some pins else none

variable {pins : Nat → BitVec 8} {s₀ s : Cpu MeasureLabel}

abbrev clobbered : List Reg := [cnt16L, cnt16H, cntH]

/-- The start of round `k` of the wait for a strobe; every round takes six cycles. -/
structure Waiting (s₀ : Cpu MeasureLabel) (k : Nat) (s : Cpu MeasureLabel) : Prop where
  pc : s.pc = (usbMFWaitStrobe, 0)
  cycles : s.cycles = s₀.cycles + 5 + 6 * k
  cnt16 : s.reg cnt16H ++ s.reg cnt16L = -BitVec.ofNat 16 k
  cntH : s.reg cntH = 5#8 - BitVec.ofNat 8 (k / 65536)
  frame : Frame clobbered s₀ s

/-- The strobe has been seen. -/
structure Strobed (s₀ : Cpu MeasureLabel) (cycles : Nat) (s : Cpu MeasureLabel) : Prop where
  pc : s.pc = (usbMFWaitIdle, 0)
  cycles : s.cycles = cycles
  frame : Frame clobbered s₀ s

/-- The counting loop, in which the line is looked at every seven cycles. -/
structure Counting (s₀ : Cpu MeasureLabel) (since j : Nat) (s : Cpu MeasureLabel) : Prop where
  pc : s.pc = (usbMFWaitLoop, 0)
  cycles : s.cycles = since + 4 + 7 * j
  cnt16 : s.reg cnt16H ++ s.reg cnt16L = BitVec.ofNat 16 (j + 1)
  frame : Frame clobbered s₀ s

/-- The end, with the result in its registers. -/
structure Counted (s₀ : Cpu MeasureLabel) (n : Nat) (s : Cpu MeasureLabel) : Prop where
  pc : s.pc = (usbMFTimeout, 0)
  cnt16 : s.reg cnt16H ++ s.reg cnt16L = BitVec.ofNat 16 n
  frame : Frame clobbered s₀ s

theorem waiting_start (hpc : s.pc = (usbMeasureFrameLength, 0)) :
    Reaches (measureCode pins) s (Waiting s 0) := by
  obtain ⟨reg, carry, zero, t, sram, io, outs, cycles, pc, stack, saved⟩ := s
  cases hpc
  refine ⟨5, ?_⟩
  generalize hs' : (measureCode pins).step^[5] _ = s'
  simp [measureCode] at hs'
  subst hs'
  refine ⟨rfl, rfl, by simp, by simp, ?_, rfl, rfl, rfl, rfl, rfl⟩
  intro r hr
  simp at hr
  simp [hr]

theorem cnt16_next (k : Nat) : -BitVec.ofNat 16 k - 1#16 = -BitVec.ofNat 16 (k + 1) := by
  apply BitVec.eq_of_toNat_eq
  simp
  omega

theorem cnt16_zero (k : Nat) : -BitVec.ofNat 16 k = 0#16 ↔ 65536 ∣ k := by
  rw [← BitVec.toNat_inj]
  simp
  omega

theorem cntH_next {k : Nat} (hk : 65536 ∣ k + 1) :
    5#8 - BitVec.ofNat 8 (k / 65536) - 1#8 = 5#8 - BitVec.ofNat 8 ((k + 1) / 65536) := by
  apply BitVec.eq_of_toNat_eq
  simp
  omega

theorem cntH_zero {k : Nat} (hk : k < 6 * 65536) :
    5#8 - BitVec.ofNat 8 (k / 65536) = 0#8 ↔ 5 * 65536 ≤ k := by
  rw [← BitVec.toNat_inj]
  simp
  omega

theorem Waiting.cnt16_sub {k : Nat} (h : Waiting s₀ k s) :
    s.reg 25#5 ++ s.reg 24#5 - 1#16 = -BitVec.ofNat 16 (k + 1) :=
  (congrArg (· - 1#16) h.cnt16).trans (cnt16_next k)

theorem Waiting.cnt16_ne {k : Nat} (h : Waiting s₀ k s) (hk : ¬ 65536 ∣ k + 1) :
    s.reg 25#5 ++ s.reg 24#5 - 1#16 ≠ 0#16 := by
  rw [h.cnt16_sub, ne_eq, cnt16_zero]
  exact hk

theorem Waiting.cnt16_eq {k : Nat} (h : Waiting s₀ k s) (hk : 65536 ∣ k + 1) :
    s.reg 25#5 ++ s.reg 24#5 - 1#16 = 0#16 := by
  rw [h.cnt16_sub, cnt16_zero]
  exact hk

theorem Waiting.cntH_dec {k : Nat} (h : Waiting s₀ k s) (hk : 65536 ∣ k + 1) :
    s.reg 26#5 - 1#8 = 5#8 - BitVec.ofNat 8 ((k + 1) / 65536) :=
  (congrArg (· - 1#8) h.cntH).trans (cntH_next hk)

/-- The counter has come to zero: there is no look at the line in this round. -/
theorem waiting_wrap {k : Nat} (h : Waiting s₀ k s) (hk : 65536 ∣ k + 1)
    (hmore : k + 1 < 5 * 65536) : Reaches (measureCode pins) s (Waiting s₀ (k + 1)) := by
  have hsub := h.cnt16_eq hk
  have hdec := h.cntH_dec hk
  obtain ⟨hpc, hcycles, -, -, hframe⟩ := h
  obtain ⟨reg, carry, zero, t, sram, io, outs, cycles, pc, stack, saved⟩ := s
  cases hpc
  dsimp only at hsub hdec
  have hne : reg 26#5 - 1#8 ≠ 0#8 := by
    rw [hdec, ne_eq, cntH_zero (by omega)]
    omega
  refine ⟨4, ?_⟩
  generalize hs' : (measureCode pins).step^[4] _ = s'
  simp [measureCode, hsub, hne] at hs'
  subst hs'
  refine ⟨rfl, ?_, ?_, ?_, hframe.trans ⟨?_, rfl, rfl, rfl, rfl, rfl⟩⟩
  · show cycles + 2 + 2 + 1 + 1 = _
    have hcycles : cycles = s₀.cycles + 5 + 6 * k := hcycles
    omega
  · rw [(cnt16_zero _).mpr hk]
    simp
  · simpa using hdec
  · intro r hr
    simp at hr
    simp [hr]

/-- A round that looks at the line. -/
theorem waiting_poll {k : Nat} (h : Waiting s₀ k s) (hk : ¬ 65536 ∣ k + 1)
    (hhigh : (pins (s.cycles + 3)).getLsbD usbMinus = true) :
    Reaches (measureCode pins) s (Waiting s₀ (k + 1)) := by
  have hsub := h.cnt16_sub
  have hne := h.cnt16_ne hk
  obtain ⟨hpc, hcycles, -, hcntH, hframe⟩ := h
  obtain ⟨reg, carry, zero, t, sram, io, outs, cycles, pc, stack, saved⟩ := s
  cases hpc
  dsimp only at hsub hne
  have hbit : (pins (cycles + 2 + 1))[3] = true := hhigh
  refine ⟨4, ?_⟩
  generalize hs' : (measureCode pins).step^[4] _ = s'
  simp [measureCode, hne, hbit] at hs'
  subst hs'
  refine ⟨rfl, ?_, ?_, ?_, hframe.trans ⟨?_, rfl, rfl, rfl, rfl, rfl⟩⟩
  · show cycles + 2 + 1 + 1 + 2 = _
    have hcycles : cycles = s₀.cycles + 5 + 6 * k := hcycles
    omega
  · simpa [append_extract] using hsub
  · have hdiv : (k + 1) / 65536 = k / 65536 := by omega
    rw [hdiv]
    simpa using hcntH
  · intro r hr
    simp at hr
    simp [hr]

/-- The line is low: the strobe has come. -/
theorem waiting_found {k : Nat} (h : Waiting s₀ k s) (hk : ¬ 65536 ∣ k + 1)
    (hlow : (pins (s.cycles + 3)).getLsbD usbMinus = false) :
    Reaches (measureCode pins) s (Strobed s₀ (s.cycles + 5)) := by
  have hne := h.cnt16_ne hk
  obtain ⟨hpc, -, -, -, hframe⟩ := h
  obtain ⟨reg, carry, zero, t, sram, io, outs, cycles, pc, stack, saved⟩ := s
  cases hpc
  dsimp only at hne
  have hbit : (pins (cycles + 2 + 1))[3] = false := hlow
  refine ⟨3, ?_⟩
  generalize hs' : (measureCode pins).step^[3] _ = s'
  simp [measureCode, hne, hbit] at hs'
  subst hs'
  refine ⟨rfl, rfl, hframe.trans ⟨?_, rfl, rfl, rfl, rfl, rfl⟩⟩
  intro r hr
  simp at hr
  simp [hr]

/-- The routine gives up. -/
theorem waiting_timeout {k : Nat} (h : Waiting s₀ k s) (hk : k + 1 = 5 * 65536) :
    Reaches (measureCode pins) s (Counted s₀ 0) := by
  have hsub := h.cnt16_eq (show 65536 ∣ k + 1 by omega)
  have hdec : s.reg 26#5 - 1#8 = 0#8 :=
    (h.cntH_dec (by omega)).trans ((cntH_zero (by omega)).mpr (by omega))
  obtain ⟨hpc, -, -, -, hframe⟩ := h
  obtain ⟨reg, carry, zero, t, sram, io, outs, cycles, pc, stack, saved⟩ := s
  cases hpc
  dsimp only at hsub hdec
  refine ⟨4, ?_⟩
  generalize hs' : (measureCode pins).step^[4] _ = s'
  simp [measureCode, hsub, hdec] at hs'
  subst hs'
  refine ⟨rfl, by simp, hframe.trans ⟨?_, rfl, rfl, rfl, rfl, rfl⟩⟩
  intro r hr
  simp at hr
  simp [hr]

theorem strobed_low {c : Nat} (h : Strobed s₀ c s) (hlow : (pins c).getLsbD usbMinus = false) :
    Reaches (measureCode pins) s (Strobed s₀ (c + 3)) := by
  obtain ⟨hpc, hcycles, hframe⟩ := h
  obtain ⟨reg, carry, zero, t, sram, io, outs, cycles, pc, stack, saved⟩ := s
  cases hpc
  cases hcycles
  have hbit : (pins cycles)[3] = false := hlow
  refine ⟨2, ?_⟩
  generalize hs' : (measureCode pins).step^[2] _ = s'
  simp [measureCode, hbit] at hs'
  subst hs'
  exact ⟨rfl, rfl, hframe.trans ⟨fun _ _ => rfl, rfl, rfl, rfl, rfl, rfl⟩⟩

theorem strobed_idle {c : Nat} (h : Strobed s₀ c s) (hhigh : (pins c).getLsbD usbMinus = true) :
    Reaches (measureCode pins) s (Counting s₀ c 0) := by
  obtain ⟨hpc, hcycles, hframe⟩ := h
  obtain ⟨reg, carry, zero, t, sram, io, outs, cycles, pc, stack, saved⟩ := s
  cases hpc
  cases hcycles
  have hbit : (pins cycles)[3] = true := hhigh
  refine ⟨3, ?_⟩
  generalize hs' : (measureCode pins).step^[3] _ = s'
  simp [measureCode, hbit] at hs'
  subst hs'
  refine ⟨rfl, rfl, by simp, hframe.trans ⟨?_, rfl, rfl, rfl, rfl, rfl⟩⟩
  intro r hr
  simp at hr
  simp [hr]

theorem counter_next {j : Nat} (hj : j + 2 < 65536) :
    BitVec.ofNat 16 (j + 1) + 1#16 = BitVec.ofNat 16 (j + 2) ∧ BitVec.ofNat 16 (j + 2) ≠ 0#16 := by
  constructor
  · exact BitVec.ofNat_add_ofNat (j + 1) 1
  · intro hzero
    have hnat := congrArg BitVec.toNat hzero
    rw [BitVec.toNat_ofNat, Nat.mod_eq_of_lt hj] at hnat
    cases hnat

theorem Counting.cnt16_add {since j : Nat} (h : Counting s₀ since j s) (hj : j + 2 < 65536) :
    s.reg 25#5 ++ s.reg 24#5 + 1#16 = BitVec.ofNat 16 (j + 2) ∧
      s.reg 25#5 ++ s.reg 24#5 + 1#16 ≠ 0#16 := by
  obtain ⟨hnext, hne⟩ := counter_next hj
  have hadd := (congrArg (· + 1#16) h.cnt16).trans hnext
  exact ⟨hadd, hadd ▸ hne⟩

theorem counting_more {since j : Nat} (h : Counting s₀ since j s) (hj : j + 2 < 65536)
    (hidle : pins (since + 4 + 7 * j) &&& usbMask ≠ 0#8) :
    Reaches (measureCode pins) s (Counting s₀ since (j + 1)) := by
  obtain ⟨hadd, hne⟩ := h.cnt16_add hj
  obtain ⟨hpc, hcycles, -, hframe⟩ := h
  obtain ⟨reg, carry, zero, t, sram, io, outs, cycles, pc, stack, saved⟩ := s
  cases hpc
  cases hcycles
  dsimp only at hadd hne
  have hmasked : pins (since + 4 + 7 * j) &&& 0x0A#8 ≠ 0#8 := hidle
  refine ⟨5, ?_⟩
  generalize hs' : (measureCode pins).step^[5] _ = s'
  simp [measureCode, hne, hmasked] at hs'
  subst hs'
  refine ⟨rfl, ?_, ?_, hframe.trans ⟨?_, rfl, rfl, rfl, rfl, rfl⟩⟩
  · show since + 4 + 7 * j + 1 + 2 + 1 + 1 + 2 = _
    omega
  · simpa [append_extract] using hadd
  · intro r hr
    simp at hr
    simp [hr]

theorem counting_end {since j : Nat} (h : Counting s₀ since j s) (hj : j + 2 < 65536)
    (hstrobe : pins (since + 4 + 7 * j) &&& usbMask = 0#8) :
    Reaches (measureCode pins) s (Counted s₀ (j + 2)) := by
  obtain ⟨hadd, hne⟩ := h.cnt16_add hj
  obtain ⟨hpc, hcycles, -, hframe⟩ := h
  obtain ⟨reg, carry, zero, t, sram, io, outs, cycles, pc, stack, saved⟩ := s
  cases hpc
  cases hcycles
  dsimp only at hadd hne
  have hmasked : pins (since + 4 + 7 * j) &&& 0x0A#8 = 0#8 := hstrobe
  refine ⟨5, ?_⟩
  generalize hs' : (measureCode pins).step^[5] _ = s'
  simp [measureCode, hne, hmasked] at hs'
  subst hs'
  refine ⟨rfl, ?_, hframe.trans ⟨?_, rfl, rfl, rfl, rfl, rfl⟩⟩
  · simpa [append_extract] using hadd
  · intro r hr
    simp at hr
    simp [hr]

/-- The line from `start` on: idle up to a strobe from `fall` to `rise`, and idle again up
to the next strobe. -/
structure Strobes (pins : Nat → BitVec 8) (start fall rise next : Nat) : Prop where
  coming : start ≤ fall
  soon : fall ≤ start + 1966000
  wide : fall + 12 ≤ rise
  apart : rise + 3 ≤ next
  near : next ≤ rise + 458000
  before : ∀ i, start ≤ i → i < fall → (pins i).getLsbD usbMinus = true
  strobe : ∀ i, fall ≤ i → i < rise → (pins i).getLsbD usbMinus = false
  idle : ∀ i, rise ≤ i → i < next → (pins i).getLsbD usbMinus = true
  after : ∀ i, next ≤ i → i < next + 7 → pins i &&& usbMask = 0#8

section Strobes

variable {fall rise next : Nat}

/-- After a round that cannot look at the line comes one that can. -/
theorem strobe_seen (h : Strobes pins s₀.cycles fall rise next) {n k : Nat}
    (hn : fall + 12 ≤ s.cycles + n) (hwait : Waiting s₀ k s)
    (hnear : s.cycles + 3 < fall + 6 ∨ s.cycles + 3 < fall + 12 ∧ ¬ 65536 ∣ k + 1) :
    Reaches (measureCode pins) s fun s' => ∃ c, fall ≤ c ∧ c < rise + 3 ∧ Strobed s₀ c s' := by
  have hsoon := h.soon
  have hwide := h.wide
  induction n generalizing k s with
  | zero => omega
  | succ n ih =>
      have hcycles := hwait.cycles
      by_cases hwrap : 65536 ∣ k + 1
      · refine (waiting_wrap hwait hwrap (by omega)).bind ?_
        intro s₁ h₁
        have hcycles₁ := h₁.cycles
        exact ih (by omega) h₁ (.inr ⟨by omega, by omega⟩)
      · cases hline : (pins (s.cycles + 3)).getLsbD usbMinus with
        | false =>
            have hfall : fall ≤ s.cycles + 3 := by
              apply Nat.le_of_not_lt
              intro hlt
              have hhigh := h.before (s.cycles + 3) (by omega) hlt
              rw [hline] at hhigh
              cases hhigh
            refine (waiting_found hwait hwrap hline).mono ?_
            exact fun s' h' => ⟨s.cycles + 5, by omega, by omega, h'⟩
        | true =>
            have hfall : s.cycles + 3 < fall := by
              apply Nat.lt_of_not_le
              intro hle
              have hlow := h.strobe (s.cycles + 3) hle (by omega)
              rw [hline] at hlow
              cases hlow
            refine (waiting_poll hwait hwrap hline).bind ?_
            intro s₁ h₁
            have hcycles₁ := h₁.cycles
            exact ih (by omega) h₁ (.inl (by omega))

/-- The end of the strobe is noticed within three cycles. -/
theorem strobe_ends (h : Strobes pins s₀.cycles fall rise next) {n c : Nat} (hn : rise ≤ c + n)
    (hfall : fall ≤ c) (hrise : c < rise + 3) (hstrobed : Strobed s₀ c s) :
    Reaches (measureCode pins) s fun s' =>
      ∃ since, rise ≤ since ∧ since < rise + 3 ∧ Counting s₀ since 0 s' := by
  have hapart := h.apart
  induction n generalizing c s with
  | zero =>
      refine (strobed_idle hstrobed (h.idle c hn (by omega))).mono ?_
      exact fun s' h' => ⟨c, hn, hrise, h'⟩
  | succ n ih =>
      rcases Nat.lt_or_ge c rise with hlow | hhigh
      · refine (strobed_low hstrobed (h.strobe c hfall hlow)).bind ?_
        exact fun s₁ h₁ => ih (by omega) (by omega) (by omega) h₁
      · refine (strobed_idle hstrobed (h.idle c hhigh (by omega))).mono ?_
        exact fun s' h' => ⟨c, hhigh, hrise, h'⟩

theorem idle_masked {v : BitVec 8} (h : v.getLsbD usbMinus = true) : v &&& usbMask ≠ 0#8 := by
  intro hzero
  have hbit := congrArg (BitVec.getLsbD · 3) hzero
  rw [BitVec.getLsbD_and, h] at hbit
  cases hbit

/-- The loop counts up to the next strobe. -/
theorem counting_done (h : Strobes pins s₀.cycles fall rise next) {since n j : Nat}
    (hsince : rise ≤ since) (hn : next ≤ since + 4 + 7 * j + n)
    (hnot : since + 4 + 7 * j < next + 7) (hcounting : Counting s₀ since j s) :
    Reaches (measureCode pins) s fun s' => ∃ j', next ≤ since + 4 + 7 * j' ∧
      since + 4 + 7 * j' < next + 7 ∧ Counted s₀ (j' + 2) s' := by
  have hnear := h.near
  induction n generalizing j s with
  | zero =>
      refine (counting_end hcounting (by omega) (h.after _ hn hnot)).mono ?_
      exact fun s' h' => ⟨j, hn, hnot, h'⟩
  | succ n ih =>
      rcases Nat.lt_or_ge (since + 4 + 7 * j) next with hidle | hstrobe
      · refine (counting_more hcounting (by omega)
          (idle_masked (h.idle _ (by omega) hidle))).bind ?_
        exact fun s₁ h₁ => ih (by omega) (by omega) h₁
      · refine (counting_end hcounting (by omega) (h.after _ hstrobe hnot)).mono ?_
        exact fun s' h' => ⟨j, hstrobe, hnot, h'⟩

/-- The result is the time between the strobes in units of seven cycles. -/
theorem measures_strobes (h : Strobes pins s.cycles fall rise next)
    (hpc : s.pc = (usbMeasureFrameLength, 0)) :
    Reaches (measureCode pins) s fun s' =>
      ∃ n, Counted s n s' ∧ next + 8 ≤ 7 * n + rise ∧ 7 * n + rise < next + 17 := by
  have hcoming := h.coming
  have hapart := h.apart
  refine (waiting_start hpc).bind ?_
  intro s₁ hwaiting
  have hcycles := hwaiting.cycles
  refine (strobe_seen h (Nat.le_add_left _ _) hwaiting (.inr ⟨by omega, by decide⟩)).bind ?_
  rintro s₂ ⟨c, hfall, hrise, hstrobed⟩
  refine (strobe_ends h (Nat.le_add_left _ _) hfall hrise hstrobed).bind ?_
  rintro s₃ ⟨since, hsince, hthree, hcounting⟩
  refine (counting_done h hsince (Nat.le_add_left _ _) (by omega) hcounting).mono ?_
  rintro s₄ ⟨j, hstrobe, hseven, hcounted⟩
  exact ⟨j + 2, hcounted, by omega, by omega⟩

/-- Without a strobe the routine gives up. -/
theorem measures_nothing
    (hidle : ∀ i, s.cycles ≤ i → i < s.cycles + 6 * 327680 → (pins i).getLsbD usbMinus = true)
    (hpc : s.pc = (usbMeasureFrameLength, 0)) : Reaches (measureCode pins) s (Counted s 0) := by
  have hround : ∀ n s₁, (∃ k, k + (n + 1) = 327679 ∧ Waiting s k s₁) →
      Reaches (measureCode pins) s₁ fun s₂ => ∃ k, k + n = 327679 ∧ Waiting s k s₂ := by
    rintro n s₁ ⟨k, hk, hwaiting⟩
    have hcycles := hwaiting.cycles
    by_cases hwrap : 65536 ∣ k + 1
    · refine (waiting_wrap hwaiting hwrap (by omega)).mono ?_
      exact fun s₂ h₂ => ⟨k + 1, by omega, h₂⟩
    · refine (waiting_poll hwaiting hwrap (hidle _ (by omega) (by omega))).mono ?_
      exact fun s₂ h₂ => ⟨k + 1, by omega, h₂⟩
  refine (waiting_start hpc).bind ?_
  intro s₁ hwaiting
  refine (Reaches.loop (fun n s₁ => ∃ k, k + n = 327679 ∧ Waiting s k s₁) hround
    ⟨0, Nat.zero_add _, hwaiting⟩).bind ?_
  rintro s₂ ⟨k, hk, hlast⟩
  exact waiting_timeout hlast (by omega)

/-- The routine is back at its caller with `n` as its result. -/
structure Returned (s₀ : Cpu MeasureLabel) (back : MeasureLabel × Nat)
    (stack : List (MeasureLabel × Nat)) (n : Nat) (s : Cpu MeasureLabel) : Prop where
  pc : s.pc = back
  result : s.reg cnt16H ++ s.reg cnt16L = BitVec.ofNat 16 n
  frame : Frame clobbered { s₀ with stack := stack } s

variable {back : MeasureLabel × Nat} {stack : List (MeasureLabel × Nat)}

theorem counted_returns {n : Nat} (hstack : s₀.stack = back :: stack) (h : Counted s₀ n s) :
    Reaches (measureCode pins) s (Returned s₀ back stack n) := by
  obtain ⟨hpc, hcnt, hframe⟩ := h
  obtain ⟨reg, carry, zero, t, sram, io, outs, cycles, pc, stack', saved⟩ := s
  cases hpc
  have hback : stack' = back :: stack := hframe.stack.trans hstack
  cases hback
  refine ⟨1, rfl, hcnt, ?_⟩
  exact ⟨hframe.reg, hframe.sram, hframe.io, hframe.outs, rfl, hframe.saved⟩

/-- What the calibration relies on: the result is the time between two strobes in units of
seven cycles, so that a processor that runs at `fCpu` finds just the target of the
calibration, if a strobe lasts two bits. Where no strobe comes the result is 0. -/
theorem usbMeasureFrameLength_measures (hpc : s.pc = (usbMeasureFrameLength, 0))
    (hstack : s.stack = back :: stack) :
    (∀ fall rise next, Strobes pins s.cycles fall rise next →
      Reaches (measureCode pins) s fun s' => ∃ n, Returned s back stack n s' ∧
        next + 8 ≤ 7 * n + rise ∧ 7 * n + rise < next + 17 ∧
        (next + 2 * 11 = rise + fCpu / 1000 → BitVec.ofNat 16 n = targetValue)) ∧
      ((∀ i, s.cycles ≤ i → i < s.cycles + 6 * 327680 → (pins i).getLsbD usbMinus = true) →
        Reaches (measureCode pins) s (Returned s back stack 0)) := by
  constructor
  · intro fall rise next h
    refine (measures_strobes h hpc).bind ?_
    rintro s₁ ⟨n, hcounted, hlower, hupper⟩
    refine (counted_returns hstack hcounted).mono ?_
    refine fun s' hreturned => ⟨n, hreturned, hlower, hupper, ?_⟩
    intro hframe
    have hmilli : fCpu / 1000 = 16500 := rfl
    rw [show n = 2356 by omega]
    rfl
  · intro hidle
    exact (measures_nothing hidle hpc).bind fun s₁ h₁ => counted_returns hstack h₁

/-- Strobes of two bits, 16500 cycles apart. -/
def strobes (i : Nat) : BitVec 8 := if 100 ≤ i ∧ i < 122 ∨ 16600 ≤ i then 0x00#8 else 0x08#8

theorem strobes_strobes : Strobes strobes 0 100 122 16600 := by
  have hidle : ∀ i, ¬ (100 ≤ i ∧ i < 122 ∨ 16600 ≤ i) →
      (strobes i).getLsbD usbMinus = true := by
    intro i hi
    rw [strobes, if_neg hi]
    rfl
  have hstrobe : ∀ i, 100 ≤ i ∧ i < 122 ∨ 16600 ≤ i → strobes i = 0x00#8 :=
    fun i hi => if_pos hi
  constructor
  case before => exact fun i _ hi => hidle i (by omega)
  case strobe =>
    intro i hfall hrise
    rw [hstrobe i (.inl ⟨hfall, hrise⟩)]
    rfl
  case idle => exact fun i hrise hnext => hidle i (by omega)
  case after =>
    intro i hnext _
    rw [hstrobe i (.inr hnext)]
    rfl
  all_goals decide

theorem usbMeasureFrameLength_measures_strobes :
    let s := called usbMeasureFrameLength usbMFTimeout 0#16 0#8
    Reaches (measureCode strobes) s fun s' => ∃ n, Returned s (usbMFTimeout, 0) [] n s' ∧
      16600 + 8 ≤ 7 * n + 122 ∧ 7 * n + 122 < 16600 + 17 ∧
      (16600 + 2 * 11 = 122 + fCpu / 1000 → BitVec.ofNat 16 n = targetValue) :=
  (usbMeasureFrameLength_measures rfl rfl).1 100 122 16600 strobes_strobes

end Strobes

end NesMiniAdapter.UsbFrameLength
