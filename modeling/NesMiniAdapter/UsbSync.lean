import NesMiniAdapter.UsbReceiver

/-!
The beginning of the receiver of `usbdrv/usbdrvasm165.inc`: from the interrupt to the first
bit after the sync pattern.
-/

namespace NesMiniAdapter.UsbSync

open NesMiniAdapter.AvrMachine
open NesMiniAdapter.UsbReceiver (RxLabel rxCode phase usbIn sreg usbBufsize)
open NesMiniAdapter.UsbTransmitter (x1 x2 shift cnt x3 x4 yl yh usbMinus)

open NesMiniAdapter.UsbReceiver.RxLabel

variable {usbRxBuf usbInputBufOffset : BitVec 16} {flash : BitVec 16 → BitVec 8}
  {pins : Nat → BitVec 8} {s₀ s : Cpu RxLabel}

/-- What the interrupt has pushed. -/
def entered (s₀ : Cpu RxLabel) : Cpu RxLabel :=
  { s₀ with saved := s₀.io sreg :: s₀.reg yl :: s₀.saved }

/-- The cycle and the place in the code while the routine synchronises. -/
structure At (s₀ : Cpu RxLabel) (pc : RxLabel × Nat) (c : Nat) (s : Cpu RxLabel) :
    Prop where
  pc : s.pc = pc
  cycles : s.cycles = c
  frame : Frame [yl] (entered s₀) s

theorem vector (hpc : s.pc = (usbIntrVector, 0)) :
    Reaches (rxCode usbRxBuf usbInputBufOffset flash pins) s fun s' =>
      At s (waitForJ, 0) (s.cycles + 5) s' ∧ s'.reg yl = s.io sreg := by
  obtain ⟨reg, carry, zero, t, sram, io, outs, cycles, pc, stack, saved⟩ := s
  cases hpc
  refine ⟨3, ?_⟩
  generalize hs' : (rxCode usbRxBuf usbInputBufOffset flash pins).step^[3] _ = s'
  simp [rxCode] at hs'
  subst hs'
  refine ⟨⟨rfl, rfl, ?_, rfl, rfl, rfl, rfl, by simp [entered]⟩, by simp⟩
  intro r hr
  simp at hr
  simp [entered, hr]

theorem waitForJ_low {c : Nat} (h : At s₀ (waitForJ, 0) c s) (hmore : s.reg yl + 1#8 ≠ 0#8)
    (hlow : (pins (c + 1)).getLsbD usbMinus = false) :
    Reaches (rxCode usbRxBuf usbInputBufOffset flash pins) s fun s' =>
      At s₀ (waitForJ, 0) (c + 4) s' ∧ s'.reg yl = s.reg yl + 1#8 := by
  obtain ⟨hpc, hcycles, hframe⟩ := h
  obtain ⟨reg, carry, zero, t, sram, io, outs, cycles, pc, stack, saved⟩ := s
  cases hpc
  cases hcycles
  have hbit : (pins (cycles + 1))[3] = false := hlow
  have hmore : reg 28#5 + 1#8 ≠ 0#8 := hmore
  refine ⟨3, ?_⟩
  generalize hs' : (rxCode usbRxBuf usbInputBufOffset flash pins).step^[3] _ = s'
  simp [rxCode, hbit, hmore] at hs'
  subst hs'
  refine ⟨⟨rfl, rfl, hframe.trans ⟨?_, rfl, rfl, rfl, rfl, rfl⟩⟩, by simp⟩
  intro r hr
  simp at hr
  simp [hr]

theorem waitForJ_high {c : Nat} (h : At s₀ (waitForJ, 0) c s)
    (hhigh : (pins (c + 1)).getLsbD usbMinus = true) :
    Reaches (rxCode usbRxBuf usbInputBufOffset flash pins) s (At s₀ (waitForK, 0) (c + 3)) := by
  obtain ⟨hpc, hcycles, hframe⟩ := h
  obtain ⟨reg, carry, zero, t, sram, io, outs, cycles, pc, stack, saved⟩ := s
  cases hpc
  cases hcycles
  have hbit : (pins (cycles + 1))[3] = true := hhigh
  refine ⟨2, ?_⟩
  generalize hs' : (rxCode usbRxBuf usbInputBufOffset flash pins).step^[2] _ = s'
  simp [rxCode, hbit] at hs'
  subst hs'
  refine ⟨rfl, rfl, hframe.trans ⟨?_, rfl, rfl, rfl, rfl, rfl⟩⟩
  intro r hr
  simp at hr
  simp [hr]

/-- One of the six looks at the line, in which it is still high. -/
theorem waitForK_high {c m : Nat} (hm : m < 5) (h : At s₀ (waitForK, 2 * m) c s)
    (hhigh : (pins c).getLsbD usbMinus = true) :
    Reaches (rxCode usbRxBuf usbInputBufOffset flash pins) s
      (At s₀ (waitForK, 2 * (m + 1)) (c + 2)) := by
  obtain ⟨hpc, hcycles, hframe⟩ := h
  obtain ⟨reg, carry, zero, t, sram, io, outs, cycles, pc, stack, saved⟩ := s
  cases hpc
  cases hcycles
  have hbit : (pins cycles)[3] = true := hhigh
  have hcases : m = 0 ∨ m = 1 ∨ m = 2 ∨ m = 3 ∨ m = 4 := by omega
  refine ⟨1, ?_⟩
  generalize hs' : (rxCode usbRxBuf usbInputBufOffset flash pins).step^[1] _ = s'
  rcases hcases with rfl | rfl | rfl | rfl | rfl
  all_goals
    simp [rxCode, hbit] at hs'
    subst hs'
    exact ⟨rfl, rfl, hframe.trans ⟨fun _ _ => rfl, rfl, rfl, rfl, rfl, rfl⟩⟩

theorem waitForK_low {c m : Nat} (hm : m < 6) (h : At s₀ (waitForK, 2 * m) c s)
    (hlow : (pins c).getLsbD usbMinus = false) :
    Reaches (rxCode usbRxBuf usbInputBufOffset flash pins) s (At s₀ (foundK, 0) (c + 3)) := by
  obtain ⟨hpc, hcycles, hframe⟩ := h
  obtain ⟨reg, carry, zero, t, sram, io, outs, cycles, pc, stack, saved⟩ := s
  cases hpc
  cases hcycles
  have hbit : (pins cycles)[3] = false := hlow
  have hcases : m = 0 ∨ m = 1 ∨ m = 2 ∨ m = 3 ∨ m = 4 ∨ m = 5 := by omega
  refine ⟨2, ?_⟩
  generalize hs' : (rxCode usbRxBuf usbInputBufOffset flash pins).step^[2] _ = s'
  rcases hcases with rfl | rfl | rfl | rfl | rfl | rfl
  all_goals
    simp [rxCode, hbit] at hs'
    subst hs'
    exact ⟨rfl, rfl, hframe.trans ⟨fun _ _ => rfl, rfl, rfl, rfl, rfl, rfl⟩⟩

/-- The next bit is J: the registers are popped again, and the wait goes on. -/
theorem foundK_retry {c : Nat} (h : At s₀ (foundK, 0) c s)
    (hhigh : (pins (c + 10)).getLsbD usbMinus = true) :
    Reaches (rxCode usbRxBuf usbInputBufOffset flash pins) s (At s₀ (waitForK, 0) (c + 18)) := by
  obtain ⟨hpc, hcycles, hframe⟩ := h
  obtain ⟨reg, carry, zero, t, sram, io, outs, cycles, pc, stack, saved⟩ := s
  cases hpc
  cases hcycles
  have hbit : (pins (cycles + 2 + 2 + 2 + 1 + 1 + 1 + 1))[3] = true := hhigh
  refine ⟨11, ?_⟩
  generalize hs' : (rxCode usbRxBuf usbInputBufOffset flash pins).step^[11] _ = s'
  simp [rxCode, hbit] at hs'
  subst hs'
  refine ⟨rfl, rfl, hframe.trans ⟨?_, rfl, rfl, rfl, rfl, rfl⟩⟩
  intro r hr
  simp at hr
  by_cases hr₀ : r = 0#5
  · simp [hr₀]
  · by_cases hyh : r = 29#5
    · simp [hyh]
    · simp [hr, hr₀, hyh]

theorem toNat_append (h l : BitVec 8) : (h ++ l).toNat = 256 * h.toNat + l.toNat := by
  have hl := l.isLt
  rw [BitVec.toNat_append, ← Nat.shiftLeft_add_eq_or_of_lt hl, Nat.shiftLeft_eq]
  omega

/-- `subi` and `sbci` on a pair. -/
theorem append_sub (h l kh kl : BitVec 8) :
    (h - kh - BitVec.setWidth 8 (BitVec.ofBool (l.ult kl))) ++ (l - kl) =
      (h ++ l) - (kh ++ kl) := by
  have hh := h.isLt
  have hl := l.isLt
  have hkh := kh.isLt
  have hkl := kl.isLt
  apply BitVec.eq_of_toNat_eq
  rw [toNat_append, BitVec.toNat_sub, BitVec.toNat_sub, BitVec.toNat_sub, BitVec.toNat_sub,
    toNat_append, toNat_append]
  cases hult : l.ult kl with
  | false =>
      have hge : kl.toNat ≤ l.toNat := by simpa [BitVec.ult] using hult
      simp
      omega
  | true =>
      have hlt : l.toNat < kl.toNat := by simpa [BitVec.ult] using hult
      simp
      omega

/-- The pointer into the receive buffer. -/
theorem pointer (offset : BitVec 8) (buffer : BitVec 16) :
    (0#8 - (-buffer).extractLsb' 8 8 -
        BitVec.setWidth 8 (BitVec.ofBool (offset.ult ((-buffer).extractLsb' 0 8)))) ++
      (offset - (-buffer).extractLsb' 0 8) = offset.setWidth 16 + buffer := by
  rw [append_sub, append_extract, BitVec.sub_neg]
  have hwide : offset.setWidth 16 = 0#8 ++ offset := BitVec.setWidth_eq_append (by decide)
  rw [hwide]

/-- Two bits K have been seen, and the pointer is set. -/
structure TwoBits (usbRxBuf usbInputBufOffset : BitVec 16) (s₀ : Cpu RxLabel) (c : Nat)
    (s : Cpu RxLabel) : Prop where
  pc : s.pc = (haveTwoBitsK, 0)
  cycles : s.cycles = c
  y : s.y = (s₀.sram usbInputBufOffset).setWidth 16 + usbRxBuf
  r0 : s.reg 0#5 = s₀.reg x2
  frame : Frame [0#5, yl, yh]
    { s₀ with saved := s₀.reg yh :: s₀.reg 0#5 :: (entered s₀).saved } s

theorem foundK_done {c : Nat} (hoffset : 0x60 ≤ usbInputBufOffset.toNat)
    (h : At s₀ (foundK, 0) c s) (hlow : (pins (c + 10)).getLsbD usbMinus = false) :
    Reaches (rxCode usbRxBuf usbInputBufOffset flash pins) s
      (TwoBits usbRxBuf usbInputBufOffset s₀ (c + 13)) := by
  obtain ⟨hpc, hcycles, hreg, hsram, hio, houts, hstack, hsaved⟩ := h
  obtain ⟨reg, carry, zero, t, sram, io, outs, cycles, pc, stack, saved⟩ := s
  cases hpc
  cases hcycles
  have hbit : (pins (cycles + 2 + 2 + 2 + 1 + 1 + 1 + 1))[3] = false := hlow
  have hkept : ∀ r, r ≠ 28#5 → reg r = s₀.reg r := fun r hr => hreg r (by simpa using hr)
  refine ⟨9, ?_⟩
  generalize hs' : (rxCode usbRxBuf usbInputBufOffset flash pins).step^[9] _ = s'
  simp [rxCode, hbit, load_sram hoffset] at hs'
  subst hs'
  refine ⟨rfl, rfl, ?_, by simpa using hkept 17#5 (by decide), ?_, hsram, hio, houts, hstack, ?_⟩
  · have hpointer := pointer (sram usbInputBufOffset) usbRxBuf
    have hsram : sram = s₀.sram := hsram
    rw [hsram] at hpointer
    simpa [hsram] using hpointer
  · intro r hr
    simp at hr
    simpa [hr] using hkept r hr.2.1
  · have hsaved : saved = (entered s₀).saved := hsaved
    show reg 29#5 :: reg 0#5 :: saved = _
    rw [hkept 29#5 (by decide), hkept 0#5 (by decide), hsaved]

/-- What the receiver has pushed when it begins with the packet. -/
def pushed (s₀ : Cpu RxLabel) : List (BitVec 8) :=
  [cnt, x4, x3, x2, x1, shift, yh, 0#5].map s₀.reg ++ [s₀.io sreg, s₀.reg yl]

/-- After the sync pattern: the first bit has been sampled in cycle `c`, and everything is
ready for the loop. -/
structure Synchronised (usbRxBuf usbInputBufOffset : BitVec 16) (pins : Nat → BitVec 8)
    (s₀ : Cpu RxLabel) (c : Nat) (s : Cpu RxLabel) : Prop where
  pc : s.pc = (rxbit1, 0)
  cycles : s.cycles = c + 11
  zero : s.zero = false
  x1 : s.reg x1 = pins c
  shift : s.reg shift = if (pins c).getLsbD usbMinus then 0xFF#8 else 0xFE#8
  x3 : s.reg x3 = 0xFF#8
  phase : s.reg phase = 0#8
  cnt : s.reg cnt = usbBufsize
  r0 : s.reg 0#5 = s₀.reg x2
  y : s.y = (s₀.sram usbInputBufOffset).setWidth 16 + usbRxBuf
  frame : Frame [0#5, yl, yh, UsbTransmitter.shift, UsbTransmitter.x1, UsbTransmitter.x3, x4,
    UsbTransmitter.cnt] { s₀ with saved := pushed s₀ ++ s₀.saved } s

theorem twoBits_done {c : Nat} (h : TwoBits usbRxBuf usbInputBufOffset s₀ c s) :
    Reaches (rxCode usbRxBuf usbInputBufOffset flash pins) s
      (Synchronised usbRxBuf usbInputBufOffset pins s₀ (c + 10)) := by
  obtain ⟨hpc, hcycles, hy, hr0, hreg, hsram, hio, houts, hstack, hsaved⟩ := h
  obtain ⟨reg, carry, zero, t, sram, io, outs, cycles, pc, stack, saved⟩ := s
  cases hpc
  cases hcycles
  have hkept : ∀ r ∉ [0#5, 28#5, 29#5], reg r = s₀.reg r := hreg
  have hser : reg 20#5 ||| 255#8 = 255#8 := BitVec.or_allOnes
  refine ⟨14, ?_⟩
  generalize hs' : (rxCode usbRxBuf usbInputBufOffset flash pins).step^[14] _ = s'
  simp [rxCode, hser] at hs'
  subst hs'
  refine ⟨rfl, rfl, rfl, ?_, ?_, ?_, ?_, ?_, ?_, ?_, ?_, hsram, hio, houts, hstack, ?_⟩
  · simp
  · cases hbit : (pins (cycles + 10)).getLsbD 3 with
    | false =>
        have hbit : (pins (cycles + 10))[3] = false := hbit
        simp [hbit]
    | true =>
        have hbit : (pins (cycles + 10))[3] = true := hbit
        simp [hbit]
  · simp
  · simp
  · simp
  · simpa using hr0
  · simpa using hy
  · intro r hr
    simp at hr
    simpa [hr] using hkept r (by simp [hr])
  · have hsaved : saved = s₀.reg 29#5 :: s₀.reg 0#5 :: (entered s₀).saved := hsaved
    simp [pushed, entered, hsaved, hkept]

/-- The sync pattern KJKJKJKK on D−, from `start` on, in bits of eleven cycles. -/
structure SyncPattern (pins : Nat → BitVec 8) (start : Nat) : Prop where
  j : ∀ b i, b = 1 ∨ b = 3 ∨ b = 5 → start + 11 * b ≤ i → i < start + 11 * b + 11 →
    (pins i).getLsbD usbMinus = true
  k : ∀ b i, b = 0 ∨ b = 2 ∨ b = 4 ∨ b = 6 ∨ b = 7 → start + 11 * b ≤ i →
    i < start + 11 * b + 11 → (pins i).getLsbD usbMinus = false

section Pattern

variable {start : Nat}

/-- The six looks find the edge to K, which is at `e`. -/
theorem edge_found {e c m : Nat} (hm : m < 6) (hearly : c ≤ e + 1) (hlate : e ≤ c + 2 * (5 - m))
    (hbefore : ∀ i, c ≤ i → i < e → (pins i).getLsbD usbMinus = true)
    (hafter : ∀ i, e ≤ i → i < e + 2 → (pins i).getLsbD usbMinus = false)
    (h : At s₀ (waitForK, 2 * m) c s) :
    Reaches (rxCode usbRxBuf usbInputBufOffset flash pins) s fun s' =>
      ∃ t, e ≤ t ∧ t < e + 2 ∧ At s₀ (foundK, 0) (t + 3) s' := by
  obtain ⟨n, hn⟩ : ∃ n, m + n = 5 := ⟨5 - m, by omega⟩
  induction n generalizing m c s with
  | zero =>
      refine (waitForK_low hm h (hafter c (by omega) (by omega))).mono ?_
      exact fun s' h' => ⟨c, by omega, by omega, h'⟩
  | succ n ih =>
      rcases Nat.lt_or_ge c e with hlt | hge
      · refine (waitForK_high (by omega) h (hbefore c (Nat.le_refl _) hlt)).bind ?_
        intro s₁ h₁
        exact ih (by omega) (by omega) (by omega) (fun i hi => hbefore i (by omega)) h₁ (by omega)
      · refine (waitForK_low hm h (hafter c hge (by omega))).mono ?_
        exact fun s' h' => ⟨c, by omega, by omega, h'⟩

/-- From a J on, each edge is found, and after the last one the two bits K. -/
theorem edges_run (h : SyncPattern pins start) (hoffset : 0x60 ≤ usbInputBufOffset.toNat)
    {n j c : Nat} (hj : j + n = 2) (hearly : c ≤ start + 22 * (j + 1) + 1)
    (hlate : start + 22 * (j + 1) ≤ c + 10) (hwait : At s₀ (waitForK, 0) c s) :
    Reaches (rxCode usbRxBuf usbInputBufOffset flash pins) s fun s' =>
      ∃ t, start + 66 ≤ t ∧ t < start + 68 ∧
        TwoBits usbRxBuf usbInputBufOffset s₀ (t + 16) s' := by
  induction n generalizing j c s with
  | zero =>
      obtain rfl : j = 2 := hj
      refine (edge_found (show 0 < 6 by decide) hearly hlate
        (fun i hi hi' => h.j 5 i (by decide) (by omega) (by omega))
        (fun i hi hi' => h.k 6 i (by decide) (by omega) (by omega)) hwait).bind ?_
      rintro s₁ ⟨t, ht, ht', h₁⟩
      refine (foundK_done hoffset h₁ (h.k 7 _ (by decide) (by omega) (by omega))).mono ?_
      exact fun s' h' => ⟨t, by omega, by omega, h'⟩
  | succ n ih =>
      refine (edge_found (show 0 < 6 by decide) hearly hlate
        (fun i hi hi' => h.j (2 * j + 1) i (by omega) (by omega) (by omega))
        (fun i hi hi' => h.k (2 * j + 2) i (by omega) (by omega) (by omega)) hwait).bind ?_
      rintro s₁ ⟨t, ht, ht', h₁⟩
      refine (foundK_retry h₁ (h.j (2 * j + 3) _ (by omega) (by omega) (by omega))).bind ?_
      intro s₂ h₂
      exact ih (j := j + 1) (by omega) (by omega) (by omega) h₂

/-- The routine waits for a J first; there is one left up to the 66th cycle. -/
theorem waitForJ_run (h : SyncPattern pins start) {n c : Nat} (hstart : start ≤ c)
    (hn : start + 65 < c + 1 + 4 * n) (hlast : c + 1 < start + 66)
    (hyl : (s.reg yl).toNat + n < 256) (hwait : At s₀ (waitForJ, 0) c s) :
    Reaches (rxCode usbRxBuf usbInputBufOffset flash pins) s fun s' => ∃ j c', j ≤ 2 ∧
      c' ≤ start + 22 * (j + 1) + 1 ∧ start + 22 * (j + 1) ≤ c' + 10 ∧
        At s₀ (waitForK, 0) c' s' := by
  induction n generalizing c s with
  | zero => omega
  | succ n ih =>
      obtain ⟨b, hb, hlower, hupper⟩ : ∃ b, b ≤ 5 ∧ start + 11 * b ≤ c + 1 ∧
          c + 1 < start + 11 * b + 11 := ⟨(c + 1 - start) / 11, by omega, by omega, by omega⟩
      rcases Nat.even_or_odd' b with ⟨j, rfl | rfl⟩
      · have hlow := h.k (2 * j) (c + 1) (by omega) hlower hupper
        have hnext : (s.reg yl + 1#8).toNat = (s.reg yl).toNat + 1 := by
          have hone : (1#8 : BitVec 8).toNat = 1 := rfl
          rw [BitVec.toNat_add_of_lt (by omega), hone]
        have hmore : s.reg yl + 1#8 ≠ 0#8 := by
          intro hzero
          rw [hzero] at hnext
          cases hnext
        refine (waitForJ_low hwait hmore hlow).bind ?_
        rintro s₁ ⟨h₁, hyl₁⟩
        exact ih (by omega) (by omega) (by omega) (by rw [hyl₁]; omega) h₁
      · refine (waitForJ_high hwait (h.j (2 * j + 1) (c + 1) (by omega) hlower hupper)).mono ?_
        exact fun s' h' => ⟨j, c + 3, by omega, by omega, by omega, h'⟩

/-- The receiver tolerates every interrupt latency up to the 59 cycles that its header
allows: it looks at the first bit of the packet four or five of its eleven cycles after its
beginning, with everything ready for the loop. -/
theorem usbIntrVector_synchronises (hoffset : 0x60 ≤ usbInputBufOffset.toNat)
    (h : SyncPattern pins start) (hpc : s.pc = (usbIntrVector, 0))
    (hsreg : (s.io sreg).getLsbD 7 = false) (hstart : start ≤ s.cycles)
    (hlatency : s.cycles ≤ start + 59) :
    Reaches (rxCode usbRxBuf usbInputBufOffset flash pins) s fun s' =>
      ∃ c, start + 88 + 4 ≤ c ∧ c ≤ start + 88 + 5 ∧
        Synchronised usbRxBuf usbInputBufOffset pins s c s' := by
  have hsmall : (s.io sreg).toNat < 128 := by
    have hmsb : (s.io sreg).msb = false := hsreg
    rw [BitVec.msb_eq_decide, decide_eq_false_iff_not] at hmsb
    omega
  refine (vector hpc).bind ?_
  rintro s₁ ⟨h₁, hyl⟩
  refine (waitForJ_run h (n := 17) (by omega) (by omega) (by omega)
    (by rw [hyl]; omega) h₁).bind ?_
  rintro s₂ ⟨j, c, hj, hearly, hlate, h₂⟩
  refine (edges_run h hoffset (Nat.add_sub_of_le hj) hearly hlate h₂).bind ?_
  rintro s₃ ⟨t, ht, ht', h₃⟩
  refine (twoBits_done h₃).mono ?_
  exact fun s' h' => ⟨t + 16 + 10, by omega, by omega, h'⟩

/-- The pattern in the first 88 cycles, without noise on D+. -/
def syncPins (i : Nat) : BitVec 8 :=
  if i / 11 = 1 ∨ i / 11 = 3 ∨ i / 11 = 5 then 0x08#8 else 0x02#8

theorem syncPins_pattern : SyncPattern syncPins 0 := by
  constructor
  · intro b i hb hlower hupper
    rw [syncPins, if_pos (by omega)]
    rfl
  · intro b i hb hlower hupper
    rw [syncPins, if_neg (by omega)]
    rfl

end Pattern

end NesMiniAdapter.UsbSync
