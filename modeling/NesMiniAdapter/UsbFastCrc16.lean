import NesMiniAdapter.UsbCrc16

/-!
The version of `usbCrc16` in `usbdrv/usbdrvasm.S` that is faster and takes more
code.
-/

namespace NesMiniAdapter.UsbFastCrc16

open NesMiniAdapter.Crc
open NesMiniAdapter.AvrMachine
open NesMiniAdapter.UsbCrc16

inductive FastCrcLabel where
  | usbCrc16
  | usbCrc16ByteLoop
  | usbCrc16LoopTest
  deriving DecidableEq, Repr

open FastCrcLabel

/-- The code under `USB_USE_FAST_CRC`. -/
def fastCrcCode : Code FastCrcLabel where
  block
    | usbCrc16 =>
        [.mov ptrL argPtrL, .mov ptrH argPtrH, .ldi resCrcL 0xFF, .ldi resCrcH 0xFF,
          .rjmp usbCrc16LoopTest]
    | usbCrc16ByteLoop =>
        [.ldXInc byte, .eor resCrcL byte,
          .mov byte resCrcL, .swap byte, .eor byte resCrcL, .mov scratch byte, .lsr byte,
          .lsr byte, .eor byte scratch, .inc byte, .lsr byte, .andi byte 1,
          .mov scratch resCrcL, .mov resCrcL resCrcH, .eor resCrcL byte, .neg byte,
          .andi byte 0xC0, .mov resCrcH byte, .eor byte byte, .lsr scratch, .ror byte,
          .eor resCrcH scratch, .eor resCrcL byte, .lsr scratch, .ror byte,
          .eor resCrcH scratch, .eor resCrcL byte]
    | usbCrc16LoopTest =>
        [.subi argLen 1, .brcc usbCrc16ByteLoop, .com resCrcL, .com resCrcH, .ret]
  next
    | usbCrc16 => usbCrc16ByteLoop
    | usbCrc16ByteLoop => usbCrc16LoopTest
    | usbCrc16LoopTest => usbCrc16LoopTest
  flash _ := 0
  input _ := none

/-- The registers after eight zero bits: the high byte moves down, and the low
byte is replaced by what it feeds back. -/
theorem crcBits_byte (h l : BitVec 8) :
    crcBits poly (h ++ l) (List.replicate 8 false) =
      (0#8 ++ h) ^^^ crcBits poly (0#8 ++ l) (List.replicate 8 false) := by
  have hhigh : ∀ h : BitVec 8, crcBits poly (h ++ 0#8) (List.replicate 8 false) = 0#8 ++ h := by
    decide +kernel
  have hsplit : h ++ l = (h ++ 0#8) ^^^ (0#8 ++ l) := by
    rw [BitVec.xor_append, BitVec.xor_zero, BitVec.zero_xor]
  rw [hsplit, ← hhigh h]
  exact crcBits_xor poly (h ++ 0#8) (0#8 ++ l) (Eq.refl (List.replicate 8 false).length)

/-- What the low byte feeds back, as the shifts in the code compute it from the
parity in the lowest bit. -/
theorem crcBits_low (l : BitVec 8) :
    let parity := (((l.rotateLeft 4 ^^^ l) >>> 2 ^^^ (l.rotateLeft 4 ^^^ l)) + 1#8) >>> 1 &&& 1#8
    crcBits poly (0#8 ++ l) (List.replicate 8 false) =
      (-parity &&& 192#8 ^^^ l >>> 1 ^^^ l >>> 2) ++
        (parity ^^^ rotateRight l[0] 0#8 ^^^ rotateRight l[1] (rotateRight l[0] 0#8)) := by
  revert l
  decide +kernel

/-- Both variants may use these registers. -/
abbrev clobbered : List Reg := scratch :: UsbCrc16.clobbered

/-- The byte in the low register is folded into the sixteen bits. -/
theorem fold {s : Cpu FastCrcLabel} (hpc : s.pc = (usbCrc16ByteLoop, 2)) :
    Reaches fastCrcCode s fun s' => s'.pc = (usbCrc16LoopTest, 0) ∧
      s'.reg resCrcH ++ s'.reg resCrcL =
        crcBits poly (s.reg resCrcH ++ s.reg resCrcL) (List.replicate 8 false) ∧
      Frame [byte, scratch, resCrcL, resCrcH] s s' := by
  obtain ⟨reg, carry, zero, t, sram, io, outs, cycles, pc, stack, saved⟩ := s
  cases hpc
  refine ⟨25, ?_⟩
  generalize hs' : fastCrcCode.step^[25] _ = s'
  simp [fastCrcCode] at hs'
  subst hs'
  refine ⟨rfl, ?_, ?_, rfl, rfl, rfl, rfl, rfl⟩
  · dsimp only
    rw [crcBits_byte, crcBits_low, BitVec.xor_append, BitVec.zero_xor]
    simp only [BitVec.xor_assoc]
    simp
  · intro r hr
    simp at hr
    simp [hr]

/-- `n` bytes of `len` to go. -/
structure Remaining (s₀ : Cpu FastCrcLabel) (p : BitVec 16) (len n : Nat)
    (s : Cpu FastCrcLabel) : Prop where
  le : n ≤ len
  pc : s.pc = (usbCrc16LoopTest, 0)
  argLen : s.reg argLen = BitVec.ofNat 8 n
  x : s.x = p + BitVec.ofNat 16 (len - n)
  res : s.reg resCrcH ++ s.reg resCrcL = crc16Register (bytesAt s₀.sram p (len - n))
  frame : Frame clobbered s₀ s

section Routine

variable {s₀ s : Cpu FastCrcLabel}

theorem byteRound {p : BitVec 16} {len n : Nat} (hlen : len ≤ 255) (hp : 0x60 ≤ p.toNat)
    (hend : p.toNat + len ≤ 65536) (h : Remaining s₀ p len (n + 1) s) :
    Reaches fastCrcCode s (Remaining s₀ p len n) := by
  obtain ⟨hle, hpc, harg, hx, hres, hframe⟩ := h
  obtain ⟨reg, carry, zero, t, sram, io, outs, cycles, pc, stack, saved⟩ := s
  cases hpc
  dsimp only at harg hres
  simp only [Cpu.x] at hx
  have hcarry : (reg 22#5).ult 1#8 = false := by
    rw [show reg 22#5 = BitVec.ofNat 8 (n + 1) from harg]
    simp [BitVec.ult]
    omega
  have hnext : reg 22#5 - 1#8 = BitVec.ofNat 8 n := by
    rw [show reg 22#5 = BitVec.ofNat 8 (n + 1) from harg, BitVec.ofNat_add, BitVec.add_sub_cancel]
  have hsram : 0x60 ≤ (reg 27#5 ++ reg 26#5).toNat := by
    rw [hx, BitVec.toNat_add_of_lt] <;> simp <;> omega
  refine .steps 4 ?_
  generalize hs' : fastCrcCode.step^[4] _ = s'
  simp [fastCrcCode, hcarry, load_sram, hsram] at hs'
  refine (fold (by rw [← hs'])).mono ?_
  rintro s₂ ⟨hpc₂, hres₂, hframe₂⟩
  have hs'_frame : Frame clobbered s₀ s' := by
    refine hframe.trans ?_
    subst hs'
    refine ⟨?_, rfl, rfl, rfl, rfl, rfl⟩
    intro r hr
    simp at hr
    simp [hr]
  refine ⟨by omega, hpc₂, ?_, ?_, ?_, hs'_frame.trans (hframe₂.mono (by simp))⟩
  · rw [hframe₂.reg argLen (by simp), ← hs']
    simpa using hnext
  · rw [Cpu.x, hframe₂.reg ptrH (by simp), hframe₂.reg ptrL (by simp), ← hs']
    simp [append_extract]
    rw [hx, show len - n = len - (n + 1) + 1 by omega, BitVec.ofNat_add, BitVec.add_assoc]
  · have hregs : s'.reg resCrcH ++ s'.reg resCrcL =
        (reg resCrcH ++ reg resCrcL) ^^^ (sram (reg 27#5 ++ reg 26#5)).setWidth 16 := by
      have hwide : (sram (reg 27#5 ++ reg 26#5)).setWidth 16 = 0#8 ++ sram (reg 27#5 ++ reg 26#5) :=
        BitVec.setWidth_eq_append (by decide)
      rw [hwide, BitVec.xor_append, BitVec.xor_zero, ← hs']
      simp
    rw [hres₂, hregs, hres, ← crcBits_lsbFirst (by omega),
      show len - n = len - (n + 1) + 1 by omega,
      bytesAt_succ, crc16Register_append, hx, ← hframe.sram]

theorem init (p : BitVec 16) (len : Nat) (hp : s.reg argPtrH ++ s.reg argPtrL = p)
    (hlen : (s.reg argLen).toNat = len) (hpc : s.pc = (usbCrc16, 0)) :
    Reaches fastCrcCode s (Remaining s p len len) := by
  obtain ⟨reg, carry, zero, t, sram, io, outs, cycles, pc, stack, saved⟩ := s
  cases hpc
  subst hp hlen
  refine ⟨5, ?_⟩
  generalize hs' : fastCrcCode.step^[5] _ = s'
  simp [fastCrcCode] at hs'
  subst hs'
  refine ⟨le_rfl, rfl, by simp, by simp, ?_, ?_⟩
  · simp [crc16Register, bytesAt, crcBits]
  · refine ⟨?_, rfl, rfl, rfl, rfl, rfl⟩
    intro r hr
    simp at hr
    simp [hr]

theorem ready {p : BitVec 16} {len : Nat} (h : Remaining s₀ p len 0 s) {back : FastCrcLabel × Nat}
    {stack : List (FastCrcLabel × Nat)} (hstack : s₀.stack = back :: stack) :
    Reaches fastCrcCode s fun s' => s'.pc = back ∧ s'.x = p + BitVec.ofNat 16 len ∧
      s'.reg resCrcH ++ s'.reg resCrcL = crc16 (bytesAt s₀.sram p len) ∧
      Frame clobbered { s₀ with stack := stack } s' := by
  obtain ⟨-, hpc, harg, hx, hres, hframe⟩ := h
  have hstack' := hframe.stack.trans hstack
  obtain ⟨reg, carry, zero, t, sram, io, outs, cycles, pc, stack', saved⟩ := s
  cases hpc
  cases hstack'
  dsimp only at harg hres
  refine ⟨5, ?_⟩
  generalize hs' : fastCrcCode.step^[5] _ = s'
  simp [fastCrcCode, harg] at hs'
  subst hs'
  refine ⟨rfl, by simpa using hx, ?_, ?_, hframe.sram, hframe.io, hframe.outs, rfl, hframe.saved⟩
  · have hcrc : ~~~(reg 25#5 ++ reg 24#5) = crc16 (bytesAt s₀.sram p len) := congrArg (~~~·) hres
    rw [← hcrc]
    refine Eq.trans ?_ BitVec.not_append.symm
    simp
  · intro r hr
    rw [← hframe.reg r hr]
    simp at hr
    simp [hr]

/-- The fast variant meets the same contract. -/
theorem fastUsbCrc16_returns {p : BitVec 16} {len : Nat} {back : FastCrcLabel × Nat}
    {stack : List (FastCrcLabel × Nat)} (hpc : s.pc = (usbCrc16, 0))
    (hstack : s.stack = back :: stack) (hptr : s.reg argPtrH ++ s.reg argPtrL = p)
    (hlen : (s.reg argLen).toNat = len) (hp : 0x60 ≤ p.toNat) (hend : p.toNat + len ≤ 65536) :
    Reaches fastCrcCode s fun s' => s'.pc = back ∧ s'.x = p + BitVec.ofNat 16 len ∧
      s'.reg resCrcH ++ s'.reg resCrcL = crc16 (bytesAt s.sram p len) ∧
      Frame clobbered { s with stack := stack } s' := by
  have hle : len ≤ 255 := by omega
  refine (init p len hptr hlen hpc).bind ?_
  intro s₁ h₁
  refine (Reaches.loop (Remaining s p len) (fun n s => byteRound hle hp hend) h₁).bind ?_
  intro s₂ h₂
  exact ready h₂ hstack

/-- Called with the same arguments on the same memory, the two variants return
the same: the CRC of the bytes. -/
theorem variants_agree {s : Cpu CrcLabel} {t : Cpu FastCrcLabel} {p : BitVec 16} {len : Nat}
    {back : CrcLabel × Nat} {stack : List (CrcLabel × Nat)} {back' : FastCrcLabel × Nat}
    {stack' : List (FastCrcLabel × Nat)} (hpc : s.pc = (CrcLabel.usbCrc16, 0))
    (hpc' : t.pc = (usbCrc16, 0)) (hstack : s.stack = back :: stack)
    (hstack' : t.stack = back' :: stack') (hptr : s.reg argPtrH ++ s.reg argPtrL = p)
    (hlen : (s.reg argLen).toNat = len) (hp : 0x60 ≤ p.toNat) (hend : p.toNat + len ≤ 65536)
    (hreg : t.reg = s.reg) (hsram : t.sram = s.sram) :
    Reaches crcCode s fun s' => s'.pc = back ∧
      s'.reg resCrcH ++ s'.reg resCrcL = crc16 (bytesAt s.sram p len) ∧
      Reaches fastCrcCode t fun t' => t'.pc = back' ∧ t'.sram = s'.sram ∧ t'.x = s'.x ∧
        t'.reg resCrcH ++ t'.reg resCrcL = s'.reg resCrcH ++ s'.reg resCrcL ∧
        ∀ r ∉ clobbered, t'.reg r = s'.reg r := by
  refine (usbCrc16_returns hpc hstack hptr hlen hp hend).mono ?_
  rintro s' ⟨hback, hx, hres, hframe⟩
  refine ⟨hback, hres, ?_⟩
  have hfast := fastUsbCrc16_returns hpc' hstack' (p := p) (by rwa [hreg]) (hreg ▸ hlen) hp hend
  refine hfast.mono ?_
  rintro t' ⟨hback', hx', hres', hframe'⟩
  have hmem : t'.sram = s'.sram := (hframe'.sram.trans hsram).trans hframe.sram.symm
  refine ⟨hback', hmem, hx'.trans hx.symm, ?_, ?_⟩
  · rw [hres', hres, hsram]
  · intro r hr
    have hkept : s'.reg r = s.reg r := hframe.reg r fun h => hr (List.mem_cons_of_mem _ h)
    exact (hframe'.reg r hr).trans ((congrFun hreg r).trans hkept.symm)

theorem variants_agree_three :
    Reaches crcCode (called CrcLabel.usbCrc16 .usbCrcReady 0x62#16 3#8) fun s' =>
      s'.reg resCrcH ++ s'.reg resCrcL = crc16 [0x62#8, 0x63#8, 0x64#8] ∧
      Reaches fastCrcCode (called usbCrc16 usbCrc16LoopTest 0x62#16 3#8) fun t' =>
        t'.reg resCrcH ++ t'.reg resCrcL = s'.reg resCrcH ++ s'.reg resCrcL := by
  have hagree := variants_agree (s := called .usbCrc16 .usbCrcReady 0x62#16 3#8)
    (t := called usbCrc16 usbCrc16LoopTest 0x62#16 3#8) (p := 0x62#16) rfl rfl rfl rfl rfl rfl
    (by decide) (by decide) rfl rfl
  refine hagree.mono ?_
  rintro s' ⟨-, hvalue, hfast⟩
  refine ⟨hvalue, hfast.mono ?_⟩
  rintro t' ⟨-, -, -, hres, -⟩
  exact hres

end Routine

end NesMiniAdapter.UsbFastCrc16
