import NesMiniAdapter.AvrMachine
import NesMiniAdapter.Crc

/-!
The CRC routines of `usbdrv/usbdrvasm.S`, with the register assignments for gcc:
`usbCrc16` in the version that is configured and in the fast one, and
`usbCrc16Append`.
-/

namespace NesMiniAdapter.UsbCrc16

open NesMiniAdapter.Crc
open NesMiniAdapter.AvrMachine

@[simp] abbrev argLen : Reg := 22#5
@[simp] abbrev argPtrL : Reg := 24#5
@[simp] abbrev argPtrH : Reg := 25#5
@[simp] abbrev resCrcL : Reg := 24#5
@[simp] abbrev resCrcH : Reg := 25#5
@[simp] abbrev ptrL : Reg := 26#5
@[simp] abbrev ptrH : Reg := 27#5
@[simp] abbrev byte : Reg := 18#5
@[simp] abbrev bitCnt : Reg := 19#5
@[simp] abbrev polyL : Reg := 20#5
@[simp] abbrev polyH : Reg := 21#5
@[simp] abbrev scratch : Reg := 23#5

inductive CrcLabel where
  | usbCrc16
  | usbCrcByteLoop
  | usbCrcBitLoop
  | usbCrcNoXor
  | usbCrcLoopEntry
  | usbCrcReady
  | usbCrc16Append
  deriving DecidableEq, Repr

open CrcLabel

/-- The code under `USB_USE_FAST_CRC == 0`. -/
def crcCode : Code CrcLabel where
  block
    | usbCrc16 =>
        [.mov ptrL argPtrL, .mov ptrH argPtrH, .ldi resCrcL 0, .ldi resCrcH 0,
          .ldi polyL 0x01, .ldi polyH 0xA0, .com argLen, .ldi bitCnt 0, .rjmp usbCrcLoopEntry]
    | usbCrcByteLoop => [.ldXInc byte, .eor resCrcL byte]
    | usbCrcBitLoop =>
        [.ror resCrcH, .ror resCrcL, .brcs usbCrcNoXor, .eor resCrcL polyL, .eor resCrcH polyH]
    | usbCrcNoXor => [.subi bitCnt 224, .brcs usbCrcBitLoop]
    | usbCrcLoopEntry => [.subi argLen (-1), .brcs usbCrcByteLoop]
    | usbCrcReady => [.ret]
    | usbCrc16Append => [.rcall usbCrc16, .stXInc resCrcL, .stXInc resCrcH, .ret]
  next
    | usbCrc16 => usbCrcByteLoop
    | usbCrcByteLoop => usbCrcBitLoop
    | usbCrcBitLoop => usbCrcNoXor
    | usbCrcNoXor => usbCrcLoopEntry
    | usbCrcLoopEntry => usbCrcReady
    | usbCrcReady => usbCrc16Append
    | usbCrc16Append => usbCrc16Append
  flash _ := 0
  input _ := none

/-- The CRC of a list of bytes, low byte first on the line. -/
def poly : BitVec 16 := 0xA001#16

def crc16Register (bytes : List (BitVec 8)) : BitVec 16 :=
  crcBits poly (BitVec.allOnes 16) (bytes.flatMap lsbFirst)

def crc16 (bytes : List (BitVec 8)) : BitVec 16 := ~~~crc16Register bytes

theorem crc16Register_append (bytes : List (BitVec 8)) (byte : BitVec 8) :
    crc16Register (bytes ++ [byte]) = crcBits poly (crc16Register bytes) (lsbFirst byte) := by
  rw [crc16Register, List.flatMap_append, crcBits_append]
  simp [crc16Register]

/-- The CRC is sent low byte first. -/
def withCrc (bytes : List (BitVec 8)) : List (BitVec 8) :=
  bytes ++ [(crc16 bytes).extractLsb' 0 8, (crc16 bytes).extractLsb' 8 8]

/-- The check that a receiver makes on the bits of a packet and its CRC. -/
def Intact (bits : List Bool) : Prop := crcBits poly (BitVec.allOnes 16) bits = residue poly

instance (bits : List Bool) : Decidable (Intact bits) := inferInstanceAs (Decidable (_ = _))

/-- The flipped bits are up to three in a packet of at most 80 bits, or lie within
16 bits of one another. -/
def Detectable (errors : List Bool) : Prop :=
  true ∈ errors ∧ (errors.length ≤ 80 ∧ errors.count true ≤ 3 ∨
    ∃ n burst m, errors = List.replicate n false ++ burst ++ List.replicate m false ∧
      burst.length ≤ 16)

theorem intact_withCrc (bytes : List (BitVec 8)) : Intact ((withCrc bytes).flatMap lsbFirst) := by
  have hsplit : ∀ crc : BitVec 16,
      lsbFirst (crc.extractLsb' 0 8) ++ lsbFirst (crc.extractLsb' 8 8) = lsbFirst crc := by
    intro crc
    simp [lsbFirst, List.range_succ]
  have hbits : (withCrc bytes).flatMap lsbFirst =
      bytes.flatMap lsbFirst ++ lsbFirst (crc16 bytes) := by
    rw [withCrc, List.flatMap_append, ← hsplit]
    simp
  rw [Intact, hbits, crcBits_append, crcBits_eq_residue_iff (by decide) (by decide)]
  rfl

theorem not_intact {sent received : List Bool} (hsent : Intact sent)
    (hlength : sent.length = received.length)
    (herrors : Detectable (List.zipWith xor sent received)) : ¬ Intact received := by
  intro hreceived
  have hzero := (crcBits_eq_iff hlength).mp (hsent.trans hreceived.symm)
  obtain ⟨htrue, ⟨hshort, hcount⟩ | ⟨n, burst, m, hburst, hle⟩⟩ := herrors
  · have hpairs : ∀ n < 79,
        crcBits poly 0#16 (true :: List.replicate n false ++ [true]) ≠ 0#16 := by
      decide +kernel
    rw [crcBits_weight (by decide) (by decide) (by decide) hpairs hshort hcount hzero] at htrue
    simp at htrue
  · rw [hburst] at hzero htrue
    rw [crcBits_burst (by decide) (by decide) hle n m hzero] at htrue
    simp at htrue

/-- The state in which a routine is called, with its arguments in their registers
and a memory of ascending bytes. -/
def called {L : Type} (routine back : L) (p : BitVec 16) (len : BitVec 8) : Cpu L where
  reg r :=
    if r = argPtrH then p.extractLsb' 8 8
    else if r = argPtrL then p.extractLsb' 0 8
    else if r = argLen then len else 0#8
  carry := false
  zero := false
  t := false
  sram a := a.setWidth 8
  io _ := 0#8
  outs := []
  cycles := 0
  pc := (routine, 0)
  stack := [(back, 0)]
  saved := []

section Routine

variable {s₀ s : Cpu CrcLabel} {crc : BitVec 16}

/-- The registers between two bits: the complement of `crc`, the polynomial, and
nothing else changed but the counter. -/
structure Holds (s₀ : Cpu CrcLabel) (crc : BitVec 16) (s : Cpu CrcLabel) : Prop where
  res : s.reg resCrcH ++ s.reg resCrcL = ~~~crc
  polyL : s.reg polyL = 0x01#8
  polyH : s.reg polyH = 0xA0#8
  frame : Frame [bitCnt, resCrcL, resCrcH] s₀ s

/-- The pair of rotations moves the register down, with a one at the top. -/
theorem ror_ror {h l : BitVec 8} (hres : h ++ l = ~~~crc) :
    rotateRight true h ++ rotateRight (h.getLsbD 0) l = ~~~(crc >>> 1) := by
  rw [← BitVec.not_not (b := crc), ← hres]
  apply BitVec.eq_of_getLsbD_eq
  intro i hi
  simp only [BitVec.getLsbD_append, getLsbD_rotateRight, BitVec.getLsbD_not,
    BitVec.getLsbD_ushiftRight]
  have hcases : i < 7 ∨ i = 7 ∨ 8 ≤ i ∧ i < 15 ∨ i = 15 := by omega
  rcases hcases with h | rfl | ⟨h, h'⟩ | rfl
  · simp [show i < 8 by omega, show i ≠ 7 by omega, show 1 + i < 8 by omega, hi,
      show 1 + i < 16 by omega]
  · simp
  · simp [show ¬ i < 8 by omega, show i - 8 ≠ 7 by omega, show ¬ 1 + i < 8 by omega, hi,
      show 1 + i < 16 by omega, show 1 + i - 8 = 1 + (i - 8) by omega]
  · simp

theorem append_xor_setWidth {h l : BitVec 8} (hres : h ++ l = ~~~crc) (b : BitVec 8) :
    h ++ (l ^^^ b) = ~~~(crc ^^^ b.setWidth 16) := by
  have hwide : b.setWidth 16 = 0#8 ++ b := BitVec.setWidth_eq_append (by decide)
  rw [hwide, BitVec.not_xor_left, ← hres, BitVec.xor_append, BitVec.xor_zero]

theorem resCrcL_getLsbD {h l : BitVec 8} (hres : h ++ l = ~~~crc) :
    l.getLsbD 0 = !crc.getLsbD 0 := by
  have hbit := congrArg (BitVec.getLsbD · 0) hres
  rw [BitVec.getLsbD_append] at hbit
  simpa using hbit

theorem bitLoop (h : Holds s₀ crc s) (hpc : s.pc = (usbCrcBitLoop, 0)) (hcarry : s.carry = true) :
    Reaches crcCode s fun s' => s'.pc = (usbCrcNoXor, 0) ∧ s'.reg bitCnt = s.reg bitCnt ∧
      Holds s₀ (crcBit poly crc false) s' := by
  obtain ⟨hres, hpolyL, hpolyH, hframe⟩ := h
  obtain ⟨reg, carry, zero, t, sram, io, outs, cycles, pc, stack, saved⟩ := s
  cases hpc
  cases hcarry
  have hbit : (reg 24#5)[0] = !crc.getLsbD 0 := resCrcL_getLsbD hres
  have hshift := ror_ror hres
  cases hlow : crc.getLsbD 0 with
  | false =>
      rw [hlow] at hbit
      refine ⟨3, ?_⟩
      generalize hs' : crcCode.step^[3] _ = s'
      simp [crcCode, hbit] at hs'
      subst hs'
      refine ⟨rfl, by simp, ?_, by simpa using hpolyL, by simpa using hpolyH, hframe.trans ?_⟩
      · rw [crcBit, feed, hlow]
        simpa using hshift
      · refine ⟨?_, rfl, rfl, rfl, rfl, rfl⟩
        intro r hr
        simp at hr
        simp [hr]
  | true =>
      rw [hlow] at hbit
      refine ⟨5, ?_⟩
      generalize hs' : crcCode.step^[5] _ = s'
      simp [crcCode, hbit] at hs'
      subst hs'
      refine ⟨rfl, by simp, ?_, by simpa using hpolyL, by simpa using hpolyH, hframe.trans ?_⟩
      · have hpoly : reg 21#5 ++ reg 20#5 = poly := by
          rw [show reg 21#5 = 0xA0#8 from hpolyH, show reg 20#5 = 0x01#8 from hpolyL]
          rfl
        rw [crcBit, feed, hlow]
        refine BitVec.xor_append.symm.trans ?_
        refine (congrArg₂ (· ^^^ ·) hshift hpoly).trans ?_
        exact BitVec.not_xor_left.symm
      · refine ⟨?_, rfl, rfl, rfl, rfl, rfl⟩
        intro r hr
        simp at hr
        simp [hr]

/-- `n` rounds to go for the byte in the register, which will be `target`. -/
structure Round (s₀ : Cpu CrcLabel) (target : BitVec 16) (n : Nat) (s : Cpu CrcLabel) :
    Prop where
  le : n ≤ 8
  pc : s.pc = if n = 0 then (usbCrcLoopEntry, 0) else (usbCrcBitLoop, 0)
  carry : s.carry = decide (n ≠ 0)
  bitCnt : s.reg bitCnt = -BitVec.ofNat 8 (32 * n)
  holds : ∃ crc, Holds s₀ crc s ∧ crcBits poly crc (List.replicate n false) = target

theorem bitCnt_count {n : Nat} (hn : n < 8) :
    -BitVec.ofNat 8 (32 * (n + 1)) - 224#8 = -BitVec.ofNat 8 (32 * n) ∧
      (-BitVec.ofNat 8 (32 * (n + 1))).ult 224#8 = decide (n ≠ 0) := by
  revert n
  decide

theorem noXor {n : Nat} {target : BitVec 16} (hn : n < 8) (h : Holds s₀ crc s)
    (htarget : crcBits poly crc (List.replicate n false) = target)
    (hpc : s.pc = (usbCrcNoXor, 0)) (hcnt : s.reg bitCnt = -BitVec.ofNat 8 (32 * (n + 1))) :
    Reaches crcCode s (Round s₀ target n) := by
  obtain ⟨hres, hpolyL, hpolyH, hframe⟩ := h
  obtain ⟨reg, carry, zero, t, sram, io, outs, cycles, pc, stack, saved⟩ := s
  cases hpc
  obtain ⟨hnext, hcarry⟩ := bitCnt_count hn
  dsimp only at hcnt hres hpolyL hpolyH
  rw [← hcnt] at hnext hcarry
  have hholds : ∀ zero cycles pc, Holds s₀ crc ⟨Function.update reg 19#5 (reg 19#5 - 224#8),
      decide (n ≠ 0), zero, t, sram, io, outs, cycles, pc, stack, saved⟩ := by
    intro zero cycles pc
    refine ⟨by simpa using hres, by simpa using hpolyL, by simpa using hpolyH, hframe.trans ?_⟩
    refine ⟨?_, rfl, rfl, rfl, rfl, rfl⟩
    intro r hr
    simp at hr
    simp [hr]
  refine ⟨2, ?_⟩
  generalize hs' : crcCode.step^[2] _ = s'
  cases n with
  | zero =>
      simp [crcCode, hcarry] at hs'
      subst hs'
      exact ⟨Nat.zero_le _, rfl, rfl, by simpa using hnext, crc, hholds .., htarget⟩
  | succ n =>
      simp [crcCode, hcarry] at hs'
      subst hs'
      exact ⟨by omega, rfl, by simp, by simpa using hnext, crc, hholds .., htarget⟩

theorem round {target : BitVec 16} {n : Nat} (h : Round s₀ target (n + 1) s) :
    Reaches crcCode s (Round s₀ target n) := by
  obtain ⟨hle, hpc, hcarry, hcnt, crc, hholds, htarget⟩ := h
  refine (bitLoop hholds (by simpa using hpc) (by simpa using hcarry)).bind ?_
  rintro s₁ ⟨hpc₁, hcnt₁, hholds₁⟩
  exact noXor (by omega) hholds₁ htarget hpc₁ (hcnt₁.trans hcnt)

abbrev clobbered : List Reg :=
  [byte, bitCnt, polyL, polyH, argLen, resCrcL, resCrcH, ptrL, ptrH]

/-- `n` bytes of `len` to go. -/
structure Remaining (s₀ : Cpu CrcLabel) (p : BitVec 16) (len n : Nat) (s : Cpu CrcLabel) :
    Prop where
  le : n ≤ len
  pc : s.pc = (usbCrcLoopEntry, 0)
  argLen : s.reg argLen = ~~~BitVec.ofNat 8 n
  bitCnt : s.reg bitCnt = 0#8
  x : s.x = p + BitVec.ofNat 16 (len - n)
  res : s.reg resCrcH ++ s.reg resCrcL = ~~~crc16Register (bytesAt s₀.sram p (len - n))
  polyL : s.reg polyL = 0x01#8
  polyH : s.reg polyH = 0xA0#8
  frame : Frame clobbered s₀ s

theorem argLen_count {n : Nat} (hn : n < 255) :
    ~~~BitVec.ofNat 8 (n + 1) - 255#8 = ~~~BitVec.ofNat 8 n ∧
      (~~~BitVec.ofNat 8 (n + 1)).ult 255#8 = true := by
  constructor
  · apply BitVec.eq_of_toNat_eq
    simp
    omega
  · simp [BitVec.ult]
    omega

theorem byteRound {p : BitVec 16} {len n : Nat} (hlen : len ≤ 255) (hp : 0x60 ≤ p.toNat)
    (hend : p.toNat + len ≤ 65536) (h : Remaining s₀ p len (n + 1) s) :
    Reaches crcCode s (Remaining s₀ p len n) := by
  obtain ⟨hle, hpc, harg, hcnt, hx, hres, hpolyL, hpolyH, hframe⟩ := h
  obtain ⟨reg, carry, zero, t, sram, io, outs, cycles, pc, stack, saved⟩ := s
  cases hpc
  obtain ⟨hnext, hcarry⟩ := argLen_count (n := n) (by omega)
  dsimp only at harg hcnt hres hpolyL hpolyH
  rw [← harg] at hnext hcarry
  simp only [Cpu.x] at hx
  have hsram : 0x60 ≤ (reg 27#5 ++ reg 26#5).toNat := by
    rw [hx, BitVec.toNat_add_of_lt] <;> simp <;> omega
  refine .steps 4 ?_
  generalize hs' : crcCode.step^[4] _ = s'
  simp [crcCode, hcarry, load_sram, hsram] at hs'
  have hround : Round s' (crc16Register (bytesAt s₀.sram p (len - n))) 8 s' := by
    subst hs'
    refine ⟨le_rfl, rfl, rfl, by simpa using hcnt,
      crc16Register (bytesAt s₀.sram p (len - (n + 1))) ^^^
        (sram (reg 27#5 ++ reg 26#5)).setWidth 16,
      ⟨?_, by simpa using hpolyL, by simpa using hpolyH, .refl _ _⟩, ?_⟩
    · simpa using append_xor_setWidth hres (sram (reg 27#5 ++ reg 26#5))
    · rw [show len - n = len - (n + 1) + 1 by omega, bytesAt_succ, crc16Register_append,
        crcBits_lsbFirst (by omega), hx, ← hframe.sram]
  refine (Reaches.loop (Round s' _) (fun n s => round) hround).mono ?_
  rintro s₂ ⟨-, hpc₂, -, hcnt₂, crc', ⟨hres₂, hpolyL₂, hpolyH₂, hframe₂⟩, hcrc'⟩
  have hs'_frame : Frame clobbered s₀ s' := by
    refine hframe.trans ?_
    subst hs'
    refine ⟨?_, rfl, rfl, rfl, rfl, rfl⟩
    intro r hr
    simp at hr
    simp [hr]
  refine ⟨by omega, hpc₂, ?_, hcnt₂, ?_, ?_, hpolyL₂, hpolyH₂,
    hs'_frame.trans (hframe₂.mono (by simp))⟩
  · rw [hframe₂.reg argLen (by simp), ← hs']
    simpa using hnext
  · rw [Cpu.x, hframe₂.reg ptrH (by simp), hframe₂.reg ptrL (by simp), ← hs']
    simp [append_extract]
    rw [hx, show len - n = len - (n + 1) + 1 by omega, BitVec.ofNat_add, BitVec.add_assoc]
  · rw [hres₂, show crc' = _ from hcrc']

theorem init (p : BitVec 16) (len : Nat) (hp : s.reg argPtrH ++ s.reg argPtrL = p)
    (hlen : (s.reg argLen).toNat = len) (hpc : s.pc = (usbCrc16, 0)) :
    Reaches crcCode s (Remaining s p len len) := by
  obtain ⟨reg, carry, zero, t, sram, io, outs, cycles, pc, stack, saved⟩ := s
  cases hpc
  subst hp hlen
  refine ⟨9, ?_⟩
  generalize hs' : crcCode.step^[9] _ = s'
  simp [crcCode] at hs'
  subst hs'
  refine ⟨le_rfl, rfl, by simp, rfl, by simp, ?_, rfl, rfl, ?_⟩
  · simp [crc16Register, bytesAt, crcBits]
  · refine ⟨?_, rfl, rfl, rfl, rfl, rfl⟩
    intro r hr
    simp at hr
    simp [hr]

theorem ready {p : BitVec 16} {len : Nat} (h : Remaining s₀ p len 0 s) {back : CrcLabel × Nat}
    {stack : List (CrcLabel × Nat)} (hstack : s₀.stack = back :: stack) :
    Reaches crcCode s fun s' => s'.pc = back ∧ s'.x = p + BitVec.ofNat 16 len ∧
      s'.reg resCrcH ++ s'.reg resCrcL = crc16 (bytesAt s₀.sram p len) ∧
      Frame clobbered { s₀ with stack := stack } s' := by
  obtain ⟨-, hpc, harg, -, hx, hres, -, -, hframe⟩ := h
  have hstack' := hframe.stack.trans hstack
  obtain ⟨reg, carry, zero, t, sram, io, outs, cycles, pc, stack', saved⟩ := s
  cases hpc
  cases hstack'
  dsimp only at harg
  refine ⟨3, ?_⟩
  generalize hs' : crcCode.step^[3] _ = s'
  simp [crcCode, harg] at hs'
  subst hs'
  refine ⟨rfl, by simpa using hx, by simpa [crc16] using hres, ?_, hframe.sram, hframe.io,
    hframe.outs, rfl, hframe.saved⟩
  intro r hr
  rw [← hframe.reg r hr]
  simp at hr
  simp [hr]

/-- From any call on memory, `usbCrc16` returns the CRC of `len` bytes from `p`,
and its pointer after them. -/
theorem usbCrc16_returns {p : BitVec 16} {len : Nat} {back : CrcLabel × Nat}
    {stack : List (CrcLabel × Nat)} (hpc : s.pc = (usbCrc16, 0)) (hstack : s.stack = back :: stack)
    (hptr : s.reg argPtrH ++ s.reg argPtrL = p) (hlen : (s.reg argLen).toNat = len)
    (hp : 0x60 ≤ p.toNat) (hend : p.toNat + len ≤ 65536) :
    Reaches crcCode s fun s' => s'.pc = back ∧ s'.x = p + BitVec.ofNat 16 len ∧
      s'.reg resCrcH ++ s'.reg resCrcL = crc16 (bytesAt s.sram p len) ∧
      Frame clobbered { s with stack := stack } s' := by
  have hle : len ≤ 255 := by omega
  refine (init p len hptr hlen hpc).bind ?_
  intro s₁ h₁
  refine (Reaches.loop (Remaining s p len) (fun n s => byteRound hle hp hend) h₁).bind ?_
  intro s₂ h₂
  exact ready h₂ hstack

/-- `usbCrc16Append` writes the CRC of `len` bytes from `p` after them, and
nothing else. -/
theorem usbCrc16Append_returns {p : BitVec 16} {len : Nat} {back : CrcLabel × Nat}
    {stack : List (CrcLabel × Nat)} (hpc : s.pc = (usbCrc16Append, 0))
    (hstack : s.stack = back :: stack) (hptr : s.reg argPtrH ++ s.reg argPtrL = p)
    (hlen : (s.reg argLen).toNat = len) (hp : 0x60 ≤ p.toNat) (hend : p.toNat + len + 2 ≤ 65536) :
    Reaches crcCode s fun s' => s'.pc = back ∧
      bytesAt s'.sram p (len + 2) = withCrc (bytesAt s.sram p len) ∧
      (∀ a, a ≠ p + BitVec.ofNat 16 len → a ≠ p + BitVec.ofNat 16 (len + 1) →
        s'.sram a = s.sram a) ∧
      Frame clobbered { s with stack := stack, sram := s'.sram } s' := by
  obtain ⟨reg, carry, zero, t, sram, io, outs, cycles, pc, stack', saved⟩ := s
  cases hpc
  cases hstack
  refine .steps 1 ?_
  generalize hs₁ : crcCode.step^[1] _ = s₁
  simp [crcCode] at hs₁
  have hptr₁ : s₁.reg argPtrH ++ s₁.reg argPtrL = p := by rwa [← hs₁]
  have hlen₁ : (s₁.reg argLen).toNat = len := by rwa [← hs₁]
  refine (usbCrc16_returns (by rw [← hs₁]) (by rw [← hs₁]) hptr₁ hlen₁ hp (by omega)).bind ?_
  rintro s₂ ⟨hpc₂, hx₂, hres₂, hframe₂⟩
  have hstack₂ := hframe₂.stack
  have hsram₂ := hframe₂.sram
  obtain ⟨reg₂, carry₂, zero₂, t₂, sram₂, io₂, outs₂, cycles₂, pc₂, stack₂, saved₂⟩ := s₂
  cases hpc₂
  cases hstack₂
  simp only [Cpu.x, ← hs₁] at hx₂ hres₂ hsram₂
  subst hsram₂
  have hlow : 0x60 ≤ (p + BitVec.ofNat 16 len).toNat := by
    rw [toNat_add_ofNat (by omega)]
    omega
  have hhigh : 0x60 ≤ (p + BitVec.ofNat 16 len + 1#16).toNat := by
    rw [BitVec.add_assoc, ← BitVec.ofNat_add, toNat_add_ofNat (by omega)]
    omega
  refine ⟨3, ?_⟩
  generalize hs' : crcCode.step^[3] _ = s'
  simp [crcCode, store_sram hlow, store_sram hhigh, hx₂, append_extract] at hs'
  subst hs'
  obtain ⟨hresL, hresH⟩ := extract_append (reg₂ resCrcH) (reg₂ resCrcL)
  rw [hres₂] at hresL hresH
  refine ⟨rfl, ?_, ?_, ?_, rfl, hframe₂.io.trans (by rw [← hs₁]),
    hframe₂.outs.trans (by rw [← hs₁]), rfl,
    hframe₂.saved.trans (by rw [← hs₁])⟩
  · dsimp only
    rw [BitVec.add_assoc, ← BitVec.ofNat_add, bytesAt_update_update (by omega), withCrc, hresL,
      hresH]
  · intro a ha ha'
    rw [BitVec.ofNat_add, ← BitVec.add_assoc] at ha'
    exact (Function.update_of_ne ha' _ _).trans (Function.update_of_ne ha _ _)
  · intro r hr
    have hkept := hframe₂.reg r hr
    rw [← hs₁] at hkept
    simp at hr
    simpa [hr] using hkept

/-- What `usbCrc16Append` leaves behind the packet makes the receiver's check
succeed, and fail on every corruption that is `Detectable`. -/
theorem usbCrc16Append_protects {p : BitVec 16} {len : Nat} {back : CrcLabel × Nat}
    {stack : List (CrcLabel × Nat)} (hpc : s.pc = (usbCrc16Append, 0))
    (hstack : s.stack = back :: stack) (hptr : s.reg argPtrH ++ s.reg argPtrL = p)
    (hlen : (s.reg argLen).toNat = len) (hp : 0x60 ≤ p.toNat) (hend : p.toNat + len + 2 ≤ 65536) :
    Reaches crcCode s fun s' => s'.pc = back ∧
      bytesAt s'.sram p len = bytesAt s.sram p len ∧
      Intact ((bytesAt s'.sram p (len + 2)).flatMap lsbFirst) ∧
      ∀ received : List Bool,
        ((bytesAt s'.sram p (len + 2)).flatMap lsbFirst).length = received.length →
        Detectable (List.zipWith xor ((bytesAt s'.sram p (len + 2)).flatMap lsbFirst) received) →
        ¬ Intact received := by
  refine (usbCrc16Append_returns hpc hstack hptr hlen hp hend).mono ?_
  rintro s' ⟨hpc', hbytes, -, -⟩
  have hintact := intact_withCrc (bytesAt s.sram p len)
  rw [← hbytes] at hintact
  refine ⟨hpc', ?_, hintact, fun received hlength herrors => not_intact hintact hlength herrors⟩
  have htake := congrArg (List.take len) hbytes
  rw [withCrc, List.take_left' (by simp [bytesAt])] at htake
  rw [← htake, bytesAt_succ, bytesAt_succ, List.append_assoc, List.take_left' (by simp [bytesAt])]

theorem zipWith_xor_cancel {sent errors : List Bool} (h : sent.length = errors.length) :
    List.zipWith xor sent (List.zipWith xor sent errors) = errors := by
  induction sent generalizing errors with
  | nil => exact (List.length_eq_zero_iff.mp h.symm).symm
  | cons bit sent ih =>
      cases errors with
      | nil => cases h
      | cons error errors =>
          have hbit : xor bit (xor bit error) = error := by
            cases bit <;> cases error <;> rfl
          rw [List.zipWith_cons_cons, List.zipWith_cons_cons, hbit, ih (Nat.succ.inj h)]

def threeErrors : List Bool :=
  [true] ++ List.replicate 16 false ++ [true] ++ List.replicate 21 false ++ [true]

def burstErrors : List Bool :=
  List.replicate 10 false ++ (List.replicate 11 true ++ [false, true, false, false, true]) ++
    List.replicate 14 false

theorem usbCrc16Append_protects_three :
    Reaches crcCode (called usbCrc16Append usbCrcReady 0x62#16 3#8) fun s' =>
      let sent := (bytesAt s'.sram 0x62#16 5).flatMap lsbFirst
      s'.pc = (usbCrcReady, 0) ∧ bytesAt s'.sram 0x62#16 3 = [0x62#8, 0x63#8, 0x64#8] ∧
      Intact sent ∧ ¬ Intact (List.zipWith xor sent threeErrors) ∧
      ¬ Intact (List.zipWith xor sent burstErrors) := by
  have hlen : ((called usbCrc16Append usbCrcReady 0x62#16 3#8).reg argLen).toNat = 3 := rfl
  refine (usbCrc16Append_protects (p := 0x62#16) rfl rfl rfl hlen (by decide) (by decide)).mono ?_
  rintro s' ⟨hpc, hbytes, hintact, herrors⟩
  have hfails : ∀ errors : List Bool, errors.length = 40 → Detectable errors →
      ¬ Intact (List.zipWith xor ((bytesAt s'.sram 0x62#16 5).flatMap lsbFirst) errors) := by
    intro errors hlen hdetectable
    have hsent : ((bytesAt s'.sram 0x62#16 5).flatMap lsbFirst).length = errors.length :=
      hlen.symm
    apply herrors
    · rw [List.length_zipWith, hsent, Nat.min_self]
    · rw [zipWith_xor_cancel hsent]
      exact hdetectable
  refine ⟨hpc, hbytes, hintact, hfails threeErrors rfl ⟨by decide, .inl ⟨by decide, by decide⟩⟩,
    hfails burstErrors rfl ⟨by decide, .inr ⟨10, _, 14, rfl, by decide⟩⟩⟩

end Routine

end NesMiniAdapter.UsbCrc16
