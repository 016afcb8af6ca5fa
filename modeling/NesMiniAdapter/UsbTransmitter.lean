import NesMiniAdapter.AvrMachine
import NesMiniAdapter.Crc
import NesMiniAdapter.LineCode

/-!
The transmitter of `usbdrv/usbdrvasm165.inc`: the packet in a buffer, or the
handshake in `r0`, as a sequence of writes to the port, each in its cycle.
-/

namespace NesMiniAdapter.UsbTransmitter

open NesMiniAdapter.Crc
open NesMiniAdapter.AvrMachine
open NesMiniAdapter.LineCode

@[simp] abbrev x1 : Reg := 16#5
@[simp] abbrev x2 : Reg := 17#5
@[simp] abbrev shift : Reg := 18#5
@[simp] abbrev cnt : Reg := 19#5
@[simp] abbrev x3 : Reg := 20#5
@[simp] abbrev x4 : Reg := 21#5
@[simp] abbrev bitStatus : Reg := x3
@[simp] abbrev yl : Reg := 28#5
@[simp] abbrev yh : Reg := 29#5

@[simp] abbrev usbOut : Port := 0x18
@[simp] abbrev usbDdr : Port := 0x17
/-- `USB_INTR_PENDING`, which is `GIFR`. -/
@[simp] abbrev usbIntrPending : Port := 0x3A

@[simp] abbrev usbMinus : Nat := 3
@[simp] abbrev usbMask : BitVec 8 := 0x0A
@[simp] abbrev usbIdle : BitVec 8 := 0x08
@[simp] abbrev usbpidAck : BitVec 8 := 0xD2
@[simp] abbrev usbpidNak : BitVec 8 := 0x5A

inductive TxLabel where
  | bitstuff7
  | bitstuff7Nop2
  | bitstuffN
  | sendNakAndReti
  | sendAckAndReti
  | sendCntAndReti
  | usbSendAndReti
  | bitloop
  | didStuffN
  | didStuff7
  | makeSe0
  | skipAddrAssign
  | se0Delay
  | afterSe0
  | doReturn
  deriving DecidableEq, Repr

open TxLabel

/-- The linker places the two variables. What follows `doReturn` is left out. -/
def txCode (usbDeviceAddr usbNewDeviceAddr : BitVec 16) (flash : BitVec 16 → BitVec 8) :
    Code TxLabel where
  block
    | bitstuff7 => [.eor x1 x4, .ldi x2 0, .rjmp bitstuff7Nop2]
    | bitstuff7Nop2 => [.rjmp didStuff7]
    | bitstuffN => [.eor x1 x4, .ldi x2 0, .lpm, .out usbOut x1, .rjmp didStuffN]
    | sendNakAndReti => [.ldi cnt usbpidNak, .rjmp sendCntAndReti]
    | sendAckAndReti => [.ldi cnt usbpidAck]
    | sendCntAndReti => [.mov 0#5 cnt, .ldi yl 0, .ldi yh 0, .ldi cnt 2]
    | usbSendAndReti =>
        [.in x2 usbDdr, .ori x2 usbMask, .sbi usbOut usbMinus, .in x1 usbOut, .out usbDdr x2,
          .ldi x4 usbMask, .ldi shift 0x80, .ldi bitStatus 0xff]
    | bitloop => [.sbrs shift 0, .eor x1 x4, .out usbOut x1, .ror shift, .ror x2]
    | didStuffN =>
        [.cpi x2 0xfc, .brcc bitstuffN, .nop, .subi bitStatus 37, .brcc bitloop, .sbrs shift 0,
          .eor x1 x4, .ror shift]
    | didStuff7 =>
        [.out usbOut x1, .ror x2, .cpi x2 0xfc, .brcc bitstuff7, .ldYInc shift, .dec cnt,
          .brne bitloop]
    | makeSe0 =>
        [.andi x1 (~~~usbMask), .lds x2 usbNewDeviceAddr, .lsl x2, .out usbOut x1, .subi yl 2,
          .sbci yh 0, .breq skipAddrAssign, .sts usbDeviceAddr x2]
    | skipAddrAssign =>
        [.ldi x2 0x20, .out usbIntrPending x2, .ori x1 usbIdle, .in x2 usbDdr,
          .andi x2 (~~~usbMask), .mov x3 x1, .andi x3 (~~~usbMask), .ldi x4 4]
    | se0Delay => [.dec x4, .brne se0Delay]
    | afterSe0 => [.out usbOut x1, .out usbDdr x2, .out usbOut x3, .rjmp doReturn]
    | doReturn => []
  next
    | bitstuff7 => bitstuff7Nop2
    | bitstuff7Nop2 => bitstuffN
    | bitstuffN => sendNakAndReti
    | sendNakAndReti => sendAckAndReti
    | sendAckAndReti => sendCntAndReti
    | sendCntAndReti => usbSendAndReti
    | usbSendAndReti => bitloop
    | bitloop => didStuffN
    | didStuffN => didStuff7
    | didStuff7 => makeSe0
    | makeSe0 => skipAddrAssign
    | skipAddrAssign => se0Delay
    | se0Delay => afterSe0
    | afterSe0 => doReturn
    | doReturn => doReturn
  flash := flash
  input _ := none

/-- The port in one of the two states of the line: J, with D− high, or K. -/
def lineState (base : BitVec 8) (level : Bool) : BitVec 8 :=
  base ^^^ bif level then 0x08#8 else 0x02#8

/-- One write to the port for each level, 11 cycles apart. -/
def lineWrites (base : BitVec 8) (start : Nat) (levels : List Bool) :
    List (Nat × Port × BitVec 8) :=
  levels.mapIdx fun i level => (start + 11 * i, usbOut, lineState base level)

theorem lineState_eor (base : BitVec 8) (level : Bool) :
    lineState base level ^^^ usbMask = lineState base !level := by
  rw [lineState, lineState, BitVec.xor_assoc]
  cases level <;> rfl

theorem lineWrites_append (base : BitVec 8) (start : Nat) (levels levels' : List Bool) :
    lineWrites base start (levels ++ levels') =
      lineWrites base start levels ++ lineWrites base (start + 11 * levels.length) levels' := by
  rw [lineWrites, List.mapIdx_append]
  congr 1
  apply List.ext_getElem
  · simp [lineWrites]
  · intro i _ _
    simp [lineWrites]
    omega

/-- The upper bits of `x2`: a run of ones, and the zero before it. -/
def History (ones : Nat) (v : BitVec 8) : Prop :=
  ones < 6 ∧ (∀ k < ones, v.getLsbD (7 - k) = true) ∧ v.getLsbD (7 - ones) = false

instance (ones : Nat) (v : BitVec 8) : Decidable (History ones v) :=
  inferInstanceAs (Decidable (_ ∧ _))

theorem history_false (v : BitVec 8) :
    History 0 (rotateRight false v) ∧ (rotateRight false v).ult 0xfc#8 = true := by
  revert v
  decide +kernel

theorem history_true {ones : Nat} {v : BitVec 8} (h : History ones v) :
    (rotateRight true v).ult 0xfc#8 = decide (ones + 1 ≠ 6) ∧
      (ones + 1 ≠ 6 → History (ones + 1) (rotateRight true v)) := by
  have hall : ∀ ones < 6, ∀ v : BitVec 8, History ones v →
      (rotateRight true v).ult 0xfc#8 = decide (ones + 1 ≠ 6) ∧
        (ones + 1 ≠ 6 → History (ones + 1) (rotateRight true v)) := by
    decide +kernel
  exact hall ones h.1 v h

theorem rotateRight_zero : rotateRight false 0#8 = 0#8 := by decide

theorem history_stuffed : History 0 0#8 := by decide

/-- What sending leaves as it was, apart from `clobbered`. -/
structure Kept (clobbered : List Reg) (s s' : Cpu TxLabel) : Prop where
  reg : ∀ r ∉ clobbered, s'.reg r = s.reg r
  sram : s'.sram = s.sram
  io : ∀ a, a ≠ usbOut → s'.io a = s.io a
  stack : s'.stack = s.stack
  saved : s'.saved = s.saved

theorem Kept.trans {clobbered : List Reg} {s s₁ s' : Cpu TxLabel} (h : Kept clobbered s s₁)
    (h' : Kept clobbered s₁ s') : Kept clobbered s s' where
  reg r hr := (h'.reg r hr).trans (h.reg r hr)
  sram := h'.sram.trans h.sram
  io a ha := (h'.io a ha).trans (h.io a ha)
  stack := h'.stack.trans h.stack
  saved := h'.saved.trans h.saved

section Bits

variable {usbDeviceAddr usbNewDeviceAddr : BitVec 16} {flash : BitVec 16 → BitVec 8}
  {base : BitVec 8} {level bit : Bool} {ones : Nat} {s : Cpu TxLabel}

/-- From `s` to `s'` the transmitter puts one bit on the line, beginning `delay` cycles
after `s`, and `s'` is `rest` cycles after the last write. -/
structure SendsBit (base : BitVec 8) (level : Bool) (ones delay rest : Nat) (bit : Bool)
    (s s' : Cpu TxLabel) : Prop where
  x1 : s'.reg x1 = lineState base (levelAfter level (stuffBit 6 ones bit))
  history : History (runBit 6 ones bit) (s'.reg x2)
  shift : ∀ i < 7, (s'.reg shift).getLsbD i = (s.reg shift).getLsbD (i + 1)
  outs : s'.outs = s.outs ++ lineWrites base (s.cycles + delay) (nrzi level (stuffBit 6 ones bit))
  cycles : s'.cycles + 11 = s.cycles + delay + 11 * (stuffBit 6 ones bit).length + rest
  r0 : bit = false → s'.reg 0#5 = s.reg 0#5

theorem rotateRight_low {carry : Bool} {v : BitVec 8} {i : Nat} (hi : i < 7) :
    (rotateRight carry v).getLsbD i = v.getLsbD (i + 1) := by
  rw [getLsbD_rotateRight, if_neg (by omega), Nat.add_comm]

theorem bitloop_run (hpc : s.pc = (bitloop, 0)) (hbit : (s.reg shift).getLsbD 0 = bit)
    (hx1 : s.reg x1 = lineState base level) (hx4 : s.reg x4 = usbMask)
    (hhistory : bit = true → History ones (s.reg x2)) :
    Reaches (txCode usbDeviceAddr usbNewDeviceAddr flash) s fun s' => s'.pc = (didStuffN, 3) ∧
      SendsBit base level ones 2 6 bit s s' ∧ Kept [x1, x2, shift, 0#5] s s' := by
  obtain ⟨reg, carry, zero, t, sram, io, outs, cycles, pc, stack, saved⟩ := s
  cases hpc
  have hbit : (reg 18#5)[0] = bit := hbit
  have heor : reg 16#5 ^^^ reg 21#5 = lineState base !level := by
    rw [show reg 16#5 = _ from hx1, show reg 21#5 = _ from hx4, lineState_eor]
  have hx1 : reg 16#5 = lineState base level := hx1
  cases bit with
  | false =>
      obtain ⟨hnext, hcarry⟩ := history_false (reg 17#5)
      refine ⟨8, ?_⟩
      generalize hs' : (txCode usbDeviceAddr usbNewDeviceAddr flash).step^[8] _ = s'
      simp [txCode, hbit, hcarry, heor] at hs'
      subst hs'
      refine ⟨rfl, ⟨?_, ?_, ?_, ?_, ?_, ?_⟩, ?_, rfl, ?_, rfl, rfl⟩
      · simp [levelAfter]
      · simpa using hnext
      · intro i hi
        simpa using rotateRight_low hi
      · simp [nrzi, lineWrites]
      · simp
      · simp
      · intro r hr
        simp at hr
        simp [hr]
      · exact fun a ha => Function.update_of_ne ha _ _
  | true =>
      have hhistory : History ones (reg 17#5) := hhistory rfl
      obtain ⟨hcarry, hnext⟩ := history_true hhistory
      by_cases hstuff : ones + 1 = 6
      · have hcarry : (rotateRight true (reg 17#5)).ult 252#8 = false := by
          rw [hcarry, decide_eq_false (not_not_intro hstuff)]
        have hput := stuffBit_limit hstuff
        refine ⟨14, ?_⟩
        generalize hs' : (txCode usbDeviceAddr usbNewDeviceAddr flash).step^[14] _ = s'
        simp [txCode, hbit, hcarry, heor] at hs'
        subst hs'
        refine ⟨rfl, ⟨?_, ?_, ?_, ?_, ?_, ?_⟩, ?_, rfl, ?_, rfl, rfl⟩
        · simp [hput, levelAfter]
        · rw [runBit_limit hstuff]
          exact history_stuffed
        · intro i hi
          simpa using rotateRight_low hi
        · simp [hput, nrzi, lineWrites, hx1]
        · simp [hput]
        · simp
        · intro r hr
          simp at hr
          simp [hr]
        · exact fun a ha => Function.update_of_ne ha _ _
      · have hcarry : (rotateRight true (reg 17#5)).ult 252#8 = true := by
          rw [hcarry, decide_eq_true hstuff]
        have hput := stuffBit_of_ne hstuff
        have hrun := runBit_of_ne hstuff
        refine ⟨7, ?_⟩
        generalize hs' : (txCode usbDeviceAddr usbNewDeviceAddr flash).step^[7] _ = s'
        simp [txCode, hbit, hcarry] at hs'
        subst hs'
        refine ⟨rfl, ⟨?_, ?_, ?_, ?_, ?_, ?_⟩, ?_, rfl, ?_, rfl, rfl⟩
        · simp [hput, levelAfter, hx1]
        · simpa [hrun] using hnext hstuff
        · intro i hi
          simpa using rotateRight_low hi
        · simp [hput, nrzi, lineWrites, hx1]
        · simp [hput]
        · simp
        · intro r hr
          simp at hr
          simp [hr]
        · exact fun a ha => Function.update_of_ne ha _ _

/-- The eighth bit has its own copy of the code, without a jump back. -/
theorem lastBit_run (hpc : s.pc = (didStuffN, 3)) (hbit : (s.reg shift).getLsbD 0 = bit)
    (hx1 : s.reg x1 = lineState base level) (hx4 : s.reg x4 = usbMask)
    (hhistory : History ones (s.reg x2)) (hstatus : (s.reg bitStatus).ult 37#8 = true) :
    Reaches (txCode usbDeviceAddr usbNewDeviceAddr flash) s fun s' => s'.pc = (didStuff7, 4) ∧
      s'.reg bitStatus = s.reg bitStatus - 37#8 ∧ SendsBit base level ones 5 4 bit s s' ∧
      Kept [x1, x2, shift, bitStatus] s s' := by
  obtain ⟨reg, carry, zero, t, sram, io, outs, cycles, pc, stack, saved⟩ := s
  cases hpc
  have hbit : (reg 18#5)[0] = bit := hbit
  have heor : reg 16#5 ^^^ reg 21#5 = lineState base !level := by
    rw [show reg 16#5 = _ from hx1, show reg 21#5 = _ from hx4, lineState_eor]
  have hx1 : reg 16#5 = lineState base level := hx1
  have hstatus : (reg 20#5).ult 37#8 = true := hstatus
  cases bit with
  | false =>
      obtain ⟨hnext, hcarry⟩ := history_false (reg 17#5)
      refine ⟨9, ?_⟩
      generalize hs' : (txCode usbDeviceAddr usbNewDeviceAddr flash).step^[9] _ = s'
      simp [txCode, hbit, hcarry, heor, hstatus] at hs'
      subst hs'
      refine ⟨rfl, by simp, ⟨?_, ?_, ?_, ?_, ?_, ?_⟩, ?_, rfl, ?_, rfl, rfl⟩
      · simp [levelAfter]
      · simpa using hnext
      · intro i hi
        simpa using rotateRight_low hi
      · simp [nrzi, lineWrites]
      · simp
      · simp
      · intro r hr
        simp at hr
        simp [hr]
      · exact fun a ha => Function.update_of_ne ha _ _
  | true =>
      have hhistory : History ones (reg 17#5) := hhistory
      obtain ⟨hcarry, hnext⟩ := history_true hhistory
      by_cases hstuff : ones + 1 = 6
      · have hcarry : (rotateRight true (reg 17#5)).ult 252#8 = false := by
          rw [hcarry, decide_eq_false (not_not_intro hstuff)]
        have hput := stuffBit_limit hstuff
        refine ⟨16, ?_⟩
        generalize hs' : (txCode usbDeviceAddr usbNewDeviceAddr flash).step^[16] _ = s'
        simp [txCode, hbit, hcarry, heor, hstatus, rotateRight_zero] at hs'
        subst hs'
        refine ⟨rfl, by simp, ⟨?_, ?_, ?_, ?_, ?_, ?_⟩, ?_, rfl, ?_, rfl, rfl⟩
        · simp [hput, levelAfter]
        · rw [runBit_limit hstuff]
          exact history_stuffed
        · intro i hi
          simpa using rotateRight_low hi
        · simp [hput, nrzi, lineWrites, hx1]
        · simp [hput]
        · simp
        · intro r hr
          simp at hr
          simp [hr]
        · exact fun a ha => Function.update_of_ne ha _ _
      · have hcarry : (rotateRight true (reg 17#5)).ult 252#8 = true := by
          rw [hcarry, decide_eq_true hstuff]
        have hput := stuffBit_of_ne hstuff
        have hrun := runBit_of_ne hstuff
        refine ⟨8, ?_⟩
        generalize hs' : (txCode usbDeviceAddr usbNewDeviceAddr flash).step^[8] _ = s'
        simp [txCode, hbit, hcarry, hstatus] at hs'
        subst hs'
        refine ⟨rfl, by simp, ⟨?_, ?_, ?_, ?_, ?_, ?_⟩, ?_, rfl, ?_, rfl, rfl⟩
        · simp [hput, levelAfter, hx1]
        · simpa [hrun] using hnext hstuff
        · intro i hi
          simpa using rotateRight_low hi
        · simp [hput, nrzi, lineWrites, hx1]
        · simp [hput]
        · simp
        · intro r hr
          simp at hr
          simp [hr]
        · exact fun a ha => Function.update_of_ne ha _ _

theorem nextBit_run (hpc : s.pc = (didStuffN, 3)) (hstatus : (s.reg bitStatus).ult 37#8 = false) :
    Reaches (txCode usbDeviceAddr usbNewDeviceAddr flash) s fun s' => s'.pc = (bitloop, 0) ∧
      s'.reg bitStatus = s.reg bitStatus - 37#8 ∧ s'.cycles = s.cycles + 3 ∧
      Frame [bitStatus] s s' := by
  obtain ⟨reg, carry, zero, t, sram, io, outs, cycles, pc, stack, saved⟩ := s
  cases hpc
  have hstatus : (reg 20#5).ult 37#8 = false := hstatus
  refine ⟨2, ?_⟩
  generalize hs' : (txCode usbDeviceAddr usbNewDeviceAddr flash).step^[2] _ = s'
  simp [txCode, hstatus] at hs'
  subst hs'
  refine ⟨rfl, by simp, rfl, ?_, rfl, rfl, rfl, rfl, rfl⟩
  intro r hr
  simp at hr
  simp [hr]

theorem nextByte_run {n : Nat} (hpc : s.pc = (didStuff7, 4))
    (hcnt : s.reg cnt = BitVec.ofNat 8 (n + 1)) (hn : n < 255) (hn0 : n ≠ 0) :
    Reaches (txCode usbDeviceAddr usbNewDeviceAddr flash) s fun s' => s'.pc = (bitloop, 0) ∧
      s'.reg cnt = BitVec.ofNat 8 n ∧ s'.reg shift = s.load s.y ∧ s'.y = s.y + 1#16 ∧
      s'.cycles = s.cycles + 5 ∧ Frame [shift, cnt, yl, yh] s s' := by
  obtain ⟨reg, carry, zero, t, sram, io, outs, cycles, pc, stack, saved⟩ := s
  cases hpc
  have hnext : reg 19#5 - 1#8 = BitVec.ofNat 8 n := by
    rw [show reg 19#5 = _ from hcnt, BitVec.ofNat_add, BitVec.add_sub_cancel]
  have hne : BitVec.ofNat 8 n ≠ 0#8 := by
    intro heq
    have hnat := congrArg BitVec.toNat heq
    simp at hnat
    omega
  refine ⟨3, ?_⟩
  generalize hs' : (txCode usbDeviceAddr usbNewDeviceAddr flash).step^[3] _ = s'
  simp [txCode, hnext, hne] at hs'
  subst hs'
  refine ⟨rfl, by simp, by simp, by simp [append_extract], rfl, ?_, rfl, rfl, rfl, rfl, rfl⟩
  intro r hr
  simp at hr
  simp [hr]

end Bits

/-- The line and the registers when `sent` has been sent, beginning in cycle `start`. -/
structure Sending (base : BitVec 8) (start : Nat) (outs : List (Nat × Port × BitVec 8))
    (sent : List Bool) (s : Cpu TxLabel) : Prop where
  x1 : s.reg x1 = lineState base (levelAfter true (stuff 6 0 sent))
  x4 : s.reg x4 = usbMask
  history : sent ≠ [] → History (run 6 0 sent) (s.reg x2)
  outs : s.outs = outs ++ lineWrites base start (nrzi true (stuff 6 0 sent))

/-- The cycle in which the bit after `sent` is due. -/
def due (start : Nat) (sent : List Bool) : Nat := start + 11 * (stuff 6 0 sent).length

section Bytes

variable {usbDeviceAddr usbNewDeviceAddr : BitVec 16} {flash : BitVec 16 → BitVec 8}
  {base : BitVec 8} {start : Nat} {outs : List (Nat × Port × BitVec 8)} {sent : List Bool}
  {s s' : Cpu TxLabel}

theorem due_snoc (bit : Bool) :
    due start (sent ++ [bit]) = due start sent + 11 * (stuffBit 6 (run 6 0 sent) bit).length := by
  rw [due, stuff_snoc, List.length_append, Nat.mul_add, due, Nat.add_assoc]

theorem Sending.snoc {delay rest : Nat} {bit : Bool} (h : Sending base start outs sent s)
    (hsends : SendsBit base (levelAfter true (stuff 6 0 sent)) (run 6 0 sent) delay rest bit s s')
    (hdue : s.cycles + delay = due start sent)
    (hx4 : s'.reg UsbTransmitter.x4 = s.reg UsbTransmitter.x4) :
    Sending base start outs (sent ++ [bit]) s' where
  x1 := by rw [hsends.x1, stuff_snoc, levelAfter_append]
  x4 := hx4.trans h.x4
  history _ := by
    rw [run_snoc]
    exact hsends.history
  outs := by
    rw [hsends.outs, h.outs, hdue, stuff_snoc, nrzi_append, lineWrites_append, length_nrzi,
      List.append_assoc]
    rfl

theorem Sending.of_frame {clobbered : List Reg} (h : Sending base start outs sent s)
    (hframe : Frame clobbered s s') (h1 : UsbTransmitter.x1 ∉ clobbered) (h2 : x2 ∉ clobbered)
    (h4 : UsbTransmitter.x4 ∉ clobbered) : Sending base start outs sent s' where
  x1 := by rw [hframe.reg _ h1, h.x1]
  x4 := by rw [hframe.reg _ h4, h.x4]
  history := by
    rw [hframe.reg _ h2]
    exact h.history
  outs := by rw [hframe.outs, h.outs]

theorem bit_run (hpc : s.pc = (bitloop, 0)) (h : Sending base start outs sent s)
    (hdue : s.cycles + 2 = due start sent) (hfirst : sent = [] → (s.reg shift).getLsbD 0 = false) :
    Reaches (txCode usbDeviceAddr usbNewDeviceAddr flash) s fun s' => s'.pc = (didStuffN, 3) ∧
      Sending base start outs (sent ++ [(s.reg shift).getLsbD 0]) s' ∧
      s'.cycles + 5 = due start (sent ++ [(s.reg shift).getLsbD 0]) ∧
      (∀ i < 7, (s'.reg shift).getLsbD i = (s.reg shift).getLsbD (i + 1)) ∧
      ((s.reg shift).getLsbD 0 = false → s'.reg 0#5 = s.reg 0#5) ∧
      Kept [x1, x2, shift, 0#5] s s' := by
  have hhistory : (s.reg shift).getLsbD 0 = true → History (run 6 0 sent) (s.reg x2) := by
    intro hbit
    apply h.history
    intro hsent
    rw [hfirst hsent] at hbit
    cases hbit
  refine (bitloop_run hpc rfl h.x1 h.x4 hhistory).mono ?_
  rintro s' ⟨hpc', hsends, hkept⟩
  refine ⟨hpc', h.snoc hsends hdue (hkept.reg x4 (by simp)), ?_, hsends.shift, hsends.r0, hkept⟩
  have hcycles := hsends.cycles
  rw [due_snoc]
  omega

/-- Between two bits of `byte`, of whose first seven `n` are to go. -/
structure InByte (base : BitVec 8) (start : Nat) (outs : List (Nat × Port × BitVec 8))
    (sent : List Bool) (byte status : BitVec 8) (s₀ : Cpu TxLabel) (n : Nat) (s : Cpu TxLabel) :
    Prop where
  le : n ≤ 6
  pc : s.pc = (didStuffN, 3)
  sending : Sending base start outs (sent ++ (List.range (7 - n)).map byte.getLsbD) s
  cycles : s.cycles + 5 = due start (sent ++ (List.range (7 - n)).map byte.getLsbD)
  shift : ∀ i ≤ n, (s.reg shift).getLsbD i = byte.getLsbD (i + (7 - n))
  status : s.reg bitStatus = status - BitVec.ofNat 8 (37 * (6 - n))
  r0 : (∀ i < 7, byte.getLsbD i = false) → s.reg 0#5 = s₀.reg 0#5
  kept : Kept [x1, x2, UsbTransmitter.shift, bitStatus, 0#5] s₀ s

theorem Kept.mono {clobbered clobbered' : List Reg} (h : Kept clobbered s s')
    (hsub : clobbered ⊆ clobbered') : Kept clobbered' s s' :=
  { h with reg := fun r hr => h.reg r fun hmem => hr (hsub hmem) }

theorem Kept.of_frame {clobbered : List Reg} (h : Frame clobbered s s') : Kept clobbered s s' :=
  ⟨h.reg, h.sram, fun _ _ => by rw [h.io], h.stack, h.saved⟩

theorem startByte (hpc : s.pc = (bitloop, 0)) (h : Sending base start outs sent s)
    (hdue : s.cycles + 2 = due start sent) (hfirst : sent = [] → (s.reg shift).getLsbD 0 = false) :
    Reaches (txCode usbDeviceAddr usbNewDeviceAddr flash) s
      (InByte base start outs sent (s.reg shift) (s.reg bitStatus) s 6) := by
  refine (bit_run hpc h hdue hfirst).mono ?_
  rintro s' ⟨hpc', hsending, hcycles, hshift, hr0, hkept⟩
  refine ⟨le_rfl, hpc', hsending, hcycles, fun i hi => hshift i (by omega), ?_,
    fun hzero => hr0 (hzero 0 (by omega)), hkept.mono (by simp)⟩
  rw [hkept.reg bitStatus (by simp)]
  simp

theorem status_count {status : BitVec 8} {m : Nat} (hstatus : 222 ≤ status.toNat) (hm : m ≤ 6) :
    (status - BitVec.ofNat 8 (37 * m)).ult 37#8 = decide (m = 6) ∧
      status - BitVec.ofNat 8 (37 * m) - 37#8 = status - BitVec.ofNat 8 (37 * (m + 1)) := by
  have hall : ∀ status : BitVec 8, 222 ≤ status.toNat → ∀ m < 7,
      (status - BitVec.ofNat 8 (37 * m)).ult 37#8 = decide (m = 6) ∧
        status - BitVec.ofNat 8 (37 * m) - 37#8 = status - BitVec.ofNat 8 (37 * (m + 1)) := by
    decide +kernel
  exact hall status hstatus m (by omega)

theorem bitRound {byte status : BitVec 8} {s₀ : Cpu TxLabel} {n : Nat}
    (hstatus : 222 ≤ status.toNat) (h : InByte base start outs sent byte status s₀ (n + 1) s) :
    Reaches (txCode usbDeviceAddr usbNewDeviceAddr flash) s
      (InByte base start outs sent byte status s₀ n) := by
  have hle := h.le
  obtain ⟨hult, hsub⟩ := status_count (m := 6 - (n + 1)) hstatus (by omega)
  rw [← h.status, decide_eq_false (by omega)] at hult
  rw [← h.status] at hsub
  refine (nextBit_run h.pc hult).bind ?_
  rintro s₁ ⟨hpc₁, hstatus₁, hcycles₁, hframe₁⟩
  have hsending₁ := h.sending.of_frame hframe₁ (by simp) (by simp) (by simp)
  have hbit : (s₁.reg shift).getLsbD 0 = byte.getLsbD (7 - (n + 1)) := by
    rw [hframe₁.reg shift (by simp), h.shift 0 (by omega), Nat.zero_add]
  have hcycles := h.cycles
  have hnext : sent ++ (List.range (7 - (n + 1))).map byte.getLsbD ++ [byte.getLsbD (7 - (n + 1))] =
      sent ++ (List.range (7 - n)).map byte.getLsbD := by
    rw [show 7 - n = 7 - (n + 1) + 1 by omega, List.range_succ, List.map_append, List.append_assoc]
    rfl
  refine (bit_run hpc₁ hsending₁ (by omega) ?_).mono ?_
  · intro hsent
    have hlength := congrArg List.length hsent
    simp at hlength
    omega
  · rintro s' ⟨hpc', hsending', hcycles', hshift', hr0', hkept'⟩
    rw [hbit, hnext] at hsending' hcycles'
    refine ⟨by omega, hpc', hsending', hcycles', ?_, ?_, ?_, ?_⟩
    · intro i hi
      rw [hshift' i (by omega), hframe₁.reg shift (by simp), h.shift (i + 1) (by omega)]
      congr 1
      omega
    · rw [hkept'.reg bitStatus (by simp), hstatus₁, hsub]
      congr 3
      omega
    · intro hzero
      rw [hr0' (hbit.trans (hzero _ (by omega))), hframe₁.reg 0#5 (by simp), h.r0 hzero]
    · exact (h.kept.trans (.mono (.of_frame hframe₁) (by simp))).trans (hkept'.mono (by simp))

theorem endByte {byte status : BitVec 8} {s₀ : Cpu TxLabel} (hstatus : 222 ≤ status.toNat)
    (h : InByte base start outs sent byte status s₀ 0 s) :
    Reaches (txCode usbDeviceAddr usbNewDeviceAddr flash) s fun s' => s'.pc = (didStuff7, 4) ∧
      Sending base start outs (sent ++ lsbFirst byte) s' ∧
      s'.cycles + 7 = due start (sent ++ lsbFirst byte) ∧ s'.reg bitStatus = status - 3#8 ∧
      ((∀ i < 7, byte.getLsbD i = false) → s'.reg 0#5 = s₀.reg 0#5) ∧
      Kept [x1, x2, shift, bitStatus, 0#5] s₀ s' := by
  obtain ⟨hult, hsub⟩ := status_count (m := 6) hstatus le_rfl
  have hstatus₀ : s.reg bitStatus = status - BitVec.ofNat 8 (37 * 6) := h.status
  rw [← hstatus₀] at hult hsub
  have hbit : (s.reg shift).getLsbD 0 = byte.getLsbD 7 := h.shift 0 le_rfl
  have hsent : sent ++ (List.range 7).map byte.getLsbD ≠ [] := by simp
  have hsending := h.sending
  have hcycles := h.cycles
  refine (lastBit_run h.pc hbit hsending.x1 hsending.x4 (hsending.history hsent) hult).mono ?_
  rintro s' ⟨hpc', hstatus', hsends, hkept'⟩
  have hbyte : sent ++ (List.range 7).map byte.getLsbD ++ [byte.getLsbD 7] =
      sent ++ lsbFirst byte := by
    rw [lsbFirst, List.range_succ, List.map_append, List.append_assoc]
    rfl
  have hsending' := hsending.snoc hsends hcycles (hkept'.reg x4 (by simp))
  have hcycles' := hsends.cycles
  refine ⟨hpc', hbyte ▸ hsending', ?_, ?_, ?_, h.kept.trans (hkept'.mono (by simp))⟩
  · rw [← hbyte, due_snoc]
    simp only [Nat.sub_zero] at hcycles hcycles'
    omega
  · rw [hstatus', hsub]
    rfl
  · intro hzero
    rw [hkept'.reg 0#5 (by simp), h.r0 hzero]

/-- One byte, from the loop's entry to where the next one is fetched. -/
theorem byte_run (hpc : s.pc = (bitloop, 0)) (h : Sending base start outs sent s)
    (hdue : s.cycles + 2 = due start sent) (hfirst : sent = [] → (s.reg shift).getLsbD 0 = false)
    (hstatus : 222 ≤ (s.reg bitStatus).toNat) :
    Reaches (txCode usbDeviceAddr usbNewDeviceAddr flash) s fun s' => s'.pc = (didStuff7, 4) ∧
      Sending base start outs (sent ++ lsbFirst (s.reg shift)) s' ∧
      s'.cycles + 7 = due start (sent ++ lsbFirst (s.reg shift)) ∧
      s'.reg bitStatus = s.reg bitStatus - 3#8 ∧
      ((∀ i < 7, (s.reg shift).getLsbD i = false) → s'.reg 0#5 = s.reg 0#5) ∧
      Kept [x1, x2, shift, bitStatus, 0#5] s s' := by
  refine (startByte hpc h hdue hfirst).bind ?_
  intro s₁ h₁
  refine (Reaches.loop _ (fun n s => bitRound hstatus) h₁).bind ?_
  intro s₂ h₂
  exact endByte hstatus h₂

end Bytes

section Packet

variable {usbDeviceAddr usbNewDeviceAddr : BitVec 16} {flash : BitVec 16 → BitVec 8}
  {base : BitVec 8} {start : Nat} {outs : List (Nat × Port × BitVec 8)} {s₀ s : Cpu TxLabel}

/-- After the byte that was sent last, `n` bytes of `len` are to go. -/
structure Remaining (base : BitVec 8) (start : Nat) (outs : List (Nat × Port × BitVec 8))
    (s₀ : Cpu TxLabel) (p : BitVec 16) (len n : Nat) (s : Cpu TxLabel) : Prop where
  le : n ≤ len
  pc : s.pc = (didStuff7, 4)
  sending : Sending base start outs
    ((0x80#8 :: bytesAt s₀.sram p (len - n)).flatMap lsbFirst) s
  cycles : s.cycles + 7 = due start ((0x80#8 :: bytesAt s₀.sram p (len - n)).flatMap lsbFirst)
  cnt : s.reg cnt = BitVec.ofNat 8 (n + 1)
  y : s.y = p + BitVec.ofNat 16 (len - n)
  status : s.reg bitStatus = BitVec.ofNat 8 (252 - 3 * (len - n))
  kept : Kept [x1, x2, shift, bitStatus, 0#5, UsbTransmitter.cnt, yl, yh] s₀ s

theorem byteRound {p : BitVec 16} {len n : Nat} (hlen : len ≤ 11) (hp : 0x60 ≤ p.toNat)
    (hend : p.toNat + len ≤ 65536) (h : Remaining base start outs s₀ p len (n + 1) s) :
    Reaches (txCode usbDeviceAddr usbNewDeviceAddr flash) s
      (Remaining base start outs s₀ p len n) := by
  have hle := h.le
  refine (nextByte_run h.pc h.cnt (by omega) (by omega)).bind ?_
  rintro s₁ ⟨hpc₁, hcnt₁, hshift₁, hy₁, hcycles₁, hframe₁⟩
  have haddr : 0x60 ≤ s.y.toNat := by
    rw [h.y, toNat_add_ofNat (by omega)]
    omega
  have hbyte : s₁.reg shift = s₀.sram (p + BitVec.ofNat 16 (len - (n + 1))) := by
    rw [hshift₁, load_sram haddr, h.kept.sram, h.y]
  have hbytes : (0x80#8 :: bytesAt s₀.sram p (len - (n + 1))).flatMap lsbFirst ++
      lsbFirst (s₁.reg shift) = (0x80#8 :: bytesAt s₀.sram p (len - n)).flatMap lsbFirst := by
    rw [show len - n = len - (n + 1) + 1 by omega, bytesAt_succ, hbyte]
    simp
  have hsending₁ := h.sending.of_frame hframe₁ (by simp) (by simp) (by simp)
  have hstatus₁ : s₁.reg bitStatus = BitVec.ofNat 8 (252 - 3 * (len - (n + 1))) := by
    rw [hframe₁.reg bitStatus (by simp)]
    exact h.status
  have hcycles := h.cycles
  refine (byte_run hpc₁ hsending₁ (by omega) (by simp [lsbFirst]) ?_).mono ?_
  · rw [hstatus₁, BitVec.toNat_ofNat, Nat.mod_eq_of_lt (by omega)]
    omega
  · rintro s₂ ⟨hpc₂, hsending₂, hcycles₂, hstatus₂, -, hkept₂⟩
    rw [hbytes] at hsending₂ hcycles₂
    refine ⟨by omega, hpc₂, hsending₂, hcycles₂, ?_, ?_, ?_, ?_⟩
    · rw [hkept₂.reg cnt (by simp), hcnt₁]
    · rw [Cpu.y, hkept₂.reg 29#5 (by simp), hkept₂.reg 28#5 (by simp)]
      refine hy₁.trans ?_
      rw [h.y, show len - n = len - (n + 1) + 1 by omega, BitVec.ofNat_add, BitVec.add_assoc]
    · rw [hstatus₂, hstatus₁]
      apply BitVec.eq_of_toNat_eq
      simp
      omega
    · exact (h.kept.trans (.mono (.of_frame hframe₁) (by simp))).trans (hkept₂.mono (by simp))

/-- The port while nothing is sent: zero on both lines, and no pull-up. -/
def Released (port : BitVec 8) : Prop := port &&& usbMask = 0#8

instance (port : BitVec 8) : Decidable (Released port) := inferInstanceAs (Decidable (_ = _))

theorem released_idle {port : BitVec 8} (h : Released port) :
    port ||| usbIdle = lineState port true := by
  revert port
  decide +kernel

theorem released_se0 {port : BitVec 8} (h : Released port) (level : Bool) :
    lineState port level &&& ~~~usbMask = port := by
  revert port level
  decide +kernel

theorem mask_released (ddr : BitVec 8) : (ddr ||| usbMask) &&& ~~~usbMask = ddr &&& ~~~usbMask := by
  revert ddr
  decide +kernel

theorem prologue (hpc : s.pc = (usbSendAndReti, 0)) (hport : Released (s.io usbOut)) :
    Reaches (txCode usbDeviceAddr usbNewDeviceAddr flash) s fun s' => s'.pc = (bitloop, 0) ∧
      Sending (s.io usbOut) (s.cycles + 11) (s.outs ++
        [(s.cycles + 2, usbOut, lineState (s.io usbOut) true),
          (s.cycles + 5, usbDdr, s.io usbDdr ||| usbMask)]) [] s' ∧
      s'.cycles = s.cycles + 9 ∧ s'.reg shift = 0x80#8 ∧ s'.reg bitStatus = 0xff#8 ∧
      s'.io usbDdr = s.io usbDdr ||| usbMask ∧
      (∀ a, a ≠ usbOut → a ≠ usbDdr → s'.io a = s.io a) ∧
      Frame [x1, x2, shift, x3, x4] { s with io := s'.io, outs := s'.outs } s' := by
  obtain ⟨reg, carry, zero, t, sram, io, outs, cycles, pc, stack, saved⟩ := s
  cases hpc
  have hidle : io 24#6 ||| 8#8 = lineState (io 24#6) true := released_idle hport
  refine ⟨8, ?_⟩
  generalize hs' : (txCode usbDeviceAddr usbNewDeviceAddr flash).step^[8] _ = s'
  simp [txCode, hidle] at hs'
  subst hs'
  refine ⟨rfl, ⟨?_, rfl, ?_, ?_⟩, rfl, rfl, rfl, ?_, ?_, ?_, rfl, rfl, rfl, rfl, rfl⟩
  · simp [stuff, levelAfter]
  · simp
  · simp [stuff, nrzi, lineWrites]
  · simp
  · intro a hout hddr
    exact (Function.update_of_ne hddr _ _).trans (Function.update_of_ne hout _ _)
  · intro r hr
    simp at hr
    simp [hr]

theorem lastByte_run (hpc : s.pc = (didStuff7, 4)) (hcnt : s.reg cnt = 1#8) :
    Reaches (txCode usbDeviceAddr usbNewDeviceAddr flash) s fun s' => s'.pc = (makeSe0, 0) ∧
      s'.y = s.y + 1#16 ∧ s'.cycles = s.cycles + 4 ∧ Frame [shift, cnt, yl, yh] s s' := by
  obtain ⟨reg, carry, zero, t, sram, io, outs, cycles, pc, stack, saved⟩ := s
  cases hpc
  have hcnt : reg 19#5 = 1#8 := hcnt
  refine ⟨3, ?_⟩
  generalize hs' : (txCode usbDeviceAddr usbNewDeviceAddr flash).step^[3] _ = s'
  simp [txCode, hcnt] at hs'
  subst hs'
  refine ⟨rfl, by simp [append_extract], rfl, ?_, rfl, rfl, rfl, rfl, rfl⟩
  intro r hr
  simp at hr
  simp [hr]

/-- The comparison of the pointer with 2, a byte at a time. -/
theorem pointer_compare (h l : BitVec 8) :
    (l - 2#8 == 0#8 && h - BitVec.setWidth 8 (BitVec.ofBool (l.ult 2#8)) == 0#8) =
      decide (h ++ l = 2#16) := by
  obtain ⟨hlow, hhigh⟩ := extract_append h l
  by_cases hl : l = 2#8
  · subst hl
    by_cases hh : h = 0#8
    · subst hh
      rfl
    · have hne : h ++ 2#8 ≠ 2#16 := fun heq => hh (hhigh.symm.trans (by rw [heq]; rfl))
      rw [decide_eq_false hne]
      simpa using hh
  · have hsub : l - 2#8 ≠ 0#8 := by
      intro heq
      rw [BitVec.sub_eq_iff_eq_add, BitVec.zero_add] at heq
      exact hl heq
    have hne : h ++ l ≠ 2#16 := fun heq => hl (hlow.symm.trans (by rw [heq]; rfl))
    rw [decide_eq_false hne, beq_false_of_ne hsub, Bool.false_and]

theorem se0_run {level : Bool} (hpc : s.pc = (makeSe0, 0)) (hbase : Released base)
    (hx1 : s.reg x1 = lineState base level) (haddr : 0x60 ≤ usbNewDeviceAddr.toNat) :
    Reaches (txCode usbDeviceAddr usbNewDeviceAddr flash) s fun s' => s'.pc = (makeSe0, 6) ∧
      s'.reg x1 = base ∧ s'.reg x2 = s.sram usbNewDeviceAddr <<< 1 ∧
      s'.zero = decide (s.y = 2#16) ∧ s'.outs = s.outs ++ [(s.cycles + 4, usbOut, base)] ∧
      s'.cycles = s.cycles + 7 ∧ Kept [x1, x2, yl, yh] s s' := by
  obtain ⟨reg, carry, zero, t, sram, io, outs, cycles, pc, stack, saved⟩ := s
  cases hpc
  have hse0 : reg 16#5 &&& 245#8 = base := by
    rw [show reg 16#5 = _ from hx1]
    exact released_se0 hbase level
  refine ⟨6, ?_⟩
  generalize hs' : (txCode usbDeviceAddr usbNewDeviceAddr flash).step^[6] _ = s'
  simp [txCode, hse0, load_sram, haddr] at hs'
  subst hs'
  refine ⟨rfl, by simp, by simp, ?_, rfl, rfl, ?_, rfl, ?_, rfl, rfl⟩
  · exact pointer_compare ..
  · intro r hr
    simp at hr
    simp [hr]
  · exact fun a ha => Function.update_of_ne ha _ _

/-- The delay of the end of the packet, and the return to the idle line. -/
theorem idle_run (hpc : s.pc = (skipAddrAssign, 0)) (hbase : Released base)
    (hx1 : s.reg x1 = base) :
    Reaches (txCode usbDeviceAddr usbNewDeviceAddr flash) s fun s' => s'.pc = (doReturn, 0) ∧
      s'.outs = s.outs ++ [(s.cycles + 1, usbIntrPending, 0x20#8),
        (s.cycles + 19, usbOut, lineState base true),
        (s.cycles + 20, usbDdr, s.io usbDdr &&& ~~~usbMask), (s.cycles + 21, usbOut, base)] ∧
      s'.io usbOut = base ∧ s'.io usbDdr = s.io usbDdr &&& ~~~usbMask ∧
      (∀ a, a ≠ usbOut → a ≠ usbDdr → a ≠ usbIntrPending → s'.io a = s.io a) ∧
      Frame [x1, x2, x3, x4] { s with io := s'.io, outs := s'.outs } s' := by
  obtain ⟨reg, carry, zero, t, sram, io, outs, cycles, pc, stack, saved⟩ := s
  cases hpc
  have hidle : reg 16#5 ||| 8#8 = lineState base true := by
    rw [show reg 16#5 = base from hx1]
    exact released_idle hbase
  have hse0 : lineState base true &&& 245#8 = base := released_se0 hbase true
  refine ⟨20, ?_⟩
  generalize hs' : (txCode usbDeviceAddr usbNewDeviceAddr flash).step^[20] _ = s'
  simp [txCode, hidle, hse0] at hs'
  subst hs'
  refine ⟨rfl, rfl, by simp, by simp, ?_, ?_, rfl, rfl, rfl, rfl, rfl⟩
  · intro a hout hddr hpending
    refine (Function.update_of_ne hout _ _).trans ?_
    refine (Function.update_of_ne hddr _ _).trans ?_
    refine (Function.update_of_ne hout _ _).trans ?_
    exact Function.update_of_ne hpending _ _
  · intro r hr
    simp at hr
    simp [hr]

/-- The new address is taken over unless the packet was a handshake. -/
theorem assign_run (hpc : s.pc = (makeSe0, 6)) (haddr : 0x60 ≤ usbDeviceAddr.toNat) :
    Reaches (txCode usbDeviceAddr usbNewDeviceAddr flash) s fun s' => s'.pc = (skipAddrAssign, 0) ∧
      s'.sram = (if s.zero then s.sram else Function.update s.sram usbDeviceAddr (s.reg x2)) ∧
      s'.cycles = s.cycles + (if s.zero then 2 else 3) ∧
      Frame [] { s with sram := s'.sram } s' := by
  obtain ⟨reg, carry, zero, t, sram, io, outs, cycles, pc, stack, saved⟩ := s
  cases hpc
  cases zero with
  | true =>
      refine ⟨1, ?_⟩
      generalize hs' : (txCode usbDeviceAddr usbNewDeviceAddr flash).step^[1] _ = s'
      simp [txCode] at hs'
      subst hs'
      exact ⟨rfl, rfl, rfl, fun _ _ => rfl, rfl, rfl, rfl, rfl, rfl⟩
  | false =>
      refine ⟨2, ?_⟩
      generalize hs' : (txCode usbDeviceAddr usbNewDeviceAddr flash).step^[2] _ = s'
      simp [txCode, store_sram haddr] at hs'
      subst hs'
      exact ⟨rfl, rfl, rfl, fun _ _ => rfl, rfl, rfl, rfl, rfl, rfl⟩

/-- Everything that goes to the ports for a packet, when the transmitter is entered in
cycle `entry`: the line is taken, the bits follow, then both lines are low for
`se0` cycles, and the line is given back. -/
def transmission (port ddr : BitVec 8) (entry se0 : Nat) (bytes : List (BitVec 8)) :
    List (Nat × Port × BitVec 8) :=
  let levels := nrzi true (stuff 6 0 ((0x80#8 :: bytes).flatMap lsbFirst))
  let eop := entry + 12 + 11 * levels.length
  [(entry + 2, usbOut, lineState port true), (entry + 5, usbDdr, ddr ||| usbMask)] ++
    lineWrites port (entry + 11) levels ++
    [(eop, usbOut, port), (eop + se0 - 18, usbIntrPending, 0x20#8),
      (eop + se0, usbOut, lineState port true), (eop + se0 + 1, usbDdr, ddr &&& ~~~usbMask),
      (eop + se0 + 2, usbOut, port)]

/-- What sending changes, and nothing else. -/
structure Transmitted (entry se0 : Nat) (bytes : List (BitVec 8)) (sram : BitVec 16 → BitVec 8)
    (s s' : Cpu TxLabel) : Prop where
  pc : s'.pc = (doReturn, 0)
  outs : s'.outs = s.outs ++ transmission (s.io usbOut) (s.io usbDdr) entry se0 bytes
  sram : s'.sram = sram
  usbOut : s'.io usbOut = s.io usbOut
  usbDdr : s'.io usbDdr = s.io usbDdr &&& ~~~usbMask
  io : ∀ a, a ≠ UsbTransmitter.usbOut → a ≠ UsbTransmitter.usbDdr → a ≠ usbIntrPending →
    s'.io a = s.io a
  frame : Frame [x1, x2, x3, x4, shift, cnt, 0#5, yl, yh]
    { s with io := s'.io, outs := s'.outs, sram := s'.sram } s'

theorem endOfPacket_run {sent : List Bool} (hpc : s.pc = (didStuff7, 4)) (hbase : Released base)
    (hnew : 0x60 ≤ usbNewDeviceAddr.toNat) (hdev : 0x60 ≤ usbDeviceAddr.toNat)
    (h : Sending base start outs sent s) (hcycles : s.cycles + 7 = due start sent)
    (hcnt : s.reg cnt = 1#8) :
    Reaches (txCode usbDeviceAddr usbNewDeviceAddr flash) s fun s' =>
      let levels := nrzi true (stuff 6 0 sent)
      let eop := start + 1 + 11 * levels.length
      let se0 := if s.y + 1#16 = 2#16 then 24 else 25
      s'.pc = (doReturn, 0) ∧
      s'.outs = outs ++ lineWrites base start levels ++
        [(eop, usbOut, base), (eop + se0 - 18, usbIntrPending, 0x20#8),
          (eop + se0, usbOut, lineState base true),
          (eop + se0 + 1, usbDdr, s.io usbDdr &&& ~~~usbMask), (eop + se0 + 2, usbOut, base)] ∧
      s'.sram = (if s.y + 1#16 = 2#16 then s.sram
        else Function.update s.sram usbDeviceAddr (s.sram usbNewDeviceAddr <<< 1)) ∧
      s'.io usbOut = base ∧ s'.io usbDdr = s.io usbDdr &&& ~~~usbMask ∧
      (∀ a, a ≠ usbOut → a ≠ usbDdr → a ≠ usbIntrPending → s'.io a = s.io a) ∧
      Frame [x1, x2, x3, x4, shift, cnt, yl, yh]
        { s with io := s'.io, outs := s'.outs, sram := s'.sram } s' := by
  refine (lastByte_run hpc hcnt).bind ?_
  rintro s₁ ⟨hpc₁, hy₁, hcycles₁, hframe₁⟩
  have hx1₁ : s₁.reg x1 = lineState base (levelAfter true (stuff 6 0 sent)) := by
    rw [hframe₁.reg x1 (by simp), h.x1]
  refine (se0_run hpc₁ hbase hx1₁ hnew).bind ?_
  rintro s₂ ⟨hpc₂, hx1₂, hx2₂, hzero₂, houts₂, hcycles₂, hkept₂⟩
  refine (assign_run hpc₂ hdev).bind ?_
  rintro s₃ ⟨hpc₃, hsram₃, hcycles₃, hframe₃⟩
  have hx1₃ : s₃.reg x1 = base := by rw [hframe₃.reg x1 (by simp), hx1₂]
  refine (idle_run hpc₃ hbase hx1₃).mono ?_
  rintro s' ⟨hpc', houts', hout', hddr', hio', hframe'⟩
  have hddr₃ : s₃.io usbDdr = s.io usbDdr := by
    rw [hframe₃.io, ← hframe₁.io]
    exact hkept₂.io usbDdr (by decide)
  have hassign : s₂.zero = decide (s.y + 1#16 = 2#16) := by rw [hzero₂, hy₁]
  have hlength : start + 11 * (nrzi true (stuff 6 0 sent)).length = s.cycles + 7 := by
    rw [hcycles, due, length_nrzi]
  have hframe : Frame [x1, x2, x3, x4, shift, cnt, yl, yh]
      { s with io := s'.io, outs := s'.outs, sram := s'.sram } s' := by
    refine ⟨?_, rfl, rfl, rfl, ?_, ?_⟩
    · intro r hr
      simp at hr
      rw [hframe'.reg r (by simp [hr]), hframe₃.reg r (by simp), hkept₂.reg r (by simp [hr]),
        hframe₁.reg r (by simp [hr])]
    · rw [hframe'.stack, hframe₃.stack, hkept₂.stack, hframe₁.stack]
    · rw [hframe'.saved, hframe₃.saved, hkept₂.saved, hframe₁.saved]
  have hio : ∀ a, a ≠ usbOut → a ≠ usbDdr → a ≠ usbIntrPending → s'.io a = s.io a := by
    intro a hout hddr hpending
    rw [hio' a hout hddr hpending, hframe₃.io, ← hframe₁.io]
    exact hkept₂.io a hout
  have houts : s'.outs = outs ++ lineWrites base start (nrzi true (stuff 6 0 sent)) ++
      [(s₁.cycles + 4, usbOut, base)] ++ [(s₃.cycles + 1, usbIntrPending, 0x20#8),
        (s₃.cycles + 19, usbOut, lineState base true),
        (s₃.cycles + 20, usbDdr, s.io usbDdr &&& ~~~usbMask), (s₃.cycles + 21, usbOut, base)] := by
    rw [houts', hframe₃.outs, houts₂, hframe₁.outs, h.outs, hddr₃]
  have hsram : s'.sram = if s₂.zero then s.sram
      else Function.update s.sram usbDeviceAddr (s.sram usbNewDeviceAddr <<< 1) := by
    rw [hframe'.sram, hsram₃, hx2₂, hkept₂.sram, hframe₁.sram]
  have heop : s₁.cycles + 4 = start + 1 + 11 * (nrzi true (stuff 6 0 sent)).length := by omega
  have hse0 : s₃.cycles + 19 = s₁.cycles + 4 + if s.y + 1#16 = 2#16 then 24 else 25 := by
    rw [hcycles₃, hcycles₂, hassign]
    by_cases hy : s.y + 1#16 = 2#16
    · rw [decide_eq_true hy, if_pos rfl, if_pos hy]
    · rw [decide_eq_false hy, if_neg Bool.false_ne_true, if_neg hy]
  have hle : 24 ≤ if s.y + 1#16 = 2#16 then 24 else 25 := by split <;> omega
  refine ⟨hpc', ?_, ?_, hout', by rw [hddr', hddr₃], hio, hframe⟩
  · rw [houts, List.append_assoc, ← heop]
    generalize (if s.y + 1#16 = 2#16 then 24 else 25) = se0 at hse0 hle
    rw [← hse0, show s₃.cycles + 19 - 18 = s₃.cycles + 1 by omega]
    rfl
  · rw [hsram, hassign]
    by_cases hy : s.y + 1#16 = 2#16
    · rw [decide_eq_true hy, if_pos rfl, if_pos hy]
    · rw [decide_eq_false hy, if_neg Bool.false_ne_true, if_neg hy]

theorem sync_run (hpc : s.pc = (usbSendAndReti, 0)) (hport : Released (s.io usbOut)) :
    Reaches (txCode usbDeviceAddr usbNewDeviceAddr flash) s fun s' => s'.pc = (didStuff7, 4) ∧
      Sending (s.io usbOut) (s.cycles + 11) (s.outs ++
        [(s.cycles + 2, usbOut, lineState (s.io usbOut) true),
          (s.cycles + 5, usbDdr, s.io usbDdr ||| usbMask)]) (lsbFirst 0x80#8) s' ∧
      s'.cycles + 7 = due (s.cycles + 11) (lsbFirst 0x80#8) ∧ s'.reg bitStatus = 252#8 ∧
      s'.io usbDdr = s.io usbDdr ||| usbMask ∧
      (∀ a, a ≠ usbOut → a ≠ usbDdr → s'.io a = s.io a) ∧
      Frame [x1, x2, shift, x3, x4] { s with io := s'.io, outs := s'.outs } s' := by
  refine (prologue hpc hport).bind ?_
  rintro s₁ ⟨hpc₁, hsending₁, hcycles₁, hshift₁, hstatus₁, hddr₁, hio₁, hframe₁⟩
  have hdue : s₁.cycles + 2 = due (s.cycles + 11) [] := by simp [due, stuff, hcycles₁]
  have hfirst : (s₁.reg shift).getLsbD 0 = false := by rw [hshift₁]; decide
  refine (byte_run hpc₁ hsending₁ hdue (fun _ => hfirst) (by rw [hstatus₁]; decide)).mono ?_
  rintro s' ⟨hpc', hsending', hcycles', hstatus', hr0', hkept'⟩
  rw [hshift₁, List.nil_append] at hsending' hcycles'
  refine ⟨hpc', hsending', hcycles', by rw [hstatus', hstatus₁]; rfl, ?_, ?_, ?_⟩
  · rw [hkept'.io usbDdr (by decide), hddr₁]
  · intro a hout hddr
    rw [hkept'.io a hout, hio₁ a hout hddr]
  · refine ⟨?_, ?_, rfl, rfl, ?_, ?_⟩
    · intro r hr
      by_cases hr0 : r = 0#5
      · subst hr0
        rw [hr0' (by rw [hshift₁]; decide), hframe₁.reg 0#5 (by simp)]
      · simp at hr
        rw [hkept'.reg r (by simp [hr, hr0]), hframe₁.reg r (by simp [hr])]
    · rw [hkept'.sram, hframe₁.sram]
    · rw [hkept'.stack, hframe₁.stack]
    · rw [hkept'.saved, hframe₁.saved]

/-- A packet of `len` bytes at `p`, with its identifier and its CRC, goes out after a
sync byte. -/
theorem usbSendAndReti_run {p : BitVec 16} {len : Nat} (hpc : s.pc = (usbSendAndReti, 0))
    (hport : Released (s.io usbOut)) (hnew : 0x60 ≤ usbNewDeviceAddr.toNat)
    (hdev : 0x60 ≤ usbDeviceAddr.toNat) (hlen : len ≤ 11)
    (hcnt : s.reg cnt = BitVec.ofNat 8 (len + 1)) (hy : s.y = p) (hp : 0x60 ≤ p.toNat)
    (hend : p.toNat + len < 65535) :
    Reaches (txCode usbDeviceAddr usbNewDeviceAddr flash) s
      (Transmitted s.cycles 25 (bytesAt s.sram p len)
        (Function.update s.sram usbDeviceAddr (s.sram usbNewDeviceAddr <<< 1)) s) := by
  refine (sync_run hpc hport).bind ?_
  rintro s₁ ⟨hpc₁, hsending₁, hcycles₁, hstatus₁, hddr₁, hio₁, hframe₁⟩
  have hremaining : Remaining (s.io usbOut) (s.cycles + 11) (s.outs ++
      [(s.cycles + 2, usbOut, lineState (s.io usbOut) true),
        (s.cycles + 5, usbDdr, s.io usbDdr ||| usbMask)]) s₁ p len len s₁ := by
    refine ⟨le_rfl, hpc₁, ?_, ?_, ?_, ?_, ?_, fun _ _ => rfl, rfl, fun _ _ => rfl, rfl, rfl⟩
    · simpa [bytesAt] using hsending₁
    · simpa [bytesAt] using hcycles₁
    · rw [hframe₁.reg cnt (by simp), hcnt]
    · rw [Cpu.y, hframe₁.reg 29#5 (by simp), hframe₁.reg 28#5 (by simp)]
      simpa using hy
    · rw [hstatus₁, Nat.sub_self]
  refine (Reaches.loop _ (fun n s => byteRound hlen hp (by omega)) hremaining).bind ?_
  intro s₂ h₂
  have hcycles₂ := h₂.cycles
  refine (endOfPacket_run h₂.pc hport hnew hdev h₂.sending hcycles₂ h₂.cnt).mono ?_
  rintro s' ⟨hpc', houts', hsram', hout', hddr', hio', hframe'⟩
  have hy₂ : s₂.y + 1#16 ≠ 2#16 := by
    intro heq
    have hnat := congrArg BitVec.toNat heq
    rw [h₂.y, BitVec.add_assoc, ← BitVec.ofNat_add, toNat_add_ofNat (by omega)] at hnat
    simp at hnat
    omega
  have hddr₂ : s₂.io usbDdr &&& ~~~usbMask = s.io usbDdr &&& ~~~usbMask := by
    rw [h₂.kept.io usbDdr (by decide), hddr₁, mask_released]
  rw [if_neg hy₂] at houts' hsram'
  have hsram₂ : s₂.sram = s.sram := by rw [h₂.kept.sram, hframe₁.sram]
  refine ⟨hpc', ?_, ?_, hout', by rw [hddr', hddr₂], ?_, ?_⟩
  · rw [houts', hddr₂, hframe₁.sram, Nat.sub_zero]
    simp only [transmission, List.append_assoc]
  · rw [hsram', hsram₂]
  · intro a hout hddr hpending
    rw [hio' a hout hddr hpending, h₂.kept.io a hout, hio₁ a hout hddr]
  · refine ⟨?_, rfl, rfl, rfl, ?_, ?_⟩
    · intro r hr
      simp at hr
      rw [hframe'.reg r (by simp [hr]), h₂.kept.reg r (by simp [hr]), hframe₁.reg r (by simp [hr])]
    · rw [hframe'.stack, h₂.kept.stack, hframe₁.stack]
    · rw [hframe'.saved, h₂.kept.saved, hframe₁.saved]

/-- A handshake goes out from `r0`, and leaves the address as it is. -/
theorem sendCntAndReti_run (hpc : s.pc = (sendCntAndReti, 0)) (hport : Released (s.io usbOut))
    (hnew : 0x60 ≤ usbNewDeviceAddr.toNat) (hdev : 0x60 ≤ usbDeviceAddr.toNat) :
    Reaches (txCode usbDeviceAddr usbNewDeviceAddr flash) s
      (Transmitted (s.cycles + 4) 24 [s.reg cnt] s.sram s) := by
  refine .steps 4 ?_
  generalize hs₀ : (txCode usbDeviceAddr usbNewDeviceAddr flash).step^[4] s = s₀
  have hentry : s₀.pc = (usbSendAndReti, 0) ∧ s₀.reg 0#5 = s.reg cnt ∧ s₀.y = 0#16 ∧
      s₀.reg cnt = BitVec.ofNat 8 2 ∧ s₀.cycles = s.cycles + 4 ∧ s₀.io = s.io ∧
      s₀.outs = s.outs ∧ Frame [0#5, yl, yh, cnt] s s₀ := by
    obtain ⟨reg, carry, zero, t, sram, io, outs, cycles, pc, stack, saved⟩ := s
    cases hpc
    simp [txCode] at hs₀
    subst hs₀
    refine ⟨rfl, by simp, by simp, by simp, rfl, rfl, rfl, ?_, rfl, rfl, rfl, rfl, rfl⟩
    intro r hr
    simp at hr
    simp [hr]
  obtain ⟨hpc₀, hr0₀, hy₀, hcnt₀, hcycles₀, hio₀, houts₀, hframe₀⟩ := hentry
  refine (sync_run hpc₀ (by rwa [hio₀])).bind ?_
  rintro s₁ ⟨hpc₁, hsending₁, hcycles₁, hstatus₁, hddr₁, hio₁, hframe₁⟩
  have hcnt₁ : s₁.reg cnt = BitVec.ofNat 8 (1 + 1) := by rw [hframe₁.reg cnt (by simp), hcnt₀]
  refine (nextByte_run hpc₁ hcnt₁ (by omega) (by omega)).bind ?_
  rintro s₂ ⟨hpc₂, hcnt₂, hshift₂, hy₂, hcycles₂, hframe₂⟩
  have hy₁ : s₁.y = 0#16 := by
    rw [Cpu.y, hframe₁.reg 29#5 (by simp), hframe₁.reg 28#5 (by simp)]
    exact hy₀
  have hpid : s₂.reg shift = s.reg cnt := by
    rw [hshift₂, hy₁]
    exact (hframe₁.reg 0#5 (by simp)).trans hr0₀
  have hsending₂ := hsending₁.of_frame hframe₂ (by simp) (by simp) (by simp)
  have hstatus₂ : 222 ≤ (s₂.reg bitStatus).toNat := by
    rw [hframe₂.reg bitStatus (by simp), hstatus₁]
    decide
  have hnonempty : lsbFirst 0x80#8 ≠ [] := by simp [lsbFirst]
  have hdue₂ : s₂.cycles + 2 = due (s₀.cycles + 11) (lsbFirst 0x80#8) := by omega
  refine (byte_run hpc₂ hsending₂ hdue₂ (fun hnil => absurd hnil hnonempty) hstatus₂).bind ?_
  rintro s₃ ⟨hpc₃, hsending₃, hcycles₃, -, -, hkept₃⟩
  have hy₃ : s₃.y + 1#16 = 2#16 := by
    rw [Cpu.y, hkept₃.reg 29#5 (by simp), hkept₃.reg 28#5 (by simp)]
    refine (congrArg (· + 1#16) (hy₂.trans (congrArg (· + 1#16) hy₁))).trans ?_
    rfl
  have hcnt₃ : s₃.reg cnt = 1#8 := by rw [hkept₃.reg cnt (by simp), hcnt₂]
  have hport₀ : Released (s₀.io usbOut) := by rwa [hio₀]
  refine (endOfPacket_run hpc₃ hport₀ hnew hdev hsending₃ hcycles₃ hcnt₃).mono ?_
  rintro s' ⟨hpc', houts', hsram', hout', hddr', hio', hframe'⟩
  rw [if_pos hy₃] at houts' hsram'
  have hddr₃ : s₃.io usbDdr &&& ~~~usbMask = s.io usbDdr &&& ~~~usbMask := by
    rw [hkept₃.io usbDdr (by decide), hframe₂.io, hddr₁, mask_released, hio₀]
  refine ⟨hpc', ?_, ?_, by rw [hout', hio₀], by rw [hddr', hddr₃], ?_, ?_⟩
  · rw [houts', hddr₃, hpid, hio₀, houts₀, hcycles₀]
    simp only [transmission, List.append_assoc]
    simp
  · rw [hsram', hkept₃.sram, hframe₂.sram, hframe₁.sram, hframe₀.sram]
  · intro a hout hddr hpending
    rw [hio' a hout hddr hpending, hkept₃.io a hout, hframe₂.io, hio₁ a hout hddr, hio₀]
  · refine ⟨?_, rfl, rfl, rfl, ?_, ?_⟩
    · intro r hr
      simp at hr
      rw [hframe'.reg r (by simp [hr]), hkept₃.reg r (by simp [hr]), hframe₂.reg r (by simp [hr]),
        hframe₁.reg r (by simp [hr]), hframe₀.reg r (by simp [hr])]
    · rw [hframe'.stack, hkept₃.stack, hframe₂.stack, hframe₁.stack, hframe₀.stack]
    · rw [hframe'.saved, hkept₃.saved, hframe₂.saved, hframe₁.saved, hframe₀.saved]

end Packet

end NesMiniAdapter.UsbTransmitter
