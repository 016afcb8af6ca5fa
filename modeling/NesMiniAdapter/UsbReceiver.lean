import NesMiniAdapter.UsbTransmitter

/-!
The receiver of `usbdrv/usbdrvasm165.inc`: its code, and what the loop does with one bit of
the line, which is `hear`.
-/

namespace NesMiniAdapter.UsbReceiver

open NesMiniAdapter.Crc
open NesMiniAdapter.AvrMachine
open NesMiniAdapter.LineCode
open NesMiniAdapter.UsbTransmitter (x1 x2 shift cnt x3 x4 yl yh usbMinus usbMask)

@[simp] abbrev phase : Reg := x4

@[simp] abbrev usbIn : Port := 0x16
@[simp] abbrev sreg : Port := 0x3F

@[simp] abbrev usbBufsize : BitVec 8 := 11

inductive RxLabel where
  | usbIntrVector
  | waitForJ
  | waitForK
  | foundK
  | haveTwoBitsK
  | continueWithBit5
  | didUnstuff6
  | didUnstuff5
  | didUnstuff5Nop2
  | didUnstuff7
  | unstuff7
  | unstuff5
  | unstuff5Nop2
  | unstuff6
  | unstuff6Nop2
  | unstuff0
  | unstuff1
  | unstuff2
  | unstuff3
  | unstuff4
  | rxLoop
  | rxbit1
  | didUnstuff0
  | didUnstuff1
  | didUnstuff2
  | didUnstuff3
  | didUnstuff4
  | se0
  | overflow
  | sofError
  deriving DecidableEq, Repr

open RxLabel

/-- The linker places the two variables; `pins` is what the port shows. What follows at the
last three labels is left out. -/
def rxCode (usbRxBuf usbInputBufOffset : BitVec 16) (flash : BitVec 16 → BitVec 8)
    (pins : Nat → BitVec 8) : Code RxLabel where
  block
    | usbIntrVector => [.push yl, .in yl sreg, .push yl]
    | waitForJ => [.inc yl, .sbis usbIn usbMinus, .brne waitForJ]
    | waitForK =>
        [.sbis usbIn usbMinus, .rjmp foundK, .sbis usbIn usbMinus, .rjmp foundK,
          .sbis usbIn usbMinus, .rjmp foundK, .sbis usbIn usbMinus, .rjmp foundK,
          .sbis usbIn usbMinus, .rjmp foundK, .sbis usbIn usbMinus, .rjmp foundK, .rjmp sofError]
    | foundK =>
        [.push 0#5, .push yh, .lds yl usbInputBufOffset, .eor yh yh,
          .subi yl ((-usbRxBuf).extractLsb' 0 8), .sbci yh ((-usbRxBuf).extractLsb' 8 8),
          .mov 0#5 x2, .sbis usbIn usbMinus, .rjmp haveTwoBitsK, .pop yh, .pop 0#5, .rjmp waitForK]
    | haveTwoBitsK =>
        [.push shift, .push x1, .push x2, .push x3, .ldi shift 0xff, .ori x3 0xff, .in x1 usbIn,
          .bst x1 usbMinus, .bld shift 0, .push x4, .push cnt, .ldi phase 0, .ldi cnt usbBufsize,
          .rjmp rxbit1]
    | continueWithBit5 =>
        [.in x2 usbIn, .eor 0#5 x2, .or phase 0#5, .sbrc phase usbMinus, .lpm, .in phase usbIn,
          .eor x1 x2, .bst x1 usbMinus, .bld shift 5, .andi shift 0x3f, .in x1 usbIn,
          .breq unstuff5, .eor phase x1, .eor x2 x1, .bst x2 usbMinus, .bld shift 6]
    | didUnstuff6 => [.in 0#5 usbIn, .cpi shift 0x02, .brcs unstuff6]
    | didUnstuff5 => [.rjmp didUnstuff5Nop2]
    | didUnstuff5Nop2 => [.in x2 usbIn, .eor x1 x2, .bst x1 usbMinus, .bld shift 7]
    | didUnstuff7 => [.eor 0#5 x2, .or phase 0#5, .in 0#5 usbIn, .cpi shift 0x04, .brcc rxLoop]
    | unstuff7 => [.andi x3 (~~~0x80), .ori shift 0x80, .in x2 usbIn, .nop, .rjmp didUnstuff7]
    | unstuff5 =>
        [.eor phase x1, .andi x3 (~~~0x20), .ori shift 0x20, .in 0#5 usbIn, .mov x2 x1, .nop,
          .rjmp unstuff5Nop2]
    | unstuff5Nop2 =>
        [.in x1 usbIn, .eor 0#5 x1, .or phase 0#5, .eor x2 x1, .bst x2 usbMinus, .bld shift 6,
          .in 0#5 usbIn, .rjmp didUnstuff5]
    | unstuff6 => [.andi x3 (~~~0x40), .in x1 usbIn, .ori shift 0x40, .rjmp unstuff6Nop2]
    | unstuff6Nop2 => [.rjmp didUnstuff6]
    | unstuff0 =>
        [.eor 0#5 x2, .or phase 0#5, .andi x2 usbMask, .in 0#5 usbIn, .breq didUnstuff0,
          .andi x3 (~~~0x01), .ori shift 0x01, .mov x1 x2, .in x2 usbIn, .rjmp didUnstuff0]
    | unstuff1 =>
        [.eor 0#5 x1, .or phase 0#5, .andi x3 (~~~0x02), .in 0#5 usbIn, .ori shift 0x02,
          .mov x2 x1, .rjmp didUnstuff1]
    | unstuff2 =>
        [.eor 0#5 x2, .or phase 0#5, .andi x3 (~~~0x04), .in 0#5 usbIn, .ori shift 0x04,
          .mov x1 x2, .rjmp didUnstuff2]
    | unstuff3 =>
        [.in x2 usbIn, .eor 0#5 x2, .or phase 0#5, .andi x3 (~~~0x08), .ori shift 0x08, .nop,
          .in 0#5 usbIn, .rjmp didUnstuff3]
    | unstuff4 => [.andi x3 (~~~0x10), .in x1 usbIn, .ori shift 0x10, .rjmp didUnstuff4]
    | rxLoop =>
        [.eor x3 shift, .in x1 usbIn, .stYInc x3, .eor 0#5 x1, .or phase 0#5, .eor x2 x1,
          .in 0#5 usbIn, .ldi x3 0xff, .bst x2 usbMinus, .bld shift 0, .andi shift 0xf9]
    | rxbit1 => [.in x2 usbIn, .breq unstuff0, .andi x2 usbMask]
    | didUnstuff0 =>
        [.breq se0, .eor 0#5 x2, .or phase 0#5, .in 0#5 usbIn, .eor x1 x2, .bst x1 usbMinus,
          .bld shift 1, .andi shift 0xf3]
    | didUnstuff1 =>
        [.in x1 usbIn, .breq unstuff1, .eor 0#5 x1, .or phase 0#5, .subi cnt 1, .brcs overflow,
          .in 0#5 usbIn, .eor x2 x1, .bst x2 usbMinus, .bld shift 2, .andi shift 0xe7]
    | didUnstuff2 =>
        [.in x2 usbIn, .breq unstuff2, .eor 0#5 x2, .or phase 0#5, .eor x1 x2, .bst x1 usbMinus,
          .in 0#5 usbIn, .bld shift 3, .andi shift 0xcf]
    | didUnstuff3 =>
        [.breq unstuff3, .nop, .in x1 usbIn, .eor x2 x1, .bst x2 usbMinus, .bld shift 4]
    | didUnstuff4 =>
        [.eor 0#5 x1, .or phase 0#5, .in 0#5 usbIn, .andi shift 0x9f, .breq unstuff4,
          .rjmp continueWithBit5]
    | se0 => []
    | overflow => []
    | sofError => []
  next
    | usbIntrVector => waitForJ
    | waitForJ => waitForK
    | waitForK => foundK
    | foundK => haveTwoBitsK
    | haveTwoBitsK => continueWithBit5
    | continueWithBit5 => didUnstuff6
    | didUnstuff6 => didUnstuff5
    | didUnstuff5 => didUnstuff5Nop2
    | didUnstuff5Nop2 => didUnstuff7
    | didUnstuff7 => unstuff7
    | unstuff7 => unstuff5
    | unstuff5 => unstuff5Nop2
    | unstuff5Nop2 => unstuff6
    | unstuff6 => unstuff6Nop2
    | unstuff6Nop2 => unstuff0
    | unstuff0 => unstuff1
    | unstuff1 => unstuff2
    | unstuff2 => unstuff3
    | unstuff3 => unstuff4
    | unstuff4 => rxLoop
    | rxLoop => rxbit1
    | rxbit1 => didUnstuff0
    | didUnstuff0 => didUnstuff1
    | didUnstuff1 => didUnstuff2
    | didUnstuff2 => didUnstuff3
    | didUnstuff3 => didUnstuff4
    | didUnstuff4 => se0
    | se0 => overflow
    | overflow => sofError
    | sofError => sofError
  flash := flash
  input a := if a = usbIn then some pins else none

/-- Which bit of `shift` belongs to the bit received `i` bits ago. -/
def slot (length i : Nat) : Nat := (length + 7 - i) % 8

/-- What is cleared of `shift` with each bit. -/
def keep : Nat → BitVec 8
  | 0 => 0xf9
  | 1 => 0xf3
  | 2 => 0xe7
  | 3 => 0xcf
  | 4 => 0x9f
  | 5 => 0x3f
  | _ => 0xff

/-- `bld`, and the `andi` that mostly follows it. -/
def record (k : Nat) (change : Bool) (v : BitVec 8) : BitVec 8 :=
  (v &&& ~~~(1#8 <<< k) ||| if change then 1#8 <<< k else 0#8) &&& keep k

/-- The register after `length` bits of a byte: the last `ones` of them were ones, which are
zeros here, and two places are clear for the bits to come. In the first byte, where nothing has
been cleared yet, there is no such run. -/
structure Window (length ones : Nat) (v : BitVec 8) : Prop where
  le : ones ≤ 6
  zeros : ∀ i < ones, v.getLsbD (slot length i) = false
  one : ones < 6 → v.getLsbD (slot length ones) = true
  clear : (length = 1 → 1 < ones) → ∀ i < 8, length ≤ i → i ≤ length + 1 →
    v.getLsbD i = false

theorem getLsbD_keep : ∀ k < 8, ∀ i < 8,
    (keep k).getLsbD i = decide (5 < k ∨ i ≠ k + 1 ∧ i ≠ k + 2) := by
  decide

theorem getLsbD_one_shiftLeft : ∀ k < 8, ∀ i < 8, (1#8 <<< k).getLsbD i = decide (i = k) := by
  decide

theorem getLsbD_record {k i : Nat} (hk : k < 8) (hi : i < 8) (change : Bool) (v : BitVec 8) :
    (record k change v).getLsbD i =
      if i = k then change else v.getLsbD i && decide (5 < k ∨ i ≠ k + 1 ∧ i ≠ k + 2) := by
  rw [record, BitVec.getLsbD_and, BitVec.getLsbD_or, BitVec.getLsbD_and, BitVec.getLsbD_not,
    getLsbD_one_shiftLeft k hk i hi, getLsbD_keep k hk i hi]
  by_cases hik : i = k
  · subst hik
    have hmask : 5 < i ∨ i ≠ i + 1 ∧ i ≠ i + 2 := by omega
    rw [if_pos rfl, decide_eq_true rfl, decide_eq_true hmask, Bool.and_true]
    cases change <;> simp [hk]
  · rw [if_neg hik, decide_eq_false hik, decide_eq_true hi]
    cases change with
    | false => simp
    | true =>
        rw [if_pos rfl, getLsbD_one_shiftLeft k hk i hi, decide_eq_false hik]
        simp

theorem slot_lt (length i : Nat) : slot length i < 8 := Nat.mod_lt _ (by decide)

/-- The last six bits are in all places but two. -/
theorem slot_cases {length i : Nat} (hlen : length ≤ 8) (hi : i < 8) :
    i = length % 8 ∨ i = (length + 1) % 8 ∨ ∃ j < 6, slot length j = i := by
  by_cases h : (length + 7 - i) % 8 < 6
  · refine .inr (.inr ⟨(length + 7 - i) % 8, h, ?_⟩)
    rw [slot]
    omega
  · omega

theorem Window.zero {length ones : Nat} {v : BitVec 8} (h : Window length ones v)
    (hpos : 0 < length) (hlen : length ≤ 6) : (v == 0#8) = decide (ones = 6) := by
  have hiff : v = 0#8 ↔ ones = 6 := by
    constructor
    · rintro rfl
      by_contra hne
      have hle := h.le
      have hone := h.one (by omega)
      simp at hone
    · rintro rfl
      apply BitVec.eq_of_getLsbD_eq
      intro i hi
      rw [BitVec.getLsbD_zero]
      rcases slot_cases (show length ≤ 8 by omega) hi with hlast | hlast | ⟨j, hj, rfl⟩
      · exact h.clear (by omega) i hi (by omega) (by omega)
      · exact h.clear (by omega) i hi (by omega) (by omega)
      · exact h.zeros j hj
  rw [Bool.eq_iff_iff, beq_iff_eq, decide_eq_true_eq, hiff]

/-- The comparisons of the last two bits leave out the bits below `m`. -/
theorem Window.ult {length ones : Nat} {v : BitVec 8} (h : Window length ones v)
    {m : Nat} (hm : length = m + 6) (hpos : 0 < m) (hm' : m ≤ 2) :
    v.ult (1#8 <<< m) = decide (ones = 6) := by
  have hsmall : v.ult (1#8 <<< m) = true ↔ ∀ i < 8, m ≤ i → v.getLsbD i = false := by
    have hall : ∀ m < 3, ∀ v : BitVec 8,
        v.ult (1#8 <<< m) = true ↔ ∀ i < 8, m ≤ i → v.getLsbD i = false := by
      decide +kernel
    exact hall m (by omega) v
  rw [Bool.eq_iff_iff, decide_eq_true_eq, hsmall]
  constructor
  · intro hzeros
    by_contra hne
    have hle := h.le
    have hone := h.one (by omega)
    have hslot : m ≤ slot length ones := by
      rw [slot]
      omega
    rw [hzeros _ (slot_lt _ _) hslot] at hone
    cases hone
  · rintro rfl i hi hmi
    rcases slot_cases (show length ≤ 8 by omega) hi with hlast | hlast | ⟨j, hj, rfl⟩
    · exact h.clear (by omega) i hi (by omega) (by omega)
    · omega
    · exact h.zeros j hj

theorem Window.record {length ones k : Nat} {v : BitVec 8} (h : Window length ones v)
    (hk : k < 8) (hlength : length = k ∧ 0 < k ∨ length = 8 ∧ k = 0) (hones : ones < 6)
    (change : Bool) :
    Window (k + 1) (if change then 0 else ones + 1) (UsbReceiver.record k change v) := by
  have hslot : ∀ i, i < 6 → slot (k + 1) (i + 1) = slot length i := by
    intro i hi
    rw [slot, slot]
    omega
  have hfirst : slot (k + 1) 0 = k := by
    rw [slot]
    omega
  have hkept : ∀ i, i < 5 → (UsbReceiver.record k change v).getLsbD (slot (k + 1) (i + 1)) =
      v.getLsbD (slot length i) := by
    intro i hi
    have hne : slot (k + 1) (i + 1) ≠ k := by
      rw [slot]
      omega
    have hmask : 5 < k ∨ slot (k + 1) (i + 1) ≠ k + 1 ∧ slot (k + 1) (i + 1) ≠ k + 2 := by
      rw [slot]
      omega
    rw [getLsbD_record hk (slot_lt _ _), if_neg hne, decide_eq_true hmask, Bool.and_true,
      hslot i (by omega)]
  constructor
  · split <;> omega
  · intro i hi
    cases i with
    | zero =>
        cases change with
        | true => exact absurd hi (Nat.lt_irrefl 0)
        | false => rw [hfirst, getLsbD_record hk hk, if_pos rfl]
    | succ i =>
        cases change with
        | true => exact absurd hi (Nat.not_lt_zero _)
        | false =>
            have hi : i + 1 < ones + 1 := hi
            rw [hkept i (by omega)]
            exact h.zeros i (by omega)
  · cases change with
    | true =>
        intro _
        rw [if_pos rfl, hfirst, getLsbD_record hk hk, if_pos rfl]
    | false =>
        intro hlt
        rw [if_neg (by decide)] at hlt ⊢
        rw [hkept ones (by omega)]
        exact h.one (by omega)
  · intro _ i hi hge hle
    rw [getLsbD_record hk hi, if_neg (by omega)]
    by_cases hmask : 5 < k
    · rcases hlength with ⟨rfl, -⟩ | ⟨-, rfl⟩
      · rw [h.clear (by omega) i hi (by omega) (by omega), Bool.false_and]
      · omega
    · rw [decide_eq_false (by omega), Bool.and_false]

theorem Window.stuffed {k : Nat} {v : BitVec 8} (h : Window (k + 1) 6 v) (hk : k < 8) :
    Window (k + 1) 0 (v ||| 1#8 <<< k) := by
  have hfirst : slot (k + 1) 0 = k := by
    rw [slot]
    omega
  constructor
  · omega
  · exact fun i hi => absurd hi (Nat.not_lt_zero i)
  · intro _
    rw [hfirst, BitVec.getLsbD_or, getLsbD_one_shiftLeft k hk k hk, decide_eq_true rfl,
      Bool.or_true]
  · intro _ i hi hge hle
    rw [BitVec.getLsbD_or, getLsbD_one_shiftLeft k hk i hi, decide_eq_false (by omega),
      h.clear (by omega) i hi hge hle, Bool.or_false]

/-- What the receiver knows between two bits of the line: whole bytes, the bits of another
one, the run of ones at their end, the level and whether the last bit was left out. `mid` is
the level five cycles before the next sample, and `early` says that it has differed from the
sample. -/
structure Progress where
  bytes : List (List Bool)
  bits : List Bool
  ones : Nat
  level : Bool
  skipped : Bool
  mid : Bool
  early : Bool
  next : Nat

/-- Where the program is before it takes a sample after bit number `k`, and how many cycles
before. -/
def place : Nat → Bool → Bool → (RxLabel × Nat) × Nat
  | 0, _, false => ((rxbit1, 0), 0)
  | 0, _, true => ((unstuff0, 8), 0)
  | 1, _, _ => ((didUnstuff1, 0), 0)
  | 2, _, _ => ((didUnstuff2, 0), 0)
  | 3, _, _ => ((didUnstuff3, 0), 2)
  | 4, _, _ => ((didUnstuff4, 4), 3)
  | 5, _, false => ((continueWithBit5, 10), 0)
  | 5, _, true => ((unstuff5Nop2, 0), 0)
  | 6, false, _ => ((didUnstuff5, 0), 2)
  | 6, true, _ => ((unstuff6, 0), 1)
  | _, _, _ => ((didUnstuff7, 4), 3)

/-- Where the last sample is. -/
def levelReg (k : Nat) : Reg := if k % 2 = 0 then x1 else x2

def midReg (k : Nat) (skipped : Bool) : Reg := if k = 5 && !skipped then phase else 0#5

abbrev clobbered : List Reg := [0#5, x1, x2, shift, cnt, x3, x4]

theorem and_ff (v : BitVec 8) : v &&& 0xff#8 = v := BitVec.and_allOnes

section Segments

variable {usbRxBuf usbInputBufOffset : BitVec 16} {flash : BitVec 16 → BitVec 8}
  {pins : Nat → BitVec 8} {g : Progress} {s : Cpu RxLabel}

/-- The line as it is read. -/
def minus (pins : Nat → BitVec 8) (t : Nat) : Bool := (pins t).getLsbD usbMinus

/-- The registers that matter for the next bit, after bit number `k`. -/
structure Ready (k : Nat) (g : Progress) (s : Cpu RxLabel) : Prop where
  pc : s.pc = (place k (g.ones == 6) g.skipped).1
  time : s.cycles + (place k (g.ones == 6) g.skipped).2 = g.next
  zero : k < 6 → s.zero = (g.ones == 6)
  carry : k = 7 → s.carry = (g.ones == 6)
  level : (s.reg (levelReg k)).getLsbD usbMinus = g.level
  mid : (s.reg (midReg k g.skipped)).getLsbD usbMinus = g.mid
  early : (k = 5 → g.skipped = true) → (s.reg phase).getLsbD usbMinus = g.early
  fresh : k = 5 → g.skipped = false → g.early = false

/-- From `s` to `s'` the program takes a sample and records bit number `k`. -/
structure HearsBit (pins : Nat → BitVec 8) (k : Nat) (g : Progress) (s s' : Cpu RxLabel) :
    Prop where
  pc : s'.pc = (place k ((s'.reg shift).ult 2) false).1
  time : s'.cycles + (place k ((s'.reg shift).ult 2) false).2 = g.next +
    if k = 5 then if g.early || (g.mid != minus pins g.next) then 12 else 10 else 11
  zero : k < 6 → s'.zero = (s'.reg shift == 0#8)
  carry : k = 7 → s'.carry = (s'.reg shift).ult 4
  level : (s'.reg (levelReg k)).getLsbD usbMinus = minus pins g.next
  mid : (s'.reg (midReg k false)).getLsbD usbMinus =
    minus pins (s'.cycles + (place k ((s'.reg shift).ult 2) false).2 - 5)
  early : k ≠ 5 → (s'.reg phase).getLsbD usbMinus = (g.early || (g.mid != minus pins g.next))
  shift : s'.reg shift = record k (g.level != minus pins g.next) (s.reg shift)
  x3 : s'.reg x3 = s.reg x3
  cnt : s'.reg cnt = if k = 2 then s.reg cnt - 1 else s.reg cnt
  frame : Frame clobbered s s'

theorem bit1_run (h : Ready 0 g s) (hones : g.ones ≠ 6) (hskipped : g.skipped = false)
    (hline : (pins g.next &&& usbMask == 0#8) = false) :
    Reaches (rxCode usbRxBuf usbInputBufOffset flash pins) s (HearsBit pins 1 g s) := by
  have hfull : (g.ones == 6) = false := beq_false_of_ne hones
  obtain ⟨hpc, htime, hzero, -, hlevel, hmid, hearly, -⟩ := h
  rw [hskipped] at hpc htime
  obtain ⟨reg, carry, zero, t, sram, io, outs, cycles, pc, stack, saved⟩ := s
  obtain rfl : pc = (rxbit1, 0) := hpc
  obtain rfl : zero = false := (hzero (by decide)).trans hfull
  obtain rfl : cycles = g.next := htime
  have hlevel : (reg 16#5)[3] = g.level := hlevel
  have hmid : (reg 0#5)[3] = g.mid := hmid
  have hearly : (reg 21#5)[3] = g.early := hearly (by simp)
  have hline : (pins g.next &&& 10#8 == 0#8) = false := hline
  refine ⟨11, ?_⟩
  generalize hs' : (rxCode usbRxBuf usbInputBufOffset flash pins).step^[11] _ = s'
  simp [rxCode, hline] at hs'
  subst hs'
  refine ⟨rfl, rfl, ?_, ?_, ?_, rfl, ?_, ?_, ?_, ?_, ?_, rfl, rfl, rfl, rfl, rfl⟩
  · exact fun _ => by simp
  · exact fun hk => by omega
  · simp [levelReg, minus]
  · exact fun _ => by simp [hmid, hearly, minus]
  · simp [record, keep, minus, hlevel]
  · simp
  · simp
  · intro r hr
    simp at hr
    simp [hr]

/-- The sample after a bit that was left out is not compared with the mask. -/
theorem bit1_run_skipped (h : Ready 0 g s) (hones : g.ones ≠ 6) (hskipped : g.skipped = true) :
    Reaches (rxCode usbRxBuf usbInputBufOffset flash pins) s (HearsBit pins 1 g s) := by
  have hfull : (g.ones == 6) = false := beq_false_of_ne hones
  obtain ⟨hpc, htime, hzero, -, hlevel, hmid, hearly, -⟩ := h
  rw [hskipped] at hpc htime
  obtain ⟨reg, carry, zero, t, sram, io, outs, cycles, pc, stack, saved⟩ := s
  obtain rfl : pc = (unstuff0, 8) := hpc
  obtain rfl : zero = false := (hzero (by decide)).trans hfull
  obtain rfl : cycles = g.next := htime
  have hlevel : (reg 16#5)[3] = g.level := hlevel
  have hmid : (reg 0#5)[3] = g.mid := hmid
  have hearly : (reg 21#5)[3] = g.early := hearly (by simp)
  refine ⟨10, ?_⟩
  generalize hs' : (rxCode usbRxBuf usbInputBufOffset flash pins).step^[10] _ = s'
  simp [rxCode] at hs'
  subst hs'
  refine ⟨rfl, rfl, ?_, ?_, ?_, rfl, ?_, ?_, ?_, ?_, ?_, rfl, rfl, rfl, rfl, rfl⟩
  · exact fun _ => by simp
  · exact fun hk => by omega
  · simp [levelReg, minus]
  · exact fun _ => by simp [hmid, hearly, minus]
  · simp [record, keep, minus, hlevel]
  · simp
  · simp
  · intro r hr
    simp at hr
    simp [hr]

theorem bit2_run (h : Ready 1 g s) (hones : g.ones ≠ 6) (hcnt : (s.reg cnt).ult 1 = false) :
    Reaches (rxCode usbRxBuf usbInputBufOffset flash pins) s (HearsBit pins 2 g s) := by
  have hfull : (g.ones == 6) = false := beq_false_of_ne hones
  obtain ⟨hpc, htime, hzero, -, hlevel, hmid, hearly, -⟩ := h
  obtain ⟨reg, carry, zero, t, sram, io, outs, cycles, pc, stack, saved⟩ := s
  obtain rfl : pc = (didUnstuff1, 0) := hpc
  obtain rfl : zero = false := (hzero (by decide)).trans hfull
  obtain rfl : cycles = g.next := htime
  have hlevel : (reg 17#5)[3] = g.level := hlevel
  have hmid : (reg 0#5)[3] = g.mid := hmid
  have hearly : (reg 21#5)[3] = g.early := hearly (by simp)
  have hcnt : (reg 19#5).ult 1#8 = false := hcnt
  refine ⟨11, ?_⟩
  generalize hs' : (rxCode usbRxBuf usbInputBufOffset flash pins).step^[11] _ = s'
  simp [rxCode, hcnt] at hs'
  subst hs'
  refine ⟨rfl, rfl, ?_, ?_, ?_, rfl, ?_, ?_, ?_, ?_, ?_, rfl, rfl, rfl, rfl, rfl⟩
  · exact fun _ => by simp
  · exact fun hk => by omega
  · simp [levelReg, minus]
  · exact fun _ => by simp [hmid, hearly, minus]
  · simp [record, keep, minus, hlevel]
  · simp
  · simp
  · intro r hr
    simp at hr
    simp [hr]

theorem bit3_run (h : Ready 2 g s) (hones : g.ones ≠ 6) :
    Reaches (rxCode usbRxBuf usbInputBufOffset flash pins) s (HearsBit pins 3 g s) := by
  have hfull : (g.ones == 6) = false := beq_false_of_ne hones
  obtain ⟨hpc, htime, hzero, -, hlevel, hmid, hearly, -⟩ := h
  obtain ⟨reg, carry, zero, t, sram, io, outs, cycles, pc, stack, saved⟩ := s
  obtain rfl : pc = (didUnstuff2, 0) := hpc
  obtain rfl : zero = false := (hzero (by decide)).trans hfull
  obtain rfl : cycles = g.next := htime
  have hlevel : (reg 16#5)[3] = g.level := hlevel
  have hmid : (reg 0#5)[3] = g.mid := hmid
  have hearly : (reg 21#5)[3] = g.early := hearly (by simp)
  refine ⟨9, ?_⟩
  generalize hs' : (rxCode usbRxBuf usbInputBufOffset flash pins).step^[9] _ = s'
  simp [rxCode] at hs'
  subst hs'
  refine ⟨rfl, rfl, ?_, ?_, ?_, rfl, ?_, ?_, ?_, ?_, ?_, rfl, rfl, rfl, rfl, rfl⟩
  · exact fun _ => by simp
  · exact fun hk => by omega
  · simp [levelReg, minus]
  · exact fun _ => by simp [hmid, hearly, minus]
  · simp [record, keep, minus, hlevel]
  · simp
  · simp
  · intro r hr
    simp at hr
    simp [hr]

theorem bit4_run (h : Ready 3 g s) (hones : g.ones ≠ 6) :
    Reaches (rxCode usbRxBuf usbInputBufOffset flash pins) s (HearsBit pins 4 g s) := by
  have hfull : (g.ones == 6) = false := beq_false_of_ne hones
  obtain ⟨hpc, htime, hzero, -, hlevel, hmid, hearly, -⟩ := h
  obtain ⟨reg, carry, zero, t, sram, io, outs, cycles, pc, stack, saved⟩ := s
  obtain rfl : pc = (didUnstuff3, 0) := hpc
  obtain rfl : zero = false := (hzero (by decide)).trans hfull
  have htime : cycles + 2 = g.next := htime
  have hpins : pins (cycles + 1 + 1) = pins g.next := congrArg pins htime
  have hlevel : (reg 17#5)[3] = g.level := hlevel
  have hmid : (reg 0#5)[3] = g.mid := hmid
  have hearly : (reg 21#5)[3] = g.early := hearly (by simp)
  refine ⟨10, ?_⟩
  generalize hs' : (rxCode usbRxBuf usbInputBufOffset flash pins).step^[10] _ = s'
  simp [rxCode, hpins] at hs'
  subst hs'
  refine ⟨rfl, ?_, ?_, ?_, ?_, rfl, ?_, ?_, ?_, ?_, ?_, rfl, rfl, rfl, rfl, rfl⟩
  · show cycles + 10 + 3 = g.next + 11
    omega
  · exact fun _ => by simp
  · exact fun hk => by omega
  · simp [levelReg, minus]
  · exact fun _ => by simp [hmid, hearly, minus]
  · simp [record, keep, minus, hlevel]
  · simp
  · simp
  · intro r hr
    simp at hr
    simp [hr]

theorem bit5_run (h : Ready 4 g s) (hones : g.ones ≠ 6) :
    Reaches (rxCode usbRxBuf usbInputBufOffset flash pins) s (HearsBit pins 5 g s) := by
  have hfull : (g.ones == 6) = false := beq_false_of_ne hones
  obtain ⟨hpc, htime, hzero, -, hlevel, hmid, hearly, -⟩ := h
  obtain ⟨reg, carry, zero, t, sram, io, outs, cycles, pc, stack, saved⟩ := s
  obtain rfl : pc = (didUnstuff4, 4) := hpc
  obtain rfl : zero = false := (hzero (by decide)).trans hfull
  have htime : cycles + 3 = g.next := htime
  have hpins : pins (cycles + 1 + 1 + 1) = pins g.next := congrArg pins htime
  have hlevel : (reg 16#5)[3] = g.level := hlevel
  have hmid : (reg 0#5)[3] = g.mid := hmid
  have hearly : (reg 21#5)[3] = g.early := hearly (by simp)
  have hdecision : ((reg 21#5)[3] = false ∧ (reg 0#5)[3] = (pins g.next)[3]) ↔
      ¬ (g.early || (g.mid != minus pins g.next)) = true := by
    simp [hmid, hearly, minus]
  by_cases hlate : (g.early || (g.mid != minus pins g.next)) = true
  · have hwait : ¬ ((reg 21#5)[3] = false ∧ (reg 0#5)[3] = (pins g.next)[3]) :=
      fun h => hdecision.mp h hlate
    refine ⟨12, ?_⟩
    generalize hs' : (rxCode usbRxBuf usbInputBufOffset flash pins).step^[12] _ = s'
    simp [rxCode, hpins, hwait] at hs'
    subst hs'
    refine ⟨rfl, ?_, ?_, ?_, ?_, rfl, ?_, ?_, ?_, ?_, ?_, rfl, rfl, rfl, rfl, rfl⟩
    · rw [if_pos rfl, if_pos hlate]
      show cycles + 15 = g.next + 12
      omega
    · exact fun _ => by simp
    · exact fun hk => by omega
    · simp [levelReg, minus]
    · exact fun hk => by omega
    · simp [record, keep, minus, hlevel]
    · simp
    · simp
    · intro r hr
      simp at hr
      simp [hr]
  · have hwait := hdecision.mpr hlate
    refine ⟨11, ?_⟩
    generalize hs' : (rxCode usbRxBuf usbInputBufOffset flash pins).step^[11] _ = s'
    simp [rxCode, hpins, hwait] at hs'
    subst hs'
    refine ⟨rfl, ?_, ?_, ?_, ?_, rfl, ?_, ?_, ?_, ?_, ?_, rfl, rfl, rfl, rfl, rfl⟩
    · rw [if_pos rfl, if_neg hlate]
      show cycles + 13 = g.next + 10
      omega
    · exact fun _ => by simp
    · exact fun hk => by omega
    · simp [levelReg, minus]
    · exact fun hk => by omega
    · simp [record, keep, minus, hlevel]
    · simp
    · simp
    · intro r hr
      simp at hr
      simp [hr]

theorem bit6_run (h : Ready 5 g s) (hones : g.ones ≠ 6) (hskipped : g.skipped = false) :
    Reaches (rxCode usbRxBuf usbInputBufOffset flash pins) s (HearsBit pins 6 g s) := by
  have hfull : (g.ones == 6) = false := beq_false_of_ne hones
  obtain ⟨hpc, htime, hzero, -, hlevel, hmid, -, hfresh⟩ := h
  have hfresh := hfresh rfl hskipped
  rw [hskipped] at hpc htime hmid
  obtain ⟨reg, carry, zero, t, sram, io, outs, cycles, pc, stack, saved⟩ := s
  obtain rfl : pc = (continueWithBit5, 10) := hpc
  obtain rfl : zero = false := (hzero (by decide)).trans hfull
  obtain rfl : cycles = g.next := htime
  have hlevel : (reg 17#5)[3] = g.level := hlevel
  have hmid : (reg 21#5)[3] = g.mid := hmid
  cases hsix : (reg 18#5 &&& 191#8 |||
    if (reg 17#5)[3] = (pins g.next)[3] then 0#8 else 64#8).ult 2#8
  all_goals
    refine ⟨9, ?_⟩
    generalize hs' : (rxCode usbRxBuf usbInputBufOffset flash pins).step^[9] _ = s'
    simp [rxCode, hsix] at hs'
    subst hs'
    refine ⟨?_, ?_, ?_, ?_, ?_, ?_, ?_, ?_, ?_, ?_, ?_, rfl, rfl, rfl, rfl, rfl⟩
    · simp [place, hsix]
    · simp [place, hsix]
    · exact fun hk => by omega
    · exact fun hk => by omega
    · simp [levelReg, minus]
    · simp [place, midReg, minus, hsix]
    · exact fun _ => by simp [hmid, hfresh, minus]
    · simp [record, keep, minus, hlevel, and_ff]
    · simp
    · simp
    · intro r hr
      simp at hr
      simp [hr]

theorem bit6_run_skipped (h : Ready 5 g s) (hones : g.ones ≠ 6) (hskipped : g.skipped = true)
    (hshort : ∀ change, (record 6 change (s.reg shift)).ult 2 = false) :
    Reaches (rxCode usbRxBuf usbInputBufOffset flash pins) s (HearsBit pins 6 g s) := by
  have hfull : (g.ones == 6) = false := beq_false_of_ne hones
  obtain ⟨hpc, htime, hzero, -, hlevel, hmid, hearly, -⟩ := h
  rw [hskipped] at hpc htime hmid
  obtain ⟨reg, carry, zero, t, sram, io, outs, cycles, pc, stack, saved⟩ := s
  obtain rfl : pc = (unstuff5Nop2, 0) := hpc
  obtain rfl : zero = false := (hzero (by decide)).trans hfull
  obtain rfl : cycles = g.next := htime
  have hlevel : (reg 17#5)[3] = g.level := hlevel
  have hmid : (reg 0#5)[3] = g.mid := hmid
  have hearly : (reg 21#5)[3] = g.early := hearly fun _ => hskipped
  have hsix : (reg 18#5 &&& 191#8 |||
      if (reg 17#5)[3] = (pins g.next)[3] then 0#8 else 64#8).ult 2#8 =
      false := by
    have hshort := hshort (g.level != minus pins g.next)
    simpa [record, keep, minus, hlevel, and_ff] using hshort
  refine ⟨8, ?_⟩
  generalize hs' : (rxCode usbRxBuf usbInputBufOffset flash pins).step^[8] _ = s'
  simp [rxCode] at hs'
  subst hs'
  refine ⟨?_, ?_, ?_, ?_, ?_, ?_, ?_, ?_, ?_, ?_, ?_, rfl, rfl, rfl, rfl, rfl⟩
  · simp [place, hsix]
  · simp [place, hsix]
  · exact fun hk => by omega
  · exact fun hk => by omega
  · simp [levelReg, minus]
  · simp [place, midReg, minus, hsix]
  · exact fun _ => by simp [hmid, hearly, minus]
  · simp [record, keep, minus, hlevel, and_ff]
  · simp
  · simp
  · intro r hr
    simp at hr
    simp [hr]

theorem bit7_run (h : Ready 6 g s) (hones : g.ones ≠ 6) :
    Reaches (rxCode usbRxBuf usbInputBufOffset flash pins) s (HearsBit pins 7 g s) := by
  have hfull : (g.ones == 6) = false := beq_false_of_ne hones
  obtain ⟨hpc, htime, -, -, hlevel, hmid, hearly, -⟩ := h
  obtain ⟨reg, carry, zero, t, sram, io, outs, cycles, pc, stack, saved⟩ := s
  rw [hfull] at hpc htime
  obtain rfl : pc = (didUnstuff5, 0) := hpc
  have htime : cycles + 2 = g.next := htime
  have hpins : pins (cycles + 1 + 1) = pins g.next := congrArg pins htime
  have hlevel : (reg 16#5)[3] = g.level := hlevel
  have hmid : (reg 0#5)[3] = g.mid := hmid
  have hearly : (reg 21#5)[3] = g.early := hearly (by simp)
  refine ⟨9, ?_⟩
  generalize hs' : (rxCode usbRxBuf usbInputBufOffset flash pins).step^[9] _ = s'
  simp [rxCode, hpins] at hs'
  subst hs'
  refine ⟨rfl, ?_, ?_, ?_, ?_, rfl, ?_, ?_, ?_, ?_, ?_, rfl, rfl, rfl, rfl, rfl⟩
  · show cycles + 10 + 3 = g.next + 11
    omega
  · exact fun hk => by omega
  · exact fun _ => by simp
  · simp [levelReg, minus]
  · exact fun _ => by simp [hmid, hearly, minus]
  · simp [record, keep, minus, hlevel, and_ff]
  · simp
  · simp
  · intro r hr
    simp at hr
    simp [hr]

/-- From `s` to `s'` the program stores a byte and takes a sample of the first bit of the next. -/
structure StoresByte (pins : Nat → BitVec 8) (g : Progress) (s s' : Cpu RxLabel) : Prop where
  pc : s'.pc = (rxbit1, 0)
  time : s'.cycles = g.next + 11
  zero : s'.zero = (s'.reg shift == 0#8)
  level : (s'.reg x1).getLsbD usbMinus = minus pins g.next
  mid : (s'.reg 0#5).getLsbD usbMinus = minus pins (s'.cycles - 5)
  early : (s'.reg phase).getLsbD usbMinus = (g.early || (g.mid != minus pins g.next))
  shift : s'.reg shift = record 0 (g.level != minus pins g.next) (s.reg shift)
  x3 : s'.reg x3 = 0xff#8
  cnt : s'.reg cnt = s.reg cnt
  y : s'.y = s.y + 1#16
  sram : s'.sram =
    Function.update s.sram s.y (s.reg UsbTransmitter.x3 ^^^ s.reg UsbTransmitter.shift)
  reg : ∀ r ∉ clobbered, r ≠ yl → r ≠ yh → s'.reg r = s.reg r
  io : s'.io = s.io
  outs : s'.outs = s.outs
  stack : s'.stack = s.stack
  saved : s'.saved = s.saved

theorem byte_run (h : Ready 7 g s) (hones : g.ones ≠ 6) (hy : 0x60 ≤ s.y.toNat) :
    Reaches (rxCode usbRxBuf usbInputBufOffset flash pins) s (StoresByte pins g s) := by
  have hfull : (g.ones == 6) = false := beq_false_of_ne hones
  obtain ⟨hpc, htime, -, hcarry, hlevel, hmid, hearly, -⟩ := h
  obtain ⟨reg, carry, zero, t, sram, io, outs, cycles, pc, stack, saved⟩ := s
  obtain rfl : pc = (didUnstuff7, 4) := hpc
  obtain rfl : carry = false := (hcarry rfl).trans hfull
  have htime : cycles + 3 = g.next := htime
  have hpins : pins (cycles + 2 + 1) = pins g.next := congrArg pins htime
  have hlevel : (reg 17#5)[3] = g.level := hlevel
  have hmid : (reg 0#5)[3] = g.mid := hmid
  have hearly : (reg 21#5)[3] = g.early := hearly (by simp)
  have hy : 0x60 ≤ (reg 29#5 ++ reg 28#5).toNat := hy
  refine ⟨12, ?_⟩
  generalize hs' : (rxCode usbRxBuf usbInputBufOffset flash pins).step^[12] _ = s'
  simp [rxCode, hpins, store_sram hy] at hs'
  subst hs'
  refine ⟨rfl, ?_, ?_, ?_, rfl, ?_, ?_, ?_, ?_, ?_, ?_, ?_, rfl, rfl, rfl, rfl⟩
  · show cycles + 14 = g.next + 11
    omega
  · simp
  · simp [minus]
  · simp [hmid, hearly, minus]
  · simp [record, keep, minus, hlevel]
  · simp
  · simp
  · simp [append_extract]
  · simp
  · intro r hr hyl hyh
    simp at hr hyl hyh
    simp [hr, hyl, hyh]

/-- From `s` to `s'` the program takes a sample of a bit that was put in behind bit number
`k`, and leaves it out. -/
structure DropsBit (pins : Nat → BitVec 8) (k : Nat) (g : Progress) (s s' : Cpu RxLabel) :
    Prop where
  pc : s'.pc = (place k false true).1
  time : s'.cycles + (place k false true).2 = g.next + 11
  zero : k < 6 → s'.zero = false
  carry : k = 7 → s'.carry = false
  level : (s'.reg (levelReg k)).getLsbD usbMinus = minus pins g.next
  mid : (s'.reg 0#5).getLsbD usbMinus = minus pins (s'.cycles + (place k false true).2 - 5)
  early : (s'.reg phase).getLsbD usbMinus =
    if k = 6 then g.early else g.early || (g.mid != minus pins g.next)
  shift : s'.reg shift = s.reg shift ||| 1#8 <<< k
  x3 : s'.reg x3 = s.reg x3 &&& ~~~(1#8 <<< k)
  cnt : s'.reg cnt = s.reg cnt
  frame : Frame clobbered s s'

theorem drop0_run (h : Ready 0 g s) (hones : g.ones = 6) (hskipped : g.skipped = false)
    (hshift : s.reg shift = 0#8) (hline : (pins g.next &&& usbMask == 0#8) = false) :
    Reaches (rxCode usbRxBuf usbInputBufOffset flash pins) s (DropsBit pins 0 g s) := by
  have hfull : (g.ones == 6) = true := beq_iff_eq.mpr hones
  obtain ⟨hpc, htime, hzero, -, hlevel, hmid, hearly, -⟩ := h
  rw [hskipped] at hpc htime
  obtain ⟨reg, carry, zero, t, sram, io, outs, cycles, pc, stack, saved⟩ := s
  obtain rfl : pc = (rxbit1, 0) := hpc
  obtain rfl : zero = true := (hzero (by decide)).trans hfull
  obtain rfl : cycles = g.next := htime
  have hlevel : (reg 16#5)[3] = g.level := hlevel
  have hmid : (reg 0#5)[3] = g.mid := hmid
  have hearly : (reg 21#5)[3] = g.early := hearly (by simp)
  have hshift : reg 18#5 = 0#8 := hshift
  have hline : (pins g.next &&& 10#8 == 0#8) = false := hline
  refine ⟨10, ?_⟩
  generalize hs' : (rxCode usbRxBuf usbInputBufOffset flash pins).step^[10] _ = s'
  simp [rxCode, hline, hshift] at hs'
  subst hs'
  refine ⟨rfl, rfl, ?_, ?_, ?_, rfl, ?_, ?_, ?_, ?_, ?_, rfl, rfl, rfl, rfl, rfl⟩
  · exact fun _ => by simp
  · exact fun hk => by omega
  · simp [levelReg, minus]
  · simp [hmid, hearly, minus]
  · simp [hshift]
  · simp
  · simp
  · intro r hr
    simp at hr
    simp [hr]

theorem drop1_run (h : Ready 1 g s) (hones : g.ones = 6) (hshift : s.reg shift = 0#8) :
    Reaches (rxCode usbRxBuf usbInputBufOffset flash pins) s (DropsBit pins 1 g s) := by
  have hfull : (g.ones == 6) = true := beq_iff_eq.mpr hones
  obtain ⟨hpc, htime, hzero, -, hlevel, hmid, hearly, -⟩ := h
  obtain ⟨reg, carry, zero, t, sram, io, outs, cycles, pc, stack, saved⟩ := s
  obtain rfl : pc = (didUnstuff1, 0) := hpc
  obtain rfl : zero = true := (hzero (by decide)).trans hfull
  obtain rfl : cycles = g.next := htime
  have hlevel : (reg 17#5)[3] = g.level := hlevel
  have hmid : (reg 0#5)[3] = g.mid := hmid
  have hearly : (reg 21#5)[3] = g.early := hearly (by simp)
  have hshift : reg 18#5 = 0#8 := hshift
  refine ⟨9, ?_⟩
  generalize hs' : (rxCode usbRxBuf usbInputBufOffset flash pins).step^[9] _ = s'
  simp [rxCode, hshift] at hs'
  subst hs'
  refine ⟨rfl, rfl, ?_, ?_, ?_, rfl, ?_, ?_, ?_, ?_, ?_, rfl, rfl, rfl, rfl, rfl⟩
  · exact fun _ => by simp
  · exact fun hk => by omega
  · simp [levelReg, minus]
  · simp [hmid, hearly, minus]
  · simp [hshift]
  · simp
  · simp
  · intro r hr
    simp at hr
    simp [hr]

theorem drop2_run (h : Ready 2 g s) (hones : g.ones = 6) (hshift : s.reg shift = 0#8) :
    Reaches (rxCode usbRxBuf usbInputBufOffset flash pins) s (DropsBit pins 2 g s) := by
  have hfull : (g.ones == 6) = true := beq_iff_eq.mpr hones
  obtain ⟨hpc, htime, hzero, -, hlevel, hmid, hearly, -⟩ := h
  obtain ⟨reg, carry, zero, t, sram, io, outs, cycles, pc, stack, saved⟩ := s
  obtain rfl : pc = (didUnstuff2, 0) := hpc
  obtain rfl : zero = true := (hzero (by decide)).trans hfull
  obtain rfl : cycles = g.next := htime
  have hlevel : (reg 16#5)[3] = g.level := hlevel
  have hmid : (reg 0#5)[3] = g.mid := hmid
  have hearly : (reg 21#5)[3] = g.early := hearly (by simp)
  have hshift : reg 18#5 = 0#8 := hshift
  refine ⟨9, ?_⟩
  generalize hs' : (rxCode usbRxBuf usbInputBufOffset flash pins).step^[9] _ = s'
  simp [rxCode, hshift] at hs'
  subst hs'
  refine ⟨rfl, rfl, ?_, ?_, ?_, rfl, ?_, ?_, ?_, ?_, ?_, rfl, rfl, rfl, rfl, rfl⟩
  · exact fun _ => by simp
  · exact fun hk => by omega
  · simp [levelReg, minus]
  · simp [hmid, hearly, minus]
  · simp [hshift]
  · simp
  · simp
  · intro r hr
    simp at hr
    simp [hr]

theorem drop3_run (h : Ready 3 g s) (hones : g.ones = 6) (hshift : s.reg shift = 0#8) :
    Reaches (rxCode usbRxBuf usbInputBufOffset flash pins) s (DropsBit pins 3 g s) := by
  have hfull : (g.ones == 6) = true := beq_iff_eq.mpr hones
  obtain ⟨hpc, htime, hzero, -, hlevel, hmid, hearly, -⟩ := h
  obtain ⟨reg, carry, zero, t, sram, io, outs, cycles, pc, stack, saved⟩ := s
  obtain rfl : pc = (didUnstuff3, 0) := hpc
  obtain rfl : zero = true := (hzero (by decide)).trans hfull
  have htime : cycles + 2 = g.next := htime
  have hpins : pins (cycles + 1 + 1) = pins g.next := congrArg pins htime
  have hlevel : (reg 17#5)[3] = g.level := hlevel
  have hmid : (reg 0#5)[3] = g.mid := hmid
  have hearly : (reg 21#5)[3] = g.early := hearly (by simp)
  have hshift : reg 18#5 = 0#8 := hshift
  refine ⟨9, ?_⟩
  generalize hs' : (rxCode usbRxBuf usbInputBufOffset flash pins).step^[9] _ = s'
  simp [rxCode, hpins, hshift] at hs'
  subst hs'
  refine ⟨rfl, ?_, ?_, ?_, ?_, rfl, ?_, ?_, ?_, ?_, ?_, rfl, rfl, rfl, rfl, rfl⟩
  · show cycles + 11 + 2 = g.next + 11
    omega
  · exact fun _ => by simp
  · exact fun hk => by omega
  · simp [levelReg, minus]
  · simp [hmid, hearly, minus]
  · simp [hshift]
  · simp
  · simp
  · intro r hr
    simp at hr
    simp [hr]

theorem drop4_run (h : Ready 4 g s) (hones : g.ones = 6) (hshift : s.reg shift = 0#8) :
    Reaches (rxCode usbRxBuf usbInputBufOffset flash pins) s (DropsBit pins 4 g s) := by
  have hfull : (g.ones == 6) = true := beq_iff_eq.mpr hones
  obtain ⟨hpc, htime, hzero, -, hlevel, hmid, hearly, -⟩ := h
  obtain ⟨reg, carry, zero, t, sram, io, outs, cycles, pc, stack, saved⟩ := s
  obtain rfl : pc = (didUnstuff4, 4) := hpc
  obtain rfl : zero = true := (hzero (by decide)).trans hfull
  have htime : cycles + 3 = g.next := htime
  have hpins : pins (cycles + 1 + 1 + 1) = pins g.next := congrArg pins htime
  have hlevel : (reg 16#5)[3] = g.level := hlevel
  have hmid : (reg 0#5)[3] = g.mid := hmid
  have hearly : (reg 21#5)[3] = g.early := hearly (by simp)
  have hshift : reg 18#5 = 0#8 := hshift
  refine ⟨9, ?_⟩
  generalize hs' : (rxCode usbRxBuf usbInputBufOffset flash pins).step^[9] _ = s'
  simp [rxCode, hpins, hshift] at hs'
  subst hs'
  refine ⟨rfl, ?_, ?_, ?_, ?_, rfl, ?_, ?_, ?_, ?_, ?_, rfl, rfl, rfl, rfl, rfl⟩
  · show cycles + 11 + 3 = g.next + 11
    omega
  · exact fun _ => by simp
  · exact fun hk => by omega
  · simp [levelReg, minus]
  · simp [hmid, hearly, minus]
  · simp [hshift]
  · simp
  · simp
  · intro r hr
    simp at hr
    simp [hr]

theorem drop5_run (h : Ready 5 g s) (hones : g.ones = 6) (hskipped : g.skipped = false)
    (hshift : s.reg shift = 0#8) :
    Reaches (rxCode usbRxBuf usbInputBufOffset flash pins) s (DropsBit pins 5 g s) := by
  have hfull : (g.ones == 6) = true := beq_iff_eq.mpr hones
  obtain ⟨hpc, htime, hzero, -, hlevel, hmid, -, hfresh⟩ := h
  have hfresh := hfresh rfl hskipped
  rw [hskipped] at hpc htime hmid
  obtain ⟨reg, carry, zero, t, sram, io, outs, cycles, pc, stack, saved⟩ := s
  obtain rfl : pc = (continueWithBit5, 10) := hpc
  obtain rfl : zero = true := (hzero (by decide)).trans hfull
  obtain rfl : cycles = g.next := htime
  have hlevel : (reg 17#5)[3] = g.level := hlevel
  have hmid : (reg 21#5)[3] = g.mid := hmid
  have hshift : reg 18#5 = 0#8 := hshift
  refine ⟨9, ?_⟩
  generalize hs' : (rxCode usbRxBuf usbInputBufOffset flash pins).step^[9] _ = s'
  simp [rxCode, hshift] at hs'
  subst hs'
  refine ⟨rfl, rfl, ?_, ?_, ?_, rfl, ?_, ?_, ?_, ?_, ?_, rfl, rfl, rfl, rfl, rfl⟩
  · exact fun _ => by simp
  · exact fun hk => by omega
  · simp [levelReg, minus]
  · simp [hmid, hfresh, minus]
  · simp [hshift]
  · simp
  · simp
  · intro r hr
    simp at hr
    simp [hr]

theorem drop6_run (h : Ready 6 g s) (hones : g.ones = 6)
    (hshift : (s.reg shift ||| 0x40#8).ult 2 = false) :
    Reaches (rxCode usbRxBuf usbInputBufOffset flash pins) s (DropsBit pins 6 g s) := by
  have hfull : (g.ones == 6) = true := beq_iff_eq.mpr hones
  obtain ⟨hpc, htime, -, -, hlevel, hmid, hearly, -⟩ := h
  obtain ⟨reg, carry, zero, t, sram, io, outs, cycles, pc, stack, saved⟩ := s
  rw [hfull] at hpc htime
  obtain rfl : pc = (unstuff6, 0) := hpc
  have htime : cycles + 1 = g.next := htime
  have hpins : pins (cycles + 1) = pins g.next := congrArg pins htime
  have hlevel : (reg 16#5)[3] = g.level := hlevel
  have hearly : (reg 21#5)[3] = g.early := hearly (by simp)
  have hshift : (reg 18#5 ||| 64#8).ult 2#8 = false := hshift
  refine ⟨8, ?_⟩
  generalize hs' : (rxCode usbRxBuf usbInputBufOffset flash pins).step^[8] _ = s'
  simp [rxCode, hpins, hshift] at hs'
  subst hs'
  refine ⟨rfl, ?_, ?_, ?_, ?_, ?_, ?_, ?_, ?_, ?_, ?_, rfl, rfl, rfl, rfl, rfl⟩
  · show cycles + 10 + 2 = g.next + 11
    omega
  · exact fun hk => by omega
  · exact fun hk => by omega
  · simp [levelReg, minus]
  · simp [minus, place]
  · simp [hearly]
  · simp
  · simp
  · simp
  · intro r hr
    simp at hr
    simp [hr]

theorem drop7_run (h : Ready 7 g s) (hones : g.ones = 6)
    (hshift : (s.reg shift ||| 0x80#8).ult 4 = false) :
    Reaches (rxCode usbRxBuf usbInputBufOffset flash pins) s (DropsBit pins 7 g s) := by
  have hfull : (g.ones == 6) = true := beq_iff_eq.mpr hones
  obtain ⟨hpc, htime, -, hcarry, hlevel, hmid, hearly, -⟩ := h
  obtain ⟨reg, carry, zero, t, sram, io, outs, cycles, pc, stack, saved⟩ := s
  obtain rfl : pc = (didUnstuff7, 4) := hpc
  obtain rfl : carry = true := (hcarry rfl).trans hfull
  have htime : cycles + 3 = g.next := htime
  have hpins : pins (cycles + 1 + 1 + 1) = pins g.next := congrArg pins htime
  have hlevel : (reg 17#5)[3] = g.level := hlevel
  have hmid : (reg 0#5)[3] = g.mid := hmid
  have hearly : (reg 21#5)[3] = g.early := hearly (by simp)
  have hshift : (reg 18#5 ||| 128#8).ult 4#8 = false := hshift
  refine ⟨10, ?_⟩
  generalize hs' : (rxCode usbRxBuf usbInputBufOffset flash pins).step^[10] _ = s'
  simp [rxCode, hpins, hshift] at hs'
  subst hs'
  refine ⟨rfl, ?_, ?_, ?_, ?_, rfl, ?_, ?_, ?_, ?_, ?_, rfl, rfl, rfl, rfl, rfl⟩
  · show cycles + 11 + 3 = g.next + 11
    omega
  · exact fun hk => by omega
  · exact fun _ => by simp
  · simp [levelReg, minus]
  · simp [hmid, hearly, minus]
  · simp
  · simp
  · simp
  · intro r hr
    simp at hr
    simp [hr]

/-- The end of the packet. -/
structure Ended (s s' : Cpu RxLabel) : Prop where
  pc : s'.pc = (se0, 0)
  y : s'.y = s.y
  cnt : s'.reg cnt = s.reg cnt
  frame : Frame clobbered s s'

theorem se0_run (h : Ready 0 g s) (hskipped : g.skipped = false)
    (hline : pins g.next &&& usbMask = 0#8) :
    Reaches (rxCode usbRxBuf usbInputBufOffset flash pins) s (Ended s) := by
  obtain ⟨hpc, htime, -, -, -, -, -, -⟩ := h
  rw [hskipped] at hpc htime
  obtain ⟨reg, carry, zero, t, sram, io, outs, cycles, pc, stack, saved⟩ := s
  obtain rfl : pc = (rxbit1, 0) := hpc
  obtain rfl : cycles = g.next := htime
  have hline : pins g.next &&& 10#8 = 0#8 := hline
  cases zero with
  | false =>
      refine ⟨4, ?_⟩
      generalize hs' : (rxCode usbRxBuf usbInputBufOffset flash pins).step^[4] _ = s'
      simp [rxCode, hline] at hs'
      subst hs'
      refine ⟨rfl, by simp, by simp, ?_, rfl, rfl, rfl, rfl, rfl⟩
      intro r hr
      simp at hr
      simp [hr]
  | true =>
      refine ⟨8, ?_⟩
      generalize hs' : (rxCode usbRxBuf usbInputBufOffset flash pins).step^[8] _ = s'
      simp [rxCode, hline] at hs'
      subst hs'
      refine ⟨rfl, by simp, by simp, ?_, rfl, rfl, rfl, rfl, rfl⟩
      intro r hr
      simp at hr
      simp [hr]

/-- One more bit of the line. -/
def hear (pins : Nat → BitVec 8) (g : Progress) : Progress :=
  let level := minus pins g.next
  let early := g.early || (g.mid != level)
  if g.ones = 6 then
    { g with
      ones := 0, skipped := true, level := level, mid := minus pins (g.next + 6)
      early := if g.bits.length = 7 then g.early else early, next := g.next + 11 }
  else
    let time := if g.bits.length = 5 then if early then 12 else 10 else 11
    { bytes := if g.bits.length = 8 then g.bytes ++ [g.bits] else g.bytes
      bits := if g.bits.length = 8 then [g.level == level] else g.bits ++ [g.level == level]
      ones := if g.level == level then g.ones + 1 else 0
      level := level
      skipped := false
      mid := minus pins (g.next + time - 5)
      early := if g.bits.length = 5 then false else early
      next := g.next + time }

/-- The whole bytes are in the buffer, and nothing else has changed. -/
structure Buffered (s₀ : Cpu RxLabel) (bytes : List (List Bool)) (s : Cpu RxLabel) : Prop where
  y : s.y = s₀.y + BitVec.ofNat 16 bytes.length
  stored : (bytesAt s.sram s₀.y bytes.length).map lsbFirst = bytes
  others : ∀ a, (∀ i < bytes.length, a ≠ s₀.y + BitVec.ofNat 16 i) → s.sram a = s₀.sram a
  reg : ∀ r ∉ clobbered, r ≠ yl → r ≠ yh → s.reg r = s₀.reg r
  io : s.io = s₀.io
  outs : s.outs = s₀.outs
  stack : s.stack = s₀.stack
  saved : s.saved = s₀.saved

/-- The packet so far, in the registers and in the buffer. -/
structure Receiving (s₀ : Cpu RxLabel) (g : Progress) (s : Cpu RxLabel) : Prop where
  pos : 1 ≤ g.bits.length
  le : g.bits.length ≤ 8
  ready : Ready (g.bits.length - 1) g s
  window : Window g.bits.length g.ones (s.reg shift)
  bits : ∀ j, g.bits[j]? = if j < g.bits.length then
    some ((s.reg x3 ^^^ s.reg shift).getLsbD j) else none
  skipped : g.skipped = true → g.ones = 0
  last : 0 < g.ones → (s.reg x3).getLsbD (g.bits.length - 1) = true
  x3 : ∀ j, g.bits.length ≤ j → j < 8 → (s.reg x3).getLsbD j = true
  cnt : (s.reg cnt).toNat + g.bytes.length + (if 3 ≤ g.bits.length then 1 else 0) = 11
  buffered : Buffered s₀ g.bytes s

variable {s₀ s' : Cpu RxLabel}

theorem ones_next (g : Progress) (level : Bool) :
    (if (g.level == level) = true then g.ones + 1 else 0) =
      if (g.level != level) = true then 0 else g.ones + 1 := by
  cases g.level <;> cases level <;> rfl

section Hear

theorem hear_level (g : Progress) : (hear pins g).level = minus pins g.next := by
  rw [hear]
  split
  · rfl
  · rfl

theorem hear_bits (hones : g.ones ≠ 6) (hlt : g.bits.length < 8) :
    (hear pins g).bits = g.bits ++ [g.level == minus pins g.next] := by
  have height : ¬ g.bits.length = 8 := by omega
  simp [hear, hones, height]

theorem hear_bytes (hones : g.ones ≠ 6) (hlt : g.bits.length < 8) :
    (hear pins g).bytes = g.bytes := by
  have height : ¬ g.bits.length = 8 := by omega
  simp [hear, hones, height]

theorem hear_bits_eight (hones : g.ones ≠ 6) (hlen : g.bits.length = 8) :
    (hear pins g).bits = [g.level == minus pins g.next] := by
  simp [hear, hones, hlen]

theorem hear_bytes_eight (hones : g.ones ≠ 6) (hlen : g.bits.length = 8) :
    (hear pins g).bytes = g.bytes ++ [g.bits] := by
  simp [hear, hones, hlen]

theorem hear_ones (hones : g.ones ≠ 6) : (hear pins g).ones =
    if (g.level != minus pins g.next) = true then 0 else g.ones + 1 := by
  rw [← ones_next]
  simp [hear, hones]

theorem hear_skipped (hones : g.ones ≠ 6) : (hear pins g).skipped = false := by
  simp [hear, hones]

theorem hear_stuffed (hones : g.ones = 6) : hear pins g =
    { g with
      ones := 0, skipped := true, level := minus pins g.next, mid := minus pins (g.next + 6)
      early := if g.bits.length = 7 then g.early else g.early || (g.mid != minus pins g.next)
      next := g.next + 11 } := if_pos hones

end Hear

/-- A bit that is recorded leaves those before it as they are. -/
theorem record_kept {k j : Nat} (hk : k < 8) (hj : j < k) (change : Bool) (v : BitVec 8) :
    (record k change v).getLsbD j = v.getLsbD j := by
  rw [getLsbD_record hk (by omega), if_neg (by omega), decide_eq_true (by omega), Bool.and_true]

theorem record_last {k : Nat} (hk : k < 8) (change : Bool) (v : BitVec 8) :
    (record k change v).getLsbD k = change := by
  rw [getLsbD_record hk hk, if_pos rfl]

theorem cnt_down {v : BitVec 8} (h : 0 < v.toNat) : (v - 1).toNat + 1 = v.toNat := by
  have hv := v.isLt
  have hone : (1 : BitVec 8).toNat = 1 := rfl
  rw [BitVec.toNat_sub, hone]
  omega

theorem Receiving.window_hear {k : Nat} (h : Receiving s₀ g s) (hk : k < 8)
    (hlength : g.bits.length = k ∧ 0 < k ∨ g.bits.length = 8 ∧ k = 0) (hones : g.ones ≠ 6) :
    Window (k + 1) (hear pins g).ones
      (record k (g.level != minus pins g.next) (s.reg shift)) := by
  rw [hear_ones hones]
  exact h.window.record hk hlength (Nat.lt_of_le_of_ne h.window.le hones) _

section Buffer

variable {bytes : List (List Bool)}

/-- A bit changes nothing of what has been stored. -/
theorem Buffered.of_frame (h : Buffered s₀ bytes s) (hframe : Frame clobbered s s') :
    Buffered s₀ bytes s' := by
  constructor
  case y =>
    have hy : s'.y = s.y := by
      simp only [Cpu.y]
      rw [hframe.reg 29#5 (by decide), hframe.reg 28#5 (by decide)]
    rw [hy]
    exact h.y
  case stored =>
    rw [hframe.sram]
    exact h.stored
  case others =>
    rw [hframe.sram]
    exact h.others
  case reg => exact fun r hr hyl hyh => (hframe.reg r hr).trans (h.reg r hr hyl hyh)
  case io => exact hframe.io.trans h.io
  case outs => exact hframe.outs.trans h.outs
  case stack => exact hframe.stack.trans h.stack
  case saved => exact hframe.saved.trans h.saved

/-- A byte is stored behind the others. -/
theorem Buffered.store (h : Buffered s₀ bytes s) (hstores : StoresByte pins g s s')
    {bits : List Bool} (hbits : lsbFirst (s.reg x3 ^^^ s.reg shift) = bits)
    (hroom : bytes.length < 11) (hbuffer : s₀.y.toNat + 11 < 65536) :
    Buffered s₀ (bytes ++ [bits]) s' := by
  have hlength : (bytes ++ [bits]).length = bytes.length + 1 := List.length_append
  constructor
  case y =>
    rw [hstores.y, h.y, hlength, BitVec.add_assoc, ← BitVec.ofNat_add]
  case stored =>
    rw [hstores.sram, h.y, hlength, bytesAt_succ, bytesAt_update (Nat.le_refl _) (by omega),
      Function.update_self, List.map_append, h.stored, List.map_singleton, hbits]
  case others =>
    intro a ha
    rw [hlength] at ha
    rw [hstores.sram, Function.update_of_ne (by rw [h.y]; exact ha _ (Nat.lt_succ_self _))]
    exact h.others a fun i hi => ha i (Nat.lt_succ_of_lt hi)
  case reg => exact fun r hr hyl hyh => (hstores.reg r hr hyl hyh).trans (h.reg r hr hyl hyh)
  case io => exact hstores.io.trans h.io
  case outs => exact hstores.outs.trans h.outs
  case stack => exact hstores.stack.trans h.stack
  case saved => exact hstores.saved.trans h.saved

end Buffer

section Hears

/-- What the code compares with tells whether there have been six ones. -/
theorem place_hears (hwindow : Window (g.bits.length + 1) (hear pins g).ones (s'.reg shift))
    (hpos : 1 ≤ g.bits.length) (hlt : g.bits.length < 8) :
    place g.bits.length ((s'.reg shift).ult 2) false =
      place g.bits.length ((hear pins g).ones == 6) false := by
  by_cases hsix : g.bits.length = 6
  · have hult := hwindow.ult (m := 1) (by omega) (by decide) (by decide)
    rw [beq_eq_decide]
    exact congrArg (fun full => place g.bits.length full false) hult
  · have hcases : g.bits.length = 1 ∨ g.bits.length = 2 ∨ g.bits.length = 3 ∨
        g.bits.length = 4 ∨ g.bits.length = 5 ∨ g.bits.length = 7 := by omega
    rcases hcases with h' | h' | h' | h' | h' | h' <;> rw [h'] <;> rfl

theorem ready_hears (hhears : HearsBit pins g.bits.length g s s')
    (hwindow : Window (g.bits.length + 1) (hear pins g).ones (s'.reg shift))
    (hpos : 1 ≤ g.bits.length) (hlt : g.bits.length < 8) (hones : g.ones ≠ 6) :
    Ready g.bits.length (hear pins g) s' := by
  have hskipped : (hear pins g).skipped = false := hear_skipped hones
  have hplace := place_hears hwindow hpos hlt
  have htime := hhears.time
  have hmid := hhears.mid
  rw [hplace] at htime hmid
  have hnext : (hear pins g).next = s'.cycles +
      (place g.bits.length ((hear pins g).ones == 6) false).2 := by
    rw [htime]
    simp [hear, hones]
  constructor
  case pc =>
    rw [hskipped, ← hplace]
    exact hhears.pc
  case time => rw [hskipped, hnext]
  case zero =>
    intro hsix
    rw [hhears.zero hsix, hwindow.zero (by omega) (by omega), beq_eq_decide]
  case carry =>
    intro hseven
    have hult := hwindow.ult (m := 2) (by omega) (by decide) (by decide)
    rw [hhears.carry hseven, beq_eq_decide]
    exact hult
  case level =>
    rw [hhears.level, hear_level]
  case mid =>
    rw [hskipped, hmid, ← hnext]
    simp [hear, hones]
  case early =>
    intro hfive
    have hfive : g.bits.length ≠ 5 := fun h => by simpa [hskipped] using hfive h
    rw [hhears.early hfive]
    simp [hear, hones, hfive]
  case fresh =>
    intro hfive _
    simp [hear, hones, hfive]

theorem receiving_hears {k : Nat} (hhears : HearsBit pins k g s s') (h : Receiving s₀ g s)
    (hk : g.bits.length = k) (hlt : k < 8) (hones : g.ones ≠ 6) (hcnt : g.bytes.length < 11) :
    Receiving s₀ (hear pins g) s' := by
  subst hk
  have hpos := h.pos
  have hwindow := @Receiving.window_hear pins _ _ _ _ h hlt (.inl ⟨rfl, hpos⟩) hones
  rw [← hhears.shift] at hwindow
  have hbits : (hear pins g).bits = g.bits ++ [g.level == minus pins g.next] :=
    hear_bits hones hlt
  have hbytes : (hear pins g).bytes = g.bytes := hear_bytes hones hlt
  have hlength : (hear pins g).bits.length = g.bits.length + 1 := by
    rw [hbits, List.length_append, List.length_singleton]
  have hskipped : (hear pins g).skipped = false := hear_skipped hones
  constructor
  case pos => omega
  case le => omega
  case ready =>
    rw [hlength, Nat.add_sub_cancel]
    exact ready_hears hhears hwindow hpos hlt hones
  case window =>
    rw [hlength]
    exact hwindow
  case bits =>
    intro j
    rw [hhears.x3, hhears.shift, hbits, List.length_append, List.length_singleton]
    rcases Nat.lt_trichotomy j g.bits.length with hj | rfl | hj
    · rw [List.getElem?_append_left hj, h.bits j, if_pos hj, if_pos (by omega),
        BitVec.getLsbD_xor, BitVec.getLsbD_xor, record_kept hlt hj]
    · rw [List.getElem?_concat_length, if_pos (Nat.lt_succ_self _), BitVec.getLsbD_xor,
        record_last hlt, h.x3 _ (Nat.le_refl _) hlt]
      cases g.level <;> cases minus pins g.next <;> rfl
    · rw [if_neg (by omega)]
      apply List.getElem?_eq_none
      rw [List.length_append, List.length_singleton]
      omega
  case skipped =>
    intro htrue
    rw [hskipped] at htrue
    cases htrue
  case last =>
    intro _
    rw [hhears.x3, hlength, Nat.add_sub_cancel]
    exact h.x3 _ (Nat.le_refl _) hlt
  case x3 =>
    intro j hj hj'
    rw [hhears.x3]
    exact h.x3 j (by omega) hj'
  case cnt =>
    have hold := h.cnt
    rw [hhears.cnt, hbytes, hlength]
    by_cases htwo : g.bits.length = 2
    · rw [if_neg (by omega)] at hold
      have hdown := @cnt_down (s.reg cnt) (by omega)
      rw [if_pos htwo, if_pos (by omega)]
      omega
    · rw [if_neg htwo]
      split at hold <;> split <;> omega
  case buffered =>
    rw [hbytes]
    exact h.buffered.of_frame hhears.frame

end Hears

section Drops

variable {k : Nat}

theorem ready_drops (hdrops : DropsBit pins k g s s') (hk : g.bits.length = k + 1)
    (hones : g.ones = 6) : Ready k (hear pins g) s' := by
  have hnext : g.next + 11 = s'.cycles + (place k false true).2 := hdrops.time.symm
  rw [hear_stuffed hones]
  constructor
  case pc => exact hdrops.pc
  case time => exact hnext.symm
  case zero => exact hdrops.zero
  case carry => exact hdrops.carry
  case level => exact hdrops.level
  case mid =>
    have hreg : midReg k true = 0#5 := by simp [midReg]
    dsimp only
    rw [hreg, hdrops.mid, ← hnext]
    rfl
  case early =>
    intro _
    rw [hdrops.early, hk]
    simp
  case fresh =>
    intro _ hfalse
    cases hfalse

/-- The bit that is left out leaves the others as they are. -/
theorem bits_drops (hdrops : DropsBit pins k g s s') (h : Receiving s₀ g s)
    (hk : g.bits.length = k + 1) (hones : g.ones = 6) {j : Nat} (hj : j < g.bits.length) :
    (s'.reg x3 ^^^ s'.reg shift).getLsbD j = (s.reg x3 ^^^ s.reg shift).getLsbD j := by
  have hle := h.le
  have hwindow := h.window
  rw [hk, hones] at hwindow
  -- The bit that made six ones is still zero in the register.
  have hzero : (s.reg shift).getLsbD k = false := by
    have hslot : slot (k + 1) 0 = k := by
      rw [slot]
      omega
    rw [← hslot]
    exact hwindow.zeros 0 (by decide)
  rw [hdrops.x3, hdrops.shift, BitVec.getLsbD_xor, BitVec.getLsbD_xor, BitVec.getLsbD_and,
    BitVec.getLsbD_or, BitVec.getLsbD_not, getLsbD_one_shiftLeft k (by omega) j (by omega)]
  by_cases hjk : j = k
  · subst hjk
    have hlast := h.last (by omega)
    rw [hk, Nat.add_sub_cancel] at hlast
    rw [hzero, hlast, decide_eq_true (show j < 8 by omega), decide_eq_true rfl]
    rfl
  · rw [decide_eq_false hjk, Bool.or_false, decide_eq_true (show j < 8 by omega)]
    simp

theorem receiving_drops (hdrops : DropsBit pins k g s s') (h : Receiving s₀ g s)
    (hk : g.bits.length = k + 1) (hones : g.ones = 6) : Receiving s₀ (hear pins g) s' := by
  have hle := h.le
  have hready := ready_drops hdrops hk hones
  have hwindow := h.window
  rw [hk, hones] at hwindow
  have hstuffed := hwindow.stuffed (by omega)
  rw [← hdrops.shift] at hstuffed
  rw [hear_stuffed hones] at hready ⊢
  constructor
  case pos => exact h.pos
  case le => exact hle
  case ready =>
    have hlast : g.bits.length - 1 = k := by omega
    dsimp only
    rw [hlast]
    exact hready
  case window =>
    dsimp only
    rw [hk]
    exact hstuffed
  case bits =>
    intro j
    dsimp only
    rw [h.bits j]
    by_cases hlt : j < g.bits.length
    · rw [if_pos hlt, if_pos hlt, bits_drops hdrops h hk hones hlt]
    · rw [if_neg hlt, if_neg hlt]
  case skipped => exact fun _ => rfl
  case last => exact fun hpos => absurd hpos (Nat.lt_irrefl 0)
  case x3 =>
    intro j hj hj'
    dsimp only at hj
    rw [hdrops.x3, BitVec.getLsbD_and, BitVec.getLsbD_not,
      getLsbD_one_shiftLeft k (by omega) j hj', h.x3 j hj hj', decide_eq_true hj',
      decide_eq_false (by omega)]
    rfl
  case cnt =>
    rw [hdrops.cnt]
    exact h.cnt
  case buffered => exact h.buffered.of_frame hdrops.frame

end Drops

theorem lsbFirst_of_bits {v : BitVec 8} {bits : List Bool} (hlen : bits.length = 8)
    (h : ∀ j, bits[j]? = if j < bits.length then some (v.getLsbD j) else none) :
    lsbFirst v = bits := by
  apply List.ext_getElem?
  intro j
  rw [h j, hlen, lsbFirst, List.getElem?_map]
  split
  · rename_i hj
    rw [List.getElem?_range hj]
    rfl
  · rename_i hj
    rw [List.getElem?_eq_none (by rw [List.length_range]; omega)]
    rfl

section Stores

theorem ready_stores (hstores : StoresByte pins g s s') (hlen : g.bits.length = 8)
    (hones : g.ones ≠ 6) (hwindow : Window 1 (hear pins g).ones (s'.reg shift)) :
    Ready 0 (hear pins g) s' := by
  have hskipped : (hear pins g).skipped = false := hear_skipped hones
  have hnext : (hear pins g).next = s'.cycles := by
    rw [hstores.time]
    simp [hear, hones, hlen]
  constructor
  case pc =>
    rw [hskipped]
    exact hstores.pc
  case time =>
    rw [hskipped, hnext]
    rfl
  case zero =>
    intro _
    rw [hstores.zero, hwindow.zero (by decide) (by decide), beq_eq_decide]
  case carry =>
    intro hseven
    cases hseven
  case level => exact hstores.level.trans (hear_level g).symm
  case mid =>
    rw [hskipped]
    refine hstores.mid.trans ?_
    rw [← hnext]
    simp [hear, hones, hlen]
  case early =>
    intro _
    rw [hstores.early]
    simp [hear, hones, hlen]
  case fresh =>
    intro hfive
    cases hfive

theorem receiving_stores (hstores : StoresByte pins g s s') (h : Receiving s₀ g s)
    (hlen : g.bits.length = 8) (hones : g.ones ≠ 6) (hcnt : g.bytes.length < 11)
    (hbuffer : s₀.y.toNat + 11 < 65536) : Receiving s₀ (hear pins g) s' := by
  have hwindow := @Receiving.window_hear pins _ _ _ 0 h (by decide) (.inr ⟨hlen, rfl⟩) hones
  rw [← hstores.shift] at hwindow
  have hbits : (hear pins g).bits = [g.level == minus pins g.next] := hear_bits_eight hones hlen
  have hbytes : (hear pins g).bytes = g.bytes ++ [g.bits] := hear_bytes_eight hones hlen
  have hskipped : (hear pins g).skipped = false := hear_skipped hones
  constructor
  case pos =>
    rw [hbits]
    exact Nat.le_refl 1
  case le =>
    rw [hbits, List.length_singleton]
    decide
  case ready =>
    rw [hbits, List.length_singleton]
    exact ready_stores hstores hlen hones hwindow
  case window =>
    rw [hbits]
    exact hwindow
  case bits =>
    intro j
    rw [hstores.x3, hstores.shift, hbits]
    cases j with
    | zero =>
        have hfirst :=
          record_last (show 0 < 8 by decide) (g.level != minus pins g.next) (s.reg shift)
        rw [List.length_singleton, if_pos (by decide), BitVec.getLsbD_xor, hfirst]
        cases g.level <;> cases minus pins g.next <;> rfl
    | succ j =>
        rw [if_neg (by simp)]
        rfl
  case skipped =>
    intro htrue
    rw [hskipped] at htrue
    cases htrue
  case last =>
    intro _
    rw [hstores.x3, hbits, List.length_singleton]
    rfl
  case x3 =>
    intro j hj hj'
    rw [hstores.x3]
    clear hj
    revert j
    decide
  case cnt =>
    have hold := h.cnt
    rw [hlen, if_pos (by decide)] at hold
    rw [hstores.cnt, hbytes, hbits, if_neg (by simp), List.length_append, List.length_singleton]
    omega
  case buffered =>
    rw [hbytes]
    exact h.buffered.store hstores (lsbFirst_of_bits hlen h.bits) hcnt hbuffer

end Stores

theorem receiving_drop (h : Receiving s₀ g s) (hones : g.ones = 6)
    (hline : g.bits.length = 1 → (pins g.next &&& usbMask == 0#8) = false) :
    Reaches (rxCode usbRxBuf usbInputBufOffset flash pins) s (Receiving s₀ (hear pins g)) := by
  have hpos := h.pos
  have hle := h.le
  have hready := h.ready
  have hwindow := h.window
  rw [hones] at hwindow
  have hskipped : g.skipped = false := by
    cases hskip : g.skipped with
    | false => rfl
    | true =>
        have hzero := h.skipped hskip
        omega
  have hshift : g.bits.length ≤ 6 → s.reg shift = 0#8 := by
    intro hsix
    have hzero := hwindow.zero hpos hsix
    rw [decide_eq_true rfl, beq_iff_eq] at hzero
    exact hzero
  have hdone : ∀ k, g.bits.length = k + 1 → ∀ s', DropsBit pins k g s s' →
      Receiving s₀ (hear pins g) s' := fun k hk s' hdrops => receiving_drops hdrops h hk hones
  have hcases : g.bits.length = 0 + 1 ∨ g.bits.length = 1 + 1 ∨ g.bits.length = 2 + 1 ∨
      g.bits.length = 3 + 1 ∨ g.bits.length = 4 + 1 ∨ g.bits.length = 5 + 1 ∨
      g.bits.length = 6 + 1 ∨ g.bits.length = 7 + 1 := by omega
  rcases hcases with hk | hk | hk | hk | hk | hk | hk | hk
  all_goals rw [hk, Nat.add_sub_cancel] at hready
  · exact (drop0_run hready hones hskipped (hshift (by omega)) (hline hk)).mono (hdone _ hk)
  · exact (drop1_run hready hones (hshift (by omega))).mono (hdone _ hk)
  · exact (drop2_run hready hones (hshift (by omega))).mono (hdone _ hk)
  · exact (drop3_run hready hones (hshift (by omega))).mono (hdone _ hk)
  · exact (drop4_run hready hones (hshift (by omega))).mono (hdone _ hk)
  · exact (drop5_run hready hones hskipped (hshift (by omega))).mono (hdone _ hk)
  · rw [hk] at hwindow
    have hult := (hwindow.stuffed (by decide)).ult (m := 1) rfl (by decide) (by decide)
    exact (drop6_run hready hones hult).mono (hdone _ hk)
  · rw [hk] at hwindow
    have hult := (hwindow.stuffed (by decide)).ult (m := 2) rfl (by decide) (by decide)
    exact (drop7_run hready hones hult).mono (hdone _ hk)

theorem receiving_bit (h : Receiving s₀ g s) (hones : g.ones ≠ 6) (hroom : g.bytes.length < 11)
    (hlow : 0x60 ≤ s₀.y.toNat) (hbuffer : s₀.y.toNat + 11 < 65536)
    (hline : g.bits.length = 1 → (pins g.next &&& usbMask == 0#8) = false) :
    Reaches (rxCode usbRxBuf usbInputBufOffset flash pins) s (Receiving s₀ (hear pins g)) := by
  have hpos := h.pos
  have hle := h.le
  have hready := h.ready
  have hdone : ∀ k, g.bits.length = k → k < 8 → ∀ s', HearsBit pins k g s s' →
      Receiving s₀ (hear pins g) s' :=
    fun k hk hlt s' hhears => receiving_hears hhears h hk hlt hones hroom
  have hcases : g.bits.length = 1 ∨ g.bits.length = 2 ∨ g.bits.length = 3 ∨
      g.bits.length = 4 ∨ g.bits.length = 5 ∨ g.bits.length = 6 ∨ g.bits.length = 7 ∨
      g.bits.length = 8 := by omega
  rcases hcases with hk | hk | hk | hk | hk | hk | hk | hk
  all_goals rw [hk] at hready
  · cases hskip : g.skipped with
    | false =>
        exact (bit1_run hready hones hskip (hline hk)).mono (hdone _ hk (by decide))
    | true => exact (bit1_run_skipped hready hones hskip).mono (hdone _ hk (by decide))
  · have hcnt : (s.reg cnt).ult 1 = false := by
      have hcnt := h.cnt
      rw [hk, if_neg (by decide)] at hcnt
      have hone : (1 : BitVec 8).toNat = 1 := rfl
      rw [BitVec.ult, decide_eq_false_iff_not, hone]
      omega
    exact (bit2_run hready hones hcnt).mono (hdone _ hk (by decide))
  · exact (bit3_run hready hones).mono (hdone _ hk (by decide))
  · exact (bit4_run hready hones).mono (hdone _ hk (by decide))
  · exact (bit5_run hready hones).mono (hdone _ hk (by decide))
  · cases hskip : g.skipped with
    | false => exact (bit6_run hready hones hskip).mono (hdone _ hk (by decide))
    | true =>
        have hshort : ∀ change, (record 6 change (s.reg shift)).ult 2 = false := by
          intro change
          have hwindow := h.window
          rw [hk, h.skipped hskip] at hwindow
          refine ((hwindow.record (by decide) (.inl ⟨rfl, by decide⟩) (by decide) change).ult
            (m := 1) rfl (by decide) (by decide)).trans ?_
          cases change <;> rfl
        exact (bit6_run_skipped hready hones hskip hshort).mono (hdone _ hk (by decide))
  · exact (bit7_run hready hones).mono (hdone _ hk (by decide))
  · have hy : 0x60 ≤ s.y.toNat := by
      rw [h.buffered.y, toNat_add_ofNat (by omega)]
      omega
    exact (byte_run hready hones hy).mono fun s' hstores =>
      receiving_stores hstores h hk hones hroom hbuffer

/-- The code does what `hear` says, with every bit of the line. -/
theorem receiving_step (h : Receiving s₀ g s) (hroom : g.bytes.length < 11)
    (hlow : 0x60 ≤ s₀.y.toNat) (hbuffer : s₀.y.toNat + 11 < 65536)
    (hline : g.bits.length = 1 → (pins g.next &&& usbMask == 0#8) = false) :
    Reaches (rxCode usbRxBuf usbInputBufOffset flash pins) s (Receiving s₀ (hear pins g)) := by
  by_cases hones : g.ones = 6
  · exact receiving_drop h hones hline
  · exact receiving_bit h hones hroom hlow hbuffer hline

end Segments

end NesMiniAdapter.UsbReceiver
