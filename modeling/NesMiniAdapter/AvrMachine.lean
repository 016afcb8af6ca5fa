import Mathlib.Logic.Function.Iterate

/-!
The part of the AVR instruction set that assembler routines on a small
controller use: what each instruction does and how many cycles it takes. Code is
kept in blocks under the labels of its source. Return addresses and pushed bytes
have stacks of their own, apart from the data memory.
-/

namespace NesMiniAdapter.AvrMachine

/-- The number of a register. -/
abbrev Reg := BitVec 5

/-- An address as `in` and `out` use it. -/
abbrev Port := BitVec 6

inductive Instr (L : Type) where
  | mov (d r : Reg)
  | ldi (d : Reg) (k : BitVec 8)
  | and (d r : Reg)
  | andi (d : Reg) (k : BitVec 8)
  | or (d r : Reg)
  | ori (d : Reg) (k : BitVec 8)
  | eor (d r : Reg)
  | com (d : Reg)
  | neg (d : Reg)
  | inc (d : Reg)
  | dec (d : Reg)
  | swap (d : Reg)
  | lsr (d : Reg)
  | ror (d : Reg)
  | lsl (d : Reg)
  | subi (d : Reg) (k : BitVec 8)
  | sbci (d : Reg) (k : BitVec 8)
  | cpi (d : Reg) (k : BitVec 8)
  | adiw (d : Reg) (k : BitVec 6)
  | sbiw (d : Reg) (k : BitVec 6)
  | bst (r : Reg) (bit : Nat)
  | bld (d : Reg) (bit : Nat)
  | ldXInc (d : Reg)
  | stXInc (r : Reg)
  | ldYInc (d : Reg)
  | stYInc (r : Reg)
  | lds (d : Reg) (a : BitVec 16)
  | sts (a : BitVec 16) (r : Reg)
  | lpm
  | in (d : Reg) (a : Port)
  | out (a : Port) (r : Reg)
  | sbi (a : Port) (bit : Nat)
  | push (r : Reg)
  | pop (d : Reg)
  | nop
  | sbrs (r : Reg) (bit : Nat)
  | sbrc (r : Reg) (bit : Nat)
  | sbis (a : Port) (bit : Nat)
  | sbic (a : Port) (bit : Nat)
  | rjmp (l : L)
  | brcs (l : L)
  | brcc (l : L)
  | breq (l : L)
  | brne (l : L)
  | rcall (l : L)
  | ret

/-- The blocks of a program, the block that follows each of them, the contents of
the program memory as data, and the ports that are read from outside, with what
they show in each cycle. -/
structure Code (L : Type) where
  block : L → List (Instr L)
  next : L → L
  flash : BitVec 16 → BitVec 8
  input : Port → Option (Nat → BitVec 8)

/-- `outs` records what is written to the ports, and in which cycle. -/
structure Cpu (L : Type) where
  reg : Reg → BitVec 8
  carry : Bool
  zero : Bool
  t : Bool
  sram : BitVec 16 → BitVec 8
  io : Port → BitVec 8
  outs : List (Nat × Port × BitVec 8)
  cycles : Nat
  pc : L × Nat
  stack : List (L × Nat)
  saved : List (BitVec 8)

variable {L : Type}

/-- A byte shifted to the right, with the carry at the top. -/
def rotateRight (carry : Bool) (v : BitVec 8) : BitVec 8 :=
  v >>> 1 ||| if carry then 0x80#8 else 0#8

theorem getLsbD_rotateRight (carry : Bool) (v : BitVec 8) (i : Nat) :
    (rotateRight carry v).getLsbD i = if i = 7 then carry else v.getLsbD (1 + i) := by
  have htop : (0x80#8).getLsbD i = decide (i = 7) := by
    by_cases hi : i < 8
    · revert i
      decide
    · rw [BitVec.getLsbD_of_ge _ _ (by omega)]
      simp
      omega
  unfold rotateRight
  by_cases hi : i = 7
  · subst hi
    cases carry <;> simp
  · cases carry <;> simp [htop, hi]

namespace Cpu

def set (d : Reg) (v : BitVec 8) (s : Cpu L) : Cpu L :=
  { s with reg := Function.update s.reg d v }

/-- The result of an operation that leaves the carry as it is. -/
def result (d : Reg) (v : BitVec 8) (s : Cpu L) : Cpu L :=
  { s.set d v with zero := v == 0#8 }

def resultCarry (d : Reg) (v : BitVec 8) (carry : Bool) (s : Cpu L) : Cpu L :=
  { s.result d v with carry := carry }

def x (s : Cpu L) : BitVec 16 := s.reg 27#5 ++ s.reg 26#5
def y (s : Cpu L) : BitVec 16 := s.reg 29#5 ++ s.reg 28#5
def z (s : Cpu L) : BitVec 16 := s.reg 31#5 ++ s.reg 30#5

def setX (v : BitVec 16) (s : Cpu L) : Cpu L :=
  (s.set 26#5 (v.extractLsb' 0 8)).set 27#5 (v.extractLsb' 8 8)

def setY (v : BitVec 16) (s : Cpu L) : Cpu L :=
  (s.set 28#5 (v.extractLsb' 0 8)).set 29#5 (v.extractLsb' 8 8)

/-- A register with the next one above it. -/
def pair (d : Reg) (s : Cpu L) : BitVec 16 := s.reg (d + 1#5) ++ s.reg d

/-- The result of an operation on a pair. -/
def resultPair (d : Reg) (v : BitVec 16) (carry : Bool) (s : Cpu L) : Cpu L :=
  { (s.set d (v.extractLsb' 0 8)).set (d + 1#5) (v.extractLsb' 8 8) with
    zero := v == 0#16, carry := carry }

/-- The data space: registers, ports, memory. -/
def load (a : BitVec 16) (s : Cpu L) : BitVec 8 :=
  if a.toNat < 0x20 then s.reg (a.setWidth 5)
  else if a.toNat < 0x60 then s.io ((a - 0x20#16).setWidth 6)
  else s.sram a

def write (a : Port) (v : BitVec 8) (s : Cpu L) : Cpu L :=
  { s with io := Function.update s.io a v, outs := s.outs ++ [(s.cycles, a, v)] }

def store (a : BitVec 16) (v : BitVec 8) (s : Cpu L) : Cpu L :=
  if a.toNat < 0x20 then s.set (a.setWidth 5) v
  else if a.toNat < 0x60 then s.write ((a - 0x20#16).setWidth 6) v
  else { s with sram := Function.update s.sram a v }

def goto (pc : L × Nat) (cycles : Nat) (s : Cpu L) : Cpu L :=
  { s with pc := pc, cycles := s.cycles + cycles }

end Cpu

namespace Code

/-- Where the program goes on, `n` instructions further. -/
def after (C : Code L) (pc : L × Nat) (n : Nat) : L × Nat :=
  if pc.2 + n < (C.block pc.1).length then (pc.1, pc.2 + n) else (C.next pc.1, 0)

def advance (C : Code L) (cycles : Nat) (s : Cpu L) : Cpu L := s.goto (C.after s.pc 1) cycles

def branch (C : Code L) (taken : Bool) (l : L) (s : Cpu L) : Cpu L :=
  if taken then s.goto (l, 0) 2 else C.advance 1 s

/-- Only instructions of one word are skipped. -/
def skip (C : Code L) (taken : Bool) (s : Cpu L) : Cpu L :=
  if taken then s.goto (C.after s.pc 2) 2 else C.advance 1 s

/-- What a port shows: its last value, or what comes from outside. -/
def read (C : Code L) (a : Port) (s : Cpu L) : BitVec 8 :=
  match C.input a with
  | none => s.io a
  | some pins => pins s.cycles

def exec (C : Code L) (s : Cpu L) : Instr L → Cpu L
  | .mov d r => C.advance 1 (s.set d (s.reg r))
  | .ldi d k => C.advance 1 (s.set d k)
  | .and d r => C.advance 1 (s.result d (s.reg d &&& s.reg r))
  | .andi d k => C.advance 1 (s.result d (s.reg d &&& k))
  | .or d r => C.advance 1 (s.result d (s.reg d ||| s.reg r))
  | .ori d k => C.advance 1 (s.result d (s.reg d ||| k))
  | .eor d r => C.advance 1 (s.result d (s.reg d ^^^ s.reg r))
  | .com d => C.advance 1 (s.resultCarry d (~~~s.reg d) true)
  | .neg d => C.advance 1 (s.resultCarry d (-s.reg d) (s.reg d != 0#8))
  | .inc d => C.advance 1 (s.result d (s.reg d + 1#8))
  | .dec d => C.advance 1 (s.result d (s.reg d - 1#8))
  | .swap d => C.advance 1 (s.set d ((s.reg d).rotateLeft 4))
  | .lsr d => C.advance 1 (s.resultCarry d (s.reg d >>> 1) ((s.reg d).getLsbD 0))
  | .ror d =>
      C.advance 1 (s.resultCarry d (rotateRight s.carry (s.reg d)) ((s.reg d).getLsbD 0))
  | .lsl d => C.advance 1 (s.resultCarry d (s.reg d <<< 1) ((s.reg d).getLsbD 7))
  | .subi d k => C.advance 1 (s.resultCarry d (s.reg d - k) ((s.reg d).ult k))
  | .sbci d k =>
      let v := s.reg d - k - BitVec.setWidth 8 (BitVec.ofBool s.carry)
      C.advance 1 { s.set d v with
        zero := s.zero && v == 0#8
        carry := decide ((s.reg d).toNat < k.toNat + s.carry.toNat) }
  | .cpi d k => C.advance 1 { s with zero := s.reg d == k, carry := (s.reg d).ult k }
  | .adiw d k =>
      C.advance 2 (s.resultPair d (s.pair d + k.setWidth 16)
        (decide (65536 ≤ (s.pair d).toNat + k.toNat)))
  | .sbiw d k =>
      C.advance 2 (s.resultPair d (s.pair d - k.setWidth 16) ((s.pair d).ult (k.setWidth 16)))
  | .bst r bit => C.advance 1 { s with t := (s.reg r).getLsbD bit }
  | .bld d bit =>
      C.advance 1 (s.set d (s.reg d &&& ~~~(1#8 <<< bit) ||| if s.t then 1#8 <<< bit else 0#8))
  | .ldXInc d => C.advance 2 ((s.set d (s.load s.x)).setX (s.x + 1#16))
  | .stXInc r => C.advance 2 ((s.store s.x (s.reg r)).setX (s.x + 1#16))
  | .ldYInc d => C.advance 2 ((s.set d (s.load s.y)).setY (s.y + 1#16))
  | .stYInc r => C.advance 2 ((s.store s.y (s.reg r)).setY (s.y + 1#16))
  | .lds d a => C.advance 2 (s.set d (s.load a))
  | .sts a r => C.advance 2 (s.store a (s.reg r))
  | .lpm => C.advance 3 (s.set 0#5 (C.flash s.z))
  | .in d a => C.advance 1 (s.set d (C.read a s))
  | .out a r => C.advance 1 (s.write a (s.reg r))
  | .sbi a bit => C.advance 2 (s.write a (s.io a ||| 1#8 <<< bit))
  | .push r => C.advance 2 { s with saved := s.reg r :: s.saved }
  | .pop d => C.advance 2 { s.set d (s.saved.headD 0#8) with saved := s.saved.tail }
  | .nop => C.advance 1 s
  | .sbrs r bit => C.skip ((s.reg r).getLsbD bit) s
  | .sbrc r bit => C.skip (!(s.reg r).getLsbD bit) s
  | .sbis a bit => C.skip ((C.read a s).getLsbD bit) s
  | .sbic a bit => C.skip (!(C.read a s).getLsbD bit) s
  | .rjmp l => s.goto (l, 0) 2
  | .brcs l => C.branch s.carry l s
  | .brcc l => C.branch (!s.carry) l s
  | .breq l => C.branch s.zero l s
  | .brne l => C.branch (!s.zero) l s
  | .rcall l => { s with stack := C.after s.pc 1 :: s.stack }.goto (l, 0) 3
  | .ret =>
      match s.stack with
      | [] => s
      | pc :: stack => { s with stack := stack }.goto pc 4

def step (C : Code L) (s : Cpu L) : Cpu L :=
  match (C.block s.pc.1)[s.pc.2]? with
  | some i => C.exec s i
  | none => s

end Code

attribute [simp] Cpu.set Cpu.result Cpu.resultCarry Cpu.pair Cpu.resultPair Cpu.x Cpu.y Cpu.z
  Cpu.setX Cpu.setY Cpu.write Cpu.goto Code.after Code.advance Code.branch Code.skip Code.read
  Code.exec Code.step

theorem load_sram {a : BitVec 16} (h : 0x60 ≤ a.toNat) (s : Cpu L) : s.load a = s.sram a := by
  rw [Cpu.load, if_neg (by omega), if_neg (by omega)]

theorem store_sram {a : BitVec 16} (h : 0x60 ≤ a.toNat) (v : BitVec 8) (s : Cpu L) :
    s.store a v = { s with sram := Function.update s.sram a v } := by
  rw [Cpu.store, if_neg (by omega), if_neg (by omega)]

theorem append_extract (v : BitVec 16) : v.extractLsb' 8 8 ++ v.extractLsb' 0 8 = v := by
  apply BitVec.eq_of_getLsbD_eq
  intro i hi
  rw [BitVec.getLsbD_append, BitVec.getLsbD_extractLsb', BitVec.getLsbD_extractLsb']
  by_cases h : i < 8
  · simp [h]
  · simp [h, show i - 8 < 8 by omega, Nat.add_sub_of_le (Nat.le_of_not_lt h)]

theorem extract_append (h l : BitVec 8) :
    (h ++ l).extractLsb' 0 8 = l ∧ (h ++ l).extractLsb' 8 8 = h := by
  constructor
  · apply BitVec.eq_of_getLsbD_eq
    intro i hi
    simp only [BitVec.getLsbD_extractLsb', BitVec.getLsbD_append]
    simp [hi]
  · apply BitVec.eq_of_getLsbD_eq
    intro i hi
    simp only [BitVec.getLsbD_extractLsb', BitVec.getLsbD_append]
    simp [hi]

/-- `n` bytes of the memory, from `p` on. -/
def bytesAt (memory : BitVec 16 → BitVec 8) (p : BitVec 16) (n : Nat) : List (BitVec 8) :=
  (List.range n).map fun i => memory (p + BitVec.ofNat 16 i)

theorem bytesAt_succ (memory : BitVec 16 → BitVec 8) (p : BitVec 16) (n : Nat) :
    bytesAt memory p (n + 1) = bytesAt memory p n ++ [memory (p + BitVec.ofNat 16 n)] := by
  rw [bytesAt, List.range_succ, List.map_append]
  rfl

theorem toNat_add_ofNat {p : BitVec 16} {n : Nat} (h : p.toNat + n < 65536) :
    (p + BitVec.ofNat 16 n).toNat = p.toNat + n := by
  have hn : (BitVec.ofNat 16 n).toNat = n := by
    rw [BitVec.toNat_ofNat, Nat.mod_eq_of_lt (by omega)]
  rw [BitVec.toNat_add_of_lt (by omega), hn]

theorem bytesAt_update {memory : BitVec 16 → BitVec 8} {p : BitVec 16} {n m : Nat} (hn : n ≤ m)
    (h : p.toNat + m < 65536) (v : BitVec 8) :
    bytesAt (Function.update memory (p + BitVec.ofNat 16 m) v) p n = bytesAt memory p n := by
  refine List.map_congr_left ?_
  intro i hi
  rw [List.mem_range] at hi
  apply Function.update_of_ne
  intro heq
  have hnat := congrArg BitVec.toNat heq
  rw [toNat_add_ofNat (by omega), toNat_add_ofNat h] at hnat
  omega

theorem bytesAt_update_update {memory : BitVec 16 → BitVec 8} {p : BitVec 16} {n : Nat}
    (h : p.toNat + n + 1 < 65536) (v v' : BitVec 8) :
    bytesAt (Function.update (Function.update memory (p + BitVec.ofNat 16 n) v)
      (p + BitVec.ofNat 16 (n + 1)) v') p (n + 2) = bytesAt memory p n ++ [v, v'] := by
  rw [bytesAt_succ, bytesAt_update (Nat.le_refl _) (by omega), bytesAt_succ,
    bytesAt_update (Nat.le_refl _) (by omega), Function.update_self, Function.update_self,
    List.append_assoc]
  rfl

/-- What a routine leaves as it was: the memory, the ports, the stacks and all
registers but `clobbered`. -/
structure Frame (clobbered : List Reg) (s s' : Cpu L) : Prop where
  reg : ∀ r ∉ clobbered, s'.reg r = s.reg r
  sram : s'.sram = s.sram
  io : s'.io = s.io
  outs : s'.outs = s.outs
  stack : s'.stack = s.stack
  saved : s'.saved = s.saved

namespace Frame

variable {clobbered clobbered' : List Reg} {s s₁ s' : Cpu L}

theorem refl (clobbered : List Reg) (s : Cpu L) : Frame clobbered s s :=
  ⟨fun _ _ => rfl, rfl, rfl, rfl, rfl, rfl⟩

theorem trans (h : Frame clobbered s s₁) (h' : Frame clobbered s₁ s') :
    Frame clobbered s s' where
  reg r hr := (h'.reg r hr).trans (h.reg r hr)
  sram := h'.sram.trans h.sram
  io := h'.io.trans h.io
  outs := h'.outs.trans h.outs
  stack := h'.stack.trans h.stack
  saved := h'.saved.trans h.saved

theorem mono (h : Frame clobbered s s') (hsub : clobbered ⊆ clobbered') :
    Frame clobbered' s s' :=
  { h with reg := fun r hr => h.reg r fun hmem => hr (hsub hmem) }

end Frame

section Reaches

variable {C : Code L} {s : Cpu L} {P Q : Cpu L → Prop}

/-- From `s` on the program gets to a state that satisfies `Q`. -/
def Reaches (C : Code L) (s : Cpu L) (Q : Cpu L → Prop) : Prop := ∃ n, Q (C.step^[n] s)

theorem Reaches.here (h : Q s) : Reaches C s Q := ⟨0, h⟩

theorem Reaches.steps (n : Nat) (h : Reaches C (C.step^[n] s) Q) : Reaches C s Q := by
  obtain ⟨m, h⟩ := h
  refine ⟨m + n, ?_⟩
  rwa [Function.iterate_add_apply]

theorem Reaches.mono (h : Reaches C s P) (hPQ : ∀ s', P s' → Q s') : Reaches C s Q := by
  obtain ⟨n, h⟩ := h
  exact ⟨n, hPQ _ h⟩

theorem Reaches.bind (h : Reaches C s P) (hPQ : ∀ s', P s' → Reaches C s' Q) :
    Reaches C s Q := by
  obtain ⟨n, h⟩ := h
  exact .steps n (hPQ _ h)

/-- The rule for a loop that is entered with `n` rounds to go. -/
theorem Reaches.loop (I : Nat → Cpu L → Prop)
    (hround : ∀ n s, I (n + 1) s → Reaches C s (I n)) {n : Nat} (hI : I n s) :
    Reaches C s (I 0) := by
  induction n generalizing s with
  | zero => exact .here hI
  | succ n ih => exact (hround n s hI).bind fun _ => ih

end Reaches

end NesMiniAdapter.AvrMachine
