import Mathlib.Data.BitVec
import Mathlib.Data.List.GetD

/-!
Cyclic redundancy checks computed bit by bit in a reflected shift register of
any width, and the errors that such a check finds.
-/

namespace NesMiniAdapter.Crc

variable {w : Nat}

/-- The bits of a word, least significant first. -/
def lsbFirst (x : BitVec w) : List Bool := (List.range w).map x.getLsbD

@[simp] theorem length_lsbFirst (x : BitVec w) : (lsbFirst x).length = w := by
  simp [lsbFirst]

/-- What the register feeds back when `bit` enters it. -/
def feed (crc : BitVec w) (bit : Bool) : Bool := crc.getLsbD 0 ^^ bit

/-- The register after one bit. -/
def crcBit (poly crc : BitVec w) (bit : Bool) : BitVec w :=
  if feed crc bit then crc >>> 1 ^^^ poly else crc >>> 1

def crcBits (poly crc : BitVec w) (bits : List Bool) : BitVec w :=
  bits.foldl (crcBit poly) crc

/-- Whether the number of ones is odd. -/
def parity (bits : List Bool) : Bool := bits.foldr xor false

theorem xor_xor_comm (a b c d : Bool) : ((a ^^ b) ^^ (c ^^ d)) = ((a ^^ c) ^^ (b ^^ d)) := by
  rw [Bool.xor_assoc, Bool.xor_left_comm b, ← Bool.xor_assoc]

section Bits

variable {poly crc crc' : BitVec w}

theorem crcBits_cons (bit : Bool) (bits : List Bool) :
    crcBits poly crc (bit :: bits) = crcBits poly (crcBit poly crc bit) bits := rfl

theorem crcBits_append (bits bits' : List Bool) :
    crcBits poly crc (bits ++ bits') = crcBits poly (crcBits poly crc bits) bits' :=
  List.foldl_append

theorem getLsbD_crcBit (bit : Bool) (i : Nat) :
    (crcBit poly crc bit).getLsbD i =
      (crc.getLsbD (1 + i) ^^ (feed crc bit && poly.getLsbD i)) := by
  unfold crcBit
  cases feed crc bit <;> simp

theorem feed_xor (bit bit' : Bool) :
    feed (crc ^^^ crc') (bit ^^ bit') = (feed crc bit ^^ feed crc' bit') := by
  rw [feed, BitVec.getLsbD_xor, xor_xor_comm]
  rfl

theorem crcBit_xor (bit bit' : Bool) :
    crcBit poly (crc ^^^ crc') (bit ^^ bit') = crcBit poly crc bit ^^^ crcBit poly crc' bit' := by
  apply BitVec.eq_of_getLsbD_eq
  intro i _
  rw [BitVec.getLsbD_xor, getLsbD_crcBit, getLsbD_crcBit, getLsbD_crcBit, feed_xor,
    BitVec.getLsbD_xor, Bool.and_xor_distrib_right, xor_xor_comm]

/-- The register is linear in what it starts with and what enters it. -/
theorem crcBits_xor (poly crc crc' : BitVec w) {bits bits' : List Bool}
    (h : bits.length = bits'.length) :
    crcBits poly (crc ^^^ crc') (List.zipWith xor bits bits') =
      crcBits poly crc bits ^^^ crcBits poly crc' bits' := by
  induction bits generalizing bits' crc crc' with
  | nil =>
      obtain rfl := List.length_eq_zero_iff.mp h.symm
      rfl
  | cons bit bits ih =>
      obtain ⟨bit', bits', rfl⟩ := List.exists_cons_of_length_eq_add_one h.symm
      rw [List.zipWith_cons_cons, crcBits_cons, crcBit_xor, ih _ _ (Nat.succ.inj h)]
      rfl

/-- Two messages with the same check differ by a message that leaves an empty
register empty. -/
theorem crcBits_eq_iff {bits bits' : List Bool} (h : bits.length = bits'.length) :
    crcBits poly crc bits = crcBits poly crc bits' ↔
      crcBits poly 0#w (List.zipWith xor bits bits') = 0#w := by
  have hxor := crcBits_xor poly crc crc h
  rw [BitVec.xor_self] at hxor
  rw [hxor, BitVec.xor_eq_zero_iff]

theorem crcBit_zero : crcBit poly 0#w false = 0#w := by simp [crcBit, feed]

theorem crcBits_zeros (poly : BitVec w) (n : Nat) :
    crcBits poly 0#w (List.replicate n false) = 0#w := by
  induction n with
  | zero => rfl
  | succ n ih => rw [List.replicate_succ, crcBits_cons, crcBit_zero, ih]

end Bits

section Cancel

variable {poly crc crc' : BitVec w} (hw : 0 < w) (hpoly : poly.getLsbD (w - 1) = true)

include hw hpoly

/-- The top bit of the register is what was fed back. -/
theorem getLsbD_crcBit_top (bit : Bool) : (crcBit poly crc bit).getLsbD (w - 1) = feed crc bit := by
  rw [getLsbD_crcBit, hpoly, BitVec.getLsbD_of_ge crc _ (by omega)]
  simp

theorem crcBit_injective {bit : Bool} (h : crcBit poly crc bit = crcBit poly crc' bit) :
    crc = crc' := by
  have hfeed : feed crc bit = feed crc' bit := by
    rw [← getLsbD_crcBit_top hw hpoly, h, getLsbD_crcBit_top hw hpoly]
  apply BitVec.eq_of_getLsbD_eq
  intro i _
  cases i with
  | zero => simpa [feed] using hfeed
  | succ i =>
      have hbit := congrArg (BitVec.getLsbD · i) h
      simp only [getLsbD_crcBit, hfeed, Nat.add_comm 1 i] at hbit
      exact Bool.xor_left_inj.mp hbit

theorem crcBits_injective {bits : List Bool}
    (h : crcBits poly crc bits = crcBits poly crc' bits) : crc = crc' := by
  induction bits generalizing crc crc' with
  | nil => exact h
  | cons bit bits ih => exact crcBit_injective hw hpoly (ih h)

/-- Going back from one register, `w` bits at most, two runs have fed back the
same: the bits still in the register agree. -/
theorem crcBits_back {bits bits' : List Bool} (hlength : bits.length = bits'.length)
    (hle : bits.length ≤ w) (h : crcBits poly crc bits = crcBits poly crc' bits') :
    (∀ i, crc.getLsbD (bits.length + i) = crc'.getLsbD (bits.length + i)) ∧
      (crc = crc' → bits = bits') := by
  induction bits generalizing bits' crc crc' with
  | nil =>
      obtain rfl := List.length_eq_zero_iff.mp hlength.symm
      exact ⟨fun i => by rw [show crc = crc' from h], fun _ => rfl⟩
  | cons bit bits ih =>
      obtain ⟨bit', bits', rfl⟩ := List.exists_cons_of_length_eq_add_one hlength.symm
      simp only [List.length_cons] at hlength hle ⊢
      rw [crcBits_cons, crcBits_cons] at h
      obtain ⟨hback, heq⟩ := ih (Nat.succ.inj hlength) (by omega) h
      have hfeed : feed crc bit = feed crc' bit' := by
        have htop := hback (w - 1 - bits.length)
        rw [show bits.length + (w - 1 - bits.length) = w - 1 by omega] at htop
        rwa [getLsbD_crcBit_top hw hpoly, getLsbD_crcBit_top hw hpoly] at htop
      constructor
      · intro i
        have hi := hback i
        rw [getLsbD_crcBit, getLsbD_crcBit, hfeed] at hi
        rw [show bits.length + 1 + i = 1 + (bits.length + i) by omega]
        exact Bool.xor_left_inj.mp hi
      · rintro rfl
        obtain rfl : bit = bit' := by simpa [feed] using hfeed
        rw [heq rfl]

/-- A burst of at most `w` bits in an otherwise empty message is not lost. -/
theorem crcBits_burst {burst : List Bool} (hle : burst.length ≤ w) (n m : Nat)
    (h : crcBits poly 0#w (List.replicate n false ++ burst ++ List.replicate m false) = 0#w) :
    burst = List.replicate burst.length false := by
  rw [crcBits_append, crcBits_append, crcBits_zeros] at h
  have hburst : crcBits poly 0#w burst =
      crcBits poly 0#w (List.replicate burst.length false) := by
    rw [crcBits_zeros]
    apply crcBits_injective hw hpoly
    rw [h, crcBits_zeros]
  exact (crcBits_back hw hpoly (by simp) hle hburst).2 rfl

end Cancel

section Residue

variable {poly crc : BitVec w}

/-- A register is emptied by its own bits. -/
theorem crcBits_own {v : Nat} (hv : v ≤ w) (x : BitVec v) :
    crcBits poly (x.setWidth w) (lsbFirst x) = 0#w := by
  have hshift : ∀ n ≤ v, crcBits poly (x.setWidth w) ((List.range n).map x.getLsbD) =
      x.setWidth w >>> n := by
    intro n hn
    induction n with
    | zero => simp [crcBits]
    | succ n ih =>
        rw [List.range_succ, List.map_append, crcBits_append, ih (by omega)]
        simp [crcBits, crcBit, feed, BitVec.shiftRight_add, show n < w by omega]
  rw [lsbFirst, hshift v le_rfl]
  apply BitVec.eq_of_getLsbD_eq
  intro i _
  simp

/-- A word that enters bit by bit can as well be added to the register first. -/
theorem crcBits_lsbFirst {v : Nat} (hv : v ≤ w) (x : BitVec v) :
    crcBits poly crc (lsbFirst x) =
      crcBits poly (crc ^^^ x.setWidth w) (List.replicate v false) := by
  have hzip : List.zipWith xor (List.replicate v false) (lsbFirst x) = lsbFirst x := by
    apply List.ext_getElem
    · simp
    · intro i _ _
      simp
  have hlength : (List.replicate v false).length = (lsbFirst x).length := by simp
  have hxor := crcBits_xor poly (crc ^^^ x.setWidth w) (x.setWidth w) hlength
  rwa [hzip, crcBits_own hv, BitVec.xor_zero, BitVec.xor_assoc, BitVec.xor_self,
    BitVec.xor_zero] at hxor

/-- What is left in the register when a message and its complemented check have
entered it. -/
def residue (poly : BitVec w) : BitVec w :=
  crcBits poly (BitVec.allOnes w) (List.replicate w false)

theorem crcBits_eq_residue_iff (hw : 0 < w) (hpoly : poly.getLsbD (w - 1) = true)
    (x : BitVec w) : crcBits poly crc (lsbFirst x) = residue poly ↔ x = ~~~crc := by
  rw [crcBits_lsbFirst le_rfl, BitVec.setWidth_eq, residue]
  constructor
  · intro h
    have hxor := crcBits_injective hw hpoly h
    rw [← BitVec.xor_allOnes, ← hxor, ← BitVec.xor_assoc, BitVec.xor_self, BitVec.zero_xor]
  · rintro rfl
    rw [← BitVec.xor_allOnes, ← BitVec.xor_assoc, BitVec.xor_self, BitVec.zero_xor]

end Residue

section Parity

variable {poly : BitVec w}

theorem parity_cons (bit : Bool) (bits : List Bool) :
    parity (bit :: bits) = (bit ^^ parity bits) := rfl

theorem parity_map_xor {α : Type} (l : List α) (f g : α → Bool) :
    parity (l.map fun i => f i ^^ g i) = (parity (l.map f) ^^ parity (l.map g)) := by
  induction l with
  | nil => rfl
  | cons i l ih =>
      simp only [List.map_cons, parity_cons, ih]
      exact xor_xor_comm ..

theorem parity_lsbFirst_shift (crc : BitVec w) :
    parity (lsbFirst (crc >>> 1)) = (crc.getLsbD 0 ^^ parity (lsbFirst crc)) := by
  cases w with
  | zero => simp [lsbFirst, parity]
  | succ w =>
      have hshift : lsbFirst (crc >>> 1) =
          (List.range w).map (fun i => crc.getLsbD (i + 1)) ++ [false] := by
        rw [lsbFirst, List.range_succ, List.map_append]
        simp [Nat.add_comm 1]
      have hcrc : lsbFirst crc =
          crc.getLsbD 0 :: (List.range w).map (fun i => crc.getLsbD (i + 1)) := by
        rw [lsbFirst, List.range_succ_eq_map]
        simp [Function.comp_def]
      rw [hshift, hcrc, parity_cons, ← Bool.xor_assoc, Bool.xor_self]
      simp [parity]

theorem parity_lsbFirst_xor (x y : BitVec w) :
    parity (lsbFirst (x ^^^ y)) = (parity (lsbFirst x) ^^ parity (lsbFirst y)) := by
  rw [lsbFirst, show (x ^^^ y).getLsbD = fun i => x.getLsbD i ^^ y.getLsbD i from
    funext fun _ => BitVec.getLsbD_xor, parity_map_xor]
  rfl

/-- With a polynomial of odd weight the register keeps the parity of what has
entered it. -/
theorem parity_crcBits (hpoly : parity (lsbFirst poly) = true) (crc : BitVec w)
    (bits : List Bool) :
    parity (lsbFirst (crcBits poly crc bits)) = (parity (lsbFirst crc) ^^ parity bits) := by
  induction bits generalizing crc with
  | nil => simp [crcBits, parity]
  | cons bit bits ih =>
      have hbit : parity (lsbFirst (crcBit poly crc bit)) = (parity (lsbFirst crc) ^^ bit) := by
        unfold crcBit feed
        cases hlow : crc.getLsbD 0 <;> cases bit <;>
          simp [parity_lsbFirst_xor, parity_lsbFirst_shift, hlow, hpoly]
      rw [crcBits_cons, ih, hbit, parity_cons, Bool.xor_assoc]

theorem parity_eq_count (bits : List Bool) : parity bits = decide (bits.count true % 2 = 1) := by
  induction bits with
  | nil => rfl
  | cons bit bits ih =>
      rw [parity_cons, ih, List.count_cons]
      cases bit
      · simp
      · rcases Nat.mod_two_eq_zero_or_one (bits.count true) with h | h <;> simp [h, Nat.add_mod]

end Parity

section Weight

variable {poly : BitVec w}

theorem eq_zeros {bits : List Bool} (h : bits.count true = 0) :
    bits = List.replicate bits.length false := by
  rw [List.eq_replicate_iff]
  refine ⟨rfl, ?_⟩
  intro bit hbit
  cases bit with
  | false => rfl
  | true => exact absurd hbit (List.count_eq_zero.mp h)

theorem split_first {bits : List Bool} {k : Nat} (h : bits.count true = k + 1) :
    ∃ n bits', bits = List.replicate n false ++ true :: bits' ∧ bits'.count true = k := by
  induction bits with
  | nil => cases h
  | cons bit bits ih =>
      cases bit with
      | true => exact ⟨0, bits, rfl, by simpa using h⟩
      | false =>
          obtain ⟨n, bits', rfl, hcount⟩ := ih (by simpa using h)
          exact ⟨n + 1, bits', rfl, hcount⟩

/-- If the polynomial has odd weight and no two ones close enough cancel, a
message with at most three ones is not lost. -/
theorem crcBits_weight (hw : 0 < w) (hpoly : poly.getLsbD (w - 1) = true)
    (hodd : parity (lsbFirst poly) = true) {length : Nat}
    (hpairs : ∀ n < length, crcBits poly 0#w (true :: List.replicate n false ++ [true]) ≠ 0#w)
    {bits : List Bool} (hlength : bits.length ≤ length + 1) (hcount : bits.count true ≤ 3)
    (h : crcBits poly 0#w bits = 0#w) : bits = List.replicate bits.length false := by
  have heven : bits.count true % 2 = 0 := by
    have hparity := parity_crcBits hodd 0#w bits
    rw [h, parity_eq_count bits] at hparity
    have hfalse := Bool.xor_right_inj.mp ((Bool.xor_false _).trans hparity)
    simpa using hfalse.symm
  apply eq_zeros
  by_contra hne
  have htwo : bits.count true = 1 + 1 := by omega
  obtain ⟨n, bits', rfl, hone⟩ := split_first htwo
  obtain ⟨m, bits'', rfl, hzero⟩ := split_first hone
  rw [eq_zeros hzero] at h hlength
  have hsplit : List.replicate n false ++
      true :: (List.replicate m false ++ true :: List.replicate bits''.length false) =
      List.replicate n false ++
        ((true :: List.replicate m false ++ [true]) ++ List.replicate bits''.length false) := by
    simp
  rw [hsplit, crcBits_append, crcBits_append, crcBits_zeros] at h
  refine hpairs m (by simp at hlength; omega) ?_
  apply crcBits_injective hw hpoly
  rw [h, crcBits_zeros]

end Weight

end NesMiniAdapter.Crc
