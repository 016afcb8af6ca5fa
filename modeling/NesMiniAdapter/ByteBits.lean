import Mathlib.Data.List.Forall2

/-!
Bytes as eight bits: single bits of a register, the bits in the order in which
they are sent, and the shift register that takes them in.
-/

namespace NesMiniAdapter.ByteBits

/-- `1 << bit` as a byte. -/
abbrev bv (bit : Nat) : BitVec 8 := 1#8 <<< bit

theorem getLsbD_bv (i : Nat) {j : Nat} (hj : j < 8) :
    (bv i).getLsbD j = decide (i = j) := by
  simp only [bv, BitVec.getLsbD_shiftLeft, BitVec.getLsbD_one, hj]
  by_cases h : i = j
  · simp [h]
  · by_cases h' : j < i <;> simp [h, h']
    omega

theorem getLsbD_or_bv (v : BitVec 8) (i : Nat) {j : Nat} (hj : j < 8) :
    (v ||| bv i).getLsbD j = (v.getLsbD j || decide (i = j)) := by
  rw [BitVec.getLsbD_or, getLsbD_bv i hj]

theorem getLsbD_and_not_bv (v : BitVec 8) (i : Nat) {j : Nat} (hj : j < 8) :
    (v &&& ~~~bv i).getLsbD j = (v.getLsbD j && !decide (i = j)) := by
  rw [BitVec.getLsbD_and, BitVec.getLsbD_not, getLsbD_bv i hj]
  simp [hj]

theorem getLsbD_xor_bv (v : BitVec 8) (i : Nat) {j : Nat} (hj : j < 8) :
    (v ^^^ bv i).getLsbD j = (v.getLsbD j ^^ decide (i = j)) := by
  rw [BitVec.getLsbD_xor, getLsbD_bv i hj]

theorem and_bv_ne_zero (v : BitVec 8) {i : Nat} (hi : i < 8) :
    (v &&& bv i != 0#8) = v.getLsbD i := by
  rw [Bool.eq_iff_iff, bne_iff_ne, ne_eq, not_iff_comm]
  constructor
  · intro hbit
    apply BitVec.eq_of_getLsbD_eq
    intro j hj
    rw [BitVec.getLsbD_and, getLsbD_bv i hj]
    by_cases h : i = j
    · subst h
      simpa using hbit
    · simp [h]
  · intro hzero
    have := congrArg (fun w : BitVec 8 => w.getLsbD i) hzero
    simpa [BitVec.getLsbD_and, getLsbD_bv i hi] using this

/-- One step of a shift register: bit 0 takes the new bit. -/
def shiftIn (v : BitVec 8) (bit : Bool) : BitVec 8 :=
  v <<< 1 ||| if bit then 1#8 else 0#8

theorem shiftIn_getLsbD (v : BitVec 8) (bit : Bool) (i : Nat) :
    (shiftIn v bit).getLsbD i =
      if i = 0 then bit else decide (i < 8) && v.getLsbD (i - 1) := by
  unfold shiftIn
  cases bit <;> cases i <;> simp

/-- The bits of a byte, most significant first. -/
def bitsOf (v : BitVec 8) : List Bool :=
  [v.getLsbD 7, v.getLsbD 6, v.getLsbD 5, v.getLsbD 4,
    v.getLsbD 3, v.getLsbD 2, v.getLsbD 1, v.getLsbD 0]

@[simp] theorem bitsOf_length (v : BitVec 8) : (bitsOf v).length = 8 := rfl

/-- What holds of the bits one by one holds at every index. -/
theorem getLsbD_of_forall₂ {P : Bool → Bool → Prop} {v w : BitVec 8}
    (h : List.Forall₂ P (bitsOf v) (bitsOf w)) {i : Nat} (hi : i < 8) :
    P (v.getLsbD i) (w.getLsbD i) := by
  simp only [bitsOf, List.forall₂_cons] at h
  obtain ⟨h7, h6, h5, h4, h3, h2, h1, h0, -⟩ := h
  have hcases : i = 0 ∨ i = 1 ∨ i = 2 ∨ i = 3 ∨ i = 4 ∨ i = 5 ∨ i = 6 ∨ i = 7 := by
    omega
  rcases hcases with rfl | rfl | rfl | rfl | rfl | rfl | rfl | rfl <;> assumption

theorem eq_of_bits {v w : BitVec 8} (h : bitsOf v = bitsOf w) : v = w := by
  rw [← List.forall₂_eq_eq_eq] at h
  apply BitVec.eq_of_getLsbD_eq
  intro i hi
  exact getLsbD_of_forall₂ h hi

theorem bitsOf_shiftIn {bits : List Bool} (h : bits.length = 8) (v : BitVec 8) :
    bitsOf (bits.foldl shiftIn v) = bits := by
  match bits, h with
  | [b7, b6, b5, b4, b3, b2, b1, b0], _ =>
      simp only [bitsOf, List.foldl_cons, List.foldl_nil, shiftIn_getLsbD]
      simp

theorem shiftIn_bitsOf (v w : BitVec 8) : (bitsOf v).foldl shiftIn w = v :=
  eq_of_bits (bitsOf_shiftIn (bitsOf_length v) w)

end NesMiniAdapter.ByteBits
