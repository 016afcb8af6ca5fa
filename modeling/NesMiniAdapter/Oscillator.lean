import Mathlib.Algebra.Group.Nat.Defs
import NesMiniAdapter.FuelledProgram

/-!
The calibration of the internal oscillator, `libs-device/osccal.c`: a binary search for the
best value of OSCCAL, and a look at its neighbours.
-/

namespace NesMiniAdapter.Oscillator

open NesMiniAdapter.FuelledProgram

abbrev fCpu : Nat := 16500000

/-- The register and the variables of `calibrateOscillator`. -/
structure Calibration where
  osccal : BitVec 8
  step : BitVec 8
  trialValue : BitVec 8
  optimumValue : BitVec 8
  x : BitVec 16
  optimumDev : BitVec 16

/-- `(unsigned)(1499 * (double)F_CPU / 10.5e6 + 0.5)` -/
def targetValue : BitVec 16 := BitVec.ofNat 16 ((2 * (1499 * fCpu) + 10500000) / (2 * 10500000))

section Code

variable (frameLength : BitVec 8 → BitVec 16)

/-- The length of a frame in units of a clock that the register sets. -/
def usbMeasureFrameLength : Program Calibration (BitVec 16) := do
  return frameLength (← get).osccal

/-- The body of the first loop. -/
def searchStep : Program Calibration Unit := do
  modify fun c => { c with osccal := c.trialValue + c.step }
  let x ← usbMeasureFrameLength frameLength
  modify fun c => { c with x := x }
  modify fun c => { c with
    trialValue := if c.x.slt targetValue then c.trialValue + c.step else c.trialValue }
  modify fun c => { c with step := c.step >>> 1 }

/-- The body of the second loop. -/
def tryNeighbour : Program Calibration Unit := do
  let length ← usbMeasureFrameLength frameLength
  modify fun c => { c with x := length - targetValue }
  modify fun c => { c with x := if c.x.slt 0#16 then -c.x else c.x }
  modify fun c =>
    if c.x.slt c.optimumDev then { c with optimumDev := c.x, optimumValue := c.osccal } else c
  modify fun c => { c with osccal := c.osccal + 1#8 }

def search : Program Calibration Unit :=
  doWhile (searchStep frameLength) do return decide (0#8 < (← get).step)

/-- The register is compared as an `int`. -/
def neighbours : Program Calibration Unit :=
  whileLoop (do
    let c ← get
    return decide (c.osccal.toNat ≤ c.trialValue.toNat + 1)) (tryNeighbour frameLength)

def calibrateOscillator : Program Calibration Unit := do
  modify fun c => { c with step := 128#8, trialValue := 0#8 }
  search frameLength
  modify fun c => { c with optimumValue := c.trialValue, optimumDev := c.x }
  modify fun c => { c with osccal := c.trialValue - 1#8 }
  neighbours frameLength
  modify fun c => { c with osccal := c.optimumValue }

end Code

/-- How far a length is from the one that is wanted. -/
def deviation (length : BitVec 16) : Nat := ((length.toNat : Int) - targetValue.toNat).natAbs

/-- What the calibration takes for granted of the oscillator: it gets faster with the value,
is faster than half of what it should be, and every length it yields is positive as an `int`. -/
structure Regular (frameLength : BitVec 8 → BitVec 16) : Prop where
  mono : ∀ v w, v ≤ w → frameLength v ≤ frameLength w
  half : ∀ v, targetValue.toNat < 2 * (frameLength v).toNat
  short : ∀ v, (frameLength v).toNat < 32768

theorem targetValue_toNat : targetValue.toNat = 2356 := by
  decide

theorem slt_iff {a b : BitVec 16} (ha : a.toNat < 32768) (hb : b.toNat < 32768) :
    a.slt b = true ↔ a.toNat < b.toNat := by
  rw [BitVec.slt, decide_eq_true_eq, BitVec.toInt_eq_toNat_cond, BitVec.toInt_eq_toNat_cond,
    if_pos (by omega), if_pos (by omega)]
  omega

theorem toNat_succ {v : BitVec 8} (h : v.toNat < 255) : (v + 1#8).toNat = v.toNat + 1 := by
  have hone : (1#8 : BitVec 8).toNat = 1 := rfl
  rw [BitVec.toNat_add_of_lt (by omega), hone]

/-- The absolute value of the difference, as the code computes it. -/
def difference (length : BitVec 16) : BitVec 16 :=
  if (length - targetValue).slt 0#16 then -(length - targetValue) else length - targetValue

theorem toNat_difference {length : BitVec 16} (h : length.toNat < 32768) :
    (difference length).toNat = deviation length := by
  have htarget := targetValue_toNat
  have hsub : (length - targetValue).toNat = (length.toNat + 63180) % 65536 := by
    rw [BitVec.toNat_sub, htarget]
    omega
  have hneg : (length - targetValue).slt 0#16 = true ↔ length.toNat < 2356 := by
    rw [BitVec.slt_zero_iff_msb_cond, BitVec.msb_eq_decide, decide_eq_true_eq, hsub]
    omega
  rw [difference, deviation, htarget]
  split
  · rename_i hslt
    have hlt := hneg.mp hslt
    rw [BitVec.toNat_neg, hsub]
    omega
  · rename_i hslt
    have hlt : ¬ length.toNat < 2356 := fun hlt => hslt (hneg.mpr hlt)
    rw [hsub]
    omega

section Search

variable {frameLength : BitVec 8 → BitVec 16}

/-- The search has narrowed the values down to the `2 ^ n` from `trialValue` on. -/
structure Bracket (frameLength : BitVec 8 → BitVec 16) (n : Nat) (c : Calibration) : Prop where
  step : c.step.toNat = 2 ^ n / 2
  top : c.trialValue.toNat + 2 ^ n ≤ 256
  slow : c.trialValue ≠ 0#8 → (frameLength c.trialValue).toNat < targetValue.toNat
  fast : ∀ v : BitVec 8, v.toNat = c.trialValue.toNat + 2 ^ n →
    targetValue.toNat ≤ (frameLength v).toNat

/-- The last length that was measured is one at an end. -/
def Measured (frameLength : BitVec 8 → BitVec 16) (n : Nat) (c : Calibration) : Prop :=
  ∃ v : BitVec 8, c.x = frameLength v ∧
    (v.toNat = c.trialValue.toNat ∨ v.toNat = c.trialValue.toNat + 2 ^ n)

theorem ends_searchStep (hshort : ∀ v, (frameLength v).toNat < 32768) {n : Nat} {c : Calibration}
    (h : Bracket frameLength (n + 1) c) :
    Ends (searchStep frameLength) c fun _ c' =>
      Bracket frameLength n c' ∧ Measured frameLength n c' := by
  obtain ⟨hstep, htop, hslow, hfast⟩ := h
  have hpow : 2 ^ (n + 1) / 2 = 2 ^ n := by rw [Nat.pow_succ, Nat.mul_div_cancel _ (by decide)]
  have hdouble : 2 ^ (n + 1) = 2 ^ n + 2 ^ n := by rw [Nat.pow_succ, Nat.mul_two]
  rw [hpow] at hstep
  rw [hdouble] at htop hfast
  have hpos : 0 < 2 ^ n := Nat.two_pow_pos n
  have hsum : (c.trialValue + c.step).toNat = c.trialValue.toNat + 2 ^ n := by
    rw [BitVec.toNat_add_of_lt (by omega), hstep]
  have hhalf : (c.step >>> 1).toNat = 2 ^ n / 2 := by
    rw [BitVec.toNat_ushiftRight, Nat.shiftRight_eq_div_pow, hstep, Nat.pow_one]
  have hslt := slt_iff (hshort (c.trialValue + c.step))
    (show targetValue.toNat < 32768 by rw [targetValue_toNat]; decide)
  refine ends_bind (ends_modify (ends_bind ?_))
  refine ends_bind (ends_get (ends_pure (ends_bind (ends_modify (ends_bind (ends_modify
    (ends_modify ?_)))))))
  dsimp only
  by_cases hlt : (frameLength (c.trialValue + c.step)).slt targetValue = true
  · rw [if_pos hlt]
    refine ⟨⟨hhalf, ?_, fun _ => hslt.mp hlt, ?_⟩, c.trialValue + c.step, rfl, .inl rfl⟩
    · rw [hsum]
      omega
    · intro v hv
      rw [hsum] at hv
      exact hfast v (by omega)
  · rw [if_neg hlt]
    have htop : c.trialValue.toNat + 2 ^ n ≤ 256 := by omega
    refine ⟨⟨hhalf, htop, hslow, ?_⟩, c.trialValue + c.step, rfl, .inr hsum⟩
    intro v hv
    have hv : v = c.trialValue + c.step := BitVec.eq_of_toNat_eq (by rw [hv, hsum])
    rw [hv]
    exact Nat.le_of_not_lt fun h => hlt (hslt.mpr h)

theorem ends_search (hshort : ∀ v, (frameLength v).toNat < 32768) {c : Calibration}
    (h : Bracket frameLength 8 c) :
    Ends (search frameLength) c fun _ c' =>
      Bracket frameLength 0 c' ∧ Measured frameLength 0 c' := by
  refine ends_bind ((ends_searchStep hshort h).mono ?_)
  intro _ c₁ h₁
  refine ends_whileLoop
    (fun n c => Bracket frameLength n c ∧ Measured frameLength n c) ?_ h₁
  rintro n c ⟨hbracket, hmeasured⟩
  refine ends_bind (ends_get (ends_pure ?_))
  have hstep := hbracket.step
  cases n with
  | zero =>
      have hzero : ¬ 0#8 < c.step := by
        rw [BitVec.lt_def, hstep]
        decide
      simp only [hzero, decide_false, Bool.false_eq_true, if_false]
      exact ⟨hbracket, hmeasured⟩
  | succ n =>
      have hpos : 0#8 < c.step := by
        rw [BitVec.lt_def, hstep, Nat.pow_succ, Nat.mul_div_cancel _ (by decide)]
        exact Nat.two_pow_pos n
      simp only [hpos, decide_true, if_true]
      refine (ends_searchStep hshort hbracket).mono ?_
      exact fun _ c' h' => ⟨n, Nat.lt_succ_self n, h'⟩

end Search

section Neighbours

variable {frameLength : BitVec 8 → BitVec 16}

/-- All neighbours of `t` below the register have been tried, and `n` are left. -/
structure Tried (frameLength : BitVec 8 → BitVec 16) (t : BitVec 8) (x : BitVec 16) (n : Nat)
    (c : Calibration) : Prop where
  trialValue : c.trialValue = t
  osccal : c.osccal.toNat + n = t.toNat + 2
  optimum : c.optimumDev = x ∨ c.optimumDev.toNat = deviation (frameLength c.optimumValue)
  short : c.optimumDev.toNat < 32768
  least : ∀ v : BitVec 8, t.toNat ≤ v.toNat + 1 → v.toNat < c.osccal.toNat →
    c.optimumDev.toNat ≤ deviation (frameLength v)

theorem deviation_lt {length : BitVec 16} (h : length.toNat < 32768) :
    deviation length < 32768 := by
  rw [deviation, targetValue_toNat]
  omega

/-- One round of the second loop. -/
theorem tryNeighbour_ends (c : Calibration) :
    Ends (tryNeighbour frameLength) c fun _ c' =>
      ∃ d, d = difference (frameLength c.osccal) ∧
        (d.slt c.optimumDev = true ∧
            c' = { c with
              x := d, optimumDev := d, optimumValue := c.osccal, osccal := c.osccal + 1#8 } ∨
          d.slt c.optimumDev = false ∧ c' = { c with x := d, osccal := c.osccal + 1#8 }) := by
  refine ends_bind (ends_bind (ends_get (ends_pure ?_)))
  refine ends_bind (ends_modify (ends_bind (ends_modify ?_)))
  refine ends_bind (ends_modify (ends_modify ?_))
  refine ⟨difference (frameLength c.osccal), rfl, ?_⟩
  rw [← difference]
  cases hless : (difference (frameLength c.osccal)).slt c.optimumDev with
  | true => exact .inl ⟨rfl, rfl⟩
  | false => exact .inr ⟨rfl, rfl⟩

theorem ends_tryNeighbour (hshort : ∀ v, (frameLength v).toNat < 32768) {t : BitVec 8}
    (ht : t.toNat ≤ 253) {x : BitVec 16} {n : Nat} {c : Calibration}
    (h : Tried frameLength t x (n + 1) c) :
    Ends (tryNeighbour frameLength) c fun _ => Tried frameLength t x n := by
  obtain ⟨htrial, hosccal, hoptimum, hopt, hleast⟩ := h
  have hlt := deviation_lt (hshort c.osccal)
  have hnext := toNat_succ (show c.osccal.toNat < 255 by omega)
  refine (tryNeighbour_ends c).mono ?_
  rintro _ c' ⟨d, rfl, h⟩
  have hdev := toNat_difference (hshort c.osccal)
  have hslt := slt_iff (show (difference (frameLength c.osccal)).toNat < 32768 by omega) hopt
  rw [hdev] at hslt
  have hleft : (c.osccal + 1#8).toNat + n = t.toNat + 2 := by omega
  have hcases : ∀ v : BitVec 8, v.toNat < (c.osccal + 1#8).toNat →
      v.toNat < c.osccal.toNat ∨ v = c.osccal := by
    intro v hbelow
    rcases Nat.lt_or_ge v.toNat c.osccal.toNat with hv | hv
    · exact .inl hv
    · exact .inr (BitVec.eq_of_toNat_eq (by omega))
  rcases h with ⟨hless, rfl⟩ | ⟨hmore, rfl⟩
  · refine ⟨htrial, hleft, .inr hdev, hdev ▸ hlt, ?_⟩
    intro v hv hbelow
    show (difference (frameLength c.osccal)).toNat ≤ _
    rw [hdev]
    rcases hcases v hbelow with hv' | rfl
    · exact Nat.le_trans (Nat.le_of_lt (hslt.mp hless)) (hleast v hv hv')
    · exact Nat.le_refl _
  · refine ⟨htrial, hleft, hoptimum, hopt, ?_⟩
    intro v hv hbelow
    rcases hcases v hbelow with hv' | rfl
    · exact hleast v hv hv'
    · exact Nat.le_of_not_lt fun h => by simp [hslt.mpr h] at hmore

theorem ends_neighbours (hshort : ∀ v, (frameLength v).toNat < 32768) {t : BitVec 8}
    (ht : t.toNat ≤ 253) {x : BitVec 16} {c : Calibration} (h : Tried frameLength t x 3 c) :
    Ends (neighbours frameLength) c fun _ => Tried frameLength t x 0 := by
  refine ends_whileLoop (Tried frameLength t x) ?_ h
  intro n c h
  refine ends_bind (ends_get (ends_pure ?_))
  have hosccal := h.osccal
  have htrial := h.trialValue
  cases n with
  | zero =>
      have hend : ¬ c.osccal.toNat ≤ c.trialValue.toNat + 1 := by
        rw [htrial]
        omega
      simp only [hend, decide_false, Bool.false_eq_true, if_false]
      exact h
  | succ n =>
      have hmore : c.osccal.toNat ≤ c.trialValue.toNat + 1 := by
        rw [htrial]
        omega
      simp only [hmore, decide_true, if_true]
      exact (ends_tryNeighbour hshort ht h).mono fun _ c' h' => ⟨n, Nat.lt_succ_self n, h'⟩

theorem settled_searchStep : Settled (searchStep frameLength) :=
  settled_bind (settled_modify _) fun _ =>
    settled_bind (settled_bind settled_get fun _ => settled_pure _) fun _ =>
      settled_bind (settled_modify _) fun _ =>
        settled_bind (settled_modify _) fun _ => settled_modify _

theorem settled_search : Settled (search frameLength) :=
  settled_doWhile settled_searchStep (settled_bind settled_get fun _ => settled_pure _)

theorem settled_tryNeighbour : Settled (tryNeighbour frameLength) :=
  settled_bind (settled_bind settled_get fun _ => settled_pure _) fun _ =>
    settled_bind (settled_modify _) fun _ =>
      settled_bind (settled_modify _) fun _ =>
        settled_bind (settled_modify _) fun _ => settled_modify _

/-- A byte is never more than 255. -/
theorem diverges_neighbours {c : Calibration} (h : 254 ≤ c.trialValue.toNat) :
    Diverges (neighbours frameLength) c := by
  refine diverges_whileLoop (fun c => 254 ≤ c.trialValue.toNat)
    (settled_bind settled_get fun _ => settled_pure _) settled_tryNeighbour ?_ h
  intro c h
  refine ends_bind (ends_get (ends_pure ?_))
  have hle : c.osccal.toNat ≤ c.trialValue.toNat + 1 := by omega
  refine ⟨decide_eq_true hle, (tryNeighbour_ends c).mono ?_⟩
  rintro _ c' ⟨d, -, ⟨-, rfl⟩ | ⟨-, rfl⟩⟩
  · exact h
  · exact h

end Neighbours

section Calibrate

variable {frameLength : BitVec 8 → BitVec 16}

/-- Where the search ends: between the values that are too slow and the others. -/
theorem ends_search_start (hshort : ∀ v, (frameLength v).toNat < 32768) (c : Calibration) :
    Ends (search frameLength) { c with step := 128#8, trialValue := 0#8 } fun _ c' =>
      Bracket frameLength 0 c' ∧ Measured frameLength 0 c' := by
  refine ends_search hshort ⟨rfl, Nat.le_refl _, fun h => absurd rfl h, ?_⟩
  intro v hv
  have hlt := v.isLt
  change v.toNat = 256 at hv
  omega

theorem Bracket.below {c : Calibration} (h : Bracket frameLength 0 c)
    (hmono : ∀ v w, v ≤ w → frameLength v ≤ frameLength w) {v : BitVec 8}
    (hv : frameLength v < targetValue) : v ≤ c.trialValue := by
  rw [BitVec.le_def]
  apply Nat.le_of_not_lt
  intro hlt
  have hle := v.isLt
  have hsucc := toNat_succ (show c.trialValue.toNat < 255 by omega)
  have hfast := h.fast (c.trialValue + 1#8) hsucc
  have hnext : c.trialValue + 1#8 ≤ v := by
    rw [BitVec.le_def, hsucc]
    exact hlt
  have hbetween := hmono _ _ hnext
  rw [BitVec.le_def] at hbetween
  rw [BitVec.lt_def] at hv
  omega

theorem Bracket.above {c : Calibration} (h : Bracket frameLength 0 c)
    (hmono : ∀ v w, v ≤ w → frameLength v ≤ frameLength w) {v : BitVec 8} (hzero : v ≠ 0#8)
    (hv : targetValue ≤ frameLength v) : c.trialValue < v := by
  rw [BitVec.lt_def]
  apply Nat.lt_of_not_le
  intro hle
  have hne : c.trialValue ≠ 0#8 := by
    rintro heq
    rw [heq] at hle
    exact hzero (BitVec.eq_of_toNat_eq (Nat.le_zero.mp hle))
  have hslow := h.slow hne
  have hbetween := hmono v c.trialValue hle
  rw [BitVec.le_def] at hbetween hv
  omega

/-- One of the two neighbours between which the search ends is the best value of all. -/
theorem Bracket.best {c : Calibration} (h : Bracket frameLength 0 c)
    (hmono : ∀ v w, v ≤ w → frameLength v ≤ frameLength w) (hzero : c.trialValue ≠ 0#8)
    {d : Nat} (hd : ∀ v : BitVec 8, c.trialValue.toNat ≤ v.toNat + 1 →
      v.toNat < c.trialValue.toNat + 2 → d ≤ deviation (frameLength v)) (v : BitVec 8) :
    d ≤ deviation (frameLength v) := by
  have hslow := h.slow hzero
  rcases Nat.lt_or_ge c.trialValue.toNat v.toNat with hlt | hle
  · have hv := v.isLt
    have hsucc := toNat_succ (show c.trialValue.toNat < 255 by omega)
    have hfast := h.fast (c.trialValue + 1#8) hsucc
    have hbetween := hmono (c.trialValue + 1#8) v (by rw [BitVec.le_def, hsucc]; exact hlt)
    rw [BitVec.le_def] at hbetween
    refine Nat.le_trans (hd (c.trialValue + 1#8) (by omega) (by omega)) ?_
    rw [deviation, deviation]
    omega
  · have hbetween := hmono v c.trialValue hle
    rw [BitVec.le_def] at hbetween
    refine Nat.le_trans (hd c.trialValue (by omega) (by omega)) ?_
    rw [deviation, deviation]
    omega

/-- The variables with which the second loop begins. -/
def atNeighbours (c : Calibration) : Calibration :=
  { c with optimumValue := c.trialValue, optimumDev := c.x, osccal := c.trialValue - 1#8 }

/-- The byte before 0 is 255: no neighbour is tried. -/
theorem ends_neighbours_zero {c : Calibration} (hzero : c.trialValue = 0#8) :
    Ends (neighbours frameLength) (atNeighbours c) fun _ c' => c'.optimumValue = 0#8 := by
  apply ends_whileLoop_of_false
  refine ends_bind (ends_get (ends_pure ⟨?_, hzero⟩))
  rw [atNeighbours, hzero]
  rfl

theorem ends_neighbours_best (h : Regular frameLength) {c : Calibration}
    (hbracket : Bracket frameLength 0 c) (hmeasured : Measured frameLength 0 c)
    (hge : 1 ≤ c.trialValue.toNat) (hle : c.trialValue.toNat < 254) :
    Ends (neighbours frameLength) (atNeighbours c) fun _ c' =>
      ∀ v, deviation (frameLength c'.optimumValue) ≤ deviation (frameLength v) := by
  obtain ⟨hmono, hhalf, hshort⟩ := h
  obtain ⟨v₀, hx, -⟩ := hmeasured
  have hnonzero : c.trialValue ≠ 0#8 := by
    intro heq
    rw [heq] at hge
    exact absurd hge (by decide)
  have hprev : (c.trialValue - 1#8).toNat = c.trialValue.toNat - 1 := BitVec.toNat_sub_of_le hge
  have hstart : Tried frameLength c.trialValue c.x 3 (atNeighbours c) := by
    refine ⟨rfl, ?_, .inl rfl, ?_, ?_⟩
    · show (c.trialValue - 1#8).toNat + 3 = _
      omega
    · show c.x.toNat < 32768
      rw [hx]
      exact hshort v₀
    · intro v hv hbelow
      change v.toNat < (c.trialValue - 1#8).toNat at hbelow
      omega
  refine (ends_neighbours hshort (by omega) hstart).mono ?_
  rintro _ c' ⟨-, hosccal, hoptimum, -, hleast⟩
  have hall := hbracket.best hmono hnonzero fun v hv hv' => hleast v hv (by omega)
  rcases hoptimum with heq | heq
  · -- The first value of `optimumDev` is no deviation: it is beaten.
    have hbeaten := hall v₀
    have htarget := targetValue_toNat
    have hhalf₀ := hhalf v₀
    rw [heq, hx, deviation] at hbeaten
    omega
  · rw [heq] at hall
    exact hall

/-- An oscillator that is too slow even at 254 is calibrated for ever. From any other the
value comes that is best of all, unless 0 would do nearly as well as 1. -/
theorem calibrateOscillator_best (h : Regular frameLength) (c : Calibration) :
    (frameLength 254#8 < targetValue → Diverges (calibrateOscillator frameLength) c) ∧
      (targetValue ≤ frameLength 254#8 → Ends (calibrateOscillator frameLength) c fun _ c' =>
        if targetValue ≤ frameLength 1#8 then c'.osccal = 0#8
        else ∀ v, deviation (frameLength c'.osccal) ≤ deviation (frameLength v)) := by
  have hmono := h.mono
  constructor
  · intro htoo
    refine diverges_bind (settled_modify _) (ends_modify ?_)
    refine diverges_bind settled_search ((ends_search_start h.short c).mono ?_)
    rintro _ c₁ ⟨hbracket, -⟩
    refine diverges_bind (settled_modify _) (ends_modify ?_)
    refine diverges_bind (settled_modify _) (ends_modify ?_)
    refine diverges_bind_left (diverges_neighbours ?_)
    exact hbracket.below hmono htoo
  · intro hfine
    refine ends_bind (ends_modify (ends_bind ((ends_search_start h.short c).mono ?_)))
    rintro _ c₁ ⟨hbracket, hmeasured⟩
    refine ends_bind (ends_modify (ends_bind (ends_modify (ends_bind ?_))))
    split
    · rename_i hone
      have hlt : c₁.trialValue.toNat < 1 := hbracket.above hmono (by decide) hone
      have hzero : c₁.trialValue = 0#8 := BitVec.eq_of_toNat_eq (Nat.lt_one_iff.mp hlt)
      exact (ends_neighbours_zero hzero).mono fun _ _ hoptimum => ends_modify hoptimum
    · rename_i hone
      have hge : 1 ≤ c₁.trialValue.toNat := hbracket.below hmono (BitVec.not_le.mp hone)
      have hle : c₁.trialValue.toNat < 254 := hbracket.above hmono (by decide) hfine
      refine (ends_neighbours_best h hbracket hmeasured hge hle).mono ?_
      exact fun _ _ hbest => ends_modify hbest

/-- Ten units more with each step, and 1200 at the slowest. -/
def linear (v : BitVec 8) : BitVec 16 := BitVec.ofNat 16 (1200 + 10 * v.toNat)

theorem linear_toNat (v : BitVec 8) : (linear v).toNat = 1200 + 10 * v.toNat := by
  have hv := v.isLt
  rw [linear, BitVec.toNat_ofNat, Nat.mod_eq_of_lt (by omega)]

theorem linear_regular : Regular linear := by
  constructor
  · intro v w hvw
    rw [BitVec.le_def] at hvw ⊢
    rw [linear_toNat, linear_toNat]
    omega
  · intro v
    rw [linear_toNat, targetValue_toNat]
    omega
  · intro v
    have hv := v.isLt
    rw [linear_toNat]
    omega

theorem calibrateOscillator_best_linear :
    let c : Calibration := ⟨0x80#8, 0#8, 0#8, 0#8, 0#16, 0#16⟩
    (linear 254#8 < targetValue → Diverges (calibrateOscillator linear) c) ∧
      (targetValue ≤ linear 254#8 → Ends (calibrateOscillator linear) c fun _ c' =>
        if targetValue ≤ linear 1#8 then c'.osccal = 0#8
        else ∀ v, deviation (linear c'.osccal) ≤ deviation (linear v)) :=
  calibrateOscillator_best linear_regular _

end Calibrate

end NesMiniAdapter.Oscillator
