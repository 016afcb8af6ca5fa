import Mathlib.Data.List.Basic

/-!
Bit stuffing and the coding of bits as level changes, on lists of bits. A run of
`limit` ones is followed by a zero, so that the line changes often enough for a
receiver to follow it.
-/

namespace NesMiniAdapter.LineCode

/-- The bits on the line, when the last `ones` of them were ones. -/
def stuff (limit : Nat) : Nat → List Bool → List Bool
  | _, [] => []
  | _, false :: bits => false :: stuff limit 0 bits
  | ones, true :: bits =>
      if ones + 1 = limit then true :: false :: stuff limit 0 bits
      else true :: stuff limit (ones + 1) bits

/-- The bits without the zeros of `stuff`, if they are where they have to be. -/
def unstuff (limit : Nat) : Nat → List Bool → Option (List Bool)
  | ones, [] => if ones = limit then none else some []
  | ones, bit :: line =>
      if ones = limit then if bit then none else unstuff limit 0 line
      else (unstuff limit (if bit then ones + 1 else 0) line).map (bit :: ·)

/-- What one more bit puts on the line. -/
def stuffBit (limit ones : Nat) (bit : Bool) : List Bool :=
  if bit && ones + 1 == limit then [true, false] else [bit]

def runBit (limit ones : Nat) (bit : Bool) : Nat :=
  if bit && ones + 1 != limit then ones + 1 else 0

/-- The run of ones at the end of the line, after `bits` and their zeros. -/
def run (limit : Nat) (ones : Nat) (bits : List Bool) : Nat := bits.foldl (runBit limit) ones

/-- Zeros change the level and ones keep it. -/
def levelAfter (level : Bool) (line : List Bool) : Bool := line.foldl (· == ·) level

def nrzi (level : Bool) : List Bool → List Bool
  | [] => []
  | bit :: line => (level == bit) :: nrzi (level == bit) line

def unNrzi (level : Bool) : List Bool → List Bool
  | [] => []
  | level' :: levels => (level == level') :: unNrzi level' levels

section Stuff

variable {limit ones : Nat}

@[simp] theorem stuffBit_false : stuffBit limit ones false = [false] := rfl

@[simp] theorem runBit_false : runBit limit ones false = 0 := rfl

theorem stuffBit_limit (h : ones + 1 = limit) : stuffBit limit ones true = [true, false] := by
  simp [stuffBit, h]

theorem runBit_limit (h : ones + 1 = limit) : runBit limit ones true = 0 := by
  simp [runBit, h]

theorem stuffBit_of_ne (h : ones + 1 ≠ limit) : stuffBit limit ones true = [true] := by
  simp [stuffBit, h]

theorem runBit_of_ne (h : ones + 1 ≠ limit) : runBit limit ones true = ones + 1 := by
  simp [runBit, h]

theorem run_append (bits bits' : List Bool) :
    run limit ones (bits ++ bits') = run limit (run limit ones bits) bits' :=
  List.foldl_append

theorem stuff_append (bits bits' : List Bool) :
    stuff limit ones (bits ++ bits') =
      stuff limit ones bits ++ stuff limit (run limit ones bits) bits' := by
  induction bits generalizing ones with
  | nil => rfl
  | cons bit bits ih =>
      cases bit with
      | false => exact congrArg (false :: ·) ih
      | true =>
          by_cases h : ones + 1 = limit
          · simp [stuff, run, runBit, h, ih]
          · simp [stuff, run, runBit, h, ih]

theorem stuff_snoc (bits : List Bool) (bit : Bool) :
    stuff limit ones (bits ++ [bit]) =
      stuff limit ones bits ++ stuffBit limit (run limit ones bits) bit := by
  rw [stuff_append]
  cases bit
  · rfl
  · by_cases h : run limit ones bits + 1 = limit
    · rw [stuffBit_limit h, stuff, if_pos h, stuff]
    · rw [stuffBit_of_ne h, stuff, if_neg h, stuff]

theorem run_snoc (bits : List Bool) (bit : Bool) :
    run limit ones (bits ++ [bit]) = runBit limit (run limit ones bits) bit := by
  rw [run_append]
  rfl

theorem unstuff_stuff (h : ones < limit) (bits : List Bool) :
    unstuff limit ones (stuff limit ones bits) = some bits := by
  induction bits generalizing ones with
  | nil => simp [stuff, unstuff, Nat.ne_of_lt h]
  | cons bit bits ih =>
      have hne : ones ≠ limit := Nat.ne_of_lt h
      cases bit with
      | false => simp [stuff, unstuff, hne, ih (Nat.zero_lt_of_lt h)]
      | true =>
          by_cases heq : ones + 1 = limit
          · simp [stuff, unstuff, hne, heq, ih (Nat.zero_lt_of_lt h)]
          · simp [stuff, unstuff, hne, heq, ih (show ones + 1 < limit by omega)]

end Stuff

section Nrzi

variable {level : Bool}

theorem length_nrzi (line : List Bool) : (nrzi level line).length = line.length := by
  induction line generalizing level with
  | nil => rfl
  | cons bit line ih => exact congrArg (· + 1) ih

theorem levelAfter_append (line line' : List Bool) :
    levelAfter level (line ++ line') = levelAfter (levelAfter level line) line' :=
  List.foldl_append

theorem nrzi_append (line line' : List Bool) :
    nrzi level (line ++ line') = nrzi level line ++ nrzi (levelAfter level line) line' := by
  induction line generalizing level with
  | nil => rfl
  | cons bit line ih => exact congrArg ((level == bit) :: ·) ih

theorem unNrzi_nrzi (line : List Bool) : unNrzi level (nrzi level line) = line := by
  induction line generalizing level with
  | nil => rfl
  | cons bit line ih =>
      rw [nrzi, unNrzi, ih]
      cases level <;> cases bit <;> rfl

end Nrzi

end NesMiniAdapter.LineCode
