import NesMiniAdapter.ByteBits

/-!
Bytes on a serial line in 8N1 format, one sample for each bit time, and a
receiver for them.
-/

namespace NesMiniAdapter.UartLine

open NesMiniAdapter.ByteBits

/-- A byte as a start bit, eight bits from the least significant one on, and a
stop bit. -/
def frame (byte : BitVec 8) : List Bool := false :: ((bitsOf byte).reverse ++ [true])

/-- The byte whose bits, from the least significant one on, are `bits`. -/
def byteOf (bits : List Bool) : BitVec 8 := bits.reverse.foldl shiftIn 0#8

theorem byteOf_bits (byte : BitVec 8) : byteOf (bitsOf byte).reverse = byte := by
  rw [byteOf, List.reverse_reverse, shiftIn_bitsOf]

theorem eq_bits_of_byteOf {bits : List Bool} (h : bits.length = 8) {byte : BitVec 8}
    (heq : byteOf bits = byte) : (bitsOf byte).reverse = bits := by
  rw [← heq, byteOf, bitsOf_shiftIn (by simpa using h), List.reverse_reverse]

/-- What a receiver delivers. -/
inductive Delivery where
  | byte (value : BitVec 8)
  | framingError
  deriving DecidableEq, Repr

/-- The receiver waits for a 1 and then for a start bit, takes the data bits it
has listed, and looks for the stop bit. -/
inductive Receiver where
  | waitHigh
  | waitStart
  | data (bits : List Bool)
  | waitStop (bits : List Bool)
  deriving DecidableEq, Repr

namespace Receiver

def next : Receiver → Bool → Receiver
  | .waitHigh, v => if v then .waitStart else .waitHigh
  | .waitStart, v => if v then .waitStart else .data []
  | .data bits, v => if bits.length < 7 then .data (bits ++ [v]) else .waitStop (bits ++ [v])
  | .waitStop _, v => if v then .waitStart else .waitHigh

def output : Receiver → Bool → List Delivery
  | .waitStop bits, v => [if v then .byte (byteOf bits) else .framingError]
  | _, _ => []

/-- What the receiver delivers over a list of samples. -/
def receive : Receiver → List Bool → List Delivery
  | _, [] => []
  | r, v :: vs => r.output v ++ receive (r.next v) vs

theorem receive_idle (n : Nat) (vs : List Bool) :
    receive .waitStart (List.replicate n true ++ vs) = receive .waitStart vs := by
  induction n with
  | zero => rfl
  | succ n ih => exact ih

theorem receive_data {bits : List Bool} (h : bits.length = 8) (stop : Bool) (vs : List Bool) :
    receive (.data []) (bits ++ stop :: vs) =
      (if stop then .byte (byteOf bits) else .framingError) ::
        receive (if stop then .waitStart else .waitHigh) vs := by
  match bits, h with
  | [b0, b1, b2, b3, b4, b5, b6, b7], _ => rfl

theorem receive_start (vs : List Bool) :
    receive .waitStart (false :: vs) = receive (.data []) vs := rfl

theorem receive_frame (byte : BitVec 8) (vs : List Bool) :
    receive .waitStart (frame byte ++ vs) = .byte byte :: receive .waitStart vs := by
  have hframe : frame byte ++ vs = false :: ((bitsOf byte).reverse ++ true :: vs) := by
    simp [frame]
  rw [hframe, receive_start, receive_data (by simp), byteOf_bits]
  rfl

/-- A line held low for ten bit times or more is a framing error. -/
theorem receive_break {n : Nat} (h : 10 ≤ n) (vs : List Bool) :
    (receive .waitStart (List.replicate n false ++ vs)).head? = some .framingError := by
  obtain ⟨k, rfl⟩ := Nat.exists_eq_add_of_le' h
  rfl

theorem receive_low {n : Nat} (h : n < 10) :
    receive .waitStart (List.replicate n false) = [] := by
  have hall : ∀ n : Fin 10, receive .waitStart (List.replicate n.val false) = [] := by
    decide
  exact hall ⟨n, h⟩

/-- A list that repeats itself after `n` zeros is zero throughout. -/
theorem getElem?_of_shifted {l : List Bool} {n k : Nat} (hn : 0 < n)
    (h : l = List.replicate n false ++ l.take k) (i : Nat) : l[i]? ≠ some true := by
  induction i using Nat.strongRecOn with
  | _ i ih =>
      have hget : l[i]? = (List.replicate n false ++ l.take k)[i]? := congrArg (·[i]?) h
      rw [hget, List.getElem?_append, List.length_replicate]
      split
      · rename_i hlow
        simp [hlow]
      · rename_i hlow
        rw [List.getElem?_take]
        split
        · exact ih (i - n) (by omega)
        · simp

/-- A frame on a line that was low before it is not received as its byte: the
eight data bits would be the byte moved up, and its top bits the stop bit. -/
theorem receive_late {n : Nat} (h : 0 < n) (byte : BitVec 8) (vs : List Bool) :
    (receive .waitStart (List.replicate n false ++ (frame byte ++ vs))).head? ≠
      some (.byte byte) := by
  have hlate : List.replicate n false ++ (frame byte ++ vs) =
      false :: (List.replicate n false ++ ((bitsOf byte).reverse ++ true :: vs)) := by
    have hswap : List.replicate n false ++ [false] = false :: List.replicate n false := by
      rw [← List.replicate_succ', List.replicate_succ]
    rw [frame, List.cons_append, ← List.singleton_append, ← List.append_assoc, hswap]
    simp
  rw [hlate, receive_start]
  rcases Nat.lt_or_ge n 9 with hlt | hge
  · have hlength : (bitsOf byte).reverse.length = 8 := rfl
    have hstop : 8 - n < (bitsOf byte).reverse.length := by omega
    have hsplit : List.replicate n false ++ ((bitsOf byte).reverse ++ true :: vs) =
        (List.replicate n false ++ (bitsOf byte).reverse.take (8 - n)) ++
          (bitsOf byte).reverse[8 - n] ::
            ((bitsOf byte).reverse.drop (8 - n + 1) ++ true :: vs) := by
      rw [List.append_assoc, ← List.cons_append, ← List.drop_eq_getElem_cons hstop,
        ← List.append_assoc (List.take _ _), List.take_append_drop]
    have hdata :
        (List.replicate n false ++ (bitsOf byte).reverse.take (8 - n)).length = 8 := by
      rw [List.length_append, List.length_replicate, List.length_take]
      omega
    rw [hsplit, receive_data hdata]
    intro heq
    cases hbit : (bitsOf byte).reverse[8 - n] with
    | false =>
        rw [hbit] at heq
        simp at heq
    | true =>
        rw [hbit] at heq
        simp only [if_true, List.head?_cons, Option.some.injEq, Delivery.byte.injEq] at heq
        have hbits := eq_bits_of_byteOf hdata heq
        apply getElem?_of_shifted h hbits (8 - n)
        rw [List.getElem?_eq_getElem hstop, hbit]
  · obtain ⟨k, rfl⟩ := Nat.exists_eq_add_of_le' hge
    have hbreak : (receive (.data []) (List.replicate (k + 9) false ++
        ((bitsOf byte).reverse ++ true :: vs))).head? = some .framingError := rfl
    rw [hbreak]
    simp

end Receiver

end NesMiniAdapter.UartLine
