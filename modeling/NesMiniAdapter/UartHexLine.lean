import NesMiniAdapter.UartTransmission

/-!
The line of hexadecimal digits that `uart_raw_send_hex_line` sends, and how it
is read.
-/

namespace NesMiniAdapter.UartHexLine

open NesMiniAdapter.FuelledProgram
open NesMiniAdapter.UartLine
open NesMiniAdapter.UartLine.Receiver
open NesMiniAdapter.UartRaw
open NesMiniAdapter.UartTransmission

/-- A digit from 0 to 9. -/
def IsDecimal (c : BitVec 8) : Prop := 0x30#8 ≤ c ∧ c ≤ 0x39#8

/-- A letter from a to f. -/
def IsLetter (c : BitVec 8) : Prop := 0x61#8 ≤ c ∧ c ≤ 0x66#8

instance (c : BitVec 8) : Decidable (IsDecimal c) := inferInstanceAs (Decidable (_ ∧ _))

instance (c : BitVec 8) : Decidable (IsLetter c) := inferInstanceAs (Decidable (_ ∧ _))

def IsDigit (c : BitVec 8) : Prop := IsDecimal c ∨ IsLetter c

instance (c : BitVec 8) : Decidable (IsDigit c) := inferInstanceAs (Decidable (_ ∨ _))

def digitValue (c : BitVec 8) : Option (BitVec 4) :=
  if IsDecimal c then some ((c - 0x30#8).setWidth 4)
  else if IsLetter c then some ((c - 0x61#8 + 10#8).setWidth 4)
  else none

/-- The bytes that pairs of digits stand for, the high digit first. -/
def parseHex : List (BitVec 8) → Option (List (BitVec 8))
  | [] => some []
  | [_] => none
  | high :: low :: rest => do
      let h ← digitValue high
      let l ← digitValue low
      let bytes ← parseHex rest
      return (h ++ l) :: bytes

/-- Only the low four bits of its argument matter to `hex_ascii`. -/
theorem hexAscii_eq (c : BitVec 8) : hexAscii c = hexAscii ((c.setWidth 4).setWidth 8) := by
  have hmask : c &&& 0x0F#8 = (c.setWidth 4).setWidth 8 &&& 0x0F#8 := by
    rw [show 0x0F#8 = (BitVec.allOnes 4).setWidth 8 by rfl]
    apply BitVec.eq_of_getLsbD_eq
    intro i hi
    simp only [BitVec.getLsbD_and, BitVec.getLsbD_setWidth, BitVec.getLsbD_allOnes]
    by_cases hlow : i < 4
    · simp [hlow, hi]
    · simp [hlow]
  unfold hexAscii
  rw [hmask]

theorem hexAscii_digit (c : BitVec 8) :
    IsDigit (hexAscii c) ∧ digitValue (hexAscii c) = some (c.setWidth 4) := by
  have hall : ∀ n : BitVec 4, IsDigit (hexAscii (n.setWidth 8)) ∧
      digitValue (hexAscii (n.setWidth 8)) = some n := by
    decide
  rw [hexAscii_eq]
  exact hall (c.setWidth 4)

/-- The shift fills up with the sign, but the low four bits are the high digit. -/
theorem shiftedChar_getLsbD (c : BitVec 8) {i : Nat} (hi : i < 4) :
    (shiftedChar c).getLsbD i = c.getLsbD (4 + i) := by
  simp only [shiftedChar, BitVec.getLsbD_setWidth, BitVec.getLsbD_sshiftRight,
    BitVec.getLsbD_signExtend]
  simp [show i < 8 by omega, show ¬ 16 ≤ i by omega, show 4 + i < 16 by omega,
    show 4 + i < 8 by omega]

theorem nibbles_append (c : BitVec 8) : (shiftedChar c).setWidth 4 ++ c.setWidth 4 = c := by
  apply BitVec.eq_of_getLsbD_eq
  intro i hi
  rw [BitVec.getLsbD_append]
  by_cases hlow : i < 4
  · simp [hlow]
  · have hhigh : i - 4 < 4 := by omega
    rw [if_neg hlow, BitVec.getLsbD_setWidth, shiftedChar_getLsbD c hhigh,
      Nat.add_sub_of_le (Nat.le_of_not_lt hlow)]
    simp [hhigh]

/-- The digits of a string. -/
def hexDigits (string : List (BitVec 8)) : List (BitVec 8) :=
  string.flatMap fun c => [hexAscii (shiftedChar c), hexAscii c]

theorem length_hexDigits (string : List (BitVec 8)) :
    (hexDigits string).length = 2 * string.length := by
  induction string with
  | nil => rfl
  | cons c string ih =>
      simp only [hexDigits, List.flatMap_cons, List.length_append, List.length_cons] at ih ⊢
      rw [ih]
      simp
      omega

theorem isDigit_hexDigits (string : List (BitVec 8)) : ∀ c ∈ hexDigits string, IsDigit c := by
  intro c hc
  obtain ⟨c', -, hmem⟩ := List.mem_flatMap.mp hc
  simp only [List.mem_cons, List.not_mem_nil, or_false] at hmem
  rcases hmem with rfl | rfl
  · exact (hexAscii_digit _).1
  · exact (hexAscii_digit _).1

theorem parseHex_hexDigits (string : List (BitVec 8)) :
    parseHex (hexDigits string) = some string := by
  induction string with
  | nil => rfl
  | cons c string ih =>
      change parseHex (hexAscii (shiftedChar c) :: hexAscii c :: hexDigits string) = _
      rw [parseHex, (hexAscii_digit (shiftedChar c)).2, (hexAscii_digit c).2, ih]
      change some (_ :: string) = _
      rw [nibbles_append]

theorem hexDigits_take_succ {string : List (BitVec 8)} {i : Nat} (hi : i < string.length) :
    hexDigits (string.take (i + 1)) =
      hexDigits (string.take i) ++ [hexAscii (shiftedChar string[i]), hexAscii string[i]] := by
  rw [List.take_succ_eq_append_getElem hi, hexDigits, List.flatMap_append]
  rfl

/-- The line is at 1, and the frames of `bytes` have been sent since `u`. -/
def HasSent (u : Uart) (bytes : List (BitVec 8)) (u' : Uart) : Prop :=
  Driven true u' ∧ u'.samples = u.samples ++ bytes.flatMap frame

theorem HasSent.send {u u' : Uart} {bytes : List (BitVec 8)} (h : HasSent u bytes u')
    (byte : BitVec 8) : HasSent u (bytes ++ [byte]) (uartRawSendByte byte u') := by
  obtain ⟨hdriven, hsamples⟩ := h.1.sendByte byte
  refine ⟨hdriven, ?_⟩
  rw [hsamples, h.2]
  simp

theorem charAt_ends {string : List (BitVec 8)} {i : BitVec 8} (hi : i.toNat < string.length)
    {u : Uart} {Q : BitVec 8 → Uart → Prop} (hQ : Q string[i.toNat] u) :
    Ends (charAt string i) u Q :=
  ⟨string[i.toNat], u, hQ, 0, fun _ _ => by
    change (string[i.toNat]?).map (fun c => (c, u)) = _
    rw [List.getElem?_eq_getElem hi, Option.map_some]⟩

theorem uartRawSendHexLine_ends (string : ShortString) {u : Uart} (h : Driven true u) :
    Ends (uartRawSendHexLine string.1 (BitVec.ofNat 8 string.1.length)) u fun _ u' =>
      HasSent u (hexDigits string.1 ++ lineEnd) u' := by
  have hlength : (BitVec.ofNat 8 string.1.length).toNat = string.1.length :=
    (BitVec.toNat_ofNat ..).trans (Nat.mod_eq_of_lt string.2)
  refine ends_bind ((ends_forBelow
    (fun n u' => HasSent u (hexDigits (string.1.take n)) u') ?_ ?_).mono ?_)
  · intro i u₁ hi hsent
    rw [BitVec.lt_def, hlength] at hi
    refine ends_bind (charAt_ends hi ?_)
    refine ends_bind (ends_modify (ends_modify ?_))
    have hbyte := (hsent.send (hexAscii (shiftedChar string.1[i.toNat]))).send
      (hexAscii string.1[i.toNat])
    rw [List.append_assoc] at hbyte
    rw [hexDigits_take_succ hi]
    exact hbyte
  · exact ⟨h, by simp [hexDigits]⟩
  · intro _ u₁ hsent
    rw [hlength, List.take_length] at hsent
    refine ends_bind (ends_modify (ends_modify ?_))
    have hend := (hsent.send 0x0A#8).send 0x0D#8
    rw [List.append_assoc] at hend
    exact hend

/-- What is received reads back as the string, whatever its bytes. -/
theorem hexLine_readsBack (string : ShortString) {u : Uart} (h : Driven true u) :
    Ends (uartRawSendHexLine string.1 (BitVec.ofNat 8 string.1.length)) u fun _ u' =>
      ∃ line digits, u'.samples = u.samples ++ line ∧
        receive .waitStart line = (digits ++ lineEnd).map .byte ∧
        digits.length = 2 * string.1.length ∧ (∀ c ∈ digits, IsDigit c) ∧
        parseHex digits = some string.1 ∧ u'.level = true := by
  refine (uartRawSendHexLine_ends string h).mono ?_
  rintro _ u' ⟨hdriven, hsamples⟩
  refine ⟨_, hexDigits string.1, hsamples, ?_, length_hexDigits _, isDigit_hexDigits _,
    parseHex_hexDigits _, hdriven.level⟩
  have hreceive := receive_frames (hexDigits string.1 ++ lineEnd) []
  rw [List.append_nil] at hreceive
  rw [hreceive]
  simp [receive]

theorem hexLine_readsBack_four :
    Ends (uartRawSendHexLine [0xA5#8, 0x00#8, 0x0D#8, 0xFF#8] 4#8) ⟨0x10#8, 0x10#8, []⟩ fun _ u' =>
      ∃ line digits, u'.samples = line ∧
        receive .waitStart line = (digits ++ lineEnd).map .byte ∧
        digits.length = 8 ∧ (∀ c ∈ digits, IsDigit c) ∧
        parseHex digits = some [0xA5#8, 0x00#8, 0x0D#8, 0xFF#8] ∧ u'.level = true :=
  hexLine_readsBack ⟨[0xA5#8, 0x00#8, 0x0D#8, 0xFF#8], by decide⟩ ⟨rfl, rfl⟩

end NesMiniAdapter.UartHexLine
