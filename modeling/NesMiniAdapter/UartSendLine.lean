import NesMiniAdapter.UartTransmission

/-!
`uart_raw_send_line`: what it sends, and what it reads and writes in the block
it allocates.
-/

namespace NesMiniAdapter.UartSendLine

open NesMiniAdapter.ByteBits
open NesMiniAdapter.UartLine
open NesMiniAdapter.UartLine.Receiver
open NesMiniAdapter.UartRaw
open NesMiniAdapter.UartTransmission

theorem firstNul_append {w : List (BitVec 8)} (h : 0#8 ∉ w) (rest : List (BitVec 8)) :
    firstNul (w ++ 0#8 :: rest) = some w.length := by
  induction w with
  | nil => rfl
  | cons c w ih =>
      rw [List.mem_cons, not_or] at h
      rw [List.cons_append, firstNul, if_neg (Ne.symm h.1), ih h.2]
      rfl

theorem firstNul_spec {w : List (BitVec 8)} {p : Nat} (h : firstNul w = some p) :
    p < w.length ∧ 0#8 ∉ w.take p := by
  induction w generalizing p with
  | nil => simp [firstNul] at h
  | cons c w ih =>
      rw [firstNul] at h
      split at h
      · obtain rfl := Option.some.inj h
        simp
      · rename_i hc
        rw [Option.map_eq_some_iff] at h
        obtain ⟨q, hq, rfl⟩ := h
        obtain ⟨hlt, hnot⟩ := ih hq
        refine ⟨by simpa using hlt, ?_⟩
        rw [List.take_succ_cons, List.mem_cons, not_or]
        exact ⟨Ne.symm hc, hnot⟩

section Strcat

variable {dest : List (BitVec 8)} {p : Nat}

theorem strcat_fits (h : firstNul dest = some p) (src : List (BitVec 8))
    (hfit : p + src.length + 1 ≤ dest.length) :
    ∃ rest, strcat dest src = some (dest.take p ++ src ++ 0#8 :: rest) ∧
      (dest.take p ++ src ++ 0#8 :: rest).length = dest.length := by
  refine ⟨dest.drop (p + src.length + 1), ?_, ?_⟩
  · simp only [strcat, h, Option.bind_eq_bind, Option.bind_some, if_pos hfit, List.append_assoc,
      List.cons_append, List.nil_append]
  · simp
    omega

theorem strcat_overflows (h : firstNul dest = some p) {src : List (BitVec 8)}
    (hfit : dest.length < p + src.length + 1) :
    strcat dest src = none := by
  simp only [strcat, h, Option.bind_eq_bind, Option.bind_some, if_neg (Nat.not_le.mpr hfit)]

end Strcat

section TwoStrcats

variable {block string : List (BitVec 8)} {p : Nat}

/-- The two calls of `strcat` leave the line after what stands before the first
NUL of the block. -/
theorem strcat_line_fits (hstring : 0#8 ∉ string) (h : firstNul block = some p)
    (hfit : p + string.length + 3 ≤ block.length) :
    ∃ rest, (strcat block string).bind (strcat · lineEnd) =
      some (block.take p ++ (string ++ lineEnd) ++ 0#8 :: rest) := by
  obtain ⟨hp, hhead⟩ := firstNul_spec h
  obtain ⟨rest, hfirst, hlength⟩ := strcat_fits h string (by omega)
  have hmiddle : 0#8 ∉ block.take p ++ string := by
    rw [List.mem_append, not_or]
    exact ⟨hhead, hstring⟩
  have hnul := firstNul_append hmiddle rest
  have hat : (block.take p ++ string).length = p + string.length := by
    simp
    omega
  have hend : lineEnd.length = 2 := rfl
  obtain ⟨rest', hsecond, -⟩ := strcat_fits hnul lineEnd (by omega)
  refine ⟨rest', ?_⟩
  rw [hfirst, Option.bind_some, hsecond, List.take_left, List.append_assoc (block.take p)]

theorem strcat_line_overflows (hstring : 0#8 ∉ string) (h : firstNul block = some p)
    (hfit : block.length < p + string.length + 3) :
    (strcat block string).bind (strcat · lineEnd) = none := by
  obtain ⟨hp, hhead⟩ := firstNul_spec h
  rcases Nat.lt_or_ge block.length (p + string.length + 1) with hover | hfirst
  · rw [strcat_overflows h hover]
    rfl
  · obtain ⟨rest, hrun, hlength⟩ := strcat_fits h string hfirst
    have hmiddle : 0#8 ∉ block.take p ++ string := by
      rw [List.mem_append, not_or]
      exact ⟨hhead, hstring⟩
    have hat : (block.take p ++ string).length = p + string.length := by
      simp
      omega
    have hend : lineEnd.length = 2 := rfl
    rw [hrun, Option.bind_some, strcat_overflows (firstNul_append hmiddle rest) (by omega)]

end TwoStrcats

/-- A string with its NUL left out, of a length whose sum with 2 fits a byte. -/
abbrev LineString :=
  { string : List (BitVec 8) // 0#8 ∉ string ∧ string.length ≤ 253 }

def LineString.length (string : LineString) : BitVec 8 := BitVec.ofNat 8 string.1.length

def LineString.line (string : LineString) : List (BitVec 8) := string.1 ++ lineEnd

theorem lengthTwo_toNat (string : LineString) :
    (lengthTwo string.length).toNat = string.1.length + 2 := by
  have hshort := string.2.2
  rw [lengthTwo, LineString.length, BitVec.toNat_add, BitVec.toNat_ofNat]
  simp
  omega

theorem signExtend_toNat (v : BitVec 8) :
    (v.signExtend 16).toNat = if v.toNat < 128 then v.toNat else v.toNat + 65280 := by
  revert v
  decide

/-- From 126 characters on, `length_2` is negative and its block is huge. -/
theorem mallocSize_toNat (string : LineString) :
    (mallocSize string.length).toNat =
      if string.1.length < 126 then string.1.length + 2 else string.1.length + 65282 := by
  rw [mallocSize, signExtend_toNat, lengthTwo_toNat]
  split <;> split <;> omega

/-- The block `malloc` returns for a line, at first. -/
def lineBlock (malloc : (size : BitVec 16) → Vector (BitVec 8) size.toNat)
    (string : LineString) : List (BitVec 8) := (malloc (mallocSize string.length)).toList

/-- `uart_raw_send_line` stays within its block and sends the line. -/
def SendsLine (malloc : (size : BitVec 16) → Vector (BitVec 8) size.toNat)
    (string : LineString) (u : Uart) : Prop :=
  ∃ u', uartRawSendLine malloc string.1 string.length u = some u' ∧
    u'.samples = u.samples ++ string.line.flatMap frame

theorem flatMap_frame_injective {bytes bytes' : List (BitVec 8)}
    (h : bytes.flatMap frame = bytes'.flatMap frame) : bytes = bytes' := by
  have hreceive := receive_frames bytes []
  rw [h, receive_frames] at hreceive
  simp only [List.append_cancel_right_eq] at hreceive
  exact ((List.map_inj_right fun _ _ heq => Delivery.byte.inj heq).mp hreceive).symm

theorem length_lineBlock (malloc : (size : BitVec 16) → Vector (BitVec 8) size.toNat)
    (string : LineString) :
    (lineBlock malloc string).length =
      if string.1.length < 126 then string.1.length + 2 else string.1.length + 65282 := by
  rw [lineBlock, Vector.length_toList, mallocSize_toNat]

theorem uartRawSendLine_eq (malloc : (size : BitVec 16) → Vector (BitVec 8) size.toNat)
    (string : LineString) (u : Uart) :
    uartRawSendLine malloc string.1 string.length u =
      ((strcat (lineBlock malloc string) string.1).bind (strcat · lineEnd)).bind fun block =>
        uartRawSendString block (lengthTwo string.length) u := by
  simp [uartRawSendLine, lineBlock, Option.bind_assoc]

/-- When both calls of `strcat` fit, the first `length + 2` bytes of the block
are sent. -/
theorem uartRawSendLine_fits {malloc : (size : BitVec 16) → Vector (BitVec 8) size.toNat}
    {string : LineString} {p : Nat} (h : firstNul (lineBlock malloc string) = some p)
    (hfit : p + string.1.length + 3 ≤ (lineBlock malloc string).length)
    {level : Bool} {u : Uart} (hu : Driven level u) :
    ∃ u', uartRawSendLine malloc string.1 string.length u = some u' ∧
      u'.samples = u.samples ++
        (((lineBlock malloc string).take p ++ string.line).take
          string.line.length).flatMap frame := by
  obtain ⟨rest, hstrcat⟩ := strcat_line_fits string.2.1 h hfit
  have hline : string.line.length = string.1.length + 2 := by
    simp [LineString.line, lineEnd]
  obtain ⟨u', hrun, -, hsamples⟩ := hu.sendChars
    ((lineBlock malloc string).take p ++ string.line ++ 0#8 :: rest) (i := 0)
    (n := string.line.length) (by simp; omega)
  refine ⟨u', ?_, ?_⟩
  · rw [uartRawSendLine_eq, hstrcat, Option.bind_some, uartRawSendString, lengthTwo_toNat,
      ← hline]
    exact hrun
  · rw [hsamples, List.drop_zero, List.take_append_of_le_length (by simp)]

theorem uartRawInit_output (u : Uart) : ∃ level, Driven level (uartRawInit u) := by
  refine ⟨_, ?_, rfl⟩
  rw [uartRawInit, getLsbD_or_bv _ _ (by decide)]
  simp

/-- `uart_raw_send_line` sends its line exactly if the line has 126 characters
or more, so that the block is huge, and what the block holds before its first
NUL does not change the first bytes. -/
theorem sendsLine_iff (malloc : (size : BitVec 16) → Vector (BitVec 8) size.toNat)
    (string : LineString) (u : Uart) :
    SendsLine malloc string (uartRawInit u) ↔
      126 ≤ string.1.length ∧ ∃ p ≤ 65279, firstNul (lineBlock malloc string) = some p ∧
        string.line <+: (lineBlock malloc string).take p ++ string.line := by
  obtain ⟨level, hu⟩ := uartRawInit_output u
  have hlength := length_lineBlock malloc string
  have hsize : ∀ p, p + string.1.length + 3 ≤ (lineBlock malloc string).length ↔
      126 ≤ string.1.length ∧ p ≤ 65279 := by
    intro p
    rw [hlength]
    split <;> omega
  constructor
  · rintro ⟨u', hrun, hsamples⟩
    cases hnul : firstNul (lineBlock malloc string) with
    | none =>
        rw [uartRawSendLine_eq] at hrun
        simp [strcat, hnul] at hrun
    | some p =>
        by_cases hfit : p + string.1.length + 3 ≤ (lineBlock malloc string).length
        · obtain ⟨hlong, hp⟩ := (hsize p).mp hfit
          obtain ⟨u'', hrun'', hsamples''⟩ := uartRawSendLine_fits hnul hfit hu
          obtain rfl := Option.some.inj (hrun.symm.trans hrun'')
          rw [hsamples, List.append_cancel_left_eq] at hsamples''
          refine ⟨hlong, p, hp, rfl, ?_⟩
          rw [List.prefix_iff_eq_take]
          exact flatMap_frame_injective hsamples''
        · rw [uartRawSendLine_eq, strcat_line_overflows string.2.1 hnul (by omega)] at hrun
          simp at hrun
  · rintro ⟨hlong, p, hp, hnul, hhead⟩
    obtain ⟨u', hrun, hsamples⟩ := uartRawSendLine_fits hnul ((hsize p).mpr ⟨hlong, hp⟩) hu
    refine ⟨u', hrun, ?_⟩
    rw [hsamples, ← List.prefix_iff_eq_take.mp hhead]

/-- Even in a block of zeros, the line "A" needs one byte more than it gets. -/
theorem not_sendsLine :
    ¬ SendsLine (fun size => Vector.replicate size.toNat 0#8) ⟨[0x41#8], by decide⟩
      (uartRawInit ⟨0#8, 0#8, []⟩) := by
  rintro ⟨u', hrun, -⟩
  have hnone : uartRawSendLine (fun size => Vector.replicate size.toNat 0#8) [0x41#8] 1#8
      (uartRawInit ⟨0#8, 0#8, []⟩) = none := by
    decide
  rw [show LineString.length ⟨[0x41#8], by decide⟩ = 1#8 from rfl, hnone] at hrun
  simp at hrun

end NesMiniAdapter.UartSendLine
