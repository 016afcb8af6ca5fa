import Mathlib.Logic.Function.Iterate
import NesMiniAdapter.UartLine
import NesMiniAdapter.UartRaw

/-!
What a receiver gets from a run of the transmitter, from initialisation on.
-/

namespace NesMiniAdapter.UartTransmission

open NesMiniAdapter.ByteBits
open NesMiniAdapter.UartLine
open NesMiniAdapter.UartLine.Receiver
open NesMiniAdapter.UartRaw

/-- The pin is an output at `level`. -/
structure Driven (level : Bool) (u : Uart) : Prop where
  ddrb : u.ddrb.getLsbD uartTxPin = true
  portb : u.portb.getLsbD uartTxPin = level

theorem Driven.level {level : Bool} {u : Uart} (h : Driven level u) : u.level = level := by
  rw [Uart.level, h.ddrb, h.portb]
  rfl

theorem Driven.delay {level : Bool} {u : Uart} (h : Driven level u) :
    Driven level u.delay ∧ u.delay.samples = u.samples ++ [level] := by
  refine ⟨⟨h.ddrb, h.portb⟩, ?_⟩
  rw [← h.level]
  rfl

theorem Driven.delays {level : Bool} {u : Uart} (h : Driven level u) (n : Nat) :
    Driven level (Uart.delay^[n] u) ∧
      (Uart.delay^[n] u).samples = u.samples ++ List.replicate n level := by
  induction n with
  | zero => exact ⟨h, by simp⟩
  | succ n ih =>
      rw [Function.iterate_succ_apply', List.replicate_succ', ← List.append_assoc, ← ih.2]
      exact ih.1.delay

theorem Driven.tx1 {level : Bool} {u : Uart} (h : Driven level u) :
    Driven true (uartRawTx1 u) := by
  refine ⟨h.ddrb, ?_⟩
  rw [uartRawTx1, getLsbD_or_bv _ _ (by decide)]
  simp

theorem Driven.tx0 {level : Bool} {u : Uart} (h : Driven level u) :
    Driven false (uartRawTx0 u) := by
  refine ⟨h.ddrb, ?_⟩
  rw [uartRawTx0, getLsbD_and_not_bv _ _ (by decide)]
  simp

theorem uartRawInit_driven {u : Uart} (h : u.portb = 0#8) : Driven false (uartRawInit u) := by
  constructor
  · rw [uartRawInit, getLsbD_or_bv _ _ (by decide)]
    simp
  · simp [uartRawInit, h]

/-- The bits the loop sends: from bit 0 on. -/
def lowBits : Nat → BitVec 8 → List Bool
  | 0, _ => []
  | n + 1, byte => byte.getLsbD 0 :: lowBits n (byte >>> 1)

theorem lowBits_eight (byte : BitVec 8) : lowBits 8 byte = (bitsOf byte).reverse := by
  simp [lowBits, bitsOf]

theorem Driven.sendBits {level : Bool} {u : Uart} (h : Driven level u) (n : Nat)
    (byte : BitVec 8) :
    (∃ level', Driven level' (sendBits n byte u)) ∧
      (sendBits n byte u).samples = u.samples ++ lowBits n byte := by
  induction n generalizing byte u level with
  | zero => exact ⟨⟨level, h⟩, by simp [UartRaw.sendBits, lowBits]⟩
  | succ n ih =>
      have hbit : (byte &&& 0x01#8 ≠ 0#8) ↔ byte.getLsbD 0 = true := by
        rw [← and_bv_ne_zero byte (i := 0) (by decide)]
        exact bne_iff_ne.symm
      have hdriven : Driven (byte.getLsbD 0)
          (if byte &&& 0x01#8 ≠ 0#8 then uartRawTx1 u else uartRawTx0 u) := by
        split
        · rename_i hset
          rw [hbit.mp hset]
          exact h.tx1
        · rename_i hclear
          rw [hbit, Bool.not_eq_true] at hclear
          rw [hclear]
          exact h.tx0
      have hsamples :
          (if byte &&& 0x01#8 ≠ 0#8 then uartRawTx1 u else uartRawTx0 u).samples = u.samples := by
        split <;> rfl
      obtain ⟨hnext, hmore⟩ := ih hdriven.delay.1 (byte >>> 1)
      refine ⟨hnext, ?_⟩
      rw [UartRaw.sendBits, hmore, hdriven.delay.2, hsamples, lowBits, List.append_assoc]
      rfl

/-- Whatever the level before it, a byte is one frame, and leaves the line at 1. -/
theorem Driven.sendByte {level : Bool} {u : Uart} (h : Driven level u) (byte : BitVec 8) :
    Driven true (uartRawSendByte byte u) ∧
      (uartRawSendByte byte u).samples = u.samples ++ frame byte := by
  obtain ⟨hstart, hsamples₁⟩ := h.tx0.delay
  obtain ⟨⟨level', hbits⟩, hsamples₂⟩ := hstart.sendBits 8 byte
  obtain ⟨hstop, hsamples₃⟩ := hbits.tx1.delay
  refine ⟨hstop, ?_⟩
  change (uartRawTx1 _).delay.samples = _
  rw [hsamples₃]
  change (UartRaw.sendBits _ _ _).samples ++ _ = _
  rw [hsamples₂, hsamples₁, lowBits_eight]
  simp [frame, uartRawTx0]

theorem Driven.sendChars {level : Bool} {u : Uart} (h : Driven level u)
    (string : List (BitVec 8)) {i n : Nat} (hn : i + n ≤ string.length) :
    ∃ u', UartRaw.sendChars string i n u = some u' ∧ Driven (level || n != 0) u' ∧
      u'.samples = u.samples ++ ((string.drop i).take n).flatMap frame := by
  induction n generalizing i u level with
  | zero => exact ⟨u, rfl, by simpa using h, by simp⟩
  | succ n ih =>
      have hi : i < string.length := by omega
      obtain ⟨hsent, hsamples⟩ := h.sendByte string[i]
      obtain ⟨u', hrun, hdriven, hsamples'⟩ := ih hsent (i := i + 1) (by omega)
      refine ⟨u', ?_, by simpa using hdriven, ?_⟩
      · rw [UartRaw.sendChars, List.getElem?_eq_getElem hi]
        exact hrun
      · rw [hsamples', hsamples, List.drop_eq_getElem_cons hi, List.take_succ_cons,
          List.flatMap_cons, List.append_assoc]

/-- A string that an `unsigned char` can give the length of. -/
abbrev ShortString := { string : List (BitVec 8) // string.length < 256 }

/-- What happens after initialisation: bit times pass, or a call is made. -/
inductive Action where
  | elapse (n : Nat)
  | sendByte (byte : BitVec 8)
  | sendString (string : ShortString)

def Action.run : Action → Uart → Option Uart
  | .elapse n, u => some (Uart.delay^[n] u)
  | .sendByte byte, u => some (uartRawSendByte byte u)
  | .sendString string, u => uartRawSendString string.1 (BitVec.ofNat 8 string.1.length) u

def runActions : List Action → Uart → Option Uart
  | [], u => some u
  | a :: as, u => do
      let u ← a.run u
      runActions as u

def Action.bytes : Action → List (BitVec 8)
  | .elapse _ => []
  | .sendByte byte => [byte]
  | .sendString string => string.1

def sent (as : List Action) : List (BitVec 8) := as.flatMap Action.bytes

theorem sent_cons (a : Action) (as : List Action) : sent (a :: as) = a.bytes ++ sent as := by
  rw [sent, List.flatMap_cons]
  rfl

/-- The bit times that pass before the first byte is sent, or in the whole run
if none is. -/
def leadingGap : List Action → Nat
  | [] => 0
  | .elapse n :: as => n + leadingGap as
  | a :: as => if a.bytes = [] then leadingGap as else 0

/-- The registers at reset, on a line that has idled for `n + 1` bit times. -/
def resetUart (n : Nat) : Uart := ⟨0#8, 0#8, List.replicate (n + 1) true⟩

/-- What a receiver delivers over a run from reset on. -/
def received (idle : Nat) (as : List Action) : Option (List Delivery) :=
  (runActions as (uartRawInit (resetUart idle))).map fun u => receive .waitHigh u.samples

theorem run_nothing (u : Uart) {a : Action} (ha : ∀ n, a ≠ .elapse n) (hbytes : a.bytes = []) :
    a.run u = some u := by
  match a with
  | .elapse n => exact absurd rfl (ha n)
  | .sendString ⟨[], _⟩ => rfl

/-- Whatever the level before it, an action that sends bytes sends their frames. -/
theorem run_bytes {level : Bool} {u : Uart} (h : Driven level u) {a : Action}
    (hbytes : a.bytes ≠ []) :
    ∃ u', a.run u = some u' ∧ Driven true u' ∧
      u'.samples = u.samples ++ a.bytes.flatMap frame := by
  match a with
  | .elapse n => exact absurd rfl hbytes
  | .sendByte byte =>
      obtain ⟨hsent, hsamples⟩ := h.sendByte byte
      refine ⟨_, rfl, hsent, ?_⟩
      rw [hsamples]
      simp [Action.bytes]
  | .sendString ⟨[], _⟩ => exact absurd rfl hbytes
  | .sendString ⟨c :: cs, hshort⟩ =>
      have hlength : (BitVec.ofNat 8 (c :: cs).length).toNat = (c :: cs).length := by
        rw [BitVec.toNat_ofNat]
        exact Nat.mod_eq_of_lt hshort
      obtain ⟨u', hrun, hdriven, hsamples⟩ :=
        h.sendChars (c :: cs) (i := 0) (n := (c :: cs).length) (by simp)
      refine ⟨u', ?_, by simpa using hdriven, ?_⟩
      · rw [Action.run, uartRawSendString, hlength]
        exact hrun
      · rw [hsamples, List.drop_zero, List.take_length]
        rfl

theorem receive_frames (bytes : List (BitVec 8)) (vs : List Bool) :
    receive .waitStart (bytes.flatMap frame ++ vs) =
      bytes.map .byte ++ receive .waitStart vs := by
  induction bytes with
  | nil => rfl
  | cons byte bytes ih =>
      rw [List.flatMap_cons, List.append_assoc, receive_frame, ih]
      rfl

/-- From a line at 1, everything that is sent is received. -/
theorem runActions_high {u : Uart} (h : Driven true u) (as : List Action) :
    ∃ u' vs, runActions as u = some u' ∧ u'.samples = u.samples ++ vs ∧
      receive .waitStart vs = (sent as).map .byte := by
  induction as generalizing u with
  | nil => exact ⟨u, [], rfl, by simp, rfl⟩
  | cons a as ih =>
      have hstep : ∃ u₁ ws, a.run u = some u₁ ∧ Driven true u₁ ∧ u₁.samples = u.samples ++ ws ∧
          ∀ vs, receive .waitStart (ws ++ vs) = a.bytes.map .byte ++ receive .waitStart vs := by
        by_cases ha : ∃ n, a = .elapse n
        · obtain ⟨n, rfl⟩ := ha
          obtain ⟨hdriven, hsamples⟩ := h.delays n
          exact ⟨_, _, rfl, hdriven, hsamples, fun vs => receive_idle n vs⟩
        · by_cases hbytes : a.bytes = []
          · refine ⟨u, [], run_nothing u (not_exists.mp ha) hbytes, h, by simp, ?_⟩
            rw [hbytes]
            exact fun vs => rfl
          · obtain ⟨u₁, hrun, hdriven, hsamples⟩ := run_bytes h hbytes
            exact ⟨u₁, _, hrun, hdriven, hsamples, fun vs => receive_frames a.bytes vs⟩
      obtain ⟨u₁, ws, hrun₁, hdriven₁, hsamples₁, hreceive₁⟩ := hstep
      obtain ⟨u₂, vs, hrun₂, hsamples₂, hreceive₂⟩ := ih hdriven₁
      refine ⟨u₂, ws ++ vs, ?_, ?_, ?_⟩
      · rw [runActions, hrun₁]
        exact hrun₂
      · rw [hsamples₂, hsamples₁, List.append_assoc]
      · rw [hreceive₁, hreceive₂, sent_cons, List.map_append]

/-- From a line at 0, the first frame comes after the leading gap. -/
theorem runActions_low {u : Uart} (h : Driven false u) (as : List Action) :
    ∃ u' vs, runActions as u = some u' ∧
      u'.samples = u.samples ++ (List.replicate (leadingGap as) false ++ vs) ∧
      (sent as = [] → vs = []) ∧
      ∀ byte rest, sent as = byte :: rest →
        ∃ ws, vs = frame byte ++ ws ∧ receive .waitStart ws = rest.map .byte := by
  induction as generalizing u with
  | nil => exact ⟨u, [], rfl, by simp [leadingGap], fun _ => rfl, by simp [sent]⟩
  | cons a as ih =>
      by_cases ha : ∃ n, a = .elapse n
      · obtain ⟨n, rfl⟩ := ha
        obtain ⟨hdriven, hsamples⟩ := h.delays n
        obtain ⟨u', vs, hrun, hsamples', hnone, hfirst⟩ := ih hdriven
        refine ⟨u', vs, hrun, ?_, hnone, hfirst⟩
        rw [hsamples', hsamples, leadingGap, ← List.replicate_append_replicate]
        simp only [List.append_assoc]
      · have hgap : leadingGap (a :: as) = if a.bytes = [] then leadingGap as else 0 := by
          cases a with
          | elapse n => exact absurd ⟨n, rfl⟩ ha
          | sendByte byte => rfl
          | sendString string => rfl
        by_cases hbytes : a.bytes = []
        · obtain ⟨u', vs, hrun, hsamples, hnone, hfirst⟩ := ih h
          rw [sent_cons, hbytes, List.nil_append, hgap, if_pos hbytes]
          refine ⟨u', vs, ?_, hsamples, hnone, hfirst⟩
          rw [runActions, run_nothing u (not_exists.mp ha) hbytes]
          exact hrun
        · obtain ⟨u₁, hrun₁, hdriven₁, hsamples₁⟩ := run_bytes h hbytes
          obtain ⟨u₂, vs, hrun₂, hsamples₂, hreceive₂⟩ := runActions_high hdriven₁ as
          refine ⟨u₂, a.bytes.flatMap frame ++ vs, ?_, ?_, ?_, ?_⟩
          · rw [runActions, hrun₁]
            exact hrun₂
          · rw [hsamples₂, hsamples₁, hgap, if_neg hbytes]
            simp
          · intro hsent
            rw [sent_cons] at hsent
            exact absurd (List.append_eq_nil_iff.mp hsent).1 hbytes
          · intro byte rest hsent
            obtain ⟨c, cs, hc⟩ := List.exists_cons_of_ne_nil hbytes
            rw [sent_cons, hc, List.cons_append, List.cons.injEq] at hsent
            obtain ⟨rfl, rfl⟩ := hsent
            refine ⟨cs.flatMap frame ++ vs, ?_, ?_⟩
            · rw [hc, List.flatMap_cons, List.append_assoc]
            · rw [receive_frames, hreceive₂, List.map_append]

/-- Everything that is sent is received, and nothing else, exactly if no bit
time passes between initialisation and the first byte; a run that sends nothing
may last nine bit times. -/
theorem received_iff (idle : Nat) (as : List Action) :
    received idle as = some ((sent as).map .byte) ↔
      if sent as = [] then leadingGap as ≤ 9 else leadingGap as = 0 := by
  obtain ⟨u, vs, hrun, hsamples, hnone, hfirst⟩ :=
    runActions_low (uartRawInit_driven (u := resetUart idle) rfl) as
  have hreceived : received idle as =
      some (receive .waitStart (List.replicate (leadingGap as) false ++ vs)) := by
    rw [received, hrun, Option.map_some, hsamples]
    exact congrArg some (receive_idle idle _)
  rw [hreceived, Option.some.injEq]
  cases hsent : sent as with
  | nil =>
      rw [hnone hsent, List.append_nil, if_pos rfl]
      constructor
      · intro hreceive
        by_contra hlong
        have hbreak := receive_break (n := leadingGap as) (by omega) []
        rw [List.append_nil, hreceive] at hbreak
        simp at hbreak
      · intro hshort
        exact receive_low (by omega)
  | cons byte rest =>
      obtain ⟨ws, rfl, hws⟩ := hfirst byte rest hsent
      rw [if_neg (by simp)]
      constructor
      · intro hreceive
        by_contra hgap
        apply receive_late (Nat.pos_of_ne_zero hgap) byte ws
        rw [hreceive]
        rfl
      · intro hgap
        rw [hgap, List.replicate_zero, List.nil_append, receive_frame, hws]
        rfl

/-- One bit time after initialisation, the byte 0xC1 is received as 0x82. -/
theorem not_received :
    received 0 [.elapse 1, .sendByte 0xC1#8] ≠
      some ((sent [.elapse 1, .sendByte 0xC1#8]).map .byte) := by
  decide

end NesMiniAdapter.UartTransmission
