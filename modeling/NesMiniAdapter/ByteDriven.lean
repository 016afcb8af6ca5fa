import NesMiniAdapter.ByteBits
import NesMiniAdapter.EventDriven

/-!
Slaves given by what they do with whole bytes. The automaton below shifts the
bits in and out, drives the acknowledges and stretches the clock as it likes.
-/

namespace NesMiniAdapter.ByteDriven

open NesMiniAdapter.ByteBits
open NesMiniAdapter.OpenDrainBus
open NesMiniAdapter.EventDriven

/-- A slave on states `ρ`. Taking a byte, it says whether it acknowledges it;
`give` is the next byte to send and `gave` the state once it is sent. -/
structure ByteSlave (ρ : Type) where
  address : BitVec 8 → ρ → Bool × ρ
  take : BitVec 8 → ρ → Bool × ρ
  give : ρ → BitVec 8
  gave : ρ → ρ

/-- Where the slave is in a transaction. `got` are the bits of the byte so far,
the first byte being the address. -/
inductive Phase where
  | idle
  | started
  | receive (first : Bool) (got : List Bool)
  | acknowledge (ack : Bool) (next : Phase)
  | send (bits : List Bool)
  | listen (nack : Bool)
  deriving DecidableEq, Repr

/-- `falls` counts the falling edges of SCL. -/
structure BitState (ρ : Type) where
  bytes : ρ
  phase : Phase
  falls : Nat

def byteOf (bits : List Bool) : BitVec 8 := bits.foldl shiftIn 0#8

variable {ρ : Type}

namespace ByteSlave

variable (B : ByteSlave ρ)

def accept (first : Bool) (byte : BitVec 8) (bytes : ρ) : Bool × ρ :=
  if first then B.address byte bytes else B.take byte bytes

/-- What follows the acknowledge of a byte: a slave that is addressed to read
sends, one that does not answer to the address drops out. -/
def next (first : Bool) (byte : BitVec 8) (ack : Bool) (bytes : ρ) : Phase :=
  if first then
    if ack then
      if byte.getLsbD 0 then .send (bitsOf (B.give bytes)) else .receive false []
    else .idle
  else .receive false []

/-- The falling edge of SCL, up to the count. -/
def advance (bytes : ρ) : Phase → ρ × Phase
  | .idle => (bytes, .idle)
  | .started => (bytes, .receive true [])
  | .receive first got =>
      if got.length = 8 then
        let (ack, bytes') := B.accept first (byteOf got) bytes
        (bytes', .acknowledge ack (B.next first (byteOf got) ack bytes'))
      else (bytes, .receive first got)
  | .acknowledge _ next => (bytes, next)
  | .send (_ :: bit :: bits) => (bytes, .send (bit :: bits))
  | .send _ => (B.gave bytes, .listen true)
  | .listen nack => (bytes, if nack then .idle else .send (bitsOf (B.give bytes)))

end ByteSlave

namespace Phase

def sample (bit : Bool) : Phase → Phase
  | .receive first got => .receive first (got ++ [bit])
  | .listen _ => .listen bit
  | phase => phase

def sda : Phase → Bool
  | .acknowledge ack _ => !ack
  | .send (bit :: _) => bit
  | _ => true

theorem sda_sample (bit : Bool) (phase : Phase) : (phase.sample bit).sda = phase.sda := by
  cases phase <;> rfl

end Phase

/-- The slave on the lines. After its `n`-th falling edge SCL is held for
`hold n` samples. -/
def ByteSlave.toEventSlave (B : ByteSlave ρ) (hold : Nat → Nat) :
    EventSlave (BitState ρ) where
  sda s := s.phase.sda
  stretch s := hold s.falls
  start s := { s with phase := .started }
  stop s := { s with phase := .idle }
  rise bit s := { s with phase := s.phase.sample bit }
  fall s := ⟨(B.advance s.bytes s.phase).1, (B.advance s.bytes s.phase).2, s.falls + 1⟩

/-- What taking and sending bytes leaves alone, a falling edge leaves alone. -/
theorem advance_keeps {B : ByteSlave ρ} {Q : ρ → Prop}
    (haddress : ∀ byte bytes, Q bytes → Q (B.address byte bytes).2)
    (htake : ∀ byte bytes, Q bytes → Q (B.take byte bytes).2)
    (hgave : ∀ bytes, Q bytes → Q (B.gave bytes)) {bytes : ρ} (h : Q bytes) (phase : Phase) :
    Q (B.advance bytes phase).1 := by
  cases phase with
  | idle => exact h
  | started => exact h
  | acknowledge ack next => exact h
  | listen nack => exact h
  | send bits =>
      match bits with
      | [] => exact hgave _ h
      | [_] => exact hgave _ h
      | _ :: _ :: _ => exact h
  | receive first got =>
      rw [ByteSlave.advance]
      by_cases hlength : got.length = 8
      · rw [if_pos hlength]
        cases first with
        | false => exact htake _ _ h
        | true => exact haddress _ _ h
      · rw [if_neg hlength]
        exact h

section Slots

variable {B : ByteSlave ρ} {hold : Nat → Nat} {strict : Prop} {bytes : ρ} {n : Nat}

theorem runs_cons {slot : Slot} {slots : List Slot} {bit : Bool} {bits : List Bool}
    {phase phase' : Phase} {bytes' : ρ} {s' : BitState ρ}
    (hquiet : ∀ bit', slot = .master bit' → phase.sda = true)
    (hbit : (slot.level && phase.sda) = bit)
    (hadvance : B.advance bytes (phase.sample bit) = (bytes', phase'))
    (h : Runs strict (B.toEventSlave hold) slots ⟨bytes', phase', n + 1⟩ bits s') :
    Runs strict (B.toEventSlave hold) (slot :: slots) ⟨bytes, phase, n⟩ (bit :: bits) s' := by
  subst hbit
  have hclock : (B.toEventSlave hold).clock slot ⟨bytes, phase, n⟩ =
      ⟨(B.advance bytes (phase.sample (slot.level && phase.sda))).1,
        (B.advance bytes (phase.sample (slot.level && phase.sda))).2, n + 1⟩ := rfl
  rw [hadvance] at hclock
  rw [← hclock] at h
  exact .cons hquiet (Or.inl (Phase.sda_sample _ phase)) h

theorem runs_receive {first : Bool} {got bits : List Bool}
    (h : got.length + bits.length < 8) :
    Runs strict (B.toEventSlave hold) (bits.map .master) ⟨bytes, .receive first got, n⟩ bits
      ⟨bytes, .receive first (got ++ bits), n + bits.length⟩ := by
  induction bits generalizing got n with
  | nil =>
      rw [List.append_nil]
      exact .nil _
  | cons bit bits ih =>
      rw [List.length_cons] at h
      have hlength : (got ++ [bit]).length + bits.length < 8 := by
        simp only [List.length_append, List.length_singleton]
        omega
      have hadvance : B.advance bytes (.receive first (got ++ [bit])) =
          (bytes, .receive first (got ++ [bit])) := by
        rw [ByteSlave.advance, if_neg (by omega)]
      have hrest := ih (n := n + 1) hlength
      rw [List.append_assoc, List.singleton_append, Nat.add_assoc, Nat.add_comm 1] at hrest
      exact runs_cons (fun _ _ => rfl) (Bool.and_true _) hadvance hrest

theorem runs_byte {first : Bool} {data : BitVec 8} {ack : Bool} {bytes' : ρ}
    (h : B.accept first data bytes = (ack, bytes')) :
    Runs strict (B.toEventSlave hold) ((bitsOf data).map .master)
      ⟨bytes, .receive first [], n⟩ (bitsOf data)
      ⟨bytes', .acknowledge ack (B.next first data ack bytes'), n + 8⟩ := by
  have hbits : bitsOf data = (bitsOf data).take 7 ++ [data.getLsbD 0] := rfl
  have hlength : ((bitsOf data).take 7 ++ [data.getLsbD 0]).length = 8 := rfl
  have hbyte : byteOf ((bitsOf data).take 7 ++ [data.getLsbD 0]) = data := shiftIn_bitsOf data 0#8
  rw [hbits, List.map_append]
  refine (runs_receive (by simp)).append ?_
  refine runs_cons (fun _ _ => rfl) (Bool.and_true _) ?_ (.nil _)
  change B.advance bytes (.receive first ((bitsOf data).take 7 ++ [data.getLsbD 0])) = _
  rw [ByteSlave.advance, if_pos hlength, hbyte, h]

theorem runs_write {first : Bool} {data : BitVec 8} {ack : Bool} {bytes' : ρ}
    (h : B.accept first data bytes = (ack, bytes')) :
    Runs strict (B.toEventSlave hold) ((bitsOf data).map .master ++ [.slave])
      ⟨bytes, .receive first [], n⟩ (bitsOf data ++ [!ack])
      ⟨bytes', B.next first data ack bytes', n + 9⟩ := by
  refine (runs_byte h).append ?_
  exact runs_cons (fun _ hslot => by cases hslot) (Bool.true_and _) rfl (.nil _)

theorem runs_send {bits : List Bool} (hne : bits ≠ []) :
    Runs strict (B.toEventSlave hold) (List.replicate bits.length .slave)
      ⟨bytes, .send bits, n⟩ bits ⟨B.gave bytes, .listen true, n + bits.length⟩ := by
  induction bits generalizing n with
  | nil => exact absurd rfl hne
  | cons bit bits ih =>
      cases bits with
      | nil => exact runs_cons (fun _ hslot => by cases hslot) (Bool.true_and _) rfl (.nil _)
      | cons bit' bits =>
          have hrest := ih (n := n + 1) (by simp)
          rw [Nat.add_assoc, Nat.add_comm 1] at hrest
          exact runs_cons (fun _ hslot => by cases hslot) (Bool.true_and _) rfl hrest

theorem runs_read {nack : Bool} :
    Runs strict (B.toEventSlave hold) (List.replicate 8 .slave ++ [.master nack])
      ⟨bytes, .send (bitsOf (B.give bytes)), n⟩ (bitsOf (B.give bytes) ++ [nack])
      ⟨B.gave bytes,
        if nack then .idle else .send (bitsOf (B.give (B.gave bytes))), n + 9⟩ := by
  have hne : bitsOf (B.give bytes) ≠ [] := by simp [bitsOf]
  refine (runs_send hne).append ?_
  exact runs_cons (fun _ _ => rfl) (Bool.and_true _) rfl (.nil _)

theorem runs_idle (slots : List Slot) :
    Runs strict (B.toEventSlave hold) slots ⟨bytes, .idle, n⟩ (slots.map Slot.level)
      ⟨bytes, .idle, n + slots.length⟩ := by
  induction slots generalizing n with
  | nil => exact .nil _
  | cons slot slots ih =>
      have hrest := ih (n := n + 1)
      rw [Nat.add_assoc, Nat.add_comm 1] at hrest
      exact runs_cons (fun _ _ => rfl) (Bool.and_true _) rfl hrest

end Slots

end NesMiniAdapter.ByteDriven
