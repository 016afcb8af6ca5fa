import Mathlib.Logic.Function.Iterate

/-!
Two open-drain lines shared by one master and one slave, seen from the slave.
A slave is any state machine that is shown one sample of the lines at a time.
The predicates below say what a slave does over a bit slot, a transaction and
a sequence of transactions, whatever number of samples each phase lasts.
-/

namespace NesMiniAdapter.OpenDrainBus

/-- The levels of the two lines; `true` is high, that is, pulled by nobody. -/
structure Lines where
  sda : Bool
  scl : Bool
  deriving DecidableEq, Repr

/-- What an observer of the lines records. A rising edge of SCL carries the
level of SDA and the level that the slave alone would have left there. -/
inductive Event where
  | start
  | stop
  | rise (sda slave : Bool)
  | fall
  deriving DecidableEq, Repr

/-- The events between two samples of the lines. SDA counts only while SCL
stays high. -/
def edges (old new : Lines) (slave : Bool) : List Event :=
  match old.scl, new.scl with
  | false, true => [.rise new.sda slave]
  | true, false => [.fall]
  | true, true =>
      match old.sda, new.sda with
      | true, false => [.start]
      | false, true => [.stop]
      | _, _ => []
  | false, false => []

/-- A device on the lines: the level it leaves on each line in a state, and
its next state when it is shown a sample. -/
structure Slave (σ : Type) where
  sda : σ → Bool
  scl : σ → Bool
  react : σ → Lines → σ

namespace Slave

variable {σ : Type} (S : Slave σ)

/-- A sample with SCL low, the master leaving SDA at `master`. -/
def low (master : Bool) (s : σ) : σ := S.react s ⟨master && S.sda s, false⟩

/-- A sample with SCL high, the master leaving SDA at `master`. -/
def high (master : Bool) (s : σ) : σ := S.react s ⟨master && S.sda s, true⟩

/-- Any number of samples with SCL low. -/
def lows (masters : List Bool) (s : σ) : σ :=
  masters.foldl (fun s master => S.low master s) s

theorem lows_concat (ms : List Bool) (m : Bool) (s : σ) :
    S.lows (ms ++ [m]) s = S.low m (S.lows ms s) := by
  simp [lows]

end Slave

/-- One clocked bit: the master's, with the bit it sends, or the slave's. -/
inductive Slot where
  | master (bit : Bool)
  | slave
  deriving DecidableEq, Repr

/-- The level the master leaves on SDA in a slot. -/
def Slot.level : Slot → Bool
  | .master bit => bit
  | .slave => true

/-- The rising edge of a slot in which `bit` is seen on SDA. -/
def Slot.rise : Slot → Bool → Event
  | .master _, bit => .rise bit true
  | .slave, bit => .rise bit bit

def Slot.pulse (slot : Slot) (bit : Bool) : List Event := [slot.rise bit, .fall]

/-- The pulses of a list of slots with the levels seen in them. -/
def pulses : List Slot → List Bool → List Event
  | slot :: slots, bit :: bits => slot.pulse bit ++ pulses slots bits
  | _, _ => []

theorem pulses_append {slots slots' : List Slot} {bits bits' : List Bool}
    (h : slots.length = bits.length) :
    pulses (slots ++ slots') (bits ++ bits') =
      pulses slots bits ++ pulses slots' bits' := by
  induction slots generalizing bits with
  | nil =>
      cases bits with
      | nil => rfl
      | cons bit bits => simp at h
  | cons slot slots ih =>
      cases bits with
      | nil => simp at h
      | cons bit bits =>
          simp only [List.cons_append, pulses, List.append_assoc]
          rw [ih (by simpa using h)]

/-- The master's slots carry the master's bits. -/
def Carries : List Slot → List Bool → Prop
  | [], [] => True
  | slot :: slots, bit :: bits => (∀ v, slot = .master v → bit = v) ∧ Carries slots bits
  | _, _ => False

theorem Carries.length {slots : List Slot} {bits : List Bool} (h : Carries slots bits) :
    slots.length = bits.length := by
  induction slots generalizing bits with
  | nil =>
      cases bits with
      | nil => rfl
      | cons bit bits => exact h.elim
  | cons slot slots ih =>
      cases bits with
      | nil => exact h.elim
      | cons bit bits => simp [ih h.2]

theorem Carries.append {slots slots' : List Slot} {bits bits' : List Bool}
    (h : Carries slots bits) (h' : Carries slots' bits') :
    Carries (slots ++ slots') (bits ++ bits') := by
  induction slots generalizing bits with
  | nil =>
      cases bits with
      | nil => exact h'
      | cons bit bits => exact h.elim
  | cons slot slots ih =>
      cases bits with
      | nil => exact h.elim
      | cons bit bits => exact ⟨h.1, ih h.2⟩

theorem Carries.split {slots slots' : List Slot} {bits : List Bool}
    (h : Carries (slots ++ slots') bits) :
    ∃ first rest, bits = first ++ rest ∧ Carries slots first ∧ Carries slots' rest := by
  induction slots generalizing bits with
  | nil => exact ⟨[], bits, rfl, trivial, h⟩
  | cons slot slots ih =>
      cases bits with
      | nil => exact h.elim
      | cons bit bits =>
          obtain ⟨hbit, hbits⟩ := h
          obtain ⟨first, rest, rfl, hfirst, hrest⟩ := ih hbits
          exact ⟨bit :: first, rest, rfl, ⟨hbit, hfirst⟩, hrest⟩

theorem carries_master {vs bits : List Bool} (h : Carries (vs.map .master) bits) :
    bits = vs := by
  induction vs generalizing bits with
  | nil =>
      cases bits with
      | nil => rfl
      | cons bit bits => exact h.elim
  | cons v vs ih =>
      cases bits with
      | nil => exact h.elim
      | cons bit bits => rw [h.1 v rfl, ih h.2]

section Phases

variable {σ : Type}

/-- `s` behaves while SCL stays high: it does not pull SCL, and on SDA it may
at most let go. A `strict` slave does not change SDA at all. -/
def Pulse (strict : Prop) (S : Slave σ) (level : Bool) (K : σ → Prop) (s : σ) : Prop :=
  ∀ n, S.scl ((S.high level)^[n + 1] s) = true ∧
    (S.sda ((S.high level)^[n] s) = true → S.sda ((S.high level)^[n + 1] s) = true) ∧
    (strict → S.sda ((S.high level)^[n + 1] s) = S.sda ((S.high level)^[n] s)) ∧
    K ((S.high level)^[n + 1] s)

/-- `s`, with SCL low, behaves over one bit slot up to the end of its pulse:
it leaves SDA alone in a slot of the master, it holds SCL low for finitely
many samples, and `K` takes over with the level on SDA at the rising edge. -/
def Clocked (strict : Prop) (S : Slave σ) (slot : Slot) (K : Bool → σ → Prop)
    (s : σ) : Prop :=
  ∀ ms, (∀ bit, slot = .master bit → S.sda (S.lows ms s) = true) ∧
    (∀ m, ∃ n, S.scl ((S.low m)^[n] (S.lows ms s)) = true) ∧
    (S.scl (S.lows ms s) = true →
      Pulse strict S slot.level (K (slot.level && S.sda (S.lows ms s))) (S.lows ms s))

/-- `s`, with SCL low, behaves over the slots, and `Q` holds of the levels seen
and of the slave once SCL is low again after the last one. -/
def Session (strict : Prop) (S : Slave σ) :
    List Slot → (List Bool → σ → Prop) → σ → Prop
  | [], Q, s => Q [] s
  | slot :: slots, Q, s =>
      Clocked strict S slot (fun bit s' =>
        ∀ m, Session strict S slots (fun bits => Q (bit :: bits)) (S.low m s')) s

/-- `s`, with both lines high, leaves them alone as long as they stay so. -/
def Resting (S : Slave σ) (s : σ) : Prop :=
  ∀ n, S.sda ((S.high true)^[n] s) = true ∧ S.scl ((S.high true)^[n] s) = true

/-- `s`, with SCL low, lets the master stop: SCL goes up with SDA low, then SDA
is released, and from there the slave rests and `Q` holds of it. -/
def Stopping (strict : Prop) (S : Slave σ) (Q : σ → Prop) (s : σ) : Prop :=
  Clocked strict S (.master false)
    (fun _ s' => Resting S (S.high true s') ∧ Q (S.high true s')) s

/-- `s`, at rest, lets the master start at any time: SDA goes low, then SCL,
and `K` holds of the slave from there. -/
def Idle (S : Slave σ) (K : σ → Prop) (s : σ) : Prop :=
  ∀ n k, S.sda ((S.high false)^[k + 1] ((S.high true)^[n] s)) = true ∧
    S.scl ((S.high false)^[k + 1] ((S.high true)^[n] s)) = true ∧
    K (S.low false ((S.high false)^[k + 1] ((S.high true)^[n] s)))

/-- `s` behaves over a whole transaction, from START to STOP. -/
def Transaction (strict : Prop) (S : Slave σ) (slots : List Slot)
    (Q : List Bool → σ → Prop) (s : σ) : Prop :=
  Idle S (Session strict S slots fun bits => Stopping strict S (Q bits)) s

/-- `s` behaves over a sequence of transactions. -/
def Conversation (strict : Prop) (S : Slave σ) :
    List (List Slot) → (List (List Bool) → σ → Prop) → σ → Prop
  | [], Q, s => Q [] s
  | slots :: rest, Q, s =>
      Transaction strict S slots
        (fun bits => Conversation strict S rest fun others => Q (bits :: others)) s

end Phases

end NesMiniAdapter.OpenDrainBus
