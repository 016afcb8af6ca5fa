import NesMiniAdapter.OpenDrainBus

/-!
Slaves that are functions of the bus events alone: they see START, STOP and the
edges of SCL, and may hold SCL after it fell for a number of samples they
choose. Watching the lines for edges makes such a slave one of samples, and
what it does in a bit slot then no longer depends on how long the slot lasts.
-/

namespace NesMiniAdapter.EventDriven

open NesMiniAdapter.OpenDrainBus

/-- A device driven by bus events. `stretch` is the number of samples for which
it holds SCL after the falling edge that led to a state. -/
structure EventSlave (τ : Type) where
  sda : τ → Bool
  stretch : τ → Nat
  start : τ → τ
  stop : τ → τ
  rise : Bool → τ → τ
  fall : τ → τ

/-- A state, the lines as last seen, and the samples left to hold SCL. -/
structure Watch (τ : Type) where
  state : τ
  seen : Lines
  hold : Nat
  deriving DecidableEq, Repr

variable {τ : Type}

namespace EventSlave

variable (E : EventSlave τ)

/-- The event, if any, between the lines as last seen and a sample. -/
def watch (w : Watch τ) (lines : Lines) : Watch τ :=
  match w.seen.scl, lines.scl with
  | true, false => ⟨E.fall w.state, lines, E.stretch (E.fall w.state)⟩
  | false, true => ⟨E.rise lines.sda w.state, lines, 0⟩
  | false, false => ⟨w.state, lines, w.hold - 1⟩
  | true, true =>
      match w.seen.sda, lines.sda with
      | true, false => ⟨E.start w.state, lines, 0⟩
      | false, true => ⟨E.stop w.state, lines, 0⟩
      | _, _ => ⟨w.state, lines, 0⟩

def toSlave : Slave (Watch τ) where
  sda w := E.sda w.state
  scl w := w.hold == 0
  react := E.watch

def level (slot : Slot) (t : τ) : Bool := slot.level && E.sda t

def clock (slot : Slot) (t : τ) : τ := E.fall (E.rise (E.level slot t) t)

/-- The levels on SDA over a list of slots. -/
def answers : List Slot → τ → List Bool
  | [], _ => []
  | slot :: slots, t => E.level slot t :: answers slots (E.clock slot t)

def after : List Slot → τ → τ
  | [], t => t
  | slot :: slots, t => after slots (E.clock slot t)

/-- START and the falling edge after it. -/
def begin (t : τ) : τ := E.fall (E.start t)

/-- The rising edge with SDA low, and STOP. -/
def finish (t : τ) : τ := E.stop (E.rise false t)

def conversationAnswers : List (List Slot) → τ → List (List Bool)
  | [], _ => []
  | slots :: rest, t =>
      E.answers slots (E.begin t) ::
        conversationAnswers rest (E.finish (E.after slots (E.begin t)))

def afterConversation : List (List Slot) → τ → τ
  | [], t => t
  | slots :: rest, t => afterConversation rest (E.finish (E.after slots (E.begin t)))

/-- The rising edge leaves SDA as it was; a slave that is not `strict` may let
go, and then takes no notice of the STOP this may look like. -/
def Steady (strict : Prop) (t t' : τ) : Prop :=
  E.sda t' = E.sda t ∨ ¬strict ∧ E.sda t' = true ∧ E.stop t' = t'

/-- In a list of slots, the slave drives SDA in its own slots only and keeps it
steady at each rising edge. -/
def Follows (strict : Prop) : List Slot → τ → Prop
  | [], _ => True
  | slot :: slots, t =>
      (∀ bit, slot = .master bit → E.sda t = true) ∧
        E.Steady strict t (E.rise (E.level slot t) t) ∧
        Follows strict slots (E.clock slot t)

/-- Over a transaction, the slave leaves SDA alone before and at START and from
the last slot on. -/
def FollowsTransaction (strict : Prop) (slots : List Slot) (t : τ) : Prop :=
  E.sda t = true ∧ E.sda (E.start t) = true ∧ E.Follows strict slots (E.begin t) ∧
    E.sda (E.after slots (E.begin t)) = true ∧
    E.sda (E.rise false (E.after slots (E.begin t))) = true ∧
    E.sda (E.finish (E.after slots (E.begin t))) = true

def FollowsConversation (strict : Prop) : List (List Slot) → τ → Prop
  | [], _ => True
  | slots :: rest, t =>
      E.FollowsTransaction strict slots t ∧
        FollowsConversation strict rest (E.finish (E.after slots (E.begin t)))

end EventSlave

variable {E : EventSlave τ} {strict : Prop}

/-- Over the slots, a slave that follows them shows `bits` and goes from `t` to `t'`. -/
structure Runs (strict : Prop) (E : EventSlave τ) (slots : List Slot) (t : τ)
    (bits : List Bool) (t' : τ) : Prop where
  follows : E.Follows strict slots t
  answers : E.answers slots t = bits
  after : E.after slots t = t'

theorem Runs.nil (t : τ) : Runs strict E [] t [] t := ⟨trivial, rfl, rfl⟩

theorem Runs.cons {slot : Slot} {slots : List Slot} {t t' : τ} {bits : List Bool}
    (hquiet : ∀ bit, slot = .master bit → E.sda t = true)
    (hsteady : E.Steady strict t (E.rise (E.level slot t) t))
    (h : Runs strict E slots (E.clock slot t) bits t') :
    Runs strict E (slot :: slots) t (E.level slot t :: bits) t' :=
  ⟨⟨hquiet, hsteady, h.follows⟩, congrArg (E.level slot t :: ·) h.answers, h.after⟩

theorem Runs.append {slots slots' : List Slot} {t t₁ t' : τ} {bits bits' : List Bool}
    (h : Runs strict E slots t bits t₁) (h' : Runs strict E slots' t₁ bits' t') :
    Runs strict E (slots ++ slots') t (bits ++ bits') t' := by
  obtain ⟨hfollows, rfl, rfl⟩ := h
  induction slots generalizing t with
  | nil => exact h'
  | cons slot slots ih =>
      obtain ⟨hquiet, hsteady, hrest⟩ := hfollows
      exact .cons hquiet hsteady (ih hrest h')

theorem Runs.carries {slots : List Slot} {t t' : τ} {bits : List Bool}
    (h : Runs strict E slots t bits t') : Carries slots bits := by
  obtain ⟨hfollows, rfl, -⟩ := h
  induction slots generalizing t with
  | nil => trivial
  | cons slot slots ih =>
      refine ⟨?_, ih hfollows.2.2⟩
      rintro bit rfl
      rw [EventSlave.level, hfollows.1 bit rfl, Bool.and_true]
      rfl

/-- SCL was low when the slave last looked. -/
def LowAt (t : τ) (w : Watch τ) : Prop := w.state = t ∧ w.seen.scl = false

/-- SCL was high when the slave last looked, and it sees no event as long as
SCL stays so and the master leaves SDA at `level`. -/
def HighAt (E : EventSlave τ) (level : Bool) (t : τ) (w : Watch τ) : Prop :=
  w.state = t ∧ w.seen.scl = true ∧ w.hold = 0 ∧
    (w.seen.sda = (level && E.sda t) ∨ E.sda t = true ∧ E.stop t = t ∧ w.seen.sda = false)

theorem watch_low {w : Watch τ} (h : w.seen.scl = false) (m : Bool) :
    E.toSlave.low m w = ⟨w.state, ⟨m && E.sda w.state, false⟩, w.hold - 1⟩ := by
  simp [Slave.low, EventSlave.toSlave, EventSlave.watch, h]

theorem watch_rise {w : Watch τ} (h : w.seen.scl = false) (m : Bool) :
    E.toSlave.high m w =
      ⟨E.rise (m && E.sda w.state) w.state, ⟨m && E.sda w.state, true⟩, 0⟩ := by
  simp [Slave.high, EventSlave.toSlave, EventSlave.watch, h]

theorem watch_fall {w : Watch τ} (h : w.seen.scl = true) (m : Bool) :
    E.toSlave.low m w =
      ⟨E.fall w.state, ⟨m && E.sda w.state, false⟩, E.stretch (E.fall w.state)⟩ := by
  simp [Slave.low, EventSlave.toSlave, EventSlave.watch, h]

theorem watch_start {w : Watch τ} (h : w.seen = ⟨true, true⟩) :
    E.toSlave.high false w = ⟨E.start w.state, ⟨false, true⟩, 0⟩ := by
  simp [Slave.high, EventSlave.toSlave, EventSlave.watch, h]

theorem watch_stop {w : Watch τ} (h : w.seen = ⟨false, true⟩) (hsda : E.sda w.state = true) :
    E.toSlave.high true w = ⟨E.stop w.state, ⟨true, true⟩, 0⟩ := by
  simp [Slave.high, EventSlave.toSlave, EventSlave.watch, h, hsda]

theorem LowAt.lows {t : τ} {w : Watch τ} (h : LowAt t w) (ms : List Bool) :
    LowAt t (E.toSlave.lows ms w) := by
  induction ms generalizing w with
  | nil => exact h
  | cons m ms ih =>
      apply ih
      change LowAt t (E.toSlave.low m w)
      rw [watch_low h.2]
      exact ⟨h.1, rfl⟩

theorem hold_lows {w : Watch τ} (hseen : w.seen.scl = false) (hhold : w.hold = 0)
    (ms : List Bool) : (E.toSlave.lows ms w).hold = 0 := by
  induction ms generalizing w with
  | nil => exact hhold
  | cons m ms ih =>
      change (E.toSlave.lows ms (E.toSlave.low m w)).hold = 0
      rw [watch_low hseen]
      exact ih rfl (by rw [hhold])

theorem LowAt.released {t : τ} {w : Watch τ} (h : LowAt t w) (m : Bool) :
    ∃ n, E.toSlave.scl ((E.toSlave.low m)^[n] w) = true := by
  have hhold : ∀ n, ((E.toSlave.low m)^[n] w).hold = w.hold - n ∧
      ((E.toSlave.low m)^[n] w).seen.scl = false := by
    intro n
    induction n with
    | zero => exact ⟨rfl, h.2⟩
    | succ n ih =>
        rw [Function.iterate_succ_apply', watch_low ih.2]
        exact ⟨by rw [ih.1, Nat.sub_sub], rfl⟩
  refine ⟨w.hold, ?_⟩
  change (((E.toSlave.low m)^[w.hold] w).hold == 0) = true
  rw [(hhold w.hold).1, Nat.sub_self]
  rfl

theorem HighAt.scl {level : Bool} {t : τ} {w : Watch τ} (h : HighAt E level t w) :
    E.toSlave.scl w = true := by
  change (w.hold == 0) = true
  rw [h.2.2.1]
  rfl

theorem HighAt.high {level : Bool} {t : τ} {w : Watch τ} (h : HighAt E level t w) :
    HighAt E level t (E.toSlave.high level w) := by
  obtain ⟨rfl, hscl, -, hseen⟩ := h
  rcases hseen with hseen | ⟨hsda, hstop, hseen⟩
  · cases hlevel : level && E.sda w.state <;>
      simp_all [HighAt, Slave.high, EventSlave.toSlave, EventSlave.watch]
  · cases level <;>
      simp_all [HighAt, Slave.high, EventSlave.toSlave, EventSlave.watch]

theorem HighAt.fall {level : Bool} {t : τ} {w : Watch τ} (h : HighAt E level t w)
    (m : Bool) : LowAt (E.fall t) (E.toSlave.low m w) := by
  rw [watch_fall h.2.1, h.1]
  exact ⟨rfl, rfl⟩

theorem LowAt.rise {t : τ} {w : Watch τ} (h : LowAt t w) {level : Bool}
    (hsteady : E.Steady strict t (E.rise (level && E.sda t) t)) :
    HighAt E level (E.rise (level && E.sda t) t) (E.toSlave.high level w) := by
  rw [watch_rise h.2, h.1]
  refine ⟨rfl, rfl, rfl, ?_⟩
  rcases hsteady with hsame | ⟨-, hsda, hstop⟩
  · left
    rw [hsame]
  · cases hlevel : level && E.sda t
    · exact Or.inr ⟨hlevel ▸ hsda, hlevel ▸ hstop, rfl⟩
    · left
      rw [hlevel] at hsda
      simp_all

theorem LowAt.highs {t : τ} {w : Watch τ} (h : LowAt t w) {level : Bool}
    (hsteady : E.Steady strict t (E.rise (level && E.sda t) t)) (n : Nat) :
    HighAt E level (E.rise (level && E.sda t) t) ((E.toSlave.high level)^[n + 1] w) := by
  induction n with
  | zero => exact h.rise hsteady
  | succ n ih =>
      rw [Function.iterate_succ_apply']
      exact ih.high

theorem LowAt.pulse {t : τ} {w : Watch τ} (h : LowAt t w) {level : Bool}
    (hsteady : E.Steady strict t (E.rise (level && E.sda t) t)) {K : Watch τ → Prop}
    (hK : ∀ w', HighAt E level (E.rise (level && E.sda t) t) w' → K w') :
    Pulse strict E.toSlave level K w := by
  intro n
  have hhigh := h.highs hsteady n
  have hsda : E.toSlave.sda ((E.toSlave.high level)^[n + 1] w) =
      E.sda (E.rise (level && E.sda t) t) := congrArg E.sda hhigh.1
  -- Before the rising edge the slave shows `t`, later what the edge led to.
  have hsda₀ : E.toSlave.sda ((E.toSlave.high level)^[n] w) = E.sda t ∨
      E.toSlave.sda ((E.toSlave.high level)^[n] w) = E.sda (E.rise (level && E.sda t) t) := by
    cases n with
    | zero => exact Or.inl (congrArg E.sda h.1)
    | succ n => exact Or.inr (congrArg E.sda (h.highs hsteady n).1)
  refine ⟨hhigh.scl, ?_, ?_, hK _ hhigh⟩
  · intro hup
    rw [hsda]
    rcases hsteady with hsame | ⟨-, hset, -⟩
    · rcases hsda₀ with h₀ | h₀
      · rw [hsame, ← h₀, hup]
      · rw [← h₀, hup]
    · exact hset
  · intro hstrict
    rcases hsteady with hsame | ⟨hnot, -⟩
    · rw [hsda]
      rcases hsda₀ with h₀ | h₀
      · rw [h₀, hsame]
      · rw [h₀]
    · exact absurd hstrict hnot

theorem LowAt.clocked {t : τ} {w : Watch τ} (h : LowAt t w) {slot : Slot}
    (hquiet : ∀ bit, slot = .master bit → E.sda t = true)
    (hsteady : E.Steady strict t (E.rise (E.level slot t) t)) {K : Bool → Watch τ → Prop}
    (hK : ∀ w', HighAt E slot.level (E.rise (E.level slot t) t) w' → K (E.level slot t) w') :
    Clocked strict E.toSlave slot K w := by
  intro ms
  have hlow : LowAt t (E.toSlave.lows ms w) := h.lows ms
  have hsda : E.toSlave.sda (E.toSlave.lows ms w) = E.sda t := congrArg E.sda hlow.1
  refine ⟨?_, hlow.released, ?_⟩
  · intro bit hslot
    rw [hsda]
    exact hquiet bit hslot
  · intro _
    rw [hsda]
    exact hlow.pulse hsteady hK

/-- Watching the lines, a slave that follows the slots behaves over them, and
the levels are its answers. -/
theorem LowAt.session {slots : List Slot} {t : τ} {w : Watch τ} (h : LowAt t w)
    (hfollows : E.Follows strict slots t) {Q : List Bool → Watch τ → Prop}
    (hQ : ∀ w', LowAt (E.after slots t) w' → Q (E.answers slots t) w') :
    Session strict E.toSlave slots Q w := by
  induction slots generalizing t w Q with
  | nil => exact hQ w h
  | cons slot slots ih =>
      obtain ⟨hquiet, hsteady, hrest⟩ := hfollows
      refine h.clocked hquiet hsteady ?_
      intro w' hhigh m
      exact ih (hhigh.fall m) hrest hQ

/-- The slave in state `t`, having last seen both lines high. -/
def resting (t : τ) : Watch τ := ⟨t, ⟨true, true⟩, 0⟩

theorem high_resting {t : τ} (h : E.sda t = true) (n : Nat) :
    (E.toSlave.high true)^[n] (resting t) = resting t := by
  apply Function.iterate_fixed
  simp [Slave.high, EventSlave.toSlave, EventSlave.watch, resting, h]

theorem resting_resting {t : τ} (h : E.sda t = true) : Resting E.toSlave (resting t) := by
  intro n
  rw [high_resting h]
  exact ⟨h, rfl⟩

theorem LowAt.stopping {t : τ} {w : Watch τ} (h : LowAt t w) (hsda : E.sda t = true)
    (hrise : E.sda (E.rise false t) = true) (hfinish : E.sda (E.finish t) = true)
    {Q : Watch τ → Prop} (hQ : Q (resting (E.finish t))) :
    Stopping strict E.toSlave Q w := by
  have hsteady : E.Steady strict t (E.rise (E.level (.master false) t) t) :=
    Or.inl (hrise.trans hsda.symm)
  refine h.clocked (fun _ _ => hsda) hsteady ?_
  intro w' hhigh
  obtain ⟨hstate, hscl, -, hseen⟩ := hhigh
  have hlines : w'.seen = ⟨false, true⟩ := by
    have hseen' : w'.seen.sda = false := by
      rcases hseen with hlow | ⟨-, -, hlow⟩
      · exact hlow
      · exact hlow
    cases hw : w'.seen
    simp_all
  have hstop : E.toSlave.high true w' = resting (E.finish t) := by
    rw [watch_stop hlines (by rw [hstate]; exact hrise), hstate]
    rfl
  rw [hstop]
  exact ⟨resting_resting hfinish, hQ⟩

theorem resting_idle {t : τ} (hsda : E.sda t = true) (hstart : E.sda (E.start t) = true)
    {K : Watch τ → Prop}
    (hK : ∀ w, LowAt (E.begin t) w → w.hold = E.stretch (E.begin t) → K w) :
    Idle E.toSlave K (resting t) := by
  intro n k
  rw [high_resting hsda]
  have hhigh : HighAt E false (E.start t) ((E.toSlave.high false)^[k + 1] (resting t)) := by
    induction k with
    | zero =>
        rw [Function.iterate_succ_apply', Function.iterate_zero_apply, watch_start rfl]
        exact ⟨rfl, rfl, rfl, Or.inl rfl⟩
    | succ k ih =>
        rw [Function.iterate_succ_apply']
        exact ih.high
  refine ⟨?_, hhigh.scl, hK _ (hhigh.fall false) ?_⟩
  · rw [← hstart]
    exact congrArg E.sda hhigh.1
  · rw [watch_fall hhigh.2.1, hhigh.1]
    rfl

theorem resting_transaction {slots : List Slot} {t : τ}
    (h : E.FollowsTransaction strict slots t) {Q : List Bool → Watch τ → Prop}
    (hQ : Q (E.answers slots (E.begin t))
      (resting (E.finish (E.after slots (E.begin t))))) :
    Transaction strict E.toSlave slots Q (resting t) := by
  obtain ⟨hsda, hstart, hfollows, hquiet, hrise, hfinish⟩ := h
  refine resting_idle hsda hstart ?_
  intro w hw _
  refine hw.session hfollows ?_
  intro w' hw'
  exact hw'.stopping hquiet hrise hfinish hQ

theorem resting_conversation {css : List (List Slot)} {t : τ}
    (h : E.FollowsConversation strict css t) {Q : List (List Bool) → Watch τ → Prop}
    (hQ : Q (E.conversationAnswers css t) (resting (E.afterConversation css t))) :
    Conversation strict E.toSlave css Q (resting t) := by
  induction css generalizing t Q with
  | nil => exact hQ
  | cons slots css ih =>
      refine resting_transaction h.1 ?_
      exact ih h.2 hQ

end NesMiniAdapter.EventDriven
