import NesMiniAdapter.BitBang
import NesMiniAdapter.UsiConversation

/-!
The two drivers are interchangeable at the bus: against the same slave the same
calls give the same events and the same answers.
-/

namespace NesMiniAdapter.DriverEquivalence

open NesMiniAdapter.ByteBits
open NesMiniAdapter.FuelledProgram
open NesMiniAdapter.OpenDrainBus
open NesMiniAdapter.Attiny85
open NesMiniAdapter.BoardPhases
open NesMiniAdapter.EventDriven
open NesMiniAdapter.I2cTransaction
open NesMiniAdapter.I2cConversation
open NesMiniAdapter.UsiTransfer
open NesMiniAdapter.UsiConversation
open NesMiniAdapter.BitBang

/-- What two drivers may return for one call: `i2c_read_byte` the same byte,
`i2c_write_byte` the same acknowledge in bit 0. -/
def Agree : Call → BitVec 8 → BitVec 8 → Prop
  | .write _, r, r' => r.getLsbD 0 = r'.getLsbD 0
  | .read _, r, r' => r = r'

def AgreeAll : List Call → List (BitVec 8) → List (BitVec 8) → Prop
  | [], [], [] => True
  | c :: cs, r :: rs, r' :: rs' => Agree c r r' ∧ AgreeAll cs rs rs'
  | _, _, _ => False

def AgreeLists : List (List Call) → List (List (BitVec 8)) → List (List (BitVec 8)) → Prop
  | [], [], [] => True
  | cs :: rest, rs :: others, rs' :: others' => AgreeAll cs rs rs' ∧ AgreeLists rest others others'
  | _, _, _ => False

theorem agree_of_bits {c : Call} {r r' : BitVec 8} (h : c.bits r = c.bits r') :
    Agree c r r' := by
  cases c with
  | write data =>
      change r.getLsbD 0 = r'.getLsbD 0
      simpa [Call.bits] using h
  | read nack =>
      apply eq_of_bits
      simpa [Call.bits] using h

theorem agreeAll_of_levels {P P' : Call → BitVec 8 → Prop} {cs : List Call}
    {rs rs' : List (BitVec 8)} (hrs : Results P cs rs) (hrs' : Results P' cs rs')
    (h : levelsOf cs rs = levelsOf cs rs') : AgreeAll cs rs rs' := by
  induction cs generalizing rs rs' with
  | nil =>
      cases rs with
      | cons r rs => exact hrs.elim
      | nil =>
          cases rs' with
          | cons r' rs' => exact hrs'.elim
          | nil => trivial
  | cons c cs ih =>
      cases rs with
      | nil => exact hrs.elim
      | cons r rs =>
          cases rs' with
          | nil => exact hrs'.elim
          | cons r' rs' =>
              have hlength : (c.bits r).length = (c.bits r').length := by
                rw [← c.length_slots, ← c.length_slots]
              obtain ⟨hbits, hlevels⟩ := List.append_inj h hlength
              exact ⟨agree_of_bits hbits, ih hrs.2 hrs'.2 hlevels⟩

theorem agreeLists_of_levels {P P' : Call → BitVec 8 → Prop} {css : List (List Call)}
    {rss rss' : List (List (BitVec 8))} (hrss : ResultLists P css rss)
    (hrss' : ResultLists P' css rss')
    (h : css.zipWith levelsOf rss = css.zipWith levelsOf rss') :
    AgreeLists css rss rss' ∧ conversationEvents css rss = conversationEvents css rss' := by
  induction css generalizing rss rss' with
  | nil =>
      cases rss with
      | cons rs rss => exact hrss.elim
      | nil =>
          cases rss' with
          | cons rs' rss' => exact hrss'.elim
          | nil => exact ⟨trivial, rfl⟩
  | cons cs css ih =>
      cases rss with
      | nil => exact hrss.elim
      | cons rs rss =>
          cases rss' with
          | nil => exact hrss'.elim
          | cons rs' rss' =>
              simp only [List.zipWith_cons_cons, List.cons.injEq] at h
              obtain ⟨hagree, hevents⟩ := ih hrss.2 hrss'.2 h.2
              refine ⟨⟨agreeAll_of_levels hrss.1 hrss'.1 h.1, hagree⟩, ?_⟩
              simp only [conversationEvents, transactionEvents]
              rw [h.1, hevents]

section EventSlave

variable {τ : Type} {E : EventSlave τ} {css : List (List Call)} {t : τ} {b : Board (Watch τ)}

theorem conversation_ends {driver : I2cDriver (Board (Watch τ))} {Valid : Call → Prop}
    {Result : Call → BitVec 8 → Prop} {Rest Begun Ready : Mcu → Prop}
    (hd : SpeaksI2c True E.toSlave driver Valid Result Rest Begun Ready)
    (hvalid : ∀ cs ∈ css, ∀ c ∈ cs, Valid c) (hne : ∀ cs ∈ css, cs ≠ [])
    (hE : E.FollowsConversation True (css.map slotsOf) t) (hsda : E.sda t = true)
    (hm : Rest b.mcu) (hlines : b.lines = ⟨true, true⟩) (hslave : b.slave = resting t) :
    Ends (driver.transactions css) b fun rss b' => ResultLists Result css rss ∧
      css.zipWith levelsOf rss = E.conversationAnswers (css.map slotsOf) t ∧
      b'.trace = b.trace ++ conversationEvents css rss := by
  have hrest : AtRest E.toSlave (Conversation True E.toSlave (css.map slotsOf)
      fun bits _ => bits = E.conversationAnswers (css.map slotsOf) t) b :=
    ⟨hlines, resting t, 0, resting_resting hsda, resting_conversation hE rfl, hslave⟩
  refine (hd.transactions_ends hvalid hne hrest hm).mono ?_
  rintro rss b' ⟨hrss, ⟨-, s, n, -, hlevels, -⟩, -, htrace⟩
  exact ⟨hrss, hlevels, htrace trivial⟩

theorem conversations_agree {b' : Board (Watch τ)} {ddrb portb : BitVec 8}
    (hvalid : ∀ cs ∈ css, ∀ c ∈ cs, Answered c) (hne : ∀ cs ∈ css, cs ≠ [])
    (hE : E.FollowsConversation True (css.map slotsOf) t) (hsda : E.sda t = true)
    (hm : Released b.mcu) (hlines : b.lines = ⟨true, true⟩) (hslave : b.slave = resting t)
    (hm' : b'.mcu = initMcu ddrb portb) (hlines' : b'.lines = ⟨true, true⟩)
    (hslave' : b'.slave = resting t) :
    ∃ events rss rss', AgreeLists css rss rss' ∧
      Ends ((bitBangDriver E.toSlave).transactions css) b
        (fun r c => r = rss ∧ c.trace = b.trace ++ events) ∧
      Ends ((usiDriver E.toSlave).transactions css) b'
        (fun r c => r = rss' ∧ c.trace = b'.trace ++ events) := by
  have hrested : Rested b'.mcu := by
    rw [hm']
    exact initMcu_rested ddrb portb
  obtain ⟨rss, c, ⟨hrss, hlevels, htrace⟩, hrun⟩ :=
    conversation_ends bitBang_speaks hvalid hne hE hsda hm hlines hslave
  obtain ⟨rss', c', ⟨hrss', hlevels', htrace'⟩, hrun'⟩ :=
    conversation_ends usi_speaks (fun _ _ _ _ => trivial) hne hE hsda hrested hlines' hslave'
  obtain ⟨hagree, hevents⟩ := agreeLists_of_levels hrss hrss' (hlevels.trans hlevels'.symm)
  refine ⟨conversationEvents css rss, rss, rss', hagree, ?_, ?_⟩
  · exact ⟨rss, c, ⟨rfl, htrace⟩, hrun⟩
  · exact ⟨rss', c', ⟨rfl, by rw [htrace', hevents]⟩, hrun'⟩

end EventSlave

section Responder

/-- The bus as a slave sees it: START, STOP and SDA at each rising edge of SCL. -/
inductive BusEvent where
  | start
  | stop
  | bit (sda : Bool)
  deriving DecidableEq, Repr

/-- A slave that is a function of the bus events so far: the level it leaves on
SDA in the next slot, and the samples for which it holds SCL before that. -/
structure Responder where
  level : List BusEvent → Bool
  hold : List BusEvent → Nat

namespace Responder

/-- SDA changes when SCL falls, and is released at START and STOP. -/
def toEventSlave (A : Responder) : EventSlave (List BusEvent × Bool) where
  sda s := s.2
  stretch s := A.hold s.1
  start s := (s.1 ++ [.start], true)
  stop s := (s.1 ++ [.stop], true)
  rise v s := (s.1 ++ [.bit v], s.2)
  fall s := (s.1, A.level s.1)

/-- In the slots that follow a history, the slave drives SDA in its own only. -/
def OwnSlots (A : Responder) : List Slot → List BusEvent → Prop
  | [], _ => True
  | slot :: slots, past =>
      (∀ bit, slot = .master bit → A.level past = true) ∧
        OwnSlots A slots (past ++ [.bit (slot.level && A.level past)])

def pastSlots (A : Responder) : List Slot → List BusEvent → List BusEvent
  | [], past => past
  | slot :: slots, past => pastSlots A slots (past ++ [.bit (slot.level && A.level past)])

/-- The same over transactions; STOP takes a slot of the master. -/
def OwnTransactions (A : Responder) : List (List Slot) → List BusEvent → Prop
  | [], _ => True
  | slots :: rest, past =>
      A.OwnSlots (slots ++ [.master false]) (past ++ [.start]) ∧
        OwnTransactions A rest
          (A.pastSlots (slots ++ [.master false]) (past ++ [.start]) ++ [.stop])

variable {A : Responder}

theorem ownSlots_follows {slots : List Slot} {past : List BusEvent}
    (h : A.OwnSlots (slots ++ [.master false]) past) :
    A.toEventSlave.Follows True slots (past, A.level past) ∧
      A.toEventSlave.after slots (past, A.level past) =
        (A.pastSlots slots past, A.level (A.pastSlots slots past)) ∧
      A.level (A.pastSlots slots past) = true := by
  induction slots generalizing past with
  | nil => exact ⟨trivial, rfl, h.1 false rfl⟩
  | cons slot slots ih =>
      obtain ⟨hfollows, hafter, hquiet⟩ := ih h.2
      exact ⟨⟨h.1, Or.inl rfl, hfollows⟩, hafter, hquiet⟩

theorem pastSlots_append (slots slots' : List Slot) (past : List BusEvent) :
    A.pastSlots (slots ++ slots') past = A.pastSlots slots' (A.pastSlots slots past) := by
  induction slots generalizing past with
  | nil => rfl
  | cons slot slots ih => exact ih _

theorem ownTransactions_follows {css : List (List Slot)} {past : List BusEvent}
    (h : A.OwnTransactions css past) :
    A.toEventSlave.FollowsConversation True css (past, true) := by
  induction css generalizing past with
  | nil => trivial
  | cons slots css ih =>
      obtain ⟨hfollows, hafter, hquiet⟩ := ownSlots_follows h.1
      have hfinish : A.toEventSlave.finish
          (A.toEventSlave.after slots (A.toEventSlave.begin (past, true))) =
          (A.pastSlots (slots ++ [.master false]) (past ++ [.start]) ++ [.stop], true) := by
        change A.toEventSlave.finish
          (A.toEventSlave.after slots (past ++ [.start], A.level (past ++ [.start]))) = _
        rw [hafter, pastSlots_append]
        rfl
      refine ⟨⟨rfl, rfl, hfollows, ?_, ?_, ?_⟩, ?_⟩
      · change (A.toEventSlave.after slots (past ++ [.start], A.level (past ++ [.start]))).2 = true
        rw [hafter]
        exact hquiet
      · change (A.toEventSlave.after slots (past ++ [.start], A.level (past ++ [.start]))).2 = true
        rw [hafter]
        exact hquiet
      · rfl
      · rw [hfinish]
        exact ih h.2

end Responder

/-- The two drivers are interchangeable at the bus: for the same transactions and
the same slave, in whatever history it is, they put the same events on the lines
and return the same bytes and acknowledges. -/
theorem drivers_interchangeable {A : Responder} {css : List (List Call)}
    {past : List BusEvent} {b b' : Board (Watch (List BusEvent × Bool))}
    {ddrb portb : BitVec 8} (hvalid : ∀ cs ∈ css, ∀ c ∈ cs, Answered c)
    (hne : ∀ cs ∈ css, cs ≠ []) (hA : A.OwnTransactions (css.map slotsOf) past)
    (hm : Released b.mcu) (hlines : b.lines = ⟨true, true⟩)
    (hslave : b.slave = resting (past, true))
    (hm' : b'.mcu = initMcu ddrb portb) (hlines' : b'.lines = ⟨true, true⟩)
    (hslave' : b'.slave = resting (past, true)) :
    ∃ events rss rss', AgreeLists css rss rss' ∧
      Ends ((bitBangDriver A.toEventSlave.toSlave).transactions css) b
        (fun r c => r = rss ∧ c.trace = b.trace ++ events) ∧
      Ends ((usiDriver A.toEventSlave.toSlave).transactions css) b'
        (fun r c => r = rss' ∧ c.trace = b'.trace ++ events) :=
  conversations_agree hvalid hne (Responder.ownTransactions_follows hA) rfl hm hlines hslave hm'
    hlines' hslave'

/-- After the pulse of `i2c_init` it acknowledges the first byte, sends a zero for bit 5 of
the next one, and holds SCL longer and longer. -/
def slowResponder : Responder where
  level past := past.length != 12 && past.length != 15
  hold past := past.length - 3

theorem drivers_interchangeable_slow :
    ∃ events rss rss', AgreeLists [[.write 0xA4#8, .read 0xFF#8]] rss rss' ∧
      Ends ((bitBangDriver slowResponder.toEventSlave.toSlave).transactions
          [[.write 0xA4#8, .read 0xFF#8]])
        (poweredBoard (resting ([.start, .bit false, .stop], true)))
        (fun r c => r = rss ∧ c.trace = [] ++ events) ∧
      Ends (do
          (usiDriver slowResponder.toEventSlave.toSlave).i2cInit
          (usiDriver slowResponder.toEventSlave.toSlave).transactions
            [[.write 0xA4#8, .read 0xFF#8]])
        (poweredBoard (resting ([], true)))
        (fun r c => r = rss' ∧ c.trace = transactionEvents [] [] ++ events) := by
  have hown : slowResponder.OwnTransactions ([[.write 0xA4#8, .read 0xFF#8]].map slotsOf)
      [.start, .bit false, .stop] := by
    simp [slotsOf, Call.slots, writeSlots, readSlots, bitsOf, Responder.OwnTransactions,
      Responder.OwnSlots, slowResponder, List.replicate]
  obtain ⟨_, b, ⟨hlines, hslave, hmcu, htrace⟩, hrun⟩ :=
    i2cInit_resting (E := slowResponder.toEventSlave) (t := ([], true))
      (b := poweredBoard (resting ([], true))) rfl rfl (poweredBoard_gpio _) rfl rfl rfl rfl rfl rfl
      rfl
  obtain ⟨events, rss, rss', hagree, hbitBang, husi⟩ :=
    drivers_interchangeable (by simp [Answered]) (by simp) hown
      ⟨false, false, poweredBoard_gpio _⟩ rfl rfl hmcu hlines hslave
  rw [htrace] at husi
  exact ⟨events, rss, rss', hagree, hbitBang, ends_bind ⟨_, b, husi, hrun⟩⟩

end Responder

end NesMiniAdapter.DriverEquivalence
