import NesMiniAdapter.ByteDriven
import NesMiniAdapter.NesMiniController
import NesMiniAdapter.UsiConversation

/-!
The platform of `main.c`, and what a transaction does on it when the slave is
one of bus events.
-/

namespace NesMiniAdapter.UsiPlatform

open NesMiniAdapter.ByteBits
open NesMiniAdapter.FuelledProgram
open NesMiniAdapter.OpenDrainBus
open NesMiniAdapter.Attiny85
open NesMiniAdapter.BoardPhases
open NesMiniAdapter.EventDriven
open NesMiniAdapter.GpioPins
open NesMiniAdapter.ByteDriven
open NesMiniAdapter.I2cTransaction
open NesMiniAdapter.UsiTransfer
open NesMiniAdapter.UsiConversation
open NesMiniAdapter.NesMiniController

/-- The microcontroller with `i2c_primary.c`. -/
def usiPlatform {σ : Type} (S : Slave σ) : Platform (Board σ) where
  toI2cDriver := usiDriver S
  ddrbOr := ddrbOr S
  portbOr := portbOr S
  portbAnd := portbAnd S
  delayMs := delayMs S

variable {τ : Type} {E : EventSlave τ} {strict : Prop} {t : τ}

/-- A call that returns `r` takes the slave from `t` to `t'`. -/
structure Performs (strict : Prop) (E : EventSlave τ) (c : Call) (t : τ) (r : BitVec 8)
    (t' : τ) : Prop where
  runs : Runs strict E c.slots t (c.bits r) t'
  result : UsiResult c r

def PerformsAll (strict : Prop) (E : EventSlave τ) : List Call → τ → List (BitVec 8) → τ → Prop
  | [], t, [], t' => t' = t
  | c :: cs, t, r :: rs, t' =>
      ∃ t₁, Performs strict E c t r t₁ ∧ PerformsAll strict E cs t₁ rs t'
  | _, _, _, _ => False

/-- A transaction whose calls return `rs` takes the slave from `t` to `t'`. -/
structure Transacts (strict : Prop) (E : EventSlave τ) (cs : List Call) (t : τ)
    (rs : List (BitVec 8)) (t' : τ) : Prop where
  idle : E.sda t = true
  start : E.sda (E.start t) = true
  calls : ∃ t₁, PerformsAll strict E cs (E.begin t) rs t₁ ∧ E.sda t₁ = true ∧
    E.sda (E.rise false t₁) = true ∧ E.finish t₁ = t'
  stop : E.sda t' = true

theorem Performs.cons {c : Call} {cs : List Call} {t₁ t' : τ} {r : BitVec 8}
    {rs : List (BitVec 8)} (h : Performs strict E c t r t₁)
    (h' : PerformsAll strict E cs t₁ rs t') : PerformsAll strict E (c :: cs) t (r :: rs) t' :=
  ⟨t₁, h, h'⟩

theorem PerformsAll.runs {cs : List Call} {rs : List (BitVec 8)} {t' : τ}
    (h : PerformsAll strict E cs t rs t') :
    Runs strict E (slotsOf cs) t (levelsOf cs rs) t' ∧ Results UsiResult cs rs := by
  induction cs generalizing t rs with
  | nil =>
      cases rs with
      | nil => exact ⟨⟨trivial, rfl, h.symm⟩, trivial⟩
      | cons r rs => exact h.elim
  | cons c cs ih =>
      cases rs with
      | nil => exact h.elim
      | cons r rs =>
          obtain ⟨t₁, hcall, hcalls⟩ := h
          obtain ⟨hruns, hresults⟩ := ih hcalls
          exact ⟨hcall.runs.append hruns, hcall.result, hresults⟩

theorem PerformsAll.length {cs : List Call} {rs : List (BitVec 8)} {t' : τ}
    (h : PerformsAll strict E cs t rs t') : rs.length = cs.length := by
  induction cs generalizing t rs with
  | nil =>
      cases rs with
      | nil => rfl
      | cons r rs => exact h.elim
  | cons c cs ih =>
      cases rs with
      | nil => exact h.elim
      | cons r rs =>
          obtain ⟨t₁, -, hcalls⟩ := h
          simp [ih hcalls]

theorem results_unique {cs : List Call} {rs rs' : List (BitVec 8)}
    (h : Results UsiResult cs rs) (h' : Results UsiResult cs rs')
    (hlevels : levelsOf cs rs = levelsOf cs rs') : rs = rs' := by
  induction cs generalizing rs rs' with
  | nil =>
      cases rs with
      | cons r rs => exact h.elim
      | nil =>
          cases rs' with
          | cons r' rs' => exact h'.elim
          | nil => rfl
  | cons c cs ih =>
      cases rs with
      | nil => exact h.elim
      | cons r rs =>
          cases rs' with
          | nil => exact h'.elim
          | cons r' rs' =>
              have hlength : (c.bits r).length = (c.bits r').length := by
                rw [← c.length_slots, ← c.length_slots]
              obtain ⟨hbits, hrest⟩ := List.append_inj hlevels hlength
              rw [ih h.2 h'.2 hrest]
              congr 1
              cases c with
              | read nack => exact eq_of_bits (List.append_inj_left hbits (by simp))
              | write data =>
                  have hack : r.getLsbD 0 = r'.getLsbD 0 := by simpa [Call.bits] using hbits
                  rcases h.1 with rfl | rfl <;> rcases h'.1 with rfl | rfl <;> simp_all

/-- The bus is idle, the driver at rest and the slave in state `t`. -/
structure Rests (E : EventSlave τ) (t : τ) (b : Board (Watch τ)) : Prop where
  lines : b.lines = ⟨true, true⟩
  slave : b.slave = resting t
  mcu : Rested b.mcu

section Rules

variable {b : Board (Watch τ)}

theorem Rests.atRest (h : Rests E t b) (hsda : E.sda t = true) {Q : Watch τ → Prop}
    (hQ : Q (resting t)) : AtRest E.toSlave Q b :=
  ⟨h.lines, resting t, 0, resting_resting hsda, hQ, h.slave⟩

theorem rests_of_atRest (h : AtRest E.toSlave (· = resting t) b) (hsda : E.sda t = true)
    (hm : Rested b.mcu) : Rests E t b := by
  obtain ⟨hlines, s, n, -, rfl, hslave⟩ := h
  rw [high_resting hsda] at hslave
  exact ⟨hlines, hslave, hm⟩

theorem transaction_ends {cs : List Call} {rs : List (BitVec 8)} {t' : τ}
    (htransacts : Transacts strict E cs t rs t') (hne : cs ≠ []) (h : Rests E t b) :
    Ends ((usiPlatform E.toSlave).transaction cs) b fun rs' b' => rs' = rs ∧ Rests E t' b' := by
  obtain ⟨hidle, hstart, ⟨t₁, hcalls, hsda, hrise, hfinish⟩, hstop⟩ := htransacts
  obtain ⟨⟨hfollows, hanswers, hafter⟩, hresults⟩ := hcalls.runs
  have hall : E.FollowsTransaction strict (slotsOf cs) t := by
    rw [EventSlave.FollowsTransaction, hafter, hfinish]
    exact ⟨hidle, hstart, hfollows, hsda, hrise, hstop⟩
  have htransaction : Transaction strict E.toSlave (slotsOf cs)
      (fun bits s => bits = levelsOf cs rs ∧ s = resting t') (resting t) := by
    refine resting_transaction hall ⟨hanswers, ?_⟩
    rw [hafter, hfinish]
  refine (usi_speaks.transaction_ends (fun _ _ => trivial) hne
    (h.atRest hidle htransaction) h.mcu).mono ?_
  rintro rs' b' ⟨hresults', ⟨hlines, s, n, -, ⟨hlevels, rfl⟩, hslave⟩, hm, -⟩
  refine ⟨results_unique hresults' hresults hlevels, hlines, ?_, hm⟩
  rw [hslave, high_resting hstop]

theorem delayUs_ends (h : Rests E t b) (hsda : E.sda t = true) (n : Nat) :
    Ends (delayUs E.toSlave n) b fun _ b' => Rests E t b' := by
  refine (h.atRest hsda (Q := (· = resting t)) rfl).delay_ends
    (steadied_of_usicr h.mcu.pins.usicr).symm h.mcu.sclOut h.mcu.sdaOut ?_
  intro b' hrest hmcu htrace
  exact rests_of_atRest hrest hsda (by rw [hmcu]; exact h.mcu)

theorem delayMs_ends (h : Rests E t b) (hsda : E.sda t = true) (n : Nat) :
    Ends ((usiPlatform E.toSlave).delayMs n) b fun _ b' => Rests E t b' :=
  delayUs_ends h hsda (1000 * n)

theorem portb_ends (h : Rests E t b) (hsda : E.sda t = true) {f : BitVec 8 → BitVec 8}
    (hf : ∀ i, i = pb0 ∨ i = pb2 → (f b.mcu.portb).getLsbD i = b.mcu.portb.getLsbD i) :
    Ends (modify (Board.access E.toSlave fun m => { m with portb := f m.portb }) :
      Program (Board (Watch τ)) Unit) b fun _ b' => Rests E t b' := by
  have hm : Rested { b.mcu with portb := f b.mcu.portb } := by
    obtain ⟨⟨h₁, h₂, h₃, h₄, h₅⟩, h₆, h₇, h₈, h₉⟩ := h.mcu
    refine ⟨⟨h₁, h₂, h₃, ?_, ?_⟩, h₆, h₇, h₈, h₉⟩
    · rw [← h₄]
      exact hf pb0 (Or.inl rfl)
    · rw [← h₅]
      exact hf pb2 (Or.inr rfl)
  refine Rested.write_ends (h.atRest hsda (Q := (· = resting t)) rfl) hm ?_
  intro b' hrest hm' htrace
  exact rests_of_atRest hrest hsda hm'

theorem ledOn_ends (h : Rests E t b) (hsda : E.sda t = true) :
    Ends ((usiPlatform E.toSlave).portbOr (bv ledPin)) b fun _ b' => Rests E t b' := by
  refine portb_ends h hsda (f := fun v => v ||| bv ledPin) ?_
  rintro i (rfl | rfl)
  · rw [getLsbD_or_bv _ _ (by decide)]
    simp
  · rw [getLsbD_or_bv _ _ (by decide)]
    simp [ledPin, pb2]

theorem ledOff_ends (h : Rests E t b) (hsda : E.sda t = true) :
    Ends ((usiPlatform E.toSlave).portbAnd (~~~bv ledPin)) b fun _ b' => Rests E t b' := by
  refine portb_ends h hsda (f := fun v => v &&& ~~~bv ledPin) ?_
  rintro i (rfl | rfl)
  · rw [getLsbD_and_not_bv _ _ (by decide)]
    simp
  · rw [getLsbD_and_not_bv _ _ (by decide)]
    simp [ledPin, pb2]

end Rules

section Loop

variable {b : Board (Watch τ)} {state : SnesControllerState}

theorem showButtons_ends (h : Rests E t b) (hsda : E.sda t = true) :
    Ends (showButtons (usiPlatform E.toSlave) state) b fun _ b' => Rests E t b' := by
  unfold showButtons
  by_cases hconnected : state.connected ≠ 0#8
  · rw [if_pos hconnected]
    by_cases hbuttons : state.buttons ≠ 0#16
    · rw [if_pos hbuttons]
      exact ledOn_ends h hsda
    · rw [if_neg hbuttons]
      exact ledOff_ends h hsda
  · rw [if_neg hconnected]
    exact ends_pure h

/-- A poll is one of the two functions of the controller driver. -/
theorem poll_ends {Q : SnesControllerState → τ → Prop} (h : Rests E t b)
    (hsda : E.sda t = true)
    (hconnect : state.connected = 0#8 → ∀ b₁, Rests E t b₁ →
      Ends (snesConnect (usiPlatform E.toSlave) state) b₁ fun after b' =>
        ∃ t', Rests E t' b' ∧ E.sda t' = true ∧ Q after t')
    (hget : state.connected ≠ 0#8 →
      Ends (snesGetState (usiPlatform E.toSlave) state) b fun after b' =>
        ∃ t', Rests E t' b' ∧ E.sda t' = true ∧ Q after t') :
    Ends (poll (usiPlatform E.toSlave) state) b fun after b' =>
      ∃ t', Rests E t' b' ∧ E.sda t' = true ∧ Q after t' := by
  unfold poll
  by_cases hconnected : state.connected = 0#8
  · rw [if_neg (not_not_intro hconnected)]
    refine ends_bind ((ledOn_ends h hsda).mono ?_)
    intro _ b₁ hrests₁
    refine ends_bind ((hconnect hconnected b₁ hrests₁).mono ?_)
    rintro after b₂ ⟨t', hrests₂, hsda', hQ⟩
    refine ends_bind ?_
    by_cases hafter : after.connected ≠ 0#8
    · rw [if_pos hafter]
      refine (ledOff_ends hrests₂ hsda').mono ?_
      intro _ b₃ hrests₃
      exact ends_pure ⟨t', hrests₃, hsda', hQ⟩
    · rw [if_neg hafter]
      exact ends_pure (ends_pure ⟨t', hrests₂, hsda', hQ⟩)
  · rw [if_pos hconnected]
    exact hget hconnected

/-- A round in which the slave goes from `t₁`, after `usb`, to `t'`. -/
structure Spans (E : EventSlave τ) (round : Iteration (Board (Watch τ))) (t₁ t' : τ) :
    Prop where
  start : Rests E t₁ round.start
  finish : Rests E t' round.finish
  sda : E.sda t' = true

/-- A round either does not send, and changes nothing, or sends what a poll left. -/
theorem iteration_ends {usb : Program (Board (Watch τ)) Bool} {U : Bool → τ → Prop}
    {Q : τ → SnesControllerState → τ → Prop}
    (husb : Ends usb b fun ready b₁ => ∃ t₁, Rests E t₁ b₁ ∧ E.sda t₁ = true ∧ U ready t₁)
    (hpoll : ∀ t₁ b₁, Rests E t₁ b₁ → E.sda t₁ = true → U true t₁ →
      Ends (poll (usiPlatform E.toSlave) state) b₁ fun after b' =>
        ∃ t', Rests E t' b' ∧ E.sda t' = true ∧ Q t₁ after t') :
    Ends (iteration (usiPlatform E.toSlave) usb state) b fun round b' =>
      ∃ t₁ t', Spans E round t₁ t' ∧ round.finish = b' ∧ round.before = state ∧
        (U false t₁ ∧ round.after = state ∧ t' = t₁ ∧ round.report = none ∨
          U true t₁ ∧ Q t₁ round.after t' ∧
            round.report = some (snesSetReportButtons round.after)) := by
  refine ends_bind (husb.mono ?_)
  rintro ready b₁ ⟨t₁, hrests₁, hsda₁, hU⟩
  refine ends_bind (ends_get ?_)
  refine ends_bind ?_
  cases ready with
  | false =>
      refine ends_pure ?_
      refine ends_bind ((showButtons_ends hrests₁ hsda₁).mono ?_)
      intro _ b₂ hrests₂
      refine ends_bind (ends_get ?_)
      exact ends_pure ⟨t₁, t₁, ⟨hrests₁, hrests₂, hsda₁⟩, rfl, rfl, Or.inl ⟨hU, rfl, rfl, rfl⟩⟩
  | true =>
      refine ends_bind ((hpoll t₁ b₁ hrests₁ hsda₁ hU).mono ?_)
      rintro after b₂ ⟨t', hrests₂, hsda', hQ⟩
      refine ends_pure ?_
      refine ends_bind ((showButtons_ends hrests₂ hsda').mono ?_)
      intro _ b₃ hrests₃
      refine ends_bind (ends_get ?_)
      exact ends_pure ⟨t₁, t', ⟨hrests₁, hrests₃, hsda'⟩, rfl, rfl, Or.inr ⟨hU, hQ, rfl⟩⟩

end Loop

section Bytes

variable {ρ : Type} {B : ByteSlave ρ} {hold : Nat → Nat} {bytes bytes' : ρ} {n : Nat}

/-- What `i2c_write_byte` returns. -/
def ackResult (ack : Bool) : BitVec 8 := if ack then 0xFE#8 else 0xFF#8

theorem performs_write {first ack : Bool} {data : BitVec 8}
    (h : B.accept first data bytes = (ack, bytes')) :
    Performs strict (B.toEventSlave hold) (.write data) ⟨bytes, .receive first [], n⟩
      (ackResult ack) ⟨bytes', B.next first data ack bytes', n + 9⟩ := by
  have hack : (ackResult ack).getLsbD 0 = !ack := by cases ack <;> rfl
  refine ⟨?_, ?_⟩
  · rw [Call.bits, hack]
    exact runs_write h
  · cases ack
    · exact Or.inr rfl
    · exact Or.inl rfl

theorem performs_read (nack : BitVec 8) :
    Performs strict (B.toEventSlave hold) (.read nack)
      ⟨bytes, .send (bitsOf (B.give bytes)), n⟩ (B.give bytes)
      ⟨B.gave bytes,
        if nack.getLsbD 7 then .idle else .send (bitsOf (B.give (B.gave bytes))), n + 9⟩ :=
  ⟨runs_read, trivial⟩

theorem performs_idle (c : Call) :
    Performs strict (B.toEventSlave hold) c ⟨bytes, .idle, n⟩ 0xFF#8 ⟨bytes, .idle, n + 9⟩ := by
  cases c with
  | write data => exact ⟨runs_idle _, Or.inr rfl⟩
  | read nack => exact ⟨runs_idle _, trivial⟩

theorem performsAll_idle (cs : List Call) :
    ∃ n', PerformsAll strict (B.toEventSlave hold) cs ⟨bytes, .idle, n⟩
      (cs.map fun _ => 0xFF#8) ⟨bytes, .idle, n'⟩ := by
  induction cs generalizing n with
  | nil => exact ⟨n, rfl⟩
  | cons c cs ih =>
      obtain ⟨n', hcalls⟩ := @ih (n + 9)
      exact ⟨n', (performs_idle c).cons hcalls⟩

/-- Data for a slave that is being written to, whether it acknowledges it or not. -/
theorem performsAll_taken (datas : List (BitVec 8)) :
    ∃ rs n', PerformsAll strict (B.toEventSlave hold) (datas.map .write)
      ⟨bytes, .receive false [], n⟩ rs
      ⟨datas.foldl (fun bytes data => (B.take data bytes).2) bytes, .receive false [], n'⟩ := by
  induction datas generalizing bytes n with
  | nil => exact ⟨[], n, rfl⟩
  | cons data datas ih =>
      obtain ⟨rs, n', hcalls⟩ := @ih (B.take data bytes).2 (n + 9)
      have hcall : Performs strict (B.toEventSlave hold) (.write data)
          ⟨bytes, .receive false [], n⟩ (ackResult (B.take data bytes).1)
          ⟨(B.take data bytes).2, .receive false [], n + 9⟩ := performs_write rfl
      exact ⟨_, n', hcall.cons hcalls⟩

/-- A transaction with a slave of bytes, given what it does after START. -/
theorem transacts_of_performs {cs : List Call} {rs : List (BitVec 8)} {phase phase' : Phase}
    {n' : Nat} (hidle : phase.sda = true)
    (hcalls : PerformsAll strict (B.toEventSlave hold) cs ⟨bytes, .receive true [], n + 1⟩ rs
      ⟨bytes', phase', n'⟩) (hsda : phase'.sda = true) :
    Transacts strict (B.toEventSlave hold) cs ⟨bytes, phase, n⟩ rs ⟨bytes', .idle, n'⟩ where
  idle := hidle
  start := rfl
  calls := ⟨_, hcalls, hsda, (Phase.sda_sample false phase').trans hsda, rfl⟩
  stop := rfl

theorem transacts_write {address : BitVec 8} (haddress : address.getLsbD 0 = false)
    (datas : List (BitVec 8)) {ack : Bool} (h : B.address address bytes = (ack, bytes')) :
    ∃ rs n', Transacts strict (B.toEventSlave hold) (.write address :: datas.map .write)
      ⟨bytes, .idle, n⟩ rs
      ⟨if ack then datas.foldl (fun bytes data => (B.take data bytes).2) bytes' else bytes',
        .idle, n'⟩ := by
  have hcall : Performs strict (B.toEventSlave hold) (.write address)
      ⟨bytes, .receive true [], n + 1⟩ (ackResult ack)
      ⟨bytes', B.next true address ack bytes', n + 1 + 9⟩ := performs_write h
  cases ack with
  | false =>
      obtain ⟨n', hcalls⟩ := performsAll_idle (datas.map .write)
      exact ⟨_, n', transacts_of_performs rfl (hcall.cons hcalls) rfl⟩
  | true =>
      have hnext : B.next true address true bytes' = .receive false [] := by
        rw [ByteSlave.next, haddress]
        rfl
      rw [hnext] at hcall
      obtain ⟨rs, n', hcalls⟩ := performsAll_taken datas
      exact ⟨_, n', transacts_of_performs rfl (hcall.cons hcalls) rfl⟩

end Bytes

end NesMiniAdapter.UsiPlatform
