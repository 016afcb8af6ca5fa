import NesMiniAdapter.ReportLaw
import NesMiniAdapter.SocketCalls

/-!
The main loop over the wires, with controllers that are unplugged and plugged in
at any time and acknowledge what they like. A controller that has not been
initialised since it was plugged in sends zeros.
-/

namespace NesMiniAdapter.PlugSchedule

open NesMiniAdapter.ByteBits
open NesMiniAdapter.FuelledProgram
open NesMiniAdapter.Attiny85
open NesMiniAdapter.EventDriven
open NesMiniAdapter.ByteDriven
open NesMiniAdapter.I2cTransaction
open NesMiniAdapter.UsiConversation
open NesMiniAdapter.NesMiniController
open NesMiniAdapter.NesMiniTransactions
open NesMiniAdapter.UsiPlatform
open NesMiniAdapter.ReportLaw
open NesMiniAdapter.Socket
open NesMiniAdapter.SocketCalls

/-- A controller has acknowledged its address, to be read or written. The rest is
what it was at that time. -/
structure Note where
  read : Bool
  fresh : Bool
  refused : Bool
  initialised : Bool
  deriving DecidableEq, Repr

/-- Since it was plugged in, a controller is `fresh` until it acknowledges its
write address, `refused` while the last 0xF0 or 0x55 of an initialisation went
unacknowledged, and `initialised` once 0x55 is in register 0xF0. `count` counts
its bytes. The notes are about all the controllers so far. -/
structure Device where
  initialised : Bool
  fresh : Bool
  refused : Bool
  register : Option (BitVec 8)
  count : Nat
  notes : List Note
  deriving DecidableEq, Repr

/-- The byte asks for the initialisation, given the register it would go to. -/
def unlocks (register : Option (BitVec 8)) (byte : BitVec 8) : Bool :=
  register == some 0xF0#8 && byte == 0x55#8

/-- A controller that acknowledges the `n`-th byte if `acks n`, and once it is
initialised sends `data n`. -/
def lockedSlave (acks : Nat → Bool) (data : Nat → BitVec 8) : ByteSlave Device where
  address byte d :=
    if byte >>> 1 == 0x52#8 && acks d.count then
      (true, { d with
        fresh := d.fresh && byte.getLsbD 0
        register := none
        count := d.count + 1
        notes := d.notes ++ [⟨byte.getLsbD 0, d.fresh, d.refused, d.initialised⟩] })
    else
      (false, { d with count := d.count + 1 })
  take byte d :=
    if acks d.count then
      (true, { d with
        initialised := d.initialised || unlocks d.register byte
        refused := d.refused && !unlocks d.register byte
        register := some (d.register.elim byte (· + 1))
        count := d.count + 1 })
    else
      (false, { d with
        refused := d.refused ||
          !d.initialised && (d.register == none && byte == 0xF0#8 || unlocks d.register byte)
        count := d.count + 1 })
  give d := if d.initialised then data d.count else 0x00#8
  gave d := { d with count := d.count + 1 }

/-- Another controller, just plugged in. -/
def powerOn (t : BitState Device) : BitState Device :=
  { t with
    bytes.initialised := false
    bytes.fresh := true
    bytes.refused := false
    bytes.register := none
    phase := .idle }

section Socket

variable (acks : Nat → Bool) (data : Nat → BitVec 8) (hold : Nat → Nat) (plan : Nat → Change)

def lockedController : EventSlave (BitState Device) := (lockedSlave acks data).toEventSlave hold

def pluggable : EventSlave (Plugged (BitState Device)) :=
  socket (lockedController acks data hold) powerOn plan

end Socket

abbrev SocketBoard := Board (Watch (Plugged (BitState Device)))

/-- What the controllers acknowledged in a round. -/
def notesOf (round : Iteration SocketBoard) : List Note :=
  round.finish.slave.state.device.bytes.notes.drop
    round.start.slave.state.device.bytes.notes.length

/-- The round does not poll a controller that has not met `snes_connect`, or that
has not acknowledged its initialisation. -/
def Introduced (round : Iteration SocketBoard) : Prop :=
  round.before.connected ≠ 0#8 →
    ∀ note ∈ notesOf round, note.fresh = false ∧ note.refused = false

/-- If the report has a button, the bytes came from an initialised controller. -/
def FromInitialised (round : Iteration SocketBoard) : Prop :=
  ∀ report, round.report = some report → (∃ i, hidBit report i = true) →
    (∃ note ∈ notesOf round, note.read = true) ∧
      ∀ note ∈ notesOf round, note.initialised = true

/-- A controller that has met `snes_connect` and has acknowledged all of it is
initialised. -/
def Known (d : Device) : Prop :=
  d.fresh = false → d.refused = false → d.initialised = true

section Device

variable {acks : Nat → Bool} {data : Nat → BitVec 8} {hold : Nat → Nat} {plan : Nat → Change}

/-- Waiting for a START, and new. -/
def New (t : BitState Device) : Prop := t.phase = .idle ∧ t.bytes.fresh = true

theorem new_dormant : Dormant (lockedController acks data hold) powerOn plan New where
  sda t h := by
    change t.phase.sda = true
    rw [h.1]
    rfl
  rise bit t h := by
    refine ⟨?_, h.2⟩
    change t.phase.sample bit = .idle
    rw [h.1]
    rfl
  fall t h := by
    obtain ⟨hphase, hfresh⟩ := h
    rcases t with ⟨d, phase, n⟩
    subst hphase
    exact ⟨rfl, hfresh⟩
  stop t h := by
    obtain ⟨hphase, -⟩ := h
    rcases t with ⟨d, phase, n⟩
    subst hphase
    rfl
  insert n t _ := ⟨rfl, rfl⟩

/-- After 0xF0 and 0x55 a controller is initialised, or it has refused. -/
theorem known_of_connect {d : Device} (h : d.register = none) :
    Known ([0xF0#8, 0x55#8].foldl (fun d byte => ((lockedSlave acks data).take byte d).2) d) := by
  intro _ hrefused
  cases hack : acks d.count with
  | false =>
      cases hack' : acks (d.count + 1) <;>
        simp_all [lockedSlave, unlocks]
  | true =>
      cases hack' : acks (d.count + 1) <;>
        simp_all [lockedSlave, unlocks]

theorem address_cases (d : Device) (byte : BitVec 8) :
    (lockedSlave acks data).address byte d = (false, { d with count := d.count + 1 }) ∨
      (lockedSlave acks data).address byte d = (true, { d with
        fresh := d.fresh && byte.getLsbD 0
        register := none
        count := d.count + 1
        notes := d.notes ++ [⟨byte.getLsbD 0, d.fresh, d.refused, d.initialised⟩] }) := by
  simp only [lockedSlave]
  split_ifs
  · exact Or.inr rfl
  · exact Or.inl rfl

theorem connect_device (d : Device) (n : Nat) :
    ∃ rs d' n', Transacts True (lockedController acks data hold) connectCalls ⟨d, .idle, n⟩ rs
      ⟨d', .idle, n'⟩ ∧ (Known d → Known d') := by
  rcases address_cases d nesI2cAddressWrite with haddress | haddress
  · obtain ⟨rs, n', htransacts⟩ := transacts_write rfl [0xF0#8, 0x55#8] haddress
    exact ⟨rs, _, n', htransacts, id⟩
  · obtain ⟨rs, n', htransacts⟩ := transacts_write rfl [0xF0#8, 0x55#8] haddress
    exact ⟨rs, _, n', htransacts, fun _ => known_of_connect rfl⟩

theorem select_device (d : Device) (n : Nat) :
    ∃ rs d' n', Transacts True (lockedController acks data hold) selectCalls ⟨d, .idle, n⟩ rs
      ⟨d', .idle, n'⟩ := by
  rcases address_cases d nesI2cAddressWrite with haddress | haddress
  · obtain ⟨rs, n', htransacts⟩ := transacts_write rfl [0x00#8] haddress
    exact ⟨rs, _, n', htransacts⟩
  · obtain ⟨rs, n', htransacts⟩ := transacts_write rfl [0x00#8] haddress
    exact ⟨rs, _, n', htransacts⟩

theorem reads_device (d : Device) (n : Nat) :
    ∃ rs d' n', PerformsAll True (lockedController acks data hold) (readCalls 0 6)
      ⟨d, .send (bitsOf ((lockedSlave acks data).give d)), n⟩ rs ⟨d', .idle, n'⟩ :=
  ⟨[_, _, _, _, _, _], _, _, _, performs_read _, _, performs_read _, _, performs_read _,
    _, performs_read _, _, performs_read _, _, performs_read _, rfl⟩

/-- What no controller does to a property of its bytes, no event does. -/
theorem kept_of_bytes {Q : Bool → Device → Prop}
    (haddress : ∀ byte d, Q true d → Q true ((lockedSlave acks data).address byte d).2)
    (htake : ∀ byte d, Q true d → Q true ((lockedSlave acks data).take byte d).2)
    (hgave : ∀ d, Q true d → Q true ((lockedSlave acks data).gave d))
    (hremove : ∀ present d, Q present d → Q false d)
    (hinsert : ∀ present t, Q present t.bytes → Q true (powerOn t).bytes) :
    Kept (lockedController acks data hold) powerOn fun present t => Q present t.bytes where
  start _ h := h
  stop _ h := h
  rise _ _ h := h
  fall t h := advance_keeps haddress htake hgave h t.phase
  remove present t h := hremove present t.bytes h
  insert := hinsert

theorem take_notes (byte : BitVec 8) (d : Device) :
    ((lockedSlave acks data).take byte d).2.notes = d.notes := by
  simp only [lockedSlave]
  split_ifs
  · rfl
  · rfl

theorem notes_kept (notes : List Note) :
    Kept (lockedController acks data hold) powerOn fun _ t => notes <+: t.bytes.notes := by
  refine kept_of_bytes (Q := fun _ d => notes <+: d.notes) ?_ ?_ ?_ ?_ ?_
  · intro byte d h
    rcases address_cases d byte with haddress | haddress
    · rw [haddress]
      exact h
    · rw [haddress]
      exact h.trans (List.prefix_append _ _)
  · intro byte d h
    rw [take_notes]
    exact h
  · exact fun _ h => h
  · exact fun _ _ h => h
  · exact fun _ _ h => h

/-- The notes from number `n` on are about controllers that have met
`snes_connect` and have not refused it. -/
def Sound (n : Nat) (notes : List Note) : Prop :=
  ∀ note ∈ notes.drop n, note.fresh = false ∧ note.refused = false

/-- As long as the notes are sound, they are about initialised controllers, and so
is the one in the socket if it has met `snes_connect` and not refused it. -/
def Vouched (n : Nat) (present : Bool) (d : Device) : Prop :=
  n ≤ d.notes.length ∧ (Sound n d.notes →
    (∀ note ∈ d.notes.drop n, note.initialised = true) ∧ (present = true → Known d))

theorem known_of_take (byte : BitVec 8) {d : Device} (h : Known d) :
    Known ((lockedSlave acks data).take byte d).2 := by
  intro hfresh hrefused
  cases hack : acks d.count with
  | false =>
      simp only [lockedSlave, hack] at hfresh hrefused ⊢
      exact h hfresh (Bool.or_eq_false_iff.mp hrefused).1
  | true =>
      simp only [lockedSlave, hack, if_true] at hfresh hrefused ⊢
      cases hunlocks : unlocks d.register byte with
      | true => simp
      | false =>
          rw [hunlocks] at hrefused
          rw [h hfresh (by simpa using hrefused)]
          rfl

theorem vouched_kept (n : Nat) :
    Kept (lockedController acks data hold) powerOn
      fun present t => Vouched n present t.bytes := by
  refine kept_of_bytes ?_ ?_ ?_ ?_ ?_
  · rintro byte d ⟨hlength, h⟩
    rcases address_cases d byte with haddress | haddress
    · rw [haddress]
      exact ⟨hlength, h⟩
    · rw [haddress]
      refine ⟨by simp only [List.length_append]; omega, ?_⟩
      intro hsound
      have hdrop :
          (d.notes ++ [(⟨byte.getLsbD 0, d.fresh, d.refused, d.initialised⟩ : Note)]).drop n =
            d.notes.drop n ++ [⟨byte.getLsbD 0, d.fresh, d.refused, d.initialised⟩] :=
        List.drop_append_of_le_length hlength
      simp only [Sound, hdrop, List.mem_append, List.mem_singleton] at hsound ⊢
      obtain ⟨hfresh, hrefused⟩ := hsound _ (Or.inr rfl)
      obtain ⟨hnotes, hknown⟩ := h fun note hnote => hsound note (Or.inl hnote)
      have hinitialised : d.initialised = true := hknown rfl hfresh hrefused
      refine ⟨?_, fun _ _ _ => hinitialised⟩
      rintro note (hnote | rfl)
      · exact hnotes note hnote
      · exact hinitialised
  · rintro byte d ⟨hlength, h⟩
    unfold Vouched
    rw [take_notes]
    refine ⟨hlength, ?_⟩
    intro hsound
    exact ⟨(h hsound).1, fun _ => known_of_take byte ((h hsound).2 rfl)⟩
  · exact fun _ h => h
  · rintro present d ⟨hlength, h⟩
    refine ⟨hlength, fun hsound => ⟨(h hsound).1, fun hpresent => by cases hpresent⟩⟩
  · rintro present t ⟨hlength, h⟩
    exact ⟨hlength, fun hsound => ⟨(h hsound).1, fun _ hfresh => by cases hfresh⟩⟩

end Device

section Transactions

variable {acks : Nat → Bool} {data : Nat → BitVec 8} {hold : Nat → Nat} {plan : Nat → Change}
  {s : Plugged (BitState Device)}

/-- At START there is nobody to take part, or an idle controller: the one that was
there, or a new one. -/
theorem begin_settled (h : Settled s) :
    Out New ((pluggable acks data hold plan).begin s) ∨ ∃ d n,
      (pluggable acks data hold plan).begin s =
        ⟨(lockedController acks data hold).begin ⟨d, .idle, n⟩, true, s.events + 2⟩ ∧
      d.notes = s.device.bytes.notes ∧
      (d.fresh = true ∨ s.present = true ∧ d = s.device.bytes) := by
  have hdormant : Dormant (lockedController acks data hold) powerOn plan New := new_dormant
  rcases begin_cases hdormant s with hout | ⟨t, hbegin, hfound⟩
  · exact Or.inl hout
  · right
    rcases hfound with ⟨hpresent, rfl⟩ | ⟨-, rfl⟩
    · have hidle := h hpresent
      rcases s with ⟨⟨d, phase, n⟩, present, events⟩
      subst hidle
      exact ⟨d, n, hbegin, rfl, Or.inr ⟨hpresent, rfl⟩⟩
    · exact ⟨_, _, hbegin, rfl, Or.inl rfl⟩

theorem settled_of_out (h : Out New s) : Settled s := fun hpresent => (h hpresent).1

theorem settled_of_idle {t : BitState Device} {m : Nat} (hidle : t.phase = .idle)
    (h : s = ⟨t, true, m⟩ ∨ Out New s) : Settled s := by
  rcases h with rfl | hout
  · exact fun _ => hidle
  · exact settled_of_out hout

/-- A transaction that every controller, left in the socket, takes part in. -/
theorem transacts_socket {cs : List Call} {P : Device → Device → Prop}
    (hdevice : ∀ d n, ∃ rs d' n', Transacts True (lockedController acks data hold) cs
      ⟨d, .idle, n⟩ rs ⟨d', .idle, n'⟩ ∧ P d d') (h : Settled s) :
    ∃ rs s', Transacts False (pluggable acks data hold plan) cs s rs s' ∧ Settled s' ∧
      (s'.present = true → s'.device.bytes.fresh = true ∨
        ∃ d, P d s'.device.bytes ∧ (d.fresh = true ∨ s.present = true ∧ d = s.device.bytes)) := by
  have hstart : (pluggable acks data hold plan).sda
      ((pluggable acks data hold plan).start s) = true := sda_start (fun _ => rfl) s
  rcases begin_settled h with hout | ⟨d, n, hbegin, -, hfound⟩
  · obtain ⟨s', htransacts, hout'⟩ := transacts_out new_dormant cs (sda_of_settled h) hstart hout
    exact ⟨_, s', htransacts, settled_of_out hout', fun hpresent => Or.inl (hout' hpresent).2⟩
  · obtain ⟨rs, d', n', hd, hP⟩ := hdevice d n
    obtain ⟨rs', s', htransacts, -, hs'⟩ :=
      transacts_plugged new_dormant (sda_of_settled h) hstart hbegin hd
    refine ⟨rs', s', htransacts, settled_of_idle rfl hs', ?_⟩
    intro hpresent
    rcases hs' with hs' | hout
    · right
      rw [hs']
      exact ⟨d, hP, hfound⟩
    · exact Or.inl (hout hpresent).2

theorem connect_socket (h : Settled s) :
    ∃ rs s', Transacts False (pluggable acks data hold plan) connectCalls s rs s' ∧ Settled s' ∧
      ((s.present = true → Known s.device.bytes) →
        s'.present = true → Known s'.device.bytes) := by
  obtain ⟨rs, s', htransacts, hsettled, hs'⟩ := transacts_socket connect_device h
  refine ⟨rs, s', htransacts, hsettled, ?_⟩
  intro hknown hpresent
  rcases hs' hpresent with hfresh | ⟨d, hP, hfresh | ⟨hpresent', rfl⟩⟩
  · intro hnot
    rw [hfresh] at hnot
    cases hnot
  · refine hP ?_
    intro hnot
    rw [hfresh] at hnot
    cases hnot
  · exact hP (hknown hpresent')

theorem select_socket (h : Settled s) :
    ∃ rs s', Transacts False (pluggable acks data hold plan) selectCalls s rs s' ∧
      Settled s' := by
  have hdevice : ∀ d n, ∃ rs d' n', Transacts True (lockedController acks data hold) selectCalls
      ⟨d, .idle, n⟩ rs ⟨d', .idle, n'⟩ ∧ True := by
    intro d n
    obtain ⟨rs, d', n', htransacts⟩ := select_device d n
    exact ⟨rs, d', n', htransacts, trivial⟩
  obtain ⟨rs, s', htransacts, hsettled, -⟩ := transacts_socket (P := fun _ _ => True) hdevice h
  exact ⟨rs, s', htransacts, hsettled⟩

/-- The calls of the readout, with a controller in the socket at START. -/
theorem readout_calls (d : Device) (n m : Nat) :
    ∃ rs s₁ d' n', PerformsAll False (pluggable acks data hold plan) readoutCalls
        ⟨(lockedController acks data hold).begin ⟨d, .idle, n⟩, true, m⟩ rs s₁ ∧
      (s₁ = ⟨⟨d', .idle, n'⟩, true, s₁.events⟩ ∨ Out New s₁) ∧
      (decode rs = 0#16 ∨
        d.notes ++ [⟨true, d.fresh, d.refused, d.initialised⟩] <+: s₁.device.bytes.notes) := by
  have hones : ∀ r : BitVec 8, decode (r :: (readCalls 0 6).map fun _ => 0xFF#8) = 0#16 :=
    fun r => decode_eq r _ _ _ _ _ _
  rcases @address_cases acks data d nesI2cAddressRead with haddress | haddress
  · -- The controller drops out.
    have hcall : Performs True (lockedController acks data hold) (.write nesI2cAddressRead)
        ((lockedController acks data hold).begin ⟨d, .idle, n⟩) (ackResult false)
        ⟨{ d with count := d.count + 1 }, .idle, n + 1 + 9⟩ := performs_write haddress
    obtain ⟨n', hcalls⟩ := performsAll_idle (readCalls 0 6)
    obtain ⟨r', rs', s₁, hall, hs₁, hrest⟩ :=
      performsAll_plugged_cons new_dormant hcall hcalls m
    have hrs' : rs' = (readCalls 0 6).map fun _ => 0xFF#8 := by
      rcases hrest with hrest | ⟨hcovers, -⟩
      · exact hrest
      · exact eq_ones_of_covers hcovers
    refine ⟨_, s₁, _, _, hall, hs₁, Or.inl ?_⟩
    rw [hrs']
    exact hones r'
  · have hcall : Performs True (lockedController acks data hold) (.write nesI2cAddressRead)
        ((lockedController acks data hold).begin ⟨d, .idle, n⟩) (ackResult true) _ :=
      performs_write haddress
    obtain ⟨rs, d', n', hcalls⟩ := reads_device _ (n + 1 + 9)
    obtain ⟨r', rs', s₁, hall, hs₁, hrest⟩ :=
      performsAll_plugged_cons new_dormant hcall hcalls m
    refine ⟨_, s₁, _, _, hall, hs₁, ?_⟩
    rcases hrest with hrest | ⟨-, n₁, hreads⟩
    · left
      rw [hrest]
      exact hones r'
    · -- Its note stays.
      right
      exact kept_performsAll (notes_kept _) hreads (List.prefix_refl _)

/-- A byte other than 0xFF comes from a controller that has acknowledged the read
address. -/
theorem readout_socket (h : Settled s) :
    ∃ rs s', Transacts False (pluggable acks data hold plan) readoutCalls s rs s' ∧ Settled s' ∧
      (decode rs = 0#16 ∨ ∃ note : Note, note.read = true ∧
        s.device.bytes.notes ++ [note] <+: s'.device.bytes.notes) := by
  have hstart : (pluggable acks data hold plan).sda
      ((pluggable acks data hold plan).start s) = true := sda_start (fun _ => rfl) s
  rcases begin_settled h with hout | ⟨d, n, hbegin, hnotes, -⟩
  · obtain ⟨s', htransacts, hout'⟩ :=
      transacts_out new_dormant readoutCalls (sda_of_settled h) hstart hout
    exact ⟨_, s', htransacts, settled_of_out hout', Or.inl (decode_eq _ _ _ _ _ _ _)⟩
  · obtain ⟨rs, s₁, d', n', hcalls, hs₁, hserved⟩ := readout_calls d n (s.events + 2)
    rw [← hbegin] at hcalls
    obtain ⟨htransacts, hs'⟩ :=
      transacts_of_calls new_dormant (sda_of_settled h) hstart hcalls rfl rfl rfl hs₁
    refine ⟨rs, _, htransacts, settled_of_idle rfl hs', hserved.imp_right ?_⟩
    intro hnote
    refine ⟨⟨true, d.fresh, d.refused, d.initialised⟩, rfl, ?_⟩
    rw [← hnotes]
    exact (notes_kept _).finish hnote

end Transactions

section Polls

variable {acks : Nat → Bool} {data : Nat → BitVec 8} {hold : Nat → Nat} {plan : Nat → Change}
  {s : Plugged (BitState Device)} {b : SocketBoard} {state : SnesControllerState}

/-- The controller in the socket, if it has met `snes_connect` and not refused it,
is initialised. -/
def KnownAt (s : Plugged (BitState Device)) : Prop :=
  s.present = true → Known s.device.bytes

/-- What no event breaks holds of `s'` if it holds of `s`. -/
def Leads (acks : Nat → Bool) (data : Nat → BitVec 8) (hold : Nat → Nat)
    (s s' : Plugged (BitState Device)) : Prop :=
  ∀ P, Kept (lockedController acks data hold) powerOn P →
    P s.present s.device → P s'.present s'.device

theorem connect_ends (hrests : Rests (pluggable acks data hold plan) s b) (hs : Settled s) :
    Ends (snesConnect (usiPlatform (pluggable acks data hold plan).toSlave) state) b
      fun after b' => after.buttons = state.buttons ∧
        ∃ s', Rests (pluggable acks data hold plan) s' b' ∧ Settled s' ∧
          (KnownAt s → KnownAt s') := by
  obtain ⟨rs, s', htransacts, hs', hknown⟩ := connect_socket hs
  refine snesConnect_ends ((transaction_ends htransacts (by simp [connectCalls]) hrests).mono ?_)
  rintro rs' b' ⟨-, hrests'⟩
  exact ⟨rfl, s', hrests', hs', hknown⟩

theorem getState_ends (hrests : Rests (pluggable acks data hold plan) s b) (hs : Settled s) :
    Ends (snesGetState (usiPlatform (pluggable acks data hold plan).toSlave) state) b
      fun after b' => Cleared after ∧
        ∃ s', Rests (pluggable acks data hold plan) s' b' ∧ Settled s' ∧
          Leads acks data hold s s' ∧
          (after.buttons = 0#16 ∨ ∃ note : Note, note.read = true ∧
            note ∈ s'.device.bytes.notes.drop s.device.bytes.notes.length) := by
  obtain ⟨rs, s₁, hselect, hs₁⟩ := select_socket hs
  refine snesGetState_ends ((transaction_ends hselect (by simp [selectCalls]) hrests).mono ?_)
  rintro rs' b₁ ⟨-, hrests₁⟩
  cases hack : addressAck rs' with
  | false =>
      rw [if_neg Bool.false_ne_true]
      exact ⟨fun _ => rfl, s₁, hrests₁, hs₁, fun P hP => kept_transacts hP hselect, Or.inl rfl⟩
  | true =>
      rw [if_pos rfl]
      refine (delayMs_ends hrests₁ (sda_of_settled hs₁) 5).mono ?_
      intro _ b₂ hrests₂
      obtain ⟨rs₂, s₂, hreadout, hs₂, hserved⟩ := readout_socket hs₁
      refine (transaction_ends hreadout (by simp [readoutCalls]) hrests₂).mono ?_
      rintro rs₃ b₃ ⟨rfl, hrests₃⟩
      refine ⟨fun hzero => by simp at hzero, s₂, hrests₃, hs₂,
        fun P hP hPs => kept_transacts hP hreadout (kept_transacts hP hselect hPs), ?_⟩
      refine hserved.imp_right ?_
      rintro ⟨note, hread, hnote⟩
      refine ⟨note, hread, ?_⟩
      obtain ⟨earlier, hearlier⟩ :=
        kept_transacts (notes_kept s.device.bytes.notes) hselect (List.prefix_refl _)
      obtain ⟨later, hlater⟩ := hnote
      rw [← hlater, ← hearlier]
      simp

def Leaves (acks : Nat → Bool) (data : Nat → BitVec 8) (hold : Nat → Nat)
    (connected : BitVec 8) (s : Plugged (BitState Device)) (after : SnesControllerState)
    (s' : Plugged (BitState Device)) : Prop :=
  Cleared after ∧ Settled s' ∧
    (connected = 0#8 → after.buttons = 0#16 ∧ (KnownAt s → KnownAt s')) ∧
    (connected ≠ 0#8 → Leads acks data hold s s' ∧
      (after.buttons = 0#16 ∨ ∃ note : Note, note.read = true ∧
        note ∈ s'.device.bytes.notes.drop s.device.bytes.notes.length))

theorem poll_leaves (hrests : Rests (pluggable acks data hold plan) s b) (hs : Settled s)
    (hcleared : Cleared state) :
    Ends (poll (usiPlatform (pluggable acks data hold plan).toSlave) state) b fun after b' =>
      ∃ s', Rests (pluggable acks data hold plan) s' b' ∧
        (pluggable acks data hold plan).sda s' = true ∧
        Leaves acks data hold state.connected s after s' := by
  refine poll_ends hrests (sda_of_settled hs) ?_ ?_
  · intro hconnected b₁ hrests₁
    refine (connect_ends hrests₁ hs).mono ?_
    rintro after b' ⟨hbuttons, s', hrests', hs', hknown⟩
    have hzero : after.buttons = 0#16 := hbuttons.trans (hcleared hconnected)
    exact ⟨s', hrests', sda_of_settled hs', fun _ => hzero, hs', fun _ => ⟨hzero, hknown⟩,
      fun hnot => absurd hconnected hnot⟩
  · intro hconnected
    refine (getState_ends hrests hs).mono ?_
    rintro after b' ⟨hcleared', s', hrests', hs', hleads, hserved⟩
    exact ⟨s', hrests', sda_of_settled hs', hcleared', hs', fun hzero => absurd hzero hconnected,
      fun _ => ⟨hleads, hserved⟩⟩

end Polls

section Rounds

variable {acks : Nat → Bool} {data : Nat → BitVec 8} {hold : Nat → Nat} {plan : Nat → Change}
  {s : Plugged (BitState Device)} {b : SocketBoard} {state : SnesControllerState}

/-- Time goes by, then `usbInterruptIsReady` returns `ready`. -/
def usb (acks : Nat → Bool) (data : Nat → BitVec 8) (hold : Nat → Nat) (plan : Nat → Change)
    (lap : Nat × Bool) : Program SocketBoard Bool := do
  delayUs (pluggable acks data hold plan).toSlave lap.1
  return lap.2

def Between (acks : Nat → Bool) (data : Nat → BitVec 8) (hold : Nat → Nat)
    (plan : Nat → Change) (state : SnesControllerState) (b : SocketBoard) : Prop :=
  Cleared state ∧ ∃ s, Rests (pluggable acks data hold plan) s b ∧ Settled s

theorem usb_ends (lap : Nat × Bool) (hrests : Rests (pluggable acks data hold plan) s b)
    (hs : Settled s) :
    Ends (usb acks data hold plan lap) b fun ready b₁ => ∃ s₁,
      Rests (pluggable acks data hold plan) s₁ b₁ ∧
        (pluggable acks data hold plan).sda s₁ = true ∧ ready = lap.2 ∧ s₁ = s := by
  refine ends_bind ((delayUs_ends hrests (sda_of_settled hs) lap.1).mono ?_)
  intro _ b₁ hrests₁
  exact ends_pure ⟨s, hrests₁, sda_of_settled hs, rfl, rfl⟩

theorem fromInitialised_of_leaves {round : Iteration SocketBoard}
    {s' : Plugged (BitState Device)} (hspans : Spans (pluggable acks data hold plan) round s s')
    (hleaves : Leaves acks data hold round.before.connected s round.after s')
    (hreport : round.report = some (snesSetReportButtons round.after)) (hknown : KnownAt s)
    (h : Introduced round) : FromInitialised round ∧ KnownAt s' := by
  obtain ⟨-, -, hconnect, hget⟩ := hleaves
  have hnotes : notesOf round =
      s'.device.bytes.notes.drop s.device.bytes.notes.length := by
    rw [notesOf, hspans.start.slave, hspans.finish.slave]
    rfl
  have hpressed : ∀ report, round.report = some report → (∃ i, hidBit report i = true) →
      round.after.buttons ≠ 0#16 := by
    rintro report hsent ⟨i, hi⟩ hzero
    rw [hreport] at hsent
    obtain rfl := Option.some.inj hsent
    rw [hidBit_snesSetReportButtons, hzero, hidPressed_zero] at hi
    cases hi
  by_cases hconnected : round.before.connected = 0#8
  · obtain ⟨hzero, hknown'⟩ := hconnect hconnected
    exact ⟨fun report hsent hbutton => absurd hzero (hpressed report hsent hbutton),
      hknown' hknown⟩
  · obtain ⟨hleads, hserved⟩ := hget hconnected
    have hvouched := hleads _ (vouched_kept s.device.bytes.notes.length)
      ⟨Nat.le_refl _, fun _ => ⟨by simp, hknown⟩⟩
    have hsound : Sound s.device.bytes.notes.length s'.device.bytes.notes := by
      rw [Sound, ← hnotes]
      exact h hconnected
    obtain ⟨hinitialised, hknown'⟩ := hvouched.2 hsound
    refine ⟨?_, hknown'⟩
    intro report hsent hbutton
    rw [hnotes]
    rcases hserved with hzero | ⟨note, hread, hnote⟩
    · exact absurd hzero (hpressed report hsent hbutton)
    · exact ⟨⟨note, hnote, hread⟩, hinitialised⟩

theorem iteration_fromInitialised (lap : Nat × Bool) (h : Between acks data hold plan state b) :
    Ends (iteration (usiPlatform (pluggable acks data hold plan).toSlave)
      (usb acks data hold plan lap) state) b fun round b' =>
        Between acks data hold plan round.after b' ∧ round.report.isSome = lap.2 ∧
        (KnownAt b.slave.state → Introduced round →
          FromInitialised round ∧ KnownAt b'.slave.state) := by
  obtain ⟨hcleared, s, hrests, hs⟩ := h
  have hpoll : ∀ s₁ b₁, Rests (pluggable acks data hold plan) s₁ b₁ →
      (pluggable acks data hold plan).sda s₁ = true → true = lap.2 ∧ s₁ = s →
      Ends (poll (usiPlatform (pluggable acks data hold plan).toSlave) state) b₁ fun after b' =>
        ∃ s', Rests (pluggable acks data hold plan) s' b' ∧
          (pluggable acks data hold plan).sda s' = true ∧
          Leaves acks data hold state.connected s₁ after s' := by
    rintro s₁ b₁ hrests₁ _ ⟨-, rfl⟩
    exact poll_leaves hrests₁ hs hcleared
  refine (iteration_ends (usb_ends lap hrests hs) hpoll).mono ?_
  rintro round b' ⟨s₁, s', hspans, rfl, hbefore, hround⟩
  rw [hrests.slave, hspans.finish.slave]
  rcases hround with ⟨⟨hready, rfl⟩, hafter, rfl, hreport⟩ | ⟨⟨hready, rfl⟩, hleaves, hreport⟩
  · rw [hafter, hreport]
    refine ⟨⟨hcleared, s', hspans.finish, hs⟩, hready, ?_⟩
    intro hknown _
    refine ⟨?_, hknown⟩
    intro report hsent
    rw [hreport] at hsent
    cases hsent
  · refine ⟨⟨hleaves.1, s', hspans.finish, hleaves.2.1⟩, by rw [hreport]; exact hready, ?_⟩
    rw [← hbefore] at hleaves
    exact fromInitialised_of_leaves hspans hleaves hreport

/-- As long as the polls are of controllers that have been introduced, the reports
are from initialised ones. -/
def Guarded : List (Iteration SocketBoard) → Prop
  | [] => True
  | round :: rounds => Introduced round → FromInitialised round ∧ Guarded rounds

theorem mainLoop_guarded (laps : List (Nat × Bool)) (h : Between acks data hold plan state b) :
    Ends (mainLoop (usiPlatform (pluggable acks data hold plan).toSlave)
      (laps.map (usb acks data hold plan)) state) b fun rounds _ =>
        rounds.map (fun round => round.report.isSome) = laps.map Prod.snd ∧
        (KnownAt b.slave.state → Guarded rounds) := by
  induction laps generalizing state b with
  | nil => exact ends_pure ⟨rfl, fun _ => trivial⟩
  | cons lap laps ih =>
      refine ends_bind ((iteration_fromInitialised lap h).mono ?_)
      rintro round b₁ ⟨hbetween, hready, hround⟩
      refine ends_bind ((ih hbetween).mono ?_)
      rintro rounds b₂ ⟨hreadies, hrest⟩
      refine ends_pure ⟨by simp [hready, hreadies], ?_⟩
      intro hknown hintroduced
      obtain ⟨hfrom, hknown₁⟩ := hround hknown hintroduced
      exact ⟨hfrom, hrest hknown₁⟩

theorem Guarded.fromInitialised {before later : List (Iteration SocketBoard)}
    {round : Iteration SocketBoard} (h : Guarded (before ++ round :: later))
    (hbefore : ∀ r ∈ before, Introduced r) (hround : Introduced round) :
    FromInitialised round := by
  induction before with
  | nil => exact (h hround).1
  | cons r before ih =>
      exact ih (h (hbefore r (by simp))).2 fun r' hr' => hbefore r' (by simp [hr'])

end Rounds

/-- A board as `i2c_init` leaves it, with a new controller or none in the socket. -/
def socketBoard (ddrb portb : BitVec 8) (present : Bool) : SocketBoard :=
  ⟨initMcu ddrb portb, ⟨true, true⟩,
    resting ⟨⟨⟨false, true, false, none, 0, []⟩, .idle, 0⟩, present, 0⟩, [], []⟩

/-- Whatever is plugged in when, and whatever it acknowledges: as long as
`snes_get_state` is answered by controllers only that have answered `snes_connect`
since they were plugged in, and have not refused its bytes, every report with a
button is from an initialised controller. -/
theorem reports_fromInitialised (acks : Nat → Bool) (data : Nat → BitVec 8) (hold : Nat → Nat)
    (plan : Nat → Change) (ddrb portb : BitVec 8) (present : Bool) (laps : List (Nat × Bool)) :
    Ends (connectAndPoll (usiPlatform (pluggable acks data hold plan).toSlave)
      (laps.map (usb acks data hold plan))) (socketBoard ddrb portb present) fun rounds _ =>
        rounds.map (fun round => round.report.isSome) = laps.map Prod.snd ∧
        ∀ before round later, rounds = before ++ round :: later →
          (∀ r ∈ before, Introduced r) → Introduced round → FromInitialised round := by
  have hrests : Rests (pluggable acks data hold plan)
      ⟨⟨⟨false, true, false, none, 0, []⟩, .idle, 0⟩, present, 0⟩
      (socketBoard ddrb portb present) := ⟨rfl, rfl, initMcu_rested ddrb portb⟩
  refine ends_bind ((connect_ends hrests fun _ => rfl).mono ?_)
  rintro state b ⟨hbuttons, s, hrests', hs, hknown⟩
  refine (mainLoop_guarded laps ⟨fun _ => hbuttons, s, hrests', hs⟩).mono ?_
  rintro rounds b' ⟨hreadies, hguarded⟩
  refine ⟨hreadies, ?_⟩
  rintro before round later rfl hbefore hround
  rw [hrests'.slave] at hguarded
  exact (hguarded (hknown fun _ hfresh => by cases hfresh)).fromInitialised hbefore hround

section Refusal

/-- The 0x55 of the first `snes_connect` goes unacknowledged. -/
def refusesThird (n : Nat) : Bool := n != 2

abbrev refusing : EventSlave (BitState Device) :=
  lockedController refusesThird (fun _ => 0x00#8) fun _ => 0

abbrev refusingSocket : EventSlave (Plugged (BitState Device)) :=
  pluggable refusesThird (fun _ => 0x00#8) (fun _ => 0) fun _ => .keep

/-- The controller after the first `snes_connect`, with one note. -/
def refused : Device := ⟨false, false, true, some 0xF0#8, 3, [⟨false, true, false, false⟩]⟩

def selected : Device :=
  ⟨false, false, true, some 0x00#8, 5, refused.notes ++ [⟨false, false, true, false⟩]⟩

def polled : Device :=
  ⟨false, false, true, none, 12, selected.notes ++ [⟨true, false, true, false⟩]⟩

theorem refusing_connect (n : Nat) :
    ∃ n', Transacts True refusing connectCalls ⟨⟨false, true, false, none, 0, []⟩, .idle, n⟩
      [ackResult true, ackResult true, ackResult false] ⟨refused, .idle, n'⟩ :=
  ⟨_, transacts_of_performs rfl
    (Performs.cons (performs_write rfl)
      (Performs.cons (performs_write rfl)
        (Performs.cons (performs_write rfl) rfl))) rfl⟩

theorem refusing_select (n : Nat) :
    ∃ n', Transacts True refusing selectCalls ⟨refused, .idle, n⟩
      [ackResult true, ackResult true] ⟨selected, .idle, n'⟩ :=
  ⟨_, transacts_of_performs rfl
    (Performs.cons (performs_write rfl)
      (Performs.cons (performs_write rfl) rfl)) rfl⟩

theorem refusing_readout (n : Nat) :
    ∃ n', Transacts True refusing readoutCalls ⟨selected, .idle, n⟩
      (ackResult true :: List.replicate 6 0x00#8) ⟨polled, .idle, n'⟩ :=
  ⟨_, transacts_of_performs rfl
    (Performs.cons (performs_write rfl)
      ⟨_, performs_read _, _, performs_read _, _, performs_read _,
        _, performs_read _, _, performs_read _, _, performs_read _, rfl⟩) rfl⟩

theorem refusing_plugged {cs : List Call} {t t' : BitState Device} {rs : List (BitVec 8)}
    (h : Transacts True refusing cs t rs t') (m : Nat) :
    ∃ m', Transacts True refusingSocket cs ⟨t, true, m⟩ rs ⟨t', true, m'⟩ :=
  transacts_keep (fun _ => rfl) h m

variable {b : SocketBoard} {state : SnesControllerState} {n m : Nat}

theorem refusing_getState (hrests : Rests refusingSocket ⟨⟨refused, .idle, n⟩, true, m⟩ b) :
    Ends (snesGetState (usiPlatform refusingSocket.toSlave) state) b fun after b' =>
      ∃ s', Rests refusingSocket s' b' ∧ refusingSocket.sda s' = true ∧
        after = ⟨0xFFFF#16, 1#8⟩ ∧ s'.device.bytes = polled := by
  obtain ⟨n₁, hselect⟩ := refusing_select n
  obtain ⟨m₁, hselect'⟩ := refusing_plugged hselect m
  refine snesGetState_ends ((transaction_ends hselect' (by simp [selectCalls]) hrests).mono ?_)
  rintro rs b₁ ⟨rfl, hrests₁⟩
  rw [if_pos (show addressAck [ackResult true, ackResult true] = true from rfl)]
  refine (delayMs_ends hrests₁ rfl 5).mono ?_
  intro _ b₂ hrests₂
  obtain ⟨n₂, hreadout⟩ := refusing_readout n₁
  obtain ⟨m₂, hreadout'⟩ := refusing_plugged hreadout m₁
  refine (transaction_ends hreadout' (by simp [readoutCalls]) hrests₂).mono ?_
  rintro rs b₃ ⟨rfl, hrests₃⟩
  exact ⟨_, hrests₃, rfl, rfl, rfl⟩

theorem refusing_round (hrests : Rests refusingSocket ⟨⟨refused, .idle, n⟩, true, m⟩ b)
    (hconnected : state.connected ≠ 0#8) :
    Ends (iteration (usiPlatform refusingSocket.toSlave)
      (usb refusesThird (fun _ => 0x00#8) (fun _ => 0) (fun _ => .keep) (0, true)) state) b
      fun round _ => ¬ FromInitialised round := by
  refine (iteration_ends (usb_ends (0, true) hrests fun _ => rfl)
    (Q := fun _ after s' => after = ⟨0xFFFF#16, 1#8⟩ ∧ s'.device.bytes = polled) ?_).mono ?_
  · rintro s₁ b₁ hrests₁ hsda ⟨-, rfl⟩
    exact poll_ends hrests₁ hsda (fun hzero => absurd hzero hconnected)
      fun _ => refusing_getState hrests₁
  · rintro round b' ⟨s₁, s', hspans, -, -, hround⟩ hfrom
    rcases hround with ⟨⟨hready, -⟩, -⟩ | ⟨⟨-, rfl⟩, ⟨hafter, hpolled⟩, hreport⟩
    · cases hready
    · have hnotes : notesOf round = polled.notes.drop refused.notes.length := by
        rw [notesOf, hspans.start.slave, hspans.finish.slave]
        change s'.device.bytes.notes.drop refused.notes.length = _
        rw [hpolled]
      obtain ⟨-, hinitialised⟩ := hfrom _ hreport ⟨0, by rw [hafter]; rfl⟩
      rw [hnotes] at hinitialised
      have hnote := hinitialised ⟨true, false, true, false⟩ (by decide)
      cases hnote

/-- The controller acknowledges its address and 0xF0, but not 0x55. It counts as
connected, and the first poll reports every button. -/
theorem not_fromInitialised :
    ¬ Ends (connectAndPoll (usiPlatform refusingSocket.toSlave) ([(0, true)].map
        (usb refusesThird (fun _ => 0x00#8) (fun _ => 0) fun _ => .keep)))
      (socketBoard 0x00#8 0x00#8 true) fun rounds _ =>
        ∀ round ∈ rounds, FromInitialised round := by
  intro h
  have hrests : Rests refusingSocket ⟨⟨⟨false, true, false, none, 0, []⟩, .idle, 0⟩, true, 0⟩
      (socketBoard 0x00#8 0x00#8 true) := ⟨rfl, rfl, initMcu_rested 0x00#8 0x00#8⟩
  obtain ⟨n, hconnect⟩ := refusing_connect 0
  obtain ⟨m, hconnect'⟩ := refusing_plugged hconnect 0
  have hrun : Ends (connectAndPoll (usiPlatform refusingSocket.toSlave) ([(0, true)].map
      (usb refusesThird (fun _ => 0x00#8) (fun _ => 0) fun _ => .keep)))
      (socketBoard 0x00#8 0x00#8 true) fun rounds _ =>
        ∃ round ∈ rounds, ¬ FromInitialised round := by
    refine ends_bind (snesConnect_ends
      ((transaction_ends hconnect' (by simp [connectCalls]) hrests).mono ?_))
    rintro rs b₁ ⟨rfl, hrests₁⟩
    refine ends_bind ((refusing_round hrests₁ (by decide)).mono ?_)
    intro round b₂ hround
    exact ends_bind (ends_pure (ends_pure ⟨round, by simp, hround⟩))
  obtain ⟨rounds, -, hall, round, hmem, hround⟩ := (h.and hrun).exists
  exact hround (hall round hmem)

end Refusal

end NesMiniAdapter.PlugSchedule
