import NesMiniAdapter.Socket
import NesMiniAdapter.UsiPlatform

/-!
The calls of the USI driver with a socket on the bus.
-/

namespace NesMiniAdapter.SocketCalls

open NesMiniAdapter.ByteBits
open NesMiniAdapter.OpenDrainBus
open NesMiniAdapter.EventDriven
open NesMiniAdapter.ByteDriven
open NesMiniAdapter.I2cTransaction
open NesMiniAdapter.UsiConversation
open NesMiniAdapter.UsiPlatform
open NesMiniAdapter.Socket

def Covers (r r' : BitVec 8) : Prop := ∀ i, r.getLsbD i = true → r'.getLsbD i = true

theorem getLsbD_ones {i : Nat} (hi : i < 8) : (0xFF#8).getLsbD i = true := by
  rw [show 0xFF#8 = BitVec.allOnes 8 by rfl, BitVec.getLsbD_allOnes]
  simpa using hi

theorem covers_ones (r : BitVec 8) : Covers r 0xFF#8 :=
  fun _ hbit => getLsbD_ones (BitVec.lt_of_getLsbD hbit)

theorem carries_slot {slot : Slot} {bits : List Bool} (h : Carries [slot] bits) :
    ∃ bit, bits = [bit] ∧ ∀ v, slot = .master v → bit = v := by
  obtain ⟨bit, rfl⟩ := List.length_eq_one_iff.mp h.length.symm
  exact ⟨bit, rfl, h.1⟩

/-- Levels that agree with what the master sends are those of some result. -/
theorem result_of_carries {c : Call} {bits : List Bool} (h : Carries c.slots bits) :
    ∃ r, bits = c.bits r ∧ UsiResult c r := by
  cases c with
  | write data =>
      obtain ⟨first, rest, rfl, hfirst, hrest⟩ := Carries.split h
      obtain ⟨ack, rfl, -⟩ := carries_slot hrest
      have hack : (ackResult !ack).getLsbD 0 = ack := by cases ack <;> rfl
      refine ⟨ackResult !ack, ?_, ?_⟩
      · rw [Call.bits, hack, carries_master hfirst]
      · cases ack
        · exact Or.inl rfl
        · exact Or.inr rfl
  | read nack =>
      obtain ⟨first, rest, rfl, hfirst, hrest⟩ := Carries.split h
      obtain ⟨answer, rfl, hanswer⟩ := carries_slot hrest
      refine ⟨first.foldl shiftIn 0#8, ?_, trivial⟩
      rw [Call.bits, bitsOf_shiftIn hfirst.length.symm, hanswer _ rfl]

theorem covers_of_bits {c : Call} {r r' : BitVec 8} (hr : UsiResult c r) (hr' : UsiResult c r')
    (h : List.Forall₂ (fun bit bit' => bit = true → bit' = true) (c.bits r) (c.bits r')) :
    Covers r r' := by
  cases c with
  | write data =>
      have hack : r.getLsbD 0 = true → r'.getLsbD 0 = true := by
        simpa [Call.bits, bitsOf] using h
      rcases hr with rfl | rfl
      · rcases hr' with rfl | rfl
        · exact fun _ => id
        · exact covers_ones _
      · rcases hr' with rfl | rfl
        · exact absurd (hack rfl) (by decide)
        · exact covers_ones _
  | read nack =>
      have hbits : List.Forall₂ (fun bit bit' => bit = true → bit' = true) (bitsOf r)
          (bitsOf r') := List.forall₂_take 8 h
      intro i hbit
      exact getLsbD_of_forall₂ hbits (BitVec.lt_of_getLsbD hbit) hbit

theorem covers_ones_all {cs : List Call} {rs : List (BitVec 8)} (h : rs.length = cs.length) :
    List.Forall₂ Covers rs (cs.map fun _ => 0xFF#8) := by
  induction cs generalizing rs with
  | nil =>
      rw [List.length_eq_zero_iff.mp h]
      exact .nil
  | cons c cs ih =>
      cases rs with
      | nil => simp at h
      | cons r rs => exact .cons (covers_ones r) (ih (by simpa using h))

theorem eq_ones_of_covers {cs : List Call} {rs : List (BitVec 8)}
    (h : List.Forall₂ Covers (cs.map fun _ => 0xFF#8) rs) : rs = cs.map fun _ => 0xFF#8 := by
  induction cs generalizing rs with
  | nil => exact List.forall₂_nil_left_iff.mp h
  | cons c cs ih =>
      rcases h with _ | ⟨hcovers, hrest⟩
      rw [ih hrest]
      congr 1
      apply BitVec.eq_of_getLsbD_eq
      intro i hi
      rw [getLsbD_ones hi]
      exact hcovers i (getLsbD_ones hi)

section Calls

variable {τ : Type} {E : EventSlave τ} {powerOn : τ → τ} {plan : Nat → Change} {D : τ → Prop}
  (hD : Dormant E powerOn plan D)

include hD

theorem performs_plugged {c : Call} {t t' : τ} {r : BitVec 8} (h : Performs True E c t r t')
    (n : Nat) :
    ∃ r' s', Performs False (socket E powerOn plan) c ⟨t, true, n⟩ r' s' ∧ Covers r r' ∧
      (s' = ⟨t', true, s'.events⟩ ∨ Out D s') := by
  obtain ⟨bits', s', hruns, hbits, hs'⟩ := runs_plugged hD h.runs n
  obtain ⟨r', rfl, hresult⟩ := result_of_carries hruns.carries
  exact ⟨r', s', ⟨hruns, hresult⟩, covers_of_bits h.result hresult hbits, hs'⟩

/-- Nobody answers: the acknowledge is missing, and a byte read is all ones. -/
theorem performs_out (c : Call) {s : Plugged τ} (h : Out D s) :
    ∃ s', Performs False (socket E powerOn plan) c s 0xFF#8 s' ∧ Out D s' := by
  obtain ⟨s', hruns, hout⟩ := runs_out hD c.slots h
  refine ⟨s', ⟨?_, ?_⟩, hout⟩
  · have hbits : c.slots.map Slot.level = c.bits 0xFF#8 := by
      cases c <;> rfl
    rw [← hbits]
    exact hruns
  · cases c with
    | write data => exact Or.inr rfl
    | read nack => trivial

theorem performsAll_out (cs : List Call) {s : Plugged τ} (h : Out D s) :
    ∃ s', PerformsAll False (socket E powerOn plan) cs s (cs.map fun _ => 0xFF#8) s' ∧
      Out D s' := by
  induction cs generalizing s with
  | nil => exact ⟨s, rfl, h⟩
  | cons c cs ih =>
      obtain ⟨s₁, hcall, hout₁⟩ := performs_out hD c h
      obtain ⟨s', hcalls, hout⟩ := ih hout₁
      exact ⟨s', ⟨s₁, hcall, hcalls⟩, hout⟩

theorem performsAll_plugged {cs : List Call} {t t' : τ} {rs : List (BitVec 8)}
    (h : PerformsAll True E cs t rs t') (n : Nat) :
    ∃ rs' s', PerformsAll False (socket E powerOn plan) cs ⟨t, true, n⟩ rs' s' ∧
      List.Forall₂ Covers rs rs' ∧ (s' = ⟨t', true, s'.events⟩ ∨ Out D s') := by
  induction cs generalizing t rs n with
  | nil =>
      cases rs with
      | cons r rs => exact h.elim
      | nil => exact ⟨[], ⟨t, true, n⟩, rfl, .nil, Or.inl (by rw [show t' = t from h])⟩
  | cons c cs ih =>
      cases rs with
      | nil => exact h.elim
      | cons r rs =>
          obtain ⟨t₁, hcall, hcalls⟩ := h
          obtain ⟨r', s₁, hcall', hcovers, hs₁⟩ := performs_plugged hD hcall n
          rcases hs₁ with hs₁ | hout₁
          · obtain ⟨rs', s', hcalls', hcovers', hs'⟩ := ih hcalls s₁.events
            rw [← hs₁] at hcalls'
            exact ⟨r' :: rs', s', ⟨s₁, hcall', hcalls'⟩, .cons hcovers hcovers', hs'⟩
          · obtain ⟨s', hcalls', hout⟩ := performsAll_out hD cs hout₁
            exact ⟨r' :: cs.map fun _ => 0xFF#8, s', ⟨s₁, hcall', hcalls'⟩,
              .cons hcovers (covers_ones_all hcalls.length), Or.inr hout⟩

/-- The first call decides: if nobody takes notice of its end, the others find
nobody, and if not they start with the device in the socket. -/
theorem performsAll_plugged_cons {c : Call} {cs : List Call} {t t₁ t' : τ} {r : BitVec 8}
    {rs : List (BitVec 8)} (hcall : Performs True E c t r t₁)
    (hcalls : PerformsAll True E cs t₁ rs t') (n : Nat) :
    ∃ r' rs' s', PerformsAll False (socket E powerOn plan) (c :: cs) ⟨t, true, n⟩ (r' :: rs') s' ∧
      (s' = ⟨t', true, s'.events⟩ ∨ Out D s') ∧
      (rs' = (cs.map fun _ => 0xFF#8) ∨ List.Forall₂ Covers rs rs' ∧
        ∃ n₁, PerformsAll False (socket E powerOn plan) cs ⟨t₁, true, n₁⟩ rs' s') := by
  obtain ⟨r', s₁, hcall', -, hs₁⟩ := performs_plugged hD hcall n
  rcases hs₁ with hs₁ | hout₁
  · obtain ⟨rs', s', hcalls', hcovers, hs'⟩ := performsAll_plugged hD hcalls s₁.events
    refine ⟨r', rs', s', ⟨s₁, hcall', ?_⟩, hs', Or.inr ⟨hcovers, s₁.events, hcalls'⟩⟩
    rw [hs₁]
    exact hcalls'
  · obtain ⟨s', hcalls', hout⟩ := performsAll_out hD cs hout₁
    exact ⟨r', _, s', ⟨s₁, hcall', hcalls'⟩, Or.inr hout, Or.inl rfl⟩

/-- STOP, after calls that left the device `t` in the socket, or nobody. -/
theorem transacts_of_calls {cs : List Call} {s s₁ : Plugged τ} {t : τ} {rs : List (BitVec 8)}
    (hidle : (socket E powerOn plan).sda s = true)
    (hstart : (socket E powerOn plan).sda ((socket E powerOn plan).start s) = true)
    (hcalls : PerformsAll False (socket E powerOn plan) cs ((socket E powerOn plan).begin s) rs s₁)
    (hsda : E.sda t = true) (hrise : E.sda (E.rise false t) = true)
    (hfinish : E.sda (E.finish t) = true) (hs₁ : s₁ = ⟨t, true, s₁.events⟩ ∨ Out D s₁) :
    Transacts False (socket E powerOn plan) cs s rs ((socket E powerOn plan).finish s₁) ∧
      ((socket E powerOn plan).finish s₁ = ⟨E.finish t, true, s₁.events + 1⟩ ∨
        Out D ((socket E powerOn plan).finish s₁)) := by
  rcases hs₁ with hs₁ | hout₁
  · obtain ⟨hrise', hfinish', hs'⟩ := finish_cases hD hrise hfinish s₁.events
    rw [← hs₁] at hrise' hfinish' hs'
    have hsda' : (socket E powerOn plan).sda s₁ = true := by
      rw [hs₁]
      exact hsda
    exact ⟨⟨hidle, hstart, ⟨s₁, hcalls, hsda', hrise', rfl⟩, hfinish'⟩, hs'⟩
  · obtain ⟨hrise', hfinish', hout⟩ := finish_out hD hout₁
    exact ⟨⟨hidle, hstart, ⟨s₁, hcalls, sda_of_out hD hout₁, hrise', rfl⟩, hfinish'⟩,
      Or.inr hout⟩

theorem transacts_plugged {cs : List Call} {s : Plugged τ} {t t' : τ} {rs : List (BitVec 8)}
    (hidle : (socket E powerOn plan).sda s = true)
    (hstart : (socket E powerOn plan).sda ((socket E powerOn plan).start s) = true)
    (hbegin : (socket E powerOn plan).begin s = ⟨E.begin t, true, s.events + 2⟩)
    (h : Transacts True E cs t rs t') :
    ∃ rs' s', Transacts False (socket E powerOn plan) cs s rs' s' ∧
      List.Forall₂ Covers rs rs' ∧ (s' = ⟨t', true, s'.events⟩ ∨ Out D s') := by
  obtain ⟨-, -, ⟨t₁, hcalls, hsda, hrise, rfl⟩, hfinish⟩ := h
  obtain ⟨rs', s₁, hcalls', hcovers, hs₁⟩ := performsAll_plugged hD hcalls (s.events + 2)
  rw [← hbegin] at hcalls'
  obtain ⟨htransacts, hs'⟩ :=
    transacts_of_calls hD hidle hstart hcalls' hsda hrise hfinish hs₁
  refine ⟨rs', _, htransacts, hcovers, ?_⟩
  rcases hs' with hs' | hout
  · left
    rw [hs']
  · exact Or.inr hout

theorem transacts_out (cs : List Call) {s : Plugged τ}
    (hidle : (socket E powerOn plan).sda s = true)
    (hstart : (socket E powerOn plan).sda ((socket E powerOn plan).start s) = true)
    (hbegin : Out D ((socket E powerOn plan).begin s)) :
    ∃ s', Transacts False (socket E powerOn plan) cs s (cs.map fun _ => 0xFF#8) s' ∧
      Out D s' := by
  obtain ⟨s₁, hcalls, hout₁⟩ := performsAll_out hD cs hbegin
  obtain ⟨hrise, hfinish, hout⟩ := finish_out hD hout₁
  exact ⟨_, ⟨hidle, hstart, ⟨s₁, hcalls, sda_of_out hD hout₁, hrise, rfl⟩, hfinish⟩, hout⟩

end Calls

section Kept

variable {τ : Type} {E : EventSlave τ} {powerOn : τ → τ} {plan : Nat → Change}
  {P : Bool → τ → Prop} (hP : Kept E powerOn P) {strict : Prop} {s s' : Plugged τ}

include hP

theorem kept_performsAll {cs : List Call} {rs : List (BitVec 8)}
    (h : PerformsAll strict (socket E powerOn plan) cs s rs s') (hs : P s.present s.device) :
    P s'.present s'.device := by
  rw [← h.runs.1.after]
  exact hP.after _ hs

theorem kept_transacts {cs : List Call} {rs : List (BitVec 8)}
    (h : Transacts strict (socket E powerOn plan) cs s rs s') (hs : P s.present s.device) :
    P s'.present s'.device := by
  obtain ⟨s₁, hcalls, -, -, rfl⟩ := h.calls
  exact hP.finish (kept_performsAll hP hcalls (hP.begin hs))

end Kept

section Undisturbed

variable {τ : Type} {E : EventSlave τ} {powerOn : τ → τ} {plan : Nat → Change} {strict : Prop}
  (hplan : ∀ n, plan n = .keep)

include hplan

theorem performsAll_keep {cs : List Call} {t t' : τ} {rs : List (BitVec 8)}
    (h : PerformsAll strict E cs t rs t') (n : Nat) :
    ∃ n', PerformsAll strict (socket E powerOn plan) cs ⟨t, true, n⟩ rs ⟨t', true, n'⟩ := by
  induction cs generalizing t rs n with
  | nil =>
      cases rs with
      | cons r rs => exact h.elim
      | nil => exact ⟨n, by rw [show t' = t from h]; rfl⟩
  | cons c cs ih =>
      cases rs with
      | nil => exact h.elim
      | cons r rs =>
          obtain ⟨t₁, hcall, hcalls⟩ := h
          obtain ⟨n₁, hruns⟩ := runs_keep hplan hcall.runs n
          obtain ⟨n', hcalls'⟩ := ih hcalls n₁
          exact ⟨n', _, ⟨hruns, hcall.result⟩, hcalls'⟩

theorem transacts_keep {cs : List Call} {t t' : τ} {rs : List (BitVec 8)}
    (h : Transacts strict E cs t rs t') (n : Nat) :
    ∃ n', Transacts strict (socket E powerOn plan) cs ⟨t, true, n⟩ rs ⟨t', true, n'⟩ := by
  obtain ⟨hidle, hstart, ⟨t₁, hcalls, hsda, hrise, rfl⟩, hstop⟩ := h
  have hstart' : (socket E powerOn plan).start ⟨t, true, n⟩ = ⟨E.start t, true, n + 1⟩ :=
    occur_keep hplan _ _ _
  have hbegin : (socket E powerOn plan).begin ⟨t, true, n⟩ = ⟨E.begin t, true, n + 2⟩ := by
    change (socket E powerOn plan).fall ((socket E powerOn plan).start ⟨t, true, n⟩) = _
    rw [hstart']
    exact occur_keep hplan _ _ _
  obtain ⟨n₁, hcalls'⟩ := performsAll_keep hplan hcalls (n + 2)
  rw [← hbegin] at hcalls'
  have hrise' : (socket E powerOn plan).rise false ⟨t₁, true, n₁⟩ =
      ⟨E.rise false t₁, true, n₁ + 1⟩ := occur_keep hplan _ _ _
  have hfinish : (socket E powerOn plan).finish ⟨t₁, true, n₁⟩ =
      ⟨E.finish t₁, true, n₁ + 1⟩ := by
    change (socket E powerOn plan).stop ((socket E powerOn plan).rise false ⟨t₁, true, n₁⟩) = _
    rw [hrise']
    rfl
  exact ⟨n₁ + 1, hidle, by rw [hstart']; exact hstart,
    ⟨_, hcalls', hsda, by rw [hrise']; exact hrise, hfinish⟩, hstop⟩

end Undisturbed

section Bytes

variable {ρ : Type} {B : ByteSlave ρ} {hold : Nat → Nat}
  {powerOn : BitState ρ → BitState ρ} {plan : Nat → Change} {s : Plugged (BitState ρ)}

/-- Between transactions, a slave in the socket is idle. -/
def Settled (s : Plugged (BitState ρ)) : Prop := s.present = true → s.device.phase = .idle

theorem sda_of_settled (h : Settled s) :
    (socket (B.toEventSlave hold) powerOn plan).sda s = true := by
  change (!s.present || s.device.phase.sda) = true
  cases hpresent : s.present with
  | false => rfl
  | true =>
      rw [h hpresent]
      rfl

end Bytes

end NesMiniAdapter.SocketCalls
