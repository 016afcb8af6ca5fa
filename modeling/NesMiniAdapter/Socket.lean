import Mathlib.Data.List.Forall2
import NesMiniAdapter.EventDriven

/-!
A socket for event-driven slaves. At every START and at every edge of SCL the
device may be pulled out, or another one, just powered on, put in. What was on
the lines up to then is what the device would have shown had it stayed; after
that the lines are left alone until the next START.
-/

namespace NesMiniAdapter.Socket

open NesMiniAdapter.OpenDrainBus
open NesMiniAdapter.EventDriven

inductive Change where
  | keep
  | remove
  | insert
  deriving DecidableEq, Repr

/-- `events` counts the STARTs and edges so far. While no device is present
`device` is the last one. -/
structure Plugged (τ : Type) where
  device : τ
  present : Bool
  events : Nat

variable {τ : Type}

section Socket

variable (E : EventSlave τ) (powerOn : τ → τ) (plan : Nat → Change)

def Plugged.change (s : Plugged τ) : Change → Plugged τ
  | .keep => s
  | .remove => { s with present := false }
  | .insert => { s with device := powerOn s.device, present := true }

/-- An event of the bus, after the change that is planned for it. -/
def Plugged.occur (f : τ → τ) (s : Plugged τ) : Plugged τ :=
  let s' := s.change powerOn (plan s.events)
  ⟨if s'.present then f s'.device else s'.device, s'.present, s.events + 1⟩

def socket : EventSlave (Plugged τ) where
  sda s := !s.present || E.sda s.device
  stretch s := if s.present then E.stretch s.device else 0
  start := .occur powerOn plan E.start
  stop s := { s with device := if s.present then E.stop s.device else s.device }
  rise bit := .occur powerOn plan (E.rise bit)
  fall := .occur powerOn plan E.fall

end Socket

/-- States `D` in which a device waits for a START, such as those in which a
device is put in. -/
structure Dormant (E : EventSlave τ) (powerOn : τ → τ) (plan : Nat → Change)
    (D : τ → Prop) : Prop where
  sda : ∀ t, D t → E.sda t = true
  rise : ∀ bit t, D t → D (E.rise bit t)
  fall : ∀ t, D t → D (E.fall t)
  stop : ∀ t, D t → E.stop t = t
  insert : ∀ n t, plan n = .insert → D (powerOn t)

/-- The device, if there is one, waits for a START. -/
def Out (D : τ → Prop) (s : Plugged τ) : Prop := s.present = true → D s.device

theorem answers_le {E : EventSlave τ} (slots : List Slot) (t : τ) :
    List.Forall₂ (fun bit bit' => bit = true → bit' = true) (E.answers slots t)
      (slots.map Slot.level) := by
  induction slots generalizing t with
  | nil => exact .nil
  | cons slot slots ih =>
      refine .cons ?_ (ih _)
      intro hlevel
      rw [EventSlave.level, Bool.and_eq_true] at hlevel
      exact hlevel.1

section Slots

variable {E : EventSlave τ} {powerOn : τ → τ} {plan : Nat → Change} {D : τ → Prop}
  (hD : Dormant E powerOn plan D)

include hD

theorem out_occur {f : τ → τ} (hf : ∀ t, D t → D (f t)) {s : Plugged τ} (h : Out D s) :
    Out D (s.occur powerOn plan f) := by
  unfold Plugged.occur Out
  cases hplan : plan s.events with
  | keep =>
      intro hpresent
      change s.present = true at hpresent
      simp only [Plugged.change, hpresent, if_true]
      exact hf _ (h hpresent)
  | remove =>
      intro hpresent
      cases hpresent
  | insert =>
      intro _
      exact hf _ (hD.insert _ _ hplan)

/-- An event finds the device in place, or nobody takes notice of it. -/
theorem occur_cases {f : τ → τ} (hf : ∀ t, D t → D (f t)) (t : τ) (n : Nat) :
    (⟨t, true, n⟩ : Plugged τ).occur powerOn plan f = ⟨f t, true, n + 1⟩ ∨
      Out D ((⟨t, true, n⟩ : Plugged τ).occur powerOn plan f) := by
  unfold Plugged.occur
  cases hplan : plan n with
  | keep => exact Or.inl rfl
  | remove => exact Or.inr fun hpresent => by cases hpresent
  | insert => exact Or.inr fun _ => hf _ (hD.insert _ _ hplan)

theorem sda_of_out {s : Plugged τ} (h : Out D s) : (socket E powerOn plan).sda s = true := by
  change (!s.present || E.sda s.device) = true
  cases hpresent : s.present with
  | false => rfl
  | true => exact hD.sda _ (h hpresent)

theorem stop_of_out {s : Plugged τ} (h : Out D s) : (socket E powerOn plan).stop s = s := by
  rcases s with ⟨device, present, events⟩
  change (⟨if present then E.stop device else device, present, events⟩ : Plugged τ) = _
  cases present with
  | false => rfl
  | true => rw [if_pos rfl, hD.stop _ (h rfl)]

/-- Without a device that takes part the lines are the master's. -/
theorem runs_out {strict : Prop} (slots : List Slot) {s : Plugged τ} (h : Out D s) :
    ∃ s', Runs strict (socket E powerOn plan) slots s (slots.map Slot.level) s' ∧
      Out D s' := by
  induction slots generalizing s with
  | nil => exact ⟨s, .nil s, h⟩
  | cons slot slots ih =>
      have hsda : (socket E powerOn plan).sda s = true := sda_of_out hD h
      have hlevel : (socket E powerOn plan).level slot s = slot.level := by
        rw [EventSlave.level, hsda, Bool.and_true]
      have hrise := out_occur hD (hD.rise ((socket E powerOn plan).level slot s)) h
      obtain ⟨s', hruns, hout⟩ := ih (out_occur hD hD.fall hrise)
      refine ⟨s', ?_, hout⟩
      rw [List.map_cons, ← hlevel]
      exact .cons (fun _ _ => hsda) (Or.inl ((sda_of_out hD hrise).trans hsda.symm)) hruns

theorem runs_dropped {slots : List Slot} {t t' : τ} {bits : List Bool} {s : Plugged τ}
    (hs : Out D s) (h : Runs True E slots t bits t') :
    ∃ bits' s', Runs False (socket E powerOn plan) slots s bits' s' ∧
      List.Forall₂ (fun bit bit' => bit = true → bit' = true) bits bits' ∧ Out D s' := by
  obtain ⟨s', hruns, hout⟩ := runs_out hD slots hs
  refine ⟨_, s', hruns, ?_, hout⟩
  rw [← h.answers]
  exact answers_le slots t

/-- A slot finds the device in place throughout, or nobody takes notice of its end. -/
theorem clock_cases {slot : Slot} {t : τ} (hsteady : E.Steady True t (E.rise (E.level slot t) t))
    (n : Nat) :
    (socket E powerOn plan).Steady False ⟨t, true, n⟩
        ((socket E powerOn plan).rise (E.level slot t) ⟨t, true, n⟩) ∧
      ((socket E powerOn plan).clock slot ⟨t, true, n⟩ = ⟨E.clock slot t, true, n + 2⟩ ∨
        Out D ((socket E powerOn plan).clock slot ⟨t, true, n⟩)) := by
  have hclock : (socket E powerOn plan).clock slot ⟨t, true, n⟩ =
      ((socket E powerOn plan).rise (E.level slot t) ⟨t, true, n⟩).occur powerOn plan E.fall := rfl
  rw [hclock]
  rcases occur_cases hD (hD.rise (E.level slot t)) t n with hrise | hrise
  · have hrise' : (socket E powerOn plan).rise (E.level slot t) ⟨t, true, n⟩ =
        ⟨E.rise (E.level slot t) t, true, n + 1⟩ := hrise
    rw [hrise']
    refine ⟨?_, occur_cases hD hD.fall _ _⟩
    rcases hsteady with hsame | ⟨hnot, -⟩
    · exact Or.inl hsame
    · exact absurd trivial hnot
  · exact ⟨Or.inr ⟨not_false, sda_of_out hD hrise, stop_of_out hD hrise⟩,
      Or.inr (out_occur hD hD.fall hrise)⟩

/-- As long as the device stays in the socket, it is as if there were none; once
it is pulled out, the lines only go up. -/
theorem runs_plugged {slots : List Slot} {t t' : τ} {bits : List Bool}
    (h : Runs True E slots t bits t') (n : Nat) :
    ∃ bits' s', Runs False (socket E powerOn plan) slots ⟨t, true, n⟩ bits' s' ∧
      List.Forall₂ (fun bit bit' => bit = true → bit' = true) bits bits' ∧
      (s' = ⟨t', true, s'.events⟩ ∨ Out D s') := by
  induction slots generalizing t bits n with
  | nil =>
      obtain ⟨-, rfl, rfl⟩ := h
      exact ⟨[], ⟨t, true, n⟩, .nil _, .nil, Or.inl rfl⟩
  | cons slot slots ih =>
      obtain ⟨⟨hquiet, hsteady, hfollows⟩, rfl, rfl⟩ := h
      have hrest : Runs True E slots (E.clock slot t) (E.answers slots (E.clock slot t))
          (E.after slots (E.clock slot t)) := ⟨hfollows, rfl, rfl⟩
      obtain ⟨hsteady', hclock | hout⟩ := clock_cases hD hsteady n
      · obtain ⟨bits', s', hruns, hbits, hs'⟩ := ih hrest (n + 2)
        rw [← hclock] at hruns
        exact ⟨_, s', .cons hquiet hsteady' hruns, .cons id hbits, hs'⟩
      · obtain ⟨bits', s', hruns, hbits, hs'⟩ := runs_dropped hD hout hrest
        exact ⟨_, s', .cons hquiet hsteady' hruns, .cons id hbits, Or.inr hs'⟩

/-- A START finds a device that takes part, or nobody takes notice of it. -/
theorem begin_cases (s : Plugged τ) :
    Out D ((socket E powerOn plan).begin s) ∨
      ∃ t, (socket E powerOn plan).begin s = ⟨E.begin t, true, s.events + 2⟩ ∧
        (s.present = true ∧ t = s.device ∨ plan s.events = .insert ∧ t = powerOn s.device) := by
  rcases s with ⟨device, present, events⟩
  have habsent : ∀ t n, Out D ((⟨t, false, n⟩ : Plugged τ).occur powerOn plan E.fall) :=
    fun t n => out_occur hD hD.fall fun hpresent => by cases hpresent
  have hbegin : (socket E powerOn plan).begin ⟨device, present, events⟩ =
      ((⟨device, present, events⟩ : Plugged τ).occur powerOn plan E.start).occur
        powerOn plan E.fall := rfl
  rw [hbegin]
  cases hplan : plan events with
  | remove =>
      left
      rw [Plugged.occur.eq_def _ _ E.start]
      simp only [hplan]
      exact habsent _ _
  | keep =>
      cases present with
      | false =>
          left
          rw [Plugged.occur.eq_def _ _ E.start]
          simp only [hplan]
          exact habsent _ _
      | true =>
          have hstart : (⟨device, true, events⟩ : Plugged τ).occur powerOn plan E.start =
              ⟨E.start device, true, events + 1⟩ := by
            rw [Plugged.occur, hplan]
            rfl
          rw [hstart]
          rcases occur_cases hD hD.fall (E.start device) (events + 1) with hfall | hfall
          · exact Or.inr ⟨device, hfall, Or.inl ⟨rfl, rfl⟩⟩
          · exact Or.inl hfall
  | insert =>
      have hstart : (⟨device, present, events⟩ : Plugged τ).occur powerOn plan E.start =
          ⟨E.start (powerOn device), true, events + 1⟩ := by
        rw [Plugged.occur, hplan]
        rfl
      rw [hstart]
      rcases occur_cases hD hD.fall (E.start (powerOn device)) (events + 1) with hfall | hfall
      · exact Or.inr ⟨powerOn device, hfall, Or.inr ⟨rfl, rfl⟩⟩
      · exact Or.inl hfall

omit hD in
theorem sda_start (h : ∀ t, E.sda (E.start t) = true) (s : Plugged τ) :
    (socket E powerOn plan).sda ((socket E powerOn plan).start s) = true := by
  change (!((s.occur powerOn plan E.start).present) ||
    E.sda (s.occur powerOn plan E.start).device) = true
  unfold Plugged.occur
  cases hpresent : (s.change powerOn (plan s.events)).present with
  | false => simp [hpresent]
  | true => simp [hpresent, h]

theorem finish_out {s : Plugged τ} (h : Out D s) :
    (socket E powerOn plan).sda ((socket E powerOn plan).rise false s) = true ∧
      (socket E powerOn plan).sda ((socket E powerOn plan).finish s) = true ∧
      Out D ((socket E powerOn plan).finish s) := by
  have hrise : Out D ((socket E powerOn plan).rise false s) := out_occur hD (hD.rise false) h
  have hstop : (socket E powerOn plan).finish s = (socket E powerOn plan).rise false s :=
    stop_of_out hD hrise
  rw [hstop]
  exact ⟨sda_of_out hD hrise, sda_of_out hD hrise, hrise⟩

theorem finish_cases {t : τ} (hrise : E.sda (E.rise false t) = true)
    (hfinish : E.sda (E.finish t) = true) (n : Nat) :
    (socket E powerOn plan).sda ((socket E powerOn plan).rise false ⟨t, true, n⟩) = true ∧
      (socket E powerOn plan).sda ((socket E powerOn plan).finish ⟨t, true, n⟩) = true ∧
      ((socket E powerOn plan).finish ⟨t, true, n⟩ = ⟨E.finish t, true, n + 1⟩ ∨
        Out D ((socket E powerOn plan).finish ⟨t, true, n⟩)) := by
  have hdef : (socket E powerOn plan).finish ⟨t, true, n⟩ =
      (socket E powerOn plan).stop ((socket E powerOn plan).rise false ⟨t, true, n⟩) := rfl
  rcases occur_cases hD (hD.rise false) t n with hrise' | hrise'
  · have hkept : (socket E powerOn plan).rise false ⟨t, true, n⟩ =
        ⟨E.rise false t, true, n + 1⟩ := hrise'
    rw [hdef, hkept]
    exact ⟨hrise, hfinish, Or.inl rfl⟩
  · have hkept : Out D ((socket E powerOn plan).rise false ⟨t, true, n⟩) := hrise'
    rw [hdef, stop_of_out hD hkept]
    exact ⟨sda_of_out hD hkept, sda_of_out hD hkept, Or.inr hkept⟩

end Slots

/-- A property of the socket, in terms of whether a device is present and of the
device, that no event and no change breaks. -/
structure Kept (E : EventSlave τ) (powerOn : τ → τ) (P : Bool → τ → Prop) : Prop where
  start : ∀ t, P true t → P true (E.start t)
  stop : ∀ t, P true t → P true (E.stop t)
  rise : ∀ bit t, P true t → P true (E.rise bit t)
  fall : ∀ t, P true t → P true (E.fall t)
  remove : ∀ present t, P present t → P false t
  insert : ∀ present t, P present t → P true (powerOn t)

namespace Kept

variable {E : EventSlave τ} {powerOn : τ → τ} {plan : Nat → Change} {P : Bool → τ → Prop}
  (hP : Kept E powerOn P)

include hP

theorem occur {f : τ → τ} (hf : ∀ t, P true t → P true (f t)) {s : Plugged τ}
    (h : P s.present s.device) :
    P (s.occur powerOn plan f).present (s.occur powerOn plan f).device := by
  have hchange : P (s.change powerOn (plan s.events)).present
      (s.change powerOn (plan s.events)).device := by
    cases plan s.events with
    | keep => exact h
    | remove => exact hP.remove _ _ h
    | insert => exact hP.insert _ _ h
  unfold Plugged.occur
  generalize s.change powerOn (plan s.events) = s' at hchange ⊢
  rcases s' with ⟨device, present, events⟩
  cases present with
  | false => exact hchange
  | true => exact hf _ hchange

theorem socketStop {s : Plugged τ} (h : P s.present s.device) :
    P ((socket E powerOn plan).stop s).present ((socket E powerOn plan).stop s).device := by
  change P s.present (if s.present then E.stop s.device else s.device)
  cases hpresent : s.present with
  | false =>
      rw [hpresent] at h
      exact h
  | true =>
      rw [hpresent] at h
      exact hP.stop _ h

theorem begin {s : Plugged τ} (h : P s.present s.device) :
    P ((socket E powerOn plan).begin s).present ((socket E powerOn plan).begin s).device :=
  hP.occur hP.fall (hP.occur hP.start h)

theorem finish {s : Plugged τ} (h : P s.present s.device) :
    P ((socket E powerOn plan).finish s).present ((socket E powerOn plan).finish s).device :=
  hP.socketStop (hP.occur (hP.rise false) h)

theorem after (slots : List Slot) {s : Plugged τ} (h : P s.present s.device) :
    P ((socket E powerOn plan).after slots s).present
      ((socket E powerOn plan).after slots s).device := by
  induction slots generalizing s with
  | nil => exact h
  | cons slot slots ih => exact ih (hP.occur hP.fall (hP.occur (hP.rise _) h))

end Kept

section Undisturbed

variable {E : EventSlave τ} {powerOn : τ → τ} {plan : Nat → Change} {strict : Prop}
  (hplan : ∀ n, plan n = .keep)

include hplan

theorem occur_keep (f : τ → τ) (t : τ) (n : Nat) :
    (⟨t, true, n⟩ : Plugged τ).occur powerOn plan f = ⟨f t, true, n + 1⟩ := by
  unfold Plugged.occur
  rw [hplan]
  rfl

/-- A device that stays in the socket is as good as soldered on. -/
theorem runs_keep {slots : List Slot} {t t' : τ} {bits : List Bool}
    (h : Runs strict E slots t bits t') (n : Nat) :
    ∃ n', Runs strict (socket E powerOn plan) slots ⟨t, true, n⟩ bits ⟨t', true, n'⟩ := by
  induction slots generalizing t bits n with
  | nil =>
      obtain ⟨-, rfl, rfl⟩ := h
      exact ⟨n, .nil _⟩
  | cons slot slots ih =>
      obtain ⟨⟨hquiet, hsteady, hfollows⟩, rfl, rfl⟩ := h
      have hrest : Runs strict E slots (E.clock slot t) (E.answers slots (E.clock slot t))
          (E.after slots (E.clock slot t)) := ⟨hfollows, rfl, rfl⟩
      have hrise : (socket E powerOn plan).rise (E.level slot t) ⟨t, true, n⟩ =
          ⟨E.rise (E.level slot t) t, true, n + 1⟩ := occur_keep hplan _ _ _
      have hclock : (socket E powerOn plan).clock slot ⟨t, true, n⟩ =
          ⟨E.clock slot t, true, n + 2⟩ := by
        change ((socket E powerOn plan).rise (E.level slot t) ⟨t, true, n⟩).occur powerOn plan
          E.fall = _
        rw [hrise]
        exact occur_keep hplan _ _ _
      obtain ⟨n', hruns⟩ := ih hrest (n + 2)
      rw [← hclock] at hruns
      refine ⟨n', .cons hquiet ?_ hruns⟩
      change (socket E powerOn plan).Steady strict ⟨t, true, n⟩
        ((socket E powerOn plan).rise (E.level slot t) ⟨t, true, n⟩)
      rw [hrise]
      rcases hsteady with hsame | ⟨hnot, hsda, hstop⟩
      · exact Or.inl hsame
      · refine Or.inr ⟨hnot, hsda, ?_⟩
        change (⟨E.stop (E.rise (E.level slot t) t), true, n + 1⟩ : Plugged τ) = _
        rw [hstop]

end Undisturbed

end NesMiniAdapter.Socket
