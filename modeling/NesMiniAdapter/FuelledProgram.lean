import Mathlib.Data.Nat.Notation

/-!
Programs on an explicit state whose loops run on fuel, and the rules for
proving that such a program ends. `Ends` is total correctness: from some fuel
on, every fuel gives the same result.
-/

namespace NesMiniAdapter.FuelledProgram

/-- A program on states `β`. The fuel bounds the rounds of each loop; `none`
means that some loop was still going when its rounds were used up. -/
abbrev Program (β α : Type) := ReaderT Nat (StateT β Option) α

variable {β α γ : Type}

/-- `p` ends from `b`, with a result and a final state that satisfy `Q`. -/
def Ends (p : Program β α) (b : β) (Q : α → β → Prop) : Prop :=
  ∃ a b', Q a b' ∧ ∃ N, ∀ fuel, N ≤ fuel → (p.run fuel).run b = some (a, b')

theorem Ends.mono {p : Program β α} {b : β} {Q R : α → β → Prop}
    (h : Ends p b Q) (hQR : ∀ a b', Q a b' → R a b') : Ends p b R := by
  obtain ⟨a, b', hQ, hrun⟩ := h
  exact ⟨a, b', hQR a b' hQ, hrun⟩

/-- There is only one result. -/
theorem Ends.and {p : Program β α} {b : β} {Q R : α → β → Prop}
    (hQ : Ends p b Q) (hR : Ends p b R) : Ends p b fun a b' => Q a b' ∧ R a b' := by
  obtain ⟨a, b₁, hQ, N, hrun⟩ := hQ
  obtain ⟨a', b₂, hR, N', hrun'⟩ := hR
  have hsame : some (a, b₁) = some (a', b₂) :=
    (hrun (max N N') (by omega)).symm.trans (hrun' (max N N') (by omega))
  obtain ⟨rfl, rfl⟩ := Prod.mk.inj (Option.some.inj hsame)
  exact ⟨a, b₁, ⟨hQ, hR⟩, N, hrun⟩

theorem Ends.exists {p : Program β α} {b : β} {Q : α → β → Prop} (h : Ends p b Q) :
    ∃ a b', Q a b' := by
  obtain ⟨a, b', hQ, -⟩ := h
  exact ⟨a, b', hQ⟩

theorem ends_pure {a : α} {b : β} {Q : α → β → Prop} (h : Q a b) :
    Ends (pure a : Program β α) b Q :=
  ⟨a, b, h, 0, fun _ _ => rfl⟩

theorem ends_bind {p : Program β α} {f : α → Program β γ} {b : β}
    {Q : γ → β → Prop}
    (h : Ends p b fun a b' => Ends (f a) b' Q) : Ends (p >>= f) b Q := by
  obtain ⟨a, b₁, ⟨c, b₂, hQ, N₂, hf⟩, N₁, hp⟩ := h
  refine ⟨c, b₂, hQ, max N₁ N₂, ?_⟩
  intro fuel hfuel
  have hp' := hp fuel (by omega)
  have hf' := hf fuel (by omega)
  simp only [ReaderT.run_bind, StateT.run_bind, hp']
  exact hf'

theorem ends_modify {f : β → β} {b : β} {Q : Unit → β → Prop}
    (h : Q () (f b)) : Ends (modify f : Program β Unit) b Q :=
  ⟨(), f b, h, 0, fun _ _ => rfl⟩

theorem ends_get {b : β} {Q : β → β → Prop} (h : Q b b) :
    Ends (get : Program β β) b Q :=
  ⟨b, b, h, 0, fun _ _ => rfl⟩

/-- At most `n` evaluations of the test, with the body after each true one. -/
def rounds (test : Program β Bool) (body : Program β Unit) : Nat → Program β Unit
  | 0 => fun _ _ => none
  | n + 1 => do
      if ← test then
        body
        rounds test body n

/-- `while (test) body`. -/
def whileLoop (test : Program β Bool) (body : Program β Unit) : Program β Unit := do
  rounds test body (← read)

/-- `do body while (test)`. -/
def doWhile (body : Program β Unit) (test : Program β Bool) : Program β Unit := do
  body
  whileLoop test body

theorem rounds_ends {test : Program β Bool} {body : Program β Unit}
    {Q : Unit → β → Prop} (I : Nat → β → Prop)
    (hstep : ∀ n b, I n b → Ends test b fun again b' =>
      if again then Ends body b' fun _ b'' => ∃ m < n, I m b'' else Q () b') :
    ∀ n b, I n b → ∃ b', Q () b' ∧ ∃ N, ∀ fuel k, N ≤ fuel → N ≤ k →
      ((rounds test body k).run fuel).run b = some ((), b') := by
  intro n
  induction n using Nat.strongRecOn with
  | _ n ih =>
      intro b hI
      obtain ⟨again, b₁, hagain, N₁, htest⟩ := hstep n b hI
      cases again with
      | false =>
          refine ⟨b₁, by simpa using hagain, N₁ + 1, ?_⟩
          intro fuel k hfuel hk
          obtain ⟨k, rfl⟩ := Nat.exists_eq_add_of_le' (show 1 ≤ k by omega)
          simp only [rounds, ReaderT.run_bind, StateT.run_bind,
            htest fuel (by omega)]
          rfl
      | true =>
          obtain ⟨_, b₂, ⟨m, hm, hI₂⟩, N₂, hbody⟩ := by simpa using hagain
          obtain ⟨b₃, hQ, N₃, hrest⟩ := ih m hm b₂ hI₂
          refine ⟨b₃, hQ, max (max N₁ N₂) N₃ + 1, ?_⟩
          intro fuel k hfuel hk
          obtain ⟨k, rfl⟩ := Nat.exists_eq_add_of_le' (show 1 ≤ k by omega)
          have hrest' := hrest fuel k (by omega) (by omega)
          simp only [rounds, ReaderT.run_bind, StateT.run_bind,
            htest fuel (by omega)]
          simp only [Option.bind_eq_bind, Option.bind_some, if_true,
            ReaderT.run_bind, StateT.run_bind, hbody fuel (by omega)]
          exact hrest'

/-- The loop rule: `I n` holds before each test, where `n` bounds the rounds
that are left. -/
theorem ends_whileLoop {test : Program β Bool} {body : Program β Unit}
    {Q : Unit → β → Prop} (I : Nat → β → Prop)
    (hstep : ∀ n b, I n b → Ends test b fun again b' =>
      if again then Ends body b' fun _ b'' => ∃ m < n, I m b'' else Q () b')
    {n : Nat} {b : β} (hI : I n b) : Ends (whileLoop test body) b Q := by
  obtain ⟨b', hQ, N, hrun⟩ := rounds_ends I hstep n b hI
  exact ⟨(), b', hQ, N, fun fuel hfuel => hrun fuel fuel hfuel hfuel⟩

theorem ends_whileLoop_of_false {test : Program β Bool} {body : Program β Unit}
    {b : β} {Q : Unit → β → Prop}
    (h : Ends test b fun again b' => again = false ∧ Q () b') :
    Ends (whileLoop test body) b Q := by
  refine ends_whileLoop (fun _ b' => b' = b) ?_ (n := 0) rfl
  rintro n b' rfl
  refine h.mono ?_
  rintro again b₁ ⟨rfl, hQ⟩
  exact hQ

section Counting

variable {w : Nat} {length : BitVec w} {body : BitVec w → Program β Unit}

/-- The rounds of `forBelow` from `i` on. -/
def roundsBelow (length : BitVec w) (body : BitVec w → Program β Unit) :
    Nat → BitVec w → Program β Unit
  | 0, _ => fun _ _ => none
  | n + 1, i =>
      if i < length then do
        body i
        roundsBelow length body n (i + 1)
      else
        pure ()

/-- `for (i = 0; i < length; i++) body`, with a counter of `w` bits. -/
def forBelow (length : BitVec w) (body : BitVec w → Program β Unit) : Program β Unit := do
  roundsBelow length body (← read) 0#w

theorem roundsBelow_ends (I : Nat → β → Prop)
    (hbody : ∀ i b, i < length → I i.toNat b → Ends (body i) b fun _ b' => I (i.toNat + 1) b')
    (left : Nat) {i : BitVec w} (hleft : i.toNat + left = length.toNat) {b : β}
    (hI : I i.toNat b) :
    ∃ b', I length.toNat b' ∧ ∃ N, ∀ fuel k, N ≤ fuel → N ≤ k →
      ((roundsBelow length body k i).run fuel).run b = some ((), b') := by
  induction left generalizing i b with
  | zero =>
      have hend : ¬ i < length := by
        rw [BitVec.lt_def]
        omega
      refine ⟨b, ?_, 1, ?_⟩
      · rw [← hleft]
        exact hI
      · intro fuel k _ hk
        obtain ⟨k, rfl⟩ := Nat.exists_eq_add_of_le' hk
        rw [roundsBelow, if_neg hend]
        rfl
  | succ left ih =>
      have hmore : i < length := by
        rw [BitVec.lt_def]
        omega
      -- The counter does not wrap around: it stays below `length`.
      have hsucc : (i + 1).toNat = i.toNat + 1 := by
        have hlength := length.isLt
        have hone : (1 : BitVec w).toNat = 1 := by
          simp [Nat.mod_eq_of_lt (show 1 < 2 ^ w by omega)]
        rw [BitVec.toNat_add_of_lt (by omega), hone]
      obtain ⟨_, b₁, hI₁, N₁, hrun₁⟩ := hbody i b hmore hI
      obtain ⟨b₂, hI₂, N₂, hrun₂⟩ := ih (i := i + 1) (by omega) (by rw [hsucc]; exact hI₁)
      refine ⟨b₂, hI₂, max N₁ N₂ + 1, ?_⟩
      intro fuel k hfuel hk
      obtain ⟨k, rfl⟩ := Nat.exists_eq_add_of_le' (show 1 ≤ k by omega)
      rw [roundsBelow, if_pos hmore]
      simp only [ReaderT.run_bind, StateT.run_bind, hrun₁ fuel (by omega)]
      exact hrun₂ fuel k (by omega) (by omega)

/-- The rule for a counting loop: `I n` holds after `n` rounds. -/
theorem ends_forBelow (I : Nat → β → Prop)
    (hbody : ∀ i b, i < length → I i.toNat b → Ends (body i) b fun _ b' => I (i.toNat + 1) b')
    {b : β} (hI : I 0 b) : Ends (forBelow length body) b fun _ b' => I length.toNat b' := by
  obtain ⟨b', hI', N, hrun⟩ :=
    roundsBelow_ends I hbody length.toNat (i := 0#w) (by simp) (by simpa using hI)
  exact ⟨(), b', hI', N, fun fuel hfuel => hrun fuel fuel hfuel hfuel⟩

end Counting

/-- Whatever the fuel, a run of `p` that ends keeps `I`. -/
def Preserves (I : β → Prop) (p : Program β α) : Prop :=
  ∀ fuel b a b', I b → (p.run fuel).run b = some (a, b') → I b'

section Preserves

variable {I : β → Prop}

theorem preserves_pure (a : α) : Preserves I (pure a : Program β α) := by
  rintro fuel b a' b' hI ⟨⟩
  exact hI

theorem preserves_get : Preserves I (get : Program β β) := by
  rintro fuel b a' b' hI ⟨⟩
  exact hI

theorem preserves_modify {f : β → β} (h : ∀ b, I b → I (f b)) :
    Preserves I (modify f : Program β Unit) := by
  rintro fuel b a' b' hI ⟨⟩
  exact h b hI

theorem preserves_bind {p : Program β α} {f : α → Program β γ} (hp : Preserves I p)
    (hf : ∀ a, Preserves I (f a)) : Preserves I (p >>= f) := by
  intro fuel b c b' hI hrun
  simp only [ReaderT.run_bind, StateT.run_bind, Option.bind_eq_bind,
    Option.bind_eq_some_iff, Prod.exists] at hrun
  obtain ⟨a, b₁, hrun₁, hrun₂⟩ := hrun
  exact hf a fuel b₁ c b' (hp fuel b a b₁ hI hrun₁) hrun₂

theorem preserves_rounds {test : Program β Bool} {body : Program β Unit}
    (htest : Preserves I test) (hbody : Preserves I body) (n : Nat) :
    Preserves I (rounds test body n) := by
  induction n with
  | zero =>
      rintro fuel b a b' hI ⟨⟩
  | succ n ih =>
      refine preserves_bind htest ?_
      intro again
      cases again with
      | false => exact preserves_pure ()
      | true => exact preserves_bind hbody fun _ => ih

theorem preserves_whileLoop {test : Program β Bool} {body : Program β Unit}
    (htest : Preserves I test) (hbody : Preserves I body) :
    Preserves I (whileLoop test body) := by
  intro fuel b a b' hI hrun
  exact preserves_rounds htest hbody fuel fuel b a b' hI hrun

theorem preserves_doWhile {test : Program β Bool} {body : Program β Unit}
    (hbody : Preserves I body) (htest : Preserves I test) :
    Preserves I (doWhile body test) :=
  preserves_bind hbody fun _ => preserves_whileLoop htest hbody

end Preserves

/-- No fuel is enough for `p` from `b`. -/
def Diverges (p : Program β α) (b : β) : Prop := ∀ fuel, (p.run fuel).run b = none

/-- More fuel does not change a result. -/
def Settled (p : Program β α) : Prop :=
  ∀ fuel fuel' b r, fuel ≤ fuel' → (p.run fuel).run b = some r → (p.run fuel').run b = some r

section Diverges

theorem settled_pure (a : α) : Settled (pure a : Program β α) := fun _ _ _ _ _ h => h

theorem settled_get : Settled (get : Program β β) := fun _ _ _ _ _ h => h

theorem settled_modify (f : β → β) : Settled (modify f : Program β Unit) := fun _ _ _ _ _ h => h

theorem settled_bind {p : Program β α} {f : α → Program β γ} (hp : Settled p)
    (hf : ∀ a, Settled (f a)) : Settled (p >>= f) := by
  intro fuel fuel' b r hle hrun
  simp only [ReaderT.run_bind, StateT.run_bind, Option.bind_eq_bind,
    Option.bind_eq_some_iff, Prod.exists] at hrun ⊢
  obtain ⟨a, b₁, hrun₁, hrun₂⟩ := hrun
  exact ⟨a, b₁, hp fuel fuel' b _ hle hrun₁, hf a fuel fuel' b₁ r hle hrun₂⟩

theorem settled_rounds {test : Program β Bool} {body : Program β Unit} (htest : Settled test)
    (hbody : Settled body) {n n' fuel fuel' : Nat} {b : β} {r : Unit × β} (hn : n ≤ n')
    (hle : fuel ≤ fuel') (hrun : ((rounds test body n).run fuel).run b = some r) :
    ((rounds test body n').run fuel').run b = some r := by
  induction n generalizing n' b with
  | zero => cases hrun
  | succ n ih =>
      obtain ⟨n', rfl⟩ := Nat.exists_eq_add_of_le' (show 1 ≤ n' by omega)
      simp only [rounds, ReaderT.run_bind, StateT.run_bind, Option.bind_eq_bind,
        Option.bind_eq_some_iff, Prod.exists] at hrun ⊢
      obtain ⟨again, b₁, htest₁, hrest⟩ := hrun
      refine ⟨again, b₁, htest fuel fuel' b _ hle htest₁, ?_⟩
      cases again with
      | false => exact hrest
      | true =>
          simp only [if_true, ReaderT.run_bind, StateT.run_bind, Option.bind_eq_bind,
            Option.bind_eq_some_iff, Prod.exists] at hrest ⊢
          obtain ⟨u, b₂, hbody₁, hrest⟩ := hrest
          exact ⟨u, b₂, hbody fuel fuel' b₁ _ hle hbody₁, ih (by omega) hrest⟩

theorem settled_whileLoop {test : Program β Bool} {body : Program β Unit} (htest : Settled test)
    (hbody : Settled body) : Settled (whileLoop test body) :=
  fun _ _ _ _ hle hrun => settled_rounds htest hbody hle hle hrun

theorem settled_doWhile {test : Program β Bool} {body : Program β Unit} (hbody : Settled body)
    (htest : Settled test) : Settled (doWhile body test) :=
  settled_bind hbody fun _ => settled_whileLoop htest hbody

theorem Settled.result {p : Program β α} (h : Settled p) {b : β} {Q : α → β → Prop}
    (hends : Ends p b Q) {fuel : Nat} {r : α × β} (hrun : (p.run fuel).run b = some r) :
    Q r.1 r.2 := by
  obtain ⟨a, b', hQ, N, hN⟩ := hends
  have hlarge := h fuel (max N fuel) b r (Nat.le_max_right _ _) hrun
  rw [hN (max N fuel) (Nat.le_max_left _ _)] at hlarge
  obtain rfl := Option.some.inj hlarge
  exact hQ

theorem diverges_bind {p : Program β α} {f : α → Program β γ} {b : β} (hp : Settled p)
    (h : Ends p b fun a b' => Diverges (f a) b') : Diverges (p >>= f) b := by
  intro fuel
  simp only [ReaderT.run_bind, StateT.run_bind]
  cases hrun : (p.run fuel).run b with
  | none => rfl
  | some r => exact hp.result h hrun fuel

theorem diverges_bind_left {p : Program β α} {f : α → Program β γ} {b : β} (h : Diverges p b) :
    Diverges (p >>= f) b := by
  intro fuel
  simp only [ReaderT.run_bind, StateT.run_bind, h fuel]
  rfl

/-- A loop whose test never fails. -/
theorem diverges_whileLoop {test : Program β Bool} {body : Program β Unit} (I : β → Prop)
    (htest : Settled test) (hbody : Settled body)
    (hstep : ∀ b, I b → Ends test b fun again b' => again = true ∧ Ends body b' fun _ => I)
    {b : β} (hI : I b) : Diverges (whileLoop test body) b := by
  have hrounds : ∀ n fuel b, I b → ((rounds test body n).run fuel).run b = none := by
    intro n fuel
    induction n with
    | zero => exact fun _ _ => rfl
    | succ n ih =>
        intro b hI
        simp only [rounds, ReaderT.run_bind, StateT.run_bind]
        cases hrun : (test.run fuel).run b with
        | none => rfl
        | some r =>
            obtain ⟨again, b₁⟩ := r
            obtain ⟨rfl, hends⟩ := htest.result (hstep b hI) hrun
            simp only [Option.bind_eq_bind, Option.bind_some, if_true, ReaderT.run_bind,
              StateT.run_bind]
            cases hrun' : (body.run fuel).run b₁ with
            | none => rfl
            | some r' => exact ih r'.2 (hbody.result hends hrun')
  exact fun fuel => hrounds fuel fuel b hI

end Diverges

end NesMiniAdapter.FuelledProgram
