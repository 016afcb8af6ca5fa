import NesMiniAdapter.BoardPhases
import NesMiniAdapter.I2cTransaction

/-!
Whole conversations, for any driver whose four functions do on the lines what
I2C asks of them.
-/

namespace NesMiniAdapter.I2cConversation

open NesMiniAdapter.FuelledProgram
open NesMiniAdapter.OpenDrainBus
open NesMiniAdapter.Attiny85
open NesMiniAdapter.BoardPhases
open NesMiniAdapter.I2cTransaction

variable {σ : Type}

/-- What the functions of a driver do on the lines with a slave that behaves
over the slots they clock. The registers satisfy `Rest` between transactions,
`Begun` after START and `Ready` after a call; `Valid` and `Result` are about
the calls the driver supports and what they return. -/
structure SpeaksI2c (strict : Prop) (S : Slave σ) (driver : I2cDriver (Board σ))
    (Valid : Call → Prop) (Result : Call → BitVec 8 → Prop)
    (Rest Begun Ready : Mcu → Prop) : Prop where
  start : ∀ {K : σ → Prop} {b : Board σ}, AtRest S (Idle S K) b → Rest b.mcu →
    Ends driver.i2cStart b fun _ b' =>
      InLow S K b' ∧ Begun b'.mcu ∧ b'.trace = b.trace ++ [.start, .fall]
  begun : ∀ {m : Mcu}, Ready m → Begun m
  call : ∀ {c : Call} {rest : List Slot} {Q : List Bool → σ → Prop} {b : Board σ},
    Valid c → InLow S (Session strict S (c.slots ++ rest) Q) b → Begun b.mcu →
    Ends (driver.call c) b fun r b' => Result c r ∧
      InLow S (Session strict S rest fun bits => Q (c.bits r ++ bits)) b' ∧ Ready b'.mcu ∧
      (strict → b'.trace = b.trace ++ pulses c.slots (c.bits r))
  stop : ∀ {Q : σ → Prop} {b : Board σ}, InLow S (Stopping strict S Q) b → Ready b.mcu →
    Ends driver.i2cStop b fun _ b' => AtRest S Q b' ∧ Rest b'.mcu ∧
      (strict → b'.trace = b.trace ++ [Slot.rise (.master false) false, .stop])

namespace SpeaksI2c

variable {strict : Prop} {S : Slave σ} {driver : I2cDriver (Board σ)} {Valid : Call → Prop}
  {Result : Call → BitVec 8 → Prop} {Rest Begun Ready : Mcu → Prop}

theorem calls_ends (hd : SpeaksI2c strict S driver Valid Result Rest Begun Ready)
    {cs : List Call} (hvalid : ∀ c ∈ cs, Valid c) {rest : List Slot}
    {Q : List Bool → σ → Prop} {b : Board σ}
    (h : InLow S (Session strict S (slotsOf cs ++ rest) Q) b) (hm : Begun b.mcu)
    (hready : cs = [] → Ready b.mcu) :
    Ends (driver.calls cs) b fun rs b' => Results Result cs rs ∧
      InLow S (Session strict S rest fun bits => Q (levelsOf cs rs ++ bits)) b' ∧
      Ready b'.mcu ∧
      (strict → b'.trace = b.trace ++ pulses (slotsOf cs) (levelsOf cs rs)) := by
  induction cs generalizing b Q with
  | nil =>
      refine ends_pure ⟨trivial, h, hready rfl, ?_⟩
      intro _
      simp [slotsOf, pulses]
  | cons c cs ih =>
      rw [slotsOf, List.append_assoc] at h
      refine ends_bind ((hd.call (hvalid c (by simp)) h hm).mono ?_)
      rintro r b₁ ⟨hr, hlow₁, hready₁, htrace₁⟩
      have hvalid' : ∀ c' ∈ cs, Valid c' := fun c' hc' => hvalid c' (by simp [hc'])
      refine ends_bind ((ih hvalid' hlow₁ (hd.begun hready₁) fun _ => hready₁).mono ?_)
      rintro rs b₂ ⟨hrs, hlow₂, hready₂, htrace₂⟩
      refine ends_pure ⟨⟨hr, hrs⟩, ?_, hready₂, ?_⟩
      · simpa only [levelsOf, List.append_assoc] using hlow₂
      · intro hstrict
        rw [htrace₂ hstrict, htrace₁ hstrict, slotsOf, levelsOf,
          pulses_append (c.length_slots r), List.append_assoc]

theorem transaction_ends (hd : SpeaksI2c strict S driver Valid Result Rest Begun Ready)
    {cs : List Call} (hvalid : ∀ c ∈ cs, Valid c) (hne : cs ≠ [])
    {Q : List Bool → σ → Prop} {b : Board σ}
    (h : AtRest S (Transaction strict S (slotsOf cs) Q) b) (hm : Rest b.mcu) :
    Ends (driver.transaction cs) b fun rs b' => Results Result cs rs ∧
      AtRest S (Q (levelsOf cs rs)) b' ∧ Rest b'.mcu ∧
      (strict → b'.trace = b.trace ++ transactionEvents cs rs) := by
  refine ends_bind ((hd.start h hm).mono ?_)
  rintro _ b₁ ⟨hlow₁, hm₁, htrace₁⟩
  rw [← List.append_nil (slotsOf cs)] at hlow₁
  refine ends_bind ((hd.calls_ends hvalid hlow₁ hm₁ fun hnil => absurd hnil hne).mono ?_)
  rintro rs b₂ ⟨hrs, hlow₂, hready₂, htrace₂⟩
  have hstop : InLow S (Stopping strict S (Q (levelsOf cs rs))) b₂ := by
    simpa only [Session, List.append_nil] using hlow₂
  refine ends_bind ((hd.stop hstop hready₂).mono ?_)
  rintro _ b₃ ⟨hrest₃, hm₃, htrace₃⟩
  refine ends_pure ⟨hrs, hrest₃, hm₃, ?_⟩
  intro hstrict
  rw [htrace₃ hstrict, htrace₂ hstrict, htrace₁]
  simp [transactionEvents]

theorem transactions_ends (hd : SpeaksI2c strict S driver Valid Result Rest Begun Ready)
    {css : List (List Call)} (hvalid : ∀ cs ∈ css, ∀ c ∈ cs, Valid c)
    (hne : ∀ cs ∈ css, cs ≠ []) {Q : List (List Bool) → σ → Prop} {b : Board σ}
    (h : AtRest S (Conversation strict S (css.map slotsOf) Q) b) (hm : Rest b.mcu) :
    Ends (driver.transactions css) b fun rss b' => ResultLists Result css rss ∧
      AtRest S (Q (css.zipWith levelsOf rss)) b' ∧ Rest b'.mcu ∧
      (strict → b'.trace = b.trace ++ conversationEvents css rss) := by
  induction css generalizing b Q with
  | nil =>
      refine ends_pure ⟨trivial, h, hm, ?_⟩
      intro _
      simp [conversationEvents]
  | cons cs css ih =>
      refine ends_bind ((hd.transaction_ends (hvalid cs (by simp)) (hne cs (by simp)) h
        hm).mono ?_)
      rintro rs b₁ ⟨hrs, hrest₁, hm₁, htrace₁⟩
      have hvalid' : ∀ cs' ∈ css, ∀ c ∈ cs', Valid c := fun cs' hcs' =>
        hvalid cs' (by simp [hcs'])
      have hne' : ∀ cs' ∈ css, cs' ≠ [] := fun cs' hcs' => hne cs' (by simp [hcs'])
      refine ends_bind ((ih hvalid' hne' hrest₁ hm₁).mono ?_)
      rintro rss b₂ ⟨hrss, hrest₂, hm₂, htrace₂⟩
      refine ends_pure ⟨⟨hrs, hrss⟩, hrest₂, hm₂, ?_⟩
      intro hstrict
      rw [htrace₂ hstrict, htrace₁ hstrict, conversationEvents, List.append_assoc]

end SpeaksI2c

end NesMiniAdapter.I2cConversation
