import Mathlib.Data.Nat.Notation

/-!
A program whose accesses to a shared state may each be preceded by interrupts, and
rules for assertions that the interrupt handler does not break.
-/

namespace NesMiniAdapter.InterruptedProgram

/-- A program on states `σ`. Before each access the handler serves the events that
are due then; the list holds the events due at each of the accesses to come. -/
abbrev Program (σ ε α : Type) := StateM (σ × List (List ε)) α

variable {σ ε α β : Type}

section Semantics

variable (handler : ε → σ → σ)

def serve (events : List ε) (s : σ) : σ := events.foldl (fun s e => handler e s) s

/-- One access, which nothing interrupts. -/
def access (f : σ → α × σ) : Program σ ε α := fun (s, due) =>
  let s := serve handler (due.headD []) s
  ((f s).1, (f s).2, due.tail)

def load (f : σ → α) : Program σ ε α := access handler fun s => (f s, s)

def store (f : σ → σ) : Program σ ε Unit := access handler fun s => ((), f s)

/-- `program i` for each `i` below the bound, with the results. -/
def forUpTo (program : Nat → Program σ ε α) : Nat → Program σ ε (List α)
  | 0 => pure []
  | n + 1 => do
      let results ← forUpTo program n
      let result ← program n
      return results ++ [result]

end Semantics

/-- A state with a log that only the handler writes. -/
class Logged (σ : Type) where
  Entry : Type
  log : σ → List Entry

/-- Whenever `P` holds before the program, whatever events come while it runs, `Q` holds
after it. With nothing due, nothing comes and the log stays as it was. -/
def Triple [Logged σ] (P : σ → Prop) (program : Program σ ε α) (Q : α → σ → Prop) : Prop :=
  ∀ s due, P s → Q (program (s, due)).1 (program (s, due)).2.1 ∧
    (due = [] → (program (s, due)).2.2 = [] ∧ Logged.log (program (s, due)).2.1 = Logged.log s)

/-- What the handler does not break. -/
def Stable (handler : ε → σ → σ) (P : σ → Prop) : Prop := ∀ e s, P s → P (handler e s)

section Rules

variable {handler : ε → σ → σ} {P P' : σ → Prop} {Q Q' : α → σ → Prop}

theorem Stable.serve (h : Stable handler P) (events : List ε) {s : σ} (hs : P s) :
    P (serve handler events s) := by
  induction events generalizing s with
  | nil => exact hs
  | cons e events ih => exact ih (h e s hs)

theorem Stable.and (h : Stable handler P) (h' : Stable handler P') :
    Stable handler fun s => P s ∧ P' s :=
  fun e s hs => ⟨h e s hs.1, h' e s hs.2⟩

variable [Logged σ]

theorem Triple.consequence {program : Program σ ε α} (h : Triple P program Q)
    (hP : ∀ s, P' s → P s) (hQ : ∀ a s, Q a s → Q' a s) : Triple P' program Q' :=
  fun s due hs => (h s due (hP s hs)).imp (hQ _ _) id

theorem Triple.pre {program : Program σ ε α} (h : Triple P program Q) (hP : ∀ s, P' s → P s) :
    Triple P' program Q := h.consequence hP fun _ _ => id

theorem Triple.and {program : Program σ ε α} (h : Triple P program Q)
    (h' : Triple P' program Q') :
    Triple (fun s => P s ∧ P' s) program fun a s => Q a s ∧ Q' a s :=
  fun s due hs => ⟨⟨(h s due hs.1).1, (h' s due hs.2).1⟩, (h s due hs.1).2⟩

theorem triple_pure {a : α} (h : ∀ s, P s → Q a s) : Triple P (pure a : Program σ ε α) Q :=
  fun s _ hs => ⟨h s hs, fun hnil => ⟨hnil, rfl⟩⟩

theorem triple_bind {program : Program σ ε α} {next : α → Program σ ε β} {R : β → σ → Prop}
    (h : Triple P program Q) (hnext : ∀ a, Triple (Q a) (next a) R) :
    Triple P (program >>= next) R := by
  intro s due hs
  obtain ⟨hQ, hquiet⟩ := h s due hs
  obtain ⟨hR, hquiet'⟩ := hnext _ _ (program (s, due)).2.2 hQ
  refine ⟨hR, ?_⟩
  intro hnil
  obtain ⟨hdue, hlog⟩ := hquiet hnil
  obtain ⟨hdue', hlog'⟩ := hquiet' hdue
  exact ⟨hdue', hlog'.trans hlog⟩

theorem triple_access {f : σ → α × σ} (hstable : Stable handler P)
    (h : ∀ s, P s → Q (f s).1 (f s).2)
    (hlog : ∀ s, Logged.log (f s).2 = Logged.log s := by exact fun _ => rfl) :
    Triple P (access handler f) Q := by
  intro s due hs
  refine ⟨h _ (hstable.serve (due.headD []) hs), ?_⟩
  rintro rfl
  exact ⟨rfl, hlog s⟩

theorem triple_load {f : σ → α} (hstable : Stable handler P) (h : ∀ s, P s → Q (f s) s) :
    Triple P (load handler f) Q :=
  triple_access hstable h

theorem triple_store {f : σ → σ} {Q : Unit → σ → Prop} (hstable : Stable handler P)
    (h : ∀ s, P s → Q () (f s))
    (hlog : ∀ s, Logged.log (f s) = Logged.log s := by exact fun _ => rfl) :
    Triple P (store handler f) Q :=
  triple_access hstable h hlog

theorem triple_ite {c : Prop} [Decidable c] {program program' : Program σ ε α}
    (h : c → Triple P program Q) (h' : ¬ c → Triple P program' Q) :
    Triple P (if c then program else program') Q := by
  split
  · exact h ‹c›
  · exact h' ‹¬ c›

theorem triple_or {program : Program σ ε α} (h : Triple P program Q) (h' : Triple P' program Q) :
    Triple (fun s => P s ∨ P' s) program Q :=
  fun s due hs => hs.elim (h s due) (h' s due)

theorem triple_exists {ι : Type} {program : Program σ ε α} {R : ι → σ → Prop}
    (h : ∀ i, Triple (R i) program Q) : Triple (fun s => ∃ i, R i s) program Q :=
  fun s due ⟨i, hs⟩ => h i s due hs

theorem triple_and_left {p : Prop} {program : Program σ ε α} (h : p → Triple P program Q) :
    Triple (fun s => p ∧ P s) program Q :=
  fun s due hs => h hs.1 s due hs.2

/-- The loop rule: `I n results` holds before the round with number `n`. -/
theorem triple_forUpTo {program : Nat → Program σ ε α} (I : Nat → List α → σ → Prop) {n : Nat}
    (h : ∀ i < n, ∀ results,
      Triple (I i results) (program i) fun a s => I (i + 1) (results ++ [a]) s) :
    Triple (I 0 []) (forUpTo program n) (I n) := by
  induction n with
  | zero => exact triple_pure fun _ => id
  | succ n ih =>
      refine triple_bind (ih fun i hi => h i (by omega)) ?_
      intro results
      refine triple_bind (h n (by omega) results) ?_
      intro a
      exact triple_pure fun _ => id

end Rules

/-- A program that owns the part `w` of the state, by `P w`, leaves it as `w'` and
returns `a`, whatever events come. -/
def Runs [Logged σ] {ω : Type} (P : ω → σ → Prop) (program : Program σ ε α) (w : ω) (a : α)
    (w' : ω) : Prop :=
  Triple (P w) program fun a' s => a' = a ∧ P w' s

section Runs

variable [Logged σ] {ω : Type} {P : ω → σ → Prop} {handler : ε → σ → σ} {w w' w'' : ω}

theorem runs_pure {a : α} : Runs P (pure a : Program σ ε α) w a w :=
  triple_pure fun _ h => ⟨rfl, h⟩

theorem runs_bind {program : Program σ ε α} {next : α → Program σ ε β} {a : α} {b : β}
    (h : Runs P program w a w') (hnext : Runs P (next a) w' b w'') :
    Runs P (program >>= next) w b w'' := by
  refine triple_bind h ?_
  intro a'
  apply triple_and_left
  rintro rfl
  exact hnext

/-- A program that owns something runs to its end before another goes on. -/
theorem Runs.triple_bind {program : Program σ ε α} {next : α → Program σ ε β} {a : α}
    {Q : β → σ → Prop} (h : Runs P program w a w') (hnext : Triple (P w') (next a) Q) :
    Triple (P w) (program >>= next) Q := by
  refine InterruptedProgram.triple_bind h ?_
  intro a'
  apply triple_and_left
  rintro rfl
  exact hnext

theorem runs_load {f : σ → α} {a : α} (hstable : Stable handler (P w))
    (h : ∀ s, P w s → f s = a) : Runs P (load handler f) w a w :=
  triple_load hstable fun s hs => ⟨h s hs, hs⟩

theorem runs_store {f : σ → σ} (hstable : Stable handler (P w)) (h : ∀ s, P w s → P w' (f s))
    (hlog : ∀ s, Logged.log (f s) = Logged.log s := by exact fun _ => rfl) :
    Runs P (store handler f) w () w' :=
  triple_store hstable (fun s hs => ⟨rfl, h s hs⟩) hlog

/-- A loop runs through the parts `v 0`, `v 1`, …, with the results `f 0`, `f 1`, …. -/
theorem runs_forUpTo {program : Nat → Program σ ε α} (v : Nat → ω) (f : Nat → α) {n : Nat}
    (h : ∀ i < n, Runs P (program i) (v i) (f i) (v (i + 1))) :
    Runs P (forUpTo program n) (v 0) ((List.range n).map f) (v n) := by
  induction n with
  | zero => exact runs_pure
  | succ n ih =>
      rw [List.range_succ, List.map_append]
      refine runs_bind (ih fun i hi => h i (by omega)) ?_
      exact runs_bind (h n (by omega)) runs_pure

end Runs

end NesMiniAdapter.InterruptedProgram
