import Mathlib.Data.List.FinRange
import Mathlib.Data.List.Induction

/-!
The XInput report of `utils/xinputreporthandler.c`: a buffer of twenty bytes
that records the last value written to each of seven fields.
-/

namespace NesMiniAdapter.XinputReport

abbrev xinputReportSize : Nat := 20

abbrev xinputReportIndexButtons : BitVec 8 := 2#8
abbrev xinputReportIndexTriggerLeft : BitVec 8 := 4#8
abbrev xinputReportIndexTriggerRight : BitVec 8 := 5#8
abbrev xinputReportIndexJoystickLeft : BitVec 8 := 6#8
abbrev xinputReportIndexJoystickRight : BitVec 8 := 10#8

/-- `sizeof(int)` on AVR. -/
abbrev sizeofInt : Nat := 2

abbrev Report := Vector (BitVec 8) xinputReportSize

/-- `report[i] = value`. All indices in the source are constants within the
report, so a write outside it has no effect here. -/
def put (report : Report) (i : Nat) (value : BitVec 8) : Report :=
  report.setIfInBounds i value

/-- An `int` assigned to a `char`. -/
def toChar (v : BitVec 16) : BitVec 8 := v.setWidth 8

/-- The first `n` rounds of the loop of `XinputReportInit`. -/
def clear (report : Report) : Nat → Report
  | 0 => report
  | n + 1 => put (clear report n) n 0x00#8

def xinputReportInit (report : Report) : Report :=
  put (clear report xinputReportSize) 1 0x14#8

def xinputReportSetButtons (report : Report) (buttons : BitVec 16) : Report :=
  if sizeofInt ≠ 2 then report
  else
    let report := put report xinputReportIndexButtons.toNat (toChar buttons)
    put report (xinputReportIndexButtons.toNat + 1) (toChar (buttons.sshiftRight 8))

def xinputReportSetTrigger (report : Report) (trigger triggerValue : BitVec 8) : Report :=
  put report trigger.toNat triggerValue

def xinputReportSetTriggerLeft (report : Report) (triggerValue : BitVec 8) : Report :=
  xinputReportSetTrigger report xinputReportIndexTriggerLeft triggerValue

def xinputReportSetTriggerRight (report : Report) (triggerValue : BitVec 8) : Report :=
  xinputReportSetTrigger report xinputReportIndexTriggerRight triggerValue

def xinputReportSetJoystick (report : Report) (joystick : BitVec 8)
    (xAxis yAxis : BitVec 16) : Report :=
  let report := put report joystick.toNat (toChar xAxis)
  let report := put report (joystick.toNat + 1) (toChar (xAxis.sshiftRight 8))
  let report := put report (joystick.toNat + 2) (toChar yAxis)
  put report (joystick.toNat + 3) (toChar (yAxis.sshiftRight 8))

def xinputReportSetJoystickLeft (report : Report) (xAxis yAxis : BitVec 16) : Report :=
  xinputReportSetJoystick report xinputReportIndexJoystickLeft xAxis yAxis

def xinputReportSetJoystickRight (report : Report) (xAxis yAxis : BitVec 16) : Report :=
  xinputReportSetJoystick report xinputReportIndexJoystickRight xAxis yAxis

/-- The loop of `XinputReportBuffersEqual` over the indices that are left. -/
def equalAt (reportOne reportTwo : Report) : List (Fin xinputReportSize) → BitVec 8
  | [] => 1#8
  | i :: is => if reportOne[i] ≠ reportTwo[i] then 0#8 else equalAt reportOne reportTwo is

def xinputReportBuffersEqual (reportOne reportTwo : Report) : BitVec 8 :=
  equalAt reportOne reportTwo (List.finRange xinputReportSize)

/-- A call of one of the setters. -/
inductive Setter where
  | buttons (value : BitVec 16)
  | triggerLeft (value : BitVec 8)
  | triggerRight (value : BitVec 8)
  | joystickLeft (xAxis yAxis : BitVec 16)
  | joystickRight (xAxis yAxis : BitVec 16)
  deriving DecidableEq, Repr

def Setter.apply (report : Report) : Setter → Report
  | .buttons value => xinputReportSetButtons report value
  | .triggerLeft value => xinputReportSetTriggerLeft report value
  | .triggerRight value => xinputReportSetTriggerRight report value
  | .joystickLeft xAxis yAxis => xinputReportSetJoystickLeft report xAxis yAxis
  | .joystickRight xAxis yAxis => xinputReportSetJoystickRight report xAxis yAxis

/-- `XinputReportInit` and then the calls, in order. -/
def rendered (report : Report) (setters : List Setter) : Report :=
  setters.foldl Setter.apply (xinputReportInit report)

/-- What a report stands for. -/
structure Fields where
  buttons : BitVec 16
  triggerLeft : BitVec 8
  triggerRight : BitVec 8
  leftX : BitVec 16
  leftY : BitVec 16
  rightX : BitVec 16
  rightY : BitVec 16
  deriving DecidableEq, Repr

/-- The value of the last call that sets a field, and zero if none does. -/
def lastOf {w : Nat} (field : Setter → Option (BitVec w)) (setters : List Setter) : BitVec w :=
  (setters.filterMap field).getLast?.getD 0#w

def Fields.last (setters : List Setter) : Fields where
  buttons := lastOf (fun | .buttons v => some v | _ => none) setters
  triggerLeft := lastOf (fun | .triggerLeft v => some v | _ => none) setters
  triggerRight := lastOf (fun | .triggerRight v => some v | _ => none) setters
  leftX := lastOf (fun | .joystickLeft x _ => some x | _ => none) setters
  leftY := lastOf (fun | .joystickLeft _ y => some y | _ => none) setters
  rightX := lastOf (fun | .joystickRight x _ => some x | _ => none) setters
  rightY := lastOf (fun | .joystickRight _ y => some y | _ => none) setters

/-- Two bytes as a little-endian word. -/
def word (low high : BitVec 8) : BitVec 16 := high ++ low

/-- The fields as the bytes of a report show them. -/
def decode (report : Report) : Fields where
  buttons := word report[2] report[3]
  triggerLeft := report[4]
  triggerRight := report[5]
  leftX := word report[6] report[7]
  leftY := word report[8] report[9]
  rightX := word report[10] report[11]
  rightY := word report[12] report[13]

/-- The report that shows given fields. -/
def render (f : Fields) : Report :=
  #v[0x00#8, 0x14#8, toChar f.buttons, toChar (f.buttons.sshiftRight 8),
    f.triggerLeft, f.triggerRight,
    toChar f.leftX, toChar (f.leftX.sshiftRight 8), toChar f.leftY, toChar (f.leftY.sshiftRight 8),
    toChar f.rightX, toChar (f.rightX.sshiftRight 8),
    toChar f.rightY, toChar (f.rightY.sshiftRight 8),
    0x00#8, 0x00#8, 0x00#8, 0x00#8, 0x00#8, 0x00#8]

theorem word_toChar (v : BitVec 16) : word (toChar v) (toChar (v.sshiftRight 8)) = v := by
  apply BitVec.eq_of_getLsbD_eq
  intro i hi
  simp only [word, toChar, BitVec.getLsbD_append, BitVec.getLsbD_setWidth,
    BitVec.getLsbD_sshiftRight]
  by_cases h : i < 8
  · simp [h]
  · have h8 : 8 + (i - 8) = i := by omega
    have h16 : i - 8 < 8 := by omega
    simp [h, h8, h16, hi]
    omega

theorem decode_render (f : Fields) : decode (render f) = f := by
  obtain ⟨buttons, triggerLeft, triggerRight, leftX, leftY, rightX, rightY⟩ := f
  have hdecode : decode (render ⟨buttons, triggerLeft, triggerRight, leftX, leftY, rightX,
      rightY⟩) =
      ⟨word (toChar buttons) (toChar (buttons.sshiftRight 8)), triggerLeft, triggerRight,
        word (toChar leftX) (toChar (leftX.sshiftRight 8)),
        word (toChar leftY) (toChar (leftY.sshiftRight 8)),
        word (toChar rightX) (toChar (rightX.sshiftRight 8)),
        word (toChar rightY) (toChar (rightY.sshiftRight 8))⟩ := rfl
  rw [hdecode]
  simp only [word_toChar]

theorem render_injective : Function.Injective render := by
  intro f g h
  rw [← decode_render f, h, decode_render]

theorem getElem_put (report : Report) (i : Nat) (value : BitVec 8) {j : Nat}
    (hj : j < xinputReportSize) :
    (put report i value)[j] = if i = j then value else report[j] := by
  simp only [put, Vector.getElem_setIfInBounds]

theorem getElem_clear (report : Report) (n : Nat) {j : Nat} (hj : j < xinputReportSize) :
    (clear report n)[j] = if j < n then 0x00#8 else report[j] := by
  induction n with
  | zero => rfl
  | succ n ih =>
      rw [clear, getElem_put, ih]
      by_cases h : n = j
      · simp [h]
      · have hlt : j < n + 1 ↔ j < n := by omega
        simp [h, hlt]

theorem xinputReportInit_eq (report : Report) :
    xinputReportInit report = render ⟨0#16, 0#8, 0#8, 0#16, 0#16, 0#16, 0#16⟩ := by
  have hbytes : ∀ j : Fin xinputReportSize,
      (if 1 = j.val then 0x14#8 else 0x00#8) =
        (render ⟨0#16, 0#8, 0#8, 0#16, 0#16, 0#16, 0#16⟩)[j.val] := by
    decide
  apply Vector.ext
  intro j hj
  rw [xinputReportInit, getElem_put, getElem_clear, if_pos hj]
  exact hbytes ⟨j, hj⟩

def Fields.record (f : Fields) : Setter → Fields
  | .buttons v => { f with buttons := v }
  | .triggerLeft v => { f with triggerLeft := v }
  | .triggerRight v => { f with triggerRight := v }
  | .joystickLeft x y => { f with leftX := x, leftY := y }
  | .joystickRight x y => { f with rightX := x, rightY := y }

/-- Each setter writes the bytes of its own fields and no others. -/
theorem apply_render (f : Fields) (s : Setter) :
    s.apply (render f) = render (f.record s) := by
  cases s with
  | buttons v => rfl
  | triggerLeft v => rfl
  | triggerRight v => rfl
  | joystickLeft x y => rfl
  | joystickRight x y => rfl

theorem lastOf_concat {w : Nat} (field : Setter → Option (BitVec w)) (setters : List Setter)
    (s : Setter) : lastOf field (setters ++ [s]) = (field s).getD (lastOf field setters) := by
  simp only [lastOf, List.filterMap_append]
  cases h : field s with
  | none => simp [h]
  | some v => simp [h]

theorem last_concat (setters : List Setter) (s : Setter) :
    Fields.last (setters ++ [s]) = (Fields.last setters).record s := by
  simp only [Fields.last, lastOf_concat]
  cases s <;> rfl

theorem rendered_eq (report : Report) (setters : List Setter) :
    rendered report setters = render (Fields.last setters) := by
  induction setters using List.reverseRecOn with
  | nil => exact xinputReportInit_eq report
  | append_singleton setters s ih =>
      have hstep : rendered report (setters ++ [s]) = s.apply (rendered report setters) := by
        simp [rendered]
      rw [hstep, ih, apply_render, last_concat]

theorem equalAt_eq (reportOne reportTwo : Report) (is : List (Fin xinputReportSize)) :
    equalAt reportOne reportTwo is = 1#8 ↔ ∀ i ∈ is, reportOne[i] = reportTwo[i] := by
  induction is with
  | nil => simp [equalAt]
  | cons i is ih =>
      rw [equalAt, List.forall_mem_cons, ← ih]
      by_cases h : reportOne[i] = reportTwo[i]
      · rw [if_neg (not_not.mpr h)]
        exact ⟨fun heq => ⟨h, heq⟩, fun hand => hand.2⟩
      · rw [if_pos h]
        exact ⟨fun heq => absurd heq (by decide), fun hand => absurd hand.1 h⟩

theorem xinputReportBuffersEqual_eq (reportOne reportTwo : Report) :
    xinputReportBuffersEqual reportOne reportTwo = 1#8 ↔ reportOne = reportTwo := by
  rw [xinputReportBuffersEqual, equalAt_eq]
  constructor
  · intro h
    apply Vector.ext
    intro i hi
    exact h ⟨i, hi⟩ (List.mem_finRange _)
  · rintro rfl i _
    rfl

/-- The report is a last-writer-wins record: header and padding stay as they
are, each field shows the last value passed for it, and two reports are equal
exactly if all their last values are. -/
theorem report_records_last (report : Report) (setters : List Setter) :
    ((rendered report setters)[0] = 0x00#8 ∧ (rendered report setters)[1] = 0x14#8 ∧
      (∀ i, 14 ≤ i → (hi : i < xinputReportSize) → (rendered report setters)[i] = 0x00#8) ∧
      decode (rendered report setters) = Fields.last setters) ∧
    ∀ (report' : Report) (setters' : List Setter),
      xinputReportBuffersEqual (rendered report setters) (rendered report' setters') = 1#8 ↔
        Fields.last setters = Fields.last setters' := by
  refine ⟨⟨?_, ?_, ?_, ?_⟩, ?_⟩
  · rw [rendered_eq]
    rfl
  · rw [rendered_eq]
    rfl
  · intro i hlow hi
    rw [rendered_eq]
    have hcases : i = 14 ∨ i = 15 ∨ i = 16 ∨ i = 17 ∨ i = 18 ∨ i = 19 := by
      simp only [xinputReportSize] at hi
      omega
    rcases hcases with rfl | rfl | rfl | rfl | rfl | rfl <;> rfl
  · rw [rendered_eq, decode_render]
  · intro report' setters'
    rw [xinputReportBuffersEqual_eq, rendered_eq, rendered_eq]
    exact render_injective.eq_iff

end NesMiniAdapter.XinputReport
