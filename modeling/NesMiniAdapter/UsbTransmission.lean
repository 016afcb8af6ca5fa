import NesMiniAdapter.UsbTransmitter

/-!
What the host sees of a packet that the transmitter sends: two lines that the device
drives from before the first bit until the end of the packet, levels that it may sample
anywhere in their eleven cycles, and no change on any other pin of the port.
-/

namespace NesMiniAdapter.UsbTransmission

open NesMiniAdapter.Crc
open NesMiniAdapter.AvrMachine
open NesMiniAdapter.LineCode
open NesMiniAdapter.UsbTransmitter
open UsbTransmitter.TxLabel

abbrev Writes := List (Nat × Port × BitVec 8)

/-- What the register `a` of the port holds in cycle `t`, from `v` on. -/
def portAt (a : Port) (v : BitVec 8) (writes : Writes) (t : Nat) : BitVec 8 :=
  writes.foldl (fun v w => if w.2.1 = a ∧ w.1 ≤ t then w.2.2 else v) v

/-- D− and D+ as the device drives them: nothing while one of the two pins is an input. -/
def driven (port ddr : BitVec 8) : Option (Bool × Bool) :=
  if ddr.getLsbD 3 && ddr.getLsbD 1 then some (port.getLsbD 3, port.getLsbD 1) else none

/-- The lines in cycle `t`. -/
def linesAt (port ddr : BitVec 8) (writes : Writes) (t : Nat) : Option (Bool × Bool) :=
  driven (portAt usbOut port writes t) (portAt usbDdr ddr writes t)

/-- The level between D− and D+, if they differ. -/
def level (lines : Bool × Bool) : Option Bool :=
  if lines.1 ≠ lines.2 then some lines.1 else none

def bits (levels : List Bool) : Option (List Bool) := unstuff 6 0 (unNrzi true levels)

/-- `n` levels from the cycle `start` on, which carry `bytes` behind a sync pattern wherever
in a bit the host samples, and then both lines low for `se0` cycles. The device drives both
lines from six cycles before the first level until they are idle again, and no longer. -/
structure Signals (port ddr : BitVec 8) (start n se0 : Nat) (bytes : List (BitVec 8))
    (writes : Writes) : Prop where
  before : ∀ t, start ≤ t + 6 → t < start → linesAt port ddr writes t = some (true, false)
  bits : ∀ jitter : Nat → Nat, (∀ i, jitter i < 11) →
    ((List.range n).mapM fun i =>
        (linesAt port ddr writes (start + 11 * i + jitter i)).bind level).bind bits =
      some ((0x80#8 :: bytes).flatMap lsbFirst)
  outputs : ∀ t, start ≤ t + 6 → t ≤ start + 1 + 11 * n + se0 →
    (linesAt port ddr writes t).isSome = true
  endOfPacket : ∀ t < se0, linesAt port ddr writes (start + 1 + 11 * n + t) = some (false, false)
  idle : linesAt port ddr writes (start + 1 + 11 * n + se0) = some (true, false)
  released : ∀ t, start + 1 + 11 * n + se0 < t → linesAt port ddr writes t = none

/-- The host reads `bytes`, and no other pin changes its level or its direction. -/
structure Heard (port ddr : BitVec 8) (start se0 : Nat) (bytes : List (BitVec 8))
    (writes : Writes) : Prop where
  signals : ∃ n, Signals port ddr start n se0 bytes writes
  others : ∀ w ∈ writes, w.2.1 = usbOut ∧ w.2.2 &&& ~~~usbMask = port &&& ~~~usbMask ∨
    w.2.1 = usbDdr ∧ w.2.2 &&& ~~~usbMask = ddr &&& ~~~usbMask ∨ w.2.1 = usbIntrPending

section PortAt

variable {a : Port} {v port : BitVec 8} {writes writes' : Writes} {t : Nat}

theorem portAt_append :
    portAt a v (writes ++ writes') t = portAt a (portAt a v writes t) writes' t :=
  List.foldl_append

/-- Writes to other registers and later writes do not count. -/
theorem portAt_future (h : ∀ w ∈ writes, w.2.1 = a → t < w.1) : portAt a v writes t = v := by
  induction writes generalizing v with
  | nil => rfl
  | cons w writes ih =>
      have hw : ¬ (w.2.1 = a ∧ w.1 ≤ t) := by
        rintro ⟨hwrite, hpast⟩
        have hlt := h w List.mem_cons_self hwrite
        omega
      refine (congrArg (fun v => portAt a v writes t) (if_neg hw)).trans ?_
      exact ih fun w hmem => h w (List.mem_cons_of_mem _ hmem)

theorem lineWrites_cons (base : BitVec 8) (start : Nat) (l : Bool) (levels : List Bool) :
    lineWrites base start (l :: levels) =
      (start, usbOut, lineState base l) :: lineWrites base (start + 11) levels :=
  lineWrites_append base start [l] levels

theorem mem_lineWrites {base : BitVec 8} {start : Nat} {levels : List Bool}
    {w : Nat × Port × BitVec 8} (h : w ∈ lineWrites base start levels) :
    start ≤ w.1 ∧ w.1 < start + 11 * levels.length ∧ w.2.1 = usbOut ∧
      ∃ l, w.2.2 = lineState base l := by
  rw [lineWrites, List.mem_mapIdx] at h
  obtain ⟨i, hi, rfl⟩ := h
  refine ⟨?_, ?_, rfl, _, rfl⟩ <;> dsimp only <;> omega

theorem portAt_lineWrites {base : BitVec 8} {start : Nat} {levels : List Bool} {i : Nat}
    (hi : i < levels.length) {j : Nat} (hj : j < 11) :
    portAt usbOut v (lineWrites base start levels) (start + 11 * i + j) =
      lineState base levels[i] := by
  induction levels generalizing v start i with
  | nil => cases hi
  | cons l levels ih =>
      rw [lineWrites_cons]
      have hfirst : portAt usbOut v [(start, usbOut, lineState base l)] (start + 11 * i + j) =
          lineState base l := if_pos ⟨rfl, by omega⟩
      refine (@portAt_append usbOut v [_] _ _).trans ?_
      rw [hfirst]
      cases i with
      | zero =>
          apply portAt_future
          intro w hw _
          have hlater := (mem_lineWrites hw).1
          omega
      | succ i =>
          rw [show start + 11 * (i + 1) + j = start + 11 + 11 * i + j by omega]
          exact ih (by simpa using hi)

end PortAt

theorem lines_lineState {port : BitVec 8} (h : Released port) (l : Bool) :
    ((lineState port l).getLsbD 3, (lineState port l).getLsbD 1) = (l, !l) := by
  revert port l
  decide +kernel

theorem lines_released {port : BitVec 8} (h : Released port) :
    (port.getLsbD 3, port.getLsbD 1) = (false, false) := by
  revert port
  decide +kernel

theorem driven_acquired (port ddr : BitVec 8) :
    driven port (ddr ||| usbMask) = some (port.getLsbD 3, port.getLsbD 1) := by
  simp [driven]

theorem driven_released (port ddr : BitVec 8) : driven port (ddr &&& ~~~usbMask) = none := by
  simp [driven]

theorem mapM_some {α β : Type} {f : α → Option β} {g : α → β} {l : List α}
    (h : ∀ a ∈ l, f a = some (g a)) : l.mapM f = some (l.map g) := by
  induction l with
  | nil => rfl
  | cons a l ih =>
      have htail := ih fun b hb => h b (List.mem_cons_of_mem _ hb)
      simp [List.mapM_cons, h a List.mem_cons_self, htail]

theorem bits_nrzi (packet : List Bool) : bits (nrzi true (stuff 6 0 packet)) = some packet := by
  rw [bits, unNrzi_nrzi, unstuff_stuff (by omega)]

theorem released_others {port : BitVec 8} (h : Released port) : port &&& ~~~usbMask = port := by
  revert port
  decide +kernel

section Host

variable {port ddr : BitVec 8} {entry eop se0 : Nat} {bytes : List (BitVec 8)}

/-- The writes that take the lines. -/
def beginning (port ddr : BitVec 8) (entry : Nat) : Writes :=
  [(entry + 2, usbOut, lineState port true), (entry + 5, usbDdr, ddr ||| usbMask)]

/-- The writes that end a packet, from the cycle `eop` on. -/
def ending (port ddr : BitVec 8) (eop se0 : Nat) : Writes :=
  [(eop, usbOut, port), (eop + se0 - 18, usbIntrPending, 0x20#8),
    (eop + se0, usbOut, lineState port true), (eop + se0 + 1, usbDdr, ddr &&& ~~~usbMask),
    (eop + se0 + 2, usbOut, port)]

/-- The writes for a packet whose bits are the given levels on the line. -/
def signalling (port ddr : BitVec 8) (entry se0 : Nat) (levels : List Bool) : Writes :=
  beginning port ddr entry ++ lineWrites port (entry + 11) levels ++
    ending port ddr (entry + 12 + 11 * levels.length) se0

theorem transmission_eq : transmission port ddr entry se0 bytes =
    signalling port ddr entry se0
      (nrzi true (stuff 6 0 ((0x80#8 :: bytes).flatMap lsbFirst))) := rfl

theorem portAt_beginning {t : Nat} (ht : entry + 5 ≤ t) :
    portAt usbOut port (beginning port ddr entry) t = lineState port true ∧
      portAt usbDdr ddr (beginning port ddr entry) t = ddr ||| usbMask := by
  have hport : entry + 2 ≤ t := by omega
  have hout : usbOut ≠ usbDdr := by decide
  simp only [portAt, beginning, List.foldl_cons, List.foldl_nil, hout, hout.symm, hport, ht,
    false_and, if_true, if_false, and_self]

theorem mem_ending (hse0 : 18 ≤ se0) {w : Nat × Port × BitVec 8}
    (h : w ∈ ending port ddr eop se0) :
    eop ≤ w.1 ∧ (w.2.1 = usbDdr → w = (eop + se0 + 1, usbDdr, ddr &&& ~~~usbMask)) := by
  have hpending : usbIntrPending ≠ usbDdr := by decide
  have hout : usbOut ≠ usbDdr := by decide
  simp only [ending, List.mem_cons, List.not_mem_nil, or_false] at h
  rcases h with rfl | rfl | rfl | rfl | rfl
  · exact ⟨le_rfl, fun hddr => absurd hddr hout⟩
  · exact ⟨show eop ≤ eop + se0 - 18 by omega, fun hddr => absurd hddr hpending⟩
  · exact ⟨show eop ≤ eop + se0 by omega, fun hddr => absurd hddr hout⟩
  · exact ⟨show eop ≤ eop + se0 + 1 by omega, fun _ => rfl⟩
  · exact ⟨show eop ≤ eop + se0 + 2 by omega, fun hddr => absurd hddr hout⟩

theorem portAt_ending {v : BitVec 8} {t : Nat} (ht : t ≤ se0) :
    portAt usbOut v (ending port ddr eop se0) (eop + t) =
      if t < se0 then port else lineState port true := by
  have hpending : usbIntrPending ≠ usbOut := by decide
  have hddr : usbDdr ≠ usbOut := by decide
  have hlast : ¬ eop + se0 + 2 ≤ eop + t := by omega
  by_cases h : t < se0
  · have hidle : ¬ eop + se0 ≤ eop + t := by omega
    simp only [portAt, ending, List.foldl_cons, List.foldl_nil, hpending, hddr, hlast, hidle, h,
      false_and, and_false, if_false, if_true, true_and, Nat.le_add_right]
  · have hidle : eop + se0 ≤ eop + t := by omega
    simp only [portAt, ending, List.foldl_cons, List.foldl_nil, hpending, hddr, hlast, hidle, h,
      false_and, and_false, if_false, if_true, and_true]

theorem portAt_ending_ddr {v : BitVec 8} {t : Nat} (ht : eop + se0 < t) :
    portAt usbDdr v (ending port ddr eop se0) t = ddr &&& ~~~usbMask := by
  have hpending : usbIntrPending ≠ usbDdr := by decide
  have hout : usbOut ≠ usbDdr := by decide
  have hpast : eop + se0 + 1 ≤ t := by omega
  simp only [portAt, ending, List.foldl_cons, List.foldl_nil, hpending, hout, hpast, false_and,
    if_false, if_true, and_self]

section Lines

variable {levels : List Bool} {t : Nat}

/-- Both pins are outputs from the sixth cycle before the first level until both lines are
idle again. -/
theorem ddrAt_acquired (hse0 : 18 ≤ se0) (ht : entry + 5 ≤ t)
    (hend : t ≤ entry + 12 + 11 * levels.length + se0) :
    portAt usbDdr ddr (signalling port ddr entry se0 levels) t = ddr ||| usbMask := by
  rw [signalling, portAt_append, portAt_append, (@portAt_beginning port ddr _ _ ht).2]
  have hlevels : portAt usbDdr (ddr ||| usbMask) (lineWrites port (entry + 11) levels) t =
      ddr ||| usbMask := by
    apply portAt_future
    intro w hw hddr
    have hout : usbOut ≠ usbDdr := by decide
    exact absurd ((mem_lineWrites hw).2.2.1.symm.trans hddr) hout
  rw [hlevels]
  apply portAt_future
  intro w hw hddr
  rw [(mem_ending hse0 hw).2 hddr]
  dsimp only
  omega

theorem linesAt_acquired (hse0 : 18 ≤ se0) (ht : entry + 5 ≤ t)
    (hend : t ≤ entry + 12 + 11 * levels.length + se0) {v : BitVec 8}
    (hv : portAt usbOut port (signalling port ddr entry se0 levels) t = v) :
    linesAt port ddr (signalling port ddr entry se0 levels) t =
      some (v.getLsbD 3, v.getLsbD 1) := by
  rw [linesAt, ddrAt_acquired hse0 ht hend, hv, driven_acquired]

/-- Before the end of the packet its last writes do not show. -/
theorem portAt_levels (hse0 : 18 ≤ se0) (ht : entry + 5 ≤ t)
    (hend : t < entry + 12 + 11 * levels.length) :
    portAt usbOut port (signalling port ddr entry se0 levels) t =
      portAt usbOut (lineState port true) (lineWrites port (entry + 11) levels) t := by
  rw [signalling, portAt_append, portAt_append, (@portAt_beginning port ddr _ _ ht).1]
  apply portAt_future
  intro w hw _
  have hlater := (mem_ending hse0 hw).1
  omega

theorem linesAt_before (hport : Released port) (hse0 : 18 ≤ se0) (ht : entry + 5 ≤ t)
    (hstart : t < entry + 11) :
    linesAt port ddr (signalling port ddr entry se0 levels) t = some (true, false) := by
  have hidle : portAt usbOut port (signalling port ddr entry se0 levels) t =
      lineState port true := by
    rw [portAt_levels hse0 ht (by omega)]
    apply portAt_future
    intro w hw _
    have hlater := (mem_lineWrites hw).1
    omega
  rw [linesAt_acquired hse0 ht (by omega) hidle, lines_lineState hport]
  rfl

theorem linesAt_levels (hport : Released port) (hse0 : 18 ≤ se0) {i j : Nat}
    (hi : i < levels.length) (hj : j < 11) :
    linesAt port ddr (signalling port ddr entry se0 levels) (entry + 11 + 11 * i + j) =
      some (levels[i], !levels[i]) := by
  have hlevel : portAt usbOut port (signalling port ddr entry se0 levels)
      (entry + 11 + 11 * i + j) = lineState port levels[i] := by
    rw [portAt_levels hse0 (by omega) (by omega), portAt_lineWrites hi hj]
  rw [linesAt_acquired hse0 (by omega) (by omega) hlevel, lines_lineState hport]

theorem linesAt_ending (hport : Released port) (hse0 : 18 ≤ se0) (ht : t ≤ se0) :
    linesAt port ddr (signalling port ddr entry se0 levels)
        (entry + 12 + 11 * levels.length + t) =
      if t < se0 then some (false, false) else some (true, false) := by
  have hend : portAt usbOut port (signalling port ddr entry se0 levels)
      (entry + 12 + 11 * levels.length + t) = if t < se0 then port else lineState port true := by
    rw [signalling, portAt_append, portAt_ending ht]
  rw [linesAt_acquired hse0 (by omega) (by omega) hend]
  split
  · rw [lines_released hport]
  · rw [lines_lineState hport]
    rfl

theorem linesAt_released (ht : entry + 12 + 11 * levels.length + se0 < t) :
    linesAt port ddr (signalling port ddr entry se0 levels) t = none := by
  rw [linesAt, signalling, portAt_append (a := usbDdr), portAt_ending_ddr ht, driven_released]

end Lines

theorem level_lines (l : Bool) : level (l, !l) = some l := by
  cases l <;> rfl

theorem signals (hport : Released port) (hse0 : 18 ≤ se0) :
    Signals port ddr (entry + 11)
      (nrzi true (stuff 6 0 ((0x80#8 :: bytes).flatMap lsbFirst))).length se0 bytes
      (transmission port ddr entry se0 bytes) := by
  have hbits := bits_nrzi ((0x80#8 :: bytes).flatMap lsbFirst)
  rw [transmission_eq]
  generalize nrzi true (stuff 6 0 ((0x80#8 :: bytes).flatMap lsbFirst)) = levels at hbits ⊢
  have heop : entry + 11 + 1 + 11 * levels.length = entry + 12 + 11 * levels.length := by omega
  constructor
  case before =>
    intro t ht hstart
    exact linesAt_before hport hse0 (by omega) hstart
  case bits =>
    intro jitter hjitter
    have hsample : ∀ i ∈ List.range levels.length,
        (linesAt port ddr (signalling port ddr entry se0 levels)
          (entry + 11 + 11 * i + jitter i)).bind level = some (levels.getD i false) := by
      intro i hi
      have hi := List.mem_range.mp hi
      rw [linesAt_levels hport hse0 hi (hjitter i), Option.bind_some, level_lines,
        List.getD_eq_getElem _ _ hi]
    have hlevels : (List.range levels.length).map (fun i => levels.getD i false) = levels := by
      apply List.ext_getElem
      · simp
      · intro i _ hi
        rw [List.getElem_map, List.getElem_range, List.getD_eq_getElem _ _ hi]
    rw [mapM_some hsample, hlevels, Option.bind_some, hbits]
  case outputs =>
    intro t ht hend
    rw [linesAt_acquired hse0 (by omega) (by omega) rfl]
    rfl
  case endOfPacket =>
    intro t ht
    rw [heop, linesAt_ending hport hse0 (Nat.le_of_lt ht), if_pos ht]
  case idle => rw [heop, linesAt_ending hport hse0 le_rfl, if_neg (Nat.lt_irrefl _)]
  case released =>
    intro t ht
    exact linesAt_released (by omega)

theorem others (hport : Released port) {w : Nat × Port × BitVec 8}
    (hw : w ∈ transmission port ddr entry se0 bytes) :
    w.2.1 = usbOut ∧ w.2.2 &&& ~~~usbMask = port &&& ~~~usbMask ∨
      w.2.1 = usbDdr ∧ w.2.2 &&& ~~~usbMask = ddr &&& ~~~usbMask ∨ w.2.1 = usbIntrPending := by
  have hlow : port &&& ~~~usbMask = port := released_others hport
  rw [transmission_eq, signalling] at hw
  rcases List.mem_append.mp hw with hw | hw
  · rcases List.mem_append.mp hw with hw | hw
    · simp only [beginning, List.mem_cons, List.not_mem_nil, or_false] at hw
      rcases hw with rfl | rfl
      · exact .inl ⟨rfl, (released_se0 hport true).trans hlow.symm⟩
      · exact .inr (.inl ⟨rfl, mask_released ddr⟩)
    · obtain ⟨-, -, hout, l, hl⟩ := mem_lineWrites hw
      rw [hl]
      exact .inl ⟨hout, (released_se0 hport l).trans hlow.symm⟩
  · simp only [ending, List.mem_cons, List.not_mem_nil, or_false] at hw
    rcases hw with rfl | rfl | rfl | rfl | rfl
    · exact .inl ⟨rfl, rfl⟩
    · exact .inr (.inr rfl)
    · exact .inl ⟨rfl, (released_se0 hport true).trans hlow.symm⟩
    · exact .inr (.inl ⟨rfl, by rw [BitVec.and_assoc, BitVec.and_self]⟩)
    · exact .inl ⟨rfl, rfl⟩

theorem heard (hport : Released port) (hse0 : 18 ≤ se0) :
    Heard port ddr (entry + 11) se0 bytes (transmission port ddr entry se0 bytes) :=
  ⟨⟨_, signals hport hse0⟩, fun _ hw => others hport hw⟩

end Host

section Transmitter

variable {usbDeviceAddr usbNewDeviceAddr : BitVec 16} {flash : BitVec 16 → BitVec 8}
  {s : Cpu TxLabel}

/-- What the transmitter does for the packet `bytes`: the host hears it, the port is
released, and the memory is left as `sram`. -/
structure Delivers (start se0 : Nat) (bytes : List (BitVec 8)) (sram : BitVec 16 → BitVec 8)
    (s s' : Cpu TxLabel) : Prop where
  pc : s'.pc = (doReturn, 0)
  heard : ∃ writes, s'.outs = s.outs ++ writes ∧
    Heard (s.io usbOut) (s.io usbDdr) start se0 bytes writes
  usbOut : s'.io usbOut = s.io usbOut
  usbDdr : s'.io usbDdr = s.io usbDdr &&& ~~~usbMask
  sram : s'.sram = sram
  stack : s'.stack = s.stack
  saved : s'.saved = s.saved

theorem Delivers.of_transmitted {entry se0 : Nat} {bytes : List (BitVec 8)}
    {sram : BitVec 16 → BitVec 8} {s' : Cpu TxLabel} (hport : Released (s.io UsbTransmitter.usbOut))
    (hse0 : 18 ≤ se0) (h : Transmitted entry se0 bytes sram s s') :
    Delivers (entry + 11) se0 bytes sram s s' :=
  ⟨h.pc, ⟨_, h.outs, UsbTransmission.heard hport hse0⟩, h.usbOut, h.usbDdr, h.sram, h.frame.stack,
    h.frame.saved⟩

/-- With nothing written before, the host hears what there is. -/
theorem Delivers.outs_heard {start se0 : Nat} {bytes : List (BitVec 8)}
    {sram : BitVec 16 → BitVec 8} {s' : Cpu TxLabel} (h : Delivers start se0 bytes sram s s')
    (houts : s.outs = []) :
    Heard (s.io UsbTransmitter.usbOut) (s.io UsbTransmitter.usbDdr) start se0 bytes s'.outs := by
  obtain ⟨writes, hwrites, hheard⟩ := h.heard
  rw [houts, List.nil_append] at hwrites
  rw [hwrites]
  exact hheard

/-- For every packet of at most 11 bytes in memory the host hears these bytes, whatever
they are, and the address it assigned takes effect. -/
theorem usbSendAndReti_delivers {p : BitVec 16} {len : Nat} (hpc : s.pc = (usbSendAndReti, 0))
    (hport : Released (s.io usbOut)) (hnew : 0x60 ≤ usbNewDeviceAddr.toNat)
    (hdev : 0x60 ≤ usbDeviceAddr.toNat) (hlen : len ≤ 11)
    (hcnt : s.reg cnt = BitVec.ofNat 8 (len + 1)) (hy : s.y = p) (hp : 0x60 ≤ p.toNat)
    (hend : p.toNat + len < 65535) :
    Reaches (txCode usbDeviceAddr usbNewDeviceAddr flash) s
      (Delivers (s.cycles + 11) 25 (bytesAt s.sram p len)
        (Function.update s.sram usbDeviceAddr (s.sram usbNewDeviceAddr <<< 1)) s) :=
  (usbSendAndReti_run hpc hport hnew hdev hlen hcnt hy hp hend).mono fun _ =>
    .of_transmitted hport (by omega)

/-- The entries for handshakes, with the cycles from each of them to `sendCntAndReti`. -/
def handshakes (cnt : BitVec 8) : List (TxLabel × Nat × BitVec 8) :=
  [(sendNakAndReti, 3, usbpidNak), (sendAckAndReti, 1, usbpidAck), (sendCntAndReti, 0, cnt)]

theorem handshake_delivers {label : TxLabel} {delay : Nat} {pid : BitVec 8}
    (hmem : (label, delay, pid) ∈ handshakes (s.reg cnt)) (hpc : s.pc = (label, 0))
    (hport : Released (s.io usbOut)) (hnew : 0x60 ≤ usbNewDeviceAddr.toNat)
    (hdev : 0x60 ≤ usbDeviceAddr.toNat) :
    Reaches (txCode usbDeviceAddr usbNewDeviceAddr flash) s
      (Delivers (s.cycles + delay + 15) 24 [pid] s.sram s) := by
  have hcnt : ∀ s₁ : Cpu TxLabel, s₁.pc = (sendCntAndReti, 0) → s₁.reg cnt = pid →
      s₁.cycles = s.cycles + delay → Frame [cnt] s s₁ →
      Reaches (txCode usbDeviceAddr usbNewDeviceAddr flash) s₁
        (Delivers (s.cycles + delay + 15) 24 [pid] s.sram s) := by
    intro s₁ hpc₁ hpid₁ hcycles₁ hframe₁
    have hport₁ : Released (s₁.io usbOut) := by rwa [hframe₁.io]
    refine (sendCntAndReti_run hpc₁ hport₁ hnew hdev).mono ?_
    intro s' h
    have hdelivers := Delivers.of_transmitted hport₁ (by omega) h
    rw [hpid₁, hcycles₁, hframe₁.sram] at hdelivers
    obtain ⟨hpc', hheard, hout, hddr, hsram, hstack, hsaved⟩ := hdelivers
    rw [hframe₁.io] at hheard hout hddr
    rw [hframe₁.outs] at hheard
    exact ⟨hpc', hheard, hout, hddr, hsram, hstack.trans hframe₁.stack, hsaved.trans hframe₁.saved⟩
  obtain ⟨reg, carry, zero, t, sram, io, outs, cycles, pc, stack, saved⟩ := s
  cases hpc
  simp only [handshakes, List.mem_cons, Prod.mk.injEq, List.not_mem_nil, or_false] at hmem
  rcases hmem with ⟨rfl, rfl, rfl⟩ | ⟨rfl, rfl, rfl⟩ | ⟨rfl, rfl, rfl⟩
  · refine .steps 2 ?_
    generalize hs₁ : (txCode usbDeviceAddr usbNewDeviceAddr flash).step^[2] _ = s₁
    simp [txCode] at hs₁
    subst hs₁
    refine hcnt _ rfl (by simp) rfl ⟨?_, rfl, rfl, rfl, rfl, rfl⟩
    intro r hr
    simp at hr
    simp [hr]
  · refine .steps 1 ?_
    generalize hs₁ : (txCode usbDeviceAddr usbNewDeviceAddr flash).step^[1] _ = s₁
    simp [txCode] at hs₁
    subst hs₁
    refine hcnt _ rfl (by simp) rfl ⟨?_, rfl, rfl, rfl, rfl, rfl⟩
    intro r hr
    simp at hr
    simp [hr]
  · exact hcnt _ rfl rfl rfl (.refl _ _)

end Transmitter

/-- A packet of three bytes with stuffed bits from `0x70` on, the next address at `0x61`, and
the transmitter about to send. -/
def aboutToSend (label : TxLabel) : Cpu TxLabel where
  reg r := if r = yl then 0x70#8 else if r = cnt then 4#8 else 0#8
  carry := false
  zero := false
  t := false
  sram a := if a = 0x61#16 then 5#8 else if a = 0x70#16 then 0x4B#8 else 0xFF#8
  io a := if a = usbOut ∨ a = usbDdr then 0x10#8 else 0#8
  outs := []
  cycles := 0
  pc := (label, 0)
  stack := []
  saved := []

theorem usbSendAndReti_delivers_three :
    Reaches (txCode 0x60#16 0x61#16 fun _ => 0#8) (aboutToSend usbSendAndReti) fun s' =>
      s'.sram 0x60#16 = 10#8 ∧ Heard 0x10#8 0x10#8 11 25 [0x4B#8, 0xFF#8, 0xFF#8] s'.outs := by
  have hdelivers : Reaches (txCode 0x60#16 0x61#16 fun _ => 0#8) (aboutToSend usbSendAndReti)
      (Delivers 11 25 (bytesAt (aboutToSend usbSendAndReti).sram 0x70#16 3) _ _) :=
    usbSendAndReti_delivers rfl (by decide) (by decide) (by decide) (by decide) rfl rfl (by decide)
      (by decide)
  refine hdelivers.mono ?_
  intro s' h
  have haddress := congrFun h.sram 0x60#16
  exact ⟨haddress, h.outs_heard rfl⟩

theorem handshake_delivers_ack :
    Reaches (txCode 0x60#16 0x61#16 fun _ => 0#8) (aboutToSend sendAckAndReti) fun s' =>
      s'.sram 0x60#16 = 0xFF#8 ∧ Heard 0x10#8 0x10#8 16 24 [0xD2#8] s'.outs := by
  have hmem : (sendAckAndReti, 1, 0xD2#8) ∈ handshakes ((aboutToSend sendAckAndReti).reg cnt) := by
    decide
  have hdelivers : Reaches (txCode 0x60#16 0x61#16 fun _ => 0#8) (aboutToSend sendAckAndReti)
      (Delivers 16 24 [0xD2#8] _ _) :=
    handshake_delivers hmem rfl (by decide) (by decide) (by decide)
  refine hdelivers.mono ?_
  intro s' h
  have haddress := congrFun h.sram 0x60#16
  exact ⟨haddress, h.outs_heard rfl⟩

end NesMiniAdapter.UsbTransmission
