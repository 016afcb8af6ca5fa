import NesMiniAdapter.UsbCrc16
import NesMiniAdapter.UsbSync

/-!
The reception of a packet: the samples that the receiver takes of the line lie in the bits of
the host, and it stores the bytes that the host has sent.
-/

namespace NesMiniAdapter.UsbReception

open NesMiniAdapter.Crc
open NesMiniAdapter.AvrMachine
open NesMiniAdapter.LineCode
open NesMiniAdapter.UsbCrc16 (called)
open NesMiniAdapter.UsbReceiver
open NesMiniAdapter.UsbSync
open NesMiniAdapter.UsbTransmitter (x1 x2 shift cnt x3 x4 yl yh usbMinus usbMask)

/-- The line from `start` on: bits of eleven cycles with the given levels, and both lines low
for two more. -/
structure Packet (pins : Nat → BitVec 8) (start : Nat) (levels : List Bool) : Prop where
  level : ∀ i level, levels[i]? = some level → ∀ t, start + 11 * i ≤ t →
    t < start + 11 * i + 11 → minus pins t = level ∧ (pins t &&& usbMask == 0#8) = false
  se0 : ∀ t, start + 11 * levels.length ≤ t → t < start + 11 * levels.length + 22 →
    pins t &&& usbMask = 0#8

/-- The bits to come on the line, after a run of ones. -/
def pending (ones : Nat) (rest : List Bool) : List Bool :=
  if ones = 6 then false :: stuff 6 0 rest else stuff 6 ones rest

theorem stuff_cons (ones : Nat) (bit : Bool) (rest : List Bool) :
    stuff 6 ones (bit :: rest) = bit :: pending (if bit then ones + 1 else 0) rest := by
  cases bit with
  | false => rfl
  | true =>
      rw [stuff, pending]
      simp only [if_true]
      split <;> rfl

/-- A zero among the first bits makes the run before them irrelevant. -/
theorem stuff_fresh {i a b : Nat} {bits : List Bool} (ha : a + i < 6) (hb : b + i < 6)
    (h : bits[i]? = some false) : stuff 6 a bits = stuff 6 b bits := by
  induction i generalizing bits a b with
  | zero =>
      cases bits with
      | nil => cases h
      | cons bit rest =>
          obtain rfl : bit = false := Option.some.inj h
          rfl
  | succ i ih =>
      cases bits with
      | nil => rfl
      | cons bit rest =>
          cases bit with
          | false => rfl
          | true =>
              rw [stuff, stuff, if_neg (by omega), if_neg (by omega),
                ih (a := a + 1) (b := b + 1) (by omega) (by omega) h]

/-- What has been heard of `bits`, when the levels `line` are still to come. -/
structure Decoded (bits : List Bool) (g : Progress) (rest line : List Bool) : Prop where
  line : line = nrzi g.level (pending g.ones rest)
  bits : bits = g.bytes.flatten ++ g.bits ++ rest
  bytes : ∀ byte ∈ g.bytes, byte.length = 8

section Reception

variable {pins : Nat → BitVec 8} {start : Nat} {g : Progress} {bits rest line : List Bool}
  {level : Bool}

theorem decoded_hear (h : Decoded bits g rest (level :: line))
    (hsample : minus pins g.next = level) :
    ∃ rest', Decoded bits (hear pins g) rest' line := by
  obtain ⟨hline, hbits, hbytes⟩ := h
  by_cases hones : g.ones = 6
  · rw [pending, if_pos hones, nrzi] at hline
    obtain ⟨hlevel, hrest⟩ := List.cons.inj hline
    refine ⟨rest, ?_, ?_, ?_⟩
    · simp only [hear, hones, if_true, hsample]
      rw [hlevel]
      exact hrest
    · simpa [hear, hones] using hbits
    · simpa [hear, hones] using hbytes
  · rw [pending, if_neg hones] at hline
    cases rest with
    | nil => cases hline
    | cons bit rest =>
        rw [stuff_cons, nrzi] at hline
        obtain ⟨hlevel, hrest⟩ := List.cons.inj hline
        have hbit : (g.level == level) = bit := by
          rw [hlevel]
          cases g.level <;> cases bit <;> rfl
        refine ⟨rest, ?_, ?_, ?_⟩
        · simp only [hear, hones, if_false, hsample, hbit]
          rw [hrest, ← hlevel]
        · simp only [hear, hones, if_false, hsample, hbit]
          by_cases height : g.bits.length = 8
          · simp [height, hbits]
          · simp [height, hbits]
        · simp only [hear, hones, if_false]
          by_cases height : g.bits.length = 8
          · intro byte hbyte
            rw [if_pos height, List.mem_append, List.mem_singleton] at hbyte
            rcases hbyte with hbyte | rfl
            · exact hbytes byte hbyte
            · exact height
          · rw [if_neg height]
            exact hbytes

/-- A bit that has been put in changes the level. -/
theorem decoded_stuffed (h : Decoded bits g rest (level :: line)) (hones : g.ones = 6) :
    level = !g.level := by
  have hline := h.line
  rw [pending, if_pos hones, nrzi] at hline
  rw [(List.cons.inj hline).1]
  cases g.level <;> rfl

/-- A lower bound for the run of ones while no edge has come too late. -/
def since : Nat → Nat
  | 6 => 0
  | 7 => 0
  | 8 => 1
  | n => n + 1

/-- The next sample is `o` cycles after the beginning of a bit. If that is up to four, an edge
since the last correction has been noticed, or there was none; otherwise none is noticed. -/
structure Steady (pins : Nat → BitVec 8) (o : Nat) (g : Progress) : Prop where
  lower : 3 ≤ o
  upper : o ≤ 6
  mid : g.mid = minus pins (g.next - 5)
  late : 5 ≤ o → g.early = false
  early : o ≤ 4 → g.early = false → since g.bits.length ≤ g.ones

/-- The next sample is one of bit `i` on the line. Up to the first correction only the
position is known. -/
def Tuned (pins : Nat → BitVec 8) (start i : Nat) (g : Progress) : Prop :=
  ∃ o, g.next = start + 11 * i + o ∧
    (g.bytes = [] ∧ g.bits.length ≤ 5 ∧ 4 ≤ o ∧ o ≤ 5 ∨ Steady pins o g)

/-- Where the next sample is, what it shows, and what has been seen five cycles before. -/
structure Placed (pins : Nat → BitVec 8) (start i o : Nat) (level : Bool) (g : Progress) :
    Prop where
  next : g.next = start + 11 * i + o
  lower : 3 ≤ o
  upper : o ≤ 6
  sample : minus pins g.next = level
  mid : Steady pins o g → g.mid = if 5 ≤ o then level else g.level

variable {i o : Nat}

/-- A bit that is left out is an edge, which is noticed unless it comes after bit 6. -/
theorem tuned_dropped (h : Placed pins start i o level g) (hsix : g.ones = 6)
    (hstuffed : level = !g.level)
    (hcase : g.bytes = [] ∧ g.bits.length ≤ 5 ∧ 4 ≤ o ∧ o ≤ 5 ∨ Steady pins o g) :
    Tuned pins start (i + 1) (hear pins g) := by
  obtain ⟨hnext, hlower, hupper, hsample, hmid⟩ := h
  have hg : (hear pins g).next = g.next + 11 := by simp [hear, hsix]
  have hbits : (hear pins g).bits = g.bits := by simp [hear, hsix]
  refine ⟨o, by omega, ?_⟩
  rcases hcase with ⟨hbytes, hfive, hfirst⟩ | hsteady
  · exact .inl ⟨by simp [hear, hsix, hbytes], by rw [hbits]; exact hfive, hfirst⟩
  · have hmid := hmid hsteady
    refine .inr ⟨hlower, hupper, by simp [hear, hsix], ?_, ?_⟩
    · intro hlate
      rw [if_pos hlate] at hmid
      simp [hear, hsix, hsteady.late hlate, hmid, hsample]
    · intro hearly hfalse
      rw [hbits]
      by_cases hseven : g.bits.length = 7
      · rw [hseven]
        exact Nat.zero_le _
      · rw [if_neg (by omega)] at hmid
        simp [hear, hsix, hseven, hmid, hsample, hstuffed] at hfalse

/-- The correction with bit 5 leads back towards the middle of the bit. -/
theorem tuned_corrected (h : Placed pins start i o level g) (hones : g.ones < 6)
    (hfive : g.bits.length = 5)
    (hcase : g.bytes = [] ∧ g.bits.length ≤ 5 ∧ 4 ≤ o ∧ o ≤ 5 ∨ Steady pins o g) :
    Tuned pins start (i + 1) (hear pins g) := by
  obtain ⟨hnext, hlower, hupper, hsample, hmid⟩ := h
  have hsix : ¬ g.ones = 6 := by omega
  have hbits : (hear pins g).bits.length = 6 := by simp [hear, hsix, hfive]
  have hearly : (hear pins g).early = false := by simp [hear, hsix, hfive]
  have hdone : ∀ o', 3 ≤ o' → o' ≤ 6 → Steady pins o' (hear pins g) := by
    intro o' hlower hupper
    refine ⟨hlower, hupper, by simp [hear, hsix], fun _ => hearly, fun _ _ => ?_⟩
    rw [hbits]
    exact Nat.zero_le _
  have htime : (hear pins g).next =
      g.next + if (g.early || (g.mid != level)) = true then 12 else 10 := by
    simp [hear, hsix, hfive, hsample]
  by_cases hnoticed : (g.early || (g.mid != level)) = true
  · rw [if_pos hnoticed] at htime
    refine ⟨o + 1, by omega, .inr (hdone _ (by omega) ?_)⟩
    rcases hcase with ⟨-, -, -, hfirst⟩ | hsteady
    · omega
    · -- Nothing is noticed as late as that.
      by_contra hlate
      have hmid := hmid hsteady
      rw [if_pos (by omega)] at hmid
      rw [hsteady.late (by omega), hmid] at hnoticed
      simp at hnoticed
  · rw [if_neg hnoticed] at htime
    refine ⟨o - 1, by omega, .inr (hdone _ ?_ (by omega))⟩
    rcases hcase with ⟨-, -, hfirst, -⟩ | hsteady
    · omega
    · -- Without an edge there would be a run of six ones by now.
      by_contra hlate
      have hfalse : g.early = false := by
        cases he : g.early with
        | false => rfl
        | true => simp [he] at hnoticed
      have hmany := hsteady.early (by omega) hfalse
      rw [hfive] at hmany
      have hmany : 6 ≤ g.ones := hmany
      omega

theorem since_next {n : Nat} (hpos : 1 ≤ n) (hlt : n < 8) (hfive : n ≠ 5) :
    since (n + 1) ≤ since n + 1 := by
  revert n
  decide

theorem tuned_kept (h : Placed pins start i o level g) (hsix : g.ones ≠ 6)
    (hfive : g.bits.length ≠ 5) (hpos : 1 ≤ g.bits.length) (hle : g.bits.length ≤ 8)
    (hcase : g.bytes = [] ∧ g.bits.length ≤ 5 ∧ 4 ≤ o ∧ o ≤ 5 ∨ Steady pins o g) :
    Tuned pins start (i + 1) (hear pins g) := by
  obtain ⟨hnext, hlower, hupper, hsample, hmid⟩ := h
  have hg : (hear pins g).next = g.next + 11 := by simp [hear, hsix, hfive]
  refine ⟨o, by omega, ?_⟩
  rcases hcase with ⟨hbytes, hless, hfirst⟩ | hsteady
  · have height : ¬ g.bits.length = 8 := by omega
    refine .inl ⟨by simp [hear, hsix, height, hbytes], ?_, hfirst⟩
    simp [hear, hsix, height]
    omega
  · have hmid := hmid hsteady
    refine .inr ⟨hlower, hupper, by simp [hear, hsix], ?_, ?_⟩
    · intro hlate
      rw [if_pos hlate] at hmid
      simp [hear, hsix, hfive, hsteady.late hlate, hmid, hsample]
    · intro hearly hfalse
      rw [if_neg (by omega)] at hmid
      have hquiet : g.early = false ∧ g.level = level := by
        simpa [hear, hsix, hfive, hmid, hsample] using hfalse
      have hmany := hsteady.early hearly hquiet.1
      have hones : (hear pins g).ones = g.ones + 1 := by simp [hear, hsix, hsample, hquiet.2]
      rw [hones]
      by_cases height : g.bits.length = 8
      · have hlen : (hear pins g).bits.length = 1 := by simp [hear, hsix, height]
        rw [hlen]
        rw [height] at hmany
        exact Nat.succ_le_succ hmany
      · have hlen : (hear pins g).bits.length = g.bits.length + 1 := by simp [hear, hsix, height]
        rw [hlen]
        exact Nat.le_trans (since_next hpos (by omega) hfive) (Nat.succ_le_succ hmany)

theorem tuned_hear (h : Tuned pins start (i + 1) g) (hpos : 1 ≤ g.bits.length)
    (hle : g.bits.length ≤ 8) (hones : g.ones ≤ 6)
    (hprev : ∀ t, start + 11 * i ≤ t → t < start + 11 * (i + 1) → minus pins t = g.level)
    (hcur : ∀ t, start + 11 * (i + 1) ≤ t → t < start + 11 * (i + 2) → minus pins t = level)
    (hstuffed : g.ones = 6 → level = !g.level) : Tuned pins start (i + 2) (hear pins g) := by
  obtain ⟨o, hnext, hcase⟩ := h
  have hrange : 3 ≤ o ∧ o ≤ 6 := by
    rcases hcase with ⟨-, -, hlower, hupper⟩ | hsteady
    · omega
    · exact ⟨hsteady.lower, hsteady.upper⟩
  have hplaced : Placed pins start (i + 1) o level g := by
    refine ⟨hnext, hrange.1, hrange.2, hcur _ (by omega) (by omega), ?_⟩
    intro hsteady
    rw [hsteady.mid]
    split
    · exact hcur _ (by omega) (by omega)
    · exact hprev _ (by omega) (by omega)
  by_cases hsix : g.ones = 6
  · exact tuned_dropped hplaced hsix (hstuffed hsix) hcase
  · by_cases hfive : g.bits.length = 5
    · exact tuned_corrected hplaced (by omega) hfive hcase
    · exact tuned_kept hplaced hsix hfive hpos hle hcase

end Reception

section Packet

variable {usbRxBuf usbInputBufOffset : BitVec 16} {flash : BitVec 16 → BitVec 8}
  {pins : Nat → BitVec 8} {start : Nat} {g : Progress} {bits rest line levels heard : List Bool}
  {level : Bool} {s₀ s : Cpu RxLabel}

/-- The receiver in the middle of a packet, with the levels `line` to come. -/
structure Listening (pins : Nat → BitVec 8) (start : Nat) (bits levels : List Bool)
    (s₀ : Cpu RxLabel) (line : List Bool) (g : Progress) (s : Cpu RxLabel) : Prop where
  receiving : Receiving s₀ g s
  decoded : ∃ rest, Decoded bits g rest line
  heard : ∃ heard, heard ≠ [] ∧ levels = heard ++ line ∧ Tuned pins start heard.length g ∧
    ∀ t, start + 11 * (heard.length - 1) ≤ t → t < start + 11 * heard.length →
      minus pins t = g.level

/-- The buffer has room for the packet. -/
structure Fits (s₀ : Cpu RxLabel) (bits : List Bool) (n : Nat) : Prop where
  low : 0x60 ≤ s₀.y.toNat
  high : s₀.y.toNat + 11 < 65536
  bits : bits.length = 8 * n
  le : n ≤ 11

theorem length_flatten {bytes : List (List Bool)} (h : ∀ byte ∈ bytes, byte.length = 8) :
    bytes.flatten.length = 8 * bytes.length := by
  induction bytes with
  | nil => rfl
  | cons byte bytes ih =>
      rw [List.flatten_cons, List.length_append, h byte List.mem_cons_self,
        ih fun b hb => h b (List.mem_cons_of_mem _ hb), List.length_cons]
      omega

theorem Decoded.length (h : Decoded bits g rest line) :
    bits.length = 8 * g.bytes.length + g.bits.length + rest.length := by
  rw [h.bits, List.length_append, List.length_append, length_flatten h.bytes]

theorem listening_step {n : Nat} (hpacket : Packet pins start levels) (hfits : Fits s₀ bits n)
    (h : Listening pins start bits levels s₀ (level :: line) g s) :
    Reaches (rxCode usbRxBuf usbInputBufOffset flash pins) s
      (Listening pins start bits levels s₀ line (hear pins g)) := by
  obtain ⟨hreceiving, ⟨rest, hdecoded⟩, heard, hne, hlevels, htuned, hprev⟩ := h
  obtain ⟨i, hi⟩ : ∃ i, heard.length = i + 1 :=
    Nat.exists_eq_succ_of_ne_zero fun hzero => hne (List.length_eq_zero_iff.mp hzero)
  have hget : levels[i + 1]? = some level := by
    rw [hlevels, ← hi, List.getElem?_append_right (Nat.le_refl _), Nat.sub_self]
    rfl
  have hwave := hpacket.level (i + 1) level hget
  rw [hi] at htuned hprev
  have hcur : ∀ t, start + 11 * (i + 1) ≤ t → t < start + 11 * (i + 2) → minus pins t = level :=
    fun t hlower hupper => (hwave t hlower (by omega)).1
  have hinside : start + 11 * (i + 1) ≤ g.next ∧ g.next < start + 11 * (i + 1) + 11 := by
    obtain ⟨o, hnext, ⟨-, -, hlower, hupper⟩ | hsteady⟩ := htuned
    · omega
    · have hupper := hsteady.upper
      omega
  have hlength := hdecoded.length
  have hroom : g.bytes.length < 11 := by
    have hpos := hreceiving.pos
    have hbits := hfits.bits
    have hle := hfits.le
    omega
  have hsample := hcur g.next hinside.1 (by omega)
  refine (receiving_step hreceiving hroom hfits.low hfits.high
    fun _ => (hwave _ hinside.1 hinside.2).2).mono ?_
  intro s' hreceiving'
  refine ⟨hreceiving', decoded_hear hdecoded hsample, heard ++ [level], by simp, by simp [hlevels],
    ?_, ?_⟩
  · rw [List.length_append, List.length_singleton, hi]
    exact tuned_hear htuned hreceiving.pos hreceiving.le hreceiving.window.le hprev hcur
      (decoded_stuffed hdecoded)
  · rw [hear_level, hsample, List.length_append, List.length_singleton, hi, Nat.add_sub_cancel]
    exact hcur

theorem listening_run {n : Nat} (hpacket : Packet pins start levels) (hfits : Fits s₀ bits n)
    (h : Listening pins start bits levels s₀ line g s) :
    Reaches (rxCode usbRxBuf usbInputBufOffset flash pins) s fun s' =>
      ∃ g', Listening pins start bits levels s₀ [] g' s' := by
  induction line generalizing g s with
  | nil => exact .here ⟨g, h⟩
  | cons level line ih => exact (listening_step hpacket hfits h).bind fun _ => ih

/-- The packet is in the buffer. -/
structure Received (s₀ : Cpu RxLabel) (bytes : List (List Bool)) (s : Cpu RxLabel) : Prop where
  pc : s.pc = (RxLabel.se0, 0)
  cnt : (s.reg cnt).toNat + bytes.length = 11
  buffered : Buffered s₀ bytes s

/-- The last byte is stored while the end of the packet is on the line. -/
theorem listening_end {n : Nat} (hpacket : Packet pins start levels) (hfits : Fits s₀ bits n)
    (h : Listening pins start bits levels s₀ [] g s) :
    Reaches (rxCode usbRxBuf usbInputBufOffset flash pins) s fun s' =>
      ∃ bytes, bytes.flatten = bits ∧ (∀ byte ∈ bytes, byte.length = 8) ∧
        Received s₀ bytes s' := by
  obtain ⟨hreceiving, ⟨rest, hdecoded⟩, heard, hne, hlevels, ⟨o, hnext, hcase⟩, hprev⟩ := h
  have hupper : o ≤ 6 := by
    rcases hcase with ⟨-, -, -, hupper⟩ | hsteady
    · omega
    · exact hsteady.upper
  have hlevels : levels.length = heard.length := by rw [hlevels, List.append_nil]
  have hend : g.ones ≠ 6 ∧ rest = [] := by
    have hline := hdecoded.line
    by_cases hsix : g.ones = 6
    · rw [pending, if_pos hsix] at hline
      cases hline
    · rw [pending, if_neg hsix] at hline
      cases rest with
      | nil => exact ⟨hsix, rfl⟩
      | cons bit rest =>
          rw [stuff_cons] at hline
          cases hline
  obtain ⟨hones, rfl⟩ := hend
  have hlength := hdecoded.length
  have hpos := hreceiving.pos
  have hle := hreceiving.le
  have hbits := hfits.bits
  have hn := hfits.le
  simp only [List.length_nil, Nat.add_zero] at hlength
  have height : g.bits.length = 8 := by omega
  refine (receiving_step hreceiving (by omega) hfits.low hfits.high
    fun hone => by omega).bind ?_
  intro s₁ h₁
  have hbytes : (hear pins g).bytes = g.bytes ++ [g.bits] := hear_bytes_eight hones height
  have hone : (hear pins g).bits.length = 1 := congrArg List.length (hear_bits_eight hones height)
  have hskipped : (hear pins g).skipped = false := hear_skipped hones
  have htime : (hear pins g).next = g.next + 11 := by simp [hear, hones, height]
  have hready := h₁.ready
  rw [hone, Nat.sub_self] at hready
  refine (se0_run hready hskipped (hpacket.se0 _ (by omega) (by omega))).mono ?_
  rintro s' ⟨hpc, -, hcnt, hframe⟩
  refine ⟨(hear pins g).bytes, ?_, ?_, ⟨hpc, ?_, h₁.buffered.of_frame hframe⟩⟩
  · rw [hbytes, hdecoded.bits, List.flatten_append, List.append_nil, List.flatten_singleton]
  · intro byte hbyte
    rw [hbytes, List.mem_append, List.mem_singleton] at hbyte
    rcases hbyte with hbyte | rfl
    · exact hdecoded.bytes byte hbyte
    · exact height
  · have hold := h₁.cnt
    rw [hone, if_neg (by decide)] at hold
    rw [hcnt]
    exact hold

/-- What the receiver knows after the first bit. -/
def first (pins : Nat → BitVec 8) (c : Nat) (s : Cpu RxLabel) : Progress where
  bytes := []
  bits := [!minus pins c]
  ones := if minus pins c then 0 else 1
  level := minus pins c
  skipped := false
  mid := (s.reg 0#5).getLsbD usbMinus
  early := false
  next := c + 11

theorem buffered_none (s : Cpu RxLabel) : Buffered s [] s where
  y := (BitVec.add_zero _).symm
  stored := rfl
  others := fun _ _ => rfl
  reg := fun _ _ _ _ => rfl
  io := rfl
  outs := rfl
  stack := rfl
  saved := rfl

theorem receiving_first {c : Nat} (h : Synchronised usbRxBuf usbInputBufOffset pins s₀ c s) :
    Receiving s (first pins c s) s := by
  have hones : (first pins c s).ones ≤ 1 := by
    rw [first]
    dsimp only
    split <;> decide
  have hshift : s.reg shift = if minus pins c then 0xFF#8 else 0xFE#8 := h.shift
  constructor
  case pos => exact Nat.le_refl 1
  case le =>
    show 1 ≤ 8
    decide
  case ready =>
    constructor
    case pc => exact h.pc
    case time =>
      show s.cycles + 0 = c + 11
      rw [h.cycles]
    case zero =>
      intro _
      rw [h.zero, eq_comm, beq_eq_false_iff_ne]
      omega
    case carry =>
      intro hseven
      cases hseven
    case level =>
      show (s.reg x1).getLsbD usbMinus = minus pins c
      rw [h.x1]
      rfl
    case mid => rfl
    case early =>
      intro _
      rw [h.phase]
      rfl
    case fresh =>
      intro hfive
      cases hfive
  case window =>
    show Window 1 (if minus pins c then 0 else 1) (s.reg shift)
    rw [hshift]
    cases minus pins c with
    | false => exact ⟨by decide, by decide, by decide, by decide⟩
    | true => exact ⟨by decide, by decide, by decide, by decide⟩
  case bits =>
    intro j
    show [!minus pins c][j]? = if j < 1 then some ((s.reg x3 ^^^ s.reg shift).getLsbD j) else none
    rw [h.x3, hshift]
    cases j with
    | zero => cases minus pins c <;> rfl
    | succ j =>
        rw [if_neg (by omega)]
        rfl
  case skipped =>
    intro hskipped
    cases hskipped
  case last =>
    intro _
    show (s.reg x3).getLsbD 0 = true
    rw [h.x3]
    rfl
  case x3 =>
    intro j hj hj'
    rw [h.x3]
    clear hj
    revert j
    decide
  case cnt =>
    rw [h.cnt]
    rfl
  case buffered => exact buffered_none s

/-- The packet of a host: the bits of the bytes, with the run of ones that the sync pattern
has begun. -/
def packetLevels (bytes : List (BitVec 8)) : List Bool :=
  nrzi false (stuff 6 1 (bytes.flatMap lsbFirst))

theorem listening_first {c : Nat} {bytes : List (BitVec 8)}
    (hpid : ∃ i < 5, (bytes.flatMap lsbFirst)[i]? = some false)
    (hpacket : Packet pins start (packetLevels bytes)) (hlower : start + 4 ≤ c)
    (hupper : c ≤ start + 5) (h : Synchronised usbRxBuf usbInputBufOffset pins s₀ c s) :
    ∃ line, Listening pins start (bytes.flatMap lsbFirst) (packetLevels bytes) s line
      (first pins c s) s := by
  obtain ⟨i, hi, hzero⟩ := hpid
  have hfresh : packetLevels bytes = nrzi false (stuff 6 0 (bytes.flatMap lsbFirst)) := by
    rw [packetLevels, stuff_fresh (b := 0) (by omega) (by omega) hzero]
  cases hbits : bytes.flatMap lsbFirst with
  | nil =>
      rw [hbits] at hzero
      cases hzero
  | cons bit rest =>
      rw [hbits, stuff_cons, nrzi] at hfresh
      have hwave := hpacket.level 0 (false == bit) (by rw [hfresh]; rfl)
      have hlevel : minus pins c = (false == bit) := (hwave c (by omega) (by omega)).1
      refine ⟨_, receiving_first h, ⟨rest, ⟨?_, ?_, ?_⟩⟩, [false == bit], by simp, hfresh, ?_,
        ?_⟩
      · show _ = nrzi (minus pins c) (pending (if minus pins c then 0 else 1) rest)
        rw [hlevel]
        cases bit <;> rfl
      · show bit :: rest = [] ++ [!minus pins c] ++ rest
        rw [hlevel]
        cases bit <;> rfl
      · intro byte hbyte
        cases hbyte
      · refine ⟨c - start, ?_, .inl ⟨rfl, ?_, by omega, by omega⟩⟩
        · show c + 11 = start + 11 * 1 + (c - start)
          omega
        · show 1 ≤ 5
          decide
      · intro t ht ht'
        show minus pins t = minus pins c
        rw [hlevel]
        exact (hwave t ht (by simpa using ht')).1

theorem lsbFirst_injective : Function.Injective (lsbFirst : BitVec 8 → List Bool) := by
  intro v w h
  apply BitVec.eq_of_getLsbD_eq
  intro i hi
  have hbit := congrArg (·[i]?) h
  simpa [lsbFirst, List.getElem?_range hi] using hbit

theorem chunks_unique {xs ys : List (List Bool)} (hx : ∀ x ∈ xs, x.length = 8)
    (hy : ∀ y ∈ ys, y.length = 8) (h : xs.flatten = ys.flatten) : xs = ys := by
  have hlen : xs.length = ys.length := by
    have hxs := length_flatten hx
    have hys := length_flatten hy
    rw [h] at hxs
    omega
  induction xs generalizing ys with
  | nil => exact (List.length_eq_zero_iff.mp hlen.symm).symm
  | cons x xs ih =>
      cases ys with
      | nil => cases hlen
      | cons y ys =>
          have hhead := (hx x List.mem_cons_self).trans (hy y List.mem_cons_self).symm
          obtain ⟨rfl, htail⟩ := List.append_inj h hhead
          rw [ih (fun x' hx' => hx x' (List.mem_cons_of_mem _ hx'))
            (fun y' hy' => hy y' (List.mem_cons_of_mem _ hy')) htail (Nat.succ.inj hlen)]

/-- What the interrupt has received when it leaves the loop. -/
structure Reception (usbRxBuf usbInputBufOffset : BitVec 16) (s₀ : Cpu RxLabel)
    (bytes : List (BitVec 8)) (s : Cpu RxLabel) : Prop where
  pc : s.pc = (RxLabel.se0, 0)
  y : s.y = (s₀.sram usbInputBufOffset).setWidth 16 + usbRxBuf + BitVec.ofNat 16 bytes.length
  cnt : (s.reg cnt).toNat + bytes.length = 11
  stored : bytesAt s.sram ((s₀.sram usbInputBufOffset).setWidth 16 + usbRxBuf) bytes.length = bytes
  others : ∀ a, (∀ i < bytes.length, a ≠ (s₀.sram usbInputBufOffset).setWidth 16 + usbRxBuf +
    BitVec.ofNat 16 i) → s.sram a = s₀.sram a
  saved : s.saved = pushed s₀ ++ s₀.saved
  io : s.io = s₀.io
  outs : s.outs = s₀.outs
  stack : s.stack = s₀.stack

/-- From the interrupt to the end of the packet: whatever the latency, up to the 59 cycles
that the header allows, the bytes of the host are in the buffer, and nothing else has changed
in the memory. The first five bits of a packet are not all ones, as the four bits of its
identifier come with their complements. -/
theorem usbIntrVector_receives {bytes : List (BitVec 8)} (hlen : bytes.length ≤ 11)
    (hpid : ∃ i < 5, (bytes.flatMap lsbFirst)[i]? = some false)
    (hoffset : 0x60 ≤ usbInputBufOffset.toNat)
    (hlow : 0x60 ≤ ((s.sram usbInputBufOffset).setWidth 16 + usbRxBuf).toNat)
    (hhigh : ((s.sram usbInputBufOffset).setWidth 16 + usbRxBuf).toNat + 11 < 65536)
    (hsync : SyncPattern pins start) (hpacket : Packet pins (start + 88) (packetLevels bytes))
    (hpc : s.pc = (RxLabel.usbIntrVector, 0)) (hsreg : (s.io sreg).getLsbD 7 = false)
    (hstart : start ≤ s.cycles) (hlatency : s.cycles ≤ start + 59) :
    Reaches (rxCode usbRxBuf usbInputBufOffset flash pins) s
      (Reception usbRxBuf usbInputBufOffset s bytes) := by
  refine (usbIntrVector_synchronises hoffset hsync hpc hsreg hstart hlatency).bind ?_
  rintro s₁ ⟨c, hlower, hupper, hsynchronised⟩
  obtain ⟨line, hlistening⟩ := listening_first hpid hpacket hlower hupper hsynchronised
  have hbits : (bytes.flatMap lsbFirst).length = 8 * bytes.length := by
    rw [List.flatMap, length_flatten, List.length_map]
    intro byte hbyte
    obtain ⟨v, -, rfl⟩ := List.mem_map.mp hbyte
    exact length_lsbFirst v
  have hy := hsynchronised.y
  have hfits : Fits s₁ (bytes.flatMap lsbFirst) bytes.length :=
    ⟨by rw [hy]; exact hlow, by rw [hy]; exact hhigh, hbits, hlen⟩
  refine (listening_run hpacket hfits hlistening).bind ?_
  rintro s₂ ⟨g, hlast⟩
  refine (listening_end hpacket hfits hlast).mono ?_
  rintro s₃ ⟨chunks, hflatten, hchunks, h⟩
  have hmap : chunks = bytes.map lsbFirst := by
    refine chunks_unique hchunks ?_ hflatten
    intro byte hbyte
    obtain ⟨v, -, rfl⟩ := List.mem_map.mp hbyte
    exact length_lsbFirst v
  have hcount : chunks.length = bytes.length := by rw [hmap, List.length_map]
  obtain ⟨hpc₃, hcnt₃, hy₃, hstored, hothers, -, hio, houts, hstack, hsaved⟩ := h
  obtain ⟨-, hsram₁, hio₁, houts₁, hstack₁, hsaved₁⟩ := hsynchronised.frame
  rw [hcount, hy] at hy₃ hstored hothers
  rw [hcount] at hcnt₃
  refine ⟨hpc₃, hy₃, hcnt₃, ?_, ?_, hsaved.trans hsaved₁, hio.trans hio₁, houts.trans houts₁,
    hstack.trans hstack₁⟩
  · rw [hmap] at hstored
    exact List.map_injective_iff.mpr lsbFirst_injective hstored
  · intro a ha
    exact (hothers a ha).trans (congrFun hsram₁ a)

/-- The line of a host that sends the sync pattern from cycle 0 on and then a packet. -/
def waveform (levels : List Bool) (i : Nat) : BitVec 8 :=
  if i < 88 then syncPins i
  else match levels[(i - 88) / 11]? with
    | some true => 0x08#8
    | some false => 0x02#8
    | none => 0x00#8

theorem sync_waveform (levels : List Bool) : SyncPattern (waveform levels) 0 := by
  constructor
  · intro b i hb hlower hupper
    rw [waveform, if_pos (by omega)]
    exact syncPins_pattern.j b i hb hlower hupper
  · intro b i hb hlower hupper
    rw [waveform, if_pos (by omega)]
    exact syncPins_pattern.k b i hb hlower hupper

theorem packet_waveform (levels : List Bool) : Packet (waveform levels) (0 + 88) levels := by
  constructor
  · intro i level hlevel t hlower hupper
    have hi : (t - 88) / 11 = i := by omega
    have ht : waveform levels t = if level then 0x08#8 else 0x02#8 := by
      rw [waveform, if_neg (by omega), hi, hlevel]
      cases level <;> rfl
    rw [minus, ht]
    cases level <;> decide
  · intro t hlower hupper
    have hnone : levels[(t - 88) / 11]? = none := List.getElem?_eq_none (by omega)
    rw [waveform, if_neg (by omega), hnone]
    rfl

/-- A packet with four stuffed bits, found after the longest latency. -/
theorem usbIntrVector_receives_stuffed :
    let bytes := [0xC3#8, 0xFF#8, 0xFF#8, 0x7F#8]
    let s := { called RxLabel.usbIntrVector RxLabel.sofError 0#16 0#8 with cycles := 59 }
    (packetLevels bytes).length = 36 ∧
      Reaches (rxCode 0x61#16 0x60#16 (fun _ => 0#8) (waveform (packetLevels bytes))) s
        (Reception 0x61#16 0x60#16 s bytes) :=
  ⟨by decide, usbIntrVector_receives (by decide) ⟨2, by decide, rfl⟩ (by decide) (by decide)
    (by decide) (sync_waveform _) (packet_waveform _) rfl rfl (by decide) (by decide)⟩

end Packet

end NesMiniAdapter.UsbReception
