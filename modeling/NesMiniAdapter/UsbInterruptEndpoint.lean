import NesMiniAdapter.UsbPackets

/-!
The interrupt endpoint as a slot for one report: what the host gets from it is what the
main program has handed over, whenever the packets of the host come.
-/

namespace NesMiniAdapter.UsbInterruptEndpoint

open NesMiniAdapter.InterruptedProgram
open NesMiniAdapter.UsbCrc16
open NesMiniAdapter.UsbDriver
open NesMiniAdapter.UsbPackets

/-- `SET_INTERFACE`, for which the driver starts again with the identifiers. -/
def SetsInterface (rq : List Byte) : Prop :=
  rq.getD bmRequestType 0#8 &&& usbrqTypeMask = usbrqTypeStandard ∧ rq.getD bRequest 0#8 = 11#8

/-- The host has not set the interface. -/
def Undisturbed (trace : List Exchange) : Prop := ∀ rq ∈ requests trace, ¬ SetsInterface rq

/-- The slot with its packet, if there is one. -/
def slot (u : Usb) : List (List Byte) := pending u.usbTxStatus1.len u.usbTxStatus1.buffer

/-- `handed` has been sent but for the report in the slot. -/
structure Handed (handed : List (List Byte)) (b : Bus) : Prop where
  data : (interruptPackets b.trace ++ slot b.usb).map List.tail = handed.map withCrc
  toggles : Undisturbed b.trace →
    interruptPackets b.trace ++ slot b.usb = packetsFrom 0 handed ∧
      b.usb.usbTxStatus1.buffer 0 = pid (handed.length + 1)

/-- The slot is empty, so that its buffer is the main program's own. -/
structure Slot (handed : List (List Byte)) (token : Byte) (buffer : Nat → Byte) (b : Bus) :
    Prop where
  empty : b.usb.usbTxStatus1.len.getLsbD 4 = true
  data : (interruptPackets b.trace).map List.tail = handed.map withCrc
  toggles : Undisturbed b.trace →
    interruptPackets b.trace = packetsFrom 0 handed ∧ token = pid handed.length
  buffer : b.usb.usbTxStatus1.buffer = buffer

theorem Undisturbed.of_snoc {trace : List Exchange} {e : Exchange}
    (h : Undisturbed (trace ++ [e])) : Undisturbed trace :=
  fun rq hrq => h rq (mem_requests_snoc hrq)

section Stable

variable {handed : List (List Byte)}

/-- A packet leaves the slot alone or sends what is in it. -/
theorem slot_served {b : Bus} {e : Exchange} {u : Usb} (h : Served b.usb e u) :
    (u.usbTxStatus1 = b.usb.usbTxStatus1 ∧
      interruptPackets (b.trace ++ [e]) = interruptPackets b.trace) ∨
    (b.usb.usbTxStatus1.len.getLsbD 4 = false ∧
      u.usbTxStatus1 = ⟨usbpidNak, b.usb.usbTxStatus1.buffer⟩ ∧
      interruptPackets (b.trace ++ [e]) = interruptPackets b.trace ++ slot b.usb) := by
  cases h with
  | quiet e he => exact .inl ⟨rfl, interruptPackets_quiet he⟩
  | stored => exact .inl ⟨rfl, interruptPackets_stored⟩
  | control => exact .inl ⟨rfl, interruptPackets_control⟩
  | interrupt _ _ _ endpoint hendpoint hready =>
      rw [slot, pending_full hready]
      exact .inr ⟨hready, rfl, interruptPackets_sent hendpoint⟩

theorem handed_stable : Stable handler (Handed handed) := by
  intro packet b h
  rcases slot_served (served packet b.usb) with ⟨hstatus, htrace⟩ | ⟨-, hstatus, htrace⟩
  · have hslot : slot (usbInterrupt packet b.usb).2 = slot b.usb := by rw [slot, slot, hstatus]
    constructor
    · simp only [handler, htrace, hslot]
      exact h.data
    · simp only [handler, htrace, hslot, hstatus]
      exact fun hno => h.toggles hno.of_snoc
  · have hslot : slot (usbInterrupt packet b.usb).2 = [] := by
      rw [slot, hstatus]
      exact pending_empty (show usbpidNak.getLsbD 4 = true by decide)
    constructor
    · simp only [handler, htrace, hslot, List.append_nil]
      exact h.data
    · simp only [handler, htrace, hslot, hstatus, List.append_nil]
      exact fun hno => h.toggles hno.of_snoc

theorem slot_stable {token : Byte} {buffer : Nat → Byte} :
    Stable handler (Slot handed token buffer) := by
  intro packet b h
  rcases slot_served (served packet b.usb) with ⟨hstatus, htrace⟩ | ⟨hfull, -⟩
  · constructor
    · simp only [handler, hstatus]
      exact h.empty
    · simp only [handler, htrace]
      exact h.data
    · simp only [handler, htrace]
      exact fun hno => h.toggles hno.of_snoc
    · simp only [handler, hstatus]
      exact h.buffer
  · rw [h.empty] at hfull
    cases hfull

end Stable

section ResetDataToggling

theorem tail_packetOf_update {len : Byte} {buffer : Nat → Byte} {token : Byte} :
    (packetOf len (Function.update buffer 0 token)).tail = (packetOf len buffer).tail := by
  rw [packetOf, packetOf]
  cases len.toNat - 1 with
  | zero => rfl
  | succ n => simp [List.range_succ_eq_map]

theorem tail_pending_update {len : Byte} {buffer : Nat → Byte} {token : Byte} :
    (pending len (Function.update buffer 0 token)).map List.tail =
      (pending len buffer).map List.tail := by
  rw [pending, pending]
  split
  · rfl
  · rw [List.map_singleton, tail_packetOf_update, List.map_singleton]

/-- `usbResetDataToggling` changes no report. -/
theorem Handed.reset {handed : List (List Byte)} {b : Bus} (h : Handed handed b) (token : Byte)
    (hset : ¬ Undisturbed b.trace) :
    Handed handed { b with usb := { b.usb with usbTxStatus1 := { b.usb.usbTxStatus1 with
      buffer := Function.update b.usb.usbTxStatus1.buffer 0 token } } } := by
  constructor
  · rw [← h.data, slot, slot, List.map_append, List.map_append]
    exact congrArg _ tail_pending_update
  · exact fun hno => absurd hno hset

end ResetDataToggling

section SetInterrupt

variable {handed : List (List Byte)} {token : Byte} {buffer : Nat → Byte}

theorem and_ready {len : Byte} : len &&& 0x10#8 ≠ 0#8 ↔ len.getLsbD 4 = true := by
  revert len
  decide

/-- An empty slot, with the identifier that the next packet will have. -/
theorem Handed.to_slot {b : Bus} (h : Handed handed b)
    (hempty : b.usb.usbTxStatus1.len.getLsbD 4 = true) :
    Slot handed (b.usb.usbTxStatus1.buffer 0 ^^^ (usbpidData0 ^^^ usbpidData1))
      b.usb.usbTxStatus1.buffer b := by
  have hslot : slot b.usb = [] := pending_empty hempty
  obtain ⟨hdata, htoggles⟩ := h
  rw [hslot, List.append_nil] at hdata htoggles
  refine ⟨hempty, hdata, ?_, rfl⟩
  intro hno
  obtain ⟨hpackets, htoken⟩ := htoggles hno
  rw [htoken, pid_succ]
  exact ⟨hpackets, pid_add_two handed.length⟩

theorem runs_putTxBuf1 (i : Nat) (v : Byte) :
    Runs (Slot handed token) (putTxBuf1 i v) buffer () (Function.update buffer i v) := by
  refine runs_store slot_stable ?_
  intro b h
  exact ⟨h.empty, h.data, h.toggles, congrArg (Function.update · i v) h.buffer⟩

theorem runs_getTxBuf1 (i : Nat) :
    Runs (Slot handed token) (get (·.usbTxStatus1.buffer i)) buffer (buffer i) buffer :=
  runs_load slot_stable fun _ h => congrFun h.buffer i

theorem runs_claimTxStatus : Runs (Slot handed token) claimTxStatus buffer ()
    (Function.update buffer 0 (buffer 0 ^^^ (usbpidData0 ^^^ usbpidData1))) := by
  have hload : Triple (Slot handed token buffer) (get (·.usbTxStatus1.len)) fun len b =>
      len.getLsbD 4 = true ∧ Slot handed token buffer b :=
    triple_load slot_stable fun b h => ⟨h.empty, h⟩
  refine triple_bind hload ?_
  intro len
  apply triple_and_left
  intro hlen
  rw [if_pos (and_ready.mpr hlen)]
  exact runs_bind (runs_getTxBuf1 0) (runs_putTxBuf1 0 _)

theorem runs_copy (data : List Byte) (n : Nat) :
    Runs (Slot handed token) (forUpTo (fun i => putTxBuf1 (1 + i) (data.getD i 0#8)) n) buffer
      ((List.range n).map fun _ => ()) (copied buffer (fun i => data.getD i 0#8) n) := by
  have hround : ∀ i < n, Runs (Slot handed token) (putTxBuf1 (1 + i) (data.getD i 0#8))
      (copied buffer (fun i => data.getD i 0#8) i) ()
      (copied buffer (fun i => data.getD i 0#8) (i + 1)) := by
    intro i hi
    rw [← update_copied]
    exact runs_putTxBuf1 (1 + i) _
  have hloop := runs_forUpTo _ (fun _ => ()) hround
  rw [copied_zero] at hloop
  exact hloop

/-- With its length the report in the slot becomes one of those handed over. -/
theorem setTxLen1_hands {data : List Byte} (hlen : data.length ≤ 8) (htoken : buffer 0 = token)
    (hdata : ∀ i < data.length, buffer (1 + i) = data.getD i 0#8) :
    Triple (Slot handed token (finished buffer data)) (setTxLen1 (BitVec.ofNat 8 data.length + 4#8))
      fun _ => Handed (handed ++ [data]) := by
  unfold setTxLen1 UsbDriver.set
  refine triple_store slot_stable ?_
  intro b h
  have hslot : slot { b.usb with usbTxStatus1 :=
      { b.usb.usbTxStatus1 with len := BitVec.ofNat 8 data.length + 4#8 } } =
      [token :: withCrc data] := by
    rw [slot, pending_full (getLsbD_four_ofNat_add hlen), h.buffer, packetOf_finished hlen hdata,
      htoken]
  constructor
  · rw [hslot, List.map_append, h.data, List.map_append]
    rfl
  · intro hno
    obtain ⟨hpackets, hpid⟩ := h.toggles hno
    rw [hslot, hpackets, packetsFrom_append, h.buffer, finished_first, htoken, hpid, Nat.zero_add,
      List.length_append]
    exact ⟨rfl, (pid_add_two handed.length).symm⟩

/-- A report that finds the slot empty is handed over. -/
theorem usbSetInterrupt_hands {data : List Byte} (hlen : data.length ≤ 8) :
    Triple (fun b => Handed handed b ∧ b.usb.usbTxStatus1.len.getLsbD 4 = true)
      (usbSetInterrupt data) fun _ => Handed (handed ++ [data]) := by
  have hpre : ∀ b, Handed handed b ∧ b.usb.usbTxStatus1.len.getLsbD 4 = true →
      ∃ buffer, Slot handed (buffer 0 ^^^ (usbpidData0 ^^^ usbpidData1)) buffer b :=
    fun b h => ⟨_, h.1.to_slot h.2⟩
  refine Triple.pre (triple_exists ?_) hpre
  intro buffer
  refine runs_claimTxStatus.triple_bind ((runs_copy data _).triple_bind ?_)
  have hdata : ∀ i < data.length,
      copied (Function.update buffer 0 (buffer 0 ^^^ (usbpidData0 ^^^ usbpidData1)))
        (fun i => data.getD i 0#8) (max data.length 1) (1 + i) = data.getD i 0#8 :=
    fun i hi => copied_data _ _ (by omega)
  refine (runs_usbCrc16Append ?_ (runs_putTxBuf1 _ _) (runs_putTxBuf1 _ _)).triple_bind ?_
  · intro i hi
    rw [← hdata i hi]
    exact runs_getTxBuf1 (1 + i)
  · refine setTxLen1_hands hlen ?_ hdata
    rw [copied_first, Function.update_self]

end SetInterrupt

end NesMiniAdapter.UsbInterruptEndpoint
