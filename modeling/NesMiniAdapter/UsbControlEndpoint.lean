import NesMiniAdapter.UsbDevice
import NesMiniAdapter.UsbInterruptEndpoint

/-!
The control endpoint: what the host gets from it after a request is what the device
should answer, whenever the packets of the host come, even in the middle of an answer.
-/

namespace NesMiniAdapter.UsbControlEndpoint

open NesMiniAdapter.InterruptedProgram
open NesMiniAdapter.UsbCrc16
open NesMiniAdapter.UsbDriver
open NesMiniAdapter.UsbPackets
open NesMiniAdapter.UsbDevice
open NesMiniAdapter.UsbInterruptEndpoint

/-- The variables with which the main program answers a request. -/
structure View where
  usbNewDeviceAddr : Byte
  usbConfiguration : Byte
  usbTxLen : Byte
  usbTxBuf : Nat → Byte
  usbMsgPtr : MsgPtr
  usbMsgLen : Byte
  usbMsgFlags : Byte

def view (u : Usb) : View where
  usbNewDeviceAddr := u.usbNewDeviceAddr
  usbConfiguration := u.usbConfiguration
  usbTxLen := u.usbTxLen
  usbTxBuf := u.usbTxBuf
  usbMsgPtr := u.usbMsgPtr
  usbMsgLen := u.usbMsgLen
  usbMsgFlags := u.usbMsgFlags

/-- At every moment what the host has got since the last request is the beginning of the
answer that the device should give. -/
def Faithful (trace : List Exchange) : Prop :=
  ∀ t, t <+: trace → controlPackets t <+: packetsFrom 1 (after (requests t)).blocks

/-- The address is one that the host has assigned, or none. -/
def Named (trace : List Exchange) (address : Byte) : Prop :=
  ∃ rs, rs <+: requests trace ∧ address = (after rs).address <<< 1

/-- The requests `rs` have been taken, and `sent` is what the host has of the answer to the
last one. -/
structure Receptive (rs sent : List (List Byte)) (b : Bus) : Prop where
  requests : requests b.trace = rs
  sent : controlPackets b.trace = sent
  offset : b.usb.usbInputBufOffset = 0#8 ∨ b.usb.usbInputBufOffset = 11#8
  nothing : ¬ (b.usb.usbRxLen = 11#8 ∧ b.usb.usbRxToken = usbpidSetup)
  faithful : Faithful b.trace
  address : Named b.trace b.usb.usbDeviceAddr

/-- The request `rq` waits in the half of the buffer that the receiver has left. -/
structure Waiting (off : Byte) (rs : List (List Byte)) (rq : List Byte) (b : Bus) : Prop where
  requests : requests b.trace = rs ++ [rq]
  sent : controlPackets b.trace = []
  offset : b.usb.usbInputBufOffset = off
  half : off = 0#8 ∨ off = 11#8
  full : b.usb.usbRxLen = 11#8
  token : b.usb.usbRxToken = usbpidSetup
  bytes : ∀ i < 8, b.usb.usbRxBuf (usbBufsize + 1 - off.toNat + i) = rq.getD i 0#8
  faithful : Faithful b.trace
  address : Named b.trace b.usb.usbDeviceAddr

/-- The request in the receive buffer, if there is one. -/
def waiting (u : Usb) : List (List Byte) :=
  if u.usbRxLen = 11#8 ∧ u.usbRxToken = usbpidSetup then
    [(List.range 8).map fun i => u.usbRxBuf (usbBufsize + 1 - u.usbInputBufOffset.toNat + i)]
  else []

/-- The requests that no longer wait. -/
def taken (b : Bus) : List (List Byte) :=
  (requests b.trace).take ((requests b.trace).length - (waiting b.usb).length)

/-- What a packet can take. -/
structure Offers (rs sent : List (List Byte)) (u : Usb) : Prop where
  packet : sent ++ pending u.usbTxLen u.usbTxBuf <+: packetsFrom 1 (after rs).blocks
  address : u.usbNewDeviceAddr = (after rs).address ∨ u.usbNewDeviceAddr = 0#8

section Stable

variable {rs sent : List (List Byte)} {rq : List Byte} {off : Byte} {b : Bus} {e : Exchange}
  {u : Usb}

theorem requests_sent {trace : List Exchange} {endpoint : Byte} {packet : List Byte} :
    UsbPackets.requests (trace ++ [.sent endpoint packet]) = UsbPackets.requests trace := by
  rw [requests_snoc]
  exact List.append_nil _

theorem controlPackets_interrupt {trace : List Exchange} {endpoint : Byte} {packet : List Byte}
    (h : endpoint ≠ 0#8) :
    controlPackets (trace ++ [.sent endpoint packet]) = controlPackets trace := by
  rw [controlPackets_snoc]
  exact if_neg h

theorem requests_stored {trace : List Exchange} {token : Byte} {data : List Byte} :
    UsbPackets.requests (trace ++ [.stored token data]) = UsbPackets.requests trace ++
      if token = usbpidSetup ∧ data.length = 8 then [data] else [] := by
  rw [requests_snoc]
  by_cases h : token = usbpidSetup ∧ data.length = 8
  · simp [UsbPackets.requests, h]
  · simp [UsbPackets.requests, h]

theorem controlPackets_stored {trace : List Exchange} {token : Byte} {data : List Byte} :
    controlPackets (trace ++ [.stored token data]) =
      if token = usbpidSetup ∧ data.length = 8 then [] else controlPackets trace := by
  rw [controlPackets_snoc]
  rfl

theorem controlPackets_control {trace : List Exchange} {packet : List Byte} :
    controlPackets (trace ++ [.sent 0#8 packet]) = controlPackets trace ++ [packet] := by
  rw [controlPackets_snoc]
  rfl

theorem Faithful.snoc {trace : List Exchange} (h : Faithful trace)
    (hlast : controlPackets (trace ++ [e]) <+:
      packetsFrom 1 (after (UsbPackets.requests (trace ++ [e]))).blocks) :
    Faithful (trace ++ [e]) := by
  intro t ht
  rcases List.prefix_concat_iff.mp ht with rfl | ht
  · exact hlast
  · exact h t ht

/-- Where neither the requests nor the packets change. -/
theorem Faithful.same {trace : List Exchange} (h : Faithful trace)
    (hrequests : UsbPackets.requests (trace ++ [e]) = UsbPackets.requests trace)
    (hsent : controlPackets (trace ++ [e]) = controlPackets trace) : Faithful (trace ++ [e]) := by
  apply h.snoc
  rw [hrequests, hsent]
  exact h trace (List.prefix_refl trace)

theorem Named.snoc {trace : List Exchange} {address : Byte} (h : Named trace address) :
    Named (trace ++ [e]) address := by
  obtain ⟨rs, hbegin, haddress⟩ := h
  refine ⟨rs, hbegin.trans ?_, haddress⟩
  rw [requests_snoc]
  exact List.prefix_append _ _

/-- The new address is the one of the last assignment, or none after a reset of the bus. -/
theorem Offers.named {trace : List Exchange} (h : Offers rs sent u)
    (hrequests : UsbPackets.requests trace = rs) : Named trace (u.usbNewDeviceAddr <<< 1) := by
  rcases h.address with haddress | haddress
  · exact ⟨rs, by rw [hrequests], by rw [haddress]⟩
  · exact ⟨[], List.nil_prefix, by rw [haddress]; rfl⟩

/-- A waiting request keeps everything from the control endpoint until it is taken. -/
theorem Waiting.served (h : Waiting off rs rq b) (hs : Served b.usb e u) :
    view u = view b.usb ∧ Waiting off rs rq { b with usb := u, trace := b.trace ++ [e] } := by
  have hbytes : ∀ buf, OwnHalf b.usb buf → ∀ i < 8,
      buf (usbBufsize + 1 - off.toNat + i) = rq.getD i 0#8 := by
    intro buf hbuf i hi
    rw [← h.bytes i hi]
    apply hbuf
    rw [h.offset]
    rcases h.half with rfl | rfl
    · right
      simp
      omega
    · left
      simp
      omega
  cases hs with
  | quiet e he buf hbuf =>
      refine ⟨rfl, ?_, ?_, h.offset, h.half, h.full, h.token, hbytes buf hbuf, ?_, h.address.snoc⟩
      · exact (requests_quiet he).trans h.requests
      · exact (controlPackets_quiet he).trans h.sent
      · exact h.faithful.same (requests_quiet he) (controlPackets_quiet he)
  | stored _ _ _ _ _ hfree =>
      rw [h.full] at hfree
      cases hfree
  | control _ _ hrx =>
      rw [h.full] at hrx
      exact absurd (by decide) hrx
  | interrupt _ _ hrx =>
      rw [h.full] at hrx
      exact absurd (by decide) hrx

/-- A packet leaves the answer alone, unless it brings another request, or takes the
packet that is ready. -/
theorem Receptive.served (h : Receptive rs sent b) (hoffers : Offers rs sent b.usb)
    (hs : Served b.usb e u) :
    (view u = view b.usb ∧
      (Receptive rs sent { b with usb := u, trace := b.trace ++ [e] } ∨
        ∃ off rq, Waiting off rs rq { b with usb := u, trace := b.trace ++ [e] })) ∨
    (b.usb.usbTxLen.getLsbD 4 = false ∧ view u = { view b.usb with usbTxLen := usbpidNak } ∧
      Receptive rs (sent ++ [packetOf b.usb.usbTxLen b.usb.usbTxBuf])
        { b with usb := u, trace := b.trace ++ [e] }) := by
  cases hs with
  | quiet e he buf hbuf =>
      refine .inl ⟨rfl, .inl ⟨?_, ?_, h.offset, h.nothing, ?_, h.address.snoc⟩⟩
      · exact (requests_quiet he).trans h.requests
      · exact (controlPackets_quiet he).trans h.sent
      · exact h.faithful.same (requests_quiet he) (controlPackets_quiet he)
  | stored buf hbuf data hpos hlen hfree hdata =>
      refine .inl ⟨rfl, ?_⟩
      have hoffset : 11#8 - b.usb.usbInputBufOffset = 0#8 ∨
          11#8 - b.usb.usbInputBufOffset = 11#8 := by
        rcases h.offset with hoff | hoff
        · exact .inr (by rw [hoff]; rfl)
        · exact .inl (by rw [hoff]; rfl)
      by_cases hrequest : b.usb.usbCurrentTok = usbpidSetup ∧ data.length = 8
      · refine .inr ⟨11#8 - b.usb.usbInputBufOffset, data, ?_, ?_, rfl, hoffset, ?_, hrequest.1, ?_,
          ?_, h.address.snoc⟩
        · rw [requests_stored, if_pos hrequest, h.requests]
        · rw [controlPackets_stored, if_pos hrequest]
        · rw [hrequest.2]
        · intro i hi
          rw [← hdata i (by omega)]
          rcases h.offset with hoff | hoff
          · simp [hoff]
          · simp [hoff]
        · apply h.faithful.snoc
          rw [controlPackets_stored, if_pos hrequest]
          exact List.nil_prefix
      · refine .inl ⟨?_, ?_, hoffset, ?_, ?_, h.address.snoc⟩
        · rw [requests_stored, if_neg hrequest, List.append_nil, h.requests]
        · rw [controlPackets_stored, if_neg hrequest, h.sent]
        · rintro ⟨hfull, htoken⟩
          have hnat := congrArg BitVec.toNat hfull
          simp at hnat
          exact hrequest ⟨htoken, by omega⟩
        · refine h.faithful.same ?_ ?_
          · rw [requests_stored, if_neg hrequest, List.append_nil]
          · rw [controlPackets_stored, if_neg hrequest]
  | control buf hbuf hrx hfull =>
      have hready := hoffers.packet
      refine .inr ⟨hfull, rfl, ?_, ?_, h.offset, h.nothing, ?_, (hoffers.named h.requests).snoc⟩
      · exact requests_sent.trans h.requests
      · rw [controlPackets_control, h.sent]
      · apply h.faithful.snoc
        rw [pending_full hfull] at hready
        rw [requests_sent, controlPackets_control, h.sent, h.requests]
        exact hready
  | interrupt buf hbuf _ endpoint hendpoint =>
      refine .inl ⟨rfl, .inl ⟨?_, ?_, h.offset, h.nothing, ?_, (hoffers.named h.requests).snoc⟩⟩
      · exact requests_sent.trans h.requests
      · exact (controlPackets_interrupt hendpoint).trans h.sent
      · exact h.faithful.same requests_sent (controlPackets_interrupt hendpoint)

end Stable

/-- A pointer reads `bytes`, as far as they go. -/
inductive Source (v : View) : List Byte → Prop
  | flash {bytes data : List Byte} (hflags : v.usbMsgFlags = usbFlgMsgptrIsRom)
      (hptr : v.usbMsgPtr = .flash bytes) (h : data <+: bytes) : Source v data
  | buffer {data : List Byte} (hflags : v.usbMsgFlags = 0#8) (hptr : v.usbMsgPtr = .usbTxBuf 9)
      (h : data <+: [v.usbTxBuf 9, v.usbTxBuf 10]) : Source v data
  | configuration {data : List Byte} (hflags : v.usbMsgFlags = 0#8)
      (hptr : v.usbMsgPtr = .usbConfiguration) (h : data <+: [v.usbConfiguration]) : Source v data
  | nothing : Source v []

/-- What is left of the reply after `k` packets. -/
inductive Rest (d : Device) (k : Nat) (v : View) : Prop
  | nothing (hk : k = d.blocks.length) (hlen : v.usbMsgLen = usbNoMsg)
  | bytes (data : List Byte) (hreply : d.reply = some data) (hk : 8 * k ≤ data.length)
      (hshort : data.length < 255) (htoken : v.usbTxBuf 0 = pid k)
      (hlen : v.usbMsgLen = BitVec.ofNat 8 (data.length - 8 * k))
      (hsource : Source v (data.drop (8 * k)))

/-- The host has the packets `sent` of the answer, the rest of which is as it should be. -/
structure Answers (d : Device) (sent : List (List Byte)) (v : View) : Prop where
  address : v.usbNewDeviceAddr = d.address ∨ v.usbNewDeviceAddr = 0#8
  configuration : v.usbConfiguration = d.configuration
  progress : ∃ k, sent ++ pending v.usbTxLen v.usbTxBuf = packetsFrom 1 (d.blocks.take k) ∧
    Rest d k v

/-- A request may wait, but the answer to the last one that was taken goes on. -/
def Attending (rs sent : List (List Byte)) (b : Bus) : Prop :=
  Receptive rs sent b ∨ ∃ off rq, Waiting off rs rq b

/-- The control endpoint between two steps of the main program. -/
def Control (rs : List (List Byte)) (b : Bus) : Prop :=
  ∃ sent, Attending rs sent b ∧ Answers (after rs) sent (view b.usb)

section Views

variable {v : View} {data : List Byte}

theorem Source.congr {v' : View} (h : Source v data) (hflags : v'.usbMsgFlags = v.usbMsgFlags)
    (hptr : v'.usbMsgPtr = v.usbMsgPtr) (hconfiguration : v'.usbConfiguration = v.usbConfiguration)
    (hbuf : ∀ i, 9 ≤ i → v'.usbTxBuf i = v.usbTxBuf i) : Source v' data := by
  cases h with
  | flash hflags' hptr' h => exact .flash (hflags.trans hflags') (hptr.trans hptr') h
  | buffer hflags' hptr' h =>
      refine .buffer (hflags.trans hflags') (hptr.trans hptr') ?_
      rw [hbuf 9 (by omega), hbuf 10 (by omega)]
      exact h
  | configuration hflags' hptr' h =>
      refine .configuration (hflags.trans hflags') (hptr.trans hptr') ?_
      rw [hconfiguration]
      exact h
  | nothing => exact .nothing

theorem Source.cut {data' : List Byte} (h : Source v data) (hbegin : data' <+: data) :
    Source v data' := by
  cases h with
  | flash hflags hptr h => exact .flash hflags hptr (hbegin.trans h)
  | buffer hflags hptr h => exact .buffer hflags hptr (hbegin.trans h)
  | configuration hflags hptr h => exact .configuration hflags hptr (hbegin.trans h)
  | nothing =>
      rw [List.prefix_nil.mp hbegin]
      exact .nothing

theorem Source.of_found (hflags : v.usbMsgFlags = usbFlgMsgptrIsRom)
    (h : data = [] ∨ ∃ bytes, v.usbMsgPtr = .flash bytes ∧ data <+: bytes) : Source v data := by
  rcases h with rfl | ⟨bytes, hptr, hbegin⟩
  · exact .nothing
  · exact .flash hflags hptr hbegin

/-- The host takes the packet that is ready. -/
theorem Answers.sent {d : Device} {sent : List (List Byte)} (h : Answers d sent v)
    (hfull : v.usbTxLen.getLsbD 4 = false) :
    Answers d (sent ++ [packetOf v.usbTxLen v.usbTxBuf]) { v with usbTxLen := usbpidNak } := by
  obtain ⟨haddress, hconfiguration, k, hsent, hrest⟩ := h
  refine ⟨haddress, hconfiguration, k, ?_, ?_⟩
  · rw [pending_empty (show usbpidNak.getLsbD 4 = true by decide), List.append_nil, ← hsent,
      pending_full hfull]
  · cases hrest with
    | nothing hk hlen => exact .nothing hk hlen
    | bytes data hreply hk hshort htoken hlen hsource =>
        exact .bytes data hreply hk hshort htoken hlen (hsource.congr rfl rfl rfl fun _ _ => rfl)

theorem packetsFrom_begin (n : Nat) {first all : List (List Byte)} (h : first <+: all) :
    packetsFrom n first <+: packetsFrom n all := by
  obtain ⟨rest, rfl⟩ := h
  rw [packetsFrom_append]
  exact List.prefix_append _ _

theorem Answers.offers {rs sent : List (List Byte)} {u : Usb}
    (h : Answers (after rs) sent (view u)) : Offers rs sent u := by
  obtain ⟨haddress, -, k, hsent, -⟩ := h
  refine ⟨?_, haddress⟩
  have hbegin := List.take_prefix k (after rs).blocks
  exact hsent ▸ packetsFrom_begin 1 hbegin

theorem control_stable {rs : List (List Byte)} : Stable handler (Control rs) := by
  rintro packet b ⟨sent, h | ⟨off, rq, h⟩, hanswers⟩
  · rcases h.served hanswers.offers (served packet b.usb) with ⟨hview, h⟩ | ⟨hfull, hview, h⟩
    · refine ⟨sent, h, ?_⟩
      rw [handler, hview]
      exact hanswers
    · refine ⟨_, .inl h, ?_⟩
      rw [handler, hview]
      exact hanswers.sent hfull
  · obtain ⟨hview, h⟩ := h.served (served packet b.usb)
    refine ⟨sent, .inr ⟨off, rq, h⟩, ?_⟩
    rw [handler, hview]
    exact hanswers

def withView (u : Usb) (v : View) : Usb :=
  { u with
    usbNewDeviceAddr := v.usbNewDeviceAddr
    usbConfiguration := v.usbConfiguration
    usbTxLen := v.usbTxLen
    usbTxBuf := v.usbTxBuf
    usbMsgPtr := v.usbMsgPtr
    usbMsgLen := v.usbMsgLen
    usbMsgFlags := v.usbMsgFlags }

theorem Waiting.withView {off : Byte} {rs : List (List Byte)} {rq : List Byte} {b : Bus}
    (h : Waiting off rs rq b) (v : View) :
    Waiting off rs rq { b with usb := withView b.usb v } :=
  ⟨h.requests, h.sent, h.offset, h.half, h.full, h.token, h.bytes, h.faithful, h.address⟩

/-- What the receiver has stored and the bus has seen is all that matters. -/
theorem Attending.congr {rs sent : List (List Byte)} {b b' : Bus} (h : Attending rs sent b)
    (htrace : b'.trace = b.trace) (hbuf : b'.usb.usbRxBuf = b.usb.usbRxBuf)
    (hoffset : b'.usb.usbInputBufOffset = b.usb.usbInputBufOffset)
    (hlen : b'.usb.usbRxLen = b.usb.usbRxLen) (htoken : b'.usb.usbRxToken = b.usb.usbRxToken)
    (haddress : Named b.trace b'.usb.usbDeviceAddr) : Attending rs sent b' := by
  rcases h with ⟨h₁, h₂, h₃, h₄, h₅, -⟩ | ⟨off, rq, h₁, h₂, h₃, h₄, h₅, h₆, h₇, h₈, -⟩
  · left
    constructor
    all_goals simpa only [htrace, hoffset, hlen, htoken]
  · right
    refine ⟨off, rq, ?_⟩
    constructor
    all_goals simpa only [htrace, hbuf, hoffset, hlen, htoken]

theorem Attending.address {rs sent : List (List Byte)} {b : Bus} (h : Attending rs sent b) :
    Named b.trace b.usb.usbDeviceAddr := by
  rcases h with h | ⟨off, rq, h⟩
  · exact h.address
  · exact h.address

theorem length_requests {trace : List Exchange} {rq : List Byte}
    (h : rq ∈ UsbPackets.requests trace) : rq.length = 8 := by
  obtain ⟨e, -, he⟩ := List.mem_filterMap.mp h
  cases e with
  | stored token data =>
      dsimp only at he
      split at he
      · rename_i hrequest
        rw [← Option.some.inj he]
        exact hrequest.2
      · cases he
  | _ => cases he

theorem Waiting.waiting_eq {off : Byte} {rs : List (List Byte)} {rq : List Byte} {b : Bus}
    (h : Waiting off rs rq b) : waiting b.usb = [rq] := by
  have hlen : rq.length = 8 := by
    have hmem : rq ∈ UsbPackets.requests b.trace := by
      rw [h.requests]
      exact List.mem_append_right _ (List.mem_singleton_self rq)
    exact length_requests hmem
  have hbytes : (List.range 8).map (fun i =>
      b.usb.usbRxBuf (usbBufsize + 1 - b.usb.usbInputBufOffset.toNat + i)) = rq := by
    apply List.ext_getElem
    · simp [hlen]
    · intro i hi hi'
      rw [List.getElem_map, List.getElem_range, h.offset, h.bytes i (by omega),
        List.getD_eq_getElem _ _ hi']
  rw [waiting, if_pos ⟨h.full, h.token⟩, hbytes]

/-- The requests that have come are those taken, and the one that waits. -/
theorem Attending.requests_eq {rs sent : List (List Byte)} {b : Bus} (h : Attending rs sent b) :
    requests b.trace = rs ++ waiting b.usb := by
  rcases h with h | ⟨off, rq, h⟩
  · rw [waiting, if_neg h.nothing, List.append_nil, h.requests]
  · rw [h.waiting_eq, h.requests]

theorem Attending.taken_eq {rs sent : List (List Byte)} {b : Bus} (h : Attending rs sent b) :
    taken b = rs := by
  rw [taken, h.requests_eq, List.length_append, Nat.add_sub_cancel, List.take_left']
  rfl

theorem Attending.withView {rs sent : List (List Byte)} {b : Bus} (h : Attending rs sent b)
    (v : View) : Attending rs sent { b with usb := withView b.usb v } :=
  h.congr rfl rfl rfl rfl rfl h.address

theorem handed_withView {handed : List (List Byte)} {b : Bus} (h : Handed handed b) (v : View) :
    Handed handed { b with usb := withView b.usb v } :=
  ⟨h.data, h.toggles⟩

end Views

/-- The main program takes the request `rq`. -/
structure Processing (handed : List (List Byte)) (off : Byte) (rs : List (List Byte))
    (rq : List Byte) (v : View) (b : Bus) : Prop where
  waiting : Waiting off rs rq b
  view : view b.usb = v
  handed : Handed handed b

section Processing

variable {handed rs : List (List Byte)} {off : Byte} {rq : List Byte} {v : View}

theorem processing_stable : Stable handler (Processing handed off rs rq v) := by
  intro packet b h
  obtain ⟨hview, hwaiting⟩ := h.waiting.served (served packet b.usb)
  exact ⟨hwaiting, hview.trans h.view, handed_stable packet b h.handed⟩

theorem processing_set {f : Usb → Usb} (g : View → View)
    (hf : ∀ u, f u = withView u (g (UsbControlEndpoint.view u))) :
    Runs (Processing handed off rs rq) (set f) v () (g v) := by
  refine runs_store processing_stable ?_
  rintro b ⟨hwaiting, rfl, hhanded⟩
  rw [hf]
  exact ⟨hwaiting.withView _, rfl, handed_withView hhanded _⟩

theorem processing_request {i : Nat} (hi : i < 8) :
    Runs (Processing handed off rs rq) (request (usbBufsize + 1 - off.toNat) i) v
      (rq.getD i 0#8) v :=
  runs_load processing_stable fun _ h => h.waiting.bytes i hi

/-- Only `SET_INTERFACE` disturbs the interrupt endpoint. -/
theorem processing_usbResetDataToggling (hrq : SetsInterface rq) :
    Runs (Processing handed off rs rq) usbResetDataToggling v () v := by
  refine runs_store processing_stable ?_
  intro b h
  refine ⟨⟨h.waiting.requests, h.waiting.sent, h.waiting.offset, h.waiting.half, h.waiting.full,
    h.waiting.token, h.waiting.bytes, h.waiting.faithful, h.waiting.address⟩, h.view,
    h.handed.reset _ ?_⟩
  intro hno
  refine hno rq ?_ hrq
  rw [h.waiting.requests]
  exact List.mem_append_right _ (List.mem_singleton_self rq)

theorem processing_getDescriptor (descriptor : List Byte) (offset len : Nat) :
    Runs (Processing handed off rs rq) (getDescriptor descriptor offset len) v (BitVec.ofNat 8 len)
      { v with usbMsgPtr := .flash (descriptor.drop offset) } :=
  runs_bind (processing_set (fun v => { v with usbMsgPtr := .flash (descriptor.drop offset) })
    fun _ => rfl) runs_pure

theorem stringWithIndex_of_ne {index : Byte} (h0 : index ≠ 0#8) (h1 : index ≠ 1#8)
    (h2 : index ≠ 2#8) : stringWithIndex index = [] := by
  unfold stringWithIndex
  split
  · exact absurd (BitVec.eq_of_toNat_eq ‹_›) h0
  · exact absurd (BitVec.eq_of_toNat_eq ‹_›) h1
  · exact absurd (BitVec.eq_of_toNat_eq ‹_›) h2
  · rfl

/-- A descriptor is in the program memory, if the device has it. -/
def Found (data : List Byte) (program : Main Byte) (handed rs : List (List Byte)) (off : Byte)
    (rq : List Byte) (v : View) : Prop :=
  ∃ p, Runs (Processing handed off rs rq) program v (BitVec.ofNat 8 data.length)
      { v with usbMsgPtr := p } ∧
    (data = [] ∨ ∃ bytes, p = .flash bytes ∧ data <+: bytes)

theorem found_getDescriptor (descriptor data : List Byte) (offset len : Nat)
    (hlen : data.length = len) (hdata : data <+: descriptor.drop offset) :
    Found data (getDescriptor descriptor offset len) handed rs off rq v := by
  refine ⟨.flash (descriptor.drop offset), ?_, .inr ⟨_, rfl, hdata⟩⟩
  rw [hlen]
  exact processing_getDescriptor descriptor offset len

theorem found_nothing : Found [] (pure 0#8) handed rs off rq v :=
  ⟨v.usbMsgPtr, runs_pure, .inl rfl⟩

theorem found_getString (index : Byte) :
    Found (stringWithIndex index) (getString index) handed rs off rq v := by
  unfold getString
  split
  · subst index
    exact found_getDescriptor _ _ 0 4 rfl (List.prefix_refl _)
  split
  · subst index
    exact found_getDescriptor _ _ 0 44 (by decide) (List.prefix_refl _)
  split
  · subst index
    exact found_getDescriptor _ _ 0 56 (by decide) (List.prefix_refl _)
  · rw [stringWithIndex_of_ne ‹_› ‹_› ‹_›]
    exact found_nothing

theorem descriptor_of_ne {kind index : Byte} (h1 : kind ≠ 1#8) (h2 : kind ≠ 2#8) (h3 : kind ≠ 3#8)
    (h21 : kind ≠ 0x21#8) (h22 : kind ≠ 0x22#8) : descriptor kind index = [] := by
  unfold descriptor
  split
  · exact absurd (BitVec.eq_of_toNat_eq ‹_›) h1
  · exact absurd (BitVec.eq_of_toNat_eq ‹_›) h2
  · exact absurd (BitVec.eq_of_toNat_eq ‹_›) h3
  · exact absurd (BitVec.eq_of_toNat_eq ‹_›) h21
  · exact absurd (BitVec.eq_of_toNat_eq ‹_›) h22
  · rfl

theorem found_findDescriptor (kind : Byte) :
    Found (descriptor kind (rq.getD wValueLow 0#8))
      (findDescriptor (usbBufsize + 1 - off.toNat) kind) handed rs off rq v := by
  unfold findDescriptor
  split
  · subst kind
    exact found_getDescriptor _ _ 0 18 rfl (List.prefix_refl _)
  split
  · subst kind
    exact found_getDescriptor _ _ 0 34 rfl (List.prefix_refl _)
  split
  · subst kind
    obtain ⟨p, hruns, hp⟩ := found_getString (rq.getD wValueLow 0#8)
    exact ⟨p, runs_bind (processing_request (by decide)) hruns, hp⟩
  split
  · subst kind
    refine found_getDescriptor _ _ 18 9 rfl ?_
    exact List.take_prefix _ _
  split
  · subst kind
    exact found_getDescriptor _ _ 0 27 rfl (List.prefix_refl _)
  · rw [descriptor_of_ne ‹_› ‹_› ‹_› ‹_› ‹_›]
    exact found_nothing

/-- What a request leaves behind: where to read the answer, and the new configuration. -/
structure Prepared (rq : List Byte) (v v' : View) : Prop where
  source : Source v' (Device.answer v.usbConfiguration (standardRequest rq))
  address : v'.usbNewDeviceAddr = Device.assign v.usbNewDeviceAddr (standardRequest rq)
  configuration : v'.usbConfiguration = Device.configure v.usbConfiguration (standardRequest rq)
  usbTxLen : v'.usbTxLen = v.usbTxLen
  token : v'.usbTxBuf 0 = v.usbTxBuf 0

theorem assign_or {x y : Byte} (h : x = y ∨ x = 0#8) (r : StandardRequest) :
    Device.assign x r = Device.assign y r ∨ Device.assign x r = 0#8 := by
  cases r with
  | setAddress address => exact .inl rfl
  | _ => exact h

/-- The answer begins, and nothing of it is ready yet. -/
structure Begins (d : Device) (v : View) : Prop where
  answers : Answers d [] v
  idle : v.usbTxLen.getLsbD 4 = true

theorem Prepared.begins {d : Device} {v' : View} (h : Prepared rq v v')
    (haddress : v.usbNewDeviceAddr = d.address ∨ v.usbNewDeviceAddr = 0#8)
    (hconfiguration : v.usbConfiguration = d.configuration) (hidle : v.usbTxLen = usbpidNak)
    (htoken : v.usbTxBuf 0 = usbpidData0) :
    Begins (d.request rq)
      { v' with usbMsgLen := BitVec.ofNat 8 (replyTo d.configuration rq).length } := by
  obtain ⟨hsource, hassign, hconfigure, htxLen, hbuf⟩ := h
  rw [hconfiguration] at hsource hconfigure
  have hshort := length_replyTo d.configuration rq
  have hnak : v'.usbTxLen.getLsbD 4 = true := by
    rw [htxLen, hidle]
    decide
  refine ⟨⟨?_, hconfigure, 0, ?_, ?_⟩, hnak⟩
  · have hor := assign_or haddress (standardRequest rq)
    rw [← hassign] at hor
    exact hor
  · rw [pending_empty hnak]
    rfl
  · refine .bytes _ rfl (Nat.zero_le _) (by omega) (hbuf.trans htoken) rfl ?_
    exact (hsource.cut (replyTo_begin d.configuration rq)).congr rfl rfl rfl fun _ _ => rfl

def Prepares (program : Main Byte) (handed rs : List (List Byte)) (off : Byte) (rq : List Byte)
    (v : View) : Prop :=
  ∃ v', Runs (Processing handed off rs rq) program v
      (BitVec.ofNat 8 (Device.answer v.usbConfiguration (standardRequest rq)).length) v' ∧
    Prepared rq v v'

theorem standardRequest_of_type
    (h : rq.getD bmRequestType 0#8 &&& usbrqTypeMask ≠ usbrqTypeStandard) :
    standardRequest rq = .other := if_neg h

theorem prepares_usbFunctionSetup
    (h : rq.getD bmRequestType 0#8 &&& usbrqTypeMask ≠ usbrqTypeStandard) :
    Prepares usbFunctionSetup handed rs off rq v := by
  refine ⟨v, ?_, ?_⟩
  · rw [standardRequest_of_type h]
    exact runs_pure
  · constructor
    · rw [standardRequest_of_type h]
      exact .nothing
    · rw [standardRequest_of_type h]
      rfl
    · rw [standardRequest_of_type h]
      rfl
    · rfl
    · rfl

theorem prepares_usbDriverDescriptor
    (htype : rq.getD bmRequestType 0#8 &&& usbrqTypeMask = usbrqTypeStandard)
    (hrequest : rq.getD bRequest 0#8 = 6#8) :
    Prepares (usbDriverDescriptor (usbBufsize + 1 - off.toNat)) handed rs off rq v := by
  have hstandard : standardRequest rq =
      .getDescriptor (rq.getD wValueHigh 0#8) (rq.getD wValueLow 0#8) := by
    rw [standardRequest, if_pos htype, hrequest]
    rfl
  obtain ⟨p, hruns, hp⟩ := @found_findDescriptor handed rs off rq v (rq.getD wValueHigh 0#8)
  have hset := @processing_set handed rs off rq { v with usbMsgPtr := p } _
    (fun v => { v with usbMsgFlags := usbFlgMsgptrIsRom }) fun _ => rfl
  unfold Prepares
  rw [hstandard]
  refine ⟨_, runs_bind (processing_request (by decide))
    (runs_bind hruns (runs_bind hset runs_pure)), ?_⟩
  constructor
  · rw [hstandard]
    exact Source.of_found rfl hp
  · rw [hstandard]
    rfl
  · rw [hstandard]
    rfl
  · rfl
  · rfl

/-- What `applyRequest` does to the variables of the control endpoint. -/
def applied (bRequest value : Byte) (v : View) : View :=
  if bRequest = 0#8 then { v with usbTxBuf := Function.update v.usbTxBuf 10 0#8 }
  else if bRequest = 5#8 then { v with usbNewDeviceAddr := value }
  else if bRequest = 9#8 then { v with usbConfiguration := value }
  else v

theorem processing_putTxBuf (i : Nat) (x : Byte) :
    Runs (Processing handed off rs rq) (putTxBuf i x) v ()
      { v with usbTxBuf := Function.update v.usbTxBuf i x } :=
  processing_set (fun v => { v with usbTxBuf := Function.update v.usbTxBuf i x }) fun _ => rfl

theorem processing_applyRequest
    (htype : rq.getD bmRequestType 0#8 &&& usbrqTypeMask = usbrqTypeStandard) (value : Byte) :
    Runs (Processing handed off rs rq) (applyRequest (rq.getD bRequest 0#8) value) v ()
      (applied (rq.getD bRequest 0#8) value v) := by
  unfold applyRequest applied
  split
  · exact processing_putTxBuf 10 0#8
  split
  · exact processing_set (fun v => { v with usbNewDeviceAddr := value }) fun _ => rfl
  split
  · exact processing_set (fun v => { v with usbConfiguration := value }) fun _ => rfl
  split
  · exact processing_usbResetDataToggling ⟨htype, ‹_›⟩
  · exact runs_pure

/-- The answers that are in variables, but for `usbMsgPtr`. -/
def replyLen (bRequest : Byte) : Nat :=
  if bRequest = 0#8 then 2 else if bRequest = 8#8 ∨ bRequest = 10#8 then 1 else 0

def replyPtr (bRequest : Byte) : MsgPtr :=
  if bRequest = 8#8 then .usbConfiguration else .usbTxBuf 9

theorem applied_txLen (bRequest value : Byte) (v : View) :
    (applied bRequest value v).usbTxLen = v.usbTxLen := by
  unfold applied
  split_ifs <;> rfl

theorem applied_flags (bRequest value : Byte) (v : View) :
    (applied bRequest value v).usbMsgFlags = v.usbMsgFlags := by
  unfold applied
  split_ifs <;> rfl

theorem applied_buf (bRequest value : Byte) (v : View) {i : Nat} (hi : i ≠ 10) :
    (applied bRequest value v).usbTxBuf i = v.usbTxBuf i := by
  unfold applied
  split_ifs
  · exact Function.update_of_ne hi _ _
  all_goals rfl

theorem applied_address (bRequest value high : Byte) (v : View) :
    (applied bRequest value v).usbNewDeviceAddr =
      Device.assign v.usbNewDeviceAddr (decode bRequest value high) := by
  unfold applied
  split_ifs with h0 h5 h9
  · rw [h0]
    rfl
  · rw [h5]
    rfl
  · rw [h9]
    rfl
  · unfold decode
    split
    · rfl
    · exact absurd (BitVec.eq_of_toNat_eq ‹_›) h5
    all_goals rfl

theorem applied_configuration (bRequest value high : Byte) (v : View) :
    (applied bRequest value v).usbConfiguration =
      Device.configure v.usbConfiguration (decode bRequest value high) := by
  unfold applied
  split_ifs with h0 h5 h9
  · rw [h0]
    rfl
  · rw [h5]
    rfl
  · rw [h9]
    rfl
  · unfold decode
    split
    · rfl
    · rfl
    · rfl
    · rfl
    · exact absurd (BitVec.eq_of_toNat_eq ‹_›) h9
    · rfl
    · rfl
    · rfl

/-- The answers that are in variables. -/
theorem source_applied (bRequest value high : Byte) (hrequest : bRequest ≠ 6#8)
    (hflags : v.usbMsgFlags = 0#8) (hbuf : v.usbTxBuf 9 = 0#8) :
    Source { applied bRequest value v with usbMsgPtr := replyPtr bRequest }
      (Device.answer v.usbConfiguration (decode bRequest value high)) := by
  have hflags' := (applied_flags bRequest value v).trans hflags
  have hbuf' := (applied_buf bRequest value v (by omega)).trans hbuf
  unfold decode
  split
  · obtain rfl : bRequest = 0#8 := BitVec.eq_of_toNat_eq ‹_›
    have hbuf10 : (applied 0#8 value v).usbTxBuf 10 = 0#8 := by
      rw [applied, if_pos rfl]
      exact Function.update_self 10 0#8 v.usbTxBuf
    refine .buffer hflags' rfl ?_
    dsimp only
    rw [hbuf', hbuf10]
    exact List.prefix_refl _
  · exact .nothing
  · exact absurd (BitVec.eq_of_toNat_eq ‹_›) hrequest
  · obtain rfl : bRequest = 8#8 := BitVec.eq_of_toNat_eq ‹_›
    exact .configuration hflags' rfl (List.prefix_refl _)
  · exact .nothing
  · obtain rfl : bRequest = 10#8 := BitVec.eq_of_toNat_eq ‹_›
    refine .buffer hflags' rfl ?_
    dsimp only
    rw [hbuf']
    exact ⟨[_], rfl⟩
  · exact .nothing
  · exact .nothing

theorem length_answer_decode (configuration bRequest value high : Byte)
    (hrequest : bRequest ≠ 6#8) :
    (Device.answer configuration (decode bRequest value high)).length = replyLen bRequest := by
  have hother : ∀ n : Nat, n ≠ 0 → n ≠ 8 → n ≠ 10 → bRequest.toNat = n → replyLen bRequest = 0 := by
    rintro n h0 h8 h10 rfl
    rw [replyLen, if_neg, if_neg]
    · rintro (rfl | rfl)
      · exact h8 rfl
      · exact h10 rfl
    · rintro rfl
      exact h0 rfl
  unfold decode
  split
  · obtain rfl : bRequest = 0#8 := BitVec.eq_of_toNat_eq ‹_›
    rfl
  · exact (hother 5 (by decide) (by decide) (by decide) ‹_›).symm
  · exact absurd (BitVec.eq_of_toNat_eq ‹_›) hrequest
  · obtain rfl : bRequest = 8#8 := BitVec.eq_of_toNat_eq ‹_›
    rfl
  · exact (hother 9 (by decide) (by decide) (by decide) ‹_›).symm
  · obtain rfl : bRequest = 10#8 := BitVec.eq_of_toNat_eq ‹_›
    rfl
  · exact (hother 11 (by decide) (by decide) (by decide) ‹_›).symm
  · exact (hother _ ‹_› ‹_› ‹_› rfl).symm

theorem prepares_usbDriverSetup
    (htype : rq.getD bmRequestType 0#8 &&& usbrqTypeMask = usbrqTypeStandard)
    (hflags : v.usbMsgFlags = 0#8) :
    Prepares (usbDriverSetup (usbBufsize + 1 - off.toNat)) handed rs off rq v := by
  have hstandard : standardRequest rq =
      decode (rq.getD bRequest 0#8) (rq.getD wValueLow 0#8) (rq.getD wValueHigh 0#8) := if_pos htype
  have hbuf9 : Function.update v.usbTxBuf 9 0#8 9 = 0#8 := Function.update_self _ _ _
  have hbuf0 : Function.update v.usbTxBuf 9 0#8 0 = v.usbTxBuf 0 :=
    Function.update_of_ne (by omega) _ _
  by_cases hrequest : rq.getD bRequest 0#8 = 6#8
  · obtain ⟨v', hruns, h⟩ := @prepares_usbDriverDescriptor handed rs off rq
      { v with usbTxBuf := Function.update v.usbTxBuf 9 0#8 } htype hrequest
    refine ⟨v', runs_bind (processing_request (by decide)) (runs_bind (processing_putTxBuf 9 0#8)
      (runs_bind (processing_request (by decide)) ?_)), ?_⟩
    · rw [if_pos hrequest]
      exact hruns
    · exact ⟨h.source, h.address, h.configuration, h.usbTxLen, h.token.trans hbuf0⟩
  · have hlen : BitVec.ofNat 8 (Device.answer v.usbConfiguration (standardRequest rq)).length =
        if rq.getD bRequest 0#8 = 0#8 then 2#8
        else if rq.getD bRequest 0#8 = 8#8 ∨ rq.getD bRequest 0#8 = 10#8 then 1#8 else 0#8 := by
      rw [hstandard, length_answer_decode _ _ _ _ hrequest, replyLen]
      split_ifs <;> rfl
    unfold Prepares
    rw [hlen]
    refine ⟨{ applied (rq.getD bRequest 0#8) (rq.getD wValueLow 0#8)
        { v with usbTxBuf := Function.update v.usbTxBuf 9 0#8 } with
        usbMsgPtr := replyPtr (rq.getD bRequest 0#8) },
      runs_bind (processing_request (by decide)) (runs_bind (processing_putTxBuf 9 0#8)
        (runs_bind (processing_request (by decide)) ?_)), ?_⟩
    · rw [if_neg hrequest]
      refine runs_bind (processing_applyRequest htype _) ?_
      exact runs_bind (processing_set
        (fun v => { v with usbMsgPtr := replyPtr (rq.getD bRequest 0#8) }) fun _ => rfl) runs_pure
    · constructor
      · rw [hstandard]
        exact source_applied _ _ _ hrequest hflags hbuf9
      · rw [hstandard]
        exact applied_address _ _ _ _
      · rw [hstandard]
        exact applied_configuration _ _ _ _
      · exact applied_txLen _ _ _
      · exact (applied_buf _ _ _ (by omega)).trans hbuf0

theorem prepares_setupReply (hflags : v.usbMsgFlags = 0#8) :
    Prepares (setupReply (usbBufsize + 1 - off.toNat) (rq.getD bmRequestType 0#8)) handed rs off rq
      v := by
  unfold setupReply
  split
  · exact prepares_usbFunctionSetup ‹_›
  · exact prepares_usbDriverSetup (not_not.mp ‹_›) hflags

/-- `wLength` cuts a reply, which is always shorter than 256 bytes. -/
theorem processing_limitReply {reply : List Byte} (hshort : reply.length ≤ 56) :
    Runs (Processing handed off rs rq) (limitReply (usbBufsize + 1 - off.toNat)
      (BitVec.ofNat 8 reply.length) (rq.getD wLengthHigh 0#8)) v
      (BitVec.ofNat 8 (reply.take (wLength rq)).length) v := by
  have hreply : (BitVec.ofNat 8 reply.length).toNat = reply.length := by
    rw [BitVec.toNat_ofNat, Nat.mod_eq_of_lt (by omega)]
  unfold limitReply
  split
  · rename_i hhigh
    have hcut : (if rq.getD wLengthLow 0#8 < BitVec.ofNat 8 reply.length then rq.getD wLengthLow 0#8
        else BitVec.ofNat 8 reply.length) = BitVec.ofNat 8 (reply.take (wLength rq)).length := by
      have hlength : wLength rq = (rq.getD wLengthLow 0#8).toNat := by
        rw [wLength, hhigh]
        rfl
      rw [List.length_take, hlength]
      split
      · rename_i hlt
        rw [BitVec.lt_def, hreply] at hlt
        rw [Nat.min_eq_left hlt.le, BitVec.ofNat_toNat, BitVec.setWidth_eq]
      · rename_i hle
        rw [BitVec.lt_def, hreply] at hle
        rw [Nat.min_eq_right (by omega)]
    rw [← hcut]
    exact runs_bind (processing_request (by decide)) runs_pure
  · rename_i hhigh
    have hpos : 0 < (rq.getD wLengthHigh 0#8).toNat := by
      rw [Nat.pos_iff_ne_zero]
      exact fun h => hhigh (BitVec.eq_of_toNat_eq h)
    rw [List.take_of_length_le (by rw [wLength]; omega)]
    exact runs_pure

/-- The request has been taken, and its answer begins. -/
theorem processing_processSetup
    (haddress : v.usbNewDeviceAddr = (after rs).address ∨ v.usbNewDeviceAddr = 0#8)
    (hconfiguration : v.usbConfiguration = (after rs).configuration) :
    ∃ v', Runs (Processing handed off rs rq) (processSetup (usbBufsize + 1 - off.toNat)) v () v' ∧
      Begins (after (rs ++ [rq])) v' ∧
      v'.usbNewDeviceAddr = Device.assign v.usbNewDeviceAddr (standardRequest rq) := by
  obtain ⟨v', hruns, h⟩ := @prepares_setupReply handed rs off rq
    { v with
      usbTxBuf := Function.update v.usbTxBuf 0 usbpidData0
      usbTxLen := usbpidNak
      usbMsgFlags := 0#8 } rfl
  refine ⟨{ v' with usbMsgLen := BitVec.ofNat 8 (replyTo v.usbConfiguration rq).length }, ?_, ?_,
    h.address⟩
  · refine runs_bind (processing_putTxBuf 0 usbpidData0) ?_
    refine runs_bind (processing_set (fun v => { v with usbTxLen := usbpidNak }) fun _ => rfl) ?_
    refine runs_bind (processing_set (fun v => { v with usbMsgFlags := 0#8 }) fun _ => rfl) ?_
    refine runs_bind (processing_request (by decide)) (runs_bind hruns ?_)
    refine runs_bind (processing_request (by decide)) ?_
    refine runs_bind (processing_limitReply (length_answer _ _)) ?_
    exact processing_set (fun v' => { v' with
      usbMsgLen := BitVec.ofNat 8 (replyTo v.usbConfiguration rq).length }) fun _ => rfl
  · rw [after_snoc, hconfiguration]
    exact h.begins haddress hconfiguration rfl (Function.update_self 0 usbpidData0 v.usbTxBuf)

end Processing

/-- What a packet does not break while the transmitter is idle, nor the main program with
the variables of the answer. -/
structure Framed (M : Bus → Prop) : Prop where
  served : ∀ packet b, M b → b.usb.usbTxLen.getLsbD 4 = true → M (handler packet b)
  withView : ∀ b v, M b → v.usbNewDeviceAddr = b.usb.usbNewDeviceAddr →
    M { b with usb := withView b.usb v }

/-- The main program makes the next packet of the answer, while another request may come. -/
structure Building (M : Bus → Prop) (v : View) (b : Bus) : Prop where
  frame : M b
  idle : v.usbTxLen.getLsbD 4 = true
  view : view b.usb = v

section Building

variable {M : Bus → Prop} (hM : Framed M) {v : View}

theorem view_served {u u' : Usb} {e : Exchange} (h : Served u e u')
    (hidle : u.usbTxLen.getLsbD 4 = true) : view u' = view u := by
  cases h with
  | control _ _ _ hfull =>
      rw [hidle] at hfull
      cases hfull
  | _ => rfl

include hM in
theorem building_stable : Stable handler (Building M v) := by
  rintro packet b ⟨hframe, hidle, rfl⟩
  exact ⟨hM.served packet b hframe hidle, hidle, view_served (served packet b.usb) hidle⟩

include hM in
theorem building_set {f : Usb → Usb} (g : View → View)
    (hf : ∀ u, f u = withView u (g (UsbControlEndpoint.view u)))
    (hg : (g v).usbTxLen = v.usbTxLen ∧ (g v).usbNewDeviceAddr = v.usbNewDeviceAddr) :
    Runs (Building M) (set f) v () (g v) := by
  refine runs_store (building_stable hM) ?_
  rintro b ⟨hframe, hidle, rfl⟩
  rw [hf]
  exact ⟨hM.withView b _ hframe hg.2, hg.1 ▸ hidle, rfl⟩

include hM in
theorem building_get {α : Type} {f : View → α} :
    Runs (Building M) (get fun u => f (UsbControlEndpoint.view u)) v (f v) v :=
  runs_load (building_stable hM) fun _ h => congrArg f h.view

include hM in
theorem building_putTxBuf (i : Nat) (x : Byte) :
    Runs (Building M) (putTxBuf i x) v () { v with usbTxBuf := Function.update v.usbTxBuf i x } :=
  building_set hM (fun v => { v with usbTxBuf := Function.update v.usbTxBuf i x }) (fun _ => rfl)
    ⟨rfl, rfl⟩

theorem next_flash (bytes : List Byte) (i : Nat) :
    MsgPtr.next^[i] (.flash bytes) = .flash (bytes.drop i) := by
  induction i generalizing bytes with
  | zero => rfl
  | succ i ih => rw [Function.iterate_succ_apply, MsgPtr.next, ih, List.drop_tail]

theorem next_usbTxBuf (n i : Nat) : MsgPtr.next^[i] (.usbTxBuf n) = .usbTxBuf (n + i) := by
  induction i generalizing n with
  | zero => rfl
  | succ i ih =>
      rw [Function.iterate_succ_apply, MsgPtr.next, ih, Nat.add_right_comm, Nat.add_assoc]

theorem getD_of_begin {data bytes : List Byte} (h : data <+: bytes) {i : Nat}
    (hi : i < data.length) : data.getD i 0#8 = bytes.getD i 0#8 := by
  obtain ⟨rest, rfl⟩ := h
  rw [List.getD_append _ _ _ _ hi]

include hM in
/-- The byte of a message that the next round of the loop reads. -/
theorem building_readMsg {data : List Byte} (h : Source v data) {i : Nat} (hi : i < data.length)
    (f : Nat → Byte) :
    Runs (Building M)
      (readMsg (v.usbMsgFlags &&& usbFlgMsgptrIsRom ≠ 0#8) (MsgPtr.next^[i] v.usbMsgPtr))
      { v with usbTxBuf := copied v.usbTxBuf f i } (data.getD i 0#8)
      { v with usbTxBuf := copied v.usbTxBuf f i } := by
  cases h with
  | @flash bytes _ hflags hptr h =>
      have hbyte : (bytes.drop i).headD 0#8 = bytes.getD i 0#8 := by
        rw [List.headD_eq_head?_getD, List.head?_drop, List.getD_eq_getElem?_getD]
      rw [hflags, hptr, next_flash, getD_of_begin h hi, ← hbyte]
      exact runs_pure
  | buffer hflags hptr h =>
      have hlt : i < 2 := hi.trans_le h.length_le
      have hbyte : copied v.usbTxBuf f i (9 + i) =
          [v.usbTxBuf 9, v.usbTxBuf 10].getD i 0#8 := by
        rw [copied, if_neg (by omega)]
        obtain rfl | rfl : i = 0 ∨ i = 1 := by omega
        · rfl
        · rfl
      rw [hflags, hptr, next_usbTxBuf, getD_of_begin h hi, ← hbyte]
      exact building_get hM (f := fun v => v.usbTxBuf (9 + i))
  | configuration hflags hptr h =>
      obtain rfl : i = 0 := Nat.lt_one_iff.mp (hi.trans_le h.length_le)
      rw [hflags, hptr, getD_of_begin h hi]
      exact building_get hM (f := View.usbConfiguration)
  | nothing => cases hi

/-- `n` bytes of a message have been read. -/
def advanced (v : View) (data : List Byte) (n : Nat) : View :=
  { v with
    usbTxBuf := copied v.usbTxBuf (fun i => data.getD i 0#8) n
    usbMsgPtr := MsgPtr.next^[n] v.usbMsgPtr }

include hM in
theorem building_readMessage {data : List Byte} (h : Source v data) {n : Nat}
    (hn : n ≤ data.length) :
    Runs (Building M) (readMessage 1 n) v () (advanced v data n) := by
  have hround : ∀ i < n, Runs (Building M)
      (readMsg (v.usbMsgFlags &&& usbFlgMsgptrIsRom ≠ 0#8) (MsgPtr.next^[i] v.usbMsgPtr) >>=
        putTxBuf (1 + i))
      { v with usbTxBuf := copied v.usbTxBuf (fun i => data.getD i 0#8) i } ()
      { v with usbTxBuf := copied v.usbTxBuf (fun i => data.getD i 0#8) (i + 1) } := by
    intro i hi
    refine runs_bind (building_readMsg hM h (hi.trans_le hn) _) ?_
    rw [← update_copied]
    exact building_putTxBuf hM (1 + i) _
  have hloop := runs_forUpTo (fun i =>
    { v with usbTxBuf := copied v.usbTxBuf (fun i => data.getD i 0#8) i }) (fun _ => ()) hround
  rw [copied_zero] at hloop
  refine runs_bind (building_get hM (f := View.usbMsgPtr)) ?_
  refine runs_bind (building_get hM (f := View.usbMsgFlags)) (runs_bind hloop ?_)
  exact building_set hM (fun w => { w with usbMsgPtr := MsgPtr.next^[n] v.usbMsgPtr })
    (fun _ => rfl) ⟨rfl, rfl⟩

include hM in
theorem building_usbDeviceRead {data : List Byte} (h : Source v data) {n : Nat}
    (hn : n ≤ data.length) :
    Runs (Building M) (usbDeviceRead 1 n) v (BitVec.ofNat 8 n) (advanced v data n) := by
  have hread : Runs (Building M) (if 0 < n then readMessage 1 n else pure ()) v ()
      (advanced v data n) := by
    split
    · exact building_readMessage hM h hn
    · obtain rfl : n = 0 := by omega
      have hsame : advanced v data 0 = v := by
        rw [advanced, copied_zero]
        rfl
      rw [hsame]
      exact runs_pure
  exact runs_bind hread runs_pure

/-- Only a descriptor is longer than one packet. -/
theorem Source.advanced {data : List Byte} {v' : View} (h : Source v data)
    (hflags : v'.usbMsgFlags = v.usbMsgFlags) (hptr : v'.usbMsgPtr = MsgPtr.next^[8] v.usbMsgPtr) :
    Source v' (data.drop 8) := by
  cases h with
  | flash hflags' hptr' h =>
      refine .flash (hflags.trans hflags') ?_ (h.drop 8)
      rw [hptr, hptr', next_flash]
  | buffer _ _ h =>
      have hlen := h.length_le
      rw [List.drop_eq_nil_of_le (hlen.trans (by simp))]
      exact .nothing
  | configuration _ _ h =>
      have hlen := h.length_le
      rw [List.drop_eq_nil_of_le (hlen.trans (by simp))]
      exact .nothing
  | nothing => exact .nothing

include hM in
theorem building_usbCrc16Append {block : List Byte}
    (hblock : ∀ i < block.length, v.usbTxBuf (1 + i) = block.getD i 0#8) :
    Runs (Building M)
      (usbCrc16Append (fun i => get (·.usbTxBuf i)) putTxBuf 1 block.length) v ()
      { v with usbTxBuf := finished v.usbTxBuf block } := by
  refine runs_usbCrc16Append ?_ (building_putTxBuf hM _ _) (building_putTxBuf hM _ _)
  intro i hi
  rw [← hblock i hi]
  exact building_get hM (f := fun v => v.usbTxBuf (1 + i))

include hM in
/-- The packet is there for the host. -/
theorem building_publish (len : Byte) :
    Triple (Building M v) (set fun u => { u with usbTxLen := len }) fun _ b =>
      M b ∧ view b.usb = { v with usbTxLen := len } := by
  unfold UsbDriver.set
  refine triple_store (building_stable hM) ?_
  rintro b ⟨hframe, -, rfl⟩
  exact ⟨hM.withView b { view b.usb with usbTxLen := len } hframe rfl, rfl⟩

include hM in
theorem building_finishTxBlock {block : List Byte} (hle : block.length ≤ 8)
    (hblock : ∀ i < block.length, v.usbTxBuf (1 + i) = block.getD i 0#8) :
    Triple (Building M v) (finishTxBlock (BitVec.ofNat 8 block.length)) fun _ b =>
      M b ∧ view b.usb = { v with
        usbTxBuf := finished v.usbTxBuf block
        usbMsgLen := if block.length < 8 then usbNoMsg else v.usbMsgLen
        usbTxLen := BitVec.ofNat 8 block.length + 4#8 } := by
  have htoNat : (BitVec.ofNat 8 block.length).toNat = block.length := by
    rw [BitVec.toNat_ofNat, Nat.mod_eq_of_lt (by omega)]
  have hvalid : BitVec.ofNat 8 block.length ≤ 8#8 := by
    rw [BitVec.le_def, htoNat]
    exact hle
  have hshorter : BitVec.ofNat 8 block.length + 4#8 < 12#8 ↔ block.length < 8 := by
    rw [BitVec.lt_def, BitVec.toNat_add, htoNat]
    simp
    omega
  unfold finishTxBlock
  rw [if_pos hvalid, htoNat]
  refine (building_usbCrc16Append hM hblock).triple_bind ?_
  refine Runs.triple_bind (building_set hM (fun w => { w with
    usbMsgLen := if BitVec.ofNat 8 block.length + 4#8 < 12#8 then usbNoMsg else w.usbMsgLen })
    (fun _ => rfl) ⟨rfl, rfl⟩) ?_
  simp only [hshorter]
  exact building_publish hM _

/-- The buffer with the next identifier and the data `block`. -/
def nextBlock (buffer : Nat → Byte) (block : List Byte) : Nat → Byte :=
  copied (Function.update buffer 0 (buffer 0 ^^^ (usbpidData0 ^^^ usbpidData1)))
    (fun i => block.getD i 0#8) block.length

/-- The variables when the packet with the next eight bytes of `data` is ready. -/
def nextView (v : View) (data : List Byte) : View :=
  { v with
    usbTxBuf := finished (nextBlock v.usbTxBuf (data.take 8)) (data.take 8)
    usbMsgPtr := MsgPtr.next^[(data.take 8).length] v.usbMsgPtr
    usbMsgLen := if (data.take 8).length < 8 then usbNoMsg else BitVec.ofNat 8 (data.length - 8)
    usbTxLen := BitVec.ofNat 8 (data.take 8).length + 4#8 }

include hM in
theorem building_usbBuildTxBlock {data : List Byte} (hshort : data.length < 255)
    (hlen : v.usbMsgLen = BitVec.ofNat 8 data.length) (hsource : Source v data) :
    Triple (Building M v) usbBuildTxBlock fun _ b => M b ∧ view b.usb = nextView v data := by
  have htoNat : (BitVec.ofNat 8 data.length).toNat = data.length := by
    rw [BitVec.toNat_ofNat, Nat.mod_eq_of_lt (by omega)]
  have hwant : (if 8#8 < v.usbMsgLen then 8#8 else v.usbMsgLen) =
      BitVec.ofNat 8 (data.take 8).length := by
    rw [hlen, List.length_take]
    split
    · rename_i hlt
      rw [BitVec.lt_def, htoNat] at hlt
      rw [Nat.min_eq_left (by simpa using hlt.le)]
    · rename_i hle
      rw [BitVec.lt_def, htoNat] at hle
      rw [Nat.min_eq_right (by simpa using hle)]
  have htaken : (BitVec.ofNat 8 (data.take 8).length).toNat = (data.take 8).length := by
    rw [BitVec.toNat_ofNat, Nat.mod_eq_of_lt (by rw [List.length_take]; omega)]
  refine Runs.triple_bind (building_get hM (f := View.usbMsgLen)) ?_
  dsimp only
  rw [hwant]
  refine Runs.triple_bind (building_set hM (fun w => { w with
    usbMsgLen := w.usbMsgLen - BitVec.ofNat 8 (data.take 8).length }) (fun _ => rfl) ⟨rfl, rfl⟩) ?_
  refine Runs.triple_bind (building_get hM (f := fun w => w.usbTxBuf 0)) ?_
  refine Runs.triple_bind (building_putTxBuf hM 0 _) ?_
  rw [htaken]
  have hbegin := List.take_prefix 8 data
  have hblock : Source { v with
      usbMsgLen := v.usbMsgLen - BitVec.ofNat 8 (data.take 8).length
      usbTxBuf := Function.update v.usbTxBuf 0 (v.usbTxBuf 0 ^^^ (usbpidData0 ^^^ usbpidData1)) }
      (data.take 8) :=
    (hsource.cut hbegin).congr rfl rfl rfl fun i hi =>
      Function.update_of_ne (by omega) _ _
  refine Runs.triple_bind (building_usbDeviceRead hM hblock le_rfl) ?_
  have hrest : (if (data.take 8).length < 8 then usbNoMsg
      else v.usbMsgLen - BitVec.ofNat 8 (data.take 8).length) =
      if (data.take 8).length < 8 then usbNoMsg else BitVec.ofNat 8 (data.length - 8) := by
    split
    · rfl
    · rename_i hfull
      rw [List.length_take] at hfull
      rw [hlen, List.length_take, Nat.min_eq_left (by omega), BitVec.ofNat_sub_ofNat_of_le]
      · omega
      · omega
  rw [nextView, ← hrest]
  exact building_finishTxBlock hM (List.length_take_le 8 data)
    fun i hi => copied_data _ (fun i => (data.take 8).getD i 0#8) hi

/-- The next packet is the next one of the answer. -/
theorem answers_nextView {d : Device} {sent : List (List Byte)} {data : List Byte} {k : Nat}
    (hreply : d.reply = some data) (hk : 8 * k ≤ data.length) (hshort : data.length < 255)
    (haddress : v.usbNewDeviceAddr = d.address ∨ v.usbNewDeviceAddr = 0#8)
    (hconfiguration : v.usbConfiguration = d.configuration)
    (hsent : sent = packetsFrom 1 (d.blocks.take k)) (htoken : v.usbTxBuf 0 = pid k)
    (hsource : Source v (data.drop (8 * k))) :
    Answers d sent (nextView v (data.drop (8 * k))) := by
  have hfirst : nextBlock v.usbTxBuf ((data.drop (8 * k)).take 8) 0 = pid (k + 1) := by
    rw [nextBlock, copied_first, Function.update_self, htoken, pid_succ]
  have hblocks : d.blocks = blocks data := by rw [Device.blocks, hreply, Option.elim_some]
  have htake := List.length_take_le 8 (data.drop (8 * k))
  refine ⟨haddress, hconfiguration, k + 1, ?_, ?_⟩
  · have hpacket : packetOf (nextView v (data.drop (8 * k))).usbTxLen
        (nextView v (data.drop (8 * k))).usbTxBuf =
        dataPacket (k + 1) ((data.drop (8 * k)).take 8) := by
      rw [dataPacket, ← hfirst]
      exact packetOf_finished htake fun i hi =>
        copied_data _ (fun i => ((data.drop (8 * k)).take 8).getD i 0#8) hi
    have hready : (nextView v (data.drop (8 * k))).usbTxLen.getLsbD 4 = false :=
      getLsbD_four_ofNat_add htake
    have hlength : ((blocks data).take k).length = k := by
      rw [List.length_take, length_blocks]
      omega
    rw [pending_full hready, hpacket, hsent, hblocks, take_succ_blocks data (by omega),
      packetsFrom_append, hlength, Nat.add_comm 1 k]
    rfl
  · have hlength : ((data.drop (8 * k)).take 8).length = min 8 (data.length - 8 * k) := by
      rw [List.length_take, List.length_drop]
    by_cases hshorter : ((data.drop (8 * k)).take 8).length < 8
    · refine .nothing ?_ (if_pos hshorter)
      rw [hblocks, length_blocks]
      omega
    · refine .bytes data hreply (by omega) hshort ((finished_first _ _).trans hfirst) ?_ ?_
      · rw [nextView, if_neg hshorter, List.length_drop, Nat.mul_succ, Nat.sub_sub]
      · rw [Nat.mul_succ, ← List.drop_drop]
        refine hsource.advanced rfl ?_
        rw [nextView, hlength, Nat.min_eq_left (by omega)]

end Building

end NesMiniAdapter.UsbControlEndpoint
