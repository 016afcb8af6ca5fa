import NesMiniAdapter.UsbMainLoop

/-!
A control transfer with a host that waits for the device: after a request it asks for
data once after every poll, and gets the whole answer.
-/

namespace NesMiniAdapter.UsbTransfer

open NesMiniAdapter.InterruptedProgram
open NesMiniAdapter.UsbCrc16
open NesMiniAdapter.UsbDriver
open NesMiniAdapter.UsbPackets
open NesMiniAdapter.UsbDevice
open NesMiniAdapter.UsbInterruptEndpoint
open NesMiniAdapter.UsbControlEndpoint
open NesMiniAdapter.UsbMainLoop

/-- A token for the control endpoint of the device. -/
def controlToken (pid crc : Byte) (b : Bus) : List Byte :=
  [pid, b.usb.usbDeviceAddr >>> 1, crc <<< 3]

def setup (rq : List Byte) (crc : Byte) (b : Bus) : Bus :=
  handler (usbpidData0 :: withCrc rq) (handler (controlToken usbpidSetup crc b) b)

/-- `usbPoll` while no packet comes. -/
def polled (b : Bus) : Bus := (usbPoll (b, [])).2.1

/-- The host asks for data after a poll. -/
def round (crc : Byte) (b : Bus) : Bus :=
  handler (controlToken usbpidIn crc (polled b)) (polled b)

section Interrupt

variable {u : Usb}

theorem received_receive {packet : List Byte} (hlen : packet.length ≤ usbBufsize) {i : Nat}
    (hi : i < packet.length) : received (receive packet u) i = packet.getD i 0#8 := by
  have htake : packet.take usbBufsize = packet := List.take_of_length_le hlen
  refine (if_pos (Nat.le_add_right _ _)).trans ?_
  show (packet.take usbBufsize).getD
    (u.usbInputBufOffset.toNat + i - u.usbInputBufOffset.toNat) _ = _
  rw [htake, Nat.add_sub_cancel_left, List.getD_eq_getElem _ _ hi, List.getD_eq_getElem _ _ hi]

theorem address_shifts (x : Byte) : x <<< 1 >>> 1 <<< 1 = x <<< 1 := by
  revert x
  decide

theorem endpoint_zero (crc address : Byte) :
    (crc <<< 3 <<< 1 ||| address >>> 1 >>> 7) &&& 0x0F#8 = 0#8 := by
  have hcrc : ∀ crc : Byte, crc <<< 3 <<< 1 &&& 0x0F#8 = 0#8 := by decide
  have haddress : ∀ address : Byte, address >>> 1 >>> 7 = 0#8 := by decide
  rw [haddress, BitVec.or_zero, hcrc]

theorem usbInterrupt_token {b : Bus} {pid crc : Byte} (hpid0 : pid ≠ usbpidData0)
    (hpid1 : pid ≠ usbpidData1) (haddress : Named b.trace b.usb.usbDeviceAddr) :
    usbInterrupt (controlToken pid crc b) b.usb =
      if pid = usbpidIn then handleIn 0#8 (receive (controlToken pid crc b) b.usb)
      else if pid = usbpidSetup ∨ pid = usbpidOut then
        (.token pid, { receive (controlToken pid crc b) b.usb with usbCurrentTok := pid })
      else ignorePacket (receive (controlToken pid crc b) b.usb) := by
  have hlen : (controlToken pid crc b).length ≤ usbBufsize := Nat.le_add_right 3 8
  have h0 : received (receive (controlToken pid crc b) b.usb) 0 = pid :=
    received_receive hlen (Nat.zero_lt_succ 2)
  have h1 : received (receive (controlToken pid crc b) b.usb) 1 = b.usb.usbDeviceAddr >>> 1 :=
    received_receive hlen (Nat.lt_add_left 1 (Nat.lt_succ_self 1))
  have h2 : received (receive (controlToken pid crc b) b.usb) 2 = crc <<< 3 :=
    received_receive hlen (Nat.lt_succ_self 2)
  have hours : b.usb.usbDeviceAddr >>> 1 <<< 1 = b.usb.usbDeviceAddr := by
    obtain ⟨rs, -, h⟩ := haddress
    rw [h, address_shifts]
  rw [usbInterrupt, if_neg (by omega), se0]
  dsimp only
  rw [h0, h1, h2, if_neg (not_or.mpr ⟨hpid0, hpid1⟩), endpoint_zero]
  exact if_neg (not_not.mpr hours)

/-- A setup token for the device is noted. -/
theorem usbInterrupt_setup {b : Bus} (crc : Byte) (haddress : Named b.trace b.usb.usbDeviceAddr) :
    usbInterrupt (controlToken usbpidSetup crc b) b.usb =
      (.token usbpidSetup, { receive (controlToken usbpidSetup crc b) b.usb with
        usbCurrentTok := usbpidSetup }) := by
  rw [usbInterrupt_token (by decide) (by decide) haddress, if_neg (by decide), if_pos (.inl rfl)]

/-- The packet that is ready goes to the host that asks for it. -/
theorem usbInterrupt_in {b : Bus} (crc : Byte) (haddress : Named b.trace b.usb.usbDeviceAddr)
    (hfree : b.usb.usbRxLen = 0#8) (hfull : b.usb.usbTxLen.getLsbD 4 = false) :
    usbInterrupt (controlToken usbpidIn crc b) b.usb =
      (.sent 0#8 (packetOf b.usb.usbTxLen b.usb.usbTxBuf),
        assignAddress
          { receive (controlToken usbpidIn crc b) b.usb with usbTxLen := usbpidNak }) := by
  rw [usbInterrupt_token (by decide) (by decide) haddress, if_pos rfl, handleIn]
  have hrx : ¬ 1 ≤ (receive (controlToken usbpidIn crc b) b.usb).usbRxLen.toInt := by
    rw [show (receive (controlToken usbpidIn crc b) b.usb).usbRxLen = 0#8 from hfree]
    decide
  have htx : (receive (controlToken usbpidIn crc b) b.usb).usbTxLen.getLsbD 4 ≠ true := by
    rw [show (receive (controlToken usbpidIn crc b) b.usb).usbTxLen = b.usb.usbTxLen from rfl,
      hfull]
    decide
  rw [if_neg hrx, if_neg (not_not.mpr rfl), if_neg htx]
  rfl

/-- The data of a setup transaction are stored, if the buffer is free. -/
theorem usbInterrupt_data {u : Usb} {rq : List Byte} (hrq : rq.length = 8)
    (hfree : u.usbRxLen = 0#8) (htoken : u.usbCurrentTok = usbpidSetup) :
    (usbInterrupt (usbpidData0 :: withCrc rq) u).1 = .stored usbpidSetup rq ∧
      (usbInterrupt (usbpidData0 :: withCrc rq) u).2.usbRxLen = 11#8 ∧
      (usbInterrupt (usbpidData0 :: withCrc rq) u).2.usbRxToken = usbpidSetup := by
  have hlen : (usbpidData0 :: withCrc rq).length = usbBufsize := by
    rw [List.length_cons, withCrc, List.length_append, hrq]
    rfl
  have h0 : received (receive (usbpidData0 :: withCrc rq) u) 0 = usbpidData0 :=
    received_receive hlen.le (Nat.zero_lt_succ _)
  have hdata : (List.range 8).map
      (fun i => received (receive (usbpidData0 :: withCrc rq) u) (1 + i)) = rq := by
    refine List.ext_getElem (by simp [hrq]) ?_
    intro i hi hi'
    have hlt : 1 + i < (usbpidData0 :: withCrc rq).length := by
      rw [hlen]
      show 1 + i < 11
      omega
    rw [List.getElem_map, List.getElem_range, received_receive hlen.le hlt, Nat.add_comm,
      List.getD_cons_succ, withCrc, List.getD_append _ _ _ _ hi', List.getD_eq_getElem _ _ hi']
  have htoken' : (receive (usbpidData0 :: withCrc rq) u).usbCurrentTok = usbpidSetup := htoken
  have hfree' : (receive (usbpidData0 :: withCrc rq) u).usbRxLen = 0#8 := hfree
  rw [usbInterrupt, if_neg (by omega), hlen, se0, h0]
  show (handleData usbBufsize _).1 = _ ∧ (handleData usbBufsize _).2.usbRxLen = _ ∧
    (handleData usbBufsize _).2.usbRxToken = _
  rw [handleData, htoken', if_neg (by decide), if_neg (not_not.mpr hfree'), if_neg (by decide)]
  exact ⟨congrArg _ hdata, rfl, rfl⟩

end Interrupt

section Setup

variable {handed : List (List Byte)} {events : List Event} {rq : List Byte} {crc : Byte} {b : Bus}

theorem Serving.named (h : Serving handed events b) : Named b.trace b.usb.usbDeviceAddr := by
  obtain ⟨⟨⟨sent, hattending, -⟩, -⟩, -⟩ := h
  exact hattending.address

/-- The request waits for the main program. -/
theorem setup_waits (h : Serving handed events b) (hrq : rq.length = 8)
    (hfree : b.usb.usbRxLen = 0#8) :
    ∃ off v, (v.usbNewDeviceAddr = (after (requests b.trace)).address ∨ v.usbNewDeviceAddr = 0#8) ∧
      v.usbConfiguration = (after (requests b.trace)).configuration ∧
      Processing handed off (requests b.trace) rq v (setup rq crc b) := by
  have htoken := usbInterrupt_setup crc (Serving.named h)
  have hserving := serving_stable (usbpidData0 :: withCrc rq) _
    (serving_stable (controlToken usbpidSetup crc b) b h)
  have hfirst : handler (controlToken usbpidSetup crc b) b = { b with
      usb := { receive (controlToken usbpidSetup crc b) b.usb with usbCurrentTok := usbpidSetup }
      trace := b.trace ++ [.token usbpidSetup] } := by
    rw [handler, htoken]
  have hstored := @usbInterrupt_data
    { receive (controlToken usbpidSetup crc b) b.usb with usbCurrentTok := usbpidSetup } rq hrq
    hfree rfl
  obtain ⟨hexchange, hrxLen, hrxToken⟩ := hstored
  have htrace : requests (setup rq crc b).trace = requests b.trace ++ [rq] := by
    rw [setup, hfirst, handler, hexchange]
    dsimp only
    rw [requests_stored, if_pos ⟨rfl, hrq⟩,
      requests_quiet (show Quiet (.token usbpidSetup) from trivial)]
  obtain ⟨⟨⟨sent, hattending | ⟨off, rq', hattending⟩, hanswers⟩, -⟩, hhanded⟩ := hserving
  · refine absurd ⟨?_, ?_⟩ hattending.nothing
    · rw [hfirst]
      exact hrxLen
    · rw [hfirst]
      exact hrxToken
  · obtain ⟨hrequests, hlast⟩ := List.append_inj' (hattending.requests.symm.trans htrace) rfl
    obtain rfl : rq' = rq := List.singleton_inj.mp hlast
    rw [hrequests] at hattending hanswers
    exact ⟨off, _, hanswers.address, hanswers.configuration, hattending, rfl, hhanded⟩

end Setup

/-- The main program has time to make a packet; the host has got `sent`. -/
structure Offering (handed rs sent : List (List Byte)) (b : Bus) : Prop where
  receptive : Receptive rs sent b
  free : b.usb.usbRxLen = 0#8
  idle : b.usb.usbTxLen.getLsbD 4 = true
  answers : Answers (after rs) sent (view b.usb)
  handed : Handed handed b

/-- A packet is ready, and the host has got `sent` before it. -/
structure Ready (handed rs sent : List (List Byte)) (b : Bus) : Prop where
  receptive : Receptive rs sent b
  free : b.usb.usbRxLen = 0#8
  full : b.usb.usbTxLen.getLsbD 4 = false
  answers : Answers (after rs) sent (view b.usb)
  handed : Handed handed b

section Round

variable {handed rs sent : List (List Byte)} {rq : List Byte} {b : Bus}

/-- `usbPoll` after a packet from the host has been taken. -/
def transmitted (b : Bus) : Bus := (pollReset (pollTransmit (b, [])).2).2.1

theorem polled_of_receive {b' : Bus} (h : (pollReceive (b, [])).2 = (b', [])) :
    polled b = transmitted b' := by
  have hpoll : polled b = (pollReset (pollTransmit (pollReceive (b, [])).2).2).2.1 := rfl
  rw [hpoll, h, transmitted]

theorem pollReceive_apply :
    pollReceive (b, []) = (if 0 ≤ (b.usb.usbRxLen - 3#8).toInt then
      takePacket (b.usb.usbRxLen - 3#8) else pure () : Main Unit) (b, []) := rfl

theorem polled_free (hfree : b.usb.usbRxLen = 0#8) : polled b = transmitted b := by
  apply polled_of_receive
  rw [pollReceive_apply, hfree, if_neg (by decide)]
  rfl

/-- The request is taken before anything else. -/
theorem polled_waiting {off : Byte} {v : View}
    (haddress : v.usbNewDeviceAddr = (after rs).address ∨ v.usbNewDeviceAddr = 0#8)
    (hconfiguration : v.usbConfiguration = (after rs).configuration)
    (h : Processing handed off rs rq v b) :
    ∃ b', polled b = transmitted b' ∧ Offering handed (rs ++ [rq]) [] b' := by
  have hreceive : pollReceive (b, []) = takePacket 8#8 (b, []) := by
    rw [pollReceive_apply, h.waiting.full, if_pos (by decide)]
    rfl
  obtain ⟨v', hbegins, -, htriple⟩ :=
    @processing_takePacket handed _ _ _ _ haddress hconfiguration
  obtain ⟨htaken, hquiet⟩ := htriple b [] h
  obtain ⟨hdue, -⟩ := hquiet rfl
  rw [← hreceive] at htaken hdue
  refine ⟨_, polled_of_receive (Prod.ext rfl hdue), htaken.receptive, htaken.free, ?_, ?_,
    htaken.handed⟩
  · have hidle := hbegins.idle
    rw [← htaken.view] at hidle
    exact hidle
  · rw [htaken.view]
    exact hbegins.answers

/-- Nothing has come since the log had `n` entries, or something has. -/
def Still (n : Nat) (handed rs sent : List (List Byte)) (b : Bus) : Prop :=
  Answering handed rs sent b ∧ n ≤ b.trace.length ∧ (b.trace.length = n → b.usb.usbRxLen = 0#8)

theorem framed_still (n : Nat) : Framed (Still n handed rs sent) := by
  constructor
  · rintro packet b ⟨h, hlen, -⟩ hidle
    have hlonger : (handler packet b).trace.length = b.trace.length + 1 := by simp [handler]
    refine ⟨framed_answering.served packet b h hidle, by omega, ?_⟩
    intro hsame
    omega
  · rintro b v ⟨h, hlen, hfree⟩ hnew
    exact ⟨framed_answering.withView b v h hnew, hlen, hfree⟩

theorem isReset_alone (n : Nat) (b : Bus) :
    ∃ samples, (isReset n (b, [])).2 = ({ b with samples := samples }, []) := by
  induction n generalizing b with
  | zero => exact ⟨b.samples, rfl⟩
  | succ n ih =>
      have hstep : isReset (n + 1) (b, []) =
          (if b.samples.headD usbIdle &&& usbMask ≠ 0#8 then pure false else isReset n : Main Bool)
            ({ b with samples := b.samples.tail }, []) := rfl
      rw [hstep]
      split
      · exact ⟨b.samples.tail, rfl⟩
      · exact ih _

theorem usbHandleResetHook_alone (notResetState : Bool) (b : Bus) :
    ∃ osccal calibrations wasReset, (usbHandleResetHook notResetState (b, [])).2 =
      ({ b with
        usb := { b.usb with wasReset := wasReset }
        osccal := osccal
        calibrations := calibrations }, []) := by
  have hhook : usbHandleResetHook notResetState (b, []) =
      (if b.usb.wasReset ≠ !notResetState then do
        usbResetHook !notResetState
        set fun u => { u with wasReset := !notResetState }
        else pure () : Main Unit) (b, []) := rfl
  rw [hhook]
  split
  · cases notResetState with
    | false => exact ⟨b.osccal, b.calibrations, true, rfl⟩
    | true => exact ⟨b.calibrations.headD b.osccal, b.calibrations.tail, false, rfl⟩
  · exact ⟨b.osccal, b.calibrations, b.usb.wasReset, rfl⟩

theorem Ready.unread (h : Ready handed rs sent b) (samples calibrations : List Byte)
    (osccal : Byte) (wasReset : Bool) : Ready handed rs sent
      ⟨{ b.usb with wasReset := wasReset }, b.trace, samples, osccal, calibrations⟩ := by
  obtain ⟨⟨h₁, h₂, h₃, h₄, h₅, h₆⟩, hfree, hfull, hanswers, hhanded⟩ := h
  exact ⟨⟨h₁, h₂, h₃, h₄, h₅, h₆⟩, hfree, hfull, hanswers, hhanded.data, hhanded.toggles⟩

theorem Ready.withoutAddress (h : Ready handed rs sent b) : Ready handed rs sent
    { b with usb := { b.usb with usbNewDeviceAddr := 0#8, usbDeviceAddr := 0#8 } } := by
  obtain ⟨⟨h₁, h₂, h₃, h₄, h₅, -⟩, hfree, hfull, hanswers, hhanded⟩ := h
  exact ⟨⟨h₁, h₂, h₃, h₄, h₅, [], List.nil_prefix, rfl⟩, hfree, hfull, answers_reset hanswers,
    hhanded.data, hhanded.toggles⟩

/-- The end of `usbPoll` leaves everything that matters but the addresses. -/
theorem ready_pollReset (h : Ready handed rs sent b) :
    Ready handed rs sent (pollReset (b, [])).2.1 := by
  obtain ⟨samples, hsamples⟩ := isReset_alone 20 b
  have hreset : ∃ b', Ready handed rs sent b' ∧ pollReset (b, []) =
      usbHandleResetHook (!(isReset 20 (b, [])).1) (b', []) := by
    have hpoll : pollReset (b, []) = usbHandleResetHook (!(isReset 20 (b, [])).1)
        ((if (isReset 20 (b, [])).1 then resetAddresses else pure () : Main Unit)
          (isReset 20 (b, [])).2).2 := rfl
    have hsampled := h.unread samples b.calibrations b.osccal b.usb.wasReset
    rw [hpoll, hsamples]
    split
    · exact ⟨_, hsampled.withoutAddress, rfl⟩
    · exact ⟨_, hsampled, rfl⟩
  obtain ⟨b', hready, hreset⟩ := hreset
  obtain ⟨osccal, calibrations, wasReset, hhook⟩ := usbHandleResetHook_alone
    (!(isReset 20 (b, [])).1) b'
  rw [hreset, hhook]
  exact hready.unread b'.samples calibrations osccal wasReset

theorem pollTransmit_apply (hidle : b.usb.usbTxLen.getLsbD 4 = true)
    (hmsg : b.usb.usbMsgLen ≠ usbNoMsg) : pollTransmit (b, []) = usbBuildTxBlock (b, []) := by
  have hlen : pollTransmit (b, []) = (if b.usb.usbTxLen &&& 0x10#8 ≠ 0#8 then
      get (·.usbMsgLen) >>= fun len => if len ≠ usbNoMsg then usbBuildTxBlock else pure ()
      else pure () : Main Unit) (b, []) := rfl
  have hmsgLen : (get (·.usbMsgLen) >>= fun len =>
      if len ≠ usbNoMsg then usbBuildTxBlock else pure () : Main Unit) (b, []) =
      (if b.usb.usbMsgLen ≠ usbNoMsg then usbBuildTxBlock else pure () : Main Unit) (b, []) := rfl
  rw [hlen, if_pos (and_ready.mpr hidle), hmsgLen, if_pos hmsg]

/-- What the poll makes of an answer of which something is left. -/
theorem pollTransmit_ready (h : Offering handed rs sent b)
    (hleft : sent.length < (after rs).blocks.length) :
    (pollTransmit (b, [])).2.2 = [] ∧ Ready handed rs sent (pollTransmit (b, [])).2.1 := by
  obtain ⟨hreceptive, hfree, hidle, hanswers, hhanded⟩ := h
  have hframe : Still b.trace.length handed rs sent b :=
    ⟨⟨.inl hreceptive, hhanded, hanswers.address⟩, le_rfl, fun _ => hfree⟩
  obtain ⟨haddress, hconfiguration, k, hsent, hrest⟩ := hanswers
  have hpending : pending (view b.usb).usbTxLen (view b.usb).usbTxBuf = [] := pending_empty hidle
  rw [hpending, List.append_nil] at hsent
  cases hrest with
  | nothing hk hlen =>
      rw [hsent, length_packetsFrom, hk, List.take_length] at hleft
      exact absurd hleft (Nat.lt_irrefl _)
  | bytes data hreply hk hshort htoken hlen hsource =>
      have hnext := answers_nextView hreply hk hshort haddress hconfiguration hsent htoken hsource
      have hmsg : b.usb.usbMsgLen ≠ usbNoMsg := by
        rw [show b.usb.usbMsgLen = _ from hlen]
        intro hnone
        have hnat := congrArg BitVec.toNat hnone
        simp at hnat
        omega
      have htriple := building_usbBuildTxBlock (@framed_still handed rs sent b.trace.length)
        (by rw [List.length_drop]; omega) (by rw [List.length_drop]; exact hlen) hsource
      obtain ⟨⟨hstill, hview⟩, hquiet⟩ := htriple b [] ⟨hframe, hidle, rfl⟩
      obtain ⟨hdue, hlog⟩ := hquiet rfl
      rw [← pollTransmit_apply hidle hmsg] at hstill hview hdue hlog
      have htrace : (pollTransmit (b, [])).2.1.trace = b.trace := hlog
      refine ⟨hdue, ?_, hstill.2.2 (congrArg List.length htrace), ?_, ?_, hstill.1.2.1⟩
      · rcases hstill.1.1 with h | ⟨off, rq, h⟩
        · exact h
        · have hmore := h.requests
          rw [htrace, hreceptive.requests] at hmore
          exact absurd (congrArg List.length hmore) (by simp)
      · rw [show (pollTransmit (b, [])).2.1.usb.usbTxLen = _ from congrArg View.usbTxLen hview]
        exact getLsbD_four_ofNat_add (List.length_take_le 8 _)
      · rw [hview]
        exact hnext

/-- As long as something of the answer is left, the poll makes a packet. -/
theorem transmitted_ready (h : Offering handed rs sent b)
    (hleft : sent.length < (after rs).blocks.length) : Ready handed rs sent (transmitted b) := by
  obtain ⟨hdue, hready⟩ := pollTransmit_ready h hleft
  have hpair : (pollTransmit (b, [])).2 = ((pollTransmit (b, [])).2.1, []) := Prod.ext rfl hdue
  rw [transmitted, hpair]
  exact ready_pollReset hready

/-- The host takes the packet that is ready. -/
theorem ready_taken (crc : Byte) (h : Ready handed rs sent b) :
    ∃ packet, Offering handed rs (sent ++ [packet]) (handler (controlToken usbpidIn crc b) b) := by
  obtain ⟨hreceptive, hfree, hfull, hanswers, hhanded⟩ := h
  have husb := congrArg Prod.snd (usbInterrupt_in crc hreceptive.address hfree hfull)
  have hnak : (usbInterrupt (controlToken usbpidIn crc b) b.usb).2.usbTxLen = usbpidNak := by
    rw [husb]
    rfl
  rcases hreceptive.served hanswers.offers (served (controlToken usbpidIn crc b) b.usb) with
    ⟨hview, -⟩ | ⟨-, hview, htaken⟩
  · have hsame := congrArg View.usbTxLen hview
    rw [show b.usb.usbTxLen = usbpidNak from hsame.symm.trans hnak] at hfull
    exact absurd hfull (by decide)
  · refine ⟨packetOf b.usb.usbTxLen b.usb.usbTxBuf, htaken, ?_, ?_, ?_,
      handed_stable _ b hhanded⟩
    · rw [handler, husb]
      exact hfree
    · rw [handler, hnak]
      decide
    · rw [handler, hview]
      exact hanswers.sent hfull

theorem round_offering (crc : Byte) (h : Offering handed rs sent b)
    (hleft : sent.length < (after rs).blocks.length) :
    ∃ packet, Offering handed rs (sent ++ [packet]) (round crc b) := by
  rw [round, polled_free h.free]
  exact ready_taken crc (transmitted_ready h hleft)

/-- In `n` more rounds the host gets `n` more packets. -/
theorem rounds_offering (crc : Byte) (n : Nat) (h : Offering handed rs sent b)
    (hleft : sent.length + n ≤ (after rs).blocks.length) :
    ∃ sent', sent'.length = sent.length + n ∧ Offering handed rs sent' ((round crc)^[n] b) := by
  induction n generalizing sent b with
  | zero => exact ⟨sent, rfl, h⟩
  | succ n ih =>
      obtain ⟨packet, hround⟩ := round_offering crc h (by omega)
      obtain ⟨sent', hlen, hrounds⟩ := ih hround (by rw [List.length_append]; simp; omega)
      refine ⟨sent', ?_, ?_⟩
      · rw [hlen, List.length_append, List.length_singleton]
        omega
      · rw [Function.iterate_succ_apply]
        exact hrounds

/-- From the request on. -/
theorem rounds_processing {off : Byte} {v : View} (crc : Byte) (n : Nat)
    (haddress : v.usbNewDeviceAddr = (after rs).address ∨ v.usbNewDeviceAddr = 0#8)
    (hconfiguration : v.usbConfiguration = (after rs).configuration)
    (h : Processing handed off rs rq v b) (hn : n + 1 ≤ (after (rs ++ [rq])).blocks.length) :
    ∃ sent, sent.length = n + 1 ∧ Offering handed (rs ++ [rq]) sent ((round crc)^[n + 1] b) := by
  obtain ⟨b', hpolled, hoffering⟩ := polled_waiting haddress hconfiguration h
  obtain ⟨packet, hfirst⟩ := ready_taken crc (transmitted_ready hoffering (by simp; omega))
  rw [← hpolled] at hfirst
  obtain ⟨sent, hlen, hrounds⟩ := rounds_offering crc n hfirst (by simp; omega)
  refine ⟨sent, ?_, ?_⟩
  · rw [hlen]
    simp
    omega
  · rw [Function.iterate_succ_apply]
    exact hrounds

end Round

/-- Whatever has happened before, a host that makes a request while the buffer is free and
asks for data once after every poll gets the whole answer. -/
theorem transfer_completes {reports : Nat → List Byte} (hlen : ∀ n, (reports n).length ≤ 8)
    (samples calibrations : List Byte) (due : List (List (List Byte))) (n : Nat) (rq : List Byte)
    (hrq : rq.length = 8) (hfree : (run reports samples calibrations due n).2.usb.usbRxLen = 0#8)
    (crc : Byte) :
    let b := (run reports samples calibrations due n).2
    let d := after (requests b.trace)
    let reply := blocks (replyTo d.configuration rq)
    controlPackets ((round crc)^[reply.length] (setup rq crc b)).trace = packetsFrom 1 reply ∧
      reply.flatten = replyTo d.configuration rq := by
  intro b d reply
  refine ⟨?_, flatten_blocks _⟩
  obtain ⟨off, v, haddress, hconfiguration, h⟩ :=
    @setup_waits _ _ rq crc b (serving_run hlen samples calibrations due n) hrq hfree
  have hblocks : (after (requests b.trace ++ [rq])).blocks = reply := by
    rw [after_snoc]
    rfl
  have hlength : reply.length = (replyTo d.configuration rq).length / 8 + 1 := length_blocks _
  obtain ⟨sent, hsent, hoffering⟩ :=
    rounds_processing crc (reply.length - 1) haddress hconfiguration h (by rw [hblocks]; omega)
  have hcount : reply.length - 1 + 1 = reply.length := by omega
  rw [hcount] at hoffering hsent
  rw [hoffering.receptive.sent]
  have hbegin := hoffering.answers.offers.packet
  rw [pending_empty hoffering.idle, List.append_nil, hblocks] at hbegin
  exact hbegin.eq_of_length (by rw [hsent, length_packetsFrom])

/-- The first request of a host, for the first eight bytes of the device descriptor. -/
theorem transfer_completes_first :
    let b := (run (fun _ => [0x80#8, 0x00#8]) [] [] [] 1).2
    let d := after (requests b.trace)
    let reply := blocks (replyTo d.configuration [0x80, 6, 0, 1, 0, 0, 8, 0])
    controlPackets ((round 0x02#8)^[reply.length]
      (setup [0x80, 6, 0, 1, 0, 0, 8, 0] 0x02#8 b)).trace = packetsFrom 1 reply ∧
      reply.flatten = replyTo d.configuration [0x80, 6, 0, 1, 0, 0, 8, 0] :=
  @transfer_completes (fun _ => [0x80#8, 0x00#8]) (fun _ => Nat.le_add_right 2 6) [] [] [] 1
    [0x80, 6, 0, 1, 0, 0, 8, 0] rfl (by decide) 0x02#8

end NesMiniAdapter.UsbTransfer
