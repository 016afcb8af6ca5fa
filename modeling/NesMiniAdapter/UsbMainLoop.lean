import NesMiniAdapter.UsbControlEndpoint

/-!
The main loop under every order in which packets can come: what the host gets from the
two endpoints.
-/

namespace NesMiniAdapter.UsbMainLoop

open NesMiniAdapter.InterruptedProgram
open NesMiniAdapter.UsbCrc16
open NesMiniAdapter.UsbDriver
open NesMiniAdapter.UsbPackets
open NesMiniAdapter.UsbDevice
open NesMiniAdapter.UsbInterruptEndpoint
open NesMiniAdapter.UsbControlEndpoint

/-- The device has done what the events ask. -/
structure Obeying (events : List Event) (b : Bus) : Prop where
  control : Control (requestsOf events) b
  address : b.usb.usbNewDeviceAddr = (afterEvents events).address

/-- What holds between two steps of the main program. -/
def Serving (handed : List (List Byte)) (events : List Event) (b : Bus) : Prop :=
  Obeying events b ∧ Handed handed b

section Poll

variable {handed : List (List Byte)} {events : List Event}

theorem obeying_stable : Stable handler (Obeying events) :=
  fun packet b h => ⟨control_stable packet b h.control,
    (served_usbNewDeviceAddr (served packet b.usb)).trans h.address⟩

theorem serving_stable : Stable handler (Serving handed events) :=
  obeying_stable.and handed_stable

/-- A variable of the driver, as it is when it is read. -/
theorem serving_get {α : Type} (f : Usb → α) :
    Triple (Serving handed events) (get f) fun a b => Serving handed events b ∧ f b.usb = a :=
  triple_load serving_stable fun _ h => ⟨h, rfl⟩

/-- What the main program does not change while it makes a packet. -/
def Answering (handed rs sent : List (List Byte)) (b : Bus) : Prop :=
  Attending rs sent b ∧ Handed handed b ∧
    (b.usb.usbNewDeviceAddr = (after rs).address ∨ b.usb.usbNewDeviceAddr = 0#8)

theorem framed_answering {rs sent : List (List Byte)} : Framed (Answering handed rs sent) := by
  constructor
  · rintro packet b ⟨hattending, hhanded, haddress⟩ hidle
    have hserved := served packet b.usb
    have hview := view_served hserved hidle
    refine ⟨?_, handed_stable packet b hhanded, ?_⟩
    · rcases hattending with h | ⟨off, rq, h⟩
      · have hoffers : Offers rs sent b.usb := by
          refine ⟨?_, haddress⟩
          rw [pending_empty hidle, List.append_nil, ← h.sent, ← h.requests]
          exact h.faithful b.trace (List.prefix_refl _)
        rcases h.served hoffers hserved with ⟨-, h'⟩ | ⟨hfull, -⟩
        · exact h'
        · rw [hidle] at hfull
          cases hfull
      · exact .inr ⟨off, rq, (h.served hserved).2⟩
    · have hnew := congrArg View.usbNewDeviceAddr hview
      rw [← show _ = b.usb.usbNewDeviceAddr from hnew] at haddress
      exact haddress
  · rintro b v ⟨hattending, hhanded, haddress⟩ hnew
    rw [← hnew] at haddress
    exact ⟨hattending.withView v, handed_withView hhanded v, haddress⟩

/-- What is left of the answer may be sent. -/
structure Sendable (events : List Event) (sent : List (List Byte)) (v : View) : Prop where
  answers : Answers (after (requestsOf events)) sent v
  address : v.usbNewDeviceAddr = (afterEvents events).address
  idle : v.usbTxLen.getLsbD 4 = true

/-- With the transmitter idle the main program may go on with the answer. -/
theorem Serving.building {b : Bus} (h : Serving handed events b)
    (hidle : b.usb.usbTxLen.getLsbD 4 = true) :
    ∃ p : List (List Byte) × View, Sendable events p.1 p.2 ∧
      Building (Answering handed (requestsOf events) p.1) p.2 b := by
  obtain ⟨⟨⟨sent, hattending, hanswers⟩, haddress⟩, hhanded⟩ := h
  exact ⟨(sent, view b.usb), ⟨hanswers, haddress, hidle⟩, ⟨hattending, hhanded, hanswers.address⟩,
    hidle, rfl⟩

theorem building_serving {sent : List (List Byte)} {v : View} {b : Bus}
    (hframe : Answering handed (requestsOf events) sent b) (hview : view b.usb = v)
    (hanswers : Answers (after (requestsOf events)) sent v)
    (haddress : v.usbNewDeviceAddr = (afterEvents events).address) : Serving handed events b := by
  refine ⟨⟨⟨sent, hframe.1, ?_⟩, ?_⟩, hframe.2.1⟩
  · rw [hview]
    exact hanswers
  · rw [← haddress, ← hview]
    rfl

theorem building_build {sent : List (List Byte)} {v : View} (h : Sendable events sent v)
    (hmsg : v.usbMsgLen ≠ usbNoMsg) :
    Triple (Building (Answering handed (requestsOf events) sent) v) usbBuildTxBlock fun _ =>
      Serving handed events := by
  obtain ⟨⟨haddress, hconfiguration, k, hsent, hrest⟩, hassigned, hidle⟩ := h
  cases hrest with
  | nothing _ hlen => exact absurd hlen hmsg
  | bytes data hreply hk hshort htoken hlen hsource =>
      rw [pending_empty hidle, List.append_nil] at hsent
      have hnext := answers_nextView hreply hk hshort haddress hconfiguration hsent htoken hsource
      refine Triple.consequence (building_usbBuildTxBlock framed_answering ?_ ?_ hsource)
        (fun _ => id) fun _ b h => building_serving h.1 h.2 hnext hassigned
      · rw [List.length_drop]
        omega
      · rw [List.length_drop]
        exact hlen

theorem serving_pollTransmit :
    Triple (Serving handed events) pollTransmit fun _ => Serving handed events := by
  refine triple_bind (serving_get (·.usbTxLen)) ?_
  intro len
  apply triple_ite
  · intro hlen
    have hpre : ∀ b, Serving handed events b ∧ b.usb.usbTxLen = len →
        ∃ p : List (List Byte) × View, Sendable events p.1 p.2 ∧
          Building (Answering handed (requestsOf events) p.1) p.2 b := by
      rintro b ⟨h, rfl⟩
      exact h.building (and_ready.mp hlen)
    refine Triple.pre (triple_exists ?_) hpre
    rintro ⟨sent, v⟩
    apply triple_and_left
    intro h
    refine Runs.triple_bind (building_get framed_answering (f := View.usbMsgLen)) ?_
    apply triple_ite
    · exact fun hmsg => building_build h hmsg
    · exact fun _ => triple_pure fun b hb => building_serving hb.frame hb.view h.answers h.address
  · exact fun _ => triple_pure fun b h => h.1

/-- A packet that is no request waits in the buffer. -/
structure Dropping (handed : List (List Byte)) (events : List Event) (rxLen : Byte) (b : Bus) :
    Prop where
  receptive : ∃ sent, Receptive (requestsOf events) sent b ∧
    Answers (after (requestsOf events)) sent (view b.usb)
  address : b.usb.usbNewDeviceAddr = (afterEvents events).address
  handed : Handed handed b
  full : b.usb.usbRxLen = rxLen

theorem served_full {u u' : Usb} {e : Exchange} (h : Served u e u') (hfull : u.usbRxLen ≠ 0#8) :
    u'.usbRxLen = u.usbRxLen ∧ u'.usbRxToken = u.usbRxToken := by
  cases h with
  | stored _ _ _ _ _ hfree => exact absurd hfree hfull
  | _ => exact ⟨rfl, rfl⟩

theorem dropping_stable {rxLen : Byte} (hfull : rxLen ≠ 0#8) :
    Stable handler (Dropping handed events rxLen) := by
  rintro packet b ⟨⟨sent, h, hanswers⟩, haddress, hhanded, hrx⟩
  have hserved := served packet b.usb
  obtain ⟨hlen, htoken⟩ := served_full hserved (by rwa [hrx])
  refine ⟨?_, (served_usbNewDeviceAddr hserved).trans haddress, handed_stable packet b hhanded,
    hlen.trans hrx⟩
  rcases h.served hanswers.offers hserved with ⟨hview, h' | ⟨off, rq, h'⟩⟩ | ⟨hready, hview, h'⟩
  · refine ⟨sent, h', ?_⟩
    rw [handler, hview]
    exact hanswers
  · exact absurd ⟨hlen.symm.trans h'.full, htoken.symm.trans h'.token⟩ h.nothing
  · refine ⟨_, h', ?_⟩
    rw [handler, hview]
    exact hanswers.sent hready

theorem dropping_usbProcessRx {rxLen : Byte} (hfull : rxLen ≠ 0#8) (data : Nat) :
    Triple (Dropping handed events rxLen) (usbProcessRx data (rxLen - 3#8)) fun _ =>
      Dropping handed events rxLen := by
  have htoken : Triple (Dropping handed events rxLen) (get (·.usbRxToken)) fun token b =>
      (token = usbpidSetup → rxLen ≠ 11#8) ∧ Dropping handed events rxLen b := by
    refine triple_load (dropping_stable hfull) ?_
    rintro b ⟨⟨sent, h, hanswers⟩, haddress, hhanded, rfl⟩
    exact ⟨fun htoken hlen => h.nothing ⟨hlen, htoken⟩, ⟨sent, h, hanswers⟩, haddress, hhanded,
      rfl⟩
  refine triple_bind htoken ?_
  intro token
  apply triple_and_left
  intro hlen
  apply triple_ite
  · intro hsetup
    rw [if_neg]
    · exact triple_pure fun _ h => h
    · intro height
      refine hlen hsetup ?_
      have hsum := congrArg (· + 3#8) height
      simpa using hsum
  · exact fun _ => triple_pure fun _ h => h

theorem dropping_release {rxLen : Byte} (hfull : rxLen ≠ 0#8) :
    Triple (Dropping handed events rxLen) (set fun u => { u with usbRxLen := 0#8 }) fun _ =>
      Serving handed events := by
  unfold UsbDriver.set
  refine triple_store (dropping_stable hfull) ?_
  rintro b ⟨⟨sent, h, hanswers⟩, haddress, hhanded, -⟩
  refine ⟨⟨⟨sent, .inl ⟨h.requests, h.sent, h.offset, ?_, h.faithful, h.address⟩, hanswers⟩,
    haddress⟩, hhanded.data, hhanded.toggles⟩
  rintro ⟨hzero, -⟩
  cases hzero

/-- The request has been taken, and `v` is where its answer begins. -/
structure Taken (handed rs : List (List Byte)) (v : View) (b : Bus) : Prop where
  receptive : Receptive rs [] b
  free : b.usb.usbRxLen = 0#8
  view : view b.usb = v
  handed : Handed handed b

theorem processing_release {rs : List (List Byte)} {off : Byte} {rq : List Byte} {v : View} :
    Triple (Processing handed off rs rq v) (set fun u => { u with usbRxLen := 0#8 }) fun _ =>
      Taken handed (rs ++ [rq]) v := by
  unfold UsbDriver.set
  refine triple_store processing_stable ?_
  rintro b ⟨h, rfl, hhanded⟩
  refine ⟨⟨h.requests, h.sent, ?_, ?_, h.faithful, h.address⟩, rfl, rfl, hhanded.data,
    hhanded.toggles⟩
  · rw [h.offset]
    exact h.half
  · rintro ⟨hzero, -⟩
    cases hzero

theorem processing_usbProcessRx {rs : List (List Byte)} {off : Byte} {rq : List Byte} {v : View}
    (haddress : v.usbNewDeviceAddr = (after rs).address ∨ v.usbNewDeviceAddr = 0#8)
    (hconfiguration : v.usbConfiguration = (after rs).configuration) :
    ∃ v', Begins (after (rs ++ [rq])) v' ∧
      v'.usbNewDeviceAddr = Device.assign v.usbNewDeviceAddr (standardRequest rq) ∧
      Runs (Processing handed off rs rq) (usbProcessRx (usbBufsize + 1 - off.toNat) 8#8) v ()
        v' := by
  obtain ⟨v', hruns, hbegins, hassign⟩ := processing_processSetup haddress hconfiguration
  refine ⟨v', hbegins, hassign, ?_⟩
  have htoken : Runs (Processing handed off rs rq) (get (·.usbRxToken)) v usbpidSetup v :=
    runs_load processing_stable fun _ h => h.waiting.token
  refine runs_bind htoken ?_
  exact hruns

/-- The request `rq` waits. -/
structure Asked (handed : List (List Byte)) (events : List Event) (off : Byte) (rq : List Byte)
    (v : View) (b : Bus) : Prop where
  weak : v.usbNewDeviceAddr = (after (requestsOf events)).address ∨ v.usbNewDeviceAddr = 0#8
  address : v.usbNewDeviceAddr = (afterEvents events).address
  configuration : v.usbConfiguration = (after (requestsOf events)).configuration
  processing : Processing handed off (requestsOf events) rq v b

/-- What waits in the buffer, when there is something. -/
theorem Serving.full {b : Bus} (h : Serving handed events b) {rxLen : Byte}
    (hlen : b.usb.usbRxLen = rxLen) :
    Dropping handed events rxLen b ∨ rxLen = 11#8 ∧
      ∃ p : Byte × List Byte × View, Asked handed events p.1 p.2.1 p.2.2 b := by
  obtain ⟨⟨⟨sent, h | ⟨off, rq, h⟩, hanswers⟩, haddress⟩, hhanded⟩ := h
  · exact .inl ⟨⟨sent, h, hanswers⟩, haddress, hhanded, hlen⟩
  · exact .inr ⟨hlen.symm.trans h.full, (off, rq, view b.usb), hanswers.address, haddress,
      hanswers.configuration, h, rfl, hhanded⟩

theorem dropping_takePacket {rxLen : Byte} (hfull : rxLen ≠ 0#8) :
    Triple (Dropping handed events rxLen) (takePacket (rxLen - 3#8)) fun _ =>
      Serving handed events := by
  have hoffset : Triple (Dropping handed events rxLen) (get (·.usbInputBufOffset)) fun _ =>
      Dropping handed events rxLen := triple_load (dropping_stable hfull) fun _ h => h
  refine triple_bind hoffset ?_
  intro offset
  refine triple_bind (dropping_usbProcessRx hfull _) ?_
  exact fun _ => dropping_release hfull

theorem processing_takePacket {rs : List (List Byte)} {off : Byte} {rq : List Byte} {v : View}
    (haddress : v.usbNewDeviceAddr = (after rs).address ∨ v.usbNewDeviceAddr = 0#8)
    (hconfiguration : v.usbConfiguration = (after rs).configuration) :
    ∃ v', Begins (after (rs ++ [rq])) v' ∧
      v'.usbNewDeviceAddr = Device.assign v.usbNewDeviceAddr (standardRequest rq) ∧
      Triple (Processing handed off rs rq v) (takePacket 8#8) fun _ =>
        Taken handed (rs ++ [rq]) v' := by
  have hoffset : Runs (Processing handed off rs rq) (get (·.usbInputBufOffset)) v off v :=
    runs_load processing_stable fun _ h => h.waiting.offset
  obtain ⟨v', hbegins, hassign, hruns⟩ := processing_usbProcessRx haddress hconfiguration
  exact ⟨v', hbegins, hassign, hoffset.triple_bind (hruns.triple_bind processing_release)⟩

theorem Taken.serving {v : View} {b : Bus} (h : Taken handed (requestsOf events) v b)
    (hbegins : Begins (after (requestsOf events)) v)
    (haddress : v.usbNewDeviceAddr = (afterEvents events).address) : Serving handed events b := by
  refine ⟨⟨⟨[], .inl h.receptive, ?_⟩, ?_⟩, h.handed⟩
  · rw [h.view]
    exact hbegins.answers
  · rw [← haddress, ← h.view]
    rfl

/-- A request that has been taken is one more event. -/
theorem asked_takePacket {off : Byte} {rq : List Byte} {v : View} :
    Triple (Asked handed events off rq v) (takePacket 8#8) fun _ =>
      Serving handed (events ++ [.request rq]) := by
  intro b due h
  obtain ⟨v', hbegins, hassign, htriple⟩ :=
    @processing_takePacket handed _ off rq _ h.weak h.configuration
  obtain ⟨htaken, hquiet⟩ := htriple b due h.processing
  refine ⟨?_, hquiet⟩
  have hrequests : requestsOf (events ++ [.request rq]) = requestsOf events ++ [rq] :=
    requestsOf_append events [.request rq]
  rw [← hrequests] at htaken hbegins
  refine htaken.serving hbegins ?_
  rw [hassign, h.address, afterEvents_snoc]
  rfl

theorem serving_pollReceive : Triple (Serving handed events) pollReceive fun _ b =>
    ∃ rs : List (List Byte), Serving handed (events ++ rs.map Event.request) b := by
  have hnone : ∀ b, Serving handed events b →
      ∃ rs : List (List Byte), Serving handed (events ++ rs.map Event.request) b :=
    fun b h => ⟨[], by rwa [List.map_nil, List.append_nil]⟩
  refine triple_bind (serving_get (·.usbRxLen)) ?_
  intro rxLen
  apply triple_ite
  · intro hpos
    have hfull : rxLen ≠ 0#8 := by
      rintro rfl
      revert hpos
      decide
    have hcases : ∀ b, Serving handed events b ∧ b.usb.usbRxLen = rxLen → _ :=
      fun b h => h.1.full h.2
    refine Triple.pre (triple_or ?_ (triple_and_left ?_)) hcases
    · exact (dropping_takePacket hfull).consequence (fun _ => id) fun _ => hnone
    · rintro rfl
      refine triple_exists ?_
      rintro ⟨off, rq, v⟩
      exact asked_takePacket.consequence (fun _ => id) fun _ b h => ⟨[rq], h⟩
  · exact fun _ => triple_pure fun b h => hnone b h.1

/-- The endpoints depend neither on the lines nor on the calibration. -/
theorem Serving.unread {b : Bus} (h : Serving handed events b) (samples calibrations : List Byte)
    (osccal : Byte) (wasReset : Bool) : Serving handed events
      ⟨{ b.usb with wasReset := wasReset }, b.trace, samples, osccal, calibrations⟩ := by
  obtain ⟨⟨⟨sent, hattending, hanswers⟩, haddress⟩, hhanded⟩ := h
  exact ⟨⟨⟨sent, hattending.congr rfl rfl rfl rfl rfl hattending.address, hanswers⟩, haddress⟩,
    hhanded.data, hhanded.toggles⟩

theorem serving_isReset (n : Nat) :
    Triple (Serving handed events) (isReset n) fun _ => Serving handed events := by
  induction n with
  | zero => exact triple_pure fun _ h => h
  | succ n ih =>
      have husbin : Triple (Serving handed events) usbin fun _ => Serving handed events := by
        refine triple_access serving_stable ?_
        exact fun b h => h.unread b.samples.tail b.calibrations b.osccal b.usb.wasReset
      refine triple_bind husbin ?_
      intro line
      apply triple_ite
      · exact fun _ => triple_pure fun _ h => h
      · exact fun _ => ih

theorem serve_samples (packets : List (List Byte)) (b : Bus) :
    (serve handler packets b).samples = b.samples := by
  induction packets generalizing b with
  | nil => rfl
  | cons packet packets ih => exact ih (handler packet b)

/-- Both lines are low in each of the next `n` samples. -/
def LinesLow (n : Nat) (samples : List Byte) : Prop :=
  ∀ i < n, samples.getD i usbIdle &&& usbMask = 0#8

instance (n : Nat) (samples : List Byte) : Decidable (LinesLow n samples) :=
  inferInstanceAs (Decidable (∀ i < n, _))

theorem linesLow_succ {n : Nat} {samples : List Byte} : LinesLow (n + 1) samples ↔
    samples.headD usbIdle &&& usbMask = 0#8 ∧ LinesLow n samples.tail := by
  have htail : ∀ i, samples.tail.getD i usbIdle = samples.getD (i + 1) usbIdle := by
    intro i
    cases samples <;> rfl
  have hhead : samples.headD usbIdle = samples.getD 0 usbIdle := by
    cases samples <;> rfl
  rw [hhead]
  constructor
  · intro h
    refine ⟨h 0 (Nat.zero_lt_succ n), ?_⟩
    intro i hi
    rw [htail]
    exact h (i + 1) (Nat.succ_lt_succ hi)
  · rintro ⟨hfirst, hrest⟩ i hi
    cases i with
    | zero => exact hfirst
    | succ i =>
        rw [← htail]
        exact hrest i (Nat.lt_of_succ_lt_succ hi)

theorem isReset_linesLow (n : Nat) (b : Bus) (due : List (List (List Byte))) :
    (isReset n (b, due)).1 = decide (LinesLow n b.samples) := by
  induction n generalizing b due with
  | zero => exact (decide_eq_true fun i hi => absurd hi (Nat.not_lt_zero i)).symm
  | succ n ih =>
      have hsamples := serve_samples (due.headD []) b
      have hstep : (isReset (n + 1) (b, due)).1 =
          ((if (serve handler (due.headD []) b).samples.headD usbIdle &&& usbMask ≠ 0#8 then
            pure false else isReset n : Main Bool)
              ({ serve handler (due.headD []) b with
                samples := (serve handler (due.headD []) b).samples.tail }, due.tail)).1 := rfl
      rw [hstep, hsamples]
      split
      · rename_i hhigh
        exact (decide_eq_false fun h => hhigh (linesLow_succ.mp h).1).symm
      · rename_i hlow
        rw [ih]
        simp only [linesLow_succ, not_not.mp hlow, true_and]

theorem answers_reset {d : Device} {sent : List (List Byte)} {v : View} (h : Answers d sent v) :
    Answers d sent { v with usbNewDeviceAddr := 0#8 } := by
  obtain ⟨-, hconfiguration, k, hsent, hrest⟩ := h
  refine ⟨.inr rfl, hconfiguration, k, hsent, ?_⟩
  cases hrest with
  | nothing hk hlen => exact .nothing hk hlen
  | bytes data hreply hk hshort htoken hlen hsource =>
      exact .bytes data hreply hk hshort htoken hlen (hsource.congr rfl rfl rfl fun _ _ => rfl)

theorem serving_usbHandleResetHook (notResetState : Bool) :
    Triple (Serving handed events) (usbHandleResetHook notResetState) fun _ =>
      Serving handed events := by
  have hcalibrate : Triple (Serving handed events) calibrate fun _ => Serving handed events := by
    refine triple_store serving_stable ?_
    exact fun b h => h.unread b.samples b.calibrations.tail _ b.usb.wasReset
  have hset : Triple (Serving handed events) (set fun u => { u with wasReset := !notResetState })
      fun _ => Serving handed events := by
    refine triple_store serving_stable ?_
    exact fun b h => h.unread b.samples b.calibrations b.osccal (!notResetState)
  refine triple_bind (Triple.pre (serving_get (·.wasReset)) fun _ h => h) ?_
  intro wasReset
  apply triple_ite
  · intro _
    refine triple_bind (triple_ite (fun _ => triple_pure fun _ h => h.1) fun _ => ?_) fun _ => hset
    exact Triple.pre hcalibrate fun _ h => h.1
  · exact fun _ => triple_pure fun _ h => h.1

theorem serving_resetAddresses : Triple (Serving handed events) resetAddresses fun _ =>
    Serving handed (events ++ [.reset]) := by
  have hrequests : requestsOf (events ++ [.reset]) = requestsOf events :=
    (requestsOf_append events [.reset]).trans (List.append_nil _)
  have hnew : Triple (Serving handed events) (set fun u => { u with usbNewDeviceAddr := 0#8 })
      fun _ => Serving handed (events ++ [.reset]) := by
    refine triple_store serving_stable ?_
    rintro b ⟨⟨⟨sent, hattending, hanswers⟩, -⟩, hhanded⟩
    refine ⟨⟨⟨sent, ?_⟩, ?_⟩, hhanded.data, hhanded.toggles⟩
    · rw [hrequests]
      exact ⟨hattending.withView { view b.usb with usbNewDeviceAddr := 0#8 },
        answers_reset hanswers⟩
    · rw [afterEvents_snoc]
      rfl
  have haddr : Triple (Serving handed (events ++ [.reset]))
      (set fun u => { u with usbDeviceAddr := 0#8 }) fun _ =>
        Serving handed (events ++ [.reset]) := by
    refine triple_store serving_stable ?_
    rintro b ⟨⟨⟨sent, hattending, hanswers⟩, haddress⟩, hhanded⟩
    exact ⟨⟨⟨sent, hattending.congr rfl rfl rfl rfl rfl ⟨[], List.nil_prefix, rfl⟩, hanswers⟩,
      haddress⟩, hhanded.data, hhanded.toggles⟩
  exact triple_bind hnew fun _ => haddr

/-- What a look at the lines makes of the events. -/
def resetOf (low : Bool) : List Event := if low then [.reset] else []

theorem serving_pollReset {b : Bus} (h : Serving handed events b) (due : List (List (List Byte))) :
    Serving handed (events ++ resetOf (LinesLow 20 b.samples)) (pollReset (b, due)).2.1 := by
  have hreset : Triple (Serving handed events)
      (if decide (LinesLow 20 b.samples) then resetAddresses else pure () : Main Unit) fun _ =>
        Serving handed (events ++ resetOf (LinesLow 20 b.samples)) := by
    apply triple_ite
    · intro hlow
      rw [resetOf, if_pos hlow]
      exact serving_resetAddresses
    · intro hhigh
      rw [resetOf, if_neg hhigh, List.append_nil]
      exact triple_pure fun _ h => h
  have hrest := triple_bind hreset fun _ =>
    serving_usbHandleResetHook !decide (LinesLow 20 b.samples)
  have hpoll : pollReset (b, due) = (do
      (if (isReset 20 (b, due)).1 then resetAddresses else pure ())
      usbHandleResetHook !(isReset 20 (b, due)).1 : Main Unit) (isReset 20 (b, due)).2 := rfl
  rw [hpoll, isReset_linesLow]
  exact (hrest _ _ (serving_isReset 20 b due h).1).1

end Poll

section MainLoop

variable {handed : List (List Byte)} {events : List Event}

/-- The interrupt endpoint is no concern of the control endpoint. -/
theorem obeying_status1 {b : Bus} (h : Obeying events b) (status : UsbTxStatus) :
    Obeying events { b with usb := { b.usb with usbTxStatus1 := status } } := by
  obtain ⟨⟨sent, hattending, hanswers⟩, haddress⟩ := h
  exact ⟨⟨sent, hattending.congr rfl rfl rfl rfl rfl hattending.address, hanswers⟩, haddress⟩

theorem obeying_putTxBuf1 (i : Nat) (x : Byte) :
    Triple (Obeying events) (putTxBuf1 i x) fun _ => Obeying events := by
  unfold putTxBuf1 UsbDriver.set
  exact triple_store obeying_stable fun _ h => obeying_status1 h _

theorem obeying_setTxLen1 (len : Byte) :
    Triple (Obeying events) (setTxLen1 len) fun _ => Obeying events := by
  unfold setTxLen1 UsbDriver.set
  exact triple_store obeying_stable fun _ h => obeying_status1 h _

theorem obeying_get {α : Type} (f : Usb → α) :
    Triple (Obeying events) (get f) fun _ => Obeying events :=
  triple_load obeying_stable fun _ h => h

theorem obeying_usbSetInterrupt (data : List Byte) :
    Triple (Obeying events) (usbSetInterrupt data) fun _ => Obeying events := by
  have hclaim : Triple (Obeying events) claimTxStatus fun _ => Obeying events := by
    refine triple_bind (obeying_get _) ?_
    intro len
    apply triple_ite
    · exact fun _ => triple_bind (obeying_get _) fun token => obeying_putTxBuf1 0 _
    · exact fun _ => obeying_setTxLen1 usbpidNak
  refine triple_bind hclaim ?_
  intro _
  refine triple_bind
    (triple_forUpTo (fun _ _ => Obeying events) fun i _ _ => obeying_putTxBuf1 _ _) ?_
  intro _
  have hcrc : Triple (Obeying events)
      (usbCrc16Append (fun i => get (·.usbTxStatus1.buffer i)) putTxBuf1 1 data.length) fun _ =>
        Obeying events := by
    refine triple_bind (triple_forUpTo (fun _ _ => Obeying events) fun i _ _ => obeying_get _) ?_
    intro bytes
    exact triple_bind (obeying_putTxBuf1 _ _) fun _ => obeying_putTxBuf1 _ _
  exact triple_bind hcrc fun _ => obeying_setTxLen1 _

/-- The round after `usbPoll`. -/
theorem serving_handOver {report : List Byte} (hlen : report.length ≤ 8) :
    Triple (Serving handed events)
      (do
        let ready ← usbInterruptIsReady
        (if ready then usbSetInterrupt report else pure ())
        return ready)
      fun ready => Serving (if ready then handed ++ [report] else handed) events := by
  have hready : Triple (Serving handed events) usbInterruptIsReady fun ready b =>
      Serving handed events b ∧ (ready = true → b.usb.usbTxStatus1.len.getLsbD 4 = true) := by
    refine triple_bind (serving_get (·.usbTxStatus1.len)) ?_
    intro len
    refine triple_pure ?_
    rintro b ⟨h, rfl⟩
    exact ⟨h, fun hready => and_ready.mp (of_decide_eq_true hready)⟩
  refine triple_bind hready ?_
  rintro (_ | _)
  · exact triple_pure fun b h => h.1
  · have hset := (@obeying_usbSetInterrupt events report).and
      (@usbSetInterrupt_hands handed report hlen)
    refine triple_bind (Triple.pre hset ?_) ?_
    · rintro b ⟨h, hempty⟩
      exact ⟨h.1, h.2, hempty rfl⟩
    · exact fun _ => triple_pure fun _ h => h

/-- A round before it looks at the lines. -/
def pollPackets : Main Unit := do
  pollReceive
  pollTransmit

/-- In a round the device takes the request that waits, and then notes a reset. -/
theorem serving_iteration {report : List Byte} (hlen : report.length ≤ 8) {b : Bus}
    (h : Serving handed events b) (due : List (List (List Byte))) :
    ∃ rs : List (List Byte),
      Serving handed (events ++ rs.map Event.request) (pollPackets (b, due)).2.1 ∧
      Serving (if (iteration report (b, due)).1 then handed ++ [report] else handed)
        (events ++ rs.map Event.request ++
          resetOf (LinesLow 20 (pollPackets (b, due)).2.1.samples))
        (iteration report (b, due)).2.1 := by
  have hpoll : Triple (Serving handed events) pollPackets fun _ b =>
      ∃ rs : List (List Byte), Serving handed (events ++ rs.map Event.request) b := by
    refine triple_bind serving_pollReceive fun _ => triple_exists fun rs => ?_
    exact serving_pollTransmit.consequence (fun _ => id) fun _ b h => ⟨rs, h⟩
  obtain ⟨rs, hpackets⟩ := (hpoll b due h).1
  have hreset := serving_pollReset hpackets (pollPackets (b, due)).2.2
  exact ⟨rs, hpackets, (serving_handOver hlen _ _ hreset).1⟩

theorem serving_start (samples calibrations : List Byte) :
    Serving [] [] (start samples calibrations) := by
  constructor
  · refine ⟨⟨[], .inl ⟨rfl, rfl, .inl rfl, ?_, ?_, [], List.nil_prefix, rfl⟩, .inl rfl, rfl, 0, ?_,
      .nothing rfl rfl⟩, rfl⟩
    · rintro ⟨hzero, -⟩
      cases hzero
    · intro t ht
      rw [List.prefix_nil.mp ht]
      exact List.prefix_refl []
    · exact pending_empty (show usbpidNak.getLsbD 4 = true by decide)
  · have hslot : slot (start samples calibrations).usb = [] :=
      pending_empty (show usbpidNak.getLsbD 4 = true by decide)
    constructor
    · rw [hslot]
      rfl
    · rw [hslot]
      exact fun _ => ⟨rfl, rfl⟩

theorem mainLoop_sublist (reports : Nat → List Byte) (n : Nat) (s : Bus × List (List (List Byte))) :
    ((mainLoop reports n s).1).Sublist ((List.range n).map reports) := by
  induction n with
  | zero => exact List.Sublist.refl []
  | succ n ih =>
      rw [List.range_succ, List.map_append]
      have hlast : (mainLoop reports (n + 1) s).1 =
          if (iteration (reports n) (mainLoop reports n s).2).1 then
            (mainLoop reports n s).1 ++ [reports n] else (mainLoop reports n s).1 := rfl
      rw [hlast]
      split
      · exact ih.append (List.Sublist.refl _)
      · exact ih.trans (List.sublist_append_left _ _)

end MainLoop

section Results

/-- `n` rounds from power-up: the reports handed over, and the bus. The list holds the
packets of the host due at each access to a variable of the driver. -/
def run (reports : Nat → List Byte) (samples calibrations : List Byte)
    (due : List (List (List Byte))) (n : Nat) : List (List Byte) × Bus :=
  ((mainLoop reports n (start samples calibrations, due)).1,
    (mainLoop reports n (start samples calibrations, due)).2.1)

/-- The bus in the round with number `n`, before it looks at the lines. -/
def polling (reports : Nat → List Byte) (samples calibrations : List Byte)
    (due : List (List (List Byte))) (n : Nat) : Bus :=
  (pollPackets (mainLoop reports n (start samples calibrations, due)).2).2.1

/-- The requests that `n` rounds have taken, and the resets of the bus that they have seen. -/
def history (reports : Nat → List Byte) (samples calibrations : List Byte)
    (due : List (List (List Byte))) : Nat → List Event
  | 0 => []
  | n + 1 =>
      let b := polling reports samples calibrations due n
      history reports samples calibrations due n ++
        ((taken b).drop (taken (run reports samples calibrations due n).2).length).map
          Event.request ++
        resetOf (LinesLow 20 b.samples)

variable {reports : Nat → List Byte}

theorem Serving.taken_eq {handed : List (List Byte)} {events : List Event} {b : Bus}
    (h : Serving handed events b) : taken b = requestsOf events := by
  obtain ⟨sent, hattending, -⟩ := h.1.control
  exact hattending.taken_eq

theorem serving_run (hlen : ∀ n, (reports n).length ≤ 8) (samples calibrations : List Byte)
    (due : List (List (List Byte))) (n : Nat) :
    Serving (run reports samples calibrations due n).1 (history reports samples calibrations due n)
      (run reports samples calibrations due n).2 := by
  induction n with
  | zero => exact serving_start samples calibrations
  | succ n ih =>
      obtain ⟨rs, hpolling, hround⟩ := serving_iteration (hlen n) ih
        (mainLoop reports n (start samples calibrations, due)).2.2
      have htaken : taken (polling reports samples calibrations due n) =
          taken (run reports samples calibrations due n).2 ++ rs := by
        have hevents := Serving.taken_eq hpolling
        rw [requestsOf_append, requestsOf_map, ← ih.taken_eq] at hevents
        exact hevents
      have hnew : history reports samples calibrations due (n + 1) =
          history reports samples calibrations due n ++ rs.map Event.request ++
            resetOf (LinesLow 20 (polling reports samples calibrations due n).samples) := by
        rw [history, htaken, List.drop_left]
      rw [hnew]
      exact hround

theorem length_slot_le (u : Usb) : (slot u).length ≤ 1 := by
  rw [slot, pending]
  split
  · exact Nat.zero_le 1
  · exact le_rfl

/-- The reports that are handed over reach the host in their order, each whole and once,
but for the last one as long as it waits in its slot. -/
theorem reports_delivered (hlen : ∀ n, (reports n).length ≤ 8) (samples calibrations : List Byte)
    (due : List (List (List Byte))) (n : Nat) :
    let handed := (run reports samples calibrations due n).1
    let b := (run reports samples calibrations due n).2
    handed.Sublist ((List.range n).map reports) ∧ (slot b.usb).length ≤ 1 ∧
      (interruptPackets b.trace ++ slot b.usb).map List.tail = handed.map withCrc ∧
      (Undisturbed b.trace → interruptPackets b.trace ++ slot b.usb = packetsFrom 0 handed) := by
  intro handed b
  have h := (serving_run hlen samples calibrations due n).2
  exact ⟨mainLoop_sublist reports n _, length_slot_le _, h.data, fun hno => (h.toggles hno).1⟩

/-- The host asks for the first of two reports between two rounds. -/
theorem reports_delivered_two :
    let reports := fun n => [BitVec.ofNat 8 n, 0x00#8]
    let due : List (List (List Byte)) := List.replicate 16 [] ++ [[[usbpidIn, 0x80#8, 0xA0#8]]]
    let handed := (run reports [usbIdle, usbIdle] [] due 2).1
    let b := (run reports [usbIdle, usbIdle] [] due 2).2
    (interruptPackets b.trace = [usbpidData0 :: withCrc [0x00#8, 0x00#8]] ∧
      slot b.usb = [usbpidData1 :: withCrc [0x01#8, 0x00#8]]) ∧
    handed.Sublist ((List.range 2).map reports) ∧ (slot b.usb).length ≤ 1 ∧
      (interruptPackets b.trace ++ slot b.usb).map List.tail = handed.map withCrc ∧
      (Undisturbed b.trace → interruptPackets b.trace ++ slot b.usb = packetsFrom 0 handed) :=
  ⟨by decide +kernel, @reports_delivered (fun n => [BitVec.ofNat 8 n, 0x00#8])
    (fun _ => Nat.le_add_right 2 6) [usbIdle, usbIdle] [] _ 2⟩

/-- At every moment of every run the host has got the beginning of the answer to its last
request. -/
theorem requests_answered (hlen : ∀ n, (reports n).length ≤ 8) (samples calibrations : List Byte)
    (due : List (List (List Byte))) (n : Nat) (t : List Exchange)
    (ht : t <+: (run reports samples calibrations due n).2.trace) :
    controlPackets t <+: packetsFrom 1 (after (requests t)).blocks := by
  obtain ⟨sent, h | ⟨off, rq, h⟩, -⟩ := (serving_run hlen samples calibrations due n).1.control
  · exact h.faithful t ht
  · exact h.faithful t ht

/-- The host fetches a packet of the device descriptor, then asks for the first nine bytes of
the configuration instead, and fetches them. -/
theorem requests_answered_setup :
    let setup := fun rq => [[usbpidSetup, 0x00#8, 0x10#8], usbpidData0 :: withCrc rq]
    let fetch := [[usbpidIn, 0x00#8, 0x10#8]]
    let due := setup [0x80, 6, 0, 1, 0, 0, 64, 0] :: List.replicate 45 [] ++
      [fetch ++ setup [0x80, 6, 0, 2, 0, 0, 9, 0]] ++ List.replicate 60 [] ++ [fetch] ++
      List.replicate 16 [] ++ [fetch]
    let trace := (run (fun _ => [0x00#8, 0x00#8]) [] [] due 3).2.trace
    (controlPackets (trace.take 3) = [usbpidData1 :: withCrc (usbDescriptorDevice.take 8)] ∧
      controlPackets trace = [usbpidData1 :: withCrc (usbDescriptorConfiguration.take 8),
        usbpidData0 :: withCrc [usbDescriptorConfiguration.getD 8 0#8]]) ∧
    controlPackets (trace.take 3) <+: packetsFrom 1 (after (requests (trace.take 3))).blocks ∧
    controlPackets trace <+: packetsFrom 1 (after (requests trace)).blocks :=
  ⟨by decide +kernel, @requests_answered (fun _ => [0x00#8, 0x00#8])
      (fun _ => Nat.le_add_right 2 6) [] [] _ 3 _ (List.take_prefix 3 _),
    @requests_answered (fun _ => [0x00#8, 0x00#8]) (fun _ => Nat.le_add_right 2 6) [] [] _ 3 _
      (List.prefix_refl _)⟩

/-- After every round the device is configured as the requests that it has taken say, the next
address is the one that they have assigned since the last reset of the bus, and the device
listens to an address that one of the requests has assigned, or to none. -/
theorem requests_obeyed (hlen : ∀ n, (reports n).length ≤ 8) (samples calibrations : List Byte)
    (due : List (List (List Byte))) (n : Nat) :
    let b := (run reports samples calibrations due n).2
    let events := history reports samples calibrations due n
    requests b.trace = requestsOf events ++ waiting b.usb ∧
      b.usb.usbConfiguration = (afterEvents events).configuration ∧
      b.usb.usbNewDeviceAddr = (afterEvents events).address ∧
      ∃ rs, rs <+: requests b.trace ∧ b.usb.usbDeviceAddr = (after rs).address <<< 1 := by
  intro b events
  obtain ⟨⟨⟨sent, hattending, hanswers⟩, haddress⟩, -⟩ :=
    serving_run hlen samples calibrations due n
  refine ⟨hattending.requests_eq, ?_, haddress, hattending.address⟩
  rw [afterEvents_configuration]
  exact hanswers.configuration

/-- The host assigns an address, which takes effect, and then resets the bus. -/
theorem requests_obeyed_setAddress :
    let rq : List Byte := [0x00, 5, 7, 0, 0, 0, 0, 0]
    let reports : Nat → List Byte := fun _ => [0x00#8, 0x00#8]
    let samples := usbIdle :: List.replicate 20 0x00#8
    let due : List (List (List Byte)) :=
      [[usbpidSetup, 0x00#8, 0x10#8], usbpidData0 :: withCrc rq] :: List.replicate 30 [] ++
        [[[usbpidIn, 0x00#8, 0x10#8]]]
    (history reports samples [] due 1 = [.request rq] ∧
      (run reports samples [] due 1).2.usb.usbDeviceAddr = 14#8 ∧
      history reports samples [] due 2 = [.request rq, .reset] ∧
      (run reports samples [] due 2).2.usb.usbDeviceAddr = 0#8) ∧
    let b := (run reports samples [] due 2).2
    let events := history reports samples [] due 2
    requests b.trace = requestsOf events ++ waiting b.usb ∧
      b.usb.usbConfiguration = (afterEvents events).configuration ∧
      b.usb.usbNewDeviceAddr = (afterEvents events).address ∧
      ∃ rs, rs <+: requests b.trace ∧ b.usb.usbDeviceAddr = (after rs).address <<< 1 := by
  intro rq reports samples due
  constructor
  · decide +kernel +revert
  · exact @requests_obeyed reports (fun _ => Nat.le_add_right 2 6) samples [] due 2

end Results

end NesMiniAdapter.UsbMainLoop
