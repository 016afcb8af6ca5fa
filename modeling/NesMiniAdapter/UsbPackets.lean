import NesMiniAdapter.UsbDriver

/-!
What one packet does to the driver, and what the bus shows of it: the data packets of
each endpoint and the requests of the host.
-/

namespace NesMiniAdapter.UsbPackets

open NesMiniAdapter.InterruptedProgram
open NesMiniAdapter.UsbCrc16
open NesMiniAdapter.UsbDriver

/-- Only the receiver's half of the buffer has changed. -/
def OwnHalf (u : Usb) (buf : Nat → Byte) : Prop :=
  ∀ i, i < u.usbInputBufOffset.toNat ∨ u.usbInputBufOffset.toNat + usbBufsize ≤ i →
    buf i = u.usbRxBuf i

/-- Nothing for the main program, and no packet of data from it. -/
def Quiet : Exchange → Prop
  | .stored _ _ => False
  | .sent _ _ => False
  | _ => True

/-- What one packet can do. -/
inductive Served (u : Usb) : Exchange → Usb → Prop
  | quiet (e : Exchange) (he : Quiet e) (buf : Nat → Byte) (hbuf : OwnHalf u buf)
      (tok : Byte) : Served u e { u with usbRxBuf := buf, usbCurrentTok := tok }
  | stored (buf : Nat → Byte) (hbuf : OwnHalf u buf) (data : List Byte) (hpos : 0 < data.length)
      (hlen : data.length ≤ 8) (hfree : u.usbRxLen = 0#8)
      (hdata : ∀ i < data.length,
        buf (u.usbInputBufOffset.toNat + 1 + i) = data.getD i 0#8) :
      Served u (.stored u.usbCurrentTok data)
        { u with
          usbRxBuf := buf
          usbRxLen := BitVec.ofNat 8 (data.length + 3)
          usbRxToken := u.usbCurrentTok
          usbInputBufOffset := 11#8 - u.usbInputBufOffset }
  | control (buf : Nat → Byte) (hbuf : OwnHalf u buf) (hrx : ¬ 1 ≤ u.usbRxLen.toInt)
      (hready : u.usbTxLen.getLsbD 4 = false) :
      Served u (.sent 0#8 (packetOf u.usbTxLen u.usbTxBuf))
        { u with
          usbRxBuf := buf
          usbTxLen := usbpidNak
          usbDeviceAddr := u.usbNewDeviceAddr <<< 1 }
  | interrupt (buf : Nat → Byte) (hbuf : OwnHalf u buf) (hrx : ¬ 1 ≤ u.usbRxLen.toInt)
      (endpoint : Byte) (hendpoint : endpoint ≠ 0#8)
      (hready : u.usbTxStatus1.len.getLsbD 4 = false) :
      Served u (.sent endpoint (packetOf u.usbTxStatus1.len u.usbTxStatus1.buffer))
        { u with
          usbRxBuf := buf
          usbTxStatus1 := ⟨usbpidNak, u.usbTxStatus1.buffer⟩
          usbDeviceAddr := u.usbNewDeviceAddr <<< 1 }

section Served

variable {u : Usb} {buf : Nat → Byte}

theorem ownHalf_receive (packet : List Byte) (u : Usb) : OwnHalf u (receive packet u).usbRxBuf := by
  intro i hi
  rcases hi with hi | hi
  · exact if_neg (by omega)
  · refine (if_pos (by omega)).trans ?_
    rw [List.getD_eq_default]
    simp only [List.length_take]
    omega

theorem served_ignorePacket (hbuf : OwnHalf u buf) :
    Served u (ignorePacket { u with usbRxBuf := buf }).1
      (ignorePacket { u with usbRxBuf := buf }).2 :=
  .quiet .ignored trivial buf hbuf _

theorem served_handleData (hbuf : OwnHalf u buf) {cnt : Nat} (hcnt : cnt ≤ usbBufsize) :
    Served u (handleData cnt { u with usbRxBuf := buf }).1
      (handleData cnt { u with usbRxBuf := buf }).2 := by
  unfold handleData
  split
  · exact .quiet .ignored trivial buf hbuf _
  split
  · exact .quiet .refused trivial buf hbuf _
  split
  · exact .quiet .acked trivial buf hbuf _
  · rename_i hrx hlong
    have hstored := Served.stored buf hbuf
      ((List.range (cnt - 3)).map fun i => buf (u.usbInputBufOffset.toNat + (1 + i)))
      (by simp; omega) (by simp; omega) (not_not.mp hrx) (by
        intro i hi
        simp at hi
        simp [List.getD_eq_getElem?_getD, hi, Nat.add_assoc])
    have hlen : cnt - 3 + 3 = cnt := by omega
    simp only [List.length_map, List.length_range, hlen] at hstored
    exact hstored

theorem served_handleIn (hbuf : OwnHalf u buf) (endpoint : Byte) :
    Served u (handleIn endpoint { u with usbRxBuf := buf }).1
      (handleIn endpoint { u with usbRxBuf := buf }).2 := by
  unfold handleIn
  split
  · exact .quiet (.handshake endpoint usbpidNak) trivial buf hbuf _
  rename_i hrx
  split
  · rename_i hendpoint
    unfold handleIn1
    split
    · exact .quiet (.handshake endpoint u.usbTxStatus1.len) trivial buf hbuf _
    · rename_i hready
      exact .interrupt buf hbuf hrx endpoint hendpoint (by simpa using hready)
  · rename_i hendpoint
    split
    · exact .quiet (.handshake endpoint u.usbTxLen) trivial buf hbuf _
    · rename_i hready
      obtain rfl : endpoint = 0#8 := not_not.mp hendpoint
      exact .control buf hbuf hrx (by simpa using hready)

theorem served_se0 (hbuf : OwnHalf u buf) {cnt : Nat} (hcnt : cnt ≤ usbBufsize) :
    Served u (se0 cnt { u with usbRxBuf := buf }).1 (se0 cnt { u with usbRxBuf := buf }).2 := by
  unfold se0
  dsimp only
  split
  · exact served_handleData hbuf hcnt
  split
  · exact served_ignorePacket hbuf
  split
  · exact served_handleIn hbuf _
  split
  · exact .quiet (.token (received { u with usbRxBuf := buf } 0)) trivial buf hbuf _
  · exact served_ignorePacket hbuf

/-- Every packet does one of these things. -/
theorem served (packet : List Byte) (u : Usb) :
    Served u (usbInterrupt packet u).1 (usbInterrupt packet u).2 := by
  have hbuf := ownHalf_receive packet u
  unfold usbInterrupt
  split
  · exact served_ignorePacket hbuf
  · exact served_se0 hbuf (by omega)

/-- No packet changes the next address. -/
theorem served_usbNewDeviceAddr {u' : Usb} {e : Exchange} (h : Served u e u') :
    u'.usbNewDeviceAddr = u.usbNewDeviceAddr := by
  cases h <;> rfl

end Served

section Trace

/-- The data packets sent for the interrupt endpoint. -/
def interruptPackets (trace : List Exchange) : List (List Byte) :=
  trace.filterMap fun
    | .sent endpoint packet => if endpoint = 0#8 then none else some packet
    | _ => none

/-- The requests that the host has made of the device. -/
def requests (trace : List Exchange) : List (List Byte) :=
  trace.filterMap fun
    | .stored token data => if token = usbpidSetup ∧ data.length = 8 then some data else none
    | _ => none

def controlStep (packets : List (List Byte)) : Exchange → List (List Byte)
  | .stored token data => if token = usbpidSetup ∧ data.length = 8 then [] else packets
  | .sent endpoint packet => if endpoint = 0#8 then packets ++ [packet] else packets
  | _ => packets

/-- The data packets sent for the control endpoint since the last request. -/
def controlPackets (trace : List Exchange) : List (List Byte) := trace.foldl controlStep []

variable {trace : List Exchange} {e : Exchange}

theorem interruptPackets_snoc : interruptPackets (trace ++ [e]) =
    interruptPackets trace ++ interruptPackets [e] := List.filterMap_append

theorem requests_snoc : requests (trace ++ [e]) = requests trace ++ requests [e] :=
  List.filterMap_append

theorem controlPackets_snoc :
    controlPackets (trace ++ [e]) = controlStep (controlPackets trace) e := by
  rw [controlPackets, List.foldl_append]
  rfl

theorem interruptPackets_quiet (h : Quiet e) :
    interruptPackets (trace ++ [e]) = interruptPackets trace := by
  rw [interruptPackets_snoc]
  cases e <;> first | exact List.append_nil _ | exact absurd h id

theorem requests_quiet (h : Quiet e) : requests (trace ++ [e]) = requests trace := by
  rw [requests_snoc]
  cases e <;> first | exact List.append_nil _ | exact absurd h id

theorem controlPackets_quiet (h : Quiet e) :
    controlPackets (trace ++ [e]) = controlPackets trace := by
  rw [controlPackets_snoc]
  cases e <;> first | rfl | exact absurd h id

theorem interruptPackets_stored {token : Byte} {data : List Byte} :
    interruptPackets (trace ++ [.stored token data]) = interruptPackets trace := by
  rw [interruptPackets_snoc]
  exact List.append_nil _

theorem interruptPackets_control {packet : List Byte} :
    interruptPackets (trace ++ [.sent 0#8 packet]) = interruptPackets trace := by
  rw [interruptPackets_snoc]
  exact List.append_nil _

theorem interruptPackets_sent {endpoint : Byte} {packet : List Byte} (h : endpoint ≠ 0#8) :
    interruptPackets (trace ++ [.sent endpoint packet]) = interruptPackets trace ++ [packet] := by
  have hone : interruptPackets [.sent endpoint packet] = [packet] := by
    simp [interruptPackets, h]
  rw [interruptPackets_snoc, hone]

theorem mem_requests_snoc {rq : List Byte} (h : rq ∈ requests trace) :
    rq ∈ requests (trace ++ [e]) := by
  rw [requests_snoc]
  exact List.mem_append_left _ h

end Trace

section DataPackets

/-- Data packets alternate between two identifiers. -/
def pid (n : Nat) : Byte := if n % 2 = 0 then usbpidData0 else usbpidData1

/-- A data packet with its identifier and its CRC. -/
def dataPacket (n : Nat) (data : List Byte) : List Byte := pid n :: withCrc data

def packetsFrom : Nat → List (List Byte) → List (List Byte)
  | _, [] => []
  | n, data :: rest => dataPacket n data :: packetsFrom (n + 1) rest

/-- The packet that waits for the host, if there is one. -/
def pending (len : Byte) (buffer : Nat → Byte) : List (List Byte) :=
  if len.getLsbD 4 then [] else [packetOf len buffer]

theorem pid_succ (n : Nat) : pid n ^^^ (usbpidData0 ^^^ usbpidData1) = pid (n + 1) := by
  rcases Nat.mod_two_eq_zero_or_one n with h | h
  · have hsucc : (n + 1) % 2 = 1 := by omega
    rw [pid, pid, h, hsucc]
    decide
  · have hsucc : (n + 1) % 2 = 0 := by omega
    rw [pid, pid, h, hsucc]
    decide

theorem pid_add_two (n : Nat) : pid (n + 2) = pid n := by
  rw [pid, pid, Nat.add_mod_right]

theorem packetsFrom_append (n : Nat) (first rest : List (List Byte)) :
    packetsFrom n (first ++ rest) = packetsFrom n first ++ packetsFrom (n + first.length) rest := by
  induction first generalizing n with
  | nil => rfl
  | cons data first ih =>
      rw [List.cons_append, packetsFrom, ih, packetsFrom, List.length_cons, Nat.add_right_comm,
        Nat.add_assoc, List.cons_append]

theorem length_packetsFrom (n : Nat) (datas : List (List Byte)) :
    (packetsFrom n datas).length = datas.length := by
  induction datas generalizing n with
  | nil => rfl
  | cons data datas ih => rw [packetsFrom, List.length_cons, ih, List.length_cons]

theorem pending_empty {len : Byte} {buffer : Nat → Byte} (h : len.getLsbD 4 = true) :
    pending len buffer = [] := by
  rw [pending, if_pos h]

theorem pending_full {len : Byte} {buffer : Nat → Byte} (h : len.getLsbD 4 = false) :
    pending len buffer = [packetOf len buffer] := by
  rw [pending, h]
  rfl

/-- `n` bytes of `data` behind the identifier. -/
def copied (buffer : Nat → Byte) (data : Nat → Byte) (n : Nat) : Nat → Byte :=
  fun i => if 1 ≤ i ∧ i < 1 + n then data (i - 1) else buffer i

theorem copied_zero (buffer data : Nat → Byte) : copied buffer data 0 = buffer := by
  funext i
  exact if_neg (by omega)

theorem update_copied (buffer data : Nat → Byte) (n : Nat) :
    Function.update (copied buffer data n) (1 + n) (data n) = copied buffer data (n + 1) := by
  funext i
  rcases eq_or_ne i (1 + n) with rfl | hi
  · simp [copied]
  · rw [Function.update_of_ne hi, copied, copied]
    exact if_congr (by omega) rfl rfl

theorem copied_first (buffer data : Nat → Byte) (n : Nat) : copied buffer data n 0 = buffer 0 :=
  if_neg (by omega)

theorem copied_data (buffer data : Nat → Byte) {n i : Nat} (h : i < n) :
    copied buffer data n (1 + i) = data i := by
  rw [copied, if_pos ⟨by omega, by omega⟩, Nat.add_sub_cancel_left]

/-- The buffer with the CRC behind `data`. -/
def finished (buffer : Nat → Byte) (data : List Byte) : Nat → Byte :=
  Function.update
    (Function.update buffer (1 + data.length) ((crc16 data).extractLsb' 0 8))
    (1 + data.length + 1) ((crc16 data).extractLsb' 8 8)

theorem finished_first (buffer : Nat → Byte) (data : List Byte) :
    finished buffer data 0 = buffer 0 := by
  rw [finished, Function.update_of_ne (by omega), Function.update_of_ne (by omega)]

theorem packetOf_finished {buffer : Nat → Byte} {data : List Byte} (hlen : data.length ≤ 8)
    (hdata : ∀ i < data.length, buffer (1 + i) = data.getD i 0#8) :
    packetOf (BitVec.ofNat 8 data.length + 4#8) (finished buffer data) =
      buffer 0 :: withCrc data := by
  have htoNat : (BitVec.ofNat 8 data.length + 4#8).toNat - 1 = data.length + 1 + 1 + 1 := by
    simp
    omega
  have hmid : (List.range data.length).map (finished buffer data ∘ Nat.succ) = data := by
    refine List.ext_getElem (by simp) ?_
    intro i hi hi'
    have h := hdata i hi'
    rw [List.getD_eq_getElem _ _ hi'] at h
    simp only [List.getElem_map, List.getElem_range, Function.comp_apply, finished,
      Nat.succ_eq_add_one]
    rw [Function.update_of_ne (by omega), Function.update_of_ne (by omega), Nat.add_comm i 1, h]
  have hlow : finished buffer data (data.length + 1) = (crc16 data).extractLsb' 0 8 := by
    rw [finished, Nat.add_comm 1, Function.update_of_ne (by omega), Function.update_self]
  have hhigh : finished buffer data (data.length + 1 + 1) = (crc16 data).extractLsb' 8 8 := by
    rw [finished, Nat.add_comm 1, Function.update_self]
  have hfirst := finished_first buffer data
  rw [packetOf, htoNat, List.range_succ, List.range_succ, List.range_succ_eq_map, withCrc]
  simp only [List.map_append, List.map_cons, List.map_map, List.map_nil, hmid, hlow, hhigh, hfirst,
    List.cons_append, List.append_assoc, List.nil_append]

theorem getLsbD_four_ofNat_add {n : Nat} (h : n ≤ 8) :
    (BitVec.ofNat 8 n + 4#8).getLsbD 4 = false := by
  apply Nat.testBit_lt_two_pow
  simp
  omega

end DataPackets

/-- The program owns both the bytes that it reads and the two bytes behind them. -/
theorem runs_usbCrc16Append {ω : Type} {P : ω → Bus → Prop} {read : Nat → Main Byte}
    {write : Nat → Byte → Main Unit} {data : Nat} {bytes : List Byte} {w w' w'' : ω}
    (hread : ∀ i < bytes.length, Runs P (read (data + i)) w (bytes.getD i 0#8) w)
    (hlow : Runs P (write (data + bytes.length) ((crc16 bytes).extractLsb' 0 8)) w () w')
    (hhigh : Runs P (write (data + bytes.length + 1) ((crc16 bytes).extractLsb' 8 8)) w' () w'') :
    Runs P (usbCrc16Append read write data bytes.length) w () w'' := by
  have hbytes : (List.range bytes.length).map (fun i => bytes.getD i 0#8) = bytes := by
    refine List.ext_getElem (by simp) ?_
    intro i hi hi'
    rw [List.getElem_map, List.getElem_range, List.getD_eq_getElem _ _ hi']
  have hloop := runs_forUpTo (fun _ => w) (fun i => bytes.getD i 0#8) hread
  rw [hbytes] at hloop
  exact runs_bind hloop (runs_bind hlow hhigh)

end NesMiniAdapter.UsbPackets
