import NesMiniAdapter.UsbDriver

/-!
The device as the host should see it: what it answers to the requests that have been made
of it, whatever packets carry them.
-/

namespace NesMiniAdapter.UsbDevice

open NesMiniAdapter.UsbDriver

inductive StandardRequest where
  | getStatus
  | setAddress (address : Byte)
  | getDescriptor (kind index : Byte)
  | getConfiguration
  | setConfiguration (value : Byte)
  | getInterface
  | setInterface
  | other
  deriving DecidableEq, Repr

def decode (bRequest valueLow valueHigh : Byte) : StandardRequest :=
  match bRequest.toNat with
  | 0 => .getStatus
  | 5 => .setAddress valueLow
  | 6 => .getDescriptor valueHigh valueLow
  | 8 => .getConfiguration
  | 9 => .setConfiguration valueLow
  | 10 => .getInterface
  | 11 => .setInterface
  | _ => .other

/-- A request as the eight bytes of a setup packet; a class or a vendor request is none of
the standard ones. -/
def standardRequest (rq : List Byte) : StandardRequest :=
  if rq.getD bmRequestType 0#8 &&& usbrqTypeMask = usbrqTypeStandard then
    decode (rq.getD bRequest 0#8) (rq.getD wValueLow 0#8) (rq.getD wValueHigh 0#8)
  else .other

/-- How many bytes the host wants. -/
def wLength (rq : List Byte) : Nat :=
  (rq.getD wLengthLow 0#8).toNat + 256 * (rq.getD wLengthHigh 0#8).toNat

def stringWithIndex (index : Byte) : List Byte :=
  match index.toNat with
  | 0 => usbDescriptorString0
  | 1 => usbDescriptorStringVendor
  | 2 => usbDescriptorStringDevice
  | _ => []

def descriptor (kind index : Byte) : List Byte :=
  match kind.toNat with
  | 1 => usbDescriptorDevice
  | 2 => usbDescriptorConfiguration
  | 3 => stringWithIndex index
  | 0x21 => (usbDescriptorConfiguration.drop 18).take 9
  | 0x22 => usbHidReportDescriptor
  | _ => []

structure Device where
  address : Byte
  configuration : Byte
  /-- The answer to the last request. -/
  reply : Option (List Byte)

def Device.assign (address : Byte) : StandardRequest → Byte
  | .setAddress address => address
  | _ => address

def Device.configure (configuration : Byte) : StandardRequest → Byte
  | .setConfiguration value => value
  | _ => configuration

def Device.answer (configuration : Byte) : StandardRequest → List Byte
  | .getStatus => [0#8, 0#8]
  | .getDescriptor kind index => descriptor kind index
  | .getConfiguration => [configuration]
  | .getInterface => [0#8]
  | _ => []

/-- An answer is cut to the length that the host wants. -/
def replyTo (configuration : Byte) (rq : List Byte) : List Byte :=
  (Device.answer configuration (standardRequest rq)).take (wLength rq)

def Device.request (d : Device) (rq : List Byte) : Device where
  address := Device.assign d.address (standardRequest rq)
  configuration := Device.configure d.configuration (standardRequest rq)
  reply := some (replyTo d.configuration rq)

/-- The device after the requests, from power-up. -/
def after (requests : List (List Byte)) : Device := requests.foldl Device.request ⟨0#8, 0#8, none⟩

/-- What concerns the device: a request that it takes, or a reset of the bus. -/
inductive Event where
  | request (rq : List Byte)
  | reset
  deriving DecidableEq, Repr

def Device.serve (d : Device) : Event → Device
  | .request rq => d.request rq
  | .reset => { d with address := 0#8 }

def afterEvents (events : List Event) : Device := events.foldl Device.serve ⟨0#8, 0#8, none⟩

def requestsOf (events : List Event) : List (List Byte) :=
  events.filterMap fun
    | .request rq => some rq
    | .reset => none

/-- The data of a transfer in packets of eight bytes; the last one is short, if need be empty. -/
def blocks (data : List Byte) : List (List Byte) :=
  (List.range (data.length / 8 + 1)).map fun i => (data.drop (8 * i)).take 8

def Device.blocks (d : Device) : List (List Byte) := d.reply.elim [] UsbDevice.blocks

theorem length_descriptor (kind index : Byte) : (descriptor kind index).length ≤ 56 := by
  unfold descriptor stringWithIndex
  split
  · decide
  · decide
  · split
    all_goals decide
  all_goals decide

theorem length_answer (configuration : Byte) (r : StandardRequest) :
    (Device.answer configuration r).length ≤ 56 := by
  cases r with
  | getDescriptor kind index => exact length_descriptor kind index
  | getStatus => exact Nat.le_add_right 2 54
  | getConfiguration => exact Nat.le_add_right 1 55
  | getInterface => exact Nat.le_add_right 1 55
  | _ => exact Nat.zero_le 56

theorem replyTo_begin (configuration : Byte) (rq : List Byte) :
    replyTo configuration rq <+: Device.answer configuration (standardRequest rq) :=
  List.take_prefix _ _

theorem length_replyTo (configuration : Byte) (rq : List Byte) :
    (replyTo configuration rq).length ≤ 56 :=
  (replyTo_begin configuration rq).length_le.trans (length_answer configuration _)

theorem after_snoc (rs : List (List Byte)) (rq : List Byte) :
    after (rs ++ [rq]) = (after rs).request rq := by
  rw [after, List.foldl_append]
  rfl

theorem afterEvents_snoc (events : List Event) (e : Event) :
    afterEvents (events ++ [e]) = (afterEvents events).serve e := by
  rw [afterEvents, List.foldl_append]
  rfl

theorem requestsOf_append (events events' : List Event) :
    requestsOf (events ++ events') = requestsOf events ++ requestsOf events' :=
  List.filterMap_append

theorem requestsOf_map (rs : List (List Byte)) : requestsOf (rs.map Event.request) = rs := by
  induction rs with
  | nil => rfl
  | cons rq rs ih => exact congrArg (rq :: ·) ih

/-- A reset changes nothing but the address. -/
theorem afterEvents_configuration (events : List Event) :
    (afterEvents events).configuration = (after (requestsOf events)).configuration := by
  induction events using List.reverseRecOn with
  | nil => rfl
  | append_singleton events e ih =>
      rw [afterEvents_snoc, requestsOf_append]
      cases e with
      | request rq =>
          have hone : requestsOf [Event.request rq] = [rq] := rfl
          rw [hone, after_snoc, Device.serve, Device.request, Device.request, ih]
      | reset =>
          have hnone : requestsOf [Event.reset] = [] := rfl
          rw [hnone, List.append_nil]
          exact ih

theorem length_blocks (data : List Byte) : (blocks data).length = data.length / 8 + 1 := by
  simp [blocks]

theorem take_succ_blocks (data : List Byte) {k : Nat} (hk : k ≤ data.length / 8) :
    (blocks data).take (k + 1) = (blocks data).take k ++ [(data.drop (8 * k)).take 8] := by
  rw [List.take_succ_eq_append_getElem (by rw [length_blocks]; omega)]
  simp [blocks]

theorem flatten_take_blocks (data : List Byte) (k : Nat) (hk : k ≤ data.length / 8 + 1) :
    ((blocks data).take k).flatten = data.take (8 * k) := by
  induction k with
  | zero => rfl
  | succ k ih =>
      rw [take_succ_blocks data (by omega), List.flatten_append, ih (by omega),
        List.flatten_singleton, Nat.mul_succ, List.take_add]

/-- The host gets the data from the packets. -/
theorem flatten_blocks (data : List Byte) : (blocks data).flatten = data := by
  have h := flatten_take_blocks data (data.length / 8 + 1) le_rfl
  rw [← length_blocks, List.take_length, length_blocks, List.take_of_length_le (by omega)] at h
  exact h

end NesMiniAdapter.UsbDevice
