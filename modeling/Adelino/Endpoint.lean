import Mathlib.Data.List.Basic

namespace Adelino.Endpoint

def cdcTxRxEpSize : Nat := 16

inductive Ep
  | control
  | notification
  | tx
  | rx
  deriving DecidableEq, Repr

inductive DeviceState
  | unattached
  | powered
  | default
  | addressed
  | configured
  | suspended
  deriving DecidableEq, Repr

/-- What fits into one bank of the data endpoints. -/
abbrev Packet := { bytes : List UInt8 // bytes.length ≤ cdcTxRxEpSize }

structure ControlRequest where
  bmRequestType : UInt8
  bRequest : UInt8
  wValue : UInt16
  wIndex : UInt16
  deriving DecidableEq, Repr

/-- The USB controller with its two single-bank data endpoints. The last five
fields are history: bytes read from the OUT bank, bytes still in an OUT bank
when it was released, bytes written to an IN bank that could not take them,
reads of an empty OUT bank, and whether a packet has arrived since the OUT
endpoint was last selected. -/
structure Usb where
  deviceState : DeviceState
  uenum : Ep
  outBank : Option (List UInt8)
  hostOut : List Packet
  inBank : List UInt8
  inBusy : Bool
  hostIn : List (List UInt8)
  setup : List ControlRequest
  got : List UInt8
  discarded : List UInt8
  dropped : List UInt8
  underruns : Nat
  unseen : Bool

namespace Usb

def selectEndpoint (ep : Ep) (u : Usb) : Usb :=
  { u with uenum := ep, unseen := u.unseen && ep ≠ .rx }

def isOutReceived (u : Usb) : Bool := u.uenum = .rx && u.outBank.isSome

def bytesInEndpoint (u : Usb) : Nat :=
  match u.uenum with
  | .rx => (u.outBank.getD []).length
  | .tx => u.inBank.length
  | _ => 0

def clearOut (u : Usb) : Usb :=
  match u.uenum with
  | .rx => { u with outBank := none, discarded := u.discarded ++ u.outBank.getD [] }
  | _ => u

def read8 (u : Usb) : UInt8 × Usb :=
  match u.uenum, u.outBank with
  | .rx, some (b :: bank) => (b, { u with outBank := some bank, got := u.got ++ [b] })
  | _, _ => (0, { u with underruns := u.underruns + 1 })

def isReadWriteAllowed (u : Usb) : Bool :=
  match u.uenum with
  | .rx => !(u.outBank.getD []).isEmpty
  | .tx => !u.inBusy && u.inBank.length < cdcTxRxEpSize
  | _ => false

def isInReady (u : Usb) : Bool := u.uenum = .tx && !u.inBusy

def clearIn (u : Usb) : Usb :=
  match u.uenum with
  | .tx => { u with inBusy := true }
  | _ => u

def write8 (b : UInt8) (u : Usb) : Usb :=
  if u.uenum = .tx && u.isReadWriteAllowed then { u with inBank := u.inBank ++ [b] }
  else { u with dropped := u.dropped ++ [b] }

/-- `Endpoint_ResetEndpoint`: the bank is empty again, whoever filled it. -/
def resetEndpoint (ep : Ep) (u : Usb) : Usb :=
  match ep with
  | .rx => { u with outBank := none, discarded := u.discarded ++ u.outBank.getD [] }
  | .tx => { u with inBank := [], inBusy := false, dropped := u.dropped ++ u.inBank }
  | _ => u

/-- The host sends its next packet, which the controller takes only while the
OUT bank is free. -/
def outPacket (u : Usb) : Usb :=
  match u.outBank, u.hostOut with
  | none, p :: ps => { u with outBank := some p.1, hostOut := ps, unseen := true }
  | _, _ => u

/-- The host polls the IN endpoint and takes the bank if it was handed over. -/
def inTaken (u : Usb) : Usb :=
  if u.inBusy then { u with hostIn := u.hostIn ++ [u.inBank], inBank := [], inBusy := false }
  else u

def unread (u : Usb) : List UInt8 := u.outBank.getD [] ++ (u.hostOut.map (·.1)).flatten

/-- Everything the program has put into an IN bank. -/
def written (u : Usb) : List UInt8 := u.hostIn.flatten ++ u.inBank

end Usb

end Adelino.Endpoint
