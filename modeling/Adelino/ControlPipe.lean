import Adelino.Endpoint
import Adelino.Descriptors

namespace Adelino.ControlPipe

open Adelino.Words Adelino.Endpoint Adelino.Descriptors

/-- `FIXED_CONTROL_ENDPOINT_SIZE` -/
def controlEndpointSize : Nat := 8

/-- `USB_Request_Header_t` -/
structure RequestHeader extends ControlRequest where
  wLength : UInt16
  deriving DecidableEq, Repr

namespace RequestHeader

def bytes (r : RequestHeader) : List UInt8 :=
  [r.bmRequestType, r.bRequest] ++ lowHigh r.wValue ++ lowHigh r.wIndex ++ lowHigh r.wLength

def ofBytes : List UInt8 → RequestHeader
  | [a, b, c, d, e, f, g, h] => ⟨⟨a, b, word c d, word e f⟩, word g h⟩
  | _ => ⟨⟨0, 0, 0, 0⟩, 0⟩

theorem ofBytes_bytes (r : RequestHeader) : ofBytes r.bytes = r := by
  simp only [bytes, lowHigh, List.cons_append, List.nil_append, ofBytes, word_lowHigh]

def deviceToHost (r : RequestHeader) : Bool := r.bmRequestType &&& 0x80 ≠ 0

end RequestHeader

/-- The single bank of endpoint 0: its flags, what is left of a packet that was
received, what has been written for the next IN packet, and the IN packet that
waits for the host. -/
structure ControlEndpoint where
  rxstpi : Bool
  rxouti : Bool
  stallrq : Bool
  received : List UInt8
  filling : List UInt8
  queued : Option (List UInt8)
  deriving DecidableEq, Repr

namespace ControlEndpoint

def idle : ControlEndpoint := ⟨false, false, false, [], [], none⟩

def txini (e : ControlEndpoint) : Bool := e.queued.isNone

def bytesInEndpoint (e : ControlEndpoint) : Nat :=
  if e.rxstpi || e.rxouti then e.received.length else e.filling.length

def read8 (e : ControlEndpoint) : UInt8 × ControlEndpoint :=
  match e.received with
  | [] => (0, e)
  | b :: bs => (b, { e with received := bs })

def write8 (b : UInt8) (e : ControlEndpoint) : ControlEndpoint :=
  if e.filling.length < controlEndpointSize then { e with filling := e.filling ++ [b] } else e

def clearSetup (e : ControlEndpoint) : ControlEndpoint :=
  if e.rxstpi then { e with rxstpi := false, received := [] } else e

def clearOut (e : ControlEndpoint) : ControlEndpoint :=
  if e.rxouti then { e with rxouti := false, received := [] } else e

def clearIn (e : ControlEndpoint) : ControlEndpoint :=
  if e.txini then { e with queued := some e.filling, filling := [] } else e

def stallTransaction (e : ControlEndpoint) : ControlEndpoint := { e with stallrq := true }

/-- A SETUP packet is always taken, and everything else gives way to it. -/
def setup (r : RequestHeader) : ControlEndpoint := { idle with rxstpi := true, received := r.bytes }

/-- An OUT packet that finds the bank free. What was written for the host to
read is lost, since it ends the data stage. -/
def receive (bytes : List UInt8) (e : ControlEndpoint) : ControlEndpoint :=
  { e with rxouti := true, received := bytes, filling := [], queued := none }

end ControlEndpoint

structure Transfer where
  header : RequestHeader
  data : List UInt8
  deriving DecidableEq, Repr

inductive Stage
  | dataIn (got : List UInt8)
  | statusOut (got : List UInt8)
  | dataOut (rest : List UInt8)
  | statusIn
  deriving DecidableEq, Repr

inductive Outcome
  | completed (got : List UInt8)
  | stalled
  deriving DecidableEq, Repr

namespace Transfer

variable (t : Transfer)

def wLength : Nat := t.header.wLength.toNat

def firstStage : Stage :=
  if t.wLength = 0 then .statusIn
  else if t.header.deviceToHost then .dataIn []
  else .dataOut t.data

/-- A short packet ends the data stage, and so does the last byte asked for. -/
def afterIn (short : Bool) (got : List UInt8) : Stage :=
  if short ∨ t.wLength ≤ got.length then .statusOut got else .dataIn got

def afterOut (rest : List UInt8) : Stage := if rest = [] then .statusIn else .dataOut rest

def isSetAddress : Bool := t.header.bmRequestType = 0x00 && t.header.bRequest = 0x05

def newAddress : UInt8 := t.header.wValue.toUInt8 &&& 0x7F

end Transfer

/-- The host: the transfers it is going to make, the one it is making, the
address it knows the device by, and how the transfers so far ended. -/
structure Host where
  pending : List Transfer
  current : Option (Transfer × Stage)
  address : UInt8
  log : List (Transfer × Outcome)
  deriving DecidableEq, Repr

namespace Host

/-- The address changes for the host when the status stage is over. -/
def finish (t : Transfer) (o : Outcome) (h : Host) : Host :=
  { h with
    current := none
    log := h.log ++ [(t, o)]
    address := if t.isSetAddress && o ≠ .stalled then t.newAddress else h.address }

def proceed (t : Transfer) (stage : Stage) (h : Host) : Host :=
  { h with current := some (t, stage) }

end Host

structure Wire where
  ep : ControlEndpoint
  host : Host
  deriving DecidableEq, Repr

namespace Wire

/-- The host tries the next transaction of its transfer. While a SETUP packet
has not been acknowledged by the program, the bank can neither send nor
receive. -/
def transact (w : Wire) (t : Transfer) (stage : Stage) : Wire :=
  if w.ep.rxstpi then w
  else if w.ep.stallrq then { w with host := w.host.finish t .stalled }
  else match stage with
    | .dataIn got =>
      match w.ep.queued with
      | none => w
      | some p =>
        { ep := { w.ep with queued := none }
          host := w.host.proceed t (t.afterIn (p.length < controlEndpointSize) (got ++ p)) }
    | .statusOut got =>
      if w.ep.rxouti then w
      else { ep := w.ep.receive [], host := w.host.finish t (.completed got) }
    | .dataOut rest =>
      if w.ep.rxouti then w
      else
        { ep := w.ep.receive (rest.take controlEndpointSize)
          host := w.host.proceed t (Transfer.afterOut (rest.drop controlEndpointSize)) }
    | .statusIn =>
      match w.ep.queued with
      | none => w
      | some p => { ep := { w.ep with queued := none }, host := w.host.finish t (.completed p) }

def token (address : UInt8) (w : Wire) : Wire :=
  match w.host.current with
  | none => w
  | some (t, stage) => if w.host.address = address then w.transact t stage else w

def nextSetup (address : UInt8) (w : Wire) : Option Wire :=
  match w.host.current, w.host.pending with
  | none, t :: ts =>
    if w.host.address = address then
      some
        { ep := .setup t.header
          host := { w.host with pending := ts, current := some (t, t.firstStage) } }
    else none
  | _, _ => none

end Wire

end Adelino.ControlPipe
