import Adelino.Machine

namespace Adelino.UsbBytes

open Adelino.Program Adelino.Endpoint Adelino.Machine

/-- `EVENT_USB_Device_ControlRequest`. The two line encoding requests only
move the `LineEncoding` record, which nothing else looks at. -/
def eventControlRequest (r : ControlRequest) (l : Line) : Line :=
  if r.bmRequestType &&& 0x7F ≠ 0x21 then l
  else if r.bRequest = 0x22 ∧ r.bmRequestType = 0x21 then
    let rts := (r.wValue &&& 2).toUInt8
    { rtsPulse := l.rtsPulse ||| rts
      rtsRequests := if rts ≠ 0 then l.rtsRequests + 1 else l.rtsRequests }
  else l

/-- `USB_USBTask` as one step, which leaves the selected endpoint as it found it.
Requests that reset a data endpoint are left out here. -/
def usbTask : Fw Unit :=
  .modify fun s =>
    if s.usb.deviceState = .unattached then s
    else match s.usb.setup with
      | [] => s
      | r :: rs => { s with usb.setup := rs, line := eventControlRequest r s.line }

/-- `CDC_TX_EPNUM` and `CDC_RX_EPNUM` -/
def epnum : Ep → UInt8
  | .control => 0
  | .notification => 2
  | .tx => 3
  | .rx => 4

/-- The requests that empty the bank of an endpoint in use: a configuration
allocates its memory anew, and the end of a halt resets it. -/
def resets (r : ControlRequest) (ep : Ep) : Bool :=
  r.bmRequestType = 0x00 && r.bRequest = 0x09 && r.wValue.toUInt8 ≤ 1 ||
    r.bmRequestType = 0x02 && r.bRequest = 0x01 && r.wValue.toUInt8 = 0 &&
      r.wIndex.toUInt8 &&& 0x07 = epnum ep

def resetEndpoints (r : ControlRequest) (u : Usb) : Usb :=
  let u := if resets r .tx then u.resetEndpoint .tx else u
  if resets r .rx then u.resetEndpoint .rx else u

/-- `USB_USBTask` as one step, with what requests do to the data endpoints. -/
def usbTaskResetting : Fw Unit :=
  .modify fun s =>
    if s.usb.deviceState = .unattached then s
    else match s.usb.setup with
      | [] => s
      | r :: rs =>
        { s with
          usb := { resetEndpoints r s.usb with setup := rs }
          line := eventControlRequest r s.line }

def selectEndpoint (ep : Ep) : Fw Unit := onUsb (Usb.selectEndpoint ep)

def endpointRead8 : Fw UInt8 :=
  .act fun s => (s.usb.read8.1, { s with usb := s.usb.read8.2 })

def usbByteAvailableWith (task : Fw Unit) : Fw Bool := do
  task
  selectEndpoint .rx
  if ← test (·.usb.isOutReceived) then
    if (← .read (·.usb.bytesInEndpoint)) ≠ 0 then
      return true
    else
      onUsb Usb.clearOut
      return false
  else
    return false

def usbByteAvailable : Fw Bool := usbByteAvailableWith usbTask

def endpointDetached : Fw Bool := do
  if ← timeoutRunning then
    test (·.usb.deviceState = .unattached)
  else
    return true

def usbReadByte : Fw UInt8 :=
  .iter (fun _ => do
    if ← usbByteAvailable then
      return .inr (← endpointRead8)
    else if ← endpointDetached then
      return .inr 0
    else
      return .inl ()) ()

def usbFlushEndpoint : Fw Unit := do
  onUsb Usb.clearIn
  .iter (fun _ => do
    if ← test (·.usb.isInReady) then
      return .inr ()
    else if ← endpointDetached then
      return .inr ()
    else
      return .inl ()) ()

def usbFlush : Fw Unit := do
  selectEndpoint .tx
  if (← .read (·.usb.bytesInEndpoint)) = 0 then
    return ()
  else
    .when (!(← test (·.usb.isReadWriteAllowed))) usbFlushEndpoint
    usbFlushEndpoint

def usbWriteByteWith (task : Fw Unit) (response : UInt8) : Fw Unit := do
  task
  selectEndpoint .tx
  .when (!(← test (·.usb.isReadWriteAllowed))) usbFlushEndpoint
  onUsb (Usb.write8 response)

def usbWriteByte : UInt8 → Fw Unit := usbWriteByteWith usbTask

def usbWriteBytes : List UInt8 → Fw Unit
  | [] => return ()
  | b :: bs => do
    usbWriteByte b
    usbWriteBytes bs

end Adelino.UsbBytes
