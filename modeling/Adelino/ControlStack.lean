import Adelino.Program
import Adelino.DescriptorBytes

namespace Adelino.ControlStack

open Adelino.Program Adelino.Endpoint Adelino.Descriptors Adelino.DescriptorBytes
  Adelino.ControlPipe

structure EndpointRegisters where
  epen : Bool
  stallrq : Bool
  uecfg0x : UInt8
  uecfg1x : UInt8
  deriving DecidableEq, Repr

/-- Bus state as `USB_GEN_vect` sees it: the level of VBUS, the interrupt
flags, and the two enable bits that change after initialisation. -/
structure Bus where
  deviceState : DeviceState
  vbus : Bool
  vbusti : Bool
  suspi : Bool
  wakeupi : Bool
  eorsti : Bool
  suspe : Bool
  wakeupe : Bool
  deriving DecidableEq, Repr

/-- What the program does to the bank of an endpoint: it resets the FIFO by UERST
or the data toggle by RSTDT, or it gives the memory back by UECFG1X. -/
inductive BankReset
  | fifo (n : UInt8)
  | dataToggle (n : UInt8)
  | memory (n : UInt8)
  deriving DecidableEq, Repr

/-- The registers and variables that control requests read and write. Those of
endpoint 0 that tell about its bank are on the wire; `resets` is history. -/
structure Variables where
  uenum : UInt8
  endpoints : UInt8 → EndpointRegisters
  udaddr : UInt8
  adden : Bool
  configurationNumber : UInt8
  controlRequest : RequestHeader
  lineEncoding : List UInt8
  rtsPulse : UInt8
  descriptor : DeviceDescriptor
  flash : Nat → UInt8
  resets : List BankReset

def Variables.address (d : Variables) : UInt8 := if d.adden then d.udaddr else 0

/-- `processing` and `calm` are history: whether a request is being processed,
and whether host and bus have let every request so far be processed in peace. -/
structure State where
  wire : Wire
  dev : Variables
  bus : Bus
  sreg : Bool
  processing : Bool
  calm : Bool

abbrev Stack := Prog State

section Configuration

/-- `Endpoint_BytesToEPSizeMask`, with `n` doublings to go at most. -/
def sizeMask (bytes : Nat) : Nat → Nat → UInt8 → UInt8
  | 0, _, mask => mask <<< 4
  | n + 1, checkBytes, mask =>
    if checkBytes < bytes then sizeMask bytes n (checkBytes <<< 1) (mask + 1) else mask <<< 4

def bytesToEpSizeMask (bytes : Nat) : UInt8 := sizeMask bytes 16 8 0

def uecfg0xData (type direction : UInt8) : UInt8 := type <<< 6 ||| if direction ≠ 0 then 1 else 0

def uecfg1xData (size : Nat) : UInt8 := 0x02 ||| bytesToEpSizeMask size

end Configuration

inductive Event
  | token
  | submit
  | giveUp
  | vbus (level : Bool)
  | suspend
  | wakeUp
  | busReset
  | usbGen
  deriving DecidableEq, Repr

section Interrupt

def setEndpoint (n : UInt8) (r : EndpointRegisters) (d : Variables) : Variables :=
  { d with endpoints := Function.update d.endpoints n r }

/-- What `Endpoint_ConfigureEndpoint` leaves behind. -/
def configured (type direction : UInt8) (size : Nat) (r : EndpointRegisters) : EndpointRegisters :=
  { r with epen := true, uecfg0x := uecfg0xData type direction, uecfg1x := uecfg1xData size }

def vbusChanged (s : State) : State :=
  { s with bus := { s.bus with
      vbusti := false, deviceState := if s.bus.vbus then .powered else .unattached } }

def suspended (s : State) : State :=
  { s with bus := { s.bus with suspe := false, wakeupe := true, deviceState := .suspended } }

def wokenUp (s : State) : State :=
  { s with bus := { s.bus with
      wakeupi := false, wakeupe := false, suspe := true
      deviceState :=
        if s.dev.configurationNumber ≠ 0 then .configured
        else if s.dev.adden then .configured else .powered } }

/-- The control endpoint is set up again and stays selected. -/
def endOfReset (s : State) : State :=
  { s with
    bus := { s.bus with
      eorsti := false, deviceState := .default, suspi := false, suspe := false, wakeupe := true }
    dev := { s.dev with
      configurationNumber := 0
      uenum := 0
      endpoints := Function.update s.dev.endpoints 0
        (configured epTypeControl endpointDirOut controlEndpointSize (s.dev.endpoints 0)) } }

/-- `ISR(USB_GEN_vect)` -/
def usbGen (s : State) : State :=
  let s := if s.bus.vbusti then vbusChanged s else s
  let s := if s.bus.suspi && s.bus.suspe then suspended s else s
  let s := if s.bus.wakeupi && s.bus.wakeupe then wokenUp s else s
  if s.bus.eorsti then endOfReset s else s

end Interrupt

/-- A bus reset takes the address and the endpoints away at once. -/
def busReset (s : State) : State :=
  { s with
    wire := { ep := .idle, host := { s.wire.host with current := none, address := 0 } }
    dev := { s.dev with
      udaddr := 0, adden := false, endpoints := fun n => { s.dev.endpoints n with epen := false } }
    bus.eorsti := true
    calm := false }

/-- Moves of the host and of the bus. A SETUP packet in the middle of a request
disturbs it, and so does a host that gives a transfer up. -/
def handle : Event → State → State
  | .token, s => { s with wire := s.wire.token s.dev.address }
  | .submit, s =>
    match s.wire.nextSetup s.dev.address with
    | none => s
    | some wire => { s with wire, calm := s.calm && !s.processing }
  | .giveUp, s => { s with wire.host.current := none, calm := false }
  | .vbus level, s => { s with bus := { s.bus with vbus := level, vbusti := true }, calm := false }
  | .suspend, s => { s with bus.suspi := true, calm := false }
  | .wakeUp, s => { s with bus := { s.bus with wakeupi := true, suspi := false } }
  | .busReset, s => busReset s
  | .usbGen, s => if s.sreg then usbGen s else s

section Accesses

def test (c : State → Bool) : Stack Bool := .read c

def onDev (f : Variables → Variables) : Stack Unit := .modify fun s => { s with dev := f s.dev }

def deviceState : Stack DeviceState := .read (·.bus.deviceState)

def setDeviceState (d : DeviceState) : Stack Unit :=
  .modify fun s => { s with bus.deviceState := d }

/-- Whether UENUM selects the control endpoint, whose flags UEINTX shows then. -/
def State.control (s : State) : Bool := s.dev.uenum = 0

def onControl (f : ControlEndpoint → ControlEndpoint) : Stack Unit :=
  .modify fun s => if s.control then { s with wire.ep := f s.wire.ep } else s

def selectEndpoint (n : UInt8) : Stack Unit := onDev fun d => { d with uenum := n }

def isSetupReceived : Stack Bool := test fun s => s.control && s.wire.ep.rxstpi

def isOutReceived : Stack Bool := test fun s => s.control && s.wire.ep.rxouti

def isInReady : Stack Bool := test fun s => s.control && s.wire.ep.txini

def bytesInEndpoint : Stack Nat :=
  .read fun s => if s.control then s.wire.ep.bytesInEndpoint else 0

def endpointRead8 : Stack UInt8 :=
  .act fun s =>
    if s.control then (s.wire.ep.read8.1, { s with wire.ep := s.wire.ep.read8.2 }) else (0, s)

def clearSetup : Stack Unit := onControl .clearSetup

def clearOut : Stack Unit := onControl .clearOut

def clearIn : Stack Unit := onControl .clearIn

def write8 (b : UInt8) : Stack Unit := onControl (.write8 b)

def setStallrq (stall : Bool) : Stack Unit :=
  .modify fun s =>
    if s.control then { s with wire.ep.stallrq := stall }
    else
      let r := s.dev.endpoints s.dev.uenum
      { s with dev := setEndpoint s.dev.uenum { r with stallrq := stall } s.dev }

def stallTransaction : Stack Unit := setStallrq true

def clearStall : Stack Unit := setStallrq false

def isStalled : Stack Bool :=
  test fun s => if s.control then s.wire.ep.stallrq else (s.dev.endpoints s.dev.uenum).stallrq

def isEnabled : Stack Bool := test fun s => (s.dev.endpoints s.dev.uenum).epen

def resetEndpoint (n : UInt8) : Stack Unit :=
  onDev fun d => { d with resets := d.resets ++ [.fifo n] }

def resetDataToggle : Stack Unit :=
  onDev fun d => { d with resets := d.resets ++ [.dataToggle d.uenum] }

end Accesses

section Streams

inductive StreamStatus
  | noError
  | hostAborted
  | deviceDisconnected
  | busSuspended
  deriving DecidableEq, Repr

def gone : DeviceState → Option StreamStatus
  | .unattached => some .deviceDisconnected
  | .suspended => some .busSuspended
  | _ => none

/-- The inner loop of a write, with `n` bytes in the bank. -/
def fill : List UInt8 → Nat → Stack (List UInt8 × Nat)
  | [], n => return ([], n)
  | b :: rest, n =>
    if n < controlEndpointSize then do
      write8 b
      fill rest (n + 1)
    else return (b :: rest, n)

/-- `Length || LastPacketFull` -/
def unsent (x : List UInt8 × Bool) : Bool := !x.1.isEmpty || x.2

def writeAgain (x : List UInt8 × Bool) : (List UInt8 × Bool) ⊕ Option StreamStatus :=
  if unsent x then .inl x else .inr none

def writePacket (rest : List UInt8) : Stack ((List UInt8 × Bool) ⊕ Option StreamStatus) := do
  let n ← bytesInEndpoint
  let (rest, n) ← fill rest n
  clearIn
  return writeAgain (rest, n = controlEndpointSize)

def writeTurn (x : List UInt8 × Bool) : Stack ((List UInt8 × Bool) ⊕ Option StreamStatus) := do
  match gone (← deviceState) with
  | some status => return .inr (some status)
  | none =>
    if ← isSetupReceived then
      return .inr (some .hostAborted)
    else if ← isOutReceived then
      return .inr none
    else if ← isInReady then
      writePacket x.1
    else
      return .inl x

def writeLoop (x : List UInt8 × Bool) : Stack (Option StreamStatus) :=
  if unsent x then .iter writeTurn x else return none

/-- The loop at the end of a write, which a SETUP packet does not end. -/
def awaitOut : Stack StreamStatus :=
  .iter (fun _ => do
    if ← isOutReceived then
      return .inr .noError
    else
      match gone (← deviceState) with
      | some status => return .inr status
      | none => return .inl ()) ()

/-- `Endpoint_Write_Control_Stream_LE` -/
def writeControlStream (buffer : List UInt8) : Stack StreamStatus := do
  let wLength ← .read (·.dev.controlRequest.wLength.toNat)
  .when (buffer.length ≤ wLength && buffer.isEmpty) clearIn
  match ← writeLoop (buffer.take wLength, false) with
  | some status => return status
  | none => awaitOut

def storeByte (i : Nat) (b : UInt8) (d : Variables) : Variables :=
  { d with lineEncoding := d.lineEncoding.set i b }

/-- The inner loop of a read into `LineEncoding`, at offset `i`. -/
def takeBytes (length : Nat) (i : Nat) : Stack Nat :=
  .iter (fun i => do
    if (← bytesInEndpoint) ≠ 0 then
      let b ← endpointRead8
      onDev (storeByte i b)
      return if i + 1 < length then .inl (i + 1) else .inr (i + 1)
    else
      return .inr i) i

def readPacket (length : Nat) (i : Nat) : Stack (Nat ⊕ Option StreamStatus) := do
  let i ← takeBytes length i
  clearOut
  return if i < length then .inl i else .inr none

def readTurn (length : Nat) (i : Nat) : Stack (Nat ⊕ Option StreamStatus) := do
  match gone (← deviceState) with
  | some status => return .inr (some status)
  | none =>
    if ← isSetupReceived then
      return .inr (some .hostAborted)
    else if ← isOutReceived then
      readPacket length i
    else
      return .inl i

def awaitIn : Stack StreamStatus :=
  .iter (fun _ => do
    if ← isInReady then
      return .inr .noError
    else
      match gone (← deviceState) with
      | some status => return .inr status
      | none => return .inl ()) ()

/-- `Endpoint_Read_Control_Stream_LE`, called for `LineEncoding` only. -/
def readControlStream (length : Nat) : Stack StreamStatus := do
  .when (length = 0) clearOut
  match ← (if 0 < length then .iter (readTurn length) 0 else return none) with
  | some status => return status
  | none => awaitIn

/-- Wait for a flag of the status stage, or for the device to be unplugged. -/
def awaitStatus (flag : Stack Bool) : Stack Bool :=
  .iter (fun _ => do
    if ← flag then
      return .inr true
    else if (← deviceState) = .unattached then
      return .inr false
    else
      return .inl ()) ()

/-- `Endpoint_ClearStatusStage` -/
def clearStatusStage : Stack Unit := do
  if ← test (·.dev.controlRequest.deviceToHost) then
    .when (← awaitStatus isOutReceived) clearOut
  else
    .when (← awaitStatus isInReady) clearIn

end Streams

section Requests

variable (r : RequestHeader)

/-- `Endpoint_ConfigureEndpoint` with `ORDERED_EP_CONFIG` and a single bank. -/
def configureEndpoint (number type direction : UInt8) (size : Nat) : Stack Unit := do
  selectEndpoint number
  onDev fun d => setEndpoint d.uenum { d.endpoints d.uenum with epen := true } d
  onDev fun d =>
    { setEndpoint d.uenum { d.endpoints d.uenum with uecfg1x := 0 } d with
      resets := d.resets ++ [.memory d.uenum] }
  onDev fun d =>
    setEndpoint d.uenum { d.endpoints d.uenum with uecfg0x := uecfg0xData type direction } d
  onDev fun d => setEndpoint d.uenum { d.endpoints d.uenum with uecfg1x := uecfg1xData size } d

/-- `EVENT_USB_Device_ConfigurationChanged` -/
def eventConfigurationChanged : Stack Unit := do
  configureEndpoint cdcNotificationEpnum epTypeInterrupt endpointDirIn cdcNotificationEpsize
  configureEndpoint cdcTxEpnum epTypeBulk endpointDirIn cdcTxRxEpSize
  configureEndpoint cdcRxEpnum epTypeBulk endpointDirOut cdcTxRxEpSize

def sizeofLineEncoding : Nat := 7

def getLineEncoding : Stack Unit := do
  clearSetup
  let _ ← writeControlStream (← .read (·.dev.lineEncoding))
  clearOut

def setLineEncoding : Stack Unit := do
  clearSetup
  let _ ← readControlStream sizeofLineEncoding
  clearIn

def setControlLineState : Stack Unit := do
  clearSetup
  clearStatusStage
  onDev fun d => { d with rtsPulse := d.rtsPulse ||| (r.wValue &&& 2).toUInt8 }

/-- `EVENT_USB_Device_ControlRequest` -/
def eventControlRequest : Stack Unit :=
  if r.bmRequestType &&& 0x7F ≠ 0x21 then return ()
  else if r.bRequest = 0x21 then .when (r.bmRequestType = 0xA1) getLineEncoding
  else if r.bRequest = 0x20 then .when (r.bmRequestType = 0x21) setLineEncoding
  else if r.bRequest = 0x22 then .when (r.bmRequestType = 0x21) (setControlLineState r)
  else return ()

/-- ADDEN keeps its value until the address is in place. -/
def setDeviceAddress (a : UInt8) : Stack Unit := do
  onDev fun d => { d with udaddr := a }
  onDev fun d => { d with adden := true }

def usbDeviceSetAddress : Stack Unit := do
  let deviceAddress := r.wValue.toUInt8 &&& 0x7F
  let currentGlobalInt ← test (·.sreg)
  .modify fun s => { s with sreg := false }
  clearSetup
  clearStatusStage
  .whileDo (do return !(← isInReady)) (return ())
  setDeviceAddress deviceAddress
  setDeviceState (if deviceAddress ≠ 0 then .addressed else .default)
  .modify fun s => { s with sreg := currentGlobalInt }

/-- `FIXED_NUM_CONFIGURATIONS` -/
def numConfigurations : UInt8 := 1

def configuredState : Stack DeviceState := do
  if ← test (·.dev.configurationNumber ≠ 0) then
    return .configured
  else if ← test (·.dev.adden) then
    return .configured
  else
    return .powered

def usbDeviceSetConfiguration : Stack Unit :=
  if r.wValue.toUInt8 > numConfigurations then return ()
  else do
    clearSetup
    onDev fun d => { d with configurationNumber := r.wValue.toUInt8 }
    clearStatusStage
    setDeviceState (← configuredState)
    eventConfigurationChanged

def usbDeviceGetConfiguration : Stack Unit := do
  clearSetup
  write8 (← .read (·.dev.configurationNumber))
  clearIn
  clearStatusStage

def getDescriptor : Stack Response :=
  .act fun s =>
    let (response, descriptor) :=
      callbackUsbGetDescriptor ⟨s.dev.flash, r.wValue, r.wIndex.toUInt8⟩ s.dev.descriptor
    (response, { s with dev.descriptor := descriptor })

/-- A descriptor of size zero is none at all. -/
def usbDeviceGetDescriptor : Stack Unit := do
  let response ← getDescriptor r
  match response.address with
  | none => return ()
  | some descriptor =>
    if response.size = 0 then return ()
    else
      clearSetup
      let _ ← writeControlStream ((descriptorBytes descriptor).take response.size)
      clearOut

/-- `wIndex & ENDPOINT_EPNUM_MASK` -/
def endpointIndex : UInt8 := r.wIndex.toUInt8 &&& 0x07

/-- The status of the device is left out by `NO_DEVICE_SELF_POWER` and
`NO_DEVICE_REMOTE_WAKEUP`. -/
def usbDeviceGetStatus : Stack Unit :=
  if r.bmRequestType = 0x82 then do
    selectEndpoint (endpointIndex r)
    let currentStatus ← isStalled
    selectEndpoint 0
    clearSetup
    write8 (if currentStatus then 1 else 0)
    write8 0
    clearIn
    clearStatusStage
  else return ()

def clearHalt : Stack Unit := do
  clearStall
  resetEndpoint (endpointIndex r)
  resetDataToggle

/-- The halt feature of an enabled endpoint; every other feature and every
other endpoint than the control endpoint is acknowledged without effect. -/
def setEndpointHalt : Stack Unit := do
  selectEndpoint (endpointIndex r)
  if ← isEnabled then
    if r.bRequest = 0x03 then stallTransaction else clearHalt r
  else return ()

def usbDeviceClearSetFeature : Stack Unit :=
  if r.bmRequestType &&& 0x1F = 0x02 then
    if r.wValue.toUInt8 = 0 ∧ endpointIndex r = 0 then return ()
    else do
      .when (r.wValue.toUInt8 = 0) (setEndpointHalt r)
      selectEndpoint 0
      clearSetup
      clearStatusStage
  else return ()

/-- The `switch` over the standard requests. -/
def standardRequest : Stack Unit :=
  if r.bRequest = 0x00 then
    .when (r.bmRequestType = 0x80 ∨ r.bmRequestType = 0x82) (usbDeviceGetStatus r)
  else if r.bRequest = 0x01 ∨ r.bRequest = 0x03 then
    .when (r.bmRequestType = 0x00 ∨ r.bmRequestType = 0x02) (usbDeviceClearSetFeature r)
  else if r.bRequest = 0x05 then .when (r.bmRequestType = 0x00) (usbDeviceSetAddress r)
  else if r.bRequest = 0x06 then
    .when (r.bmRequestType = 0x80 ∨ r.bmRequestType = 0x81) (usbDeviceGetDescriptor r)
  else if r.bRequest = 0x08 then .when (r.bmRequestType = 0x80) usbDeviceGetConfiguration
  else if r.bRequest = 0x09 then .when (r.bmRequestType = 0x00) (usbDeviceSetConfiguration r)
  else return ()

def readBytes : Nat → Stack (List UInt8)
  | 0 => return []
  | n + 1 => do
    let b ← endpointRead8
    return b :: (← readBytes n)

def setProcessing (p : Bool) : Stack Unit := .modify fun s => { s with processing := p }

/-- The end of `USB_Device_ProcessControlRequest`: what nobody has acknowledged
is refused. -/
def refuse : Stack Unit := do
  .when (← isSetupReceived) do
    stallTransaction
    clearSetup

/-- The firmware comes first, then the library. -/
def processRequest : Stack Unit := do
  eventControlRequest r
  .when (← isSetupReceived) (standardRequest r)
  refuse

/-- `USB_Device_ProcessControlRequest` -/
def usbDeviceProcessControlRequest : Stack Unit := do
  setProcessing true
  let header ← readBytes 8
  onDev fun d => { d with controlRequest := .ofBytes header }
  processRequest (← .read (·.dev.controlRequest))
  setProcessing false

/-- `USB_USBTask`, which is `USB_DeviceTask` with `USB_DEVICE_ONLY`. -/
def usbUsbTask : Stack Unit := do
  if (← deviceState) ≠ .unattached then
    let prevEndpoint ← .read (·.dev.uenum)
    selectEndpoint 0
    .when (← isSetupReceived) usbDeviceProcessControlRequest
    selectEndpoint prevEndpoint
  else
    return ()

end Requests

end Adelino.ControlStack
