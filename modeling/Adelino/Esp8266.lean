import Adelino.UsbBytes

namespace Adelino.Esp8266

open Adelino.Program Adelino.Uart Adelino.Machine Adelino.UsbBytes

def espProgrammerTimeout : UInt8 := ticksMs 3000

def usbCommTimeout : UInt8 := ticksMs 250

def slipEnd : UInt8 := 0xC0

def onPins (f : Pins → Pins) : Fw Unit := onCore fun c => { c with pins := f c.pins }

def lLed (on : Bool) : Fw Unit := onPins fun p => { p with portC7 := on }

def actLed (on : Bool) : Fw Unit := onPins fun p => { p with portD5 := on }

/-- Levels are set before directions, and CHIP_EN goes low only after both
straps are in place. -/
def resetEsp (programMode : Bool) : Fw Unit := do
  onPins fun p => { p with portB0 := false }
  onPins fun p => { p with ddrB0 := true }
  onPins fun p => { p with portC7 := !programMode }
  onPins fun p => { p with ddrC7 := true }
  onPins fun p => { p with portE2 := false }
  onPins fun p => { p with ddrE2 := true }
  onPins fun p => { p with portE2 := true }

def setLedsEnabled (v : UInt8) : Fw Unit := onCore fun c => { c with ledsEnabled := v }

def resetEspAndWaitWith (task : Fw Unit) (programMode : Bool) : Fw Unit := do
  setLedsEnabled 0
  actLed true
  lLed true
  resetEsp programMode
  setTimeout (ticksMs 350)
  .whileDo timeoutRunning task
  setLedsEnabled 1
  onRing Ring.resetOut
  onRing Ring.resetIn

def resetEspAndWait : Bool → Fw Unit := resetEspAndWaitWith usbTask

/-- `ch = buffer [buffer_out++]`, the read before the increment. -/
def ringTake : Fw UInt8 := do
  let ch ← .read fun s => s.ring.buffer s.ring.bufferOut
  onRing (Ring.advance ch)
  return ch

def writeUdr1 (ch : UInt8) : Fw Unit :=
  .modify fun s => { s with udre1 := false, core.udr := s.core.udr ++ [ch] }

/-- One turn of the wait for the ROM bootloader to fall silent. -/
def espWaitTurn : Fw Unit := do
  note .espWait
  if ← test fun s => s.ring.bufferIn ≠ 0 then
    onRing Ring.resetIn
    setTimeout usbCommTimeout
  else
    return ()

def noteSlipFlushed : Fw Unit :=
  .modify fun s => { s with core := observe (.slipFlushed s.usb.inBank.length) s.core }

section Bridge

variable (task : Fw Unit) (take : Fw UInt8)

def espToUsbWith : Fw UInt8 := do
  if ← test fun s => s.ring.bufferIn ≠ s.ring.bufferOut then
    let ch ← take
    usbWriteByteWith task ch
    return ch
  else
    return 0

def usbToEspWith : Fw Unit := do
  if ← test (·.udre1) then
    if ← usbByteAvailableWith task then
      writeUdr1 (← endpointRead8)
    else
      return ()
  else
    return ()

def espTurnWith : Fw Unit := do
  setTimeout usbCommTimeout
  let ch ← espToUsbWith task take
  .when (ch = slipEnd) do
    usbFlush
    noteSlipFlushed
  usbToEspWith task

/-- `ESP8266_programmer` up to the end of its second loop. -/
def espSessionWith : Fw Unit := do
  onRing Ring.resetOut
  resetEsp true
  setTimeout espProgrammerTimeout
  .whileDo timeoutRunning espWaitTurn
  .modify fun s => { s with line.rtsPulse := 0 }
  note .espLoop
  .whileDo (test fun s => s.line.rtsPulse = 0) (espTurnWith task take)

def esp8266ProgrammerWith : Fw Unit := do
  espSessionWith task take
  resetEspAndWaitWith task false

end Bridge

def espToUsb : Fw UInt8 := espToUsbWith usbTask ringTake

def usbToEsp : Fw Unit := usbToEspWith usbTask

def espTurn : Fw Unit := espTurnWith usbTask ringTake

def espLoop : Fw Unit := .whileDo (test fun s => s.line.rtsPulse = 0) espTurn

def espSession : Fw Unit := espSessionWith usbTask ringTake

def esp8266Programmer : Fw Unit := esp8266ProgrammerWith usbTask ringTake

end Adelino.Esp8266
