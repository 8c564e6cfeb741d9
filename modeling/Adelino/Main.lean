import Adelino.Avr109
import Adelino.Esp8266

namespace Adelino.Main

open Adelino.Program Adelino.Flash Adelino.Machine Adelino.UsbBytes Adelino.Avr109 Adelino.Esp8266

def actStayIntoBootloader : UInt8 := ticksMs 1000

def actBootloaderTimeout : UInt8 := ticksMs 8000

def actResetEsp8266 : UInt8 := ticksMs 3000

def actReconfigureEsp8266 : UInt8 := ticksMs 5000

def actFactoryDefaults : UInt8 := ticksMs 5000

def bootKey : UInt16 := 0x7777

def putch (ch : UInt8) : Fw Unit := do
  .whileDo (test fun s => !s.udre1) (return ())
  writeUdr1 ch

def setLedControl (v : UInt8) : Fw Unit := onCore fun c => { c with ledControl := v }

def drainRingWith (take : Fw UInt8) : Fw Unit :=
  .whileDo (test fun s => s.ring.bufferIn ≠ s.ring.bufferOut) do
    let ch ← take
    usbWriteByte ch

def drainRing : Fw Unit := drainRingWith ringTake

def cdcInput (ch : UInt8) : Fw Unit :=
  if ch = slipEnd then
    esp8266Programmer
  else if ch = esc then
    avr109Programmer
  else if ch = 4 then do
    usbWriteByte (ascii '\\')
    usbWriteByte (ascii 'D')
    usbWriteByte (← .read (·.core.bootMode.byte))
  else
    putch ch

def cdcTask : Fw Unit := do
  drainRing
  usbFlush
  if ← usbByteAvailable then
    let ch ← usbReadByte
    cdcInput ch
    setLedControl 0xFF
  else
    return ()

def ledTask (s : State) : State :=
  if s.core.ledsEnabled = 0 then s
  else if s.core.ledControl = 0xFF then
    let counter := s.timer.ledCounter + 1
    let p := (counter >>> 8).toUInt8
    let p := if p > 127 then 254 - p else p
    let dark := counter.toUInt8 > p + p
    { s with
      timer.ledCounter := counter
      core.pins := { s.core.pins with portC7 := !dark, portD5 := dark } }
  else if s.timer.ledCounter > s.core.ledControl.toUInt16 then
    { s with
      timer.ledCounter := 0
      core.pins :=
        { s.core.pins with portC7 := !s.core.pins.portC7, portD5 := !s.core.pins.portD5 } }
  else s

def runTasks : Fw Unit := do
  cdcTask
  .modify ledTask

/-- Interrupts are off while the switch is read, and on afterwards. -/
def rstat : Fw Bool :=
  .act fun s =>
    (s.button, { s with core := observe (.rstat s.button) { s.core with sreg := true } })

def checkReset (ticks : UInt8) : Fw Bool := do
  setTimeout ticks
  .whileDo (do
    if ← timeoutRunning then
      rstat
    else
      return false) runTasks
  let pressed ← rstat
  note (.checkReset ticks pressed)
  return pressed

/-- What `start_sketch` leaves behind. -/
def launch (c : Core) : Core :=
  observe .startSketch
    { c with
      sreg := false, rxcie1 := false, timsk1 := false
      pins := { c.pins with portC7 := false, portD5 := false } }

def startSketch : Fw Unit := onCore launch

def setupHardware : Fw Unit := do
  onPins fun p => { p with ddrC7 := true }
  onPins fun p => { p with ddrD5 := true }
  lLed false
  actLed false
  onCore fun c => { c with rxcie1 := true }
  setTimsk1 true
  onCore fun c => { c with sreg := true }

/-- What the hardware leaves behind for `main` to find out why it runs. -/
structure Reset where
  mcusr : UInt8
  bootKeyPtrVal : UInt16

def setBootMode (m : BootMode) : Fw Unit := onCore fun c => { c with bootMode := m }

def classifyBoot (available : Bool) : Fw Unit := do
  let stay ← checkReset actStayIntoBootloader
  if stay || !available then
    setLedsEnabled BootMode.keepBootloader.byte
    setBootMode .keepBootloader
    if ← checkReset actResetEsp8266 then
      setBootMode .espReset
      resetEspAndWait false
      if ← checkReset actReconfigureEsp8266 then
        setBootMode .espReconfigure
        setLedControl (ticksMs 200)
        if ← checkReset actFactoryDefaults then
          setBootMode .espFactory
          setLedControl 1
        else
          return ()
      else
        return ()
    else
      return ()
  else
    setLedsEnabled BootMode.normalBoot.byte
    setBootMode .normalBoot
    setTimeout actBootloaderTimeout

/-- `boot_mode != BM_NORMAL_BOOT || Timeout` -/
def keepRunning : Fw Bool := do
  if ← test fun s => s.core.bootMode ≠ .normalBoot then
    return true
  else
    timeoutRunning

def bootloader (available : Bool) : Fw Unit := do
  setupHardware
  classifyBoot available
  .whileDo keepRunning runTasks
  startSketch

/-- `pgm_read_word(0) != 0xFFFF`, which `main` samples once. -/
def sketchAvailable (m : Memory) : Bool := m.pgmReadWord 0 ≠ 0xFFFF

def main (r : Reset) : Fw Unit := do
  let available ← test fun s => sketchAvailable s.core.mem
  if r.mcusr &&& 0x02 ≠ 0 then
    bootloader available
  else if r.mcusr &&& 0x01 ≠ 0 ∧ available then
    startSketch
  else if r.mcusr &&& 0x08 ≠ 0 ∧ r.bootKeyPtrVal ≠ bootKey ∧ available then
    startSketch
  else
    bootloader available

end Adelino.Main
