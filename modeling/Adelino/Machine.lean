import Adelino.Program
import Adelino.Flash
import Adelino.Endpoint
import Adelino.Uart

namespace Adelino.Machine

open Adelino.Program Adelino.Flash Adelino.Endpoint Adelino.Uart

/-- `TICKS_MS`: timer 1 runs at 20 Hz. -/
def ticksMs (ms : Nat) : UInt8 := (ms / 50).toUInt8

def ascii (c : Char) : UInt8 := c.toNat.toUInt8

/-- `boot_mode`. It is zero, which is none of the modes, until `main` has
classified the reset. -/
inductive BootMode
  | unset
  | normalBoot
  | keepBootloader
  | espReset
  | espReconfigure
  | espFactory
  deriving DecidableEq, Repr

def BootMode.byte : BootMode → UInt8
  | .unset => 0
  | .normalBoot => ascii '0'
  | .keepBootloader => ascii '1'
  | .espReset => ascii 'R'
  | .espReconfigure => ascii 'E'
  | .espFactory => ascii 'F'

/-- Levels and directions of the pins the bootloader drives: PB0 (GPIO15),
PC7 (D13 and GPIO0), PD5 (ACT) and PE2 (CHIP_EN). -/
structure Pins where
  portB0 : Bool
  ddrB0 : Bool
  portC7 : Bool
  ddrC7 : Bool
  portD5 : Bool
  ddrD5 : Bool
  portE2 : Bool
  ddrE2 : Bool
  deriving DecidableEq, Repr

inductive SpmOp
  | pageErase (a : UInt32)
  | pageFill (a : UInt32) (w : UInt16)
  | pageWrite (a : UInt32)
  | rwwEnable
  deriving DecidableEq, Repr

/-- What the program does that an observer of a run may want to talk about.
The bytes of a request are recorded as `usb_read_byte` returned them, those of
a block word by word. An SPM operation is recorded with the two interrupt
masks in force, and the end of a SLIP frame with the number of bytes that wait
in the IN bank. -/
inductive Obs
  | rstat (pressed : Bool)
  | checkReset (ticks : UInt8) (pressed : Bool)
  | dispatch (pos : Nat) (command : UInt8)
  | addressHigh (b : UInt8)
  | addressLow (b : UInt8)
  | exitRequest
  | block (command : UInt8) (size : UInt16) (memoryType : UInt8)
  | data (low high : UInt8)
  | spm (op : SpmOp) (timsk1 rxcie1 : Bool)
  | espWait
  | espLoop
  | slipFlushed (waiting : Nat)
  | startSketch
  deriving DecidableEq, Repr

/-- State that no interrupt and no device changes. `udr` holds the bytes
stored to UDR1 and `trace` the observations, newest first. -/
structure Core where
  mem : Memory
  currAddress : UInt32
  bootMode : BootMode
  ledsEnabled : UInt8
  ledControl : UInt8
  timsk1 : Bool
  rxcie1 : Bool
  sreg : Bool
  pins : Pins
  udr : List UInt8
  trace : List Obs

/-- `Timeout` and `led_counter`, with the value last assigned to `Timeout`
and the ticks handled since. -/
structure Timer where
  timeout : UInt8
  ledCounter : UInt16
  armed : UInt8
  elapsed : Nat

/-- `rts_pulse`, with the number of requests that raised RTS so far. -/
structure Line where
  rtsPulse : UInt8
  rtsRequests : Nat

structure State where
  core : Core
  timer : Timer
  ring : Ring
  usb : Usb
  line : Line
  udre1 : Bool
  button : Bool

/-- The state in which `main` is entered: static data initialised, interrupts
off, all pins inputs. The host has the given packets to send. -/
def State.reset (m : Memory) (packets : List Packet) (button : Bool) : State where
  core :=
    { mem := m.reset, currAddress := 0, bootMode := .unset, ledsEnabled := 0, ledControl := 0xFF
      timsk1 := false, rxcie1 := false, sreg := false
      pins := ⟨false, false, false, false, false, false, false, false⟩, udr := [], trace := [] }
  timer := { timeout := 0, ledCounter := 0, armed := 0, elapsed := 0 }
  ring := { buffer := fun _ => 0, bufferIn := 0, bufferOut := 0, accepted := [], taken := [] }
  usb :=
    { deviceState := .unattached, uenum := .control, outBank := none, hostOut := packets
      inBank := [], inBusy := false, hostIn := [], setup := []
      got := [], discarded := [], dropped := [], underruns := 0, unseen := false }
  line := { rtsPulse := 0, rtsRequests := 0 }
  udre1 := true
  button := button

abbrev Fw := Prog State

inductive Event
  | tick
  | uartRx (ch : UInt8)
  | uartTxEmpty
  | outPacket
  | inTaken
  | setup (r : ControlRequest)
  | deviceState (d : DeviceState)
  | button (pressed : Bool)
  deriving DecidableEq, Repr

/-- `ISR(TIMER1_COMPA_vect)` -/
def timer1CompA (ledsEnabled : UInt8) (t : Timer) : Timer :=
  { t with
    ledCounter := if ledsEnabled ≠ 0 then t.ledCounter + 1 else t.ledCounter
    timeout := if t.timeout ≠ 0 then t.timeout - 1 else t.timeout
    elapsed := t.elapsed + 1 }

/-- Interrupts, which need their mask and the global flag, and the hardware
around the processor, which needs neither. The USB interrupts show here only
in the device state that they leave: the endpoints that a bus reset takes away
are part of the control pipe. -/
def handle : Event → State → State
  | .tick, s =>
    if s.core.sreg && s.core.timsk1 then
      { s with timer := timer1CompA s.core.ledsEnabled s.timer }
    else s
  | .uartRx ch, s =>
    if s.core.sreg && s.core.rxcie1 then { s with ring := s.ring.usart1Rx ch } else s
  | .uartTxEmpty, s => { s with udre1 := true }
  | .outPacket, s => { s with usb := s.usb.outPacket }
  | .inTaken, s => { s with usb := s.usb.inTaken }
  | .setup r, s => { s with usb.setup := s.usb.setup ++ [r] }
  | .deviceState d, s =>
    if s.core.sreg then { s with usb.deviceState := d } else s
  | .button pressed, s => { s with button := pressed }

def observe (o : Obs) (c : Core) : Core := { c with trace := o :: c.trace }

def spm (op : SpmOp) (c : Core) : Core :=
  let mem := match op with
    | .pageErase a => c.mem.bootPageErase a
    | .pageFill a w => c.mem.bootPageFill a w
    | .pageWrite a => c.mem.bootPageWrite a
    | .rwwEnable => c.mem.bootRwwEnable
  observe (.spm op c.timsk1 c.rxcie1) { c with mem }

def onCore (f : Core → Core) : Fw Unit := .modify fun s => { s with core := f s.core }

def onUsb (f : Usb → Usb) : Fw Unit := .modify fun s => { s with usb := f s.usb }

def onRing (f : Ring → Ring) : Fw Unit := .modify fun s => { s with ring := f s.ring }

def note (o : Obs) : Fw Unit := onCore (observe o)

def test (c : State → Bool) : Fw Bool := .read c

def setTimeout (ticks : UInt8) : Fw Unit :=
  .modify fun s =>
    { s with timer := { s.timer with timeout := ticks, armed := ticks, elapsed := 0 } }

def timeoutRunning : Fw Bool := test fun s => s.timer.timeout ≠ 0

end Adelino.Machine
