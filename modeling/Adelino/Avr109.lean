import Adelino.UsbBytes

namespace Adelino.Avr109

open Adelino.Program Adelino.Flash Adelino.Machine Adelino.UsbBytes

def avrProgrammerTimeout : UInt8 := ticksMs 3000

def softwareIdentifier : List UInt8 := "ADELINO".toList.map ascii

def bootloaderVersionMajor : UInt8 := 0x01

def bootloaderVersionMinor : UInt8 := 0x00

def avrSignature1 : UInt8 := 0x1E

def avrSignature2 : UInt8 := 0x95

def avrSignature3 : UInt8 := 0x87

def carriageReturn : UInt8 := 13

def esc : UInt8 := 27

def readCurrAddress : Fw UInt32 := .read (·.core.currAddress)

def setTimsk1 (enabled : Bool) : Fw Unit := onCore fun c => { c with timsk1 := enabled }

def blockSize (hi lo : UInt8) : UInt16 := hi.toUInt16 <<< 8 ||| lo.toUInt16

def fillWord (hi lo : UInt8) : UInt16 := hi.toUInt16 <<< 8 ||| lo.toUInt16

def fillData (a : UInt32) (low high : UInt8) (c : Core) : Core :=
  spm (.pageFill a (fillWord high low)) (observe (.data low high) c)

def advanceAddress (c : Core) : Core := { c with currAddress := c.currAddress + 2 }

/-- The `while (BlockSize--)` loop of a block read. -/
def readBlock : Nat → Bool → Fw Unit
  | 0, _ => return ()
  | n + 1, highByte => do
    let b ← .read fun s => s.core.mem.pgmReadByte (s.core.currAddress ||| if highByte then 1 else 0)
    usbWriteByte b
    .when highByte (onCore advanceAddress)
    readBlock n (!highByte)

/-- The `while (BlockSize--)` loop of a block write. -/
def writeBlock : Nat → Bool → UInt8 → Fw Unit
  | 0, _, _ => return ()
  | n + 1, true, lowByte => do
    let b ← usbReadByte
    let a ← readCurrAddress
    onCore (fillData a lowByte b)
    onCore advanceAddress
    writeBlock n false lowByte
  | n + 1, false, _ => do
    let b ← usbReadByte
    writeBlock n true b

/-- `ReadWriteMemoryBlock` after its three bytes. -/
def block (command hi lo memoryType : UInt8) : Fw Unit := do
  note (.block command (blockSize hi lo) memoryType)
  if memoryType ≠ ascii 'F' then
    usbWriteByte (ascii '?')
  else
    setTimsk1 false
    if command = ascii 'g' then
      onCore (spm .rwwEnable)
      readBlock (blockSize hi lo).toNat false
      setTimsk1 true
    else
      let pageStartAddress ← readCurrAddress
      onCore (spm (.pageErase pageStartAddress))
      writeBlock (blockSize hi lo).toNat false 0
      onCore (spm (.pageWrite pageStartAddress))
      usbWriteByte carriageReturn
      setTimsk1 true

/-- `ReadWriteMemoryBlock` as `MINIMAL_AVR109` compiles it. -/
def readWriteMemoryBlock (command : UInt8) : Fw Unit := do
  let hi ← usbReadByte
  let lo ← usbReadByte
  let memoryType ← usbReadByte
  block command hi lo memoryType

/-- `(usb_read_byte () << 9)` is computed in a 16-bit `int` and then widened
to the `uint32_t` it is assigned to. -/
def addressHigh (b : UInt8) : UInt32 := (b.toUInt16 <<< 9).toInt16.toInt32.toUInt32

def addressLow (b : UInt8) : UInt32 := (b.toUInt16 <<< 1).toInt16.toInt32.toUInt32

/-- `CurrAddress = (usb_read_byte () << 9)` -/
def seekHigh (hi : UInt8) (c : Core) : Core :=
  observe (.addressHigh hi) { c with currAddress := addressHigh hi }

/-- `CurrAddress |= (usb_read_byte () << 1)` -/
def seekLow (lo : UInt8) (c : Core) : Core :=
  observe (.addressLow lo) { c with currAddress := c.currAddress ||| addressLow lo }

def normalBoot (c : Core) : Core := observe .exitRequest { c with bootMode := .normalBoot }

def avr109Command (command : UInt8) : Fw Unit :=
  if command = ascii 'E' then do
    setTimeout (ticksMs 500)
    onCore (spm .rwwEnable)
    usbWriteByte carriageReturn
  else if command = ascii 'T' then do
    let _ ← usbReadByte
    usbWriteByte carriageReturn
  else if command = ascii 'L' ∨ command = ascii 'P' then
    usbWriteByte carriageReturn
  else if command = ascii 't' then
    usbWriteBytes [0x44, 0x00]
  else if command = ascii 'a' then
    usbWriteByte (ascii 'Y')
  else if command = ascii 'A' then do
    let hi ← usbReadByte
    onCore (seekHigh hi)
    let lo ← usbReadByte
    onCore (seekLow lo)
    usbWriteByte carriageReturn
  else if command = ascii 'p' then
    usbWriteByte (ascii 'S')
  else if command = ascii 'S' then
    usbWriteBytes softwareIdentifier
  else if command = ascii 'V' then
    usbWriteBytes [ascii '0' + bootloaderVersionMajor, ascii '0' + bootloaderVersionMinor]
  else if command = ascii 's' then
    usbWriteBytes [avrSignature3, avrSignature2, avrSignature1]
  else if command = ascii 'b' then
    usbWriteBytes [ascii 'Y', (spmPageSize / 256).toUInt8, (spmPageSize % 256).toUInt8]
  else if command = ascii 'B' ∨ command = ascii 'g' then do
    setTimeout avrProgrammerTimeout
    onCore normalBoot
    readWriteMemoryBlock command
  else if command ≠ esc then
    usbWriteByte (ascii '?')
  else
    return ()

/-- Record that `command`, the byte just read, is about to be interpreted. -/
def noteDispatch (command : UInt8) : Fw Unit :=
  .modify fun s =>
    { s with core := observe (.dispatch (s.usb.got.length - 1) command) s.core }

def avr109Request : Fw Unit := do
  let command ← usbReadByte
  noteDispatch command
  avr109Command command
  usbFlush

def avr109Turn : Fw Unit := do
  if ← usbByteAvailable then
    avr109Request
  else
    return ()

def avr109Loop : Fw Unit := .whileDo timeoutRunning avr109Turn

def avr109Programmer : Fw Unit := do
  setTimeout avrProgrammerTimeout
  avr109Loop

end Adelino.Avr109
