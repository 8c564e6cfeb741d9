import Adelino.Words

namespace Adelino.Flash

open Adelino.Words

/-- Geometry of the ATmega32U4 as the Makefile sets it up: 32 KiB of flash,
the last 4 KiB of which hold the bootloader. -/
def flashSize : Nat := 0x8000

def bootStartAddr : Nat := 0x7000

def spmPageSize : Nat := 128

/-- Program memory with the state of the SPM unit. `noise` is what a read of
the application section returns while that section is blocked. -/
structure Memory where
  flash : Nat → UInt8
  buffer : Nat → Option UInt16
  rwwBusy : Bool
  noise : Nat → UInt8

/-- The Z register keeps 16 bits of an address and the flash array decodes
15 of them. -/
def hwAddr (a : UInt32) : Nat := a.toNat % flashSize

def pageOf (i : Nat) : Nat := i / spmPageSize

def wordOf (i : Nat) : Nat := i % spmPageSize / 2

namespace Memory

def ofFlash (flash : Nat → UInt8) : Memory :=
  { flash, buffer := fun _ => none, rwwBusy := false, noise := fun _ => 0xFF }

def reset (m : Memory) : Memory := { m with buffer := fun _ => none, rwwBusy := false }

/-- A word of the page buffer that was never filled programs as erased. -/
def bufferByte (m : Memory) (i : Nat) : UInt8 :=
  let w := (m.buffer (wordOf i)).getD 0xFFFF
  if i % 2 = 0 then w.toUInt8 else (w >>> 8).toUInt8

def bootPageErase (a : UInt32) (m : Memory) : Memory :=
  { m with
    flash := fun i => if pageOf i = pageOf (hwAddr a) then 0xFF else m.flash i
    rwwBusy := m.rwwBusy || hwAddr a < bootStartAddr }

def bootPageFill (a : UInt32) (w : UInt16) (m : Memory) : Memory :=
  { m with buffer := Function.update m.buffer (wordOf (hwAddr a)) (some w) }

def bootPageWrite (a : UInt32) (m : Memory) : Memory :=
  { m with
    flash := fun i => if pageOf i = pageOf (hwAddr a) then m.bufferByte i else m.flash i
    buffer := fun _ => none
    rwwBusy := m.rwwBusy || hwAddr a < bootStartAddr }

/-- Setting RWWSRE also clears the page buffer. -/
def bootRwwEnable (m : Memory) : Memory := { m with rwwBusy := false, buffer := fun _ => none }

def pgmReadByte (m : Memory) (a : UInt32) : UInt8 :=
  if m.rwwBusy && hwAddr a < bootStartAddr then m.noise (hwAddr a) else m.flash (hwAddr a)

def pgmReadWord (m : Memory) (a : UInt32) : UInt16 :=
  word (m.pgmReadByte a) (m.pgmReadByte (a + 1))

end Memory

end Adelino.Flash
