import Adelino.Lockstep
import Adelino.Sessions

namespace Adelino.FullBlock

open Adelino.Program Adelino.Lockstep Adelino.Flash Adelino.Endpoint Adelino.Machine
open Adelino.UsbBytes Adelino.Avr109

abbrev Eeprom := UInt16 → UInt8

abbrev FullFw := Prog (State × Eeprom)

/-- `(uint8_t*)(intptr_t)(CurrAddress >> 1)` -/
def eepromAddress (currAddress : UInt32) : UInt16 := (currAddress >>> 1).toUInt16

def eepromReadByte (a : UInt16) : FullFw UInt8 := .read fun x => x.2 a

def eepromWriteByte (a : UInt16) (b : UInt8) : FullFw Unit :=
  .modify fun x => (x.1, Function.update x.2 a b)

def readBlockFull (memoryType : UInt8) : Nat → Bool → FullFw Unit
  | 0, _ => return ()
  | n + 1, highByte =>
    if memoryType = ascii 'F' then do
      let b ← extend (.read fun s =>
        s.core.mem.pgmReadByte (s.core.currAddress ||| if highByte then 1 else 0))
      extend (usbWriteByte b)
      extend (.when highByte (onCore advanceAddress))
      readBlockFull memoryType n (!highByte)
    else do
      let a ← extend readCurrAddress
      let b ← eepromReadByte (eepromAddress a)
      extend (usbWriteByte b)
      extend (onCore advanceAddress)
      readBlockFull memoryType n highByte

def writeBlockFull (memoryType : UInt8) : Nat → Bool → UInt8 → FullFw Unit
  | 0, _, _ => return ()
  | n + 1, highByte, lowByte =>
    if memoryType = ascii 'F' then
      if highByte then do
        let b ← extend usbReadByte
        let a ← extend readCurrAddress
        extend (onCore (fillData a lowByte b))
        extend (onCore advanceAddress)
        writeBlockFull memoryType n false lowByte
      else do
        let b ← extend usbReadByte
        writeBlockFull memoryType n true b
    else do
      let b ← extend usbReadByte
      let a ← extend readCurrAddress
      eepromWriteByte (eepromAddress a) b
      extend (onCore advanceAddress)
      writeBlockFull memoryType n highByte lowByte

def blockFull (command hi lo memoryType : UInt8) : FullFw Unit := do
  extend (note (.block command (blockSize hi lo) memoryType))
  if memoryType ≠ ascii 'E' ∧ memoryType ≠ ascii 'F' then
    extend (usbWriteByte (ascii '?'))
  else
    extend (setTimsk1 false)
    if command = ascii 'g' then
      extend (onCore (spm .rwwEnable))
      readBlockFull memoryType (blockSize hi lo).toNat false
      extend (setTimsk1 true)
    else
      let pageStartAddress ← extend readCurrAddress
      .when (memoryType = ascii 'F') (extend (onCore (spm (.pageErase pageStartAddress))))
      writeBlockFull memoryType (blockSize hi lo).toNat false 0
      .when (memoryType = ascii 'F') (extend (onCore (spm (.pageWrite pageStartAddress))))
      extend (usbWriteByte carriageReturn)
      extend (setTimsk1 true)

/-- `ReadWriteMemoryBlock` as it is compiled without `MINIMAL_AVR109`. -/
def readWriteMemoryBlockFull (command : UInt8) : FullFw Unit := do
  let hi ← extend usbReadByte
  let lo ← extend usbReadByte
  let memoryType ← extend usbReadByte
  blockFull command hi lo memoryType

def blockHeader : Fw (UInt8 × UInt8 × UInt8) := do
  let hi ← usbReadByte
  let lo ← usbReadByte
  let memoryType ← usbReadByte
  return (hi, lo, memoryType)

theorem readBlockFull_flash (n : Nat) (highByte : Bool) :
    readBlockFull (ascii 'F') n highByte = extend (readBlock n highByte) := by
  induction n generalizing highByte with
  | zero => rfl
  | succ n ih =>
    rw [readBlockFull, if_pos rfl, readBlock]
    simp only [extend_bind, ih]

theorem writeBlockFull_flash (n : Nat) (highByte : Bool) (lowByte : UInt8) :
    writeBlockFull (ascii 'F') n highByte lowByte = extend (writeBlock n highByte lowByte) := by
  induction n generalizing highByte lowByte with
  | zero => rfl
  | succ n ih =>
    rw [writeBlockFull, if_pos rfl]
    cases highByte with
    | true =>
      rw [if_pos rfl, writeBlock]
      simp only [extend_bind, ih]
    | false =>
      rw [if_neg Bool.false_ne_true, writeBlock]
      simp only [extend_bind, ih]

theorem blockFull_eq {memoryType : UInt8} (h : memoryType ≠ ascii 'E') (command hi lo : UInt8) :
    blockFull command hi lo memoryType = extend (block command hi lo memoryType) := by
  by_cases hf : memoryType = ascii 'F'
  · subst hf
    simp only [blockFull, block, extend_bind, apply_ite extend, readBlockFull_flash,
      writeBlockFull_flash, Prog.when, ne_eq, not_true_eq_false, and_false, if_false, decide_true,
      if_true]
  · simp only [blockFull, block, extend_bind, if_pos hf, if_pos (And.intro h hf)]

/-- The type of memory that the moves bring a block request to read, if they
bring it so far. -/
def memoryTypeRead (s : State) (ms : List (Move Event)) : Option UInt8 :=
  (returned (exec handle (blockHeader, s) ms).1).map fun header => header.2.2

/-- Unless the host asks for the EEPROM, the two versions are in the same state
after the same moves, whatever the host sends and whenever it stops, and they
return at the same time; the EEPROM is as it was. -/
theorem minimal_agrees_full (command : UInt8) (s : State) (eeprom : Eeprom)
    (ms : List (Move Event)) (h : memoryTypeRead s ms ≠ some (ascii 'E')) :
    let c := exec handle (readWriteMemoryBlock command, s) ms
    let c' := exec (beside handle) (readWriteMemoryBlockFull command, (s, eeprom)) ms
    c'.1.isRet = c.1.isRet ∧ c'.2 = (c.2, eeprom) := by
  -- both versions read the header by the same three calls
  refine agree_bind fun ms₁ ms' hi s₁ hms hhi => ?_
  refine agree_bind fun ms₂ ms'' lo s₂ hms' hlo => ?_
  refine agree_bind fun ms₃ ms₄ memoryType s₃ hms'' htype => ?_
  have hheader : Completes handle blockHeader s (ms₁ ++ (ms₂ ++ (ms₃ ++ [])))
      (hi, lo, memoryType) s₃ := hhi.bind (hlo.bind (htype.bind (.ret _ s₃)))
  have hread : memoryTypeRead s ms = some memoryType := by
    have hms₄ : ms = ms₁ ++ (ms₂ ++ (ms₃ ++ [])) ++ ms₄ := by simp [hms, hms', hms'']
    rw [memoryTypeRead, hms₄, hheader.returned ms₄]
    rfl
  have hne : memoryType ≠ ascii 'E' := fun he => h (he ▸ hread)
  rw [blockFull_eq hne]
  exact agree_extend _ s₃ eeprom ms₄

def oneWord : List (Move Event) :=
  List.flatten [[.irq .outPacket], .replicate 60 .cpu]

def wordSent : State :=
  Sessions.ready (fun _ => 0xFF) [⟨[0, 2, ascii 'F', 0x34, 0x12], by decide⟩]

theorem minimal_agrees_full_word :
    (exec (beside handle) (readWriteMemoryBlockFull (ascii 'B'), (wordSent, fun _ => 0xFF))
      oneWord).1.isRet = true := by
  have hagree := minimal_agrees_full (ascii 'B') wordSent (fun _ => 0xFF) oneWord
    (by decide +kernel)
  exact hagree.1.trans (by decide +kernel)

end Adelino.FullBlock
