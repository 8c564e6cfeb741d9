import Adelino.Avr109
import Adelino.Execution

namespace Adelino.Block

open Adelino.Program Adelino.Machine Adelino.UsbBytes Adelino.Streams Adelino.Execution
  Adelino.Avr109

/-- What a block write does with its data: whole words go to the page buffer
and an odd last byte goes nowhere. -/
def fillWords : List UInt8 → Core → Core
  | lo :: hi :: data, c =>
    fillWords data (advanceAddress (fillData c.currAddress lo hi c))
  | _, c => c

def eraseCore (c : Core) : Core := spm (.pageErase c.currAddress) { c with timsk1 := false }

def storeBlock (data : List UInt8) (c : Core) : Core :=
  { spm (.pageWrite c.currAddress) (fillWords data (eraseCore c)) with timsk1 := true }

def dumpBytes : Nat → Core → List UInt8
  | 0, _ => []
  | 1, c => [c.mem.pgmReadByte c.currAddress]
  | n + 2, c => c.mem.pgmReadByte c.currAddress :: c.mem.pgmReadByte (c.currAddress ||| 1) ::
      dumpBytes n (advanceAddress c)

def dumpAdvance : Nat → Core → Core
  | n + 2, c => dumpAdvance n (advanceAddress c)
  | _, c => c

def loadCore (c : Core) : Core := spm .rwwEnable { c with timsk1 := false }

def loadBlock (n : Nat) (c : Core) : Core := { dumpAdvance n (loadCore c) with timsk1 := true }

theorem trace_spm (op : SpmOp) (c : Core) : c.trace <:+ (spm op c).trace := List.suffix_cons _ _

theorem trace_fillData (a : UInt32) (low high : UInt8) (c : Core) :
    c.trace <:+ (fillData a low high c).trace := by
  have hspm := trace_spm (.pageFill a (fillWord high low)) (observe (.data low high) c)
  exact (List.suffix_cons (Obs.data low high) c.trace).trans hspm

theorem trace_dumpAdvance (n : Nat) (c : Core) : (dumpAdvance n c).trace = c.trace := by
  induction n, c using dumpAdvance.induct with
  | case1 n c ih => exact ih
  | case2 n c h => rw [dumpAdvance.eq_2 _ _ h]

theorem writeBlock_executes : ∀ (data rest : List UInt8) (low : UInt8) (v : View),
    v.unread = data ++ rest →
    Executes (writeBlock data.length false low) v ()
      ((v.readBytes data rest).mapCore (fillWords data))
  | [], rest, _, v, h => by
    rw [readBytes_nil rest h]
    exact .ret () v
  | [x], rest, _, v, h => .bind (executes_usbReadByte x rest h) (.ret () _)
  | lo :: hi :: data, rest, low, v, h => by
    refine .bind (executes_usbReadByte lo (hi :: (data ++ rest)) h) ?_
    refine .bind (executes_usbReadByte hi (data ++ rest) rfl) ?_
    refine .bind (executes_read _ (fun v => v.core.currAddress) (fun _ => rfl) _) ?_
    refine .bind (executes_onCore _ _ (trace_fillData _ _ _ _)) ?_
    refine .bind (executes_onCore advanceAddress _ (List.suffix_refl _)) ?_
    refine (writeBlock_executes data rest lo _ rfl).congr ?_
    simp [View.readBytes, View.readByte, View.mapCore, fillWords]

theorem readBlock_executes : ∀ (n : Nat) (v : View),
    Executes (readBlock n false) v () ((v.writeBytes (dumpBytes n v.core)).mapCore (dumpAdvance n))
  | 0, v => by
    rw [dumpBytes, writeBytes_nil]
    exact .ret () v
  | 1, v => by
    refine .bind (executes_read _ (fun v => v.core.mem.pgmReadByte (v.core.currAddress ||| 0))
      (fun _ => rfl) _) ?_
    refine .bind (executes_usbWriteByte _ _) ?_
    refine (Executes.ret () _).congr ?_
    simp [View.writeBytes, View.writeByte, View.mapCore, dumpBytes, dumpAdvance]
  | n + 2, v => by
    refine .bind (executes_read _ (fun v => v.core.mem.pgmReadByte (v.core.currAddress ||| 0))
      (fun _ => rfl) _) ?_
    refine .bind (executes_usbWriteByte _ _) ?_
    refine .bind (.ret () _) ?_
    refine .bind (executes_read _ (fun v => v.core.mem.pgmReadByte (v.core.currAddress ||| 1))
      (fun _ => rfl) _) ?_
    refine .bind (executes_usbWriteByte _ _) ?_
    refine .bind (executes_onCore advanceAddress _ (List.suffix_refl _)) ?_
    refine (readBlock_executes n _).congr ?_
    simp [View.writeBytes, View.writeByte, View.mapCore, dumpBytes, dumpAdvance]

theorem refusedBlock_executes (command hi lo memoryType : UInt8) (rest : List UInt8) (v : View)
    (h : v.unread = hi :: lo :: memoryType :: rest) (hm : memoryType ≠ ascii 'F') :
    Executes (readWriteMemoryBlock command) v ()
      (((v.readBytes [hi, lo, memoryType] rest).mapCore
        (observe (.block command (blockSize hi lo) memoryType))).writeByte (ascii '?')) := by
  refine .bind (executes_usbReadByte _ _ h) ?_
  refine .bind (executes_usbReadByte _ _ rfl) ?_
  refine .bind (executes_usbReadByte _ _ rfl) ?_
  refine .bind (executes_onCore _ _ (List.suffix_cons _ _)) ?_
  rw [if_pos hm]
  refine (executes_usbWriteByte _ _).congr ?_
  simp [View.readBytes, View.readByte, View.mapCore, View.writeByte]

theorem loadBlock_executes (hi lo : UInt8) (rest : List UInt8) (v : View)
    (h : v.unread = hi :: lo :: ascii 'F' :: rest) :
    let n := (blockSize hi lo).toNat
    let noted := observe (.block (ascii 'g') (blockSize hi lo) (ascii 'F'))
    Executes (readWriteMemoryBlock (ascii 'g')) v ()
      (((v.readBytes [hi, lo, ascii 'F'] rest).mapCore (loadBlock n ∘ noted)).writeBytes
        (dumpBytes n (loadCore (noted v.core)))) := by
  refine .bind (executes_usbReadByte _ _ h) ?_
  refine .bind (executes_usbReadByte _ _ rfl) ?_
  refine .bind (executes_usbReadByte _ _ rfl) ?_
  refine .bind (executes_onCore _ _ (List.suffix_cons _ _)) ?_
  rw [if_neg (by decide)]
  refine .bind (executes_onCore _ _ (List.suffix_refl _)) ?_
  rw [if_pos rfl]
  refine .bind (executes_onCore _ _ (trace_spm _ _)) ?_
  refine .bind (readBlock_executes _ _) ?_
  refine (executes_onCore _ _ (List.suffix_refl _)).congr ?_
  simp [View.readBytes, View.readByte, View.mapCore, View.writeBytes, loadBlock, loadCore]

theorem storeBlock_executes (hi lo : UInt8) (data rest : List UInt8) (v : View)
    (h : v.unread = hi :: lo :: ascii 'F' :: (data ++ rest))
    (hl : data.length = (blockSize hi lo).toNat) :
    let noted := observe (.block (ascii 'B') (blockSize hi lo) (ascii 'F'))
    Executes (readWriteMemoryBlock (ascii 'B')) v ()
      (((v.readBytes (hi :: lo :: ascii 'F' :: data) rest).mapCore
        (storeBlock data ∘ noted)).writeByte carriageReturn) := by
  refine .bind (executes_usbReadByte _ _ h) ?_
  refine .bind (executes_usbReadByte _ _ rfl) ?_
  refine .bind (executes_usbReadByte _ _ rfl) ?_
  refine .bind (executes_onCore _ _ (List.suffix_cons _ _)) ?_
  rw [if_neg (by decide)]
  refine .bind (executes_onCore _ _ (List.suffix_refl _)) ?_
  rw [if_neg (by decide), ← hl]
  refine .bind (executes_read _ (fun v => v.core.currAddress) (fun _ => rfl) _) ?_
  refine .bind (executes_onCore _ _ (trace_spm _ _)) ?_
  refine .bind (writeBlock_executes data rest 0 _ rfl) ?_
  refine .bind (executes_onCore _ _ (trace_spm _ _)) ?_
  refine .bind (executes_usbWriteByte _ _) ?_
  refine (executes_onCore _ _ (List.suffix_refl _)).congr ?_
  simp [View.readBytes, View.readByte, View.mapCore, View.writeByte, storeBlock, eraseCore]

end Adelino.Block
