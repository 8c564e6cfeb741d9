import Adelino.Calls
import Adelino.Avr109

namespace Adelino.Frame

open Adelino.Program Adelino.Logic Adelino.Calls Adelino.Endpoint Adelino.Machine Adelino.UsbBytes
open Adelino.Avr109

/-- What a call of `USB_USBTask` does to the control line. -/
inductive LineServed : Line → Line → Prop
  | idle (l : Line) : LineServed l l
  | request (r : ControlRequest) (l : Line) : LineServed l (eventControlRequest r l)

/-- Properties that neither the data endpoints nor control requests affect. -/
def UsbFree (I : State → Prop) : Prop :=
  ∀ s u l, u.deviceState = s.usb.deviceState → LineServed s.line l → I s →
    I { s with usb := u, line := l }

theorem usbFree_core (P : Core → Prop) : UsbFree fun s => P s.core := fun _ _ _ _ _ hs => hs

/-- What the USB functions do to the controller: they leave its state to the
interrupts, read bytes without forgetting any, and put none back. -/
structure Accessed (u u' : Usb) : Prop where
  deviceState : u'.deviceState = u.deviceState
  got : u.got <+: u'.got
  unread : u'.unread <:+ u.unread

/-- Relations that allow for what the USB functions do. -/
structure UsbSteps (R : State → State → Prop) : Prop where
  refl : ∀ s, R s s
  usb : ∀ s u l, Accessed s.usb u → LineServed s.line l → R s { s with usb := u, line := l }

theorem UsbFree.steps {I : State → Prop} (hI : UsbFree I) : UsbSteps fun s t => I s → I t :=
  ⟨fun _ hs => hs, fun s u l hu hl => hI s u l hu.deviceState hl⟩

theorem accessed_selectEndpoint (ep : Ep) (u : Usb) : Accessed u (u.selectEndpoint ep) :=
  ⟨rfl, List.prefix_refl _, List.suffix_refl _⟩

theorem accessed_clearOut (u : Usb) : Accessed u u.clearOut := by
  unfold Usb.clearOut
  split
  · exact ⟨rfl, List.prefix_refl _, List.suffix_append _ _⟩
  · exact ⟨rfl, List.prefix_refl _, List.suffix_refl _⟩

theorem accessed_clearIn (u : Usb) : Accessed u u.clearIn := by
  unfold Usb.clearIn
  split <;> exact ⟨rfl, List.prefix_refl _, List.suffix_refl _⟩

theorem accessed_write8 (b : UInt8) (u : Usb) : Accessed u (u.write8 b) := by
  unfold Usb.write8
  split <;> exact ⟨rfl, List.prefix_refl _, List.suffix_refl _⟩

theorem accessed_read8 (u : Usb) : Accessed u u.read8.2 := by
  unfold Usb.read8
  split
  · next b bank _ ho =>
    refine ⟨rfl, List.prefix_append _ _, ?_⟩
    rw [Usb.unread, Usb.unread, ho]
    exact List.suffix_cons b _
  · exact ⟨rfl, List.prefix_refl _, List.suffix_refl _⟩

section Usb

variable {R : State → State → Prop} {F : Procedures State} (h : UsbSteps R)
include h

theorem built_onUsb (f : Usb → Usb) (hf : ∀ u, Accessed u (f u)) : Built R F (onUsb f) :=
  built_modify fun s => h.usb s _ s.line (hf s.usb) (.idle _)

theorem built_usbTask : Built R F usbTask := by
  refine built_modify fun s => ?_
  split
  · exact h.refl s
  · split
    · exact h.refl s
    · exact h.usb s _ _ ⟨rfl, List.prefix_refl _, List.suffix_refl _⟩ (.request _ _)

theorem built_usbByteAvailable : Built R F usbByteAvailable := by
  refine built_bind (built_usbTask h) fun _ => ?_
  refine built_bind (built_onUsb h _ (accessed_selectEndpoint _)) fun _ => ?_
  refine built_bind (built_read h.refl _) fun _ => built_ite ?_ (built_pure _)
  refine built_bind (built_read h.refl _) fun _ => built_ite (built_pure _) ?_
  exact built_bind (built_onUsb h _ accessed_clearOut) fun _ => built_pure _

omit h in
theorem built_endpointDetached (hR : ∀ s, R s s) : Built R F endpointDetached :=
  built_bind (built_read hR _) fun _ => built_ite (built_read hR _) (built_pure _)

theorem built_endpointRead8 : Built R F endpointRead8 :=
  .act fun s => h.usb s _ s.line (accessed_read8 s.usb) (.idle _)

theorem built_usbReadByte : Built R F usbReadByte := by
  refine .iter (fun _ => ?_) ()
  refine built_bind (built_usbByteAvailable h) fun _ => built_ite ?_ ?_
  · exact built_bind (built_endpointRead8 h) fun _ => built_pure _
  · exact built_bind (built_endpointDetached h.refl) fun _ =>
      built_ite (built_pure _) (built_pure _)

theorem built_usbFlushEndpoint : Built R F usbFlushEndpoint := by
  refine built_bind (built_onUsb h _ accessed_clearIn) fun _ => .iter (fun _ => ?_) ()
  refine built_bind (built_read h.refl _) fun _ => built_ite (built_pure _) ?_
  exact built_bind (built_endpointDetached h.refl) fun _ => built_ite (built_pure _) (built_pure _)

theorem built_usbFlush : Built R F usbFlush := by
  refine built_bind (built_onUsb h _ (accessed_selectEndpoint _)) fun _ => ?_
  refine built_bind (built_read h.refl _) fun _ => built_ite (built_pure _) ?_
  refine built_bind (built_read h.refl _) fun _ => ?_
  exact built_bind (built_when (built_usbFlushEndpoint h)) fun _ => built_usbFlushEndpoint h

theorem built_usbWriteByte (b : UInt8) : Built R F (usbWriteByte b) := by
  refine built_bind (built_usbTask h) fun _ => ?_
  refine built_bind (built_onUsb h _ (accessed_selectEndpoint _)) fun _ => ?_
  refine built_bind (built_read h.refl _) fun _ => ?_
  refine built_bind (built_when (built_usbFlushEndpoint h)) fun _ => ?_
  exact built_onUsb h _ (accessed_write8 b)

theorem built_usbWriteBytes (bs : List UInt8) : Built R F (usbWriteBytes bs) := by
  induction bs with
  | nil => exact built_pure _
  | cons b bs ih => exact built_bind (built_usbWriteByte h b) fun _ => ih

end Usb

section Invariants

variable {I : State → Prop}

theorem keeps_when {c : Bool} {p : Fw Unit} (hp : Keeps I p) : Keeps I (.when c p) :=
  keeps_ite hp trivial

variable (hI : UsbFree I)
include hI

theorem keeps_usbByteAvailable : Keeps I usbByteAvailable := (built_usbByteAvailable hI.steps).keeps

theorem keeps_usbReadByte : Keeps I usbReadByte := (built_usbReadByte hI.steps).keeps

theorem keeps_usbFlush : Keeps I usbFlush := (built_usbFlush hI.steps).keeps

theorem keeps_usbWriteByte (b : UInt8) : Keeps I (usbWriteByte b) :=
  (built_usbWriteByte hI.steps b).keeps

end Invariants

/-- Everything the AVR109 programmer does to the core. -/
inductive Avr109Write : (Core → Core) → Prop
  | dispatch (pos : Nat) (command : UInt8) : Avr109Write (observe (.dispatch pos command))
  | block (command : UInt8) (size : UInt16) (memoryType : UInt8) :
      Avr109Write (observe (.block command size memoryType))
  | exit : Avr109Write normalBoot
  | spm (op : SpmOp) : Avr109Write (spm op)
  | fill (a : UInt32) (low high : UInt8) : Avr109Write (fillData a low high)
  | advance : Avr109Write advanceAddress
  | seekHigh (hi : UInt8) : Avr109Write (seekHigh hi)
  | seekLow (lo : UInt8) : Avr109Write (seekLow lo)
  | timsk1 (enabled : Bool) : Avr109Write fun c => { c with timsk1 := enabled }

/-- A turn of the command loop from the moment its command byte is known. -/
def dispatched (command : UInt8) : Fw Unit := do
  noteDispatch command
  avr109Command command
  usbFlush

inductive Dispatches : Procedures State
  | command (command : UInt8) : Dispatches Unit (dispatched command)

theorem avr109Command_block {command : UInt8} (h : command = ascii 'B' ∨ command = ascii 'g') :
    avr109Command command = (do
      setTimeout avrProgrammerTimeout
      onCore normalBoot
      readWriteMemoryBlock command) := by
  obtain rfl | rfl := h <;> rfl

/-- What of that leaves flash and the page buffer for a new page alone. -/
inductive QuietWrite : (Core → Core) → Prop
  | block (command : UInt8) (size : UInt16) (memoryType : UInt8) :
      QuietWrite (observe (.block command size memoryType))
  | exit : QuietWrite normalBoot
  | rwwEnable : QuietWrite (spm .rwwEnable)
  | advance : QuietWrite advanceAddress
  | seekHigh (hi : UInt8) : QuietWrite (seekHigh hi)
  | seekLow (lo : UInt8) : QuietWrite (seekLow lo)
  | timsk1 (enabled : Bool) : QuietWrite fun c => { c with timsk1 := enabled }

theorem QuietWrite.avr109 {f : Core → Core} (h : QuietWrite f) : Avr109Write f := by
  cases h with
  | block command size memoryType => exact .block command size memoryType
  | exit => exact .exit
  | rwwEnable => exact .spm .rwwEnable
  | advance => exact .advance
  | seekHigh hi => exact .seekHigh hi
  | seekLow lo => exact .seekLow lo
  | timsk1 enabled => exact .timsk1 enabled

inductive AddressWrite : (Core → Core) → Prop
  | high (hi : UInt8) : AddressWrite (seekHigh hi)
  | low (lo : UInt8) : AddressWrite (seekLow lo)

theorem AddressWrite.quiet {f : Core → Core} (h : AddressWrite f) : QuietWrite f := by
  cases h with
  | high hi => exact .seekHigh hi
  | low lo => exact .seekLow lo

section Blocks

variable {R : State → State → Prop} {F : Procedures State} (h : UsbSteps R)
  (ha : ∀ s : State, R s { s with core := advanceAddress s.core })
include h ha

theorem built_readBlock (n : Nat) (highByte : Bool) : Built R F (readBlock n highByte) := by
  induction n generalizing highByte with
  | zero => exact built_pure _
  | succ n ih =>
    refine built_bind (built_read h.refl _) fun _ => ?_
    refine built_bind (built_usbWriteByte h _) fun _ => ?_
    exact built_bind (built_when (built_modify ha)) fun _ => ih _

theorem built_writeBlock
    (hfill : ∀ a low high (s : State), R s { s with core := fillData a low high s.core }) (n : Nat)
    (highByte : Bool) (lowByte : UInt8) : Built R F (writeBlock n highByte lowByte) := by
  induction n generalizing highByte lowByte with
  | zero => exact built_pure _
  | succ n ih =>
    cases highByte with
    | true =>
      refine built_bind (built_usbReadByte h) fun _ => built_bind (built_read h.refl _) fun _ => ?_
      refine built_bind (built_modify (hfill _ _ _)) fun _ => ?_
      exact built_bind (built_modify ha) fun _ => ih _ _
    | false => exact built_bind (built_usbReadByte h) fun _ => ih _ _

end Blocks

section Quiet

variable {R : State → State → Prop} {F : Procedures State} (h : UsbSteps R)
  (hc : ∀ f, QuietWrite f → ∀ s : State, R s { s with core := f s.core })
include h hc

theorem built_refusedOr {p : Fw Unit} {command : UInt8} {size : UInt16} {memoryType : UInt8}
    (hp : Built R F p) : Built R F (do
      note (.block command size memoryType)
      if memoryType ≠ ascii 'F' then
        usbWriteByte (ascii '?')
      else
        setTimsk1 false
        p) := by
  refine built_bind (built_modify (hc _ (.block _ _ _))) fun _ => ?_
  refine built_ite (built_usbWriteByte h _) ?_
  exact built_bind (built_modify (hc _ (.timsk1 _))) fun _ => hp

theorem built_loadBlock : Built R F (readWriteMemoryBlock (ascii 'g')) := by
  refine built_bind (built_usbReadByte h) fun _ => ?_
  refine built_bind (built_usbReadByte h) fun _ => ?_
  refine built_bind (built_usbReadByte h) fun _ => built_refusedOr h hc ?_
  refine built_bind (built_modify (hc _ .rwwEnable)) fun _ => ?_
  exact built_bind (built_readBlock h (hc _ .advance) _ _) fun _ => built_modify (hc _ (.timsk1 _))

end Quiet

section Avr109

variable {R : State → State → Prop} {F : Procedures State} (h : UsbSteps R)
include h

theorem built_avr109Command {command : UInt8}
    (hc : ∀ f, AddressWrite f → ∀ s : State, R s { s with core := f s.core })
    (hend : command = ascii 'E' → Built R F (do
      setTimeout (ticksMs 500)
      onCore (spm .rwwEnable)
      usbWriteByte carriageReturn))
    (hb : command = ascii 'B' ∨ command = ascii 'g' → Built R F (do
      setTimeout avrProgrammerTimeout
      onCore normalBoot
      readWriteMemoryBlock command)) : Built R F (avr109Command command) := by
  have hread : Built R F usbReadByte := built_usbReadByte h
  have hbyte (b : UInt8) : Built R F (usbWriteByte b) := built_usbWriteByte h b
  have hbytes (bs : List UInt8) : Built R F (usbWriteBytes bs) := built_usbWriteBytes h bs
  have hcore {f : Core → Core} (hf : AddressWrite f) : Built R F (onCore f) :=
    built_modify (hc f hf)
  by_cases he : command = ascii 'E'
  · rw [avr109Command, if_pos he]
    exact hend he
  rw [avr109Command, if_neg he]
  refine built_ite ?_ (built_ite (hbyte _) (built_ite (hbytes _) (built_ite (hbyte _)
    (built_ite ?_ (built_ite (hbyte _) (built_ite (hbytes _) (built_ite (hbytes _)
      (built_ite (hbytes _) (built_ite (hbytes _) ?_)))))))))
  · exact built_bind hread fun _ => hbyte _
  · refine built_bind hread fun _ => built_bind (hcore (.high _)) fun _ => ?_
    exact built_bind hread fun _ => built_bind (hcore (.low _)) fun _ => hbyte _
  · split
    · next hcommand => exact hb hcommand
    · exact built_ite (hbyte _) (built_pure _)

theorem built_quietCommand (hc : ∀ f, QuietWrite f → ∀ s : State, R s { s with core := f s.core })
    (ht : ∀ n, Built R F (setTimeout n)) {command : UInt8} (hb : command ≠ ascii 'B') :
    Built R F (avr109Command command) := by
  refine built_avr109Command h (fun f hf => hc f hf.quiet) (fun _ => ?_) fun hg => ?_
  · refine built_bind (ht _) fun _ => built_bind (built_modify (hc _ .rwwEnable)) fun _ => ?_
    exact built_usbWriteByte h _
  · rw [hg.resolve_left hb]
    refine built_bind (ht _) fun _ => built_bind (built_modify (hc _ .exit)) fun _ => ?_
    exact built_loadBlock h hc

theorem built_avr109Programmer (ht : ∀ n, n ≠ 0 → Built R F (setTimeout n))
    (hd : ∀ command, Built R F (dispatched command)) : Built R F avr109Programmer := by
  refine built_bind (ht _ (by decide)) fun _ => built_whileDo (built_read h.refl _) ?_
  refine built_bind (built_usbByteAvailable h) fun _ => built_ite ?_ (built_pure _)
  exact built_bind (built_usbReadByte h) hd

variable (hc : ∀ f, QuietWrite f → ∀ s : State, R s { s with core := f s.core })
  (hspm : ∀ op (s : State), R s { s with core := spm op s.core })
  (hfill : ∀ a low high (s : State), R s { s with core := fillData a low high s.core })
include hc hspm hfill

theorem built_readWriteMemoryBlock (command : UInt8) :
    Built R F (readWriteMemoryBlock command) := by
  refine built_bind (built_usbReadByte h) fun _ => ?_
  refine built_bind (built_usbReadByte h) fun _ => ?_
  refine built_bind (built_usbReadByte h) fun _ => built_refusedOr h hc (built_ite ?_ ?_)
  · refine built_bind (built_modify (hspm _)) fun _ => ?_
    exact built_bind (built_readBlock h (hc _ .advance) _ _) fun _ =>
      built_modify (hc _ (.timsk1 _))
  · refine built_bind (built_read h.refl _) fun _ => built_bind (built_modify (hspm _)) fun _ => ?_
    refine built_bind (built_writeBlock h (hc _ .advance) hfill _ _ _) fun _ => ?_
    refine built_bind (built_modify (hspm _)) fun _ => ?_
    exact built_bind (built_usbWriteByte h _) fun _ => built_modify (hc _ (.timsk1 _))

end Avr109

theorem built_session {R : State → State → Prop} {F : Procedures State} (h : UsbSteps R)
    (hc : ∀ f, Avr109Write f → ∀ s : State, R s { s with core := f s.core })
    (ht : ∀ n, n ≠ 0 → Built R F (setTimeout n)) : Built R F avr109Programmer := by
  have hquiet (f : Core → Core) (hf : QuietWrite f) (s : State) : R s { s with core := f s.core } :=
    hc f hf.avr109 s
  refine built_avr109Programmer h ht fun command => ?_
  refine built_bind (built_modify fun s => hc _ (.dispatch _ command) s) fun _ => ?_
  refine built_bind ?_ fun _ => built_usbFlush h
  refine built_avr109Command h (fun f hf => hquiet f hf.quiet) (fun _ => ?_) fun _ => ?_
  · refine built_bind (ht _ (by decide)) fun _ => ?_
    exact built_bind (built_modify (hc _ (.spm _))) fun _ => built_usbWriteByte h _
  · refine built_bind (ht _ (by decide)) fun _ => built_bind (built_modify (hc _ .exit)) fun _ => ?_
    exact built_readWriteMemoryBlock h hquiet (fun op => hc _ (.spm op))
      (fun a low high => hc _ (.fill a low high)) command

theorem keeps_avr109Programmer {I : State → Prop} (hI : UsbFree I)
    (hc : ∀ f, Avr109Write f → ∀ s : State, I s → I { s with core := f s.core })
    (ht : ∀ n, n ≠ 0 → Keeps I (setTimeout n)) : Keeps I avr109Programmer :=
  (built_session hI.steps hc fun n hn => built_modify (ht n hn)).keeps

theorem avr109Programmer_spec {A G I : State → Prop} (hs : Stable handle A I)
    (hG : ∀ s, A s → I s → G s) (hI : UsbFree I) (ht : Keeps I (setTimeout avrProgrammerTimeout))
    (hd : ∀ command, Triple handle A G I (dispatched command) fun _ => I) :
    Triple handle A G I avr109Programmer fun _ => I := by
  have hb : Built (fun s t => I s → I t) Dispatches avr109Programmer := by
    refine built_bind (built_modify ht) fun _ => built_whileDo (built_read hI.steps.refl _) ?_
    refine built_bind (built_usbByteAvailable hI.steps) fun _ => built_ite ?_ (built_pure _)
    exact built_bind (built_usbReadByte hI.steps) fun command => .call (.command command)
  refine hb.triple hs hG (fun _ _ hst _ => hst) ?_
  intro β f hf
  cases hf
  exact hd _

end Adelino.Frame
