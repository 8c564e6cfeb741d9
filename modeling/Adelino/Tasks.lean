import Adelino.Frame
import Adelino.Main
import Adelino.Streams

namespace Adelino.Tasks

open Adelino.Program Adelino.Logic Adelino.Calls Adelino.Uart Adelino.Machine Adelino.UsbBytes
open Adelino.Streams Adelino.Avr109 Adelino.Esp8266 Adelino.Main Adelino.Frame

/-- What the firmware does to the core outside the AVR109 programmer, the
assignments to `boot_mode` and the jump to the sketch apart. -/
inductive TaskWrite : (Core → Core) → Prop
  | pins (f : Pins → Pins) : TaskWrite fun c => { c with pins := f c.pins }
  | ledsEnabled (v : UInt8) : TaskWrite fun c => { c with ledsEnabled := v }
  | ledControl (v : UInt8) : TaskWrite fun c => { c with ledControl := v }
  | udr (ch : UInt8) : TaskWrite fun c => { c with udr := c.udr ++ [ch] }
  | masks (timsk1 rxcie1 sreg : Bool) : TaskWrite fun c => { c with timsk1, rxcie1, sreg }
  | rstat (pressed : Bool) : TaskWrite fun c => observe (.rstat pressed) { c with sreg := true }
  | checkReset (ticks : UInt8) (pressed : Bool) : TaskWrite (observe (.checkReset ticks pressed))
  | espWait : TaskWrite (observe .espWait)
  | espLoop : TaskWrite (observe .espLoop)
  | slipFlushed (waiting : Nat) : TaskWrite (observe (.slipFlushed waiting))

def taskObs : Obs → Bool
  | .rstat _ => true
  | .checkReset _ _ => true
  | .espWait => true
  | .espLoop => true
  | .slipFlushed _ => true
  | _ => false

theorem TaskWrite.effect {f : Core → Core} (hf : TaskWrite f) (c : Core) :
    (f c).mem = c.mem ∧ (f c).bootMode = c.bootMode ∧
      ((f c).trace = c.trace ∨ ∃ o, taskObs o = true ∧ (f c).trace = o :: c.trace) := by
  cases hf with
  | rstat pressed => exact ⟨rfl, rfl, .inr ⟨_, rfl, rfl⟩⟩
  | checkReset ticks pressed => exact ⟨rfl, rfl, .inr ⟨_, rfl, rfl⟩⟩
  | espWait => exact ⟨rfl, rfl, .inr ⟨_, rfl, rfl⟩⟩
  | espLoop => exact ⟨rfl, rfl, .inr ⟨_, rfl, rfl⟩⟩
  | slipFlushed waiting => exact ⟨rfl, rfl, .inr ⟨_, rfl, rfl⟩⟩
  | _ => exact ⟨rfl, rfl, .inl rfl⟩

theorem TaskWrite.currAddress {f : Core → Core} (hf : TaskWrite f) (c : Core) :
    (f c).currAddress = c.currAddress := by
  cases hf <;> rfl

def espObs : Obs → Bool
  | .espWait => true
  | .espLoop => true
  | .slipFlushed _ => true
  | _ => false

/-- Relations that allow for what `run_tasks` does outside the two programmers
and the ring. -/
structure TaskSteps (R : State → State → Prop) : Prop extends UsbSteps R where
  leds : ∀ s counter c7 d5, R s { s with
    timer.ledCounter := counter
    core.pins := { s.core.pins with portC7 := c7, portD5 := d5 } }
  ledControl : ∀ s v, R s { s with core.ledControl := v }
  udr : ∀ s ch, R s { s with udre1 := false, core.udr := s.core.udr ++ [ch] }

/-- Relations that allow for what a session with the ESP8266 does outside
`reset_esp` and the ring. -/
structure SessionSteps (R : State → State → Prop) : Prop extends UsbSteps R where
  udr : ∀ s ch, R s { s with udre1 := false, core.udr := s.core.udr ++ [ch] }
  timeout : ∀ s n, R s { s with timer := { s.timer with timeout := n, armed := n, elapsed := 0 } }
  observe : ∀ s o, espObs o = true → R s { s with core := Machine.observe o s.core }
  rtsPulse : ∀ s, R s { s with line.rtsPulse := 0 }

/-- Relations that allow for `run_tasks` and for the code around `reset_esp`. -/
structure ControlSteps (R : State → State → Prop) : Prop extends TaskSteps R where
  timeout : ∀ s n, R s { s with timer := { s.timer with timeout := n, armed := n, elapsed := 0 } }
  ledsEnabled : ∀ s v, R s { s with core.ledsEnabled := v }

structure EspSteps (R : State → State → Prop) : Prop extends ControlSteps R, SessionSteps R where

structure DeviceSteps (R : State → State → Prop) : Prop extends EspSteps R where
  pins : ∀ s (f : Pins → Pins), R s { s with core.pins := f s.core.pins }
  ring : ∀ s (f : Ring → Ring), R s { s with ring := f s.ring }

structure BootSteps (R : State → State → Prop) : Prop extends DeviceSteps R where
  rstat : ∀ s, R s { s with core := Machine.observe (.rstat s.button) { s.core with sreg := true } }
  checkReset : ∀ s ticks pressed, R s { s with
    core := Machine.observe (.checkReset ticks pressed) s.core }
  bootMode : ∀ s mode, R s { s with core.bootMode := mode }

section Ring

variable {R : State → State → Prop} {F : Procedures State} (h : UsbSteps R)
  (hadvance : ∀ ch, Built R F (onRing (Ring.advance ch)))
include h hadvance

theorem built_ringTake : Built R F ringTake := by
  refine built_bind (built_read h.refl _) fun ch => ?_
  exact built_bind (hadvance ch) fun _ => built_pure _

theorem built_drainRing : Built R F drainRing := by
  refine built_whileDo (built_read h.refl _) ?_
  exact built_bind (built_ringTake h hadvance) fun ch => built_usbWriteByte h ch

theorem built_espToUsb : Built R F espToUsb := by
  refine built_bind (built_read h.refl _) fun _ => built_ite ?_ (built_pure _)
  refine built_bind (built_ringTake h hadvance) fun ch => ?_
  exact built_bind (built_usbWriteByte h ch) fun _ => built_pure _

end Ring

section RunTasks

variable {R : State → State → Prop} {F : Procedures State} (h : TaskSteps R)
include h

theorem built_lLed (on : Bool) : Built R F (lLed on) :=
  built_modify fun s => h.leds s s.timer.ledCounter on s.core.pins.portD5

theorem built_actLed (on : Bool) : Built R F (actLed on) :=
  built_modify fun s => h.leds s s.timer.ledCounter s.core.pins.portC7 on

theorem built_setLedControl (v : UInt8) : Built R F (setLedControl v) :=
  built_modify fun s => h.ledControl s v

omit h in
theorem built_writeUdr1
    (hu : ∀ s ch, R s { s with udre1 := false, core.udr := s.core.udr ++ [ch] }) (ch : UInt8) :
    Built R F (writeUdr1 ch) :=
  built_modify fun s => hu s ch

theorem built_putch (ch : UInt8) : Built R F (putch ch) := by
  refine built_bind (built_whileDo (built_read h.refl _) (built_pure _)) fun _ => ?_
  exact built_writeUdr1 h.udr ch

theorem built_ledTask : Built R F (.modify ledTask) := by
  refine built_modify fun s => ?_
  simp only [ledTask]
  split
  · exact h.refl s
  · split
    · exact h.leds s _ _ _
    · split
      · exact h.leds s _ _ _
      · exact h.refl s

theorem built_cdcInput (hesp : Built R F esp8266Programmer) (havr : Built R F avr109Programmer)
    (ch : UInt8) : Built R F (cdcInput ch) := by
  have hwrite (b : UInt8) : Built R F (usbWriteByte b) := built_usbWriteByte h.toUsbSteps b
  refine built_ite hesp (built_ite havr (built_ite ?_ (built_putch h ch)))
  refine built_bind (hwrite _) fun _ => built_bind (hwrite _) fun _ => ?_
  exact built_bind (built_read h.refl _) hwrite

theorem built_runTasks (hdrain : Built R F drainRing) (hesp : Built R F esp8266Programmer)
    (havr : Built R F avr109Programmer) : Built R F runTasks := by
  refine built_bind ?_ fun _ => built_ledTask h
  refine built_bind hdrain fun _ => built_bind (built_usbFlush h.toUsbSteps) fun _ => ?_
  refine built_bind (built_usbByteAvailable h.toUsbSteps) fun _ => built_ite ?_ (built_pure _)
  refine built_bind (built_usbReadByte h.toUsbSteps) fun ch => ?_
  exact built_bind (built_cdcInput h hesp havr ch) fun _ => built_setLedControl h _

end RunTasks

section Esp

variable {R : State → State → Prop} {F : Procedures State}

theorem built_resetEsp (hp : ∀ f, Built R F (onPins f)) (programMode : Bool) :
    Built R F (resetEsp programMode) := by
  iterate 6
    refine built_bind (hp _) fun _ => ?_
  exact hp _

theorem built_resetEspAndWait_of (hrefl : ∀ s, R s s) {programMode : Bool}
    (hl : ∀ v, Built R F (setLedsEnabled v)) (hp : Built R F (actLed true))
    (hp' : Built R F (lLed true)) (hreset : Built R F (resetEsp programMode))
    (ht : Built R F (setTimeout (ticksMs 350))) (hu : Built R F usbTask)
    (hring : Built R F (do
      onRing Ring.resetOut
      onRing Ring.resetIn)) : Built R F (resetEspAndWait programMode) := by
  refine built_bind (hl 0) fun _ => built_bind hp fun _ => built_bind hp' fun _ => ?_
  refine built_bind hreset fun _ => built_bind ht fun _ => ?_
  refine built_bind (built_whileDo (built_read hrefl _) hu) fun _ => ?_
  exact built_bind (hl 1) fun _ => hring

section Session

variable (h : SessionSteps R)
include h

omit h in
theorem built_setTimeout
    (ht : ∀ s n, R s { s with timer := { s.timer with timeout := n, armed := n, elapsed := 0 } })
    (n : UInt8) : Built R F (setTimeout n) :=
  built_modify fun s => ht s n

omit h in
theorem built_usbToEsp (h : UsbSteps R)
    (hu : ∀ s ch, R s { s with udre1 := false, core.udr := s.core.udr ++ [ch] }) :
    Built R F usbToEsp := by
  refine built_bind (built_read h.refl _) fun _ => built_ite ?_ (built_pure _)
  refine built_bind (built_usbByteAvailable h) fun _ => built_ite ?_ (built_pure _)
  exact built_bind (built_endpointRead8 h) fun ch => built_writeUdr1 hu ch

theorem built_espWaitTurn (hin : Built R F (onRing Ring.resetIn)) : Built R F espWaitTurn := by
  refine built_bind (built_modify fun s => h.observe s _ rfl) fun _ => ?_
  refine built_bind (built_read h.refl _) fun _ => built_ite ?_ (built_pure _)
  exact built_bind hin fun _ => built_setTimeout h.timeout _

theorem built_espLoop (htake : Built R F espToUsb) : Built R F espLoop := by
  refine built_whileDo (built_read h.refl _) ?_
  refine built_bind (built_setTimeout h.timeout _) fun _ => built_bind htake fun _ => ?_
  refine built_bind (built_when ?_) fun _ => built_usbToEsp h.toUsbSteps h.udr
  exact built_bind (built_usbFlush h.toUsbSteps) fun _ =>
    built_modify fun s => h.observe s (.slipFlushed s.usb.inBank.length) rfl

theorem built_espSession (hout : Built R F (onRing Ring.resetOut))
    (hin : Built R F (onRing Ring.resetIn)) (hreset : Built R F (resetEsp true))
    (htake : Built R F espToUsb) : Built R F espSession := by
  refine built_bind hout fun _ => built_bind hreset fun _ => ?_
  refine built_bind (built_setTimeout h.timeout _) fun _ => ?_
  refine built_bind (built_whileDo (built_read h.refl _) (built_espWaitTurn h hin)) fun _ => ?_
  refine built_bind (built_modify h.rtsPulse) fun _ => ?_
  exact built_bind (built_modify fun s => h.observe s _ rfl) fun _ => built_espLoop h htake

end Session

variable (h : ControlSteps R)
include h

theorem built_setLedsEnabled (v : UInt8) : Built R F (setLedsEnabled v) :=
  built_modify fun s => h.ledsEnabled s v

theorem built_resetEspAndWait {programMode : Bool} (hreset : Built R F (resetEsp programMode))
    (hring : Built R F (do
      onRing Ring.resetOut
      onRing Ring.resetIn)) : Built R F (resetEspAndWait programMode) :=
  built_resetEspAndWait_of h.refl (built_setLedsEnabled h) (built_actLed h.toTaskSteps true)
    (built_lLed h.toTaskSteps true) hreset (built_setTimeout h.timeout _)
      (built_usbTask h.toUsbSteps) hring

end Esp

section Device

variable {R : State → State → Prop} {F : Procedures State} (h : DeviceSteps R)
include h

theorem DeviceSteps.built_resetEsp (programMode : Bool) : Built R F (resetEsp programMode) :=
  Tasks.built_resetEsp (fun f => built_modify fun s => h.pins s f) programMode

theorem DeviceSteps.built_resetEspAndWait (programMode : Bool) :
    Built R F (resetEspAndWait programMode) :=
  Tasks.built_resetEspAndWait h.toControlSteps (h.built_resetEsp programMode)
    (built_bind (built_modify fun s => h.ring s _) fun _ => built_modify fun s => h.ring s _)

theorem DeviceSteps.built_esp8266Programmer : Built R F esp8266Programmer := by
  have hring (f : Ring → Ring) : Built R F (onRing f) := built_modify fun s => h.ring s f
  refine built_bind ?_ fun _ => h.built_resetEspAndWait false
  exact built_espSession h.toSessionSteps (hring _) (hring _) (h.built_resetEsp true)
    (built_espToUsb h.toUsbSteps fun _ => hring _)

theorem DeviceSteps.built_runTasks (havr : Built R F avr109Programmer) : Built R F runTasks :=
  Tasks.built_runTasks h.toTaskSteps
    (built_drainRing h.toUsbSteps fun _ => built_modify fun s => h.ring s _)
    h.built_esp8266Programmer havr

end Device

section Main

variable {R : State → State → Prop} {F : Procedures State} (hrefl : ∀ s, R s s)
  (htasks : Built R F runTasks)

include hrefl htasks in
theorem built_checkReset {ticks : UInt8} (ht : Built R F (setTimeout ticks)) (hr : Built R F rstat)
    (hn : ∀ pressed, Built R F (note (.checkReset ticks pressed))) :
    Built R F (checkReset ticks) := by
  refine built_bind ht fun _ => built_bind (built_whileDo ?_ htasks) fun _ => ?_
  · exact built_bind (built_read hrefl _) fun _ => built_ite hr (built_pure _)
  · exact built_bind hr fun pressed => built_bind (hn pressed) fun _ => built_pure _

theorem built_classifyBoot (h : ControlSteps R) (hcheck : ∀ ticks, Built R F (checkReset ticks))
    (hreset : Built R F (resetEspAndWait false)) (hmode : ∀ mode, Built R F (setBootMode mode))
    (available : Bool) : Built R F (classifyBoot available) := by
  have hcontrol (v : UInt8) : Built R F (setLedControl v) := built_setLedControl h.toTaskSteps v
  refine built_bind (hcheck _) fun _ => built_ite ?_ ?_
  · refine built_bind (built_setLedsEnabled h _) fun _ => built_bind (hmode _) fun _ => ?_
    refine built_bind (hcheck _) fun _ => built_ite ?_ (built_pure _)
    refine built_bind (hmode _) fun _ => built_bind hreset fun _ => ?_
    refine built_bind (hcheck _) fun _ => built_ite ?_ (built_pure _)
    refine built_bind (hmode _) fun _ => built_bind (hcontrol _) fun _ => ?_
    refine built_bind (hcheck _) fun _ => built_ite ?_ (built_pure _)
    exact built_bind (hmode _) fun _ => hcontrol _
  · refine built_bind (built_setLedsEnabled h _) fun _ => built_bind (hmode _) fun _ => ?_
    exact built_setTimeout h.timeout _

include hrefl htasks

theorem built_mainLoop : Built R F (.whileDo keepRunning runTasks) := by
  refine built_whileDo ?_ htasks
  exact built_bind (built_read hrefl _) fun _ => built_ite (built_pure _) (built_read hrefl _)

theorem built_main (hsetup : Built R F setupHardware)
    (hclassify : ∀ available, Built R F (classifyBoot available)) (hstart : Built R F startSketch)
    (r : Reset) : Built R F (main r) := by
  have hboot (available : Bool) : Built R F (bootloader available) := by
    refine built_bind hsetup fun _ => built_bind (hclassify available) fun _ => ?_
    exact built_bind (built_mainLoop hrefl htasks) fun _ => hstart
  refine built_bind (built_read hrefl _) fun available => ?_
  exact built_ite (hboot available) (built_ite hstart (built_ite hstart (hboot available)))

end Main

theorem BootSteps.built_classifyBoot {R : State → State → Prop} {F : Procedures State}
    (h : BootSteps R) (havr : Built R F avr109Programmer) (available : Bool) :
    Built R F (classifyBoot available) := by
  refine Tasks.built_classifyBoot h.toControlSteps (fun ticks => ?_) (h.built_resetEspAndWait false)
    (fun mode => built_modify fun s => h.bootMode s mode) available
  exact built_checkReset h.refl (h.built_runTasks havr) (built_setTimeout h.timeout ticks)
    (.act h.rstat) fun pressed => built_modify fun s => h.checkReset s ticks pressed

inductive Avr109Sessions : Procedures State
  | avr109Programmer : Avr109Sessions Unit avr109Programmer

/-- `main` in stages: `P` holds until the hardware is set up and `I` from then
until the sketch is entered. -/
theorem BootSteps.main_stages {A G P I : State → Prop} {Q : Unit → State → Prop}
    (h : BootSteps fun s t => I s → I t) (hP : Stable handle A P) (hI : Stable handle A I)
    (hgP : ∀ s, A s → P s → G s) (hgI : ∀ s, A s → I s → G s)
    (hsetup : Triple handle A G P setupHardware fun _ => I)
    (havr : Triple handle A G I avr109Programmer fun _ => I)
    (hstart : Triple handle A G I startSketch Q) (hjump : Triple handle A G P startSketch Q)
    (r : Reset) : Triple handle A G P (main r) Q := by
  have hbuilt {α : Type} {p : Fw α} (hb : Built (fun s t => I s → I t) Avr109Sessions p) :
      Triple handle A G I p fun _ => I := by
    refine hb.triple hI hgI (fun _ _ hst _ => hst) ?_
    intro β f hf
    cases hf
    exact havr
  have hsession : Built (fun s t => I s → I t) Avr109Sessions avr109Programmer :=
    .call .avr109Programmer
  have hboot (available : Bool) : Triple handle A G P (bootloader available) Q := by
    apply Triple.bind hsetup
    intro _
    apply Triple.bind (hbuilt (h.built_classifyBoot hsession available))
    intro _
    apply Triple.bind (hbuilt (built_mainLoop h.refl (h.built_runTasks hsession)))
    intro _
    exact hstart
  apply Triple.bind (R := fun _ => P)
  · exact .act _ hP (fun _ => hP) hgP (fun _ => hgP) fun _ _ hs _ => hs
  intro available
  exact .ite (fun _ => hboot available) fun _ => .ite (fun _ => hjump) fun _ =>
    .ite (fun _ => hjump) fun _ => hboot available

section Tasks

variable {A : State → Prop} {I G : Core → Prop} (hI : ∀ f, TaskWrite f → ∀ c, I c → I (f c))
include hI

theorem deviceSteps_core : DeviceSteps fun s t => I s.core → I t.core where
  refl _ hs := hs
  usb _ _ _ _ _ hs := hs
  leds s _ c7 d5 := hI _ (.pins fun p => { p with portC7 := c7, portD5 := d5 }) s.core
  ledControl s v := hI _ (.ledControl v) s.core
  udr s ch := hI _ (.udr ch) s.core
  timeout _ _ hs := hs
  ledsEnabled s v := hI _ (.ledsEnabled v) s.core
  observe s o ho := by
    cases o with
    | espWait => exact hI _ .espWait s.core
    | espLoop => exact hI _ .espLoop s.core
    | slipFlushed waiting => exact hI _ (.slipFlushed waiting) s.core
    | _ => cases ho
  rtsPulse _ hs := hs
  pins s f := hI _ (.pins f) s.core
  ring _ _ hs := hs

theorem keeps_task {f : Core → Core} (h : TaskWrite f) : Keeps (fun s => I s.core) (onCore f) :=
  fun s hs => hI f h s.core hs

omit hI in
theorem keeps_setTimeout (n : UInt8) : Keeps (fun s => I s.core) (setTimeout n) := fun _ hs => hs

theorem keeps_resetEspAndWait (programMode : Bool) :
    Keeps (fun s => I s.core) (resetEspAndWait programMode) :=
  ((deviceSteps_core hI).built_resetEspAndWait programMode).keeps

theorem keeps_setupHardware : Keeps (fun s => I s.core) setupHardware := by
  have hpins (f : Pins → Pins) : Keeps (fun s => I s.core) (onPins f) := keeps_task hI (.pins f)
  iterate 4
    apply keeps_bind (hpins _)
    intro _
  refine keeps_bind (fun s hs => hI _ (.masks s.core.timsk1 true s.core.sreg) s.core hs) ?_
  intro _
  refine keeps_bind (fun s hs => hI _ (.masks true s.core.rxcie1 s.core.sreg) s.core hs) ?_
  intro _
  exact fun s hs => hI _ (.masks s.core.timsk1 s.core.rxcie1 true) s.core hs

omit hI in
theorem Keeps.spec {α : Type} {p : Fw α} (h : Keeps (fun s => I s.core) p) (hG : ∀ c, I c → G c) :
    Triple handle A (fun s => G s.core) (fun s => I s.core) p (fun _ s => I s.core) :=
  (Triple.of_keeps (stable_core I) p h).guarantee fun s => hG s.core

variable (hG : ∀ c, I c → G c)
  (havr : Triple handle A (fun s => G s.core) (fun s => I s.core) avr109Programmer
    (fun _ s => I s.core))
include hG havr

theorem runTasks_spec :
    Triple handle A (fun s => G s.core) (fun s => I s.core) runTasks (fun _ s => I s.core) := by
  refine ((deviceSteps_core hI).built_runTasks (.call Avr109Sessions.avr109Programmer)).triple
    (stable_core I) (fun s _ => hG s.core) ?_ ?_
  · exact fun _ _ hst _ => hst
  · intro β f hf
    cases hf
    exact havr

theorem checkReset_spec (ticks : UInt8) :
    Triple handle A (fun s => G s.core) (fun s => I s.core) (checkReset ticks)
      (fun pressed s => I s.core ∧ s.core.trace.head? = some (.checkReset ticks pressed)) := by
  have hrstat : Triple handle A (fun s => G s.core) (fun s => I s.core) rstat
      (fun _ s => I s.core) := Keeps.spec (fun s hs => hI _ (.rstat s.button) s.core hs) hG
  apply Triple.bind (Keeps.spec (keeps_setTimeout ticks) hG)
  intro _
  apply Triple.bind (R := fun _ s => I s.core)
  · refine Triple.whileDo (R := fun _ s => I s.core) (stable_core I) (stable_core I)
      (fun s _ => hG s.core) (fun s _ => hG s.core) ?_ (runTasks_spec hI hG havr)
    apply Triple.bind (Keeps.spec (keeps_read _ _) hG)
    intro _
    exact .ite (fun _ => hrstat) fun _ => Keeps.spec (keeps_pure _ _) hG
  intro _
  apply Triple.bind hrstat
  intro pressed
  have hpost : Stable handle A fun s =>
      I s.core ∧ s.core.trace.head? = some (.checkReset ticks pressed) :=
    stable_core fun c => I c ∧ c.trace.head? = some (.checkReset ticks pressed)
  apply Triple.bind
    (R := fun _ s => I s.core ∧ s.core.trace.head? = some (.checkReset ticks pressed))
  · refine .act _ (stable_core I) (fun _ => hpost) (fun s _ => hG s.core)
      (fun _ s _ hs => hG s.core hs.1) ?_
    intro s _ hs _
    exact ⟨hI _ (.checkReset ticks pressed) s.core hs, rfl⟩
  intro _
  exact .ret pressed hpost (fun s _ hs => hG s.core hs.1) fun _ _ hs => hs

end Tasks

end Adelino.Tasks
