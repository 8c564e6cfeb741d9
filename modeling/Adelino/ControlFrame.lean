import Adelino.Calls
import Adelino.ControlStack

namespace Adelino.ControlFrame

open Adelino.Program Adelino.Logic Adelino.Calls Adelino.DescriptorBytes Adelino.ControlPipe
  Adelino.ControlStack

/-- What an access of the device cannot do: it neither speaks for the host nor
makes up a SETUP packet. -/
structure Inside (s t : State) : Prop where
  host : t.wire.host = s.wire.host
  calm : t.calm = s.calm
  rxstpi : t.wire.ep.rxstpi = true → s.wire.ep.rxstpi = true

theorem Inside.refl (s : State) : Inside s s := ⟨rfl, rfl, fun h => h⟩

section Accesses

variable {F : Procedures State}

theorem inside_read {α : Type} (f : State → α) : Built Inside F (.read f) :=
  built_read Inside.refl f

theorem inside_onDev (f : Variables → Variables) : Built Inside F (onDev f) :=
  built_modify fun _ => ⟨rfl, rfl, fun h => h⟩

theorem inside_setDeviceState (d : Endpoint.DeviceState) : Built Inside F (setDeviceState d) :=
  built_modify fun _ => ⟨rfl, rfl, fun h => h⟩

theorem inside_setSreg (b : Bool) : Built Inside F (.modify fun s => { s with sreg := b }) :=
  built_modify fun _ => ⟨rfl, rfl, fun h => h⟩

theorem inside_onControl {f : ControlEndpoint → ControlEndpoint}
    (hf : ∀ e, (f e).rxstpi = true → e.rxstpi = true) : Built Inside F (onControl f) := by
  refine built_modify fun s => ?_
  cases s.control with
  | true => exact ⟨rfl, rfl, hf _⟩
  | false => exact .refl s

theorem inside_clearSetup : Built Inside F clearSetup := by
  refine inside_onControl fun e h => ?_
  unfold ControlEndpoint.clearSetup at h
  split at h
  · assumption
  · exact h

theorem inside_clearOut : Built Inside F clearOut := by
  refine inside_onControl fun e h => ?_
  unfold ControlEndpoint.clearOut at h
  split at h <;> exact h

theorem inside_clearIn : Built Inside F clearIn := by
  refine inside_onControl fun e h => ?_
  unfold ControlEndpoint.clearIn at h
  split at h <;> exact h

theorem inside_write8 (b : UInt8) : Built Inside F (write8 b) := by
  refine inside_onControl fun e h => ?_
  unfold ControlEndpoint.write8 at h
  split at h <;> exact h

theorem inside_endpointRead8 : Built Inside F endpointRead8 := by
  refine .act fun s => ?_
  split
  · refine ⟨rfl, rfl, fun h => ?_⟩
    simp only [ControlEndpoint.read8] at h
    split at h <;> exact h
  · exact .refl s

theorem inside_setStallrq (stall : Bool) : Built Inside F (setStallrq stall) := by
  refine built_modify fun s => ?_
  split <;> exact ⟨rfl, rfl, fun h => h⟩

end Accesses

section Streams

variable {F : Procedures State}

theorem inside_fill (rest : List UInt8) (n : Nat) : Built Inside F (fill rest n) := by
  induction rest generalizing n with
  | nil => exact built_pure _
  | cons b rest ih =>
    exact built_ite (built_bind (inside_write8 b) fun _ => ih (n + 1)) (built_pure _)

theorem inside_writePacket (rest : List UInt8) : Built Inside F (writePacket rest) := by
  refine built_bind (inside_read _) fun _ => built_bind (inside_fill _ _) fun _ => ?_
  exact built_bind inside_clearIn fun _ => built_pure _

theorem inside_attached {α : Type} {k : StreamStatus → Stack α} {p : Stack α}
    (hk : ∀ status, Built Inside F (k status)) (hp : Built Inside F p) : Built Inside F (do
      match gone (← deviceState) with
      | some status => k status
      | none => p) := by
  refine built_bind (inside_read _) fun b => ?_
  cases gone b with
  | some status => exact hk status
  | none => exact hp

theorem inside_writeTurn (x : List UInt8 × Bool) : Built Inside F (writeTurn x) := by
  refine inside_attached (fun _ => built_pure _) ?_
  refine built_bind (inside_read _) fun _ => built_ite (built_pure _) ?_
  refine built_bind (inside_read _) fun _ => built_ite (built_pure _) ?_
  exact built_bind (inside_read _) fun _ => built_ite (inside_writePacket _) (built_pure _)

theorem inside_writeLoop (x : List UInt8 × Bool) : Built Inside F (writeLoop x) :=
  built_ite (.iter inside_writeTurn x) (built_pure _)

theorem inside_await (f : State → Bool) : Built Inside F (.iter (fun _ => do
    if ← test f then
      return .inr .noError
    else
      match gone (← deviceState) with
      | some status => return .inr status
      | none => return .inl ()) ()) := by
  refine .iter (fun _ => built_bind (inside_read _) fun _ => built_ite (built_pure _) ?_) _
  exact inside_attached (fun _ => built_pure _) (built_pure _)

theorem inside_writeControlStream (buffer : List UInt8) :
    Built Inside F (writeControlStream buffer) := by
  refine built_bind (inside_read _) fun _ => built_bind (built_when inside_clearIn) fun _ => ?_
  refine built_bind (inside_writeLoop _) fun r => ?_
  cases r with
  | some status => exact built_pure _
  | none => exact inside_await _

theorem inside_takeBytes (length i : Nat) : Built Inside F (takeBytes length i) := by
  refine .iter (fun _ => built_bind (inside_read _) fun _ => built_ite ?_ (built_pure _)) _
  exact built_bind inside_endpointRead8 fun _ => built_bind (inside_onDev _) fun _ => built_pure _

theorem inside_readTurn (length i : Nat) : Built Inside F (readTurn length i) := by
  refine inside_attached (fun _ => built_pure _) ?_
  refine built_bind (inside_read _) fun _ => built_ite (built_pure _) ?_
  refine built_bind (inside_read _) fun _ => built_ite ?_ (built_pure _)
  exact built_bind (inside_takeBytes _ _) fun _ => built_bind inside_clearOut fun _ => built_pure _

theorem inside_readControlStream (length : Nat) : Built Inside F (readControlStream length) := by
  refine built_bind (built_when inside_clearOut) fun _ => ?_
  refine built_bind (built_ite (.iter (inside_readTurn length) 0) (built_pure _)) fun r => ?_
  cases r with
  | some status => exact built_pure _
  | none => exact inside_await _

theorem inside_awaitStatus (f : State → Bool) : Built Inside F (awaitStatus (test f)) := by
  refine .iter (fun _ => built_bind (inside_read _) fun _ => built_ite (built_pure _) ?_) _
  exact built_bind (inside_read _) fun _ => built_ite (built_pure _) (built_pure _)

theorem inside_clearStatusStage : Built Inside F clearStatusStage := by
  refine built_bind (inside_read _) fun _ => built_ite ?_ ?_
  · exact built_bind (inside_awaitStatus _) fun _ => built_when inside_clearOut
  · exact built_bind (inside_awaitStatus _) fun _ => built_when inside_clearIn

end Streams

section Requests

variable {F : Procedures State} (r : RequestHeader)

theorem inside_configureEndpoint (number type direction : UInt8) (size : Nat) :
    Built Inside F (configureEndpoint number type direction size) := by
  refine built_bind (inside_onDev _) fun _ => built_bind (inside_onDev _) fun _ => ?_
  refine built_bind (inside_onDev _) fun _ => built_bind (inside_onDev _) fun _ => ?_
  exact inside_onDev _

theorem inside_eventConfigurationChanged : Built Inside F eventConfigurationChanged := by
  refine built_bind (inside_configureEndpoint _ _ _ _) fun _ => ?_
  exact built_bind (inside_configureEndpoint _ _ _ _) fun _ => inside_configureEndpoint _ _ _ _

theorem inside_getLineEncoding : Built Inside F getLineEncoding := by
  refine built_bind inside_clearSetup fun _ => built_bind (inside_read _) fun _ => ?_
  exact built_bind (inside_writeControlStream _) fun _ => inside_clearOut

theorem inside_setLineEncoding : Built Inside F setLineEncoding := by
  refine built_bind inside_clearSetup fun _ => ?_
  exact built_bind (inside_readControlStream _) fun _ => inside_clearIn

theorem inside_setControlLineState : Built Inside F (setControlLineState r) := by
  refine built_bind inside_clearSetup fun _ => ?_
  exact built_bind inside_clearStatusStage fun _ => inside_onDev _

theorem inside_eventControlRequest : Built Inside F (eventControlRequest r) := by
  refine built_ite (built_pure _) ?_
  refine built_ite (built_when inside_getLineEncoding) ?_
  refine built_ite (built_when inside_setLineEncoding) ?_
  exact built_ite (built_when (inside_setControlLineState r)) (built_pure _)

theorem inside_usbDeviceSetAddress : Built Inside F (usbDeviceSetAddress r) := by
  refine built_bind (inside_read _) fun _ => built_bind (inside_setSreg _) fun _ => ?_
  refine built_bind inside_clearSetup fun _ => built_bind inside_clearStatusStage fun _ => ?_
  refine built_bind
    (built_whileDo (built_bind (inside_read _) fun _ => built_pure _) (built_pure _)) fun _ => ?_
  refine built_bind (built_bind (inside_onDev _) fun _ => inside_onDev _) fun _ => ?_
  exact built_bind (inside_setDeviceState _) fun _ => inside_setSreg _

theorem inside_usbDeviceSetConfiguration : Built Inside F (usbDeviceSetConfiguration r) := by
  refine built_ite (built_pure _) ?_
  refine built_bind inside_clearSetup fun _ => built_bind (inside_onDev _) fun _ => ?_
  refine built_bind inside_clearStatusStage fun _ => ?_
  refine built_bind (built_bind (inside_read _) fun _ => built_ite (built_pure _)
    (built_bind (inside_read _) fun _ => built_ite (built_pure _) (built_pure _))) fun _ => ?_
  exact built_bind (inside_setDeviceState _) fun _ => inside_eventConfigurationChanged

theorem inside_usbDeviceGetConfiguration : Built Inside F usbDeviceGetConfiguration := by
  refine built_bind inside_clearSetup fun _ => built_bind (inside_read _) fun _ => ?_
  refine built_bind (inside_write8 _) fun _ => built_bind inside_clearIn fun _ => ?_
  exact inside_clearStatusStage

theorem inside_usbDeviceGetDescriptor : Built Inside F (usbDeviceGetDescriptor r) := by
  refine built_bind (.act fun _ => ⟨rfl, rfl, fun h => h⟩) fun response => ?_
  cases response.address with
  | none => exact built_pure _
  | some descriptor =>
    refine built_ite (built_pure _) (built_bind inside_clearSetup fun _ => ?_)
    exact built_bind (inside_writeControlStream _) fun _ => inside_clearOut

theorem inside_usbDeviceGetStatus : Built Inside F (usbDeviceGetStatus r) := by
  refine built_ite ?_ (built_pure _)
  refine built_bind (inside_onDev _) fun _ => built_bind (inside_read _) fun _ => ?_
  refine built_bind (inside_onDev _) fun _ => built_bind inside_clearSetup fun _ => ?_
  refine built_bind (inside_write8 _) fun _ => built_bind (inside_write8 _) fun _ => ?_
  exact built_bind inside_clearIn fun _ => inside_clearStatusStage

theorem inside_clearHalt : Built Inside F (clearHalt r) :=
  built_bind (inside_setStallrq _) fun _ => built_bind (inside_onDev _) fun _ => inside_onDev _

theorem inside_usbDeviceClearSetFeature : Built Inside F (usbDeviceClearSetFeature r) := by
  refine built_ite (built_ite (built_pure _) ?_) (built_pure _)
  refine built_bind (built_when ?_) fun _ => built_bind (inside_onDev _) fun _ => ?_
  · refine built_bind (inside_onDev _) fun _ => built_bind (inside_read _) fun _ => ?_
    exact built_ite (built_ite (inside_setStallrq _) (inside_clearHalt r)) (built_pure _)
  · exact built_bind inside_clearSetup fun _ => inside_clearStatusStage

theorem inside_standardRequest : Built Inside F (standardRequest r) := by
  refine built_ite (built_when (inside_usbDeviceGetStatus r)) ?_
  refine built_ite (built_when (inside_usbDeviceClearSetFeature r)) ?_
  refine built_ite (built_when (inside_usbDeviceSetAddress r)) ?_
  refine built_ite (built_when (inside_usbDeviceGetDescriptor r)) ?_
  refine built_ite (built_when inside_usbDeviceGetConfiguration) ?_
  exact built_ite (built_when (inside_usbDeviceSetConfiguration r)) (built_pure _)

theorem inside_processRequest : Built Inside F (processRequest r) := by
  refine built_bind (inside_eventControlRequest r) fun _ => ?_
  refine built_bind (inside_read _) fun _ => ?_
  refine built_bind (built_when (inside_standardRequest r)) fun _ => ?_
  refine built_bind (inside_read _) fun _ => built_when ?_
  exact built_bind (inside_setStallrq _) fun _ => inside_clearSetup

theorem inside_readBytes (n : Nat) : Built Inside F (readBytes n) := by
  induction n with
  | zero => exact built_pure _
  | succ n ih =>
    exact built_bind inside_endpointRead8 fun _ => built_bind ih fun _ => built_pure _

theorem inside_usbUsbTask : Built Inside F usbUsbTask := by
  have hmark (b : Bool) : Built Inside F (setProcessing b) :=
    built_modify fun _ => ⟨rfl, rfl, fun h => h⟩
  refine built_bind (inside_read _) fun _ => built_ite ?_ (built_pure _)
  refine built_bind (inside_read _) fun _ => built_bind (inside_onDev _) fun _ => ?_
  refine built_bind (inside_read _) fun _ => built_bind (built_when ?_) fun _ => inside_onDev _
  refine built_bind (hmark true) fun _ => built_bind (inside_readBytes 8) fun _ => ?_
  refine built_bind (inside_onDev _) fun _ => built_bind (inside_read _) fun r => ?_
  exact built_bind (inside_processRequest r) fun _ => hmark false

end Requests

end Adelino.ControlFrame
