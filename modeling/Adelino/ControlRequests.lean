import Adelino.ControlSpec
import Adelino.CdcDevice

namespace Adelino.ControlRequests

open Adelino.Program Adelino.Logic Adelino.Progress Adelino.Deadline Adelino.Endpoint
  Adelino.Descriptors Adelino.DescriptorBytes Adelino.ControlPipe Adelino.ControlStack
  Adelino.ControlSpec Adelino.CdcDevice

section Dispatch

theorem eventControlRequest_eq (r : RequestHeader) :
    eventControlRequest r = match decode r with
      | .getLineEncoding => getLineEncoding
      | .setLineEncoding => setLineEncoding
      | .setControlLineState => setControlLineState r
      | _ => return () := by
  obtain ⟨⟨type, request, wValue, wIndex⟩, wLength⟩ := r
  generalize hq : decode _ = q
  simp only [decode] at hq
  split at hq <;> subst hq <;> simp only [eventControlRequest, Prog.when]
  case h_12 => split_ifs <;> first | rfl | (exfalso; grind)
  all_goals rfl

theorem standardRequest_eq (r : RequestHeader) :
    standardRequest r = match decode r with
      | .getStatus => usbDeviceGetStatus r
      | .setFeature _ => usbDeviceClearSetFeature r
      | .setAddress => usbDeviceSetAddress r
      | .getDescriptor => usbDeviceGetDescriptor r
      | .getConfiguration => usbDeviceGetConfiguration
      | .setConfiguration => usbDeviceSetConfiguration r
      | _ => return () := by
  obtain ⟨⟨type, request, wValue, wIndex⟩, wLength⟩ := r
  generalize hq : decode _ = q
  simp only [decode] at hq
  split at hq <;> subst hq <;> simp only [standardRequest, Prog.when]
  case h_12 =>
    have hdevice : (0x00 : UInt8) &&& 0x1F ≠ 0x02 := by decide
    simp only [usbDeviceGetStatus, usbDeviceClearSetFeature]
    split_ifs <;> first | rfl | (exfalso; grind)
  all_goals rfl

end Dispatch

/-- The device is through with the transfer `t`, which ends with `o`. -/
inductive Answered (t : Transfer) (h : Host) (o : Outcome) : Wire → Prop
  | done {w : Wire} (hw : Done t h o w) : Answered t h o w
  | closing {w : Wire} (ha : t.isSetAddress = false) (ho : o = .completed []) (hw : Closing t h w) :
      Answered t h o w
  | refused {w : Wire} (ha : t.isSetAddress = false) (ho : o = .stalled) (hs : w.ep.rxstpi = false)
      (hr : w.ep.stallrq = true)
      (hw : (∃ stage, w.host = h.proceed t stage) ∨ w.host = h.finish t .stalled) : Answered t h o w

section Answers

variable {t : Transfer} {h : Host} {d : Variables} {o : Outcome}

theorem Answered.rxstpi {w : Wire} (hw : Answered t h o w) : w.ep.rxstpi = false := by
  cases hw with
  | done hw => exact hw.rxstpi
  | closing ha ho hw => obtain rfl | rfl := hw <;> rfl
  | refused ha ho hs hr hw => exact hs

theorem steady_answered : WireSteady (Course t h o) (Answered t h o) where
  token a w hw := by
    cases hw with
    | done hw => exact .done ((steady_done o).token a w hw)
    | closing ha ho hw => exact .closing ha ho (steady_closing.token a w hw)
    | refused ha ho hs hr hw =>
      obtain ⟨ep, host⟩ := w
      obtain ⟨stage, he⟩ | he := hw
      · dsimp only at he hs hr
        subst he
        obtain he | he := token_proceed (t := t) (h := h) a ep stage
        · rw [he]
          exact .refused ha ho hs hr (.inl ⟨stage, rfl⟩)
        · have hstall :
              Wire.transact ⟨ep, h.proceed t stage⟩ t stage = ⟨ep, h.finish t .stalled⟩ := by
            simp only [Wire.transact, hs, hr, Bool.false_eq_true, if_false, if_true]
            rfl
          rw [he, hstall]
          exact .refused ha ho hs hr (.inr rfl)
      · rw [token_of_current (by rw [he]; rfl) a]
        exact .refused ha ho hs hr (.inr he)
  within w hw := by
    cases hw with
    | done hw => exact .inr hw.host
    | closing ha ho hw => exact ho ▸ steady_closing.within w hw
    | refused ha ho hs hr hw => exact ho ▸ hw

variable (hd : d.uenum = 0) (hr : d.controlRequest = t.header)
include hd hr

omit hr in
theorem beginAnswer_spec (o : Outcome) (hl : 1 ≤ t.wLength) (hdir : t.header.deviceToHost = true) :
    Serves (Course t h o) (At d (Asked t h [])) clearSetup
      (fun _ => At d (Filling t h (.dataIn []) [])) := by
  have hstage : t.firstStage = .dataIn [] := by
    rw [Transfer.firstStage, if_neg (by omega), if_pos hdir]
  exact clearSetup_spec hd o [] hstage (.inl ⟨[], rfl⟩)

theorem stream_spec (ha : h.address = d.address) {buffer : List UInt8} (hb : buffer ≠ [])
    (hl : 1 ≤ t.wLength) :
    Serves (Course t h (.completed (buffer.take t.wLength)))
      (At d (Filling t h (.dataIn []) []))
      (do
        let _ ← writeControlStream buffer
        clearOut) (fun _ => At d (Done t h (.completed (buffer.take t.wLength)))) := by
  refine .bind (writeControlStream_spec hd ha hr hb (by omega)) fun _ => ?_
  exact clearOut_spec hd

omit hr in
theorem accept_spec (o : Outcome) (hl : t.wLength = 0) :
    Serves (Course t h o) (At d (Asked t h [])) clearSetup
      (fun _ => At d (Filling t h .statusIn [])) :=
  clearSetup_spec hd o [] (if_pos hl) (.inr rfl)

theorem acknowledge_spec (hdir : t.header.deviceToHost = false) :
    Serves (Course t h (.completed []))
      (At d (Filling t h .statusIn [])) clearStatusStage (fun _ => At d (Closing t h)) :=
  clearStatusIn_spec hd (by rw [hr, hdir])

theorem getLineEncoding_spec (ha : h.address = d.address) (hb : d.lineEncoding ≠ [])
    (hl : 1 ≤ t.wLength)
    (hdir : t.header.deviceToHost = true) :
    Serves (Course t h (.completed (d.lineEncoding.take t.wLength)))
      (At d (Asked t h [])) getLineEncoding
      (fun _ => At d (Done t h (.completed (d.lineEncoding.take t.wLength)))) := by
  have hfill := steady_filling (t := t) (h := h) (.completed (d.lineEncoding.take t.wLength))
    (.inl ⟨[], rfl⟩) []
  refine .bind (beginAnswer_spec hd _ hl hdir) fun _ => ?_
  refine .bind (read_spec hfill (fun b => hfill.pure (b = d.lineEncoding)) fun s hs =>
    ⟨by rw [hs.dev], hs.wire⟩) fun b => pure_spec fun hb' => ?_
  subst hb'
  exact stream_spec hd hr ha hb hl

omit hr in
theorem setLineEncoding_spec (ha : h.address = d.address) (hl : t.wLength = 7)
    (ht : t.data.length = 7)
    (he : d.lineEncoding.length = 7) (hdir : t.header.deviceToHost = false) :
    Serves (Course t h (.completed [])) (At d (Asked t h []))
      setLineEncoding
      (fun _ => At { d with lineEncoding := t.data } (Closing t h)) := by
  have hstage : t.firstStage = .dataOut t.data := by
    rw [Transfer.firstStage, if_neg (by omega), if_neg (by simp [hdir])]
  refine .bind (onControl_spec hd (steady_asked _ []) (steady_taking _ 0) ?_) fun _ => ?_
  · rintro w rfl
    rw [hstage]
    exact .waiting (by omega)
  rw [sizeofLineEncoding, ← ht]
  refine .bind (readControlStream_spec hd (by omega) ha (by omega)) fun _ => ?_
  exact close_spec (d := { d with lineEncoding := t.data }) hd

theorem setControlLineState_spec (hl : t.wLength = 0) (hdir : t.header.deviceToHost = false) :
    Serves (Course t h (.completed [])) (At d (Asked t h []))
      (setControlLineState t.header)
      (fun _ => At { d with rtsPulse := d.rtsPulse ||| (t.header.wValue &&& 2).toUInt8 }
        (Closing t h)) :=
  .bind (accept_spec hd _ hl) fun _ => .bind (acknowledge_spec hd hr hdir) fun _ =>
    onDev_spec steady_closing _

omit hd hr in
theorem waits_closing (ha : h.address = d.address) :
    Awaits handle Calm (At d (Closing t h)) (fun s => occupied s.wire) .token := by
  refine At.waits steady_closing (fun a w hw => ?_) fun w hw hpos => ?_
  · obtain rfl | rfl := hw
    · exact Nat.le_trans (by unfold occupied; split <;> omega) (Nat.le_refl 1)
    · exact Nat.le_refl 0
  · obtain rfl | rfl := hw
    · rw [← ha, token_own]
      exact Nat.one_pos
    · cases hpos

omit hr in
theorem awaitTurn_closing :
    Serves (Course t h (.completed [])) (At d (Closing t h))
      (do
        if ← (do return !(← isInReady)) then
          (return ())
          return .inl ()
        else
          return .inr ())
      (fun r : Unit ⊕ Unit => Sum.elim (fun _ => At d (Closing t h))
        (fun _ => At d (Done t h (.completed []))) r) := by
  have hwait (b : Bool) : WireSteady (Course t h (.completed []))
      fun w => if b then Closing t h w else Done t h (.completed []) w := by
    cases b
    · exact steady_done _
    · exact steady_closing
  refine .bind (R := fun b => At d fun w => if b then Closing t h w else Done t h (.completed []) w)
    (.bind (flag_spec (ψ := fun b w => if !b then Closing t h w else Done t h (.completed []) w) hd
      steady_closing (fun b => hwait !b) ?_) fun b => ret_spec _ (hwait !b) fun w hw => hw)
        fun b => ?_
  · rintro w (rfl | rfl)
    · exact .inl rfl
    · exact ⟨rfl, rfl⟩
  cases b with
  | true => exact again_spec () steady_closing fun _ hs => hs
  | false => exact leave_spec () (steady_done _) fun _ hs => hs

omit hr in
theorem awaitTaken_spec (ha : h.address = d.address) :
    Serves (Course t h (.completed [])) (At d (Closing t h))
      (.whileDo (do return !(← isInReady)) (return ()))
      (fun _ => At d (Done t h (.completed []))) := by
  refine Correct.poll (ρ := fun s => occupied s.wire) (P := fun _ => At d (Closing t h))
    (fun _ => 0) (fun _ hσ => hσ.token) (fun _ => rfl) (fun _ => (awaitTurn_closing hd).safe)
    (fun σ hσ Δ t₀ _ => ?_) ()
  have hwait := waits_closing (t := t) ha
  refine .bind (R := fun t₁ b s =>
      Pending hσ.token _ Δ (t₀ + 1) (At d (Closing t h)) t₁ s ∧ (b = true → t₀ < Δ))
    (.bind (hwait.look hσ.cpu hσ.token _ (c := (· = false)) fun s hs hb => ?_)
      fun b => .ret _ fun _ _ hq => ⟨hq.1, fun hb => hq.2 (by simpa using hb)⟩) fun b => ?_
  · rw [hs.control hd, Bool.true_and] at hb
    obtain hw | hw := hs.wire
    · rw [hw]
      exact Nat.one_pos
    · rw [hw] at hb
      cases hb
  cases b with
  | true =>
    intro t s hs
    exact Polled.wait (Nat.lt_succ_self _) (hs.2 rfl) t s hs.1
  | false => exact Polled.leave ()

omit hd hr in
theorem setSreg_spec {C φ : Wire → Prop} (hφ : WireSteady C φ) (b : Bool) :
    Serves C (At d φ) (.modify fun s => { s with sreg := b })
      (fun _ => At d φ) :=
  act_spec hφ (fun _ => hφ) fun _ hs => ⟨hs.dev, hs.wire, hs.processing, hs.quiet⟩

omit hd hr in
theorem setDeviceState_spec {C φ : Wire → Prop} (hφ : WireSteady C φ) {state : DeviceState}
    (hu : state ≠ .unattached) (hs : state ≠ .suspended) :
    Serves C (At d φ) (setDeviceState state) (fun _ => At d φ) :=
  act_spec hφ (fun _ => hφ) fun _ h =>
    { h with quiet := { h.quiet with attached := hu, awake := hs } }

/-- The address changes after the host has seen the acknowledgement. -/
theorem usbDeviceSetAddress_spec (ha : h.address = d.address) (hl : t.wLength = 0)
    (hdir : t.header.deviceToHost = false) :
    Serves (Course t h (.completed [])) (At d (Asked t h []))
      (usbDeviceSetAddress t.header)
      (fun _ => At { d with udaddr := t.newAddress, adden := true }
        (Done t h (.completed []))) := by
  have hask := steady_asked (t := t) (h := h) (.completed []) []
  have hdone := steady_done (t := t) (h := h) (.completed [])
  refine .bind (read_spec hask (fun _ => hask) fun s hs => hs.wire) fun sreg => ?_
  refine .bind (setSreg_spec hask false) fun _ => ?_
  refine .bind (accept_spec hd _ hl) fun _ => .bind (acknowledge_spec hd hr hdir) fun _ => ?_
  refine .bind (awaitTaken_spec hd ha) fun _ => ?_
  refine .bind (.bind (onDev_spec hdone _) fun _ => onDev_spec hdone _) fun _ => ?_
  refine .bind (setDeviceState_spec hdone ?_ ?_) fun _ => ?_
  · split <;> simp
  · split <;> simp
  · exact setSreg_spec hdone sreg

theorem usbDeviceGetConfiguration_spec (ha : h.address = d.address) (hl : 1 ≤ t.wLength)
    (hdir : t.header.deviceToHost = true) :
    Serves (Course t h (.completed [d.configurationNumber]))
      (At d (Asked t h [])) usbDeviceGetConfiguration
      (fun _ => At d (Done t h (.completed [d.configurationNumber]))) := by
  have hfill := steady_filling (t := t) (h := h) (.completed [d.configurationNumber])
    (.inl ⟨[], rfl⟩) []
  refine .bind (beginAnswer_spec hd _ hl hdir) fun _ => ?_
  refine .bind (read_spec hfill (fun b => hfill.pure (b = d.configurationNumber)) fun s hs =>
    ⟨by rw [hs.dev], hs.wire⟩) fun b => pure_spec fun hb => ?_
  subst hb
  refine .bind (write8_spec hd _ [] [] (by decide) _) fun _ => ?_
  refine .bind (answer_spec hd (D := [d.configurationNumber]) (by simp [controlEndpointSize]))
    fun _ => ?_
  exact clearStatusOut_spec hd ha (by rw [hr, hdir])

omit hd hr in
theorem selectEndpoint_spec {C φ : Wire → Prop} (hφ : WireSteady C φ) (n : UInt8) :
    Serves C (At d φ) (selectEndpoint n)
      (fun _ => At { d with uenum := n } φ) :=
  onDev_spec hφ _

omit hr in
theorem selectBack_spec {C φ : Wire → Prop} (hφ : WireSteady C φ) (n : UInt8) :
    Serves C (At { d with uenum := n } φ) (selectEndpoint 0)
      (fun _ => At d φ) := by
  refine (selectEndpoint_spec hφ 0).post fun _ s hs => ?_
  have hback : { d with uenum := 0 } = d := by rw [← hd]
  rw [← hback]
  exact hs

def halted (d : Variables) (n : UInt8) : Bool := n ≠ 0 && (d.endpoints n).stallrq

omit hd hr in
theorem isStalled_spec (o : Outcome) {n : UInt8} :
    Serves (Course t h o) (At { d with uenum := n } (Asked t h []))
      isStalled (fun b => At { d with uenum := n } fun w => b = halted d n ∧ Asked t h [] w) := by
  have hask := steady_asked (t := t) (h := h) o []
  refine read_spec hask (fun b => hask.pure _) fun s hs => ⟨?_, hs.wire⟩
  simp only [State.control, hs.dev, halted, decide_eq_true_eq]
  split
  · next h0 =>
    rw [hs.wire, h0]
    rfl
  · next h0 => simp [h0]

theorem usbDeviceGetStatus_spec (ha : h.address = d.address) (hl : 2 ≤ t.wLength)
    (hdir : t.header.deviceToHost = true) (htype : t.header.bmRequestType = 0x82) :
    let status := [if halted d (endpointIndex t.header) then 1 else 0, 0]
    Serves (Course t h (.completed status)) (At d (Asked t h []))
      (usbDeviceGetStatus t.header) (fun _ => At d (Done t h (.completed status))) := by
  intro status
  have hask := steady_asked (t := t) (h := h) (.completed status) []
  rw [usbDeviceGetStatus, if_pos htype]
  refine .bind (selectEndpoint_spec hask _) fun _ => ?_
  refine .bind (isStalled_spec _) fun b => pure_spec fun hb => ?_
  subst hb
  refine .bind (selectBack_spec hd hask _) fun _ => ?_
  refine .bind (beginAnswer_spec hd _ (by omega) hdir) fun _ => ?_
  refine .bind (write8_spec hd _ [] [] (by decide) _) fun _ => ?_
  refine .bind (write8_spec hd _ [] [_] (by simp [controlEndpointSize]) _) fun _ => ?_
  refine .bind (answer_spec hd (D := status) (by simp [status, controlEndpointSize])) fun _ => ?_
  exact clearStatusOut_spec hd ha (by rw [hr, hdir])

def haltEndpoint (n : UInt8) (stall : Bool) (d : Variables) : Variables :=
  if (d.endpoints n).epen then
    { setEndpoint n { d.endpoints n with stallrq := stall } d with
      resets := d.resets ++ if stall then [] else [.fifo n, .dataToggle n] }
  else d

omit hd hr in
theorem setStallrq_spec (o : Outcome) {n : UInt8} (hn : n ≠ 0) (stall : Bool) :
    Serves (Course t h o) (At { d with uenum := n } (Asked t h []))
      (setStallrq stall)
      (fun _ => At { setEndpoint n { d.endpoints n with stallrq := stall } d with uenum := n }
        (Asked t h [])) := by
  have hask := steady_asked (t := t) (h := h) o []
  refine act_spec hask (fun _ => hask) fun s hs => ?_
  have hcontrol : s.control = false := by simp [State.control, hs.dev, hn]
  simp only [hcontrol, Bool.false_eq_true, if_false]
  exact { hs with dev := by rw [hs.dev]; rfl }

omit hd hr in
theorem clearHalt_spec (o : Outcome) (hn : endpointIndex t.header ≠ 0) :
    let n := endpointIndex t.header
    Serves (Course t h o) (At { d with uenum := n } (Asked t h [])) (clearHalt t.header)
      (fun _ => At { setEndpoint n { d.endpoints n with stallrq := false } d with
        uenum := n, resets := d.resets ++ [.fifo n, .dataToggle n] } (Asked t h [])) := by
  intro n
  have hask := steady_asked (t := t) (h := h) o []
  refine .bind (setStallrq_spec o hn false) fun _ => .bind (onDev_spec hask _) fun _ => ?_
  refine (onDev_spec hask _).post fun _ s hs => ?_
  simpa only [setEndpoint, List.append_assoc, List.singleton_append] using hs

omit hd hr in
theorem setEndpointHalt_spec (o : Outcome) (hn : endpointIndex t.header ≠ 0) :
    Serves (Course t h o) (At d (Asked t h []))
      (setEndpointHalt t.header)
      (fun _ => At { haltEndpoint (endpointIndex t.header) (t.header.bRequest = 0x03) d with
        uenum := endpointIndex t.header } (Asked t h [])) := by
  have hask := steady_asked (t := t) (h := h) o []
  refine .bind (selectEndpoint_spec hask _) fun _ => ?_
  refine .bind (read_spec hask
    (fun b => hask.pure (b = (d.endpoints (endpointIndex t.header)).epen)) ?_) fun b =>
    pure_spec fun hb => ?_
  · intro s hs
    exact ⟨by rw [hs.dev], hs.wire⟩
  unfold haltEndpoint
  rw [← hb]
  cases b with
  | false => exact ret_spec _ hask fun _ hw => hw
  | true =>
    by_cases hs : t.header.bRequest = 0x03
    · rw [if_pos hs, decide_eq_true hs, if_pos rfl, if_pos rfl, if_pos rfl, List.append_nil]
      exact setStallrq_spec o hn true
    · rw [if_neg hs, decide_eq_false hs]
      exact clearHalt_spec o hn

/-- Features other than the halt feature are acknowledged without effect. -/
theorem usbDeviceClearSetFeature_spec (hl : t.wLength = 0) (hdir : t.header.deviceToHost = false)
    (htype : t.header.bmRequestType &&& 0x1F = 0x02)
    (hn : ¬ (t.header.wValue.toUInt8 = 0 ∧ endpointIndex t.header = 0)) :
    Serves (Course t h (.completed [])) (At d (Asked t h []))
      (usbDeviceClearSetFeature t.header)
      (fun _ => At
        (if t.header.wValue.toUInt8 = 0 then
          haltEndpoint (endpointIndex t.header) (t.header.bRequest = 0x03) d else d)
        (Closing t h)) := by
  have hask := steady_asked (t := t) (h := h) (.completed []) []
  rw [usbDeviceClearSetFeature, if_pos htype, if_neg hn]
  by_cases hv : t.header.wValue.toUInt8 = 0
  · have hhalt : (haltEndpoint (endpointIndex t.header) (t.header.bRequest = 0x03) d).uenum = 0 ∧
        (haltEndpoint (endpointIndex t.header) (t.header.bRequest = 0x03) d).controlRequest =
          t.header := by
      unfold haltEndpoint
      split
      · exact ⟨hd, hr⟩
      · exact ⟨hd, hr⟩
    rw [if_pos hv, decide_eq_true hv]
    refine .bind (setEndpointHalt_spec _ fun h0 => hn ⟨hv, h0⟩) fun _ => ?_
    refine .bind (selectBack_spec hhalt.1 hask _) fun _ =>
      .bind (accept_spec hhalt.1 _ hl) fun _ => ?_
    exact acknowledge_spec hhalt.1 hhalt.2 hdir
  · rw [if_neg hv, decide_eq_false hv]
    refine .bind (ret_spec (ψ := fun _ => Asked t h []) () hask fun _ hw => hw) fun _ => ?_
    refine .bind (selectBack_spec hd hask d.uenum) fun _ => .bind (accept_spec hd _ hl) fun _ => ?_
    exact acknowledge_spec hd hr hdir

/-- `Endpoint_ConfigureEndpoint` on the registers. -/
def configureOne (number type direction : UInt8) (size : Nat) (d : Variables) : Variables :=
  { setEndpoint number (configured type direction size (d.endpoints number)) d with
    uenum := number
    resets := d.resets ++ [.memory number] }

omit hd hr in
theorem configureEndpoint_spec {C φ : Wire → Prop} (hφ : WireSteady C φ)
    (number type direction : UInt8) (size : Nat) :
    Serves C (At d φ) (configureEndpoint number type direction size)
      (fun _ => At (configureOne number type direction size d) φ) := by
  refine .bind (selectEndpoint_spec hφ _) fun _ => .bind (onDev_spec hφ _) fun _ => ?_
  refine .bind (onDev_spec hφ _) fun _ => .bind (onDev_spec hφ _) fun _ => ?_
  refine (onDev_spec hφ _).post fun _ s hs => ?_
  simpa only [configureOne, configured, setEndpoint, Function.update_self,
    Function.update_idem] using hs

def configureAll (d : Variables) : Variables :=
  configureOne cdcRxEpnum epTypeBulk endpointDirOut cdcTxRxEpSize
    (configureOne cdcTxEpnum epTypeBulk endpointDirIn cdcTxRxEpSize
      (configureOne cdcNotificationEpnum epTypeInterrupt endpointDirIn cdcNotificationEpsize d))

omit hd hr in
theorem eventConfigurationChanged_spec {C φ : Wire → Prop} (hφ : WireSteady C φ) :
    Serves C (At d φ) eventConfigurationChanged
      (fun _ => At (configureAll d) φ) :=
  .bind (configureEndpoint_spec hφ _ _ _ _) fun _ =>
    .bind (configureEndpoint_spec hφ _ _ _ _) fun _ =>
    configureEndpoint_spec hφ _ _ _ _

omit hd hr in
theorem configuredState_spec {C φ : Wire → Prop} (hφ : WireSteady C φ) :
    Serves C (At d φ) configuredState
      (fun b => At d fun w => (b ≠ .unattached ∧ b ≠ .suspended) ∧ φ w) := by
  refine .bind (read_spec hφ (fun _ => hφ) fun _ hs => hs.wire) fun b => ?_
  cases b with
  | true => exact ret_spec _ (hφ.pure _) fun w hw => ⟨⟨by decide, by decide⟩, hw⟩
  | false =>
    refine .bind (read_spec hφ (fun _ => hφ) fun _ hs => hs.wire) fun b => ?_
    cases b
    · exact ret_spec _ (hφ.pure _) fun w hw => ⟨⟨by decide, by decide⟩, hw⟩
    · exact ret_spec _ (hφ.pure _) fun w hw => ⟨⟨by decide, by decide⟩, hw⟩

theorem usbDeviceSetConfiguration_spec (hl : t.wLength = 0) (hdir : t.header.deviceToHost = false)
    (hv : ¬ t.header.wValue.toUInt8 > numConfigurations) :
    Serves (Course t h (.completed [])) (At d (Asked t h []))
      (usbDeviceSetConfiguration t.header)
      (fun _ => At (configureAll { d with configurationNumber := t.header.wValue.toUInt8 })
        (Closing t h)) := by
  rw [usbDeviceSetConfiguration, if_neg hv]
  refine .bind (accept_spec hd _ hl) fun _ => .bind (onDev_spec steady_open _) fun _ => ?_
  refine .bind
    (acknowledge_spec (d := { d with configurationNumber := t.header.wValue.toUInt8 }) hd hr
    hdir) fun _ => ?_
  refine .bind (configuredState_spec steady_closing) fun b => pure_spec fun hb => ?_
  refine .bind (setDeviceState_spec steady_closing hb.1 hb.2) fun _ => ?_
  exact eventConfigurationChanged_spec steady_closing

def identified (d : Variables) : Variables :=
  { d with descriptor := shadowVidPidFromSketch d.flash d.descriptor }

omit hd hr in
theorem getDescriptor_spec (o : Outcome) :
    Serves (Course t h o) (At d (Asked t h [])) (getDescriptor t.header)
      (fun r => At (identified d) fun w =>
        r = respond t.header.wValue (identified d).descriptor ∧ Asked t h [] w) := by
  have hask := steady_asked (t := t) (h := h) o []
  refine act_spec hask (fun _ => hask.pure _) fun s hs => ?_
  simp only [callbackUsbGetDescriptor, hs.dev]
  exact { hs with dev := rfl, wire := ⟨rfl, hs.wire⟩ }

omit hd hr in
theorem usbDeviceGetDescriptor_none (o : Outcome)
    (ha : (respond t.header.wValue (identified d).descriptor).address = none) :
    Serves (Course t h o) (At d (Asked t h []))
      (usbDeviceGetDescriptor t.header) (fun _ => At (identified d) (Asked t h [])) := by
  refine .bind (getDescriptor_spec o) fun r => pure_spec fun hr => ?_
  subst hr
  rw [ha]
  exact ret_spec _ (steady_asked o []) fun _ hw => hw

theorem usbDeviceGetDescriptor_some (hadd : h.address = d.address) (hl : 1 ≤ t.wLength)
    (hdir : t.header.deviceToHost = true)
    {descriptor : Descriptor}
    (ha : (respond t.header.wValue (identified d).descriptor).address = some descriptor) :
    Serves (Course t h (.completed ((descriptorBytes descriptor).take t.wLength)))
      (At d (Asked t h [])) (usbDeviceGetDescriptor t.header)
      (fun _ => At (identified d)
        (Done t h (.completed ((descriptorBytes descriptor).take t.wLength)))) := by
  have hne : descriptorBytes descriptor ≠ [] := by
    cases descriptor <;> simp [descriptorBytes, deviceBytes, configurationBytes, stringBytes]
  refine .bind (getDescriptor_spec _) fun r => pure_spec fun hr' => ?_
  subst hr'
  have hpos : (respond t.header.wValue (identified d).descriptor).size ≠ 0 := by
    rw [respond_size ha]
    simpa using hne
  simp only [ha]
  rw [if_neg hpos, respond_size ha, List.take_length]
  exact .bind (beginAnswer_spec (d := identified d) hd _ hl hdir) fun _ =>
    stream_spec (d := identified d) hd hr hadd hne hl

end Answers

section Processing

variable {t : Transfer} {h : Host} {d : Variables} {o : Outcome}

theorem passed_spec :
    Serves (Course t h o) (At d (Answered t h o)) isSetupReceived
      (fun b => At d fun w => b = false ∧ Answered t h o w) := by
  refine read_spec steady_answered (fun b => steady_answered.pure _) fun s hs => ⟨?_, hs.wire⟩
  rw [hs.wire.rxstpi, Bool.and_false]

theorem refuse_passed :
    Serves (Course t h o) (At d (Answered t h o)) refuse
      (fun _ => At d (Answered t h o)) := by
  refine .bind passed_spec fun b => pure_spec fun hb => ?_
  subst hb
  exact ret_spec _ steady_answered fun _ hw => hw

theorem process_passed {p : Stack Unit} :
    Serves (Course t h o) (At d (Answered t h o))
      (do
        .when (← isSetupReceived) p
        refuse) (fun _ => At d (Answered t h o)) := by
  refine .bind passed_spec fun b => pure_spec fun hb => ?_
  subst hb
  exact .bind (ret_spec (ψ := fun _ => Answered t h o) () steady_answered fun _ hw => hw) fun _ =>
    refuse_passed

theorem ignored_spec : Serves (Course t h o) (At d (Asked t h [])) (.ret ())
    (fun _ => At d (Asked t h [])) :=
  ret_spec () (steady_asked o []) fun _ hw => hw

theorem unclaimed_spec (hd : d.uenum = 0) :
    Serves (Course t h o) (At d (Asked t h [])) isSetupReceived
      (fun b => At d fun w => b = true ∧ Asked t h [] w) := by
  have hask := steady_asked (t := t) (h := h) o []
  refine flag_spec hd hask (fun b => hask.pure _) fun w hw => ⟨?_, hw⟩
  rw [hw]
  rfl

/-- The stall has been requested, and the request is not acknowledged yet. -/
def Stalling (t : Transfer) (h : Host) (w : Wire) : Prop :=
  w = ⟨{ ControlEndpoint.setup t.header with received := [], stallrq := true },
    h.proceed t t.firstStage⟩

theorem steady_stalling : WireSteady (Course t h .stalled) (Stalling t h) :=
  .eq (fun a => (token_proceed a _ _).elim id (·.trans rfl)) (.inl ⟨_, rfl⟩)

theorem stallTransaction_spec (hd : d.uenum = 0) :
    Serves (Course t h .stalled) (At d (Asked t h [])) stallTransaction
      (fun _ => At d (Stalling t h)) := by
  refine act_spec (steady_asked _ []) (fun _ => steady_stalling) fun s hs => ?_
  simp only [hs.control hd, if_true]
  refine { hs with wire := ?_ }
  rw [hs.wire]
  rfl

theorem refuse_unclaimed (hd : d.uenum = 0) (ha : t.isSetAddress = false) :
    Serves (Course t h .stalled) (At d (Asked t h [])) refuse
      (fun _ => At d (Answered t h .stalled)) := by
  refine .bind (unclaimed_spec hd) fun b => pure_spec fun hb => ?_
  subst hb
  refine .bind (stallTransaction_spec hd) fun _ => ?_
  refine onControl_spec hd steady_stalling steady_answered ?_
  rintro w rfl
  exact .refused ha rfl rfl rfl (.inl ⟨_, rfl⟩)

variable {d' : Variables} {φ : Wire → Prop} {p q : Stack Unit}

theorem claimed_spec (hφ : ∀ w, φ w → Answered t h o w)
    (hp : Serves (Course t h o) (At d (Asked t h [])) p
      (fun _ => At d' φ)) :
    Serves (Course t h o) (At d (Asked t h []))
      (do
        p
        .when (← isSetupReceived) q
        refuse) (fun _ => At d' (Answered t h o)) :=
  .bind hp fun _ => process_passed.pre fun _ => At.imp hφ

theorem standard_spec (hd : d.uenum = 0) (hφ : ∀ w, φ w → Answered t h o w)
    (hp : Serves (Course t h o) (At d (Asked t h [])) p
      (fun _ => At d' φ)) :
    Serves (Course t h o) (At d (Asked t h []))
      (do
        .when (← isSetupReceived) p
        refuse) (fun _ => At d' (Answered t h o)) := by
  refine .bind (unclaimed_spec hd) fun b => pure_spec fun hb => ?_
  subst hb
  exact .bind hp fun _ => refuse_passed.pre fun _ => At.imp hφ

theorem unknown_spec (hd : d.uenum = 0) (hd' : d'.uenum = 0) (ha : t.isSetAddress = false)
    (hp : Serves (Course t h .stalled) (At d (Asked t h [])) p
      (fun _ => At d' (Asked t h []))) :
    Serves (Course t h .stalled) (At d (Asked t h []))
      (do
        .when (← isSetupReceived) p
        refuse) (fun _ => At d' (Answered t h .stalled)) := by
  refine .bind (unclaimed_spec hd) fun b => pure_spec fun hb => ?_
  subst hb
  exact .bind hp fun _ => refuse_unclaimed hd' ha

end Processing

section Serving

/-- What the host can know of the registers and variables. -/
def view (d : Variables) : Cdc where
  address := d.address
  configuration := d.configurationNumber
  lineEncoding := d.lineEncoding
  identity := d.descriptor
  enabled n := (d.endpoints n).epen
  halted := halted d
  flash := d.flash

/-- What a request does to `rts_pulse`. -/
def pulse (r : RequestHeader) (rtsPulse : UInt8) : UInt8 :=
  match decode r with
  | .setControlLineState => rtsPulse ||| (r.wValue &&& 2).toUInt8
  | _ => rtsPulse

/-- What a request does to the banks of the other endpoints. -/
def bankResets (r : RequestHeader) (c : Cdc) : List BankReset :=
  match decode r with
  | .setFeature halt =>
    if r.wValue.toUInt8 = 0 ∧ recipient r ≠ 0 ∧ c.enabled (recipient r) ∧ halt = false then
      [.fifo (recipient r), .dataToggle (recipient r)]
    else []
  | .setConfiguration =>
    if r.wValue.toUInt8 > numConfigurations then []
    else [.memory cdcNotificationEpnum, .memory cdcTxEpnum, .memory cdcRxEpnum]
  | _ => []

structure Matches (e : EndpointInfo) (r : EndpointRegisters) : Prop where
  epen : r.epen = true
  uecfg0x : r.uecfg0x = uecfg0xData e.attributes e.direction
  uecfg1x : r.uecfg1x = uecfg1xData e.size

/-- A configured device has the endpoints that it announces. -/
structure Sound (d : Variables) : Prop where
  lineEncoding : d.lineEncoding.length = sizeofLineEncoding
  endpoints : d.configurationNumber ≠ 0 → ∀ e ∈ announced, Matches e (d.endpoints e.number)

/-- The registers and variables have become `d'` from `d` by the transfer `t`. -/
structure Served (t : Transfer) (d d' : Variables) : Prop where
  view : view d' = (serve t (view d)).2
  rtsPulse : d'.rtsPulse = pulse t.header d.rtsPulse
  resets : d'.resets = d.resets ++ bankResets t.header (ControlRequests.view d)
  sound : Sound d'

variable {t : Transfer} {h : Host} {d : Variables}

def Settled (t : Transfer) (h : Host) (d : Variables) (s : State) : Prop :=
  ∃ d', Served t d d' ∧ At d' (Answered t h ((serve t (view d)).1.outcome t)) s

/-- A request is served as the abstract device serves it. -/
def ServedBy (t : Transfer) (h : Host) (d : Variables) : Prop :=
  Serves (Course t h ((serve t (view d)).1.outcome t))
    (At d (Asked t h [])) (processRequest t.header) (fun _ => Settled t h d)

theorem settle {reply : Reply} {d' : Variables} (hserve : serve t (view d) = (reply, view d'))
    (hp : d'.rtsPulse = pulse t.header d.rtsPulse)
    (hb : d'.resets = d.resets ++ bankResets t.header (view d)) (hs : Sound d')
    (ht : Serves (Course t h (reply.outcome t)) (At d (Asked t h []))
      (processRequest t.header) (fun _ => At d' (Answered t h (reply.outcome t)))) :
    ServedBy t h d := by
  rw [ServedBy, hserve]
  refine ht.post fun _ s ha => ⟨d', ⟨by rw [hserve], hp, hb, hs⟩, ?_⟩
  rw [hserve]
  exact ha

theorem leave_standard {Q : Unit → State → Prop} {o : Outcome}
    (hq : eventControlRequest t.header = .ret ())
    (ht : Serves (Course t h o) (At d (Asked t h []))
      (do
        .when (← isSetupReceived) (standardRequest t.header)
        refuse) Q) :
    Serves (Course t h o) (At d (Asked t h [])) (processRequest t.header)
      Q := by
  rw [processRequest, hq]
  exact .bind ignored_spec fun _ => ht

variable (hd : d.uenum = 0) (hr : d.controlRequest = t.header) (hs : Sound d)
include hd hr hs

theorem served_getLineEncoding (hadd : h.address = d.address)
    (hq : decode t.header = .getLineEncoding) (hl : 1 ≤ t.wLength) : ServedBy t h d := by
  have hne : d.lineEncoding ≠ [] := by
    intro h0
    have he := hs.lineEncoding
    rw [h0] at he
    cases he
  have hserve : serve t (view d) = (.data d.lineEncoding, view d) := by rw [serve, hq]; rfl
  have hdir := deviceToHost_decode (r := t.header) (by rw [hq]; simp)
  rw [hq] at hdir
  refine settle hserve (by rw [pulse, hq]) (by simp [bankResets, hq]) hs ?_
  rw [processRequest, eventControlRequest_eq, hq]
  exact claimed_spec (fun _ => .done)
    (getLineEncoding_spec hd hr hadd hne hl hdir)

omit hr in
theorem served_setLineEncoding (hadd : h.address = d.address)
    (hq : decode t.header = .setLineEncoding) (hl : t.wLength = 7)
    (ht : t.data.length = 7) : ServedBy t h d := by
  have hserve : serve t (view d) = (.accepted, view { d with lineEncoding := t.data }) := by
    rw [serve, hq]; rfl
  have hdir := deviceToHost_decode (r := t.header) (by rw [hq]; simp)
  have ha := isSetAddress_decode t
  rw [hq] at hdir ha
  refine settle hserve (by rw [pulse, hq]) (by simp [bankResets, hq]) ⟨ht, hs.endpoints⟩ ?_
  rw [processRequest, eventControlRequest_eq, hq]
  exact claimed_spec (fun _ => .closing ha rfl)
    (setLineEncoding_spec hd hadd hl ht hs.lineEncoding hdir)

theorem served_setControlLineState (hq : decode t.header = .setControlLineState)
    (hl : t.wLength = 0) : ServedBy t h d := by
  have hserve : serve t (view d) =
      (.accepted, view { d with rtsPulse := d.rtsPulse ||| (t.header.wValue &&& 2).toUInt8 }) := by
    rw [serve, hq]; rfl
  have hdir := deviceToHost_decode (r := t.header) (by rw [hq]; simp)
  have ha := isSetAddress_decode t
  rw [hq] at hdir ha
  refine settle hserve (by rw [pulse, hq]) (by simp [bankResets, hq])
    ⟨hs.lineEncoding, hs.endpoints⟩ ?_
  rw [processRequest, eventControlRequest_eq, hq]
  exact claimed_spec (fun _ => .closing ha rfl) (setControlLineState_spec hd hr hl hdir)

theorem served_getStatus (hadd : h.address = d.address) (hq : decode t.header = .getStatus)
    (hl : 2 ≤ t.wLength) : ServedBy t h d := by
  have hserve : serve t (view d) =
      (.data [if halted d (endpointIndex t.header) then 1 else 0, 0], view d) := by
    rw [serve, hq]; rfl
  have hdir := deviceToHost_decode (r := t.header) (by rw [hq]; simp)
  rw [hq] at hdir
  refine settle hserve (by rw [pulse, hq]) (by simp [bankResets, hq]) hs
    (leave_standard (by rw [eventControlRequest_eq, hq]; rfl) ?_)
  rw [standardRequest_eq, hq, Reply.outcome, List.take_of_length_le hl]
  exact standard_spec hd (fun _ => .done)
    (usbDeviceGetStatus_spec hd hr hadd hl hdir (getStatus_decode hq))

theorem served_setAddress (hadd : h.address = d.address) (hq : decode t.header = .setAddress)
    (hl : t.wLength = 0) : ServedBy t h d := by
  have hserve : serve t (view d) =
      (.accepted, view { d with udaddr := t.newAddress, adden := true }) := by
    rw [serve, hq]; rfl
  have hdir := deviceToHost_decode (r := t.header) (by rw [hq]; simp)
  rw [hq] at hdir
  refine settle hserve (by rw [pulse, hq]) (by simp [bankResets, hq])
    ⟨hs.lineEncoding, hs.endpoints⟩ (leave_standard (by rw [eventControlRequest_eq, hq]; rfl) ?_)
  rw [standardRequest_eq, hq]
  exact standard_spec hd (fun _ => .done) (usbDeviceSetAddress_spec hd hr hadd hl hdir)

theorem served_getConfiguration (hadd : h.address = d.address)
    (hq : decode t.header = .getConfiguration) (hl : 1 ≤ t.wLength) : ServedBy t h d := by
  have hserve : serve t (view d) = (.data [d.configurationNumber], view d) := by rw [serve, hq]; rfl
  have hdir := deviceToHost_decode (r := t.header) (by rw [hq]; simp)
  rw [hq] at hdir
  refine settle hserve (by rw [pulse, hq]) (by simp [bankResets, hq]) hs
    (leave_standard (by rw [eventControlRequest_eq, hq]; rfl) ?_)
  rw [standardRequest_eq, hq, Reply.outcome, List.take_of_length_le hl]
  exact standard_spec hd (fun _ => .done) (usbDeviceGetConfiguration_spec hd hr hadd hl hdir)

theorem served_getDescriptor (hadd : h.address = d.address)
    (hq : decode t.header = .getDescriptor) (hl : 1 ≤ t.wLength) : ServedBy t h d := by
  have hdir := deviceToHost_decode (r := t.header) (by rw [hq]; simp)
  have ha := isSetAddress_decode t
  rw [hq] at hdir ha
  cases hresp : (respond t.header.wValue (identified d).descriptor).address with
  | none =>
    have hserve : serve t (view d) = (.refused, view (identified d)) := by
      rw [serve, hq]
      simp only [describe]
      rw [show (respond t.header.wValue
        (shadowVidPidFromSketch (view d).flash (view d).identity)).address = none from hresp]
      rfl
    refine settle hserve (by rw [pulse, hq]; rfl) (by simp [bankResets, hq, identified])
      ⟨hs.lineEncoding, hs.endpoints⟩
      (leave_standard (by rw [eventControlRequest_eq, hq]; rfl) ?_)
    rw [standardRequest_eq, hq]
    exact unknown_spec hd hd ha (usbDeviceGetDescriptor_none _ hresp)
  | some descriptor =>
    have hserve : serve t (view d) = (.data (descriptorBytes descriptor), view (identified d)) := by
      rw [serve, hq]
      simp only [describe]
      rw [show (respond t.header.wValue
        (shadowVidPidFromSketch (view d).flash (view d).identity)).address
        = some descriptor from hresp]
      rfl
    refine settle hserve (by rw [pulse, hq]; rfl) (by simp [bankResets, hq, identified])
      ⟨hs.lineEncoding, hs.endpoints⟩
      (leave_standard (by rw [eventControlRequest_eq, hq]; rfl) ?_)
    rw [standardRequest_eq, hq]
    exact standard_spec hd (fun _ => .done) (usbDeviceGetDescriptor_some hd hr hadd hl hdir hresp)

omit hr in
theorem served_unsupported (hq : decode t.header = .unsupported) : ServedBy t h d := by
  have hserve : serve t (view d) = (.refused, view d) := by rw [serve, hq]
  have ha := isSetAddress_decode t
  rw [hq] at ha
  refine settle hserve (by rw [pulse, hq]) (by simp [bankResets, hq]) hs
    (leave_standard (by rw [eventControlRequest_eq, hq]; rfl) ?_)
  rw [standardRequest_eq, hq]
  exact unknown_spec hd hd ha ignored_spec

omit hd hr hs in
theorem view_haltEndpoint (n : UInt8) (hn : n ≠ 0) (stall : Bool) :
    view (haltEndpoint n stall d) =
      if (view d).enabled n then { view d with halted := Function.update (view d).halted n stall }
      else view d := by
  unfold haltEndpoint
  by_cases he : (d.endpoints n).epen = true
  · rw [if_pos he, if_pos (show (view d).enabled n = true from he)]
    refine Cdc.ext rfl rfl rfl rfl (funext fun m => ?_) (funext fun m => ?_) rfl
    · by_cases hm : m = n
      · subst hm
        simp [view, setEndpoint]
      · simp [view, setEndpoint, hm]
    · by_cases hm : m = n
      · subst hm
        simp [view, setEndpoint, halted, hn]
      · simp [view, setEndpoint, halted, hm]
  · rw [if_neg he, if_neg (show ¬ (view d).enabled n = true from he)]

omit hd hr hs in
theorem resets_haltEndpoint (n : UInt8) (stall : Bool) :
    (haltEndpoint n stall d).resets = d.resets ++
      if (d.endpoints n).epen ∧ stall = false then [.fifo n, .dataToggle n] else [] := by
  unfold haltEndpoint
  split
  · next he => cases stall <;> simp [he]
  · next he => simp [he]

omit hd hr in
theorem sound_haltEndpoint (n : UInt8) (stall : Bool) : Sound (haltEndpoint n stall d) := by
  unfold haltEndpoint
  split
  · refine ⟨hs.lineEncoding, fun hc e he => ?_⟩
    have hm := hs.endpoints hc e he
    by_cases hn : e.number = n
    · subst hn
      simp only [setEndpoint, Function.update_self]
      exact ⟨hm.epen, hm.uecfg0x, hm.uecfg1x⟩
    · simp only [setEndpoint, Function.update_of_ne hn]
      exact hm
  · exact hs

theorem served_setFeature {stall : Bool} (hq : decode t.header = .setFeature stall)
    (hl : t.wLength = 0) : ServedBy t h d := by
  obtain ⟨htype, rfl⟩ := setFeature_decode hq
  have hdir := deviceToHost_decode (r := t.header) (by rw [hq]; simp)
  have ha := isSetAddress_decode t
  rw [hq] at hdir ha
  have hevent : eventControlRequest t.header = .ret () := by rw [eventControlRequest_eq, hq]; rfl
  by_cases hn : t.header.wValue.toUInt8 = 0 ∧ endpointIndex t.header = 0
  · have hserve : serve t (view d) = (.refused, view d) := by
      rw [serve, hq]
      simp only [halt]
      rw [if_neg (not_not.mpr hn.1), if_pos (show recipient t.header = 0 from hn.2)]
    refine settle hserve (by rw [pulse, hq]) ?_ hs (leave_standard hevent ?_)
    · simp [bankResets, hq, show recipient t.header = 0 from hn.2]
    rw [standardRequest_eq, hq]
    simp only [usbDeviceClearSetFeature]
    rw [if_pos (by rw [htype]; decide), if_pos hn]
    exact unknown_spec hd hd ha ignored_spec
  · have hserve : serve t (view d) = (.accepted, view (if t.header.wValue.toUInt8 = 0 then
          haltEndpoint (endpointIndex t.header) (t.header.bRequest = 0x03) d else d)) := by
      rw [serve, hq]
      simp only [halt]
      by_cases hv : t.header.wValue.toUInt8 = 0
      · have h0 : endpointIndex t.header ≠ 0 := fun h0 => hn ⟨hv, h0⟩
        rw [if_neg (not_not.mpr hv), if_pos hv, view_haltEndpoint _ h0]
        rw [show recipient t.header = endpointIndex t.header from rfl, if_neg h0]
        split <;> rfl
      · rw [if_pos hv, if_neg hv]
    refine settle hserve ?_ ?_ ?_ (leave_standard hevent ?_)
    · rw [pulse, hq]
      split
      · unfold haltEndpoint
        split <;> rfl
      · rfl
    · simp only [bankResets, hq]
      split
      · next hv =>
        have h0 : recipient t.header ≠ 0 := fun h0 => hn ⟨hv, h0⟩
        rw [resets_haltEndpoint, show endpointIndex t.header = recipient t.header from rfl]
        simp [hv, h0, view]
      · next hv => simp [hv]
    · split
      · exact sound_haltEndpoint hs _ _
      · exact hs
    · rw [standardRequest_eq, hq]
      exact standard_spec hd (fun _ => .closing ha rfl)
        (usbDeviceClearSetFeature_spec hd hr hl hdir (by rw [htype]; decide) hn)

omit hd hr hs in
theorem view_configureAll :
    view (configureAll d) = { view d with
      enabled := fun n => (view d).enabled n || n = cdcNotificationEpnum || n = cdcTxEpnum ||
        n = cdcRxEpnum } := by
  refine Cdc.ext rfl rfl rfl rfl (funext fun n => ?_) (funext fun n => ?_) rfl
  · simp only [view, configureAll, configureOne, setEndpoint, configured, Function.update_apply]
    grind
  · simp only [view, halted, configureAll, configureOne, setEndpoint, configured,
      Function.update_apply]
    grind

omit hd hr hs in
theorem sound_configureAll (hl : d.lineEncoding.length = sizeofLineEncoding) (n : UInt8) :
    Sound (configureAll { d with configurationNumber := n }) := by
  refine ⟨hl, fun _ e he => ?_⟩
  rw [announced_eq] at he
  simp only [List.mem_cons, List.not_mem_nil, or_false] at he
  obtain rfl | rfl | rfl := he
  · exact ⟨rfl, rfl, rfl⟩
  · exact ⟨rfl, rfl, rfl⟩
  · exact ⟨rfl, rfl, rfl⟩

theorem served_setConfiguration (hq : decode t.header = .setConfiguration) (hl : t.wLength = 0) :
    ServedBy t h d := by
  have hdir := deviceToHost_decode (r := t.header) (by rw [hq]; simp)
  have ha := isSetAddress_decode t
  rw [hq] at hdir ha
  have hevent : eventControlRequest t.header = .ret () := by rw [eventControlRequest_eq, hq]; rfl
  by_cases hv : t.header.wValue.toUInt8 > numConfigurations
  · have hserve : serve t (view d) = (.refused, view d) := by
      rw [serve, hq]
      exact if_pos hv
    refine settle hserve (by rw [pulse, hq]) (by simp [bankResets, hq, hv]) hs
      (leave_standard hevent ?_)
    rw [standardRequest_eq, hq]
    simp only [usbDeviceSetConfiguration]
    rw [if_pos hv]
    exact unknown_spec hd hd ha ignored_spec
  · have hserve : serve t (view d) = (.accepted,
        view (configureAll { d with configurationNumber := t.header.wValue.toUInt8 })) := by
      rw [serve, hq, view_configureAll]
      exact if_neg hv
    refine settle hserve (by rw [pulse, hq]; rfl) ?_ (sound_configureAll hs.lineEncoding _)
      (leave_standard hevent ?_)
    · simp only [bankResets, hq, if_neg hv, configureAll, configureOne, setEndpoint,
        List.append_assoc]
      rfl
    rw [standardRequest_eq, hq]
    exact standard_spec hd (fun _ => .closing ha rfl)
      (usbDeviceSetConfiguration_spec hd hr hl hdir hv)

/-- Every well-formed request is served as the abstract device serves it. -/
theorem processRequest_spec (hadd : h.address = d.address) (hwf : WellFormed t) :
    ServedBy t h d := by
  rw [WellFormed] at hwf
  cases hq : decode t.header with
  | getLineEncoding =>
    rw [hq] at hwf
    exact served_getLineEncoding hd hr hs hadd hq hwf
  | setLineEncoding =>
    rw [hq] at hwf
    exact served_setLineEncoding hd hs hadd hq hwf.1 hwf.2
  | setControlLineState =>
    rw [hq] at hwf
    exact served_setControlLineState hd hr hs hq hwf
  | getStatus =>
    rw [hq] at hwf
    exact served_getStatus hd hr hs hadd hq hwf
  | setFeature stall =>
    rw [hq] at hwf
    exact served_setFeature hd hr hs hq hwf
  | setAddress =>
    rw [hq] at hwf
    exact served_setAddress hd hr hs hadd hq hwf
  | getDescriptor =>
    rw [hq] at hwf
    exact served_getDescriptor hd hr hs hadd hq hwf
  | getConfiguration =>
    rw [hq] at hwf
    exact served_getConfiguration hd hr hs hadd hq hwf
  | setConfiguration =>
    rw [hq] at hwf
    exact served_setConfiguration hd hr hs hq hwf
  | unsupported => exact served_unsupported hd hs hq

end Serving
end Adelino.ControlRequests
