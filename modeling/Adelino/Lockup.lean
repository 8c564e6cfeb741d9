import Adelino.Enumeration

namespace Adelino.Lockup

open Adelino.Program Adelino.Logic Adelino.Progress Adelino.Deadline Adelino.Endpoint
  Adelino.Descriptors Adelino.DescriptorBytes Adelino.ControlPipe Adelino.ControlStack
  Adelino.ControlSpec Adelino.CdcDevice Adelino.ControlRequests Adelino.Conversation
  Adelino.Enumeration

section Stream

/-- The device is on the bus and awake, as far as the program knows. -/
def Present (s : State) : Prop := gone s.bus.deviceState = none

/-- The host has no data for the device, or it has to wait for the device to
acknowledge a SETUP packet first. -/
structure Deaf (w : Wire) : Prop where
  rxouti : w.ep.rxouti = false
  stage : w.ep.rxstpi = true ∨ ∀ t stage, w.host.current = some (t, stage) → stage = .statusIn

theorem Deaf.token {w : Wire} (h : Deaf w) (a : UInt8) : Deaf (w.token a) := by
  obtain ⟨hr, hs⟩ := h
  unfold Wire.token
  split
  · exact ⟨hr, hs⟩
  next t stage hc =>
  split
  · unfold Wire.transact
    split
    · exact ⟨hr, hs⟩
    next h0 =>
    obtain rfl := hs.resolve_left h0 t stage hc
    split
    · exact ⟨hr, .inr fun _ _ h => by cases h⟩
    dsimp only
    split
    · exact ⟨hr, hs⟩
    · exact ⟨hr, .inr fun _ _ h => by cases h⟩
  · exact ⟨hr, hs⟩

theorem Deaf.handle {s : State} (h : Deaf s.wire) (e : Event) : Deaf (handle e s).wire := by
  cases e with
  | token => exact h.token _
  | submit =>
    simp only [ControlStack.handle]
    split
    · exact h
    next w hw =>
    unfold Wire.nextSetup at hw
    split at hw
    · split at hw <;> cases hw
      exact ⟨rfl, .inl rfl⟩
    · cases hw
  | giveUp => exact ⟨h.rxouti, .inr fun _ _ h => by cases h⟩
  | busReset => exact ⟨rfl, .inr fun _ _ h => by cases h⟩
  | usbGen =>
    simp only [ControlStack.handle]
    split
    · rw [wire_usbGen]
      exact h
    · exact h
  | vbus | suspend | wakeUp => exact h

theorem controlRequest_handle (e : Event) (s : State) :
    (handle e s).dev.controlRequest = s.dev.controlRequest := by
  cases e with
  | submit =>
    simp only [handle]
    split <;> rfl
  | usbGen =>
    simp only [handle, usbGen]
    split_ifs <;> rfl
  | _ => rfl

/-- The program waits for the host with a request for no bytes at all. -/
structure Stuck (s : State) : Prop where
  deaf : Deaf s.wire
  wLength : s.dev.controlRequest.wLength = 0

theorem stable_stuck : Stable handle Present Stuck := fun e s _ _ hs =>
  ⟨hs.deaf.handle e, (congrArg _ (controlRequest_handle e s)).trans hs.wLength⟩

theorem read_stuck {α : Type} (f : State → α) {c : α → Prop}
    (h : ∀ s, Present s → Stuck s → c (f s)) :
    Triple handle Present Stuck Stuck (.read f) (fun a s => c a ∧ Stuck s) :=
  .act _ stable_stuck (fun _ e s ha hn hs => ⟨hs.1, stable_stuck e s ha hn hs.2⟩) (fun _ _ hs => hs)
    (fun _ _ _ hs => hs.2) fun s ha hs _ => ⟨h s ha hs, hs⟩

theorem awaitOut_stuck : Triple handle Present Stuck Stuck awaitOut (fun _ _ => False) := by
  refine Triple.iter (P := fun _ => Stuck) (fun _ => ?_) ()
  refine .bind (read_stuck _ (c := (· = false)) fun s _ hs => ?_) fun b => .of_pure fun hb => ?_
  · rw [hs.deaf.rxouti, Bool.and_false]
  rw [hb]
  refine .bind (read_stuck _ (c := fun b => gone b = none) fun s ha _ => ha) fun b =>
    .of_pure fun hb => ?_
  rw [hb]
  exact .ret _ stable_stuck (fun _ _ hs => hs) fun _ _ hs => hs

/-- A stream of which the host has asked for nothing ends at once, and the
program then waits for the host to acknowledge it. That is the wrong way round:
it is the host that waits. Neither another SETUP packet nor a bus reset gets
the program out of the loop. -/
theorem writeControlStream_hangs {buffer : List UInt8} (hb : buffer ≠ []) {s : State}
    (ha : Present s) (hs : Stuck s) {d : Stack StreamStatus × State}
    (hr : Runs handle Present (writeControlStream buffer, s) d) : d.1.isRet = false := by
  have htriple :
      Triple handle Present Stuck Stuck (writeControlStream buffer) (fun _ _ => False) := by
    refine .bind (read_stuck _ (c := (· = 0)) fun s _ hs => ?_) fun n => .of_pure fun hn => ?_
    · rw [hs.wLength]
      rfl
    subst hn
    have hempty : buffer.isEmpty = false := by simpa using hb
    rw [hempty, Bool.and_false, List.take_zero]
    exact awaitOut_stuck
  cases hd : d.1.isRet with
  | false => rfl
  | true =>
    obtain ⟨a, hd⟩ := Prog.eq_ret_of_isRet hd
    exact ((htriple s ha hs d hr).2 a hd).elim

instance : DecidablePred Present := fun s =>
  inferInstanceAs (Decidable (gone s.bus.deviceState = none))

def askForNothing : Transfer := ⟨⟨⟨0x80, 0x06, 0x0100, 0⟩, 0⟩, []⟩

def aboutToSend : State :=
  (exec handle (usbUsbTask, plugged [askForNothing, encode9600])
    (.irq .submit :: List.replicate 18 .cpu)).2

def rescue : List (Move Event) :=
  List.flatten [
    .replicate 10 .cpu, [.irq .giveUp, .irq .submit, .irq .token], .replicate 10 .cpu,
    [.irq .busReset, .irq .usbGen], .replicate 10 .cpu]

theorem writeControlStream_hangs_rescue :
    let d :=
      exec handle (writeControlStream (deviceBytes aboutToSend.dev.descriptor), aboutToSend) rescue
    d.1.isRet = false ∧ d.2.bus.deviceState = .default ∧ d.2.wire.host.pending = [] := by
  intro d
  have hcurrent : aboutToSend.wire.host.current = some (askForNothing, .statusIn) := by
    decide +kernel
  have hstuck : Stuck aboutToSend := by
    refine ⟨⟨by decide +kernel, .inr fun _ _ h => ?_⟩, by decide +kernel⟩
    rw [hcurrent] at h
    cases h
    rfl
  have hpresent : Present aboutToSend := by decide +kernel
  have hruns : Runs handle Present
      (writeControlStream (deviceBytes aboutToSend.dev.descriptor), aboutToSend) d :=
    Runs.of_holdsAlong _ rescue (by decide +kernel)
  exact ⟨writeControlStream_hangs (List.cons_ne_nil _ _) hpresent hstuck hruns, by decide +kernel,
    by decide +kernel⟩

end Stream

section Request

variable {d : Variables} {t : Transfer} {h : Host} {o : Outcome}

/-- The device has something to tell, and the host asks for none of it. -/
structure Starved (d : Variables) (t : Transfer) : Prop where
  wLength : t.header.wLength = 0
  told : decode t.header = .getLineEncoding ∨ decode t.header = .getDescriptor ∧
    (respond t.header.wValue (identified d).descriptor).address ≠ none

theorem pure_safe {α : Type} {c : Prop} {φ : Wire → Prop} {G : State → Prop} {p : Stack α}
    {Q : α → State → Prop} (hp : c → Triple handle Calm G (At d φ) p Q) :
    Triple handle Calm G (At d fun w => c ∧ φ w) p Q :=
  (Triple.of_pure hp).pre fun _ hs => ⟨hs.wire.1, { hs with wire := hs.wire.2 }⟩

theorem hangs_bind {α β : Type} {G P : State → Prop} {p : Stack β} {k : β → Stack α}
    {Q : α → State → Prop} (hp : Triple handle Calm G P p fun _ _ => False) :
    Triple handle Calm G P (p >>= k) Q :=
  hp.bind fun _ _ _ hs => hs.elim

theorem stream_starved (hd : d.uenum = 0) (hl : d.controlRequest.wLength = 0) {buffer : List UInt8}
    (hb : buffer ≠ []) : Triple handle Calm (fun s => Course t h o s.wire)
      (At d (Filling t h .statusIn [])) (writeControlStream buffer) (fun _ _ => False) := by
  have hwait := steady_filling (t := t) (h := h) o (.inr rfl) []
  refine .bind (read_spec hwait (fun n => hwait.pure (n = 0)) fun s hs => ?_).safe fun n => ?_
  · rw [hs.dev, hl]
    exact ⟨rfl, hs.wire⟩
  refine pure_safe fun hn => ?_
  subst hn
  have hempty : buffer.isEmpty = false := by simpa using hb
  rw [hempty, Bool.and_false, List.take_zero]
  refine Triple.iter (P := fun _ => At d (Filling t h .statusIn [])) (fun _ => ?_) ()
  refine .bind (flag_spec hd hwait (fun b => hwait.pure (b = false)) ?_).safe fun b => ?_
  · rintro w rfl
    exact ⟨rfl, rfl⟩
  refine pure_safe fun hb => ?_
  subst hb
  refine .bind (deviceState_spec hwait).safe fun b => ?_
  refine pure_safe fun hb => ?_
  rw [hb.1]
  exact .ret _ (At.stable hwait d) (fun _ _ hs => hwait.within _ hs.wire) fun _ _ hs => hs

theorem clearSetup_starved (hd : d.uenum = 0) (hl : t.header.wLength = 0) :
    Triple handle Calm (fun s => Course t h o s.wire) (At d (Asked t h [])) clearSetup
      (fun _ => At d (Filling t h .statusIn [])) := by
  have hstage : t.firstStage = .statusIn := by
    rw [Transfer.firstStage, Transfer.wLength, hl]
    rfl
  exact (clearSetup_spec hd o [] hstage (.inr rfl)).safe

theorem processRequest_starved (hd : d.uenum = 0) (hr : d.controlRequest = t.header)
    (he : d.lineEncoding ≠ []) (ht : Starved d t) :
    Triple handle Calm (fun s => Course t h o s.wire) (At d (Asked t h []))
      (processRequest t.header) (fun _ _ => False) := by
  have hask := steady_asked (t := t) (h := h) o []
  obtain ⟨hl, hq | ⟨hq, hdesc⟩⟩ := ht
  · rw [processRequest, eventControlRequest_eq, hq]
    have hwait := steady_filling (t := t) (h := h) o (.inr rfl) []
    refine hangs_bind (.bind (clearSetup_starved hd hl) fun _ => ?_)
    refine .bind (read_spec hwait (fun e => hwait.pure (e = d.lineEncoding)) fun s hs => ?_).safe
      fun e => pure_safe fun h0 => ?_
    · exact ⟨congrArg _ hs.dev, hs.wire⟩
    subst h0
    exact hangs_bind (stream_starved hd (by rw [hr, hl]) he)
  · obtain ⟨descriptor, ha⟩ := Option.ne_none_iff_exists'.mp hdesc
    have hevent : eventControlRequest t.header = .ret () := by
      rw [eventControlRequest_eq, hq]
      rfl
    rw [processRequest, hevent, standardRequest_eq, hq]
    refine .bind ignored_spec.safe fun _ => ?_
    refine .bind (unclaimed_spec hd).safe fun b => pure_safe fun hb => ?_
    subst hb
    refine hangs_bind (.bind (getDescriptor_spec o).safe fun r => pure_safe fun h0 => ?_)
    subst h0
    have hne : descriptorBytes descriptor ≠ [] := by
      cases descriptor <;> simp [descriptorBytes, deviceBytes, configurationBytes, stringBytes]
    have hpos : (respond t.header.wValue (identified d).descriptor).size ≠ 0 := by
      rw [respond_size ha]
      simpa using hne
    simp only [ha]
    rw [if_neg hpos, respond_size ha, List.take_length]
    refine .bind (clearSetup_starved (d := identified d) hd hl) fun _ => hangs_bind ?_
    exact stream_starved (d := identified d) hd ((congrArg _ hr).trans hl) hne

theorem usbDeviceProcessControlRequest_starved (hd : d.uenum = 0) (he : d.lineEncoding ≠ [])
    (ht : Starved d t) : Triple handle Calm (fun s => Course t h o s.wire) (Invited d t h)
      usbDeviceProcessControlRequest (fun _ _ => False) := by
  have hask := steady_asked (t := t) (h := h) o
  refine .bind (R := fun _ => At d (Asked t h t.header.bytes)) ?_ fun _ => ?_
  · exact .act _ stable_invited (fun _ => At.stable (hask _) d)
      (fun _ _ hs => (hask _).within _ hs.wire)
      (fun _ _ _ hs => (hask _).within _ hs.wire) fun _ _ hs _ => ⟨hs.dev, hs.wire, rfl, hs.quiet⟩
  refine .bind (readBytes_spec hask hd _).safe fun header => pure_safe fun hh => ?_
  subst hh
  rw [RequestHeader.ofBytes_bytes]
  refine .bind (onDev_spec (hask []) _).safe fun _ => ?_
  refine .bind (read_spec (hask []) (fun r => (hask []).pure (r = t.header)) fun s hs => ?_).safe
    fun r => pure_safe fun hr => ?_
  · exact ⟨by rw [hs.dev], hs.wire⟩
  subst hr
  exact hangs_bind (processRequest_starved hd rfl he ⟨ht.wLength, ht.told⟩)

theorem usbUsbTask_starved (he : d.lineEncoding ≠ []) (ht : Starved d t) :
    Triple handle Calm (fun s => Course t h o s.wire) (Invited d t h) usbUsbTask
      (fun _ _ => False) := by
  have hcourse (d : Variables) (s : State) (_ : Calm s) (hs : Invited d t h s) :
      Course t h o s.wire :=
    (steady_asked o _).within _ hs.wire
  have hact {α : Type} {d : Variables} {f : State → α × State} (d' : Variables) {c : α → Prop}
      (hf : ∀ s, Invited d t h s → c (f s).1 ∧ Invited d' t h (f s).2) :
      Triple handle Calm (fun s => Course t h o s.wire) (Invited d t h) (.act f)
        (fun a s => c a ∧ Invited d' t h s) :=
    .act f stable_invited (fun _ e s ha hn hs => ⟨hs.1, stable_invited e s ha hn hs.2⟩) (hcourse d)
      (fun _ s ha hs => hcourse d' s ha hs.2) fun s _ hs _ => hf s hs
  refine .bind (hact d (c := (· ≠ .unattached)) fun s hs => ⟨hs.quiet.attached, hs⟩) fun b =>
    .of_pure fun hb => ?_
  rw [if_pos hb]
  refine .bind (hact d (c := fun _ => True) fun s hs => ⟨trivial, hs⟩) fun n => .of_pure fun _ => ?_
  refine .bind (hact { d with uenum := 0 } (c := fun _ => True) fun s hs =>
    ⟨trivial, by rw [← hs.dev], hs.wire, hs.processing, hs.quiet⟩) fun _ => .of_pure fun _ => ?_
  refine .bind (hact { d with uenum := 0 } (c := (· = true)) fun s hs => ⟨?_, hs⟩) fun b =>
    .of_pure fun hb => ?_
  · have hcontrol : s.control = true := by rw [State.control, hs.dev]; rfl
    simp only [hcontrol, Bool.true_and]
    rw [hs.wire]
    rfl
  subst hb
  exact hangs_bind (usbDeviceProcessControlRequest_starved rfl he ⟨ht.wLength, ht.told⟩)

/-- A host that asks for a descriptor, or for the line encoding, and allows for
no data gets no answer, and the task never returns. -/
theorem usbUsbTask_hangs {s : State} (ha : Calm s) (he : s.dev.lineEncoding ≠ [])
    (ht : Starved s.dev t)
    (hs : Invited s.dev t h s) {c : Stack Unit × State} (hr : Runs handle Calm (usbUsbTask, s) c) :
    c.1.isRet = false ∧ c.2.wire.host.log = s.wire.host.log := by
  have hsafe (o : Outcome) := usbUsbTask_starved (o := o) he ht s ha hs c hr
  refine ⟨?_, ?_⟩
  · cases hc : c.1.isRet with
    | false => rfl
    | true =>
      obtain ⟨a, hc⟩ := Prog.eq_ret_of_isRet hc
      exact ((hsafe .stalled).2 a hc).elim
  · -- no outcome is the one that the host has seen
    have hlog : s.wire.host.log = h.log := by
      rw [hs.wire]
      rfl
    rw [hlog]
    obtain ⟨stage, h1⟩ | h1 := (hsafe .stalled).1
    · rw [h1]
      rfl
    obtain ⟨stage, h2⟩ | h2 := (hsafe (.completed [])).1
    · rw [h2]
      rfl
    · rw [h1] at h2
      simp [Host.finish] at h2

end Request

def asked : State := handle .submit (plugged [askForNothing])

theorem invited_asked : Invited asked.dev askForNothing ⟨[], none, 0, []⟩ asked :=
  ⟨rfl, rfl, rfl, (fresh_plugged []).quiet⟩

theorem starved_asked : Starved asked.dev askForNothing :=
  ⟨rfl, .inr ⟨rfl, by decide⟩⟩

def unanswered : Stack Unit × State := exec handle (usbUsbTask, asked) (takeTurns 100)

theorem usbUsbTask_hangs_descriptor :
    unanswered.1.isRet = false ∧ unanswered.2.wire.host.log = asked.wire.host.log := by
  have hcalm : Calm asked := rfl
  have hencoding : asked.dev.lineEncoding ≠ [] := by decide
  have hruns : Runs handle Calm (usbUsbTask, asked) unanswered :=
    Runs.of_holdsAlong _ (takeTurns 100) (by decide +kernel)
  exact usbUsbTask_hangs hcalm hencoding starved_asked invited_asked hruns

end Adelino.Lockup
