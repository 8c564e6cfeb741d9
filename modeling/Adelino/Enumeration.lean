import Adelino.UsbBytes
import Adelino.Conversation

namespace Adelino.Enumeration

open Adelino.Program Adelino.Logic Adelino.Calls Adelino.Progress Adelino.Deadline
  Adelino.Descriptors Adelino.DescriptorBytes Adelino.ControlPipe Adelino.ControlStack
  Adelino.ControlFrame Adelino.ControlSpec Adelino.CdcDevice Adelino.ControlRequests
  Adelino.Conversation

open Adelino.Endpoint (Ep Usb)
open Adelino.UsbBytes (epnum resets resetEndpoints usbTask usbTaskResetting)

/-- The host is about to make the transfers `ts`, and has made none so far. -/
structure Fresh (ts : List Transfer) (s : State) : Prop where
  pending : s.wire.host.pending = ts
  current : s.wire.host.current = none
  log : s.wire.host.log = []
  address : s.wire.host.address = s.dev.address
  rxstpi : s.wire.ep.rxstpi = false
  sound : Sound s.dev
  processing : s.processing = false
  quiet : Quiet s.bus

theorem Fresh.atRest {ts : List Transfer} {s : State} (hs : Fresh ts s) :
    Rest (view s.dev) ts s where
  talk :=
    .silent (show ts = [] ++ ts from rfl) ⟨hs.pending, hs.log, hs.address⟩ hs.current hs.rxstpi
  sound := hs.sound
  processing := hs.processing
  quiet := hs.quiet

/-- Outside the task the device has served the transfers that the host has seen
the end of, and possibly the one it is waiting for. -/
theorem Rest.behind {c₀ : Cdc} {ts : List Transfer} {s : State} (hs : Rest c₀ ts s) :
    ∃ n, view s.dev = (serveAll (ts.take n) c₀).2 ∧ s.wire.host.log.length ≤ n ∧
      n ≤ s.wire.host.log.length + s.wire.host.current.isSome.toNat := by
  have htalk := hs.talk
  generalize view s.dev = c at htalk ⊢
  cases htalk with
  | @silent done rest _ hts hh hc _ =>
    refine ⟨done.length, by rw [hts, List.take_left], ?_⟩
    rw [hh.log, length_serveAll]
    omega
  | @asked done rest t h _ hts hh hw =>
    refine ⟨done.length, by rw [hts, List.take_left], ?_⟩
    rw [hw]
    show h.log.length ≤ _ ∧ _ ≤ h.log.length + _
    rw [hh.log, length_serveAll]
    omega
  | @answered done rest t h _ hts hh hw =>
    have hsplit : ts = (done ++ [t]) ++ rest := by rw [hts, List.append_assoc]; rfl
    refine ⟨(done ++ [t]).length, ?_, ?_⟩
    · rw [hsplit, List.take_left, serveAll_concat]
    · obtain ⟨stage, he⟩ | he := steady_answered.within _ hw
      all_goals
        rw [he]
        simp [Host.proceed, Host.finish, hh.log, length_serveAll]

theorem Rest.address {c₀ : Cdc} {ts : List Transfer} {s : State} (hs : Rest c₀ ts s)
    (hc : s.wire.host.current = none) : s.wire.host.address = s.dev.address := by
  obtain ⟨done, rest, -, hh, hv, -⟩ := hs.talk.pause hc
  rw [hh.address, ← hv]
  rfl

section Sessions

/-- A device that the host has found on the bus. -/
def plugged (ts : List Transfer) : State where
  wire := ⟨.idle, ⟨ts, none, 0, []⟩⟩
  dev :=
    { uenum := cdcRxEpnum
      endpoints := fun _ => ⟨false, false, 0, 0⟩
      udaddr := 0
      adden := false
      configurationNumber := 0
      controlRequest := ⟨⟨0, 0, 0, 0⟩, 0⟩
      lineEncoding := [0, 0, 0, 0, 0, 0, 8]
      rtsPulse := 0
      descriptor := { deviceDescriptor 0x1209 0x0001 with size := sizeofDeviceDescriptor.toUInt8 }
      flash := fun _ => 0xFF
      resets := [] }
  bus := ⟨.default, true, false, false, false, false, false, true⟩
  sreg := true
  processing := false
  calm := true

theorem fresh_plugged (ts : List Transfer) : Fresh ts (plugged ts) where
  pending := rfl
  current := rfl
  log := rfl
  address := rfl
  rxstpi := rfl
  sound := ⟨rfl, fun h => absurd rfl h⟩
  processing := rfl
  quiet := ⟨rfl, rfl, rfl, nofun, nofun⟩

theorem calm_plugged (ts : List Transfer) : Calm (plugged ts) := rfl

def encode9600 : Transfer := ⟨⟨⟨0x21, 0x20, 0, 0⟩, 7⟩, [0x80, 0x25, 0, 0, 0, 0, 8]⟩

def readEncoding : Transfer := ⟨⟨⟨0xA1, 0x21, 0, 0⟩, 7⟩, []⟩

def readConfiguration : Transfer := ⟨⟨⟨0x80, 0x06, 0x0200, 0⟩, 0xFF⟩, []⟩

def useConfiguration : Transfer := ⟨⟨⟨0x00, 0x09, 1, 0⟩, 0⟩, []⟩

def takeTurns (n : Nat) : List (Move Event) :=
  .irq .submit :: (List.replicate n [.cpu, .irq .token]).flatten

def twice : Stack Unit := do
  usbUsbTask
  usbUsbTask

theorem built_twice : Built Elsewhere Tasks twice :=
  built_bind (.call .usbUsbTask) fun _ => .call .usbUsbTask

instance : DecidablePred Calm := fun s => inferInstanceAs (Decidable (s.calm = true))

end Sessions

section Runs

variable {α : Type} {ts : List Transfer} {p : Stack α} {s : State} {d : Stack α × State}
  (hwf : ∀ t ∈ ts, WellFormed t) (hp : Built Elsewhere Tasks p) (ha : Calm s) (hs : Fresh ts s)
  (hr : Runs handle Calm (p, s) d)
include hwf hp ha hs hr

theorem heard_run : d.2.wire.host.log <+: (serveAll ts (view s.dev)).1 :=
  (client_spec hwf hp s ha hs.atRest _ hr).1

theorem rest_run (hq : d.1.isRet = true) : Rest (view s.dev) ts d.2 := by
  obtain ⟨a, hd⟩ := Prog.eq_ret_of_isRet hq
  exact (client_spec hwf hp s ha hs.atRest _ hr).2 a hd

theorem answer_run {i : Nat} {t : Transfer} {o : Outcome}
    (hi : d.2.wire.host.log[i]? = some (t, o)) :
    o = (serve t (serveAll (ts.take i) (view s.dev)).2).1.outcome t := by
  obtain ⟨rest, hrest⟩ := heard_run hwf hp ha hs hr
  have hlog : (serveAll ts (view s.dev)).1[i]? = some (t, o) := by
    obtain ⟨hlt, -⟩ := List.getElem?_eq_some_iff.mp hi
    rw [← hrest, List.getElem?_append_left hlt]
    exact hi
  rw [getElem?_serveAll, Option.map_eq_some_iff] at hlog
  obtain ⟨u, -, hu⟩ := hlog
  cases hu
  rfl

/-- Whatever program calls the task, the host hears what the abstract device
would have answered, transfer by transfer. When the program has returned, the
device is where the abstract device is after the transfers the host has seen
end, and possibly the one it is waiting for; between two transfers the two
agree on the address. -/
theorem runs_refine :
    d.2.wire.host.log <+: (serveAll ts (view s.dev)).1 ∧
      (d.1.isRet = true →
        (∃ n, view d.2.dev = (serveAll (ts.take n) (view s.dev)).2 ∧ d.2.wire.host.log.length ≤ n ∧
          n ≤ d.2.wire.host.log.length + d.2.wire.host.current.isSome.toNat) ∧
        (d.2.wire.host.current = none → d.2.wire.host.address = d.2.dev.address)) := by
  refine ⟨heard_run hwf hp ha hs hr, fun hq => ?_⟩
  have hrest := rest_run hwf hp ha hs hr hq
  exact ⟨Rest.behind hrest, Rest.address hrest⟩

/-- The line encoding that the host reads is the last one it has set. -/
theorem lineEncoding_kept {i : Nat} {t : Transfer} {o : Outcome}
    (hi : d.2.wire.host.log[i]? = some (t, o)) (ht : decode t.header = .getLineEncoding) :
    o = .completed ((lineEncodingAfter (ts.take i) s.dev.lineEncoding).take t.wLength) := by
  rw [answer_run hwf hp ha hs hr hi, serve, ht]
  show Outcome.completed ((serveAll _ _).2.lineEncoding.take _) = _
  rw [lineEncoding_serveAll]
  rfl

/-- What the host is told about the device does not depend on what it asks and
when: every descriptor is as in an answer to the first request of all. A
device that is configured has the endpoints that it announces. -/
theorem described_as_built :
    (∀ t o, (t, o) ∈ d.2.wire.host.log → decode t.header = .getDescriptor →
      o = (describe t (view s.dev)).1.outcome t) ∧
    (d.1.isRet = true → d.2.dev.configurationNumber ≠ 0 →
      ∀ e ∈ announced, Matches e (d.2.dev.endpoints e.number)) := by
  refine ⟨fun t o ho ht => ?_, fun hq => (rest_run hwf hp ha hs hr hq).sound.endpoints⟩
  obtain ⟨i, hi⟩ := List.getElem?_of_mem ho
  rw [answer_run hwf hp ha hs hr hi, serve, ht]
  exact congrArg _ (describe_sameIdentity t (sameIdentity_serveAll _ _))

end Runs

def setAndRead : Stack Unit × State :=
  exec handle (twice, plugged [encode9600, readEncoding]) (takeTurns 47 ++ takeTurns 47)

theorem runs_setAndRead : Runs handle Calm (twice, plugged [encode9600, readEncoding]) setAndRead :=
  Runs.of_holdsAlong _ (takeTurns 47 ++ takeTurns 47) (by decide +kernel)

theorem runs_refine_lineEncoding :
    setAndRead.1.isRet = true ∧ setAndRead.2.wire.host.log.length = 2 ∧
      setAndRead.2.wire.host.log <+:
        (serveAll [encode9600, readEncoding] (view (plugged []).dev)).1 :=
  ⟨by decide +kernel, by decide +kernel,
    (runs_refine (by decide) built_twice (calm_plugged _) (fresh_plugged _) runs_setAndRead).1⟩

theorem lineEncoding_kept_9600 :
    ∃ o, setAndRead.2.wire.host.log[1]? = some (readEncoding, o) ∧
      o = .completed encode9600.data := by
  obtain ⟨o, ho⟩ : ∃ o, setAndRead.2.wire.host.log[1]? = some (readEncoding, o) :=
    ⟨.completed encode9600.data, by decide +kernel⟩
  exact ⟨o, ho, lineEncoding_kept (by decide) built_twice (calm_plugged _) (fresh_plugged _)
    runs_setAndRead ho rfl⟩

def readAndUse : Stack Unit × State :=
  exec handle (twice, plugged [readConfiguration, useConfiguration]) (takeTurns 136 ++ takeTurns 50)

theorem described_as_built_configured :
    readAndUse.1.isRet = true ∧ readAndUse.2.dev.configurationNumber = 1 ∧
      (∀ o, (readConfiguration, o) ∈ readAndUse.2.wire.host.log →
        o = .completed configurationBytes) ∧
      ∀ e ∈ announced, (readAndUse.2.dev.endpoints e.number).epen = true := by
  have hret : readAndUse.1.isRet = true := by decide +kernel
  have hconf : readAndUse.2.dev.configurationNumber = 1 := by decide +kernel
  have hruns : Runs handle Calm (twice, plugged [readConfiguration, useConfiguration]) readAndUse :=
    Runs.of_holdsAlong _ (takeTurns 136 ++ takeTurns 50) (by decide +kernel)
  obtain ⟨hdesc, hends⟩ :=
    described_as_built (by decide) built_twice (calm_plugged _) (fresh_plugged _) hruns
  refine ⟨hret, hconf, fun o ho => ?_, fun e he => (hends hret (by rw [hconf]; decide) e he).epen⟩
  exact hdesc _ o ho rfl

section Task

variable {ts : List Transfer} {c₀ : Cdc} {s : State} {d : Stack Unit × State}

theorem rtsPulse_eventControlRequest (r : RequestHeader) (l : Machine.Line) :
    (UsbBytes.eventControlRequest r.toControlRequest l).rtsPulse = pulse r l.rtsPulse := by
  by_cases h : r.bRequest = 0x22 ∧ r.bmRequestType = 0x21
  · have hmask : ¬ r.bmRequestType &&& 0x7F ≠ 0x21 := by rw [h.2]; decide
    rw [UsbBytes.eventControlRequest, if_neg hmask, if_pos h, pulse, decode, h.1, h.2]
    rfl
  · have hq : decode r ≠ .setControlLineState := by
      intro hq
      obtain ⟨⟨type, request, wValue, wIndex⟩, wLength⟩ := r
      simp only [decode] at hq
      split at hq <;> cases hq
      exact h ⟨rfl, rfl⟩
    rw [UsbBytes.eventControlRequest, if_neg h, ite_self, pulse]
    split
    · contradiction
    · rfl

def Empties (n : UInt8) (bs : List BankReset) : Prop := .fifo n ∈ bs ∨ .memory n ∈ bs

instance (n : UInt8) (bs : List BankReset) : Decidable (Empties n bs) :=
  inferInstanceAs (Decidable (_ ∨ _))

def emptyBanks (bs : List BankReset) (u : Usb) : Usb :=
  let u := if Empties (epnum .tx) bs then u.resetEndpoint .tx else u
  if Empties (epnum .rx) bs then u.resetEndpoint .rx else u

theorem empties_bankResets (r : RequestHeader) {c : Cdc} (ep : Ep) (hep : ep = .tx ∨ ep = .rx)
    (he : c.enabled (epnum ep) = true) :
    Empties (epnum ep) (bankResets r c) ↔ resets r.toControlRequest ep = true := by
  obtain ⟨⟨type, request, wValue, wIndex⟩, wLength⟩ := r
  have hne : epnum ep ≠ 0 := by obtain rfl | rfl := hep <;> decide
  rw [bankResets, Empties]
  generalize hq : decode _ = q
  simp only [decode] at hq
  split at hq <;> subst hq
  case h_5 =>
    simp only [recipient, resets]
    grind
  case h_11 =>
    by_cases hv : wValue.toUInt8 > numConfigurations
    · have hv' : ¬ wValue.toUInt8 ≤ 1 := UInt8.not_le.mpr hv
      simp [resets, hv, hv']
    · have hv' : wValue.toUInt8 ≤ 1 := UInt8.not_lt.mp hv
      obtain rfl | rfl := hep
      all_goals simp [resets, hv, hv', epnum, cdcNotificationEpnum, cdcTxEpnum, cdcRxEpnum]
  case h_12 =>
    simp only [resets]
    grind
  all_goals simp [resets]

def InUse (d : Variables) : Prop :=
  (d.endpoints (epnum .tx)).epen = true ∧ (d.endpoints (epnum .rx)).epen = true

theorem emptyBanks_bankResets (r : RequestHeader) {d : Variables} (hd : InUse d) (u : Usb) :
    emptyBanks (bankResets r (view d)) u = resetEndpoints r.toControlRequest u := by
  have htx := empties_bankResets r (c := view d) .tx (.inl rfl) hd.1
  have hrx := empties_bankResets r (c := view d) .rx (.inr rfl) hd.2
  simp only [emptyBanks, resetEndpoints, htx, hrx]

theorem deviceState_resetEndpoints (r : Endpoint.ControlRequest) (u : Usb) :
    (resetEndpoints r u).deviceState = u.deviceState := by
  simp only [resetEndpoints]
  split_ifs <;> rfl

theorem emptyBanks_of_kept {bs : List BankReset} (htx : ¬ Empties (epnum .tx) bs)
    (hrx : ¬ Empties (epnum .rx) bs) (u : Usb) : emptyBanks bs u = u := by
  simp only [emptyBanks, if_neg htx, if_neg hrx]

/-- What the task finds when it looks: the SETUP packet that waited when it was
called, or else the next one, if the host sends it in time. -/
inductive Finds (w : Wire) : List Transfer → Prop
  | nothing (h : w.ep.rxstpi = false) : Finds w []
  | request {t : Transfer} (h : upcoming w = some t) : Finds w [t]

/-- A state of the firmware model in which the requests `us` wait for the task. -/
structure Shows (d : Variables) (us : List Transfer) (m : Machine.State) : Prop where
  attached : m.usb.deviceState ≠ .unattached
  setup : m.usb.setup = us.map (·.header.toControlRequest)
  rtsPulse : m.line.rtsPulse = d.rtsPulse

theorem Shows.step_nil {d : Variables} {m : Machine.State} (hm : Shows d [] m) :
    usbTask.step m = (.ret (), m) ∧ usbTaskResetting.step m = (.ret (), m) := by
  have hset : m.usb.setup = [] := hm.setup
  simp [usbTask, usbTaskResetting, Prog.modify, Prog.step, hset]

theorem Shows.step_request {d : Variables} {t : Transfer} {m : Machine.State} (hm : Shows d [t] m) :
    let r := t.header.toControlRequest
    usbTask.step m =
        (.ret (), { m with usb.setup := [], line := UsbBytes.eventControlRequest r m.line }) ∧
      usbTaskResetting.step m = (.ret (), { m with
        usb := { resetEndpoints r m.usb with setup := [] }
        line := UsbBytes.eventControlRequest r m.line }) := by
  have hset : m.usb.setup = [t.header.toControlRequest] := hm.setup
  simp [usbTask, usbTaskResetting, Prog.modify, Prog.step, hm.attached, hset]

/-- The task as the rest of the firmware sees it. A call leaves the selected
endpoint as it found it, and what it does to `rts_pulse` and to the banks of the
data endpoints is one step of the task of the firmware model with the request
that it finds. That model may forget about the banks when none is emptied. -/
theorem usbUsbTask_atomic (hwf : ∀ t ∈ ts, WellFormed t) (ha : Calm s) (hs : Rest c₀ ts s)
    (hr : Runs handle Calm (usbUsbTask, s) d) (hq : d.1.isRet = true) :
    d.2.dev.uenum = s.dev.uenum ∧ ∃ us bs, Finds s.wire us ∧ us ⊆ ts ∧
      d.2.dev.resets = s.dev.resets ++ bs ∧ ∀ m, Shows s.dev us m →
        Shows d.2.dev [] (usbTaskResetting.step m).2 ∧
        (InUse s.dev →
          (usbTaskResetting.step m).2.usb = { emptyBanks bs m.usb with setup := [] } ∧
          (¬ Empties (epnum .tx) bs → ¬ Empties (epnum .rx) bs →
            usbTask.step m = usbTaskResetting.step m)) := by
  obtain ⟨a, hd⟩ := Prog.eq_ret_of_isRet hq
  obtain ⟨htask, -⟩ := ((usbUsbTask_spec hwf s.wire).safe s ha hs.expecting _ hr).2 a hd
  generalize d.2.dev = d' at htask ⊢
  cases htask with
  | idle hw hv hp hb hn =>
    refine ⟨hn, [], [], .nothing hw, List.nil_subset _, by simp [hb], fun m hm => ?_⟩
    obtain ⟨htask, hstep⟩ := hm.step_nil
    have hset : m.usb.setup = [] := hm.setup
    rw [htask, hstep]
    refine ⟨⟨hm.attached, hm.setup, hm.rtsPulse.trans hp.symm⟩, fun _ => ⟨?_, fun _ _ => rfl⟩⟩
    rw [emptyBanks_of_kept (by simp [Empties]) (by simp [Empties]), ← hset]
  | served t ht hw hv hp hb hn =>
    refine ⟨hn, [t], _, .request hw, by simpa using ht, hb, fun m hm => ?_⟩
    obtain ⟨htask, hstep⟩ := hm.step_request
    rw [htask, hstep]
    refine ⟨⟨?_, rfl, ?_⟩, fun hd => ⟨?_, fun htx hrx => ?_⟩⟩
    · exact (deviceState_resetEndpoints _ _).trans_ne hm.attached
    · exact (rtsPulse_eventControlRequest _ _).trans (by rw [hm.rtsPulse, hp])
    · rw [emptyBanks_bankResets _ hd]
    · rw [← emptyBanks_bankResets _ hd, emptyBanks_of_kept htx hrx]

end Task

def clearRxHalt : Transfer := ⟨⟨⟨0x02, 0x01, 0, 4⟩, 0⟩, []⟩

def rxHaltWaits : State :=
  handle .submit
    (exec handle (usbUsbTask, plugged [useConfiguration, clearRxHalt]) (takeTurns 50)).2

def rxHaltCleared : Stack Unit × State := exec handle (usbUsbTask, rxHaltWaits) (takeTurns 40)

theorem rest_rxHaltWaits :
    Rest (view (plugged []).dev) [useConfiguration, clearRxHalt] rxHaltWaits := by
  have hruns : Runs handle Calm (usbUsbTask, plugged [useConfiguration, clearRxHalt])
      (exec handle (usbUsbTask, plugged [useConfiguration, clearRxHalt]) (takeTurns 50)) :=
    Runs.of_holdsAlong _ (takeTurns 50) (by decide +kernel)
  have hrest := rest_run (by decide) (.call .usbUsbTask) (calm_plugged _) (fresh_plugged _) hruns
    (by decide +kernel)
  exact (stable_rest _ .submit _ (show Calm _ by decide +kernel)
    (show Calm rxHaltWaits by decide +kernel) ⟨rfl, hrest⟩).2

def oneByte : Machine.State :=
  let m := Machine.State.reset ⟨fun _ => 0xFF, fun _ => none, false, fun _ => 0⟩ [] false
  { m with usb := { m.usb with
      deviceState := .configured
      outBank := some [0x55]
      setup := [clearRxHalt.header.toControlRequest] } }

/-- A byte that is in the OUT bank while the request waits is lost. -/
theorem usbUsbTask_atomic_clearRxHalt :
    rxHaltWaits.wire.ep.rxstpi = true ∧ rxHaltCleared.1.isRet = true ∧
      ∃ m, Shows rxHaltWaits.dev [clearRxHalt] m ∧ m.usb.outBank = some [0x55] ∧
        Shows rxHaltCleared.2.dev [] (usbTaskResetting.step m).2 ∧
        (usbTaskResetting.step m).2.usb.outBank = none := by
  have hwaits : rxHaltWaits.wire.ep.rxstpi = true := by decide +kernel
  have hret : rxHaltCleared.1.isRet = true := by decide +kernel
  have hruns : Runs handle Calm (usbUsbTask, rxHaltWaits) rxHaltCleared :=
    Runs.of_holdsAlong _ (takeTurns 40) (by decide +kernel)
  obtain ⟨-, us, bs, hfinds, -, hbs, hstep⟩ :=
    usbUsbTask_atomic (by decide) (by decide +kernel) rest_rxHaltWaits hruns hret
  obtain rfl : us = [clearRxHalt] := by
    cases hfinds with
    | nothing h =>
      rw [hwaits] at h
      cases h
    | request h =>
      rw [show upcoming rxHaltWaits.wire = some clearRxHalt by decide +kernel] at h
      cases h
      rfl
  obtain rfl : bs = [.fifo 4, .dataToggle 4] := by
    rw [show rxHaltCleared.2.dev.resets = rxHaltWaits.dev.resets ++ [.fifo 4, .dataToggle 4] by
      decide +kernel] at hbs
    exact (List.append_cancel_left hbs).symm
  have hshows : Shows rxHaltWaits.dev [clearRxHalt] oneByte := ⟨by decide, rfl, by decide +kernel⟩
  obtain ⟨hafter, hbanks⟩ := hstep oneByte hshows
  obtain ⟨husb, -⟩ := hbanks ⟨by decide +kernel, by decide +kernel⟩
  exact ⟨hwaits, hret, oneByte, hshows, rfl, hafter, by rw [husb]; decide⟩

end Adelino.Enumeration
