import Adelino.ControlFrame
import Adelino.ControlRequests

namespace Adelino.Conversation

open Adelino.Program Adelino.Logic Adelino.Calls Adelino.Progress Adelino.Deadline Adelino.Endpoint
  Adelino.ControlPipe Adelino.ControlStack Adelino.ControlFrame Adelino.ControlSpec
  Adelino.CdcDevice Adelino.ControlRequests

section Abstract

variable (c₀ : Cdc)

theorem address_serve (t : Transfer) (c : Cdc) :
    (serve t c).2.address = if t.isSetAddress then t.newAddress else c.address := by
  rw [isSetAddress_decode, serve]
  cases hq : decode t.header with
  | setFeature stall =>
    simp only [halt]
    split_ifs <;> simp_all
  | getDescriptor =>
    simp only [describe]
    split <;> simp
  | setConfiguration =>
    simp only [CdcDevice.configure]
    split_ifs <;> simp_all
  | _ => simp

theorem accepted_setAddress {t : Transfer} (h : t.isSetAddress = true) (c : Cdc) :
    (serve t c).1 = .accepted := by
  rw [isSetAddress_decode, decide_eq_true_eq] at h
  rw [serve, h]

/-- The host has seen the answers to `done`, and will ask for `rest`. -/
structure Told (done rest : List Transfer) (h : Host) : Prop where
  pending : h.pending = rest
  log : h.log = (serveAll done c₀).1
  address : h.address = (serveAll done c₀).2.address

variable {c₀}

theorem Told.finish {done rest : List Transfer} {h : Host} (hh : Told c₀ done rest h)
    (t : Transfer) :
    Told c₀ (done ++ [t]) rest (h.finish t ((serve t (serveAll done c₀).2).1.outcome t)) where
  pending := hh.pending
  log := by rw [serveAll_concat, Host.finish, hh.log]
  address := by
    rw [serveAll_concat, address_serve]
    simp only [Host.finish]
    by_cases ha : t.isSetAddress = true
    · rw [accepted_setAddress ha, ha]
      rfl
    · simp only [ha, Bool.false_eq_true, if_false, Bool.false_and]
      exact hh.address

theorem Told.isPrefix {ts done us rest : List Transfer} {h : Host} (hh : Told c₀ done rest h)
    (hts : ts = done ++ us) : h.log <+: (serveAll ts c₀).1 := by
  rw [hh.log, hts, serveAll_append]
  exact List.prefix_append _ _

theorem Course.isPrefix {ts done rest : List Transfer} {t : Transfer} {h : Host} {w : Wire}
    (hh : Told c₀ done rest h) (hts : ts = done ++ t :: rest)
    (hw : Course t h ((serve t (serveAll done c₀).2).1.outcome t) w) :
    w.host.log <+: (serveAll ts c₀).1 := by
  obtain ⟨stage, he⟩ | he := hw
  · rw [he]
    exact hh.isPrefix hts
  · rw [he]
    refine (hh.finish t).isPrefix (?_ : ts = (done ++ [t]) ++ rest)
    rw [hts, List.append_assoc]
    rfl

end Abstract

/-- Where the conversation can be while no request is being processed. The
device is as after the transfers that it has answered. -/
inductive Talk (c₀ : Cdc) (ts : List Transfer) : Cdc → Wire → Prop
  | silent {done rest : List Transfer} {w : Wire} (hts : ts = done ++ rest)
      (hh : Told c₀ done rest w.host) (hc : w.host.current = none) (hs : w.ep.rxstpi = false) :
      Talk c₀ ts (serveAll done c₀).2 w
  | asked {done rest : List Transfer} {t : Transfer} {h : Host} {w : Wire}
      (hts : ts = done ++ t :: rest) (hh : Told c₀ done rest h) (hw : Asked t h t.header.bytes w) :
      Talk c₀ ts (serveAll done c₀).2 w
  | answered {done rest : List Transfer} {t : Transfer} {h : Host} {w : Wire}
      (hts : ts = done ++ t :: rest) (hh : Told c₀ done rest h)
      (hw : Answered t h ((serve t (serveAll done c₀).2).1.outcome t) w) :
      Talk c₀ ts (serve t (serveAll done c₀).2).2 w

section Talk

variable {c₀ c : Cdc} {ts : List Transfer} {w : Wire}

theorem Talk.token (a : UInt8) (h : Talk c₀ ts c w) : Talk c₀ ts c (w.token a) := by
  cases h with
  | silent hts hh hc hs =>
    rw [token_of_current hc]
    exact .silent hts hh hc hs
  | asked hts hh hw => exact .asked hts hh ((steady_asked .stalled _).token a w hw)
  | answered hts hh hw => exact .answered hts hh (steady_answered.token a w hw)

theorem Answered.finished {t : Transfer} {h : Host} {o : Outcome} (hw : Answered t h o w)
    (hc : w.host.current = none) : w.host = h.finish t o := by
  obtain ⟨stage, he⟩ | he := steady_answered.within w hw
  · rw [he] at hc
    cases hc
  · exact he

theorem Talk.pause (h : Talk c₀ ts c w) (hc : w.host.current = none) :
    ∃ done rest, ts = done ++ rest ∧ Told c₀ done rest w.host ∧ c = (serveAll done c₀).2 ∧
      w.ep.rxstpi = false := by
  cases h with
  | @silent done rest _ hts hh hc hs => exact ⟨done, rest, hts, hh, rfl, hs⟩
  | asked hts hh hw =>
    rw [hw] at hc
    cases hc
  | @answered done rest t h _ hts hh hw =>
    refine ⟨done ++ [t], rest, by rw [hts]; simp, ?_, ?_, hw.rxstpi⟩
    · rw [Answered.finished hw hc]
      exact hh.finish t
    · rw [serveAll_concat]

theorem Talk.submit {a : UInt8} {w' : Wire} (h : Talk c₀ ts c w) (hw : w.nextSetup a = some w') :
    Talk c₀ ts c w' := by
  unfold Wire.nextSetup at hw
  split at hw
  · next t rest hc hp =>
    obtain ⟨done, rest', hts, hh, rfl, hs⟩ := h.pause hc
    split at hw
    · cases hw
      rw [hh.pending] at hp
      subst hp
      exact .asked (h := { w.host with pending := rest }) hts ⟨rfl, hh.log, hh.address⟩ rfl
    · cases hw
  · cases hw

theorem Talk.isPrefix (h : Talk c₀ ts c w) : w.host.log <+: (serveAll ts c₀).1 := by
  cases h with
  | silent hts hh hc hs => exact hh.isPrefix hts
  | asked hts hh hw =>
    rw [hw]
    exact hh.isPrefix hts
  | answered hts hh hw => exact Course.isPrefix hh hts (steady_answered.within w hw)

end Talk

section Upcoming

/-- The transfer whose SETUP packet the task finds next: the one that waits, or
else the next one that the host is going to make. -/
def upcoming (w : Wire) : Option Transfer :=
  if w.ep.rxstpi then w.host.current.map (·.1) else w.host.pending.head?

theorem waiting_transact (w : Wire) (t : Transfer) (stage : Stage) :
    (w.transact t stage).ep.rxstpi = w.ep.rxstpi ∧
      (w.ep.rxstpi = true → w.transact t stage = w) ∧
        (w.transact t stage).host.pending = w.host.pending := by
  simp only [Wire.transact, Host.finish, Host.proceed, ControlEndpoint.receive]
  split
  · simp
  split
  · simp_all
  split <;> (try split) <;> simp_all

theorem waiting_token (a : UInt8) (w : Wire) :
    upcoming (w.token a) = upcoming w ∧ (w.token a).ep.rxstpi = w.ep.rxstpi := by
  unfold Wire.token
  split
  · exact ⟨rfl, rfl⟩
  · next t stage _ =>
    split
    · obtain ⟨hx, hsame, hp⟩ := waiting_transact w t stage
      refine ⟨?_, hx⟩
      cases hw : w.ep.rxstpi with
      | true => rw [hsame hw]
      | false => rw [upcoming, upcoming, hx, hw, hp]; rfl
    · exact ⟨rfl, rfl⟩

theorem Talk.waiting_submit {c₀ c : Cdc} {ts : List Transfer} {a : UInt8} {w w' : Wire}
    (h : Talk c₀ ts c w) (hw : w.nextSetup a = some w') :
    upcoming w' = upcoming w ∧ w'.ep.rxstpi = true := by
  unfold Wire.nextSetup at hw
  split at hw
  · next t rest hc hp =>
    obtain ⟨-, -, -, -, -, hs⟩ := h.pause hc
    split at hw
    · cases hw
      refine ⟨?_, rfl⟩
      rw [upcoming, upcoming, hs, hp]
      rfl
    · cases hw
  · cases hw

end Upcoming

section Measure

/-- What is left to do: the transfers to come in full, and of the present one
its SETUP packet and its end. -/
def workLeft (w : Wire) : Nat :=
  3 * w.host.pending.length + w.host.current.isSome.toNat + w.ep.rxstpi.toNat

theorem workLeft_transact (w : Wire) (t : Transfer) (stage : Stage)
    (hc : w.host.current = some (t, stage)) : workLeft (w.transact t stage) ≤ workLeft w := by
  simp only [Wire.transact, workLeft, Host.finish, Host.proceed, ControlEndpoint.receive, hc]
  split
  · simp [hc]
  split
  · simp
  split <;> (try split) <;> simp [hc]

theorem workLeft_token (a : UInt8) (w : Wire) : workLeft (w.token a) ≤ workLeft w := by
  unfold Wire.token
  split
  · exact Nat.le_refl _
  · next t stage hc =>
    split
    · exact workLeft_transact w t stage hc
    · exact Nat.le_refl _

theorem workLeft_nextSetup {a : UInt8} {w w' : Wire} (h : w.nextSetup a = some w') :
    workLeft w' < workLeft w := by
  unfold Wire.nextSetup at h
  split at h
  · next t rest hc hp =>
    split at h
    · cases h
      simp only [workLeft, hc, hp, ControlEndpoint.setup, List.length_cons, Option.isSome_some,
        Option.isSome_none, Bool.toNat_true, Bool.toNat_false]
      omega
    · cases h
  · cases h

theorem wire_usbGen (s : State) : (usbGen s).wire = s.wire := by
  unfold usbGen
  simp only
  split_ifs <;> rfl

theorem workLeft_handle (e : Event) (s : State) : workLeft (handle e s).wire ≤ workLeft s.wire := by
  cases e with
  | token => exact workLeft_token _ _
  | submit =>
    simp only [handle]
    split
    · exact Nat.le_refl _
    · next w hw => exact Nat.le_of_lt (workLeft_nextSetup hw)
  | giveUp => exact Nat.add_le_add_right (Nat.add_le_add_left (Nat.zero_le _) _) _
  | busReset => exact Nat.le_trans (Nat.le_add_right _ _) (Nat.le_add_right _ _)
  | usbGen =>
    simp only [handle]
    split
    · rw [wire_usbGen]
    · exact Nat.le_refl _
  | vbus | suspend | wakeUp => exact Nat.le_refl _

theorem workLeft_asked {t : Transfer} {h : Host} {bytes : List UInt8} {w : Wire}
    (hw : Asked t h bytes w) : workLeft w = 3 * h.pending.length + 2 := by
  rw [hw]
  rfl

theorem workLeft_answered {t : Transfer} {h : Host} {o : Outcome} {w : Wire}
    (hw : Answered t h o w) : workLeft w < 3 * h.pending.length + 2 := by
  obtain ⟨stage, he⟩ | he := steady_answered.within w hw
  all_goals
    rw [workLeft, hw.rxstpi, he]
    simp [Host.proceed, Host.finish]

end Measure

structure Rest (c₀ : Cdc) (ts : List Transfer) (s : State) : Prop where
  talk : Talk c₀ ts (view s.dev) s.wire
  sound : Sound s.dev
  processing : s.processing = false
  quiet : Quiet s.bus

/-- What the host has heard so far is right. -/
def Heard (c₀ : Cdc) (ts : List Transfer) (s : State) : Prop :=
  s.wire.host.log <+: (serveAll ts c₀).1

section Task

variable {c₀ : Cdc} {ts : List Transfer} {d : Variables}

theorem stable_rest (d : Variables) : Stable handle Calm fun s => s.dev = d ∧ Rest c₀ ts s := by
  rintro e s - hn ⟨hd, hs⟩
  cases e with
  | token => exact ⟨hd, { hs with talk := hs.talk.token _ }⟩
  | submit =>
    simp only [handle] at hn ⊢
    split
    · exact ⟨hd, hs⟩
    · next w hw => exact ⟨hd, { hs with talk := hs.talk.submit hw }⟩
  | giveUp => cases hn
  | vbus level => cases hn
  | suspend => cases hn
  | wakeUp => exact ⟨hd, { hs with quiet := { hs.quiet with suspi := rfl } }⟩
  | busReset => cases hn
  | usbGen =>
    simp only [handle]
    split
    · obtain ⟨hd', hw, hp, hq⟩ := quiet_usbGen hs.quiet
      exact ⟨hd'.trans hd, ⟨by rw [hd', hw]; exact hs.talk, hd' ▸ hs.sound,
        hp.trans hs.processing, hq⟩⟩
    · exact ⟨hd, hs⟩

theorem rest_heard (s : State) (hs : Rest c₀ ts s) : Heard c₀ ts s := hs.talk.isPrefix

/-- No request is being processed, and the task will find what it would have
found on `w`, if it finds anything. A SETUP packet that waits there still waits. -/
structure Expecting (c₀ : Cdc) (ts : List Transfer) (w : Wire) (d : Variables) (s : State) :
    Prop where
  dev : s.dev = d
  rest : Rest c₀ ts s
  upcoming : upcoming s.wire = upcoming w
  waits : w.ep.rxstpi = true → s.wire.ep.rxstpi = true

theorem Rest.expecting {s : State} (hs : Rest c₀ ts s) : Expecting c₀ ts s.wire s.dev s :=
  ⟨rfl, hs, rfl, id⟩

theorem waiting_handle {e : Event} {s : State} (hn : Calm (handle e s)) (hs : Rest c₀ ts s) :
    upcoming (handle e s).wire = upcoming s.wire ∧
      (s.wire.ep.rxstpi = true → (handle e s).wire.ep.rxstpi = true) := by
  cases e with
  | token =>
    obtain ⟨hu, hx⟩ := waiting_token s.dev.address s.wire
    exact ⟨hu, hx.trans⟩
  | submit =>
    simp only [handle]
    split
    · exact ⟨rfl, id⟩
    · next w hw =>
      obtain ⟨hu, hx⟩ := hs.talk.waiting_submit hw
      exact ⟨hu, fun _ => hx⟩
  | giveUp => cases hn
  | vbus level => cases hn
  | suspend => cases hn
  | wakeUp => exact ⟨rfl, id⟩
  | busReset => cases hn
  | usbGen =>
    simp only [handle]
    split
    · rw [wire_usbGen]
      exact ⟨rfl, id⟩
    · exact ⟨rfl, id⟩

theorem stable_expecting (w : Wire) (d : Variables) : Stable handle Calm (Expecting c₀ ts w d) := by
  intro e s ha hn hs
  obtain ⟨hd, hr⟩ := stable_rest d e s ha hn ⟨hs.dev, hs.rest⟩
  obtain ⟨hu, hx⟩ := waiting_handle hn hs.rest
  exact ⟨hd, hr, hu.trans hs.upcoming, fun h => hx (hs.waits h)⟩

theorem rest_act {α : Type} {w : Wire} {f : State → α × State} {P : α → State → Prop}
    (hP : ∀ a, Stable handle Calm (P a)) (hG : ∀ a s, P a s → Heard c₀ ts s)
    (h : ∀ s, Expecting c₀ ts w d s → P (f s).1 (f s).2) :
    Correct handle Calm (Heard c₀ ts) Responsive (Expecting c₀ ts w d) (.act f) P :=
  .act (fun _ hσ => hσ.cpu) f (stable_expecting w d) hP (fun s _ hs => rest_heard s hs.rest)
    (fun a s _ hs => hG a s hs) fun s _ hs _ => h s hs

theorem selectEndpoint_rest (w : Wire) (n : UInt8) :
    Correct handle Calm (Heard c₀ ts) Responsive (Expecting c₀ ts w d) (selectEndpoint n)
      (fun _ => Expecting c₀ ts w { d with uenum := n }) := by
  refine rest_act (fun _ => stable_expecting w _) (fun _ s hs => rest_heard s hs.rest)
    fun s hs => ?_
  have hr := hs.rest
  exact ⟨by rw [← hs.dev],
    ⟨hr.talk, ⟨hr.sound.lineEncoding, hr.sound.endpoints⟩, hr.processing, hr.quiet⟩,
    hs.upcoming, hs.waits⟩

theorem read_rest {α : Type} {w : Wire} {f : State → α} {c : α → Prop}
    (h : ∀ s, Expecting c₀ ts w d s → c (f s)) :
    Correct handle Calm (Heard c₀ ts) Responsive (Expecting c₀ ts w d) (.read f)
      (fun a s => c a ∧ Expecting c₀ ts w d s) :=
  rest_act (fun _ e s ha hn hs => ⟨hs.1, stable_expecting w d e s ha hn hs.2⟩)
    (fun _ s hs => rest_heard s hs.2.rest) fun s hs => ⟨h s hs, hs⟩

/-- The transfer `t` is the next one to be served on `d`. -/
structure Next (c₀ : Cdc) (ts : List Transfer) (d : Variables) (done rest : List Transfer)
    (t : Transfer) (h : Host) : Prop where
  split : ts = done ++ t :: rest
  told : Told c₀ done rest h
  view : view d = (serveAll done c₀).2
  sound : Sound d

theorem Next.address {done rest : List Transfer} {t : Transfer} {h : Host}
    (hn : Next c₀ ts d done rest t h) : h.address = d.address := by
  rw [hn.told.address, ← hn.view]
  rfl

structure Invited (d : Variables) (t : Transfer) (h : Host) (s : State) : Prop where
  dev : s.dev = d
  wire : Asked t h t.header.bytes s.wire
  processing : s.processing = false
  quiet : Quiet s.bus

variable {done rest : List Transfer} {t : Transfer} {h : Host}

theorem Invited.atRest {s : State} (hs : Invited d t h s) (hn : Next c₀ ts d done rest t h) :
    Rest c₀ ts s where
  talk := by
    rw [hs.dev, hn.view]
    exact .asked hn.split hn.told hs.wire
  sound := hs.dev ▸ hn.sound
  processing := hs.processing
  quiet := hs.quiet

theorem nextSetup_asked (a : UInt8) {bytes : List UInt8} {w : Wire} (hw : Asked t h bytes w) :
    w.nextSetup a = none := by
  rw [hw]
  rfl

theorem stable_invited : Stable handle Calm (Invited d t h) := by
  intro e s _ hn hs
  cases e with
  | token => exact { hs with wire := (steady_asked .stalled _).token _ _ hs.wire }
  | submit =>
    simp only [handle, nextSetup_asked _ hs.wire]
    exact hs
  | giveUp => cases hn
  | vbus level => cases hn
  | suspend => cases hn
  | wakeUp => exact { hs with quiet := { hs.quiet with suspi := rfl } }
  | busReset => cases hn
  | usbGen =>
    simp only [handle]
    split
    · obtain ⟨hd, hw, hp, hq⟩ := quiet_usbGen hs.quiet
      exact ⟨hd.trans hs.dev, hw ▸ hs.wire, hp.trans hs.processing, hq⟩
    · exact hs

theorem Rest.invited {s : State} (hs : Rest c₀ ts s) (hx : s.wire.ep.rxstpi = true) :
    ∃ done rest t h, Next c₀ ts s.dev done rest t h ∧ Invited s.dev t h s := by
  have htalk := hs.talk
  generalize hv : view s.dev = c at htalk
  cases htalk with
  | silent _ _ _ h0 => rw [h0] at hx; cases hx
  | answered _ _ hw => rw [hw.rxstpi] at hx; cases hx
  | @asked done rest t h _ hts hh hw =>
    exact ⟨done, rest, t, h, ⟨hts, hh, hv, hs.sound⟩, rfl, hw, hs.processing, hs.quiet⟩

theorem Invited.upcoming {s : State} (hs : Invited d t h s) : upcoming s.wire = some t := by
  rw [hs.wire]
  rfl

theorem isSetupReceived_rest {w : Wire} (hd : d.uenum = 0) :
    Correct handle Calm (Heard c₀ ts) Responsive (Expecting c₀ ts w d) isSetupReceived
      (fun b s => if b then ∃ done rest t h, (Next c₀ ts d done rest t h ∧ upcoming w = some t) ∧
          Invited d t h s
        else w.ep.rxstpi = false ∧ Expecting c₀ ts w d s) := by
  refine rest_act (fun b => ?_) (fun b s hs => ?_) fun s hs => ?_
  · cases b with
    | false => exact fun e s ha hn hs => ⟨hs.1, stable_expecting w d e s ha hn hs.2⟩
    | true =>
      rintro e s ha hn ⟨done, rest, t, h, hnext, hs⟩
      exact ⟨done, rest, t, h, hnext, stable_invited e s ha hn hs⟩
  · cases b with
    | false => exact rest_heard s hs.2.rest
    | true =>
      obtain ⟨done, rest, t, h, hnext, hs⟩ := hs
      exact rest_heard s (hs.atRest hnext.1)
  · have hcontrol : s.control = true := by rw [State.control, hs.dev, hd]; rfl
    simp only [hcontrol, Bool.true_and]
    cases hx : s.wire.ep.rxstpi with
    | false =>
      have hw : w.ep.rxstpi = false := by
        by_contra hw
        rw [hs.waits (by simpa using hw)] at hx
        cases hx
      exact ⟨hw, hs⟩
    | true =>
      obtain ⟨done, rest, t, h, hnext, hi⟩ := Rest.invited hs.rest hx
      rw [hs.dev] at hnext hi
      exact ⟨done, rest, t, h, ⟨hnext, hs.upcoming ▸ hi.upcoming⟩, hi⟩

theorem readBytes_spec {C : Wire → Prop} (hask : ∀ bytes, WireSteady C (Asked t h bytes))
    (hd : d.uenum = 0) (bytes : List UInt8) :
    Serves C (At d (Asked t h bytes)) (readBytes bytes.length)
      (fun r => At d fun w => r = bytes ∧ Asked t h [] w) := by
  induction bytes with
  | nil => exact ret_spec _ ((hask []).pure _) fun w hw => ⟨rfl, hw⟩
  | cons b bytes ih =>
    refine .bind (read8_spec hd (hask _) (fun c => (hask bytes).pure (c = b)) ?_)
      fun c => pure_spec fun hc => ?_
    · rintro w rfl
      exact ⟨rfl, rfl⟩
    subst hc
    refine .bind ih fun r => pure_spec fun hr => ?_
    subst hr
    exact ret_spec _ ((hask []).pure _) fun w hw => ⟨rfl, hw⟩

/-- The task has served the transfer `t`, after which less than `n` is left. -/
def Resumed (c₀ : Cdc) (ts : List Transfer) (t : Transfer) (n : Nat) (d : Variables) (s : State) :
    Prop :=
  ∃ d', Served t d d' ∧ workLeft s.wire < n ∧ s.dev = d' ∧ Rest c₀ ts s

theorem stable_resumed {n : Nat} : Stable handle Calm (Resumed c₀ ts t n d) := by
  rintro e s ha hn ⟨d', hd', hl, hs⟩
  exact ⟨d', hd', Nat.lt_of_le_of_lt (workLeft_handle e s) hl, stable_rest d' e s ha hn hs⟩

theorem Settled.resumed {s : State} {d' : Variables} (hn : Next c₀ ts d done rest t h)
    (hd' : d' = { d with controlRequest := t.header }) (hs : Settled t h d' s) :
    Resumed c₀ ts t (3 * h.pending.length + 2) d { s with processing := false } := by
  subst hd'
  obtain ⟨d'', hserved, hs⟩ := hs
  have hview : view d'' = (serve t (serveAll done c₀).2).2 := by
    rw [hserved.view, ← hn.view]
    rfl
  refine ⟨d'', ⟨hserved.view, hserved.rtsPulse, hserved.resets, hserved.sound⟩,
    workLeft_answered hs.wire, hs.dev, ?_, hs.dev ▸ hserved.sound, rfl, hs.quiet⟩
  rw [hs.dev, hview]
  refine .answered hn.split hn.told ?_
  have hwire := hs.wire
  rw [← hn.view]
  exact hwire

theorem usbDeviceProcessControlRequest_spec (hn : Next c₀ ts d done rest t h) (hwf : WellFormed t)
    (hd : d.uenum = 0) :
    Correct handle Calm (Heard c₀ ts) Responsive (Invited d t h) usbDeviceProcessControlRequest
      (fun _ => Resumed c₀ ts t (3 * h.pending.length + 2) d) := by
  obtain ⟨d', hd'⟩ : ∃ d', d' = { d with controlRequest := t.header } := ⟨_, rfl⟩
  have hview : view d' = view d := by rw [hd']; rfl
  obtain ⟨o, ho⟩ : ∃ o, o = (serve t (view d')).1.outcome t := ⟨_, rfl⟩
  have hheard (s : State) (hc : Course t h o s.wire) : Heard c₀ ts s := by
    rw [ho, hview, hn.view] at hc
    exact Course.isPrefix hn.told hn.split hc
  have hask := steady_asked (t := t) (h := h) o
  refine .bind (R := fun _ => At d (Asked t h t.header.bytes)) ?_ fun _ => ?_
  · refine .act (fun _ hσ => hσ.cpu) _ stable_invited (fun _ => At.stable (hask _) d)
      (fun s _ hs => ?_) (fun _ s _ hs => hheard s ((hask _).within _ hs.wire)) fun s _ hs _ => ?_
    · exact rest_heard s (hs.atRest hn)
    · exact ⟨hs.dev, hs.wire, rfl, hs.quiet⟩
  have hlift {α : Type} {P : State → Prop} {p : Stack α} {Q : α → State → Prop}
      (ht : Serves (Course t h o) P p Q) :
      Correct handle Calm (Heard c₀ ts) Responsive P p Q :=
    ht.conseq hheard (fun _ hp => hp) (fun _ _ hq => hq)
  refine .bind (hlift (readBytes_spec hask hd _)) fun header => pure_spec fun hh => ?_
  subst hh
  rw [RequestHeader.ofBytes_bytes]
  refine .bind (hlift (onDev_spec (hask []) _)) fun _ => ?_
  rw [← hd']
  refine .bind (hlift (read_spec (hask []) (fun r => (hask []).pure (r = t.header)) ?_)) fun r =>
    pure_spec fun hr => ?_
  · intro s hs
    exact ⟨by rw [hs.dev, hd'], hs.wire⟩
  subst hr
  have hserved : ServedBy t h d' := by
    refine processRequest_spec ?_ ?_ ?_ ?_ hwf
    · rw [hd']
      exact hd
    · rw [hd']
    · rw [hd']
      exact ⟨hn.sound.lineEncoding, hn.sound.endpoints⟩
    · rw [hd']
      exact hn.address
  rw [ServedBy, ← ho] at hserved
  refine .bind (hlift hserved) fun _ => ?_
  refine .act (fun _ hσ => hσ.cpu) _ ?_ (fun _ => stable_resumed) ?_ ?_ fun s _ hs _ =>
    Settled.resumed hn hd' hs
  · rintro e s ha hn ⟨d'', hd'', hs⟩
    exact ⟨d'', hd'', At.stable steady_answered d'' e s ha hn hs⟩
  · rintro s - ⟨d'', hd'', hs⟩
    exact hheard s (ho ▸ steady_answered.within _ hs.wire)
  · rintro - s - ⟨d'', hd'', -, -, hs⟩
    exact rest_heard s hs

/-- What a call of the task that begins on the wire `w` does to the variables. -/
inductive Tasked (ts : List Transfer) (w : Wire) (d : Variables) : Variables → Prop
  | idle {d' : Variables} (hw : w.ep.rxstpi = false) (hv : view d' = view d)
      (hp : d'.rtsPulse = d.rtsPulse) (hb : d'.resets = d.resets) (hn : d'.uenum = d.uenum) :
      Tasked ts w d d'
  | served {d' : Variables} (t : Transfer) (ht : t ∈ ts) (hw : upcoming w = some t)
      (hv : view d' = (serve t (view d)).2) (hp : d'.rtsPulse = pulse t.header d.rtsPulse)
      (hb : d'.resets = d.resets ++ bankResets t.header (view d)) (hn : d'.uenum = d.uenum) :
      Tasked ts w d d'

theorem usbUsbTask_spec (hwf : ∀ t ∈ ts, WellFormed t) (w : Wire) :
    Correct handle Calm (Heard c₀ ts) Responsive (Expecting c₀ ts w d) usbUsbTask
      (fun _ s => Tasked ts w d s.dev ∧ Rest c₀ ts s) := by
  refine .bind (read_rest (c := (· ≠ .unattached)) fun s hs => hs.rest.quiet.attached) fun b =>
    .of_pure fun hb => ?_
  rw [if_pos hb]
  refine .bind (read_rest (c := (· = d.uenum)) fun s hs => congrArg Variables.uenum hs.dev) fun n =>
    .of_pure fun hn => ?_
  subst hn
  refine .bind (selectEndpoint_rest w 0) fun _ => .bind (isSetupReceived_rest rfl) fun b => ?_
  cases b with
  | false =>
    refine .of_pure fun hw => ?_
    refine .bind (R := fun _ => Expecting c₀ ts w { d with uenum := 0 }) ?_ fun _ => ?_
    · exact .ret () (stable_expecting w _) (fun s _ hs => rest_heard s hs.rest) fun _ _ hs => hs
    · refine (selectEndpoint_rest w _).post fun _ s hs => ⟨?_, hs.rest⟩
      rw [hs.dev]
      exact .idle hw rfl rfl rfl rfl
  | true =>
    refine .bind (R := fun _ s => ∃ t, (t ∈ ts ∧ upcoming w = some t) ∧
      ∃ n, Resumed c₀ ts t n { d with uenum := 0 } s) ?_ fun _ => ?_
    · refine .exists fun done => .exists fun rest => .exists fun t => .exists fun h => ?_
      refine .of_pure fun hn => ?_
      have ht : t ∈ ts := by
        rw [hn.1.split]
        simp
      exact (usbDeviceProcessControlRequest_spec hn.1 (hwf t ht) rfl).post fun _ s hs =>
        ⟨t, ⟨ht, hn.2⟩, _, hs⟩
    · refine .exists fun t => .of_pure fun ht => .exists fun n => .exists fun d' => ?_
      refine .of_pure fun hserved => ?_
      refine .pre (P := fun s => ∃ w, Expecting c₀ ts w d' s) (.exists fun w' => ?_) fun s hs =>
        ⟨s.wire, hs.2.1 ▸ Rest.expecting hs.2.2⟩
      refine (selectEndpoint_rest w' d.uenum).post fun _ s hs => ⟨?_, hs.rest⟩
      rw [hs.dev]
      exact .served t ht.1 ht.2 hserved.view hserved.rtsPulse hserved.resets rfl

end Task

section Clients

/-- Code that leaves the control endpoint, the bus and all that the host can
know alone. -/
structure Elsewhere (s t : State) : Prop where
  wire : t.wire = s.wire
  bus : t.bus = s.bus
  processing : t.processing = s.processing
  calm : t.calm = s.calm
  view : view t.dev = view s.dev
  sound : Sound s.dev → Sound t.dev

/-- The one procedure of the library that the firmware calls. -/
inductive Tasks : Procedures State
  | usbUsbTask : Tasks Unit usbUsbTask

variable {c₀ : Cdc} {ts : List Transfer} {α : Type}

theorem Rest.elsewhere {s t : State} (h : Elsewhere s t) (hs : Rest c₀ ts s) : Rest c₀ ts t where
  talk := by
    rw [h.wire, h.view]
    exact hs.talk
  sound := h.sound hs.sound
  processing := h.processing.trans hs.processing
  quiet := h.bus ▸ hs.quiet

theorem client_spec (hwf : ∀ t ∈ ts, WellFormed t) {p : Stack α} (hp : Built Elsewhere Tasks p) :
    Triple handle Calm (Heard c₀ ts) (Rest c₀ ts) p (fun _ => Rest c₀ ts) := by
  refine hp.triple (fun e s ha hn hs => (stable_rest s.dev e s ha hn ⟨rfl, hs⟩).2)
    (fun s _ => rest_heard s) (fun s t h _ => Rest.elsewhere h) ?_
  rintro β f ⟨⟩ s ha hs
  exact ((usbUsbTask_spec hwf s.wire).safe.post fun _ s hs => hs.2) s ha hs.expecting

end Clients

end Adelino.Conversation
