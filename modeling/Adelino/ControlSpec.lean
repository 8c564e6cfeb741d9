import Adelino.Deadline
import Adelino.ControlStack

namespace Adelino.ControlSpec

open Adelino.Program Adelino.Logic Adelino.Progress Adelino.Deadline Adelino.Endpoint
  Adelino.ControlPipe Adelino.ControlStack

/-- Host and bus let the device work: no SETUP packet in the middle of a
request, no transfer given up, no reset, no suspend and no change of VBUS. A
request lasts until the program has returned from it, which is later than the
host can see. -/
def Calm (s : State) : Prop := s.calm = true

structure Responsive (σ : Nat → Move Event) : Prop where
  cpu : Recurs σ .cpu
  token : Recurs σ (.irq .token)

/-- No interrupt is pending that would end the conversation. -/
structure Quiet (b : Bus) : Prop where
  vbusti : b.vbusti = false
  suspi : b.suspi = false
  eorsti : b.eorsti = false
  attached : b.deviceState ≠ .unattached
  awake : b.deviceState ≠ .suspended

/-- Properties of the wire that the host can not take away, and under which
`C` is true of it. -/
structure WireSteady (C φ : Wire → Prop) : Prop where
  token : ∀ a w, φ w → φ (w.token a)
  within : ∀ w, φ w → C w

/-- A request is being processed, the variables hold `d`, and the wire is
described by `φ`. -/
structure At (d : Variables) (φ : Wire → Prop) (s : State) : Prop where
  dev : s.dev = d
  wire : φ s.wire
  processing : s.processing = true
  quiet : Quiet s.bus

theorem At.imp {φ ψ : Wire → Prop} {d : Variables} {s : State} (h : ∀ w, φ w → ψ w)
    (hs : At d φ s) : At d ψ s :=
  { hs with wire := h _ hs.wire }

theorem quiet_usbGen {s : State} (h : Quiet s.bus) :
    (usbGen s).dev = s.dev ∧ (usbGen s).wire = s.wire ∧ (usbGen s).processing = s.processing ∧
      Quiet (usbGen s).bus := by
  obtain ⟨hv, hs, he, ha, hw⟩ := h
  simp only [usbGen, hv, hs, Bool.false_and, Bool.false_eq_true, if_false]
  split
  · simp only [wokenUp, he, Bool.false_eq_true, if_false]
    refine ⟨trivial, trivial, trivial, hv, hs, rfl, ?_, ?_⟩ <;> dsimp only <;> grind
  · simp only [he, Bool.false_eq_true, if_false]
    exact ⟨trivial, trivial, trivial, hv, hs, he, ha, hw⟩

theorem At.stable {C φ : Wire → Prop} (hφ : WireSteady C φ) (d : Variables) :
    Stable handle Calm (At d φ) := by
  intro e s _ hn hs
  cases e with
  | token => exact { hs with wire := hφ.token _ _ hs.wire }
  | submit =>
    simp only [handle] at hn ⊢
    split at hn
    · exact hs
    · -- a SETUP packet now would have been one too many
      simp [Calm, hs.processing] at hn
  | giveUp => cases hn
  | vbus level => cases hn
  | suspend => cases hn
  | wakeUp => exact { hs with quiet := { hs.quiet with suspi := rfl } }
  | busReset => cases hn
  | usbGen =>
    simp only [handle]
    split
    · obtain ⟨hd, hw, hp, hq⟩ := quiet_usbGen hs.quiet
      exact ⟨hd.trans hs.dev, hw ▸ hs.wire, hp.trans hs.processing, hq⟩
    · exact hs

theorem At.waits {C φ : Wire → Prop} {d : Variables} {ρ : Wire → Nat} (hφ : WireSteady C φ)
    (hle : ∀ a w, φ w → ρ (w.token a) ≤ ρ w)
    (hlt : ∀ w, φ w → 0 < ρ w → ρ (w.token d.address) < ρ w) :
    Awaits handle Calm (At d φ) (fun s => ρ s.wire) .token where
  stable := At.stable hφ d
  other e s _ hn hs := by
    cases e with
    | token => exact hle _ _ hs.wire
    | submit =>
      simp only [handle] at hn ⊢
      split at hn
      · exact Nat.le_refl _
      · simp [Calm, hs.processing] at hn
    | giveUp => cases hn
    | vbus level => cases hn
    | suspend => cases hn
    | wakeUp => exact Nat.le_refl _
    | busReset => cases hn
    | usbGen =>
      simp only [handle]
      split
      · rw [(quiet_usbGen hs.quiet).2.1]
      · exact Nat.le_refl _
  helped s _ _ hs hpos := by
    have hlt := hlt _ hs.wire hpos
    rwa [← hs.dev] at hlt

theorem WireSteady.pure {C φ : Wire → Prop} (h : WireSteady C φ) (c : Prop) :
    WireSteady C fun w => c ∧ φ w where
  token a w hw := ⟨hw.1, h.token a w hw.2⟩
  within w hw := h.within w hw.2

theorem WireSteady.exists {C : Wire → Prop} {ι : Type} {φ : ι → Wire → Prop}
    (h : ∀ i, WireSteady C (φ i)) : WireSteady C fun w => ∃ i, φ i w where
  token a w hw := hw.imp fun i hi => (h i).token a w hi
  within w hw := hw.elim fun i hi => (h i).within w hi

/-- What holds of a part of the program that serves a request in peace, with
`C` true of the wire on the way. -/
abbrev Serves {α : Type} (C : Wire → Prop) :
    (State → Prop) → Stack α → (α → State → Prop) → Prop :=
  Correct handle Calm (fun s => C s.wire) Responsive

section Rules

variable {C φ : Wire → Prop} {α : Type} {d : Variables}

theorem act_spec {f : State → α × State} {d' : α → Variables} {ψ : α → Wire → Prop}
    (hφ : WireSteady C φ) (hψ : ∀ a, WireSteady C (ψ a))
    (h : ∀ s, At d φ s → At (d' (f s).1) (ψ (f s).1) (f s).2) :
    Serves C (At d φ) (.act f) (fun a => At (d' a) (ψ a)) :=
  .act (fun _ hσ => hσ.cpu) _ (At.stable hφ d) (fun a => At.stable (hψ a) _)
    (fun _ _ hs => hφ.within _ hs.wire) (fun a _ _ hs => (hψ a).within _ hs.wire)
    (fun s _ hs _ => h s hs)

theorem read_spec {f : State → α} {ψ : α → Wire → Prop} (hφ : WireSteady C φ)
    (hψ : ∀ a, WireSteady C (ψ a)) (h : ∀ s, At d φ s → ψ (f s) s.wire) :
    Serves C (At d φ) (.read f) (fun a => At d (ψ a)) :=
  act_spec hφ hψ fun s hs => { hs with wire := h s hs }

theorem onDev_spec (hφ : WireSteady C φ) (f : Variables → Variables) :
    Serves C (At d φ) (onDev f) (fun _ => At (f d) φ) :=
  act_spec hφ (fun _ => hφ) fun _ hs => { hs with dev := congrArg f hs.dev }

theorem At.control {s : State} (hs : At d φ s) (hd : d.uenum = 0) : s.control = true := by
  rw [State.control, hs.dev, hd]
  rfl

theorem onControl_spec {ψ : Wire → Prop} (hd : d.uenum = 0) (hφ : WireSteady C φ)
    (hψ : WireSteady C ψ) {f : ControlEndpoint → ControlEndpoint}
    (h : ∀ w, φ w → ψ { w with ep := f w.ep }) :
    Serves C (At d φ) (onControl f) (fun _ => At d ψ) := by
  refine act_spec hφ (fun _ => hψ) fun s hs => ?_
  simp only [hs.control hd, if_true]
  exact { hs with wire := h _ hs.wire }

theorem ret_spec {ψ : α → Wire → Prop} (a : α) (hψ : WireSteady C (ψ a)) (h : ∀ w, φ w → ψ a w) :
    Serves C (At d φ) (.ret a) (fun a => At d (ψ a)) :=
  .ret a (At.stable hψ d) (fun _ _ hs => hψ.within _ hs.wire)
    (fun _ _ hs => { hs with wire := h _ hs.wire })

theorem pure_spec {c : Prop} {G : State → Prop} {p : Stack α} {Q : α → State → Prop}
    (h : c → Correct handle Calm G Responsive (At d φ) p Q) :
    Correct handle Calm G Responsive (At d fun w => c ∧ φ w) p Q :=
  (Correct.of_pure h).pre fun _ hs => ⟨hs.wire.1, { hs with wire := hs.wire.2 }⟩

theorem exists_spec {ι : Type} {χ : ι → Wire → Prop} {G : State → Prop} {p : Stack α}
    {Q : α → State → Prop} (h : ∀ i, Correct handle Calm G Responsive (At d (χ i)) p Q) :
    Correct handle Calm G Responsive (At d fun w => ∃ i, χ i w) p Q := by
  refine (Correct.exists h).pre fun s hs => ?_
  obtain ⟨i, hi⟩ := hs.wire
  exact ⟨i, { hs with wire := hi }⟩

theorem deviceState_spec (hφ : WireSteady C φ) :
    Serves C (At d φ) deviceState
      (fun b => At d fun w => (gone b = none ∧ b ≠ .unattached) ∧ φ w) := by
  refine read_spec hφ (fun b => hφ.pure _) fun s hs => ⟨?_, hs.wire⟩
  have ha := hs.quiet.attached
  have hw := hs.quiet.awake
  revert ha hw
  cases s.bus.deviceState <;> simp [gone]

theorem flag_spec {f : ControlEndpoint → Bool} {ψ : Bool → Wire → Prop} (hd : d.uenum = 0)
    (hφ : WireSteady C φ) (hψ : ∀ b, WireSteady C (ψ b)) (h : ∀ w, φ w → ψ (f w.ep) w) :
    Serves C (At d φ) (test fun s => s.control && f s.wire.ep)
      (fun b => At d (ψ b)) := by
  refine read_spec hφ hψ fun s hs => ?_
  rw [hs.control hd, Bool.true_and]
  exact h _ hs.wire

theorem read8_spec {ψ : UInt8 → Wire → Prop} (hd : d.uenum = 0)
    (hφ : WireSteady C φ) (hψ : ∀ b, WireSteady C (ψ b))
    (h : ∀ w, φ w → ψ w.ep.read8.1 { w with ep := w.ep.read8.2 }) :
    Serves C (At d φ) endpointRead8 (fun b => At d (ψ b)) := by
  refine act_spec hφ hψ fun s hs => ?_
  simp only [hs.control hd, if_true]
  exact { hs with wire := h _ hs.wire }

theorem again_spec {X : Type} {D : X → Variables} {I : X → Wire → Prop} {P : State → Prop}
    {Q : α → State → Prop} (x : X) (hI : WireSteady C (I x)) (h : ∀ s, P s → At (D x) (I x) s) :
    Serves C P (.ret (.inl x))
      (fun r : X ⊕ α => Sum.elim (fun x => At (D x) (I x)) Q r) :=
  .ret _ (At.stable hI _) (fun _ _ hs => hI.within _ hs.wire) fun s _ => h s

theorem leave_spec {X : Type} {D : α → Variables} {I : X → State → Prop} {P : State → Prop}
    {ψ : α → Wire → Prop} (a : α) (hψ : WireSteady C (ψ a)) (h : ∀ s, P s → At (D a) (ψ a) s) :
    Serves C P (.ret (.inr a))
      (fun r : X ⊕ α => Sum.elim I (fun a => At (D a) (ψ a)) r) :=
  .ret _ (At.stable hψ _) (fun _ _ hs => hψ.within _ hs.wire) fun s _ => h s

end Rules

section Stages

variable (t : Transfer) (h : Host)

/-- All the host can see of a transfer that ends with the outcome `o`. -/
def Course (o : Outcome) (w : Wire) : Prop :=
  (∃ stage, w.host = h.proceed t stage) ∨ w.host = h.finish t o

/-- A SETUP packet of which `bytes` have not been read yet. -/
def Asked (bytes : List UInt8) (w : Wire) : Prop :=
  w = ⟨{ ControlEndpoint.setup t.header with received := bytes }, h.proceed t t.firstStage⟩

/-- The bank holds `f`, which has not been handed over. -/
def Filling (stage : Stage) (f : List UInt8) (w : Wire) : Prop :=
  w = ⟨{ ControlEndpoint.idle with filling := f }, h.proceed t stage⟩

/-- A data stage is over, and its status stage has been received. -/
structure Finished (got : List UInt8) (w : Wire) : Prop where
  rxstpi : w.ep.rxstpi = false
  rxouti : w.ep.rxouti = true
  received : w.ep.received = []
  host : w.host = h.finish t (.completed got)

/-- Of the answer `D`, the bytes `sent` have been handed over, the last packet
of them a short one or not. A packet after the end of the data stage is never
fetched. -/
inductive Sending (D sent : List UInt8) (short : Bool) : Wire → Prop
  | waiting (got p : List UInt8) (hs : got ++ p = sent)
      (hp : decide (p.length < controlEndpointSize) = short) :
      Sending D sent short
        ⟨{ ControlEndpoint.idle with queued := some p }, h.proceed t (.dataIn got)⟩
  | taken : Sending D sent short ⟨.idle, h.proceed t (t.afterIn short sent)⟩
  | surplus (hs : sent = D) :
      Sending D sent short
        ⟨{ ControlEndpoint.idle with queued := some [] }, h.proceed t (.statusOut sent)⟩
  | finished {w : Wire} (hs : sent = D) (hw : Finished t h D w)
      (hq : short = false → w.ep.queued = none) : Sending D sent short w

variable {t h}

theorem token_proceed (a : UInt8) (ep : ControlEndpoint) (stage : Stage) :
    Wire.token a ⟨ep, h.proceed t stage⟩ = ⟨ep, h.proceed t stage⟩ ∨
      Wire.token a ⟨ep, h.proceed t stage⟩ = Wire.transact ⟨ep, h.proceed t stage⟩ t stage := by
  by_cases ha : h.address = a
  · exact .inr (if_pos ha)
  · exact .inl (if_neg ha)

theorem token_own (ep : ControlEndpoint) (stage : Stage) :
    Wire.token h.address ⟨ep, h.proceed t stage⟩ = Wire.transact ⟨ep, h.proceed t stage⟩ t stage :=
  if_pos rfl

theorem token_of_current {w : Wire} (hw : w.host.current = none) (a : UInt8) : w.token a = w := by
  simp only [Wire.token, hw]

theorem WireSteady.eq {C : Wire → Prop} {w₀ : Wire} (hw : ∀ a, w₀.token a = w₀) (hc : C w₀) :
    WireSteady C (· = w₀) where
  token a w e := by rw [e, hw a]
  within w e := e ▸ hc

theorem steady_asked (o : Outcome) (bytes : List UInt8) :
    WireSteady (Course t h o) (Asked t h bytes) :=
  .eq (fun a => (token_proceed a _ _).elim id (·.trans rfl)) (.inl ⟨_, rfl⟩)

theorem steady_filling (o : Outcome) {stage : Stage}
    (hs : (∃ got, stage = .dataIn got) ∨ stage = .statusIn) (f : List UInt8) :
    WireSteady (Course t h o) (Filling t h stage f) := by
  refine .eq (fun a => (token_proceed a _ _).elim id (·.trans ?_)) (.inl ⟨_, rfl⟩)
  obtain ⟨got, rfl⟩ | rfl := hs <;> rfl

theorem Finished.token {got : List UInt8} {w : Wire} (hw : Finished t h got w) (a : UInt8) :
    w.token a = w :=
  token_of_current (by rw [hw.host]; rfl) a

theorem steady_finished (got : List UInt8) :
    WireSteady (Course t h (.completed got)) (Finished t h got) where
  token a w hw := by rwa [hw.token a]
  within w hw := .inr hw.host

theorem finished_receive (got : List UInt8) {ep : ControlEndpoint} (hs : ep.rxstpi = false) :
    Finished t h got ⟨ep.receive [], h.finish t (.completed got)⟩ :=
  ⟨hs, rfl, rfl, rfl⟩

theorem token_taken (short : Bool) (sent : List UInt8) (a : UInt8) :
    Wire.token a ⟨.idle, h.proceed t (t.afterIn short sent)⟩ =
        ⟨.idle, h.proceed t (t.afterIn short sent)⟩ ∨
      (short = true ∨ t.wLength ≤ sent.length) ∧
        Finished t h sent (Wire.token a ⟨.idle, h.proceed t (t.afterIn short sent)⟩) ∧
        (Wire.token a ⟨.idle, h.proceed t (t.afterIn short sent)⟩).ep.queued = none := by
  obtain he | he := token_proceed (t := t) (h := h) a .idle (t.afterIn short sent)
  · exact .inl he
  · rw [he]
    unfold Transfer.afterIn
    split
    · next hc => exact .inr ⟨hc, finished_receive _ rfl, rfl⟩
    · exact .inl rfl

theorem steady_sending {D sent : List UInt8} {short : Bool}
    (hD : short = true ∨ t.wLength ≤ sent.length → sent = D) :
    WireSteady (Course t h (.completed D)) (Sending t h D sent short) where
  token a w hw := by
    cases hw with
    | waiting got p hs hp =>
      obtain he | he := token_proceed a _ _
      · rw [he]
        exact .waiting got p hs hp
      · rw [he]
        subst hs hp
        exact .taken
    | taken =>
      obtain he | ⟨hc, hf, hq⟩ := token_taken (t := t) (h := h) short sent a
      · rw [he]
        exact .taken
      · obtain rfl := hD hc
        exact .finished rfl hf fun _ => hq
    | surplus hs =>
      obtain he | he := token_proceed a _ _
      · rw [he]
        exact .surplus hs
      · rw [he]
        subst hs
        exact .finished rfl (finished_receive _ rfl) fun _ => rfl
    | finished hs hw hq =>
      rw [hw.token a]
      exact .finished hs hw hq
  within w hw := by
    cases hw with
    | waiting got p hs hp => exact .inl ⟨_, rfl⟩
    | taken => exact .inl ⟨_, rfl⟩
    | surplus hs => exact .inl ⟨_, rfl⟩
    | finished hs hw hq => exact .inr hw.host

end Stages

section Writing

variable {t : Transfer} {h : Host} {d : Variables} {D : List UInt8}

/-- How much of an answer is left to be written. -/
def remaining (x : List UInt8 × Bool) : Nat := 2 * x.1.length + if x.2 then 1 else 0

theorem remaining_lt {rest rest' : List UInt8} {full full' : Bool}
    (hl : rest'.length < rest.length) : remaining (rest', full') < remaining (rest, full) := by
  cases full <;> cases full' <;> simp only [remaining, Bool.false_eq_true, if_true, if_false] <;>
    omega

/-- The part `x` of the answer `D` is still to be sent. -/
def Unsent (t : Transfer) (h : Host) (D : List UInt8) (x : List UInt8 × Bool) (w : Wire) : Prop :=
  ∃ sent, (D = sent ++ x.1 ∧ unsent x = true) ∧ Sending t h D sent false w

theorem sent_all (hw : D.length ≤ t.wLength) {sent rest : List UInt8} (hD : D = sent ++ rest) :
    false = true ∨ t.wLength ≤ sent.length → sent = D := by
  rintro (hf | hl)
  · cases hf
  · have hr : rest.length = 0 := by
      have := congrArg List.length hD
      rw [List.length_append] at this
      omega
    rw [hD, List.length_eq_zero_iff.mp hr, List.append_nil]

theorem steady_all : WireSteady (Course t h (.completed D)) (Sending t h D D true) :=
  steady_sending fun _ => rfl

theorem write8_spec (hd : d.uenum = 0) (o : Outcome) (got f : List UInt8)
    (hf : f.length < controlEndpointSize) (b : UInt8) :
    Serves (Course t h o) (At d (Filling t h (.dataIn got) f))
      (write8 b) (fun _ => At d (Filling t h (.dataIn got) (f ++ [b]))) := by
  refine onControl_spec hd (steady_filling o (.inl ⟨got, rfl⟩) f)
    (steady_filling o (.inl ⟨got, rfl⟩) _) ?_
  rintro w rfl
  simp only [Filling, ControlEndpoint.write8, hf, if_true]

theorem fill_spec (hd : d.uenum = 0) (o : Outcome) (got rest f : List UInt8)
    (hf : f.length ≤ controlEndpointSize) :
    let room := controlEndpointSize - f.length
    Serves (Course t h o) (At d (Filling t h (.dataIn got) f))
      (fill rest f.length) (fun r => At d fun w =>
        r = (rest.drop room, (f ++ rest.take room).length) ∧
          Filling t h (.dataIn got) (f ++ rest.take room) w) := by
  have hsteady := fun f => steady_filling (t := t) (h := h) o (.inl ⟨got, rfl⟩) f
  induction rest generalizing f with
  | nil => exact ret_spec _ ((hsteady _).pure _) fun w hw => by simpa using hw
  | cons b rest ih =>
    rw [fill]
    refine .ite (fun hlt => ?_) (fun hge => ?_)
    · have hlen : (f ++ [b]).length = f.length + 1 := by simp
      have hroom :
          controlEndpointSize - f.length = controlEndpointSize - (f ++ [b]).length + 1 := by
        omega
      have hrest := ih (f ++ [b]) (by omega)
      simp only [List.append_assoc, List.singleton_append] at hrest
      rw [hroom, List.drop_succ_cons, List.take_succ_cons, ← hlen]
      exact .bind (write8_spec hd o got f hlt b) fun _ => hrest
    · have hroom : controlEndpointSize - f.length = 0 := by omega
      refine ret_spec _ ((hsteady _).pure _) fun w hw => ?_
      rw [hroom, List.drop_zero, List.take_zero, List.append_nil]
      exact ⟨rfl, hw⟩

def BankFree (t : Transfer) (h : Host) (D sent : List UInt8) (w : Wire) : Prop :=
  w = ⟨.idle, h.proceed t (t.afterIn false sent)⟩ ∨ sent = D ∧ Finished t h D w

variable (hw : D.length ≤ t.wLength) (hd : d.uenum = 0)

include hw in
theorem steady_unsent (x : List UInt8 × Bool) :
    WireSteady (Course t h (.completed D)) (Unsent t h D x) where
  token a w hx := by
    obtain ⟨sent, hs, hx⟩ := hx
    exact ⟨sent, hs, (steady_sending (sent_all hw hs.1)).token a w hx⟩
  within w hx := by
    obtain ⟨sent, hs, hx⟩ := hx
    exact (steady_sending (sent_all hw hs.1)).within w hx

include hw in
theorem steady_ready {sent rest : List UInt8} (hD : D = sent ++ rest) :
    WireSteady (Course t h (.completed D)) (BankFree t h D sent) where
  token a w hr := by
    obtain rfl | ⟨hs, hf⟩ := hr
    · obtain he | ⟨hc, hf, -⟩ := token_taken (t := t) (h := h) false sent a
      · exact .inl he
      · obtain rfl := sent_all hw hD hc
        exact .inr ⟨rfl, hf⟩
    · exact .inr ⟨hs, by rwa [hf.token a]⟩
  within w hr := by
    obtain rfl | ⟨hs, hf⟩ := hr
    · exact .inl ⟨_, rfl⟩
    · exact .inr hf.host

include hw hd

def WrittenTurn (t : Transfer) (h : Host) (d : Variables) (D : List UInt8) (x : List UInt8 × Bool)
    (r : (List UInt8 × Bool) ⊕ Option StreamStatus) : State → Prop :=
  Sum.elim (fun y => At d fun w => remaining y < remaining x ∧ Unsent t h D y w)
    (fun st => At d fun w => st = none ∧ Sending t h D D true w) r

theorem sendPacket_spec {sent rest : List UInt8} (full : Bool) (hD : D = sent ++ rest) :
    Serves (Course t h (.completed D))
      (At d (Filling t h (.dataIn sent) []))
      (do
        let (rest, n) ← fill rest 0
        clearIn
        return writeAgain (rest, n = controlEndpointSize)) (WrittenTurn t h d D (rest, full)) := by
  obtain ⟨chunk, hchunk⟩ : ∃ chunk, chunk = rest.take controlEndpointSize := ⟨_, rfl⟩
  have hsplit : D = sent ++ chunk ++ rest.drop controlEndpointSize := by
    rw [hD, hchunk, List.append_assoc, List.take_append_drop]
  -- a short packet takes all that is left
  have hshort : chunk.length < controlEndpointSize → rest.drop controlEndpointSize = [] := by
    intro hl
    rw [hchunk, List.length_take] at hl
    exact List.drop_eq_nil_of_le (by omega)
  have hall : decide (chunk.length < controlEndpointSize) = true ∨
      t.wLength ≤ (sent ++ chunk).length → sent ++ chunk = D := by
    rintro (hl | hl)
    · rw [hsplit, hshort (of_decide_eq_true hl), List.append_nil]
    · exact sent_all hw hsplit (.inr hl)
  refine .bind (fill_spec hd _ sent rest [] (Nat.zero_le _)) fun r => pure_spec fun hr => ?_
  subst hr
  simp only [List.nil_append, List.length_nil, Nat.sub_zero, ← hchunk]
  refine .bind (onControl_spec hd (steady_filling _ (.inl ⟨sent, rfl⟩) chunk)
    (steady_sending hall) ?_) fun _ => ?_
  · rintro w rfl
    exact .waiting sent chunk rfl rfl
  · by_cases hl : chunk.length < controlEndpointSize
    · have hnot :
          unsent (rest.drop controlEndpointSize, decide (chunk.length = controlEndpointSize)) =
          false := by
        simp [unsent, hshort hl, Nat.ne_of_lt hl]
      rw [writeAgain, hnot]
      refine leave_spec none (steady_all.pure _) fun s hs => { hs with wire := ⟨rfl, ?_⟩ }
      have hs := hs.wire
      rwa [hall (.inl (decide_eq_true hl)), decide_eq_true hl] at hs
    · have hlen : chunk.length = min controlEndpointSize rest.length := by
        rw [hchunk, List.length_take]
      have hnot :
          unsent (rest.drop controlEndpointSize, decide (chunk.length = controlEndpointSize)) =
          true := by
        simp [unsent, show chunk.length = controlEndpointSize by omega]
      have hless : remaining (rest.drop controlEndpointSize,
          decide (chunk.length = controlEndpointSize)) < remaining (rest, full) := by
        refine remaining_lt ?_
        simp only [List.length_drop, controlEndpointSize] at hl hlen ⊢
        omega
      rw [writeAgain, hnot]
      refine again_spec _ ((steady_unsent hw _).pure _) fun s hs =>
        { hs with wire := ⟨hless, sent ++ chunk, ⟨hsplit, hnot⟩, ?_⟩ }
      have hs := hs.wire
      rwa [decide_eq_false hl] at hs

omit hw hd in
theorem finished_clearIn {w : Wire} (hf : Finished t h D w) :
    Finished t h D { w with ep := w.ep.clearIn } := by
  unfold ControlEndpoint.clearIn
  split
  · exact ⟨hf.rxstpi, hf.rxouti, hf.received, hf.host⟩
  · exact hf

theorem sendEmpty_spec (x : List UInt8 × Bool) :
    Serves (Course t h (.completed D)) (At d (BankFree t h D D))
      (do
        let (rest, n) ← fill [] 0
        clearIn
        return writeAgain (rest, n = controlEndpointSize)) (WrittenTurn t h d D x) := by
  have hready := steady_ready (h := h) hw (List.append_nil D).symm
  -- nothing is written
  change Correct _ _ _ _ _
    (clearIn >>= fun _ => .ret (Sum.inr none : (List UInt8 × Bool) ⊕ Option StreamStatus)) _
  refine .bind (onControl_spec hd hready steady_all ?_) fun _ => ?_
  · rintro w (rfl | ⟨-, hf⟩)
    · unfold Transfer.afterIn
      split
      · exact .surplus rfl
      · exact .waiting D [] (List.append_nil D) rfl
    · exact .finished rfl (finished_clearIn hf) fun h => nomatch h
  · exact leave_spec none (steady_all.pure _) fun s hs => { hs with wire := ⟨rfl, hs.wire⟩ }

theorem writePacket_spec {x : List UInt8 × Bool} {sent : List UInt8} (hD : D = sent ++ x.1) :
    Serves (Course t h (.completed D)) (At d (BankFree t h D sent))
      (writePacket x.1) (WrittenTurn t h d D x) := by
  refine .bind (read_spec (ψ := fun n w => n = 0 ∧ BankFree t h D sent w) (steady_ready hw hD)
    (fun n => (steady_ready hw hD).pure _) ?_) fun n => pure_spec fun hn => ?_
  · intro s hs
    refine ⟨?_, hs.wire⟩
    rw [if_pos (hs.control hd)]
    obtain he | ⟨-, hf⟩ := hs.wire
    · rw [he]
      rfl
    · simp [ControlEndpoint.bytesInEndpoint, hf.rxouti, hf.received]
  subst hn
  obtain ⟨rest, full⟩ := x
  cases rest with
  | nil =>
    rw [List.append_nil] at hD
    subst hD
    exact sendEmpty_spec hw hd _
  | cons b rest =>
    refine (sendPacket_spec hw hd full hD).pre fun s hs => { hs with wire := ?_ }
    have hne : sent ≠ D := by
      intro he
      rw [he] at hD
      simp at hD
    obtain he | ⟨hs, -⟩ := hs.wire
    · have hstage : ¬ (false = true ∨ t.wLength ≤ sent.length) := fun hc => hne (sent_all hw hD hc)
      rwa [Transfer.afterIn, if_neg hstage] at he
    · exact absurd hs hne

omit hw hd in
theorem Unsent.rxstpi {x : List UInt8 × Bool} {w : Wire} (hx : Unsent t h D x w) :
    w.ep.rxstpi = false := by
  obtain ⟨sent, -, hs⟩ := hx
  cases hs with
  | finished _ hf _ => exact hf.rxstpi
  | _ => rfl

theorem outSeen_spec (x : List UInt8 × Bool) :
    Serves (Course t h (.completed D)) (At d (Unsent t h D x))
      isOutReceived
      (fun b => At d fun w => if b then Sending t h D D true w else Unsent t h D x w) := by
  refine flag_spec hd (steady_unsent hw x) (fun b => ?_) fun w hx => ?_
  · cases b
    · exact steady_unsent hw x
    · exact steady_all
  · obtain ⟨sent, hx, hs⟩ := hx
    cases hs with
    | finished hs hf hq =>
      rw [hf.rxouti]
      exact .finished rfl hf fun h => nomatch h
    | waiting got p hs hp => exact ⟨sent, hx, .waiting got p hs hp⟩
    | taken => exact ⟨sent, hx, .taken⟩
    | surplus hs => exact ⟨sent, hx, .surplus hs⟩

theorem inFree_spec (x : List UInt8 × Bool) :
    Serves (Course t h (.completed D)) (At d (Unsent t h D x))
      isInReady
      (fun b => At d fun w =>
        if b then ∃ sent, D = sent ++ x.1 ∧ BankFree t h D sent w else Unsent t h D x w) := by
  refine exists_spec fun sent => pure_spec fun hx => ?_
  refine flag_spec hd (steady_sending (sent_all hw hx.1)) (fun b => ?_) fun w hs => ?_
  · cases b
    · exact steady_unsent hw x
    · refine ⟨?_, ?_⟩
      · rintro a w ⟨sent, hD, hr⟩
        exact ⟨sent, hD, (steady_ready hw hD).token a w hr⟩
      · rintro w ⟨sent, hD, hr⟩
        exact (steady_ready hw hD).within w hr
  · cases hs with
    | finished hs hf hq =>
      split
      · exact ⟨sent, hx.1, .inr ⟨hs, hf⟩⟩
      · exact ⟨sent, hx, .finished hs hf hq⟩
    | waiting got p hs hp => exact ⟨sent, hx, .waiting got p hs hp⟩
    | taken => exact ⟨sent, hx.1, .inl rfl⟩
    | surplus hs => exact ⟨sent, hx, .surplus hs⟩

theorem writeTurn_spec (x : List UInt8 × Bool) :
    Serves (Course t h (.completed D)) (At d (Unsent t h D x))
      (writeTurn x) (fun r => Sum.elim (fun x => At d (Unsent t h D x))
        (fun st => At d fun w => st = none ∧ Sending t h D D true w) r) := by
  have hunsent := steady_unsent (h := h) hw x
  refine .bind (deviceState_spec hunsent) fun b => pure_spec fun hb => ?_
  rw [hb.1]
  refine .bind (flag_spec hd hunsent (fun b => hunsent.pure (b = false)) fun w hx =>
    ⟨hx.rxstpi, hx⟩) fun b => pure_spec fun hb => ?_
  subst hb
  refine .bind (outSeen_spec hw hd x) fun b => ?_
  cases b with
  | true => exact leave_spec none (steady_all.pure _) fun s hs => { hs with wire := ⟨rfl, hs.wire⟩ }
  | false =>
    refine .bind (inFree_spec hw hd x) fun b => ?_
    cases b with
    | false => exact again_spec x hunsent fun s hs => hs
    | true =>
      refine exists_spec fun sent => pure_spec fun hD => ?_
      refine (writePacket_spec hw hd hD).post fun r s hs => ?_
      cases r with
      | inl y => exact { hs with wire := hs.wire.2 }
      | inr st => exact hs

omit hw hd in
/-- The transactions before the bank is free again. -/
def occupied (w : Wire) : Nat := if w.ep.queued.isSome then 1 else 0

omit hd in
theorem waits_unsent (ha : h.address = d.address) (x : List UInt8 × Bool) :
    Awaits handle Calm (At d (Unsent t h D x)) (fun s => occupied s.wire) .token := by
  refine At.waits (steady_unsent hw x) ?_ ?_
  · rintro a w ⟨sent, ⟨hD, -⟩, hs⟩
    cases hs with
    | waiting got p hs hp =>
      exact Nat.le_trans (by unfold occupied; split <;> omega) (Nat.le_refl 1)
    | taken =>
      obtain he | ⟨-, -, hq⟩ := token_taken (t := t) (h := h) false sent a
      · rw [he]
      · simp [occupied, hq]
    | surplus hs => exact Nat.le_trans (by unfold occupied; split <;> omega) (Nat.le_refl 1)
    | finished hs hf hq => rw [hf.token a]
  · rintro w ⟨sent, ⟨hD, -⟩, hs⟩ hpos
    cases hs with
    | waiting got p hs hp =>
      rw [← ha, token_own]
      exact Nat.one_pos
    | taken => cases hpos
    | surplus hs =>
      rw [← ha, token_own]
      exact Nat.one_pos
    | finished hs hf hq => simp [occupied, hq rfl] at hpos

theorem writeLoop_spec (ha : h.address = d.address) (x : List UInt8 × Bool) :
    Serves (Course t h (.completed D)) (At d (Unsent t h D x))
      (.iter writeTurn x) (fun st => At d fun w => st = none ∧ Sending t h D D true w) := by
  refine Correct.poll (ρ := fun s => occupied s.wire) remaining (fun _ hσ => hσ.token)
    (fun _ => rfl) (fun x => (writeTurn_spec hw hd x).safe) (fun σ hσ Δ t₀ x => ?_) x
  have hwait := waits_unsent hw ha x
  refine .bind (hwait.glance hσ.cpu hσ.token _) fun b => ?_
  cases gone b with
  | some status => exact Polled.leave _
  | none =>
    refine .bind (hwait.glance hσ.cpu hσ.token _) fun b => ?_
    refine .ite (fun _ => Polled.leave _) fun _ => ?_
    refine .bind (hwait.glance hσ.cpu hσ.token _) fun b => ?_
    refine .ite (fun _ => Polled.leave _) fun _ => ?_
    refine .bind (Total.safely (hwait.look hσ.cpu hσ.token _ (c := (· = false)) ?_)
      (inFree_spec hw hd x).safe fun _ _ hs => hs.2.1) fun b => ?_
    · intro s hs hb
      rw [hs.control hd, Bool.true_and] at hb
      simp only [occupied]
      rw [if_pos (by simpa [ControlEndpoint.txini] using hb)]
      exact Nat.one_pos
    cases b with
    | false =>
      intro t s hs
      exact Polled.wait (Nat.lt_succ_self _) (hs.1.2 rfl) t s hs.1.1
    | true =>
      intro t s hs
      obtain ⟨sent, hD, hr⟩ := hs.2.wire
      refine ((writePacket_spec hw hd hD).total hσ t s { hs.2 with wire := hr }).mono ?_
      rintro t ⟨q, s⟩ ⟨r, rfl, hq⟩
      refine ⟨r, rfl, ?_⟩
      rintro y rfl
      exact .inl hq.wire.1

end Writing

section Waiting

variable {C φ ψ : Wire → Prop} {d : Variables} {β : Type} {f : ControlEndpoint → Bool}
  {ρ : Wire → Nat} {k : DeviceState → Stack (Unit ⊕ β)}

theorem awaitTurn_spec (hd : d.uenum = 0) (hφ : WireSteady C φ) (hψ : WireSteady C ψ)
    (hf : ∀ w, φ w → f w.ep = true → ψ w)
    (hk : ∀ b, gone b = none → b ≠ .unattached → k b = .ret (.inl ())) (a : β) :
    Serves C (At d φ)
      (do
        if ← test fun s => s.control && f s.wire.ep then
          return .inr a
        else
          deviceState >>= k)
      (fun r => Sum.elim (fun _ => At d φ) (fun r => At d fun w => r = a ∧ ψ w) r) := by
  refine .bind (flag_spec (ψ := fun b w => if b then ψ w else φ w) hd hφ (fun b => ?_) fun w hw =>
    ?_) fun b => ?_
  · cases b
    · exact hφ
    · exact hψ
  · split
    · next hb => exact hf w hw hb
    · exact hw
  cases b with
  | true => exact leave_spec a (hψ.pure _) fun s hs => { hs with wire := ⟨rfl, hs.wire⟩ }
  | false =>
    refine .bind (deviceState_spec hφ) fun b => pure_spec fun hb => ?_
    rw [hk b hb.1 hb.2]
    exact again_spec () hφ fun _ hs => hs

theorem await_spec (hd : d.uenum = 0) (hφ : WireSteady C φ) (hψ : WireSteady C ψ)
    (hwait : Awaits handle Calm (At d φ) (fun s => ρ s.wire) .token)
    (hf : ∀ w, φ w → f w.ep = true → ψ w) (hρ : ∀ w, φ w → f w.ep = false → 0 < ρ w)
    (hr : ∀ b, ∃ r, k b = .ret r)
    (hk : ∀ b, gone b = none → b ≠ .unattached → k b = .ret (.inl ())) (a : β) :
    Serves C (At d φ)
      (.iter (fun _ => do
        if ← test fun s => s.control && f s.wire.ep then
          return .inr a
        else
          deviceState >>= k) ()) (fun r => At d fun w => r = a ∧ ψ w) := by
  refine Correct.poll (ρ := fun s => ρ s.wire) (P := fun _ => At d φ) (fun _ => 0)
    (fun _ hσ => hσ.token) (fun _ => rfl) (fun _ => (awaitTurn_spec hd hφ hψ hf hk a).safe)
    (fun σ hσ Δ t₀ _ => ?_) ()
  refine .bind (hwait.look hσ.cpu hσ.token _ (c := (· = false)) fun s hs hb => ?_) fun b => ?_
  · rw [hs.control hd, Bool.true_and] at hb
    exact hρ _ hs.wire hb
  cases b with
  | true => exact Polled.leave _
  | false =>
    intro t s hs
    refine (Total.bind (hwait.glance hσ.cpu hσ.token _) fun b => ?_) t s hs.1
    obtain ⟨r, hr⟩ := hr b
    rw [hr]
    cases r with
    | inr a => exact Polled.leave a
    | inl x => exact Polled.wait (Nat.lt_succ_self _) (hs.2 rfl)

theorem awaitStatus_spec (hd : d.uenum = 0) (hφ : WireSteady C φ) (hψ : WireSteady C ψ)
    (hwait : Awaits handle Calm (At d φ) (fun s => ρ s.wire) .token)
    (hf : ∀ w, φ w → f w.ep = true → ψ w) (hρ : ∀ w, φ w → f w.ep = false → 0 < ρ w) :
    Serves C (At d φ)
      (awaitStatus (test fun s => s.control && f s.wire.ep))
      (fun r => At d fun w => r = true ∧ ψ w) := by
  refine await_spec hd hφ hψ hwait hf hρ (fun b => ?_) (fun b _ hb => if_neg hb) true
  split
  · exact ⟨_, rfl⟩
  · exact ⟨_, rfl⟩

theorem awaitStream_spec (hd : d.uenum = 0) (hφ : WireSteady C φ) (hψ : WireSteady C ψ)
    (hwait : Awaits handle Calm (At d φ) (fun s => ρ s.wire) .token)
    (hf : ∀ w, φ w → f w.ep = true → ψ w) (hρ : ∀ w, φ w → f w.ep = false → 0 < ρ w) :
    Serves C (At d φ)
      (.iter (fun _ => do
        if ← test fun s => s.control && f s.wire.ep then
          return .inr .noError
        else
          match gone (← deviceState) with
          | some status => return .inr status
          | none => return .inl ()) ()) (fun _ => At d ψ) := by
  refine (await_spec hd hφ hψ hwait hf hρ (fun b => ?_) (fun b hb _ => ?_)
    StreamStatus.noError).post fun r s hs => { hs with wire := hs.wire.2 }
  · cases gone b
    · exact ⟨_, rfl⟩
    · exact ⟨_, rfl⟩
  · rw [hb]
    rfl

end Waiting

section Answering

variable {t : Transfer} {h : Host} {d : Variables} {D : List UInt8} (hd : d.uenum = 0)
include hd

omit hd in
/-- The transactions before the transfer is over for the host. -/
def toGo (w : Wire) : Nat :=
  match w.host.current with
  | some (_, .dataIn _) => 2
  | some (_, .statusOut _) => 1
  | _ => 0

omit hd in
theorem Finished.toGo {got : List UInt8} {w : Wire} (hf : Finished t h got w) : toGo w = 0 := by
  rw [ControlSpec.toGo, hf.host]
  rfl

omit hd in
theorem transact_queued (got p : List UInt8) :
    Wire.transact ⟨{ ControlEndpoint.idle with queued := some p }, h.proceed t (.dataIn got)⟩ t
      (.dataIn got) =
        ⟨.idle, h.proceed t (t.afterIn (p.length < controlEndpointSize) (got ++ p))⟩ :=
  rfl

omit hd in
theorem waits_sending (ha : h.address = d.address) :
    Awaits handle Calm (At d (Sending t h D D true)) (fun s => toGo s.wire) .token := by
  refine At.waits steady_all (fun a w hs => ?_) fun w hs hpos => ?_
  · cases hs with
    | waiting got p hs hp =>
      obtain he | he := token_proceed (t := t) (h := h) a _ (.dataIn got)
      · rw [he]
      · rw [he, transact_queued, hp]
        exact Nat.le_succ 1
    | taken =>
      obtain he | ⟨-, hf, -⟩ := token_taken (t := t) (h := h) true D a
      · rw [he]
      · rw [hf.toGo]
        exact Nat.zero_le _
    | surplus hs =>
      obtain he | he := token_proceed (t := t) (h := h) a _ (.statusOut D)
      · rw [he]
      · rw [he]
        exact Nat.zero_le 1
    | finished hs hf hq => rw [hf.token a]
  · cases hs with
    | waiting got p hs hp =>
      rw [← ha, token_own, transact_queued, hp]
      exact Nat.one_lt_two
    | taken =>
      rw [← ha, Transfer.afterIn, if_pos (.inl rfl), token_own]
      exact Nat.one_pos
    | surplus hs =>
      rw [← ha, token_own]
      exact Nat.one_pos
    | finished hs hf hq =>
      rw [hf.toGo] at hpos
      cases hpos

omit hd in
theorem sending_rxouti {w : Wire} (hs : Sending t h D D true w) (hr : w.ep.rxouti = true) :
    Finished t h D w := by
  cases hs with
  | finished hs hf hq => exact hf
  | _ => cases hr

omit hd in
theorem toGo_sending {w : Wire} (hs : Sending t h D D true w) (hr : w.ep.rxouti = false) :
    0 < toGo w := by
  cases hs with
  | waiting got p hs hp => exact Nat.two_pos
  | taken =>
    rw [Transfer.afterIn, if_pos (.inl rfl)]
    exact Nat.one_pos
  | surplus hs => exact Nat.one_pos
  | finished hs hf hq =>
    rw [hf.rxouti] at hr
    cases hr

/-- The transfer is over for host and program. -/
structure Done (t : Transfer) (h : Host) (o : Outcome) (w : Wire) : Prop where
  rxstpi : w.ep.rxstpi = false
  host : w.host = h.finish t o

omit hd in
theorem steady_done (o : Outcome) : WireSteady (Course t h o) (Done t h o) where
  token a w hw := by rwa [token_of_current (by rw [hw.host]; rfl) a]
  within w hw := .inr hw.host

theorem clearOut_spec :
    Serves (Course t h (.completed D)) (At d (Finished t h D)) clearOut
      (fun _ => At d (Done t h (.completed D))) := by
  refine onControl_spec hd (steady_finished D) (steady_done _) fun w hf => ?_
  simp only [ControlEndpoint.clearOut, hf.rxouti, if_true]
  exact ⟨hf.rxstpi, hf.host⟩

theorem writeControlStream_spec (ha : h.address = d.address) {buffer : List UInt8}
    (hr : d.controlRequest = t.header) (hb : buffer ≠ []) (hl : t.wLength ≠ 0) :
    Serves (Course t h (.completed (buffer.take t.wLength)))
      (At d (Filling t h (.dataIn []) [])) (writeControlStream buffer)
      (fun _ => At d (Finished t h (buffer.take t.wLength))) := by
  have hfill := steady_filling (t := t) (h := h) (.completed (buffer.take t.wLength))
    (.inl ⟨[], rfl⟩) []
  have hlen : (buffer.take t.wLength).length ≤ t.wLength := by
    rw [List.length_take]
    exact Nat.min_le_left _ _
  have hnil : buffer.take t.wLength ≠ [] := by
    rw [Ne, List.take_eq_nil_iff]
    tauto
  have hun : unsent (buffer.take t.wLength, false) = true := by simpa [unsent] using hnil
  have hnone : buffer.isEmpty = false := by simpa using hb
  refine .bind (read_spec (ψ := fun n w => n = t.wLength ∧ Filling t h (.dataIn []) [] w) hfill
    (fun n => hfill.pure _) fun s hs => ⟨?_, hs.wire⟩) fun n => pure_spec fun hn => ?_
  · rw [hs.dev, hr]
    rfl
  subst hn
  rw [hnone, Bool.and_false, writeLoop, if_pos hun]
  refine .bind (ret_spec (ψ := fun _ => Filling t h (.dataIn []) []) () hfill fun _ hw => hw)
    fun _ => ?_
  refine .bind (R := fun st => At d fun w =>
    st = none ∧ Sending t h (buffer.take t.wLength) (buffer.take t.wLength) true w) ?_ fun st => ?_
  · refine (writeLoop_spec hlen hd ha _).pre fun s hs => ?_
    refine { hs with wire := ⟨[], ⟨(List.nil_append _).symm, hun⟩, ?_⟩ }
    have htaken : Sending t h (buffer.take t.wLength) [] false
        ⟨.idle, h.proceed t (t.afterIn false [])⟩ := .taken
    have hstage : t.afterIn false [] = .dataIn [] := by
      simp [Transfer.afterIn, hl]
    rw [hstage] at htaken
    exact hs.wire.symm ▸ htaken
  · refine pure_spec fun hst => ?_
    subst hst
    exact awaitStream_spec hd steady_all (steady_finished _) (waits_sending ha)
      (fun _ => sending_rxouti) fun _ => toGo_sending

theorem clearSetup_spec (o : Outcome) (bytes : List UInt8)
    {stage : Stage} (hf : t.firstStage = stage)
    (hs : (∃ got, stage = .dataIn got) ∨ stage = .statusIn) :
    Serves (Course t h o) (At d (Asked t h bytes)) clearSetup
      (fun _ => At d (Filling t h stage [])) := by
  refine onControl_spec hd (steady_asked o bytes) (steady_filling o hs []) ?_
  rintro w rfl
  rw [← hf]
  rfl

theorem answer_spec (hp : D.length < controlEndpointSize) :
    Serves (Course t h (.completed D))
      (At d (Filling t h (.dataIn []) D)) clearIn (fun _ => At d (Sending t h D D true)) := by
  refine onControl_spec hd (steady_filling _ (.inl ⟨[], rfl⟩) D) steady_all ?_
  rintro w rfl
  exact .waiting [] D rfl (decide_eq_true hp)

theorem clearStatusOut_spec (ha : h.address = d.address)
    (hr : d.controlRequest.deviceToHost = true) :
    Serves (Course t h (.completed D)) (At d (Sending t h D D true))
      clearStatusStage (fun _ => At d (Done t h (.completed D))) := by
  refine .bind (read_spec (ψ := fun b w => b = true ∧ Sending t h D D true w) steady_all
    (fun b => steady_all.pure _) fun s hs => ⟨by rw [hs.dev, hr], hs.wire⟩)
    fun b => pure_spec fun hb => ?_
  rw [if_pos hb]
  refine .bind (awaitStatus_spec hd steady_all (steady_finished D) (waits_sending ha)
    (fun _ => sending_rxouti) fun _ => toGo_sending) fun b => pure_spec fun hb => ?_
  subst hb
  exact clearOut_spec hd

/-- The status stage of a transfer without data for the host. -/
def Closing (t : Transfer) (h : Host) (w : Wire) : Prop :=
  w = ⟨{ ControlEndpoint.idle with queued := some [] }, h.proceed t .statusIn⟩ ∨
    w = ⟨.idle, h.finish t (.completed [])⟩

omit hd in
theorem steady_closing : WireSteady (Course t h (.completed [])) (Closing t h) where
  token a w hw := by
    obtain rfl | rfl := hw
    · obtain he | he := token_proceed (t := t) (h := h) a _ .statusIn
      · exact .inl he
      · exact .inr (he.trans rfl)
    · exact .inr rfl
  within w hw := by
    obtain rfl | rfl := hw
    · exact .inl ⟨_, rfl⟩
    · exact .inr rfl

omit hd in
theorem steady_open : WireSteady (Course t h (.completed [])) (Filling t h .statusIn []) :=
  steady_filling _ (.inr rfl) []

omit hd in
theorem waits_open : Awaits handle Calm (At d (Filling t h .statusIn [])) (fun _ => 0) .token :=
  At.waits (ρ := fun _ => 0) (steady_open (t := t) (h := h)) (fun _ _ _ => Nat.le_refl 0)
    fun _ _ hpos => absurd hpos (Nat.lt_irrefl 0)

omit hd in
theorem open_txini {w : Wire} (hw : Filling t h .statusIn [] w) : w.ep.txini ≠ false := by
  rw [hw]
  exact Bool.noConfusion

theorem close_spec :
    Serves (Course t h (.completed []))
      (At d (Filling t h .statusIn [])) clearIn (fun _ => At d (Closing t h)) := by
  refine onControl_spec hd steady_open steady_closing ?_
  rintro w rfl
  exact .inl rfl

theorem clearStatusIn_spec (hr : d.controlRequest.deviceToHost = false) :
    Serves (Course t h (.completed []))
      (At d (Filling t h .statusIn [])) clearStatusStage (fun _ => At d (Closing t h)) := by
  refine .bind (read_spec (ψ := fun b w => b = false ∧ Filling t h .statusIn [] w) steady_open
    (fun b => steady_open.pure _) fun s hs => ⟨by rw [hs.dev, hr], hs.wire⟩)
    fun b => pure_spec fun hb => ?_
  subst hb
  rw [if_neg Bool.false_ne_true]
  refine .bind (awaitStatus_spec (ρ := fun _ => 0) hd steady_open steady_open waits_open
    (fun _ hw _ => hw) fun _ hw h0 => absurd h0 (open_txini hw)) fun b => pure_spec fun hb => ?_
  subst hb
  exact close_spec hd

end Answering

section Receiving

variable {t : Transfer} {h : Host} {d : Variables}

/-- Of the data of the host, `i` bytes have been read. -/
inductive Taking (t : Transfer) (h : Host) (i : Nat) : Wire → Prop
  | waiting (hi : i < t.data.length) : Taking t h i ⟨.idle, h.proceed t (.dataOut (t.data.drop i))⟩
  | received (r rest : List UInt8) (hr : t.data.drop i = r ++ rest) (hne : r ≠ []) :
      Taking t h i ⟨{ ControlEndpoint.idle with rxouti := true, received := r },
        h.proceed t (Transfer.afterOut rest)⟩

/-- A packet is there that began at `i₀` and of which the rest begins at `i`. -/
def Received (t : Transfer) (h : Host) (i₀ i : Nat) (w : Wire) : Prop :=
  ∃ r rest, (t.data.drop i = r ++ rest ∧ (i = i₀ → r ≠ [])) ∧
    w = ⟨{ ControlEndpoint.idle with rxouti := true, received := r },
      h.proceed t (Transfer.afterOut rest)⟩

def stored (t : Transfer) (i : Nat) (d : Variables) : Variables :=
  { d with lineEncoding := t.data.take i ++ d.lineEncoding.drop i }

theorem store_stored {i : Nat} {b : UInt8} {r : List UInt8} (hr : t.data.drop i = b :: r)
    (hi : i < d.lineEncoding.length) : storeByte i b (stored t i d) = stored t (i + 1) d := by
  have hlt : i < t.data.length := by
    by_contra hge
    rw [List.drop_eq_nil_of_le (by omega)] at hr
    cases hr
  have htake : (t.data.take i).length = i := by
    rw [List.length_take]
    omega
  have hget : t.data.take (i + 1) = t.data.take i ++ [b] := by
    have h0 : t.data[i] = b := by
      have := congrArg List.head? hr
      simpa [List.head?_drop, hlt] using this
    rw [List.take_succ_eq_append_getElem hlt, h0]
  simp only [storeByte, stored]
  congr 1
  rw [hget, List.set_append_right _ _ (by omega), htake, Nat.sub_self, List.append_assoc]
  congr 1
  rw [List.drop_eq_getElem_cons hi]
  rfl

theorem token_received (a : UInt8) (r rest : List UInt8) :
    Wire.token a ⟨{ ControlEndpoint.idle with rxouti := true, received := r },
        h.proceed t (Transfer.afterOut rest)⟩ =
      ⟨{ ControlEndpoint.idle with rxouti := true, received := r },
        h.proceed t (Transfer.afterOut rest)⟩ := by
  obtain he | he := token_proceed (t := t) (h := h) a
    { ControlEndpoint.idle with rxouti := true, received := r } (Transfer.afterOut rest)
  · exact he
  · rw [he]
    unfold Transfer.afterOut
    split <;> rfl

theorem steady_received (o : Outcome) (i₀ i : Nat) :
    WireSteady (Course t h o) (Received t h i₀ i) := by
  refine .exists fun r => .exists fun rest => WireSteady.pure (.eq ?_ (.inl ⟨_, rfl⟩)) _
  exact fun a => token_received a r rest

theorem take_drop_ne_nil {l : List UInt8} {i : Nat} (hi : i < l.length) :
    (l.drop i).take controlEndpointSize ≠ [] := by
  rw [Ne, List.take_eq_nil_iff, List.drop_eq_nil_iff]
  simp only [controlEndpointSize]
  omega

theorem steady_taking (o : Outcome) (i : Nat) : WireSteady (Course t h o) (Taking t h i) where
  token a w hw := by
    cases hw with
    | waiting hi =>
      obtain he | he := token_proceed (t := t) (h := h) a .idle (.dataOut (t.data.drop i))
      · rw [he]
        exact .waiting hi
      · rw [he]
        exact .received _ _ (List.take_append_drop _ _).symm (take_drop_ne_nil hi)
    | received r rest hr hne =>
      rw [token_received]
      exact .received r rest hr hne
  within w hw := by
    cases hw with
    | waiting hi => exact .inl ⟨_, rfl⟩
    | received r rest hr hne => exact .inl ⟨_, rfl⟩

variable (hd : d.uenum = 0) (hl : t.data.length = d.lineEncoding.length)
include hd hl

def Emptied (t : Transfer) (h : Host) (i : Nat) (w : Wire) : Prop :=
  w = ⟨{ ControlEndpoint.idle with rxouti := true },
    h.proceed t (Transfer.afterOut (t.data.drop i))⟩

omit hd hl in
theorem steady_emptied (o : Outcome) (i : Nat) : WireSteady (Course t h o) (Emptied t h i) :=
  .eq (fun a => token_received a [] _) (.inl ⟨_, rfl⟩)

theorem takeByte_spec (o : Outcome) {i₀ i : Nat} (h₀ : i₀ ≤ i) (hi : i < t.data.length) {b : UInt8}
    {r rest : List UInt8} (hr : t.data.drop i = b :: r ++ rest) :
    Serves (Course t h o)
      (At (stored t i d)
        (· = Wire.mk { ControlEndpoint.idle with rxouti := true, received := b :: r }
        (h.proceed t (Transfer.afterOut rest))))
      (do
        let b ← endpointRead8
        onDev (storeByte i b)
        return if i + 1 < t.data.length then .inl (i + 1) else .inr (i + 1))
      (fun x => Sum.elim
        (fun j => At (stored t j d) fun w => (i < j ∧ j < t.data.length) ∧ Received t h i₀ j w)
        (fun j => At (stored t j d) fun w => (i₀ < j ∧ j ≤ t.data.length) ∧ Emptied t h j w)
          x) := by
  have hsteady (r : List UInt8) : WireSteady (Course t h o)
      (· = Wire.mk { ControlEndpoint.idle with rxouti := true, received := r }
        (h.proceed t (Transfer.afterOut rest))) :=
    .eq (fun a => token_received a r rest) (.inl ⟨_, rfl⟩)
  have hdrop : t.data.drop (i + 1) = r ++ rest := by
    rw [← List.tail_drop, hr]
    rfl
  refine .bind (read8_spec hd (hsteady _) (fun c => (hsteady r).pure (c = b)) ?_) fun c =>
    pure_spec fun hc => ?_
  · rintro w rfl
    exact ⟨rfl, rfl⟩
  subst hc
  refine .bind (onDev_spec (hsteady r) _) fun _ => ?_
  rw [store_stored hr (hl ▸ hi)]
  by_cases hlt : i + 1 < t.data.length
  · rw [if_pos hlt]
    exact again_spec _ ((steady_received o i₀ _).pure _) fun s hs =>
      { hs with wire := ⟨⟨Nat.lt_succ_self i, hlt⟩, r, rest, ⟨hdrop, by omega⟩, hs.wire⟩ }
  · rw [if_neg hlt]
    have hnil : r = [] ∧ rest = [] := by
      rw [List.drop_eq_nil_of_le (by omega)] at hdrop
      simpa using hdrop.symm
    refine leave_spec _ ((steady_emptied o _).pure _) fun s hs =>
      { hs with wire := ⟨by omega, ?_⟩ }
    rw [Emptied, hdrop, hnil.1, hnil.2]
    rw [hnil.1, hnil.2] at hs
    exact hs.wire

theorem takeBytes_spec (o : Outcome) (i : Nat) (hi : i < t.data.length) :
    Serves (Course t h o) (At (stored t i d) (Received t h i i))
      (takeBytes t.data.length i)
      (fun j => At (stored t j d) fun w => (i < j ∧ j ≤ t.data.length) ∧ Emptied t h j w) := by
  obtain ⟨i₀, h₀⟩ : ∃ i₀, i₀ = i := ⟨i, rfl⟩
  suffices hloop : Serves (Course t h o)
      (At (stored t i d) fun w => (i₀ ≤ i ∧ i < t.data.length) ∧ Received t h i₀ i w)
      (takeBytes t.data.length i)
      (fun j => At (stored t j d) fun w => (i₀ < j ∧ j ≤ t.data.length) ∧ Emptied t h j w) by
    subst h₀
    exact hloop.pre fun s hs => { hs with wire := ⟨⟨Nat.le_refl _, hi⟩, hs.wire⟩ }
  clear h₀ hi
  refine Correct.loop
    (P := fun i => At (stored t i d) fun w => (i₀ ≤ i ∧ i < t.data.length) ∧ Received t h i₀ i w)
    (fun i => t.data.length - i) (fun _ => rfl) (fun i => ?_) i
  refine pure_spec fun ⟨h₀, hi⟩ => exists_spec fun r => exists_spec fun rest =>
    pure_spec fun ⟨hr, hne⟩ => ?_
  have hsteady := WireSteady.eq (C := Course t h o)
    (fun a => token_received (t := t) (h := h) a r rest) (.inl ⟨_, rfl⟩)
  refine .bind (read_spec hsteady (fun n => hsteady.pure (n = r.length)) ?_) fun n =>
    pure_spec fun hn => ?_
  · intro s hs
    rw [if_pos (hs.control hd), hs.wire]
    exact ⟨rfl, rfl⟩
  subst hn
  cases r with
  | nil =>
    refine leave_spec _ ((steady_emptied o _).pure _) fun s hs =>
      { hs with wire := ⟨⟨?_, Nat.le_of_lt hi⟩, ?_⟩ }
    · exact Nat.lt_of_le_of_ne h₀ fun he => hne he.symm rfl
    · rw [Emptied, hr]
      exact hs.wire
  | cons b r =>
    refine (takeByte_spec hd hl o h₀ hi hr).post fun x s hs => ?_
    cases x with
    | inr j => exact hs
    | inl j =>
      have hj := hs.wire.1
      exact ⟨by omega, { hs with wire := ⟨by omega, hs.wire.2⟩ }⟩

theorem readPacket_spec (o : Outcome) (i : Nat) (hi : i < t.data.length) :
    Serves (Course t h o) (At (stored t i d) (Received t h i i))
      (readPacket t.data.length i)
      (fun r => Sum.elim
        (fun j => At (stored t j d) fun w => (i < j ∧ j < t.data.length) ∧ Taking t h j w)
        (fun st => At (stored t t.data.length d) fun w => st = none ∧ Filling t h .statusIn [] w)
        r) := by
  refine .bind (takeBytes_spec hd hl o i hi) fun j => pure_spec fun ⟨hlt, hle⟩ => ?_
  by_cases hj : j < t.data.length
  · rw [if_pos hj]
    refine .bind (onControl_spec (d := stored t j d) hd (steady_emptied o j) (steady_taking o j) ?_)
      fun _ => ?_
    · rintro w rfl
      have hne : t.data.drop j ≠ [] := by
        rw [Ne, List.drop_eq_nil_iff]
        omega
      rw [Transfer.afterOut, if_neg hne]
      exact .waiting hj
    · exact again_spec _ ((steady_taking o j).pure _) fun s hs =>
        { hs with wire := ⟨⟨hlt, hj⟩, hs.wire⟩ }
  · rw [if_neg hj]
    obtain rfl : j = t.data.length := by omega
    have hsteady := steady_filling (t := t) (h := h) o (.inr rfl) []
    refine .bind (onControl_spec (d := stored t t.data.length d) hd (steady_emptied o _) hsteady ?_)
      fun _ => ?_
    · rintro w rfl
      rw [List.drop_length]
      rfl
    · exact leave_spec none (hsteady.pure _) fun s hs => { hs with wire := ⟨rfl, hs.wire⟩ }

omit hl in
theorem outArrived_spec (o : Outcome) (i : Nat) :
    Serves (Course t h o)
      (At (stored t i d) fun w => i < t.data.length ∧ Taking t h i w) isOutReceived
      (fun b => At (stored t i d) fun w =>
        i < t.data.length ∧ if b then Received t h i i w else Taking t h i w) := by
  refine flag_spec hd ((steady_taking o i).pure _) (fun b => ?_) fun w hw => ⟨hw.1, ?_⟩
  · cases b
    · exact (steady_taking o i).pure _
    · exact (steady_received o i i).pure _
  · cases hw.2 with
    | waiting hi => exact .waiting hi
    | received r rest hr hne => exact ⟨r, rest, ⟨hr, fun _ => hne⟩, rfl⟩

theorem readTurn_spec (o : Outcome) (i : Nat) :
    Serves (Course t h o)
      (At (stored t i d) fun w => i < t.data.length ∧ Taking t h i w) (readTurn t.data.length i)
      (fun r => Sum.elim (fun i => At (stored t i d) fun w => i < t.data.length ∧ Taking t h i w)
        (fun st => At (stored t t.data.length d) fun w => st = none ∧ Filling t h .statusIn [] w)
        r) := by
  have hsteady := (steady_taking (t := t) (h := h) o i).pure (i < t.data.length)
  refine .bind (deviceState_spec hsteady) fun b => pure_spec fun hb => ?_
  rw [hb.1]
  refine .bind (flag_spec hd hsteady (fun b => hsteady.pure (b = false)) fun w hw => ⟨?_, hw⟩)
    fun b => pure_spec fun hb => ?_
  · cases hw.2 <;> rfl
  subst hb
  refine .bind (outArrived_spec hd o i) fun b => pure_spec fun hi => ?_
  cases b with
  | false => exact again_spec _ hsteady fun s hs => { hs with wire := ⟨hi, hs.wire⟩ }
  | true =>
    refine (readPacket_spec hd hl o i hi).post fun r s hs => ?_
    cases r with
    | inl j => exact { hs with wire := ⟨hs.wire.1.2, hs.wire.2⟩ }
    | inr st => exact hs

omit hd hl in
/-- The transactions before a packet is there. -/
def vacant (w : Wire) : Nat := if w.ep.rxouti then 0 else 1

omit hd hl in
theorem waits_taking (ha : h.address = d.address) (i : Nat) :
    Awaits handle Calm (At (stored t i d) fun w => i < t.data.length ∧ Taking t h i w)
      (fun s => vacant s.wire) .token := by
  refine At.waits ((steady_taking .stalled i).pure _) (fun a w hw => ?_) fun w hw hpos => ?_
  · cases hw.2 with
    | waiting hi => exact Nat.le_trans (by unfold vacant; split <;> omega) (Nat.le_refl 1)
    | received r rest hr hne => rw [token_received]
  · cases hw.2 with
    | waiting hi =>
      rw [show (stored t i d).address = h.address from ha.symm, token_own]
      exact Nat.one_pos
    | received r rest hr hne => cases hpos

theorem readLoop_spec (ha : h.address = d.address) (o : Outcome) (i : Nat) :
    Serves (Course t h o)
      (At (stored t i d) fun w => i < t.data.length ∧ Taking t h i w)
      (.iter (readTurn t.data.length) i)
      (fun st => At (stored t t.data.length d) fun w => st = none ∧
        Filling t h .statusIn [] w) := by
  refine Correct.poll (ρ := fun s => vacant s.wire) (fun i => t.data.length - i)
    (fun _ hσ => hσ.token) (fun _ => rfl) (fun i => (readTurn_spec hd hl o i).safe)
    (fun σ hσ Δ t₀ i => ?_) i
  have hwait := waits_taking (t := t) ha i
  refine .bind (hwait.glance hσ.cpu hσ.token _) fun b => ?_
  cases gone b with
  | some status => exact Polled.leave _
  | none =>
    refine .bind (hwait.glance hσ.cpu hσ.token _) fun b => ?_
    refine .ite (fun _ => Polled.leave _) fun _ => ?_
    refine .bind (Total.safely (hwait.look hσ.cpu hσ.token _ (c := (· = false)) ?_)
      (outArrived_spec hd o i).safe fun _ _ hs => hs.2.1) fun b => ?_
    · intro s hs hb
      rw [hs.control hd, Bool.true_and] at hb
      simp [vacant, hb]
    cases b with
    | false =>
      intro t s hs
      exact Polled.wait (Nat.lt_succ_self _) (hs.1.2 rfl) t s hs.1.1
    | true =>
      intro t₁ s hs
      obtain ⟨hi, hr⟩ := hs.2.wire
      refine ((readPacket_spec hd hl o i hi).total hσ t₁ s { hs.2 with wire := hr }).mono ?_
      rintro t₁ ⟨q, s⟩ ⟨r, rfl, hq⟩
      refine ⟨r, rfl, ?_⟩
      rintro j rfl
      have hj := hq.wire.1
      exact .inl (Nat.sub_lt_sub_left hi hj.1)

/-- The whole of `LineEncoding` is replaced. -/
theorem readControlStream_spec (ha : h.address = d.address) (hpos : 0 < t.data.length) :
    Serves (Course t h (.completed []))
      (At d (Taking t h 0)) (readControlStream t.data.length)
      (fun _ => At { d with lineEncoding := t.data } (Filling t h .statusIn [])) := by
  have hstored : stored t t.data.length d = { d with lineEncoding := t.data } := by
    rw [stored, List.take_length, hl, List.drop_length, List.append_nil]
  have hwait := steady_taking (t := t) (h := h) (.completed []) 0
  rw [← hstored, readControlStream, decide_eq_false (Nat.ne_of_gt hpos), if_pos hpos]
  refine .bind (ret_spec (ψ := fun _ => Taking t h 0) () hwait fun _ hw => hw) fun _ => ?_
  refine .bind (R := fun st => At (stored t t.data.length d) fun w =>
    st = none ∧ Filling t h .statusIn [] w) ?_ fun st => pure_spec fun hst => ?_
  · exact (readLoop_spec hd hl ha _ 0).pre fun s hs => { hs with wire := ⟨hpos, hs.wire⟩ }
  · subst hst
    exact awaitStream_spec (ρ := fun _ => 0) hd steady_open steady_open waits_open
      (fun _ hw _ => hw) fun _ hw h0 => absurd h0 (open_txini hw)

end Receiving

end Adelino.ControlSpec
