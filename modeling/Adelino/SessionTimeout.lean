import Adelino.Phases
import Adelino.Sessions

namespace Adelino.SessionTimeout

open Adelino.Program Adelino.Logic Adelino.Calls Adelino.Flash Adelino.Endpoint Adelino.Machine
open Adelino.UsbBytes Adelino.Streams Adelino.Avr109 Adelino.Main Adelino.Frame Adelino.Tasks
open Adelino.Phases

/-- `Timeout` is what is left of the ticks it was set to. -/
def Clocked (t : Timer) : Prop := t.timeout.toNat = t.armed.toNat - t.elapsed

theorem toNat_timeout_timer1CompA (ledsEnabled : UInt8) (t : Timer) :
    (timer1CompA ledsEnabled t).timeout.toNat = t.timeout.toNat - 1 := by
  dsimp only [timer1CompA]
  by_cases h : t.timeout = 0
  · rw [if_neg (not_not.mpr h), h]
    rfl
  · have hpos : t.timeout.toNat ≠ 0 := fun he => h (UInt8.toNat_inj.mp he)
    rw [if_pos h, UInt8.toNat_sub_of_le]
    · rfl
    · rw [UInt8.le_iff_toNat_le]
      exact Nat.one_le_iff_ne_zero.mpr hpos

theorem clocked_timer1CompA (ledsEnabled : UInt8) {t : Timer} (h : Clocked t) :
    Clocked (timer1CompA ledsEnabled t) := by
  rw [Clocked, toNat_timeout_timer1CompA, h]
  exact Nat.sub_sub t.armed.toNat t.elapsed 1

theorem timer_handle (e : Event) (s : State) :
    (handle e s).timer = s.timer ∨ (handle e s).timer = timer1CompA s.core.ledsEnabled s.timer := by
  cases e with
  | tick =>
    rw [handle]
    split
    · exact .inr rfl
    · exact .inl rfl
  | uartRx ch => rw [handle]; split <;> exact .inl rfl
  | deviceState d => rw [handle]; split <;> exact .inl rfl
  | _ => exact .inl rfl

theorem clocked_handle (e : Event) {s : State} (h : Clocked s.timer) :
    Clocked (handle e s).timer := by
  obtain ht | ht := timer_handle e s
  · rw [ht]
    exact h
  · rw [ht]
    exact clocked_timer1CompA _ h

theorem armed_handle (e : Event) (s : State) : (handle e s).timer.armed = s.timer.armed := by
  obtain ht | ht := timer_handle e s <;> rw [ht]
  rfl

theorem elapsed_handle (e : Event) (s : State) : s.timer.elapsed ≤ (handle e s).timer.elapsed := by
  obtain ht | ht := timer_handle e s
  · exact Nat.le_of_eq (congrArg (·.elapsed) ht.symm)
  · rw [ht]
    exact Nat.le_succ _

theorem timeout_handle (e : Event) (s : State) :
    (handle e s).timer.timeout.toNat ≤ s.timer.timeout.toNat := by
  obtain ht | ht := timer_handle e s
  · exact Nat.le_of_eq (congrArg (·.timeout.toNat) ht)
  · rw [ht, toNat_timeout_timer1CompA]
    exact Nat.sub_le _ _

theorem timeout_zero_handle (e : Event) {s : State} (h : s.timer.timeout = 0) :
    (handle e s).timer.timeout = 0 := by
  have hle := timeout_handle e s
  rw [h] at hle
  exact UInt8.toNat_inj.mp (Nat.le_zero.mp hle)

section RanOut

variable {A I : State → Prop} (hI : Stable handle A I)
include hI

theorem stable_ranOut (running : Bool) :
    Stable handle A fun s => I s ∧ (running = false → s.timer.timeout = 0) :=
  fun e s ha hn hs => ⟨hI e s ha hn hs.1, fun hr => timeout_zero_handle e (hs.2 hr)⟩

theorem timeoutRunning_spec :
    Triple handle A (fun _ => True) I timeoutRunning
      fun running s => I s ∧ (running = false → s.timer.timeout = 0) := by
  refine .access _ hI (stable_ranOut hI) ?_
  exact fun s _ hs _ => ⟨hs, fun hr => by simpa using hr⟩

end RanOut

/-- What the session has last set `Timeout` to, by its observations. -/
def assigned : List Obs → UInt8
  | [] => ticksMs 3000
  | .dispatch _ command :: t =>
    if command = ascii 'E' then ticksMs 500
    else if command = ascii 'B' ∨ command = ascii 'g' then ticksMs 3000
    else assigned t
  | _ :: t => assigned t

example : (ticksMs 3000).toNat = 60 ∧ (ticksMs 500).toNat = 10 := by decide

/-- Between two requests of a session that began in `s₀`. -/
structure Armed (s₀ s : State) : Prop where
  clocked : Clocked s.timer
  assigned : ∃ new, s.core.trace = new ++ s₀.core.trace ∧ s.timer.armed = assigned new

variable {s₀ : State}

theorem stable_armed : Stable handle (fun _ => True) (Armed s₀) := by
  intro e s _ _ hs
  refine ⟨clocked_handle e hs.clocked, ?_⟩
  rw [core_handle, armed_handle]
  exact hs.assigned

theorem usbFree_armed : UsbFree (Armed s₀) := fun _ _ _ _ _ hs => ⟨hs.clocked, hs.assigned⟩

theorem Armed.observe {s : State} {c : Core} (h : Armed s₀ s) (o : Obs)
    (ho : ∀ t, SessionTimeout.assigned (o :: t) = SessionTimeout.assigned t)
    (hc : c.trace = o :: s.core.trace) : Armed s₀ { s with core := c } := by
  obtain ⟨new, ht, ha⟩ := h.assigned
  refine ⟨h.clocked, o :: new, ?_, ?_⟩
  · rw [hc, ht]
    rfl
  · rw [ho]
    exact ha

theorem armed_spm {s : State} (h : Armed s₀ s) (op : SpmOp) :
    Armed s₀ { s with core := spm op s.core } :=
  h.observe (.spm op _ _) (fun _ => rfl) rfl

theorem armed_fillData {s : State} (h : Armed s₀ s) (a : UInt32) (low high : UInt8) :
    Armed s₀ { s with core := fillData a low high s.core } :=
  armed_spm (h.observe (.data low high) (fun _ => rfl) rfl) _

theorem armed_quiet {f : Core → Core} (hf : QuietWrite f) {s : State} (h : Armed s₀ s) :
    Armed s₀ { s with core := f s.core } := by
  cases hf with
  | block command size memoryType => exact h.observe _ (fun _ => rfl) rfl
  | exit => exact h.observe .exitRequest (fun _ => rfl) rfl
  | rwwEnable => exact armed_spm h .rwwEnable
  | seekHigh hi => exact h.observe (.addressHigh hi) (fun _ => rfl) rfl
  | seekLow lo => exact h.observe (.addressLow lo) (fun _ => rfl) rfl
  | _ => exact ⟨h.clocked, h.assigned⟩

/-- A command byte has been read, and its effect on `Timeout` is due. -/
def Dispatching (s₀ : State) (command : UInt8) (s : State) : Prop :=
  Clocked s.timer ∧ ∃ pos new, s.core.trace = .dispatch pos command :: new ++ s₀.core.trace

theorem stable_dispatching {command : UInt8} :
    Stable handle (fun _ => True) (Dispatching s₀ command) := by
  intro e s _ _ hs
  refine ⟨clocked_handle e hs.1, ?_⟩
  rw [core_handle]
  exact hs.2

abbrev Spec {α : Type} (P : State → Prop) (p : Fw α) (Q : α → State → Prop) : Prop :=
  Triple handle (fun _ => True) (fun _ => True) P p Q

theorem Spec.of_keeps {I : State → Prop} (hs : Stable handle (fun _ => True) I) {α : Type}
    {p : Fw α} (h : Keeps I p) : Spec I p fun _ => I :=
  (Triple.of_keeps hs p h).guarantee fun _ _ => trivial

theorem noteDispatch_spec (command : UInt8) :
    Spec (Armed s₀) (noteDispatch command) fun _ => Dispatching s₀ command := by
  refine .access _ stable_armed (fun _ => stable_dispatching) ?_
  intro s _ hs _
  obtain ⟨new, ht, -⟩ := hs.assigned
  exact ⟨hs.clocked, _, new, congrArg _ ht⟩

theorem setTimeout_spec {command n : UInt8}
    (hn : ∀ pos t, assigned (.dispatch pos command :: t) = n) :
    Spec (Dispatching s₀ command) (setTimeout n) fun _ => Armed s₀ := by
  refine .access _ stable_dispatching (fun _ => stable_armed) ?_
  intro s _ hs _
  obtain ⟨-, pos, new, ht⟩ := hs
  exact ⟨rfl, _, ht, (hn pos new).symm⟩

theorem keeps_armed_block (command : UInt8) :
    Keeps (Armed s₀) (do
      onCore normalBoot
      readWriteMemoryBlock command) := by
  refine Built.keeps (built_bind (built_modify fun s hs => armed_quiet .exit hs) fun _ => ?_)
  exact built_readWriteMemoryBlock usbFree_armed.steps (fun f hf s hs => armed_quiet hf hs)
    (fun op s hs => armed_spm hs op) (fun a low high s hs => armed_fillData hs a low high) command

theorem keeps_armed_other {command : UInt8} (he : command ≠ ascii 'E')
    (hb : ¬ (command = ascii 'B' ∨ command = ascii 'g')) :
    Keeps (Armed s₀) (dispatched command) := by
  refine Built.keeps (built_bind (built_modify fun s hs => ?_) fun _ => ?_)
  · refine hs.observe (.dispatch (s.usb.got.length - 1) command) (fun t => ?_) rfl
    rw [assigned, if_neg he, if_neg hb]
  · refine built_bind ?_ fun _ => built_usbFlush usbFree_armed.steps
    exact built_avr109Command usbFree_armed.steps (fun f hf s hs => armed_quiet hf.quiet hs)
      (fun h => absurd h he) fun h => absurd h hb

theorem avr109Command_armed {command : UInt8}
    (h : command = ascii 'E' ∨ command = ascii 'B' ∨ command = ascii 'g') :
    Spec (Dispatching s₀ command) (avr109Command command) fun _ => Armed s₀ := by
  by_cases he : command = ascii 'E'
  · subst he
    refine Triple.bind (p := setTimeout (ticksMs 500)) (setTimeout_spec fun _ _ => rfl) fun _ => ?_
    refine Spec.of_keeps stable_armed (Built.keeps (built_bind ?_ fun _ => ?_))
    · exact built_modify fun s hs => armed_spm hs .rwwEnable
    · exact built_usbWriteByte usbFree_armed.steps _
  · have hb := h.resolve_left he
    rw [avr109Command_block hb]
    refine Triple.bind (setTimeout_spec fun _ _ => ?_) fun _ => ?_
    · rw [assigned, if_neg he, if_pos hb]
      rfl
    · exact Spec.of_keeps stable_armed (keeps_armed_block command)

theorem request_armed (command : UInt8) :
    Spec (Armed s₀) (dispatched command) fun _ => Armed s₀ := by
  by_cases h : command = ascii 'E' ∨ command = ascii 'B' ∨ command = ascii 'g'
  · apply Triple.bind (noteDispatch_spec command)
    intro _
    apply Triple.bind (avr109Command_armed h)
    intro _
    exact Spec.of_keeps stable_armed (keeps_usbFlush usbFree_armed)
  · rw [not_or] at h
    exact Spec.of_keeps stable_armed (keeps_armed_other h.1 h.2)

theorem turn_spec {I : State → Prop} (hs : Stable handle (fun _ => True) I) (hfree : UsbFree I)
    (hrequest : ∀ command, Spec I (dispatched command) fun _ => I) :
    Spec I avr109Turn fun _ => I := by
  apply Triple.bind (Spec.of_keeps hs (keeps_usbByteAvailable hfree))
  intro _
  refine Triple.ite (fun _ => ?_) fun _ => Spec.of_keeps hs (keeps_pure _ _)
  exact Triple.bind (Spec.of_keeps hs (keeps_usbReadByte hfree)) hrequest

theorem avr109Programmer_armed : Spec (fun s => s.core.trace = s₀.core.trace) avr109Programmer
    fun _ s => Armed s₀ s ∧ s.timer.timeout = 0 := by
  apply Triple.bind (R := fun _ => Armed s₀)
  · refine .access _ (stable_core fun c => c.trace = s₀.core.trace) (fun _ => stable_armed) ?_
    exact fun s _ hs _ => ⟨rfl, [], hs, rfl⟩
  intro _
  refine Triple.post (Q := fun _ s => Armed s₀ s ∧ (false = false → s.timer.timeout = 0)) ?_
    fun _ _ hs => ⟨hs.1, hs.2 rfl⟩
  refine Triple.whileDo stable_armed (stable_ranOut stable_armed false) (fun _ _ _ => trivial)
    (fun _ _ _ => trivial) (timeoutRunning_spec stable_armed) ?_
  exact (turn_spec stable_armed usbFree_armed request_armed).pre fun _ hs => hs.1

def Enabled (s : State) : Prop := s.core.timsk1 = true

theorem stable_enabled : Stable handle (fun _ => True) Enabled :=
  stable_core fun c => c.timsk1 = true

theorem usbFree_enabled : UsbFree Enabled := usbFree_core fun c => c.timsk1 = true

theorem masking_enabled : Masking (fun c => c.timsk1 = true) fun _ => True where
  dispatch _ _ _ h := h
  seek f hf c h := by cases hf <;> exact h
  enable _ h := h
  exit _ h := h
  block _ _ _ _ h := h
  mask _ _ := trivial
  spm _ _ _ := trivial
  fill _ _ _ _ _ := trivial
  advance _ _ := trivial
  unmask _ _ := rfl

theorem avr109Loop_turn_enabled : Spec Enabled avr109Turn fun _ => Enabled :=
  turn_spec stable_enabled usbFree_enabled
    (masking_enabled.dispatched (fun _ _ => trivial) fun _ _ => trivial)

theorem timeoutRunning_enabled : Spec Enabled timeoutRunning fun _ => Enabled :=
  Spec.of_keeps stable_enabled (keeps_read _ _)

theorem avr109Programmer_enabled : Spec Enabled avr109Programmer fun _ => Enabled :=
  masking_enabled.avr109Programmer (fun _ _ => trivial) fun _ _ => trivial

/-- Whenever the loop of a session tests `Timeout`, the timer runs. -/
theorem enabled_at_test {s t : State} (hs : Enabled s)
    (h : Runs handle (fun _ => True) (avr109Programmer, s) (avr109Loop, t)) : Enabled t := by
  obtain ⟨q, hq, -, he⟩ | ⟨_, u, hset, hloop⟩ := h.of_bind
  · dsimp only at he
    rw [Prog.andThen_eq_bind q _ hq] at he
    cases he
  · have hu : Enabled u :=
      (Spec.of_keeps stable_enabled (p := setTimeout avrProgrammerTimeout) (fun _ hs => hs) s
        trivial hs _ hset).2 () rfl
    exact Triple.whileDo_head (G := fun _ => True) (R := fun _ => Enabled) stable_enabled
      stable_enabled
      (fun _ _ _ => trivial) (fun _ _ _ => trivial) timeoutRunning_enabled avr109Loop_turn_enabled
      trivial hu hloop

/-- A session is under way that was begun with the timer running. -/
def InSession {α : Type} (p : Fw α) (t : State) : Prop :=
  ∃ s q, Enabled s ∧ Runs handle (fun _ => True) (avr109Programmer, s) (q, t) ∧ Active q p

theorem InSession.andThen {α β : Type} {p : Fw β} {t : State} (h : InSession p t)
    (hp : p.isRet = false) (k : β → Fw α) : InSession (p.andThen k) t := by
  obtain ⟨s, q, hs, hr, ha⟩ := h
  rw [Prog.andThen_eq_bind p k hp]
  exact ⟨s, q, hs, hr, .bind k ha⟩

theorem bootSteps_enabled : BootSteps fun s t => Enabled s → Enabled t where
  refl _ hs := hs
  usb _ _ _ _ _ hs := hs
  leds _ _ _ _ hs := hs
  ledControl _ _ hs := hs
  udr _ _ hs := hs
  timeout _ _ hs := hs
  ledsEnabled _ _ hs := hs
  observe _ _ _ hs := hs
  rtsPulse _ hs := hs
  pins _ _ hs := hs
  ring _ _ hs := hs
  rstat _ hs := hs
  checkReset _ _ _ hs := hs
  bootMode _ _ hs := hs

theorem enabled_or_inSession {α : Type} {p : Fw α}
    (hb : Built (fun s t => Enabled s → Enabled t) Avr109Sessions p) {s : State} (hs : Enabled s)
    {d : Fw α × State} (h : Runs handle (fun _ => True) (p, s) d) :
    (Enabled d.2 ∨ InSession d.1 d.2) ∧ ∀ a, d.1 = .ret a → Enabled d.2 := by
  have hdoing := hb.doing (W := fun _ _ _ => True) stable_enabled (fun _ _ hst _ => hst)
    (fun β f t a u hf _ ht _ hr => by
      cases hf
      exact (avr109Programmer_enabled t trivial ht _ hr).2 a rfl)
    trivial hs (fun _ _ _ _ _ _ _ => trivial) h
  constructor
  · obtain hd | ⟨β, f, q, t, hc⟩ := hdoing.elim
    · exact .inl hd
    · obtain ⟨hf, -, ht, -, hr, ha⟩ := hc
      cases hf
      exact .inr ⟨t, q, ht, hr, ha⟩
  · intro a he
    rw [he] at hdoing
    exact hdoing.ret

def Off (s : State) : Prop := s.core.sreg = false

theorem keeps_off {α : Type} {p : Fw α} (h : Keeps Off p) :
    Triple handle (fun _ => True) (fun s => Enabled s ∨ Off s) Off p fun _ => Off :=
  (Triple.of_keeps (stable_core fun c => c.sreg = false) p h).guarantee fun _ => .inr

theorem setupHardware_enabled :
    Triple handle (fun _ => True) (fun s => Enabled s ∨ Off s) Off setupHardware
      fun _ => Enabled := by
  iterate 5
    refine Triple.bind (keeps_off fun _ hs => hs) fun _ => ?_
  refine Triple.bind (R := fun _ => Enabled) ?_ fun _ => ?_
  · exact .act _ (stable_core fun c => c.sreg = false) (fun _ => stable_enabled)
      (fun _ _ => .inr) (fun _ _ _ => .inl) fun _ _ _ _ => rfl
  · have hkeep : Keeps Enabled (onCore fun c => { c with sreg := true }) := fun _ hs => hs
    exact (Triple.of_keeps stable_enabled _ hkeep).guarantee fun _ => .inl

theorem bootloader_inSession (available : Bool) {s : State} (hs : Off s) {d : Fw Unit × State}
    (h : Runs handle (fun _ => True) (bootloader available, s) d) :
    (Enabled d.2 ∨ Off d.2) ∨ InSession d.1 d.2 := by
  have havr : Built (fun s t => Enabled s → Enabled t) Avr109Sessions avr109Programmer :=
    .call .avr109Programmer
  have hclassify :
      Built (fun s t => Enabled s → Enabled t) Avr109Sessions (classifyBoot available) :=
    bootSteps_enabled.built_classifyBoot havr available
  have hloop : Built (fun s t => Enabled s → Enabled t) Avr109Sessions
      (.whileDo keepRunning runTasks) :=
    built_mainLoop bootSteps_enabled.refl (bootSteps_enabled.built_runTasks havr)
  obtain ⟨q, -, hsetup, -⟩ | ⟨_, t, hsetup, h⟩ := h.of_bind
  · exact .inl (setupHardware_enabled s trivial hs _ hsetup).1
  have ht : Enabled t := (setupHardware_enabled s trivial hs _ hsetup).2 () rfl
  obtain ⟨q, hq, hrun, he⟩ | ⟨_, u, hrun, h⟩ := h.of_bind
  · rw [he]
    exact (enabled_or_inSession hclassify ht hrun).1.imp .inl fun hd => hd.andThen hq _
  have hu : Enabled u := (enabled_or_inSession hclassify ht hrun).2 () rfl
  obtain ⟨q, hq, hrun, he⟩ | ⟨_, v, hrun, h⟩ := h.of_bind
  · rw [he]
    exact (enabled_or_inSession hloop hu hrun).1.imp .inl fun hd => hd.andThen hq _
  have hv : Enabled v := (enabled_or_inSession hloop hu hrun).2 () rfl
  have hstart : Triple handle (fun _ => True) (fun s => Enabled s ∨ Off s) Enabled startSketch
      fun _ => Off :=
    .act _ stable_enabled (fun _ => stable_core fun c => c.sreg = false) (fun _ _ => .inl)
      (fun _ _ _ => .inr) fun _ _ _ _ => rfl
  exact .inl (hstart v trivial hv _ h).1

theorem main_inSession (r : Reset) {s : State} (hs : Off s) {d : Fw Unit × State}
    (h : Runs handle (fun _ => True) (main r, s) d) :
    (Enabled d.2 ∨ Off d.2) ∨ InSession d.1 d.2 := by
  obtain ⟨q, -, hread, -⟩ | ⟨available, t, hread, h⟩ := h.of_bind
  · exact .inl (keeps_off (keeps_read _ _) s trivial hs _ hread).1
  have ht : Off t := (keeps_off (keeps_read _ _) s trivial hs _ hread).2 available rfl
  have hstart : Keeps Off startSketch := fun _ _ => rfl
  have hjump {e : Fw Unit × State} (he : Runs handle (fun _ => True) (startSketch, t) e) :
      (Enabled e.2 ∨ Off e.2) ∨ InSession e.1 e.2 :=
    .inl (keeps_off hstart t trivial ht _ he).1
  split at h
  · exact bootloader_inSession available ht h
  · split at h
    · exact hjump h
    · split at h
      · exact hjump h
      · exact bootloader_inSession available ht h

theorem keeps_clocked : Keeps (fun s => Clocked s.timer) avr109Programmer :=
  keeps_avr109Programmer (fun _ _ _ _ _ hs => hs) (fun _ _ _ hs => hs) fun _ _ _ _ => rfl

/-- However the ticks fall: a session returns only when as many of them as it
last set `Timeout` to have been handled since; `Timeout` counts them down and
no interrupt takes it below zero; the timer runs whenever the loop tests it;
and the firmware begins sessions only while the timer runs. -/
theorem session_times_out :
    (∀ s a t, Runs handle (fun _ => True) (avr109Programmer, s) (.ret a, t) →
      ∃ new, t.core.trace = new ++ s.core.trace ∧ t.timer.armed = assigned new ∧
        (assigned new).toNat ≤ t.timer.elapsed) ∧
    (∀ s d, Runs handle (fun _ => True) (avr109Programmer, s) d →
      (Clocked s.timer → Clocked d.2.timer) ∧
        ∀ e, (handle e d.2).timer.timeout.toNat ≤ d.2.timer.timeout.toNat) ∧
    (∀ s t, s.core.timsk1 = true →
      Runs handle (fun _ => True) (avr109Programmer, s) (avr109Loop, t) → t.core.timsk1 = true) ∧
    ∀ r m packets button d, Runs handle (fun _ => True) (main r, State.reset m packets button) d →
      (d.2.core.timsk1 = true ∨ d.2.core.sreg = false) ∨ InSession d.1 d.2 := by
  refine ⟨fun s a t h => ?_, fun s d h => ⟨fun hs => ?_, fun e => timeout_handle e d.2⟩,
    fun s t hs h => ?_, fun r m packets button d h => ?_⟩
  · obtain ⟨harmed, hzero⟩ : Armed s t ∧ t.timer.timeout = 0 :=
      (avr109Programmer_armed s trivial rfl _ h).2 a rfl
    obtain ⟨new, ht, ha⟩ := harmed.assigned
    have hc := harmed.clocked
    rw [Clocked, hzero, ha] at hc
    exact ⟨new, ht, ha, Nat.sub_eq_zero_iff_le.mp hc.symm⟩
  · have hstable : Stable handle (fun _ => True) fun s => Clocked s.timer :=
      fun e _ _ _ hs => clocked_handle e hs
    exact (Triple.of_keeps hstable _ keeps_clocked s trivial hs _ h).1
  · exact enabled_at_test hs h
  · have hoff : Off (State.reset m packets button) := rfl
    exact main_inSession r hoff h

def idleSession (ticks : Nat) : Fw Unit × State :=
  exec handle (avr109Programmer, Sessions.ready (fun _ => 0xFF) [])
    (List.flatten [[.cpu], .replicate ticks (.irq .tick), [.cpu]])

example : (idleSession 59).1.isRet = false ∧ (idleSession 60).1.isRet = true := by decide +kernel

end Adelino.SessionTimeout
