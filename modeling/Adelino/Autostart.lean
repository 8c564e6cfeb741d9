import Adelino.Patience
import Adelino.RingQueue

namespace Adelino.Autostart

open Adelino.Program Adelino.Logic Adelino.Calls Adelino.Progress Adelino.Deadline Adelino.Countdown
open Adelino.Flash Adelino.Endpoint Adelino.Uart Adelino.Machine Adelino.UsbBytes Adelino.Streams
open Adelino.Avr109 Adelino.Esp8266 Adelino.Main Adelino.Frame Adelino.Tasks Adelino.Patience
open Adelino.RingQueue Adelino.Circular

variable {A : State → Prop} {π : Plan} {N K : Nat} {α : Type}

section Uart

def txBusy (s : State) : Nat := if s.udre1 then 0 else 1

theorem udre1_handle (e : Event) {s : State} (h : s.udre1 = true) : (handle e s).udre1 = true := by
  cases e with
  | tick | uartRx | deviceState => rw [handle]; split <;> exact h
  | uartTxEmpty => rfl
  | _ => exact h

theorem spends_uart : Spends handle A (Running π K) (fun _ => 0) txBusy .uartTxEmpty where
  stable := stable_running
  other e s _ _ _ := by
    cases h : s.udre1 with
    | true => simp [txBusy, udre1_handle e h]
    | false =>
      simp only [txBusy, h]
      split <;> simp
  helped s _ _ _ hpos := by simpa [txBusy, handle] using hpos
  budget _ _ _ _ _ := Nat.le_refl _

theorem does_onCore {f : Core → Core} (h : ∀ c, (f c).sreg = c.sreg ∧ (f c).timsk1 = c.timsk1 ∧
    (f c).bootMode = c.bootMode ∧ (f c).mem.flash = c.mem.flash) : Does A π K (onCore f) :=
  does_modify fun s => .of_eq (h s.core) (List.suffix_refl _)

theorem does_putch (ch : UInt8) : Does A π K (putch ch) := by
  refine does_bind ?_ fun _ => does_modify fun s =>
    .of_eq ⟨rfl, rfl, rfl, rfl⟩ (List.suffix_refl _)
  refine does_of_built (built_whileDo (built_read .refl _) (built_pure _)) ?_
  refine Live.countdown (κ := fun _ => 0) (ρ := txBusy) rfl (fun _ h => h.uartTxEmpty)
    (fun σ hσ k Δ t₀ => ?_) fun σ hσ k Δ t₀ => .ret () fun _ _ hs => hs
  refine spends_uart.look hσ.cpu _ fun s _ hb => ?_
  have hbusy : s.udre1 = false := by simpa using hb
  simp [txBusy, hbusy]

/-- What the ring can still deliver. Each byte that may yet arrive counts for a
whole ring. -/
def left (N : Nat) (r : Ring) : Nat :=
  256 * (N - r.accepted.length) + (r.bufferIn - r.bufferOut).toNat

theorem left_usart1Rx (r : Ring) (ch : UInt8) (h : (r.usart1Rx ch).accepted.length ≤ N) :
    left N (r.usart1Rx ch) ≤ left N r := by
  by_cases hroom : r.bufferIn + 1 ≠ r.bufferOut
  · simp only [Ring.usart1Rx, if_pos hroom, left, List.length_append, List.length_singleton] at h ⊢
    have hnext : (r.bufferIn + 1 - r.bufferOut).toNat < 256 := UInt8.toNat_lt _
    omega
  · simp only [Ring.usart1Rx, if_neg hroom]
    exact Nat.le_refl _

theorem left_advance (r : Ring) (ch : UInt8) (h : r.bufferIn ≠ r.bufferOut) :
    left N (r.advance ch) < left N r :=
  Nat.add_lt_add_left (toNat_sub_succ_lt h) _

theorem left_handle (e : Event) (s : State) (h : (handle e s).ring.accepted.length ≤ N) :
    left N (handle e s).ring ≤ left N s.ring := by
  obtain hr | ⟨ch, hr⟩ := ring_handle e s
  · rw [hr]
  · rw [hr] at h ⊢
    exact left_usart1Rx s.ring ch h

theorem nonempty_handle (e : Event) {s : State} (h : s.ring.bufferIn ≠ s.ring.bufferOut) :
    (handle e s).ring.bufferIn ≠ (handle e s).ring.bufferOut := by
  obtain hr | ⟨ch, hr⟩ := ring_handle e s
  · rw [hr]; exact h
  · by_cases hroom : s.ring.bufferIn + 1 ≠ s.ring.bufferOut
    · simpa only [hr, Ring.usart1Rx, if_pos hroom] using hroom
    · simpa only [hr, Ring.usart1Rx, if_neg hroom] using h

section Drain

-- the ESP8266 sends at most `N` bytes
variable (hN : ∀ s, A s → s.ring.accepted.length ≤ N) {L : Nat}
include hN

theorem stable_left_le : Stable handle A fun s => left N s.ring ≤ L ∧ Running π K s :=
  fun e s ha hn hs => ⟨Nat.le_trans (left_handle e s (hN _ hn)) hs.1, stable_running e s ha hn hs.2⟩

theorem stable_left_lt : Stable handle A fun s => left N s.ring < L :=
  fun e s _ hn hs => Nat.lt_of_le_of_lt (left_handle e s (hN _ hn)) hs

theorem stable_drained : Stable handle A fun s => left N s.ring < L ∧ Running π K s :=
  fun e s ha hn hs => ⟨stable_left_lt hN e s ha hn hs.1, stable_running e s ha hn hs.2⟩

omit hN in
/-- There is something in the ring if a look has shown it. -/
def Filled (N : Nat) (π : Plan) (K L : Nat) (more : Bool) (s : State) : Prop :=
  (more = true → s.ring.bufferIn ≠ s.ring.bufferOut) ∧ left N s.ring ≤ L ∧ Running π K s

theorem stable_filled (more : Bool) : Stable handle A (Filled N π K L more) :=
  fun e s ha hn hs => ⟨fun h => nonempty_handle e (hs.1 h), stable_left_le hN e s ha hn hs.2⟩

theorem ringTake_drains : Correct handle A (fun _ => True) Ticking (Filled N π K L true)
    ringTake fun _ s => left N s.ring < L ∧ Running π K s := by
  have hfilled := stable_filled (π := π) (K := K) (L := L) hN true
  refine .bind (correct_access _ hfilled (fun _ => hfilled) fun s _ hs _ => hs) fun ch => ?_
  refine .bind (correct_access _ hfilled (fun _ => stable_drained hN) fun s _ hs _ => ?_)
    fun _ => .ret ch (stable_drained hN) (fun _ _ _ => trivial) fun _ _ hs => hs
  have hnext : Onward s { s with ring := s.ring.advance ch } :=
    .of_eq ⟨rfl, rfl, rfl, rfl⟩ (List.suffix_refl _)
  exact ⟨Nat.lt_of_lt_of_le (left_advance s.ring ch (hs.1 rfl)) hs.2.1, hnext.running hs.2.2⟩

theorem drainTurn_drains : Correct handle A (fun _ => True) Ticking (Filled N π K L true)
    (do
      let ch ← ringTake
      usbWriteByte ch) fun _ s => left N s.ring < L ∧ Running π K s := by
  have hfree : UsbFree fun s => left N s.ring < L := fun _ _ _ _ _ hs => hs
  exact (ringTake_drains hN).bind fun ch =>
    (does_usbWriteByte ch).frame (stable_left_lt hN) (keeps_usbWriteByte hfree ch)

theorem does_drainRing : Does A π K drainRing := by
  refine .descend (P := fun _ => Running π K) (fun _ s => left N s.ring) (fun _ => rfl)
    (fun _ L => ?_) ()
  refine .bind (R := Filled N π K L) (correct_access _ (stable_left_le hN) (stable_filled hN)
    fun s _ hs _ => ⟨fun h => by simpa using h, hs⟩) fun more => .ite (fun hm => ?_) fun _ => ?_
  · subst hm
    exact (drainTurn_drains hN).bind fun _ =>
      .ret _ (stable_drained hN) (fun _ _ _ => trivial) fun _ _ hs => ⟨hs.1, hs.2⟩
  · exact .ret _ stable_running (fun _ _ _ => trivial) fun _ _ hs => hs.2.2

end Drain

end Uart

theorem does_setTimeout (n : UInt8) : Does A π K (setTimeout n) :=
  does_modify fun _ => .of_eq ⟨rfl, rfl, rfl, rfl⟩ (List.suffix_refl _)

section Avr109

-- block transfers, which mask the timer, do not happen or do not matter
variable (hblock : ∀ command, (command = ascii 'B' ∨ command = ascii 'g') → π.bytes command →
  ∀ K, Does A π K (readWriteMemoryBlock command))
include hblock

theorem does_avr109Command (command : UInt8) (hc : π.Allows command) :
    Does A π K (avr109Command command) := by
  have hread : Does A π K usbReadByte := does_usbReadByte
  have hbyte (b : UInt8) : Does A π K (usbWriteByte b) := does_usbWriteByte b
  have hbytes (bs : List UInt8) : Does A π K (usbWriteBytes bs) := does_usbWriteBytes bs
  refine does_ite ?_ (does_ite ?_ (does_ite (hbyte _) (does_ite (hbytes _) (does_ite (hbyte _)
    (does_ite ?_ (does_ite (hbyte _) (does_ite (hbytes _) (does_ite (hbytes _)
      (does_ite (hbytes _) (does_ite (hbytes _) (.ite (fun hb => ?_) fun _ => does_ite (hbyte _)
        (does_pure ()))))))))))))
  · refine does_bind (does_setTimeout _) fun _ => ?_
    exact does_bind (does_onCore fun _ => ⟨rfl, rfl, rfl, rfl⟩) fun _ => hbyte _
  · exact does_bind hread fun _ => hbyte _
  · refine does_bind hread fun _ => ?_
    refine does_bind (does_onCore fun _ => ⟨rfl, rfl, rfl, rfl⟩) fun _ => ?_
    refine does_bind hread fun _ => ?_
    refine does_bind (does_onCore fun _ => ⟨rfl, rfl, rfl, rfl⟩) fun _ => ?_
    exact hbyte _
  · refine does_bind (does_setTimeout _) fun _ => does_bind (does_modify fun s => ?_) fun _ => ?_
    · exact ⟨id, id, .inr rfl, rfl, List.suffix_refl _⟩
    · refine hblock command hb (hc.resolve_left ?_) K
      rintro rfl
      exact absurd hb (by decide)

theorem does_dispatched (command : UInt8) (hc : π.Allows command) :
    Does A π K (dispatched command) := by
  refine does_bind (does_modify fun s => ?_) fun _ => ?_
  · exact .of_eq ⟨rfl, rfl, rfl, rfl⟩ (List.suffix_refl _)
  exact does_bind (does_avr109Command hblock command hc) fun _ => does_usbFlush

theorem does_avr109Turn : Does A π K avr109Turn := by
  refine does_bind does_usbByteAvailable fun _ => does_ite ?_ (does_pure ())
  exact usbReadByte_allowed.bind fun command => .of_pure (does_dispatched hblock command)

omit hblock in
theorem built_dispatched_zero : Built Unarmed noProcedures (dispatched 0) := by
  refine built_bind (built_modify fun s => ?_) fun _ => ?_
  · exact ⟨.of_eq ⟨rfl, rfl, rfl, rfl⟩ (List.suffix_refl _), rfl⟩
  have hcommand : avr109Command 0 = usbWriteByte (ascii '?') := rfl
  rw [hcommand]
  exact built_bind (built_usbWriteByte usbSteps_unarmed _) fun _ => built_usbFlush usbSteps_unarmed

theorem avr109Turn_total {σ : Nat → Move Event} (hσ : Ticking σ) {k Δ t₀ : Nat} :
    Total handle σ A (Expiring hσ π k Δ t₀ K) avr109Turn
      fun t _ s => Expiring hσ π k Δ t₀ K t s := by
  refine .bind (unarmed_total hσ (built_usbByteAvailable usbSteps_unarmed) does_usbByteAvailable)
    fun _ => Total.ite (fun _ => ?_) fun _ => .ret () fun _ _ hs => hs
  exact reads_total hσ built_dispatched_zero fun b hb _ => does_dispatched hblock b hb

/-- A session without block transfers ends when the host has nothing more to
say. -/
theorem does_avr109Loop : Does A π K avr109Loop := by
  refine ⟨?_, ?_⟩
  · exact .whileDo (R := fun _ => Running π K) stable_running stable_running (fun _ _ _ => trivial)
      (fun _ _ _ => trivial) (does_read _).safe (does_avr109Turn hblock).safe
  · exact Live.countdown rfl (fun _ h => h.tick) (fun σ hσ k Δ t₀ => timeoutRunning_total hσ)
      fun σ hσ k Δ t₀ => avr109Turn_total hblock hσ

theorem does_avr109Programmer : Does A π K avr109Programmer :=
  does_bind (does_setTimeout _) fun _ => does_avr109Loop hblock

end Avr109

section Tasks

/-- What `CDC_Task` does with a byte of the host. -/
def cdcByte (ch : UInt8) : Fw Unit := do
  cdcInput ch
  setLedControl 0xFF

theorem built_cdcByte_zero : Built Unarmed noProcedures (cdcByte 0) := by
  have hinput : cdcInput 0 = putch 0 := rfl
  rw [cdcByte, hinput]
  refine built_bind (built_putch taskSteps_unarmed 0) fun _ => ?_
  exact built_setLedControl taskSteps_unarmed _

theorem does_ledTask : Does A π K (.modify ledTask) :=
  does_of_built ((built_ledTask taskSteps_unarmed).mono fun _ _ h => h.toOnward)
    (.straight (fun _ h => h.cpu) (show Straight (.modify ledTask) from trivial) _)

variable (hN : ∀ s, A s → s.ring.accepted.length ≤ N) (hslip : ¬ π.bytes slipEnd)
  (hblock : ∀ command, (command = ascii 'B' ∨ command = ascii 'g') → π.bytes command →
    ∀ K, Does A π K (readWriteMemoryBlock command))

section Bytes

include hslip hblock

theorem does_cdcByte (ch : UInt8) (hc : π.Allows ch) : Does A π K (cdcByte ch) := by
  have hne : ch ≠ slipEnd := by
    rintro rfl
    exact hc.elim (by decide) hslip
  refine does_bind ?_ fun _ => does_onCore fun _ => ⟨rfl, rfl, rfl, rfl⟩
  rw [cdcInput, if_neg hne]
  refine does_ite (does_avr109Programmer hblock) (does_ite ?_ (does_putch ch))
  refine does_bind (does_usbWriteByte _) fun _ => does_bind (does_usbWriteByte _) fun _ => ?_
  exact does_bind (does_read _) does_usbWriteByte

end Bytes

include hN hslip hblock

theorem does_runTasks : Does A π K runTasks := by
  refine does_bind ?_ fun _ => does_ledTask
  refine does_bind (does_drainRing hN) fun _ => does_bind does_usbFlush fun _ => ?_
  refine does_bind does_usbByteAvailable fun _ => does_ite ?_ (does_pure ())
  exact usbReadByte_allowed.bind fun ch => .of_pure (does_cdcByte hslip hblock ch)

theorem runTasks_total {σ : Nat → Move Event} (hσ : Ticking σ) {k Δ t₀ : Nat} :
    Total handle σ A (Expiring hσ π k Δ t₀ K) runTasks fun t _ s => Expiring hσ π k Δ t₀ K t s := by
  have hdrain : Built Unarmed noProcedures drainRing := built_drainRing usbSteps_unarmed fun _ =>
    built_modify fun _ => ⟨.of_eq ⟨rfl, rfl, rfl, rfl⟩ (List.suffix_refl _), rfl⟩
  refine .bind ?_ fun _ => unarmed_total hσ (built_ledTask taskSteps_unarmed) does_ledTask
  refine .bind (unarmed_total hσ hdrain (does_drainRing hN)) fun _ => ?_
  refine .bind (unarmed_total hσ (built_usbFlush usbSteps_unarmed) does_usbFlush) fun _ => ?_
  refine .bind (unarmed_total hσ (built_usbByteAvailable usbSteps_unarmed) does_usbByteAvailable)
    fun _ => Total.ite (fun _ => ?_) fun _ => .ret () fun _ _ hs => hs
  exact reads_total hσ built_cdcByte_zero fun ch hch _ => does_cdcByte hslip hblock ch hch

omit hN hslip hblock in
theorem keepRunning_total {σ : Nat → Move Event} (hσ : Ticking σ)
    (hm : ∀ m, π.modes m → m = .normalBoot)
    {k Δ t₀ : Nat} :
    Total handle σ A (Expiring hσ π k Δ t₀ K) keepRunning fun t running s =>
      Expiring hσ π k Δ (t₀ + 1) K t s ∧ (running = true → s.usb.unread.length < k ∨ t₀ < Δ) := by
  refine .bind (R := fun t other s => other = false ∧ Expiring hσ π k Δ t₀ K t s) ?_ fun other => ?_
  · refine Total.access _ hσ.cpu (fun t e s hm ha hn hs => spends_ticks.irq hm ha hn hs) ?_
    intro t s hcpu _ hs
    refine ⟨?_, (hs.access hcpu fun hi => ⟨hi, Nat.le_refl _, Nat.le_refl _⟩).weaken⟩
    simp [hm _ hs.2.1.mode]
  · rintro t s ⟨rfl, hs⟩
    exact timeoutRunning_total hσ t s hs

theorem does_mainLoop (hm : ∀ m, π.modes m → m = .normalBoot) :
    Does A π K (.whileDo keepRunning runTasks) := by
  have hkeep : Does A π K keepRunning :=
    does_bind (does_read _) fun _ => does_ite (does_pure _) (does_read _)
  refine ⟨?_, ?_⟩
  · exact .whileDo (R := fun _ => Running π K) stable_running stable_running (fun _ _ _ => trivial)
      (fun _ _ _ => trivial) hkeep.safe (does_runTasks hN hslip hblock).safe
  · exact Live.countdown rfl (fun _ h => h.tick) (fun σ hσ k Δ t₀ => keepRunning_total hσ hm)
      fun σ hσ k Δ t₀ => runTasks_total hN hslip hblock hσ

end Tasks

section Boot

/-- Before the main loop: `C` holds of the processor's data, `M` of program
memory and address, and `X` of what the host has to say and what of it has
been read. -/
structure Booting (M : Memory → UInt32 → Prop) (X : List UInt8 → List UInt8 → Prop)
    (C : Core → Prop)
    (s : State) : Prop where
  core : C s.core
  mem : M s.core.mem s.core.currAddress
  host : X s.usb.unread s.usb.got

def anyCore (_ : Core) : Prop := True

def anyMode (_ : BootMode) : Prop := True

def listening (m : BootMode → Prop) (c : Core) : Prop :=
  c.sreg = true ∧ c.timsk1 = true ∧ m c.bootMode

/-- The mode the boot is classified as when nobody presses the button. -/
def unpressed (available : Bool) : BootMode := if available then .normalBoot else .keepBootloader

def started (c : Core) : Prop := c.trace.head? = some .startSketch

variable {M : Memory → UInt32 → Prop} {X : List UInt8 → List UInt8 → Prop} {C D : Core → Prop}
  {m : BootMode → Prop}

theorem stable_booting : Stable handle A (Booting M X C) := by
  intro e s _ _ hs
  have hview := view_handle e s
  have hunread : (handle e s).usb.unread = s.usb.unread := congrArg View.unread hview
  have hgot : (handle e s).usb.got = s.usb.got := congrArg View.got hview
  refine ⟨?_, ?_, ?_⟩
  · rw [core_handle]; exact hs.core
  · rw [core_handle]; exact hs.mem
  · rw [hunread, hgot]; exact hs.host

theorem stable_booting_and {c : Prop} : Stable handle A fun s => c ∧ Booting M X C s :=
  fun e s ha hn hs => ⟨hs.1, stable_booting e s ha hn hs.2⟩

theorem onCore_correct {f : Core → Core} (h : ∀ c, C c → D (f c))
    (hm : ∀ c, (f c).mem = c.mem ∧ (f c).currAddress = c.currAddress) :
    Correct handle A (fun _ => True) Ticking (Booting M X C) (onCore f) fun _ => Booting M X D := by
  refine correct_access _ stable_booting (fun _ => stable_booting) fun s _ hs _ => ?_
  refine ⟨h s.core hs.core, ?_, hs.host⟩
  rw [(hm s.core).1, (hm s.core).2]
  exact hs.mem

theorem setTimeout_correct (n : UInt8) :
    Correct handle A (fun _ => True) Ticking (Booting M X C) (setTimeout n)
      fun _ => Booting M X C :=
  correct_access _ stable_booting (fun _ => stable_booting)
    fun _ _ hs _ => ⟨hs.core, hs.mem, hs.host⟩

theorem setupHardware_correct :
    Correct handle A (fun _ => True) Ticking (Booting M X anyCore) setupHardware
      fun _ => Booting M X (listening anyMode) := by
  have hpins (f : Pins → Pins) : Correct handle A (fun _ => True) Ticking (Booting M X anyCore)
      (onPins f) fun _ => Booting M X anyCore := onCore_correct (fun _ hc => hc) fun _ => ⟨rfl, rfl⟩
  refine (hpins _).bind fun _ => (hpins _).bind fun _ => ?_
  refine (hpins _).bind fun _ => (hpins _).bind fun _ => ?_
  refine .bind (onCore_correct (D := anyCore) (fun _ hc => hc) fun _ => ⟨rfl, rfl⟩) fun _ => ?_
  refine .bind (onCore_correct (D := fun c => c.timsk1 = true) (fun _ _ => rfl) fun _ => ⟨rfl, rfl⟩)
    fun _ => ?_
  exact onCore_correct (fun _ hc => ⟨rfl, hc, trivial⟩) fun _ => ⟨rfl, rfl⟩

section Released

variable (hup : ∀ s, A s → s.button = false)
include hup

theorem rstat_correct : Correct handle A (fun _ => True) Ticking (Booting M X (listening m))
    rstat fun pressed s => pressed = false ∧ Booting M X (listening m) s :=
  correct_access _ stable_booting (fun _ => stable_booting_and) fun s ha hs _ =>
    ⟨hup s ha, ⟨rfl, hs.core.2⟩, hs.mem, hs.host⟩

theorem checkReset_correct (ticks : UInt8) : Correct handle A (fun _ => True) Ticking
    (Booting M X (listening m)) (checkReset ticks) fun pressed s =>
      pressed = false ∧ Booting M X (listening m) s := by
  refine .bind (setTimeout_correct ticks) fun _ => ?_
  refine .bind (R := fun _ => Booting M X (listening m)) ?_ fun _ => ?_
  · refine .whileDo_skip rfl stable_booting (fun _ _ _ => trivial) ?_
    refine .bind (correct_access _ stable_booting (fun _ => stable_booting) fun _ _ hs _ => hs)
      fun running => .ite (fun _ => rstat_correct hup) fun _ => ?_
    exact .ret false stable_booting_and (fun _ _ _ => trivial) fun _ _ hs => ⟨rfl, hs⟩
  · refine (rstat_correct hup).bind fun pressed => .of_pure fun hp => ?_
    subst hp
    refine .bind (onCore_correct (D := listening m) (fun _ hc => hc) fun _ => ⟨rfl, rfl⟩)
      fun _ => ?_
    exact .ret false stable_booting_and (fun _ _ _ => trivial) fun _ _ hs => ⟨rfl, hs⟩

theorem classifyBoot_correct (available : Bool) : Correct handle A (fun _ => True) Ticking
    (Booting M X (listening anyMode)) (classifyBoot available)
      fun _ => Booting M X (listening (· = unpressed available)) := by
  refine (checkReset_correct hup _).bind fun pressed => .of_pure fun hp => ?_
  subst hp
  have hleds (v : UInt8) : Correct handle A (fun _ => True) Ticking
      (Booting M X (listening anyMode)) (setLedsEnabled v)
        fun _ => Booting M X (listening anyMode) :=
    onCore_correct (fun _ hc => hc) fun _ => ⟨rfl, rfl⟩
  have hmode (mode : BootMode) : Correct handle A (fun _ => True) Ticking
      (Booting M X (listening anyMode)) (setBootMode mode)
      fun _ => Booting M X (listening (· = mode)) :=
    onCore_correct (fun _ hc => ⟨hc.1, hc.2.1, rfl⟩) fun _ => ⟨rfl, rfl⟩
  cases available with
  | true => exact (hleds _).bind fun _ => (hmode _).bind fun _ => setTimeout_correct _
  | false =>
    refine (hleds _).bind fun _ => (hmode _).bind fun _ => ?_
    refine (checkReset_correct hup _).bind fun pressed => .of_pure fun hp => ?_
    subst hp
    exact .ret () stable_booting (fun _ _ _ => trivial) fun _ _ hs => hs

theorem bootloader_correct {available : Bool} {X' : List UInt8 → List UInt8 → Prop}
    {M' : Memory → UInt32 → Prop}
    (hloop : Correct handle A (fun _ => True) Ticking
      (Booting M X (listening (· = unpressed available))) (.whileDo keepRunning runTasks)
      fun _ => Booting M' X' anyCore) :
    Correct handle A (fun _ => True) Ticking (Booting M X anyCore) (bootloader available)
      fun _ => Booting M' X' started := by
  refine setupHardware_correct.bind fun _ => (classifyBoot_correct hup available).bind fun _ => ?_
  exact hloop.bind fun _ => onCore_correct (fun _ _ => rfl) fun _ => ⟨rfl, rfl⟩

end Released

end Boot

section Chat

/-- The button is up, the ESP8266 has sent no more than `N` bytes, and no block
transfer is going on, during which the timer is masked. The host neither makes
a control request, which could keep the task for ever, nor resets the bus. -/
structure LeftAlone (N : Nat) (s : State) : Prop where
  button : s.button = false
  accepted : s.ring.accepted.length ≤ N
  timsk1 : s.core.sreg = true → s.core.timsk1 = true
  setup : s.usb.setup = []
  deviceState : s.usb.deviceState ≠ .default

/-- To start the sketch that is there, unless the host wants a session with the
ESP8266. -/
def staying (φ : Nat → UInt8) : Plan where
  flash := φ
  modes m := m = .normalBoot
  normal := rfl
  bytes b := b ≠ slipEnd

theorem does_masked (f : Fw Unit) : Does (LeftAlone N) π K (do
    setTimsk1 false
    f) := by
  refine .bind (R := fun _ _ => False) (correct_access _ stable_running (fun _ _ _ _ _ hs => hs) ?_)
    fun _ => ⟨fun _ _ hs => hs.elim, fun _ _ _ _ hs => hs.elim⟩
  intro s _ hs hn
  have hmask := hn.timsk1 hs.sreg
  cases hmask

theorem does_readWriteMemoryBlock (command : UInt8) :
    Does (LeftAlone N) π K (readWriteMemoryBlock command) := by
  refine does_bind does_usbReadByte fun _ => does_bind does_usbReadByte fun _ => ?_
  refine does_bind does_usbReadByte fun _ => ?_
  refine does_bind (does_onCore fun _ => ⟨rfl, rfl, rfl, rfl⟩) fun _ => ?_
  exact does_ite (does_usbWriteByte _) (does_masked _)

/-- The host has fewer than `K` bytes to send, and wants no session with the
ESP8266. -/
def Chatting (K : Nat) (unread _got : List UInt8) : Prop := unread.length < K ∧ slipEnd ∉ unread

/-- What `main` does after the boot has been classified. -/
def mainLoop : Fw Unit := do
  .whileDo keepRunning runTasks
  startSketch

theorem startSketch_correct {M : Memory → UInt32 → Prop} {X : List UInt8 → List UInt8 → Prop} :
    Correct handle A (fun _ => True) Ticking (Booting M X anyCore) startSketch
      fun _ => Booting M X started :=
  onCore_correct (fun _ _ => rfl) fun _ => ⟨rfl, rfl⟩

theorem loop_correct (φ : Nat → UInt8) :
    Correct handle (LeftAlone N) (fun _ => True) Ticking
      (Booting (fun m _ => m.flash = φ) (Chatting K) (listening (· = .normalBoot)))
      (.whileDo keepRunning runTasks)
      fun _ => Booting (fun m _ => m.flash = φ) (Chatting K) anyCore := by
  have hdoes := does_mainLoop (K := K) (π := staying φ)
    (fun s (ha : LeftAlone N s) => ha.accepted) (fun h => h rfl)
    (fun command _ _ _ => does_readWriteMemoryBlock command) fun _ hm => hm
  refine hdoes.conseq (fun _ hg => hg) (fun s hs => ?_) fun _ s hs => ?_
  · refine ⟨hs.core.1, hs.core.2.1, hs.core.2.2, hs.mem, hs.host.1, fun b hb he => ?_⟩
    exact hs.host.2 (he ▸ hb)
  · exact ⟨trivial, hs.flash, hs.fewer, fun hb => hs.bytes _ hb rfl⟩

theorem main_correct (r : Reset) (φ : Nat → UInt8) :
    Correct handle (LeftAlone N) (fun _ => True) Ticking
      (Booting (fun m _ => m.flash = φ) (Chatting K) fun c => c.mem.pgmReadWord 0 ≠ 0xFFFF) (main r)
      fun _ => Booting (fun m _ => m.flash = φ) (Chatting K) started := by
  have hboot : Correct handle (LeftAlone N) (fun _ => True) Ticking
      (Booting (fun m _ => m.flash = φ) (Chatting K) anyCore) (bootloader true)
      fun _ => Booting (fun m _ => m.flash = φ) (Chatting K) started :=
    bootloader_correct (fun s ha => ha.button) (loop_correct φ)
  refine .bind (R := fun available s => available = true ∧
      Booting (fun m _ => m.flash = φ) (Chatting K) anyCore s)
    (correct_access _ stable_booting (fun _ => stable_booting_and) fun s _ hs _ =>
      ⟨by simpa [sketchAvailable] using hs.core, trivial, hs.mem, hs.host⟩) fun available =>
    .of_pure fun ha => ?_
  subst ha
  exact .ite (fun _ => hboot) fun _ => .ite (fun _ => startSketch_correct) fun _ =>
    .ite (fun _ => startSketch_correct) fun _ => hboot

end Chat

/-- The program `p` leaves the bootloader with the flash as it was. -/
def Launches (σ : Nat → Move Event) (p : Fw Unit) (s : State) : Prop :=
  ∃ n, (runAt handle σ (p, s) n).1 = .ret () ∧
    (runAt handle σ (p, s) n).2.core.trace.head? = some .startSketch ∧
    (runAt handle σ (p, s) n).2.core.mem.flash = s.core.mem.flash

theorem Launches.of_correct {p : Fw Unit} {s : State} {X : List UInt8 → List UInt8 → Prop}
    {C : Core → Prop} {σ : Nat → Move Event}
    (hp : Correct handle A (fun _ => True) Ticking
      (Booting (fun m _ => m.flash = s.core.mem.flash) X C) p
      fun _ => Booting (fun m _ => m.flash = s.core.mem.flash) X started)
    (hσ : Ticking σ) (hC : C s.core) (hX : X s.usb.unread s.usb.got)
    (hA : ∀ n, A (runAt handle σ (p, s) n).2) : Launches σ p s := by
  obtain ⟨n, -, a, hr, hs⟩ :=
    (hp.total hσ 0 s ⟨hC, rfl, hX⟩).exists_runAt (p, s) rfl fun n _ => hA n
  exact ⟨n, hr, hs.core, hs.mem⟩

/-- Whatever the host says and does on the data endpoints, short of a session
with the ESP8266 or a block transfer, it does not keep the sketch from being
started. That holds from a reset with a sketch in flash, and it holds from any
turn of the main loop in normal mode, such as the one in which the last control
request has been answered. -/
theorem starts_sketch (N : Nat) {s : State} (hu : slipEnd ∉ s.usb.unread) {σ : Nat → Move Event}
    (hσ : Ticking σ) :
    (∀ r, s.core.mem.pgmReadWord 0 ≠ 0xFFFF →
      (∀ n, LeftAlone N (runAt handle σ (main r, s) n).2) → Launches σ (main r) s) ∧
    (listening (· = .normalBoot) s.core →
      (∀ n, LeftAlone N (runAt handle σ (mainLoop, s) n).2) → Launches σ mainLoop s) := by
  have hchat : Chatting (s.usb.unread.length + 1) s.usb.unread s.usb.got := ⟨Nat.lt_succ_self _, hu⟩
  exact ⟨fun r hf => .of_correct (main_correct r _) hσ hf hchat,
    fun hl => .of_correct ((loop_correct _).bind fun _ => startSketch_correct) hσ hl hchat⟩

section Visit

def inTurns (n : Nat) : Move Event :=
  if n % 5 = 0 then .cpu
  else if n % 5 = 1 then .irq .outPacket
  else if n % 5 = 2 then .irq .inTaken
  else if n % 5 = 3 then .irq .uartTxEmpty
  else .irq .tick

theorem ticking_inTurns : Ticking inTurns where
  cpu t := ⟨5 * t, by omega, if_pos (by omega)⟩
  tick t := ⟨5 * t + 4, by omega, by simp [inTurns, Nat.add_mod]⟩
  uartTxEmpty t := ⟨5 * t + 3, by omega, by simp [inTurns, Nat.add_mod]⟩

instance (N : Nat) : DecidablePred (LeftAlone N) := fun s =>
  decidable_of_iff (s.button = false ∧ s.ring.accepted.length ≤ N ∧
    (s.core.sreg = true → s.core.timsk1 = true) ∧ s.usb.setup = [] ∧ s.usb.deviceState ≠ .default)
    ⟨fun h => ⟨h.1, h.2.1, h.2.2.1, h.2.2.2.1, h.2.2.2.2⟩, fun h => ⟨h.1, h.2, h.3, h.4, h.5⟩⟩

theorem leftAlone_inTurns (n : Nat) (e : Event) (s : State) (hm : inTurns n = .irq e)
    (h : LeftAlone N s) : LeftAlone N (handle e s) := by
  have hkeep (he : (handle e s).button = s.button) (hr : (handle e s).ring = s.ring)
      (hu : (handle e s).usb.setup = s.usb.setup)
      (hd : (handle e s).usb.deviceState = s.usb.deviceState) : LeftAlone N (handle e s) :=
    ⟨by rw [he]; exact h.button, by rw [hr]; exact h.accepted, by rw [core_handle]; exact h.timsk1,
      hu.trans h.setup, hd.trans_ne h.deviceState⟩
  have he : e = .outPacket ∨ e = .inTaken ∨ e = .uartTxEmpty ∨ e = .tick := by
    simp only [inTurns] at hm
    grind
  obtain rfl | rfl | rfl | rfl := he
  · refine hkeep rfl rfl ?_ ?_ <;> rw [handle, outPacket_frame]
  · refine hkeep rfl rfl ?_ ?_ <;> rw [handle, inTaken_frame]
  · exact hkeep rfl rfl rfl rfl
  · refine hkeep ?_ ?_ ?_ ?_ <;> rw [handle] <;> split <;> rfl

def alone : State := .reset (.ofFlash fun _ => 0) [] false

/-- The main loop of an enumerated device in normal mode, with a host that asks
for the name of the programmer. -/
def visited : State :=
  let s := State.reset (.ofFlash fun _ => 0) [⟨[esc, ascii 'S'], by decide⟩] false
  { s with
    core := { s.core with bootMode := .normalBoot, sreg := true, timsk1 := true, rxcie1 := true }
    timer.timeout := 20
    usb.deviceState := .configured }

theorem leftAlone_alone (n : Nat) :
    LeftAlone 0 (runAt handle inTurns (main ⟨2, 0⟩, alone) n).2 :=
  of_holdsFor_isRet (k := 901) (by decide +kernel) (by decide +kernel) (by decide +kernel)
    (fun n e s => leftAlone_inTurns n e s) (fun _ h => h) n

theorem leftAlone_visited (n : Nat) :
    LeftAlone 0 (runAt handle inTurns (mainLoop, visited) n).2 :=
  of_holdsFor_isRet (k := 411) (by decide +kernel) (by decide +kernel) (by decide +kernel)
    (fun n e s => leftAlone_inTurns n e s) (fun _ h => h) n

theorem starts_sketch_visited :
    Launches inTurns (main ⟨2, 0⟩) alone ∧ Launches inTurns mainLoop visited :=
  ⟨(starts_sketch 0 (by decide +kernel) ticking_inTurns).1 _ (by decide +kernel) leftAlone_alone,
    (starts_sketch 0 (by decide +kernel) ticking_inTurns).2 ⟨rfl, rfl, rfl⟩ leftAlone_visited⟩

end Visit

end Adelino.Autostart
