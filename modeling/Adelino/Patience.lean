import Adelino.Countdown
import Adelino.SessionTimeout

namespace Adelino.Patience

open Adelino.Program Adelino.Logic Adelino.Calls Adelino.Progress Adelino.Deadline Adelino.Countdown
open Adelino.Endpoint Adelino.Uart Adelino.Machine Adelino.UsbBytes Adelino.Streams Adelino.Avr109
open Adelino.Esp8266 Adelino.Main Adelino.Frame Adelino.Tasks Adelino.SessionTimeout

/-- The processor and timer 1 run, and the UART sends what it is given. The
host may do what it likes. -/
structure Ticking (σ : Nat → Move Event) : Prop where
  cpu : Recurs σ .cpu
  tick : Recurs σ (.irq .tick)
  uartTxEmpty : Recurs σ (.irq .uartTxEmpty)

/-- What is to become of the bootloader: the flash to be started, the modes it
may be in, and the bytes the host may send. -/
structure Plan where
  flash : Nat → UInt8
  modes : BootMode → Prop
  normal : modes .normalBoot
  bytes : UInt8 → Prop

/-- The timer counts, and the host has fewer than `K` bytes to send. -/
structure Running (π : Plan) (K : Nat) (s : State) : Prop where
  sreg : s.core.sreg = true
  timsk1 : s.core.timsk1 = true
  mode : π.modes s.core.bootMode
  flash : s.core.mem.flash = π.flash
  fewer : s.usb.unread.length < K
  bytes : ∀ b ∈ s.usb.unread, π.bytes b

/-- What the firmware does outside of block transfers and of sessions with the
ESP8266. -/
structure Onward (s t : State) : Prop where
  sreg : s.core.sreg = true → t.core.sreg = true
  timsk1 : s.core.timsk1 = true → t.core.timsk1 = true
  mode : t.core.bootMode = s.core.bootMode ∨ t.core.bootMode = .normalBoot
  flash : t.core.mem.flash = s.core.mem.flash
  unread : t.usb.unread <:+ s.usb.unread

/-- What it does without setting `Timeout`. -/
structure Unarmed (s t : State) : Prop extends Onward s t where
  timeout : t.timer.timeout = s.timer.timeout

variable {A : State → Prop} {π : Plan} {K : Nat} {s t : State} {α β : Type}

theorem Onward.running (h : Onward s t) (hs : Running π K s) : Running π K t where
  sreg := h.sreg hs.sreg
  timsk1 := h.timsk1 hs.timsk1
  mode := by
    obtain hm | hm := h.mode
    · rw [hm]; exact hs.mode
    · rw [hm]; exact π.normal
  flash := h.flash.trans hs.flash
  fewer := Nat.lt_of_le_of_lt h.unread.length_le hs.fewer
  bytes b hb := hs.bytes b (h.unread.subset hb)

theorem Onward.of_eq (hc : t.core.sreg = s.core.sreg ∧ t.core.timsk1 = s.core.timsk1 ∧
    t.core.bootMode = s.core.bootMode ∧ t.core.mem.flash = s.core.mem.flash)
    (hu : t.usb.unread <:+ s.usb.unread) : Onward s t :=
  ⟨fun h => hc.1.trans h, fun h => hc.2.1.trans h, .inl hc.2.2.1, hc.2.2.2, hu⟩

theorem Onward.refl (s : State) : Onward s s := .of_eq ⟨rfl, rfl, rfl, rfl⟩ (List.suffix_refl _)

theorem Unarmed.refl (s : State) : Unarmed s s := ⟨.refl s, rfl⟩

theorem taskSteps_unarmed : TaskSteps Unarmed where
  refl := .refl
  usb _ _ _ hu _ := ⟨.of_eq ⟨rfl, rfl, rfl, rfl⟩ hu.unread, rfl⟩
  leds _ _ _ _ := ⟨.of_eq ⟨rfl, rfl, rfl, rfl⟩ (List.suffix_refl _), rfl⟩
  ledControl _ _ := ⟨.of_eq ⟨rfl, rfl, rfl, rfl⟩ (List.suffix_refl _), rfl⟩
  udr _ _ := ⟨.of_eq ⟨rfl, rfl, rfl, rfl⟩ (List.suffix_refl _), rfl⟩

theorem usbSteps_unarmed : UsbSteps Unarmed := taskSteps_unarmed.toUsbSteps

@[simp] theorem unread_handle (e : Event) (s : State) : (handle e s).usb.unread = s.usb.unread :=
  congrArg View.unread (view_handle e s)

theorem onward_handle (e : Event) (s : State) : Onward s (handle e s) := by
  refine .of_eq ?_ ?_
  · rw [core_handle]; exact ⟨rfl, rfl, rfl, rfl⟩
  · simp

theorem stable_running : Stable handle A (Running π K) := fun e s _ _ hs =>
  (onward_handle e s).running hs

theorem Running.tick (hs : Running π K s) :
    (handle .tick s).timer.timeout.toNat = s.timer.timeout.toNat - 1 := by
  rw [handle, hs.sreg, hs.timsk1]
  exact toNat_timeout_timer1CompA _ _

def ticksLeft (s : State) : Nat := s.timer.timeout.toNat

theorem ticksLeft_pos (h : s.timer.timeout ≠ 0) : 0 < ticksLeft s :=
  Nat.pos_of_ne_zero fun h0 => h (UInt8.toNat_inj.mp h0)

theorem spends_ticks :
    Spends handle A (Running π K) (fun s => s.usb.unread.length) ticksLeft .tick where
  stable := stable_running
  other e s _ _ _ := timeout_handle e s
  helped s _ _ hs hpos := by
    rw [ticksLeft, hs.tick]
    exact Nat.sub_lt hpos Nat.one_pos
  budget e s _ _ _ := by rw [unread_handle]

theorem Unarmed.counting (h : Unarmed s t) (hs : Running π K s) :
    Running π K t ∧ t.usb.unread.length ≤ s.usb.unread.length ∧ ticksLeft t ≤ ticksLeft s :=
  ⟨h.running hs, h.unread.length_le, Nat.le_of_eq (congrArg UInt8.toNat h.timeout)⟩

/-- The program returns, and the bootloader is still on its way. -/
abbrev Does (A : State → Prop) (π : Plan) (K : Nat) (f : Fw α) : Prop :=
  Correct handle A (fun _ => True) Ticking (Running π K) f fun _ => Running π K

section Rules

theorem does_of_built {p : Fw α} (hb : Built Onward noProcedures p)
    (hl : Live handle A Ticking (Running π K) p) : Does A π K p := by
  have hk : Keeps (Running π K) p := (hb.mono fun _ _ h => h.running).keeps
  exact ⟨(Triple.of_keeps stable_running p hk).guarantee fun _ _ => trivial, hl⟩

theorem does_pure (a : α) : Does A π K (.ret a : Fw α) :=
  .ret a stable_running (fun _ _ _ => trivial) fun _ _ hs => hs

theorem correct_access {P : State → Prop} {Q : α → State → Prop} (f : State → α × State)
    (hP : Stable handle A P) (hQ : ∀ a, Stable handle A (Q a))
    (h : ∀ s, A s → P s → A (f s).2 → Q (f s).1 (f s).2) :
    Correct handle A (fun _ => True) Ticking P (.act f) Q :=
  .act (fun _ h => h.cpu) f hP hQ (fun _ _ _ => trivial) (fun _ _ _ _ => trivial) h

theorem does_act {f : State → α × State} (h : ∀ s, Onward s (f s).2) : Does A π K (.act f) :=
  correct_access f stable_running (fun _ => stable_running) fun s _ hs _ => (h s).running hs

theorem does_read (f : State → α) : Does A π K (.read f) := does_act .refl

theorem does_modify {f : State → State} (h : ∀ s, Onward s (f s)) : Does A π K (.modify f) :=
  does_act h

theorem does_bind {p : Fw β} {k : β → Fw α} (hp : Does A π K p) (hk : ∀ b, Does A π K (k b)) :
    Does A π K (p >>= k) :=
  hp.bind hk

theorem does_ite {c : Prop} [Decidable c] {p q : Fw α} (hp : Does A π K p) (hq : Does A π K q) :
    Does A π K (if c then p else q) :=
  .ite (fun _ => hp) fun _ => hq

theorem does_when {c : Bool} {p : Fw Unit} (hp : Does A π K p) : Does A π K (.when c p) :=
  does_ite hp (does_pure ())

end Rules

section Usb

theorem does_onUsb {f : Usb → Usb} (hf : ∀ u, Accessed u (f u)) : Does A π K (onUsb f) :=
  does_modify fun s => (usbSteps_unarmed.usb s _ _ (hf s.usb) (.idle _)).toOnward

theorem does_usbTask : Does A π K usbTask := by
  refine does_modify fun s => ?_
  split
  · exact .refl s
  · split
    · exact .refl s
    · exact .of_eq ⟨rfl, rfl, rfl, rfl⟩ (List.suffix_refl _)

theorem does_usbByteAvailable : Does A π K usbByteAvailable := by
  refine does_bind does_usbTask fun _ => ?_
  refine does_bind (does_onUsb (accessed_selectEndpoint _)) fun _ => ?_
  refine does_bind (does_read _) fun _ => does_ite ?_ (does_pure _)
  refine does_bind (does_read _) fun _ => does_ite (does_pure _) ?_
  exact does_bind (does_onUsb accessed_clearOut) fun _ => does_pure _

theorem does_endpointDetached : Does A π K endpointDetached :=
  does_bind (does_read _) fun _ => does_ite (does_read _) (does_pure _)

theorem endpointDetached_total {σ : Nat → Move Event} (hσ : Ticking σ) {Δ t₀ : Nat} :
    Total handle σ A (Pending hσ.tick ticksLeft Δ t₀ (Running π K)) endpointDetached
      fun t detached s => Pending hσ.tick ticksLeft Δ (t₀ + 1) (Running π K) t s ∧
        (detached = false → t₀ < Δ) := by
  have hw := (spends_ticks (A := A) (π := π) (K := K)).toAwaits
  refine .bind (hw.look hσ.cpu hσ.tick (c := (· = true)) _ fun s _ hr => ?_) fun running => ?_
  · exact ticksLeft_pos (by simpa using hr)
  refine Total.ite (fun hr => ?_) fun _ => .ret true fun t s hs => ⟨hs.1, fun h => by cases h⟩
  intro t s hs
  refine ((hw.glance hσ.cpu hσ.tick _) t s hs.1).mono ?_
  rintro t c ⟨b, hb, hp⟩
  exact ⟨b, hb, hp, fun _ => hs.2 hr⟩

/-- The two loops that wait for the host: they look, and look again until the
host has done its part, `Timeout` has run out, or the device is unattached. -/
theorem does_attend {look : Fw Bool} (done : Fw α) (a : α) (hr : look.isRet = false)
    (hl : Does A π K look) (hb : Built Unarmed noProcedures look) (hd : Does A π K done) :
    Does A π K (.iter (fun _ => do
      if ← look then
        return .inr (← done)
      else if ← endpointDetached then
        return .inr a
      else
        return .inl ()) ()) := by
  have hw := (spends_ticks (A := A) (π := π) (K := K)).toAwaits
  refine .poll (P := fun _ => Running π K) (Q := fun _ => Running π K) (ρ := ticksLeft) (fun _ => 0)
    (fun _ h => h.tick) (fun _ => ?_) (fun _ => ?_) (fun σ hσ Δ t₀ _ => ?_) ()
  · show (look >>= _).isRet = false
    rw [Prog.bind_eq, Prog.andThen_eq_bind look _ hr]
    rfl
  · have hturn : Does A π K (do
        if ← look then
          return .inr (← done)
        else if ← endpointDetached then
          return .inr a
        else
          return .inl () : Fw (Unit ⊕ α)) := by
      refine does_bind hl fun _ => does_ite (does_bind hd fun _ => does_pure _) ?_
      exact does_bind does_endpointDetached fun _ => does_ite (does_pure _) (does_pure _)
    refine hturn.safe.post ?_
    rintro (y | a) s hs <;> exact hs
  · have hstep (s t : State) (h : Unarmed s t) (hs : Running π K s) :
        Running π K t ∧ ticksLeft t ≤ ticksLeft s := ⟨h.running hs, (h.counting hs).2.2⟩
    refine .bind (Awaits.along .refl hw hstep hb hl.live hσ) fun found => ?_
    refine Total.ite (fun _ => ?_) fun _ => ?_
    · have hdone : Total handle σ A (Pending hσ.tick ticksLeft Δ t₀ (Running π K)) done
          fun _ _ _ => True :=
        (hd.live σ hσ).conseq (fun _ _ hs => hs.2.1) fun _ _ _ h => h
      exact hdone.bind fun b => Polled.leave b
    · refine .bind (endpointDetached_total hσ) fun detached => ?_
      refine Total.ite (fun _ => Polled.leave a) fun hf t s hs => ?_
      exact Polled.wait (Nat.lt_succ_self t₀) (hs.2 (by simpa using hf)) t s hs.1

theorem does_usbReadByte : Does A π K usbReadByte := by
  have hread : Does A π K endpointRead8 :=
    does_act fun s => .of_eq ⟨rfl, rfl, rfl, rfl⟩ (accessed_read8 s.usb).unread
  exact does_attend endpointRead8 0 rfl does_usbByteAvailable
    (built_usbByteAvailable usbSteps_unarmed) hread

theorem does_usbFlushEndpoint : Does A π K usbFlushEndpoint := by
  refine does_bind (does_onUsb accessed_clearIn) fun _ => ?_
  exact does_attend (pure ()) () rfl (does_read _) (built_read .refl _) (does_pure ())

theorem does_usbFlush : Does A π K usbFlush := by
  refine does_bind (does_onUsb (accessed_selectEndpoint _)) fun _ => ?_
  refine does_bind (does_read _) fun _ => does_ite (does_pure ()) ?_
  refine does_bind (does_read _) fun _ => ?_
  exact does_bind (does_when does_usbFlushEndpoint) fun _ => does_usbFlushEndpoint

theorem does_usbWriteByte (b : UInt8) : Does A π K (usbWriteByte b) := by
  refine does_bind does_usbTask fun _ => ?_
  refine does_bind (does_onUsb (accessed_selectEndpoint _)) fun _ => ?_
  refine does_bind (does_read _) fun _ => does_bind (does_when does_usbFlushEndpoint) fun _ => ?_
  exact does_onUsb (accessed_write8 b)

theorem does_usbWriteBytes (bs : List UInt8) : Does A π K (usbWriteBytes bs) := by
  induction bs with
  | nil => exact does_pure ()
  | cons b bs ih => exact does_bind (does_usbWriteByte b) fun _ => ih

end Usb

section Bytes

theorem read8_cases (u : Usb) : u.unread = u.read8.1 :: u.read8.2.unread ∨
    u.read8.1 = 0 ∧ u.read8.2.unread = u.unread := by
  unfold Usb.read8
  split
  · next ho => exact .inl (by rw [Usb.unread, Usb.unread, ho]; rfl)
  · exact .inr ⟨rfl, rfl⟩

/-- What `usb_read_byte` may return: a byte of the host, or nothing. -/
def Plan.Allows (π : Plan) (b : UInt8) : Prop := b = 0 ∨ π.bytes b

theorem usbReadByte_spends (k : Nat) :
    Triple handle A (fun _ => True) (fun s => s.usb.unread.length ≤ k ∧ Running π K s)
      usbReadByte fun b s =>
        Running π K s ∧ π.Allows b ∧
          (s.usb.unread.length < k ∨ b = 0 ∧ s.usb.unread.length ≤ k) := by
  let J (s : State) : Prop := s.usb.unread.length ≤ k ∧ Running π K s
  have hJ : Stable handle A J := fun e s ha hn hs =>
    ⟨by rw [unread_handle]; exact hs.1, stable_running e s ha hn hs.2⟩
  have hkeep {γ : Type} {f : Fw γ} (hb : Built Unarmed noProcedures f) :
      Triple handle A (fun _ => True) J f fun _ => J := by
    have hk : Keeps J f := (hb.mono fun s t h (hs : J s) =>
      ⟨Nat.le_trans h.unread.length_le hs.1, h.running hs.2⟩).keeps
    exact (Triple.of_keeps hJ f hk).guarantee fun _ _ => trivial
  have hQ (b : UInt8) : Stable handle A fun s =>
      Running π K s ∧ π.Allows b ∧ (s.usb.unread.length < k ∨ b = 0 ∧ s.usb.unread.length ≤ k) := by
    intro e s ha hn hs
    rw [unread_handle]
    exact ⟨stable_running e s ha hn hs.1, hs.2⟩
  refine .iter (P := fun _ => J) (fun _ => ?_) ()
  refine .bind (hkeep (built_usbByteAvailable usbSteps_unarmed)) fun _ => ?_
  refine .ite (fun _ => ?_) fun _ => ?_
  · refine .bind (.access _ hJ hQ ?_) fun b =>
      .leave b (hQ b) (fun _ _ _ => trivial) fun _ _ hs => hs
    rintro s - ⟨hk, hs⟩ -
    have hnext : Onward s { s with usb := s.usb.read8.2 } :=
      .of_eq ⟨rfl, rfl, rfl, rfl⟩ (accessed_read8 s.usb).unread
    obtain hu | ⟨hb, hu⟩ := read8_cases s.usb
    · refine ⟨hnext.running hs, .inr (hs.bytes _ ?_), .inl ?_⟩
      · rw [hu]
        exact List.mem_cons_self
      · rw [hu] at hk
        exact hk
    · have hle := Nat.le_trans (Nat.le_of_eq (congrArg List.length hu)) hk
      exact ⟨hnext.running hs, .inl hb, .inr ⟨hb, hle⟩⟩
  · refine .bind (hkeep (built_endpointDetached Unarmed.refl)) fun _ => ?_
    refine .ite (fun _ => ?_) fun _ => ?_
    · refine .leave 0 (hQ 0) (fun _ _ _ => trivial) fun s _ hs => ?_
      exact ⟨hs.2, .inl rfl, .inr ⟨rfl, hs.1⟩⟩
    · exact .again () hJ (fun _ _ _ => trivial) fun _ _ hs => hs

theorem usbReadByte_allowed : Correct handle A (fun _ => True) Ticking (Running π K)
    usbReadByte fun b s => π.Allows b ∧ Running π K s :=
  ⟨(usbReadByte_spends K).conseq (fun _ ha => ha) (fun _ hg => hg)
    (fun _ _ hs => ⟨Nat.le_of_lt hs.fewer, hs⟩) fun _ _ hs => ⟨hs.2.1, hs.1⟩, does_usbReadByte.live⟩

end Bytes

section Expiry

variable {σ : Nat → Move Event} (hσ : Ticking σ) {k Δ t₀ : Nat}

/-- The bytes of the host run out, or `Timeout` does. -/
abbrev Expiring (π : Plan) (k Δ t₀ K : Nat) : Nat → State → Prop :=
  Counting hσ.tick (fun s => s.usb.unread.length) ticksLeft k Δ t₀ (Running π K)

theorem unarmed_total {f : Fw α} (hb : Built Unarmed noProcedures f) (hf : Does A π K f) :
    Total handle σ A (Expiring hσ π k Δ t₀ K) f fun t _ s => Expiring hσ π k Δ t₀ K t s :=
  spends_ticks.along .refl (fun _ _ h => h.counting) hb hf.live hσ

theorem timeoutRunning_total :
    Total handle σ A (Expiring hσ π k Δ t₀ K) timeoutRunning fun t running s =>
      Expiring hσ π k Δ (t₀ + 1) K t s ∧ (running = true → s.usb.unread.length < k ∨ t₀ < Δ) :=
  spends_ticks.look hσ.cpu _ fun _ _ hr => ticksLeft_pos (by simpa using hr)

/-- To read a byte and act on it brings the end of the wait closer: unless a
byte was there, and then there is one byte less, `Timeout` is not set. -/
theorem reads_total {act : UInt8 → Fw Unit} (h0 : Built Unarmed noProcedures (act 0))
    (ha : ∀ b, π.Allows b → ∀ K, Does A π K (act b)) :
    Total handle σ A (Expiring hσ π k Δ t₀ K) (usbReadByte >>= act) fun t _ s =>
      Expiring hσ π k Δ t₀ K t s := by
  have hexpires : Total handle σ A (Expiring hσ π k Δ t₀ K) usbReadByte
      fun t _ s => Expiring hσ π k Δ t₀ K t s :=
    unarmed_total hσ (built_usbReadByte usbSteps_unarmed) does_usbReadByte
  have hread := Total.safely hexpires (usbReadByte_spends k) fun t s hc => ⟨hc.le, hc.2.1⟩
  refine hread.bind fun b => ?_
  rintro t s ⟨hc, -, hb, hpaid⟩
  by_cases hz : b = 0
  · subst hz
    exact unarmed_total hσ h0 (ha 0 hb K) t s hc
  · have hlt : s.usb.unread.length < k := hpaid.resolve_right fun h => hz h.1
    have hs : Running π (min k K) s :=
      { hc.2.1 with fewer := Nat.lt_min.mpr ⟨hlt, hc.2.1.fewer⟩ }
    refine (Eventually.le ((ha b hb _).total hσ t s hs)).mono ?_
    rintro t' c ⟨ht, a, hr, hs'⟩
    obtain ⟨hk, hK⟩ := Nat.lt_min.mp hs'.fewer
    exact ⟨a, hr, Nat.le_trans hc.1 ht, { hs' with fewer := hK }, .inl hk⟩

end Expiry

end Adelino.Patience
