import Adelino.Progress
import Adelino.UsbSpec

namespace Adelino.UsbProgress

open Adelino.Program Adelino.Logic Adelino.Progress Adelino.Endpoint Adelino.Machine
open Adelino.UsbBytes Adelino.Streams Adelino.UsbSpec

/-- The processor runs, and the host keeps sending and keeps polling. -/
structure Fair (σ : Nat → Move Event) : Prop where
  cpu : Recurs σ .cpu
  outPacket : Recurs σ (.irq .outPacket)
  inTaken : Recurs σ (.irq .inTaken)

/-- Processor, sending host and polling host in turns, and nothing else. -/
def roundRobin (n : Nat) : Move Event :=
  if n % 3 = 0 then .cpu else if n % 3 = 1 then .irq .outPacket else .irq .inTaken

theorem fair_roundRobin : Fair roundRobin where
  cpu t := ⟨3 * t, by omega, if_pos (by omega)⟩
  outPacket t := ⟨3 * t + 1, by omega, by simp [roundRobin, Nat.add_mod]⟩
  inTaken t := ⟨3 * t + 2, by omega, by simp [roundRobin, Nat.add_mod]⟩

variable {σ : Nat → Move Event} {A : State → Prop} {α : Type}

structure Lasting (σ : Nat → Move Event) (P : Nat → State → Prop) : Prop where
  irq : ∀ t e s, σ t = .irq e → P t s → P (t + 1) (handle e s)
  cpu : ∀ t s, σ t = .cpu → P t s → P (t + 1) s

theorem Lasting.stableAt {P : Nat → State → Prop} (h : Lasting σ P) : StableAt handle σ A P :=
  fun t e s hm _ hs => h.irq t e s hm hs

theorem Lasting.trivial : Lasting σ fun _ _ => True :=
  ⟨fun _ _ _ _ h => h, fun _ _ _ h => h⟩

theorem ask_total {P : Nat → State → Prop} {R : Nat → α → State → Prop} (hσ : Recurs σ .cpu)
    (hP : Lasting σ P) (f : State → α)
    (h : ∀ t s, σ t = .cpu → P t s → R (t + 1) (f s) s) : Total handle σ A P (.read f) R :=
  .act _ hσ hP.stableAt fun t s hm _ hs => h t s hm hs

theorem modify_total {P : Nat → State → Prop} {R : Nat → Unit → State → Prop} (hσ : Recurs σ .cpu)
    (hP : Lasting σ P) (f : State → State)
    (h : ∀ t s, σ t = .cpu → P t s → R (t + 1) () (f s)) : Total handle σ A P (.modify f) R :=
  .act _ hσ hP.stableAt fun t s hm _ hs => h t s hm hs

theorem endpointDetached_total {P : Nat → State → Prop} (hσ : Recurs σ .cpu) (hP : Lasting σ P) :
    Total handle σ A P endpointDetached (fun t _ s => P t s) :=
  .bind (ask_total (R := fun t _ s => P t s) hσ hP _ hP.cpu) fun _ =>
    Total.ite (fun _ => ask_total hσ hP _ hP.cpu) fun _ => .ret true fun _ _ hs => hs

/-- How far the OUT endpoint is from having handed over everything. -/
def backlog (u : Usb) : Nat := 2 * u.hostOut.length + if u.outBank.isSome then 1 else 0

/-- Progress of a poll that began with `k` in the backlog: some of it has gone,
or the bank is free and the packet due at time `T` has not come yet. -/
def Polling (k T t : Nat) (u : Usb) : Prop :=
  u.unread ≠ [] ∧ (backlog u < k ∨ backlog u = k ∧ (u.outBank = none → t ≤ T))

theorem polling_event {k T t : Nat} {u : Usb} (hT : σ T = .irq .outPacket) (e : Event)
    (hm : σ t = .irq e) (h : Polling k T t u) : Polling k T (t + 1) (device e u) := by
  obtain ⟨hu, hb⟩ := h
  have hlate : ∀ e', e = e' → e' ≠ .outPacket → t ≤ T → t + 1 ≤ T := by
    rintro e' rfl he ht
    have : t ≠ T := by
      rintro rfl
      rw [hT] at hm
      exact he (by injection hm with hm; exact hm.symm)
    omega
  have hrest : ∀ u', u'.unread = u.unread → backlog u' = backlog u → u'.outBank = u.outBank →
      e ≠ .outPacket → Polling k T (t + 1) u' := by
    intro u' h1 h2 h3 he
    refine ⟨by rw [h1]; exact hu, ?_⟩
    rw [h2, h3]
    exact hb.imp_right fun hb => ⟨hb.1, fun hn => hlate e rfl he (hb.2 hn)⟩
  cases e with
  | outPacket =>
    refine ⟨by rw [device, unread_outPacket]; exact hu, ?_⟩
    simp only [device, Usb.outPacket]
    split
    case h_1 p ps hn hq => left; rcases hb with hb | hb <;> simp_all [backlog] <;> omega
    case h_2 hne =>
      rcases hb with hb | hb
      · exact .inl hb
      · refine .inr ⟨hb.1, fun hn => ?_⟩
        cases hq : u.hostOut with
        | nil => simp [Usb.unread, hn, hq] at hu
        | cons p ps => exact absurd hq (hne p ps hn)
  | inTaken =>
    have hf := inTaken_frame u
    exact hrest _ (by rw [device, hf]; rfl) (by rw [device, hf]; rfl) (by rw [device, hf]) (by simp)
  | tick | uartRx | uartTxEmpty | setup | deviceState | button =>
    exact hrest _ rfl rfl rfl (by simp)

theorem polling_tick {k T t : Nat} {u : Usb} (hT : σ T = .irq .outPacket) (m : Move Event)
    (hm : σ t = m) (hne : m ≠ .irq .outPacket) (h : Polling k T t u) : Polling k T (t + 1) u := by
  refine ⟨h.1, h.2.imp_right fun hb => ⟨hb.1, fun hn => ?_⟩⟩
  have ht := hb.2 hn
  have : t ≠ T := by
    rintro rfl
    exact hne (hm ▸ hT)
  omega

theorem lasting_polling {k T : Nat} (hT : σ T = .irq .outPacket) :
    Lasting σ fun t s => Polling k T t s.usb where
  irq t e s hm hs := by
    by_cases he : e = .outPacket
    · subst he
      exact polling_event hT .outPacket hm hs
    · obtain hu | hu := handle_usb e s
      · rw [hu]; exact polling_event hT e hm hs
      · rw [hu]; exact polling_tick hT _ hm (by simpa using he) hs
  cpu t s hm hs := polling_tick hT _ hm (fun h => nomatch h) hs

theorem Lasting.of_steady {φ : Usb → Prop} (h : Steady φ) : Lasting σ fun _ s => φ s.usb :=
  ⟨fun _ e s _ hs => h.handle e s hs, fun _ _ _ hs => hs⟩

theorem Lasting.and {P Q : Nat → State → Prop} (hP : Lasting σ P) (hQ : Lasting σ Q) :
    Lasting σ fun t s => P t s ∧ Q t s :=
  ⟨fun t e s hm hs => ⟨hP.irq t e s hm hs.1, hQ.irq t e s hm hs.2⟩,
    fun t s hm hs => ⟨hP.cpu t s hm hs.1, hQ.cpu t s hm hs.2⟩⟩

theorem lasting_since (t₀ : Nat) : Lasting σ fun t _ => t₀ ≤ t :=
  ⟨fun _ _ _ _ h => Nat.le_succ_of_le h, fun _ _ _ h => Nat.le_succ_of_le h⟩

def PolledInVain (k T t : Nat) (u : Usb) : Prop :=
  Polling k T t u ∧ (backlog u < k ∨ u.outBank = none)

theorem polledInVain_device {k T t t' : Nat} {u : Usb} (e : Event) (h : PolledInVain k T t u)
    (h' : Polling k T t' (device e u)) : PolledInVain k T t' (device e u) := by
  refine ⟨h', ?_⟩
  cases e with
  | outPacket =>
    obtain ⟨⟨hu, hk⟩, hb⟩ := h
    simp only [device, Usb.outPacket]
    split
    case h_1 p ps hn hq =>
      left
      simp only [backlog, hn, hq, List.length_cons, Option.isSome_none, Option.isSome_some] at hk ⊢
      simp only [Bool.false_eq_true, ↓reduceIte] at hk ⊢
      omega
    case h_2 => exact hb
  | inTaken =>
    have hf := inTaken_frame u
    rw [device, hf]
    exact h.2
  | tick | uartRx | uartTxEmpty | setup | deviceState | button => exact h.2

theorem lasting_polled {k T : Nat} (hT : σ T = .irq .outPacket) :
    Lasting σ fun t s => PolledInVain k T t s.usb where
  irq t e s hm hs := by
    have hp := (lasting_polling hT).irq t e s hm hs.1
    obtain hu | hu := handle_usb e s
    · rw [hu] at hp ⊢; exact polledInVain_device e hs hp
    · rw [hu] at hp ⊢; exact ⟨hp, hs.2⟩
  cpu t s hm hs := ⟨(lasting_polling hT).cpu t s hm hs.1, hs.2⟩

theorem usbByteAvailable_total {k T t₀ : Nat} (hσ : Recurs σ .cpu) (hT : σ T = .irq .outPacket) :
    Total handle σ A (fun t s => t₀ ≤ t ∧ Polling k T t s.usb) usbByteAvailable
      (fun t r s => t₀ + 1 ≤ t ∧ (r = true → HasByte s.usb) ∧
        (r = false → PolledInVain k T t s.usb)) := by
  have hpoll := lasting_polling (k := k) hT
  have hnow := (lasting_since (σ := σ) t₀).and hpoll
  have hlast := (lasting_since (σ := σ) (t₀ + 1)).and hpoll
  refine .bind (R := fun t _ s => t₀ + 1 ≤ t ∧ Polling k T t s.usb) ?_ fun _ => ?_
  · refine modify_total hσ hnow _ fun t s hm hs => ⟨by omega, ?_⟩
    have hp := hpoll.cpu t s hm hs.2
    dsimp only
    split
    · exact hp
    · split <;> exact hp
  refine .bind (R := fun t _ s => t₀ + 1 ≤ t ∧ Polling k T t s.usb ∧ s.usb.uenum = .rx) ?_
    fun _ => ?_
  · exact modify_total hσ hlast _ fun t s hm hs => ⟨by omega, hpoll.cpu t s hm hs.2, rfl⟩
  have hrx := (lasting_since (σ := σ) (t₀ + 1)).and (hpoll.and (.of_steady (steady_uenum .rx)))
  refine .bind (R := fun t r s => (t₀ + 1 ≤ t ∧ Polling k T t s.usb ∧ s.usb.uenum = .rx) ∧
      (r = true → ∃ bank, s.usb.outBank = some bank) ∧ (r = false → PolledInVain k T t s.usb)) ?_
    fun received => ?_
  · refine ask_total hσ hrx _ fun t s hm hs => ⟨hrx.cpu t s hm hs, fun hr => ?_, fun hr => ?_⟩
    · simpa [Usb.isOutReceived, hs.2.2, Option.isSome_iff_exists] using hr
    · refine ⟨hpoll.cpu t s hm hs.2.1, .inr ?_⟩
      simpa [Usb.isOutReceived, hs.2.2] using hr
  refine Total.ite (fun hr => ?_) (fun hr => ?_)
  · subst hr
    have hbank : Lasting σ fun _ s => ∃ bank, s.usb.outBank = some bank :=
      ⟨fun _ e s _ hs => hs.imp fun bank hb => (steady_outBank bank).handle e s hb,
        fun _ _ _ hs => hs⟩
    refine .bind (R := fun t n s => (t₀ + 1 ≤ t ∧ Polling k T t s.usb ∧ s.usb.uenum = .rx) ∧
      ∃ bank, s.usb.outBank = some bank ∧ bank.length = n) ?_ fun n => ?_
    · refine .conseq (ask_total (P := fun t s => (t₀ + 1 ≤ t ∧ Polling k T t s.usb ∧
        s.usb.uenum = .rx) ∧ ∃ bank, s.usb.outBank = some bank) hσ (hrx.and hbank) _ ?_)
        (fun t s hs => ⟨hs.1, hs.2.1 rfl⟩) (fun _ _ _ h => h)
      rintro t s hm ⟨hs, bank, hb⟩
      exact ⟨hrx.cpu t s hm hs, bank, hb, by simp [Usb.bytesInEndpoint, hs.2.2, hb]⟩
    refine Total.ite (fun hn => ?_) (fun hn => ?_)
    · refine .ret true fun t s hs => ⟨hs.1.1, fun _ => ⟨hs.1.2.2, ?_⟩, by simp⟩
      obtain ⟨bank, hb, hl⟩ := hs.2
      cases bank with
      | nil => exact absurd hl.symm hn
      | cons b bank => exact ⟨b, bank, hb⟩
    · have hempty : Lasting σ fun _ s => s.usb.outBank = some [] := .of_steady (steady_outBank [])
      refine .bind (R := fun t _ s => t₀ + 1 ≤ t ∧ PolledInVain k T t s.usb) ?_ fun _ =>
        .ret false fun t s hs => ⟨hs.1, by simp, fun _ => hs.2⟩
      refine .conseq (modify_total (P := fun t s => (t₀ + 1 ≤ t ∧ Polling k T t s.usb ∧
        s.usb.uenum = .rx) ∧ s.usb.outBank = some []) hσ (hrx.and hempty) _ ?_)
        ?_ (fun _ _ _ h => h)
      · rintro t s hm ⟨⟨ht, ⟨hu, hk⟩, hs⟩, hb⟩
        refine ⟨by omega, ?_⟩
        have hlt : backlog s.usb.clearOut < k := by
          simp only [backlog, Usb.clearOut, hs, hb, Option.isSome_some, Option.isSome_none] at hk ⊢
          simp only [Bool.false_eq_true, ↓reduceIte] at hk ⊢
          omega
        refine ⟨⟨?_, .inl hlt⟩, .inl hlt⟩
        simpa [Usb.unread, Usb.clearOut, hs, hb] using hu
      · rintro t s ⟨hs, bank, hb, hl⟩
        rw [List.length_eq_zero_iff.mp (hl.trans (not_not.mp hn))] at hb
        exact ⟨hs, hb⟩
  · exact .ret false fun t s hs => ⟨hs.1.1, by simp, fun _ => hs.2.2 (by simpa using hr)⟩

/-- Backlog first, then the time until the next packet is due. -/
def distance (h : Recurs σ (.irq .outPacket)) (t : Nat) (u : Usb) : Nat × Nat :=
  (backlog u, nextTime h t - t)

def Closer : Nat × Nat → Nat × Nat → Prop := Prod.Lex (· < ·) (· < ·)

theorem closer_wf : WellFounded Closer := (Prod.lex Nat.lt_wfRel Nat.lt_wfRel).wf

theorem polling_start (h : Recurs σ (.irq .outPacket)) (t : Nat) {u : Usb} (hu : u.unread ≠ []) :
    Polling (backlog u) (nextTime h t) t u :=
  ⟨hu, .inr ⟨rfl, fun _ => le_nextTime h t⟩⟩

theorem closer_of_polled (h : Recurs σ (.irq .outPacket)) {t₀ t : Nat} {u₀ u : Usb} (ht : t₀ < t)
    (hp : PolledInVain (backlog u₀) (nextTime h t₀) t u) :
    Closer (distance h t u) (distance h t₀ u₀) := by
  obtain ⟨⟨-, hlt | ⟨heq, hT⟩⟩, hb⟩ := hp
  · exact .left _ _ hlt
  · have hle := hT (hb.resolve_left (by omega))
    rw [distance, distance, heq, nextTime_eq h (by omega) hle]
    exact .right _ (by omega)

theorem usbReadByte_total (hσ : Fair σ) :
    Total handle σ A (fun _ s => s.usb.unread ≠ []) usbReadByte (fun _ _ _ => True) := by
  refine Total.iter closer_wf (fun t (_ : Unit) (s : State) => distance hσ.outPacket t s.usb)
    (P := fun _ _ s => s.usb.unread ≠ []) ?_ (fun _ w => ?_) ()
  · intro _; rfl
  rintro t₀ s₀ ⟨hu, rfl⟩
  have hT := nextTime_spec hσ.outPacket t₀
  refine (usbByteAvailable_total hσ.cpu hT t₀ s₀
    ⟨Nat.le_refl _, polling_start hσ.outPacket t₀ hu⟩).bind fun t available s hs => ?_
  refine Total.ite (P := fun t s => t₀ + 1 ≤ t ∧ (available = true → HasByte s.usb) ∧
    (available = false → PolledInVain (backlog s₀.usb) (nextTime hσ.outPacket t₀) t s.usb))
    (fun ha => ?_) (fun ha => ?_) t s hs
  · refine .bind (R := fun _ _ _ => True) ?_ fun b => .leave b fun _ _ _ => trivial
    exact (Total.act (P := fun _ _ => True) (Q := fun _ _ _ => True) _ hσ.cpu
      Lasting.trivial.stableAt fun _ _ _ _ _ => trivial).conseq (fun _ _ _ => trivial)
      fun _ _ _ h => h
  · have hlast := (lasting_since (σ := σ) (t₀ + 1)).and (lasting_polled (k := backlog s₀.usb) hT)
    refine .bind ((endpointDetached_total hσ.cpu hlast).conseq
      (fun t s hs => ⟨hs.1, hs.2.2 (by simpa using ha)⟩) fun _ _ _ h => h) fun detached => ?_
    refine Total.ite (fun _ => .leave 0 fun _ _ _ => trivial)
      (fun _ => .again () fun t s hs => ⟨hs.2.1.1, closer_of_polled _ hs.1 hs.2⟩)

def Draining (T t : Nat) (u : Usb) : Prop := u.uenum = .tx ∧ (u.inBusy = true → t ≤ T)

theorem lasting_draining {T : Nat} (hT : σ T = .irq .inTaken) :
    Lasting σ fun t s => Draining T t s.usb where
  irq t e s hm hs := by
    refine ⟨(steady_uenum .tx).handle e s hs.1, fun hb => ?_⟩
    have hne : e ≠ .inTaken := by
      rintro rfl
      simp only [handle, Usb.inTaken] at hb
      split at hb
      · cases hb
      · contradiction
    have hbusy : s.usb.inBusy = true := by
      by_contra hf
      have hfree : InFree (handle e s).usb := steady_inFree.handle e s (by simpa [InFree] using hf)
      rw [InFree, hb] at hfree
      cases hfree
    have ht := hs.2 hbusy
    have : t ≠ T := by
      rintro rfl
      rw [hT] at hm
      injection hm with hm
      exact hne hm.symm
    omega
  cpu t s hm hs := by
    refine ⟨hs.1, fun hb => ?_⟩
    have ht := hs.2 hb
    have : t ≠ T := by
      rintro rfl
      rw [hT] at hm
      cases hm
    omega

theorem usbFlushEndpoint_total (hσ : Fair σ) :
    Total handle σ A (fun _ s => s.usb.uenum = .tx) usbFlushEndpoint
      (fun _ _ s => s.usb.uenum = .tx) := by
  have htx : Lasting σ fun _ s => s.usb.uenum = .tx := .of_steady (steady_uenum .tx)
  refine .bind (R := fun _ _ s => s.usb.uenum = .tx) ?_ fun _ => ?_
  · refine modify_total hσ.cpu htx _ fun t s _ hs => ?_
    simp [Usb.clearIn, hs]
  refine Total.iter Nat.lt_wfRel.wf
    (fun t (_ : Unit) (s : State) => if s.usb.inBusy then nextTime hσ.inTaken t - t + 1 else 0)
    (P := fun _ _ s => s.usb.uenum = .tx) ?_ (fun _ w => ?_) ()
  · intro _; rfl
  rintro t₀ s₀ ⟨htx₀, rfl⟩
  have hT := nextTime_spec hσ.inTaken t₀
  have hlast := ((lasting_since (σ := σ) t₀).and (lasting_draining hT))
  have hfree : Lasting σ fun _ s => s₀.usb.inBusy = false → InFree s.usb :=
    .of_steady steady_inFree.imp
  refine (ask_total (R := fun t r s => t₀ + 1 ≤ t ∧ Draining (nextTime hσ.inTaken t₀) t s.usb ∧
      (r = false → s₀.usb.inBusy = true)) hσ.cpu (hlast.and hfree) _ (fun t s hm hs => ?_) t₀ s₀
    ⟨⟨Nat.le_refl _, htx₀, fun _ => le_nextTime _ _⟩, id⟩).bind fun t ready s hs => ?_
  · refine ⟨by omega, (lasting_draining hT).cpu t s hm hs.1.2, fun hr => ?_⟩
    by_contra hb
    have hf : s.usb.inBusy = false := hs.2 (by simpa using hb)
    simp [Usb.isInReady, hs.1.2.1, hf] at hr
  · refine Total.ite (P := fun t s => t₀ + 1 ≤ t ∧ Draining (nextTime hσ.inTaken t₀) t s.usb ∧
      (ready = false → s₀.usb.inBusy = true)) (fun _ => .leave () fun _ _ hs => hs.2.1.1)
      (fun hr => ?_) t s hs
    have hwait := (lasting_since (σ := σ) (t₀ + 1)).and (lasting_draining hT)
    have hbusy₀ : s₀.usb.inBusy = true := hs.2.2 (by simpa using hr)
    refine .bind ((endpointDetached_total hσ.cpu hwait).conseq
      (fun t s hs => ⟨hs.1, hs.2.1⟩) fun _ _ _ h => h) fun detached => ?_
    refine Total.ite (fun _ => .leave () fun _ _ hs => hs.2.1)
      (fun _ => .again () fun t s hs => ⟨hs.2.1, ?_⟩)
    rw [hbusy₀]
    cases hb : s.usb.inBusy with
    | false => simp [WellFoundedRelation.rel]
    | true =>
      have hle := hs.2.2 hb
      have hn := nextTime_eq hσ.inTaken (by omega) hle
      have hlt := hs.1
      simp only [if_true, hn, WellFoundedRelation.rel]
      omega

theorem selectEndpoint_total (hσ : Recurs σ .cpu) (ep : Ep) :
    Total handle σ A (fun _ _ => True) (selectEndpoint ep) (fun _ _ s => s.usb.uenum = ep) :=
  modify_total hσ .trivial _ fun _ _ _ _ => rfl

theorem usbFlush_total (hσ : Fair σ) :
    Total handle σ A (fun _ _ => True) usbFlush (fun _ _ _ => True) := by
  have htx : Lasting σ fun _ s => s.usb.uenum = .tx := .of_steady (steady_uenum .tx)
  refine .bind (selectEndpoint_total hσ.cpu .tx) fun _ => ?_
  refine .bind (ask_total (R := fun _ _ s => s.usb.uenum = .tx) hσ.cpu htx _ htx.cpu) fun n => ?_
  refine Total.ite (fun _ => .ret () fun _ _ _ => trivial) fun _ => ?_
  refine .bind (ask_total (R := fun _ _ s => s.usb.uenum = .tx) hσ.cpu htx _ htx.cpu) fun _ => ?_
  refine .bind (R := fun _ _ s => s.usb.uenum = .tx) (Total.ite (fun _ => usbFlushEndpoint_total hσ)
    fun _ => .ret () fun _ _ hs => hs) fun _ => ?_
  exact (usbFlushEndpoint_total hσ).conseq (fun _ _ h => h) fun _ _ _ _ => trivial

theorem usbWriteByte_total (hσ : Fair σ) (b : UInt8) :
    Total handle σ A (fun _ _ => True) (usbWriteByte b) (fun _ _ _ => True) := by
  have htx : Lasting σ fun _ s => s.usb.uenum = .tx := .of_steady (steady_uenum .tx)
  refine .bind (R := fun _ _ _ => True) (modify_total hσ.cpu .trivial _ fun _ _ _ _ => trivial)
    fun _ => ?_
  refine .bind (selectEndpoint_total hσ.cpu .tx) fun _ => ?_
  refine .bind (ask_total (R := fun _ _ s => s.usb.uenum = .tx) hσ.cpu htx _ htx.cpu) fun _ => ?_
  refine .bind (R := fun _ _ s => s.usb.uenum = .tx) (Total.ite (fun _ => usbFlushEndpoint_total hσ)
    fun _ => .ret () fun _ _ hs => hs) fun _ => ?_
  exact modify_total hσ.cpu htx _ fun _ _ _ _ => trivial

end Adelino.UsbProgress
