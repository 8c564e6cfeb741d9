import Adelino.Streams

namespace Adelino.UsbSpec

open Adelino.Program Adelino.Logic Adelino.Endpoint Adelino.Machine Adelino.UsbBytes Adelino.Streams

/-- `endpoint_detached` would answer no. -/
def Alive (s : State) : Prop := s.timer.timeout ≠ 0 ∧ s.usb.deviceState ≠ .unattached

/-- If a wait that shows `v` is given up, the controller satisfies `ψ` then. -/
def GivesUp (A : State → Prop) (v : View) (ψ : Usb → Prop) : Prop :=
  ∀ s, A s → view s = v → ¬ Alive s → ψ s.usb

def anyUsb (_ : Usb) : Prop := True

def HasByte (u : Usb) : Prop := u.uenum = .rx ∧ ∃ b bank, u.outBank = some (b :: bank)

variable {A : State → Prop} {v : View} {φ ψ : Usb → Prop} {α : Type}

theorem steady_anyUsb : Steady anyUsb := .of_forall fun _ => trivial

theorem steady_hasByte : Steady HasByte where
  device e u hu := by
    obtain ⟨hs, b, bank, hb⟩ := hu
    exact ⟨(steady_uenum .rx).device e u hs, b, bank, (steady_outBank _).device e u hb⟩
  setup _ _ hu := hu

theorem unread_ne_nil_of_hasByte {u : Usb} (h : HasByte u) : u.unread ≠ [] := by
  obtain ⟨-, b, bank, hb⟩ := h
  simp [Usb.unread, hb]

theorem ask_spec {χ : α → Usb → Prop} (f : State → α) (hφ : Steady φ) (hχ : ∀ a, Steady (χ a))
    (h : ∀ s, A s → AtView v φ s → χ (f s) s.usb) :
    Triple handle A (fun s => view s = v) (AtView v φ) (.read f) (fun a => AtView v (χ a)) :=
  .act _ (AtView.stable hφ) (fun a => AtView.stable (hχ a)) (fun _ _ hs => hs.1)
    (fun _ _ _ hs => hs.1) (fun s ha hs _ => ⟨hs.1, h s ha hs⟩)

theorem onUsb_spec (f : Usb → Usb) (hφ : Steady φ) (hψ : Steady ψ)
    (hv : ∀ s, φ s.usb → view { s with usb := f s.usb } = view s) (h : ∀ u, φ u → ψ (f u)) :
    Triple handle A (fun s => view s = v) (AtView v φ) (onUsb f) (fun _ => AtView v ψ) :=
  .act _ (AtView.stable hφ) (fun _ => AtView.stable hψ) (fun _ _ hs => hs.1) (fun _ _ _ hs => hs.1)
    (fun s _ hs _ => ⟨(hv s hs.2).trans hs.1, h _ hs.2⟩)

theorem selectEndpoint_spec (ep : Ep) (hφ : Steady φ) (h : ∀ u, φ u → φ (u.selectEndpoint ep)) :
    Triple handle A (fun s => view s = v) (AtView v φ) (selectEndpoint ep)
      (fun _ => AtView v fun u => u.uenum = ep ∧ φ u) :=
  onUsb_spec _ hφ ((steady_uenum ep).and hφ) (fun _ _ => rfl) (fun u hu => ⟨rfl, h u hu⟩)

theorem usbTask_spec (hφ : Steady φ) :
    Triple handle A (fun s => view s = v) (AtView v φ) usbTask (fun _ => AtView v φ) := by
  refine .act _ (AtView.stable hφ) (fun _ => AtView.stable hφ) (fun _ _ hs => hs.1)
    (fun _ _ _ hs => hs.1) ?_
  rintro s - ⟨hv, hs⟩ -
  dsimp only
  split
  · exact ⟨hv, hs⟩
  · split
    · exact ⟨hv, hs⟩
    · exact ⟨hv, hφ.setup _ _ hs⟩

theorem view_clearOut (s : State) (h : s.usb.uenum = .rx ∧ s.usb.outBank = some []) :
    view { s with usb := s.usb.clearOut } = view s := by
  simp [view, Usb.clearOut, Usb.unread, Usb.written, h.1, h.2]

/-- A bank is released only when it is empty, so asking for a byte loses none. -/
theorem usbByteAvailable_spec :
    Triple handle A (fun s => view s = v) (AtView v anyUsb) usbByteAvailable
      (fun r => AtView v fun u => (r = true → HasByte u) ∧ (r = false → Missed u)) := by
  have hpost (r : Bool) : Steady fun u => (r = true → HasByte u) ∧ (r = false → Missed u) :=
    steady_hasByte.imp.and steady_missed.imp
  refine .bind (usbTask_spec steady_anyUsb) fun _ => ?_
  refine .bind (selectEndpoint_spec .rx steady_anyUsb fun _ _ => trivial) fun _ => ?_
  have hrx : Steady fun u : Usb => u.uenum = .rx ∧ anyUsb u := (steady_uenum .rx).and steady_anyUsb
  have hbank : Steady fun u : Usb => ∃ bank, u.outBank = some bank :=
    ⟨fun e u hu => hu.imp fun bank hb => (steady_outBank bank).device e u hb, fun _ _ hu => hu⟩
  have hsome (r : Bool) : Steady fun u : Usb => u.uenum = .rx ∧
      (r = true → ∃ bank, u.outBank = some bank) ∧ (r = false → Missed u) :=
    (steady_uenum .rx).and (hbank.imp.and steady_missed.imp)
  refine .bind (ask_spec _ hrx hsome ?_) fun received => ?_
  · rintro s - ⟨-, hs, -⟩
    refine ⟨hs, fun hr => ?_, fun hr => .inl ?_⟩
    · simpa [Usb.isOutReceived, hs, Option.isSome_iff_exists] using hr
    · simpa [Usb.isOutReceived, hs] using hr
  · refine .ite (fun hr => ?_) (fun hr => ?_)
    · subst hr
      have hcount : ∀ n : Nat, Steady fun u : Usb =>
          u.uenum = .rx ∧ ∃ bank, u.outBank = some bank ∧ bank.length = n := fun n =>
        { device := fun e u hu => ⟨(steady_uenum .rx).device e u hu.1,
            hu.2.imp fun bank hb => ⟨(steady_outBank bank).device e u hb.1, hb.2⟩⟩
          setup := fun _ _ hu => hu }
      refine .bind (ask_spec _ (hsome true) hcount ?_) fun n => ?_
      · rintro s - ⟨-, hs, hb⟩
        obtain ⟨bank, hb⟩ := hb.1 rfl
        exact ⟨hs, bank, hb, by simp [Usb.bytesInEndpoint, hs, hb]⟩
      · refine .ite (fun hn => ?_) (fun hn => ?_)
        · refine .ret true (AtView.stable (hpost _)) (fun _ _ hs => hs.1) ?_
          rintro s - ⟨hv, hs, bank, hb, hl⟩
          refine ⟨hv, fun _ => ⟨hs, ?_⟩, by simp⟩
          cases bank with
          | nil => exact absurd hl.symm hn
          | cons b bank => exact ⟨b, bank, hb⟩
        · refine .bind (onUsb_spec Usb.clearOut (hcount n) steady_missed ?_ ?_)
            fun _ => .ret false (AtView.stable (hpost _)) (fun _ _ hs => hs.1)
              (fun s _ hs => ⟨hs.1, by simp, fun _ => hs.2⟩)
          · rintro s ⟨hs, bank, hb, hl⟩
            refine view_clearOut s ⟨hs, ?_⟩
            rw [hb, List.length_eq_zero_iff.mp (hl.trans (not_not.mp hn))]
          · intro u hu
            left
            simp only [Usb.clearOut, hu.1]
    · exact .ret false (AtView.stable (hpost _)) (fun _ _ hs => hs.1)
        (fun s _ hs => ⟨hs.1, by simp, fun _ => hs.2.2.2 (by simpa using hr)⟩)

theorem endpointDetached_spec (hφ : Steady φ) (hψ : Steady ψ)
    (hg : ∀ s, A s → AtView v φ s → ¬ Alive s → ψ s.usb) :
    Triple handle A (fun s => view s = v) (AtView v φ) endpointDetached
      (fun r s => AtView v φ s ∧ (r = true → ψ s.usb)) := by
  have hpost (c : Prop) : Stable handle A fun s => AtView v φ s ∧ (c → ψ s.usb) :=
    fun e s ha ha' hs => ⟨AtView.stable hφ e s ha ha' hs.1, fun h => hψ.handle e s (hs.2 h)⟩
  refine .bind (R := fun r s => AtView v φ s ∧ (r = false → ψ s.usb)) ?_ fun running => ?_
  · refine .act _ (AtView.stable hφ) (fun r => hpost _) (fun _ _ hs => hs.1)
      (fun _ _ _ hs => hs.1.1) ?_
    intro s ha hs _
    refine ⟨hs, fun hr => hg s ha hs fun hl => ?_⟩
    exact hl.1 (by simpa using hr)
  · refine .ite (fun hr => ?_) (fun hr => ?_)
    · refine .act _ (hpost _) (fun r => hpost _) (fun _ _ hs => hs.1.1) (fun _ _ _ hs => hs.1.1) ?_
      intro s ha hs _
      refine ⟨hs.1, fun hd => hg s ha hs.1 fun hl => ?_⟩
      exact hl.2 (by simpa using hd)
    · refine .ret true (hpost _) (fun _ _ hs => hs.1.1) ?_
      intro s _ hs
      exact ⟨hs.1, fun _ => hs.2 (by simpa using hr)⟩

/-- `s` shows `v` with its next unread byte, which is `b`, consumed. -/
def ReadFrom (v : View) (b : UInt8) (s : State) : Prop :=
  ∃ rest, v.unread = b :: rest ∧ view s = v.readByte b rest

theorem stable_readFrom (b : UInt8) : Stable handle A (ReadFrom v b) :=
  stable_view fun w => ∃ rest, v.unread = b :: rest ∧ w = v.readByte b rest

theorem readFrom_of_hasByte (s : State) (hv : view s = v) (h : HasByte s.usb) :
    ReadFrom v s.usb.read8.1 { s with usb := s.usb.read8.2 } := by
  obtain ⟨hs, b, bank, hb⟩ := h
  subst hv
  refine ⟨bank ++ (s.usb.hostOut.map (·.1)).flatten, ?_, ?_⟩
  · simp [view, Usb.unread, Usb.read8, hs, hb]
  · simp [view, Usb.unread, Usb.written, Usb.read8, hs, hb, View.readByte]

theorem endpointRead8_spec :
    Triple handle A (fun s => view s = v ∨ ∃ b, ReadFrom v b s) (AtView v HasByte) endpointRead8
      (ReadFrom v) :=
  .act _ (AtView.stable steady_hasByte) (fun b => stable_readFrom b) (fun _ _ hs => .inl hs.1)
    (fun b _ _ hs => .inr ⟨b, hs⟩) (fun s _ hs _ => readFrom_of_hasByte s hs.1 hs.2)

/-- Either the next byte of the host, or a zero that stands for nothing. -/
theorem usbReadByte_spec (hψ : Steady ψ) (hg : ∀ s, A s → AtView v Missed s → ¬ Alive s → ψ s.usb) :
    Triple handle A (fun s => view s = v ∨ ∃ b, ReadFrom v b s) (fun s => view s = v) usbReadByte
      (fun b s => ReadFrom v b s ∨ b = 0 ∧ AtView v ψ s) := by
  have hpost (b : UInt8) : Stable handle A fun s => ReadFrom v b s ∨ b = 0 ∧ AtView v ψ s :=
    fun e s ha ha' hs => hs.imp (stable_readFrom b e s ha ha')
      (And.imp_right (AtView.stable hψ e s ha ha'))
  have hview : Stable handle A fun s => view s = v := stable_view fun w => w = v
  refine .iter (P := fun _ s => view s = v) (fun _ => ?_) ()
  refine .bind ((usbByteAvailable_spec.pre fun s hs => ⟨hs, trivial⟩).guarantee fun _ => .inl)
    fun available => ?_
  refine .ite (fun ha => ?_) (fun ha => ?_)
  · subst ha
    refine .bind (endpointRead8_spec.pre fun s hs => ⟨hs.1, hs.2.1 rfl⟩) fun b => ?_
    refine .leave b (hpost b) ?_ fun s _ hs => .inl hs
    rintro s - (hs | ⟨-, hs⟩)
    · exact .inr ⟨b, hs⟩
    · exact .inl hs.1
  · refine .bind ((endpointDetached_spec steady_missed hψ hg).conseq (fun _ h => h) (fun _ => .inl)
      (fun s _ hs => ⟨hs.1, hs.2.2 (by simpa using ha)⟩) (fun _ _ h => h)) fun detached => ?_
    refine .ite (fun hd => ?_) (fun hd => ?_)
    · refine .leave 0 (hpost 0) ?_ fun s _ hs => .inr ⟨rfl, hs.1.1, hs.2 hd⟩
      rintro s - (hs | ⟨-, hs⟩)
      · exact .inr ⟨0, hs⟩
      · exact .inl hs.1
    · exact .again () hview (fun _ _ => .inl) fun s _ hs => hs.1.1

def InFree (u : Usb) : Prop := u.inBusy = false

theorem steady_inFree : Steady InFree :=
  ⟨fun e u hu => ((steady_inBank fun _ => True).device e u ⟨hu, trivial⟩).1, fun _ _ hu => hu⟩

/-- A bank that was handed over is empty once it is back; while it is not,
somebody gave up waiting for it. -/
def HandedOver (ψ : Usb → Prop) (u : Usb) : Prop :=
  (u.inBusy = false → u.inBank = []) ∧ (u.inBusy = true → ψ u)

theorem steady_busy (hψ : Steady ψ) : Steady fun u => u.inBusy = true → ψ u where
  device e u hu hb := by
    refine hψ.device e u (hu ?_)
    cases e with
    | outPacket => rwa [device, outPacket_frame] at hb
    | inTaken =>
      simp only [device, Usb.inTaken] at hb
      split at hb
      · cases hb
      · exact hb
    | _ => exact hb
  setup l u hu hb := hψ.setup l u (hu hb)

theorem steady_handedOver (hψ : Steady ψ) : Steady (HandedOver ψ) :=
  steady_sent.and (steady_busy hψ)

theorem usbFlushEndpoint_spec (hψ : Steady ψ) (hg : GivesUp A v ψ) :
    Triple handle A (fun s => view s = v) (AtView v fun u => u.uenum = .tx) usbFlushEndpoint
      (fun _ => AtView v fun u => u.uenum = .tx ∧ HandedOver ψ u) := by
  have hpost : Steady fun u => u.uenum = .tx ∧ HandedOver ψ u :=
    (steady_uenum .tx).and (steady_handedOver hψ)
  have hsent : Steady fun u => u.uenum = .tx ∧ (u.inBusy = false → u.inBank = []) :=
    (steady_uenum .tx).and steady_sent
  refine .bind (onUsb_spec Usb.clearIn (steady_uenum .tx) hsent ?_ ?_) fun _ => ?_
  · intro s hs
    simp [view, Usb.clearIn, Usb.unread, Usb.written, hs]
  · intro u hu
    simp [Usb.clearIn, hu]
  · refine .iter
      (P := fun _ => AtView v fun u => u.uenum = .tx ∧ (u.inBusy = false → u.inBank = []))
      (fun _ => ?_) ()
    have hready (r : Bool) : Steady fun u =>
        (u.uenum = .tx ∧ (u.inBusy = false → u.inBank = [])) ∧ (r = true → InFree u) :=
      hsent.and steady_inFree.imp
    refine .bind (ask_spec _ hsent hready ?_) fun ready => ?_
    · rintro s - ⟨-, hs, hb⟩
      exact ⟨⟨hs, hb⟩, fun hr => by simpa [Usb.isInReady, InFree, hs] using hr⟩
    · refine .ite (fun hr => ?_) (fun _ => ?_)
      · refine .leave () (AtView.stable hpost) (fun _ _ hs => hs.1) ?_
        intro s _ hs
        refine ⟨hs.1, hs.2.1.1, hs.2.1.2, fun hb => ?_⟩
        exact absurd hb (by rw [hs.2.2 hr]; decide)
      · refine .bind (endpointDetached_spec (hready ready) hψ fun s ha hs => hg s ha hs.1)
          fun detached => ?_
        refine .ite (fun hd => ?_) (fun _ => ?_)
        · exact .leave () (AtView.stable hpost) (fun _ _ hs => hs.1)
            fun s _ hs => ⟨hs.1.1, hs.1.2.1.1, hs.1.2.1.2, fun _ => hs.2 hd⟩
        · exact .again () (AtView.stable hsent) (fun _ _ hs => hs.1)
            fun s _ hs => ⟨hs.1.1, hs.1.2.1⟩

theorem usbFlush_spec (hψ : Steady ψ) (hg : GivesUp A v ψ) :
    Triple handle A (fun s => view s = v) (fun s => view s = v) usbFlush
      (fun _ => AtView v fun u => u.inBank = [] ∨ HandedOver ψ u) := by
  have hpost : Steady fun u => u.inBank = [] ∨ HandedOver ψ u :=
    steady_empty.or (steady_handedOver hψ)
  have htx : Steady fun u : Usb => u.uenum = .tx ∧ anyUsb u := (steady_uenum .tx).and steady_anyUsb
  have hempty (n : Nat) : Steady fun u : Usb => u.uenum = .tx ∧ (n = 0 → u.inBank = []) :=
    (steady_uenum .tx).and steady_empty.imp
  refine .bind ((selectEndpoint_spec .tx steady_anyUsb fun _ _ => trivial).pre
    fun s hs => ⟨hs, trivial⟩) fun _ => ?_
  refine .bind (ask_spec _ htx hempty ?_) fun n => ?_
  · intro s _ hs
    refine ⟨hs.2.1, ?_⟩
    intro hn
    simpa [Usb.bytesInEndpoint, hs.2.1] using hn
  apply Triple.ite
  · intro hn
    exact .ret () (AtView.stable hpost) (fun _ _ hs => hs.1) fun s _ hs => ⟨hs.1, .inl (hs.2.2 hn)⟩
  · intro _
    refine .bind (ask_spec _ (hempty n) (fun _ => steady_uenum .tx) fun s _ hs => hs.2.1)
      fun allowed => ?_
    refine .bind (R := fun _ => AtView v fun u => u.uenum = .tx) (.when (fun _ => ?_) (fun _ => ?_))
      fun _ => ?_
    · exact (usbFlushEndpoint_spec hψ hg).post fun _ s hs => ⟨hs.1, hs.2.1⟩
    · exact .ret () (AtView.stable (steady_uenum .tx)) (fun _ _ hs => hs.1) fun _ _ hs => hs
    · exact (usbFlushEndpoint_spec hψ hg).post fun _ s hs => ⟨hs.1, .inr hs.2.2⟩

theorem write8_of_inRoom (b : UInt8) (s : State) (hv : view s = v) (hs : s.usb.uenum = .tx)
    (hb : s.usb.inBusy = false) (hl : s.usb.inBank.length < cdcTxRxEpSize) :
    AtView (v.writeByte b) InFree { s with usb := s.usb.write8 b } := by
  subst hv
  constructor
  · simp [view, Usb.write8, Usb.isReadWriteAllowed, Usb.unread, Usb.written, View.writeByte, hs, hb,
      hl]
  · simp [Usb.write8, Usb.isReadWriteAllowed, InFree, hs, hb, hl]

/-- What is known where waits are given up does not rule out a busy bank. -/
def Lossy (ψ : Usb → Prop) : Prop := ∃ u, ψ u ∧ u.inBusy = true

/-- A written byte reaches the bank unless a wait for the host was given up. -/
theorem usbWriteByte_spec (b : UInt8) (hψ : Steady ψ) (hg : GivesUp A v ψ) :
    Triple handle A (fun s => view s = v ∨ view s = v.writeByte b ∨
        view s = v.dropByte b ∧ Lossy ψ)
      (fun s => view s = v) (usbWriteByte b)
      (fun _ s => AtView (v.writeByte b) InFree s ∨ view s = v.dropByte b ∧ Lossy ψ) := by
  have hroom : Steady fun u => u.uenum = .tx ∧
      (u.inBusy = false → u.inBank.length < cdcTxRxEpSize) ∧ (u.inBusy = true → ψ u) :=
    (steady_uenum .tx).and (steady_room.and (steady_busy hψ))
  have htx : Steady fun u : Usb => u.uenum = .tx ∧ anyUsb u := (steady_uenum .tx).and steady_anyUsb
  refine .bind (((usbTask_spec steady_anyUsb).guarantee fun _ => .inl).pre
    fun s hs => ⟨hs, trivial⟩) fun _ => ?_
  refine .bind ((selectEndpoint_spec .tx steady_anyUsb fun _ _ => trivial).guarantee
    fun _ => .inl) fun _ => ?_
  have hask (r : Bool) : Steady fun u => u.uenum = .tx ∧
      (r = true → u.inBusy = false ∧ u.inBank.length < cdcTxRxEpSize) :=
    (steady_uenum .tx).and (Steady.imp (steady_inBank fun l => l.length < cdcTxRxEpSize))
  refine .bind ((ask_spec _ htx hask ?_).guarantee fun _ => .inl) fun allowed => ?_
  · rintro s - ⟨-, hs, -⟩
    refine ⟨hs, fun hr => ?_⟩
    simpa [Usb.isReadWriteAllowed, hs] using hr
  · refine .bind (R := fun _ => AtView v fun u => u.uenum = .tx ∧
        (u.inBusy = false → u.inBank.length < cdcTxRxEpSize) ∧ (u.inBusy = true → ψ u))
      (.when (fun _ => ?_) (fun ha => ?_)) fun _ => ?_
    · refine (usbFlushEndpoint_spec hψ hg).conseq (fun _ h => h) (fun _ => .inl)
        (fun s _ hs => ⟨hs.1, hs.2.1⟩) fun _ s hs => ⟨hs.1, hs.2.1, fun hf => ?_, hs.2.2.2⟩
      rw [hs.2.2.1 hf]
      decide
    · refine .ret () (AtView.stable hroom) (fun _ _ hs => .inl hs.1) ?_
      intro s _ hs
      obtain ⟨hf, hl⟩ := hs.2.2 (by simpa using ha)
      exact ⟨hs.1, hs.2.1, fun _ => hl, fun hb => absurd hb (by rw [hf]; decide)⟩
    · refine .act _ (AtView.stable hroom) (fun _ => ?_) (fun _ _ hs => .inl hs.1) ?_ ?_
      · intro e s ha ha' hs
        refine hs.imp (fun h => AtView.stable steady_inFree e s ha ha' h) fun h => ?_
        rwa [view_handle]
      · rintro _ s - (hs | hs)
        · exact .inr (.inl hs.1)
        · exact .inr (.inr hs)
      · rintro s - ⟨hv, hs, hl, hb⟩ -
        cases hbusy : s.usb.inBusy with
        | false => exact .inl (write8_of_inRoom b s hv hs hbusy (hl hbusy))
        | true =>
          refine .inr ⟨?_, s.usb, hb hbusy, hbusy⟩
          subst hv
          simp [view, Usb.write8, Usb.isReadWriteAllowed, hs, hbusy, Usb.unread, Usb.written,
            View.dropByte]

end Adelino.UsbSpec
