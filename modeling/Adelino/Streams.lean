import Adelino.Logic
import Adelino.UsbBytes

namespace Adelino.Streams

open Adelino.Program Adelino.Logic Adelino.Endpoint Adelino.Machine

/-- The part of the state that only the program changes: its own data, and
the byte streams with the packet boundaries forgotten. -/
structure View where
  core : Core
  taken : List UInt8
  unread : List UInt8
  got : List UInt8
  written : List UInt8
  discarded : List UInt8
  dropped : List UInt8
  underruns : Nat

def view (s : State) : View :=
  { core := s.core
    taken := s.ring.taken
    unread := s.usb.unread
    got := s.usb.got
    written := s.usb.written
    discarded := s.usb.discarded
    dropped := s.usb.dropped
    underruns := s.usb.underruns }

def View.readByte (b : UInt8) (rest : List UInt8) (v : View) : View :=
  { v with unread := rest, got := v.got ++ [b] }

def View.writeByte (b : UInt8) (v : View) : View := { v with written := v.written ++ [b] }

def View.writeBytes (bs : List UInt8) (v : View) : View := { v with written := v.written ++ bs }

def View.readBytes (bs rest : List UInt8) (v : View) : View :=
  { v with unread := rest, got := v.got ++ bs }

def View.mapCore (f : Core → Core) (v : View) : View := { v with core := f v.core }

def View.dropByte (b : UInt8) (v : View) : View := { v with dropped := v.dropped ++ [b] }

theorem writeBytes_nil (v : View) : v.writeBytes [] = v := by
  simp [View.writeBytes]

theorem writeBytes_cons (b : UInt8) (bs : List UInt8) (v : View) :
    (v.writeByte b).writeBytes bs = v.writeBytes (b :: bs) := by
  simp [View.writeBytes, View.writeByte]

theorem readBytes_nil (rest : List UInt8) {v : View} (h : v.unread = rest) :
    v.readBytes [] rest = v := by
  simp [View.readBytes, ← h]

def device : Event → Usb → Usb
  | .outPacket, u => u.outPacket
  | .inTaken, u => u.inTaken
  | .setup r, u => { u with setup := u.setup ++ [r] }
  | .deviceState d, u => { u with deviceState := d }
  | _, u => u

theorem handle_usb (e : Event) (s : State) :
    (handle e s).usb = device e s.usb ∨ (handle e s).usb = s.usb := by
  cases e with
  | tick => right; simp only [handle]; split <;> rfl
  | uartRx ch => right; simp only [handle]; split <;> rfl
  | uartTxEmpty => right; rfl
  | outPacket => left; rfl
  | inTaken => left; rfl
  | setup r => left; rfl
  | deviceState d =>
    simp only [handle]
    split
    · left; rfl
    · right; rfl
  | button b => right; rfl

theorem unread_outPacket (u : Usb) : u.outPacket.unread = u.unread := by
  unfold Usb.outPacket
  split
  case h_1 p ps hb hq => simp [Usb.unread, hb, hq]
  case h_2 => rfl

theorem written_inTaken (u : Usb) : u.inTaken.written = u.written := by
  unfold Usb.inTaken
  split
  · simp [Usb.written]
  · rfl

theorem outPacket_frame (u : Usb) :
    u.outPacket = { u with
      outBank := u.outPacket.outBank, hostOut := u.outPacket.hostOut
      unseen := u.outPacket.unseen } := by
  unfold Usb.outPacket
  split <;> rfl

theorem inTaken_frame (u : Usb) :
    u.inTaken = { u with
      inBank := u.inTaken.inBank, inBusy := u.inTaken.inBusy, hostIn := u.inTaken.hostIn } := by
  unfold Usb.inTaken
  split <;> rfl

/-- Interrupts and devices do not show in the view. -/
@[simp] theorem view_handle (e : Event) (s : State) : view (handle e s) = view s := by
  cases e with
  | tick => simp only [handle]; split <;> rfl
  | uartRx ch =>
    simp only [handle]
    split
    · simp only [view, Uart.Ring.usart1Rx]
      split <;> rfl
    · rfl
  | uartTxEmpty => rfl
  | outPacket =>
    have hf := outPacket_frame s.usb
    simp only [handle, view, unread_outPacket]
    rw [hf]
    rfl
  | inTaken =>
    have hf := inTaken_frame s.usb
    simp only [handle, view, written_inTaken]
    rw [hf]
    rfl
  | setup r => rfl
  | deviceState d => simp only [handle]; split <;> rfl
  | button b => rfl

@[simp] theorem core_handle (e : Event) (s : State) : (handle e s).core = s.core :=
  congrArg View.core (view_handle e s)

/-- Properties of the USB controller that neither the host nor a pending
control request can take away. -/
structure Steady (φ : Usb → Prop) : Prop where
  device : ∀ e u, φ u → φ (Streams.device e u)
  setup : ∀ l u, φ u → φ { u with setup := l }

def AtView (v : View) (φ : Usb → Prop) (s : State) : Prop := view s = v ∧ φ s.usb

theorem Steady.handle {φ : Usb → Prop} (h : Steady φ) (e : Event) (s : State) (hs : φ s.usb) :
    φ (handle e s).usb := by
  obtain hu | hu := handle_usb e s
  · rw [hu]; exact h.device e _ hs
  · rw [hu]; exact hs

theorem AtView.stable {A : State → Prop} {v : View} {φ : Usb → Prop} (h : Steady φ) :
    Stable Machine.handle A (AtView v φ) := by
  rintro e s _ _ ⟨hv, hp⟩
  exact ⟨(view_handle e s).trans hv, h.handle e s hp⟩

theorem stable_view {A : State → Prop} (P : View → Prop) :
    Stable Machine.handle A (fun s => P (view s)) := by
  intro e s _ _ hs
  rwa [view_handle]

theorem stable_core {A : State → Prop} (P : Core → Prop) :
    Stable Machine.handle A (fun s => P s.core) :=
  stable_view fun v => P v.core

theorem Steady.of_forall {φ : Usb → Prop} (h : ∀ u, φ u) : Steady φ :=
  ⟨fun _ _ _ => h _, fun _ _ _ => h _⟩

theorem Steady.and {φ ψ : Usb → Prop} (h : Steady φ) (h' : Steady ψ) : Steady fun u => φ u ∧ ψ u :=
  ⟨fun e u hu => ⟨h.device e u hu.1, h'.device e u hu.2⟩,
    fun l u hu => ⟨h.setup l u hu.1, h'.setup l u hu.2⟩⟩

theorem Steady.imp {c : Prop} {φ : Usb → Prop} (h : Steady φ) : Steady fun u => c → φ u :=
  ⟨fun e u hu hc => h.device e u (hu hc), fun l u hu hc => h.setup l u (hu hc)⟩

theorem Steady.or {φ ψ : Usb → Prop} (h : Steady φ) (h' : Steady ψ) : Steady fun u => φ u ∨ ψ u :=
  ⟨fun e u hu => hu.imp (h.device e u) (h'.device e u),
    fun l u hu => hu.imp (h.setup l u) (h'.setup l u)⟩

theorem steady_uenum (ep : Ep) : Steady fun u => u.uenum = ep where
  device e u hu := by
    cases e with
    | outPacket => rw [device, outPacket_frame]; exact hu
    | inTaken => rw [device, inTaken_frame]; exact hu
    | _ => exact hu
  setup _ _ hu := hu

theorem steady_outBank (bank : List UInt8) : Steady fun u => u.outBank = some bank where
  device e u hu := by
    cases e with
    | outPacket =>
      simp only [device, Usb.outPacket]
      split
      · simp_all
      · exact hu
    | inTaken => rw [device, inTaken_frame]; exact hu
    | _ => exact hu
  setup _ _ hu := hu

/-- A packet in the OUT bank has not been there when the program last looked. -/
def Missed (u : Usb) : Prop := u.outBank = none ∨ u.unseen = true

theorem steady_missed : Steady Missed where
  device e u hu := by
    cases e with
    | outPacket =>
      simp only [device, Usb.outPacket]
      split
      · exact .inr rfl
      · exact hu
    | inTaken => rw [device, inTaken_frame]; exact hu
    | _ => exact hu
  setup _ _ hu := hu

theorem steady_inBank (bank : List UInt8 → Prop) :
    Steady fun u => u.inBusy = false ∧ bank u.inBank where
  device e u hu := by
    cases e with
    | outPacket => rw [device, outPacket_frame]; exact hu
    | inTaken => simpa [device, Usb.inTaken, hu.1] using hu
    | _ => exact hu
  setup _ _ hu := hu

theorem steady_sent : Steady fun u => u.inBusy = false → u.inBank = [] where
  device e u hu := by
    cases e with
    | outPacket => rw [device, outPacket_frame]; exact hu
    | inTaken =>
      simp only [device, Usb.inTaken]
      split
      · intro _; rfl
      · exact hu
    | _ => exact hu
  setup _ _ hu := hu

theorem steady_empty : Steady fun u => u.inBank = [] where
  device e u hu := by
    cases e with
    | outPacket => rw [device, outPacket_frame]; exact hu
    | inTaken =>
      simp only [device, Usb.inTaken]
      split
      · rfl
      · exact hu
    | _ => exact hu
  setup _ _ hu := hu

theorem steady_room : Steady fun u => u.inBusy = false → u.inBank.length < cdcTxRxEpSize where
  device e u hu := by
    cases e with
    | outPacket => rw [device, outPacket_frame]; exact hu
    | inTaken =>
      simp only [device, Usb.inTaken]
      split
      · intro _; exact Nat.zero_lt_succ _
      · exact hu
    | _ => exact hu
  setup _ _ hu := hu

end Adelino.Streams
