import Adelino.UsbSpec
import Adelino.Sessions
import Adelino.Main

namespace Adelino.Bridge

open Adelino.Program Adelino.Logic Adelino.Endpoint Adelino.Uart Adelino.Machine Adelino.UsbBytes
open Adelino.Streams Adelino.UsbSpec Adelino.Esp8266 Adelino.Main Adelino.Sessions

/-- The host is there, and it takes every packet while `Timeout` still runs. -/
def Waits (s : State) : Prop :=
  s.usb.deviceState ≠ .unattached ∧ (s.usb.inBusy = true → s.timer.timeout ≠ 0)

instance (s : State) : Decidable (Waits s) := inferInstanceAs (Decidable (_ ∧ _))

theorem givesUp_waits (v : View) : GivesUp Waits v InFree := by
  intro s hs _ hn
  cases hb : s.usb.inBusy with
  | false => exact hb
  | true => exact absurd ⟨hs.2 hb, hs.1⟩ hn

theorem not_lossy_inFree : ¬ Lossy InFree := by
  rintro ⟨u, hf, hb⟩
  rw [hf] at hb
  cases hb

section Steps

variable {P Q : View → Prop}

theorem send_spec (b : UInt8) (h : ∀ v, P v → Q (v.writeByte b)) :
    Triple handle Waits (fun s => P (view s) ∨ Q (view s)) (fun s => P (view s)) (usbWriteByte b)
      (fun _ s => Q (view s)) := by
  intro s ha hs d hd
  obtain ⟨hg, hr⟩ := usbWriteByte_spec b steady_inFree (givesUp_waits (view s)) s ha rfl d hd
  constructor
  · obtain hv | hv | ⟨-, hl⟩ := hg
    · rw [hv]
      exact .inl hs
    · rw [hv]
      exact .inr (h _ hs)
    · exact absurd hl not_lossy_inFree
  · intro a he
    obtain ⟨hv, -⟩ | ⟨-, hl⟩ := hr a he
    · rw [hv]
      exact h _ hs
    · exact absurd hl not_lossy_inFree

theorem flush_spec :
    Triple handle Waits (fun s => P (view s)) (fun s => P (view s)) usbFlush
      (fun _ s => P (view s) ∧ s.usb.inBank = []) := by
  intro s ha hs d hd
  obtain ⟨hg, hr⟩ := usbFlush_spec steady_inFree (givesUp_waits (view s)) s ha rfl d hd
  have hview (t : State) (hv : view t = view s) : P (view t) := by
    rw [hv]
    exact hs
  refine ⟨hview d.2 hg, ?_⟩
  intro a he
  obtain ⟨hv, hempty | hover⟩ := hr a he
  · exact ⟨hview d.2 hv, hempty⟩
  · refine ⟨hview d.2 hv, hover.1 ?_⟩
    cases hb : d.2.usb.inBusy with
    | false => rfl
    | true => exact hb.symm.trans (hover.2 hb)

theorem poll_spec :
    Triple handle Waits (fun s => P (view s)) (fun s => P (view s)) usbByteAvailable
      (fun r s => P (view s) ∧ (r = true → HasByte s.usb)) := by
  intro s ha hs d hd
  obtain ⟨hg, hr⟩ := usbByteAvailable_spec (v := view s) s ha ⟨rfl, trivial⟩ d hd
  have hview (t : State) (hv : view t = view s) : P (view t) := by
    rw [hv]
    exact hs
  exact ⟨hview d.2 hg, fun r he => ⟨hview d.2 (hr r he).1, (hr r he).2.1⟩⟩

end Steps

theorem keeps_inBank_poll (bank : List UInt8 → Prop) :
    Keeps (fun s => bank s.usb.inBank) usbByteAvailable := by
  refine keeps_bind (fun s hs => ?_) fun _ => ?_
  · dsimp only
    split
    · exact hs
    · split
      · exact hs
      · exact hs
  refine keeps_bind (fun _ hs => hs) fun _ => keeps_bind (keeps_read _ _) fun _ => ?_
  refine keeps_ite (keeps_bind (keeps_read _ _) fun _ => keeps_ite trivial ?_) trivial
  refine keeps_bind (fun s hs => ?_) fun _ => trivial
  dsimp only [Usb.clearOut]
  split
  · exact hs
  · exact hs

/-- The bytes `bs` were taken from the ring and written to the host. -/
def forward (bs : List UInt8) (v : View) : View :=
  { v with taken := v.taken ++ bs, written := v.written ++ bs }

def Forwarded (v₀ v : View) : Prop := ∃ bs, v = forward bs v₀

def InHand (v₀ : View) (ch : UInt8) (v : View) : Prop :=
  ∃ bs, v = { forward bs v₀ with taken := v₀.taken ++ bs ++ [ch] }

def Bridged (v₀ : View) (s : State) : Prop :=
  Forwarded v₀ (view s) ∨ ∃ ch, InHand v₀ ch (view s)

section CdcTask

variable {v₀ : View}

theorem ringTake_spec :
    Triple handle Waits (Bridged v₀) (fun s => Forwarded v₀ (view s)) ringTake
      (fun ch s => InHand v₀ ch (view s)) := by
  have hforwarded : Stable handle Waits fun s => Forwarded v₀ (view s) := stable_view (Forwarded v₀)
  have hhand (ch : UInt8) : Stable handle Waits fun s => InHand v₀ ch (view s) :=
    stable_view (InHand v₀ ch)
  apply Triple.bind (R := fun _ s => Forwarded v₀ (view s))
  · exact .act _ hforwarded (fun _ => hforwarded) (fun _ _ => .inl) (fun _ _ _ => .inl)
      fun _ _ hs _ => hs
  intro ch
  apply Triple.bind (R := fun _ s => InHand v₀ ch (view s))
  · refine .act _ hforwarded (fun _ => hhand ch) (fun _ _ => .inl)
      (fun _ _ _ hs => .inr ⟨ch, hs⟩) ?_
    intro s _ hs _
    obtain ⟨bs, hv⟩ := hs
    refine ⟨bs, ?_⟩
    rw [← hv]
    have ht : (view s).taken = v₀.taken ++ bs := congrArg View.taken hv
    rw [← ht]
    rfl
  intro _
  exact .ret ch (hhand ch) (fun _ _ hs => .inr ⟨ch, hs⟩) fun _ _ hs => hs

theorem forwarded_of_inHand {ch : UInt8} {v : View} (h : InHand v₀ ch v) :
    Forwarded v₀ (v.writeByte ch) := by
  obtain ⟨bs, rfl⟩ := h
  exact ⟨bs ++ [ch], by simp [forward, View.writeByte]⟩

/-- All that has been taken from the ring when it is empty has been written. -/
theorem drainRing_spec :
    Triple handle Waits (Bridged v₀) (fun s => Forwarded v₀ (view s)) drainRing
      (fun _ s => Forwarded v₀ (view s)) := by
  have hforwarded : Stable handle Waits fun s => Forwarded v₀ (view s) := stable_view (Forwarded v₀)
  apply Triple.whileDo (R := fun _ s => Forwarded v₀ (view s)) hforwarded hforwarded
    (fun _ _ => .inl) (fun _ _ => .inl)
  · exact .act _ hforwarded (fun _ => hforwarded) (fun _ _ => .inl) (fun _ _ _ => .inl)
      fun _ _ hs _ => hs
  · apply Triple.bind ringTake_spec
    intro ch
    refine (send_spec ch fun v => forwarded_of_inHand).guarantee ?_
    intro s hs
    exact hs.symm.imp_right fun h => ⟨ch, h⟩

theorem cdcTask_spec (hu : v₀.unread = []) :
    Triple handle Waits (Bridged v₀) (fun s => Forwarded v₀ (view s)) cdcTask
      (fun _ s => Forwarded v₀ (view s) ∧ s.usb.inBank = []) := by
  have hsent : Stable handle Waits fun s => Forwarded v₀ (view s) ∧ s.usb.inBank = [] :=
    fun e s ha ha' hs => ⟨stable_view (Forwarded v₀) e s ha ha' hs.1, steady_empty.handle e s hs.2⟩
  apply Triple.bind drainRing_spec
  intro _
  apply Triple.bind (flush_spec.guarantee fun _ => .inl)
  intro _
  have hempty : Triple handle Waits (fun s => s.usb.inBank = []) (fun s => s.usb.inBank = [])
      usbByteAvailable (fun _ s => s.usb.inBank = []) :=
    .of_keeps (fun e s _ _ hs => steady_empty.handle e s hs) _ (keeps_inBank_poll (· = []))
  apply Triple.bind (((poll_spec (P := Forwarded v₀)).and hempty).guarantee fun _ hs => .inl hs.1)
  intro available
  apply Triple.ite
  · -- the host has nothing to say
    intro ha s _ hs
    obtain ⟨⟨bs, hv⟩, hbyte⟩ := hs.1
    have hnil : s.usb.unread = [] := (congrArg View.unread hv).trans hu
    exact absurd hnil (unread_ne_nil_of_hasByte (hbyte ha))
  · intro _
    exact .ret () hsent (fun _ _ hs => .inl hs.1) fun _ _ hs => ⟨hs.1.1, hs.2⟩

def cdcTasks : Nat → Fw Unit
  | 0 => return ()
  | n + 1 => do
    cdcTasks n
    cdcTask

theorem cdcTasks_spec (hu : v₀.unread = []) (n : Nat) :
    Triple handle Waits (Bridged v₀) (fun s => Forwarded v₀ (view s)) (cdcTasks n)
      (fun _ s => Forwarded v₀ (view s) ∧ (0 < n → s.usb.inBank = [])) := by
  induction n with
  | zero =>
    have hstable : Stable handle Waits fun s =>
        Forwarded v₀ (view s) ∧ (0 < 0 → s.usb.inBank = []) :=
      fun e s ha ha' hs => ⟨stable_view (Forwarded v₀) e s ha ha' hs.1, nofun⟩
    exact .ret () hstable (fun _ _ hs => .inl hs.1) fun _ _ hs => ⟨hs, nofun⟩
  | succ n ih =>
    apply Triple.bind (ih.post fun _ _ hs => hs.1)
    intro _
    exact (cdcTask_spec hu).post fun _ _ hs => ⟨hs.1, fun _ => hs.2⟩

end CdcTask

/-- While the host takes every packet before `Timeout` is zero, the bytes
removed from the ring are the bytes written, but for one in hand, and when
the calls have returned the host has received them all. -/
theorem bridge_lossless (n : Nat) (s : State) (hu : s.usb.unread = []) (hs : Waits s)
    (d : Prog State Unit × State) (hd : Runs handle Waits (cdcTasks n, s) d) :
    ∃ bs, d.2.ring.taken = s.ring.taken ++ bs ∧ d.2.usb.dropped = s.usb.dropped ∧
      (d.2.usb.written = s.usb.written ++ bs ∨
        ∃ ch, d.2.usb.written ++ [ch] = s.usb.written ++ bs) ∧
      (0 < n → d.1 = .ret () → d.2.usb.hostIn.flatten = s.usb.written ++ bs) := by
  have hu : (view s).unread = [] := hu
  obtain ⟨hg, hr⟩ := cdcTasks_spec hu n s hs ⟨[], by simp [forward]⟩ d hd
  obtain ⟨bs, hv⟩ | ⟨ch, bs, hv⟩ := hg
  · have hw : d.2.usb.written = s.usb.written ++ bs := congrArg View.written hv
    refine ⟨bs, congrArg View.taken hv, congrArg View.dropped hv, .inl hw, ?_⟩
    intro hn he
    rw [← hw, Usb.written, (hr () he).2 hn, List.append_nil]
  · have hw : d.2.usb.written = s.usb.written ++ bs := congrArg View.written hv
    refine ⟨bs ++ [ch], ?_, congrArg View.dropped hv, .inr ⟨ch, ?_⟩, ?_⟩
    · rw [← List.append_assoc]
      exact congrArg View.taken hv
    · rw [hw, List.append_assoc]
    · -- a call does not return with a byte in hand
      intro _ he
      obtain ⟨bs', hv'⟩ := (hr () he).1
      have ht : s.ring.taken ++ bs ++ [ch] = s.ring.taken ++ bs' :=
        (congrArg View.taken hv).symm.trans (congrArg View.taken hv')
      have hw' : s.usb.written ++ bs = s.usb.written ++ bs' :=
        hw.symm.trans (congrArg View.written hv')
      rw [← List.append_cancel_left hw'] at ht
      simp at ht

def buffered (timeout : UInt8) (n : Nat) : State :=
  (List.range n).foldl (fun s i => handle (.uartRx i.toUInt8) s)
    { ready (fun _ => 0xFF) [] with timer.timeout := timeout }

def latePolls : List (Move Event) :=
  List.flatten [
    .replicate 150 .cpu, [.irq .inTaken], .replicate 40 .cpu, [.irq .inTaken], .replicate 40 .cpu]

theorem bridge_lossless_two_packets :
    let d := exec handle (cdcTasks 1, buffered 60 18) latePolls
    d.2.usb.hostIn.flatten = d.2.ring.taken ∧ d.2.ring.taken.length = 18 := by
  intro d
  have hret : d.1.isRet = true := by decide +kernel
  obtain ⟨bs, ht, -, -, hh⟩ := bridge_lossless 1 (buffered 60 18) rfl (by decide) d
    (Runs.of_holdsAlong _ latePolls (by decide +kernel))
  obtain ⟨_, he⟩ := Prog.eq_ret_of_isRet hret
  refine ⟨?_, by decide +kernel⟩
  rw [ht, hh (by decide) he]
  rfl

/-- With `Timeout` at rest the wait for the host is no wait, and the bytes
after the first sixteen are written to a bank that is not there. -/
theorem bridge_loses :
    let d := exec handle (cdcTasks 1, buffered 0 18) latePolls
    d.1.isRet = true ∧ d.2.ring.taken = (List.range 18).map (·.toUInt8) ∧
      d.2.usb.hostIn.flatten = (List.range 16).map (·.toUInt8) ∧ d.2.usb.inBank = [] ∧
      d.2.usb.dropped = [16, 17] := by
  decide +kernel

end Adelino.Bridge
