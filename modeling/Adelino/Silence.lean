import Mathlib.Data.List.GetD
import Mathlib.Data.List.TakeDrop
import Adelino.Sessions
import Adelino.Tasks

namespace Adelino.Silence

open Adelino.Program Adelino.Logic Adelino.Flash Adelino.Endpoint Adelino.Machine Adelino.UsbBytes
open Adelino.Streams Adelino.UsbSpec Adelino.Avr109 Adelino.Block Adelino.Protocol Adelino.Commands
open Adelino.Calls Adelino.Frame Adelino.Tasks Adelino.Refinement Adelino.Sessions

/-- What can be told about a run even where the host is gone: bytes handed to
the IN endpoint may be lost there, so only the carriage returns among them
are counted. -/
structure Sight where
  core : Core
  unread : List UInt8
  confirmations : Nat

def Sight.ofView (v : View) : Sight :=
  ⟨v.core, v.unread, (v.written ++ v.dropped).count carriageReturn⟩

def sight (s : State) : Sight := .ofView (view s)

def Sight.leave (unread : List UInt8) (x : Sight) : Sight := { x with unread }

def Sight.mapCore (f : Core → Core) (x : Sight) : Sight := { x with core := f x.core }

structure Sight.Le (x y : Sight) : Prop where
  trace : x.core.trace <:+ y.core.trace
  confirmations : x.confirmations ≤ y.confirmations

theorem Sight.Le.refl (x : Sight) : x.Le x := ⟨List.suffix_refl _, Nat.le_refl _⟩

theorem Sight.Le.trans {x y z : Sight} (h : x.Le y) (h' : y.Le z) : x.Le z :=
  ⟨h.trace.trans h'.trace, Nat.le_trans h.confirmations h'.confirmations⟩

/-- `Timeout` is zero or the device detached only when nothing but `left` is
still to come. What has come can be in the bank then, unless it came after the
firmware had last looked there. -/
def Fed (left : List UInt8) (s : State) : Prop :=
  Alive s ∨ s.usb.unread = left ∨
    s.usb.unseen = false ∧ (s.usb.hostOut.map (·.1)).flatten <:+ left

instance (s : State) : Decidable (Alive s) := inferInstanceAs (Decidable (_ ∧ _))

instance (left : List UInt8) (s : State) : Decidable (Fed left s) :=
  inferInstanceAs (Decidable (_ ∨ _))

variable {α β : Type} {left : List UInt8}

theorem stable_sight {A : State → Prop} (P : Sight → Prop) :
    Stable handle A fun s => P (sight s) :=
  stable_view fun v => P (.ofView v)

/-- Where no waits are given up before `left` is all there is, `p` leads from
`x` to `y` and returns `a`. -/
structure Leads (left : List UInt8) (p : Fw α) (x : Sight) (a : α) (y : Sight) : Prop where
  le : x.Le y
  safe : Triple handle (Fed left) (fun s => x.Le (sight s) ∧ (sight s).Le y) (fun s => sight s = x)
    p (fun r s => r = a ∧ sight s = y)

theorem Leads.bind {p : Fw β} {k : β → Fw α} {x y z : Sight} {b : β} {a : α}
    (hp : Leads left p x b y) (hk : Leads left (k b) y a z) : Leads left (p >>= k) x a z where
  le := hp.le.trans hk.le
  safe := by
    apply Triple.bind (hp.safe.guarantee fun s hs => ⟨hs.1, hs.2.trans hk.le⟩)
    intro r
    apply Triple.of_pure
    intro hr
    subst hr
    exact hk.safe.guarantee fun s hs => ⟨hp.le.trans hs.1, hs.2⟩

theorem Leads.act (f : State → α × State) {x y : Sight} {a : α} (hle : x.Le y)
    (h : ∀ s, sight s = x → (f s).1 = a ∧ sight (f s).2 = y) : Leads left (.act f) x a y where
  le := hle
  safe := by
    apply Triple.act f (stable_sight fun z => z = x) (fun r => stable_sight fun z => r = a ∧ z = y)
    · intro s _ hs
      rw [hs]
      exact ⟨.refl x, hle⟩
    · intro r s _ hs
      rw [hs.2]
      exact ⟨hle, .refl y⟩
    · intro s _ hs _
      exact h s hs

theorem Leads.congr {p : Fw α} {x y y' : Sight} {a : α} (h : Leads left p x a y) (he : y = y') :
    Leads left p x a y' := he ▸ h

theorem Leads.ret (a : α) (x : Sight) : Leads left (.ret a : Fw α) x a x where
  le := .refl x
  safe := by
    apply Triple.ret a (stable_sight fun z => a = a ∧ z = x)
    · intro s _ hs
      rw [hs.2]
      exact ⟨.refl x, .refl x⟩
    · intro s _ hs
      exact ⟨rfl, hs⟩

section Header

variable {want : List UInt8} {x : Sight} (h : x.unread = want ++ left)
  (hl : want.length < 3 → left = [])
include h hl

end Header

def filled : List Obs → List UInt8
  | [] => []
  | .spm (.pageFill _ w) _ _ :: t => filled t ++ [w.toUInt8, (w >>> 8).toUInt8]
  | _ :: t => filled t

section Runs

variable {r : Request} {k : Nat} {s : State} {d : Prog State Unit × State}

theorem Leads.reached {p : Fw Unit} {y : Sight} (h : Leads left p (sight s) () y) (hs : Fed left s)
    (hd : Runs handle (Fed left) (p, s) d) :
    (sight s).Le (sight d.2) ∧ (sight d.2).Le y ∧ (d.1 = .ret () → sight d.2 = y) := by
  obtain ⟨hg, hr⟩ := h.safe s hs rfl d hd
  exact ⟨hg.1, hg.2, fun he => (hr () he).2⟩

theorem Leads.filled {p : Fw Unit} {y : Sight} (h : Leads left p (sight s) () y) (hs : Fed left s)
    (hd : Runs handle (Fed left) (p, s) d) (all : List Obs)
    (hy : y.core.trace = all ++ s.core.trace) (new : List Obs)
    (hn : d.2.core.trace = new ++ s.core.trace) : new <:+ all := by
  obtain ⟨-, hle, -⟩ := h.reached hs hd
  have ht : d.2.core.trace <:+ y.core.trace := hle.trace
  rw [hn, hy] at ht
  obtain ⟨older, ho⟩ := ht
  rw [← List.append_assoc] at ho
  exact ⟨older, List.append_cancel_right ho⟩

end Runs

section Commands

variable {want : List UInt8} {x : Sight} (h : x.unread = want ++ left)
include h

variable (hl : want.length < 3 → left = [])
include hl

end Commands

section Cases

variable {k : Nat} {s : State} {d : Prog State Unit × State}

end Cases

end Adelino.Silence
