import Adelino.Circular
import Adelino.Tasks

namespace Adelino.RingQueue

open Adelino.Program Adelino.Logic Adelino.Calls Adelino.Uart Adelino.Machine Adelino.Esp8266
open Adelino.Frame Adelino.Tasks Adelino.Circular

/-- The ring holds the bytes that were accepted and not taken, in order. -/
def Holds (r : Ring) (pending : List UInt8) : Prop :=
  r.accepted = r.taken ++ pending ∧ Queue r.buffer r.bufferOut r.bufferIn pending

def Fifo (r : Ring) : Prop := ∃ pending, Holds r pending

def Front (ch : UInt8) (r : Ring) : Prop := ∃ pending, Holds r (ch :: pending)

/-- `buffer_out` was set to zero by hand. Bytes from before can only be told
by an index `buffer_in` that is not zero. -/
structure Repairing (r : Ring) : Prop where
  bufferOut : r.bufferOut = 0
  taken : r.taken = []
  fifo : r.bufferIn = 0 → Fifo r

/-- A byte is dropped only when 255 are pending, and then nothing changes. -/
theorem usart1Rx_eq {r : Ring} {pending : List UInt8} (h : Holds r pending) (ch : UInt8) :
    if pending.length = 255 then r.usart1Rx ch = r
    else Holds (r.usart1Rx ch) (pending ++ [ch]) := by
  unfold Ring.usart1Rx
  split
  · next hfull => rw [if_neg (not_not.mpr (h.2.full_iff.mpr hfull))]
  · next hroom =>
    have hne : r.bufferIn + 1 ≠ r.bufferOut := mt h.2.full_iff.mp hroom
    dsimp only
    rw [if_pos hne]
    refine ⟨?_, h.2.push ch hne⟩
    simp [h.1]

theorem holds_usart1Rx {r : Ring} {pending : List UInt8} (h : Holds r pending) (ch : UInt8) :
    Holds (r.usart1Rx ch) pending ∨ Holds (r.usart1Rx ch) (pending ++ [ch]) := by
  have hrx := usart1Rx_eq h ch
  split at hrx
  · rw [hrx]
    exact .inl h
  · exact .inr hrx

theorem taken_usart1Rx (r : Ring) (b : UInt8) : (r.usart1Rx b).taken = r.taken := by
  unfold Ring.usart1Rx
  dsimp only
  split <;> rfl

theorem bufferOut_usart1Rx (r : Ring) (b : UInt8) : (r.usart1Rx b).bufferOut = r.bufferOut := by
  unfold Ring.usart1Rx
  dsimp only
  split <;> rfl

theorem fifo_usart1Rx (r : Ring) (ch : UInt8) (h : Fifo r) : Fifo (r.usart1Rx ch) := by
  obtain ⟨pending, h⟩ := h
  obtain h | h := holds_usart1Rx h ch
  · exact ⟨_, h⟩
  · exact ⟨_, h⟩

theorem front_usart1Rx {c : UInt8} (r : Ring) (ch : UInt8) (h : Front c r) :
    Front c (r.usart1Rx ch) := by
  obtain ⟨pending, h⟩ := h
  obtain h | h := holds_usart1Rx h ch
  · exact ⟨_, h⟩
  · exact ⟨_, h⟩

/-- A receive interrupt never makes `buffer_in` meet `buffer_out`, so it
cannot hide stale bytes. -/
theorem repairing_usart1Rx (r : Ring) (ch : UInt8) (h : Repairing r) :
    Repairing (r.usart1Rx ch) := by
  unfold Ring.usart1Rx
  dsimp only
  split
  · next hne =>
    rw [h.bufferOut] at hne
    exact ⟨h.bufferOut, h.taken, fun h0 => absurd h0 hne⟩
  · exact h

theorem exists_next_of_fifo {r : Ring} (h : Fifo r) (hne : r.bufferIn ≠ r.bufferOut) :
    ∃ ch, Front ch r := by
  obtain ⟨pending, h⟩ := h
  cases pending with
  | nil => exact absurd rfl (h.2.ne_nil hne)
  | cons ch pending => exact ⟨ch, pending, h⟩

theorem buffer_of_next {ch : UInt8} {r : Ring} (h : Front ch r) : r.buffer r.bufferOut = ch := by
  obtain ⟨pending, h⟩ := h
  exact h.2.pop.1

theorem fifo_of_next {ch : UInt8} {r : Ring} (h : Front ch r) : Fifo r :=
  h.elim fun pending h => ⟨ch :: pending, h⟩

theorem fifo_advance {ch : UInt8} {r : Ring} (h : Front ch r) : Fifo (r.advance ch) := by
  obtain ⟨pending, h⟩ := h
  refine ⟨pending, ?_, h.2.pop.2⟩
  simp [Ring.advance, h.1]

theorem repairing_resetOut (r : Ring) : Repairing r.resetOut := by
  refine ⟨rfl, rfl, fun h0 => ⟨[], rfl, ?_⟩⟩
  rw [h0]
  exact Queue.nil _ _

theorem repairing_resetIn {r : Ring} (h : Repairing r) :
    Repairing r.resetIn ∧ Fifo r.resetIn := by
  have hf : Fifo r.resetIn := by
    refine ⟨[], rfl, ?_⟩
    have ho : r.resetIn.bufferOut = 0 := h.bufferOut
    rw [ho]
    exact Queue.nil _ _
  exact ⟨⟨h.bufferOut, rfl, fun _ => hf⟩, hf⟩

theorem ring_handle (e : Event) (s : State) :
    (handle e s).ring = s.ring ∨ ∃ ch, (handle e s).ring = s.ring.usart1Rx ch := by
  cases e with
  | uartRx ch =>
    rw [handle]
    split
    · exact .inr ⟨ch, rfl⟩
    · exact .inl rfl
  | tick => rw [handle]; split <;> exact .inl rfl
  | deviceState d => rw [handle]; split <;> exact .inl rfl
  | _ => exact .inl rfl

def Mended (k : Nat) (r : Ring) : Prop := Repairing r ∧ (k ≠ 0 → Fifo r)

theorem mended_usart1Rx {k : Nat} (r : Ring) (ch : UInt8) (h : Mended k r) :
    Mended k (r.usart1Rx ch) :=
  ⟨repairing_usart1Rx r ch h.1, fun hk => fifo_usart1Rx r ch (h.2 hk)⟩

/-- Properties of the states before the second loop, by the turns that the
first one has taken and by what is known of the ring, which the start-up of a
session carries along. -/
structure StartUp (A G : State → Prop) (B : Nat → (Ring → Prop) → State → Prop) : Prop where
  stable {k : Nat} {R : Ring → Prop} : (∀ r ch, R r → R (r.usart1Rx ch)) → Stable handle A (B k R)
  guarantee {k : Nat} {R : Ring → Prop} {s : State} : B k R s → G s
  ring {k : Nat} {R : Ring → Prop} {s : State} : B k R s → R s.ring
  setRing {k : Nat} {R R' : Ring → Prop} {s : State} (f : Ring → Ring) :
    B k R s → R' (f s.ring) → B k R' { s with ring := f s.ring }
  turn {k : Nat} {R : Ring → Prop} {s : State} :
    B k R s → B (k + 1) R { s with core := observe .espWait s.core }
  timeout {k : Nat} {R : Ring → Prop} {s : State} (n : UInt8) : B k R s →
    B k R { s with timer := { s.timer with timeout := n, armed := n, elapsed := 0 } }
  pins {k : Nat} {R : Ring → Prop} {s : State} (f : Pins → Pins) :
    B k R s → B k R { s with core.pins := f s.core.pins }

section StartUp

variable {A G : State → Prop} {B : Nat → (Ring → Prop) → State → Prop} (h : StartUp A G B)
include h

theorem StartUp.know {k : Nat} {R R' : Ring → Prop} {s : State} (hs : B k R s) (hr : R' s.ring) :
    B k R' s :=
  h.setRing id hs hr

/-- However `buffer_in` stood, one turn leaves a ring that holds what was
accepted since it was last cleared. -/
theorem StartUp.espWaitTurn_spec (k : Nat) :
    Triple handle A G (B k Repairing) espWaitTurn (fun _ => B (k + 1) (Mended (k + 1))) := by
  have hrepairing (k : Nat) : Stable handle A (B k Repairing) := h.stable repairing_usart1Rx
  have hmended : Stable handle A (B (k + 1) (Mended (k + 1))) := h.stable mended_usart1Rx
  have htested (b : Bool) : Stable handle A
      (B (k + 1) fun r => Repairing r ∧ (b = false → Fifo r)) :=
    h.stable fun r ch hr => ⟨repairing_usart1Rx r ch hr.1, fun hb => fifo_usart1Rx r ch (hr.2 hb)⟩
  apply Triple.bind (R := fun _ => B (k + 1) Repairing)
  · exact .act _ (hrepairing k) (fun _ => hrepairing (k + 1)) (fun _ _ => h.guarantee)
      (fun _ _ _ => h.guarantee) fun s _ hs _ => h.turn hs
  intro _
  apply Triple.bind (R := fun b => B (k + 1) fun r => Repairing r ∧ (b = false → Fifo r))
  · refine .act _ (hrepairing (k + 1)) htested (fun _ _ => h.guarantee)
      (fun _ _ _ => h.guarantee) ?_
    intro s _ hs _
    refine h.know hs ⟨h.ring hs, fun hb => (h.ring hs).fifo ?_⟩
    exact not_not.mp (of_decide_eq_false hb)
  intro b
  refine Triple.ite (fun _ => ?_) fun hb => ?_
  · apply Triple.bind (R := fun _ => B (k + 1) (Mended (k + 1)))
    · refine .act _ (htested b) (fun _ => hmended) (fun _ _ => h.guarantee)
        (fun _ _ _ => h.guarantee) ?_
      intro s _ hs _
      obtain ⟨hring, hfifo⟩ := repairing_resetIn (h.ring hs).1
      exact h.setRing Ring.resetIn hs ⟨hring, fun _ => hfifo⟩
    intro _
    exact .act _ hmended (fun _ => hmended) (fun _ _ => h.guarantee) (fun _ _ _ => h.guarantee)
      fun s _ hs _ => h.timeout _ hs
  · rw [Bool.not_eq_true] at hb
    exact .ret () hmended (fun _ _ => h.guarantee) fun s _ hs =>
      h.know hs ⟨(h.ring hs).1, fun _ => (h.ring hs).2 hb⟩

theorem StartUp.stable_mended : Stable handle A fun s => ∃ k, B k (Mended k) s :=
  fun e s ha hn hs => hs.imp fun _ hb => h.stable mended_usart1Rx e s ha hn hb

theorem StartUp.keeps {α : Type} {p : Fw α} (hp : ∀ k, Keeps (B k (Mended k)) p) :
    Triple handle A G (fun s => ∃ k, B k (Mended k) s) p fun _ s => ∃ k, B k (Mended k) s := by
  apply Triple.exists
  intro k
  have hkeep := Triple.of_keeps (h.stable mended_usart1Rx) p (hp k)
  exact (hkeep.guarantee fun _ => h.guarantee).post fun _ _ hs => ⟨k, hs⟩

theorem StartUp.resetEsp_spec :
    Triple handle A G (fun s => ∃ k, B k (Mended k) s) (resetEsp true)
      fun _ s => ∃ k, B k (Mended k) s :=
  h.keeps fun _ => Built.keeps (built_resetEsp (fun f => built_modify fun _ hs => h.pins f hs) true)

theorem StartUp.setTimeout_spec (n : UInt8) :
    Triple handle A G (fun s => ∃ k, B k (Mended k) s) (setTimeout n)
      fun _ s => ∃ k, B k (Mended k) s :=
  h.keeps fun _ _ hs => h.timeout n hs

theorem StartUp.waitLoop_spec :
    Triple handle A G (fun s => ∃ k, B k (Mended k) s) (.whileDo timeoutRunning espWaitTurn)
      fun _ s => ∃ k, B k (Mended k) s := by
  have hguarantee (s : State) (_ : A s) (hs : ∃ k, B k (Mended k) s) : G s :=
    hs.elim fun _ => h.guarantee
  refine .whileDo (R := fun _ s => ∃ k, B k (Mended k) s) h.stable_mended h.stable_mended hguarantee
    hguarantee (h.keeps fun _ => keeps_read _ _) ?_
  apply Triple.exists
  intro k
  exact ((h.espWaitTurn_spec k).pre fun _ hs => h.know hs (h.ring hs).1).post fun _ _ hs =>
    ⟨k + 1, hs⟩

end StartUp

end Adelino.RingQueue
