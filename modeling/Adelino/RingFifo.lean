import Adelino.RingQueue

namespace Adelino.RingFifo

open Adelino.Program Adelino.Logic Adelino.Calls Adelino.Endpoint Adelino.Uart Adelino.Machine
open Adelino.UsbBytes Adelino.Streams Adelino.Avr109 Adelino.Esp8266 Adelino.Main Adelino.Frame
open Adelino.Tasks Adelino.Circular Adelino.RingQueue

/-- `ch = buffer [buffer_out++]` with the increment before the read. -/
def ringTakeLate : Fw UInt8 := do
  let slot ← .act fun s =>
    (s.ring.bufferOut, { s with ring := s.ring.advance (s.ring.buffer s.ring.bufferOut) })
  .read fun s => s.ring.buffer slot

/-- The two orders in which the consumer can read and increment. -/
inductive Takes : Fw UInt8 → Prop
  | readFirst : Takes ringTake
  | incrementFirst : Takes ringTakeLate

/-- `buffer_in = buffer_out = 0` -/
def ringReset : Fw Unit := do
  onRing Ring.resetOut
  onRing Ring.resetIn

theorem stable_ring {A : State → Prop} {P : List Obs → Ring → Prop}
    (hP : ∀ t r ch, P t r → P t (r.usart1Rx ch)) :
    Stable handle A fun s => P s.core.trace s.ring := by
  intro e s _ _ hs
  rw [core_handle]
  obtain hr | ⟨ch, hr⟩ := ring_handle e s
  · rw [hr]
    exact hs
  · rw [hr]
    exact hP _ _ ch hs

/-- A consumer that found `ch :: pending` in the ring has yet to increment
`buffer_out`. -/
structure Reading (r₀ : Ring) (ch : UInt8) (pending : List UInt8) (r : Ring) : Prop where
  holds : ∃ more, Holds r (ch :: (pending ++ more))
  taken : r.taken = r₀.taken
  bufferOut : r.bufferOut = r₀.bufferOut

/-- It has done so, and the slot of `ch` is the unused one. -/
structure Released (r₀ : Ring) (ch : UInt8) (pending : List UInt8) (r : Ring) : Prop where
  holds : ∃ more, Holds r (pending ++ more)
  taken : r.taken = r₀.taken ++ [ch]
  bufferOut : r.bufferOut = r₀.bufferOut + 1
  slot : r.buffer r₀.bufferOut = ch

section Take

variable {r₀ r : Ring} {ch : UInt8} {pending : List UInt8}

theorem Reading.slot (h : Reading r₀ ch pending r) : r.buffer r₀.bufferOut = ch := by
  obtain ⟨more, hm⟩ := h.holds
  rw [← h.bufferOut]
  exact hm.2.pop.1

theorem slot_usart1Rx (b : UInt8) {i : UInt8} (hi : r.bufferOut = i + 1) :
    (r.usart1Rx b).buffer i = r.buffer i := by
  unfold Ring.usart1Rx
  dsimp only
  split
  · next hne =>
    refine Function.update_of_ne (fun he => hne ?_) _ _
    rw [hi, he]
  · rfl

theorem holds_more_usart1Rx {l : List UInt8} (h : ∃ more, Holds r (l ++ more)) (b : UInt8) :
    ∃ more, Holds (r.usart1Rx b) (l ++ more) := by
  obtain ⟨more, h⟩ := h
  obtain h | h := holds_usart1Rx h b
  · exact ⟨more, h⟩
  · exact ⟨more ++ [b], by rwa [← List.append_assoc]⟩

theorem reading_usart1Rx (b : UInt8) (h : Reading r₀ ch pending r) :
    Reading r₀ ch pending (r.usart1Rx b) :=
  ⟨holds_more_usart1Rx (l := ch :: pending) h.holds b, (taken_usart1Rx r b).trans h.taken,
    (bufferOut_usart1Rx r b).trans h.bufferOut⟩

theorem released_usart1Rx (b : UInt8) (h : Released r₀ ch pending r) :
    Released r₀ ch pending (r.usart1Rx b) :=
  ⟨holds_more_usart1Rx h.holds b, (taken_usart1Rx r b).trans h.taken,
    (bufferOut_usart1Rx r b).trans h.bufferOut, (slot_usart1Rx b h.bufferOut).trans h.slot⟩

theorem released_advance (h : Reading r₀ ch pending r) : Released r₀ ch pending (r.advance ch) := by
  obtain ⟨more, hm⟩ := h.holds
  refine ⟨⟨more, ?_, hm.2.pop.2⟩, ?_, ?_, h.slot⟩
  · simp [Ring.advance, hm.1]
  · exact congrArg (· ++ [ch]) h.taken
  · exact congrArg (· + 1) h.bufferOut

theorem take_spec {A : State → Prop} {take : Fw UInt8} (ht : Takes take) (t : List Obs) :
    Triple handle A
      (fun s => s.core.trace = t ∧ s.ring.buffer r₀.bufferOut = ch ∧ Fifo s.ring)
      (fun s => s.core.trace = t ∧ Reading r₀ ch pending s.ring) take
      (fun b s => b = ch ∧ s.core.trace = t ∧ Released r₀ ch pending s.ring) := by
  have hreading : Stable handle A fun s => s.core.trace = t ∧ Reading r₀ ch pending s.ring :=
    stable_ring (P := fun u r => u = t ∧ Reading r₀ ch pending r)
      fun _ _ b h => ⟨h.1, reading_usart1Rx b h.2⟩
  have hreleased : Stable handle A fun s => s.core.trace = t ∧ Released r₀ ch pending s.ring :=
    stable_ring (P := fun u r => u = t ∧ Released r₀ ch pending r)
      fun _ _ b h => ⟨h.1, released_usart1Rx b h.2⟩
  have hfifo (s : State) (h : s.core.trace = t ∧ Reading r₀ ch pending s.ring) :
      s.core.trace = t ∧ s.ring.buffer r₀.bufferOut = ch ∧ Fifo s.ring :=
    ⟨h.1, h.2.slot, h.2.holds.elim fun _ hm => ⟨_, hm⟩⟩
  have hfifo' (s : State) (h : s.core.trace = t ∧ Released r₀ ch pending s.ring) :
      s.core.trace = t ∧ s.ring.buffer r₀.bufferOut = ch ∧ Fifo s.ring :=
    ⟨h.1, h.2.slot, h.2.holds.elim fun _ hm => ⟨_, hm⟩⟩
  cases ht with
  | readFirst =>
    -- until the increment the slot still belongs to the queue
    apply Triple.bind (R := fun b s => b = ch ∧ s.core.trace = t ∧ Reading r₀ ch pending s.ring)
    · refine .act _ hreading (fun b e s ha hn h => ⟨h.1, hreading e s ha hn h.2⟩)
        (fun s _ => hfifo s) (fun _ s _ h => hfifo s h.2) ?_
      intro s _ hs _
      refine ⟨?_, hs⟩
      dsimp only
      rw [hs.2.bufferOut]
      exact hs.2.slot
    intro b
    apply Triple.of_pure
    rintro rfl
    apply Triple.bind (R := fun _ s => s.core.trace = t ∧ Released r₀ b pending s.ring)
    · exact .act _ hreading (fun _ => hreleased) (fun s _ => hfifo s) (fun _ s _ => hfifo' s)
        fun s _ hs _ => ⟨hs.1, released_advance hs.2⟩
    intro _
    exact .ret b (fun e s ha hn h => ⟨h.1, hreleased e s ha hn h.2⟩) (fun s _ h => hfifo' s h.2)
      fun _ _ hs => ⟨rfl, hs⟩
  | incrementFirst =>
    -- afterwards it is the one slot that a full ring leaves free
    apply Triple.bind
      (R := fun slot s => slot = r₀.bufferOut ∧ s.core.trace = t ∧ Released r₀ ch pending s.ring)
    · refine .act _ hreading (fun b e s ha hn h => ⟨h.1, hreleased e s ha hn h.2⟩)
        (fun s _ => hfifo s) (fun _ s _ h => hfifo' s h.2) ?_
      intro s _ hs _
      have hslot : s.ring.buffer s.ring.bufferOut = ch := by
        rw [hs.2.bufferOut]
        exact hs.2.slot
      refine ⟨hs.2.bufferOut, hs.1, ?_⟩
      dsimp only
      rw [hslot]
      exact released_advance hs.2
    intro slot
    apply Triple.of_pure
    rintro rfl
    exact .act _ hreleased (fun b e s ha hn h => ⟨h.1, hreleased e s ha hn h.2⟩)
      (fun s _ => hfifo' s) (fun _ s _ h => hfifo' s h.2) fun s _ hs _ => ⟨hs.2.slot, hs⟩

end Take

/-- Whether a wait loop has taken a turn since a session last entered its
second loop. -/
def waited : List Obs → Bool
  | [] => false
  | .espWait :: _ => true
  | .espLoop :: _ => false
  | _ :: t => waited t

/-- Every session has taken a turn of its wait loop before it entered its
second loop. -/
def timely : List Obs → Bool
  | [] => true
  | .espLoop :: t => waited t && timely t
  | _ :: t => timely t

/-- The runs in which the sixty ticks of a wait loop are not all handled
between the assignment of `Timeout` and its first test. -/
def Timely (s : State) : Prop := timely s.core.trace = true

instance : DecidablePred Timely := fun _ => inferInstanceAs (Decidable (_ = _))

structure Queueing (s : State) : Prop where
  waited : waited s.core.trace = false
  fifo : Fifo s.ring

section Queueing

variable {A : State → Prop} {take : Fw UInt8}

theorem stable_queueing : Stable handle A Queueing := by
  have hstable : Stable handle A fun s => RingFifo.waited s.core.trace = false ∧ Fifo s.ring :=
    stable_ring (P := fun t r => RingFifo.waited t = false ∧ Fifo r)
      fun _ r ch h => ⟨h.1, fifo_usart1Rx r ch h.2⟩
  intro e s ha hn hs
  obtain ⟨hw, hf⟩ := hstable e s ha hn ⟨hs.waited, hs.fifo⟩
  exact ⟨hw, hf⟩

theorem usbFree_queueing : UsbFree Queueing := fun _ _ _ _ _ hs => ⟨hs.waited, hs.fifo⟩

theorem Keeps.queueing {α : Type} {p : Fw α} (h : Keeps Queueing p) :
    Triple handle A Queueing Queueing p fun _ => Queueing :=
  .of_keeps stable_queueing p h

def Ready (s : State) : Prop := Queueing s ∧ ∃ ch, Front ch s.ring

theorem stable_ready : Stable handle A Ready := by
  intro e s ha hn hs
  refine ⟨stable_queueing e s ha hn hs.1, ?_⟩
  obtain ⟨ch, hnext⟩ := hs.2
  obtain hr | ⟨b, hr⟩ := ring_handle e s
  · exact ⟨ch, by rwa [hr]⟩
  · exact ⟨ch, by rw [hr]; exact front_usart1Rx s.ring b hnext⟩

theorem nonempty_spec :
    Triple handle A Queueing Queueing (test fun s => s.ring.bufferIn ≠ s.ring.bufferOut)
      (fun b s => Queueing s ∧ (b = true → Ready s)) := by
  refine .act _ stable_queueing
    (fun b e s ha hn h =>
      ⟨stable_queueing e s ha hn h.1, fun hb => stable_ready e s ha hn (h.2 hb)⟩)
    (fun _ _ hs => hs) (fun _ _ _ hs => hs.1) ?_
  intro s _ hs _
  refine ⟨hs, fun hb => ⟨hs, exists_next_of_fifo hs.fifo ?_⟩⟩
  exact of_decide_eq_true hb

theorem take_queueing (ht : Takes take) :
    Triple handle A Queueing Ready take fun _ => Queueing := by
  rintro s ha ⟨hs, ch, pending, hnext⟩ d hd
  have hreading : Reading s.ring ch pending s.ring :=
    ⟨⟨[], by rwa [List.append_nil]⟩, rfl, rfl⟩
  obtain ⟨hg, hq⟩ := take_spec ht s.core.trace s ha ⟨rfl, hreading⟩ d hd
  refine ⟨⟨hg.1 ▸ hs.waited, hg.2.2⟩, fun b hb => ?_⟩
  obtain ⟨-, htrace, hreleased⟩ := hq b hb
  exact ⟨htrace ▸ hs.waited, hreleased.holds.elim fun _ hm => ⟨_, hm⟩⟩

theorem drain_queueing (ht : Takes take) :
    Triple handle A Queueing Queueing (drainRingWith take) fun _ => Queueing := by
  refine Triple.post (Q := fun _ s => Queueing s ∧ (false = true → Ready s)) ?_ fun _ _ hs => hs.1
  refine Triple.whileDo (R := fun b s => Queueing s ∧ (b = true → Ready s)) stable_queueing
    (fun e s ha hn h => ⟨stable_queueing e s ha hn h.1, fun hb => stable_ready e s ha hn (h.2 hb)⟩)
    (fun _ _ hs => hs) (fun _ _ hs => hs.1) nonempty_spec ?_
  apply Triple.bind ((take_queueing ht).pre fun _ hs => hs.2 rfl)
  intro ch
  exact Keeps.queueing (keeps_usbWriteByte usbFree_queueing ch)

theorem espToUsb_queueing (ht : Takes take) :
    Triple handle A Queueing Queueing (espToUsbWith usbTask take) fun _ => Queueing := by
  apply Triple.bind nonempty_spec
  intro b
  refine Triple.ite (fun hb => ?_) fun _ => ?_
  · apply Triple.bind ((take_queueing ht).pre fun _ hs => hs.2 hb)
    intro ch
    apply Triple.bind (Keeps.queueing (keeps_usbWriteByte usbFree_queueing ch))
    intro _
    exact Keeps.queueing (keeps_pure _ _)
  · exact (Keeps.queueing (keeps_pure _ _)).pre fun _ hs => hs.1

theorem espTurn_queueing (ht : Takes take) :
    Triple handle A Queueing Queueing (espTurnWith usbTask take) fun _ => Queueing := by
  refine Triple.bind (Keeps.queueing fun _ hs => ⟨hs.waited, hs.fifo⟩) fun _ => ?_
  apply Triple.bind (espToUsb_queueing ht)
  intro ch
  refine Triple.bind
    (Keeps.queueing (keeps_when (keeps_bind (keeps_usbFlush usbFree_queueing) fun _ => ?_)))
    fun _ => ?_
  · exact fun _ hs => ⟨hs.waited, hs.fifo⟩
  · exact Keeps.queueing (Built.keeps (built_usbToEsp usbFree_queueing.steps
      fun _ _ hs => ⟨hs.waited, hs.fifo⟩))

end Queueing

section Session

variable {t₀ : List Obs} {take : Fw UInt8}

/-- `k` turns of the wait loop lie behind a session that was begun at `t₀`. -/
structure Turned (t₀ : List Obs) (k : Nat) (R : Ring → Prop) (s : State) : Prop where
  trace : s.core.trace = .replicate k .espWait ++ t₀
  ring : R s.ring

theorem stable_turned {A : State → Prop} {k : Nat} {R : Ring → Prop}
    (hR : ∀ r ch, R r → R (r.usart1Rx ch)) : Stable handle A (Turned t₀ k R) := by
  have hstable : Stable handle A fun s => s.core.trace = .replicate k .espWait ++ t₀ ∧ R s.ring :=
    stable_ring (P := fun t r => t = .replicate k .espWait ++ t₀ ∧ R r)
      fun _ r ch h => ⟨h.1, hR r ch h.2⟩
  intro e s ha hn hs
  obtain ⟨ht, hr⟩ := hstable e s ha hn ⟨hs.trace, hs.ring⟩
  exact ⟨ht, hr⟩

def StartedOr (t₀ : List Obs) (s : State) : Prop :=
  s.core.trace.count .espLoop = t₀.count .espLoop ∨ Fifo s.ring

theorem Turned.started {k : Nat} {R : Ring → Prop} {s : State} (h : Turned t₀ k R s) :
    StartedOr t₀ s := by
  left
  rw [h.trace, List.count_append, List.count_replicate]
  simp

theorem startUp_turned : StartUp Timely (StartedOr t₀) (Turned t₀) where
  stable hR := stable_turned hR
  guarantee := Turned.started
  ring h := h.ring
  setRing _ h hr := ⟨h.trace, hr⟩
  turn h := ⟨congrArg _ h.trace, h.ring⟩
  timeout _ h := ⟨h.trace, h.ring⟩
  pins _ h := ⟨h.trace, h.ring⟩

def InStartUp (t₀ : List Obs) (s : State) : Prop := ∃ k, Turned t₀ k (Mended k) s

theorem InStartUp.started {s : State} (h : InStartUp t₀ s) : StartedOr t₀ s :=
  h.elim fun _ => Turned.started

theorem waited_of_replicate {k : Nat} (h : waited (.replicate k .espWait ++ t₀) = true)
    (h₀ : waited t₀ = false) : k ≠ 0 := by
  rintro rfl
  rw [List.replicate_zero, List.nil_append, h₀] at h
  cases h

/-- Here the assumption on the run speaks: the wait loop has taken a turn. -/
theorem enterLoop_queueing (h₀ : waited t₀ = false) :
    Triple handle Timely (StartedOr t₀) (InStartUp t₀) (note .espLoop) fun _ => Queueing := by
  refine .act _ startUp_turned.stable_mended (fun _ => stable_queueing)
    (fun _ _ => InStartUp.started) (fun _ _ _ hs => .inr hs.fifo) ?_
  rintro s - ⟨k, hs⟩ ha
  have hw : waited s.core.trace = true := (Bool.and_eq_true_iff.mp ha).1
  rw [hs.trace] at hw
  exact ⟨rfl, hs.ring.2 (waited_of_replicate hw h₀)⟩

theorem session_spec (ht : Takes take) (h₀ : waited t₀ = false) :
    Triple handle Timely (StartedOr t₀) (fun s => s.core.trace = t₀) (espSessionWith usbTask take)
      fun _ => Queueing := by
  apply Triple.bind (R := fun _ => InStartUp t₀)
  · refine .act _ (stable_core fun c => c.trace = t₀) (fun _ => startUp_turned.stable_mended) ?_
      (fun _ _ _ => InStartUp.started) ?_
    · exact fun s _ hs => .inl (congrArg _ hs)
    · exact fun s _ hs _ => ⟨0, hs, repairing_resetOut s.ring, fun h => absurd rfl h⟩
  intro _
  apply Triple.bind startUp_turned.resetEsp_spec
  intro _
  apply Triple.bind (startUp_turned.setTimeout_spec _)
  intro _
  apply Triple.bind startUp_turned.waitLoop_spec
  intro _
  refine Triple.bind (startUp_turned.keeps fun _ _ hs => ⟨hs.trace, hs.ring⟩) fun _ => ?_
  apply Triple.bind (enterLoop_queueing h₀)
  intro _
  refine Triple.guarantee ?_ fun s (hs : Queueing s) => .inr hs.fifo
  exact Triple.whileDo (R := fun _ => Queueing) stable_queueing stable_queueing (fun _ _ hs => hs)
    (fun _ _ hs => hs) (Keeps.queueing (keeps_read _ _)) (espTurn_queueing ht)

end Session

inductive RingCalls : Procedures State
  | drain {take : Fw UInt8} (h : Takes take) : RingCalls Unit (drainRingWith take)
  | session {take : Fw UInt8} (h : Takes take) : RingCalls Unit (espSessionWith usbTask take)
  | reset : RingCalls Unit ringReset

structure OffRing (s t : State) : Prop where
  ring : t.ring = s.ring
  waited : waited t.core.trace = waited s.core.trace

abbrev Client {α : Type} (p : Fw α) : Prop := Built OffRing RingCalls p

theorem controlSteps_elsewhere : ControlSteps OffRing where
  refl _ := ⟨rfl, rfl⟩
  usb _ _ _ _ _ := ⟨rfl, rfl⟩
  leds _ _ _ _ := ⟨rfl, rfl⟩
  ledControl _ _ := ⟨rfl, rfl⟩
  udr _ _ := ⟨rfl, rfl⟩
  timeout _ _ := ⟨rfl, rfl⟩
  ledsEnabled _ _ := ⟨rfl, rfl⟩

theorem client_main (r : Reset) : Client (main r) := by
  have h : ControlSteps OffRing := controlSteps_elsewhere
  have hpins (f : Pins → Pins) : Client (onPins f) := built_modify fun _ => ⟨rfl, rfl⟩
  have hcore {f : Core → Core} (hf : ∀ c, waited (f c).trace = waited c.trace) :
      Client (onCore f) := built_modify fun s => ⟨rfl, hf s.core⟩
  have hreset : Client (resetEspAndWait false) :=
    built_resetEspAndWait h (built_resetEsp hpins false) (.call .reset)
  have havr : Client avr109Programmer := by
    refine built_session h.toUsbSteps (fun f hf s => ⟨rfl, ?_⟩)
      fun n _ => built_setTimeout h.timeout n
    cases hf <;> rfl
  have hdrain : Client drainRing := .call (.drain .readFirst)
  have hsession : Client espSession := .call (.session .readFirst)
  have htasks : Client runTasks :=
    built_runTasks h.toTaskSteps hdrain (built_bind hsession fun _ => hreset) havr
  have hsetup : Client setupHardware := by
    iterate 4
      refine built_bind (hpins _) fun _ => ?_
    refine built_bind (hcore fun _ => rfl) fun _ => ?_
    exact built_bind (hcore fun _ => rfl) fun _ => hcore fun _ => rfl
  refine built_main h.refl htasks hsetup (fun available => ?_) (hcore fun _ => rfl) r
  refine built_classifyBoot h (fun ticks => ?_) hreset (fun _ => hcore fun _ => rfl) available
  exact built_checkReset h.refl htasks (built_setTimeout h.timeout ticks)
    (.act fun _ => ⟨rfl, rfl⟩) fun _ => hcore fun _ => rfl

/-- In a run that has come to `d`, a call of `f` that was begun in `s` is under
way. -/
def Under (f : Fw Unit) (s : State) (d : Fw Unit × State) : Prop :=
  ∃ q, Runs handle Timely (f, s) (q, d.2) ∧ Active q d.1

/-- What was accepted since a reset is what the ring holds. -/
def SinceReset (r : Ring) : Prop := r.taken = [] ∧ Holds r r.accepted

theorem sinceReset_usart1Rx (r : Ring) (ch : UInt8) (h : SinceReset r) :
    SinceReset (r.usart1Rx ch) := by
  refine ⟨(taken_usart1Rx r ch).trans h.1, ?_⟩
  have hrx := usart1Rx_eq h.2 ch
  split at hrx
  · rw [hrx]
    exact h.2
  · have haccepted := hrx.1
    rw [taken_usart1Rx, h.1, List.nil_append] at haccepted
    rw [haccepted]
    exact hrx

theorem sinceReset_resetIn {r : Ring} (h : Repairing r) : SinceReset r.resetIn := by
  refine ⟨rfl, rfl, ?_⟩
  have ho : r.resetIn.bufferOut = 0 := h.bufferOut
  rw [ho]
  exact Queue.nil _ _

theorem reset_spec {A : State → Prop} (t : List Obs) :
    Triple handle A (fun _ => True) (fun s => s.core.trace = t) ringReset
      fun _ s => s.core.trace = t ∧ SinceReset s.ring := by
  have hrepairing : Stable handle A fun s => s.core.trace = t ∧ Repairing s.ring :=
    stable_ring (P := fun u r => u = t ∧ Repairing r)
      fun _ r ch h => ⟨h.1, repairing_usart1Rx r ch h.2⟩
  have hfresh : Stable handle A fun s => s.core.trace = t ∧ SinceReset s.ring :=
    stable_ring (P := fun u r => u = t ∧ SinceReset r) fun _ r ch h =>
      ⟨h.1, sinceReset_usart1Rx r ch h.2⟩
  apply Triple.bind (R := fun _ s => s.core.trace = t ∧ Repairing s.ring)
  · exact .access _ (stable_core fun c => c.trace = t) (fun _ => hrepairing)
      fun s _ hs _ => ⟨hs, repairing_resetOut s.ring⟩
  intro _
  exact .access _ hrepairing (fun _ => hfresh)
    fun s _ hs _ => ⟨hs.1, sinceReset_resetIn hs.2⟩

/-- Where a run is with the ring: it is a queue, or the start-up of a session
or a reset is under way. -/
def Queued (d : Fw Unit × State) : Prop :=
  Fifo d.2.ring ∨
    (∃ take s, Takes take ∧ Under (espSessionWith usbTask take) s d ∧
      d.2.core.trace.count .espLoop = s.core.trace.count .espLoop) ∨
    ∃ s, Under ringReset s d

theorem client_queued {p : Fw Unit} (hp : Client p) {s : State} (hs : Queueing s) (ha : Timely s)
    {d : Fw Unit × State} (h : Runs handle Timely (p, s) d) : Queued d := by
  have hdoing := hp.doing (I := Queueing) (W := fun _ _ _ => True) stable_queueing
    (fun t u (htu : OffRing t u) _ ht => ⟨htu.waited.trans ht.waited, htu.ring ▸ ht.fifo⟩)
    (fun β f t a u hf ha ht _ hr => by
      cases hf with
      | drain htake => exact (drain_queueing htake t ha ht _ hr).2 a rfl
      | session htake => exact (session_spec htake ht.waited t ha rfl _ hr).2 a rfl
      | reset =>
        obtain ⟨htrace, hfresh⟩ := (reset_spec t.core.trace t ha rfl _ hr).2 a rfl
        exact ⟨htrace ▸ ht.waited, _, hfresh.2⟩)
    ha hs (fun _ _ _ _ _ _ _ => trivial) h
  obtain hd | ⟨β, f, q, t, hf, ha, ht, -, hrun, hactive⟩ := hdoing.elim
  · exact .inl hd.fifo
  · cases hf with
    | drain htake => exact .inl (drain_queueing htake t ha ht _ hrun).1.fifo
    | session htake =>
      obtain hstart | hfifo := (session_spec htake ht.waited t ha rfl _ hrun).1
      · exact .inr (.inl ⟨_, t, htake, ⟨q, hrun, hactive⟩, hstart⟩)
      · exact .inl hfifo
    | reset => exact .inr (.inr ⟨t, q, hrun, hactive⟩)

/-- The ring refines a queue of at most 255 bytes: in every run of the
firmware, and of any other code that uses the ring in the same places and in
either order, it is one but for the start-up of a session and a reset; the
interrupt appends to it or, when 255 bytes are pending, leaves it alone; its
indices are equal when it is empty; a consumer gets the oldest byte out of a
slot that is not overwritten; and a reset leaves what was accepted since. -/
theorem ring_refines_fifo :
    (∀ r m packets button d, Runs handle Timely (main r, State.reset m packets button) d →
      Queued d) ∧
    (∀ (p : Fw Unit) s d, Client p → Queueing s → Timely s → Runs handle Timely (p, s) d →
      Queued d) ∧
    (∀ r pending ch, Holds r pending → pending.length ≤ 255 ∧
      (r.bufferIn = r.bufferOut ↔ pending = []) ∧
      if pending.length = 255 then r.usart1Rx ch = r
      else Holds (r.usart1Rx ch) (pending ++ [ch])) ∧
    (∀ take, Takes take → ∀ t ch pending, Holds t.ring (ch :: pending) →
      ∀ d, Runs handle (fun _ => True) (take, t) d → d.2.ring.buffer t.ring.bufferOut = ch ∧
        ∀ b, d.1 = .ret b → b = ch ∧ Released t.ring ch pending d.2.ring) ∧
    ∀ t s, Runs handle (fun _ => True) (ringReset, t) (.ret (), s) →
      s.ring.taken = [] ∧ Holds s.ring s.ring.accepted := by
  refine ⟨?_, ?_, ?_, ?_, ?_⟩
  · intro r m packets button d h
    have hidle : Queueing (State.reset m packets button) := ⟨rfl, [], rfl, Queue.nil _ _⟩
    exact client_queued (client_main r) hidle rfl h
  · exact fun p s d hp hs ha h => client_queued hp hs ha h
  · intro r pending ch h
    exact ⟨Nat.le_of_lt_succ h.2.length_lt, h.2.eq_iff, usart1Rx_eq h ch⟩
  · intro take htake t ch pending h d hd
    have hreading : Reading t.ring ch pending t.ring :=
      ⟨⟨[], by rwa [List.append_nil]⟩, rfl, rfl⟩
    obtain ⟨hg, hq⟩ := take_spec htake t.core.trace t trivial ⟨rfl, hreading⟩ d hd
    exact ⟨hg.2.1, fun b hb => ⟨(hq b hb).1, (hq b hb).2.2⟩⟩
  · exact fun t s h => ((reset_spec t.core.trace t trivial rfl _ h).2 () rfl).2

end Adelino.RingFifo
