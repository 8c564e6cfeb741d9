import Adelino.Bridge
import Adelino.RingQueue
import Adelino.Lockstep

namespace Adelino.EspBridge

open Adelino.Program Adelino.Logic Adelino.Lockstep Adelino.Calls Adelino.Endpoint Adelino.Uart
  Adelino.Machine
open Adelino.UsbBytes Adelino.Streams Adelino.UsbSpec Adelino.Esp8266 Adelino.Frame Adelino.Tasks
open Adelino.RingQueue Adelino.Bridge

theorem line_handle (e : Event) (s : State) : (handle e s).line = s.line := by
  cases e with
  | uartRx ch => rw [handle]; split <;> rfl
  | tick => rw [handle]; split <;> rfl
  | deviceState d => rw [handle]; split <;> rfl
  | _ => rfl

def flushes (t : List Obs) : Nat := t.countP fun o => o matches .slipFlushed _

/-- Flushes at the end of a frame that left bytes in the bank. -/
def incomplete (t : List Obs) : Nat :=
  t.countP fun o => match o with
    | .slipFlushed waiting => waiting ≠ 0
    | _ => false

/-- The runs of a session that started in `s₀`: the host takes its packets in
time, and the second loop is not entered before the body of the first one has
run. -/
def SessionRun (s₀ s : State) : Prop :=
  Waits s ∧ (s₀.core.trace.count .espLoop < s.core.trace.count .espLoop →
    s₀.core.trace.count .espWait < s.core.trace.count .espWait)

instance (s₀ : State) : DecidablePred (SessionRun s₀) :=
  fun _ => inferInstanceAs (Decidable (_ ∧ _))

/-- The books of a session. All bytes taken from the ring are written but for
those in `hand`, all bytes read from the host go to UDR1 but for those in
`mail`, and all but `late` of the frames that were written are flushed. -/
structure Ledger (v₀ : View) (hand mail : List UInt8) (late : Nat) (v : View) : Prop where
  dropped : v.dropped = v₀.dropped
  written : ∃ bs, v.taken = bs ++ hand ∧ v.written = v₀.written ++ bs ∧
    flushes v.core.trace + late = flushes v₀.core.trace + bs.count slipEnd ∧
    (late ≠ 0 → late = 1 ∧ bs.getLast? = some slipEnd)
  udr : ∃ us, v.core.udr = v₀.core.udr ++ us ∧ v₀.unread = us ++ mail ++ v.unread
  complete : incomplete v.core.trace = incomplete v₀.core.trace

/-- `rts_pulse` was raised by a request that came after the first `n`. -/
structure LineSince (n : Nat) (l : Line) : Prop where
  count : n ≤ l.rtsRequests
  pulse : l.rtsPulse ≠ 0 → n < l.rtsRequests

theorem lineSince_served {n : Nat} (l l' : Line) (h : LineSince n l) (hs : LineServed l l') :
    LineSince n l' := by
  cases hs with
  | idle => exact h
  | request r =>
    unfold eventControlRequest
    split
    · exact h
    · split
      · dsimp only
        split
        · exact ⟨Nat.le_succ_of_le h.count, fun _ => Nat.lt_succ_of_le h.count⟩
        · next hr =>
          rw [not_not] at hr
          refine ⟨h.count, fun hp => h.pulse ?_⟩
          simpa [hr] using hp
      · exact h

/-- What is known between two steps of a session. -/
structure Busy (P : View → Prop) (R : Ring → Prop) (L : Line → Prop) (s : State) : Prop where
  view : P (view s)
  ring : R s.ring
  line : L s.line

theorem stable_busy {A : State → Prop} {P : View → Prop} {R : Ring → Prop} {L : Line → Prop}
    (hR : ∀ r ch, R r → R (r.usart1Rx ch)) : Stable handle A (Busy P R L) := by
  intro e s _ _ h
  refine ⟨?_, ?_, ?_⟩
  · rw [view_handle]
    exact h.view
  · obtain hr | ⟨ch, hr⟩ := ring_handle e s
    · rw [hr]
      exact h.ring
    · rw [hr]
      exact hR _ ch h.ring
  · rw [line_handle]
    exact h.line

section Usb

variable {s₀ : State} {P Q : View → Prop} {R : Ring → Prop} {L : Line → Prop}
  (hR : ∀ r ch, R r → R (r.usart1Rx ch)) (hL : ∀ l l', L l → LineServed l l' → L l')
include hR hL

theorem busy_call (s₀ : State) {α : Type} {p : Fw α} {G : State → Prop} {S : α → State → Prop}
    (h : Triple handle Waits G (fun s => P (view s)) p S)
    (hp : ∀ I : State → Prop, UsbFree I → Keeps I p) :
    Triple handle (SessionRun s₀) (fun s => G s ∧ R s.ring ∧ L s.line) (Busy P R L) p
      (fun a s => S a s ∧ R s.ring ∧ L s.line) := by
  have hstable : Stable handle Waits fun s => R s.ring ∧ L s.line := by
    intro e s ha ha' hs
    have hbusy := stable_busy (P := fun _ => True) hR e s ha ha' ⟨trivial, hs.1, hs.2⟩
    exact ⟨hbusy.ring, hbusy.line⟩
  have hframe : Keeps (fun s => R s.ring ∧ L s.line) p :=
    hp _ fun s u l _ hl hs => ⟨hs.1, hL s.line l hs.2 hl⟩
  apply (h.and (.of_keeps hstable p hframe)).conseq
  · exact fun _ hs => hs.1
  · exact fun _ hs => hs
  · exact fun _ _ hs => ⟨hs.view, hs.ring, hs.line⟩
  · exact fun _ _ hs => hs

theorem busy_send (b : UInt8) (h : ∀ v, P v → Q (v.writeByte b)) :
    Triple handle (SessionRun s₀) (fun s => Busy P R L s ∨ Busy Q R L s) (Busy P R L)
      (usbWriteByte b) (fun _ => Busy Q R L) := by
  have hsend := busy_call hR hL s₀ (send_spec b h) fun _ hI => keeps_usbWriteByte hI b
  apply (hsend.guarantee _).post
  · exact fun _ _ hs => ⟨hs.1, hs.2.1, hs.2.2⟩
  · exact fun _ hs => hs.1.imp (⟨·, hs.2.1, hs.2.2⟩) (⟨·, hs.2.1, hs.2.2⟩)

theorem busy_flush :
    Triple handle (SessionRun s₀) (Busy P R L) (Busy P R L) usbFlush
      (fun _ s => Busy P R L s ∧ s.usb.inBank = []) := by
  have hflush := busy_call (P := P) hR hL s₀ flush_spec fun _ hI => keeps_usbFlush hI
  apply (hflush.guarantee _).post
  · exact fun _ _ hs => ⟨⟨hs.1.1, hs.2.1, hs.2.2⟩, hs.1.2⟩
  · exact fun _ hs => ⟨hs.1, hs.2.1, hs.2.2⟩

theorem busy_poll :
    Triple handle (SessionRun s₀) (Busy P R L) (Busy P R L) usbByteAvailable
      (fun r s => Busy P R L s ∧ (r = true → HasByte s.usb)) := by
  have hpoll := busy_call (P := P) hR hL s₀ poll_spec fun _ hI => keeps_usbByteAvailable hI
  apply (hpoll.guarantee _).post
  · exact fun _ _ hs => ⟨⟨hs.1.1, hs.2.1, hs.2.2⟩, hs.1.2⟩
  · exact fun _ hs => ⟨hs.1, hs.2.1, hs.2.2⟩

omit hL in
theorem busy_read8 {Q : UInt8 → View → Prop}
    (h : ∀ v b rest, v.unread = b :: rest → P v → Q b (v.readByte b rest)) :
    Triple handle (SessionRun s₀) (fun s => Busy P R L s ∨ ∃ b, Busy (Q b) R L s)
      (fun s => Busy P R L s ∧ HasByte s.usb) endpointRead8 (fun b => Busy (Q b) R L) := by
  refine .act _ ?_ (fun b => stable_busy hR) (fun _ _ hs => .inl hs.1)
    (fun b _ _ hs => .inr ⟨b, hs⟩) ?_
  · exact fun e s ha ha' hs => ⟨stable_busy hR e s ha ha' hs.1, steady_hasByte.handle e s hs.2⟩
  · intro s _ hs _
    obtain ⟨rest, hu, hv⟩ := readFrom_of_hasByte s rfl hs.2
    refine ⟨?_, hs.1.ring, hs.1.line⟩
    rw [hv]
    exact h _ _ rest hu hs.1.view

end Usb

/-- What can be seen from outside while the session that started in `s₀`
runs, in each direction and at the frame ends. -/
structure Transparent (s₀ s : State) : Prop where
  dropped : s.usb.dropped = s₀.usb.dropped
  toUsb : ∃ bs, s.usb.written = s₀.usb.written ++ bs ∧ bs <+: s.ring.accepted ∧
    (flushes s.core.trace = flushes s₀.core.trace + bs.count slipEnd ∨
      flushes s.core.trace + 1 = flushes s₀.core.trace + bs.count slipEnd ∧
        bs.getLast? = some slipEnd)
  toEsp : ∃ us, s.core.udr = s₀.core.udr ++ us ∧ us <+: s₀.usb.unread
  complete : incomplete s.core.trace = incomplete s₀.core.trace

theorem transparent_of_ledger {s₀ s : State} {hand mail : List UInt8} {late : Nat}
    (h : Ledger (view s₀) hand mail late (view s)) (hf : Fifo s.ring) : Transparent s₀ s := by
  obtain ⟨bs, ht, hw, hn, hl⟩ := h.written
  obtain ⟨us, hu, hm⟩ := h.udr
  obtain ⟨pending, ha, -⟩ := hf
  refine ⟨h.dropped, ⟨bs, hw, ?_, ?_⟩, ⟨us, hu, ?_⟩, h.complete⟩
  · refine ⟨hand ++ pending, ?_⟩
    rw [ha, show s.ring.taken = bs ++ hand from ht, List.append_assoc]
  · by_cases h0 : late = 0
    · rw [h0] at hn
      exact .inl hn
    · obtain ⟨h1, hlast⟩ := hl h0
      rw [h1] at hn
      exact .inr ⟨hn, hlast⟩
  · refine ⟨mail ++ (view s).unread, ?_⟩
    rw [← List.append_assoc]
    exact hm.symm

section Ledger

variable {v₀ v : View} {late : Nat}

theorem ledger_take (ch : UInt8) (h : Ledger v₀ [] [] 0 v) :
    Ledger v₀ [ch] [] 0 { v with taken := v.taken ++ [ch] } := by
  obtain ⟨bs, ht, hw, hn, hl⟩ := h.written
  refine ⟨h.dropped, ⟨bs, ?_, hw, hn, hl⟩, h.udr, h.complete⟩
  rw [List.append_nil] at ht
  exact congrArg (· ++ [ch]) ht

theorem ledger_write {ch : UInt8} (h : Ledger v₀ [ch] [] 0 v) :
    Ledger v₀ [] [] (if ch = slipEnd then 1 else 0) (v.writeByte ch) := by
  obtain ⟨bs, ht, hw, hn, -⟩ := h.written
  refine ⟨h.dropped, ⟨bs ++ [ch], ?_, ?_, ?_, ?_⟩, h.udr, h.complete⟩
  · rw [List.append_nil]
    exact ht
  · rw [← List.append_assoc, ← hw]
    rfl
  · rw [List.count_append, ← Nat.add_assoc, ← hn]
    simp [View.writeByte, List.count_singleton]
  · intro hlate
    split at hlate
    · next hch => simp [hch]
    · exact absurd rfl hlate

theorem ledger_flushed (h : Ledger v₀ [] [] 1 v) :
    Ledger v₀ [] [] 0 (v.mapCore (observe (.slipFlushed 0))) := by
  obtain ⟨bs, ht, hw, hn, -⟩ := h.written
  refine ⟨h.dropped, ⟨bs, ht, hw, ?_, nofun⟩, h.udr, ?_⟩
  · rw [← hn]
    simp [View.mapCore, observe, flushes]
  · rw [← h.complete]
    simp [View.mapCore, observe, incomplete]

theorem ledger_read {b : UInt8} {rest : List UInt8} (hu : v.unread = b :: rest)
    (h : Ledger v₀ [] [] 0 v) : Ledger v₀ [] [b] 0 (v.readByte b rest) := by
  obtain ⟨us, hw, hm⟩ := h.udr
  refine ⟨h.dropped, h.written, ⟨us, hw, ?_⟩, h.complete⟩
  rw [hm, hu]
  simp [View.readByte]

theorem ledger_deliver {b : UInt8} (h : Ledger v₀ [] [b] 0 v) :
    Ledger v₀ [] [] 0 (v.mapCore fun c => { c with udr := c.udr ++ [b] }) := by
  obtain ⟨us, hw, hm⟩ := h.udr
  refine ⟨h.dropped, h.written, ⟨us ++ [b], ?_, ?_⟩, h.complete⟩
  · rw [← List.append_assoc, ← hw]
    rfl
  · rw [hm]
    simp [View.mapCore]

end Ledger

section Turn

variable {s₀ : State} {n : Nat}

def Booked (s₀ : State) (n : Nat) (hand mail : List UInt8) (late : Nat) : State → Prop :=
  Busy (Ledger (view s₀) hand mail late) Fifo (LineSince n)

theorem stable_booked {A : State → Prop} {hand mail : List UInt8} {late : Nat} :
    Stable handle A (Booked s₀ n hand mail late) :=
  stable_busy fifo_usart1Rx

theorem transparent_of_booked {hand mail : List UInt8} {late : Nat} {s : State}
    (h : Booked s₀ n hand mail late s) : Transparent s₀ s :=
  transparent_of_ledger h.view h.ring

def Forwarding (s₀ : State) (n : Nat) (ch : UInt8) : State → Prop :=
  Busy (Ledger (view s₀) [] [] 0) (Front ch) (LineSince n)

theorem stable_forwarding {A : State → Prop} (ch : UInt8) : Stable handle A (Forwarding s₀ n ch) :=
  stable_busy front_usart1Rx

theorem stable_exists_ready {A : State → Prop} :
    Stable handle A fun s => ∃ ch, Forwarding s₀ n ch s :=
  fun e s ha ha' hs => hs.imp fun ch h => stable_forwarding ch e s ha ha' h

theorem transparent_of_ready {ch : UInt8} {s : State} (h : Forwarding s₀ n ch s) :
    Transparent s₀ s :=
  transparent_of_ledger h.view (fifo_of_next h.ring)

theorem keeps_booked_setTimeout (k : UInt8) :
    Keeps (Booked s₀ n [] [] 0) (setTimeout k) := fun _ hs => ⟨hs.view, hs.ring, hs.line⟩

theorem ringTake_booked :
    Triple handle (SessionRun s₀) (Transparent s₀) (fun s => ∃ ch, Forwarding s₀ n ch s) ringTake
      (fun ch => Booked s₀ n [ch] [] 0) := by
  apply Triple.bind (R := Forwarding s₀ n)
  · refine .act _ stable_exists_ready stable_forwarding
      (fun _ _ hs => hs.elim fun _ => transparent_of_ready) (fun _ _ _ => transparent_of_ready) ?_
    intro s _ hs _
    obtain ⟨ch, hs⟩ := hs
    dsimp only
    rw [buffer_of_next hs.ring]
    exact hs
  intro ch
  apply Triple.bind (R := fun _ => Booked s₀ n [ch] [] 0)
  · refine .act _ (stable_forwarding ch) (fun _ => stable_booked) (fun _ _ => transparent_of_ready)
      (fun _ _ _ => transparent_of_booked) ?_
    exact fun s _ hs _ => ⟨ledger_take ch hs.view, fifo_advance hs.ring, hs.line⟩
  intro _
  exact .ret ch stable_booked (fun _ _ => transparent_of_booked) fun _ _ hs => hs

theorem espToUsb_spec :
    Triple handle (SessionRun s₀) (Transparent s₀) (Booked s₀ n [] [] 0) espToUsb
      (fun ch => Booked s₀ n [] [] (if ch = slipEnd then 1 else 0)) := by
  have htested (r : Bool) : Stable handle (SessionRun s₀) fun s =>
      Booked s₀ n [] [] 0 s ∧ (r = true → ∃ ch, Forwarding s₀ n ch s) :=
    fun e s ha ha' hs =>
      ⟨stable_booked e s ha ha' hs.1, fun hr => stable_exists_ready e s ha ha' (hs.2 hr)⟩
  apply Triple.bind
    (R := fun r s => Booked s₀ n [] [] 0 s ∧ (r = true → ∃ ch, Forwarding s₀ n ch s))
  · refine .act _ stable_booked htested (fun _ _ => transparent_of_booked)
      (fun _ _ _ hs => transparent_of_booked hs.1) ?_
    intro s _ hs _
    refine ⟨hs, fun hr => ?_⟩
    obtain ⟨ch, hn⟩ := exists_next_of_fifo hs.ring (of_decide_eq_true hr)
    exact ⟨ch, hs.view, hn, hs.line⟩
  intro r
  apply Triple.ite
  · intro hr
    apply Triple.bind (ringTake_booked.pre fun s hs => hs.2 hr)
    intro ch
    refine .bind ((busy_send fifo_usart1Rx lineSince_served ch fun v => ledger_write).guarantee ?_)
      fun _ => ?_
    · exact fun s hs => hs.elim transparent_of_booked transparent_of_booked
    exact .ret ch stable_booked (fun _ _ => transparent_of_booked) fun _ _ hs => hs
  · intro _
    exact .ret 0 stable_booked (fun _ _ => transparent_of_booked) fun _ _ hs => hs.1

theorem endFrame_spec :
    Triple handle (SessionRun s₀) (Transparent s₀) (Booked s₀ n [] [] 1)
      (do usbFlush; noteSlipFlushed) (fun _ => Booked s₀ n [] [] 0) := by
  have hflushed :
      Stable handle (SessionRun s₀) fun s => Booked s₀ n [] [] 1 s ∧ s.usb.inBank = [] :=
    fun e s ha ha' hs => ⟨stable_booked e s ha ha' hs.1, steady_empty.handle e s hs.2⟩
  apply Triple.bind
  · exact (busy_flush fifo_usart1Rx lineSince_served).guarantee fun _ => transparent_of_booked
  intro _
  refine .act _ hflushed (fun _ => stable_booked) (fun _ _ hs => transparent_of_booked hs.1)
    (fun _ _ _ => transparent_of_booked) ?_
  intro s _ hs _
  refine ⟨?_, hs.1.ring, hs.1.line⟩
  have h := ledger_flushed hs.1.view
  dsimp only
  rw [hs.2]
  exact h

theorem usbToEsp_spec :
    Triple handle (SessionRun s₀) (Transparent s₀) (Booked s₀ n [] [] 0) usbToEsp
      (fun _ => Booked s₀ n [] [] 0) := by
  have hdone : Triple handle (SessionRun s₀) (Transparent s₀) (Booked s₀ n [] [] 0) (return ())
      (fun _ => Booked s₀ n [] [] 0) :=
    .ret () stable_booked (fun _ _ => transparent_of_booked) fun _ _ hs => hs
  apply Triple.bind (R := fun _ => Booked s₀ n [] [] 0)
  · exact .act _ stable_booked (fun _ => stable_booked) (fun _ _ => transparent_of_booked)
      (fun _ _ _ => transparent_of_booked) fun _ _ hs _ => hs
  intro _
  apply Triple.ite _ fun _ => hdone
  intro _
  apply Triple.bind
    ((busy_poll fifo_usart1Rx lineSince_served).guarantee fun _ => transparent_of_booked)
  intro available
  apply Triple.ite _ fun _ => hdone.pre fun _ hs => hs.1
  intro ha
  refine .bind (((busy_read8 fifo_usart1Rx fun v b rest => ledger_read).guarantee ?_).pre
    fun s hs => ⟨hs.1, hs.2 ha⟩) fun b => ?_
  · exact fun _ hs => hs.elim transparent_of_booked fun ⟨_, h⟩ => transparent_of_booked h
  · refine .act _ stable_booked (fun _ => stable_booked) (fun _ _ => transparent_of_booked)
      (fun _ _ _ => transparent_of_booked) ?_
    exact fun s _ hs _ => ⟨ledger_deliver hs.view, hs.ring, hs.line⟩

theorem espTurn_spec :
    Triple handle (SessionRun s₀) (Transparent s₀) (Booked s₀ n [] [] 0) espTurn
      (fun _ => Booked s₀ n [] [] 0) := by
  apply Triple.bind
  · exact (Triple.of_keeps stable_booked _ (keeps_booked_setTimeout _)).guarantee
      fun _ => transparent_of_booked
  intro _
  apply Triple.bind espToUsb_spec
  intro ch
  apply Triple.bind _ fun _ => usbToEsp_spec
  apply Triple.when
  · intro hc
    rw [if_pos (of_decide_eq_true hc)]
    exact endFrame_spec
  · intro hc
    rw [if_neg (of_decide_eq_false hc)]
    exact .ret () stable_booked (fun _ _ => transparent_of_booked) fun _ _ hs => hs

theorem espLoop_spec :
    Triple handle (SessionRun s₀) (Transparent s₀) (Booked s₀ n [] [] 0) espLoop
      (fun _ s => Booked s₀ n [] [] 0 s ∧ n < s.line.rtsRequests) := by
  have htested (r : Bool) : Stable handle (SessionRun s₀) fun s =>
      Booked s₀ n [] [] 0 s ∧ (r = false → n < s.line.rtsRequests) := by
    intro e s ha ha' hs
    refine ⟨stable_booked e s ha ha' hs.1, ?_⟩
    rw [line_handle]
    exact hs.2
  refine .post (.whileDo
    (R := fun r s => Booked s₀ n [] [] 0 s ∧ (r = false → n < s.line.rtsRequests))
    stable_booked (htested false) (fun _ _ => transparent_of_booked)
    (fun _ _ hs => transparent_of_booked hs.1) ?_ (espTurn_spec.pre fun _ hs => hs.1))
    fun _ _ hs => ⟨hs.1, hs.2 rfl⟩
  refine .act _ stable_booked htested (fun _ _ => transparent_of_booked)
    (fun _ _ _ hs => transparent_of_booked hs.1) ?_
  intro s _ hs _
  exact ⟨hs, fun hr => hs.line.pulse (of_decide_eq_false hr)⟩

end Turn

/-- Nothing has been forwarded, and the body of the first loop has been
entered `k` times. -/
structure Unforwarded (v₀ : View) (k : Nat) (v : View) : Prop where
  dropped : v.dropped = v₀.dropped
  written : v.written = v₀.written
  unread : v.unread = v₀.unread
  udr : v.core.udr = v₀.core.udr
  trace : v.core.trace = .replicate k .espWait ++ v₀.core.trace

section Wait

variable {s₀ : State}

theorem flushes_replicate (k : Nat) (t : List Obs) :
    flushes (.replicate k .espWait ++ t) = flushes t := by
  simp [flushes, List.countP_replicate]

theorem incomplete_replicate (k : Nat) (t : List Obs) :
    incomplete (.replicate k .espWait ++ t) = incomplete t := by
  simp [incomplete, List.countP_replicate]

theorem ledger_of_unforwarded {v₀ v : View} {k : Nat} (h : Unforwarded v₀ k v) (ht : v.taken = []) :
    Ledger v₀ [] [] 0 v := by
  refine ⟨h.dropped, ⟨[], ht, ?_, ?_, nofun⟩, ⟨[], ?_, ?_⟩, ?_⟩
  · rw [h.written, List.append_nil]
  · rw [h.trace, flushes_replicate]
    rfl
  · rw [h.udr, List.append_nil]
  · exact h.unread.symm
  · rw [h.trace, incomplete_replicate]

theorem unforwarded_espWait {v₀ v : View} {k : Nat} (h : Unforwarded v₀ k v) :
    Unforwarded v₀ (k + 1) (v.mapCore (observe .espWait)) := by
  refine ⟨h.dropped, h.written, h.unread, h.udr, ?_⟩
  rw [List.replicate_succ, List.cons_append, ← h.trace]
  rfl

def Before (s₀ : State) (k : Nat) (R : Ring → Prop) : State → Prop :=
  Busy (Unforwarded (view s₀) k) R fun l => l.rtsRequests = s₀.line.rtsRequests

theorem transparent_of_before {k : Nat} {R : Ring → Prop} {s : State} (h : Before s₀ k R s) :
    Transparent s₀ s := by
  refine ⟨h.view.dropped, ⟨[], ?_, List.nil_prefix, .inl ?_⟩, ⟨[], ?_, List.nil_prefix⟩, ?_⟩
  · rw [List.append_nil]
    exact h.view.written
  · exact (congrArg flushes h.view.trace).trans (flushes_replicate k _)
  · rw [List.append_nil]
    exact h.view.udr
  · exact (congrArg incomplete h.view.trace).trans (incomplete_replicate k _)

theorem startUp_before : StartUp (SessionRun s₀) (Transparent s₀) (Before s₀) where
  stable hR := stable_busy hR
  guarantee := transparent_of_before
  ring h := h.ring
  setRing _ h hr :=
    ⟨⟨h.view.dropped, h.view.written, h.view.unread, h.view.udr, h.view.trace⟩, hr, h.line⟩
  turn h := ⟨unforwarded_espWait h.view, h.ring, h.line⟩
  timeout _ h := ⟨h.view, h.ring, h.line⟩
  pins _ h :=
    ⟨⟨h.view.dropped, h.view.written, h.view.unread, h.view.udr, h.view.trace⟩, h.ring, h.line⟩

def Waited (s₀ s : State) : Prop := ∃ k, Before s₀ k (Mended k) s

theorem stable_waited : Stable handle (SessionRun s₀) (Waited s₀) := startUp_before.stable_mended

theorem transparent_of_waited {s : State} (h : Waited s₀ s) : Transparent s₀ s :=
  h.elim fun _ => transparent_of_before

def Cleared (s₀ s : State) : Prop := Waited s₀ s ∧ s.line.rtsPulse = 0

theorem stable_cleared : Stable handle (SessionRun s₀) (Cleared s₀) := by
  intro e s ha ha' hs
  refine ⟨stable_waited e s ha ha' hs.1, ?_⟩
  rw [line_handle]
  exact hs.2

theorem clearPulse_spec :
    Triple handle (SessionRun s₀) (Transparent s₀) (Waited s₀)
      (.modify fun s => { s with line.rtsPulse := 0 }) (fun _ => Cleared s₀) := by
  refine .act _ stable_waited (fun _ => stable_cleared) (fun _ _ => transparent_of_waited)
    (fun _ _ _ hs => transparent_of_waited hs.1) ?_
  intro s _ hs _
  obtain ⟨k, hs⟩ := hs
  exact ⟨⟨k, hs.view, hs.ring, hs.line⟩, rfl⟩

/-- Here the assumption on the run speaks: the body of the first loop has run
at least once. -/
theorem enterLoop_spec :
    Triple handle (SessionRun s₀) (Transparent s₀) (Cleared s₀) (note .espLoop)
      (fun _ => Booked s₀ s₀.line.rtsRequests [] [] 0) := by
  refine .act _ stable_cleared (fun _ => stable_booked) (fun _ _ hs => transparent_of_waited hs.1)
    (fun _ _ _ => transparent_of_booked) ?_
  intro s _ hs ha
  obtain ⟨⟨k, hs⟩, hpulse⟩ := hs
  have htrace : s.core.trace = .replicate k .espWait ++ s₀.core.trace := hs.view.trace
  have hk : k ≠ 0 := by
    rintro rfl
    have hw := ha.2
    dsimp only [observe] at hw
    rw [htrace] at hw
    simp at hw
  refine ⟨?_, hs.ring.2 hk, ?_⟩
  · have h := ledger_of_unforwarded hs.view hs.ring.1.taken
    exact ⟨h.dropped, h.written, h.udr, h.complete⟩
  · exact ⟨Nat.le_of_eq hs.line.symm, fun hp => absurd hpulse hp⟩

theorem espSession_spec :
    Triple handle (SessionRun s₀) (Transparent s₀) (· = s₀) espSession
      (fun _ s => Booked s₀ s₀.line.rtsRequests [] [] 0 s ∧
        s₀.line.rtsRequests < s.line.rtsRequests) := by
  let Called : State → Prop := Before s₀ 0 fun _ => True
  have hcalled : Stable handle (SessionRun s₀) Called := stable_busy fun _ _ _ => trivial
  have hstart (s : State) (hs : s = s₀) : Called s := by
    subst hs
    exact ⟨⟨rfl, rfl, rfl, rfl, rfl⟩, trivial, rfl⟩
  apply Triple.bind (R := fun _ => Waited s₀)
  · refine .pre (.act _ hcalled (fun _ => stable_waited) (fun _ _ => transparent_of_before)
      (fun _ _ _ => transparent_of_waited) ?_) hstart
    intro s _ hs _
    refine ⟨0, ⟨?_, ⟨repairing_resetOut s.ring, fun h => absurd rfl h⟩, hs.line⟩⟩
    exact ⟨hs.view.dropped, hs.view.written, hs.view.unread, hs.view.udr, hs.view.trace⟩
  intro _
  apply Triple.bind startUp_before.resetEsp_spec
  intro _
  apply Triple.bind (startUp_before.setTimeout_spec _)
  intro _
  apply Triple.bind startUp_before.waitLoop_spec
  intro _
  apply Triple.bind clearPulse_spec
  intro _
  exact .bind enterLoop_spec fun _ => espLoop_spec

end Wait

/-- Nothing was sent, received or recorded between `t` and `s`. -/
def SameBytes (t s : State) : Prop :=
  s.usb.written = t.usb.written ∧ s.usb.dropped = t.usb.dropped ∧ s.core.udr = t.core.udr ∧
    s.core.trace = t.core.trace

theorem keeps_sameBytes_usbTask (t : State) : Keeps (SameBytes t) usbTask := by
  intro s hs
  dsimp only
  split
  · exact hs
  · split
    · exact hs
    · exact hs

theorem resetEspAndWait_sameBytes {A : State → Prop} (t : State) (programMode : Bool) :
    Triple handle A (SameBytes t) (SameBytes t) (resetEspAndWait programMode)
      (fun _ => SameBytes t) := by
  apply Triple.of_keeps
  · exact stable_view fun v => v.written = t.usb.written ∧ v.dropped = t.usb.dropped ∧
      v.core.udr = t.core.udr ∧ v.core.trace = t.core.trace
  · have hsame {f : State → State} (hf : ∀ s, SameBytes t s → SameBytes t (f s)) :
        Built (fun s u => SameBytes t s → SameBytes t u) noProcedures (.modify f) := built_modify hf
    exact (built_resetEspAndWait_of (fun _ hs => hs) (fun _ => hsame fun _ hs => hs)
      (hsame fun _ hs => hs) (hsame fun _ hs => hs)
      (built_resetEsp (fun _ => hsame fun _ hs => hs) programMode) (hsame fun _ hs => hs)
      (hsame (keeps_sameBytes_usbTask t))
      (built_bind (hsame fun _ hs => hs) fun _ => hsame fun _ hs => hs)).keeps

/-- None of the requests that wait resets a data endpoint. -/
def Spares (s : State) : Prop := ∀ r ∈ s.usb.setup, resets r .tx = false ∧ resets r .rx = false

instance : DecidablePred Spares := fun _ => inferInstanceAs (Decidable (∀ _ ∈ _, _))

theorem alike_usbTask : Alike Spares usbTask usbTaskResetting := by
  refine .act fun s hs => congrArg (Prod.mk ()) ?_
  dsimp only
  split
  · rfl
  · cases hr : s.usb.setup with
    | nil => rfl
    | cons r rs =>
      obtain ⟨htx, hrx⟩ := hs r (hr ▸ List.mem_cons_self)
      simp [resetEndpoints, htx, hrx]

section Task

variable {A : State → Prop} {task task' : Fw Unit} (h : Alike A task task')
include h

theorem alike_usbWriteByte (b : UInt8) :
    Alike A (usbWriteByteWith task b) (usbWriteByteWith task' b) :=
  h.andThen fun _ => .same _

theorem alike_usbByteAvailable : Alike A (usbByteAvailableWith task) (usbByteAvailableWith task') :=
  h.andThen fun _ => .same _

theorem alike_espToUsb (take : Fw UInt8) :
    Alike A (espToUsbWith task take) (espToUsbWith task' take) := by
  refine (Alike.same _).andThen fun _ => .ite ?_ (.same _)
  refine (Alike.same take).andThen fun ch => ?_
  exact (alike_usbWriteByte h ch).andThen fun _ => .same _

theorem alike_usbToEsp : Alike A (usbToEspWith task) (usbToEspWith task') := by
  refine (Alike.same _).andThen fun _ => .ite ?_ (.same _)
  exact (alike_usbByteAvailable h).andThen fun _ => .same _

theorem alike_espSession (take : Fw UInt8) :
    Alike A (espSessionWith task take) (espSessionWith task' take) := by
  have hturn : Alike A (espTurnWith task take) (espTurnWith task' take) := by
    refine (Alike.same _).andThen fun _ => (alike_espToUsb h take).andThen fun _ => ?_
    exact (Alike.same _).andThen fun _ => alike_usbToEsp h
  refine (Alike.same _).andThen fun _ => (Alike.same (resetEsp true)).andThen fun _ => ?_
  refine (Alike.same _).andThen fun _ => (Alike.same _).andThen fun _ => ?_
  exact (Alike.same _).andThen fun _ => (Alike.same _).andThen fun _ => hturn.whileDo

theorem alike_resetEspAndWait (programMode : Bool) :
    Alike A (resetEspAndWaitWith task programMode) (resetEspAndWaitWith task' programMode) := by
  refine (Alike.same _).andThen fun _ => (Alike.same _).andThen fun _ => ?_
  refine (Alike.same _).andThen fun _ => (Alike.same (resetEsp programMode)).andThen fun _ => ?_
  refine (Alike.same _).andThen fun _ => ?_
  exact (Alike.whileDo h).andThen fun _ => .same _

end Task

/-- A run of `ESP8266_programmer` is transparent up to the end of its second
loop, which it leaves after a request with RTS set, and then forwards nothing,
as long as no request resets a data endpoint. -/
theorem esp8266Programmer_transparent (s : State) (hs : Waits s) (hspares : Spares s)
    (d : Prog State Unit × State)
    (hd : Runs handle (fun t => SessionRun s t ∧ Spares t)
      (esp8266ProgrammerWith usbTaskResetting ringTake, s) d) :
    (d.1.isRet = false ∧ Transparent s d.2) ∨
      ∃ t, Runs handle (fun t => SessionRun s t ∧ Spares t)
          (espSessionWith usbTaskResetting ringTake, s) (.ret (), t) ∧
        Runs handle (fun t => SessionRun s t ∧ Spares t)
          (resetEspAndWaitWith usbTaskResetting false, t) d ∧ Transparent s t ∧
        s.line.rtsRequests < t.line.rtsRequests ∧ SameBytes t d.2 := by
  have ha : SessionRun s s ∧ Spares s := ⟨⟨hs, fun h => absurd h (Nat.lt_irrefl _)⟩, hspares⟩
  have htask : Alike (fun t => SessionRun s t ∧ Spares t) usbTask usbTaskResetting :=
    alike_usbTask.mono fun _ ht => ht.2
  have hsession := (alike_espSession htask ringTake).triple
    (espSession_spec.conseq (fun _ ht => ht.1) (fun _ hg => hg) (fun _ _ hp => hp) fun _ _ hq => hq)
  obtain ⟨q, hq, hrun, he⟩ | ⟨_, t, hrun, hreset⟩ := hd.of_bind
  · left
    constructor
    · rw [he, Prog.andThen_eq_bind q _ hq]
      rfl
    · exact (hsession s ha rfl _ hrun).1
  · right
    obtain ⟨htransparent, hret⟩ := hsession s ha rfl _ hrun
    refine ⟨t, hrun, hreset, htransparent, (hret () rfl).2, ?_⟩
    have hsame := (alike_resetEspAndWait htask false).triple (resetEspAndWait_sameBytes t false)
    exact (hsame t (hrun.assumption ha) ⟨rfl, rfl, rfl, rfl⟩ d hreset).1

def stale : State :=
  [1, 2, 3].foldl (fun s ch => handle (.uartRx ch) s)
    (Sessions.ready (fun _ => 0xFF) (Sessions.bytewise [0x55]))

def frameMoves : List (Move Event) :=
  List.flatten [
    .replicate 14 .cpu, [.irq (.uartRx 7)], .replicate 10 .cpu, .replicate 5 (.irq .tick),
    .replicate 6 .cpu, [.irq (.uartRx 0x41), .irq (.uartRx 0xC0), .irq .outPacket],
    [.irq .uartTxEmpty], .replicate 40 .cpu, [.irq .inTaken], .replicate 20 .cpu,
    [.irq .uartTxEmpty, .irq (.setup ⟨0x21, 0x22, 2, 0⟩)], .replicate 40 .cpu,
    .replicate 7 (.irq .tick), .replicate 10 .cpu]

theorem esp8266Programmer_transparent_frame :
    let d := exec handle (esp8266ProgrammerWith usbTaskResetting ringTake, stale) frameMoves
    d.1.isRet = true ∧ d.2.usb.hostIn.flatten = [0x41, slipEnd] ∧ d.2.core.udr = [0x55] ∧
      ∃ t, Transparent stale t ∧ 0 < t.line.rtsRequests ∧ SameBytes t d.2 := by
  intro d
  have hret : d.1.isRet = true := by decide +kernel
  have hruns : Runs handle (fun t => SessionRun stale t ∧ Spares t)
      (esp8266ProgrammerWith usbTaskResetting ringTake, stale) d :=
    Runs.of_holdsAlong _ frameMoves (by decide +kernel)
  refine ⟨hret, by decide +kernel, by decide +kernel, ?_⟩
  obtain ⟨hnot, -⟩ | ⟨t, -, -, ht, hrts, hsame⟩ :=
    esp8266Programmer_transparent stale (by decide) (by decide +kernel) d hruns
  · rw [hret] at hnot
    cases hnot
  · exact ⟨t, ht, hrts, hsame⟩

def threeBytes : State :=
  Sessions.ready (fun _ => 0xFF) [⟨[0x55, 0x66], by decide⟩, ⟨[0x77], by decide⟩]

def haltCleared : List (Move Event) :=
  List.flatten [
    .replicate 14 .cpu, [.irq (.uartRx 7)], .replicate 10 .cpu, .replicate 5 (.irq .tick),
    .replicate 6 .cpu, [.irq .outPacket], .replicate 10 .cpu,
    [.irq (.setup ⟨0x02, 0x01, 0, 4⟩), .irq .uartTxEmpty], .replicate 10 .cpu,
    [.irq .outPacket], .replicate 20 .cpu]

/-- The second byte is lost with the bank it was in. -/
theorem halt_cleared_loses_byte :
    let d := exec handle (esp8266ProgrammerWith usbTaskResetting ringTake, threeBytes) haltCleared
    Runs handle (SessionRun threeBytes)
      (esp8266ProgrammerWith usbTaskResetting ringTake, threeBytes) d ∧
      threeBytes.usb.unread = [0x55, 0x66, 0x77] ∧ d.2.core.udr = [0x55, 0x77] ∧
      ¬ Transparent threeBytes d.2 := by
  intro d
  have hudr : d.2.core.udr = [0x55, 0x77] := by decide +kernel
  refine ⟨Runs.of_holdsAlong _ haltCleared (by decide +kernel), rfl, hudr, fun h => ?_⟩
  obtain ⟨us, hus, hprefix⟩ := h.toEsp
  rw [hudr, show threeBytes.core.udr = [] from rfl, List.nil_append] at hus
  rw [← hus] at hprefix
  exact absurd hprefix (by decide)

end Adelino.EspBridge
