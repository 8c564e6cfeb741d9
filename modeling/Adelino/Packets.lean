import Adelino.Bridge
import Adelino.UsbProgress

namespace Adelino.Packets

open Adelino.Program Adelino.Logic Adelino.Progress Adelino.Endpoint Adelino.Machine
open Adelino.UsbBytes Adelino.Streams Adelino.UsbSpec Adelino.UsbProgress Adelino.Bridge
open Adelino.Sessions

/-- The program owns the IN bank, which holds `bank`, after the host has got
the packets `sent`. -/
structure Owns (sent : List (List UInt8)) (bank : List UInt8) (u : Usb) : Prop where
  free : u.inBusy = false
  hostIn : u.hostIn = sent
  inBank : u.inBank = bank

/-- The host has the bank, or has given it back empty. -/
def Passing (sent : List (List UInt8)) (bank : List UInt8) (u : Usb) : Prop :=
  (u.inBusy = true ∧ u.hostIn = sent ∧ u.inBank = bank) ∨ Owns (sent ++ [bank]) [] u

variable {v : View} {sent full : List (List UInt8)} {bank bs : List UInt8}

theorem steady_owns : Steady (Owns sent bank) where
  device e u hu := by
    cases e with
    | outPacket => rw [device, outPacket_frame]; exact ⟨hu.free, hu.hostIn, hu.inBank⟩
    | inTaken => simpa [device, Usb.inTaken, hu.free] using hu
    | _ => exact ⟨hu.free, hu.hostIn, hu.inBank⟩
  setup _ _ hu := ⟨hu.free, hu.hostIn, hu.inBank⟩

theorem steady_passing : Steady (Passing sent bank) where
  device e u hu := by
    obtain ⟨hb, hs, hi⟩ | hu := hu
    · cases e with
      | outPacket => rw [device, outPacket_frame]; exact .inl ⟨hb, hs, hi⟩
      | inTaken =>
        right
        rw [device, Usb.inTaken, if_pos hb, hs, hi]
        exact ⟨rfl, rfl, rfl⟩
      | _ => exact .inl ⟨hb, hs, hi⟩
    · exact .inr (steady_owns.device e u hu)
  setup l u hu := hu.imp (fun h => h) (steady_owns.setup l u)

theorem Passing.owns {u : Usb} (h : Passing sent bank u) (hf : u.inBusy = false) :
    Owns (sent ++ [bank]) [] u := by
  obtain ⟨hb, -⟩ | h := h
  · rw [hf] at hb
    cases hb
  · exact h

theorem known_spec {A : State → Prop} {φ : Usb → Prop} {α : Type} (f : State → α) (a : α)
    (hφ : Steady φ) (h : ∀ s, φ s.usb → f s = a) :
    Triple handle A (fun s => view s = v) (AtView v φ) (.read f)
      (fun b s => b = a ∧ AtView v φ s) :=
  .act _ (AtView.stable hφ) (fun _ e s ha ha' hs => ⟨hs.1, AtView.stable hφ e s ha ha' hs.2⟩)
    (fun _ _ hs => hs.1) (fun _ _ _ hs => hs.2.1) fun s _ hs _ => ⟨h s hs.2, hs⟩

theorem usbFlushEndpoint_packet :
    Triple handle Waits (fun s => view s = v) (AtView v fun u => u.uenum = .tx ∧ Owns sent bank u)
      usbFlushEndpoint (fun _ => AtView v fun u => u.uenum = .tx ∧ Owns (sent ++ [bank]) [] u) := by
  have htx : Steady fun u : Usb => u.uenum = .tx ∧ Owns sent bank u :=
    (steady_uenum .tx).and steady_owns
  have hpass : Steady fun u : Usb => u.uenum = .tx ∧ Passing sent bank u :=
    (steady_uenum .tx).and steady_passing
  have hdone : Steady fun u : Usb => u.uenum = .tx ∧ Owns (sent ++ [bank]) [] u :=
    (steady_uenum .tx).and steady_owns
  apply Triple.bind (R := fun _ => AtView v fun u => u.uenum = .tx ∧ Passing sent bank u)
  · apply onUsb_spec _ htx hpass
    · intro s hs
      simp [view, Usb.clearIn, Usb.unread, Usb.written, hs.1]
    · intro u hu
      simp only [Usb.clearIn, hu.1]
      exact ⟨trivial, .inl ⟨rfl, hu.2.hostIn, hu.2.inBank⟩⟩
  intro _
  apply Triple.iter (P := fun _ => AtView v fun u => u.uenum = .tx ∧ Passing sent bank u)
  intro _
  have hready (r : Bool) : Steady fun u : Usb => (u.uenum = .tx ∧ Passing sent bank u) ∧
      (r = true → u.uenum = .tx ∧ Owns (sent ++ [bank]) [] u) := hpass.and hdone.imp
  apply Triple.bind (ask_spec _ hpass hready _)
  · intro ready
    apply Triple.ite
    · intro hr
      exact .leave () (AtView.stable hdone) (fun _ _ hs => hs.1) fun _ _ hs => ⟨hs.1, hs.2.2 hr⟩
    intro _
    -- while the host has the bank the wait is not given up
    refine .bind (endpointDetached_spec (hready ready) hdone fun s ha hs hn => ?_)
      fun detached => ?_
    · exact ⟨hs.2.1.1, hs.2.1.2.owns (givesUp_waits v s ha hs.1 hn)⟩
    apply Triple.ite
    · intro hd
      exact .leave () (AtView.stable hdone) (fun _ _ hs => hs.1) fun _ _ hs => ⟨hs.1.1, hs.2 hd⟩
    · intro _
      exact .again () (AtView.stable hpass) (fun _ _ hs => hs.1) fun _ _ hs => ⟨hs.1.1, hs.1.2.1⟩
  · intro s _ hs
    refine ⟨hs.2, fun hr => ⟨hs.2.1, hs.2.2.owns ?_⟩⟩
    simpa [Usb.isInReady, hs.2.1] using hr

/-- How `bs` has been cut so far: into the full packets `full` and the bank,
which is handed over only when there is something to follow. -/
structure CutInto (full : List (List UInt8)) (bank bs : List UInt8) : Prop where
  flatten : full.flatten ++ bank = bs
  whole : ∀ p ∈ full, p.length = cdcTxRxEpSize
  room : bank.length ≤ cdcTxRxEpSize
  lazy : bank = [] → full = []

theorem CutInto.nil : CutInto [] [] [] := ⟨rfl, by simp, Nat.zero_le _, fun _ => rfl⟩

theorem CutInto.write (h : CutInto full bank bs) (hl : bank.length < cdcTxRxEpSize) (b : UInt8) :
    CutInto full (bank ++ [b]) (bs ++ [b]) where
  flatten := by rw [← h.flatten, List.append_assoc]
  whole := h.whole
  room := by rw [List.length_append]; exact hl
  lazy hn := by simp at hn

theorem CutInto.next (h : CutInto full bank bs) (hl : bank.length = cdcTxRxEpSize) (b : UInt8) :
    CutInto (full ++ [bank]) [b] (bs ++ [b]) where
  flatten := by simp [← h.flatten]
  whole p hp := by
    obtain hp | hp := List.mem_append.mp hp
    · exact h.whole p hp
    · rw [List.mem_singleton.mp hp]
      exact hl
  room := by simp [cdcTxRxEpSize]
  lazy hn := by simp at hn

/-- The bytes `bs` have been written to an empty bank after the packets `sent`. -/
def Written (sent : List (List UInt8)) (bs : List UInt8) (s : State) : Prop :=
  ∃ full bank, CutInto full bank bs ∧ Owns (sent ++ full) bank s.usb

theorem stable_written {A : State → Prop} : Stable handle A (Written sent bs) :=
  fun e s _ _ ⟨full, bank, hc, ho⟩ => ⟨full, bank, hc, steady_owns.handle e s ho⟩

theorem write8_packet (b : UInt8) (hl : bank.length < cdcTxRxEpSize) :
    Triple handle Waits (fun _ => True) (AtView v fun u => u.uenum = .tx ∧ Owns sent bank u)
      (onUsb (Usb.write8 b)) (fun _ s => Owns sent (bank ++ [b]) s.usb) := by
  refine .access _ (AtView.stable ((steady_uenum .tx).and steady_owns))
    (fun _ e s _ _ hs => steady_owns.handle e s hs) ?_
  intro s _ hs _
  have ho := hs.2.2
  have hallowed : s.usb.isReadWriteAllowed = true := by
    simp [Usb.isReadWriteAllowed, hs.2.1, ho.free, ho.inBank, hl]
  simp only [Usb.write8, hs.2.1, hallowed, decide_true, Bool.and_self, if_true]
  exact ⟨ho.free, ho.hostIn, congrArg (· ++ [b]) ho.inBank⟩

theorem usbWriteByte_packet (b : UInt8) :
    Triple handle Waits (fun _ => True) (Written sent bs) (usbWriteByte b)
      (fun _ => Written sent (bs ++ [b])) := by
  intro s ha hs
  obtain ⟨full, bank, hc, ho⟩ := hs
  have hallow (r : Bool) : Steady fun u : Usb => u.uenum = .tx ∧ Owns (sent ++ full) bank u :=
    (steady_uenum .tx).and steady_owns
  have htask :
      Triple handle Waits (fun _ => True) (AtView (view s) (Owns (sent ++ full) bank)) usbTask
      (fun _ => AtView (view s) (Owns (sent ++ full) bank)) :=
    (usbTask_spec steady_owns).guarantee fun _ _ => trivial
  refine Triple.bind htask (fun _ => ?_) s ha ⟨rfl, ho⟩
  refine .bind ((selectEndpoint_spec .tx steady_owns fun u hu => ?_).guarantee fun _ _ => trivial)
    fun _ => ?_
  · exact ⟨hu.free, hu.hostIn, hu.inBank⟩
  refine .bind ((known_spec _ (decide (bank.length < cdcTxRxEpSize)) (hallow true)
    fun s hs => ?_).guarantee fun _ _ => trivial) fun allowed => ?_
  · simp [Usb.isReadWriteAllowed, hs.1, hs.2.free, hs.2.inBank]
  apply Triple.of_pure
  intro hr
  subst hr
  by_cases hl : bank.length < cdcTxRxEpSize
  · rw [decide_eq_true hl]
    apply (write8_packet b hl).post
    exact fun _ s hs => ⟨full, _, hc.write hl b, hs⟩
  · have hfull : bank.length = cdcTxRxEpSize := Nat.le_antisymm hc.room (Nat.le_of_not_lt hl)
    rw [decide_eq_false hl]
    apply Triple.bind (usbFlushEndpoint_packet.guarantee fun _ _ => trivial)
    intro _
    have hroom : ([] : List UInt8).length < cdcTxRxEpSize := by decide
    apply (write8_packet b hroom).post
    intro _ s hs
    rw [List.append_assoc] at hs
    exact ⟨_, _, hc.next hfull b, hs⟩

theorem usbWriteBytes_packets (cs : List UInt8) :
    Triple handle Waits (fun _ => True) (Written sent bs) (usbWriteBytes cs)
      (fun _ => Written sent (bs ++ cs)) := by
  induction cs generalizing bs with
  | nil =>
    rw [List.append_nil]
    exact .ret () stable_written (fun _ _ _ => trivial) fun _ _ hs => hs
  | cons c cs ih =>
    apply Triple.bind (usbWriteByte_packet c)
    intro _
    have hrest := @ih (bs ++ [c])
    rw [List.append_assoc] at hrest
    exact hrest

/-- The packets of a transfer of `bs`: full ones and one that is shorter, if
there is anything to transfer. -/
structure TransferOf (bs : List UInt8) (packets : List (List UInt8)) : Prop where
  flatten : packets.flatten = bs
  nil : bs = [] → packets = []
  cut : bs ≠ [] → ∃ full last, packets = full ++ [last] ∧ (∀ p ∈ full, p.length = cdcTxRxEpSize) ∧
    last.length < cdcTxRxEpSize ∧ (last = [] ↔ bs.length % cdcTxRxEpSize = 0)

theorem length_flatten_full (h : ∀ p ∈ full, p.length = cdcTxRxEpSize) :
    full.flatten.length = full.length * cdcTxRxEpSize := by
  induction full with
  | nil => rfl
  | cons p full ih =>
    rw [List.flatten_cons, List.length_append, h p List.mem_cons_self,
      ih fun q hq => h q (List.mem_cons_of_mem p hq), List.length_cons, Nat.succ_mul, Nat.add_comm]

theorem transfer_nil (h : CutInto full [] bs) : TransferOf bs full := by
  have hf := h.lazy rfl
  subst hf
  have hb : bs = [] := h.flatten.symm
  exact ⟨hb.symm, fun _ => rfl, fun hn => absurd hb hn⟩

theorem length_mod_of_full {last : List UInt8} (hf : ∀ p ∈ full, p.length = cdcTxRxEpSize)
    (hb : full.flatten ++ last = bs) (hl : last.length < cdcTxRxEpSize) :
    last = [] ↔ bs.length % cdcTxRxEpSize = 0 := by
  rw [← hb, List.length_append, length_flatten_full hf, Nat.mul_add_mod', Nat.mod_eq_of_lt hl,
    List.length_eq_zero_iff]

theorem transfer_short (h : CutInto full bank bs) (hn : bank ≠ [])
    (hl : bank.length < cdcTxRxEpSize) : TransferOf bs (full ++ [bank]) where
  flatten := by simp [h.flatten]
  nil hb := by
    have hf := h.flatten
    rw [hb, List.append_eq_nil_iff] at hf
    exact absurd hf.2 hn
  cut _ := ⟨full, bank, rfl, h.whole, hl, length_mod_of_full h.whole h.flatten hl⟩

theorem transfer_full (h : CutInto full bank bs) (hl : bank.length = cdcTxRxEpSize) :
    TransferOf bs (full ++ [bank] ++ [[]]) := by
  have hfull : ∀ p ∈ full ++ [bank], p.length = cdcTxRxEpSize := by
    intro p hp
    obtain hp | hp := List.mem_append.mp hp
    · exact h.whole p hp
    · rw [List.mem_singleton.mp hp]
      exact hl
  have hflat : (full ++ [bank]).flatten ++ [] = bs := by simp [h.flatten]
  refine ⟨by simp [h.flatten], ?_, ?_⟩
  · intro hb
    rw [← h.flatten, List.append_eq_nil_iff] at hb
    rw [hb.2] at hl
    cases hl
  · intro _
    exact ⟨full ++ [bank], [], rfl, hfull, Nat.zero_lt_succ _,
      length_mod_of_full hfull hflat (Nat.zero_lt_succ _)⟩

/-- After the packets `sent` the host has got `bs` as one transfer, and the
bank is back. -/
def Transferred (sent : List (List UInt8)) (bs : List UInt8) (u : Usb) : Prop :=
  ∃ packets, TransferOf bs packets ∧ Owns (sent ++ packets) [] u

theorem steady_transferred : Steady (Transferred sent bs) where
  device e u hu := hu.imp fun _ h => ⟨h.1, steady_owns.device e u h.2⟩
  setup l u hu := hu.imp fun _ h => ⟨h.1, steady_owns.setup l u h.2⟩

theorem usbFlush_packets :
    Triple handle Waits (fun _ => True) (Written sent bs) usbFlush
      (fun _ s => Transferred sent bs s.usb) := by
  intro s ha hs
  obtain ⟨full, bank, hc, ho⟩ := hs
  have htx : Steady fun u : Usb => u.uenum = .tx ∧ Owns (sent ++ full) bank u :=
    (steady_uenum .tx).and steady_owns
  have hselect : Triple handle Waits (fun _ => True) (AtView (view s) (Owns (sent ++ full) bank))
      (selectEndpoint .tx)
        (fun _ => AtView (view s) fun u => u.uenum = .tx ∧ Owns (sent ++ full) bank u) :=
    (selectEndpoint_spec .tx steady_owns fun u hu =>
      ⟨hu.free, hu.hostIn, hu.inBank⟩).guarantee fun _ _ => trivial
  refine Triple.bind hselect (fun _ => ?_) s ha ⟨rfl, ho⟩
  refine .bind ((known_spec _ bank.length htx fun s hs => ?_).guarantee fun _ _ => trivial)
    fun n => ?_
  · simp [Usb.bytesInEndpoint, hs.1, hs.2.inBank]
  apply Triple.of_pure
  intro hn
  subst hn
  apply Triple.ite
  · intro h0
    have hb := List.length_eq_zero_iff.mp h0
    subst hb
    refine .ret () (fun e s _ _ hs => steady_transferred.handle e s hs) (fun _ _ _ => trivial) ?_
    exact fun s _ hs => ⟨full, transfer_nil hc, hs.2.2⟩
  intro h0
  have hne : bank ≠ [] := fun h => h0 (congrArg List.length h)
  refine .bind ((known_spec _ (decide (bank.length < cdcTxRxEpSize)) htx fun s hs => ?_).guarantee
    fun _ _ => trivial) fun allowed => ?_
  · simp [Usb.isReadWriteAllowed, hs.1, hs.2.free, hs.2.inBank]
  apply Triple.of_pure
  intro hr
  subst hr
  by_cases hl : bank.length < cdcTxRxEpSize
  · rw [decide_eq_true hl]
    apply (usbFlushEndpoint_packet.guarantee fun _ _ => trivial).post
    intro _ s hs
    have ho := hs.2.2
    rw [List.append_assoc] at ho
    exact ⟨_, transfer_short hc hne hl, ho⟩
  · have hfull : bank.length = cdcTxRxEpSize := Nat.le_antisymm hc.room (Nat.le_of_not_lt hl)
    rw [decide_eq_false hl]
    apply Triple.bind (usbFlushEndpoint_packet.guarantee fun _ _ => trivial)
    intro _
    apply (usbFlushEndpoint_packet.guarantee fun _ _ => trivial).post
    intro _ s hs
    have ho := hs.2.2
    rw [List.append_assoc, List.append_assoc, ← List.append_assoc full] at ho
    exact ⟨_, transfer_full hc hfull, ho⟩

def transmit (bs : List UInt8) : Fw Unit := do
  usbWriteBytes bs
  usbFlush

theorem transmit_packets (bs : List UInt8) :
    Triple handle Waits (fun _ => True) (fun s => Owns sent [] s.usb) (transmit bs)
      (fun _ s => Transferred sent bs s.usb) := by
  apply Triple.bind (R := fun _ => Written sent bs)
  · have hwrite : Triple handle Waits (fun _ => True) (Written sent []) (usbWriteBytes bs)
        fun _ => Written sent ([] ++ bs) := usbWriteBytes_packets bs
    apply hwrite.pre
    intro s hs
    rw [← List.append_nil sent] at hs
    exact ⟨[], [], .nil, hs⟩
  intro _
  exact usbFlush_packets

theorem usbWriteBytes_total {σ : Nat → Move Event} {A : State → Prop} (hσ : Fair σ)
    (bs : List UInt8) :
    Total handle σ A (fun _ _ => True) (usbWriteBytes bs) (fun _ _ _ => True) := by
  induction bs with
  | nil => exact .ret () fun _ _ _ => trivial
  | cons b bs ih => exact .bind (usbWriteByte_total hσ b) fun _ => ih

theorem transmit_total {σ : Nat → Move Event} {A : State → Prop} (hσ : Fair σ) (bs : List UInt8) :
    Total handle σ A (fun _ _ => True) (transmit bs) (fun _ _ _ => True) :=
  .bind (usbWriteBytes_total hσ bs) fun _ => usbFlush_total hσ

/-- A transfer that starts with an empty bank, to a host that takes each
packet while `Timeout` runs, reaches it in full packets and a shorter one,
and it comes to an end if the host keeps polling. -/
theorem transmit_delivers (bs : List UInt8) (s : State) (hbank : s.usb.inBank = [])
    (hfree : s.usb.inBusy = false) (hs : Waits s) :
    (∀ t, Runs handle Waits (transmit bs, s) (.ret (), t) → Transferred s.usb.hostIn bs t.usb) ∧
    ∀ σ : Nat → Move Event, Fair σ → (∀ n, Waits (runAt handle σ (transmit bs, s) n).2) →
      ∃ n, (runAt handle σ (transmit bs, s) n).1 = .ret () ∧
        Transferred s.usb.hostIn bs (runAt handle σ (transmit bs, s) n).2.usb := by
  have hsafe : Safe handle Waits (fun _ => True) (fun _ t => Transferred s.usb.hostIn bs t.usb)
      (transmit bs, s) := transmit_packets bs s hs ⟨hfree, rfl, hbank⟩
  refine ⟨fun t ht => (hsafe _ ht).2 () rfl, ?_⟩
  intro σ hσ ha
  obtain ⟨n, -, a, hret, -⟩ :=
    (transmit_total hσ bs 0 s trivial).exists_runAt (transmit bs, s) rfl fun n _ => ha n
  have hrun : Runs handle Waits (transmit bs, s) (runAt handle σ (transmit bs, s) n) :=
    runAt_runs (transmit bs, s) (Nat.zero_le n) fun m _ _ => ha m
  exact ⟨n, hret, (hsafe _ hrun).2 a hret⟩

def slowPolls : List (Move Event) :=
  List.flatten [.replicate 90 .cpu, [.irq .inTaken], .replicate 20 .cpu, [.irq .inTaken],
    .replicate 20 .cpu]

def sixteenSent : Fw Unit × State :=
  exec handle (transmit (List.replicate 16 7), ready (fun _ => 0xFF) []) slowPolls

theorem transmit_delivers_sixteen :
    sixteenSent.1.isRet = true ∧ sixteenSent.2.usb.hostIn = [List.replicate 16 7, []] ∧
      Transferred [] (List.replicate 16 7) sixteenSent.2.usb := by
  have hret : sixteenSent.1.isRet = true := by decide +kernel
  have hrun : Runs handle Waits (transmit (List.replicate 16 7), ready (fun _ => 0xFF) [])
      sixteenSent := .of_holdsAlong _ slowPolls (by decide +kernel)
  obtain ⟨_, hrun⟩ := hrun.of_isRet hret
  refine ⟨hret, by decide +kernel, ?_⟩
  exact (transmit_delivers (List.replicate 16 7) (ready (fun _ => 0xFF) []) rfl rfl
    (by decide)).1 sixteenSent.2 hrun

end Adelino.Packets
