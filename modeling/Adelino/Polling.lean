import Adelino.Enumeration

namespace Adelino.Polling

open Adelino.Program Adelino.Logic Adelino.Calls Adelino.Progress Adelino.Deadline
  Adelino.ControlPipe Adelino.ControlStack Adelino.ControlFrame Adelino.ControlSpec
  Adelino.CdcDevice Adelino.ControlRequests Adelino.Conversation Adelino.Enumeration

def turn (p : Stack Unit) : Stack (Unit ⊕ Unit) := do
  usbUsbTask
  p
  return .inl ()

def polling (p : Stack Unit) : Stack Unit := .iter (fun _ => turn p) ()

section Frame

variable {α : Type} {p : Stack α} {s t : State}

theorem Elsewhere.inside (h : Elsewhere s t) : Inside s t :=
  ⟨by rw [h.wire], h.calm, by rw [h.wire]; exact fun hx => hx⟩

theorem inside_client (hp : Built Elsewhere Tasks p) : Built Inside noProcedures p := by
  induction hp with
  | ret a => exact .ret a
  | act h => exact .act fun s => Elsewhere.inside (h s)
  | call h =>
    cases h
    exact inside_usbUsbTask
  | bind hr _ _ ihp ihk => exact .bind hr ihp ihk
  | iter _ x ih => exact .iter ih x

theorem inside_polling {p : Stack Unit} (hp : Built Elsewhere Tasks p) :
    Built Inside noProcedures (polling p) :=
  .iter (fun _ => built_bind inside_usbUsbTask fun _ =>
    built_bind (inside_client hp) fun _ => built_pure _) ()

theorem Inside.workLeft (h : Inside s t) : workLeft t.wire ≤ workLeft s.wire := by
  have hx : t.wire.ep.rxstpi.toNat ≤ s.wire.ep.rxstpi.toNat := by
    cases hx : t.wire.ep.rxstpi with
    | false => exact Nat.zero_le _
    | true => rw [h.rxstpi hx]
  rw [Conversation.workLeft, Conversation.workLeft, h.host]
  omega

end Frame

section Waiting

variable {c₀ : Cdc} {ts : List Transfer} {s : State}

theorem Rest.rxstpi_eq (hs : Rest c₀ ts s) :
    s.wire.ep.rxstpi = decide (workLeft s.wire % 3 = 2) := by
  have htalk := hs.talk
  generalize view s.dev = c at htalk
  cases htalk with
  | silent _ _ hc hx =>
    rw [workLeft, hc, hx]
    simp
  | asked _ _ hw =>
    rw [workLeft_asked hw, hw]
    simp [ControlEndpoint.setup]
  | answered _ _ hw =>
    have hcurrent : s.wire.host.current.isSome.toNat ≤ 1 := Bool.toNat_le _
    rw [workLeft, hw.rxstpi]
    simp only [Bool.toNat_false, eq_comm (a := false), decide_eq_false_iff_not]
    omega

theorem Rest.submit (hs : Rest c₀ ts s) (hc : s.wire.host.current = none)
    (hp : s.wire.host.pending ≠ []) : workLeft (handle .submit s).wire < workLeft s.wire := by
  obtain ⟨t, rest, hp⟩ := List.exists_cons_of_ne_nil hp
  obtain ⟨w, hw⟩ : ∃ w, s.wire.nextSetup s.dev.address = some w := by
    simp only [Wire.nextSetup, hc, hp, if_pos (Rest.address hs hc)]
    exact ⟨_, rfl⟩
  simp only [handle, hw]
  exact workLeft_nextSetup hw

theorem Rest.token (hs : Rest c₀ ts s) (hc : s.wire.host.current ≠ none)
    (hx : s.wire.ep.rxstpi = false) : workLeft (handle .token s).wire < workLeft s.wire := by
  have htalk := hs.talk
  generalize hv : view s.dev = c at htalk
  cases htalk with
  | silent _ _ hnone _ => exact absurd hnone hc
  | asked _ _ hw =>
    rw [hw] at hx
    cases hx
  | @answered done rest t h _ _ hh hw =>
    have haddress (ha : t.isSetAddress = false) : s.dev.address = h.address := by
      rw [hh.address, show s.dev.address = (view s.dev).address from rfl, hv, address_serve, ha]
      rfl
    simp only [handle]
    cases hw with
    | done hw => exact absurd (by rw [hw.host]; rfl) hc
    | closing ha _ hw =>
      obtain hw | hw := hw
      · rw [haddress ha, hw, token_own]
        exact Nat.lt_succ_self _
      · exact absurd (by rw [hw]; rfl) hc
    | refused ha _ h0 hr hw =>
      obtain ⟨stage, hw⟩ | hw := hw
      · generalize s.wire = w at hw h0 hr ⊢
        obtain ⟨ep, host⟩ := w
        dsimp only at hw h0 hr
        subst hw
        rw [haddress ha, token_own]
        simp [Wire.transact, h0, hr, workLeft, Host.finish, Host.proceed]
      · exact absurd (by rw [hw]; rfl) hc

end Waiting

section Resting

variable (c₀ : Cdc) (ts : List Transfer) (v : Nat)

/-- Host and bus are calm, and there is no less to do than `v`. -/
def Loaded (s : State) : Prop := Calm s ∧ v ≤ workLeft s.wire

/-- No request is being processed, and no more to do than `v`. -/
def Resting (s : State) : Prop := Rest c₀ ts s ∧ workLeft s.wire ≤ v

/-- Unless a SETUP packet is what there is to do, none is processed. -/
def Unmoved (s : State) : Prop := v % 3 ≠ 2 → Resting c₀ ts v s

variable {c₀ ts v}

theorem Resting.current {s : State} (ha : Loaded v s) (hs : Resting c₀ ts v s) (h2 : v % 3 ≠ 2) :
    s.wire.ep.rxstpi = false ∧
      3 * s.wire.host.pending.length + s.wire.host.current.isSome.toNat = v := by
  have hload : workLeft s.wire = v := Nat.le_antisymm hs.2 ha.2
  have hx : s.wire.ep.rxstpi = false := by
    rw [Rest.rxstpi_eq hs.1, hload]
    exact decide_eq_false h2
  rw [workLeft, hx] at hload
  exact ⟨hx, hload⟩

theorem Resting.submit {s : State} (ha : Loaded v s) (hs : Resting c₀ ts v s) (h0 : v % 3 = 0)
    (hv : 0 < v) : workLeft (handle .submit s).wire < v := by
  obtain ⟨-, hsum⟩ := hs.current ha (by omega)
  refine Nat.lt_of_lt_of_le (Rest.submit hs.1 ?_ ?_) hs.2
  · cases hc : s.wire.host.current with
    | none => rfl
    | some x =>
      rw [hc] at hsum
      simp only [Option.isSome_some, Bool.toNat_true] at hsum
      omega
  · intro hp
    have hcurrent : s.wire.host.current.isSome.toNat ≤ 1 := Bool.toNat_le _
    rw [hp, List.length_nil] at hsum
    omega

theorem Resting.token {s : State} (ha : Loaded v s) (hs : Resting c₀ ts v s) (h1 : v % 3 = 1) :
    workLeft (handle .token s).wire < v := by
  obtain ⟨hx, hsum⟩ := hs.current ha (by omega)
  refine Nat.lt_of_lt_of_le (Rest.token hs.1 ?_ hx) hs.2
  intro hc
  rw [hc] at hsum
  simp only [Option.isSome_none, Bool.toNat_false] at hsum
  omega

theorem stable_resting (c : Variables → Prop) :
    Stable handle (Loaded v) fun s => c s.dev ∧ Resting c₀ ts v s := by
  rintro e s ha hn ⟨hc, hs, hl⟩
  obtain ⟨hd, hs⟩ := stable_rest s.dev e s ha.1 hn.1 ⟨rfl, hs⟩
  exact ⟨hd ▸ hc, hs, Nat.le_trans (workLeft_handle e s) hl⟩

theorem resting_act {α : Type} (c : Variables → Prop) (c' : α → Variables → Prop)
    {f : State → α × State}
    (h : ∀ s, Loaded v s → c s.dev → Resting c₀ ts v s → c' (f s).1 (f s).2.dev ∧
      Resting c₀ ts v (f s).2) :
    Triple handle (Loaded v) (Unmoved c₀ ts v) (fun s => c s.dev ∧ Resting c₀ ts v s) (.act f)
      (fun a s => c' a s.dev ∧ Resting c₀ ts v s) :=
  .act f (stable_resting c) (fun a => stable_resting (c' a)) (fun _ _ hs _ => hs.2)
    (fun _ _ _ hs _ => hs.2) fun s ha hs _ => h s ha hs.1 hs.2

theorem selectEndpoint_resting (n : UInt8) :
    Triple handle (Loaded v) (Unmoved c₀ ts v) (fun s => True ∧ Resting c₀ ts v s)
      (selectEndpoint n) (fun _ s => s.dev.uenum = n ∧ Resting c₀ ts v s) :=
  resting_act (fun _ => True) (fun _ d => d.uenum = n) fun _ _ _ hs =>
    ⟨rfl, ⟨hs.1.talk, ⟨hs.1.sound.lineEncoding, hs.1.sound.endpoints⟩, hs.1.processing,
      hs.1.quiet⟩, hs.2⟩

theorem process_resting (hwf : ∀ t ∈ ts, WellFormed t) (hv : v % 3 = 2) :
    Triple handle (Loaded v) (Unmoved c₀ ts v) (fun s => s.dev.uenum = 0 ∧ Resting c₀ ts v s)
      usbDeviceProcessControlRequest (fun _ s => workLeft s.wire < v) := by
  rintro s ha ⟨hd, hs, hl⟩
  have hload : workLeft s.wire = v := Nat.le_antisymm hl ha.2
  have hx : s.wire.ep.rxstpi = true := by
    rw [Rest.rxstpi_eq hs, hload, hv]
    rfl
  obtain ⟨done, rest, t, h, hn, hi⟩ := Rest.invited hs hx
  have ht : t ∈ ts := by
    rw [hn.split]
    simp
  have hspec := (usbDeviceProcessControlRequest_spec hn (hwf t ht) hd).safe
  refine hspec.conseq (fun _ ha => ha.1) (fun _ _ h0 => absurd hv h0) (fun _ _ hs => hs) ?_ s ha hi
  rintro - s ⟨d', -, hlt, -⟩
  rw [← workLeft_asked hi.wire, hload] at hlt
  exact hlt

theorem usbUsbTask_resting (hwf : ∀ t ∈ ts, WellFormed t) :
    Triple handle (Loaded v) (Unmoved c₀ ts v) (Resting c₀ ts v) usbUsbTask
      (fun _ s => v % 3 ≠ 2 ∧ Resting c₀ ts v s) := by
  refine .pre (P := fun s => True ∧ Resting c₀ ts v s) ?_ fun _ hs => ⟨trivial, hs⟩
  refine .bind (resting_act (fun _ => True) (fun b _ => b ≠ .unattached) fun s _ _ hs =>
    ⟨hs.1.quiet.attached, hs⟩) fun b => .of_pure fun hb => ?_
  rw [if_pos hb]
  refine .pre (P := fun s => True ∧ Resting c₀ ts v s) ?_ fun _ hs => ⟨trivial, hs⟩
  refine .bind (resting_act (fun _ => True) (fun _ _ => True) fun s _ _ hs => ⟨trivial, hs⟩)
    fun n => ?_
  refine .bind (selectEndpoint_resting 0) fun _ => ?_
  refine .bind (resting_act (fun d => d.uenum = 0) (fun b d => b = decide (v % 3 = 2) ∧ d.uenum = 0)
    fun s ha hd hs => ?_) fun b => ?_
  · refine ⟨⟨?_, hd⟩, hs⟩
    have hcontrol : s.control = true := by rw [State.control, hd]; rfl
    simp only [hcontrol, Bool.true_and]
    rw [Rest.rxstpi_eq hs.1, Nat.le_antisymm hs.2 ha.2]
  refine .pre (P := fun s => b = decide (v % 3 = 2) ∧ s.dev.uenum = 0 ∧ Resting c₀ ts v s)
    (.of_pure fun hb => ?_) fun _ hs => ⟨hs.1.1, hs.1.2, hs.2⟩
  subst hb
  by_cases hv : v % 3 = 2
  · simp only [hv, decide_true]
    refine .bind (R := fun _ s => workLeft s.wire < v) (process_resting hwf hv) fun _ => ?_
    exact fun s ha hs => absurd hs (Nat.not_lt_of_le ha.2)
  · simp only [hv, decide_false]
    refine .bind (R := fun _ s => True ∧ Resting c₀ ts v s) ?_ fun _ => ?_
    · exact .ret () (stable_resting fun _ => True) (fun _ _ hs _ => hs.2) fun _ _ hs =>
        ⟨trivial, hs.2⟩
    · exact (selectEndpoint_resting n).post fun _ _ hs => ⟨hv, hs.2⟩

end Resting

section Tally

/-- The transfers that the host has made, is making and is going to make. -/
def tally (h : Host) : Nat := h.log.length + h.pending.length + h.current.isSome.toNat

theorem tally_transact (w : Wire) (t : Transfer) (stage : Stage)
    (hc : w.host.current = some (t, stage)) : tally (w.transact t stage).host = tally w.host := by
  simp only [Wire.transact, tally, Host.finish, Host.proceed, ControlEndpoint.receive, hc]
  split
  · simp [hc]
  split
  · simp
    omega
  split <;> split <;> simp [hc] <;> omega

theorem tally_token (a : UInt8) (w : Wire) : tally (w.token a).host = tally w.host := by
  unfold Wire.token
  split
  · rfl
  · next t stage hc =>
    split
    · exact tally_transact w t stage hc
    · rfl

theorem tally_nextSetup {a : UInt8} {w w' : Wire} (h : w.nextSetup a = some w') :
    tally w'.host = tally w.host := by
  unfold Wire.nextSetup at h
  split at h
  · next t rest hc hp =>
    split at h
    · cases h
      simp only [tally, hc, hp, List.length_cons, Option.isSome_some, Option.isSome_none,
        Bool.toNat_true, Bool.toNat_false]
      omega
    · cases h
  · cases h

theorem calm_usbGen (s : State) : (usbGen s).calm = s.calm := by
  unfold usbGen
  simp only
  split_ifs <;> rfl

/-- While host and bus are calm, no transfer is lost. -/
def Complete (n : Nat) (s : State) : Prop := Calm s → tally s.wire.host = n

theorem complete_handle (n : Nat) (e : Event) (s : State) (h : Complete n s) :
    Complete n (handle e s) := by
  intro ha
  cases e with
  | token => exact (tally_token _ _).trans (h ha)
  | submit =>
    simp only [handle] at ha ⊢
    split at ha
    · exact h ha
    · next w hw => exact (tally_nextSetup hw).trans (h (Bool.and_eq_true_iff.mp ha).1)
  | giveUp => cases ha
  | busReset => cases ha
  | vbus level => cases ha
  | suspend => cases ha
  | wakeUp => exact h ha
  | usbGen =>
    by_cases hi : s.sreg = true
    · rw [handle, if_pos hi] at ha ⊢
      rw [wire_usbGen]
      exact h ((calm_usbGen s).symm.trans ha)
    · rw [handle, if_neg hi] at ha ⊢
      exact h ha

end Tally

section Progress

variable {c₀ : Cdc} {ts : List Transfer} {p : Stack Unit} {σ : Nat → Move Event}
  (hwf : ∀ t ∈ ts, WellFormed t) (hp : Built Elsewhere Tasks p) (hl : Straight p)
include hwf hp

include hl in
theorem turn_spec : Correct handle Calm (Heard c₀ ts) Responsive (Rest c₀ ts) (turn p)
    (fun r => Sum.elim (fun _ => Rest c₀ ts) (fun _ _ => False) r) := by
  have hstable : Stable handle Calm (Rest c₀ ts) := fun e s ha hn hs =>
    (stable_rest s.dev e s ha hn ⟨rfl, hs⟩).2
  refine .bind (R := fun _ => Rest c₀ ts) ?_ fun _ =>
    .bind (R := fun _ => Rest c₀ ts) ?_ fun _ => ?_
  · refine .pre (P := fun s => ∃ w d, Expecting c₀ ts w d s) ?_ fun s hs =>
      ⟨s.wire, s.dev, hs.expecting⟩
    exact .exists fun w => .exists fun d => (usbUsbTask_spec hwf w).post fun _ _ hs => hs.2
  · exact ⟨client_spec hwf hp, .straight (fun _ hσ => hσ.cpu) hl _⟩
  · exact .ret _ hstable (fun s _ => rest_heard s) fun _ _ hs => hs

theorem turn_resting {v : Nat} :
    Triple handle (Loaded v) (Unmoved c₀ ts v) (Resting c₀ ts v) (turn p)
    (fun r s => v % 3 ≠ 2 ∧ Sum.elim (fun _ => Resting c₀ ts v) (fun _ _ => False) r s) := by
  have hstable : Stable handle (Loaded v) (Resting c₀ ts v) := fun e s ha hn hs =>
    (stable_resting (fun _ => True) e s ha hn ⟨trivial, hs⟩).2
  refine .bind (usbUsbTask_resting hwf) fun _ => .of_pure fun hv => ?_
  refine .bind (R := fun _ => Resting c₀ ts v) ?_ fun _ => ?_
  · refine hp.triple hstable (fun _ _ hs _ => hs) (fun s t h _ hs => ?_) ?_
    · exact ⟨Rest.elsewhere h hs.1, Nat.le_trans (Inside.workLeft (Elsewhere.inside h)) hs.2⟩
    · rintro β f ⟨⟩
      exact (usbUsbTask_resting hwf).post fun _ _ hs => hs.2
  · exact .ret _ (fun e s ha hn hs => ⟨hs.1, hstable e s ha hn hs.2⟩) (fun _ _ hs _ => hs.2)
      fun _ _ hs => ⟨hv, hs⟩

include hl in
theorem lighter (hσ : Responsive σ) (hsubmit : Recurs σ (.irq .submit)) (n : Nat) {s : State}
    (ha : Calm s) (hs : Rest c₀ ts s) (hv : 0 < workLeft s.wire) :
    Eventually handle σ (Loaded (workLeft s.wire)) (fun _ _ => False) n (polling p, s) := by
  generalize hload : workLeft s.wire = v at hv
  have hbusy : Loaded v s := ⟨ha, Nat.le_of_eq hload.symm⟩
  have hheld : Resting c₀ ts v s := ⟨hs, Nat.le_of_eq hload⟩
  have hturn := @turn_resting c₀ ts p hwf hp v
  by_cases h2 : v % 3 = 2
  · have hreturn := Eventually.narrow ((turn_spec hwf hp hl).total hσ n s hs)
      fun s (ha : Loaded v s) => ha.1
    exact Eventually.iter rfl (hreturn.and_safe (hturn s hbusy hheld) hbusy) fun _ _ _ hr =>
      (hr.2.1.1 h2).elim
  have hloop : Safe handle (Loaded v) (Unmoved c₀ ts v) (fun _ _ => False) (polling p, s) :=
    Triple.iter (P := fun _ => Resting c₀ ts v) (fun _ => hturn.post fun _ _ hr => hr.2) () s
      hbusy hheld
  by_cases h0 : v % 3 = 0
  · refine Safe.leaves hsubmit (fun s ha hg hn => ?_) (fun _ _ hq => hq) n _ hbusy hloop
    exact absurd (Resting.submit ha (hg h2) h0 hv) (Nat.not_lt_of_le hn.2)
  · refine Safe.leaves hσ.token (fun s ha hg hn => ?_) (fun _ _ hq => hq) n _ hbusy hloop
    exact absurd (Resting.token ha (hg h2) (by omega)) (Nat.not_lt_of_le hn.2)

variable {s : State} (hs : Fresh ts s) (hσ : Responsive σ) (hsubmit : Recurs σ (.irq .submit))
  (ha : ∀ n, Calm (runAt handle σ (polling p, s) n).2)

omit hwf in
theorem workLeft_runAt {n m : Nat} (h : n ≤ m) :
    workLeft (runAt handle σ (polling p, s) m).2.wire ≤
      workLeft (runAt handle σ (polling p, s) n).2.wire :=
  runAt_antitone (μ := fun s => workLeft s.wire) Inside.refl (fun _ _ h => Inside.workLeft h)
    workLeft_handle (inside_polling hp) s h

include hl hs hσ ha

theorem returns_to_top (n : Nat) :
    ∃ m t, n ≤ m ∧ runAt handle σ (polling p, s) m = (polling p, t) ∧ Rest (view s.dev) ts t := by
  induction n with
  | zero => exact ⟨0, s, Nat.le_refl 0, rfl, hs.atRest⟩
  | succ n ih =>
    obtain ⟨m, t, hn, hm, ht⟩ := ih
    obtain ⟨m', _, t', hlt, hm', ht'⟩ := Correct.revisits (I := fun _ => Rest (view s.dev) ts)
      (fun _ => rfl) (fun _ => turn_spec hwf hp hl) hσ (polling p, s) ha hm ht
    exact ⟨m', t', by omega, hm', ht'⟩

include hsubmit

theorem nothing_left : ∃ n, workLeft (runAt handle σ (polling p, s) n).2.wire = 0 := by
  -- on what is left at the beginning of a turn
  suffices h : ∀ v n t, runAt handle σ (polling p, s) n = (polling p, t) → Rest (view s.dev) ts t →
      workLeft t.wire = v → ∃ n, workLeft (runAt handle σ (polling p, s) n).2.wire = 0 from
    h _ 0 s rfl hs.atRest rfl
  intro v
  induction v using Nat.strong_induction_on with
  | _ v ih =>
    intro n t hn ht hv
    obtain rfl | hpos := Nat.eq_zero_or_pos v
    · exact ⟨n, by rw [hn]; exact hv⟩
    obtain ⟨k, hk⟩ : ∃ k, workLeft (runAt handle σ (polling p, s) k).2.wire < v := by
      by_contra hnone
      have hcalm : Calm t := by
        have hcalm := ha n
        rwa [hn] at hcalm
      have hless := lighter hwf hp hl hσ hsubmit n hcalm ht (by omega)
      obtain ⟨_, -, hfalse⟩ := hless.exists_runAt (polling p, s) hn fun k _ => ⟨ha k, by
        rw [hv]
        exact Nat.le_of_not_lt fun hlt => hnone ⟨k, hlt⟩⟩
      exact hfalse
    obtain ⟨m, t', hm, hmt, ht'⟩ := returns_to_top hwf hp hl hs hσ ha k
    have hle := workLeft_runAt (σ := σ) (s := s) hp hm
    rw [hmt] at hle
    exact ih _ (Nat.lt_of_le_of_lt hle hk) m t' hmt ht' rfl

/-- Under a schedule in which processor and host both get their turns, a main
loop that calls the task has every transfer answered in the end, as the
abstract device answers it, if the host does not disturb it. -/
theorem polling_answers : ∃ n, ∀ m, n ≤ m →
    (runAt handle σ (polling p, s) m).2.wire.host.log = (serveAll ts (view s.dev)).1 := by
  obtain ⟨n, hn⟩ := nothing_left hwf hp hl hs hσ hsubmit ha
  refine ⟨n, fun m hm => ?_⟩
  have hzero : workLeft (runAt handle σ (polling p, s) m).2.wire = 0 :=
    Nat.le_zero.mp (hn ▸ workLeft_runAt hp hm)
  have hruns : Runs handle Calm (polling p, s) (runAt handle σ (polling p, s) m) :=
    runAt_runs (polling p, s) (Nat.zero_le m) fun k _ _ => ha k
  have hheard := (Triple.iter (fun _ => (turn_spec hwf hp hl).safe) () s (ha 0) hs.atRest _ hruns).1
  have hkeeps : Keeps (Complete ts.length) (polling p) :=
    ((inside_polling hp).mono fun s t h hc hcalm => by
      rw [h.host]
      exact hc (h.calm.symm.trans hcalm)).keeps
  have hstart : Complete ts.length s := fun _ => by
    rw [tally, hs.log, hs.pending, hs.current]
    simp
  have hcomplete : Complete ts.length (runAt handle σ (polling p, s) m).2 :=
    (runAt_keeps (fun _ e s _ => complete_handle ts.length e s) (polling p, s) hkeeps hstart m).2
  refine hheard.eq_of_length ?_
  rw [length_serveAll, ← hcomplete (ha m), tally]
  rw [workLeft] at hzero
  omega

end Progress

theorem submit_of_workLeft {s : State} (h : workLeft s.wire ≤ 2) : handle .submit s = s := by
  have hp : s.wire.host.pending = [] := by
    rw [workLeft] at h
    exact List.length_eq_zero_iff.mp (by omega)
  simp only [handle, Wire.nextSetup, hp]
  cases s.wire.host.current <;> rfl

/-- The host sends a SETUP packet now and then, and takes turns with the processor
in between. -/
def unhurried (n : Nat) : Move Event :=
  if n % 96 = 0 then .irq .submit else if n % 2 = 0 then .irq .token else .cpu

theorem recurs_unhurried {m : Move Event} {i : Nat} (h : ∀ k, unhurried (96 * k + i) = m) :
    Recurs unhurried m :=
  fun t => ⟨96 * t + i, by omega, h t⟩

theorem responsive_unhurried : Responsive unhurried where
  cpu := recurs_unhurried (i := 1) fun k => by simp [unhurried, show (96 * k + 1) % 2 = 1 by omega]
  token :=
    recurs_unhurried (i := 2) fun k => by simp [unhurried, show (96 * k + 2) % 2 = 0 by omega]

theorem calm_unhurried {p : Stack Unit} (hp : Built Elsewhere Tasks p) {s : State} {k : Nat}
    (hk : workLeft (runAt handle unhurried (polling p, s) k).2.wire ≤ 2)
    (hcalm : Calm (runAt handle unhurried (polling p, s) k).2) {n : Nat} (hn : k ≤ n) :
    Calm (runAt handle unhurried (polling p, s) n).2 := by
  induction n, hn using Nat.le_induction with
  | base => exact hcalm
  | succ n hn ih =>
    have hload := Nat.le_trans (workLeft_runAt (σ := unhurried) (s := s) hp hn) hk
    have hrun :
        Runs handle (fun _ => True) (polling p, s) (runAt handle unhurried (polling p, s) n) :=
      runAt_runs (polling p, s) (Nat.zero_le n) fun _ _ _ => trivial
    rw [runAt]
    cases hm : unhurried n with
    | cpu => exact ((inside_polling hp).along Inside.refl hrun).calm.trans ih
    | irq e =>
      simp only [unhurried] at hm
      split_ifs at hm
      · cases hm
        rw [move, submit_of_workLeft hload]
        exact ih
      · cases hm
        exact ih

/-- The host sets the line encoding and reads it back. -/
def polled (n : Nat) : Stack Unit × State :=
  runAt handle unhurried (polling (.ret ()), plugged [encode9600, readEncoding]) n

theorem polling_answers_lineEncoding : ∃ n, ∀ m, n ≤ m → (polled m).2.wire.host.log =
    [(encode9600, .completed []), (readEncoding, .completed encode9600.data)] := by
  have hcalm (n : Nat) : Calm (polled n).2 := by
    obtain hn | hn := Nat.le_total n 97
    · exact of_holdsFor (k := 97) (by decide +kernel) (Nat.zero_le n) (by omega)
    · exact calm_unhurried (.ret ()) (by decide +kernel) (by decide +kernel) hn
  exact polling_answers (by decide) (.ret ()) trivial (fresh_plugged _) responsive_unhurried
    (recurs_unhurried (i := 0) fun k => by simp [unhurried]) hcalm

end Adelino.Polling
