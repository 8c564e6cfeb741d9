import Adelino.Commands
import Adelino.Frame

namespace Adelino.CommandLoop

open Adelino.Program Adelino.Logic Adelino.Progress Adelino.Machine Adelino.UsbBytes
open Adelino.Streams Adelino.UsbSpec Adelino.UsbProgress Adelino.Execution
open Adelino.Avr109 Adelino.Protocol Adelino.Commands Adelino.Frame

/-- The command loop, started on `v`, serves requests until it stands at its
top again with `w`. -/
inductive Session : View → View → Prop
  | refl (v : View) : Session v v
  | turn {u v w : View} : u.unread ≠ [] → Executes avr109Request u () v → Session v w → Session u w

theorem Session.trans {u v w : View} (h : Session u v) (h' : Session v w) : Session u w := by
  induction h with
  | refl => exact h'
  | turn hu he _ ih => exact .turn hu he (ih h')

theorem Session.le {v w : View} (h : Session v w) : Le v w := by
  induction h with
  | refl v => exact .refl v
  | turn _ he _ ih => exact he.le.trans ih

/-- Views between requests: either the host has said all it has to say, or the
next request leads to such a view again. -/
def Chain (N : View → Prop) : Prop :=
  ∀ u, N u → u.unread = [] ∨ ∃ v, Executes avr109Request u () v ∧ N v

/-- On the way from one view between requests to the next. -/
def Between (N : View → Prop) (s : State) : Prop :=
  ∃ u v, N u ∧ N v ∧ Le u (view s) ∧ Le (view s) v

section Chain

variable {N : View → Prop}

theorem between_of_view {s : State} (h : N (view s)) : Between N s := ⟨_, _, h, h, .refl _, .refl _⟩

theorem Chain.turn (hN : Chain N) :
    Triple handle Alive (Between N) (fun s => N (view s)) avr109Turn (fun _ s => N (view s)) := by
  have hstable : Stable handle Alive fun s => N (view s) := stable_view N
  refine Triple.pre (P := fun s => ∃ u, N u ∧ AtView u anyUsb s) ?_ fun s hs =>
    ⟨_, hs, rfl, trivial⟩
  refine .exists fun u => .of_pure fun hu => ?_
  refine .bind (usbByteAvailable_spec.guarantee fun s hs => ?_) fun available => ?_
  · exact between_of_view (hs ▸ hu)
  refine .ite (fun ha => ?_) (fun _ => .ret () hstable (fun s _ hs => between_of_view hs)
    fun s _ hs => hs.1 ▸ hu)
  obtain hn | ⟨v, he, hv⟩ := hN u hu
  · rintro s - ⟨hs, hb⟩
    have hne := unread_ne_nil_of_hasByte (hb.1 ha)
    rw [show s.usb.unread = u.unread from congrArg View.unread hs, hn] at hne
    exact absurd rfl hne
  · refine he.safe.conseq (fun _ ha => ha) (fun s hs => ?_) (fun s _ hs => hs.1) fun _ s hs => ?_
    · exact ⟨u, v, hu, hv, hs.1, hs.2⟩
    · rw [hs.2]
      exact hv

theorem timeoutRunning_alive : Triple handle Alive (Between N) (fun s => N (view s)) timeoutRunning
    fun running s => running = true ∧ N (view s) := by
  refine .act _ (stable_view N) (fun r => stable_view fun u => r = true ∧ N u)
    (fun s _ hs => between_of_view hs) (fun _ s _ hs => between_of_view hs.2) ?_
  intro s ha hs _
  exact ⟨by simpa using ha.1, hs⟩

theorem Chain.safe (hN : Chain N) : Triple handle Alive (Between N) (fun s => N (view s)) avr109Loop
    (fun _ _ => False) := by
  refine (Triple.whileDo (stable_view N) (stable_view fun u => false = true ∧ N u)
    (fun _ _ hs => between_of_view hs) (fun _ _ hs => between_of_view hs.2) timeoutRunning_alive
    (hN.turn.pre fun _ hs => hs.2)).post fun _ s hs => ?_
  cases hs.1

theorem Chain.at_top (hN : Chain N) {s t : State} (ha : Alive s) (hs : N (view s))
    (h : Runs handle Alive (avr109Loop, s) (avr109Loop, t)) : N (view t) :=
  Triple.whileDo_head (stable_view N) (stable_view fun u => false = true ∧ N u)
    (fun _ _ hs => between_of_view hs) (fun _ _ hs => between_of_view hs.2) timeoutRunning_alive
    (hN.turn.pre fun _ hs => hs.2) ha hs h

end Chain

theorem Session.chain {v w : View} (hw : w.unread = []) : Chain fun u => Le v u ∧ Session u w := by
  rintro u ⟨hle, h⟩
  cases h with
  | refl => exact .inl hw
  | turn _ he hrest => exact .inr ⟨_, he, hle.trans he.le, hrest⟩

theorem Session.safe {v w : View} (h : Session v w) (hw : w.unread = []) :
    Triple handle Alive (fun s => Le v (view s) ∧ Le (view s) w) (fun s => view s = v) avr109Loop
      (fun _ _ => False) := by
  refine (Session.chain (v := v) hw).safe.conseq (fun _ ha => ha) ?_ ?_ fun _ _ hs => hs
  · rintro s ⟨u, u', hu, hu', hle, hle'⟩
    exact ⟨hu.1.trans hle, hle'.trans hu'.2.le⟩
  · rintro s - rfl
    exact ⟨.refl _, h⟩

theorem loop_serves {σ : Nat → Move Event} {A : State → Prop} {v : View}
    {C : Nat → Fw Unit × State → Prop} {D : Nat → State → Prop} (hσ : Fair σ)
    (hA : ∀ s, A s → view s = v → Alive s) (hu : v.unread ≠ []) (hD : ∀ t c, D t c.2 → C t c)
    (hreq : ∀ t s, view s = v → Eventually handle σ A
      (fun t c => Returns (fun t _ s => C t (avr109Loop, s)) t c ∨ D t c.2) t (avr109Request, s))
    (t : Nat) (s : State) (hs : view s = v) : Eventually handle σ A C t (avr109Loop, s) := by
  generalize hm : distance hσ.outPacket t s.usb = w
  induction w using closer_wf.induction generalizing t s with
  | _ w ih =>
    subst hm
    have hT := nextTime_spec hσ.outPacket t
    let R : Nat → State → Prop := fun t' s' =>
      C t' (avr109Loop, s') ∨ view s' = v ∧
        Closer (distance hσ.outPacket t' s'.usb) (distance hσ.outPacket t s.usb)
    refine Eventually.iter_or (R := fun t' r s' => r = .inl () ∧ R t' s') rfl ?_ hD ?_
    · refine Eventually.bind (R := fun t' r s' => r = true ∧ t ≤ t' ∧
        Polling (backlog s.usb) (nextTime hσ.outPacket t) t' s'.usb ∧ view s' = v)
        (Total.act (P := fun t' s' => t ≤ t' ∧
          Polling (backlog s.usb) (nextTime hσ.outPacket t) t' s'.usb ∧ view s' = v)
          _ hσ.cpu ?_ ?_ t s ⟨Nat.le_refl _, polling_start _ t ?_, hs⟩) ?_
      · exact ((lasting_since t).and ((lasting_polling hT).and (lasting_view v))).stableAt
      · intro t' s' hm ha hs'
        exact ⟨by simpa using (hA s' ha hs'.2.2).1, ((lasting_since t).and
          ((lasting_polling hT).and (lasting_view v))).cpu t' s' hm hs'⟩
      · rw [show s.usb.unread = v.unread from congrArg View.unread hs]
        exact hu
      rintro t₁ _ s₁ ⟨rfl, ht, hp, hv⟩
      rw [if_pos rfl]
      refine Eventually.bind_or (R := fun t' _ s' => R t' s') ?_ (fun _ _ h => .inr h)
        (fun t' _ s' h => .here (.inl ⟨.inl (), rfl, rfl, h⟩))
      by_cases ha : A s₁
      · refine Eventually.bind ((usbByteAvailable_total hσ.cpu hT t₁ s₁ ⟨ht, hp⟩).and_safe
          (usbByteAvailable_spec s₁ ha ⟨hv, trivial⟩) ha) ?_
        rintro t₂ available s₂ ⟨⟨ht₂, -, hpolled⟩, hs₂, -⟩
        cases available with
        | true =>
          refine (hreq t₂ s₂ hs₂.1).mono fun t' c hc => hc.imp_left ?_
          rintro ⟨r, hr, hC⟩
          exact ⟨r, hr, .inl hC⟩
        | false => exact .here (.inl ⟨(), rfl, .inr ⟨hs₂.1, closer_of_polled _ ht₂ (hpolled rfl)⟩⟩)
      · exact .escape ha
    · rintro t' r s' ⟨rfl, hC | ⟨hv, hc⟩⟩
      · exact .here hC
      · exact ih _ hc t' s' hv rfl

def AtTop (w : View) (_ : Nat) (c : Fw Unit × State) : Prop := c.1 = avr109Loop ∧ view c.2 = w

theorem usbFree_alive : UsbFree Alive := fun _ _ _ hu _ hs => ⟨hs.1, by rw [hu]; exact hs.2⟩

theorem keeps_alive : Keeps Alive avr109Programmer :=
  keeps_avr109Programmer usbFree_alive (fun _ _ _ hs => hs) fun _ hn _ hs => ⟨hn, hs.2⟩

theorem keeps_alive_request : Keeps Alive avr109Request := by
  -- the request is what a turn of the loop does when a byte is there
  have hturn : Keeps Alive avr109Turn := ((keeps_alive.2 ()) ()).2 true |>.1
  exact hturn.2 true

/-- The requests are served as long as nobody gives up before the last one is. -/
theorem Session.total {σ : Nat → Move Event} {A : State → Prop} {v w : View} (h : Session v w)
    (hσ : Fair σ) (hA : ∀ s, A s → Le v (view s) → Le (view s) w → Alive s) (t : Nat) (s : State)
    (hs : view s = v) : Eventually handle σ A (AtTop w) t (avr109Loop, s) := by
  induction h generalizing t s with
  | refl v => exact .here ⟨rfl, hs⟩
  | @turn u v w hu he hrest ih =>
    have hturn : Eventually handle σ A (AtTop v) t (avr109Loop, s) := by
      refine loop_serves (D := fun _ _ => False) hσ (fun s ha hv => ?_) hu (fun _ _ hd => hd.elim)
        (fun t' s' hs' => ?_) t s hs
      · exact hA s ha (hv ▸ .refl _) (hv ▸ he.le.trans hrest.le)
      by_cases ha : A s'
      · have halive : Alive s' := hA s' ha (hs' ▸ .refl _) (hs' ▸ he.le.trans hrest.le)
        have hreq := (he.total σ hσ t' s' hs').widen (he.safe s' halive hs') halive
          keeps_alive_request
          fun e s hg hn => hA _ hn (by rw [view_handle]; exact hg.1)
            (by rw [view_handle]; exact hg.2.trans hrest.le)
        refine hreq.mono fun t c hc => .inl ?_
        obtain ⟨r, hr, -, hv⟩ := hc
        exact ⟨r, hr, rfl, hv⟩
      · exact .escape ha
    refine hturn.trans fun t' c hc => ?_
    obtain ⟨p, s'⟩ := c
    obtain ⟨rfl, hv⟩ := hc
    exact ih (fun s ha hle hle' => hA s ha (he.le.trans hle) hle') t' s' hv

theorem dispatch_total {σ : Nat → Move Event} {v : View} {b : UInt8} {rest : List UInt8}
    (hσ : Fair σ) (hu : v.unread = b :: rest) (t : Nat) (s : State) (hs : view s = v) :
    Eventually handle σ Alive (fun _ c => view c.2 = dispatch b rest v) t (avr109Loop, s) := by
  refine loop_serves (D := fun _ s => view s = dispatch b rest v) hσ (fun _ ha _ => ha)
    (by rw [hu]; exact List.cons_ne_nil _ _) (fun _ _ hd => hd) (fun t' s' hs' => ?_) t s hs
  refine ((executes_usbReadByte b rest hu).total σ hσ t' s' hs').bind ?_
  rintro t₁ _ s₁ ⟨rfl, hv⟩
  refine ((noteDispatch_executes _ rest v).total σ hσ t₁ s₁ hv).bind ?_
  rintro t₂ _ s₂ ⟨-, hv⟩
  exact .here (.inr hv)

section Programmer

/-- `AVR109_programmer` after `n` moves, when its caller left the state `s`. -/
def programmerAt (σ : Nat → Move Event) (s : State) (n : Nat) : Fw Unit × State :=
  runAt handle σ (avr109Programmer, s) n

/-- Neither a timeout nor a detachment up to time `n`. -/
def AliveUntil (σ : Nat → Move Event) (s : State) (n : Nat) : Prop :=
  ∀ m, 0 < m → m ≤ n → Alive (programmerAt σ s m).2

variable {σ : Nat → Move Event} {s : State} {w : View}

theorem programmerAt_one (h0 : σ 0 = .cpu) : (programmerAt σ s 1).1 = avr109Loop ∧
    view (programmerAt σ s 1).2 = view s := by
  simp only [programmerAt, runAt, h0]
  exact ⟨rfl, rfl⟩

theorem programmerAt_runs (h0 : σ 0 = .cpu) (n : Nat) (ha : AliveUntil σ s (n + 1)) :
    ∃ s', view s' = view s ∧ Alive s' ∧
      Runs handle Alive (avr109Loop, s') (programmerAt σ s (n + 1)) := by
  obtain ⟨hp, hv⟩ := programmerAt_one (s := s) h0
  have hone : programmerAt σ s 1 = (avr109Loop, (programmerAt σ s 1).2) := by rw [← hp]
  refine ⟨(programmerAt σ s 1).2, hv, ha 1 (by omega) (by omega), ?_⟩
  rw [← hone]
  exact runAt_runs _ (by omega) fun m hm hn => ha m (by omega) hn

theorem programmer_safe (h0 : σ 0 = .cpu) (h : Session (view s) w) (hw : w.unread = []) (n : Nat)
    (ha : AliveUntil σ s n) :
    Le (view s) (view (programmerAt σ s n).2) ∧ Le (view (programmerAt σ s n).2) w := by
  cases n with
  | zero => exact ⟨.refl _, h.le⟩
  | succ n =>
    obtain ⟨s', hv, ha', hr⟩ := programmerAt_runs h0 n ha
    exact (h.safe hw s' ha' hv _ hr).1

theorem programmer_top {N : View → Prop} (h0 : σ 0 = .cpu) (hN : Chain N) (hs : N (view s))
    (n : Nat) (ha : AliveUntil σ s n) (htop : (programmerAt σ s n).1 = avr109Loop) :
    N (view (programmerAt σ s n).2) := by
  cases n with
  | zero => cases htop
  | succ n =>
    obtain ⟨s', hv, ha', hr⟩ := programmerAt_runs h0 n ha
    rw [show programmerAt σ s (n + 1) = (avr109Loop, (programmerAt σ s (n + 1)).2) by
      rw [← htop]] at hr
    exact hN.at_top ha' (hv ▸ hs) hr

/-- The program is back at the top of the loop, and the host has nothing left to
say. -/
def AtRest (c : Fw Unit × State) : Prop := c.1 = avr109Loop ∧ c.2.usb.unread = []

/-- The session comes to rest, unless a timeout or a detachment comes first. -/
def Rests (σ : Nat → Move Event) (s : State) : Prop :=
  (∃ n, AliveUntil σ s n ∧ AtRest (programmerAt σ s n)) ∨
    ∃ n, ¬ AliveUntil σ s n ∧ ∀ m < n, ¬ AtRest (programmerAt σ s m)

theorem programmer_total (h0 : σ 0 = .cpu) (hσ : Fair σ) (h : Session (view s) w)
    (ha : ∀ n, AliveUntil σ s n) : ∃ n, AtTop w n (programmerAt σ s n) := by
  obtain ⟨hp, hv⟩ := programmerAt_one (s := s) h0
  have he := h.total hσ (fun _ ha _ _ => ha) 1 _ hv
  obtain ⟨n, -, hn⟩ := he.exists_runAt (avr109Programmer, s) (by rw [← hp]; rfl)
    fun n hn => ha n n hn (Nat.le_refl n)
  exact ⟨n, hn⟩

theorem programmer_rests (h0 : σ 0 = .cpu) (hσ : Fair σ) (h : Session (view s) w)
    (hw : w.unread = []) : Rests σ s := by
  classical
  by_cases ha : ∀ n, AliveUntil σ s n
  · obtain ⟨n, htop, hv⟩ := programmer_total h0 hσ h ha
    exact .inl ⟨n, ha n, htop, (congrArg View.unread hv).trans hw⟩
  · have hdead : ∃ n, ¬ AliveUntil σ s n := not_forall.mp ha
    by_cases hrest : ∃ n, AliveUntil σ s n ∧ AtRest (programmerAt σ s n)
    · exact .inl hrest
    · refine .inr ⟨Nat.find hdead, Nat.find_spec hdead, fun m hm hr => hrest ⟨m, ?_, hr⟩⟩
      exact not_not.mp (Nat.find_min hdead hm)

/-- The byte after a session is interpreted as a command, whatever it is. -/
theorem programmer_dispatches {b : UInt8} {rest : List UInt8} (h0 : σ 0 = .cpu) (hσ : Fair σ)
    (h : Session (view s) w) (hw : w.unread = b :: rest) (ha : ∀ n, AliveUntil σ s n) :
    ∃ n, view (programmerAt σ s n).2 = dispatch b rest w := by
  obtain ⟨hp, hv⟩ := programmerAt_one (s := s) h0
  have he := (h.total hσ (fun _ ha _ _ => ha) 1 _ hv).trans
    (D := fun _ c => view c.2 = dispatch b rest w) ?_
  · obtain ⟨n, -, hn⟩ := he.exists_runAt (avr109Programmer, s) (by rw [← hp]; rfl)
      fun n hn => ha n n hn (Nat.le_refl n)
    exact ⟨n, hn⟩
  · rintro t ⟨p, s'⟩ ⟨hp', hv'⟩
    dsimp only at hp' hv'
    subst hp'
    exact dispatch_total hσ hw t s' hv'

theorem aliveUntil_roundRobin (hs : Alive s) (n : Nat) : AliveUntil roundRobin s n := by
  intro m _ _
  refine (runAt_keeps ?_ (avr109Programmer, s) keeps_alive hs m).2
  intro k e s' hm ha
  have he : e = .outPacket ∨ e = .inTaken := by
    simp only [roundRobin] at hm
    split at hm
    · cases hm
    · split at hm <;> simp_all
  obtain rfl | rfl := he
  · exact ⟨ha.1, by rw [handle, outPacket_frame]; exact ha.2⟩
  · exact ⟨ha.1, by rw [handle, inTaken_frame]; exact ha.2⟩

end Programmer

end Adelino.CommandLoop
