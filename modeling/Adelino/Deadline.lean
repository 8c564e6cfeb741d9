import Adelino.Progress
import Adelino.Calls

namespace Adelino.Deadline

open Adelino.Program Adelino.Logic Adelino.Calls Adelino.Progress

variable {S E α β X : Type}

section Time

variable [DecidableEq E] {σ : Nat → Move E} {m : Move E} (h : Recurs σ m)

/-- The time by which the move has been made `k` times more. -/
def deadline : Nat → Nat → Nat
  | 0, t => t
  | k + 1, t => deadline k (nextTime h t + 1)

theorem le_deadline (k t : Nat) : t ≤ deadline h k t := by
  induction k generalizing t with
  | zero => exact Nat.le_refl t
  | succ k ih => exact Nat.le_trans (Nat.le_succ_of_le (le_nextTime h t)) (ih _)

theorem lt_deadline {k : Nat} (hk : 0 < k) (t : Nat) : t < deadline h k t := by
  cases k with
  | zero => cases hk
  | succ k => exact Nat.lt_of_lt_of_le (Nat.lt_succ_of_le (le_nextTime h t)) (le_deadline h k _)

theorem deadline_le_succ (k t : Nat) : deadline h k t ≤ deadline h (k + 1) t := by
  induction k generalizing t with
  | zero => exact le_deadline h 1 t
  | succ k ih => exact ih _

theorem deadline_mono {k l : Nat} (hk : k ≤ l) (t : Nat) : deadline h k t ≤ deadline h l t := by
  induction l, hk using Nat.le_induction with
  | base => exact Nat.le_refl _
  | succ l _ ih => exact Nat.le_trans ih (deadline_le_succ h l t)

theorem deadline_skip {k t : Nat} (hk : 0 < k) (hm : σ t ≠ m) :
    deadline h k (t + 1) = deadline h k t := by
  cases k with
  | zero => cases hk
  | succ k =>
    have hne : t ≠ nextTime h t := fun he => hm (he ▸ nextTime_spec h t)
    have hlt : t + 1 ≤ nextTime h t := Nat.lt_of_le_of_ne (le_nextTime h t) hne
    rw [deadline, deadline, nextTime_eq h (Nat.le_succ t) hlt]

theorem deadline_hit {k t : Nat} (hm : σ t = m) : deadline h k (t + 1) = deadline h (k + 1) t := by
  have hnow : nextTime h t = t := (Nat.find_eq_iff _).mpr
    ⟨⟨Nat.le_refl t, hm⟩, fun n hn hc => absurd hc.1 (Nat.not_le_of_lt hn)⟩
  rw [deadline, hnow]

end Time

section Rank

variable [DecidableEq E] {σ : Nat → Move E} {m : Move E} (h : Recurs σ m) (ρ : S → Nat)

/-- What the program waits for, `ρ` moves away, is there before `Δ`. -/
def Due (Δ t : Nat) (s : S) : Prop := 0 < ρ s → deadline h (ρ s) t ≤ Δ

variable {h ρ} {Δ t : Nat} {s s' : S}

theorem Due.lt (hd : Due h ρ Δ t s) (hs : 0 < ρ s) : t < Δ :=
  Nat.lt_of_lt_of_le (lt_deadline h hs t) (hd hs)

theorem Due.skip (hd : Due h ρ Δ t s) (hm : σ t ≠ m) (hs : ρ s' ≤ ρ s) : Due h ρ Δ (t + 1) s' := by
  intro hpos
  rw [deadline_skip h hpos hm]
  exact Nat.le_trans (deadline_mono h hs t) (hd (Nat.lt_of_lt_of_le hpos hs))

theorem Due.hit (hd : Due h ρ Δ t s) (hm : σ t = m) (hs : 0 < ρ s → ρ s' < ρ s) (hz : ρ s' ≤ ρ s) :
    Due h ρ Δ (t + 1) s' := by
  intro hpos
  have hold : 0 < ρ s := Nat.lt_of_lt_of_le hpos hz
  rw [deadline_hit h hm]
  exact Nat.le_trans (deadline_mono h (hs hold) t) (hd hold)

end Rank

section Programs

variable (handle : E → S → S) (A : S → Prop)

/-- While `I` holds, no event leads away from what the program waits for, and
`e₀` leads closer to it. -/
structure Awaits (I : S → Prop) (ρ : S → Nat) (e₀ : E) : Prop where
  stable : Stable handle A I
  other : ∀ e s, A s → A (handle e s) → I s → ρ (handle e s) ≤ ρ s
  helped : ∀ s, A s → A (handle e₀ s) → I s → 0 < ρ s → ρ (handle e₀ s) < ρ s

/-- The program returns under every schedule in `F`. -/
def Live (F : (Nat → Move E) → Prop) (P : S → Prop) (p : Prog S α) : Prop :=
  ∀ σ, F σ → Total handle σ A (fun _ => P) p fun _ _ _ => True

variable {handle A} {G I : S → Prop} {F : (Nat → Move E) → Prop} {σ : Nat → Move E}

def Straight : {α : Type} → Prog S α → Prop
  | _, .ret _ => True
  | _, .act _ => True
  | _, .bind p k => p.isRet = false ∧ Straight p ∧ ∀ b, Straight (k b)
  | _, .iter _ _ => False

theorem Total.assume {P : Nat → S → Prop} {Q : Nat → α → S → Prop} {p : Prog S α}
    (h : Total handle σ A (fun t s => A s → P t s) p fun t a s => A s → Q t a s) :
    Total handle σ A P p Q := by
  intro t s hs
  refine (h t s fun _ => hs).trans ?_
  rintro t ⟨q, s⟩ ⟨a, rfl, hq⟩
  by_cases ha : A s
  · exact .here ⟨a, rfl, hq ha⟩
  · exact .escape ha

theorem Total.access {P : Nat → S → Prop} {Q : Nat → α → S → Prop} (f : S → α × S)
    (hσ : Recurs σ .cpu)
    (hp : ∀ t e s, σ t = .irq e → A s → A (handle e s) → P t s → P (t + 1) (handle e s))
    (h : ∀ t s, σ t = .cpu → A s → P t s → Q (t + 1) (f s).1 (f s).2) :
    Total handle σ A P (.act f) Q :=
  Total.assume (.act f hσ (fun t e s hm ha hs hn => hp t e s hm ha hn (hs ha))
    fun t s hm ha hs _ => h t s hm ha (hs ha))

theorem Total.safely {P : Nat → S → Prop} {Q : Nat → α → S → Prop} {R : α → S → Prop} {p : Prog S α}
    (ht : Total handle σ A P p Q) (hs : Triple handle A G I p R) (hP : ∀ t s, P t s → I s) :
    Total handle σ A P p fun t a s => Q t a s ∧ R a s := by
  intro t s hp
  by_cases ha : A s
  · exact ((ht t s hp).and_safe (hs s ha (hP t s hp)) ha).mono fun _ _ ⟨a, he, hq⟩ =>
      ⟨a, he, hq.1, hq.2.1⟩
  · exact .escape ha

theorem Live.straight (hF : ∀ σ, F σ → Recurs σ .cpu) {p : Prog S α} (hp : Straight p)
    (P : S → Prop) : Live handle A F P p := by
  intro σ hσ
  refine .conseq (P := fun _ _ => True) (Q := fun _ _ _ => True) ?_ (fun _ _ _ => trivial)
    fun _ _ _ _ => trivial
  induction p with
  | ret a => exact .ret a fun _ _ _ => trivial
  | act f => exact .act f (hF σ hσ) (fun _ _ _ _ _ _ => trivial) fun _ _ _ _ _ => trivial
  | bind p k ihp ihk =>
    rw [← Prog.andThen_eq_bind p k hp.1]
    exact .bind (ihp hp.2.1) fun b => ihk b (hp.2.2 b)
  | iter => exact hp.elim

theorem Live.bind {P : S → Prop} {R : β → S → Prop} {p : Prog S β} {k : β → Prog S α}
    (hp : Live handle A F P p) (hs : Triple handle A G P p R)
    (hk : ∀ b, Live handle A F (R b) (k b)) : Live handle A F P (p >>= k) := by
  intro σ hσ t s hP
  by_cases ha : A s
  · refine ((hp σ hσ t s hP).and_safe (hs s ha hP) ha).bind ?_
    rintro t b s ⟨-, hb, -⟩
    exact hk b σ hσ t s hb
  · exact .escape ha

theorem Live.pre {P P' : S → Prop} {p : Prog S α} (h : Live handle A F P p) (hP : ∀ s, P' s → P s) :
    Live handle A F P' p :=
  fun σ hσ t s hs => h σ hσ t s (hP s hs)

theorem Live.exists {ι : Type} {P : ι → S → Prop} {p : Prog S α}
    (h : ∀ i, Live handle A F (P i) p) : Live handle A F (fun s => ∃ i, P i s) p := by
  rintro σ hσ t s ⟨i, hi⟩
  exact h i σ hσ t s hi

section Polling

variable [DecidableEq E] {P : X → S → Prop} {Q : α → S → Prop} {body : X → Prog S (X ⊕ α)}
  {ρ : S → Nat} {e₀ : E}

/-- The time is `t₀` or later, `I` holds, and the wait is over before `Δ`. -/
def Pending (h : Recurs σ (.irq e₀)) (ρ : S → Nat) (Δ t₀ : Nat) (I : S → Prop) (t : Nat) (s : S) :
    Prop :=
  t₀ ≤ t ∧ I s ∧ Due h ρ Δ t s

theorem Awaits.irq (hw : Awaits handle A I ρ e₀) {h : Recurs σ (.irq e₀)} {Δ t₀ t : Nat} {e : E}
    {s : S} (hm : σ t = .irq e) (ha : A s) (hn : A (handle e s)) (hs : Pending h ρ Δ t₀ I t s) :
    Pending h ρ Δ t₀ I (t + 1) (handle e s) := by
  obtain ⟨ht, hi, hd⟩ := hs
  refine ⟨Nat.le_succ_of_le ht, hw.stable e s ha hn hi, ?_⟩
  by_cases he : e = e₀
  · subst he
    exact hd.hit hm (hw.helped s ha hn hi) (hw.other e s ha hn hi)
  · exact hd.skip (by rw [hm]; simpa using he) (hw.other e s ha hn hi)

theorem Awaits.look (hw : Awaits handle A I ρ e₀) (hσ : Recurs σ .cpu) (h : Recurs σ (.irq e₀))
    {Δ t₀ : Nat} (f : S → β) {c : β → Prop} (hc : ∀ s, I s → c (f s) → 0 < ρ s) :
    Total handle σ A (Pending h ρ Δ t₀ I) (.read f) fun t b s =>
      Pending h ρ Δ (t₀ + 1) I t s ∧ (c b → t₀ < Δ) := by
  refine Total.access _ hσ (fun t e s hm ha hn hs => hw.irq hm ha hn hs) fun t s hm ha hs => ?_
  obtain ⟨ht, hi, hd⟩ := hs
  refine ⟨⟨Nat.succ_le_succ ht, hi, hd.skip (by rw [hm]; simp) (Nat.le_refl _)⟩, fun hb => ?_⟩
  exact Nat.lt_of_le_of_lt ht (hd.lt (hc s hi hb))

theorem Awaits.glance (hw : Awaits handle A I ρ e₀) (hσ : Recurs σ .cpu) (h : Recurs σ (.irq e₀))
    {Δ t₀ : Nat} (f : S → β) :
    Total handle σ A (Pending h ρ Δ t₀ I) (.read f) fun t _ s => Pending h ρ Δ t₀ I t s :=
  .conseq (hw.look hσ h f (c := fun _ => False) fun _ _ hc => hc.elim) (fun _ _ hs => hs)
    fun _ _ _ hq => ⟨Nat.le_of_succ_le hq.1.1, hq.1.2⟩

/-- What a turn of a polling loop has to show: it has come closer to the end of
the loop, or it has found at some time after `t₀` that it has to wait. -/
def Polled (μ : X → Nat) (h : Recurs σ (.irq e₀)) (ρ : S → Nat) (Δ t₀ : Nat) (x : X) (t : Nat)
    (r : X ⊕ α) (s : S) : Prop :=
  ∀ y, r = .inl y → μ y < μ x ∨ y = x ∧ t₀ < t ∧ t₀ < Δ ∧ Due h ρ Δ t s

theorem Polled.leave {μ : X → Nat} {h : Recurs σ (.irq e₀)} {Δ t₀ : Nat} {x : X}
    {P : Nat → S → Prop} (a : α) : Total handle σ A P (.ret (.inr a)) (Polled μ h ρ Δ t₀ x) :=
  .ret _ fun _ _ _ _ hy => nomatch hy

theorem Polled.wait {μ : X → Nat} {h : Recurs σ (.irq e₀)} {Δ t₀ t₁ : Nat} {x : X} (ht : t₀ < t₁)
    (hΔ : t₀ < Δ) : Total handle σ A (Pending h ρ Δ t₁ I) (.ret (.inl x))
      (Polled (α := α) μ h ρ Δ t₀ x) := by
  refine .ret _ fun t s hs y hy => .inr ?_
  cases hy
  exact ⟨rfl, Nat.lt_of_lt_of_le ht hs.1, hΔ, hs.2.2⟩

/-- A loop that polls returns when each turn comes closer to its end or finds
that it has to wait for the environment. -/
theorem Live.poll (μ : X → Nat) (hF : ∀ σ, F σ → Recurs σ (.irq e₀))
    (hr : ∀ x, (body x).isRet = false)
    (hs : ∀ x, Triple handle A G (P x) (body x) fun r => Sum.elim P Q r)
    (hb : ∀ σ (hσ : F σ) (Δ t₀ : Nat) x,
      Total handle σ A (fun t s => t₀ ≤ t ∧ P x s ∧ Due (hF σ hσ) ρ Δ t s) (body x)
        (Polled μ (hF σ hσ) ρ Δ t₀ x)) (x : X) :
    Live handle A F (P x) (.iter body x) := by
  intro σ hσ
  -- the measure: what is left of the loop, and the time until the wait is over
  refine .conseq (Total.iter (P := fun _ x s => A s → P x s) (Prod.lex Nat.lt_wfRel Nat.lt_wfRel).wf
    (fun t x s => (μ x, if ρ s = 0 then 0 else deadline (hF σ hσ) (ρ s) t - t)) hr ?_ x)
    (fun _ _ hs _ => hs) fun _ _ _ hq => hq
  rintro x w t₀ s₀ ⟨hP, rfl⟩
  by_cases ha : A s₀
  · have hturn := hb σ hσ (deadline (hF σ hσ) (ρ s₀) t₀) t₀ x t₀ s₀
      ⟨Nat.le_refl _, hP ha, fun _ => Nat.le_refl _⟩
    refine (hturn.and_safe (hs x s₀ ha (hP ha)) ha).mono ?_
    rintro t ⟨q, s⟩ ⟨r, rfl, hp, hq, -⟩
    refine ⟨r, rfl, ?_⟩
    cases r with
    | inr a => trivial
    | inl y =>
      refine ⟨fun _ => hq, ?_⟩
      obtain hlt | ⟨rfl, ht, hΔ, hdue⟩ := hp y rfl
      · exact Prod.Lex.left _ _ hlt
      · refine Prod.Lex.right _ ?_
        have hpos : ρ s₀ ≠ 0 := fun h0 => by simp [h0, deadline] at hΔ
        rw [if_neg hpos]
        show _ < _
        split
        · omega
        · next h0 =>
          have hle := hdue (Nat.pos_of_ne_zero h0)
          omega
  · exact .escape ha

end Polling

section Runs

variable {C : Nat → Prog S α × S → Prop} {R : Nat → α → S → Prop} {Q : α → S → Prop} {t : Nat}
  {c : Prog S α × S}

theorem Eventually.narrow {A' : S → Prop} (h : Eventually handle σ A C t c) (hA : ∀ s, A' s → A s) :
    Eventually handle σ A' C t c := by
  induction h with
  | here hc => exact .here hc
  | escape hn => exact .escape fun ha => hn (hA _ ha)
  | next hr _ ih => exact .next hr ih

theorem Eventually.le (h : Eventually handle σ A C t c) :
    Eventually handle σ A (fun t' c => t ≤ t' ∧ C t' c) t c := by
  induction h with
  | here hc => exact .here ⟨Nat.le_refl _, hc⟩
  | escape hn => exact .escape hn
  | next hr _ ih => exact .next hr (ih.mono fun _ _ hc => ⟨Nat.le_of_succ_le hc.1, hc.2⟩)

theorem Eventually.later (h : Eventually handle σ A (Returns R) t c) (hc : c.1.isRet = false) :
    Eventually handle σ A (Returns fun t' a s => t < t' ∧ R t' a s) t c := by
  cases h with
  | here hr =>
    obtain ⟨a, ha, -⟩ := hr
    rw [ha] at hc
    cases hc
  | escape hn => exact .escape hn
  | next hr h => exact .next hr ((Eventually.le h).mono fun _ _ ⟨ht, a, ha, hR⟩ => ⟨a, ha, ht, hR⟩)

/-- A program that does not return runs until the event `e` ends the
assumption. -/
theorem Safe.leaves {e : E} (hm : Recurs σ (.irq e)) (he : ∀ s, A s → G s → ¬ A (handle e s))
    (hQ : ∀ a s, ¬ Q a s) (t : Nat) (c : Prog S α × S) (ha : A c.2) (hs : Safe handle A G Q c) :
    Eventually handle σ A (fun _ _ => False) t c := by
  obtain ⟨n, hn, hm⟩ := hm t
  induction hd : n - t generalizing t c with
  | zero =>
    obtain rfl : t = n := by omega
    obtain ⟨hg, hq⟩ := hs c (.refl c)
    cases hr : c.1.isRet with
    | true =>
      obtain ⟨a, hc⟩ := Prog.eq_ret_of_isRet hr
      exact (hQ a c.2 (hq a hc)).elim
    | false =>
      refine .next hr (.escape ?_)
      rw [hm]
      exact he c.2 ha hg
  | succ d ih =>
    obtain ⟨hg, hq⟩ := hs c (.refl c)
    cases hr : c.1.isRet with
    | true =>
      obtain ⟨a, hc⟩ := Prog.eq_ret_of_isRet hr
      exact (hQ a c.2 (hq a hc)).elim
    | false =>
      refine .next hr ?_
      by_cases hn : A (move handle (σ t) c).2
      · exact ih (t + 1) _ hn (hs.next _ hn) (by omega) (by omega)
      · exact .escape hn

def holdsFor (handle : E → S → S) (σ : Nat → Move E) (A : S → Prop) [DecidablePred A] :
    Nat → Nat → Prog S α × S → Bool
  | _, 0, c => decide (A c.2)
  | t, k + 1, c => decide (A c.2) && holdsFor handle σ A (t + 1) k (move handle (σ t) c)

theorem of_holdsFor [DecidablePred A] {c : Prog S α × S} {t k : Nat}
    (h : holdsFor handle σ A t k (runAt handle σ c t) = true) {n : Nat} (ht : t ≤ n)
    (hn : n ≤ t + k) : A (runAt handle σ c n).2 := by
  induction k generalizing t with
  | zero =>
    obtain rfl : n = t := Nat.le_antisymm hn ht
    exact of_decide_eq_true h
  | succ k ih =>
    rw [holdsFor, Bool.and_eq_true, decide_eq_true_eq] at h
    obtain rfl | hlt := Nat.eq_or_lt_of_le ht
    · exact h.1
    · exact ih h.2 hlt (by omega)

theorem of_holdsFor_isRet [DecidablePred A] {I : S → Prop} {c : Prog S α × S} {k : Nat}
    (h : holdsFor handle σ A 0 k c = true) (hr : (runAt handle σ c k).1.isRet = true)
    (hi : I (runAt handle σ c k).2) (he : ∀ n e s, σ n = .irq e → I s → I (handle e s))
    (hA : ∀ s, I s → A s) (n : Nat) : A (runAt handle σ c n).2 := by
  obtain hn | hn := Nat.le_total n k
  · exact of_holdsFor h (Nat.zero_le n) (by omega)
  suffices hall : (runAt handle σ c n).1.isRet = true ∧ I (runAt handle σ c n).2 from hA _ hall.2
  induction n, hn using Nat.le_induction with
  | base => exact ⟨hr, hi⟩
  | succ n _ ih =>
    obtain ⟨a, ha⟩ := Prog.eq_ret_of_isRet ih.1
    rw [runAt]
    cases hm : σ n with
    | cpu => rw [move, ha]; exact ⟨rfl, ih.2⟩
    | irq e => exact ⟨ih.1, he n e _ hm ih.2⟩

/-- A measure that neither events nor accesses increase goes down along every
schedule. -/
theorem runAt_antitone {R : S → S → Prop} {μ : S → Nat} (hR : ∀ s, R s s)
    (hμ : ∀ s t, R s t → μ t ≤ μ s) (he : ∀ e s, μ (handle e s) ≤ μ s) {p : Prog S α}
    (hb : Built R noProcedures p) (s : S) {n m : Nat} (h : n ≤ m) :
    μ (runAt handle σ (p, s) m).2 ≤ μ (runAt handle σ (p, s) n).2 := by
  induction m, h using Nat.le_induction with
  | base => exact Nat.le_refl _
  | succ m _ ih =>
    refine Nat.le_trans ?_ ih
    have hrun : Runs handle (fun _ => True) (p, s) (runAt handle σ (p, s) m) :=
      runAt_runs (p, s) (Nat.zero_le m) fun _ _ _ => trivial
    rw [runAt]
    cases σ m with
    | cpu => exact hμ _ _ (hb.along hR hrun)
    | irq e => exact he e _

end Runs

section Correctness

variable (handle A G F)

/-- Total correctness under interrupts: the program keeps to its specification
in every run, and it returns under every schedule in `F`. -/
structure Correct (P : S → Prop) (p : Prog S α) (Q : α → S → Prop) : Prop where
  safe : Triple handle A G P p Q
  live : Live handle A F P p

variable {handle A G F} {G' P P' : S → Prop} {Q Q' : α → S → Prop} {p q : Prog S α}

theorem Correct.ret (a : α) (hs : Stable handle A (Q a)) (hg : ∀ s, A s → Q a s → G s)
    (h : ∀ s, A s → P s → Q a s) : Correct handle A G F P (.ret a) Q :=
  ⟨.ret a hs hg h, fun _ _ => .ret a fun _ _ _ => trivial⟩

theorem Correct.act (hF : ∀ σ, F σ → Recurs σ .cpu) (f : S → α × S) (hp : Stable handle A P)
    (hq : ∀ a, Stable handle A (Q a)) (hgp : ∀ s, A s → P s → G s) (hgq : ∀ a s, A s → Q a s → G s)
    (h : ∀ s, A s → P s → A (f s).2 → Q (f s).1 (f s).2) : Correct handle A G F P (.act f) Q :=
  ⟨.act f hp hq hgp hgq h, Live.straight hF (show Straight (.act f) from trivial) P⟩

theorem Correct.bind {R : β → S → Prop} {p : Prog S β} {k : β → Prog S α}
    (hp : Correct handle A G F P p R) (hk : ∀ b, Correct handle A G F (R b) (k b) Q) :
    Correct handle A G F P (p >>= k) Q :=
  ⟨hp.safe.bind fun b => (hk b).safe, hp.live.bind hp.safe fun b => (hk b).live⟩

theorem Correct.conseq (h : Correct handle A G F P p Q) (hG : ∀ s, G s → G' s)
    (hP : ∀ s, P' s → P s) (hQ : ∀ a s, Q a s → Q' a s) : Correct handle A G' F P' p Q' :=
  ⟨h.safe.conseq (fun _ ha => ha) hG (fun s _ => hP s) hQ, h.live.pre hP⟩

theorem Correct.pre (h : Correct handle A G F P p Q) (hP : ∀ s, P' s → P s) :
    Correct handle A G F P' p Q :=
  h.conseq (fun _ hg => hg) hP fun _ _ hq => hq

theorem Correct.post (h : Correct handle A G F P p Q) (hQ : ∀ a s, Q a s → Q' a s) :
    Correct handle A G F P p Q' :=
  h.conseq (fun _ hg => hg) (fun _ hp => hp) hQ

theorem Correct.exists {ι : Type} {P : ι → S → Prop} (h : ∀ i, Correct handle A G F (P i) p Q) :
    Correct handle A G F (fun s => ∃ i, P i s) p Q :=
  ⟨.exists fun i => (h i).safe, .exists fun i => (h i).live⟩

theorem Correct.of_pure {c : Prop} (h : c → Correct handle A G F P p Q) :
    Correct handle A G F (fun s => c ∧ P s) p Q :=
  ⟨.of_pure fun hc => (h hc).safe, fun σ hσ t s hs => (h hs.1).live σ hσ t s hs.2⟩

theorem Correct.ite {c : Prop} [Decidable c] (hp : c → Correct handle A G F P p Q)
    (hq : ¬ c → Correct handle A G F P q Q) : Correct handle A G F P (if c then p else q) Q := by
  by_cases hc : c
  · rw [if_pos hc]; exact hp hc
  · rw [if_neg hc]; exact hq hc

theorem Correct.frame {J : S → Prop} (hJ : Stable handle A J) (h : Correct handle A G F P p Q)
    (hk : Keeps J p) : Correct handle A G F (fun s => J s ∧ P s) p fun a s => J s ∧ Q a s :=
  ⟨((Triple.of_keeps hJ p hk).and h.safe).guarantee fun _ hg => hg.2, h.live.pre fun _ hs => hs.2⟩

theorem Correct.total (h : Correct handle A G F P p Q) {σ : Nat → Move E} (hσ : F σ) :
    Total handle σ A (fun _ => P) p fun _ a s => Q a s :=
  .conseq (Total.safely (h.live σ hσ) h.safe fun _ _ hp => hp) (fun _ _ hp => hp)
    fun _ _ _ hq => hq.2

/-- A loop each of whose turns brings a measure down that nothing else raises. -/
theorem Correct.descend {P : X → S → Prop} {body : X → Prog S (X ⊕ α)} (μ : X → S → Nat)
    (hr : ∀ x, (body x).isRet = false)
    (hb : ∀ x L, Correct handle A G F (fun s => μ x s ≤ L ∧ P x s) (body x) fun r =>
      Sum.elim (fun y s => μ y s < L ∧ P y s) Q r) (x : X) :
    Correct handle A G F (P x) (.iter body x) Q := by
  have hs (x : X) : Triple handle A G (P x) (body x) fun r => Sum.elim P Q r := by
    intro s ha hs
    refine (hb x (μ x s)).safe.post ?_ s ha ⟨Nat.le_refl _, hs⟩
    rintro (y | a) s h
    · exact h.2
    · exact h
  refine ⟨.iter hs x, fun σ hσ => ?_⟩
  refine .conseq (Total.iter (P := fun _ x s => A s → P x s) Nat.lt_wfRel.wf (fun _ x s => μ x s) hr
    ?_ x) (fun _ _ hs _ => hs) fun _ _ _ hq => hq
  rintro x w t₀ s₀ ⟨hP, rfl⟩
  by_cases ha : A s₀
  · refine ((hb x (μ x s₀)).total hσ t₀ s₀ ⟨Nat.le_refl _, hP ha⟩).mono ?_
    rintro t ⟨q, s⟩ ⟨r, rfl, hq⟩
    refine ⟨r, rfl, ?_⟩
    cases r with
    | inr a => trivial
    | inl y => exact ⟨fun _ => hq.2, hq.1⟩
  · exact .escape ha

theorem Correct.loop {P : X → S → Prop} {body : X → Prog S (X ⊕ α)} (μ : X → Nat)
    (hr : ∀ x, (body x).isRet = false)
    (hb : ∀ x, Correct handle A G F (P x) (body x) fun r =>
      Sum.elim (fun y s => μ y < μ x ∧ P y s) Q r) (x : X) :
    Correct handle A G F (P x) (.iter body x) Q := by
  refine .descend (fun x _ => μ x) hr (fun x L => .of_pure fun hL => (hb x).post ?_) x
  rintro (y | a) s h
  · exact ⟨Nat.lt_of_lt_of_le h.1 hL, h.2⟩
  · exact h

theorem Correct.whileDo_skip {c : Prog S Bool} {body : Prog S Unit} {R : S → Prop}
    (hr : c.isRet = false) (hR : Stable handle A R) (hG : ∀ s, A s → R s → G s)
    (hc : Correct handle A G F P c fun b s => b = false ∧ R s) :
    Correct handle A G F P (.whileDo c body) fun _ => R := by
  refine .loop (P := fun _ => P) (fun _ => 0) (fun _ => ?_) (fun _ => ?_) ()
  · show (c >>= _).isRet = false
    rw [Prog.bind_eq, Prog.andThen_eq_bind c _ hr]
    rfl
  · refine hc.bind fun b => .of_pure fun hb => ?_
    subst hb
    exact .ret _ hR hG fun _ _ hs => hs

theorem Correct.poll [DecidableEq E] {P : X → S → Prop} {body : X → Prog S (X ⊕ α)} {ρ : S → Nat}
    {e₀ : E} (μ : X → Nat) (hF : ∀ σ, F σ → Recurs σ (.irq e₀)) (hr : ∀ x, (body x).isRet = false)
    (hs : ∀ x, Triple handle A G (P x) (body x) fun r => Sum.elim P Q r)
    (hb : ∀ σ (hσ : F σ) (Δ t₀ : Nat) x,
      Total handle σ A (Pending (hF σ hσ) ρ Δ t₀ (P x)) (body x) (Polled μ (hF σ hσ) ρ Δ t₀ x))
    (x : X) : Correct handle A G F (P x) (.iter body x) Q :=
  ⟨.iter hs x, .poll μ hF hr hs hb x⟩

theorem Correct.revisits {I : X → S → Prop} {body : X → Prog S (X ⊕ α)}
    (hr : ∀ x, (body x).isRet = false)
    (hb : ∀ x, Correct handle A G F (I x) (body x) fun r => Sum.elim I (fun _ _ => False) r)
    {σ : Nat → Move E} (hσ : F σ) (c : Prog S α × S) (hA : ∀ n, A (runAt handle σ c n).2) {n : Nat}
    {x : X} {s : S} (hn : runAt handle σ c n = (.iter body x, s)) (hs : I x s) :
    ∃ m y t, n < m ∧ runAt handle σ c m = (.iter body y, t) ∧ I y t := by
  have hturn := Eventually.later ((hb x).total hσ n s hs) (hr x)
  have hend := Eventually.iter (hr x) hturn
    (C := fun m c => ∃ y t, n < m ∧ c = (.iter body y, t) ∧ I y t) fun m r t hR => by
      cases r with
      | inl y => exact .here ⟨y, t, hR.1, rfl, hR.2⟩
      | inr a => exact hR.2.elim
  obtain ⟨m, -, y, t, hm⟩ := hend.exists_runAt c hn fun m _ => hA m
  exact ⟨m, y, t, hm⟩

end Correctness

end Programs

end Adelino.Deadline
