import Mathlib.Data.Nat.Find
import Adelino.Logic

namespace Adelino.Progress

open Adelino.Program Adelino.Logic

variable {S E α β X : Type}

section Schedules

variable (handle : E → S → S)

/-- The configuration after `n` moves of an infinite schedule. -/
def runAt (σ : Nat → Move E) (c : Prog S α × S) : Nat → Prog S α × S
  | 0 => c
  | n + 1 => move handle (σ n) (runAt σ c n)

/-- Starting at time `t`, the schedule leads to a configuration satisfying `C`
unless it first leaves the assumption `A`. -/
inductive Eventually (σ : Nat → Move E) (A : S → Prop) (C : Nat → Prog S α × S → Prop) :
    Nat → Prog S α × S → Prop
  | here {t : Nat} {c : Prog S α × S} : C t c → Eventually σ A C t c
  | escape {t : Nat} {c : Prog S α × S} : ¬ A c.2 → Eventually σ A C t c
  | next {t : Nat} {c : Prog S α × S} : c.1.isRet = false →
      Eventually σ A C (t + 1) (move handle (σ t) c) → Eventually σ A C t c

def Returns (Q : Nat → α → S → Prop) (t : Nat) (c : Prog S α × S) : Prop :=
  ∃ a, c.1 = .ret a ∧ Q t a c.2

/-- Total correctness along one schedule. Assertions may mention the time,
which is how a fairness assumption enters a proof. -/
def Total (σ : Nat → Move E) (A : S → Prop) (P : Nat → S → Prop) (p : Prog S α)
    (Q : Nat → α → S → Prop) : Prop :=
  ∀ t s, P t s → Eventually handle σ A (Returns Q) t (p, s)

def StableAt (σ : Nat → Move E) (A : S → Prop) (P : Nat → S → Prop) : Prop :=
  ∀ t e s, σ t = .irq e → A s → P t s → P (t + 1) (handle e s)

end Schedules

def Recurs (σ : Nat → Move E) (m : Move E) : Prop := ∀ t, ∃ n, t ≤ n ∧ σ n = m

section Time

variable [DecidableEq E] {σ : Nat → Move E} {m : Move E}

def nextTime (h : Recurs σ m) (t : Nat) : Nat := Nat.find (h t)

theorem le_nextTime (h : Recurs σ m) (t : Nat) : t ≤ nextTime h t := (Nat.find_spec (h t)).1

theorem nextTime_spec (h : Recurs σ m) (t : Nat) : σ (nextTime h t) = m := (Nat.find_spec (h t)).2

theorem nextTime_eq (h : Recurs σ m) {t t' : Nat} (ht : t ≤ t') (hn : t' ≤ nextTime h t) :
    nextTime h t' = nextTime h t := by
  refine (Nat.find_eq_iff _).mpr ⟨⟨hn, nextTime_spec h t⟩, fun n hlt hc => ?_⟩
  exact Nat.find_min (h t) hlt ⟨Nat.le_trans ht hc.1, hc.2⟩

end Time

variable {handle : E → S → S} {σ : Nat → Move E} {A G : S → Prop}

theorem Eventually.mono {C D : Nat → Prog S α × S → Prop} {t : Nat} {c : Prog S α × S}
    (h : Eventually handle σ A C t c) (hCD : ∀ t c, C t c → D t c) :
    Eventually handle σ A D t c := by
  induction h with
  | here hc => exact .here (hCD _ _ hc)
  | escape ha => exact .escape ha
  | next hr _ ih => exact .next hr ih

theorem Eventually.trans {C D : Nat → Prog S α × S → Prop} {t : Nat} {c : Prog S α × S}
    (h : Eventually handle σ A C t c) (hD : ∀ t c, C t c → Eventually handle σ A D t c) :
    Eventually handle σ A D t c := by
  induction h with
  | here hc => exact hD _ _ hc
  | escape ha => exact .escape ha
  | next hr _ ih => exact .next hr ih

/-- The goal may lie in the continuation or, as a fact `D` about the state,
already inside the first part. -/
theorem Eventually.bind_or {C : Nat → Prog S α × S → Prop} {D : Nat → S → Prop}
    {R : Nat → β → S → Prop} {p : Prog S β} {k : β → Prog S α} {t : Nat} {s : S}
    (h : Eventually handle σ A (fun t c => Returns R t c ∨ D t c.2) t (p, s))
    (hD : ∀ t c, D t c.2 → C t c)
    (hk : ∀ t b s, R t b s → Eventually handle σ A C t (k b, s)) :
    Eventually handle σ A C t (p >>= k, s) := by
  generalize hc : (p, s) = c at h
  induction h generalizing p s with
  | here hr =>
    subst hc
    obtain ⟨b, hp, hb⟩ | hd := hr
    · cases hp
      exact hk _ b s hb
    · exact .here (hD _ _ hd)
  | escape ha =>
    subst hc
    exact .escape ha
  | @next t c hr _ ih =>
    subst hc
    rw [Prog.bind_eq]
    refine .next (by rw [Prog.andThen_eq_bind p k hr]; rfl) ?_
    cases hm : σ t with
    | cpu =>
      have hs := ih (p := (p.step s).1) (s := (p.step s).2) (by rw [hm]; rfl)
      rw [move, Prog.step_andThen p k s hr]
      exact hs
    | irq e => exact ih (p := p) (s := handle e s) (by rw [hm]; rfl)

theorem Eventually.bind {C : Nat → Prog S α × S → Prop} {R : Nat → β → S → Prop}
    {p : Prog S β} {k : β → Prog S α} {t : Nat} {s : S}
    (h : Eventually handle σ A (Returns R) t (p, s))
    (hk : ∀ t b s, R t b s → Eventually handle σ A C t (k b, s)) :
    Eventually handle σ A C t (p >>= k, s) :=
  .bind_or (D := fun _ _ => False) (h.mono fun _ _ => .inl) (fun _ _ hd => hd.elim) hk

theorem Eventually.iter_or {C : Nat → Prog S α × S → Prop} {D : Nat → S → Prop}
    {R : Nat → X ⊕ α → S → Prop} {body : X → Prog S (X ⊕ α)} {x : X} {t : Nat} {s : S}
    (hb : (body x).isRet = false)
    (h : Eventually handle σ A (fun t c => Returns R t c ∨ D t c.2) t (body x, s))
    (hD : ∀ t c, D t c.2 → C t c)
    (hk : ∀ t r s, R t r s → Eventually handle σ A C t (Prog.resume body r, s)) :
    Eventually handle σ A C t (.iter body x, s) := by
  generalize hc : (body x, s) = c at h
  induction h generalizing s with
  | here hr =>
    subst hc
    obtain ⟨r, hp, _⟩ | hd := hr
    · dsimp only at hp
      rw [hp] at hb
      cases hb
    · exact .here (hD _ _ hd)
  | escape ha =>
    subst hc
    exact .escape ha
  | @next t c _ hn ih =>
    subst hc
    refine .next rfl ?_
    cases hm : σ t with
    | cpu =>
      rw [hm] at hn
      exact Eventually.bind_or hn hD hk
    | irq e => exact ih (s := handle e s) (by rw [hm]; rfl)

theorem Eventually.iter {C : Nat → Prog S α × S → Prop} {R : Nat → X ⊕ α → S → Prop}
    {body : X → Prog S (X ⊕ α)} {x : X} {t : Nat} {s : S} (hb : (body x).isRet = false)
    (h : Eventually handle σ A (Returns R) t (body x, s))
    (hk : ∀ t r s, R t r s → Eventually handle σ A C t (Prog.resume body r, s)) :
    Eventually handle σ A C t (.iter body x, s) :=
  .iter_or (D := fun _ _ => False) hb (h.mono fun _ _ => .inl) (fun _ _ hd => hd.elim) hk

theorem Total.act {P : Nat → S → Prop} {Q : Nat → α → S → Prop} (f : S → α × S)
    (hσ : Recurs σ .cpu) (hp : StableAt handle σ A P)
    (h : ∀ t s, σ t = .cpu → A s → P t s → Q (t + 1) (f s).1 (f s).2) :
    Total handle σ A P (.act f) Q := by
  intro t s hs
  obtain ⟨n, hn, hm⟩ := hσ t
  induction hd : n - t generalizing t s with
  | zero =>
    have ht : t = n := by omega
    subst ht
    by_cases ha : A s
    · refine .next rfl (.here ⟨(f s).1, ?_, ?_⟩)
      · rw [hm]; rfl
      · rw [hm]; exact h _ s hm ha hs
    · exact .escape ha
  | succ d ih =>
    by_cases ha : A s
    · cases hc : σ t with
      | cpu =>
        refine .next rfl (.here ⟨(f s).1, ?_, ?_⟩)
        · rw [hc]; rfl
        · rw [hc]; exact h _ s hc ha hs
      | irq e =>
        refine .next rfl ?_
        rw [hc]
        exact ih (t + 1) (handle e s) (hp t e s hc ha hs) (by omega) (by omega)
    · exact .escape ha

theorem Total.ret {P : Nat → S → Prop} {Q : Nat → α → S → Prop} (a : α)
    (h : ∀ t s, P t s → Q t a s) : Total handle σ A P (.ret a) Q :=
  fun t s hs => .here ⟨a, rfl, h t s hs⟩

theorem Total.bind {P : Nat → S → Prop} {R : Nat → β → S → Prop} {Q : Nat → α → S → Prop}
    {p : Prog S β} {k : β → Prog S α} (hp : Total handle σ A P p R)
    (hk : ∀ b, Total handle σ A (fun t => R t b) (k b) Q) :
    Total handle σ A P (p >>= k) Q :=
  fun t s hs => (hp t s hs).bind fun t b s hb => hk b t s hb

theorem Total.ite {c : Prop} [Decidable c] {P : Nat → S → Prop} {Q : Nat → α → S → Prop}
    {p q : Prog S α} (hp : c → Total handle σ A P p Q) (hq : ¬ c → Total handle σ A P q Q) :
    Total handle σ A P (if c then p else q) Q := by
  by_cases hc : c
  · rw [if_pos hc]; exact hp hc
  · rw [if_neg hc]; exact hq hc

theorem Total.conseq {P P' : Nat → S → Prop} {Q Q' : Nat → α → S → Prop} {p : Prog S α}
    (h : Total handle σ A P p Q) (hP : ∀ t s, P' t s → P t s)
    (hQ : ∀ t a s, Q t a s → Q' t a s) : Total handle σ A P' p Q' :=
  fun t s hs => (h t s (hP t s hs)).mono fun t _ ⟨a, ha, hq⟩ => ⟨a, ha, hQ t a _ hq⟩

/-- A loop returns when each of its turns does and a well-founded measure of
time, loop state and machine state goes down from turn to turn. -/
theorem Total.iter {W : Type} {r : W → W → Prop} (hw : WellFounded r) (μ : Nat → X → S → W)
    {P : Nat → X → S → Prop} {Q : Nat → α → S → Prop} {body : X → Prog S (X ⊕ α)}
    (hr : ∀ x, (body x).isRet = false)
    (hb : ∀ x w, Total handle σ A (fun t s => P t x s ∧ μ t x s = w) (body x)
      (fun t y s => Sum.elim (fun x' => P t x' s ∧ r (μ t x' s) w) (fun a => Q t a s) y))
    (x : X) : Total handle σ A (fun t => P t x) (.iter body x) Q := by
  intro t s hs
  generalize hm : μ t x s = w
  induction w using hw.induction generalizing t x s with
  | _ w ih =>
    refine Eventually.iter (hr x) (hb x w t s ⟨hs, hm⟩) ?_
    intro t' y s' hy
    cases y with
    | inl x' => exact ih _ hy.2 x' t' s' hy.1 rfl
    | inr a => exact .here ⟨a, rfl, hy⟩

theorem Total.again {P : Nat → S → Prop} {I : Nat → X → S → Prop} {Q : Nat → α → S → Prop} (x : X)
    (h : ∀ t s, P t s → I t x s) : Total handle σ A P (.ret (.inl x))
      (fun t (y : X ⊕ α) s => Sum.elim (fun x => I t x s) (fun a => Q t a s) y) :=
  .ret _ h

theorem Total.leave {P : Nat → S → Prop} {I : Nat → X → S → Prop} {Q : Nat → α → S → Prop} (a : α)
    (h : ∀ t s, P t s → Q t a s) : Total handle σ A P (.ret (.inr a))
      (fun t (y : X ⊕ α) s => Sum.elim (fun x => I t x s) (fun a => Q t a s) y) :=
  .ret _ h

theorem Eventually.and_safe {R : Nat → α → S → Prop} {Q : α → S → Prop} {t : Nat}
    {c : Prog S α × S} (h : Eventually handle σ A (Returns R) t c) (hs : Safe handle A G Q c)
    (ha : A c.2) : Eventually handle σ A (Returns fun t a s => R t a s ∧ Q a s ∧ A s) t c := by
  induction h with
  | @here t c hr =>
    obtain ⟨a, hc, hr⟩ := hr
    exact .here ⟨a, hc, hr, (hs c (.refl c)).2 a hc, ha⟩
  | escape hn => exact .escape hn
  | @next t c hr _ ih =>
    by_cases hn : A (move handle (σ t) c).2
    · exact .next hr (ih (hs.next _ hn) hn)
    · exact .next hr (.escape hn)

/-- A weaker assumption will do where events are the only thing that could end
the stronger one, and do not. -/
theorem Eventually.widen {A' : S → Prop} {C : Nat → Prog S α × S → Prop} {Q : α → S → Prop}
    {t : Nat} {c : Prog S α × S} (h : Eventually handle σ A C t c) (hs : Safe handle A G Q c)
    (ha : A c.2)
    (hk : Keeps A c.1) (he : ∀ e s, G s → A' (handle e s) → A (handle e s)) :
    Eventually handle σ A' C t c := by
  induction h with
  | here hc => exact .here hc
  | escape hn => exact absurd ha hn
  | @next t c hr _ ih =>
    refine .next hr ?_
    cases hm : σ t with
    | cpu =>
      rw [hm] at ih
      obtain ⟨hk', ha'⟩ := keeps_step _ _ hk ha
      exact ih (hs.next .cpu ha') ha' hk'
    | irq e =>
      rw [hm] at ih
      by_cases hn : A' (handle e c.2)
      · have ha' := he e c.2 (hs c (.refl c)).1 hn
        exact ih (hs.next (.irq e) ha') ha' hk
      · exact .escape hn

theorem runAt_keeps {I : S → Prop} (he : ∀ n e s, σ n = .irq e → I s → I (handle e s))
    (c : Prog S α × S) (hk : Keeps I c.1) (hi : I c.2) (n : Nat) :
    Keeps I (runAt handle σ c n).1 ∧ I (runAt handle σ c n).2 := by
  induction n with
  | zero => exact ⟨hk, hi⟩
  | succ n ih =>
    rw [runAt]
    cases hm : σ n with
    | cpu => exact keeps_step _ _ ih.1 ih.2
    | irq e => exact ⟨ih.1, he n e _ hm ih.2⟩

theorem runAt_runs (c : Prog S α × S) {k n : Nat} (hk : k ≤ n)
    (h : ∀ m, k < m → m ≤ n → A (runAt handle σ c m).2) :
    Runs handle A (runAt handle σ c k) (runAt handle σ c n) := by
  induction n, hk using Nat.le_induction with
  | base => exact .refl _
  | succ n hn ih =>
    refine .next (σ n) (ih fun m hm hn => h m hm (by omega)) (h (n + 1) (by omega) (Nat.le_refl _))

theorem Eventually.exists_runAt {C : Nat → Prog S α × S → Prop} {t : Nat} {c : Prog S α × S}
    (c₀ : Prog S α × S) (h : Eventually handle σ A C t c) (hc : runAt handle σ c₀ t = c)
    (hA : ∀ n, t ≤ n → A (runAt handle σ c₀ n).2) :
    ∃ n, t ≤ n ∧ C n (runAt handle σ c₀ n) := by
  induction h with
  | here hC => exact ⟨_, Nat.le_refl _, by rw [hc]; exact hC⟩
  | @escape t c hn => exact absurd (hc ▸ hA t (Nat.le_refl _)) hn
  | @next t c _ _ ih =>
    obtain ⟨n, hn, hC⟩ := ih (by rw [runAt, hc]) (fun n hn => hA n (by omega))
    exact ⟨n, by omega, hC⟩

end Adelino.Progress
