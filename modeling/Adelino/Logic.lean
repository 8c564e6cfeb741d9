import Adelino.Program

namespace Adelino.Logic

open Adelino.Program

variable {S E α β X : Type}

section Rules

variable (handle : E → S → S) (A G : S → Prop)

/-- All states of all runs from `c` satisfy `G`, and a run that returns does
so in a state described by `Q`. -/
def Safe (Q : α → S → Prop) (c : Prog S α × S) : Prop :=
  ∀ d, Runs handle A c d → G d.2 ∧ ∀ a, d.1 = .ret a → Q a d.2

/-- Partial correctness under interrupts: `A` is assumed of every state on
the way and `G` is guaranteed there. -/
def Triple (P : S → Prop) (p : Prog S α) (Q : α → S → Prop) : Prop :=
  ∀ s, A s → P s → Safe handle A G Q (p, s)

/-- No interrupt that keeps the assumption can falsify `P`. -/
def Stable (P : S → Prop) : Prop := ∀ e s, A s → A (handle e s) → P s → P (handle e s)

end Rules

variable {handle : E → S → S} {A A' G G' : S → Prop}

theorem Safe.next {Q : α → S → Prop} {c : Prog S α × S} (h : Safe handle A G Q c) (m : Move E)
    (ha : A (move handle m c).2) : Safe handle A G Q (move handle m c) :=
  fun d hd => h d (Runs.head m ha hd)

theorem safe_of_closed {Q : α → S → Prop} (I : Prog S α × S → Prop)
    (hm : ∀ m c, I c → A c.2 → A (move handle m c).2 → I (move handle m c))
    (hg : ∀ c, I c → A c.2 → G c.2 ∧ ∀ a, c.1 = .ret a → Q a c.2)
    (c : Prog S α × S) (hc : I c) (ha : A c.2) : Safe handle A G Q c := by
  intro d hd
  suffices hi : I d ∧ A d.2 from hg d hi.1 hi.2
  induction hd with
  | refl => exact ⟨hc, ha⟩
  | next m _ hn ih => exact ⟨hm m _ ih.1 ih.2 hn, hn⟩

theorem Triple.ret {P : S → Prop} {Q : α → S → Prop} (a : α) (hs : Stable handle A (Q a))
    (hg : ∀ s, A s → Q a s → G s) (h : ∀ s, A s → P s → Q a s) :
    Triple handle A G P (.ret a) Q := by
  intro s ha hp
  refine safe_of_closed (fun c => c.1 = .ret a ∧ Q a c.2) ?_ ?_ (.ret a, s) ⟨rfl, h s ha hp⟩ ha
  · rintro m ⟨p, t⟩ ⟨hp, hq⟩ ht hn
    dsimp only at hp hq
    subst hp
    cases m with
    | cpu => exact ⟨rfl, hq⟩
    | irq e => exact ⟨rfl, hs e t ht hn hq⟩
  · rintro ⟨p, t⟩ ⟨hp, hq⟩ ht
    dsimp only at hp hq
    subst hp
    refine ⟨hg t ht hq, ?_⟩
    rintro b ⟨⟩
    exact hq

theorem Triple.act {P : S → Prop} {Q : α → S → Prop} (f : S → α × S) (hp : Stable handle A P)
    (hq : ∀ a, Stable handle A (Q a)) (hgp : ∀ s, A s → P s → G s)
    (hgq : ∀ a s, A s → Q a s → G s)
    (h : ∀ s, A s → P s → A (f s).2 → Q (f s).1 (f s).2) :
    Triple handle A G P (.act f) Q := by
  intro s ha hs
  refine safe_of_closed (fun c => (c.1 = .act f ∧ P c.2) ∨ ∃ a, c.1 = .ret a ∧ Q a c.2)
    ?_ ?_ (.act f, s) (.inl ⟨rfl, hs⟩) ha
  · rintro m ⟨p, t⟩ hc ht hn
    dsimp only at hc
    obtain ⟨rfl, hi⟩ | ⟨a, rfl, hi⟩ := hc
    · cases m with
      | cpu => exact .inr ⟨_, rfl, h t ht hi hn⟩
      | irq e => exact .inl ⟨rfl, hp e t ht hn hi⟩
    · cases m with
      | cpu => exact .inr ⟨a, rfl, hi⟩
      | irq e => exact .inr ⟨a, rfl, hq a e t ht hn hi⟩
  · rintro ⟨p, t⟩ hc ht
    dsimp only at hc
    obtain ⟨rfl, hi⟩ | ⟨a, rfl, hi⟩ := hc
    · refine ⟨hgp t ht hi, ?_⟩
      rintro a ⟨⟩
    · refine ⟨hgq a t ht hi, ?_⟩
      rintro b ⟨⟩
      exact hi

theorem Triple.access {P : S → Prop} {Q : α → S → Prop} (f : S → α × S) (hp : Stable handle A P)
    (hq : ∀ a, Stable handle A (Q a)) (h : ∀ s, A s → P s → A (f s).2 → Q (f s).1 (f s).2) :
    Triple handle A (fun _ => True) P (.act f) Q :=
  .act f hp hq (fun _ _ _ => trivial) (fun _ _ _ _ => trivial) h

theorem Triple.bind {P : S → Prop} {R : β → S → Prop} {Q : α → S → Prop}
    {p : Prog S β} {k : β → Prog S α} (hp : Triple handle A G P p R)
    (hk : ∀ b, Triple handle A G (R b) (k b) Q) : Triple handle A G P (p >>= k) Q := by
  intro s ha hs
  -- once the first part has returned, the continuation is safe on its own
  let I : Prog S α × S → Prop := fun c =>
    (∃ p : Prog S β, p.isRet = false ∧ c.1 = p.andThen k ∧ Safe handle A G R (p, c.2)) ∨
      Safe handle A G Q c
  have hI : ∀ (p : Prog S β) t, A t → Safe handle A G R (p, t) → I (p.andThen k, t) := by
    intro p t ht hp
    cases hr : p.isRet with
    | false => exact .inl ⟨p, hr, rfl, hp⟩
    | true =>
      obtain ⟨b, rfl⟩ := Prog.eq_ret_of_isRet hr
      exact .inr (hk b t ht ((hp _ (.refl _)).2 b rfl))
  refine safe_of_closed I ?_ ?_ (p.andThen k, s) (hI p s ha (hp s ha hs)) ha
  · rintro m ⟨q, t⟩ hc ht hn
    obtain ⟨p, hr, hq, hp⟩ | hc := hc
    · dsimp only at hq hp
      subst hq
      cases m with
      | cpu =>
        rw [move, Prog.step_andThen p k t hr] at hn ⊢
        exact hI _ _ hn (hp.next .cpu hn)
      | irq e => exact hI _ _ hn (hp.next (.irq e) hn)
    · exact .inr (hc.next m hn)
  · rintro ⟨q, t⟩ hc ht
    obtain ⟨p, hr, hq, hp⟩ | hc := hc
    · refine ⟨(hp _ (.refl _)).1, ?_⟩
      intro a hb
      rw [hq, Prog.andThen_eq_bind p k hr] at hb
      cases hb
    · exact hc _ (.refl _)

/-- Where a run of a loop can be: in a turn, between two turns or at its end. -/
theorem Triple.iter_cases {P : X → S → Prop} {Q : α → S → Prop} {body : X → Prog S (X ⊕ α)}
    (hb : ∀ x, Triple handle A G (P x) (body x) (fun r => Sum.elim P Q r)) {x : X} {s : S}
    (ha : A s) (hs : P x s) {d : Prog S α × S} (hd : Runs handle A (.iter body x, s) d) :
    (∃ p : Prog S (X ⊕ α), p.isRet = false ∧ d.1 = p.andThen (Prog.resume body) ∧
        Safe handle A G (fun r => Sum.elim P Q r) (p, d.2)) ∨
      (∃ y, d.1 = .iter body y ∧ ((∀ x, Stable handle A (P x)) → P y d.2) ∧
        Safe handle A G (fun r => Sum.elim P Q r) (body y, d.2)) ∨
      ∃ a, d.1 = .ret a ∧ Safe handle A G (fun r => Sum.elim P Q r) (.ret (.inr a), d.2) := by
  let R : X ⊕ α → S → Prop := fun r => Sum.elim P Q r
  let I : Prog S α × S → Prop := fun c =>
    (∃ p : Prog S (X ⊕ α), p.isRet = false ∧ c.1 = p.andThen (Prog.resume body) ∧
        Safe handle A G R (p, c.2)) ∨
      (∃ x, c.1 = .iter body x ∧ ((∀ x, Stable handle A (P x)) → P x c.2) ∧
        Safe handle A G R (body x, c.2)) ∨
      ∃ a, c.1 = .ret a ∧ Safe handle A G R (.ret (.inr a), c.2)
  have hI : ∀ (p : Prog S (X ⊕ α)) t, A t → Safe handle A G R (p, t) →
      I (p.andThen (Prog.resume body), t) := by
    intro p t ht hp
    cases hr : p.isRet with
    | false => exact .inl ⟨p, hr, rfl, hp⟩
    | true =>
      obtain ⟨r, rfl⟩ := Prog.eq_ret_of_isRet hr
      have hq := (hp _ (.refl _)).2 _ rfl
      cases r with
      | inl x => exact .inr (.inl ⟨x, rfl, fun _ => hq, hb x t ht hq⟩)
      | inr a => exact .inr (.inr ⟨a, rfl, hp⟩)
  suffices hi : I d ∧ A d.2 from hi.1
  generalize hc : (Prog.iter body x, s) = c at hd
  induction hd with
  | refl =>
    subst hc
    exact ⟨.inr (.inl ⟨x, rfl, fun _ => hs, hb x s ha hs⟩), ha⟩
  | @next d m _ hn ih =>
    obtain ⟨hd, ht⟩ := ih
    refine ⟨?_, hn⟩
    obtain ⟨q, t⟩ := d
    obtain ⟨p, hr, hq, hp⟩ | ⟨y, hq, hy, hp⟩ | ⟨a, hq, hp⟩ := hd
    · dsimp only at hq hp
      subst hq
      cases m with
      | cpu =>
        rw [move, Prog.step_andThen p _ t hr] at hn ⊢
        exact hI _ _ hn (hp.next .cpu hn)
      | irq e => exact hI _ _ hn (hp.next (.irq e) hn)
    · dsimp only at hq hp hy
      subst hq
      cases m with
      | cpu => exact hI _ _ hn (hp.next .cpu hn)
      | irq e =>
        exact .inr (.inl ⟨y, rfl, fun h => h y e t ht hn (hy h), hp.next (.irq e) hn⟩)
    · dsimp only at hq hp
      subst hq
      cases m with
      | cpu => exact .inr (.inr ⟨a, rfl, hp⟩)
      | irq e => exact .inr (.inr ⟨a, rfl, hp.next (.irq e) hn⟩)

/-- Loop invariant rule. The loop state `x` is local to the program. -/
theorem Triple.iter {P : X → S → Prop} {Q : α → S → Prop} {body : X → Prog S (X ⊕ α)}
    (hb : ∀ x, Triple handle A G (P x) (body x) (fun r => Sum.elim P Q r)) (x : X) :
    Triple handle A G (P x) (.iter body x) Q := by
  intro s ha hs d hd
  obtain ⟨p, hr, hq, hp⟩ | ⟨y, hq, -, hp⟩ | ⟨a, hq, hp⟩ := Triple.iter_cases hb ha hs hd
  · refine ⟨(hp _ (.refl _)).1, ?_⟩
    intro b hb
    rw [hq, Prog.andThen_eq_bind p _ hr] at hb
    cases hb
  · refine ⟨(hp _ (.refl _)).1, ?_⟩
    intro b hb
    rw [hq] at hb
    cases hb
  · refine ⟨(hp _ (.refl _)).1, ?_⟩
    intro b hb
    rw [hq] at hb
    cases hb
    exact (hp _ (.refl _)).2 _ rfl

theorem Triple.iter_head {P : X → S → Prop} {Q : α → S → Prop} {body : X → Prog S (X ⊕ α)}
    (hb : ∀ x, Triple handle A G (P x) (body x) (fun r => Sum.elim P Q r))
    (hstable : ∀ x, Stable handle A (P x)) {x y : X} {s t : S} (ha : A s) (hs : P x s)
    (hd : Runs handle A (.iter body x, s) (.iter body y, t)) : P y t := by
  obtain ⟨p, hr, hq, -⟩ | ⟨z, hq, hz, -⟩ | ⟨a, hq, -⟩ := Triple.iter_cases hb ha hs hd
  · rw [Prog.andThen_eq_bind p _ hr] at hq
    cases hq
  · cases hq
    exact hz hstable
  · cases hq

theorem Triple.again {I : X → S → Prop} {P : S → Prop} {Q : α → S → Prop} (x : X)
    (hs : Stable handle A (I x)) (hg : ∀ s, A s → I x s → G s) (h : ∀ s, A s → P s → I x s) :
    Triple handle A G P (.ret (.inl x)) (fun r : X ⊕ α => Sum.elim I Q r) :=
  .ret _ hs hg h

theorem Triple.leave {I : X → S → Prop} {P : S → Prop} {Q : α → S → Prop} (a : α)
    (hs : Stable handle A (Q a)) (hg : ∀ s, A s → Q a s → G s) (h : ∀ s, A s → P s → Q a s) :
    Triple handle A G P (.ret (.inr a)) (fun r : X ⊕ α => Sum.elim I Q r) :=
  .ret _ hs hg h

theorem Triple.conseq {P P' : S → Prop} {Q Q' : α → S → Prop} {p : Prog S α}
    (h : Triple handle A G P p Q) (hA : ∀ s, A' s → A s) (hG : ∀ s, G s → G' s)
    (hP : ∀ s, A' s → P' s → P s) (hQ : ∀ a s, Q a s → Q' a s) :
    Triple handle A' G' P' p Q' := by
  intro s ha hp d hd
  obtain ⟨hg, hr⟩ := h s (hA s ha) (hP s ha hp) d (hd.mono hA)
  exact ⟨hG _ hg, fun a he => hQ a _ (hr a he)⟩

theorem Triple.pre {P P' : S → Prop} {Q : α → S → Prop} {p : Prog S α}
    (h : Triple handle A G P p Q) (hP : ∀ s, P' s → P s) : Triple handle A G P' p Q :=
  h.conseq (fun _ ha => ha) (fun _ hg => hg) (fun s _ hp => hP s hp) (fun _ _ hq => hq)

theorem Triple.post {P : S → Prop} {Q Q' : α → S → Prop} {p : Prog S α}
    (h : Triple handle A G P p Q) (hQ : ∀ a s, Q a s → Q' a s) : Triple handle A G P p Q' :=
  h.conseq (fun _ ha => ha) (fun _ hg => hg) (fun _ _ hp => hp) hQ

theorem Triple.guarantee {P : S → Prop} {Q : α → S → Prop} {p : Prog S α}
    (h : Triple handle A G P p Q) (hG : ∀ s, G s → G' s) : Triple handle A G' P p Q :=
  h.conseq (fun _ ha => ha) hG (fun _ _ hp => hp) (fun _ _ hq => hq)

theorem Triple.and {P P' : S → Prop} {Q Q' : α → S → Prop} {p : Prog S α}
    (h : Triple handle A G P p Q) (h' : Triple handle A G' P' p Q') :
    Triple handle A (fun s => G s ∧ G' s) (fun s => P s ∧ P' s) p (fun a s => Q a s ∧ Q' a s) := by
  intro s ha hp d hd
  obtain ⟨hg, hq⟩ := h s ha hp.1 d hd
  obtain ⟨hg', hq'⟩ := h' s ha hp.2 d hd
  exact ⟨⟨hg, hg'⟩, fun a he => ⟨hq a he, hq' a he⟩⟩

theorem Triple.exists {ι : Type} {P : ι → S → Prop} {Q : α → S → Prop} {p : Prog S α}
    (h : ∀ i, Triple handle A G (P i) p Q) : Triple handle A G (fun s => ∃ i, P i s) p Q := by
  rintro s ha ⟨i, hi⟩
  exact h i s ha hi

theorem Triple.of_pure {c : Prop} {P : S → Prop} {Q : α → S → Prop} {p : Prog S α}
    (h : c → Triple handle A G P p Q) : Triple handle A G (fun s => c ∧ P s) p Q := by
  rintro s ha ⟨hc, hp⟩
  exact h hc s ha hp

theorem Triple.ite {c : Prop} [Decidable c] {P : S → Prop} {Q : α → S → Prop} {p q : Prog S α}
    (hp : c → Triple handle A G P p Q) (hq : ¬ c → Triple handle A G P q Q) :
    Triple handle A G P (if c then p else q) Q := by
  by_cases hc : c
  · rw [if_pos hc]; exact hp hc
  · rw [if_neg hc]; exact hq hc

theorem Triple.when {c : Bool} {P : S → Prop} {Q : Unit → S → Prop} {p : Prog S Unit}
    (hp : c = true → Triple handle A G P p Q) (hq : c = false → Triple handle A G P (.ret ()) Q) :
    Triple handle A G P (.when c p) Q :=
  .ite hp fun hc => hq (by simpa using hc)

section While

variable {P : S → Prop} {R : Bool → S → Prop} {c : Prog S Bool} {body : Prog S Unit}
  (hP : Stable handle A P) (hR : Stable handle A (R false)) (hgP : ∀ s, A s → P s → G s)
  (hgR : ∀ s, A s → R false s → G s) (hc : Triple handle A G P c R)
  (hb : Triple handle A G (R true) body (fun _ => P))
include hP hR hgP hgR hc hb

theorem Triple.whileTurn : Triple handle A G P
    (do
      if ← c then
        body
        return .inl ()
      else
        return .inr ()) (fun r : Unit ⊕ Unit => Sum.elim (fun _ => P) (fun _ => R false) r) := by
  refine .bind hc fun r => .ite (fun hr => ?_) (fun hr => ?_)
  · subst hr
    exact .bind hb fun _ => .again () hP hgP fun _ _ hs => hs
  · rw [Bool.not_eq_true] at hr
    subst hr
    exact .leave () hR hgR fun _ _ hs => hs

theorem Triple.whileDo : Triple handle A G P (.whileDo c body) (fun _ => R false) :=
  .iter (P := fun _ => P) (fun _ => Triple.whileTurn hP hR hgP hgR hc hb) ()

theorem Triple.whileDo_head {s t : S} (ha : A s) (hs : P s)
    (h : Runs handle A (.whileDo c body, s) (.whileDo c body, t)) : P t :=
  Triple.iter_head (P := fun _ => P) (fun _ => Triple.whileTurn hP hR hgP hgR hc hb) (fun _ => hP)
    ha hs h

end While

/-- Every access made by the program preserves `I`. -/
def Keeps (I : S → Prop) : {α : Type} → Prog S α → Prop
  | _, .ret _ => True
  | _, .act f => ∀ s, I s → I (f s).2
  | _, .bind p k => Keeps I p ∧ ∀ b, Keeps I (k b)
  | _, .iter body _ => ∀ x, Keeps I (body x)

@[simp] theorem keeps_pure (I : S → Prop) (a : α) : Keeps I (pure a : Prog S α) := trivial

theorem keeps_bind {I : S → Prop} {p : Prog S β} {k : β → Prog S α} (hp : Keeps I p)
    (hk : ∀ b, Keeps I (k b)) : Keeps I (p >>= k) := by
  cases p with
  | ret b => exact hk b
  | act f => exact ⟨hp, hk⟩
  | bind p k' => exact ⟨hp, hk⟩
  | iter body x => exact ⟨hp, hk⟩

theorem keeps_read (I : S → Prop) (f : S → α) : Keeps I (Prog.read f) := fun _ hs => hs

theorem keeps_ite {I : S → Prop} {c : Prop} [Decidable c] {p q : Prog S α}
    (hp : Keeps I p) (hq : Keeps I q) : Keeps I (if c then p else q) := by
  split
  · exact hp
  · exact hq

theorem keeps_updates {I : S → Prop} {fs : List (S → S)} (h : ∀ f ∈ fs, ∀ s, I s → I (f s)) :
    Keeps I (Prog.updates fs) := by
  induction fs with
  | nil => trivial
  | cons f fs ih =>
    have hrest := ih fun g hg => h g (List.mem_cons_of_mem f hg)
    cases fs with
    | nil => exact h f List.mem_cons_self
    | cons g fs => exact ⟨h f List.mem_cons_self, fun _ => hrest⟩

theorem keeps_step {I : S → Prop} (p : Prog S α) (s : S) (h : Keeps I p) (hs : I s) :
    Keeps I (p.step s).1 ∧ I (p.step s).2 := by
  induction p with
  | ret a => exact ⟨trivial, hs⟩
  | act f => exact ⟨trivial, h s hs⟩
  | bind p k ihp _ =>
    obtain ⟨hp, hi⟩ := ihp h.1
    exact ⟨keeps_bind hp h.2, hi⟩
  | iter body x ih =>
    obtain ⟨hp, hi⟩ := ih x (h x)
    refine ⟨keeps_bind hp fun r => ?_, hi⟩
    cases r with
    | inl y => exact h
    | inr a => trivial

theorem Triple.of_keeps {I : S → Prop} (hs : Stable handle A I) (p : Prog S α) (h : Keeps I p) :
    Triple handle A I I p (fun _ => I) := by
  induction p with
  | ret a => exact .ret a hs (fun _ _ hi => hi) (fun _ _ hi => hi)
  | act f =>
    exact .act f hs (fun _ => hs) (fun _ _ hi => hi) (fun _ _ _ hi => hi) (fun s _ hi _ => h s hi)
  | bind p k ihp ihk =>
    have hb := Triple.bind (ihp h.1) (fun b => ihk b (h.2 b))
    rw [Prog.bind_eq] at hb
    cases hr : p.isRet with
    | false => rwa [Prog.andThen_eq_bind p k hr] at hb
    | true =>
      obtain ⟨b, rfl⟩ := Prog.eq_ret_of_isRet hr
      intro s ha hi
      refine safe_of_closed (fun c => (c.1 = .bind (.ret b) k ∧ I c.2) ∨
        Safe handle A I (fun _ => I) c) ?_ ?_ (.bind (.ret b) k, s) (.inl ⟨rfl, hi⟩) ha
      · rintro m ⟨q, t⟩ hc ht hn
        dsimp only at hc
        obtain ⟨rfl, hj⟩ | hc := hc
        · cases m with
          | cpu => exact .inr (ihk b (h.2 b) t ht hj)
          | irq e => exact .inl ⟨rfl, hs e t ht hn hj⟩
        · exact .inr (hc.next m hn)
      · rintro ⟨q, t⟩ hc ht
        dsimp only at hc
        obtain ⟨rfl, hj⟩ | hc := hc
        · refine ⟨hj, ?_⟩
          rintro a ⟨⟩
        · exact hc _ (.refl _)
  | iter body x ih =>
    exact Triple.iter (P := fun _ => I)
      (fun x => (ih x (h x)).post fun r _ hi => by cases r <;> exact hi) x

end Adelino.Logic
