import Adelino.Deadline

namespace Adelino.Countdown

open Adelino.Program Adelino.Logic Adelino.Calls Adelino.Progress Adelino.Deadline

variable {S E α : Type} {handle : E → S → S} {A G I : S → Prop} {σ : Nat → Move E}
  {F : (Nat → Move E) → Prop}

section Along

variable {R : S → S → Prop} (hR : ∀ s, R s s)
include hR

theorem built_step {p : Prog S α} (hb : Built R noProcedures p) (s : S) :
    Built R noProcedures (p.step s).1 ∧ R s (p.step s).2 := by
  induction hb with
  | ret a => exact ⟨.ret a, hR s⟩
  | act h => exact ⟨.ret _, h s⟩
  | call h => exact h.elim
  | bind _ _ hk ih => exact ⟨built_bind ih.1 hk, ih.2⟩
  | iter hb x ih =>
    refine ⟨built_bind (ih x).1 fun r => ?_, (ih x).2⟩
    cases r with
    | inl y => exact .iter hb y
    | inr a => exact .ret a

theorem Total.along {J : Nat → S → Prop}
    (hcpu : ∀ t s s', σ t = .cpu → A s → R s s' → J t s → J (t + 1) s')
    (hirq : ∀ t e s, σ t = .irq e → A s → A (handle e s) → J t s → J (t + 1) (handle e s))
    {P : Nat → S → Prop} {Q : Nat → α → S → Prop} {p : Prog S α} (hb : Built R noProcedures p)
    (h : Total handle σ A P p Q) :
    Total handle σ A (fun t s => P t s ∧ J t s) p fun t a s => Q t a s ∧ J t s := by
  rintro t s ⟨hP, hJ⟩
  have hev := h t s hP
  generalize hc : (p, s) = c at hev
  replace hb : Built R noProcedures c.1 := by rw [← hc]; exact hb
  replace hJ : J t c.2 := by rw [← hc]; exact hJ
  clear hc hP h
  induction hev with
  | here hr =>
    obtain ⟨a, ha, hq⟩ := hr
    exact .here ⟨a, ha, hq, hJ⟩
  | escape hn => exact .escape hn
  | @next t c hr _ ih =>
    by_cases ha : A c.2
    · refine .next hr ?_
      by_cases hn : A (move handle (σ t) c).2
      · cases hm : σ t with
        | cpu =>
          rw [hm] at ih
          obtain ⟨hb', hr'⟩ := built_step hR hb c.2
          exact ih hb' (hcpu t _ _ hm ha hr' hJ)
        | irq e =>
          rw [hm] at ih hn
          exact ih hb (hirq t e _ hm ha hn hJ)
      · exact .escape hn
    · exact .escape ha

end Along

theorem Awaits.along [DecidableEq E] {R : S → S → Prop} (hR : ∀ s, R s s) {ρ : S → Nat} {e₀ : E}
    (hw : Awaits handle A I ρ e₀) (hI : ∀ s s', R s s' → I s → I s' ∧ ρ s' ≤ ρ s) {p : Prog S α}
    (hb : Built R noProcedures p) (hl : Live handle A F I p) (hσ : F σ) {h : Recurs σ (.irq e₀)}
    {Δ t₀ : Nat} :
    Total handle σ A (Pending h ρ Δ t₀ I) p fun t _ s => Pending h ρ Δ t₀ I t s := by
  have hcpu (t : Nat) (s s' : S) (hm : σ t = .cpu) (_ : A s) (hr : R s s')
      (hc : Pending h ρ Δ t₀ I t s) : Pending h ρ Δ t₀ I (t + 1) s' := by
    obtain ⟨hi, hρ⟩ := hI s s' hr hc.2.1
    exact ⟨Nat.le_succ_of_le hc.1, hi, hc.2.2.skip (by rw [hm]; simp) hρ⟩
  have hall := Total.along hR hcpu (fun t e s hm ha hn hc => hw.irq hm ha hn hc) hb (hl σ hσ)
  exact hall.conseq (fun t s hc => ⟨hc.2.1, hc⟩) fun t a s hc => hc.2

section Budget

variable [DecidableEq E] {e₀ : E} (h : Recurs σ (.irq e₀)) (κ ρ : S → Nat)

/-- Some of the budget `K` has been spent, or what the program waits for, `ρ`
events away, is there before `Δ`. -/
def Ahead (K Δ t : Nat) (s : S) : Prop := κ s < K ∨ κ s = K ∧ Due h ρ Δ t s

def Counting (K Δ t₀ : Nat) (I : S → Prop) (t : Nat) (s : S) : Prop :=
  t₀ ≤ t ∧ I s ∧ Ahead h κ ρ K Δ t s

/-- The wait for `e₀` may begin anew, but each time it costs some of a budget
that events do not refill. -/
structure Spends (handle : E → S → S) (A I : S → Prop) (κ ρ : S → Nat) (e₀ : E) : Prop
    extends Awaits handle A I ρ e₀ where
  budget : ∀ e s, A s → A (handle e s) → I s → κ (handle e s) ≤ κ s

variable {h κ ρ} {K Δ t₀ t : Nat} {s s' : S}

theorem counting_start (h : Recurs σ (.irq e₀)) (κ ρ : S → Nat) (t : Nat) (hs : I s) :
    Counting h κ ρ (κ s) (deadline h (ρ s) t) t I t s :=
  ⟨Nat.le_refl _, hs, .inr ⟨rfl, fun _ => Nat.le_refl _⟩⟩

theorem Counting.le (hc : Counting h κ ρ K Δ t₀ I t s) : κ s ≤ K := by
  obtain ⟨-, -, hlt | ⟨heq, -⟩⟩ := hc
  · exact Nat.le_of_lt hlt
  · exact Nat.le_of_eq heq

theorem Counting.access (hc : Counting h κ ρ K Δ t₀ I t s) (hm : σ t = .cpu)
    (hs : I s → I s' ∧ κ s' ≤ κ s ∧ ρ s' ≤ ρ s) : Counting h κ ρ K Δ (t₀ + 1) I (t + 1) s' := by
  obtain ⟨ht, hi, hc⟩ := hc
  obtain ⟨hi', hκ, hρ⟩ := hs hi
  refine ⟨Nat.succ_le_succ ht, hi', ?_⟩
  obtain hlt | ⟨heq, hd⟩ := hc
  · exact .inl (Nat.lt_of_le_of_lt hκ hlt)
  · rw [Ahead, ← heq]
    have hd' : Due h ρ Δ (t + 1) s' := hd.skip (by rw [hm]; simp) hρ
    exact (Nat.lt_or_eq_of_le hκ).imp_right fun he => ⟨he, hd'⟩

theorem Counting.weaken (hc : Counting h κ ρ K Δ (t₀ + 1) I t s) : Counting h κ ρ K Δ t₀ I t s :=
  ⟨Nat.le_of_succ_le hc.1, hc.2⟩

section Programs

variable (hw : Spends handle A I κ ρ e₀)
include hw

theorem Spends.irq {e : E} (hm : σ t = .irq e) (ha : A s) (hn : A (handle e s))
    (hc : Counting h κ ρ K Δ t₀ I t s) : Counting h κ ρ K Δ t₀ I (t + 1) (handle e s) := by
  obtain ⟨ht, hi, hc⟩ := hc
  have hκ := hw.budget e s ha hn hi
  refine ⟨Nat.le_succ_of_le ht, hw.stable e s ha hn hi, ?_⟩
  obtain hlt | ⟨heq, hd⟩ := hc
  · exact .inl (Nat.lt_of_le_of_lt hκ hlt)
  · rw [Ahead, ← heq]
    obtain ⟨-, -, hd'⟩ := hw.toAwaits.irq hm ha hn ⟨ht, hi, hd⟩
    exact (Nat.lt_or_eq_of_le hκ).imp_right fun he => ⟨he, hd'⟩

theorem Spends.along {R : S → S → Prop} (hR : ∀ s, R s s)
    (hI : ∀ s s', R s s' → I s → I s' ∧ κ s' ≤ κ s ∧ ρ s' ≤ ρ s) {p : Prog S α}
    (hb : Built R noProcedures p) (hl : Live handle A F I p) (hσ : F σ) :
    Total handle σ A (Counting h κ ρ K Δ t₀ I) p fun t _ s => Counting h κ ρ K Δ t₀ I t s := by
  have hirq (t : Nat) (e : E) (s : S) (hm : σ t = .irq e) (ha : A s) (hn : A (handle e s))
      (hc : Counting h κ ρ K Δ t₀ I t s) : Counting h κ ρ K Δ t₀ I (t + 1) (handle e s) :=
    hw.irq hm ha hn hc
  have hall := Total.along hR (fun t s s' hm _ hr hc => (hc.access hm (hI s s' hr)).weaken) hirq hb
    (hl σ hσ)
  exact hall.conseq (fun t s hc => ⟨hc.2.1, hc⟩) fun t a s hc => hc.2

theorem Spends.look {β : Type} (hσ : Recurs σ .cpu) (f : S → β) {c : β → Prop}
    (hc : ∀ s, I s → c (f s) → 0 < ρ s) :
    Total handle σ A (Counting h κ ρ K Δ t₀ I) (.read f) fun t b s =>
      Counting h κ ρ K Δ (t₀ + 1) I t s ∧ (c b → κ s < K ∨ t₀ < Δ) := by
  refine Total.access _ hσ (fun t e s hm ha hn hs => hw.irq hm ha hn hs) fun t s hm ha hs => ?_
  refine ⟨hs.access hm fun hi => ⟨hi, Nat.le_refl _, Nat.le_refl _⟩, fun hb => ?_⟩
  obtain ⟨ht, hi, hlt | ⟨-, hd⟩⟩ := hs
  · exact .inl hlt
  · exact .inr (Nat.lt_of_le_of_lt ht (hd.lt (hc s hi hb)))

end Programs

/-- A loop that goes on only while it has to wait, and begins to wait anew only
at the expense of the budget. -/
theorem Live.countdown {c : Prog S Bool} {body : Prog S Unit} (hr : c.isRet = false)
    (hF : ∀ σ, F σ → Recurs σ (.irq e₀))
    (hc : ∀ σ (hσ : F σ) (K Δ t₀ : Nat),
      Total handle σ A (Counting (hF σ hσ) κ ρ K Δ t₀ I) c fun t running s =>
        Counting (hF σ hσ) κ ρ K Δ (t₀ + 1) I t s ∧ (running = true → κ s < K ∨ t₀ < Δ))
    (hb : ∀ σ (hσ : F σ) (K Δ t₀ : Nat),
      Total handle σ A (Counting (hF σ hσ) κ ρ K Δ t₀ I) body fun t _ s =>
        Counting (hF σ hσ) κ ρ K Δ t₀ I t s) :
    Live handle A F I (.whileDo c body) := by
  intro σ hσ
  let wait (t : Nat) (s : S) : Nat := if ρ s = 0 then 0 else deadline (hF σ hσ) (ρ s) t - t
  refine Total.iter (P := fun _ _ => I) (Prod.lex Nat.lt_wfRel Nat.lt_wfRel).wf
    (fun t _ s => (κ s, wait t s)) (fun _ => ?_) ?_ ()
  · show (c >>= _).isRet = false
    rw [Prog.bind_eq, Prog.andThen_eq_bind c _ hr]
    rfl
  rintro - w t₀ s₀ ⟨hI, rfl⟩
  refine (hc σ hσ _ _ _ t₀ s₀ (counting_start (hF σ hσ) κ ρ t₀ hI)).bind ?_
  rintro t₁ running s₁ ⟨hcount, hwait⟩
  cases running with
  | false => exact .here ⟨.inr (), rfl, trivial⟩
  | true =>
    obtain hlt | hΔ := hwait rfl
    · -- the budget is smaller already, and the body does not refill it
      refine (hb σ hσ _ _ _ t₁ s₁ (counting_start (hF σ hσ) κ ρ t₁ hcount.2.1)).bind ?_
      rintro t _ s hs
      exact .here ⟨.inl (), rfl, hs.2.1, Prod.Lex.left _ _ (Nat.lt_of_le_of_lt hs.le hlt)⟩
    · refine (hb σ hσ _ _ _ t₁ s₁ hcount).bind ?_
      rintro t _ s ⟨ht, hi, hlt | ⟨heq, hdue⟩⟩
      · exact .here ⟨.inl (), rfl, hi, Prod.Lex.left _ _ hlt⟩
      · refine .here ⟨.inl (), rfl, hi, ?_⟩
        dsimp only
        rw [heq]
        refine Prod.Lex.right _ ?_
        have hpos : ρ s₀ ≠ 0 := fun h0 => by simp [h0, deadline] at hΔ
        show wait t s < wait t₀ s₀
        simp only [wait, if_neg hpos]
        split
        · omega
        · next h0 =>
          have hle := hdue (Nat.pos_of_ne_zero h0)
          omega

end Budget

end Adelino.Countdown
