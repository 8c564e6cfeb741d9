import Adelino.Logic

namespace Adelino.Calls

open Adelino.Program Adelino.Logic

variable {S E α β γ X : Type}

/-- The next access of the program is the next access of `q`, for whose result
the rest of the program waits. -/
inductive Active (q : Prog S β) : {α : Type} → Prog S α → Prop
  | here : Active q q
  | bind {α γ : Type} {p : Prog S γ} (k : γ → Prog S α) : Active q p → Active q (.bind p k)
  | iter {α X : Type} {body : X → Prog S (X ⊕ α)} {x : X} :
      Active q (body x) → Active q (.iter body x)

theorem Active.isRet {q : Prog S β} {p : Prog S α} (h : Active q p) (hq : q.isRet = false) :
    p.isRet = false := by
  cases h with
  | here => exact hq
  | bind => rfl
  | iter => rfl

theorem Active.andThen {q : Prog S β} {p : Prog S γ} (h : Active q p) (hq : q.isRet = false)
    (k : γ → Prog S α) : Active q (p.andThen k) := by
  rw [Prog.andThen_eq_bind p k (h.isRet hq)]
  exact .bind k h

/-- A property of programs of any type of result, such as being the body of
one of certain procedures. -/
abbrev Procedures (S : Type) := (β : Type) → Prog S β → Prop

def noProcedures : Procedures S := fun _ _ => False

section Programs

variable (R : S → S → Prop) (F : Procedures S)

/-- Every access of the program does what `R` says, or belongs to a call of
one of the procedures `F`. -/
inductive Built : {α : Type} → Prog S α → Prop
  | ret {α : Type} (a : α) : Built (.ret a)
  | act {α : Type} {f : S → α × S} (h : ∀ s, R s (f s).2) : Built (.act f)
  | call {α : Type} {q : Prog S α} (h : F α q) : Built q
  | bind {α β : Type} {p : Prog S β} {k : β → Prog S α} (hr : p.isRet = false) (hp : Built p)
      (hk : ∀ b, Built (k b)) : Built (.bind p k)
  | iter {α X : Type} {body : X → Prog S (X ⊕ α)} (hb : ∀ x, Built (body x)) (x : X) :
      Built (.iter body x)

end Programs

section Construction

variable {R : S → S → Prop} {F : Procedures S}

theorem built_pure (a : α) : Built R F (pure a : Prog S α) := .ret a

theorem built_bind {p : Prog S β} {k : β → Prog S α} (hp : Built R F p)
    (hk : ∀ b, Built R F (k b)) : Built R F (p >>= k) := by
  rw [Prog.bind_eq]
  cases hr : p.isRet with
  | false =>
    rw [Prog.andThen_eq_bind p k hr]
    exact .bind hr hp hk
  | true =>
    obtain ⟨b, rfl⟩ := Prog.eq_ret_of_isRet hr
    exact hk b

theorem built_read (hR : ∀ s, R s s) (f : S → α) : Built R F (.read f) := .act hR

theorem built_modify {f : S → S} (h : ∀ s, R s (f s)) : Built R F (.modify f) := .act h

theorem built_ite {c : Prop} [Decidable c] {p q : Prog S α} (hp : Built R F p)
    (hq : Built R F q) : Built R F (if c then p else q) := by
  split
  · exact hp
  · exact hq

theorem built_when {c : Bool} {p : Prog S Unit} (hp : Built R F p) : Built R F (.when c p) :=
  built_ite hp (.ret ())

theorem built_whileDo {c : Prog S Bool} {body : Prog S Unit} (hc : Built R F c)
    (hb : Built R F body) : Built R F (.whileDo c body) :=
  .iter (fun _ => built_bind hc fun _ =>
    built_ite (built_bind hb fun _ => built_pure _) (built_pure _)) ()

theorem Built.mono {R' : S → S → Prop} (hR : ∀ s t, R s t → R' s t) {p : Prog S α}
    (h : Built R F p) : Built R' F p := by
  induction h with
  | ret a => exact .ret a
  | act h => exact .act fun s => hR _ _ (h s)
  | call h => exact .call h
  | bind hr _ _ ihp ihk => exact .bind hr ihp ihk
  | iter _ x ih => exact .iter ih x

theorem Built.keeps {I : S → Prop} {p : Prog S α}
    (h : Built (fun s t => I s → I t) noProcedures p) : Keeps I p := by
  induction h with
  | ret a => trivial
  | act h => exact h
  | call h => exact h.elim
  | bind _ _ _ ihp ihk => exact ⟨ihp, ihk⟩
  | iter _ _ ih => exact ih

end Construction

section Runs

variable {handle : E → S → S} {A G I : S → Prop} {R : S → S → Prop} {F : Procedures S}
  {W : (β : Type) → Prog S β → S → Prop}

variable (handle A I R F W) in
/-- Where a run of a built program can be: outside the procedures, where `I`
holds, or in a call that was begun in a state with `I` and `W`. -/
inductive Doing : {α : Type} → Prog S α → S → Prop
  | outside {α : Type} {p : Prog S α} {t : S} (hb : Built R F p) (hi : I t) : Doing p t
  | inside {α : Type} {f q : Prog S α} {s t : S} (hf : F α f) (ha : A s) (hi : I s) (hw : W α f s)
      (hr : Runs handle A (f, s) (q, t)) (hq : q.isRet = false) : Doing q t
  | within {α β : Type} {p : Prog S β} {k : β → Prog S α} {t : S} (hp : p.isRet = false)
      (h : Doing p t) (hk : ∀ b, Built R F (k b)) : Doing (.bind p k) t

variable (handle A I F W) in
/-- The program `p` is in a call of `f` that was begun in `s` and has come to
`q` and `t`. -/
structure InCall (f q : Prog S β) (s : S) (p : Prog S α) (t : S) : Prop where
  procedure : F β f
  assumed : A s
  begun : I s
  marked : W β f s
  run : Runs handle A (f, s) (q, t)
  active : Active q p

theorem InCall.bind {f q : Prog S β} {s t : S} {p : Prog S γ}
    (h : InCall handle A I F W f q s p t) (k : γ → Prog S α) :
    InCall handle A I F W f q s (.bind p k) t :=
  { h with active := .bind k h.active }

theorem InCall.iter {f q : Prog S β} {s t : S} {body : X → Prog S (X ⊕ α)} {x : X}
    (h : InCall handle A I F W f q s (body x) t) :
    InCall handle A I F W f q s (.iter body x) t :=
  { h with active := .iter h.active }

theorem Doing.ret {a : α} {t : S} (h : Doing handle A I R F W (.ret a) t) : I t := by
  cases h with
  | outside hb hi => exact hi
  | inside hf ha hi hw hr hq => cases hq

theorem Doing.andThen {p : Prog S β} {k : β → Prog S α} {t : S}
    (h : Doing handle A I R F W p t) (hk : ∀ b, Built R F (k b)) :
    Doing handle A I R F W (p.andThen k) t := by
  cases hr : p.isRet with
  | false =>
    rw [Prog.andThen_eq_bind p k hr]
    exact .within hr h hk
  | true =>
    obtain ⟨b, rfl⟩ := Prog.eq_ret_of_isRet hr
    exact .outside (hk b) h.ret

theorem Doing.elim {p : Prog S α} {t : S} (h : Doing handle A I R F W p t) :
    I t ∨ ∃ (β : Type) (f q : Prog S β) (s : S), InCall handle A I F W f q s p t := by
  induction h with
  | outside _ hi => exact .inl hi
  | inside hf ha hi hw hr _ => exact .inr ⟨_, _, _, _, hf, ha, hi, hw, hr, .here⟩
  | within _ _ _ ih =>
    obtain hi | ⟨β, f, q, s, hc⟩ := ih
    · exact .inl hi
    · exact .inr ⟨β, f, q, s, hc.bind _⟩

theorem Built.access (hR : ∀ s, R s s) {p : Prog S α} {t : S} (hb : Built R F p) (ha : A t)
    (hi : I t) (hw : ∀ (β : Type) (q : Prog S β), F β q → Active q p → W β q t) :
    R t (p.step t).2 ∨ ∃ (β : Type) (f q : Prog S β) (s : S),
      InCall handle A I F W f q s p t ∧ (p.step t).2 = (q.step t).2 := by
  induction hb with
  | ret a => exact .inl (hR t)
  | act h => exact .inl (h t)
  | call hf =>
    exact .inr ⟨_, _, _, t, ⟨hf, ha, hi, hw _ _ hf .here, .refl _, .here⟩, rfl⟩
  | bind _ _ _ ihp =>
    obtain hr | ⟨β, f, q, s, hc, he⟩ := ihp fun β q hf hq => hw β q hf (.bind _ hq)
    · exact .inl hr
    · exact .inr ⟨β, f, q, s, hc.bind _, he⟩
  | iter _ x ih =>
    obtain hr | ⟨β, f, q, s, hc, he⟩ := ih x fun β q hf hq => hw β q hf (.iter hq)
    · exact .inl hr
    · exact .inr ⟨β, f, q, s, hc.iter, he⟩

theorem Doing.access (hR : ∀ s, R s s) {p : Prog S α} {t : S} (h : Doing handle A I R F W p t)
    (ha : A t) (hw : ∀ (β : Type) (q : Prog S β), F β q → Active q p → W β q t) :
    R t (p.step t).2 ∨ ∃ (β : Type) (f q : Prog S β) (s : S),
      InCall handle A I F W f q s p t ∧ (p.step t).2 = (q.step t).2 := by
  induction h with
  | outside hb hi => exact hb.access hR ha hi hw
  | inside hf hs hi hw' hr _ => exact .inr ⟨_, _, _, _, ⟨hf, hs, hi, hw', hr, .here⟩, rfl⟩
  | within _ _ _ ih =>
    obtain hr | ⟨β, f, q, s, hc, he⟩ := ih ha fun β q hf hq => hw β q hf (.bind _ hq)
    · exact .inl hr
    · exact .inr ⟨β, f, q, s, hc.bind _, he⟩

variable (hstable : Stable handle A I) (hR : ∀ s t, R s t → A t → I s → I t)
  (hF : ∀ (β : Type) (f : Prog S β) (s : S) (a : β) (t : S), F β f → A s → I s → W β f s →
    Runs handle A (f, s) (.ret a, t) → I t)

include hstable in
theorem Doing.irq {p : Prog S α} {t : S} (e : E) (h : Doing handle A I R F W p t) (ha : A t)
    (hn : A (handle e t)) : Doing handle A I R F W p (handle e t) := by
  induction h with
  | outside hb hi => exact .outside hb (hstable e _ ha hn hi)
  | inside hf hs hi hw hr hq => exact .inside hf hs hi hw (.next (.irq e) hr hn) hq
  | within hp _ hk ih => exact .within hp (ih ha hn) hk

include hF in
theorem Doing.advance {f q : Prog S α} {s t : S} (hf : F α f) (ha : A s) (hi : I s) (hw : W α f s)
    (hr : Runs handle A (f, s) (q, t)) : Doing handle A I R F W q t := by
  cases hq : q.isRet with
  | false => exact .inside hf ha hi hw hr hq
  | true =>
    obtain ⟨a, rfl⟩ := Prog.eq_ret_of_isRet hq
    exact .outside (.ret a) (hF α f s a t hf ha hi hw hr)

include hR hF in
theorem Built.step {p : Prog S α} {t : S} (hb : Built R F p) (ha : A t) (hi : I t)
    (hn : A (p.step t).2) (hw : ∀ (β : Type) (q : Prog S β), F β q → Active q p → W β q t) :
    Doing handle A I R F W (p.step t).1 (p.step t).2 := by
  induction hb with
  | ret a => exact .outside (.ret a) hi
  | act h => exact .outside (.ret _) (hR _ _ (h t) hn hi)
  | call hf => exact .advance hF hf ha hi (hw _ _ hf .here) (.next .cpu (.refl _) hn)
  | bind _ _ hk ihp => exact (ihp hn fun β q hf hq => hw β q hf (.bind _ hq)).andThen hk
  | iter hb x ih =>
    refine (ih x hn fun β q hf hq => hw β q hf (.iter hq)).andThen fun r => ?_
    cases r with
    | inl y => exact .iter hb y
    | inr a => exact .ret a

include hR hF in
theorem Doing.step {p : Prog S α} {t : S} (h : Doing handle A I R F W p t) (ha : A t)
    (hn : A (p.step t).2) (hw : ∀ (β : Type) (q : Prog S β), F β q → Active q p → W β q t) :
    Doing handle A I R F W (p.step t).1 (p.step t).2 := by
  induction h with
  | outside hb hi => exact hb.step hR hF ha hi hn hw
  | inside hf hs hi hw' hr _ => exact .advance hF hf hs hi hw' (.next .cpu hr hn)
  | within _ _ hk ih => exact (ih ha hn fun β q hf hq => hw β q hf (.bind _ hq)).andThen hk

include hstable hR hF in
/-- A run of a built program is always somewhere. `W` may say of a call that
it begins on the way of the run to its end. -/
theorem Built.doing {p : Prog S α} {s : S} {d : Prog S α × S} (hb : Built R F p) (ha : A s)
    (hi : I s) (hw : ∀ e, Runs handle A (p, s) e → Runs handle A e d →
      ∀ (β : Type) (q : Prog S β), F β q → Active q e.1 → W β q e.2)
    (h : Runs handle A (p, s) d) : Doing handle A I R F W d.1 d.2 := by
  suffices hall : ∀ e, Runs handle A (p, s) e → Runs handle A e d →
      Doing handle A I R F W e.1 e.2 from hall d h (.refl d)
  intro e he
  generalize hc : (p, s) = c at he hw
  induction he with
  | refl =>
    subst hc
    exact fun _ => .outside hb hi
  | @next e m he hn ih =>
    intro hd
    have hrest : Runs handle A e d := .head m hn hd
    have hea : A e.2 := he.assumption (by rw [← hc]; exact ha)
    cases m with
    | cpu => exact (ih hrest).step hR hF hea hn (hw e he hrest)
    | irq x => exact (ih hrest).irq hstable x hea hn

end Runs

section Accesses

variable {handle : E → S → S} {A : S → Prop} {R : S → S → Prop} {F : Procedures S}

theorem Built.access_of_runs (hR : ∀ s, R s s) {p : Prog S α} {s : S} {d : Prog S α × S}
    (hb : Built R F p) (h : Runs handle (fun _ => True) (p, s) d) :
    R d.2 (d.1.step d.2).2 ∨ ∃ (β : Type) (f q : Prog S β) (t : S), F β f ∧
      Runs handle (fun _ => True) (f, t) (q, d.2) ∧ Active q d.1 ∧
      (d.1.step d.2).2 = (q.step d.2).2 := by
  have hdoing := hb.doing (I := fun _ => True) (W := fun _ _ _ => True)
    (fun _ _ _ _ _ => trivial) (fun _ _ _ _ _ => trivial) (fun _ _ _ _ _ _ _ _ _ _ => trivial)
    trivial trivial (fun _ _ _ _ _ _ _ => trivial) h
  refine (hdoing.access hR trivial fun _ _ _ _ => trivial).imp_right ?_
  rintro ⟨β, f, q, t, hc, he⟩
  exact ⟨β, f, q, t, hc.procedure, hc.run, hc.active, he⟩

theorem Built.along (hR : ∀ s, R s s) {p : Prog S α} {s : S} {d : Prog S α × S}
    (hb : Built R noProcedures p) (h : Runs handle (fun _ => True) (p, s) d) :
    R d.2 (d.1.step d.2).2 := by
  obtain hr | ⟨_, _, _, _, hf, -⟩ := hb.access_of_runs hR h
  · exact hr
  · exact hf.elim

end Accesses

section Triples

variable {handle : E → S → S} {A G I : S → Prop} {R : S → S → Prop} {F : Procedures S}

theorem Built.triple (hstable : Stable handle A I) (hG : ∀ s, A s → I s → G s)
    (hR : ∀ s t, R s t → A t → I s → I t)
    (hF : ∀ (β : Type) (f : Prog S β), F β f → Triple handle A G I f fun _ => I) {p : Prog S α}
    (hb : Built R F p) : Triple handle A G I p fun _ => I := by
  intro s ha hi d hd
  have hdoing := hb.doing (W := fun _ _ _ => True) hstable hR
    (fun β f s a t hf ha hi _ hr => (hF β f hf s ha hi _ hr).2 a rfl) ha hi
    (fun _ _ _ _ _ _ _ => trivial) hd
  refine ⟨?_, fun a he => ?_⟩
  · obtain hi | ⟨β, f, q, t, hc⟩ := hdoing.elim
    · exact hG _ (hd.assumption ha) hi
    · exact (hF β f hc.procedure t hc.assumed hc.begun _ hc.run).1
  · rw [he] at hdoing
    exact hdoing.ret

end Triples

end Adelino.Calls
