import Adelino.Logic

namespace Adelino.Lockstep

open Adelino.Program Adelino.Logic

variable {S T E α β : Type}

/-- The program beside a further part of the state, which it leaves alone. -/
def extend : {α : Type} → Prog S α → Prog (S × T) α
  | _, .ret a => .ret a
  | _, .act f => .act fun x => ((f x.1).1, (f x.1).2, x.2)
  | _, .bind p k => .bind (extend p) fun b => extend (k b)
  | _, .iter body x => .iter (fun y => extend (body y)) x

def beside (handle : E → S → S) : E → S × T → S × T := fun e x => (handle e x.1, x.2)

section Extend

theorem isRet_extend (p : Prog S α) : (extend (T := T) p).isRet = p.isRet := by
  cases p <;> rfl

@[simp] theorem extend_bind (p : Prog S β) (k : β → Prog S α) :
    extend (T := T) (p >>= k) = extend p >>= fun b => extend (k b) := by
  cases p <;> rfl

theorem extend_resume {X : Type} (body : X → Prog S (X ⊕ α)) (r : X ⊕ α) :
    extend (T := T) (Prog.resume body r) = Prog.resume (fun y => extend (body y)) r := by
  cases r <;> rfl

theorem step_extend (p : Prog S α) (s : S) (t : T) :
    (extend p).step (s, t) = (extend (p.step s).1, (p.step s).2, t) := by
  induction p with
  | ret a => rfl
  | act f => rfl
  | bind p k ihp _ =>
    rw [extend, Prog.step, Prog.step, ihp]
    exact congrArg (·, _) (extend_bind _ k).symm
  | iter body x ih =>
    rw [extend, Prog.step, Prog.step, ih]
    refine congrArg (·, _) ?_
    refine .trans ?_ (extend_bind _ (Prog.resume body)).symm
    exact congrArg _ (funext fun r => (extend_resume body r).symm)

variable (handle : E → S → S)

theorem move_extend (m : Move E) (p : Prog S α) (s : S) (t : T) :
    move (beside handle) m (extend p, (s, t)) =
      (extend (move handle m (p, s)).1, (move handle m (p, s)).2, t) := by
  cases m with
  | cpu => exact step_extend p s t
  | irq e => rfl

theorem exec_extend (ms : List (Move E)) (p : Prog S α) (s : S) (t : T) :
    exec (beside handle) (extend p, (s, t)) ms =
      (extend (exec handle (p, s) ms).1, (exec handle (p, s) ms).2, t) := by
  induction ms generalizing p s with
  | nil => rfl
  | cons m ms ih =>
    exact (congrArg (exec (beside handle) · ms) (move_extend handle m p s t)).trans (ih _ _)

end Extend

section Sequences

variable (handle : E → S → S)

/-- The moves bring the program to its end, and no fewer of them do. -/
inductive Completes : Prog S α → S → List (Move E) → α → S → Prop
  | ret (a : α) (s : S) : Completes (.ret a) s [] a s
  | next {p : Prog S α} {s t : S} {a : α} {ms : List (Move E)} (m : Move E) (hp : p.isRet = false)
      (h : Completes (move handle m (p, s)).1 (move handle m (p, s)).2 ms a t) :
      Completes p s (m :: ms) a t

variable {handle}

theorem move_andThen (m : Move E) {p : Prog S β} (hp : p.isRet = false) (k : β → Prog S α) (s : S) :
    move handle m (p.andThen k, s) =
      ((move handle m (p, s)).1.andThen k, (move handle m (p, s)).2) := by
  cases m with
  | cpu => exact Prog.step_andThen p k s hp
  | irq e => rfl

theorem Completes.bind {p : Prog S β} {k : β → Prog S α} {s t u : S} {b : β} {a : α}
    {ms ms' : List (Move E)} (h : Completes handle p s ms b t)
    (h' : Completes handle (k b) t ms' a u) :
    Completes handle (p >>= k) s (ms ++ ms') a u := by
  induction h with
  | ret b s => exact h'
  | @next p s t b ms m hp _ ih =>
    refine .next m ?_ ?_
    · rw [Prog.bind_eq, Prog.andThen_eq_bind p k hp]
      rfl
    · rw [Prog.bind_eq, move_andThen m hp]
      exact ih h'

def returned : Prog S α → Option α
  | .ret a => some a
  | _ => none

theorem exec_ret (a : α) (s : S) (ms : List (Move E)) :
    (exec handle (.ret a, s) ms).1 = .ret a := by
  induction ms generalizing s with
  | nil => rfl
  | cons m ms ih =>
    cases m with
    | cpu => exact ih s
    | irq e => exact ih (handle e s)

theorem Completes.returned {p : Prog S α} {s t : S} {a : α} {ms : List (Move E)}
    (h : Completes handle p s ms a t) (ms' : List (Move E)) :
    returned (exec handle (p, s) (ms ++ ms')).1 = some a := by
  induction h with
  | ret a s => exact congrArg Lockstep.returned (exec_ret a s ms')
  | next m hp _ ih => exact ih

/-- Two configurations agree on the state and on whether the program has
returned, and the further part is still `t`. -/
def Agree (t : T) (c' : Prog (S × T) α × S × T) (c : Prog S α × S) : Prop :=
  c'.1.isRet = c.1.isRet ∧ c'.2 = (c.2, t)

theorem agree_extend (p : Prog S α) (s : S) (t : T) (ms : List (Move E)) :
    Agree t (exec (beside handle) (extend p, (s, t)) ms) (exec handle (p, s) ms) := by
  rw [exec_extend]
  exact ⟨isRet_extend _, rfl⟩

theorem agree_bind {p : Prog S β} {k : β → Prog S α} {k' : β → Prog (S × T) α} {s : S} {t : T}
    {ms : List (Move E)}
    (h : ∀ ms₁ ms₂ b u, ms = ms₁ ++ ms₂ → Completes handle p s ms₁ b u →
      Agree t (exec (beside handle) (k' b, (u, t)) ms₂) (exec handle (k b, u) ms₂)) :
    Agree t (exec (beside handle) (extend p >>= k', (s, t)) ms) (exec handle (p >>= k, s) ms) := by
  -- on the moves: until `p` returns, both sides make the same one
  induction ms generalizing p s with
  | nil =>
    cases hp : p.isRet with
    | true =>
      obtain ⟨b, rfl⟩ := Prog.eq_ret_of_isRet hp
      exact h [] [] b s rfl (.ret b s)
    | false =>
      refine ⟨?_, rfl⟩
      have hp' : (extend (T := T) p).isRet = false := (isRet_extend p).trans hp
      rw [Prog.bind_eq, Prog.bind_eq, Prog.andThen_eq_bind p k hp, Prog.andThen_eq_bind _ k' hp']
      rfl
  | cons m ms ih =>
    cases hp : p.isRet with
    | true =>
      obtain ⟨b, rfl⟩ := Prog.eq_ret_of_isRet hp
      exact h [] (m :: ms) b s rfl (.ret b s)
    | false =>
      have hp' : (extend (T := T) p).isRet = false := (isRet_extend p).trans hp
      have hnext := ih (p := (move handle m (p, s)).1) (s := (move handle m (p, s)).2)
        fun ms₁ ms₂ b u hms hc => h (m :: ms₁) ms₂ b u (congrArg _ hms) (.next m hp hc)
      rw [exec, exec, List.foldl_cons, List.foldl_cons, Prog.bind_eq, Prog.bind_eq,
        move_andThen m hp, move_andThen m hp', move_extend]
      exact hnext

end Sequences

/-- Two programs of one shape, whose accesses do the same in the states of `A`. -/
inductive Alike (A : S → Prop) : {α : Type} → Prog S α → Prog S α → Prop
  | same {α : Type} (p : Prog S α) : Alike A p p
  | act {α : Type} {f g : S → α × S} (h : ∀ s, A s → f s = g s) : Alike A (.act f) (.act g)
  | bind {α β : Type} {p q : Prog S β} {k l : β → Prog S α} (hp : Alike A p q)
      (hk : ∀ b, Alike A (k b) (l b)) : Alike A (.bind p k) (.bind q l)
  | iter {α X : Type} {body body' : X → Prog S (X ⊕ α)} (hb : ∀ x, Alike A (body x) (body' x))
      (x : X) : Alike A (.iter body x) (.iter body' x)

section Alike

variable {A : S → Prop}

theorem Alike.mono {B : S → Prop} {p q : Prog S α} (h : Alike A p q) (hB : ∀ s, B s → A s) :
    Alike B p q := by
  induction h with
  | same p => exact .same p
  | act h => exact .act fun s hs => h s (hB s hs)
  | bind _ _ ihp ihk => exact .bind ihp ihk
  | iter _ x ih => exact .iter ih x

theorem Alike.andThen {p q : Prog S β} {k l : β → Prog S α} (hp : Alike A p q)
    (hk : ∀ b, Alike A (k b) (l b)) : Alike A (p >>= k) (q >>= l) := by
  cases hp with
  | same p =>
    cases p with
    | ret b => exact hk b
    | _ => exact .bind (.same _) hk
  | act h => exact .bind (.act h) hk
  | bind hp hk' => exact .bind (.bind hp hk') hk
  | iter hb x => exact .bind (.iter hb x) hk

theorem Alike.ite {c : Prop} [Decidable c] {p q p' q' : Prog S α} (hp : Alike A p p')
    (hq : Alike A q q') : Alike A (if c then p else q) (if c then p' else q') := by
  split
  · exact hp
  · exact hq

theorem Alike.whileDo {c : Prog S Bool} {body body' : Prog S Unit} (h : Alike A body body') :
    Alike A (.whileDo c body) (.whileDo c body') := by
  refine .iter (fun _ => (Alike.same c).andThen fun b => .ite ?_ (.same _)) ()
  exact h.andThen fun _ => .same _

theorem Alike.resume {X : Type} {body body' : X → Prog S (X ⊕ α)}
    (hb : ∀ x, Alike A (body x) (body' x)) (r : X ⊕ α) :
    Alike A (Prog.resume body r) (Prog.resume body' r) := by
  cases r with
  | inl x => exact .iter hb x
  | inr a => exact .same _

theorem Alike.step {p q : Prog S α} (h : Alike A p q) {s : S} (hs : A s) :
    Alike A (p.step s).1 (q.step s).1 ∧ (p.step s).2 = (q.step s).2 := by
  induction h with
  | same p => exact ⟨.same _, rfl⟩
  | act h =>
    rw [Prog.step, Prog.step, h s hs]
    exact ⟨.same _, rfl⟩
  | bind _ hk ih _ => exact ⟨ih.1.andThen hk, ih.2⟩
  | iter hb x ih => exact ⟨(ih x).1.andThen (Alike.resume hb), (ih x).2⟩

theorem Alike.eq_ret {p : Prog S α} {a : α} (h : Alike A p (.ret a)) : p = .ret a := by
  cases h
  rfl

variable {handle : E → S → S}

theorem Alike.runs {p q : Prog S α} {s : S} (h : Alike A p q) (hs : A s) {d : Prog S α × S}
    (hd : Runs handle A (q, s) d) : ∃ p', Alike A p' d.1 ∧ Runs handle A (p, s) (p', d.2) := by
  induction hd with
  | refl => exact ⟨p, h, .refl _⟩
  | @next d m hrun ha ih =>
    obtain ⟨p', hp, hrun'⟩ := ih
    cases m with
    | cpu =>
      obtain ⟨hstep, hstate⟩ := hp.step (hrun.assumption hs)
      refine ⟨_, hstep, ?_⟩
      rw [move, ← hstate] at ha ⊢
      exact hrun'.next .cpu ha
    | irq e => exact ⟨p', hp, hrun'.next (.irq e) ha⟩

theorem Alike.triple {G P : S → Prop} {Q : α → S → Prop} {p q : Prog S α} (h : Alike A p q)
    (hp : Triple handle A G P p Q) : Triple handle A G P q Q := by
  intro s ha hs d hd
  obtain ⟨p', hp', hrun⟩ := h.runs ha hd
  obtain ⟨hg, hr⟩ := hp s ha hs _ hrun
  refine ⟨hg, fun a he => hr a ?_⟩
  rw [he] at hp'
  exact hp'.eq_ret

end Alike

end Adelino.Lockstep
