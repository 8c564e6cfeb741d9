import Mathlib.Data.List.Basic

namespace Adelino.Program

variable {S E α β : Type}

/-- A sequential program over a shared state, cut at its atomic accesses.
An interrupt can fall between any two of them and nowhere else. -/
inductive Prog (S : Type) : Type → Type 1
  | ret {α : Type} (a : α) : Prog S α
  | act {α : Type} (f : S → α × S) : Prog S α
  | bind {α β : Type} (p : Prog S β) (k : β → Prog S α) : Prog S α
  | iter {α X : Type} (body : X → Prog S (X ⊕ α)) (x : X) : Prog S α

namespace Prog

def isRet : Prog S α → Bool
  | .ret _ => true
  | _ => false

/-- Sequencing that takes no step of its own when the first part is done. -/
def andThen (p : Prog S β) (k : β → Prog S α) : Prog S α :=
  match p with
  | .ret b => k b
  | p => .bind p k

instance : Monad (Prog S) where
  pure := .ret
  bind := andThen

def resume {X : Type} (body : X → Prog S (X ⊕ α)) : X ⊕ α → Prog S α
  | .inl x => .iter body x
  | .inr a => .ret a

/-- One atomic access of the program. Returning and starting the next turn
of a loop cost nothing by themselves. -/
def step : {α : Type} → Prog S α → S → Prog S α × S
  | _, .ret a, s => (.ret a, s)
  | _, .act f, s => (.ret (f s).1, (f s).2)
  | _, .bind p k, s => ((p.step s).1.andThen k, (p.step s).2)
  | _, .iter body x, s => (((body x).step s).1.andThen (resume body), ((body x).step s).2)

def read (f : S → α) : Prog S α := .act fun s => (f s, s)

def modify (f : S → S) : Prog S Unit := .act fun s => ((), f s)

def when (c : Bool) (p : Prog S Unit) : Prog S Unit := if c then p else .ret ()

/-- `while (c) body`, where the condition may itself access the state. -/
def whileDo (c : Prog S Bool) (body : Prog S Unit) : Prog S Unit :=
  .iter (fun _ => do
    if ← c then
      body
      return .inl ()
    else
      return .inr ()) ()

def updates : List (S → S) → Prog S Unit
  | [] => .ret ()
  | [f] => .modify f
  | f :: g :: fs => .bind (.modify f) fun _ => updates (g :: fs)

theorem step_updates (f : S → S) (fs : List (S → S)) (s : S) :
    (updates (f :: fs)).step s = (updates fs, f s) := by
  cases fs <;> rfl

theorem andThen_eq_bind (p : Prog S β) (k : β → Prog S α) (h : p.isRet = false) :
    p.andThen k = .bind p k := by
  cases p <;> first | rfl | simp [isRet] at h

theorem step_andThen (p : Prog S β) (k : β → Prog S α) (s : S) (h : p.isRet = false) :
    (p.andThen k).step s = ((p.step s).1.andThen k, (p.step s).2) := by
  rw [andThen_eq_bind p k h, step]

theorem eq_ret_of_isRet {p : Prog S α} (h : p.isRet = true) : ∃ a, p = .ret a := by
  cases p with
  | ret a => exact ⟨a, rfl⟩
  | act f => simp [isRet] at h
  | bind p k => simp [isRet] at h
  | iter body x => simp [isRet] at h

theorem bind_eq (p : Prog S β) (k : β → Prog S α) : (p >>= k) = p.andThen k := rfl

end Prog

/-- What happens next: the processor advances the program, or an interrupt
or a device of the outside world changes the state. -/
inductive Move (E : Type)
  | cpu
  | irq (e : E)
  deriving DecidableEq, Repr

variable (handle : E → S → S)

def move : Move E → Prog S α × S → Prog S α × S
  | .cpu, c => c.1.step c.2
  | .irq e, c => (c.1, handle e c.2)

def exec (c : Prog S α × S) (ms : List (Move E)) : Prog S α × S :=
  ms.foldl (fun c m => move handle m c) c

/-- Finite runs all of whose later states satisfy the assumption `A`. -/
inductive Runs (A : S → Prop) : Prog S α × S → Prog S α × S → Prop
  | refl (c : Prog S α × S) : Runs A c c
  | next {c d : Prog S α × S} (m : Move E) :
      Runs A c d → A (move handle m d).2 → Runs A c (move handle m d)

namespace Runs

variable {handle} {A B : S → Prop} {c d e : Prog S α × S}

theorem trans (h : Runs handle A c d) (h' : Runs handle A d e) : Runs handle A c e := by
  induction h' with
  | refl => exact h
  | next m _ ha ih => exact .next m ih ha

theorem head (m : Move E) (ha : A (move handle m c).2)
    (h : Runs handle A (move handle m c) d) : Runs handle A c d :=
  trans (.next m (.refl c) ha) h

theorem mono (hAB : ∀ s, A s → B s) (h : Runs handle A c d) : Runs handle B c d := by
  induction h with
  | refl => exact .refl _
  | next m _ ha ih => exact .next m ih (hAB _ ha)

theorem assumption (hc : A c.2) (h : Runs handle A c d) : A d.2 := by
  cases h with
  | refl => exact hc
  | next m _ ha => exact ha

theorem of_isRet (h : Runs handle A c d) (hr : d.1.isRet = true) :
    ∃ a, Runs handle A c (.ret a, d.2) := by
  obtain ⟨p, t⟩ := d
  obtain ⟨a, rfl⟩ := Prog.eq_ret_of_isRet hr
  exact ⟨a, h⟩

theorem of_bind {p : Prog S β} {k : β → Prog S α} {s : S} (h : Runs handle A (p >>= k, s) d) :
    (∃ q : Prog S β, q.isRet = false ∧ Runs handle A (p, s) (q, d.2) ∧ d.1 = q.andThen k) ∨
      ∃ b t, Runs handle A (p, s) (.ret b, t) ∧ Runs handle A (k b, t) d := by
  have hpart (q : Prog S β) (t : S) (hq : Runs handle A (p, s) (q, t)) :
      (∃ q' : Prog S β, q'.isRet = false ∧ Runs handle A (p, s) (q', t) ∧
          q.andThen k = q'.andThen k) ∨
        ∃ b t', Runs handle A (p, s) (.ret b, t') ∧ Runs handle A (k b, t') (q.andThen k, t) := by
    cases hr : q.isRet with
    | false => exact .inl ⟨q, hr, hq, rfl⟩
    | true =>
      obtain ⟨b, rfl⟩ := Prog.eq_ret_of_isRet hr
      exact .inr ⟨b, t, hq, .refl _⟩
  generalize hc : (p >>= k, s) = c at h
  induction h with
  | refl =>
    subst hc
    exact hpart p s (.refl _)
  | @next d m _ ha ih =>
    obtain ⟨q, hr, hq, hd⟩ | ⟨b, t, hq, hd⟩ := ih
    · obtain ⟨e, t⟩ := d
      dsimp only at hd hq
      subst hd
      cases m with
      | cpu =>
        rw [move, Prog.step_andThen q k t hr] at ha ⊢
        exact hpart _ _ (.next .cpu hq ha)
      | irq x => exact hpart q _ (.next (.irq x) hq ha)
    · exact .inr ⟨b, t, hq, .next m hd ha⟩

theorem andThen {c d : Prog S β × S} (h : Runs handle A c d) (k : β → Prog S α) :
    Runs handle A (c.1.andThen k, c.2) (d.1.andThen k, d.2) := by
  induction h with
  | refl => exact .refl _
  | @next d m _ ha ih =>
    obtain ⟨q, t⟩ := d
    cases m with
    | irq e => exact .next (.irq e) ih ha
    | cpu =>
      cases hr : q.isRet with
      | false =>
        have hstep := Prog.step_andThen q k t hr
        have hnext := Runs.next .cpu ih (by rw [move, hstep]; exact ha)
        rwa [move, hstep] at hnext
      | true =>
        obtain ⟨b, rfl⟩ := Prog.eq_ret_of_isRet hr
        exact ih

/-- Where a run of a straight line of updates is, by what it has done to a part
`v` of the state that interrupts leave alone. -/
theorem of_updates {V : Type} {v : S → V} {update : (V → V) → S → S}
    (hv : ∀ e s, v (handle e s) = v s) (hu : ∀ f s, v (update f s) = f (v s)) (fs : List (V → V))
    {s : S} {d : Prog S Unit × S} (h : Runs handle A (.updates (fs.map update), s) d) :
    ∃ done rest, fs = done ++ rest ∧ d.1 = .updates (rest.map update) ∧
      v d.2 = done.foldl (fun x f => f x) (v s) := by
  generalize hc : (Prog.updates (fs.map update), s) = c at h
  induction h with
  | refl =>
    subst hc
    exact ⟨[], fs, rfl, rfl, rfl⟩
  | @next d m _ _ ih =>
    obtain ⟨done, rest, hfs, hd, hs⟩ := ih
    obtain ⟨p, t⟩ := d
    dsimp only at hd hs
    subst hd
    cases m with
    | irq e => exact ⟨done, rest, hfs, rfl, (hv e t).trans hs⟩
    | cpu =>
      cases rest with
      | nil => exact ⟨done, [], hfs, rfl, hs⟩
      | cons f rest =>
        refine ⟨done ++ [f], rest, by rw [hfs, List.append_assoc]; rfl, ?_, ?_⟩
        · rw [move, List.map_cons, Prog.step_updates]
        · rw [move, List.map_cons, Prog.step_updates, List.foldl_append, hu, hs]
          rfl

theorem of_exec (c : Prog S α × S) (ms : List (Move E)) :
    Runs handle (fun _ => True) c (exec handle c ms) := by
  induction ms generalizing c with
  | nil => exact .refl c
  | cons m ms ih => exact head m trivial (ih (move handle m c))

/-- Whether a decidable assumption holds after each of the moves. -/
def holdsAlong (handle : E → S → S) (A : S → Prop) [DecidablePred A] :
    Prog S α × S → List (Move E) → Bool
  | _, [] => true
  | c, m :: ms => decide (A (move handle m c).2) && holdsAlong handle A (move handle m c) ms

theorem of_holdsAlong [DecidablePred A] (c : Prog S α × S) (ms : List (Move E))
    (h : holdsAlong handle A c ms = true) : Runs handle A c (exec handle c ms) := by
  induction ms generalizing c with
  | nil => exact .refl c
  | cons m ms ih =>
    rw [holdsAlong, Bool.and_eq_true, decide_eq_true_eq] at h
    exact head m h.1 (ih (move handle m c) h.2)

end Runs

end Adelino.Program
