import Mathlib.Logic.Function.Basic
import Mathlib.Data.List.Basic

namespace Adelino.Circular

variable {α : Type} {buffer : UInt8 → α} {front back : UInt8} {l : List α} {x : α}

/-- The elements from `front` up to `back` in a circular buffer of 256 cells,
one of which stays unused. -/
structure Queue (buffer : UInt8 → α) (front back : UInt8) (l : List α) : Prop where
  length_lt : l.length < 256
  back_eq : back = front + .ofNat l.length
  get : ∀ i (h : i < l.length), buffer (front + .ofNat i) = l[i]

theorem ofNat_succ (n : Nat) : UInt8.ofNat (n + 1) = UInt8.ofNat n + 1 := by
  rw [UInt8.ofNat_add]
  rfl

theorem ofNat_ne {i j : Nat} (hi : i < 256) (hj : j < 256) (h : i ≠ j) :
    UInt8.ofNat i ≠ UInt8.ofNat j := by
  intro he
  have hn := congrArg UInt8.toNat he
  rw [UInt8.toNat_ofNat', UInt8.toNat_ofNat', Nat.mod_eq_of_lt hi, Nat.mod_eq_of_lt hj] at hn
  exact h hn

theorem toNat_sub_succ_lt {a b : UInt8} (h : a ≠ b) : (a - (b + 1)).toNat < (a - b).toNat := by
  have hne : a.toNat ≠ b.toNat := fun he => h (UInt8.toNat_inj.mp he)
  have ha := a.toNat_lt
  have hb := b.toNat_lt
  rw [UInt8.toNat_sub, UInt8.toNat_sub, UInt8.toNat_add, UInt8.toNat_one]
  omega

theorem Queue.nil (buffer : UInt8 → α) (front : UInt8) : Queue buffer front front [] where
  length_lt := Nat.zero_lt_succ _
  back_eq := (UInt8.add_zero front).symm
  get _ h := nomatch h

theorem Queue.eq_iff (h : Queue buffer front back l) : back = front ↔ l = [] := by
  constructor
  · intro he
    by_contra hne
    have hlen : l.length ≠ 0 := fun h0 => hne (List.length_eq_zero_iff.mp h0)
    refine ofNat_ne h.length_lt (by decide) hlen ((UInt8.add_right_inj front).mp ?_)
    rw [← h.back_eq, he]
    exact (UInt8.add_zero front).symm
  · rintro rfl
    exact h.back_eq.trans (UInt8.add_zero front)

theorem Queue.full_iff (h : Queue buffer front back l) : back + 1 = front ↔ l.length = 255 := by
  have hlt := h.length_lt
  rw [h.back_eq, UInt8.add_assoc, ← ofNat_succ]
  constructor
  · intro he
    by_contra hne
    refine ofNat_ne (i := l.length + 1) (j := 0) (by omega) (by decide) (by omega) ?_
    exact (UInt8.add_right_inj front).mp (he.trans (UInt8.add_zero front).symm)
  · intro he
    rw [he]
    exact UInt8.add_zero front

theorem Queue.ne_nil (h : Queue buffer front back l) (hne : back ≠ front) : l ≠ [] :=
  mt h.eq_iff.mpr hne

theorem Queue.push (h : Queue buffer front back l) (x : α) (hne : back + 1 ≠ front) :
    Queue (Function.update buffer back x) front (back + 1) (l ++ [x]) := by
  have hlt := h.length_lt
  have hroom : l.length ≠ 255 := mt h.full_iff.mpr hne
  refine ⟨?_, ?_, ?_⟩
  · rw [List.length_append, List.length_singleton]
    omega
  · rw [h.back_eq, List.length_append, List.length_singleton, ofNat_succ, UInt8.add_assoc]
  · intro i hi
    rw [List.length_append, List.length_singleton] at hi
    by_cases he : i = l.length
    · subst he
      rw [← h.back_eq, Function.update_self]
      simp
    · have hil : i < l.length := by omega
      have hcell : front + UInt8.ofNat i ≠ back := by
        rw [h.back_eq]
        intro hc
        exact ofNat_ne (by omega) hlt he ((UInt8.add_right_inj front).mp hc)
      rw [Function.update_of_ne hcell, h.get i hil, List.getElem_append_left hil]

theorem Queue.pop (h : Queue buffer front back (x :: l)) :
    buffer front = x ∧ Queue buffer (front + 1) back l := by
  constructor
  · exact (congrArg buffer (UInt8.add_zero front).symm).trans (h.get 0 (Nat.zero_lt_succ _))
  · refine ⟨Nat.lt_of_succ_lt h.length_lt, ?_, ?_⟩
    · rw [h.back_eq, List.length_cons, ofNat_succ, UInt8.add_assoc, UInt8.add_comm 1]
    · intro i hi
      rw [UInt8.add_assoc, UInt8.add_comm 1, ← ofNat_succ]
      exact h.get (i + 1) (Nat.succ_lt_succ hi)

end Adelino.Circular
