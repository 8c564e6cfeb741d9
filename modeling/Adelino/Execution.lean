import Adelino.UsbProgress

namespace Adelino.Execution

open Adelino.Program Adelino.Logic Adelino.Progress Adelino.Endpoint Adelino.Machine
open Adelino.UsbBytes Adelino.Streams Adelino.UsbSpec Adelino.UsbProgress

variable {α β : Type}

/-- `w` is reached from `v` by consuming and producing bytes in order, with
none lost, none misread and nothing unrecorded. -/
structure Le (v w : View) : Prop where
  got : v.got <+: w.got
  stream : v.got ++ v.unread = w.got ++ w.unread
  written : v.written <+: w.written
  trace : v.core.trace <:+ w.core.trace
  discarded : v.discarded = w.discarded
  dropped : v.dropped = w.dropped
  underruns : v.underruns = w.underruns

theorem Le.refl (v : View) : Le v v :=
  ⟨List.prefix_refl _, rfl, List.prefix_refl _, List.suffix_refl _, rfl, rfl, rfl⟩

theorem Le.trans {u v w : View} (h : Le u v) (h' : Le v w) : Le u w where
  got := h.got.trans h'.got
  stream := h.stream.trans h'.stream
  written := h.written.trans h'.written
  trace := h.trace.trans h'.trace
  discarded := h.discarded.trans h'.discarded
  dropped := h.dropped.trans h'.dropped
  underruns := h.underruns.trans h'.underruns

theorem le_readByte {v : View} {b : UInt8} {rest : List UInt8} (h : v.unread = b :: rest) :
    Le v (v.readByte b rest) where
  got := List.prefix_append _ _
  stream := by simp [View.readByte, h]
  written := List.prefix_refl _
  trace := List.suffix_refl _
  discarded := rfl
  dropped := rfl
  underruns := rfl

theorem le_writeByte (b : UInt8) (v : View) : Le v (v.writeByte b) where
  got := List.prefix_refl _
  stream := rfl
  written := List.prefix_append _ _
  trace := List.suffix_refl _
  discarded := rfl
  dropped := rfl
  underruns := rfl

theorem le_core {v : View} {c : Core} (h : v.core.trace <:+ c.trace) :
    Le v { v with core := c } where
  got := List.prefix_refl _
  stream := rfl
  written := List.prefix_refl _
  trace := h
  discarded := rfl
  dropped := rfl
  underruns := rfl

theorem never_steady : Steady fun _ => False := ⟨fun _ _ h => h, fun _ _ h => h⟩

theorem givesUp_alive (v : View) : GivesUp Alive v fun _ => False := fun _ h _ hn => hn h

theorem not_lossy_never : ¬ Lossy fun _ => False := fun ⟨_, h, _⟩ => h

/-- While `Timeout` runs and the host is there, `p` started on `v` takes the
view to `v'` and returns `a`: it never leaves the path between the two, and
it arrives on every fair schedule. -/
structure Executes (p : Fw α) (v : View) (a : α) (v' : View) : Prop where
  le : Le v v'
  safe : Triple handle Alive (fun s => Le v (view s) ∧ Le (view s) v') (fun s => view s = v) p
    (fun r s => r = a ∧ view s = v')
  total : ∀ σ, Fair σ → Total handle σ Alive (fun _ s => view s = v) p
    (fun _ r s => r = a ∧ view s = v')

theorem Executes.of_safe {p : Fw α} {v v' : View} {a : α} (hle : Le v v')
    (hs : Triple handle Alive (fun s => Le v (view s) ∧ Le (view s) v') (fun s => view s = v) p
      (fun r s => r = a ∧ view s = v'))
    (ht : ∀ σ, Fair σ → Total handle σ Alive (fun _ s => view s = v) p (fun _ _ _ => True)) :
    Executes p v a v' := by
  refine ⟨hle, hs, fun σ hσ t s hv => ?_⟩
  by_cases ha : Alive s
  · exact ((ht σ hσ t s hv).and_safe (hs s ha hv) ha).mono fun t c ⟨r, hr, _, hq, _⟩ => ⟨r, hr, hq⟩
  · exact .escape ha

theorem Executes.bind {p : Fw β} {k : β → Fw α} {u v w : View} {b : β} {a : α}
    (hp : Executes p u b v) (hk : Executes (k b) v a w) : Executes (p >>= k) u a w where
  le := hp.le.trans hk.le
  safe := by
    refine .bind (hp.safe.guarantee fun s hs => ⟨hs.1, hs.2.trans hk.le⟩) fun b' => ?_
    refine .of_pure fun hb => ?_
    subst hb
    exact hk.safe.guarantee fun s hs => ⟨hp.le.trans hs.1, hs.2⟩
  total σ hσ := by
    refine .bind (hp.total σ hσ) fun b' t s hs => ?_
    obtain ⟨rfl, hv⟩ := hs
    exact hk.total σ hσ t s hv

theorem Executes.congr {p : Fw α} {v v' v'' : View} {a : α} (h : Executes p v a v')
    (he : v' = v'') : Executes p v a v'' := he ▸ h

theorem Executes.ret (a : α) (v : View) : Executes (.ret a : Fw α) v a v where
  le := .refl v
  safe :=
    .ret a (stable_view fun w => a = a ∧ w = v)
    (fun _ _ hs => by rw [hs.2]; exact ⟨.refl v, .refl v⟩)
    fun _ _ hs => ⟨rfl, hs⟩
  total _ _ := .ret a fun _ _ hs => ⟨rfl, hs⟩

theorem lasting_view {σ : Nat → Move Event} (v : View) : Lasting σ fun _ s => view s = v :=
  ⟨fun _ e s _ hs => (view_handle e s).trans hs, fun _ _ _ hs => hs⟩

theorem Executes.act (f : State → α × State) {v v' : View} {a : α} (hle : Le v v')
    (h : ∀ s, view s = v → (f s).1 = a ∧ view (f s).2 = v') : Executes (.act f : Fw α) v a v' where
  le := hle
  safe := .act f (stable_view fun w => w = v) (fun r => stable_view fun w => r = a ∧ w = v')
    (fun _ _ hs => by rw [hs]; exact ⟨.refl v, hle⟩)
      (fun _ _ _ hs => by rw [hs.2]; exact ⟨hle, .refl v'⟩)
    (fun s _ hs _ => h s hs)
  total σ hσ := .act f hσ.cpu (lasting_view v).stableAt fun _ s _ _ hs => h s hs

theorem executes_read (f : State → α) (g : View → α) (h : ∀ s, f s = g (view s)) (v : View) :
    Executes (.read f) v (g v) v :=
  .act _ (.refl v) fun s hs => ⟨by rw [h, hs], hs⟩

theorem executes_modify (f : State → State) (g : View → View) (h : ∀ s, view (f s) = g (view s))
    (v : View) (hle : Le v (g v)) : Executes (.modify f) v () (g v) :=
  .act _ hle fun s hs => ⟨rfl, by rw [h, hs]⟩

theorem executes_onCore (f : Core → Core) (v : View) (h : v.core.trace <:+ (f v.core).trace) :
    Executes (onCore f) v () (v.mapCore f) :=
  executes_modify _ (View.mapCore f) (fun _ => rfl) v (le_core h)

theorem executes_setTimeout (n : UInt8) (v : View) : Executes (setTimeout n) v () v :=
  .act _ (.refl v) fun _ hs => ⟨rfl, hs⟩

theorem executes_ite {c : Prop} [Decidable c] {p q : Fw α} {v v' : View} {a : α}
    (hp : c → Executes p v a v') (hq : ¬ c → Executes q v a v') :
    Executes (if c then p else q) v a v' := by
  by_cases hc : c
  · rw [if_pos hc]; exact hp hc
  · rw [if_neg hc]; exact hq hc

theorem executes_usbReadByte (b : UInt8) (rest : List UInt8) {v : View} (h : v.unread = b :: rest) :
    Executes usbReadByte v b (v.readByte b rest) := by
  have hle := le_readByte h
  refine .of_safe hle
    ((usbReadByte_spec never_steady (fun s ha hs => givesUp_alive v s ha hs.1)).conseq
    (fun _ ha => ha) ?_ (fun _ _ hs => hs) ?_) ?_
  · rintro s (hs | ⟨b', rest', hu, hs⟩)
    · rw [hs]; exact ⟨.refl v, hle⟩
    · rw [h] at hu
      cases hu
      rw [hs]
      exact ⟨hle, .refl _⟩
  · rintro b' s (⟨rest', hu, hs⟩ | ⟨-, -, hg⟩)
    · rw [h] at hu
      cases hu
      exact ⟨rfl, hs⟩
    · exact hg.elim
  · refine fun σ hσ => (usbReadByte_total hσ).conseq (fun _ s hs => ?_) fun _ _ _ h => h
    have hu : s.usb.unread = v.unread := congrArg View.unread hs
    rw [hu, h]
    exact List.cons_ne_nil _ _

theorem executes_usbWriteByte (b : UInt8) (v : View) :
    Executes (usbWriteByte b) v () (v.writeByte b) := by
  have hle := le_writeByte b v
  refine .of_safe hle
    ((usbWriteByte_spec b never_steady (givesUp_alive v)).conseq (fun _ ha => ha) ?_
    (fun _ _ hs => hs) ?_)
    fun σ hσ => (usbWriteByte_total hσ b).conseq (fun _ _ _ => trivial) fun _ _ _ h => h
  · rintro s (hs | hs | ⟨-, hg⟩)
    · rw [hs]; exact ⟨.refl v, hle⟩
    · rw [hs]; exact ⟨hle, .refl _⟩
    · exact absurd hg not_lossy_never
  · rintro r s (hs | ⟨-, hg⟩)
    · exact ⟨rfl, hs.1⟩
    · exact absurd hg not_lossy_never

theorem executes_usbWriteBytes (bs : List UInt8) (v : View) :
    Executes (usbWriteBytes bs) v () (v.writeBytes bs) := by
  induction bs generalizing v with
  | nil => rw [writeBytes_nil]; exact .ret () v
  | cons b bs ih =>
    rw [← writeBytes_cons]
    exact .bind (executes_usbWriteByte b v) (ih (v.writeByte b))

theorem executes_usbFlush (v : View) : Executes usbFlush v () v := by
  refine .of_safe (.refl v)
    ((usbFlush_spec never_steady (givesUp_alive v)).conseq (fun _ ha => ha) ?_
    (fun _ _ hs => hs) fun _ _ hs => ⟨rfl, hs.1⟩)
    fun σ hσ => (usbFlush_total hσ).conseq (fun _ _ _ => trivial) fun _ _ _ h => h
  intro s hs
  rw [hs]
  exact ⟨.refl v, .refl v⟩

end Adelino.Execution
