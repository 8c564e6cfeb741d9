import Adelino.SessionTimeout

namespace Adelino.ButtonHold

open Adelino.Program Adelino.Logic Adelino.Calls Adelino.Flash Adelino.Endpoint Adelino.Uart
open Adelino.Machine Adelino.UsbBytes Adelino.Streams Adelino.UsbSpec Adelino.Avr109 Adelino.Esp8266
open Adelino.Main Adelino.Frame Adelino.Tasks Adelino.SessionTimeout

/-- None of the bytes read after the first `k` begins a session, and a button
that the newest observation found released is still released. -/
def Eventless (k : Nat) (s : State) : Prop :=
  (slipEnd ∉ s.usb.got.drop k ∧ esc ∉ s.usb.got.drop k) ∧
    (s.core.trace.head? = some (.rstat false) → s.button = false)

instance (k : Nat) : DecidablePred (Eventless k) := fun _ => inferInstanceAs (Decidable (_ ∧ _))

theorem Eventless.mono {j k : Nat} (hjk : j ≤ k) {s : State} (h : Eventless j s) :
    Eventless k s := by
  obtain ⟨i, rfl⟩ := Nat.exists_eq_add_of_le hjk
  refine ⟨?_, h.2⟩
  rw [← List.drop_drop]
  exact ⟨mt List.mem_of_mem_drop h.1.1, mt List.mem_of_mem_drop h.1.2⟩

/-- A call of `check_reset` that was begun in `s` and has returned in `t` took
at least `ticks` ticks, and each of its samples found the button pressed. -/
structure Held (ticks : UInt8) (s t : State) : Prop where
  armed : t.timer.armed = ticks
  elapsed : ticks.toNat ≤ t.timer.elapsed
  samples : ∃ k, t.core.trace = .checkReset ticks true :: .replicate k (.rstat true) ++ s.core.trace

/-- The call is under way, and the button has been pressed so far. -/
structure Pressing (ticks : UInt8) (s₀ s : State) : Prop where
  clocked : Clocked s.timer
  armed : s.timer.armed = ticks
  got : s₀.usb.got <+: s.usb.got
  samples : ∃ k, s.core.trace = .replicate k (.rstat true) ++ s₀.core.trace

section CheckReset

variable {ticks : UInt8} {s₀ : State} {A : State → Prop}

theorem got_handle (e : Event) (s : State) : (handle e s).usb.got = s.usb.got :=
  congrArg View.got (view_handle e s)

theorem stable_pressing : Stable handle A (Pressing ticks s₀) := by
  intro e s _ _ hs
  refine ⟨clocked_handle e hs.clocked, ?_, ?_, ?_⟩
  · rw [armed_handle]
    exact hs.armed
  · rw [got_handle]
    exact hs.got
  · rw [core_handle]
    exact hs.samples

theorem taskSteps_pressing : TaskSteps fun s t => Pressing ticks s₀ s → Pressing ticks s₀ t where
  refl _ hs := hs
  usb _ _ _ hu _ hs := ⟨hs.clocked, hs.armed, hs.got.trans hu.got, hs.samples⟩
  leds _ _ _ _ hs := ⟨hs.clocked, hs.armed, hs.got, hs.samples⟩
  ledControl _ _ hs := ⟨hs.clocked, hs.armed, hs.got, hs.samples⟩
  udr _ _ hs := ⟨hs.clocked, hs.armed, hs.got, hs.samples⟩

theorem pressing_of_built {α : Type} {p : Fw α}
    (h : Built (fun s t => Pressing ticks s₀ s → Pressing ticks s₀ t) noProcedures p) :
    Triple handle A (fun _ => True) (Pressing ticks s₀) p fun _ => Pressing ticks s₀ :=
  (Triple.of_keeps stable_pressing p h.keeps).guarantee fun _ _ => trivial

theorem usbReadByte_pressing :
    Triple handle A (fun _ => True) (Pressing ticks s₀) usbReadByte
      fun b s => Pressing ticks s₀ s ∧ (b = 0 ∨ b ∈ s.usb.got.drop s₀.usb.got.length) := by
  intro s ha hs d hd
  have hread : Triple handle A (fun s' => view s' = view s ∨ ∃ b, ReadFrom (view s) b s')
      (fun s' => view s' = view s) usbReadByte
      (fun b s' => ReadFrom (view s) b s' ∨ b = 0 ∧ AtView (view s) anyUsb s') :=
    usbReadByte_spec steady_anyUsb fun _ _ _ _ => trivial
  have hkeep := pressing_of_built (built_usbReadByte taskSteps_pressing.toUsbSteps) s ha hs d hd
  refine ⟨trivial, fun b hb => ⟨hkeep.2 b hb, ?_⟩⟩
  obtain ⟨rest, -, hview⟩ | ⟨rfl, -⟩ := (hread s ha rfl d hd).2 b hb
  · right
    have hgot : d.2.usb.got = s.usb.got ++ [b] := congrArg View.got hview
    obtain ⟨more, hmore⟩ := hs.got
    rw [hgot, ← hmore, List.append_assoc, List.drop_left]
    exact List.mem_append_right _ List.mem_cons_self
  · exact .inl rfl

theorem built_cdcInput_quiet {R : State → State → Prop} (h : TaskSteps R) {ch : UInt8}
    (hend : ch ≠ slipEnd) (hesc : ch ≠ esc) : Built R noProcedures (cdcInput ch) := by
  have hwrite (b : UInt8) : Built R noProcedures (usbWriteByte b) :=
    built_usbWriteByte h.toUsbSteps b
  rw [cdcInput, if_neg hend, if_neg hesc]
  refine built_ite ?_ (built_putch h ch)
  refine built_bind (hwrite _) fun _ => built_bind (hwrite _) fun _ => ?_
  exact built_bind (built_read h.refl _) hwrite

theorem runTasks_pressing :
    Triple handle (Eventless s₀.usb.got.length) (fun _ => True) (Pressing ticks s₀) runTasks
      fun _ => Pressing ticks s₀ := by
  have h : TaskSteps fun s t => Pressing ticks s₀ s → Pressing ticks s₀ t := taskSteps_pressing
  refine Triple.bind (R := fun _ => Pressing ticks s₀) ?_ fun _ =>
    pressing_of_built (built_ledTask h)
  refine Triple.bind (pressing_of_built (built_drainRing h.toUsbSteps fun _ => ?_)) fun _ => ?_
  · exact built_modify fun _ hs => ⟨hs.clocked, hs.armed, hs.got, hs.samples⟩
  apply Triple.bind (pressing_of_built (built_usbFlush h.toUsbSteps))
  intro _
  apply Triple.bind (pressing_of_built (built_usbByteAvailable h.toUsbSteps))
  intro _
  refine Triple.ite (fun _ => ?_) fun _ => pressing_of_built (built_pure _)
  apply Triple.bind usbReadByte_pressing
  rintro ch s ha ⟨hs, hch⟩
  have hquiet : ch ≠ slipEnd ∧ ch ≠ esc := by
    obtain rfl | hch := hch
    · decide
    · exact ⟨fun he => ha.1.1 (he ▸ hch), fun he => ha.1.2 (he ▸ hch)⟩
  refine pressing_of_built (built_bind ?_ fun _ => built_setLedControl h 0xFF) s ha hs
  exact built_cdcInput_quiet h hquiet.1 hquiet.2

def Over (ticks : UInt8) (s₀ s : State) : Prop :=
  (Pressing ticks s₀ s ∧ s.timer.timeout = 0) ∨ s.core.trace.head? = some (.rstat false)

theorem stable_over : Stable handle A (Over ticks s₀) := by
  rintro e s ha hn (⟨hs, ht⟩ | hs)
  · exact .inl ⟨stable_pressing e s ha hn hs, timeout_zero_handle e ht⟩
  · right
    rw [core_handle]
    exact hs

def Tested (ticks : UInt8) (s₀ : State) (b : Bool) (s : State) : Prop :=
  (b = true → Pressing ticks s₀ s) ∧ (b = false → Over ticks s₀ s)

theorem stable_tested (b : Bool) : Stable handle A (Tested ticks s₀ b) :=
  fun e s ha hn hs => ⟨fun hb => stable_pressing e s ha hn (hs.1 hb),
    fun hb => stable_over e s ha hn (hs.2 hb)⟩

theorem pressing_rstat {s : State} (hs : Pressing ticks s₀ s) (hb : s.button = true) :
    Pressing ticks s₀
      { s with core := observe (.rstat s.button) { s.core with sreg := true } } := by
  obtain ⟨k, hk⟩ := hs.samples
  refine ⟨hs.clocked, hs.armed, hs.got, k + 1, ?_⟩
  rw [hb, List.replicate_succ, List.cons_append, ← hk]
  rfl

theorem loopTest_spec :
    Triple handle A (fun _ => True) (Pressing ticks s₀) (do
      if ← timeoutRunning then
        rstat
      else
        return false) (Tested ticks s₀) := by
  apply Triple.bind (timeoutRunning_spec stable_pressing)
  intro running
  refine Triple.ite (fun _ => ?_) fun hrunning => ?_
  · refine .access _ (stable_ranOut stable_pressing running) stable_tested ?_
    intro s _ hs _
    exact ⟨pressing_rstat hs.1, fun hb => .inr (congrArg (fun b => some (Obs.rstat b)) hb)⟩
  · rw [Bool.not_eq_true] at hrunning
    refine .ret false (stable_tested false) (fun _ _ _ => trivial) fun s _ hs => ?_
    exact ⟨fun hb => absurd hb (by decide), fun _ => .inl ⟨hs.1, hs.2 hrunning⟩⟩

/-- Here the assumption on the button speaks: the fresh sample does not turn a
released button into a pressed one. -/
theorem lastSample_spec {k : Nat} :
    Triple handle (Eventless k) (fun _ => True) (Over ticks s₀) rstat
      fun b s => b = true → Pressing ticks s₀ s ∧ s.timer.timeout = 0 := by
  have hstable (b : Bool) : Stable handle (Eventless k)
      fun s => b = true → Pressing ticks s₀ s ∧ s.timer.timeout = 0 :=
    fun e s ha hn hs hb => ⟨stable_pressing e s ha hn (hs hb).1, timeout_zero_handle e (hs hb).2⟩
  refine .access _ stable_over hstable ?_
  intro s ha hs _ hb
  dsimp only at hb
  obtain ⟨hc, ht⟩ | hreleased := hs
  · exact ⟨pressing_rstat hc hb, ht⟩
  · exact absurd hb (by rw [ha.2 hreleased]; decide)

theorem stable_held (b : Bool) : Stable handle A fun s => b = true → Held ticks s₀ s := by
  intro e s _ _ hs hb
  obtain ⟨ha, he, hk⟩ := hs hb
  refine ⟨?_, ?_, ?_⟩
  · rw [armed_handle]
    exact ha
  · exact Nat.le_trans he (elapsed_handle e s)
  · rw [core_handle]
    exact hk

theorem held_of_pressing {s : State} (hs : Pressing ticks s₀ s) (ht : s.timer.timeout = 0) :
    Held ticks s₀ { s with core := observe (.checkReset ticks true) s.core } := by
  obtain ⟨k, hk⟩ := hs.samples
  refine ⟨hs.armed, ?_, k, congrArg _ hk⟩
  have hc := hs.clocked
  rw [Clocked, ht, hs.armed] at hc
  exact Nat.sub_eq_zero_iff_le.mp hc.symm

theorem checkReset_held :
    Triple handle (Eventless s₀.usb.got.length) (fun _ => True)
      (fun s => s.usb.got = s₀.usb.got ∧ s.core.trace = s₀.core.trace) (checkReset ticks)
      fun b s => b = true → Held ticks s₀ s := by
  apply Triple.bind (R := fun _ => Pressing ticks s₀)
  · refine .access _ (stable_view fun v => v.got = s₀.usb.got ∧ v.core.trace = s₀.core.trace)
      (fun _ => stable_pressing) ?_
    exact fun s _ hs _ => ⟨rfl, rfl, hs.1 ▸ List.prefix_refl _, 0, hs.2⟩
  intro _
  apply Triple.bind (R := fun _ => Over ticks s₀)
  · refine Triple.post (Q := fun _ => Tested ticks s₀ false) ?_ fun _ _ hs => hs.2 rfl
    refine Triple.whileDo stable_pressing (stable_tested false) (fun _ _ _ => trivial)
      (fun _ _ _ => trivial) loopTest_spec ?_
    exact runTasks_pressing.pre fun _ hs => hs.1 rfl
  intro _
  apply Triple.bind lastSample_spec
  intro pressed
  apply Triple.bind (R := fun _ s => pressed = true → Held ticks s₀ s)
  · refine .access _ ?_ (fun _ => stable_held pressed) ?_
    · exact fun e s ha hn hs hb =>
        ⟨stable_pressing e s ha hn (hs hb).1, timeout_zero_handle e (hs hb).2⟩
    · rintro s - hs - rfl
      exact held_of_pressing (hs rfl).1 (hs rfl).2
  intro _
  exact .ret pressed (stable_held pressed) (fun _ _ _ => trivial) fun _ _ hs => hs

end CheckReset

section Stages

/-- For the last three boot modes, the mode in which the button has to be held
to get there, and for how long. -/
def required : BootMode → Option (BootMode × UInt8)
  | .espReset => some (.keepBootloader, actResetEsp8266)
  | .espReconfigure => some (.espReset, actReconfigureEsp8266)
  | .espFactory => some (.espReconfigure, actFactoryDefaults)
  | _ => none

/-- On the way from `c` to `d`, `check_reset` was called in the given boot mode
and returned after it had found the button held. -/
def HeldIn {α : Type} (mode : BootMode) (ticks : UInt8) (c d : Fw α × State) : Prop :=
  ∃ (e : Fw α × State) (q : Fw α) (t : State), Runs handle (Eventless 0) c e ∧
    Active (checkReset ticks) e.1 ∧ e.2.core.bootMode = mode ∧
    Runs handle (Eventless 0) (checkReset ticks, e.2) (.ret true, t) ∧ Held ticks e.2 t ∧
    Runs handle (Eventless 0) (q, t) d

section HeldIn

variable {α β : Type} {mode : BootMode} {ticks : UInt8} {c d : Fw α × State}

theorem HeldIn.trans (h : HeldIn mode ticks c d) {d' : Fw α × State}
    (hd : Runs handle (Eventless 0) d d') : HeldIn mode ticks c d' := by
  obtain ⟨e, q, t, hce, ha, hm, hrun, hheld, hrest⟩ := h
  exact ⟨e, q, t, hce, ha, hm, hrun, hheld, hrest.trans hd⟩

theorem HeldIn.head (h : HeldIn mode ticks c d) {c' : Fw α × State}
    (hc : Runs handle (Eventless 0) c' c) : HeldIn mode ticks c' d := by
  obtain ⟨e, q, t, hce, hrest⟩ := h
  exact ⟨e, q, t, hc.trans hce, hrest⟩

theorem HeldIn.andThen (h : HeldIn mode ticks c d) (k : α → Fw β) :
    HeldIn mode ticks (c.1.andThen k, c.2) (d.1.andThen k, d.2) := by
  obtain ⟨e, q, t, hce, ha, hm, hrun, hheld, hrest⟩ := h
  exact ⟨(e.1.andThen k, e.2), q.andThen k, t, hce.andThen k, ha.andThen rfl k, hm, hrun, hheld,
    hrest.andThen k⟩

end HeldIn

/-- Between `c` and `d`, the boot mode has become one of the last three only
after the button was held. -/
def Earned {α : Type} (c d : Fw α × State) : Prop :=
  d.2.core.bootMode = c.2.core.bootMode ∨
    ∀ mode ticks, required d.2.core.bootMode = some (mode, ticks) → HeldIn mode ticks c d

def Earns {α : Type} (P : State → Prop) (p : Fw α) : Prop :=
  ∀ s, Eventless 0 s → P s → ∀ d, Runs handle (Eventless 0) (p, s) d → Earned (p, s) d

variable {α β : Type} {P : State → Prop}

theorem Earned.andThen {c d : Fw β × State} (h : Earned c d) (k : β → Fw α) :
    Earned (c.1.andThen k, c.2) (d.1.andThen k, d.2) :=
  h.imp_right fun h mode ticks hreq => (h mode ticks hreq).andThen k

theorem Earned.trans {c d e : Fw α × State} (h : Earned c d) (h' : Earned d e)
    (hcd : Runs handle (Eventless 0) c d) (hde : Runs handle (Eventless 0) d e) : Earned c e := by
  obtain h' | h' := h'
  · rw [Earned, h']
    exact h.imp_right fun h mode ticks hreq => (h mode ticks hreq).trans hde
  · exact .inr fun mode ticks hreq => (h' mode ticks hreq).head hcd

theorem Earns.bind {R : β → State → Prop} {p : Fw β} {k : β → Fw α} (hp : Earns P p)
    (hr : ∀ s, Eventless 0 s → P s → ∀ b t, Runs handle (Eventless 0) (p, s) (.ret b, t) → R b t)
    (hk : ∀ b, Earns (R b) (k b)) : Earns P (p >>= k) := by
  intro s ha hs d hd
  obtain ⟨q, -, hq, he⟩ | ⟨b, t, hq, hrest⟩ := hd.of_bind
  · obtain ⟨r, t⟩ := d
    dsimp only at hq he
    subst he
    exact (hp s ha hs _ hq).andThen k
  · have hb := hk b t (hq.assumption ha) (hr s ha hs b t hq) d hrest
    exact ((hp s ha hs _ hq).andThen k).trans hb (hq.andThen k) hrest

theorem Earns.ite {c : Prop} [Decidable c] {p q : Fw α} (hp : Earns P p) (hq : Earns P q) :
    Earns P (if c then p else q) := by
  split
  · exact hp
  · exact hq

/-- The boot mode is `mode` or, after a session, the normal one. -/
def Stays (mode : BootMode) (c : Core) : Prop := c.bootMode = mode ∨ c.bootMode = .normalBoot

theorem stays_task {mode : BootMode} {f : Core → Core} (hf : TaskWrite f) {c : Core}
    (h : Stays mode c) : Stays mode (f c) := by
  rw [Stays, (hf.effect c).2.1]
  exact h

theorem stays_avr109 {mode : BootMode} {f : Core → Core} (hf : Avr109Write f) {c : Core}
    (h : Stays mode c) : Stays mode (f c) := by
  cases hf with
  | exit => exact .inr rfl
  | _ => exact h

theorem Earns.of_stays {p : Fw α} (h : ∀ mode, Keeps (fun s => Stays mode s.core) p) :
    Earns P p := by
  intro s ha _ d hd
  have hstays := Triple.of_keeps (stable_core (Stays s.core.bootMode)) p (h s.core.bootMode) s ha
    (.inl rfl) d hd
  refine hstays.1.imp_right fun hnormal mode ticks hreq => ?_
  rw [hnormal] at hreq
  cases hreq

theorem built_stays_runTasks (mode : BootMode) :
    Built (fun s t => Stays mode s.core → Stays mode t.core) noProcedures runTasks := by
  have h : DeviceSteps fun s t => Stays mode s.core → Stays mode t.core :=
    deviceSteps_core fun _ hf _ hc => stays_task hf hc
  exact h.built_runTasks (built_session h.toUsbSteps (fun _ hf _ hs => stays_avr109 hf hs)
    fun n _ => built_setTimeout h.timeout n)

theorem keeps_stays_checkReset (mode : BootMode) (ticks : UInt8) :
    Keeps (fun s => Stays mode s.core) (checkReset ticks) := by
  refine Built.keeps (built_checkReset (fun _ hs => hs) (built_stays_runTasks mode) ?_ ?_ ?_)
  · exact built_modify fun _ hs => hs
  · exact .act fun _ hs => hs
  · exact fun _ => built_modify fun _ hs => hs

theorem setBootMode_stays (mode mode' : BootMode) :
    Triple handle (Eventless 0) (fun s => s.core.bootMode = mode ∨ s.core.bootMode = mode')
      (fun s => s.core.bootMode = mode) (setBootMode mode') fun _ s => s.core.bootMode = mode' :=
  .act _ (stable_core fun c => c.bootMode = mode) (fun _ => stable_core fun c => c.bootMode = mode')
    (fun _ _ => .inl) (fun _ _ _ => .inr) fun _ _ _ _ => rfl

theorem held_of_runs {ticks : UInt8} {s t : State} (ha : Eventless 0 s)
    (h : Runs handle (Eventless 0) (checkReset ticks, s) (.ret true, t)) : Held ticks s t :=
  (checkReset_held s (ha.mono (Nat.zero_le _)) ⟨rfl, rfl⟩ _
    (h.mono fun _ => Eventless.mono (Nat.zero_le _))).2 true rfl rfl

theorem Earns.stage {mode mode' : BootMode} {ticks : UInt8} {rest : Fw Unit}
    (hreq : required mode' = some (mode, ticks))
    (hrest : Earns (fun s => s.core.bootMode = mode') rest) :
    Earns (fun s => s.core.bootMode = mode) (do
      if ← checkReset ticks then
        setBootMode mode'
        rest
      else
        return ()) := by
  let k : Bool → Fw Unit := fun b => if b then setBootMode mode' >>= fun _ => rest else pure ()
  have hcheck : Earns (fun _ => True) (checkReset ticks) :=
    .of_stays fun mode => keeps_stays_checkReset mode ticks
  have hreturn : Earns (fun _ => True) (pure () : Fw Unit) := .of_stays fun _ => keeps_pure _ _
  intro s ha hs d hd
  obtain ⟨q, -, hq, he⟩ | ⟨b, t, hq, hd⟩ := hd.of_bind
  · obtain ⟨r, t⟩ := d
    dsimp only at hq he
    subst he
    exact (hcheck s ha trivial _ hq).andThen k
  have hcalled : Earned (checkReset ticks >>= k, s) (k b, t) := (hcheck s ha trivial _ hq).andThen k
  have hta : Eventless 0 t := hq.assumption ha
  cases b with
  | false => exact hcalled.trans (hreturn t hta trivial d hd) (hq.andThen k) hd
  | true =>
    -- whatever happens after the call, the button was held before it
    have hheld : HeldIn mode ticks (checkReset ticks >>= k, s) d :=
      ⟨_, _, t, .refl _, .bind k .here, hs, hq, held_of_runs ha hq, hd⟩
    have hmode (h : d.2.core.bootMode = mode') : Earned (checkReset ticks >>= k, s) d := by
      refine .inr fun m n hmn => ?_
      rw [h, hreq] at hmn
      cases hmn
      exact hheld
    obtain ⟨q, -, hset, -⟩ | ⟨_, u, hset, hafter⟩ := hd.of_bind
    · obtain hsame | hnew := (setBootMode_stays _ mode' t hta rfl _ hset).1
      · exact hcalled.trans (.inl hsame) (hq.andThen k) hd
      · exact hmode hnew
    · have hu : u.core.bootMode = mode' := (setBootMode_stays _ mode' t hta rfl _ hset).2 () rfl
      obtain hsame | hearned := hrest u (hset.assumption hta) hu d hafter
      · exact hmode (hsame.trans hu)
      · refine .inr fun m n hmn => ?_
        exact (hearned m n hmn).head ((hq.andThen k).trans (hset.andThen fun _ => rest))

theorem Earns.setBootMode {mode : BootMode} (h : required mode = none) :
    Earns P (setBootMode mode) := by
  intro s ha _ d hd
  refine (setBootMode_stays s.core.bootMode mode s ha rfl d hd).1.imp_right fun hd m n hmn => ?_
  rw [hd, h] at hmn
  cases hmn

theorem Earns.task {f : Core → Core} (hf : TaskWrite f) : Earns P (onCore f) :=
  .of_stays fun _ => keeps_task (fun _ hf _ hc => stays_task hf hc) hf

theorem earns_resetEspAndWait : Earns P (resetEspAndWait false) :=
  .of_stays fun _ => keeps_resetEspAndWait (fun _ hf _ hc => stays_task hf hc) false

theorem earns_checkReset (ticks : UInt8) : Earns P (checkReset ticks) :=
  .of_stays fun mode => keeps_stays_checkReset mode ticks

theorem keeps_bootMode {mode : BootMode} {p : Fw α}
    (h : (∀ f, TaskWrite f → ∀ c : Core, c.bootMode = mode → (f c).bootMode = mode) →
      Keeps (fun s => s.core.bootMode = mode) p)
    {s t : State} (ha : Eventless 0 s) (hs : s.core.bootMode = mode) {a : α}
    (hr : Runs handle (Eventless 0) (p, s) (.ret a, t)) : t.core.bootMode = mode := by
  have hkeep := h fun f hf c hc => (hf.effect c).2.1.trans hc
  exact (Triple.of_keeps (stable_core fun c => c.bootMode = mode) p hkeep s ha hs _ hr).2 a rfl

theorem Earns.seq {p : Fw β} {k : β → Fw α} (hp : Earns P p)
    (hk : ∀ b, Earns (fun _ => True) (k b)) : Earns P (p >>= k) :=
  hp.bind (fun _ _ _ _ _ _ => trivial) hk

theorem earns_classifyBoot (available : Bool) : Earns P (classifyBoot available) := by
  refine Earns.seq (earns_checkReset _) fun stay => .ite ?_ ?_
  · refine Earns.seq (.task (.ledsEnabled _)) fun _ => ?_
    refine Earns.bind (R := fun _ s => s.core.bootMode = .keepBootloader) (.setBootMode rfl) ?_ ?_
    · exact fun s ha _ _ t hr => (setBootMode_stays _ _ s ha rfl _ hr).2 _ rfl
    intro _
    refine .stage rfl
      (Earns.bind (R := fun _ s => s.core.bootMode = .espReset) earns_resetEspAndWait
      (fun s ha hs _ t hr => keeps_bootMode (fun h => keeps_resetEspAndWait h false) ha hs hr) ?_)
    intro _
    refine .stage rfl (Earns.bind (R := fun _ s => s.core.bootMode = .espReconfigure)
      (.task (.ledControl _))
      (fun s ha hs _ t hr => keeps_bootMode (fun h => keeps_task h (.ledControl _)) ha hs hr) ?_)
    intro _
    exact .stage rfl (.task (.ledControl _))
  · refine Earns.seq (.task (.ledsEnabled _)) fun _ => Earns.seq (.setBootMode rfl) fun _ => ?_
    exact .of_stays fun _ => keeps_setTimeout _

theorem earns_bootloader (available : Bool) : Earns P (bootloader available) := by
  refine Earns.seq (.of_stays fun _ => keeps_setupHardware fun _ hf _ hc => stays_task hf hc)
    fun _ => ?_
  refine Earns.seq (earns_classifyBoot available) fun _ => ?_
  refine Earns.seq (.of_stays fun mode => ?_) fun _ => .of_stays fun _ _ hs => hs
  exact (built_mainLoop (fun _ hs => hs) (built_stays_runTasks mode)).keeps

theorem earns_main (r : Reset) : Earns P (main r) := by
  have hstart {P : State → Prop} : Earns P startSketch := .of_stays fun _ _ hs => hs
  refine Earns.seq (.of_stays fun _ => keeps_read _ _) fun available => ?_
  exact .ite (earns_bootloader available) (.ite hstart (.ite hstart (earns_bootloader available)))

end Stages

/-- While no session is begun and the button does not bounce, a call of
`check_reset` that returns non-zero has measured a hold of all its ticks; and
the boot mode gets to each of its last three values only by such a call in the
mode before it. -/
theorem hold_measured (r : Reset) (m : Memory) (packets : List Packet) (button : Bool) :
    (∀ ticks s t, Eventless s.usb.got.length s →
      Runs handle (Eventless s.usb.got.length) (checkReset ticks, s) (.ret true, t) →
        Held ticks s t) ∧
    ∀ d, Runs handle (Eventless 0) (main r, State.reset m packets button) d →
      ∀ mode ticks, required d.2.core.bootMode = some (mode, ticks) →
        HeldIn mode ticks (main r, State.reset m packets button) d := by
  refine ⟨fun ticks s t ha h => ?_, fun d h mode ticks hreq => ?_⟩
  · exact (checkReset_held s ha ⟨rfl, rfl⟩ _ h).2 true rfl rfl
  · have hcalm : Eventless 0 (State.reset m packets button) := by simp [Eventless, State.reset]
    obtain hunset | hheld := earns_main (P := fun _ => True) r _ hcalm trivial d h
    · rw [hunset] at hreq
      cases hreq
    · exact hheld mode ticks hreq

def buttonDown (ms : List (Move Event)) : Fw Unit × State :=
  exec handle (main ⟨0x02, 0⟩, State.reset (Memory.ofFlash fun _ => 0) [] true) ms

def ticksPass (n : Nat) : List (Move Event) := .replicate n (.irq .tick)

/-- The button stays down; seven of the ticks pass in `reset_esp_and_wait`. -/
def holding : List (Move Event) :=
  List.flatten [
    .replicate 30 .cpu, ticksPass 20, .replicate 20 .cpu, ticksPass 60, .replicate 40 .cpu,
    ticksPass 7, .replicate 20 .cpu, ticksPass 100, .replicate 20 .cpu, ticksPass 100,
    .replicate 20 .cpu]

theorem hold_measured_factory :
    HeldIn .espReconfigure actFactoryDefaults (buttonDown []) (buttonDown holding) := by
  have hcalm : Runs.holdsAlong handle (Eventless 0) (buttonDown []) holding = true := by
    decide +kernel
  have hmode : (buttonDown holding).2.core.bootMode = .espFactory := by decide +kernel
  have hrun : Runs handle (Eventless 0) (buttonDown []) (buttonDown holding) :=
    .of_holdsAlong _ _ hcalm
  refine (hold_measured _ _ _ _).2 _ hrun _ _ ?_
  rw [hmode]
  rfl

def bounce : List (Move Event) := [.irq (.button false), .cpu, .irq (.button true)]

def bouncing : List (Move Event) :=
  List.flatten [
    .replicate 10 .cpu, bounce, .replicate 6 .cpu, bounce, .replicate 20 .cpu, ticksPass 7,
    .replicate 6 .cpu, bounce, .replicate 6 .cpu, bounce, .replicate 3 .cpu]

/-- The button stays down, and the host begins a session and ends it. -/
def overtaken : List (Move Event) :=
  List.flatten [
    [.irq .outPacket], .replicate 60 .cpu, [.irq .inTaken], ticksPass 10, .replicate 30 .cpu]

def heldThrough : Fw Bool × State :=
  exec handle (checkReset actFactoryDefaults,
    { Sessions.ready (fun _ => 0) [⟨[esc, ascii 'E'], by decide⟩] with button := true }) overtaken

/-- Four samples find the button up, and no tick passes while it is watched:
`main` comes to the factory defaults all the same. And a call for a hundred
ticks returns non-zero after ten when a session has run `Timeout` down. -/
theorem hold_mismeasured :
    ((buttonDown bouncing).2.core.bootMode = .espFactory ∧
      (buttonDown bouncing).2.core.trace.count (.rstat false) = 4 ∧
      bouncing.count (.irq .tick) = 7) ∧
    heldThrough.1.isRet = true ∧
      heldThrough.2.core.trace.head? = some (.checkReset actFactoryDefaults true) ∧
      overtaken.count (.irq .tick) = 10 ∧ actFactoryDefaults.toNat = 100 := by
  decide +kernel

end Adelino.ButtonHold
