import Adelino.Tasks

namespace Adelino.Straps

open Adelino.Program Adelino.Logic Adelino.Calls Adelino.Flash Adelino.Endpoint Adelino.Uart
open Adelino.Machine Adelino.UsbBytes Adelino.Streams Adelino.Avr109 Adelino.Esp8266 Adelino.Main
open Adelino.Frame Adelino.Tasks

/-- The level of CHIP_EN, which is pulled up as long as PE2 is an input. -/
def chipEn (p : Pins) : Bool := !p.ddrE2 || p.portE2

/-- GPIO15 is driven low, and GPIO0 as the boot mode wants it. -/
structure Strapped (programMode : Bool) (p : Pins) : Prop where
  portB0 : p.portB0 = false
  ddrB0 : p.ddrB0 = true
  portC7 : p.portC7 = !programMode
  ddrC7 : p.ddrC7 = true

structure SameStraps (p p' : Pins) : Prop where
  portB0 : p'.portB0 = p.portB0
  ddrB0 : p'.ddrB0 = p.ddrB0
  portC7 : p'.portC7 = p.portC7
  ddrC7 : p'.ddrC7 = p.ddrC7

theorem SameStraps.strapped {programMode : Bool} {p p' : Pins} (h : SameStraps p p')
    (hp : Strapped programMode p) : Strapped programMode p' :=
  ⟨h.portB0.trans hp.portB0, h.ddrB0.trans hp.ddrB0, h.portC7.trans hp.portC7,
    h.ddrC7.trans hp.ddrC7⟩

/-- The calls that boot the ESP8266, from before `reset_esp` until after the
wait that follows it. -/
inductive BootCall : Bool → Fw Unit → Prop
  | resetEspAndWait (programMode : Bool) : BootCall programMode (resetEspAndWait programMode)
  | espSession : BootCall true espSession

/-- What an access of such a call may do to the pins. -/
structure BootAccess (programMode : Bool) (p p' : Pins) : Prop where
  rising : chipEn p = false → chipEn p' = true → Strapped programMode p'
  falling : chipEn p = true → chipEn p' = false → Strapped programMode p
  outputB0 : p.ddrB0 = false → p'.ddrB0 = true → p.portB0 = false
  outputC7 : p.ddrC7 = false → p'.ddrC7 = true → p.portC7 = !programMode
  outputE2 : p.ddrE2 = false → p'.ddrE2 = true → p.portE2 = false

/-- The first four stores of `reset_esp`, which set the straps. -/
def strapStores (programMode : Bool) : List (Pins → Pins) :=
  [fun p => { p with portB0 := false }, fun p => { p with ddrB0 := true },
    fun p => { p with portC7 := !programMode }, fun p => { p with ddrC7 := true }]

def pulseStores : List (Pins → Pins) :=
  [fun p => { p with portE2 := false }, fun p => { p with ddrE2 := true },
    fun p => { p with portE2 := true }]

def updatePins (f : Pins → Pins) (s : State) : State := { s with core.pins := f s.core.pins }

theorem resetEsp_eq (programMode : Bool) :
    resetEsp programMode = .updates ((strapStores programMode ++ pulseStores).map updatePins) := rfl

def after (fs : List (Pins → Pins)) (p : Pins) : Pins := fs.foldl (fun x f => f x) p

/-- The directions and levels that only `reset_esp` and `LED_SETUP` change. -/
structure QuietPins (p p' : Pins) : Prop where
  portE2 : p'.portE2 = p.portE2
  ddrE2 : p'.ddrE2 = p.ddrE2
  portB0 : p'.portB0 = p.portB0
  ddrB0 : p'.ddrB0 = p.ddrB0
  ddrC7 : p'.ddrC7 = p.ddrC7

theorem not_switched {x y : Bool} {Q : Prop} (h : y = x) (hx : x = false) (hy : y = true) : Q := by
  rw [h, hx] at hy
  cases hy

theorem bootAccess_of_level {programMode : Bool} {p p' : Pins} (h : chipEn p' = chipEn p)
    (hB0 : p.ddrB0 = false → p'.ddrB0 = true → p.portB0 = false)
    (hC7 : p.ddrC7 = false → p'.ddrC7 = true → p.portC7 = !programMode)
    (hE2 : p.ddrE2 = false → p'.ddrE2 = true → p.portE2 = false) :
    BootAccess programMode p p' :=
  ⟨fun hlow hhigh => not_switched h hlow hhigh, fun hhigh hlow => not_switched h.symm hlow hhigh,
    hB0, hC7, hE2⟩

theorem QuietPins.chipEn {p p' : Pins} (h : QuietPins p p') :
    Straps.chipEn p' = Straps.chipEn p := by
  rw [Straps.chipEn, Straps.chipEn, h.portE2, h.ddrE2]

theorem QuietPins.bootAccess {p p' : Pins} (h : QuietPins p p') (programMode : Bool) :
    BootAccess programMode p p' :=
  bootAccess_of_level h.chipEn (not_switched h.ddrB0) (not_switched h.ddrC7) (not_switched h.ddrE2)

theorem strapped_after (programMode : Bool) (p : Pins) :
    Strapped programMode (after (strapStores programMode) p) :=
  ⟨rfl, rfl, rfl, rfl⟩

theorem strapStores_access {programMode : Bool} {done rest : List (Pins → Pins)} {f : Pins → Pins}
    (h : strapStores programMode = done ++ f :: rest) (p : Pins) :
    let q := after done p
    chipEn (f q) = chipEn q ∧ BootAccess programMode q (f q) := by
  intro q
  have hE2 : (f q).portE2 = q.portE2 ∧ (f q).ddrE2 = q.ddrE2 := by
    have hf : f ∈ strapStores programMode := by simp [h]
    simp only [strapStores, List.mem_cons, List.not_mem_nil, or_false] at hf
    obtain rfl | rfl | rfl | rfl := hf <;> exact ⟨rfl, rfl⟩
  have hchip : chipEn (f q) = chipEn q := by rw [chipEn, chipEn, hE2.1, hE2.2]
  suffices horder : (q.ddrB0 = false → (f q).ddrB0 = true → q.portB0 = false) ∧
      (q.ddrC7 = false → (f q).ddrC7 = true → q.portC7 = !programMode) from
    ⟨hchip, bootAccess_of_level hchip horder.1 horder.2 (not_switched hE2.2)⟩
  simp only [strapStores, List.cons_eq_append_iff, List.nil_eq_append_iff, List.cons.injEq,
    reduceCtorEq, and_false, exists_false, or_false] at h
  obtain ⟨rfl, rfl, -⟩ | ⟨_, rfl,
    ⟨rfl, rfl, -⟩ | ⟨_, rfl, ⟨rfl, rfl, -⟩ | ⟨_, rfl, rfl, rfl, -⟩⟩⟩ := h
  · exact ⟨not_switched rfl, not_switched rfl⟩
  · exact ⟨fun _ _ => rfl, not_switched rfl⟩
  · exact ⟨not_switched rfl, not_switched rfl⟩
  · exact ⟨not_switched rfl, fun _ _ => rfl⟩

theorem sameStraps_of_pulse : ∀ f ∈ pulseStores, ∀ p, SameStraps p (f p) := by
  intro f hf p
  simp only [pulseStores, List.mem_cons, List.not_mem_nil, or_false] at hf
  obtain rfl | rfl | rfl := hf <;> exact ⟨rfl, rfl, rfl, rfl⟩

theorem sameStraps_after {fs : List (Pins → Pins)} (h : ∀ f ∈ fs, ∀ p, SameStraps p (f p))
    {p q : Pins} (hq : SameStraps p q) : SameStraps p (after fs q) := by
  induction fs generalizing q with
  | nil => exact hq
  | cons f fs ih =>
    have hf := h f List.mem_cons_self q
    exact ih (fun g hg => h g (List.mem_cons_of_mem f hg)) ⟨hf.portB0.trans hq.portB0,
      hf.ddrB0.trans hq.ddrB0, hf.portC7.trans hq.portC7, hf.ddrC7.trans hq.ddrC7⟩

/-- The pulse is given with the straps set, and PE2 is low when it becomes an
output. -/
theorem pulseStores_access {programMode : Bool} {done rest : List (Pins → Pins)} {f : Pins → Pins}
    (h : pulseStores = done ++ f :: rest) {p : Pins} (hp : Strapped programMode p) :
    let q := after done p
    SameStraps q (f q) ∧ BootAccess programMode q (f q) := by
  intro q
  have hdone : ∀ g ∈ done, ∀ p, SameStraps p (g p) :=
    fun g hg => sameStraps_of_pulse g (by simp [h, hg])
  have hq : Strapped programMode q :=
    (sameStraps_after hdone (p := p) ⟨rfl, rfl, rfl, rfl⟩).strapped hp
  have hf : SameStraps q (f q) := sameStraps_of_pulse f (by simp [h]) q
  refine ⟨hf, fun _ _ => hf.strapped hq, fun _ _ => hq, not_switched hf.ddrB0,
    not_switched hf.ddrC7, ?_⟩
  simp only [pulseStores, List.cons_eq_append_iff, List.nil_eq_append_iff, List.cons.injEq,
    reduceCtorEq, and_false, exists_false, or_false] at h
  obtain ⟨rfl, rfl, -⟩ | ⟨_, rfl, ⟨rfl, rfl, -⟩ | ⟨_, rfl, rfl, rfl, -⟩⟩ := h
  · exact not_switched rfl
  · exact fun _ _ => rfl
  · exact not_switched rfl

/-- Whatever the program `p` still does leaves the straps as they are. -/
def Holding {α : Type} (p : Fw α) : Prop :=
  ∀ v, Keeps (fun s => SameStraps v s.core.pins) p

/-- The next access of `q` is one of a boot, and from a falling edge on the
straps are held. -/
structure BootMove {α : Type} (programMode : Bool) (q : Fw α) (s : State) : Prop where
  access : BootAccess programMode s.core.pins (q.step s).2.core.pins
  held : chipEn s.core.pins = true → chipEn (q.step s).2.core.pins = false →
    SameStraps s.core.pins (q.step s).2.core.pins ∧ Holding (q.step s).1

theorem QuietPins.bootMove {α : Type} {q : Fw α} {s : State}
    (h : QuietPins s.core.pins (q.step s).2.core.pins) (programMode : Bool) :
    BootMove programMode q s :=
  ⟨h.bootAccess programMode, fun hhigh hlow => not_switched h.chipEn.symm hlow hhigh⟩

def BootSafe {α : Type} (programMode : Bool) (p : Fw α) : Prop :=
  ∀ t d, Runs handle (fun _ => True) (p, t) d → BootMove programMode d.1 d.2

variable {α β : Type} {programMode : Bool}

theorem BootSafe.quiet_bind {p : Fw β} {k : β → Fw α}
    (hp : Built (fun s t : State => QuietPins s.core.pins t.core.pins) noProcedures p)
    (hk : ∀ b, BootSafe programMode (k b)) : BootSafe programMode (p >>= k) := by
  intro t d h
  obtain ⟨q, hq, hrun, he⟩ | ⟨b, u, -, hrun⟩ := h.of_bind
  · have hquiet := hp.along (fun _ => ⟨rfl, rfl, rfl, rfl, rfl⟩) hrun
    rw [he]
    apply QuietPins.bootMove
    rw [Prog.step_andThen q k _ hq]
    exact hquiet
  · exact hk b u d hrun

theorem bootSafe_of_still {p : Fw α}
    (hp : Built (fun s t : State => t.core.pins = s.core.pins) noProcedures p) :
    BootSafe programMode p := by
  intro t d h
  have hsame : (d.1.step d.2).2.core.pins = d.2.core.pins :=
    Built.along (R := fun s t : State => t.core.pins = s.core.pins) (fun _ => rfl) hp h
  apply QuietPins.bootMove
  rw [hsame]
  exact ⟨rfl, rfl, rfl, rfl, rfl⟩

/-- Where `reset_esp` is: about to make one of the stores for the straps, or
one of those of the pulse with the straps set. -/
theorem resetStores_cases {done rest : List (Pins → Pins)} {f : Pins → Pins}
    (h : strapStores programMode ++ pulseStores = done ++ f :: rest) :
    (∃ rest', strapStores programMode = done ++ f :: rest') ∨
      ∃ done', done = strapStores programMode ++ done' ∧ pulseStores = done' ++ f :: rest := by
  obtain ⟨done', hdone, hpulse⟩ | ⟨rest', hstrap, hrest⟩ := List.append_eq_append_iff.mp h
  · exact .inr ⟨done', hdone, hpulse⟩
  · cases rest' with
    | nil => exact .inr ⟨[], by rw [List.append_nil, hstrap, List.append_nil], hrest.symm⟩
    | cons g rest' =>
      rw [List.cons_append] at hrest
      obtain ⟨rfl, -⟩ := List.cons.inj hrest
      exact .inl ⟨rest', hstrap⟩

theorem holding_pulse {done rest : List (Pins → Pins)} {f : Pins → Pins}
    (h : pulseStores = done ++ f :: rest) : Holding (.updates (rest.map updatePins)) := by
  intro v
  refine keeps_updates fun g hg s hs => ?_
  obtain ⟨g, hgr, rfl⟩ := List.mem_map.mp hg
  have hsame := sameStraps_of_pulse g (by simp [h, hgr]) s.core.pins
  exact ⟨hsame.portB0.trans hs.portB0, hsame.ddrB0.trans hs.ddrB0, hsame.portC7.trans hs.portC7,
    hsame.ddrC7.trans hs.ddrC7⟩

theorem BootSafe.reset_bind {k : Unit → Fw α} (hk : ∀ b, BootSafe programMode (k b))
    (hheld : ∀ b, Holding (k b)) : BootSafe programMode (resetEsp programMode >>= k) := by
  intro t d h
  obtain ⟨q, hq, hrun, he⟩ | ⟨b, u, -, hrun⟩ := h.of_bind
  · rw [resetEsp_eq] at hrun
    obtain ⟨done, rest, hstores, hprog, hpins⟩ :=
      Runs.of_updates (v := fun s => s.core.pins) (fun e s => congrArg Core.pins (core_handle e s))
        (fun _ _ => rfl) _ hrun
    dsimp only at hprog hpins
    subst hprog
    cases rest with
    | nil => cases hq
    | cons f rest =>
      have hstep : d.1.step d.2 =
          ((Prog.updates (rest.map updatePins)).andThen k, updatePins f d.2) := by
        rw [he, Prog.step_andThen _ k _ hq, List.map_cons, Prog.step_updates]
      have hnext : (d.1.step d.2).2.core.pins = f d.2.core.pins := by rw [hstep]; rfl
      change d.2.core.pins = after done t.core.pins at hpins
      obtain ⟨rest', hstrap⟩ | ⟨done', rfl, hpulse⟩ := resetStores_cases hstores
      · obtain ⟨hlevel, haccess⟩ := strapStores_access hstrap t.core.pins
        constructor
        · rw [hnext, hpins]
          exact haccess
        · rw [hnext, hpins]
          exact fun hhigh hlow => not_switched hlevel.symm hlow hhigh
      · obtain ⟨hsame, haccess⟩ :=
          pulseStores_access hpulse (strapped_after programMode t.core.pins)
        have hafter : d.2.core.pins = after done' (after (strapStores programMode) t.core.pins) :=
          hpins.trans List.foldl_append
        constructor
        · rw [hnext, hafter]
          exact haccess
        · intro _ _
          refine ⟨?_, ?_⟩
          · rw [hnext, hafter]
            exact hsame
          · rw [hstep]
            exact fun v => keeps_bind (holding_pulse hpulse v) fun b => hheld b v
  · exact hk b u d hrun

theorem holding_of_still {p : Fw α}
    (hp : Built (fun s t : State => t.core.pins = s.core.pins) noProcedures p) : Holding p := by
  intro v
  refine Built.keeps (hp.mono fun s t hst hs => ?_)
  rw [hst]
  exact hs

theorem sessionSteps_still : SessionSteps fun s t => t.core.pins = s.core.pins where
  refl _ := rfl
  usb _ _ _ _ _ := rfl
  udr _ _ := rfl
  timeout _ _ := rfl
  observe _ _ _ := rfl
  rtsPulse _ := rfl

theorem bootSafe_resetEspAndWait : BootSafe programMode (resetEspAndWait programMode) := by
  have h : SessionSteps fun s t => t.core.pins = s.core.pins := sessionSteps_still
  have hwait : Built (fun s t : State => t.core.pins = s.core.pins) noProcedures (do
      setTimeout (ticksMs 350)
      .whileDo timeoutRunning usbTask
      setLedsEnabled 1
      onRing Ring.resetOut
      onRing Ring.resetIn) := by
    refine built_bind (built_setTimeout h.timeout _) fun _ => ?_
    refine built_bind (built_whileDo (built_read h.refl _) (built_usbTask h.toUsbSteps)) fun _ => ?_
    refine built_bind (built_modify fun _ => rfl) fun _ => ?_
    exact built_bind (built_modify fun _ => rfl) fun _ => built_modify fun _ => rfl
  iterate 3
    refine BootSafe.quiet_bind (built_modify fun _ => ⟨rfl, rfl, rfl, rfl, rfl⟩) fun _ => ?_
  exact BootSafe.reset_bind (fun _ => bootSafe_of_still hwait) fun _ => holding_of_still hwait

theorem bootSafe_espSession : BootSafe true espSession := by
  have h : SessionSteps fun s t => t.core.pins = s.core.pins := sessionSteps_still
  have hring (f : Ring → Ring) : Built (fun s t : State => t.core.pins = s.core.pins) noProcedures
      (onRing f) := built_modify fun _ => rfl
  have hwait : Built (fun s t : State => t.core.pins = s.core.pins) noProcedures (do
      setTimeout espProgrammerTimeout
      .whileDo timeoutRunning espWaitTurn
      .modify fun s => { s with line.rtsPulse := 0 }
      note .espLoop
      espLoop) := by
    refine built_bind (built_setTimeout h.timeout _) fun _ => ?_
    refine built_bind (built_whileDo (built_read h.refl _) (built_espWaitTurn h (hring _)))
      fun _ => ?_
    refine built_bind (built_modify h.rtsPulse) fun _ => ?_
    refine built_bind (built_modify fun s => h.observe s _ rfl) fun _ => ?_
    exact built_espLoop h (built_espToUsb h.toUsbSteps fun _ => hring _)
  refine BootSafe.quiet_bind (built_modify fun _ => ⟨rfl, rfl, rfl, rfl, rfl⟩) fun _ => ?_
  exact BootSafe.reset_bind (fun _ => bootSafe_of_still hwait) fun _ => holding_of_still hwait

theorem BootCall.bootSafe {f : Fw Unit} (h : BootCall programMode f) : BootSafe programMode f := by
  cases h with
  | resetEspAndWait => exact bootSafe_resetEspAndWait
  | espSession => exact bootSafe_espSession

inductive StrapCalls : Procedures State
  | boot {programMode : Bool} {f : Fw Unit} (h : BootCall programMode f) : StrapCalls Unit f
  | setupHardware : StrapCalls Unit setupHardware

theorem controlSteps_quiet : ControlSteps fun s t => QuietPins s.core.pins t.core.pins where
  refl _ := ⟨rfl, rfl, rfl, rfl, rfl⟩
  usb _ _ _ _ _ := ⟨rfl, rfl, rfl, rfl, rfl⟩
  leds _ _ _ _ := ⟨rfl, rfl, rfl, rfl, rfl⟩
  ledControl _ _ := ⟨rfl, rfl, rfl, rfl, rfl⟩
  udr _ _ := ⟨rfl, rfl, rfl, rfl, rfl⟩
  timeout _ _ := ⟨rfl, rfl, rfl, rfl, rfl⟩
  ledsEnabled _ _ := ⟨rfl, rfl, rfl, rfl, rfl⟩

theorem built_main_quiet (r : Reset) :
    Built (fun s t : State => QuietPins s.core.pins t.core.pins) StrapCalls (main r) := by
  have h : ControlSteps fun s t => QuietPins s.core.pins t.core.pins := controlSteps_quiet
  have hmodify {f : State → State} (hf : ∀ s, QuietPins s.core.pins (f s).core.pins) :
      Built (fun s t : State => QuietPins s.core.pins t.core.pins) StrapCalls (.modify f) :=
    built_modify hf
  have hreset : Built (fun s t : State => QuietPins s.core.pins t.core.pins) StrapCalls
      (resetEspAndWait false) := .call (.boot (.resetEspAndWait false))
  have havr : Built (fun s t : State => QuietPins s.core.pins t.core.pins) StrapCalls
      avr109Programmer := by
    refine built_session h.toUsbSteps ?_ fun n _ => built_setTimeout h.timeout n
    intro f hf s
    cases hf <;> exact ⟨rfl, rfl, rfl, rfl, rfl⟩
  have htasks :
      Built (fun s t : State => QuietPins s.core.pins t.core.pins) StrapCalls runTasks := by
    refine built_runTasks h.toTaskSteps ?_ ?_ havr
    · exact built_drainRing h.toUsbSteps fun _ => hmodify fun _ => ⟨rfl, rfl, rfl, rfl, rfl⟩
    · exact built_bind (.call (.boot .espSession)) fun _ => hreset
  refine built_main h.refl htasks (.call .setupHardware) (fun available => ?_)
    (hmodify fun _ => ⟨rfl, rfl, rfl, rfl, rfl⟩) r
  refine built_classifyBoot h (fun ticks => ?_) hreset
    (fun _ => hmodify fun _ => ⟨rfl, rfl, rfl, rfl, rfl⟩) available
  exact built_checkReset h.refl htasks (built_setTimeout h.timeout ticks)
    (.act fun _ => ⟨rfl, rfl, rfl, rfl, rfl⟩) fun _ => hmodify fun _ => ⟨rfl, rfl, rfl, rfl, rfl⟩

theorem pins_handle (e : Event) (s : State) : (handle e s).core.pins = s.core.pins :=
  congrArg Core.pins (core_handle e s)

/-- From a falling edge of CHIP_EN until the call returns, after its wait, the
straps are as they were at that edge. -/
theorem BootMove.held_along {q : Fw Unit} {s : State} (h : BootMove programMode q s)
    (hhigh : chipEn s.core.pins = true) (hlow : chipEn (q.step s).2.core.pins = false)
    {e : Fw Unit × State} (he : Runs handle (fun _ => True) (q.step s) e) :
    SameStraps s.core.pins e.2.core.pins := by
  obtain ⟨hsame, hheld⟩ := h.held hhigh hlow
  have hstable : Stable handle (fun _ => True) fun u => SameStraps s.core.pins u.core.pins :=
    stable_core fun c => SameStraps s.core.pins c.pins
  exact (Triple.of_keeps hstable _ (hheld s.core.pins) (q.step s).2 trivial hsame e he).1

/-- LED_SETUP makes PC7 an output; nothing else of `setup_hardware` concerns
the straps or CHIP_EN. -/
theorem setupHardware_quiet {t : State} {d : Fw Unit × State}
    (h : Runs handle (fun _ => True) (setupHardware, t) d) :
    QuietPins { d.2.core.pins with ddrC7 := true }
      { (d.1.step d.2).2.core.pins with ddrC7 := true } := by
  have hmodify {f : State → State} (hf : ∀ s, QuietPins { s.core.pins with ddrC7 := true }
      { (f s).core.pins with ddrC7 := true }) :
      Built (fun s t : State => QuietPins { s.core.pins with ddrC7 := true }
        { t.core.pins with ddrC7 := true }) noProcedures (.modify f) := built_modify hf
  refine Built.along (R := fun s t : State =>
      QuietPins { s.core.pins with ddrC7 := true } { t.core.pins with ddrC7 := true })
    (fun _ => ⟨rfl, rfl, rfl, rfl, rfl⟩) (p := setupHardware) ?_ h
  iterate 6
    refine built_bind (hmodify fun _ => ⟨rfl, rfl, rfl, rfl, rfl⟩) fun _ => ?_
  exact hmodify fun _ => ⟨rfl, rfl, rfl, rfl, rfl⟩

/-- In every run, CHIP_EN and the directions of the three pins change in a
call that boots the ESP8266 or, PC7 only, in `setup_hardware`. In such a call,
from any state: CHIP_EN rises with the straps set for the boot mode, from
before it falls until the call returns they do not change, and a pin becomes
an output at its level only. -/
theorem straps_right_and_stable :
    (∀ r m packets button c,
      Runs handle (fun _ => True) (main r, State.reset m packets button) c → ∀ mv,
        QuietPins c.2.core.pins (move handle mv c).2.core.pins ∨
          ∃ f q t, StrapCalls Unit f ∧ Runs handle (fun _ => True) (f, t) (q, c.2) ∧
            Active q c.1 ∧ (move handle mv c).2 = (move handle mv (q, c.2)).2) ∧
    (∀ programMode f, BootCall programMode f → ∀ t q s,
      Runs handle (fun _ => True) (f, t) (q, s) → ∀ mv,
        let d := move handle mv (q, s)
        BootAccess programMode s.core.pins d.2.core.pins ∧
          (chipEn s.core.pins = true → chipEn d.2.core.pins = false →
            ∀ e, Runs handle (fun _ => True) d e → SameStraps s.core.pins e.2.core.pins)) ∧
    ∀ t q s, Runs handle (fun _ => True) (setupHardware, t) (q, s) → ∀ mv,
      QuietPins { s.core.pins with ddrC7 := true }
        { (move handle mv (q, s)).2.core.pins with ddrC7 := true } := by
  refine ⟨fun r m packets button c h mv => ?_, fun programMode f hf t q s h mv => ?_,
    fun t q s h mv => ?_⟩
  · cases mv with
    | irq e =>
      left
      rw [move, pins_handle]
      exact ⟨rfl, rfl, rfl, rfl, rfl⟩
    | cpu =>
      refine ((built_main_quiet r).access_of_runs controlSteps_quiet.refl h).imp_right ?_
      rintro ⟨β, f, q, t, hf, hrun, hactive, hstep⟩
      cases hf with
      | boot hf => exact ⟨_, q, t, .boot hf, hrun, hactive, hstep⟩
      | setupHardware => exact ⟨_, q, t, .setupHardware, hrun, hactive, hstep⟩
  · intro d
    cases mv with
    | irq e =>
      have hsame : d.2.core.pins = s.core.pins := pins_handle e s
      rw [hsame]
      refine ⟨QuietPins.bootAccess ⟨rfl, rfl, rfl, rfl, rfl⟩ programMode, fun hhigh hlow => ?_⟩
      rw [hhigh] at hlow
      cases hlow
    | cpu =>
      have hmove : BootMove programMode q s := hf.bootSafe t (q, s) h
      exact ⟨hmove.access, fun hhigh hlow e he => hmove.held_along hhigh hlow he⟩
  · cases mv with
    | irq e =>
      rw [move, pins_handle]
      exact ⟨rfl, rfl, rfl, rfl, rfl⟩
    | cpu => exact setupHardware_quiet h

end Adelino.Straps
