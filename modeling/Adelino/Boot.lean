import Adelino.Tasks

namespace Adelino.Boot

open Adelino.Program Adelino.Logic Adelino.Flash Adelino.Endpoint Adelino.Machine Adelino.UsbBytes
open Adelino.Streams Adelino.Avr109 Adelino.Esp8266 Adelino.Main Adelino.Frame Adelino.Tasks

section Main

variable {A : State → Prop} {I G : Core → Prop} {available : Bool}
  (hI : ∀ f, TaskWrite f → ∀ c, I c → I (f c)) (hG : ∀ c, I c → G c)
  (havr : Triple handle A (fun s => G s.core) (fun s => I s.core) avr109Programmer
    (fun _ s => I s.core))
  (hnormal : available = true → ∀ c, I c → I { c with bootMode := .normalBoot })
  (hmode : ∀ ticks pressed mode s, A s → I s.core → mode ≠ .normalBoot →
    s.core.trace.head? = some (.checkReset ticks pressed) →
    pressed = true ∨ ticks = actStayIntoBootloader ∧ available = false →
    I { s.core with bootMode := mode })

include hG hmode in
/-- `boot_mode` leaves the normal mode only right after `check_reset` has
found the button pressed, or has found no sketch in its first call. -/
theorem setBootMode_spec {ticks : UInt8} {pressed : Bool} (mode : BootMode)
    (hm : mode ≠ .normalBoot)
    (hc : pressed = true ∨ ticks = actStayIntoBootloader ∧ available = false) :
    Triple handle A (fun s => G s.core)
      (fun s => I s.core ∧ s.core.trace.head? = some (.checkReset ticks pressed))
      (setBootMode mode) (fun _ s => I s.core) := by
  refine .act _ (stable_core fun c => I c ∧ c.trace.head? = some (.checkReset ticks pressed))
    (fun _ => stable_core I) (fun s _ hs => hG s.core hs.1) (fun _ s _ => hG s.core) ?_
  intro s ha hs _
  exact hmode ticks pressed mode s ha hs.1 hm hs.2 hc

include hI hG in
theorem afterReset_spec {o : Option Obs} {f : Core → Core} (hf : TaskWrite f)
    (ht : ∀ c, (f c).trace = c.trace) :
    Triple handle A (fun s => G s.core) (fun s => I s.core ∧ s.core.trace.head? = o) (onCore f)
      (fun _ s => I s.core ∧ s.core.trace.head? = o) := by
  refine Keeps.spec (I := fun c => I c ∧ c.trace.head? = o) ?_ fun c hc => hG c hc.1
  intro s hs
  refine ⟨hI f hf s.core hs.1, ?_⟩
  rw [← hs.2]
  exact congrArg List.head? (ht s.core)

include hI hG havr hnormal hmode in
theorem classifyBoot_spec :
    Triple handle A (fun s => G s.core) (fun s => I s.core) (classifyBoot available)
      (fun _ s => I s.core) := by
  have hforget (o : Option Obs) (s : State) : I s.core ∧ s.core.trace.head? = o → I s.core :=
    fun hs => hs.1
  have hdone (o : Option Obs) : Triple handle A (fun s => G s.core)
      (fun s => I s.core ∧ s.core.trace.head? = o) (return ()) (fun _ s => I s.core) :=
    (Keeps.spec (keeps_pure _ ()) hG).pre (hforget o)
  apply Triple.bind (checkReset_spec hI hG havr actStayIntoBootloader)
  intro stay
  apply Triple.ite
  · intro hstay
    have hc : stay = true ∨ actStayIntoBootloader = actStayIntoBootloader ∧ available = false := by
      simpa using hstay
    apply Triple.bind (afterReset_spec hI hG (.ledsEnabled _) fun _ => rfl)
    intro _
    apply Triple.bind (setBootMode_spec hG hmode .keepBootloader nofun hc)
    intro _
    apply Triple.bind (checkReset_spec hI hG havr actResetEsp8266)
    intro reset
    refine Triple.ite ?_ fun _ => hdone _
    intro hreset
    apply Triple.bind (setBootMode_spec hG hmode .espReset nofun (.inl hreset))
    intro _
    apply Triple.bind (Keeps.spec (keeps_resetEspAndWait hI false) hG)
    intro _
    apply Triple.bind (checkReset_spec hI hG havr actReconfigureEsp8266)
    intro reconfigure
    refine Triple.ite ?_ fun _ => hdone _
    intro hreconfigure
    apply Triple.bind (setBootMode_spec hG hmode .espReconfigure nofun (.inl hreconfigure))
    intro _
    apply Triple.bind (Keeps.spec (keeps_task hI (.ledControl _)) hG)
    intro _
    apply Triple.bind (checkReset_spec hI hG havr actFactoryDefaults)
    intro factory
    refine Triple.ite ?_ fun _ => hdone _
    intro hfactory
    apply Triple.bind (setBootMode_spec hG hmode .espFactory nofun (.inl hfactory))
    intro _
    exact Keeps.spec (keeps_task hI (.ledControl _)) hG
  · intro hstay
    have ha : available = true := by
      cases available with
      | true => rfl
      | false => exact absurd (Bool.or_true stay) hstay
    apply Triple.bind ((Keeps.spec (keeps_task hI (.ledsEnabled _)) hG).pre (hforget _))
    intro _
    refine Triple.bind (Keeps.spec (fun s hs => hnormal ha s.core hs) hG) ?_
    intro _
    exact Keeps.spec (keeps_setTimeout _) hG

include hG in
theorem keepRunning_normal :
    Triple handle A (fun s => G s.core) (fun s => I s.core) keepRunning
      (fun b s => I s.core ∧ (b = false → s.core.bootMode = .normalBoot)) := by
  have hstable (b : Bool) : Stable handle A
      fun s => I s.core ∧ (b = false → s.core.bootMode = .normalBoot) :=
    stable_core fun c => I c ∧ (b = false → c.bootMode = .normalBoot)
  apply Triple.bind (R := fun b s => I s.core ∧ (b = false → s.core.bootMode = .normalBoot))
  · refine .act _ (stable_core I) hstable (fun s _ => hG s.core) (fun _ s _ hs => hG s.core hs.1) ?_
    exact fun s _ hs _ => ⟨hs, by simp⟩
  intro b
  refine .ite (fun _ => ?_) fun hb => ?_
  · exact .ret true (hstable true) (fun s _ hs => hG s.core hs.1) fun _ _ hs => ⟨hs.1, nofun⟩
  · refine .act _ (hstable b) (fun v => ?_) (fun s _ hs => hG s.core hs.1)
      (fun _ s _ hs => hG s.core hs.1) ?_
    · exact hstable v
    · exact fun s _ hs _ => ⟨hs.1, fun _ => hs.2 (Bool.eq_false_iff.mpr hb)⟩

variable (hstart : ∀ c, I c → c.bootMode = .normalBoot ∨ available = true → G (launch c))

include hG hstart in
theorem startSketch_spec :
    Triple handle A (fun s => G s.core)
      (fun s => I s.core ∧ (s.core.bootMode = .normalBoot ∨ available = true)) startSketch
      (fun _ s => G s.core) :=
  .act _ (stable_core fun c => I c ∧ (c.bootMode = .normalBoot ∨ available = true))
    (fun _ => stable_core G) (fun s _ hs => hG s.core hs.1) (fun _ _ _ hs => hs)
    fun s _ hs _ => hstart s.core hs.1 hs.2

include hI hG havr hnormal hmode hstart

theorem bootloader_spec :
    Triple handle A (fun s => G s.core) (fun s => I s.core) (bootloader available)
      (fun _ s => G s.core) := by
  apply Triple.bind (Keeps.spec (keeps_setupHardware hI) hG)
  intro _
  apply Triple.bind (classifyBoot_spec hI hG havr hnormal hmode)
  intro _
  refine Triple.bind (R := fun _ s => I s.core ∧ (false = false → s.core.bootMode = .normalBoot)) ?_
    fun _ => (startSketch_spec hG hstart).pre fun s hs => ⟨hs.1, .inl (hs.2 rfl)⟩
  exact Triple.whileDo (stable_core I)
    (stable_core fun c => I c ∧ (false = false → c.bootMode = .normalBoot))
    (fun s _ => hG s.core) (fun s _ hs => hG s.core hs.1) (keepRunning_normal hG)
    ((runTasks_spec hI hG havr).pre fun s hs => hs.1)

/-- An invariant of the tasks, the programmer and the assignments to
`boot_mode` holds until the sketch is entered. -/
theorem main_spec (r : Reset) :
    Triple handle A (fun s => G s.core)
      (fun s => I s.core ∧ sketchAvailable s.core.mem = available) (main r)
      (fun _ s => G s.core) := by
  have hboot : Triple handle A (fun s => G s.core) (fun s => I s.core) (bootloader available)
      (fun _ s => G s.core) := bootloader_spec hI hG havr hnormal hmode hstart
  have hjump (ha : available = true) : Triple handle A (fun s => G s.core) (fun s => I s.core)
      startSketch (fun _ s => G s.core) :=
    (startSketch_spec hG hstart).pre fun s hs => ⟨hs, .inr ha⟩
  apply Triple.bind (R := fun b s => b = available ∧ I s.core)
  · refine .act _ (stable_core fun c => I c ∧ sketchAvailable c.mem = available)
      (fun b => stable_core fun c => b = available ∧ I c) (fun s _ hs => hG s.core hs.1)
      (fun _ s _ hs => hG s.core hs.2) ?_
    intro s _ hs _
    exact ⟨hs.2, hs.1⟩
  intro b
  apply Triple.of_pure
  intro hb
  subst hb
  exact .ite (fun _ => hboot) fun _ => .ite (fun h => hjump h.2) fun _ =>
    .ite (fun h => hjump h.2.2) fun _ => hboot

end Main

/-- Every call of `check_reset` that ends after a block request finds the
button up, and it is not the first call of a reset without a sketch. -/
def undisturbed (available : Bool) : List Obs → Bool
  | [] => true
  | .checkReset ticks pressed :: t =>
    (.exitRequest ∉ t || (!pressed && (ticks ≠ actStayIntoBootloader || available))) &&
      undisturbed available t
  | _ :: t => undisturbed available t

theorem undisturbed_cons {available : Bool} {o : Obs} {t : List Obs}
    (h : undisturbed available (o :: t) = true) : undisturbed available t = true := by
  cases o with
  | checkReset ticks pressed => exact (Bool.and_eq_true_iff.mp h).2
  | _ => exact h

/-- A requested exit is still in force, the button permitting. -/
def ExitKept (available : Bool) (c : Core) : Prop :=
  undisturbed available c.trace = true → .exitRequest ∈ c.trace → c.bootMode = .normalBoot

theorem exitKept_observe {available : Bool} {c : Core} {o : Obs} (h : ExitKept available c)
    (ho : o ≠ .exitRequest) : ExitKept available (observe o c) := by
  intro hu hm
  obtain hm | hm := List.mem_cons.mp hm
  · exact absurd hm.symm ho
  · exact h (undisturbed_cons hu) hm

theorem exitKept_task {available : Bool} {f : Core → Core} (hf : TaskWrite f) {c : Core}
    (h : ExitKept available c) : ExitKept available (f c) := by
  obtain ⟨-, hb, ht | ⟨o, ho, ht⟩⟩ := hf.effect c
  · rw [ExitKept, hb, ht]
    exact h
  · rw [ExitKept, hb, ht]
    exact exitKept_observe h fun he => absurd ho (by rw [he]; decide)

theorem exitKept_avr109 {available : Bool} {f : Core → Core} (hf : Avr109Write f) {c : Core}
    (h : ExitKept available c) : ExitKept available (f c) := by
  cases hf with
  | dispatch pos command => exact exitKept_observe h nofun
  | block command size memoryType => exact exitKept_observe h nofun
  | exit => exact fun _ _ => rfl
  | spm op => exact exitKept_observe (c := { c with mem := _ }) h nofun
  | fill a low high =>
    exact exitKept_observe (c := { observe (.data low high) c with mem := _ })
      (exitKept_observe h nofun) nofun
  | seekHigh hi => exact exitKept_observe (c := { c with currAddress := _ }) h nofun
  | seekLow lo => exact exitKept_observe (c := { c with currAddress := _ }) h nofun
  | _ => exact h

theorem exitKept_setBootMode {available : Bool} {ticks : UInt8} {pressed : Bool} {c : Core}
    (hh : c.trace.head? = some (.checkReset ticks pressed))
    (hc : pressed = true ∨ ticks = actStayIntoBootloader ∧ available = false) (mode : BootMode) :
    ExitKept available { c with bootMode := mode } := by
  intro hu hm
  dsimp only at hu hm
  obtain ⟨t, ht⟩ := List.head?_eq_some_iff.mp hh
  rw [ht] at hu hm
  have hexit : .exitRequest ∈ t := by simpa using hm
  obtain rfl | ⟨rfl, rfl⟩ := hc <;> simp [undisturbed, hexit] at hu

theorem exitKept_launch {available : Bool} {c : Core} (h : ExitKept available c) :
    ExitKept available (launch c) :=
  exitKept_observe h nofun

theorem keepRunning_spec :
    Triple handle (fun _ => True) (fun _ => True)
      (fun s => s.core.bootMode = .normalBoot ∧ s.timer.timeout = 0) keepRunning
      (fun b _ => b = false) := by
  have hs : Stable handle (fun _ => True)
      fun s => s.core.bootMode = .normalBoot ∧ s.timer.timeout = 0 := by
    intro e s _ _ hs
    refine ⟨by rw [core_handle]; exact hs.1, ?_⟩
    cases e with
    | tick =>
      rw [handle]
      split
      · simp [timer1CompA, hs.2]
      · exact hs.2
    | uartRx ch => rw [handle]; split <;> exact hs.2
    | deviceState d => rw [handle]; split <;> exact hs.2
    | _ => exact hs.2
  apply Triple.bind
    (R := fun b s => b = false ∧ s.core.bootMode = .normalBoot ∧ s.timer.timeout = 0)
  · refine .access _ hs (fun b e s ha hb h => ⟨h.1, hs e s ha hb h.2⟩) ?_
    intro s _ h _
    exact ⟨by simp [h.1], h⟩
  intro b
  apply Triple.of_pure
  intro hb
  apply Triple.ite
  · intro ht
    rw [hb] at ht
    cases ht
  · intro _
    refine .access _ hs (fun _ _ _ _ _ h => h) ?_
    intro s _ h _
    simp [h.2]

/-- Once a block request has asked for the sketch, the boot mode stays normal,
and the loop of `main` ends as soon as `Timeout` is zero, unless the button
ends a later `check_reset` or there was no sketch for the first one. -/
theorem exitRequest_kept (r : Reset) (m : Memory) (packets : List Packet) (button : Bool)
    (ms : List (Move Event)) :
    let s := (exec handle (main r, State.reset m packets button) ms).2
    undisturbed (sketchAvailable m.reset) s.core.trace = true → .exitRequest ∈ s.core.trace →
      s.core.bootMode = .normalBoot ∧
        (s.timer.timeout = 0 → ∀ b t, Runs handle (fun _ => True) (keepRunning, s) (.ret b, t) →
          b = false) := by
  intro s hu he
  have hmain : Triple handle (fun _ => True) (fun s => ExitKept (sketchAvailable m.reset) s.core)
      (fun s => ExitKept (sketchAvailable m.reset) s.core ∧
        sketchAvailable s.core.mem = sketchAvailable m.reset) (main r)
      (fun _ s => ExitKept (sketchAvailable m.reset) s.core) := by
    have havr : Keeps (fun s => ExitKept (sketchAvailable m.reset) s.core) avr109Programmer :=
      keeps_avr109Programmer (usbFree_core _) (fun f hf s hs => exitKept_avr109 hf hs)
        fun n _ => keeps_setTimeout n
    apply main_spec
    · exact fun f hf c hc => exitKept_task hf hc
    · exact fun _ hc => hc
    · exact .of_keeps (stable_core _) _ havr
    · exact fun _ _ _ _ _ => rfl
    · exact fun ticks pressed mode s _ _ _ hh hc => exitKept_setBootMode hh hc mode
    · exact fun c hc _ => exitKept_launch hc
  have hk : ExitKept (sketchAvailable m.reset) s.core :=
    (hmain (State.reset m packets button) trivial ⟨fun _ h => absurd h List.not_mem_nil, rfl⟩ _
      (.of_exec _ ms)).1
  have hb : s.core.bootMode = .normalBoot := hk hu he
  exact ⟨hb, fun ht b t hr => (keepRunning_spec s trivial ⟨hb, ht⟩ _ hr).2 b rfl⟩

/-- A host reads flash while the button is held after an external reset; the
moves `late` come when its session has timed out. -/
def heldMoves (late : List (Move Event)) : List (Move Event) :=
  List.flatten [
    .replicate 30 .cpu, [.irq (.deviceState .configured), .irq .outPacket],
    .replicate 60 .cpu, [.irq .inTaken], .replicate 60 (.irq .tick), late, .replicate 30 .cpu]

def heldSession (late : List (Move Event)) : State :=
  (exec handle (main ⟨0x02, 0⟩, State.reset (Memory.ofFlash fun _ => 0)
    [⟨[esc, ascii 'g', 0, 0, ascii 'F'], by decide⟩] true) (heldMoves late)).2

theorem exitRequest_kept_released :
    .exitRequest ∈ (heldSession [.irq (.button false)]).core.trace ∧
      (heldSession [.irq (.button false)]).core.bootMode = .normalBoot := by
  have he : .exitRequest ∈ (heldSession [.irq (.button false)]).core.trace := by decide +kernel
  have hu : undisturbed (sketchAvailable (Memory.ofFlash fun _ => 0).reset)
      (heldSession [.irq (.button false)]).core.trace = true := by decide +kernel
  refine ⟨he, ?_⟩
  rw [heldSession] at he hu ⊢
  exact (exitRequest_kept _ _ _ _ _ hu he).1

/-- The button is still held: `main` takes the end of the session for a wish
to stay. -/
theorem exitRequest_lost :
    .exitRequest ∈ (heldSession []).core.trace ∧ .startSketch ∉ (heldSession []).core.trace ∧
      (heldSession []).core.bootMode = .keepBootloader := by
  decide +kernel

end Adelino.Boot
