import Adelino.Launch

namespace Adelino.Masks

open Adelino.Program Adelino.Logic Adelino.Flash Adelino.Endpoint Adelino.Machine Adelino.Streams
open Adelino.Avr109 Adelino.Esp8266 Adelino.Main Adelino.Frame Adelino.Tasks Adelino.Phases
open Adelino.Boot Adelino.Launch

def pageOp : SpmOp → Bool
  | .rwwEnable => false
  | _ => true

/-- Every page operation was issued under masks that satisfy `φ`. -/
def IssuedUnder (φ : Bool → Bool → Prop) (t : List Obs) : Prop :=
  ∀ op timsk1 rxcie1, .spm op timsk1 rxcie1 ∈ t → pageOp op = true → φ timsk1 rxcie1

/-- Neither the timer nor the receiver could interrupt a page operation. -/
abbrev Undisturbed (t : List Obs) : Prop :=
  IssuedUnder (fun timsk1 rxcie1 => timsk1 = false ∧ rxcie1 = false) t

section Issued

variable {φ : Bool → Bool → Prop} {t : List Obs}

theorem IssuedUnder.cons {o : Obs} (h : IssuedUnder φ t)
    (ho : ∀ op timsk1 rxcie1, o = .spm op timsk1 rxcie1 → pageOp op = true → φ timsk1 rxcie1) :
    IssuedUnder φ (o :: t) := by
  intro op timsk1 rxcie1 hm hp
  obtain he | hm := List.mem_cons.mp hm
  · exact ho op timsk1 rxcie1 he.symm hp
  · exact h op timsk1 rxcie1 hm hp

def issues : Obs → Bool
  | .spm op _ _ => pageOp op
  | _ => false

theorem IssuedUnder.quiet {o : Obs} (h : IssuedUnder φ t) (ho : issues o = false) :
    IssuedUnder φ (o :: t) := by
  refine h.cons fun op timsk1 rxcie1 he hp => ?_
  rw [he, issues, hp] at ho
  cases ho

end Issued

/-- As the firmware issues them: the timer is masked and the receiver is not. -/
abbrev HalfMasked (t : List Obs) : Prop :=
  IssuedUnder (fun timsk1 rxcie1 => timsk1 = false ∧ rxcie1 = true) t

structure Receiving (c : Core) : Prop where
  rxcie1 : c.rxcie1 = true
  issued : HalfMasked c.trace

theorem Receiving.observe {c : Core} (h : Receiving c) {o : Obs} (ho : issues o = false) :
    Receiving (observe o c) :=
  ⟨h.rxcie1, h.issued.quiet ho⟩

theorem masking_receiving : Masking Receiving fun c => c.timsk1 = false ∧ Receiving c where
  dispatch _ _ _ h := h.observe rfl
  seek f hf c h := by cases hf <;> exact ⟨h.rxcie1, h.issued.quiet rfl⟩
  enable _ h := ⟨h.rxcie1, h.issued.quiet rfl⟩
  exit _ h := ⟨h.rxcie1, h.issued.quiet rfl⟩
  block _ _ _ _ h := h.observe rfl
  mask _ h := ⟨rfl, h.rxcie1, h.issued⟩
  spm op c h := by
    refine ⟨h.1, h.2.rxcie1, h.2.issued.cons ?_⟩
    intro op' timsk1 rxcie1 he _
    cases he
    exact ⟨h.1, h.2.rxcie1⟩
  fill a low high c h := by
    refine ⟨h.1, h.2.rxcie1, (h.2.issued.quiet (o := .data low high) rfl).cons ?_⟩
    intro op timsk1 rxcie1 he _
    cases he
    exact ⟨h.1, h.2.rxcie1⟩
  advance _ h := ⟨h.1, h.2.rxcie1, h.2.issued⟩
  unmask _ h := ⟨h.2.rxcie1, h.2.issued⟩

theorem bootSteps_receiving : BootSteps fun s t => Receiving s.core → Receiving t.core where
  refl _ hs := hs
  usb _ _ _ _ _ hs := hs
  leds _ _ _ _ hs := ⟨hs.rxcie1, hs.issued⟩
  ledControl _ _ hs := ⟨hs.rxcie1, hs.issued⟩
  udr _ _ hs := ⟨hs.rxcie1, hs.issued⟩
  timeout _ _ hs := hs
  ledsEnabled _ _ hs := ⟨hs.rxcie1, hs.issued⟩
  observe _ o ho hs := hs.observe (by cases o <;> first | rfl | cases ho)
  rtsPulse _ hs := hs
  pins _ _ hs := ⟨hs.rxcie1, hs.issued⟩
  ring _ _ hs := hs
  rstat _ hs := ⟨hs.rxcie1, hs.issued.quiet rfl⟩
  checkReset _ _ _ hs := hs.observe rfl
  bootMode _ _ hs := ⟨hs.rxcie1, hs.issued⟩

theorem main_halfMasked (r : Reset) (m : Memory) (packets : List Packet) (button : Bool)
    (ms : List (Move Event)) :
    HalfMasked (exec handle (main r, State.reset m packets button) ms).2.core.trace := by
  let G (c : Core) : Prop := HalfMasked c.trace
  have hreceiving (c : Core) : Receiving c → G c := Receiving.issued
  have hpins (f : Pins → Pins) : Triple handle (fun _ => True) (fun s => G s.core)
      (fun s => G s.core) (onPins f) (fun _ s => G s.core) :=
    Keeps.spec (fun _ hs => hs) fun _ hc => hc
  have hsetup : Triple handle (fun _ => True) (fun s => G s.core) (fun s => G s.core) setupHardware
      fun _ s => Receiving s.core := by
    iterate 4
      apply Triple.bind (hpins _)
      intro _
    refine Triple.bind (onCore_phase (Q := Receiving) (fun _ hc => hc) hreceiving fun c hc => ?_)
      fun _ => ?_
    · exact ⟨rfl, hc⟩
    refine Triple.bind (onCore_phase hreceiving hreceiving fun c hc => ?_) fun _ => ?_
    · exact ⟨hc.rxcie1, hc.issued⟩
    · exact onCore_phase hreceiving hreceiving fun c hc => ⟨hc.rxcie1, hc.issued⟩
  have hstart {I : Core → Prop} (hI : ∀ c, I c → G c) : Triple handle (fun _ => True)
      (fun s => G s.core) (fun s => I s.core) startSketch fun _ s => G s.core :=
    onCore_phase hI (fun _ hc => hc) fun c hc => (hI c hc).quiet rfl
  have hmain := bootSteps_receiving.main_stages (stable_core G) (stable_core Receiving)
    (fun _ _ hs => hs) (fun s _ => hreceiving s.core) hsetup
    (masking_receiving.avr109Programmer hreceiving fun c hc => hreceiving c hc.2)
    (hstart hreceiving) (hstart fun _ hc => hc) r
  have hempty : G (State.reset m packets button).core := fun _ _ _ hm => absurd hm List.not_mem_nil
  exact (hmain (State.reset m packets button) trivial hempty _ (.of_exec _ ms)).1

def Requested (t : List Obs) : Prop := ∃ size, .block (ascii 'B') size (ascii 'F') ∈ t

theorem Requested.cons {t : List Obs} (h : Requested t) (o : Obs) : Requested (o :: t) :=
  h.imp fun _ hm => List.mem_cons_of_mem o hm

def Answering (c : Core) : Prop := (∃ o ∈ c.trace, issues o = true) → Requested c.trace

theorem Answering.quiet {c d : Core} (h : Answering c) {o : Obs} (ho : issues o = false)
    (hd : d.trace = o :: c.trace) : Answering d := by
  rintro ⟨o', hm, hi⟩
  rw [hd] at hm ⊢
  obtain rfl | hm := List.mem_cons.mp hm
  · rw [ho] at hi
    cases hi
  · exact (h ⟨o', hm, hi⟩).cons o

theorem answering_phases : RequestPhases Answering (.coarse Answering Answering
    (fun c => Requested c.trace) fun _ c => Requested c.trace) where
  safe_idle _ h := h
  safe_asked _ h := h
  safe_enabling _ _ h := h
  safe_reading _ _ h := h
  safe_storing _ h _ := h
  safe_erased _ _ h _ := h
  safe_filled _ _ h _ := h
  dispatch_end _ _ h := h.quiet rfl rfl
  dispatch _ _ _ _ h := h.quiet rfl rfl
  exit _ h := h.quiet rfl rfl
  seekHigh _ _ h := h.quiet rfl rfl
  seekLow _ _ h := h.quiet rfl rfl
  timsk1 _ _ h := h
  refuse _ _ _ _ _ h := h.quiet rfl rfl
  load _ _ h := h.quiet rfl rfl
  load_timsk1 _ _ _ h := h
  enable _ _ h := h.quiet rfl rfl
  skip _ _ h := h
  loaded _ h := h
  store size _ _ := ⟨size, List.mem_cons_self⟩
  store_timsk1 _ _ h := h
  erase _ h := h.cons _
  fill _ low high _ h := (h.cons (.data low high)).cons _
  advance _ _ h := h
  write _ _ h _ := h.cons _

theorem answering_task {f : Core → Core} (hf : TaskWrite f) {c : Core} (h : Answering c) :
    Answering (f c) := by
  obtain ⟨-, -, ht | ⟨o, ho, ht⟩⟩ := hf.effect c
  · rw [Answering, ht]
    exact h
  · refine h.quiet ?_ ht
    cases o <;> first | rfl | cases ho

theorem main_answering (r : Reset) (m : Memory) (packets : List Packet) (button : Bool)
    (ms : List (Move Event)) :
    Answering (exec handle (main r, State.reset m packets button) ms).2.core :=
  main_phases answering_phases (s := State.reset m packets button)
    (fun _ hf _ hc => answering_task hf hc) (fun _ _ _ hc => hc) (fun _ _ hc => hc.quiet rfl rfl) r
    (by rintro ⟨o, hm, -⟩; exact absurd hm List.not_mem_nil) ms

/-- The machine together with SPMCSR, which holds the operation it is armed
for. -/
structure Armable where
  state : State
  spmcsr : Option SpmOp

def interrupts (s : State) : Event → Bool
  | .tick => s.core.sreg && s.core.timsk1
  | .uartRx _ => s.core.sreg && s.core.rxcie1
  | .deviceState _ => s.core.sreg
  | _ => false

/-- A handler takes longer than the four cycles for which SPMCSR stays armed. -/
def handleArmed (e : Event) (a : Armable) : Armable where
  state := handle e a.state
  spmcsr := if interrupts a.state e then none else a.spmcsr

def executeSpm (a : Armable) : Armable :=
  match a.spmcsr with
  | some op => { state := { a.state with core := spm op a.state.core }, spmcsr := none }
  | none => a

def spmInSteps (op : SpmOp) : Prog Armable Unit := do
  .modify fun a => { a with spmcsr := some op }
  .modify executeSpm

def spmReceiving (op : SpmOp) (s : State) (chs : List UInt8) : Memory :=
  (exec handleArmed (spmInSteps op, ⟨s, none⟩)
    (.cpu :: chs.map (fun ch => .irq (.uartRx ch)) ++ [.cpu])).2.state.core.mem

theorem exec_uartRx {α : Type} (p : Prog Armable α) (a : Armable) (chs : List UInt8) :
    ∃ b, exec handleArmed (p, a) (chs.map fun ch => .irq (.uartRx ch)) = (p, b) ∧
      b.state.core = a.state.core ∧
      b.spmcsr = if a.state.core.sreg && a.state.core.rxcie1 && !chs.isEmpty then none
        else a.spmcsr := by
  induction chs generalizing a with
  | nil => exact ⟨a, rfl, rfl, by simp⟩
  | cons ch chs ih =>
    obtain ⟨b, hb, hcore, hspmcsr⟩ := ih (handleArmed (.uartRx ch) a)
    refine ⟨b, hb, hcore.trans (core_handle _ _), ?_⟩
    by_cases hi : a.state.core.sreg && a.state.core.rxcie1
    · simpa [handleArmed, interrupts, hi] using hspmcsr
    · simpa [handleArmed, interrupts, hi] using hspmcsr

/-- A byte that arrives between the two steps undoes the operation if and only
if the receiver may interrupt. -/
theorem spmReceiving_eq (op : SpmOp) (s : State) (chs : List UInt8) :
    spmReceiving op s chs =
      if s.core.sreg && s.core.rxcie1 && !chs.isEmpty then s.core.mem else (spm op s.core).mem := by
  obtain ⟨b, hb, hcore, hspmcsr⟩ := exec_uartRx (.modify executeSpm) ⟨s, some op⟩ chs
  have hmem : spmReceiving op s chs = (executeSpm b).state.core.mem := by
    rw [spmReceiving, exec, List.cons_append, List.foldl_cons, List.foldl_append]
    exact congrArg (fun c : Prog Armable Unit × Armable => (c.1.step c.2).2.state.core.mem) hb
  dsimp only at hcore hspmcsr
  rw [hmem, executeSpm, hspmcsr]
  by_cases hi : s.core.sreg && s.core.rxcie1 && !chs.isEmpty
  · rw [if_pos hi, if_pos hi]
    exact congrArg Core.mem hcore
  · rw [if_neg hi, if_neg hi, ← hcore]

/-- Page operations are undisturbed in a run as long as there are none, and so
in every run without a block write to flash: the receiver is enabled whenever
one is issued, and a byte that arrives at the wrong moment then undoes it. -/
theorem undisturbed_iff (r : Reset) (m : Memory) (packets : List Packet) (button : Bool)
    (ms : List (Move Event)) :
    let s := (exec handle (main r, State.reset m packets button) ms).2
    (Undisturbed s.core.trace ↔ ∀ o ∈ s.core.trace, issues o = false) ∧
      (¬ Requested s.core.trace → Undisturbed s.core.trace) ∧
      ∀ op chs, spmReceiving op s chs =
        if s.core.sreg && s.core.rxcie1 && !chs.isEmpty then s.core.mem
        else (spm op s.core).mem := by
  intro s
  have hiff : Undisturbed s.core.trace ↔ ∀ o ∈ s.core.trace, issues o = false := by
    constructor
    · intro hu o ho
      by_contra hi
      cases o with
      | spm op timsk1 rxcie1 =>
        have hp : pageOp op = true := by simpa [issues] using hi
        have hoff := (hu op timsk1 rxcie1 ho hp).2
        have hon := (main_halfMasked r m packets button ms op timsk1 rxcie1 ho hp).2
        rw [hon] at hoff
        cases hoff
      | _ => exact hi rfl
    · intro hn op timsk1 rxcie1 hm hp
      have hi := hn _ hm
      rw [issues, hp] at hi
      cases hi
  refine ⟨hiff, fun hr => hiff.mpr fun o ho => ?_, fun op chs => spmReceiving_eq op s chs⟩
  by_contra hi
  exact hr (main_answering r m packets button ms ⟨o, ho, by simpa using hi⟩)

def uploading (steps : Nat) : State :=
  (exec handle (main ⟨0x02, 0⟩, State.reset (Memory.ofFlash fun _ => 0xFF)
    [⟨[esc, ascii 'B', 0, 2, ascii 'F', 0x34, 0x12], by decide⟩] true)
    (List.flatten [.replicate 30 .cpu, [.irq (.deviceState .configured), .irq .outPacket],
      .replicate steps .cpu])).2

/-- The word is filled in with the receiver enabled, and one byte from the
ESP8266 is enough to lose it. -/
theorem pageFill_lost :
    .spm (.pageFill 0 0x1234) false true ∈ (uploading 100).core.trace ∧
      ¬ Undisturbed (uploading 100).core.trace ∧
      (spmReceiving (.pageFill 0 0x1234) (uploading 55) []).buffer 0 = some 0x1234 ∧
      (spmReceiving (.pageFill 0 0x1234) (uploading 55) [0x41]).buffer 0 = none := by
  have hissued : .spm (.pageFill 0 0x1234) false true ∈ (uploading 100).core.trace := by
    decide +kernel
  refine ⟨hissued, fun hu => ?_, by decide +kernel, by decide +kernel⟩
  exact absurd (hu _ _ _ hissued rfl).2 (by decide)

end Adelino.Masks
