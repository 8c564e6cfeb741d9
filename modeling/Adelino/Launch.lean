import Adelino.Phases
import Adelino.Boot
import Adelino.Refinement

namespace Adelino.Launch

open Adelino.Program Adelino.Logic Adelino.Words Adelino.Flash Adelino.Endpoint Adelino.Machine
open Adelino.Avr109 Adelino.Main Adelino.Tasks Adelino.Phases Adelino.Boot Adelino.Refinement

/-- `P` relates the memory to the trace up to the execution of `start_sketch`,
if there was one. -/
def Launched (P : Memory → List Obs → Prop) (c : Core) : Prop :=
  ∀ t, .startSketch :: t <:+ c.trace → P c.mem t

theorem launched_of_notMem {P : Memory → List Obs → Prop} {c : Core} (h : .startSketch ∉ c.trace) :
    Launched P c :=
  fun _ ht => absurd (ht.subset List.mem_cons_self) h

theorem launched_launch {P : Memory → List Obs → Prop} {c : Core} (h : .startSketch ∉ c.trace)
    (hp : P c.mem c.trace) : Launched P (launch c) := by
  intro t ht
  obtain he | hs := List.suffix_cons_iff.mp ht
  · rw [(List.cons.inj he).2]
    exact hp
  · exact absurd (hs.subset List.mem_cons_self) h

/-- An invariant of the tasks and of the phases of a request holds in every
run from a reset. -/
theorem main_phases {G : Core → Prop} {p : Points} (h : RequestPhases G p) {s : State}
    (htask : ∀ f, TaskWrite f → ∀ c, p.idle c → p.idle (f c))
    (hmode : ∀ mode c, (mode = .normalBoot → sketchAvailable s.core.mem = true) → p.idle c →
      p.idle { c with bootMode := mode })
    (hlaunch : ∀ c, c.bootMode = .normalBoot ∨ sketchAvailable s.core.mem = true → p.idle c →
      G (launch c))
    (r : Reset) (hs : p.idle s.core) (ms : List (Move Event)) :
    G (exec handle (main r, s) ms).2.core := by
  have hmain : Triple handle (fun _ => True) (fun s => G s.core)
      (fun t => p.idle t.core ∧ sketchAvailable t.core.mem = sketchAvailable s.core.mem) (main r)
      (fun _ s => G s.core) :=
    main_spec htask h.safe_idle h.avr109Programmer (fun ha c => hmode _ c fun _ => ha)
      (fun _ _ mode t _ hi hm _ _ => hmode mode t.core (fun he => absurd he hm) hi)
      (fun c hc ha => hlaunch c ha hc) r
  exact (hmain s trivial ⟨hs, rfl⟩ _ (.of_exec _ ms)).1

/-- Whether a page has been erased and not been written since. -/
def programming : List Obs → Bool
  | [] => false
  | .spm (.pageErase _) _ _ :: _ => true
  | .spm (.pageFill _ _) _ _ :: _ => true
  | .spm _ _ _ :: _ => false
  | _ :: t => programming t

theorem idle_phases :
    RequestPhases (fun c => programming c.trace = false → Idle c) (.coarse Idle Idle Idle
      fun _ c => c.currAddress.toNat % 2 = 0 ∧ programming c.trace = true) where
  safe_idle _ h _ := h
  safe_asked _ h _ := h
  safe_enabling _ _ h _ := h
  safe_reading _ _ h _ := h
  safe_storing _ h _ := h
  safe_erased _ _ h hp := absurd (h.2.symm.trans hp) nofun
  safe_filled _ _ h hp := absurd (h.2.symm.trans hp) nofun
  dispatch_end _ c h := idle_observe _ c h
  dispatch _ _ c _ h := idle_observe _ c h
  exit _ h := ⟨h.buffer, h.even⟩
  seekHigh hi _ h := ⟨h.buffer, even_addressHigh hi⟩
  seekLow lo _ h := ⟨h.buffer, even_or_addressLow lo h.even⟩
  timsk1 _ _ h := ⟨h.buffer, h.even⟩
  refuse _ _ _ c _ h := idle_observe _ c h
  load _ c h := idle_observe _ c h
  load_timsk1 _ _ _ h := ⟨h.buffer, h.even⟩
  enable _ _ h := ⟨fun _ => rfl, h.even⟩
  skip _ c h := ⟨h.buffer, even_add c.currAddress 1 h.even⟩
  loaded _ h := h
  store _ c h := idle_observe _ c h
  store_timsk1 _ _ h := ⟨h.buffer, h.even⟩
  erase _ h := ⟨h.even, rfl⟩
  fill _ _ _ _ h := ⟨h.1, rfl⟩
  advance _ c h := ⟨even_add c.currAddress 1 h.1, h.2⟩
  write _ _ h := ⟨fun _ => rfl, h.1⟩

theorem idle_task {f : Core → Core} (hf : TaskWrite f) {c : Core} (h : Idle c) : Idle (f c) := by
  cases hf <;> exact ⟨h.buffer, h.even⟩

/-- A session of the programmer always begins with an empty page buffer and
the address of a word: in every run from a reset this is so in all states but
those in which a page is being programmed. -/
theorem idle_of_run (r : Reset) (m : Memory) (packets : List Packet) (button : Bool)
    (ms : List (Move Event))
    (hp :
      programming (exec handle (main r, State.reset m packets button) ms).2.core.trace = false) :
    Idle (exec handle (main r, State.reset m packets button) ms).2.core :=
  main_phases idle_phases (s := State.reset m packets button) (fun _ hf _ hc => idle_task hf hc)
    (fun _ _ _ hc => ⟨hc.buffer, hc.even⟩) (fun _ _ hc _ => ⟨hc.buffer, hc.even⟩) r
    ⟨fun _ => rfl, rfl⟩ ms hp

def blocksRww : SpmOp → Bool
  | .pageErase _ => true
  | .pageWrite _ => true
  | _ => false

/-- Every erase or write of a page, in a trace whose head is the newest
observation, is followed by an operation that re-enables RWW. -/
def Reenabled (t : List Obs) : Prop :=
  ∀ newer op timsk1 rxcie1 older, t = newer ++ .spm op timsk1 rxcie1 :: older →
    blocksRww op = true → ∃ timsk1 rxcie1, .spm .rwwEnable timsk1 rxcie1 ∈ newer

/-- Whether the newest operation that concerns RWW blocked it. -/
def rwwOff : List Obs → Bool
  | [] => false
  | .spm .rwwEnable _ _ :: _ => false
  | .spm op _ _ :: t => blocksRww op || rwwOff t
  | _ :: t => rwwOff t

/-- Whether the host has written a block to flash since it last ended a
session with `E` or read a block of flash. -/
def writePending : List Obs → Bool
  | [] => false
  | .dispatch _ command :: t => command ≠ ascii 'E' && writePending t
  | .block command _ memoryType :: t =>
    if memoryType = ascii 'F' then command = ascii 'B' else writePending t
  | _ :: t => writePending t

theorem reenabled_cons (o : Obs) (t : List Obs)
    (hb : ∀ op timsk1 rxcie1, o = .spm op timsk1 rxcie1 →
    blocksRww op = false ∧ op ≠ .rwwEnable) : Reenabled (o :: t) ↔ Reenabled t := by
  constructor
  · intro h newer op timsk1 rxcie1 older ht hop
    obtain ⟨a, b, hm⟩ := h (o :: newer) op timsk1 rxcie1 older (by rw [ht, List.cons_append]) hop
    obtain rfl | hm := List.mem_cons.mp hm
    · exact absurd rfl (hb _ _ _ rfl).2
    · exact ⟨a, b, hm⟩
  · intro h newer op timsk1 rxcie1 older ht hop
    cases newer with
    | nil =>
      obtain ⟨rfl, -⟩ := List.cons.inj ht
      rw [(hb _ _ _ rfl).1] at hop
      cases hop
    | cons n newer =>
      obtain ⟨a, b, hm⟩ := h newer op timsk1 rxcie1 older (List.cons.inj ht).2 hop
      exact ⟨a, b, List.mem_cons_of_mem _ hm⟩

theorem not_reenabled_cons (op : SpmOp) (timsk1 rxcie1 : Bool) (t : List Obs)
    (h : blocksRww op = true) : ¬ Reenabled (.spm op timsk1 rxcie1 :: t) := by
  intro hr
  obtain ⟨_, _, hm⟩ := hr [] op timsk1 rxcie1 t rfl h
  cases hm

theorem reenabled_rwwEnable (timsk1 rxcie1 : Bool) (t : List Obs) :
    Reenabled (.spm .rwwEnable timsk1 rxcie1 :: t) := by
  intro newer op _ _ older ht hop
  cases newer with
  | nil =>
    obtain ⟨he, -⟩ := List.cons.inj ht
    cases he
    cases hop
  | cons n newer =>
    obtain ⟨rfl, -⟩ := List.cons.inj ht
    exact ⟨timsk1, rxcie1, List.mem_cons_self⟩

theorem reenabled_iff (t : List Obs) : Reenabled t ↔ rwwOff t = false := by
  induction t with
  | nil =>
    refine ⟨fun _ => rfl, ?_⟩
    intro _ newer op timsk1 rxcie1 older ht
    simp at ht
  | cons o t ih =>
    cases o with
    | spm op timsk1 rxcie1 =>
      cases op with
      | pageErase a => exact iff_of_false (not_reenabled_cons _ _ _ _ rfl) nofun
      | pageWrite a => exact iff_of_false (not_reenabled_cons _ _ _ _ rfl) nofun
      | pageFill a w =>
        rw [reenabled_cons _ t (by rintro op _ _ ⟨⟩; exact ⟨rfl, nofun⟩), ih]
        rfl
      | rwwEnable => exact iff_of_true (reenabled_rwwEnable _ _ _) rfl
    | _ =>
      rw [reenabled_cons _ t (by rintro op _ _ ⟨⟩), ih]
      rfl

@[simp] theorem rwwOff_task {o : Obs} (h : taskObs o = true) (t : List Obs) :
    rwwOff (o :: t) = rwwOff t := by
  cases o <;> first | rfl | cases h

@[simp] theorem writePending_task {o : Obs} (h : taskObs o = true) (t : List Obs) :
    writePending (o :: t) = writePending t := by
  cases o <;> first | rfl | cases h

theorem startSketch_notMem_task {o : Obs} (h : taskObs o = true) {t : List Obs}
    (ht : .startSketch ∉ t) : .startSketch ∉ o :: t := by
  intro hm
  obtain rfl | hm := List.mem_cons.mp hm
  · cases h
  · exact ht hm

/-- Between requests RWW is off exactly while a write is pending. -/
structure RwwSettled (t : List Obs) : Prop where
  waiting : .startSketch ∉ t
  settled : rwwOff t = writePending t

theorem rww_phases :
    RequestPhases (Launched fun _ t => rwwOff t = writePending t) (.coarse
      (fun c => RwwSettled c.trace)
      (fun c => .startSketch ∉ c.trace ∧ writePending c.trace = false)
      (fun c => .startSketch ∉ c.trace ∧ writePending c.trace = true)
      (fun _ c => RwwSettled c.trace ∧ rwwOff c.trace = true)) where
  safe_idle _ h := launched_of_notMem h.waiting
  safe_asked _ h := launched_of_notMem h.waiting
  safe_enabling _ _ h := launched_of_notMem h.1
  safe_reading _ _ h := launched_of_notMem h.waiting
  safe_storing _ h := launched_of_notMem h.1
  safe_erased _ _ h := launched_of_notMem h.1.waiting
  safe_filled _ _ h := launched_of_notMem h.1.waiting
  dispatch_end pos c h := ⟨by simpa [observe] using h.waiting, rfl⟩
  dispatch pos command c hc h := by
    refine ⟨by simpa [observe] using h.waiting, ?_⟩
    simp [observe, rwwOff, writePending, hc, h.settled]
  exit c h := ⟨by simpa [normalBoot, observe] using h.waiting, h.settled⟩
  seekHigh _ _ h := ⟨by simpa [seekHigh, observe] using h.waiting, h.settled⟩
  seekLow _ _ h := ⟨by simpa [seekLow, observe] using h.waiting, h.settled⟩
  timsk1 v c h := h
  refuse command size memoryType c hm h := by
    refine ⟨by simpa [observe] using h.waiting, ?_⟩
    simp [observe, rwwOff, writePending, hm, h.settled]
  load size c h := ⟨by simpa [observe] using h.waiting, rfl⟩
  load_timsk1 n v c h := h
  enable n c h := ⟨by simpa [spm, observe] using h.1, h.2.symm⟩
  skip _ _ h := h
  loaded _ h := h
  store size c h := ⟨by simpa [observe] using h.waiting, rfl⟩
  store_timsk1 v c h := h
  erase c h := ⟨⟨by simpa [spm, observe] using h.1, h.2.symm⟩, rfl⟩
  fill a low high c h :=
    ⟨⟨by simpa [fillData, spm, observe] using h.1.waiting, h.1.settled⟩, h.2⟩
  advance a c h := h
  write a c h := ⟨by simpa [spm, observe] using h.1.waiting, h.2.symm.trans h.1.settled⟩

theorem rwwSettled_task {f : Core → Core} (hf : TaskWrite f) {c : Core} (h : RwwSettled c.trace) :
    RwwSettled (f c).trace := by
  obtain ⟨-, -, ht | ⟨o, ho, ht⟩⟩ := hf.effect c
  · rw [ht]
    exact h
  · rw [ht]
    refine ⟨startSketch_notMem_task ho h.waiting, ?_⟩
    rw [rwwOff_task ho, writePending_task ho, h.settled]

/-- Whenever the sketch is entered, the RWW section has been re-enabled after
every erase and write exactly if the host has sent an `E` or read flash after
the last block it wrote. -/
theorem launch_reenabled_iff (r : Reset) (m : Memory) (packets : List Packet) (button : Bool)
    (ms : List (Move Event)) (t : List Obs)
    (ht : .startSketch :: t <:+
      (exec handle (main r, State.reset m packets button) ms).2.core.trace) :
    Reenabled t ↔ writePending t = false := by
  have hl := main_phases rww_phases (s := State.reset m packets button)
    (fun f hf c hc => rwwSettled_task hf hc) (fun _ _ _ hc => hc)
    (fun c _ hc => launched_launch hc.waiting hc.settled) r ⟨nofun, rfl⟩ ms
  rw [reenabled_iff, hl t ht]

/-- A host attaches, sends a packet, takes two answers and falls silent for
three seconds. -/
def sessionMoves : List (Move Event) :=
  List.flatten [
    .replicate 40 .cpu, [.irq (.deviceState .configured), .irq .outPacket],
    .replicate 100 .cpu, [.irq .inTaken], .replicate 60 .cpu, [.irq .inTaken],
    .replicate 60 (.irq .tick), .replicate 60 .cpu]

def oneSession (flash : Nat → UInt8) (packet : Packet) : State :=
  (exec handle (main ⟨0x02, 0⟩, State.reset (Memory.ofFlash flash) [packet] false) sessionMoves).2

theorem suffix_of_head? {t : List Obs} {o : Obs} (h : t.head? = some o) : o :: t.tail <:+ t :=
  ⟨[], List.cons_head?_tail h⟩

theorem launch_reenabled_ended :
    let s := oneSession (fun _ => 0xFF)
      ⟨[esc, ascii 'B', 0, 2, ascii 'F', 0x0C, 0x94, ascii 'E'], by decide⟩
    s.core.trace.head? = some .startSketch ∧ Reenabled s.core.trace.tail := by
  have hl : (oneSession (fun _ => 0xFF)
      ⟨[esc, ascii 'B', 0, 2, ascii 'F', 0x0C, 0x94, ascii 'E'], by decide⟩).core.trace.head? =
      some .startSketch := by decide +kernel
  refine ⟨hl, ?_⟩
  rw [oneSession] at hl ⊢
  rw [launch_reenabled_iff _ _ _ _ _ _ (suffix_of_head? hl)]
  decide +kernel

theorem launch_rww_off :
    let s := oneSession (fun _ => 0xFF)
      ⟨[esc, ascii 'B', 0, 2, ascii 'F', 0x0C, 0x94], by decide⟩
    s.core.trace.head? = some .startSketch ∧ s.core.mem.rwwBusy = true ∧
      ¬ Reenabled s.core.trace.tail := by
  simp only [reenabled_iff]
  decide +kernel

def resetWord (m : Memory) : UInt16 := word (m.flash 0) (m.flash 1)

/-- `CurrAddress` as the requests of the host have moved it since a reset. -/
def address : List Obs → UInt32
  | [] => 0
  | .addressHigh b :: _ => Avr109.addressHigh b
  | .addressLow b :: t => address t ||| Avr109.addressLow b
  | .block command size memoryType :: t =>
    if command = ascii 'g' ∧ memoryType = ascii 'F' then address t + .ofNat (2 * (size.toNat / 2))
    else address t
  | .data _ _ :: t => address t + 2
  | _ :: t => address t

/-- The page in which the host asked for its last block. -/
def blockPage : List Obs → Option Nat
  | [] => none
  | .block _ _ _ :: t => some (pageOf (hwAddr (address t)))
  | _ :: t => blockPage t

/-- The word that the host has asked to have at the start of flash: `w` until it
writes a block to page 0, and then what the data of its last such block say, if
they say anything. -/
def sketchWord (w : UInt16) : List Obs → UInt16
  | [] => w
  | .block command _ memoryType :: t =>
    if command = ascii 'B' ∧ memoryType = ascii 'F' ∧ pageOf (hwAddr (address t)) = 0 then 0xFFFF
    else sketchWord w t
  | .data low high :: t =>
    if blockPage t = some 0 ∧ wordOf (hwAddr (address t)) = 0 then word low high
    else sketchWord w t
  | _ :: t => sketchWord w t

/-- The host has asked for a block, be it to read it or to write it. -/
def BlockAsked (t : List Obs) : Prop := (blockPage t).isSome = true

instance : DecidablePred BlockAsked := fun _ => inferInstanceAs (Decidable (_ = true))

/-- What has to be accounted for: the requests of the host and the jump. -/
def counts : Obs → Bool
  | .addressHigh _ => true
  | .addressLow _ => true
  | .block _ _ _ => true
  | .data _ _ => true
  | .startSketch => true
  | _ => false

section Silent

variable {o : Obs} (h : counts o = false) (t : List Obs)
include h

theorem address_silent : address (o :: t) = address t := by
  cases o <;> first | rfl | cases h

theorem blockPage_silent : blockPage (o :: t) = blockPage t := by
  cases o <;> first | rfl | cases h

theorem sketchWord_silent (w : UInt16) : sketchWord w (o :: t) = sketchWord w t := by
  cases o <;> first | rfl | cases h

end Silent

theorem BlockAsked.cons {t : List Obs} (h : BlockAsked t) (o : Obs) : BlockAsked (o :: t) := by
  cases o <;> first | exact h | rfl

theorem sketchWord_of_not_asked (w : UInt16) {t : List Obs} (h : ¬ BlockAsked t) :
    sketchWord w t = w := by
  induction t with
  | nil => rfl
  | cons o t ih =>
    have ht := ih fun hb => h (hb.cons o)
    cases o with
    | block command size memoryType => exact absurd rfl h
    | data low high =>
      have hp : blockPage t = none := by simpa [BlockAsked, blockPage] using h
      rw [sketchWord, hp, if_neg (fun hc => by cases hc.1), ht]
    | _ => exact ht

theorem resetWord_bootPageWrite (a : UInt32) (m : Memory) :
    resetWord (m.bootPageWrite a) =
      if pageOf (hwAddr a) = 0 then (m.buffer 0).getD 0xFFFF else resetWord m := by
  by_cases ha : pageOf (hwAddr a) = 0
  · rw [if_pos ha]
    simp only [resetWord, Memory.bootPageWrite, ha]
    exact word_lowHigh _
  · simp only [resetWord, Memory.bootPageWrite]
    rw [if_neg ha, if_neg fun h => ha h.symm, if_neg fun h => ha h.symm]

theorem resetWord_bootPageErase (a : UInt32) (m : Memory) (ha : pageOf (hwAddr a) ≠ 0) :
    resetWord (m.bootPageErase a) = resetWord m := by
  simp only [resetWord, Memory.bootPageErase]
  rw [if_neg fun h => ha h.symm, if_neg fun h => ha h.symm]

/-- The requests account for the address, with `n` words of a block still to be
read, and for the first word of flash. -/
structure Accounted (w : UInt16) (n : Nat) (c : Core) : Prop where
  waiting : .startSketch ∉ c.trace
  address : c.currAddress + .ofNat (2 * n) = address c.trace
  buffer : c.mem.buffer 0 = none
  word : resetWord c.mem = sketchWord w c.trace

/-- The boot mode is normal only if the host has asked for a block or there was
a sketch at reset. -/
structure Warranted (w : UInt16) (n : Nat) (c : Core) : Prop extends Accounted w n c where
  guarded : c.bootMode = .normalBoot → BlockAsked c.trace ∨ w ≠ 0xFFFF

/-- The same while page `a` is being programmed, with the address `n` bytes
behind: the data for page 0 are in the page buffer. -/
structure Programming (w : UInt16) (a : UInt32) (n : Nat) (c : Core) : Prop where
  waiting : .startSketch ∉ c.trace
  page : blockPage c.trace = some (pageOf (hwAddr a))
  address : c.currAddress + .ofNat n = address c.trace
  buffered : pageOf (hwAddr a) = 0 → (c.mem.buffer 0).getD 0xFFFF = sketchWord w c.trace
  word : pageOf (hwAddr a) ≠ 0 → resetWord c.mem = sketchWord w c.trace

variable {w : UInt16} {n : Nat} {a : UInt32} {c d : Core} {o : Obs}

theorem Accounted.currAddress (h : Accounted w 0 c) : c.currAddress = Launch.address c.trace :=
  (UInt32.add_zero _).symm.trans h.address

theorem Programming.asked (h : Programming w a n c) : BlockAsked c.trace := by
  rw [BlockAsked, h.page]
  rfl

theorem notMem_cons {t : List Obs} (h : .startSketch ∉ t) (ho : o ≠ .startSketch) :
    .startSketch ∉ o :: t := by
  simpa [ho.symm] using h

theorem notMem_silent {t : List Obs} (h : .startSketch ∉ t) (ho : counts o = false) :
    .startSketch ∉ o :: t :=
  notMem_cons h fun he => by rw [he] at ho; cases ho

theorem Accounted.silent (h : Accounted w n c) (ho : counts o = false)
    (ht : d.trace = o :: c.trace) (haddr : d.currAddress = c.currAddress)
    (hbuf : d.mem.buffer 0 = none) (hword : resetWord d.mem = resetWord c.mem) :
    Accounted w n d where
  waiting := by rw [ht]; exact notMem_silent h.waiting ho
  address := by rw [ht, address_silent ho, haddr, h.address]
  buffer := hbuf
  word := by rw [ht, sketchWord_silent ho, hword, h.word]

theorem Warranted.silent (h : Warranted w n c) (ho : counts o = false)
    (ht : d.trace = o :: c.trace) (haddr : d.currAddress = c.currAddress)
    (hmode : d.bootMode = c.bootMode) (hbuf : d.mem.buffer 0 = none)
    (hword : resetWord d.mem = resetWord c.mem) : Warranted w n d where
  toAccounted := h.toAccounted.silent ho ht haddr hbuf hword
  guarded hm := by
    rw [ht]
    exact (h.guarded (hmode ▸ hm)).imp_left fun hb => hb.cons o

theorem Programming.silent (h : Programming w a n c) (ho : counts o = false)
    (ht : d.trace = o :: c.trace) (haddr : d.currAddress = c.currAddress)
    (hbuf : d.mem.buffer 0 = c.mem.buffer 0)
    (hword : pageOf (hwAddr a) ≠ 0 → resetWord d.mem = resetWord c.mem) : Programming w a n d where
  waiting := by rw [ht]; exact notMem_silent h.waiting ho
  page := by rw [ht, blockPage_silent ho, h.page]
  address := by rw [ht, address_silent ho, haddr, h.address]
  buffered ha := by rw [ht, sketchWord_silent ho, hbuf, h.buffered ha]
  word ha := by rw [ht, sketchWord_silent ho, hword ha, h.word ha]

theorem Warranted.seekHigh (h : Warranted w 0 c) (hi : UInt8) :
    Warranted w 0 (Avr109.seekHigh hi c) where
  waiting := notMem_cons h.waiting nofun
  address := UInt32.add_zero _
  buffer := h.buffer
  word := h.word
  guarded hm := (h.guarded hm).imp_left fun hb => hb.cons _

theorem Warranted.seekLow (h : Warranted w 0 c) (lo : UInt8) :
    Warranted w 0 (Avr109.seekLow lo c) where
  waiting := notMem_cons h.waiting nofun
  address := (UInt32.add_zero _).trans (congrArg (· ||| addressLow lo) h.currAddress)
  buffer := h.buffer
  word := h.word
  guarded hm := (h.guarded hm).imp_left fun hb => hb.cons _

theorem Accounted.refuse (h : Accounted w 0 c) {memoryType : UInt8} (hm : memoryType ≠ ascii 'F')
    (command : UInt8) (size : UInt16) :
    Warranted w 0 (observe (.block command size memoryType) c) where
  waiting := notMem_cons h.waiting nofun
  address := by simpa [observe, Launch.address, hm] using h.address
  buffer := h.buffer
  word := by simpa [observe, sketchWord, hm] using h.word
  guarded _ := .inl rfl

theorem Accounted.load (h : Accounted w 0 c) (size : UInt16) :
    Warranted w (size.toNat / 2) (observe (.block (ascii 'g') size (ascii 'F')) c) where
  waiting := notMem_cons h.waiting nofun
  address := by rw [observe, Launch.address, if_pos ⟨rfl, rfl⟩, h.currAddress]
  buffer := h.buffer
  word := h.word
  guarded _ := .inl rfl

theorem Accounted.store (h : Accounted w 0 c) (size : UInt16) :
    Programming w c.currAddress 0 (observe (.block (ascii 'B') size (ascii 'F')) c) where
  waiting := notMem_cons h.waiting nofun
  page := by rw [observe, blockPage, h.currAddress]
  address := h.address
  buffered ha := by
    rw [h.currAddress] at ha
    rw [observe, sketchWord, if_pos ⟨rfl, rfl, ha⟩]
    exact congrArg (·.getD 0xFFFF) h.buffer
  word ha := by
    rw [h.currAddress] at ha
    rw [observe, sketchWord, if_neg fun hc => ha hc.2.2]
    exact h.word

theorem Warranted.skip (h : Warranted w (n + 1) c) : Warranted w n (advanceAddress c) where
  waiting := h.waiting
  address := by
    have haddr := h.address
    rw [show 2 * (n + 1) = 2 + 2 * n by omega, UInt32.ofNat_add, ← UInt32.add_assoc] at haddr
    exact haddr
  buffer := h.buffer
  word := h.word
  guarded := h.guarded

theorem Programming.fill (h : Programming w a 0 c) (low high : UInt8) :
    Programming w a 2 (fillData c.currAddress low high c) := by
  have haddr : c.currAddress = Launch.address c.trace := (UInt32.add_zero _).symm.trans h.address
  have hword : sketchWord w (fillData c.currAddress low high c).trace =
      if pageOf (hwAddr a) = 0 ∧ wordOf (hwAddr c.currAddress) = 0 then Words.word low high
      else sketchWord w c.trace := by
    rw [haddr, fillData, spm, observe, observe, sketchWord_silent rfl, sketchWord, h.page]
    simp only [Option.some_inj]
  refine ⟨notMem_cons (notMem_cons h.waiting nofun) nofun, h.page, ?_, ?_, ?_⟩
  · exact congrArg (· + 2) haddr
  · intro ha
    rw [hword, ← h.buffered ha]
    simp only [ha, true_and, fillData, spm, observe, Memory.bootPageFill, fillWord_eq]
    by_cases hw : wordOf (hwAddr c.currAddress) = 0
    · rw [if_pos hw, hw, Function.update_self, Option.getD_some]
    · rw [if_neg hw, Function.update_of_ne (Ne.symm hw)]
  · intro ha
    rw [hword, if_neg fun hc => ha hc.1]
    exact h.word ha

theorem Programming.advance (h : Programming w a 2 c) : Programming w a 0 (advanceAddress c) :=
  ⟨h.waiting, h.page, (UInt32.add_zero _).trans h.address, h.buffered, h.word⟩

theorem Programming.write (h : Programming w a 0 c) : Warranted w 0 (spm (.pageWrite a) c) where
  waiting := notMem_cons h.waiting nofun
  address := h.address
  buffer := rfl
  word := by
    rw [spm, observe, sketchWord_silent rfl, resetWord_bootPageWrite]
    split
    · next ha => exact h.buffered ha
    · next ha => exact h.word ha
  guarded _ := .inl (h.asked.cons _)

def sketchPoints (w : UInt16) : Points where
  idle := Warranted w 0
  asked := Accounted w 0
  enabling := Warranted w
  reading := Warranted w
  storing c := Programming w c.currAddress 0 c
  erased a := Programming w a 0
  filled a := Programming w a 2

def Accountable (w : UInt16) (m : Memory) (t : List Obs) : Prop :=
  resetWord m = sketchWord w t ∧ (BlockAsked t ∨ w ≠ 0xFFFF)

theorem sketch_phases (w : UInt16) : RequestPhases (Launched (Accountable w)) (sketchPoints w) where
  safe_idle _ h := launched_of_notMem h.waiting
  safe_asked _ h := launched_of_notMem h.waiting
  safe_enabling _ _ h := launched_of_notMem h.waiting
  safe_reading _ _ h := launched_of_notMem h.waiting
  safe_storing _ h := launched_of_notMem h.waiting
  safe_erased _ _ h := launched_of_notMem h.waiting
  safe_filled _ _ h := launched_of_notMem h.waiting
  dispatch_end _ _ h := h.silent rfl rfl rfl rfl h.buffer rfl
  dispatch _ _ _ _ h := h.silent rfl rfl rfl rfl h.buffer rfl
  exit _ h := h.toAccounted.silent rfl rfl rfl h.buffer rfl
  seekHigh hi _ h := h.seekHigh hi
  seekLow lo _ h := h.seekLow lo
  timsk1 _ _ h := ⟨⟨h.waiting, h.address, h.buffer, h.word⟩, h.guarded⟩
  refuse command size _ _ hm h := h.refuse hm command size
  load size _ h := h.load size
  load_timsk1 _ _ _ h := ⟨⟨h.waiting, h.address, h.buffer, h.word⟩, h.guarded⟩
  enable _ _ h := h.silent rfl rfl rfl rfl rfl rfl
  skip _ _ h := h.skip
  loaded _ h := h
  store size _ h := h.store size
  store_timsk1 _ _ h := ⟨h.waiting, h.page, h.address, h.buffered, h.word⟩
  erase c h := h.silent rfl rfl rfl rfl (resetWord_bootPageErase c.currAddress c.mem)
  fill _ low high _ h := h.fill low high
  advance _ _ h := h.advance
  write _ _ h := h.write

theorem warranted_task {f : Core → Core} (hf : TaskWrite f) (h : Warranted w 0 c) :
    Warranted w 0 (f c) := by
  have haddr := hf.currAddress c
  obtain ⟨hm, hb, ht | ⟨o, ho, ht⟩⟩ := hf.effect c
  · refine ⟨⟨?_, ?_, ?_, ?_⟩, ?_⟩
    · rw [ht]; exact h.waiting
    · rw [ht, haddr]; exact h.address
    · rw [hm]; exact h.buffer
    · rw [hm, ht]; exact h.word
    · rw [hb, ht]; exact h.guarded
  · refine h.silent ?_ ht haddr hb (by rw [hm]; exact h.buffer) (by rw [hm])
    cases o <;> first | rfl | cases ho

theorem warranted_reset (m : Memory) (packets : List Packet) (button : Bool) :
    Warranted (resetWord m) 0 (State.reset m packets button).core where
  waiting := List.not_mem_nil
  address := rfl
  buffer := rfl
  word := rfl
  guarded h := absurd (show BootMode.unset = .normalBoot from h) (by decide)

/-- When the sketch is entered, flash word 0 is programmed exactly if the host has
asked for no block, or has asked for a word other than 0xFFFF at the start of
flash: by its last block for page 0 or, without one, by leaving alone what was
there at reset. -/
theorem launch_programmed_iff (r : Reset) (m : Memory) (packets : List Packet) (button : Bool)
    (ms : List (Move Event)) (t : List Obs)
    (ht : .startSketch :: t <:+
      (exec handle (main r, State.reset m packets button) ms).2.core.trace) :
    resetWord (exec handle (main r, State.reset m packets button) ms).2.core.mem ≠ 0xFFFF ↔
      ¬ BlockAsked t ∨ sketchWord (resetWord m) t ≠ 0xFFFF := by
  have havailable : sketchAvailable m.reset = true → resetWord m ≠ 0xFFFF := by
    simp [sketchAvailable, Memory.pgmReadWord, Memory.pgmReadByte, Memory.reset, resetWord, hwAddr,
      flashSize]
  have hl := main_phases (sketch_phases (resetWord m)) (s := State.reset m packets button)
    (fun f hf c hc => warranted_task hf hc)
    (fun mode c hm hc => ⟨⟨hc.waiting, hc.address, hc.buffer, hc.word⟩,
      fun he => .inr (havailable (hm he))⟩)
    (fun c hc hs => launched_launch hs.waiting
      ⟨hs.word, hc.elim hs.guarded fun ha => .inr (havailable ha)⟩)
    r (warranted_reset m packets button) ms
  obtain ⟨hword, hguard⟩ := hl t ht
  rw [hword]
  constructor
  · exact .inr
  · rintro (hn | hw)
    · rw [sketchWord_of_not_asked _ hn]
      exact hguard.resolve_left hn
    · exact hw

theorem launch_programmed_upload :
    let s := oneSession (fun _ => 0xFF)
      ⟨[esc, ascii 'B', 0, 2, ascii 'F', 0x0C, 0x94, ascii 'E'], by decide⟩
    s.core.trace.head? = some .startSketch ∧ resetWord s.core.mem ≠ 0xFFFF := by
  have hl : (oneSession (fun _ => 0xFF)
      ⟨[esc, ascii 'B', 0, 2, ascii 'F', 0x0C, 0x94, ascii 'E'], by decide⟩).core.trace.head? =
      some .startSketch := by decide +kernel
  refine ⟨hl, ?_⟩
  rw [oneSession] at hl ⊢
  apply (launch_programmed_iff _ _ _ _ _ _ (suffix_of_head? hl)).mpr
  decide +kernel

/-- Without a sketch `main` means to stay, but an empty read of flash is
enough to make it jump. -/
theorem launch_blank :
    let s := oneSession (fun _ => 0xFF) ⟨[esc, ascii 'g', 0, 0, ascii 'F'], by decide⟩
    s.core.trace.head? = some .startSketch ∧ resetWord s.core.mem = 0xFFFF := by
  decide +kernel

end Adelino.Launch
