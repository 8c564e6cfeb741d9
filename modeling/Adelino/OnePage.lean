import Adelino.Launch

namespace Adelino.OnePage

open Adelino.Program Adelino.Logic Adelino.Calls Adelino.Flash Adelino.Endpoint Adelino.Machine
open Adelino.UsbBytes Adelino.Streams Adelino.Avr109 Adelino.Main Adelino.Frame Adelino.Tasks
open Adelino.Phases Adelino.Launch Adelino.Refinement

/-- The observations of a block write to flash, on top of those before it. -/
def storing (pos : Nat) (size : UInt16) (t : List Obs) : List Obs :=
  .block (ascii 'B') size (ascii 'F') :: .exitRequest :: .dispatch pos (ascii 'B') :: t

/-- All that a command that was dispatched at `c₀` has done to flash. -/
structure OnlyPage (command : UInt8) (c₀ c : Core) : Prop where
  trace : c₀.trace <:+ c.trace
  flash : ∀ i, c.mem.flash i ≠ c₀.mem.flash i →
    command = ascii 'B' ∧ pageOf i = pageOf (hwAddr c₀.currAddress) ∧
      ∃ pos size, storing pos size c₀.trace <:+ c.trace

variable {c₀ : Core} {command : UInt8}

structure Untouched (c₀ c : Core) : Prop where
  trace : c₀.trace <:+ c.trace
  flash : c.mem.flash = c₀.mem.flash

theorem Untouched.onlyPage {c : Core} (h : Untouched c₀ c) : OnlyPage command c₀ c :=
  ⟨h.trace, fun i hi => absurd (congrFun h.flash i) hi⟩

theorem Untouched.observe {c : Core} (h : Untouched c₀ c) (o : Obs) : Untouched c₀ (observe o c) :=
  ⟨h.trace.trans (List.suffix_cons o c.trace), h.flash⟩

theorem untouched_quiet {f : Core → Core} (hf : QuietWrite f) {c : Core} (h : Untouched c₀ c) :
    Untouched c₀ (f c) := by
  cases hf with
  | block command size memoryType => exact h.observe _
  | exit => exact ⟨h.trace.trans (List.suffix_cons _ _), h.flash⟩
  | rwwEnable => exact ⟨h.trace.trans (List.suffix_cons _ _), h.flash⟩
  | seekHigh hi => exact ⟨h.trace.trans (List.suffix_cons _ _), h.flash⟩
  | seekLow lo => exact ⟨h.trace.trans (List.suffix_cons _ _), h.flash⟩
  | _ => exact ⟨h.trace, h.flash⟩

theorem keeps_untouched (hc : command ≠ ascii 'B') :
    Keeps (fun s => Untouched c₀ s.core) (dispatched command) := by
  have hfree : UsbFree fun s => Untouched c₀ s.core := usbFree_core _
  have hquiet (f : Core → Core) (hf : QuietWrite f) (s : State) (hs : Untouched c₀ s.core) :
      Untouched c₀ (f s.core) := untouched_quiet hf hs
  refine Built.keeps (built_bind (built_modify fun s hs => hs.observe _) fun _ => ?_)
  refine built_bind ?_ fun _ => built_usbFlush hfree.steps
  exact built_quietCommand hfree.steps hquiet (fun _ => built_modify fun _ hs => hs) hc

/-- The command `B` before it has erased anything. -/
def Unerased (obs : Nat → List Obs) (c₀ c : Core) : Prop :=
  c.mem.flash = c₀.mem.flash ∧ c.currAddress = c₀.currAddress ∧ ∃ pos, c.trace = obs pos ++ c₀.trace

theorem Unerased.onlyPage {obs : Nat → List Obs} {c : Core} (h : Unerased obs c₀ c) :
    OnlyPage command c₀ c := by
  obtain ⟨hf, -, pos, ht⟩ := h
  refine Untouched.onlyPage ⟨?_, hf⟩
  rw [ht]
  exact List.suffix_append _ _

/-- The page at the address of `c₀` is the only one that may have changed. -/
structure Changing (c₀ c : Core) : Prop where
  trace : ∃ pos size, storing pos size c₀.trace <:+ c.trace
  flash : ∀ i, pageOf i ≠ pageOf (hwAddr c₀.currAddress) → c.mem.flash i = c₀.mem.flash i

theorem Changing.onlyPage {c : Core} (h : Changing c₀ c) : OnlyPage (ascii 'B') c₀ c := by
  obtain ⟨pos, size, ht⟩ := h.trace
  refine ⟨?_, fun i hi => ⟨rfl, by_contra fun hp => hi (h.flash i hp), pos, size, ht⟩⟩
  exact List.IsSuffix.trans ⟨[_, _, _], rfl⟩ ht

theorem Changing.spm {c : Core} (h : Changing c₀ c) (op : SpmOp)
    (ho : ∀ i, pageOf i ≠ pageOf (hwAddr c₀.currAddress) →
      (spm op c).mem.flash i = c.mem.flash i) : Changing c₀ (spm op c) := by
  obtain ⟨pos, size, ht⟩ := h.trace
  refine ⟨⟨pos, size, ht.trans (List.suffix_cons _ _)⟩, fun i hi => ?_⟩
  exact (ho i hi).trans (h.flash i hi)

theorem Changing.observe {c : Core} (h : Changing c₀ c) (o : Obs) : Changing c₀ (observe o c) := by
  obtain ⟨pos, size, ht⟩ := h.trace
  exact ⟨⟨pos, size, ht.trans (List.suffix_cons _ _)⟩, h.flash⟩

theorem keeps_changing_writeBlock (n : Nat) (highByte : Bool) (lowByte : UInt8) :
    Keeps (fun s => Changing c₀ s.core) (writeBlock n highByte lowByte) := by
  refine (built_writeBlock (usbFree_core (Changing c₀)).steps ?_ ?_ n highByte lowByte).keeps
  · exact fun s hs => ⟨hs.trace, hs.flash⟩
  · exact fun a low high s hs => (hs.observe (.data low high)).spm (.pageFill a _) fun _ _ => rfl

section Store

variable {G : Core → Prop}

theorem store_onlyPage (size : UInt16) :
    Triple handle (fun _ => True) (fun s => OnlyPage (ascii 'B') c₀ s.core)
      (fun s => Unerased (fun pos => storing pos size []) c₀ s.core)
      (do let pageStartAddress ← readCurrAddress
          onCore (spm (.pageErase pageStartAddress))
          writeBlock size.toNat false 0
          onCore (spm (.pageWrite pageStartAddress))
          usbWriteByte carriageReturn
          setTimsk1 true) (fun _ s => OnlyPage (ascii 'B') c₀ s.core) := by
  have hchanging (c : Core) : Changing c₀ c → OnlyPage (ascii 'B') c₀ c := Changing.onlyPage
  apply Triple.bind (R := fun a s => a = c₀.currAddress ∧
    Unerased (fun pos => storing pos size []) c₀ s.core)
  · refine .act _ (stable_core _)
      (fun a => stable_core fun c => a = c₀.currAddress ∧
        Unerased (fun pos => storing pos size []) c₀ c)
      (fun _ _ hs => hs.onlyPage) (fun _ _ _ hs => hs.2.onlyPage) ?_
    exact fun s _ hs _ => ⟨hs.2.1, hs⟩
  intro a
  apply Triple.of_pure
  intro ha
  subst ha
  apply Triple.bind (onCore_phase (Q := Changing c₀) (fun _ hc => hc.onlyPage) hchanging _)
  · intro _
    apply Triple.bind (Keeps.spec (keeps_changing_writeBlock _ _ _) hchanging)
    intro _
    apply Triple.bind (onCore_phase hchanging hchanging fun c hc =>
      hc.spm (.pageWrite c₀.currAddress) fun i hi => if_neg hi)
    intro _
    apply Triple.bind (Keeps.spec (keeps_usbWriteByte (usbFree_core _) _) hchanging)
    intro _
    exact onCore_phase hchanging (fun _ hc => hc) fun _ hc => Changing.onlyPage ⟨hc.trace, hc.flash⟩
  · rintro c ⟨hf, -, pos, ht⟩
    have hc : Changing c₀ c := ⟨⟨pos, size, ⟨[], ht.symm⟩⟩, fun i _ => congrFun hf i⟩
    exact hc.spm (.pageErase c₀.currAddress) fun i hi => if_neg hi

theorem dispatched_store :
    Triple handle (fun _ => True) (fun s => OnlyPage (ascii 'B') c₀ s.core) (fun s => s.core = c₀)
      (dispatched (ascii 'B')) (fun _ s => OnlyPage (ascii 'B') c₀ s.core) := by
  have hpending (obs : Nat → List Obs) (c : Core) : Unerased obs c₀ c → OnlyPage (ascii 'B') c₀ c :=
    Unerased.onlyPage
  have hread (obs : Nat → List Obs) : Triple handle (fun _ => True)
      (fun s => OnlyPage (ascii 'B') c₀ s.core) (fun s => Unerased obs c₀ s.core) usbReadByte
      (fun _ s => Unerased obs c₀ s.core) :=
    Keeps.spec (keeps_usbReadByte (usbFree_core _)) (hpending obs)
  have hanswer (obs : Nat → List Obs) (b : UInt8) : Triple handle (fun _ => True)
      (fun s => OnlyPage (ascii 'B') c₀ s.core) (fun s => Unerased obs c₀ s.core) (usbWriteByte b)
      (fun _ s => OnlyPage (ascii 'B') c₀ s.core) :=
    (Keeps.spec (keeps_usbWriteByte (usbFree_core _) b) (hpending obs)).post
      fun _ s hs => hs.onlyPage
  apply Triple.bind (R := fun _ s => Unerased (fun pos => [.dispatch pos (ascii 'B')]) c₀ s.core)
  · refine .act _ (stable_core fun c => c = c₀) (fun _ => stable_core _) ?_
      (fun _ _ _ hs => hs.onlyPage) ?_
    · intro s _ hs
      exact Untouched.onlyPage ⟨⟨[], by rw [hs]; rfl⟩, by rw [hs]⟩
    · rintro s - rfl -
      exact ⟨rfl, rfl, s.usb.got.length - 1, rfl⟩
  intro _
  refine Triple.bind ?_ fun _ => Keeps.spec (keeps_usbFlush (usbFree_core _)) fun _ hc => hc
  rw [avr109Command_block (.inl rfl)]
  apply Triple.bind (Keeps.spec (keeps_setTimeout _) (hpending _))
  intro _
  apply Triple.bind (onCore_phase
    (Q := Unerased (fun pos => [.exitRequest, .dispatch pos (ascii 'B')]) c₀) (hpending _)
      (hpending _) _)
  · intro _
    apply Triple.bind (hread _)
    intro hi
    apply Triple.bind (hread _)
    intro lo
    apply Triple.bind (hread _)
    intro memoryType
    apply Triple.bind
      (onCore_phase (Q := Unerased (fun pos => [.block (ascii 'B') (blockSize hi lo) memoryType,
      .exitRequest, .dispatch pos (ascii 'B')]) c₀) (hpending _) (hpending _) _)
    · intro _
      apply Triple.ite
      · intro _
        exact hanswer _ _
      · intro hm
        rw [not_not] at hm
        subst hm
        refine Triple.bind (Keeps.spec (fun _ hs => hs) (hpending _)) fun _ => ?_
        exact store_onlyPage (blockSize hi lo)
    · rintro c ⟨hf, ha, pos, ht⟩
      exact ⟨hf, ha, pos, congrArg _ ht⟩
  · rintro c ⟨hf, ha, pos, ht⟩
    exact ⟨hf, ha, pos, congrArg _ ht⟩

end Store

theorem dispatched_spec (command : UInt8) (c₀ : Core) :
    Triple handle (fun _ => True) (fun s => OnlyPage command c₀ s.core) (fun s => s.core = c₀)
      (dispatched command) (fun _ s => OnlyPage command c₀ s.core) := by
  by_cases hc : command = ascii 'B'
  · subst hc
    exact dispatched_store
  · have hkeep : Triple handle (fun _ => True) (fun s => OnlyPage command c₀ s.core)
        (fun s => Untouched c₀ s.core) (dispatched command) fun _ s => Untouched c₀ s.core :=
      Keeps.spec (keeps_untouched hc) fun _ hu => hu.onlyPage
    refine (hkeep.pre fun s hs => ?_).post fun _ s hs => hs.onlyPage
    rw [hs]
    exact ⟨List.suffix_refl _, rfl⟩

theorem built_dispatching :
    Built (fun s t : State => t.core = s.core) Dispatches avr109Programmer :=
  built_avr109Programmer ⟨fun _ => rfl, fun _ _ _ _ _ => rfl⟩ (fun _ _ => built_modify fun _ => rfl)
    fun command => .call (.command command)

/-- On the way from `c` to `d` a block write to the page of `i` was requested. -/
def PageRequested (c d : Fw Unit × State) (i : Nat) (t : List Obs) : Prop :=
  ∃ e, Runs handle (fun _ => True) c e ∧ Runs handle (fun _ => True) e d ∧
    Active (dispatched (ascii 'B')) e.1 ∧ pageOf i = pageOf (hwAddr e.2.core.currAddress) ∧
    ∃ pos size, storing pos size e.2.core.trace <:+ t

theorem PageRequested.mono {c d : Fw Unit × State} {i : Nat} {t t' : List Obs}
    (h : PageRequested c d i t) (ht : t <:+ t') : PageRequested c d i t' := by
  obtain ⟨e, hce, hed, ha, hp, pos, size, hs⟩ := h
  exact ⟨e, hce, hed, ha, hp, pos, size, hs.trans ht⟩

theorem requested_of_session {s : State} {d : Fw Unit × State}
    (h : Runs handle (fun _ => True) (avr109Programmer, s) d) (i : Nat)
    (hi : d.2.core.mem.flash i ≠ s.core.mem.flash i) :
    PageRequested (avr109Programmer, s) d i d.2.core.trace := by
  let J (c : Core) : Prop := ∀ j, c.mem.flash j ≠ s.core.mem.flash j →
    PageRequested (avr109Programmer, s) d j c.trace
  let W (β : Type) (f : Fw β) (t : State) : Prop :=
    ∃ e, Runs handle (fun _ => True) (avr109Programmer, s) e ∧
      Runs handle (fun _ => True) e d ∧ Active f e.1 ∧ e.2 = t
  -- a call changes nothing but the page at which it was begun
  have hcall (β : Type) (f q : Fw β) (t u : State) (hf : Dispatches β f) (ht : J t.core)
      (hw : W β f t) (hr : Runs handle (fun _ => True) (f, t) (q, u)) : J u.core := by
    cases hf with
    | command command =>
      intro j hj
      have hpage := (dispatched_spec command t.core t trivial rfl _ hr).1
      by_cases hjt : u.core.mem.flash j = t.core.mem.flash j
      · rw [hjt] at hj
        exact (ht j hj).mono hpage.trace
      · obtain ⟨rfl, hp, hs⟩ := hpage.flash j hjt
        obtain ⟨e, hce, hed, ha, rfl⟩ := hw
        exact ⟨e, hce, hed, ha, hp, hs⟩
  have hdoing := built_dispatching.doing (I := fun t => J t.core) (W := W) (stable_core J)
    (fun t u hu _ ht => by rw [hu]; exact ht)
    (fun β f t a u hf _ ht hw hr => hcall β f _ t u hf ht hw hr) trivial
    (fun j hj => absurd rfl hj) (fun e hce hed β q _ ha => ⟨e, hce, hed, ha, rfl⟩) h
  obtain hd | ⟨β, f, q, t, hc⟩ := hdoing.elim
  · exact hd i hi
  · exact hcall β f q t d.2 hc.procedure hc.begun hc.marked hc.run i hi

def Even (c : Core) : Prop := c.currAddress.toNat % 2 = 0

theorem even_phases : RequestPhases Even (.coarse Even Even Even fun _ => Even) where
  safe_idle _ h := h
  safe_asked _ h := h
  safe_enabling _ _ h := h
  safe_reading _ _ h := h
  safe_storing _ h := h
  safe_erased _ _ h := h
  safe_filled _ _ h := h
  dispatch_end _ _ h := h
  dispatch _ _ _ _ h := h
  exit _ h := h
  seekHigh hi _ _ := even_addressHigh hi
  seekLow lo _ h := even_or_addressLow lo h
  timsk1 _ _ h := h
  refuse _ _ _ _ _ h := h
  load _ _ h := h
  load_timsk1 _ _ _ h := h
  enable _ _ h := h
  skip _ c h := even_add c.currAddress 1 h
  loaded _ h := h
  store _ _ h := h
  store_timsk1 _ _ h := h
  erase _ h := h
  fill _ _ _ _ h := h
  advance _ c h := even_add c.currAddress 1 h
  write _ _ h := h

theorem or_highByte (a : UInt32) (h : a.toNat % 2 = 0) (highByte : Bool) :
    (a ||| if highByte then 1 else 0) = a + if highByte then 1 else 0 := by
  cases highByte with
  | false => simp
  | true =>
    apply UInt32.toNat_inj.mp
    have hlt := a.toNat_lt
    rw [if_pos rfl, toNat_or_one a h, UInt32.toNat_add, show (1 : UInt32).toNat = 1 from rfl]
    omega

/-- Whatever the host sends: a session changes flash only in pages at which a
block write to flash was requested, an interpreted command changes only the
page at the address it finds, if it is such a write, and the address is that
of a word at all times. -/
theorem one_page_per_write :
    (∀ s d, Runs handle (fun _ => True) (avr109Programmer, s) d →
      ∀ i, d.2.core.mem.flash i ≠ s.core.mem.flash i →
        PageRequested (avr109Programmer, s) d i d.2.core.trace) ∧
    (∀ command s d, Runs handle (fun _ => True) (dispatched command, s) d →
      ∀ i, d.2.core.mem.flash i ≠ s.core.mem.flash i →
        command = ascii 'B' ∧ pageOf i = pageOf (hwAddr s.core.currAddress) ∧
          ∃ pos size, storing pos size s.core.trace <:+ d.2.core.trace) ∧
    ∀ r m packets button ms,
      let a := (exec handle (main r, State.reset m packets button) ms).2.core.currAddress
      a.toNat % 2 = 0 ∧
        ∀ highByte : Bool, (a ||| if highByte then 1 else 0) = a + if highByte then 1 else 0 := by
  refine ⟨fun s d h i hi => requested_of_session h i hi, ?_, ?_⟩
  · intro command s d h i hi
    exact (dispatched_spec command s.core s trivial rfl d h).1.flash i hi
  · intro r m packets button ms a
    have heven : a.toNat % 2 = 0 :=
      main_phases even_phases (s := State.reset m packets button)
        (fun f hf c hc => by cases hf <;> exact hc) (fun _ _ _ hc => hc) (fun _ _ hc => hc) r rfl ms
    exact ⟨heven, or_highByte a heven⟩

end Adelino.OnePage
