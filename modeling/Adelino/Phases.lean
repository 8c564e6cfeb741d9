import Adelino.Tasks

namespace Adelino.Phases

open Adelino.Program Adelino.Logic Adelino.Calls Adelino.Machine Adelino.UsbBytes Adelino.Streams
open Adelino.Avr109 Adelino.Frame Adelino.Tasks

/-- What is known at the points between requests and at those at which a
request has to be carried further: until the header of a block has come, before
RWW is re-enabled for an `E` or for a read of flash, while there are `n` words to
be read, before the page of a flash write is erased, while page `a` is being
filled, and when a word has been filled in but the address has not moved on yet. -/
structure Points where
  idle : Core → Prop
  asked : Core → Prop
  enabling : Nat → Core → Prop
  reading : Nat → Core → Prop
  storing : Core → Prop
  erased : UInt32 → Core → Prop
  filled : UInt32 → Core → Prop

/-- Points that do not tell how far a block has come. -/
def Points.coarse (I enabling storing : Core → Prop) (erased : UInt32 → Core → Prop) : Points where
  idle := I
  asked := I
  enabling _ := enabling
  reading _ := I
  storing := storing
  erased := erased
  filled := erased

/-- Every write of a request leads from one of the points to the next, and `G`
holds at all of them. -/
structure RequestPhases (G : Core → Prop) (p : Points) : Prop where
  safe_idle : ∀ c, p.idle c → G c
  safe_asked : ∀ c, p.asked c → G c
  safe_enabling : ∀ n c, p.enabling n c → G c
  safe_reading : ∀ n c, p.reading n c → G c
  safe_storing : ∀ c, p.storing c → G c
  safe_erased : ∀ a c, p.erased a c → G c
  safe_filled : ∀ a c, p.filled a c → G c
  dispatch_end : ∀ pos c, p.idle c → p.enabling 0 (observe (.dispatch pos (ascii 'E')) c)
  dispatch : ∀ pos command c, command ≠ ascii 'E' → p.idle c →
    p.idle (observe (.dispatch pos command) c)
  exit : ∀ c, p.idle c → p.asked (normalBoot c)
  seekHigh : ∀ hi c, p.idle c → p.idle (seekHigh hi c)
  seekLow : ∀ lo c, p.idle c → p.idle (seekLow lo c)
  timsk1 : ∀ v c, p.idle c → p.idle { c with timsk1 := v }
  refuse : ∀ command size memoryType c, memoryType ≠ ascii 'F' → p.asked c →
    p.idle (observe (.block command size memoryType) c)
  load : ∀ size c, p.asked c →
    p.enabling (size.toNat / 2) (observe (.block (ascii 'g') size (ascii 'F')) c)
  load_timsk1 : ∀ n v c, p.enabling n c → p.enabling n { c with timsk1 := v }
  enable : ∀ n c, p.enabling n c → p.reading n (spm .rwwEnable c)
  skip : ∀ n c, p.reading (n + 1) c → p.reading n (advanceAddress c)
  loaded : ∀ c, p.reading 0 c → p.idle c
  store : ∀ size c, p.asked c → p.storing (observe (.block (ascii 'B') size (ascii 'F')) c)
  store_timsk1 : ∀ v c, p.storing c → p.storing { c with timsk1 := v }
  erase : ∀ c, p.storing c → p.erased c.currAddress (spm (.pageErase c.currAddress) c)
  fill : ∀ a low high c, p.erased a c → p.filled a (fillData c.currAddress low high c)
  advance : ∀ a c, p.filled a c → p.erased a (advanceAddress c)
  write : ∀ a c, p.erased a c → p.idle (spm (.pageWrite a) c)

variable {A : State → Prop} {G I : Core → Prop} {p : Points}

theorem onCore_phase {P Q : Core → Prop} {f : Core → Core} (hP : ∀ c, P c → G c)
    (hQ : ∀ c, Q c → G c) (h : ∀ c, P c → Q (f c)) :
    Triple handle A (fun s => G s.core) (fun s => P s.core) (onCore f) (fun _ s => Q s.core) :=
  .act _ (stable_core P) (fun _ => stable_core Q) (fun s _ => hP s.core) (fun _ s _ => hQ s.core)
    fun s _ hs _ => h s.core hs

theorem readCurrAddress_phase {P : Core → Prop} (hP : ∀ c, P c → G c) :
    Triple handle A (fun s => G s.core) (fun s => P s.core) readCurrAddress
      fun a s => a = s.core.currAddress ∧ P s.core :=
  .act _ (stable_core P) (fun a => stable_core fun c => a = c.currAddress ∧ P c)
    (fun s _ => hP s.core) (fun _ s _ hs => hP s.core hs.2) fun _ _ hs _ => ⟨rfl, hs⟩

section Phases

variable (h : RequestPhases G p)
include h

theorem RequestPhases.quiet {α : Type} {f : Fw α} (hf : Keeps (fun s => p.idle s.core) f) :
    Triple handle A (fun s => G s.core) (fun s => p.idle s.core) f (fun _ s => p.idle s.core) :=
  Keeps.spec hf h.safe_idle

theorem RequestPhases.enableRww (n : Nat) :
    Triple handle A (fun s => G s.core) (fun s => p.enabling n s.core) (onCore (spm .rwwEnable))
      (fun _ s => p.reading n s.core) :=
  onCore_phase (h.safe_enabling n) (h.safe_reading n) (h.enable n)

theorem RequestPhases.readBlock (n : Nat) (highByte : Bool) :
    Triple handle A (fun s => G s.core) (fun s => p.reading ((n + highByte.toNat) / 2) s.core)
      (readBlock n highByte) (fun _ s => p.reading 0 s.core) := by
  induction n generalizing highByte with
  | zero =>
    rw [show (0 + highByte.toNat) / 2 = 0 by cases highByte <;> rfl]
    exact Keeps.spec (keeps_pure _ ()) (h.safe_reading 0)
  | succ n ih =>
    apply Triple.bind (Keeps.spec (keeps_read _ _) (h.safe_reading _))
    intro b
    apply Triple.bind (Keeps.spec (keeps_usbWriteByte (usbFree_core _) b) (h.safe_reading _))
    intro _
    cases highByte with
    | true =>
      rw [show (n + 1 + true.toNat) / 2 = n / 2 + 1 from Nat.add_div_right n Nat.two_pos]
      apply Triple.bind (onCore_phase (h.safe_reading _) (h.safe_reading _) (h.skip (n / 2)))
      intro _
      exact ih false
    | false =>
      apply Triple.bind (Keeps.spec (keeps_pure _ ()) (h.safe_reading _))
      intro _
      exact ih true

theorem RequestPhases.writeBlock (a : UInt32) (n : Nat) (highByte : Bool) (lowByte : UInt8) :
    Triple handle A (fun s => G s.core) (fun s => p.erased a s.core)
      (writeBlock n highByte lowByte) (fun _ s => p.erased a s.core) := by
  have hread : Triple handle A (fun s => G s.core) (fun s => p.erased a s.core) usbReadByte
      (fun _ s => p.erased a s.core) :=
    Keeps.spec (keeps_usbReadByte (usbFree_core _)) (h.safe_erased a)
  induction n generalizing highByte lowByte with
  | zero => exact Keeps.spec (keeps_pure _ ()) (h.safe_erased a)
  | succ n ih =>
    cases highByte with
    | true =>
      apply Triple.bind hread
      intro high
      apply Triple.bind (readCurrAddress_phase (h.safe_erased a))
      intro b
      apply Triple.bind (onCore_phase (P := fun c => b = c.currAddress ∧ p.erased a c)
        (fun c hc => h.safe_erased a c hc.2) (h.safe_filled a) ?_)
      · intro _
        apply Triple.bind (onCore_phase (h.safe_filled a) (h.safe_erased a) (h.advance a))
        intro _
        exact ih false lowByte
      · rintro c ⟨rfl, hc⟩
        exact h.fill a lowByte high c hc
    | false =>
      apply Triple.bind hread
      intro low
      exact ih true low

theorem RequestPhases.loads (n : Nat) :
    Triple handle A (fun s => G s.core) (fun s => p.enabling (n / 2) s.core)
      (do setTimsk1 false
          onCore (spm .rwwEnable)
          Avr109.readBlock n false
          setTimsk1 true) (fun _ s => p.idle s.core) := by
  apply Triple.bind (onCore_phase (h.safe_enabling _) (h.safe_enabling _) (h.load_timsk1 _ false))
  intro _
  apply Triple.bind (h.enableRww _)
  intro _
  apply Triple.bind (h.readBlock n false)
  intro _
  exact onCore_phase (h.safe_reading 0) h.safe_idle fun c hc => h.timsk1 true c (h.loaded c hc)

theorem RequestPhases.stores (n : Nat) :
    Triple handle A (fun s => G s.core) (fun s => p.storing s.core)
      (do setTimsk1 false
          let pageStartAddress ← readCurrAddress
          onCore (spm (.pageErase pageStartAddress))
          Avr109.writeBlock n false 0
          onCore (spm (.pageWrite pageStartAddress))
          usbWriteByte carriageReturn
          setTimsk1 true) (fun _ s => p.idle s.core) := by
  apply Triple.bind (onCore_phase h.safe_storing h.safe_storing (h.store_timsk1 false))
  intro _
  apply Triple.bind (readCurrAddress_phase h.safe_storing)
  intro a
  apply Triple.bind (onCore_phase (P := fun c => a = c.currAddress ∧ p.storing c)
    (fun c hc => h.safe_storing c hc.2) (h.safe_erased a) ?_)
  · intro _
    apply Triple.bind (h.writeBlock a n false 0)
    intro _
    apply Triple.bind (onCore_phase (h.safe_erased a) h.safe_idle (h.write a))
    intro _
    apply Triple.bind (h.quiet (keeps_usbWriteByte (usbFree_core p.idle) carriageReturn))
    intro _
    exact h.quiet fun s hs => h.timsk1 true s.core hs
  · rintro c ⟨rfl, hc⟩
    exact h.erase c hc

theorem RequestPhases.readWriteMemoryBlock {command : UInt8}
    (hc : command = ascii 'B' ∨ command = ascii 'g') :
    Triple handle A (fun s => G s.core) (fun s => p.asked s.core) (readWriteMemoryBlock command)
      (fun _ s => p.idle s.core) := by
  have hread : Triple handle A (fun s => G s.core) (fun s => p.asked s.core) usbReadByte
      (fun _ s => p.asked s.core) :=
    Keeps.spec (keeps_usbReadByte (usbFree_core p.asked)) h.safe_asked
  apply Triple.bind hread
  intro hi
  apply Triple.bind hread
  intro lo
  apply Triple.bind hread
  intro memoryType
  by_cases hm : memoryType = ascii 'F'
  · subst hm
    obtain rfl | rfl := hc
    · apply Triple.bind (onCore_phase h.safe_asked h.safe_storing (h.store _))
      intro _
      exact h.stores _
    · apply Triple.bind (onCore_phase h.safe_asked (h.safe_enabling _) (h.load (blockSize hi lo)))
      intro _
      exact h.loads _
  · apply Triple.bind (onCore_phase h.safe_asked h.safe_idle
      fun c => h.refuse command _ memoryType c hm)
    intro _
    rw [if_pos hm]
    exact h.quiet (keeps_usbWriteByte (usbFree_core p.idle) _)

theorem RequestPhases.avr109Command (command : UInt8) (hc : command ≠ ascii 'E') :
    Triple handle A (fun s => G s.core) (fun s => p.idle s.core) (avr109Command command)
      (fun _ s => p.idle s.core) := by
  by_cases hb : command = ascii 'B' ∨ command = ascii 'g'
  · rw [avr109Command_block hb]
    apply Triple.bind (h.quiet (keeps_setTimeout avrProgrammerTimeout))
    intro _
    apply Triple.bind (onCore_phase h.safe_idle h.safe_asked h.exit)
    intro _
    exact h.readWriteMemoryBlock hb
  · refine h.quiet (Built.keeps (built_avr109Command (usbFree_core p.idle).steps ?_
      (fun he => absurd he hc) fun hb' => absurd hb' hb))
    intro f hf s hs
    cases hf with
    | high hi => exact h.seekHigh hi s.core hs
    | low lo => exact h.seekLow lo s.core hs

theorem RequestPhases.dispatched (command : UInt8) :
    Triple handle A (fun s => G s.core) (fun s => p.idle s.core) (dispatched command)
      (fun _ s => p.idle s.core) := by
  have hflush : Triple handle A (fun s => G s.core) (fun s => p.idle s.core) usbFlush
      (fun _ s => p.idle s.core) := h.quiet (keeps_usbFlush (usbFree_core p.idle))
  by_cases hc : command = ascii 'E'
  · subst hc
    apply Triple.bind (R := fun _ s => p.enabling 0 s.core)
    · exact .act _ (stable_core p.idle) (fun _ => stable_core (p.enabling 0))
        (fun s _ => h.safe_idle s.core) (fun _ s _ => h.safe_enabling 0 s.core)
        fun s _ hs _ => h.dispatch_end _ s.core hs
    intro _
    refine Triple.bind ?_ fun _ => hflush
    apply Triple.bind (Keeps.spec (keeps_setTimeout _) (h.safe_enabling 0))
    intro _
    apply Triple.bind ((h.enableRww 0).post fun _ s hs => h.loaded s.core hs)
    intro _
    exact h.quiet (keeps_usbWriteByte (usbFree_core p.idle) carriageReturn)
  · refine Triple.bind (h.quiet fun s hs => h.dispatch _ command s.core hc hs) fun _ => ?_
    exact Triple.bind (h.avr109Command command hc) fun _ => hflush

theorem RequestPhases.avr109Programmer :
    Triple handle A (fun s => G s.core) (fun s => p.idle s.core) avr109Programmer
      (fun _ s => p.idle s.core) :=
  avr109Programmer_spec (stable_core p.idle) (fun s _ => h.safe_idle s.core) (usbFree_core p.idle)
    (keeps_setTimeout _) h.dispatched

end Phases

/-- An invariant `I` of the points at which the timer is not masked, with `J`
for those at which a block command masks it. -/
structure Masking (I J : Core → Prop) : Prop where
  dispatch : ∀ pos command c, I c → I (observe (.dispatch pos command) c)
  seek : ∀ f, AddressWrite f → ∀ c, I c → I (f c)
  enable : ∀ c, I c → I (spm .rwwEnable c)
  exit : ∀ c, I c → I (normalBoot c)
  block : ∀ command size memoryType c, I c → I (observe (.block command size memoryType) c)
  mask : ∀ c, I c → J { c with timsk1 := false }
  spm : ∀ op c, J c → J (Machine.spm op c)
  fill : ∀ a low high c, J c → J (fillData a low high c)
  advance : ∀ c, J c → J (advanceAddress c)
  unmask : ∀ c, J c → I { c with timsk1 := true }

section Masking

variable {J : Core → Prop} (h : Masking I J) (hI : ∀ c, I c → G c) (hJ : ∀ c, J c → G c)
include h hI hJ

/-- A block that is refused has not masked the timer; any other block unmasks
it at its end. -/
theorem Masking.readWriteMemoryBlock (command : UInt8) :
    Triple handle A (fun s => G s.core) (fun s => I s.core) (readWriteMemoryBlock command)
      (fun _ s => I s.core) := by
  have hread : Triple handle A (fun s => G s.core) (fun s => I s.core) usbReadByte
      (fun _ s => I s.core) := Keeps.spec (keeps_usbReadByte (usbFree_core I)) hI
  have hmasked {α : Type} {p : Fw α}
      (hp : Built (fun s t : State => J s.core → J t.core) noProcedures p) :
      Triple handle A (fun s => G s.core) (fun s => J s.core) p (fun _ s => J s.core) :=
    Keeps.spec hp.keeps hJ
  have hfree : UsbSteps fun s t : State => J s.core → J t.core := (usbFree_core J).steps
  have hspm (op : SpmOp) : Triple handle A (fun s => G s.core) (fun s => J s.core)
      (onCore (Machine.spm op)) (fun _ s => J s.core) := onCore_phase hJ hJ (h.spm op)
  apply Triple.bind hread
  intro hi
  apply Triple.bind hread
  intro lo
  apply Triple.bind hread
  intro memoryType
  apply Triple.bind (onCore_phase hI hI (h.block command (blockSize hi lo) memoryType))
  intro _
  refine Triple.ite (fun _ => ?_) fun _ => ?_
  · exact Keeps.spec (keeps_usbWriteByte (usbFree_core I) _) hI
  apply Triple.bind (onCore_phase hI hJ h.mask)
  intro _
  refine Triple.ite (fun _ => ?_) fun _ => ?_
  · apply Triple.bind (hspm _)
    intro _
    apply Triple.bind (hmasked (built_readBlock hfree (fun s hs => h.advance s.core hs) _ _))
    intro _
    exact onCore_phase hJ hI h.unmask
  · apply Triple.bind (hmasked (built_read hfree.refl _))
    intro a
    apply Triple.bind (hspm _)
    intro _
    apply Triple.bind (hmasked (built_writeBlock hfree (fun s hs => h.advance s.core hs)
      (fun a low high s hs => h.fill a low high s.core hs) _ _ _))
    intro _
    apply Triple.bind (hspm _)
    intro _
    apply Triple.bind (hmasked (built_usbWriteByte hfree _))
    intro _
    exact onCore_phase hJ hI h.unmask

theorem Masking.dispatched (command : UInt8) :
    Triple handle A (fun s => G s.core) (fun s => I s.core) (dispatched command)
      (fun _ s => I s.core) := by
  have hfree : UsbFree fun s => I s.core := usbFree_core I
  refine Triple.bind (Keeps.spec (fun s hs => h.dispatch _ command s.core hs) hI) fun _ => ?_
  refine Triple.bind ?_ fun _ => Keeps.spec (keeps_usbFlush hfree) hI
  by_cases hb : command = ascii 'B' ∨ command = ascii 'g'
  · rw [avr109Command_block hb]
    apply Triple.bind (Keeps.spec (keeps_setTimeout _) hI)
    intro _
    apply Triple.bind (onCore_phase hI hI h.exit)
    intro _
    exact h.readWriteMemoryBlock hI hJ command
  · refine Keeps.spec (Built.keeps (built_avr109Command hfree.steps (fun f hf s hs => ?_)
      (fun _ => ?_) fun hb' => absurd hb' hb)) hI
    · exact h.seek f hf s.core hs
    · refine built_bind (built_modify fun _ hs => hs) fun _ => ?_
      refine built_bind (built_modify fun s hs => h.enable s.core hs) fun _ => ?_
      exact built_usbWriteByte hfree.steps _

theorem Masking.avr109Programmer :
    Triple handle A (fun s => G s.core) (fun s => I s.core) avr109Programmer
      (fun _ s => I s.core) :=
  avr109Programmer_spec (stable_core I) (fun s _ => hI s.core) (usbFree_core I) (keeps_setTimeout _)
    (h.dispatched hI hJ)

end Masking

end Adelino.Phases
