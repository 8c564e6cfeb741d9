import Adelino.Sessions

namespace Adelino.Containment

open Adelino.Program Adelino.Progress Adelino.Endpoint Adelino.Machine Adelino.Streams
open Adelino.UsbProgress Adelino.Execution Adelino.Avr109 Adelino.Protocol Adelino.Commands
open Adelino.Block Adelino.CommandLoop Adelino.Board Adelino.Refinement Adelino.Sessions

/-- The bytes interpreted as commands, with their places in the OUT stream, in
the order in which that happened. -/
def dispatches (trace : List Obs) : List (Nat × UInt8) :=
  trace.reverse.filterMap fun
    | .dispatch pos command => some (pos, command)
    | _ => none

/-- Where the command bytes of `reqs` are when the first request is at `pos`. -/
def frames : Nat → List Request → List (Nat × UInt8)
  | _, [] => []
  | pos, r :: rs => (pos, r.command) :: frames (pos + r.bytes.length) rs

theorem dispatches_observe_dispatch (pos : Nat) (command : UInt8) (c : Core) :
    dispatches (observe (.dispatch pos command) c).trace =
      dispatches c.trace ++ [(pos, command)] := by
  simp [dispatches, observe]

theorem dispatches_spm (op : SpmOp) (c : Core) :
    dispatches (spm op c).trace = dispatches c.trace := by
  simp [dispatches, spm, observe]

theorem dispatches_fillWords (data : List UInt8) (c : Core) :
    dispatches (fillWords data c).trace = dispatches c.trace := by
  induction data, c using fillWords.induct with
  | case1 lo hi data c ih =>
    refine ih.trans ((dispatches_spm _ _).trans ?_)
    simp [dispatches, observe]
  | case2 data c h => rw [fillWords.eq_2 _ _ h]

theorem dispatches_effect (r : Request) (c : Core) :
    dispatches (effect r c).trace = dispatches c.trace := by
  have hnote (command hi lo memoryType : UInt8) :
      dispatches (noteBlock command hi lo memoryType c).trace = dispatches c.trace := by
    simp [dispatches, noteBlock, normalBoot, observe]
  cases r with
  | bare command hc =>
    simp only [effect]
    split
    · exact dispatches_spm _ c
    · rfl
  | single command hc x => rfl
  | setAddress hi lo => simp [dispatches, effect, seekHigh, seekLow, observe]
  | readFlash hi lo memoryType =>
    simp only [effect]
    split
    · rw [loadBlock, trace_dumpAdvance, loadCore, dispatches_spm]
      exact hnote _ _ _ _
    · exact hnote _ _ _ _
  | writeFlash hi lo memoryType data hl =>
    simp only [effect]
    split
    · rw [storeBlock, dispatches_spm, dispatches_fillWords, eraseCore, dispatches_spm]
      exact hnote _ _ _ _
    · exact hnote _ _ _ _

theorem dispatches_serveAll (reqs : List Request) (rest : List UInt8) (v : View)
    (hc : ∀ r ∈ reqs, consumed r = r.args) :
    dispatches (serveAll reqs rest v).core.trace =
      dispatches v.core.trace ++ frames v.got.length reqs := by
  induction reqs generalizing v with
  | nil => simp [serveAll, frames]
  | cons r rs ih =>
    have hr := hc r (List.mem_cons_self ..)
    rw [serveAll, ih _ fun r' h => hc r' (List.mem_cons_of_mem _ h), serve, dispatches_effect,
      dispatches_observe_dispatch, hr]
    simp [frames, Request.bytes]

theorem dispatches_prefix {t u : List Obs} (h : t <:+ u) : dispatches t <+: dispatches u :=
  (List.reverse_prefix.mpr h).filterMap _

/-- Requests whose arguments the firmware knows how to skip. -/
def Contained : Request → Prop
  | .single command _ _ => command = ascii 'T'
  | .writeFlash _ _ memoryType data _ => memoryType = ascii 'F' ∨ data = []
  | _ => True

theorem consumed_of_contained {r : Request} (h : Contained r) : consumed r = r.args := by
  cases r with
  | bare command hc => rfl
  | single command hc x => exact if_pos h
  | setAddress hi lo => rfl
  | readFlash hi lo memoryType => rfl
  | writeFlash hi lo memoryType data hl =>
    rw [consumed]
    split
    · rfl
    case isFalse hm => rw [Request.args, h.resolve_left hm]

theorem args_of_not_contained {r : Request} (h : ¬ Contained r) :
    ∃ x left, r.args = consumed r ++ x :: left := by
  cases r with
  | bare command hc => exact absurd trivial h
  | single command hc x => exact ⟨x, [], by rw [consumed, if_neg (show ¬ command = _ from h)]; rfl⟩
  | setAddress hi lo => exact absurd trivial h
  | readFlash hi lo memoryType => exact absurd trivial h
  | writeFlash hi lo memoryType data hl =>
    obtain ⟨hm, hd⟩ := not_or.mp h
    cases data with
    | nil => exact absurd rfl hd
    | cons x left => exact ⟨x, left, by rw [consumed, if_neg hm]; rfl⟩

def refused : Request → Bool
  | .bare command _ => bareReply command = [ascii '?']
  | .single command _ _ => command ≠ ascii 'T'
  | .setAddress _ _ => false
  | .readFlash _ _ memoryType => memoryType ≠ ascii 'F'
  | .writeFlash _ _ memoryType _ _ => memoryType ≠ ascii 'F'

theorem reply_of_refused {r : Request} (h : refused r = true) (d : Device) :
    d.reply r = [ascii '?'] := by
  cases r with
  | bare command hc => exact of_decide_eq_true h
  | single command hc x => exact if_neg (by simpa [refused] using h)
  | setAddress hi lo => cases h
  | readFlash hi lo memoryType => exact if_neg (by simpa [refused] using h)
  | writeFlash hi lo memoryType data hl => exact if_neg (by simpa [refused] using h)

theorem serve_of_refused {r : Request} (h : refused r = true) (d : Device) : d.serve r = d := by
  cases r with
  | bare command hc => rfl
  | single command hc x => rfl
  | setAddress hi lo => cases h
  | readFlash hi lo memoryType => exact if_neg (by simpa [refused] using h)
  | writeFlash hi lo memoryType data hl => exact if_neg (by simpa [refused] using h)

theorem serveAll_filter (reqs : List Request) (d : Device) :
    d.serveAll (reqs.filter fun r => !refused r) = d.serveAll reqs := by
  induction reqs generalizing d with
  | nil => rfl
  | cons r rs ih =>
    cases hr : refused r with
    | true =>
      rw [List.filter_cons_of_neg (by simp [hr]), ih, Device.serveAll, Device.serveAll,
        List.foldl_cons, serve_of_refused hr]
    | false =>
      rw [List.filter_cons_of_pos (by simp [hr])]
      exact ih (d.serve r)

theorem replies_append (pre post : List Request) (d : Device) :
    d.replies (pre ++ post) = d.replies pre ++ (d.serveAll pre).replies post := by
  induction pre generalizing d with
  | nil => rfl
  | cons r rs ih =>
    rw [List.cons_append, Device.replies, ih, Device.replies, List.append_assoc]
    rfl

/-- Only the first byte of a request is ever taken for a command; the answer to
a refused request is the fail code; and flash and address end up as if the
refused requests had not been sent. -/
structure KeptApart (reqs : List Request) (σ : Nat → Move Event) (s : State) : Prop where
  dispatch : ∀ n, AliveUntil σ s n → ∃ done,
    dispatches (programmerAt σ s n).2.core.trace = dispatches s.core.trace ++ done ∧
      done <+: frames s.usb.got.length reqs
  answer : ∀ n, AliveUntil σ s n → AtRest (programmerAt σ s n) → ∀ pre r post,
    reqs = pre ++ r :: post → refused r = true →
      (programmerAt σ s n).2.usb.written = s.usb.written ++ ((deviceOf s.core).replies pre ++
        ascii '?' :: ((deviceOf s.core).serveAll pre).replies post)
  effect : ∀ n, AliveUntil σ s n → AtRest (programmerAt σ s n) →
    deviceOf (programmerAt σ s n).2.core =
      (deviceOf s.core).serveAll (reqs.filter fun r => !refused r)
  rests : Rests σ s

theorem keptApart_of_contained {reqs : List Request} {σ : Nat → Move Event} {s : State}
    (hr : ∀ r ∈ reqs, Contained r) (hσ : Fair σ) (h0 : σ 0 = .cpu) (hi : Idle s.core)
    (hu : s.usb.unread = stream reqs) : KeptApart reqs σ s := by
  have hc : ∀ r ∈ reqs, consumed r = r.args := fun r h => consumed_of_contained (hr r h)
  obtain ⟨hsession, hw⟩ := requests_session hc hu
  have hsettle := requests_settle hc hσ h0 hi hu
  refine ⟨?_, ?_, ?_, hsettle.rests⟩
  · intro n ha
    obtain ⟨hle, hle'⟩ := programmer_safe h0 hsession hw n ha
    obtain ⟨done, hd⟩ := dispatches_prefix hle.trace
    refine ⟨done, hd.symm, ?_⟩
    have hp := dispatches_prefix hle'.trace
    rw [dispatches_serveAll reqs [] _ hc, ← hd] at hp
    exact (List.prefix_append_right_inj _).mp hp
  · rintro n ha hrest pre r post rfl hrefused
    rw [(hsettle.result n ha hrest).1, replies_append, Device.replies, reply_of_refused hrefused,
      serve_of_refused hrefused]
    rfl
  · intro n ha hrest
    rw [(hsettle.result n ha hrest).2, serveAll_filter]

theorem frames_append (pos : Nat) (pre post : List Request) :
    frames pos (pre ++ post) = frames pos pre ++ frames (pos + (stream pre).length) post := by
  induction pre generalizing pos with
  | nil => simp [frames, stream]
  | cons r rs ih =>
    rw [List.cons_append, frames, ih, frames, List.cons_append]
    simp [stream, Nat.add_assoc]

theorem not_keptApart (pre post : List Request) {r : Request} {σ : Nat → Move Event} {s : State}
    (hpre : ∀ r ∈ pre, Contained r) (hr : ¬ Contained r) (hσ : Fair σ) (h0 : σ 0 = .cpu)
    (hu : s.usb.unread = stream (pre ++ r :: post)) (ha : ∀ n, AliveUntil σ s n) :
    ¬ KeptApart (pre ++ r :: post) σ s := by
  intro hk
  have hc : ∀ r ∈ pre, consumed r = r.args := fun r h => consumed_of_contained (hpre r h)
  obtain ⟨x, left, hargs⟩ := args_of_not_contained hr
  let rest := left ++ stream post
  have hv : (view s).unread = stream pre ++ (r.command :: (consumed r ++ x :: rest)) := by
    refine Eq.trans hu ?_
    simp [stream, Request.bytes, hargs, rest]
  let v := serveAll pre (r.command :: (consumed r ++ x :: rest)) (view s)
  have hvu : v.unread = r.command :: (consumed r ++ x :: rest) := unread_serveAll pre _ _ hv
  have hsession : Session (view s) (serve r (x :: rest) v) := by
    refine (session_serveAll pre _ _ hc hv).trans
      (.turn ?_ (avr109Request_executes r _ v hvu) (.refl _))
    rw [show (serveAll pre _ (view s)).unread = _ from hvu]
    exact List.cons_ne_nil _ _
  obtain ⟨n, hn⟩ := programmer_dispatches h0 hσ hsession rfl ha
  obtain ⟨done, hd, hp⟩ := hk.dispatch n (ha n)
  have hgot : v.got.length = s.usb.got.length + (stream pre).length := by
    rw [show v.got = (view s).got ++ stream pre from got_serveAll pre _ _ hc, List.length_append]
    rfl
  have htrace : dispatches (programmerAt σ s n).2.core.trace = dispatches s.core.trace ++
      (frames s.usb.got.length pre ++ [(v.got.length, r.command),
        (v.got.length + ((consumed r).length + 1), x)]) := by
    rw [show (programmerAt σ s n).2.core = (dispatch x rest (serve r (x :: rest) v)).core from
      congrArg View.core hn]
    rw [dispatch, View.mapCore, dispatches_observe_dispatch, View.readByte, serve,
      dispatches_effect, dispatches_observe_dispatch, dispatches_serveAll pre _ _ hc]
    simp [view, v]
  rw [htrace] at hd
  rw [← List.append_cancel_left hd, frames_append, List.prefix_append_right_inj, frames, hgot,
    List.prefix_cons_inj] at hp
  cases post with
  | nil => exact absurd hp (by simp [frames])
  | cons q qs =>
    rw [frames, List.cons_prefix_cons] at hp
    have hpos := congrArg Prod.fst hp.1
    simp [Request.bytes, hargs] at hpos

theorem exists_first_uncontained {reqs : List Request} (h : ¬ ∀ r ∈ reqs, Contained r) :
    ∃ pre r post, reqs = pre ++ r :: post ∧ (∀ r ∈ pre, Contained r) ∧ ¬ Contained r := by
  induction reqs with
  | nil => exact absurd (fun r hr => nomatch hr) h
  | cons r rs ih =>
    by_cases hr : Contained r
    · have hrs : ¬ ∀ r ∈ rs, Contained r := fun hall =>
        h (List.forall_mem_cons.mpr ⟨hr, hall⟩)
      obtain ⟨pre, q, post, rfl, hpre, hq⟩ := ih hrs
      exact ⟨r :: pre, q, post, rfl, List.forall_mem_cons.mpr ⟨hr, hpre⟩, hq⟩
    · exact ⟨[], r, rs, rfl, fun r hr => (nomatch hr), hr⟩

/-- A sequence of requests is kept apart in all its sessions exactly when none
of them is a block refused with its data still to come, or a command with an
argument that the firmware does not know. -/
theorem keptApart_iff (reqs : List Request) :
    (∀ σ s, Fair σ → σ 0 = .cpu → Idle s.core → s.usb.unread = stream reqs →
      KeptApart reqs σ s) ↔ ∀ r ∈ reqs, Contained r := by
  constructor
  · intro h
    by_contra hn
    obtain ⟨pre, r, post, rfl, hpre, hr⟩ := exists_first_uncontained hn
    let s := ready (fun _ => 0xFF) (bytewise (stream (pre ++ r :: post)))
    have hu : s.usb.unread = stream (pre ++ r :: post) := unread_bytewise _ _
    exact not_keptApart pre post hpre hr fair_roundRobin rfl hu
      (aliveUntil_roundRobin (alive_ready _ _))
      (h roundRobin s fair_roundRobin rfl (idle_ready _ _) hu)
  · intro hr σ s hσ h0 hi hu
    exact keptApart_of_contained hr hσ h0 hi hu

/-- A one-byte EEPROM block whose data happens to be the letter `E`. -/
def eepromBlock : Request := .writeFlash 0 1 (ascii 'E') [ascii 'E'] (by decide)

theorem eepromBlock_escapes :
    let s := ready (fun _ => 0xFF) (bytewise (stream [eepromBlock]))
    Idle s.core ∧ s.usb.unread = stream [eepromBlock] ∧
      dispatches (programmerAt roundRobin s 400).2.core.trace = [(0, ascii 'B'), (4, ascii 'E')] ∧
      ¬ KeptApart [eepromBlock] roundRobin s := by
  refine ⟨idle_ready _ _, unread_bytewise _ _, by decide +kernel, ?_⟩
  refine not_keptApart [] [] (fun r hr => nomatch hr) ?_ fair_roundRobin rfl
    (unread_bytewise _ _) (aliveUntil_roundRobin (alive_ready _ _))
  simp [Contained, eepromBlock, ascii]

end Adelino.Containment
