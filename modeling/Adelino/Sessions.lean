import Adelino.CommandLoop
import Adelino.Refinement

namespace Adelino.Sessions

open Adelino.Program Adelino.Progress Adelino.Endpoint Adelino.Machine Adelino.Streams
  Adelino.UsbSpec
open Adelino.UsbProgress Adelino.Execution Adelino.Avr109 Adelino.Protocol Adelino.Commands
open Adelino.CommandLoop Adelino.Board Adelino.Refinement

def stream (reqs : List Request) : List UInt8 := reqs.flatMap Request.bytes

/-- The view after all of `reqs`, when `rest` follows them. -/
def serveAll : List Request → List UInt8 → View → View
  | [], _, v => v
  | r :: rs, rest, v => serveAll rs rest (serve r (stream rs ++ rest) v)

theorem session_serveAll (reqs : List Request) (rest : List UInt8) (v : View)
    (hc : ∀ r ∈ reqs, consumed r = r.args) (hu : v.unread = stream reqs ++ rest) :
    Session v (serveAll reqs rest v) := by
  induction reqs generalizing v with
  | nil => exact .refl v
  | cons r rs ih =>
    have hr := hc r (List.mem_cons_self ..)
    have hv : v.unread = r.command :: (consumed r ++ (stream rs ++ rest)) := by
      rw [hu, hr]
      simp [stream, Request.bytes]
    refine .turn (by rw [hv]; exact List.cons_ne_nil _ _) (avr109Request_executes r _ v hv) ?_
    exact ih _ (fun r' h => hc r' (List.mem_cons_of_mem _ h)) rfl

theorem unread_serveAll (reqs : List Request) (rest : List UInt8) (v : View)
    (hu : v.unread = stream reqs ++ rest) : (serveAll reqs rest v).unread = rest := by
  induction reqs generalizing v with
  | nil => exact hu
  | cons r rs ih => exact ih _ rfl

theorem got_serveAll (reqs : List Request) (rest : List UInt8) (v : View)
    (hc : ∀ r ∈ reqs, consumed r = r.args) :
    (serveAll reqs rest v).got = v.got ++ stream reqs := by
  induction reqs generalizing v with
  | nil => simp [serveAll, stream]
  | cons r rs ih =>
    rw [serveAll, ih _ fun r' h => hc r' (List.mem_cons_of_mem _ h), serve,
      hc r (List.mem_cons_self ..)]
    simp [stream, Request.bytes]

theorem serveAll_refines (reqs : List Request) (rest : List UInt8) (v : View) (hi : Idle v.core) :
    Idle (serveAll reqs rest v).core ∧
    deviceOf (serveAll reqs rest v).core = (deviceOf v.core).serveAll reqs ∧
    (serveAll reqs rest v).written = v.written ++ (deviceOf v.core).replies reqs := by
  induction reqs generalizing v with
  | nil => exact ⟨hi, rfl, by simp [serveAll, Device.replies]⟩
  | cons r rs ih =>
    let c := observe (.dispatch v.got.length r.command) v.core
    have hc : Idle c := idle_observe _ _ hi
    have hd : deviceOf (effect r c) = (deviceOf v.core).serve r := device_effect r c hc
    obtain ⟨h1, h2, h3⟩ := ih (serve r (stream rs ++ rest) v) (idle_effect r c hc)
    refine ⟨h1, ?_, ?_⟩
    · rw [serveAll, h2, serve, hd]
      rfl
    · rw [serveAll, h3, serve, hd, Device.replies, reply_eq r v.core hi, List.append_assoc]

theorem stream_append (pre post : List Request) :
    stream (pre ++ post) = stream pre ++ stream post := by
  simp [stream]

theorem serveAll_concat (done : List Request) (r : Request) (rest : List UInt8) (v : View) :
    serveAll (done ++ [r]) rest v = serve r rest (serveAll done (stream [r] ++ rest) v) := by
  induction done generalizing v with
  | nil => rfl
  | cons q done ih =>
    rw [List.cons_append, serveAll, ih, stream_append, List.append_assoc]
    rfl

/-- A beginning of `reqs` has been served, and the rest is to come. -/
def ServedUpTo (reqs : List Request) (v u : View) : Prop :=
  ∃ done rest, reqs = done ++ rest ∧ u = serveAll done (stream rest) v

theorem servedUpTo_chain {reqs : List Request} {v : View} (hc : ∀ r ∈ reqs, consumed r = r.args)
    (hu : v.unread = stream reqs) : Chain (ServedUpTo reqs v) := by
  rintro u ⟨done, rest, rfl, rfl⟩
  have hrest : (serveAll done (stream rest) v).unread = stream rest :=
    unread_serveAll done _ v (hu.trans (stream_append done rest))
  cases rest with
  | nil => exact .inl hrest
  | cons r rest =>
    have hr := hc r (List.mem_append_right done (List.mem_cons_self ..))
    refine .inr ⟨_, avr109Request_executes r (stream rest) _ ?_, done ++ [r], rest, by simp, ?_⟩
    · rw [hrest, hr]
      simp [stream, Request.bytes]
    · rw [serveAll_concat, ← stream_append, List.singleton_append]

/-- A configured board whose host has the given packets to send. -/
def ready (flash : Nat → UInt8) (packets : List Packet) : State :=
  let s := State.reset (.ofFlash flash) packets false
  { s with
    core := { s.core with timsk1 := true, rxcie1 := true, sreg := true }
    timer.timeout := 1
    usb.deviceState := .configured }

theorem alive_ready (flash : Nat → UInt8) (packets : List Packet) : Alive (ready flash packets) :=
  ⟨show (1 : UInt8) ≠ 0 by decide, fun h => nomatch h⟩

theorem idle_ready (flash : Nat → UInt8) (packets : List Packet) :
    Idle (ready flash packets).core :=
  ⟨fun _ => rfl, rfl⟩

def bytewise (bytes : List UInt8) : List Packet :=
  bytes.map fun b => ⟨[b], by simp [cdcTxRxEpSize]⟩

theorem unread_bytewise (flash : Nat → UInt8) (bytes : List UInt8) :
    (ready flash (bytewise bytes)).usb.unread = bytes := by
  induction bytes with
  | nil => rfl
  | cons b bs ih => exact congrArg (b :: ·) ih

/-- The requests the firmware implements. -/
def Supported : Request → Prop
  | .bare command _ =>
    command = esc ∨ command ∈ ['E', 'L', 'P', 't', 'a', 'p', 'S', 'V', 's', 'b'].map ascii
  | .single command _ _ => command = ascii 'T'
  | .setAddress _ _ => True
  | .readFlash _ _ memoryType => memoryType = ascii 'F'
  | .writeFlash _ _ memoryType _ _ => memoryType = ascii 'F'

theorem consumed_of_supported {r : Request} (h : Supported r) : consumed r = r.args := by
  cases r with
  | bare command hc => rfl
  | single command hc x => exact if_pos h
  | setAddress hi lo => rfl
  | readFlash hi lo memoryType => rfl
  | writeFlash hi lo memoryType data hl => exact if_pos h

/-- From `s` to `t` the OUT bytes were read in order and once each, from banks
that held some and were released empty, and what was written is the beginning
of `out`. -/
structure Orderly (s t : State) (out : List UInt8) : Prop where
  read : ∃ bytes, t.usb.got = s.usb.got ++ bytes ∧ s.usb.unread = bytes ++ t.usb.unread
  underruns : t.usb.underruns = s.usb.underruns
  discarded : t.usb.discarded = s.usb.discarded
  dropped : t.usb.dropped = s.usb.dropped
  written : ∃ bytes, t.usb.written = s.usb.written ++ bytes ∧ bytes <+: out

/-- When the session is at rest `out` has been replied, and flash and address
are as in `d`. -/
structure Settles (σ : Nat → Move Event) (s : State) (out : List UInt8) (d : Device) : Prop where
  rests : Rests σ s
  result : ∀ n, AliveUntil σ s n → AtRest (programmerAt σ s n) →
    (programmerAt σ s n).2.usb.written = s.usb.written ++ out ∧
      deviceOf (programmerAt σ s n).2.core = d

theorem orderly_of_le {s t : State} {w : View} {out : List UInt8} (h : Le (view s) (view t))
    (h' : Le (view t) w) (hw : w.written = s.usb.written ++ out) : Orderly s t out where
  read := by
    obtain ⟨bytes, hb⟩ := h.got
    refine ⟨bytes, hb.symm, ?_⟩
    have hs : s.usb.got ++ s.usb.unread = t.usb.got ++ t.usb.unread := h.stream
    rw [show t.usb.got = s.usb.got ++ bytes from hb.symm, List.append_assoc] at hs
    exact List.append_cancel_left hs
  underruns := h.underruns.symm
  discarded := h.discarded.symm
  dropped := h.dropped.symm
  written := by
    obtain ⟨bytes, hb⟩ := h.written
    have hp : t.usb.written <+: w.written := h'.written
    rw [hw, show t.usb.written = s.usb.written ++ bytes from hb.symm,
      List.prefix_append_right_inj] at hp
    exact ⟨bytes, hb.symm, hp⟩

section Requests

variable {σ : Nat → Move Event} {s : State} {reqs : List Request}

theorem requests_session (hc : ∀ r ∈ reqs, consumed r = r.args) (hu : s.usb.unread = stream reqs) :
    Session (view s) (serveAll reqs [] (view s)) ∧ (serveAll reqs [] (view s)).unread = [] := by
  have hv : (view s).unread = stream reqs ++ [] := by rw [List.append_nil]; exact hu
  exact ⟨session_serveAll reqs [] _ hc hv, unread_serveAll reqs [] _ hv⟩

theorem requests_orderly (hc : ∀ r ∈ reqs, consumed r = r.args) (h0 : σ 0 = .cpu) (hi : Idle s.core)
    (hu : s.usb.unread = stream reqs) (n : Nat) (ha : AliveUntil σ s n) :
    Orderly s (programmerAt σ s n).2 ((deviceOf s.core).replies reqs) := by
  obtain ⟨hsession, hw⟩ := requests_session hc hu
  obtain ⟨hle, hle'⟩ := programmer_safe h0 hsession hw n ha
  exact orderly_of_le hle hle' (serveAll_refines reqs [] (view s) hi).2.2

theorem requests_top (hc : ∀ r ∈ reqs, consumed r = r.args) (h0 : σ 0 = .cpu) (hi : Idle s.core)
    (hu : s.usb.unread = stream reqs) {n : Nat} (ha : AliveUntil σ s n)
    (htop : (programmerAt σ s n).1 = avr109Loop) :
    ∃ done rest, reqs = done ++ rest ∧ (programmerAt σ s n).2.usb.unread = stream rest ∧
      (programmerAt σ s n).2.usb.written = s.usb.written ++ (deviceOf s.core).replies done ∧
      deviceOf (programmerAt σ s n).2.core = (deviceOf s.core).serveAll done := by
  obtain ⟨done, rest, rfl, hv⟩ :=
    programmer_top (N := ServedUpTo reqs (view s)) h0 (servedUpTo_chain hc hu)
    ⟨[], reqs, rfl, rfl⟩ n ha htop
  obtain ⟨-, hd, hw⟩ := serveAll_refines done (stream rest) (view s) hi
  refine ⟨done, rest, rfl, ?_, ?_, ?_⟩
  · exact (congrArg View.unread hv).trans
      (unread_serveAll done _ _ (hu.trans (stream_append done rest)))
  · exact (congrArg View.written hv).trans hw
  · exact (congrArg (fun v : View => deviceOf v.core) hv).trans hd

theorem requests_rest (hc : ∀ r ∈ reqs, consumed r = r.args) (h0 : σ 0 = .cpu) (hi : Idle s.core)
    (hu : s.usb.unread = stream reqs) {n : Nat} (ha : AliveUntil σ s n)
    (hrest : AtRest (programmerAt σ s n)) :
    (programmerAt σ s n).2.usb.written = s.usb.written ++ (deviceOf s.core).replies reqs ∧
      deviceOf (programmerAt σ s n).2.core = (deviceOf s.core).serveAll reqs := by
  obtain ⟨done, rest, rfl, hun, hw, hd⟩ := requests_top hc h0 hi hu ha hrest.1
  obtain rfl : rest = [] := by
    rw [hrest.2] at hun
    cases rest with
    | nil => rfl
    | cons r rest => simp [stream, Request.bytes] at hun
  rw [List.append_nil]
  exact ⟨hw, hd⟩

theorem requests_settle (hc : ∀ r ∈ reqs, consumed r = r.args) (hσ : Fair σ) (h0 : σ 0 = .cpu)
    (hi : Idle s.core) (hu : s.usb.unread = stream reqs) :
    Settles σ s ((deviceOf s.core).replies reqs) ((deviceOf s.core).serveAll reqs) := by
  obtain ⟨hsession, hw⟩ := requests_session hc hu
  exact ⟨programmer_rests h0 hσ hsession hw, fun n ha hr => requests_rest hc h0 hi hu ha hr⟩

end Requests

/-- A session of supported requests: however the host cuts its bytes into
packets, the replies come in order and complete, and no byte is lost, repeated
or made up on the way. -/
theorem session_replies (reqs : List Request) (hr : ∀ r ∈ reqs, Supported r)
    (σ : Nat → Move Event) (hσ : Fair σ) (h0 : σ 0 = .cpu) (s : State) (hi : Idle s.core)
    (hu : s.usb.unread = stream reqs) :
    (∀ n, AliveUntil σ s n → Orderly s (programmerAt σ s n).2 ((deviceOf s.core).replies reqs)) ∧
    Settles σ s ((deviceOf s.core).replies reqs) ((deviceOf s.core).serveAll reqs) ∧
    ∀ (σ' : Nat → Move Event) (s' : State), σ' 0 = .cpu → Idle s'.core →
      s'.usb.unread = s.usb.unread → deviceOf s'.core = deviceOf s.core →
      ∀ n n', AliveUntil σ s n → AtRest (programmerAt σ s n) →
        AliveUntil σ' s' n' → AtRest (programmerAt σ' s' n') →
        (∃ out, (programmerAt σ s n).2.usb.written = s.usb.written ++ out ∧
          (programmerAt σ' s' n').2.usb.written = s'.usb.written ++ out) ∧
        deviceOf (programmerAt σ s n).2.core = deviceOf (programmerAt σ' s' n').2.core := by
  have hc : ∀ r ∈ reqs, consumed r = r.args := fun r h => consumed_of_supported (hr r h)
  refine ⟨fun n ha => requests_orderly hc h0 hi hu n ha, requests_settle hc hσ h0 hi hu, ?_⟩
  intro σ' s' h0' hi' hu' hd n n' ha hrest ha' hrest'
  obtain ⟨hw₁, hd₁⟩ := requests_rest hc h0 hi hu ha hrest
  obtain ⟨hw₂, hd₂⟩ := requests_rest hc h0' hi' (hu'.trans hu) ha' hrest'
  rw [hd] at hw₂ hd₂
  exact ⟨⟨_, hw₁, hw₂⟩, hd₁.trans hd₂.symm⟩

theorem exists_rest_roundRobin {s : State} (ha : Alive s) (h : Rests roundRobin s) :
    ∃ n, AtRest (programmerAt roundRobin s n) := by
  obtain ⟨n, -, hn⟩ | ⟨n, hn, -⟩ := h
  · exact ⟨n, hn⟩
  · exact absurd (aliveUntil_roundRobin ha n) hn

def cutRequests : State :=
  ready (fun i => i.toUInt8) [⟨[ascii 'S', ascii 'g', 0], by decide⟩, ⟨[], by decide⟩,
    ⟨[2, ascii 'F'], by decide⟩]

theorem session_replies_cut :
    ∃ n, AtRest (programmerAt roundRobin cutRequests n) ∧
      (programmerAt roundRobin cutRequests n).2.usb.written = softwareIdentifier ++ [0, 1] ∧
      (programmerAt roundRobin cutRequests n).2.core.currAddress = 2 := by
  have hsettle := (session_replies [.bare (ascii 'S') (by decide), .readFlash 0 2 (ascii 'F')]
    (by simp [Supported]) roundRobin fair_roundRobin rfl cutRequests (idle_ready _ _) rfl).2.1
  obtain ⟨n, hn⟩ := exists_rest_roundRobin (alive_ready _ _) hsettle.rests
  obtain ⟨hw, hd⟩ := hsettle.result n (aliveUntil_roundRobin (alive_ready _ _) n) hn
  exact ⟨n, hn, hw, congrArg Device.address hd⟩

end Adelino.Sessions
