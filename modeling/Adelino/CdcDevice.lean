import Adelino.DescriptorBytes

namespace Adelino.CdcDevice

open Adelino.Descriptors Adelino.DescriptorBytes Adelino.ControlPipe

/-- The requests that the device knows, by what they are for. -/
inductive RequestKind
  | getLineEncoding
  | setLineEncoding
  | setControlLineState
  | getStatus
  | setFeature (halt : Bool)
  | setAddress
  | getDescriptor
  | getConfiguration
  | setConfiguration
  | unsupported
  deriving DecidableEq, Repr

def decode (r : RequestHeader) : RequestKind :=
  match r.bmRequestType, r.bRequest with
  | 0xA1, 0x21 => .getLineEncoding
  | 0x21, 0x20 => .setLineEncoding
  | 0x21, 0x22 => .setControlLineState
  | 0x82, 0x00 => .getStatus
  | 0x02, 0x01 => .setFeature false
  | 0x02, 0x03 => .setFeature true
  | 0x00, 0x05 => .setAddress
  | 0x80, 0x06 => .getDescriptor
  | 0x81, 0x06 => .getDescriptor
  | 0x80, 0x08 => .getConfiguration
  | 0x00, 0x09 => .setConfiguration
  | _, _ => .unsupported

def RequestKind.reads : RequestKind → Bool
  | .getLineEncoding | .getStatus | .getDescriptor | .getConfiguration => true
  | _ => false

theorem deviceToHost_decode {r : RequestHeader} (h : decode r ≠ .unsupported) :
    r.deviceToHost = (decode r).reads := by
  obtain ⟨⟨type, request, wValue, wIndex⟩, wLength⟩ := r
  generalize hq : decode _ = q at h ⊢
  simp only [decode] at hq
  split at hq <;> subst hq
  case h_12 => exact absurd rfl h
  all_goals simp [RequestHeader.deviceToHost, RequestKind.reads]
  all_goals decide

theorem isSetAddress_decode (t : Transfer) :
    t.isSetAddress = decide (decode t.header = .setAddress) := by
  obtain ⟨⟨⟨type, request, wValue, wIndex⟩, wLength⟩, data⟩ := t
  generalize hq : decode _ = q
  simp only [decode] at hq
  split at hq <;> subst hq <;> simp [Transfer.isSetAddress]
  grind

theorem setFeature_decode {r : RequestHeader} {stall : Bool} (h : decode r = .setFeature stall) :
    r.bmRequestType = 0x02 ∧ stall = decide (r.bRequest = 0x03) := by
  obtain ⟨⟨type, request, wValue, wIndex⟩, wLength⟩ := r
  simp only [decode] at h
  split at h <;> cases h
  · exact ⟨rfl, rfl⟩
  · exact ⟨rfl, rfl⟩

theorem getStatus_decode {r : RequestHeader} (h : decode r = .getStatus) :
    r.bmRequestType = 0x82 := by
  obtain ⟨⟨type, request, wValue, wIndex⟩, wLength⟩ := r
  simp only [decode] at h
  split at h <;> cases h
  rfl

@[ext]
structure Cdc where
  address : UInt8
  configuration : UInt8
  lineEncoding : List UInt8
  identity : DeviceDescriptor
  enabled : UInt8 → Bool
  halted : UInt8 → Bool
  flash : Nat → UInt8

inductive Reply
  | data (bytes : List UInt8)
  | accepted
  | refused
  deriving DecidableEq, Repr

/-- What the host sees of a reply: no more than it asked for. -/
def Reply.outcome (t : Transfer) : Reply → Outcome
  | .data bytes => .completed (bytes.take t.wLength)
  | .accepted => .completed []
  | .refused => .stalled

def recipient (r : RequestHeader) : UInt8 := r.wIndex.toUInt8 &&& 0x07

section Service

variable (t : Transfer) (c : Cdc)

def describe : Reply × Cdc :=
  let identity := shadowVidPidFromSketch c.flash c.identity
  match (respond t.header.wValue identity).address with
  | none => (.refused, { c with identity })
  | some descriptor => (.data (descriptorBytes descriptor), { c with identity })

/-- The control endpoint can not be halted, and a halt of an endpoint that is
not in use is accepted without effect. -/
def halt (stall : Bool) : Reply × Cdc :=
  if t.header.wValue.toUInt8 ≠ 0 then (.accepted, c)
  else if recipient t.header = 0 then (.refused, c)
  else if c.enabled (recipient t.header) then
    (.accepted, { c with halted := Function.update c.halted (recipient t.header) stall })
  else (.accepted, c)

/-- Any configuration, even none, brings the three endpoints of the data and
the notification interface into use. -/
def configure : Reply × Cdc :=
  if t.header.wValue.toUInt8 > 1 then (.refused, c)
  else
    (.accepted, { c with
      configuration := t.header.wValue.toUInt8
      enabled := fun n =>
        c.enabled n || n = cdcNotificationEpnum || n = cdcTxEpnum || n = cdcRxEpnum })

def serve : Reply × Cdc :=
  match decode t.header with
  | .getLineEncoding => (.data c.lineEncoding, c)
  | .setLineEncoding => (.accepted, { c with lineEncoding := t.data })
  | .setControlLineState => (.accepted, c)
  | .getStatus => (.data [if c.halted (recipient t.header) then 1 else 0, 0], c)
  | .setFeature stall => halt t c stall
  | .setAddress => (.accepted, { c with address := t.newAddress })
  | .getDescriptor => describe t c
  | .getConfiguration => (.data [c.configuration], c)
  | .setConfiguration => configure t c
  | .unsupported => (.refused, c)

end Service

def serveAll : List Transfer → Cdc → List (Transfer × Outcome) × Cdc
  | [], c => ([], c)
  | t :: ts, c =>
    let (reply, c) := serve t c
    let (log, c) := serveAll ts c
    ((t, reply.outcome t) :: log, c)

/-- The lengths that go with the requests. What is not supported may have any. -/
def WellFormed (t : Transfer) : Prop :=
  match decode t.header with
  | .getLineEncoding | .getDescriptor | .getConfiguration => 1 ≤ t.wLength
  | .getStatus => 2 ≤ t.wLength
  | .setLineEncoding => t.wLength = 7 ∧ t.data.length = 7
  | .setControlLineState | .setFeature _ | .setAddress | .setConfiguration => t.wLength = 0
  | .unsupported => True

instance (t : Transfer) : Decidable (WellFormed t) := by
  unfold WellFormed
  split <;> infer_instance

theorem serveAll_append (ts us : List Transfer) (c : Cdc) :
    serveAll (ts ++ us) c =
      ((serveAll ts c).1 ++ (serveAll us (serveAll ts c).2).1,
        (serveAll us (serveAll ts c).2).2) := by
  induction ts generalizing c with
  | nil => rfl
  | cons t ts ih => simp only [List.cons_append, serveAll, ih]

theorem serveAll_concat (ts : List Transfer) (t : Transfer) (c : Cdc) :
    serveAll (ts ++ [t]) c =
      ((serveAll ts c).1 ++ [(t, (serve t (serveAll ts c).2).1.outcome t)],
        (serve t (serveAll ts c).2).2) :=
  serveAll_append ts [t] c

theorem length_serveAll (ts : List Transfer) (c : Cdc) : (serveAll ts c).1.length = ts.length := by
  induction ts generalizing c with
  | nil => rfl
  | cons t ts ih => simp only [serveAll, List.length_cons, ih]

theorem getElem?_serveAll (ts : List Transfer) (c : Cdc) (i : Nat) :
    (serveAll ts c).1[i]? =
      ts[i]?.map fun t => (t, (serve t (serveAll (ts.take i) c).2).1.outcome t) := by
  induction ts generalizing c i with
  | nil => rfl
  | cons t ts ih =>
    cases i with
    | zero => rfl
    | succ i => exact ih (serve t c).2 i

section Memory

def lineEncodingAfter (ts : List Transfer) (initial : List UInt8) : List UInt8 :=
  ts.foldl (fun e t => if decode t.header = .setLineEncoding then t.data else e) initial

theorem lineEncoding_serve (t : Transfer) (c : Cdc) : (serve t c).2.lineEncoding =
    if decode t.header = .setLineEncoding then t.data else c.lineEncoding := by
  rw [serve]
  cases hq : decode t.header with
  | setFeature stall =>
    simp only [halt]
    split_ifs <;> simp_all
  | getDescriptor =>
    simp only [describe]
    split <;> simp
  | setConfiguration =>
    simp only [configure]
    split_ifs <;> simp_all
  | _ => simp

theorem lineEncoding_serveAll (ts : List Transfer) (c : Cdc) :
    (serveAll ts c).2.lineEncoding = lineEncodingAfter ts c.lineEncoding := by
  induction ts generalizing c with
  | nil => rfl
  | cons t ts ih =>
    rw [lineEncodingAfter, List.foldl_cons, ← lineEncoding_serve t c]
    exact ih _

theorem shadow_idem (flash : Nat → UInt8) (d : DeviceDescriptor) :
    shadowVidPidFromSketch flash (shadowVidPidFromSketch flash d) =
      shadowVidPidFromSketch flash d := by
  refine shadowVidPidFromSketch_of_size flash _ ?_
  by_cases h : d.size = 0
  · rw [size_shadowVidPidFromSketch flash d h]
    decide
  · rw [shadowVidPidFromSketch_of_size flash d h]
    exact h

/-- Flash, and the identity that the sketch in it gives to the device. -/
def SameIdentity (c c' : Cdc) : Prop :=
  c'.flash = c.flash ∧
    shadowVidPidFromSketch c.flash c'.identity = shadowVidPidFromSketch c.flash c.identity

theorem sameIdentity_serve (t : Transfer) (c : Cdc) : SameIdentity c (serve t c).2 := by
  rw [serve]
  cases decode t.header with
  | setFeature stall =>
    simp only [halt]
    split_ifs <;> exact ⟨rfl, rfl⟩
  | getDescriptor =>
    simp only [describe]
    split <;> exact ⟨rfl, shadow_idem _ _⟩
  | setConfiguration =>
    simp only [configure]
    split_ifs <;> exact ⟨rfl, rfl⟩
  | _ => exact ⟨rfl, rfl⟩

theorem sameIdentity_serveAll (ts : List Transfer) (c : Cdc) :
    SameIdentity c (serveAll ts c).2 := by
  induction ts generalizing c with
  | nil => exact ⟨rfl, rfl⟩
  | cons t ts ih =>
    obtain ⟨hf, hi⟩ := sameIdentity_serve t c
    obtain ⟨hf', hi'⟩ := ih (serve t c).2
    rw [hf] at hf' hi'
    exact ⟨hf', hi'.trans hi⟩

theorem describe_sameIdentity {c c' : Cdc} (t : Transfer) (h : SameIdentity c c') :
    (describe t c').1 = (describe t c).1 := by
  rw [describe, describe, h.1, h.2]
  split <;> rfl

end Memory

end Adelino.CdcDevice
