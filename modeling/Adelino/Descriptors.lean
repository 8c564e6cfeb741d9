import Adelino.Words

namespace Adelino.Descriptors

open Adelino.Words

/-- `_VECTORS_SIZE` of the ATmega32U4: 43 vectors of two words each. -/
def vectorsSize : Nat := 43 * 4

/-- Where the search for the descriptor of the sketch ends. -/
def scanEnd : Nat := 0x200

/-- `USB_Descriptor_Device_t`, with the fields of its header in front. -/
structure DeviceDescriptor where
  size : UInt8
  type : UInt8
  usbSpecification : UInt16
  class' : UInt8
  subClass : UInt8
  protocol : UInt8
  endpoint0Size : UInt8
  vendorId : UInt16
  productId : UInt16
  releaseNumber : UInt16
  manufacturerStrIndex : UInt8
  productStrIndex : UInt8
  serialNumStrIndex : UInt8
  numberOfConfigurations : UInt8
  deriving DecidableEq, Repr

def sizeofDeviceDescriptor : Nat := 18

def sizeofConfigurationDescriptor : Nat := 9 + 9 + 5 + 4 + 5 + 7 + 9 + 7 + 7

def usbStringLen (unicodeChars : Nat) : Nat := 2 + unicodeChars <<< 1

/-- `DeviceDescriptor` as it is linked. `DEVICE_VID` and `DEVICE_PID` come
from the environment of the build. -/
def deviceDescriptor (deviceVid devicePid : UInt16) : DeviceDescriptor where
  size := 0
  type := 0x01
  usbSpecification := 0x0110
  class' := 0x02
  subClass := 0x00
  protocol := 0x00
  endpoint0Size := 8
  vendorId := deviceVid
  productId := devicePid
  releaseNumber := 0x0001
  manufacturerStrIndex := 0x01
  productStrIndex := 0x02
  serialNumStrIndex := 0
  numberOfConfigurations := 1

section Scan

variable (flash : Nat → UInt8)

/-- The bytes the loop compares with, from the class of the device up to the
size of its control endpoint. -/
def signatureAt (i : Nat) : Bool :=
  flash i = 0xEF && flash (i + 1) = 0x02 && flash (i + 2) = 0x01 && flash (i + 3) = 0x40

def pgmReadWord (i : Nat) : UInt16 := word (flash i) (flash (i + 1))

def shadow (i : Nat) (d : DeviceDescriptor) : DeviceDescriptor :=
  { d with vendorId := pgmReadWord flash (i + 4), productId := pgmReadWord flash (i + 6) }

/-- The `for` loop, at offset `i` with `n` turns to go. -/
def scanFrom (d : DeviceDescriptor) : Nat → Nat → DeviceDescriptor
  | 0, _ => d
  | n + 1, i => if signatureAt flash i then shadow flash i d else scanFrom d n (i + 1)

/-- A size that is not zero marks the descriptor as initialised. -/
def shadowVidPidFromSketch (d : DeviceDescriptor) : DeviceDescriptor :=
  if d.size ≠ 0 then d
  else scanFrom flash { d with size := sizeofDeviceDescriptor.toUInt8 } (scanEnd - vectorsSize)
    vectorsSize

end Scan

/-- What `DescriptorAddress` may point to. The device descriptor is in RAM,
so the host gets what it holds at the time. -/
inductive Descriptor
  | device (d : DeviceDescriptor)
  | configuration
  | language
  | product
  | manufacturer
  deriving DecidableEq, Repr

structure Response where
  address : Option Descriptor
  size : Nat
  deriving DecidableEq, Repr

def noDescriptor : Response := ⟨none, 0⟩

def stringDescriptor (number : UInt8) (d : DeviceDescriptor) : Response :=
  if number = 0 then ⟨some .language, usbStringLen 1⟩
  else if number = d.productStrIndex then ⟨some .product, usbStringLen 23⟩
  else if number = d.manufacturerStrIndex then ⟨some .manufacturer, usbStringLen 13⟩
  else noDescriptor

def respond (wValue : UInt16) (d : DeviceDescriptor) : Response :=
  let descriptorType := (wValue >>> 8).toUInt8
  let descriptorNumber := (wValue &&& 0xFF).toUInt8
  if descriptorType = 0x01 then ⟨some (.device d), sizeofDeviceDescriptor⟩
  else if descriptorType = 0x02 then ⟨some .configuration, sizeofConfigurationDescriptor⟩
  else if descriptorType = 0x03 then stringDescriptor descriptorNumber d
  else noDescriptor

structure Call where
  flash : Nat → UInt8
  wValue : UInt16
  wIndex : UInt8

/-- `CALLBACK_USB_GetDescriptor`, which does not look at `wIndex`. -/
def callbackUsbGetDescriptor (c : Call) (d : DeviceDescriptor) : Response × DeviceDescriptor :=
  let d := shadowVidPidFromSketch c.flash d
  (respond c.wValue d, d)

def getDescriptors : List Call → DeviceDescriptor → List Response × DeviceDescriptor
  | [], d => ([], d)
  | c :: cs, d =>
    let (r, d) := callbackUsbGetDescriptor c d
    let (rs, d) := getDescriptors cs d
    (r :: rs, d)

structure FirstAt (flash : Nat → UInt8) (i : Nat) : Prop where
  lower : vectorsSize ≤ i
  upper : i < scanEnd
  found : signatureAt flash i = true
  least : ∀ j, vectorsSize ≤ j → j < i → signatureAt flash j = false

def Absent (flash : Nat → UInt8) : Prop :=
  ∀ i, vectorsSize ≤ i → i < scanEnd → signatureAt flash i = false

theorem scanFrom_spec (flash : Nat → UInt8) (d : DeviceDescriptor) (n i : Nat) :
    (∃ k < n, signatureAt flash (i + k) = true ∧ (∀ j < k, signatureAt flash (i + j) = false) ∧
        scanFrom flash d n i = shadow flash (i + k) d) ∨
      (∀ k < n, signatureAt flash (i + k) = false) ∧ scanFrom flash d n i = d := by
  induction n generalizing i with
  | zero => exact .inr ⟨fun _ hk => absurd hk (Nat.not_lt_zero _), rfl⟩
  | succ n ih =>
    rw [scanFrom]
    by_cases hs : signatureAt flash i = true
    · rw [if_pos hs]
      exact .inl ⟨0, Nat.succ_pos n, hs, fun _ hj => absurd hj (Nat.not_lt_zero _), rfl⟩
    · rw [if_neg hs]
      rw [Bool.not_eq_true] at hs
      -- the first turn adds one offset without a signature in front
      have hcons {m : Nat} (h : ∀ j < m, signatureAt flash (i + 1 + j) = false) (j : Nat)
          (hj : j < m + 1) : signatureAt flash (i + j) = false := by
        cases j with
        | zero => exact hs
        | succ j =>
          rw [← Nat.succ_add_eq_add_succ]
          exact h j (Nat.lt_of_succ_lt_succ hj)
      obtain ⟨k, hk, hf, hl, he⟩ | ⟨hn, he⟩ := ih (i + 1)
      · rw [Nat.succ_add_eq_add_succ] at hf he
        exact .inl ⟨k + 1, Nat.succ_lt_succ hk, hf, hcons hl, he⟩
      · exact .inr ⟨hcons hn, he⟩

theorem shadowVidPidFromSketch_spec (flash : Nat → UInt8) (d : DeviceDescriptor) (h : d.size = 0) :
    (∃ i, FirstAt flash i ∧ shadowVidPidFromSketch flash d =
        shadow flash i { d with size := sizeofDeviceDescriptor.toUInt8 }) ∨
      Absent flash ∧
        shadowVidPidFromSketch flash d = { d with size := sizeofDeviceDescriptor.toUInt8 } := by
  have hrange : vectorsSize ≤ scanEnd := by decide
  rw [shadowVidPidFromSketch, if_neg (not_not.mpr h)]
  obtain ⟨k, hk, hf, hl, he⟩ | ⟨hn, he⟩ := scanFrom_spec flash
    { d with size := sizeofDeviceDescriptor.toUInt8 } (scanEnd - vectorsSize) vectorsSize
  · refine .inl ⟨vectorsSize + k, ⟨by omega, by omega, hf, ?_⟩, he⟩
    intro j hj hlt
    obtain ⟨m, rfl⟩ := Nat.exists_eq_add_of_le hj
    exact hl m (by omega)
  · refine .inr ⟨?_, he⟩
    intro j hj hlt
    obtain ⟨m, rfl⟩ := Nat.exists_eq_add_of_le hj
    exact hn m (by omega)

theorem size_shadowVidPidFromSketch (flash : Nat → UInt8) (d : DeviceDescriptor) (h : d.size = 0) :
    (shadowVidPidFromSketch flash d).size = sizeofDeviceDescriptor.toUInt8 := by
  obtain ⟨i, -, he⟩ | ⟨-, he⟩ := shadowVidPidFromSketch_spec flash d h
  · rw [he]
    rfl
  · rw [he]

theorem shadowVidPidFromSketch_of_size (flash : Nat → UInt8) (d : DeviceDescriptor)
    (h : d.size ≠ 0) : shadowVidPidFromSketch flash d = d :=
  if_pos h

theorem respond_device {wValue : UInt16} {d d' : DeviceDescriptor}
    (h : (respond wValue d).address = some (.device d')) :
    d' = d ∧ (respond wValue d).size = sizeofDeviceDescriptor := by
  unfold respond stringDescriptor noDescriptor at h ⊢
  grind

theorem getDescriptors_of_size (cs : List Call) (d : DeviceDescriptor) (h : d.size ≠ 0) :
    (getDescriptors cs d).2 = d ∧
      ∀ r ∈ (getDescriptors cs d).1, ∀ d', r.address = some (.device d') →
        d' = d ∧ r.size = sizeofDeviceDescriptor := by
  induction cs with
  | nil => exact ⟨rfl, by simp [getDescriptors]⟩
  | cons c cs ih =>
    rw [getDescriptors, callbackUsbGetDescriptor, shadowVidPidFromSketch_of_size c.flash d h]
    refine ⟨ih.1, ?_⟩
    intro r hr d' hd
    obtain rfl | hr := List.mem_cons.mp hr
    · exact respond_device hd
    · exact ih.2 r hr d' hd

theorem getDescriptors_cons (c : Call) (cs : List Call) (d : DeviceDescriptor) (h : d.size = 0) :
    (getDescriptors (c :: cs) d).2 = shadowVidPidFromSketch c.flash d ∧
      ∀ r ∈ (getDescriptors (c :: cs) d).1, ∀ d', r.address = some (.device d') →
        d' = shadowVidPidFromSketch c.flash d ∧ r.size = sizeofDeviceDescriptor := by
  have hsize : (shadowVidPidFromSketch c.flash d).size ≠ 0 := by
    rw [size_shadowVidPidFromSketch c.flash d h]
    decide
  have hrest := getDescriptors_of_size cs _ hsize
  rw [getDescriptors, callbackUsbGetDescriptor]
  refine ⟨hrest.1, ?_⟩
  intro r hr d' hd
  obtain rfl | hr := List.mem_cons.mp hr
  · exact respond_device hd
  · exact hrest.2 r hr d' hd

/-- `D_DEVICE` of the core library, as the compiler lays it out. -/
def dDevice (usbVersion : UInt16) (class' subClass proto packetSize0 : UInt8)
    (vid pid version : UInt16) (im ip is configs : UInt8) : List UInt8 :=
  [18, 1] ++ lowHigh usbVersion ++ [class', subClass, proto, packetSize0] ++ lowHigh vid ++
    lowHigh pid ++ lowHigh version ++ [im, ip, is, configs]

/-- `USB_DeviceDescriptorIAD`, the record every sketch carries. -/
def usbDeviceDescriptorIad (usbVersion vid pid : UInt16) : List UInt8 :=
  dDevice usbVersion 0xEF 0x02 0x01 64 vid pid 0x100 1 2 3 1

def LiesAt (bs : List UInt8) (flash : Nat → UInt8) (o : Nat) : Prop :=
  ∀ j (h : j < bs.length), flash (o + j) = bs[j]

section Record

variable {flash : Nat → UInt8} {o : Nat} {usbVersion vid pid : UInt16}
  (h : LiesAt (usbDeviceDescriptorIad usbVersion vid pid) flash o)
include h

theorem signatureAt_record : signatureAt flash (o + 4) = true := by
  have hbyte (j : Nat) (hj : j < 18) : flash (o + j) = _ := h j hj
  simp [signatureAt, Nat.add_assoc, hbyte, usbDeviceDescriptorIad, dDevice, lowHigh]

theorem pgmReadWord_record :
    pgmReadWord flash (o + 4 + 4) = vid ∧ pgmReadWord flash (o + 4 + 6) = pid := by
  have hword (w : UInt16) {i : Nat} (hlow : flash i = w.toUInt8)
      (hhigh : flash (i + 1) = (w >>> 8).toUInt8) : pgmReadWord flash i = w := by
    rw [pgmReadWord, hlow, hhigh, word_lowHigh]
  exact ⟨hword vid (h 8 (Nat.le_of_ble_eq_true rfl)) (h 9 (Nat.le_of_ble_eq_true rfl)),
    hword pid (h 10 (Nat.le_of_ble_eq_true rfl)) (h 11 (Nat.le_of_ble_eq_true rfl))⟩

end Record

theorem FirstAt.unique {flash : Nat → UInt8} {i j : Nat} (hi : FirstAt flash i)
    (hj : FirstAt flash j) : i = j := by
  apply Nat.le_antisymm
  · refine Nat.le_of_not_lt fun hlt => ?_
    exact absurd hj.found (by rw [hi.least j hj.lower hlt]; decide)
  · refine Nat.le_of_not_lt fun hlt => ?_
    exact absurd hi.found (by rw [hj.least i hi.lower hlt]; decide)

/-- The host sees one identity from the first request on. It is the one that
follows the first signature in the memory of the first call, or that of the
build if there is none, and a sketch with its descriptor in front of any
other signature is presented under its own identity. -/
theorem vidPid_shadowed (deviceVid devicePid : UInt16) (c : Call) (cs : List Call) :
    let d := (getDescriptors (c :: cs) (deviceDescriptor deviceVid devicePid)).2
    ((∃ i, FirstAt c.flash i ∧ d.vendorId = pgmReadWord c.flash (i + 4) ∧
        d.productId = pgmReadWord c.flash (i + 6)) ∨
      Absent c.flash ∧ d.vendorId = deviceVid ∧ d.productId = devicePid) ∧
    (∀ r ∈ (getDescriptors (c :: cs) (deviceDescriptor deviceVid devicePid)).1,
      ∀ d', r.address = some (.device d') → d' = d ∧ r.size = d'.size.toNat) ∧
    ∀ usbVersion vid pid o, LiesAt (usbDeviceDescriptorIad usbVersion vid pid) c.flash o →
      vectorsSize ≤ o + 4 → o + 4 < scanEnd →
      (∀ i, vectorsSize ≤ i → i < o + 4 → signatureAt c.flash i = false) →
      d.vendorId = vid ∧ d.productId = pid := by
  intro d
  obtain ⟨hd, hr⟩ := getDescriptors_cons c cs (deviceDescriptor deviceVid devicePid) rfl
  have hd : d = shadowVidPidFromSketch c.flash (deviceDescriptor deviceVid devicePid) := hd
  have hspec := shadowVidPidFromSketch_spec c.flash (deviceDescriptor deviceVid devicePid) rfl
  rw [← hd] at hspec
  refine ⟨?_, ?_, ?_⟩
  · obtain ⟨i, hi, he⟩ | ⟨hn, he⟩ := hspec
    · rw [he]
      exact .inl ⟨i, hi, rfl, rfl⟩
    · rw [he]
      exact .inr ⟨hn, rfl, rfl⟩
  · intro r hm d' ha
    obtain ⟨rfl, hs⟩ := hr r hm d' ha
    refine ⟨hd.symm, ?_⟩
    rw [hs, size_shadowVidPidFromSketch c.flash _ rfl]
    rfl
  · intro usbVersion vid pid o hl hlow hup hfirst
    have ho : FirstAt c.flash (o + 4) := ⟨hlow, hup, signatureAt_record hl, hfirst⟩
    obtain ⟨i, hi, he⟩ | ⟨hn, -⟩ := hspec
    · rw [he, hi.unique ho]
      exact pgmReadWord_record hl
    · exact absurd ho.found (by rw [hn _ hlow hup]; decide)

end Adelino.Descriptors
