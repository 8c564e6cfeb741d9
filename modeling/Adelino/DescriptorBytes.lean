import Adelino.ControlPipe

namespace Adelino.DescriptorBytes

open Adelino.Words Adelino.Endpoint Adelino.Descriptors Adelino.ControlPipe

def epTypeControl : UInt8 := 0x00
def epTypeBulk : UInt8 := 0x02
def epTypeInterrupt : UInt8 := 0x03

def endpointDirOut : UInt8 := 0x00
def endpointDirIn : UInt8 := 0x80

def deviceBytes (d : DeviceDescriptor) : List UInt8 :=
  [d.size, d.type] ++ lowHigh d.usbSpecification ++
    [d.class', d.subClass, d.protocol, d.endpoint0Size] ++ lowHigh d.vendorId ++
    lowHigh d.productId ++ lowHigh d.releaseNumber ++
    [d.manufacturerStrIndex, d.productStrIndex, d.serialNumStrIndex, d.numberOfConfigurations]

def cdcNotificationEpnum : UInt8 := 2
def cdcTxEpnum : UInt8 := 3
def cdcRxEpnum : UInt8 := 4

def cdcNotificationEpsize : Nat := 8

def interfaceDescriptor (number totalEndpoints class' subClass protocol : UInt8) : List UInt8 :=
  [9, 0x04, number, 0, totalEndpoints, class', subClass, protocol, 0]

def endpointDescriptor (address attributes : UInt8) (size : Nat) (interval : UInt8) : List UInt8 :=
  [7, 0x05, address, attributes] ++ lowHigh size.toUInt16 ++ [interval]

def configurationBytes : List UInt8 :=
  [9, 0x02] ++ lowHigh sizeofConfigurationDescriptor.toUInt16 ++ [2, 1, 0, 0xC0, 50] ++
    interfaceDescriptor 0 1 0x02 0x02 0x01 ++
    [5, 0x24, 0x00] ++ lowHigh 0x0110 ++ [4, 0x24, 0x02, 0x04] ++ [5, 0x24, 0x06, 0, 1] ++
    endpointDescriptor (endpointDirIn ||| cdcNotificationEpnum) epTypeInterrupt
      cdcNotificationEpsize 0xFF ++
    interfaceDescriptor 1 2 0x0A 0x00 0x00 ++
    endpointDescriptor (endpointDirOut ||| cdcRxEpnum) epTypeBulk cdcTxRxEpSize 0x01 ++
    endpointDescriptor (endpointDirIn ||| cdcTxEpnum) epTypeBulk cdcTxRxEpSize 0x01

/-- `USB_Descriptor_String_t` -/
def stringBytes (unicodeString : List UInt16) : List UInt8 :=
  [(usbStringLen unicodeString.length).toUInt8, 0x03] ++ unicodeString.flatMap lowHigh

def unicode (text : String) : List UInt16 := text.toList.map (·.toNat.toUInt16)

def descriptorBytes : Descriptor → List UInt8
  | .device d => deviceBytes d
  | .configuration => configurationBytes
  | .language => stringBytes [0x0409]
  | .product => stringBytes (unicode "Adelino M1 [Bootloader]")
  | .manufacturer => stringBytes (unicode "Neoautus Ltd.")

section Announced

/-- Cut a chain of descriptors where each begins with its length. -/
def split : Nat → List UInt8 → List (List UInt8)
  | _, [] => []
  | 0, bytes => [bytes]
  | n + 1, b :: bytes => (b :: bytes).take b.toNat :: split n ((b :: bytes).drop b.toNat)

structure EndpointInfo where
  address : UInt8
  attributes : UInt8
  size : Nat
  deriving DecidableEq, Repr

namespace EndpointInfo

variable (e : EndpointInfo)

def number : UInt8 := e.address &&& 0x0F

def direction : UInt8 := e.address &&& 0x80

def ofBytes : List UInt8 → Option EndpointInfo
  | [_, 0x05, address, attributes, low, high, _] =>
    some ⟨address, attributes, (word low high).toNat⟩
  | _ => none

end EndpointInfo

/-- The endpoints that the configuration descriptor announces. -/
def announced : List EndpointInfo :=
  (split configurationBytes.length configurationBytes).filterMap EndpointInfo.ofBytes

theorem announced_eq : announced =
    [⟨endpointDirIn ||| cdcNotificationEpnum, epTypeInterrupt, cdcNotificationEpsize⟩,
      ⟨endpointDirOut ||| cdcRxEpnum, epTypeBulk, cdcTxRxEpSize⟩,
      ⟨endpointDirIn ||| cdcTxEpnum, epTypeBulk, cdcTxRxEpSize⟩] := by
  decide

end Announced

theorem length_stringBytes (u : List UInt16) : (stringBytes u).length = usbStringLen u.length := by
  have hlen : (u.flatMap lowHigh).length = u.length * 2 := by
    simp [lowHigh, List.length_flatMap]
  rw [stringBytes, List.length_append, hlen, usbStringLen, Nat.shiftLeft_eq]
  rfl

theorem respond_size {wValue : UInt16} {d : DeviceDescriptor} {descriptor : Descriptor}
    (h : (respond wValue d).address = some descriptor) :
    (respond wValue d).size = (descriptorBytes descriptor).length := by
  revert h
  unfold respond stringDescriptor
  dsimp only
  split_ifs <;> rintro ⟨⟩
  · rfl
  · rfl
  · rfl
  · rw [descriptorBytes, length_stringBytes]
    rfl
  · rw [descriptorBytes, length_stringBytes]
    rfl

end Adelino.DescriptorBytes
