import Adelino.Avr109

namespace Adelino.Protocol

open Adelino.Machine Adelino.Avr109

def unary : List UInt8 := ['T', 'l', 'C', 'c', 'D'].map ascii

def framed : List UInt8 := unary ++ ['A', 'g', 'B'].map ascii

/-- A complete request of the AVR109 protocol: a command byte with all the
argument bytes the protocol gives it, whether the firmware knows it or not. -/
inductive Request
  | bare (command : UInt8) (h : command ∉ framed)
  | single (command : UInt8) (h : command ∈ unary) (x : UInt8)
  | setAddress (hi lo : UInt8)
  | readFlash (hi lo memoryType : UInt8)
  | writeFlash (hi lo memoryType : UInt8) (data : List UInt8)
      (h : data.length = (blockSize hi lo).toNat)

namespace Request

def command : Request → UInt8
  | .bare command _ => command
  | .single command _ _ => command
  | .setAddress _ _ => ascii 'A'
  | .readFlash _ _ _ => ascii 'g'
  | .writeFlash _ _ _ _ _ => ascii 'B'

def args : Request → List UInt8
  | .bare _ _ => []
  | .single _ _ x => [x]
  | .setAddress hi lo => [hi, lo]
  | .readFlash hi lo memoryType => [hi, lo, memoryType]
  | .writeFlash hi lo memoryType data _ => hi :: lo :: memoryType :: data

def bytes (r : Request) : List UInt8 := r.command :: r.args

end Request

end Adelino.Protocol
