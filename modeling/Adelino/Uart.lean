import Mathlib.Logic.Function.Basic

namespace Adelino.Uart

/-- The UART receive buffer. `accepted` and `taken` are history: the bytes the
interrupt has stored and the bytes the program has consumed since one of the
indices was last set to zero by hand. -/
structure Ring where
  buffer : UInt8 → UInt8
  bufferIn : UInt8
  bufferOut : UInt8
  accepted : List UInt8
  taken : List UInt8

namespace Ring

/-- `ISR(USART1_RX_vect)` -/
def usart1Rx (ch : UInt8) (r : Ring) : Ring :=
  let next := r.bufferIn + 1
  if next ≠ r.bufferOut then
    { r with
      buffer := Function.update r.buffer r.bufferIn ch
      bufferIn := next
      accepted := r.accepted ++ [ch] }
  else r

def resetIn (r : Ring) : Ring := { r with bufferIn := 0, accepted := [], taken := [] }

def resetOut (r : Ring) : Ring := { r with bufferOut := 0, accepted := [], taken := [] }

def advance (ch : UInt8) (r : Ring) : Ring :=
  { r with bufferOut := r.bufferOut + 1, taken := r.taken ++ [ch] }

end Ring

end Adelino.Uart
