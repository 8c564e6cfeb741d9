import Adelino.Commands

namespace Adelino.Board

open Adelino.Flash Adelino.Machine Adelino.Avr109 Adelino.Protocol Adelino.Commands

/-- What the protocol lets a host see of the board: program memory and an
address that the block commands advance. -/
structure Device where
  flash : Nat → UInt8
  address : UInt32

namespace Device

def dump (n : Nat) (d : Device) : List UInt8 :=
  (List.range n).map fun i => d.flash ((d.address.toNat + i) % flashSize)

def advance (n : Nat) (d : Device) : Device :=
  { d with address := d.address + .ofNat (2 * (n / 2)) }

/-- Where in its page, counted from the byte at `address`, flash byte `i` lies. -/
def pageOffset (address i : Nat) : Nat :=
  (i + spmPageSize - address % spmPageSize) % spmPageSize

/-- One page is rewritten. Data beyond the end of the page continues at its
beginning, later words replace earlier ones, an odd last byte is left out, and
what is not covered is erased. -/
def programmed (address : Nat) (data : List UInt8) (flash : Nat → UInt8) (i : Nat) : UInt8 :=
  if pageOf i = pageOf address then
    let n := 2 * (data.length / 2)
    let j := pageOffset address i
    if j < n then data.getD (j + spmPageSize * ((n - 1 - j) / spmPageSize)) 0 else 0xFF
  else flash i

def program (data : List UInt8) (d : Device) : Device :=
  { d.advance data.length with flash := programmed (hwAddr d.address) data d.flash }

def serve : Request → Device → Device
  | .bare _ _, d => d
  | .single _ _ _, d => d
  | .setAddress hi lo, d => { d with address := addressHigh hi ||| addressLow lo }
  | .readFlash hi lo memoryType, d =>
    if memoryType = ascii 'F' then d.advance (blockSize hi lo).toNat else d
  | .writeFlash _ _ memoryType data _, d =>
    if memoryType = ascii 'F' then d.program data else d

def reply : Request → Device → List UInt8
  | .bare command _, _ => bareReply command
  | .single command _ _, _ => if command = ascii 'T' then [carriageReturn] else [ascii '?']
  | .setAddress _ _, _ => [carriageReturn]
  | .readFlash hi lo memoryType, d =>
    if memoryType = ascii 'F' then d.dump (blockSize hi lo).toNat else [ascii '?']
  | .writeFlash _ _ memoryType _ _, _ =>
    if memoryType = ascii 'F' then [carriageReturn] else [ascii '?']

def serveAll (reqs : List Request) (d : Device) : Device := reqs.foldl (fun d r => d.serve r) d

def replies : List Request → Device → List UInt8
  | [], _ => []
  | r :: rs, d => d.reply r ++ replies rs (d.serve r)

theorem dump_add (m n : Nat) (hm : m % 2 = 0) (d : Device) :
    d.dump (m + n) = d.dump m ++ (d.advance m).dump n := by
  simp only [dump, List.range_add, List.map_append, List.map_map]
  congr 1
  refine List.map_congr_left fun i _ => congrArg d.flash ?_
  simp only [advance, flashSize, UInt32.toNat_add, UInt32.toNat_ofNat']
  omega

theorem length_dump (n : Nat) (d : Device) : (d.dump n).length = n := by
  simp [dump]

end Device

end Adelino.Board
