import Mathlib.Logic.Function.Basic

namespace Adelino.Words

/-- Two bytes as a little-endian word. -/
def word (low high : UInt8) : UInt16 := low.toUInt16 ||| high.toUInt16 <<< 8

def lowHigh (w : UInt16) : List UInt8 := [w.toUInt8, (w >>> 8).toUInt8]

theorem toNat_word (low high : UInt8) : (word low high).toNat = 256 * high.toNat + low.toNat := by
  have hlow := low.toNat_lt
  have hhigh := high.toNat_lt
  have hshift : (high.toUInt16 <<< 8).toNat = 2 ^ 8 * high.toNat := by
    rw [UInt16.toNat_shiftLeft, UInt8.toNat_toUInt16, show (8 : UInt16).toNat % 16 = 8 from rfl,
      Nat.shiftLeft_eq]
    omega
  rw [word, UInt16.or_comm, UInt16.toNat_or, hshift, UInt8.toNat_toUInt16,
    ← Nat.two_pow_add_eq_or_of_lt hlow]

theorem low_word (low high : UInt8) : (word low high).toUInt8 = low := by
  apply UInt8.toNat_inj.mp
  have hlow := low.toNat_lt
  rw [UInt16.toNat_toUInt8, toNat_word]
  omega

theorem high_word (low high : UInt8) : (word low high >>> 8).toUInt8 = high := by
  apply UInt8.toNat_inj.mp
  have hlow := low.toNat_lt
  have hhigh := high.toNat_lt
  rw [UInt16.toNat_toUInt8, UInt16.toNat_shiftRight, show (8 : UInt16).toNat % 16 = 8 from rfl,
    Nat.shiftRight_eq_div_pow, toNat_word]
  omega

theorem word_lowHigh (w : UInt16) : word w.toUInt8 (w >>> 8).toUInt8 = w := by
  apply UInt16.toNat_inj.mp
  have hw := w.toNat_lt
  rw [toNat_word, UInt16.toNat_toUInt8, UInt16.toNat_toUInt8, UInt16.toNat_shiftRight,
    show (8 : UInt16).toNat % 16 = 8 from rfl, Nat.shiftRight_eq_div_pow]
  omega

end Adelino.Words
