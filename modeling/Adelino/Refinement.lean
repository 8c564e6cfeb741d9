import Adelino.Board

namespace Adelino.Refinement

open Adelino.Words Adelino.Flash Adelino.Machine Adelino.Avr109 Adelino.Block Adelino.Protocol
open Adelino.Commands Adelino.Board

/-- Between two commands the page buffer is empty and the address is that of
a word. -/
structure Idle (c : Core) : Prop where
  buffer : ∀ w, c.mem.buffer w = none
  even : c.currAddress.toNat % 2 = 0

def deviceOf (c : Core) : Device := { flash := c.mem.flash, address := c.currAddress }

theorem hwAddr_add (a : UInt32) (n : Nat) :
    hwAddr (a + .ofNat n) = (hwAddr a + n) % flashSize := by
  simp only [hwAddr, flashSize, UInt32.toNat_add, UInt32.toNat_ofNat']
  omega

theorem even_add (a : UInt32) (n : Nat) (h : a.toNat % 2 = 0) :
    (a + .ofNat (2 * n)).toNat % 2 = 0 := by
  simp only [UInt32.toNat_add, UInt32.toNat_ofNat']
  omega

theorem fillWord_eq (hi lo : UInt8) : fillWord hi lo = word lo hi := UInt16.or_comm _ _

theorem fillWord_low (hi lo : UInt8) : (fillWord hi lo).toUInt8 = lo := by
  rw [fillWord_eq, low_word]

theorem fillWord_high (hi lo : UInt8) : (fillWord hi lo >>> 8).toUInt8 = hi := by
  rw [fillWord_eq, high_word]

theorem length_div_two {data : List UInt8}
    (h : ∀ lo hi data', data = lo :: hi :: data' → False) : data.length / 2 = 0 := by
  match data, h with
  | [], _ => rfl
  | [_], _ => simp
  | lo :: hi :: data, h => exact (h lo hi data rfl).elim

theorem buffer_fillWords (data : List UInt8) (c : Core) (he : c.currAddress.toNat % 2 = 0) (w : Nat)
    (hw : w < 64) :
    let n := data.length / 2
    let j := (w + 64 - wordOf (hwAddr c.currAddress)) % 64
    let k := j + 64 * ((n - 1 - j) / 64)
    (fillWords data c).mem.buffer w =
      if j < n then some (fillWord (data.getD (2 * k + 1) 0) (data.getD (2 * k) 0))
      else c.mem.buffer w := by
  induction data, c using fillWords.induct with
  | case1 lo hi data c ih =>
    have hnext :
        wordOf (hwAddr (c.currAddress + 2)) = (wordOf (hwAddr c.currAddress) + 1) % 64 := by
      rw [show (2 : UInt32) = .ofNat 2 from rfl, hwAddr_add]
      simp only [wordOf, hwAddr, flashSize, spmPageSize]
      omega
    have hp : wordOf (hwAddr c.currAddress) < 64 := by
      simp only [wordOf, spmPageSize]
      omega
    have haddr : (advanceAddress (fillData c.currAddress lo hi c)).currAddress =
        c.currAddress + 2 := rfl
    have hr := ih (even_add c.currAddress 1 he)
    rw [haddr, hnext] at hr
    rw [fillWords]
    refine hr.trans ?_
    rw [show (advanceAddress (fillData c.currAddress lo hi c)).mem.buffer =
      Function.update c.mem.buffer (wordOf (hwAddr c.currAddress)) (some (fillWord hi lo)) from rfl]
    generalize wordOf (hwAddr c.currAddress) = p at hp
    have hlen : (lo :: hi :: data).length / 2 = data.length / 2 + 1 := by
      simp only [List.length_cons]
      omega
    rw [hlen]
    generalize data.length / 2 = n
    -- a later word for the same slot is among the rest, unless this is the last one
    have hshift (k : Nat) : (lo :: hi :: data).getD (2 * (k + 1) + 1) 0 = data.getD (2 * k + 1) 0 ∧
        (lo :: hi :: data).getD (2 * (k + 1)) 0 = data.getD (2 * k) 0 := ⟨rfl, rfl⟩
    by_cases hwp : w = p
    · subst hwp
      have hj : (w + 64 - w) % 64 = 0 := by omega
      have hj' : (w + 64 - (w + 1) % 64) % 64 = 63 := by omega
      rw [hj, hj', if_pos (Nat.succ_pos n)]
      by_cases hn : 63 < n
      · have hk : 0 + 64 * ((n + 1 - 1 - 0) / 64) = 63 + 64 * ((n - 1 - 63) / 64) + 1 := by omega
        rw [if_pos hn, hk, (hshift _).1, (hshift _).2]
      · have hk : 0 + 64 * ((n + 1 - 1 - 0) / 64) = 0 := by omega
        rw [if_neg hn, Function.update_self, hk]
        rfl
    · have hj : (w + 64 - (p + 1) % 64) % 64 + 1 = (w + 64 - p) % 64 := by omega
      rw [← hj, Function.update_of_ne hwp]
      generalize (w + 64 - (p + 1) % 64) % 64 = j
      by_cases hn : j < n
      · have hk : j + 1 + 64 * ((n + 1 - 1 - (j + 1)) / 64) = j + 64 * ((n - 1 - j) / 64) + 1 := by
          omega
        rw [if_pos hn, if_pos (Nat.succ_lt_succ hn), hk, (hshift _).1, (hshift _).2]
      · rw [if_neg hn, if_neg (by omega)]
  | case2 data c h =>
    rw [fillWords.eq_2 _ _ h, length_div_two h]
    rfl

theorem currAddress_fillWords (data : List UInt8) (c : Core) :
    (fillWords data c).currAddress = c.currAddress + .ofNat (2 * (data.length / 2)) := by
  induction data, c using fillWords.induct with
  | case1 lo hi data c ih =>
    have hlen : 2 * ((lo :: hi :: data).length / 2) = 2 + 2 * (data.length / 2) := by
      simp only [List.length_cons]
      omega
    rw [fillWords, ih, hlen, UInt32.ofNat_add, ← UInt32.add_assoc]
    rfl
  | case2 data c h =>
    rw [fillWords.eq_2 _ _ h, length_div_two h]
    simp

theorem flash_fillWords (data : List UInt8) (c : Core) :
    (fillWords data c).mem.flash = c.mem.flash := by
  induction data, c using fillWords.induct with
  | case1 lo hi data c ih => exact ih
  | case2 data c h => rw [fillWords.eq_2 _ _ h]

theorem bufferByte_fillWords (data : List UInt8) (c : Core) (hb : ∀ w, c.mem.buffer w = none)
    (he : c.currAddress.toNat % 2 = 0) (i : Nat) (flash : Nat → UInt8)
    (hi : pageOf i = pageOf (hwAddr c.currAddress)) :
    (fillWords data c).mem.bufferByte i =
      Device.programmed (hwAddr c.currAddress) data flash i := by
  have hw : wordOf i < 64 := by
    simp only [wordOf, spmPageSize]
    omega
  have hbuf := buffer_fillWords data c he (wordOf i) hw
  rw [hb] at hbuf
  have hj : Device.pageOffset (hwAddr c.currAddress) i =
      2 * ((wordOf i + 64 - wordOf (hwAddr c.currAddress)) % 64) + i % 2 := by
    have ha : hwAddr c.currAddress % 2 = 0 := by
      simp only [hwAddr, flashSize]
      omega
    simp only [Device.pageOffset, wordOf, spmPageSize]
    omega
  rw [Memory.bufferByte, hbuf, Device.programmed, if_pos hi, hj]
  generalize (wordOf i + 64 - wordOf (hwAddr c.currAddress)) % 64 = j
  generalize data.length / 2 = n
  dsimp only
  by_cases hn : j < n
  · have hk : 2 * j + i % 2 + spmPageSize * ((2 * n - 1 - (2 * j + i % 2)) / spmPageSize) =
        2 * (j + 64 * ((n - 1 - j) / 64)) + i % 2 := by
      simp only [spmPageSize]
      omega
    rw [if_pos hn, if_pos (show 2 * j + i % 2 < 2 * n by omega), hk, Option.getD_some]
    by_cases hp : i % 2 = 0
    · rw [if_pos hp, hp, fillWord_low, Nat.add_zero]
    · rw [if_neg hp, show i % 2 = 1 by omega, fillWord_high]
  · rw [if_neg hn, if_neg (show ¬ 2 * j + i % 2 < 2 * n by omega), Option.getD_none]
    split <;> rfl

theorem device_storeBlock (data : List UInt8) (c : Core) (h : Idle c) :
    deviceOf (storeBlock data c) = (deviceOf c).program data := by
  have herase : ∀ i, ¬ pageOf i = pageOf (hwAddr c.currAddress) →
      (eraseCore c).mem.flash i = c.mem.flash i :=
    fun i hi => if_neg hi
  have hflash : (storeBlock data c).mem.flash =
      Device.programmed (hwAddr c.currAddress) data c.mem.flash := by
    funext i
    by_cases hi : pageOf i = pageOf (hwAddr c.currAddress)
    · refine (if_pos hi).trans ?_
      exact bufferByte_fillWords data (eraseCore c) h.buffer h.even i c.mem.flash hi
    · refine (if_neg hi).trans ?_
      rw [flash_fillWords, herase i hi, Device.programmed, if_neg hi]
  have haddr : (storeBlock data c).currAddress =
      c.currAddress + .ofNat (2 * (data.length / 2)) := currAddress_fillWords data _
  rw [deviceOf, hflash, haddr]
  rfl

theorem idle_storeBlock (data : List UInt8) (c : Core) (h : Idle c) : Idle (storeBlock data c) where
  buffer _ := rfl
  even := by
    rw [show (storeBlock data c).currAddress = c.currAddress + .ofNat (2 * (data.length / 2)) from
      currAddress_fillWords data _]
    exact even_add _ _ h.even

theorem dumpAdvance_eq (n : Nat) (c : Core) :
    dumpAdvance n c = { c with currAddress := c.currAddress + .ofNat (2 * (n / 2)) } := by
  induction n, c using dumpAdvance.induct with
  | case1 n c ih =>
    rw [dumpAdvance, ih, show 2 * ((n + 2) / 2) = 2 + 2 * (n / 2) by omega, UInt32.ofNat_add,
      ← UInt32.add_assoc]
    rfl
  | case2 n c h =>
    have hn : n / 2 = 0 := by
      rcases n with _ | _ | n
      · rfl
      · rfl
      · exact (h n rfl).elim
    rw [dumpAdvance.eq_2 _ _ h, hn]
    simp

theorem idle_loadBlock (n : Nat) (c : Core) (h : Idle c) : Idle (loadBlock n c) where
  buffer _ := by
    rw [loadBlock, dumpAdvance_eq]
    rfl
  even := by
    rw [loadBlock, dumpAdvance_eq]
    exact even_add _ _ h.even

theorem device_loadBlock (n : Nat) (c : Core) :
    deviceOf (loadBlock n c) = (deviceOf c).advance n := by
  rw [loadBlock, dumpAdvance_eq]
  rfl

theorem toNat_or_one (a : UInt32) (h : a.toNat % 2 = 0) : (a ||| 1).toNat = a.toNat + 1 := by
  have hor := Nat.two_pow_add_eq_or_of_lt (i := 1) (b := 1) (by omega) (a.toNat / 2)
  rw [show 2 ^ 1 * (a.toNat / 2) = a.toNat by omega] at hor
  rw [UInt32.toNat_or, show (1 : UInt32).toNat = 1 from rfl, hor]

theorem hwAddr_or_one (a : UInt32) (h : a.toNat % 2 = 0) :
    hwAddr (a ||| 1) = (a.toNat + 1) % flashSize := by
  rw [hwAddr, toNat_or_one a h]

theorem dumpBytes_eq_dump (n : Nat) (c : Core) (hr : c.mem.rwwBusy = false)
    (he : c.currAddress.toNat % 2 = 0) : dumpBytes n c = (deviceOf c).dump n := by
  have hread : ∀ a, c.mem.pgmReadByte a = c.mem.flash (hwAddr a) := by
    intro a
    simp [Memory.pgmReadByte, hr]
  induction n, c using dumpBytes.induct with
  | case1 c => rfl
  | case2 c => simp [dumpBytes, hread, Device.dump, deviceOf, hwAddr]
  | case3 n c ih =>
    have hn := ih hr (even_add c.currAddress 1 he) hread
    rw [dumpBytes, hread, hread, hn, hwAddr_or_one _ he, show n.succ.succ = 2 + n by omega,
      Device.dump_add 2 n rfl]
    rfl

theorem idle_observe (o : Obs) (c : Core) (h : Idle c) : Idle (observe o c) := ⟨h.buffer, h.even⟩

theorem idle_noteBlock (command hi lo memoryType : UInt8) (c : Core) (h : Idle c) :
    Idle (noteBlock command hi lo memoryType c) := ⟨h.buffer, h.even⟩

/-- The 16-bit shift and the sign extension do not disturb the address bits. -/
theorem toNat_addressHigh (b : UInt8) : (addressHigh b).toNat % 512 = 0 ∧
    (addressHigh b).toNat % flashSize = 512 * b.toNat % flashSize ∧
    (b.toNat < 64 → (addressHigh b).toNat = 512 * b.toNat) := by
  have h : ∀ n : Fin 256, (addressHigh (UInt8.ofFin n)).toNat % 512 = 0 ∧
      (addressHigh (UInt8.ofFin n)).toNat % flashSize = 512 * n.val % flashSize ∧
      (n.val < 64 → (addressHigh (UInt8.ofFin n)).toNat = 512 * n.val) := by
    decide +kernel
  exact h b.toFin

theorem toNat_addressLow (b : UInt8) : (addressLow b).toNat = 2 * b.toNat := by
  have h : ∀ n : Fin 256, (addressLow (UInt8.ofFin n)).toNat = 2 * n.val := by
    decide +kernel
  exact h b.toFin

theorem toNat_setAddress (hi lo : UInt8) :
    (addressHigh hi ||| addressLow lo).toNat = (addressHigh hi).toNat + 2 * lo.toNat := by
  have hlo := lo.toNat_lt
  have hh := (toNat_addressHigh hi).1
  have hor := Nat.two_pow_add_eq_or_of_lt (i := 9) (b := 2 * lo.toNat) (by omega)
    ((addressHigh hi).toNat / 512)
  rw [show 2 ^ 9 * ((addressHigh hi).toNat / 512) = (addressHigh hi).toNat by omega] at hor
  rw [UInt32.toNat_or, toNat_addressLow, hor]

theorem even_addressHigh (hi : UInt8) : (addressHigh hi).toNat % 2 = 0 := by
  have hh := (toNat_addressHigh hi).1
  omega

theorem even_or_addressLow {a : UInt32} (lo : UInt8) (h : a.toNat % 2 = 0) :
    (a ||| addressLow lo).toNat % 2 = 0 := by
  rw [UInt32.toNat_or, toNat_addressLow, ← Nat.mod_two_not_eq_one, Nat.or_mod_two_eq_one]
  omega

theorem even_setAddress (hi lo : UInt8) : (addressHigh hi ||| addressLow lo).toNat % 2 = 0 :=
  even_or_addressLow lo (even_addressHigh hi)

theorem idle_effect (r : Request) (c : Core) (h : Idle c) : Idle (effect r c) := by
  cases r with
  | bare command hc =>
    simp only [effect]
    split
    · exact ⟨fun _ => rfl, h.even⟩
    · exact h
  | single command hc x => exact h
  | setAddress hi lo => exact ⟨h.buffer, even_setAddress hi lo⟩
  | readFlash hi lo memoryType =>
    simp only [effect]
    split
    · exact idle_loadBlock _ _ (idle_noteBlock _ _ _ _ c h)
    · exact idle_noteBlock _ _ _ _ c h
  | writeFlash hi lo memoryType data hl =>
    simp only [effect]
    split
    · exact idle_storeBlock _ _ (idle_noteBlock _ _ _ _ c h)
    · exact idle_noteBlock _ _ _ _ c h

theorem device_effect (r : Request) (c : Core) (h : Idle c) :
    deviceOf (effect r c) = (deviceOf c).serve r := by
  cases r with
  | bare command hc =>
    simp only [effect]
    split <;> rfl
  | single command hc x => rfl
  | setAddress hi lo => rfl
  | readFlash hi lo memoryType =>
    simp only [effect, Device.serve]
    split
    · exact device_loadBlock _ _
    · rfl
  | writeFlash hi lo memoryType data hl =>
    simp only [effect, Device.serve]
    split
    · exact device_storeBlock _ _ (idle_noteBlock _ _ _ _ c h)
    · rfl

theorem reply_eq (r : Request) (c : Core) (h : Idle c) : reply r c = (deviceOf c).reply r := by
  cases r with
  | readFlash hi lo memoryType =>
    simp only [reply, Device.reply]
    split
    · exact dumpBytes_eq_dump _ (loadCore c) rfl h.even
    · rfl
  | _ => rfl

end Adelino.Refinement
