import Mathlib
import Adelino.Sessions

namespace Adelino.Upload

open Adelino.Program Adelino.Words Adelino.Flash Adelino.Endpoint Adelino.Machine
open Adelino.UsbSpec Adelino.UsbProgress
open Adelino.Avr109 Adelino.Protocol Adelino.Commands Adelino.CommandLoop Adelino.Board
open Adelino.Refinement Adelino.Sessions

/-- What a host puts into one `B` request. -/
abbrev Block := { data : List UInt8 // data.length ≤ spmPageSize }

theorem blockSize_eq (hi lo : UInt8) : blockSize hi lo = word lo hi := UInt16.or_comm _ _

theorem toNat_blockSize (hi lo : UInt8) : (blockSize hi lo).toNat = 256 * hi.toNat + lo.toNat := by
  rw [blockSize_eq, toNat_word]

/-- `A` with the word address of byte `a`. -/
def seek (a : Nat) : Request := .setAddress (.ofNat (a / 2 / 256)) (.ofNat (a / 2))

theorem length_block (b : Block) : b.1.length = (blockSize 0 (.ofNat b.1.length)).toNat := by
  have hb := b.2
  simp only [spmPageSize] at hb
  rw [toNat_blockSize, UInt8.toNat_ofNat', UInt8.toNat_zero]
  omega

def store (b : Block) : Request :=
  .writeFlash 0 (.ofNat b.1.length) (ascii 'F') b.1 (length_block b)

def load (n : UInt16) : Request := .readFlash (n >>> 8).toUInt8 n.toUInt8 (ascii 'F')

theorem blockSize_load (n : UInt16) : blockSize (n >>> 8).toUInt8 n.toUInt8 = n := by
  rw [blockSize_eq, word_lowHigh]

theorem hwAddr_ofNat {a : Nat} (ha : a < bootStartAddr) : hwAddr (.ofNat a) = a := by
  simp only [bootStartAddr] at ha
  rw [hwAddr, UInt32.toNat_ofNat', flashSize]
  omega

theorem serve_seek (a : Nat) (ha : a < bootStartAddr) (he : a % 2 = 0) (d : Device) :
    d.serve (seek a) = { d with address := .ofNat a } := by
  have haddr : addressHigh (.ofNat (a / 2 / 256)) ||| addressLow (.ofNat (a / 2)) = .ofNat a := by
    simp only [bootStartAddr] at ha
    apply UInt32.toNat_inj.mp
    have hhi : (UInt8.ofNat (a / 2 / 256)).toNat = a / 2 / 256 := by
      rw [UInt8.toNat_ofNat']
      omega
    rw [toNat_setAddress, (toNat_addressHigh _).2.2 (by omega), hhi, UInt8.toNat_ofNat',
      UInt32.toNat_ofNat']
    omega
  rw [seek, Device.serve, haddr]

theorem programmed_block (a : Nat) (b : Block) (flash : Nat → UInt8) (i : Nat)
    (hi : pageOf i = pageOf a) :
    Device.programmed a b.1 flash i =
      if Device.pageOffset a i < 2 * (b.1.length / 2) then b.1.getD (Device.pageOffset a i) 0
      else 0xFF := by
  have hb := b.2
  simp only [spmPageSize] at hb
  rw [Device.programmed, if_pos hi]
  dsimp only
  generalize Device.pageOffset a i = j
  by_cases hj : j < 2 * (b.1.length / 2)
  · have hk : (2 * (b.1.length / 2) - 1 - j) / spmPageSize = 0 := by
      simp only [spmPageSize]
      omega
    rw [if_pos hj, if_pos hj, hk, Nat.mul_zero, Nat.add_zero]
  · rw [if_neg hj, if_neg hj]

theorem programmed_aligned (a : Nat) (b : Block) (ha : a % spmPageSize = 0)
    (he : b.1.length % 2 = 0) (flash : Nat → UInt8) (i : Nat) :
    Device.programmed a b.1 flash i =
      if a ≤ i ∧ i < a + spmPageSize then b.1.getD (i - a) 0xFF else flash i := by
  simp only [spmPageSize] at ha
  by_cases hi : pageOf i = pageOf a
  · have hr : a ≤ i ∧ i < a + spmPageSize := by
      simp only [pageOf, spmPageSize] at hi ⊢
      omega
    have hj : Device.pageOffset a i = i - a := by
      simp only [Device.pageOffset, spmPageSize] at hr ⊢
      omega
    rw [programmed_block a b flash i hi, if_pos hr, hj,
      show 2 * (b.1.length / 2) = b.1.length by omega]
    split
    case isTrue h => rw [List.getD_eq_getElem _ _ h, List.getD_eq_getElem _ _ h]
    case isFalse h => rw [List.getD_eq_default _ _ (by omega)]
  · have hr : ¬ (a ≤ i ∧ i < a + spmPageSize) := by
      simp only [pageOf, spmPageSize] at hi ⊢
      omega
    rw [Device.programmed, if_neg hi, if_neg hr]

/-- All blocks but the last fill their page, and the last is not empty. -/
inductive Paged : List Block → Prop
  | last (b : Block) (he : b.1.length % 2 = 0) (hp : 0 < b.1.length) : Paged [b]
  | page (b : Block) {bs : List Block} (hb : b.1.length = spmPageSize) (hbs : Paged bs) :
      Paged (b :: bs)

def image (blocks : List Block) : List UInt8 := blocks.flatMap fun b => b.1

/-- Flash with the image at `a`, the rest of its last page erased. -/
def burned (a : Nat) (blocks : List Block) (flash : Nat → UInt8) (i : Nat) : UInt8 :=
  if a ≤ i ∧ i < a + spmPageSize * blocks.length then (image blocks).getD (i - a) 0xFF else flash i

theorem serveAll_store {blocks : List Block} (hp : Paged blocks) (a : Nat) (d : Device)
    (ha : a % spmPageSize = 0) (hd : d.address = .ofNat a)
    (hend : a + (image blocks).length ≤ bootStartAddr) :
    (d.serveAll (blocks.map store)).flash = burned a blocks d.flash := by
  induction hp generalizing a d with
  | last b he hpos =>
    have hlt : a < bootStartAddr := by
      simp only [image, List.flatMap_cons, List.flatMap_nil, List.append_nil] at hend
      omega
    funext i
    refine (programmed_aligned (hwAddr d.address) b ?_ he d.flash i).trans ?_
    · rwa [hd, hwAddr_ofNat hlt]
    · simp only [hd, hwAddr_ofNat hlt, burned, image, List.flatMap_cons, List.flatMap_nil,
        List.append_nil, List.length_cons, List.length_nil, Nat.zero_add, Nat.mul_one]
  | @page b bs hb hbs ih =>
    have himage : image (b :: bs) = b.1 ++ image bs := rfl
    rw [himage, List.length_append, hb] at hend
    have hlt : a < bootStartAddr := by
      simp only [spmPageSize] at hend
      omega
    have hnext : (d.program b.1).address = .ofNat (a + spmPageSize) := by
      rw [Device.program, Device.advance, hd, hb, UInt32.ofNat_add]
      rfl
    have hrest := ih (a + spmPageSize) (d.program b.1) (by rw [Nat.add_mod_right]; exact ha) hnext
      (by omega)
    refine hrest.trans (funext fun i => ?_)
    have hflash : (d.program b.1).flash i =
        if a ≤ i ∧ i < a + spmPageSize then b.1.getD (i - a) 0xFF else d.flash i := by
      refine (programmed_aligned (hwAddr d.address) b ?_ (by rw [hb]; rfl) d.flash i).trans ?_
      · rwa [hd, hwAddr_ofNat hlt]
      · rw [hd, hwAddr_ofNat hlt]
    rw [burned, hflash, burned, himage, List.length_cons, Nat.mul_succ]
    by_cases hpage : a ≤ i ∧ i < a + spmPageSize
    · rw [if_neg (by omega), if_pos hpage, if_pos (by omega), List.getD_append _ _ _ _ (by omega)]
    · by_cases hin : a + spmPageSize ≤ i ∧ i < a + spmPageSize + spmPageSize * bs.length
      · rw [if_pos hin, if_pos (by omega), List.getD_append_right _ _ _ _ (by omega), hb,
          Nat.sub_sub]
      · rw [if_neg hin, if_neg hpage, if_neg (by omega)]

theorem replies_store (blocks : List Block) (rs : List Request) (d : Device) :
    d.replies (blocks.map store ++ rs) =
      List.replicate blocks.length carriageReturn ++
        (d.serveAll (blocks.map store)).replies rs := by
  induction blocks generalizing d with
  | nil => rfl
  | cons b bs ih => exact congrArg (carriageReturn :: ·) (ih (d.serve (store b)))

theorem replies_load (sizes : List UInt16) (he : ∀ n ∈ sizes, n.toNat % 2 = 0) (d : Device) :
    d.replies (sizes.map load) = d.dump (sizes.map UInt16.toNat).sum := by
  induction sizes generalizing d with
  | nil => rfl
  | cons n ns ih =>
    have hserve : d.serve (load n) = d.advance n.toNat := by
      rw [load, Device.serve, if_pos rfl, blockSize_load]
    have hreply : d.reply (load n) = d.dump n.toNat := by
      rw [load, Device.reply, if_pos rfl, blockSize_load]
    rw [List.map_cons, Device.replies, hserve, hreply,
      ih fun m hm => he m (List.mem_cons_of_mem _ hm), List.map_cons, List.sum_cons,
      Device.dump_add _ _ (he n (List.mem_cons_self ..))]

theorem flash_serveAll_load (sizes : List UInt16) (d : Device) :
    (d.serveAll (sizes.map load)).flash = d.flash := by
  induction sizes generalizing d with
  | nil => rfl
  | cons n ns ih => exact ih (d.serve (load n))

theorem address_serveAll_load (sizes : List UInt16) (he : ∀ n ∈ sizes, n.toNat % 2 = 0)
    (d : Device) :
    (d.serveAll (sizes.map load)).address = d.address + .ofNat (sizes.map UInt16.toNat).sum := by
  induction sizes generalizing d with
  | nil => exact (UInt32.add_zero _).symm
  | cons n ns ih =>
    have hn := he n (List.mem_cons_self ..)
    have hserve : (d.serve (load n)).address = d.address + .ofNat n.toNat := by
      rw [load, Device.serve, if_pos rfl, blockSize_load, Device.advance,
        show 2 * (n.toNat / 2) = n.toNat by omega]
    refine (ih (fun m hm => he m (List.mem_cons_of_mem _ hm)) (d.serve (load n))).trans ?_
    rw [hserve, List.map_cons, List.sum_cons, UInt32.ofNat_add, UInt32.add_assoc]

theorem length_image_le (blocks : List Block) :
    (image blocks).length ≤ spmPageSize * blocks.length := by
  induction blocks with
  | nil => rfl
  | cons b bs ih =>
    have hb := b.2
    rw [show image (b :: bs) = b.1 ++ image bs from rfl, List.length_append, List.length_cons,
      Nat.mul_succ]
    omega

theorem dump_burned (a : Nat) (blocks : List Block) (flash : Nat → UInt8)
    (hend : a + (image blocks).length ≤ bootStartAddr) :
    Device.dump (image blocks).length { flash := burned a blocks flash, address := .ofNat a } =
      image blocks := by
  have hle := length_image_le blocks
  simp only [bootStartAddr] at hend
  refine List.ext_getElem (Device.length_dump _ _) fun i hi hi' => ?_
  have hidx : ((UInt32.ofNat a).toNat + i) % flashSize = a + i := by
    rw [UInt32.toNat_ofNat', flashSize]
    omega
  simp only [Device.dump, List.getElem_map, List.getElem_range, hidx, burned]
  rw [if_pos (by omega), Nat.add_sub_cancel_left, List.getD_eq_getElem _ _ hi']

/-- The requests of an upload to `a` with verification: the address once, the
blocks, the address again, and reads of any sizes. -/
def uploadAndVerify (a : Nat) (blocks : List Block) (sizes : List UInt16) : List Request :=
  seek a :: (blocks.map store ++ seek a :: sizes.map load)

theorem supported_uploadAndVerify (a : Nat) (blocks : List Block) (sizes : List UInt16) :
    ∀ r ∈ uploadAndVerify a blocks sizes, Supported r := by
  intro r hr
  simp only [uploadAndVerify, List.mem_cons, List.mem_append, List.mem_map] at hr
  obtain rfl | ⟨b, -, rfl⟩ | rfl | ⟨n, -, rfl⟩ := hr
  · trivial
  · rfl
  · trivial
  · rfl

theorem Paged.length_image_pos {blocks : List Block} (hp : Paged blocks) :
    0 < (image blocks).length := by
  cases hp with
  | last b he hp => simpa [image] using hp
  | page b hb hbs =>
    rw [image, List.flatMap_cons, List.length_append, hb]
    exact Nat.add_pos_left (by decide) _

section UploadAndVerify

variable {a : Nat} {blocks : List Block} {sizes : List UInt16} (d : Device)
  (ha : a % spmPageSize = 0) (hp : Paged blocks) (hend : a + (image blocks).length ≤ bootStartAddr)
include ha hp hend

theorem serveAll_upload :
    (d.serveAll (seek a :: blocks.map store)).serve (seek a) =
      { flash := burned a blocks d.flash, address := .ofNat a } := by
  have hpos := hp.length_image_pos
  simp only [spmPageSize] at ha
  rw [serve_seek a (by omega) (by omega)]
  have hflash := serveAll_store hp a (d.serve (seek a)) ha
    (by rw [serve_seek a (by omega) (by omega)]) hend
  rw [serve_seek a (by omega) (by omega)] at hflash
  rw [Device.serveAll, List.foldl_cons, serve_seek a (by omega) (by omega)]
  exact congrArg (fun f => Device.mk f (.ofNat a)) hflash

theorem replies_uploadAndVerify (hs : ∀ n ∈ sizes, n.toNat % 2 = 0)
    (hsum : (sizes.map UInt16.toNat).sum = (image blocks).length) :
    d.replies (uploadAndVerify a blocks sizes) =
      List.replicate (blocks.length + 2) carriageReturn ++ image blocks := by
  have hback : ((d.serve (seek a)).serveAll (blocks.map store)).serve (seek a) = _ :=
    serveAll_upload d ha hp hend
  rw [uploadAndVerify, Device.replies, replies_store, Device.replies, hback, replies_load sizes hs,
    hsum, dump_burned a blocks d.flash hend, List.replicate_succ, List.replicate_succ',
    List.cons_append, List.append_assoc]
  rfl

theorem serveAll_uploadAndVerify :
    d.serveAll (uploadAndVerify a blocks sizes) =
      Device.serveAll (sizes.map load)
        { flash := burned a blocks d.flash, address := .ofNat a } := by
  have hsplit : uploadAndVerify a blocks sizes =
      (seek a :: blocks.map store) ++ (seek a :: sizes.map load) := rfl
  rw [hsplit, Device.serveAll, List.foldl_append, List.foldl_cons]
  exact congrArg (Device.serveAll (sizes.map load)) (serveAll_upload d ha hp hend)

end UploadAndVerify

/-- The image stands in flash at `a`, with the rest of its last page erased, and
no other byte of `flash` has changed. -/
structure Uploaded (a : Nat) (blocks : List Block) (flash flash' : Nat → UInt8) : Prop where
  image : ∀ i (h : i < (image blocks).length), flash' (a + i) = (image blocks)[i]
  erased : ∀ i, a + (Upload.image blocks).length ≤ i → i < a + spmPageSize * blocks.length →
    flash' i = 0xFF
  rest : ∀ i, i < a ∨ a + spmPageSize * blocks.length ≤ i → flash' i = flash i

theorem uploaded_burned (a : Nat) (blocks : List Block) (flash : Nat → UInt8) :
    Uploaded a blocks flash (burned a blocks flash) := by
  have hle := length_image_le blocks
  refine ⟨fun i h => ?_, fun i h h' => ?_, fun i h => ?_⟩
  · rw [burned, if_pos (by omega), Nat.add_sub_cancel_left, List.getD_eq_getElem _ _ h]
  · rw [burned, if_pos (by omega), List.getD_eq_default _ _ (by omega)]
  · rw [burned, if_neg (by omega)]

/-- Upload then verify is the identity: unless a timeout or a detachment comes
first, the session comes to rest, and at rest every request has been confirmed,
the image has come back whatever the sizes of the reads, it stands in flash, and
the address is that of its end. -/
theorem upload_verified (a : Nat) (blocks : List Block) (sizes : List UInt16)
    (ha : a % spmPageSize = 0) (hp : Paged blocks)
    (hend : a + (image blocks).length ≤ bootStartAddr) (hs : ∀ n ∈ sizes, n.toNat % 2 = 0)
    (hsum : (sizes.map UInt16.toNat).sum = (image blocks).length)
    (σ : Nat → Move Event) (hσ : Fair σ) (h0 : σ 0 = .cpu) (s : State) (hi : Idle s.core)
    (hu : s.usb.unread = stream (uploadAndVerify a blocks sizes)) :
    Rests σ s ∧ ∀ n, AliveUntil σ s n → AtRest (programmerAt σ s n) →
      (programmerAt σ s n).2.usb.written = s.usb.written ++
        (List.replicate (blocks.length + 2) carriageReturn ++ image blocks) ∧
      Uploaded a blocks s.core.mem.flash (programmerAt σ s n).2.core.mem.flash ∧
      (programmerAt σ s n).2.core.currAddress = .ofNat (a + (image blocks).length) := by
  have hsettle := requests_settle
    (fun r h => consumed_of_supported (supported_uploadAndVerify a blocks sizes r h)) hσ h0 hi hu
  refine ⟨hsettle.rests, fun n halive hrest => ?_⟩
  obtain ⟨hw, hd⟩ := hsettle.result n halive hrest
  rw [replies_uploadAndVerify _ ha hp hend hs hsum] at hw
  rw [serveAll_uploadAndVerify _ ha hp hend] at hd
  have hflash := (congrArg Device.flash hd).trans (flash_serveAll_load sizes _)
  have haddr := (congrArg Device.address hd).trans (address_serveAll_load sizes hs _)
  rw [hsum, ← UInt32.ofNat_add] at haddr
  refine ⟨hw, ?_, haddr⟩
  rw [show (programmerAt σ s n).2.core.mem.flash = burned a blocks s.core.mem.flash from hflash]
  exact uploaded_burned a blocks _

def pageAndWords : List Block :=
  [⟨(List.range spmPageSize).map UInt8.ofNat, by simp⟩, ⟨[0x0C, 0x94, 0x72, 0x00], by decide⟩]

theorem length_pageAndWords : (image pageAndWords).length = 132 := by decide +kernel

def twoBlocks : State :=
  ready (fun _ => 0) (bytewise (stream (uploadAndVerify 128 pageAndWords [100, 30, 2])))

theorem upload_verified_two_blocks :
    ∃ n, AtRest (programmerAt roundRobin twoBlocks n) ∧
      (programmerAt roundRobin twoBlocks n).2.usb.written = [13, 13, 13, 13] ++ image pageAndWords ∧
      (programmerAt roundRobin twoBlocks n).2.core.mem.flash 257 = 0x94 ∧
      (programmerAt roundRobin twoBlocks n).2.core.mem.flash 260 = 0xFF ∧
      (programmerAt roundRobin twoBlocks n).2.core.mem.flash 384 = 0 := by
  have hpaged : Paged pageAndWords := .page _ (by simp) (.last _ rfl (by decide))
  have hlen := length_pageAndWords
  have halive : Alive twoBlocks := alive_ready _ _
  have hword : (image pageAndWords)[129]? = some 0x94 := by decide +kernel
  obtain ⟨hrests, hresult⟩ := upload_verified 128 pageAndWords [100, 30, 2] rfl hpaged
    (by rw [hlen]; decide) (by simp) (by simp [hlen]) roundRobin fair_roundRobin rfl twoBlocks
    (idle_ready _ _) (unread_bytewise _ _)
  obtain ⟨n, hn⟩ := exists_rest_roundRobin halive hrests
  obtain ⟨hw, hflash, -⟩ := hresult n (aliveUntil_roundRobin halive n) hn
  refine ⟨n, hn, hw, ?_, hflash.erased 260 (by omega) (by decide), hflash.rest 384 (by decide)⟩
  exact (hflash.image 129 (by omega)).trans ((List.getElem_eq_iff _).mpr hword)

/-- The block ends inside the page it starts in, or what lies beyond is there
already; and it consists of whole words, or its odd last byte is blank. -/
structure Storable (a : Nat) (b : Block) (flash : Nat → UInt8) : Prop where
  words : ∀ i (h : i < b.1.length), a % spmPageSize + i < spmPageSize →
    b.1.length % 2 = 1 → i + 1 = b.1.length → b.1[i] = 0xFF
  page : ∀ i (h : i < b.1.length), spmPageSize ≤ a % spmPageSize + i → flash (a + i) = b.1[i]

theorem programmed_inside (a i : Nat) (b : Block) (flash : Nat → UInt8) (h : i < b.1.length)
    (hi : a % spmPageSize + i < spmPageSize) :
    Device.programmed a b.1 flash (a + i) = b.1[i] ↔
      (b.1.length % 2 = 1 → i + 1 = b.1.length → b.1[i] = 0xFF) := by
  have hpage : pageOf (a + i) = pageOf a := by
    simp only [pageOf, spmPageSize] at hi ⊢
    omega
  have hj : Device.pageOffset a (a + i) = i := by
    simp only [Device.pageOffset, spmPageSize] at hi ⊢
    omega
  rw [programmed_block a b flash _ hpage, hj]
  by_cases hw : i < 2 * (b.1.length / 2)
  · rw [if_pos hw, List.getD_eq_getElem _ _ h]
    exact ⟨fun _ _ _ => by omega, fun _ => rfl⟩
  · rw [if_neg hw]
    exact ⟨fun he _ _ => he.symm, fun he => (he (by omega) (by omega)).symm⟩

theorem programmed_outside (a i : Nat) (b : Block) (flash : Nat → UInt8)
    (hi : spmPageSize ≤ a % spmPageSize + i) :
    Device.programmed a b.1 flash (a + i) = flash (a + i) := by
  have hpage : ¬ pageOf (a + i) = pageOf a := by
    simp only [pageOf, spmPageSize] at hi ⊢
    omega
  rw [Device.programmed, if_neg hpage]

theorem stored_iff_storable (a : Nat) (b : Block) (flash : Nat → UInt8) :
    (∀ i (h : i < b.1.length), Device.programmed a b.1 flash (a + i) = b.1[i]) ↔
      Storable a b flash := by
  constructor
  · intro hs
    refine ⟨fun i h hi => (programmed_inside a i b flash h hi).mp (hs i h), fun i h hi => ?_⟩
    rw [← programmed_outside a i b flash hi]
    exact hs i h
  · intro hs i h
    by_cases hi : a % spmPageSize + i < spmPageSize
    · exact (programmed_inside a i b flash h hi).mpr (hs.words i h hi)
    · rw [programmed_outside a i b flash (Nat.le_of_not_lt hi)]
      exact hs.page i h (Nat.le_of_not_lt hi)

theorem consumed_placed (hi lo : UInt8) (b : Block) :
    ∀ r ∈ [.setAddress hi lo, store b], consumed r = r.args := by
  intro r hr
  simp only [List.mem_cons, List.not_mem_nil, or_false] at hr
  obtain rfl | rfl := hr <;> rfl

/-- `A` and `B` are confirmed unless a timeout or a detachment comes first, and
when both have been, the block is in flash exactly if it was storable. -/
theorem confirmed_iff_storable (hi lo : UInt8) (b : Block) (a : Nat)
    (ha : a = 2 * (256 * hi.toNat + lo.toNat)) (hend : a + b.1.length ≤ bootStartAddr)
    (σ : Nat → Move Event) (hσ : Fair σ) (h0 : σ 0 = .cpu) (s : State) (hs : Idle s.core)
    (hu : s.usb.unread = stream [.setAddress hi lo, store b]) :
    Rests σ s ∧
    (∀ n, AliveUntil σ s n → AtRest (programmerAt σ s n) →
      (programmerAt σ s n).2.usb.written = s.usb.written ++ [carriageReturn, carriageReturn]) ∧
    ∀ n, AliveUntil σ s n → (programmerAt σ s n).1 = avr109Loop →
      (programmerAt σ s n).2.usb.written = s.usb.written ++ [carriageReturn, carriageReturn] →
      ((∀ i (h : i < b.1.length), (programmerAt σ s n).2.core.mem.flash (a + i) = b.1[i]) ↔
        Storable a b s.core.mem.flash) := by
  have hc := consumed_placed hi lo b
  have hsettle := requests_settle hc hσ h0 hs hu
  refine ⟨hsettle.rests, fun n halive hrest => (hsettle.result n halive hrest).1, ?_⟩
  intro n halive htop hw
  obtain ⟨done, rest, hsplit, -, hw', hd⟩ := requests_top hc h0 hs hu halive htop
  -- each of the two requests has one answer, so that none is left
  have hreplies : (deviceOf s.core).replies done = [carriageReturn, carriageReturn] :=
    List.append_cancel_left (hw'.symm.trans hw)
  have hdone : done = [.setAddress hi lo, store b] := by
    match done with
    | [] => cases hreplies
    | [q] =>
      rw [← (List.cons.inj hsplit).1] at hreplies
      cases hreplies
    | [q, q'] =>
      obtain ⟨hq, htail⟩ := List.cons.inj hsplit
      rw [hq, (List.cons.inj htail).1]
    | _ :: _ :: _ :: _ => cases hsplit
  have haddr : hwAddr (addressHigh hi ||| addressLow lo) = a := by
    simp only [bootStartAddr] at hend
    rw [hwAddr, toNat_setAddress, (toNat_addressHigh hi).2.2 (by omega), flashSize]
    omega
  have hflash : (programmerAt σ s n).2.core.mem.flash =
      Device.programmed a b.1 s.core.mem.flash := by
    rw [hdone] at hd
    rw [← haddr]
    exact congrArg Device.flash hd
  rw [← stored_iff_storable, hflash]

def sendingWord : State :=
  ready (fun _ => 0) (bytewise (stream [.setAddress 0 64, store ⟨[1, 2], by decide⟩]))

theorem confirmed_iff_storable_page :
    ∃ n, (programmerAt roundRobin sendingWord n).2.usb.written = [13, 13] ∧
      (programmerAt roundRobin sendingWord n).2.core.mem.flash 129 = 2 := by
  obtain ⟨hrests, hanswers, hiff⟩ := confirmed_iff_storable 0 64 ⟨[1, 2], by decide⟩ 128 rfl
    (by decide) roundRobin fair_roundRobin rfl sendingWord (idle_ready _ _) (unread_bytewise _ _)
  have halive := aliveUntil_roundRobin (s := sendingWord) (alive_ready _ _)
  obtain ⟨n, hn⟩ := exists_rest_roundRobin (alive_ready _ _) hrests
  have hw := hanswers n (halive n) hn
  refine ⟨n, hw, (hiff n (halive n) hn.1 hw).mpr ⟨?_, ?_⟩ 1 (by decide)⟩
  · intro i _ _ hodd
    exact absurd hodd (by decide)
  · intro i h hi
    simp only [spmPageSize, List.length_cons, List.length_nil] at h hi
    omega

def sendingByte : State :=
  ready (fun _ => 0xFF) (bytewise (stream [.setAddress 0 0, store ⟨[0x12], by decide⟩]))

/-- The byte is confirmed and forgotten. -/
theorem odd_block_lost :
    ∃ n, AliveUntil roundRobin sendingByte n ∧ AtRest (programmerAt roundRobin sendingByte n) ∧
      (programmerAt roundRobin sendingByte n).2.usb.written = [13, 13] ∧
      (programmerAt roundRobin sendingByte n).2.core.mem.flash 0 = 0xFF := by
  have hsettle := requests_settle (consumed_placed 0 0 ⟨[0x12], by decide⟩) fair_roundRobin rfl
    (s := sendingByte) (idle_ready _ _) (unread_bytewise _ _)
  have halive := aliveUntil_roundRobin (s := sendingByte) (alive_ready _ _)
  obtain ⟨n, hn⟩ := exists_rest_roundRobin (alive_ready _ _) hsettle.rests
  obtain ⟨hw, hd⟩ := hsettle.result n (halive n) hn
  exact ⟨n, halive n, hn, hw, congrFun (congrArg Device.flash hd) 0⟩

end Adelino.Upload
