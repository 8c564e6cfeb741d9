import Adelino.Block
import Adelino.Protocol

namespace Adelino.Commands

open Adelino.Flash Adelino.Machine Adelino.UsbBytes Adelino.Streams Adelino.Execution
open Adelino.Avr109 Adelino.Block Adelino.Protocol

/-- The argument bytes the firmware reads before it looks for a new command. -/
def consumed : Request → List UInt8
  | .bare _ _ => []
  | .single command _ x => if command = ascii 'T' then [x] else []
  | .setAddress hi lo => [hi, lo]
  | .readFlash hi lo memoryType => [hi, lo, memoryType]
  | .writeFlash hi lo memoryType data _ =>
    if memoryType = ascii 'F' then hi :: lo :: memoryType :: data else [hi, lo, memoryType]

def noteBlock (command hi lo memoryType : UInt8) (c : Core) : Core :=
  observe (.block command (blockSize hi lo) memoryType) (normalBoot c)

def effect : Request → Core → Core
  | .bare command _, c => if command = ascii 'E' then spm .rwwEnable c else c
  | .single _ _ _, c => c
  | .setAddress hi lo, c => seekLow lo (seekHigh hi c)
  | .readFlash hi lo memoryType, c =>
    let c := noteBlock (ascii 'g') hi lo memoryType c
    if memoryType = ascii 'F' then loadBlock (blockSize hi lo).toNat c else c
  | .writeFlash hi lo memoryType data _, c =>
    let c := noteBlock (ascii 'B') hi lo memoryType c
    if memoryType = ascii 'F' then storeBlock data c else c

def bareReply (command : UInt8) : List UInt8 :=
  if command ∈ ['E', 'L', 'P'].map ascii then [carriageReturn]
  else if command = ascii 't' then [0x44, 0x00]
  else if command = ascii 'a' then [ascii 'Y']
  else if command = ascii 'p' then [ascii 'S']
  else if command = ascii 'S' then softwareIdentifier
  else if command = ascii 'V' then
    [ascii '0' + bootloaderVersionMajor, ascii '0' + bootloaderVersionMinor]
  else if command = ascii 's' then [avrSignature3, avrSignature2, avrSignature1]
  else if command = ascii 'b' then
    [ascii 'Y', (spmPageSize / 256).toUInt8, (spmPageSize % 256).toUInt8]
  else if command = esc then []
  else [ascii '?']

def reply : Request → Core → List UInt8
  | .bare command _, _ => bareReply command
  | .single command _ _, _ => if command = ascii 'T' then [carriageReturn] else [ascii '?']
  | .setAddress _ _, _ => [carriageReturn]
  | .readFlash hi lo memoryType, c =>
    if memoryType = ascii 'F' then dumpBytes (blockSize hi lo).toNat (loadCore c) else [ascii '?']
  | .writeFlash _ _ memoryType _ _, _ =>
    if memoryType = ascii 'F' then [carriageReturn] else [ascii '?']

theorem executes_reply (b : UInt8) (v : View) : Executes (usbWriteByte b) v () (v.writeBytes [b]) :=
  executes_usbWriteByte b v

theorem bare_executes (command : UInt8) (h : command ∉ framed) (v : View) :
    Executes (avr109Command command) v ()
      ((v.mapCore (effect (.bare command h))).writeBytes (bareReply command)) := by
  rw [avr109Command]
  refine executes_ite (fun he => ?_) (fun hE => ?_)
  · subst he
    refine .bind (executes_setTimeout _ _) ?_
    refine .bind (executes_onCore _ _ (trace_spm _ _)) ?_
    exact executes_reply _ _
  have hcore : v.mapCore (effect (.bare command h)) = v := by
    simp only [View.mapCore, effect, if_neg hE]
  rw [hcore]
  refine executes_ite (fun he => absurd (he ▸ h) (by decide)) (fun hT => ?_)
  refine executes_ite (fun he => ?_) (fun hLP => ?_)
  · obtain rfl | rfl := he
    · exact executes_reply _ _
    · exact executes_reply _ _
  refine executes_ite (fun he => he ▸ executes_usbWriteBytes _ _) (fun ht => ?_)
  refine executes_ite (fun he => he ▸ executes_reply _ _) (fun ha => ?_)
  refine executes_ite (fun he => absurd (he ▸ h) (by decide)) (fun hA => ?_)
  refine executes_ite (fun he => he ▸ executes_reply _ _) (fun hp => ?_)
  refine executes_ite (fun he => he ▸ executes_usbWriteBytes _ _) (fun hS => ?_)
  refine executes_ite (fun he => he ▸ executes_usbWriteBytes _ _) (fun hV => ?_)
  refine executes_ite (fun he => he ▸ executes_usbWriteBytes _ _) (fun hs => ?_)
  refine executes_ite (fun he => he ▸ executes_usbWriteBytes _ _) (fun hb => ?_)
  refine executes_ite (fun he => ?_) (fun hBg => ?_)
  · obtain rfl | rfl := he
    · exact absurd h (by decide)
    · exact absurd h (by decide)
  have hcr : command ∉ ['E', 'L', 'P'].map ascii := by
    simpa [not_or] using And.intro hE (not_or.mp hLP)
  rw [bareReply, if_neg hcr, if_neg ht, if_neg ha, if_neg hp, if_neg hS, if_neg hV, if_neg hs,
    if_neg hb]
  refine executes_ite (fun hne => ?_) (fun he => ?_)
  · rw [if_neg hne]
    exact executes_reply _ _
  · rw [if_pos (not_not.mp he), writeBytes_nil]
    exact .ret () v

theorem dumpBytes_congr (n : Nat) (c c' : Core) (hm : c.mem = c'.mem)
    (ha : c.currAddress = c'.currAddress) : dumpBytes n c = dumpBytes n c' := by
  induction n, c using dumpBytes.induct generalizing c' with
  | case1 c => rfl
  | case2 c => simp only [dumpBytes, hm, ha]
  | case3 n c ih => simp only [dumpBytes, hm, ha, ih (advanceAddress c') hm (congrArg (· + 2) ha)]

theorem readFlash_executes (hi lo memoryType : UInt8) (rest : List UInt8) (v : View)
    (h : v.unread = hi :: lo :: memoryType :: rest) :
    Executes (avr109Command (ascii 'g')) v ()
      (((v.readBytes [hi, lo, memoryType] rest).mapCore
        (effect (.readFlash hi lo memoryType))).writeBytes
        (reply (.readFlash hi lo memoryType) v.core)) := by
  refine .bind (executes_setTimeout _ _) ?_
  refine .bind (executes_onCore _ _ (List.suffix_cons _ _)) ?_
  by_cases hm : memoryType = ascii 'F'
  · subst hm
    refine (loadBlock_executes hi lo rest (v.mapCore normalBoot) h).congr ?_
    have hd := dumpBytes_congr (blockSize hi lo).toNat
      (loadCore (noteBlock (ascii 'g') hi lo (ascii 'F') v.core)) (loadCore v.core) rfl rfl
    simp [View.readBytes, View.mapCore, View.writeBytes, effect, reply, ← hd, noteBlock]
  · refine (refusedBlock_executes _ hi lo memoryType rest (v.mapCore normalBoot) h hm).congr ?_
    simp [View.readBytes, View.mapCore, View.writeBytes, View.writeByte, effect, reply, hm,
      noteBlock]

theorem writeFlash_executes (hi lo memoryType : UInt8) (data rest : List UInt8) (v : View)
    (hl : data.length = (blockSize hi lo).toNat)
    (h : v.unread = consumed (.writeFlash hi lo memoryType data hl) ++ rest) :
    Executes (avr109Command (ascii 'B')) v ()
      (((v.readBytes (consumed (.writeFlash hi lo memoryType data hl)) rest).mapCore
          (effect (.writeFlash hi lo memoryType data hl))).writeBytes
        (reply (.writeFlash hi lo memoryType data hl) v.core)) := by
  refine .bind (executes_setTimeout _ _) ?_
  refine .bind (executes_onCore _ _ (List.suffix_cons _ _)) ?_
  by_cases hm : memoryType = ascii 'F'
  · subst hm
    rw [consumed, if_pos rfl] at h ⊢
    refine (storeBlock_executes hi lo data rest (v.mapCore normalBoot) h hl).congr ?_
    simp [View.readBytes, View.mapCore, View.writeBytes, View.writeByte, effect, reply, noteBlock]
  · rw [consumed, if_neg hm] at h ⊢
    refine (refusedBlock_executes _ hi lo memoryType rest (v.mapCore normalBoot) h hm).congr ?_
    simp [View.readBytes, View.mapCore, View.writeBytes, View.writeByte, effect, reply, hm,
      noteBlock]

theorem setAddress_executes (hi lo : UInt8) (rest : List UInt8) (v : View)
    (h : v.unread = hi :: lo :: rest) :
    Executes (avr109Command (ascii 'A')) v ()
      (((v.readBytes [hi, lo] rest).mapCore (effect (.setAddress hi lo))).writeBytes
        [carriageReturn]) := by
  refine .bind (executes_usbReadByte _ _ h) ?_
  refine .bind (executes_onCore _ _ (List.suffix_cons _ _)) ?_
  refine .bind (executes_usbReadByte _ _ rfl) ?_
  refine .bind (executes_onCore _ _ (List.suffix_cons _ _)) ?_
  refine (executes_reply _ _).congr ?_
  simp [View.readBytes, View.readByte, View.mapCore, View.writeBytes, effect]

theorem single_executes (command : UInt8) (hc : command ∈ unary) (x : UInt8) (rest : List UInt8)
    (v : View) (h : v.unread = consumed (.single command hc x) ++ rest) :
    Executes (avr109Command command) v ()
      ((v.readBytes (consumed (.single command hc x)) rest).writeBytes
        (reply (.single command hc x) v.core)) := by
  by_cases hT : command = ascii 'T'
  · subst hT
    exact .bind (executes_usbReadByte x rest h) (executes_reply _ _)
  · rw [consumed, if_neg hT] at h ⊢
    rw [readBytes_nil rest h, reply, if_neg hT]
    simp only [unary, List.map_cons, List.map_nil, List.mem_cons, List.not_mem_nil, or_false] at hc
    obtain hc | rfl | rfl | rfl | rfl := hc
    · exact absurd hc hT
    all_goals exact executes_reply _ _

/-- Each command does what `effect` and `reply` say, from any start. -/
theorem command_executes (r : Request) (rest : List UInt8) (v : View)
    (h : v.unread = consumed r ++ rest) :
    Executes (avr109Command r.command) v ()
      (((v.readBytes (consumed r) rest).mapCore (effect r)).writeBytes (reply r v.core)) := by
  cases r with
  | bare command hc =>
    rw [consumed, readBytes_nil rest h]
    exact bare_executes command hc v
  | single command hc x => exact single_executes command hc x rest v h
  | setAddress hi lo => exact setAddress_executes hi lo rest v h
  | readFlash hi lo memoryType => exact readFlash_executes hi lo memoryType rest v h
  | writeFlash hi lo memoryType data hl =>
    exact writeFlash_executes hi lo memoryType data rest v hl h

def serve (r : Request) (rest : List UInt8) (v : View) : View :=
  { v with
    core := effect r (observe (.dispatch v.got.length r.command) v.core)
    unread := rest
    got := v.got ++ r.command :: consumed r
    written := v.written ++ reply r v.core }

def dispatch (command : UInt8) (rest : List UInt8) (v : View) : View :=
  (v.readByte command rest).mapCore (observe (.dispatch v.got.length command))

theorem noteDispatch_executes (command : UInt8) (rest : List UInt8) (v : View) :
    Executes (noteDispatch command) (v.readByte command rest) () (dispatch command rest v) := by
  refine (executes_modify _ (fun v => v.mapCore (observe (.dispatch (v.got.length - 1) command)))
    (fun _ => rfl) _ (le_core (List.suffix_cons _ _))).congr ?_
  simp [View.readByte, dispatch]

theorem reply_dispatch (r : Request) (pos : Nat) (c : Core) :
    reply r (observe (.dispatch pos r.command) c) = reply r c := by
  cases r with
  | readFlash hi lo memoryType =>
    simp only [reply]
    rw [dumpBytes_congr _ (loadCore (observe _ c)) (loadCore c) rfl rfl]
  | _ => rfl

theorem avr109Request_executes (r : Request) (rest : List UInt8) (v : View)
    (h : v.unread = r.command :: (consumed r ++ rest)) :
    Executes avr109Request v () (serve r rest v) := by
  refine .bind (executes_usbReadByte _ _ h) ?_
  refine .bind (noteDispatch_executes _ _ v) ?_
  refine .bind (command_executes r rest _ rfl) ?_
  refine (executes_usbFlush _).congr ?_
  simp [serve, dispatch, View.readBytes, View.readByte, View.mapCore, View.writeBytes,
    reply_dispatch]

end Adelino.Commands
