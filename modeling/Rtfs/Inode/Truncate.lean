import Rtfs.Inode.DirLookup
import Rtfs.Inode.FilePages

namespace Rtfs

open DirEntries (sizeToBlock)

def rtfsFileInodeAppendPendingTruncateOldLpa (realloc : Nat → Bool) (a : GrowArray UInt32) (oldLpa : UInt32) :
    Except Errno (GrowArray UInt32) :=
  if oldLpa = invalidLpa then .ok a
  else if a.capacity ≤ a.items.length then
    let newCapacity := if a.capacity = 0 then 8 else a.capacity * 2
    if realloc newCapacity then .ok ⟨a.items ++ [oldLpa],newCapacity⟩ else .error .enomem
  else .ok ⟨a.items ++ [oldLpa],a.capacity⟩

def clearTail (page : Block) (keepBytes : Nat) : Block :=
  page.write keepBytes (List.replicate (4096 - keepBytes) 0)

def zeroLastPage (env : FileEnv) (f : RtfsFileInode) (targetSize : UInt64) (newBlockCount : Nat) :
    Except FileError Unit × RtfsFileInode :=
  if 4294967295 < newBlockCount - 1 then (.error .efbig,f)
  else
    let blockIndex := UInt32.ofNat (newBlockCount - 1)
    match rtfsFileInodePreparePageForRead env f blockIndex with
    | (.error e,f) => (.error (.errno e),f)
    | (.ok pageEntry,f) => (.ok (),f.setPage blockIndex { pageEntry with
        page := clearTail pageEntry.page (targetSize.toNat % 4096), contentState := .pageReady, isDirty := true })

def clearBlocks (env : FileEnv) : Nat → Nat → RtfsFileInode → Except FileError Unit × RtfsFileInode
  | 0, _, f => (.ok (),f)
  | n + 1, blockIndex, f =>
    if 4294967295 < blockIndex then (.error .efbig,f)
    else
      match rtfsFileSetDataLpaByBlockIndex f.nodes f.ino (UInt32.ofNat blockIndex) invalidLpa false with
      | (.error e,nodes) => (.error (.errno e),{ f with nodes := nodes })
      | (.ok oldLpa,nodes) =>
        match rtfsFileInodeAppendPendingTruncateOldLpa env.realloc f.pendingTruncateOldLpas oldLpa with
        | .error e => (.error (.errno e),{ f with nodes := nodes })
        | .ok a => clearBlocks env n (blockIndex + 1) { f with nodes := nodes, pendingTruncateOldLpas := a }

def dirtyAt (c : PageCache) (blkoff : UInt32) : Bool := ((c blkoff).map PageEntry.isDirty).getD false

-- the search goes on behind maxBlkoff when its own page is dirty, and wraps
def firstBlkoff (c : PageCache) (maxBlkoff : UInt32) : UInt32 :=
  if dirtyAt c maxBlkoff then 1 + maxBlkoff else maxBlkoff

def pageCacheTruncate (c : PageCache) (maxBlkoff : UInt32) : PageCache :=
  fun blkoff => (c blkoff).map (fun e =>
    if firstBlkoff c maxBlkoff ≤ blkoff ∧ e.isDirty = true then { e with isDirty := false, contentState := .pageInvalid } else e)

def pageCacheClearDirtyPages (c : PageCache) : PageCache :=
  fun blkoff => (c blkoff).map (fun e => { e with isDirty := false })

def rtfsFileInodeInvalidateCachedPagesFrom (c : PageCache) (targetSize : UInt64) : PageCache :=
  let targetBlock := targetSize.toNat / 4096
  let firstInvalidBlock := if targetSize.toNat % 4096 = 0 then targetBlock else targetBlock + 1
  let c :=
    if targetSize = 0 then pageCacheClearDirtyPages c
    else if firstInvalidBlock - 1 ≤ 4294967295 then pageCacheTruncate c (UInt32.ofNat (firstInvalidBlock - 1))
    else c
  if 4294967295 < firstInvalidBlock then c
  else fun blkoff => (c blkoff).map (fun e =>
    if blkoff.toNat < firstInvalidBlock then e
    else { e with lpa := invalidLpa, contentState := .pageInvalid, isDirty := false })

def PartialPage (iSize targetSize : UInt64) : Prop :=
  targetSize.toNat % 4096 ≠ 0 ∧ 0 < sizeToBlock targetSize ∧ sizeToBlock targetSize ≤ sizeToBlock iSize

instance (iSize targetSize : UInt64) : Decidable (PartialPage iSize targetSize) := by
  unfold PartialPage
  infer_instance

def rtfsFileInodeTruncate (env : FileEnv) (f : RtfsFileInode) (targetSize : UInt64) :
    Except FileError Unit × RtfsFileInode :=
  if targetSize = f.iSize then (.ok (),f)
  else if f.iSize < targetSize then (.ok (),{ f with iSize := targetSize, isDirty := true })
  else
    let oldBlockCount := sizeToBlock f.iSize
    let newBlockCount := sizeToBlock targetSize
    match if PartialPage f.iSize targetSize then zeroLastPage env f targetSize newBlockCount else (.ok (),f) with
    | (.error e,f) => (.error e,f)
    | (.ok _,f) =>
      match clearBlocks env (oldBlockCount - newBlockCount) newBlockCount f with
      | (.error e,f) => (.error e,f)
      | (.ok _,f) => (.ok (),{ f with
          pageCache := rtfsFileInodeInvalidateCachedPagesFrom f.pageCache targetSize
          iSize := targetSize, isDirty := true })

def blockLpa (f : RtfsFileInode) (blockIndex : Nat) : Except FileError UInt32 :=
  if 4294967295 < blockIndex then .error .efbig
  else (rtfsFileResolveDataLpaByBlockIndex f.nodes f.ino (UInt32.ofNat blockIndex)).mapError .errno

section Clear
variable {s : NodeStore} {ino : UInt32}

theorem clear_result (h : IndexTree s ino) (b : UInt32) (create : Bool) :
    (rtfsFileSetDataLpaByBlockIndex s ino b invalidLpa create).1 = rtfsFileResolveDataLpaByBlockIndex s ino b := by
  have hput := fileSet_put h b invalidLpa create
  rw [fileResolve_eq h,slotAddr]
  cases hslot : blockSlot b.toNat with
  | none =>
    rw [hslot] at hput
    rw [hput]
  | some t =>
    obtain ⟨p,i⟩ := t
    simp only [hslot] at hput ⊢
    have hclear := SlotTree.put_clear (s.cells ino) s.freshNids ino create p i
    rw [hput.result]
    refine (congrArg (Except.mapError putErrno) hclear).trans ?_
    cases SlotTree.read (s.cells ino) ino p i with
    | none => rfl
    | some v => rfl

theorem setBelow_clear_same {slots : List (Nat × UInt32)} {holder : UInt32} {off : Nat} {create : Bool}
    (h : ∀ v, (setBelow ino invalidLpa create s slots holder off).1 = .ok v → v = invalidLpa) :
    (setBelow ino invalidLpa create s slots holder off).2 = s := by
  induction slots generalizing holder with
  | nil =>
    rw [setBelow] at h ⊢
    cases hb : s.node holder with
    | none => rfl
    | some b =>
      rw [hb] at h
      exact if_neg (not_not.mpr (h _ rfl))
  | cons entry slots ih =>
    obtain ⟨slot,noffset⟩ := entry
    rw [setBelow] at h ⊢
    cases hb : s.node holder with
    | none => rfl
    | some b =>
      simp only [hb] at h ⊢
      by_cases hz : nidAt ino holder b slot = invalidNid
      · rw [if_neg (not_not.mpr hz),if_pos trivial]
      · rw [if_pos hz] at h ⊢
        exact ih h

theorem clear_same (s : NodeStore) (ino b : UInt32) (create : Bool)
    (h : ∀ v, (rtfsFileSetDataLpaByBlockIndex s ino b invalidLpa create).1 = .ok v → v = invalidLpa) :
    (rtfsFileSetDataLpaByBlockIndex s ino b invalidLpa create).2 = s := by
  unfold rtfsFileSetDataLpaByBlockIndex at h ⊢
  cases hb : s.node ino with
  | none => rfl
  | some inode =>
    simp only [hb] at h ⊢
    split
    · rename_i hin
      rw [if_pos hin] at h
      exact if_neg (not_not.mpr (h _ rfl))
    · rename_i hin
      rw [if_neg hin] at h
      split
      · rename_i hd
        rw [if_pos hd] at h
        exact setBelow_clear_same h
      · rename_i hd
        rw [if_neg hd] at h
        split
        · rename_i hi
          rw [if_pos hi] at h
          exact setBelow_clear_same h
        · rename_i hi
          rw [if_neg hi] at h
          split
          · rename_i hdi
            rw [if_pos hdi] at h
            exact setBelow_clear_same h
          · rfl

end Clear

def blockLpas (f : RtfsFileInode) (blockIndex : Nat) : Nat → List UInt32
  | 0 => []
  | n + 1 => ((blockLpa f blockIndex).toOption.getD invalidLpa) :: blockLpas f (blockIndex + 1) n

structure Clears (env : FileEnv) (f : RtfsFileInode) (blockIndex n : Nat) : Prop where
  found : ∀ b, blockIndex ≤ b → b < blockIndex + n → ∃ v, blockLpa f b = .ok v
  room : ∃ a, (blockLpas f blockIndex n).foldlM (rtfsFileInodeAppendPendingTruncateOldLpa env.realloc)
    f.pendingTruncateOldLpas = .ok a

def StopsAtHole (f : RtfsFileInode) (blockIndex n : Nat) : Prop :=
  ∃ b, blockIndex ≤ b ∧ b < blockIndex + n ∧ (∃ e, blockLpa f b = .error e) ∧
    ∀ b', blockIndex ≤ b' → b' < b → blockLpa f b' = .ok invalidLpa

structure ClearedBlock (f f' : RtfsFileInode) (blockIndex : Nat) (oldLpa : UInt32) : Prop where
  tree : IndexTree f'.nodes f'.ino
  old : blockLpa f blockIndex = .ok oldLpa
  new : blockLpa f' blockIndex = .ok invalidLpa
  others : ∀ b, b ≠ blockIndex → blockLpa f' b = blockLpa f b

section Loop
variable {env : FileEnv} {f f' : RtfsFileInode} {blockIndex n : Nat}

theorem append_hole (realloc : Nat → Bool) (a : GrowArray UInt32) :
    rtfsFileInodeAppendPendingTruncateOldLpa realloc a invalidLpa = .ok a := if_pos rfl

theorem blockLpa_big (hbig : 4294967295 < blockIndex) : blockLpa f blockIndex = .error .efbig := if_pos hbig

theorem blockLpa_below (hbig : ¬ 4294967295 < blockIndex) : blockLpa f blockIndex =
    (rtfsFileResolveDataLpaByBlockIndex f.nodes f.ino (UInt32.ofNat blockIndex)).mapError .errno := if_neg hbig

theorem blockLpa_congr (hino : f'.ino = f.ino) (hnodes : f'.nodes = f.nodes) (b : Nat) :
    blockLpa f' b = blockLpa f b := by
  unfold blockLpa
  rw [hino,hnodes]

theorem mapError_ok {ε ε' α : Type} {x : Except ε α} {g : ε → ε'} {v : α} (h : x.mapError g = .ok v) :
    x = .ok v := by
  cases x with
  | error e => cases h
  | ok w =>
    cases h
    rfl

theorem ofNat_inj {b b' : Nat} (hb : ¬ 4294967295 < b) (hb' : ¬ 4294967295 < b')
    (h : UInt32.ofNat b = UInt32.ofNat b') : b = b' := by
  have hn := congrArg UInt32.toNat h
  rw [UInt32.toNat_ofNat',UInt32.toNat_ofNat',Nat.mod_eq_of_lt (by omega),Nat.mod_eq_of_lt (by omega)] at hn
  exact hn

theorem cleared_block (h : IndexTree f.nodes f.ino) (hbig : ¬ 4294967295 < blockIndex) {oldLpa : UInt32}
    {nodes : NodeStore} {a : GrowArray UInt32}
    (hs : rtfsFileSetDataLpaByBlockIndex f.nodes f.ino (UInt32.ofNat blockIndex) invalidLpa false =
      (.ok oldLpa,nodes)) :
    ClearedBlock f { f with nodes := nodes, pendingTruncateOldLpas := a } blockIndex oldLpa := by
  have hset := set_resolves h hs
  refine ⟨hset.tree,?_,?_,fun b hne => ?_⟩
  · rw [blockLpa_below hbig,hset.old]
    rfl
  · rw [blockLpa_below hbig]
    exact congrArg (Except.mapError FileError.errno) hset.new
  · by_cases hb : 4294967295 < b
    · rw [blockLpa_big hb,blockLpa_big hb]
    · rw [blockLpa_below hb,blockLpa_below hb]
      exact congrArg (Except.mapError FileError.errno)
        (hset.others _ (fun he => hne (ofNat_inj hb hbig he)))

inductive ClearStep (env : FileEnv) (n blockIndex : Nat) (f : RtfsFileInode) : Prop
  | stuck (e : FileError) (hb : blockLpa f blockIndex = .error e)
      (hr : clearBlocks env (n + 1) blockIndex f = (.error e,f))
  | hole (hb : blockLpa f blockIndex = .ok invalidLpa)
      (hr : clearBlocks env (n + 1) blockIndex f = clearBlocks env n (blockIndex + 1) f)
  | full (v : UInt32) (e : Errno) (g : RtfsFileInode) (hv : v ≠ invalidLpa)
      (ha : rtfsFileInodeAppendPendingTruncateOldLpa env.realloc f.pendingTruncateOldLpas v = .error e)
      (hg : ClearedBlock f g blockIndex v) (hr : clearBlocks env (n + 1) blockIndex f = (.error (.errno e),g))
  | cleared (v : UInt32) (a : GrowArray UInt32) (g : RtfsFileInode) (hv : v ≠ invalidLpa)
      (ha : rtfsFileInodeAppendPendingTruncateOldLpa env.realloc f.pendingTruncateOldLpas v = .ok a)
      (hpending : g.pendingTruncateOldLpas = a) (hg : ClearedBlock f g blockIndex v)
      (hr : clearBlocks env (n + 1) blockIndex f = clearBlocks env n (blockIndex + 1) g)

theorem clearStep (env : FileEnv) (n blockIndex : Nat) (h : IndexTree f.nodes f.ino) :
    ClearStep env n blockIndex f := by
  by_cases hbig : 4294967295 < blockIndex
  · refine .stuck .efbig (blockLpa_big hbig) ?_
    rw [clearBlocks,if_pos hbig]
  · have hres := clear_result h (UInt32.ofNat blockIndex) false
    have hsame := clear_same f.nodes f.ino (UInt32.ofNat blockIndex) false
    cases hs : rtfsFileSetDataLpaByBlockIndex f.nodes f.ino (UInt32.ofNat blockIndex) invalidLpa false with
    | mk r nodes =>
      rw [hs] at hres hsame
      cases r with
      | error e =>
        have hnodes : nodes = f.nodes := hsame nofun
        subst hnodes
        refine .stuck (.errno e) ?_ ?_
        · rw [blockLpa_below hbig,← hres]
          rfl
        · rw [clearBlocks,if_neg hbig]
          simp only [hs]
      | ok v =>
        by_cases hv : v = invalidLpa
        · subst hv
          have hnodes : nodes = f.nodes := hsame (fun w hw => (Except.ok.inj hw).symm)
          subst hnodes
          refine .hole ?_ ?_
          · rw [blockLpa_below hbig,← hres]
            rfl
          · rw [clearBlocks,if_neg hbig]
            simp only [hs,append_hole]
        · cases ha : rtfsFileInodeAppendPendingTruncateOldLpa env.realloc f.pendingTruncateOldLpas v with
          | error e =>
            refine .full v e _ hv ha (cleared_block h hbig (a := f.pendingTruncateOldLpas) hs) ?_
            rw [clearBlocks,if_neg hbig]
            simp only [hs,ha]
          | ok a =>
            refine .cleared v a _ hv ha rfl (cleared_block h hbig (a := a) hs) ?_
            rw [clearBlocks,if_neg hbig]
            simp only [hs,ha]

theorem clearBlocks_below (h : IndexTree f.nodes f.ino) (n : Nat) {b : Nat} (hb : b < blockIndex) :
    blockLpa (clearBlocks env n blockIndex f).2 b = blockLpa f b := by
  induction n generalizing blockIndex f with
  | zero => rfl
  | succ n ih =>
    cases clearStep env n blockIndex h with
    | stuck e hstuck hr => rw [hr]
    | hole hhole hr =>
      rw [hr]
      exact ih h (by omega)
    | full v e g hv ha hg hr =>
      rw [hr]
      exact hg.others b (by omega)
    | cleared v a g hv ha hpending hg hr =>
      rw [hr,ih hg.tree (by omega)]
      exact hg.others b (by omega)

theorem blockLpas_congr (h : ∀ b, blockIndex ≤ b → blockLpa f' b = blockLpa f b) (n : Nat) :
    blockLpas f' blockIndex n = blockLpas f blockIndex n := by
  induction n generalizing blockIndex with
  | zero => rfl
  | succ n ih => rw [blockLpas,blockLpas,h blockIndex le_rfl,ih (fun b hb => h b (by omega))]

theorem clears_succ {v : UInt32} {a : GrowArray UInt32} (hv : blockLpa f blockIndex = .ok v)
    (ha : rtfsFileInodeAppendPendingTruncateOldLpa env.realloc f.pendingTruncateOldLpas v = .ok a)
    (hpending : f'.pendingTruncateOldLpas = a)
    (h : ∀ b, blockIndex + 1 ≤ b → blockLpa f' b = blockLpa f b) :
    Clears env f blockIndex (n + 1) ↔ Clears env f' (blockIndex + 1) n := by
  have hlpas : blockLpas f blockIndex (n + 1) = v :: blockLpas f' (blockIndex + 1) n := by
    rw [blockLpas,hv,blockLpas_congr h]
    rfl
  have hroom : (blockLpas f blockIndex (n + 1)).foldlM (rtfsFileInodeAppendPendingTruncateOldLpa env.realloc)
      f.pendingTruncateOldLpas = (blockLpas f' (blockIndex + 1) n).foldlM
        (rtfsFileInodeAppendPendingTruncateOldLpa env.realloc) f'.pendingTruncateOldLpas := by
    rw [hlpas,List.foldlM_cons,ha,hpending]
    rfl
  refine ⟨fun hc => ⟨fun b hlo hhi => ?_,hroom ▸ hc.room⟩,fun hc => ⟨fun b hlo hhi => ?_,hroom ▸ hc.room⟩⟩
  · rw [h b hlo]
    exact hc.found b (by omega) (by omega)
  · by_cases hb : b = blockIndex
    · exact ⟨v,hb ▸ hv⟩
    · rw [← h b (by omega)]
      exact hc.found b (by omega) (by omega)

theorem clearBlocks_ok_iff (h : IndexTree f.nodes f.ino) (n : Nat) :
    (clearBlocks env n blockIndex f).1 = .ok () ↔ Clears env f blockIndex n := by
  induction n generalizing blockIndex f with
  | zero => exact ⟨fun _ => ⟨fun b hlo hhi => by omega,⟨_,rfl⟩⟩,fun _ => rfl⟩
  | succ n ih =>
    cases clearStep env n blockIndex h with
    | stuck e hstuck hr =>
      rw [hr]
      refine ⟨nofun,fun hc => ?_⟩
      obtain ⟨v,hv⟩ := hc.found blockIndex le_rfl (by omega)
      rw [hstuck] at hv
      cases hv
    | hole hhole hr =>
      rw [hr,ih h]
      exact (clears_succ hhole (append_hole _ _) rfl (fun _ _ => rfl)).symm
    | full v e g hv ha hg hr =>
      rw [hr]
      refine ⟨nofun,fun hc => ?_⟩
      obtain ⟨a,hroom⟩ := hc.room
      rw [blockLpas,hg.old,List.foldlM_cons,show (Except.ok v : Except FileError UInt32).toOption.getD invalidLpa = v
        from rfl,ha] at hroom
      cases hroom
    | cleared v a g hv ha hpending hg hr =>
      rw [hr,ih hg.tree]
      exact (clears_succ hg.old ha hpending (fun b hb => hg.others b (by omega))).symm

theorem clearBlocks_failed (h : IndexTree f.nodes f.ino) (n : Nat) {e : FileError}
    (he : (clearBlocks env n blockIndex f).1 = .error e) :
    StopsAtHole f blockIndex n ∨ ∃ b v, v ≠ invalidLpa ∧ blockLpa f b = .ok v ∧
      blockLpa (clearBlocks env n blockIndex f).2 b = .ok invalidLpa := by
  induction n generalizing blockIndex f with
  | zero => cases he
  | succ n ih =>
    cases clearStep env n blockIndex h with
    | stuck e' hstuck hr =>
      exact .inl ⟨blockIndex,le_rfl,by omega,⟨e',hstuck⟩,fun b' hlo hhi => by omega⟩
    | hole hhole hr =>
      rw [hr] at he ⊢
      rcases ih h he with ⟨b,hlo,hhi,hstuck,hholes⟩ | hlost
      · refine .inl ⟨b,by omega,by omega,hstuck,fun b' hlo' hhi' => ?_⟩
        by_cases hb' : b' = blockIndex
        · rw [hb',hhole]
        · exact hholes b' (by omega) hhi'
      · exact .inr hlost
    | full v e' g hv ha hg hr =>
      rw [hr]
      exact .inr ⟨blockIndex,v,hv,hg.old,hg.new⟩
    | cleared v a g hv ha hpending hg hr =>
      rw [hr]
      refine .inr ⟨blockIndex,v,hv,hg.old,?_⟩
      rw [clearBlocks_below hg.tree n (Nat.lt_succ_self blockIndex)]
      exact hg.new

theorem clearBlocks_holes (env : FileEnv) (h : IndexTree f.nodes f.ino) (n : Nat) (hs : StopsAtHole f blockIndex n) :
    ∃ e, clearBlocks env n blockIndex f = (.error e,f) := by
  obtain ⟨b,hlo,hhi,⟨e,hstuck⟩,hholes⟩ := hs
  induction n generalizing blockIndex with
  | zero => omega
  | succ n ih =>
    by_cases hb : b = blockIndex
    · subst hb
      cases clearStep env n b h with
      | stuck e' hstuck' hr => exact ⟨e',hr⟩
      | hole hhole hr => rw [hstuck] at hhole; cases hhole
      | full v e' g hv ha hg hr => cases hstuck.symm.trans hg.old
      | cleared v a g hv ha hpending hg hr => cases hstuck.symm.trans hg.old
    · have hhole := hholes blockIndex le_rfl (by omega)
      cases clearStep env n blockIndex h with
      | stuck e' hstuck' hr => cases hhole.symm.trans hstuck'
      | hole _ hr =>
        rw [hr]
        exact ih (by omega) (by omega) (fun b' hlo' hhi' => hholes b' (by omega) hhi')
      | full v e' g hv ha hg hr => exact absurd (Except.ok.inj (hg.old.symm.trans hhole)) hv
      | cleared v a g hv ha hpending hg hr => exact absurd (Except.ok.inj (hg.old.symm.trans hhole)) hv

end Loop

structure Unchanged (env : FileEnv) (f f' : RtfsFileInode) : Prop where
  iSize : f'.iSize = f.iSize
  mapping : ∀ b, rtfsFileResolveDataLpaByBlockIndex f'.nodes f'.ino b =
    rtfsFileResolveDataLpaByBlockIndex f.nodes f.ino b
  content : ∀ offset count, (rtfsFileInodeRead env f' offset count).1 = (rtfsFileInodeRead env f offset count).1
  pending : f'.pendingTruncateOldLpas.items = f.pendingTruncateOldLpas.items

def TailZero (env : FileEnv) (f : RtfsFileInode) (targetSize : UInt64) : Prop :=
  PartialPage f.iSize targetSize → ∀ offset, targetSize.toNat ≤ offset →
    offset / 4096 = targetSize.toNat / 4096 → offset < f.iSize.toNat → byteAt env f offset = .ok 0

inductive TruncateSafe (env : FileEnv) (f : RtfsFileInode) (targetSize : UInt64) : Prop
  | grows (h : f.iSize ≤ targetSize)
  | lastPageUnreadable (hp : PartialPage f.iSize targetSize) (e : FileError)
      (h : byteAt env f targetSize.toNat = .error e)
  | clears (h : Clears env f (sizeToBlock targetSize) (sizeToBlock f.iSize - sizeToBlock targetSize))
  | stopsAtHole (h : StopsAtHole f (sizeToBlock targetSize) (sizeToBlock f.iSize - sizeToBlock targetSize))
      (ht : TailZero env f targetSize)

section LastPage
variable {env : FileEnv} {f f' : RtfsFileInode} {targetSize : UInt64}

theorem sizeToBlock_toNat (size : UInt64) :
    sizeToBlock size = (size.toNat + 4095) % 18446744073709551616 / 4096 := by
  unfold sizeToBlock
  rw [UInt64.toNat_shiftRight,UInt64.toNat_add,Nat.shiftRight_eq_div_pow]
  rfl

theorem PartialPage.block {iSize : UInt64} (h : PartialPage iSize targetSize) :
    sizeToBlock targetSize - 1 = targetSize.toNat / 4096 := by
  obtain ⟨hmod,hpos,-⟩ := h
  have hlt := targetSize.toNat_lt
  rw [sizeToBlock_toNat] at hpos ⊢
  omega

theorem get_clearTail (page : Block) {keepBytes i : Nat} (hi : i < 4096) :
    (clearTail page keepBytes).get i = if keepBytes ≤ i then 0 else page.get i := by
  unfold clearTail
  rw [Buf.get_write page _ _ hi]
  by_cases hk : keepBytes ≤ i
  · have hlt : i - keepBytes < 4096 - keepBytes := by omega
    rw [if_pos hk,if_pos hk,List.getElem?_replicate,if_pos hlt]
    rfl
  · rw [if_neg hk,if_neg hk]

inductive ZeroLastPage (env : FileEnv) (f : RtfsFileInode) (targetSize : UInt64) :
    Except FileError Unit × RtfsFileInode → Prop
  | failed {e : FileError} {f' : RtfsFileInode} (hb : byteAt env f targetSize.toNat = .error e)
      (only : OnlyPages f f') (bytes : ∀ offset, byteAt env f' offset = byteAt env f offset) :
      ZeroLastPage env f targetSize (.error e,f')
  | zeroed {f' : RtfsFileInode} {x : UInt8} (hb : byteAt env f targetSize.toNat = .ok x) (only : OnlyPages f f')
      (bytes : ∀ offset, byteAt env f' offset =
        if targetSize.toNat ≤ offset ∧ offset / 4096 = targetSize.toNat / 4096 then .ok 0
        else byteAt env f offset) : ZeroLastPage env f targetSize (.ok (),f')

theorem zeroLastPage_spec (env : FileEnv) (hp : PartialPage f.iSize targetSize) :
    ZeroLastPage env f targetSize (zeroLastPage env f targetSize (sizeToBlock targetSize)) := by
  unfold zeroLastPage
  simp only [hp.block]
  by_cases hbig : 4294967295 < targetSize.toNat / 4096
  · rw [if_pos hbig]
    exact .failed (if_pos hbig) .refl (fun _ => rfl)
  · rw [if_neg hbig]
    have hprep := prepare_spec env f (UInt32.ofNat (targetSize.toNat / 4096))
    rcases hr : rtfsFileInodePreparePageForRead env f (UInt32.ofNat (targetSize.toNat / 4096)) with ⟨r,g⟩
    rw [hr] at hprep
    have hread := hprep.result
    cases r with
    | error e =>
      refine .failed ?_ hprep.only (byteAt_content hprep.content)
      unfold byteAt
      rw [if_neg hbig,← hread]
      rfl
    | ok entry =>
      refine .zeroed (x := entry.page.get (targetSize.toNat % 4096)) ?_ (hprep.only.trans (setPage_only _ _ _))
        (fun offset => ?_)
      · unfold byteAt
        rw [if_neg hbig,← hread]
        rfl
      · have hmod := Nat.mod_lt offset (show 0 < 4096 by decide)
        by_cases hblock : offset / 4096 = targetSize.toNat / 4096
        · unfold byteAt
          rw [hblock,if_neg hbig,if_neg hbig,pageContent_ready rfl,← hread]
          simp only [get_clearTail _ hmod,Except.map,and_true]
          by_cases hle : targetSize.toNat ≤ offset
          · rw [if_pos hle,if_pos (by omega)]
          · rw [if_neg hle,if_neg (by omega)]
        · rw [if_neg (fun h => hblock h.2),← byteAt_content hprep.content offset]
          unfold byteAt
          by_cases ho : 4294967295 < offset / 4096
          · rw [if_pos ho,if_pos ho]
          · rw [if_neg ho,if_neg ho,pageContent_setPage_ne _ _ (fun he => hblock (ofNat_inj ho hbig he))]

end LastPage

section Failed
variable {env : FileEnv} {f f' g : RtfsFileInode} {targetSize : UInt64} {e : FileError}

theorem OnlyPages.unchanged (ho : OnlyPages f f')
    (hb : ∀ offset < f.iSize.toNat, byteAt env f' offset = byteAt env f offset) : Unchanged env f f' :=
  ⟨ho.iSize,fun b => by rw [ho.nodes,ho.ino],read_congr ⟨ho.iSize,hb⟩,by rw [ho.pending]⟩

theorem OnlyPages.blockLpa (ho : OnlyPages f f') (b : Nat) : blockLpa f' b = blockLpa f b :=
  blockLpa_congr ho.ino ho.nodes b

theorem OnlyPages.clears_iff (ho : OnlyPages f f') (b n : Nat) : Clears env f' b n ↔ Clears env f b n := by
  have hlpas : blockLpas f' b n = blockLpas f b n := blockLpas_congr (fun b' _ => ho.blockLpa b') n
  constructor
  · intro hc
    refine ⟨fun b' hlo hhi => ho.blockLpa b' ▸ hc.found b' hlo hhi,?_⟩
    rw [← hlpas,← ho.pending]
    exact hc.room
  · intro hc
    refine ⟨fun b' hlo hhi => (ho.blockLpa b').symm ▸ hc.found b' hlo hhi,?_⟩
    rw [hlpas,ho.pending]
    exact hc.room

theorem OnlyPages.stops_iff (ho : OnlyPages f f') (b n : Nat) : StopsAtHole f' b n ↔ StopsAtHole f b n := by
  unfold StopsAtHole
  simp only [ho.blockLpa]

theorem Unchanged.blockLpa (h : Unchanged env f f') (b : Nat) : blockLpa f' b = blockLpa f b := by
  unfold Rtfs.blockLpa
  rw [h.mapping]

inductive Shrink (env : FileEnv) (f : RtfsFileInode) (targetSize : UInt64) : Prop
  | unreadable (e : FileError) (g : RtfsFileInode) (hp : PartialPage f.iSize targetSize)
      (hb : byteAt env f targetSize.toNat = .error e) (only : OnlyPages f g)
      (bytes : ∀ offset, byteAt env g offset = byteAt env f offset)
      (hr : rtfsFileInodeTruncate env f targetSize = (.error e,g))
  | loop (g : RtfsFileInode) (only : OnlyPages f g)
      (hread : PartialPage f.iSize targetSize → ∃ x, byteAt env f targetSize.toNat = .ok x)
      (bytes : ∀ offset, byteAt env g offset =
        if PartialPage f.iSize targetSize ∧ targetSize.toNat ≤ offset ∧
            offset / 4096 = targetSize.toNat / 4096 then .ok 0 else byteAt env f offset)
      (hr : ∀ e, (rtfsFileInodeTruncate env f targetSize).1 = .error e ↔
        (clearBlocks env (sizeToBlock f.iSize - sizeToBlock targetSize) (sizeToBlock targetSize) g).1 = .error e)
      (hs : ∀ e, (rtfsFileInodeTruncate env f targetSize).1 = .error e →
        (rtfsFileInodeTruncate env f targetSize).2 =
          (clearBlocks env (sizeToBlock f.iSize - sizeToBlock targetSize) (sizeToBlock targetSize) g).2)

theorem shrink (env : FileEnv) (hlt : targetSize < f.iSize) : Shrink env f targetSize := by
  have hne : targetSize ≠ f.iSize := fun h => absurd (h ▸ hlt) (UInt64.lt_irrefl _)
  have hnlt : ¬ f.iSize < targetSize := fun h => absurd (UInt64.lt_trans h hlt) (UInt64.lt_irrefl _)
  have hrun : ∀ g, (if PartialPage f.iSize targetSize then zeroLastPage env f targetSize (sizeToBlock targetSize)
      else (.ok (),f)) = (.ok (),g) → (∀ e, (rtfsFileInodeTruncate env f targetSize).1 = .error e ↔
        (clearBlocks env (sizeToBlock f.iSize - sizeToBlock targetSize) (sizeToBlock targetSize) g).1 = .error e) ∧
      ∀ e, (rtfsFileInodeTruncate env f targetSize).1 = .error e → (rtfsFileInodeTruncate env f targetSize).2 =
        (clearBlocks env (sizeToBlock f.iSize - sizeToBlock targetSize) (sizeToBlock targetSize) g).2 := by
    intro g hg
    unfold rtfsFileInodeTruncate
    rw [if_neg hne,if_neg hnlt]
    simp only [hg]
    rcases clearBlocks env (sizeToBlock f.iSize - sizeToBlock targetSize) (sizeToBlock targetSize) g with ⟨r,g'⟩
    cases r with
    | error e => exact ⟨fun _ => Iff.rfl,fun _ _ => rfl⟩
    | ok u => exact ⟨fun _ => ⟨nofun,nofun⟩,nofun⟩
  by_cases hp : PartialPage f.iSize targetSize
  · have hz := zeroLastPage_spec env hp
    rcases hcase : zeroLastPage env f targetSize (sizeToBlock targetSize) with ⟨r,g⟩
    rw [hcase] at hz
    cases hz with
    | failed hb only bytes =>
      refine .unreadable _ g hp hb only bytes ?_
      unfold rtfsFileInodeTruncate
      rw [if_neg hne,if_neg hnlt]
      simp only [if_pos hp,hcase]
    | zeroed hb only bytes =>
      obtain ⟨hr,hs⟩ := hrun g (by rw [if_pos hp,hcase])
      refine .loop g only (fun _ => ⟨_,hb⟩) (fun offset => ?_) hr hs
      simp only [hp,true_and]
      exact bytes offset
  · obtain ⟨hr,hs⟩ := hrun f (if_neg hp)
    exact .loop f .refl (fun h => absurd h hp) (fun offset => (if_neg (fun h => hp h.1)).symm) hr hs

theorem grown_ok (env : FileEnv) (hle : f.iSize ≤ targetSize) :
    (rtfsFileInodeTruncate env f targetSize).1 = .ok () := by
  unfold rtfsFileInodeTruncate
  by_cases he : targetSize = f.iSize
  · rw [if_pos he]
  · have hlt : f.iSize < targetSize := UInt64.lt_of_le_of_ne hle (Ne.symm he)
    rw [if_neg he,if_pos hlt]

theorem safe_unchanged (h : IndexTree f.nodes f.ino) (hsafe : TruncateSafe env f targetSize)
    (he : (rtfsFileInodeTruncate env f targetSize).1 = .error e) :
    Unchanged env f (rtfsFileInodeTruncate env f targetSize).2 := by
  by_cases hle : f.iSize ≤ targetSize
  · rw [grown_ok env hle] at he
    cases he
  · cases shrink env (UInt64.not_le.mp hle) with
    | unreadable e' g hp hb only bytes hr =>
      rw [hr]
      exact only.unchanged (fun offset _ => bytes offset)
    | loop g only hread bytes hr hs =>
      have hg : IndexTree g.nodes g.ino := by
        rw [only.nodes,only.ino]
        exact h
      have hloop := (hr e).mp he
      cases hsafe with
      | grows hgrow => exact absurd hgrow hle
      | lastPageUnreadable hp e' hb =>
        obtain ⟨x,hx⟩ := hread hp
        cases hx.symm.trans hb
      | clears hc =>
        have hok := (clearBlocks_ok_iff hg _).mpr ((only.clears_iff _ _).mpr hc)
        cases hok.symm.trans hloop
      | stopsAtHole hstop htail =>
        obtain ⟨e',hsame⟩ := clearBlocks_holes env hg _ ((only.stops_iff _ _).mpr hstop)
        rw [hs e he,hsame]
        refine only.unchanged (fun offset hlt => ?_)
        rw [bytes offset]
        split
        · rename_i hin
          exact (htail hin.1 offset hin.2.1 hin.2.2 hlt).symm
        · rfl

theorem unchanged_safe (h : IndexTree f.nodes f.ino)
    (hkeep : ∀ e, (rtfsFileInodeTruncate env f targetSize).1 = .error e →
      Unchanged env f (rtfsFileInodeTruncate env f targetSize).2) : TruncateSafe env f targetSize := by
  by_cases hle : f.iSize ≤ targetSize
  · exact .grows hle
  · cases shrink env (UInt64.not_le.mp hle) with
    | unreadable e' g hp hb only bytes hr => exact .lastPageUnreadable hp e' hb
    | loop g only hread bytes hr hs =>
      have hg : IndexTree g.nodes g.ino := by
        rw [only.nodes,only.ino]
        exact h
      cases hres : (clearBlocks env (sizeToBlock f.iSize - sizeToBlock targetSize) (sizeToBlock targetSize) g).1 with
      | ok u => exact .clears ((only.clears_iff _ _).mp ((clearBlocks_ok_iff hg _).mp hres))
      | error e' =>
        have he := (hr e').mpr hres
        have hun := hkeep e' he
        rw [hs e' he] at hun
        rcases clearBlocks_failed hg _ hres with hstop | ⟨b,v,hv,hold,hnew⟩
        · -- the loop kept the state, so only the cleared tail can show
          obtain ⟨e'',hsame⟩ := clearBlocks_holes env hg _ hstop
          rw [hsame] at hun
          have hbytes := (reads_same_iff hun.iSize).mp hun.content
          refine .stopsAtHole ((only.stops_iff _ _).mp hstop) (fun hp offset hlo hblock hlt => ?_)
          rw [← hbytes.bytes offset hlt,bytes offset,if_pos ⟨hp,hlo,hblock⟩]
        · rw [hun.blockLpa,← only.blockLpa,hold] at hnew
          exact absurd (Except.ok.inj hnew) hv

end Failed

theorem failedTruncate_unchanged_iff (env : FileEnv) (f : RtfsFileInode) (targetSize : UInt64)
    (h : IndexTree f.nodes f.ino) :
    (∀ e, (rtfsFileInodeTruncate env f targetSize).1 = .error e →
      Unchanged env f (rtfsFileInodeTruncate env f targetSize).2) ↔ TruncateSafe env f targetSize :=
  ⟨unchanged_safe h,fun hsafe _ he => safe_unchanged h hsafe he⟩

section Runs

def plainEnv : FileEnv := ⟨fun _ => .ok Buf.zero,fun _ => true⟩

-- a file grown by one block past the last that the index can hold
def holeFile : RtfsFileInode :=
  ⟨1,4355243102208,emptyFile,fun _ => none,GrowArray.empty,false⟩

theorem blockLpa_beyond {f : RtfsFileInode} (h : IndexTree f.nodes f.ino) :
    blockLpa f 1063291772 = .error (.errno .enosys) := by
  have hbig : ¬ 4294967295 < 1063291772 := by decide
  rw [blockLpa_below hbig,fileResolve_eq h,slotAddr,beyond_bound (by decide)]
  rfl

theorem holeFile_truncate_kept :
    (∃ e, (rtfsFileInodeTruncate plainEnv holeFile 4355243098112).1 = .error e) ∧
      ∀ e, (rtfsFileInodeTruncate plainEnv holeFile 4355243098112).1 = .error e →
        Unchanged plainEnv holeFile (rtfsFileInodeTruncate plainEnv holeFile 4355243098112).2 := by
  have hstop : StopsAtHole holeFile (sizeToBlock 4355243098112)
      (sizeToBlock holeFile.iSize - sizeToBlock 4355243098112) :=
    ⟨1063291772,by decide,by decide,⟨_,blockLpa_beyond emptyFile_tree⟩,fun b' hlo hhi => by
      have hfirst : sizeToBlock 4355243098112 = 1063291772 := by decide
      omega⟩
  have hpart : ¬ PartialPage holeFile.iSize 4355243098112 := by decide
  refine ⟨?_,(failedTruncate_unchanged_iff plainEnv holeFile 4355243098112 emptyFile_tree).mpr
    (.stopsAtHole hstop (fun hp => absurd hp hpart))⟩
  cases shrink plainEnv (show 4355243098112 < holeFile.iSize by decide) with
  | unreadable e g hp hb only bytes hr => exact absurd hp hpart
  | loop g only hread bytes hr hs =>
    have hg : IndexTree g.nodes g.ino := by
      rw [only.nodes,only.ino]
      exact emptyFile_tree
    obtain ⟨e,hsame⟩ := clearBlocks_holes plainEnv hg _ ((only.stops_iff _ _).mpr hstop)
    exact ⟨e,(hr e).mpr (by rw [hsame])⟩

def oneBlockFile : RtfsFileInode :=
  ⟨1,4096,(rtfsFileSetDataLpaByBlockIndex emptyFile 1 0 77 false).2,fun _ => none,GrowArray.empty,false⟩

theorem oneBlock_set : SetResolves 1 0 77 0 emptyFile oneBlockFile.nodes := by
  have hroot : emptyFile.node 1 = some Buf.zero := by simp [emptyFile]
  have hzero : inodeAddr Buf.zero 0 = 0 := u32At_zero _
  have hfirst : (rtfsFileSetDataLpaByBlockIndex emptyFile 1 0 77 false).1 = .ok 0 := by
    unfold rtfsFileSetDataLpaByBlockIndex
    simp only [hroot]
    rw [if_pos (by decide)]
    exact congrArg Except.ok hzero
  exact set_resolves emptyFile_tree (Prod.ext hfirst rfl)

-- grown past the index the file cannot be cut any more, and the try loses its block
theorem grownFile_loses_block :
    ∃ f, rtfsFileInodeTruncate plainEnv oneBlockFile 4355243102208 = (.ok (),f) ∧
      (∃ e, (rtfsFileInodeTruncate plainEnv f 0).1 = .error e) ∧
      ¬ Unchanged plainEnv f (rtfsFileInodeTruncate plainEnv f 0).2 := by
  refine ⟨{ oneBlockFile with iSize := 4355243102208, isDirty := true },rfl,?_⟩
  have hset := oneBlock_set
  generalize hf : ({ oneBlockFile with iSize := 4355243102208, isDirty := true } : RtfsFileInode) = f
  have htree : IndexTree f.nodes f.ino := by
    rw [← hf]
    exact hset.tree
  have hsize : f.iSize = 4355243102208 := by rw [← hf]
  have hfirst : blockLpa f 0 = .ok 77 := by
    rw [blockLpa_below (by decide),← hf]
    exact congrArg (Except.mapError FileError.errno) hset.new
  cases shrink plainEnv (show 0 < f.iSize by rw [hsize]; decide) with
  | unreadable e g hp hb only bytes hr =>
    have hpart : ¬ PartialPage 4355243102208 0 := by decide
    rw [hsize] at hp
    exact absurd hp hpart
  | loop g only hread bytes hr hs =>
    have hg : IndexTree g.nodes g.ino := by
      rw [only.nodes,only.ino]
      exact htree
    cases hres : (clearBlocks plainEnv (sizeToBlock f.iSize - sizeToBlock 0) (sizeToBlock 0) g).1 with
    | ok u =>
      obtain ⟨v,hv⟩ := ((clearBlocks_ok_iff hg _).mp hres).found 1063291772 (by decide) (by rw [hsize]; decide)
      cases (blockLpa_beyond hg).symm.trans hv
    | error e =>
      have he := (hr e).mpr hres
      refine ⟨⟨e,he⟩,fun hun => ?_⟩
      rw [hs e he] at hun
      rcases clearBlocks_failed hg _ hres with ⟨b,hlo,hhi,⟨e',hstuck⟩,hholes⟩ | ⟨b,v,hv,hold,hnew⟩
      · have h0 : blockLpa g 0 = .ok 77 := (only.blockLpa 0).trans hfirst
        have hstart : sizeToBlock 0 = 0 := by decide
        by_cases hb : b = 0
        · rw [hb] at hstuck
          cases h0.symm.trans hstuck
        · have hhole := hholes 0 (by omega) (by omega)
          exact absurd (Except.ok.inj (h0.symm.trans hhole)) (by decide)
      · rw [hun.blockLpa,← only.blockLpa,hold] at hnew
        exact absurd (Except.ok.inj hnew) hv

end Runs

end Rtfs
