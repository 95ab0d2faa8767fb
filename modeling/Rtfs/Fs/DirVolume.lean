import Rtfs.Inode.DirCommit
import Rtfs.Fs.DirScan
import Rtfs.Lib.Listing

namespace Rtfs

namespace DirEntries

open DentryArea

-- the conversion of an inline directory clears i_addr and i_nid
def clearIndex (inode : Block) : Block := (List.range 937).foldl (fun b i => setU32 b (332 + 4 * i) 0) inode

def clearMapping (s : NodeStore) (ino : UInt32) : NodeStore :=
  match s.node ino with
  | none => s
  | some inode => s.put ino (clearIndex inode)

def mapAttached (ino : UInt32) : List RtfsLoadedDirBlock → NodeStore → Option NodeStore
  | [],s => some s
  | b :: bs,s =>
    let grown := rtfsDirInodeGrowRegularBlock ⟨ino,s,b.blockIndex.toNat⟩ b.lpa (.ok ()) (.ok ())
    match grown.ret with
    | .error _ => none
    | .ok () => mapAttached ino bs grown.dir.store

-- the cached inode and its index behind the calls that made d, which write through to them;
-- i_size grows with the block count
def DirImage.updated (img : DirImage) (d : RtfsDirInode) : Option DirImage :=
  let converted := img.isInline && !d.isInline
  let oldBlockCount := sizeToBlock img.iSize
  (mapAttached img.ino (d.loadedBlocks.filter (fun b => decide (oldBlockCount ≤ b.blockIndex.toNat)))
    (if converted then clearMapping img.store img.ino else img.store)).map (fun store => { img with
      store := store
      iSize := (if converted then 0 else img.iSize) + UInt64.ofNat (4096 * (d.totalBlockCount - oldBlockCount))
      iDentryNum := d.iDentryNum
      isInline := d.isInline
      inlineDentry := d.inlineDentry.getD img.inlineDentry })

-- what the calls outside of the directory object answer in a commit; rest: how the part behind the data ends
structure CommitAnswers where
  malloc : Bool
  lpas : List UInt32
  rest : Option Errno

def Volume.rtfsDirInodeCommitCowWritebackWithTxId (answers : CommitAnswers) (img : DirImage) (d : RtfsDirInode) :
    Except Errno (List UInt32 × DirImage) :=
  (singleDirOldDataLpas answers.malloc answers.lpas d).bind (fun oldDataLpas =>
    let written := (rtfsDirInodeWritebackContentCow answers.lpas d).2
    (rtfsDirInodeApplyPendingRegularBlockRelocations img.store img.ino written.loadedBlocks).bind (fun store =>
      match answers.rest with
      | some e => .error e
      | none => .ok (oldDataLpas,{ img with store := store, read := writtenBlocks img.read written.loadedBlocks })))

def RtfsLoadedDirBlock.moves (b : RtfsLoadedDirBlock) : Bool :=
  b.hasPendingCowRelocation && decide (b.cowNewLpa ≠ invalidLpa)

def CommitAnswers.unfailing (answers : CommitAnswers) : CommitAnswers := { answers with rest := none }

-- what a commit that fails leaves: the addresses it wrote to, those it neither maps nor gives back,
-- and whether it had carried out the relocations
structure FailedCommit where
  img : DirImage
  written : List UInt32
  lost : List UInt32
  applied : Bool

-- the same calls up to an error, behind which the directory object is dropped
def Volume.failedCommit (answers : CommitAnswers) (img : DirImage) (d : RtfsDirInode) : Option FailedCommit :=
  let loadedBlocks := (rtfsDirInodeWritebackContentCow answers.lpas d).2.loadedBlocks
  let moving := loadedBlocks.filter RtfsLoadedDirBlock.moves
  let written := moving.map RtfsLoadedDirBlock.cowNewLpa
  let read := writtenBlocks img.read moving
  match (singleDirOldDataLpas answers.malloc answers.lpas d).bind (fun oldDataLpas =>
      (rtfsDirInodeApplyPendingRegularBlockRelocations img.store img.ino loadedBlocks).map (fun store =>
        (oldDataLpas,store))) with
  | .error _ => some ⟨{ img with read := read },written,written,false⟩
  | .ok (oldDataLpas,store) =>
    answers.rest.map (fun _ => ⟨{ img with store := store, read := read },written,oldDataLpas,true⟩)

theorem failedCommit_iff {answers : CommitAnswers} {img : DirImage} {d : RtfsDirInode} :
    (∃ f, Volume.failedCommit answers img d = some f) ↔
      ∃ e, Volume.rtfsDirInodeCommitCowWritebackWithTxId answers img d = .error e := by
  unfold Volume.failedCommit Volume.rtfsDirInodeCommitCowWritebackWithTxId
  cases singleDirOldDataLpas answers.malloc answers.lpas d with
  | error e => exact iff_of_true ⟨_,rfl⟩ ⟨_,rfl⟩
  | ok oldDataLpas =>
    simp only [Except.bind]
    cases rtfsDirInodeApplyPendingRegularBlockRelocations img.store img.ino
        (rtfsDirInodeWritebackContentCow answers.lpas d).2.loadedBlocks with
    | error e => exact iff_of_true ⟨_,rfl⟩ ⟨_,rfl⟩
    | ok store =>
      cases answers.rest with
      | none => exact iff_of_false (by simp [Except.map]) (by simp)
      | some e => exact iff_of_true ⟨_,rfl⟩ ⟨_,rfl⟩

section Index
variable {s s₁ s' : NodeStore} {ino : UInt32} {bs : List RtfsLoadedDirBlock}

structure Remaps (ino : UInt32) (ps : List (UInt32 × UInt32)) (s s' : NodeStore) : Prop where
  tree : IndexTree s' ino
  new : ∀ p ∈ ps, slotAddr s' ino p.1.toNat = .ok p.2
  others : ∀ n, (∀ p ∈ ps, n ≠ p.1.toNat) → slotAddr s' ino n = slotAddr s ino n

theorem Remaps.nil (h : IndexTree s ino) : Remaps ino [] s s :=
  ⟨h,fun _ hp => absurd hp List.not_mem_nil,fun _ _ => rfl⟩

theorem Remaps.cons {p : UInt32 × UInt32} {ps : List (UInt32 × UInt32)} (h : Remaps ino [p] s s₁)
    (h' : Remaps ino ps s₁ s') (hnew : p.1 ∉ ps.map Prod.fst) : Remaps ino (p :: ps) s s' := by
  refine ⟨h'.tree,fun q hq => ?_,fun n hn => ?_⟩
  · rcases List.mem_cons.mp hq with rfl | hq
    · rw [h'.others _ (fun r hr he => hnew (List.mem_map.mpr ⟨r,hr,(UInt32.toNat_inj.mp he).symm⟩))]
      exact h.new q List.mem_cons_self
    · exact h'.new q hq
  · rw [h'.others n (fun r hr => hn r (List.mem_cons_of_mem _ hr))]
    exact h.others n (fun r hr => hn r (List.mem_singleton.mp hr ▸ List.mem_cons_self))

theorem grow_maps (h : IndexTree s ino) {b v : UInt32} {d : Rtfs.RtfsDirInode} {invalidated : Bool}
    (hr : rtfsDirInodeGrowRegularBlock ⟨ino,s,b.toNat⟩ v (.ok ()) (.ok ()) = ⟨.ok (),d,invalidated⟩) :
    v ≠ invalidLpa ∧ Remaps ino [(b,v)] s d.store := by
  obtain ⟨inode,hb⟩ := h.inode
  unfold rtfsDirInodeGrowRegularBlock at hr
  simp only [hb,UInt32.ofNat_toNat] at hr
  by_cases hz : v = invalidLpa
  · rw [if_pos hz] at hr
    cases hr
  · rw [if_neg hz] at hr
    have hspec := growMapping_spec h hb b v
    cases hg : growMapping s ino inode b v with
    | error e =>
      obtain ⟨stop,s'⟩ := e
      rw [hg] at hr
      cases stop <;> cases hr
    | ok s' =>
      rw [hg] at hr hspec
      cases hr
      cases hslot : blockSlot b.toNat with
      | none =>
        rw [hslot] at hspec
        cases hspec
      | some r =>
        obtain ⟨p,i⟩ := r
        simp only [hslot] at hspec
        obtain ⟨hnew,hothers⟩ := Stored.slotAddr hspec hslot
        refine ⟨hz,hspec.tree,fun q hq => ?_,fun n hn => hothers n (hn _ List.mem_cons_self)⟩
        rw [List.mem_singleton.mp hq]
        exact hnew

theorem mapAttached_spec (h : IndexTree s ino) (hn : (bs.map RtfsLoadedDirBlock.blockIndex).Nodup)
    (hr : mapAttached ino bs s = some s') : Remaps ino (bs.map (fun b => (b.blockIndex,b.lpa))) s s' ∧
      ∀ b ∈ bs, b.lpa ≠ invalidLpa := by
  induction bs generalizing s with
  | nil =>
    cases hr
    exact ⟨.nil h,fun b hb => absurd hb List.not_mem_nil⟩
  | cons b bs ih =>
    obtain ⟨hnew,hn⟩ := List.nodup_cons.mp hn
    unfold mapAttached at hr
    rcases hg : rtfsDirInodeGrowRegularBlock ⟨ino,s,b.blockIndex.toNat⟩ b.lpa (.ok ()) (.ok ()) with ⟨ret,d,inv⟩
    simp only [hg] at hr
    cases ret with
    | error e => cases hr
    | ok u =>
      obtain ⟨hz,hone⟩ := grow_maps h hg
      obtain ⟨hrest,hvalid⟩ := ih hone.tree hn hr
      refine ⟨hone.cons hrest (fun hin => hnew ?_),fun x hx => ?_⟩
      · obtain ⟨q,hq,he⟩ := List.mem_map.mp hin
        obtain ⟨x,hx,rfl⟩ := List.mem_map.mp hq
        exact List.mem_map.mpr ⟨x,hx,he⟩
      · rcases List.mem_cons.mp hx with rfl | hx
        · exact hz
        · exact hvalid x hx

def moved (bs : List RtfsLoadedDirBlock) : List (UInt32 × UInt32) :=
  (bs.filter RtfsLoadedDirBlock.moves).map (fun b => (b.blockIndex,b.cowNewLpa))

theorem relocateBlocks_spec (h : IndexTree s ino) (hn : (bs.map RtfsLoadedDirBlock.blockIndex).Nodup)
    (hmapped : ∀ b ∈ bs, ∃ lpa, slotAddr s ino b.blockIndex.toNat = .ok lpa ∧ lpa ≠ invalidLpa) :
    ∃ s', bs.foldlM (fun s b => rtfsDirInodeRelocateOneRegularBlock s ino b.blockIndex b.cowNewLpa) s = .ok s' ∧
      Remaps ino (bs.map (fun b => (b.blockIndex,b.cowNewLpa))) s s' := by
  induction bs generalizing s with
  | nil => exact ⟨s,rfl,.nil h⟩
  | cons b bs ih =>
    obtain ⟨hnew,hn⟩ := List.nodup_cons.mp hn
    obtain ⟨lpa,haddr,hlpa⟩ := hmapped b List.mem_cons_self
    obtain ⟨-,s₁,hone,htree,hslot,hothers⟩ := relocate_spec h b.cowNewLpa haddr hlpa
    have hne {x : RtfsLoadedDirBlock} (hx : x ∈ bs) : x.blockIndex.toNat ≠ b.blockIndex.toNat :=
      fun he => hnew (List.mem_map.mpr ⟨x,hx,UInt32.toNat_inj.mp he⟩)
    obtain ⟨s',hr,hremaps⟩ := ih htree hn (fun x hx => by
      rw [hothers _ (hne hx)]
      exact hmapped x (List.mem_cons_of_mem _ hx))
    refine ⟨s',?_,Remaps.cons ⟨htree,fun q hq => ?_,fun n hq => hothers n (hq _ List.mem_cons_self)⟩ hremaps
      (fun hin => hnew ?_)⟩
    · rw [List.foldlM_cons,hone]
      exact hr
    · rw [List.mem_singleton.mp hq]
      exact hslot
    · obtain ⟨q,hq,he⟩ := List.mem_map.mp hin
      obtain ⟨x,hx,rfl⟩ := List.mem_map.mp hq
      exact List.mem_map.mpr ⟨x,hx,he⟩

theorem canRelocate_all (h : IndexTree s ino)
    (hmapped : ∀ b ∈ bs, ∃ lpa, slotAddr s ino b.blockIndex.toNat = .ok lpa ∧ lpa ≠ invalidLpa) :
    bs.forM (fun b => rtfsDirInodeCanRelocateOneRegularBlock s ino b.blockIndex) = .ok () := by
  induction bs with
  | nil => rfl
  | cons b bs ih =>
    obtain ⟨lpa,haddr,hlpa⟩ := hmapped b List.mem_cons_self
    obtain ⟨hcan,-⟩ := relocate_spec h b.cowNewLpa haddr hlpa
    change (rtfsDirInodeCanRelocateOneRegularBlock s ino b.blockIndex).bind _ = _
    rw [hcan]
    exact ih (fun x hx => hmapped x (List.mem_cons_of_mem _ hx))

theorem applyPending_ok (h : IndexTree s ino) (hn : (bs.map RtfsLoadedDirBlock.blockIndex).Nodup)
    (hmapped : ∀ b ∈ bs, b.moves = true → ∃ lpa, slotAddr s ino b.blockIndex.toNat = .ok lpa ∧ lpa ≠ invalidLpa) :
    ∃ s', rtfsDirInodeApplyPendingRegularBlockRelocations s ino bs = .ok s' ∧ Remaps ino (moved bs) s s' := by
  have hmoving : ∀ b ∈ bs.filter RtfsLoadedDirBlock.moves, ∃ lpa,
      slotAddr s ino b.blockIndex.toNat = .ok lpa ∧ lpa ≠ invalidLpa :=
    fun b hb => hmapped b (List.mem_filter.mp hb).1 (List.mem_filter.mp hb).2
  obtain ⟨s',hr,hremaps⟩ := relocateBlocks_spec h (hn.sublist (List.filter_sublist.map _)) hmoving
  refine ⟨s',?_,hremaps⟩
  unfold rtfsDirInodeApplyPendingRegularBlockRelocations
  change Except.bind ((bs.filter RtfsLoadedDirBlock.moves).forM
    (fun b => rtfsDirInodeCanRelocateOneRegularBlock s ino b.blockIndex)) _ = _
  rw [canRelocate_all h hmoving]
  exact hr

theorem clearWords (b : Block) {n : Nat} (hn : n ≤ 937) (k : Nat) :
    nodeCells true ((List.range n).foldl (fun b i => setU32 b (332 + 4 * i) 0) b) k =
      if k < n then 0 else nodeCells true b k := by
  induction n with
  | zero => rfl
  | succ n ih =>
    rw [List.range_succ,List.foldl_append]
    simp only [List.foldl_cons,List.foldl_nil]
    rw [nodeCells_setWord (by omega),ih (by omega)]
    by_cases hk : k = n
    · rw [if_pos hk,if_pos (by omega)]
    · rw [if_neg hk]
      congr 1
      rw [eq_iff_iff]
      omega

structure Convertible (s : NodeStore) (ino : UInt32) : Prop where
  inode : ∃ b, s.node ino = some b
  nodup : s.freshNids.Nodup
  fresh : ∀ m ∈ s.freshNids, m ≠ 0 ∧ m ≠ ino

theorem Convertible.cleared (h : Convertible s ino) : IndexTree (clearMapping s ino) ino := by
  obtain ⟨b,hb⟩ := h.inode
  unfold clearMapping
  rw [hb]
  have hself : (s.put ino (clearIndex b)).node ino = some (clearIndex b) := Function.update_self ..
  refine ⟨⟨_,hself⟩,SlotTree.tree_of_zero indexPath_shape (c := nodeCells true (clearIndex b)) ?_ (fun i hi => ?_)
    h.nodup h.fresh⟩
  · unfold NodeStore.cells
    rw [hself,decide_eq_true rfl]
    rfl
  · have hlt : i < 937 := hi.1.2
    exact (clearWords b le_rfl i).trans (if_pos hlt)

end Index

section Written
variable {lpas : List UInt32} {bs bs' : List RtfsLoadedDirBlock} {read : UInt32 → Option RtfsDentryBlock}

theorem writeDirty_lpas (hidle : ∀ b ∈ bs, b.hasPendingCowRelocation = false)
    (h : rtfsDirInodeWriteDirtyRegularBlocksCow lpas bs = (.ok (),bs')) :
    (∀ b ∈ bs', b.moves = b.isDirty) ∧
      ((bs'.filter RtfsLoadedDirBlock.isDirty).map RtfsLoadedDirBlock.cowNewLpa) <+: lpas := by
  induction bs generalizing lpas bs' with
  | nil =>
    cases h
    exact ⟨fun b hb => absurd hb List.not_mem_nil,List.nil_prefix⟩
  | cons b bs ih =>
    have hrest := fun x hx => hidle x (List.mem_cons_of_mem b hx)
    unfold rtfsDirInodeWriteDirtyRegularBlocksCow at h
    by_cases hd : b.isDirty = false
    · rw [if_pos hd] at h
      obtain ⟨hok,rfl⟩ := Prod.mk.inj h
      obtain ⟨hmoves,htaken⟩ := ih hrest (Prod.ext hok rfl)
      refine ⟨fun x hx => ?_,?_⟩
      · rcases List.mem_cons.mp hx with rfl | hx
        · unfold RtfsLoadedDirBlock.moves
          rw [hidle x List.mem_cons_self,hd]
          rfl
        · exact hmoves x hx
      · rw [List.filter_cons_of_neg (by rw [hd]; decide)]
        exact htaken
    · rw [if_neg hd] at h
      cases lpas with
      | nil => cases h
      | cons newLpa lpas =>
        simp only at h
        split at h
        · cases h
        · rename_i hz
          have hdirty : b.isDirty = true := Bool.not_eq_false _ ▸ hd
          obtain ⟨hok,rfl⟩ := Prod.mk.inj h
          obtain ⟨hmoves,htaken⟩ := ih hrest (Prod.ext hok rfl)
          refine ⟨fun x hx => ?_,?_⟩
          · rcases List.mem_cons.mp hx with rfl | hx
            · exact (Bool.and_eq_true_iff.mpr ⟨rfl,decide_eq_true hz⟩).trans hdirty.symm
            · exact hmoves x hx
          · rw [List.filter_cons,if_pos hdirty]
            exact (List.prefix_cons_inj newLpa).mpr htaken

theorem moves_idle {b : RtfsLoadedDirBlock} (h : b.hasPendingCowRelocation = false) : b.moves = false := by
  unfold RtfsLoadedDirBlock.moves
  rw [h]
  rfl

theorem moving_idle (h : ∀ b ∈ bs, b.hasPendingCowRelocation = false) : bs.filter RtfsLoadedDirBlock.moves = [] :=
  List.filter_eq_nil_iff.mpr (fun b hb ht => absurd ((moves_idle (h b hb)).symm.trans ht) (by decide))

theorem writeDirty_taken (hidle : ∀ b ∈ bs, b.hasPendingCowRelocation = false) :
    (((rtfsDirInodeWriteDirtyRegularBlocksCow lpas bs).2.filter RtfsLoadedDirBlock.moves).map
      RtfsLoadedDirBlock.cowNewLpa) <+: lpas := by
  induction bs generalizing lpas with
  | nil => exact List.nil_prefix
  | cons b bs ih =>
    have hrest := fun x hx => hidle x (List.mem_cons_of_mem b hx)
    unfold rtfsDirInodeWriteDirtyRegularBlocksCow
    split
    · rw [List.filter_cons_of_neg (Bool.eq_false_iff.mp (moves_idle (hidle b List.mem_cons_self)))]
      exact ih hrest
    · cases lpas with
      | nil =>
        rw [moving_idle hidle]
        exact List.nil_prefix
      | cons newLpa lpas =>
        simp only
        split
        · rw [moving_idle hidle]
          exact List.nil_prefix
        · rename_i hz
          have hmoves : RtfsLoadedDirBlock.moves { b with cowNewLpa := newLpa, hasPendingCowRelocation := true } = true :=
            Bool.and_eq_true_iff.mpr ⟨rfl,decide_eq_true hz⟩
          rw [List.filter_cons_of_pos hmoves]
          exact (List.prefix_cons_inj newLpa).mpr (ih hrest)

theorem written_moving (h : ∀ b ∈ bs, b.moves = b.isDirty) :
    writtenBlocks read (bs.filter RtfsLoadedDirBlock.moves) = writtenBlocks read bs := by
  induction bs generalizing read with
  | nil => rfl
  | cons b bs ih =>
    have hrest := fun x hx => h x (List.mem_cons_of_mem b hx)
    have hb := h b List.mem_cons_self
    unfold writtenBlocks at ih ⊢
    cases hd : b.isDirty with
    | false =>
      rw [List.filter_cons_of_neg (by rw [hb,hd]; decide),List.foldl_cons,hd]
      exact ih hrest
    | true =>
      rw [List.filter_cons_of_pos (hb.trans hd),List.foldl_cons,List.foldl_cons]
      exact ih hrest

theorem written_cons (read : UInt32 → Option RtfsDentryBlock) (b : RtfsLoadedDirBlock) (bs : List RtfsLoadedDirBlock) :
    writtenBlocks read (b :: bs) =
      writtenBlocks (if b.isDirty then Function.update read b.cowNewLpa (some b.block) else read) bs := rfl

theorem written_other {lpa : UInt32} (h : ∀ b ∈ bs, b.isDirty = true → b.cowNewLpa ≠ lpa) :
    writtenBlocks read bs lpa = read lpa := by
  induction bs generalizing read with
  | nil => rfl
  | cons b bs ih =>
    rw [written_cons,ih (fun x hx => h x (List.mem_cons_of_mem _ hx))]
    split
    · rename_i hd
      exact Function.update_of_ne (h b List.mem_cons_self hd).symm _ _
    · rfl

theorem written_self (hn : ((bs.filter RtfsLoadedDirBlock.isDirty).map RtfsLoadedDirBlock.cowNewLpa).Nodup)
    {b : RtfsLoadedDirBlock} (hb : b ∈ bs) (hd : b.isDirty = true) :
    writtenBlocks read bs b.cowNewLpa = some b.block := by
  induction bs generalizing read with
  | nil => cases hb
  | cons x bs ih =>
    cases hx : x.isDirty with
    | false =>
      rw [List.filter_cons_of_neg (by rw [hx]; decide)] at hn
      rcases List.mem_cons.mp hb with rfl | hb
      · exact absurd (hx.symm.trans hd) (by decide)
      · exact ih hn hb
    | true =>
      rw [List.filter_cons_of_pos hx,List.map_cons,List.nodup_cons] at hn
      rcases List.mem_cons.mp hb with rfl | hb
      · rw [written_cons,if_pos hd,written_other (fun y hy hyd he =>
          hn.1 (List.mem_map.mpr ⟨y,List.mem_filter.mpr ⟨hy,hyd⟩,he⟩))]
        exact Function.update_self ..
      · exact ih hn.2 hb

end Written

namespace DirContent

structure OnDisk (c : DirContent) (img : DirImage) : Prop where
  shown : c.ShownBy img
  ino : img.ino ≠ invalidNid
  size : img.iSize.toNat = 4096 * c.blocks.length
  tree : c.isInline = false → IndexTree img.store img.ino
  convertible : c.isInline = true → Convertible img.store img.ino

section OnDisk
variable {c : DirContent} {es : List RtfsMemDirEntry} {img img₁ img' : DirImage} {d : RtfsDirInode}
  {answers : CommitAnswers}

theorem OnDisk.addr (h : c.OnDisk img) (hc : c.Holds es) (hi : c.isInline = false) {i : Nat} {b : MappedBlock}
    (hb : c.blocks[i]? = some b) : slotAddr img.store img.ino i = .ok b.lpa := by
  have hsize := hc.size
  have hlt := (List.getElem?_eq_some_iff.mp hb).1
  have haddr := (h.shown.blocks i b hb).1
  rw [dirResolve_slotAddr (h.tree hi) h.ino,UInt32.toNat_ofNat',Nat.mod_eq_of_lt (by omega)] at haddr
  exact haddr

theorem OnDisk.bound (h : c.OnDisk img) (hc : c.Holds es) : c.blocks.length ≤ fileBlockBound := by
  cases hi : c.isInline with
  | true =>
    rw [(hc.inline hi).1]
    exact Nat.zero_le _
  | false =>
    by_contra hout
    have hlt : fileBlockBound < c.blocks.length := Nat.not_le.mp hout
    have haddr := h.addr hc hi (List.getElem?_eq_getElem hlt)
    have hnone : blockSlot fileBlockBound = none :=
      Option.not_isSome_iff_eq_none.mp (fun hs => absurd ((blockSlot_isSome _).mp hs) (Nat.lt_irrefl _))
    unfold slotAddr at haddr
    rw [hnone] at haddr
    cases haddr

theorem Session.relocated_blocks (hc : c.Holds es) (h : Session c es d) (hroom : d.totalBlockCount ≤ 2 ^ 32)
    {d' : RtfsDirInode} (ht : d'.totalBlockCount = d.totalBlockCount)
    (hw : List.Forall₂ Written d.loadedBlocks d'.loadedBlocks) :
    (c.relocated d').blocks.length = d.totalBlockCount ∧
      ∀ i < d.totalBlockCount, (c.relocated d').blocks[i]? = c.blockAfter d' i := by
  unfold DirContent.relocated
  rw [ht]
  refine filterMap_range (fun i hi => ?_)
  rcases h.ok.backing with hin | hb
  · rw [(h.tracks.inline hin.kind).2] at hi
    exact absurd hi (Nat.not_lt_zero i)
  · exact (h.blockAfter hc hb hroom hw hi).imp (fun _ hm => hm.1)

theorem blockAfter_cases (hn : (d.loadedBlocks.map RtfsLoadedDirBlock.blockIndex).Nodup) {i : Nat} {m : MappedBlock}
    (hm : c.blockAfter d i = some m) :
    (∃ b ∈ d.loadedBlocks, b.moves = true ∧ b.blockIndex = UInt32.ofNat i ∧ b.cowNewLpa = m.lpa ∧ b.block = m.block) ∨
      c.blocks[i]? = some m ∧ ∀ b ∈ d.loadedBlocks, b.moves = true → b.blockIndex ≠ UInt32.ofNat i := by
  unfold DirContent.blockAfter at hm
  cases hf : d.loadedBlocks.find? (fun b => decide (b.blockIndex = UInt32.ofNat i)) with
  | none =>
    rw [hf] at hm
    exact .inr ⟨hm,fun b hb _ he => absurd (decide_eq_true he) (List.find?_eq_none.mp hf b hb)⟩
  | some b =>
    rw [hf] at hm
    have hidx : b.blockIndex = UInt32.ofNat i := by simpa using List.find?_some hf
    have hb := List.mem_of_find?_eq_some hf
    simp only at hm
    by_cases hmoves : b.hasPendingCowRelocation = true ∧ b.cowNewLpa ≠ invalidLpa
    · rw [dif_pos hmoves] at hm
      cases hm
      exact .inl ⟨b,hb,Bool.and_eq_true_iff.mpr ⟨hmoves.1,decide_eq_true hmoves.2⟩,hidx,rfl,rfl⟩
    · rw [dif_neg hmoves] at hm
      refine .inr ⟨hm,fun x hx hxm he => hmoves ?_⟩
      rw [List.inj_on_of_nodup_map hn hx hb (he.trans hidx.symm)] at hxm
      obtain ⟨hp,hz⟩ := Bool.and_eq_true_iff.mp hxm
      exact ⟨hp,of_decide_eq_true hz⟩

structure WroteBack (lpas : List UInt32) (d w : RtfsDirInode) : Prop where
  same : w = { d with loadedBlocks := w.loadedBlocks }
  blocks : List.Forall₂ Written d.loadedBlocks w.loadedBlocks
  moves : ∀ b ∈ w.loadedBlocks, b.moves = b.isDirty
  lpas : ((w.loadedBlocks.filter RtfsLoadedDirBlock.isDirty).map RtfsLoadedDirBlock.cowNewLpa) <+: lpas

theorem Session.wroteBack (h : Session c es d) {lpas : List UInt32} {w : RtfsDirInode}
    (hw : rtfsDirInodeWritebackContentCow lpas d = (.ok (),w)) : WroteBack lpas d w := by
  obtain ⟨hok,rfl⟩ := Prod.mk.inj hw
  obtain ⟨hmoves,hlpas⟩ := writeDirty_lpas h.tracks.idle (Prod.ext hok rfl)
  exact ⟨rfl,writeDirty_written (Prod.ext hok rfl),hmoves,hlpas⟩

theorem WroteBack.indices {lpas : List UInt32} {w : RtfsDirInode} (h : WroteBack lpas d w) :
    w.loadedBlocks.map RtfsLoadedDirBlock.blockIndex = d.loadedBlocks.map RtfsLoadedDirBlock.blockIndex :=
  written_indices h.blocks

theorem WroteBack.reads {lpas : List UInt32} {w : RtfsDirInode} (h : WroteBack lpas d w) (hn : lpas.Nodup)
    (hd : c.OnDisk img) (hfresh : ∀ b ∈ c.blocks, b.lpa ∉ lpas)
    (hidx : (d.loadedBlocks.map RtfsLoadedDirBlock.blockIndex).Nodup) {i : Nat} {m : MappedBlock}
    (hm : c.blockAfter w i = some m) : writtenBlocks img.read w.loadedBlocks m.lpa = some m.block := by
  rcases blockAfter_cases (h.indices ▸ hidx) hm with ⟨b,hb,hmoves,-,hlpa,hblock⟩ | ⟨hget,-⟩
  · rw [← hlpa,← hblock]
    exact written_self (hn.sublist h.lpas.sublist) hb ((h.moves b hb).symm.trans hmoves)
  · rw [written_other (fun b hb hdirty he => hfresh m (List.mem_of_getElem? hget) ?_)]
    · exact (hd.shown.blocks i m hget).2
    · rw [← he]
      exact h.lpas.subset (List.mem_map.mpr ⟨b,List.mem_filter.mpr ⟨hb,hdirty⟩,rfl⟩)

def attachedTo (c : DirContent) (d : RtfsDirInode) : List RtfsLoadedDirBlock :=
  d.loadedBlocks.filter (fun b => decide (c.blocks.length ≤ b.blockIndex.toNat))

def baseStore (c : DirContent) (img : DirImage) : NodeStore :=
  if c.isInline then clearMapping img.store img.ino else img.store

theorem OnDisk.baseTree (h : c.OnDisk img) : IndexTree (c.baseStore img) img.ino := by
  unfold baseStore
  cases hi : c.isInline with
  | true => exact (h.convertible hi).cleared
  | false => exact h.tree hi

theorem OnDisk.baseAddr (h : c.OnDisk img) (hc : c.Holds es) {i : Nat} {m : MappedBlock} (hm : c.blocks[i]? = some m) :
    slotAddr (c.baseStore img) img.ino i = .ok m.lpa := by
  unfold baseStore
  cases hi : c.isInline with
  | true =>
    rw [(hc.inline hi).1] at hm
    cases hm
  | false => exact h.addr hc hi hm

theorem WroteBack.relocates {lpas : List UInt32} {w : RtfsDirInode} (hw : WroteBack lpas d w) (hc : c.Holds es)
    (hd : c.OnDisk img) (hroom : d.totalBlockCount ≤ 2 ^ 32)
    (hidx : (d.loadedBlocks.map RtfsLoadedDirBlock.blockIndex).Nodup) {s₁ : NodeStore}
    (hgrown : mapAttached img.ino (c.attachedTo d) (c.baseStore img) = some s₁) :
    ∃ s', rtfsDirInodeApplyPendingRegularBlockRelocations s₁ img.ino w.loadedBlocks = .ok s' ∧ IndexTree s' img.ino ∧
      ∀ i < d.totalBlockCount, ∀ m, c.blockAfter w i = some m →
        slotAddr s' img.ino i = .ok m.lpa := by
  obtain ⟨hremaps,hvalid⟩ := mapAttached_spec hd.baseTree (hidx.sublist (List.filter_sublist.map _)) hgrown
  have hkeep {n : Nat} (hn : n < c.blocks.length) :
      slotAddr s₁ img.ino n = slotAddr (c.baseStore img) img.ino n := by
    refine hremaps.others n (fun p hp he => ?_)
    obtain ⟨b,hb,rfl⟩ := List.mem_map.mp hp
    have hge := of_decide_eq_true (List.mem_filter.mp hb).2
    simp only at he
    omega
  have hmapped : ∀ b ∈ w.loadedBlocks, b.moves = true →
      ∃ lpa, slotAddr s₁ img.ino b.blockIndex.toNat = .ok lpa ∧ lpa ≠ invalidLpa := by
    intro b hb _
    obtain ⟨x,hx,hxb⟩ := forall₂_right hw.blocks hb
    rw [hxb.blockIndex]
    by_cases hge : c.blocks.length ≤ x.blockIndex.toNat
    · have hin : x ∈ c.attachedTo d := List.mem_filter.mpr ⟨hx,decide_eq_true hge⟩
      exact ⟨x.lpa,hremaps.new _ (List.mem_map.mpr ⟨x,hin,rfl⟩),hvalid x hin⟩
    · have hlt := Nat.not_le.mp hge
      exact ⟨_,(hkeep hlt).trans (hd.baseAddr hc (List.getElem?_eq_getElem hlt)),(c.blocks[x.blockIndex.toNat]).mapped⟩
  obtain ⟨s',hr,hmoved⟩ := applyPending_ok hremaps.tree (hw.indices ▸ hidx) hmapped
  refine ⟨s',hr,hmoved.tree,fun i hi m hm => ?_⟩
  have hnat : (UInt32.ofNat i).toNat = i := by
    rw [UInt32.toNat_ofNat',Nat.mod_eq_of_lt (by omega)]
  rcases blockAfter_cases (hw.indices ▸ hidx) hm with ⟨b,hb,hmoves,hbi,hlpa,-⟩ | ⟨hget,hno⟩
  · have hnew := hmoved.new (b.blockIndex,b.cowNewLpa) (List.mem_map.mpr ⟨b,List.mem_filter.mpr ⟨hb,hmoves⟩,rfl⟩)
    rw [← hlpa]
    simp only [hbi,hnat] at hnew
    exact hnew
  · rw [hmoved.others i (fun p hp he => ?_)]
    · exact (hkeep (List.getElem?_eq_some_iff.mp hget).1).trans (hd.baseAddr hc hget)
    · obtain ⟨b,hb,rfl⟩ := List.mem_map.mp hp
      obtain ⟨hb,hmoves⟩ := List.mem_filter.mp hb
      refine hno b hb hmoves (UInt32.toNat_inj.mp ?_)
      rw [hnat]
      exact he.symm

theorem OnDisk.blockCount (h : c.OnDisk img) : sizeToBlock img.iSize = c.blocks.length := h.shown.size

theorem sizeToBlock_grown {size : UInt64} {n k : Nat} (hs : size.toNat = 4096 * n) (hk : n + k ≤ 2 ^ 32) :
    (size + UInt64.ofNat (4096 * k)).toNat = 4096 * (n + k) ∧ sizeToBlock (size + UInt64.ofNat (4096 * k)) = n + k := by
  have hsum : (size + UInt64.ofNat (4096 * k)).toNat = 4096 * (n + k) := by
    rw [UInt64.toNat_add,hs,UInt64.toNat_ofNat',Nat.mod_eq_of_lt (by omega : 4096 * k < 2 ^ 64)]
    omega
  refine ⟨hsum,?_⟩
  have htwelve : (12 : UInt64).toNat % 64 = 12 := by decide
  have hmask : (4095 : UInt64).toNat = 4095 := by decide
  unfold sizeToBlock
  rw [UInt64.toNat_shiftRight,UInt64.toNat_add,hsum,htwelve,hmask,Nat.mod_eq_of_lt (by omega),
    Nat.shiftRight_eq_div_pow]
  omega

theorem commit_ok {oldLpas : List UInt32}
    (hr : Volume.rtfsDirInodeCommitCowWritebackWithTxId answers img d = .ok (oldLpas,img')) :
    singleDirOldDataLpas answers.malloc answers.lpas d = .ok oldLpas ∧
      ∃ w, rtfsDirInodeWritebackContentCow answers.lpas d = (.ok (),w) ∧ ∃ s',
        rtfsDirInodeApplyPendingRegularBlockRelocations img.store img.ino w.loadedBlocks = .ok s' ∧
          img' = { img with store := s', read := writtenBlocks img.read w.loadedBlocks } := by
  unfold Volume.rtfsDirInodeCommitCowWritebackWithTxId at hr
  obtain ⟨old,hfound,hr⟩ := Except.bind_ok hr
  have hold := hfound
  unfold singleDirOldDataLpas at hold
  rcases hw : rtfsDirInodeWritebackContentCow answers.lpas d with ⟨ret,w⟩
  rw [hw] at hold hr
  cases ret with
  | error e => cases hold
  | ok u =>
    obtain ⟨s',happly,hr⟩ := Except.bind_ok hr
    cases hrest : answers.rest with
    | some e =>
      rw [hrest] at hr
      cases hr
    | none =>
      rw [hrest] at hr
      cases hr
      exact ⟨hfound,w,rfl,s',happly,rfl⟩

section Balance

theorem find_index {bs : List RtfsLoadedDirBlock} (hn : (bs.map RtfsLoadedDirBlock.blockIndex).Nodup)
    {b : RtfsLoadedDirBlock} (hb : b ∈ bs) :
    bs.find? (fun x => decide (x.blockIndex = UInt32.ofNat b.blockIndex.toNat)) = some b := by
  cases hf : bs.find? (fun x => decide (x.blockIndex = UInt32.ofNat b.blockIndex.toNat)) with
  | none =>
    have hno := List.find?_eq_none.mp hf b hb
    rw [UInt32.ofNat_toNat] at hno
    exact absurd (decide_eq_true rfl) hno
  | some x =>
    have hidx : x.blockIndex = b.blockIndex := by simpa using List.find?_some hf
    rw [List.inj_on_of_nodup_map hn (List.mem_of_find?_eq_some hf) hb hidx]

theorem nats_nodup {bs : List RtfsLoadedDirBlock} (hn : (bs.map RtfsLoadedDirBlock.blockIndex).Nodup) :
    (bs.map (fun b => b.blockIndex.toNat)).Nodup := by
  have hnats := hn.map (f := UInt32.toNat) (fun _ _ he => UInt32.toNat_inj.mp he)
  rw [List.map_map] at hnats
  exact hnats

def lpaBefore (c : DirContent) (d : RtfsDirInode) (i : Nat) : UInt32 :=
  match d.loadedBlocks.find? (fun b => decide (b.blockIndex = UInt32.ofNat i)) with
  | some b => b.lpa
  | none => ((c.blocks[i]?).map MappedBlock.lpa).getD 0

def lpaAfter (c : DirContent) (d : RtfsDirInode) (i : Nat) : UInt32 := ((c.blockAfter d i).map MappedBlock.lpa).getD 0

theorem lpaBefore_loaded (hn : (d.loadedBlocks.map RtfsLoadedDirBlock.blockIndex).Nodup) {b : RtfsLoadedDirBlock}
    (hb : b ∈ d.loadedBlocks) : c.lpaBefore d b.blockIndex.toNat = b.lpa := by
  unfold lpaBefore
  rw [find_index hn hb]

theorem lpaBefore_mapped (h : Tracks c d) (hroom : d.totalBlockCount ≤ 2 ^ 32) {i : Nat} {m : MappedBlock}
    (hm : c.blocks[i]? = some m) : c.lpaBefore d i = m.lpa := by
  unfold lpaBefore
  cases hf : d.loadedBlocks.find? (fun b => decide (b.blockIndex = UInt32.ofNat i)) with
  | none => simp only [hm,Option.map_some,Option.getD_some]
  | some b =>
    have hlt := (List.getElem?_eq_some_iff.mp hm).1
    have hle := h.le
    have hidx : b.blockIndex = UInt32.ofNat i := by simpa using List.find?_some hf
    refine h.home b (List.mem_of_find?_eq_some hf) m ?_
    rw [hidx,UInt32.toNat_ofNat',Nat.mod_eq_of_lt (by omega)]
    exact hm

theorem lpaBefore_perm (h : Tracks c d) (hn : (d.loadedBlocks.map RtfsLoadedDirBlock.blockIndex).Nodup)
    (hroom : d.totalBlockCount ≤ 2 ^ 32) : ((List.range d.totalBlockCount).map (c.lpaBefore d)).Perm
      (c.blocks.map MappedBlock.lpa ++ (c.attachedTo d).map RtfsLoadedDirBlock.lpa) := by
  have hle := h.le
  have hold : (List.range c.blocks.length).map (c.lpaBefore d) = c.blocks.map MappedBlock.lpa := by
    refine List.ext_getElem (by rw [List.length_map,List.length_map,List.length_range]) (fun i hi hi' => ?_)
    rw [List.length_map] at hi'
    rw [List.getElem_map,List.getElem_map,List.getElem_range]
    exact lpaBefore_mapped h hroom (List.getElem?_eq_getElem hi')
  have hnew : ((List.range' c.blocks.length (d.totalBlockCount - c.blocks.length))).Perm
      ((c.attachedTo d).map (fun b => b.blockIndex.toNat)) := by
    have hnats : ((c.attachedTo d).map (fun b => b.blockIndex.toNat)).Nodup :=
      nats_nodup (hn.sublist (List.filter_sublist.map _))
    rw [List.perm_ext_iff_of_nodup List.nodup_range' hnats]
    intro i
    rw [List.mem_range'_1]
    constructor
    · rintro ⟨hge,hlt⟩
      obtain ⟨b,hb,hidx⟩ := List.mem_map.mp (h.loads i (by omega) (.inr hge))
      have hnat : b.blockIndex.toNat = i := by
        rw [hidx,UInt32.toNat_ofNat',Nat.mod_eq_of_lt (by omega)]
      exact List.mem_map.mpr ⟨b,List.mem_filter.mpr ⟨hb,decide_eq_true (hnat ▸ hge)⟩,hnat⟩
    · intro hin
      obtain ⟨b,hb,rfl⟩ := List.mem_map.mp hin
      obtain ⟨hb,hge⟩ := List.mem_filter.mp hb
      have hlt := h.inside b hb
      exact ⟨of_decide_eq_true hge,by omega⟩
  have hsplit : List.range d.totalBlockCount =
      List.range c.blocks.length ++ List.range' c.blocks.length (d.totalBlockCount - c.blocks.length) := by
    have hrange := @List.range'_append_1 0 c.blocks.length (d.totalBlockCount - c.blocks.length)
    rw [Nat.zero_add,Nat.add_sub_cancel' hle] at hrange
    rw [List.range_eq_range',List.range_eq_range']
    exact hrange.symm
  have hattached : ((c.attachedTo d).map (fun b => b.blockIndex.toNat)).map (c.lpaBefore d) =
      (c.attachedTo d).map RtfsLoadedDirBlock.lpa := by
    rw [List.map_map]
    exact List.map_congr_left (fun b hb => lpaBefore_loaded hn (List.mem_filter.mp hb).1)
  rw [hsplit,List.map_append,hold,← hattached]
  exact (hnew.map _).append_left _

theorem written_dirty {bs bs' : List RtfsLoadedDirBlock} (h : List.Forall₂ Written bs bs') :
    (bs'.filter RtfsLoadedDirBlock.isDirty).map RtfsLoadedDirBlock.blockIndex =
      (bs.filter RtfsLoadedDirBlock.isDirty).map RtfsLoadedDirBlock.blockIndex := by
  induction h with
  | nil => rfl
  | cons hb _ ih =>
    rw [List.filter_cons,List.filter_cons,hb.isDirty]
    split
    · rw [List.map_cons,List.map_cons,hb.blockIndex,ih]
    · exact ih

theorem WroteBack.lpaAfter {lpas : List UInt32} {w : RtfsDirInode} (h : WroteBack lpas d w)
    (hn : (d.loadedBlocks.map RtfsLoadedDirBlock.blockIndex).Nodup) {b : RtfsLoadedDirBlock}
    (hb : b ∈ w.loadedBlocks) (hd : b.isDirty = true) : c.lpaAfter w b.blockIndex.toNat = b.cowNewLpa := by
  obtain ⟨hp,hz⟩ := Bool.and_eq_true_iff.mp ((h.moves b hb).trans hd)
  unfold DirContent.lpaAfter DirContent.blockAfter
  rw [find_index (h.indices ▸ hn) hb]
  simp only [dif_pos (⟨hp,of_decide_eq_true hz⟩ : b.hasPendingCowRelocation = true ∧ b.cowNewLpa ≠ invalidLpa)]
  rfl

theorem oldLpas_dirty (hb : Backed d) {malloc : Bool} {lpas oldLpas : List UInt32}
    (h : singleDirOldDataLpas malloc lpas d = .ok oldLpas) : oldLpas = dirtyLpas d := by
  unfold singleDirOldDataLpas at h
  rcases hw : rtfsDirInodeWritebackContentCow lpas d with ⟨ret,w⟩
  rw [hw] at h
  cases ret with
  | error e => cases h
  | ok u =>
    obtain ⟨hp,-,hlen⟩ := writeback_pending hb hw
    have hle := dirtyLpas_length d
    simp only at h
    split at h
    · split at h
      · cases h
      · unfold rtfsDirInodeCollectPendingDataCowOldLpas at h
        rw [collectPending_fits (by rw [hp,hlen,List.length_nil,Nat.zero_add]; exact hle),hp] at h
        cases h
        rfl
    · cases h
      exact (List.eq_nil_of_length_eq_zero (by omega)).symm

theorem WroteBack.taken {lpas : List UInt32} {w : RtfsDirInode} (h : WroteBack lpas d w) :
    (w.loadedBlocks.filter RtfsLoadedDirBlock.isDirty).map RtfsLoadedDirBlock.cowNewLpa =
      lpas.take (d.loadedBlocks.countP RtfsLoadedDirBlock.isDirty) := by
  have hlens := congrArg List.length (written_dirty h.blocks)
  rw [List.length_map,List.length_map,← List.countP_eq_length_filter (l := d.loadedBlocks)] at hlens
  rw [← hlens,← List.length_map (f := RtfsLoadedDirBlock.cowNewLpa)]
  exact List.prefix_iff_eq_take.mp h.lpas

theorem Session.balanced (hc : c.Holds es) (h : Session c es d) (hroom : d.totalBlockCount ≤ 2 ^ 32)
    (hn : (d.loadedBlocks.map RtfsLoadedDirBlock.blockIndex).Nodup) {lpas : List UInt32} {w : RtfsDirInode}
    (hw : WroteBack lpas d w) :
    ((c.relocated w).blocks.map MappedBlock.lpa ++ dirtyLpas d).Perm (c.blocks.map MappedBlock.lpa ++
      ((c.attachedTo d).map RtfsLoadedDirBlock.lpa ++ lpas.take (d.loadedBlocks.countP RtfsLoadedDirBlock.isDirty))) := by
  have htotal : w.totalBlockCount = d.totalBlockCount := by rw [hw.same]
  obtain ⟨hlen,hget⟩ := h.relocated_blocks hc hroom htotal hw.blocks
  have hmapped {i : Nat} (hi : i < d.totalBlockCount) : ∃ m, c.blockAfter w i = some m ∧
      (c.relocated w).blocks[i]? = some m :=
    ⟨_,(hget i hi).symm.trans (List.getElem?_eq_getElem (hlen ▸ hi)),List.getElem?_eq_getElem (hlen ▸ hi)⟩
  have hblocks : (c.relocated w).blocks.map MappedBlock.lpa = (List.range d.totalBlockCount).map (c.lpaAfter w) := by
    refine List.ext_getElem (by rw [List.length_map,List.length_map,List.length_range,hlen]) (fun i hi hi' => ?_)
    rw [List.length_map,List.length_range] at hi'
    obtain ⟨m,hm,hat⟩ := hmapped hi'
    rw [List.getElem_map,List.getElem_map,List.getElem_range]
    unfold DirContent.lpaAfter
    rw [hm]
    exact congrArg MappedBlock.lpa (List.getElem?_eq_some_iff.mp hat).2
  have hdirty := written_dirty hw.blocks
  have hindices : (w.loadedBlocks.filter RtfsLoadedDirBlock.isDirty).map (fun b => b.blockIndex.toNat) =
      (d.loadedBlocks.filter RtfsLoadedDirBlock.isDirty).map (fun b => b.blockIndex.toNat) := by
    have hnats := congrArg (List.map UInt32.toNat) hdirty
    rw [List.map_map,List.map_map] at hnats
    exact hnats
  have hold : ((w.loadedBlocks.filter RtfsLoadedDirBlock.isDirty).map (fun b => b.blockIndex.toNat)).map
      (c.lpaBefore d) = dirtyLpas d := by
    rw [hindices,List.map_map]
    exact List.map_congr_left (fun b hb => lpaBefore_loaded hn (List.mem_filter.mp hb).1)
  have hnew : ((w.loadedBlocks.filter RtfsLoadedDirBlock.isDirty).map (fun b => b.blockIndex.toNat)).map
      (c.lpaAfter w) = lpas.take (d.loadedBlocks.countP RtfsLoadedDirBlock.isDirty) := by
    rw [← hw.taken,List.map_map]
    exact List.map_congr_left (fun b hb => hw.lpaAfter hn (List.mem_filter.mp hb).1 (List.mem_filter.mp hb).2)
  have hdistinct : ((w.loadedBlocks.filter RtfsLoadedDirBlock.isDirty).map (fun b => b.blockIndex.toNat)).Nodup := by
    rw [hindices]
    exact nats_nodup (hn.sublist (List.filter_sublist.map _))
  have hinside : ∀ k ∈ (w.loadedBlocks.filter RtfsLoadedDirBlock.isDirty).map (fun b => b.blockIndex.toNat),
      k < d.totalBlockCount := by
    intro k hk
    rw [hindices] at hk
    obtain ⟨b,hb,rfl⟩ := List.mem_map.mp hk
    exact h.tracks.inside b (List.mem_filter.mp hb).1
  rw [hblocks,← hold,← hnew,← List.append_assoc]
  refine (Listing.displaced_perm hdistinct hinside (fun i hi hno => ?_)).trans
    ((lpaBefore_perm h.tracks hn hroom).append_right _)
  obtain ⟨m,hm,-⟩ := hmapped hi
  rcases blockAfter_cases (hw.indices ▸ hn) hm with ⟨b,hb,hmoves,hbi,-,-⟩ | ⟨hbase,-⟩
  · refine absurd (List.mem_map.mpr ⟨b,List.mem_filter.mpr ⟨hb,(hw.moves b hb).symm.trans hmoves⟩,?_⟩) hno
    rw [hbi,UInt32.toNat_ofNat',Nat.mod_eq_of_lt (by omega)]
  · unfold DirContent.lpaAfter
    rw [hm,lpaBefore_mapped h.tracks hroom hbase]
    rfl

end Balance

theorem Session.regular (hb : BlocksOk d) (h : Session c es d) : d.isInline = false := by
  rw [h.tracks.flag]
  rcases hb.kind with hk | ⟨hk,-⟩ <;> rw [hk] <;> rfl

theorem Session.base (hd : c.OnDisk img) (hb : BlocksOk d) (h : Session c es d) :
    (if img.isInline && !d.isInline then clearMapping img.store img.ino else img.store) = c.baseStore img := by
  unfold baseStore
  rw [h.regular hb,hd.shown.isInline,Bool.not_false,Bool.and_true]

structure Reindexed (c : DirContent) (d w : RtfsDirInode) (ino : UInt32) (s' : NodeStore)
    (read : UInt32 → Option RtfsDentryBlock) : Prop where
  tree : d.isInline = false → IndexTree s' ino
  convertible : d.isInline = true → Convertible s' ino
  blocks : ∀ i < d.totalBlockCount, ∀ m, c.blockAfter w i = some m →
    rtfsDirResolveDataLpaByBlockIndex s' ino (UInt32.ofNat i) = .ok m.lpa ∧ read m.lpa = some m.block

theorem Session.settled (hc : c.Holds es) (hd : c.OnDisk img) (h : Session c es d) (hroom : d.totalBlockCount ≤ 2 ^ 32)
    {lpas : List UInt32} {w : RtfsDirInode} (hback : WroteBack lpas d w) (hn : lpas.Nodup)
    (hfresh : ∀ b ∈ c.blocks, b.lpa ∉ lpas) {s₁ s' : NodeStore}
    (hgrown : mapAttached img.ino (c.attachedTo d)
      (if img.isInline && !d.isInline then clearMapping img.store img.ino else img.store) = some s₁)
    (hreloc : rtfsDirInodeApplyPendingRegularBlockRelocations s₁ img.ino w.loadedBlocks = .ok s') :
    Reindexed c d w img.ino s' (writtenBlocks img.read w.loadedBlocks) := by
  rcases h.ok.backing with hi | hb
  · obtain ⟨hin,hzero⟩ := h.tracks.inline hi.kind
    have hinl : d.isInline = true := by
      rw [h.tracks.flag,hi.kind]
      rfl
    have hnil : w.loadedBlocks = [] := List.map_eq_nil_iff.mp (hback.indices.trans (by rw [hi.blocks]; rfl))
    unfold attachedTo at hgrown
    rw [hi.blocks,hd.shown.isInline,hin,hinl] at hgrown
    cases hgrown
    rw [hnil] at hreloc
    cases hreloc
    refine ⟨fun hf => absurd (hinl.symm.trans hf) (by decide),fun _ => hd.convertible hin,fun i hlt => ?_⟩
    rw [hzero] at hlt
    exact absurd hlt (Nat.not_lt_zero i)
  · have hreg := h.regular hb
    rw [h.base hd hb] at hgrown
    obtain ⟨s'',hr,htree,haddr⟩ := hback.relocates hc hd hroom hb.indices hgrown
    cases hreloc.symm.trans hr
    refine ⟨fun _ => htree,fun ht => absurd (hreg.symm.trans ht) (by decide),fun i hlt m hm => ⟨?_,?_⟩⟩
    · rw [dirResolve_slotAddr htree hd.ino,UInt32.toNat_ofNat',Nat.mod_eq_of_lt (by omega)]
      exact haddr i hlt m hm
    · exact hback.reads hn hd hfresh hb.indices hm

theorem Session.indices (h : Session c es d) : (d.loadedBlocks.map RtfsLoadedDirBlock.blockIndex).Nodup := by
  rcases h.ok.backing with hi | hb
  · rw [hi.blocks]
    exact List.nodup_nil
  · exact hb.indices

theorem Session.backed (hd : c.OnDisk img) (h : Session c es d) {s₁ : NodeStore}
    (hgrown : mapAttached img.ino (c.attachedTo d)
      (if img.isInline && !d.isInline then clearMapping img.store img.ino else img.store) = some s₁) : Backed d := by
  intro b hb
  refine ⟨?_,fun hp => absurd ((h.tracks.idle b hb).symm.trans hp) (by decide)⟩
  rcases h.ok.backing with hi | hblocks
  · rw [hi.blocks] at hb
    exact absurd hb List.not_mem_nil
  · rw [h.base hd hblocks] at hgrown
    obtain ⟨-,hvalid⟩ := mapAttached_spec hd.baseTree (h.indices.sublist (List.filter_sublist.map _)) hgrown
    by_cases hge : c.blocks.length ≤ b.blockIndex.toNat
    · exact hvalid b (List.mem_filter.mpr ⟨hb,decide_eq_true hge⟩)
    · have hm := List.getElem?_eq_getElem (Nat.not_le.mp hge)
      rw [h.tracks.home b hb _ hm]
      exact (c.blocks[b.blockIndex.toNat]).mapped

def takenLpas (c : DirContent) (d : RtfsDirInode) (lpas : List UInt32) : List UInt32 :=
  (c.attachedTo d).map RtfsLoadedDirBlock.lpa ++ lpas.take (d.loadedBlocks.countP RtfsLoadedDirBlock.isDirty)

theorem OnDisk.startSize (hd : c.OnDisk img) (hc : c.Holds es) (d : RtfsDirInode) :
    (if img.isInline && !d.isInline then 0 else img.iSize).toNat = 4096 * c.blocks.length := by
  by_cases hconv : (img.isInline && !d.isInline) = true
  · have hin := (Bool.and_eq_true_iff.mp hconv).1
    rw [if_pos hconv,(hc.inline (hd.shown.isInline.symm.trans hin)).1]
    rfl
  · rw [if_neg hconv]
    exact hd.size

theorem Session.committed (hc : c.Holds es) (hd : c.OnDisk img) (h : Session c es d) (hroom : d.totalBlockCount ≤ 2 ^ 32)
    (hup : img.updated d = some img₁) (hn : answers.lpas.Nodup) (hfresh : ∀ b ∈ c.blocks, b.lpa ∉ answers.lpas)
    {oldLpas : List UInt32} (hr : Volume.rtfsDirInodeCommitCowWritebackWithTxId answers img₁ d = .ok (oldLpas,img')) :
    ∃ c' : DirContent, c'.OnDisk img' ∧ c'.Holds (d.entries ++ otherEntries es) ∧ c'.iDentryNum = d.iDentryNum ∧
      (c'.blocks.map MappedBlock.lpa ++ oldLpas).Perm
        (c.blocks.map MappedBlock.lpa ++ c.takenLpas d answers.lpas) := by
  obtain ⟨hold,w,hw,s',hreloc,rfl⟩ := commit_ok hr
  have hback := h.wroteBack hw
  have hsame := hback.same
  have htotal : w.totalBlockCount = d.totalBlockCount := by rw [hsame]
  obtain ⟨hlen,hget⟩ := h.relocated_blocks hc hroom htotal hback.blocks
  unfold DirImage.updated at hup
  rw [hd.blockCount] at hup
  obtain ⟨s₁,hgrown,rfl⟩ := Option.map_eq_some_iff.mp hup
  have hsettled := h.settled hc hd hroom hback hn hfresh hgrown hreloc
  have hstart := hd.startSize hc d
  have hle := h.tracks.le
  obtain ⟨hbytes,hblocks⟩ := sizeToBlock_grown (k := d.totalBlockCount - c.blocks.length) hstart (by omega)
  rw [Nat.add_sub_cancel' hle] at hbytes hblocks
  have hflag : (c.relocated w).isInline = d.isInline := by rw [hsame]; rfl
  refine ⟨c.relocated w,⟨⟨?_,hflag.symm,?_,hblocks.trans hlen.symm,fun i m hm => ?_⟩,hd.ino,?_,?_,?_⟩,
    h.relocated hc hroom hw,by rw [hsame]; rfl,?_⟩
  · change d.iDentryNum = w.iDentryNum
    rw [hsame]
  · change d.inlineDentry.getD img.inlineDentry = w.inlineDentry.getD c.inlineDentry
    rw [hsame,hd.shown.inlineDentry]
  · have hi : i < d.totalBlockCount := hlen ▸ (List.getElem?_eq_some_iff.mp hm).1
    exact hsettled.blocks i hi m ((hget i hi).symm.trans hm)
  · rw [hlen]
    exact hbytes
  · rw [hflag]
    exact hsettled.tree
  · rw [hflag]
    exact hsettled.convertible
  · rw [oldLpas_dirty (h.backed hd hgrown) hold]
    exact h.balanced hc hroom h.indices hback

section Failed
variable {f : FailedCommit}

theorem failedCommit_cases (hr : Volume.failedCommit answers img d = some f) :
    let w := (rtfsDirInodeWritebackContentCow answers.lpas d).2
    f.written = (w.loadedBlocks.filter RtfsLoadedDirBlock.moves).map RtfsLoadedDirBlock.cowNewLpa ∧
      f.img.read = writtenBlocks img.read (w.loadedBlocks.filter RtfsLoadedDirBlock.moves) ∧
      (f.applied = true ∧ singleDirOldDataLpas answers.malloc answers.lpas d = .ok f.lost ∧
          rtfsDirInodeApplyPendingRegularBlockRelocations img.store img.ino w.loadedBlocks = .ok f.img.store ∧
          f.img = { img with store := f.img.store, read := f.img.read } ∨
        f.applied = false ∧ d.loadedBlocks ≠ [] ∧ f.lost = f.written ∧ f.img = { img with read := f.img.read }) := by
  unfold Volume.failedCommit at hr
  cases hold : singleDirOldDataLpas answers.malloc answers.lpas d with
  | error e =>
    rw [hold] at hr
    cases hr
    refine ⟨rfl,rfl,.inr ⟨rfl,fun hnil => ?_,rfl,rfl⟩⟩
    unfold singleDirOldDataLpas rtfsDirInodeWritebackContentCow at hold
    rw [hnil] at hold
    cases hold
  | ok oldDataLpas =>
    rw [hold] at hr
    simp only [Except.bind] at hr
    cases happly : rtfsDirInodeApplyPendingRegularBlockRelocations img.store img.ino
        (rtfsDirInodeWritebackContentCow answers.lpas d).2.loadedBlocks with
    | error e =>
      rw [happly] at hr
      cases hr
      refine ⟨rfl,rfl,.inr ⟨rfl,fun hnil => ?_,rfl,rfl⟩⟩
      unfold rtfsDirInodeWritebackContentCow at happly
      rw [hnil] at happly
      cases happly
    | ok store =>
      rw [happly] at hr
      obtain ⟨e,-,rfl⟩ := Option.map_eq_some_iff.mp hr
      exact ⟨rfl,rfl,.inl ⟨rfl,rfl,happly,rfl⟩⟩

theorem Session.failedLate (hc : c.Holds es) (hd : c.OnDisk img) (h : Session c es d)
    (hroom : d.totalBlockCount ≤ 2 ^ 32) (hup : img.updated d = some img₁) (hn : answers.lpas.Nodup)
    (hfresh : ∀ b ∈ c.blocks, b.lpa ∉ answers.lpas) (hr : Volume.failedCommit answers img₁ d = some f)
    (ha : f.applied = true) : ∃ c' : DirContent, c'.OnDisk f.img ∧ c'.Holds (d.entries ++ otherEntries es) ∧
      c'.iDentryNum = d.iDentryNum ∧ (c'.blocks.map MappedBlock.lpa ++ f.lost).Perm
        (c.blocks.map MappedBlock.lpa ++ ((c.attachedTo d).map RtfsLoadedDirBlock.lpa ++ f.written)) := by
  obtain ⟨hwritten,hread,⟨-,hold,happly,himg⟩ | ⟨hf,-⟩⟩ := failedCommit_cases hr
  · rcases hw : rtfsDirInodeWritebackContentCow answers.lpas d with ⟨ret,w⟩
    rw [hw] at hwritten hread happly
    have hok : ret = .ok () := by
      unfold singleDirOldDataLpas at hold
      rw [hw] at hold
      cases ret with
      | error e => cases hold
      | ok u => rfl
    subst hok
    have hback := h.wroteBack hw
    have hmoving : w.loadedBlocks.filter RtfsLoadedDirBlock.moves = w.loadedBlocks.filter RtfsLoadedDirBlock.isDirty :=
      List.filter_congr hback.moves
    have hcommit : Volume.rtfsDirInodeCommitCowWritebackWithTxId answers.unfailing img₁ d =
        .ok (f.lost,f.img) := by
      unfold Volume.rtfsDirInodeCommitCowWritebackWithTxId CommitAnswers.unfailing
      rw [hold]
      simp only [Except.bind,hw,happly]
      rw [himg,hread,written_moving hback.moves]
    have hn' : answers.unfailing.lpas.Nodup := hn
    obtain ⟨c',hdisk,hholds,hnum,hbalance⟩ := h.committed hc hd hroom hup hn' hfresh hcommit
    refine ⟨c',hdisk,hholds,hnum,?_⟩
    rw [hwritten,hmoving,hback.taken]
    exact hbalance
  · exact absurd (hf.symm.trans ha) (by decide)

theorem Session.unattached (hc : c.Holds es) (hd : c.OnDisk img) (h : Session c es d)
    (hroom : d.totalBlockCount ≤ 2 ^ 32) (hup : img.updated d = some img₁) (hsize : img₁.iSize = img.iSize) :
    d.totalBlockCount = c.blocks.length := by
  have hle := h.tracks.le
  unfold DirImage.updated at hup
  rw [hd.blockCount] at hup
  obtain ⟨s₁,hgrown,rfl⟩ := Option.map_eq_some_iff.mp hup
  obtain ⟨hbytes,-⟩ := sizeToBlock_grown (k := d.totalBlockCount - c.blocks.length)
    (hd.startSize hc d) (by omega)
  have hsame := congrArg UInt64.toNat hsize
  rw [hd.size] at hsame
  have hboth := hbytes.symm.trans hsame
  omega

theorem Session.failedEarly (hc : c.Holds es) (hd : c.OnDisk img) (h : Session c es d) (hup : img.updated d = some img₁)
    (hfresh : ∀ b ∈ c.blocks, b.lpa ∉ answers.lpas) (hr : Volume.failedCommit answers img₁ d = some f)
    (ha : f.applied = false) (htotal : d.totalBlockCount = c.blocks.length) :
    ∃ c' : DirContent, c'.OnDisk f.img ∧ c'.Holds es ∧ c'.iDentryNum = d.iDentryNum ∧
      (c'.blocks.map MappedBlock.lpa ++ f.lost).Perm
        (c.blocks.map MappedBlock.lpa ++ ((c.attachedTo d).map RtfsLoadedDirBlock.lpa ++ f.written)) := by
  obtain ⟨hwritten,hread,⟨ht,-⟩ | ⟨-,hloaded,hlost,himg⟩⟩ := failedCommit_cases hr
  · exact absurd (ha.symm.trans ht) (by decide)
  · have hblocks : BlocksOk d := by
      rcases h.ok.backing with hi | hb
      · exact absurd hi.blocks hloaded
      · exact hb
    have hreg := h.regular hblocks
    have hcreg : c.isInline = false := by
      cases hin : c.isInline with
      | false => rfl
      | true =>
        obtain ⟨b,hb⟩ := List.exists_mem_of_ne_nil _ hloaded
        have hlt := h.tracks.inside b hb
        rw [htotal,(hc.inline hin).1] at hlt
        exact absurd hlt (Nat.not_lt_zero _)
    have hconv : (img.isInline && !d.isInline) = false := by rw [hd.shown.isInline,hcreg]; rfl
    unfold DirImage.updated at hup
    rw [hd.blockCount] at hup
    obtain ⟨s₁,hgrown,rfl⟩ := Option.map_eq_some_iff.mp hup
    rw [hconv] at hgrown
    have hsize : (if (false : Bool) = true then (0 : UInt64) else img.iSize) +
        UInt64.ofNat (4096 * (d.totalBlockCount - c.blocks.length)) = img.iSize := by
      rw [htotal,Nat.sub_self]
      exact UInt64.add_zero _
    have hnone : c.attachedTo d = [] := by
      refine List.filter_eq_nil_iff.mpr (fun b hb hge => ?_)
      have hlt := h.tracks.inside b hb
      have hge := of_decide_eq_true hge
      omega
    unfold attachedTo at hnone
    rw [hnone] at hgrown
    cases hgrown
    refine ⟨{ c with
      iDentryNum := d.iDentryNum
      inlineDentry := d.inlineDentry.getD c.inlineDentry },⟨⟨?_,?_,?_,?_,fun i m hm => ?_⟩,?_,?_,?_,?_⟩,
      ⟨hc.names,hc.distinct,hc.narrow,hc.size,fun hi => absurd (hcreg.symm.trans hi) (by decide),hc.source,hc.blocks⟩,
      rfl,?_⟩
    · rw [himg]
    · rw [himg]
      exact hreg.trans hcreg.symm
    · rw [himg]
      change d.inlineDentry.getD img.inlineDentry = _
      rw [hd.shown.inlineDentry]
    · rw [himg]
      change sizeToBlock ((if (img.isInline && !d.isInline) = true then (0 : UInt64) else img.iSize) + _) = _
      rw [hconv]
      exact (congrArg sizeToBlock hsize).trans hd.blockCount
    · obtain ⟨haddr,hat⟩ := hd.shown.blocks i m hm
      rw [himg]
      refine ⟨haddr,?_⟩
      change f.img.read m.lpa = some m.block
      rw [hread,written_other (fun b hb _ he => hfresh m (List.mem_of_getElem? hm) ?_)]
      · exact hat
      · rw [← he]
        exact (writeDirty_taken h.tracks.idle).subset (List.mem_map_of_mem hb)
    · rw [himg]
      exact hd.ino
    · rw [himg]
      change ((if (img.isInline && !d.isInline) = true then (0 : UInt64) else img.iSize) + _).toNat = _
      rw [hconv]
      exact (congrArg UInt64.toNat hsize).trans hd.size
    · intro _
      rw [himg]
      exact hd.tree hcreg
    · exact fun hi => absurd (hcreg.symm.trans hi) (by decide)
    · unfold attachedTo
      rw [hnone,hlost]
      exact .refl _

end Failed

end OnDisk

end DirContent

end DirEntries

end Rtfs
