import Rtfs.Inode.FileWrite

namespace Rtfs

open DirEntries (sizeToBlock)

structure ClearedBlocks (f f' : RtfsFileInode) (start n : Nat) : Prop where
  tree : IndexTree f'.nodes f'.ino
  only : f'.ino = f.ino ∧ f'.iSize = f.iSize ∧ f'.pageCache = f.pageCache
  cleared : ∀ b, start ≤ b → b < start + n → blockLpa f' b = .ok invalidLpa
  kept : ∀ b, b < start ∨ start + n ≤ b → blockLpa f' b = blockLpa f b
  pending : f'.pendingTruncateOldLpas.items =
    f.pendingTruncateOldLpas.items ++ (blockLpas f start n).filter (· ≠ invalidLpa)

section Clear
variable {env : FileEnv} {f f' : RtfsFileInode} {start n : Nat}

theorem clearBlocks_only (env : FileEnv) (n start : Nat) (f : RtfsFileInode) :
    (clearBlocks env n start f).2.ino = f.ino ∧ (clearBlocks env n start f).2.iSize = f.iSize ∧
      (clearBlocks env n start f).2.pageCache = f.pageCache := by
  induction n generalizing start f with
  | zero => exact ⟨rfl,rfl,rfl⟩
  | succ n ih =>
    rw [clearBlocks]
    split
    · exact ⟨rfl,rfl,rfl⟩
    · rcases rtfsFileSetDataLpaByBlockIndex f.nodes f.ino (UInt32.ofNat start) invalidLpa false with ⟨r,nodes⟩
      cases r with
      | error e => exact ⟨rfl,rfl,rfl⟩
      | ok oldLpa =>
        simp only
        cases rtfsFileInodeAppendPendingTruncateOldLpa env.realloc f.pendingTruncateOldLpas oldLpa with
        | error e => exact ⟨rfl,rfl,rfl⟩
        | ok a => exact ih (start + 1) _

theorem appendTruncated_items {realloc : Nat → Bool} {a a' : GrowArray UInt32} {lpa : UInt32} (hz : lpa ≠ invalidLpa)
    (h : rtfsFileInodeAppendPendingTruncateOldLpa realloc a lpa = .ok a') : a'.items = a.items ++ [lpa] := by
  unfold rtfsFileInodeAppendPendingTruncateOldLpa at h
  rw [if_neg hz] at h
  split at h
  · simp only at h
    by_cases hr : realloc (if a.capacity = 0 then 8 else a.capacity * 2) = true
    · rw [if_pos hr] at h
      cases h
      rfl
    · rw [if_neg hr] at h
      cases h
  · cases h
    rfl

theorem clearBlocks_ok (h : IndexTree f.nodes f.ino) (n : Nat) (he : (clearBlocks env n start f).1 = .ok ()) :
    ClearedBlocks f (clearBlocks env n start f).2 start n := by
  have honly := clearBlocks_only env n start f
  have hall := (clearBlocks_ok_iff h n).mp he
  induction n generalizing start f with
  | zero => exact ⟨h,honly,fun b hlo hhi => by omega,fun b _ => rfl,(List.append_nil _).symm⟩
  | succ n ih =>
    cases clearStep env n start h with
    | stuck e hstuck hr =>
      rw [hr] at he
      cases he
    | hole hhole hr =>
      rw [hr] at he honly ⊢
      have hrest := ih h he honly ((clearBlocks_ok_iff h n).mp he)
      refine ⟨hrest.tree,honly,fun b hlo hhi => ?_,fun b hb => hrest.kept b (by omega),?_⟩
      · by_cases hb : b = start
        · rw [hb,hrest.kept start (by omega),hhole]
        · exact hrest.cleared b (by omega) (by omega)
      · rw [hrest.pending,blockLpas,hhole]
        exact congrArg _ (List.filter_cons_of_neg (by simp [Except.toOption])).symm
    | full v e g hv ha hg hr =>
      rw [hr] at he
      cases he
    | cleared v a g hv ha hpending hg hr =>
      rw [hr] at he honly ⊢
      have hrest := ih hg.tree he (clearBlocks_only env n (start + 1) g) ((clearBlocks_ok_iff hg.tree n).mp he)
      refine ⟨hrest.tree,honly,fun b hlo hhi => ?_,fun b hb => ?_,?_⟩
      · by_cases hb : b = start
        · rw [hb,hrest.kept start (by omega),hg.new]
        · exact hrest.cleared b (by omega) (by omega)
      · rw [hrest.kept b (by omega),hg.others b (by omega)]
      · rw [hrest.pending,hpending,appendTruncated_items hv ha,blockLpas,hg.old,
          blockLpas_congr (fun b hb => hg.others b (by omega)),List.append_assoc]
        exact congrArg _ (List.filter_cons_of_pos (by simpa [Except.toOption] using hv)).symm

end Clear

def dropPage (e : PageEntry) : PageEntry :=
  { e with lpa := invalidLpa, contentState := .pageInvalid, isDirty := false }

section Invalidate

theorem sizeToBlock_small {size : UInt64} (h : size.toNat ≤ maxFileBytes) :
    sizeToBlock size = (size.toNat + 4095) / 4096 := by
  unfold maxFileBytes at h
  rw [sizeToBlock_toNat]
  omega

theorem truncate_below {c : PageCache} {maxBlkoff b : UInt32} (hmax : maxBlkoff.toNat < 4294967295)
    (hb : b ≤ maxBlkoff) : pageCacheTruncate c maxBlkoff b = c b := by
  unfold pageCacheTruncate
  cases hc : c b with
  | none => rfl
  | some e =>
    refine congrArg some (if_neg (fun h => ?_))
    obtain ⟨hle,hd⟩ := h
    unfold firstBlkoff at hle
    split at hle
    · rw [UInt32.le_iff_toNat_le,UInt32.toNat_add,show (1 : UInt32).toNat = 1 from rfl,
        Nat.mod_eq_of_lt (by omega)] at hle
      rw [UInt32.le_iff_toNat_le] at hb
      omega
    · rename_i hclean
      have heq : b = maxBlkoff := UInt32.le_antisymm hb hle
      rw [heq] at hc
      unfold dirtyAt at hclean
      rw [hc] at hclean
      exact hclean hd

theorem invalidated_at (c : PageCache) {targetSize : UInt64} (ht : targetSize.toNat ≤ maxFileBytes) (b : UInt32) :
    pageCacheGet (rtfsFileInodeInvalidateCachedPagesFrom c targetSize) b =
      if b.toNat < sizeToBlock targetSize then pageCacheGet c b else dropPage (pageCacheGet c b) := by
  have hblocks := sizeToBlock_small ht
  have hfirst : (if targetSize.toNat % 4096 = 0 then targetSize.toNat / 4096 else targetSize.toNat / 4096 + 1) =
      sizeToBlock targetSize := by
    rw [hblocks]
    split <;> omega
  unfold maxFileBytes at ht
  unfold rtfsFileInodeInvalidateCachedPagesFrom
  simp only [hfirst]
  have hsmall : sizeToBlock targetSize ≤ 4294967295 := by omega
  rw [if_neg (by omega)]
  by_cases hz : targetSize = 0
  · have hzero : sizeToBlock targetSize = 0 := by
      rw [hz]
      rfl
    simp only [if_pos hz,hzero]
    rw [if_neg (Nat.not_lt_zero _)]
    unfold pageCacheGet pageCacheClearDirtyPages dropPage
    simp only
    cases c b <;> rfl
  · have hpos : 0 < sizeToBlock targetSize := by
      have hne : targetSize.toNat ≠ 0 := fun he => hz (UInt64.toNat_inj.mp he)
      omega
    simp only [if_neg hz]
    rw [if_pos (by omega)]
    have hto : (UInt32.ofNat (sizeToBlock targetSize - 1)).toNat = sizeToBlock targetSize - 1 := by
      rw [UInt32.toNat_ofNat']
      omega
    by_cases hb : b.toNat < sizeToBlock targetSize
    · have hsame : pageCacheTruncate c (UInt32.ofNat (sizeToBlock targetSize - 1)) b = c b :=
        truncate_below (by omega) (UInt32.le_iff_toNat_le.mpr (by omega))
      rw [if_pos hb]
      unfold pageCacheGet
      simp only [hsame]
      cases c b with
      | none => rfl
      | some e => exact if_pos hb
    · rw [if_neg hb]
      unfold pageCacheGet pageCacheTruncate
      simp only
      cases c b with
      | none => rfl
      | some e =>
        simp only [Option.map_some,Option.getD_some,if_neg hb]
        split <;> rfl

end Invalidate

section Truncate
variable {dev : CommDev} {env : FileEnv} {f f' : RtfsFileInode} {F : ByteFile} {targetSize : UInt64}

theorem blockLpa_iff (f : RtfsFileInode) (b lpa : UInt32) :
    blockLpa f b.toNat = .ok lpa ↔ rtfsFileResolveDataLpaByBlockIndex f.nodes f.ino b = .ok lpa := by
  have hlt := b.toNat_lt
  rw [blockLpa_below (by omega),UInt32.ofNat_toNat]
  constructor
  · exact mapError_ok
  · intro h
    rw [h]
    rfl

theorem mapError_inj {α : Type} {x y : Except Errno α}
    (h : x.mapError FileError.errno = y.mapError FileError.errno) : x = y := by
  cases x with
  | error e =>
    cases y with
    | error e' =>
      cases h
      rfl
    | ok v => cases h
  | ok v =>
    cases y with
    | error e => cases h
    | ok v' =>
      cases h
      rfl

theorem pageHolds_resize {b : UInt32} {n : Nat} {page : Block} (h : ∀ i < 4096, 4096 * b.toNat + i < n) :
    PageHolds (F.resize n) b page ↔ PageHolds F b page := by
  refine forall₂_congr (fun i hi => ?_)
  simp only [ByteFile.resize,if_pos (h i hi)]

theorem zero_past {b : UInt32} {n : Nat} (h : n ≤ 4096 * b.toNat) : PageHolds (F.resize n) b Buf.zero := by
  intro i _
  rw [Buf.get_zero]
  exact ((F.resize n).past _ (Nat.le_trans h (Nat.le_add_right _ _))).symm

theorem FilePagesOk.grown (h : FilePagesOk dev f F) (hlt : f.iSize ≤ targetSize)
    (ht : targetSize.toNat ≤ maxFileBytes) :
    FilePagesOk dev { f with iSize := targetSize, isDirty := true } (F.resize targetSize.toNat) := by
  have hle := UInt64.le_iff_toNat_le.mp hlt
  have hsize := h.size
  have hmore : sizeToBlock f.iSize ≤ sizeToBlock targetSize := by
    rw [sizeToBlock_small ht,sizeToBlock_small (by omega)]
    omega
  have hbyte : ∀ b page, PageHolds (F.resize targetSize.toNat) b page ↔ PageHolds F b page := by
    intro b page
    refine forall₂_congr (fun i hi => ?_)
    simp only [ByteFile.resize]
    split
    · rfl
    · rw [F.past _ (by omega)]
  refine ⟨h.tree,rfl,ht,fun b => ?_,fun b lpa hres hbeyond => h.holes b lpa hres (hmore.trans hbeyond),h.held,
    fun b hd => lt_of_lt_of_le (h.dirtyIn b hd) hmore⟩
  have hold := h.pages b
  exact ⟨hold.lpa,fun hr => (hbyte b _).mpr (hold.page hr),hold.dirty,
    fun hd lpa hl => (hbyte b _).mpr (hold.stored hd lpa hl)⟩

theorem FilePagesOk.shrunk (h : FilePagesOk dev f F) (b : UInt32) (hb : 4096 * (b.toNat + 1) ≤ targetSize.toNat) :
    PageOk dev (F.resize targetSize.toNat) b (rtfsFileResolveDataLpaByBlockIndex f.nodes f.ino b)
      (pageCacheGet f.pageCache b) := by
  have hold := h.pages b
  have hin : ∀ page, PageHolds (F.resize targetSize.toNat) b page ↔ PageHolds F b page :=
    fun page => pageHolds_resize (fun i hi => by omega)
  exact ⟨hold.lpa,fun hr => (hin _).mpr (hold.page hr),hold.dirty,fun hd lpa hl => (hin _).mpr (hold.stored hd lpa hl)⟩

structure Shortened (dev : CommDev) (f g : RtfsFileInode) (F : ByteFile) (targetSize : UInt64) : Prop where
  only : OnlyPages f g
  pages : ∀ b : UInt32, b.toNat < sizeToBlock targetSize →
    PageOk dev (F.resize targetSize.toNat) b (rtfsFileResolveDataLpaByBlockIndex f.nodes f.ino b)
      (pageCacheGet g.pageCache b)

theorem FilePagesOk.zeroLastPage (fails : UInt32 → Option Errno) (realloc : Nat → Bool) (h : FilePagesOk dev f F)
    (ht : targetSize.toNat ≤ maxFileBytes) (hp : PartialPage f.iSize targetSize) {g : RtfsFileInode}
    (hz : zeroLastPage (fileEnv dev fails realloc) f targetSize (sizeToBlock targetSize) = (.ok (),g)) :
    Shortened dev f g F targetSize := by
  have hblocks := sizeToBlock_small ht
  unfold maxFileBytes at ht
  unfold Rtfs.zeroLastPage at hz
  simp only [hp.block] at hz
  have hsmall : ¬ 4294967295 < targetSize.toNat / 4096 := by omega
  rw [if_neg hsmall] at hz
  have hto := ofNat_block hsmall
  generalize UInt32.ofNat (targetSize.toNat / 4096) = last at hz hto
  have hprep := h.prepare fails realloc last
  have honly := (prepare_spec (fileEnv dev fails realloc) f last).only
  rcases hr : rtfsFileInodePreparePageForRead (fileEnv dev fails realloc) f last with ⟨r,f₁⟩
  rw [hr] at hz hprep honly
  cases r with
  | error e => cases hz
  | ok entry =>
    obtain ⟨hready,hentry⟩ := hprep.entry entry rfl
    cases hz
    refine ⟨honly.trans (setPage_only _ _ _),fun b hb => ?_⟩
    by_cases hlast : b = last
    · subst hlast
      rw [pageCacheGet_setPage_self]
      refine ⟨fun _ => hentry.lpa hready,fun _ i hi => ?_,fun _ => rfl,fun hd => (by cases hd)⟩
      simp only [get_clearTail _ hi,ByteFile.resize]
      by_cases hk : targetSize.toNat % 4096 ≤ i
      · rw [if_pos hk,if_neg (by omega)]
      · rw [if_neg hk,if_pos (by omega)]
        exact hentry.page hready i hi
    · have hne : b.toNat ≠ last.toNat := fun he => hlast (UInt32.toNat_inj.mp he)
      rw [pageCacheGet_setPage_ne _ _ hlast]
      have hshort : PageOk dev (F.resize targetSize.toNat) b _ _ := hprep.ok.shrunk b (by omega)
      simp only at hshort
      rwa [honly.nodes,honly.ino] at hshort

structure Resized (f f' : RtfsFileInode) (targetSize : UInt64) : Prop where
  ino : f'.ino = f.ino
  kept : ∀ b : UInt32, b.toNat < sizeToBlock targetSize →
    rtfsFileResolveDataLpaByBlockIndex f'.nodes f'.ino b = rtfsFileResolveDataLpaByBlockIndex f.nodes f.ino b
  cut : ∀ b lpa, sizeToBlock targetSize ≤ b.toNat →
    rtfsFileResolveDataLpaByBlockIndex f'.nodes f'.ino b = .ok lpa → lpa = invalidLpa
  pending : f'.pendingTruncateOldLpas.items = f.pendingTruncateOldLpas.items ++
    (blockLpas f (sizeToBlock targetSize) (sizeToBlock f.iSize - sizeToBlock targetSize)).filter (· ≠ invalidLpa)

theorem Shortened.cut (h : FilePagesOk dev f F) (ht : targetSize.toNat ≤ maxFileBytes)
    (hlt : targetSize < f.iSize) {g : RtfsFileInode} (hg : Shortened dev f g F targetSize)
    {g' : RtfsFileInode} (hc : ClearedBlocks g g' (sizeToBlock targetSize)
      (sizeToBlock f.iSize - sizeToBlock targetSize)) :
    FilePagesOk dev { g' with
        pageCache := rtfsFileInodeInvalidateCachedPagesFrom g'.pageCache targetSize
        iSize := targetSize, isDirty := true } (F.resize targetSize.toNat) ∧
      Resized f { g' with
        pageCache := rtfsFileInodeInvalidateCachedPagesFrom g'.pageCache targetSize
        iSize := targetSize, isDirty := true } targetSize := by
  have hsize : f.iSize.toNat ≤ maxFileBytes := h.size ▸ h.bound
  have hle := UInt64.lt_iff_toNat_lt.mp hlt
  have hfewer : sizeToBlock targetSize ≤ sizeToBlock f.iSize := by
    rw [sizeToBlock_small ht,sizeToBlock_small hsize]
    omega
  have hresolve : ∀ b lpa : UInt32, blockLpa g b.toNat = .ok lpa ↔
      rtfsFileResolveDataLpaByBlockIndex f.nodes f.ino b = .ok lpa := by
    intro b lpa
    rw [blockLpa_iff,hg.only.nodes,hg.only.ino]
  have hkept : ∀ b : UInt32, b.toNat < sizeToBlock targetSize →
      rtfsFileResolveDataLpaByBlockIndex g'.nodes g'.ino b = rtfsFileResolveDataLpaByBlockIndex f.nodes f.ino b := by
    intro b hb
    have hsame := hc.kept b.toNat (.inl hb)
    have hword := b.toNat_lt
    rw [hg.only.blockLpa,blockLpa_below (by omega),blockLpa_below (by omega),UInt32.ofNat_toNat] at hsame
    exact mapError_inj hsame
  have hcut : ∀ b lpa : UInt32, sizeToBlock targetSize ≤ b.toNat →
      rtfsFileResolveDataLpaByBlockIndex g'.nodes g'.ino b = .ok lpa → lpa = invalidLpa := by
    intro b lpa hb hres
    rw [← blockLpa_iff] at hres
    by_cases hin : b.toNat < sizeToBlock f.iSize
    · exact Except.ok.inj (hres.symm.trans (hc.cleared b.toNat hb (by omega)))
    · rw [hc.kept b.toNat (by omega),hresolve] at hres
      exact h.holes b lpa hres (by omega)
  refine ⟨⟨hc.tree,rfl,ht,fun b => ?_,fun b lpa hres hb => hcut b lpa hb hres,fun b lpa hres hz => ?_,fun b hd => ?_⟩,
    ⟨hc.only.1.trans hg.only.ino,hkept,hcut,?_⟩⟩
  · simp only
    rw [invalidated_at _ ht,hc.only.2.2]
    by_cases hb : b.toNat < sizeToBlock targetSize
    · rw [if_pos hb,hkept b hb]
      exact hg.pages b hb
    · rw [if_neg hb]
      refine ⟨fun hr => (by cases hr),fun hr => (by cases hr),fun hd => (by cases hd),fun _ lpa hres => ?_⟩
      rw [hcut b lpa (by omega) hres]
      have hpast : targetSize.toNat ≤ 4096 * b.toNat := by
        rw [sizeToBlock_small ht] at hb
        omega
      exact zero_past hpast
  · by_cases hb : b.toNat < sizeToBlock targetSize
    · simp only at hres
      rw [hkept b hb] at hres
      exact h.held b lpa hres hz
    · exact absurd (hcut b lpa (by omega) hres) hz
  · simp only at hd
    rw [invalidated_at _ ht] at hd
    by_contra hb
    rw [if_neg hb] at hd
    cases hd
  · simp only
    rw [hc.pending,hg.only.pending,blockLpas_congr (fun b _ => hg.only.blockLpa b)]

theorem FilePagesOk.truncate (fails : UInt32 → Option Errno) (realloc : Nat → Bool) (h : FilePagesOk dev f F)
    (ht : targetSize.toNat ≤ maxFileBytes)
    (he : rtfsFileInodeTruncate (fileEnv dev fails realloc) f targetSize = (.ok (),f')) :
    FilePagesOk dev f' (F.resize targetSize.toNat) ∧ Resized f f' targetSize := by
  have hsize : f.iSize.toNat ≤ maxFileBytes := h.size ▸ h.bound
  have hgrown (hle : f.iSize ≤ targetSize) (b : Bool) :
      FilePagesOk dev { f with iSize := targetSize, isDirty := b } (F.resize targetSize.toNat) ∧
        Resized f { f with iSize := targetSize, isDirty := b } targetSize := by
    have hpages := h.grown hle ht
    have hmore : sizeToBlock f.iSize ≤ sizeToBlock targetSize := by
      have := UInt64.le_iff_toNat_le.mp hle
      rw [sizeToBlock_small ht,sizeToBlock_small hsize]
      omega
    refine ⟨⟨hpages.tree,hpages.size,hpages.bound,hpages.pages,hpages.holes,hpages.held,hpages.dirtyIn⟩,
      rfl,fun b _ => rfl,fun b lpa hb hres => hpages.holes b lpa hres hb,?_⟩
    rw [show sizeToBlock f.iSize - sizeToBlock targetSize = 0 by omega]
    exact (List.append_nil _).symm
  unfold rtfsFileInodeTruncate at he
  split at he
  · rename_i hsame
    cases he
    have hg := hgrown (hsame ▸ UInt64.le_refl _) f.isDirty
    rw [hsame] at hg
    exact hsame ▸ hg
  · rename_i hne
    split at he
    · rename_i hlt
      cases he
      exact hgrown (UInt64.le_of_lt hlt) true
    · rename_i hnlt
      have hlt : targetSize < f.iSize := UInt64.lt_of_le_of_ne (UInt64.not_lt.mp hnlt) hne
      have hshort : ∀ g, (if PartialPage f.iSize targetSize then
          Rtfs.zeroLastPage (fileEnv dev fails realloc) f targetSize (sizeToBlock targetSize) else (.ok (),f)) =
          (.ok (),g) → Shortened dev f g F targetSize := by
        intro g hg
        split at hg
        · rename_i hp
          exact h.zeroLastPage fails realloc ht hp hg
        · rename_i hp
          cases hg
          refine ⟨.refl,fun b hb => h.shrunk b ?_⟩
          have hle := UInt64.lt_iff_toNat_lt.mp hlt
          unfold PartialPage at hp
          rw [sizeToBlock_small ht,sizeToBlock_small hsize] at hp
          rw [sizeToBlock_small ht] at hb
          omega
      simp only at he
      rcases hz : (if PartialPage f.iSize targetSize then
          Rtfs.zeroLastPage (fileEnv dev fails realloc) f targetSize (sizeToBlock targetSize) else (.ok (),f))
        with ⟨r,g⟩
      rw [hz] at he
      cases r with
      | error e => cases he
      | ok u =>
        have hg := hshort g hz
        have htree : IndexTree g.nodes g.ino := by
          rw [hg.only.nodes,hg.only.ino]
          exact h.tree
        simp only at he
        rcases hc : clearBlocks (fileEnv dev fails realloc) (sizeToBlock f.iSize - sizeToBlock targetSize)
          (sizeToBlock targetSize) g with ⟨r,g'⟩
        rw [hc] at he
        cases r with
        | error e => cases he
        | ok u =>
          have hcleared := clearBlocks_ok htree (sizeToBlock f.iSize - sizeToBlock targetSize) (congrArg Prod.fst hc)
          rw [hc] at hcleared
          cases he
          exact hg.cut h ht hlt hcleared

end Truncate

end Rtfs
