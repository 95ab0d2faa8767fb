import Rtfs.Fs.DirRead
import Rtfs.Lib.CursorScan

namespace Rtfs

namespace DirEntries

section Unlink

def rtfsDirInodeApplyPendingRegularBlockRelocations (s : NodeStore) (ino : UInt32)
    (loadedBlocks : List RtfsLoadedDirBlock) : Except Errno NodeStore :=
  let pending := loadedBlocks.filter (fun b => b.hasPendingCowRelocation && decide (b.cowNewLpa ≠ invalidLpa))
  (pending.forM (fun b => rtfsDirInodeCanRelocateOneRegularBlock s ino b.blockIndex)).bind (fun _ =>
    pending.foldlM (fun s b => rtfsDirInodeRelocateOneRegularBlock s ino b.blockIndex b.cowNewLpa) s)

def writtenBlocks (read : UInt32 → Option RtfsDentryBlock) (loadedBlocks : List RtfsLoadedDirBlock) :
    UInt32 → Option RtfsDentryBlock :=
  loadedBlocks.foldl (fun read b => if b.isDirty then Function.update read b.cowNewLpa (some b.block) else read) read

def rtfsDirInodeCommitCowWritebackWithTxId (img : DirImage) (lpas : List UInt32) (d : RtfsDirInode) :
    Except Errno DirImage :=
  match rtfsDirInodeWritebackContentCow lpas d with
  | (.error e,_) => .error e
  | (.ok (),d) => (rtfsDirInodeApplyPendingRegularBlockRelocations img.store img.ino d.loadedBlocks).map
      (fun store => { img with
        store := store, read := writtenBlocks img.read d.loadedBlocks, iDentryNum := d.iDentryNum
        inlineDentry := d.inlineDentry.getD img.inlineDentry })

def rtfsUnlinkFromParentAndCommit (img : DirImage) (name : List UInt8) (lpas : List UInt32) : Except Errno DirImage :=
  (rtfsDirInodeResolve img).bind (fun d =>
    match rtfsDirInodeRemoveEntry d name with
    | (.error e,_) => .error e
    | (.ok (),d) => rtfsDirInodeCommitCowWritebackWithTxId img lpas d)

end Unlink

structure ScannableDir (img : DirImage) : Prop where
  ino : img.ino ≠ invalidNid
  tree : IndexTree img.store img.ino
  loads : ∃ d, loadedTo img (blockCount img) = .ok d
  inlineClean : img.isInline = true → CleanArea false img.inlineDentry
  blockClean : img.isInline = false → ∀ i < sizeToBlock img.iSize, ∀ b, blockArea img i = some b → CleanArea true b

def Unused (img : DirImage) (lpas : List UInt32) : Prop :=
  ∀ lpa ∈ lpas, ∀ i < sizeToBlock img.iSize,
    rtfsDirResolveDataLpaByBlockIndex img.store img.ino (UInt32.ofNat i) ≠ .ok lpa

section Remove
variable {img : DirImage} {d d' : RtfsDirInode} {name : List UInt8}

structure Removed (d d' : RtfsDirInode) (x : RtfsMemDirEntry) : Prop where
  inline : d'.inlineDentry = if x.sourceIsInline then
    d.inlineDentry.map (fun a => a.clearRun x.sourceSlotIndex x.slots) else d.inlineDentry
  blocks : d'.loadedBlocks = (if x.sourceIsInline then d else rtfsDirInodeClearRegularEntryBacking d x).loadedBlocks

theorem removeEntry_removed (h : rtfsDirInodeRemoveEntry d name = (.ok (),d')) :
    ∃ x ∈ d.entries, x.name = name ∧ Removed d d' x := by
  unfold rtfsDirInodeRemoveEntry rtfsDirInodeRemoveEntryInternal at h
  split at h
  · cases h
  · cases hf : d.entries.findIdx? (fun e => decide (e.name = name)) with
    | none =>
      rw [hf] at h
      cases h
    | some i =>
      rw [hf] at h
      cases hx : d.entries[i]? with
      | none =>
        simp only [hx] at h
        cases h
      | some x =>
        simp only [hx] at h
        have hname : x.name = name := by
          obtain ⟨hlt,hp,-⟩ := List.findIdx?_eq_some_iff_getElem.mp hf
          obtain ⟨hlt',hget⟩ := List.getElem?_eq_some_iff.mp hx
          rw [hget] at hp
          exact of_decide_eq_true hp
        refine ⟨x,List.mem_of_getElem? hx,hname,?_⟩
        cases h
        cases hs : x.sourceIsInline with
        | true => exact ⟨by rw [if_pos hs]; rfl,by rw [if_pos hs]; rfl⟩
        | false =>
          refine ⟨?_,by rw [hs]; rfl⟩
          rw [hs]
          unfold rtfsDirInodeClearRegularEntryBacking
          simp only [Bool.false_eq_true,if_false]
          split <;> rfl

theorem unlink_inline (h : ScannableDir img) (hi : img.isInline = true) (hb : BuiltInline img d)
    (hr : rtfsDirInodeRemoveEntry d name = (.ok (),d')) : name ∈ dirNames img ∧ ∃ area, d'.inlineDentry = some area ∧
      d'.loadedBlocks = [] ∧ AreaOk false area ∧ CleanArea false area ∧
      areaNames false area = (dirNames img).filter (fun n => decide (n ≠ name)) := by
  obtain ⟨x,hx,hname,hrem⟩ := removeEntry_removed hr
  obtain ⟨d₁,hp,he⟩ := hb.parsed
  obtain ⟨es,hes,-,hfrom⟩ := hp.entries
  have hstart : (inlineStart img).entries = [] := rfl
  rw [hstart,List.nil_append] at hes
  rw [he,hes] at hx
  obtain ⟨s,hs,ht,hxn,hinl,-,hslot⟩ := hfrom x hx
  have hclean := h.inlineClean hi
  have hnames : dirNames img = areaNames false img.inlineDentry := by rw [dirNames,if_pos hi]
  have hnodup : (areaNames false img.inlineDentry).Nodup := hnames ▸ ((readable_iff img).mpr h.loads).nodup
  have hslots := entry_slots hclean hs hxn
  have hin : name ∈ dirNames img := by
    rw [hnames,← hname,hxn]
    exact List.mem_map.mpr ⟨s,List.mem_filter.mpr ⟨hs,ht⟩,rfl⟩
  refine ⟨hin,img.inlineDentry.clearRun s (img.inlineDentry.slotsAt s),?_,?_,clearRun_ok hp.ok hs,
    clearRun_clean hp.ok hclean hnodup hs ht,?_⟩
  · rw [hrem.inline,if_pos hinl,hb.inline,hslot,hslots]
    rfl
  · rw [hrem.blocks,if_pos hinl,hb.blocks]
  · rw [clearRun_names hp.ok hnodup hs ht,← hxn,hname,hnames]

end Remove

section Regular
variable {img : DirImage} {d d' : RtfsDirInode} {name : List UInt8}

structure FirstBlock (img : DirImage) (d : RtfsDirInode) (b : RtfsDentryBlock) (lpa : UInt32) : Prop where
  lt : 0 < sizeToBlock img.iSize
  area : blockArea img 0 = some b
  addr : rtfsDirResolveDataLpaByBlockIndex img.store img.ino 0 = .ok lpa
  mapped : lpa ≠ invalidLpa
  blocks : d.loadedBlocks = [⟨0,lpa,invalidLpa,false,b,false⟩]
  noInline : d.inlineDentry = none
  parsed : ∃ d₁ d₂, d₁.entries = [] ∧ Parsed true b false 0 (slotStarts b) d₁ d₂ ∧ d.entries = d₂.entries

theorem loaded_first {d₀ : RtfsDirInode} (hlt : 0 < sizeToBlock img.iSize) (he : d₀.entries = [])
    (hb : d₀.loadedBlocks = []) (hn : d₀.inlineDentry = none) (h : loadBlock img d₀ 0 = .ok d) :
    d.entries = [] ∨ ∃ b lpa, FirstBlock img d b lpa := by
  unfold loadBlock at h
  cases hres : rtfsDirResolveDataLpaByBlockIndex img.store img.ino (UInt32.ofNat 0) with
  | error e =>
    rw [hres] at h
    cases h
  | ok lpa =>
    rw [hres] at h
    simp only at h
    by_cases hz : lpa = invalidLpa
    · rw [if_pos hz] at h
      cases h
      exact .inl he
    · rw [if_neg hz] at h
      cases hread : img.read lpa with
      | none =>
        rw [hread] at h
        cases h
      | some b =>
        rw [hread] at h
        obtain ⟨d₂,happ,rfl⟩ := Except.map_ok h
        obtain ⟨d₁,hrem,hp⟩ := appendRegular_parsed happ
        have hnone : findLoadedIndex (withKind d₀) (UInt32.ofNat 0) = none := by
          unfold findLoadedIndex
          rw [(withKind_same d₀).2,hb]
          rfl
        unfold rtfsDirInodeRememberLoadedBlock at hrem
        rw [hnone,if_neg (by decide),if_neg (by decide)] at hrem
        cases hrem
        have harea : blockArea img 0 = some b := by
          unfold blockArea
          rw [hres]
          simp only
          rw [if_neg hz,hread]
        refine .inr ⟨b,lpa,hlt,harea,hres,hz,?_,?_,_,d₂,?_,hp,rfl⟩
        · refine hp.blocks.trans ?_
          change (withKind d₀).loadedBlocks ++ _ = _
          rw [(withKind_same d₀).2,hb]
          rfl
        · refine hp.inline.trans ?_
          unfold withKind
          split <;> exact hn
        · exact (withKind_same d₀).1.trans he

theorem resolve_first (hi : img.isInline = false) (h : rtfsDirInodeResolve img = .ok d) :
    d.entries = [] ∨ ∃ b lpa, FirstBlock img d b lpa := by
  unfold rtfsDirInodeResolve at h
  have hb := build_regular hi
  rw [hb] at h
  have hat := build_loadedAt hi hb
  by_cases hlt : 0 < sizeToBlock img.iSize
  · change rtfsDirInodeResolveOnDemand img _ = .ok d at h
    rw [hat.resolveNext hlt] at h
    exact loaded_first hlt rfl rfl rfl h
  · change rtfsDirInodeResolveOnDemand img _ = .ok d at h
    unfold rtfsDirInodeResolveOnDemand at h
    rw [hat.full,if_pos (decide_eq_true (Nat.le_of_not_lt hlt))] at h
    cases h
    exact .inl rfl

theorem FirstBlock.remove {b : RtfsDentryBlock} {lpa : UInt32} (h : FirstBlock img d b lpa)
    (hc : CleanArea true b) (hnodup : (areaNames true b).Nodup)
    (hr : rtfsDirInodeRemoveEntry d name = (.ok (),d')) : name ∈ areaNames true b ∧ ∃ b' : RtfsDentryBlock,
      d'.loadedBlocks = [⟨0,lpa,invalidLpa,false,b',true⟩] ∧ d'.inlineDentry = none ∧ AreaOk true b' ∧
      CleanArea true b' ∧ areaNames true b' = (areaNames true b).filter (fun n => decide (n ≠ name)) := by
  obtain ⟨x,hx,hname,hrem⟩ := removeEntry_removed hr
  obtain ⟨d₁,d₂,hnil,hp,he⟩ := h.parsed
  obtain ⟨es,hes,-,hfrom⟩ := hp.entries
  rw [hnil,List.nil_append] at hes
  rw [he,hes] at hx
  obtain ⟨s,hs,ht,hxn,hinl,hblock,hslot⟩ := hfrom x hx
  have hslots := entry_slots hc hs hxn
  have hin : name ∈ areaNames true b := by
    rw [← hname,hxn]
    exact List.mem_map.mpr ⟨s,List.mem_filter.mpr ⟨hs,ht⟩,rfl⟩
  have hnot : ¬ x.sourceIsInline = true := by
    rw [hinl]
    decide
  refine ⟨hin,b.clearRun s (b.slotsAt s),?_,?_,clearRun_ok hp.ok hs,clearRun_clean hp.ok hc hnodup hs ht,?_⟩
  · rw [hrem.blocks,if_neg hnot]
    have hfound : findLoadedIndex d x.sourceBlockIndex = some 0 := by
      unfold findLoadedIndex
      rw [h.blocks,hblock]
      rfl
    unfold rtfsDirInodeClearRegularEntryBacking
    rw [hfound,hslot,hslots]
    simp only [h.blocks]
    rfl
  · rw [hrem.inline,if_neg hnot]
    exact h.noInline
  · rw [clearRun_names hp.ok hnodup hs ht,← hxn,hname]

theorem ScannableDir.le (h : ScannableDir img) (hi : img.isInline = false) :
    sizeToBlock img.iSize ≤ fileBlockBound := by
  by_contra hlt
  obtain ⟨lpa,hlpa,-⟩ := (((readable_iff img).mpr h.loads).blocks hi fileBlockBound (Nat.not_le.mp hlt)).found
  rw [dirResolve_slotAddr h.tree h.ino,slotAddr,beyond_bound (by decide)] at hlpa
  cases hlpa

structure Moved (img img' : DirImage) (b' : RtfsDentryBlock) : Prop where
  ino : img'.ino = img.ino
  iSize : img'.iSize = img.iSize
  isInline : img'.isInline = img.isInline
  tree : IndexTree img'.store img'.ino
  first : ∃ newLpa, newLpa ≠ invalidLpa ∧
    rtfsDirResolveDataLpaByBlockIndex img'.store img'.ino 0 = .ok newLpa ∧ img'.read newLpa = some b'
  addrs : ∀ i, 0 < i → i < sizeToBlock img.iSize →
    rtfsDirResolveDataLpaByBlockIndex img'.store img'.ino (UInt32.ofNat i) =
      rtfsDirResolveDataLpaByBlockIndex img.store img.ino (UInt32.ofNat i)
  reads : ∀ i lpa, i < sizeToBlock img.iSize →
    rtfsDirResolveDataLpaByBlockIndex img.store img.ino (UInt32.ofNat i) = .ok lpa → img'.read lpa = img.read lpa

theorem commit_moved {b b' : RtfsDentryBlock} {lpa : UInt32} {lpas : List UInt32} {img' : DirImage}
    (h : ScannableDir img) (hi : img.isInline = false) (hf : FirstBlock img d b lpa) (hu : Unused img lpas)
    (hb : d'.loadedBlocks = [⟨0,lpa,invalidLpa,false,b',true⟩])
    (hr : rtfsDirInodeCommitCowWritebackWithTxId img lpas d' = .ok img') : Moved img img' b' := by
  unfold rtfsDirInodeCommitCowWritebackWithTxId rtfsDirInodeWritebackContentCow at hr
  rw [hb] at hr
  cases lpas with
  | nil => cases hr
  | cons newLpa lpas =>
    simp only [rtfsDirInodeWriteDirtyRegularBlocksCow,Bool.true_eq_false,if_false] at hr
    by_cases hz : newLpa = invalidLpa
    · simp only [if_pos hz] at hr
      cases hr
    · simp only [if_neg hz] at hr
      obtain ⟨store,happly,rfl⟩ := Except.map_ok hr
      have haddr := hf.addr
      rw [dirResolve_slotAddr h.tree h.ino] at haddr
      obtain ⟨hcan,s',hs,ht',hnew,hothers⟩ := relocate_spec h.tree newLpa haddr hf.mapped
      unfold rtfsDirInodeApplyPendingRegularBlockRelocations at happly
      have hpending : [(⟨0,lpa,newLpa,true,b',true⟩ : RtfsLoadedDirBlock)].filter
          (fun b => b.hasPendingCowRelocation && decide (b.cowNewLpa ≠ invalidLpa)) = [⟨0,lpa,newLpa,true,b',true⟩] :=
        List.filter_cons_of_pos (by simpa using hz)
      have hcheck : [(⟨0,lpa,newLpa,true,b',true⟩ : RtfsLoadedDirBlock)].forM
          (fun b => rtfsDirInodeCanRelocateOneRegularBlock img.store img.ino b.blockIndex) = .ok () := by
        change (rtfsDirInodeCanRelocateOneRegularBlock img.store img.ino 0).bind _ = _
        rw [hcan]
        rfl
      have hmove : [(⟨0,lpa,newLpa,true,b',true⟩ : RtfsLoadedDirBlock)].foldlM
          (fun s b => rtfsDirInodeRelocateOneRegularBlock s img.ino b.blockIndex b.cowNewLpa) img.store = .ok s' := by
        change (rtfsDirInodeRelocateOneRegularBlock img.store img.ino 0 newLpa).bind _ = _
        rw [hs]
        rfl
      simp only [hpending,hcheck] at happly
      cases hmove.symm.trans happly
      refine ⟨rfl,rfl,rfl,ht',⟨newLpa,hz,?_,?_⟩,fun i hpos hlt => ?_,fun i v hlt hv => ?_⟩
      · exact (dirResolve_slotAddr ht' h.ino 0).trans hnew
      · exact Function.update_self _ _ _
      · have hle := h.le hi
        have hbound : fileBlockBound < 4294967296 := by decide
        refine (dirResolve_slotAddr ht' h.ino _).trans ?_
        rw [dirResolve_slotAddr h.tree h.ino]
        refine hothers _ ?_
        rw [UInt32.toNat_ofNat',Nat.mod_eq_of_lt (by omega)]
        exact Nat.ne_of_gt hpos
      · have hne : v ≠ newLpa := by
          rintro rfl
          exact hu v List.mem_cons_self i hlt hv
        exact Function.update_of_ne hne _ _

variable {img' : DirImage} {b' : RtfsDentryBlock}

theorem Moved.first_area (h : Moved img img' b') : blockArea img' 0 = some b' := by
  obtain ⟨newLpa,hz,hres,hread⟩ := h.first
  unfold blockArea
  rw [show UInt32.ofNat 0 = 0 from rfl,hres]
  simp only
  rw [if_neg hz,hread]

theorem Moved.area (h : Moved img img' b') {i : Nat} (hpos : 0 < i) (hlt : i < sizeToBlock img.iSize) :
    blockArea img' i = blockArea img i := by
  unfold blockArea
  rw [h.addrs i hpos hlt]
  cases hres : rtfsDirResolveDataLpaByBlockIndex img.store img.ino (UInt32.ofNat i) with
  | error e => rfl
  | ok lpa =>
    simp only
    rw [h.reads i lpa hlt hres]

theorem Moved.ok (h : Moved img img' b') (hb : AreaOk true b') {i : Nat} (hlt : i < sizeToBlock img.iSize)
    (hok : BlockOk img i) : BlockOk img' i := by
  by_cases hz : i = 0
  · subst hz
    obtain ⟨newLpa,hne,hres,hread⟩ := h.first
    refine ⟨⟨newLpa,hres,fun _ => by rw [hread]; rfl⟩,fun a ha => ?_⟩
    rw [h.first_area] at ha
    cases ha
    exact hb
  · have hpos := Nat.pos_of_ne_zero hz
    obtain ⟨lpa,hres,hread⟩ := hok.found
    refine ⟨⟨lpa,(h.addrs i hpos hlt).trans hres,fun hne => ?_⟩,fun a ha => ?_⟩
    · rw [h.reads i lpa hlt hres]
      exact hread hne
    · rw [h.area hpos hlt] at ha
      exact hok.area a ha

theorem names_cons (hi : img.isInline = false) (hlt : 0 < sizeToBlock img.iSize) : dirNames img =
    blockNames img 0 ++ (List.range' 1 (sizeToBlock img.iSize - 1)).flatMap (blockNames img) := by
  rw [dirNames,hi]
  change (List.range _).flatMap _ = _
  rw [List.range_eq_range',show sizeToBlock img.iSize = sizeToBlock img.iSize - 1 + 1 by omega,List.range'_succ,
    List.flatMap_cons]
  rfl

theorem Moved.names (h : Moved img img' b') (hi : img.isInline = false) (hlt : 0 < sizeToBlock img.iSize)
    {b : RtfsDentryBlock} (ha : blockArea img 0 = some b) (hin : name ∈ areaNames true b)
    (hnodup : (dirNames img).Nodup)
    (hb : areaNames true b' = (areaNames true b).filter (fun n => decide (n ≠ name))) :
    dirNames img' = (dirNames img).filter (fun n => decide (n ≠ name)) := by
  have hi' : img'.isInline = false := h.isInline.trans hi
  have hlt' : 0 < sizeToBlock img'.iSize := by rwa [h.iSize]
  have hrest : (List.range' 1 (sizeToBlock img'.iSize - 1)).flatMap (blockNames img') =
      (List.range' 1 (sizeToBlock img.iSize - 1)).flatMap (blockNames img) := by
    rw [h.iSize]
    refine List.flatMap_congr (fun i hi => ?_)
    obtain ⟨hlo,hhi⟩ := List.mem_range'_1.mp hi
    unfold blockNames
    rw [h.area hlo (by omega)]
  have hfirst : blockNames img 0 = areaNames true b := by
    unfold blockNames
    rw [ha]
    rfl
  have hfirst' : blockNames img' 0 = areaNames true b' := by
    unfold blockNames
    rw [h.first_area]
    rfl
  rw [names_cons hi hlt,hfirst] at hnodup ⊢
  rw [names_cons hi' hlt',hfirst',hrest,hb,List.filter_append]
  congr 1
  refine (List.filter_eq_self.mpr (fun n hn => decide_eq_true ?_)).symm
  rintro rfl
  exact (List.nodup_append.mp hnodup).2.2 n hin n hn rfl

end Regular

section Step
variable {img img' : DirImage} {name : List UInt8} {lpas : List UInt32}

theorem unlink_spec (h : ScannableDir img) (hu : Unused img lpas)
    (hr : rtfsUnlinkFromParentAndCommit img name lpas = .ok img') :
    name ∈ dirNames img ∧ ScannableDir img' ∧ dirNames img' = (dirNames img).filter (fun n => decide (n ≠ name)) := by
  have hread := (readable_iff img).mpr h.loads
  unfold rtfsUnlinkFromParentAndCommit at hr
  obtain ⟨d,hd,hr⟩ := Except.bind_ok hr
  rcases hrem : rtfsDirInodeRemoveEntry d name with ⟨r,d'⟩
  rw [hrem] at hr
  cases r with
  | error e => cases hr
  | ok u =>
    simp only at hr
    cases hi : img.isInline with
    | true =>
      have hloaded := resolve_loaded hd
      cases hloaded with
      | regular k hk => exact absurd (hk.regular.symm.trans hi) (by decide)
      | inline _ hb =>
        obtain ⟨hin,area,harea,hblocks,hok,hclean,hnames⟩ := unlink_inline h hi hb hrem
        unfold rtfsDirInodeCommitCowWritebackWithTxId rtfsDirInodeWritebackContentCow at hr
        rw [hblocks] at hr
        simp only [rtfsDirInodeWriteDirtyRegularBlocksCow] at hr
        cases hr
        have hnames' : dirNames { img with
            store := img.store, read := img.read, iDentryNum := d'.iDentryNum
            inlineDentry := d'.inlineDentry.getD img.inlineDentry } = areaNames false area := by
          unfold dirNames
          simp only [if_pos hi,harea,Option.getD_some]
        refine ⟨hin,⟨h.ino,h.tree,(readable_iff _).mp ⟨fun _ => ?_,fun hf => ?_,?_⟩,fun _ => ?_,fun hf => ?_⟩,?_⟩
        · simpa only [harea,Option.getD_some] using hok
        · exact absurd (hi.symm.trans hf) (by decide)
        · exact hnames' ▸ hnames ▸ hread.nodup.filter _
        · simpa only [harea,Option.getD_some] using hclean
        · exact absurd (hi.symm.trans hf) (by decide)
        · exact hnames'.trans hnames
    | false =>
      rcases resolve_first hi hd with hnil | ⟨b,lpa,hf⟩
      · obtain ⟨x,hx,-⟩ := removeEntry_removed hrem
        rw [hnil] at hx
        cases hx
      · have hclean := h.blockClean hi 0 hf.lt b hf.area
        have hfirst : blockNames img 0 = areaNames true b := by
          unfold blockNames
          rw [hf.area]
          rfl
        have hcons := names_cons hi hf.lt
        rw [hfirst] at hcons
        have hnodup : (areaNames true b).Nodup := (List.nodup_append.mp (hcons ▸ hread.nodup)).1
        obtain ⟨hin,b',hblocks,-,hok,hclean',hnames⟩ := hf.remove hclean hnodup hrem
        have hmoved := commit_moved h hi hf hu hblocks hr
        have hnames' := hmoved.names hi hf.lt hf.area hin hread.nodup hnames
        have hi' := hmoved.isInline.trans hi
        refine ⟨hcons ▸ List.mem_append_left _ hin,⟨?_,hmoved.tree,(readable_iff _).mp ⟨fun ht => ?_,fun _ i hlt => ?_,?_⟩,
          fun ht => ?_,fun _ i hlt a ha => ?_⟩,hnames'⟩
        · rw [hmoved.ino]
          exact h.ino
        · exact absurd (hi'.symm.trans ht) (by decide)
        · rw [hmoved.iSize] at hlt
          exact hmoved.ok hok hlt (hread.blocks hi i hlt)
        · rw [hnames']
          exact hread.nodup.filter _
        · exact absurd (hi'.symm.trans ht) (by decide)
        · rw [hmoved.iSize] at hlt
          by_cases hz : i = 0
          · rw [hz,hmoved.first_area] at ha
            cases ha
            exact hclean'
          · rw [hmoved.area (Nat.pos_of_ne_zero hz) hlt] at ha
            exact h.blockClean hi i hlt a ha

end Step

structure ScanState where
  img : DirImage
  offset : Nat
  result : List Dirent

def listing (img : DirImage) : List (List UInt8) :=
  match loadedTo img (blockCount img) with
  | .error _ => []
  | .ok d => d.names

inductive ScanRun (layout : DirentLayout) (parentIno : UInt64) (img : DirImage) :
    List (ScanState × List UInt8) → ScanState → Prop
  | start : ScanRun layout parentIno img [] ⟨img,0,[]⟩
  | read {us : List (ScanState × List UInt8)} {s : ScanState} {fuel count offset : Nat} {read : List Dirent}
      (h : ScanRun layout parentIno img us s) (hcount : layout.size ≤ count)
      (hr : rtfsDirRead layout s.img parentIno fuel s.offset count = some (.ok (read,offset))) :
      ScanRun layout parentIno img us ⟨s.img,offset,s.result ++ read⟩
  | failed {us : List (ScanState × List UInt8)} {s : ScanState} {fuel count : Nat} {e : Errno}
      (h : ScanRun layout parentIno img us s) (hcount : layout.size ≤ count)
      (hr : rtfsDirRead layout s.img parentIno fuel s.offset count = some (.error e)) :
      ScanRun layout parentIno img us s
  | unlink {us : List (ScanState × List UInt8)} {s : ScanState} {name : List UInt8} {lpas : List UInt32}
      {img' : DirImage} (h : ScanRun layout parentIno img us s) (hin : name ∈ dNames s.result)
      (hu : Unused s.img lpas) (hr : rtfsUnlinkFromParentAndCommit s.img name lpas = .ok img') :
      ScanRun layout parentIno img (us ++ [(s,name)]) ⟨img',s.offset,s.result⟩

def ScanDone (layout : DirentLayout) (parentIno : UInt64) (s : ScanState) : Prop :=
  ∃ fuel count offset, layout.size ≤ count ∧
    rtfsDirRead layout s.img parentIno fuel s.offset count = some (.ok ([],offset))

def ScanComplete (img : DirImage) (us : List (ScanState × List UInt8)) (s : ScanState) : Prop :=
  (dNames s.result).count [46] = 1 ∧ (dNames s.result).count [46,46] = 1 ∧
    ∀ name ∈ listing img, name ∉ us.map Prod.snd → (dNames s.result).count name = 1

def AllRead (layout : DirentLayout) (s : ScanState) : Prop :=
  (2 + (listing s.img).length) * layout.size ≤ s.offset

section Scan
variable {layout : DirentLayout} {parentIno : UInt64} {img : DirImage} {us : List (ScanState × List UInt8)}
  {s : ScanState}

theorem listing_eq (h : ScannableDir img) : listing img = dirNames img := by
  obtain ⟨d,hd⟩ := h.loads
  unfold listing
  rw [hd]
  exact loadedTo_names hd

theorem ScannableDir.noDots (h : ScannableDir img) : [46] ∉ dirNames img ∧ [46,46] ∉ dirNames img := by
  cases hi : img.isInline with
  | true =>
    rw [dirNames,if_pos hi]
    exact (h.inlineClean hi).noDots
  | false =>
    have hblock {name : List UInt8} (hin : name ∈ dirNames img) :
        ∃ b : RtfsDentryBlock, name ∈ areaNames true b ∧ CleanArea true b := by
      rw [dirNames,hi] at hin
      obtain ⟨i,hi',hname⟩ := List.mem_flatMap.mp hin
      unfold blockNames at hname
      cases ha : blockArea img i with
      | none =>
        rw [ha] at hname
        cases hname
      | some b =>
        rw [ha] at hname
        exact ⟨b,hname,h.blockClean hi i (List.mem_range.mp hi') b ha⟩
    refine ⟨fun hin => ?_,fun hin => ?_⟩
    · obtain ⟨b,hname,hc⟩ := hblock hin
      exact hc.noDots.1 hname
    · obtain ⟨b,hname,hc⟩ := hblock hin
      exact hc.noDots.2 hname

theorem dirItems_nodup (h : ScannableDir img) : (dirItems img).Nodup := by
  obtain ⟨h1,h2⟩ := h.noDots
  have hnodup := ((readable_iff img).mpr h.loads).nodup
  unfold dirItems
  rw [List.nodup_cons,List.nodup_cons,List.mem_cons,not_or]
  exact ⟨⟨by decide,h1⟩,h2,hnodup⟩

structure Follows (layout : DirentLayout) (img : DirImage) (us : List (ScanState × List UInt8)) (s : ScanState)
    (aus : List (CursorScan.State (List UInt8) × List UInt8)) (a : CursorScan.State (List UInt8)) : Prop where
  run : CursorScan.Run (dirItems img) aus a
  dir : ScannableDir s.img
  items : a.items = dirItems s.img
  offset : s.offset = a.pos * layout.size
  out : a.out = dNames s.result
  unlinks : List.Forall₂ (fun u v => u.2 = v.2 ∧ (u.1.AtEnd ↔ AllRead layout v.1)) aus us
  named : ∀ u ∈ us, u.2 ≠ [46] ∧ u.2 ≠ [46,46]

theorem atEnd_iff {a : CursorScan.State (List UInt8)} (hdir : ScannableDir s.img) (hitems : a.items = dirItems s.img)
    (hoffset : s.offset = a.pos * layout.size) : a.AtEnd ↔ AllRead layout s := by
  unfold CursorScan.State.AtEnd AllRead
  rw [hitems,hoffset,listing_eq hdir,Nat.mul_le_mul_right_iff layout.pos]
  simp only [dirItems,List.length_cons]
  omega

theorem run_follows (h : ScannableDir img) (hrun : ScanRun layout parentIno img us s) :
    ∃ aus a, Follows layout img us s aus a := by
  induction hrun with
  | start => exact ⟨[],_,.start,h,rfl,(Nat.zero_mul _).symm,rfl,.nil,nofun⟩
  | @read us s fuel count offset read _ hcount hr ih =>
    obtain ⟨aus,a,hf⟩ := ih
    rw [hf.offset] at hr
    obtain ⟨hoff,hnames⟩ := dirRead_spec hr
    have hchunk : (a.items.drop a.pos).take (count / layout.size) = dNames read := by rw [hf.items,hnames]
    refine ⟨aus,a.read (count / layout.size),hf.run.read _,hf.dir,hf.items,?_,?_,hf.unlinks,hf.named⟩
    · change offset = (a.pos + ((a.items.drop a.pos).take (count / layout.size)).length) * layout.size
      rw [hchunk,hoff]
      unfold dNames
      rw [List.length_map]
    · change a.out ++ (a.items.drop a.pos).take (count / layout.size) = dNames (s.result ++ read)
      rw [hchunk,hf.out]
      exact (List.map_append ..).symm
  | failed _ _ _ ih => exact ih
  | @unlink us s name lpas img' _ hin hu hr ih =>
    obtain ⟨aus,a,hf⟩ := ih
    obtain ⟨hmem,hdir',hnames⟩ := unlink_spec hf.dir hu hr
    obtain ⟨hd1,hd2⟩ := hf.dir.noDots
    have hne1 : name ≠ [46] := fun he => hd1 (he ▸ hmem)
    have hne2 : name ≠ [46,46] := fun he => hd2 (he ▸ hmem)
    have hitem : name ∈ a.items := by
      rw [hf.items]
      exact List.mem_cons_of_mem _ (List.mem_cons_of_mem _ hmem)
    refine ⟨aus ++ [(a,name)],a.remove name,hf.run.remove (by rw [hf.out]; exact hin) hitem,hdir',?_,hf.offset,
      hf.out,List.rel_append hf.unlinks (.cons ⟨rfl,atEnd_iff hf.dir hf.items hf.offset⟩ .nil),fun u hu' => ?_⟩
    · change a.items.filter (fun n => decide (n ≠ name)) = dirItems img'
      rw [hf.items]
      unfold dirItems
      rw [hnames,List.filter_cons_of_pos (by simpa using hne1.symm),
        List.filter_cons_of_pos (by simpa using hne2.symm)]
    · rcases List.mem_append.mp hu' with hu' | hu'
      · exact hf.named u hu'
      · rw [List.mem_singleton] at hu'
        subst hu'
        exact ⟨hne1,hne2⟩

theorem done_atEnd {aus : List (CursorScan.State (List UInt8) × List UInt8)} {a : CursorScan.State (List UInt8)}
    (hf : Follows layout img us s aus a) (hd : ScanDone layout parentIno s) : a.AtEnd := by
  obtain ⟨fuel,count,offset,hcount,hr⟩ := hd
  rw [hf.offset] at hr
  have hnil := (dirRead_spec hr).2
  have hpos : 0 < count / layout.size := Nat.div_pos hcount layout.pos
  have hlen := congrArg List.length hnil
  rw [List.length_take,List.length_drop,← hf.items] at hlen
  change 0 = _ at hlen
  unfold CursorScan.State.AtEnd
  omega

theorem Follows.same {aus : List (CursorScan.State (List UInt8) × List UInt8)}
    (h : List.Forall₂ (fun u v => u.2 = v.2 ∧ (u.1.AtEnd ↔ AllRead layout v.1)) aus us) :
    aus.map Prod.snd = us.map Prod.snd ∧ ((∀ u ∈ aus, u.1.AtEnd) ↔ ∀ u ∈ us, AllRead layout u.1) := by
  induction h with
  | nil => exact ⟨rfl,fun _ => nofun,fun _ => nofun⟩
  | cons hu _ ih =>
    rw [List.map_cons,List.map_cons,hu.1,ih.1,List.forall_mem_cons,List.forall_mem_cons,hu.2,ih.2]
    exact ⟨rfl,Iff.rfl⟩

end Scan

theorem scan_complete_iff (layout : DirentLayout) (parentIno : UInt64) (img : DirImage)
    (us : List (ScanState × List UInt8)) (s : ScanState) (h : ScannableDir img)
    (hrun : ScanRun layout parentIno img us s) (hdone : ScanDone layout parentIno s) :
    ScanComplete img us s ↔ ∀ u ∈ us, AllRead layout u.1 := by
  obtain ⟨aus,a,hf⟩ := run_follows h hrun
  have hiff := hf.run.complete_iff (dirItems_nodup h) (done_atEnd hf hdone)
  obtain ⟨hnames,hlate⟩ := Follows.same hf.unlinks
  have honce := (hf.run.inv (dirItems_nodup h)).once
  have hnamed {name : List UInt8} (hin : name ∈ us.map Prod.snd) : name ≠ [46] ∧ name ≠ [46,46] := by
    obtain ⟨u,hu,rfl⟩ := List.mem_map.mp hin
    exact hf.named u hu
  rw [hf.out] at honce hiff
  rw [hnames,hlate] at hiff
  rw [← hiff]
  have hone {name : List UInt8} : (dNames s.result).count name = 1 ↔ name ∈ dNames s.result :=
    ⟨fun hc => List.count_pos_iff.mp (by omega),List.count_eq_one_of_mem honce⟩
  unfold ScanComplete
  rw [listing_eq h]
  simp only [hone]
  constructor
  · rintro ⟨h1,h2,hall⟩ name hin hkept
    rcases List.mem_cons.mp hin with rfl | hin
    · exact h1
    rcases List.mem_cons.mp hin with rfl | hin
    · exact h2
    · exact hall name hin hkept
  · intro hall
    refine ⟨hall _ List.mem_cons_self (fun hin => (hnamed hin).1 rfl),?_,fun name hin hkept => ?_⟩
    · exact hall _ (List.mem_cons_of_mem _ List.mem_cons_self) (fun hin => (hnamed hin).2 rfl)
    · exact hall name (List.mem_cons_of_mem _ (List.mem_cons_of_mem _ hin)) hkept

section Inline
variable {layout : DirentLayout} {img : DirImage} {parentIno : UInt64} {d : RtfsDirInode}

theorem BuiltInline.lengths (h : BuiltInline img d) : ∀ name ∈ d.names, ¬ BadLength name := by
  intro name hin
  obtain ⟨d₁,hp,-⟩ := h.parsed
  rw [h.names] at hin
  obtain ⟨i,hi,rfl⟩ := List.mem_map.mp hin
  obtain ⟨hi,ht⟩ := List.mem_filter.mp hi
  exact (hp.ok i hi).name ht

theorem readFrom_exists (layout : DirentLayout) (img : DirImage) (parentIno : UInt64)
    (hd : ∀ name ∈ d.names, ¬ BadLength name) (entryIndex n : Nat) :
    ∃ read, readFrom layout img parentIno d entryIndex n = .ok read := by
  induction n generalizing entryIndex with
  | zero => exact ⟨[],rfl⟩
  | succ n ih =>
    have hentry : rtfsDirGetEntryByIndex layout img parentIno d entryIndex = .error .enoent ∨
        ∃ e, rtfsDirGetEntryByIndex layout img parentIno d entryIndex = .ok e := by
      unfold rtfsDirGetEntryByIndex rtfsDirFillDirent
      match entryIndex with
      | 0 => exact .inr ⟨_,rfl⟩
      | 1 => exact .inr ⟨_,rfl⟩
      | entryIndex + 2 =>
        rw [if_neg (by omega),if_neg (by omega)]
        cases he : d.entries[entryIndex + 2 - 2]? with
        | none => exact .inl rfl
        | some e => exact .inr ⟨_,if_neg (hd e.name (List.mem_map_of_mem (List.mem_of_getElem? he)))⟩
    rw [readFrom]
    rcases hentry with he | ⟨e,he⟩
    · rw [he]
      exact ⟨[],rfl⟩
    · obtain ⟨rest,hrest⟩ := ih (entryIndex + 1)
      rw [he,hrest]
      exact ⟨_,rfl⟩

theorem inline_resolved (h : ScannableDir img) (hi : img.isInline = true) :
    ∃ d, rtfsDirInodeResolve img = .ok d ∧ BuiltInline img d := by
  have hread := (readable_iff img).mpr h.loads
  have hnodup := hread.nodup
  rw [dirNames,if_pos hi] at hnodup
  obtain ⟨d,hd⟩ := build_inline_exists hi (hread.inline hi) hnodup
  have hb := build_inline hi hd
  refine ⟨d,?_,hb⟩
  unfold rtfsDirInodeResolve
  rw [hd]
  exact if_pos hb.full

theorem dirRead_inline (layout : DirentLayout) (parentIno : UInt64) (h : ScannableDir img) (hi : img.isInline = true)
    (pos : Nat) {count : Nat} (hcount : layout.size ≤ count) : ∃ fuel read offset,
      rtfsDirRead layout img parentIno fuel (pos * layout.size) count = some (.ok (read,offset)) := by
  obtain ⟨d,hres,hb⟩ := inline_resolved h hi
  obtain ⟨read,hread⟩ := readFrom_exists layout img parentIno hb.lengths (pos * layout.size / layout.size)
    (count / layout.size)
  have hentries : rtfsDirInodeReadEntries layout img parentIno d (pos * layout.size) count =
      .ok (read,(pos * layout.size / layout.size + read.length) * layout.size) := by
    unfold rtfsDirInodeReadEntries
    simp only [hread]
    rfl
  refine ⟨1,read,(pos * layout.size / layout.size + read.length) * layout.size,?_⟩
  unfold rtfsDirRead
  rw [hres]
  simp only
  rw [readLoop,readIter,List.length_nil,Nat.zero_mul,Nat.sub_zero,if_neg (Nat.not_lt.mpr hcount),hentries]
  cases read with
  | nil => simp only [hb.full,if_true]
  | cons x read => simp only [hb.full,or_true,if_true,List.nil_append]

theorem removeEntry_exists {name : List UInt8} (hin : name ∈ d.names) (hlen : ¬ BadLength name) :
    ∃ d', rtfsDirInodeRemoveEntry d name = (.ok (),d') := by
  unfold rtfsDirInodeRemoveEntry rtfsDirInodeRemoveEntryInternal
  rw [if_neg hlen]
  obtain ⟨e,he,hname⟩ := List.mem_map.mp hin
  cases hf : d.entries.findIdx? (fun e => decide (e.name = name)) with
  | none =>
    have hno := List.findIdx?_eq_none_iff.mp hf e he
    simp [hname] at hno
  | some i =>
    obtain ⟨hlt,-,-⟩ := List.findIdx?_eq_some_iff_getElem.mp hf
    simp only [List.getElem?_eq_getElem hlt]
    exact ⟨_,rfl⟩

theorem unlink_isInline {name : List UInt8} {lpas : List UInt32} {img' : DirImage}
    (hr : rtfsUnlinkFromParentAndCommit img name lpas = .ok img') : img'.isInline = img.isInline := by
  unfold rtfsUnlinkFromParentAndCommit at hr
  obtain ⟨d,-,hr⟩ := Except.bind_ok hr
  rcases hrem : rtfsDirInodeRemoveEntry d name with ⟨r,d'⟩
  rw [hrem] at hr
  cases r with
  | error e => cases hr
  | ok u =>
    unfold rtfsDirInodeCommitCowWritebackWithTxId at hr
    rcases hw : rtfsDirInodeWritebackContentCow lpas d' with ⟨r,d''⟩
    simp only [hw] at hr
    cases r with
    | error e => cases hr
    | ok u =>
      obtain ⟨store,-,rfl⟩ := Except.map_ok hr
      rfl

theorem unlink_inline_exists (h : ScannableDir img) (hi : img.isInline = true) {name : List UInt8}
    (hin : name ∈ dirNames img) : ∃ img', rtfsUnlinkFromParentAndCommit img name [] = .ok img' := by
  obtain ⟨d,hres,hb⟩ := inline_resolved h hi
  rw [dirNames,if_pos hi,← hb.names] at hin
  obtain ⟨d',hrem⟩ := removeEntry_exists hin (hb.lengths name hin)
  obtain ⟨-,area,-,hblocks,-⟩ := unlink_inline h hi hb hrem
  have hcommit : rtfsUnlinkFromParentAndCommit img name [] =
      rtfsDirInodeCommitCowWritebackWithTxId img [] d' := by
    unfold rtfsUnlinkFromParentAndCommit
    rw [hres]
    simp only [Except.bind,hrem]
  rw [hcommit]
  unfold rtfsDirInodeCommitCowWritebackWithTxId rtfsDirInodeWritebackContentCow
  rw [hblocks]
  exact ⟨_,rfl⟩

variable {us : List (ScanState × List UInt8)} {s : ScanState}

theorem ScanRun.readInline (hrun : ScanRun layout parentIno img us s) (h : ScannableDir s.img)
    (hi : s.img.isInline = true) {pos count : Nat} (hoff : s.offset = pos * layout.size)
    (hcount : layout.size ≤ count) : ∃ s', ScanRun layout parentIno img us s' ∧ s'.img = s.img ∧
      dNames s'.result = dNames s.result ++ ((dirItems s.img).drop pos).take (count / layout.size) ∧
      s'.offset = (pos + (((dirItems s.img).drop pos).take (count / layout.size)).length) * layout.size := by
  obtain ⟨fuel,read,offset,hr⟩ := dirRead_inline layout parentIno h hi pos hcount
  obtain ⟨hoffset,hnames⟩ := dirRead_spec hr
  rw [← hoff] at hr
  refine ⟨_,hrun.read hcount hr,rfl,?_,?_⟩
  · rw [← hnames]
    exact List.map_append
  · rw [← hnames,hoffset]
    unfold dNames
    rw [List.length_map]

theorem scanDone_inline (layout : DirentLayout) (parentIno : UInt64) (h : ScannableDir s.img)
    (hi : s.img.isInline = true) {pos : Nat} (hoff : s.offset = pos * layout.size)
    (hend : (dirItems s.img).length ≤ pos) : ScanDone layout parentIno s := by
  obtain ⟨fuel,read,offset,hr⟩ := dirRead_inline layout parentIno h hi pos le_rfl
  have hnames := (dirRead_spec hr).2
  rw [List.drop_of_length_le hend,List.take_nil] at hnames
  rw [← hoff,List.map_eq_nil_iff.mp hnames] at hr
  exact ⟨fuel,layout.size,offset,le_rfl,hr⟩

end Inline

section Two

def direntLayout : DirentLayout := ⟨280,by decide⟩

def abArea : RtfsInlineDentry := (DentryArea.zero.put 0 [97] 5 1).put 1 [98] 6 1

def abDir : DirImage := ⟨emptyFile,1,0,2,true,abArea,fun _ => none⟩

theorem abArea_starts : slotStarts abArea = [0,1] := by
  have hfree : ∀ k, 2 ≤ k → k < 194 → abArea.isSet k = false := fun k hlo _ => by
    have hone (x : UInt8) : getDentrySlots [x].length = 1 := by simp [getDentrySlots]
    have h1 : ¬ (1 ≤ k ∧ k < 1 + getDentrySlots [(98 : UInt8)].length) := by
      rw [hone]
      omega
    have h0 : ¬ (0 ≤ k ∧ k < 0 + getDentrySlots [(97 : UInt8)].length) := by
      rw [hone]
      omega
    unfold abArea
    rw [DentryArea.isSet_put _ (by decide),DentryArea.isSet_put _ (by decide),DentryArea.isSet_zero,
      decide_eq_false h1,decide_eq_false h0]
    rfl
  have hset : abArea.isSet 0 = true ∧ abArea.isSet 1 = true := by decide
  have hslots : abArea.slotsAt 0 = 1 ∧ abArea.slotsAt 1 = 1 := by decide
  unfold slotStarts
  rw [SlotRuns.starts,if_pos (by decide),if_pos hset.1,hslots.1,show 0 + max 1 1 = 1 from rfl,SlotRuns.starts,
    if_pos (by decide),if_pos hset.2,hslots.2,show 1 + max 1 1 = 2 from rfl,SlotRuns.starts_skip (by decide) hfree,
    SlotRuns.starts,if_neg (by decide)]

theorem abArea_names : areaNames false abArea = [[97],[98]] := by
  unfold areaNames
  rw [abArea_starts]
  decide

theorem abDir_names : dirNames abDir = [[97],[98]] := abArea_names

theorem abDir_scannable : ScannableDir abDir := by
  have hok : AreaOk false abArea := by
    intro i hi
    rw [abArea_starts] at hi
    have hcases : i = 0 ∨ i = 1 := by simpa using hi
    rcases hcases with rfl | rfl
    · exact ⟨by decide,by decide,fun _ => by decide⟩
    · exact ⟨by decide,by decide,fun _ => by decide⟩
  refine ⟨by decide,emptyFile_tree,(readable_iff abDir).mp ⟨fun _ => hok,nofun,?_⟩,fun _ => ⟨fun i hi => ?_,?_⟩,nofun⟩
  · rw [abDir_names]
    decide
  · change i ∈ slotStarts abArea at hi
    rw [abArea_starts] at hi
    have hcases : i = 0 ∨ i = 1 := by simpa using hi
    rcases hcases with rfl | rfl <;> decide
  · intro _
    change [46] ∉ areaNames false abArea ∧ [46,46] ∉ areaNames false abArea
    rw [abArea_names]
    decide

theorem abDir_scan {n : Nat} (hn : 3 ≤ n) : ∃ s₁ s, ScanRun direntLayout 1 abDir [(s₁,[97])] s ∧
    s₁.img = abDir ∧ s₁.offset = (([[46],[46,46],[97],[98]] : List (List UInt8)).take n).length * 280 ∧
    ScanDone direntLayout 1 s ∧ dNames s.result = ([[46],[46,46],[97],[98]] : List (List UInt8)).take n := by
  have hitems : dirItems abDir = [[46],[46,46],[97],[98]] := by
    unfold dirItems
    rw [abDir_names]
  have hcount : direntLayout.size ≤ n * direntLayout.size := Nat.le_mul_of_pos_left _ (by omega)
  have hdiv : n * direntLayout.size / direntLayout.size = n := Nat.mul_div_cancel _ direntLayout.pos
  have hstart : ScanRun direntLayout 1 abDir [] ⟨abDir,0,[]⟩ := .start
  obtain ⟨s₁,hrun,himg,hout,hoff⟩ := hstart.readInline abDir_scannable rfl (Nat.zero_mul _).symm hcount
  change s₁.img = abDir at himg
  change dNames s₁.result = (dirItems abDir).take _ at hout
  rw [Nat.zero_add] at hoff
  change s₁.offset = ((dirItems abDir).take _).length * _ at hoff
  rw [hdiv,hitems] at hout hoff
  have ha : [97] ∈ dNames s₁.result := by
    rw [hout]
    obtain ⟨k,rfl⟩ := Nat.exists_eq_add_of_le hn
    rw [Nat.add_comm,List.take_succ_cons,List.take_succ_cons,List.take_succ_cons]
    simp
  have hname : [97] ∈ dirNames abDir := by
    rw [abDir_names]
    exact List.mem_cons_self
  obtain ⟨img',hunlink⟩ := unlink_inline_exists abDir_scannable rfl hname
  obtain ⟨-,hdir,hnames⟩ := unlink_spec abDir_scannable (fun _ h => absurd h List.not_mem_nil) hunlink
  rw [abDir_names] at hnames
  have hleft : dirItems img' = [[46],[46,46],[98]] := by
    unfold dirItems
    rw [hnames]
    rfl
  have hunlink₁ : rtfsUnlinkFromParentAndCommit s₁.img [97] [] = .ok img' := by
    rw [himg]
    exact hunlink
  have hunused : Unused s₁.img [] := fun _ h => absurd h List.not_mem_nil
  refine ⟨s₁,⟨img',s₁.offset,s₁.result⟩,hrun.unlink ha hunused hunlink₁,himg,hoff,?_,hout⟩
  refine scanDone_inline direntLayout 1 hdir (unlink_isInline hunlink) hoff ?_
  change (dirItems img').length ≤ _
  rw [hleft,List.length_take]
  simp only [List.length_cons,List.length_nil]
  omega

-- an unlink of a before b was read: b is never returned
theorem earlyUnlink_skips : ∃ us s, ScanRun direntLayout 1 abDir us s ∧ ScanDone direntLayout 1 s ∧
    us.map Prod.snd = [[97]] ∧ [98] ∈ listing abDir ∧ dNames s.result = [[46],[46,46],[97]] ∧
    ¬ ScanComplete abDir us s := by
  obtain ⟨s₁,s,hrun,-,-,hdone,hout⟩ := abDir_scan (n := 3) le_rfl
  have hb : [98] ∈ listing abDir := by
    rw [listing_eq abDir_scannable,abDir_names]
    exact List.mem_cons_of_mem _ List.mem_cons_self
  refine ⟨_,s,hrun,hdone,rfl,hb,hout,fun hc => ?_⟩
  have hone := hc.2.2 [98] hb (by simp)
  rw [hout] at hone
  exact absurd hone (by decide)

theorem lateUnlink_complete : ∃ us s, us.map Prod.snd = [[97]] ∧ ScanRun direntLayout 1 abDir us s ∧
    ScanDone direntLayout 1 s ∧ ScanComplete abDir us s := by
  obtain ⟨s₁,s,hrun,himg,hoff,hdone,-⟩ := abDir_scan (n := 4) (by decide)
  refine ⟨_,s,rfl,hrun,hdone,
    (scan_complete_iff direntLayout 1 abDir _ s abDir_scannable hrun hdone).mpr (fun u hu => ?_)⟩
  rw [List.mem_singleton] at hu
  subst hu
  unfold AllRead
  rw [himg,hoff,listing_eq abDir_scannable,abDir_names]
  decide

end Two

end DirEntries

end Rtfs
