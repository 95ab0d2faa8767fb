import Rtfs.Inode.DirListing

namespace Rtfs

namespace DirEntries

open DentryArea

structure MappedBlock where
  lpa : UInt32
  mapped : lpa ≠ invalidLpa
  block : RtfsDentryBlock

structure DirContent where
  iDentryNum : UInt32
  isInline : Bool
  inlineDentry : RtfsInlineDentry
  blocks : List MappedBlock

namespace DirContent

section Load
variable (c : DirContent)

def rtfsDirInodeBuildMetadata : RtfsDirInode :=
  { iDentryNum := c.iDentryNum,loadedBlockCount := 0,totalBlockCount := c.blocks.length
    isFullyLoaded := decide (c.blocks.length = 0),backingKind := .empty,cached := true
    isInline := c.isInline,inlineDentry := none,loadedBlocks := [],capacity := 0,entries := [],isDirty := false }

def rtfsDirInodeBuildFromCache : Except Errno RtfsDirInode :=
  let d := c.rtfsDirInodeBuildMetadata
  if c.isInline then
    rtfsDirInodeBuildInlineEntries { d with backingKind := .inline, inlineDentry := some c.inlineDentry }
      c.inlineDentry true
  else .ok { d with backingKind := .blocks }

-- an on-demand load takes one block
def rtfsDirInodeLoadNextBlocks (d : RtfsDirInode) : Except Errno RtfsDirInode :=
  match c.blocks[d.loadedBlockCount]? with
  | none => .ok d
  | some b =>
    (rtfsDirInodeAppendRegularEntries d b.block (UInt32.ofNat d.loadedBlockCount) b.lpa true true).map
      (fun d' => rtfsDirInodeSetLoadedBlockCount d' (d.loadedBlockCount + 1))

def rtfsDirInodeResolveOnDemand (d : RtfsDirInode) : Except Errno RtfsDirInode :=
  if d.isFullyLoaded then .ok d else c.rtfsDirInodeLoadNextBlocks d

def rtfsDirInodeResolve : Except Errno RtfsDirInode :=
  c.rtfsDirInodeBuildFromCache.bind c.rtfsDirInodeResolveOnDemand

-- the loop in rtfsResolveNameInParent, which loads at most the blocks that are left
def lookupLoop (name : List UInt8) : Nat → RtfsDirInode → Except Errno RtfsDirLookupResult
  | 0,d => rtfsDirInodeLookup d name
  | left + 1,d =>
    if rtfsDirInodeLookup d name ≠ .error .enoent ∨ d.isFullyLoaded = true then rtfsDirInodeLookup d name
    else (c.rtfsDirInodeResolveOnDemand d).bind (lookupLoop name left)

def rtfsResolveNameInParent (name : List UInt8) : Except Errno RtfsDirLookupResult :=
  c.rtfsDirInodeResolve.bind (fun d => c.lookupLoop name (d.totalBlockCount - d.loadedBlockCount) d)

end Load

structure ShownBy (c : DirContent) (img : DirImage) : Prop where
  iDentryNum : img.iDentryNum = c.iDentryNum
  isInline : img.isInline = c.isInline
  inlineDentry : img.inlineDentry = c.inlineDentry
  size : sizeToBlock img.iSize = c.blocks.length
  blocks : ∀ i b, c.blocks[i]? = some b →
    rtfsDirResolveDataLpaByBlockIndex img.store img.ino (UInt32.ofNat i) = .ok b.lpa ∧ img.read b.lpa = some b.block

section Shown
variable {c : DirContent} {img : DirImage} {d : RtfsDirInode} {name : List UInt8}

theorem ShownBy.metadata (h : c.ShownBy img) :
    DirEntries.rtfsDirInodeBuildMetadata img = c.rtfsDirInodeBuildMetadata := by
  unfold DirEntries.rtfsDirInodeBuildMetadata rtfsDirInodeBuildMetadata
  rw [h.iDentryNum,h.isInline,h.size]

theorem ShownBy.build (h : c.ShownBy img) :
    DirEntries.rtfsDirInodeBuildFromCache img = c.rtfsDirInodeBuildFromCache := by
  unfold DirEntries.rtfsDirInodeBuildFromCache rtfsDirInodeBuildFromCache
  rw [h.metadata,h.isInline,h.inlineDentry]

structure Counted (c : DirContent) (d : RtfsDirInode) : Prop where
  total : d.totalBlockCount = c.blocks.length
  le : d.loadedBlockCount ≤ c.blocks.length
  full : d.isFullyLoaded = decide (c.blocks.length ≤ d.loadedBlockCount)

theorem Counted.next (h : Counted c d) {d₁ : RtfsDirInode} (ht : d₁.totalBlockCount = d.totalBlockCount) {k : Nat}
    (hk : k ≤ c.blocks.length) : Counted c (rtfsDirInodeSetLoadedBlockCount d₁ k) ∧
      (rtfsDirInodeSetLoadedBlockCount d₁ k).loadedBlockCount = k := by
  have htotal := ht.trans h.total
  have hmin : min k d₁.totalBlockCount = k := by rw [htotal]; exact Nat.min_eq_left hk
  refine ⟨⟨htotal,?_,?_⟩,hmin⟩
  · change min k d₁.totalBlockCount ≤ _
    rw [hmin]
    exact hk
  · change decide (d₁.totalBlockCount ≤ min k d₁.totalBlockCount) = decide (_ ≤ min k d₁.totalBlockCount)
    rw [hmin,htotal]

theorem Counted.load (h : Counted c d) {d' : RtfsDirInode} (hlt : d.loadedBlockCount < c.blocks.length)
    (hr : c.rtfsDirInodeLoadNextBlocks d = .ok d') :
    Counted c d' ∧ d'.loadedBlockCount = d.loadedBlockCount + 1 := by
  unfold rtfsDirInodeLoadNextBlocks at hr
  rw [List.getElem?_eq_getElem hlt] at hr
  obtain ⟨d₁,happ,rfl⟩ := Except.map_ok hr
  exact h.next (appendRegular_appends happ).total hlt

theorem ShownBy.loadNext (h : c.ShownBy img) (hi : c.isInline = false) (hd : Counted c d)
    (hfull : d.isFullyLoaded = false) :
    DirEntries.rtfsDirInodeLoadNextBlocks img d onDemandChunkBlocks = c.rtfsDirInodeLoadNextBlocks d := by
  have hlt : d.loadedBlockCount < c.blocks.length := by
    rw [hd.full] at hfull
    exact Nat.not_le.mp (of_decide_eq_false hfull)
  obtain ⟨haddr,hread⟩ := h.blocks d.loadedBlockCount _ (List.getElem?_eq_getElem hlt)
  have hload : loadBlock img d d.loadedBlockCount = c.rtfsDirInodeLoadNextBlocks d := by
    unfold loadBlock rtfsDirInodeLoadNextBlocks
    rw [haddr,List.getElem?_eq_getElem hlt]
    simp only
    rw [if_neg (c.blocks[d.loadedBlockCount]).mapped,hread]
  unfold DirEntries.rtfsDirInodeLoadNextBlocks onDemandChunkBlocks
  rw [h.isInline,hi,if_neg (by decide)]
  simp only
  rw [hd.total,if_neg (Nat.not_le.mpr hlt),Nat.min_eq_left hlt,Nat.sub_eq_of_eq_add' (Nat.succ_eq_add_one _)]
  change ([d.loadedBlockCount].foldlM (loadBlock img) d) = _
  rw [List.foldlM_cons,hload]
  cases c.rtfsDirInodeLoadNextBlocks d <;> rfl

theorem ShownBy.onDemand (h : c.ShownBy img) (hi : d.isFullyLoaded = false → c.isInline = false)
    (hd : d.isFullyLoaded = false → Counted c d) :
    DirEntries.rtfsDirInodeResolveOnDemand img d = c.rtfsDirInodeResolveOnDemand d := by
  unfold DirEntries.rtfsDirInodeResolveOnDemand rtfsDirInodeResolveOnDemand
  cases hfull : d.isFullyLoaded with
  | true => rfl
  | false =>
    rw [if_neg (by decide),if_neg (by decide)]
    exact h.loadNext (hi hfull) (hd hfull) hfull

theorem build_cases (h : c.rtfsDirInodeBuildFromCache = .ok d) :
    (c.isInline = true ∧ d.isFullyLoaded = true) ∨ c.isInline = false ∧ Counted c d := by
  unfold rtfsDirInodeBuildFromCache at h
  cases hi : c.isInline with
  | true =>
    rw [hi] at h
    obtain ⟨d',-,rfl⟩ := Except.map_ok h
    exact .inl ⟨rfl,rfl⟩
  | false =>
    rw [hi] at h
    cases h
    refine .inr ⟨rfl,rfl,Nat.zero_le _,?_⟩
    change decide (c.blocks.length = 0) = decide (c.blocks.length ≤ 0)
    rw [decide_eq_decide]
    exact Nat.le_zero.symm

theorem ShownBy.resolve (h : c.ShownBy img) : DirEntries.rtfsDirInodeResolve img = c.rtfsDirInodeResolve := by
  unfold DirEntries.rtfsDirInodeResolve rtfsDirInodeResolve
  rw [h.build]
  cases hb : c.rtfsDirInodeBuildFromCache with
  | error e => rfl
  | ok d =>
    rcases build_cases hb with ⟨hi,hfull⟩ | ⟨hi,hd⟩
    · exact h.onDemand (fun hn => absurd (hfull.symm.trans hn) (by decide))
        (fun hn => absurd (hfull.symm.trans hn) (by decide))
    · exact h.onDemand (fun _ => hi) (fun _ => hd)

theorem ShownBy.loop (h : c.ShownBy img) (hi : c.isInline = false) {left : Nat} (hd : Counted c d)
    (hleft : left = c.blocks.length - d.loadedBlockCount) :
    DirEntries.lookupLoop img name (left + 1) d = some (c.lookupLoop name left d) := by
  induction left generalizing d with
  | zero =>
    have hfull : d.isFullyLoaded = true := by
      rw [hd.full]
      exact decide_eq_true (by omega)
    unfold DirEntries.lookupLoop lookupLoop
    rw [if_pos (.inr hfull)]
  | succ left ih =>
    rw [DirEntries.lookupLoop,lookupLoop]
    by_cases hstop : rtfsDirInodeLookup d name ≠ .error .enoent ∨ d.isFullyLoaded = true
    · rw [if_pos hstop,if_pos hstop]
    · rw [if_neg hstop,if_neg hstop]
      have hfull : d.isFullyLoaded = false := Bool.eq_false_iff.mpr (fun ht => hstop (.inr ht))
      rw [h.onDemand (fun _ => hi) (fun _ => hd)]
      cases hr : c.rtfsDirInodeResolveOnDemand d with
      | error e => rfl
      | ok d' =>
        unfold rtfsDirInodeResolveOnDemand at hr
        rw [hfull,if_neg (by decide)] at hr
        have hlt : d.loadedBlockCount < c.blocks.length := by omega
        obtain ⟨hd',hcount⟩ := hd.load hlt hr
        exact ih hd' (by omega)

theorem ShownBy.lookup (h : c.ShownBy img) (name : List UInt8) : ∃ fuel,
    DirEntries.rtfsResolveNameInParent img fuel name = some (c.rtfsResolveNameInParent name) := by
  unfold DirEntries.rtfsResolveNameInParent rtfsResolveNameInParent
  rw [h.resolve]
  cases hr : c.rtfsDirInodeResolve with
  | error e => exact ⟨0,rfl⟩
  | ok d =>
    refine ⟨d.totalBlockCount - d.loadedBlockCount + 1,?_⟩
    unfold rtfsDirInodeResolve at hr
    obtain ⟨d₀,hb,hr⟩ := Except.bind_ok hr
    rcases build_cases hb with ⟨hi,hfull⟩ | ⟨hi,hd₀⟩
    · unfold rtfsDirInodeResolveOnDemand at hr
      rw [if_pos hfull] at hr
      cases hr
      change DirEntries.lookupLoop img name _ d = some (c.lookupLoop name _ d)
      rw [DirEntries.lookupLoop,if_pos (.inr hfull)]
      cases d.totalBlockCount - d.loadedBlockCount with
      | zero => rfl
      | succ left => rw [lookupLoop,if_pos (.inr hfull)]
    · have hd : Counted c d := by
        unfold rtfsDirInodeResolveOnDemand at hr
        by_cases hfull : d₀.isFullyLoaded = true
        · rw [if_pos hfull] at hr
          cases hr
          exact hd₀
        · rw [if_neg hfull] at hr
          rw [hd₀.full,decide_eq_true_eq,Nat.not_le] at hfull
          exact (hd₀.load hfull hr).1
      change DirEntries.lookupLoop img name _ d = some (c.lookupLoop name _ d)
      rw [hd.total]
      exact h.loop hi hd rfl

end Shown

end DirContent

end DirEntries

end Rtfs
