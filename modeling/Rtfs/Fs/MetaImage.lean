import Rtfs.Fs.Tables
import Rtfs.Fs.SuperManager

namespace Rtfs

open RtfsSuperBlock

def natBlockLpa (sb : Block) (nid : UInt32) : UInt32 := natBlkaddr sb + nid / 512

def sitBlockLpa (sb : Block) (segId : UInt32) : UInt32 := sitBlkaddr sb + segId / 60

def loadMeta (d : CommDev) : FsMeta where
  superBlock := d.blocks 0
  nat := fun nid => natEntryAt (d.blocks (natBlockLpa (d.blocks 0) nid).toNat) (nid % 512).toNat
  sit := fun segId => sitEntryAt (d.blocks (sitBlockLpa (d.blocks 0) segId).toNat) (segId % 60).toNat
  curJournal := JournalContainer.init

theorem loadMeta_superBlock (d : CommDev) : (loadMeta d).superBlock = d.blocks 0 := rfl

def metaOf (blocks : Nat → Block) : FsMeta where
  superBlock := blocks 0
  nat := fun nid => natEntryAt (blocks (natBlockLpa (blocks 0) nid).toNat) (nid % 512).toNat
  sit := fun segId => sitEntryAt (blocks (sitBlockLpa (blocks 0) segId).toNat) (segId % 60).toNat
  curJournal := JournalContainer.init

structure RtfsMkfsLayout.Areas (layout : RtfsMkfsLayout) : Prop where
  blockCount : layout.blockCount = layout.segmentCount.toNat * 512
  mainPos : 0 < layout.mainStartSegment.toNat
  mainFits : layout.mainStartSegment.toNat + 2 ≤ layout.segmentCount.toNat
  mainSegments : layout.mainSegmentCount.toNat =
    layout.segmentCount.toNat - layout.mainStartSegment.toNat
  mainStart : layout.mainStartLpa = layout.mainStartSegment * 512
  sitCovers : layout.segmentCount.toNat ≤ layout.sitSegmentCount.toNat * 512 * 60
  sitSmall : layout.sitSegmentCount.toNat < 8388608
  natCovers : layout.blockCount ≤ layout.natSegmentCount.toNat * 512 * 512
  natSmall : layout.natSegmentCount.toNat < 8388608

theorem placeAreas_areas {segs sit nat srmap : Nat} {mj : UInt32} {layout : RtfsMkfsLayout}
    (h : mkfsPlaceAreas segs sit nat srmap mj = .ok layout) (hsmall : segs ≤ 8388608)
    (hsit : segs ≤ sit * 512 * 60) (hnat : segs ≤ nat * 512) (hpos : 0 < nat) :
    layout.Areas ∧ layout.segmentCount.toNat = segs := by
  unfold mkfsPlaceAreas at h
  simp only [blockPerSegment] at h
  split at h
  · cases h
  · rename_i hfit
    cases h
    refine ⟨?_,?_⟩
    · constructor
      case mainStart => rfl
      all_goals simp only [UInt32.toNat_sub,UInt32.toNat_ofNat']
      all_goals omega
    · rw [UInt32.toNat_ofNat']
      omega

theorem calculateLayout_areas {lpaCount : Nat} {mj : UInt32} {layout : RtfsMkfsLayout}
    (h : rtfsMkfsCalculateLayout lpaCount mj = .ok layout)
    (hsmall : layout.blockCount ≤ 4294967296 ∨ layout.segmentCount.toNat < 8388608) :
    layout.Areas := by
  unfold rtfsMkfsCalculateLayout at h
  split at h
  · cases h
  · by_cases hseg : 4294967295 < lpaCount / blockPerSegment ∨
        lpaCount / blockPerSegment * blockPerSegment = 0
    · rw [if_pos hseg] at h
      cases h
    · rw [if_neg hseg] at h
      change mkfsPlaceAreas (lpaCount / 512) (rtfsMkfsDivRoundUp (rtfsMkfsDivRoundUp
        (lpaCount / 512) 60) 512) (rtfsMkfsDivRoundUp (rtfsMkfsDivRoundUp
        (lpaCount / 512 * 512) 512) 512) (rtfsMkfsDivRoundUp (rtfsMkfsDivRoundUp
        (lpaCount / 512 * 512) 512) 512) mj = .ok layout at h
      unfold blockPerSegment at hseg
      have hs1 := divRoundUp_mul (lpaCount / 512) 60 (by decide)
      have hs2 := divRoundUp_mul (rtfsMkfsDivRoundUp (lpaCount / 512) 60) 512 (by decide)
      have hn1 := divRoundUp_mul (lpaCount / 512 * 512) 512 (by decide)
      have hn2 := divRoundUp_mul (rtfsMkfsDivRoundUp (lpaCount / 512 * 512) 512) 512 (by decide)
      have hsegs : lpaCount / 512 ≤ 8388608 := by
        unfold mkfsPlaceAreas at h
        simp only [blockPerSegment] at h
        split at h
        · cases h
        · cases h
          simp only [UInt32.toNat_ofNat'] at hsmall
          omega
      exact (placeAreas_areas h hsegs (by omega) (by omega) (by omega)).1

structure MkfsImage (options : RtfsMkfsOptions) (layout : RtfsMkfsLayout) (m : FsMeta) : Prop where
  calculated : rtfsMkfsCalculateLayout options.lpaCount
    (effectiveOptions options).metaJournalSegmentCount = .ok layout
  super : m.superBlock = initialSuper (effectiveOptions options) layout
  nats : ∀ nid : UInt32, nid.toNat / 512 < layout.natSegmentCount.toNat * 512 → m.nat nid =
    natEntryAt (initialNatBlock (effectiveOptions options) layout (nid.toNat / 512)) (nid.toNat % 512)
  sits : ∀ segId : UInt32, segId.toNat / 60 < layout.sitSegmentCount.toNat * 512 → m.sit segId =
    sitEntryAt (initialSitBlock layout (segId.toNat / 60)) (segId.toNat % 60)

theorem blockLpa_toNat {start i : UInt32} {n : Nat} (hn : start.toNat + n ≤ 4294967296)
    (hi : i.toNat < n) : (start + i).toNat = start.toNat + i.toNat := by
  rw [UInt32.toNat_add]
  omega

theorem formatted_image {options : RtfsMkfsOptions} {layout : RtfsMkfsLayout} {f : Nat → Block}
    {segs mj : Nat} (hl : rtfsMkfsCalculateLayout options.lpaCount
      (effectiveOptions options).metaJournalSegmentCount = .ok layout)
    (hs : layout.Spec segs mj) (hsmall : segs ≤ 8388608)
    (hform : Formatted (effectiveOptions options) layout f) : MkfsImage options layout (metaOf f) := by
  have hs1 := hs.sitStart
  have hs2 := hs.natStart
  have hs3 := hs.mainSegment
  have hs4 := hs.mainFits
  have hsb : f 0 = initialSuper (effectiveOptions options) layout := hform.super
  have hnat : natBlkaddr (initialSuper (effectiveOptions options) layout) = layout.natStartLpa :=
    u32At_initialSuper _ _ (by decide) rfl
  have hsit : sitBlkaddr (initialSuper (effectiveOptions options) layout) = layout.sitStartLpa :=
    u32At_initialSuper _ _ (by decide) rfl
  refine ⟨hl,hsb,fun nid hnid => ?_,fun segId hseg => ?_⟩
  · have hdiv : (nid / 512).toNat = nid.toNat / 512 := UInt32.toNat_div nid 512
    have hlpa : (natBlockLpa (f 0) nid).toNat = layout.natStartLpa.toNat + nid.toNat / 512 := by
      rw [natBlockLpa,hsb,hnat,← hdiv]
      exact blockLpa_toNat (n := layout.natSegmentCount.toNat * 512) (by omega) (by omega)
    change natEntryAt (f _) (nid % 512).toNat = _
    rw [hlpa,hform.nats _ hnid]
    exact congrArg _ (UInt32.toNat_mod nid 512)
  · have hdiv : (segId / 60).toNat = segId.toNat / 60 := UInt32.toNat_div segId 60
    have hlpa : (sitBlockLpa (f 0) segId).toNat = layout.sitStartLpa.toNat + segId.toNat / 60 := by
      rw [sitBlockLpa,hsb,hsit,← hdiv]
      exact blockLpa_toNat (n := layout.sitSegmentCount.toNat * 512) (by omega) (by omega)
    change sitEntryAt (f _) (segId % 60).toNat = _
    rw [hlpa,hform.sits _ hseg]
    exact congrArg _ (UInt32.toNat_mod segId 60)

theorem loadMeta_image {options : RtfsMkfsOptions} {layout : RtfsMkfsLayout} {d d' : CommDev}
    (hd : ∀ lpa < options.lpaCount, d.Holds lpa)
    (hmj : options.metaJournalSegmentCount.toNat < 4294967295)
    (h : rtfsMkfsFormat options d = .ok (layout,d')) : MkfsImage options layout (loadMeta d') := by
  have hl : rtfsMkfsCalculateLayout options.lpaCount
      (effectiveOptions options).metaJournalSegmentCount = .ok layout := format_layout h
  obtain ⟨f,hf,hform,_⟩ := format_spec hd hmj hl
  obtain ⟨hs,hsmall⟩ := format_layout_spec hd hmj hl
  rw [h] at hf
  cases hf
  exact formatted_image hl hs (by omega) hform

theorem loadMeta_small : MkfsImage smallOptions smallLayout (loadMeta smallDisk) := by
  obtain ⟨_,hfmt,_⟩ := smallDisk_format
  exact loadMeta_image (smallDev_holds _) (by decide) hfmt

-- the tables of a fresh image entry by entry, without the blocks that hold them
def mkfsMeta (options : RtfsMkfsOptions) (layout : RtfsMkfsLayout) : FsMeta where
  superBlock := initialSuper (effectiveOptions options) layout
  nat := fun nid =>
    if nid.toNat = (effectiveOptions options).rootIno.toNat then
      ⟨(effectiveOptions options).rootIno,layout.mainStartLpa⟩
    else initialNatEntry layout nid.toNat
  sit := fun segId =>
    if layout.mainStartSegment.toNat ≤ segId.toNat ∧ segId.toNat < layout.segmentCount.toNat then
      if segId.toNat = layout.mainStartSegment.toNat then
        rtfsMkfsSitSetValid (chainedEntry layout segId.toNat) 0
      else chainedEntry layout segId.toNat
    else sitEntryAt (initialSitBlock layout (segId.toNat / 60)) (segId.toNat % 60)
  curJournal := JournalContainer.init

theorem mkfsMeta_image {options : RtfsMkfsOptions} {layout : RtfsMkfsLayout}
    (hl : rtfsMkfsCalculateLayout options.lpaCount
      (effectiveOptions options).metaJournalSegmentCount = .ok layout)
    (ha : layout.Areas) (hN : layout.segmentCount.toNat ≤ 8388608) :
    MkfsImage options layout (mkfsMeta options layout) := by
  refine ⟨hl,rfl,fun nid _ => ?_,fun segId _ => ?_⟩
  · exact (@initialNat_entry (effectiveOptions options) layout nid.toNat).symm
  · unfold mkfsMeta
    simp only
    split
    · rename_i hmain
      exact (initialSit_entry hN hmain.2 ha.mainPos hmain.1).symm
    · rfl

def smallMeta : FsMeta := mkfsMeta smallOptions smallLayout

theorem smallMeta_image : MkfsImage smallOptions smallLayout smallMeta :=
  mkfsMeta_image loadMeta_small.calculated (calculateLayout_areas loadMeta_small.calculated (.inr (by decide)))
    (by decide)

end Rtfs
