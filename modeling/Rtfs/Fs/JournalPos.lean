import Rtfs.Fs.LayoutSound
import Rtfs.Fs.Lifecycle

namespace Rtfs

-- where the recovery starts to scan
def recoveryScanStartLpa (superBlock : Block) : Nat :=
  journalStartLpaOf superBlock +
    (RtfsSuperBlock.metaJournalEndBlkoff superBlock).toNat % journalSizeOf superBlock

structure RtfsMkfsLayout.InJournal (layout : RtfsMkfsLayout) (lpa : Nat) : Prop where
  start : layout.metaJournalStartLpa.toNat ≤ lpa
  fin : lpa < layout.metaJournalStartLpa.toNat + layout.metaJournalSegmentCount.toNat * blockPerSegment

structure RestoresJournalPos (superBlock : Block) (headLpa tailLpa : Nat) : Prop where
  head : ∀ d, (syncDevJournalPosFromSuper d superBlock).metaJournalHeadLpa = headLpa
  tail : ∀ d, (syncDevJournalPosFromSuper d superBlock).metaJournalTailLpa = tailLpa
  scan : recoveryScanStartLpa superBlock = tailLpa

section Recovery

theorem finishRecovery_super {start size : Nat} {r : Scan} {d : CommDev}
    (h : finishRecovery start size r = (d,none)) :
    d.blocks 0 = setJournalOffsets r.superBlock ((r.committedEndLpa - start) % size) ∧
      d.metaJournalHeadLpa = r.committedEndLpa ∧ d.metaJournalTailLpa = r.committedEndLpa := by
  unfold finishRecovery commRecoveryWriteLpa CommDev.writeLba at h
  simp only at h
  split at h
  · cases h
  · rename_i d' hw
    split at hw
    · cases hw
    · cases hw
      cases h
      have hself := Function.update_self (0 : Nat)
        (setJournalOffsets r.superBlock ((r.committedEndLpa - start) % size)) r.dev.blocks
      exact ⟨hself,rfl,rfl⟩

end Recovery

section Offsets
variable {sb : Block} {start size lpa : Nat} {a b : UInt16}

theorem setBlkoffs_layout (sb : Block) (a b : UInt16) :
    journalStartLpaOf (setU16 (setU16 sb RtfsSuperBlock.metaJournalStartBlkoffOff a)
      RtfsSuperBlock.metaJournalEndBlkoffOff b) = journalStartLpaOf sb ∧
    journalSizeOf (setU16 (setU16 sb RtfsSuperBlock.metaJournalStartBlkoffOff a)
      RtfsSuperBlock.metaJournalEndBlkoffOff b) = journalSizeOf sb := by
  have hword (o : Nat) (ho : o + 4 ≤ 120) : u32At (setU16 (setU16 sb
      RtfsSuperBlock.metaJournalStartBlkoffOff a) RtfsSuperBlock.metaJournalEndBlkoffOff b) o = u32At sb o := by
    unfold RtfsSuperBlock.metaJournalStartBlkoffOff RtfsSuperBlock.metaJournalEndBlkoffOff
    rw [u32At_setU16_ne _ _ _ _ (by omega),u32At_setU16_ne _ _ _ _ (by omega)]
  exact ⟨congrArg UInt32.toNat (hword _ (by decide)),
    congrArg (fun w : UInt32 => w.toNat * blockPerSegment) (hword _ (by decide))⟩

theorem startBlkoff_setBlkoffs : RtfsSuperBlock.metaJournalStartBlkoff (setU16 (setU16 sb
    RtfsSuperBlock.metaJournalStartBlkoffOff a) RtfsSuperBlock.metaJournalEndBlkoffOff b) = a :=
  (Buf.getAs_setAs_disjoint Codec.u16 Codec.u16 _ _ _ b (Or.inl le_rfl)).trans
    (Buf.getAs_setAs_self Codec.u16 _ _ _ (by decide))

theorem endBlkoff_setBlkoffs : RtfsSuperBlock.metaJournalEndBlkoff (setU16 (setU16 sb
    RtfsSuperBlock.metaJournalStartBlkoffOff a) RtfsSuperBlock.metaJournalEndBlkoffOff b) = b :=
  Buf.getAs_setAs_self Codec.u16 _ _ _ (by decide)

theorem blkoff_restored (hs : start ≤ lpa) (hf : lpa < start + size) :
    start + (UInt16.ofNat (lpa - start)).toNat % size = lpa ↔ lpa - start < 65536 := by
  rw [UInt16.toNat_ofNat']
  change start + (lpa - start) % 65536 % size = lpa ↔ _
  constructor
  · intro h
    by_contra hge
    have h1 : (lpa - start) % 65536 < 65536 := Nat.mod_lt _ (by decide)
    have h2 := Nat.mod_le ((lpa - start) % 65536) size
    omega
  · intro h
    rw [Nat.mod_eq_of_lt h,Nat.mod_eq_of_lt (by omega)]
    omega

theorem restores_iff {headLpa tailLpa : Nat} (hsize : 0 < journalSizeOf sb)
    (ha : journalStartLpaOf sb + a.toNat % journalSizeOf sb = headLpa ↔ headLpa - journalStartLpaOf sb < 65536)
    (hb : journalStartLpaOf sb + b.toNat % journalSizeOf sb = tailLpa ↔ tailLpa - journalStartLpaOf sb < 65536) :
    RestoresJournalPos (setU16 (setU16 sb RtfsSuperBlock.metaJournalStartBlkoffOff a)
        RtfsSuperBlock.metaJournalEndBlkoffOff b) headLpa tailLpa ↔
      headLpa - journalStartLpaOf sb < 65536 ∧ tailLpa - journalStartLpaOf sb < 65536 := by
  obtain ⟨hstart,hsz⟩ := setBlkoffs_layout sb a b
  have hload (d : CommDev) : (syncDevJournalPosFromSuper d (setU16 (setU16 sb
        RtfsSuperBlock.metaJournalStartBlkoffOff a) RtfsSuperBlock.metaJournalEndBlkoffOff b)).metaJournalHeadLpa =
        journalStartLpaOf sb + a.toNat % journalSizeOf sb ∧
      (syncDevJournalPosFromSuper d (setU16 (setU16 sb RtfsSuperBlock.metaJournalStartBlkoffOff a)
        RtfsSuperBlock.metaJournalEndBlkoffOff b)).metaJournalTailLpa =
        journalStartLpaOf sb + b.toNat % journalSizeOf sb := by
    unfold syncDevJournalPosFromSuper
    simp only [hstart,hsz,startBlkoff_setBlkoffs,endBlkoff_setBlkoffs]
    rw [if_neg (Nat.ne_of_gt hsize)]
    exact ⟨rfl,rfl⟩
  have hscan : recoveryScanStartLpa (setU16 (setU16 sb RtfsSuperBlock.metaJournalStartBlkoffOff a)
      RtfsSuperBlock.metaJournalEndBlkoffOff b) = journalStartLpaOf sb + b.toNat % journalSizeOf sb := by
    unfold recoveryScanStartLpa
    rw [hstart,hsz,endBlkoff_setBlkoffs]
  constructor
  · intro h
    exact ⟨ha.mp ((hload smallDisk).1.symm.trans (h.head smallDisk)),hb.mp (hscan.symm.trans h.scan)⟩
  · rintro ⟨hh,ht⟩
    exact ⟨fun d => (hload d).1.trans (ha.mpr hh),fun d => (hload d).2.trans (hb.mpr ht),hscan.trans (hb.mpr ht)⟩

end Offsets

section Layout
variable {layout : RtfsMkfsLayout} {sb : Block}

structure RtfsMkfsLayout.Journaled (layout : RtfsMkfsLayout) (sb : Block) : Prop where
  start : RtfsSuperBlock.metaJournalBlkaddr sb = layout.metaJournalStartLpa
  segments : RtfsSuperBlock.segmentCountMetaJournal sb = layout.metaJournalSegmentCount

theorem RtfsMkfsLayout.Journaled.startLpa (h : layout.Journaled sb) :
    journalStartLpaOf sb = layout.metaJournalStartLpa.toNat := congrArg UInt32.toNat h.start

theorem RtfsMkfsLayout.Journaled.size (h : layout.Journaled sb) :
    journalSizeOf sb = layout.metaJournalSegmentCount.toNat * blockPerSegment :=
  congrArg (fun w : UInt32 => w.toNat * blockPerSegment) h.segments

theorem RtfsMkfsLayout.Journaled.size_pos (h : layout.Journaled sb) {lpa : Nat} (hin : layout.InJournal lpa) :
    0 < journalSizeOf sb := by
  have h1 := hin.start
  have h2 := hin.fin
  rw [h.size]
  omega

theorem journalBlkoff_restored (h : layout.Journaled sb) {lpa : Nat} (hin : layout.InJournal lpa) :
    journalStartLpaOf sb + (journalBlkoff lpa (journalStartLpaOf sb)
      (journalStartLpaOf sb + journalSizeOf sb)).toNat % journalSizeOf sb = lpa ↔
      lpa - journalStartLpaOf sb < 65536 := by
  have h1 := hin.start
  have h2 := hin.fin
  rw [← h.startLpa] at h1 h2
  rw [← h.size] at h2
  rw [journalBlkoff,if_neg (by omega)]
  exact blkoff_restored h1 h2

theorem recoveredOff_restored (h : layout.Journaled sb) {lpa : Nat} (hin : layout.InJournal lpa) :
    journalStartLpaOf sb + (UInt16.ofNat ((lpa - journalStartLpaOf sb) % journalSizeOf sb)).toNat %
      journalSizeOf sb = lpa ↔ lpa - journalStartLpaOf sb < 65536 := by
  have h1 := hin.start
  have h2 := hin.fin
  rw [← h.startLpa] at h1 h2
  rw [← h.size] at h2
  rw [Nat.mod_eq_of_lt (a := lpa - journalStartLpaOf sb) (by omega)]
  exact blkoff_restored h1 h2

end Layout

section Layout
variable {layout : RtfsMkfsLayout} {sb : Block}

theorem syncSuper_restores (hsb : layout.Journaled sb) {d : CommDev} (hhead : layout.InJournal d.metaJournalHeadLpa)
    (htail : layout.InJournal d.metaJournalTailLpa) :
    RestoresJournalPos (syncSuperJournalPosFromDev d sb) d.metaJournalHeadLpa d.metaJournalTailLpa ↔
      d.metaJournalHeadLpa - layout.metaJournalStartLpa.toNat < 65536 ∧
        d.metaJournalTailLpa - layout.metaJournalStartLpa.toNat < 65536 := by
  rw [← hsb.startLpa]
  exact restores_iff (hsb.size_pos hhead) (journalBlkoff_restored hsb hhead) (journalBlkoff_restored hsb htail)

theorem finishRecovery_restores {r : Scan}
    {d : CommDev} (hsb : layout.Journaled r.superBlock) (hend : layout.InJournal r.committedEndLpa)
    (h : finishRecovery (journalStartLpaOf r.superBlock) (journalSizeOf r.superBlock) r = (d,none)) :
    RestoresJournalPos (d.blocks 0) d.metaJournalHeadLpa d.metaJournalTailLpa ↔
      r.committedEndLpa - layout.metaJournalStartLpa.toNat < 65536 := by
  obtain ⟨hzero,hhead,htail⟩ := finishRecovery_super h
  have hback := recoveredOff_restored hsb hend
  rw [hzero,hhead,htail,← hsb.startLpa]
  exact (restores_iff (hsb.size_pos hend) hback hback).trans and_self_iff

end Layout

theorem journal_pos_survives_iff (lpaCount : Nat) (metaJournalSegmentCount : UInt32) (layout : RtfsMkfsLayout)
    (hl : rtfsMkfsCalculateLayout lpaCount metaJournalSegmentCount = .ok layout) :
    (∀ sb d, layout.Journaled sb → layout.InJournal d.metaJournalHeadLpa → layout.InJournal d.metaJournalTailLpa →
      (RestoresJournalPos (syncSuperJournalPosFromDev d sb) d.metaJournalHeadLpa d.metaJournalTailLpa ↔
        d.metaJournalHeadLpa < 512 + 65536 ∧ d.metaJournalTailLpa < 512 + 65536)) ∧
    ∀ r d, layout.Journaled r.superBlock → layout.InJournal r.committedEndLpa →
      finishRecovery (journalStartLpaOf r.superBlock) (journalSizeOf r.superBlock) r = (d,none) →
      (RestoresJournalPos (d.blocks 0) d.metaJournalHeadLpa d.metaJournalTailLpa ↔
        r.committedEndLpa < 512 + 65536) := by
  have hstart : layout.metaJournalStartLpa.toNat = 512 :=
    congrArg UInt32.toNat (placeAreas_placed (calculateLayout_placed hl).2).journalStart
  have hoff {lpa : Nat} (hin : layout.InJournal lpa) :
      lpa - layout.metaJournalStartLpa.toNat < 65536 ↔ lpa < 512 + 65536 := by
    have hle := hin.start
    omega
  refine ⟨fun sb d hsb hhead htail => ?_,fun r d hsb hend h => ?_⟩
  · exact (syncSuper_restores hsb hhead htail).trans (and_congr (hoff hhead) (hoff htail))
  · exact (finishRecovery_restores hsb hend h).trans (hoff hend)

section Wide

-- a journal of 129 segments, its last 512 blocks lie behind the reach of 16 bits
def wideJournal : RtfsMkfsLayout :=
  ⟨131072,256,512,129,66560,1,67072,1,67584,1,68096,133,123⟩

theorem wideJournal_calculated : rtfsMkfsCalculateLayout 131072 129 = .ok wideJournal := by
  rfl

def wideOptions129 : RtfsMkfsOptions := ⟨131072,1,129⟩

theorem wideJournal_journaled : wideJournal.Journaled (initialSuper wideOptions129 wideJournal) :=
  ⟨u32At_initialSuper _ _ (by decide) rfl,u32At_initialSuper _ _ (by decide) rfl⟩

def wideDevAt (lpa : Nat) : CommDev :=
  { smallDisk with
    blockCount := 1048576
    blockCount_le := by decide
    metaJournalStartLpa := 512
    metaJournalEndLpa := 66560
    metaJournalHeadLpa := lpa
    metaJournalTailLpa := lpa }

theorem wideJournal_in {lpa : Nat} (h1 : 512 ≤ lpa) (h2 : lpa < 66560) : wideJournal.InJournal lpa :=
  ⟨h1,h2⟩

theorem journal_pos_survives_wide :
    RestoresJournalPos (syncSuperJournalPosFromDev (wideDevAt 600) (initialSuper wideOptions129 wideJournal))
      600 600 :=
  ((journal_pos_survives_iff 131072 129 wideJournal wideJournal_calculated).1 _ (wideDevAt 600)
    wideJournal_journaled (wideJournal_in (by decide) (by decide)) (wideJournal_in (by decide) (by decide))).mpr
    ⟨by decide,by decide⟩

theorem journal_pos_lost : wideJournal.InJournal 66048 ∧
    ¬ RestoresJournalPos (syncSuperJournalPosFromDev (wideDevAt 66048) (initialSuper wideOptions129 wideJournal))
      66048 66048 := by
  have hin : wideJournal.InJournal 66048 := wideJournal_in (by decide) (by decide)
  refine ⟨hin,fun h => ?_⟩
  have hoff := ((syncSuper_restores (d := wideDevAt 66048) wideJournal_journaled hin hin).mp h).1
  exact absurd hoff (by decide)

end Wide

end Rtfs
