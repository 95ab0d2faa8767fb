import Rtfs.Comm.Device

namespace Rtfs

structure Layout where
  blockCount : Nat
  segmentCountSit : Nat
  segmentCountNat : Nat
  segmentCountMetaJournal : Nat
  sitBlkaddr : Nat
  natBlkaddr : Nat
  metaJournalBlkaddr : Nat
  mainBlkaddr : Nat

def layoutOf (sb : Block) : Layout where
  blockCount := RtfsSuperBlock.blockCount sb
  segmentCountSit := (RtfsSuperBlock.segmentCountSit sb).toNat
  segmentCountNat := (RtfsSuperBlock.segmentCountNat sb).toNat
  segmentCountMetaJournal := (RtfsSuperBlock.segmentCountMetaJournal sb).toNat
  sitBlkaddr := (RtfsSuperBlock.sitBlkaddr sb).toNat
  natBlkaddr := (RtfsSuperBlock.natBlkaddr sb).toNat
  metaJournalBlkaddr := (RtfsSuperBlock.metaJournalBlkaddr sb).toNat
  mainBlkaddr := (RtfsSuperBlock.mainBlkaddr sb).toNat

def OutsideLayout (off : Nat) : Prop := off + 4 ≤ 24 ∨ 80 ≤ off

instance (off : Nat) : Decidable (OutsideLayout off) := instDecidableOr

theorem layoutOf_congr {sb sb' : Block} (hu : ∀ o, 24 ≤ o ∧ o + 4 ≤ 80 → u32At sb' o = u32At sb o) :
    layoutOf sb' = layoutOf sb := by
  simp only [layoutOf,RtfsSuperBlock.blockCount,RtfsSuperBlock.segmentCountSit,
    RtfsSuperBlock.segmentCountNat,RtfsSuperBlock.segmentCountMetaJournal,
    RtfsSuperBlock.sitBlkaddr,RtfsSuperBlock.natBlkaddr,RtfsSuperBlock.metaJournalBlkaddr,
    RtfsSuperBlock.mainBlkaddr,hu _ (show 24 ≤ RtfsSuperBlock.blockCountOff ∧ _ by decide),
    hu _ (show 24 ≤ RtfsSuperBlock.blockCountOff + 4 ∧ _ by decide),
    hu _ (show 24 ≤ RtfsSuperBlock.segmentCountSitOff ∧ _ by decide),
    hu _ (show 24 ≤ RtfsSuperBlock.segmentCountNatOff ∧ _ by decide),
    hu _ (show 24 ≤ RtfsSuperBlock.segmentCountMetaJournalOff ∧ _ by decide),
    hu _ (show 24 ≤ RtfsSuperBlock.sitBlkaddrOff ∧ _ by decide),
    hu _ (show 24 ≤ RtfsSuperBlock.natBlkaddrOff ∧ _ by decide),
    hu _ (show 24 ≤ RtfsSuperBlock.metaJournalBlkaddrOff ∧ _ by decide),
    hu _ (show 24 ≤ RtfsSuperBlock.mainBlkaddrOff ∧ _ by decide)]

theorem layoutOf_setU32 (sb : Block) {off : Nat} (v : UInt32) (h : OutsideLayout off) :
    layoutOf (setU32 sb off v) = layoutOf sb := by
  refine layoutOf_congr (fun o ho => u32At_setU32_ne sb off o v ?_)
  unfold OutsideLayout at h
  omega

namespace Layout
variable (L : Layout)

def journalSize : Nat := L.segmentCountMetaJournal * blockPerSegment
def natLpa (nid : UInt32) : Nat := L.natBlkaddr + nid.toNat / natEntryPerBlock
def sitLpa (segID : UInt32) : Nat := L.sitBlkaddr + segID.toNat / sitEntryPerBlock

structure Ok (d : CommDev) : Prop where
  journal_pos : 0 < L.journalSize
  super_journal : 0 < L.metaJournalBlkaddr
  journal_sit : L.metaJournalBlkaddr + L.journalSize ≤ L.sitBlkaddr
  sit_nat : L.sitBlkaddr + L.segmentCountSit * blockPerSegment ≤ L.natBlkaddr
  nat_main : L.natBlkaddr + L.segmentCountNat * blockPerSegment ≤ L.mainBlkaddr
  main_end : L.mainBlkaddr ≤ L.blockCount
  held : ∀ lpa < L.blockCount, d.Holds lpa

def InNatArea (lpa : Nat) : Prop :=
  L.natBlkaddr ≤ lpa ∧ lpa < L.natBlkaddr + L.segmentCountNat * blockPerSegment

def InSitArea (lpa : Nat) : Prop :=
  L.sitBlkaddr ≤ lpa ∧ lpa < L.sitBlkaddr + L.segmentCountSit * blockPerSegment

end Layout

end Rtfs
