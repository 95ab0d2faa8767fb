import Rtfs.Fs.MetaImage
import Rtfs.Journal.CrashRecovery

namespace Rtfs

open RtfsSuperBlock

section Load
variable {L : Layout} {d : CommDev}

theorem loadMeta_nat (hL : L.Ok d) (hl : layoutOf (d.blocks 0) = L) {nid : UInt32}
    (hn : NidInRange L nid) : (loadMeta d).nat nid = natOf L d.blocks nid := by
  have hc := hL.blockCount_le
  have h1 := hL.nat_main
  have h2 := hL.main_end
  have hbase : (natBlkaddr (d.blocks 0)).toNat = L.natBlkaddr := by
    rw [← hl]
    rfl
  have hdiv : (nid / 512).toNat = nid.toNat / 512 := UInt32.toNat_div nid 512
  have hlpa : (natBlockLpa (d.blocks 0) nid).toNat = L.natLpa nid := by
    unfold natBlockLpa
    rw [blockLpa_toNat (n := L.segmentCountNat * blockPerSegment) (by omega)
      (by rw [hdiv]; exact hn),hbase,hdiv]
    rfl
  change natEntryAt (d.blocks (natBlockLpa (d.blocks 0) nid).toNat) (nid % 512).toNat = _
  rw [hlpa]
  exact congrArg _ (UInt32.toNat_mod nid 512)

theorem loadMeta_sit (hL : L.Ok d) (hl : layoutOf (d.blocks 0) = L) {seg : UInt32}
    (hs : SegInRange L seg) : (loadMeta d).sit seg = sitOf L d.blocks seg := by
  have hc := hL.blockCount_le
  have h0 := hL.sit_nat
  have h1 := hL.nat_main
  have h2 := hL.main_end
  have hbase : (sitBlkaddr (d.blocks 0)).toNat = L.sitBlkaddr := by
    rw [← hl]
    rfl
  have hdiv : (seg / 60).toNat = seg.toNat / 60 := UInt32.toNat_div seg 60
  have hlpa : (sitBlockLpa (d.blocks 0) seg).toNat = L.sitLpa seg := by
    unfold sitBlockLpa
    rw [blockLpa_toNat (n := L.segmentCountSit * blockPerSegment) (by omega)
      (by rw [hdiv]; exact hs),hbase,hdiv]
    rfl
  change sitEntryAt (d.blocks (sitBlockLpa (d.blocks 0) seg).toNat) (seg % 60).toNat = _
  rw [hlpa]
  exact congrArg _ (UInt32.toNat_mod seg 60)

end Load

section Remounted
variable {L : Layout} {d d' : CommDev} {m : MetaImage} {o : Nat}

theorem HoldsMeta.sitOf_eq {f : Nat → Block} (h : HoldsMeta L f m) {seg : UInt32}
    (hs : SegInRange L seg) : sitOf L f seg = sitOf L m.blocks seg := by
  have hin : L.InSitArea (L.sitLpa seg) := ⟨Nat.le_add_right _ _,Nat.add_lt_add_left hs _⟩
  unfold sitOf
  rw [h.sits _ hin]

theorem Remounted.layout (h : Remounted L d d' m o) (hm : layoutOf m.superBlock = L) :
    layoutOf (d'.blocks 0) = L := by
  rw [h.super,← hm]
  exact layoutOf_congr (fun o' ho => u32At_setJournalOffsets _ _ (by omega))

theorem Remounted.loadMeta_nat (h : Remounted L d d' m o) (hL : L.Ok d)
    (hm : layoutOf m.superBlock = L) {nid : UInt32} (hn : NidInRange L nid) :
    (loadMeta d').nat nid = natOf L m.blocks nid := by
  rw [Rtfs.loadMeta_nat (hL.congr h.blockCount) (h.layout hm) hn]
  exact h.holds.natOf_eq hn

theorem Remounted.loadMeta_sit (h : Remounted L d d' m o) (hL : L.Ok d)
    (hm : layoutOf m.superBlock = L) {seg : UInt32} (hs : SegInRange L seg) :
    (loadMeta d').sit seg = sitOf L m.blocks seg := by
  rw [Rtfs.loadMeta_sit (hL.congr h.blockCount) (h.layout hm) hs]
  exact h.holds.sitOf_eq hs

theorem Remounted.loadMeta_field (h : Remounted L d d' m o) {off : Nat}
    (ho : off + 4 ≤ 120 ∨ 124 ≤ off) : (loadMeta d').field off = u32At m.superBlock off := by
  change u32At (d'.blocks 0) off = _
  rw [h.super]
  exact u32At_setJournalOffsets _ _ ho

end Remounted

end Rtfs
