import Rtfs.Lib.ByteBuf

namespace Rtfs

abbrev Block := Buf 4096

def blockPerSegment : Nat := 512
def natEntryPerBlock : Nat := 512
def sitEntryPerBlock : Nat := 60
def defAddrsPerInode : Nat := 932
def invalidLpa : UInt32 := 0
def invalidNid : UInt32 := 0
def invalidSegid : UInt32 := 0
def rtfsMagicNumber : UInt32 := 0x336699cc
def rtfsInlineData : UInt8 := 0x02
def rtfsInlineDentry : UInt8 := 0x04
def rtfsNameLen : Nat := 255
def rtfsFtDir : UInt8 := 2

inductive Errno
  | einval
  | eio
  | enospc
  | enoent
  | enotdir
  | eisdir
  | enametoolong
  | eexist
  | enotempty
  | enotsup
  | ebusy
  | enosys
  | enomem
  deriving DecidableEq, Repr

structure RtfsNatEntry where
  ino : UInt32
  blockAddr : UInt32
  deriving DecidableEq

structure RtfsSitEntry where
  vblocks : UInt32
  validMap : Buf 64
  deriving DecidableEq

def natEntryCodec : Codec RtfsNatEntry :=
  (Codec.u32.pair Codec.u32).iso (fun p => ⟨p.1,p.2⟩) (fun e => (e.ino,e.blockAddr)) (fun _ => rfl)

def sitEntryCodec : Codec RtfsSitEntry :=
  (Codec.u32.pair (Codec.buf 64)).iso (fun p => ⟨p.1,p.2⟩) (fun e => (e.vblocks,e.validMap))
    (fun _ => rfl)

@[simp] theorem natEntryCodec_size : natEntryCodec.size = 8 := rfl
@[simp] theorem sitEntryCodec_size : sitEntryCodec.size = 68 := rfl

def u32At (b : Block) (off : Nat) : UInt32 := Buf.getAs Codec.u32 b off
def u16At (b : Block) (off : Nat) : UInt16 := Buf.getAs Codec.u16 b off
def setU32 (b : Block) (off : Nat) (v : UInt32) : Block := Buf.setAs Codec.u32 b off v
def setU16 (b : Block) (off : Nat) (v : UInt16) : Block := Buf.setAs Codec.u16 b off v

theorem u32At_zero (off : Nat) : u32At (Buf.zero : Block) off = 0 := by
  have hread : (Buf.zero : Block).read off 4 = List.replicate 4 0 :=
    List.map_eq_replicate_iff.mpr (fun _ _ => Buf.get_zero _)
  unfold u32At Buf.getAs
  rw [show Codec.u32.size = 4 from rfl,hread]
  rfl

theorem u32At_setU32_self (b : Block) (off : Nat) (v : UInt32) (h : off + 4 ≤ 4096) :
    u32At (setU32 b off v) off = v := Buf.getAs_setAs_self Codec.u32 b off v h

theorem u32At_setU32_ne (b : Block) (off off' : Nat) (v : UInt32)
    (h : off' + 4 ≤ off ∨ off + 4 ≤ off') : u32At (setU32 b off v) off' = u32At b off' :=
  Buf.getAs_setAs_disjoint Codec.u32 Codec.u32 b off off' v h

theorem u32At_setU32 (b : Block) {off off' : Nat} (v : UInt32) (h : off + 4 ≤ 4096)
    (ha : 4 ∣ off) (ha' : 4 ∣ off') :
    u32At (setU32 b off v) off' = if off' = off then v else u32At b off' := by
  split
  · rename_i he
    subst he
    exact u32At_setU32_self b off' v h
  · rename_i hne
    apply u32At_setU32_ne
    obtain ⟨i,rfl⟩ := ha
    obtain ⟨k,rfl⟩ := ha'
    omega

theorem u32At_setU16_ne (b : Block) (off off' : Nat) (v : UInt16)
    (h : off' + 4 ≤ off ∨ off + 2 ≤ off') : u32At (setU16 b off v) off' = u32At b off' :=
  Buf.getAs_setAs_disjoint Codec.u16 Codec.u32 b off off' v h

def natEntryAt (b : Block) (i : Nat) : RtfsNatEntry := Buf.getAs natEntryCodec b (8 * i)
def setNatEntry (b : Block) (i : Nat) (e : RtfsNatEntry) : Block := Buf.setAs natEntryCodec b (8 * i) e
def sitEntryAt (b : Block) (i : Nat) : RtfsSitEntry := Buf.getAs sitEntryCodec b (68 * i)
def setSitEntry (b : Block) (i : Nat) (e : RtfsSitEntry) : Block := Buf.setAs sitEntryCodec b (68 * i) e

theorem natEntryAt_set_self (b : Block) {i : Nat} (hi : i < natEntryPerBlock) (e : RtfsNatEntry) :
    natEntryAt (setNatEntry b i e) i = e := by
  apply Buf.getAs_setAs_self
  change 8 * i + 8 ≤ 4096
  unfold natEntryPerBlock at hi
  omega

theorem natEntryAt_set_ne (b : Block) {i k : Nat} (hik : k ≠ i) (e : RtfsNatEntry) :
    natEntryAt (setNatEntry b i e) k = natEntryAt b k := by
  apply Buf.getAs_setAs_disjoint
  change 8 * k + 8 ≤ 8 * i ∨ 8 * i + 8 ≤ 8 * k
  omega

theorem sitEntryAt_set_self (b : Block) {i : Nat} (hi : i < sitEntryPerBlock) (e : RtfsSitEntry) :
    sitEntryAt (setSitEntry b i e) i = e := by
  apply Buf.getAs_setAs_self
  change 68 * i + 68 ≤ 4096
  unfold sitEntryPerBlock at hi
  omega

theorem sitEntryAt_set_ne (b : Block) {i k : Nat} (hik : k ≠ i) (e : RtfsSitEntry) :
    sitEntryAt (setSitEntry b i e) k = sitEntryAt b k := by
  apply Buf.getAs_setAs_disjoint
  change 68 * k + 68 ≤ 68 * i ∨ 68 * i + 68 ≤ 68 * k
  omega

namespace RtfsSuperBlock

def blockCountOff : Nat := 24
def segmentCountOff : Nat := 32
def segmentCountSitOff : Nat := 36
def segmentCountNatOff : Nat := 40
def segmentCountSrmapOff : Nat := 44
def segmentCountMetaJournalOff : Nat := 48
def segmentCountMainOff : Nat := 52
def segment0BlkaddrOff : Nat := 56
def sitBlkaddrOff : Nat := 60
def natBlkaddrOff : Nat := 64
def srmapBlkaddrOff : Nat := 68
def metaJournalBlkaddrOff : Nat := 72
def mainBlkaddrOff : Nat := 76
def rootInoOff : Nat := 80
def nodeInoOff : Nat := 84
def metaInoOff : Nat := 88
def firstFreeSegmentIdOff : Nat := 92
def firstDataSegmentIdOff : Nat := 96
def firstNodeSegmentIdOff : Nat := 100
def currentDataSegmentIdOff : Nat := 104
def currentDataSegmentBlkoffOff : Nat := 108
def currentNodeSegmentIdOff : Nat := 112
def currentNodeSegmentBlkoffOff : Nat := 116
def metaJournalStartBlkoffOff : Nat := 120
def metaJournalEndBlkoffOff : Nat := 122
def freeSegmentCountOff : Nat := 124
def nextFreeNidOff : Nat := 128

variable (sb : Block)

def magic : UInt32 := u32At sb 0
def blockCount : Nat := (u32At sb blockCountOff).toNat + 4294967296 * (u32At sb (blockCountOff + 4)).toNat
def segmentCountSit : UInt32 := u32At sb segmentCountSitOff
def segmentCountNat : UInt32 := u32At sb segmentCountNatOff
def segmentCountMetaJournal : UInt32 := u32At sb segmentCountMetaJournalOff
def sitBlkaddr : UInt32 := u32At sb sitBlkaddrOff
def natBlkaddr : UInt32 := u32At sb natBlkaddrOff
def metaJournalBlkaddr : UInt32 := u32At sb metaJournalBlkaddrOff
def mainBlkaddr : UInt32 := u32At sb mainBlkaddrOff
def metaJournalStartBlkoff : UInt16 := u16At sb metaJournalStartBlkoffOff
def metaJournalEndBlkoff : UInt16 := u16At sb metaJournalEndBlkoffOff

end RtfsSuperBlock

end Rtfs
