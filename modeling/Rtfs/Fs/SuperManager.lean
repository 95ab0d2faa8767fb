import Rtfs.Fs.SitEntry
import Rtfs.Journal.Types

namespace Rtfs

structure FsMeta where
  superBlock : Block
  nat : UInt32 → RtfsNatEntry
  sit : UInt32 → RtfsSitEntry
  curJournal : JournalContainer

namespace FsMeta
variable (m : FsMeta)

def field (off : Nat) : UInt32 := u32At m.superBlock off

def setField (off : Nat) (v : UInt32) : FsMeta := { m with superBlock := setU32 m.superBlock off v }

def setNat (nid : UInt32) (e : RtfsNatEntry) : FsMeta := { m with nat := Function.update m.nat nid e }

def setSit (segId : UInt32) (e : RtfsSitEntry) : FsMeta :=
  { m with sit := Function.update m.sit segId e }

def journalField (off : Nat) : FsMeta :=
  { m with curJournal := m.curJournal.appendSuperBlockJournalEntry ⟨UInt32.ofNat off,m.field off⟩ }

def journalNat (nid : UInt32) : FsMeta :=
  { m with curJournal := m.curJournal.appendNatJournalEntry ⟨nid,m.nat nid⟩ }

def journalSit (segId : UInt32) : FsMeta :=
  { m with curJournal := m.curJournal.appendSitJournalEntry ⟨segId,m.sit segId⟩ }

theorem field_setField {off off' : Nat} (v : UInt32) (h : off + 4 ≤ 4096) (ha : 4 ∣ off)
    (ha' : 4 ∣ off') : (m.setField off v).field off' = if off' = off then v else m.field off' :=
  u32At_setU32 m.superBlock v h ha ha'

@[simp] theorem nat_setField (off : Nat) (v : UInt32) : (m.setField off v).nat = m.nat := rfl
@[simp] theorem sit_setField (off : Nat) (v : UInt32) : (m.setField off v).sit = m.sit := rfl
@[simp] theorem field_setNat (nid : UInt32) (e : RtfsNatEntry) (off : Nat) :
    (m.setNat nid e).field off = m.field off := rfl
@[simp] theorem field_setSit (segId : UInt32) (e : RtfsSitEntry) (off : Nat) :
    (m.setSit segId e).field off = m.field off := rfl
@[simp] theorem field_journalField (off off' : Nat) :
    (m.journalField off).field off' = m.field off' := rfl
@[simp] theorem nat_journalField (off : Nat) : (m.journalField off).nat = m.nat := rfl
@[simp] theorem sit_journalField (off : Nat) : (m.journalField off).sit = m.sit := rfl
@[simp] theorem field_journalNat (nid : UInt32) (off : Nat) :
    (m.journalNat nid).field off = m.field off := rfl
@[simp] theorem nat_journalNat (nid : UInt32) : (m.journalNat nid).nat = m.nat := rfl
@[simp] theorem field_journalSit (segId : UInt32) (off : Nat) :
    (m.journalSit segId).field off = m.field off := rfl
@[simp] theorem sit_journalSit (segId : UInt32) : (m.journalSit segId).sit = m.sit := rfl

end FsMeta

open RtfsSuperBlock

def natHoldsNid (m : FsMeta) (nid : UInt32) : Prop := nid / 512 < m.field segmentCountNatOff * 512

instance (m : FsMeta) (nid : UInt32) : Decidable (natHoldsNid m nid) :=
  inferInstanceAs (Decidable (nid / 512 < m.field segmentCountNatOff * 512))

def superManagerAllocNid (m : FsMeta) (ino : UInt32) (isInode : Bool) : Option (UInt32 × FsMeta) :=
  let nid := m.field nextFreeNidOff
  if nid = invalidNid then some (invalidNid,m)
  else if ¬ natHoldsNid m nid then none
  else if (m.nat nid).blockAddr = invalidLpa then some (invalidNid,m)
  else
    let m1 := m.setField nextFreeNidOff (m.nat nid).blockAddr
    let m2 := m1.setNat nid ⟨if isInode then nid else ino,invalidLpa⟩
    some (nid,m2.journalField nextFreeNidOff)

def superManagerFreeNid (m : FsMeta) (nid : UInt32) : Option FsMeta :=
  if ¬ natHoldsNid m nid then none
  else
    let m1 := m.setNat nid ⟨invalidNid,m.field nextFreeNidOff⟩
    some ((m1.setField nextFreeNidOff nid).journalField nextFreeNidOff)

def natSetLpaOfNid (m : FsMeta) (nid newLpa : UInt32) : Option FsMeta :=
  if ¬ natHoldsNid m nid then none
  else some ((m.setNat nid ⟨(m.nat nid).ino,newLpa⟩).journalNat nid)

def natGetLpaOfNid (m : FsMeta) (nid : UInt32) : Option UInt32 :=
  if ¬ natHoldsNid m nid then none else some (m.nat nid).blockAddr

namespace RtfsSitEntry

def changeBit (valid : Bool) (e : RtfsSitEntry) (off : Nat) : RtfsSitEntry :=
  if valid then ⟨e.incVblocks,Bitmap.set e.validMap off⟩
  else ⟨e.decVblocks,Bitmap.clear e.validMap off⟩

def changeBits (valid : Bool) (e : RtfsSitEntry) (off : Nat) : Nat → Option RtfsSitEntry
  | 0 => some e
  | n + 1 => if e.isValid off = valid then none else changeBits valid (changeBit valid e off) (off + 1) n

end RtfsSitEntry

def changeSegments (valid : Bool) (m : FsMeta) (curLpa : UInt32) (count : Nat) : Option FsMeta :=
  if count = 0 then some m
  else
    let lpaSeg0Off := curLpa - m.field segment0BlkaddrOff
    let segId := lpaSeg0Off / 512
    let segOff := (lpaSeg0Off % 512).toNat
    let segCount := min (512 - segOff) count
    match (m.sit segId).changeBits valid segOff segCount with
    | none => none
    | some e =>
      changeSegments valid ((m.setSit segId e).journalSit segId) (curLpa + UInt32.ofNat segCount)
        (count - segCount)
termination_by count
decreasing_by
  have h := Nat.mod_lt (curLpa - m.field segment0BlkaddrOff).toNat (show 0 < 512 by decide)
  have h' : ((curLpa - m.field segment0BlkaddrOff) % 512).toNat =
      (curLpa - m.field segment0BlkaddrOff).toNat % 512 := UInt32.toNat_mod _ _
  omega

def sitChangeLpaStateRange (m : FsMeta) (startLpa count : UInt32) (valid : Bool) : Option FsMeta :=
  if startLpa = invalidLpa ∨ count = 0 then some m else changeSegments valid m startLpa count.toNat

def sitValidateLpaRange (m : FsMeta) (startLpa count : UInt32) : Option FsMeta :=
  sitChangeLpaStateRange m startLpa count true

def sitInvalidateLpa (m : FsMeta) (lpa : UInt32) : Option FsMeta :=
  sitChangeLpaStateRange m lpa 1 false

def sitGetFirstLpaOfSegId (m : FsMeta) (segId : UInt32) : UInt32 :=
  m.field segment0BlkaddrOff + segId * 512

def sitHoldsSegId (m : FsMeta) (segId : UInt32) : Prop :=
  segId / 60 < m.field segmentCountSitOff * 512

instance (m : FsMeta) (segId : UInt32) : Decidable (sitHoldsSegId m segId) :=
  inferInstanceAs (Decidable (segId / 60 < m.field segmentCountSitOff * 512))

def superManagerAllocSegment (m : FsMeta) : Option (UInt32 × FsMeta) :=
  if m.field freeSegmentCountOff = 0 then some (invalidSegid,m)
  else
    let segId := m.field firstFreeSegmentIdOff
    if ¬ sitHoldsSegId m segId then none
    else
      let m1 := m.setField firstFreeSegmentIdOff (m.sit segId).nextSeg
      let m2 := m1.setField freeSegmentCountOff (m1.field freeSegmentCountOff - 1)
      some (segId,(m2.journalField firstFreeSegmentIdOff).journalField freeSegmentCountOff)

inductive LpaArea
  | node
  | data
  deriving DecidableEq

def LpaArea.segIdOff : LpaArea → Nat
  | .node => currentNodeSegmentIdOff
  | .data => currentDataSegmentIdOff

def LpaArea.segBlkoffOff : LpaArea → Nat
  | .node => currentNodeSegmentBlkoffOff
  | .data => currentDataSegmentBlkoffOff

def openSegment (m : FsMeta) (ctx : LpaArea) (segId : UInt32) : FsMeta :=
  let m1 := (m.setField ctx.segIdOff segId).setField ctx.segBlkoffOff 0
  (m1.journalField ctx.segIdOff).journalField ctx.segBlkoffOff

def nextSegment (m : FsMeta) (ctx : LpaArea) : Option (Bool × FsMeta) :=
  if m.field ctx.segBlkoffOff < 512 then some (true,m)
  else
    match superManagerAllocSegment m with
    | none => none
    | some (newSegId,m') =>
      if newSegId = invalidSegid then some (false,m') else some (true,openSegment m' ctx newSegId)

def takeBlocks (m : FsMeta) (ctx : LpaArea) (requestedCount : UInt32) :
    Option (UInt32 × UInt32 × FsMeta) :=
  let curSegOff := m.field ctx.segBlkoffOff
  let allocCount := if requestedCount < 512 - curSegOff then requestedCount else 512 - curSegOff
  let lpa := sitGetFirstLpaOfSegId m (m.field ctx.segIdOff) + curSegOff
  let m1 := (m.setField ctx.segBlkoffOff (curSegOff + allocCount)).journalField ctx.segBlkoffOff
  match sitValidateLpaRange m1 lpa allocCount with
  | none => none
  | some m2 => some (lpa,allocCount,m2)

def superManagerAllocLpaRangeInner (m : FsMeta) (ctx : LpaArea) (requestedCount : UInt32) :
    Option (UInt32 × UInt32 × FsMeta) :=
  if requestedCount = 0 then some (invalidLpa,0,m)
  else
    match nextSegment m ctx with
    | none => none
    | some (false,m') => some (invalidLpa,0,m')
    | some (true,m') => takeBlocks m' ctx requestedCount

def superManagerAllocNodeLpa (m : FsMeta) : Option (UInt32 × FsMeta) :=
  (superManagerAllocLpaRangeInner m .node 1).map (fun r => (r.1,r.2.2))

def superManagerAllocDataLpa (m : FsMeta) : Option (UInt32 × FsMeta) :=
  (superManagerAllocLpaRangeInner m .data 1).map (fun r => (r.1,r.2.2))

def superManagerAllocDataLpaRange (m : FsMeta) (requestedCount : UInt32) :
    Option (UInt32 × UInt32 × FsMeta) :=
  superManagerAllocLpaRangeInner m .data requestedCount

end Rtfs
