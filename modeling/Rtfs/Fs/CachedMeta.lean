import Rtfs.Cache.SitNatCache
import Rtfs.Fs.MetaImage
import Rtfs.Lib.EntryTable

namespace Rtfs

open RtfsSuperBlock

def natTable : EntryTable Block RtfsNatEntry where
  perBlock := 512
  pos := by decide
  get := natEntryAt
  set := setNatEntry
  get_set_self := fun b _ e hi => natEntryAt_set_self b hi e
  get_set_ne := fun b _ _ e hne => natEntryAt_set_ne b hne e

def sitTable : EntryTable Block RtfsSitEntry where
  perBlock := 60
  pos := by decide
  get := sitEntryAt
  set := setSitEntry
  get_set_self := fun b _ e hi => sitEntryAt_set_self b hi e
  get_set_ne := fun b _ _ e hne => sitEntryAt_set_ne b hne e

structure CachedMeta where
  superBlock : Block
  natCache : SitNatCache
  sitCache : SitNatCache
  dev : CommDev
  curJournal : JournalContainer

namespace CachedMeta

def cacheExpectSize : Nat := 100

def mount (d : CommDev) : CachedMeta :=
  ⟨d.blocks 0,SitNatCache.init cacheExpectSize,SitNatCache.init cacheExpectSize,d,JournalContainer.init⟩

variable (s : CachedMeta)

def natHolds (nid : UInt32) : Prop := nid / 512 < u32At s.superBlock segmentCountNatOff * 512

instance (nid : UInt32) : Decidable (s.natHolds nid) :=
  inferInstanceAs (Decidable (nid / 512 < u32At s.superBlock segmentCountNatOff * 512))

def natLpa (nid : UInt32) : UInt32 := natTable.blockOf (natBlkaddr s.superBlock) nid

def sitLpa (segId : UInt32) : UInt32 := sitTable.blockOf (sitBlkaddr s.superBlock) segId

def natEntryIn (c : SitNatCache) (nid : UInt32) : RtfsNatEntry :=
  natEntryAt (c.content s.dev (s.natLpa nid)) (natTable.indexOf nid)

def setNatEntryIn (c : SitNatCache) (nid : UInt32) (e : RtfsNatEntry) : SitNatCache :=
  c.writeBlock (s.natLpa nid)
    (setNatEntry (c.content s.dev (s.natLpa nid)) (natTable.indexOf nid) e)

def journalNextFree (sb : Block) : JournalContainer :=
  s.curJournal.appendSuperBlockJournalEntry ⟨UInt32.ofNat nextFreeNidOff,u32At sb nextFreeNidOff⟩

def superManagerAllocNid (ino : UInt32) (isInode : Bool) : Option (UInt32 × CachedMeta) :=
  let nid := u32At s.superBlock nextFreeNidOff
  if nid = invalidNid then some (invalidNid,s)
  else if ¬ s.natHolds nid then none
  else
    (s.natCache.get s.dev (s.natLpa nid)).bind (fun c =>
      if (s.natEntryIn c nid).blockAddr = invalidLpa then
        (c.handleDestroy (s.natLpa nid)).map (fun c' => (invalidNid,{ s with natCache := c' }))
      else
        let sb := setU32 s.superBlock nextFreeNidOff (s.natEntryIn c nid).blockAddr
        let c1 := s.setNatEntryIn c nid ⟨if isInode then nid else ino,invalidLpa⟩
        (c1.handleDestroy (s.natLpa nid)).map (fun c' => (nid,
          { s with superBlock := sb, natCache := c', curJournal := s.journalNextFree sb })))

def superManagerFreeNid (nid : UInt32) : Option CachedMeta :=
  if ¬ s.natHolds nid then none
  else
    (s.natCache.get s.dev (s.natLpa nid)).bind (fun c =>
      let c1 := s.setNatEntryIn c nid ⟨invalidNid,u32At s.superBlock nextFreeNidOff⟩
      let sb := setU32 s.superBlock nextFreeNidOff nid
      (c1.handleDestroy (s.natLpa nid)).map (fun c' =>
        { s with superBlock := sb, natCache := c', curJournal := s.journalNextFree sb }))

def natGetLpaOfNid (nid : UInt32) : Option (UInt32 × CachedMeta) :=
  if ¬ s.natHolds nid then none
  else
    (s.natCache.get s.dev (s.natLpa nid)).map (fun c =>
      ((s.natEntryIn c nid).blockAddr,{ s with natCache := c }))

def natSetLpaOfNid (nid newLpa : UInt32) : Option CachedMeta :=
  if ¬ s.natHolds nid then none
  else
    (s.natCache.get s.dev (s.natLpa nid)).bind (fun c =>
      let newValue : RtfsNatEntry := ⟨(s.natEntryIn c nid).ino,newLpa⟩
      let c1 := (s.setNatEntryIn c nid newValue).handleAddHostVersion (s.natLpa nid)
      (c1.handleDestroy (s.natLpa nid)).map (fun c' =>
        { s with natCache := c', curJournal := s.curJournal.appendNatJournalEntry ⟨nid,newValue⟩ }))

def changeSegment (valid : Bool) (segId : UInt32) (segOff segCount : Nat) : Option CachedMeta :=
  (s.sitCache.get s.dev (s.sitLpa segId)).bind (fun c =>
    let b := c.content s.dev (s.sitLpa segId)
    match (sitEntryAt b (sitTable.indexOf segId)).changeBits valid segOff segCount with
    | none => none
    | some e =>
      let c1 := c.writeBlock (s.sitLpa segId) (setSitEntry b (sitTable.indexOf segId) e)
      ((c1.handleAddHostVersion (s.sitLpa segId)).handleDestroy (s.sitLpa segId)).map (fun c' =>
        { s with sitCache := c', curJournal := s.curJournal.appendSitJournalEntry ⟨segId,e⟩ }))

def changeSegments (valid : Bool) (s : CachedMeta) (curLpa : UInt32) (count : Nat) :
    Option CachedMeta :=
  if count = 0 then some s
  else
    let lpaSeg0Off := curLpa - u32At s.superBlock segment0BlkaddrOff
    let segOff := (lpaSeg0Off % 512).toNat
    let segCount := min (512 - segOff) count
    match s.changeSegment valid (lpaSeg0Off / 512) segOff segCount with
    | none => none
    | some s' => changeSegments valid s' (curLpa + UInt32.ofNat segCount) (count - segCount)
termination_by count
decreasing_by
  have h := Nat.mod_lt (curLpa - u32At s.superBlock segment0BlkaddrOff).toNat (show 0 < 512 by decide)
  have h' : ((curLpa - u32At s.superBlock segment0BlkaddrOff) % 512).toNat =
      (curLpa - u32At s.superBlock segment0BlkaddrOff).toNat % 512 := UInt32.toNat_mod _ _
  omega

def sitChangeLpaStateRange (startLpa count : UInt32) (valid : Bool) : Option CachedMeta :=
  if startLpa = invalidLpa ∨ count = 0 then some s else changeSegments valid s startLpa count.toNat

end CachedMeta

inductive MetaOp
  | allocNid (ino : UInt32) (isInode : Bool)
  | freeNid (nid : UInt32)
  | getLpa (nid : UInt32)
  | setLpa (nid lpa : UInt32)
  | changeRange (startLpa count : UInt32) (valid : Bool)

def metaStep (m : FsMeta) : MetaOp → Option (UInt32 × FsMeta)
  | .allocNid ino isInode => superManagerAllocNid m ino isInode
  | .freeNid nid => (superManagerFreeNid m nid).map (fun m' => (0,m'))
  | .getLpa nid => (natGetLpaOfNid m nid).map (fun lpa => (lpa,m))
  | .setLpa nid lpa => (natSetLpaOfNid m nid lpa).map (fun m' => (0,m'))
  | .changeRange start count valid => (sitChangeLpaStateRange m start count valid).map (fun m' => (0,m'))

def cachedStep (s : CachedMeta) : MetaOp → Option (UInt32 × CachedMeta)
  | .allocNid ino isInode => s.superManagerAllocNid ino isInode
  | .freeNid nid => (s.superManagerFreeNid nid).map (fun s' => (0,s'))
  | .getLpa nid => s.natGetLpaOfNid nid
  | .setLpa nid lpa => (s.natSetLpaOfNid nid lpa).map (fun s' => (0,s'))
  | .changeRange start count valid => (s.sitChangeLpaStateRange start count valid).map (fun s' => (0,s'))

def runSteps {σ : Type} (step : σ → MetaOp → Option (UInt32 × σ)) : σ → List MetaOp →
    Option (List UInt32 × σ)
  | s,[] => some ([],s)
  | s,op :: ops =>
    (step s op).bind (fun r => (runSteps step r.2 ops).map (fun rs => (r.1 :: rs.1,rs.2)))

end Rtfs
