import Rtfs.Cache.StuckBlocks
import Rtfs.Fs.CacheLoss

namespace Rtfs

open RtfsSuperBlock Logged

namespace CachedMeta

variable (fuel : Nat) (s : CachedMeta)

def superManagerAllocNidRun (ino : UInt32) (isInode : Bool) : Logged CacheCall (UInt32 × CachedMeta) :=
  let nid := u32At s.superBlock nextFreeNidOff
  if nid = invalidNid then .done (invalidNid,s)
  else if ¬ s.natHolds nid then .abort
  else
    (s.natCache.getRun fuel s.dev .nat ⟨s.natLpa nid,.released⟩).bind (fun c =>
      if (s.natEntryIn c nid).blockAddr = invalidLpa then
        (c.handleDestroyRun fuel (s.natLpa nid)).map (fun c' => (invalidNid,{ s with natCache := c' }))
      else
        let sb := setU32 s.superBlock nextFreeNidOff (s.natEntryIn c nid).blockAddr
        let c1 := s.setNatEntryIn c nid ⟨if isInode then nid else ino,invalidLpa⟩
        (c1.handleDestroyRun fuel (s.natLpa nid)).map (fun c' => (nid,
          { s with superBlock := sb, natCache := c', curJournal := s.journalNextFree sb })))

def superManagerFreeNidRun (nid : UInt32) : Logged CacheCall CachedMeta :=
  if ¬ s.natHolds nid then .abort
  else
    (s.natCache.getRun fuel s.dev .nat ⟨s.natLpa nid,.released⟩).bind (fun c =>
      let c1 := s.setNatEntryIn c nid ⟨invalidNid,u32At s.superBlock nextFreeNidOff⟩
      let sb := setU32 s.superBlock nextFreeNidOff nid
      (c1.handleDestroyRun fuel (s.natLpa nid)).map (fun c' =>
        { s with superBlock := sb, natCache := c', curJournal := s.journalNextFree sb }))

def natGetLpaOfNidRun (nid : UInt32) : Logged CacheCall (UInt32 × CachedMeta) :=
  if ¬ s.natHolds nid then .abort
  else
    (s.natCache.getRun fuel s.dev .nat ⟨s.natLpa nid,.kept⟩).map (fun c =>
      ((s.natEntryIn c nid).blockAddr,{ s with natCache := c }))

def natSetLpaOfNidRun (nid newLpa : UInt32) : Logged CacheCall CachedMeta :=
  if ¬ s.natHolds nid then .abort
  else
    (s.natCache.getRun fuel s.dev .nat ⟨s.natLpa nid,.versioned⟩).bind (fun c =>
      let newValue : RtfsNatEntry := ⟨(s.natEntryIn c nid).ino,newLpa⟩
      let c1 := (s.setNatEntryIn c nid newValue).handleAddHostVersion (s.natLpa nid)
      (c1.handleDestroyRun fuel (s.natLpa nid)).map (fun c' =>
        { s with natCache := c', curJournal := s.curJournal.appendNatJournalEntry ⟨nid,newValue⟩ }))

def changeSegmentRun (valid : Bool) (segId : UInt32) (segOff segCount : Nat) : Logged CacheCall CachedMeta :=
  (s.sitCache.getRun fuel s.dev .sit ⟨s.sitLpa segId,.versioned⟩).bind (fun c =>
    let b := c.content s.dev (s.sitLpa segId)
    match (sitEntryAt b (sitTable.indexOf segId)).changeBits valid segOff segCount with
    | none => .abort
    | some e =>
      let c1 := c.writeBlock (s.sitLpa segId) (setSitEntry b (sitTable.indexOf segId) e)
      ((c1.handleAddHostVersion (s.sitLpa segId)).handleDestroyRun fuel (s.sitLpa segId)).map (fun c' =>
        { s with sitCache := c', curJournal := s.curJournal.appendSitJournalEntry ⟨segId,e⟩ }))

def changeSegmentsRun (valid : Bool) (s : CachedMeta) (curLpa : UInt32) (count : Nat) :
    Logged CacheCall CachedMeta :=
  if count = 0 then .done s
  else
    let lpaSeg0Off := curLpa - u32At s.superBlock segment0BlkaddrOff
    let segOff := (lpaSeg0Off % 512).toNat
    let segCount := min (512 - segOff) count
    (s.changeSegmentRun fuel valid (lpaSeg0Off / 512) segOff segCount).bind (fun s' =>
      changeSegmentsRun valid s' (curLpa + UInt32.ofNat segCount) (count - segCount))
termination_by count
decreasing_by
  have h := Nat.mod_lt (curLpa - u32At s.superBlock segment0BlkaddrOff).toNat (show 0 < 512 by decide)
  have h' : ((curLpa - u32At s.superBlock segment0BlkaddrOff) % 512).toNat =
      (curLpa - u32At s.superBlock segment0BlkaddrOff).toNat % 512 := UInt32.toNat_mod _ _
  omega

def sitChangeLpaStateRangeRun (startLpa count : UInt32) (valid : Bool) : Logged CacheCall CachedMeta :=
  if startLpa = invalidLpa ∨ count = 0 then .done s else changeSegmentsRun fuel valid s startLpa count.toNat

def rtfsStatvfsGetTotalFileSlots : Nat :=
  (u32At s.superBlock segmentCountNatOff).toNat * blockPerSegment * natEntryPerBlock - 1

def countFreeNids : Nat → CachedMeta → UInt32 → Logged CacheCall (Nat × CachedMeta)
  | 0, s, _ => .done (0,s)
  | left + 1, s, currentNid =>
    if currentNid = invalidNid then .done (0,s)
    else if ¬ s.natHolds currentNid then .abort
    else
      (s.natCache.getRun fuel s.dev .nat ⟨s.natLpa currentNid,.released⟩).bind (fun c =>
        let natEntry := s.natEntryIn c currentNid
        (c.handleDestroyRun fuel (s.natLpa currentNid)).bind (fun c' =>
          if natEntry.ino ≠ invalidNid then .done (0,{ s with natCache := c' })
          else if natEntry.blockAddr = currentNid then .done (1,{ s with natCache := c' })
          else (countFreeNids left { s with natCache := c' } natEntry.blockAddr).map
            (fun r => (r.1 + 1,r.2))))

def rtfsStatvfsCountFreeNids : Logged CacheCall (Nat × CachedMeta) :=
  countFreeNids fuel s.rtfsStatvfsGetTotalFileSlots s (u32At s.superBlock nextFreeNidOff)

end CachedMeta

inductive CacheOp
  | change (op : MetaOp)
  | statvfs

def metaOpRun (fuel : Nat) (s : CachedMeta) : MetaOp → Logged CacheCall CachedMeta
  | .allocNid ino isInode => (s.superManagerAllocNidRun fuel ino isInode).map Prod.snd
  | .freeNid nid => s.superManagerFreeNidRun fuel nid
  | .getLpa nid => (s.natGetLpaOfNidRun fuel nid).map Prod.snd
  | .setLpa nid lpa => s.natSetLpaOfNidRun fuel nid lpa
  | .changeRange start count valid => s.sitChangeLpaStateRangeRun fuel start count valid

def cacheStep (fuel : Nat) (s : CachedMeta) : CacheOp → Logged CacheCall CachedMeta
  | .change op => metaOpRun fuel s op
  | .statvfs => (s.rtfsStatvfsCountFreeNids fuel).map Prod.snd

def cacheRun (fuel : Nat) : CachedMeta → List CacheOp → Logged CacheCall CachedMeta
  | s,[] => .done s
  | s,op :: ops => (cacheStep fuel s op).bind (fun s' => cacheRun fuel s' ops)

namespace CachedMeta

section Result
variable (fuel : Nat) (s : CachedMeta)

theorem allocNid_result (ino : UInt32) (isInode : Bool) :
    (s.superManagerAllocNidRun (fuel + 1) ino isInode).result = s.superManagerAllocNid ino isInode := by
  unfold superManagerAllocNidRun superManagerAllocNid
  simp only
  split
  · rfl
  · split
    · rfl
    · rw [result_bind,SitNatCache.getRun_result]
      congr 1
      funext c
      split
      · rw [result_map,SitNatCache.handleDestroyRun_result]
      · rw [result_map,SitNatCache.handleDestroyRun_result]

theorem freeNid_result (nid : UInt32) :
    (s.superManagerFreeNidRun (fuel + 1) nid).result = s.superManagerFreeNid nid := by
  unfold superManagerFreeNidRun superManagerFreeNid
  split
  · rfl
  · rw [result_bind,SitNatCache.getRun_result]
    congr 1
    funext c
    rw [result_map,SitNatCache.handleDestroyRun_result]

theorem getLpa_result (nid : UInt32) :
    (s.natGetLpaOfNidRun (fuel + 1) nid).result = s.natGetLpaOfNid nid := by
  unfold natGetLpaOfNidRun natGetLpaOfNid
  split
  · rfl
  · rw [result_map,SitNatCache.getRun_result]

theorem setLpa_result (nid newLpa : UInt32) :
    (s.natSetLpaOfNidRun (fuel + 1) nid newLpa).result = s.natSetLpaOfNid nid newLpa := by
  unfold natSetLpaOfNidRun natSetLpaOfNid
  split
  · rfl
  · rw [result_bind,SitNatCache.getRun_result]
    congr 1
    funext c
    rw [result_map,SitNatCache.handleDestroyRun_result]

theorem changeSegment_result (valid : Bool) (segId : UInt32) (segOff segCount : Nat) :
    (s.changeSegmentRun (fuel + 1) valid segId segOff segCount).result =
      s.changeSegment valid segId segOff segCount := by
  unfold changeSegmentRun changeSegment
  rw [result_bind,SitNatCache.getRun_result]
  congr 1
  funext c
  simp only
  cases (sitEntryAt (c.content s.dev (s.sitLpa segId)) (sitTable.indexOf segId)).changeBits valid segOff
      segCount with
  | none => rfl
  | some e => exact (result_map _ _).trans (congrArg _ (SitNatCache.handleDestroyRun_result _ fuel _))

theorem changeSegments_result (valid : Bool) (curLpa : UInt32) (count : Nat) :
    (changeSegmentsRun (fuel + 1) valid s curLpa count).result = changeSegments valid s curLpa count := by
  induction s, curLpa, count using changeSegments.induct valid with
  | case1 s curLpa =>
    rw [changeSegmentsRun,changeSegments]
    rfl
  | case2 s curLpa count hz seg0 segOff segCount hn =>
    rw [changeSegmentsRun,changeSegments,if_neg hz,if_neg hz]
    simp only [seg0,segOff,segCount] at hn ⊢
    rw [result_bind,changeSegment_result,hn]
    rfl
  | case3 s curLpa count hz seg0 segOff segCount s' hs ih =>
    rw [changeSegmentsRun,changeSegments,if_neg hz,if_neg hz]
    simp only [seg0,segOff,segCount] at hs ih ⊢
    rw [result_bind,changeSegment_result,hs]
    exact ih

end Result

end CachedMeta

theorem metaOpRun_result (fuel : Nat) (s : CachedMeta) (op : MetaOp) :
    (metaOpRun (fuel + 1) s op).result = (cachedStep s op).map Prod.snd := by
  cases op with
  | allocNid ino isInode =>
    change ((s.superManagerAllocNidRun (fuel + 1) ino isInode).map Prod.snd).result = _
    rw [result_map,CachedMeta.allocNid_result]
    rfl
  | freeNid nid =>
    change (s.superManagerFreeNidRun (fuel + 1) nid).result = ((s.superManagerFreeNid nid).map _).map _
    rw [CachedMeta.freeNid_result,Option.map_map]
    exact Option.map_id'.symm
  | getLpa nid =>
    change ((s.natGetLpaOfNidRun (fuel + 1) nid).map Prod.snd).result = _
    rw [result_map,CachedMeta.getLpa_result]
    rfl
  | setLpa nid lpa =>
    change (s.natSetLpaOfNidRun (fuel + 1) nid lpa).result = ((s.natSetLpaOfNid nid lpa).map _).map _
    rw [CachedMeta.setLpa_result,Option.map_map]
    exact Option.map_id'.symm
  | changeRange start count valid =>
    change (s.sitChangeLpaStateRangeRun (fuel + 1) start count valid).result =
      ((s.sitChangeLpaStateRange start count valid).map _).map _
    rw [Option.map_map]
    refine Eq.trans ?_ Option.map_id'.symm
    unfold CachedMeta.sitChangeLpaStateRangeRun CachedMeta.sitChangeLpaStateRange
    split
    · rfl
    · exact CachedMeta.changeSegments_result fuel s valid start count.toNat

end Rtfs
