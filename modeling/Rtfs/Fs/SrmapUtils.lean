import Rtfs.Fs.Mkfs

namespace Rtfs

structure RtfsSummary where
  nid : UInt32
  ofsInNode : UInt32
  deriving DecidableEq

abbrev RtfsSummaryBlock := Nat → RtfsSummary

-- area holds the summary blocks that are on the device
structure SrmapUtils where
  srmapStartLpa : UInt32
  srmapCache : UInt32 → Option RtfsSummaryBlock
  dirtyBlks : List UInt32
  area : UInt32 → RtfsSummaryBlock

namespace SrmapUtils

def init (srmapStartLpa : UInt32) (area : UInt32 → RtfsSummaryBlock) : SrmapUtils :=
  ⟨srmapStartLpa,fun _ => none,[],area⟩

variable (u : SrmapUtils)

def blkLpa (lpa : UInt32) : UInt32 := u.srmapStartLpa + lpa / 512

def idx (lpa : UInt32) : Nat := lpa.toNat % entriesInSum

def getSrmapBlk (blk : UInt32) : RtfsSummaryBlock := (u.srmapCache blk).getD (u.area blk)

def setEntry (lpa : UInt32) (f : RtfsSummary → RtfsSummary) : SrmapUtils :=
  let blk := u.blkLpa lpa
  let b := u.getSrmapBlk blk
  { u with
    srmapCache := Function.update u.srmapCache blk (some (Function.update b (idx lpa) (f (b (idx lpa)))))
    dirtyBlks := if blk ∈ u.dirtyBlks then u.dirtyBlks else u.dirtyBlks ++ [blk] }

def writeSrmapOfData (dataLpa ino blkoff : UInt32) : SrmapUtils :=
  u.setEntry dataLpa (fun _ => ⟨ino,blkoff⟩)

def writeSrmapOfNode (nodeLpa nid : UInt32) : SrmapUtils :=
  u.setEntry nodeLpa (fun e => ⟨nid,e.ofsInNode⟩)

-- the dirty set is written again at every later call
def writeDirtySrmapSync : SrmapUtils :=
  { u with area := fun blk => if blk ∈ u.dirtyBlks then u.getSrmapBlk blk else u.area blk }

inductive SrmapCall
  | data (dataLpa ino blkoff : UInt32)
  | node (nodeLpa nid : UInt32)
  | sync

def call : SrmapCall → SrmapUtils
  | .data dataLpa ino blkoff => u.writeSrmapOfData dataLpa ino blkoff
  | .node nodeLpa nid => u.writeSrmapOfNode nodeLpa nid
  | .sync => u.writeDirtySrmapSync

def SrmapCall.record (owners : UInt32 → RtfsSummary) : SrmapCall → UInt32 → RtfsSummary
  | .data dataLpa ino blkoff => Function.update owners dataLpa ⟨ino,blkoff⟩
  | .node nodeLpa nid => Function.update owners nodeLpa { owners nodeLpa with nid := nid }
  | .sync => owners

def ownerIn (area : UInt32 → RtfsSummaryBlock) (lpa : UInt32) : RtfsSummary := area (u.blkLpa lpa) (idx lpa)

structure Shows (owners : UInt32 → RtfsSummary) : Prop where
  owner : ∀ lpa, u.ownerIn u.getSrmapBlk lpa = owners lpa
  cached : ∀ blk ∈ u.dirtyBlks, u.srmapCache blk ≠ none
  clean : ∀ blk, blk ∉ u.dirtyBlks → u.getSrmapBlk blk = u.area blk

variable {u} {owners : UInt32 → RtfsSummary}

theorem lpa_eq_of_pos {a b : UInt32} (hblk : u.blkLpa a = u.blkLpa b) (hidx : idx a = idx b) : a = b := by
  have hdiv : a / 512 = b / 512 := by
    have hcancel := congrArg (fun x => x - u.srmapStartLpa) hblk
    simpa only [blkLpa,UInt32.add_comm u.srmapStartLpa,UInt32.add_sub_cancel] using hcancel
  have hquot := congrArg UInt32.toNat hdiv
  rw [UInt32.toNat_div,UInt32.toNat_div] at hquot
  change a.toNat / 512 = b.toNat / 512 at hquot
  change a.toNat % 512 = b.toNat % 512 at hidx
  exact UInt32.toNat_inj.mp (by omega)

theorem getSrmapBlk_setEntry (lpa : UInt32) (f : RtfsSummary → RtfsSummary) (blk : UInt32) :
    (u.setEntry lpa f).getSrmapBlk blk = if blk = u.blkLpa lpa then
      Function.update (u.getSrmapBlk blk) (idx lpa) (f (u.ownerIn u.getSrmapBlk lpa)) else u.getSrmapBlk blk := by
  unfold setEntry getSrmapBlk
  dsimp only
  by_cases h : blk = u.blkLpa lpa
  · subst h
    rw [Function.update_self,if_pos rfl]
    rfl
  · rw [Function.update_of_ne h,if_neg h]

theorem Shows.setEntry (h : u.Shows owners) (lpa : UInt32) (f : RtfsSummary → RtfsSummary) :
    (u.setEntry lpa f).Shows (Function.update owners lpa (f (owners lpa))) := by
  have hdirty : ∀ blk, blk ∈ (u.setEntry lpa f).dirtyBlks ↔ blk = u.blkLpa lpa ∨ blk ∈ u.dirtyBlks := by
    intro blk
    unfold SrmapUtils.setEntry
    dsimp only
    split
    · rename_i hin
      exact ⟨.inr,fun hor => hor.elim (fun he => he ▸ hin) id⟩
    · rw [List.mem_append,List.mem_singleton,or_comm]
  refine ⟨fun k => ?_,fun blk hblk => ?_,fun blk hblk => ?_⟩
  · change (u.setEntry lpa f).getSrmapBlk (u.blkLpa k) (idx k) = _
    rw [getSrmapBlk_setEntry,← h.owner lpa]
    by_cases hk : k = lpa
    · subst hk
      rw [if_pos rfl,Function.update_self,Function.update_self]
    · rw [Function.update_of_ne hk,← h.owner k]
      split
      · rename_i hb
        exact Function.update_of_ne (fun hi => hk (lpa_eq_of_pos hb hi)) ..
      · rfl
  · unfold SrmapUtils.setEntry
    dsimp only
    by_cases he : blk = u.blkLpa lpa
    · rw [he,Function.update_self]
      exact Option.some_ne_none _
    · rw [Function.update_of_ne he]
      exact h.cached blk (((hdirty blk).mp hblk).resolve_left he)
  · rw [hdirty] at hblk
    rw [getSrmapBlk_setEntry,if_neg (fun he => hblk (.inl he))]
    exact h.clean blk (fun hd => hblk (.inr hd))

theorem Shows.synced (h : u.Shows owners) : u.writeDirtySrmapSync.area = u.getSrmapBlk := by
  funext blk
  change (if blk ∈ u.dirtyBlks then u.getSrmapBlk blk else u.area blk) = _
  split
  · rfl
  · rename_i hn
    exact (h.clean blk hn).symm

theorem Shows.sync (h : u.Shows owners) : u.writeDirtySrmapSync.Shows owners := by
  have hblk : u.writeDirtySrmapSync.getSrmapBlk = u.getSrmapBlk := by
    funext blk
    change (u.srmapCache blk).getD (u.writeDirtySrmapSync.area blk) = _
    rw [h.synced]
    unfold getSrmapBlk
    cases u.srmapCache blk with
    | none => rfl
    | some b => rfl
  refine ⟨fun lpa => ?_,h.cached,fun blk _ => ?_⟩
  · rw [hblk]
    exact h.owner lpa
  · rw [hblk,h.synced]

theorem Shows.call (h : u.Shows owners) (c : SrmapCall) : (u.call c).Shows (c.record owners) := by
  cases c with
  | data dataLpa ino blkoff => exact h.setEntry dataLpa (fun _ => ⟨ino,blkoff⟩)
  | node nodeLpa nid => exact h.setEntry nodeLpa (fun e => ⟨nid,e.ofsInNode⟩)
  | sync => exact h.sync

theorem Shows.calls (h : u.Shows owners) (cs : List SrmapCall) :
    (cs.foldl SrmapUtils.call u).Shows (cs.foldl SrmapCall.record owners) := by
  induction cs generalizing u owners with
  | nil => exact h
  | cons c cs ih => exact ih (h.call c)

theorem call_start (c : SrmapCall) : (u.call c).srmapStartLpa = u.srmapStartLpa := by
  cases c with
  | data => rfl
  | node => rfl
  | sync => rfl

theorem calls_start (cs : List SrmapCall) : (cs.foldl SrmapUtils.call u).srmapStartLpa = u.srmapStartLpa := by
  induction cs generalizing u with
  | nil => rfl
  | cons c cs ih => exact ih.trans (call_start c)

theorem init_shows (srmapStartLpa : UInt32) (area : UInt32 → RtfsSummaryBlock) :
    (init srmapStartLpa area).Shows ((init srmapStartLpa area).ownerIn area) :=
  ⟨fun _ => rfl,fun _ h => absurd h List.not_mem_nil,fun _ _ => rfl⟩

theorem synced_owners (srmapStartLpa : UInt32) (area : UInt32 → RtfsSummaryBlock) (cs : List SrmapCall) :
    (init srmapStartLpa area).ownerIn (cs.foldl SrmapUtils.call (init srmapStartLpa area)).writeDirtySrmapSync.area =
      cs.foldl SrmapCall.record ((init srmapStartLpa area).ownerIn area) := by
  have h := (init_shows srmapStartLpa area).calls cs
  funext lpa
  rw [h.synced,← h.owner lpa,ownerIn,ownerIn,blkLpa,blkLpa,calls_start]

end SrmapUtils

end Rtfs
