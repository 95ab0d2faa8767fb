import Rtfs.Fs.DirVolume
import Rtfs.Lib.Labelled
import Rtfs.Lib.Listing

namespace Rtfs

namespace DirEntries

open Listing

namespace Volume

-- rtfsValidateParentDir behind the check of the parent
def validateName (name : List UInt8) : Except Errno Unit :=
  if name.length = 0 then .error .einval
  else if rtfsNameLen < name.length then .error .enametoolong
  else if name = [46] ∨ name = [46,46] then .error .einval
  else .ok ()

def rtfsLookupNameInParent (img : DirImage) (fuel : Nat) (name : List UInt8) :
    Option (Except Errno RtfsDirLookupResult) :=
  match validateName name with
  | .error e => some (.error e)
  | .ok () => rtfsResolveNameInParent img fuel name

def rtfsNameExistsInParent (img : DirImage) (fuel : Nat) (name : List UInt8) : Option (Except Errno Bool) :=
  (rtfsLookupNameInParent img fuel name).map (fun r =>
    match r with
    | .ok _ => .ok true
    | .error e => if e = .enoent then .ok false else .error e)

-- a directory behind a handler: the addresses taken for it, those given to the reclaim registry and those of neither
structure Committed where
  img : DirImage
  taken : List UInt32
  returned : List UInt32
  lost : List UInt32

def attachedLpas (img : DirImage) (d : RtfsDirInode) : List UInt32 :=
  (d.loadedBlocks.filter (fun b => decide (sizeToBlock img.iSize ≤ b.blockIndex.toNat))).map RtfsLoadedDirBlock.lpa

def commitChanges (answers : CommitAnswers) (img : DirImage) (r : Except Errno Unit × RtfsDirInode) :
    Except Errno Committed :=
  r.1.bind (fun _ =>
    match img.updated r.2 with
    | none => .error .enospc
    | some updated => (rtfsDirInodeCommitCowWritebackWithTxId answers updated r.2).map (fun c =>
        ⟨c.2,attachedLpas img r.2 ++ answers.lpas.take (r.2.loadedBlocks.countP RtfsLoadedDirBlock.isDirty),c.1,[]⟩))

def failedChanges (answers : CommitAnswers) (img : DirImage) (r : Except Errno Unit × RtfsDirInode) :
    Option (Committed × Bool) :=
  match r.1 with
  | .error _ => none
  | .ok () => (img.updated r.2).bind (fun updated => (failedCommit answers updated r.2).map (fun f =>
      (⟨f.img,attachedLpas img r.2 ++ f.written,[],f.lost⟩,f.applied)))

section Handlers
variable (add : AddAnswers) (commit : CommitAnswers) (img : DirImage)

def rtfsAddNameToParent (name : List UInt8) (childIno : UInt64) (childType : UInt8) : Except Errno Committed :=
  if name = [] then .error .einval
  else (rtfsDirInodeResolve img).bind (fun d =>
    commitChanges commit img (rtfsDirInodeAddEntry d name childIno childType add))

def rtfsUnlinkFromParentAndCommit (name : List UInt8) : Except Errno Committed :=
  (rtfsDirInodeResolve img).bind (fun d => commitChanges commit img (rtfsDirInodeRemoveEntry d name))

-- rtfsAddNameToParent and rtfsUnlinkFromParentAndCommit up to a commit that fails
def failedAdd (name : List UInt8) (childIno : UInt64) (childType : UInt8) : Option (Committed × Bool) :=
  if name = [] then none
  else (rtfsDirInodeResolve img).toOption.bind (fun d =>
    failedChanges commit img (rtfsDirInodeAddEntry d name childIno childType add))

def failedUnlink (name : List UInt8) : Option (Committed × Bool) :=
  (rtfsDirInodeResolve img).toOption.bind (fun d => failedChanges commit img (rtfsDirInodeRemoveEntry d name))

-- rtfsMknod as far as the names of the parent go; child is the inode that was created
def rtfsMknodName (fuel : Nat) (name : List UInt8) (child : Option UInt64) (childType : UInt8) :
    Option (Except Errno Committed) :=
  (rtfsNameExistsInParent img fuel name).map (fun r => r.bind (fun found =>
    if found then .error .eexist
    else
      match child with
      | none => .error .enospc
      | some ino => rtfsAddNameToParent add commit img name ino childType))

-- checks: how rtfsResolveTargetInodeHandle, rtfsCollectTargetReclaimPlan and rtfsTargetIsRemovableEmptyObject end
structure ExistingTarget where
  fileType : UInt8
  checks : Except Errno Unit

def removeTarget (d : RtfsDirInode) (newName : List UInt8) (sourceType : UInt8) :
    Option ExistingTarget → Except Errno Unit × RtfsDirInode
  | none => (.ok (),d)
  | some target =>
    if sourceType = rtfsFtDir ∧ target.fileType ≠ rtfsFtDir then (.error .enotdir,d)
    else if sourceType ≠ rtfsFtDir ∧ target.fileType = rtfsFtDir then (.error .eisdir,d)
    else
      match target.checks with
      | .error e => (.error e,d)
      | .ok () => rtfsDirInodeRemoveEntry d newName

-- the entries of a rename; behind an error the object is dropped, its undo is left out
def renameEntries (d : RtfsDirInode) (oldName newName : List UInt8) (sourceIno : UInt64) (sourceType : UInt8)
    (existing : Option ExistingTarget) : Except Errno Unit × RtfsDirInode :=
  match removeTarget d newName sourceType existing with
  | (.error e,d) => (.error e,d)
  | (.ok (),d) =>
    match rtfsDirInodeAddEntry d newName sourceIno sourceType add with
    | (.error e,d) => (.error e,d)
    | (.ok (),d) => rtfsDirInodeRemoveEntry d oldName

def rtfsRenameWithinSameParent (oldName newName : List UInt8) (sourceIno : UInt64) (sourceType : UInt8)
    (existing : Option ExistingTarget) : Except Errno Committed :=
  (rtfsDirInodeResolve img).bind (fun d =>
    commitChanges commit img (renameEntries add d oldName newName sourceIno sourceType existing))

-- rtfsRename with one parent; an entry of the inode 0 counts as no target
def rtfsRename (fuel : Nat) (checks : Except Errno Unit) (oldName newName : List UInt8) (sourceIno : UInt64)
    (sourceType : UInt8) : Option (Except Errno Committed) :=
  match validateName newName with
  | .error e => some (.error e)
  | .ok () =>
    if oldName = [] then some (.error .einval)
    else if oldName = newName then some (.ok ⟨img,[],[],[]⟩)
    else (rtfsResolveNameInParent img fuel newName).map (fun r =>
      match r with
      | .ok (.entry e) => rtfsRenameWithinSameParent add commit img oldName newName sourceIno sourceType
          (if e.ino = 0 then none else some ⟨e.fileType,checks⟩)
      | .ok _ => rtfsRenameWithinSameParent add commit img oldName newName sourceIno sourceType none
      | .error e =>
        if e = .enoent then rtfsRenameWithinSameParent add commit img oldName newName sourceIno sourceType none
        else .error e)

end Handlers

end Volume

section Fuel
variable {img : DirImage} {name : List UInt8} {fuel fuel' : Nat}

theorem lookupLoop_more {d : RtfsDirInode} {r : Except Errno RtfsDirLookupResult} (h : lookupLoop img name fuel d = some r)
    (k : Nat) : lookupLoop img name (fuel + k) d = some r := by
  induction fuel generalizing d with
  | zero => cases h
  | succ fuel ih =>
    rw [Nat.add_right_comm]
    unfold lookupLoop at h ⊢
    split
    · rename_i hstop
      rw [if_pos hstop] at h
      exact h
    · rename_i hstop
      rw [if_neg hstop] at h
      cases hr : rtfsDirInodeResolveOnDemand img d with
      | error e =>
        rw [hr] at h
        exact h
      | ok d' =>
        rw [hr] at h
        exact ih h

theorem resolve_unique {r r' : Except Errno RtfsDirLookupResult} (h : rtfsResolveNameInParent img fuel name = some r)
    (h' : rtfsResolveNameInParent img fuel' name = some r') : r = r' := by
  unfold rtfsResolveNameInParent at h h'
  cases hd : rtfsDirInodeResolve img with
  | error e =>
    rw [hd] at h h'
    exact Option.some.inj (h.symm.trans h')
  | ok d =>
    rw [hd] at h h'
    have hmore := lookupLoop_more h fuel'
    rw [Nat.add_comm] at hmore
    exact Option.some.inj (hmore.symm.trans (lookupLoop_more h' fuel))

end Fuel

namespace DirContent

section Session
variable {c : DirContent} {es : List RtfsMemDirEntry} {d d' : RtfsDirInode} {name : List UInt8} {ino : UInt64}
  {fileType : UInt8}

theorem BuiltOnDemand.session (hc : c.Holds es) (h : BuiltOnDemand c es d) : Session c es d := by
  have hmem {e : RtfsMemDirEntry} (he : e ∈ d.entries) : e ∈ es ∧ inBlock 0 e = true :=
    List.mem_filter.mp (h.entries.mem_iff.mp he)
  refine ⟨h.ok,h.tracks,fun k hk => ?_,fun x hx hp => ?_⟩
  · obtain ⟨e,he,rfl⟩ := List.mem_map.mp hk
    exact hc.narrow e (hmem he).1
  · rw [RtfsDirInode.Present,keys_names] at hp
    obtain ⟨e,he,hname⟩ := List.mem_map.mp hp
    obtain ⟨hes,hout⟩ := List.mem_filter.mp hx
    obtain ⟨hee,hin⟩ := hmem he
    rw [← List.inj_on_of_nodup_map hc.distinct hee hes hname,hin] at hout
    cases hout

theorem BuiltOnDemand.present_iff (h : BuiltOnDemand c es d) (hc : c.Holds es) {e : RtfsMemDirEntry}
    (he : e ∈ es) : d.Present e.name ↔ e.sourceBlockIndex = 0 := by
  rw [RtfsDirInode.Present,keys_names]
  constructor
  · intro hin
    obtain ⟨x,hx,hname⟩ := List.mem_map.mp hin
    obtain ⟨hes,hfirst⟩ := List.mem_filter.mp (h.entries.mem_iff.mp hx)
    rw [← List.inj_on_of_nodup_map hc.distinct hes he hname]
    exact of_decide_eq_true hfirst
  · intro hz
    exact List.mem_map_of_mem (h.entries.mem_iff.mpr (List.mem_filter.mpr ⟨he,decide_eq_true hz⟩))

theorem Session.add (h : Session c es d) (hroom : d.totalBlockCount < 2 ^ 32) (hv : ValidName name)
    (hino : ino.toNat < 2 ^ 32) (hother : ∀ x ∈ otherEntries es, x.name ≠ name) {answers : AddAnswers}
    (hr : rtfsDirInodeAddEntry d name ino fileType answers = (.ok (),d')) :
    Session c es d' ∧ d'.keys = d.keys ++ [(name,ino,fileType)] ∧ d'.iDentryNum = d.iDentryNum + 1 ∧
      d'.totalBlockCount ≤ d.totalBlockCount + 2 := by
  have hout : AddOutcome d name ino fileType (rtfsDirInodeAddEntry d name ino fileType answers) :=
    addEntry_outcome h.ok hv answers
  rw [hr] at hout
  obtain ⟨htracks,htotal⟩ := h.tracks.addEntry h.ok hroom hv hr
  obtain ⟨hkeys,hnum⟩ := hout.added rfl
  refine ⟨⟨hout.ok,htracks,fun k hk => ?_,fun x hx hp => ?_⟩,hkeys,hnum,htotal⟩
  · rw [hkeys,List.mem_append,List.mem_singleton] at hk
    rcases hk with hk | rfl
    · exact h.narrow k hk
    · exact hino
  · rw [RtfsDirInode.Present,hkeys,List.map_append,List.mem_append,List.map_singleton,List.mem_singleton] at hp
    rcases hp with hp | hp
    · exact h.apart x hx hp
    · exact hother x hx hp

theorem Session.remove (h : Session c es d) (hv : ValidName name)
    (hr : rtfsDirInodeRemoveEntry d name = (.ok (),d')) :
    Session c es d' ∧ (∃ v, ((name,v) :: d'.keys).Perm d.keys) ∧
      d'.iDentryNum = (if 0 < d.iDentryNum then d.iDentryNum - 1 else d.iDentryNum) ∧
      d'.totalBlockCount = d.totalBlockCount := by
  have hout := removeEntry_outcome h.ok hv
  rw [hr] at hout
  obtain ⟨htracks,htotal⟩ := h.tracks.removeEntry hr
  obtain ⟨ino,fileType,hkeys,hnum⟩ := hout.removed rfl
  refine ⟨⟨hout.ok,htracks,fun k hk => ?_,fun x hx hp => h.apart x hx ?_⟩,⟨_,hkeys⟩,hnum,htotal⟩
  · exact h.narrow k (hkeys.mem_iff.mp (List.mem_cons_of_mem _ hk))
  · exact ((hkeys.map Prod.fst).mem_iff).mp (List.mem_cons_of_mem _ hp)

theorem Session.distinct (hc : c.Holds es) (h : Session c es d) :
    ((d.keys ++ (otherEntries es).map entryKey).map Prod.fst).Nodup := by
  have hnames (l : List RtfsMemDirEntry) : (l.map entryKey).map Prod.fst = l.map RtfsMemDirEntry.name := by
    rw [List.map_map]
    rfl
  rw [List.map_append,List.nodup_append]
  refine ⟨?_,?_,fun a ha b hb hab => ?_⟩
  · rw [keys_names]
    exact h.ok.distinct
  · rw [hnames]
    exact hc.distinct.sublist (List.filter_sublist.map _)
  · rw [hnames] at hb
    obtain ⟨x,hx,rfl⟩ := List.mem_map.mp hb
    subst hab
    exact h.apart x hx ha

end Session

section Unattached
variable {img : DirImage} {c : DirContent} {es : List RtfsMemDirEntry} {d : RtfsDirInode}

theorem Session.attached_nil (h : Session c es d) (ht : d.totalBlockCount = c.blocks.length) :
    c.attachedTo d = [] := by
  refine List.filter_eq_nil_iff.mpr (fun b hb hge => ?_)
  have hge := of_decide_eq_true hge
  have hlt := h.tracks.inside b hb
  omega

theorem Session.updated_unattached (hd : c.OnDisk img) (h : Session c es d) (hi : d.isInline = img.isInline)
    (ht : d.totalBlockCount = c.blocks.length) : img.updated d = some { img with
      iDentryNum := d.iDentryNum, inlineDentry := d.inlineDentry.getD img.inlineDentry } := by
  have hnone := h.attached_nil ht
  have hsame : (img.isInline && !img.isInline) = false := Bool.and_not_self _
  unfold attachedTo at hnone
  unfold DirImage.updated
  simp only [hd.blockCount,hi,hsame,hnone,ht,Nat.sub_self,Bool.false_eq_true,if_false]
  simp [mapAttached]

theorem Session.commit_unattached (hd : c.OnDisk img) (h : Session c es d) (hi : d.isInline = img.isInline)
    (ht : d.totalBlockCount = c.blocks.length) (lpas : List UInt32) :
    (Volume.commitChanges ⟨true,lpas,none⟩ img (.ok (),d)).map Volume.Committed.img =
      rtfsDirInodeCommitCowWritebackWithTxId img lpas d := by
  have hup := h.updated_unattached hd hi ht
  have hgrown : mapAttached img.ino (c.attachedTo d)
      (if img.isInline && !d.isInline then clearMapping img.store img.ino else img.store) = some img.store := by
    rw [h.attached_nil ht,hi,Bool.and_not_self]
    rfl
  have hbacked : Backed d := h.backed hd hgrown
  unfold Volume.commitChanges Volume.rtfsDirInodeCommitCowWritebackWithTxId rtfsDirInodeCommitCowWritebackWithTxId
  simp only [Except.bind,hup]
  rcases hw : rtfsDirInodeWritebackContentCow lpas d with ⟨ret,w⟩
  cases ret with
  | error e =>
    have hold : singleDirOldDataLpas true lpas d = .error e := by
      unfold singleDirOldDataLpas
      rw [hw]
    rw [hold]
    rfl
  | ok u =>
    rw [singleDir_collects hbacked (by rw [hw])]
    obtain ⟨-,rfl⟩ := Prod.mk.inj hw
    simp only
    cases rtfsDirInodeApplyPendingRegularBlockRelocations img.store img.ino
        (rtfsDirInodeWriteDirtyRegularBlocksCow lpas d.loadedBlocks).2 <;> rfl

end Unattached

end DirContent

open DirContent

abbrev Names : Type := List UInt8 → Option (UInt64 × UInt8)

structure SessionShows (c : DirContent) (es : List RtfsMemDirEntry) (d : RtfsDirInode) (m : Names) (n : Nat) : Prop where
  session : Session c es d
  lists : Enumerates (d.keys ++ (otherEntries es).map entryKey) m
  count : d.iDentryNum.toNat = n
  real : ∀ name v, m name = some v → v.1 ≠ 0

structure Shows (img : DirImage) (m : Names) (n : Nat) (c : DirContent) (es : List RtfsMemDirEntry) : Prop where
  disk : c.OnDisk img
  holds : c.Holds es
  lists : Enumerates (es.map entryKey) m
  count : c.iDentryNum.toNat = n
  real : ∀ name v, m name = some v → v.1 ≠ 0

structure Allocated (img : DirImage) (lpas : List UInt32) : Prop where
  distinct : lpas.Nodup
  free : img.isInline = false → ∀ i < sizeToBlock img.iSize, ∀ lpa,
    rtfsDirResolveDataLpaByBlockIndex img.store img.ino (UInt32.ofNat i) = .ok lpa → lpa ∉ lpas

section Sessions
variable {img img' : DirImage} {m : Names} {n : Nat} {c : DirContent} {es : List RtfsMemDirEntry}
  {d d' : RtfsDirInode} {name : List UInt8} {ino : UInt64} {fileType : UInt8}

theorem Shows.start (h : Shows img m n c es) : ∃ d, rtfsDirInodeResolve img = .ok d ∧ SessionShows c es d m n ∧
    d.totalBlockCount = c.blocks.length ∧ BuiltOnDemand c es d := by
  obtain ⟨d,hr,hbuilt⟩ := h.holds.resolve
  have hperm : (d.keys ++ (otherEntries es).map entryKey).Perm (es.map entryKey) := by
    unfold RtfsDirInode.keys
    rw [← List.map_append]
    exact ((hbuilt.entries.append_right _).trans (parts_perm es)).map _
  refine ⟨d,h.disk.shown.resolve.trans hr,⟨hbuilt.session h.holds,h.lists.perm hperm,?_,h.real⟩,hbuilt.total,hbuilt⟩
  rw [hbuilt.num]
  exact h.count

theorem SessionShows.insert (h : SessionShows c es d m n) (hroom : d.totalBlockCount < 2 ^ 32) (hv : ValidName name)
    (hino : ino.toNat < 2 ^ 32) (hz : ino ≠ 0) (hnew : m name = none) {answers : AddAnswers}
    (hr : rtfsDirInodeAddEntry d name ino fileType answers = (.ok (),d')) :
    SessionShows c es d' (Function.update m name (some (ino,fileType))) d'.iDentryNum.toNat ∧
      d'.iDentryNum = d.iDentryNum + 1 ∧ d'.totalBlockCount ≤ d.totalBlockCount + 2 := by
  have hnot := h.lists.none_iff.mp hnew
  obtain ⟨hsession,hkeys,hcount,htotal⟩ := h.session.add hroom hv hino (fun x hx he => hnot (by
    rw [List.map_append]
    exact List.mem_append_right _ (List.mem_map.mpr ⟨_,List.mem_map_of_mem hx,he⟩))) hr
  have hperm : (d'.keys ++ (otherEntries es).map entryKey).Perm
      ((name,ino,fileType) :: (d.keys ++ (otherEntries es).map entryKey)) := by
    rw [hkeys,List.append_assoc]
    exact List.perm_middle
  refine ⟨⟨hsession,(h.lists.insert hnot).perm hperm,rfl,fun k v hk => ?_⟩,hcount,htotal⟩
  by_cases he : k = name
  · subst he
    rw [Function.update_self] at hk
    cases hk
    exact hz
  · rw [Function.update_of_ne he] at hk
    exact h.real k v hk

theorem SessionShows.add (h : SessionShows c es d m n) (hroom : d.totalBlockCount < 2 ^ 32) (hv : ValidName name)
    (hino : ino.toNat < 2 ^ 32) (hz : ino ≠ 0) (hnew : m name = none) (hnum : d.iDentryNum ≠ 4294967295)
    {answers : AddAnswers} (hr : rtfsDirInodeAddEntry d name ino fileType answers = (.ok (),d')) :
    SessionShows c es d' (Function.update m name (some (ino,fileType))) (n + 1) ∧
      d'.totalBlockCount ≤ d.totalBlockCount + 2 := by
  obtain ⟨hadded,hcount,htotal⟩ := h.insert hroom hv hino hz hnew hr
  have hlt := d.iDentryNum.toNat_lt
  have hne : d.iDentryNum.toNat ≠ 4294967295 := fun he => hnum (UInt32.toNat_inj.mp he)
  have hsucc : d'.iDentryNum.toNat = n + 1 := by
    rw [hcount,UInt32.toNat_add,← h.count]
    exact Nat.mod_eq_of_lt (by simp only [UInt32.toNat_one]; omega)
  exact ⟨hsucc ▸ hadded,htotal⟩

theorem SessionShows.remove (hc : c.Holds es) (h : SessionShows c es d m n) (hv : ValidName name)
    (hr : rtfsDirInodeRemoveEntry d name = (.ok (),d')) :
    SessionShows c es d' (Function.update m name none) (n - 1) ∧ m name ≠ none ∧
      d'.totalBlockCount = d.totalBlockCount := by
  obtain ⟨hsession,⟨v,hkeys⟩,hcount,htotal⟩ := h.session.remove hv hr
  have hperm : ((name,v) :: (d'.keys ++ (otherEntries es).map entryKey)).Perm
      (d.keys ++ (otherEntries es).map entryKey) := hkeys.append_right _
  obtain ⟨hbound,hlists⟩ := (h.lists.perm hperm).erase
    ((hperm.map Prod.fst).nodup_iff.mpr (h.session.distinct hc))
  refine ⟨⟨hsession,hlists,?_,fun k v hk => ?_⟩,by rw [hbound]; simp,htotal⟩
  · rw [hcount,← h.count]
    by_cases hpos : 0 < d.iDentryNum
    · have hone : 1 ≤ d.iDentryNum := by
        rw [UInt32.lt_iff_toNat_lt] at hpos
        rw [UInt32.le_iff_toNat_le]
        exact hpos
      rw [if_pos hpos,UInt32.toNat_sub_of_le _ _ hone]
      rfl
    · rw [UInt32.lt_iff_toNat_lt,UInt32.toNat_zero] at hpos
      rw [if_neg (by rw [UInt32.lt_iff_toNat_lt,UInt32.toNat_zero]; exact hpos)]
      omega
  · by_cases he : k = name
    · subst he
      rw [Function.update_self] at hk
      cases hk
    · rw [Function.update_of_ne he] at hk
      exact h.real k v hk

theorem Shows.fresh (h : Shows img m n c es) {lpas : List UInt32} (ha : Allocated img lpas) :
    ∀ b ∈ c.blocks, b.lpa ∉ lpas := by
  intro b hb
  obtain ⟨i,hi,rfl⟩ := List.mem_iff_getElem.mp hb
  have hreg : img.isInline = false := by
    rw [h.disk.shown.isInline]
    cases hin : c.isInline with
    | false => rfl
    | true =>
      rw [(h.holds.inline hin).1,List.length_nil] at hi
      exact absurd hi (Nat.not_lt_zero i)
  refine ha.free hreg i ?_ _ (h.disk.shown.blocks i _ (List.getElem?_eq_getElem hi)).1
  rw [h.disk.shown.size]
  exact hi

def mappedLpas (img : DirImage) : List UInt32 :=
  (List.range (sizeToBlock img.iSize)).filterMap (fun i =>
    (rtfsDirResolveDataLpaByBlockIndex img.store img.ino (UInt32.ofNat i)).toOption)

theorem Shows.mapped (h : Shows img m n c es) : mappedLpas img = c.blocks.map MappedBlock.lpa := by
  unfold mappedLpas
  rw [h.disk.shown.size]
  obtain ⟨hlen,hget⟩ := filterMap_range (n := c.blocks.length)
    (f := fun i => (rtfsDirResolveDataLpaByBlockIndex img.store img.ino (UInt32.ofNat i)).toOption) (fun i hi => by
      rw [(h.disk.shown.blocks i _ (List.getElem?_eq_getElem hi)).1]
      exact ⟨_,rfl⟩)
  refine List.ext_getElem (by rw [hlen,List.length_map]) (fun i hi hi' => ?_)
  have hi := hlen ▸ hi
  have hat := hget i hi
  rw [(h.disk.shown.blocks i _ (List.getElem?_eq_getElem hi)).1] at hat
  rw [List.getElem_map]
  exact (List.getElem?_eq_some_iff.mp hat).2

def Balanced (img img' : DirImage) (taken returned lost : List UInt32) : Prop :=
  (mappedLpas img' ++ (returned ++ lost)).Perm (mappedLpas img ++ taken)

structure Leaves (img : DirImage) (out : Volume.Committed) (m : Names) (n : Nat) : Prop where
  shows : ∃ c es, Shows out.img m n c es
  balanced : Balanced img out.img out.taken out.returned out.lost

theorem SessionShows.shows {c' : DirContent} (h : SessionShows c es d m n) (hd : c'.OnDisk img)
    (hh : c'.Holds (d.entries ++ otherEntries es)) (hn : c'.iDentryNum = d.iDentryNum) :
    Shows img m n c' (d.entries ++ otherEntries es) := by
  refine ⟨hd,hh,?_,(congrArg UInt32.toNat hn).trans h.count,h.real⟩
  rw [List.map_append]
  exact h.lists

theorem SessionShows.commit {m₀ : Names} {n₀ : Nat} (hs : Shows img m₀ n₀ c es) (h : SessionShows c es d m n)
    (hroom : d.totalBlockCount ≤ 2 ^ 32) {answers : CommitAnswers} (ha : Allocated img answers.lpas)
    {out : Volume.Committed} (hr : Volume.commitChanges answers img (.ok (),d) = .ok out) :
    Leaves img out m n := by
  unfold Volume.commitChanges at hr
  rw [Except.bind] at hr
  simp only at hr
  cases hup : img.updated d with
  | none =>
    rw [hup] at hr
    cases hr
  | some img₁ =>
    rw [hup] at hr
    obtain ⟨⟨oldLpas,last⟩,hcommit,rfl⟩ := Except.map_ok hr
    obtain ⟨c',hdisk,hholds,hnum,hbalance⟩ :=
      h.session.committed hs.holds hs.disk hroom hup ha.distinct (hs.fresh ha) hcommit
    have hshows := h.shows hdisk hholds hnum
    refine ⟨⟨c',_,hshows⟩,?_⟩
    unfold Balanced Volume.attachedLpas
    rw [hshows.mapped,hs.mapped,hs.disk.blockCount,List.append_nil]
    exact hbalance

theorem SessionShows.failed {m₀ : Names} {n₀ : Nat} (hs : Shows img m₀ n₀ c es) (h : SessionShows c es d m n)
    (hroom : d.totalBlockCount ≤ 2 ^ 32) {answers : CommitAnswers} (ha : Allocated img answers.lpas)
    {out : Volume.Committed} {applied : Bool}
    (hr : Volume.failedChanges answers img (.ok (),d) = some (out,applied))
    (hsize : applied = false → d.totalBlockCount = c.blocks.length ∨ out.img.iSize = img.iSize) :
    Leaves img out (if applied then m else m₀) n := by
  unfold Volume.failedChanges at hr
  obtain ⟨img₁,hup,hr⟩ := Option.bind_eq_some_iff.mp hr
  obtain ⟨f,hf,hend⟩ := Option.map_eq_some_iff.mp hr
  cases hend
  cases happlied : f.applied with
  | true =>
    obtain ⟨c',hdisk,hholds,hnum,hbalance⟩ :=
      h.session.failedLate hs.holds hs.disk hroom hup ha.distinct (hs.fresh ha) hf happlied
    have hshows := h.shows hdisk hholds hnum
    refine ⟨⟨c',_,hshows⟩,?_⟩
    unfold Balanced Volume.attachedLpas
    rw [hshows.mapped,hs.mapped,hs.disk.blockCount,List.nil_append]
    exact hbalance
  | false =>
    have htotal : d.totalBlockCount = c.blocks.length := by
      rcases hsize happlied with ht | hsize
      · exact ht
      · obtain ⟨-,-,⟨ht,-⟩ | ⟨-,-,-,himg⟩⟩ := failedCommit_cases hf
        · exact absurd (happlied.symm.trans ht) (by decide)
        · rw [himg] at hsize
          exact h.session.unattached hs.holds hs.disk hroom hup hsize
    obtain ⟨c',hdisk,hholds,hnum,hbalance⟩ :=
      h.session.failedEarly hs.holds hs.disk hup (hs.fresh ha) hf happlied htotal
    have hshows : Shows f.img m₀ n c' es := ⟨hdisk,hholds,hs.lists,(congrArg UInt32.toNat hnum).trans h.count,hs.real⟩
    refine ⟨⟨c',_,hshows⟩,?_⟩
    unfold Balanced Volume.attachedLpas
    rw [hshows.mapped,hs.mapped,hs.disk.blockCount,List.nil_append]
    exact hbalance

end Sessions

section Scan
variable {img : DirImage} {m : Names} {n : Nat} {c : DirContent} {es : List RtfsMemDirEntry}
  {d d' : RtfsDirInode} {name : List UInt8}

theorem removeEntry_isInline (hr : rtfsDirInodeRemoveEntry d name = (.ok (),d')) : d'.isInline = d.isInline := by
  unfold rtfsDirInodeRemoveEntry rtfsDirInodeRemoveEntryInternal at hr
  split at hr
  · cases hr
  split at hr
  · cases hr
  split at hr
  · cases hr
  · obtain ⟨-,rfl⟩ := Prod.mk.inj hr
    split
    · rfl
    · unfold rtfsDirInodeClearRegularEntryBacking
      split <;> rfl

theorem Shows.resolved_isInline (h : Shows img m n c es) (hr : rtfsDirInodeResolve img = .ok d) :
    d.isInline = img.isInline := by
  cases hi : img.isInline with
  | true =>
    obtain ⟨d₀,hb,hload⟩ := Except.bind_ok hr
    have hfull : d₀.isFullyLoaded = true := (build_inline hi hb).full
    unfold rtfsDirInodeResolveOnDemand at hload
    rw [if_pos hfull] at hload
    cases hload
    unfold rtfsDirInodeBuildFromCache rtfsDirInodeBuildInlineEntries at hb
    simp only [if_pos hi] at hb
    obtain ⟨d₁,hwalk,rfl⟩ := Except.map_ok hb
    exact (walk_kind hwalk).isInline.trans hi
  | false =>
    obtain ⟨d₀,hr₀,hs,-,-⟩ := h.start
    cases hr.symm.trans hr₀
    rw [hs.session.tracks.flag]
    refine decide_eq_false (fun hk => ?_)
    have hin := (hs.session.tracks.inline hk).1
    rw [← h.disk.shown.isInline,hi] at hin
    cases hin

-- the unlink between two reads of a scan is that of the volume
theorem Shows.unlink_scan (h : Shows img m n c es) (hv : ValidName name) (lpas : List UInt32) :
    (Volume.rtfsUnlinkFromParentAndCommit ⟨true,lpas,none⟩ img name).map Volume.Committed.img =
      rtfsUnlinkFromParentAndCommit img name lpas := by
  obtain ⟨d,hr,hs,ht,-⟩ := h.start
  unfold Volume.rtfsUnlinkFromParentAndCommit rtfsUnlinkFromParentAndCommit
  rw [hr]
  simp only [Except.bind]
  rcases hrem : rtfsDirInodeRemoveEntry d name with ⟨ret,d'⟩
  cases ret with
  | error e => rfl
  | ok u =>
    obtain ⟨hs',-,-,ht'⟩ := hs.session.remove hv hrem
    exact hs'.commit_unattached h.disk ((removeEntry_isInline hrem).trans (h.resolved_isInline hr)) (ht'.trans ht) lpas

end Scan

end DirEntries

end Rtfs
