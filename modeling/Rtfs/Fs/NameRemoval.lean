import Rtfs.Fs.DirNameRun

namespace Rtfs

namespace DirEntries

open Listing
open DirContent

namespace Volume

-- handles: the three inodes are had; links: i_nlink and the replaced inode are changed; rest: the commit of the nodes
structure AcrossAnswers where
  handles : Except Errno Unit
  add : AddAnswers
  links : Except Errno Unit
  oldArray : ArrayAnswers
  newArray : ArrayAnswers
  oldLpas : List UInt32
  newLpas : List UInt32
  rest : Option Errno

section Across
variable (answers : AcrossAnswers) (oldImg newImg : DirImage)

def rtfsCommitDirtyDirsAndNodesWithTxId (oldDir newDir : RtfsDirInode) :
    Except Errno (List UInt32 × DirImage × DirImage) :=
  (twoDirOldDataLpas answers.oldArray answers.newArray answers.oldLpas answers.newLpas oldDir newDir).bind
    (fun oldDataLpas =>
      let oldBlocks := (rtfsDirInodeWritebackContentCow answers.oldLpas oldDir).2.loadedBlocks
      let newBlocks := (rtfsDirInodeWritebackContentCow answers.newLpas newDir).2.loadedBlocks
      (rtfsDirInodeApplyPendingRegularBlockRelocations oldImg.store oldImg.ino oldBlocks).bind (fun oldStore =>
        (rtfsDirInodeApplyPendingRegularBlockRelocations newImg.store newImg.ino newBlocks).bind (fun newStore =>
          match answers.rest with
          | some e => .error e
          | none => .ok (oldDataLpas,
              { oldImg with store := oldStore, read := writtenBlocks oldImg.read oldBlocks },
              { newImg with store := newStore, read := writtenBlocks newImg.read newBlocks }))))

def rtfsRenameAcrossParents (oldName newName : List UInt8) (sourceIno : UInt64) (sourceType : UInt8)
    (existing : Option ExistingTarget) : Except Errno (List UInt32 × DirImage × DirImage) :=
  (rtfsDirInodeResolve oldImg).bind (fun oldDir =>
    (rtfsDirInodeResolve newImg).bind (fun newDir =>
      answers.handles.bind (fun _ =>
        match removeTarget newDir newName sourceType existing with
        | (.error e,_) => .error e
        | (.ok (),newDir) =>
          match rtfsDirInodeAddEntry newDir newName sourceIno sourceType answers.add with
          | (.error e,_) => .error e
          | (.ok (),newDir) =>
            match rtfsDirInodeRemoveEntry oldDir oldName with
            | (.error e,_) => .error e
            | (.ok (),oldDir) =>
              answers.links.bind (fun _ =>
                match oldImg.updated oldDir,newImg.updated newDir with
                | some oldImg,some newImg => rtfsCommitDirtyDirsAndNodesWithTxId answers oldImg newImg oldDir newDir
                | _,_ => .error .enospc))))

-- rtfsRename with two parents
def rtfsRenameParents (fuel : Nat) (checks : Except Errno Unit) (oldName newName : List UInt8) (sourceIno : UInt64)
    (sourceType : UInt8) : Option (Except Errno (List UInt32 × DirImage × DirImage)) :=
  match validateName newName with
  | .error e => some (.error e)
  | .ok () =>
    if oldName = [] then some (.error .einval)
    else (rtfsResolveNameInParent newImg fuel newName).map (fun r =>
      match r with
      | .ok (.entry e) => rtfsRenameAcrossParents answers oldImg newImg oldName newName sourceIno sourceType
          (if e.ino = 0 then none else some ⟨e.fileType,checks⟩)
      | .ok _ => rtfsRenameAcrossParents answers oldImg newImg oldName newName sourceIno sourceType none
      | .error e =>
        if e = .enoent then rtfsRenameAcrossParents answers oldImg newImg oldName newName sourceIno sourceType none
        else .error e)

end Across

end Volume

section Add
variable {d : RtfsDirInode} {name : List UInt8} {ino : UInt64} {fileType : UInt8} {entriesRealloc : Bool}

end Add

section Commit
variable {d w : RtfsDirInode} {img img₁ : DirImage} {c : DirContent} {es : List RtfsMemDirEntry} {m m₀ : Names}
  {n n₀ : Nat} {lpas : List UInt32}

theorem writeDirty_found (lpas : List UInt32) (bs : List RtfsLoadedDirBlock) :
    (rtfsDirInodeWriteDirtyRegularBlocksCow lpas bs).1 ≠ .error .enoent := by
  induction bs generalizing lpas with
  | nil => rintro ⟨⟩
  | cons b bs ih =>
    unfold rtfsDirInodeWriteDirtyRegularBlocksCow
    split
    · exact ih lpas
    · cases lpas with
      | nil => rintro ⟨⟩
      | cons newLpa lpas =>
        simp only
        split
        · rintro ⟨⟩
        · exact ih lpas

theorem writeback_found (h : rtfsDirInodeWritebackContentCow lpas d = (.error .enoent,w)) : False :=
  writeDirty_found lpas d.loadedBlocks (congrArg Prod.fst h)

theorem collectPending_found (maxCount : Nat) (outArray : List UInt32) (bs : List RtfsLoadedDirBlock) :
    collectPending maxCount outArray bs ≠ .error .enoent := by
  induction bs generalizing outArray with
  | nil => rintro ⟨⟩
  | cons b bs ih =>
    unfold collectPending
    split
    · exact ih _
    split
    · rintro ⟨⟩
    · exact ih _

theorem appendOld_found (answers : ArrayAnswers) (dst : GrowArray UInt32) :
    rtfsCollectDirPendingOldDataLpasAppend answers d dst ≠ .error .enoent := by
  unfold rtfsCollectDirPendingOldDataLpasAppend
  split
  · exact nofun
  split
  · exact nofun
  · refine Except.bind_ne (collectPending_found _ _ _) (fun scratch => foldlM_ne (fun array value => ?_) _ _)
    unfold rtfsAppendUniqueUint32
    split
    · exact nofun
    split
    · exact nofun
    split <;> exact nofun

theorem twoDir_found {answers₁ answers₂ : ArrayAnswers} {lpas₁ lpas₂ : List UInt32} {d₁ d₂ : RtfsDirInode} :
    twoDirOldDataLpas answers₁ answers₂ lpas₁ lpas₂ d₁ d₂ ≠ .error .enoent := by
  unfold twoDirOldDataLpas
  split
  · rename_i e _ he
    rintro ⟨⟩
    exact writeback_found he
  · refine Except.bind_ne (appendOld_found _ _) (fun oldData => ?_)
    split
    · rename_i e _ he
      rintro ⟨⟩
      exact writeback_found he
    · exact Except.map_ne (appendOld_found _ _)

theorem updated_applies (hc : c.Holds es) (hd : c.OnDisk img) (h : Session c es d) (hroom : d.totalBlockCount ≤ 2 ^ 32)
    (hup : img.updated d = some img₁) (hw : rtfsDirInodeWritebackContentCow lpas d = (.ok (),w)) :
    ∃ s', rtfsDirInodeApplyPendingRegularBlockRelocations img₁.store img₁.ino w.loadedBlocks = .ok s' := by
  have hback := h.wroteBack hw
  unfold DirImage.updated at hup
  rw [hd.blockCount] at hup
  obtain ⟨s₁,hgrown,rfl⟩ := Option.map_eq_some_iff.mp hup
  rcases h.ok.backing with hi | hb
  · have hnil : w.loadedBlocks = [] := List.map_eq_nil_iff.mp (hback.indices.trans (by rw [hi.blocks]; rfl))
    rw [hnil]
    exact ⟨s₁,rfl⟩
  · rw [h.base hd hb] at hgrown
    obtain ⟨s',hr,-⟩ := hback.relocates hc hd hroom hb.indices hgrown
    exact ⟨s',hr⟩

end Commit

section Names

def Resolves (img : DirImage) (name : List UInt8) (r : Except Errno (Option (UInt64 × UInt8))) : Prop :=
  ∃ fuel, (Volume.rtfsLookupNameInParent img fuel name).map (Except.map found) = some r

def Found (img : DirImage) (name : List UInt8) (e : RtfsMemDirEntry) : Prop :=
  ∃ fuel, Volume.rtfsLookupNameInParent img fuel name = some (.ok (.entry e))

variable {img img' : DirImage} {m m' : Names} {n n' : Nat} {c c' : DirContent} {es es' : List RtfsMemDirEntry}
  {name : List UInt8} {e : RtfsMemDirEntry} {d d' : RtfsDirInode}

theorem lookup_unique {fuel fuel' : Nat} {r r' : Except Errno RtfsDirLookupResult}
    (h : Volume.rtfsLookupNameInParent img fuel name = some r)
    (h' : Volume.rtfsLookupNameInParent img fuel' name = some r') : r = r' := by
  unfold Volume.rtfsLookupNameInParent at h h'
  cases hv : Volume.validateName name with
  | error err =>
    rw [hv] at h h'
    exact Option.some.inj (h.symm.trans h')
  | ok u =>
    rw [hv] at h h'
    exact resolve_unique h h'

theorem Shows.resolves_iff (h : Shows img m n c es) {r : Except Errno (Option (UInt64 × UInt8))} :
    Resolves img name r ↔ r = bound m name := by
  obtain ⟨fuel,hbound⟩ := h.lookup name
  constructor
  · rintro ⟨fuel',hr⟩
    obtain ⟨a,ha,rfl⟩ := Option.map_eq_some_iff.mp hr
    obtain ⟨b,hb,hmap⟩ := Option.map_eq_some_iff.mp hbound
    rw [lookup_unique ha hb,hmap]
  · rintro rfl
    exact ⟨fuel,hbound⟩

theorem validName_valid (hv : ValidName name) : Volume.validateName name = .ok () := by
  unfold Volume.validateName
  rw [if_neg (Nat.pos_iff_ne_zero.mp hv.1),if_neg (Nat.not_lt.mpr hv.2.1),
    if_neg (fun hd => hd.elim hv.2.2.2.1 hv.2.2.2.2)]

theorem Shows.absent (h : Shows img m n c es) (hv : ValidName name) (hm : m name = none) :
    Resolves img name (.error .enoent) := by
  refine h.resolves_iff.mpr ?_
  unfold bound
  rw [validName_valid hv,hm]
  rfl

theorem Shows.found (h : Shows img m n c es) (hf : Found img name e) :
    e ∈ es ∧ e.name = name ∧ ValidName name ∧ m name = some (e.ino,e.fileType) :=
  hf.elim (fun _ => h.lookup_found)

theorem Shows.present (h : Shows img m n c es) (hd : rtfsDirInodeResolve img = .ok d) (hf : Found img name e) :
    DirOk d ∧ (d.Present name ↔ e.sourceBlockIndex = 0) := by
  obtain ⟨d',hd',-,-,hbuilt⟩ := h.start
  cases hd.symm.trans hd'
  obtain ⟨he,hname,-⟩ := h.found hf
  refine ⟨hbuilt.ok,?_⟩
  rw [← hname]
  exact hbuilt.present_iff h.holds he

end Names

section Calls

variable {img : DirImage} {m : Names} {n : Nat} {c : DirContent} {es : List RtfsMemDirEntry}
  {name oldName newName : List UInt8} {e : RtfsMemDirEntry} {d d' : RtfsDirInode}

-- what a rename finds under its new name
inductive Probed (img : DirImage) (m : Names) (name : List UInt8) (checks : Except Errno Unit) :
    Option Volume.ExistingTarget → Prop
  | free (h : m name = none) : Probed img m name checks none
  | taken {x : RtfsMemDirEntry} (h : Found img name x) : Probed img m name checks (some ⟨x.fileType,checks⟩)

theorem Probed.free_iff {checks : Except Errno Unit} {existing : Option Volume.ExistingTarget}
    (hp : Probed img m name checks existing) (he : existing = none) : m name = none := by
  cases hp with
  | free h => exact h
  | taken h => cases he

section Target
variable {sourceType : UInt8} {checks : Except Errno Unit} {existing : Option Volume.ExistingTarget}

end Target

section Within
variable {add : AddAnswers} {ino : UInt64} {fileType : UInt8} {existing : Option Volume.ExistingTarget}
  {checks : Except Errno Unit}

theorem SessionShows.renamedTo (hc : c.Holds es) (h : SessionShows c es d m n) (hnew : ValidName newName)
    (hino : ino ≠ 0 ∧ ino.toNat < 2 ^ 32) (hroom : d.totalBlockCount < 2 ^ 32)
    (habs : existing = none → m newName = none) {d₁ d₂ : RtfsDirInode}
    (hrem : Volume.removeTarget d newName fileType existing = (.ok (),d₁))
    (hadd : rtfsDirInodeAddEntry d₁ newName ino fileType add = (.ok (),d₂)) :
    SessionShows c es d₂ (Function.update m newName (some (ino,fileType))) d₂.iDentryNum.toNat ∧
      d₂.totalBlockCount ≤ d.totalBlockCount + 2 := by
  obtain ⟨h₁,ht₁⟩ := h.removeTarget hc hnew habs hrem
  obtain ⟨h₂,-,ht₂⟩ := h₁.insert (ht₁ ▸ hroom) hnew hino.2 hino.1 (Function.update_self ..) hadd
  rw [Function.update_idem] at h₂
  exact ⟨h₂,ht₁ ▸ ht₂⟩

end Within

section Across
variable {oldImg newImg u v : DirImage} {m' : Names} {n' : Nat} {c' : DirContent} {es' : List RtfsMemDirEntry}
  {d₁ d₂ : RtfsDirInode} {answers : Volume.AcrossAnswers} {lpas : List UInt32}

theorem commit_single (hb : Backed d) {w : RtfsDirInode} (hup : img.updated d = some u)
    (hw : rtfsDirInodeWritebackContentCow lpas d = (.ok (),w)) {store : NodeStore}
    (happly : rtfsDirInodeApplyPendingRegularBlockRelocations u.store u.ino w.loadedBlocks = .ok store) :
    ∃ out, Volume.commitChanges ⟨true,lpas,none⟩ img (.ok (),d) = .ok out ∧
      out.img = { u with store := store, read := writtenBlocks u.read w.loadedBlocks } := by
  unfold Volume.commitChanges Volume.rtfsDirInodeCommitCowWritebackWithTxId
  simp only [Except.bind,hup,singleDir_collects hb (congrArg Prod.fst hw),hw,happly]
  exact ⟨_,rfl,rfl⟩

theorem twoDir_written {old : List UInt32} (h : twoDirOldDataLpas answers.oldArray answers.newArray answers.oldLpas
    answers.newLpas d₁ d₂ = .ok old) :
    (rtfsDirInodeWritebackContentCow answers.oldLpas d₁).1 = .ok () ∧
      (rtfsDirInodeWritebackContentCow answers.newLpas d₂).1 = .ok () := by
  unfold twoDirOldDataLpas at h
  split at h
  · cases h
  · rename_i hw₁
    obtain ⟨oldData,-,h⟩ := Except.bind_ok h
    split at h
    · cases h
    · rename_i hw₂
      exact ⟨congrArg Prod.fst hw₁,congrArg Prod.fst hw₂⟩

theorem updated_backed (hd : c.OnDisk img) (h : Session c es d) (hup : img.updated d = some u) : Backed d := by
  unfold DirImage.updated at hup
  rw [hd.blockCount] at hup
  obtain ⟨s₁,hgrown,-⟩ := Option.map_eq_some_iff.mp hup
  exact h.backed hd hgrown

-- where the commit of two directories ends well each of them is as behind a commit of its own
theorem commitTwo_ends {m₀ m₀' : Names} {n₀ n₀' : Nat} (hs : Shows oldImg m₀ n₀ c es)
    (hs' : Shows newImg m₀' n₀' c' es') (h : SessionShows c es d₁ m n) (h' : SessionShows c' es' d₂ m' n')
    (hroom : d₁.totalBlockCount ≤ 2 ^ 32) (hroom' : d₂.totalBlockCount ≤ 2 ^ 32)
    (hup : oldImg.updated d₁ = some u) (hup' : newImg.updated d₂ = some v) :
    (answers.rest ≠ some .enoent →
      Volume.rtfsCommitDirtyDirsAndNodesWithTxId answers u v d₁ d₂ ≠ .error .enoent) ∧
      ∀ old u' v', Volume.rtfsCommitDirtyDirsAndNodesWithTxId answers u v d₁ d₂ = .ok (old,u',v') →
        (∃ out, Volume.commitChanges ⟨true,answers.oldLpas,none⟩ oldImg (.ok (),d₁) = .ok out ∧ out.img = u') ∧
        ∃ out, Volume.commitChanges ⟨true,answers.newLpas,none⟩ newImg (.ok (),d₂) = .ok out ∧ out.img = v' := by
  unfold Volume.rtfsCommitDirtyDirsAndNodesWithTxId
  cases hold : twoDirOldDataLpas answers.oldArray answers.newArray answers.oldLpas answers.newLpas d₁ d₂ with
  | error err =>
    refine ⟨fun _ => ?_,nofun⟩
    rintro ⟨⟩
    exact twoDir_found hold
  | ok old =>
    obtain ⟨hok₁,hok₂⟩ := twoDir_written hold
    have hw₁ : rtfsDirInodeWritebackContentCow answers.oldLpas d₁ =
        (.ok (),(rtfsDirInodeWritebackContentCow answers.oldLpas d₁).2) := Prod.ext hok₁ rfl
    have hw₂ : rtfsDirInodeWritebackContentCow answers.newLpas d₂ =
        (.ok (),(rtfsDirInodeWritebackContentCow answers.newLpas d₂).2) := Prod.ext hok₂ rfl
    obtain ⟨s₁,happly₁⟩ := updated_applies hs.holds hs.disk h.session hroom hup hw₁
    obtain ⟨s₂,happly₂⟩ := updated_applies hs'.holds hs'.disk h'.session hroom' hup' hw₂
    simp only [Except.bind,happly₁,happly₂]
    cases hrest' : answers.rest with
    | some err =>
      refine ⟨fun hrest => ?_,nofun⟩
      rintro ⟨⟩
      exact hrest rfl
    | none =>
      refine ⟨fun _ => nofun,?_⟩
      rintro _ _ _ ⟨⟩
      exact ⟨commit_single (updated_backed hs.disk h.session hup) hup hw₁ happly₁,
        commit_single (updated_backed hs'.disk h'.session hup') hup' hw₂ happly₂⟩

section Parents
variable {checks : Except Errno Unit} {existing : Option Volume.ExistingTarget}

theorem Shows.across (h : Shows oldImg m n c es) (h' : Shows newImg m' n' c' es') (hold : ValidName oldName)
    (hnew : ValidName newName) {ino : UInt64} {fileType : UInt8} (hino : ino ≠ 0 ∧ ino.toNat < 2 ^ 32)
    (hp : Probed newImg m' newName checks existing) (hlpas : Allocated oldImg answers.oldLpas)
    (hlpas' : Allocated newImg answers.newLpas) {old : List UInt32}
    (hr : Volume.rtfsRenameAcrossParents answers oldImg newImg oldName newName ino fileType existing = .ok (old,u,v)) :
    (∃ n c es, Shows u (Function.update m oldName none) n c es) ∧
      ∃ n c es, Shows v (Function.update m' newName (some (ino,fileType))) n c es := by
  obtain ⟨d₁,hd₁,-⟩ := h.start
  obtain ⟨d₂,hd₂,hstart,htotal,-⟩ := h'.start
  have hspace := h.room
  have hspace' := h'.room
  unfold Volume.rtfsRenameAcrossParents at hr
  rw [hd₁,hd₂] at hr
  change answers.handles.bind _ = _ at hr
  obtain ⟨_,-,hr⟩ := Except.bind_ok hr
  rcases hrem : Volume.removeTarget d₂ newName fileType existing with ⟨ret,d₃⟩
  rw [hrem] at hr
  cases ret with
  | error err => cases hr
  | ok _ =>
    simp only at hr
    rcases hadd : rtfsDirInodeAddEntry d₃ newName ino fileType answers.add with ⟨ret,d₄⟩
    rw [hadd] at hr
    cases ret with
    | error err => cases hr
    | ok _ =>
      obtain ⟨h₄,ht₄⟩ := hstart.renamedTo h'.holds hnew hino (by omega) hp.free_iff hrem hadd
      simp only at hr
      rcases hcut : rtfsDirInodeRemoveEntry d₁ oldName with ⟨ret,d₅⟩
      rw [hcut] at hr
      cases ret with
      | error err => cases hr
      | ok _ =>
        obtain ⟨-,h₅,ht₅⟩ := h.cleared hold hd₁ hcut
        obtain ⟨_,-,hr⟩ := Except.bind_ok hr
        cases hup : oldImg.updated d₅ with
        | none =>
          rw [hup] at hr
          cases hr
        | some u₁ =>
          cases hup' : newImg.updated d₄ with
          | none =>
            rw [hup,hup'] at hr
            cases hr
          | some v₁ =>
            rw [hup,hup'] at hr
            obtain ⟨⟨out,hout,rfl⟩,⟨out',hout',rfl⟩⟩ :=
              (commitTwo_ends h h' h₅ h₄ (by omega) (by omega) hup hup').2 old u v hr
            exact ⟨⟨_,(h₅.commit h (by omega) hlpas hout).shows⟩,⟨_,(h₄.commit h' (by omega) hlpas' hout').shows⟩⟩

end Parents

end Across

end Calls

section Directories
variable {ι : Type}

-- a handler works in one of the directories, or a rename moves an entry from one of them to another
inductive DirsStep [DecidableEq ι] (dirs : ι → DirImage) : (ι → DirImage) → Prop
  | alone (i : ι) {ev : DirEvent} {img : DirImage} (h : DirStep (dirs i) ev img) :
      DirsStep dirs (Function.update dirs i img)
  | across {i j : ι} {answers : Volume.AcrossAnswers} {checks : Except Errno Unit} {fuel : Nat}
      {oldName newName : List UInt8} {e : RtfsMemDirEntry} {old : List UInt32} {oldImg newImg : DirImage} (hne : j ≠ i)
      (hf : Found (dirs i) oldName e) (hnul : 0 ∉ newName) (hlpas : Allocated (dirs i) answers.oldLpas)
      (hlpas' : Allocated (dirs j) answers.newLpas)
      (hr : Volume.rtfsRenameParents answers (dirs i) (dirs j) fuel checks oldName newName e.ino e.fileType =
        some (.ok (old,oldImg,newImg))) :
      DirsStep dirs (Function.update (Function.update dirs i oldImg) j newImg)

theorem alone_run [DecidableEq ι] (dirs : ι → DirImage) (i : ι) {a b : DirImage} {events : List DirEvent}
    (hrun : Labelled.Run DirStep a events b) :
    Relation.ReflTransGen DirsStep (Function.update dirs i a) (Function.update dirs i b) := by
  induction hrun with
  | nil => exact .refl
  | @cons s s₁ s' ev events hstep _ ih =>
    have hat : DirStep (Function.update dirs i s i) ev s₁ := by
      rw [Function.update_self]
      exact hstep
    have hone := DirsStep.alone i hat
    rw [Function.update_idem] at hone
    exact .head hone ih

end Directories

section Small

def shortName : List UInt8 := List.replicate 20 98

-- six names that fill the inline area, and one that makes it a dentry block
def shortEvents : List DirEvent := [(createdLong 0).alone,(createdLong 1).alone,(createdLong 2).alone,
  (createdLong 3).alone,(createdLong 4).alone,(createdLong 5).alone,⟨.create shortName 7 1,[3072,3073],[3072],[]⟩]

def movingAnswers : Volume.AcrossAnswers := ⟨.ok (),⟨true,[],true⟩,.ok (),.granted,.granted,[3074],[],none⟩

-- behind them the last name is moved to another new directory
structure MovedRun (img oldImg newImg : DirImage) : Prop where
  created : Labelled.Run DirStep newDir shortEvents img
  moved : Volume.rtfsRenameParents movingAnswers img newDir 3 (.ok ()) shortName shortName 7 1 =
    some (.ok ([3073],oldImg,newImg))
  mapped : mappedLpas img = [3073]
  found : ∃ e, Found img shortName e ∧ (e.ino,e.fileType) = (7,1)
  oldSize : sizeToBlock oldImg.iSize = 1
  newSize : sizeToBlock newImg.iSize = 0
  oldLpas : mappedLpas oldImg = [3074]
  oldName : lookupBlock oldImg shortName = none
  stays : lookupBlock oldImg (longName 3) = some 0
  newName : lookupBlock newImg shortName = some 0

theorem MovedRun.steps {img oldImg newImg : DirImage} (h : MovedRun img oldImg newImg) :
    Relation.ReflTransGen DirsStep (fun _ : Bool => newDir)
      (Function.update (Function.update (fun _ => newDir) true oldImg) false newImg) := by
  have hcreated := alone_run (fun _ : Bool => newDir) true h.created
  rw [Function.update_eq_self] at hcreated
  obtain ⟨e,hf,hkey⟩ := h.found
  obtain ⟨hino,htype⟩ := Prod.mk.inj hkey
  have hmoved := h.moved
  rw [← hino,← htype] at hmoved
  have hacross : DirsStep (Function.update (fun _ => newDir) true img) _ :=
    .across (i := true) (j := false) nofun hf (by decide) (allocated_of_mapped (by decide) (by
      rw [Function.update_self,h.mapped]
      rfl)) ⟨List.nodup_nil,fun _ _ _ _ _ => List.not_mem_nil⟩ hmoved
  rw [Function.update_idem] at hacross
  exact hcreated.tail hacross

end Small

end DirEntries

end Rtfs
