import Rtfs.Fs.NamespaceOps
import Rtfs.Fs.DirNameRun

namespace Rtfs

open DirEntries (Names DirImage ValidName Allocated AddAnswers CommitAnswers)

def RtfsFileType.code : RtfsFileType → UInt8
  | .unknown => 0
  | .regFile => 1
  | .dir => rtfsFtDir
  | .chrdev => 3
  | .blkdev => 4
  | .fifo => 5
  | .sock => 6
  | .symlink => 7

-- what a volume has for a child
def RtfsRuntimeInodeView.onVolume (v : RtfsRuntimeInodeView) : UInt64 × UInt8 := (v.ino.toUInt64,v.fileType.code)

def boundNames (entries : List RtfsMemDirEntry) : Names :=
  fun name => (rtfsDirInodeFindEntry entries name).map (fun e => (e.ino.toUInt64,e.fileType.code))

-- the inode dir lists the names of m and counts n
structure Listed (ns : Namespace) (dir : UInt32) (m : Names) (n : Nat) : Prop where
  inode : ∃ i, ns.inodes dir = some i ∧ (i.entries.map RtfsMemDirEntry.name).Nodup ∧
    boundNames i.entries = m ∧ i.dentryNum = n

section Listed
variable {ns ns' : Namespace} {dir x nid : UInt32} {m : Names} {n : Nat} {name oldName newName : FileName} {i : RtfsInode}
  {v parent source target : RtfsRuntimeInodeView} {isDir : Bool}

theorem findEntry_of_mem {entries : List RtfsMemDirEntry} {e : RtfsMemDirEntry}
    (hn : (entries.map RtfsMemDirEntry.name).Nodup) (he : e ∈ entries) (hname : e.name = name) :
    rtfsDirInodeFindEntry entries name = some e := by
  cases hf : rtfsDirInodeFindEntry entries name with
  | none => exact absurd hname (findEntry_none.mp hf e he)
  | some y =>
    obtain ⟨hy,hyname⟩ := findEntry_some hf
    rw [List.inj_on_of_nodup_map hn hy he (hyname.trans hname.symm)]

theorem Listed.add (h : Listed ns dir m n) (hr : rtfsDirInodeAddEntry ns dir name v = .ok ns') :
    m name = none ∧ Listed ns' dir (Function.update m name (some v.onVolume)) (n + 1) := by
  obtain ⟨i,hi,hnodup,rfl,rfl⟩ := h.inode
  obtain ⟨i',hi',hfree,rfl⟩ := addEntry_ok hr
  cases hi.symm.trans hi'
  have hnew := findEntry_none.mp hfree
  refine ⟨by rw [boundNames,hfree]; rfl,⟨⟨_,set_self,?_,funext (fun k => ?_),rfl⟩⟩⟩
  · rw [List.map_append,List.map_singleton]
    refine List.Nodup.append hnodup (List.nodup_singleton _) (fun y hy hy' => ?_)
    obtain ⟨e,he,rfl⟩ := List.mem_map.mp hy
    exact hnew e he (List.mem_singleton.mp hy')
  · unfold boundNames rtfsDirInodeFindEntry
    rw [List.find?_append]
    by_cases hk : k = name
    · subst hk
      rw [Function.update_self]
      change ((rtfsDirInodeFindEntry i.entries k).or _).map _ = _
      rw [hfree,Option.none_or,List.find?_cons_of_pos (by simp)]
      rfl
    · rw [Function.update_of_ne hk,List.find?_cons_of_neg (by simpa using Ne.symm hk),List.find?_nil,Option.or_none]

theorem Listed.remove (h : Listed ns dir m n) (hr : rtfsDirInodeRemoveEntry ns dir name = .ok ns') :
    m name ≠ none ∧ Listed ns' dir (Function.update m name none) (n - 1) := by
  obtain ⟨i,hi,hnodup,rfl,rfl⟩ := h.inode
  obtain ⟨i',e,hi',hf,rfl⟩ := removeEntry_ok hr
  cases hi.symm.trans hi'
  obtain ⟨hrest,hmem⟩ := erase_nodup hnodup hf
  refine ⟨by rw [boundNames,hf]; exact Option.some_ne_none _,⟨⟨_,set_self,hrest,funext (fun k => ?_),rfl⟩⟩⟩
  by_cases hk : k = name
  · subst hk
    rw [Function.update_self,boundNames,findEntry_none.mpr (fun x hx => ((hmem x).mp hx).2)]
    rfl
  · rw [Function.update_of_ne hk]
    unfold boundNames
    congr 1
    cases hfind : rtfsDirInodeFindEntry i.entries k with
    | none => exact findEntry_none.mpr (fun x hx => findEntry_none.mp hfind x ((hmem x).mp hx).1)
    | some y =>
      obtain ⟨hy,hname⟩ := findEntry_some hfind
      exact findEntry_of_mem hrest ((hmem y).mpr ⟨hy,fun he => hk (hname.symm.trans he)⟩) hname

-- a change of the other fields of an inode
theorem Listed.fields (h : Listed ns dir m n) (hi : ns.inodes x = some i) (ty : RtfsFileType) (l : Nat) (p : UInt32)
    (k : FileName) : Listed (ns.set x ⟨ty,l,p,k,i.dentryNum,i.entries⟩) dir m n := by
  obtain ⟨j,hj,hnodup,hm,hn⟩ := h.inode
  by_cases hx : dir = x
  · subst hx
    cases hi.symm.trans hj
    exact ⟨_,set_self,hnodup,hm,hn⟩
  · exact ⟨_,(set_ne hx).trans hj,hnodup,hm,hn⟩

theorem Listed.adjustUp (h : Listed ns dir m n) (hr : rtfsAdjustParentDirectoryNlink ns v 1 = .ok ns') :
    Listed ns' dir m n := by
  obtain ⟨i,hi,rfl⟩ := adjustUp_ok hr
  exact h.fields hi _ _ _ _

theorem Listed.adjustDown (h : Listed ns dir m n) (hr : rtfsAdjustParentDirectoryNlink ns v (-1) = .ok ns') :
    Listed ns' dir m n := by
  obtain ⟨i,hi,rfl⟩ := adjustDown_ok hr
  exact h.fields hi _ _ _ _

theorem Listed.markUnlinked (h : Listed ns dir m n) (hr : rtfsMarkTargetInodeUnlinked ns v = .ok ns') :
    Listed ns' dir m n := by
  obtain ⟨i,hi,p,rfl⟩ := markUnlinked_ok hr
  exact h.fields hi _ _ _ _

theorem Listed.renameSource {pino : Option UInt32} (h : Listed ns dir m n)
    (hr : rtfsRenameSourceInode ns x name pino = .ok ns') : Listed ns' dir m n := by
  obtain ⟨i,hi,rfl⟩ := renameSource_ok hr
  exact h.fields hi _ _ _ _

theorem Listed.lookup (h : Listed ns parent.ino m n) (hdir : parent.fileType = .dir) (name : FileName) :
    (rtfsResolveNameInParent ns parent name).map (fun v => some v.onVolume) = DirEntries.bound m name := by
  obtain ⟨i,hi,-,rfl,-⟩ := h.inode
  have hvalid : rtfsValidateParentDir parent name = DirEntries.Volume.validateName name := by
    unfold rtfsValidateParentDir rtfsInodeIsDirectoryType DirEntries.Volume.validateName
    rw [hdir]
    exact if_neg (by decide)
  have hfound : rtfsResolveTargetInodeHandle ns parent.ino = .ok i := by
    unfold rtfsResolveTargetInodeHandle
    rw [hi]
  unfold rtfsResolveNameInParent DirEntries.bound
  rw [hvalid,hfound]
  cases DirEntries.Volume.validateName name with
  | error e => rfl
  | ok u =>
    unfold boundNames
    simp only [bind,Except.bind]
    cases rtfsDirInodeFindEntry i.entries name with
    | none => rfl
    | some e => rfl

theorem Listed.mknod (h : Listed ns parent.ino m n) (hfresh : nid ≠ parent.ino)
    (hr : rtfsMknod ns parent name isDir nid = .ok ns') : nid ≠ invalidNid ∧ m name = none ∧
      Listed ns' parent.ino (Function.update m name
        (some (nid.toUInt64,if isDir then rtfsFtDir else RtfsFileType.regFile.code))) (n + 1) := by
  obtain ⟨_,-,hr⟩ := Except.bind_ok hr
  split at hr
  · cases hr
  · split at hr
    · cases hr
    · rename_i hnid
      have hset : Listed (ns.set nid (rtfsInitCreatedInode parent.ino name isDir)) parent.ino m n := by
        obtain ⟨i,hi,hrest⟩ := h.inode
        exact ⟨i,(set_ne (Ne.symm hfresh)).trans hi,hrest⟩
      refine ⟨hnid,?_⟩
      cases isDir with
      | true =>
        obtain ⟨ns₁,hup,hr⟩ := Except.bind_ok hr
        exact (hset.adjustUp hup).add hr
      | false =>
        obtain ⟨ns₁,hsame,hr⟩ := Except.bind_ok hr
        cases hsame
        exact hset.add hr
  · cases hr

theorem Listed.rmnod (h : Listed ns parent.ino m n) (hr : rtfsRmnod ns parent target name = .ok ns') :
    m name ≠ none ∧ Listed ns' parent.ino (Function.update m name none) (n - 1) := by
  unfold rtfsRmnod at hr
  split at hr
  · cases hr
  split at hr
  · cases hr
  split at hr
  · cases hr
  obtain ⟨_,-,hr⟩ := Except.bind_ok hr
  obtain ⟨_,-,hr⟩ := Except.bind_ok hr
  obtain ⟨ns₁,hmark,hr⟩ := Except.bind_ok hr
  have hmarked := h.markUnlinked hmark
  cases hdir : rtfsInodeIsDirectoryType target.fileType with
  | true =>
    rw [hdir] at hr
    obtain ⟨ns₂,hdown,hr⟩ := Except.bind_ok hr
    exact (hmarked.adjustDown hdown).remove hr
  | false =>
    rw [hdir] at hr
    obtain ⟨ns₂,hsame,hr⟩ := Except.bind_ok hr
    cases hsame
    exact hmarked.remove hr

-- the directory part of a replacement
theorem Listed.replace {existing : Option RtfsRuntimeInodeView} (h : Listed ns dir m n)
    (hr : rtfsReplaceDentry ns dir newName source existing = .ok ns') :
    Listed ns' dir (Function.update m newName (some source.onVolume))
      (if m newName = none then n + 1 else n - 1 + 1) := by
  cases existing with
  | none =>
    obtain ⟨hnone,hadded⟩ := h.add hr
    rw [if_pos hnone]
    exact hadded
  | some target =>
    obtain ⟨_,-,hr⟩ := Except.bind_ok hr
    obtain ⟨ns₁,hrem,hadd⟩ := Except.bind_ok hr
    obtain ⟨hbound,hremoved⟩ := h.remove hrem
    obtain ⟨-,hadded⟩ := hremoved.add hadd
    rw [Function.update_idem] at hadded
    rw [if_neg hbound]
    exact hadded

theorem Listed.unlinkReplaced {existing : Option RtfsRuntimeInodeView} (h : Listed ns dir m n)
    (hr : rtfsUnlinkReplaced ns parent existing = .ok ns') : Listed ns' dir m n := by
  cases existing with
  | none =>
    cases hr
    exact h
  | some target =>
    obtain ⟨ns₁,hmark,hr⟩ := Except.bind_ok hr
    have hmarked := h.markUnlinked hmark
    split at hr
    · exact hmarked.adjustDown hr
    · cases hr
      exact hmarked

theorem Listed.rename (h : Listed ns parent.ino m n) (hne : oldName ≠ newName)
    (hr : rtfsRename ns parent source parent oldName newName = .ok ns') : m oldName ≠ none ∧
      Listed ns' parent.ino (Function.update (Function.update m newName (some source.onVolume)) oldName none)
        (if m newName = none then n else n - 1) := by
  obtain ⟨_,-,hr⟩ := Except.bind_ok hr
  split at hr
  · cases hr
  split at hr
  · rename_i hsame
    exact absurd hsame.2 hne
  obtain ⟨existing,-,hr⟩ := Except.bind_ok hr
  rw [if_neg (not_not.mpr rfl)] at hr
  obtain ⟨_,-,hr⟩ := Except.bind_ok hr
  obtain ⟨ns₁,hreplace,hr⟩ := Except.bind_ok hr
  obtain ⟨ns₂,hrem,hr⟩ := Except.bind_ok hr
  obtain ⟨ns₃,hname,hr⟩ := Except.bind_ok hr
  obtain ⟨hbound,hremoved⟩ := (h.replace hreplace).remove hrem
  have hdone := (hremoved.renameSource hname).unlinkReplaced hr
  rw [Function.update_of_ne hne] at hbound
  refine ⟨hbound,?_⟩
  split at hdone
  · rename_i hnew
    rw [if_pos hnew]
    exact hdone
  · rename_i hnew
    rw [if_neg hnew]
    exact hdone

end Listed

-- the directory img on its volume has the names that the namespace lists for the inode dir
structure OnVolume (ns : Namespace) (dir : UInt32) (img : DirImage) : Prop where
  agree : ∃ m n c es, Listed ns dir m n ∧ DirEntries.Shows img m n c es

section OnVolume
variable {ns ns' : Namespace} {img : DirImage} {parent source target : RtfsRuntimeInodeView} {name oldName newName : FileName}
  {add : AddAnswers} {commit : CommitAnswers} {fuel : Nat} {out : DirEntries.Volume.Committed}

theorem wide_ne {ino : UInt32} (hz : ino ≠ 0) : ino.toUInt64 ≠ 0 ∧ ino.toUInt64.toNat < 2 ^ 32 := by
  refine ⟨fun he => hz (UInt32.toNat_inj.mp ?_),?_⟩
  · rw [← UInt32.toNat_toUInt64,he]
    rfl
  · rw [UInt32.toNat_toUInt64]
    exact ino.toNat_lt

theorem OnVolume.lookup (h : OnVolume ns parent.ino img) (hdir : parent.fileType = .dir) (name : FileName) :
    ∃ fuel, (DirEntries.Volume.rtfsLookupNameInParent img fuel name).map (Except.map DirEntries.found) =
      some ((rtfsResolveNameInParent ns parent name).map (fun v => some v.onVolume)) := by
  obtain ⟨m,n,c,es,hl,hs⟩ := h.agree
  rw [hl.lookup hdir]
  exact hs.lookup name

theorem OnVolume.mknod {isDir : Bool} {nid : UInt32} (h : OnVolume ns parent.ino img) (hfresh : nid ≠ parent.ino)
    (hnul : 0 ∉ name) (hroom : img.iDentryNum ≠ 4294967295) (ha : Allocated img commit.lpas)
    (hns : rtfsMknod ns parent name isDir nid = .ok ns')
    (hr : DirEntries.Volume.rtfsMknodName add commit img fuel name (some nid.toUInt64)
      (if isDir then rtfsFtDir else RtfsFileType.regFile.code) = some (.ok out)) : OnVolume ns' parent.ino out.img := by
  obtain ⟨m,n,c,es,hl,hs⟩ := h.agree
  obtain ⟨hnid,-,hl'⟩ := hl.mknod hfresh hns
  have hino := wide_ne hnid
  obtain ⟨⟨s',hspec,c',es',hs'⟩,-⟩ := (DirEntries.DirStep.create hnul hino hroom ha hr).refines hs
  cases hspec
  exact ⟨_,_,c',es',hl',hs'⟩

theorem OnVolume.rmnod (h : OnVolume ns parent.ino img) (hv : ValidName name) (ha : Allocated img commit.lpas)
    (hns : rtfsRmnod ns parent target name = .ok ns')
    (hr : DirEntries.Volume.rtfsUnlinkFromParentAndCommit commit img name = .ok out) : OnVolume ns' parent.ino out.img := by
  obtain ⟨m,n,c,es,hl,hs⟩ := h.agree
  obtain ⟨-,hl'⟩ := hl.rmnod hns
  obtain ⟨c',es',hs'⟩ := (hs.unlink hv ha hr).2.shows
  exact ⟨_,_,c',es',hl',hs'⟩

theorem OnVolume.rename {checks : Except Errno Unit} (h : OnVolume ns parent.ino img) (hv : ValidName oldName)
    (hnul : 0 ∉ newName) (hne : oldName ≠ newName) (hz : source.ino ≠ 0) (hroom : img.iDentryNum ≠ 4294967295)
    (ha : Allocated img commit.lpas) (hns : rtfsRename ns parent source parent oldName newName = .ok ns')
    (hr : DirEntries.Volume.rtfsRename add commit img fuel checks oldName newName source.ino.toUInt64
      source.fileType.code = some (.ok out)) : OnVolume ns' parent.ino out.img := by
  obtain ⟨m,n,c,es,hl,hs⟩ := h.agree
  obtain ⟨-,hl'⟩ := hl.rename hne hns
  have hino := wide_ne hz
  obtain ⟨c',es',hs'⟩ := (hs.rename hv hnul hne hino hroom ha hr).2.shows
  exact ⟨_,_,c',es',hl',hs'⟩

theorem onVolume_created {dir p : UInt32} (hi : ns.inodes dir = some (rtfsInitCreatedInode p name true))
    (hnew : DirEntries.NewDir img) : OnVolume ns dir img :=
  ⟨_,_,_,_,⟨_,hi,List.nodup_nil,rfl,rfl⟩,hnew.shows⟩

-- a call on a name of the directory, in the namespace and on the volume
inductive VolumeStep (parent : RtfsRuntimeInodeView) : Namespace × DirImage → Namespace × DirImage → Prop
  | mknod {ns ns' : Namespace} {img : DirImage} {add : AddAnswers} {commit : CommitAnswers} {fuel : Nat} {name : FileName}
      {isDir : Bool} {nid : UInt32} {out : DirEntries.Volume.Committed} (hfresh : nid ≠ parent.ino) (hnul : 0 ∉ name)
      (hroom : img.iDentryNum ≠ 4294967295) (ha : Allocated img commit.lpas)
      (hns : rtfsMknod ns parent name isDir nid = .ok ns')
      (hr : DirEntries.Volume.rtfsMknodName add commit img fuel name (some nid.toUInt64)
        (if isDir then rtfsFtDir else RtfsFileType.regFile.code) = some (.ok out)) :
      VolumeStep parent (ns,img) (ns',out.img)
  | rmnod {ns ns' : Namespace} {img : DirImage} {commit : CommitAnswers} {name : FileName} {target : RtfsRuntimeInodeView}
      {out : DirEntries.Volume.Committed} (hv : ValidName name) (ha : Allocated img commit.lpas)
      (hns : rtfsRmnod ns parent target name = .ok ns')
      (hr : DirEntries.Volume.rtfsUnlinkFromParentAndCommit commit img name = .ok out) :
      VolumeStep parent (ns,img) (ns',out.img)
  | rename {ns ns' : Namespace} {img : DirImage} {add : AddAnswers} {commit : CommitAnswers} {fuel : Nat}
      {checks : Except Errno Unit} {oldName newName : FileName} {source : RtfsRuntimeInodeView}
      {out : DirEntries.Volume.Committed} (hv : ValidName oldName) (hnul : 0 ∉ newName) (hne : oldName ≠ newName)
      (hz : source.ino ≠ 0) (hroom : img.iDentryNum ≠ 4294967295) (ha : Allocated img commit.lpas)
      (hns : rtfsRename ns parent source parent oldName newName = .ok ns')
      (hr : DirEntries.Volume.rtfsRename add commit img fuel checks oldName newName source.ino.toUInt64
        source.fileType.code = some (.ok out)) : VolumeStep parent (ns,img) (ns',out.img)
  | outside {ns : Namespace} {img img' : DirImage} (h : DirEntries.Outside img img') :
      VolumeStep parent (ns,img) (ns,img')

theorem VolumeStep.onVolume {s s' : Namespace × DirImage} (hs : VolumeStep parent s s')
    (h : OnVolume s.1 parent.ino s.2) : OnVolume s'.1 parent.ino s'.2 := by
  cases hs with
  | mknod hfresh hnul hroom ha hns hr => exact h.mknod hfresh hnul hroom ha hns hr
  | rmnod hv ha hns hr => exact h.rmnod hv ha hns hr
  | rename hv hnul hne hz hroom ha hns hr => exact h.rename hv hnul hne hz hroom ha hns hr
  | outside ho =>
    obtain ⟨m,n,c,es,hl,hs⟩ := h.agree
    exact ⟨m,n,c,es,hl,hs.outside ho⟩

theorem volumeRun_agrees {s s' : Namespace × DirImage} (h : OnVolume s.1 parent.ino s.2)
    (hrun : Relation.ReflTransGen (VolumeStep parent) s s') : OnVolume s'.1 parent.ino s'.2 := by
  induction hrun with
  | refl => exact h
  | tail _ hstep ih => exact hstep.onVolume ih

end OnVolume

end Rtfs
