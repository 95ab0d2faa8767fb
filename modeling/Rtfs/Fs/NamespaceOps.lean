import Rtfs.Fs.NamespaceTree

namespace Rtfs

structure Lists (i : RtfsInode) (N : RtfsMemDirEntry → Prop) : Prop where
  dentryNum : i.dentryNum = i.entries.length
  nodup : (i.entries.map RtfsMemDirEntry.name).Nodup
  entries : ∀ e, e ∈ i.entries ↔ N e

structure DirOk (t : NamespaceTree) (root d : UInt32) (i : RtfsInode) : Prop where
  nlink : i.nlink = 2 + subdirs i.entries
  lists : Lists i (t.Names root d)

structure InodeOk (t : NamespaceTree) (root x : UInt32) (i : RtfsInode) : Prop where
  linked : i.nlink ≠ 0
  type : i.type = t.type x
  pino : i.pino = t.parent x
  dir : t.type x = .dir → DirOk t root x i

structure Represents (root : UInt32) (ns : Namespace) (t : NamespaceTree) : Prop where
  inode : ∀ x ∈ t.live, ∃ i, ns.inodes x = some i ∧ InodeOk t root x i
  dead : ∀ x ∉ t.live, ∀ i, ns.inodes x = some i → i.nlink = 0

section Set
variable {ns : Namespace} {a b : UInt32} {i j : RtfsInode}

@[simp] theorem set_self : (ns.set a i).inodes a = some i := Function.update_self ..

theorem set_ne (h : b ≠ a) : (ns.set a i).inodes b = ns.inodes b := Function.update_of_ne h ..

@[simp] theorem set_set : (ns.set a i).set a j = ns.set a j := by
  unfold Namespace.set
  rw [Function.update_idem]

theorem set_comm (h : a ≠ b) : (ns.set b j).set a i = (ns.set a i).set b j := by
  unfold Namespace.set
  rw [Function.update_comm h.symm]

end Set

section Lists
variable {N N' : RtfsMemDirEntry → Prop} {i : RtfsInode} {name : FileName} {e : RtfsMemDirEntry}

theorem Lists.congr (h : Lists i N) (hn : ∀ e, N' e ↔ N e) : Lists i N' :=
  ⟨h.dentryNum,h.nodup,fun e => (h.entries e).trans (hn e).symm⟩

theorem Lists.fields (h : Lists i N) (ty : RtfsFileType) (l : Nat) (p : UInt32) (n : FileName) :
    Lists ⟨ty,l,p,n,i.dentryNum,i.entries⟩ N := ⟨h.dentryNum,h.nodup,h.entries⟩

theorem Lists.name_ne (h : Lists i N) (hf : rtfsDirInodeFindEntry i.entries name = none)
    (he : N e) : e.name ≠ name := findEntry_none.mp hf e ((h.entries e).mpr he)

theorem Lists.add (h : Lists i N) (hf : rtfsDirInodeFindEntry i.entries e.name = none)
    (ty : RtfsFileType) (l : Nat) (p : UInt32) (n : FileName) :
    Lists ⟨ty,l,p,n,i.dentryNum + 1,i.entries ++ [e]⟩ (fun x => N x ∨ x = e) := by
  constructor
  · simp only [List.length_append,List.length_singleton,h.dentryNum]
  · simp only [List.map_append,List.map_singleton]
    refine List.Nodup.append h.nodup (List.nodup_singleton _) ?_
    intro x hx hx'
    obtain ⟨y,hy,rfl⟩ := List.mem_map.mp hx
    exact findEntry_none.mp hf y hy (List.mem_singleton.mp hx')
  · intro x
    simp only [List.mem_append,List.mem_singleton]
    rw [h.entries]

theorem Lists.erase (h : Lists i N) (hf : rtfsDirInodeFindEntry i.entries name = some e)
    (ty : RtfsFileType) (l : Nat) (p : UInt32) (n : FileName) :
    Lists ⟨ty,l,p,n,i.dentryNum - 1,i.entries.eraseP (fun e => e.name = name)⟩
      (fun x => N x ∧ x.name ≠ name) := by
  obtain ⟨hnd,hmem⟩ := erase_nodup h.nodup hf
  have hlen := erase_length hf
  have hnum := h.dentryNum
  constructor
  · simp only
    omega
  · exact hnd
  · intro x
    simp only
    rw [hmem,h.entries]

end Lists

section Tree
variable {t : NamespaceTree} {root x d : UInt32} {n : FileName} {ty : RtfsFileType}

theorem names_create (hok : t.Ok root) (hx : x ∉ t.live) (d' : UInt32) (e : RtfsMemDirEntry) :
    (t.create x d n ty).Names root d' e ↔ t.Names root d' e ∨ d' = d ∧ e = ⟨x,ty,n⟩ := by
  have hr : x ≠ root := fun he => hx (he ▸ hok.rootLive)
  unfold NamespaceTree.Names NamespaceTree.create
  by_cases he : e.ino = x
  · simp only [he,Function.update_self,Set.mem_insert_iff,true_or,true_and,hx,false_and,false_or]
    constructor
    · rintro ⟨_,hd,hn,ht⟩
      refine ⟨hd.symm,?_⟩
      obtain ⟨i,ty',n'⟩ := e
      simp only at he hn ht
      rw [he,hn,ht]
    · rintro ⟨rfl,rfl⟩
      exact ⟨hr,rfl,rfl,rfl⟩
  · simp only [Function.update_of_ne he,Set.mem_insert_iff,he,false_or]
    constructor
    · exact Or.inl
    · rintro (h | ⟨_,rfl⟩)
      · exact h
      · exact absurd rfl he

theorem names_remove (d' : UInt32) (e : RtfsMemDirEntry) :
    (t.remove x).Names root d' e ↔ t.Names root d' e ∧ e.ino ≠ x := by
  unfold NamespaceTree.Names NamespaceTree.remove
  simp only [Set.mem_sdiff,Set.mem_singleton_iff]
  tauto

theorem names_move (hx : x ∈ t.live) (hr : x ≠ root) (d' : UInt32) (e : RtfsMemDirEntry) :
    (t.move x d n).Names root d' e ↔
      (t.Names root d' e ∧ e.ino ≠ x) ∨ d' = d ∧ e = ⟨x,t.type x,n⟩ := by
  unfold NamespaceTree.Names NamespaceTree.move
  by_cases he : e.ino = x
  · simp only [he,Function.update_self,hx,ne_eq,not_true_eq_false,and_false,false_or,true_and]
    constructor
    · rintro ⟨_,hd,hn,ht⟩
      refine ⟨hd.symm,?_⟩
      obtain ⟨i,ty',n'⟩ := e
      simp only at he hn ht
      rw [he,hn,ht]
    · rintro ⟨rfl,rfl⟩
      exact ⟨hr,rfl,rfl,rfl⟩
  · simp only [Function.update_of_ne he,ne_eq,he,not_false_eq_true,and_true]
    constructor
    · exact Or.inl
    · rintro (h | ⟨_,rfl⟩)
      · exact h
      · exact absurd rfl he

theorem names_other (hok : t.Ok root) {e : RtfsMemDirEntry} (hx : x ∈ t.live) (hr : x ≠ root)
    (he : t.Names root (t.parent x) e) : e.ino ≠ x ↔ e.name ≠ t.name x := by
  obtain ⟨hlive,hroot,hpar,hname,_⟩ := he
  constructor
  · intro hne hn
    exact hne (hok.names _ hlive _ hx hroot hr hpar (hname.trans hn))
  · rintro hne rfl
    exact hne hname.symm

end Tree

section Refine
variable {root nid : UInt32} {ns ns' : Namespace} {t t' : NamespaceTree} {parent target : RtfsRuntimeInodeView}
  {name : FileName} {isDir : Bool} {x : UInt32} {i : RtfsInode}

def dirBit (ty : RtfsFileType) : Nat := if ty = .dir then 1 else 0

theorem InodeOk.frame (h : InodeOk t root x i) (hty : t'.type x = t.type x)
    (hp : t'.parent x = t.parent x) (hn : ∀ e, t'.Names root x e ↔ t.Names root x e) :
    InodeOk t' root x i := by
  refine ⟨h.linked,h.type.trans hty.symm,h.pino.trans hp.symm,fun hd => ?_⟩
  have hdir := h.dir (hty.symm.trans hd)
  exact ⟨hdir.nlink,hdir.lists.congr hn⟩

theorem Represents.live_of_linked (h : Represents root ns t) (hi : ns.inodes x = some i)
    (hl : i.nlink ≠ 0) : x ∈ t.live := by
  by_contra hx
  exact hl (h.dead x hx i hi)

theorem Represents.inode_of (h : Represents root ns t) (hx : x ∈ t.live)
    (hi : ns.inodes x = some i) : InodeOk t root x i := by
  obtain ⟨j,hj,hok⟩ := h.inode x hx
  rw [hi] at hj
  cases hj
  exact hok

theorem Represents.not_live (h : Represents root ns t) (hx : ns.inodes x = none) : x ∉ t.live := by
  intro hl
  obtain ⟨i,hi,_⟩ := h.inode x hl
  rw [hx] at hi
  cases hi

theorem validateParent_ok (h : rtfsValidateParentDir parent name = .ok ()) : parent.fileType = .dir := by
  unfold rtfsValidateParentDir at h
  split at h
  · cases h
  · rename_i hd
    simpa [rtfsInodeIsDirectoryType] using hd

theorem mknod_ok (h : rtfsMknod ns parent name isDir nid = .ok ns') (hne : parent.ino ≠ nid) :
    parent.fileType = .dir ∧ ∃ i, ns.inodes parent.ino = some i ∧
      rtfsDirInodeFindEntry i.entries name = none ∧
      ns' = (ns.set nid (rtfsInitCreatedInode parent.ino name isDir)).set parent.ino
        ⟨i.type,i.nlink + dirBit (if isDir then .dir else .regFile),i.pino,i.name,i.dentryNum + 1,
          i.entries ++ [⟨nid,if isDir then .dir else .regFile,name⟩]⟩ := by
  obtain ⟨_,hv,h⟩ := Except.bind_ok h
  refine ⟨validateParent_ok hv,?_⟩
  split at h
  · cases h
  · split at h
    · cases h
    · cases isDir with
      | false =>
        obtain ⟨ns₂,hadj,hadd⟩ := Except.bind_ok h
        cases hadj
        obtain ⟨i,hi,hf,rfl⟩ := addEntry_ok hadd
        rw [set_ne hne] at hi
        exact ⟨i,hi,hf,by simp [dirBit]⟩
      | true =>
        obtain ⟨ns₂,hadj,hadd⟩ := Except.bind_ok h
        obtain ⟨j,hj,rfl⟩ := adjustUp_ok hadj
        obtain ⟨i,hi,hf,rfl⟩ := addEntry_ok hadd
        rw [set_self] at hi
        cases hi
        rw [set_ne hne] at hj
        exact ⟨j,hj,hf,by simp [dirBit]⟩
  · cases h

theorem created_ok (hok : t.Ok root) (hx : nid ∉ t.live) {d : UInt32} (hne : nid ≠ d) :
    InodeOk (t.create nid d name (if isDir then .dir else .regFile)) root nid
      (rtfsInitCreatedInode d name isDir) := by
  constructor
  · cases isDir <;> simp [rtfsInitCreatedInode]
  · simp [rtfsInitCreatedInode,NamespaceTree.create]
  · simp [rtfsInitCreatedInode,NamespaceTree.create]
  · intro hd
    refine ⟨?_,rfl,List.nodup_nil,fun e => ?_⟩
    · cases isDir with
      | true => rfl
      | false => simp [NamespaceTree.create] at hd
    · rw [names_create hok hx]
      simp only [rtfsInitCreatedInode,List.not_mem_nil,false_iff,not_or,not_and]
      refine ⟨fun hn => hx ?_,fun hnd => absurd hnd hne⟩
      rw [← hn.2.2.1]
      exact (hok.parents _ hn.1 hn.2.1).1

theorem mknod_refines (hr : Represents root ns t) (hok : t.Ok root) (hp : parent.ino ∈ t.live)
    (hty : t.type parent.ino = parent.fileType) (hfree : ns.inodes nid = none)
    (h : rtfsMknod ns parent name isDir nid = .ok ns') :
    ∃ t', Represents root ns' t' ∧ t'.Ok root := by
  have hx := hr.not_live hfree
  have hne : parent.ino ≠ nid := fun he => hx (he ▸ hp)
  obtain ⟨hdir,i,hi,hf,rfl⟩ := mknod_ok h hne
  have hpi := hr.inode_of hp hi
  have hpd := hpi.dir (hty.trans hdir)
  set ty : RtfsFileType := if isDir then .dir else .regFile with htydef
  refine ⟨t.create nid parent.ino name ty,?_,?_⟩
  · constructor
    · intro y hy
      by_cases hyp : y = parent.ino
      · subst hyp
        refine ⟨_,set_self,?_,?_,?_,fun _ => ⟨?_,?_⟩⟩
        · have := hpi.linked
          simp only
          omega
        · simp only [NamespaceTree.create,Function.update_of_ne hne]
          exact hpi.type
        · simp only [NamespaceTree.create,Function.update_of_ne hne]
          exact hpi.pino
        · simp only [subdirs_append,hpd.nlink,dirBit]
          omega
        · refine (hpd.lists.add hf i.type _ i.pino i.name).congr (fun e => ?_)
          rw [names_create hok hx]
          simp only [true_and]
      · rw [set_ne hyp]
        by_cases hyn : y = nid
        · subst hyn
          exact ⟨_,set_self,created_ok hok hx hyp⟩
        · rw [set_ne hyn]
          obtain ⟨j,hj,hjok⟩ := hr.inode y (hy.resolve_left hyn)
          refine ⟨j,hj,hjok.frame (Function.update_of_ne hyn ..) (Function.update_of_ne hyn ..) ?_⟩
          intro e
          rw [names_create hok hx]
          exact or_iff_left (fun hc => hyp hc.1)
    · intro y hy j hj
      have hyn : y ≠ nid := fun he => hy (Or.inl he)
      have hyl : y ∉ t.live := fun hl => hy (Or.inr hl)
      have hyp : y ≠ parent.ino := fun he => hyl (he ▸ hp)
      rw [set_ne hyp,set_ne hyn] at hj
      exact hr.dead y hyl j hj
  · refine hok.create hx hp (hty.trans hdir) ?_
    intro y hy hyr hyp hyn
    have hmem : (⟨y,t.type y,name⟩ : RtfsMemDirEntry) ∈ i.entries :=
      (hpd.lists.entries _).mpr ⟨hy,hyr,hyp,hyn,rfl⟩
    exact findEntry_none.mp hf _ hmem rfl

theorem removable_ok {ti : RtfsInode} (h : rtfsTargetIsRemovableEmptyObject target ti = .ok ()) :
    target.fileType = .dir → ti.dentryNum = 0 := by
  intro hd
  unfold rtfsTargetIsRemovableEmptyObject at h
  rw [if_pos (by simp [rtfsInodeIsDirectoryType,hd])] at h
  by_contra hn
  rw [if_pos hn] at h
  cases h

theorem rmnod_ok (h : rtfsRmnod ns parent target name = .ok ns') :
    parent.fileType = .dir ∧ parent.ino ≠ target.ino ∧
      ∃ ti, ns.inodes target.ino = some ti ∧ (target.fileType = .dir → ti.dentryNum = 0) ∧
      ∃ i e p, ns.inodes parent.ino = some i ∧ rtfsDirInodeFindEntry i.entries name = some e ∧
        ns' = (ns.set target.ino ⟨ti.type,0,p,ti.name,ti.dentryNum,ti.entries⟩).set parent.ino
          ⟨i.type,i.nlink - dirBit target.fileType,i.pino,i.name,i.dentryNum - 1,
            i.entries.eraseP (fun e => e.name = name)⟩ := by
  unfold rtfsRmnod at h
  split at h
  · cases h
  · rename_i hd
    split at h
    · cases h
    · rename_i hne
      split at h
      · cases h
      · obtain ⟨ti,hti,h⟩ := Except.bind_ok h
        obtain ⟨_,hrem,h⟩ := Except.bind_ok h
        obtain ⟨ns₁,hmark,h⟩ := Except.bind_ok h
        obtain ⟨ti',hti',p,rfl⟩ := markUnlinked_ok hmark
        rw [resolve_ok hti] at hti'
        cases hti'
        refine ⟨by simpa [rtfsInodeIsDirectoryType] using hd,hne,ti,resolve_ok hti,removable_ok hrem,?_⟩
        by_cases htd : target.fileType = .dir
        · rw [if_pos (by simpa [rtfsInodeIsDirectoryType] using htd)] at h
          obtain ⟨ns₂,hadj,h⟩ := Except.bind_ok h
          obtain ⟨j,hj,rfl⟩ := adjustDown_ok hadj
          obtain ⟨i,e,hi,he,rfl⟩ := removeEntry_ok h
          rw [set_self] at hi
          cases hi
          rw [set_ne hne] at hj
          exact ⟨j,e,p,hj,he,by simp [dirBit,htd]⟩
        · rw [if_neg (by simpa [rtfsInodeIsDirectoryType] using htd)] at h
          obtain ⟨ns₂,hadj,h⟩ := Except.bind_ok h
          cases hadj
          obtain ⟨i,e,hi,he,rfl⟩ := removeEntry_ok h
          rw [set_ne hne] at hi
          exact ⟨i,e,p,hi,he,by simp [dirBit,htd]⟩

theorem InodeOk.leaf (h : InodeOk t root x i) (hok : t.Ok root) (he : t.type x = .dir → i.dentryNum = 0) :
    ∀ y ∈ t.live, y ≠ root → t.parent y ≠ x := by
  intro y hy hyr hyx
  have hdir : t.type x = .dir := hyx ▸ (hok.parents y hy hyr).2
  have hlists := (h.dir hdir).lists
  have hnil : i.entries = [] := List.eq_nil_of_length_eq_zero (hlists.dentryNum ▸ he hdir)
  have hmem := (hlists.entries ⟨y,t.type y,t.name y⟩).mpr ⟨hy,hyr,hyx,rfl,rfl⟩
  rw [hnil] at hmem
  cases hmem

theorem resolved_entry (hr : Represents root ns t) (hp : parent.ino ∈ t.live)
    (hty : t.type parent.ino = .dir) (h : rtfsResolveNameInParent ns parent name = .ok target) :
    target.ino ∈ t.live ∧ target.ino ≠ root ∧ t.parent target.ino = parent.ino ∧
      t.name target.ino = name ∧ t.type target.ino = target.fileType := by
  obtain ⟨i,e,hi,he,rfl⟩ := resolveName_ok h
  obtain ⟨hmem,hname⟩ := findEntry_some he
  rw [← hname]
  exact (((hr.inode_of hp hi).dir hty).lists.entries e).mp hmem

theorem rmnod_refines (hr : Represents root ns t) (hok : t.Ok root) (hp : parent.ino ∈ t.live)
    (hty : t.type parent.ino = parent.fileType) (hloc : rtfsResolveNameInParent ns parent name = .ok target)
    (h : rtfsRmnod ns parent target name = .ok ns') : ∃ t', Represents root ns' t' ∧ t'.Ok root := by
  obtain ⟨hdir,hne,ti,hti,hempty,i,e,p,hi,he,rfl⟩ := rmnod_ok h
  obtain ⟨htl,htr,htp,htn,htt⟩ := resolved_entry hr hp (hty.trans hdir) hloc
  have hpi := hr.inode_of hp hi
  have hpd := hpi.dir (hty.trans hdir)
  have hleaf := (hr.inode_of htl hti).leaf hok (fun hd => hempty (htt.symm.trans hd))
  have hbit : dirBit target.fileType = if e.fileType = .dir then 1 else 0 := by
    obtain ⟨i',e',hi',he',rfl⟩ := resolveName_ok hloc
    rw [hi] at hi'
    cases hi'
    rw [he] at he'
    cases he'
    rfl
  have hsub := erase_subdirs he
  have hlink := hpd.nlink
  refine ⟨t.remove target.ino,⟨?_,?_⟩,hok.remove htr hleaf⟩
  · rintro y ⟨hy,hyt⟩
    by_cases hyp : y = parent.ino
    · subst hyp
      refine ⟨_,set_self,?_,hpi.type,hpi.pino,fun _ => ⟨?_,?_⟩⟩
      · simp only
        omega
      · simp only
        omega
      · refine (hpd.lists.erase he i.type _ i.pino i.name).congr (fun x => ?_)
        rw [names_remove]
        constructor
        · rintro ⟨hx,hxt⟩
          exact ⟨hx,htn ▸ (names_other hok htl htr (htp.symm ▸ hx)).mp hxt⟩
        · rintro ⟨hx,hxn⟩
          exact ⟨hx,(names_other hok htl htr (htp.symm ▸ hx)).mpr (htn.symm ▸ hxn)⟩
    · obtain ⟨j,hj,hjok⟩ := hr.inode y hy
      rw [set_ne hyp,set_ne hyt]
      refine ⟨j,hj,hjok.frame rfl rfl (fun x => ?_)⟩
      rw [names_remove]
      refine and_iff_left_of_imp (fun hx hxt => hyp ?_)
      rw [← hx.2.2.1,hxt,htp]
  · intro y hy j hj
    by_cases hyt : y = target.ino
    · rw [hyt,set_ne hne.symm,set_self] at hj
      cases hj
      rfl
    · have hyl : y ∉ t.live := fun hl => hy ⟨hl,hyt⟩
      have hyp : y ≠ parent.ino := fun heq => hyl (heq ▸ hp)
      rw [set_ne hyp,set_ne hyt] at hj
      exact hr.dead y hyl j hj

end Refine

end Rtfs
