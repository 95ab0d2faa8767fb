import Rtfs.Fs.FsHandler
import Rtfs.Lib.ParentTree
import Mathlib.Tactic
import Rtfs.Lib.Outcome

namespace Rtfs

section Entries
variable {entries : List RtfsMemDirEntry} {name : FileName} {e : RtfsMemDirEntry}

def subdirs (entries : List RtfsMemDirEntry) : Nat := entries.countP (fun e => e.fileType = .dir)

theorem findEntry_some (h : rtfsDirInodeFindEntry entries name = some e) : e ∈ entries ∧ e.name = name := by
  unfold rtfsDirInodeFindEntry at h
  exact ⟨List.mem_of_find?_eq_some h,by simpa using List.find?_some h⟩

theorem findEntry_none : rtfsDirInodeFindEntry entries name = none ↔ ∀ e ∈ entries, e.name ≠ name := by
  unfold rtfsDirInodeFindEntry
  simp

theorem erase_perm (h : rtfsDirInodeFindEntry entries name = some e) :
    entries.Perm (e :: entries.eraseP (fun e => e.name = name)) := by
  induction entries with
  | nil => cases h
  | cons x xs ih =>
    unfold rtfsDirInodeFindEntry at h
    by_cases hx : x.name = name
    · rw [List.find?_cons_of_pos (by simpa using hx)] at h
      cases h
      rw [List.eraseP_cons_of_pos (by simpa using hx)]
    · rw [List.find?_cons_of_neg (by simpa using hx)] at h
      rw [List.eraseP_cons_of_neg (by simpa using hx)]
      exact ((ih h).cons x).trans (List.Perm.swap e x _)

theorem erase_nodup (hn : (entries.map RtfsMemDirEntry.name).Nodup)
    (h : rtfsDirInodeFindEntry entries name = some e) :
    ((entries.eraseP (fun e => e.name = name)).map RtfsMemDirEntry.name).Nodup ∧
      ∀ x, x ∈ entries.eraseP (fun e => e.name = name) ↔ x ∈ entries ∧ x.name ≠ name := by
  have hp := erase_perm h
  have hname := (findEntry_some h).2
  have hnd : ((e :: entries.eraseP (fun e => e.name = name)).map RtfsMemDirEntry.name).Nodup :=
    (hp.map RtfsMemDirEntry.name).nodup_iff.mp hn
  obtain ⟨hnot,hrest⟩ := List.nodup_cons.mp hnd
  refine ⟨hrest,fun x => ?_⟩
  rw [hp.mem_iff,List.mem_cons]
  constructor
  · intro hx
    refine ⟨Or.inr hx,fun hxe => hnot ?_⟩
    rw [hname]
    exact List.mem_map.mpr ⟨x,hx,hxe⟩
  · rintro ⟨rfl | hx,hne⟩
    · exact absurd hname hne
    · exact hx

theorem erase_length (h : rtfsDirInodeFindEntry entries name = some e) :
    (entries.eraseP (fun e => e.name = name)).length + 1 = entries.length := by
  rw [(erase_perm h).length_eq,List.length_cons]

theorem erase_subdirs (h : rtfsDirInodeFindEntry entries name = some e) :
    subdirs (entries.eraseP (fun e => e.name = name)) + (if e.fileType = .dir then 1 else 0) =
      subdirs entries := by
  unfold subdirs
  rw [(erase_perm h).countP_eq,List.countP_cons]
  simp only [decide_eq_true_eq]

theorem subdirs_append (e : RtfsMemDirEntry) :
    subdirs (entries ++ [e]) = subdirs entries + if e.fileType = .dir then 1 else 0 := by
  unfold subdirs
  rw [List.countP_append,List.countP_singleton]
  simp only [decide_eq_true_eq]

end Entries

section Primitives
variable {ns ns' : Namespace} {dir : UInt32} {name : FileName} {v : RtfsRuntimeInodeView}

theorem resolve_ok {i : RtfsInode} (h : rtfsResolveTargetInodeHandle ns dir = .ok i) :
    ns.inodes dir = some i := by
  unfold rtfsResolveTargetInodeHandle at h
  split at h
  · cases h
    assumption
  · cases h

theorem addEntry_ok (h : rtfsDirInodeAddEntry ns dir name v = .ok ns') :
    ∃ i, ns.inodes dir = some i ∧ rtfsDirInodeFindEntry i.entries name = none ∧
      ns' = ns.set dir ⟨i.type,i.nlink,i.pino,i.name,i.dentryNum + 1,
        i.entries ++ [⟨v.ino,v.fileType,name⟩]⟩ := by
  obtain ⟨i,hi,h⟩ := Except.bind_ok h
  split at h
  · cases h
  · split at h
    · cases h
    · rename_i hf
      cases h
      exact ⟨i,resolve_ok hi,Option.not_isSome_iff_eq_none.mp hf,rfl⟩

theorem removeEntry_ok (h : rtfsDirInodeRemoveEntry ns dir name = .ok ns') :
    ∃ i e, ns.inodes dir = some i ∧ rtfsDirInodeFindEntry i.entries name = some e ∧
      ns' = ns.set dir ⟨i.type,i.nlink,i.pino,i.name,i.dentryNum - 1,
        i.entries.eraseP (fun e => e.name = name)⟩ := by
  obtain ⟨i,hi,h⟩ := Except.bind_ok h
  split at h
  · cases h
  · split at h
    · cases h
    · rename_i hf
      cases h
      obtain ⟨e,he⟩ := Option.ne_none_iff_exists'.mp (fun hn => hf (Option.isNone_iff_eq_none.mpr hn))
      exact ⟨i,e,resolve_ok hi,he,rfl⟩

theorem adjustUp_ok (h : rtfsAdjustParentDirectoryNlink ns v 1 = .ok ns') :
    ∃ i, ns.inodes v.ino = some i ∧
      ns' = ns.set v.ino ⟨i.type,i.nlink + 1,i.pino,i.name,i.dentryNum,i.entries⟩ := by
  obtain ⟨i,hi,h⟩ := Except.bind_ok h
  split at h
  · cases h
  · rw [if_neg (by decide)] at h
    cases h
    exact ⟨i,resolve_ok hi,rfl⟩

theorem adjustDown_ok (h : rtfsAdjustParentDirectoryNlink ns v (-1) = .ok ns') :
    ∃ i, ns.inodes v.ino = some i ∧
      ns' = ns.set v.ino ⟨i.type,i.nlink - 1,i.pino,i.name,i.dentryNum,i.entries⟩ := by
  obtain ⟨i,hi,h⟩ := Except.bind_ok h
  split at h
  · cases h
  · rw [if_pos (by decide)] at h
    split at h
    · cases h
    · cases h
      exact ⟨i,resolve_ok hi,rfl⟩

theorem markUnlinked_ok (h : rtfsMarkTargetInodeUnlinked ns v = .ok ns') :
    ∃ i, ns.inodes v.ino = some i ∧ ∃ p, ns' = ns.set v.ino ⟨i.type,0,p,i.name,i.dentryNum,i.entries⟩ := by
  obtain ⟨i,hi,h⟩ := Except.bind_ok h
  cases h
  exact ⟨i,resolve_ok hi,_,rfl⟩

theorem renameSource_ok {p : Option UInt32} (h : rtfsRenameSourceInode ns dir name p = .ok ns') :
    ∃ i, ns.inodes dir = some i ∧
      ns' = ns.set dir ⟨i.type,i.nlink,p.getD i.pino,name,i.dentryNum,i.entries⟩ := by
  obtain ⟨i,hi,h⟩ := Except.bind_ok h
  cases h
  exact ⟨i,resolve_ok hi,rfl⟩

theorem resolveName_ok {parent : RtfsRuntimeInodeView}
    (h : rtfsResolveNameInParent ns parent name = .ok v) :
    ∃ i e, ns.inodes parent.ino = some i ∧ rtfsDirInodeFindEntry i.entries name = some e ∧
      v = ⟨e.ino,parent.ino,e.fileType⟩ := by
  obtain ⟨_,_,h⟩ := Except.bind_ok h
  obtain ⟨i,hi,h⟩ := Except.bind_ok h
  split at h
  · cases h
    exact ⟨i,_,resolve_ok hi,‹_›,rfl⟩
  · cases h

end Primitives

structure NamespaceTree where
  live : Set UInt32
  parent : UInt32 → UInt32
  name : UInt32 → FileName
  type : UInt32 → RtfsFileType

namespace NamespaceTree
variable (t : NamespaceTree) (root : UInt32)

def Names (d : UInt32) (e : RtfsMemDirEntry) : Prop :=
  e.ino ∈ t.live ∧ e.ino ≠ root ∧ t.parent e.ino = d ∧ t.name e.ino = e.name ∧ t.type e.ino = e.fileType

structure Ok : Prop where
  rootLive : root ∈ t.live
  rootDir : t.type root = .dir
  rootParent : t.parent root = root
  parents : ∀ x ∈ t.live, x ≠ root → t.parent x ∈ t.live ∧ t.type (t.parent x) = .dir
  names : ∀ x ∈ t.live, ∀ y ∈ t.live, x ≠ root → y ≠ root → t.parent x = t.parent y →
    t.name x = t.name y → x = y
  rooted : ∀ x ∈ t.live, Rooted t.parent root x

def create (x d : UInt32) (n : FileName) (ty : RtfsFileType) : NamespaceTree where
  live := insert x t.live
  parent := Function.update t.parent x d
  name := Function.update t.name x n
  type := Function.update t.type x ty

def remove (x : UInt32) : NamespaceTree := { t with live := t.live \ {x} }

def move (x d : UInt32) (n : FileName) : NamespaceTree :=
  { t with parent := Function.update t.parent x d,name := Function.update t.name x n }

variable {t root}

theorem Ok.parent_ne (h : t.Ok root) {x : UInt32} (hx : x ∈ t.live) (hr : x ≠ root) : t.parent x ≠ x := by
  intro he
  exact (h.rooted x hx).acyclic (.single ⟨he,hr⟩)

theorem Ok.create (h : t.Ok root) {x d : UInt32} {n : FileName} {ty : RtfsFileType} (hx : x ∉ t.live)
    (hd : d ∈ t.live) (hdir : t.type d = .dir)
    (hfree : ∀ y ∈ t.live, y ≠ root → t.parent y = d → t.name y ≠ n) : (t.create x d n ty).Ok root := by
  have hne : ∀ y ∈ t.live, y ≠ x := fun y hy he => hx (he ▸ hy)
  have hkeep : ∀ y ∈ t.live, Rooted (Function.update t.parent x d) root y := by
    intro y hy
    refine (h.rooted y hy).congr (· ∈ t.live) hy (fun z hz hr => ⟨(h.parents z hz hr).1,?_⟩)
    exact Function.update_of_ne (hne z hz) _ _
  constructor
  · exact Or.inr h.rootLive
  · simp only [NamespaceTree.create,Function.update_of_ne (hne root h.rootLive)]
    exact h.rootDir
  · simp only [NamespaceTree.create,Function.update_of_ne (hne root h.rootLive)]
    exact h.rootParent
  · rintro y (rfl | hy) hr
    · simp only [NamespaceTree.create,Function.update_self,Function.update_of_ne (hne d hd)]
      exact ⟨Or.inr hd,hdir⟩
    · obtain ⟨hp,ht⟩ := h.parents y hy hr
      simp only [NamespaceTree.create,Function.update_of_ne (hne y hy),Function.update_of_ne (hne _ hp)]
      exact ⟨Or.inr hp,ht⟩
  · rintro y (rfl | hy) z (rfl | hz) hyr hzr hp hn
    · rfl
    · simp only [NamespaceTree.create,Function.update_self,Function.update_of_ne (hne z hz)] at hp hn
      exact absurd hn.symm (hfree z hz hzr hp.symm)
    · simp only [NamespaceTree.create,Function.update_self,Function.update_of_ne (hne y hy)] at hp hn
      exact absurd hn (hfree y hy hyr hp)
    · simp only [NamespaceTree.create,Function.update_of_ne (hne y hy),
        Function.update_of_ne (hne z hz)] at hp hn
      exact h.names y hy z hz hyr hzr hp hn
  · rintro y (rfl | hy)
    · refine .up ?_
      simp only [NamespaceTree.create,Function.update_self]
      exact hkeep d hd
    · exact hkeep y hy

theorem Ok.remove (h : t.Ok root) {x : UInt32} (hr : x ≠ root)
    (hleaf : ∀ y ∈ t.live, y ≠ root → t.parent y ≠ x) : (t.remove x).Ok root := by
  refine ⟨⟨h.rootLive,hr.symm⟩,h.rootDir,h.rootParent,?_,?_,fun y hy => h.rooted y hy.1⟩
  · intro y hy hyr
    exact ⟨⟨(h.parents y hy.1 hyr).1,hleaf y hy.1 hyr⟩,(h.parents y hy.1 hyr).2⟩
  · exact fun y hy z hz => h.names y hy.1 z hz.1

theorem Ok.move (h : t.Ok root) {x d : UInt32} {n : FileName} (hr : x ≠ root) (hd : d ∈ t.live)
    (hdir : t.type d = .dir)
    (hfree : ∀ y ∈ t.live, y ≠ root → y ≠ x → t.parent y = d → t.name y ≠ n)
    (hout : ¬ Above t.parent root x d) : (t.move x d n).Ok root := by
  constructor
  · exact h.rootLive
  · exact h.rootDir
  · simp only [NamespaceTree.move,Function.update_of_ne hr.symm]
    exact h.rootParent
  · intro y hy hyr
    by_cases hyx : y = x
    · simp only [NamespaceTree.move,hyx,Function.update_self]
      exact ⟨hd,hdir⟩
    · simp only [NamespaceTree.move,Function.update_of_ne hyx]
      exact h.parents y hy hyr
  · intro y hy z hz hyr hzr hp hn
    by_cases hyx : y = x
    · by_cases hzx : z = x
      · rw [hyx,hzx]
      · simp only [NamespaceTree.move,hyx,Function.update_self,Function.update_of_ne hzx] at hp hn
        exact absurd hn.symm (hfree z hz hzr hzx hp.symm)
    · by_cases hzx : z = x
      · simp only [NamespaceTree.move,hzx,Function.update_self,Function.update_of_ne hyx] at hp hn
        exact absurd hn (hfree y hy hyr hyx hp)
      · simp only [NamespaceTree.move,Function.update_of_ne hyx,Function.update_of_ne hzx] at hp hn
        exact h.names y hy z hz hyr hzr hp hn
  · exact fun y hy => (h.rooted y hy).move (h.rooted d hd) hout

end NamespaceTree

end Rtfs
