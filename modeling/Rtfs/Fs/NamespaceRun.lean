import Rtfs.Fs.NamespaceRename

namespace Rtfs

inductive NamespaceCall
  | mknod (parent : RtfsRuntimeInodeView) (name : FileName) (isDir : Bool) (nid : UInt32)
  | rmnod (parent target : RtfsRuntimeInodeView) (name : FileName)
  | rename (oldParent source newParent : RtfsRuntimeInodeView) (oldName name : FileName)
  | reclaim (ino : UInt32)

def nodeBlockCacheEntryHandleDeleteNode (ns : Namespace) (ino : UInt32) : Namespace :=
  ⟨Function.update ns.inodes ino none⟩

namespace NamespaceCall

def exec (ns : Namespace) : NamespaceCall → Except Errno Namespace
  | mknod parent name isDir nid => rtfsMknod ns parent name isDir nid
  | rmnod parent target name => rtfsRmnod ns parent target name
  | rename oldParent source newParent oldName name =>
    rtfsRename ns oldParent source newParent oldName name
  | reclaim ino => .ok (nodeBlockCacheEntryHandleDeleteNode ns ino)

-- a created inode takes a free nid, a removed or moved object is what its name resolves to,
-- and only an unlinked inode is handed to the deferred delete
def Resolved (ns : Namespace) : NamespaceCall → Prop
  | mknod _ _ _ nid => ns.inodes nid = none
  | rmnod parent target name => rtfsResolveNameInParent ns parent name = .ok target
  | rename oldParent source _ oldName _ => rtfsResolveNameInParent ns oldParent oldName = .ok source
  | reclaim ino => ∃ i, ns.inodes ino = some i ∧ i.nlink = 0

end NamespaceCall

namespace Namespace
variable (ns : Namespace)

def Linked (x : UInt32) (i : RtfsInode) : Prop := ns.inodes x = some i ∧ i.nlink ≠ 0

def LinkedParent (v : RtfsRuntimeInodeView) : Prop := ∃ i, ns.Linked v.ino i ∧ i.type = v.fileType

def parentOf (x : UInt32) : UInt32 :=
  match ns.inodes x with
  | some i => i.pino
  | none => x

def HoldsEntry (d : UInt32) (e : RtfsMemDirEntry) : Prop :=
  ∃ i, ns.Linked d i ∧ i.type = .dir ∧ e ∈ i.entries

def Child (d x : UInt32) : Prop := ∃ e, ns.HoldsEntry d e ∧ e.ino = x

end Namespace

def NamespaceCall.InTree (root : UInt32) (ns : Namespace) : NamespaceCall → Prop
  | mknod parent _ _ _ => ns.LinkedParent parent
  | rmnod parent _ _ => ns.LinkedParent parent
  | rename oldParent source newParent _ _ =>
    ns.LinkedParent oldParent ∧ ns.LinkedParent newParent ∧
      ¬ Above ns.parentOf root source.ino newParent.ino
  | reclaim _ => True

def mkfsNamespace (root : UInt32) : Namespace :=
  ⟨fun x => if x = root then some ⟨.dir,2,root,[],0,[]⟩ else none⟩

inductive NamespaceRun (allowed : Namespace → NamespaceCall → Prop) (root : UInt32) : Namespace → Prop
  | mkfs : NamespaceRun allowed root (mkfsNamespace root)
  | call {ns ns' : Namespace} {c : NamespaceCall} (h : NamespaceRun allowed root ns)
      (hres : c.Resolved ns) (hallow : allowed ns c) (hexec : c.exec ns = .ok ns') :
      NamespaceRun allowed root ns'

section Tree
variable {root : UInt32} {ns : Namespace} {t : NamespaceTree}

theorem Represents.linked (h : Represents root ns t) {x : UInt32} {i : RtfsInode} (hx : ns.Linked x i) :
    x ∈ t.live ∧ InodeOk t root x i := by
  have hl := h.live_of_linked hx.1 hx.2
  exact ⟨hl,h.inode_of hl hx.1⟩

theorem Represents.linked_of (h : Represents root ns t) {x : UInt32} (hx : x ∈ t.live) :
    ∃ i, ns.Linked x i ∧ InodeOk t root x i := by
  obtain ⟨i,hi,hok⟩ := h.inode x hx
  exact ⟨i,⟨hi,hok.linked⟩,hok⟩

theorem Represents.holdsEntry (h : Represents root ns t) (hok : t.Ok root) {d : UInt32}
    {e : RtfsMemDirEntry} : ns.HoldsEntry d e ↔ t.Names root d e := by
  constructor
  · rintro ⟨i,hi,hty,he⟩
    obtain ⟨_,hiok⟩ := h.linked hi
    exact ((hiok.dir (hiok.type.symm.trans hty)).lists.entries e).mp he
  · intro he
    have hnames := he
    obtain ⟨hl,hr,hp,_,_⟩ := he
    obtain ⟨hdl,hdir⟩ := hok.parents _ hl hr
    rw [hp] at hdl hdir
    obtain ⟨i,hi,hiok⟩ := h.linked_of hdl
    exact ⟨i,hi,hiok.type.trans hdir,((hiok.dir hdir).lists.entries e).mpr hnames⟩

theorem Represents.child (h : Represents root ns t) (hok : t.Ok root) {d x : UInt32} :
    ns.Child d x ↔ x ∈ t.live ∧ x ≠ root ∧ t.parent x = d := by
  constructor
  · rintro ⟨e,he,rfl⟩
    obtain ⟨hl,hr,hp,_⟩ := (h.holdsEntry hok).mp he
    exact ⟨hl,hr,hp⟩
  · rintro ⟨hl,hr,hp⟩
    exact ⟨⟨x,t.type x,t.name x⟩,(h.holdsEntry hok).mpr ⟨hl,hr,hp,rfl,rfl⟩,rfl⟩

theorem Represents.acyclic (h : Represents root ns t) (hok : t.Ok root) (x : UInt32) :
    ¬ Relation.TransGen ns.Child x x := by
  intro hc
  have hlast : x ∈ t.live := by
    obtain ⟨y,_,hy⟩ := Relation.TransGen.tail'_iff.mp hc
    exact ((h.child hok).mp hy).1
  refine (hok.rooted x hlast).acyclic (Relation.TransGen.mono ?_ x x hc.swap)
  intro c p hcp
  obtain ⟨_,hr,hp⟩ := (h.child hok).mp hcp
  exact ⟨hp,hr⟩

theorem Represents.parentOf (h : Represents root ns t) {x : UInt32} (hx : x ∈ t.live) :
    ns.parentOf x = t.parent x := by
  obtain ⟨i,hi,hiok⟩ := h.inode x hx
  unfold Namespace.parentOf
  rw [hi]
  exact hiok.pino

theorem Represents.above (h : Represents root ns t) (hok : t.Ok root) {a x : UInt32} (hx : x ∈ t.live)
    (ha : Above t.parent root a x) : Above ns.parentOf root a x :=
  ha.congr (· ∈ t.live) hx (fun y hy hr => ⟨(hok.parents y hy hr).1,h.parentOf hy⟩)

theorem Represents.linkedParent (h : Represents root ns t) {v : RtfsRuntimeInodeView}
    (hv : ns.LinkedParent v) : v.ino ∈ t.live ∧ t.type v.ino = v.fileType := by
  obtain ⟨i,hi,hty⟩ := hv
  obtain ⟨hl,hiok⟩ := h.linked hi
  exact ⟨hl,hiok.type.symm.trans hty⟩

theorem Represents.reclaim (h : Represents root ns t) {ino : UInt32} {i : RtfsInode}
    (hi : ns.inodes ino = some i) (hzero : i.nlink = 0) :
    Represents root (nodeBlockCacheEntryHandleDeleteNode ns ino) t := by
  have hdead : ∀ x ∈ t.live, x ≠ ino := by
    rintro x hx rfl
    exact (h.inode_of hx hi).linked hzero
  constructor
  · intro x hx
    obtain ⟨j,hj,hjok⟩ := h.inode x hx
    exact ⟨j,(Function.update_of_ne (hdead x hx) ..).trans hj,hjok⟩
  · intro x hx j hj
    by_cases hxi : x = ino
    · simp [nodeBlockCacheEntryHandleDeleteNode,hxi] at hj
    · exact h.dead x hx j ((Function.update_of_ne hxi ..).symm.trans hj)

theorem mkfs_represents (root : UInt32) :
    ∃ t, Represents root (mkfsNamespace root) t ∧ t.Ok root := by
  refine ⟨⟨{root},fun _ => root,fun _ => [],fun _ => .dir⟩,⟨?_,?_⟩,?_⟩
  · rintro x rfl
    refine ⟨_,if_pos rfl,by simp,rfl,rfl,fun _ => ⟨rfl,rfl,List.nodup_nil,fun e => ?_⟩⟩
    simp only [List.not_mem_nil,NamespaceTree.Names,Set.mem_singleton_iff,false_iff]
    tauto
  · intro x hx i hi
    have hxr : x ≠ root := hx
    simp [mkfsNamespace,hxr] at hi
  · constructor
    · rfl
    · rfl
    · rfl
    · exact fun x hx hr => absurd hx hr
    · exact fun x hx y hy hr => absurd hx hr
    · rintro x rfl
      exact .root

theorem call_represents (hr : Represents root ns t) (hok : t.Ok root) {c : NamespaceCall} {ns' : Namespace}
    (hres : c.Resolved ns) (hin : c.InTree root ns) (hexec : c.exec ns = .ok ns') :
    ∃ t', Represents root ns' t' ∧ t'.Ok root := by
  cases c with
  | mknod parent name isDir nid =>
    obtain ⟨hp,hty⟩ := hr.linkedParent hin
    exact mknod_refines hr hok hp hty hres hexec
  | rmnod parent target name =>
    obtain ⟨hp,hty⟩ := hr.linkedParent hin
    exact rmnod_refines hr hok hp hty hres hexec
  | rename oldParent source newParent oldName name =>
    obtain ⟨hold,hnew,hout⟩ := hin
    obtain ⟨ho,hoty⟩ := hr.linkedParent hold
    obtain ⟨hn,hnty⟩ := hr.linkedParent hnew
    obtain ⟨_,hv,_⟩ := Except.bind_ok hres
    exact rename_refines hr hok ho (hoty.trans (validateParent_ok hv)) hn hnty hres
      (fun ha => hout (hr.above hok hn ha)) hexec
  | reclaim ino =>
    obtain ⟨i,hi,hzero⟩ := hres
    cases hexec
    exact ⟨t,hr.reclaim hi hzero,hok⟩

theorem NamespaceRun.represents (h : NamespaceRun (NamespaceCall.InTree root) root ns) :
    ∃ t, Represents root ns t ∧ t.Ok root := by
  induction h with
  | mkfs => exact mkfs_represents root
  | call _ hres hallow hexec ih =>
    obtain ⟨t,hr,hok⟩ := ih
    exact call_represents hr hok hres hallow hexec

end Tree

section Small

def NamespaceCall.behind (c : NamespaceCall) (ns : Namespace) : Namespace := (c.exec ns).toOption.getD ns

end Small

end Rtfs
