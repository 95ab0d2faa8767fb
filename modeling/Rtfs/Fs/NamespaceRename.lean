import Rtfs.Fs.NamespaceOps

namespace Rtfs

def NamespaceTree.drop (t : NamespaceTree) (existing : Option RtfsRuntimeInodeView) : NamespaceTree :=
  match existing with
  | none => t
  | some v => t.remove v.ino

def replacedBit (existing : Option RtfsRuntimeInodeView) : Nat :=
  match existing with
  | none => 0
  | some v => dirBit v.fileType

section Steps
variable {ns ns' : Namespace} {d : UInt32} {name : FileName} {source v : RtfsRuntimeInodeView}
  {existing : Option RtfsRuntimeInodeView} {i : RtfsInode} {N : RtfsMemDirEntry → Prop}

theorem checkReplaced_ok (h : rtfsCheckReplacedTarget ns source v = .ok ()) :
    ∃ ti, ns.inodes v.ino = some ti ∧ (v.fileType = .dir → ti.dentryNum = 0) := by
  unfold rtfsCheckReplacedTarget at h
  split at h
  · cases h
  · split at h
    · cases h
    · obtain ⟨ti,hti,h⟩ := Except.bind_ok h
      exact ⟨ti,resolve_ok hti,removable_ok h⟩

theorem probe_ok {parent : RtfsRuntimeInodeView} (h : rtfsProbeTarget ns parent name = .ok existing) :
    ∀ v ∈ existing, rtfsResolveNameInParent ns parent name = .ok v := by
  intro v hv
  unfold rtfsProbeTarget at h
  split at h
  · rename_i w hw
    rw [hw]
    split at h
    · cases h
      cases hv
    · cases h
      cases hv
      rfl
  · cases h
    cases hv
  · cases h

theorem replaceDentry_ok (h : rtfsReplaceDentry ns d name source existing = .ok ns')
    (hi : ns.inodes d = some i) (hl : Lists i N)
    (hex : ∀ v ∈ existing, ∃ e, rtfsDirInodeFindEntry i.entries name = some e ∧ e.fileType = v.fileType) :
    (∀ v ∈ existing, ∃ ti, ns.inodes v.ino = some ti ∧ (v.fileType = .dir → ti.dentryNum = 0)) ∧
    (existing = none → ∀ e, N e → e.name ≠ name) ∧
    ∃ j, ns' = ns.set d j ∧ j.type = i.type ∧ j.nlink = i.nlink ∧ j.pino = i.pino ∧
      Lists j (fun x => (N x ∧ x.name ≠ name) ∨ x = ⟨source.ino,source.fileType,name⟩) ∧
      subdirs j.entries + replacedBit existing = subdirs i.entries + dirBit source.fileType := by
  cases existing with
  | none =>
    obtain ⟨k,hk,hf,rfl⟩ := addEntry_ok h
    rw [hi] at hk
    cases hk
    refine ⟨by simp,fun _ e => hl.name_ne hf,_,rfl,rfl,rfl,rfl,?_,?_⟩
    · refine (Lists.add (e := ⟨source.ino,source.fileType,name⟩) hl hf i.type _ i.pino i.name).congr
        (fun x => ?_)
      exact or_congr_left (and_iff_left_of_imp (hl.name_ne hf))
    · simp only [subdirs_append,replacedBit,dirBit]
      omega
  | some v =>
    obtain ⟨_,hcheck,h⟩ := Except.bind_ok h
    obtain ⟨ns₁,hrem,hadd⟩ := Except.bind_ok h
    obtain ⟨k,e,hk,he,rfl⟩ := removeEntry_ok hrem
    rw [hi] at hk
    cases hk
    obtain ⟨k,hk,hf,rfl⟩ := addEntry_ok hadd
    rw [set_self] at hk
    cases hk
    refine ⟨?_,(fun hc => by cases hc),_,set_set,rfl,rfl,rfl,?_,?_⟩
    · rintro w ⟨⟩
      exact checkReplaced_ok hcheck
    · exact Lists.add (e := ⟨source.ino,source.fileType,name⟩)
        (hl.erase he i.type _ i.pino i.name) hf i.type _ i.pino i.name
    · obtain ⟨e',he',hty⟩ := hex v rfl
      rw [he] at he'
      cases he'
      have hsub := erase_subdirs he
      simp only [subdirs_append,replacedBit,dirBit,← hty]
      omega

theorem unlinkReplaced_ok {np : RtfsRuntimeInodeView} (h : rtfsUnlinkReplaced ns np existing = .ok ns')
    (hi : ns.inodes np.ino = some i) (hne : ∀ v ∈ existing, np.ino ≠ v.ino) :
    (∀ v ∈ existing, ∃ ti, ns'.inodes v.ino = some ti ∧ ti.nlink = 0) ∧
    ns'.inodes np.ino = some ⟨i.type,i.nlink - replacedBit existing,i.pino,i.name,i.dentryNum,i.entries⟩ ∧
    ∀ x, x ≠ np.ino → (∀ v ∈ existing, x ≠ v.ino) → ns'.inodes x = ns.inodes x := by
  cases existing with
  | none =>
    cases h
    exact ⟨by simp,hi,fun x _ _ => rfl⟩
  | some v =>
    have hnv := hne v rfl
    obtain ⟨ns₁,hmark,h⟩ := Except.bind_ok h
    obtain ⟨ti,hti,p,rfl⟩ := markUnlinked_ok hmark
    by_cases hd : v.fileType = .dir
    · rw [if_pos (by simpa [rtfsInodeIsDirectoryType] using hd)] at h
      obtain ⟨k,hk,rfl⟩ := adjustDown_ok h
      rw [set_ne hnv,hi] at hk
      cases hk
      refine ⟨?_,by simp [replacedBit,dirBit,hd],?_⟩
      · rintro w ⟨⟩
        rw [set_ne hnv.symm]
        exact ⟨_,set_self,rfl⟩
      · intro x hx hxv
        rw [set_ne hx,set_ne (hxv v rfl)]
    · rw [if_neg (by simpa [rtfsInodeIsDirectoryType] using hd)] at h
      cases h
      refine ⟨?_,?_,?_⟩
      · rintro w ⟨⟩
        exact ⟨_,set_self,rfl⟩
      · rw [set_ne hnv,hi]
        simp [replacedBit,dirBit,hd]
      · intro x _ hxv
        rw [set_ne (hxv v rfl)]

end Steps

structure Renaming (root : UInt32) (t : NamespaceTree) (op np src : UInt32) (newName : FileName)
    (existing : Option RtfsRuntimeInodeView) : Prop where
  srcLive : src ∈ t.live
  srcRoot : src ≠ root
  srcParent : t.parent src = op
  srcOut : src ≠ np
  npLive : np ∈ t.live
  npDir : t.type np = .dir
  replaced : ∀ v ∈ existing, v.ino ∈ t.live ∧ v.ino ≠ root ∧ t.parent v.ino = np ∧
    t.name v.ino = newName ∧ v.ino ≠ src ∧ (∀ y ∈ t.live, y ≠ root → t.parent y ≠ v.ino)
  free : existing = none → ∀ e, t.Names root np e → e.name ≠ newName

section Refine
variable {root op np src : UInt32} {ns ns' : Namespace} {t : NamespaceTree} {newName : FileName}
  {existing : Option RtfsRuntimeInodeView}

theorem names_drop (d : UInt32) (e : RtfsMemDirEntry) :
    (t.drop existing).Names root d e ↔ t.Names root d e ∧ ∀ v ∈ existing, e.ino ≠ v.ino := by
  cases existing with
  | none => simp [NamespaceTree.drop]
  | some v => simp [NamespaceTree.drop,names_remove]

theorem Renaming.replaced_ne (h : Renaming root t op np src newName existing)
    {v : RtfsRuntimeInodeView} (hv : v ∈ existing) : v.ino ≠ np ∧ v.ino ≠ op := by
  obtain ⟨hl,hr,hp,_,_,hleaf⟩ := h.replaced v hv
  refine ⟨fun he => hleaf v.ino hl hr (hp.trans he.symm),fun he => ?_⟩
  exact hleaf src h.srcLive h.srcRoot (h.srcParent.trans he.symm)

theorem Renaming.name_iff (h : Renaming root t op np src newName existing) (hok : t.Ok root)
    {e : RtfsMemDirEntry} (he : t.Names root np e) :
    (∀ v ∈ existing, e.ino ≠ v.ino) ↔ e.name ≠ newName := by
  cases existing with
  | none => simp [h.free rfl e he]
  | some v =>
    obtain ⟨hl,hr,hp,hn,_,_⟩ := h.replaced v rfl
    subst hp
    simpa [hn] using names_other hok hl hr he

theorem Renaming.ok (h : Renaming root t op np src newName existing) (hok : t.Ok root)
    (hout : ¬ Above t.parent root src np) : ((t.drop existing).move src np newName).Ok root := by
  have hdrop : (t.drop existing).Ok root := by
    cases existing with
    | none => exact hok
    | some v =>
      obtain ⟨_,hr,_,_,_,hleaf⟩ := h.replaced v rfl
      exact hok.remove hr hleaf
  have hpar : (t.drop existing).parent = t.parent := by cases existing <;> rfl
  have htype : (t.drop existing).type = t.type := by cases existing <;> rfl
  have hlive : np ∈ (t.drop existing).live := by
    cases existing with
    | none => exact h.npLive
    | some v => exact ⟨h.npLive,fun he => (h.replaced_ne rfl).1 he.symm⟩
  refine hdrop.move h.srcRoot hlive (htype ▸ h.npDir) ?_ (hpar ▸ hout)
  intro y hy hyr _ hyp hyn
  have hnames : (t.drop existing).Names root np ⟨y,(t.drop existing).type y,newName⟩ :=
    ⟨hy,hyr,hyp,hyn,rfl⟩
  obtain ⟨hnames,hne⟩ := (names_drop np _).mp hnames
  exact (h.name_iff hok hnames).mp hne rfl

theorem Renaming.names (h : Renaming root t op np src newName existing) (d : UInt32) (e : RtfsMemDirEntry) :
    ((t.drop existing).move src np newName).Names root d e ↔
      (t.Names root d e ∧ (∀ v ∈ existing, e.ino ≠ v.ino) ∧ e.ino ≠ src) ∨
        d = np ∧ e = ⟨src,t.type src,newName⟩ := by
  have hlive : src ∈ (t.drop existing).live := by
    cases existing with
    | none => exact h.srcLive
    | some v => exact ⟨h.srcLive,fun he => (h.replaced v rfl).2.2.2.2.1 he.symm⟩
  have htype : (t.drop existing).type = t.type := by cases existing <;> rfl
  rw [names_move hlive h.srcRoot,names_drop,htype,and_assoc]

theorem Renaming.names_other_dir (h : Renaming root t op np src newName existing) {d : UInt32}
    (hop : d ≠ op) (hnp : d ≠ np) (e : RtfsMemDirEntry) :
    ((t.drop existing).move src np newName).Names root d e ↔ t.Names root d e := by
  rw [h.names]
  simp only [hnp,false_and,or_false]
  refine and_iff_left_of_imp (fun he => ⟨fun v hv hev => hnp ?_,fun hes => hop ?_⟩)
  · rw [← he.2.2.1,hev,(h.replaced v hv).2.2.1]
  · rw [← he.2.2.1,hes,h.srcParent]

theorem Renaming.names_new (h : Renaming root t op np src newName existing) (hok : t.Ok root)
    (hne : op ≠ np) (e : RtfsMemDirEntry) :
    ((t.drop existing).move src np newName).Names root np e ↔
      (t.Names root np e ∧ e.name ≠ newName) ∨ e = ⟨src,t.type src,newName⟩ := by
  rw [h.names]
  simp only [true_and]
  refine or_congr_left (and_congr_right (fun he => ?_))
  rw [h.name_iff hok he]
  refine and_iff_left (fun hes => hne ?_)
  rw [← h.srcParent,← hes,he.2.2.1]

theorem Renaming.names_old (h : Renaming root t op np src newName existing) (hok : t.Ok root)
    (hne : op ≠ np) (e : RtfsMemDirEntry) :
    ((t.drop existing).move src np newName).Names root op e ↔
      t.Names root op e ∧ e.name ≠ t.name src := by
  rw [h.names]
  simp only [hne,false_and,or_false]
  refine and_congr_right (fun he => ?_)
  rw [← names_other hok h.srcLive h.srcRoot (h.srcParent.symm ▸ he)]
  refine and_iff_right (fun v hv hev => hne ?_)
  rw [← he.2.2.1,hev,(h.replaced v hv).2.2.1]

theorem Renaming.names_same (h : Renaming root t op np src newName existing) (hok : t.Ok root)
    (heq : op = np) (hname : t.name src ≠ newName) (e : RtfsMemDirEntry) :
    ((t.drop existing).move src np newName).Names root np e ↔
      ((t.Names root np e ∧ e.name ≠ newName) ∨ e = ⟨src,t.type src,newName⟩) ∧ e.name ≠ t.name src := by
  rw [h.names,or_and_right]
  simp only [true_and]
  refine or_congr ?_ ?_
  · rw [and_assoc]
    refine and_congr_right (fun he => ?_)
    rw [h.name_iff hok he,names_other hok h.srcLive h.srcRoot (h.srcParent.trans heq ▸ he)]
  · constructor
    · rintro rfl
      exact ⟨rfl,hname.symm⟩
    · exact And.left

theorem Renaming.dir_ok (h : Renaming root t op np src newName existing) {d : UInt32} {i j : RtfsInode}
    (hi : InodeOk t root d i) (hd : d ≠ src) (hty : j.type = i.type) (hp : j.pino = i.pino)
    (hnl : j.nlink = 2 + subdirs j.entries)
    (hl : Lists j (((t.drop existing).move src np newName).Names root d)) :
    InodeOk ((t.drop existing).move src np newName) root d j := by
  have htype : (t.drop existing).type = t.type := by cases existing <;> rfl
  have hparent : (t.drop existing).parent = t.parent := by cases existing <;> rfl
  refine ⟨by omega,?_,?_,fun _ => ⟨hnl,hl⟩⟩
  · exact (hty.trans hi.type).trans (congrFun htype d).symm
  · simp only [NamespaceTree.move,Function.update_of_ne hd,hparent]
    exact hp.trans hi.pino

theorem Renaming.represents (h : Renaming root t op np src newName existing) (hr : Represents root ns t)
    (hok : t.Ok root)
    (hnp : ∃ j, ns'.inodes np = some j ∧ InodeOk ((t.drop existing).move src np newName) root np j)
    (hop : op ≠ np → ∃ j, ns'.inodes op = some j ∧ InodeOk ((t.drop existing).move src np newName) root op j)
    (hsrc : ∀ i, ns.inodes src = some i →
      ns'.inodes src = some ⟨i.type,i.nlink,np,newName,i.dentryNum,i.entries⟩)
    (htgt : ∀ v ∈ existing, ∃ ti, ns'.inodes v.ino = some ti ∧ ti.nlink = 0)
    (hother : ∀ x, x ≠ np → x ≠ op → x ≠ src → (∀ v ∈ existing, x ≠ v.ino) → ns'.inodes x = ns.inodes x) :
    Represents root ns' ((t.drop existing).move src np newName) := by
  have hlive : ∀ x, x ∈ (t.drop existing).live ↔ x ∈ t.live ∧ ∀ v ∈ existing, x ≠ v.ino := by
    intro x
    cases existing <;> simp [NamespaceTree.drop,NamespaceTree.remove]
  have htype : (t.drop existing).type = t.type := by cases existing <;> rfl
  have hparent : (t.drop existing).parent = t.parent := by cases existing <;> rfl
  constructor
  · intro x hx
    obtain ⟨hxl,hxv⟩ := (hlive x).mp hx
    by_cases hxn : x = np
    · exact hxn ▸ hnp
    by_cases hxo : x = op
    · exact hxo ▸ hop (hxo ▸ hxn)
    obtain ⟨i,hi,hiok⟩ := hr.inode x hxl
    by_cases hxs : x = src
    · subst hxs
      refine ⟨_,hsrc i hi,hiok.linked,hiok.type.trans (congrFun htype x).symm,?_,fun hd => ?_⟩
      · simp only [NamespaceTree.move,Function.update_self]
      · have hdir := hiok.dir ((congrFun htype x).symm.trans hd)
        exact ⟨hdir.nlink,(hdir.lists.fields ..).congr (h.names_other_dir hxo hxn)⟩
    · refine ⟨i,(hother x hxn hxo hxs hxv).trans hi,hiok.frame (congrFun htype x) ?_
        (h.names_other_dir hxo hxn)⟩
      simp only [NamespaceTree.move,Function.update_of_ne hxs,hparent]
  · intro x hx j hj
    by_cases hxv : ∃ v ∈ existing, x = v.ino
    · obtain ⟨v,hv,rfl⟩ := hxv
      obtain ⟨ti,hti,hzero⟩ := htgt v hv
      rw [hti] at hj
      cases hj
      exact hzero
    · push Not at hxv
      have hxl : x ∉ t.live := fun hl => hx ((hlive x).mpr ⟨hl,hxv⟩)
      have hopl : op ∈ t.live := h.srcParent ▸ (hok.parents _ h.srcLive h.srcRoot).1
      rw [hother x (fun he => hxl (he ▸ h.npLive)) (fun he => hxl (he ▸ hopl))
        (fun he => hxl (he ▸ h.srcLive)) hxv] at hj
      exact hr.dead x hxl j hj

end Refine

section Rename
variable {root : UInt32} {ns ns₁ ns' : Namespace} {t : NamespaceTree} {oldParent source newParent : RtfsRuntimeInodeView}
  {oldName name : FileName} {existing : Option RtfsRuntimeInodeView}

structure RenameLoc (root : UInt32) (ns : Namespace) (t : NamespaceTree)
    (oldParent source newParent : RtfsRuntimeInodeView) (oldName name : FileName)
    (existing : Option RtfsRuntimeInodeView) : Prop where
  represents : Represents root ns t
  ok : t.Ok root
  oldLive : oldParent.ino ∈ t.live
  oldDir : t.type oldParent.ino = .dir
  newLive : newParent.ino ∈ t.live
  newDir : t.type newParent.ino = .dir
  sourceLoc : rtfsResolveNameInParent ns oldParent oldName = .ok source
  existingLoc : ∀ v ∈ existing, rtfsResolveNameInParent ns newParent name = .ok v
  moved : ¬ (oldParent.ino = newParent.ino ∧ oldName = name)
  out : ¬ Above t.parent root source.ino newParent.ino

theorem RenameLoc.replace (h : RenameLoc root ns t oldParent source newParent oldName name existing)
    (hrep : rtfsReplaceDentry ns newParent.ino name source existing = .ok ns') :
    Renaming root t oldParent.ino newParent.ino source.ino name existing ∧
    ∃ i j, ns.inodes newParent.ino = some i ∧ ns' = ns.set newParent.ino j ∧
      InodeOk t root newParent.ino i ∧ j.type = i.type ∧ j.nlink = i.nlink ∧ j.pino = i.pino ∧
      Lists j (fun x => (t.Names root newParent.ino x ∧ x.name ≠ name) ∨
        x = ⟨source.ino,t.type source.ino,name⟩) ∧
      subdirs j.entries + replacedBit existing = subdirs i.entries + dirBit (t.type source.ino) := by
  obtain ⟨i,hi,hiok⟩ := h.represents.inode _ h.newLive
  have hdir := hiok.dir h.newDir
  obtain ⟨hsl,hsr,hsp,hsn,hst⟩ := resolved_entry h.represents h.oldLive h.oldDir h.sourceLoc
  have hex : ∀ v ∈ existing, ∃ e, rtfsDirInodeFindEntry i.entries name = some e ∧
      e.fileType = v.fileType := by
    intro v hv
    obtain ⟨i',e,hi',he,rfl⟩ := resolveName_ok (h.existingLoc v hv)
    rw [hi] at hi'
    cases hi'
    exact ⟨e,he,rfl⟩
  obtain ⟨hempty,hfree,j,rfl,hty,hnl,hpi,hl,hsub⟩ := replaceDentry_ok hrep hi hdir.lists hex
  rw [hst]
  refine ⟨⟨hsl,hsr,hsp,fun he => h.out (he ▸ .here),h.newLive,h.newDir,?_,hfree⟩,
    i,j,hi,rfl,hiok,hty,hnl,hpi,hl,hsub⟩
  intro v hv
  obtain ⟨hvl,hvr,hvp,hvn,hvt⟩ := resolved_entry h.represents h.newLive h.newDir (h.existingLoc v hv)
  obtain ⟨ti,hti,hzero⟩ := hempty v hv
  refine ⟨hvl,hvr,hvp,hvn,fun he => h.moved ⟨?_,?_⟩,?_⟩
  · rw [← hsp,← hvp,he]
  · rw [← hsn,← hvn,he]
  · exact (h.represents.inode_of hvl hti).leaf h.ok (fun hd => hzero (hvt.symm.trans hd))

theorem entry_type (hok : t.Ok root) {x : UInt32} {e : RtfsMemDirEntry} (hx : x ∈ t.live)
    (hr : x ≠ root) (he : t.Names root (t.parent x) e) (hn : e.name = t.name x) :
    e.fileType = t.type x := by
  have hex : e.ino = x := by
    by_contra hne
    exact (names_other hok hx hr he).mp hne hn
  rw [← hex]
  exact he.2.2.2.2.symm

theorem renameSame_refines (hl : RenameLoc root ns t oldParent source newParent oldName name existing)
    (heq : oldParent.ino = newParent.ino)
    (h : rtfsRenameWithinSameParent ns oldParent source oldName name existing = .ok ns') :
    ∃ t', Represents root ns' t' ∧ t'.Ok root := by
  obtain ⟨_,_,h⟩ := Except.bind_ok h
  obtain ⟨ns₁,hrep,h⟩ := Except.bind_ok h
  obtain ⟨ns₂,hrem,h⟩ := Except.bind_ok h
  obtain ⟨ns₃,hsrc,hun⟩ := Except.bind_ok h
  rw [heq] at hrep hrem
  obtain ⟨hrn,i,j,hi,rfl,hiok,hty,hnl,hpi,hlists,hsub⟩ := hl.replace hrep
  obtain ⟨hsl,hsr,hsp,hsn,_⟩ := resolved_entry hl.represents hl.oldLive hl.oldDir hl.sourceLoc
  have hname : t.name source.ino ≠ name := fun hn => hl.moved ⟨heq,hsn.symm.trans hn⟩
  obtain ⟨k,e,hk,he,rfl⟩ := removeEntry_ok hrem
  rw [set_self] at hk
  cases hk
  rw [set_set] at hsrc
  have hout := hrn.srcOut
  obtain ⟨si,hsi,rfl⟩ := renameSource_ok hsrc
  rw [set_ne hout] at hsi
  have hbit : e.fileType = t.type source.ino := by
    obtain ⟨hmem,hen⟩ := findEntry_some he
    rcases (hlists.entries e).mp hmem with ⟨hnames,_⟩ | hnew
    · exact entry_type hl.ok hsl hsr (hsp.trans heq ▸ hnames) (hen.trans hsn.symm)
    · rw [hnew]
  obtain ⟨htgt,hnp,hother⟩ := unlinkReplaced_ok (i := ⟨j.type,j.nlink,j.pino,j.name,j.dentryNum - 1,
      j.entries.eraseP (fun e => e.name = oldName)⟩) hun (by rw [heq,set_ne hout.symm,set_self])
    (fun v hv => (hrn.replaced_ne hv).2.symm)
  rw [heq] at hnp hother
  refine ⟨_,hrn.represents hl.represents hl.ok ⟨_,hnp,?_⟩ (fun hne => absurd heq hne) ?_ htgt ?_,
    hrn.ok hl.ok hl.out⟩
  · have hsub' := erase_subdirs he
    have hlink := (hiok.dir hl.newDir).nlink
    refine hrn.dir_ok hiok hout.symm hty hpi ?_ ?_
    · simp only [hbit,dirBit] at hsub hsub' ⊢
      omega
    · refine ((hlists.erase he j.type _ j.pino j.name).fields _ _ _ _).congr (fun x => ?_)
      rw [hrn.names_same hl.ok heq hname,hsn]
  · intro si' hsi'
    rw [hsi] at hsi'
    cases hsi'
    rw [hother _ hout (fun v hv => ((hrn.replaced v hv).2.2.2.2.1).symm),set_self]
    have hpino := (hl.represents.inode_of hsl hsi).pino
    rw [Option.getD_none,hpino,hsp,heq]
  · intro x hxn _ hxs hxv
    rw [hother x hxn hxv,set_ne hxs,set_ne hxn]

theorem moveLink_ok {a b : RtfsInode} (hne : oldParent.ino ≠ newParent.ino)
    (hd : rtfsAdjustParentDirectoryNlink ((ns.set newParent.ino a).set oldParent.ino b) oldParent (-1) =
      .ok ns₁) (hu : rtfsAdjustParentDirectoryNlink ns₁ newParent 1 = .ok ns') :
    ns' = (ns.set oldParent.ino ⟨b.type,b.nlink - 1,b.pino,b.name,b.dentryNum,b.entries⟩).set
      newParent.ino ⟨a.type,a.nlink + 1,a.pino,a.name,a.dentryNum,a.entries⟩ := by
  obtain ⟨b',hb,rfl⟩ := adjustDown_ok hd
  rw [set_self] at hb
  cases hb
  obtain ⟨a',ha,rfl⟩ := adjustUp_ok hu
  rw [set_set,set_ne hne.symm,set_self] at ha
  cases ha
  rw [set_set,set_comm hne,set_set]

theorem across_ok (hne : oldParent.ino ≠ newParent.ino)
    (h : rtfsRenameAcrossParents ns oldParent source newParent oldName name existing = .ok ns') :
    ∃ ns₁, rtfsReplaceDentry ns newParent.ino name source existing = .ok ns₁ ∧
      ∀ j, ns₁ = ns.set newParent.ino j → ∃ k e ns₄, ns.inodes oldParent.ino = some k ∧
        rtfsDirInodeFindEntry k.entries oldName = some e ∧
        rtfsUnlinkReplaced ((ns.set oldParent.ino ⟨k.type,k.nlink - dirBit source.fileType,k.pino,k.name,
          k.dentryNum - 1,k.entries.eraseP (fun e => e.name = oldName)⟩).set newParent.ino
            ⟨j.type,j.nlink + dirBit source.fileType,j.pino,j.name,j.dentryNum,j.entries⟩)
          newParent existing = .ok ns₄ ∧
        rtfsRenameSourceInode ns₄ source.ino name (some newParent.ino) = .ok ns' := by
  obtain ⟨_,_,h⟩ := Except.bind_ok h
  obtain ⟨ns₁,hrep,h⟩ := Except.bind_ok h
  obtain ⟨ns₂,hrem,h⟩ := Except.bind_ok h
  refine ⟨ns₁,hrep,?_⟩
  rintro j rfl
  obtain ⟨k,e,hk,he,rfl⟩ := removeEntry_ok hrem
  rw [set_ne hne] at hk
  refine ⟨k,e,?_⟩
  by_cases hd : source.fileType = .dir
  · rw [if_pos (by simpa [rtfsInodeIsDirectoryType] using hd)] at h
    obtain ⟨ns₂,hdown,h⟩ := Except.bind_ok h
    obtain ⟨ns₃,hup,h⟩ := Except.bind_ok h
    obtain ⟨ns₄,hun,hsrc⟩ := Except.bind_ok h
    have heq := moveLink_ok hne hdown hup
    subst heq
    exact ⟨ns₄,hk,he,by simpa [dirBit,hd] using hun,hsrc⟩
  · rw [if_neg (by simpa [rtfsInodeIsDirectoryType] using hd)] at h
    obtain ⟨ns₃,hsame,h⟩ := Except.bind_ok h
    obtain ⟨ns₄,hun,hsrc⟩ := Except.bind_ok h
    cases hsame
    rw [set_comm hne] at hun
    exact ⟨ns₄,hk,he,by simpa [dirBit,hd] using hun,hsrc⟩

theorem renameAcross_refines (hl : RenameLoc root ns t oldParent source newParent oldName name existing)
    (hne : oldParent.ino ≠ newParent.ino)
    (h : rtfsRenameAcrossParents ns oldParent source newParent oldName name existing = .ok ns') :
    ∃ t', Represents root ns' t' ∧ t'.Ok root := by
  obtain ⟨ns₁,hrep,h⟩ := across_ok hne h
  obtain ⟨hrn,i,j,hi,rfl,hiok,hty,hnl,hpi,hlists,hsub⟩ := hl.replace hrep
  obtain ⟨k,e,ns₄,hk,he,hun,hsrc⟩ := h j rfl
  obtain ⟨hsl,hsr,hsp,hsn,hst⟩ := resolved_entry hl.represents hl.oldLive hl.oldDir hl.sourceLoc
  have hkok := hl.represents.inode_of hl.oldLive hk
  have hout := hrn.srcOut
  have hold : oldParent.ino ≠ source.ino := hsp ▸ hl.ok.parent_ne hsl hsr
  have hbit : e.fileType = t.type source.ino := by
    obtain ⟨hmem,hen⟩ := findEntry_some he
    have hnames := ((hkok.dir hl.oldDir).lists.entries e).mp hmem
    exact entry_type hl.ok hsl hsr (hsp ▸ hnames) (hen.trans hsn.symm)
  obtain ⟨htgt,hnp,hother⟩ := unlinkReplaced_ok hun set_self (fun v hv => (hrn.replaced_ne hv).1.symm)
  obtain ⟨si,hsi,rfl⟩ := renameSource_ok hsrc
  rw [hother _ hout (fun v hv => ((hrn.replaced v hv).2.2.2.2.1).symm),set_ne hout,set_ne hold.symm] at hsi
  have hold' := hother _ hne (fun v hv => (hrn.replaced_ne hv).2.symm)
  rw [set_ne hne,set_self] at hold'
  refine ⟨_,hrn.represents hl.represents hl.ok ⟨_,(set_ne hout.symm).trans hnp,?_⟩
    (fun _ => ⟨_,(set_ne hold).trans hold',?_⟩) ?_ ?_ ?_,hrn.ok hl.ok hl.out⟩
  · have hlink := (hiok.dir hl.newDir).nlink
    refine hrn.dir_ok hiok hout.symm hty hpi ?_ ?_
    · simp only [hst] at hsub ⊢
      omega
    · exact (hlists.fields _ _ _ _).congr (hrn.names_new hl.ok hne)
  · have hsub' := erase_subdirs he
    have hlink := (hkok.dir hl.oldDir).nlink
    refine hrn.dir_ok hkok hold rfl rfl ?_ ?_
    · simp only [hbit,← hst,dirBit] at hsub' ⊢
      omega
    · refine ((hkok.dir hl.oldDir).lists.erase he k.type _ k.pino k.name).congr (fun x => ?_)
      rw [hrn.names_old hl.ok hne,hsn]
  · intro si' hsi'
    rw [hsi] at hsi'
    cases hsi'
    exact set_self
  · intro v hv
    obtain ⟨ti,hti,hzero⟩ := htgt v hv
    exact ⟨ti,(set_ne (hrn.replaced v hv).2.2.2.2.1).trans hti,hzero⟩
  · intro x hxn hxo hxs hxv
    rw [set_ne hxs,hother x hxn hxv,set_ne hxn,set_ne hxo]

theorem rename_refines (hr : Represents root ns t) (hok : t.Ok root)
    (hold : oldParent.ino ∈ t.live) (holdDir : t.type oldParent.ino = .dir)
    (hnew : newParent.ino ∈ t.live) (hnewTy : t.type newParent.ino = newParent.fileType)
    (hloc : rtfsResolveNameInParent ns oldParent oldName = .ok source)
    (hout : ¬ Above t.parent root source.ino newParent.ino)
    (h : rtfsRename ns oldParent source newParent oldName name = .ok ns') :
    ∃ t', Represents root ns' t' ∧ t'.Ok root := by
  obtain ⟨_,hv,h⟩ := Except.bind_ok h
  split at h
  · cases h
  · split at h
    · cases h
      exact ⟨t,hr,hok⟩
    · rename_i hmoved
      obtain ⟨existing,hprobe,h⟩ := Except.bind_ok h
      have hl : RenameLoc root ns t oldParent source newParent oldName name existing :=
        ⟨hr,hok,hold,holdDir,hnew,hnewTy.trans (validateParent_ok hv),hloc,probe_ok hprobe,hmoved,hout⟩
      split at h
      · rename_i hne
        exact renameAcross_refines hl hne h
      · rename_i heq
        exact renameSame_refines hl (not_not.mp heq) h

end Rename

end Rtfs
