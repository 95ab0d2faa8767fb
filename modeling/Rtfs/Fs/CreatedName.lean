import Rtfs.Fs.NamespaceOps

namespace Rtfs

section Argument

-- a pointer into the path and the length of the token it points at; bytes end at the path's NUL or later
structure NameArg where
  bytes : List UInt8
  namelen : Nat
  clean : (0 : UInt8) ∉ bytes.take namelen
  terminated : (0 : UInt8) ∈ bytes

def NameArg.token (n : NameArg) : FileName := n.bytes.take n.namelen

def NameArg.cstr (n : NameArg) : FileName := n.bytes.takeWhile (fun b => b ≠ 0)

variable {n : NameArg}

theorem NameArg.namelen_lt (n : NameArg) : n.namelen < n.bytes.length := by
  by_contra hle
  have hclean := n.clean
  rw [List.take_of_length_le (by omega)] at hclean
  exact hclean n.terminated

theorem NameArg.cstr_eq (n : NameArg) :
    n.cstr = n.token ++ (n.bytes.drop n.namelen).takeWhile (fun b => b ≠ 0) := by
  have hclean : ∀ b ∈ n.bytes.take n.namelen, decide (b ≠ 0) = true :=
    fun b hb => decide_eq_true (fun hz => n.clean (hz ▸ hb))
  have hsplit : (n.bytes.take n.namelen ++ n.bytes.drop n.namelen).takeWhile (fun b => decide (b ≠ 0)) = _ :=
    List.takeWhile_append_of_pos hclean
  rw [List.take_append_drop] at hsplit
  exact hsplit

theorem NameArg.cstr_eq_token : n.cstr = n.token ↔ n.bytes[n.namelen]? = some 0 := by
  have hlt := n.namelen_lt
  rw [n.cstr_eq,List.append_right_eq_self,List.drop_eq_getElem_cons hlt,List.getElem?_eq_getElem hlt]
  constructor
  · intro h
    by_contra hne
    have hpos : decide (n.bytes[n.namelen] ≠ 0) = true := decide_eq_true (fun hz => hne (congrArg some hz))
    rw [List.takeWhile_cons,hpos,if_pos rfl] at h
    cases h
  · intro h
    rw [List.takeWhile_cons,Option.some.inj h]
    rfl

end Argument

section Binding

def Namespace.entriesOf (ns : Namespace) (d : UInt32) : Option (List RtfsMemDirEntry) :=
  (ns.inodes d).map RtfsInode.entries

def Namespace.nameOf (ns : Namespace) (x : UInt32) : Option FileName := (ns.inodes x).map RtfsInode.name

def listed (entries : List RtfsMemDirEntry) (name : FileName) : Option (UInt32 × RtfsFileType) :=
  (rtfsDirInodeFindEntry entries name).map (fun e => (e.ino,e.fileType))

def Namespace.binding (ns : Namespace) (d : UInt32) (name : FileName) : Option (UInt32 × RtfsFileType) :=
  (ns.entriesOf d).bind (fun entries => listed entries name)

variable {ns ns' : Namespace} {d x : UInt32} {i j : RtfsInode} {name n : FileName} {e : RtfsMemDirEntry}
  {entries : List RtfsMemDirEntry} {parent v : RtfsRuntimeInodeView} {ty : RtfsFileType}

theorem binding_congr (h : ns'.entriesOf = ns.entriesOf) : ns'.binding = ns.binding := by
  unfold Namespace.binding
  rw [h]

theorem entriesOf_some (hi : ns.inodes x = some i) : ns.entriesOf x = some i.entries := by
  rw [Namespace.entriesOf,hi,Option.map_some]

theorem nameOf_some (hi : ns.inodes x = some i) : ns.nameOf x = some i.name := by
  rw [Namespace.nameOf,hi,Option.map_some]

theorem entriesOf_set (hi : ns.inodes x = some i) (he : j.entries = i.entries) :
    (ns.set x j).entriesOf = ns.entriesOf := by
  funext d
  by_cases hd : d = x
  · rw [hd,entriesOf_some hi,entriesOf_some set_self,he]
  · rw [Namespace.entriesOf,set_ne hd,Namespace.entriesOf]

theorem nameOf_set (hi : ns.inodes x = some i) (hn : j.name = i.name) : (ns.set x j).nameOf = ns.nameOf := by
  funext d
  by_cases hd : d = x
  · rw [hd,nameOf_some hi,nameOf_some set_self,hn]
  · rw [Namespace.nameOf,set_ne hd,Namespace.nameOf]

theorem binding_set : (ns.set x i).binding d n = if d = x then listed i.entries n else ns.binding d n := by
  by_cases hd : d = x
  · rw [if_pos hd,hd,Namespace.binding,entriesOf_some set_self,Option.bind_some]
  · rw [if_neg hd,Namespace.binding,Namespace.entriesOf,set_ne hd,Namespace.binding,Namespace.entriesOf]

theorem binding_of_inode (hi : ns.inodes d = some i) : ns.binding d n = listed i.entries n := by
  rw [Namespace.binding,entriesOf_some hi,Option.bind_some]

theorem listed_append : listed (entries ++ [e]) n =
    (listed entries n).or (if e.name = n then some (e.ino,e.fileType) else none) := by
  unfold listed rtfsDirInodeFindEntry
  rw [List.find?_append,Option.map_or,List.find?_singleton]
  by_cases hn : e.name = n
  · simp only [hn,decide_true,if_true,Option.map_some]
  · simp only [hn,decide_false,if_false,Bool.false_eq_true,Option.map_none]

theorem listed_erase_ne {p : RtfsMemDirEntry → Bool} (hp : ∀ e ∈ entries, p e = true → e.name ≠ n) :
    listed (entries.eraseP p) n = listed entries n := by
  unfold listed rtfsDirInodeFindEntry
  induction entries with
  | nil => rfl
  | cons x xs ih =>
    by_cases hx : p x = true
    · rw [List.eraseP_cons_of_pos hx,List.find?_cons_of_neg (by simpa using hp x List.mem_cons_self hx)]
    · rw [List.eraseP_cons_of_neg hx]
      by_cases hn : x.name = n
      · rw [List.find?_cons_of_pos (by simpa using hn),List.find?_cons_of_pos (by simpa using hn)]
      · rw [List.find?_cons_of_neg (by simpa using hn),List.find?_cons_of_neg (by simpa using hn),
          ih (fun e he => hp e (List.mem_cons_of_mem _ he))]

theorem listed_none (h : ∀ e ∈ entries, e.name ≠ n) : listed entries n = none := by
  rw [listed,findEntry_none.mpr h,Option.map_none]

theorem listed_none_names (h : listed entries n = none) : ∀ e ∈ entries, e.name ≠ n :=
  findEntry_none.mp (Option.map_eq_none_iff.mp h)

theorem listed_erase_self {p : RtfsMemDirEntry → Bool} (hn : (entries.map RtfsMemDirEntry.name).Nodup)
    (hp : ∀ e ∈ entries, p e = true → e.name = n) (hsome : ∃ e ∈ entries, p e = true) :
    listed (entries.eraseP p) n = none := by
  induction entries with
  | nil => simp at hsome
  | cons x xs ih =>
    obtain ⟨hnot,hrest⟩ := List.nodup_cons.mp hn
    by_cases hx : p x = true
    · rw [List.eraseP_cons_of_pos hx]
      have hname := hp x List.mem_cons_self hx
      exact listed_none (fun e he hen => hnot (List.mem_map.mpr ⟨e,he,hen.trans hname.symm⟩))
    · rw [List.eraseP_cons_of_neg hx]
      obtain ⟨e,he,hpe⟩ := hsome
      have hexs : e ∈ xs := (List.mem_cons.mp he).resolve_left (fun hex => hx (hex ▸ hpe))
      have hnone := ih hrest (fun e he => hp e (List.mem_cons_of_mem _ he)) ⟨e,hexs,hpe⟩
      refine listed_none (fun y hy hyn => ?_)
      rcases List.mem_cons.mp hy with rfl | hy
      · exact hnot (List.mem_map.mpr ⟨e,hexs,(hp e he hpe).trans hyn.symm⟩)
      · exact listed_none_names hnone y hy hyn

theorem binding_of_lookup (h : rtfsResolveNameInParent ns parent name = .ok v) :
    ns.binding parent.ino name = some (v.ino,v.fileType) := by
  obtain ⟨i,e,hi,he,rfl⟩ := resolveName_ok h
  rw [binding_of_inode hi,listed,he,Option.map_some]

theorem lookup_of_binding (hv : rtfsValidateParentDir parent name = .ok ())
    (h : ns.binding parent.ino name = some (x,ty)) :
    rtfsResolveNameInParent ns parent name = .ok ⟨x,parent.ino,ty⟩ := by
  obtain ⟨entries,hentries,hl⟩ := Option.bind_eq_some_iff.mp h
  obtain ⟨i,hi,rfl⟩ := Option.map_eq_some_iff.mp hentries
  obtain ⟨e,he,hpair⟩ := Option.map_eq_some_iff.mp hl
  cases hpair
  have hres : rtfsResolveTargetInodeHandle ns parent.ino = .ok i := by
    unfold rtfsResolveTargetInodeHandle
    rw [hi]
  simp only [rtfsResolveNameInParent,hv,hres,bind,Except.bind,he]

theorem validateParent_ne_enoent : rtfsValidateParentDir parent name ≠ .error .enoent := by
  unfold rtfsValidateParentDir
  split_ifs <;> exact nofun

theorem binding_of_enoent (h : rtfsResolveNameInParent ns parent name = .error .enoent) :
    ns.binding parent.ino name = none := by
  cases hb : ns.binding parent.ino name with
  | none => rfl
  | some p =>
    cases hv : rtfsValidateParentDir parent name with
    | ok u => rw [lookup_of_binding hv hb] at h; cases h
    | error err =>
      have herr : rtfsResolveNameInParent ns parent name = .error err := by
        rw [rtfsResolveNameInParent,hv]
        rfl
      rw [h] at herr
      cases herr
      exact absurd hv validateParent_ne_enoent

end Binding

namespace OnDemand

abbrev Loaded := RtfsMemDirEntry → Bool

def Loaded.add (loaded : Loaded) (e : RtfsMemDirEntry) : Loaded := fun x => loaded x || x = e

def rtfsDirInodeAddEntry (ns : Namespace) (loaded : Loaded) (dir : UInt32) (name : FileName)
    (child : RtfsRuntimeInodeView) : Except Errno Namespace := do
  let i ← rtfsResolveTargetInodeHandle ns dir
  if name.length = 0 ∨ rtfsNameLen < name.length then .error .enametoolong
  else if (rtfsDirInodeFindEntry (i.entries.filter loaded) name).isSome then .error .eexist
  else .ok (ns.set dir { i with
    entries := i.entries ++ [⟨child.ino,child.fileType,name⟩]
    dentryNum := i.dentryNum + 1 })

def rtfsDirInodeRemoveEntry (ns : Namespace) (loaded : Loaded) (dir : UInt32) (name : FileName) :
    Except Errno Namespace := do
  let i ← rtfsResolveTargetInodeHandle ns dir
  if name.length = 0 ∨ rtfsNameLen < name.length then .error .enametoolong
  else if (rtfsDirInodeFindEntry (i.entries.filter loaded) name).isNone then .error .enoent
  else .ok (ns.set dir { i with
    entries := i.entries.eraseP (fun e => loaded e ∧ e.name = name)
    dentryNum := i.dentryNum - 1 })

def rtfsAddNameToParent (ns : Namespace) (loaded : Loaded) (parent : RtfsRuntimeInodeView) (name : FileName)
    (child : RtfsRuntimeInodeView) : Except Errno Namespace :=
  if name = [] then .error .einval else rtfsDirInodeAddEntry ns loaded parent.ino name child

def rtfsMknod (ns : Namespace) (loaded : Loaded) (parent : RtfsRuntimeInodeView) (name : NameArg)
    (isDir : Bool) (nid : UInt32) : Except Errno Namespace := do
  rtfsValidateParentDir parent name.token
  -- the existence check and the new entry take the C string
  match rtfsResolveNameInParent ns parent name.cstr with
  | .ok _ => .error .eexist
  | .error .enoent =>
    if nid = invalidNid then .error .enospc
    else do
      let ns₁ := ns.set nid (rtfsInitCreatedInode parent.ino name.token isDir)
      let ns₂ ← if isDir then rtfsAdjustParentDirectoryNlink ns₁ parent 1 else .ok ns₁
      rtfsAddNameToParent ns₂ loaded parent name.cstr ⟨nid,parent.ino,if isDir then .dir else .regFile⟩
  | .error e => .error e

def rtfsReplaceDentry (ns : Namespace) (loaded : Loaded) (newParent : UInt32) (newName : FileName)
    (source : RtfsRuntimeInodeView) (existing : Option RtfsRuntimeInodeView) :
    Except Errno Namespace := do
  let ns₁ ← match existing with
    | none => .ok ns
    | some target => do
      rtfsCheckReplacedTarget ns source target
      rtfsDirInodeRemoveEntry ns loaded newParent newName
  rtfsDirInodeAddEntry ns₁ loaded newParent newName source

def rtfsRenameWithinSameParent (ns : Namespace) (loaded : Loaded) (parent source : RtfsRuntimeInodeView)
    (oldName : FileName) (name : NameArg) (existing : Option RtfsRuntimeInodeView) :
    Except Errno Namespace := do
  let _ ← rtfsResolveTargetInodeHandle ns source.ino
  let ns₁ ← rtfsReplaceDentry ns loaded parent.ino name.cstr source existing
  let ns₂ ← rtfsDirInodeRemoveEntry ns₁ (loaded.add ⟨source.ino,source.fileType,name.cstr⟩) parent.ino oldName
  let ns₃ ← rtfsRenameSourceInode ns₂ source.ino name.token none
  rtfsUnlinkReplaced ns₃ parent existing

def rtfsRenameAcrossParents (ns : Namespace) (oldLoaded newLoaded : Loaded)
    (oldParent source newParent : RtfsRuntimeInodeView) (oldName : FileName) (name : NameArg)
    (existing : Option RtfsRuntimeInodeView) : Except Errno Namespace := do
  let _ ← rtfsResolveTargetInodeHandle ns source.ino
  let ns₁ ← rtfsReplaceDentry ns newLoaded newParent.ino name.cstr source existing
  let ns₂ ← rtfsDirInodeRemoveEntry ns₁ oldLoaded oldParent.ino oldName
  let ns₃ ← if rtfsInodeIsDirectoryType source.fileType then do
      let ns' ← rtfsAdjustParentDirectoryNlink ns₂ oldParent (-1)
      rtfsAdjustParentDirectoryNlink ns' newParent 1
    else .ok ns₂
  let ns₄ ← rtfsUnlinkReplaced ns₃ newParent existing
  rtfsRenameSourceInode ns₄ source.ino name.token (some newParent.ino)

-- the second component is the replaced target, whose blocks and inode are given back
def rtfsRename (ns : Namespace) (oldLoaded newLoaded : Loaded)
    (oldParent source newParent : RtfsRuntimeInodeView) (oldName : FileName) (name : NameArg) :
    Except Errno (Namespace × Option UInt32) := do
  rtfsValidateParentDir newParent name.token
  if oldName = [] then .error .einval
  else if oldParent.ino = newParent.ino ∧ oldName = name.token then .ok (ns,none)
  else do
    let existing ← rtfsProbeTarget ns newParent name.token
    let ns' ← if oldParent.ino ≠ newParent.ino then
        rtfsRenameAcrossParents ns oldLoaded newLoaded oldParent source newParent oldName name existing
      else rtfsRenameWithinSameParent ns newLoaded oldParent source oldName name existing
    .ok (ns',existing.map RtfsRuntimeInodeView.ino)

inductive NameOp
  | mknod (loaded : Loaded) (parent : RtfsRuntimeInodeView) (isDir : Bool) (nid : UInt32)
  | rename (oldLoaded newLoaded : Loaded) (oldParent source newParent : RtfsRuntimeInodeView)
      (oldName : FileName)

def NameOp.run (ns : Namespace) (name : NameArg) : NameOp → Except Errno (Namespace × Option UInt32)
  | .mknod loaded parent isDir nid => (rtfsMknod ns loaded parent name isDir nid).map (fun ns' => (ns',none))
  | .rename oldLoaded newLoaded oldParent source newParent oldName =>
    rtfsRename ns oldLoaded newLoaded oldParent source newParent oldName name

def NameOp.dir : NameOp → RtfsRuntimeInodeView
  | .mknod _ parent _ _ => parent
  | .rename _ _ _ _ newParent _ => newParent

def NameOp.ino : NameOp → UInt32
  | .mknod _ _ _ nid => nid
  | .rename _ _ _ source _ _ => source.ino

def NameOp.type : NameOp → RtfsFileType
  | .mknod _ _ isDir _ => if isDir then .dir else .regFile
  | .rename _ _ _ source _ _ => source.fileType

structure NamesOk (ns : Namespace) : Prop where
  nodup : ∀ d entries, ns.entriesOf d = some entries → (entries.map RtfsMemDirEntry.name).Nodup
  ino : ∀ d n ty, ns.binding d n ≠ some (0,ty)

structure Located (ns : Namespace) (dir : UInt32) (name : FileName) (source : RtfsRuntimeInodeView) : Prop where
  bound : ns.binding dir name = some (source.ino,source.fileType)
  only : ∀ d n ty, ns.binding d n = some (source.ino,ty) → d = dir ∧ n = name

def NameOp.Located (ns : Namespace) : NameOp → Prop
  | .mknod .. => True
  | .rename _ _ oldParent source _ oldName => OnDemand.Located ns oldParent.ino oldName source

structure BindsToken (ns ns' : Namespace) (dir : RtfsRuntimeInodeView) (token : FileName) (ino : UInt32)
    (type : RtfsFileType) (reclaimed : Option UInt32) : Prop where
  lookup : rtfsResolveNameInParent ns' dir token = .ok ⟨ino,dir.ino,type⟩
  others : ∀ d n, ¬ (d = dir.ino ∧ n = token) → ns'.binding d n = none ∨ ns'.binding d n = ns.binding d n
  iName : ns'.nameOf ino = some token
  reclaim : reclaimed = ((ns.binding dir.ino token).map Prod.fst).filter (fun x => x ≠ ino)

-- the token ends the C string; a rename onto the same name changes nothing
def NameOp.Terminated (ns : Namespace) (name : NameArg) : NameOp → Prop
  | .mknod .. => name.bytes[name.namelen]? = some 0
  | .rename _ _ oldParent source newParent oldName =>
    if oldParent.ino = newParent.ino ∧ oldName = name.token then ns.nameOf source.ino = some name.token
    else name.bytes[name.namelen]? = some 0

section Steps
variable {ns ns' : Namespace} {loaded oldLoaded newLoaded : Loaded} {d d' x nid : UInt32} {i : RtfsInode}
  {n oldName newName : FileName} {v parent oldParent source newParent : RtfsRuntimeInodeView}
  {existing : Option RtfsRuntimeInodeView} {isDir : Bool} {name : NameArg}

def SameNames (ns ns' : Namespace) : Prop := ns'.entriesOf = ns.entriesOf ∧ ns'.nameOf = ns.nameOf

theorem SameNames.trans {ns₁ : Namespace} (h : SameNames ns ns₁) (h' : SameNames ns₁ ns') : SameNames ns ns' :=
  ⟨h'.1.trans h.1,h'.2.trans h.2⟩

theorem sameNames_set {j : RtfsInode} (hi : ns.inodes x = some i) (he : j.entries = i.entries)
    (hn : j.name = i.name) : SameNames ns (ns.set x j) :=
  ⟨entriesOf_set hi he,nameOf_set hi hn⟩

theorem adjustUp_same (h : rtfsAdjustParentDirectoryNlink ns v 1 = .ok ns') : SameNames ns ns' := by
  obtain ⟨i,hi,rfl⟩ := adjustUp_ok h
  exact sameNames_set hi rfl rfl

theorem adjustDown_same (h : rtfsAdjustParentDirectoryNlink ns v (-1) = .ok ns') : SameNames ns ns' := by
  obtain ⟨i,hi,rfl⟩ := adjustDown_ok h
  exact sameNames_set hi rfl rfl

theorem unlinkReplaced_same (h : rtfsUnlinkReplaced ns parent existing = .ok ns') : SameNames ns ns' := by
  cases existing with
  | none =>
    cases h
    exact ⟨rfl,rfl⟩
  | some target =>
    obtain ⟨ns₁,hmark,h⟩ := Except.bind_ok h
    obtain ⟨i,hi,p,rfl⟩ := markUnlinked_ok hmark
    have hsame := sameNames_set (j := ⟨i.type,0,p,i.name,i.dentryNum,i.entries⟩) hi rfl rfl
    split at h
    · exact hsame.trans (adjustDown_same h)
    · cases h
      exact hsame

theorem renameSource_names {p : Option UInt32} (h : rtfsRenameSourceInode ns x n p = .ok ns') :
    ns'.entriesOf = ns.entriesOf ∧ ns'.nameOf x = some n := by
  obtain ⟨i,hi,rfl⟩ := renameSource_ok h
  exact ⟨entriesOf_set hi rfl,nameOf_some set_self⟩

theorem addLoaded_ok (h : rtfsDirInodeAddEntry ns loaded d n v = .ok ns') :
    ∃ i, ns.inodes d = some i ∧ ns' = ns.set d ⟨i.type,i.nlink,i.pino,i.name,i.dentryNum + 1,
      i.entries ++ [⟨v.ino,v.fileType,n⟩]⟩ := by
  obtain ⟨i,hi,h⟩ := Except.bind_ok h
  split at h
  · cases h
  · split at h
    · cases h
    · cases h
      exact ⟨i,resolve_ok hi,rfl⟩

theorem removeLoaded_ok (h : rtfsDirInodeRemoveEntry ns loaded d n = .ok ns') :
    ∃ i e, ns.inodes d = some i ∧ e ∈ i.entries ∧ (loaded e ∧ e.name = n) ∧
      ns' = ns.set d ⟨i.type,i.nlink,i.pino,i.name,i.dentryNum - 1,
        i.entries.eraseP (fun e => loaded e ∧ e.name = n)⟩ := by
  obtain ⟨i,hi,h⟩ := Except.bind_ok h
  split at h
  · cases h
  · split at h
    · cases h
    · rename_i hf
      cases h
      obtain ⟨e,he⟩ := Option.ne_none_iff_exists'.mp (fun hn => hf (Option.isNone_iff_eq_none.mpr hn))
      obtain ⟨hmem,hname⟩ := findEntry_some he
      obtain ⟨hmem,hloaded⟩ := List.mem_filter.mp hmem
      exact ⟨i,e,resolve_ok hi,hmem,⟨hloaded,hname⟩,rfl⟩

theorem add_binding (h : rtfsDirInodeAddEntry ns loaded d n v = .ok ns') (d' : UInt32) (n' : FileName) :
    ns'.binding d' n' = if d' = d ∧ n' = n then (ns.binding d' n').or (some (v.ino,v.fileType))
      else ns.binding d' n' := by
  obtain ⟨i,hi,rfl⟩ := addLoaded_ok h
  rw [binding_set]
  by_cases hd : d' = d
  · rw [if_pos hd,listed_append,hd,binding_of_inode hi]
    by_cases hn : n' = n
    · rw [if_pos hn.symm,if_pos ⟨rfl,hn⟩]
    · rw [if_neg (fun he => hn he.symm),if_neg (fun he => hn he.2),Option.or_none]
  · rw [if_neg hd,if_neg (fun he => hd he.1)]

theorem remove_binding_ne (h : rtfsDirInodeRemoveEntry ns loaded d n = .ok ns') {n' : FileName}
    (hne : ¬ (d' = d ∧ n' = n)) : ns'.binding d' n' = ns.binding d' n' := by
  obtain ⟨i,e,hi,-,-,rfl⟩ := removeLoaded_ok h
  rw [binding_set]
  by_cases hd : d' = d
  · rw [if_pos hd,hd,binding_of_inode hi]
    refine listed_erase_ne (fun y _ hy hyn => hne ⟨hd,?_⟩)
    exact hyn.symm.trans (of_decide_eq_true hy).2
  · rw [if_neg hd]

theorem remove_binding_self (hns : NamesOk ns) (h : rtfsDirInodeRemoveEntry ns loaded d n = .ok ns') :
    ns'.binding d n = none := by
  obtain ⟨i,e,hi,he,hp,rfl⟩ := removeLoaded_ok h
  rw [binding_set,if_pos rfl]
  exact listed_erase_self (hns.nodup d _ (entriesOf_some hi)) (fun y _ hy => (of_decide_eq_true hy).2)
    ⟨e,he,decide_eq_true hp⟩

theorem add_nameOf (h : rtfsDirInodeAddEntry ns loaded d n v = .ok ns') : ns'.nameOf = ns.nameOf := by
  obtain ⟨i,hi,rfl⟩ := addLoaded_ok h
  exact nameOf_set hi rfl

theorem NamesOk.remove (hns : NamesOk ns) (h : rtfsDirInodeRemoveEntry ns loaded d n = .ok ns') : NamesOk ns' := by
  constructor
  · obtain ⟨i,e,hi,-,-,rfl⟩ := removeLoaded_ok h
    intro d' entries hentries
    by_cases hd : d' = d
    · rw [hd,entriesOf_some set_self] at hentries
      cases hentries
      exact (hns.nodup d _ (entriesOf_some hi)).sublist ((List.eraseP_sublist).map _)
    · rw [Namespace.entriesOf,set_ne hd] at hentries
      exact hns.nodup d' entries hentries
  · intro d' n' ty hb
    by_cases hdn : d' = d ∧ n' = n
    · rw [hdn.1,hdn.2,remove_binding_self hns h] at hb
      cases hb
    · rw [remove_binding_ne h hdn] at hb
      exact hns.ino d' n' ty hb

theorem NamesOk.add (hns : NamesOk ns) (h : rtfsDirInodeAddEntry ns loaded d n v = .ok ns')
    (hfree : ns.binding d n = none) (hv : v.ino ≠ 0) : NamesOk ns' := by
  constructor
  · obtain ⟨i,hi,rfl⟩ := addLoaded_ok h
    intro d' entries hentries
    by_cases hd : d' = d
    · rw [hd,entriesOf_some set_self] at hentries
      cases hentries
      rw [binding_of_inode hi] at hfree
      rw [List.map_append,List.map_singleton]
      refine List.Nodup.append (hns.nodup d _ (entriesOf_some hi)) (List.nodup_singleton _) ?_
      intro y hy hyn
      obtain ⟨e,he,rfl⟩ := List.mem_map.mp hy
      exact listed_none_names hfree e he (List.mem_singleton.mp hyn)
    · rw [Namespace.entriesOf,set_ne hd] at hentries
      exact hns.nodup d' entries hentries
  · intro d' n' ty hb
    rw [add_binding h] at hb
    split at hb
    · rename_i hdn
      rw [hdn.1,hdn.2,hfree,Option.none_or] at hb
      exact hv (congrArg Prod.fst (Option.some.inj hb))
    · exact hns.ino d' n' ty hb

end Steps

section Replace
variable {ns ns' ns₁ : Namespace} {loaded : Loaded} {d d' : UInt32} {n n' : FileName}
  {parent source v : RtfsRuntimeInodeView} {existing : Option RtfsRuntimeInodeView}

theorem replace_steps (h : rtfsReplaceDentry ns loaded d n source existing = .ok ns') :
    ∃ ns₁, rtfsDirInodeAddEntry ns₁ loaded d n source = .ok ns' ∧
      (existing = none ∧ ns₁ = ns ∨ existing ≠ none ∧ rtfsDirInodeRemoveEntry ns loaded d n = .ok ns₁) := by
  cases existing with
  | none =>
    obtain ⟨ns₁,hfirst,hadd⟩ := Except.bind_ok h
    cases hfirst
    exact ⟨ns,hadd,Or.inl ⟨rfl,rfl⟩⟩
  | some target =>
    obtain ⟨_,-,h⟩ := Except.bind_ok h
    obtain ⟨ns₁,hremove,hadd⟩ := Except.bind_ok h
    exact ⟨ns₁,hadd,Or.inr ⟨nofun,hremove⟩⟩

theorem replace_binding_ne (h : rtfsReplaceDentry ns loaded d n source existing = .ok ns')
    (hne : ¬ (d' = d ∧ n' = n)) : ns'.binding d' n' = ns.binding d' n' := by
  obtain ⟨ns₁,hadd,⟨-,rfl⟩ | ⟨-,hremove⟩⟩ := replace_steps h
  · rw [add_binding hadd,if_neg hne]
  · rw [add_binding hadd,if_neg hne,remove_binding_ne hremove hne]

theorem probe_binding (hns : NamesOk ns) (h : rtfsProbeTarget ns parent n = .ok existing) :
    existing.map (fun v => (v.ino,v.fileType)) = ns.binding parent.ino n := by
  unfold rtfsProbeTarget at h
  split at h
  · rename_i v hv
    have hb := binding_of_lookup hv
    have hz : v.ino ≠ 0 := fun hz => hns.ino parent.ino n v.fileType (hz ▸ hb)
    rw [if_neg hz] at h
    cases h
    exact hb.symm
  · rename_i hnone
    cases h
    exact (binding_of_enoent hnone).symm
  · cases h

theorem replace_binds (hns : NamesOk ns) (hsrc : source.ino ≠ 0)
    (hprobe : existing.map (fun v => (v.ino,v.fileType)) = ns.binding d n)
    (h : rtfsReplaceDentry ns loaded d n source existing = .ok ns') :
    ns'.binding d n = some (source.ino,source.fileType) ∧ NamesOk ns' := by
  have hstep : ∃ ns₁, rtfsDirInodeAddEntry ns₁ loaded d n source = .ok ns' ∧ NamesOk ns₁ ∧
      ns₁.binding d n = none := by
    obtain ⟨ns₁,hadd,⟨rfl,rfl⟩ | ⟨-,hremove⟩⟩ := replace_steps h
    · exact ⟨ns₁,hadd,hns,hprobe.symm⟩
    · exact ⟨ns₁,hadd,hns.remove hremove,remove_binding_self hns hremove⟩
  obtain ⟨ns₁,hadd,hns₁,hfree⟩ := hstep
  refine ⟨?_,hns₁.add hadd hfree hsrc⟩
  rw [add_binding hadd,if_pos ⟨rfl,rfl⟩,hfree,Option.none_or]

end Replace

section Exact
variable {ns ns' : Namespace} {loaded oldLoaded newLoaded : Loaded} {nid : UInt32} {oldName : FileName}
  {parent oldParent source newParent : RtfsRuntimeInodeView} {isDir : Bool} {name : NameArg}
  {reclaimed : Option UInt32}

structure Created (ns ns' : Namespace) (parent : RtfsRuntimeInodeView) (name : NameArg) (isDir : Bool)
    (nid : UInt32) : Prop where
  valid : rtfsValidateParentDir parent name.token = .ok ()
  fresh : ns.binding parent.ino name.cstr = none
  binding : ∀ d n, ns'.binding d n =
    if d = parent.ino ∧ n = name.cstr then some (nid,if isDir then .dir else .regFile)
    else if d = nid then none else ns.binding d n
  iName : ns'.nameOf nid = some name.token

theorem mknod_created (h : rtfsMknod ns loaded parent name isDir nid = .ok ns') :
    Created ns ns' parent name isDir nid := by
  obtain ⟨_,hv,h⟩ := Except.bind_ok h
  split at h
  · cases h
  · rename_i henoent
    split at h
    · cases h
    · have hfresh := binding_of_enoent henoent
      have hset (d : UInt32) (n : FileName) :
          (ns.set nid (rtfsInitCreatedInode parent.ino name.token isDir)).binding d n =
            if d = nid then none else ns.binding d n := by
        rw [binding_set]
        rfl
      have hname : (ns.set nid (rtfsInitCreatedInode parent.ino name.token isDir)).nameOf nid =
          some name.token := nameOf_some set_self
      have hstep : ∃ ns₂, SameNames (ns.set nid (rtfsInitCreatedInode parent.ino name.token isDir)) ns₂ ∧
          rtfsAddNameToParent ns₂ loaded parent name.cstr
            ⟨nid,parent.ino,if isDir then .dir else .regFile⟩ = .ok ns' := by
        cases isDir with
        | false =>
          obtain ⟨ns₂,hadj,hadd⟩ := Except.bind_ok h
          cases hadj
          exact ⟨_,⟨rfl,rfl⟩,hadd⟩
        | true =>
          obtain ⟨ns₂,hadj,hadd⟩ := Except.bind_ok h
          exact ⟨ns₂,adjustUp_same hadj,hadd⟩
      obtain ⟨ns₂,hsame,h⟩ := hstep
      unfold rtfsAddNameToParent at h
      split at h
      · cases h
      · refine ⟨hv,hfresh,fun d n => ?_,?_⟩
        · rw [add_binding h,binding_congr hsame.1,hset]
          by_cases hdn : d = parent.ino ∧ n = name.cstr
          · rw [if_pos hdn,if_pos hdn,hdn.1,hdn.2,hfresh,ite_self,Option.none_or]
          · rw [if_neg hdn,if_neg hdn]
        · rw [add_nameOf h,hsame.2,hname]
  · cases h

theorem Created.binds_iff (h : Created ns ns' parent name isDir nid) :
    BindsToken ns ns' parent name.token nid (if isDir then .dir else .regFile) none ↔
      name.cstr = name.token := by
  constructor
  · intro hb
    by_contra hne
    have hnew : ns'.binding parent.ino name.cstr = some (nid,if isDir then .dir else .regFile) := by
      rw [h.binding,if_pos ⟨rfl,rfl⟩]
    rcases hb.others parent.ino name.cstr (fun he => hne he.2) with hnone | hold
    · rw [hnew] at hnone
      cases hnone
    · rw [hnew,h.fresh] at hold
      cases hold
  · intro heq
    refine ⟨lookup_of_binding h.valid ?_,fun d n hdn => ?_,h.iName,?_⟩
    · rw [h.binding,heq,if_pos ⟨rfl,rfl⟩]
    · rw [h.binding,heq,if_neg hdn]
      by_cases hd : d = nid
      · exact Or.inl (if_pos hd)
      · exact Or.inr (if_neg hd)
    · rw [← heq,h.fresh]
      rfl

structure Renamed (ns ns' : Namespace) (oldParent source newParent : RtfsRuntimeInodeView) (oldName : FileName)
    (name : NameArg) (existing : Option RtfsRuntimeInodeView) : Prop where
  probe : rtfsProbeTarget ns newParent name.token = .ok existing
  steps : ∃ newLoaded oldLoaded ns₁ ns₂,
    rtfsReplaceDentry ns newLoaded newParent.ino name.cstr source existing = .ok ns₁ ∧
    rtfsDirInodeRemoveEntry ns₁ oldLoaded oldParent.ino oldName = .ok ns₂ ∧ ns'.entriesOf = ns₂.entriesOf
  iName : ns'.nameOf source.ino = some name.token

theorem within_renamed {existing : Option RtfsRuntimeInodeView} (hp : oldParent.ino = newParent.ino)
    (hprobe : rtfsProbeTarget ns newParent name.token = .ok existing)
    (h : rtfsRenameWithinSameParent ns loaded oldParent source oldName name existing = .ok ns') :
    Renamed ns ns' oldParent source newParent oldName name existing := by
  obtain ⟨_,-,h⟩ := Except.bind_ok h
  obtain ⟨ns₁,hreplace,h⟩ := Except.bind_ok h
  obtain ⟨ns₂,hremove,h⟩ := Except.bind_ok h
  obtain ⟨ns₃,hsource,h⟩ := Except.bind_ok h
  obtain ⟨hentries,hname⟩ := renameSource_names hsource
  have hsame := unlinkReplaced_same h
  rw [hp] at hreplace
  exact ⟨hprobe,⟨loaded,_,ns₁,ns₂,hreplace,hremove,hsame.1.trans hentries⟩,by rw [hsame.2,hname]⟩

theorem across_renamed {existing : Option RtfsRuntimeInodeView}
    (hprobe : rtfsProbeTarget ns newParent name.token = .ok existing)
    (h : rtfsRenameAcrossParents ns oldLoaded newLoaded oldParent source newParent oldName name existing =
      .ok ns') : Renamed ns ns' oldParent source newParent oldName name existing := by
  obtain ⟨_,-,h⟩ := Except.bind_ok h
  obtain ⟨ns₁,hreplace,h⟩ := Except.bind_ok h
  obtain ⟨ns₂,hremove,h⟩ := Except.bind_ok h
  have hstep : ∃ ns₃, SameNames ns₂ ns₃ ∧ (rtfsUnlinkReplaced ns₃ newParent existing >>= fun ns₄ =>
      rtfsRenameSourceInode ns₄ source.ino name.token (some newParent.ino)) = .ok ns' := by
    split at h
    · obtain ⟨ns₅,hdown,h⟩ := Except.bind_ok h
      obtain ⟨ns₃,hup,h⟩ := Except.bind_ok h
      exact ⟨ns₃,(adjustDown_same hdown).trans (adjustUp_same hup),h⟩
    · obtain ⟨ns₃,hsame,h⟩ := Except.bind_ok h
      cases hsame
      exact ⟨ns₂,⟨rfl,rfl⟩,h⟩
  obtain ⟨ns₃,hsame,h⟩ := hstep
  obtain ⟨ns₄,hunlink,h⟩ := Except.bind_ok h
  obtain ⟨hentries,hname⟩ := renameSource_names h
  have hsame₄ := hsame.trans (unlinkReplaced_same hunlink)
  exact ⟨hprobe,⟨newLoaded,oldLoaded,ns₁,ns₂,hreplace,hremove,hentries.trans hsame₄.1⟩,hname⟩

theorem rename_cases (h : rtfsRename ns oldLoaded newLoaded oldParent source newParent oldName name =
    .ok (ns',reclaimed)) :
    rtfsValidateParentDir newParent name.token = .ok () ∧
    if oldParent.ino = newParent.ino ∧ oldName = name.token then ns' = ns ∧ reclaimed = none
    else ∃ existing, reclaimed = existing.map RtfsRuntimeInodeView.ino ∧
      Renamed ns ns' oldParent source newParent oldName name existing := by
  obtain ⟨_,hv,h⟩ := Except.bind_ok h
  refine ⟨hv,?_⟩
  split at h
  · cases h
  · by_cases hnoop : oldParent.ino = newParent.ino ∧ oldName = name.token
    · rw [if_pos hnoop] at h
      cases h
      rw [if_pos hnoop]
      exact ⟨rfl,rfl⟩
    · rw [if_neg hnoop] at h
      rw [if_neg hnoop]
      obtain ⟨existing,hprobe,h⟩ := Except.bind_ok h
      by_cases hp : oldParent.ino = newParent.ino
      · rw [if_neg (not_not_intro hp)] at h
        obtain ⟨ns₁,hmove,h⟩ := Except.bind_ok h
        cases h
        exact ⟨existing,rfl,within_renamed hp hprobe hmove⟩
      · rw [if_pos hp] at h
        obtain ⟨ns₁,hmove,h⟩ := Except.bind_ok h
        cases h
        exact ⟨existing,rfl,across_renamed hprobe hmove⟩

theorem Renamed.binds_iff {existing : Option RtfsRuntimeInodeView}
    (h : Renamed ns ns' oldParent source newParent oldName name existing) (hns : NamesOk ns)
    (hl : Located ns oldParent.ino oldName source)
    (hv : rtfsValidateParentDir newParent name.token = .ok ())
    (hmove : ¬ (oldParent.ino = newParent.ino ∧ oldName = name.token)) :
    BindsToken ns ns' newParent name.token source.ino source.fileType
      (existing.map RtfsRuntimeInodeView.ino) ↔ name.cstr = name.token := by
  obtain ⟨newLoaded,oldLoaded,ns₁,ns₂,hreplace,hremove,hentries⟩ := h.steps
  have hold : ¬ (newParent.ino = oldParent.ino ∧ name.token = oldName) :=
    fun he => hmove ⟨he.1.symm,he.2.symm⟩
  have htoken : ns.binding newParent.ino name.token ≠ some (source.ino,source.fileType) :=
    fun hb => hold (hl.only _ _ _ hb)
  constructor
  · intro hb
    by_contra hne
    have hkept : ns'.binding newParent.ino name.token = ns.binding newParent.ino name.token := by
      rw [binding_congr hentries,remove_binding_ne hremove hold,
        replace_binding_ne hreplace (fun he => hne he.2.symm)]
    have hfound := binding_of_lookup hb.lookup
    rw [← hkept] at htoken
    exact htoken hfound
  · intro heq
    rw [heq] at hreplace
    have hprobe := probe_binding hns h.probe
    have hsrc : source.ino ≠ 0 := fun hz => hns.ino _ _ source.fileType (hz ▸ hl.bound)
    obtain ⟨hnew,hns₁⟩ := replace_binds hns hsrc hprobe hreplace
    refine ⟨lookup_of_binding hv ?_,fun d n hdn => ?_,h.iName,?_⟩
    · rw [binding_congr hentries,remove_binding_ne hremove hold,hnew]
    · rw [binding_congr hentries]
      by_cases hgone : d = oldParent.ino ∧ n = oldName
      · exact Or.inl (by rw [hgone.1,hgone.2,remove_binding_self hns₁ hremove])
      · exact Or.inr (by rw [remove_binding_ne hremove hgone,replace_binding_ne hreplace hdn])
    · rw [← hprobe]
      cases existing with
      | none => rfl
      | some v =>
        have hne : v.ino ≠ source.ino := fun he => hold (hl.only _ _ v.fileType (he ▸ hprobe.symm))
        simp only [Option.map_some,Option.filter_some,hne,ne_eq,not_false_eq_true,decide_true,if_true]

theorem createdName_iff (op : NameOp) (hns : NamesOk ns) (hl : op.Located ns)
    (h : op.run ns name = .ok (ns',reclaimed)) :
    BindsToken ns ns' op.dir name.token op.ino op.type reclaimed ↔ op.Terminated ns name := by
  cases op with
  | mknod loaded parent isDir nid =>
    obtain ⟨ns₁,hmknod,hpair⟩ := Except.map_ok h
    cases hpair
    exact (mknod_created hmknod).binds_iff.trans NameArg.cstr_eq_token
  | rename oldLoaded newLoaded oldParent source newParent oldName =>
    obtain ⟨hv,hcases⟩ := rename_cases h
    have hterm : (NameOp.rename oldLoaded newLoaded oldParent source newParent oldName).Terminated ns name ↔
        if oldParent.ino = newParent.ino ∧ oldName = name.token then ns.nameOf source.ino = some name.token
        else name.bytes[name.namelen]? = some 0 := Iff.rfl
    rw [hterm]
    by_cases hnoop : oldParent.ino = newParent.ino ∧ oldName = name.token
    · rw [if_pos hnoop] at hcases ⊢
      obtain ⟨rfl,rfl⟩ := hcases
      have hbound := hl.bound
      rw [hnoop.1,hnoop.2] at hbound
      constructor
      · exact BindsToken.iName
      · intro hname
        refine ⟨lookup_of_binding hv hbound,fun d n _ => Or.inr rfl,hname,?_⟩
        simp only [NameOp.dir,NameOp.ino,hbound,Option.map_some,Option.filter_some,ne_eq,not_true_eq_false,
          decide_false,Bool.false_eq_true,if_false]
    · rw [if_neg hnoop] at hcases ⊢
      obtain ⟨existing,rfl,hrenamed⟩ := hcases
      exact (hrenamed.binds_iff hns hl hv hnoop).trans NameArg.cstr_eq_token

-- root directory 5 with the files f and g
def twoFiles : Namespace :=
  ⟨fun x =>
    if x = 5 then some ⟨.dir,2,5,[],2,[⟨6,.regFile,[102]⟩,⟨7,.regFile,[103]⟩]⟩
    else if x = 6 then some ⟨.regFile,1,5,[102],0,[]⟩
    else if x = 7 then some ⟨.regFile,1,5,[103],0,[]⟩
    else none⟩

theorem twoFiles_binding (d : UInt32) (n : FileName) : twoFiles.binding d n =
    if d = 5 then (if n = [102] then some (6,.regFile) else if n = [103] then some (7,.regFile) else none)
    else none := by
  by_cases hd : d = 5
  · have hi : twoFiles.inodes d = some ⟨.dir,2,5,[],2,[⟨6,.regFile,[102]⟩,⟨7,.regFile,[103]⟩]⟩ := if_pos hd
    rw [if_pos hd,binding_of_inode hi]
    by_cases hf : n = [102]
    · rw [hf]
      rfl
    · by_cases hg : n = [103]
      · rw [hg]
        rfl
      · rw [if_neg hf,if_neg hg]
        refine listed_none (fun e he hen => ?_)
        simp only [List.mem_cons,List.not_mem_nil,or_false] at he
        rcases he with rfl | rfl
        · exact hf hen.symm
        · exact hg hen.symm
  · rw [if_neg hd]
    unfold Namespace.binding Namespace.entriesOf twoFiles
    simp only [if_neg hd]
    split_ifs <;> rfl

theorem twoFiles_ok : NamesOk twoFiles := by
  constructor
  · intro d entries h
    obtain ⟨i,hi,rfl⟩ := Option.map_eq_some_iff.mp h
    unfold twoFiles at hi
    simp only at hi
    split_ifs at hi
    all_goals
      cases hi
      decide
  · intro d n ty
    rw [twoFiles_binding]
    split_ifs <;> simp

def rootView : RtfsRuntimeInodeView := ⟨5,5,.dir⟩

def renameFile : NameOp := .rename (fun _ => true) (fun _ => true) rootView ⟨6,5,.regFile⟩ rootView [102]

theorem renameFile_located : renameFile.Located twoFiles := by
  refine ⟨rfl,fun d n ty h => ?_⟩
  rw [twoFiles_binding] at h
  split_ifs at h with hd hf hg
  · exact ⟨hd,hf⟩
  · simp at h

-- renaming f onto g replaces 7
theorem createdName_renamed :
    ∃ ns', renameFile.run twoFiles ⟨[103,0],1,by decide,by decide⟩ = .ok (ns',some 7) ∧
    BindsToken twoFiles ns' rootView [103] 6 .regFile (some 7) := by
  refine ⟨_,rfl,?_⟩
  have hterm : renameFile.Terminated twoFiles ⟨[103,0],1,by decide,by decide⟩ := rfl
  exact (createdName_iff renameFile twoFiles_ok renameFile_located rfl).mpr hterm

-- mkdir of "d/" with the token "d" makes a directory that no path reaches
theorem trailingSlash_misnamed : ∃ ns',
    (NameOp.mknod (fun _ => true) rootView true 8).run twoFiles ⟨[100,47,0],1,by decide,by decide⟩ =
      .ok (ns',none) ∧
    rtfsResolveNameInParent ns' rootView [100] = .error .enoent ∧
    ns'.binding 5 [100,47] = some (8,.dir) ∧ ns'.nameOf 8 = some [100] ∧
    ¬ BindsToken twoFiles ns' rootView [100] 8 .dir none := by
  refine ⟨_,rfl,rfl,rfl,rfl,fun h => ?_⟩
  cases h.lookup

end Exact

section Whole
variable {ns : Namespace} {parent oldParent source newParent v : RtfsRuntimeInodeView} {name : NameArg}

theorem add_whole (ns : Namespace) (d : UInt32) (n : FileName) (v : RtfsRuntimeInodeView) :
    rtfsDirInodeAddEntry ns (fun _ => true) d n v = Rtfs.rtfsDirInodeAddEntry ns d n v := by
  unfold rtfsDirInodeAddEntry Rtfs.rtfsDirInodeAddEntry
  simp only [List.filter_true]

theorem remove_whole (ns : Namespace) (d : UInt32) (n : FileName) :
    rtfsDirInodeRemoveEntry ns (fun _ => true) d n = Rtfs.rtfsDirInodeRemoveEntry ns d n := by
  unfold rtfsDirInodeRemoveEntry Rtfs.rtfsDirInodeRemoveEntry
  simp only [List.filter_true,true_and]

theorem token_ne_nil (hv : rtfsValidateParentDir parent name.token = .ok ()) : name.token ≠ [] := by
  intro hz
  rw [hz] at hv
  unfold rtfsValidateParentDir at hv
  split at hv
  · cases hv
  · cases hv

-- with every entry loaded and the token ending the C string, the operations are those on whole directories
theorem mknod_whole (hname : name.cstr = name.token) (isDir : Bool) (nid : UInt32) :
    rtfsMknod ns (fun _ => true) parent name isDir nid = Rtfs.rtfsMknod ns parent name.token isDir nid := by
  unfold rtfsMknod Rtfs.rtfsMknod
  rw [hname]
  cases hv : rtfsValidateParentDir parent name.token with
  | error e => rfl
  | ok u =>
    have hadd (m : Namespace) (child : RtfsRuntimeInodeView) :
        rtfsAddNameToParent m (fun _ => true) parent name.token child =
          Rtfs.rtfsDirInodeAddEntry m parent.ino name.token child :=
      (if_neg (token_ne_nil hv)).trans (add_whole m parent.ino name.token child)
    cases rtfsResolveNameInParent ns parent name.token with
    | ok v => rfl
    | error e =>
      cases e
      case enoent => simp only [hadd]
      all_goals rfl

theorem replace_whole (d : UInt32) (n : FileName) (existing : Option RtfsRuntimeInodeView) :
    rtfsReplaceDentry ns (fun _ => true) d n source existing = Rtfs.rtfsReplaceDentry ns d n source existing := by
  unfold rtfsReplaceDentry Rtfs.rtfsReplaceDentry
  cases existing <;> simp only [add_whole,remove_whole]

theorem within_whole (hname : name.cstr = name.token) (oldName : FileName) (existing : Option RtfsRuntimeInodeView) :
    rtfsRenameWithinSameParent ns (fun _ => true) parent source oldName name existing =
      Rtfs.rtfsRenameWithinSameParent ns parent source oldName name.token existing := by
  have hadd (e : RtfsMemDirEntry) : Loaded.add (fun _ => true) e = fun _ => true := rfl
  unfold rtfsRenameWithinSameParent Rtfs.rtfsRenameWithinSameParent
  simp only [hname,hadd,replace_whole,remove_whole]

theorem across_whole (hname : name.cstr = name.token) (oldName : FileName) (existing : Option RtfsRuntimeInodeView) :
    rtfsRenameAcrossParents ns (fun _ => true) (fun _ => true) oldParent source newParent oldName name existing =
      Rtfs.rtfsRenameAcrossParents ns oldParent source newParent oldName name.token existing := by
  unfold rtfsRenameAcrossParents Rtfs.rtfsRenameAcrossParents
  simp only [hname,replace_whole,remove_whole]

theorem map_fst_pair {ε α β : Type} {r : β} (x : Except ε α) : (x >>= fun a => .ok (a,r)).map Prod.fst = x := by
  cases x <;> rfl

theorem rename_whole (hname : name.cstr = name.token) (oldName : FileName) :
    (rtfsRename ns (fun _ => true) (fun _ => true) oldParent source newParent oldName name).map Prod.fst =
      Rtfs.rtfsRename ns oldParent source newParent oldName name.token := by
  unfold rtfsRename Rtfs.rtfsRename
  simp only [within_whole hname,across_whole hname]
  cases rtfsValidateParentDir newParent name.token with
  | error e => rfl
  | ok u =>
    change Except.map Prod.fst (if oldName = [] then _ else _) = if oldName = [] then _ else _
    split_ifs
    · rfl
    · rfl
    · cases rtfsProbeTarget ns newParent name.token with
      | error e => rfl
      | ok existing => exact map_fst_pair _
    · cases rtfsProbeTarget ns newParent name.token with
      | error e => rfl
      | ok existing => exact map_fst_pair _

end Whole

end OnDemand

end Rtfs
