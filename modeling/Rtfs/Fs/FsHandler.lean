import Rtfs.Fs.Types

namespace Rtfs

inductive RtfsFileType
  | unknown
  | regFile
  | dir
  | chrdev
  | blkdev
  | fifo
  | sock
  | symlink
  deriving DecidableEq

abbrev FileName := List UInt8

structure RtfsMemDirEntry where
  ino : UInt32
  fileType : RtfsFileType
  name : FileName
  deriving DecidableEq

structure RtfsInode where
  type : RtfsFileType
  nlink : Nat
  pino : UInt32
  name : FileName
  dentryNum : Nat
  entries : List RtfsMemDirEntry
  deriving DecidableEq

structure RtfsRuntimeInodeView where
  ino : UInt32
  parentIno : UInt32
  fileType : RtfsFileType
  deriving DecidableEq

structure Namespace where
  inodes : UInt32 → Option RtfsInode

def Namespace.set (ns : Namespace) (ino : UInt32) (i : RtfsInode) : Namespace :=
  ⟨Function.update ns.inodes ino (some i)⟩

def rtfsInodeIsDirectoryType (t : RtfsFileType) : Bool := t = .dir

def rtfsResolveTargetInodeHandle (ns : Namespace) (ino : UInt32) : Except Errno RtfsInode :=
  match ns.inodes ino with
  | some i => .ok i
  | none => .error .enoent

def rtfsDirInodeFindEntry (entries : List RtfsMemDirEntry) (name : FileName) : Option RtfsMemDirEntry :=
  entries.find? (fun e => e.name = name)

def rtfsDirInodeAddEntry (ns : Namespace) (dir : UInt32) (name : FileName)
    (child : RtfsRuntimeInodeView) : Except Errno Namespace := do
  let i ← rtfsResolveTargetInodeHandle ns dir
  if name.length = 0 ∨ rtfsNameLen < name.length then .error .enametoolong
  else if (rtfsDirInodeFindEntry i.entries name).isSome then .error .eexist
  else .ok (ns.set dir { i with
    entries := i.entries ++ [⟨child.ino,child.fileType,name⟩]
    dentryNum := i.dentryNum + 1 })

def rtfsDirInodeRemoveEntry (ns : Namespace) (dir : UInt32) (name : FileName) :
    Except Errno Namespace := do
  let i ← rtfsResolveTargetInodeHandle ns dir
  if name.length = 0 ∨ rtfsNameLen < name.length then .error .enametoolong
  else if (rtfsDirInodeFindEntry i.entries name).isNone then .error .enoent
  else .ok (ns.set dir { i with
    entries := i.entries.eraseP (fun e => e.name = name)
    dentryNum := i.dentryNum - 1 })

def rtfsValidateParentDir (parent : RtfsRuntimeInodeView) (name : FileName) : Except Errno Unit :=
  if ¬ rtfsInodeIsDirectoryType parent.fileType then .error .enotdir
  else if name.length = 0 then .error .einval
  else if rtfsNameLen < name.length then .error .enametoolong
  else if name = [0x2e] ∨ name = [0x2e,0x2e] then .error .einval
  else .ok ()

def rtfsResolveNameInParent (ns : Namespace) (parent : RtfsRuntimeInodeView) (name : FileName) :
    Except Errno RtfsRuntimeInodeView := do
  rtfsValidateParentDir parent name
  let i ← rtfsResolveTargetInodeHandle ns parent.ino
  match rtfsDirInodeFindEntry i.entries name with
  | some e => .ok ⟨e.ino,parent.ino,e.fileType⟩
  | none => .error .enoent

def rtfsAdjustParentDirectoryNlink (ns : Namespace) (parent : RtfsRuntimeInodeView) (delta : Int) :
    Except Errno Namespace := do
  let i ← rtfsResolveTargetInodeHandle ns parent.ino
  if ¬ rtfsInodeIsDirectoryType parent.fileType then .error .enotdir
  else if delta < 0 then
    if i.nlink < (-delta).toNat then .error .einval
    else .ok (ns.set parent.ino { i with nlink := i.nlink - (-delta).toNat })
  else .ok (ns.set parent.ino { i with nlink := i.nlink + delta.toNat })

def rtfsTargetIsRemovableEmptyObject (target : RtfsRuntimeInodeView) (i : RtfsInode) :
    Except Errno Unit :=
  if rtfsInodeIsDirectoryType target.fileType then
    if i.dentryNum ≠ 0 then .error .enotempty else .ok ()
  else if target.fileType = .regFile then .ok ()
  else .error .enotsup

def rtfsMarkTargetInodeUnlinked (ns : Namespace) (target : RtfsRuntimeInodeView) :
    Except Errno Namespace := do
  let i ← rtfsResolveTargetInodeHandle ns target.ino
  .ok (ns.set target.ino { i with
    nlink := 0
    pino := if rtfsInodeIsDirectoryType target.fileType then 0 else i.pino })

def rtfsInitCreatedInode (parentIno : UInt32) (name : FileName) (isDir : Bool) : RtfsInode :=
  ⟨if isDir then .dir else .regFile,if isDir then 2 else 1,parentIno,name,0,[]⟩

def rtfsMknod (ns : Namespace) (parent : RtfsRuntimeInodeView) (name : FileName) (isDir : Bool)
    (nid : UInt32) : Except Errno Namespace := do
  rtfsValidateParentDir parent name
  match rtfsResolveNameInParent ns parent name with
  | .ok _ => .error .eexist
  | .error .enoent =>
    if nid = invalidNid then .error .enospc
    else do
      let ns₁ := ns.set nid (rtfsInitCreatedInode parent.ino name isDir)
      let ns₂ ← if isDir then rtfsAdjustParentDirectoryNlink ns₁ parent 1 else .ok ns₁
      rtfsDirInodeAddEntry ns₂ parent.ino name
        ⟨nid,parent.ino,if isDir then .dir else .regFile⟩
  | .error e => .error e

def rtfsRmnod (ns : Namespace) (parent target : RtfsRuntimeInodeView) (name : FileName) :
    Except Errno Namespace :=
  if ¬ rtfsInodeIsDirectoryType parent.fileType then .error .enotdir
  else if parent.ino = target.ino then .error .ebusy
  else if name = [] then .error .einval
  else do
    let i ← rtfsResolveTargetInodeHandle ns target.ino
    rtfsTargetIsRemovableEmptyObject target i
    let ns₁ ← rtfsMarkTargetInodeUnlinked ns target
    let ns₂ ← if rtfsInodeIsDirectoryType target.fileType then
        rtfsAdjustParentDirectoryNlink ns₁ parent (-1) else .ok ns₁
    rtfsDirInodeRemoveEntry ns₂ parent.ino name

def rtfsCheckReplacedTarget (ns : Namespace) (source target : RtfsRuntimeInodeView) :
    Except Errno Unit :=
  if rtfsInodeIsDirectoryType source.fileType ∧ ¬ rtfsInodeIsDirectoryType target.fileType then
    .error .enotdir
  else if ¬ rtfsInodeIsDirectoryType source.fileType ∧ rtfsInodeIsDirectoryType target.fileType then
    .error .eisdir
  else do
    let i ← rtfsResolveTargetInodeHandle ns target.ino
    rtfsTargetIsRemovableEmptyObject target i

def rtfsReplaceDentry (ns : Namespace) (newParent : UInt32) (newName : FileName)
    (source : RtfsRuntimeInodeView) (existing : Option RtfsRuntimeInodeView) :
    Except Errno Namespace := do
  let ns₁ ← match existing with
    | none => .ok ns
    | some target => do
      rtfsCheckReplacedTarget ns source target
      rtfsDirInodeRemoveEntry ns newParent newName
  rtfsDirInodeAddEntry ns₁ newParent newName source

def rtfsUnlinkReplaced (ns : Namespace) (newParent : RtfsRuntimeInodeView)
    (existing : Option RtfsRuntimeInodeView) : Except Errno Namespace :=
  match existing with
  | none => .ok ns
  | some target => do
    let ns₁ ← rtfsMarkTargetInodeUnlinked ns target
    if rtfsInodeIsDirectoryType target.fileType then
      rtfsAdjustParentDirectoryNlink ns₁ newParent (-1)
    else .ok ns₁

def rtfsRenameSourceInode (ns : Namespace) (source : UInt32) (newName : FileName)
    (pino : Option UInt32) : Except Errno Namespace := do
  let i ← rtfsResolveTargetInodeHandle ns source
  .ok (ns.set source { i with name := newName,pino := pino.getD i.pino })

def rtfsRenameWithinSameParent (ns : Namespace) (parent source : RtfsRuntimeInodeView)
    (oldName newName : FileName) (existing : Option RtfsRuntimeInodeView) :
    Except Errno Namespace := do
  let _ ← rtfsResolveTargetInodeHandle ns source.ino
  let ns₁ ← rtfsReplaceDentry ns parent.ino newName source existing
  let ns₂ ← rtfsDirInodeRemoveEntry ns₁ parent.ino oldName
  let ns₃ ← rtfsRenameSourceInode ns₂ source.ino newName none
  rtfsUnlinkReplaced ns₃ parent existing

def rtfsRenameAcrossParents (ns : Namespace) (oldParent source newParent : RtfsRuntimeInodeView)
    (oldName newName : FileName) (existing : Option RtfsRuntimeInodeView) :
    Except Errno Namespace := do
  let _ ← rtfsResolveTargetInodeHandle ns source.ino
  let ns₁ ← rtfsReplaceDentry ns newParent.ino newName source existing
  let ns₂ ← rtfsDirInodeRemoveEntry ns₁ oldParent.ino oldName
  let ns₃ ← if rtfsInodeIsDirectoryType source.fileType then do
      let ns' ← rtfsAdjustParentDirectoryNlink ns₂ oldParent (-1)
      rtfsAdjustParentDirectoryNlink ns' newParent 1
    else .ok ns₂
  let ns₄ ← rtfsUnlinkReplaced ns₃ newParent existing
  rtfsRenameSourceInode ns₄ source.ino newName (some newParent.ino)

def rtfsProbeTarget (ns : Namespace) (newParent : RtfsRuntimeInodeView) (name : FileName) :
    Except Errno (Option RtfsRuntimeInodeView) :=
  match rtfsResolveNameInParent ns newParent name with
  | .ok v => .ok (if v.ino = 0 then none else some v)
  | .error .enoent => .ok none
  | .error e => .error e

def rtfsRename (ns : Namespace) (oldParent source newParent : RtfsRuntimeInodeView)
    (oldName name : FileName) : Except Errno Namespace := do
  rtfsValidateParentDir newParent name
  if oldName = [] then .error .einval
  else if oldParent.ino = newParent.ino ∧ oldName = name then .ok ns
  else do
    let existing ← rtfsProbeTarget ns newParent name
    if oldParent.ino ≠ newParent.ino then
      rtfsRenameAcrossParents ns oldParent source newParent oldName name existing
    else rtfsRenameWithinSameParent ns oldParent source oldName name existing

end Rtfs
