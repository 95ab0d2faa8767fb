import Rtfs.Cache.GenericCacheManager
import Rtfs.Inode.RtfsNode
import Rtfs.Fs.SrmapUtils
import Rtfs.Fs.SuperManager

namespace Rtfs

structure BlockDev (β : Type) where
  holds : UInt32 → Bool
  blocks : UInt32 → β

def BlockDev.read {β : Type} (d : BlockDev β) (lpa : UInt32) : Option β :=
  if d.holds lpa then some (d.blocks lpa) else none

def BlockDev.write {β : Type} (d : BlockDev β) (lpa : UInt32) (b : β) : BlockDev β :=
  if d.holds lpa then { d with blocks := Function.update d.blocks lpa b } else d

inductive NodeBlockCacheEntryState
  | uptodate
  | dirty
  | deleted
  deriving DecidableEq

structure NodeBlockCacheEntry (β : Type) where
  node : β
  nid : UInt32
  parentNid : UInt32
  lpa : UInt32
  cowNewLpa : UInt32
  hasPendingCowRelocation : Bool
  refCount : Nat
  state : NodeBlockCacheEntryState

def nodeBlockCacheEntryInit {β : Type} (buffer : β) (nid parentNid lpa : UInt32) :
    NodeBlockCacheEntry β := ⟨buffer,nid,parentNid,lpa,invalidLpa,false,0,.uptodate⟩

-- entries are the allocated entries, the index and the dirty list hold their numbers
structure NodeBlockCache (β : Type) where
  expectSize : Nat
  curSize : Nat
  cacheManager : GenericCacheManager Nat
  entries : List (NodeBlockCacheEntry β)
  dirtyList : List Nat

structure FileSystemManager (β : Type) where
  nodeCache : NodeBlockCache β
  fs : FsMeta
  dev : BlockDev β
  srmap : SrmapUtils

def nodeBlockCacheInit {β : Type} (expectSize : Nat) : NodeBlockCache β :=
  ⟨expectSize,0,GenericCacheManager.init,[],[]⟩

namespace NodeBlockCache
variable {β : Type} (c : NodeBlockCache β)

def lookup (nid : UInt32) : Option Nat := c.cacheManager.index nid

def entry (p : Nat) : Option (NodeBlockCacheEntry β) := c.entries[p]?

def modify (p : Nat) (f : NodeBlockCacheEntry β → NodeBlockCacheEntry β) : NodeBlockCache β :=
  { c with entries := c.entries.modify p f }

def pin (nid : UInt32) : NodeBlockCache β := { c with cacheManager := c.cacheManager.pin nid }

def unpin (nid : UInt32) : NodeBlockCache β := { c with cacheManager := c.cacheManager.unpin nid }

def addRefCount (p : Nat) : NodeBlockCache β :=
  match c.entry p with
  | none => c
  | some e =>
    let c' := c.modify p (fun e => { e with refCount := e.refCount + 1 })
    if e.refCount + 1 = 1 then c'.pin e.nid else c'

def released (p : Nat) (e : NodeBlockCacheEntry β) : NodeBlockCache β :=
  let c' := c.modify p (fun e => { e with refCount := e.refCount - 1 })
  if e.refCount ≠ 1 then c' else c'.unpin e.nid

def without (m : GenericCacheManager Nat) : NodeBlockCache β :=
  { c with cacheManager := m,curSize := c.curSize - 1 }

def get (nid : UInt32) : Option Nat × NodeBlockCache β :=
  match c.lookup nid with
  | none => (none,c)
  | some p => (some p,{ c with cacheManager := c.cacheManager.access nid }.addRefCount p)

def markDirty (p : Nat) : Option (NodeBlockCache β) :=
  match c.entry p with
  | none => none
  | some e =>
    match e.state with
    | .dirty => some c
    | .uptodate =>
      some { c.modify p (fun e => { e with state := .dirty }) with dirtyList := c.dirtyList ++ [p] }
    | .deleted => none

-- nodeBlockCacheRemoveEntry
def deleteNode (p : Nat) : NodeBlockCache β :=
  match c.entry p with
  | none => c
  | some e =>
    { c.modify p (fun e => { e with state := .deleted }) with
      dirtyList := if e.state = .dirty then c.dirtyList.erase p else c.dirtyList }

end NodeBlockCache

section Refs
variable {β : Type}

def FileSystemManager.onCache (s : FileSystemManager β) (c : NodeBlockCache β) : FileSystemManager β :=
  { s with nodeCache := c }

-- gives back the nid and the block of a deleted node that nothing refers to
def dropDeleted (s : FileSystemManager β) (e : NodeBlockCacheEntry β) : Option (FileSystemManager β) :=
  (superManagerFreeNid s.fs e.nid).bind (fun m =>
    (if e.lpa = invalidLpa then some m else sitInvalidateLpa m e.lpa).map (fun m => { s with
      nodeCache := s.nodeCache.without (s.nodeCache.cacheManager.remove e.nid)
      fs := m }))

-- runs on the parent as long as the entry that lost its last reference was a deleted one
def subRefCountUp : Nat → FileSystemManager β → Nat → Option (FileSystemManager β)
  | 0,_,_ => none
  | n + 1,s,p =>
    match s.nodeCache.entry p with
    | none => none
    | some e =>
      let s := s.onCache (s.nodeCache.released p e)
      if e.refCount ≠ 1 ∨ e.state ≠ .deleted then some s
      else
        match dropDeleted s e with
        | none => none
        | some s =>
          if e.parentNid = invalidNid then some s
          else
            match s.nodeCache.lookup e.parentNid with
            | none => none
            | some q => subRefCountUp n s q

def nodeBlockCacheSubRefCount (s : FileSystemManager β) (p : Nat) : Option (FileSystemManager β) :=
  subRefCountUp (s.nodeCache.cacheManager.replacer.keys.length + 1) s p

def dropParentRef (s : FileSystemManager β) (parentNid : UInt32) : Option (FileSystemManager β) :=
  if parentNid = invalidNid then some s
  else
    match s.nodeCache.lookup parentNid with
    | none => none
    | some q => nodeBlockCacheSubRefCount s q

def replaceLoop : Nat → FileSystemManager β → Option (FileSystemManager β)
  | 0,_ => none
  | n + 1,s =>
    match s.nodeCache.cacheManager.replaceOne with
    | none => some s
    | some (_,p,m) =>
      match s.nodeCache.entry p with
      | none => none
      | some e =>
        if e.refCount ≠ 0 then none
        else
          match dropParentRef (s.onCache (s.nodeCache.without m)) e.parentNid with
          | none => none
          | some s => if s.nodeCache.curSize ≤ s.nodeCache.expectSize then some s else replaceLoop n s

def nodeBlockCacheDoReplace (s : FileSystemManager β) : Option (FileSystemManager β) :=
  if s.nodeCache.curSize ≤ s.nodeCache.expectSize then some s
  else replaceLoop (s.nodeCache.cacheManager.replacer.keys.length + 1) s

end Refs

section Api
variable {β : Type} (s : FileSystemManager β)

def holdParent (c : NodeBlockCache β) (parentNid : UInt32) : Option (NodeBlockCache β) :=
  if parentNid = invalidNid then some c else (c.lookup parentNid).map c.addRefCount

def insertEntry (c : NodeBlockCache β) (e : NodeBlockCacheEntry β) : Option (NodeBlockCache β) :=
  if h : c.cacheManager.index e.nid = none then
    some ({ c with
      cacheManager := c.cacheManager.add e.nid c.entries.length h
      entries := c.entries ++ [e]
      curSize := c.curSize + 1 }.addRefCount c.entries.length)
  else none

-- nodeBlockCacheAdd up to its nodeBlockCacheDoReplace
def addBeforeReplace (buffer : β) (nid parentNid lpa : UInt32) : Option (FileSystemManager β) :=
  if s.nodeCache.lookup nid ≠ none then none
  else (holdParent s.nodeCache parentNid).bind (fun c =>
    (insertEntry c (nodeBlockCacheEntryInit buffer nid parentNid lpa)).map s.onCache)

def nodeBlockCacheAdd (buffer : β) (nid parentNid lpa : UInt32) : Option (Nat × FileSystemManager β) :=
  ((addBeforeReplace s buffer nid parentNid lpa).bind nodeBlockCacheDoReplace).map
    (fun s' => (s.nodeCache.entries.length,s'))

def nodeBlockCacheGet (nid : UInt32) : Option Nat × FileSystemManager β :=
  ((s.nodeCache.get nid).1,s.onCache (s.nodeCache.get nid).2)

def nodeBlockCacheEntryHandleDestroy (p : Nat) : Option (FileSystemManager β) :=
  nodeBlockCacheSubRefCount s p

def nodeBlockCacheEntryHandleCopy (p : Nat) : FileSystemManager β := s.onCache (s.nodeCache.addRefCount p)

def nodeBlockCacheEntryHandleMarkDirty (p : Nat) : Option (FileSystemManager β) :=
  (s.nodeCache.markDirty p).map s.onCache

def FileSystemManager.nodeBlockCacheEntryHandleDeleteNode (p : Nat) : FileSystemManager β :=
  s.onCache (s.nodeCache.deleteNode p)

-- a change of the node through the pointer of a handle
def writeNode (p : Nat) (b : β) : FileSystemManager β :=
  s.onCache (s.nodeCache.modify p (fun e => { e with node := b }))

end Api

section Writeback
variable {β : Type}

def writebackEntry (s : FileSystemManager β) (p : Nat) (e : NodeBlockCacheEntry β) :
    Option (Option Errno × FileSystemManager β) :=
  match superManagerAllocNodeLpa s.fs with
  | none => none
  | some (newLpa,m) =>
    if newLpa = invalidLpa then some (some .enospc,{ s with fs := m })
    else some (none,{ s with
      nodeCache := s.nodeCache.modify p
        (fun e => { e with cowNewLpa := newLpa,hasPendingCowRelocation := true })
      fs := m
      dev := s.dev.write newLpa e.node })

def writebackList : List Nat → FileSystemManager β → Option (Option Errno × FileSystemManager β)
  | [],s => some (none,s)
  | p :: ps,s =>
    match s.nodeCache.entry p with
    | none => writebackList ps s
    | some e =>
      if e.state ≠ .dirty then writebackList ps s
      else
        match writebackEntry s p e with
        | none => none
        | some (some err,s) => some (some err,s)
        | some (none,s) => writebackList ps s

def nodeBlockCacheWritebackDirtyContentCow (s : FileSystemManager β) :
    Option (Option Errno × FileSystemManager β) := writebackList s.nodeCache.dirtyList s

def NodeBlockCacheEntry.pending (e : NodeBlockCacheEntry β) : Bool :=
  e.hasPendingCowRelocation && e.cowNewLpa != invalidLpa

structure NodeBlockCacheCowRelocation where
  nid : UInt32
  oldLpa : UInt32
  newLpa : UInt32

-- order is the order of the index's buckets
def nodeBlockCacheCollectPendingCowRelocations (s : FileSystemManager β) (order : List UInt32) :
    List NodeBlockCacheCowRelocation :=
  order.filterMap (fun nid => (s.nodeCache.lookup nid).bind (fun p => (s.nodeCache.entry p).bind (fun e =>
    if e.pending then some ⟨e.nid,e.lpa,e.cowNewLpa⟩ else none)))

def applied (e : NodeBlockCacheEntry β) : NodeBlockCacheEntry β := { e with
  lpa := e.cowNewLpa
  cowNewLpa := invalidLpa
  hasPendingCowRelocation := false
  state := if e.state = .dirty then .uptodate else e.state }

def applyEntry (s : FileSystemManager β) (p : Nat) (e : NodeBlockCacheEntry β) :
    Option (FileSystemManager β) :=
  (natSetLpaOfNid s.fs e.nid e.cowNewLpa).map (fun m => { s with
    nodeCache := { s.nodeCache.modify p applied with
      dirtyList := if e.state = .dirty then s.nodeCache.dirtyList.erase p else s.nodeCache.dirtyList }
    fs := m
    srmap := s.srmap.writeSrmapOfNode e.cowNewLpa e.nid })

def applyBucket (s : FileSystemManager β) (nid : UInt32) : Option (FileSystemManager β) :=
  match (s.nodeCache.lookup nid).bind (fun p => (s.nodeCache.entry p).map (fun e => (p,e))) with
  | none => some s
  | some (p,e) => if e.pending then applyEntry s p e else some s

def nodeBlockCacheApplyPendingCowRelocations (s : FileSystemManager β) (order : List UInt32) :
    Option (FileSystemManager β) :=
  (order.foldlM applyBucket s).map (fun s => { s with srmap := s.srmap.writeDirtySrmapSync })

end Writeback

section Helper
variable {β : Type} [NodeBlock β] (s : FileSystemManager β)

def checkFooter (nid parentNid : UInt32) (r : Nat × FileSystemManager β) :
    Option (Except Errno (Nat × FileSystemManager β)) :=
  match r.2.nodeCache.entry r.1 with
  | none => none
  | some e =>
    let footer := NodeBlock.footer e.node
    if footer.nid = nid ∧ (parentNid = invalidNid → footer.ino = nid) then some (.ok r) else none

def nodeBlockCacheHelperGetNodeEntry (nid parentNid : UInt32) :
    Option (Except Errno (Nat × FileSystemManager β)) :=
  match nodeBlockCacheGet s nid with
  | (some p,s') => checkFooter nid parentNid (p,s')
  | (none,_) =>
    match natGetLpaOfNid s.fs nid with
    | none => none
    | some lpa =>
      match s.dev.read lpa with
      | none => some (.error .einval)
      | some b => (nodeBlockCacheAdd s b nid parentNid lpa).bind (checkFooter nid parentNid)

-- the new buffer is not cleared, raw is what its memory held
def createEntry (raw : β) (nid ino noffset parentNid : UInt32) : Option (Nat × FileSystemManager β) :=
  (nodeBlockCacheAdd s raw nid parentNid invalidLpa).bind (fun r =>
    (nodeBlockCacheEntryHandleMarkDirty
      (writeNode r.2 r.1 (NodeBlock.setFooter raw ⟨nid,ino,noffset⟩)) r.1).map (fun s => (r.1,s)))

def FileSystemManager.nodeBlockCacheHelperCreateNodeEntry (raw : β) (ino noffset parentNid : UInt32) :
    Option (Option Nat × FileSystemManager β) :=
  match superManagerAllocNid s.fs ino false with
  | none => none
  | some (newNid,m) =>
    if newNid = invalidNid then some (none,{ s with fs := m })
    else (createEntry { s with fs := m } raw newNid ino noffset parentNid).map (fun r => (some r.1,r.2))

def nodeBlockCacheHelperCreateInodeEntry (raw : β) : Option (Option Nat × FileSystemManager β) :=
  match superManagerAllocNid s.fs invalidNid true with
  | none => none
  | some (newNid,m) =>
    if newNid = invalidNid then some (none,{ s with fs := m })
    else (createEntry { s with fs := m } raw newNid newNid 0 invalidNid).map (fun r => (some r.1,r.2))

end Helper

end Rtfs
