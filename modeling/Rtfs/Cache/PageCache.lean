import Rtfs.Cache.GenericCacheManager
import Rtfs.Inode.WriteBack
import Rtfs.Klib.KbtreeIter
import Rtfs.Klib.KbtreeDel

namespace Rtfs

namespace PageCacheRun

-- assertion: one of the page cache fails; access: outside an entry or a tree node;
-- running: a loop does not end
inductive Halt
  | assertion
  | access
  | running

-- atomic_uint_fast32_t has 32 bits or more; the degree is what kb_init makes of sizeof(DirtyPagesNode)
structure Abi where
  refCountBits : Nat
  wide : 32 ≤ refCountBits
  degree : Nat
  two_le : 2 ≤ degree

def Abi.wrap (abi : Abi) : Nat := 2 ^ abi.refCountBits

structure PageEntry (β : Type) where
  blkoff : UInt32
  lpa : UInt32
  contentState : PageState
  page : β
  refCount : Nat
  isDirty : Bool

-- the handle of a node is the number of its entry
structure DirtyPagesNode where
  blkoff : UInt32
  entry : Nat
  deriving DecidableEq

def DirtyPagesNode.rank (n : DirtyPagesNode) : Nat := n.blkoff.toNat

-- entries are the allocated entries, the index and the dirty pages hold their numbers
structure PageCache (β : Type) where
  cacheManager : GenericCacheManager Nat
  entries : List (PageEntry β)
  dirtyPages : Kbtree.Tree DirtyPagesNode
  expectSize : Nat
  curSize : Nat

variable {β : Type}

def pageEntryInit (page : β) (blkoff : UInt32) : PageEntry β := ⟨blkoff,invalidLpa,.pageInvalid,page,0,false⟩

def pageCacheInit (expectSize : Nat) : PageCache β := ⟨GenericCacheManager.init,[],Kbtree.kbInit,expectSize,0⟩

namespace PageCache
variable (c : PageCache β)

def lookup (blkoff : UInt32) : Option Nat := c.cacheManager.index blkoff

def entry (p : Nat) : Option (PageEntry β) := c.entries[p]?

def keys : List UInt32 := c.cacheManager.replacer.keys

def modify (p : Nat) (f : PageEntry β → PageEntry β) : PageCache β := { c with entries := c.entries.modify p f }

def pin (blkoff : UInt32) : PageCache β := { c with cacheManager := c.cacheManager.pin blkoff }

def unpin (blkoff : UInt32) : PageCache β := { c with cacheManager := c.cacheManager.unpin blkoff }

def find (p : Nat) : Except Halt (PageEntry β) :=
  match c.entry p with
  | none => .error .access
  | some e => .ok e

end PageCache

variable (abi : Abi) (c : PageCache β)

section Counting

def pageCacheAddRefCount (p : Nat) : Except Halt (PageCache β) :=
  (c.find p).bind (fun e =>
    let c' := c.modify p (fun e => { e with refCount := (e.refCount + 1) % abi.wrap })
    if e.refCount = 0 then
      if e.isDirty then .error .assertion else .ok (c'.pin e.blkoff)
    else .ok c')

def pageCacheSubRefCount (p : Nat) : Except Halt (PageCache β) :=
  (c.find p).bind (fun e =>
    let c' := c.modify p (fun e => { e with refCount := (e.refCount + (abi.wrap - 1)) % abi.wrap })
    if e.refCount = 1 then
      if e.isDirty then .error .assertion else .ok (c'.unpin e.blkoff)
    else .ok c')

end Counting

section Replace

-- a victim has no reference and is clean
def takeVictim (p : Nat) (m : GenericCacheManager Nat) : Except Halt (PageCache β) :=
  (c.find p).bind (fun e =>
    if e.refCount ≠ 0 ∨ e.isDirty = true then .error .assertion else .ok { c with cacheManager := m })

def replaceWhile : Nat → PageCache β → Except Halt (PageCache β)
  | 0,_ => .error .running
  | n + 1,c =>
    match c.cacheManager.replaceOne with
    | none => .ok c
    | some (_,p,m) => (takeVictim c p m).bind (fun c =>
        let c := { c with curSize := c.curSize - 1 }
        if c.curSize ≤ c.expectSize then .ok c else replaceWhile n c)

def pageCacheDoReplace : Except Halt (PageCache β) :=
  if c.curSize ≤ c.expectSize then .ok c else replaceWhile (c.keys.length + 1) c

def addToManager (blkoff : UInt32) (p : Nat) : Except Halt (PageCache β) :=
  if h : c.cacheManager.index blkoff = none then .ok { c with cacheManager := c.cacheManager.add blkoff p h }
  else .error .assertion

-- the victim's entry is moved to the new index
def pageCacheReuse (blkoff : UInt32) (p : Nat) (m : GenericCacheManager Nat) : Except Halt (PageCache β) :=
  (takeVictim c p m).bind (fun c =>
    (addToManager (c.modify p (fun e => { e with blkoff := blkoff, lpa := invalidLpa, contentState := .pageInvalid }))
      blkoff p).bind (fun c => (pageCacheAddRefCount abi c p).bind pageCacheDoReplace))

def pageCacheNew (blkoff : UInt32) (page : β) : Except Halt (PageCache β) :=
  (addToManager { c with entries := c.entries ++ [pageEntryInit page blkoff] } blkoff c.entries.length).bind (fun c' =>
    (pageCacheAddRefCount abi c' c.entries.length).map (fun c => { c with curSize := c.curSize + 1 }))

-- the entry handed out; page is what the buffer of a new entry holds
def pageCacheGet (blkoff : UInt32) (page : β) : Except Halt (Nat × PageCache β) :=
  match c.lookup blkoff with
  | some p => (pageCacheAddRefCount abi { c with cacheManager := c.cacheManager.access blkoff } p).map (fun c => (p,c))
  | none =>
    match if c.curSize < c.expectSize then none else c.cacheManager.replaceOne with
    | some (_,p,m) => (pageCacheReuse abi c blkoff p m).map (fun c => (p,c))
    | none => (pageCacheNew abi c blkoff page).map (fun c' => (c.entries.length,c'))

end Replace

section Dirty

def pageCacheAddToDirtyPages (p : Nat) : Except Halt (PageCache β) :=
  (c.find p).bind (fun e =>
    if e.refCount = 0 then .error .assertion
    else (pageCacheAddRefCount abi c p).map (fun c =>
      { c with dirtyPages := Kbtree.kbPutp DirtyPagesNode.rank abi.degree c.dirtyPages ⟨e.blkoff,p⟩ }))

def pageEntryHandleMakeDirty (p : Nat) : Except Halt (PageCache β) :=
  (c.find p).bind (fun e =>
    if e.isDirty then .ok c
    else pageCacheAddToDirtyPages abi (c.modify p (fun e => { e with isDirty := true })) p)

def upperNode (blkoff : UInt32) : Option DirtyPagesNode :=
  (Kbtree.kbIntervalp DirtyPagesNode.rank c.dirtyPages blkoff.toNat).2

-- one page behind the new end
def truncateNode (node : DirtyPagesNode) : Except Halt (PageCache β) :=
  match Kbtree.kbDelp DirtyPagesNode.rank abi.degree c.dirtyPages node with
  | none => .error .access
  | some t => pageCacheSubRefCount abi { c.modify node.entry (fun e =>
      { e with isDirty := false, contentState := .pageInvalid }) with dirtyPages := t } node.entry

def truncateLoop : Nat → PageCache β → Option DirtyPagesNode → Except Halt (PageCache β)
  | _,c,none => .ok c
  | 0,_,some _ => .error .running
  | n + 1,c,some node => (truncateNode abi c node).bind (fun c => truncateLoop n c (upperNode c node.blkoff))

def pageCacheTruncate (maxBlkoff : UInt32) : Except Halt (PageCache β) :=
  match upperNode c maxBlkoff with
  | none => .ok c
  | some upper => truncateLoop abi (Kbtree.kbSize c.dirtyPages + 1) c
      (if upper.blkoff ≤ maxBlkoff then upperNode c (1 + maxBlkoff) else some upper)

def clearNode (node : DirtyPagesNode) : Except Halt (PageCache β) :=
  pageCacheSubRefCount abi (c.modify node.entry (fun e => { e with isDirty := false })) node.entry

def clearNodes : List DirtyPagesNode → PageCache β → Except Halt (PageCache β)
  | [],c => .ok c
  | node :: rest,c => (clearNode abi c node).bind (clearNodes rest)

def pageCacheClearDirtyPages : Except Halt (PageCache β) :=
  (clearNodes abi (Kbtree.kbItrTake (Kbtree.kbSize c.dirtyPages) (Kbtree.kbItrFirst c.dirtyPages)) c).map
    (fun c => { c with dirtyPages := Kbtree.kbInit })

-- a cached page that lies behind the new end becomes invalid, a clean one too
def invalidateEntry (firstInvalidBlock : Nat) (c : PageCache β) (blkoff : UInt32) : PageCache β :=
  match c.lookup blkoff with
  | none => c
  | some p =>
    match c.entry p with
    | none => c
    | some e =>
      if e.blkoff.toNat < firstInvalidBlock then c
      else c.modify p (fun e => { e with lpa := invalidLpa, contentState := .pageInvalid, isDirty := false })

def invalidateFrom (firstInvalidBlock : Nat) : PageCache β :=
  if 4294967295 < firstInvalidBlock then c else c.keys.foldl (invalidateEntry firstInvalidBlock) c

def rtfsFileInodeInvalidateCachedPagesFrom (targetSize : UInt64) : Except Halt (PageCache β) :=
  if targetSize = 0 then (pageCacheClearDirtyPages abi c).map (fun c => invalidateFrom c 0)
  else
    let block := targetSize.toNat / 4096
    if targetSize.toNat % 4096 = 0 then
      (if block = 0 then pageCacheClearDirtyPages abi c
        else if block - 1 ≤ 4294967295 then pageCacheTruncate abi c (UInt32.ofNat (block - 1))
        else .ok c).map (fun c => invalidateFrom c block)
    else
      (if block ≤ 4294967295 then pageCacheTruncate abi c (UInt32.ofNat block)
        else .ok c).map (fun c => invalidateFrom c (block + 1))

end Dirty

section Ops

-- the live handles of each entry
structure Run (β : Type) where
  cache : PageCache β
  handles : Nat → Nat

inductive PageOp (β : Type)
  | get (blkoff : UInt32) (page : β)
  | copy (p : Nat)
  | destroy (p : Nat)
  | load (p : Nat) (lpa : UInt32) (page : β)
  | makeDirty (p : Nat)
  | truncate (maxBlkoff : UInt32)
  | clearDirtyPages
  | invalidateFrom (targetSize : UInt64)

def more (handles : Nat → Nat) (p : Nat) : Nat → Nat := Function.update handles p (handles p + 1)

def fewer (handles : Nat → Nat) (p : Nat) : Nat → Nat := Function.update handles p (handles p - 1)

-- load: what the file inode does to a page it holds before it is used
def perform (s : Run β) : PageOp β → Except Halt (Run β)
  | .get blkoff page => (pageCacheGet abi s.cache blkoff page).map (fun r => ⟨r.2,more s.handles r.1⟩)
  | .copy p => (pageCacheAddRefCount abi s.cache p).map (fun c => ⟨c,more s.handles p⟩)
  | .destroy p => (pageCacheSubRefCount abi s.cache p).map (fun c => ⟨c,fewer s.handles p⟩)
  | .load p lpa page =>
    .ok ⟨s.cache.modify p (fun e => { e with lpa := lpa, contentState := .pageReady, page := page }),s.handles⟩
  | .makeDirty p => (pageEntryHandleMakeDirty abi s.cache p).map (fun c => ⟨c,s.handles⟩)
  | .truncate maxBlkoff => (pageCacheTruncate abi s.cache maxBlkoff).map (fun c => ⟨c,s.handles⟩)
  | .clearDirtyPages => (pageCacheClearDirtyPages abi s.cache).map (fun c => ⟨c,s.handles⟩)
  | .invalidateFrom targetSize =>
    (rtfsFileInodeInvalidateCachedPagesFrom abi s.cache targetSize).map (fun c => ⟨c,s.handles⟩)

end Ops

end PageCacheRun

end Rtfs
