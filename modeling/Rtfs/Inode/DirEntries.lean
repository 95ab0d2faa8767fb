import Rtfs.Inode.DentryArea

namespace Rtfs

namespace DirEntries

open DentryArea

structure RtfsLoadedDirBlock where
  blockIndex : UInt32
  lpa : UInt32
  cowNewLpa : UInt32
  hasPendingCowRelocation : Bool
  block : RtfsDentryBlock
  isDirty : Bool

inductive RtfsDirBackingKind
  | empty
  | inline
  | blocks
  deriving DecidableEq

-- cached: disk_inode and cache_handle are set; isInline is RTFS_INLINE_DENTRY of its i_inline
structure RtfsDirInode where
  iDentryNum : UInt32
  loadedBlockCount : Nat
  totalBlockCount : Nat
  isFullyLoaded : Bool
  backingKind : RtfsDirBackingKind
  cached : Bool
  isInline : Bool
  inlineDentry : Option RtfsInlineDentry
  loadedBlocks : List RtfsLoadedDirBlock
  capacity : Nat
  entries : List RtfsMemDirEntry
  isDirty : Bool

-- newLpa is the LPA of the grown block once it is mapped, none when that failed
structure GrowAnswer where
  newLpa : Option UInt32
  remembered : Bool

-- what the calls outside of the directory object answer in one AddEntry
structure AddAnswers where
  convertAlloc : Bool
  growths : List GrowAnswer
  entriesRealloc : Bool

section Entries
variable (d : RtfsDirInode)

def rtfsDirInodeFindEntry (name : List UInt8) : Option RtfsMemDirEntry :=
  d.entries.find? (fun e => decide (e.name = name))

def BadLength (name : List UInt8) : Prop := name.length = 0 ∨ rtfsNameLen < name.length

instance (name : List UInt8) : Decidable (BadLength name) :=
  inferInstanceAs (Decidable (name.length = 0 ∨ rtfsNameLen < name.length))

def rtfsDirInodeAddEntryInternal (name : List UInt8) (childIno : UInt64) (childType : UInt8)
    (entriesRealloc : Bool) : Except Errno RtfsDirInode :=
  if BadLength name then .error .enametoolong
  else if (rtfsDirInodeFindEntry d name).isSome then .error .eexist
  else if d.entries.length = d.capacity ∧ entriesRealloc = false then .error .enomem
  else .ok { d with
    capacity := if d.entries.length ≠ d.capacity then d.capacity
      else if d.capacity = 0 then 4 else d.capacity * 2
    entries := d.entries ++ [⟨childIno,childType,name,false,0,0⟩]
    iDentryNum := d.iDentryNum + 1
    isDirty := true }

def setLastSource (isInline : Bool) (blockIndex : UInt32) (slotIndex : Nat) : RtfsDirInode :=
  { d with entries := d.entries.modify (d.entries.length - 1) (fun e =>
    { e with sourceIsInline := isInline,sourceBlockIndex := blockIndex,sourceSlotIndex := slotIndex }) }

def rtfsDirInodeTouchMetadata : RtfsDirInode := { d with isDirty := true }

def findLoadedIndex (blockIndex : UInt32) : Option Nat :=
  d.loadedBlocks.findIdx? (fun b => decide (b.blockIndex = blockIndex))

def rtfsDirInodeRememberLoadedBlock (block : RtfsDentryBlock) (blockIndex lpa : UInt32) (malloc : Bool) :
    Except Errno RtfsDirInode :=
  if (findLoadedIndex d blockIndex).isSome then .ok d
  else if malloc = false then .error .enomem
  else .ok { d with loadedBlocks := d.loadedBlocks ++ [⟨blockIndex,lpa,invalidLpa,false,block,false⟩] }

end Entries

section Parse

variable {n : Nat}

-- skipDots is set for the regular blocks
def buildEntryAt (skipDots isInline : Bool) (blockIndex : UInt32) (realloc : Bool) (area : DentryArea n)
    (d : RtfsDirInode) (index : Nat) : Except Errno RtfsDirInode :=
  let diskEntry := area.dentry index
  let nameLen := diskEntry.nameLen.toNat
  if nameLen = 0 ∨ rtfsNameLen < nameLen then .error .einval
  else if n < index + getDentrySlots nameLen then .error .einval
  else
    let name := area.nameAt index nameLen
    if skipDots = true ∧ (name = [46] ∨ name = [46,46]) then .ok d
    else (rtfsDirInodeAddEntryInternal d (name.takeWhile (· ≠ 0)) diskEntry.ino.toUInt64 diskEntry.fileType
      realloc).map (fun d => setLastSource d isInline blockIndex index)

def rtfsDirInodeBuildInlineEntryAt (realloc : Bool) (inlineDentry : RtfsInlineDentry) :
    RtfsDirInode → Nat → Except Errno RtfsDirInode := buildEntryAt false true 0 realloc inlineDentry

def rtfsDirInodeBuildRegularEntryAt (realloc : Bool) (dentryBlock : RtfsDentryBlock) (blockIndex : UInt32) :
    RtfsDirInode → Nat → Except Errno RtfsDirInode := buildEntryAt true false blockIndex realloc dentryBlock

def rtfsDirInodeBuildInlineEntries (d : RtfsDirInode) (inlineDentry : RtfsInlineDentry) (realloc : Bool) :
    Except Errno RtfsDirInode :=
  (SlotRuns.walk inlineDentry.isSet inlineDentry.slotsAt 194 (rtfsDirInodeBuildInlineEntryAt realloc inlineDentry)
    0 { d with iDentryNum := 0 }).map (fun d' => { d' with
      iDentryNum := d.iDentryNum
      loadedBlockCount := d'.totalBlockCount
      isFullyLoaded := true })

def rtfsDirInodeAppendRegularEntries (d : RtfsDirInode) (dentryBlock : RtfsDentryBlock)
    (blockIndex lpa : UInt32) (malloc realloc : Bool) : Except Errno RtfsDirInode :=
  let d := if d.backingKind = .empty then { d with backingKind := .blocks } else d
  (rtfsDirInodeRememberLoadedBlock d dentryBlock blockIndex lpa malloc).bind (fun d =>
    (SlotRuns.walk dentryBlock.isSet dentryBlock.slotsAt 214
      (rtfsDirInodeBuildRegularEntryAt realloc dentryBlock blockIndex) 0 { d with iDentryNum := 0 }).map
        (fun d' => { d' with iDentryNum := d.iDentryNum,isDirty := d.isDirty }))

end Parse

section Remove
variable (d : RtfsDirInode)

def rtfsDirInodeClearInlineEntryBacking (entry : RtfsMemDirEntry) : RtfsDirInode :=
  { d with inlineDentry := d.inlineDentry.map (fun a => a.clearRun entry.sourceSlotIndex entry.slots) }

def rtfsDirInodeClearRegularEntryBacking (entry : RtfsMemDirEntry) : RtfsDirInode :=
  match findLoadedIndex d entry.sourceBlockIndex with
  | none => d
  | some k => { d with loadedBlocks := d.loadedBlocks.modify k (fun b =>
      { b with block := b.block.clearRun entry.sourceSlotIndex entry.slots,isDirty := true }) }

-- the last entry moves into the place of entry i
def removeAt (entries : List RtfsMemDirEntry) (i : Nat) : List RtfsMemDirEntry :=
  match entries.getLast? with
  | none => entries
  | some last => (entries.set i last).dropLast

def rtfsDirInodeRemoveEntryInternal (name : List UInt8) : Except Errno Unit × RtfsDirInode :=
  if BadLength name then (.error .enametoolong,d)
  else
    match d.entries.findIdx? (fun e => decide (e.name = name)) with
    | none => (.error .enoent,d)
    | some i =>
      match d.entries[i]? with
      | none => (.error .enoent,d)
      | some removed =>
        let d := if removed.sourceIsInline then rtfsDirInodeClearInlineEntryBacking d removed
          else rtfsDirInodeClearRegularEntryBacking d removed
        (.ok (),rtfsDirInodeTouchMetadata { d with
          entries := removeAt d.entries i
          iDentryNum := if 0 < d.iDentryNum then d.iDentryNum - 1 else d.iDentryNum })

end Remove

section Grow
variable (d : RtfsDirInode)

def detachBlock : RtfsDirInode := { d with
  totalBlockCount := d.totalBlockCount - 1
  isFullyLoaded := decide (d.totalBlockCount - 1 ≤ d.loadedBlockCount) }

-- rtfsDirInodeGrowRegularBlock up to the use of the new block
def attachBlock (answer : GrowAnswer) : Except Errno Unit × RtfsDirInode :=
  if d.cached = false then (.error .enospc,d)
  else
    match answer.newLpa with
    | none => (.error .enospc,d)
    | some newLpa =>
      let grown := { d with totalBlockCount := d.totalBlockCount + 1,isFullyLoaded := false }
      match rtfsDirInodeRememberLoadedBlock grown DentryArea.zero (UInt32.ofNat d.totalBlockCount) newLpa
          answer.remembered with
      | .error e => (.error e,detachBlock grown)
      | .ok d => (.ok (),d)

def findRoom (slotCount : Nat) : Option (Nat × Nat) :=
  d.loadedBlocks.zipIdx.findSome? (fun b =>
    (SlotRuns.firstFit b.1.block.isSet 214 slotCount 0).map (fun start => (b.2,start)))

def setBlock (k : Nat) (f : RtfsDentryBlock → RtfsDentryBlock) : RtfsDirInode :=
  { d with loadedBlocks := d.loadedBlocks.modify k (fun b => { b with block := f b.block }) }

def placeRegular (k start : Nat) (name : List UInt8) (childIno : UInt64) (childType : UInt8)
    (entriesRealloc : Bool) : Except Errno Unit × RtfsDirInode :=
  let placed := setBlock d k (fun a => a.put start name childIno childType)
  match rtfsDirInodeAddEntryInternal placed name childIno childType entriesRealloc with
  | .error e => (.error e,setBlock placed k (fun a => a.clearRun start (getDentrySlots name.length)))
  | .ok added =>
    let blockIndex := (added.loadedBlocks[k]?.map RtfsLoadedDirBlock.blockIndex).getD 0
    let sourced := setLastSource added false blockIndex start
    (.ok (),rtfsDirInodeTouchMetadata { sourced with
      loadedBlocks := sourced.loadedBlocks.modify k (fun b => { b with isDirty := true }) })

-- rtfsDirInodeAddRegularBacking without a growth, none when no loaded block has room
def addInLoaded (name : List UInt8) (childIno : UInt64) (childType : UInt8) (entriesRealloc : Bool) :
    Option (Except Errno Unit × RtfsDirInode) :=
  if BadLength name then some (.error .enametoolong,d)
  else if (rtfsDirInodeFindEntry d name).isSome then some (.error .eexist,d)
  else (findRoom d (getDentrySlots name.length)).map (fun room =>
    placeRegular d room.1 room.2 name childIno childType entriesRealloc)

-- with rtfsDirInodeGrowRegularBlock, which calls it again on the grown object;
-- without an answer left the allocator has no LPA
def rtfsDirInodeAddRegularBacking (d : RtfsDirInode) (name : List UInt8) (childIno : UInt64)
    (childType : UInt8) (entriesRealloc : Bool) : List GrowAnswer → Except Errno Unit × RtfsDirInode
  | [] => (addInLoaded d name childIno childType entriesRealloc).getD (.error .enospc,d)
  | answer :: growths =>
    match addInLoaded d name childIno childType entriesRealloc with
    | some r => r
    | none =>
      match attachBlock d answer with
      | (.error e,d) => (.error e,d)
      | (.ok (),d) =>
        match rtfsDirInodeAddRegularBacking d name childIno childType entriesRealloc growths with
        | (.error e,d) => (.error e,detachBlock d)
        | (.ok (),d) => (.ok (),d)

end Grow

section Convert

-- the block built so far, the new slot of each inline slot and the next free slot
structure Conversion where
  block : RtfsDentryBlock
  slotMap : Nat → Option Nat
  regularSlot : Nat

def copyRun (area : RtfsInlineDentry) (c : Conversion) (i : Nat) : Except Errno Conversion :=
  let nameLen := (area.dentry i).nameLen.toNat
  let slotCount := getDentrySlots nameLen
  if nameLen = 0 ∨ rtfsNameLen < nameLen then .error .einval
  else if 194 < i + slotCount ∨ 214 < c.regularSlot + slotCount then .error .enospc
  else .ok
    { block :=
        { dentryBitmap := setBits c.block.dentryBitmap c.regularSlot slotCount
          dentry := Function.update c.block.dentry c.regularSlot (area.dentry i)
          filename := setNames c.block.filename c.regularSlot slotCount (fun slot => area.filename (i + slot)) }
      slotMap := Function.update c.slotMap i (some c.regularSlot)
      regularSlot := c.regularSlot + slotCount }

def moveEntry (slotMap : Nat → Option Nat) (blockIndex : UInt32) (e : RtfsMemDirEntry) : RtfsMemDirEntry :=
  if e.sourceIsInline = false ∨ 194 ≤ e.sourceSlotIndex then e
  else
    match slotMap e.sourceSlotIndex with
    | none => e
    | some slot => { e with sourceIsInline := false,sourceBlockIndex := blockIndex,sourceSlotIndex := slot }

-- the block that was loaded last takes the converted content
def installBlock (d : RtfsDirInode) (c : Conversion) : RtfsDirInode :=
  let k := d.loadedBlocks.length - 1
  let blockIndex := (d.loadedBlocks[k]?.map RtfsLoadedDirBlock.blockIndex).getD 0
  { d with
    loadedBlocks := d.loadedBlocks.modify k (fun b => { b with block := c.block,isDirty := true })
    backingKind := .blocks
    inlineDentry := none
    loadedBlockCount := d.totalBlockCount
    isFullyLoaded := true
    entries := d.entries.map (moveEntry c.slotMap blockIndex) }

-- inlineDentry lies in i_addr, which is cleared before and restored after a failed growth
def rtfsDirInodeConvertInlineToRegular (d : RtfsDirInode) (alloc : Bool) (answer : GrowAnswer) :
    Except Errno Unit × RtfsDirInode :=
  match d.inlineDentry with
  | none => (.error .einval,d)
  | some area =>
    if d.backingKind ≠ .inline ∨ d.cached = false then (.error .einval,d)
    else if alloc = false then (.error .enomem,d)
    else
      match SlotRuns.walk area.isSet area.slotsAt 194 (copyRun area) 0 ⟨DentryArea.zero,fun _ => none,0⟩ with
      | .error e => (.error e,d)
      | .ok c =>
        match attachBlock { d with
            isInline := false
            inlineDentry := some DentryArea.zero
            totalBlockCount := 0
            loadedBlockCount := 0
            isFullyLoaded := true } answer with
        | (.error e,failed) => (.error e,{ failed with
            isInline := d.isInline
            inlineDentry := some area
            totalBlockCount := d.totalBlockCount
            loadedBlockCount := d.loadedBlockCount
            isFullyLoaded := d.isFullyLoaded })
        | (.ok (),grown) => (.ok (),installBlock grown c)

end Convert

section Add
variable (d : RtfsDirInode)

def GrowAnswer.fails : GrowAnswer := ⟨none,false⟩

def rtfsDirInodeAddInlineBacking (name : List UInt8) (childIno : UInt64) (childType : UInt8)
    (answers : AddAnswers) : Except Errno Unit × RtfsDirInode :=
  match d.inlineDentry with
  | none => (.error .einval,d)
  | some area =>
    if d.cached = false then (.error .einval,d)
    else if BadLength name then (.error .enametoolong,d)
    else if (rtfsDirInodeFindEntry d name).isSome then (.error .eexist,d)
    else
      match SlotRuns.firstFit area.isSet 194 (getDentrySlots name.length) 0 with
      | none =>
        match rtfsDirInodeConvertInlineToRegular d answers.convertAlloc (answers.growths.headD .fails) with
        | (.error e,d) => (.error e,d)
        | (.ok (),d) => rtfsDirInodeAddRegularBacking d name childIno childType answers.entriesRealloc
            answers.growths.tail
      | some start =>
        let placed := area.put start name childIno childType
        match rtfsDirInodeAddEntryInternal { d with inlineDentry := some placed } name childIno childType
            answers.entriesRealloc with
        | .error e =>
          (.error e,{ d with inlineDentry := some (placed.clearRun start (getDentrySlots name.length)) })
        | .ok added => (.ok (),rtfsDirInodeTouchMetadata (setLastSource added true 0 start))

def rtfsDirInodeAddEntry (name : List UInt8) (childIno : UInt64) (childType : UInt8) (answers : AddAnswers) :
    Except Errno Unit × RtfsDirInode :=
  match d.backingKind with
  | .inline => rtfsDirInodeAddInlineBacking d name childIno childType answers
  | .blocks => rtfsDirInodeAddRegularBacking d name childIno childType answers.entriesRealloc answers.growths
  | .empty =>
    if d.cached = true ∧ d.isInline = false then
      rtfsDirInodeAddRegularBacking d name childIno childType answers.entriesRealloc answers.growths
    else
      match rtfsDirInodeAddEntryInternal d name childIno childType answers.entriesRealloc with
      | .error e => (.error e,d)
      | .ok d => (.ok (),rtfsDirInodeTouchMetadata d)

def rtfsDirInodeRemoveEntry (name : List UInt8) : Except Errno Unit × RtfsDirInode :=
  rtfsDirInodeRemoveEntryInternal d name

end Add

end DirEntries

end Rtfs
