import Rtfs.Inode.FileIndex
import Rtfs.Inode.WriteBack
import Rtfs.Lib.GrowArray

namespace Rtfs

inductive FileError
  | errno (e : Errno)
  | efbig
  deriving DecidableEq

abbrev PageCache := UInt32 → Option PageEntry

structure RtfsFileInode where
  ino : UInt32
  iSize : UInt64
  nodes : NodeStore
  pageCache : PageCache
  pendingTruncateOldLpas : GrowArray UInt32
  isDirty : Bool

-- what the device holds at an address, and whether realloc finds room for so many items
structure FileEnv where
  readLpa : UInt32 → Except Errno Block
  realloc : Nat → Bool

def pageEntryInit : PageEntry := ⟨invalidLpa,.pageInvalid,Buf.zero,false⟩

def pageCacheGet (c : PageCache) (blkoff : UInt32) : PageEntry := (c blkoff).getD pageEntryInit

def PageCache.put (c : PageCache) (blkoff : UInt32) (e : PageEntry) : PageCache :=
  Function.update c blkoff (some e)

def RtfsFileInode.setPage (f : RtfsFileInode) (blockIndex : UInt32) (e : PageEntry) : RtfsFileInode :=
  { f with pageCache := f.pageCache.put blockIndex e }

-- an entry stays in the cache, still invalid, when its content cannot be had
def rtfsFileInodePreparePageForRead (env : FileEnv) (f : RtfsFileInode) (blockIndex : UInt32) :
    Except Errno PageEntry × RtfsFileInode :=
  let pageEntry := pageCacheGet f.pageCache blockIndex
  if pageEntry.contentState = .pageReady then (.ok pageEntry,f.setPage blockIndex pageEntry)
  else
    match rtfsFileResolveDataLpaByBlockIndex f.nodes f.ino blockIndex with
    | .error e => (.error e,f.setPage blockIndex pageEntry)
    | .ok lpa =>
      match if lpa = invalidLpa then .ok Buf.zero else env.readLpa lpa with
      | .error e => (.error e,f.setPage blockIndex pageEntry)
      | .ok page =>
        let ready := { pageEntry with lpa := lpa, contentState := .pageReady, page := page }
        (.ok ready,f.setPage blockIndex ready)

def readChunks (env : FileEnv) (f : RtfsFileInode) (curOffset readable : Nat) :
    (List UInt8 × Option FileError) × RtfsFileInode :=
  if readable = 0 then (([],none),f)
  else
    let blockIndex64 := curOffset / 4096
    if 4294967295 < blockIndex64 then (([],some .efbig),f)
    else
      match rtfsFileInodePreparePageForRead env f (UInt32.ofNat blockIndex64) with
      | (.error e,f) => (([],some (.errno e)),f)
      | (.ok pageEntry,f) =>
        let blockOffset := curOffset % 4096
        let chunk := min (4096 - blockOffset) readable
        let r := readChunks env f (curOffset + chunk) (readable - chunk)
        ((pageEntry.page.read blockOffset chunk ++ r.1.1,r.1.2),r.2)
termination_by readable
decreasing_by
  have := Nat.mod_lt curOffset (show 0 < 4096 by decide)
  omega

-- an error after some bytes were copied only cuts the read short
def rtfsFileInodeRead (env : FileEnv) (f : RtfsFileInode) (offset count : Nat) :
    Except FileError (List UInt8) × RtfsFileInode :=
  if count = 0 then (.ok [],f)
  else if f.iSize.toNat ≤ offset then (.ok [],f)
  else
    match readChunks env f offset (min (f.iSize.toNat - offset) count) with
    | (([],some e),f) => (.error e,f)
    | ((bytes,_),f) => (.ok bytes,f)

def pageContent (env : FileEnv) (f : RtfsFileInode) (blockIndex : UInt32) : Except Errno Block :=
  let pageEntry := pageCacheGet f.pageCache blockIndex
  if pageEntry.contentState = .pageReady then .ok pageEntry.page
  else
    (rtfsFileResolveDataLpaByBlockIndex f.nodes f.ino blockIndex).bind
      (fun lpa => if lpa = invalidLpa then .ok Buf.zero else env.readLpa lpa)

def byteAt (env : FileEnv) (f : RtfsFileInode) (offset : Nat) : Except FileError UInt8 :=
  if 4294967295 < offset / 4096 then .error .efbig
  else
    match pageContent env f (UInt32.ofNat (offset / 4096)) with
    | .error e => .error (.errno e)
    | .ok page => .ok (page.get (offset % 4096))

structure OnlyPages (f f' : RtfsFileInode) : Prop where
  ino : f'.ino = f.ino
  iSize : f'.iSize = f.iSize
  nodes : f'.nodes = f.nodes
  pending : f'.pendingTruncateOldLpas = f.pendingTruncateOldLpas

section Prepare
variable {env : FileEnv} {f f' : RtfsFileInode} {b : UInt32}

theorem OnlyPages.refl : OnlyPages f f := ⟨rfl,rfl,rfl,rfl⟩

theorem OnlyPages.trans {f'' : RtfsFileInode} (h : OnlyPages f f') (h' : OnlyPages f' f'') : OnlyPages f f'' :=
  ⟨h'.ino.trans h.ino,h'.iSize.trans h.iSize,h'.nodes.trans h.nodes,h'.pending.trans h.pending⟩

theorem setPage_only (f : RtfsFileInode) (b : UInt32) (e : PageEntry) : OnlyPages f (f.setPage b e) :=
  ⟨rfl,rfl,rfl,rfl⟩

@[simp] theorem pageCacheGet_setPage_self (f : RtfsFileInode) (b : UInt32) (e : PageEntry) :
    pageCacheGet (f.setPage b e).pageCache b = e := by
  simp [pageCacheGet,RtfsFileInode.setPage,PageCache.put]

theorem pageCacheGet_setPage_ne (f : RtfsFileInode) {b b' : UInt32} (e : PageEntry) (hne : b' ≠ b) :
    pageCacheGet (f.setPage b e).pageCache b' = pageCacheGet f.pageCache b' := by
  simp [pageCacheGet,RtfsFileInode.setPage,PageCache.put,Function.update_of_ne hne]

theorem pageContent_setPage_ne (f : RtfsFileInode) {b b' : UInt32} (e : PageEntry) (hne : b' ≠ b) :
    pageContent env (f.setPage b e) b' = pageContent env f b' := by
  unfold pageContent
  rw [pageCacheGet_setPage_ne f e hne]
  rfl

theorem pageContent_ready {e : PageEntry} (hr : e.contentState = .pageReady) :
    pageContent env (f.setPage b e) b = .ok e.page := by
  unfold pageContent
  simp only [pageCacheGet_setPage_self,if_pos hr]

theorem pageContent_setPage_get (b' : UInt32) :
    pageContent env (f.setPage b (pageCacheGet f.pageCache b)) b' = pageContent env f b' := by
  by_cases hb : b' = b
  · subst hb
    unfold pageContent
    simp only [pageCacheGet_setPage_self]
    rfl
  · exact pageContent_setPage_ne f _ hb

structure Prepared (env : FileEnv) (b : UInt32) (r : Except Errno PageEntry) (f f' : RtfsFileInode) : Prop where
  only : OnlyPages f f'
  content : ∀ b', pageContent env f' b' = pageContent env f b'
  result : r.map PageEntry.page = pageContent env f b

theorem prepare_spec (env : FileEnv) (f : RtfsFileInode) (b : UInt32) :
    Prepared env b (rtfsFileInodePreparePageForRead env f b).1 f (rtfsFileInodePreparePageForRead env f b).2 := by
  unfold rtfsFileInodePreparePageForRead
  by_cases hready : (pageCacheGet f.pageCache b).contentState = .pageReady
  · simp only [if_pos hready]
    refine ⟨setPage_only f b _,pageContent_setPage_get,?_⟩
    simp only [pageContent,if_pos hready]
    rfl
  · simp only [if_neg hready]
    cases hres : rtfsFileResolveDataLpaByBlockIndex f.nodes f.ino b with
    | error e =>
      refine ⟨setPage_only f b _,pageContent_setPage_get,?_⟩
      simp only [pageContent,if_neg hready,hres]
      rfl
    | ok lpa =>
      have hcontent : pageContent env f b = if lpa = invalidLpa then .ok Buf.zero else env.readLpa lpa := by
        simp only [pageContent,if_neg hready,hres]
        rfl
      simp only [← hcontent]
      cases hpage : pageContent env f b with
      | error e => exact ⟨setPage_only f b _,pageContent_setPage_get,hpage.symm⟩
      | ok page =>
        refine ⟨setPage_only f b _,fun b' => ?_,hpage.symm⟩
        by_cases hb : b' = b
        · subst hb
          rw [hpage]
          exact pageContent_ready rfl
        · exact pageContent_setPage_ne f _ hb

end Prepare

structure SameBytes (env : FileEnv) (f f' : RtfsFileInode) : Prop where
  iSize : f'.iSize = f.iSize
  bytes : ∀ offset < f.iSize.toNat, byteAt env f' offset = byteAt env f offset

section Read
variable {env : FileEnv} {f f' : RtfsFileInode}

theorem byteAt_content (h : ∀ b, pageContent env f' b = pageContent env f b) (offset : Nat) :
    byteAt env f' offset = byteAt env f offset := by
  unfold byteAt
  rw [h]

theorem byteAt_chunk {offset i : Nat} (hi : offset % 4096 + i < 4096) :
    byteAt env f (offset + i) =
      if 4294967295 < offset / 4096 then .error .efbig
      else
        match pageContent env f (UInt32.ofNat (offset / 4096)) with
        | .error e => .error (.errno e)
        | .ok page => .ok (page.get (offset % 4096 + i)) := by
  have hdiv : (offset + i) / 4096 = offset / 4096 := by omega
  have hmod : (offset + i) % 4096 = offset % 4096 + i := by omega
  unfold byteAt
  rw [hdiv,hmod]

theorem readChunks_congr {offset readable : Nat}
    (h : ∀ i < readable, byteAt env f' (offset + i) = byteAt env f (offset + i)) :
    (readChunks env f' offset readable).1 = (readChunks env f offset readable).1 := by
  induction readable using Nat.strongRecOn generalizing offset f f' with
  | ind readable ih =>
    rw [readChunks.eq_def env f',readChunks.eq_def env f]
    by_cases hz : readable = 0
    · rw [if_pos hz,if_pos hz]
    · rw [if_neg hz,if_neg hz]
      have hmod := Nat.mod_lt offset (show 0 < 4096 by decide)
      have hfirst : ∀ i < readable, offset % 4096 + i < 4096 → _ := fun i hi hin => by
        have hbyte := h i hi
        rw [byteAt_chunk hin,byteAt_chunk hin] at hbyte
        exact hbyte
      by_cases hbig : 4294967295 < offset / 4096
      · simp only [if_pos hbig]
      · simp only [if_neg hbig] at hfirst ⊢
        have hp := prepare_spec env f (UInt32.ofNat (offset / 4096))
        have hp' := prepare_spec env f' (UInt32.ofNat (offset / 4096))
        rcases hr : rtfsFileInodePreparePageForRead env f (UInt32.ofNat (offset / 4096)) with ⟨r,g⟩
        rcases hr' : rtfsFileInodePreparePageForRead env f' (UInt32.ofNat (offset / 4096)) with ⟨r',g'⟩
        rw [hr] at hp
        rw [hr'] at hp'
        have hzero := hfirst 0 (by omega) (by omega)
        have hread := hp.result
        have hread' := hp'.result
        cases r with
        | error e =>
          cases r' with
          | error e' =>
            simp only [← hread,← hread',Except.map] at hzero
            cases hzero
            rfl
          | ok entry' =>
            simp only [← hread,← hread',Except.map] at hzero
            cases hzero
        | ok entry =>
          cases r' with
          | error e' =>
            simp only [← hread,← hread',Except.map] at hzero
            cases hzero
          | ok entry' =>
            have hchunk : entry'.page.read (offset % 4096) (min (4096 - offset % 4096) readable) =
                entry.page.read (offset % 4096) (min (4096 - offset % 4096) readable) := by
              refine Buf.read_congr (fun i hlo hhi => ?_)
              have hbyte := hfirst (i - offset % 4096) (by omega) (by omega)
              rw [show offset % 4096 + (i - offset % 4096) = i by omega] at hbyte
              simpa only [← hread,← hread',Except.map,Except.ok.injEq] using hbyte
            have hrest : (readChunks env g' (offset + min (4096 - offset % 4096) readable)
                (readable - min (4096 - offset % 4096) readable)).1 =
                (readChunks env g (offset + min (4096 - offset % 4096) readable)
                  (readable - min (4096 - offset % 4096) readable)).1 := by
              refine ih _ (by omega) (fun i hi => ?_)
              rw [byteAt_content hp.content,byteAt_content hp'.content,Nat.add_assoc]
              exact h _ (by omega)
            simp only [hchunk,hrest]

theorem read_congr (h : SameBytes env f f') (offset count : Nat) :
    (rtfsFileInodeRead env f' offset count).1 = (rtfsFileInodeRead env f offset count).1 := by
  unfold rtfsFileInodeRead
  by_cases hz : count = 0
  · rw [if_pos hz,if_pos hz]
  · rw [if_neg hz,if_neg hz,h.iSize]
    by_cases hend : f.iSize.toNat ≤ offset
    · rw [if_pos hend,if_pos hend]
    · rw [if_neg hend,if_neg hend]
      have hchunks : (readChunks env f' offset (min (f.iSize.toNat - offset) count)).1 =
          (readChunks env f offset (min (f.iSize.toNat - offset) count)).1 :=
        readChunks_congr (fun i hi => h.bytes (offset + i) (by omega))
      rcases hr : readChunks env f offset (min (f.iSize.toNat - offset) count) with ⟨⟨bytes,stop⟩,g⟩
      rcases hr' : readChunks env f' offset (min (f.iSize.toNat - offset) count) with ⟨⟨bytes',stop'⟩,g'⟩
      rw [hr,hr'] at hchunks
      cases hchunks
      cases bytes with
      | nil =>
        cases stop with
        | none => rfl
        | some e => rfl
      | cons x bytes => rfl

theorem read_byte {offset : Nat} (hlt : offset < f.iSize.toNat) :
    (rtfsFileInodeRead env f offset 1).1 = (byteAt env f offset).map (fun x => [x]) := by
  have hone : min (f.iSize.toNat - offset) 1 = 1 := by omega
  have hmod := Nat.mod_lt offset (show 0 < 4096 by decide)
  have hchunk : min (4096 - offset % 4096) 1 = 1 := by omega
  unfold rtfsFileInodeRead
  rw [if_neg (by decide),if_neg (by omega),hone,readChunks.eq_def,if_neg (by decide)]
  unfold byteAt
  by_cases hbig : 4294967295 < offset / 4096
  · simp only [if_pos hbig]
    rfl
  · simp only [if_neg hbig]
    have hp := (prepare_spec env f (UInt32.ofNat (offset / 4096))).result
    rcases hr : rtfsFileInodePreparePageForRead env f (UInt32.ofNat (offset / 4096)) with ⟨r,g⟩
    rw [hr] at hp
    rw [← hp]
    cases r with
    | error e => rfl
    | ok entry =>
      simp only [hchunk,Nat.sub_self,readChunks.eq_def env g,if_true,Except.map]
      rfl

theorem reads_same_iff (hsize : f'.iSize = f.iSize) :
    (∀ offset count, (rtfsFileInodeRead env f' offset count).1 = (rtfsFileInodeRead env f offset count).1) ↔
      SameBytes env f f' := by
  refine ⟨fun h => ⟨hsize,fun offset hlt => ?_⟩,read_congr⟩
  have hbyte := h offset 1
  rw [read_byte hlt,read_byte (by rwa [hsize])] at hbyte
  cases hx : byteAt env f offset with
  | error e =>
    cases hx' : byteAt env f' offset with
    | error e' =>
      rw [hx,hx'] at hbyte
      cases hbyte
      rfl
    | ok x' =>
      rw [hx,hx'] at hbyte
      cases hbyte
  | ok x =>
    cases hx' : byteAt env f' offset with
    | error e' =>
      rw [hx,hx'] at hbyte
      cases hbyte
    | ok x' =>
      rw [hx,hx'] at hbyte
      cases hbyte
      rfl

end Read

end Rtfs
