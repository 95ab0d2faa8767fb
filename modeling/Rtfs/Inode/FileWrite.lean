import Rtfs.Inode.Truncate
import Rtfs.Lib.ByteFile

namespace Rtfs

open DirEntries (sizeToBlock)

-- a page that is written whole is not read first
def rtfsFileInodePreparePageForWrite (env : FileEnv) (f : RtfsFileInode) (blockIndex : UInt32)
    (preserveExistingContent : Bool) : Except Errno PageEntry × RtfsFileInode :=
  if preserveExistingContent then rtfsFileInodePreparePageForRead env f blockIndex
  else
    let pageEntry := pageCacheGet f.pageCache blockIndex
    if pageEntry.contentState = .pageReady then (.ok pageEntry,f.setPage blockIndex pageEntry)
    else if sizeToBlock f.iSize ≤ blockIndex.toNat then
      (.ok { pageEntry with lpa := invalidLpa },f.setPage blockIndex { pageEntry with lpa := invalidLpa })
    else
      match rtfsFileResolveDataLpaByBlockIndex f.nodes f.ino blockIndex with
      | .error e => (.error e,f.setPage blockIndex pageEntry)
      | .ok lpa => (.ok { pageEntry with lpa := lpa },f.setPage blockIndex { pageEntry with lpa := lpa })

def PageEntry.wrote (pageEntry : PageEntry) (blockOffset : Nat) (bytes : List UInt8) : PageEntry :=
  { pageEntry with page := pageEntry.page.write blockOffset bytes, contentState := .pageReady, isDirty := true }

def RtfsFileInode.grow (f : RtfsFileInode) (curOffset : Nat) : RtfsFileInode :=
  if f.iSize.toNat < curOffset then { f with iSize := UInt64.ofNat curOffset, isDirty := true } else f

def writeChunks (env : FileEnv) (f : RtfsFileInode) (curOffset : Nat) (buffer : List UInt8) :
    (Nat × Option FileError) × RtfsFileInode :=
  if buffer = [] then ((0,none),f)
  else
    let blockIndex64 := curOffset / 4096
    if 4294967295 < blockIndex64 then ((0,some .efbig),f)
    else
      let blockOffset := curOffset % 4096
      let chunk := min (4096 - blockOffset) buffer.length
      match rtfsFileInodePreparePageForWrite env f (UInt32.ofNat blockIndex64)
          (blockOffset ≠ 0 ∨ chunk ≠ 4096) with
      | (.error e,f) => ((0,some (.errno e)),f)
      | (.ok pageEntry,f) =>
        let f := f.setPage (UInt32.ofNat blockIndex64) (pageEntry.wrote blockOffset (buffer.take chunk))
        let r := writeChunks env (f.grow (curOffset + chunk)) (curOffset + chunk) (buffer.drop chunk)
        ((chunk + r.1.1,r.1.2),r.2)
termination_by buffer.length
decreasing_by
  have := Nat.mod_lt curOffset (show 0 < 4096 by decide)
  have := List.length_pos_of_ne_nil ‹buffer ≠ []›
  rw [List.length_drop]
  omega

-- an error after some bytes were written only cuts the write short
def rtfsFileInodeWrite (env : FileEnv) (f : RtfsFileInode) (offset : Nat) (buffer : List UInt8) :
    Except FileError Nat × RtfsFileInode :=
  if buffer = [] then (.ok 0,f)
  else if 18446744073709551615 - offset < buffer.length then (.error .efbig,f)
  else
    match writeChunks env f offset buffer with
    | ((0,some e),f) => (.error e,f)
    | ((n,_),f) => (.ok n,{ f with isDirty := true })

-- the last block that a 32-bit index can name is left out
def maxFileBytes : Nat := 4294967295 * 4096

def storedPage (dev : CommDev) (lpa : UInt32) : Block := if lpa = invalidLpa then Buf.zero else dev.blocks lpa.toNat

def PageHolds (F : ByteFile) (b : UInt32) (page : Block) : Prop :=
  ∀ i < 4096, page.get i = F.byte (4096 * b.toNat + i)

-- a clean page can be had again from its address, a dirty one only from the cache
structure PageOk (dev : CommDev) (F : ByteFile) (b : UInt32) (mapped : Except Errno UInt32) (e : PageEntry) :
    Prop where
  lpa : e.contentState = .pageReady → ∀ lpa, mapped = .ok lpa → e.lpa = lpa
  page : e.contentState = .pageReady → PageHolds F b e.page
  dirty : e.isDirty = true → e.contentState = .pageReady
  stored : e.isDirty = false → ∀ lpa, mapped = .ok lpa → PageHolds F b (storedPage dev lpa)

structure FilePagesOk (dev : CommDev) (f : RtfsFileInode) (F : ByteFile) : Prop where
  tree : IndexTree f.nodes f.ino
  size : F.size = f.iSize.toNat
  bound : F.size ≤ maxFileBytes
  pages : ∀ b, PageOk dev F b (rtfsFileResolveDataLpaByBlockIndex f.nodes f.ino b) (pageCacheGet f.pageCache b)
  holes : ∀ b lpa, rtfsFileResolveDataLpaByBlockIndex f.nodes f.ino b = .ok lpa →
    sizeToBlock f.iSize ≤ b.toNat → lpa = invalidLpa
  held : ∀ b lpa, rtfsFileResolveDataLpaByBlockIndex f.nodes f.ino b = .ok lpa → lpa ≠ invalidLpa →
    dev.Holds lpa.toNat
  dirtyIn : ∀ b, (pageCacheGet f.pageCache b).isDirty = true → b.toNat < sizeToBlock f.iSize

def fileEnv (dev : CommDev) (fails : UInt32 → Option Errno) (realloc : Nat → Bool) : FileEnv where
  readLpa lpa :=
    match fails lpa with
    | some e => .error e
    | none => dev.readLba (lpaToLba lpa)
  realloc := realloc

def Served (env : FileEnv) (f : RtfsFileInode) (offset count : Nat) : Prop :=
  ∀ i < count, ∃ page, pageContent env f (UInt32.ofNat ((offset + i) / 4096)) = .ok page

section Pages
variable {dev : CommDev} {fails : UInt32 → Option Errno} {realloc : Nat → Bool} {f f' : RtfsFileInode}
  {F : ByteFile} {b : UInt32} {e : PageEntry}

theorem readLpa_held {lpa : UInt32} {page : Block} (hheld : dev.Holds lpa.toNat)
    (hread : (fileEnv dev fails realloc).readLpa lpa = .ok page) : page = dev.blocks lpa.toNat := by
  unfold fileEnv at hread
  simp only at hread
  split at hread
  · cases hread
  · exact (Except.ok.inj ((readLpa_ok hheld).symm.trans hread)).symm

theorem FilePagesOk.setPage (h : FilePagesOk dev f F)
    (he : PageOk dev F b (rtfsFileResolveDataLpaByBlockIndex f.nodes f.ino b) e)
    (hd : e.isDirty = (pageCacheGet f.pageCache b).isDirty) : FilePagesOk dev (f.setPage b e) F := by
  refine ⟨h.tree,h.size,h.bound,fun b' => ?_,h.holes,h.held,fun b' hdirty => ?_⟩
  · by_cases hb : b' = b
    · subst hb
      rw [pageCacheGet_setPage_self]
      exact he
    · rw [pageCacheGet_setPage_ne f e hb]
      exact h.pages b'
  · by_cases hb : b' = b
    · subst hb
      rw [pageCacheGet_setPage_self,hd] at hdirty
      exact h.dirtyIn b' hdirty
    · rw [pageCacheGet_setPage_ne f e hb] at hdirty
      exact h.dirtyIn b' hdirty

structure PageRead (dev : CommDev) (f : RtfsFileInode) (F : ByteFile) (b : UInt32)
    (r : Except Errno PageEntry × RtfsFileInode) : Prop where
  ok : FilePagesOk dev r.2 F
  entry : ∀ e, r.1 = .ok e → e.contentState = .pageReady ∧
    PageOk dev F b (rtfsFileResolveDataLpaByBlockIndex f.nodes f.ino b) e

theorem FilePagesOk.prepare (fails : UInt32 → Option Errno) (realloc : Nat → Bool) (h : FilePagesOk dev f F)
    (b : UInt32) :
    PageRead dev f F b (rtfsFileInodePreparePageForRead (fileEnv dev fails realloc) f b) := by
  have hold := h.pages b
  unfold rtfsFileInodePreparePageForRead
  simp only
  split
  · rename_i hready
    refine ⟨h.setPage hold rfl,fun e he => ?_⟩
    cases he
    exact ⟨hready,hold⟩
  · rename_i hready
    cases hres : rtfsFileResolveDataLpaByBlockIndex f.nodes f.ino b with
    | error e => exact ⟨h.setPage hold rfl,fun e he => (by cases he)⟩
    | ok lpa =>
      simp only
      cases hpage : (if lpa = invalidLpa then Except.ok Buf.zero else (fileEnv dev fails realloc).readLpa lpa) with
      | error e => exact ⟨h.setPage hold rfl,fun e he => (by cases he)⟩
      | ok page =>
        -- a page that is not ready is clean, so its address holds it
        have hclean : (pageCacheGet f.pageCache b).isDirty = false := by
          by_contra hd
          exact hready (hold.dirty (Bool.not_eq_false _ ▸ hd))
        have hstored : page = storedPage dev lpa := by
          unfold storedPage
          split at hpage
          · rename_i hz
            rw [if_pos hz]
            exact (Except.ok.inj hpage).symm
          · rename_i hz
            rw [if_neg hz]
            exact readLpa_held (h.held b lpa hres hz) hpage
        have hnew : PageOk dev F b (rtfsFileResolveDataLpaByBlockIndex f.nodes f.ino b)
            { pageCacheGet f.pageCache b with lpa := lpa, contentState := .pageReady, page := page } := by
          refine ⟨fun _ lpa' hlpa' => ?_,fun _ => ?_,fun _ => rfl,hold.stored⟩
          · rw [hres] at hlpa'
            exact Except.ok.inj hlpa'
          · exact hstored ▸ hold.stored hclean lpa hres
        refine ⟨h.setPage hnew rfl,fun e he => ?_⟩
        cases he
        exact ⟨rfl,hnew⟩

end Pages

section Read
variable {dev : CommDev} {f : RtfsFileInode} {F : ByteFile}

theorem page_read {b : UInt32} {page : Block} (h : PageHolds F b page) {off chunk : Nat}
    (hb : off / 4096 = b.toNat) (hfit : off % 4096 + chunk ≤ 4096) (hin : off + chunk ≤ F.size) :
    page.read (off % 4096) chunk = F.read off chunk := by
  unfold Buf.read ByteFile.read
  rw [show min (F.size - off) chunk = chunk by omega]
  refine List.map_congr_left (fun i hi => ?_)
  have hlt := List.mem_range.mp hi
  rw [h _ (by omega)]
  exact congrArg F.byte (by omega)

theorem Served.rest {env : FileEnv} {f' : RtfsFileInode} {off count chunk : Nat} (h : Served env f off count)
    (hc : ∀ b, pageContent env f' b = pageContent env f b) (hle : chunk ≤ count) :
    Served env f' (off + chunk) (count - chunk) := by
  intro i hi
  rw [hc,Nat.add_assoc]
  exact h (chunk + i) (by omega)

theorem ofNat_block {off : Nat} (h : ¬ 4294967295 < off / 4096) : (UInt32.ofNat (off / 4096)).toNat = off / 4096 := by
  rw [UInt32.toNat_ofNat']
  omega

structure ChunksRead (dev : CommDev) (env : FileEnv) (f : RtfsFileInode) (F : ByteFile) (off readable : Nat)
    (r : (List UInt8 × Option FileError) × RtfsFileInode) : Prop where
  ok : FilePagesOk dev r.2 F
  bytes : r.1.1 <+: F.read off readable
  whole : r.1.2 = none → r.1.1 = F.read off readable
  served : Served env f off readable → r.1.2 = none

theorem FilePagesOk.readChunks (fails : UInt32 → Option Errno) (realloc : Nat → Bool) (h : FilePagesOk dev f F)
    (off readable : Nat) (hin : off + readable ≤ F.size) :
    ChunksRead dev (fileEnv dev fails realloc) f F off readable
      (readChunks (fileEnv dev fails realloc) f off readable) := by
  induction readable using Nat.strongRecOn generalizing off f with
  | ind readable ih =>
    rw [Rtfs.readChunks.eq_def]
    by_cases hz : readable = 0
    · rw [if_pos hz]
      subst hz
      have hnil : F.read off 0 = [] := by simp [ByteFile.read]
      exact ⟨h,List.nil_prefix,fun _ => hnil.symm,fun _ => rfl⟩
    · rw [if_neg hz]
      have hmod := Nat.mod_lt off (show 0 < 4096 by decide)
      have hbound := h.bound
      unfold maxFileBytes at hbound
      have hsmall : ¬ 4294967295 < off / 4096 := by omega
      simp only [if_neg hsmall]
      have hto := ofNat_block hsmall
      have hprep := h.prepare fails realloc (UInt32.ofNat (off / 4096))
      have hcontent := prepare_spec (fileEnv dev fails realloc) f (UInt32.ofNat (off / 4096))
      rcases hr : rtfsFileInodePreparePageForRead (fileEnv dev fails realloc) f (UInt32.ofNat (off / 4096)) with ⟨r,g⟩
      rw [hr] at hprep hcontent
      have hres := hcontent.result
      cases r with
      | error e =>
        refine ⟨hprep.ok,List.nil_prefix,fun he => (by cases he),fun hserved => ?_⟩
        obtain ⟨page,hpage⟩ := hserved 0 (by omega)
        cases hres.trans hpage
      | ok entry =>
        obtain ⟨hready,hentry⟩ := hprep.entry entry rfl
        have hchunk := page_read (hentry.page hready) hto.symm
          (show off % 4096 + min (4096 - off % 4096) readable ≤ 4096 by omega) (by omega)
        have hrest := ih (readable - min (4096 - off % 4096) readable) (by omega) hprep.ok
          (off + min (4096 - off % 4096) readable) (by omega)
        have hsplit := F.read_add off (min (4096 - off % 4096) readable)
          (readable - min (4096 - off % 4096) readable) (by omega)
        rw [show min (4096 - off % 4096) readable + (readable - min (4096 - off % 4096) readable) = readable by omega]
          at hsplit
        simp only
        refine ⟨hrest.ok,?_,fun he => ?_,fun hserved => hrest.served (hserved.rest hcontent.content (by omega))⟩
        · simp only
          rw [hsplit,hchunk]
          exact (List.prefix_append_right_inj _).mpr hrest.bytes
        · simp only
          rw [hsplit,hchunk,hrest.whole he]

theorem readChunks_only (env : FileEnv) (f : RtfsFileInode) (off readable : Nat) :
    OnlyPages f (Rtfs.readChunks env f off readable).2 := by
  induction readable using Nat.strongRecOn generalizing off f with
  | ind readable ih =>
    rw [Rtfs.readChunks.eq_def]
    have hmod := Nat.mod_lt off (show 0 < 4096 by decide)
    split
    · exact .refl
    · simp only
      split
      · exact .refl
      · have hprep := (prepare_spec env f (UInt32.ofNat (off / 4096))).only
        rcases hr : rtfsFileInodePreparePageForRead env f (UInt32.ofNat (off / 4096)) with ⟨r,g⟩
        rw [hr] at hprep
        cases r with
        | error e => exact hprep
        | ok entry => exact hprep.trans (ih _ (by omega) g _)

theorem read_only (env : FileEnv) (f : RtfsFileInode) (off count : Nat) :
    OnlyPages f (rtfsFileInodeRead env f off count).2 := by
  unfold rtfsFileInodeRead
  split
  · exact .refl
  · split
    · exact .refl
    · have honly := readChunks_only env f off (min (f.iSize.toNat - off) count)
      rcases hr : Rtfs.readChunks env f off (min (f.iSize.toNat - off) count) with ⟨⟨bytes,stop⟩,g⟩
      rw [hr] at honly
      cases bytes <;> cases stop <;> exact honly

structure ReadMeets (dev : CommDev) (env : FileEnv) (f : RtfsFileInode) (F : ByteFile) (off count : Nat)
    (r : Except FileError (List UInt8) × RtfsFileInode) : Prop where
  ok : FilePagesOk dev r.2 F
  bytes : ∀ bytes, r.1 = .ok bytes → bytes <+: F.read off count
  served : Served env f off count → r.1 = .ok (F.read off count)

theorem FilePagesOk.read (fails : UInt32 → Option Errno) (realloc : Nat → Bool) (h : FilePagesOk dev f F)
    (off count : Nat) :
    ReadMeets dev (fileEnv dev fails realloc) f F off count
      (rtfsFileInodeRead (fileEnv dev fails realloc) f off count) := by
  have hempty : count = 0 ∨ f.iSize.toNat ≤ off → F.read off count = [] := by
    intro hc
    rw [← h.size] at hc
    unfold ByteFile.read
    rw [show min (F.size - off) count = 0 by omega]
    rfl
  have hnone : F.read off count = [] → ReadMeets dev (fileEnv dev fails realloc) f F off count (.ok [],f) := by
    intro hnil
    refine ⟨h,fun bytes hb => ?_,fun _ => by rw [hnil]⟩
    cases hb
    exact List.nil_prefix
  unfold rtfsFileInodeRead
  split
  · rename_i hz
    exact hnone (hempty (.inl hz))
  · split
    · rename_i hend
      exact hnone (hempty (.inr hend))
    · rename_i hend
      rw [← h.size] at hend ⊢
      have hclip : F.read off (min (F.size - off) count) = F.read off count := by
        unfold ByteFile.read
        rw [show min (F.size - off) (min (F.size - off) count) = min (F.size - off) count by omega]
      have hchunks := h.readChunks fails realloc off (min (F.size - off) count) (by omega)
      have hserved : Served (fileEnv dev fails realloc) f off count →
          Served (fileEnv dev fails realloc) f off (min (F.size - off) count) :=
        fun hs i hi => hs i (by omega)
      rcases hr : Rtfs.readChunks (fileEnv dev fails realloc) f off (min (F.size - off) count) with ⟨⟨bytes,stop⟩,g⟩
      rw [hr] at hchunks
      have hbytes := hchunks.bytes
      rw [hclip] at hbytes
      cases stop with
      | none =>
        have hwhole := hchunks.whole rfl
        rw [hclip] at hwhole
        cases bytes with
        | nil =>
          refine ⟨hchunks.ok,fun bytes hb => ?_,fun _ => congrArg Except.ok hwhole⟩
          cases hb
          exact List.nil_prefix
        | cons x bytes =>
          refine ⟨hchunks.ok,fun bytes' hb => ?_,fun _ => congrArg Except.ok hwhole⟩
          cases hb
          exact hbytes
      | some e =>
        cases bytes with
        | nil => exact ⟨hchunks.ok,fun bytes hb => (by cases hb),fun hs => (by cases hchunks.served (hserved hs))⟩
        | cons x bytes =>
          refine ⟨hchunks.ok,fun bytes' hb => ?_,fun hs => (by cases hchunks.served (hserved hs))⟩
          cases hb
          exact hbytes

end Read

section Write
variable {dev : CommDev} {f : RtfsFileInode} {F : ByteFile}

structure PageForWrite (dev : CommDev) (env : FileEnv) (f : RtfsFileInode) (F : ByteFile) (b : UInt32) (keep : Bool)
    (r : Except Errno PageEntry × RtfsFileInode) : Prop where
  only : OnlyPages f r.2
  ok : FilePagesOk dev r.2 F
  lpa : ∀ e, r.1 = .ok e → ∀ lpa, rtfsFileResolveDataLpaByBlockIndex f.nodes f.ino b = .ok lpa → e.lpa = lpa
  page : ∀ e, r.1 = .ok e → keep = true → PageHolds F b e.page
  content : ∀ b' ≠ b, pageContent env r.2 b' = pageContent env f b'
  failed : ∀ e, r.1 = .error e → ∃ e', pageContent env f b = .error e'

theorem FilePagesOk.prepareForWrite (fails : UInt32 → Option Errno) (realloc : Nat → Bool) (h : FilePagesOk dev f F)
    (b : UInt32) (keep : Bool) :
    PageForWrite dev (fileEnv dev fails realloc) f F b keep
      (rtfsFileInodePreparePageForWrite (fileEnv dev fails realloc) f b keep) := by
  have hold := h.pages b
  unfold rtfsFileInodePreparePageForWrite
  cases keep with
  | true =>
    have hprep := h.prepare fails realloc b
    have hcontent := prepare_spec (fileEnv dev fails realloc) f b
    have hres := hcontent.result
    rw [if_pos rfl]
    rcases hr : rtfsFileInodePreparePageForRead (fileEnv dev fails realloc) f b with ⟨r,g⟩
    rw [hr] at hprep hcontent hres
    refine ⟨hcontent.only,hprep.ok,fun e he => (hprep.entry e he).2.lpa (hprep.entry e he).1,
      fun e he _ => (hprep.entry e he).2.page (hprep.entry e he).1,fun b' _ => hcontent.content b',fun e he => ?_⟩
    have he' : r = .error e := he
    subst he'
    exact ⟨e,hres.symm⟩
  | false =>
    rw [if_neg (by decide)]
    simp only
    by_cases hready : (pageCacheGet f.pageCache b).contentState = .pageReady
    · rw [if_pos hready]
      refine ⟨setPage_only f b _,h.setPage hold rfl,fun e he => ?_,fun e he hk => (by cases hk),
        fun b' hne => pageContent_setPage_ne f _ hne,fun e he => (by cases he)⟩
      cases he
      exact hold.lpa hready
    · rw [if_neg hready]
      have hclean : ¬ (pageCacheGet f.pageCache b).isDirty = true := fun hd => hready (hold.dirty hd)
      have hset (lpa : UInt32) : FilePagesOk dev (f.setPage b { pageCacheGet f.pageCache b with lpa := lpa }) F :=
        h.setPage ⟨fun hr => absurd hr hready,fun hr => absurd hr hready,fun hd => absurd hd hclean,hold.stored⟩ rfl
      split
      · rename_i hbeyond
        refine ⟨setPage_only f b _,hset invalidLpa,fun e he lpa hlpa => ?_,fun e he hk => (by cases hk),
          fun b' hne => pageContent_setPage_ne f _ hne,fun e he => (by cases he)⟩
        cases he
        exact (h.holes b lpa hlpa hbeyond).symm
      · cases hres : rtfsFileResolveDataLpaByBlockIndex f.nodes f.ino b with
        | error e =>
          refine ⟨setPage_only f b _,h.setPage hold rfl,fun e he => (by cases he),fun e he => (by cases he),
            fun b' hne => pageContent_setPage_ne f _ hne,fun _ _ => ⟨e,?_⟩⟩
          unfold pageContent
          simp only [if_neg hready,hres]
          rfl
        | ok lpa =>
          refine ⟨setPage_only f b _,hset lpa,fun e he lpa' hlpa => ?_,fun e he hk => (by cases hk),
            fun b' hne => pageContent_setPage_ne f _ hne,fun e he => (by cases he)⟩
          cases he
          rw [hres] at hlpa
          exact Except.ok.inj hlpa

theorem grow_nodes (f : RtfsFileInode) (n : Nat) : (f.grow n).nodes = f.nodes ∧ (f.grow n).ino = f.ino ∧
    (f.grow n).pageCache = f.pageCache ∧ (f.grow n).pendingTruncateOldLpas = f.pendingTruncateOldLpas := by
  unfold RtfsFileInode.grow
  split <;> exact ⟨rfl,rfl,rfl,rfl⟩

theorem grow_iSize (f : RtfsFileInode) {n : Nat} (hn : n ≤ maxFileBytes) :
    (f.grow n).iSize.toNat = max f.iSize.toNat n := by
  unfold maxFileBytes at hn
  unfold RtfsFileInode.grow
  split
  · rename_i hlt
    rw [UInt64.toNat_ofNat',Nat.mod_eq_of_lt (by omega)]
    omega
  · omega

theorem pageHolds_write_ne {b b' : UInt32} {off : Nat} {bs : List UInt8} {page : Block} (hb : off / 4096 = b.toNat)
    (hfit : off % 4096 + bs.length ≤ 4096) (hne : b' ≠ b) :
    PageHolds (F.write off bs) b' page ↔ PageHolds F b' page := by
  have hn : b'.toNat ≠ b.toNat := fun he => hne (UInt32.toNat_inj.mp he)
  refine forall₂_congr (fun i hi => ?_)
  rw [F.write_outside (by omega)]

theorem pageHolds_wrote {b : UInt32} {off : Nat} {bs : List UInt8} {e : PageEntry} (hb : off / 4096 = b.toNat)
    (hfit : off % 4096 + bs.length ≤ 4096) (h : bs.length = 4096 ∨ PageHolds F b e.page) :
    PageHolds (F.write off bs) b (e.wrote (off % 4096) bs).page := by
  intro i hi
  unfold PageEntry.wrote
  simp only
  by_cases hin : off % 4096 ≤ i ∧ i < off % 4096 + bs.length
  · have hlt : i - off % 4096 < bs.length := by omega
    have hpage := Buf.get_write_inside e.page (off % 4096) bs hlt (by omega)
    rw [show off % 4096 + (i - off % 4096) = i by omega] at hpage
    have hfile := F.write_inside off hlt
    rw [show off + (i - off % 4096) = 4096 * b.toNat + i by omega] at hfile
    rw [hpage,hfile]
    rfl
  · rw [Buf.get_write_frame _ _ _ (by omega),F.write_outside (by omega)]
    rcases h with hfull | h
    · omega
    · exact h i hi

theorem FilePagesOk.wroteChunk (h : FilePagesOk dev f F) {b : UInt32} {off : Nat} {bs : List UInt8} {e : PageEntry}
    (hb : off / 4096 = b.toNat) (hfit : off % 4096 + bs.length ≤ 4096) (hne : bs ≠ [])
    (hend : off + bs.length ≤ maxFileBytes)
    (hlpa : ∀ lpa, rtfsFileResolveDataLpaByBlockIndex f.nodes f.ino b = .ok lpa → e.lpa = lpa)
    (hpage : bs.length = 4096 ∨ PageHolds F b e.page) :
    FilePagesOk dev ((f.setPage b (e.wrote (off % 4096) bs)).grow (off + bs.length)) (F.write off bs) := by
  obtain ⟨hnodes,hino,hcache,-⟩ := grow_nodes (f.setPage b (e.wrote (off % 4096) bs)) (off + bs.length)
  have hsize := grow_iSize (f.setPage b (e.wrote (off % 4096) bs)) hend
  have hbound := h.bound
  have hfile : f.iSize.toNat ≤ maxFileBytes := h.size ▸ h.bound
  have hsame : (f.setPage b (e.wrote (off % 4096) bs)).iSize = f.iSize := rfl
  have hpos := List.length_pos_of_ne_nil hne
  have hmore : sizeToBlock f.iSize ≤
      sizeToBlock ((f.setPage b (e.wrote (off % 4096) bs)).grow (off + bs.length)).iSize ∧
      b.toNat < sizeToBlock ((f.setPage b (e.wrote (off % 4096) bs)).grow (off + bs.length)).iSize := by
    unfold maxFileBytes at hfile hend
    rw [sizeToBlock_toNat,sizeToBlock_toNat,hsize,hsame]
    omega
  refine ⟨?_,?_,?_,fun b' => ?_,fun b' lpa hres hbeyond => ?_,fun b' lpa hres => ?_,fun b' hdirty => ?_⟩
  · rw [hnodes,hino]
    exact h.tree
  · rw [hsize]
    simp only [ByteFile.write,if_neg hne]
    exact congrArg (fun n => max n _) h.size
  · simp only [ByteFile.write,if_neg hne]
    omega
  · rw [hnodes,hino,hcache]
    by_cases hbb : b' = b
    · subst hbb
      rw [pageCacheGet_setPage_self]
      exact ⟨fun _ => hlpa,fun _ => pageHolds_wrote hb hfit hpage,fun _ => rfl,fun hd => (by cases hd)⟩
    · rw [pageCacheGet_setPage_ne f _ hbb]
      have hold := h.pages b'
      exact ⟨hold.lpa,fun hr => (pageHolds_write_ne hb hfit hbb).mpr (hold.page hr),hold.dirty,
        fun hd lpa hl => (pageHolds_write_ne hb hfit hbb).mpr (hold.stored hd lpa hl)⟩
  · rw [hnodes,hino] at hres
    exact h.holes b' lpa hres (le_trans hmore.1 hbeyond)
  · rw [hnodes,hino] at hres
    exact h.held b' lpa hres
  · rw [hcache] at hdirty
    by_cases hbb : b' = b
    · exact hbb ▸ hmore.2
    · rw [pageCacheGet_setPage_ne f _ hbb] at hdirty
      exact lt_of_lt_of_le (h.dirtyIn b' hdirty) hmore.1

structure ChunksWritten (dev : CommDev) (env : FileEnv) (f : RtfsFileInode) (F : ByteFile) (off : Nat)
    (buffer : List UInt8) (r : (Nat × Option FileError) × RtfsFileInode) : Prop where
  ok : FilePagesOk dev r.2 (F.write off (buffer.take r.1.1))
  nodes : r.2.nodes = f.nodes ∧ r.2.ino = f.ino
  pending : r.2.pendingTruncateOldLpas = f.pendingTruncateOldLpas
  count : r.1.1 ≤ buffer.length
  whole : r.1.2 = none → r.1.1 = buffer.length
  served : Served env f off buffer.length → r.1.2 = none

theorem FilePagesOk.writeChunks (fails : UInt32 → Option Errno) (realloc : Nat → Bool) (h : FilePagesOk dev f F)
    (off : Nat) (buffer : List UInt8) (hend : off + buffer.length ≤ maxFileBytes) :
    ChunksWritten dev (fileEnv dev fails realloc) f F off buffer
      (writeChunks (fileEnv dev fails realloc) f off buffer) := by
  induction hlen : buffer.length using Nat.strongRecOn generalizing off f F buffer with
  | ind n ih =>
    subst hlen
    rw [Rtfs.writeChunks.eq_def]
    by_cases hz : buffer = []
    · rw [if_pos hz]
      subst hz
      exact ⟨by rw [List.take_nil,F.write_nil]; exact h,⟨rfl,rfl⟩,rfl,le_rfl,fun _ => rfl,fun _ => rfl⟩
    · rw [if_neg hz]
      have hpos := List.length_pos_of_ne_nil hz
      have hmod := Nat.mod_lt off (show 0 < 4096 by decide)
      have hbound := hend
      unfold maxFileBytes at hbound
      have hsmall : ¬ 4294967295 < off / 4096 := by omega
      simp only [if_neg hsmall]
      have hto := ofNat_block hsmall
      generalize hchunk : min (4096 - off % 4096) buffer.length = chunk
      generalize hkeep : decide (off % 4096 ≠ 0 ∨ chunk ≠ 4096) = keep
      have htake : (buffer.take chunk).length = chunk := by
        rw [List.length_take]
        omega
      have hprep := h.prepareForWrite fails realloc (UInt32.ofNat (off / 4096)) keep
      rcases hr : rtfsFileInodePreparePageForWrite (fileEnv dev fails realloc) f (UInt32.ofNat (off / 4096)) keep
        with ⟨r,g⟩
      rw [hr] at hprep
      cases r with
      | error e =>
        refine ⟨by rw [List.take_zero,F.write_nil]; exact hprep.ok,⟨hprep.only.nodes,hprep.only.ino⟩,
          hprep.only.pending,Nat.zero_le _,fun he => (by cases he),fun hserved => ?_⟩
        obtain ⟨page,hpage⟩ := hserved 0 (by omega)
        obtain ⟨e',he'⟩ := hprep.failed e rfl
        cases he'.symm.trans hpage
      | ok entry =>
        simp only
        have hlpa := hprep.lpa entry rfl
        rw [← hprep.only.nodes,← hprep.only.ino] at hlpa
        have hpage : (buffer.take chunk).length = 4096 ∨ PageHolds F (UInt32.ofNat (off / 4096)) entry.page := by
          by_cases hk : keep = true
          · exact .inr (hprep.page entry rfl hk)
          · rw [← hkeep,decide_eq_true_iff] at hk
            left
            omega
        have hwrote := hprep.ok.wroteChunk hto.symm (by omega) (List.ne_nil_of_length_pos (by omega)) (by omega) hlpa
          hpage
        rw [htake] at hwrote
        dsimp only at hwrote
        have hdrop : (buffer.drop chunk).length = buffer.length - chunk := List.length_drop
        have hrest := ih (buffer.drop chunk).length (by omega) hwrote (off + chunk) (buffer.drop chunk) (by omega) rfl
        obtain ⟨hnodes,hino,hcache,hpending⟩ := grow_nodes (g.setPage (UInt32.ofNat (off / 4096))
          (entry.wrote (off % 4096) (buffer.take chunk))) (off + chunk)
        have hjoin : ∀ k, (F.write off (buffer.take chunk)).write (off + chunk) ((buffer.drop chunk).take k) =
            F.write off (buffer.take (chunk + k)) := by
          intro k
          have happ := F.write_append off (List.ne_nil_of_length_pos (l := buffer.take chunk) (by omega))
            ((buffer.drop chunk).take k)
          rw [htake,← List.take_add] at happ
          exact happ
        refine ⟨hjoin _ ▸ hrest.ok,⟨?_,?_⟩,?_,?_,fun he => ?_,fun hserved => hrest.served (fun i hi => ?_)⟩
        · rw [hrest.nodes.1,hnodes]
          exact hprep.only.nodes
        · rw [hrest.nodes.2,hino]
          exact hprep.only.ino
        · rw [hrest.pending,hpending]
          exact hprep.only.pending
        · have := hrest.count
          simp only
          omega
        · have := hrest.whole he
          simp only
          omega
        · -- the blocks of the rest lie behind the one just written
          have hne : UInt32.ofNat ((off + chunk + i) / 4096) ≠ UInt32.ofNat (off / 4096) := by
            intro he
            have := ofNat_inj (by omega) hsmall he
            omega
          obtain ⟨page,hpage⟩ := hserved (chunk + i) (by omega)
          rw [← Nat.add_assoc] at hpage
          refine ⟨page,?_⟩
          rw [← hpage,← hprep.content _ hne,← pageContent_setPage_ne g _ hne]
          unfold pageContent
          rw [hnodes,hino,hcache]

structure WriteMeets (dev : CommDev) (env : FileEnv) (f : RtfsFileInode) (F : ByteFile) (off : Nat)
    (buffer : List UInt8) (r : Except FileError Nat × RtfsFileInode) : Prop where
  nodes : r.2.nodes = f.nodes ∧ r.2.ino = f.ino
  pending : r.2.pendingTruncateOldLpas = f.pendingTruncateOldLpas
  failed : ∀ e, r.1 = .error e → FilePagesOk dev r.2 F
  written : ∀ n, r.1 = .ok n → n ≤ buffer.length ∧ FilePagesOk dev r.2 (F.write off (buffer.take n))
  served : Served env f off buffer.length → r.1 = .ok buffer.length

theorem FilePagesOk.dirtied (h : FilePagesOk dev f F) : FilePagesOk dev { f with isDirty := true } F :=
  ⟨h.tree,h.size,h.bound,h.pages,h.holes,h.held,h.dirtyIn⟩

theorem FilePagesOk.write (fails : UInt32 → Option Errno) (realloc : Nat → Bool) (h : FilePagesOk dev f F)
    (off : Nat) (buffer : List UInt8) (hend : off + buffer.length ≤ maxFileBytes) :
    WriteMeets dev (fileEnv dev fails realloc) f F off buffer
      (rtfsFileInodeWrite (fileEnv dev fails realloc) f off buffer) := by
  unfold rtfsFileInodeWrite
  split
  · rename_i hz
    subst hz
    refine ⟨⟨rfl,rfl⟩,rfl,fun e he => (by cases he),fun n hn => ?_,fun _ => rfl⟩
    cases hn
    rw [List.take_nil,F.write_nil]
    exact ⟨le_rfl,h⟩
  · rename_i hz
    have hbound := hend
    unfold maxFileBytes at hbound
    rw [if_neg (by omega)]
    have hchunks := h.writeChunks fails realloc off buffer hend
    rcases hr : Rtfs.writeChunks (fileEnv dev fails realloc) f off buffer with ⟨⟨n,stop⟩,g⟩
    rw [hr] at hchunks
    have hok : WriteMeets dev (fileEnv dev fails realloc) f F off buffer
        ((.ok n : Except FileError Nat),{ g with isDirty := true }) := by
      refine ⟨hchunks.nodes,hchunks.pending,fun e he => (by cases he),fun k hk => ?_,fun hs => ?_⟩
      · cases hk
        exact ⟨hchunks.count,hchunks.ok.dirtied⟩
      · exact congrArg Except.ok (hchunks.whole (hchunks.served hs))
    cases stop with
    | none => cases n <;> exact hok
    | some e =>
      cases n with
      | zero =>
        have hsame := hchunks.ok
        rw [List.take_zero,F.write_nil] at hsame
        exact ⟨hchunks.nodes,hchunks.pending,fun _ _ => hsame,fun n hn => (by cases hn),
          fun hs => (by cases hchunks.served hs)⟩
      | succ n => exact hok

end Write

end Rtfs
