import Rtfs.Inode.FileHandler
import Rtfs.Lib.Labelled

namespace Rtfs

namespace FileHandler

open DirEntries (sizeToBlock)

inductive HandleStep (layout : RtfsMkfsLayout) (h : RtfsFileHandle) : OpenFile.Event → RtfsFileHandle → Prop
  | read (fails : UInt32 → Option Errno) (realloc : Nat → Bool) (count : Nat) (served : Bool)
      {r : Except HandleError (List UInt8)} {h' : RtfsFileHandle}
      (hr : rtfsFileRead (fileEnv h.s.dev fails realloc) h count = (r,h')) (hne : r ≠ .error .ebadf)
      (hs : served = true → Served (fileEnv h.s.dev fails realloc) h.s.file h.offset.toUInt64.toNat count) :
      HandleStep layout h (.read count served r.toOption) h'
  | readDenied {env : FileEnv} {count : Nat} {h' : RtfsFileHandle}
      (hr : rtfsFileRead env h count = (.error .ebadf,h')) : HandleStep layout h .readDenied h'
  | write (fails : UInt32 → Option Errno) (realloc : Nat → Bool) (buffer : List UInt8) (served : Bool)
      {r : Except HandleError Nat} {h' : RtfsFileHandle}
      (hr : rtfsFileWrite (fileEnv h.s.dev fails realloc) h buffer = (r,h')) (hne : r ≠ .error .ebadf)
      (hend : h.writeStart.toUInt64.toNat + buffer.length ≤ maxFileBytes)
      (hs : served = true →
        Served (fileEnv h.s.dev fails realloc) h.s.file h.writeStart.toUInt64.toNat buffer.length) :
      HandleStep layout h (.write buffer served r.toOption) h'
  | writeFar {env : FileEnv} (buffer : List UInt8) {r : Except HandleError Nat} {h' : RtfsFileHandle}
      (hr : rtfsFileWrite env h buffer = (r,h')) (hne : r ≠ .error .ebadf)
      (hfar : maxFileBytes + 4096 ≤ h.writeStart.toUInt64.toNat) (hb : buffer ≠ []) :
      HandleStep layout h (.write buffer false r.toOption) h'
  | writeDenied {env : FileEnv} {buffer : List UInt8} {h' : RtfsFileHandle}
      (hr : rtfsFileWrite env h buffer = (.error .ebadf,h')) : HandleStep layout h .changeDenied h'
  | seek (offset : Int64) (whence : Whence) {r : Except HandleError Int64} {h' : RtfsFileHandle}
      (hr : rtfsFileLseek h offset whence = (r,h')) :
      HandleStep layout h (.seek whence offset.toInt (r.toOption.map (fun x => x.toInt.toNat))) h'
  | truncate (fails : UInt32 → Option Errno) (realloc : Nat → Bool) {length : Int64} {h' : RtfsFileHandle}
      (hr : rtfsFileFtruncate (fileEnv h.s.dev fails realloc) h length = (.ok (),h'))
      (ht : length.toUInt64.toNat ≤ maxFileBytes) : HandleStep layout h (.truncate length.toUInt64.toNat) h'
  | truncateDenied {env : FileEnv} {length : Int64} {h' : RtfsFileHandle}
      (hr : rtfsFileFtruncate env h length = (.error .ebadf,h')) : HandleStep layout h .changeDenied h'
  | fsync {env : SyncEnv} {pages : DirtyPages} {r : Except HandleError Unit} {h' : RtfsFileHandle}
      (hl : ListsDirty pages h.s.file.pageCache) (hr : rtfsFileFsync env pages h = some (r,h'))
      (hidle : h'.s.pending.items = []) : HandleStep layout h (.sync r.isOk) h'
  | fdatasync {env : FileCommitEnv} {pages : DirtyPages} {r : Except HandleError Unit} {h' : RtfsFileHandle}
      (hl : ListsDirty pages h.s.file.pageCache) (hr : rtfsFileFdatasync env pages h = some (r,h'))
      (hidle : h'.s.pending.items = []) : HandleStep layout h (.sync r.isOk) h'
  | reopen {env env' : SyncEnv} {pages pages' : DirtyPages} {r : Except Errno Unit} {s : FileState} {fs : FsMeta}
      {dev : CommDev} (fails : UInt32 → Option Errno) (realloc : Nat → Bool) {oflag : OpenFlags}
      {h' : RtfsFileHandle} (hl : ListsDirty pages h.s.file.pageCache)
      (hclose : rtfsFileClose env pages h = some (r,s)) (hidle : s.pending.items = [])
      (hout : Outside layout s.rtfsFileInodeBuild fs dev)
      (hl' : ∀ f, rtfsFileInodeTruncate (fileEnv dev fails realloc) s.rtfsFileInodeBuild.file 0 = (.ok (),f) →
        ListsDirty pages' f.pageCache)
      (hopen : rtfsFileOpen (fileEnv dev fails realloc) env' pages' oflag { s with fs := fs, dev := dev } = some (.ok h')) :
      HandleStep layout h (.reopen r.isOk oflag.access oflag.append oflag.trunc) h'
  | evict (victim : UInt32 → Bool) (hv : ∀ b, victim b = true → (pageCacheGet h.s.file.pageCache b).isDirty = false) :
      HandleStep layout h .keep (h.withFile { h.s.file with pageCache := h.s.file.pageCache.evict victim })
  | outside {fs : FsMeta} {dev : CommDev} (ho : Outside layout h.s fs dev) :
      HandleStep layout h .keep { h with s := { h.s with fs := fs, dev := dev } }

structure Models (layout : RtfsMkfsLayout) (h : RtfsFileHandle) (f : OpenFile) : Prop where
  file : FileOk layout h.s f.current
  saved : Durable h.s f.saved
  access : h.oflag.access = f.access
  append : h.oflag.append = f.append
  offset : h.offset.toInt = f.offset
  syncFailed : h.syncFailed = f.syncFailed

section Offsets
variable {layout : RtfsMkfsLayout} {h : RtfsFileHandle} {f : OpenFile}

theorem size_offset {s : FileState} {F : ByteFile} (hok : FileOk layout s F) : s.file.iSize.toInt64.toInt = F.size := by
  have hbound := hok.pages.bound
  have hsize := hok.pages.size
  unfold maxFileBytes at hbound
  rw [← UInt64.ofNat_toNat (x := s.file.iSize),UInt64.toInt64_ofNat',Int64.toInt_ofNat_of_lt (by omega),hsize]

theorem Models.start (m : Models layout h f) : h.writeStart.toInt = f.start := by
  unfold RtfsFileHandle.writeStart OpenFile.start
  rw [m.append]
  split
  · exact size_offset m.file
  · exact m.offset

theorem Models.base (m : Models layout h f) (whence : Whence) : (h.seekBase whence).toInt = f.base whence := by
  cases whence with
  | set => rfl
  | cur => exact m.offset
  | fromEnd => exact size_offset m.file

theorem offset_nat {x : Int64} {n : Nat} (hx : x.toInt = n) : x.toUInt64.toNat = n ∧ ¬ x < 0 := by
  have hpos : 0 ≤ x.toInt := by omega
  refine ⟨?_,not_negative hpos⟩
  have hnat := toUInt64_toNat hpos
  omega

theorem offset_lt {x : Int64} {n : Nat} (hx : x.toInt = n) : n < 2 ^ 63 := by
  have hlt := x.toInt_lt
  omega

end Offsets

section Step
variable {layout : RtfsMkfsLayout} {h h' : RtfsFileHandle} {f : OpenFile}

theorem Models.read (m : Models layout h f) (ha : layout.Areas) (hN : layout.segmentCount.toNat < 8388608)
    {fails : UInt32 → Option Errno} {realloc : Nat → Bool} {count : Nat} {served : Bool}
    {r : Except HandleError (List UInt8)} (hr : rtfsFileRead (fileEnv h.s.dev fails realloc) h count = (r,h'))
    (hne : r ≠ .error .ebadf)
    (hs : served = true → Served (fileEnv h.s.dev fails realloc) h.s.file h.offset.toUInt64.toNat count) :
    ∃ f', OpenFile.Step 4096 (2 ^ 63) f (.read count served r.toOption) f' ∧ Models layout h' f' := by
  obtain ⟨hoff,hpos⟩ := offset_nat m.offset
  have haccess : f.access ≠ .wronly := by
    intro hw
    rw [rtfsFileRead,if_pos (m.access.trans hw)] at hr
    cases hr
    exact hne rfl
  rw [rtfsFileRead,if_neg (m.access.symm ▸ haccess),if_neg hpos] at hr
  obtain ⟨F',hstep,hok⟩ := (FileStep.read fails realloc h.offset.toUInt64.toNat count served hs).ok ha hN m.file
  have honly := read_only (fileEnv h.s.dev fails realloc) h.s.file h.offset.toUInt64.toNat count
  have hdurable := m.saved.stays m.file ⟨honly.nodes,honly.ino⟩ (.inr ⟨read_isDirty _ _ _ _,honly.iSize⟩)
  rcases hread : rtfsFileInodeRead (fileEnv h.s.dev fails realloc) h.s.file h.offset.toUInt64.toNat count with ⟨x,g⟩
  rw [hread] at hr hstep hok hdurable
  rw [hoff] at hstep hr
  cases x with
  | error e =>
    cases hr
    cases hstep
    exact ⟨f,.readFailed haccess,hok,hdurable,m.access,m.append,m.offset,m.syncFailed⟩
  | ok bytes =>
    cases hr
    cases hstep with
    | read hp hserved =>
      have hlen := hp.length_le
      have hlt := offset_lt m.offset
      have hbound := m.file.pages.bound
      unfold maxFileBytes at hbound
      unfold ByteFile.read at hlen
      rw [List.length_map,List.length_range] at hlen
      exact ⟨_,.read haccess hp hserved,hok,hdurable,m.access,m.append,Int64.toInt_ofNat_of_lt (by omega),m.syncFailed⟩

theorem read_denied {env : FileEnv} {count : Nat} (hr : rtfsFileRead env h count = (.error .ebadf,h')) :
    h.oflag.access = .wronly ∧ h' = h := by
  unfold rtfsFileRead at hr
  split at hr
  · rename_i hw
    cases hr
    exact ⟨hw,rfl⟩
  split at hr
  · cases hr
  split at hr <;> cases hr

theorem write_denied {env : FileEnv} {buffer : List UInt8} (hr : rtfsFileWrite env h buffer = (.error .ebadf,h')) :
    h.oflag.access = .rdonly ∧ h' = h := by
  unfold rtfsFileWrite at hr
  split at hr
  · rename_i hro
    cases hr
    exact ⟨hro,rfl⟩
  split at hr
  · cases hr
  split at hr <;> cases hr

theorem truncate_denied {env : FileEnv} {length : Int64}
    (hr : rtfsFileFtruncate env h length = (.error .ebadf,h')) : h.oflag.access = .rdonly ∧ h' = h := by
  unfold rtfsFileFtruncate at hr
  split at hr
  · cases hr
  split at hr
  · rename_i hro
    cases hr
    exact ⟨hro,rfl⟩
  split at hr <;> cases hr

theorem Models.writable (m : Models layout h f) {env : FileEnv} {buffer : List UInt8} {r : Except HandleError Nat}
    (hr : rtfsFileWrite env h buffer = (r,h')) (hne : r ≠ .error .ebadf) : f.access ≠ .rdonly := by
  intro hro
  rw [rtfsFileWrite,if_pos (m.access.trans hro)] at hr
  cases hr
  exact hne rfl

theorem Models.write (m : Models layout h f) (ha : layout.Areas) (hN : layout.segmentCount.toNat < 8388608)
    {fails : UInt32 → Option Errno} {realloc : Nat → Bool} {buffer : List UInt8} {served : Bool}
    {r : Except HandleError Nat} (hr : rtfsFileWrite (fileEnv h.s.dev fails realloc) h buffer = (r,h'))
    (hne : r ≠ .error .ebadf) (hend : h.writeStart.toUInt64.toNat + buffer.length ≤ maxFileBytes)
    (hs : served = true →
      Served (fileEnv h.s.dev fails realloc) h.s.file h.writeStart.toUInt64.toNat buffer.length) :
    ∃ f', OpenFile.Step 4096 (2 ^ 63) f (.write buffer served r.toOption) f' ∧ Models layout h' f' := by
  obtain ⟨hoff,hpos⟩ := offset_nat m.start
  have haccess := m.writable hr hne
  rw [rtfsFileWrite,if_neg (m.access.symm ▸ haccess),if_neg hpos] at hr
  obtain ⟨F',hstep,hok⟩ :=
    (FileStep.write fails realloc h.writeStart.toUInt64.toNat buffer served hend hs).ok ha hN m.file
  have hnodes := (m.file.pages.write fails realloc h.writeStart.toUInt64.toNat buffer hend).nodes
  have hdurable := m.saved.stays m.file hnodes (write_sized _ _ _ _)
  rcases hwrite : rtfsFileInodeWrite (fileEnv h.s.dev fails realloc) h.s.file h.writeStart.toUInt64.toNat buffer
    with ⟨x,g⟩
  rw [hwrite] at hr hstep hok hdurable
  rw [hoff] at hstep hr hend
  cases x with
  | error e =>
    cases hr
    cases hstep
    exact ⟨f,.writeFailed haccess,hok,hdurable,m.access,m.append,m.offset,m.syncFailed⟩
  | ok n =>
    cases hr
    cases hstep with
    | write hn hserved =>
      unfold maxFileBytes at hend
      exact ⟨_,.write haccess hn hserved,hok,hdurable,m.access,m.append,Int64.toInt_ofNat_of_lt (by omega),m.syncFailed⟩

-- a write that starts behind the last block that an index can name
theorem write_far {env : FileEnv} {g : RtfsFileInode} {off : Nat} {buffer : List UInt8} (hfar : maxFileBytes + 4096 ≤ off)
    (hb : buffer ≠ []) : rtfsFileInodeWrite env g off buffer = (.error .efbig,g) := by
  unfold maxFileBytes at hfar
  unfold rtfsFileInodeWrite
  rw [if_neg hb]
  split
  · rfl
  · rw [writeChunks.eq_def,if_neg hb]
    simp only
    rw [if_pos (by omega)]
    rfl

theorem Models.writeFar (m : Models layout h f) {env : FileEnv} {buffer : List UInt8} {r : Except HandleError Nat}
    (hr : rtfsFileWrite env h buffer = (r,h')) (hne : r ≠ .error .ebadf)
    (hfar : maxFileBytes + 4096 ≤ h.writeStart.toUInt64.toNat) (hb : buffer ≠ []) :
    ∃ f', OpenFile.Step 4096 (2 ^ 63) f (.write buffer false r.toOption) f' ∧ Models layout h' f' := by
  have haccess := m.writable hr hne
  rw [rtfsFileWrite,if_neg (m.access.symm ▸ haccess),if_neg (offset_nat m.start).2,write_far hfar hb] at hr
  cases hr
  exact ⟨f,.writeFailed haccess,m⟩

theorem Models.seek (m : Models layout h f) {offset : Int64} {whence : Whence} {r : Except HandleError Int64}
    (hr : rtfsFileLseek h offset whence = (r,h')) :
    ∃ f', OpenFile.Step 4096 (2 ^ 63) f (.seek whence offset.toInt (r.toOption.map (fun x => x.toInt.toNat))) f' ∧
      Models layout h' f' := by
  have hbase := m.base whence
  obtain ⟨hlow,hhigh,hfits⟩ := @seek_spec (h.seekBase whence) offset (by omega)
  rw [hbase] at hlow hhigh hfits
  unfold rtfsFileLseek at hr
  by_cases h0 : (f.base whence : Int) + offset.toInt < 0
  · rw [hlow h0] at hr
    cases hr
    exact ⟨f,.seekRefused (.inl h0),m⟩
  by_cases h1 : 2 ^ 63 ≤ (f.base whence : Int) + offset.toInt
  · rw [hhigh h1] at hr
    cases hr
    exact ⟨f,.seekRefused (.inr h1),m⟩
  · obtain ⟨hok,hsum⟩ := hfits (not_lt.mp h0) (not_le.mp h1)
    rw [hok] at hr
    cases hr
    have hn : ((h.seekBase whence + offset).toInt.toNat : Int) = (h.seekBase whence + offset).toInt :=
      Int.toNat_of_nonneg (by omega)
    have htarget : (f.base whence : Int) + offset.toInt = ((h.seekBase whence + offset).toInt.toNat : Int) := by omega
    have hlt : (h.seekBase whence + offset).toInt.toNat < 2 ^ 63 := by omega
    exact ⟨_,.seek htarget hlt,m.file,m.saved,m.access,m.append,hn.symm,m.syncFailed⟩

theorem Models.truncate (m : Models layout h f) (ha : layout.Areas) (hN : layout.segmentCount.toNat < 8388608)
    {fails : UInt32 → Option Errno} {realloc : Nat → Bool} {length : Int64}
    (hr : rtfsFileFtruncate (fileEnv h.s.dev fails realloc) h length = (.ok (),h'))
    (ht : length.toUInt64.toNat ≤ maxFileBytes) :
    ∃ f', OpenFile.Step 4096 (2 ^ 63) f (.truncate length.toUInt64.toNat) f' ∧ Models layout h' f' := by
  unfold rtfsFileFtruncate at hr
  split at hr
  · cases hr
  split at hr
  · cases hr
  rename_i _ haccess
  rw [m.access] at haccess
  rcases htrunc : rtfsFileInodeTruncate (fileEnv h.s.dev fails realloc) h.s.file length.toUInt64 with ⟨x,g⟩
  rw [htrunc] at hr
  cases x with
  | error e => cases hr
  | ok u =>
    cases hr
    obtain ⟨F',hstep,hok⟩ := (FileStep.truncate fails realloc ht htrunc).ok ha hN m.file
    obtain ⟨hpages,hresized⟩ := m.file.pages.truncate fails realloc ht htrunc
    have hdurable := m.saved.truncated hresized hpages.tree (truncate_sized htrunc)
    rw [sizeToBlock_small ht] at hdurable
    cases hstep
    exact ⟨_,.truncate haccess,hok,hdurable,m.access,m.append,m.offset,m.syncFailed⟩

end Step

section Sync
variable {layout : RtfsMkfsLayout} {s s' : FileState} {F F₀ : ByteFile} {pages : DirtyPages}
  {r : Except Errno (List UInt32)}

structure Commits (layout : RtfsMkfsLayout) (F F₀ : ByteFile) (r : Except Errno (List UInt32)) (s' : FileState) : Prop where
  file : FileOk layout s' F
  saved : Durable s' F ∨ Durable s' F₀ ∧ ∃ e, r = .error e

theorem internal_commits (ha : layout.Areas) (hN : layout.segmentCount.toNat < 8388608) (hok : FileOk layout s F)
    (hd : Durable s F₀) (hl : ListsDirty pages s.file.pageCache) {env : FileCommitEnv}
    (hc : rtfsFileInodeCommitCowWritebackInternal env pages s = some (r,s')) (hidle : s'.pending.items = []) :
    Commits layout F F₀ r s' := by
  have hends := commit_ends ha hN hok hl hc hidle
  exact ⟨hends.ok hok hl hidle,hends.saves hok hl hidle hd⟩

theorem writeback_commits (ha : layout.Areas) (hN : layout.segmentCount.toNat < 8388608) (hok : FileOk layout s F)
    (hd : Durable s F₀) (hl : ListsDirty pages s.file.pageCache) {env : SyncEnv}
    (hc : rtfsFileInodeCommitCowWriteback env pages s = some (r,s')) (hidle : s'.pending.items = []) :
    Commits layout F F₀ r s' := by
  unfold rtfsFileInodeCommitCowWriteback at hc
  cases hdrained : env.drained with
  | some e =>
    rw [hdrained] at hc
    cases hc
    exact ⟨hok,.inr ⟨hd,e,rfl⟩⟩
  | none =>
    rw [hdrained] at hc
    exact internal_commits ha hN hok hd hl hc hidle

theorem writeback_idle {env : SyncEnv} {old : List UInt32}
    (hc : rtfsFileInodeCommitCowWriteback env pages s = some (.ok old,s')) : s'.pending.items = [] := by
  unfold rtfsFileInodeCommitCowWriteback at hc
  cases hdrained : env.drained with
  | some e =>
    rw [hdrained] at hc
    cases hc
  | none =>
    rw [hdrained] at hc
    exact committed_idle hc

theorem Commits.durable {old : List UInt32} (hc : Commits layout F F₀ (.ok old) s') : Durable s' F :=
  hc.saved.resolve_right (fun ⟨_,e,he⟩ => by cases he)

theorem Models.synced {h : RtfsFileHandle} {f : OpenFile} (m : Models layout h f)
    (hc : Commits layout f.current f.saved r s') :
    ∃ f', OpenFile.Step 4096 (2 ^ 63) f (.sync (h.synced (r,s')).1.isOk) f' ∧
      Models layout (h.synced (r,s')).2 f' := by
  cases r with
  | ok old => exact ⟨_,.synced,hc.file,hc.durable,m.access,m.append,m.offset,rfl⟩
  | error e =>
    rcases hc.saved with hd | ⟨hd,-⟩
    · exact ⟨_,.syncLost,hc.file,hd,m.access,m.append,m.offset,rfl⟩
    · exact ⟨_,.syncFailed,hc.file,hd,m.access,m.append,m.offset,rfl⟩

end Sync

section Reopen
variable {layout : RtfsMkfsLayout} {s : FileState} {F : ByteFile} {oflag : OpenFlags}

theorem resize_zero (F : ByteFile) : F.resize 0 = .empty := ByteFile.ext rfl (fun i => by simp [ByteFile.resize,ByteFile.empty])

theorem openedHandle_models (hok : FileOk layout s F) (hd : Durable s F) :
    Models layout (openedHandle oflag s) (OpenFile.opened F oflag.access oflag.append) := by
  refine ⟨hok,hd,rfl,rfl,?_,rfl⟩
  unfold openedHandle OpenFile.opened
  simp only
  split
  · exact size_offset hok
  · rfl

theorem open_models (ha : layout.Areas) (hN : layout.segmentCount.toNat < 8388608) {fails : UInt32 → Option Errno}
    {realloc : Nat → Bool} {env : SyncEnv} {pages : DirtyPages} {h : RtfsFileHandle} (hd : Durable s F)
    (hspace : LpaInv layout ⟨s.fs,[]⟩) (hroom : ∀ lpa < layout.blockCount, s.dev.Holds lpa)
    (hl : ∀ f, rtfsFileInodeTruncate (fileEnv s.dev fails realloc) s.rtfsFileInodeBuild.file 0 = (.ok (),f) →
      ListsDirty pages f.pageCache)
    (hopen : rtfsFileOpen (fileEnv s.dev fails realloc) env pages oflag s = some (.ok h)) :
    (oflag.trunc = true → oflag.access ≠ .rdonly) ∧
      Models layout h (OpenFile.opened (OpenFile.truncated oflag.trunc F) oflag.access oflag.append) := by
  have hok : FileOk layout s.rtfsFileInodeBuild F := hd.opened.ok hspace hroom
  unfold rtfsFileOpen at hopen
  by_cases htrunc : oflag.trunc = true
  · by_cases hro : oflag.access = .rdonly
    · rw [if_pos ⟨htrunc,hro⟩] at hopen
      cases hopen
    · refine ⟨fun _ => hro,?_⟩
      rw [if_neg (fun hand => hro hand.2),if_pos htrunc] at hopen
      rw [htrunc]
      rcases hcut : rtfsFileInodeTruncate (fileEnv s.dev fails realloc) s.rtfsFileInodeBuild.file 0 with ⟨x,g⟩
      rw [hcut] at hopen
      cases x with
      | error e => cases hopen
      | ok u =>
        obtain ⟨⟨r,s'⟩,hc,hend⟩ := Option.map_eq_some_iff.mp hopen
        cases r with
        | error e => cases hend
        | ok old =>
          cases hend
          obtain ⟨F',hstep,hok'⟩ := (FileStep.truncate fails realloc (by decide) hcut).ok ha hN hok
          cases hstep
          obtain ⟨hpages,hresized⟩ := hok.pages.truncate fails realloc (by decide) hcut
          have hd' := hd.rebuilt.truncated hresized hpages.tree (truncate_sized hcut)
          have hcommits := writeback_commits ha hN hok' hd' (hl g hcut) hc (writeback_idle hc)
          have hempty := @openedHandle_models _ _ _ oflag hcommits.file hcommits.durable
          rw [show (0 : UInt64).toNat = 0 from rfl,resize_zero] at hempty
          exact hempty
  · refine ⟨fun ht => absurd ht htrunc,?_⟩
    rw [if_neg (fun hand => htrunc hand.1),if_neg htrunc] at hopen
    cases hopen
    rw [Bool.eq_false_iff.mpr htrunc]
    exact openedHandle_models hok hd.rebuilt

end Reopen

section Run
variable {layout : RtfsMkfsLayout} {h h' : RtfsFileHandle} {f : OpenFile}

theorem Models.closed (m : Models layout h f) (ha : layout.Areas) (hN : layout.segmentCount.toNat < 8388608)
    {env : SyncEnv} {pages : DirtyPages} {r : Except Errno Unit} {s : FileState}
    (hl : ListsDirty pages h.s.file.pageCache) (hc : rtfsFileClose env pages h = some (r,s))
    (hidle : s.pending.items = []) : ∃ F, Durable s F ∧ ∀ access append trunc, (trunc = true → access ≠ .rdonly) →
      OpenFile.Step 4096 (2 ^ 63) f (.reopen r.isOk access append trunc)
        (OpenFile.opened (OpenFile.truncated trunc F) access append) := by
  unfold rtfsFileClose at hc
  by_cases hs : h.syncFailed = true
  · rw [if_pos hs] at hc
    cases hc
    exact ⟨f.saved,m.saved,fun _ _ _ ht => .dropped (m.syncFailed.symm.trans hs) ht⟩
  · rw [if_neg hs] at hc
    have hf : f.syncFailed = false := m.syncFailed.symm.trans (Bool.eq_false_iff.mpr hs)
    obtain ⟨⟨x,s'⟩,hcommit,hend⟩ := Option.map_eq_some_iff.mp hc
    cases hend
    have hcommits := writeback_commits ha hN m.file m.saved hl hcommit hidle
    cases x with
    | ok old => exact ⟨f.current,hcommits.durable,fun _ _ _ ht => .closed hf ht⟩
    | error e =>
      rcases hcommits.saved with hd | ⟨hd,-⟩
      · exact ⟨f.current,hd,fun _ _ _ ht => .closeLost hf ht⟩
      · exact ⟨f.saved,hd,fun _ _ _ ht => .closeFailed hf ht⟩

theorem HandleStep.models (ha : layout.Areas) (hN : layout.segmentCount.toNat < 8388608) {ev : OpenFile.Event}
    (hs : HandleStep layout h ev h') (m : Models layout h f) :
    ∃ f', OpenFile.Step 4096 (2 ^ 63) f ev f' ∧ Models layout h' f' := by
  cases hs with
  | read fails realloc count served hr hne hserved => exact m.read ha hN hr hne hserved
  | readDenied hr =>
    obtain ⟨hw,rfl⟩ := read_denied hr
    exact ⟨f,.readDenied (m.access.symm.trans hw),m⟩
  | write fails realloc buffer served hr hne hend hserved => exact m.write ha hN hr hne hend hserved
  | writeFar buffer hr hne hfar hb => exact m.writeFar hr hne hfar hb
  | writeDenied hr =>
    obtain ⟨hro,rfl⟩ := write_denied hr
    exact ⟨f,.changeDenied (m.access.symm.trans hro),m⟩
  | seek offset whence hr => exact m.seek hr
  | truncate fails realloc hr ht => exact m.truncate ha hN hr ht
  | truncateDenied hr =>
    obtain ⟨hro,rfl⟩ := truncate_denied hr
    exact ⟨f,.changeDenied (m.access.symm.trans hro),m⟩
  | fsync hl hr hidle =>
    obtain ⟨⟨x,s'⟩,hc,hend⟩ := Option.map_eq_some_iff.mp hr
    have hs' : h'.s = s' := by
      cases x <;> cases hend <;> rfl
    have hmodels := m.synced (writeback_commits ha hN m.file m.saved hl hc (hs' ▸ hidle))
    rw [hend] at hmodels
    exact hmodels
  | fdatasync hl hr hidle =>
    obtain ⟨⟨x,s'⟩,hc,hend⟩ := Option.map_eq_some_iff.mp hr
    have hs' : h'.s = s' := by
      cases x <;> cases hend <;> rfl
    have hmodels := m.synced (internal_commits ha hN m.file m.saved hl hc (hs' ▸ hidle))
    rw [hend] at hmodels
    exact hmodels
  | @reopen _ _ _ _ _ s fs dev fails realloc oflag _ hl hclose hidle hout hl' hopen =>
    obtain ⟨F,hd,hstep⟩ := m.closed ha hN hl hclose hidle
    have hd' : Durable { s with fs := fs, dev := dev } F := hd.moved ⟨rfl,rfl⟩ rfl hout.kept hd.sized
    obtain ⟨ht,hmodels⟩ := open_models ha hN hd' hout.space hout.room hl' hopen
    exact ⟨_,hstep _ _ _ ht,hmodels⟩
  | evict victim hv =>
    obtain ⟨F',hstep,hok⟩ := (FileStep.evict victim hv).ok ha hN m.file
    cases hstep
    exact ⟨f,.keep,hok,m.saved.stays m.file ⟨rfl,rfl⟩ (.inr ⟨rfl,rfl⟩),m.access,m.append,m.offset,m.syncFailed⟩
  | outside ho =>
    obtain ⟨F',hstep,hok⟩ := (FileStep.outside ho).ok ha hN m.file
    cases hstep
    exact ⟨f,.keep,hok,m.saved.moved ⟨rfl,rfl⟩ rfl ho.kept m.saved.sized,m.access,m.append,m.offset,m.syncFailed⟩

end Run

theorem handle_refines_open_file (options : RtfsMkfsOptions) (layout : RtfsMkfsLayout) (image : FsMeta)
    (s : FileState) (h : RtfsFileHandle) (F : ByteFile) (returned : List UInt32) (oflag : OpenFlags)
    (events : List OpenFile.Event) (hmkfs : MkfsImage options layout image)
    (hfs : Relation.ReflTransGen LpaStep ⟨image,[]⟩ ⟨s.fs,returned⟩)
    (hroom : ∀ lpa < layout.blockCount, s.dev.Holds lpa) (hopen : Opened s.rtfsFileInodeBuild F)
    (hrun : Labelled.Run (HandleStep layout) (openedHandle oflag s.rtfsFileInodeBuild) events h) :
    ∃ f, Labelled.Run (OpenFile.Step 4096 (2 ^ 63)) (OpenFile.opened F oflag.access oflag.append) events f ∧
      Opened h.s.rtfsFileInodeBuild f.saved := by
  obtain ⟨ha,hN,hspace⟩ := @image_writable options layout image
    ⟨s.fs,s.dev,⟨[],.nil,by decide⟩,s.pending⟩ returned hmkfs hfs hroom
  obtain ⟨f,hspec,hmodels⟩ := hrun.simulates (R := Models layout) (fun _ _ _ _ m hs => hs.models ha hN m)
    (openedHandle_models (hopen.ok hspace hroom) ⟨hopen,.inr rfl⟩)
  exact ⟨f,hspec,hmodels.saved.opened⟩

section New

section Steps
variable {layout : RtfsMkfsLayout} {h : RtfsFileHandle} (fails : UInt32 → Option Errno) (realloc : Nat → Bool)

theorem ne_of_toOption {α : Type} {r : Except HandleError α} {a : α} (hr : r.toOption = some a) : r ≠ .error .ebadf := by
  rintro rfl
  cases hr

theorem handle_write_step {buffer : List UInt8} {n : Nat}
    (hend : h.writeStart.toUInt64.toNat + buffer.length ≤ maxFileBytes)
    (hs : ∀ i < buffer.length, (pageContent (fileEnv h.s.dev fails realloc) h.s.file
      (UInt32.ofNat ((h.writeStart.toUInt64.toNat + i) / 4096))).toOption.isSome = true)
    (hr : (rtfsFileWrite (fileEnv h.s.dev fails realloc) h buffer).1.toOption = some n) :
    HandleStep layout h (.write buffer true (some n)) (rtfsFileWrite (fileEnv h.s.dev fails realloc) h buffer).2 :=
  hr ▸ .write fails realloc buffer true rfl (ne_of_toOption hr) hend (fun _ => served_of_pages hs)

theorem handle_read_step {count : Nat} {bytes : List UInt8}
    (hs : ∀ i < count, (pageContent (fileEnv h.s.dev fails realloc) h.s.file
      (UInt32.ofNat ((h.offset.toUInt64.toNat + i) / 4096))).toOption.isSome = true)
    (hr : (rtfsFileRead (fileEnv h.s.dev fails realloc) h count).1.toOption = some bytes) :
    HandleStep layout h (.read count true (some bytes)) (rtfsFileRead (fileEnv h.s.dev fails realloc) h count).2 :=
  hr ▸ .read fails realloc count true rfl (ne_of_toOption hr) (fun _ => served_of_pages hs)

def RtfsFileHandle.datasynced (env : FileCommitEnv) (pages : DirtyPages) (h : RtfsFileHandle) : RtfsFileHandle :=
  ((rtfsFileFdatasync env pages h).map Prod.snd).getD h

theorem datasync_step {env : FileCommitEnv} {pages : DirtyPages} {ok : Bool}
    (hl : ListsDirty pages h.s.file.pageCache)
    (hr : (rtfsFileFdatasync env pages h).map (fun r => (r.1.isOk,r.2.s.pending.items.isEmpty)) = some (ok,true)) :
    HandleStep layout h (.sync ok) (h.datasynced env pages) := by
  obtain ⟨⟨r,h'⟩,hcall,hends⟩ := Option.map_eq_some_iff.mp hr
  obtain ⟨rfl,hidle⟩ := Prod.mk.inj hends
  unfold RtfsFileHandle.datasynced
  rw [hcall]
  exact .fdatasync hl hcall (List.isEmpty_iff.mp hidle)

end Steps

def newHandle : RtfsFileHandle := openedHandle ⟨.rdwr,false,false⟩ newFileState.rtfsFileInodeBuild

def newEnv : FileEnv := fileEnv newFileState.dev (fun _ => none) (fun _ => true)

def soughtHandle : RtfsFileHandle := { newHandle with offset := 4090 }

def wroteHandle : RtfsFileHandle := (rtfsFileWrite newEnv soughtHandle (List.replicate 10 7)).2

def savedHandle : RtfsFileHandle := wroteHandle.datasynced ⟨⟨true,true,fun _ => true,fun _ => true⟩,true,none⟩
  (listedPages wroteHandle.s.file.pageCache [0,1] two_sorted two_short)

def rewroteHandle : RtfsFileHandle := (rtfsFileWrite (fileEnv savedHandle.s.dev (fun _ => none) (fun _ => true))
  savedHandle (List.replicate 5 9)).2

def unsavedHandle : RtfsFileHandle := rewroteHandle.datasynced ⟨⟨false,true,fun _ => true,fun _ => true⟩,true,none⟩
  (listedPages rewroteHandle.s.file.pageCache [0,1] two_sorted two_short)

def syncedEnv : SyncEnv := ⟨none,⟨⟨true,true,fun _ => true,fun _ => true⟩,true,none⟩⟩

def reopenedHandle : RtfsFileHandle := openedHandle ⟨.rdonly,false,false⟩ unsavedHandle.s.rtfsFileInodeBuild

def backHandle : RtfsFileHandle := { reopenedHandle with offset := 4085 }

-- the bytes of a failed sync are gone when the file is opened again, those saved before are read
theorem newFile_seek_write : ∃ (h : RtfsFileHandle) (f : OpenFile),
    Labelled.Run (OpenFile.Step 4096 (2 ^ 63)) (OpenFile.opened .empty .rdwr false)
    [.seek .cur (-1) none,.seek .set 4090 (some 4090),.write (List.replicate 10 7) true (some 10),.sync true,
      .write (List.replicate 5 9) true (some 5),.sync false,.reopen true .rdonly false false,
      .seek .set 4085 (some 4085),.read 20 true (some (List.replicate 5 0 ++ List.replicate 10 7))] f ∧
      Opened h.s.rtfsFileInodeBuild f.saved := by
  obtain ⟨ha,hN,hspace⟩ := @image_writable smallOptions smallLayout smallMeta
    ⟨newFileState.fs,newFileState.dev,⟨[],.nil,by decide⟩,newFileState.pending⟩ [] smallMeta_image .refl
    (smallDev_holds _)
  have hstart : Models smallLayout newHandle (OpenFile.opened .empty .rdwr false) :=
    openedHandle_models (newFile_opened.ok hspace (smallDev_holds _)) ⟨newFile_opened,.inr rfl⟩
  have hback : rtfsFileLseek newHandle (-1) .cur = (.error .einval,newHandle) := by rfl
  have hseek : rtfsFileLseek newHandle 4090 .set = (.ok 4090,soughtHandle) := by rfl
  have hwrite : Labelled.Run (HandleStep smallLayout) newHandle [.seek .cur (-1) none,.seek .set 4090 (some 4090),
      .write (List.replicate 10 7) true (some 10)] wroteHandle :=
    .cons (.seek (-1) .cur hback) (.cons (.seek 4090 .set hseek)
      (.cons (handle_write_step (fun _ => none) (fun _ => true) (by decide +kernel)
        (by decide +kernel) (by decide +kernel)) .nil))
  obtain ⟨f₁,-,m₁⟩ := hwrite.simulates (fun _ _ _ _ m hs => hs.models ha hN m) hstart
  have hsaved : HandleStep smallLayout wroteHandle (.sync true) savedHandle :=
    datasync_step (listed_dirty [0,1] _ _ (fun b hd => small_block m₁.file.pages 2 (by decide +kernel) le_rfl hd))
      (by decide +kernel)
  have hrewrite : Labelled.Run (HandleStep smallLayout) wroteHandle
      [.sync true,.write (List.replicate 5 9) true (some 5)] rewroteHandle :=
    .cons hsaved (.cons (handle_write_step (fun _ => none) (fun _ => true) (by decide +kernel)
      (by decide +kernel) (by decide +kernel)) .nil)
  obtain ⟨f₂,-,m₂⟩ := hrewrite.simulates (fun _ _ _ _ m hs => hs.models ha hN m) m₁
  have hfailed : HandleStep smallLayout rewroteHandle (.sync false) unsavedHandle :=
    datasync_step (listed_dirty [0,1] _ _ (fun b hd => small_block m₂.file.pages 2 (by decide +kernel) le_rfl hd))
      (by decide +kernel)
  obtain ⟨f₃,-,m₃⟩ := hfailed.models ha hN m₂
  have hbuilt := m₃.saved.opened.ok m₃.file.space m₃.file.room
  have hreopen : HandleStep smallLayout unsavedHandle (.reopen true .rdonly false false) reopenedHandle := by
    refine @HandleStep.reopen _ _ syncedEnv syncedEnv
      (listedPages unsavedHandle.s.file.pageCache [0,1] two_sorted two_short) ⟨[],.nil,by decide⟩ (.ok ())
      unsavedHandle.s unsavedHandle.s.fs unsavedHandle.s.dev (fun _ => none) (fun _ => true) ⟨.rdonly,false,false⟩ _
      (listed_dirty [0,1] _ _ (fun b hd => small_block m₃.file.pages 2 (by decide +kernel) le_rfl hd))
      ?_ m₃.file.idle ?_ (fun f hcut => ?_) rfl
    · have hflag : unsavedHandle.syncFailed = true := by decide +kernel
      exact if_pos hflag
    · exact ⟨m₃.file.space,m₃.file.room,fun b lpa hres hz =>
        ⟨hbuilt.live b lpa hres hz,rfl,hbuilt.pages.held b lpa hres hz⟩,fun lpa hin => (by cases hin)⟩
    · have hcleared := (hbuilt.pages.truncate (fun _ => none) (fun _ => true) (by decide) hcut).1
      have hsize : f.iSize = 0 := UInt64.toNat_inj.mp hcleared.size.symm
      refine listed_dirty [] .nil (by decide) (fun b hd => ?_)
      have hlt := hcleared.dirtyIn b hd
      rw [hsize] at hlt
      exact absurd hlt (Nat.not_lt_zero _)
  have hseek' : rtfsFileLseek reopenedHandle 4085 .set = (.ok 4085,backHandle) := by rfl
  have hread : Labelled.Run (HandleStep smallLayout) rewroteHandle [.sync false,.reopen true .rdonly false false,
      .seek .set 4085 (some 4085),.read 20 true (some (List.replicate 5 0 ++ List.replicate 10 7))] _ :=
    .cons hfailed (.cons hreopen (.cons (.seek 4085 .set hseek')
      (.cons (handle_read_step (fun _ => none) (fun _ => true) (by decide +kernel)
        (by decide +kernel)) .nil)))
  exact ⟨_,handle_refines_open_file smallOptions smallLayout _ newFileState _ .empty [] ⟨.rdwr,false,false⟩ _
    smallMeta_image .refl (smallDev_holds _) newFile_opened ((hwrite.append hrewrite).append hread)⟩

end New

end FileHandler

end Rtfs
