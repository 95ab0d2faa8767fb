import Rtfs.Inode.FileBytes

namespace Rtfs

open DirEntries (sizeToBlock)

-- the object that the next open builds over the volume
def FileState.rtfsFileInodeBuild (s : FileState) : FileState :=
  { s with file := ⟨s.file.ino,s.diskSize,s.file.nodes,fun _ => none,GrowArray.empty,false⟩, pending := ⟨[],0⟩ }

structure Durable (s : FileState) (F : ByteFile) : Prop where
  opened : Opened s.rtfsFileInodeBuild F
  sized : s.file.isDirty = true ∨ s.file.iSize = s.diskSize

section Flags
variable {env : FileEnv} {f : RtfsFileInode}

theorem prepareRead_keeps (env : FileEnv) (f : RtfsFileInode) (b : UInt32) :
    (rtfsFileInodePreparePageForRead env f b).2.isDirty = f.isDirty ∧
      (rtfsFileInodePreparePageForRead env f b).2.iSize = f.iSize := by
  unfold rtfsFileInodePreparePageForRead
  simp only
  split
  · exact ⟨rfl,rfl⟩
  split
  · exact ⟨rfl,rfl⟩
  split <;> exact ⟨rfl,rfl⟩

theorem readChunks_isDirty (env : FileEnv) (f : RtfsFileInode) (off readable : Nat) :
    (readChunks env f off readable).2.isDirty = f.isDirty := by
  induction readable using Nat.strongRecOn generalizing off f with
  | ind readable ih =>
    rw [readChunks.eq_def]
    split
    · rfl
    · rename_i hpos
      simp only
      split
      · rfl
      · have hprep := (prepareRead_keeps env f (UInt32.ofNat (off / 4096))).1
        rcases hr : rtfsFileInodePreparePageForRead env f (UInt32.ofNat (off / 4096)) with ⟨r,g⟩
        rw [hr] at hprep
        have hmod := Nat.mod_lt off (show 0 < 4096 by decide)
        cases r with
        | error e => exact hprep
        | ok entry => exact (ih _ (by omega) g _).trans hprep

theorem read_isDirty (env : FileEnv) (f : RtfsFileInode) (off count : Nat) :
    (rtfsFileInodeRead env f off count).2.isDirty = f.isDirty := by
  unfold rtfsFileInodeRead
  split
  · rfl
  split
  · rfl
  · have hflag := readChunks_isDirty env f off (min (f.iSize.toNat - off) count)
    rcases hr : readChunks env f off (min (f.iSize.toNat - off) count) with ⟨⟨bytes,stop⟩,g⟩
    rw [hr] at hflag
    cases bytes <;> cases stop <;> exact hflag

theorem prepareWrite_keeps (env : FileEnv) (f : RtfsFileInode) (b : UInt32) (keep : Bool) :
    (rtfsFileInodePreparePageForWrite env f b keep).2.isDirty = f.isDirty ∧
      (rtfsFileInodePreparePageForWrite env f b keep).2.iSize = f.iSize := by
  unfold rtfsFileInodePreparePageForWrite
  split
  · exact prepareRead_keeps env f b
  · simp only
    split
    · exact ⟨rfl,rfl⟩
    split
    · exact ⟨rfl,rfl⟩
    split <;> exact ⟨rfl,rfl⟩

theorem write_sized (env : FileEnv) (f : RtfsFileInode) (off : Nat) (buffer : List UInt8) :
    (rtfsFileInodeWrite env f off buffer).2.isDirty = true ∨
      (rtfsFileInodeWrite env f off buffer).2.isDirty = f.isDirty ∧
        (rtfsFileInodeWrite env f off buffer).2.iSize = f.iSize := by
  unfold rtfsFileInodeWrite
  split
  · exact .inr ⟨rfl,rfl⟩
  split
  · exact .inr ⟨rfl,rfl⟩
  · rename_i hne _
    have hpos := List.length_pos_of_ne_nil hne
    have hmod := Nat.mod_lt off (show 0 < 4096 by decide)
    rcases hr : writeChunks env f off buffer with ⟨⟨n,stop⟩,g⟩
    cases stop with
    | none => cases n <;> exact .inl rfl
    | some e =>
      cases n with
      | succ n => exact .inl rfl
      | zero =>
        right
        rw [writeChunks.eq_def,if_neg hne] at hr
        simp only at hr
        split at hr
        · cases hr
          exact ⟨rfl,rfl⟩
        · have hkeep := prepareWrite_keeps env f (UInt32.ofNat (off / 4096))
            (decide (off % 4096 ≠ 0 ∨ min (4096 - off % 4096) buffer.length ≠ 4096))
          rcases hp : rtfsFileInodePreparePageForWrite env f (UInt32.ofNat (off / 4096))
            (decide (off % 4096 ≠ 0 ∨ min (4096 - off % 4096) buffer.length ≠ 4096)) with ⟨x,g'⟩
          rw [hp] at hr hkeep
          cases x with
          | error e' =>
            cases hr
            exact hkeep
          | ok entry =>
            have hn := congrArg (fun x => x.1.1) hr
            simp only at hn
            omega

theorem truncate_sized {targetSize : UInt64} {f' : RtfsFileInode}
    (h : rtfsFileInodeTruncate env f targetSize = (.ok (),f')) : f' = f ∨ f'.isDirty = true := by
  unfold rtfsFileInodeTruncate at h
  split at h
  · cases h
    exact .inl rfl
  split at h
  · cases h
    exact .inr rfl
  simp only at h
  split at h
  · cases h
  · split at h
    · cases h
    · cases h
      exact .inr rfl

end Flags

section Durable
variable {layout : RtfsMkfsLayout} {s s' : FileState} {F F₀ : ByteFile} {pages : DirtyPages}
  {r : Except Errno (List UInt32)}

theorem FileOk.opened (h : FileOk layout s F) (hclean : ∀ b, (pageCacheGet s.file.pageCache b).isDirty = false)
    (hsize : s.file.iSize = s.diskSize) : Opened s.rtfsFileInodeBuild F where
  tree := h.pages.tree
  size := h.pages.size.trans (congrArg UInt64.toNat hsize)
  bound := h.pages.bound
  cache := rfl
  stored b lpa hres := (h.pages.pages b).stored (hclean b) lpa hres
  holes b lpa hres hb := h.pages.holes b lpa hres (le_of_eq_of_le (congrArg sizeToBlock hsize) hb)
  live b lpa hres hz := ⟨h.live b lpa hres hz,h.pages.held b lpa hres hz⟩
  idle := rfl

theorem Durable.moved (h : Durable s F₀) (hindex : s'.file.nodes = s.file.nodes ∧ s'.file.ino = s.file.ino)
    (hdisk : s'.diskSize = s.diskSize)
    (hkept : ∀ b lpa, rtfsFileResolveDataLpaByBlockIndex s.file.nodes s.file.ino b = .ok lpa → lpa ≠ invalidLpa →
      lpaBit s'.fs lpa = true ∧ s'.dev.blocks lpa.toNat = s.dev.blocks lpa.toNat ∧ s'.dev.Holds lpa.toNat)
    (hsized : s'.file.isDirty = true ∨ s'.file.iSize = s'.diskSize) : Durable s' F₀ := by
  obtain ⟨hnodes,hino⟩ := hindex
  have hres {b lpa : UInt32} (hr : rtfsFileResolveDataLpaByBlockIndex s'.file.nodes s'.file.ino b = .ok lpa) :
      rtfsFileResolveDataLpaByBlockIndex s.file.nodes s.file.ino b = .ok lpa := by
    rw [← hnodes,← hino]
    exact hr
  refine ⟨⟨?_,h.opened.size.trans (congrArg UInt64.toNat hdisk.symm),h.opened.bound,rfl,fun b lpa hr => ?_,
    fun b lpa hr hb => h.opened.holes b lpa (hres hr) (le_of_eq_of_le (congrArg sizeToBlock hdisk.symm) hb),
    fun b lpa hr hz => ?_,rfl⟩,hsized⟩
  · change IndexTree s'.file.nodes s'.file.ino
    rw [hnodes,hino]
    exact h.opened.tree
  · have hold := h.opened.stored b lpa (hres hr)
    unfold storedPage at hold ⊢
    split at hold
    · rename_i hz
      rw [if_pos hz]
      exact hold
    · rename_i hz
      rw [if_neg hz]
      change PageHolds F₀ b (s'.dev.blocks lpa.toNat)
      rw [(hkept b lpa (hres hr) hz).2.1]
      exact hold
  · obtain ⟨hbit,-,hheld⟩ := hkept b lpa (hres hr) hz
    exact ⟨hbit,hheld⟩

theorem Durable.stays (h : Durable s F₀) (hok : FileOk layout s F) {file : RtfsFileInode}
    (hindex : file.nodes = s.file.nodes ∧ file.ino = s.file.ino)
    (hsized : file.isDirty = true ∨ file.isDirty = s.file.isDirty ∧ file.iSize = s.file.iSize) :
    Durable { s with file := file } F₀ := by
  refine h.moved hindex rfl (fun b lpa hr hz => ⟨hok.live b lpa hr hz,rfl,hok.pages.held b lpa hr hz⟩) ?_
  rcases hsized with hd | ⟨hd,hs⟩
  · exact .inl hd
  · simp only [hd,hs]
    exact h.sized

theorem Durable.rebuilt (h : Durable s F₀) : Durable s.rtfsFileInodeBuild F₀ := ⟨h.opened,.inr rfl⟩

theorem CommitEnds.leaves (hc : CommitEnds layout pages s r s') {lpa : UInt32} (hbit : lpaBit s.fs lpa = true) :
    lpaBit s'.fs lpa = true ∧ s'.dev.blocks lpa.toNat = s.dev.blocks lpa.toNat ∧
      (s.dev.Holds lpa.toNat → s'.dev.Holds lpa.toNat) := by
  have hends {w : WriteBackState} {r₀ : Option Errno} (hw : WriteBackEnds layout ⟨s.fs,s.dev,pages,s.pending⟩ r₀ w)
      (hfs : s'.fs = w.fs) (hdev : s'.dev = w.dev) : lpaBit s'.fs lpa = true ∧
        s'.dev.blocks lpa.toNat = s.dev.blocks lpa.toNat ∧ (s.dev.Holds lpa.toNat → s'.dev.Holds lpa.toNat) := by
    rw [hfs,hdev]
    refine ⟨hw.bits lpa hbit,hw.blocks lpa hbit,fun hh => ?_⟩
    unfold CommDev.Holds at hh ⊢
    rw [hw.blockCount]
    exact hh
  cases hc with
  | kept w r₀ hw hfs hdev _ _ _ => exact hends hw hfs hdev
  | moved w lpas g hw hfs hdev _ _ _ _ _ _ _ _ => exact hends hw hfs hdev

theorem Durable.held (h : Durable s F₀) (hc : CommitEnds layout pages s r s') (b lpa : UInt32)
    (hr : rtfsFileResolveDataLpaByBlockIndex s.file.nodes s.file.ino b = .ok lpa) (hz : lpa ≠ invalidLpa) :
    lpaBit s'.fs lpa = true ∧ s'.dev.blocks lpa.toNat = s.dev.blocks lpa.toNat ∧ s'.dev.Holds lpa.toNat := by
  obtain ⟨hbit,hheld⟩ := h.opened.live b lpa hr hz
  obtain ⟨hbit',hsame,hkeep⟩ := hc.leaves hbit
  exact ⟨hbit',hsame,hkeep hheld⟩

theorem CommitEnds.saves (hc : CommitEnds layout pages s r s') (h : FileOk layout s F)
    (hl : ListsDirty pages s.file.pageCache) (hidle : s'.pending.items = []) (hd : Durable s F₀) :
    Durable s' F ∨ Durable s' F₀ ∧ ∃ e, r = .error e := by
  have hok := hc.ok h hl hidle
  have hheld := hd.held hc
  cases hc with
  | kept w r₀ hw hfs hdev hfile hdisk hr =>
    refine .inr ⟨hd.moved ⟨by rw [hfile],by rw [hfile]⟩ hdisk hheld ?_,hr⟩
    rw [hfile,hdisk]
    exact hd.sized
  | moved w lpas g hw hfs hdev hlpas _ hg hsame hdisk hcache hfailed hold =>
    obtain ⟨hnodes,hino,hsize⟩ := hsame
    have hsized : s'.file.iSize = s'.diskSize := by
      rw [hsize,hg.only.2.1,hdisk.2]
      rcases hd.sized with hdirty | hs
      · rw [if_pos hdirty]
      · split
        · rfl
        · exact hs
    refine .inl ⟨hok.opened (fun b => ?_) hsized,.inr hsized⟩
    cases relocated_block hl hlpas.length hg ⟨hnodes,hino⟩ hcache b with
    | moved e lpa hx hmapped hpage => rw [hpage]
    | kept hclean hmapped hpage => rw [hpage,hclean]

-- a truncate takes its blocks from the index at once
theorem Durable.truncated (hd : Durable s F₀) {targetSize : UInt64} {file : RtfsFileInode}
    (hr : Resized s.file file targetSize) (htree : IndexTree file.nodes file.ino)
    (hsized : file = s.file ∨ file.isDirty = true) :
    Durable { s with file := file } (F₀.zeroFrom (4096 * sizeToBlock targetSize)) := by
  have hres {b lpa : UInt32} (hb : b.toNat < sizeToBlock targetSize)
      (hm : rtfsFileResolveDataLpaByBlockIndex file.nodes file.ino b = .ok lpa) :
      rtfsFileResolveDataLpaByBlockIndex s.file.nodes s.file.ino b = .ok lpa := (hr.kept b hb).symm.trans hm
  refine ⟨⟨htree,hd.opened.size,hd.opened.bound,rfl,fun b lpa hm i hi => ?_,fun b lpa hm hb => ?_,
    fun b lpa hm hz => ?_,rfl⟩,?_⟩
  · simp only [ByteFile.zeroFrom]
    by_cases hb : b.toNat < sizeToBlock targetSize
    · rw [if_pos (by omega)]
      exact hd.opened.stored b lpa (hres hb hm) i hi
    · rw [if_neg (by omega),hr.cut b lpa (Nat.not_lt.mp hb) hm]
      exact Buf.get_zero i
  · by_cases hlt : b.toNat < sizeToBlock targetSize
    · exact hd.opened.holes b lpa (hres hlt hm) hb
    · exact hr.cut b lpa (Nat.not_lt.mp hlt) hm
  · by_cases hlt : b.toNat < sizeToBlock targetSize
    · exact hd.opened.live b lpa (hres hlt hm) hz
    · exact absurd (hr.cut b lpa (Nat.not_lt.mp hlt) hm) hz
  · rcases hsized with hsame | hdirty
    · rw [hsame]
      exact hd.sized
    · exact .inl hdirty

end Durable

end Rtfs
