import Rtfs.Inode.FileLedger

namespace Rtfs

open DirEntries (sizeToBlock)

def mappableBytes : Nat := fileBlockBound * 4096

theorem mappable_le_max : mappableBytes ≤ maxFileBytes := by
  decide

-- every node that the index of the file names can be had
def NodesFound (f : RtfsFileInode) : Prop :=
  ∀ b : UInt32, b.toNat < fileBlockBound → ∃ lpa, rtfsFileResolveDataLpaByBlockIndex f.nodes f.ino b = .ok lpa

-- the list of pending addresses takes every address that the truncate cuts off
def TruncateRoom (realloc : Nat → Bool) (f : RtfsFileInode) (targetSize : UInt64) : Prop :=
  ∃ a, (blockLpas f (sizeToBlock targetSize) (sizeToBlock f.iSize - sizeToBlock targetSize)).foldlM
    (rtfsFileInodeAppendPendingTruncateOldLpa realloc) f.pendingTruncateOldLpas = .ok a

structure FileMapped (layout : RtfsMkfsLayout) (s : FileState) (F : ByteFile) : Prop where
  ok : FileOk layout s F
  found : NodesFound s.file
  size : F.size ≤ mappableBytes

-- the device answers every read with what was written last
def deviceEnv (dev : CommDev) (realloc : Nat → Bool) : FileEnv := fileEnv dev (fun _ => none) realloc

section Quiet
variable {dev : CommDev} {realloc : Nat → Bool} {f : RtfsFileInode} {F : ByteFile}

theorem NodesFound.blockLpa (h : NodesFound f) {b : Nat} (hb : b < fileBlockBound) : ∃ lpa, blockLpa f b = .ok lpa := by
  have hbig : ¬ 4294967295 < b := by
    unfold fileBlockBound at hb
    omega
  obtain ⟨lpa,hres⟩ := h (UInt32.ofNat b) (by rw [UInt32.toNat_ofNat']; omega)
  rw [blockLpa_below hbig,hres]
  exact ⟨lpa,rfl⟩

theorem nodesFound_of_blocks (h : ∀ b < fileBlockBound, ∃ lpa, Rtfs.blockLpa f b = .ok lpa) : NodesFound f := by
  intro b hb
  obtain ⟨lpa,hlpa⟩ := h b.toNat hb
  rw [blockLpa_below (by have := b.toNat_lt; omega)] at hlpa
  have hres := mapError_ok hlpa
  rw [UInt32.ofNat_toNat] at hres
  exact ⟨lpa,hres⟩

theorem NodesFound.congr {f' : RtfsFileInode} (h : NodesFound f) (hnodes : f'.nodes = f.nodes) (hino : f'.ino = f.ino) :
    NodesFound f' := by
  unfold NodesFound
  rw [hnodes,hino]
  exact h

theorem content_found (hp : FilePagesOk dev f F) (h : NodesFound f) {b : UInt32} (hb : b.toNat < fileBlockBound) :
    ∃ page, pageContent (deviceEnv dev realloc) f b = .ok page := by
  obtain ⟨lpa,hres⟩ := h b hb
  unfold pageContent
  simp only
  split
  · exact ⟨_,rfl⟩
  · rw [hres]
    by_cases hz : lpa = invalidLpa
    · exact ⟨Buf.zero,if_pos hz⟩
    · exact ⟨_,(if_neg hz).trans (readLpa_ok (hp.held b lpa hres hz))⟩

theorem served_mapped (hp : FilePagesOk dev f F) (h : NodesFound f) {offset count : Nat}
    (hend : offset + count ≤ mappableBytes) : Served (deviceEnv dev realloc) f offset count := by
  intro i hi
  refine content_found hp h ?_
  unfold mappableBytes at hend
  have hlt : (offset + i) / 4096 < fileBlockBound := Nat.div_lt_of_lt_mul (by omega)
  unfold fileBlockBound at hlt ⊢
  rw [UInt32.toNat_ofNat']
  omega

-- a read stops at the end of the file by itself
theorem read_clipped (env : FileEnv) (f : RtfsFileInode) (offset count : Nat) :
    rtfsFileInodeRead env f offset (min (f.iSize.toNat - offset) count) = rtfsFileInodeRead env f offset count := by
  by_cases hnone : count = 0 ∨ f.iSize.toNat ≤ offset
  · have hempty : ∀ n, n = 0 ∨ f.iSize.toNat ≤ offset → rtfsFileInodeRead env f offset n = (.ok [],f) := by
      intro n hn
      unfold rtfsFileInodeRead
      by_cases hz : n = 0
      · rw [if_pos hz]
      · rw [if_neg hz,if_pos (hn.resolve_left hz)]
    rw [hempty _ hnone,hempty _ (.inl (by omega))]
  · have hclip : min (f.iSize.toNat - offset) (min (f.iSize.toNat - offset) count) =
        min (f.iSize.toNat - offset) count := by omega
    unfold rtfsFileInodeRead
    rw [if_neg (by omega),if_neg (by omega),if_neg (by omega),if_neg (by omega),hclip]

theorem blocks_mapped {size : UInt64} (h : size.toNat ≤ mappableBytes) : sizeToBlock size ≤ fileBlockBound := by
  unfold mappableBytes at h
  rw [sizeToBlock_small (by unfold maxFileBytes; unfold fileBlockBound at h; omega)]
  omega

theorem truncate_ok_iff (hp : FilePagesOk dev f F) (h : NodesFound f) (hsize : F.size ≤ mappableBytes)
    {targetSize : UInt64} (ht : targetSize.toNat ≤ mappableBytes) :
    (rtfsFileInodeTruncate (deviceEnv dev realloc) f targetSize).1 = .ok () ↔ TruncateRoom realloc f targetSize := by
  have hsz : f.iSize.toNat ≤ mappableBytes := hp.size ▸ hsize
  have hblocks := blocks_mapped hsz
  by_cases hle : f.iSize ≤ targetSize
  · refine ⟨fun _ => ⟨f.pendingTruncateOldLpas,?_⟩,fun _ => grown_ok _ hle⟩
    have hmono : sizeToBlock f.iSize ≤ sizeToBlock targetSize := by
      rw [sizeToBlock_small (hsz.trans mappable_le_max),sizeToBlock_small (ht.trans mappable_le_max)]
      have := UInt64.le_iff_toNat_le.mp hle
      omega
    rw [Nat.sub_eq_zero_of_le hmono]
    rfl
  · have hlt := UInt64.not_le.mp hle
    have hin : targetSize.toNat < f.iSize.toNat := UInt64.lt_iff_toNat_lt.mp hlt
    cases shrink (deviceEnv dev realloc) hlt with
    | unreadable e g hpart hb only bytes hrun =>
      have hblock : targetSize.toNat / 4096 < fileBlockBound := by
        unfold mappableBytes at hsz
        exact Nat.div_lt_of_lt_mul (by omega)
      have hbig : ¬ 4294967295 < targetSize.toNat / 4096 := by
        unfold fileBlockBound at hblock
        omega
      obtain ⟨page,hpage⟩ : ∃ page, pageContent (deviceEnv dev realloc) f (UInt32.ofNat (targetSize.toNat / 4096)) =
          .ok page := content_found hp h (by rw [UInt32.toNat_ofNat']; omega)
      unfold byteAt at hb
      rw [if_neg hbig,hpage] at hb
      cases hb
    | loop g only hread bytes hrun hs =>
      have htree : IndexTree g.nodes g.ino := by
        rw [only.nodes,only.ino]
        exact hp.tree
      have hclears : (clearBlocks (deviceEnv dev realloc) (sizeToBlock f.iSize - sizeToBlock targetSize)
          (sizeToBlock targetSize) g).1 = .ok () ↔ Clears (deviceEnv dev realloc) f (sizeToBlock targetSize)
            (sizeToBlock f.iSize - sizeToBlock targetSize) :=
        (clearBlocks_ok_iff htree _).trans (only.clears_iff _ _)
      constructor
      · intro hok
        cases hres : (clearBlocks (deviceEnv dev realloc) (sizeToBlock f.iSize - sizeToBlock targetSize)
            (sizeToBlock targetSize) g).1 with
        | ok u => exact (hclears.mp hres).room
        | error e =>
          rw [(hrun e).mpr hres] at hok
          cases hok
      · intro hroom
        have hdone := hclears.mpr ⟨fun b _ hhi => h.blockLpa (by omega),hroom⟩
        cases hres : (rtfsFileInodeTruncate (deviceEnv dev realloc) f targetSize).1 with
        | ok u => rfl
        | error e =>
          rw [(hrun e).mp hres] at hdone
          cases hdone

theorem truncate_found {env : FileEnv} {f' : RtfsFileInode} (ht : IndexTree f.nodes f.ino) (h : NodesFound f)
    {targetSize : UInt64} (he : rtfsFileInodeTruncate env f targetSize = (.ok (),f')) : NodesFound f' := by
  unfold rtfsFileInodeTruncate at he
  split at he
  · cases he
    exact h
  · split at he
    · cases he
      exact h.congr rfl rfl
    · simp only at he
      have honly : ∀ g, (if PartialPage f.iSize targetSize then zeroLastPage env f targetSize (sizeToBlock targetSize)
          else (.ok (),f)) = (.ok (),g) → OnlyPages f g := by
        intro g hg
        split at hg
        · rename_i hpart
          have hz := zeroLastPage_spec env hpart
          rw [hg] at hz
          cases hz with
          | zeroed _ only _ => exact only
        · cases hg
          exact .refl
      rcases hz : (if PartialPage f.iSize targetSize then zeroLastPage env f targetSize (sizeToBlock targetSize)
          else (.ok (),f)) with ⟨r,g⟩
      rw [hz] at he
      cases r with
      | error e => cases he
      | ok u =>
        have hg := honly g hz
        have htree : IndexTree g.nodes g.ino := by
          rw [hg.nodes,hg.ino]
          exact ht
        simp only at he
        rcases hc : clearBlocks env (sizeToBlock f.iSize - sizeToBlock targetSize) (sizeToBlock targetSize) g
          with ⟨r,g'⟩
        rw [hc] at he
        cases r with
        | error e => cases he
        | ok u =>
          have hcleared := clearBlocks_ok htree (sizeToBlock f.iSize - sizeToBlock targetSize) (congrArg Prod.fst hc)
          rw [hc] at hcleared
          cases he
          refine NodesFound.congr (nodesFound_of_blocks (f := g') (fun b hb => ?_)) rfl rfl
          by_cases hin : sizeToBlock targetSize ≤ b ∧
              b < sizeToBlock targetSize + (sizeToBlock f.iSize - sizeToBlock targetSize)
          · exact ⟨invalidLpa,hcleared.cleared b hin.1 hin.2⟩
          · rw [hcleared.kept b (by omega),hg.blockLpa b]
            exact h.blockLpa hb

theorem CommitEnds.found {layout : RtfsMkfsLayout} {pages : DirtyPages} {s s' : FileState}
    {r : Except Errno (List UInt32)} (hc : CommitEnds layout pages s r s') (hl : ListsDirty pages s.file.pageCache)
    (h : NodesFound s.file) : NodesFound s'.file := by
  cases hc with
  | kept w r₀ hw hfs hdev hfile hdisk hr =>
    rw [hfile]
    exact h
  | moved w lpas g hw hfs hdev hlpas hheld hg hsame hdisk hcache hfailed hold =>
    intro b hb
    cases relocated_block hl hlpas.length hg ⟨hsame.1,hsame.2.1⟩ hcache b with
    | moved e lpa hx hmapped hpage => exact ⟨lpa,hmapped⟩
    | kept hclean hmapped hpage =>
      rw [hmapped]
      exact h b hb

end Quiet

inductive FileCall
  | read (offset count : Nat) (result : Option (List UInt8))
  | write (offset : Nat) (buffer : List UInt8) (result : Option Nat)
  | truncate (realloc : Nat → Bool) (targetSize : UInt64) (result : Option Unit)
  | other

def FileCall.Room (s : FileState) : FileCall → Prop
  | .read _ _ _ => True
  | .write _ _ _ => True
  | .truncate realloc targetSize _ => TruncateRoom realloc s.file targetSize
  | .other => True

-- other: an eviction of clean pages, a successful commit, what other parties do
inductive MappedStep (layout : RtfsMkfsLayout) (s : FileState) : FileCall → FileState → Prop
  | read (realloc : Nat → Bool) (offset count : Nat) :
      MappedStep layout s
        (.read offset count (rtfsFileInodeRead (deviceEnv s.dev realloc) s.file offset count).1.toOption)
        { s with file := (rtfsFileInodeRead (deviceEnv s.dev realloc) s.file offset count).2 }
  | write (realloc : Nat → Bool) (offset : Nat) (buffer : List UInt8)
      (hend : offset + buffer.length ≤ mappableBytes) :
      MappedStep layout s
        (.write offset buffer (rtfsFileInodeWrite (deviceEnv s.dev realloc) s.file offset buffer).1.toOption)
        { s with file := (rtfsFileInodeWrite (deviceEnv s.dev realloc) s.file offset buffer).2 }
  | truncate (realloc : Nat → Bool) (targetSize : UInt64) (ht : targetSize.toNat ≤ mappableBytes) :
      MappedStep layout s
        (.truncate realloc targetSize (rtfsFileInodeTruncate (deviceEnv s.dev realloc) s.file targetSize).1.toOption)
        { s with file := (rtfsFileInodeTruncate (deviceEnv s.dev realloc) s.file targetSize).2 }
  | evict (victim : UInt32 → Bool) (hv : ∀ b, victim b = true → (pageCacheGet s.file.pageCache b).isDirty = false) :
      MappedStep layout s .other { s with file := { s.file with pageCache := s.file.pageCache.evict victim } }
  | commit {env : FileCommitEnv} {pages : DirtyPages} {oldLpas : List UInt32} {s' : FileState}
      (hl : ListsDirty pages s.file.pageCache)
      (hc : rtfsFileInodeCommitCowWritebackInternal env pages s = some (.ok oldLpas,s')) : MappedStep layout s .other s'
  | outside {fs : FsMeta} {dev : CommDev} (h : Outside layout s fs dev) :
      MappedStep layout s .other { s with fs := fs, dev := dev }

-- what a call on the byte array answers and leaves
inductive ArrayStep (F : ByteFile) : FileCall → ByteFile → Prop
  | read {offset count : Nat} : ArrayStep F (.read offset count (some (F.read offset count))) F
  | write {offset : Nat} {buffer : List UInt8} :
      ArrayStep F (.write offset buffer (some buffer.length)) (F.write offset buffer)
  | truncate {realloc : Nat → Bool} {targetSize : UInt64} :
      ArrayStep F (.truncate realloc targetSize (some ())) (F.resize targetSize.toNat)
  | refused {realloc : Nat → Bool} {targetSize : UInt64} : ArrayStep F (.truncate realloc targetSize none) F
  | other : ArrayStep F .other F

def FileCall.after (F : ByteFile) : FileCall → ByteFile
  | .read _ _ _ => F
  | .write offset buffer _ => F.write offset buffer
  | .truncate _ targetSize result => if result.isSome then F.resize targetSize.toNat else F
  | .other => F

theorem ArrayStep.after {F F' : ByteFile} {call : FileCall} (h : ArrayStep F call F') : F' = call.after F := by
  cases h with
  | read => rfl
  | write => rfl
  | truncate => rfl
  | refused => rfl
  | other => rfl

theorem ArrayStep.answer {F F' : ByteFile} {offset count : Nat} {result : Option (List UInt8)}
    (h : ArrayStep F (.read offset count result) F') : result = some (F.read offset count) := by
  cases h with
  | read => rfl

section Run
variable {layout : RtfsMkfsLayout} {s s' : FileState} {F : ByteFile}

theorem byteFile_read_clipped (F : ByteFile) (offset count : Nat) :
    F.read offset (min (F.size - offset) count) = F.read offset count := by
  have hclip : min (F.size - offset) (min (F.size - offset) count) = min (F.size - offset) count := by omega
  unfold ByteFile.read
  rw [hclip]

theorem MappedStep.array (ha : layout.Areas) (hN : layout.segmentCount.toNat < 8388608) {call : FileCall}
    (hs : MappedStep layout s call s') (hroom : call.Room s) (h : FileMapped layout s F) :
    ∃ F', ArrayStep F call F' ∧ FileMapped layout s' F' := by
  cases hs with
  | read realloc offset count =>
    have hserved : Served (deviceEnv s.dev realloc) s.file offset (min (s.file.iSize.toNat - offset) count) := by
      have hsize := h.ok.pages.size ▸ h.size
      by_cases hend : s.file.iSize.toNat ≤ offset
      · rw [show min (s.file.iSize.toNat - offset) count = 0 by omega]
        exact fun i hi => absurd hi (Nat.not_lt_zero i)
      · exact served_mapped h.ok.pages h.found (by omega)
    have hstep : FileStep layout s _ _ := .read (fun _ => none) realloc offset _ true (fun _ => hserved)
    obtain ⟨F',hF,hok⟩ := hstep.ok ha hN h.ok
    have honly := read_only (deviceEnv s.dev realloc) s.file offset count
    change ByteFile.Step F (.read offset _ true (rtfsFileInodeRead (deviceEnv s.dev realloc) s.file offset _).1.toOption)
      F' at hF
    change FileOk layout { s with file := (rtfsFileInodeRead (deviceEnv s.dev realloc) s.file offset _).2 } F' at hok
    rw [read_clipped] at hF hok
    generalize hr : (rtfsFileInodeRead (deviceEnv s.dev realloc) s.file offset count).1.toOption = result at hF ⊢
    cases hF with
    | read hp hbytes =>
      rw [hbytes rfl,← h.ok.pages.size,byteFile_read_clipped]
      exact ⟨F,.read,hok,h.found.congr honly.nodes honly.ino,h.size⟩
  | write realloc offset buffer hend =>
    have hstep : FileStep layout s _ _ := .write (fun _ => none) realloc offset buffer true
      (hend.trans mappable_le_max) (fun _ => served_mapped h.ok.pages h.found hend)
    have hnodes := (h.ok.pages.write (fun _ => none) realloc offset buffer (hend.trans mappable_le_max)).nodes
    obtain ⟨F',hF,hok⟩ := hstep.ok ha hN h.ok
    change ByteFile.Step F (.write offset buffer true
      (rtfsFileInodeWrite (deviceEnv s.dev realloc) s.file offset buffer).1.toOption) F' at hF
    generalize hr : (rtfsFileInodeWrite (deviceEnv s.dev realloc) s.file offset buffer).1.toOption = result at hF ⊢
    cases hF with
    | write hn hall =>
      rw [hall rfl,List.take_length] at hok
      rw [hall rfl]
      refine ⟨_,.write,hok,h.found.congr hnodes.1 hnodes.2,?_⟩
      have hsize := h.size
      simp only [ByteFile.write]
      split
      · exact hsize
      · omega
  | truncate realloc targetSize ht =>
    have he := (truncate_ok_iff h.ok.pages h.found h.size ht).mpr hroom
    have hcall : rtfsFileInodeTruncate (deviceEnv s.dev realloc) s.file targetSize =
        (.ok (),(rtfsFileInodeTruncate (deviceEnv s.dev realloc) s.file targetSize).2) := Prod.ext he rfl
    have hstep : FileStep layout s _ _ := .truncate (fun _ => none) realloc (ht.trans mappable_le_max) hcall
    obtain ⟨F',hF,hok⟩ := hstep.ok ha hN h.ok
    rw [he]
    cases hF with
    | resize => exact ⟨_,.truncate,hok,truncate_found h.ok.pages.tree h.found hcall,ht⟩
  | evict victim hv =>
    have hstep : FileStep layout s _ _ := .evict victim hv
    obtain ⟨F',hF,hok⟩ := hstep.ok ha hN h.ok
    cases hF with
    | keep => exact ⟨F,.other,hok,h.found.congr rfl rfl,h.size⟩
  | commit hl hc =>
    have hstep : FileStep layout s _ _ := .commit hl hc
    obtain ⟨F',hF,hok⟩ := hstep.ok ha hN h.ok
    have hends := commit_ends ha hN h.ok hl hc (committed_idle hc)
    cases hF with
    | keep => exact ⟨F,.other,hok,hends.found hl h.found,h.size⟩
  | outside ho =>
    have hstep : FileStep layout s _ _ := .outside ho
    obtain ⟨F',hF,hok⟩ := hstep.ok ha hN h.ok
    cases hF with
    | keep => exact ⟨F,.other,hok,h.found,h.size⟩

-- a step whose truncate has room
def RoomStep (layout : RtfsMkfsLayout) (s : FileState) (call : FileCall) (s' : FileState) : Prop :=
  call.Room s ∧ MappedStep layout s call s'

theorem roomRun_array (ha : layout.Areas) (hN : layout.segmentCount.toNat < 8388608) {calls : List FileCall}
    (hrun : Labelled.Run (RoomStep layout) s calls s') (h : FileMapped layout s F) :
    ∃ F', Labelled.Run ArrayStep F calls F' ∧ FileMapped layout s' F' :=
  hrun.simulates (R := FileMapped layout) (fun _ _ _ _ h hs => hs.2.array ha hN hs.1 h) h

end Run

theorem file_array_exact (options : RtfsMkfsOptions) (layout : RtfsMkfsLayout) (image : FsMeta)
    (s s' : FileState) (F : ByteFile) (returned : List UInt32) (calls : List FileCall)
    (h : MkfsImage options layout image) (hfs : Relation.ReflTransGen LpaStep ⟨image,[]⟩ ⟨s.fs,returned⟩)
    (hheld : ∀ lpa < layout.blockCount, s.dev.Holds lpa) (hopen : Opened s F) (hfound : NodesFound s.file)
    (hsize : F.size ≤ mappableBytes) (hrun : Labelled.Run (RoomStep layout) s calls s') :
    (∃ F', Labelled.Run ArrayStep F calls F') ∧ ∀ realloc (targetSize : UInt64), targetSize.toNat ≤ mappableBytes →
      ((rtfsFileInodeTruncate (deviceEnv s'.dev realloc) s'.file targetSize).1 = .ok () ↔
        TruncateRoom realloc s'.file targetSize) := by
  obtain ⟨ha,hN,hspace⟩ := @image_writable options layout image
    ⟨s.fs,s.dev,⟨[],.nil,by decide⟩,s.pending⟩ returned h hfs hheld
  obtain ⟨F',harray,hmapped⟩ := roomRun_array ha hN hrun ⟨hopen.ok hspace hheld,hfound,hsize⟩
  exact ⟨⟨F',harray⟩,fun realloc targetSize ht => truncate_ok_iff hmapped.ok.pages hmapped.found hmapped.size ht⟩

section New

theorem emptyFile_found : NodesFound newFile := by
  intro b hb
  obtain ⟨t,hslot⟩ := Option.isSome_iff_exists.mp ((blockSlot_isSome b.toNat).mpr hb)
  refine ⟨0,?_⟩
  change rtfsFileResolveDataLpaByBlockIndex emptyFile 1 b = .ok 0
  rw [fileResolve_eq emptyFile_tree,slotAddr,hslot]
  simp only [emptyFile_read]
  rfl

def granted : Nat → Bool := fun _ => true

def refused : Nat → Bool := fun _ => false

theorem room_of_toOption {realloc : Nat → Bool} {f : RtfsFileInode} {targetSize : UInt64}
    (h : ((blockLpas f (sizeToBlock targetSize) (sizeToBlock f.iSize - sizeToBlock targetSize)).foldlM
      (rtfsFileInodeAppendPendingTruncateOldLpa realloc) f.pendingTruncateOldLpas).toOption.isSome = true) :
    TruncateRoom realloc f targetSize := by
  obtain ⟨a,ha⟩ := Option.isSome_iff_exists.mp h
  exact ⟨a,ok_of_toOption ha⟩

theorem mapped_write_step {layout : RtfsMkfsLayout} {s : FileState} {offset n : Nat} {buffer : List UInt8}
    (hend : offset + buffer.length ≤ mappableBytes)
    (h : (rtfsFileInodeWrite (deviceEnv s.dev granted) s.file offset buffer).1.toOption = some n) :
    MappedStep layout s (.write offset buffer (some n))
      { s with file := (rtfsFileInodeWrite (deviceEnv s.dev granted) s.file offset buffer).2 } :=
  h ▸ .write granted offset buffer hend

theorem mapped_read_step {layout : RtfsMkfsLayout} {s : FileState} {offset count : Nat} {bytes : List UInt8}
    (h : (rtfsFileInodeRead (deviceEnv s.dev granted) s.file offset count).1.toOption = some bytes) :
    MappedStep layout s (.read offset count (some bytes))
      { s with file := (rtfsFileInodeRead (deviceEnv s.dev granted) s.file offset count).2 } :=
  h ▸ .read granted offset count

theorem mapped_truncate_step {layout : RtfsMkfsLayout} {s : FileState} (realloc : Nat → Bool) {targetSize : UInt64}
    {result : Option Unit} (ht : targetSize.toNat ≤ mappableBytes)
    (h : (rtfsFileInodeTruncate (deviceEnv s.dev realloc) s.file targetSize).1.toOption = result) :
    MappedStep layout s (.truncate realloc targetSize result)
      { s with file := (rtfsFileInodeTruncate (deviceEnv s.dev realloc) s.file targetSize).2 } :=
  h ▸ .truncate realloc targetSize ht

-- both pages of twoMapped leave the cache
def firstTwo (b : UInt32) : Bool := b == 0 || b == 1

def evicted : FileState := { twoMapped with
  file := { twoMapped.file with pageCache := twoMapped.file.pageCache.evict firstTwo } }

theorem two_mapped : Labelled.Run (RoomStep smallLayout) newFileState
    [.write 4090 (List.replicate 10 7) (some 10),.other,.other] evicted := by
  obtain ⟨ha,hN,hspace⟩ := @image_writable smallOptions smallLayout smallMeta
    ⟨newFileState.fs,newFileState.dev,⟨[],.nil,by decide⟩,newFileState.pending⟩ [] smallMeta_image .refl
    (smallDev_holds _)
  have hwrite : MappedStep smallLayout newFileState (.write 4090 (List.replicate 10 7) (some 10)) twoWritten :=
    mapped_write_step (by decide) (by decide +kernel)
  obtain ⟨F₁,-,hok⟩ := hwrite.array ha hN trivial
    ⟨newFile_opened.ok hspace (smallDev_holds _),emptyFile_found,Nat.zero_le _⟩
  have hcall : rtfsFileInodeCommitCowWritebackInternal readyCommit
      (listedPages twoWritten.file.pageCache [0,1] two_sorted two_short) twoWritten = some (.ok [],twoMapped) :=
    commit_call (by decide +kernel)
  have hcommit : MappedStep smallLayout twoWritten .other twoMapped :=
    .commit (listed_dirty [0,1] _ _ (fun b hd => small_block hok.ok.pages 2 (by decide +kernel) le_rfl hd)) hcall
  have hclean : ∀ b, firstTwo b = true → (pageCacheGet twoMapped.file.pageCache b).isDirty = false := by
    intro b hb
    rcases Bool.or_eq_true_iff.mp hb with h0 | h1
    · rw [beq_iff_eq.mp h0]
      decide +kernel
    · rw [beq_iff_eq.mp h1]
      decide +kernel
  exact .cons ⟨trivial,hwrite⟩ (.cons ⟨trivial,hcommit⟩ (.cons ⟨trivial,.evict firstTwo hclean⟩ .nil))

def readBack : FileState := { evicted with
  file := (rtfsFileInodeRead (deviceEnv evicted.dev granted) evicted.file 4085 20).2 }

def cutInside : FileState := { readBack with
  file := (rtfsFileInodeTruncate (deviceEnv readBack.dev granted) readBack.file 4092).2 }

def grownAgain : FileState := { cutInside with
  file := (rtfsFileInodeTruncate (deviceEnv cutInside.dev granted) cutInside.file 8192).2 }

def finalRead : FileState := { grownAgain with
  file := (rtfsFileInodeRead (deviceEnv grownAgain.dev granted) grownAgain.file 4085 20).2 }

-- read back from the device, cut inside the first block and grown again
theorem newFile_reads_back :
    (∃ F', Labelled.Run ArrayStep .empty
      [.write 4090 (List.replicate 10 7) (some 10),.other,.other,
        .read 4085 20 (some (List.replicate 5 0 ++ List.replicate 10 7)),.truncate granted 4092 (some ()),
        .truncate granted 8192 (some ()),
        .read 4085 20 (some (List.replicate 5 0 ++ List.replicate 2 7 ++ List.replicate 13 0))] F') ∧
    ∀ realloc (targetSize : UInt64), targetSize.toNat ≤ mappableBytes →
      ((rtfsFileInodeTruncate (deviceEnv finalRead.dev realloc) finalRead.file targetSize).1 = .ok () ↔
        TruncateRoom realloc finalRead.file targetSize) := by
  have hread : RoomStep smallLayout evicted
      (.read 4085 20 (some (List.replicate 5 0 ++ List.replicate 10 7))) readBack :=
    ⟨trivial,mapped_read_step (by decide +kernel)⟩
  have hcut : RoomStep smallLayout readBack (.truncate granted 4092 (some ())) cutInside :=
    ⟨room_of_toOption (by decide +kernel),mapped_truncate_step granted (by decide) (by decide +kernel)⟩
  have hgrow : RoomStep smallLayout cutInside (.truncate granted 8192 (some ())) grownAgain :=
    ⟨room_of_toOption (by decide +kernel),mapped_truncate_step granted (by decide) (by decide +kernel)⟩
  have hagain : RoomStep smallLayout grownAgain
      (.read 4085 20 (some (List.replicate 5 0 ++ List.replicate 2 7 ++ List.replicate 13 0))) finalRead :=
    ⟨trivial,mapped_read_step (by decide +kernel)⟩
  exact file_array_exact smallOptions smallLayout _ newFileState _ .empty [] _ smallMeta_image .refl
    (smallDev_holds _) newFile_opened emptyFile_found (Nat.zero_le _)
    (two_mapped.append (.cons hread (.cons hcut (.cons hgrow (.cons hagain .nil)))))

def cutRefused : FileState := { evicted with
  file := (rtfsFileInodeTruncate (deviceEnv evicted.dev refused) evicted.file 0).2 }

def refusedRead : FileState := { cutRefused with
  file := (rtfsFileInodeRead (deviceEnv cutRefused.dev granted) cutRefused.file 4090 10).2 }

-- the list of pending addresses cannot grow, and the block that was cleared by then reads as zero
theorem refused_truncate_zeros :
    Labelled.Run (MappedStep smallLayout) newFileState
      [.write 4090 (List.replicate 10 7) (some 10),.other,.other,.truncate refused 0 none,
        .read 4090 10 (some (List.replicate 6 0 ++ List.replicate 4 7))] refusedRead ∧
    ¬ ∃ F', Labelled.Run ArrayStep .empty
      [.write 4090 (List.replicate 10 7) (some 10),.other,.other,.truncate refused 0 none,
        .read 4090 10 (some (List.replicate 6 0 ++ List.replicate 4 7))] F' := by
  have hmapped : Labelled.Run (MappedStep smallLayout) newFileState
      [.write 4090 (List.replicate 10 7) (some 10),.other,.other] evicted :=
    two_mapped.relabel (f := id) (fun _ _ _ h => h.2)
  have hcut : MappedStep smallLayout evicted (.truncate refused 0 none) cutRefused :=
    mapped_truncate_step refused (by decide) (by decide +kernel)
  have hread : MappedStep smallLayout cutRefused
      (.read 4090 10 (some (List.replicate 6 0 ++ List.replicate 4 7))) refusedRead :=
    mapped_read_step (by decide +kernel)
  refine ⟨hmapped.append (.cons hcut (.cons hread .nil)),?_⟩
  rintro ⟨F',_ | ⟨h₁,_ | ⟨h₂,_ | ⟨h₃,_ | ⟨h₄,_ | ⟨h₅,-⟩⟩⟩⟩⟩⟩
  have hbytes := h₅.answer
  rw [h₄.after,h₃.after,h₂.after,h₁.after] at hbytes
  exact absurd hbytes (by decide)

end New

end Rtfs
