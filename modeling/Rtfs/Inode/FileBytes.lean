import Rtfs.Inode.FileCommit
import Rtfs.Inode.FileResize
import Rtfs.Lib.Labelled
import Rtfs.Lib.Outcome

namespace Rtfs

open DirEntries (sizeToBlock)

structure FileOk (layout : RtfsMkfsLayout) (s : FileState) (F : ByteFile) : Prop where
  pages : FilePagesOk s.dev s.file F
  live : ∀ b lpa, rtfsFileResolveDataLpaByBlockIndex s.file.nodes s.file.ino b = .ok lpa → lpa ≠ invalidLpa →
    lpaBit s.fs lpa = true
  space : LpaInv layout ⟨s.fs,[]⟩
  room : ∀ lpa < layout.blockCount, s.dev.Holds lpa
  idle : s.pending.items = []

def ListsDirty (pages : DirtyPages) (c : PageCache) : Prop :=
  ∀ b e, (b,e) ∈ pages.dirty ↔ c b = some e ∧ e.isDirty = true

def listedPages (c : PageCache) (bs : List UInt32) (hs : bs.Pairwise (· < ·)) (hn : bs.length < 2147483648) :
    DirtyPages where
  nodes := bs.map (fun b => ⟨b,c b⟩)
  sorted := List.pairwise_map.mpr hs
  count_lt := by rwa [List.length_map]

section Listed
variable {pages : DirtyPages} {c : PageCache} {lpas : List UInt32}

theorem listed_dirty (bs : List UInt32) (hs : bs.Pairwise (· < ·)) (hn : bs.length < 2147483648)
    (h : ∀ b, (pageCacheGet c b).isDirty = true → b ∈ bs) : ListsDirty (listedPages c bs hs hn) c := by
  intro b e
  unfold DirtyPages.dirty listedPages dirtyPage
  simp only [List.mem_filterMap,List.mem_map,Option.map_eq_some_iff,Option.filter_eq_some_iff,Prod.mk.injEq]
  constructor
  · rintro ⟨_,⟨b',hb',rfl⟩,e',⟨he',hd⟩,rfl,rfl⟩
    exact ⟨he',hd⟩
  · rintro ⟨he,hd⟩
    refine ⟨⟨b,c b⟩,⟨b,h b ?_,rfl⟩,e,⟨he,hd⟩,rfl,rfl⟩
    unfold pageCacheGet
    rw [he]
    exact hd

theorem dirty_sorted (pages : DirtyPages) : pages.dirty.Pairwise (fun x y => x.1 < y.1) := by
  refine List.Pairwise.filterMap dirtyPage (fun n n' hlt x hx y hy => ?_) pages.sorted
  unfold dirtyPage at hx hy
  obtain ⟨e,-,rfl⟩ := Option.map_eq_some_iff.mp hx
  obtain ⟨e',-,rfl⟩ := Option.map_eq_some_iff.mp hy
  exact hlt

theorem dirty_nodup (pages : DirtyPages) : (pages.dirty.map Prod.fst).Nodup :=
  List.pairwise_map.mpr ((dirty_sorted pages).imp (fun hlt => UInt32.ne_of_lt hlt))

def itemsOf (pages : DirtyPages) (lpas : List UInt32) : List RtfsFilePendingDataCowRelocation :=
  (pages.dirty.zip lpas).map (fun x => ⟨x.1.1,x.1.2.lpa,x.2⟩)

theorem itemsOf_blocks (hlen : lpas.length = pages.dirty.length) :
    (itemsOf pages lpas).map (·.blockIndex) = pages.dirty.map Prod.fst := by
  have hfirst : (pages.dirty.zip lpas).map Prod.fst = pages.dirty := List.map_fst_zip hlen.ge
  have hblocks : (itemsOf pages lpas).map (·.blockIndex) = ((pages.dirty.zip lpas).map Prod.fst).map Prod.fst := by
    unfold itemsOf
    rw [List.map_map,List.map_map]
    rfl
  rw [hblocks,hfirst]

theorem itemsOf_some {b : UInt32} {r : RtfsFilePendingDataCowRelocation}
    (h : relocationAt (itemsOf pages lpas) b = some r) :
    ∃ e, ((b,e),r.newLpa) ∈ pages.dirty.zip lpas ∧ r = ⟨b,e.lpa,r.newLpa⟩ := by
  have hb : r.blockIndex = b := by simpa using List.find?_some h
  obtain ⟨⟨⟨b',e⟩,lpa⟩,hx,rfl⟩ := List.mem_map.mp (List.mem_of_find?_eq_some h)
  simp only at hb
  subst hb
  exact ⟨e,hx,rfl⟩

theorem itemsOf_none {b : UInt32} (hlen : lpas.length = pages.dirty.length)
    (h : relocationAt (itemsOf pages lpas) b = none) : b ∉ pages.dirty.map Prod.fst := by
  rw [← itemsOf_blocks hlen]
  intro hb
  obtain ⟨r,hr,rfl⟩ := List.mem_map.mp hb
  exact List.find?_eq_none.mp h r hr (by simp)

theorem ListsDirty.clean (h : ListsDirty pages c) {b : UInt32} (hb : b ∉ pages.dirty.map Prod.fst) :
    (pageCacheGet c b).isDirty = false := by
  unfold pageCacheGet
  cases hc : c b with
  | none => rfl
  | some e =>
    by_contra hd
    exact hb (List.mem_map.mpr ⟨(b,e),(h b e).mpr ⟨hc,Bool.not_eq_false _ ▸ hd⟩,rfl⟩)

end Listed

section Commit
variable {layout : RtfsMkfsLayout} {s s' : FileState} {F : ByteFile} {env : FileCommitEnv} {pages : DirtyPages}
  {r : Except Errno (List UInt32)}

theorem FilePagesOk.moved {dev dev' : CommDev} {f : RtfsFileInode} (h : FilePagesOk dev f F)
    (hsame : ∀ b lpa, rtfsFileResolveDataLpaByBlockIndex f.nodes f.ino b = .ok lpa → lpa ≠ invalidLpa →
      dev'.blocks lpa.toNat = dev.blocks lpa.toNat ∧ dev'.Holds lpa.toNat) : FilePagesOk dev' f F := by
  refine ⟨h.tree,h.size,h.bound,fun b => ?_,h.holes,fun b lpa hres hz => (hsame b lpa hres hz).2,h.dirtyIn⟩
  have hold := h.pages b
  refine ⟨hold.lpa,hold.page,hold.dirty,fun hd lpa hl => ?_⟩
  have hstored : storedPage dev' lpa = storedPage dev lpa := by
    unfold storedPage
    split
    · rfl
    · rename_i hz
      exact (hsame b lpa hl hz).1
  exact hstored ▸ hold.stored hd lpa hl

inductive CommitEnds (layout : RtfsMkfsLayout) (pages : DirtyPages) (s : FileState) (r : Except Errno (List UInt32))
    (s' : FileState) : Prop
  | kept (w : WriteBackState) (r₀ : Option Errno)
      (hw : WriteBackEnds layout ⟨s.fs,s.dev,pages,s.pending⟩ r₀ w) (hfs : s'.fs = w.fs) (hdev : s'.dev = w.dev)
      (hfile : s'.file = s.file) (hdisk : s'.diskSize = s.diskSize) (hr : ∃ e, r = .error e)
  | moved (w : WriteBackState) (lpas : List UInt32) (g : RtfsFileInode)
      (hw : WriteBackEnds layout ⟨s.fs,s.dev,pages,s.pending⟩ none w) (hfs : s'.fs = w.fs) (hdev : s'.dev = w.dev)
      (hlpas : WrittenBack ⟨s.fs,s.dev,pages,s.pending⟩ w lpas) (hheld : ∀ lpa ∈ lpas, s.dev.Holds lpa.toNat)
      (hg : Relocates (itemsOf pages lpas) s.file g)
      (hsame : s'.file.nodes = g.nodes ∧ s'.file.ino = g.ino ∧ s'.file.iSize = g.iSize)
      (hdisk : s'.file.isDirty = false ∧ s'.diskSize = if s.file.isDirty then s.file.iSize else s.diskSize)
      (hcache : s'.file.pageCache =
        if itemsOf pages lpas = [] then g.pageCache else pageCacheClearDirtyPages g.pageCache)
      (hfailed : ∀ e, r = .error e → s'.file.pendingTruncateOldLpas = s.file.pendingTruncateOldLpas)
      (hold : ∀ old, r = .ok old → s'.file.pendingTruncateOldLpas.items = [] ∧
        old = (((itemsOf pages lpas).map (·.oldLpa)) ++ s.file.pendingTruncateOldLpas.items).filter
          (· ≠ invalidLpa))

theorem commit_ends (ha : layout.Areas) (hN : layout.segmentCount.toNat < 8388608) (h : FileOk layout s F)
    (hl : ListsDirty pages s.file.pageCache)
    (hc : rtfsFileInodeCommitCowWritebackInternal env pages s = some (r,s')) (hidle : s'.pending.items = []) :
    CommitEnds layout pages s r s' := by
  have hready : ∀ page ∈ pages.dirty, page.2.contentState = .pageReady := by
    rintro ⟨b,e⟩ hp
    obtain ⟨hcache,hd⟩ := (hl b e).mp hp
    have hget : pageCacheGet s.file.pageCache b = e := by
      unfold pageCacheGet
      rw [hcache]
      rfl
    have hpage := (h.pages.pages b).dirty
    rw [hget] at hpage
    exact hpage hd
  obtain ⟨r₀,w,hwrite,hends⟩ := writeBack_ends env.writeBack ⟨s.fs,s.dev,pages,s.pending⟩ ha hN h.space
    h.room hready
  unfold rtfsFileInodeCommitCowWritebackInternal at hc
  rw [hwrite] at hc
  simp only [Option.map_some,Option.some.injEq] at hc
  cases r₀ with
  | some e =>
    cases hc
    exact .kept w (some e) hends rfl rfl rfl rfl ⟨e,rfl⟩
  | none =>
    obtain ⟨lpas,hwritten,hheld⟩ := hends.done rfl
    have hitems : w.pending.items = itemsOf pages lpas := by
      rw [hwritten.pending,h.idle]
      rfl
    have hnew : ∀ x ∈ w.pending.items, x.newLpa ≠ invalidLpa := by
      intro x hx
      rw [hitems] at hx
      obtain ⟨y,hy,rfl⟩ := List.mem_map.mp hx
      exact (hwritten.fresh _ (List.of_mem_zip hy).2).1
    have hnd : (w.pending.items.map (·.blockIndex)).Nodup := by
      rw [hitems,itemsOf_blocks hwritten.length]
      exact dirty_nodup pages
    have htfile : (s.afterWriteBack w).file = s.file := rfl
    have htpending : (s.afterWriteBack w).pending = w.pending := rfl
    have htfs : (s.afterWriteBack w).fs = w.fs := rfl
    have htdev : (s.afterWriteBack w).dev = w.dev := rfl
    have htdisk : (s.afterWriteBack w).diskSize = s.diskSize := rfl
    generalize s.afterWriteBack w = t at hc htfile htpending htfs htdev htdisk
    unfold commitRelocations at hc
    rw [htfile,htpending] at hc
    by_cases hmem : 0 < w.pending.items.length + s.file.pendingTruncateOldLpas.items.length ∧ env.malloc = false
    · simp only [if_pos hmem] at hc
      cases hc
      exact .kept w none hends htfs htdev htfile htdisk ⟨.enomem,rfl⟩
    · simp only [if_neg hmem,collect_all] at hc
      rcases happ : rtfsFileInodeApplyPendingDataRelocations s.file w.pending with ⟨⟨e,p⟩,file⟩
      rw [happ] at hc
      obtain ⟨hdone,hstuck⟩ := applyPending_spec h.pages.tree hnew hnd happ
      cases e with
      | some e =>
        cases hc
        exact absurd hidle (hstuck (by simp))
      | none =>
        obtain ⟨-,g,hg,rfl⟩ := hdone rfl
        rw [hitems] at hg hc
        simp only at hc
        generalize hcache₀ : (if itemsOf pages lpas = [] then g.pageCache else pageCacheClearDirtyPages g.pageCache) =
          cache at hc
        generalize hu : ({ t with pending := p, file := { g with pageCache := cache } } : FileState) = u at hc
        obtain ⟨hnodes,hino,hsize,hcache,hqueue,hufs,hudev,-⟩ := synced_keeps u
        have hdisk : u.synced.diskSize = if s.file.isDirty then s.file.iSize else s.diskSize := by
          rw [synced_diskSize,← hu]
          simp only [hg.flag,hg.only.2.1,htdisk]
        subst hu hcache₀
        cases hrest : env.rest with
        | some e =>
          rw [hrest] at hc
          cases hc
          exact .moved w lpas g hends (hufs.trans htfs) (hudev.trans htdev) hwritten hheld hg ⟨hnodes,hino,hsize⟩
            ⟨synced_clean _,hdisk⟩ hcache (fun _ _ => hqueue.trans hg.only.2.2) (fun old ho => (by cases ho))
        | none =>
          rw [hrest] at hc
          cases hc
          refine .moved w lpas g hends (hufs.trans htfs) (hudev.trans htdev) hwritten hheld hg ⟨hnodes,hino,hsize⟩
            ⟨rfl,hdisk⟩ hcache (fun _ he => (by cases he)) (fun old ho => ?_)
          cases ho
          exact ⟨rfl,rfl⟩

inductive BlockCommit (pages : DirtyPages) (lpas : List UInt32) (f f' : RtfsFileInode) (b : UInt32) : Prop
  | moved (e : PageEntry) (lpa : UInt32) (hx : ((b,e),lpa) ∈ pages.dirty.zip lpas)
      (hmapped : rtfsFileResolveDataLpaByBlockIndex f'.nodes f'.ino b = .ok lpa)
      (hpage : pageCacheGet f'.pageCache b = ⟨lpa,.pageReady,e.page,false⟩)
  | kept (hclean : (pageCacheGet f.pageCache b).isDirty = false)
      (hmapped : rtfsFileResolveDataLpaByBlockIndex f'.nodes f'.ino b =
        rtfsFileResolveDataLpaByBlockIndex f.nodes f.ino b)
      (hpage : pageCacheGet f'.pageCache b = pageCacheGet f.pageCache b)

theorem relocated_block {f f' g : RtfsFileInode} {lpas : List UInt32} (hl : ListsDirty pages f.pageCache)
    (hlen : lpas.length = pages.dirty.length) (hg : Relocates (itemsOf pages lpas) f g)
    (hsame : f'.nodes = g.nodes ∧ f'.ino = g.ino)
    (hcache : f'.pageCache = if itemsOf pages lpas = [] then g.pageCache else pageCacheClearDirtyPages g.pageCache)
    (b : UInt32) : BlockCommit pages lpas f f' b := by
  have hentry : pageCacheGet f'.pageCache b = { pageCacheGet g.pageCache b with isDirty := false } := by
    rw [hcache]
    split
    · rename_i hnil
      have hnone : b ∉ pages.dirty.map Prod.fst := by
        rw [← itemsOf_blocks hlen,hnil]
        exact List.not_mem_nil
      have hclean := hl.clean hnone
      have hget : pageCacheGet g.pageCache b = pageCacheGet f.pageCache b := by
        unfold pageCacheGet
        rw [hg.pages b,hnil]
        rfl
      rw [hget,← hclean]
    · unfold pageCacheGet pageCacheClearDirtyPages
      simp only
      cases g.pageCache b <;> rfl
  cases hat : relocationAt (itemsOf pages lpas) b with
  | some x =>
    obtain ⟨e,hx,-⟩ := itemsOf_some hat
    obtain ⟨hmem,-⟩ := (hl b e).mp (List.of_mem_zip hx).1
    refine .moved e x.newLpa hx ?_ ?_
    · rw [hsame.1,hsame.2]
      exact (hg.mapped b x hat).1
    · rw [hentry]
      unfold pageCacheGet
      rw [hg.pages b,hat,hmem]
      rfl
  | none =>
    have hclean := hl.clean (itemsOf_none hlen hat)
    refine .kept hclean ?_ ?_
    · rw [hsame.1,hsame.2]
      exact hg.kept b hat
    · have hget : pageCacheGet g.pageCache b = pageCacheGet f.pageCache b := by
        unfold pageCacheGet
        rw [hg.pages b,hat]
      rw [hentry,hget,← hclean]

theorem CommitEnds.ok (hc : CommitEnds layout pages s r s') (h : FileOk layout s F)
    (hl : ListsDirty pages s.file.pageCache) (hidle : s'.pending.items = []) : FileOk layout s' F := by
  cases hc with
  | kept w r₀ hw hfs hdev hfile hdisk hr =>
    have hholds : ∀ lpa, s'.dev.Holds lpa ↔ s.dev.Holds lpa := by
      intro lpa
      unfold CommDev.Holds
      rw [hdev,hw.blockCount]
    refine ⟨?_,?_,by rw [hfs]; exact hw.space,fun lpa hlt => (hholds lpa).mpr (h.room lpa hlt),hidle⟩
    · rw [hfile]
      refine h.pages.moved (fun b lpa hres hz => ⟨?_,(hholds _).mpr (h.pages.held b lpa hres hz)⟩)
      rw [hdev]
      exact hw.blocks lpa (h.live b lpa hres hz)
    · rw [hfile,hfs]
      exact fun b lpa hres hz => hw.bits lpa (h.live b lpa hres hz)
  | moved w lpas g hw hfs hdev hlpas hheld hg hsame hdisk hcache hfailed hold =>
    have hholds : ∀ lpa, s'.dev.Holds lpa ↔ s.dev.Holds lpa := by
      intro lpa
      unfold CommDev.Holds
      rw [hdev,hw.blockCount]
    obtain ⟨hnodes,hino,hsize⟩ := hsame
    have hblock := relocated_block hl hlpas.length hg ⟨hnodes,hino⟩ hcache
    have hkept : ∀ b lpa, rtfsFileResolveDataLpaByBlockIndex s.file.nodes s.file.ino b = .ok lpa → lpa ≠ invalidLpa →
        s'.dev.blocks lpa.toNat = s.dev.blocks lpa.toNat ∧ s'.dev.Holds lpa.toNat := by
      intro b lpa hres hz
      refine ⟨?_,(hholds _).mpr (h.pages.held b lpa hres hz)⟩
      rw [hdev]
      exact hw.blocks lpa (h.live b lpa hres hz)
    have hbase := h.pages.moved hkept
    have hdirty : ∀ b e lpa, ((b,e),lpa) ∈ pages.dirty.zip lpas →
        pageCacheGet s.file.pageCache b = e ∧ e.isDirty = true ∧ s'.dev.blocks lpa.toNat = e.page ∧
          lpa ≠ invalidLpa ∧ lpa ∈ lpas := by
      intro b e lpa hx
      obtain ⟨hmem,hd⟩ := (hl b e).mp (List.of_mem_zip hx).1
      have hin := (List.of_mem_zip hx).2
      refine ⟨?_,hd,?_,(hlpas.fresh lpa hin).1,hin⟩
      · unfold pageCacheGet
        rw [hmem]
        rfl
      · rw [hdev]
        exact hlpas.stored _ hx
    refine ⟨⟨?_,?_,h.pages.bound,fun b => ?_,fun b lpa hres hb => ?_,fun b lpa hres hz => ?_,fun b hd => ?_⟩,
      fun b lpa hres hz => ?_,by rw [hfs]; exact hw.space,fun lpa hlt => (hholds lpa).mpr (h.room lpa hlt),hidle⟩
    · rw [hnodes,hino]
      exact hg.tree
    · rw [hsize,hg.only.2.1]
      exact h.pages.size
    · cases hblock b with
      | moved e lpa hx hmapped hpage =>
        obtain ⟨hget,hd,hstored,hz,-⟩ := hdirty b e lpa hx
        have hold := h.pages.pages b
        rw [hget] at hold
        have hholds := hold.page (hold.dirty hd)
        rw [hmapped,hpage]
        refine ⟨fun _ lpa' hl' => Except.ok.inj hl',fun _ => hholds,fun hd => (by cases hd),fun _ lpa' hl' => ?_⟩
        cases hl'
        unfold storedPage
        rw [if_neg hz,hstored]
        exact hholds
      | kept hclean hmapped hpage =>
        rw [hmapped,hpage]
        exact hbase.pages b
    · rw [hsize,hg.only.2.1] at hb
      cases hblock b with
      | moved e lpa' hx hmapped hpage =>
        obtain ⟨hget,hd,-⟩ := hdirty b e lpa' hx
        exact absurd (h.pages.dirtyIn b (hget.symm ▸ hd)) (by omega)
      | kept hclean hmapped hpage =>
        rw [hmapped] at hres
        exact h.pages.holes b lpa hres hb
    · cases hblock b with
      | moved e lpa' hx hmapped hpage =>
        obtain ⟨-,-,-,-,hin⟩ := hdirty b e lpa' hx
        rw [hmapped] at hres
        cases hres
        exact (hholds _).mpr (hheld _ hin)
      | kept hclean hmapped hpage =>
        rw [hmapped] at hres
        exact (hkept b lpa hres hz).2
    · cases hblock b with
      | moved e lpa hx hmapped hpage =>
        rw [hpage] at hd
        cases hd
      | kept hclean hmapped hpage =>
        rw [hpage,hclean] at hd
        cases hd
    · rw [hfs]
      cases hblock b with
      | moved e lpa' hx hmapped hpage =>
        obtain ⟨-,-,-,-,hin⟩ := hdirty b e lpa' hx
        rw [hmapped] at hres
        cases hres
        rw [hlpas.bits,if_pos hin]
      | kept hclean hmapped hpage =>
        rw [hmapped] at hres
        exact hw.bits lpa (h.live b lpa hres hz)

end Commit

inductive FileEvent
  | io (e : ByteFile.Event)
  | committed (oldLpas : List UInt32)
  | commitLost

def FileEvent.bytes : FileEvent → ByteFile.Event
  | .io e => e
  | .committed _ => .keep
  | .commitLost => .keep

structure Outside (layout : RtfsMkfsLayout) (s : FileState) (fs : FsMeta) (dev : CommDev) : Prop where
  space : LpaInv layout ⟨fs,[]⟩
  room : ∀ lpa < layout.blockCount, dev.Holds lpa
  kept : ∀ b lpa, rtfsFileResolveDataLpaByBlockIndex s.file.nodes s.file.ino b = .ok lpa → lpa ≠ invalidLpa →
    lpaBit fs lpa = true ∧ dev.blocks lpa.toNat = s.dev.blocks lpa.toNat ∧ dev.Holds lpa.toNat
  queued : ∀ lpa ∈ s.file.pendingTruncateOldLpas.items, lpaBit fs lpa = true

def PageCache.evict (c : PageCache) (victim : UInt32 → Bool) : PageCache :=
  fun b => if victim b then none else c b

inductive FileStep (layout : RtfsMkfsLayout) (s : FileState) : FileEvent → FileState → Prop
  | read (fails : UInt32 → Option Errno) (realloc : Nat → Bool) (offset count : Nat) (served : Bool)
      (hs : served = true → Served (fileEnv s.dev fails realloc) s.file offset count) :
      FileStep layout s
        (.io (.read offset count served (rtfsFileInodeRead (fileEnv s.dev fails realloc) s.file offset count).1.toOption))
        { s with file := (rtfsFileInodeRead (fileEnv s.dev fails realloc) s.file offset count).2 }
  | write (fails : UInt32 → Option Errno) (realloc : Nat → Bool) (offset : Nat) (buffer : List UInt8) (served : Bool)
      (hend : offset + buffer.length ≤ maxFileBytes)
      (hs : served = true → Served (fileEnv s.dev fails realloc) s.file offset buffer.length) :
      FileStep layout s
        (.io (.write offset buffer served
          (rtfsFileInodeWrite (fileEnv s.dev fails realloc) s.file offset buffer).1.toOption))
        { s with file := (rtfsFileInodeWrite (fileEnv s.dev fails realloc) s.file offset buffer).2 }
  | truncate (fails : UInt32 → Option Errno) (realloc : Nat → Bool) {targetSize : UInt64} {file : RtfsFileInode}
      (ht : targetSize.toNat ≤ maxFileBytes)
      (he : rtfsFileInodeTruncate (fileEnv s.dev fails realloc) s.file targetSize = (.ok (),file)) :
      FileStep layout s (.io (.resize targetSize.toNat)) { s with file := file }
  | evict (victim : UInt32 → Bool) (hv : ∀ b, victim b = true → (pageCacheGet s.file.pageCache b).isDirty = false) :
      FileStep layout s (.io .keep) { s with file := { s.file with pageCache := s.file.pageCache.evict victim } }
  | outside {fs : FsMeta} {dev : CommDev} (h : Outside layout s fs dev) :
      FileStep layout s (.io .keep) { s with fs := fs, dev := dev }
  | commit {env : FileCommitEnv} {pages : DirtyPages} {oldLpas : List UInt32} {s' : FileState}
      (hl : ListsDirty pages s.file.pageCache)
      (hc : rtfsFileInodeCommitCowWritebackInternal env pages s = some (.ok oldLpas,s')) :
      FileStep layout s (.committed oldLpas) s'
  | commitFailed {env : FileCommitEnv} {pages : DirtyPages} {e : Errno} {s' : FileState}
      (hl : ListsDirty pages s.file.pageCache)
      (hc : rtfsFileInodeCommitCowWritebackInternal env pages s = some (.error e,s'))
      (hidle : s'.pending.items = []) (hkept : s'.file = s.file) : FileStep layout s (.io .keep) s'
  | commitLost {env : FileCommitEnv} {pages : DirtyPages} {e : Errno} {s' : FileState}
      (hl : ListsDirty pages s.file.pageCache)
      (hc : rtfsFileInodeCommitCowWritebackInternal env pages s = some (.error e,s'))
      (hidle : s'.pending.items = []) : FileStep layout s .commitLost s'

section Run
variable {layout : RtfsMkfsLayout} {s s' : FileState} {F : ByteFile}

theorem FilePagesOk.evicted {dev : CommDev} {f : RtfsFileInode} (h : FilePagesOk dev f F) {victim : UInt32 → Bool}
    (hv : ∀ b, victim b = true → (pageCacheGet f.pageCache b).isDirty = false) :
    FilePagesOk dev { f with pageCache := f.pageCache.evict victim } F := by
  have hget : ∀ b, pageCacheGet (f.pageCache.evict victim) b =
      if victim b then pageEntryInit else pageCacheGet f.pageCache b := by
    intro b
    unfold pageCacheGet PageCache.evict
    split <;> rfl
  refine ⟨h.tree,h.size,h.bound,fun b => ?_,h.holes,h.held,fun b hd => ?_⟩
  · simp only
    rw [hget]
    split
    · rename_i hvb
      exact ⟨fun hr => (by cases hr),fun hr => (by cases hr),fun hd => (by cases hd),
        fun _ => (h.pages b).stored (hv b hvb)⟩
    · exact h.pages b
  · simp only at hd
    rw [hget] at hd
    split at hd
    · cases hd
    · exact h.dirtyIn b hd

theorem committed_idle {env : FileCommitEnv} {pages : DirtyPages} {oldLpas : List UInt32}
    (hc : rtfsFileInodeCommitCowWritebackInternal env pages s = some (.ok oldLpas,s')) : s'.pending.items = [] := by
  obtain ⟨⟨r,w⟩,-,hr⟩ := Option.map_eq_some_iff.mp hc
  cases r with
  | some e => cases hr
  | none =>
    simp only at hr
    unfold commitRelocations at hr
    simp only at hr
    split at hr
    · cases hr
    · split at hr
      · cases hr
      · split at hr
        · cases hr
        · split at hr
          · cases hr
          · cases hr
            rfl

theorem FileStep.ok (ha : layout.Areas) (hN : layout.segmentCount.toNat < 8388608) {ev : FileEvent}
    (hs : FileStep layout s ev s') (h : FileOk layout s F) : ∃ F', ByteFile.Step F ev.bytes F' ∧ FileOk layout s' F' := by
  have hcommit {env : FileCommitEnv} {pages : DirtyPages} {r : Except Errno (List UInt32)}
      (hl : ListsDirty pages s.file.pageCache)
      (hc : rtfsFileInodeCommitCowWritebackInternal env pages s = some (r,s')) (hidle : s'.pending.items = []) :
      ∃ F', ByteFile.Step F .keep F' ∧ FileOk layout s' F' :=
    ⟨F,.keep,(commit_ends ha hN h hl hc hidle).ok h hl hidle⟩
  cases hs with
  | read fails realloc offset count served hserved =>
    have hread := h.pages.read fails realloc offset count
    have honly := read_only (fileEnv s.dev fails realloc) s.file offset count
    have hok : FileOk layout { s with file := (rtfsFileInodeRead (fileEnv s.dev fails realloc) s.file offset count).2 } F := by
      refine ⟨hread.ok,?_,h.space,h.room,h.idle⟩
      simp only [honly.nodes,honly.ino]
      exact h.live
    refine ⟨F,?_,hok⟩
    cases hr : (rtfsFileInodeRead (fileEnv s.dev fails realloc) s.file offset count).1 with
    | error e =>
      cases served with
      | true => cases hr.symm.trans (hread.served (hserved rfl))
      | false => exact .readFailed
    | ok bytes =>
      exact .read (hread.bytes bytes hr) (fun hsv => Except.ok.inj (hr.symm.trans (hread.served (hserved hsv))))
  | write fails realloc offset buffer served hend hserved =>
    have hwrite := h.pages.write fails realloc offset buffer hend
    have hok {F' : ByteFile}
        (hp : FilePagesOk s.dev (rtfsFileInodeWrite (fileEnv s.dev fails realloc) s.file offset buffer).2 F') :
        FileOk layout { s with file := (rtfsFileInodeWrite (fileEnv s.dev fails realloc) s.file offset buffer).2 } F' := by
      refine ⟨hp,?_,h.space,h.room,h.idle⟩
      simp only [hwrite.nodes.1,hwrite.nodes.2]
      exact h.live
    cases hr : (rtfsFileInodeWrite (fileEnv s.dev fails realloc) s.file offset buffer).1 with
    | error e =>
      refine ⟨F,?_,hok (hwrite.failed e hr)⟩
      cases served with
      | true => cases hr.symm.trans (hwrite.served (hserved rfl))
      | false => exact .writeFailed
    | ok n =>
      obtain ⟨hn,hpages⟩ := hwrite.written n hr
      exact ⟨_,.write hn (fun hsv => Except.ok.inj (hr.symm.trans (hwrite.served (hserved hsv)))),hok hpages⟩
  | @truncate fails realloc targetSize file ht he =>
    obtain ⟨hpages,hsized⟩ := h.pages.truncate fails realloc ht he
    refine ⟨_,.resize,hpages,fun b lpa hres hz => ?_,h.space,h.room,h.idle⟩
    by_cases hb : b.toNat < sizeToBlock targetSize
    · simp only at hres
      rw [hsized.kept b hb] at hres
      exact h.live b lpa hres hz
    · exact absurd (hsized.cut b lpa (Nat.not_lt.mp hb) hres) hz
  | evict victim hv => exact ⟨F,.keep,h.pages.evicted hv,h.live,h.space,h.room,h.idle⟩
  | outside ho =>
    exact ⟨F,.keep,h.pages.moved (fun b lpa hres hz => (ho.kept b lpa hres hz).2),
      fun b lpa hres hz => (ho.kept b lpa hres hz).1,ho.space,ho.room,h.idle⟩
  | commit hl hc => exact hcommit hl hc (committed_idle hc)
  | commitFailed hl hc hidle hkept => exact hcommit hl hc hidle
  | commitLost hl hc hidle => exact hcommit hl hc hidle

def FileSpec (F : ByteFile) (ev : FileEvent) (F' : ByteFile) : Prop := ByteFile.Step F ev.bytes F'

theorem fileRun_ok (ha : layout.Areas) (hN : layout.segmentCount.toNat < 8388608) {events : List FileEvent}
    (hrun : Labelled.Run (FileStep layout) s events s') (h : FileOk layout s F) :
    ∃ F', Labelled.Run FileSpec F events F' ∧ FileOk layout s' F' :=
  hrun.simulates (R := FileOk layout) (fun _ _ _ _ h hs => hs.ok ha hN h) h

end Run

-- a file as it is opened: nothing cached, its bytes at the addresses that the index gives
structure Opened (s : FileState) (F : ByteFile) : Prop where
  tree : IndexTree s.file.nodes s.file.ino
  size : F.size = s.file.iSize.toNat
  bound : F.size ≤ maxFileBytes
  cache : s.file.pageCache = fun _ => none
  stored : ∀ b lpa, rtfsFileResolveDataLpaByBlockIndex s.file.nodes s.file.ino b = .ok lpa →
    PageHolds F b (storedPage s.dev lpa)
  holes : ∀ b lpa, rtfsFileResolveDataLpaByBlockIndex s.file.nodes s.file.ino b = .ok lpa →
    sizeToBlock s.file.iSize ≤ b.toNat → lpa = invalidLpa
  live : ∀ b lpa, rtfsFileResolveDataLpaByBlockIndex s.file.nodes s.file.ino b = .ok lpa → lpa ≠ invalidLpa →
    lpaBit s.fs lpa = true ∧ s.dev.Holds lpa.toNat
  idle : s.pending.items = []

theorem Opened.ok {layout : RtfsMkfsLayout} {s : FileState} {F : ByteFile} (h : Opened s F)
    (hspace : LpaInv layout ⟨s.fs,[]⟩) (hroom : ∀ lpa < layout.blockCount, s.dev.Holds lpa) : FileOk layout s F := by
  have hget : ∀ b, pageCacheGet s.file.pageCache b = pageEntryInit := by
    intro b
    rw [h.cache]
    rfl
  refine ⟨⟨h.tree,h.size,h.bound,fun b => ?_,h.holes,fun b lpa hres hz => (h.live b lpa hres hz).2,fun b hd => ?_⟩,
    fun b lpa hres hz => (h.live b lpa hres hz).1,hspace,hroom,h.idle⟩
  · rw [hget]
    exact ⟨fun hr => (by cases hr),fun hr => (by cases hr),fun hd => (by cases hd),fun _ => h.stored b⟩
  · rw [hget] at hd
    cases hd

theorem file_refines_bytes (options : RtfsMkfsOptions) (layout : RtfsMkfsLayout) (image : FsMeta)
    (s s' : FileState) (F : ByteFile) (returned : List UInt32) (events : List FileEvent)
    (h : MkfsImage options layout image) (hfs : Relation.ReflTransGen LpaStep ⟨image,[]⟩ ⟨s.fs,returned⟩)
    (hroom : ∀ lpa < layout.blockCount, s.dev.Holds lpa) (hopen : Opened s F)
    (hrun : Labelled.Run (FileStep layout) s events s') : ∃ F', Labelled.Run FileSpec F events F' := by
  obtain ⟨ha,hN,hspace⟩ := @image_writable options layout image
    ⟨s.fs,s.dev,⟨[],.nil,by decide⟩,s.pending⟩ returned h hfs hroom
  obtain ⟨F',hspec,-⟩ := fileRun_ok ha hN hrun (hopen.ok hspace hroom)
  exact ⟨F',hspec⟩

section New

theorem emptyFile_read (p : List Nat) (i : Nat) : SlotTree.read (emptyFile.cells 1) 1 p i = some 0 := by
  have hzero : ∀ k, nodeCells true Buf.zero k = 0 := by
    intro k
    simp only [nodeCells,if_true]
    split
    · exact u32At_zero _
    · rfl
  unfold SlotTree.read
  cases p with
  | nil => simp only [SlotTree.reach,List.foldl_nil,SlotTree.value,emptyFile_cells,Option.map_some,hzero]
  | cons k rest =>
    have hhole : SlotTree.reach (emptyFile.cells 1) 1 [k] = .hole :=
      SlotTree.reach_hole (p := []) rfl emptyFile_cells (hzero k)
    rw [show k :: rest = [k] ++ rest from rfl,SlotTree.reach_hole_append hhole]
    rfl

theorem emptyFile_holes {b lpa : UInt32} (h : rtfsFileResolveDataLpaByBlockIndex emptyFile 1 b = .ok lpa) :
    lpa = invalidLpa := by
  rw [fileResolve_eq emptyFile_tree,slotAddr] at h
  cases hslot : blockSlot b.toNat with
  | none =>
    rw [hslot] at h
    cases h
  | some t =>
    rw [hslot] at h
    simp only [emptyFile_read] at h
    exact (Except.ok.inj h).symm

def newFile : RtfsFileInode := ⟨1,0,emptyFile,fun _ => none,GrowArray.empty,false⟩

def newFileState : FileState := ⟨newFile,smallMeta,smallDev (fun _ => Buf.zero),⟨[],0⟩,0⟩

theorem newFile_opened : Opened newFileState .empty := by
  refine ⟨emptyFile_tree,rfl,by decide,rfl,fun b lpa hres i hi => ?_,fun b lpa hres _ => emptyFile_holes hres,
    fun b lpa hres hz => absurd (emptyFile_holes hres) hz,rfl⟩
  rw [emptyFile_holes hres]
  exact Buf.get_zero i

section Steps
variable {layout : RtfsMkfsLayout} {s : FileState} (fails : UInt32 → Option Errno) (realloc : Nat → Bool)
  {offset : Nat}

theorem served_of_pages {env : FileEnv} {f : RtfsFileInode} {count : Nat}
    (h : ∀ i < count, (pageContent env f (UInt32.ofNat ((offset + i) / 4096))).toOption.isSome = true) :
    Served env f offset count := by
  intro i hi
  obtain ⟨page,hpage⟩ := Option.isSome_iff_exists.mp (h i hi)
  exact ⟨page,ok_of_toOption hpage⟩

theorem file_write_step {buffer : List UInt8} {n : Nat} (hend : offset + buffer.length ≤ maxFileBytes)
    (hs : ∀ i < buffer.length, (pageContent (fileEnv s.dev fails realloc) s.file
      (UInt32.ofNat ((offset + i) / 4096))).toOption.isSome = true)
    (h : (rtfsFileInodeWrite (fileEnv s.dev fails realloc) s.file offset buffer).1.toOption = some n) :
    FileStep layout s (.io (.write offset buffer true (some n)))
      { s with file := (rtfsFileInodeWrite (fileEnv s.dev fails realloc) s.file offset buffer).2 } :=
  h ▸ .write fails realloc offset buffer true hend (fun _ => served_of_pages hs)

theorem file_read_step {count : Nat} {bytes : List UInt8}
    (hs : ∀ i < count, (pageContent (fileEnv s.dev fails realloc) s.file
      (UInt32.ofNat ((offset + i) / 4096))).toOption.isSome = true)
    (h : (rtfsFileInodeRead (fileEnv s.dev fails realloc) s.file offset count).1.toOption = some bytes) :
    FileStep layout s (.io (.read offset count true (some bytes)))
      { s with file := (rtfsFileInodeRead (fileEnv s.dev fails realloc) s.file offset count).2 } :=
  h ▸ .read fails realloc offset count true (fun _ => served_of_pages hs)

theorem file_truncate_step (targetSize : UInt64) (ht : targetSize.toNat ≤ maxFileBytes)
    (h : (rtfsFileInodeTruncate (fileEnv s.dev fails realloc) s.file targetSize).1.toOption = some ()) :
    FileStep layout s (.io (.resize targetSize.toNat))
      { s with file := (rtfsFileInodeTruncate (fileEnv s.dev fails realloc) s.file targetSize).2 } :=
  .truncate fails realloc ht (Prod.ext (ok_of_toOption h) rfl)

theorem small_block {f : RtfsFileInode} {dev : CommDev} {F : ByteFile} (h : FilePagesOk dev f F) (n : Nat)
    (hn : sizeToBlock f.iSize = n) (hle : n ≤ 2) {b : UInt32} (hd : (pageCacheGet f.pageCache b).isDirty = true) :
    b ∈ [0,1].take n := by
  have hlt := h.dirtyIn b hd
  rw [hn] at hlt
  have hb : b = UInt32.ofNat b.toNat := UInt32.toNat_inj.mp (by rw [UInt32.toNat_ofNat']; omega)
  have hcases : b.toNat = 0 ∨ b.toNat = 1 := by omega
  interval_cases n
  · omega
  · rw [hb,show b.toNat = 0 by omega]
    decide
  · rcases hcases with h0 | h1
    · rw [hb,h0]
      decide
    · rw [hb,h1]
      decide

theorem two_sorted : ([0,1] : List UInt32).Pairwise (· < ·) := by
  decide

theorem one_sorted : ([0] : List UInt32).Pairwise (· < ·) := by
  decide

theorem two_short : ([0,1] : List UInt32).length < 2147483648 := by
  decide

theorem one_short : ([0] : List UInt32).length < 2147483648 := by
  decide

def FileState.committed (env : FileCommitEnv) (pages : DirtyPages) (s : FileState) : FileState :=
  ((rtfsFileInodeCommitCowWritebackInternal env pages s).map Prod.snd).getD s

theorem commit_call {env : FileCommitEnv} {pages : DirtyPages} {oldLpas : List UInt32}
    (h : (rtfsFileInodeCommitCowWritebackInternal env pages s).map (fun r => r.1.toOption) = some (some oldLpas)) :
    rtfsFileInodeCommitCowWritebackInternal env pages s = some (.ok oldLpas,s.committed env pages) := by
  obtain ⟨⟨r,s'⟩,hcall,hr⟩ := Option.map_eq_some_iff.mp h
  unfold FileState.committed
  rw [hcall]
  exact congrArg some (Prod.ext (ok_of_toOption hr) rfl)

end Steps

-- a write over the end of a block, what is read of it, and what is left of it behind a truncate
theorem newFile_write_read : ∃ F', Labelled.Run FileSpec .empty
    [.io (.write 4090 (List.replicate 10 7) true (some 10)),
      .io (.read 4085 20 true (some (List.replicate 5 0 ++ List.replicate 10 7))),
      .io (.resize 4092),
      .io (.read 4085 20 true (some (List.replicate 5 0 ++ List.replicate 2 7)))] F' :=
  file_refines_bytes smallOptions smallLayout _ newFileState _ .empty [] _ smallMeta_image .refl (smallDev_holds _)
    newFile_opened
    (.cons (file_write_step (fun _ => none) (fun _ => true) (by decide) (by decide +kernel)
      (by decide +kernel))
    (.cons (file_read_step (fun _ => none) (fun _ => true) (by decide +kernel) (by decide +kernel))
    (.cons (file_truncate_step (fun _ => none) (fun _ => true) 4092 (by decide)
      (by decide +kernel))
    (.cons (file_read_step (fun _ => none) (fun _ => true) (by decide +kernel) (by decide +kernel))
      .nil))))

end New

end Rtfs
