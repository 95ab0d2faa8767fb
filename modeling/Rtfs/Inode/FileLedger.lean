import Rtfs.Inode.FileBytes

namespace Rtfs

open DirEntries (sizeToBlock)

def Maps (f : RtfsFileInode) (lpa : UInt32) : Prop :=
  lpa ≠ invalidLpa ∧ ∃ b, rtfsFileResolveDataLpaByBlockIndex f.nodes f.ino b = .ok lpa

def DistinctLpas (f : RtfsFileInode) : Prop :=
  ∀ b b' lpa, rtfsFileResolveDataLpaByBlockIndex f.nodes f.ino b = .ok lpa →
    rtfsFileResolveDataLpaByBlockIndex f.nodes f.ino b' = .ok lpa → lpa ≠ invalidLpa → b = b'

structure FileLedger (s : FileState) (base : UInt32 → Prop) : Prop where
  all : ∀ lpa, base lpa ↔ Maps s.file lpa ∨ lpa ∈ s.file.pendingTruncateOldLpas.items
  apart : ∀ lpa, Maps s.file lpa → lpa ∉ s.file.pendingTruncateOldLpas.items
  nodup : s.file.pendingTruncateOldLpas.items.Nodup
  distinct : DistinctLpas s.file
  queued : ∀ lpa ∈ s.file.pendingTruncateOldLpas.items, lpa ≠ invalidLpa ∧ lpaBit s.fs lpa = true

section Blocks
variable {f f' : RtfsFileInode} {targetSize : UInt64}

theorem mem_blockLpas {start n : Nat} {lpa : UInt32} (hz : lpa ≠ invalidLpa) :
    lpa ∈ blockLpas f start n ↔ ∃ b, start ≤ b ∧ b < start + n ∧ blockLpa f b = .ok lpa := by
  induction n generalizing start with
  | zero => exact ⟨fun h => absurd h List.not_mem_nil,fun ⟨b,hlo,hhi,_⟩ => by omega⟩
  | succ n ih =>
    rw [blockLpas,List.mem_cons,ih]
    constructor
    · rintro (hhead | ⟨b,hlo,hhi,hb⟩)
      · refine ⟨start,le_rfl,by omega,?_⟩
        cases hs : blockLpa f start with
        | error e =>
          rw [hs] at hhead
          exact absurd hhead hz
        | ok v =>
          rw [hs] at hhead
          exact congrArg Except.ok hhead.symm
      · exact ⟨b,by omega,by omega,hb⟩
    · rintro ⟨b,hlo,hhi,hb⟩
      by_cases hs : b = start
      · subst hs
        rw [hb]
        exact .inl rfl
      · exact .inr ⟨b,by omega,by omega,hb⟩

theorem blockLpa_word {b : Nat} {lpa : UInt32} (h : blockLpa f b = .ok lpa) :
    (UInt32.ofNat b).toNat = b ∧ rtfsFileResolveDataLpaByBlockIndex f.nodes f.ino (UInt32.ofNat b) = .ok lpa := by
  have hb : ¬ 4294967295 < b := by
    intro hbig
    rw [blockLpa_big hbig] at h
    cases h
  rw [blockLpa_below hb] at h
  refine ⟨?_,mapError_ok h⟩
  rw [UInt32.toNat_ofNat']
  omega

theorem blockLpas_nodup (hd : DistinctLpas f) (start n : Nat) :
    ((blockLpas f start n).filter (· ≠ invalidLpa)).Nodup := by
  induction n generalizing start with
  | zero => exact List.nodup_nil
  | succ n ih =>
    rw [blockLpas,List.filter_cons]
    split
    · rename_i hz
      have hz' : (blockLpa f start).toOption.getD invalidLpa ≠ invalidLpa := by simpa using hz
      refine List.nodup_cons.mpr ⟨fun hin => ?_,ih (start + 1)⟩
      obtain ⟨b,hlo,hhi,hb⟩ := (mem_blockLpas hz').mp (List.mem_of_mem_filter hin)
      cases hs : blockLpa f start with
      | error e =>
        rw [hs] at hz'
        exact hz' rfl
      | ok v =>
        rw [hs] at hz' hb
        obtain ⟨hw,hres⟩ := blockLpa_word hs
        obtain ⟨hw',hres'⟩ := blockLpa_word hb
        have heq := congrArg UInt32.toNat (hd _ _ _ hres hres' hz')
        omega
    · exact ih (start + 1)

end Blocks

section Ledger
variable {layout : RtfsMkfsLayout} {s s' : FileState} {F : ByteFile} {base : UInt32 → Prop}

theorem FileLedger.congr (h : FileLedger s base) (hnodes : s'.file.nodes = s.file.nodes)
    (hino : s'.file.ino = s.file.ino) (hpending : s'.file.pendingTruncateOldLpas = s.file.pendingTruncateOldLpas)
    (hbits : ∀ lpa ∈ s.file.pendingTruncateOldLpas.items, lpaBit s'.fs lpa = true) : FileLedger s' base := by
  have hmaps : ∀ lpa, Maps s'.file lpa ↔ Maps s.file lpa := by
    intro lpa
    unfold Maps
    rw [hnodes,hino]
  refine ⟨fun lpa => ?_,fun lpa hm => ?_,?_,?_,fun lpa hin => ?_⟩
  · rw [hmaps,hpending]
    exact h.all lpa
  · rw [hpending]
    exact h.apart lpa ((hmaps lpa).mp hm)
  · rw [hpending]
    exact h.nodup
  · unfold DistinctLpas
    rw [hnodes,hino]
    exact h.distinct
  · rw [hpending] at hin
    exact ⟨(h.queued lpa hin).1,hbits lpa hin⟩

theorem FileLedger.resized (h : FileLedger s base) (hok : FileOk layout s F) {file : RtfsFileInode}
    {targetSize : UInt64} (hr : Resized s.file file targetSize) : FileLedger { s with file := file } base := by
  have hmaps : ∀ lpa, Maps file lpa ↔ lpa ≠ invalidLpa ∧ ∃ b : UInt32, b.toNat < sizeToBlock targetSize ∧
      rtfsFileResolveDataLpaByBlockIndex s.file.nodes s.file.ino b = .ok lpa := by
    intro lpa
    refine and_congr_right (fun hz => ⟨fun ⟨b,hb⟩ => ?_,fun ⟨b,hlt,hb⟩ => ⟨b,(hr.kept b hlt).trans hb⟩⟩)
    by_cases hlt : b.toNat < sizeToBlock targetSize
    · exact ⟨b,hlt,(hr.kept b hlt).symm.trans hb⟩
    · exact absurd (hr.cut b lpa (Nat.not_lt.mp hlt) hb) hz
  have hnew : ∀ lpa, lpa ∈ (blockLpas s.file (sizeToBlock targetSize)
      (sizeToBlock s.file.iSize - sizeToBlock targetSize)).filter (· ≠ invalidLpa) ↔
      lpa ≠ invalidLpa ∧ ∃ b : UInt32, sizeToBlock targetSize ≤ b.toNat ∧
        rtfsFileResolveDataLpaByBlockIndex s.file.nodes s.file.ino b = .ok lpa := by
    intro lpa
    rw [List.mem_filter,and_comm,decide_eq_true_iff]
    refine and_congr_right (fun hz => ?_)
    rw [mem_blockLpas hz]
    constructor
    · rintro ⟨b,hlo,hhi,hb⟩
      obtain ⟨hw,hres⟩ := blockLpa_word hb
      exact ⟨UInt32.ofNat b,by omega,hres⟩
    · rintro ⟨b,hlo,hb⟩
      have hin : b.toNat < sizeToBlock s.file.iSize := by
        by_contra hbeyond
        exact hz (hok.pages.holes b lpa hb (Nat.not_lt.mp hbeyond))
      exact ⟨b.toNat,hlo,by omega,(blockLpa_iff s.file b lpa).mpr hb⟩
  have hmapped : ∀ lpa, Maps s.file lpa ↔ Maps file lpa ∨ lpa ∈ (blockLpas s.file (sizeToBlock targetSize)
      (sizeToBlock s.file.iSize - sizeToBlock targetSize)).filter (· ≠ invalidLpa) := by
    intro lpa
    rw [hmaps,hnew,← and_or_left]
    refine and_congr_right (fun hz => ⟨fun ⟨b,hb⟩ => ?_,?_⟩)
    · rcases Nat.lt_or_ge b.toNat (sizeToBlock targetSize) with hlt | hge
      · exact .inl ⟨b,hlt,hb⟩
      · exact .inr ⟨b,hge,hb⟩
    · rintro (⟨b,-,hb⟩ | ⟨b,-,hb⟩) <;> exact ⟨b,hb⟩
  refine ⟨fun lpa => ?_,fun lpa hm hin => ?_,?_,fun b b' lpa hb hb' hz => ?_,fun lpa hin => ?_⟩
  · rw [h.all,hmapped]
    simp only [hr.pending,List.mem_append]
    tauto
  · simp only [hr.pending,List.mem_append] at hin
    have hold := (hmapped lpa).mpr (.inl hm)
    rcases hin with hin | hin
    · exact h.apart lpa hold hin
    · obtain ⟨hz,b,hlt,hb⟩ := (hmaps lpa).mp hm
      obtain ⟨-,b',hge,hb'⟩ := (hnew lpa).mp hin
      have heq := h.distinct b b' lpa hb hb' hz
      rw [heq] at hlt
      omega
  · simp only [hr.pending]
    refine List.nodup_append.mpr ⟨h.nodup,blockLpas_nodup h.distinct _ _,fun lpa hin lpa' hin' heq => ?_⟩
    subst heq
    exact h.apart lpa ((hmapped lpa).mpr (.inr hin')) hin
  · have hlt : ∀ b lpa, rtfsFileResolveDataLpaByBlockIndex file.nodes file.ino b = .ok lpa → lpa ≠ invalidLpa →
        rtfsFileResolveDataLpaByBlockIndex s.file.nodes s.file.ino b = .ok lpa := by
      intro b lpa hb hz
      by_cases hlt : b.toNat < sizeToBlock targetSize
      · exact (hr.kept b hlt).symm.trans hb
      · exact absurd (hr.cut b lpa (Nat.not_lt.mp hlt) hb) hz
    exact h.distinct b b' lpa (hlt b lpa hb hz) (hlt b' lpa hb' hz) hz
  · simp only [hr.pending,List.mem_append] at hin
    rcases hin with hin | hin
    · exact h.queued lpa hin
    · obtain ⟨hz,b,-,hb⟩ := (hnew lpa).mp hin
      exact ⟨hz,hok.live b lpa hb hz⟩

theorem itemsOf_oldLpas {pages : DirtyPages} {lpas : List UInt32} (hlen : lpas.length = pages.dirty.length) :
    (itemsOf pages lpas).map (·.oldLpa) = pages.dirty.map (fun p => p.2.lpa) := by
  have hfirst : (pages.dirty.zip lpas).map Prod.fst = pages.dirty := List.map_fst_zip hlen.ge
  have hsame : (itemsOf pages lpas).map (·.oldLpa) =
      ((pages.dirty.zip lpas).map Prod.fst).map (fun p => p.2.lpa) := by
    unfold itemsOf
    rw [List.map_map,List.map_map]
    rfl
  rw [hsame,hfirst]

structure Replaced (pages : DirtyPages) (lpas : List UInt32) (s s' : FileState) : Prop where
  old : ∀ b e, (b,e) ∈ pages.dirty → e.isDirty = true ∧ pageCacheGet s.file.pageCache b = e ∧
    rtfsFileResolveDataLpaByBlockIndex s.file.nodes s.file.ino b = .ok e.lpa
  fresh : ∀ lpa ∈ lpas, lpa ≠ invalidLpa ∧ lpaBit s.fs lpa = false
  nodup : lpas.Nodup
  length : lpas.length = pages.dirty.length
  block : ∀ b, BlockCommit pages lpas s.file s'.file b

theorem CommitEnds.replaced {pages : DirtyPages} {r : Except Errno (List UInt32)}
    (hc : CommitEnds layout pages s r s') (hok : FileOk layout s F) (hl : ListsDirty pages s.file.pageCache)
    (hr : s'.file ≠ s.file ∨ ∃ old, r = .ok old) : ∃ lpas, Replaced pages lpas s s' ∧
      (∀ e, r = .error e → s'.file.pendingTruncateOldLpas = s.file.pendingTruncateOldLpas) ∧
      ∀ old, r = .ok old → s'.file.pendingTruncateOldLpas.items = [] ∧
        old = ((pages.dirty.map (fun p => p.2.lpa)) ++ s.file.pendingTruncateOldLpas.items).filter
          (· ≠ invalidLpa) := by
  cases hc with
  | kept w r₀ hw hfs hdev hfile hdisk he =>
    obtain ⟨e,rfl⟩ := he
    rcases hr with hne | ⟨old,ho⟩
    · exact absurd hfile hne
    · cases ho
  | moved w lpas g hw hfs hdev hlpas hheld hg hsame hdisk hcache hfailed hold =>
    refine ⟨lpas,⟨fun b e hmem => ?_,hlpas.fresh,hlpas.nodup,hlpas.length,
      relocated_block hl hlpas.length hg ⟨hsame.1,hsame.2.1⟩ hcache⟩,hfailed,fun old ho => ?_⟩
    · obtain ⟨hentry,hd⟩ := (hl b e).mp hmem
      have hget : pageCacheGet s.file.pageCache b = e := by
        unfold pageCacheGet
        rw [hentry]
        rfl
      have hpage := hok.pages.pages b
      rw [hget] at hpage
      refine ⟨hd,hget,?_⟩
      cases hat : relocationAt (itemsOf pages lpas) b with
      | none => exact absurd (List.mem_map.mpr ⟨(b,e),hmem,rfl⟩) (itemsOf_none hlpas.length hat)
      | some x =>
        obtain ⟨-,lpa,hres⟩ := hg.mapped b x hat
        rw [hres,hpage.lpa (hpage.dirty hd) lpa hres]
    · obtain ⟨hpending,hlist⟩ := hold old ho
      rw [itemsOf_oldLpas hlpas.length] at hlist
      exact ⟨hpending,hlist⟩

theorem Replaced.maps {pages : DirtyPages} {lpas : List UInt32} (h : Replaced pages lpas s s') {lpa : UInt32}
    (hm : Maps s'.file lpa) : lpa ∈ lpas ∨
      ∃ b, (pageCacheGet s.file.pageCache b).isDirty = false ∧
        rtfsFileResolveDataLpaByBlockIndex s.file.nodes s.file.ino b = .ok lpa := by
  obtain ⟨hz,b,hb⟩ := hm
  cases h.block b with
  | moved e lpa' hx hmapped hpage =>
    rw [hmapped] at hb
    cases hb
    exact .inl (List.of_mem_zip hx).2
  | kept hclean hmapped hpage =>
    rw [hmapped] at hb
    exact .inr ⟨b,hclean,hb⟩

theorem FileLedger.returned {pages : DirtyPages} {lpas : List UInt32} (h : FileLedger s base)
    (hok : FileOk layout s F) (hr : Replaced pages lpas s s') (lpa : UInt32) :
    (lpa ≠ invalidLpa ∧ ((∃ p ∈ pages.dirty, p.2.lpa = lpa) ∨ lpa ∈ s.file.pendingTruncateOldLpas.items)) ↔
      base lpa ∧ ¬ Maps s'.file lpa := by
  have hbit : ∀ lpa, lpa ∈ lpas → lpaBit s.fs lpa = true → False := by
    intro lpa hin hset
    exact absurd hset (by rw [(hr.fresh lpa hin).2]; decide)
  constructor
  · rintro ⟨hz,⟨⟨b,e⟩,hmem,hlpa⟩ | hin⟩
    · obtain ⟨hd,hget,hres⟩ := hr.old b e hmem
      simp only at hlpa
      rw [hlpa] at hres
      refine ⟨(h.all lpa).mpr (.inl ⟨hz,b,hres⟩),fun hm => ?_⟩
      rcases hr.maps hm with hnew | ⟨b',hclean,hb'⟩
      · exact hbit lpa hnew (hok.live b lpa hres hz)
      · rw [h.distinct b' b lpa hb' hres hz,hget,hd] at hclean
        cases hclean
    · refine ⟨(h.all lpa).mpr (.inr hin),fun hm => ?_⟩
      rcases hr.maps hm with hnew | ⟨b',-,hb'⟩
      · exact hbit lpa hnew (h.queued lpa hin).2
      · exact h.apart lpa ⟨hz,b',hb'⟩ hin
  · rintro ⟨hb,hnot⟩
    rcases (h.all lpa).mp hb with ⟨hz,b,hres⟩ | hin
    · refine ⟨hz,.inl ?_⟩
      cases hr.block b with
      | moved e lpa' hx hmapped hpage =>
        have hmem := (List.of_mem_zip hx).1
        exact ⟨(b,e),hmem,Except.ok.inj ((hr.old b e hmem).2.2.symm.trans hres)⟩
      | kept hclean hmapped hpage => exact absurd ⟨hz,b,hmapped.trans hres⟩ hnot
    · exact ⟨(h.queued lpa hin).1,.inr hin⟩

theorem zip_second_inj {α β : Type} {l : List α} {m : List β} (hnd : m.Nodup) (hlen : m.length = l.length) {x y : α}
    {a : β} (hx : (x,a) ∈ l.zip m) (hy : (y,a) ∈ l.zip m) : x = y := by
  have hsecond : (l.zip m).map Prod.snd = m := List.map_snd_zip hlen.le
  exact (Prod.mk.inj (List.inj_on_of_nodup_map (hsecond.symm ▸ hnd) hx hy rfl)).1

theorem Replaced.distinct {pages : DirtyPages} {lpas : List UInt32} (hr : Replaced pages lpas s s')
    (hok : FileOk layout s F) (hd : DistinctLpas s.file) : DistinctLpas s'.file := by
  intro b b' lpa hb hb' hz
  have hbit : lpa ∈ lpas → ∀ b, rtfsFileResolveDataLpaByBlockIndex s.file.nodes s.file.ino b = .ok lpa → False := by
    intro hin b hres
    exact absurd (hok.live b lpa hres hz) (by rw [(hr.fresh lpa hin).2]; decide)
  cases hr.block b with
  | moved e x hx hmapped hpage =>
    rw [hmapped] at hb
    cases hb
    cases hr.block b' with
    | moved e' x' hx' hmapped' hpage' =>
      rw [hmapped'] at hb'
      cases hb'
      exact (Prod.mk.inj (zip_second_inj hr.nodup hr.length hx hx')).1
    | kept hclean' hmapped' hpage' =>
      rw [hmapped'] at hb'
      exact (hbit (List.of_mem_zip hx).2 b' hb').elim
  | kept hclean hmapped hpage =>
    rw [hmapped] at hb
    cases hr.block b' with
    | moved e' x' hx' hmapped' hpage' =>
      rw [hmapped'] at hb'
      cases hb'
      exact (hbit (List.of_mem_zip hx').2 b hb).elim
    | kept hclean' hmapped' hpage' =>
      rw [hmapped'] at hb'
      exact hd b b' lpa hb hb' hz

theorem FileLedger.committed {pages : DirtyPages} {oldLpas : List UInt32} (h : FileLedger s base)
    (hok : FileOk layout s F) (hl : ListsDirty pages s.file.pageCache)
    (hc : CommitEnds layout pages s (.ok oldLpas) s') : oldLpas.Nodup ∧
      (∀ lpa, lpa ∈ oldLpas ↔ base lpa ∧ ¬ Maps s'.file lpa) ∧ FileLedger s' (Maps s'.file) ∧
      s'.file.pendingTruncateOldLpas.items = [] := by
  obtain ⟨lpas,hr,-,hlist⟩ := hc.replaced hok hl (.inr ⟨oldLpas,rfl⟩)
  obtain ⟨hpending,rfl⟩ := hlist oldLpas rfl
  have hdirty : ((pages.dirty.map (fun p => p.2.lpa)).filter (· ≠ invalidLpa)).Nodup := by
    rw [List.filter_map]
    refine List.Nodup.map_on (fun x hx y hy he => ?_) (List.Nodup.filter _ (List.Nodup.of_map _ (dirty_nodup pages)))
    obtain ⟨hx,hz⟩ := List.mem_filter.mp hx
    have hy := List.mem_of_mem_filter hy
    have hz : x.2.lpa ≠ invalidLpa := by simpa using hz
    have hb := h.distinct x.1 y.1 x.2.lpa (hr.old _ _ hx).2.2 (he ▸ (hr.old _ _ hy).2.2) hz
    exact List.inj_on_of_nodup_map (dirty_nodup pages) hx hy hb
  refine ⟨?_,fun lpa => ?_,⟨fun lpa => ?_,fun lpa _ => ?_,?_,hr.distinct hok h.distinct,fun lpa hin => ?_⟩,hpending⟩
  · rw [List.filter_append]
    refine List.nodup_append.mpr ⟨hdirty,h.nodup.filter _,fun lpa hin lpa' hin' heq => ?_⟩
    subst heq
    obtain ⟨hin,hz⟩ := List.mem_filter.mp hin
    obtain ⟨⟨b,e⟩,hmem,rfl⟩ := List.mem_map.mp hin
    exact h.apart _ ⟨by simpa using hz,b,(hr.old b e hmem).2.2⟩ (List.mem_of_mem_filter hin')
  · rw [← h.returned hok hr,List.mem_filter,and_comm,decide_eq_true_iff,List.mem_append,List.mem_map]
  · rw [hpending]
    exact ⟨.inl,fun hm => hm.resolve_right List.not_mem_nil⟩
  · rw [hpending]
    exact List.not_mem_nil
  · rw [hpending]
    exact List.nodup_nil
  · rw [hpending] at hin
    exact absurd hin List.not_mem_nil

theorem CommitEnds.bits {pages : DirtyPages} {r : Except Errno (List UInt32)} (hc : CommitEnds layout pages s r s')
    {lpa : UInt32} (hbit : lpaBit s.fs lpa = true) : lpaBit s'.fs lpa = true := by
  cases hc with
  | kept w r₀ hw hfs hdev hfile hdisk hr =>
    rw [hfs]
    exact hw.bits lpa hbit
  | moved w lpas g hw hfs hdev hlpas hheld hg hsame hdisk hcache hfailed hold =>
    rw [hfs]
    exact hw.bits lpa hbit

theorem FileLedger.step (ha : layout.Areas) (hN : layout.segmentCount.toNat < 8388608) {e : ByteFile.Event}
    (hs : FileStep layout s (.io e) s') (hok : FileOk layout s F) (h : FileLedger s base) : FileLedger s' base := by
  cases hs with
  | read fails realloc offset count served hserved =>
    have honly := read_only (fileEnv s.dev fails realloc) s.file offset count
    exact h.congr honly.nodes honly.ino honly.pending (fun lpa hin => (h.queued lpa hin).2)
  | write fails realloc offset buffer served hend hserved =>
    have hwrite := hok.pages.write fails realloc offset buffer hend
    exact h.congr hwrite.nodes.1 hwrite.nodes.2 hwrite.pending (fun lpa hin => (h.queued lpa hin).2)
  | truncate fails realloc ht he => exact h.resized hok (hok.pages.truncate fails realloc ht he).2
  | evict victim hv => exact h.congr rfl rfl rfl (fun lpa hin => (h.queued lpa hin).2)
  | outside ho => exact h.congr rfl rfl rfl ho.queued
  | commitFailed hl hc hidle hkept =>
    exact h.congr (by rw [hkept]) (by rw [hkept]) (by rw [hkept])
      (fun lpa hin => (commit_ends ha hN hok hl hc hidle).bits (h.queued lpa hin).2)

-- a commit that fails behind its relocations queues nothing of what it replaced
theorem FileLedger.lost {pages : DirtyPages} {e : Errno} (h : FileLedger s base) (hok : FileOk layout s F)
    (hl : ListsDirty pages s.file.pageCache) (hc : CommitEnds layout pages s (.error e) s') :
    FileLedger s' (fun lpa => Maps s'.file lpa ∨ lpa ∈ s.file.pendingTruncateOldLpas.items) := by
  have hqueued : ∀ lpa ∈ s.file.pendingTruncateOldLpas.items, lpa ≠ invalidLpa ∧ lpaBit s'.fs lpa = true :=
    fun lpa hin => ⟨(h.queued lpa hin).1,hc.bits (h.queued lpa hin).2⟩
  by_cases hfile : s'.file = s.file
  · refine ⟨fun lpa => by rw [hfile],?_,by rw [hfile]; exact h.nodup,by rw [hfile]; exact h.distinct,?_⟩
    · rw [hfile]
      exact h.apart
    · rw [hfile]
      exact hqueued
  · obtain ⟨lpas,hr,hsame,-⟩ := hc.replaced hok hl (.inl hfile)
    have hpending := hsame e rfl
    refine ⟨fun lpa => by rw [hpending],fun lpa hm => ?_,?_,hr.distinct hok h.distinct,?_⟩
    · rw [hpending]
      intro hin
      rcases hr.maps hm with hnew | ⟨b,-,hb⟩
      · exact absurd (h.queued lpa hin).2 (by rw [(hr.fresh lpa hnew).2]; decide)
      · exact h.apart lpa ⟨hm.1,b,hb⟩ hin
    · rw [hpending]
      exact h.nodup
    · rw [hpending]
      exact hqueued

theorem FileStep.ledger (ha : layout.Areas) (hN : layout.segmentCount.toNat < 8388608) {ev : FileEvent}
    (hs : FileStep layout s ev s') (h : ∃ F base, FileOk layout s F ∧ FileLedger s base) :
    ∃ F base, FileOk layout s' F ∧ FileLedger s' base := by
  obtain ⟨F,base,hok,hledger⟩ := h
  obtain ⟨F',-,hok'⟩ := hs.ok ha hN hok
  cases ev with
  | io e => exact ⟨F',base,hok',hledger.step ha hN hs hok⟩
  | committed oldLpas =>
    cases hs with
    | commit hl hc =>
      have hends := commit_ends ha hN hok hl hc (committed_idle hc)
      exact ⟨F',_,hok',(hledger.committed hok hl hends).2.2.1⟩
  | commitLost =>
    cases hs with
    | commitLost hl hc hidle => exact ⟨F',_,hok',hledger.lost hok hl (commit_ends ha hN hok hl hc hidle)⟩

theorem FileLedger.opened (hdistinct : DistinctLpas s.file)
    (hqueue : s.file.pendingTruncateOldLpas.items = []) : FileLedger s (Maps s.file) := by
  refine ⟨fun lpa => ?_,fun lpa _ => ?_,?_,hdistinct,fun lpa hin => ?_⟩
  · rw [hqueue]
    exact ⟨.inl,fun hm => hm.resolve_right List.not_mem_nil⟩
  · rw [hqueue]
    exact List.not_mem_nil
  · rw [hqueue]
    exact List.nodup_nil
  · rw [hqueue] at hin
    exact absurd hin List.not_mem_nil

inductive Settled (layout : RtfsMkfsLayout) (s : FileState) : FileState → Prop
  | opened : Settled layout s s
  | committed {a s₀ : FileState} {events : List FileEvent} {oldLpas : List UInt32}
      (hrun : Labelled.Run (FileStep layout) s events a) (hc : FileStep layout a (.committed oldLpas) s₀) :
      Settled layout s s₀

theorem Settled.ledger (ha : layout.Areas) (hN : layout.segmentCount.toNat < 8388608) {s₀ : FileState}
    (hs : Settled layout s s₀) (hok : FileOk layout s F) (h : FileLedger s (Maps s.file)) :
    (∃ F, FileOk layout s₀ F) ∧ FileLedger s₀ (Maps s₀.file) := by
  cases hs with
  | opened => exact ⟨⟨F,hok⟩,h⟩
  | committed hrun hc =>
    obtain ⟨F₁,base,hok₁,hledger⟩ := hrun.keeps (P := fun _ => True) (fun _ _ _ _ hi hstep => hstep.ledger ha hN hi)
      (fun _ _ => trivial) ⟨F,_,hok,h⟩
    obtain ⟨F₂,-,hok₂⟩ := hc.ok ha hN hok₁
    cases hc with
    | commit hl hcall =>
      have hends := commit_ends ha hN hok₁ hl hcall (committed_idle hcall)
      exact ⟨⟨F₂,hok₂⟩,(hledger.committed hok₁ hl hends).2.2.1⟩

end Ledger

theorem commit_returns_dropped (options : RtfsMkfsOptions) (layout : RtfsMkfsLayout) (image : FsMeta)
    (s s₀ s₁ s₂ : FileState) (F : ByteFile) (returned : List UInt32) (events : List FileEvent) (oldLpas : List UInt32)
    (h : MkfsImage options layout image) (hfs : Relation.ReflTransGen LpaStep ⟨image,[]⟩ ⟨s.fs,returned⟩)
    (hroom : ∀ lpa < layout.blockCount, s.dev.Holds lpa) (hopen : Opened s F) (hdistinct : DistinctLpas s.file)
    (hqueue : s.file.pendingTruncateOldLpas.items = []) (hstart : Settled layout s s₀)
    (hrun : Labelled.Run (FileStep layout) s₀ events s₁) (hio : ∀ ev ∈ events, ∃ e, ev = .io e)
    (hc : FileStep layout s₁ (.committed oldLpas) s₂) :
    oldLpas.Nodup ∧ ∀ lpa, lpa ∈ oldLpas ↔ Maps s₀.file lpa ∧ ¬ Maps s₂.file lpa := by
  obtain ⟨ha,hN,hspace⟩ := @image_writable options layout image
    ⟨s.fs,s.dev,⟨[],.nil,by decide⟩,s.pending⟩ returned h hfs hroom
  obtain ⟨⟨F₀,hok₀⟩,hledger₀⟩ := hstart.ledger ha hN (hopen.ok hspace hroom) (.opened hdistinct hqueue)
  obtain ⟨⟨F₁,hok₁⟩,hledger₁⟩ := hrun.keeps (I := fun s => (∃ F, FileOk layout s F) ∧ FileLedger s (Maps s₀.file))
    (P := fun ev => ∃ e, ev = .io e) (fun s l s' hl hi hstep => by
      obtain ⟨e,rfl⟩ := hl
      obtain ⟨⟨F',hok'⟩,hledger'⟩ := hi
      obtain ⟨F'',-,hok''⟩ := hstep.ok ha hN hok'
      exact ⟨⟨F'',hok''⟩,hledger'.step ha hN hstep hok'⟩) hio ⟨⟨F₀,hok₀⟩,hledger₀⟩
  cases hc with
  | commit hl hcall =>
    obtain ⟨hnd,hold,-⟩ := hledger₁.committed hok₁ hl (commit_ends ha hN hok₁ hl hcall (committed_idle hcall))
    exact ⟨hnd,hold⟩

def readyCommit : FileCommitEnv := ⟨⟨true,true,fun _ => true,fun _ => true⟩,true,none⟩

def twoWritten : FileState := { newFileState with
  file := (rtfsFileInodeWrite (fileEnv newFileState.dev (fun _ => none) (fun _ => true)) newFile 4090
    (List.replicate 10 7)).2 }

def twoMapped : FileState := twoWritten.committed readyCommit
  (listedPages twoWritten.file.pageCache [0,1] two_sorted two_short)

def cutFile : FileState := { twoMapped with
  file := (rtfsFileInodeTruncate (fileEnv twoMapped.dev (fun _ => none) (fun _ => true)) twoMapped.file 4096).2 }

def rewritten : FileState := { cutFile with
  file := (rtfsFileInodeWrite (fileEnv cutFile.dev (fun _ => none) (fun _ => true)) cutFile.file 0 [1,2]).2 }

def cutMapped : FileState := rewritten.committed readyCommit
  (listedPages rewritten.file.pageCache [0] one_sorted one_short)

-- two blocks are mapped by a first commit; then the second one is cut off and the first one written again
theorem newFile_commit_returns : Settled smallLayout newFileState twoMapped ∧
    Labelled.Run (FileStep smallLayout) twoMapped [.io (.resize 4096),.io (.write 0 [1,2] true (some 2))] rewritten ∧
    FileStep smallLayout rewritten (.committed [3072,3073]) cutMapped ∧
    ([3072,3073] : List UInt32).Nodup ∧
    ∀ lpa : UInt32, lpa ∈ [3072,3073] ↔ Maps twoMapped.file lpa ∧ ¬ Maps cutMapped.file lpa := by
  obtain ⟨ha,hN,hspace⟩ := @image_writable smallOptions smallLayout smallMeta
    ⟨newFileState.fs,newFileState.dev,⟨[],.nil,by decide⟩,newFileState.pending⟩ [] smallMeta_image .refl
    (smallDev_holds _)
  have hopen := newFile_opened.ok hspace (smallDev_holds _)
  have hfirst : Labelled.Run (FileStep smallLayout) newFileState
      [.io (.write 4090 (List.replicate 10 7) true (some 10))] twoWritten :=
    .cons (file_write_step (fun _ => none) (fun _ => true) (by decide) (by decide +kernel)
      (by decide +kernel)) .nil
  obtain ⟨F₁,-,hok₁⟩ := fileRun_ok ha hN hfirst hopen
  have hmapped : FileStep smallLayout twoWritten (.committed []) twoMapped :=
    .commit (listed_dirty [0,1] _ _ (fun b hd => small_block hok₁.pages 2 (by decide +kernel) le_rfl hd))
      (commit_call (by decide +kernel))
  obtain ⟨F₂,-,hok₂⟩ := hmapped.ok ha hN hok₁
  have hsecond : Labelled.Run (FileStep smallLayout) twoMapped
      [.io (.resize 4096),.io (.write 0 [1,2] true (some 2))] rewritten :=
    .cons (file_truncate_step (fun _ => none) (fun _ => true) 4096 (by decide)
      (by decide +kernel)) (.cons (file_write_step (fun _ => none) (fun _ => true) (by decide)
      (by decide +kernel) (by decide +kernel)) .nil)
  obtain ⟨F₃,-,hok₃⟩ := fileRun_ok ha hN hsecond hok₂
  have hcommit : FileStep smallLayout rewritten (.committed [3072,3073]) cutMapped :=
    .commit (listed_dirty [0] _ _ (fun b hd => small_block hok₃.pages 1 (by decide +kernel) (by decide) hd))
      (commit_call (by decide +kernel))
  have hstart : Settled smallLayout newFileState twoMapped := .committed hfirst hmapped
  refine ⟨hstart,hsecond,hcommit,?_⟩
  exact commit_returns_dropped smallOptions smallLayout _ newFileState twoMapped rewritten cutMapped .empty [] _
    [3072,3073] smallMeta_image .refl (smallDev_holds _) newFile_opened
    (fun b b' lpa hb hb' hz => absurd (emptyFile_holes hb) hz) rfl hstart hsecond
    (fun ev hin => by
      rcases List.mem_cons.mp hin with rfl | hin
      · exact ⟨_,rfl⟩
      · exact ⟨_,List.mem_singleton.mp hin⟩) hcommit

end Rtfs
