import Rtfs.Fs.CacheCoherence
import Rtfs.Fs.NidAlloc

namespace Rtfs

open RtfsSuperBlock

def wideOptions : RtfsMkfsOptions := ⟨65536,1,1⟩

def wideLayout : RtfsMkfsLayout := ⟨65536,128,512,1,1024,1,1536,1,2048,1,2560,5,123⟩

theorem calculateLayout_wide : rtfsMkfsCalculateLayout 65536 1 = .ok wideLayout := rfl

def wideDev (blocks : Nat → Block) : CommDev := ⟨524288,by decide,blocks,0,0,0,0,[]⟩

theorem wideDev_holds (blocks : Nat → Block) : ∀ lpa < 65536, (wideDev blocks).Holds lpa := by
  intro lpa hlpa
  change lpa * 8 + 8 ≤ 524288
  omega

@[irreducible] def wideDisk : CommDev :=
  match rtfsMkfsFormat wideOptions (wideDev fun _ => Buf.zero) with
  | .ok (_,d) => d
  | .error _ => wideDev fun _ => Buf.zero

theorem wideDisk_format :
    rtfsMkfsFormat wideOptions (wideDev fun _ => Buf.zero) = .ok (wideLayout,wideDisk) ∧
      ∃ f, wideDisk = wideDev f ∧ Formatted wideOptions wideLayout f := by
  have hd : ∀ lpa < wideOptions.lpaCount, (wideDev fun _ => Buf.zero).Holds lpa := wideDev_holds _
  obtain ⟨f,hf,hform,_⟩ := format_spec hd (by decide) calculateLayout_wide
  have hdisk : wideDisk = wideDev f := by
    unfold wideDisk
    rw [hf]
    rfl
  refine ⟨?_,f,hdisk,hform⟩
  rw [hf,hdisk]
  rfl

theorem loadMeta_wide : MkfsImage wideOptions wideLayout (loadMeta wideDisk) :=
  loadMeta_image (wideDev_holds _) (by decide) wideDisk_format.1

theorem wideDisk_holds : ∀ lpa < 65536, wideDisk.Holds lpa := by
  obtain ⟨f,hf,_⟩ := wideDisk_format.2
  rw [hf]
  exact wideDev_holds f

theorem wideDisk_super : wideDisk.blocks 0 = initialSuper wideOptions wideLayout := by
  rw [← loadMeta_superBlock]
  exact loadMeta_wide.super

section Fill

theorem runSteps_append {σ : Type} {step : σ → MetaOp → Option (UInt32 × σ)} {s s1 s2 : σ}
    {ops ops' : List MetaOp} {outs outs' : List UInt32} (h : runSteps step s ops = some (outs,s1))
    (h' : runSteps step s1 ops' = some (outs',s2)) :
    runSteps step s (ops ++ ops') = some (outs ++ outs',s2) := by
  induction ops generalizing s outs with
  | nil =>
    cases h
    exact h'
  | cons op ops ih =>
    obtain ⟨r,hr,hrest⟩ := Option.bind_eq_some_iff.mp h
    obtain ⟨rs,hrs,he⟩ := Option.map_eq_some_iff.mp hrest
    cases he
    rw [List.cons_append,runSteps,hr,Option.bind_some,ih hrs]
    rfl

theorem gets_unchanged {m : FsMeta} {nids : List UInt32} (h : ∀ nid ∈ nids, natHoldsNid m nid) :
    runSteps metaStep m (nids.map .getLpa) = some (nids.map (fun nid => (m.nat nid).blockAddr),m) := by
  induction nids with
  | nil => rfl
  | cons nid nids ih =>
    have hg : metaStep m (.getLpa nid) = some ((m.nat nid).blockAddr,m) := by
      change (natGetLpaOfNid m nid).map (fun lpa => (lpa,m)) = _
      unfold natGetLpaOfNid
      rw [if_neg (not_not.mpr (h nid List.mem_cons_self))]
      rfl
    rw [List.map_cons,runSteps,hg,Option.bind_some,ih (fun x hx => h x (List.mem_cons_of_mem _ hx))]
    rfl

theorem getLpa_some {s : CachedMeta} {nid : UInt32} {c : SitNatCache} (hh : s.natHolds nid)
    (hc : s.natCache.get s.dev (s.natLpa nid) = some c) :
    cachedStep s (.getLpa nid) = some ((s.natEntryIn c nid).blockAddr,{ s with natCache := c }) := by
  change s.natGetLpaOfNid nid = _
  unfold CachedMeta.natGetLpaOfNid
  rw [if_neg (not_not.mpr hh),hc]
  rfl

theorem gets_fill {s : CachedMeta} (nids : List UInt32) (hok : s.natCache.CacheOk)
    (hhold : ∀ nid ∈ nids, s.natHolds nid ∧ s.dev.Holds (s.natLpa nid).toNat)
    (hnodup : (nids.map s.natLpa).Nodup) (hnew : ∀ nid ∈ nids, s.natLpa nid ∉ s.natCache.keys)
    (hfit : s.natCache.curSize + nids.length ≤ s.natCache.expectSize) :
    ∃ outs c, runSteps cachedStep s (nids.map .getLpa) = some (outs,{ s with natCache := c }) ∧
      c.CacheOk ∧ c.lru = s.natCache.lru ∧ c.curSize = s.natCache.curSize + nids.length ∧
      c.expectSize = s.natCache.expectSize ∧
      ∀ x ∈ c.keys, x ∈ s.natCache.keys ∨ x ∈ nids.map s.natLpa := by
  induction nids generalizing s with
  | nil => exact ⟨[],s.natCache,rfl,hok,rfl,rfl,rfl,fun x hx => Or.inl hx⟩
  | cons nid nids ih =>
    rw [List.map_cons,List.nodup_cons] at hnodup
    rw [List.length_cons] at hfit
    obtain ⟨hh,hdev⟩ := hhold nid List.mem_cons_self
    have hmiss : s.natCache.entry (s.natLpa nid) = none := by
      by_contra hne
      exact hnew nid List.mem_cons_self (SitNatCache.mem_keys_iff.mpr hne)
    obtain ⟨c1,hc1,hok1,hl1⟩ := SitNatCache.get_fresh hok hmiss hdev (by omega)
    have hnew1 : ∀ x ∈ nids, s.natLpa x ∉ c1.keys := by
      intro x hx hin
      rcases List.mem_cons.mp (hl1.keys.mem_iff.mp hin) with he | hin
      · exact hnodup.1 (he ▸ List.mem_map_of_mem hx)
      · exact hnew x (List.mem_cons_of_mem _ hx) hin
    obtain ⟨outs,c,hrun,h1,h2,h3,h4,h5⟩ := ih (s := { s with natCache := c1 }) hok1
      (fun x hx => hhold x (List.mem_cons_of_mem _ hx)) hnodup.2 hnew1 (by
        rw [hl1.curSize,hl1.same.expectSize]
        omega)
    refine ⟨(s.natEntryIn c1 nid).blockAddr :: outs,c,?_,h1,h2.trans hl1.lru,?_,h4.trans hl1.same.expectSize,fun x hx => ?_⟩
    · rw [List.map_cons,runSteps,getLpa_some hh hc1,Option.bind_some,hrun]
      rfl
    · rw [h3,hl1.curSize,List.length_cons]
      omega
    · rcases h5 x hx with hx | hx
      · rcases List.mem_cons.mp (hl1.keys.mem_iff.mp hx) with rfl | hx
        · exact Or.inr List.mem_cons_self
        · exact Or.inl hx
      · exact Or.inr (List.mem_cons_of_mem _ hx)

end Fill

section Lost

theorem wide_field {off : Nat} {v : UInt32} (ha : 4 ∣ off)
    (hv : wordOf off (superWords wideOptions wideLayout) = some v) : u32At (wideDisk.blocks 0) off = v := by
  rw [wideDisk_super]
  exact u32At_initialSuper _ _ ha hv

theorem wide_metaField {off : Nat} {v : UInt32} (ha : 4 ∣ off)
    (hv : wordOf off (superWords wideOptions wideLayout) = some v) : (loadMeta wideDisk).field off = v := by
  rw [FsMeta.field,loadMeta_superBlock]
  exact wide_field ha hv

theorem wide_natLpa (s : CachedMeta) (h : natBlkaddr s.superBlock = 1536) (nid : UInt32) :
    s.natLpa nid = 1536 + nid / 512 := by
  unfold CachedMeta.natLpa EntryTable.blockOf
  rw [h]
  rfl

theorem wide_entry_two : (loadMeta wideDisk).nat 2 = ⟨0,3⟩ :=
  image_nat loadMeta_wide (calculateLayout_areas loadMeta_wide.calculated (by decide)) (by decide)
    (i := 2) (by decide)

theorem wide_alloc : ∃ m, superManagerAllocNid (loadMeta wideDisk) 0 true = some (2,m) ∧
    m.nat 2 = ⟨2,0⟩ ∧ m.field segmentCountNatOff = 1 := by
  have hfield : (loadMeta wideDisk).field nextFreeNidOff = 2 := wide_metaField (by decide) rfl
  have hseg : (loadMeta wideDisk).field segmentCountNatOff = 1 := wide_metaField (by decide) rfl
  have harea : natHoldsNid (loadMeta wideDisk) 2 := by
    unfold natHoldsNid
    rw [hseg]
    decide
  unfold superManagerAllocNid
  rw [hfield]
  simp only
  rw [if_neg (by decide),if_neg (not_not.mpr harea),wide_entry_two,if_neg (by decide)]
  refine ⟨_,rfl,?_,?_⟩
  · change Function.update (loadMeta wideDisk).nat 2 _ 2 = _
    rw [Function.update_self]
    rfl
  rw [FsMeta.field_journalField,FsMeta.field_setNat,
    FsMeta.field_setField _ _ (by decide) (by decide) (by decide),if_neg (by decide),hseg]

def firstBlock (d : CommDev) : SitNatCache :=
  (SitNatCache.init 100).loaded d 1536 (SitNatCache.init_entry 100 1536)

theorem first_block_unpinned (d : CommDev) (b : Block) : ∃ c : SitNatCache,
    ((firstBlock d).writeBlock 1536 b).handleDestroy 1536 = some c ∧
      c.lru = [1536] ∧ c.curSize = 1 ∧ c.expectSize = 100 ∧ c.keys = [1536] ∧ c.CacheOk := by
  have hinit : (SitNatCache.init 100).CacheOk :=
    ⟨by decide,fun k hk => absurd hk List.not_mem_nil⟩
  have hl : SitNatCache.Loaded d (SitNatCache.init 100) (firstBlock d) 1536 :=
    SitNatCache.loaded_spec hinit (SitNatCache.init_entry 100 1536)
  have hok : (firstBlock d).CacheOk := by
    refine ⟨?_,hl.free⟩
    rw [hl.curSize,hl.same.expectSize]
    decide
  obtain ⟨h1,h2,_,h4,h5⟩ := SitNatCache.writeBlock_spec hok hl.held d b
  have hentry : ((firstBlock d).writeBlock 1536 b).entry 1536 =
      some ⟨1,b⟩ := by
    unfold SitNatCache.writeBlock
    rw [SitNatCache.entry_modify,if_pos rfl]
    exact congrArg (Option.map _) (SitNatCache.loaded_entry (d := d) (SitNatCache.init_entry 100 1536))
  obtain ⟨c,hc,hlru,hcur⟩ := SitNatCache.handleDestroy_last h1 h2 hentry
  obtain ⟨c',hc',k1,k2,k3⟩ := SitNatCache.handleDestroy_spec h1 h2 d
  rw [hc] at hc'
  cases hc'
  refine ⟨c,hc,hlru.trans ?_,hcur.trans hl.curSize,?_,?_,k1⟩
  · change (firstBlock d).lru ++ [1536] = _
    rw [hl.lru]
    rfl
  · rw [k2.expectSize,h5,hl.same.expectSize]
    rfl
  · rw [h4] at k3
    exact List.perm_singleton.mp (k3.trans hl.keys)

theorem wide_cached_alloc : ∃ c, cachedStep (CachedMeta.mount wideDisk) (.allocNid 0 true) =
      some (2,{ (CachedMeta.mount wideDisk) with
        superBlock := setU32 (wideDisk.blocks 0) nextFreeNidOff 3
        natCache := c
        curJournal := (CachedMeta.mount wideDisk).journalNextFree
          (setU32 (wideDisk.blocks 0) nextFreeNidOff 3) }) ∧
      c.lru = [1536] ∧ c.curSize = 1 ∧ c.expectSize = 100 ∧ c.keys = [1536] ∧ c.CacheOk := by
  have hfield : u32At (CachedMeta.mount wideDisk).superBlock nextFreeNidOff = 2 :=
    wide_field (by decide) rfl
  have hstart : natBlkaddr (CachedMeta.mount wideDisk).superBlock = 1536 := wide_field (by decide) rfl
  have hlpa : (CachedMeta.mount wideDisk).natLpa 2 = 1536 := wide_natLpa _ hstart 2
  have hhold : (CachedMeta.mount wideDisk).natHolds 2 := by
    unfold CachedMeta.natHolds
    rw [show u32At (CachedMeta.mount wideDisk).superBlock segmentCountNatOff = 1 from
      wide_field (by decide) rfl]
    decide
  have hget : (SitNatCache.init 100).get wideDisk 1536 =
      some (firstBlock wideDisk) := by
    rw [SitNatCache.get_loads (SitNatCache.init_entry 100 1536) (wideDisk_holds 1536 (by decide))]
    exact SitNatCache.doReplace_fits (by decide)
  have hentry : (CachedMeta.mount wideDisk).natEntryIn
      (firstBlock wideDisk) 2 = ⟨0,3⟩ := by
    have hl : SitNatCache.Loaded wideDisk (SitNatCache.init 100) (firstBlock wideDisk) 1536 :=
      SitNatCache.loaded_spec ⟨by decide,fun k hk => absurd hk List.not_mem_nil⟩
        (SitNatCache.init_entry 100 1536)
    unfold CachedMeta.natEntryIn
    rw [hlpa]
    have h2 := wide_entry_two
    have hl2 : natBlockLpa (wideDisk.blocks 0) 2 = 1536 := hlpa
    change natEntryAt (wideDisk.blocks (natBlockLpa (wideDisk.blocks 0) 2).toNat) 2 = _ at h2
    rw [hl2] at h2
    refine Eq.trans ?_ h2
    exact congrArg (fun b => natEntryAt b 2) (hl.same.content 1536)
  obtain ⟨c,hc,h1,h2,h3,h4,h5⟩ := first_block_unpinned wideDisk
    (setNatEntry ((firstBlock wideDisk).content wideDisk 1536) 2 ⟨2,0⟩)
  refine ⟨c,?_,h1,h2,h3,h4,h5⟩
  change (CachedMeta.mount wideDisk).superManagerAllocNid 0 true = _
  unfold CachedMeta.superManagerAllocNid
  simp only
  rw [hfield,if_neg (by decide),if_neg (not_not.mpr hhold),hlpa]
  change ((SitNatCache.init 100).get wideDisk 1536).bind _ = _
  rw [hget,Option.bind_some,hentry,if_neg (by decide)]
  unfold CachedMeta.setNatEntryIn
  rw [hlpa]
  change (((firstBlock wideDisk).writeBlock 1536
    (setNatEntry ((firstBlock wideDisk).content wideDisk 1536) 2
      ⟨2,0⟩)).handleDestroy 1536).map _ = _
  rw [hc]
  rfl

def fillNids : List UInt32 := (List.range' 1 99).map (fun i => UInt32.ofNat (512 * i))

theorem fillNids_spec {nid : UInt32} (h : nid ∈ fillNids) :
    ∃ i, 1 ≤ i ∧ i < 100 ∧ nid.toNat = 512 * i := by
  obtain ⟨i,hi,rfl⟩ := List.mem_map.mp h
  obtain ⟨hpos,hlt⟩ := List.mem_range'_1.mp hi
  refine ⟨i,hpos,hlt,?_⟩
  rw [UInt32.toNat_ofNat']
  omega

theorem lostNids_spec {nid : UInt32} (h : nid ∈ fillNids ++ [51200]) :
    ∃ i, 1 ≤ i ∧ i ≤ 100 ∧ nid.toNat = 512 * i := by
  rcases List.mem_append.mp h with h | h
  · obtain ⟨i,hpos,hlt,hi⟩ := fillNids_spec h
    exact ⟨i,hpos,hlt.le,hi⟩
  · rw [List.mem_singleton.mp h]
    exact ⟨100,by decide,le_rfl,rfl⟩

theorem fillBlock_toNat {nid : UInt32} {i : Nat} (hi : i ≤ 100) (h : nid.toNat = 512 * i) :
    ((1536 : UInt32) + nid / 512).toNat = 1536 + i := by
  rw [UInt32.toNat_add,UInt32.toNat_div,h]
  change (1536 + 512 * i / 512) % 4294967296 = 1536 + i
  omega

def lostOps : List MetaOp := .allocNid 0 true :: (fillNids.map .getLpa ++ [.getLpa 51200])

theorem lost_plain : ∃ outs m, runSteps metaStep (loadMeta wideDisk) lostOps = some (outs,m) ∧
    m.nat 2 = ⟨2,0⟩ := by
  obtain ⟨m,hm,hnat,hseg⟩ := wide_alloc
  have hold : ∀ nid ∈ fillNids ++ [51200], natHoldsNid m nid := by
    intro nid hnid
    obtain ⟨i,_,hle,hi⟩ := lostNids_spec hnid
    unfold natHoldsNid
    rw [hseg,UInt32.lt_iff_toNat_lt,UInt32.toNat_div,hi]
    change 512 * i / 512 < 512
    omega
  have hgets := gets_unchanged hold
  rw [List.map_append] at hgets
  refine ⟨2 :: (fillNids ++ [51200]).map (fun nid => (m.nat nid).blockAddr),m,?_,hnat⟩
  change ((superManagerAllocNid (loadMeta wideDisk) 0 true).bind _) = _
  rw [hm,Option.bind_some]
  exact congrArg (Option.map _) hgets

theorem lost_cached : ∃ outs s, runSteps cachedStep (CachedMeta.mount wideDisk) lostOps = some (outs,s) ∧
    s.dev = wideDisk ∧ natBlkaddr s.superBlock = 1536 ∧ 1536 ∉ s.natCache.keys ∧
      (∀ k ∈ s.natCache.keys, k.toNat < 65536) ∧ s.sitCache.keys = [] := by
  obtain ⟨c,hstep,hlru,hcur,hexp,hkeys,hok⟩ := wide_cached_alloc
  generalize hs1 : ({ (CachedMeta.mount wideDisk) with
      superBlock := setU32 (wideDisk.blocks 0) nextFreeNidOff 3
      natCache := c
      curJournal := (CachedMeta.mount wideDisk).journalNextFree
        (setU32 (wideDisk.blocks 0) nextFreeNidOff 3) } : CachedMeta) = s1 at hstep
  have hdev : s1.dev = wideDisk := by rw [← hs1]; rfl
  have hcache : s1.natCache = c := by rw [← hs1]
  have hsit : s1.sitCache.keys = [] := by rw [← hs1]; rfl
  have hseg : u32At s1.superBlock segmentCountNatOff = 1 := by
    rw [← hs1]
    change u32At (setU32 (wideDisk.blocks 0) nextFreeNidOff 3) segmentCountNatOff = 1
    rw [u32At_setU32_ne _ _ _ _ (by decide)]
    exact wide_field (by decide) rfl
  have hstart : natBlkaddr s1.superBlock = 1536 := by
    rw [← hs1]
    change u32At (setU32 (wideDisk.blocks 0) nextFreeNidOff 3) natBlkaddrOff = 1536
    rw [u32At_setU32_ne _ _ _ _ (by decide)]
    exact wide_field (by decide) rfl
  have hlpa (nid : UInt32) : s1.natLpa nid = 1536 + nid / 512 := wide_natLpa s1 hstart nid
  have hmap : fillNids.map s1.natLpa = fillNids.map (fun nid => 1536 + nid / 512) :=
    List.map_congr_left (fun nid _ => hlpa nid)
  have hbound : ∀ nid ∈ fillNids ++ [51200], nid / 512 < 512 ∧ (1536 + nid / 512).toNat < 65536 := by
    intro nid hnid
    obtain ⟨i,_,hle,hi⟩ := lostNids_spec hnid
    refine ⟨?_,?_⟩
    · rw [UInt32.lt_iff_toNat_lt,UInt32.toNat_div,hi]
      change 512 * i / 512 < 512
      omega
    · rw [fillBlock_toNat hle hi]
      omega
  have hhold : ∀ nid ∈ fillNids ++ [51200], s1.natHolds nid ∧ s1.dev.Holds (s1.natLpa nid).toNat := by
    intro nid hnid
    obtain ⟨hlt,h65⟩ := hbound nid hnid
    refine ⟨?_,?_⟩
    · unfold CachedMeta.natHolds
      rw [hseg]
      exact hlt
    · rw [hdev,hlpa]
      exact wideDisk_holds _ h65
  obtain ⟨outs,c2,hfill,hok2,hlru2,hcur2,hexp2,hkeys2⟩ := gets_fill (s := s1) fillNids
    (by rw [hcache]; exact hok) (fun nid hnid => hhold nid (List.mem_append_left _ hnid))
    (by rw [hmap]; decide +kernel)
    (by
      intro nid hnid hin
      rw [hcache,hkeys,hlpa,List.mem_singleton] at hin
      obtain ⟨i,hpos,hlt,hi⟩ := fillNids_spec hnid
      have hat := congrArg UInt32.toNat hin
      rw [fillBlock_toNat hlt.le hi] at hat
      change 1536 + i = 1536 at hat
      omega)
    (by rw [hcache,hcur,hexp]; decide)
  rw [hcache,hlru] at hlru2
  rw [hcache,hkeys,hmap] at hkeys2
  have hlast : s1.natLpa 51200 ∉ c2.keys := by
    intro hin
    rw [hlpa] at hin
    rcases hkeys2 _ hin with he | hin
    · exact absurd (List.mem_singleton.mp he) (by decide)
    · obtain ⟨nid,hnid,he⟩ := List.mem_map.mp hin
      obtain ⟨i,_,hlt,hi⟩ := fillNids_spec hnid
      have hat := congrArg UInt32.toNat he
      rw [fillBlock_toNat hlt.le hi] at hat
      change 1536 + i = 1636 at hat
      omega
  have hmiss : c2.entry (s1.natLpa 51200) = none := by
    by_contra hne
    exact hlast (SitNatCache.mem_keys_iff.mpr hne)
  have hfull : ¬ c2.curSize < c2.expectSize := by
    rw [hcur2,hexp2,hcache,hcur,hexp]
    decide
  obtain ⟨c3,hc3,hok3,_,_,_,hkeys3⟩ := SitNatCache.get_evicts hok2 hmiss
    (hhold 51200 (List.mem_append_right _ List.mem_cons_self)).2 hfull hlru2
  have hget : runSteps cachedStep { s1 with natCache := c2 } [.getLpa 51200] =
      some ([(s1.natEntryIn c3 51200).blockAddr],{ s1 with natCache := c3 }) := by
    have hg := getLpa_some (s := { s1 with natCache := c2 })
      (hhold 51200 (List.mem_append_right _ List.mem_cons_self)).1 hc3
    rw [runSteps,hg]
    rfl
  have hrest := runSteps_append hfill hget
  have hnodup : ((1536 : UInt32) :: c3.keys).Nodup := by
    rw [← hkeys3.nodup_iff]
    exact List.nodup_cons.mpr ⟨hlast,CacheLruReplacer.keys_nodup⟩
  refine ⟨2 :: (outs ++ [(s1.natEntryIn c3 51200).blockAddr]),{ s1 with natCache := c3 },?_,hdev,hstart,
    (List.nodup_cons.mp hnodup).1,fun k hk => ?_,hsit⟩
  · unfold lostOps
    rw [runSteps,hstep,Option.bind_some,hrest]
    rfl
  · have hk' := hkeys3.mem_iff.mpr (List.mem_cons_of_mem _ hk)
    rcases List.mem_cons.mp hk' with rfl | hk'
    · rw [hlpa]
      exact (hbound 51200 (List.mem_append_right _ List.mem_cons_self)).2
    rcases hkeys2 k hk' with he | hin
    · rw [List.mem_singleton.mp he]
      decide
    · obtain ⟨nid,hnid,rfl⟩ := List.mem_map.mp hin
      exact (hbound nid (List.mem_append_left _ hnid)).2

theorem unpinned_change_lost : ∃ outs m outs' s,
    runSteps metaStep (loadMeta wideDisk) lostOps = some (outs,m) ∧
    runSteps cachedStep (CachedMeta.mount wideDisk) lostOps = some (outs',s) ∧
    ∀ natOrder sitOrder, natOrder.Perm s.natCache.keys → sitOrder.Perm s.sitCache.keys →
      natEntryAt ((s.unmountWrites natOrder sitOrder).blocks (s.natLpa 2).toNat) (natTable.indexOf 2) ≠
        m.nat 2 := by
  obtain ⟨outs,m,hm,hnat⟩ := lost_plain
  obtain ⟨outs',s,hs,hdev,hstart,hout,hbound,hsit⟩ := lost_cached
  refine ⟨outs,m,outs',s,hm,hs,fun natOrder sitOrder hn hso => ?_⟩
  have hlpa : s.natLpa 2 = 1536 := wide_natLpa s hstart 2
  rw [hsit] at hso
  obtain rfl : sitOrder = [] := List.perm_nil.mp hso
  obtain ⟨f,hf,_,hkeep⟩ := SitNatCache.writeAllSync_blocks (c := s.natCache) natOrder s.dev (by
    intro k hk
    rw [hdev]
    exact wideDisk_holds _ (hbound k (hn.mem_iff.mp hk)))
  have hblock : (s.unmountWrites natOrder []).blocks 1536 = wideDisk.blocks 1536 := by
    change (s.natCache.writeAllSync natOrder s.dev).blocks 1536 = _
    rw [hf,CommDev.withBlocks_blocks,← hdev]
    refine hkeep 1536 (fun k hk he => hout ?_)
    have hk1 : k = 1536 := UInt32.toNat_inj.mp he
    rw [← hk1]
    exact hn.mem_iff.mp hk
  have htwo := wide_entry_two
  have hl2 : natBlockLpa (wideDisk.blocks 0) 2 = 1536 := by
    unfold natBlockLpa
    rw [show natBlkaddr (wideDisk.blocks 0) = 1536 from wide_field (by decide) rfl]
    decide
  change natEntryAt (wideDisk.blocks (natBlockLpa (wideDisk.blocks 0) 2).toNat) 2 = _ at htwo
  rw [hl2] at htwo
  rw [hlpa,hnat]
  change natEntryAt ((s.unmountWrites natOrder []).blocks 1536) 2 ≠ _
  rw [hblock]
  intro he
  have hcontra := he.symm.trans htwo
  exact absurd hcontra (by decide)

end Lost

section Turned

def sameBlock (b c : Block) : Bool := (List.range 4096).all (fun i => b.get i == c.get i)

theorem eq_of_sameBlock {b c : Block} (h : sameBlock b c = true) : b = c :=
  Buf.ext_get (fun i hi => eq_of_beq (List.all_eq_true.mp h i (List.mem_range.mpr hi)))

def roomFor (c : SitNatCache) (d : CommDev) (lpa : UInt32) : Bool :=
  decide (lpa ∈ c.keys) || (decide (c.curSize < c.expectSize) ||
    match c.lru with
    | [] => false
    | v :: _ => sameBlock (c.content d v) (d.blocks v.toNat))

theorem room_of_roomFor {c : SitNatCache} {d : CommDev} {lpa : UInt32} (h : roomFor c d lpa = true) :
    c.Room d lpa := by
  rcases Bool.or_eq_true_iff.mp h with hin | h
  · exact .inl (of_decide_eq_true hin)
  rcases Bool.or_eq_true_iff.mp h with hlt | h
  · exact .inr (.inl (of_decide_eq_true hlt))
  · cases hl : c.lru with
    | nil =>
      rw [hl] at h
      cases h
    | cons v rest =>
      rw [hl] at h
      exact .inr (.inr ⟨v,rest,hl,eq_of_sameBlock h⟩)

def natStepRoom (s : CachedMeta) : MetaOp → Bool
  | .allocNid _ _ => roomFor s.natCache s.dev (s.natLpa (u32At s.superBlock nextFreeNidOff))
  | .freeNid nid => roomFor s.natCache s.dev (s.natLpa nid)
  | .getLpa nid => roomFor s.natCache s.dev (s.natLpa nid)
  | .setLpa nid _ => roomFor s.natCache s.dev (s.natLpa nid)
  | .changeRange _ _ _ => false

theorem stepRoom_of_nat {s : CachedMeta} {op : MetaOp} (sb : Block) (h : natStepRoom s op = true) :
    op.Ok sb ∧ StepRoom s op := by
  cases op with
  | allocNid ino isInode => exact ⟨trivial,fun _ => room_of_roomFor h⟩
  | freeNid nid => exact ⟨trivial,room_of_roomFor h⟩
  | getLpa nid => exact ⟨trivial,room_of_roomFor h⟩
  | setLpa nid lpa => exact ⟨trivial,room_of_roomFor h⟩
  | changeRange start count valid => cases h

def natRunRoom : List MetaOp → CachedMeta → Option CachedMeta
  | [],s => some s
  | op :: ops,s => if natStepRoom s op then (cachedStep s op).bind (fun r => natRunRoom ops r.2) else none

theorem runRoom_of_nat {ops : List MetaOp} {s s' : CachedMeta} (sb : Block) (h : natRunRoom ops s = some s') :
    (∀ op ∈ ops, op.Ok sb) ∧ RunRoom s ops ∧ ∀ outs s₁, runSteps cachedStep s ops = some (outs,s₁) → s₁ = s' := by
  induction ops generalizing s with
  | nil =>
    cases h
    refine ⟨fun op hop => absurd hop List.not_mem_nil,trivial,fun outs s₁ hs => ?_⟩
    cases hs
    rfl
  | cons op ops ih =>
    unfold natRunRoom at h
    split at h
    · rename_i hroom
      obtain ⟨⟨out,s₁⟩,hone,hrest⟩ := Option.bind_eq_some_iff.mp h
      obtain ⟨hok,hstep⟩ := stepRoom_of_nat sb hroom
      obtain ⟨hoks,hrooms,hend⟩ := ih hrest
      refine ⟨fun o ho => ?_,⟨hstep,fun out' s₂ hs₂ => ?_⟩,fun outs s₂ hs₂ => ?_⟩
      · rcases List.mem_cons.mp ho with rfl | ho
        · exact hok
        · exact hoks o ho
      · rw [hone] at hs₂
        cases hs₂
        exact hrooms
      · rw [runSteps,hone,Option.bind_some] at hs₂
        obtain ⟨⟨outs',s₃⟩,hs₃,he⟩ := Option.map_eq_some_iff.mp hs₂
        cases he
        exact hend outs' _ hs₃
    · cases h

-- nid 2 is free, and the next free nid lies in another NAT block
def turnedBlocks (lpa : Nat) : Block :=
  if lpa = 0 then initialSuper wideOptions wideLayout
  else if lpa = 1536 then setNatEntry Buf.zero 2 ⟨0,513⟩ else Buf.zero

def turnedDisk : CommDev := wideDev turnedBlocks

theorem turnedDisk_ok : (layoutOf (turnedDisk.blocks 0)).Ok turnedDisk :=
  mkfs_layoutOk calculateLayout_wide wideOptions (wideDev_holds turnedBlocks) (by decide)

-- the first two NAT blocks are read, changed and restored, a hundred others push them out, nid 2 is read again
def turnOps : List MetaOp :=
  [.allocNid 0 true,.allocNid 0 true,.freeNid 2] ++ (fillNids.tail ++ [51200,2]).map .getLpa

theorem cache_coherent_wide : ∃ s, runSteps cachedStep (CachedMeta.mount turnedDisk) turnOps =
      some ([2,0] ++ List.replicate 100 0 ++ [513],s) ∧ 1537 ∉ s.natCache.keys ∧
    natEntryAt (s.natCache.content s.dev (s.natLpa 2)) (natTable.indexOf 2) = ⟨0,513⟩ := by
  have hroom : (natRunRoom turnOps (CachedMeta.mount turnedDisk)).any (fun s => decide (1537 ∉ s.natCache.keys)) =
      true := by
    decide +kernel
  have hplain : (runSteps metaStep (loadMeta turnedDisk) turnOps).any (fun r =>
      decide (r.1 = [2,0] ++ List.replicate 100 0 ++ [513] ∧ r.2.nat 2 = ⟨0,513⟩)) = true := by
    decide +kernel
  obtain ⟨s',hs',hkeys⟩ := (Option.any_eq_true _ _).mp hroom
  obtain ⟨⟨outs,m⟩,hm,hends⟩ := (Option.any_eq_true _ _).mp hplain
  obtain ⟨houts,hnat⟩ := of_decide_eq_true hends
  obtain ⟨hoks,hrooms,hend⟩ := runRoom_of_nat (turnedDisk.blocks 0) hs'
  obtain ⟨s,hs,hread,-⟩ := cache_coherent turnedDisk turnedDisk_ok turnOps hoks hrooms outs m hm
  obtain rfl := hend outs s hs
  exact ⟨s,houts ▸ hs,of_decide_eq_true hkeys,(hread 2).trans hnat⟩

end Turned

end Rtfs
