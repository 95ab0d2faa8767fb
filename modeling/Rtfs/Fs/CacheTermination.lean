import Rtfs.Fs.CacheRun

namespace Rtfs

open RtfsSuperBlock Logged

def accessesOf (which : MetaCache) (h : List CacheCall) : List CacheAccess :=
  (h.filter (fun a => a.cache = which)).map CacheCall.access

def CallFits (h : List CacheCall) (a : CacheCall) : Prop :=
  Fits CachedMeta.cacheExpectSize (accessesOf a.cache h) a.access.lpa

theorem accessesOf_append_self (which : MetaCache) (h : List CacheCall) (a : CacheAccess) :
    accessesOf which (h ++ [⟨which,a⟩]) = accessesOf which h ++ [a] := by
  simp [accessesOf]

theorem accessesOf_append_ne {which other : MetaCache} (hne : which ≠ other) (h : List CacheCall)
    (a : CacheAccess) : accessesOf other (h ++ [⟨which,a⟩]) = accessesOf other h := by
  simp [accessesOf,hne]

structure SitNatCache.Tracked (which : MetaCache) (h : List CacheCall) (c : SitNatCache) : Prop where
  pins : c.PinOk (accessesOf which h)
  size : c.expectSize = CachedMeta.cacheExpectSize

structure CallsOk (s : CachedMeta) (h : List CacheCall) : Prop where
  nat : s.natCache.Tracked .nat h
  sit : s.sitCache.Tracked .sit h

section Cache
variable {which : MetaCache} {h : List CacheCall} {c : SitNatCache}

theorem SitNatCache.Tracked.other {other : MetaCache} (ht : c.Tracked which h) (hne : other ≠ which)
    (a : CacheAccess) : c.Tracked which (h ++ [⟨other,a⟩]) := by
  refine ⟨?_,ht.size⟩
  rw [accessesOf_append_ne hne]
  exact ht.pins

structure SitNatCache.Lent (which : MetaCache) (h : List CacheCall) (c : SitNatCache) (lpa : UInt32) : Prop where
  holding : c.Holding (accessesOf which h) lpa 1
  fits : c.curSize ≤ c.expectSize
  size : c.expectSize = CachedMeta.cacheExpectSize

theorem get_obeys (ht : c.Tracked which h) (fuel : Nat) (d : CommDev) (a : CacheAccess) :
    Obeys CallFits (c.getRun (fuel + 1) d which a) h
      (fun c' h' => h' = h ++ [⟨which,a⟩] ∧ c'.Lent which h a.lpa) := by
  rcases SitNatCache.get_outcome ht.pins fuel d which a with he | ⟨o,he,hcase⟩
  · rw [he]
    exact obeys_abort
  · rw [he]
    have hgood : AllGood CallFits h [⟨which,a⟩] ↔ Fits c.expectSize (accessesOf which h) a.lpa := by
      rw [allGood_single,ht.size]
      rfl
    rcases hcase with ⟨hfit,c',rfl,hgot⟩ | ⟨hno,rfl⟩
    · refine ⟨iff_of_false (fun hc => by cases hc) (not_not.mpr (hgood.mpr hfit)),fun c'' hc => ?_⟩
      cases hc
      exact ⟨rfl,hgot.holding,hgot.fits,hgot.expectSize.trans ht.size⟩
    · exact ⟨iff_of_true rfl (fun hg => hno (hgood.mp hg)),fun c'' hc => by cases hc⟩

theorem Lent.write {lpa : UInt32} (hl : c.Lent which h lpa) (b : Block) :
    (c.writeBlock lpa b).Lent which h lpa := ⟨hl.holding.write b,hl.fits,hl.size⟩

theorem release_obeys {lpa : UInt32} (hl : c.Lent which h lpa) (fuel : Nat) :
    Obeys CallFits (c.handleDestroyRun (fuel + 1) lpa) (h ++ [⟨which,⟨lpa,.released⟩⟩])
      (fun c' h' => h' = h ++ [⟨which,⟨lpa,.released⟩⟩] ∧ c'.Tracked which h') := by
  have hm : leaks (accessesOf which h ++ [⟨lpa,.released⟩]) lpa = leaks (accessesOf which h) lpa + 0 := by
    rw [leaks_append,if_neg (fun hc => hc.2 rfl)]
  obtain ⟨c',hc',hp,he⟩ := hl.holding.release hl.fits (show CacheUse.released ≠ .kept by decide) hm (fuel + 1)
  unfold SitNatCache.handleDestroyRun
  rw [hc']
  refine obeys_done ⟨rfl,?_,he.trans hl.size⟩
  rw [accessesOf_append_self]
  exact hp

theorem version_obeys {lpa : UInt32} (hl : c.Lent which h lpa) (fuel : Nat) :
    Obeys CallFits ((c.handleAddHostVersion lpa).handleDestroyRun (fuel + 1) lpa)
      (h ++ [⟨which,⟨lpa,.versioned⟩⟩])
      (fun c' h' => h' = h ++ [⟨which,⟨lpa,.versioned⟩⟩] ∧ c'.Tracked which h') := by
  have hm : leaks (accessesOf which h ++ [⟨lpa,.versioned⟩]) lpa = leaks (accessesOf which h) lpa + 1 := by
    rw [leaks_append,if_pos ⟨rfl,show CacheUse.versioned ≠ .released by decide⟩]
  obtain ⟨hsize,hcur⟩ := SitNatCache.addRefcount_sizes c lpa
  have hfit : (c.handleAddHostVersion lpa).curSize ≤ (c.handleAddHostVersion lpa).expectSize := by
    unfold SitNatCache.handleAddHostVersion
    rw [hsize,hcur]
    exact hl.fits
  obtain ⟨c',hc',hp,he⟩ := SitNatCache.Holding.release (c := c.handleAddHostVersion lpa) hl.holding.another hfit
    (show CacheUse.versioned ≠ .kept by decide) hm (fuel + 1)
  unfold SitNatCache.handleDestroyRun
  rw [hc']
  refine obeys_done ⟨rfl,?_,he.trans (hsize.trans hl.size)⟩
  rw [accessesOf_append_self]
  exact hp

theorem Lent.keep {lpa : UInt32} (hl : c.Lent which h lpa) :
    c.Tracked which (h ++ [⟨which,⟨lpa,.kept⟩⟩]) := by
  refine ⟨?_,hl.size⟩
  rw [accessesOf_append_self]
  exact hl.holding.kept hl.fits

end Cache

section Operations
variable {s : CachedMeta} {h : List CacheCall} (hs : CallsOk s h) (fuel : Nat)
include hs

theorem allocNid_obeys (ino : UInt32) (isInode : Bool) :
    Obeys CallFits (s.superManagerAllocNidRun (fuel + 1) ino isInode) h (fun r h' => CallsOk r.2 h') := by
  unfold CachedMeta.superManagerAllocNidRun
  simp only
  split
  · exact obeys_done hs
  · split
    · exact obeys_abort
    · refine (get_obeys hs.nat fuel s.dev _).bind (fun c h' => ?_)
      rintro ⟨rfl,hl⟩
      split
      · refine (release_obeys hl fuel).map (fun c' h' => ?_)
        rintro ⟨rfl,ht⟩
        exact ⟨ht,hs.sit.other (by decide) _⟩
      · refine (release_obeys (Lent.write hl _) fuel).map (fun c' h' => ?_)
        rintro ⟨rfl,ht⟩
        exact ⟨ht,hs.sit.other (by decide) _⟩

theorem freeNid_obeys (nid : UInt32) :
    Obeys CallFits (s.superManagerFreeNidRun (fuel + 1) nid) h CallsOk := by
  unfold CachedMeta.superManagerFreeNidRun
  split
  · exact obeys_abort
  · refine (get_obeys hs.nat fuel s.dev _).bind (fun c h' => ?_)
    rintro ⟨rfl,hl⟩
    refine (release_obeys (Lent.write hl _) fuel).map (fun c' h' => ?_)
    rintro ⟨rfl,ht⟩
    exact ⟨ht,hs.sit.other (by decide) _⟩

theorem getLpa_obeys (nid : UInt32) :
    Obeys CallFits (s.natGetLpaOfNidRun (fuel + 1) nid) h (fun r h' => CallsOk r.2 h') := by
  unfold CachedMeta.natGetLpaOfNidRun
  split
  · exact obeys_abort
  · refine (get_obeys hs.nat fuel s.dev _).map (fun c h' => ?_)
    rintro ⟨rfl,hl⟩
    exact ⟨Lent.keep hl,hs.sit.other (by decide) _⟩

theorem setLpa_obeys (nid newLpa : UInt32) :
    Obeys CallFits (s.natSetLpaOfNidRun (fuel + 1) nid newLpa) h CallsOk := by
  unfold CachedMeta.natSetLpaOfNidRun
  split
  · exact obeys_abort
  · refine (get_obeys hs.nat fuel s.dev _).bind (fun c h' => ?_)
    rintro ⟨rfl,hl⟩
    refine (version_obeys (Lent.write hl _) fuel).map (fun c' h' => ?_)
    rintro ⟨rfl,ht⟩
    exact ⟨ht,hs.sit.other (by decide) _⟩

theorem changeSegment_obeys (valid : Bool) (segId : UInt32) (segOff segCount : Nat) :
    Obeys CallFits (s.changeSegmentRun (fuel + 1) valid segId segOff segCount) h CallsOk := by
  unfold CachedMeta.changeSegmentRun
  refine (get_obeys hs.sit fuel s.dev _).bind (fun c h' => ?_)
  rintro ⟨rfl,hl⟩
  simp only
  split
  · exact obeys_abort
  · refine (version_obeys (Lent.write hl _) fuel).map (fun c' h' => ?_)
    rintro ⟨rfl,ht⟩
    exact ⟨hs.nat.other (by decide) _,ht⟩

end Operations

theorem segment_left (off : UInt32) : 0 < 512 - (off % 512).toNat := by
  have hlt := Nat.mod_lt off.toNat (show 0 < 512 by decide)
  have hm : (off % 512).toNat = off.toNat % 512 := UInt32.toNat_mod _ _
  omega

theorem changeSegments_obeys (fuel : Nat) (valid : Bool) {s : CachedMeta} {h : List CacheCall}
    (hs : CallsOk s h) (curLpa : UInt32) (count : Nat) :
    Obeys CallFits (CachedMeta.changeSegmentsRun (fuel + 1) valid s curLpa count) h CallsOk := by
  induction count using Nat.strong_induction_on generalizing s h curLpa with
  | _ count ih =>
    rw [CachedMeta.changeSegmentsRun]
    split
    · exact obeys_done hs
    · rename_i hz
      refine (changeSegment_obeys hs fuel valid _ _ _).bind (fun s' h' hs' => ?_)
      refine ih _ (Nat.sub_lt (Nat.pos_of_ne_zero hz) (Nat.lt_min.mpr ⟨?_,Nat.pos_of_ne_zero hz⟩)) hs' _
      exact segment_left _

theorem countFreeNids_obeys (fuel left : Nat) {s : CachedMeta} {h : List CacheCall} (hs : CallsOk s h)
    (currentNid : UInt32) :
    Obeys CallFits (CachedMeta.countFreeNids (fuel + 1) left s currentNid) h (fun r h' => CallsOk r.2 h') := by
  induction left generalizing s h currentNid with
  | zero => exact obeys_done hs
  | succ left ih =>
    rw [CachedMeta.countFreeNids]
    split
    · exact obeys_done hs
    · split
      · exact obeys_abort
      · refine (get_obeys hs.nat fuel s.dev _).bind (fun c h' => ?_)
        rintro ⟨rfl,hl⟩
        refine (release_obeys hl fuel).bind (fun c' h' => ?_)
        rintro ⟨rfl,ht⟩
        have hs' : CallsOk { s with natCache := c' } (h ++ [⟨.nat,⟨s.natLpa currentNid,.released⟩⟩]) :=
          ⟨ht,hs.sit.other (by decide) _⟩
        split
        · exact obeys_done hs'
        · split
          · exact obeys_done hs'
          · exact (ih hs' _).map (fun r h' hr => hr)

theorem cacheStep_obeys (fuel : Nat) {s : CachedMeta} {h : List CacheCall} (hs : CallsOk s h) (op : CacheOp) :
    Obeys CallFits (cacheStep (fuel + 1) s op) h CallsOk := by
  cases op with
  | statvfs => exact (countFreeNids_obeys fuel _ hs _).map (fun r h' hr => hr)
  | change op =>
    cases op with
    | allocNid ino isInode => exact (allocNid_obeys hs fuel ino isInode).map (fun r h' hr => hr)
    | freeNid nid => exact freeNid_obeys hs fuel nid
    | getLpa nid => exact (getLpa_obeys hs fuel nid).map (fun r h' hr => hr)
    | setLpa nid lpa => exact setLpa_obeys hs fuel nid lpa
    | changeRange start count valid =>
      change Obeys CallFits (s.sitChangeLpaStateRangeRun (fuel + 1) start count valid) h CallsOk
      unfold CachedMeta.sitChangeLpaStateRangeRun
      split
      · exact obeys_done hs
      · exact changeSegments_obeys fuel valid hs start count.toNat

theorem cacheRun_obeys (fuel : Nat) {s : CachedMeta} {h : List CacheCall} (hs : CallsOk s h)
    (ops : List CacheOp) : Obeys CallFits (cacheRun (fuel + 1) s ops) h CallsOk := by
  induction ops generalizing s h with
  | nil => exact obeys_done hs
  | cons op ops ih => exact (cacheStep_obeys fuel hs op).bind (fun s' h' hs' => ih hs')

theorem mount_callsOk (d : CommDev) : CallsOk (CachedMeta.mount d) [] :=
  ⟨⟨SitNatCache.PinOk.init _,rfl⟩,⟨SitNatCache.PinOk.init _,rfl⟩⟩

section Rounds
variable (fuel : Nat) (s : CachedMeta)

theorem changeSegments_rounds (valid : Bool) (curLpa : UInt32) (count : Nat) :
    CachedMeta.changeSegmentsRun (fuel + 1) valid s curLpa count =
      CachedMeta.changeSegmentsRun 1 valid s curLpa count := by
  induction count using Nat.strong_induction_on generalizing s curLpa with
  | _ count ih =>
    rw [CachedMeta.changeSegmentsRun,CachedMeta.changeSegmentsRun]
    split
    · rfl
    · rename_i hz
      have hseg (segId : UInt32) (segOff segCount : Nat) : s.changeSegmentRun (fuel + 1) valid segId segOff segCount =
          s.changeSegmentRun 1 valid segId segOff segCount := by
        unfold CachedMeta.changeSegmentRun
        simp only [SitNatCache.getRun_rounds _ fuel,SitNatCache.handleDestroyRun_rounds _ fuel]
      simp only
      rw [hseg]
      congr 1
      funext s'
      refine ih _ (Nat.sub_lt (Nat.pos_of_ne_zero hz) (Nat.lt_min.mpr ⟨?_,Nat.pos_of_ne_zero hz⟩)) s' _
      exact segment_left _

theorem countFreeNids_rounds (left : Nat) (currentNid : UInt32) :
    CachedMeta.countFreeNids (fuel + 1) left s currentNid = CachedMeta.countFreeNids 1 left s currentNid := by
  induction left generalizing s currentNid with
  | zero => rfl
  | succ left ih =>
    unfold CachedMeta.countFreeNids
    simp only [SitNatCache.getRun_rounds _ fuel,SitNatCache.handleDestroyRun_rounds _ fuel,ih]

theorem cacheStep_rounds (op : CacheOp) : cacheStep (fuel + 1) s op = cacheStep 1 s op := by
  cases op with
  | statvfs =>
    unfold cacheStep CachedMeta.rtfsStatvfsCountFreeNids
    rw [countFreeNids_rounds]
  | change op =>
    unfold cacheStep metaOpRun
    cases op with
    | allocNid ino isInode =>
      simp only [CachedMeta.superManagerAllocNidRun,SitNatCache.getRun_rounds _ fuel,
        SitNatCache.handleDestroyRun_rounds _ fuel]
    | freeNid nid =>
      simp only [CachedMeta.superManagerFreeNidRun,SitNatCache.getRun_rounds _ fuel,
        SitNatCache.handleDestroyRun_rounds _ fuel]
    | getLpa nid => simp only [CachedMeta.natGetLpaOfNidRun,SitNatCache.getRun_rounds _ fuel]
    | setLpa nid lpa =>
      simp only [CachedMeta.natSetLpaOfNidRun,SitNatCache.getRun_rounds _ fuel,
        SitNatCache.handleDestroyRun_rounds _ fuel]
    | changeRange start count valid =>
      simp only [CachedMeta.sitChangeLpaStateRangeRun,changeSegments_rounds fuel]

theorem cacheRun_rounds (ops : List CacheOp) : cacheRun (fuel + 1) s ops = cacheRun 1 s ops := by
  induction ops generalizing s with
  | nil => rfl
  | cons op ops ih =>
    rw [cacheRun,cacheRun,cacheStep_rounds]
    congr 1
    funext s'
    exact ih s'

end Rounds

theorem cache_calls_return_iff (d : CommDev) (ops : List CacheOp) :
    (∃ fuel, (cacheRun (fuel + 1) (CachedMeta.mount d) ops).outcome ≠ .running) ↔
      AllGood CallFits [] (cacheRun 1 (CachedMeta.mount d) ops).calls := by
  have hobeys := (cacheRun_obeys 0 (mount_callsOk d) ops).running
  constructor
  · rintro ⟨fuel,hne⟩
    by_contra hno
    rw [cacheRun_rounds] at hne
    exact hne (hobeys.mpr hno)
  · intro hgood
    exact ⟨0,fun he => hobeys.mp he hgood⟩

def lookups (nids : List UInt32) : List CacheOp := nids.map (fun nid => .change (.getLpa nid))

section Lookups

theorem stuck_of_kept {h : List CacheAccess} (hk : ∀ a ∈ h, a.use = .kept) {k : UInt32}
    (hin : k ∈ h.map CacheAccess.lpa) : Stuck h k := by
  obtain ⟨a,ha,rfl⟩ := List.mem_map.mp hin
  have hne : h.filter (fun b => b.lpa = a.lpa) ≠ [] :=
    List.ne_nil_of_mem (List.mem_filter.mpr ⟨ha,decide_eq_true rfl⟩)
  have hlast := List.getLast?_eq_some_getLast hne
  refine Or.inl ?_
  rw [lastUse,hlast]
  exact congrArg some (hk _ (List.mem_of_mem_filter (List.getLast_mem hne)))

theorem kept_not_fit {h : List CacheAccess} (hk : ∀ a ∈ h, a.use = .kept) {k : UInt32} {size : Nat}
    (hn : (k :: h.map CacheAccess.lpa).Nodup) (hlen : size ≤ h.length) : ¬ Fits size h k := by
  intro hfit
  have hsub : (k :: h.map CacheAccess.lpa).toFinset ⊆ insert k (stuckBlocks h) := by
    intro x hx
    rcases List.mem_cons.mp (List.mem_toFinset.mp hx) with rfl | hx
    · exact Finset.mem_insert_self _ _
    · exact Finset.mem_insert_of_mem (mem_stuckBlocks.mpr (stuck_of_kept hk hx))
  have hle := (Finset.card_le_card hsub).trans hfit
  rw [List.toFinset_card_of_nodup hn,List.length_cons,List.length_map] at hle
  omega

theorem lookups_calls (fuel : Nat) {s : CachedMeta} {h : List CacheCall} (hs : CallsOk s h)
    (nids : List UInt32) (hh : ∀ nid ∈ nids, s.natHolds nid ∧ s.dev.Holds (s.natLpa nid).toNat)
    (hret : (cacheRun (fuel + 1) s (lookups nids)).outcome ≠ .running) :
    (cacheRun (fuel + 1) s (lookups nids)).calls =
      nids.map (fun nid => ⟨.nat,⟨s.natLpa nid,.kept⟩⟩) := by
  induction nids generalizing s h with
  | nil => rfl
  | cons nid nids ih =>
    obtain ⟨hhold,hdev⟩ := hh nid List.mem_cons_self
    obtain ⟨o,ho⟩ := SitNatCache.getRun_readable (c := s.natCache) (a := ⟨s.natLpa nid,.kept⟩) hdev (fuel + 1) .nat
    have hout := SitNatCache.get_outcome hs.nat.pins fuel s.dev .nat ⟨s.natLpa nid,.kept⟩
    rw [ho] at hout
    have hstep : cacheStep (fuel + 1) s (.change (.getLpa nid)) =
        ((⟨[⟨.nat,⟨s.natLpa nid,.kept⟩⟩],o⟩ : Logged CacheCall SitNatCache).map (fun c =>
          ((s.natEntryIn c nid).blockAddr,{ s with natCache := c }))).map Prod.snd := by
      change (s.natGetLpaOfNidRun (fuel + 1) nid).map Prod.snd = _
      unfold CachedMeta.natGetLpaOfNidRun
      rw [if_neg (not_not.mpr hhold),ho]
    have hrun : cacheRun (fuel + 1) s (lookups (nid :: nids)) =
        (cacheStep (fuel + 1) s (.change (.getLpa nid))).bind (fun s' => cacheRun (fuel + 1) s' (lookups nids)) := rfl
    rw [hrun,hstep] at hret ⊢
    rcases hout with he | ⟨o',he,⟨_,c',rfl,hgot⟩ | ⟨_,rfl⟩⟩
    · cases he
    · cases he
      have hs' : CallsOk { s with natCache := c' } (h ++ [⟨.nat,⟨s.natLpa nid,.kept⟩⟩]) :=
        ⟨Lent.keep ⟨hgot.holding,hgot.fits,hgot.expectSize.trans hs.nat.size⟩,hs.sit.other (by decide) _⟩
      have hrest := ih hs' (fun x hx => hh x (List.mem_cons_of_mem _ hx)) hret
      rw [List.map_cons]
      exact congrArg (List.cons _) hrest
    · cases he
      exact absurd rfl hret

-- 101 lookups of nids in 101 NAT blocks of a fresh file system
theorem cache_get_endless : rtfsMkfsFormat wideOptions (wideDev fun _ => Buf.zero) = .ok (wideLayout,wideDisk) ∧
    ∀ fuel, (cacheRun (fuel + 1) (CachedMeta.mount wideDisk)
      (lookups ((List.range 101).map (fun i => UInt32.ofNat (512 * i))))).outcome = .running := by
  refine ⟨wideDisk_format.1,fun fuel => ?_⟩
  by_contra hret
  have hstart : natBlkaddr (CachedMeta.mount wideDisk).superBlock = 1536 := wide_field (by decide) rfl
  have hseg : u32At (CachedMeta.mount wideDisk).superBlock segmentCountNatOff = 1 := wide_field (by decide) rfl
  have hlpa (nid : UInt32) : (CachedMeta.mount wideDisk).natLpa nid = 1536 + nid / 512 :=
    wide_natLpa _ hstart nid
  have hcalls := lookups_calls fuel (mount_callsOk wideDisk) _ (fun nid hnid => ?_) hret
  · have hgood := not_not.mp (mt (cacheRun_obeys fuel (mount_callsOk wideDisk) _).running.mpr hret)
    rw [hcalls,List.range_succ,List.map_append,List.map_append] at hgood
    have hlast := ((allGood_append _ _).mp hgood).2
    rw [List.map_singleton,List.map_singleton,allGood_single] at hlast
    refine kept_not_fit (fun a ha => ?_) ?_ ?_ hlast
    · obtain ⟨x,hx,rfl⟩ := List.mem_map.mp ha
      obtain ⟨y,hy,rfl⟩ := List.mem_map.mp (List.mem_of_mem_filter hx)
      rfl
    · simp only [hlpa,List.nil_append]
      decide +kernel
    · simp only [hlpa,List.nil_append]
      decide +kernel
  · obtain ⟨i,hi,rfl⟩ := List.mem_map.mp hnid
    have hi := List.mem_range.mp hi
    have hnat : (UInt32.ofNat (512 * i)).toNat = 512 * i := by
      rw [UInt32.toNat_ofNat']
      omega
    refine ⟨?_,?_⟩
    · unfold CachedMeta.natHolds
      rw [hseg,UInt32.lt_iff_toNat_lt,UInt32.toNat_div,hnat]
      change 512 * i / 512 < 512
      omega
    · rw [hlpa]
      refine wideDisk_holds _ ?_
      rw [fillBlock_toNat (show i ≤ 100 by omega) hnat]
      omega

end Lookups

end Rtfs
