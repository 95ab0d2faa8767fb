import Rtfs.Fs.CachedMeta
import Rtfs.Comm.Replay

namespace Rtfs

open RtfsSuperBlock

structure Coherent (L : Layout) (seg0 : UInt32) (d₀ : CommDev) (s : CachedMeta) (m : FsMeta) : Prop where
  device : s.dev = d₀
  layout : L.Ok s.dev
  areas : layoutOf s.superBlock = L
  segment0 : u32At s.superBlock segment0BlkaddrOff = seg0
  super : m.superBlock = s.superBlock
  journal : m.curJournal = s.curJournal
  natOk : s.natCache.CacheOk
  sitOk : s.sitCache.CacheOk
  natArea : ∀ k ∈ s.natCache.keys, L.InNatArea k.toNat
  sitArea : ∀ k ∈ s.sitCache.keys, L.InSitArea k.toNat
  nat : m.nat = natTable.read (natBlkaddr s.superBlock) (s.natCache.content s.dev)
  sit : m.sit = sitTable.read (sitBlkaddr s.superBlock) (s.sitCache.content s.dev)

section Areas
variable {L : Layout} {d : CommDev}

theorem Layout.Ok.blockCount_le_lpas (h : L.Ok d) : L.blockCount ≤ 536870912 := by
  by_contra hlt
  have hh := (h.held (L.blockCount - 1) (by omega)).lt
  omega

theorem areaBlock_toNat {start i : UInt32} {n : Nat} (hn : start.toNat + n ≤ 536870912) (hi : i.toNat < n) :
    start.toNat ≤ (start + i).toNat ∧ (start + i).toNat < start.toNat + n := by
  rw [blockLpa_toNat (by omega) hi]
  omega

theorem natHolds_area {seg0 : UInt32} {d₀ : CommDev} {s : CachedMeta} {m : FsMeta} (h : Coherent L seg0 d₀ s m) {nid : UInt32}
    (hold : s.natHolds nid) : L.InNatArea (s.natLpa nid).toNat := by
  have hb := h.layout.blockCount_le_lpas
  have h1 := h.layout.nat_main
  have h2 := h.layout.main_end
  have hseg : (u32At s.superBlock segmentCountNatOff).toNat = L.segmentCountNat := by
    rw [← h.areas]
    rfl
  have hstart : (natBlkaddr s.superBlock).toNat = L.natBlkaddr := by
    rw [← h.areas]
    rfl
  unfold CachedMeta.natHolds at hold
  rw [UInt32.lt_iff_toNat_lt,UInt32.toNat_mul,hseg] at hold
  change (nid / 512).toNat < L.segmentCountNat * 512 % 4294967296 at hold
  unfold blockPerSegment at h1
  unfold Layout.InNatArea
  rw [← hstart] at h1 ⊢
  have hlt : (nid / 512).toNat < L.segmentCountNat * 512 := by omega
  exact areaBlock_toNat (by unfold blockPerSegment; omega) hlt

theorem natArea_holds (h : L.Ok d) {lpa : Nat} (hin : L.InNatArea lpa) : d.Holds lpa := by
  have h1 := h.nat_main
  have h2 := h.main_end
  exact h.held lpa (by unfold Layout.InNatArea at hin; omega)

theorem sitArea_holds (h : L.Ok d) {lpa : Nat} (hin : L.InSitArea lpa) : d.Holds lpa := by
  have h0 := h.sit_nat
  have h1 := h.nat_main
  have h2 := h.main_end
  exact h.held lpa (by unfold Layout.InSitArea at hin; omega)

theorem blkaddr_of_layout {sb sb' : Block} (h : layoutOf sb' = layoutOf sb) :
    natBlkaddr sb' = natBlkaddr sb ∧ sitBlkaddr sb' = sitBlkaddr sb :=
  ⟨UInt32.toNat_inj.mp (congrArg Layout.natBlkaddr h),
    UInt32.toNat_inj.mp (congrArg Layout.sitBlkaddr h)⟩

end Areas

section NatOps
variable {L : Layout} {seg0 : UInt32} {d₀ : CommDev} {s : CachedMeta} {m : FsMeta}

theorem Coherent.setNat (h : Coherent L seg0 d₀ s m) {nid : UInt32} (hold : s.natHolds nid) {e : RtfsNatEntry}
    {c : SitNatCache} (hw : SitNatCache.Written s.dev s.natCache c (s.natLpa nid)
      (setNatEntry (s.natCache.content s.dev (s.natLpa nid)) (natTable.indexOf nid) e))
    {sb : Block} (hsb : layoutOf sb = layoutOf s.superBlock)
    (hz : u32At sb segment0BlkaddrOff = u32At s.superBlock segment0BlkaddrOff) (j : JournalContainer) :
    Coherent L seg0 d₀ { s with superBlock := sb, natCache := c, curJournal := j }
      ⟨sb,Function.update m.nat nid e,m.sit,j⟩ := by
  obtain ⟨hn,hs⟩ := blkaddr_of_layout hsb
  refine ⟨h.device,h.layout,hsb.trans h.areas,hz.trans h.segment0,rfl,rfl,hw.ok,h.sitOk,fun k hk => ?_,h.sitArea,?_,?_⟩
  · rcases hw.keys k hk with rfl | hk
    · exact natHolds_area h hold
    · exact h.natArea k hk
  · change Function.update m.nat nid e = natTable.read (natBlkaddr sb) (c.content s.dev)
    rw [hn,h.nat]
    exact (natTable.read_write hw.content).symm
  · change m.sit = sitTable.read (sitBlkaddr sb) _
    rw [hs]
    exact h.sit

theorem Coherent.getNat (h : Coherent L seg0 d₀ s m) {nid : UInt32} (hold : s.natHolds nid) {c : SitNatCache}
    (hok : c.CacheOk) (hs : SitNatCache.SameContent s.dev s.natCache c)
    (hk : ∀ x ∈ c.keys, x = s.natLpa nid ∨ x ∈ s.natCache.keys) :
    Coherent L seg0 d₀ { s with natCache := c } m := by
  refine ⟨h.device,h.layout,h.areas,h.segment0,h.super,h.journal,hok,h.sitOk,fun k hkk => ?_,h.sitArea,?_,h.sit⟩
  · rcases hk k hkk with rfl | hkk
    · exact natHolds_area h hold
    · exact h.natArea k hkk
  · rw [h.nat]
    exact (natTable.read_congr hs.content).symm

theorem natEntryIn_eq (h : Coherent L seg0 d₀ s m) {c : SitNatCache}
    (hs : SitNatCache.SameContent s.dev s.natCache c) (nid : UInt32) : s.natEntryIn c nid = m.nat nid := by
  unfold CachedMeta.natEntryIn
  rw [hs.content,h.nat]
  rfl

theorem natHolds_iff (h : Coherent L seg0 d₀ s m) (nid : UInt32) : natHoldsNid m nid ↔ s.natHolds nid := by
  unfold natHoldsNid CachedMeta.natHolds FsMeta.field
  rw [h.super]

theorem nat_access (h : Coherent L seg0 d₀ s m) {nid : UInt32} (hold : s.natHolds nid)
    (hroom : s.natCache.Room s.dev (s.natLpa nid)) :
    ∃ c, s.natCache.get s.dev (s.natLpa nid) = some c ∧ c.CacheOk ∧ c.Held (s.natLpa nid) ∧
      SitNatCache.SameContent s.dev s.natCache c ∧
      ∀ x ∈ c.keys, x = s.natLpa nid ∨ x ∈ s.natCache.keys :=
  SitNatCache.get_spec h.natOk (natArea_holds h.layout (natHolds_area h hold)) hroom

theorem layoutOf_nextFree (sb : Block) (v : UInt32) :
    layoutOf (setU32 sb nextFreeNidOff v) = layoutOf sb := layoutOf_setU32 sb v (by decide)

theorem segment0_nextFree (sb : Block) (v : UInt32) :
    u32At (setU32 sb nextFreeNidOff v) segment0BlkaddrOff = u32At sb segment0BlkaddrOff :=
  u32At_setU32_ne sb _ _ v (by decide)

theorem allocNid_coherent (h : Coherent L seg0 d₀ s m) {ino out : UInt32} {isInode : Bool} {m' : FsMeta}
    (hroom : u32At s.superBlock nextFreeNidOff ≠ invalidNid →
      s.natCache.Room s.dev (s.natLpa (u32At s.superBlock nextFreeNidOff)))
    (hm : superManagerAllocNid m ino isInode = some (out,m')) :
    ∃ s', s.superManagerAllocNid ino isInode = some (out,s') ∧ Coherent L seg0 d₀ s' m' := by
  have hfield : m.field nextFreeNidOff = u32At s.superBlock nextFreeNidOff := by
    rw [FsMeta.field,h.super]
  unfold superManagerAllocNid at hm
  unfold CachedMeta.superManagerAllocNid
  simp only [hfield] at hm ⊢
  generalize u32At s.superBlock nextFreeNidOff = nid at hm hroom ⊢
  by_cases hz : nid = invalidNid
  · rw [if_pos hz] at hm ⊢
    cases hm
    exact ⟨s,rfl,h⟩
  · rw [if_neg hz] at hm ⊢
    by_cases hold : s.natHolds nid
    · rw [if_neg (not_not.mpr ((natHolds_iff h nid).mpr hold))] at hm
      rw [if_neg (not_not.mpr hold)]
      obtain ⟨c,hc,hok,hheld,hsame,hkeys⟩ := nat_access h hold (hroom hz)
      rw [hc,Option.bind_some]
      simp only [natEntryIn_eq h hsame]
      by_cases hb : (m.nat nid).blockAddr = invalidLpa
      · rw [if_pos hb] at hm ⊢
        cases hm
        obtain ⟨c',hc',k1,k2,k3⟩ := SitNatCache.handleDestroy_spec hok hheld s.dev
        rw [hc']
        exact ⟨_,rfl,h.getNat hold k1 (hsame.trans k2) (fun x hx => hkeys x (k3.mem_iff.mp hx))⟩
      · rw [if_neg hb] at hm ⊢
        cases hm
        obtain ⟨c',hc',hw⟩ := SitNatCache.write_release hsame hkeys hok hheld
          (setNatEntry (c.content s.dev (s.natLpa out)) (natTable.indexOf out)
            ⟨if isInode then out else ino,invalidLpa⟩)
        rw [CachedMeta.setNatEntryIn,hc']
        rw [hsame.content] at hw
        refine ⟨_,rfl,?_⟩
        have hset := h.setNat hold hw (layoutOf_nextFree s.superBlock (m.nat out).blockAddr)
          (segment0_nextFree s.superBlock (m.nat out).blockAddr)
          (s.journalNextFree (setU32 s.superBlock nextFreeNidOff (m.nat out).blockAddr))
        obtain ⟨sb,nat,sit,j⟩ := m
        obtain rfl : sb = s.superBlock := h.super
        obtain rfl : j = s.curJournal := h.journal
        exact hset
    · rw [if_pos (fun hh => hold ((natHolds_iff h nid).mp hh))] at hm
      cases hm

theorem freeNid_coherent (h : Coherent L seg0 d₀ s m) {nid : UInt32} {m' : FsMeta}
    (hroom : s.natCache.Room s.dev (s.natLpa nid)) (hm : superManagerFreeNid m nid = some m') :
    ∃ s', s.superManagerFreeNid nid = some s' ∧ Coherent L seg0 d₀ s' m' := by
  unfold superManagerFreeNid at hm
  unfold CachedMeta.superManagerFreeNid
  by_cases hold : s.natHolds nid
  · rw [if_neg (not_not.mpr ((natHolds_iff h nid).mpr hold))] at hm
    rw [if_neg (not_not.mpr hold)]
    cases hm
    obtain ⟨c,hc,hok,hheld,hsame,hkeys⟩ := nat_access h hold hroom
    obtain ⟨c',hc',hw⟩ := SitNatCache.write_release hsame hkeys hok hheld
      (setNatEntry (c.content s.dev (s.natLpa nid)) (natTable.indexOf nid)
        ⟨invalidNid,u32At s.superBlock nextFreeNidOff⟩)
    rw [hc,Option.bind_some]
    simp only
    rw [CachedMeta.setNatEntryIn,hc']
    rw [hsame.content] at hw
    refine ⟨_,rfl,?_⟩
    have hset := h.setNat hold hw (layoutOf_nextFree s.superBlock nid)
      (segment0_nextFree s.superBlock nid)
      (s.journalNextFree (setU32 s.superBlock nextFreeNidOff nid))
    obtain ⟨sb,nat,sit,j⟩ := m
    obtain rfl : sb = s.superBlock := h.super
    obtain rfl : j = s.curJournal := h.journal
    exact hset
  · rw [if_pos (fun hh => hold ((natHolds_iff h nid).mp hh))] at hm
    cases hm

theorem getLpa_coherent (h : Coherent L seg0 d₀ s m) {nid lpa : UInt32}
    (hroom : s.natCache.Room s.dev (s.natLpa nid)) (hm : natGetLpaOfNid m nid = some lpa) :
    ∃ s', s.natGetLpaOfNid nid = some (lpa,s') ∧ Coherent L seg0 d₀ s' m := by
  unfold natGetLpaOfNid at hm
  unfold CachedMeta.natGetLpaOfNid
  by_cases hold : s.natHolds nid
  · rw [if_neg (not_not.mpr ((natHolds_iff h nid).mpr hold))] at hm
    rw [if_neg (not_not.mpr hold)]
    cases hm
    obtain ⟨c,hc,hok,hheld,hsame,hkeys⟩ := nat_access h hold hroom
    rw [hc]
    refine ⟨{ s with natCache := c },?_,h.getNat hold hok hsame hkeys⟩
    rw [Option.map_some,natEntryIn_eq h hsame]
  · rw [if_pos (fun hh => hold ((natHolds_iff h nid).mp hh))] at hm
    cases hm

theorem setLpa_coherent (h : Coherent L seg0 d₀ s m) {nid lpa : UInt32} {m' : FsMeta}
    (hroom : s.natCache.Room s.dev (s.natLpa nid)) (hm : natSetLpaOfNid m nid lpa = some m') :
    ∃ s', s.natSetLpaOfNid nid lpa = some s' ∧ Coherent L seg0 d₀ s' m' := by
  unfold natSetLpaOfNid at hm
  unfold CachedMeta.natSetLpaOfNid
  by_cases hold : s.natHolds nid
  · rw [if_neg (not_not.mpr ((natHolds_iff h nid).mpr hold))] at hm
    rw [if_neg (not_not.mpr hold)]
    cases hm
    obtain ⟨c,hc,hok,hheld,hsame,hkeys⟩ := nat_access h hold hroom
    obtain ⟨c',hc',hw⟩ := SitNatCache.write_pin_release hsame hkeys hok hheld
      (setNatEntry (c.content s.dev (s.natLpa nid)) (natTable.indexOf nid) ⟨(m.nat nid).ino,lpa⟩)
    rw [hc,Option.bind_some]
    simp only [natEntryIn_eq h hsame]
    rw [CachedMeta.setNatEntryIn,hc']
    rw [hsame.content] at hw
    refine ⟨_,rfl,?_⟩
    have hset := h.setNat hold hw rfl rfl
      (s.curJournal.appendNatJournalEntry ⟨nid,⟨(m.nat nid).ino,lpa⟩⟩)
    have hself : Function.update m.nat nid ⟨(m.nat nid).ino,lpa⟩ nid = ⟨(m.nat nid).ino,lpa⟩ :=
      Function.update_self _ _ _
    unfold FsMeta.journalNat FsMeta.setNat
    simp only [hself]
    obtain ⟨sb,nat,sit,j⟩ := m
    obtain rfl : sb = s.superBlock := h.super
    obtain rfl : j = s.curJournal := h.journal
    exact hset
  · rw [if_pos (fun hh => hold ((natHolds_iff h nid).mp hh))] at hm
    cases hm

end NatOps

section SitOps
variable {L : Layout} {seg0 : UInt32} {d₀ : CommDev} {s : CachedMeta} {m : FsMeta}

def CachedMeta.sitBlocks (s : CachedMeta) (lpa : UInt32) (count : Nat) : List UInt32 :=
  (List.range count).map (fun i =>
    s.sitLpa ((lpa + UInt32.ofNat i - u32At s.superBlock segment0BlkaddrOff) / 512))

def CachedMeta.SitRoom (s : CachedMeta) (lpa : UInt32) (count : Nat) : Prop :=
  (s.sitCache.keys ++ s.sitBlocks lpa count).toFinset.card ≤ s.sitCache.expectSize

theorem changeSegment_coherent (h : Coherent L seg0 d₀ s m) {segId : UInt32} {valid : Bool} {off n : Nat}
    {e : RtfsSitEntry} (hin : L.InSitArea (s.sitLpa segId).toNat)
    (hroom : s.sitCache.Room s.dev (s.sitLpa segId))
    (hm : (m.sit segId).changeBits valid off n = some e) :
    ∃ s', s.changeSegment valid segId off n = some s' ∧ s'.superBlock = s.superBlock ∧
      s'.sitCache.expectSize = s.sitCache.expectSize ∧
      (∀ x ∈ s'.sitCache.keys, x = s.sitLpa segId ∨ x ∈ s.sitCache.keys) ∧
      Coherent L seg0 d₀ s' ((m.setSit segId e).journalSit segId) := by
  obtain ⟨c,hc,hok,hheld,hsame,hkeys⟩ :=
    SitNatCache.get_spec h.sitOk (sitArea_holds h.layout hin) hroom
  obtain ⟨c',hc',hw⟩ := SitNatCache.write_pin_release hsame hkeys hok hheld
    (setSitEntry (c.content s.dev (s.sitLpa segId)) (sitTable.indexOf segId) e)
  have hentry : sitEntryAt (c.content s.dev (s.sitLpa segId)) (sitTable.indexOf segId) = m.sit segId := by
    rw [hsame.content,h.sit]
    rfl
  refine ⟨{ s with sitCache := c', curJournal := s.curJournal.appendSitJournalEntry ⟨segId,e⟩ },?_,rfl,
    hw.expectSize,hw.keys,?_⟩
  · unfold CachedMeta.changeSegment
    rw [hc,Option.bind_some]
    simp only [hentry,hm]
    rw [hc']
    rfl
  · rw [hsame.content] at hw
    have hself : Function.update m.sit segId e segId = e := Function.update_self _ _ _
    refine ⟨h.device,h.layout,h.areas,h.segment0,h.super,?_,h.natOk,hw.ok,h.natArea,fun k hk => ?_,h.nat,?_⟩
    · unfold FsMeta.journalSit FsMeta.setSit
      simp only [hself,h.journal]
    · rcases hw.keys k hk with rfl | hk
      · exact hin
      · exact h.sitArea k hk
    · change Function.update m.sit segId e = sitTable.read (sitBlkaddr s.superBlock) (c'.content s.dev)
      rw [h.sit]
      exact (sitTable.read_write hw.content).symm

theorem sitRoom_first {lpa : UInt32} {count : Nat} (h : s.SitRoom lpa count) (hpos : 0 < count) :
    s.sitCache.Room s.dev (s.sitLpa ((lpa - u32At s.superBlock segment0BlkaddrOff) / 512)) := by
  by_cases hin : s.sitLpa ((lpa - u32At s.superBlock segment0BlkaddrOff) / 512) ∈ s.sitCache.keys
  · exact Or.inl hin
  · refine Or.inr (Or.inl ?_)
    have hmem : s.sitLpa ((lpa - u32At s.superBlock segment0BlkaddrOff) / 512) ∈ s.sitBlocks lpa count := by
      refine List.mem_map.mpr ⟨0,List.mem_range.mpr hpos,?_⟩
      rw [show UInt32.ofNat 0 = 0 from rfl,UInt32.add_zero]
    have hsub : insert (s.sitLpa ((lpa - u32At s.superBlock segment0BlkaddrOff) / 512))
        s.sitCache.keys.toFinset ⊆ (s.sitCache.keys ++ s.sitBlocks lpa count).toFinset := by
      intro x hx
      rw [List.mem_toFinset,List.mem_append]
      rcases Finset.mem_insert.mp hx with rfl | hx
      · exact Or.inr hmem
      · exact Or.inl (List.mem_toFinset.mp hx)
    have hcard := (Finset.card_le_card hsub).trans h
    have hnodup : s.sitCache.keys.Nodup := CacheLruReplacer.keys_nodup
    rw [Finset.card_insert_of_notMem (fun hx => hin (List.mem_toFinset.mp hx)),
      List.toFinset_card_of_nodup hnodup] at hcard
    rw [SitNatCache.curSize_keys]
    exact hcard

theorem sitBlocks_tail {s' : CachedMeta} (hsb : s'.superBlock = s.superBlock) (lpa : UInt32)
    {k count : Nat} (hk : k ≤ count) :
    ∀ x ∈ s'.sitBlocks (lpa + UInt32.ofNat k) (count - k), x ∈ s.sitBlocks lpa count := by
  intro x hx
  obtain ⟨i,hi,rfl⟩ := List.mem_map.mp hx
  rw [List.mem_range] at hi
  refine List.mem_map.mpr ⟨k + i,List.mem_range.mpr (by omega),?_⟩
  rw [UInt32.ofNat_add,← UInt32.add_assoc]
  unfold CachedMeta.sitLpa
  rw [hsb]

theorem changeSegments_coherent (valid : Bool) (count : Nat) :
    ∀ (s : CachedMeta) (m m' : FsMeta) (lpa : UInt32), Coherent L seg0 d₀ s m →
      (∀ b ∈ s.sitBlocks lpa count, L.InSitArea b.toNat) → s.SitRoom lpa count →
      changeSegments valid m lpa count = some m' →
      ∃ s', CachedMeta.changeSegments valid s lpa count = some s' ∧ Coherent L seg0 d₀ s' m' := by
  induction count using Nat.strong_induction_on with
  | _ count ih =>
    intro s m m' lpa h hin hroom hm
    rw [changeSegments] at hm
    rw [CachedMeta.changeSegments]
    by_cases hz : count = 0
    · rw [if_pos hz] at hm ⊢
      cases hm
      exact ⟨s,rfl,h⟩
    · have hfield : m.field segment0BlkaddrOff = u32At s.superBlock segment0BlkaddrOff := by
        rw [FsMeta.field,h.super]
      rw [if_neg hz] at hm ⊢
      simp only [hfield] at hm ⊢
      have hmod : ((lpa - u32At s.superBlock segment0BlkaddrOff) % 512).toNat < 512 := by
        rw [UInt32.toNat_mod]
        exact Nat.mod_lt _ (by decide)
      generalize hk : min (512 - ((lpa - u32At s.superBlock segment0BlkaddrOff) % 512).toNat) count = k
        at hm ⊢
      cases he : (m.sit ((lpa - u32At s.superBlock segment0BlkaddrOff) / 512)).changeBits valid
          ((lpa - u32At s.superBlock segment0BlkaddrOff) % 512).toNat k with
      | none =>
        rw [he] at hm
        cases hm
      | some e =>
        rw [he] at hm
        simp only at hm
        have hfirst : s.sitLpa ((lpa - u32At s.superBlock segment0BlkaddrOff) / 512) ∈
            s.sitBlocks lpa count := by
          refine List.mem_map.mpr ⟨0,List.mem_range.mpr (by omega),?_⟩
          rw [show UInt32.ofNat 0 = 0 from rfl,UInt32.add_zero]
        obtain ⟨s',hs',hsb,hexp,hkeys,hcoh⟩ := changeSegment_coherent h (hin _ hfirst)
          (sitRoom_first hroom (by omega)) he
        rw [hs']
        have htail := sitBlocks_tail hsb lpa (show k ≤ count by omega)
        refine ih (count - k) (by omega) _ _ m' _ hcoh (fun b hb => hin b (htail b hb)) ?_ hm
        unfold CachedMeta.SitRoom at hroom ⊢
        rw [hexp]
        refine (Finset.card_le_card (fun x hx => ?_)).trans hroom
        rw [List.mem_toFinset,List.mem_append] at hx ⊢
        rcases hx with hx | hx
        · rcases hkeys x hx with rfl | hx
          · exact Or.inr hfirst
          · exact Or.inl hx
        · exact Or.inr (htail x hx)

end SitOps

section Runs
variable {L : Layout} {seg0 : UInt32} {d₀ : CommDev} {s : CachedMeta} {m : FsMeta}

def MetaOp.Ok (sb : Block) : MetaOp → Prop
  | .changeRange start count _ => ∀ i < count.toNat,
      ((start + UInt32.ofNat i - u32At sb segment0BlkaddrOff) / 512 / 60).toNat <
        (layoutOf sb).segmentCountSit * blockPerSegment
  | _ => True

def StepRoom (s : CachedMeta) : MetaOp → Prop
  | .allocNid _ _ => u32At s.superBlock nextFreeNidOff ≠ invalidNid →
      s.natCache.Room s.dev (s.natLpa (u32At s.superBlock nextFreeNidOff))
  | .freeNid nid => s.natCache.Room s.dev (s.natLpa nid)
  | .getLpa nid => s.natCache.Room s.dev (s.natLpa nid)
  | .setLpa nid _ => s.natCache.Room s.dev (s.natLpa nid)
  | .changeRange start count _ => start = invalidLpa ∨ count = 0 ∨ s.SitRoom start count.toNat

def RunRoom : CachedMeta → List MetaOp → Prop
  | _,[] => True
  | s,op :: ops => StepRoom s op ∧ ∀ out s', cachedStep s op = some (out,s') → RunRoom s' ops

theorem sitBlocks_area (h : Coherent L seg0 d₀ s m) {lpa : UInt32} {count : Nat}
    (hop : ∀ i < count, ((lpa + UInt32.ofNat i - seg0) / 512 / 60).toNat <
      L.segmentCountSit * blockPerSegment) :
    ∀ b ∈ s.sitBlocks lpa count, L.InSitArea b.toNat := by
  intro b hb
  obtain ⟨i,hi,rfl⟩ := List.mem_map.mp hb
  have hstart : (sitBlkaddr s.superBlock).toNat = L.sitBlkaddr := by
    rw [← h.areas]
    rfl
  have h0 := h.layout.sit_nat
  have h1 := h.layout.nat_main
  have h2 := h.layout.main_end
  have hb := h.layout.blockCount_le_lpas
  have hlt := hop i (List.mem_range.mp hi)
  rw [h.segment0]
  unfold Layout.InSitArea
  rw [← hstart] at h0 ⊢
  exact areaBlock_toNat (by omega) hlt

theorem changeRange_coherent (h : Coherent L seg0 d₀ s m) {start count : UInt32} {valid : Bool}
    {m' : FsMeta} (hop : ∀ i < count.toNat, ((start + UInt32.ofNat i - seg0) / 512 / 60).toNat <
      L.segmentCountSit * blockPerSegment)
    (hroom : start = invalidLpa ∨ count = 0 ∨ s.SitRoom start count.toNat)
    (hm : sitChangeLpaStateRange m start count valid = some m') :
    ∃ s', s.sitChangeLpaStateRange start count valid = some s' ∧ Coherent L seg0 d₀ s' m' := by
  unfold sitChangeLpaStateRange at hm
  unfold CachedMeta.sitChangeLpaStateRange
  by_cases hz : start = invalidLpa ∨ count = 0
  · rw [if_pos hz] at hm ⊢
    cases hm
    exact ⟨s,rfl,h⟩
  · rw [if_neg hz] at hm ⊢
    have hr : s.SitRoom start count.toNat := by
      rcases hroom with h0 | h0 | h0
      · exact absurd (Or.inl h0) hz
      · exact absurd (Or.inr h0) hz
      · exact h0
    exact changeSegments_coherent valid count.toNat s m m' start h (sitBlocks_area h hop) hr hm

theorem step_coherent {sb : Block} {op : MetaOp} {out : UInt32} {m' : FsMeta}
    (h : Coherent (layoutOf sb) (u32At sb segment0BlkaddrOff) d₀ s m) (hop : op.Ok sb)
    (hroom : StepRoom s op) (hm : metaStep m op = some (out,m')) :
    ∃ s', cachedStep s op = some (out,s') ∧
      Coherent (layoutOf sb) (u32At sb segment0BlkaddrOff) d₀ s' m' := by
  cases op with
  | allocNid ino isInode => exact allocNid_coherent h hroom hm
  | freeNid nid =>
    obtain ⟨m1,hm1,he⟩ := Option.map_eq_some_iff.mp hm
    cases he
    obtain ⟨s',hs',hc⟩ := freeNid_coherent h hroom hm1
    exact ⟨s',congrArg (Option.map _) hs',hc⟩
  | getLpa nid =>
    obtain ⟨lpa,hl,he⟩ := Option.map_eq_some_iff.mp hm
    cases he
    exact getLpa_coherent h hroom hl
  | setLpa nid lpa =>
    obtain ⟨m1,hm1,he⟩ := Option.map_eq_some_iff.mp hm
    cases he
    obtain ⟨s',hs',hc⟩ := setLpa_coherent h hroom hm1
    exact ⟨s',congrArg (Option.map _) hs',hc⟩
  | changeRange start count valid =>
    obtain ⟨m1,hm1,he⟩ := Option.map_eq_some_iff.mp hm
    cases he
    obtain ⟨s',hs',hc⟩ := changeRange_coherent h hop hroom hm1
    exact ⟨s',congrArg (Option.map _) hs',hc⟩

theorem run_coherent {sb : Block} {ops : List MetaOp} {outs : List UInt32} {m' : FsMeta}
    (h : Coherent (layoutOf sb) (u32At sb segment0BlkaddrOff) d₀ s m) (hops : ∀ op ∈ ops, op.Ok sb)
    (hroom : RunRoom s ops) (hm : runSteps metaStep m ops = some (outs,m')) :
    ∃ s', runSteps cachedStep s ops = some (outs,s') ∧
      Coherent (layoutOf sb) (u32At sb segment0BlkaddrOff) d₀ s' m' := by
  induction ops generalizing s m outs with
  | nil =>
    cases hm
    exact ⟨s,rfl,h⟩
  | cons op ops ih =>
    obtain ⟨⟨out,m1⟩,hm1,hrest⟩ := Option.bind_eq_some_iff.mp hm
    obtain ⟨⟨outs',m2⟩,hm2,he⟩ := Option.map_eq_some_iff.mp hrest
    cases he
    obtain ⟨s1,hs1,hc1⟩ := step_coherent h (hops op List.mem_cons_self) hroom.1 hm1
    obtain ⟨s',hs',hc'⟩ := ih hc1 (fun o ho => hops o (List.mem_cons_of_mem _ ho))
      (hroom.2 out s1 hs1) hm2
    refine ⟨s',?_,hc'⟩
    rw [runSteps,hs1,Option.bind_some,hs']
    rfl

theorem mount_coherent {d : CommDev} (hL : (layoutOf (d.blocks 0)).Ok d) :
    Coherent (layoutOf (d.blocks 0)) (u32At (d.blocks 0) segment0BlkaddrOff) d (CachedMeta.mount d)
      (loadMeta d) := by
  have hinit : (SitNatCache.init CachedMeta.cacheExpectSize).CacheOk :=
    ⟨Nat.zero_le _,fun k hk => absurd hk List.not_mem_nil⟩
  exact ⟨rfl,hL,rfl,rfl,rfl,rfl,hinit,hinit,fun k hk => absurd hk List.not_mem_nil,
    fun k hk => absurd hk List.not_mem_nil,rfl,rfl⟩

def CachedMeta.unmountWrites (s : CachedMeta) (natOrder sitOrder : List UInt32) : CommDev :=
  s.sitCache.writeAllSync sitOrder (s.natCache.writeAllSync natOrder s.dev)

theorem unmount_blocks (h : Coherent L seg0 d₀ s m) {natOrder sitOrder : List UInt32}
    (hn : natOrder.Perm s.natCache.keys) (hs : sitOrder.Perm s.sitCache.keys) :
    ∃ f, s.unmountWrites natOrder sitOrder = s.dev.withBlocks f ∧
      (∀ x : UInt32, L.InNatArea x.toNat → f x.toNat = s.natCache.content s.dev x) ∧
      (∀ x : UInt32, L.InSitArea x.toNat → f x.toNat = s.sitCache.content s.dev x) ∧
      ∀ n, ¬ L.InNatArea n → ¬ L.InSitArea n → f n = s.dev.blocks n := by
  have hdisj := h.layout.sit_nat
  have hna : ∀ k ∈ natOrder, L.InNatArea k.toNat := fun k hk => h.natArea k (hn.mem_iff.mp hk)
  have hsa : ∀ k ∈ sitOrder, L.InSitArea k.toNat := fun k hk => h.sitArea k (hs.mem_iff.mp hk)
  have hcontent (c : SitNatCache) (f : Nat → Block) (x : UInt32) (hx : x ∈ c.keys) :
      c.content (s.dev.withBlocks f) x = c.content s.dev x := by
    cases he : c.entry x with
    | none => exact absurd he (SitNatCache.mem_keys_iff.mp hx)
    | some e =>
      unfold SitNatCache.content
      rw [he]
  have hmiss (c : SitNatCache) (x : UInt32) (hx : x ∉ c.keys) :
      c.content s.dev x = s.dev.blocks x.toNat := by
    have he : c.entry x = none := by
      by_contra hne
      exact hx (SitNatCache.mem_keys_iff.mpr hne)
    unfold SitNatCache.content
    rw [he]
  obtain ⟨f,hf,hf1,hf2⟩ := SitNatCache.writeAllSync_blocks (c := s.natCache) natOrder s.dev
    (fun k hk => natArea_holds h.layout (hna k hk))
  obtain ⟨g,hg,hg1,hg2⟩ := SitNatCache.writeAllSync_blocks (c := s.sitCache) sitOrder
    (s.dev.withBlocks f) (fun k hk => sitArea_holds h.layout (hsa k hk))
  refine ⟨g,?_,fun x hx => ?_,fun x hx => ?_,fun n h1 h2 => ?_⟩
  · unfold CachedMeta.unmountWrites
    rw [hf,hg]
    rfl
  · have hout : g x.toNat = f x.toNat := by
      refine hg2 _ (fun y hy he => ?_)
      have hy' := hsa y hy
      rw [he] at hy'
      unfold Layout.InNatArea at hx
      unfold Layout.InSitArea at hy'
      omega
    rw [hout]
    by_cases hk : x ∈ natOrder
    · exact hf1 x hk
    · rw [hmiss _ x (fun hin => hk (hn.mem_iff.mpr hin))]
      refine hf2 _ (fun y hy he => hk ?_)
      rwa [← UInt32.toNat_inj.mp he]
  · by_cases hk : x ∈ sitOrder
    · rw [hg1 x hk,hcontent _ _ x (hs.mem_iff.mp hk)]
    · have hgf : g x.toNat = f x.toNat := by
        refine hg2 _ (fun y hy he => hk ?_)
        rwa [← UInt32.toNat_inj.mp he]
      rw [hgf,hmiss _ x (fun hin => hk (hs.mem_iff.mpr hin))]
      refine hf2 _ (fun y hy he => ?_)
      have hy' := hna y hy
      rw [he] at hy'
      unfold Layout.InNatArea at hy'
      unfold Layout.InSitArea at hx
      omega
  · have hgf : g n = f n := by
      refine hg2 _ (fun y hy he => h2 ?_)
      rw [← he]
      exact hsa y hy
    rw [hgf]
    refine hf2 _ (fun y hy he => h1 ?_)
    rw [← he]
    exact hna y hy

end Runs

theorem cache_coherent (d : CommDev) (hL : (layoutOf (d.blocks 0)).Ok d) (ops : List MetaOp)
    (hops : ∀ op ∈ ops, op.Ok (d.blocks 0)) (hroom : RunRoom (CachedMeta.mount d) ops)
    (outs : List UInt32) (m : FsMeta) (hrun : runSteps metaStep (loadMeta d) ops = some (outs,m)) :
    ∃ s, runSteps cachedStep (CachedMeta.mount d) ops = some (outs,s) ∧
      (∀ nid, natEntryAt (s.natCache.content s.dev (s.natLpa nid)) (natTable.indexOf nid) = m.nat nid) ∧
      (∀ segId, sitEntryAt (s.sitCache.content s.dev (s.sitLpa segId)) (sitTable.indexOf segId) =
        m.sit segId) ∧
      ∀ natOrder sitOrder, natOrder.Perm s.natCache.keys → sitOrder.Perm s.sitCache.keys →
        ∃ d', s.unmountWrites natOrder sitOrder = d' ∧
          (∀ nid, (layoutOf (d.blocks 0)).InNatArea (s.natLpa nid).toNat →
            natEntryAt (d'.blocks (s.natLpa nid).toNat) (natTable.indexOf nid) = m.nat nid) ∧
          (∀ segId, (layoutOf (d.blocks 0)).InSitArea (s.sitLpa segId).toNat →
            sitEntryAt (d'.blocks (s.sitLpa segId).toNat) (sitTable.indexOf segId) = m.sit segId) ∧
          ∀ n, ¬ (layoutOf (d.blocks 0)).InNatArea n → ¬ (layoutOf (d.blocks 0)).InSitArea n →
            d'.blocks n = d.blocks n := by
  obtain ⟨s,hs,hc⟩ := run_coherent (mount_coherent hL) hops hroom hrun
  refine ⟨s,hs,fun nid => ?_,fun segId => ?_,fun natOrder sitOrder hn hso => ?_⟩
  · rw [hc.nat]
    rfl
  · rw [hc.sit]
    rfl
  · obtain ⟨f,hf,h1,h2,h3⟩ := unmount_blocks hc hn hso
    refine ⟨_,rfl,fun nid hnid => ?_,fun segId hseg => ?_,fun n hn1 hn2 => ?_⟩
    · rw [hf,CommDev.withBlocks_blocks,h1 _ hnid,hc.nat]
      rfl
    · rw [hf,CommDev.withBlocks_blocks,h2 _ hseg,hc.sit]
      rfl
    · rw [hf,CommDev.withBlocks_blocks,h3 n hn1 hn2,hc.device]

end Rtfs
