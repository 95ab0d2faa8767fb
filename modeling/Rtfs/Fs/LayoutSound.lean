import Rtfs.Fs.Mkfs

namespace Rtfs

structure Area where
  start : Nat
  size : Nat

namespace Area

def stop (a : Area) : Nat := a.start + a.size

def Follows (a b : Area) : Prop := a.stop = b.start

def Before (a b : Area) : Prop := a.stop ≤ b.start

def Disjoint (a b : Area) : Prop := a.Before b ∨ b.Before a

instance : IsTrans Area Before where
  trans a b c hab hbc := by
    have hb : b.start ≤ b.stop := Nat.le_add_right _ _
    exact (Nat.le_trans hab hb).trans hbc

theorem before_of_follows {as : List Area} (h : as.IsChain Follows) : as.Pairwise Before :=
  List.isChain_iff_pairwise.mp (h.imp (fun _ _ hab => Nat.le_of_eq hab))

theorem stop_le_last {as : List Area} {z : Area} (h : (as ++ [z]).IsChain Follows) :
    ∀ a ∈ as ++ [z], a.stop ≤ z.stop := by
  intro a ha
  rcases List.mem_append.mp ha with ha | ha
  · have hp := (List.pairwise_append.mp (before_of_follows h)).2.2 a ha z List.mem_cons_self
    exact hp.trans (Nat.le_add_right _ _)
  · rw [List.mem_singleton.mp ha]

end Area

def rtfsMaxSegment : Nat := 16 * 1024 * 1024 / 2

namespace RtfsMkfsLayout
variable (layout : RtfsMkfsLayout)

def segmentArea (startLpa segmentCount : UInt32) : Area :=
  ⟨startLpa.toNat,segmentCount.toNat * blockPerSegment⟩

def mainArea : Area := segmentArea layout.mainStartLpa layout.mainSegmentCount

def metaAreas : List Area :=
  [segmentArea 0 1,
    segmentArea layout.metaJournalStartLpa layout.metaJournalSegmentCount,
    segmentArea layout.sitStartLpa layout.sitSegmentCount,
    segmentArea layout.natStartLpa layout.natSegmentCount,
    segmentArea layout.srmapStartLpa layout.srmapSegmentCount]

def areas : List Area := layout.metaAreas ++ [layout.mainArea]

structure Sound : Prop where
  consecutive : layout.areas.IsChain Area.Follows
  disjoint : layout.areas.Pairwise Area.Disjoint
  inside : ∀ a ∈ layout.areas, a.stop ≤ layout.blockCount
  sitCovers : layout.segmentCount.toNat ≤
    layout.sitSegmentCount.toNat * blockPerSegment * sitEntryPerBlock
  natCovers : layout.blockCount ≤
    layout.natSegmentCount.toNat * blockPerSegment * natEntryPerBlock
  srmapCovers : layout.blockCount ≤
    layout.srmapSegmentCount.toNat * blockPerSegment * entriesInSum
  mainSegments : 2 ≤ layout.mainSegmentCount.toNat
  segmentIds : ∀ segId < layout.segmentCount.toNat, segId < 2 ^ 23
  lpas : ∀ lpa < layout.blockCount, lpa < 2 ^ 32

end RtfsMkfsLayout

structure RtfsMkfsLayout.Placed (layout : RtfsMkfsLayout) (segs sit nat srmap : Nat) (mj : UInt32) :
    Prop where
  blockCount : layout.blockCount = segs * 512
  segmentCount : layout.segmentCount = UInt32.ofNat segs
  journalStart : layout.metaJournalStartLpa = 512
  journalSegments : layout.metaJournalSegmentCount = mj
  sitStart : layout.sitStartLpa = rtfsMkfsSegToLpa (1 + mj)
  sitSegments : layout.sitSegmentCount.toNat = sit
  natSegments : layout.natSegmentCount.toNat = nat
  srmapSegments : layout.srmapSegmentCount.toNat = srmap

theorem placeAreas_placed {segs sit nat srmap : Nat} {mj : UInt32} {layout : RtfsMkfsLayout}
    (h : mkfsPlaceAreas segs sit nat srmap mj = .ok layout) : layout.Placed segs sit nat srmap mj := by
  simp only [mkfsPlaceAreas] at h
  split at h
  · cases h
  · rename_i hfit
    cases h
    constructor
    case blockCount | segmentCount | journalStart | journalSegments | sitStart => rfl
    all_goals
      rw [UInt32.toNat_ofNat']
      omega

section Accepted
variable {lpaCount : Nat} {mj : UInt32} {layout : RtfsMkfsLayout}

theorem calculateLayout_placed (h : rtfsMkfsCalculateLayout lpaCount mj = .ok layout) :
    lpaCount / 512 ≤ 4294967295 ∧ mkfsPlaceAreas (lpaCount / 512)
      (rtfsMkfsDivRoundUp (rtfsMkfsDivRoundUp (lpaCount / 512) 60) 512)
      (rtfsMkfsDivRoundUp (rtfsMkfsDivRoundUp (lpaCount / 512 * 512) 512) 512)
      (rtfsMkfsDivRoundUp (rtfsMkfsDivRoundUp (lpaCount / 512 * 512) 512) 512) mj = .ok layout := by
  simp only [rtfsMkfsCalculateLayout] at h
  split at h
  · cases h
  · split at h
    · cases h
    · rename_i hseg
      exact ⟨Nat.le_of_not_lt (fun hlt => hseg (.inl hlt)),h⟩

theorem calculateLayout_srmap (h : rtfsMkfsCalculateLayout lpaCount mj = .ok layout) :
    lpaCount / 512 * 512 ≤ layout.srmapSegmentCount.toNat * 512 * 512 := by
  rw [(placeAreas_placed (calculateLayout_placed h).2).srmapSegments]
  have hb := divRoundUp_mul (lpaCount / 512 * 512) 512 (by decide)
  have hs := divRoundUp_mul (rtfsMkfsDivRoundUp (lpaCount / 512 * 512) 512) 512 (by decide)
  exact hb.trans (Nat.mul_le_mul_right 512 hs)

theorem calculateLayout_segments (h : rtfsMkfsCalculateLayout lpaCount mj = .ok layout) :
    layout.segmentCount.toNat = lpaCount / 512 ∧
      layout.blockCount = layout.segmentCount.toNat * 512 ∧
      layout.segmentCount.toNat ≤ layout.sitSegmentCount.toNat * 512 * 60 := by
  obtain ⟨hfit,hplaced⟩ := calculateLayout_placed h
  have hp := placeAreas_placed hplaced
  have hcount : layout.segmentCount.toNat = lpaCount / 512 := by
    rw [hp.segmentCount,UInt32.toNat_ofNat']
    omega
  have hb := divRoundUp_mul (lpaCount / 512) 60 (by decide)
  have hs := divRoundUp_mul (rtfsMkfsDivRoundUp (lpaCount / 512) 60) 512 (by decide)
  refine ⟨hcount,by rw [hcount,hp.blockCount],?_⟩
  rw [hcount,hp.sitSegments]
  exact hb.trans (Nat.mul_le_mul_right 60 hs)

theorem calculateLayout_consecutive (h : rtfsMkfsCalculateLayout lpaCount mj = .ok layout)
    (hsegs : lpaCount / 512 ≤ rtfsMaxSegment) (hmj : mj ≠ 4294967295) :
    layout.areas.IsChain Area.Follows ∧ layout.mainArea.stop = layout.blockCount := by
  have hlt : mj.toNat < 4294967295 := by
    have := mj.toNat_lt
    have hne : mj.toNat ≠ 4294967295 := fun he => hmj (UInt32.toNat_inj.mp he)
    omega
  obtain ⟨hs,_⟩ := calculateLayout_spec h hsegs hlt
  have hjournal := hs.journalStart
  have hsegments := hs.journalSegments
  have hsit := hs.sitStart
  have hnat := hs.natStart
  have hsrmap := hs.srmapStart
  have hmain := hs.mainStart
  have hmainSegment := hs.mainSegment
  have hfits := hs.mainFits
  have hsize := hs.mainSegments
  have hblocks := hs.blockCount
  have hmax : rtfsMaxSegment = 8388608 := rfl
  refine ⟨?_,?_⟩
  · simp only [RtfsMkfsLayout.areas,RtfsMkfsLayout.metaAreas,RtfsMkfsLayout.mainArea,
      RtfsMkfsLayout.segmentArea,Area.Follows,Area.stop,List.cons_append,List.nil_append,
      List.isChain_cons_cons,List.isChain_singleton,blockPerSegment,UInt32.toNat_zero,
      UInt32.toNat_one,and_true]
    omega
  · simp only [RtfsMkfsLayout.mainArea,RtfsMkfsLayout.segmentArea,Area.stop,blockPerSegment]
    omega

theorem calculateLayout_sound (h : rtfsMkfsCalculateLayout lpaCount mj = .ok layout)
    (hsegs : lpaCount / 512 ≤ rtfsMaxSegment) (hmj : mj ≠ 4294967295) : layout.Sound := by
  obtain ⟨hchain,hend⟩ := calculateLayout_consecutive h hsegs hmj
  have hlt : mj.toNat < 4294967295 := by
    have := mj.toNat_lt
    have hne : mj.toNat ≠ 4294967295 := fun he => hmj (UInt32.toNat_inj.mp he)
    omega
  obtain ⟨hs,_,hsit,hnat⟩ := calculateLayout_spec h hsegs hlt
  have hcount := hs.segmentCount
  have hblocks := hs.blockCount
  have hfits := hs.mainFits
  have hmain := hs.mainSegments
  have hsrmap := calculateLayout_srmap h
  have hmax : rtfsMaxSegment = 8388608 := rfl
  constructor
  · exact hchain
  · exact (Area.before_of_follows hchain).imp (fun hab => .inl hab)
  · intro a ha
    exact hend ▸ Area.stop_le_last hchain a ha
  · rw [hcount]
    exact hsit
  · exact hnat
  · rw [hblocks]
    exact hsrmap
  · omega
  · intro segId hid
    omega
  · intro lpa hlpa
    omega

-- the journal of 2 ^ 32 - 1 segments wraps 1U + meta_journal_segment_count to 0
theorem wrapped_not_consecutive (h : rtfsMkfsCalculateLayout lpaCount 4294967295 = .ok layout) :
    ¬ layout.areas.IsChain Area.Follows := by
  have hp := placeAreas_placed (calculateLayout_placed h).2
  intro hchain
  have hfollows : (RtfsMkfsLayout.segmentArea layout.metaJournalStartLpa
      layout.metaJournalSegmentCount).Follows
      (RtfsMkfsLayout.segmentArea layout.sitStartLpa layout.sitSegmentCount) :=
    (List.isChain_cons_cons.mp (List.isChain_cons_cons.mp hchain).2).1
  rw [hp.journalStart,hp.journalSegments,hp.sitStart] at hfollows
  have hzero : 512 + 4294967295 * 512 = 0 := hfollows
  omega

theorem calculateLayout_sound_iff (h : rtfsMkfsCalculateLayout lpaCount mj = .ok layout) :
    layout.Sound ↔ lpaCount / blockPerSegment ≤ rtfsMaxSegment ∧ mj ≠ 4294967295 := by
  constructor
  · intro hsound
    refine ⟨?_,?_⟩
    · have hcount := (calculateLayout_segments h).1
      change lpaCount / 512 ≤ 8388608
      by_contra hlt
      have hid := hsound.segmentIds 8388608 (by omega)
      omega
    · rintro rfl
      exact wrapped_not_consecutive h hsound.consecutive
  · rintro ⟨hsegs,hmj⟩
    exact calculateLayout_sound h hsegs hmj

end Accepted

theorem calculateLayout_sound_small :
    smallLayout.Sound ↔ 32768 / blockPerSegment ≤ rtfsMaxSegment ∧ (1 : UInt32) ≠ 4294967295 :=
  calculateLayout_sound_iff calculateLayout_small

theorem calculateLayout_wrapped :
    ∃ layout, rtfsMkfsCalculateLayout 32768 4294967295 = .ok layout ∧ layout.sitStartLpa = 0 ∧
      ¬ layout.Sound :=
  ⟨⟨32768,64,512,4294967295,0,1,512,1,1024,1,1536,3,61⟩,rfl,rfl,
    fun hsound => @wrapped_not_consecutive 32768 _ rfl hsound.consecutive⟩

end Rtfs
