import Rtfs.Fs.Layout

namespace Rtfs

structure RtfsMkfsOptions where
  lpaCount : Nat
  rootIno : UInt32
  metaJournalSegmentCount : UInt32

structure RtfsMkfsLayout where
  blockCount : Nat
  segmentCount : UInt32
  metaJournalStartLpa : UInt32
  metaJournalSegmentCount : UInt32
  sitStartLpa : UInt32
  sitSegmentCount : UInt32
  natStartLpa : UInt32
  natSegmentCount : UInt32
  srmapStartLpa : UInt32
  srmapSegmentCount : UInt32
  mainStartLpa : UInt32
  mainStartSegment : UInt32
  mainSegmentCount : UInt32

def rtfsMkfsDivRoundUp (value divisor : Nat) : Nat := (value + divisor - 1) / divisor

def rtfsMkfsSegToLpa (segId : UInt32) : UInt32 := segId * 512

def entriesInSum : Nat := 512

def mkfsPlaceAreas (segmentCount sitSegmentCount natSegmentCount srmapSegmentCount : Nat)
    (metaJournalSegmentCount : UInt32) : Except Errno RtfsMkfsLayout :=
  let mainStartSegment := (1 + metaJournalSegmentCount).toNat + sitSegmentCount +
    natSegmentCount + srmapSegmentCount
  if segmentCount < mainStartSegment + 2 ∨ 4294967295 < sitSegmentCount ∨
      4294967295 < natSegmentCount ∨ 4294967295 < srmapSegmentCount then .error .enospc
  else
    let sit := UInt32.ofNat sitSegmentCount
    let nat := UInt32.ofNat natSegmentCount
    .ok {
      blockCount := segmentCount * blockPerSegment
      segmentCount := UInt32.ofNat segmentCount
      metaJournalStartLpa := 512
      metaJournalSegmentCount := metaJournalSegmentCount
      sitSegmentCount := sit
      natSegmentCount := nat
      srmapSegmentCount := UInt32.ofNat srmapSegmentCount
      sitStartLpa := rtfsMkfsSegToLpa (1 + metaJournalSegmentCount)
      natStartLpa := rtfsMkfsSegToLpa (1 + metaJournalSegmentCount + sit)
      srmapStartLpa := rtfsMkfsSegToLpa (1 + metaJournalSegmentCount + sit + nat)
      mainStartSegment := UInt32.ofNat mainStartSegment
      mainStartLpa := rtfsMkfsSegToLpa (UInt32.ofNat mainStartSegment)
      mainSegmentCount := UInt32.ofNat segmentCount - UInt32.ofNat mainStartSegment }

def rtfsMkfsCalculateLayout (lpaCount : Nat) (metaJournalSegmentCount : UInt32) :
    Except Errno RtfsMkfsLayout :=
  if metaJournalSegmentCount = 0 then .error .einval
  else
    let segmentCount := lpaCount / blockPerSegment
    let blockCount := segmentCount * blockPerSegment
    if 4294967295 < segmentCount ∨ blockCount = 0 then .error .einval
    else
      let sitBlockCount := rtfsMkfsDivRoundUp segmentCount sitEntryPerBlock
      let natBlockCount := rtfsMkfsDivRoundUp blockCount natEntryPerBlock
      let srmapBlockCount := rtfsMkfsDivRoundUp blockCount entriesInSum
      mkfsPlaceAreas segmentCount (rtfsMkfsDivRoundUp sitBlockCount blockPerSegment)
        (rtfsMkfsDivRoundUp natBlockCount blockPerSegment)
        (rtfsMkfsDivRoundUp srmapBlockCount blockPerSegment) metaJournalSegmentCount

def superWords (options : RtfsMkfsOptions) (layout : RtfsMkfsLayout) : List (Nat × UInt32) :=
  [(0,rtfsMagicNumber),(4,1),(8,9),(12,3),(16,12),(20,9),
    (RtfsSuperBlock.blockCountOff,UInt32.ofNat layout.blockCount),
    (RtfsSuperBlock.blockCountOff + 4,UInt32.ofNat (layout.blockCount / 4294967296)),
    (RtfsSuperBlock.segmentCountOff,layout.segmentCount),
    (RtfsSuperBlock.segmentCountSitOff,layout.sitSegmentCount),
    (RtfsSuperBlock.segmentCountNatOff,layout.natSegmentCount),
    (RtfsSuperBlock.segmentCountSrmapOff,layout.srmapSegmentCount),
    (RtfsSuperBlock.segmentCountMetaJournalOff,layout.metaJournalSegmentCount),
    (RtfsSuperBlock.segmentCountMainOff,layout.mainSegmentCount),
    (RtfsSuperBlock.segment0BlkaddrOff,0),
    (RtfsSuperBlock.sitBlkaddrOff,layout.sitStartLpa),
    (RtfsSuperBlock.natBlkaddrOff,layout.natStartLpa),
    (RtfsSuperBlock.srmapBlkaddrOff,layout.srmapStartLpa),
    (RtfsSuperBlock.metaJournalBlkaddrOff,layout.metaJournalStartLpa),
    (RtfsSuperBlock.mainBlkaddrOff,layout.mainStartLpa),
    (RtfsSuperBlock.rootInoOff,options.rootIno),
    (RtfsSuperBlock.nodeInoOff,options.rootIno),
    (RtfsSuperBlock.metaInoOff,options.rootIno),
    (RtfsSuperBlock.firstNodeSegmentIdOff,layout.mainStartSegment),
    (RtfsSuperBlock.firstDataSegmentIdOff,layout.mainStartSegment + 1),
    (RtfsSuperBlock.currentDataSegmentIdOff,layout.mainStartSegment + 1),
    (RtfsSuperBlock.currentDataSegmentBlkoffOff,0),
    (RtfsSuperBlock.currentNodeSegmentIdOff,layout.mainStartSegment),
    (RtfsSuperBlock.currentNodeSegmentBlkoffOff,1),
    (RtfsSuperBlock.metaJournalStartBlkoffOff,0),
    (RtfsSuperBlock.nextFreeNidOff,options.rootIno + 1),
    (RtfsSuperBlock.firstFreeSegmentIdOff,
      if 2 < layout.mainSegmentCount then layout.mainStartSegment + 2 else invalidSegid),
    (RtfsSuperBlock.freeSegmentCountOff,
      if 2 < layout.mainSegmentCount then layout.mainSegmentCount - 2 else 0)]

def writeWords (b : Block) (ws : List (Nat × UInt32)) : Block :=
  ws.foldl (fun b w => setU32 b w.1 w.2) b

def initialSuper (options : RtfsMkfsOptions) (layout : RtfsMkfsLayout) : Block :=
  writeWords Buf.zero (superWords options layout)

def wordOf (off : Nat) : List (Nat × UInt32) → Option UInt32
  | [] => none
  | w :: ws => (wordOf off ws).or (if w.1 = off then some w.2 else none)

theorem u32At_writeWords (b : Block) (ws : List (Nat × UInt32)) (off : Nat) (ha : 4 ∣ off)
    (hw : ∀ w ∈ ws, 4 ∣ w.1 ∧ w.1 + 4 ≤ 4096) :
    u32At (writeWords b ws) off = (wordOf off ws).getD (u32At b off) := by
  induction ws generalizing b with
  | nil => rfl
  | cons w ws ih =>
    obtain ⟨h4,hr⟩ := hw w List.mem_cons_self
    change u32At (writeWords (setU32 b w.1 w.2) ws) off = _
    rw [ih _ (fun v hv => hw v (List.mem_cons_of_mem _ hv)),wordOf,
      u32At_setU32 b w.2 hr h4 ha]
    cases wordOf off ws with
    | some v => rfl
    | none =>
      by_cases he : w.1 = off
      · simp [he]
      · simp [he,Ne.symm he]

theorem wordOf_none {off : Nat} {ws : List (Nat × UInt32)} (h : ∀ w ∈ ws, w.1 ≠ off) : wordOf off ws = none := by
  induction ws with
  | nil => rfl
  | cons w ws ih =>
    rw [wordOf,ih (fun v hv => h v (List.mem_cons_of_mem _ hv)),if_neg (h w List.mem_cons_self)]
    rfl

theorem u32At_zeroWords {off : Nat} {ws : List (Nat × UInt32)} (ha : 4 ∣ off)
    (hw : ∀ w ∈ ws, 4 ∣ w.1 ∧ w.1 + 4 ≤ 4096) (hne : ∀ w ∈ ws, w.1 ≠ off) :
    u32At (writeWords Buf.zero ws) off = 0 := by
  rw [u32At_writeWords _ _ _ ha hw,wordOf_none hne,u32At_zero]
  rfl

section Super
variable (options : RtfsMkfsOptions) (layout : RtfsMkfsLayout)

theorem superWords_aligned : ∀ w ∈ superWords options layout, 4 ∣ w.1 ∧ w.1 + 4 ≤ 4096 := by
  have hall : ∀ o ∈ (superWords options layout).map Prod.fst, 4 ∣ o ∧ o + 4 ≤ 4096 := by
    simp only [superWords,List.map_cons,List.map_nil]
    decide
  exact fun w hw => hall w.1 (List.mem_map_of_mem hw)

theorem u32At_initialSuper {off : Nat} {v : UInt32} (ha : 4 ∣ off)
    (hv : wordOf off (superWords options layout) = some v) :
    u32At (initialSuper options layout) off = v := by
  rw [initialSuper,u32At_writeWords _ _ _ ha (superWords_aligned options layout),hv]
  rfl

theorem magic_initialSuper : RtfsSuperBlock.magic (initialSuper options layout) = rtfsMagicNumber :=
  u32At_initialSuper options layout (by decide) rfl

theorem layoutOf_initialSuper (hb : layout.blockCount < 18446744073709551616) :
    layoutOf (initialSuper options layout) =
      ⟨layout.blockCount,layout.sitSegmentCount.toNat,layout.natSegmentCount.toNat,
        layout.metaJournalSegmentCount.toNat,layout.sitStartLpa.toNat,layout.natStartLpa.toNat,
        layout.metaJournalStartLpa.toNat,layout.mainStartLpa.toNat⟩ := by
  have hlo : u32At (initialSuper options layout) RtfsSuperBlock.blockCountOff =
      UInt32.ofNat layout.blockCount := u32At_initialSuper options layout (by decide) rfl
  have hhi : u32At (initialSuper options layout) (RtfsSuperBlock.blockCountOff + 4) =
      UInt32.ofNat (layout.blockCount / 4294967296) :=
    u32At_initialSuper options layout (by decide) rfl
  have hsize : RtfsSuperBlock.blockCount (initialSuper options layout) = layout.blockCount := by
    rw [RtfsSuperBlock.blockCount,hlo,hhi,UInt32.toNat_ofNat',UInt32.toNat_ofNat']
    omega
  unfold layoutOf
  rw [hsize]
  congr 2
  all_goals exact u32At_initialSuper options layout (by decide) rfl

end Super

theorem divRoundUp_mul (v n : Nat) (hn : 0 < n) : v ≤ rtfsMkfsDivRoundUp v n * n := by
  unfold rtfsMkfsDivRoundUp
  have h := Nat.div_add_mod (v + n - 1) n
  have hlt := Nat.mod_lt (v + n - 1) hn
  rw [Nat.mul_comm] at h
  omega

structure RtfsMkfsLayout.Spec (layout : RtfsMkfsLayout) (segs mj : Nat) : Prop where
  blockCount : layout.blockCount = segs * 512
  segmentCount : layout.segmentCount.toNat = segs
  journalStart : layout.metaJournalStartLpa.toNat = 512
  journalSegments : layout.metaJournalSegmentCount.toNat = mj
  sitStart : layout.sitStartLpa.toNat = 512 * (1 + mj)
  natStart : layout.natStartLpa.toNat = 512 * (1 + mj + layout.sitSegmentCount.toNat)
  mainStart : layout.mainStartLpa.toNat = 512 * layout.mainStartSegment.toNat
  srmapStart : layout.srmapStartLpa.toNat =
    512 * (1 + mj + layout.sitSegmentCount.toNat + layout.natSegmentCount.toNat)
  mainSegment : layout.mainStartSegment.toNat = 1 + mj + layout.sitSegmentCount.toNat +
    layout.natSegmentCount.toNat + layout.srmapSegmentCount.toNat
  mainFits : layout.mainStartSegment.toNat + 2 ≤ segs
  mainSegments : layout.mainSegmentCount.toNat = segs - layout.mainStartSegment.toNat

theorem placeAreas_spec {segs sit nat srmap : Nat} {mj : UInt32} {layout : RtfsMkfsLayout}
    (h : mkfsPlaceAreas segs sit nat srmap mj = .ok layout) (hsmall : segs ≤ 8388608)
    (hmj : mj.toNat < 4294967295) :
    layout.Spec segs mj.toNat ∧ layout.sitSegmentCount.toNat = sit ∧
      layout.natSegmentCount.toNat = nat := by
  have h1 : (1 + mj).toNat = 1 + mj.toNat := by
    rw [UInt32.toNat_add,show (1 : UInt32).toNat = 1 from rfl]
    omega
  have h512 : (512 : UInt32).toNat = 512 := rfl
  simp only [mkfsPlaceAreas,h1,blockPerSegment] at h
  split at h
  · cases h
  · rename_i hfit
    cases h
    refine ⟨?_,?_,?_⟩
    · constructor
      all_goals simp only [rtfsMkfsSegToLpa,UInt32.toNat_mul,UInt32.toNat_add,UInt32.toNat_sub,
        UInt32.toNat_ofNat',h512,h1]
      all_goals omega
    · rw [UInt32.toNat_ofNat']
      omega
    · rw [UInt32.toNat_ofNat']
      omega

theorem calculateLayout_spec {lpaCount : Nat} {mj : UInt32} {layout : RtfsMkfsLayout}
    (h : rtfsMkfsCalculateLayout lpaCount mj = .ok layout) (hsmall : lpaCount / 512 ≤ 8388608)
    (hmj : mj.toNat < 4294967295) :
    layout.Spec (lpaCount / 512) mj.toNat ∧ 0 < mj.toNat ∧
      lpaCount / 512 ≤ layout.sitSegmentCount.toNat * 512 * 60 ∧
      layout.blockCount ≤ layout.natSegmentCount.toNat * 512 * 512 := by
  unfold rtfsMkfsCalculateLayout at h
  split at h
  · cases h
  · rename_i hz
    by_cases hseg : 4294967295 < lpaCount / blockPerSegment ∨
        lpaCount / blockPerSegment * blockPerSegment = 0
    · rw [if_pos hseg] at h
      cases h
    · rw [if_neg hseg] at h
      obtain ⟨hs,hsit,hnat⟩ := placeAreas_spec h hsmall hmj
      change layout.Spec (lpaCount / 512) mj.toNat at hs
      have hpos : 0 < mj.toNat := Nat.pos_of_ne_zero (fun he => hz (UInt32.toNat_inj.mp he))
      have hs1 := divRoundUp_mul (lpaCount / 512) 60 (by decide)
      have hs2 := divRoundUp_mul (rtfsMkfsDivRoundUp (lpaCount / 512) 60) 512 (by decide)
      have hn1 := divRoundUp_mul (lpaCount / 512 * 512) 512 (by decide)
      have hn2 := divRoundUp_mul (rtfsMkfsDivRoundUp (lpaCount / 512 * 512) 512) 512 (by decide)
      have hb := hs.blockCount
      unfold blockPerSegment sitEntryPerBlock at hsit
      unfold blockPerSegment natEntryPerBlock at hnat
      exact ⟨hs,hpos,by omega,by omega⟩

theorem mkfs_layoutOk {lpaCount : Nat} {mj : UInt32} {layout : RtfsMkfsLayout}
    (h : rtfsMkfsCalculateLayout lpaCount mj = .ok layout) (options : RtfsMkfsOptions)
    {d : CommDev} (hd : ∀ lpa < lpaCount, d.Holds lpa) (hmj : mj.toNat < 4294967295) :
    (layoutOf (initialSuper options layout)).Ok d := by
  have hlpa : lpaCount ≤ 536870912 := by
    by_contra hlt
    have hh := (hd (lpaCount - 1) (by omega)).lt
    omega
  obtain ⟨hs,h1,_,_⟩ := calculateLayout_spec h (by omega) hmj
  have hb := hs.blockCount
  rw [layoutOf_initialSuper options layout (by omega)]
  have h2 := hs.journalStart
  have h3 := hs.journalSegments
  have h4 := hs.sitStart
  have h5 := hs.natStart
  have h6 := hs.mainStart
  have h7 := hs.mainSegment
  have h8 := hs.mainFits
  refine ⟨?_,?_,?_,?_,?_,?_,fun lpa hlt => hd lpa ?_⟩
  all_goals simp only [Layout.journalSize,blockPerSegment] at *
  all_goals omega

def smallOptions : RtfsMkfsOptions := ⟨32768,1,1⟩

def smallLayout : RtfsMkfsLayout := ⟨32768,64,512,1,1024,1,1536,1,2048,1,2560,5,59⟩

theorem calculateLayout_small : rtfsMkfsCalculateLayout 32768 1 = .ok smallLayout := rfl

def smallDev (blocks : Nat → Block) : CommDev := ⟨262144,by decide,blocks,0,0,0,0,[]⟩

theorem smallDev_holds (blocks : Nat → Block) : ∀ lpa < 32768, (smallDev blocks).Holds lpa := by
  intro lpa hlpa
  change lpa * 8 + 8 ≤ 262144
  omega

def smallSuper : Block := initialSuper smallOptions smallLayout

def smallAreas : Layout := ⟨32768,1,1,1,1024,1536,512,2560⟩

theorem layoutOf_smallSuper : layoutOf smallSuper = smallAreas :=
  layoutOf_initialSuper smallOptions smallLayout (by decide)

theorem smallAreas_ok (blocks : Nat → Block) : smallAreas.Ok (smallDev blocks) := by
  rw [← layoutOf_smallSuper]
  exact mkfs_layoutOk calculateLayout_small smallOptions (smallDev_holds blocks) (by decide)

end Rtfs
