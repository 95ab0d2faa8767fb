import Rtfs.Fs.Mkfs
import Rtfs.Fs.SitEntry
import Rtfs.Lib.Updates

namespace Rtfs

section Image
variable (options : RtfsMkfsOptions) (layout : RtfsMkfsLayout)

def initialNatEntry (nid : Nat) : RtfsNatEntry :=
  ⟨invalidNid,if nid + 1 < layout.blockCount then UInt32.ofNat (nid + 1) else invalidNid⟩

def plainNatBlock (blockIdx : Nat) : Block :=
  (List.range natEntryPerBlock).foldl (fun b i =>
    setNatEntry b i (initialNatEntry layout (blockIdx * natEntryPerBlock + i))) Buf.zero

def initialNatBlock (blockIdx : Nat) : Block :=
  let rootIno := options.rootIno.toNat
  let nextFreeNid := options.rootIno + 1
  let plain := plainNatBlock layout blockIdx
  let rooted := if blockIdx = rootIno / natEntryPerBlock then
      setNatEntry plain (rootIno % natEntryPerBlock) ⟨options.rootIno,layout.mainStartLpa⟩
    else plain
  if nextFreeNid.toNat / natEntryPerBlock = blockIdx then
    setNatEntry rooted (nextFreeNid.toNat % natEntryPerBlock)
      ⟨invalidNid,if (nextFreeNid + 1).toNat < layout.blockCount then nextFreeNid + 1 else invalidNid⟩
  else rooted

def modifySit (b : Block) (segId : Nat) (f : RtfsSitEntry → RtfsSitEntry) : Block :=
  setSitEntry b (segId % sitEntryPerBlock) (f (sitEntryAt b (segId % sitEntryPerBlock)))

def chainedSitBlock (blockIdx : Nat) : Block :=
  let lo := blockIdx * sitEntryPerBlock % 4294967296
  let hi := min ((blockIdx + 1) * sitEntryPerBlock) layout.segmentCount.toNat
  (List.range' lo (hi - lo)).foldl (fun b segId =>
    if segId + 1 < layout.segmentCount.toNat then
      modifySit b segId (fun e => rtfsMkfsSitSetNextSegment e (UInt32.ofNat (segId + 1)))
    else b) Buf.zero

def validateSegment (b : Block) (segId : Nat) : Block :=
  (List.range blockPerSegment).foldl
    (fun b off => modifySit b segId (fun e => rtfsMkfsSitSetValid e off)) b

def initialSitBlock (blockIdx : Nat) : Block :=
  let chained := chainedSitBlock layout blockIdx
  let headed := if blockIdx = 0 then modifySit chained 0 (fun e => rtfsMkfsSitSetValid e 0) else chained
  let filled := (List.range' 1 (layout.mainStartSegment.toNat - 1)).foldl (fun b segId =>
    if segId / sitEntryPerBlock = blockIdx then validateSegment b segId else b) headed
  if layout.mainStartSegment.toNat / sitEntryPerBlock = blockIdx then
    modifySit filled layout.mainStartSegment.toNat (fun e => rtfsMkfsSitSetValid e 0)
  else filled

def initialSrmapBlock (blockIdx : Nat) : Block :=
  if blockIdx = layout.mainStartLpa.toNat / entriesInSum then
    writeWords Buf.zero [(8 * (layout.mainStartLpa.toNat % entriesInSum),options.rootIno)]
  else Buf.zero

def rootInode : Block :=
  writeWords Buf.zero [(0,493 + rtfsInlineDentry.toUInt32 * 65536),(4,2),(8,2),(32,1),
    (68,options.rootIno),(4080,options.rootIno),(4084,options.rootIno)]

def areaWrites (start : UInt32) (n : Nat) (f : Nat → Block) : List (UInt32 × Block) :=
  (List.range n).map (fun i => (start + UInt32.ofNat i,f i))

def zeroWrites : List (UInt32 × Block) :=
  (List.range' 1 (layout.mainStartSegment.toNat - 1)).flatMap (fun segId =>
    areaWrites (rtfsMkfsSegToLpa (UInt32.ofNat segId)) blockPerSegment (fun _ => Buf.zero))

def mkfsWrites : List (UInt32 × Block) :=
  (0,initialSuper options layout) :: (zeroWrites layout ++
    areaWrites layout.natStartLpa (layout.natSegmentCount.toNat * blockPerSegment)
      (initialNatBlock options layout) ++
    areaWrites layout.sitStartLpa (layout.sitSegmentCount.toNat * blockPerSegment)
      (initialSitBlock layout) ++
    areaWrites layout.srmapStartLpa (layout.srmapSegmentCount.toNat * blockPerSegment)
      (initialSrmapBlock options layout) ++
    [(layout.mainStartLpa,rootInode options)])

end Image

def rtfsMkfsCommDevWriteBlock (d : CommDev) (w : UInt32 × Block) : Except Errno CommDev :=
  d.writeLba (lpaToLba w.1) w.2

def effectiveOptions (options : RtfsMkfsOptions) : RtfsMkfsOptions :=
  ⟨options.lpaCount,if options.rootIno = invalidNid then 1 else options.rootIno,
    if options.metaJournalSegmentCount = 0 then 1 else options.metaJournalSegmentCount⟩

def rtfsMkfsFormat (options : RtfsMkfsOptions) (d : CommDev) :
    Except Errno (RtfsMkfsLayout × CommDev) :=
  let effective := effectiveOptions options
  match rtfsMkfsCalculateLayout effective.lpaCount effective.metaJournalSegmentCount with
  | .error e => .error e
  | .ok layout =>
    match (mkfsWrites effective layout).foldlM rtfsMkfsCommDevWriteBlock d with
    | .error _ => .error .eio
    | .ok d' => .ok (layout,d')

section Writes
variable {d : CommDev}

def lpaKeyed (ws : List (UInt32 × Block)) : List (Nat × Block) := ws.map (fun w => (w.1.toNat,w.2))

theorem mkfsWriteBlock_ok (ws : List (UInt32 × Block)) (d : CommDev)
    (h : ∀ w ∈ ws, d.Holds w.1.toNat) :
    ws.foldlM rtfsMkfsCommDevWriteBlock d =
      .ok (d.withBlocks (Updates.applyAll d.blocks (lpaKeyed ws))) := by
  induction ws generalizing d with
  | nil => rfl
  | cons w ws ih =>
    have hw : rtfsMkfsCommDevWriteBlock d w = _ := writeLpa_ok (h w List.mem_cons_self) w.2
    rw [List.foldlM_cons,hw]
    exact ih (d.withBlocks _) (fun v hv => h v (List.mem_cons_of_mem _ hv))

theorem areaWrites_toNat {start : UInt32} {n i : Nat} (hn : start.toNat + n ≤ 4294967296)
    (hi : i < n) : (start + UInt32.ofNat i).toNat = start.toNat + i := by
  rw [UInt32.toNat_add,UInt32.toNat_ofNat']
  omega

theorem areaWrites_at (g : Nat → Block) {start : UInt32} {n : Nat} (f : Nat → Block)
    (hn : start.toNat + n ≤ 4294967296) (lpa : Nat) :
    Updates.applyAll g (lpaKeyed (areaWrites start n f)) lpa =
      if start.toNat ≤ lpa ∧ lpa < start.toNat + n then f (lpa - start.toNat) else g lpa := by
  have hkey : ∀ u ∈ lpaKeyed (areaWrites start n f), ∃ i < n, u = (start.toNat + i,f i) := by
    intro u hu
    obtain ⟨w,hw,rfl⟩ := List.mem_map.mp hu
    obtain ⟨i,hi,rfl⟩ := List.mem_map.mp hw
    refine ⟨i,List.mem_range.mp hi,?_⟩
    rw [areaWrites_toNat hn (List.mem_range.mp hi)]
  have hin : lpa ∈ (lpaKeyed (areaWrites start n f)).map Prod.fst ↔
      start.toNat ≤ lpa ∧ lpa < start.toNat + n := by
    constructor
    · intro hm
      obtain ⟨u,hu,rfl⟩ := List.mem_map.mp hm
      obtain ⟨i,hi,rfl⟩ := hkey u hu
      exact ⟨Nat.le_add_right _ _,Nat.add_lt_add_left hi _⟩
    · rintro ⟨h1,h2⟩
      obtain ⟨i,rfl⟩ := Nat.exists_eq_add_of_le h1
      have hi : i < n := Nat.lt_of_add_lt_add_left h2
      refine List.mem_map.mpr ⟨((start + UInt32.ofNat i).toNat,f i),?_,areaWrites_toNat hn hi⟩
      refine List.mem_map.mpr ⟨(start + UInt32.ofNat i,f i),?_,rfl⟩
      exact List.mem_map.mpr ⟨i,List.mem_range.mpr hi,rfl⟩
  rw [Updates.applyAll_of_fun (fun lpa => f (lpa - start.toNat)) (fun u hu => ?_) lpa]
  · simp only [hin]
  · obtain ⟨i,_,rfl⟩ := hkey u hu
    simp only [Nat.add_sub_cancel_left]

theorem segToLpa_add {segId off : Nat} (h : 512 * segId + 512 ≤ 4294967296) (ho : off < 512) :
    (rtfsMkfsSegToLpa (UInt32.ofNat segId) + UInt32.ofNat off).toNat = 512 * segId + off := by
  rw [rtfsMkfsSegToLpa,UInt32.toNat_add,UInt32.toNat_mul,UInt32.toNat_ofNat',UInt32.toNat_ofNat']
  change (segId % 4294967296 * 512 % 4294967296 + off % 4294967296) % 4294967296 = _
  omega

theorem zeroWrites_mem {layout : RtfsMkfsLayout}
    (hm : 512 * layout.mainStartSegment.toNat ≤ 4294967296) (lpa : Nat) :
    lpa ∈ (lpaKeyed (zeroWrites layout)).map Prod.fst ↔
      512 ≤ lpa ∧ lpa < 512 * layout.mainStartSegment.toNat := by
  simp only [lpaKeyed,zeroWrites,areaWrites,List.map_flatMap,List.map_map,List.mem_flatMap,
    List.mem_map,List.mem_range,List.mem_range'_1,Function.comp_apply,blockPerSegment]
  constructor
  · rintro ⟨seg,hseg,off,hoff,rfl⟩
    rw [segToLpa_add (by omega) hoff]
    omega
  · rintro ⟨h1,h2⟩
    refine ⟨lpa / 512,by omega,lpa % 512,by omega,?_⟩
    rw [segToLpa_add (by omega) (by omega)]
    omega

theorem zeroWrites_at (g : Nat → Block) {layout : RtfsMkfsLayout}
    (hm : 512 * layout.mainStartSegment.toNat ≤ 4294967296) (lpa : Nat) :
    Updates.applyAll g (lpaKeyed (zeroWrites layout)) lpa =
      if 512 ≤ lpa ∧ lpa < 512 * layout.mainStartSegment.toNat then Buf.zero else g lpa := by
  rw [Updates.applyAll_of_fun (fun _ => Buf.zero) (fun u hu => ?_) lpa]
  · simp only [zeroWrites_mem hm]
  · obtain ⟨w,hw,rfl⟩ := List.mem_map.mp hu
    obtain ⟨seg,_,hs⟩ := List.mem_flatMap.mp hw
    obtain ⟨off,_,rfl⟩ := List.mem_map.mp hs
    rfl

theorem lpaKeyed_append (ws vs : List (UInt32 × Block)) :
    lpaKeyed (ws ++ vs) = lpaKeyed ws ++ lpaKeyed vs := List.map_append

end Writes

structure Formatted (options : RtfsMkfsOptions) (layout : RtfsMkfsLayout) (f : Nat → Block) : Prop where
  super : f 0 = initialSuper options layout
  journal : ∀ i < layout.metaJournalSegmentCount.toNat * blockPerSegment,
    f (layout.metaJournalStartLpa.toNat + i) = Buf.zero
  nats : ∀ i < layout.natSegmentCount.toNat * blockPerSegment,
    f (layout.natStartLpa.toNat + i) = initialNatBlock options layout i
  sits : ∀ i < layout.sitSegmentCount.toNat * blockPerSegment,
    f (layout.sitStartLpa.toNat + i) = initialSitBlock layout i
  root : f layout.mainStartLpa.toNat = rootInode options

section Format
variable {options : RtfsMkfsOptions} {layout : RtfsMkfsLayout} {segs mj : Nat}

theorem mkfsWrites_at (hs : layout.Spec segs mj) (hsmall : segs ≤ 8388608) (g : Nat → Block) :
    Formatted options layout (Updates.applyAll g (lpaKeyed (mkfsWrites options layout))) := by
  have h1 := hs.journalStart
  have h2 := hs.journalSegments
  have h3 := hs.sitStart
  have h4 := hs.natStart
  have h5 := hs.srmapStart
  have h6 := hs.mainStart
  have h7 := hs.mainSegment
  have h8 := hs.mainFits
  have hkeyed : lpaKeyed (mkfsWrites options layout) = (0,initialSuper options layout) ::
      (lpaKeyed (zeroWrites layout) ++
        lpaKeyed (areaWrites layout.natStartLpa (layout.natSegmentCount.toNat * blockPerSegment)
          (initialNatBlock options layout)) ++
        lpaKeyed (areaWrites layout.sitStartLpa (layout.sitSegmentCount.toNat * blockPerSegment)
          (initialSitBlock layout)) ++
        lpaKeyed (areaWrites layout.srmapStartLpa (layout.srmapSegmentCount.toNat * blockPerSegment)
          (initialSrmapBlock options layout)) ++
        [(layout.mainStartLpa.toNat,rootInode options)]) := by
    simp only [mkfsWrites,lpaKeyed,List.map_cons,List.map_append,List.map_nil]
    rfl
  have hat (lpa : Nat) : Updates.applyAll g (lpaKeyed (mkfsWrites options layout)) lpa =
      if lpa = layout.mainStartLpa.toNat then rootInode options
      else if layout.srmapStartLpa.toNat ≤ lpa ∧ lpa < layout.srmapStartLpa.toNat +
          layout.srmapSegmentCount.toNat * 512 then
        initialSrmapBlock options layout (lpa - layout.srmapStartLpa.toNat)
      else if layout.sitStartLpa.toNat ≤ lpa ∧ lpa < layout.sitStartLpa.toNat +
          layout.sitSegmentCount.toNat * 512 then
        initialSitBlock layout (lpa - layout.sitStartLpa.toNat)
      else if layout.natStartLpa.toNat ≤ lpa ∧ lpa < layout.natStartLpa.toNat +
          layout.natSegmentCount.toNat * 512 then
        initialNatBlock options layout (lpa - layout.natStartLpa.toNat)
      else if 512 ≤ lpa ∧ lpa < 512 * layout.mainStartSegment.toNat then Buf.zero
      else Function.update g 0 (initialSuper options layout) lpa := by
    rw [hkeyed,Updates.applyAll_cons,Updates.applyAll_append,Updates.applyAll_append,
      Updates.applyAll_append,Updates.applyAll_append,Updates.applyAll_cons,Updates.applyAll_nil,
      Function.update_apply,areaWrites_at _ _ (by unfold blockPerSegment; omega),
      areaWrites_at _ _ (by unfold blockPerSegment; omega),
      areaWrites_at _ _ (by unfold blockPerSegment; omega),zeroWrites_at _ (by omega)]
    rfl
  constructor
  · rw [hat,if_neg (by omega),if_neg (by omega),if_neg (by omega),if_neg (by omega),
      if_neg (by omega),Function.update_self]
  · intro i hi
    unfold blockPerSegment at hi
    rw [hat,if_neg (by omega),if_neg (by omega),if_neg (by omega),if_neg (by omega),
      if_pos (by omega)]
  · intro i hi
    unfold blockPerSegment at hi
    rw [hat,if_neg (by omega),if_neg (by omega),if_neg (by omega),if_pos (by omega),
      Nat.add_sub_cancel_left]
  · intro i hi
    unfold blockPerSegment at hi
    rw [hat,if_neg (by omega),if_neg (by omega),if_pos (by omega),Nat.add_sub_cancel_left]
  · rw [hat,if_pos rfl]

theorem mkfsWrites_lt (hs : layout.Spec segs mj) (hsmall : segs ≤ 8388608) :
    ∀ w ∈ mkfsWrites options layout, w.1.toNat < segs * 512 := by
  have h3 := hs.sitStart
  have h4 := hs.natStart
  have h5 := hs.srmapStart
  have h6 := hs.mainStart
  have h7 := hs.mainSegment
  have h8 := hs.mainFits
  have harea (start : UInt32) (n : Nat) (f : Nat → Block) (hn : start.toNat + n ≤ segs * 512) :
      ∀ w ∈ areaWrites start n f, w.1.toNat < segs * 512 := by
    intro w hw
    obtain ⟨i,hi,rfl⟩ := List.mem_map.mp hw
    rw [List.mem_range] at hi
    rw [areaWrites_toNat (n := n) (by omega) hi]
    omega
  intro w hw
  simp only [mkfsWrites,List.mem_cons,List.mem_append,List.not_mem_nil,or_false] at hw
  rcases hw with rfl | ((((h | h) | h) | h) | rfl)
  · change 0 < segs * 512
    omega
  · have hk : w.1.toNat ∈ (lpaKeyed (zeroWrites layout)).map Prod.fst :=
      List.mem_map.mpr ⟨(w.1.toNat,w.2),List.mem_map.mpr ⟨w,h,rfl⟩,rfl⟩
    have hz := (zeroWrites_mem (by omega) _).mp hk
    omega
  · exact harea _ _ _ (by unfold blockPerSegment; omega) w h
  · exact harea _ _ _ (by unfold blockPerSegment; omega) w h
  · exact harea _ _ _ (by unfold blockPerSegment; omega) w h
  · change layout.mainStartLpa.toNat < segs * 512
    omega

theorem format_layout {d d' : CommDev} (h : rtfsMkfsFormat options d = .ok (layout,d')) :
    rtfsMkfsCalculateLayout options.lpaCount (effectiveOptions options).metaJournalSegmentCount =
      .ok layout := by
  unfold rtfsMkfsFormat at h
  cases hl : rtfsMkfsCalculateLayout (effectiveOptions options).lpaCount
      (effectiveOptions options).metaJournalSegmentCount with
  | error e =>
    simp only [hl] at h
    cases h
  | ok layout' =>
    simp only [hl] at h
    split at h
    · cases h
    · cases h
      exact hl

theorem effective_journal_lt (hmj : options.metaJournalSegmentCount.toNat < 4294967295) :
    (effectiveOptions options).metaJournalSegmentCount.toNat < 4294967295 := by
  unfold effectiveOptions
  simp only
  split
  · decide
  · exact hmj

theorem format_layout_spec {d : CommDev} (hd : ∀ lpa < options.lpaCount, d.Holds lpa)
    (hmj : options.metaJournalSegmentCount.toNat < 4294967295)
    (hl : rtfsMkfsCalculateLayout options.lpaCount
      (effectiveOptions options).metaJournalSegmentCount = .ok layout) :
    layout.Spec (options.lpaCount / 512) (effectiveOptions options).metaJournalSegmentCount.toNat ∧
      options.lpaCount ≤ 536870912 := by
  have hlpa : options.lpaCount ≤ 536870912 := by
    by_contra hlt
    have hh := (hd (options.lpaCount - 1) (by omega)).lt
    omega
  exact ⟨(calculateLayout_spec hl (by omega) (effective_journal_lt hmj)).1,hlpa⟩

theorem format_spec {d : CommDev} (hd : ∀ lpa < options.lpaCount, d.Holds lpa)
    (hmj : options.metaJournalSegmentCount.toNat < 4294967295)
    (hl : rtfsMkfsCalculateLayout options.lpaCount
      (effectiveOptions options).metaJournalSegmentCount = .ok layout) :
    ∃ f, rtfsMkfsFormat options d = .ok (layout,d.withBlocks f) ∧
      Formatted (effectiveOptions options) layout f ∧
      (layoutOf (initialSuper (effectiveOptions options) layout)).Ok d := by
  obtain ⟨hs,hlpa⟩ := format_layout_spec hd hmj hl
  have hok := mkfsWriteBlock_ok (mkfsWrites (effectiveOptions options) layout) d
    (fun w hw => hd _ (lt_of_lt_of_le (mkfsWrites_lt hs (by omega) w hw) (Nat.div_mul_le_self _ _)))
  refine ⟨_,?_,mkfsWrites_at hs (by omega) d.blocks,
    mkfs_layoutOk hl _ hd (effective_journal_lt hmj)⟩
  unfold rtfsMkfsFormat
  simp only
  rw [show (effectiveOptions options).lpaCount = options.lpaCount from rfl,hl]
  simp only [hok]

end Format

end Rtfs
