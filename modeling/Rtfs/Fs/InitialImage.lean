import Rtfs.Fs.NidAlloc
import Rtfs.Fs.LpaAlloc
import Rtfs.Fs.LayoutSound

namespace Rtfs

open RtfsSuperBlock

def rtfsMkfsFormatWith {σ : Type} (options : RtfsMkfsOptions)
    (writeBlock : σ → UInt32 × Block → Except Errno σ) (writeCtx : σ) :
    Except Errno (RtfsMkfsLayout × σ) :=
  let effective := effectiveOptions options
  match rtfsMkfsCalculateLayout effective.lpaCount effective.metaJournalSegmentCount with
  | .error e => .error e
  | .ok layout =>
    match (mkfsWrites effective layout).foldlM writeBlock writeCtx with
    | .error _ => .error .eio
    | .ok ctx => .ok (layout,ctx)

theorem format_formatWith (options : RtfsMkfsOptions) (d : CommDev) :
    rtfsMkfsFormat options d = rtfsMkfsFormatWith options rtfsMkfsCommDevWriteBlock d := by
  unfold rtfsMkfsFormat rtfsMkfsFormatWith
  cases hl : rtfsMkfsCalculateLayout (effectiveOptions options).lpaCount
      (effectiveOptions options).metaJournalSegmentCount with
  | error e => simp only [hl]
  | ok layout =>
    simp only [hl]
    cases (mkfsWrites (effectiveOptions options) layout).foldlM rtfsMkfsCommDevWriteBlock d <;> rfl

abbrev Written : Type := Nat → Option Block

def recordBlock (written : Written) (w : UInt32 × Block) : Except Errno Written :=
  .ok (Function.update written w.1.toNat (some w.2))

def Written.blocks (written : Written) (lpa : Nat) : Block := (written lpa).getD Buf.zero

section Record

theorem mem_lpaKeyed {ws : List (UInt32 × Block)} {w : UInt32 × Block} (hw : w ∈ ws) :
    w.1.toNat ∈ (lpaKeyed ws).map Prod.fst :=
  List.mem_map_of_mem (List.mem_map_of_mem hw)

theorem record_ok (ws : List (UInt32 × Block)) (written : Written) :
    ∃ written', ws.foldlM recordBlock written = .ok written' ∧
      written'.blocks = Updates.applyAll written.blocks (lpaKeyed ws) ∧
      ∀ lpa, (written' lpa).isSome ↔ (written lpa).isSome ∨ lpa ∈ (lpaKeyed ws).map Prod.fst := by
  induction ws generalizing written with
  | nil => exact ⟨written,rfl,rfl,fun lpa => by simp [lpaKeyed]⟩
  | cons w ws ih =>
    obtain ⟨written',hok,hblocks,hsome⟩ := ih (Function.update written w.1.toNat (some w.2))
    have hstep : Written.blocks (Function.update written w.1.toNat (some w.2)) =
        Function.update written.blocks w.1.toNat w.2 := by
      funext lpa
      unfold Written.blocks
      by_cases hl : lpa = w.1.toNat
      · subst hl
        simp
      · simp [Function.update_of_ne hl]
    refine ⟨written',hok,?_,fun lpa => ?_⟩
    · rw [hblocks,hstep]
      rfl
    · rw [hsome lpa]
      by_cases hl : lpa = w.1.toNat
      · subst hl
        simp [lpaKeyed]
      · simp [lpaKeyed,hl]

theorem formatWith_record {options : RtfsMkfsOptions} {layout : RtfsMkfsLayout} {disk : Written}
    (h : rtfsMkfsFormatWith options recordBlock (fun _ => none) = .ok (layout,disk)) :
    rtfsMkfsCalculateLayout options.lpaCount (effectiveOptions options).metaJournalSegmentCount =
        .ok layout ∧
      disk.blocks = Updates.applyAll (fun _ => Buf.zero)
        (lpaKeyed (mkfsWrites (effectiveOptions options) layout)) ∧
      ∀ lpa, (disk lpa).isSome ↔
        lpa ∈ (lpaKeyed (mkfsWrites (effectiveOptions options) layout)).map Prod.fst := by
  unfold rtfsMkfsFormatWith at h
  cases hl : rtfsMkfsCalculateLayout (effectiveOptions options).lpaCount
      (effectiveOptions options).metaJournalSegmentCount with
  | error e =>
    simp only [hl] at h
    cases h
  | ok layout' =>
    obtain ⟨written,hok,hblocks,hsome⟩ :=
      record_ok (mkfsWrites (effectiveOptions options) layout') (fun _ => none)
    simp only [hl,hok] at h
    cases h
    exact ⟨hl,hblocks,fun lpa => by simpa using hsome lpa⟩

end Record

def nrInlineDentry : Nat := 194

def inlineSlotTaken (node : Block) (slot : Nat) : Bool :=
  node.get (332 + slot / 8) &&& Bitmap.mask (slot % 8) ≠ 0

structure EmptyInlineDir (node : Block) (ino : UInt32) : Prop where
  isDir : u32At node 4 = rtfsFtDir.toUInt32
  inlineDentry : node.get 2 = rtfsInlineDentry
  dentryNum : u32At node 48 = 0 ∧ u32At node 52 = 0
  slots : ∀ slot < nrInlineDentry, inlineSlotTaken node slot = false
  footerNid : u32At node 4080 = ino
  footerIno : u32At node 4084 = ino

def ReadOnMount (layout : RtfsMkfsLayout) (lpa : Nat) : Prop :=
  lpa = 0 ∨ ∃ a ∈ layout.metaAreas.tail, a.start ≤ lpa ∧ lpa < a.stop

structure ValidImage (options : RtfsMkfsOptions) (layout : RtfsMkfsLayout) (disk : Written) : Prop where
  rootNat : natHoldsNid (metaOf disk.blocks) options.rootIno ∧
    (metaOf disk.blocks).nat options.rootIno = ⟨options.rootIno,layout.mainStartLpa⟩
  rootInode : ∃ node, disk layout.mainStartLpa.toNat = some node ∧
    EmptyInlineDir node options.rootIno
  freeNids : ∃ l, Threaded (nidNext (metaOf disk.blocks)) invalidNid
      ((metaOf disk.blocks).field nextFreeNidOff) l ∧
    l.map UInt32.toNat = List.range' (options.rootIno.toNat + 1)
      (layout.blockCount - (options.rootIno.toNat + 1))
  freeSegments : ∃ l, Threaded (segNext (metaOf disk.blocks)) invalidSegid
      ((metaOf disk.blocks).field firstFreeSegmentIdOff) l ∧
    (∀ segId, segId ∈ l ↔ layout.InMain segId ∧
      segId ≠ (metaOf disk.blocks).field currentNodeSegmentIdOff ∧
      segId ≠ (metaOf disk.blocks).field currentDataSegmentIdOff) ∧
    l.length = ((metaOf disk.blocks).field freeSegmentCountOff).toNat
  sitBits : ∀ segId, layout.InMain segId → ∀ off < blockPerSegment,
    ((metaOf disk.blocks).sit segId).isValid off = true ↔
      segId = layout.mainStartSegment ∧ off = 0
  written : ∀ lpa < layout.mainStartLpa.toNat, ReadOnMount layout lpa → (disk lpa).isSome

section Root
variable (options : RtfsMkfsOptions) (layout : RtfsMkfsLayout)

theorem initialNat_root :
    natEntryAt (initialNatBlock options layout (options.rootIno.toNat / natEntryPerBlock))
      (options.rootIno.toNat % natEntryPerBlock) = ⟨options.rootIno,layout.mainStartLpa⟩ := by
  have hlt : ∀ n, n % natEntryPerBlock < natEntryPerBlock := fun n => Nat.mod_lt _ (by decide)
  have hr := options.rootIno.toNat_lt
  have hnext : (options.rootIno + 1).toNat = (options.rootIno.toNat + 1) % 4294967296 :=
    UInt32.toNat_add _ _
  unfold initialNatBlock
  simp only [if_true]
  split
  · rename_i hd
    rw [natEntryAt_setNatEntry _ (hlt _),if_neg,natEntryAt_setNatEntry _ (hlt _),if_pos rfl]
    intro hm
    have he := div_mod_inj hd.symm hm
    omega
  · rw [natEntryAt_setNatEntry _ (hlt _),if_pos rfl]

theorem emptyInlineDir_rootInode : EmptyInlineDir (rootInode options) options.rootIno := by
  have hword : ∀ w ∈ [(0,493 + rtfsInlineDentry.toUInt32 * 65536),(4,2),(8,2),(32,1),
      (68,options.rootIno),(4080,options.rootIno),(4084,options.rootIno)],
      4 ∣ w.1 ∧ w.1 + 4 ≤ 4096 := by
    simp only [List.forall_mem_cons]
    decide
  have hfield {off : Nat} (ha : 4 ∣ off) : u32At (rootInode options) off = _ :=
    u32At_writeWords Buf.zero _ off ha hword
  constructor
  · exact hfield (by decide)
  · rfl
  · exact ⟨hfield (by decide),hfield (by decide)⟩
  · intro slot hslot
    have hlt : slot / 8 < 25 := by
      unfold nrInlineDentry at hslot
      omega
    have hzero : (rootInode options).get (332 + slot / 8) = 0 := by
      refine get_writeWords_zero _ _ _ (Buf.get_zero _) ?_
      simp only [List.forall_mem_cons]
      refine ⟨?_,?_,?_,?_,?_,?_,?_,fun w hw => absurd hw List.not_mem_nil⟩ <;> omega
    rw [inlineSlotTaken,hzero]
    simp
  · exact hfield (by decide)
  · exact hfield (by decide)

end Root

def RootFits (options : RtfsMkfsOptions) (blockCount : Nat) : Prop :=
  options.rootIno.toNat + 1 < blockCount ∨
    options.rootIno = 4294967295 ∧ 4294705152 < blockCount

section Valid
variable {options : RtfsMkfsOptions} {layout : RtfsMkfsLayout} {m : FsMeta}

theorem image_rootNat (h : MkfsImage options layout m) (ha : layout.Areas)
    (hroot : (effectiveOptions options).rootIno.toNat / 512 < layout.natSegmentCount.toNat * 512) :
    natHoldsNid m (effectiveOptions options).rootIno ∧
      m.nat (effectiveOptions options).rootIno =
        ⟨(effectiveOptions options).rootIno,layout.mainStartLpa⟩ := by
  have hsmall := ha.natSmall
  have hcount : m.field segmentCountNatOff = layout.natSegmentCount :=
    image_field h (by decide) rfl
  have hmul : (layout.natSegmentCount * 512).toNat = layout.natSegmentCount.toNat * 512 := by
    rw [UInt32.toNat_mul]
    change layout.natSegmentCount.toNat * 512 % 4294967296 = _
    omega
  refine ⟨?_,?_⟩
  · rw [natHoldsNid,hcount,UInt32.lt_iff_toNat_lt,UInt32.toNat_div,hmul]
    exact hroot
  · rw [h.nats _ hroot]
    exact initialNat_root (effectiveOptions options) layout

theorem image_freeNids (h : MkfsImage options layout m) (ha : layout.Areas)
    (hb : layout.blockCount ≤ 4294967296)
    (hroot : RootFits (effectiveOptions options) layout.blockCount) :
    ∃ l, Threaded (nidNext m) invalidNid (m.field nextFreeNidOff) l ∧
      l.map UInt32.toNat = List.range' ((effectiveOptions options).rootIno.toNat + 1)
        (layout.blockCount - ((effectiveOptions options).rootIno.toNat + 1)) := by
  rcases hroot with hroot | ⟨hlast,_⟩
  · refine ⟨_,(image_freeList h ha hroot hb).threaded,?_⟩
    rw [List.map_map]
    refine (List.map_congr_left (fun i hi => ?_)).trans (List.map_id _)
    rw [List.mem_range'_1] at hi
    exact nidOrEnd_toNat hb (by omega)
  · refine ⟨[],?_,?_⟩
    · change m.field nextFreeNidOff = invalidNid
      have hfield : m.field nextFreeNidOff = (effectiveOptions options).rootIno + 1 :=
        image_field h (by decide) rfl
      rw [hfield,hlast]
      rfl
    · have hto : (4294967295 : UInt32).toNat = 4294967295 := rfl
      rw [hlast,hto,Nat.sub_eq_zero_of_le (by omega)]
      rfl

theorem image_freeSegments (h : MkfsImage options layout m) (ha : layout.Areas)
    (hN : layout.segmentCount.toNat ≤ 8388608) :
    ∃ l, Threaded (segNext m) invalidSegid (m.field firstFreeSegmentIdOff) l ∧
      (∀ segId, segId ∈ l ↔ layout.InMain segId ∧ segId ≠ m.field currentNodeSegmentIdOff ∧
        segId ≠ m.field currentDataSegmentIdOff) ∧
      l.length = (m.field freeSegmentCountOff).toNat := by
  have hf := ha.mainFits
  have hnode : m.field currentNodeSegmentIdOff = layout.mainStartSegment :=
    image_field h (by decide) rfl
  have hdata : m.field currentDataSegmentIdOff = layout.mainStartSegment + 1 :=
    image_field h (by decide) rfl
  have hsucc : (layout.mainStartSegment + 1).toNat = layout.mainStartSegment.toNat + 1 :=
    succ_toNat (n := layout.segmentCount.toNat) (by omega) (by omega)
  refine ⟨_,image_freeChain h ha hN,fun segId => ?_,?_⟩
  · rw [hnode,hdata,ne_eq,ne_eq,← UInt32.toNat_inj,← UInt32.toNat_inj,hsucc,List.mem_map]
    constructor
    · rintro ⟨i,hi,rfl⟩
      rw [List.mem_range'_1] at hi
      have hto : (segOrEnd layout i).toNat = i := segOrEnd_toNat (by omega)
      refine ⟨⟨by omega,by omega⟩,by omega,by omega⟩
    · rintro ⟨⟨hlo,hhi⟩,h1,h2⟩
      refine ⟨segId.toNat,?_,UInt32.toNat_inj.mp (segOrEnd_toNat hhi)⟩
      rw [List.mem_range'_1]
      omega
  · rw [List.length_map,List.length_range',(image_firstFree h ha).2]

theorem image_sitBits (h : MkfsImage options layout m) (ha : layout.Areas)
    (hN : layout.segmentCount.toNat ≤ 8388608) {segId : UInt32} (hseg : layout.InMain segId)
    {off : Nat} : (m.sit segId).isValid off = true ↔ segId = layout.mainStartSegment ∧ off = 0 := by
  rw [image_sit h ha hN hseg]
  split
  · rename_i he
    rw [sitSetValid_isValid _ (by decide),chainedEntry_isValid]
    simp [he]
  · rename_i hne
    simp [chainedEntry_isValid,hne]

end Valid

section Format
variable {options : RtfsMkfsOptions} {layout : RtfsMkfsLayout} {disk : Written}

theorem format_written (hs : layout.Spec segs mj) (hsmall : segs ≤ 8388608) {lpa : Nat}
    (hlt : lpa < layout.mainStartLpa.toNat) (hread : ReadOnMount layout lpa) :
    lpa ∈ (lpaKeyed (mkfsWrites options layout)).map Prod.fst := by
  have h1 := hs.journalStart
  have h3 := hs.sitStart
  have h4 := hs.natStart
  have h5 := hs.srmapStart
  have h6 := hs.mainStart
  have h8 := hs.mainFits
  rcases hread with rfl | ⟨a,ha,hlo,hhi⟩
  · exact List.mem_cons_self
  · have hge : 512 ≤ lpa := by
      simp only [RtfsMkfsLayout.metaAreas,RtfsMkfsLayout.segmentArea,List.tail_cons,List.mem_cons,
        List.not_mem_nil,or_false] at ha
      rcases ha with rfl | rfl | rfl | rfl
      all_goals
        simp only at hlo
        omega
    have hzero := (@zeroWrites_mem layout (by omega) lpa).mpr ⟨hge,by omega⟩
    obtain ⟨w,hw,rfl⟩ := List.mem_map.mp hzero
    obtain ⟨v,hv,rfl⟩ := List.mem_map.mp hw
    refine mem_lpaKeyed ?_
    simp [mkfsWrites,hv]

theorem formatWith_ok (hl : rtfsMkfsCalculateLayout options.lpaCount
    (effectiveOptions options).metaJournalSegmentCount = .ok layout) :
    ∃ disk, rtfsMkfsFormatWith options recordBlock (fun _ => none) = .ok (layout,disk) := by
  obtain ⟨written,hok,_⟩ := record_ok (mkfsWrites (effectiveOptions options) layout) (fun _ => none)
  refine ⟨written,?_⟩
  have hl' : rtfsMkfsCalculateLayout (effectiveOptions options).lpaCount
      (effectiveOptions options).metaJournalSegmentCount = .ok layout := hl
  unfold rtfsMkfsFormatWith
  simp only [hl',hok]

theorem format_image
    (h : rtfsMkfsFormatWith options recordBlock (fun _ => none) = .ok (layout,disk))
    (hsegs : options.lpaCount / 512 ≤ 8388608)
    (hmj : (effectiveOptions options).metaJournalSegmentCount ≠ 4294967295) :
    layout.Spec (options.lpaCount / 512) (effectiveOptions options).metaJournalSegmentCount.toNat ∧
      layout.blockCount ≤ layout.natSegmentCount.toNat * 512 * 512 ∧
      Formatted (effectiveOptions options) layout disk.blocks ∧
      MkfsImage options layout (metaOf disk.blocks) := by
  obtain ⟨hl,hblocks,_⟩ := formatWith_record h
  have hlt : (effectiveOptions options).metaJournalSegmentCount.toNat < 4294967295 := by
    have := (effectiveOptions options).metaJournalSegmentCount.toNat_lt
    have hne : (effectiveOptions options).metaJournalSegmentCount.toNat ≠ 4294967295 :=
      fun he => hmj (UInt32.toNat_inj.mp he)
    omega
  obtain ⟨hs,_,_,hnat⟩ := calculateLayout_spec hl hsegs hlt
  have hform : Formatted (effectiveOptions options) layout disk.blocks := by
    rw [hblocks]
    exact mkfsWrites_at hs hsegs _
  exact ⟨hs,hnat,hform,formatted_image hl hs hsegs hform⟩

theorem format_valid (h : rtfsMkfsFormatWith options recordBlock (fun _ => none) = .ok (layout,disk))
    (hsegs : options.lpaCount / 512 ≤ 8388608)
    (hmj : (effectiveOptions options).metaJournalSegmentCount ≠ 4294967295)
    (hroot : RootFits (effectiveOptions options) (options.lpaCount / 512 * 512)) :
    ValidImage (effectiveOptions options) layout disk := by
  obtain ⟨hs,hnat,hform,himage⟩ := format_image h hsegs hmj
  have hsome := (formatWith_record h).2.2
  have hb := hs.blockCount
  have ha := calculateLayout_areas himage.calculated (.inl (by omega))
  have hN : layout.segmentCount.toNat ≤ 8388608 := by
    have := hs.segmentCount
    omega
  rw [← hb] at hroot
  have hroomy : (effectiveOptions options).rootIno.toNat / 512 < layout.natSegmentCount.toNat * 512 := by
    rcases hroot with hroot | ⟨hlast,hlarge⟩
    · omega
    · have hto : (4294967295 : UInt32).toNat = 4294967295 := rfl
      rw [hlast,hto]
      omega
  refine ⟨image_rootNat himage ha hroomy,?_,image_freeNids himage ha (by omega) hroot,
    image_freeSegments himage ha hN,fun segId hseg off _ => image_sitBits himage ha hN hseg,
    fun lpa hlpa hread => (hsome lpa).mpr (format_written hs hsegs hlpa hread)⟩
  have hwritten : (disk layout.mainStartLpa.toNat).isSome := by
    rw [hsome]
    refine mem_lpaKeyed (w := (layout.mainStartLpa,rootInode (effectiveOptions options))) ?_
    simp [mkfsWrites]
  obtain ⟨node,hnode⟩ := Option.isSome_iff_exists.mp hwritten
  have hroot' := hform.root
  rw [Written.blocks,hnode] at hroot'
  refine ⟨node,hnode,?_⟩
  change node = _ at hroot'
  rw [hroot']
  exact emptyInlineDir_rootInode (effectiveOptions options)

theorem valid_segments (h : ValidImage options layout disk) : layout.blockCount ≤ 4294967296 := by
  by_contra hlt
  have hr := options.rootIno.toNat_lt
  obtain ⟨l,_,hl⟩ := h.freeNids
  have hlast : layout.blockCount - 1 ∈ l.map UInt32.toNat := by
    rw [hl,List.mem_range'_1]
    omega
  obtain ⟨nid,_,hnid⟩ := List.mem_map.mp hlast
  have := nid.toNat_lt
  omega

structure Wrapped (layout : RtfsMkfsLayout) : Prop where
  sitStart : layout.sitStartLpa = 0
  sitPos : 0 < layout.sitSegmentCount.toNat
  sitFits : layout.sitSegmentCount.toNat * 512 ≤ 4294967296
  srmapStart : 0 < layout.srmapStartLpa.toNat
  srmapFits : layout.srmapStartLpa.toNat + layout.srmapSegmentCount.toNat * 512 ≤ 4294967296
  mainStart : layout.mainStartLpa.toNat = 512 * layout.mainStartSegment.toNat
  mainPos : 0 < layout.mainStartSegment.toNat
  mainFits : layout.mainStartSegment.toNat + 2 ≤ layout.segmentCount.toNat
  segments : layout.segmentCount.toNat ≤ 8388608

theorem placeAreas_wrapped {segs sit nat srmap : Nat}
    (h : mkfsPlaceAreas segs sit nat srmap 4294967295 = .ok layout) (hsegs : segs ≤ 8388608)
    (hsit : segs ≤ sit * 512 * 60) : Wrapped layout := by
  have h1 : (1 + 4294967295 : UInt32).toNat = 0 := rfl
  have h512 : (512 : UInt32).toNat = 512 := rfl
  simp only [mkfsPlaceAreas,h1] at h
  split at h
  · cases h
  · rename_i hfit
    cases h
    constructor
    case sitStart => rfl
    all_goals simp only [rtfsMkfsSegToLpa,UInt32.toNat_mul,UInt32.toNat_add,UInt32.toNat_ofNat',
      h512,h1]
    all_goals omega

theorem wrapped_super (hw : Wrapped layout) (g : Nat → Block) :
    Updates.applyAll g (lpaKeyed (mkfsWrites options layout)) 0 = initialSitBlock layout 0 := by
  have h1 := hw.sitPos
  have h2 := hw.srmapStart
  have h3 := hw.mainStart
  have h4 := hw.mainPos
  have hzero : layout.sitStartLpa.toNat = 0 := by
    rw [hw.sitStart]
    rfl
  have hfits := hw.sitFits
  have hsplit : mkfsWrites options layout = ((0,initialSuper options layout) :: (zeroWrites layout ++
        areaWrites layout.natStartLpa (layout.natSegmentCount.toNat * blockPerSegment)
          (initialNatBlock options layout))) ++
      areaWrites layout.sitStartLpa (layout.sitSegmentCount.toNat * blockPerSegment)
        (initialSitBlock layout) ++
      areaWrites layout.srmapStartLpa (layout.srmapSegmentCount.toNat * blockPerSegment)
        (initialSrmapBlock options layout) ++ [(layout.mainStartLpa,rootInode options)] := rfl
  rw [hsplit,lpaKeyed_append,lpaKeyed_append,lpaKeyed_append,Updates.applyAll_append,
    Updates.applyAll_append,Updates.applyAll_append]
  change Function.update _ layout.mainStartLpa.toNat _ 0 = _
  rw [Function.update_of_ne (by omega),areaWrites_at _ _ (by exact hw.srmapFits),if_neg (by omega),
    areaWrites_at _ _ (by unfold blockPerSegment; omega),if_pos (by unfold blockPerSegment; omega),
    Nat.zero_sub]

theorem initialSit_zero (hpos : 0 < layout.mainStartSegment.toNat)
    (hlt : 0 < layout.segmentCount.toNat) (hN : layout.segmentCount.toNat ≤ 8388608) :
    sitEntryAt (initialSitBlock layout 0) 0 = rtfsMkfsSitSetValid (chainedEntry layout 0) 0 := by
  have hchain : sitEntryAt (chainedSitBlock layout 0) 0 = chainedEntry layout 0 :=
    @sitEntryAt_chained layout 0 hN hlt
  have hfilled : sitEntryAt ((List.range' 1 (layout.mainStartSegment.toNat - 1)).foldl (fun b seg =>
      if seg / sitEntryPerBlock = 0 then validateSegment b seg else b)
      (modifySit (chainedSitBlock layout 0) 0 (fun e => rtfsMkfsSitSetValid e 0))) 0 =
      rtfsMkfsSitSetValid (chainedEntry layout 0) 0 := by
    rw [foldl_keeps,sitEntryAt_modifySit,if_pos (by decide),hchain]
    intro x hx b
    rw [List.mem_range'_1] at hx
    split
    · rename_i hdiv
      apply sitEntryAt_validateSegment
      unfold sitEntryPerBlock at hdiv ⊢
      omega
    · rfl
  unfold initialSitBlock
  simp only [if_true]
  split
  · rename_i hdiv
    rw [sitEntryAt_modifySit,if_neg,hfilled]
    unfold sitEntryPerBlock at hdiv ⊢
    omega
  · exact hfilled

theorem sitEntryAt_validMap (b : Block) (i : Nat) {k : Nat} (hk : k < 64) :
    (sitEntryAt b i).validMap.get k = b.get (68 * i + (4 + k)) := by
  have hmap : (sitEntryAt b i).validMap = Buf.ofBytes ((b.read (68 * i) 68).drop 4) := rfl
  rw [hmap,Buf.get,dif_pos hk]
  unfold Buf.ofBytes Buf.read
  rw [List.getElem?_drop,List.getElem?_map,List.getElem?_range (by omega)]
  rfl

theorem wrapped_natSegments (hw : Wrapped layout) :
    u32At (initialSitBlock layout 0) segmentCountNatOff = 0 := by
  have hfits := hw.mainFits
  have hentry := initialSit_zero hw.mainPos (by omega) hw.segments
  have hmap : (chainedEntry layout 0).validMap = Buf.zero := by
    unfold chainedEntry
    split <;> rfl
  have hclear : (chainedEntry layout 0).isValid 0 = false := by
    rw [RtfsSitEntry.isValid,hmap]
    exact Bitmap.test_zero 0
  have hbyte (k : Nat) (hpos : 0 < k) (hk : k < 64) : (initialSitBlock layout 0).get (4 + k) = 0 := by
    have hget := sitEntryAt_validMap (initialSitBlock layout 0) 0 hk
    rw [hentry,rtfsMkfsSitSetValid,hclear,if_neg (by decide),hmap,Nat.mul_zero,Nat.zero_add] at hget
    rw [← hget,Bitmap.set,Bitmap.get_modify _ (by decide),if_neg (by omega)]
    exact Buf.get_zero k
  have hread : (initialSitBlock layout 0).read 40 4 = List.replicate 4 0 := by
    refine List.map_eq_replicate_iff.mpr (fun i hi => ?_)
    rw [List.mem_range] at hi
    have hb := hbyte (36 + i) (by omega) (by omega)
    rwa [show 4 + (36 + i) = 40 + i by omega] at hb
  change Codec.u32OfBytes ((initialSitBlock layout 0).read 40 4) = 0
  rw [hread]
  rfl

theorem valid_journal
    (h : rtfsMkfsFormatWith options recordBlock (fun _ => none) = .ok (layout,disk))
    (hsegs : options.lpaCount / 512 ≤ 8388608)
    (hv : ValidImage (effectiveOptions options) layout disk) :
    (effectiveOptions options).metaJournalSegmentCount ≠ 4294967295 := by
  intro hmj
  obtain ⟨hl,hblocks,_⟩ := formatWith_record h
  rw [hmj] at hl
  have hs1 := divRoundUp_mul (options.lpaCount / 512) 60 (by decide)
  have hs2 := divRoundUp_mul (rtfsMkfsDivRoundUp (options.lpaCount / 512) 60) 512 (by decide)
  have hw := placeAreas_wrapped (calculateLayout_placed hl).2 hsegs
    (hs1.trans (Nat.mul_le_mul_right 60 hs2))
  have hcount : (metaOf disk.blocks).field segmentCountNatOff = 0 := by
    change u32At (disk.blocks 0) segmentCountNatOff = 0
    rw [hblocks,wrapped_super hw,wrapped_natSegments hw]
  have hholds := hv.rootNat.1
  rw [natHoldsNid,hcount,UInt32.lt_iff_toNat_lt] at hholds
  exact absurd hholds (Nat.not_lt_zero _)

theorem valid_root
    (h : rtfsMkfsFormatWith options recordBlock (fun _ => none) = .ok (layout,disk))
    (hsegs : options.lpaCount / 512 ≤ 8388608)
    (hmj : (effectiveOptions options).metaJournalSegmentCount ≠ 4294967295)
    (hv : ValidImage (effectiveOptions options) layout disk) :
    RootFits (effectiveOptions options) (options.lpaCount / 512 * 512) := by
  obtain ⟨hs,_,_,himage⟩ := format_image h hsegs hmj
  have hb := hs.blockCount
  by_contra hfits
  unfold RootFits at hfits
  rw [not_or,not_and] at hfits
  obtain ⟨l,hlist,hl⟩ := hv.freeNids
  have hnil : l = [] := by
    rw [Nat.sub_eq_zero_of_le (by omega)] at hl
    exact List.map_eq_nil_iff.mp hl
  have hnext : (metaOf disk.blocks).field nextFreeNidOff = (effectiveOptions options).rootIno + 1 :=
    image_field himage (by decide) rfl
  rw [hnil] at hlist
  have hzero : (effectiveOptions options).rootIno + 1 = 0 := hnext.symm.trans hlist
  have hlast : (effectiveOptions options).rootIno = 4294967295 := by
    have hr := (effectiveOptions options).rootIno.toNat_lt
    have hto : (4294967295 : UInt32).toNat = 4294967295 := rfl
    have hsum : ((effectiveOptions options).rootIno.toNat + 1) % 4294967296 = 0 := by
      have he := congrArg UInt32.toNat hzero
      rw [UInt32.toNat_add] at he
      exact he
    apply UInt32.toNat_inj.mp
    omega
  have hnat := (placeAreas_placed (calculateLayout_placed himage.calculated).2).natSegments
  have hle := hfits.2 hlast
  have hcount : (metaOf disk.blocks).field segmentCountNatOff = layout.natSegmentCount :=
    image_field himage (by decide) rfl
  have hholds := hv.rootNat.1
  have hmul : (layout.natSegmentCount * 512).toNat ≤ layout.natSegmentCount.toNat * 512 := by
    rw [UInt32.toNat_mul]
    exact Nat.mod_le _ _
  rw [natHoldsNid,hcount,hlast,UInt32.lt_iff_toNat_lt] at hholds
  change 8388607 < _ at hholds
  unfold rtfsMkfsDivRoundUp at hnat
  omega

theorem format_valid_iff
    (h : rtfsMkfsFormatWith options recordBlock (fun _ => none) = .ok (layout,disk)) :
    ValidImage (effectiveOptions options) layout disk ↔
      options.lpaCount / blockPerSegment ≤ rtfsMaxSegment ∧
      (effectiveOptions options).metaJournalSegmentCount ≠ 4294967295 ∧
      RootFits (effectiveOptions options) (options.lpaCount / blockPerSegment * blockPerSegment) := by
  constructor
  · intro hv
    have hsegs : options.lpaCount / 512 ≤ 8388608 := by
      obtain ⟨hcount,hb,_⟩ := calculateLayout_segments (formatWith_record h).1
      have := valid_segments hv
      omega
    have hmj := valid_journal h hsegs hv
    exact ⟨hsegs,hmj,valid_root h hsegs hmj hv⟩
  · rintro ⟨hsegs,hmj,hroot⟩
    exact format_valid h hsegs hmj hroot

end Format

theorem format_valid_iff_small : ∃ disk,
    rtfsMkfsFormatWith smallOptions recordBlock (fun _ => none) = .ok (smallLayout,disk) ∧
      ValidImage smallOptions smallLayout disk := by
  obtain ⟨disk,hdisk⟩ := @formatWith_ok smallOptions smallLayout calculateLayout_small
  exact ⟨disk,hdisk,(format_valid_iff hdisk).mpr ⟨by decide,by decide,.inl (by decide)⟩⟩

theorem format_invalid_lastNid : ∃ disk,
    rtfsMkfsFormatWith ⟨32768,32767,1⟩ recordBlock (fun _ => none) = .ok (smallLayout,disk) ∧
      ¬ ValidImage (effectiveOptions ⟨32768,32767,1⟩) smallLayout disk := by
  obtain ⟨disk,hdisk⟩ := @formatWith_ok ⟨32768,32767,1⟩ smallLayout calculateLayout_small
  refine ⟨disk,hdisk,fun hv => ?_⟩
  rcases valid_root hdisk (by decide) (by decide) hv with hfits | ⟨hlast,_⟩
  · exact absurd hfits (by decide)
  · exact absurd hlast (by decide)

end Rtfs
