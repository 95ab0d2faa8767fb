import Rtfs.Journal.CrashRecovery

namespace Rtfs

structure MetaMemory where
  superBlock : Block
  natBlocks : List (UInt32 × Block)
  sitBlocks : List (UInt32 × Block)
  srmapBlocks : List (UInt32 × Block)

def blockBufferWriteToLpaSync (d : CommDev) (w : UInt32 × Block) : CommDev :=
  match d.writeLba (lpaToLba w.1) w.2 with
  | .ok d' => d'
  | .error _ => d

def journalBlkoff (lpa start fin : Nat) : UInt16 :=
  if lpa < start ∨ fin ≤ lpa then 0 else UInt16.ofNat (lpa - start)

def syncSuperJournalPosFromDev (d : CommDev) (superBlock : Block) : Block :=
  let start := journalStartLpaOf superBlock
  let fin := start + journalSizeOf superBlock
  setU16 (setU16 superBlock RtfsSuperBlock.metaJournalStartBlkoffOff
    (journalBlkoff d.metaJournalHeadLpa start fin)) RtfsSuperBlock.metaJournalEndBlkoffOff
    (journalBlkoff d.metaJournalTailLpa start fin)

def flushForUnmount (s : Sys) (m : MetaMemory) : CommDev :=
  let superBlock := syncSuperJournalPosFromDev s.dev m.superBlock
  (m.natBlocks ++ m.sitBlocks ++ m.srmapBlocks ++ [(0,superBlock)]).foldl
    blockBufferWriteToLpaSync s.dev

def rtfsInitialize (fuel : Nat) (mem : Nat → Block) (d : CommDev) : Option Sys :=
  match commSubmitFsRecoverFromDbRequest fuel d with
  | some (d',none) => some (fileSystemManagerSetup mem d')
  | _ => none

inductive FsState
  | unmounted (d : CommDev)
  | mounted (s : Sys)

inductive FsOp
  | mount (mem : Nat → Block)
  | commit (j : JournalContainer)
  | writeBlock (lpa : UInt32) (b : Block)
  | unmount (m : MetaMemory)

section Run
variable (kh : Khash) (fuel : Nat)

def fsStep : FsState → FsOp → Option FsState
  | .unmounted d, .mount mem => (rtfsInitialize fuel mem d).map .mounted
  | .mounted s, .commit j => (commitJournal kh s j).map .mounted
  | .mounted s, .writeBlock lpa b => some (.mounted ⟨s.proc,blockBufferWriteToLpaSync s.dev (lpa,b)⟩)
  | .mounted s, .unmount m => some (.unmounted (flushForUnmount s m))
  | _, _ => none

def fsRun (st : FsState) (ops : List FsOp) : Option FsState := ops.foldlM (fsStep kh fuel) st

def FsOp.journalBlocks : FsOp → Nat
  | .commit j => journalBlockNum kh j
  | _ => 0

def runBlocks (ops : List FsOp) : Nat := (ops.map (FsOp.journalBlocks kh)).sum

end Run

structure MetaMemory.Ok (m : MetaMemory) (L : Layout) : Prop where
  layout : layoutOf m.superBlock = L
  magic : RtfsSuperBlock.magic m.superBlock = rtfsMagicNumber
  tables : ∀ w ∈ m.natBlocks ++ m.sitBlocks ++ m.srmapBlocks,
    L.sitBlkaddr ≤ w.1.toNat ∧ w.1.toNat < L.blockCount

def FsOp.Ok (L : Layout) : FsOp → Prop
  | .mount _ => True
  | .commit _ => True
  | .writeBlock lpa _ => L.mainBlkaddr ≤ lpa.toNat ∧ lpa.toNat < L.blockCount
  | .unmount m => m.Ok L

def BlankFrom (L : Layout) (d : CommDev) (t : Nat) : Prop :=
  ∀ i, t ≤ i → i < L.journalSize → (headerAt (journalBlock d L i) 0).len = 0

structure CleanDisk (L : Layout) (d : CommDev) (t : Nat) : Prop where
  layout : L.Ok d
  scan : ScanFrom L (d.blocks 0) t
  short : t < L.journalSize
  blank : BlankFrom L d t

structure CleanMount (L : Layout) (s : Sys) (t : Nat) : Prop where
  layout : L.Ok s.dev
  pos : s.At L.metaJournalBlkaddr L.journalSize t
  short : t < L.journalSize
  blank : BlankFrom L s.dev t

section Invariant
variable {L : Layout} {kh : Khash} {fuel t : Nat}

theorem blockBufferWrite_ok {d : CommDev} {w : UInt32 × Block} (h : d.Holds w.1.toNat) :
    blockBufferWriteToLpaSync d w = d.withBlocks (Function.update d.blocks w.1.toNat w.2) := by
  have hw := writeLpa_ok h w.2
  unfold commRecoveryWriteLpa at hw
  rw [blockBufferWriteToLpaSync,hw]

theorem flushWrites_ok (ws : List (UInt32 × Block)) (d : CommDev) (h : ∀ w ∈ ws, d.Holds w.1.toNat) :
    ws.foldl blockBufferWriteToLpaSync d =
      d.withBlocks (Updates.applyAll d.blocks (lpaKeyed ws)) := by
  induction ws generalizing d with
  | nil => rfl
  | cons w ws ih =>
    rw [List.foldl_cons,blockBufferWrite_ok (h w List.mem_cons_self)]
    exact ih (d.withBlocks _) (fun v hv => h v (List.mem_cons_of_mem _ hv))

theorem clean_recovers {d : CommDev} (hd : CleanDisk L d t) (hf : 0 < fuel) :
    commSubmitFsRecoverFromDbRequest fuel d =
      some ((clearReclaim d).finished L (d.blocks 0) t,none) :=
  recover_idle hd.layout hd.scan (stopsAt_of_empty hd.layout (hd.blank t le_rfl hd.short)) hf

theorem journalBlock_congr {d d' : CommDev} (hL : L.Ok d)
    (h : ∀ lpa, L.metaJournalBlkaddr ≤ lpa → lpa < L.sitBlkaddr → d'.blocks lpa = d.blocks lpa) :
    SameJournal L d d' :=
  fun i => h _ (Ring.base_le_slot i) (hL.slot_lt_sit i)

theorem BlankFrom.congr {d d' : CommDev} (h : BlankFrom L d t) (hj : SameJournal L d d') :
    BlankFrom L d' t := by
  intro i hi hlt
  rw [hj i]
  exact h i hi hlt

theorem finished_clean {d : CommDev} (hd : CleanDisk L d t) (h16 : t < 65536) :
    CleanDisk L ((clearReclaim d).finished L (d.blocks 0) t) t := by
  have hmod : t % L.journalSize = t := Nat.mod_eq_of_lt hd.short
  refine ⟨hd.layout.congr rfl,?_,hd.short,hd.blank.congr (journalBlock_congr hd.layout ?_)⟩
  · have hs := scanFrom_setJournalOffsets (d.blocks 0) t hd.scan.1 hd.scan.2.1
    unfold CommDev.finished
    simp only [Function.update_self,hmod]
    rwa [Nat.mod_eq_of_lt h16] at hs
  · intro lpa hl _
    have hpos := hd.layout.super_journal
    unfold CommDev.finished
    exact Function.update_of_ne (by omega) _ _

theorem mount_clean {d : CommDev} (hd : CleanDisk L d t) (h16 : t < 65536) (hf : 0 < fuel)
    {mem : Nat → Block} {s : Sys} (h : rtfsInitialize fuel mem d = some s) : CleanMount L s t := by
  unfold rtfsInitialize at h
  rw [clean_recovers hd hf] at h
  cases h
  have hfin := finished_clean hd h16
  obtain ⟨hat,hb,hc⟩ := setup_at hfin.layout hfin.scan mem
  refine ⟨hfin.layout.congr hc,hat,hd.short,hfin.blank.congr (journalBlock_congr hfin.layout ?_)⟩
  intro lpa _ _
  rw [hb]

theorem commit_clean {s s' : Sys} (hs : CleanMount L s t) {j : JournalContainer}
    (h : commitJournal kh s j = some s') (hlt : t + journalBlockNum kh j < L.journalSize) :
    CleanMount L s' (t + journalBlockNum kh j) := by
  obtain ⟨tx,_,⟨w',hcol⟩,hok,_⟩ := commitJournal_spec hs.pos kh j
  rw [journalBlockNum_eq hcol] at hlt ⊢
  obtain ⟨s₁,h₁,hat,hw⟩ := hok (by omega)
  rw [h] at h₁
  cases h₁
  refine ⟨hs.layout.congr hw.blockCount,hat,hlt,fun i hi hlt => ?_⟩
  have hkeep : journalBlock s'.dev L i = journalBlock s.dev L i := by
    have hk := Wrote.kept hw (show tx.blockNum ≤ i - t by omega) (show i - t < L.journalSize by omega)
    rw [show t + (i - t) = i by omega] at hk
    exact hk
  rw [hkeep]
  exact hs.blank i (by omega) hlt

theorem write_clean {s : Sys} (hs : CleanMount L s t) {lpa : UInt32} {b : Block}
    (h : L.mainBlkaddr ≤ lpa.toNat ∧ lpa.toNat < L.blockCount) :
    CleanMount L ⟨s.proc,blockBufferWriteToLpaSync s.dev (lpa,b)⟩ t := by
  have hheld : s.dev.Holds lpa.toNat := hs.layout.held _ h.2
  rw [blockBufferWrite_ok (w := (lpa,b)) hheld]
  have hp := hs.pos
  refine ⟨hs.layout.congr rfl,⟨hp.pos,hp.held,hp.start,hp.fin,hp.writerStart,hp.writerEnd,hp.head,
    hp.tail,hp.avail,hp.total,hp.devStart,hp.devEnd,hp.devTail⟩,hs.short,
    hs.blank.congr (journalBlock_congr hs.layout ?_)⟩
  intro x _ hx
  have h1 := hs.layout.sit_nat
  have h2 := hs.layout.nat_main
  have h3 := h.1
  have hne : x ≠ lpa.toNat := by omega
  exact Function.update_of_ne hne _ _

theorem syncSuper_scan {d : CommDev}
    (ht : d.metaJournalTailLpa = journalSlot L t) (hlt : t < L.journalSize) (h16 : t < 65536)
    {sb : Block} (hl : layoutOf sb = L) (hm : RtfsSuperBlock.magic sb = rtfsMagicNumber) :
    ScanFrom L (syncSuperJournalPosFromDev d sb) t := by
  have hstart : journalStartLpaOf sb = L.metaJournalBlkaddr := by
    rw [← hl]
    rfl
  have hsize : journalSizeOf sb = L.journalSize := by
    rw [← hl]
    rfl
  have hin : journalSlot L t = L.metaJournalBlkaddr + t := by
    unfold journalSlot Ring.slot
    rw [Nat.mod_eq_of_lt hlt]
  have htail : journalBlkoff d.metaJournalTailLpa L.metaJournalBlkaddr
      (L.metaJournalBlkaddr + L.journalSize) = UInt16.ofNat t := by
    unfold journalBlkoff
    rw [ht,hin,if_neg (by omega),Nat.add_sub_cancel_left]
  have hword (o : Nat) (ho : o + 4 ≤ 120) : u32At (syncSuperJournalPosFromDev d sb) o = u32At sb o := by
    unfold syncSuperJournalPosFromDev RtfsSuperBlock.metaJournalStartBlkoffOff
      RtfsSuperBlock.metaJournalEndBlkoffOff
    simp only
    rw [u32At_setU16_ne _ _ _ _ (by omega),u32At_setU16_ne _ _ _ _ (by omega)]
  refine ⟨?_,?_,?_⟩
  · rw [← hl]
    exact layoutOf_congr (fun o ho => hword o (by omega))
  · rw [← hm]
    exact hword 0 (by decide)
  · have hself : RtfsSuperBlock.metaJournalEndBlkoff (syncSuperJournalPosFromDev d sb) =
        journalBlkoff d.metaJournalTailLpa (journalStartLpaOf sb)
          (journalStartLpaOf sb + journalSizeOf sb) :=
      Buf.getAs_setAs_self Codec.u16 _ _ _ (by decide)
    rw [hself,hstart,hsize,htail,UInt16.toNat_ofNat',Nat.mod_eq_of_lt h16]

def MetaMemory.tables (m : MetaMemory) : List (UInt32 × Block) :=
  m.natBlocks ++ m.sitBlocks ++ m.srmapBlocks

theorem flush_eq {s : Sys} (hL : L.Ok s.dev) {m : MetaMemory} (hm : m.Ok L) :
    flushForUnmount s m = s.dev.withBlocks (Function.update
      (Updates.applyAll s.dev.blocks (lpaKeyed m.tables)) 0
      (syncSuperJournalPosFromDev s.dev m.superBlock)) := by
  have hheld : ∀ w ∈ m.tables ++ [((0 : UInt32),syncSuperJournalPosFromDev s.dev m.superBlock)],
      s.dev.Holds w.1.toNat := by
    intro w hw
    rcases List.mem_append.mp hw with hw | hw
    · exact hL.held _ (hm.tables w hw).2
    · rw [List.mem_singleton.mp hw]
      exact hL.holds_zero
  have hlast : lpaKeyed [((0 : UInt32),syncSuperJournalPosFromDev s.dev m.superBlock)] =
      [(0,syncSuperJournalPosFromDev s.dev m.superBlock)] := rfl
  have hflush := flushWrites_ok _ _ hheld
  rw [lpaKeyed_append,Updates.applyAll_append,hlast,Updates.applyAll_cons,
    Updates.applyAll_nil] at hflush
  exact hflush

theorem flush_journal {s : Sys} (hL : L.Ok s.dev) {m : MetaMemory} (hm : m.Ok L) :
    SameJournal L s.dev (flushForUnmount s m) := by
  refine journalBlock_congr hL (fun lpa h1 h2 => ?_)
  have hpos := hL.super_journal
  rw [flush_eq hL hm,CommDev.withBlocks_blocks,Function.update_of_ne (by omega)]
  apply Updates.applyAll_of_notMem
  intro hmem
  obtain ⟨u,hu,rfl⟩ := List.mem_map.mp hmem
  obtain ⟨w,hw,rfl⟩ := List.mem_map.mp hu
  have hge : L.sitBlkaddr ≤ w.1.toNat := (hm.tables w hw).1
  exact absurd h2 (Nat.not_lt.mpr hge)

theorem flush_scan {s : Sys} (hL : L.Ok s.dev) {m : MetaMemory} (hm : m.Ok L)
    (ht : s.dev.metaJournalTailLpa = journalSlot L t) (hlt : t < L.journalSize) (h16 : t < 65536) :
    ScanFrom L ((flushForUnmount s m).blocks 0) t := by
  rw [flush_eq hL hm,CommDev.withBlocks_blocks,Function.update_self]
  exact syncSuper_scan ht hlt h16 hm.layout hm.magic

theorem unmount_clean {s : Sys} (hs : CleanMount L s t) (h16 : t < 65536) {m : MetaMemory}
    (hm : m.Ok L) : CleanDisk L (flushForUnmount s m) t := by
  refine ⟨hs.layout.congr ?_,flush_scan hs.layout hm hs.pos.devTail hs.short h16,hs.short,
    hs.blank.congr (flush_journal hs.layout hm)⟩
  rw [flush_eq hs.layout hm]
  rfl

def CleanState (L : Layout) (t : Nat) : FsState → Prop
  | .unmounted d => CleanDisk L d t
  | .mounted s => CleanMount L s t

theorem fsStep_clean (hf : 0 < fuel) {st st' : FsState} {op : FsOp} (hst : CleanState L t st)
    (hop : op.Ok L) (h : fsStep kh fuel st op = some st')
    (hsize : t + op.journalBlocks kh < L.journalSize) (h16 : t + op.journalBlocks kh < 65536) :
    CleanState L (t + op.journalBlocks kh) st' := by
  cases st with
  | unmounted d =>
    cases op with
    | mount mem =>
      obtain ⟨s,hs,rfl⟩ := Option.map_eq_some_iff.mp h
      exact mount_clean hst h16 hf hs
    | commit j => cases h
    | writeBlock lpa b => cases h
    | unmount m => cases h
  | mounted s =>
    cases op with
    | mount mem => cases h
    | commit j =>
      obtain ⟨s',hs',rfl⟩ := Option.map_eq_some_iff.mp h
      exact commit_clean hst hs' hsize
    | writeBlock lpa b =>
      cases h
      exact write_clean hst hop
    | unmount m =>
      cases h
      exact unmount_clean hst h16 hop

theorem fsRun_clean (hf : 0 < fuel) {st st' : FsState} {ops : List FsOp} (hst : CleanState L t st)
    (hops : ∀ op ∈ ops, op.Ok L) (h : fsRun kh fuel st ops = some st')
    (hsize : t + runBlocks kh ops < L.journalSize) (h16 : t + runBlocks kh ops < 65536) :
    CleanState L (t + runBlocks kh ops) st' := by
  induction ops generalizing st t with
  | nil =>
    cases h
    exact hst
  | cons op ops ih =>
    have hsum : runBlocks kh (op :: ops) = op.journalBlocks kh + runBlocks kh ops := rfl
    rw [hsum,← Nat.add_assoc] at hsize h16 ⊢
    rw [fsRun,List.foldlM_cons] at h
    obtain ⟨st₁,h₁,h₂⟩ := Option.bind_eq_some_iff.mp h
    refine ih (fsStep_clean hf hst (hops op List.mem_cons_self) h₁ ?_ ?_)
      (fun o ho => hops o (List.mem_cons_of_mem _ ho)) h₂ hsize h16
    · exact lt_of_le_of_lt (Nat.le_add_right _ _) hsize
    · exact lt_of_le_of_lt (Nat.le_add_right _ _) h16

end Invariant

theorem format_clean {options : RtfsMkfsOptions} {d d₀ : CommDev} {layout : RtfsMkfsLayout}
    (h : rtfsMkfsFormat options d = .ok (layout,d₀)) (hd : ∀ lpa < options.lpaCount, d.Holds lpa)
    (hmj : options.metaJournalSegmentCount.toNat < 4294967295) :
    CleanDisk (layoutOf (d₀.blocks 0)) d₀ 0 := by
  obtain ⟨f,hf,hform,hL⟩ := format_spec hd hmj (format_layout h)
  rw [h] at hf
  cases hf
  have hsuper : (d.withBlocks f).blocks 0 = initialSuper (effectiveOptions options) layout := hform.super
  have hblocks : layout.blockCount < 18446744073709551616 := by
    obtain ⟨hs,hsmall⟩ := format_layout_spec hd hmj (format_layout h)
    have hb := hs.blockCount
    omega
  rw [hsuper]
  have hpos := hL.journal_pos
  refine ⟨hL.congr rfl,?_,hpos,fun i _ hi => ?_⟩
  · rw [hsuper]
    refine ⟨rfl,magic_initialSuper _ _,?_⟩
    rw [endBlkoff_initialSuper]
    rfl
  · rw [layoutOf_initialSuper _ _ hblocks] at hi ⊢
    unfold journalBlock ringBlock Ring.slot
    rw [Nat.mod_eq_of_lt hi,CommDev.withBlocks_blocks,hform.journal i hi]
    rfl

theorem clean_unmount_recovery_idle (options : RtfsMkfsOptions) (d d₀ : CommDev)
    (layout : RtfsMkfsLayout) (h : rtfsMkfsFormat options d = .ok (layout,d₀))
    (hd : ∀ lpa < options.lpaCount, d.Holds lpa)
    (hmj : options.metaJournalSegmentCount.toNat < 4294967295) (kh : Khash) (fuel : Nat)
    (hf : 0 < fuel) (ops : List FsOp) (hops : ∀ op ∈ ops, op.Ok (layoutOf (d₀.blocks 0)))
    (d₁ : CommDev) (hrun : fsRun kh fuel (.unmounted d₀) ops = some (.unmounted d₁))
    (hsize : runBlocks kh ops < (layoutOf (d₀.blocks 0)).journalSize) (h16 : runBlocks kh ops < 65536) :
    ∃ d', commSubmitFsRecoverFromDbRequest fuel d₁ = some (d',none) ∧
      HoldsMeta (layoutOf (d₀.blocks 0)) d'.blocks ⟨d₁.blocks 0,d₁.blocks⟩ ∧
      d'.recoveredReclaim = [] := by
  have hst : CleanState (layoutOf (d₀.blocks 0)) 0 (.unmounted d₀) := format_clean h hd hmj
  have hclean := fsRun_clean hf hst hops hrun (by rwa [Nat.zero_add]) (by rwa [Nat.zero_add])
  rw [Nat.zero_add] at hclean
  have hd₁ : CleanDisk (layoutOf (d₀.blocks 0)) d₁ (runBlocks kh ops) := hclean
  have hsame : SameTables (layoutOf (d₀.blocks 0)) ⟨d₁.blocks 0,d₁.blocks⟩ ⟨d₁.blocks 0,d₁.blocks⟩ :=
    ⟨rfl,fun _ _ => rfl,fun _ _ => rfl⟩
  exact ⟨_,clean_recovers hd₁ hf,finished_holdsMeta hd₁.layout rfl hsame _,rfl⟩

section Small

theorem fsRun_commits (kh : Khash) (fuel : Nat) (s : Sys) (js : List JournalContainer)
    (rest : List FsOp) : fsRun kh fuel (.mounted s) (js.map .commit ++ rest) =
      (commitAll kh s js).bind (fun s' => fsRun kh fuel (.mounted s') rest) := by
  induction js generalizing s with
  | nil => rfl
  | cons j js ih =>
    rw [List.map_cons,List.cons_append,fsRun,List.foldlM_cons,commitAll,List.foldlM_cons]
    change ((commitJournal kh s j).map FsState.mounted).bind
      (fun st => fsRun kh fuel st (js.map .commit ++ rest)) = _
    cases hj : commitJournal kh s j with
    | none => rfl
    | some s' => exact ih s'

theorem smallDisk_clean : CleanDisk smallAreas smallDisk 0 ∧
    rtfsMkfsFormat smallOptions (smallDev fun _ => Buf.zero) = .ok (smallLayout,smallDisk) ∧
    layoutOf (smallDisk.blocks 0) = smallAreas := by
  obtain ⟨_,hfmt,_⟩ := smallDisk_format
  have hl := smallDisk_ok.2.1.1
  have hclean := format_clean hfmt (smallDev_holds _) (by decide)
  rw [hl] at hclean
  exact ⟨hclean,hfmt,hl⟩

def keptMemory : MetaMemory := ⟨smallDisk.blocks 0,[(1536,smallDisk.blocks 1536)],[],[]⟩

theorem keptMemory_ok : keptMemory.Ok smallAreas := by
  obtain ⟨hl,hm,_⟩ := smallDisk_ok.2.1
  refine ⟨hl,hm,fun w hw => ?_⟩
  have he : w = (1536,smallDisk.blocks 1536) := List.mem_singleton.mp hw
  rw [he]
  decide

def smallMount : Sys :=
  fileSystemManagerSetup (fun _ => Buf.zero)
    ((clearReclaim smallDisk).finished smallAreas (smallDisk.blocks 0) 0)

theorem smallMount_init (fuel : Nat) (hf : 0 < fuel) :
    rtfsInitialize fuel (fun _ => Buf.zero) smallDisk = some smallMount := by
  unfold rtfsInitialize
  rw [clean_recovers smallDisk_clean.1 hf]
  rfl

theorem smallMount_run (fuel : Nat) (hf : 0 < fuel) (rest : List FsOp) :
    fsRun inOrderKhash fuel (.unmounted smallDisk) (.mount (fun _ => Buf.zero) :: rest) =
      fsRun inOrderKhash fuel (.mounted smallMount) rest := by
  rw [fsRun,List.foldlM_cons]
  change (Option.map FsState.mounted (rtfsInitialize fuel (fun _ => Buf.zero) smallDisk)).bind _ = _
  rw [smallMount_init fuel hf]
  rfl

theorem smallMount_clean : CleanMount smallAreas smallMount 0 :=
  mount_clean smallDisk_clean.1 (by decide) (show 0 < 1 by decide) (smallMount_init 1 (by decide))

theorem clean_unmount_recovery_idle_small :
    ∃ d₁ d', fsRun inOrderKhash 1 (.unmounted smallDisk)
        [.mount (fun _ => Buf.zero),.commit (natUpdate 3 2561),.unmount keptMemory] =
        some (.unmounted d₁) ∧
      commSubmitFsRecoverFromDbRequest 1 d₁ = some (d',none) ∧
      HoldsMeta (layoutOf (smallDisk.blocks 0)) d'.blocks ⟨d₁.blocks 0,d₁.blocks⟩ ∧
      d'.recoveredReclaim = [] := by
  obtain ⟨_,hfmt,hl⟩ := smallDisk_clean
  have hone : ∀ j ∈ [natUpdate 3 2561], journalBlockNum inOrderKhash j < smallAreas.journalSize := by
    intro j hj
    rw [List.mem_singleton.mp hj,natUpdate_blockNum]
    decide
  obtain ⟨s,hs⟩ := commitAll_some smallMount_clean.pos hone
  have hrun : fsRun inOrderKhash 1 (.unmounted smallDisk)
      [.mount (fun _ => Buf.zero),.commit (natUpdate 3 2561),.unmount keptMemory] =
      some (.unmounted (flushForUnmount s keptMemory)) := by
    rw [smallMount_run 1 (by decide)]
    have hcommits := fsRun_commits inOrderKhash 1 smallMount [natUpdate 3 2561] [.unmount keptMemory]
    rw [hs] at hcommits
    exact hcommits
  have hblocks : runBlocks inOrderKhash [.mount (fun _ => Buf.zero),.commit (natUpdate 3 2561),
      .unmount keptMemory] = 1 := by
    change 0 + (journalBlockNum inOrderKhash (natUpdate 3 2561) + (0 + 0)) = 1
    rw [natUpdate_blockNum]
  have hops : ∀ op ∈ [FsOp.mount (fun _ => Buf.zero),.commit (natUpdate 3 2561),.unmount keptMemory],
      op.Ok (layoutOf (smallDisk.blocks 0)) := by
    intro op hop
    rw [hl]
    simp only [List.mem_cons,List.not_mem_nil,or_false] at hop
    rcases hop with rfl | rfl | rfl
    · trivial
    · trivial
    · exact keptMemory_ok
  obtain ⟨d',h1,h2,h3⟩ := clean_unmount_recovery_idle smallOptions (smallDev fun _ => Buf.zero) smallDisk
    smallLayout hfmt (smallDev_holds _) (by decide) inOrderKhash 1 (by decide) _ hops _ hrun
    (by rw [hblocks,hl]; decide) (by rw [hblocks]; decide)
  exact ⟨_,d',hrun,h1,h2,h3⟩

theorem freed_node_restored :
    ∃ d₁ d', fsRun inOrderKhash 513 (.unmounted smallDisk) (.mount (fun _ => Buf.zero) ::
        ((nodeUpdates 512).map .commit ++ [.unmount keptMemory])) = some (.unmounted d₁) ∧
      commSubmitFsRecoverFromDbRequest 513 d₁ = some (d',none) ∧
      natOf smallAreas d₁.blocks 2 = ⟨0,3⟩ ∧ natOf smallAreas d'.blocks 2 = ⟨2,3073⟩ ∧
      ¬ HoldsMeta smallAreas d'.blocks ⟨d₁.blocks 0,d₁.blocks⟩ := by
  have hshort : ∀ j ∈ nodeUpdates 512, journalBlockNum inOrderKhash j < smallAreas.journalSize := by
    intro j hj
    obtain ⟨i,_,rfl⟩ := List.mem_map.mp hj
    rw [natUpdate_blockNum]
    decide
  have hmount := smallMount_clean
  obtain ⟨s,hs⟩ := commitAll_some hmount.pos hshort
  obtain ⟨txs,hr⟩ := commitAll_ran hmount.pos hs
  have htot : txBlocks txs = smallAreas.journalSize :=
    (forall₂_blocks hr.encodes).trans (nodeUpdates_blockNum inOrderKhash 512)
  have hL : smallAreas.Ok s.dev := hmount.layout.congr hr.blockCount
  have hmem := keptMemory_ok
  have hjournal := flush_journal hL hmem
  have hL₁ : smallAreas.Ok (flushForUnmount s keptMemory) := hL.congr (by rw [flush_eq hL hmem]; rfl)
  have htail : s.dev.metaJournalTailLpa = journalSlot smallAreas 0 := by
    rw [hr.at'.devTail,htot,Nat.zero_add]
    exact Ring.slot_add_size 0
  have hscan : ScanFrom smallAreas ((flushForUnmount s keptMemory).blocks 0) 0 :=
    flush_scan hL hmem htail (by decide) (by decide)
  have hdisk : RanOnDisk smallAreas inOrderKhash (flushForUnmount s keptMemory)
      (flushForUnmount s keptMemory) 0 (nodeUpdates 512) txs :=
    ⟨hr.encodes,fun hle => (hr.tiled hle).congr (fun i _ => hjournal _),rfl,
      ⟨rfl,fun _ _ => rfl,fun _ _ => rfl⟩,rfl⟩
  have hlen : (nodeUpdates 512).length < 513 := by
    simp [nodeUpdates]
  obtain ⟨d',hrec,hd',_⟩ := ranOnDisk_recovered hL₁ hscan hdisk (nodeUpdates_loggable hL₁ (by decide))
    (le_of_eq htot) (Or.inl htot) hlen
  have hin : NidInRange smallAreas 2 := by
    unfold NidInRange
    decide
  have hfreed : natOf smallAreas (flushForUnmount s keptMemory).blocks 2 = ⟨0,3⟩ := by
    have hnat := smallDisk_ok.2.2.2 2 (by decide) (by decide)
    have hblk : (flushForUnmount s keptMemory).blocks 1536 = smallDisk.blocks 1536 := by
      have htab : lpaKeyed keptMemory.tables = [(1536,smallDisk.blocks 1536)] := rfl
      rw [flush_eq hL hmem,CommDev.withBlocks_blocks,Function.update_of_ne (by decide),htab,
        Updates.applyAll_cons,Updates.applyAll_nil,Function.update_self]
    unfold natOf at hnat ⊢
    change natEntryAt (smallDisk.blocks 1536) 2 = _ at hnat
    change natEntryAt ((flushForUnmount s keptMemory).blocks 1536) 2 = _
    rw [hblk,hnat]
    decide +kernel
  have hstale : natOf smallAreas d'.blocks 2 = ⟨2,3073⟩ := by
    have hlast : nodeUpdates 512 = nodeUpdates 511 ++ [natUpdate 2 (UInt32.ofNat (2562 + 511))] :=
      nodeUpdates_succ 511
    rw [hd'.holds.natOf_eq hin,hlast,List.foldl_append,List.foldl_cons,List.foldl_nil,
      applyContainer_natUpdate,natOf_putNat,Function.update_self]
    rfl
  refine ⟨_,d',?_,hrec,hfreed,hstale,fun hm => ?_⟩
  · rw [smallMount_run 513 (by decide),fsRun_commits,hs]
    rfl
  · have heq := hm.natOf_eq hin
    rw [hstale,hfreed] at heq
    exact absurd heq (by decide)

end Small

end Rtfs
