import Rtfs.Fs.Tables
import Rtfs.Journal.History

namespace Rtfs

section Crash
variable {L : Layout} {kh : Khash} {d₀ d : CommDev} {s : Sys} {p : Nat}
variable {js : List JournalContainer} {txs : List Tx}

structure RanOnDisk (L : Layout) (kh : Khash) (d₀ d : CommDev) (p : Nat) (js : List JournalContainer)
    (txs : List Tx) : Prop where
  encodes : List.Forall₂ (Encodes kh) js txs
  tiled : txBlocks txs ≤ L.journalSize → Tiled (journalBlock d L) p txs
  super : d.blocks 0 = d₀.blocks 0
  tables : SameTables L ⟨d₀.blocks 0,d₀.blocks⟩ ⟨d.blocks 0,d.blocks⟩
  blockCount : d.blockCount = d₀.blockCount

theorem Layout.Ok.slot_lt_nat (hL : L.Ok d) (i : Nat) :
    journalSlot L i < L.natBlkaddr + L.segmentCountNat * blockPerSegment := by
  have h1 := hL.slot_lt_sit i
  have h2 := hL.sit_nat
  omega

theorem CrashImage.journal (hL : L.Ok d) {d' : CommDev} (hd : CrashImage L d d') (i : Nat) :
    journalBlock d' L i = journalBlock d L i := hd.metadata _ (hL.slot_lt_nat i)

theorem ranOnDisk (hL : L.Ok d₀) (hs : ScanFrom L (d₀.blocks 0) p) {mem : Nat → Block}
    (hrun : commitAll kh (fileSystemManagerSetup mem d₀) js = some s) (hd : CrashImage L s.dev d) :
    ∃ txs, RanOnDisk L kh d₀ d p js txs ∧
      s.At L.metaJournalBlkaddr L.journalSize (p + txBlocks txs) ∧
      ∀ i, txBlocks txs ≤ i → i < L.journalSize →
        journalBlock d L (p + i) = journalBlock d₀ L (p + i) := by
  obtain ⟨hat,hb₀,hc₀⟩ := setup_at hL hs mem
  obtain ⟨txs,hr⟩ := commitAll_ran hat hrun
  have hLs : L.Ok s.dev := hL.congr (hr.blockCount.trans hc₀)
  have hj := fun i => CrashImage.journal hLs hd i
  have h1 := hL.super_journal
  have h2 := hL.journal_sit
  have h3 := hL.sit_nat
  have hout (lpa : Nat) (hlt : lpa < L.natBlkaddr + L.segmentCountNat * blockPerSegment)
      (hl : lpa < L.metaJournalBlkaddr ∨ L.metaJournalBlkaddr + L.journalSize ≤ lpa) :
      d.blocks lpa = d₀.blocks lpa := by
    rw [hd.metadata lpa hlt,hr.outside lpa hl,hb₀]
  have hzero : d.blocks 0 = d₀.blocks 0 := hout 0 (by omega) (Or.inl h1)
  refine ⟨txs,⟨hr.encodes,fun hfit => (hr.tiled hfit).congr (fun i _ => hj _),hzero,
    ⟨hzero,fun lpa hl => ?_,fun lpa hl => ?_⟩,hd.blockCount.trans (hr.blockCount.trans hc₀)⟩,
    hr.at',fun i hi hlt => ?_⟩
  · exact hout lpa hl.2 (Or.inr (by have := hl.1; omega))
  · have h4 := hl.1
    have h5 := hl.2
    exact hout lpa (by omega) (Or.inr (by omega))
  · rw [hj]
    have hk := hr.kept i hi hlt
    unfold ringBlock at hk
    rw [hb₀] at hk
    exact hk

structure Remounted (L : Layout) (d d' : CommDev) (m : MetaImage) (o : Nat) : Prop where
  holds : HoldsMeta L d'.blocks m
  super : d'.blocks 0 = setJournalOffsets m.superBlock (o % L.journalSize)
  journal : SameJournal L d d'
  blockCount : d'.blockCount = d.blockCount

theorem ranOnDisk_recovered (hL : L.Ok d₀) (hs : ScanFrom L (d₀.blocks 0) p)
    (hr : RanOnDisk L kh d₀ d p js txs) (hj : ∀ j ∈ js, j.Loggable L d₀)
    (hfit : txBlocks txs ≤ L.journalSize)
    (hend : txBlocks txs = L.journalSize ∨ StopsAt L d (p + txBlocks txs)) {fuel : Nat}
    (hf : js.length < fuel) :
    ∃ d', commSubmitFsRecoverFromDbRequest fuel d = some (d',none) ∧
      Remounted L d d' (js.foldl (applyContainer L kh) ⟨d₀.blocks 0,d₀.blocks⟩) (p + txBlocks txs) ∧
      d'.recoveredReclaim = historyReclaim L kh ⟨d.blocks 0,d.blocks⟩ js := by
  have hLd : L.Ok d := hL.congr hr.blockCount
  have hrec := history_records hr.encodes hj
  have hrec' : ∀ r ∈ txRecords txs, r.Ok L d := fun r h => (hrec r h).congr hr.blockCount
  have hstop : txBlocks txs = L.journalSize ∧ txs ≠ [] ∨ StopsAt L d (p + txBlocks txs) := by
    refine hend.imp_left (fun he => ⟨he,?_⟩)
    rintro rfl
    exact absurd he (Nat.ne_of_lt hL.journal_pos)
  obtain ⟨d',hrec,hd',hrecs⟩ := recover_spec hLd (by rw [hr.super]; exact hs) (hr.tiled hfit) hrec' hfit hstop
    (by rw [← hr.encodes.length_eq]; exact hf)
  have htab := replay_sameTables hrec' hr.tables
  rw [← replay_history L hr.encodes,← txsReclaim_history L hr.encodes]
  refine ⟨_,hrec,⟨finished_holdsMeta hL hd'.blocks htab _,?_,?_,hd'.blockCount⟩,hrecs⟩
  · rw [← htab.super]
    unfold CommDev.finished
    simp only [Function.update_self]
  · intro i
    have hpos : journalSlot L i ≠ 0 :=
      Nat.ne_of_gt (lt_of_lt_of_le hL.super_journal (Ring.base_le_slot i))
    have hsame := replay_sameJournal (m := ⟨d.blocks 0,d.blocks⟩) hLd rfl hrec' hd'.blocks i
    unfold journalBlock ringBlock CommDev.finished
    exact (Function.update_of_ne hpos _ _).trans hsame

end Crash

theorem history_remounted {L : Layout} {kh : Khash} {d₀ : CommDev} (hL : L.Ok d₀) {p : Nat}
    (hs : ScanFrom L (d₀.blocks 0) p) {mem : Nat → Block} {js : List JournalContainer}
    (hj : ∀ j ∈ js, j.Loggable L d₀) {s : Sys}
    (hrun : commitAll kh (fileSystemManagerSetup mem d₀) js = some s) {d : CommDev}
    (hd : CrashImage L s.dev d) (hfit : historyBlockNum kh js ≤ L.journalSize)
    (hend : historyBlockNum kh js = L.journalSize ∨
      (headerAt (journalBlock d₀ L (p + historyBlockNum kh js)) 0).len = 0)
    {fuel : Nat} (hf : js.length < fuel) :
    ∃ d', commSubmitFsRecoverFromDbRequest fuel d = some (d',none) ∧
      Remounted L d d' (js.foldl (applyContainer L kh) ⟨d₀.blocks 0,d₀.blocks⟩)
        (p + historyBlockNum kh js) ∧
      d'.recoveredReclaim = historyReclaim L kh ⟨d.blocks 0,d.blocks⟩ js := by
  obtain ⟨txs,hr,_,hkept⟩ := ranOnDisk hL hs hrun hd
  rw [← forall₂_blocks hr.encodes] at hfit hend ⊢
  have hstop : txBlocks txs = L.journalSize ∨ StopsAt L d (p + txBlocks txs) := by
    rcases Nat.lt_or_ge (txBlocks txs) L.journalSize with hlt | hge
    · right
      apply stopsAt_of_empty (hL.congr hr.blockCount)
      rw [hkept _ le_rfl hlt]
      rcases hend with he | hz
      · exact absurd he (Nat.ne_of_lt hlt)
      · exact hz
    · exact Or.inl (Nat.le_antisymm hfit hge)
  exact ranOnDisk_recovered hL hs hr hj hfit hstop hf

theorem committed_history_recovered (L : Layout) (kh : Khash) (d₀ : CommDev) (hL : L.Ok d₀) (p : Nat)
    (hs : ScanFrom L (d₀.blocks 0) p) (mem : Nat → Block) (js : List JournalContainer)
    (hj : ∀ j ∈ js, j.Loggable L d₀) (s : Sys)
    (hrun : commitAll kh (fileSystemManagerSetup mem d₀) js = some s) (d : CommDev)
    (hd : CrashImage L s.dev d) (hfit : historyBlockNum kh js ≤ L.journalSize)
    (hend : historyBlockNum kh js = L.journalSize ∨
      (headerAt (journalBlock d₀ L (p + historyBlockNum kh js)) 0).len = 0)
    (fuel : Nat) (hf : js.length < fuel) :
    ∃ d', commSubmitFsRecoverFromDbRequest fuel d = some (d',none) ∧
      HoldsMeta L d'.blocks (js.foldl (applyContainer L kh) ⟨d₀.blocks 0,d₀.blocks⟩) := by
  obtain ⟨d',hrec,hd',_⟩ := history_remounted hL hs hj hrun hd hfit hend hf
  exact ⟨d',hrec,hd'.holds⟩

section Lap
variable {kh : Khash} {base size : Nat}

theorem commitAll_some {s : Sys} {t : Nat} (hs : s.At base size t) {js : List JournalContainer}
    (hj : ∀ j ∈ js, journalBlockNum kh j < size) : ∃ s', commitAll kh s js = some s' := by
  induction js generalizing s t with
  | nil => exact ⟨s,rfl⟩
  | cons j js ih =>
    obtain ⟨tx,_,⟨w',hcol⟩,hok,_⟩ := commitJournal_spec hs kh j
    obtain ⟨s₁,h₁,hs₁,_⟩ := hok (by rw [← journalBlockNum_eq hcol]; exact hj j List.mem_cons_self)
    obtain ⟨s',h'⟩ := ih hs₁ (fun j h => hj j (List.mem_cons_of_mem _ h))
    refine ⟨s',?_⟩
    rw [commitAll,List.foldlM_cons,h₁]
    exact h'

theorem Tiled.overwrite {d d' : CommDev} {t : Nat} {tx tx' : Tx} {txs : List Tx}
    (ht : Tiled (ringBlock d base size) t (tx :: txs)) (hfit : txBlocks (tx :: txs) ≤ size)
    (hn : tx'.blockNum = tx.blockNum) {o : Nat}
    (hslot : ∀ i, Ring.slot base size (o + i) = Ring.slot base size (t + i))
    (hw : d.Wrote d' base size o tx') : Tiled (ringBlock d' base size) t (tx' :: txs) := by
  rw [txBlocks_cons] at hfit
  constructor
  · refine hw.image.congr (fun i _ => ?_)
    unfold ringBlock
    rw [hslot]
  · rw [hn]
    refine ht.2.congr (fun i hi => ?_)
    apply hw.outside
    intro k hk he
    rw [hslot,Nat.add_assoc] at he
    have heq := (Ring.slot_eq_iff (show k < size by omega) (by omega) le_rfl t).mp he
    omega

theorem commitAll_append (kh : Khash) (s : Sys) (js ks : List JournalContainer) :
    commitAll kh s (js ++ ks) = (commitAll kh s js).bind (fun s' => commitAll kh s' ks) :=
  List.foldlM_append ..

theorem CrashImage.refl (L : Layout) (d : CommDev) : CrashImage L d d := ⟨rfl,fun _ _ => rfl⟩

theorem lap_overwrites {L : Layout} {d₀ : CommDev} (hL : L.Ok d₀) {p : Nat}
    (hs : ScanFrom L (d₀.blocks 0) p) (mem : Nat → Block) {j₀ j' : JournalContainer}
    {js : List JournalContainer} (hlap : historyBlockNum kh (j₀ :: js) = L.journalSize)
    (hn : journalBlockNum kh j' = journalBlockNum kh j₀)
    (hlt : ∀ j ∈ j₀ :: js, journalBlockNum kh j < L.journalSize) :
    ∃ s txs, commitAll kh (fileSystemManagerSetup mem d₀) (j₀ :: js ++ [j']) = some s ∧
      RanOnDisk L kh d₀ s.dev p (j' :: js) txs ∧ txBlocks txs = L.journalSize := by
  obtain ⟨hat,hb₀,hc₀⟩ := setup_at hL hs mem
  obtain ⟨s₁,h₁⟩ := commitAll_some hat hlt
  obtain ⟨txs,hr⟩ := commitAll_ran hat h₁
  have htot : txBlocks txs = L.journalSize := (forall₂_blocks hr.encodes).trans hlap
  have hat₁ := hr.at'
  rw [htot] at hat₁
  obtain ⟨tx',hcar,⟨w',hcol⟩,hok,_⟩ := commitJournal_spec hat₁ kh j'
  have hn' : tx'.blockNum = journalBlockNum kh j₀ := (journalBlockNum_eq hcol).symm.trans hn
  obtain ⟨s₂,h₂,_,hw⟩ := hok (by rw [hn']; exact hlt j₀ List.mem_cons_self)
  have hrun : commitAll kh (fileSystemManagerSetup mem d₀) (j₀ :: js ++ [j']) = some s₂ := by
    rw [commitAll_append,h₁]
    change (commitJournal kh s₁ j').bind some = _
    rw [h₂]
    rfl
  obtain ⟨_,hr₂,_⟩ := ranOnDisk hL hs hrun (CrashImage.refl L s₂.dev)
  have henc := hr.encodes
  have htile := hr.tiled (le_of_eq htot)
  cases txs with
  | nil => cases henc
  | cons tx txs =>
    obtain ⟨hj₀,hjs⟩ := List.forall₂_cons.mp henc
    obtain ⟨v,v',hcol₀⟩ := hj₀.2
    have hsame : tx'.blockNum = tx.blockNum := hn'.trans (journalBlockNum_eq hcol₀)
    have htot' : txBlocks (tx' :: txs) = L.journalSize := by
      rw [txBlocks_cons,hsame,← txBlocks_cons]
      exact htot
    refine ⟨s₂,tx' :: txs,hrun,⟨.cons ⟨hcar,_,w',hcol⟩ hjs,fun _ => ?_,hr₂.super,hr₂.tables,
      hr₂.blockCount⟩,htot'⟩
    refine htile.overwrite (le_of_eq htot) hsame (fun i => ?_) hw
    rw [Nat.add_right_comm,Ring.slot_add_size]

end Lap

def natUpdate (nid addr : UInt32) : JournalContainer := ⟨[],[⟨nid,⟨nid,addr⟩⟩],[],0⟩

section NatUpdate
variable (kh : Khash) (nid addr : UInt32)

theorem superOutput_nil : superJournalOutputVector kh [] = [] :=
  List.eq_nil_iff_forall_not_mem.mpr (fun _ he => absurd (superOutput_mem kh [] he) List.not_mem_nil)

theorem natUpdate_output :
    superJournalOutputVector kh (natUpdate nid addr).superBlockJournal = [] ∧
    natJournalOutputVector (natUpdate nid addr).natJournal = [⟨nid,⟨nid,addr⟩⟩] ∧
    sitJournalOutputVector (natUpdate nid addr).sitJournal = [] :=
  ⟨superOutput_nil kh,List.perm_singleton.mp (treeOutput_perm NatJournalEntry.nid _),
    List.perm_nil.mp (treeOutput_perm SitJournalEntry.segID [])⟩

theorem natUpdate_blockNum : journalBlockNum kh (natUpdate nid addr) = 1 := by
  obtain ⟨h1,h2,h3⟩ := natUpdate_output kh nid addr
  apply blockNum_one
  rw [h1,h2,h3]
  simp

theorem applyContainer_natUpdate (L : Layout) (m : MetaImage) :
    applyContainer L kh m (natUpdate nid addr) = m.putNat L ⟨nid,⟨nid,addr⟩⟩ := by
  obtain ⟨h1,h2,h3⟩ := natUpdate_output kh nid addr
  unfold applyContainer
  rw [h1,h2,h3]
  rfl

theorem natUpdate_loggable {L : Layout} {d : CommDev} (hn : NidInRange L nid)
    (ha : d.Holds addr.toNat) : (natUpdate nid addr).Loggable L d := by
  refine ⟨fun e he => absurd he List.not_mem_nil,fun e he => ?_,fun e he => absurd he List.not_mem_nil⟩
  obtain rfl := List.mem_singleton.mp he
  exact ⟨hn,ha⟩

end NatUpdate

section Small

theorem smallDisk_ok : smallAreas.Ok smallDisk ∧ ScanFrom smallAreas (smallDisk.blocks 0) 0 ∧
    (∀ i, journalBlock smallDisk smallAreas i = Buf.zero) ∧
    ∀ nid : UInt32, nid.toNat < 32768 → nid.toNat ≠ 1 →
      natOf smallAreas smallDisk.blocks nid = initialNatEntry smallLayout nid.toNat := by
  obtain ⟨f,hd,hf⟩ := smallDisk_formatted
  have hsuper : smallDisk.blocks 0 = smallSuper := by
    rw [hd]
    exact hf.super
  refine ⟨?_,?_,fun i => ?_,fun nid hlt hne => ?_⟩
  · rw [hd]
    exact smallAreas_ok f
  · rw [hsuper]
    refine ⟨layoutOf_smallSuper,magic_initialSuper smallOptions smallLayout,?_⟩
    unfold smallSuper
    rw [endBlkoff_initialSuper]
    rfl
  · rw [hd]
    exact hf.journal (i % 512) (Nat.mod_lt i (by decide))
  · rw [hd]
    have hdiv : nid.toNat / natEntryPerBlock < 512 :=
      Nat.div_lt_of_lt_mul (lt_of_lt_of_le hlt (by decide))
    have hblk := hf.nats (nid.toNat / natEntryPerBlock) hdiv
    unfold natOf
    change natEntryAt (f (1536 + nid.toNat / natEntryPerBlock)) _ = _
    change f (1536 + nid.toNat / natEntryPerBlock) = _ at hblk
    rw [hblk,initialNat_entry,if_neg]
    exact hne

theorem natUpdate_small {d : CommDev} (hL : smallAreas.Ok d) {nid addr : UInt32}
    (hn : nid.toNat < 32768) (ha : addr.toNat < 32768) :
    (natUpdate nid addr).Loggable smallAreas d := by
  refine natUpdate_loggable nid addr ?_ (hL.held _ ha)
  exact Nat.div_lt_of_lt_mul (lt_of_lt_of_le hn (by decide))

def nodeUpdates (n : Nat) : List JournalContainer :=
  (List.range n).map (fun i => natUpdate 2 (UInt32.ofNat (2562 + i)))

theorem nodeUpdates_succ (n : Nat) :
    nodeUpdates (n + 1) = nodeUpdates n ++ [natUpdate 2 (UInt32.ofNat (2562 + n))] := by
  simp [nodeUpdates,List.range_succ]

theorem nodeUpdates_blockNum (kh : Khash) (n : Nat) : historyBlockNum kh (nodeUpdates n) = n := by
  unfold historyBlockNum nodeUpdates
  rw [List.map_map]
  have hone : (journalBlockNum kh ∘ fun i => natUpdate 2 (UInt32.ofNat (2562 + i))) = fun _ => 1 := by
    funext i
    exact natUpdate_blockNum kh 2 _
  rw [hone]
  simp

theorem nodeUpdates_natOf (L : Layout) (kh : Khash) (n : Nat) (m : MetaImage) {nid : UInt32}
    (h : nid ≠ 2) : natOf L ((nodeUpdates n).foldl (applyContainer L kh) m).blocks nid =
      natOf L m.blocks nid := by
  induction n with
  | zero => rfl
  | succ n ih =>
    rw [nodeUpdates_succ,List.foldl_append,List.foldl_cons,List.foldl_nil,applyContainer_natUpdate,natOf_putNat,
      Function.update_of_ne h,ih]

theorem nodeUpdates_loggable {d : CommDev} (hL : smallAreas.Ok d) {n : Nat} (hn : n ≤ 1024) :
    ∀ j ∈ nodeUpdates n, j.Loggable smallAreas d := by
  intro j hj
  obtain ⟨i,hi,rfl⟩ := List.mem_map.mp hj
  rw [List.mem_range] at hi
  refine natUpdate_small hL (by decide) ?_
  rw [UInt32.toNat_ofNat']
  omega

theorem HoldsMeta.natOf_eq {L : Layout} {f : Nat → Block} {m : MetaImage} (h : HoldsMeta L f m)
    {nid : UInt32} (hn : NidInRange L nid) : natOf L f nid = natOf L m.blocks nid := by
  have hin : L.InNatArea (L.natLpa nid) := ⟨Nat.le_add_right _ _,Nat.add_lt_add_left hn _⟩
  unfold natOf
  rw [h.nats _ hin]

theorem historyBlockNum_one {kh : Khash} {js : List JournalContainer}
    (h : ∀ j ∈ js, journalBlockNum kh j = 1) : historyBlockNum kh js = js.length := by
  unfold historyBlockNum
  rw [List.map_congr_left h,List.map_const',List.sum_replicate,smul_eq_mul,mul_one]

theorem small_history_crashed (kh : Khash) (js : List JournalContainer)
    (hone : ∀ j ∈ js, journalBlockNum kh j = 1) (hlen : js.length ≤ 512)
    (hlog : ∀ j ∈ js, j.Loggable smallAreas smallDisk) :
    ∃ s, commitAll kh (fileSystemManagerSetup (fun _ => Buf.zero) smallDisk) js = some s ∧
      ∀ d, CrashImage smallAreas s.dev d → smallAreas.Ok d ∧
        ∃ d', commSubmitFsRecoverFromDbRequest (js.length + 1) d = some (d',none) ∧
          Remounted smallAreas d d' (js.foldl (applyContainer smallAreas kh)
            ⟨smallDisk.blocks 0,smallDisk.blocks⟩) js.length ∧
          d'.recoveredReclaim = historyReclaim smallAreas kh ⟨d.blocks 0,d.blocks⟩ js := by
  obtain ⟨hL,hs,hz,_⟩ := smallDisk_ok
  have hshort : ∀ j ∈ js, journalBlockNum kh j < smallAreas.journalSize := by
    intro j hj
    rw [hone j hj]
    decide
  obtain ⟨s,hrun⟩ := commitAll_some (setup_at hL hs fun _ => Buf.zero).1 hshort
  have hnum := historyBlockNum_one hone
  refine ⟨s,hrun,fun d hd => ?_⟩
  obtain ⟨d',hrec,hd',hrecs⟩ := history_remounted hL hs hlog hrun hd
    (by rw [hnum]; exact hlen) (Or.inr (by rw [hz]; rfl)) (Nat.lt_succ_self js.length)
  rw [hnum,Nat.zero_add] at hd'
  obtain ⟨_,hran,_⟩ := ranOnDisk hL hs hrun hd
  exact ⟨hL.congr hran.blockCount,d',hrec,hd',hrecs⟩

theorem small_history_remounted {kh : Khash} {js : List JournalContainer}
    (hone : ∀ j ∈ js, journalBlockNum kh j = 1) (hlen : js.length ≤ 512)
    (hlog : ∀ j ∈ js, j.Loggable smallAreas smallDisk) :
    ∃ s d', commitAll kh (fileSystemManagerSetup (fun _ => Buf.zero) smallDisk) js = some s ∧
      commSubmitFsRecoverFromDbRequest (js.length + 1) s.dev = some (d',none) ∧
      Remounted smallAreas s.dev d' (js.foldl (applyContainer smallAreas kh)
        ⟨smallDisk.blocks 0,smallDisk.blocks⟩) js.length ∧ smallAreas.Ok s.dev := by
  obtain ⟨s,hrun,hcrash⟩ := small_history_crashed kh js hone hlen hlog
  obtain ⟨hL,d',hrec,hd',_⟩ := hcrash s.dev (CrashImage.refl _ _)
  exact ⟨s,d',hrun,hrec,hd',hL⟩

theorem committed_history_recovered_small :
    ∃ s d', commitAll inOrderKhash (fileSystemManagerSetup (fun _ => Buf.zero) smallDisk)
        [natUpdate 3 2561] = some s ∧
      commSubmitFsRecoverFromDbRequest 2 s.dev = some (d',none) ∧
      HoldsMeta smallAreas d'.blocks ([natUpdate 3 2561].foldl (applyContainer smallAreas inOrderKhash)
        ⟨smallDisk.blocks 0,smallDisk.blocks⟩) := by
  obtain ⟨hL,hs,hz,_⟩ := smallDisk_ok
  have hone : historyBlockNum inOrderKhash [natUpdate 3 2561] = 1 :=
    congrArg (· + 0) (natUpdate_blockNum inOrderKhash 3 2561)
  have hshort : ∀ j ∈ [natUpdate 3 2561], journalBlockNum inOrderKhash j < smallAreas.journalSize := by
    intro j hj
    rw [List.mem_singleton.mp hj,natUpdate_blockNum]
    decide
  obtain ⟨s,hrun⟩ := commitAll_some (setup_at hL hs fun _ => Buf.zero).1 hshort
  obtain ⟨d',hrec,hd'⟩ := committed_history_recovered smallAreas inOrderKhash smallDisk hL 0 hs
    (fun _ => Buf.zero) [natUpdate 3 2561] (by
      intro j hj
      rw [List.mem_singleton.mp hj]
      exact natUpdate_small hL (by decide) (by decide)) s hrun s.dev (CrashImage.refl _ _)
    (by rw [hone]; decide) (Or.inr (by rw [hz]; rfl)) 2 (by decide)
  exact ⟨s,d',hrun,hrec,hd'⟩

theorem first_committed_update_lost :
    ∃ s d', commitAll inOrderKhash (fileSystemManagerSetup (fun _ => Buf.zero) smallDisk)
        (natUpdate 3 2561 :: nodeUpdates 512) = some s ∧
      (∀ j ∈ natUpdate 3 2561 :: nodeUpdates 512, j.Loggable smallAreas smallDisk) ∧
      commSubmitFsRecoverFromDbRequest 513 s.dev = some (d',none) ∧
      natOf smallAreas d'.blocks 3 = ⟨0,4⟩ ∧
      ¬ HoldsMeta smallAreas d'.blocks ((natUpdate 3 2561 :: nodeUpdates 512).foldl
        (applyContainer smallAreas inOrderKhash) ⟨smallDisk.blocks 0,smallDisk.blocks⟩) := by
  obtain ⟨hL,hs,_,hnat⟩ := smallDisk_ok
  have hlap : historyBlockNum inOrderKhash (natUpdate 3 2561 :: nodeUpdates 511) =
      smallAreas.journalSize := by
    change journalBlockNum inOrderKhash (natUpdate 3 2561) +
      historyBlockNum inOrderKhash (nodeUpdates 511) = _
    rw [natUpdate_blockNum,nodeUpdates_blockNum]
    rfl
  have hone : ∀ j ∈ natUpdate 3 2561 :: nodeUpdates 511,
      journalBlockNum inOrderKhash j < smallAreas.journalSize := by
    intro j hj
    rcases List.mem_cons.mp hj with rfl | hj
    · rw [natUpdate_blockNum]
      decide
    · obtain ⟨i,_,rfl⟩ := List.mem_map.mp hj
      rw [natUpdate_blockNum]
      decide
  have hlog : ∀ n ≤ 1024, ∀ j ∈ natUpdate 3 2561 :: nodeUpdates n,
      j.Loggable smallAreas smallDisk := by
    intro n hn j hj
    rcases List.mem_cons.mp hj with rfl | hj
    · exact natUpdate_small hL (by decide) (by decide)
    · exact nodeUpdates_loggable hL hn j hj
  have hsame : journalBlockNum inOrderKhash (natUpdate 2 (UInt32.ofNat (2562 + 511))) =
      journalBlockNum inOrderKhash (natUpdate 3 2561) := by
    rw [natUpdate_blockNum,natUpdate_blockNum]
  obtain ⟨s,txs,hrun,hr,htot⟩ := lap_overwrites hL hs (fun _ => Buf.zero) hlap hsame hone
  have hlog' : ∀ j ∈ natUpdate 2 (UInt32.ofNat (2562 + 511)) :: nodeUpdates 511,
      j.Loggable smallAreas smallDisk := by
    intro j hj
    rcases List.mem_cons.mp hj with rfl | hj
    · exact natUpdate_small hL (by decide) (by decide)
    · exact nodeUpdates_loggable hL (by decide) j hj
  obtain ⟨d',hrec,hd',_⟩ := ranOnDisk_recovered hL hs hr hlog' (le_of_eq htot) (Or.inl htot)
    (show _ < 513 by simp [nodeUpdates])
  have hin : NidInRange smallAreas 3 := by
    unfold NidInRange
    decide
  have hthree : natOf smallAreas d'.blocks 3 = ⟨0,4⟩ := by
    rw [hd'.holds.natOf_eq hin,List.foldl_cons,nodeUpdates_natOf _ _ _ _ (by decide),
      applyContainer_natUpdate,natOf_putNat,Function.update_of_ne (by decide),
      hnat 3 (by decide) (by decide)]
    decide +kernel
  refine ⟨s,d',?_,hlog 512 (by decide),hrec,hthree,fun hm => ?_⟩
  · have hlast : nodeUpdates 512 = nodeUpdates 511 ++ [natUpdate 2 (UInt32.ofNat (2562 + 511))] :=
      nodeUpdates_succ 511
    rw [hlast,← List.cons_append,hrun]
  · have hexp := hm.natOf_eq hin
    rw [hthree,List.foldl_cons,nodeUpdates_natOf _ _ _ _ (by decide),applyContainer_natUpdate,
      natOf_putNat,Function.update_self] at hexp
    exact absurd hexp (by decide)

end Small

end Rtfs
