import Rtfs.Comm.Reclaim

namespace Rtfs

def txRecords (txs : List Tx) : List JournalRecord := txs.flatMap Tx.records

def txsReclaim (L : Layout) (m : MetaImage) : List Tx → List ReclaimRecord
  | [] => []
  | tx :: txs => (natReclaim L m.blocks (natOf L m.blocks)
      (tx.records.flatMap JournalRecord.natEntries)).toList ++ txsReclaim L (m.replay L tx.records) txs

section Frame
variable {L : Layout} {d : CommDev}

theorem Layout.Ok.natLpa_in (hL : L.Ok d) {e : NatJournalEntry} (he : e.Ok L d) :
    L.sitBlkaddr ≤ L.natLpa e.nid ∧ L.natLpa e.nid < L.mainBlkaddr := by
  have h1 := hL.sit_nat
  have h2 := hL.nat_main
  have h3 := he.1
  unfold Layout.natLpa
  generalize e.nid.toNat / natEntryPerBlock = i at *
  omega

theorem Layout.Ok.sitLpa_in (hL : L.Ok d) {e : SitJournalEntry} (he : e.Ok L) :
    L.sitBlkaddr ≤ L.sitLpa e.segID ∧ L.sitLpa e.segID < L.mainBlkaddr := by
  have h1 := hL.sit_nat
  have h2 := hL.nat_main
  unfold SitJournalEntry.Ok at he
  unfold Layout.sitLpa
  generalize e.segID.toNat / sitEntryPerBlock = i at *
  omega

structure SameFrame (L : Layout) (m m' : MetaImage) : Prop where
  layout : layoutOf m'.superBlock = layoutOf m.superBlock
  outside : ∀ lpa, lpa < L.sitBlkaddr ∨ L.mainBlkaddr ≤ lpa → m'.blocks lpa = m.blocks lpa

theorem SameFrame.refl (m : MetaImage) : SameFrame L m m := ⟨rfl,fun _ _ => rfl⟩

theorem SameFrame.trans {m m' m'' : MetaImage} (h : SameFrame L m m') (h' : SameFrame L m' m'') :
    SameFrame L m m'' :=
  ⟨h'.layout.trans h.layout,fun lpa hl => (h'.outside lpa hl).trans (h.outside lpa hl)⟩

theorem foldl_frame {α : Type} (put : MetaImage → α → MetaImage) (es : List α)
    (h : ∀ m, ∀ e ∈ es, SameFrame L m (put m e)) (m : MetaImage) :
    SameFrame L m (es.foldl put m) := by
  induction es generalizing m with
  | nil => exact .refl m
  | cons e es ih =>
    exact (h m e List.mem_cons_self).trans (ih (fun m e he => h m e (List.mem_cons_of_mem _ he)) _)

theorem putSuper_frame (m : MetaImage) {e : SuperBlockJournalEntry} (he : e.Ok) :
    SameFrame L m (m.putSuper e) := ⟨layoutOf_setU32 _ _ he.2,fun _ _ => rfl⟩

theorem putNat_frame (hL : L.Ok d) (m : MetaImage) {e : NatJournalEntry} (he : e.Ok L d) :
    SameFrame L m (m.putNat L e) := by
  refine ⟨rfl,fun lpa hl => Function.update_of_ne ?_ _ _⟩
  have hin := hL.natLpa_in he
  omega

theorem putSit_frame (hL : L.Ok d) (m : MetaImage) {e : SitJournalEntry} (he : e.Ok L) :
    SameFrame L m (m.putSit L e) := by
  refine ⟨rfl,fun lpa hl => Function.update_of_ne ?_ _ _⟩
  have hin := hL.sitLpa_in he
  omega

theorem apply_frame (hL : L.Ok d) (m : MetaImage) {r : JournalRecord} (hr : r.Ok L d) :
    SameFrame L m (m.apply L r) := by
  cases r with
  | super es => exact foldl_frame MetaImage.putSuper es (fun m e he => putSuper_frame m (hr e he)) m
  | nats es => exact foldl_frame (MetaImage.putNat L) es (fun m e he => putNat_frame hL m (hr e he)) m
  | sits es => exact foldl_frame (MetaImage.putSit L) es (fun m e he => putSit_frame hL m (hr e he)) m

theorem replay_frame (hL : L.Ok d) (m : MetaImage) {rs : List JournalRecord}
    (hr : ∀ r ∈ rs, r.Ok L d) : SameFrame L m (m.replay L rs) :=
  foldl_frame (MetaImage.apply L) rs (fun m _ h => apply_frame hL m (hr _ h)) m

end Frame

section SameSize
variable {L : Layout} {d d' : CommDev}

theorem CommDev.holds_congr (h : d'.blockCount = d.blockCount) (lpa : Nat) :
    d'.Holds lpa ↔ d.Holds lpa := by
  unfold CommDev.Holds
  rw [h]

theorem Layout.Ok.congr (hL : L.Ok d) (h : d'.blockCount = d.blockCount) : L.Ok d' :=
  ⟨hL.journal_pos,hL.super_journal,hL.journal_sit,hL.sit_nat,hL.nat_main,hL.main_end,
    fun lpa hl => (CommDev.holds_congr h lpa).mpr (hL.held lpa hl)⟩

theorem JournalRecord.Ok.congr {r : JournalRecord} (hr : r.Ok L d)
    (h : d'.blockCount = d.blockCount) : r.Ok L d' := by
  cases r with
  | super es => exact hr
  | nats es => exact fun e he => ⟨(hr e he).1,(CommDev.holds_congr h _).mpr (hr e he).2⟩
  | sits es => exact hr

end SameSize

def SameJournal (L : Layout) (d d' : CommDev) : Prop := ∀ i, journalBlock d' L i = journalBlock d L i

def StopsAt (L : Layout) (d : CommDev) (o : Nat) : Prop :=
  ∀ d' sb, d'.blockCount = d.blockCount → SameJournal L d d' → layoutOf sb = L →
    commRecoveryReplayOneTransaction d' sb (journalSlot L o) L.metaJournalBlkaddr
      (L.metaJournalBlkaddr + L.journalSize) = .uncommitted

section Loop
variable {L : Layout}

theorem SameJournal.trans {d d' d'' : CommDev} (h : SameJournal L d d') (h' : SameJournal L d' d'') :
    SameJournal L d d'' := fun i => (h' i).trans (h i)

theorem StopsAt.congr {d d' : CommDev} {o : Nat} (h : StopsAt L d o)
    (hb : d'.blockCount = d.blockCount) (hj : SameJournal L d d') : StopsAt L d' o :=
  fun d'' sb hb' hj' hsb => h d'' sb (hb'.trans hb) (hj.trans hj') hsb

theorem stopsAt_of_empty {d : CommDev} (hL : L.Ok d) {o : Nat}
    (hz : (headerAt (journalBlock d L o) 0).len = 0) : StopsAt L d o := by
  intro d' sb hb hj _
  apply replayOneTransaction_stopped (hL.congr hb)
  rw [hj o]
  exact hz

theorem replay_sameJournal {d d' : CommDev} (hL : L.Ok d) {m : MetaImage} (hm : m.blocks = d.blocks)
    {rs : List JournalRecord} (hr : ∀ r ∈ rs, r.Ok L d) (hd : d'.blocks = (m.replay L rs).blocks) :
    SameJournal L d d' := by
  intro i
  unfold journalBlock ringBlock
  rw [hd,(replay_frame hL m hr).outside,hm]
  exact Or.inl (lt_of_lt_of_le (Ring.slot_lt hL.journal_pos i) hL.journal_sit)

structure Recovered (L : Layout) (d d' : CommDev) (m : MetaImage) : Prop where
  blocks : d'.blocks = m.blocks
  blockCount : d'.blockCount = d.blockCount
  reclaim : d.recoveredReclaim <+: d'.recoveredReclaim

theorem replayOneTransaction_recovered {d : CommDev} (hL : L.Ok d) {sb : Block}
    (hsb : layoutOf sb = L) (tx : Tx) (o : Nat)
    (him : TxImage (fun i => journalBlock d L (o + i)) tx) (hn : tx.blockNum ≤ L.journalSize)
    (hr : ∀ r ∈ tx.records, r.Ok L d) :
    ∃ d', commRecoveryReplayOneTransaction d sb (journalSlot L o) L.metaJournalBlkaddr
        (L.metaJournalBlkaddr + L.journalSize) =
        .committed d' (journalSlot L (o + tx.blockNum))
          (MetaImage.replay L ⟨sb,d.blocks⟩ tx.records).superBlock ∧
      Recovered L d d' (MetaImage.replay L ⟨sb,d.blocks⟩ tx.records) ∧
      d'.recoveredReclaim = d.recoveredReclaim ++ txsReclaim L ⟨sb,d.blocks⟩ [tx] := by
  obtain ⟨s,hfold,hrep⟩ := replayOneTransaction_image hL hsb tx o him hn hr
  have hrecs := appendReclaimRecord_eq
    (d.withBlocks (MetaImage.replay L ⟨sb,d.blocks⟩ tx.records).blocks) s
  rw [replay_reclaim hL hsb hr hfold] at hrecs
  refine ⟨_,hrep,⟨by simp,by simp [CommDev.withBlocks],?_⟩,?_⟩
  · rw [hrecs]
    exact List.prefix_append _ _
  · rw [hrecs,txsReclaim,txsReclaim,List.append_nil]
    rfl

theorem journalSlot_eq_start {p k : Nat} (hk : 0 < k) (hle : k ≤ L.journalSize) :
    journalSlot L (p + k) = journalSlot L p ↔ k = L.journalSize := by
  constructor
  · intro he
    by_contra hne
    exact Ring.slot_inj (show p < p + k by omega) (by omega) he.symm
  · rintro rfl
    exact Ring.slot_add_size p

theorem recoverLoop_spec (p : Nat) (txs : List Tx) (d : CommDev) (sb : Block) (k fuel : Nat)
    (hL : L.Ok d) (hsb : layoutOf sb = L) (ht : Tiled (journalBlock d L) (p + k) txs)
    (hrec : ∀ r ∈ txRecords txs, r.Ok L d) (hfit : k + txBlocks txs ≤ L.journalSize)
    (hend : k + txBlocks txs = L.journalSize ∧ txs ≠ [] ∨ StopsAt L d (p + k + txBlocks txs))
    (hf : txs.length < fuel) :
    ∃ d', recoverLoop L.metaJournalBlkaddr (L.metaJournalBlkaddr + L.journalSize) (journalSlot L p)
        fuel d sb (journalSlot L (p + k)) = some (.ok ⟨d',
          (MetaImage.replay L ⟨sb,d.blocks⟩ (txRecords txs)).superBlock,
          journalSlot L (p + k + txBlocks txs)⟩) ∧
      Recovered L d d' (MetaImage.replay L ⟨sb,d.blocks⟩ (txRecords txs)) ∧
      d'.recoveredReclaim = d.recoveredReclaim ++ txsReclaim L ⟨sb,d.blocks⟩ txs := by
  induction txs generalizing d sb k fuel with
  | nil =>
    obtain ⟨fuel,rfl⟩ : ∃ n, fuel = n + 1 := ⟨fuel - 1,by simp at hf; omega⟩
    have hstop : StopsAt L d (p + k) := by
      rcases hend with ⟨_,hne⟩ | hs
      · exact absurd rfl hne
      · exact hs
    refine ⟨d,?_,⟨rfl,rfl,List.prefix_refl _⟩,(List.append_nil _).symm⟩
    rw [recoverLoop,hstop d sb rfl (fun _ => rfl) hsb]
    rfl
  | cons tx txs ih =>
    obtain ⟨fuel,rfl⟩ : ∃ n, fuel = n + 1 := ⟨fuel - 1,by simp at hf; omega⟩
    obtain ⟨him,htl⟩ := ht
    rw [txBlocks_cons] at hfit hend ⊢
    have hpos := tx.blockNum_pos
    have hsplit : txRecords (tx :: txs) = tx.records ++ txRecords txs := rfl
    rw [hsplit] at hrec ⊢
    have hr₁ : ∀ r ∈ tx.records, r.Ok L d := fun r h => hrec r (List.mem_append_left _ h)
    obtain ⟨d₁,hrep,hd₁,hrecs₁⟩ := replayOneTransaction_recovered hL hsb tx (p + k) him (by omega) hr₁
    have hsame : SameJournal L d d₁ := replay_sameJournal hL rfl hr₁ hd₁.blocks
    rw [MetaImage.replay_append]
    rw [recoverLoop,hrep]
    simp only
    by_cases hlast : k + tx.blockNum = L.journalSize
    · -- the ring is used up, so no transaction can follow
      have htxs : txs = [] := by
        cases txs with
        | nil => rfl
        | cons q qs =>
          have := q.blockNum_pos
          rw [txBlocks_cons] at hfit
          omega
      subst htxs
      rw [if_pos (by rw [Nat.add_assoc]; exact (journalSlot_eq_start (by omega) (by omega)).mpr hlast)]
      exact ⟨d₁,rfl,hd₁,hrecs₁⟩
    · rw [if_neg (by
        rw [Nat.add_assoc]
        exact fun he => hlast ((journalSlot_eq_start (by omega) (by omega)).mp he))]
      have hstop : k + tx.blockNum + txBlocks txs = L.journalSize ∧ txs ≠ [] ∨
          StopsAt L d₁ (p + (k + tx.blockNum) + txBlocks txs) := by
        rcases hend with ⟨he,_⟩ | hs
        · refine Or.inl ⟨by omega,?_⟩
          rintro rfl
          exact hlast (by simpa using he)
        · refine Or.inr (StopsAt.congr ?_ hd₁.blockCount hsame)
          rwa [show p + (k + tx.blockNum) + txBlocks txs = p + k + (tx.blockNum + txBlocks txs) by omega]
      have htl₁ : Tiled (journalBlock d₁ L) (p + (k + tx.blockNum)) txs := by
        rw [← Nat.add_assoc]
        exact htl.congr (fun i _ => hsame _)
      obtain ⟨d₂,hloop,hd₂,hrecs₂⟩ := ih d₁ (MetaImage.replay L ⟨sb,d.blocks⟩ tx.records).superBlock
        (k + tx.blockNum) fuel (hL.congr hd₁.blockCount)
        ((replay_frame hL _ hr₁).layout.trans hsb) htl₁
        (fun r h => (hrec r (List.mem_append_right _ h)).congr hd₁.blockCount) (by omega) hstop
        (by simpa using hf)
      rw [hd₁.blocks] at hloop hd₂ hrecs₂
      refine ⟨d₂,?_,⟨hd₂.blocks,hd₂.blockCount.trans hd₁.blockCount,hd₁.reclaim.trans hd₂.reclaim⟩,?_⟩
      · rw [show p + k + tx.blockNum = p + (k + tx.blockNum) by omega,hloop,
          show p + (k + tx.blockNum) + txBlocks txs = p + k + (tx.blockNum + txBlocks txs) by omega]
      · rw [hrecs₂,hrecs₁,List.append_assoc]
        simp only [txsReclaim,List.append_nil]

end Loop

def ScanFrom (L : Layout) (sb : Block) (p : Nat) : Prop :=
  layoutOf sb = L ∧ RtfsSuperBlock.magic sb = rtfsMagicNumber ∧
    (RtfsSuperBlock.metaJournalEndBlkoff sb).toNat = p

section Offsets
variable (sb : Block) (off : Nat)

theorem u32At_setJournalOffsets {o : Nat} (ho : o + 4 ≤ 120 ∨ 124 ≤ o) :
    u32At (setJournalOffsets sb off) o = u32At sb o := by
  unfold setJournalOffsets RtfsSuperBlock.metaJournalStartBlkoffOff
    RtfsSuperBlock.metaJournalEndBlkoffOff
  rw [u32At_setU16_ne _ _ _ _ (by omega),u32At_setU16_ne _ _ _ _ (by omega)]

theorem endBlkoff_setJournalOffsets :
    RtfsSuperBlock.metaJournalEndBlkoff (setJournalOffsets sb off) = UInt16.ofNat off :=
  Buf.getAs_setAs_self Codec.u16 _ _ _ (by decide)

theorem scanFrom_setJournalOffsets {L : Layout} (hl : layoutOf sb = L)
    (hm : RtfsSuperBlock.magic sb = rtfsMagicNumber) :
    ScanFrom L (setJournalOffsets sb off) (off % 65536) := by
  refine ⟨?_,?_,?_⟩
  · rw [← hl]
    exact layoutOf_congr (fun o ho => u32At_setJournalOffsets sb off (by omega))
  · rw [← hm]
    exact u32At_setJournalOffsets sb off (by omega)
  · rw [endBlkoff_setJournalOffsets,UInt16.toNat_ofNat']

end Offsets

def CommDev.finished (d : CommDev) (L : Layout) (sb : Block) (o : Nat) : CommDev :=
  ⟨d.blockCount,d.blockCount_le,
    Function.update d.blocks 0 (setJournalOffsets sb (o % L.journalSize)),
    L.metaJournalBlkaddr,L.metaJournalBlkaddr + L.journalSize,journalSlot L o,journalSlot L o,
    d.recoveredReclaim⟩

section Request
variable {L : Layout} {d : CommDev} {p : Nat}

theorem Layout.Ok.holds_zero (hL : L.Ok d) : d.Holds 0 := by
  apply hL.held
  have h1 := hL.super_journal
  have h2 := hL.journal_sit
  have h3 := hL.sit_nat
  have h4 := hL.nat_main
  have h5 := hL.main_end
  omega

theorem finishRecovery_spec {d' : CommDev} (hL : L.Ok d') (sb : Block) (o : Nat) :
    finishRecovery L.metaJournalBlkaddr L.journalSize ⟨d',sb,journalSlot L o⟩ =
      (d'.finished L sb o,none) := by
  have hz : d'.Holds (0 : UInt32).toNat := hL.holds_zero
  unfold finishRecovery
  simp only [writeLpa_ok hz]
  unfold journalSlot
  rw [Ring.slot_sub,Nat.mod_mod]
  rfl

theorem recover_of_loop (hL : L.Ok d) (hs : ScanFrom L (d.blocks 0) p) {fuel o : Nat}
    {d' : CommDev} {sb : Block} (hb : d'.blockCount = d.blockCount)
    (hloop : recoverLoop L.metaJournalBlkaddr (L.metaJournalBlkaddr + L.journalSize)
      (journalSlot L p) fuel (clearReclaim d) (d.blocks 0) (journalSlot L p) =
      some (.ok ⟨d',sb,journalSlot L o⟩)) :
    commSubmitFsRecoverFromDbRequest fuel d = some (d'.finished L sb o,none) := by
  obtain ⟨hl,hm,rfl⟩ := hs
  have hz : (clearReclaim d).Holds (0 : UInt32).toNat := hL.holds_zero
  have hstart : journalStartLpaOf (d.blocks 0) = L.metaJournalBlkaddr := by
    rw [← hl]
    rfl
  have hsize : journalSizeOf (d.blocks 0) = L.journalSize := by
    rw [← hl]
    rfl
  have hread : commRecoveryReadLpa (clearReclaim d) 0 = .ok (d.blocks 0) := readLpa_ok hz
  rw [commSubmitFsRecoverFromDbRequest,hread]
  simp only [hm,hstart,hsize]
  rw [if_neg (not_not.mpr rfl),if_neg (Nat.ne_of_gt hL.journal_pos)]
  unfold journalSlot Ring.slot at hloop
  rw [hloop]
  exact congrArg some (finishRecovery_spec (hL.congr hb) sb o)

theorem recover_spec (hL : L.Ok d) (hs : ScanFrom L (d.blocks 0) p) {txs : List Tx}
    (ht : Tiled (journalBlock d L) p txs) (hrec : ∀ r ∈ txRecords txs, r.Ok L d)
    (hfit : txBlocks txs ≤ L.journalSize)
    (hend : txBlocks txs = L.journalSize ∧ txs ≠ [] ∨ StopsAt L d (p + txBlocks txs))
    {fuel : Nat} (hf : txs.length < fuel) :
    ∃ d', commSubmitFsRecoverFromDbRequest fuel d = some (d'.finished L
        (MetaImage.replay L ⟨d.blocks 0,d.blocks⟩ (txRecords txs)).superBlock (p + txBlocks txs),none) ∧
      Recovered L (clearReclaim d) d' (MetaImage.replay L ⟨d.blocks 0,d.blocks⟩ (txRecords txs)) ∧
      d'.recoveredReclaim = txsReclaim L ⟨d.blocks 0,d.blocks⟩ txs := by
  have hL' : L.Ok (clearReclaim d) := hL.congr rfl
  obtain ⟨d',hloop,hd',hrecs⟩ := recoverLoop_spec p txs (clearReclaim d) (d.blocks 0) 0 fuel hL' hs.1 ht
    (fun r h => (hrec r h).congr rfl) (by omega) (by
      rcases hend with ⟨he,hne⟩ | hst
      · exact Or.inl ⟨by omega,hne⟩
      · exact Or.inr (hst.congr rfl (fun _ => rfl))) hf
  exact ⟨d',recover_of_loop hL hs hd'.blockCount hloop,hd',hrecs⟩

theorem recover_idle (hL : L.Ok d) (hs : ScanFrom L (d.blocks 0) p) (hst : StopsAt L d p)
    {fuel : Nat} (hf : 0 < fuel) :
    commSubmitFsRecoverFromDbRequest fuel d =
      some ((clearReclaim d).finished L (d.blocks 0) p,none) := by
  obtain ⟨fuel,rfl⟩ : ∃ n, fuel = n + 1 := ⟨fuel - 1,by omega⟩
  have hb : (clearReclaim d).blockCount = d.blockCount := rfl
  refine recover_of_loop hL hs hb ?_
  rw [recoverLoop,hst (clearReclaim d) (d.blocks 0) rfl (fun _ => rfl) hs.1]

end Request

end Rtfs
