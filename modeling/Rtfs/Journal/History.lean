import Rtfs.Comm.Recover
import Rtfs.Journal.Commit
import Rtfs.Journal.LastWriter

namespace Rtfs

def JournalWriter.SamePos (w v : JournalWriter) : Prop :=
  v.bufferTailIdx = w.bufferTailIdx ∧ v.bufferTailOff = w.bufferTailOff

section Count

theorem JournalWriter.SamePos.place {w v : JournalWriter} (h : w.SamePos v) (b b' : Block) (off : Nat) :
    (w.setIthBufferBlock b off).nextBlockIfFull.SamePos
      (v.setIthBufferBlock b' off).nextBlockIfFull := by
  have h1 := h.1
  unfold JournalWriter.SamePos JournalWriter.nextBlockIfFull JournalWriter.setIthBufferBlock
  simp only
  split
  · exact ⟨congrArg (· + 1) h1,rfl⟩
  · exact ⟨h1,rfl⟩

theorem JournalWriter.SamePos.next {w v : JournalWriter} (h : w.SamePos v) :
    w.nextBlockIfFull.SamePos v.nextBlockIfFull := by
  obtain ⟨h1,h2⟩ := h
  unfold JournalWriter.SamePos JournalWriter.nextBlockIfFull
  rw [h2]
  split
  · exact ⟨congrArg (· + 1) h1,rfl⟩
  · exact ⟨h1,h2⟩

theorem writeEntries_samePos {α : Type} (ty : JournalType) (c : Codec α) (fuel : Nat)
    (w v : JournalWriter) (rest : List α) {w' : JournalWriter}
    (h : writeEntries ty c fuel w rest = some w') (hp : w.SamePos v) :
    ∃ v', writeEntries ty c fuel v rest = some v' ∧ w'.SamePos v' := by
  induction fuel generalizing w v rest with
  | zero => cases h
  | succ fuel ih =>
    rw [writeEntries,outputToBuffer] at h ⊢
    simp only [hp.2]
    by_cases hz : rest.length = 0
    · rw [if_pos hz] at h
      rw [if_pos hz]
      cases h
      exact ⟨_,rfl,hp.next⟩
    · rw [if_neg hz] at h
      rw [if_neg hz]
      by_cases hn : genericCalculateWritableEntryNum (4096 - w.bufferTailOff) c.size rest.length = 0
      · simp only [if_pos hn] at h ⊢
        obtain ⟨b,hb,hw⟩ := Option.bind_eq_some_iff.mp h
        unfold fillBufferWithNop at hb ⊢
        split at hb
        · cases hb
        · rename_i hroom
          rw [if_neg hroom]
          cases hb
          exact ih _ _ _ hw (hp.place _ _ _)
      · simp only [if_neg hn] at h ⊢
        exact ih _ _ _ h (hp.place _ _ _)

theorem collect_samePos (kh : Khash) (w v : JournalWriter) (j : JournalContainer) {w' : JournalWriter}
    {n : Nat} (h : journalWriterCollectPendingJournalToWriteBuffer kh w j = some (w',n)) :
    ∃ v', journalWriterCollectPendingJournalToWriteBuffer kh v j = some (v',n) := by
  unfold journalWriterCollectPendingJournalToWriteBuffer at h
  obtain ⟨w₁,h₁,h⟩ := Option.bind_eq_some_iff.mp h
  obtain ⟨w₂,h₂,h⟩ := Option.bind_eq_some_iff.mp h
  obtain ⟨w₃,h₃,h⟩ := Option.bind_eq_some_iff.mp h
  obtain ⟨v₁,e₁,p₁⟩ := writeEntries_samePos _ _ _ _ { v with bufferTailIdx := 0,bufferTailOff := 0 } _
    h₁ ⟨rfl,rfl⟩
  obtain ⟨v₂,e₂,p₂⟩ := writeEntries_samePos _ _ _ _ v₁ _ h₂ p₁
  obtain ⟨v₃,e₃,p₃⟩ := writeEntries_samePos _ _ _ _ v₂ _ h₃ p₂
  have hn : n = 1 + v₃.bufferTailIdx := by
    cases h
    rw [p₃.1]
    rfl
  rw [hn]
  exact ⟨_,collect_eq kh v j e₁ e₂ e₃⟩

end Count

def journalBlockNum (kh : Khash) (j : JournalContainer) : Nat :=
  (journalWriterCollectPendingJournalToWriteBuffer kh ⟨0,0,fun _ => Buf.zero,0,0⟩ j).elim 0 Prod.snd

def historyBlockNum (kh : Khash) (js : List JournalContainer) : Nat :=
  (js.map (journalBlockNum kh)).sum

theorem journalBlockNum_eq {kh : Khash} {w w' : JournalWriter} {j : JournalContainer} {n : Nat}
    (h : journalWriterCollectPendingJournalToWriteBuffer kh w j = some (w',n)) :
    journalBlockNum kh j = n := by
  obtain ⟨v,hv⟩ := collect_samePos kh w ⟨0,0,fun _ => Buf.zero,0,0⟩ j h
  rw [journalBlockNum,hv]
  rfl

theorem blockNum_one {kh : Khash} {j : JournalContainer}
    (h : 16 + 8 * (superJournalOutputVector kh j.superBlockJournal).length +
      12 * (natJournalOutputVector j.natJournal).length +
      72 * (sitJournalOutputVector j.sitJournal).length ≤ 4096) : journalBlockNum kh j = 1 := by
  obtain ⟨v,hv⟩ := collect_small kh ⟨0,0,fun _ => Buf.zero,0,0⟩ j h
  exact journalBlockNum_eq hv

theorem forall₂_blocks {kh : Khash} {js : List JournalContainer} {txs : List Tx}
    (h : List.Forall₂ (Encodes kh) js txs) : txBlocks txs = historyBlockNum kh js := by
  induction h with
  | nil => rfl
  | cons hj _ ih =>
    obtain ⟨w,w',hc⟩ := hj.2
    rw [txBlocks_cons,ih,← journalBlockNum_eq hc]
    rfl

def applyContainer (L : Layout) (kh : Khash) (m : MetaImage) (j : JournalContainer) : MetaImage :=
  (sitJournalOutputVector j.sitJournal).foldl (MetaImage.putSit L)
    ((natJournalOutputVector j.natJournal).foldl (MetaImage.putNat L)
      ((superJournalOutputVector kh j.superBlockJournal).foldl MetaImage.putSuper m))

theorem replay_history (L : Layout) {kh : Khash} {js : List JournalContainer} {txs : List Tx}
    (h : List.Forall₂ (Encodes kh) js txs) (m : MetaImage) :
    MetaImage.replay L m (txRecords txs) = js.foldl (applyContainer L kh) m := by
  induction h generalizing m with
  | nil => rfl
  | @cons j tx js txs hj _ ih =>
    have hr : txRecords (tx :: txs) = tx.records ++ txRecords txs := rfl
    rw [hr,MetaImage.replay_append,replay_carries L m hj.1,ih]
    rfl

def historyReclaim (L : Layout) (kh : Khash) (m : MetaImage) : List JournalContainer → List ReclaimRecord
  | [] => []
  | j :: js => (natReclaim L m.blocks (natOf L m.blocks) (natJournalOutputVector j.natJournal)).toList ++
      historyReclaim L kh (applyContainer L kh m j) js

theorem txsReclaim_history (L : Layout) {kh : Khash} {js : List JournalContainer} {txs : List Tx}
    (h : List.Forall₂ (Encodes kh) js txs) (m : MetaImage) :
    txsReclaim L m txs = historyReclaim L kh m js := by
  induction h generalizing m with
  | nil => rfl
  | @cons j tx js txs hj _ ih =>
    rw [txsReclaim,historyReclaim,nats_of_carries hj.1,replay_carries L m hj.1,ih]
    rfl

theorem history_records {L : Layout} {d : CommDev} {kh : Khash} {js : List JournalContainer}
    {txs : List Tx} (h : List.Forall₂ (Encodes kh) js txs) (hj : ∀ j ∈ js, j.Loggable L d) :
    ∀ r ∈ txRecords txs, r.Ok L d := by
  induction h with
  | nil => exact fun r hr => absurd hr List.not_mem_nil
  | @cons j tx js txs hc _ ih =>
    intro r hr
    rcases List.mem_append.mp hr with hr | hr
    · exact (hj j List.mem_cons_self).records kh hc.1 r hr
    · exact ih (fun j h => hj j (List.mem_cons_of_mem _ h)) r hr

section Replayed
variable {L : Layout} {d : CommDev} {kh : Khash}

theorem applyContainer_replayed (hL : L.Ok d) (kh : Khash) {j : JournalContainer}
    (hj : j.Loggable L d) (m : MetaImage) : Replayed L kh j m (applyContainer L kh m j) :=
  folds_replayed hL kh hj m

theorem superField_history (hL : L.Ok d) {js : List JournalContainer} (hj : ∀ j ∈ js, j.Loggable L d)
    (m : MetaImage) (off : UInt32) (ha : 4 ∣ off.toNat) :
    u32At (js.foldl (applyContainer L kh) m).superBlock off.toNat =
      ((lastEntry SuperBlockJournalEntry.off off (js.flatMap JournalContainer.superBlockJournal)).map
        SuperBlockJournalEntry.newVal).getD (u32At m.superBlock off.toNat) := by
  induction js generalizing m with
  | nil => rfl
  | cons j js ih =>
    rw [List.foldl_cons,ih (fun j h => hj j (List.mem_cons_of_mem _ h)),List.flatMap_cons,
      lastEntry_append,(applyContainer_replayed hL kh (hj j List.mem_cons_self) m).super off ha,
      lastEntry_superOutput]
    cases lastEntry SuperBlockJournalEntry.off off (js.flatMap JournalContainer.superBlockJournal) with
    | none => rfl
    | some e => rfl

theorem natOf_history_kept (hL : L.Ok d) {js : List JournalContainer} (hj : ∀ j ∈ js, j.Loggable L d)
    (m : MetaImage) {nid : UInt32} (hn : ∀ j ∈ js, ∀ e ∈ j.natJournal, e.nid ≠ nid) :
    natOf L (js.foldl (applyContainer L kh) m).blocks nid = natOf L m.blocks nid := by
  induction js generalizing m with
  | nil => rfl
  | cons j js ih =>
    rw [List.foldl_cons,ih (fun j h => hj j (List.mem_cons_of_mem _ h)) _
        (fun j h => hn j (List.mem_cons_of_mem _ h)),
      (applyContainer_replayed hL kh (hj j List.mem_cons_self) m).nats nid,lastEntry_eq_none]
    · rfl
    · intro hk
      obtain ⟨e,he,hid⟩ := List.mem_map.mp hk
      exact hn j List.mem_cons_self e
        ((treeOutput_perm NatJournalEntry.nid j.natJournal).mem_iff.mp he) hid

theorem layoutOf_history {js : List JournalContainer} (hj : ∀ j ∈ js, j.Loggable L d) (m : MetaImage) :
    layoutOf (js.foldl (applyContainer L kh) m).superBlock = layoutOf m.superBlock := by
  induction js generalizing m with
  | nil => rfl
  | cons j js ih =>
    have hsup : ∀ e ∈ superJournalOutputVector kh j.superBlockJournal, e.Ok := fun e he =>
      ((hj j List.mem_cons_self).super e (superOutput_mem kh _ he)).1
    rw [List.foldl_cons,ih (fun j h => hj j (List.mem_cons_of_mem _ h)),applyContainer,foldSit_super,
      foldNat_super,foldSuper_eq]
    exact layoutOf_superAfter m.superBlock hsup

end Replayed

structure SameTables (L : Layout) (m m' : MetaImage) : Prop where
  super : m'.superBlock = m.superBlock
  nats : ∀ lpa, L.InNatArea lpa → m'.blocks lpa = m.blocks lpa
  sits : ∀ lpa, L.InSitArea lpa → m'.blocks lpa = m.blocks lpa

section Tables
variable {L : Layout} {d : CommDev}

theorem foldl_sameTables {α : Type} (put : MetaImage → α → MetaImage) (es : List α)
    (h : ∀ m m', SameTables L m m' → ∀ e ∈ es, SameTables L (put m e) (put m' e))
    {m m' : MetaImage} (hm : SameTables L m m') : SameTables L (es.foldl put m) (es.foldl put m') := by
  induction es generalizing m m' with
  | nil => exact hm
  | cons e es ih =>
    exact ih (fun m m' hm e he => h m m' hm e (List.mem_cons_of_mem _ he))
      (h m m' hm e List.mem_cons_self)

theorem SameTables.update {m m' : MetaImage} (h : SameTables L m m') {lpa : Nat}
    (hl : m'.blocks lpa = m.blocks lpa) (f : Block → Block) :
    SameTables L ⟨m.superBlock,Function.update m.blocks lpa (f (m.blocks lpa))⟩
      ⟨m'.superBlock,Function.update m'.blocks lpa (f (m'.blocks lpa))⟩ := by
  have hu (x : Nat) (hx : m'.blocks x = m.blocks x) :
      Function.update m'.blocks lpa (f (m'.blocks lpa)) x =
        Function.update m.blocks lpa (f (m.blocks lpa)) x := by
    rw [Function.update_apply,Function.update_apply,hl,hx]
  exact ⟨h.super,fun x hx => hu x (h.nats x hx),fun x hx => hu x (h.sits x hx)⟩

theorem apply_sameTables {r : JournalRecord} (hr : r.Ok L d) {m m' : MetaImage}
    (h : SameTables L m m') : SameTables L (m.apply L r) (m'.apply L r) := by
  cases r with
  | super es =>
    refine foldl_sameTables MetaImage.putSuper es (fun m m' hm e _ => ?_) h
    refine ⟨?_,hm.nats,hm.sits⟩
    unfold MetaImage.putSuper
    rw [hm.super]
  | nats es =>
    refine foldl_sameTables (MetaImage.putNat L) es (fun m m' hm e he => ?_) h
    refine hm.update (hm.nats _ ⟨Nat.le_add_right _ _,?_⟩)
      (fun b => setNatEntry b (e.nid.toNat % natEntryPerBlock) e.newValue)
    exact Nat.add_lt_add_left (hr e he).1 _
  | sits es =>
    refine foldl_sameTables (MetaImage.putSit L) es (fun m m' hm e he => ?_) h
    refine hm.update (hm.sits _ ⟨Nat.le_add_right _ _,?_⟩)
      (fun b => setSitEntry b (e.segID.toNat % sitEntryPerBlock) e.newValue)
    exact Nat.add_lt_add_left (hr e he) _

theorem replay_sameTables {rs : List JournalRecord} (hr : ∀ r ∈ rs, r.Ok L d) {m m' : MetaImage}
    (h : SameTables L m m') : SameTables L (m.replay L rs) (m'.replay L rs) :=
  foldl_sameTables (MetaImage.apply L) rs (fun _ _ hm r hrm => apply_sameTables (hr r hrm) hm) h

end Tables

structure HoldsMeta (L : Layout) (f : Nat → Block) (m : MetaImage) : Prop where
  super : ∀ i, i < RtfsSuperBlock.metaJournalStartBlkoffOff ∨ RtfsSuperBlock.freeSegmentCountOff ≤ i →
    (f 0).get i = m.superBlock.get i
  nats : ∀ lpa, L.InNatArea lpa → f lpa = m.blocks lpa
  sits : ∀ lpa, L.InSitArea lpa → f lpa = m.blocks lpa

structure CrashImage (L : Layout) (d d' : CommDev) : Prop where
  blockCount : d'.blockCount = d.blockCount
  metadata : ∀ lpa < L.natBlkaddr + L.segmentCountNat * blockPerSegment, d'.blocks lpa = d.blocks lpa

section Recovery
variable {L : Layout} {d : CommDev}

theorem get_setJournalOffsets (sb : Block) (off i : Nat)
    (hi : i < RtfsSuperBlock.metaJournalStartBlkoffOff ∨ RtfsSuperBlock.freeSegmentCountOff ≤ i) :
    (setJournalOffsets sb off).get i = sb.get i := by
  have hlen (v : UInt16) : (Codec.u16.encode v).length = 2 := Codec.u16.length_encode v
  unfold RtfsSuperBlock.metaJournalStartBlkoffOff RtfsSuperBlock.freeSegmentCountOff at hi
  unfold setJournalOffsets setU16 Buf.setAs
  rw [Buf.get_write_frame _ _ _ (by rw [hlen]; unfold RtfsSuperBlock.metaJournalEndBlkoffOff; omega),
    Buf.get_write_frame _ _ _ (by rw [hlen]; unfold RtfsSuperBlock.metaJournalStartBlkoffOff; omega)]

theorem Layout.Ok.nat_pos (hL : L.Ok d) {lpa : Nat} (h : L.InNatArea lpa) : lpa ≠ 0 := by
  have h1 := hL.super_journal
  have h2 := hL.journal_sit
  have h3 := hL.sit_nat
  have h4 := h.1
  omega

theorem Layout.Ok.sit_pos (hL : L.Ok d) {lpa : Nat} (h : L.InSitArea lpa) : lpa ≠ 0 := by
  have h1 := hL.super_journal
  have h2 := hL.journal_sit
  have h4 := h.1
  omega

theorem finished_holdsMeta (hL : L.Ok d) {d' : CommDev} {m m₀ : MetaImage} (hd : d'.blocks = m.blocks)
    (hm : SameTables L m₀ m) (o : Nat) :
    HoldsMeta L (d'.finished L m.superBlock o).blocks m₀ := by
  unfold CommDev.finished
  rw [hd]
  constructor
  · intro i hi
    simp only [Function.update_self]
    rw [get_setJournalOffsets _ _ _ hi,hm.super]
  · intro lpa hl
    simp only [Function.update_of_ne (hL.nat_pos hl)]
    exact hm.nats lpa hl
  · intro lpa hl
    simp only [Function.update_of_ne (hL.sit_pos hl)]
    exact hm.sits lpa hl

theorem setup_at (hL : L.Ok d) {p : Nat} (hs : ScanFrom L (d.blocks 0) p) (mem : Nat → Block) :
    (fileSystemManagerSetup mem d).At L.metaJournalBlkaddr L.journalSize p ∧
      (fileSystemManagerSetup mem d).dev.blocks = d.blocks ∧
      (fileSystemManagerSetup mem d).dev.blockCount = d.blockCount := by
  obtain ⟨hl,_,rfl⟩ := hs
  have hstart : journalStartLpaOf (d.blocks 0) = L.metaJournalBlkaddr := by
    rw [← hl]
    rfl
  have hsize : journalSizeOf (d.blocks 0) = L.journalSize := by
    rw [← hl]
    rfl
  have hpos := hL.journal_pos
  have hlt : journalSlot L (RtfsSuperBlock.metaJournalEndBlkoff (d.blocks 0)).toNat <
      L.metaJournalBlkaddr + L.journalSize := Ring.slot_lt hpos _
  unfold journalSlot Ring.slot at hlt
  unfold fileSystemManagerSetup syncDevJournalPosFromSuper
  simp only [hstart,hsize,if_neg (Nat.ne_of_gt hpos),if_neg (Nat.not_le.mpr hlt)]
  refine ⟨⟨hpos,fun lpa h1 h2 => ?_,rfl,rfl,rfl,rfl,rfl,rfl,?_,?_,rfl,rfl,rfl⟩,trivial,trivial⟩
  · exact (ringOk hL).addr lpa h1 h2
  · simp only [journalProcessorInit,Nat.add_sub_cancel_left]
  · simp only [journalProcessorInit,Nat.add_sub_cancel_left]

end Recovery

end Rtfs
