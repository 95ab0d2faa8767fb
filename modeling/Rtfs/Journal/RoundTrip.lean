import Rtfs.Comm.Replay
import Rtfs.Fs.Mkfs
import Rtfs.Journal.OutputVector
import Rtfs.Journal.Processor

namespace Rtfs

structure JournalContainer.InRange (j : JournalContainer) (L : Layout) (d : CommDev) : Prop where
  super : ∀ e ∈ j.superBlockJournal, e.off.toNat + 4 ≤ 4096
  nats : ∀ e ∈ j.natJournal, e.Ok L d
  sits : ∀ e ∈ j.sitJournal, e.Ok L

abbrev Entries := List SuperBlockJournalEntry × List NatJournalEntry × List SitJournalEntry

def collectHandler : Handler Entries where
  super := fun s es => .ok (s.1 ++ es,s.2.1,s.2.2)
  nats := fun s es => .ok (s.1,s.2.1 ++ es,s.2.2)
  sits := fun s es => .ok (s.1,s.2.1,s.2.2 ++ es)

theorem foldlM_ok {σ α β : Type} (f : σ → α → Except Errno σ) (g : σ → List β → σ)
    (mk : List β → α) (hg : ∀ s es, f s (mk es) = .ok (g s es)) (hz : ∀ s, g s [] = s)
    (ha : ∀ s es fs, g (g s es) fs = g s (es ++ fs)) (chunks : List (List β)) (s : σ) :
    (chunks.map mk).foldlM f s = .ok (g s chunks.flatten) := by
  induction chunks generalizing s with
  | nil =>
    rw [List.flatten_nil,hz]
    rfl
  | cons es chunks ih =>
    rw [List.map_cons,List.foldlM_cons,hg]
    change (chunks.map mk).foldlM f (g s es) = _
    rw [ih,ha,List.flatten_cons]

theorem collect_records {tx : Tx} {ss : List SuperBlockJournalEntry} {ns : List NatJournalEntry}
    {cs : List SitJournalEntry} (h : tx.Carries ss ns cs) :
    tx.records.foldlM collectHandler.apply ([],[],[]) = .ok (ss,ns,cs) := by
  obtain ⟨sc,nc,cc,hr,rfl,rfl,rfl⟩ := h
  rw [hr,List.foldlM_append,List.foldlM_append,
    foldlM_ok _ (fun s es => (s.1 ++ es,s.2.1,s.2.2)) JournalRecord.super (fun _ _ => rfl)
      (fun s => by simp) (fun s es fs => by simp)]
  change ((nc.map JournalRecord.nats).foldlM collectHandler.apply _).bind _ = _
  rw [foldlM_ok _ (fun s es => (s.1,s.2.1 ++ es,s.2.2)) JournalRecord.nats (fun _ _ => rfl)
      (fun s => by simp) (fun s es fs => by simp)]
  change (cc.map JournalRecord.sits).foldlM collectHandler.apply _ = _
  rw [foldlM_ok _ (fun s es => (s.1,s.2.1,s.2.2 ++ es)) JournalRecord.sits (fun _ _ => rfl)
      (fun s => by simp) (fun s es fs => by simp)]
  simp

def superAfter (sb : Block) (es : List SuperBlockJournalEntry) : Block :=
  es.foldl (fun b e => setU32 b e.off.toNat e.newVal) sb

section Super
variable (d : CommDev)

theorem applySuperEntries_init (es : List SuperBlockJournalEntry) (sb : Block)
    (h : ∀ e ∈ es, e.off.toNat + 4 ≤ 4096) :
    commRecoveryApplySuperEntries (TxState.init sb) es = .ok (TxState.init (superAfter sb es)) := by
  induction es generalizing sb with
  | nil => rfl
  | cons e es ih =>
    rw [commRecoveryApplySuperEntries,List.foldlM_cons,applySuperEntry,
      if_neg (Nat.not_lt.mpr (h e List.mem_cons_self))]
    exact ih _ (fun e he => h e (List.mem_cons_of_mem _ he))

theorem superRecords_init (sc : List (List SuperBlockJournalEntry)) (sb : Block)
    (h : ∀ e ∈ sc.flatten, e.off.toNat + 4 ≤ 4096) :
    (sc.map JournalRecord.super).foldlM (recoveryHandler d).apply (TxState.init sb) =
      .ok (TxState.init (superAfter sb sc.flatten)) := by
  induction sc generalizing sb with
  | nil => rfl
  | cons es sc ih =>
    rw [List.flatten_cons] at h
    have hes := applySuperEntries_init es sb (fun e he => h e (List.mem_append_left _ he))
    rw [List.map_cons,List.foldlM_cons]
    change (commRecoveryApplySuperEntries (TxState.init sb) es).bind _ = _
    rw [hes]
    change (sc.map JournalRecord.super).foldlM (recoveryHandler d).apply
      (TxState.init (superAfter sb es)) = _
    rw [ih _ (fun e he => h e (List.mem_append_right _ he)),superAfter,superAfter,superAfter,
      List.flatten_cons,List.foldl_append]

end Super

theorem Layout.Ok.withBlocks {L : Layout} {d : CommDev} (h : L.Ok d) (f : Nat → Block) :
    L.Ok (d.withBlocks f) :=
  ⟨h.journal_pos,h.super_journal,h.journal_sit,h.sit_nat,h.nat_main,h.main_end,h.held⟩

theorem RingOk.withBlocks {d : CommDev} {base size : Nat} (h : RingOk d base size)
    (f : Nat → Block) : RingOk (d.withBlocks f) base size := ⟨h.pos,h.addr⟩

theorem replay_carried {d : CommDev} {L : Layout} (hL : L.Ok d) {tx : Tx} {sb : Block}
    {ss : List SuperBlockJournalEntry} {ns : List NatJournalEntry} {cs : List SitJournalEntry}
    (hc : tx.Carries ss ns cs) (hs : ∀ e ∈ ss, e.off.toNat + 4 ≤ 4096)
    (hl : layoutOf (superAfter sb ss) = L) (hn : ∀ e ∈ ns, e.Ok L d) (hcs : ∀ e ∈ cs, e.Ok L) :
    ∃ s, tx.records.foldlM (recoveryHandler d).apply (TxState.init sb) = .ok s ∧ s.Tracks d L := by
  obtain ⟨sc,nc,cc,hr,rfl,rfl,rfl⟩ := hc
  have hrest : ∀ r ∈ nc.map JournalRecord.nats ++ cc.map JournalRecord.sits, r.Ok L d := by
    intro r hr
    rcases List.mem_append.mp hr with h | h
    · obtain ⟨es,hes,rfl⟩ := List.mem_map.mp h
      exact fun e he => hn e (List.mem_flatten.mpr ⟨es,hes,he⟩)
    · obtain ⟨es,hes,rfl⟩ := List.mem_map.mp h
      exact fun e he => hcs e (List.mem_flatten.mpr ⟨es,hes,he⟩)
  obtain ⟨s,hfold,htr,_⟩ := replay_spec (init_tracks (d := d) (superAfter sb sc.flatten) hl) hL hrest
  refine ⟨s,?_,htr⟩
  rw [hr,List.append_assoc,List.foldlM_append,superRecords_init d sc sb hs]
  exact hfold

theorem superOutput_offsets (kh : Khash) (journal : List SuperBlockJournalEntry) (off : UInt32) :
    off ∈ (superJournalOutputVector kh journal).map SuperBlockJournalEntry.off ↔
      off ∈ journal.map SuperBlockJournalEntry.off := by
  have hmem (es : List SuperBlockJournalEntry) :
      off ∈ es.map SuperBlockJournalEntry.off ↔ lastEntry SuperBlockJournalEntry.off off es ≠ none := by
    simp [lastEntry]
  rw [hmem,hmem,lastEntry_superOutput]

theorem journal_framing_roundtrip (kh : Khash) (w : JournalWriter) (j : JournalContainer)
    (d : CommDev) (sb : Block) (L : Layout) (base size o : Nat) (hring : RingOk d base size)
    (hw : w.startLpa = base) (hw' : w.endLpa = base + size)
    (hl : layoutOf (superAfter sb (superJournalOutputVector kh j.superBlockJournal)) = L)
    (hL : L.Ok d) (hj : j.InRange L d)
    (hfit : ∀ w' n, journalWriterCollectPendingJournalToWriteBuffer kh w j = some (w',n) → n ≤ size) :
    ∃ w' tx d', journalWriterCollectPendingJournalToWriteBuffer kh w j = some (w',tx.blockNum) ∧
      TxImage w'.journalBuffer tx ∧
      journalWriterWriteToSsd w' d (Ring.slot base size o) = .ok d' ∧
      (∃ d'' sb'', commRecoveryReplayOneTransaction d' sb (Ring.slot base size o) base (base + size) =
        .committed d'' (Ring.slot base size (o + tx.blockNum)) sb'') ∧
      scanTx collectHandler d' base (base + size) size (Ring.slot base size o) ([],[],[]) =
        .ended (superJournalOutputVector kh j.superBlockJournal,natJournalOutputVector j.natJournal,
          sitJournalOutputVector j.sitJournal) (Ring.slot base size (o + tx.blockNum - 1)) ∧
      ((superJournalOutputVector kh j.superBlockJournal).map SuperBlockJournalEntry.off).Nodup ∧
      (∀ off, off ∈ (superJournalOutputVector kh j.superBlockJournal).map SuperBlockJournalEntry.off ↔
        off ∈ j.superBlockJournal.map SuperBlockJournalEntry.off) ∧
      (natJournalOutputVector j.natJournal).Perm j.natJournal ∧
      (natJournalOutputVector j.natJournal).Pairwise (fun a b => a.nid ≤ b.nid) ∧
      (sitJournalOutputVector j.sitJournal).Perm j.sitJournal ∧
      (sitJournalOutputVector j.sitJournal).Pairwise (fun a b => a.segID ≤ b.segID) := by
  obtain ⟨w',tx,hcol,htail,harea,him,hcar⟩ := collect_spec kh w j
  have hn := hfit w' _ hcol
  have hwrite := writeToSsd_spec hring.pos hring.addr (harea.1.trans hw) (harea.2.trans hw') o
  rw [htail] at hwrite
  have him' : TxImage (fun i => Updates.applyAll d.blocks
      (ringRequests base size o tx.blockNum w'.journalBuffer) (Ring.slot base size (o + i))) tx :=
    written_image d.blocks o hn him
  have hnat : ∀ e ∈ natJournalOutputVector j.natJournal, e.Ok L d :=
    fun e he => hj.nats e ((treeOutput_perm NatJournalEntry.nid j.natJournal).mem_iff.mp he)
  have hsit : ∀ e ∈ sitJournalOutputVector j.sitJournal, e.Ok L :=
    fun e he => hj.sits e ((treeOutput_perm SitJournalEntry.segID j.sitJournal).mem_iff.mp he)
  obtain ⟨s,hfold,htr⟩ := replay_carried (hL.withBlocks (Updates.applyAll d.blocks
    (ringRequests base size o tx.blockNum w'.journalBuffer))) hcar
    (fun e he => hj.super e (superOutput_mem kh _ he)) hl hnat hsit
  refine ⟨w',tx,_,hcol,him,hwrite,
    ⟨_,_,replayOneTransaction_eq (hring.withBlocks _) sb tx o him' hn hfold htr⟩,
    ?_,superOutput_nodup kh _,superOutput_offsets kh _,treeOutput_perm _ _,treeOutput_sorted _ _,
    treeOutput_perm _ _,treeOutput_sorted _ _⟩
  have hscan := scanTx_image collectHandler (hring.withBlocks _) tx.full tx.last o size him'
    (by unfold Tx.blockNum at hn; omega) ([],[],[])
  change _ = TxOutcome.finish _ (tx.records.foldlM collectHandler.apply ([],[],[])) at hscan
  rw [collect_records hcar] at hscan
  have hend : o + tx.blockNum - 1 = o + tx.full.length := by
    unfold Tx.blockNum
    omega
  rw [hend]
  exact hscan

def inOrderKhash : Khash := ⟨id,fun _ => List.Perm.refl _⟩

def smallContainer : JournalContainer :=
  ⟨[⟨128,3⟩],[⟨2,⟨2,2561⟩⟩],[⟨5,⟨1,Buf.zero⟩⟩],0⟩

theorem smallContainer_inRange (blocks : Nat → Block) :
    smallContainer.InRange smallAreas (smallDev blocks) := by
  constructor
  · intro e he
    obtain rfl := List.mem_singleton.mp he
    decide
  · intro e he
    obtain rfl := List.mem_singleton.mp he
    exact ⟨by decide,smallDev_holds blocks _ (by decide)⟩
  · intro e he
    obtain rfl := List.mem_singleton.mp he
    change 5 / 60 < 1 * 512
    decide

theorem smallContainer_output :
    superJournalOutputVector inOrderKhash smallContainer.superBlockJournal = [⟨128,3⟩] ∧
    natJournalOutputVector smallContainer.natJournal = [⟨2,⟨2,2561⟩⟩] ∧
    (sitJournalOutputVector smallContainer.sitJournal).length = 1 := by
  refine ⟨rfl,rfl,?_⟩
  exact (treeOutput_perm SitJournalEntry.segID smallContainer.sitJournal).length_eq

theorem journal_framing_roundtrip_small :
    ∃ w' tx d', journalWriterCollectPendingJournalToWriteBuffer inOrderKhash
        ⟨512,1024,fun _ => Buf.zero,0,0⟩ smallContainer = some (w',tx.blockNum) ∧
      TxImage w'.journalBuffer tx ∧
      journalWriterWriteToSsd w' (smallDev fun _ => Buf.zero) (Ring.slot 512 512 3) = .ok d' ∧
      scanTx collectHandler d' 512 1024 512 (Ring.slot 512 512 3) ([],[],[]) =
        .ended (superJournalOutputVector inOrderKhash smallContainer.superBlockJournal,
          natJournalOutputVector smallContainer.natJournal,
          sitJournalOutputVector smallContainer.sitJournal) (Ring.slot 512 512 (3 + tx.blockNum - 1)) := by
  obtain ⟨hsup,hnat,hsit⟩ := smallContainer_output
  have hl : layoutOf (superAfter smallSuper (superJournalOutputVector inOrderKhash
      smallContainer.superBlockJournal)) = smallAreas := by
    rw [hsup]
    change layoutOf (setU32 smallSuper 128 3) = _
    rw [layoutOf_setU32 _ _ (by decide),layoutOf_smallSuper]
  have hfit : ∀ w' n, journalWriterCollectPendingJournalToWriteBuffer inOrderKhash
      ⟨512,1024,fun _ => Buf.zero,0,0⟩ smallContainer = some (w',n) → n ≤ 512 := by
    intro w' n he
    obtain ⟨v,hv⟩ := collect_small inOrderKhash ⟨512,1024,fun _ => Buf.zero,0,0⟩ smallContainer (by
      rw [hsup,hnat,hsit]
      decide)
    rw [hv] at he
    cases he
    decide
  obtain ⟨w',tx,d',h1,h2,h3,_,h4,_⟩ := journal_framing_roundtrip inOrderKhash
    ⟨512,1024,fun _ => Buf.zero,0,0⟩ smallContainer (smallDev fun _ => Buf.zero) smallSuper smallAreas
    512 512 3 (ringOk (smallAreas_ok _)) rfl rfl hl (smallAreas_ok _) (smallContainer_inRange _) hfit
  exact ⟨w',tx,d',h1,h2,h3,h4⟩

end Rtfs
