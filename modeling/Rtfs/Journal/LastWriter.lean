import Rtfs.Journal.RoundTrip

namespace Rtfs

def natOf (L : Layout) (f : Nat → Block) (nid : UInt32) : RtfsNatEntry :=
  natEntryAt (f (L.natLpa nid)) (nid.toNat % natEntryPerBlock)

def sitOf (L : Layout) (f : Nat → Block) (segID : UInt32) : RtfsSitEntry :=
  sitEntryAt (f (L.sitLpa segID)) (segID.toNat % sitEntryPerBlock)

def NidInRange (L : Layout) (nid : UInt32) : Prop :=
  nid.toNat / natEntryPerBlock < L.segmentCountNat * blockPerSegment

def SegInRange (L : Layout) (segID : UInt32) : Prop :=
  segID.toNat / sitEntryPerBlock < L.segmentCountSit * blockPerSegment

section Tables
variable {L : Layout} {d : CommDev}

theorem natOf_putNat (m : MetaImage) (e : NatJournalEntry) :
    natOf L (m.putNat L e).blocks = Function.update (natOf L m.blocks) e.nid e.newValue := by
  funext nid
  unfold natOf MetaImage.putNat
  by_cases hn : nid = e.nid
  · subst hn
    simp only [Function.update_self]
    exact natEntryAt_set_self _ (Nat.mod_lt _ (by decide)) _
  · rw [Function.update_of_ne hn]
    by_cases hl : L.natLpa nid = L.natLpa e.nid
    · simp only [hl,Function.update_self]
      apply natEntryAt_set_ne
      intro he
      apply hn
      have hdiv : nid.toNat / natEntryPerBlock = e.nid.toNat / natEntryPerBlock :=
        Nat.add_left_cancel hl
      apply UInt32.toNat_inj.mp
      rw [← Nat.div_add_mod nid.toNat natEntryPerBlock,← Nat.div_add_mod e.nid.toNat natEntryPerBlock,
        hdiv,he]
    · simp only [Function.update_of_ne hl]

theorem sitOf_putSit (m : MetaImage) (e : SitJournalEntry) :
    sitOf L (m.putSit L e).blocks = Function.update (sitOf L m.blocks) e.segID e.newValue := by
  funext seg
  unfold sitOf MetaImage.putSit
  by_cases hn : seg = e.segID
  · subst hn
    simp only [Function.update_self]
    exact sitEntryAt_set_self _ (Nat.mod_lt _ (by decide)) _
  · rw [Function.update_of_ne hn]
    by_cases hl : L.sitLpa seg = L.sitLpa e.segID
    · simp only [hl,Function.update_self]
      apply sitEntryAt_set_ne
      intro he
      apply hn
      have hdiv : seg.toNat / sitEntryPerBlock = e.segID.toNat / sitEntryPerBlock :=
        Nat.add_left_cancel hl
      apply UInt32.toNat_inj.mp
      rw [← Nat.div_add_mod seg.toNat sitEntryPerBlock,
        ← Nat.div_add_mod e.segID.toNat sitEntryPerBlock,hdiv,he]
    · simp only [Function.update_of_ne hl]

theorem natLpa_ne_sitLpa (hL : L.Ok d) {nid segID : UInt32} (hs : SegInRange L segID) :
    L.natLpa nid ≠ L.sitLpa segID := by
  have h := hL.sit_nat
  unfold SegInRange at hs
  unfold Layout.natLpa Layout.sitLpa
  generalize nid.toNat / natEntryPerBlock = i at *
  omega

theorem natOf_putSit (m : MetaImage) {e : SitJournalEntry} {nid : UInt32}
    (hne : L.natLpa nid ≠ L.sitLpa e.segID) : natOf L (m.putSit L e).blocks nid = natOf L m.blocks nid := by
  unfold natOf MetaImage.putSit
  simp only [Function.update_of_ne hne]

theorem sitOf_putNat (m : MetaImage) {e : NatJournalEntry} {segID : UInt32}
    (hne : L.natLpa e.nid ≠ L.sitLpa segID) :
    sitOf L (m.putNat L e).blocks segID = sitOf L m.blocks segID := by
  unfold sitOf MetaImage.putNat
  simp only [Function.update_of_ne hne.symm]

theorem natOf_foldNat (m : MetaImage) (es : List NatJournalEntry) :
    natOf L (es.foldl (MetaImage.putNat L) m).blocks =
      Updates.applyAll (natOf L m.blocks) (es.map (fun e => (e.nid,e.newValue))) := by
  induction es generalizing m with
  | nil => rfl
  | cons e es ih =>
    rw [List.foldl_cons,ih,natOf_putNat]
    rfl

theorem sitOf_foldSit (m : MetaImage) (es : List SitJournalEntry) :
    sitOf L (es.foldl (MetaImage.putSit L) m).blocks =
      Updates.applyAll (sitOf L m.blocks) (es.map (fun e => (e.segID,e.newValue))) := by
  induction es generalizing m with
  | nil => rfl
  | cons e es ih =>
    rw [List.foldl_cons,ih,sitOf_putSit]
    rfl

theorem natOf_foldSit (m : MetaImage) {es : List SitJournalEntry} {nid : UInt32}
    (hne : ∀ e ∈ es, L.natLpa nid ≠ L.sitLpa e.segID) :
    natOf L (es.foldl (MetaImage.putSit L) m).blocks nid = natOf L m.blocks nid := by
  induction es generalizing m with
  | nil => rfl
  | cons e es ih =>
    rw [List.foldl_cons,ih _ (fun e h => hne e (List.mem_cons_of_mem _ h)),
      natOf_putSit m (hne e List.mem_cons_self)]

theorem sitOf_foldNat (m : MetaImage) {es : List NatJournalEntry} {segID : UInt32}
    (hne : ∀ e ∈ es, L.natLpa e.nid ≠ L.sitLpa segID) :
    sitOf L (es.foldl (MetaImage.putNat L) m).blocks segID = sitOf L m.blocks segID := by
  induction es generalizing m with
  | nil => rfl
  | cons e es ih =>
    rw [List.foldl_cons,ih _ (fun e h => hne e (List.mem_cons_of_mem _ h)),
      sitOf_putNat m (hne e List.mem_cons_self)]

theorem foldNat_super (m : MetaImage) (es : List NatJournalEntry) :
    (es.foldl (MetaImage.putNat L) m).superBlock = m.superBlock := by
  induction es generalizing m with
  | nil => rfl
  | cons e es ih => rw [List.foldl_cons,ih]; rfl

theorem foldSit_super (m : MetaImage) (es : List SitJournalEntry) :
    (es.foldl (MetaImage.putSit L) m).superBlock = m.superBlock := by
  induction es generalizing m with
  | nil => rfl
  | cons e es ih => rw [List.foldl_cons,ih]; rfl

theorem foldSuper_eq (m : MetaImage) (es : List SuperBlockJournalEntry) :
    es.foldl MetaImage.putSuper m = ⟨superAfter m.superBlock es,m.blocks⟩ := by
  induction es generalizing m with
  | nil => rfl
  | cons e es ih => rw [List.foldl_cons,ih]; rfl

theorem u32At_superAfter (sb : Block) (es : List SuperBlockJournalEntry)
    (he : ∀ e ∈ es, e.off.toNat + 4 ≤ 4096 ∧ 4 ∣ e.off.toNat) (off : UInt32)
    (ha : 4 ∣ off.toNat) :
    u32At (superAfter sb es) off.toNat = Updates.applyAll (fun o : UInt32 => u32At sb o.toNat)
      (es.map (fun e => (e.off,e.newVal))) off := by
  induction es using List.reverseRecOn with
  | nil => rfl
  | append_singleton es e ih =>
    obtain ⟨hr,h4⟩ := he e (by simp)
    have hs : superAfter sb (es ++ [e]) = setU32 (superAfter sb es) e.off.toNat e.newVal := by
      rw [superAfter,List.foldl_append]
      rfl
    rw [hs,u32At_setU32 _ _ hr h4 ha,List.map_append,Updates.applyAll_append,
      ih (fun e h => he e (List.mem_append_left _ h))]
    simp only [List.map_cons,List.map_nil,Updates.applyAll_cons,Updates.applyAll_nil,
      Function.update_apply,UInt32.toNat_inj]

theorem layoutOf_superAfter (sb : Block) {es : List SuperBlockJournalEntry} (he : ∀ e ∈ es, e.Ok) :
    layoutOf (superAfter sb es) = layoutOf sb := by
  induction es generalizing sb with
  | nil => rfl
  | cons e es ih =>
    exact (ih (setU32 sb e.off.toNat e.newVal) (fun e h => he e (List.mem_cons_of_mem _ h))).trans
      (layoutOf_setU32 sb e.newVal (he e List.mem_cons_self).2)

end Tables

theorem replay_chunks {α : Type} (L : Layout) (mk : List α → JournalRecord)
    (put : MetaImage → α → MetaImage) (h : ∀ m es, MetaImage.apply L m (mk es) = es.foldl put m)
    (m : MetaImage) (chunks : List (List α)) :
    MetaImage.replay L m (chunks.map mk) = chunks.flatten.foldl put m := by
  induction chunks generalizing m with
  | nil => rfl
  | cons es chunks ih =>
    rw [List.flatten_cons,List.foldl_append,← ih,← h]
    rfl

theorem replay_carries (L : Layout) (m : MetaImage) {tx : Tx} {ss : List SuperBlockJournalEntry}
    {ns : List NatJournalEntry} {cs : List SitJournalEntry} (h : tx.Carries ss ns cs) :
    MetaImage.replay L m tx.records =
      cs.foldl (MetaImage.putSit L) (ns.foldl (MetaImage.putNat L) (ss.foldl MetaImage.putSuper m)) := by
  obtain ⟨sc,nc,cc,hr,rfl,rfl,rfl⟩ := h
  rw [hr,MetaImage.replay_append,MetaImage.replay_append,
    replay_chunks L .super MetaImage.putSuper (fun _ _ => rfl),
    replay_chunks L .nats (MetaImage.putNat L) (fun _ _ => rfl),
    replay_chunks L .sits (MetaImage.putSit L) (fun _ _ => rfl)]

theorem last_map {α β : Type} (key : α → UInt32) (val : α → β) (k : UInt32) (es : List α) :
    Updates.last k (es.map (fun e => (key e,val e))) = (lastEntry key k es).map val := by
  unfold Updates.last lastEntry
  rw [List.filter_map,List.getLast?_map,Option.map_map]
  rfl

theorem lastEntry_append {α : Type} (key : α → UInt32) (k : UInt32) (es fs : List α) :
    lastEntry key k (es ++ fs) = (lastEntry key k fs).or (lastEntry key k es) := by
  unfold lastEntry
  rw [List.filter_append,List.getLast?_append]

structure LastWriterWins (L : Layout) (j : JournalContainer) (before after : MetaImage) : Prop where
  super : ∀ off : UInt32, 4 ∣ off.toNat → u32At after.superBlock off.toNat =
    ((lastEntry SuperBlockJournalEntry.off off j.superBlockJournal).map
      SuperBlockJournalEntry.newVal).getD (u32At before.superBlock off.toNat)
  nats : ∀ nid, NidInRange L nid → natOf L after.blocks nid =
    ((lastEntry NatJournalEntry.nid nid j.natJournal).map NatJournalEntry.newValue).getD
      (natOf L before.blocks nid)
  sits : ∀ segID, SegInRange L segID → sitOf L after.blocks segID =
    ((lastEntry SitJournalEntry.segID segID j.sitJournal).map SitJournalEntry.newValue).getD
      (sitOf L before.blocks segID)

structure JournalContainer.Loggable (j : JournalContainer) (L : Layout) (d : CommDev) : Prop where
  super : ∀ e ∈ j.superBlockJournal, e.Ok ∧ 4 ∣ e.off.toNat
  nats : ∀ e ∈ j.natJournal, e.Ok L d
  sits : ∀ e ∈ j.sitJournal, e.Ok L

section Replay
variable {L : Layout} {d : CommDev}

theorem Layout.Ok.slot_lt_sit (hL : L.Ok d) (i : Nat) : journalSlot L i < L.sitBlkaddr :=
  lt_of_lt_of_le (Ring.slot_lt hL.journal_pos i) hL.journal_sit

theorem written_outside (hL : L.Ok d) (f : Nat → Block) (o n : Nat) (buf : Nat → Block) {lpa : Nat}
    (h : L.sitBlkaddr ≤ lpa) :
    Updates.applyAll f (ringRequests L.metaJournalBlkaddr L.journalSize o n buf) lpa = f lpa := by
  apply ringRequests_outside
  intro i _ he
  have hlt := hL.slot_lt_sit (o + i)
  unfold journalSlot at hlt
  omega

theorem sit_le_natLpa (hL : L.Ok d) (nid : UInt32) : L.sitBlkaddr ≤ L.natLpa nid :=
  le_trans (le_trans (Nat.le_add_right _ _) hL.sit_nat) (Nat.le_add_right _ _)

theorem natOf_written (hL : L.Ok d) (f : Nat → Block) (o n : Nat) (buf : Nat → Block) (nid : UInt32) :
    natOf L (Updates.applyAll f (ringRequests L.metaJournalBlkaddr L.journalSize o n buf)) nid =
      natOf L f nid := by
  rw [natOf,written_outside hL f o n buf (sit_le_natLpa hL nid),natOf]

theorem sitOf_written (hL : L.Ok d) (f : Nat → Block) (o n : Nat) (buf : Nat → Block) (seg : UInt32) :
    sitOf L (Updates.applyAll f (ringRequests L.metaJournalBlkaddr L.journalSize o n buf)) seg =
      sitOf L f seg := by
  rw [sitOf,written_outside hL f o n buf (show L.sitBlkaddr ≤ L.sitLpa seg from Nat.le_add_right _ _),
    sitOf]

structure Replayed (L : Layout) (kh : Khash) (j : JournalContainer) (before after : MetaImage) : Prop where
  super : ∀ off : UInt32, 4 ∣ off.toNat → u32At after.superBlock off.toNat =
    ((lastEntry SuperBlockJournalEntry.off off
      (superJournalOutputVector kh j.superBlockJournal)).map
      SuperBlockJournalEntry.newVal).getD (u32At before.superBlock off.toNat)
  nats : ∀ nid, natOf L after.blocks nid =
    ((lastEntry NatJournalEntry.nid nid (natJournalOutputVector j.natJournal)).map
      NatJournalEntry.newValue).getD (natOf L before.blocks nid)
  sits : ∀ segID, SegInRange L segID → sitOf L after.blocks segID =
    ((lastEntry SitJournalEntry.segID segID (sitJournalOutputVector j.sitJournal)).map
      SitJournalEntry.newValue).getD (sitOf L before.blocks segID)

theorem JournalContainer.Loggable.records {j : JournalContainer} (hj : j.Loggable L d) (kh : Khash)
    {tx : Tx} (hc : tx.Carries (superJournalOutputVector kh j.superBlockJournal)
      (natJournalOutputVector j.natJournal) (sitJournalOutputVector j.sitJournal)) :
    ∀ r ∈ tx.records, r.Ok L d := by
  obtain ⟨sc,nc,cc,hr,hs,hn,hcc⟩ := hc
  rw [hr]
  intro r hr
  rcases List.mem_append.mp hr with h | h
  · rcases List.mem_append.mp h with h | h
    · obtain ⟨es,hes,rfl⟩ := List.mem_map.mp h
      intro e he
      have hm : e ∈ sc.flatten := List.mem_flatten.mpr ⟨es,hes,he⟩
      rw [hs] at hm
      exact (hj.super e (superOutput_mem kh _ hm)).1
    · obtain ⟨es,hes,rfl⟩ := List.mem_map.mp h
      intro e he
      have hm : e ∈ nc.flatten := List.mem_flatten.mpr ⟨es,hes,he⟩
      rw [hn] at hm
      exact hj.nats e ((treeOutput_perm NatJournalEntry.nid j.natJournal).mem_iff.mp hm)
  · obtain ⟨es,hes,rfl⟩ := List.mem_map.mp h
    intro e he
    have hm : e ∈ cc.flatten := List.mem_flatten.mpr ⟨es,hes,he⟩
    rw [hcc] at hm
    exact hj.sits e ((treeOutput_perm SitJournalEntry.segID j.sitJournal).mem_iff.mp hm)

theorem folds_replayed (hL : L.Ok d) (kh : Khash) {j : JournalContainer} (hj : j.Loggable L d)
    (m : MetaImage) : Replayed L kh j m ((sitJournalOutputVector j.sitJournal).foldl (MetaImage.putSit L)
      ((natJournalOutputVector j.natJournal).foldl (MetaImage.putNat L)
        ((superJournalOutputVector kh j.superBlockJournal).foldl MetaImage.putSuper m))) := by
  have hsit : ∀ e ∈ sitJournalOutputVector j.sitJournal, e.Ok L := fun e he =>
    hj.sits e ((treeOutput_perm SitJournalEntry.segID j.sitJournal).mem_iff.mp he)
  constructor
  · intro off ha
    rw [foldSit_super,foldNat_super,foldSuper_eq,u32At_superAfter _ _ _ off ha,
      Updates.applyAll_last,last_map]
    intro e he
    have hok := hj.super e (superOutput_mem kh _ he)
    exact ⟨hok.1.1,hok.2⟩
  · intro nid
    rw [natOf_foldSit _ (fun e he => natLpa_ne_sitLpa hL (hsit e he)),natOf_foldNat,
      Updates.applyAll_last,last_map,foldSuper_eq]
  · intro seg hseg
    rw [sitOf_foldSit,Updates.applyAll_last,last_map,
      sitOf_foldNat _ (fun e _ => natLpa_ne_sitLpa hL hseg),foldSuper_eq]

theorem replayed_of_carries (hL : L.Ok d) {kh : Khash} {j : JournalContainer} (hj : j.Loggable L d)
    {tx : Tx} (hc : tx.Carries (superJournalOutputVector kh j.superBlockJournal)
      (natJournalOutputVector j.natJournal) (sitJournalOutputVector j.sitJournal))
    (m : MetaImage) : Replayed L kh j m (MetaImage.replay L m tx.records) := by
  rw [replay_carries L m hc]
  exact folds_replayed hL kh hj m

theorem commit_and_replay (hL : L.Ok d) (kh : Khash) {w : JournalWriter}
    (hw : w.startLpa = L.metaJournalBlkaddr) (hw' : w.endLpa = L.metaJournalBlkaddr + L.journalSize)
    {j : JournalContainer} (hj : j.Loggable L d) {sb : Block} (hsb : layoutOf sb = L) (o : Nat)
    (hfit : ∀ w' n, journalWriterCollectPendingJournalToWriteBuffer kh w j = some (w',n) →
      n ≤ L.journalSize) :
    ∃ w' n d' d'' sb'', journalWriterCollectPendingJournalToWriteBuffer kh w j = some (w',n) ∧
      journalWriterWriteToSsd w' d (journalSlot L o) = .ok d' ∧
      commRecoveryReplayOneTransaction d' sb (journalSlot L o) L.metaJournalBlkaddr
        (L.metaJournalBlkaddr + L.journalSize) = .committed d'' (journalSlot L (o + n)) sb'' ∧
      Replayed L kh j ⟨sb,d.blocks⟩ ⟨sb'',d''.blocks⟩ := by
  obtain ⟨w',tx,hcol,htail,harea,him,hcar⟩ := collect_spec kh w j
  have hn := hfit w' _ hcol
  have hring := ringOk hL
  have hwrite := writeToSsd_spec hring.pos hring.addr (harea.1.trans hw) (harea.2.trans hw') o
  rw [htail] at hwrite
  have him' : TxImage (fun i => Updates.applyAll d.blocks (ringRequests L.metaJournalBlkaddr
      L.journalSize o tx.blockNum w'.journalBuffer) (journalSlot L (o + i))) tx :=
    written_image d.blocks o hn him
  obtain ⟨s,_,hrep⟩ := replayOneTransaction_image (hL.withBlocks _) hsb tx o him' hn
    (hj.records kh hcar)
  refine ⟨w',tx.blockNum,_,_,_,hcol,hwrite,hrep,?_⟩
  have hr := replayed_of_carries hL hj hcar ⟨sb,Updates.applyAll d.blocks
    (ringRequests L.metaJournalBlkaddr L.journalSize o tx.blockNum w'.journalBuffer)⟩
  rw [appendReclaimRecord_blocks,CommDev.withBlocks_blocks]
  refine ⟨hr.super,fun nid => ?_,fun seg hseg => ?_⟩
  · rw [← natOf_written hL d.blocks o tx.blockNum w'.journalBuffer nid]
    exact hr.nats nid
  · rw [← sitOf_written hL d.blocks o tx.blockNum w'.journalBuffer seg]
    exact hr.sits seg hseg

end Replay

def KeepsLast {α β : Type} (key : α → UInt32) (val : α → β) (journal : List α) : Prop :=
  ∀ k, (lastPlacedEntry key journal k).map val = (lastEntry key k journal).map val

theorem lastEntry_eq_none {α : Type} {key : α → UInt32} {k : UInt32} {es : List α}
    (h : k ∉ es.map key) : lastEntry key k es = none := by
  rw [lastEntry,List.getLast?_eq_none_iff,List.filter_eq_nil_iff]
  intro e he hk
  exact h (List.mem_map.mpr ⟨e,he,of_decide_eq_true hk⟩)

theorem keepsLast_iff {α β : Type} (key : α → UInt32) (val : α → β) (journal : List α)
    (ok : UInt32 → Prop) (hok : ∀ e ∈ journal, ok (key e)) (f g : UInt32 → β)
    (hg : ∀ k, ok k → g k = ((lastEntry key k (treeOutput key journal)).map val).getD (f k)) :
    (∀ k, ok k → g k = ((lastEntry key k journal).map val).getD (f k)) ↔ KeepsLast key val journal := by
  have hperm := (treeOutput_perm key journal).map key
  constructor
  · intro h k
    rw [← lastEntry_treeOutput]
    by_cases hk : k ∈ journal.map key
    · obtain ⟨e,he⟩ := Option.isSome_iff_exists.mp (lastEntry_isSome.mpr hk)
      obtain ⟨e',he'⟩ := Option.isSome_iff_exists.mp (lastEntry_isSome.mpr (hperm.mem_iff.mpr hk))
      obtain ⟨a,ha,rfl⟩ := List.mem_map.mp hk
      have h1 := h (key a) (hok a ha)
      rw [hg (key a) (hok a ha),he,he'] at h1
      rw [he,he']
      exact congrArg some h1
    · rw [lastEntry_eq_none hk,lastEntry_eq_none (fun hm => hk (hperm.mem_iff.mp hm))]
  · intro h k hk
    rw [hg k hk,lastEntry_treeOutput,h k]

theorem lastWriterWins_iff {L : Layout} {d : CommDev} {kh : Khash} {j : JournalContainer}
    (hj : j.Loggable L d) {before after : MetaImage} (h : Replayed L kh j before after) :
    LastWriterWins L j before after ↔
      KeepsLast NatJournalEntry.nid NatJournalEntry.newValue j.natJournal ∧
      KeepsLast SitJournalEntry.segID SitJournalEntry.newValue j.sitJournal := by
  have hn := keepsLast_iff NatJournalEntry.nid NatJournalEntry.newValue j.natJournal (NidInRange L)
    (fun e he => (hj.nats e he).1) (natOf L before.blocks) (natOf L after.blocks)
    (fun k _ => h.nats k)
  have hs := keepsLast_iff SitJournalEntry.segID SitJournalEntry.newValue j.sitJournal (SegInRange L)
    (fun e he => hj.sits e he) (sitOf L before.blocks) (sitOf L after.blocks)
    (fun k hk => h.sits k hk)
  rw [← hn,← hs]
  constructor
  · intro hw
    exact ⟨hw.nats,hw.sits⟩
  · rintro ⟨hnats,hsits⟩
    refine ⟨fun off ha => ?_,hnats,hsits⟩
    rw [h.super off ha,lastEntry_superOutput]

theorem journal_last_writer_wins_iff (L : Layout) (d : CommDev) (hL : L.Ok d) (kh : Khash)
    (w : JournalWriter) (hw : w.startLpa = L.metaJournalBlkaddr)
    (hw' : w.endLpa = L.metaJournalBlkaddr + L.journalSize) (j : JournalContainer)
    (hj : j.Loggable L d) (sb : Block) (hsb : layoutOf sb = L) (o : Nat)
    (hfit : ∀ w' n, journalWriterCollectPendingJournalToWriteBuffer kh w j = some (w',n) →
      n ≤ L.journalSize) :
    ∃ w' n d' d'' sb'', journalWriterCollectPendingJournalToWriteBuffer kh w j = some (w',n) ∧
      journalWriterWriteToSsd w' d (journalSlot L o) = .ok d' ∧
      commRecoveryReplayOneTransaction d' sb (journalSlot L o) L.metaJournalBlkaddr
        (L.metaJournalBlkaddr + L.journalSize) = .committed d'' (journalSlot L (o + n)) sb'' ∧
      (LastWriterWins L j ⟨sb,d.blocks⟩ ⟨sb'',d''.blocks⟩ ↔
        KeepsLast NatJournalEntry.nid NatJournalEntry.newValue j.natJournal ∧
        KeepsLast SitJournalEntry.segID SitJournalEntry.newValue j.sitJournal) := by
  obtain ⟨w',n,d',d'',sb'',h1,h2,h3,h4⟩ := commit_and_replay hL kh hw hw' hj hsb o hfit
  exact ⟨w',n,d',d'',sb'',h1,h2,h3,lastWriterWins_iff hj h4⟩

def smallWriter : JournalWriter := ⟨512,1024,fun _ => Buf.zero,0,0⟩

theorem small_fits (j : JournalContainer)
    (h : 16 + 8 * (superJournalOutputVector inOrderKhash j.superBlockJournal).length +
      12 * (natJournalOutputVector j.natJournal).length +
      72 * (sitJournalOutputVector j.sitJournal).length ≤ 4096) :
    ∀ w' n, journalWriterCollectPendingJournalToWriteBuffer inOrderKhash smallWriter j =
      some (w',n) → n ≤ smallAreas.journalSize := by
  intro w' n he
  obtain ⟨v,hv⟩ := collect_small inOrderKhash smallWriter j h
  rw [hv] at he
  cases he
  decide

theorem smallContainer_loggable (blocks : Nat → Block) :
    smallContainer.Loggable smallAreas (smallDev blocks) := by
  have h := smallContainer_inRange blocks
  refine ⟨fun e he => ?_,h.nats,h.sits⟩
  obtain rfl := List.mem_singleton.mp he
  exact ⟨⟨by decide,by decide⟩,by decide⟩

theorem journal_last_writer_wins_small :
    ∃ w' n d' d'' sb'', journalWriterCollectPendingJournalToWriteBuffer inOrderKhash smallWriter
        smallContainer = some (w',n) ∧
      journalWriterWriteToSsd w' (smallDev fun _ => Buf.zero) (journalSlot smallAreas 3) = .ok d' ∧
      commRecoveryReplayOneTransaction d' smallSuper (journalSlot smallAreas 3) 512 1024 =
        .committed d'' (journalSlot smallAreas (3 + n)) sb'' ∧
      (LastWriterWins smallAreas smallContainer ⟨smallSuper,fun _ => Buf.zero⟩ ⟨sb'',d''.blocks⟩ ↔
        KeepsLast NatJournalEntry.nid NatJournalEntry.newValue smallContainer.natJournal ∧
        KeepsLast SitJournalEntry.segID SitJournalEntry.newValue smallContainer.sitJournal) := by
  obtain ⟨hsup,hnat,hsit⟩ := smallContainer_output
  exact journal_last_writer_wins_iff smallAreas (smallDev fun _ => Buf.zero) (smallAreas_ok _)
    inOrderKhash smallWriter rfl rfl smallContainer (smallContainer_loggable _) smallSuper
    layoutOf_smallSuper 3 (small_fits smallContainer (by rw [hsup,hnat,hsit]; decide))

def tripleUpdate : JournalContainer :=
  ⟨[],[⟨2,⟨2,2561⟩⟩,⟨2,⟨2,2562⟩⟩,⟨2,⟨2,2563⟩⟩],[],0⟩

theorem tripleUpdate_loggable (blocks : Nat → Block) :
    tripleUpdate.Loggable smallAreas (smallDev blocks) := by
  refine ⟨fun e he => absurd he List.not_mem_nil,fun e he => ?_,
    fun e he => absurd he List.not_mem_nil⟩
  simp only [tripleUpdate,List.mem_cons,List.not_mem_nil,or_false] at he
  rcases he with rfl | rfl | rfl
  all_goals exact ⟨by decide,smallDev_holds blocks _ (by decide)⟩

theorem journal_third_update_lost :
    ∃ w' n d' d'' sb'', journalWriterCollectPendingJournalToWriteBuffer inOrderKhash smallWriter
        tripleUpdate = some (w',n) ∧
      journalWriterWriteToSsd w' (smallDev fun _ => Buf.zero) (journalSlot smallAreas 3) = .ok d' ∧
      commRecoveryReplayOneTransaction d' smallSuper (journalSlot smallAreas 3) 512 1024 =
        .committed d'' (journalSlot smallAreas (3 + n)) sb'' ∧
      natOf smallAreas d''.blocks 2 = ⟨2,2562⟩ ∧
      ¬ LastWriterWins smallAreas tripleUpdate ⟨smallSuper,fun _ => Buf.zero⟩ ⟨sb'',d''.blocks⟩ := by
  have hnat : (natJournalOutputVector tripleUpdate.natJournal).length = 3 :=
    (treeOutput_perm NatJournalEntry.nid tripleUpdate.natJournal).length_eq
  obtain ⟨w',n,d',d'',sb'',h1,h2,h3,h4⟩ := commit_and_replay (smallAreas_ok fun _ => Buf.zero)
    inOrderKhash (w := smallWriter) rfl rfl (tripleUpdate_loggable _) layoutOf_smallSuper 3
    (small_fits tripleUpdate (by rw [hnat]; decide))
  have hplaced : lastPlacedEntry NatJournalEntry.nid tripleUpdate.natJournal 2 =
      some ⟨2,⟨2,2562⟩⟩ := by decide +kernel
  have hsecond : natOf smallAreas d''.blocks 2 = ⟨2,2562⟩ := by
    have hn := h4.nats 2
    rw [natJournalOutputVector,lastEntry_treeOutput,hplaced] at hn
    exact hn
  refine ⟨w',n,d',d'',sb'',h1,h2,h3,hsecond,fun hw => ?_⟩
  have hthird := hw.nats 2 (by unfold NidInRange; decide)
  rw [hsecond] at hthird
  exact absurd hthird (by decide +kernel)

end Rtfs
