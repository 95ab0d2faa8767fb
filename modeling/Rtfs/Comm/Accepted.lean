import Rtfs.Comm.RecordTrace
import Rtfs.Comm.Checked
import Rtfs.Comm.Reclaim
import Rtfs.Comm.Restartable

namespace Rtfs

structure Layout.OnDevice (L : Layout) (d : CommDev) : Prop where
  nat : ∀ lpa, L.InNatArea lpa → d.Holds lpa
  sit : ∀ lpa, L.InSitArea lpa → d.Holds lpa

def Layout.Apart (L : Layout) : Prop := ∀ lpa, L.InNatArea lpa → ¬ L.InSitArea lpa

def JournalRecord.superEntries : JournalRecord → List SuperBlockJournalEntry
  | .super es => es
  | _ => []

def JournalRecord.sitEntries : JournalRecord → List SitJournalEntry
  | .sits es => es
  | _ => []

def JournalRecord.KeepsAreas : JournalRecord → Prop
  | .super es => ∀ e ∈ es, OutsideLayout e.off.toNat
  | _ => True

def JournalRecord.InAreas (L : Layout) : JournalRecord → Prop
  | .super es => ∀ e ∈ es, e.off.toNat + 4 ≤ 4096
  | .nats es => ∀ e ∈ es, NidInRange L e.nid
  | .sits es => ∀ e ∈ es, SegInRange L e.segID

-- a request outside the device is refused with EINVAL
def Replay.IoFailed : Replay → Prop
  | .failed e _ => e = .einval
  | _ => False

section Reads
variable {d : CommDev} {s : TxState}

theorem readLpa_cases (d : CommDev) (lpa : UInt32) :
    (∃ b, commRecoveryReadLpa d lpa = .ok b) ∨ commRecoveryReadLpa d lpa = .error .einval := by
  unfold commRecoveryReadLpa CommDev.readLba
  split
  · exact .inr rfl
  · exact .inl ⟨_,rfl⟩

theorem collectInodeDataReclaim_cases (d : CommDev) (s : TxState) (old new : UInt32) :
    (∃ rd, commRecoveryCollectInodeDataReclaim d s old new = .ok { s with reclaimDataLpas := rd }) ∨
      commRecoveryCollectInodeDataReclaim d s old new = .error .einval := by
  unfold commRecoveryCollectInodeDataReclaim
  split
  · exact .inr rfl
  · rcases readLpa_cases d old with ⟨b,hb⟩ | hb
    · rw [hb]
      change (∃ rd, (if nodeInline b = true then _ else _ : Except Errno TxState) = _) ∨ _ = _
      split
      · exact .inl ⟨s.reclaimDataLpas,rfl⟩
      · rename_i hinline
        by_cases hnew : new ≠ invalidLpa
        · rcases readLpa_cases d new with ⟨c,hc⟩ | hc
          · rw [if_pos hnew,hc]
            exact .inl ⟨_,rfl⟩
          · right
            change (if nodeInline b = true then _ else _ : Except Errno TxState) = _
            rw [if_neg hinline,if_pos hnew,hc]
            rfl
        · rw [if_neg hnew]
          exact .inl ⟨_,rfl⟩
    · rw [hb]
      exact .inr rfl

theorem recordNatReclaim_cases (d : CommDev) (s : TxState) (nid : UInt32) (old new : RtfsNatEntry) :
    (∃ rd rn, commRecoveryRecordNatReclaim d s nid old new =
      .ok { s with reclaimDataLpas := rd,reclaimNodeLpas := rn }) ∨
      commRecoveryRecordNatReclaim d s nid old new = .error .einval := by
  unfold commRecoveryRecordNatReclaim
  split
  · exact .inl ⟨s.reclaimDataLpas,s.reclaimNodeLpas,rfl⟩
  · dsimp only
    split
    · exact .inl ⟨s.reclaimDataLpas,_,rfl⟩
    · rcases collectInodeDataReclaim_cases d { s with
          reclaimNodeLpas := lpaVectorAppendUnique s.reclaimNodeLpas old.blockAddr }
          old.blockAddr new.blockAddr with ⟨rd,h⟩ | h
      · exact .inl ⟨rd,_,h⟩
      · exact .inr h

end Reads

section Decide
variable {d : CommDev} {s : TxState} {L : Layout}

structure Decides (d : CommDev) (L : Layout) (P : Prop) (x : Except Errno TxState) (m : MetaImage) : Prop where
  accept : P → (∃ s', x = .ok s' ∧ s'.Tracks d L ∧ s'.image d = m) ∨ x = .error .einval
  reject : ¬ P → ∃ err, x = .error err

theorem superEntry_decides (hs : s.Tracks d L) {e : SuperBlockJournalEntry} (he : OutsideLayout e.off.toNat) :
    Decides d L (e.off.toNat + 4 ≤ 4096) (applySuperEntry s e) ((s.image d).putSuper e) := by
  constructor
  · intro hoff
    exact .inl (applySuperEntry_spec hs ⟨hoff,he⟩)
  · intro hoff
    exact ⟨_,if_pos (by omega)⟩

theorem natLpa_inArea {nid : UInt32} (h : NidInRange L nid) : L.InNatArea (L.natLpa nid) :=
  ⟨Nat.le_add_right _ _,Nat.add_lt_add_left h _⟩

theorem sitLpa_inArea {segID : UInt32} (h : SegInRange L segID) : L.InSitArea (L.sitLpa segID) :=
  ⟨Nat.le_add_right _ _,Nat.add_lt_add_left h _⟩

theorem natEntry_decides (hs : s.Tracks d L) (hL : L.OnDevice d) (e : NatJournalEntry) :
    Decides d L (NidInRange L e.nid) (applyNatEntry d s e) ((s.image d).putNat L e) := by
  constructor
  · intro hr
    obtain ⟨s₁,old,f,_,happ,hf⟩ := applyNatEntry_step hs hr (hL.nat _ (natLpa_inArea hr))
    rcases recordNatReclaim_cases d s₁ e.nid old e.newValue with ⟨rd,rn,hrec⟩ | hrec
    · exact .inl ⟨_,by rw [happ,hrec]; rfl,hf rd rn⟩
    · exact .inr (by rw [happ,hrec]; rfl)
  · intro hr
    have hseg : L.segmentCountNat = (RtfsSuperBlock.segmentCountNat s.superBlock).toNat := by
      rw [← hs.layout]
      rfl
    exact ⟨_,if_pos (by rw [← hseg]; exact Nat.not_lt.mp hr)⟩

theorem sitEntry_decides (hs : s.Tracks d L) (hL : L.OnDevice d) (e : SitJournalEntry) :
    Decides d L (SegInRange L e.segID) (applySitEntry d s e) ((s.image d).putSit L e) := by
  constructor
  · intro hr
    exact .inl (applySitEntry_step hs hr (hL.sit _ (sitLpa_inArea hr)))
  · intro hr
    have hseg : L.segmentCountSit = (RtfsSuperBlock.segmentCountSit s.superBlock).toNat := by
      rw [← hs.layout]
      rfl
    exact ⟨_,if_pos (by rw [← hseg]; exact Nat.not_lt.mp hr)⟩

theorem foldlM_decides {α : Type} (f : TxState → α → Except Errno TxState) (g : MetaImage → α → MetaImage)
    (P : α → Prop) (es : List α) (hstep : ∀ s : TxState, s.Tracks d L → ∀ e ∈ es,
      Decides d L (P e) (f s e) (g (s.image d) e)) (hs : s.Tracks d L) :
    Decides d L (∀ e ∈ es, P e) (es.foldlM f s) (es.foldl g (s.image d)) := by
  induction es generalizing s with
  | nil => exact ⟨fun _ => .inl ⟨s,rfl,hs,rfl⟩,fun h => absurd (fun e he => absurd he List.not_mem_nil) h⟩
  | cons e es ih =>
    have hhead := hstep s hs e List.mem_cons_self
    have hmore := fun (s : TxState) (hs : s.Tracks d L) =>
      @ih s (fun s hs e he => hstep s hs e (List.mem_cons_of_mem _ he)) hs
    rw [List.foldlM_cons,List.foldl_cons]
    constructor
    · intro hall
      obtain ⟨hp,hps⟩ := List.forall_mem_cons.mp hall
      rcases hhead.accept hp with ⟨s₁,h₁,ht₁,hi₁⟩ | h₁
      · rw [h₁,← hi₁]
        exact (hmore s₁ ht₁).accept hps
      · rw [h₁]
        exact .inr rfl
    · intro hall
      by_cases hp : P e
      · rcases hhead.accept hp with ⟨s₁,h₁,ht₁,_⟩ | h₁
        · rw [h₁]
          exact (hmore s₁ ht₁).reject (fun hps => hall (List.forall_mem_cons.mpr ⟨hp,hps⟩))
        · rw [h₁]
          exact ⟨_,rfl⟩
      · obtain ⟨err,h₁⟩ := hhead.reject hp
        rw [h₁]
        exact ⟨_,rfl⟩

theorem record_decides (hs : s.Tracks d L) (hL : L.OnDevice d) {r : JournalRecord} (hr : r.KeepsAreas) :
    Decides d L (r.InAreas L) ((recoveryHandler d).apply s r) ((s.image d).apply L r) := by
  cases r with
  | super es =>
    exact foldlM_decides applySuperEntry MetaImage.putSuper _ es
      (fun s hs e he => superEntry_decides hs (hr e he)) hs
  | nats es =>
    exact foldlM_decides (applyNatEntry d) (MetaImage.putNat L) _ es
      (fun s hs e _ => natEntry_decides hs hL e) hs
  | sits es =>
    exact foldlM_decides (applySitEntry d) (MetaImage.putSit L) _ es
      (fun s hs e _ => sitEntry_decides hs hL e) hs

theorem records_decide (hL : L.OnDevice d) {sb : Block} (hsb : layoutOf sb = L) {rs : List JournalRecord}
    (hr : ∀ r ∈ rs, r.KeepsAreas) :
    Decides d L (∀ r ∈ rs, r.InAreas L) (rs.foldlM (recoveryHandler d).apply (TxState.init sb))
      (MetaImage.replay L ⟨sb,d.blocks⟩ rs) :=
  foldlM_decides (recoveryHandler d).apply (MetaImage.apply L) (JournalRecord.InAreas L) rs
    (fun _ hs r h => record_decides hs hL (hr r h)) (init_tracks sb hsb)

end Decide

section Effect
variable {L : Layout} {d : CommDev}

def natEntriesOf (rs : List JournalRecord) : List NatJournalEntry := rs.flatMap JournalRecord.natEntries

def sitEntriesOf (rs : List JournalRecord) : List SitJournalEntry := rs.flatMap JournalRecord.sitEntries

def superEntriesOf (rs : List JournalRecord) : List SuperBlockJournalEntry :=
  rs.flatMap JournalRecord.superEntries

theorem apart_ne (hap : L.Apart) {nid segID : UInt32} (hn : NidInRange L nid) (hs : SegInRange L segID) :
    L.natLpa nid ≠ L.sitLpa segID := by
  intro he
  exact hap _ (natLpa_inArea hn) (he ▸ sitLpa_inArea hs)

theorem natOf_apply (hap : L.Apart) (m : MetaImage) {r : JournalRecord} (hr : r.InAreas L) {nid : UInt32}
    (hn : NidInRange L nid) : natOf L (m.apply L r).blocks nid =
      ((lastEntry NatJournalEntry.nid nid r.natEntries).map NatJournalEntry.newValue).getD
        (natOf L m.blocks nid) := by
  cases r with
  | super es =>
    change natOf L (es.foldl MetaImage.putSuper m).blocks nid = _
    rw [foldSuper_eq]
    rfl
  | nats es => exact (congrFun (natOf_foldNat m es) nid).trans (by rw [Updates.applyAll_last,last_map]; rfl)
  | sits es => exact natOf_foldSit m (fun e he => apart_ne hap hn (hr e he))

theorem sitOf_apply (hap : L.Apart) (m : MetaImage) {r : JournalRecord} (hr : r.InAreas L) {segID : UInt32}
    (hs : SegInRange L segID) : sitOf L (m.apply L r).blocks segID =
      ((lastEntry SitJournalEntry.segID segID r.sitEntries).map SitJournalEntry.newValue).getD
        (sitOf L m.blocks segID) := by
  cases r with
  | super es =>
    change sitOf L (es.foldl MetaImage.putSuper m).blocks segID = _
    rw [foldSuper_eq]
    rfl
  | nats es => exact sitOf_foldNat m (fun e he => apart_ne hap (hr e he) hs)
  | sits es => exact (congrFun (sitOf_foldSit m es) segID).trans (by rw [Updates.applyAll_last,last_map]; rfl)

theorem natOf_replay (hap : L.Apart) (m : MetaImage) {rs : List JournalRecord}
    (hr : ∀ r ∈ rs, r.InAreas L) {nid : UInt32} (hn : NidInRange L nid) :
    natOf L (m.replay L rs).blocks nid =
      ((lastEntry NatJournalEntry.nid nid (natEntriesOf rs)).map NatJournalEntry.newValue).getD
        (natOf L m.blocks nid) := by
  induction rs generalizing m with
  | nil => rfl
  | cons r rs ih =>
    have hrest := ih (m.apply L r) (fun q hq => hr q (List.mem_cons_of_mem _ hq))
    have hcons : natEntriesOf (r :: rs) = r.natEntries ++ natEntriesOf rs := List.flatMap_cons
    change natOf L (MetaImage.replay L (m.apply L r) rs).blocks nid = _
    rw [hrest,natOf_apply hap m (hr r List.mem_cons_self) hn,hcons,lastEntry_append]
    cases lastEntry NatJournalEntry.nid nid (natEntriesOf rs) <;> rfl

theorem sitOf_replay (hap : L.Apart) (m : MetaImage) {rs : List JournalRecord}
    (hr : ∀ r ∈ rs, r.InAreas L) {segID : UInt32} (hs : SegInRange L segID) :
    sitOf L (m.replay L rs).blocks segID =
      ((lastEntry SitJournalEntry.segID segID (sitEntriesOf rs)).map SitJournalEntry.newValue).getD
        (sitOf L m.blocks segID) := by
  induction rs generalizing m with
  | nil => rfl
  | cons r rs ih =>
    have hrest := ih (m.apply L r) (fun q hq => hr q (List.mem_cons_of_mem _ hq))
    have hcons : sitEntriesOf (r :: rs) = r.sitEntries ++ sitEntriesOf rs := List.flatMap_cons
    change sitOf L (MetaImage.replay L (m.apply L r) rs).blocks segID = _
    rw [hrest,sitOf_apply hap m (hr r List.mem_cons_self) hs,hcons,lastEntry_append]
    cases lastEntry SitJournalEntry.segID segID (sitEntriesOf rs) <;> rfl

theorem superBlock_replay (m : MetaImage) (rs : List JournalRecord) :
    (m.replay L rs).superBlock = superAfter m.superBlock (superEntriesOf rs) := by
  induction rs generalizing m with
  | nil => rfl
  | cons r rs ih =>
    have hhead : (m.apply L r).superBlock = superAfter m.superBlock r.superEntries := by
      cases r with
      | super es =>
        change (es.foldl MetaImage.putSuper m).superBlock = _
        rw [foldSuper_eq]
        rfl
      | nats es => exact foldNat_super m es
      | sits es => exact foldSit_super m es
    change (MetaImage.replay L (m.apply L r) rs).superBlock = _
    rw [ih,hhead,superEntriesOf,superEntriesOf,List.flatMap_cons,superAfter,superAfter,superAfter,
      List.foldl_append]

end Effect

structure Published (L : Layout) (d d' : CommDev) (rs : List JournalRecord) : Prop where
  nats : ∀ nid v, (lastEntry NatJournalEntry.nid nid (natEntriesOf rs)).map NatJournalEntry.newValue = some v →
    natOf L d'.blocks nid = v
  sits : ∀ segID v, (lastEntry SitJournalEntry.segID segID (sitEntriesOf rs)).map
    SitJournalEntry.newValue = some v → sitOf L d'.blocks segID = v
  rest : ∀ lpa i, ¬ Patch.Covered (areaPatches L rs) lpa i → (d'.blocks lpa).get i = (d.blocks lpa).get i

structure Accepts (d : CommDev) (L : Layout) (base size start : Nat) (rs : List JournalRecord)
    (fin : Nat) : Prop where
  trace : TxTrace d.blocks base size size start rs (some fin)
  inAreas : ∀ r ∈ rs, r.InAreas L

section Replay
variable {L : Layout} {d : CommDev} {base size start : Nat} {sb : Block}

theorem lastEntry_mem {α : Type} {key : α → UInt32} {k : UInt32} {es : List α} {e : α}
    (h : lastEntry key k es = some e) : e ∈ es ∧ key e = k := by
  have hmem := List.mem_of_getLast? h
  rw [List.mem_filter] at hmem
  exact ⟨hmem.1,of_decide_eq_true hmem.2⟩

theorem replay_published (hap : L.Apart) {rs : List JournalRecord} (hr : ∀ r ∈ rs, r.InAreas L)
    {d' : CommDev} (hd : d'.blocks = (MetaImage.replay L ⟨sb,d.blocks⟩ rs).blocks) :
    Published L d d' rs := by
  refine ⟨fun nid v hv => ?_,fun segID v hv => ?_,fun lpa i hout => ?_⟩
  · obtain ⟨e,he,rfl⟩ := Option.map_eq_some_iff.mp hv
    obtain ⟨hmem,hkey⟩ := lastEntry_mem he
    obtain ⟨r,hrs,her⟩ := List.mem_flatMap.mp hmem
    have hin : NidInRange L nid := by
      have hok := hr r hrs
      cases r with
      | super es => cases her
      | nats es => exact hkey ▸ hok e her
      | sits es => cases her
    rw [hd,natOf_replay hap _ hr hin,he]
    rfl
  · obtain ⟨e,he,rfl⟩ := Option.map_eq_some_iff.mp hv
    obtain ⟨hmem,hkey⟩ := lastEntry_mem he
    obtain ⟨r,hrs,her⟩ := List.mem_flatMap.mp hmem
    have hin : SegInRange L segID := by
      have hok := hr r hrs
      cases r with
      | super es => cases her
      | nats es => cases her
      | sits es => exact hkey ▸ hok e her
    rw [hd,sitOf_replay hap _ hr hin,he]
    rfl
  · rw [hd,(replay_patches L ⟨sb,d.blocks⟩ rs).1]
    exact Patch.putAll_outside d.blocks (areaPatches L rs) lpa i hout

theorem replay_fold (hs : 0 < size) :
    commRecoveryReplayOneTransaction d sb start base (base + size) =
      match (parseTx d base (base + size) size start).1.foldlM (recoveryHandler d).apply (TxState.init sb) with
      | .error e => .failed e d
      | .ok s =>
        match (parseTx d base (base + size) size start).2 with
        | .failed e => .failed e d
        | .stopped => .uncommitted
        | .ended k =>
          match commRecoveryCommitTx d s with
          | (d',some e) => .failed e d'
          | (d',none) => .committed (commRecoveryAppendReclaimRecord d' s)
              (nextJournal base (base + size) ((nextJournal base (base + size))^[k] start)) s.superBlock := by
  rw [commRecoveryReplayOneTransaction,Nat.add_sub_cancel_left,if_neg hs.ne',scanTx_parse]
  cases (parseTx d base (base + size) size start).1.foldlM (recoveryHandler d).apply (TxState.init sb) with
  | error e => rfl
  | ok s => cases (parseTx d base (base + size) size start).2 <;> rfl

theorem replay_accepts (hr : RingOk d base size) (h1 : base ≤ start) (h2 : start < base + size)
    (hdev : (layoutOf sb).OnDevice d) (hap : (layoutOf sb).Apart) {rs : List JournalRecord} {fin : Nat}
    (hacc : Accepts d (layoutOf sb) base size start rs fin) (hkeep : ∀ r ∈ rs, r.KeepsAreas)
    (hio : ¬ (commRecoveryReplayOneTransaction d sb start base (base + size)).IoFailed) :
    ∃ d', commRecoveryReplayOneTransaction d sb start base (base + size) =
      .committed d' (Ring.next base size fin) (superAfter sb (superEntriesOf rs)) ∧
      Published (layoutOf sb) d d' rs := by
  obtain ⟨k,hparse,hfin⟩ := parseTx_trace hr h1 h2 hacc.trace
  rw [replay_fold hr.pos,hparse] at hio ⊢
  simp only at hio ⊢
  rcases (records_decide hdev rfl hkeep).accept hacc.inAreas with ⟨s,hfold,ht,himg⟩ | hfold
  · rw [hfold]
    simp only [commitTx_spec ht]
    refine ⟨commRecoveryAppendReclaimRecord (d.withBlocks (s.view d)) s,?_,
      @replay_published _ d sb hap _ hacc.inAreas _ ?_⟩
    · have hsb : s.superBlock = superAfter sb (superEntriesOf rs) := by
        have he := congrArg MetaImage.superBlock himg
        rw [superBlock_replay] at he
        exact he
      rw [hfin,hsb]
      rfl
    · rw [appendReclaimRecord_blocks]
      exact congrArg MetaImage.blocks himg
  · rw [hfold] at hio
    exact absurd rfl hio

theorem replay_rejects (hr : RingOk d base size) (h1 : base ≤ start) (h2 : start < base + size)
    (hdev : (layoutOf sb).OnDevice d)
    (hkeep : ∀ rs, TxTrace d.blocks base size size start rs none → ∀ r ∈ rs, r.KeepsAreas)
    (hno : ¬ ∃ rs fin, Accepts d (layoutOf sb) base size start rs fin) :
    commRecoveryReplayOneTransaction d sb start base (base + size) = .uncommitted ∨
      ∃ e, commRecoveryReplayOneTransaction d sb start base (base + size) = .failed e d := by
  obtain ⟨htrace,hended⟩ := trace_parseTx hr size h1 h2
  have hdec := records_decide hdev rfl (hkeep _ htrace)
  rw [replay_fold hr.pos]
  cases hfold : (parseTx d base (base + size) size start).1.foldlM (recoveryHandler d).apply
      (TxState.init sb) with
  | error e => exact .inr ⟨e,rfl⟩
  | ok s =>
    cases hend : (parseTx d base (base + size) size start).2 with
    | failed e => exact .inr ⟨e,rfl⟩
    | stopped => exact .inl rfl
    | ended k =>
      have hin : ∀ r ∈ (parseTx d base (base + size) size start).1, r.InAreas (layoutOf sb) := by
        by_contra hc
        obtain ⟨err,herr⟩ := hdec.reject hc
        rw [hfold] at herr
        cases herr
      exact absurd ⟨_,_,hended k hend,hin⟩ hno

end Replay

theorem replay_transaction_decided (d : CommDev) (sb : Block) (base size start : Nat)
    (hr : RingOk d base size) (h1 : base ≤ start) (h2 : start < base + size)
    (hdev : (layoutOf sb).OnDevice d) (hap : (layoutOf sb).Apart)
    (hkeep : ∀ rs, TxTrace d.blocks base size size start rs none → ∀ r ∈ rs, r.KeepsAreas)
    (hio : ¬ (commRecoveryReplayOneTransaction d sb start base (base + size)).IoFailed) :
    ((∃ d' next sb', commRecoveryReplayOneTransaction d sb start base (base + size) =
        .committed d' next sb') ↔ ∃ rs fin, Accepts d (layoutOf sb) base size start rs fin) ∧
    (∀ rs fin, Accepts d (layoutOf sb) base size start rs fin →
      ∃ d', commRecoveryReplayOneTransaction d sb start base (base + size) =
        .committed d' (Ring.next base size fin) (superAfter sb (superEntriesOf rs)) ∧
        Published (layoutOf sb) d d' rs) ∧
    ((¬ ∃ rs fin, Accepts d (layoutOf sb) base size start rs fin) →
      commRecoveryReplayOneTransaction d sb start base (base + size) = .uncommitted ∨
      ∃ e, commRecoveryReplayOneTransaction d sb start base (base + size) = .failed e d) ∧
    replayOneTransactionChecked d sb start base (base + size) =
      some (commRecoveryReplayOneTransaction d sb start base (base + size)) := by
  have hyes := fun rs fin (hacc : Accepts d (layoutOf sb) base size start rs fin) =>
    replay_accepts hr h1 h2 hdev hap hacc (hkeep rs hacc.trace.unfinished) hio
  have hno := @replay_rejects d base size start sb hr h1 h2 hdev hkeep
  refine ⟨⟨fun ⟨d',next,sb',hc⟩ => ?_,fun ⟨rs,fin,hacc⟩ => ?_⟩,hyes,hno,replay_checked d sb start base _⟩
  · by_contra hn
    rcases hno hn with he | ⟨e,he⟩
    · rw [hc] at he
      cases he
    · rw [hc] at he
      cases he
  · obtain ⟨d',hc,_⟩ := hyes rs fin hacc
    exact ⟨_,_,_,hc⟩

section Small

theorem Layout.Ok.onDevice {L : Layout} {d : CommDev} (hL : L.Ok d) : L.OnDevice d := by
  have h1 := hL.sit_nat
  have h2 := hL.nat_main
  have h3 := hL.main_end
  refine ⟨fun lpa h => hL.held lpa ?_,fun lpa h => hL.held lpa ?_⟩
  · unfold Layout.InNatArea at h
    omega
  · unfold Layout.InSitArea at h
    omega

theorem Layout.Ok.apart {L : Layout} {d : CommDev} (hL : L.Ok d) : L.Apart := by
  intro lpa hn hs
  have h1 := hL.sit_nat
  unfold Layout.InNatArea at hn
  unfold Layout.InSitArea at hs
  omega

def oneMove : CommDev := journalDisk (twoMoves 2601)

theorem oneMove_trace : TxTrace oneMove.blocks 512 512 512 512 [.nats [⟨5,⟨5,2601⟩⟩]] (some 512) := by
  refine .last ?_
  have hparse := lastBlock_parse (show recordsLen [.nats [⟨5,⟨5,2601⟩⟩]] + 4 ≤ 4096 by decide)
  have htrace := trace_parse (lastBlock [.nats [⟨5,⟨5,2601⟩⟩]]) 0
  rwa [hparse] at htrace

theorem oneMove_decided : ∃ d', commRecoveryReplayOneTransaction oneMove smallSuper 512 512 (512 + 512) =
      .committed d' 513 smallSuper ∧ natOf smallAreas d'.blocks 5 = ⟨5,2601⟩ := by
  have hL : smallAreas.Ok oneMove := smallAreas_ok _
  have hr : RingOk oneMove 512 512 := ringOk hL
  obtain ⟨k,hparse,_⟩ := parseTx_trace hr le_rfl (by decide) oneMove_trace
  have hok : ∀ r ∈ [JournalRecord.nats [⟨5,⟨5,2601⟩⟩]], r.Ok smallAreas oneMove := by
    intro r hr
    rw [List.mem_singleton.mp hr]
    exact fun e he => List.mem_singleton.mp he ▸ ⟨by decide,smallDev_holds _ _ (by decide)⟩
  obtain ⟨s,hfold,ht,_⟩ := replay_spec (init_tracks smallSuper layoutOf_smallSuper) hL hok
  have hio : ¬ (commRecoveryReplayOneTransaction oneMove smallSuper 512 512 (512 + 512)).IoFailed := by
    rw [replay_fold (by decide),hparse]
    simp only [hfold,commitTx_spec ht]
    exact id
  have hdec := (replay_transaction_decided oneMove smallSuper 512 512 512 hr le_rfl (by decide)
    (layoutOf_smallSuper ▸ hL.onDevice) (layoutOf_smallSuper ▸ hL.apart)
    (fun rs htrace r hrs => by
      have hpre := htrace.isPrefix hr le_rfl (by decide)
      rw [hparse] at hpre
      rw [List.mem_singleton.mp (hpre.subset hrs)]
      trivial) hio).2.1 [.nats [⟨5,⟨5,2601⟩⟩]] 512
  rw [layoutOf_smallSuper] at hdec
  obtain ⟨d',hcommitted,hpub⟩ := hdec ⟨oneMove_trace,fun r hr => by
    rw [List.mem_singleton.mp hr]
    exact fun e he => List.mem_singleton.mp he ▸ (by decide : 5 / 512 < 1 * 512)⟩
  exact ⟨d',hcommitted,hpub.nats 5 ⟨5,2601⟩ rfl⟩

end Small

end Rtfs
