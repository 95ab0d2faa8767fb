import Rtfs.Comm.Recover

namespace Rtfs

inductive BlockEnd
  | stopped
  | ended
  | through
  deriving DecidableEq

def addRecord (r : JournalRecord) (p : List JournalRecord × BlockEnd) : List JournalRecord × BlockEnd :=
  (r :: p.1,p.2)

def parseBlock (b : Block) (off : Nat) : List JournalRecord × BlockEnd :=
  if off + 4 ≤ 4096 then
    let len := (headerAt b off).len.toNat
    if len = 0 then ([],.stopped)
    else if len < 4 ∨ 4096 < off + len then ([],.stopped)
    else
      let payload := b.read (off + 4) (len - 4)
      match JournalType.ofCode (headerAt b off).type with
      | some .superBlock =>
        if (len - 4) % 8 ≠ 0 then ([],.stopped)
        else addRecord (.super (superEntryCodec.decodeList ((len - 4) / 8) payload)) (parseBlock b (off + len))
      | some .nats =>
        if (len - 4) % 12 ≠ 0 then ([],.stopped)
        else addRecord (.nats (natJournalCodec.decodeList ((len - 4) / 12) payload)) (parseBlock b (off + len))
      | some .sits =>
        if (len - 4) % 72 ≠ 0 then ([],.stopped)
        else addRecord (.sits (sitJournalCodec.decodeList ((len - 4) / 72) payload)) (parseBlock b (off + len))
      | some .nop => ([],.through)
      | some .fin => if len ≠ 4 then ([],.stopped) else ([],.ended)
      | none => ([],.stopped)
  else ([],.through)
termination_by 4096 - off

section Block
variable {σ : Type} (h : Handler σ)

def BlockEnd.outcome (s : σ) : BlockEnd → BlockOutcome σ
  | .stopped => .stopped
  | .ended => .ended s
  | .through => .through s

theorem scanBlock_parse (b : Block) (off : Nat) (s : σ) :
    scanBlock h b off s = BlockOutcome.continue (fun s => (parseBlock b off).2.outcome s)
      ((parseBlock b off).1.foldlM h.apply s) := by
  have hrec (r : JournalRecord) (p : List JournalRecord × BlockEnd) (s : σ) :
      BlockOutcome.continue (fun s => (addRecord r p).2.outcome s) ((addRecord r p).1.foldlM h.apply s) =
        BlockOutcome.continue (fun s => BlockOutcome.continue (fun s => p.2.outcome s)
          (p.1.foldlM h.apply s)) (h.apply s r) := by
    rw [addRecord,List.foldlM_cons]
    cases h.apply s r <;> rfl
  induction off using parseBlock.induct b generalizing s with
  | case1 off h1 len h2 =>
    rw [scanBlock,parseBlock,if_pos h1,if_pos h1]
    simp only [len] at h2
    simp only [h2,if_true]
    rfl
  | case2 off h1 len h2 h3 =>
    rw [scanBlock,parseBlock,if_pos h1,if_pos h1]
    simp only [len] at h2 h3
    simp only [h2,h3,if_true,if_false]
    rfl
  | case3 off h1 len h2 h3 h4 h5 =>
    rw [scanBlock,parseBlock,if_pos h1,if_pos h1]
    simp only [len] at h2 h3 h5
    simp only [h2,h3,h4,if_false]
    rw [if_pos h5,if_pos h5]
    rfl
  | case4 off h1 len h2 h3 h4 h5 ih =>
    rw [scanBlock,parseBlock,if_pos h1,if_pos h1]
    simp only [len] at h2 h3 h5 ih
    simp only [h2,h3,h4,if_false]
    rw [if_neg h5,if_neg h5,hrec]
    change _ = BlockOutcome.continue _ (h.super s _)
    generalize h.super s _ = x
    cases x with
    | error e => rfl
    | ok s' => exact ih s'
  | case5 off h1 len h2 h3 h4 h5 =>
    rw [scanBlock,parseBlock,if_pos h1,if_pos h1]
    simp only [len] at h2 h3 h5
    simp only [h2,h3,h4,if_false]
    rw [if_pos h5,if_pos h5]
    rfl
  | case6 off h1 len h2 h3 h4 h5 ih =>
    rw [scanBlock,parseBlock,if_pos h1,if_pos h1]
    simp only [len] at h2 h3 h5 ih
    simp only [h2,h3,h4,if_false]
    rw [if_neg h5,if_neg h5,hrec]
    change _ = BlockOutcome.continue _ (h.nats s _)
    generalize h.nats s _ = x
    cases x with
    | error e => rfl
    | ok s' => exact ih s'
  | case7 off h1 len h2 h3 h4 h5 =>
    rw [scanBlock,parseBlock,if_pos h1,if_pos h1]
    simp only [len] at h2 h3 h5
    simp only [h2,h3,h4,if_false]
    rw [if_pos h5,if_pos h5]
    rfl
  | case8 off h1 len h2 h3 h4 h5 ih =>
    rw [scanBlock,parseBlock,if_pos h1,if_pos h1]
    simp only [len] at h2 h3 h5 ih
    simp only [h2,h3,h4,if_false]
    rw [if_neg h5,if_neg h5,hrec]
    change _ = BlockOutcome.continue _ (h.sits s _)
    generalize h.sits s _ = x
    cases x with
    | error e => rfl
    | ok s' => exact ih s'
  | case9 off h1 len h2 h3 h4 =>
    rw [scanBlock,parseBlock,if_pos h1,if_pos h1]
    simp only [len] at h2 h3
    simp only [h2,h3,h4,if_false]
    rfl
  | case10 off h1 len h2 h3 h4 h5 =>
    rw [scanBlock,parseBlock,if_pos h1,if_pos h1]
    simp only [len] at h2 h3 h5
    simp only [h2,h3,h4,if_false]
    rw [if_pos h5,if_pos h5]
    rfl
  | case11 off h1 len h2 h3 h4 h5 =>
    rw [scanBlock,parseBlock,if_pos h1,if_pos h1]
    simp only [len] at h2 h3 h5
    simp only [h2,h3,h4,if_false]
    rw [if_neg h5,if_neg h5]
    rfl
  | case12 off h1 len h2 h3 h4 =>
    rw [scanBlock,parseBlock,if_pos h1,if_pos h1]
    simp only [len] at h2 h3
    simp only [h2,h3,h4,if_false]
    rfl
  | case13 off h1 =>
    rw [scanBlock,parseBlock,if_neg h1,if_neg h1]
    rfl

end Block

def collector : Handler (List JournalRecord) :=
  ⟨fun s es => .ok (s ++ [.super es]),fun s es => .ok (s ++ [.nats es]),fun s es => .ok (s ++ [.sits es])⟩

theorem collector_records (s rs : List JournalRecord) : rs.foldlM collector.apply s = .ok (s ++ rs) := by
  induction rs generalizing s with
  | nil => rw [List.append_nil]; rfl
  | cons r rs ih =>
    have hr : collector.apply s r = .ok (s ++ [r]) := by cases r <;> rfl
    rw [List.foldlM_cons,hr]
    exact (ih (s ++ [r])).trans (by rw [List.append_assoc]; rfl)

theorem parse_last {b : Block} {rs : List JournalRecord} (hb : LastBlock b rs) :
    parseBlock b 0 = (rs,.ended) := by
  have hscan := (scanBlock_parse collector b 0 []).symm.trans (scanBlock_last collector hb [])
  rw [collector_records,collector_records,List.nil_append,List.nil_append] at hscan
  generalize parseBlock b 0 = q at hscan ⊢
  obtain ⟨ps,e⟩ := q
  cases e with
  | stopped => cases hscan
  | ended =>
    cases hscan
    rfl
  | through => cases hscan

-- ended k: the END block comes after k others
inductive TxEnd
  | failed (e : Errno)
  | stopped
  | ended (k : Nat)
  deriving DecidableEq

def TxEnd.later : TxEnd → TxEnd
  | .ended k => .ended (k + 1)
  | e => e

section Tx
variable (d : CommDev) (journalStartLpa journalEndLpa : Nat)

def nextJournal (lpa : Nat) : Nat := commRecoveryNextJournalLpa lpa journalStartLpa journalEndLpa

def parseTx : Nat → Nat → List JournalRecord × TxEnd
  | 0, _ => ([],.stopped)
  | n + 1, lpa =>
    match commRecoveryReadLpa d (UInt32.ofNat lpa) with
    | .error e => ([],.failed e)
    | .ok b =>
      match (parseBlock b 0).2 with
      | .stopped => ((parseBlock b 0).1,.stopped)
      | .ended => ((parseBlock b 0).1,.ended 0)
      | .through =>
        ((parseBlock b 0).1 ++ (parseTx n (nextJournal journalStartLpa journalEndLpa lpa)).1,
          (parseTx n (nextJournal journalStartLpa journalEndLpa lpa)).2.later)

variable {d journalStartLpa journalEndLpa}
variable {σ : Type} (h : Handler σ)

def TxEnd.outcome (journalStartLpa journalEndLpa lpa : Nat) (s : σ) : TxEnd → TxOutcome σ
  | .failed e => .failed e
  | .stopped => .stopped
  | .ended k => .ended s ((nextJournal journalStartLpa journalEndLpa)^[k] lpa)

def TxOutcome.continue (k : σ → TxOutcome σ) : Except Errno σ → TxOutcome σ
  | .error e => .failed e
  | .ok s => k s

theorem outcome_later (lpa : Nat) (s : σ) (e : TxEnd) :
    e.later.outcome journalStartLpa journalEndLpa lpa s =
      e.outcome journalStartLpa journalEndLpa (nextJournal journalStartLpa journalEndLpa lpa) s := by
  cases e with
  | failed e => rfl
  | stopped => rfl
  | ended k => rw [TxEnd.later,TxEnd.outcome,Function.iterate_succ_apply,TxEnd.outcome]

theorem scanTx_parse (n lpa : Nat) (s : σ) :
    scanTx h d journalStartLpa journalEndLpa n lpa s =
      TxOutcome.continue (fun s => (parseTx d journalStartLpa journalEndLpa n lpa).2.outcome
        journalStartLpa journalEndLpa lpa s)
        ((parseTx d journalStartLpa journalEndLpa n lpa).1.foldlM h.apply s) := by
  induction n generalizing lpa s with
  | zero => rfl
  | succ n ih =>
    rw [scanTx,parseTx]
    cases commRecoveryReadLpa d (UInt32.ofNat lpa) with
    | error e => rfl
    | ok b =>
      simp only [scanBlock_parse]
      cases hend : (parseBlock b 0).2 with
      | stopped =>
        simp only
        cases (parseBlock b 0).1.foldlM h.apply s <;> rfl
      | ended =>
        simp only
        cases (parseBlock b 0).1.foldlM h.apply s <;> rfl
      | through =>
        simp only [List.foldlM_append]
        cases (parseBlock b 0).1.foldlM h.apply s with
        | error e => rfl
        | ok s' =>
          change scanTx h d journalStartLpa journalEndLpa n _ s' = TxOutcome.continue _ _
          rw [ih]
          simp only [outcome_later]
          rfl

def scanReads (d : CommDev) (journalStartLpa journalEndLpa : Nat) : Nat → Nat → σ → Nat
  | 0, _, _ => 0
  | n + 1, lpa, s =>
    match commRecoveryReadLpa d (UInt32.ofNat lpa) with
    | .error _ => 1
    | .ok b =>
      match scanBlock h b 0 s with
      | .through s' => 1 + scanReads d journalStartLpa journalEndLpa n
          (nextJournal journalStartLpa journalEndLpa lpa) s'
      | _ => 1

theorem scanReads_le (n lpa : Nat) (s : σ) :
    scanReads h d journalStartLpa journalEndLpa n lpa s ≤ n := by
  induction n generalizing lpa s with
  | zero => exact le_rfl
  | succ n ih =>
    rw [scanReads]
    split
    · omega
    · split
      · have hle := ih (nextJournal journalStartLpa journalEndLpa lpa) ‹σ›
        omega
      · omega

end Tx

section Ring
variable {d : CommDev} {base size : Nat}

theorem nextJournal_iterate (hs : 0 < size) (o k : Nat) :
    (nextJournal base (base + size))^[k] (Ring.slot base size o) = Ring.slot base size (o + k) :=
  Ring.next_iterate hs o k

theorem parseTx_ended {k : Nat} (hr : RingOk d base size) {n o : Nat} :
    (parseTx d base (base + size) n (Ring.slot base size o)).2 = .ended k ↔
      k < n ∧ (∀ j < k, (parseBlock (ringBlock d base size (o + j)) 0).2 = .through) ∧
        (parseBlock (ringBlock d base size (o + k)) 0).2 = .ended := by
  induction n generalizing k o with
  | zero =>
    refine iff_of_false (fun h => ?_) (fun h => absurd h.1 (Nat.not_lt_zero k))
    cases h
  | succ n ih =>
    have hnext : nextJournal base (base + size) (Ring.slot base size o) = Ring.slot base size (o + 1) :=
      nextJournalLpa_slot hr o
    rw [parseTx,read_slot hr]
    cases hend : (parseBlock (ringBlock d base size o) 0).2 with
    | stopped =>
      simp only [hend]
      refine iff_of_false (fun h => ?_) (fun ⟨_,hthrough,hlast⟩ => ?_)
      · cases h
      · cases k with
        | zero => rw [Nat.add_zero,hend] at hlast; cases hlast
        | succ k =>
          have h0 := hthrough 0 (Nat.zero_lt_succ k)
          rw [Nat.add_zero,hend] at h0
          cases h0
    | ended =>
      simp only [hend]
      constructor
      · intro h
        cases h
        exact ⟨Nat.zero_lt_succ n,fun j hj => absurd hj (Nat.not_lt_zero j),hend⟩
      · rintro ⟨_,hthrough,_⟩
        cases k with
        | zero => rfl
        | succ k =>
          have h0 := hthrough 0 (Nat.zero_lt_succ k)
          rw [Nat.add_zero,hend] at h0
          cases h0
    | through =>
      simp only [hend,hnext]
      constructor
      · intro h
        cases hp : (parseTx d base (base + size) n (Ring.slot base size (o + 1))).2 with
        | failed e => rw [hp] at h; cases h
        | stopped => rw [hp] at h; cases h
        | ended j =>
          rw [hp] at h
          cases h
          obtain ⟨hj,hthrough,hlast⟩ := ih.mp hp
          refine ⟨Nat.succ_lt_succ hj,fun i hi => ?_,by rwa [show o + (j + 1) = o + 1 + j by omega]⟩
          cases i with
          | zero => exact hend
          | succ i =>
            have hi' := hthrough i (by omega)
            rwa [show o + 1 + i = o + (i + 1) by omega] at hi'
      · rintro ⟨hk,hthrough,hlast⟩
        cases k with
        | zero => rw [Nat.add_zero,hend] at hlast; cases hlast
        | succ k =>
          have hp := ih.mpr ⟨Nat.lt_of_succ_lt_succ hk,fun i hi => by
            have hi' := hthrough (i + 1) (by omega)
            rwa [show o + (i + 1) = o + 1 + i by omega] at hi',by
            rwa [show o + (k + 1) = o + 1 + k by omega] at hlast⟩
          rw [hp]
          rfl

end Ring

section Replay

theorem replay_committed_parse {d d' : CommDev} {sb sb' : Block} {lpa next start fin : Nat}
    (h : commRecoveryReplayOneTransaction d sb lpa start fin = .committed d' next sb') :
    ∃ k, (parseTx d start fin (fin - start) lpa).2 = .ended k ∧
      next = (nextJournal start fin)^[k + 1] lpa := by
  unfold commRecoveryReplayOneTransaction at h
  split at h
  · cases h
  · rw [scanTx_parse] at h
    cases hfold : (parseTx d start fin (fin - start) lpa).1.foldlM (recoveryHandler d).apply
        (TxState.init sb) with
    | error e =>
      rw [hfold] at h
      cases h
    | ok s =>
      rw [hfold] at h
      cases hend : (parseTx d start fin (fin - start) lpa).2 with
      | failed e =>
        simp only [TxOutcome.continue,hend,TxEnd.outcome] at h
        cases h
      | stopped =>
        simp only [TxOutcome.continue,hend,TxEnd.outcome] at h
        cases h
      | ended k =>
        simp only [TxOutcome.continue,hend,TxEnd.outcome] at h
        refine ⟨k,rfl,?_⟩
        split at h
        · cases h
        · cases h
          rw [Function.iterate_succ_apply']
          rfl

def JournalOk (L : Layout) (d : CommDev) : Prop :=
  ∀ i, ∀ r ∈ (parseBlock (journalBlock d L i) 0).1, r.Ok L d

variable {L : Layout} {d : CommDev}

theorem JournalOk.congr {d' : CommDev} (h : JournalOk L d) (hb : d'.blockCount = d.blockCount)
    (hj : SameJournal L d d') : JournalOk L d' := by
  intro i r hr
  rw [hj i] at hr
  exact (h i r hr).congr hb

def parseAt (d : CommDev) (L : Layout) (n o : Nat) : List JournalRecord × TxEnd :=
  parseTx d L.metaJournalBlkaddr (L.metaJournalBlkaddr + L.journalSize) n (journalSlot L o)

theorem parseAt_succ (hL : L.Ok d) (n o : Nat) : parseAt d L (n + 1) o =
    match (parseBlock (journalBlock d L o) 0).2 with
    | .stopped => ((parseBlock (journalBlock d L o) 0).1,.stopped)
    | .ended => ((parseBlock (journalBlock d L o) 0).1,.ended 0)
    | .through => ((parseBlock (journalBlock d L o) 0).1 ++ (parseAt d L n (o + 1)).1,
        (parseAt d L n (o + 1)).2.later) := by
  have hnext : nextJournal L.metaJournalBlkaddr (L.metaJournalBlkaddr + L.journalSize) (journalSlot L o) =
      journalSlot L (o + 1) := nextJournalLpa_slot (ringOk hL) o
  have hread : commRecoveryReadLpa d (UInt32.ofNat (journalSlot L o)) = .ok (journalBlock d L o) :=
    read_slot (ringOk hL) o
  rw [parseAt,parseTx,hread]
  simp only [hnext]
  rfl

theorem parseAt_read (hL : L.Ok d) (n o : Nat) (e : Errno) : (parseAt d L n o).2 ≠ .failed e := by
  induction n generalizing o with
  | zero => exact fun he => by cases he
  | succ n ih =>
    rw [parseAt_succ hL]
    cases (parseBlock (journalBlock d L o) 0).2 with
    | stopped => exact fun he => by cases he
    | ended => exact fun he => by cases he
    | through =>
      simp only
      cases hp : (parseAt d L n (o + 1)).2 with
      | failed e' => exact fun he => ih (o + 1) (by rw [hp]; exact he)
      | stopped => exact fun he => by cases he
      | ended k => exact fun he => by cases he

theorem parseAt_mem (hL : L.Ok d) (n o : Nat) {r : JournalRecord} (hr : r ∈ (parseAt d L n o).1) :
    ∃ i, r ∈ (parseBlock (journalBlock d L i) 0).1 := by
  induction n generalizing o with
  | zero => cases hr
  | succ n ih =>
    rw [parseAt_succ hL] at hr
    cases hend : (parseBlock (journalBlock d L o) 0).2 with
    | stopped => exact ⟨o,by simpa only [hend] using hr⟩
    | ended => exact ⟨o,by simpa only [hend] using hr⟩
    | through =>
      simp only [hend] at hr
      rcases List.mem_append.mp hr with hr | hr
      · exact ⟨o,hr⟩
      · exact ih (o + 1) hr

theorem JournalOk.parsed (hj : JournalOk L d) (hL : L.Ok d) (n o : Nat) :
    ∀ r ∈ (parseAt d L n o).1, r.Ok L d := by
  intro r hr
  obtain ⟨i,hi⟩ := parseAt_mem hL n o hr
  exact hj i r hi

theorem replay_parsed (hL : L.Ok d) {o : Nat} (hrs : ∀ r ∈ (parseAt d L L.journalSize o).1, r.Ok L d)
    {sb : Block} (hsb : layoutOf sb = L) :
    (∀ k, (parseAt d L L.journalSize o).2 = .ended k →
      ∃ d', commRecoveryReplayOneTransaction d sb (journalSlot L o) L.metaJournalBlkaddr
          (L.metaJournalBlkaddr + L.journalSize) =
        .committed d' (journalSlot L (o + k + 1))
          (MetaImage.replay L ⟨sb,d.blocks⟩ (parseAt d L L.journalSize o).1).superBlock ∧
        Recovered L d d' (MetaImage.replay L ⟨sb,d.blocks⟩ (parseAt d L L.journalSize o).1)) ∧
    ((∀ k, (parseAt d L L.journalSize o).2 ≠ .ended k) →
      commRecoveryReplayOneTransaction d sb (journalSlot L o) L.metaJournalBlkaddr
        (L.metaJournalBlkaddr + L.journalSize) = .uncommitted) := by
  obtain ⟨s,hfold,hs,hi⟩ := replay_spec (init_tracks (d := d) sb hsb) hL hrs
  rw [init_image] at hi
  have hscan := @scanTx_parse d L.metaJournalBlkaddr (L.metaJournalBlkaddr + L.journalSize) _
    (recoveryHandler d) L.journalSize (journalSlot L o) (TxState.init sb)
  change _ = TxOutcome.continue (fun s => (parseAt d L L.journalSize o).2.outcome _ _ _ s)
    (List.foldlM _ _ (parseAt d L L.journalSize o).1) at hscan
  rw [hfold] at hscan
  have hpos := Nat.ne_of_gt hL.journal_pos
  refine ⟨fun k hk => ?_,fun hk => ?_⟩
  · have hlast := @nextJournal_iterate L.metaJournalBlkaddr L.journalSize hL.journal_pos o k
    change _ = journalSlot L (o + k) at hlast
    simp only [hk,TxOutcome.continue,TxEnd.outcome] at hscan
    change scanTx _ _ _ _ _ _ _ = .ended s ((nextJournal _ _)^[k] (Ring.slot _ _ o)) at hscan
    rw [hlast] at hscan
    refine ⟨commRecoveryAppendReclaimRecord (d.withBlocks (s.view d)) s,?_,?_⟩
    · rw [commRecoveryReplayOneTransaction,Nat.add_sub_cancel_left,if_neg hpos,hscan]
      simp only [commitTx_spec hs]
      rw [← hi]
      have hnext := nextJournalLpa_slot (ringOk hL) (o + k)
      change commRecoveryNextJournalLpa (journalSlot L (o + k)) _ _ = journalSlot L (o + k + 1) at hnext
      rw [hnext]
      rfl
    · rw [← hi]
      refine ⟨by simp [TxState.image],by simp [CommDev.withBlocks],?_⟩
      rw [appendReclaimRecord_eq]
      exact List.prefix_append _ _
  · rw [commRecoveryReplayOneTransaction,Nat.add_sub_cancel_left,if_neg hpos]
    cases hend : (parseAt d L L.journalSize o).2 with
    | failed e => exact absurd hend (parseAt_read hL L.journalSize o e)
    | stopped =>
      simp only [hend,TxOutcome.continue,TxEnd.outcome] at hscan
      rw [hscan]
    | ended k => exact absurd hend (hk k)

end Replay

end Rtfs
