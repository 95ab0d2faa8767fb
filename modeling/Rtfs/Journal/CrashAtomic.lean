import Rtfs.Journal.BlockCount
import Rtfs.Journal.CrashRecovery

namespace Rtfs

def tornWrite (w : JournalWriter) (d : CommDev) (curTail : Nat) (reached : Nat → Bool) : CommDev :=
  d.withBlocks (Updates.applyAll d.blocks
    ((journalWriterRequests w (1 + w.bufferTailIdx) 0 curTail).filter (fun r => reached r.1)))

section Torn
variable {L : Layout} {d : CommDev}

theorem stopsAt_of_torn (hL : L.Ok d) {o : Nat} (full : List (List JournalRecord))
    (him : ∀ i rs, full[i]? = some rs → FullBlock (journalBlock d L (o + i)) rs)
    (hz : (headerAt (journalBlock d L (o + full.length)) 0).len = 0)
    (hr : ∀ r ∈ full.flatten, r.Ok L d) : StopsAt L d o := by
  intro d' sb hb hj hsb
  have hL' := hL.congr hb
  obtain ⟨s,hfold,_⟩ := replay_spec (init_tracks (d := d') sb hsb) hL'
    (fun r h => (hr r h).congr hb)
  rw [commRecoveryReplayOneTransaction,Nat.add_sub_cancel_left,
    if_neg (Nat.ne_of_gt hL.journal_pos)]
  have hscan := scanTx_torn (recoveryHandler d') (ringOk hL') full o L.journalSize
    (fun i rs hi => by
      change FullBlock (journalBlock d' L (o + i)) rs
      rw [hj]
      exact him i rs hi) (by
      change (headerAt (journalBlock d' L (o + full.length)) 0).len = 0
      rw [hj]
      exact hz) (TxState.init sb) s hfold
  change scanTx _ d' _ _ _ (journalSlot L o) _ = _ at hscan
  rw [hscan]

theorem tiled_append {f : Nat → Block} {o : Nat} {txs : List Tx} {tx : Tx} (ht : Tiled f o txs)
    (him : TxImage (fun i => f (o + txBlocks txs + i)) tx) : Tiled f o (txs ++ [tx]) := by
  induction txs generalizing o with
  | nil => exact ⟨him,trivial⟩
  | cons q txs ih =>
    refine ⟨ht.1,ih ht.2 ?_⟩
    rw [txBlocks_cons,← Nat.add_assoc] at him
    exact him

theorem RanOnDisk.of_outside {kh : Khash} {d₀ d' : CommDev} {p : Nat} (hL : L.Ok d₀)
    {js js' : List JournalContainer} {txs txs' : List Tx} (hr : RanOnDisk L kh d₀ d p js txs)
    (hb : d'.blockCount = d.blockCount)
    (hout : ∀ lpa < L.natBlkaddr + L.segmentCountNat * blockPerSegment,
      lpa < L.metaJournalBlkaddr ∨ L.metaJournalBlkaddr + L.journalSize ≤ lpa →
      d'.blocks lpa = d.blocks lpa)
    (henc : List.Forall₂ (Encodes kh) js' txs') (ht : Tiled (journalBlock d' L) p txs') :
    RanOnDisk L kh d₀ d' p js' txs' := by
  have h1 := hL.super_journal
  have h2 := hL.journal_sit
  have h3 := hL.sit_nat
  have hzero : d'.blocks 0 = d₀.blocks 0 := (hout 0 (by omega) (Or.inl h1)).trans hr.super
  refine ⟨henc,fun _ => ht,hzero,⟨hzero,fun lpa hl => ?_,fun lpa hl => ?_⟩,hb.trans hr.blockCount⟩
  · exact (hout lpa hl.2 (Or.inr (by have := hl.1; omega))).trans (hr.tables.nats lpa hl)
  · have h4 := hl.1
    have h5 := hl.2
    exact (hout lpa (by omega) (Or.inr (by omega))).trans (hr.tables.sits lpa hl)

structure TornAt (L : Layout) (d d' : CommDev) (t : Nat) (buf : Nat → Block) (k : Nat)
    (reached : Nat → Bool) : Prop where
  here : ∀ i < k, d'.blocks (journalSlot L (t + i)) =
    if reached (journalSlot L (t + i)) then buf i else d.blocks (journalSlot L (t + i))
  elsewhere : ∀ lpa, (∀ i < k, lpa ≠ journalSlot L (t + i)) → d'.blocks lpa = d.blocks lpa
  blockCount : d'.blockCount = d.blockCount

theorem tornWrite_spec (hL : L.Ok d) {w : JournalWriter} (hw : w.startLpa = L.metaJournalBlkaddr)
    (hw' : w.endLpa = L.metaJournalBlkaddr + L.journalSize) (t : Nat)
    (hk : 1 + w.bufferTailIdx ≤ L.journalSize) (reached : Nat → Bool) :
    TornAt L d (tornWrite w d (journalSlot L t) reached) t w.journalBuffer (1 + w.bufferTailIdx)
      reached := by
  have hlt : journalSlot L t < L.metaJournalBlkaddr + L.journalSize := Ring.slot_lt hL.journal_pos t
  have hreq := requests_eq hL.journal_pos hw hw' t (1 + w.bufferTailIdx) 0 (journalSlot L t) (by
    rw [hw',if_neg (Nat.ne_of_lt hlt),Nat.add_zero]
    rfl)
  rw [← List.range_eq_range'] at hreq
  have hat (lpa : Nat) : (tornWrite w d (journalSlot L t) reached).blocks lpa =
      if reached lpa then Updates.applyAll d.blocks (ringRequests L.metaJournalBlkaddr L.journalSize t
        (1 + w.bufferTailIdx) w.journalBuffer) lpa else d.blocks lpa := by
    unfold tornWrite
    rw [hreq]
    exact Updates.applyAll_filter d.blocks reached _ lpa
  refine ⟨fun i hi => ?_,fun lpa hl => ?_,rfl⟩
  · rw [hat]
    unfold journalSlot
    rw [ringRequests_at d.blocks t hk hi]
  · rw [hat,ringRequests_outside d.blocks t _ _ hl,ite_self]

theorem TornAt.old {d' : CommDev} {t k : Nat} {buf : Nat → Block} {reached : Nat → Bool}
    (h : TornAt L d d' t buf k reached) {lpa : Nat}
    (hl : ∀ i < k, lpa = journalSlot L (t + i) → reached lpa = false) :
    d'.blocks lpa = d.blocks lpa := by
  by_cases hin : ∃ i < k, lpa = journalSlot L (t + i)
  · obtain ⟨i,hi,rfl⟩ := hin
    rw [h.here i hi,hl i hi rfl,if_neg (by decide)]
  · exact h.elsewhere lpa (fun i hi he => hin ⟨i,hi,he⟩)

theorem TornAt.congr {d' d'' : CommDev} {t k : Nat} {buf : Nat → Block} {reached : Nat → Bool}
    (hL : L.Ok d) (h : TornAt L d d' t buf k reached) (hd : CrashImage L d' d'') :
    (∀ i < k, journalBlock d'' L (t + i) =
      if reached (journalSlot L (t + i)) then buf i else journalBlock d L (t + i)) ∧
    (∀ o, (∀ i < k, journalSlot L o = journalSlot L (t + i) → reached (journalSlot L o) = false) →
      journalBlock d'' L o = journalBlock d L o) ∧
    (∀ lpa < L.natBlkaddr + L.segmentCountNat * blockPerSegment,
      lpa < L.metaJournalBlkaddr ∨ L.metaJournalBlkaddr + L.journalSize ≤ lpa →
      d''.blocks lpa = d.blocks lpa) := by
  have hj (o : Nat) : journalBlock d'' L o = d'.blocks (journalSlot L o) :=
    hd.metadata _ (hL.slot_lt_nat o)
  refine ⟨fun i hi => ?_,fun o ho => ?_,fun lpa hlt hl => ?_⟩
  · rw [hj,h.here i hi]
    rfl
  · rw [hj,h.old ho]
    rfl
  · rw [hd.metadata lpa hlt]
    apply h.elsewhere
    intro i _ he
    have h1 : L.metaJournalBlkaddr ≤ journalSlot L (t + i) := Ring.base_le_slot _
    have h2 : journalSlot L (t + i) < L.metaJournalBlkaddr + L.journalSize :=
      Ring.slot_lt hL.journal_pos _
    omega

end Torn

section Atomic
variable {L : Layout} {kh : Khash} {d₀ d₁ dT d : CommDev} {p k : Nat} {js : List JournalContainer}
variable {txs : List Tx} {buf : Nat → Block} {reached : Nat → Bool}

theorem torn_tiled (hL : L.Ok d₁) (ht : Tiled (journalBlock d₁ L) p txs)
    (htorn : TornAt L d₁ dT (p + txBlocks txs) buf k reached) (hd : CrashImage L dT d)
    (hov : ∀ i < k, reached (journalSlot L (p + txBlocks txs + i)) = true →
      txBlocks txs + i < L.journalSize) : Tiled (journalBlock d L) p txs := by
  refine ht.congr (fun i hi => (htorn.congr hL hd).2.1 _ (fun i' hi' he => ?_))
  by_contra hne
  rw [Bool.not_eq_false,he] at hne
  have hlt := hov i' hi' hne
  refine Ring.slot_inj (show p + i < p + txBlocks txs + i' by omega) (by omega) he

theorem torn_new (hL : L.Ok d₀) (hs : ScanFrom L (d₀.blocks 0) p)
    (hr : RanOnDisk L kh d₀ d₁ p js txs) (hj : ∀ j ∈ js, j.Loggable L d₀) {j : JournalContainer}
    (hjl : j.Loggable L d₀) {tx : Tx} (henc : Encodes kh j tx) (him : TxImage buf tx)
    (hk : tx.blockNum < L.journalSize)
    (htorn : TornAt L d₁ dT (p + txBlocks txs) buf tx.blockNum reached) (hd : CrashImage L dT d)
    (hfit : txBlocks txs ≤ L.journalSize)
    (hall : ∀ i < tx.blockNum, reached (journalSlot L (p + txBlocks txs + i)) = true)
    (hov : ∀ i < tx.blockNum, txBlocks txs + i < L.journalSize)
    (hend : (headerAt (journalBlock d₁ L (p + txBlocks txs + tx.blockNum)) 0).len = 0 ∨
      txBlocks txs + tx.blockNum = L.journalSize) {fuel : Nat} (hf : js.length + 1 < fuel) :
    ∃ d', commSubmitFsRecoverFromDbRequest fuel d = some (d',none) ∧
      HoldsMeta L d'.blocks ((js ++ [j]).foldl (applyContainer L kh) ⟨d₀.blocks 0,d₀.blocks⟩) := by
  have hL₁ : L.Ok d₁ := hL.congr hr.blockCount
  obtain ⟨hhere,helse,hout⟩ := htorn.congr hL₁ hd
  have hpos := tx.blockNum_pos
  have htot : txBlocks (txs ++ [tx]) = txBlocks txs + tx.blockNum := by
    simp [txBlocks]
  have hle : txBlocks (txs ++ [tx]) ≤ L.journalSize := by
    have := hov (tx.blockNum - 1) (by omega)
    omega
  have htile : Tiled (journalBlock d L) p (txs ++ [tx]) := by
    refine tiled_append (torn_tiled hL₁ (hr.tiled hfit) htorn hd (fun i hi _ => hov i hi)) ?_
    refine him.congr (fun i hi => ?_)
    rw [hhere i hi,hall i hi,if_pos rfl]
  have hb : d.blockCount = d₁.blockCount := hd.blockCount.trans htorn.blockCount
  have hr' : RanOnDisk L kh d₀ d p (js ++ [j]) (txs ++ [tx]) :=
    hr.of_outside hL hb hout (List.rel_append hr.encodes (.cons henc .nil)) htile
  have hlog : ∀ i ∈ js ++ [j], i.Loggable L d₀ := by
    intro i hi
    rcases List.mem_append.mp hi with hi | hi
    · exact hj i hi
    · rw [List.mem_singleton.mp hi]
      exact hjl
  have hstop : txBlocks (txs ++ [tx]) = L.journalSize ∨ StopsAt L d (p + txBlocks (txs ++ [tx])) := by
    rw [htot]
    refine hend.symm.imp_right (fun hz => ?_)
    apply stopsAt_of_empty (hL.congr hr'.blockCount)
    rw [← Nat.add_assoc,helse _ (fun i hi he => ?_)]
    · exact hz
    · exact absurd he.symm (Ring.slot_inj (by omega) (by omega))
  obtain ⟨d',hrec,hd',_⟩ := ranOnDisk_recovered hL hs hr' hlog hle hstop (by simpa using hf)
  exact ⟨d',hrec,hd'.holds⟩

theorem torn_none (hL : L.Ok d₀) (hs : ScanFrom L (d₀.blocks 0) p)
    (hr : RanOnDisk L kh d₀ d₁ p js txs) (hj : ∀ j ∈ js, j.Loggable L d₀) {j : JournalContainer}
    (hjl : j.Loggable L d₀) {tx : Tx} (henc : Encodes kh j tx) (him : TxImage buf tx)
    (htorn : TornAt L d₁ dT (p + txBlocks txs) buf tx.blockNum reached) (hd : CrashImage L dT d)
    (hfit : txBlocks txs ≤ L.journalSize) {m : Nat} (hm : m < tx.blockNum)
    (hpre : ∀ i < m, reached (journalSlot L (p + txBlocks txs + i)) = true)
    (hmiss : reached (journalSlot L (p + txBlocks txs + m)) = false)
    (hov : ∀ i < tx.blockNum, reached (journalSlot L (p + txBlocks txs + i)) = true →
      txBlocks txs + i < L.journalSize)
    (hend : (headerAt (journalBlock d₁ L (p + txBlocks txs + m)) 0).len = 0 ∨
      txBlocks txs = L.journalSize) {fuel : Nat} (hf : js.length < fuel) :
    ∃ d', commSubmitFsRecoverFromDbRequest fuel d = some (d',none) ∧
      HoldsMeta L d'.blocks (js.foldl (applyContainer L kh) ⟨d₀.blocks 0,d₀.blocks⟩) := by
  have hL₁ : L.Ok d₁ := hL.congr hr.blockCount
  obtain ⟨hhere,_,hout⟩ := htorn.congr hL₁ hd
  have hb : d.blockCount = d₁.blockCount := hd.blockCount.trans htorn.blockCount
  have hr' : RanOnDisk L kh d₀ d p js txs :=
    hr.of_outside hL hb hout hr.encodes (torn_tiled hL₁ (hr.tiled hfit) htorn hd hov)
  have hLd : L.Ok d := hL.congr hr'.blockCount
  have hlen : (tx.full.take m).length = m := by
    unfold Tx.blockNum at hm
    rw [List.length_take]
    omega
  have hstop : txBlocks txs = L.journalSize ∨ StopsAt L d (p + txBlocks txs) := by
    refine hend.symm.imp_right (fun hz => ?_)
    refine stopsAt_of_torn hLd (tx.full.take m) (fun i rs hi => ?_) ?_ (fun r hr => ?_)
    · have him' : i < m := by
        have := (List.getElem?_eq_some_iff.mp hi).1
        omega
      rw [List.getElem?_take_of_lt him'] at hi
      rw [hhere i (lt_trans him' hm),hpre i him',if_pos rfl]
      exact him.full i rs hi
    · rw [hlen,hhere m hm,hmiss,if_neg (by decide)]
      exact hz
    · refine ((hjl.records kh henc.1) r ?_).congr hr'.blockCount
      obtain ⟨rs,hrs,hmem⟩ := List.mem_flatten.mp hr
      exact List.mem_append_left _ (List.mem_flatten.mpr ⟨rs,List.mem_of_mem_take hrs,hmem⟩)
  obtain ⟨d',hrec,hd',_⟩ := ranOnDisk_recovered hL hs hr' hj hfit hstop hf
  exact ⟨d',hrec,hd'.holds⟩

end Atomic

theorem journal_transaction_crash_atomic (L : Layout) (kh : Khash) (d₀ : CommDev) (hL : L.Ok d₀)
    (p : Nat) (hs : ScanFrom L (d₀.blocks 0) p) (mem : Nat → Block) (js : List JournalContainer)
    (hj : ∀ j ∈ js, j.Loggable L d₀) (s : Sys)
    (hrun : commitAll kh (fileSystemManagerSetup mem d₀) js = some s) (j : JournalContainer)
    (hjl : j.Loggable L d₀) (w : JournalWriter) (k : Nat)
    (hcol : journalWriterCollectPendingJournalToWriteBuffer kh s.proc.journalWriter j = some (w,k))
    (hk : k < L.journalSize) (reached : Nat → Bool) (d : CommDev)
    (hd : CrashImage L (tornWrite w s.dev s.proc.tailLpa reached) d) (m : Nat) (hm : m ≤ k)
    (hpre : ∀ i < m, reached (journalSlot L (p + historyBlockNum kh js + i)) = true)
    (hmiss : m < k → reached (journalSlot L (p + historyBlockNum kh js + m)) = false)
    (hfit : historyBlockNum kh js ≤ L.journalSize)
    (hov : ∀ i < k, reached (journalSlot L (p + historyBlockNum kh js + i)) = true →
      historyBlockNum kh js + i < L.journalSize)
    (hend : (headerAt (journalBlock s.dev L (p + historyBlockNum kh js + m)) 0).len = 0 ∨
      historyBlockNum kh js + m = L.journalSize ∧ (m = 0 ∨ m = k))
    (fuel : Nat) (hf : js.length + 1 < fuel) :
    ∃ d', commSubmitFsRecoverFromDbRequest fuel d = some (d',none) ∧
      HoldsMeta L d'.blocks ((if m = k then js ++ [j] else js).foldl (applyContainer L kh)
        ⟨d₀.blocks 0,d₀.blocks⟩) := by
  obtain ⟨txs,hr,hat,_⟩ := ranOnDisk hL hs hrun (CrashImage.refl L s.dev)
  obtain ⟨w',tx,hcol',htail,harea,him,hcar⟩ := collect_spec kh s.proc.journalWriter j
  rw [hcol] at hcol'
  cases hcol'
  have henc : Encodes kh j tx := ⟨hcar,_,w,hcol⟩
  have hL₁ : L.Ok s.dev := hL.congr hr.blockCount
  have htorn := tornWrite_spec hL₁ (harea.1.trans hat.writerStart) (harea.2.trans hat.writerEnd)
    (p + txBlocks txs) (by rw [htail]; exact le_of_lt hk) reached
  have hslot : journalSlot L (p + txBlocks txs) = s.proc.tailLpa := hat.tail.symm
  rw [htail,hslot] at htorn
  rw [← forall₂_blocks hr.encodes] at hpre hmiss hfit hov hend
  by_cases hall : m = tx.blockNum
  · subst hall
    rw [if_pos rfl]
    refine torn_new hL hs hr hj hjl henc him hk htorn hd hfit hpre (fun i hi => hov i hi (hpre i hi)) ?_ hf
    exact hend.imp_right (fun h => h.1)
  · rw [if_neg hall]
    have hlt : m < tx.blockNum := lt_of_le_of_ne hm hall
    refine torn_none hL hs hr hj hjl henc him htorn hd hfit hlt hpre (hmiss hlt) hov ?_ (by omega)
    refine hend.imp_right (fun h => ?_)
    rcases h.2 with rfl | he
    · exact h.1
    · exact absurd he hall

section Small

theorem natUpdate_collect (kh : Khash) (w : JournalWriter) (nid addr : UInt32) :
    ∃ w', journalWriterCollectPendingJournalToWriteBuffer kh w (natUpdate nid addr) = some (w',1) := by
  obtain ⟨h1,h2,h3⟩ := natUpdate_output kh nid addr
  exact collect_small kh w (natUpdate nid addr) (by
    rw [h1,h2,h3]
    simp)

theorem collect_some (kh : Khash) (w : JournalWriter) (j : JournalContainer) :
    ∃ w', journalWriterCollectPendingJournalToWriteBuffer kh w j = some (w',journalBlockNum kh j) := by
  obtain ⟨w',tx,hcol,_⟩ := collect_spec kh w j
  exact ⟨w',by rw [journalBlockNum_eq hcol]; exact hcol⟩

theorem journal_transaction_crash_atomic_small :
    ∃ s w d' d'', commitAll inOrderKhash (fileSystemManagerSetup (fun _ => Buf.zero) smallDisk)
        (nodeUpdates 2) = some s ∧
      journalWriterCollectPendingJournalToWriteBuffer inOrderKhash s.proc.journalWriter
        (sitUpdates 57 3) = some (w,2) ∧
      commSubmitFsRecoverFromDbRequest 4 (tornWrite w s.dev s.proc.tailLpa
        (fun lpa => decide (lpa = 514))) = some (d',none) ∧
      HoldsMeta smallAreas d'.blocks ((nodeUpdates 2).foldl (applyContainer smallAreas inOrderKhash)
        ⟨smallDisk.blocks 0,smallDisk.blocks⟩) ∧
      commSubmitFsRecoverFromDbRequest 4 (tornWrite w s.dev s.proc.tailLpa
        (fun lpa => decide (lpa = 514 ∨ lpa = 515))) = some (d'',none) ∧
      HoldsMeta smallAreas d''.blocks ((nodeUpdates 2 ++ [sitUpdates 57 3]).foldl
        (applyContainer smallAreas inOrderKhash) ⟨smallDisk.blocks 0,smallDisk.blocks⟩) := by
  obtain ⟨hL,hs,hz,_⟩ := smallDisk_ok
  have hold : historyBlockNum inOrderKhash (nodeUpdates 2) = 2 := nodeUpdates_blockNum inOrderKhash 2
  have hshort : ∀ j ∈ nodeUpdates 2, journalBlockNum inOrderKhash j < smallAreas.journalSize := by
    intro j hj
    obtain ⟨i,_,rfl⟩ := List.mem_map.mp hj
    rw [natUpdate_blockNum]
    decide
  obtain ⟨s,hrun⟩ := commitAll_some (setup_at hL hs (fun _ => Buf.zero)).1 hshort
  obtain ⟨txs,hr,_,hkept⟩ := ranOnDisk hL hs hrun (CrashImage.refl _ s.dev)
  have hnum : txBlocks txs = 2 := (forall₂_blocks hr.encodes).trans hold
  have hend (i : Nat) (hi : 2 ≤ i) (hlt : i < smallAreas.journalSize) :
      (headerAt (journalBlock s.dev smallAreas (0 + i)) 0).len = 0 := by
    rw [hkept i (by rw [hnum]; exact hi) hlt,hz]
    rfl
  have hlog := nodeUpdates_loggable hL (show 2 ≤ 1024 by decide)
  have hlog' : (sitUpdates 57 3).Loggable smallAreas smallDisk := sitUpdates_loggable 3 (by decide) (by decide)
  obtain ⟨w,hw⟩ := collect_some inOrderKhash s.proc.journalWriter (sitUpdates 57 3)
  rw [sitUpdates_blockNum] at hw
  obtain ⟨d',hrec,hd'⟩ := journal_transaction_crash_atomic smallAreas inOrderKhash smallDisk hL 0 hs
    (fun _ => Buf.zero) (nodeUpdates 2) hlog s hrun (sitUpdates 57 3) hlog' w 2 hw (by decide)
    (fun lpa => decide (lpa = 514)) _ (CrashImage.refl _ _) 1 (by decide)
    (by rw [hold]; decide) (by rw [hold]; decide) (by rw [hold]; decide) (by rw [hold]; decide)
    (Or.inl (by rw [hold]; exact hend 3 (by decide) (by decide))) 4 (by decide)
  obtain ⟨d'',hrec',hd''⟩ := journal_transaction_crash_atomic smallAreas inOrderKhash smallDisk hL 0 hs
    (fun _ => Buf.zero) (nodeUpdates 2) hlog s hrun (sitUpdates 57 3) hlog' w 2 hw (by decide)
    (fun lpa => decide (lpa = 514 ∨ lpa = 515)) _ (CrashImage.refl _ _) 2 (by decide)
    (by rw [hold]; decide) (by rw [hold]; decide) (by rw [hold]; decide) (by rw [hold]; decide)
    (Or.inl (by rw [hold]; exact hend 4 (by decide) (by decide))) 4 (by decide)
  exact ⟨s,w,d',d'',hrun,hw,hrec,hd',hrec',hd''⟩

theorem nodeUpdates_super (L : Layout) (kh : Khash) (n : Nat) (m : MetaImage) :
    ((nodeUpdates n).foldl (applyContainer L kh) m).superBlock = m.superBlock := by
  induction n with
  | zero => rfl
  | succ n ih =>
    rw [nodeUpdates_succ,List.foldl_append,List.foldl_cons,List.foldl_nil,applyContainer_natUpdate]
    exact ih

def laterUpdates (n : Nat) : List JournalContainer :=
  (List.range' 1 n).map (fun i => natUpdate 2 (UInt32.ofNat (2562 + i)))

theorem nodeUpdates_cons (n : Nat) : nodeUpdates (n + 1) = natUpdate 2 2562 :: laterUpdates n := by
  unfold nodeUpdates laterUpdates
  rw [List.range_eq_range',List.range'_succ,List.map_cons]
  rfl

theorem laterUpdates_succ (n : Nat) :
    laterUpdates (n + 1) = laterUpdates n ++ [natUpdate 2 (UInt32.ofNat (2562 + (1 + n)))] := by
  unfold laterUpdates
  rw [List.range'_concat,List.map_append,Nat.one_mul]
  rfl

theorem tornWrite_none (w : JournalWriter) (d : CommDev) (t : Nat) :
    tornWrite w d t (fun _ => false) = d := by
  unfold tornWrite
  rw [List.filter_false]
  rfl

theorem overwritten_lap {L : Layout} {kh : Khash} {d₁ : CommDev} (hL : L.Ok d₁) {p : Nat}
    (hs : ScanFrom L (d₁.blocks 0) p) (mem : Nat → Block) {j₀ j' : JournalContainer}
    {js : List JournalContainer} {txs : List Tx} (henc : List.Forall₂ (Encodes kh) (j₀ :: js) txs)
    (ht : Tiled (journalBlock d₁ L) p txs) (hfit : txBlocks txs ≤ L.journalSize)
    (hn : journalBlockNum kh j' = journalBlockNum kh j₀) (hlt : journalBlockNum kh j₀ < L.journalSize) :
    ∃ s txs', commitAll kh (fileSystemManagerSetup mem d₁) [j'] = some s ∧
      RanOnDisk L kh d₁ s.dev p (j' :: js) txs' ∧ txBlocks txs' = txBlocks txs := by
  obtain ⟨hat,hb,_⟩ := setup_at hL hs mem
  obtain ⟨tx',hcar,⟨w',hcol⟩,hok,_⟩ := commitJournal_spec hat kh j'
  have hn' : tx'.blockNum = journalBlockNum kh j₀ := (journalBlockNum_eq hcol).symm.trans hn
  obtain ⟨s,h₁,_,hw⟩ := hok (by rw [hn']; exact hlt)
  have hrun : commitAll kh (fileSystemManagerSetup mem d₁) [j'] = some s := by
    change (commitJournal kh _ j').bind some = _
    rw [h₁]
    rfl
  obtain ⟨_,hr,_⟩ := ranOnDisk hL hs hrun (CrashImage.refl L s.dev)
  cases txs with
  | nil => cases henc
  | cons tx txs =>
    obtain ⟨hj₀,hjs⟩ := List.forall₂_cons.mp henc
    obtain ⟨v,v',hcol₀⟩ := hj₀.2
    have hsame : tx'.blockNum = tx.blockNum := hn'.trans (journalBlockNum_eq hcol₀)
    have ht' : Tiled (ringBlock (fileSystemManagerSetup mem d₁).dev L.metaJournalBlkaddr L.journalSize)
        p (tx :: txs) := by
      refine ht.congr (fun i _ => ?_)
      unfold journalBlock ringBlock
      rw [hb]
    refine ⟨s,tx' :: txs,hrun,?_,?_⟩
    · exact hr.of_outside hL rfl (fun _ _ _ => rfl) (.cons ⟨hcar,_,w',hcol⟩ hjs)
        (ht'.overwrite hfit hsame (fun _ => rfl) hw)
    · rw [txBlocks_cons,txBlocks_cons,hsame]

theorem earlier_lap_replayed :
    ∃ s₁ d₁ s₂ w d₃, commitAll inOrderKhash (fileSystemManagerSetup (fun _ => Buf.zero) smallDisk)
        (nodeUpdates 512) = some s₁ ∧
      commSubmitFsRecoverFromDbRequest 513 s₁.dev = some (d₁,none) ∧
      commitAll inOrderKhash (fileSystemManagerSetup (fun _ => Buf.zero) d₁) [natUpdate 2 4000] = some s₂ ∧
      journalWriterCollectPendingJournalToWriteBuffer inOrderKhash s₂.proc.journalWriter
        (natUpdate 3 2561) = some (w,1) ∧
      commSubmitFsRecoverFromDbRequest 513
        (tornWrite w s₂.dev s₂.proc.tailLpa (fun _ => false)) = some (d₃,none) ∧
      natOf smallAreas d₃.blocks 2 = ⟨2,3073⟩ ∧
      ¬ HoldsMeta smallAreas d₃.blocks ([natUpdate 2 4000].foldl (applyContainer smallAreas inOrderKhash)
        ⟨d₁.blocks 0,d₁.blocks⟩) ∧
      ¬ HoldsMeta smallAreas d₃.blocks ([natUpdate 2 4000,natUpdate 3 2561].foldl
        (applyContainer smallAreas inOrderKhash) ⟨d₁.blocks 0,d₁.blocks⟩) := by
  obtain ⟨hL,hs,_,_⟩ := smallDisk_ok
  have hshort : ∀ j ∈ nodeUpdates 512, journalBlockNum inOrderKhash j < smallAreas.journalSize := by
    intro j hj
    obtain ⟨i,_,rfl⟩ := List.mem_map.mp hj
    rw [natUpdate_blockNum]
    decide
  obtain ⟨s₁,h₁⟩ := commitAll_some (setup_at hL hs (fun _ => Buf.zero)).1 hshort
  obtain ⟨txs,hr₁,_⟩ := ranOnDisk hL hs h₁ (CrashImage.refl _ s₁.dev)
  have htot : txBlocks txs = smallAreas.journalSize :=
    (forall₂_blocks hr₁.encodes).trans (nodeUpdates_blockNum inOrderKhash 512)
  have hlog := nodeUpdates_loggable hL (show 512 ≤ 1024 by decide)
  have hlen : (nodeUpdates 512).length < 513 := by
    simp [nodeUpdates]
  obtain ⟨d₁,hrec₁,hd₁,_⟩ := ranOnDisk_recovered hL hs hr₁ hlog (le_of_eq htot) (Or.inl htot) hlen
  have hL₁ : smallAreas.Ok d₁ := hL.congr (hd₁.blockCount.trans hr₁.blockCount)
  have hs₁ : ScanFrom smallAreas (d₁.blocks 0) 0 := by
    rw [hd₁.super,nodeUpdates_super,htot,Nat.zero_add,Nat.mod_self]
    have h₀ := scanFrom_setJournalOffsets (smallDisk.blocks 0) 0 hs.1 hs.2.1
    rw [Nat.zero_mod] at h₀
    dsimp only
    exact h₀
  have hcons : nodeUpdates 512 = natUpdate 2 2562 :: laterUpdates 511 := nodeUpdates_cons 511
  have henc := hr₁.encodes
  rw [hcons] at henc
  obtain ⟨s₂,txs₂,h₂,hr₂,htot₂⟩ := overwritten_lap hL₁ hs₁ (fun _ => Buf.zero)
    henc ((hr₁.tiled (le_of_eq htot)).congr (fun i _ => hd₁.journal _)) (le_of_eq htot)
    ((natUpdate_blockNum inOrderKhash 2 4000).trans (natUpdate_blockNum inOrderKhash 2 2562).symm)
    (by rw [natUpdate_blockNum]; decide)
  have hlog₂ : ∀ j ∈ natUpdate 2 4000 :: laterUpdates 511, j.Loggable smallAreas d₁ := by
    intro j hj
    rcases List.mem_cons.mp hj with rfl | hj
    · exact natUpdate_small hL₁ (by decide) (by decide)
    · obtain ⟨i,hi,rfl⟩ := List.mem_map.mp hj
      rw [List.mem_range'_1] at hi
      refine natUpdate_small hL₁ (by decide) ?_
      rw [UInt32.toNat_ofNat']
      omega
  have htot₂' := htot₂.trans htot
  obtain ⟨d₃,hrec₃,hd₃,_⟩ := ranOnDisk_recovered hL₁ hs₁ hr₂ hlog₂ (le_of_eq htot₂') (Or.inl htot₂')
    (show _ < 513 by simp [laterUpdates])
  obtain ⟨w,hw⟩ := natUpdate_collect inOrderKhash s₂.proc.journalWriter 3 2561
  have hin : NidInRange smallAreas 2 := by
    unfold NidInRange
    decide
  have hold : natOf smallAreas d₃.blocks 2 = ⟨2,3073⟩ := by
    have hlast : laterUpdates 511 = laterUpdates 510 ++ [natUpdate 2 (UInt32.ofNat (2562 + (1 + 510)))] :=
      laterUpdates_succ 510
    rw [hd₃.holds.natOf_eq hin,hlast,List.foldl_cons,List.foldl_append,List.foldl_cons,List.foldl_nil,
      applyContainer_natUpdate,natOf_putNat,Function.update_self]
    rfl
  refine ⟨s₁,d₁,s₂,w,d₃,h₁,hrec₁,h₂,hw,?_,hold,fun hm => ?_,fun hm => ?_⟩
  · rw [tornWrite_none]
    exact hrec₃
  · have hexp := hm.natOf_eq hin
    rw [hold,List.foldl_cons,List.foldl_nil,applyContainer_natUpdate,natOf_putNat,
      Function.update_self] at hexp
    exact absurd hexp (by decide)
  · have hexp := hm.natOf_eq hin
    rw [hold,List.foldl_cons,List.foldl_cons,List.foldl_nil,applyContainer_natUpdate,
      applyContainer_natUpdate,natOf_putNat,Function.update_of_ne (by decide),natOf_putNat,
      Function.update_self] at hexp
    exact absurd hexp (by decide)

end Small

end Rtfs
