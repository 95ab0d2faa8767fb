import Rtfs.Comm.Parse
import Rtfs.Fs.Mkfs

namespace Rtfs

inductive ScanReaches (journalStartLpa journalEndLpa scanStartLpa : Nat) :
    CommDev → Block → Nat → CommDev → Block → Nat → Prop
  | refl (d : CommDev) (sb : Block) (lpa : Nat) :
      ScanReaches journalStartLpa journalEndLpa scanStartLpa d sb lpa d sb lpa
  | step {d d₁ d' : CommDev} {sb sb₁ sb' : Block} {lpa next lpa' : Nat}
      (h : commRecoveryReplayOneTransaction d sb lpa journalStartLpa journalEndLpa = .committed d₁ next sb₁)
      (hne : next ≠ scanStartLpa)
      (hrest : ScanReaches journalStartLpa journalEndLpa scanStartLpa d₁ sb₁ next d' sb' lpa') :
      ScanReaches journalStartLpa journalEndLpa scanStartLpa d sb lpa d' sb' lpa'

def scannedBlocks (size scanStartLpa lpa : Nat) : Nat := (lpa + size - scanStartLpa) % size

def StaysWithin (journalStartLpa journalEndLpa scanStartLpa : Nat) (d : CommDev) (sb : Block)
    (lpa : Nat) : Prop :=
  ∀ d' sb' lpa', ScanReaches journalStartLpa journalEndLpa scanStartLpa d sb lpa d' sb' lpa' →
    ∀ k, (parseTx d' journalStartLpa journalEndLpa (journalEndLpa - journalStartLpa) lpa').2 = .ended k →
      scannedBlocks (journalEndLpa - journalStartLpa) scanStartLpa lpa' + k + 1 ≤
        journalEndLpa - journalStartLpa

section Loop
variable {base size : Nat}

theorem scannedBlocks_slot {p n : Nat} (hn : n < size) :
    scannedBlocks size (Ring.slot base size p) (Ring.slot base size (p + n)) = n := by
  have hs : 0 < size := by omega
  have hp := Ring.slot_bounds base hs p
  unfold scannedBlocks
  rcases Ring.slot_near base hs (show p ≤ p + n by omega) (by omega) with h | h
  · rw [h,show Ring.slot base size p + (p + n - p) + size - Ring.slot base size p = n + size by omega,
      Nat.add_mod_right,Nat.mod_eq_of_lt hn]
  · rw [h,show Ring.slot base size p + (p + n - p) - Ring.slot base size p = n by omega,Nat.mod_eq_of_lt hn]

theorem StaysWithin.next {d d₁ : CommDev} {sb sb₁ : Block} {start fin scan lpa next : Nat}
    (h : StaysWithin start fin scan d sb lpa)
    (hrep : commRecoveryReplayOneTransaction d sb lpa start fin = .committed d₁ next sb₁)
    (hne : next ≠ scan) : StaysWithin start fin scan d₁ sb₁ next :=
  fun d' sb' lpa' hreach => h d' sb' lpa' (.step hrep hne hreach)

theorem recoverLoop_returns (hs : 0 < size) (p fuel n : Nat) (d : CommDev) (sb : Block) (hn : n < size)
    (hfuel : size ≤ fuel + n)
    (h : StaysWithin base (base + size) (Ring.slot base size p) d sb (Ring.slot base size (p + n))) :
    ∃ r, recoverLoop base (base + size) (Ring.slot base size p) fuel d sb (Ring.slot base size (p + n)) =
      some r := by
  induction fuel generalizing n d sb with
  | zero => omega
  | succ fuel ih =>
    rw [recoverLoop]
    cases hrep : commRecoveryReplayOneTransaction d sb (Ring.slot base size (p + n)) base (base + size) with
    | failed e d' => exact ⟨_,rfl⟩
    | uncommitted => exact ⟨_,rfl⟩
    | committed d' next sb' =>
      simp only
      by_cases hnext : next = Ring.slot base size p
      · rw [if_pos hnext]
        exact ⟨_,rfl⟩
      · rw [if_neg hnext]
        obtain ⟨k,hk,rfl⟩ := replay_committed_parse hrep
        rw [nextJournal_iterate hs] at hnext hrep ⊢
        have hle := h d sb _ (.refl d sb _) k hk
        rw [Nat.add_sub_cancel_left,scannedBlocks_slot hn] at hle
        have hlt : n + k + 1 < size := by
          rcases Nat.lt_or_eq_of_le hle with hlt | heq
          · exact hlt
          · exfalso
            apply hnext
            rw [show p + n + (k + 1) = p + (n + k + 1) by omega,heq,Ring.slot_add_size]
        rw [show p + n + (k + 1) = p + (n + k + 1) by omega] at hnext hrep ⊢
        exact ih (n + k + 1) d' sb' hlt (by omega) (h.next hrep hnext)

end Loop

def blockEnd (d : CommDev) (L : Layout) (i : Nat) : BlockEnd := (parseBlock (journalBlock d L i) 0).2

-- the ring reads through from end to end, yet no transaction ends where the scan begins
structure Endless (d : CommDev) (L : Layout) (p : Nat) : Prop where
  reads : ∀ i, blockEnd d L i ≠ .stopped
  ends : ∃ i, blockEnd d L i = .ended
  open' : blockEnd d L (p + L.journalSize - 1) ≠ .ended

section Ring
variable {base size : Nat}

theorem slot_after (hs : 0 < size) (o i : Nat) :
    ∃ j < size, Ring.slot base size (o + j) = Ring.slot base size i := by
  have hle : o ≤ i + size * o := by
    have hmul := Nat.le_mul_of_pos_left o hs
    omega
  refine ⟨(i + size * o - o) % size,Nat.mod_lt _ hs,?_⟩
  rw [Ring.slot,Ring.slot,Nat.add_mod_mod,Nat.add_sub_cancel' hle,Nat.add_mul_mod_self_left]

theorem slot_pred (hs : 0 < size) {a p : Nat} (h : Ring.slot base size (a + 1) = Ring.slot base size p) :
    Ring.slot base size a = Ring.slot base size (p + size - 1) := by
  have hm : (a + 1) % size = p % size := Nat.add_left_cancel h
  rw [Ring.slot,Ring.slot]
  congr 1
  rw [show p + size - 1 = p + (size - 1) by omega,Nat.add_mod p,← hm,← Nat.add_mod,
    show a + 1 + (size - 1) = a + size by omega,Nat.add_mod_right]

end Ring

section Exact
variable {L : Layout} {d : CommDev}

theorem blockEnd_slot {i j : Nat} (h : journalSlot L i = journalSlot L j) : blockEnd d L i = blockEnd d L j := by
  change (parseBlock (d.blocks (journalSlot L i)) 0).2 = (parseBlock (d.blocks (journalSlot L j)) 0).2
  rw [h]

theorem Endless.congr {d' : CommDev} {p : Nat} (h : Endless d L p) (hj : SameJournal L d d') :
    Endless d' L p := by
  have he (i : Nat) : blockEnd d' L i = blockEnd d L i := by
    unfold blockEnd
    rw [hj i]
  refine ⟨fun i => ?_,?_,?_⟩
  · rw [he]
    exact h.reads i
  · obtain ⟨i,hi⟩ := h.ends
    exact ⟨i,(he i).trans hi⟩
  · rw [he]
    exact h.open'

theorem parseAt_ended (hL : L.Ok d) {n o k : Nat} : (parseAt d L n o).2 = .ended k ↔
    k < n ∧ (∀ j < k, blockEnd d L (o + j) = .through) ∧ blockEnd d L (o + k) = .ended :=
  parseTx_ended (ringOk hL)

theorem Endless.finds (hL : L.Ok d) {p : Nat} (h : Endless d L p) (o : Nat) :
    ∃ k, (parseAt d L L.journalSize o).2 = .ended k := by
  obtain ⟨i,hi⟩ := h.ends
  have hex : ∃ j, j < L.journalSize ∧ blockEnd d L (o + j) = .ended := by
    obtain ⟨j,hj,he⟩ := @slot_after L.metaJournalBlkaddr L.journalSize hL.journal_pos o i
    exact ⟨j,hj,(blockEnd_slot he).trans hi⟩
  classical
  obtain ⟨hlt,hend⟩ := Nat.find_spec hex
  refine ⟨Nat.find hex,(parseAt_ended hL).mpr ⟨hlt,fun j hj => ?_,hend⟩⟩
  have hmin := Nat.find_min hex hj
  cases hk : blockEnd d L (o + j) with
  | stopped => exact absurd hk (h.reads _)
  | ended => exact absurd ⟨by omega,hk⟩ hmin
  | through => rfl

theorem endless_loops {p : Nat} (fuel : Nat) (sb : Block) (o : Nat) (hL : L.Ok d) (hj : JournalOk L d)
    (h : Endless d L p) (hsb : layoutOf sb = L) :
    recoverLoop L.metaJournalBlkaddr (L.metaJournalBlkaddr + L.journalSize) (journalSlot L p) fuel d sb
      (journalSlot L o) = none := by
  induction fuel generalizing d sb o with
  | zero => rfl
  | succ fuel ih =>
    obtain ⟨k,hk⟩ := h.finds hL o
    have hrs := hj.parsed hL L.journalSize o
    obtain ⟨d',hrep,hd'⟩ := (replay_parsed hL hrs hsb).1 k hk
    have hsame : SameJournal L d d' := replay_sameJournal hL rfl hrs hd'.blocks
    have hne : journalSlot L (o + k + 1) ≠ journalSlot L p := by
      intro he
      have hpred := blockEnd_slot (d := d) (slot_pred hL.journal_pos he)
      exact h.open' (hpred.symm.trans ((parseAt_ended hL).mp hk).2.2)
    rw [recoverLoop,hrep]
    simp only
    rw [if_neg hne]
    exact ih _ _ (hL.congr hd'.blockCount) (hj.congr hd'.blockCount hsame) (h.congr hsame)
      ((replay_frame hL _ hrs).layout.trans hsb)

theorem endless_of_overrun (hL : L.Ok d) {p n k : Nat} (hn : n < L.journalSize)
    (hread : ∀ i < n, blockEnd d L (p + i) ≠ .stopped)
    (hk : (parseAt d L L.journalSize (p + n)).2 = .ended k) (hover : L.journalSize < n + k + 1) :
    Endless d L p := by
  obtain ⟨_,hthrough,hend⟩ := (parseAt_ended hL).mp hk
  have hall : ∀ i < n + k + 1, blockEnd d L (p + i) ≠ .stopped := by
    intro i hi
    by_cases h1 : i < n
    · exact hread i h1
    · by_cases h2 : i < n + k
      · have ht := hthrough (i - n) (by omega)
        rw [show p + n + (i - n) = p + i by omega] at ht
        rw [ht]
        decide
      · rw [show p + i = p + n + k by omega,hend]
        decide
  refine ⟨fun i => ?_,⟨p + n + k,hend⟩,?_⟩
  · obtain ⟨j,hj,he⟩ := @slot_after L.metaJournalBlkaddr L.journalSize hL.journal_pos p i
    rw [← blockEnd_slot he]
    exact hall j (by omega)
  · have ht := hthrough (L.journalSize - 1 - n) (by omega)
    rw [show p + n + (L.journalSize - 1 - n) = p + L.journalSize - 1 by omega] at ht
    rw [ht]
    decide

theorem reach_endless {p n k : Nat} {d' : CommDev} {sb sb' : Block} {lpa lpa' : Nat}
    (hreach : ScanReaches L.metaJournalBlkaddr (L.metaJournalBlkaddr + L.journalSize) (journalSlot L p)
      d sb lpa d' sb' lpa')
    (hlpa : lpa = journalSlot L (p + n)) (hL : L.Ok d) (hj : JournalOk L d) (hsb : layoutOf sb = L)
    (hn : n < L.journalSize) (hread : ∀ i < n, blockEnd d L (p + i) ≠ .stopped)
    (hk : (parseTx d' L.metaJournalBlkaddr (L.metaJournalBlkaddr + L.journalSize) L.journalSize lpa').2 =
      .ended k)
    (hover : L.journalSize < scannedBlocks L.journalSize (journalSlot L p) lpa' + k + 1) :
    Endless d L p := by
  induction hreach generalizing n with
  | refl d sb lpa =>
    subst hlpa
    have hs : scannedBlocks L.journalSize (journalSlot L p) (journalSlot L (p + n)) = n :=
      scannedBlocks_slot hn
    rw [hs] at hover
    exact endless_of_overrun hL hn hread hk hover
  | @step d d₁ d' sb sb₁ sb' lpa next lpa' hrep hne _ ih =>
    subst hlpa
    obtain ⟨j,hj',hnext⟩ := replay_committed_parse hrep
    rw [Nat.add_sub_cancel_left] at hj'
    have hnext' : next = journalSlot L (p + (n + j + 1)) := by
      have hit := @nextJournal_iterate L.metaJournalBlkaddr L.journalSize hL.journal_pos (p + n) (j + 1)
      rw [hnext,show p + (n + j + 1) = p + n + (j + 1) by omega]
      exact hit
    by_cases hfit : n + j + 1 ≤ L.journalSize
    · have hrs := hj.parsed hL L.journalSize (p + n)
      obtain ⟨d₂,hrep₂,hd₂⟩ := (replay_parsed hL hrs hsb).1 j hj'
      rw [hrep] at hrep₂
      cases hrep₂
      have hsame : SameJournal L d d₁ := replay_sameJournal hL rfl hrs hd₂.blocks
      have hlt : n + j + 1 < L.journalSize := by
        rcases Nat.lt_or_eq_of_le hfit with hlt | heq
        · exact hlt
        · exfalso
          apply hne
          rw [hnext',heq]
          exact Ring.slot_add_size p
      obtain ⟨_,hthrough,hend⟩ := (parseAt_ended hL).mp hj'
      have hend₁ (i : Nat) : blockEnd d₁ L i = blockEnd d L i := by
        unfold blockEnd
        rw [hsame i]
      have hendless := ih hnext' (hL.congr hd₂.blockCount) (hj.congr hd₂.blockCount hsame)
        ((replay_frame hL _ hrs).layout.trans hsb) hlt (fun i hi => by
          rw [hend₁]
          by_cases h1 : i < n
          · exact hread i h1
          · by_cases h2 : i < n + j
            · have ht := hthrough (i - n) (by omega)
              rw [show p + n + (i - n) = p + i by omega] at ht
              rw [ht]
              decide
            · rw [show p + i = p + n + j by omega,hend]
              decide) hk hover
      exact hendless.congr (fun i => (hsame i).symm)
    · exact endless_of_overrun hL hn hread hj' (by omega)

end Exact

def CommDev.ScanStaysWithin (dev : CommDev) : Prop :=
  let sb := dev.blocks 0
  let size := journalSizeOf sb
  let scanStart := journalStartLpaOf sb + (RtfsSuperBlock.metaJournalEndBlkoff sb).toNat % size
  StaysWithin (journalStartLpaOf sb) (journalStartLpaOf sb + size) scanStart (clearReclaim dev) sb scanStart

structure CommDev.WellFormed (L : Layout) (dev : CommDev) : Prop where
  layout : layoutOf (dev.blocks 0) = L
  areas : L.Ok dev
  magic : RtfsSuperBlock.magic (dev.blocks 0) = rtfsMagicNumber
  journal : JournalOk L dev

section Request
variable {dev : CommDev}

theorem recover_returns (h : dev.ScanStaysWithin) {fuel : Nat} (hf : journalSizeOf (dev.blocks 0) ≤ fuel) :
    ∃ r, commSubmitFsRecoverFromDbRequest fuel dev = some r := by
  rw [commSubmitFsRecoverFromDbRequest]
  by_cases hz : commRecoveryReadLpa (clearReclaim dev) 0 = .ok (dev.blocks 0)
  · simp only [hz]
    split
    · exact ⟨_,rfl⟩
    · split
      · exact ⟨_,rfl⟩
      · rename_i hsize
        have hs : 0 < journalSizeOf (dev.blocks 0) := Nat.pos_of_ne_zero hsize
        unfold CommDev.ScanStaysWithin at h
        obtain ⟨r,hr⟩ := recoverLoop_returns hs (RtfsSuperBlock.metaJournalEndBlkoff (dev.blocks 0)).toNat
          fuel 0 (clearReclaim dev) (dev.blocks 0) hs (by omega) h
        change recoverLoop _ _ (journalStartLpaOf (dev.blocks 0) + _) _ _ _ (journalStartLpaOf (dev.blocks 0) + _) =
          _ at hr
        rw [Nat.add_zero] at hr
        rw [hr]
        cases r <;> exact ⟨_,rfl⟩
  · have herr : ∃ e, commRecoveryReadLpa (clearReclaim dev) 0 = .error e := by
      unfold commRecoveryReadLpa CommDev.readLba at hz ⊢
      split at hz
      · rename_i hc
        exact ⟨_,if_pos hc⟩
      · exact absurd rfl hz
    obtain ⟨e,he⟩ := herr
    rw [he]
    exact ⟨_,rfl⟩

theorem WellFormed.area {L : Layout} (hw : dev.WellFormed L) :
    journalStartLpaOf (dev.blocks 0) = L.metaJournalBlkaddr ∧ journalSizeOf (dev.blocks 0) = L.journalSize := by
  rw [← hw.layout]
  exact ⟨rfl,rfl⟩

theorem endless_never_returns {L : Layout} (hw : dev.WellFormed L)
    (h : Endless dev L (RtfsSuperBlock.metaJournalEndBlkoff (dev.blocks 0)).toNat) (fuel : Nat) :
    commSubmitFsRecoverFromDbRequest fuel dev = none := by
  obtain ⟨hstart,hsize⟩ := WellFormed.area hw
  have hz : (clearReclaim dev).Holds (0 : UInt32).toNat := hw.areas.holds_zero
  have hread : commRecoveryReadLpa (clearReclaim dev) 0 = .ok (dev.blocks 0) := readLpa_ok hz
  have hareas : L.Ok (clearReclaim dev) := hw.areas.congr rfl
  have hloop := endless_loops fuel (dev.blocks 0) (RtfsSuperBlock.metaJournalEndBlkoff (dev.blocks 0)).toNat
    hareas (hw.journal.congr rfl (fun _ => rfl)) (h.congr (fun _ => rfl)) hw.layout
  unfold journalSlot Ring.slot at hloop
  rw [commSubmitFsRecoverFromDbRequest,hread]
  simp only [hw.magic,hstart,hsize]
  rw [if_neg (not_not.mpr rfl),if_neg (Nat.ne_of_gt hw.areas.journal_pos),hloop]

theorem endless_of_not_stays {L : Layout} (hw : dev.WellFormed L) (h : ¬ dev.ScanStaysWithin) :
    Endless dev L (RtfsSuperBlock.metaJournalEndBlkoff (dev.blocks 0)).toNat := by
  obtain ⟨hstart,hsize⟩ := WellFormed.area hw
  unfold CommDev.ScanStaysWithin at h
  simp only [hstart,hsize] at h
  unfold StaysWithin at h
  push Not at h
  obtain ⟨d',sb',lpa',hreach,k,hk,hover⟩ := h
  rw [Nat.add_sub_cancel_left] at hk hover
  have hendless := reach_endless (n := 0) hreach rfl (hw.areas.congr rfl)
    (hw.journal.congr rfl (fun _ => rfl)) hw.layout hw.areas.journal_pos
    (fun i hi => absurd hi (Nat.not_lt_zero i)) hk hover
  exact hendless.congr (fun _ => rfl)

theorem stays_iff_not_endless {L : Layout} (hw : dev.WellFormed L) : dev.ScanStaysWithin ↔
    ¬ Endless dev L (RtfsSuperBlock.metaJournalEndBlkoff (dev.blocks 0)).toNat := by
  refine ⟨fun h he => ?_,fun h => ?_⟩
  · obtain ⟨r,hr⟩ := recover_returns h le_rfl
    rw [endless_never_returns hw he] at hr
    cases hr
  · by_contra hno
    exact h (endless_of_not_stays hw hno)

theorem recovery_terminates (dev : CommDev) :
    (∀ (d : CommDev) (sb : Block) (start fin lpa : Nat),
      scanReads (recoveryHandler d) d start fin (fin - start) lpa (TxState.init sb) ≤ fin - start) ∧
    (dev.ScanStaysWithin →
      ∃ r, commSubmitFsRecoverFromDbRequest (journalSizeOf (dev.blocks 0)) dev = some r) ∧
    ∀ L : Layout, dev.WellFormed L →
      ((∃ fuel r, commSubmitFsRecoverFromDbRequest fuel dev = some r) ↔ dev.ScanStaysWithin) ∧
      (dev.ScanStaysWithin ↔
        ¬ Endless dev L (RtfsSuperBlock.metaJournalEndBlkoff (dev.blocks 0)).toNat) := by
  refine ⟨fun d sb start fin lpa => scanReads_le _ _ _ _,fun h => recover_returns h le_rfl,
    fun L hw => ⟨⟨?_,fun h => ⟨_,recover_returns h le_rfl⟩⟩,stays_iff_not_endless hw⟩⟩
  rintro ⟨fuel,r,hr⟩
  rw [stays_iff_not_endless hw]
  intro he
  rw [endless_never_returns hw he fuel] at hr
  cases hr

end Request

section Small

def endBlock : Block := Buf.setAs metaJournalEntryCodec Buf.zero 0 endHeader

def nopBlock : Block := Buf.setAs metaJournalEntryCodec Buf.zero 0 (nopHeader 4096)

theorem parse_endBlock : parseBlock endBlock 0 = ([],.ended) := by
  rw [parseBlock]
  rfl

theorem parse_nopBlock : parseBlock nopBlock 0 = ([],.through) := by
  rw [parseBlock]
  rfl

theorem parse_zero : parseBlock Buf.zero 0 = ([],.stopped) := by
  rw [parseBlock]
  rfl

def journalDisk (f : Nat → Block) : CommDev := smallDev (fun lpa => if lpa = 0 then smallSuper else f lpa)

theorem journalDisk_block (f : Nat → Block) (i : Nat) :
    journalBlock (journalDisk f) smallAreas i = f (512 + i % 512) := by
  change (if 512 + i % 512 = 0 then smallSuper else f (512 + i % 512)) = _
  rw [if_neg (by omega)]

theorem journalDisk_wellFormed {f : Nat → Block} (hf : ∀ lpa, (parseBlock (f lpa) 0).1 = []) :
    (journalDisk f).WellFormed smallAreas := by
  refine ⟨layoutOf_smallSuper,smallAreas_ok _,magic_initialSuper smallOptions smallLayout,fun i r hr => ?_⟩
  rw [journalDisk_block,hf] at hr
  cases hr

-- one empty transaction where the scan begins and no other end in the ring
def oneEnd (lpa : Nat) : Block := if lpa = 512 then endBlock else nopBlock

theorem oneEnd_wellFormed : (journalDisk oneEnd).WellFormed smallAreas := by
  refine journalDisk_wellFormed (fun lpa => ?_)
  unfold oneEnd
  split
  · rw [parse_endBlock]
  · rw [parse_nopBlock]

theorem recovery_terminates_small :
    (∃ r, commSubmitFsRecoverFromDbRequest (journalSizeOf ((journalDisk fun _ => Buf.zero).blocks 0))
      (journalDisk fun _ => Buf.zero) = some r) ∧
    ((∃ fuel r, commSubmitFsRecoverFromDbRequest fuel (journalDisk oneEnd) = some r) ↔
      (journalDisk oneEnd).ScanStaysWithin) ∧
    ((journalDisk oneEnd).ScanStaysWithin ↔ ¬ Endless (journalDisk oneEnd) smallAreas
      (RtfsSuperBlock.metaJournalEndBlkoff ((journalDisk oneEnd).blocks 0)).toNat) := by
  refine ⟨(recovery_terminates (journalDisk fun _ => Buf.zero)).2.1 ?_,
    (recovery_terminates (journalDisk oneEnd)).2.2 smallAreas oneEnd_wellFormed⟩
  have hw : (journalDisk fun _ => Buf.zero).WellFormed smallAreas :=
    journalDisk_wellFormed (fun _ => by rw [parse_zero])
  apply ((recovery_terminates (journalDisk fun _ => Buf.zero)).2.2 smallAreas hw).1.mp
  have hstop : StopsAt smallAreas (journalDisk fun _ => Buf.zero) 0 :=
    stopsAt_of_empty hw.areas (by rw [journalDisk_block]; rfl)
  have hscan : ScanFrom smallAreas ((journalDisk fun _ => Buf.zero).blocks 0) 0 := ⟨hw.layout,hw.magic,rfl⟩
  exact ⟨1,_,recover_idle hw.areas hscan hstop Nat.one_pos⟩

theorem recovery_endless : RtfsSuperBlock.magic ((journalDisk oneEnd).blocks 0) = rtfsMagicNumber ∧
    0 < journalSizeOf ((journalDisk oneEnd).blocks 0) ∧
    ∀ fuel, commSubmitFsRecoverFromDbRequest fuel (journalDisk oneEnd) = none := by
  refine ⟨oneEnd_wellFormed.magic,by decide,endless_never_returns oneEnd_wellFormed ?_⟩
  have hend (i : Nat) : blockEnd (journalDisk oneEnd) smallAreas i =
      if i % 512 = 0 then .ended else .through := by
    rw [blockEnd,journalDisk_block,oneEnd]
    by_cases hi : i % 512 = 0
    · rw [if_pos (by omega),if_pos hi,parse_endBlock]
    · rw [if_neg (by omega),if_neg hi,parse_nopBlock]
  have hzero : RtfsSuperBlock.metaJournalEndBlkoff ((journalDisk oneEnd).blocks 0) = 0 := rfl
  rw [hzero]
  refine ⟨fun i => ?_,⟨0,hend 0⟩,?_⟩
  · rw [hend]
    split <;> decide
  · rw [show (0 : UInt16).toNat + smallAreas.journalSize - 1 = 511 from rfl,hend]
    decide

end Small

end Rtfs
