import Rtfs.Comm.Recover

namespace Rtfs

def CommDev.applyWrite (d : CommDev) (w : UInt32 × Block) : CommDev :=
  match commRecoveryWriteLpa d w.1 w.2 with
  | .ok d' => d'
  | .error _ => d

def CommDev.applyWrites (d : CommDev) (ws : List (UInt32 × Block)) : CommDev :=
  ws.foldl CommDev.applyWrite d

def commitWrites (d : CommDev) : List RecoveryBlock → List (UInt32 × Block)
  | [] => []
  | b :: bs =>
    if b.dirty then
      match commRecoveryWriteLpa d b.lpa b.data with
      | .error _ => []
      | .ok d' => (b.lpa,b.data) :: commitWrites d' bs
    else commitWrites d bs

def replayWrites (d : CommDev) (baseSuperBlock : Block) (startLpa journalStartLpa journalEndLpa : Nat) :
    List (UInt32 × Block) :=
  if journalEndLpa - journalStartLpa = 0 then []
  else
    match scanTx (recoveryHandler d) d journalStartLpa journalEndLpa
        (journalEndLpa - journalStartLpa) startLpa (TxState.init baseSuperBlock) with
    | .ended s _ => commitWrites d s.blocks
    | _ => []

def loopWrites (journalStartLpa journalEndLpa scanStartLpa : Nat) :
    Nat → CommDev → Block → Nat → List (UInt32 × Block)
  | 0, _, _, _ => []
  | fuel + 1, d, superBlock, scanLpa =>
    replayWrites d superBlock scanLpa journalStartLpa journalEndLpa ++
      match commRecoveryReplayOneTransaction d superBlock scanLpa journalStartLpa journalEndLpa with
      | .committed d' nextLpa replayedSuper =>
        if nextLpa = scanStartLpa then []
        else loopWrites journalStartLpa journalEndLpa scanStartLpa fuel d' replayedSuper nextLpa
      | _ => []

def finishWrites (journalStartLpa journalSize : Nat) (r : Scan) : List (UInt32 × Block) :=
  [(0,setJournalOffsets r.superBlock ((r.committedEndLpa - journalStartLpa) % journalSize))]

def recoveryWrites (fuel : Nat) (dev : CommDev) : List (UInt32 × Block) :=
  let d := clearReclaim dev
  match commRecoveryReadLpa d 0 with
  | .error _ => []
  | .ok superBlock =>
    if RtfsSuperBlock.magic superBlock ≠ rtfsMagicNumber then []
    else
      let journalStartLpa := journalStartLpaOf superBlock
      let journalSize := journalSizeOf superBlock
      if journalSize = 0 then []
      else
        let scanStartLpa := journalStartLpa +
          (RtfsSuperBlock.metaJournalEndBlkoff superBlock).toNat % journalSize
        loopWrites journalStartLpa (journalStartLpa + journalSize) scanStartLpa fuel d superBlock scanStartLpa ++
          match recoverLoop journalStartLpa (journalStartLpa + journalSize) scanStartLpa fuel d
              superBlock scanStartLpa with
          | some (.ok r) => finishWrites journalStartLpa journalSize r
          | _ => []

structure SameStore (d d' : CommDev) : Prop where
  blocks : d'.blocks = d.blocks
  blockCount : d'.blockCount = d.blockCount

theorem SameStore.trans {d d' d'' : CommDev} (h : SameStore d d') (h' : SameStore d' d'') : SameStore d d'' :=
  ⟨h'.blocks.trans h.blocks,h'.blockCount.trans h.blockCount⟩

section Writes
variable {d d' : CommDev}

theorem applyWrites_append (d : CommDev) (us ws : List (UInt32 × Block)) :
    d.applyWrites (us ++ ws) = (d.applyWrites us).applyWrites ws := List.foldl_append ..

theorem applyWrite_same (h : SameStore d d') (w : UInt32 × Block) :
    SameStore (d.applyWrite w) (d'.applyWrite w) := by
  unfold CommDev.applyWrite commRecoveryWriteLpa CommDev.writeLba
  rw [h.blockCount,h.blocks]
  by_cases hc : d.blockCount ≤ lpaToLba w.1 ∨ d.blockCount < lpaToLba w.1 + lbaPerLpa
  · simp only [if_pos hc]
    exact h
  · simp only [if_neg hc]
    exact ⟨rfl,h.blockCount⟩

theorem applyWrites_same (h : SameStore d d') (ws : List (UInt32 × Block)) :
    SameStore (d.applyWrites ws) (d'.applyWrites ws) := by
  induction ws generalizing d d' with
  | nil => exact h
  | cons w ws ih => exact ih (applyWrite_same h w)

theorem commitWrites_apply (bs : List RecoveryBlock) :
    d.applyWrites (commitWrites d bs) = (commitBlocks d bs).1 := by
  induction bs generalizing d with
  | nil => rfl
  | cons b bs ih =>
    rw [commitWrites,commitBlocks]
    cases b.dirty with
    | false => exact ih
    | true =>
      simp only [if_true]
      cases hw : commRecoveryWriteLpa d b.lpa b.data with
      | error e => rfl
      | ok d₁ =>
        simp only
        rw [← ih,CommDev.applyWrites,List.foldl_cons,CommDev.applyWrite,hw]
        rfl

theorem appendReclaimRecord_same (d : CommDev) (s : TxState) :
    SameStore d (commRecoveryAppendReclaimRecord d s) := ⟨by simp,by simp⟩

end Writes

def Replay.dev (d : CommDev) : Replay → CommDev
  | .failed _ d' => d'
  | .uncommitted => d
  | .committed d' _ _ => d'

section Run
variable {start fin : Nat}

theorem replayWrites_apply (d : CommDev) (sb : Block) (lpa : Nat) :
    SameStore (d.applyWrites (replayWrites d sb lpa start fin))
      ((commRecoveryReplayOneTransaction d sb lpa start fin).dev d) := by
  unfold replayWrites commRecoveryReplayOneTransaction
  split
  · exact ⟨rfl,rfl⟩
  · split
    · rename_i s lpa' hs
      simp only [hs]
      have hw := commitWrites_apply (d := d) s.blocks
      rw [commRecoveryCommitTx,hw]
      cases hc : commitBlocks d s.blocks with
      | mk d₁ e =>
        cases e with
        | some e => exact ⟨rfl,rfl⟩
        | none => exact appendReclaimRecord_same d₁ s
    · rename_i hne
      cases hs : scanTx (recoveryHandler d) d start fin (fin - start) lpa (TxState.init sb) with
      | failed e => exact ⟨rfl,rfl⟩
      | stopped => exact ⟨rfl,rfl⟩
      | ended s lpa' => exact absurd hs (hne s lpa')

def loopDev : Except (Errno × CommDev) Scan → CommDev
  | .error (_,d) => d
  | .ok r => r.dev

theorem loopWrites_apply {scan fuel : Nat} {d : CommDev} {sb : Block} {lpa : Nat}
    {r : Except (Errno × CommDev) Scan} (h : recoverLoop start fin scan fuel d sb lpa = some r) :
    SameStore (d.applyWrites (loopWrites start fin scan fuel d sb lpa)) (loopDev r) := by
  induction fuel generalizing d sb lpa with
  | zero => cases h
  | succ fuel ih =>
    have hstep := @replayWrites_apply start fin d sb lpa
    rw [recoverLoop] at h
    rw [loopWrites,applyWrites_append]
    cases hrep : commRecoveryReplayOneTransaction d sb lpa start fin with
    | failed e d₁ =>
      rw [hrep] at h hstep
      cases h
      exact hstep
    | uncommitted =>
      rw [hrep] at h hstep
      cases h
      exact hstep
    | committed d₁ next sb₁ =>
      rw [hrep] at h hstep
      simp only at h ⊢
      by_cases hn : next = scan
      · rw [if_pos hn] at h ⊢
        cases h
        exact hstep
      · rw [if_neg hn] at h ⊢
        obtain ⟨hb,hc⟩ := hstep
        exact (applyWrites_same ⟨hb,hc⟩ _).trans (ih h)

end Run

theorem finishWrites_apply (start size : Nat) (r : Scan) :
    SameStore (r.dev.applyWrites (finishWrites start size r)) (finishRecovery start size r).1 := by
  unfold finishWrites CommDev.applyWrites finishRecovery
  rw [List.foldl_cons,List.foldl_nil,CommDev.applyWrite]
  simp only
  cases commRecoveryWriteLpa r.dev 0 (setJournalOffsets r.superBlock
    ((r.committedEndLpa - start) % size)) <;> exact ⟨rfl,rfl⟩

theorem recoveryWrites_apply {fuel : Nat} {dev d' : CommDev} {e : Option Errno}
    (h : commSubmitFsRecoverFromDbRequest fuel dev = some (d',e)) :
    SameStore (dev.applyWrites (recoveryWrites fuel dev)) d' := by
  unfold commSubmitFsRecoverFromDbRequest at h
  unfold recoveryWrites
  simp only at h ⊢
  have hclear : SameStore dev (clearReclaim dev) := ⟨rfl,rfl⟩
  cases hread : commRecoveryReadLpa (clearReclaim dev) 0 with
  | error e =>
    rw [hread] at h
    cases h
    exact hclear
  | ok sb =>
    rw [hread] at h
    simp only at h ⊢
    split at h
    · rename_i hm
      cases h
      rw [if_pos hm]
      exact hclear
    · rename_i hm
      rw [if_neg hm]
      split at h
      · rename_i hs
        cases h
        rw [if_pos hs]
        exact hclear
      · rename_i hs
        rw [if_neg hs]
        cases hloop : recoverLoop (journalStartLpaOf sb) (journalStartLpaOf sb + journalSizeOf sb)
            (journalStartLpaOf sb + (RtfsSuperBlock.metaJournalEndBlkoff sb).toNat % journalSizeOf sb)
            fuel (clearReclaim dev) sb
            (journalStartLpaOf sb + (RtfsSuperBlock.metaJournalEndBlkoff sb).toNat % journalSizeOf sb) with
        | none =>
          rw [hloop] at h
          cases h
        | some r =>
          have hl := loopWrites_apply hloop
          have hd := (applyWrites_same hclear _).trans hl
          rw [hloop] at h
          rw [applyWrites_append]
          cases r with
          | error p =>
            cases h
            exact ⟨hd.blocks,hd.blockCount⟩
          | ok r =>
            simp only [Option.some.injEq] at h
            have hfin := finishWrites_apply (journalStartLpaOf sb) (journalSizeOf sb) r
            rw [h] at hfin
            exact (applyWrites_same hd _).trans hfin

end Rtfs
