import Rtfs.Comm.Parse

namespace Rtfs

open RtfsSuperBlock

-- an access to the bytes [off, off + len) of a block, of a node or of the super block image
def access (off len : Nat) : Option Unit := if off + len ≤ 4096 then some () else none

def applySuperEntryChecked (s : TxState) (e : SuperBlockJournalEntry) : Option (Except Errno TxState) :=
  if 4096 < e.off.toNat + 4 then some (.error .eio)
  else do
    access e.off.toNat 4
    return .ok { s with superBlock := setU32 s.superBlock e.off.toNat e.newVal }

def collectInodeDataReclaimChecked (d : CommDev) (s : TxState) (oldInodeLpa newInodeLpa : UInt32) :
    Option (Except Errno TxState) :=
  if oldInodeLpa = invalidLpa then some (.error .einval)
  else
    match commRecoveryReadLpa d oldInodeLpa with
    | .error e => some (.error e)
    | .ok oldNode => do
      access 2 1
      if nodeInline oldNode then return .ok s
      access mainBlkaddrOff 4
      access blockCountOff 8
      if newInodeLpa ≠ invalidLpa then access 2 1
      (List.range defAddrsPerInode).forM (fun i => access (332 + 4 * i) 4)
      return commRecoveryCollectInodeDataReclaim d s oldInodeLpa newInodeLpa

def recordNatReclaimChecked (d : CommDev) (s : TxState) (nid : UInt32) (oldEntry newEntry : RtfsNatEntry) :
    Option (Except Errno TxState) := do
  access mainBlkaddrOff 4
  access blockCountOff 8
  if oldEntry.ino = invalidNid ∨ oldEntry.blockAddr = invalidLpa ∨
      ¬ inMainArea s.superBlock oldEntry.blockAddr ∨ oldEntry.blockAddr = newEntry.blockAddr then
    return .ok s
  let s' := { s with reclaimNodeLpas := lpaVectorAppendUnique s.reclaimNodeLpas oldEntry.blockAddr }
  if oldEntry.ino ≠ nid then return .ok s'
  collectInodeDataReclaimChecked d s' oldEntry.blockAddr newEntry.blockAddr

def applyNatEntryChecked (d : CommDev) (s : TxState) (e : NatJournalEntry) :
    Option (Except Errno TxState) := do
  let natLpaIdx := e.nid.toNat / natEntryPerBlock
  access segmentCountNatOff 4
  if (segmentCountNat s.superBlock).toNat * blockPerSegment ≤ natLpaIdx then return .error .eio
  access natBlkaddrOff 4
  let lpa := natBlkaddr s.superBlock + UInt32.ofNat natLpaIdx
  let entryIdx := e.nid.toNat % natEntryPerBlock
  match txGetBlock d s lpa with
  | .error err => return .error err
  | .ok (block,s₁) =>
    access (8 * entryIdx) 8
    match ← recordNatReclaimChecked d s₁ e.nid (natEntryAt block.data entryIdx) e.newValue with
    | .error err => return .error err
    | .ok s₂ => return .ok (txSetBlock s₂ lpa (setNatEntry block.data entryIdx e.newValue))

def applySitEntryChecked (d : CommDev) (s : TxState) (e : SitJournalEntry) :
    Option (Except Errno TxState) := do
  let sitLpaIdx := e.segID.toNat / sitEntryPerBlock
  access segmentCountSitOff 4
  if (segmentCountSit s.superBlock).toNat * blockPerSegment ≤ sitLpaIdx then return .error .eio
  access sitBlkaddrOff 4
  let lpa := sitBlkaddr s.superBlock + UInt32.ofNat sitLpaIdx
  let entryIdx := e.segID.toNat % sitEntryPerBlock
  match txGetBlock d s lpa with
  | .error err => return .error err
  | .ok (block,s₁) =>
    access (68 * entryIdx) 68
    return .ok (txSetBlock s₁ lpa (setSitEntry block.data entryIdx e.newValue))

def applyEntriesChecked {α : Type} (size off : Nat) (f : TxState → α → Option (Except Errno TxState)) :
    TxState → List α → Option (Except Errno TxState)
  | s,[] => some (.ok s)
  | s,e :: es => do
    access off size
    match ← f s e with
    | .error err => return .error err
    | .ok s' => applyEntriesChecked size (off + size) f s' es

def scanBlockChecked (d : CommDev) (b : Block) (off : Nat) (s : TxState) : Option (BlockOutcome TxState) :=
  if off + 4 ≤ 4096 then
    let len := (headerAt b off).len.toNat
    match access off 4 with
    | none => none
    | some _ =>
      if len = 0 then some .stopped
      else if len < 4 ∨ 4096 < off + len then some .stopped
      else
        let payload := b.read (off + 4) (len - 4)
        match JournalType.ofCode (headerAt b off).type with
        | some .superBlock =>
          if (len - 4) % 8 ≠ 0 then some .stopped
          else match applyEntriesChecked 8 (off + 4) applySuperEntryChecked s
              (superEntryCodec.decodeList ((len - 4) / 8) payload) with
            | none => none
            | some (.error e) => some (.failed e)
            | some (.ok s') => scanBlockChecked d b (off + len) s'
        | some .nats =>
          if (len - 4) % 12 ≠ 0 then some .stopped
          else match applyEntriesChecked 12 (off + 4) (applyNatEntryChecked d) s
              (natJournalCodec.decodeList ((len - 4) / 12) payload) with
            | none => none
            | some (.error e) => some (.failed e)
            | some (.ok s') => scanBlockChecked d b (off + len) s'
        | some .sits =>
          if (len - 4) % 72 ≠ 0 then some .stopped
          else match applyEntriesChecked 72 (off + 4) (applySitEntryChecked d) s
              (sitJournalCodec.decodeList ((len - 4) / 72) payload) with
            | none => none
            | some (.error e) => some (.failed e)
            | some (.ok s') => scanBlockChecked d b (off + len) s'
        | some .nop => some (.through s)
        | some .fin => if len ≠ 4 then some .stopped else some (.ended s)
        | none => some .stopped
  else some (.through s)
termination_by 4096 - off

def scanTxChecked (d : CommDev) (journalStartLpa journalEndLpa : Nat) :
    Nat → Nat → TxState → Option (TxOutcome TxState)
  | 0, _, _ => some .stopped
  | n + 1, curLpa, s =>
    match commRecoveryReadLpa d (UInt32.ofNat curLpa) with
    | .error e => some (.failed e)
    | .ok b =>
      match scanBlockChecked d b 0 s with
      | none => none
      | some (.failed e) => some (.failed e)
      | some .stopped => some .stopped
      | some (.ended s') => some (.ended s' curLpa)
      | some (.through s') => scanTxChecked d journalStartLpa journalEndLpa n
          (commRecoveryNextJournalLpa curLpa journalStartLpa journalEndLpa) s'

def replayOneTransactionChecked (d : CommDev) (baseSuperBlock : Block)
    (startLpa journalStartLpa journalEndLpa : Nat) : Option Replay :=
  if journalEndLpa - journalStartLpa = 0 then some (.failed .einval d)
  else
    (scanTxChecked d journalStartLpa journalEndLpa (journalEndLpa - journalStartLpa) startLpa
      (TxState.init baseSuperBlock)).map (fun
        | .failed e => .failed e d
        | .stopped => .uncommitted
        | .ended s lpa =>
          match commRecoveryCommitTx d s with
          | (d',some e) => .failed e d'
          | (d',none) => .committed (commRecoveryAppendReclaimRecord d' s)
              (commRecoveryNextJournalLpa lpa journalStartLpa journalEndLpa) s.superBlock)

section Access

theorem access_ok {off len : Nat} (h : off + len ≤ 4096) : access off len = some () := if_pos h

theorem superEntry_checked (s : TxState) (e : SuperBlockJournalEntry) :
    applySuperEntryChecked s e = some (applySuperEntry s e) := by
  unfold applySuperEntryChecked applySuperEntry
  by_cases h : 4096 < e.off.toNat + 4
  · rw [if_pos h,if_pos h]
  · rw [if_neg h,if_neg h,access_ok (by omega)]
    rfl

theorem addrs_checked (l : List Nat) (h : ∀ i ∈ l, i < defAddrsPerInode) :
    l.forM (fun i => access (332 + 4 * i) 4) = some () := by
  induction l with
  | nil => rfl
  | cons i l ih =>
    have hi : i < 932 := h i List.mem_cons_self
    change (access (332 + 4 * i) 4).bind (fun _ => l.forM (fun i => access (332 + 4 * i) 4)) = _
    rw [access_ok (by omega)]
    exact ih (fun j hj => h j (List.mem_cons_of_mem _ hj))

theorem collect_checked (d : CommDev) (s : TxState) (old new : UInt32) :
    collectInodeDataReclaimChecked d s old new = some (commRecoveryCollectInodeDataReclaim d s old new) := by
  unfold collectInodeDataReclaimChecked
  by_cases hz : old = invalidLpa
  · rw [if_pos hz,commRecoveryCollectInodeDataReclaim,if_pos hz]
  · rw [if_neg hz]
    cases hb : commRecoveryReadLpa d old with
    | error e =>
      rw [commRecoveryCollectInodeDataReclaim,if_neg hz,hb]
      rfl
    | ok b =>
      simp only
      rw [access_ok (by decide),access_ok (by decide),access_ok (by decide),
        addrs_checked _ (fun i hi => List.mem_range.mp hi)]
      by_cases hin : nodeInline b = true
      · have hsame : commRecoveryCollectInodeDataReclaim d s old new = .ok s := by
          rw [commRecoveryCollectInodeDataReclaim,if_neg hz,hb]
          change (if nodeInline b = true then _ else _ : Except Errno TxState) = _
          rw [if_pos hin]
          rfl
        simp [hin,hsame]
      · by_cases hnew : new ≠ invalidLpa
        · simp [hin,hnew]
        · simp [hin,hnew]

theorem natReclaim_checked (d : CommDev) (s : TxState) (nid : UInt32) (old new : RtfsNatEntry) :
    recordNatReclaimChecked d s nid old new = some (commRecoveryRecordNatReclaim d s nid old new) := by
  unfold recordNatReclaimChecked commRecoveryRecordNatReclaim
  rw [access_ok (by decide),access_ok (by decide)]
  change (if _ then _ else _ : Option (Except Errno TxState)) = _
  split
  · rfl
  · dsimp only
    split
    · rfl
    · exact collect_checked d _ _ _

theorem natEntry_checked (d : CommDev) (s : TxState) (e : NatJournalEntry) :
    applyNatEntryChecked d s e = some (applyNatEntry d s e) := by
  have hidx : 8 * (e.nid.toNat % natEntryPerBlock) + 8 ≤ 4096 := by
    have := Nat.mod_lt e.nid.toNat (show 0 < 512 by decide)
    change 8 * (e.nid.toNat % 512) + 8 ≤ 4096
    omega
  unfold applyNatEntryChecked applyNatEntry
  simp only
  rw [access_ok (by decide),access_ok (by decide)]
  change (if _ then _ else _ : Option (Except Errno TxState)) = _
  split
  · rfl
  · cases txGetBlock d s (natBlkaddr s.superBlock + UInt32.ofNat (e.nid.toNat / natEntryPerBlock)) with
    | error err => rfl
    | ok r =>
      change (access (8 * (e.nid.toNat % natEntryPerBlock)) 8).bind (fun _ =>
        (recordNatReclaimChecked d r.2 e.nid _ e.newValue).bind _) = some
          ((commRecoveryRecordNatReclaim d r.2 e.nid
            (natEntryAt r.1.data (e.nid.toNat % natEntryPerBlock)) e.newValue).bind _)
      rw [access_ok hidx,Option.bind_some,natReclaim_checked,Option.bind_some]
      cases commRecoveryRecordNatReclaim d r.2 e.nid
        (natEntryAt r.1.data (e.nid.toNat % natEntryPerBlock)) e.newValue <;> rfl

theorem sitEntry_checked (d : CommDev) (s : TxState) (e : SitJournalEntry) :
    applySitEntryChecked d s e = some (applySitEntry d s e) := by
  have hidx : 68 * (e.segID.toNat % sitEntryPerBlock) + 68 ≤ 4096 := by
    have := Nat.mod_lt e.segID.toNat (show 0 < 60 by decide)
    change 68 * (e.segID.toNat % 60) + 68 ≤ 4096
    omega
  unfold applySitEntryChecked applySitEntry
  simp only
  rw [access_ok (by decide),access_ok (by decide)]
  change (if _ then _ else _ : Option (Except Errno TxState)) = _
  split
  · rfl
  · cases txGetBlock d s (sitBlkaddr s.superBlock + UInt32.ofNat (e.segID.toNat / sitEntryPerBlock)) with
    | error err => rfl
    | ok r =>
      change (access (68 * (e.segID.toNat % sitEntryPerBlock)) 68).bind _ = _
      rw [access_ok hidx]
      rfl

theorem entries_checked {α : Type} {f : TxState → α → Except Errno TxState}
    {fc : TxState → α → Option (Except Errno TxState)} (hf : ∀ s e, fc s e = some (f s e)) {size off : Nat}
    {es : List α} (h : off + es.length * size ≤ 4096) (s : TxState) :
    applyEntriesChecked size off fc s es = some (es.foldlM f s) := by
  induction es generalizing off s with
  | nil => rfl
  | cons e es ih =>
    rw [List.length_cons,Nat.succ_mul] at h
    rw [applyEntriesChecked,access_ok (by omega),hf,List.foldlM_cons]
    cases f s e with
    | error err => rfl
    | ok s' => exact ih (by omega) s'

theorem length_decodeList {α : Type} (c : Codec α) (k : Nat) (bs : List UInt8) :
    (c.decodeList k bs).length = k := by
  induction k generalizing bs with
  | zero => rfl
  | succ k ih => exact congrArg Nat.succ (ih _)

end Access

section Scan
variable (d : CommDev)

theorem payload_fits {α : Type} (c : Codec α) {off len size : Nat} (bs : List UInt8) (h4 : 4 ≤ len)
    (h : off + len ≤ 4096) : off + 4 + (c.decodeList ((len - 4) / size) bs).length * size ≤ 4096 := by
  have hle := Nat.div_mul_le_self (len - 4) size
  rw [length_decodeList]
  omega

theorem block_checked (b : Block) (off : Nat) (s : TxState) :
    scanBlockChecked d b off s = some (scanBlock (recoveryHandler d) b off s) := by
  induction hk : 4096 - off using Nat.strong_induction_on generalizing off s with
  | _ k ih =>
    rw [scanBlockChecked,scanBlock]
    by_cases hroom : off + 4 ≤ 4096
    swap
    · rw [if_neg hroom,if_neg hroom]
    rw [if_pos hroom,if_pos hroom]
    simp only [access_ok hroom]
    by_cases hz : (headerAt b off).len.toNat = 0
    · rw [if_pos hz,if_pos hz]
    rw [if_neg hz,if_neg hz]
    by_cases hbad : (headerAt b off).len.toNat < 4 ∨ 4096 < off + (headerAt b off).len.toNat
    · rw [if_pos hbad,if_pos hbad]
    rw [if_neg hbad,if_neg hbad]
    obtain ⟨h4,hin⟩ := not_or.mp hbad
    rw [Nat.not_lt] at h4 hin
    have hnext := fun s' => ih (4096 - (off + (headerAt b off).len.toNat)) (by omega)
      (off + (headerAt b off).len.toNat) s' rfl
    cases JournalType.ofCode (headerAt b off).type with
    | none => rfl
    | some type =>
      cases type with
      | superBlock =>
        simp only
        rw [entries_checked superEntry_checked (payload_fits _ _ h4 hin)]
        generalize hx : List.foldlM applySuperEntry s _ = x
        change (recoveryHandler d).super s _ = x at hx
        rw [hx]
        simp only [hnext]
        split
        · rfl
        · cases x <;> rfl
      | nats =>
        simp only
        rw [entries_checked (natEntry_checked d) (payload_fits _ _ h4 hin)]
        generalize hx : List.foldlM (applyNatEntry d) s _ = x
        change (recoveryHandler d).nats s _ = x at hx
        rw [hx]
        simp only [hnext]
        split
        · rfl
        · cases x <;> rfl
      | sits =>
        simp only
        rw [entries_checked (sitEntry_checked d) (payload_fits _ _ h4 hin)]
        generalize hx : List.foldlM (applySitEntry d) s _ = x
        change (recoveryHandler d).sits s _ = x at hx
        rw [hx]
        simp only [hnext]
        split
        · rfl
        · cases x <;> rfl
      | nop => rfl
      | fin =>
        simp only
        split <;> rfl

theorem tx_checked (start fin n lpa : Nat) (s : TxState) :
    scanTxChecked d start fin n lpa s = some (scanTx (recoveryHandler d) d start fin n lpa s) := by
  induction n generalizing lpa s with
  | zero => rfl
  | succ n ih =>
    rw [scanTxChecked,scanTx]
    cases commRecoveryReadLpa d (UInt32.ofNat lpa) with
    | error e => rfl
    | ok b =>
      simp only [block_checked]
      cases scanBlock (recoveryHandler d) b 0 s with
      | failed e => rfl
      | stopped => rfl
      | ended s' => rfl
      | through s' => exact ih _ s'

theorem replay_checked (sb : Block) (lpa start fin : Nat) :
    replayOneTransactionChecked d sb lpa start fin =
      some (commRecoveryReplayOneTransaction d sb lpa start fin) := by
  unfold replayOneTransactionChecked commRecoveryReplayOneTransaction
  split
  · rfl
  · rw [tx_checked]
    cases scanTx (recoveryHandler d) d start fin (fin - start) lpa (TxState.init sb) <;> rfl

end Scan

end Rtfs
