import Rtfs.Comm.Device
import Rtfs.Journal.Types

namespace Rtfs

structure RecoveryBlock where
  lpa : UInt32
  dirty : Bool
  data : Block

structure TxState where
  superBlock : Block
  blocks : List RecoveryBlock
  reclaimDataLpas : List UInt32
  reclaimNodeLpas : List UInt32

def TxState.init (superBlock : Block) : TxState := ⟨superBlock,[],[],[]⟩

def lpaVectorAppendUnique (vec : List UInt32) (lpa : UInt32) : List UInt32 :=
  if lpa = invalidLpa ∨ lpa ∈ vec then vec else vec ++ [lpa]

def txGetBlock (d : CommDev) (s : TxState) (lpa : UInt32) :
    Except Errno (RecoveryBlock × TxState) :=
  match s.blocks.find? (fun b => b.lpa = lpa) with
  | some b => .ok (b,s)
  | none => do
    let data ← commRecoveryReadLpa d lpa
    return (⟨lpa,false,data⟩,{ s with blocks := ⟨lpa,false,data⟩ :: s.blocks })

def txSetBlock (s : TxState) (lpa : UInt32) (data : Block) : TxState :=
  { s with blocks := s.blocks.map (fun b => if b.lpa = lpa then ⟨lpa,true,data⟩ else b) }

def applySuperEntry (s : TxState) (e : SuperBlockJournalEntry) : Except Errno TxState :=
  if 4096 < e.off.toNat + 4 then .error .eio
  else .ok { s with superBlock := setU32 s.superBlock e.off.toNat e.newVal }

def commRecoveryApplySuperEntries (s : TxState) (entries : List SuperBlockJournalEntry) :
    Except Errno TxState := entries.foldlM applySuperEntry s

def nodeInline (node : Block) : Bool := node.get 2 &&& (rtfsInlineData ||| rtfsInlineDentry) ≠ 0

def inodeAddr (node : Block) (i : Nat) : UInt32 := u32At node (332 + 4 * i)

def inMainArea (superBlock : Block) (lpa : UInt32) : Bool :=
  RtfsSuperBlock.mainBlkaddr superBlock ≤ lpa ∧ lpa.toNat < RtfsSuperBlock.blockCount superBlock

def commRecoveryCollectInodeDataReclaim (d : CommDev) (s : TxState)
    (oldInodeLpa newInodeLpa : UInt32) : Except Errno TxState :=
  if oldInodeLpa = invalidLpa then .error .einval
  else do
    let oldNode ← commRecoveryReadLpa d oldInodeLpa
    if nodeInline oldNode then return s
    let newNode ← if newInodeLpa ≠ invalidLpa then commRecoveryReadLpa d newInodeLpa
      else pure Buf.zero
    let newInline := newInodeLpa ≠ invalidLpa ∧ nodeInline newNode
    return { s with reclaimDataLpas := (List.range defAddrsPerInode).foldl (fun vec i =>
      let oldDataLpa := inodeAddr oldNode i
      let newDataLpa := if newInodeLpa ≠ invalidLpa ∧ ¬ newInline then inodeAddr newNode i
        else invalidLpa
      if oldDataLpa ≠ invalidLpa ∧ oldDataLpa ≠ newDataLpa ∧ inMainArea s.superBlock oldDataLpa
      then lpaVectorAppendUnique vec oldDataLpa else vec) s.reclaimDataLpas }

def commRecoveryRecordNatReclaim (d : CommDev) (s : TxState) (nid : UInt32)
    (oldEntry newEntry : RtfsNatEntry) : Except Errno TxState :=
  if oldEntry.ino = invalidNid ∨ oldEntry.blockAddr = invalidLpa ∨
      ¬ inMainArea s.superBlock oldEntry.blockAddr ∨ oldEntry.blockAddr = newEntry.blockAddr then
    .ok s
  else
    let s' := { s with reclaimNodeLpas := lpaVectorAppendUnique s.reclaimNodeLpas oldEntry.blockAddr }
    if oldEntry.ino ≠ nid then .ok s'
    else commRecoveryCollectInodeDataReclaim d s' oldEntry.blockAddr newEntry.blockAddr

def applyNatEntry (d : CommDev) (s : TxState) (e : NatJournalEntry) : Except Errno TxState :=
  let natLpaIdx := e.nid.toNat / natEntryPerBlock
  if (RtfsSuperBlock.segmentCountNat s.superBlock).toNat * blockPerSegment ≤ natLpaIdx then
    .error .eio
  else do
    let lpa := RtfsSuperBlock.natBlkaddr s.superBlock + UInt32.ofNat natLpaIdx
    let entryIdx := e.nid.toNat % natEntryPerBlock
    let (block,s₁) ← txGetBlock d s lpa
    let s₂ ← commRecoveryRecordNatReclaim d s₁ e.nid (natEntryAt block.data entryIdx) e.newValue
    return txSetBlock s₂ lpa (setNatEntry block.data entryIdx e.newValue)

def commRecoveryApplyNatEntries (d : CommDev) (s : TxState) (entries : List NatJournalEntry) :
    Except Errno TxState := entries.foldlM (applyNatEntry d) s

def applySitEntry (d : CommDev) (s : TxState) (e : SitJournalEntry) : Except Errno TxState :=
  let sitLpaIdx := e.segID.toNat / sitEntryPerBlock
  if (RtfsSuperBlock.segmentCountSit s.superBlock).toNat * blockPerSegment ≤ sitLpaIdx then
    .error .eio
  else do
    let lpa := RtfsSuperBlock.sitBlkaddr s.superBlock + UInt32.ofNat sitLpaIdx
    let entryIdx := e.segID.toNat % sitEntryPerBlock
    let (block,s₁) ← txGetBlock d s lpa
    return txSetBlock s₁ lpa (setSitEntry block.data entryIdx e.newValue)

def commRecoveryApplySitEntries (d : CommDev) (s : TxState) (entries : List SitJournalEntry) :
    Except Errno TxState := entries.foldlM (applySitEntry d) s

structure Handler (σ : Type) where
  super : σ → List SuperBlockJournalEntry → Except Errno σ
  nats : σ → List NatJournalEntry → Except Errno σ
  sits : σ → List SitJournalEntry → Except Errno σ

def recoveryHandler (d : CommDev) : Handler TxState :=
  ⟨commRecoveryApplySuperEntries,commRecoveryApplyNatEntries d,commRecoveryApplySitEntries d⟩

inductive BlockOutcome (σ : Type)
  | failed (e : Errno)
  | stopped
  | ended (s : σ)
  | through (s : σ)

inductive TxOutcome (σ : Type)
  | failed (e : Errno)
  | stopped
  | ended (s : σ) (lpa : Nat)

section Scan
variable {σ : Type} (h : Handler σ)

def scanBlock (b : Block) (off : Nat) (s : σ) : BlockOutcome σ :=
  if off + 4 ≤ 4096 then
    let len := (headerAt b off).len.toNat
    if len = 0 then .stopped
    else if len < 4 ∨ 4096 < off + len then .stopped
    else
      let payload := b.read (off + 4) (len - 4)
      match JournalType.ofCode (headerAt b off).type with
      | some .superBlock =>
        if (len - 4) % 8 ≠ 0 then .stopped
        else match h.super s (superEntryCodec.decodeList ((len - 4) / 8) payload) with
          | .error e => .failed e
          | .ok s' => scanBlock b (off + len) s'
      | some .nats =>
        if (len - 4) % 12 ≠ 0 then .stopped
        else match h.nats s (natJournalCodec.decodeList ((len - 4) / 12) payload) with
          | .error e => .failed e
          | .ok s' => scanBlock b (off + len) s'
      | some .sits =>
        if (len - 4) % 72 ≠ 0 then .stopped
        else match h.sits s (sitJournalCodec.decodeList ((len - 4) / 72) payload) with
          | .error e => .failed e
          | .ok s' => scanBlock b (off + len) s'
      | some .nop => .through s
      | some .fin => if len ≠ 4 then .stopped else .ended s
      | none => .stopped
  else .through s
termination_by 4096 - off

def commRecoveryNextJournalLpa (curLpa journalStartLpa journalEndLpa : Nat) : Nat :=
  if journalEndLpa ≤ curLpa + 1 then journalStartLpa else curLpa + 1

def scanTx (d : CommDev) (journalStartLpa journalEndLpa : Nat) : Nat → Nat → σ → TxOutcome σ
  | 0, _, _ => .stopped
  | n + 1, curLpa, s =>
    match commRecoveryReadLpa d (UInt32.ofNat curLpa) with
    | .error e => .failed e
    | .ok b =>
      match scanBlock h b 0 s with
      | .failed e => .failed e
      | .stopped => .stopped
      | .ended s' => .ended s' curLpa
      | .through s' => scanTx d journalStartLpa journalEndLpa n
          (commRecoveryNextJournalLpa curLpa journalStartLpa journalEndLpa) s'

end Scan

def commitBlocks (d : CommDev) : List RecoveryBlock → CommDev × Option Errno
  | [] => (d,none)
  | b :: bs =>
    if b.dirty then
      match commRecoveryWriteLpa d b.lpa b.data with
      | .error e => (d,some e)
      | .ok d' => commitBlocks d' bs
    else commitBlocks d bs

def commRecoveryCommitTx (d : CommDev) (s : TxState) : CommDev × Option Errno :=
  commitBlocks d s.blocks

def commRecoveryAppendReclaimRecord (d : CommDev) (s : TxState) : CommDev :=
  if s.reclaimDataLpas = [] ∧ s.reclaimNodeLpas = [] then d
  else { d with recoveredReclaim := d.recoveredReclaim ++ [⟨s.reclaimDataLpas,s.reclaimNodeLpas⟩] }

inductive Replay
  | failed (e : Errno) (d : CommDev)
  | uncommitted
  | committed (d : CommDev) (endLpa : Nat) (superBlock : Block)

def commRecoveryReplayOneTransaction (d : CommDev) (baseSuperBlock : Block)
    (startLpa journalStartLpa journalEndLpa : Nat) : Replay :=
  if journalEndLpa - journalStartLpa = 0 then .failed .einval d
  else
    match scanTx (recoveryHandler d) d journalStartLpa journalEndLpa
        (journalEndLpa - journalStartLpa) startLpa (TxState.init baseSuperBlock) with
    | .failed e => .failed e d
    | .stopped => .uncommitted
    | .ended s lpa =>
      match commRecoveryCommitTx d s with
      | (d',some e) => .failed e d'
      | (d',none) => .committed (commRecoveryAppendReclaimRecord d' s)
          (commRecoveryNextJournalLpa lpa journalStartLpa journalEndLpa) s.superBlock

structure Scan where
  dev : CommDev
  superBlock : Block
  committedEndLpa : Nat

def recoverLoop (journalStartLpa journalEndLpa scanStartLpa : Nat) :
    Nat → CommDev → Block → Nat → Option (Except (Errno × CommDev) Scan)
  | 0, _, _, _ => none
  | fuel + 1, d, superBlock, scanLpa =>
    match commRecoveryReplayOneTransaction d superBlock scanLpa journalStartLpa journalEndLpa with
    | .failed e d' => some (.error (e,d'))
    | .uncommitted => some (.ok ⟨d,superBlock,scanLpa⟩)
    | .committed d' nextLpa replayedSuper =>
      if nextLpa = scanStartLpa then some (.ok ⟨d',replayedSuper,nextLpa⟩)
      else recoverLoop journalStartLpa journalEndLpa scanStartLpa fuel d' replayedSuper nextLpa

def setJournalOffsets (superBlock : Block) (off : Nat) : Block :=
  setU16 (setU16 superBlock RtfsSuperBlock.metaJournalStartBlkoffOff (UInt16.ofNat off))
    RtfsSuperBlock.metaJournalEndBlkoffOff (UInt16.ofNat off)

def clearReclaim (d : CommDev) : CommDev := { d with recoveredReclaim := [] }

def journalStartLpaOf (superBlock : Block) : Nat :=
  (RtfsSuperBlock.metaJournalBlkaddr superBlock).toNat

def journalSizeOf (superBlock : Block) : Nat :=
  (RtfsSuperBlock.segmentCountMetaJournal superBlock).toNat * blockPerSegment

def finishRecovery (journalStartLpa journalSize : Nat) (r : Scan) : CommDev × Option Errno :=
  let off := (r.committedEndLpa - journalStartLpa) % journalSize
  match commRecoveryWriteLpa r.dev 0 (setJournalOffsets r.superBlock off) with
  | .error e => (clearReclaim r.dev,some e)
  | .ok d => ({ d with
      metaJournalStartLpa := journalStartLpa
      metaJournalEndLpa := journalStartLpa + journalSize
      metaJournalHeadLpa := r.committedEndLpa
      metaJournalTailLpa := r.committedEndLpa },none)

def commSubmitFsRecoverFromDbRequest (fuel : Nat) (dev : CommDev) :
    Option (CommDev × Option Errno) :=
  let d := clearReclaim dev
  match commRecoveryReadLpa d 0 with
  | .error e => some (d,some e)
  | .ok superBlock =>
    if RtfsSuperBlock.magic superBlock ≠ rtfsMagicNumber then some (d,some .eio)
    else
      let journalStartLpa := journalStartLpaOf superBlock
      let journalSize := journalSizeOf superBlock
      if journalSize = 0 then some (d,some .eio)
      else
        let scanStartLpa := journalStartLpa +
          (RtfsSuperBlock.metaJournalEndBlkoff superBlock).toNat % journalSize
        match recoverLoop journalStartLpa (journalStartLpa + journalSize) scanStartLpa fuel d
            superBlock scanStartLpa with
        | none => none
        | some (.error (e,d')) => some (clearReclaim d',some e)
        | some (.ok r) => some (finishRecovery journalStartLpa journalSize r)

end Rtfs
