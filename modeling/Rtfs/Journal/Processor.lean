import Rtfs.Comm.Device
import Rtfs.Journal.Framing
import Rtfs.Lib.Ring
import Rtfs.Lib.Updates

namespace Rtfs

def journalWriterRequests (w : JournalWriter) : Nat → Nat → Nat → List (Nat × Block)
  | 0, _, _ => []
  | n + 1, i, curTail =>
    let lpa := if curTail = w.endLpa then w.startLpa else curTail
    (lpa,w.journalBuffer i) :: journalWriterRequests w n (i + 1) (lpa + 1)

def submitWrites (d : CommDev) (reqs : List (Nat × Block)) : Except Errno CommDev :=
  reqs.foldlM (fun d r => d.writeLba (r.1 * lbaPerLpa) r.2) d

def journalWriterWriteToSsd (w : JournalWriter) (d : CommDev) (curTail : Nat) :
    Except Errno CommDev := submitWrites d (journalWriterRequests w (1 + w.bufferTailIdx) 0 curTail)

def CommDev.moveTail (d : CommDev) (lpa : Nat) : CommDev :=
  { d with metaJournalTailLpa := lpa,metaJournalHeadLpa := lpa }

def commSubmitSyncUpdateMetajournalTailRequest (d : CommDev) (originLpa writeBlockNum : Nat) :
    Except Errno CommDev :=
  if writeBlockNum = 0 then .ok d
  else if d.metaJournalEndLpa ≤ d.metaJournalStartLpa then .error .einval
  else if originLpa < d.metaJournalStartLpa ∨ d.metaJournalEndLpa ≤ originLpa then .error .einval
  else if originLpa ≠ d.metaJournalTailLpa then .error .einval
  else
    let journalSize := d.metaJournalEndLpa - d.metaJournalStartLpa
    let offset := originLpa - d.metaJournalStartLpa
    let newOffset := offset + writeBlockNum % journalSize
    let newOffset := if journalSize ≤ newOffset then newOffset - journalSize else newOffset
    .ok (d.moveTail (d.metaJournalStartLpa + newOffset))

structure JournalProcessor where
  startLpa : Nat
  endLpa : Nat
  headLpa : Nat
  tailLpa : Nat
  curAvailLpa : Nat
  totalAvailLpa : Nat
  curJournalBlockNum : Nat
  journalWriter : JournalWriter

namespace JournalProcessor

def load (p : JournalProcessor) (w : JournalWriter) (n : Nat) : JournalProcessor :=
  { p with journalWriter := w,curJournalBlockNum := n }

def advance (p : JournalProcessor) (tail avail : Nat) : JournalProcessor :=
  { p with tailLpa := tail,curAvailLpa := avail }

def sync (p : JournalProcessor) (head avail : Nat) : JournalProcessor :=
  { p with headLpa := head,curAvailLpa := avail }

end JournalProcessor

def journalProcessorInit (mem : Nat → Block) (journalStartLpa journalEndLpa journalFifoPos : Nat) :
    JournalProcessor where
  startLpa := journalStartLpa
  endLpa := journalEndLpa
  headLpa := journalFifoPos
  tailLpa := journalFifoPos
  curAvailLpa := journalEndLpa - journalStartLpa - 1
  totalAvailLpa := journalEndLpa - journalStartLpa - 1
  curJournalBlockNum := 0
  journalWriter := ⟨journalStartLpa,journalEndLpa,mem,0,0⟩

def journalProcessorWriteJournalToBuffer (kh : Khash) (p : JournalProcessor)
    (curJournal : JournalContainer) : Option JournalProcessor :=
  (journalWriterCollectPendingJournalToWriteBuffer kh p.journalWriter curJournal).map
    (fun r => p.load r.1 r.2)

def journalProcessorWriteJournalToSsd (p : JournalProcessor) (d : CommDev) :
    Option (Bool × JournalProcessor × CommDev) :=
  if p.curJournalBlockNum ≤ p.curAvailLpa then do
    let d₁ ← (journalWriterWriteToSsd p.journalWriter d p.tailLpa).toOption
    let d₂ ← (commSubmitSyncUpdateMetajournalTailRequest d₁ p.tailLpa p.curJournalBlockNum).toOption
    let tail := p.tailLpa + p.curJournalBlockNum
    let tail := if p.endLpa ≤ tail then tail - p.endLpa + p.startLpa else tail
    return (true,p.advance tail (p.curAvailLpa - p.curJournalBlockNum),d₂)
  else some (false,p,d)

def journalProcessorSyncWithSsdJournalPos (p : JournalProcessor) (d : CommDev) :
    JournalProcessor :=
  let newHeadLpa := d.metaJournalHeadLpa
  let newAvailLpa := if p.headLpa ≤ newHeadLpa then newHeadLpa - p.headLpa
    else newHeadLpa + p.endLpa - p.startLpa - p.headLpa
  p.sync newHeadLpa (p.curAvailLpa + newAvailLpa)

def journalProcessorProcessCpltJournal (p : JournalProcessor) (d : CommDev) : JournalProcessor :=
  if p.curAvailLpa = p.totalAvailLpa then p else journalProcessorSyncWithSsdJournalPos p d

def journalProcessorProcessPendingJournal (kh : Khash) (p : JournalProcessor) (d : CommDev)
    (curJournal : JournalContainer) : Option (Bool × JournalProcessor × CommDev) := do
  let p₁ ← journalProcessorWriteJournalToBuffer kh p curJournal
  let (written,p₂,d₂) ← journalProcessorWriteJournalToSsd p₁ d
  return (written,journalProcessorProcessCpltJournal p₂ d₂,d₂)

section Writes
variable {d : CommDev} {w : JournalWriter} {base size : Nat}

theorem requests_eq (hs : 0 < size) (hw : w.startLpa = base) (hw' : w.endLpa = base + size)
    (o n i curTail : Nat)
    (hc : (if curTail = w.endLpa then w.startLpa else curTail) = Ring.slot base size (o + i)) :
    journalWriterRequests w n i curTail =
      (List.range' i n).map (fun j => (Ring.slot base size (o + j),w.journalBuffer j)) := by
  induction n generalizing i curTail with
  | zero => rfl
  | succ n ih =>
    rw [journalWriterRequests]
    simp only [hc,List.range'_succ,List.map_cons]
    rw [ih (i + 1) (Ring.slot base size (o + i) + 1)]
    have hn : Ring.next base size (Ring.slot base size (o + i)) = _ := Ring.next_slot hs (o + i)
    have hlt : Ring.slot base size (o + i) < base + size := Ring.slot_lt hs (o + i)
    rw [← Nat.add_assoc,← hn,hw,hw',Ring.next]
    by_cases he : Ring.slot base size (o + i) + 1 = base + size
    · rw [if_pos he,if_pos (le_of_eq he.symm)]
    · rw [if_neg he,if_neg (by omega)]

theorem submitWrites_ok (reqs : List (Nat × Block)) (d : CommDev)
    (h : ∀ r ∈ reqs, d.Holds r.1) :
    submitWrites d reqs = .ok (d.withBlocks (Updates.applyAll d.blocks reqs)) := by
  induction reqs generalizing d with
  | nil => rfl
  | cons r reqs ih =>
    rw [submitWrites,List.foldlM_cons,CommDev.writeLba_ok (h r List.mem_cons_self)]
    exact ih (d.withBlocks (Function.update d.blocks r.1 r.2))
      (fun q hq => h q (List.mem_cons_of_mem _ hq))

def ringRequests (base size o n : Nat) (buf : Nat → Block) : List (Nat × Block) :=
  (List.range n).map (fun j => (Ring.slot base size (o + j),buf j))

theorem ringRequests_nodup (o : Nat) {n : Nat} (hn : n ≤ size) (buf : Nat → Block) :
    ((ringRequests base size o n buf).map Prod.fst).Nodup := by
  rw [ringRequests,List.map_map]
  refine List.Nodup.map_on (fun i hi j hj he => ?_) List.nodup_range
  exact (Ring.slot_eq_iff (List.mem_range.mp hj) (List.mem_range.mp hi) hn o).mp he

theorem ringRequests_at (f : Nat → Block) (o : Nat) {n i : Nat} (hn : n ≤ size) (hi : i < n)
    (buf : Nat → Block) :
    Updates.applyAll f (ringRequests base size o n buf) (Ring.slot base size (o + i)) = buf i := by
  have hm : (Ring.slot base size (o + i),buf i) ∈ ringRequests base size o n buf :=
    List.mem_map.mpr ⟨i,List.mem_range.mpr hi,rfl⟩
  exact Updates.applyAll_of_mem (ringRequests_nodup o hn buf) hm

theorem ringRequests_outside (f : Nat → Block) (o n : Nat) (buf : Nat → Block) {lpa : Nat}
    (h : ∀ i < n, lpa ≠ Ring.slot base size (o + i)) :
    Updates.applyAll f (ringRequests base size o n buf) lpa = f lpa := by
  apply Updates.applyAll_of_notMem
  intro hm
  simp only [ringRequests,List.map_map,List.mem_map,List.mem_range] at hm
  obtain ⟨i,hi,he⟩ := hm
  exact h i hi he.symm

theorem written_image (f : Nat → Block) (o : Nat) {tx : Tx} (hn : tx.blockNum ≤ size)
    {buf : Nat → Block} (him : TxImage buf tx) :
    TxImage (fun i => Updates.applyAll f (ringRequests base size o tx.blockNum buf)
      (Ring.slot base size (o + i))) tx := by
  have hb : tx.full.length < tx.blockNum := by
    unfold Tx.blockNum
    omega
  constructor
  · intro i rs hi
    have hlt := (List.getElem?_eq_some_iff.mp hi).1
    simp only [ringRequests_at f o hn (lt_trans hlt hb) buf]
    exact him.full i rs hi
  · simp only [ringRequests_at f o hn hb buf]
    exact him.last

theorem writeToSsd_spec (hs : 0 < size) (hheld : ∀ lpa, base ≤ lpa → lpa < base + size → d.Holds lpa)
    (hw : w.startLpa = base) (hw' : w.endLpa = base + size) (o : Nat) :
    journalWriterWriteToSsd w d (Ring.slot base size o) =
      .ok (d.withBlocks (Updates.applyAll d.blocks
        (ringRequests base size o (1 + w.bufferTailIdx) w.journalBuffer))) := by
  have hlt : Ring.slot base size o < base + size := Ring.slot_lt hs o
  have hreq := requests_eq hs hw hw' o (1 + w.bufferTailIdx) 0 (Ring.slot base size o) (by
    rw [hw',if_neg (Nat.ne_of_lt hlt),Nat.add_zero])
  rw [← List.range_eq_range'] at hreq
  rw [journalWriterWriteToSsd,hreq]
  apply submitWrites_ok
  intro r hr
  obtain ⟨i,_,rfl⟩ := List.mem_map.mp hr
  exact hheld _ (Ring.base_le_slot _) (Ring.slot_lt hs _)

end Writes

end Rtfs
