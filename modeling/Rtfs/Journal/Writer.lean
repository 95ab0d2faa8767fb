import Rtfs.Journal.Types
import Rtfs.Klib.KbtreeIter

namespace Rtfs

def genericCalculateWritableEntryNum (bufferSize entrySize expectedWriteNum : Nat) : Nat :=
  if 4 + expectedWriteNum * entrySize < bufferSize then
    if 4 ≤ bufferSize - (4 + expectedWriteNum * entrySize) then expectedWriteNum
    else if 2 * 4 < bufferSize then (bufferSize - 2 * 4) / entrySize
    else 0
  else if 4 + expectedWriteNum * entrySize = bufferSize then expectedWriteNum
  else if bufferSize < 4 then 0
  else genericCalculateWritableEntryNum bufferSize entrySize ((bufferSize - 4) / entrySize)
termination_by expectedWriteNum
decreasing_by
  rename_i h1 h2 h3
  apply Nat.div_lt_of_lt_mul
  rw [Nat.mul_comm]
  omega

def fillBufferWithNop (b : Block) (start : Nat) : Option Block :=
  if 4096 - start < 4 then none
  else some (Buf.setAs metaJournalEntryCodec b start
    ⟨UInt16.ofNat (4096 - start),JournalType.nop.code⟩)

inductive JournalOutputState
  | ok
  | noEnoughBuffer
  | reachEnd
  deriving DecidableEq, Repr

section Output
variable {α : Type} (ty : JournalType) (c : Codec α)

def recordHeader (n : Nat) : MetaJournalEntry := ⟨UInt16.ofNat (4 + n * c.size),ty.code⟩

def outputToBuffer (rest : List α) (b : Block) (off : Nat) :
    JournalOutputState × List α × Block × Nat :=
  if rest.length = 0 then (.reachEnd,rest,b,off)
  else
    let outputNum := genericCalculateWritableEntryNum (4096 - off) c.size rest.length
    if outputNum = 0 then (.noEnoughBuffer,rest,b,off)
    else
      let b' := Buf.setAs metaJournalEntryCodec b off (recordHeader ty c outputNum)
      (.ok,rest.drop outputNum,b'.write (off + 4) (c.encodeList (rest.take outputNum)),
        off + 4 + outputNum * c.size)

end Output

structure JournalWriter where
  startLpa : Nat
  endLpa : Nat
  journalBuffer : Nat → Block
  bufferTailIdx : Nat
  bufferTailOff : Nat

namespace JournalWriter

def setIthBufferBlock (w : JournalWriter) (b : Block) (off : Nat) : JournalWriter :=
  { w with journalBuffer := Function.update w.journalBuffer w.bufferTailIdx b,bufferTailOff := off }

def nextBlockIfFull (w : JournalWriter) : JournalWriter :=
  if 4096 = w.bufferTailOff then
    { w with bufferTailIdx := w.bufferTailIdx + 1,bufferTailOff := 0 }
  else w

end JournalWriter

def writeEntries {α : Type} (ty : JournalType) (c : Codec α) :
    Nat → JournalWriter → List α → Option JournalWriter
  | 0, _, _ => none
  | fuel + 1, w, rest =>
    match outputToBuffer ty c rest (w.journalBuffer w.bufferTailIdx) w.bufferTailOff with
    | (.ok,rest',b,off) => writeEntries ty c fuel (w.setIthBufferBlock b off).nextBlockIfFull rest'
    | (.noEnoughBuffer,rest',b,off) =>
      (fillBufferWithNop b off).bind
        (fun b' => writeEntries ty c fuel (w.setIthBufferBlock b' 4096).nextBlockIfFull rest')
    | (.reachEnd,_,_,_) => some w.nextBlockIfFull

def writeFuel {α : Type} (es : List α) : Nat := 2 * es.length + 2

def journalWriterAppendEndEntry (w : JournalWriter) : JournalWriter :=
  w.setIthBufferBlock (Buf.setAs metaJournalEntryCodec (w.journalBuffer w.bufferTailIdx)
    w.bufferTailOff ⟨4,JournalType.fin.code⟩) w.bufferTailOff

structure Khash where
  enum : List (UInt32 × Nat) → List (UInt32 × Nat)
  perm : ∀ m, (enum m).Perm m

def khPut (m : List (UInt32 × Nat)) (k : UInt32) (v : Nat) : List (UInt32 × Nat) :=
  if m.any (fun p => p.1 = k) then m.map (fun p => if p.1 = k then (k,v) else p) else m ++ [(k,v)]

structure JournalDedupEntry where
  key : UInt32
  index : Nat
  deriving DecidableEq

def JournalDedupEntry.rank (d : JournalDedupEntry) : Nat := d.key.toNat

def kbDegree : Nat := 10

section OutputVectors
variable {α : Type} (key : α → UInt32)

def indexed (journal : List α) : List JournalDedupEntry :=
  journal.zipIdx.map (fun p => ⟨key p.1,p.2⟩)

def fetch (journal : List α) (is : List Nat) : List α := is.filterMap (fun i => journal[i]?)

def generateMap (journal : List α) : List (UInt32 × Nat) :=
  (indexed key journal).foldl (fun m d => khPut m d.key d.index) []

def generateTree (journal : List α) : Kbtree.Tree JournalDedupEntry :=
  Kbtree.build JournalDedupEntry.rank kbDegree (indexed key journal)

def treeOutput (journal : List α) : List α :=
  let map := generateTree key journal
  fetch journal ((Kbtree.kbItrTake (Kbtree.kbSize map) (Kbtree.kbItrFirst map)).map (·.index))

end OutputVectors

def superJournalOutputVector (kh : Khash) (journal : List SuperBlockJournalEntry) :
    List SuperBlockJournalEntry :=
  fetch journal ((kh.enum (generateMap SuperBlockJournalEntry.off journal)).map Prod.snd)

def natJournalOutputVector (journal : List NatJournalEntry) : List NatJournalEntry :=
  treeOutput NatJournalEntry.nid journal

def sitJournalOutputVector (journal : List SitJournalEntry) : List SitJournalEntry :=
  treeOutput SitJournalEntry.segID journal

def writeSuperEntries (w : JournalWriter) (es : List SuperBlockJournalEntry) :
    Option JournalWriter := writeEntries .superBlock superEntryCodec (writeFuel es) w es

def writeNatEntries (w : JournalWriter) (es : List NatJournalEntry) : Option JournalWriter :=
  writeEntries .nats natJournalCodec (writeFuel es) w es

def writeSitEntries (w : JournalWriter) (es : List SitJournalEntry) : Option JournalWriter :=
  writeEntries .sits sitJournalCodec (writeFuel es) w es

def journalWriterCollectPendingJournalToWriteBuffer (kh : Khash) (w : JournalWriter)
    (curJournal : JournalContainer) : Option (JournalWriter × Nat) := do
  let w₀ := { w with bufferTailIdx := 0,bufferTailOff := 0 }
  let w₁ ← writeSuperEntries w₀ (superJournalOutputVector kh curJournal.superBlockJournal)
  let w₂ ← writeNatEntries w₁ (natJournalOutputVector curJournal.natJournal)
  let w₃ ← writeSitEntries w₂ (sitJournalOutputVector curJournal.sitJournal)
  let w₄ := journalWriterAppendEndEntry w₃
  return (w₄,1 + w₄.bufferTailIdx)

end Rtfs
