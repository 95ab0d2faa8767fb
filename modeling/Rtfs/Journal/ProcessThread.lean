import Rtfs.Journal.History

namespace Rtfs

structure TransactionJournalRecord where
  txId : Nat
  startLpa : Nat
  endLpa : Nat

def transactionJournalRecordIsApplied (r : TransactionJournalRecord) (curHead curTail : Nat) : Bool :=
  if r.startLpa < r.endLpa then
    if curHead ≤ curTail then decide (r.endLpa ≤ curHead) || decide (curTail < r.startLpa)
    else decide (r.endLpa ≤ curHead)
  else decide (curHead ≤ curTail) && decide (r.endLpa ≤ curHead)

inductive JournalProcessState
  | newlyFetched
  | writtenInBuffer
  deriving DecidableEq

structure JournalProcessEnv where
  commitQueue : List JournalContainer
  exitReq : Bool

namespace JournalProcessEnv

def commitJournal (env : JournalProcessEnv) (j : JournalContainer) : JournalProcessEnv :=
  { env with commitQueue := env.commitQueue ++ [j] }

def stopProcessThread (env : JournalProcessEnv) : JournalProcessEnv := { env with exitReq := true }

end JournalProcessEnv

structure JournalWrite where
  journal : JournalContainer
  requests : List (Nat × Block)

def JournalWrite.blockNum (w : JournalWrite) : Nat := w.requests.length

def CommDev.keepHead (d : CommDev) (lpa : Nat) : CommDev := { d with metaJournalHeadLpa := lpa }

-- the device takes the new tail at once and consumes the blocks in its own time
def writeJournalToSsd (p : JournalProcessor) (d : CommDev) :
    Option (Bool × JournalProcessor × CommDev) :=
  (journalProcessorWriteJournalToSsd p d).map
    (fun r => (r.1,r.2.1,r.2.2.keepHead d.metaJournalHeadLpa))

def journalProcessorProcessTxRecord (headLpa tailLpa : Nat) :
    List TransactionJournalRecord → List Nat × List TransactionJournalRecord
  | [] => ([],[])
  | r :: rs =>
    if transactionJournalRecordIsApplied r headLpa tailLpa then
      (r.txId :: (journalProcessorProcessTxRecord headLpa tailLpa rs).1,
        (journalProcessorProcessTxRecord headLpa tailLpa rs).2)
    else ([],r :: rs)

structure JournalProcessThread where
  proc : JournalProcessor
  pendingJournalList : List JournalContainer
  curJournal : Option JournalContainer
  curProcState : JournalProcessState
  curJournalStartLpa : Nat
  curJournalEndLpa : Nat
  txRecords : List TransactionJournalRecord

inductive FetchResult
  | fetched (env : JournalProcessEnv) (th : JournalProcessThread)
  | wait
  | interrupted (env : JournalProcessEnv)

namespace JournalProcessThread

def init (mem : Nat → Block) (journalStartLpa journalEndLpa journalFifoPos : Nat) :
    JournalProcessThread where
  proc := journalProcessorInit mem journalStartLpa journalEndLpa journalFifoPos
  pendingJournalList := []
  curJournal := none
  curProcState := .newlyFetched
  curJournalStartLpa := 0
  curJournalEndLpa := 0
  txRecords := []

variable (th : JournalProcessThread)

def isWorking : Bool :=
  !(decide (th.proc.curAvailLpa = th.proc.totalAvailLpa) && th.pendingJournalList.isEmpty &&
    th.curJournal.isNone)

def concat (env : JournalProcessEnv) : FetchResult :=
  .fetched { env with commitQueue := [] }
    { th with pendingJournalList := th.pendingJournalList ++ env.commitQueue }

def fetchNewJournal (env : JournalProcessEnv) : FetchResult :=
  if th.isWorking then if env.commitQueue.isEmpty then .fetched env th else th.concat env
  else if env.commitQueue.isEmpty then
    if env.exitReq then .interrupted { env with exitReq := false } else .wait
  else th.concat env

def popPending : Option (JournalContainer × JournalProcessThread) :=
  match th.curJournal,th.pendingJournalList with
  | some j, _ => some (j,th)
  | none, j :: js => some (j,{ th with
      pendingJournalList := js,curJournal := some j,curProcState := .newlyFetched })
  | none, [] => none

def writeJournalToBuffer (kh : Khash) (j : JournalContainer) : Option JournalProcessThread :=
  match th.curProcState with
  | .newlyFetched => (journalProcessorWriteJournalToBuffer kh th.proc j).map
      (fun p => { th with proc := p,curProcState := .writtenInBuffer })
  | .writtenInBuffer => some th

def generateTxRecord (j : JournalContainer) : JournalProcessThread :=
  { th with txRecords := th.txRecords ++ [⟨j.txId,th.curJournalStartLpa,th.curJournalEndLpa⟩] }

def written (j : JournalContainer) (p : JournalProcessor) : JournalProcessThread :=
  { generateTxRecord { th with
      proc := p,curJournalStartLpa := th.proc.tailLpa,curJournalEndLpa := p.tailLpa } j with
    curJournal := none }

def writeOf (j : JournalContainer) : JournalWrite :=
  ⟨j,journalWriterRequests th.proc.journalWriter (1 + th.proc.journalWriter.bufferTailIdx) 0
    th.proc.tailLpa⟩

def processPendingJournal (kh : Khash) (d : CommDev) :
    Option (JournalProcessThread × CommDev × List JournalWrite) :=
  match th.popPending with
  | none => some (th,d,[])
  | some (j,th) =>
    (th.writeJournalToBuffer kh j).bind (fun th =>
      (writeJournalToSsd th.proc d).map (fun r =>
        if r.1 then (th.written j r.2.1,r.2.2,[th.writeOf j]) else (th,d,[])))

def processCpltJournal (d : CommDev) : JournalProcessThread × List Nat :=
  if th.proc.curAvailLpa = th.proc.totalAvailLpa then (th,[])
  else
    let p := journalProcessorSyncWithSsdJournalPos th.proc d
    if p.curAvailLpa = th.proc.curAvailLpa then ({ th with proc := p },[])
    else
      let r := journalProcessorProcessTxRecord p.headLpa p.tailLpa th.txRecords
      ({ th with proc := p,txRecords := r.2 },r.1)

end JournalProcessThread

inductive ThreadPc
  | fetch
  | pending
  | cplt
  | exited
  deriving DecidableEq

structure JournalRun where
  env : JournalProcessEnv
  thread : JournalProcessThread
  dev : CommDev
  pc : ThreadPc
  stopped : Bool
  committed : List JournalContainer
  writes : List JournalWrite
  completed : List Nat
  consumed : Nat

inductive JournalEvent
  | commit (j : JournalContainer)
  | stop
  | consume (n : Nat)
  | thread

def ringBlocks (startLpa endLpa head tail : Nat) : Nat :=
  if head ≤ tail then tail - head else tail + (endLpa - startLpa) - head

namespace JournalRun

def start (mem : Nat → Block) (d : CommDev) (journalStartLpa journalEndLpa journalFifoPos : Nat) :
    JournalRun where
  env := ⟨[],false⟩
  thread := JournalProcessThread.init mem journalStartLpa journalEndLpa journalFifoPos
  dev := d
  pc := .fetch
  stopped := false
  committed := []
  writes := []
  completed := []
  consumed := 0

variable (s : JournalRun)

def afterFetch : FetchResult → Option JournalRun
  | .fetched env th => some { s with env := env,thread := th,pc := .pending }
  | .wait => none
  | .interrupted env => some { s with env := env,pc := .exited }

def stepThread (kh : Khash) : Option JournalRun :=
  match s.pc with
  | .fetch => s.afterFetch (s.thread.fetchNewJournal s.env)
  | .pending => (s.thread.processPendingJournal kh s.dev).map (fun r =>
      { s with thread := r.1,dev := r.2.1,pc := .cplt,writes := s.writes ++ r.2.2 })
  | .cplt => some { s with
      thread := (s.thread.processCpltJournal s.dev).1
      pc := .fetch
      completed := s.completed ++ (s.thread.processCpltJournal s.dev).2 }
  | .exited => none

def consume (n : Nat) : Option JournalRun :=
  let d := s.dev
  let size := d.metaJournalEndLpa - d.metaJournalStartLpa
  if n ≤ ringBlocks d.metaJournalStartLpa d.metaJournalEndLpa d.metaJournalHeadLpa d.metaJournalTailLpa then
    some { s with
      dev := d.keepHead ((Ring.next d.metaJournalStartLpa size)^[n] d.metaJournalHeadLpa)
      consumed := s.consumed + n }
  else none

def step (kh : Khash) : JournalEvent → Option JournalRun
  | .commit j =>
    if s.stopped then none
    else some { s with env := s.env.commitJournal j,committed := s.committed ++ [j] }
  | .stop => some { s with env := s.env.stopProcessThread,stopped := true }
  | .consume n => s.consume n
  | .thread => s.stepThread kh

def run (kh : Khash) (es : List JournalEvent) : Option JournalRun := es.foldlM (fun s e => s.step kh e) s

end JournalRun

end Rtfs
