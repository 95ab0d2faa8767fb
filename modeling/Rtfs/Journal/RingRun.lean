import Rtfs.Journal.ProcessThread

namespace Rtfs

section Applied
variable {base size s h e t : Nat}

def ringRecord (base size id s e : Nat) : TransactionJournalRecord :=
  ⟨id,Ring.slot base size s,Ring.slot base size e⟩

theorem isApplied_iff (r : TransactionJournalRecord) : transactionJournalRecordIsApplied r h t = true ↔
    r.startLpa < r.endLpa ∧ (r.endLpa ≤ h ∨ h ≤ t ∧ t < r.startLpa) ∨
      r.endLpa ≤ r.startLpa ∧ h ≤ t ∧ r.endLpa ≤ h := by
  unfold transactionJournalRecordIsApplied
  split_ifs <;> simp <;> omega

theorem applied_sound (hs : 0 < size) {id : Nat} (hlen : e < s + size) (hsh : s ≤ h)
    (het : e ≤ t) (hht : t < h + size)
    (ha : transactionJournalRecordIsApplied (ringRecord base size id s e)
      (Ring.slot base size h) (Ring.slot base size t) = true) : e ≤ h := by
  by_contra hlt
  have bs := Ring.slot_bounds base hs s
  have be := Ring.slot_bounds base hs e
  have bh := Ring.slot_bounds base hs h
  have bt := Ring.slot_bounds base hs t
  rw [isApplied_iff] at ha
  simp only [ringRecord] at ha
  rcases Ring.slot_near base hs hsh (by omega) with ch | ch <;>
  rcases Ring.slot_near base hs (show h ≤ e by omega) (by omega) with ce | ce <;>
  rcases Ring.slot_near base hs (show h ≤ t by omega) hht with ct | ct <;> omega

end Applied

theorem ringBlocks_slot {base size h t : Nat} (hs : 0 < size) (hht : h ≤ t) (ht : t < h + size) :
    ringBlocks base (base + size) (Ring.slot base size h) (Ring.slot base size t) = t - h := by
  obtain ⟨n,rfl⟩ := Nat.exists_eq_add_of_le hht
  have hn := @newAvail_eq base size h hs n (by omega)
  rw [ringBlocks,Nat.add_sub_cancel_left,Nat.add_sub_cancel_left]
  split at hn
  · rw [if_pos ‹_›]
    exact hn
  · rw [if_neg ‹_›]
    omega

-- polled, consumed and written count blocks since the ring was laid out
structure RingState (base size polled consumed written : Nat) (p : JournalProcessor) (d : CommDev) :
    Prop where
  pos : 0 < size
  held : ∀ lpa, base ≤ lpa → lpa < base + size → d.Holds lpa
  start : p.startLpa = base
  fin : p.endLpa = base + size
  writerStart : p.journalWriter.startLpa = base
  writerEnd : p.journalWriter.endLpa = base + size
  total : p.totalAvailLpa = size - 1
  devStart : d.metaJournalStartLpa = base
  devEnd : d.metaJournalEndLpa = base + size
  polled_le : polled ≤ consumed
  consumed_le : consumed ≤ written
  room : written < polled + size
  head : p.headLpa = Ring.slot base size polled
  tail : p.tailLpa = Ring.slot base size written
  avail : p.curAvailLpa = size - 1 - (written - polled)
  devHead : d.metaJournalHeadLpa = Ring.slot base size consumed
  devTail : d.metaJournalTailLpa = Ring.slot base size written

namespace RingState
variable {base size a b c : Nat} {p : JournalProcessor} {d : CommDev}

theorem load (h : RingState base size a b c p d) {w : JournalWriter} (hw : w.startLpa = base)
    (hw' : w.endLpa = base + size) (n : Nat) : RingState base size a b c (p.load w n) d :=
  { h with writerStart := hw,writerEnd := hw' }

theorem sync (h : RingState base size a b c p d) :
    RingState base size b b c (journalProcessorSyncWithSsdJournalPos p d) d := by
  have hab := h.polled_le
  have hbc := h.consumed_le
  have hroom := h.room
  obtain ⟨n,rfl⟩ := Nat.exists_eq_add_of_le hab
  have hn := @newAvail_eq base size a h.pos n (by omega)
  refine { h with
    polled_le := le_rfl
    room := by omega
    head := h.devHead
    tail := h.tail
    avail := ?_ }
  simp only [journalProcessorSyncWithSsdJournalPos,JournalProcessor.sync]
  rw [h.head,h.devHead,h.start,h.fin,hn,h.avail]
  omega

theorem consume (h : RingState base size a b c p d) {n : Nat}
    (hn : n ≤ ringBlocks d.metaJournalStartLpa d.metaJournalEndLpa d.metaJournalHeadLpa
      d.metaJournalTailLpa) :
    RingState base size a (b + n) c p (d.keepHead ((Ring.next d.metaJournalStartLpa
      (d.metaJournalEndLpa - d.metaJournalStartLpa))^[n] d.metaJournalHeadLpa)) := by
  have hab := h.polled_le
  have hbc := h.consumed_le
  have hroom := h.room
  rw [h.devStart,h.devEnd,h.devHead,h.devTail,ringBlocks_slot h.pos hbc (by omega)] at hn
  rw [h.devStart,h.devEnd,h.devHead,Nat.add_sub_cancel_left,Ring.next_iterate h.pos]
  exact { h with
    polled_le := by omega
    consumed_le := by omega
    devHead := rfl }

theorem blocks_between (h : RingState base size a b c p d) :
    ringBlocks p.startLpa p.endLpa p.headLpa p.tailLpa = c - a := by
  have hab := h.polled_le
  have hbc := h.consumed_le
  rw [h.start,h.fin,h.head,h.tail]
  exact ringBlocks_slot h.pos (by omega) h.room

theorem write_full (h : p.curAvailLpa < p.curJournalBlockNum) : ∃ d', writeJournalToSsd p d = some (false,p,d') := by
  rw [writeJournalToSsd,journalProcessorWriteJournalToSsd,if_neg (by omega)]
  exact ⟨_,rfl⟩

theorem write_room (h : RingState base size a b c p d) (hbuf : p.curJournalBlockNum = 1 + p.journalWriter.bufferTailIdx)
    (hroom : p.curJournalBlockNum ≤ p.curAvailLpa) : ∃ p' d', writeJournalToSsd p d = some (true,p',d') ∧
      RingState base size a b (c + p.curJournalBlockNum) p' d' ∧
      d'.blocks = Updates.applyAll d.blocks
        (ringRequests base size c p.curJournalBlockNum p.journalWriter.journalBuffer) ∧
      journalWriterRequests p.journalWriter (1 + p.journalWriter.bufferTailIdx) 0 p.tailLpa =
        ringRequests base size c p.curJournalBlockNum p.journalWriter.journalBuffer := by
  have hav := h.avail
  have hr := h.room
  have hac := h.polled_le.trans h.consumed_le
  have hpos := h.pos
  have hn : p.curJournalBlockNum < size := by omega
  have hwrite := writeToSsd_spec (w := p.journalWriter) h.pos h.held h.writerStart h.writerEnd c
  have hlt : Ring.slot base size c < base + size := Ring.slot_lt h.pos c
  have hreq := requests_eq h.pos h.writerStart h.writerEnd c (1 + p.journalWriter.bufferTailIdx) 0
    (Ring.slot base size c) (by rw [h.writerEnd,if_neg (Nat.ne_of_lt hlt),Nat.add_zero])
  rw [← List.range_eq_range',← hbuf] at hreq
  rw [← hbuf] at hwrite
  have htail := updateTail_ok (d := d.withBlocks (Updates.applyAll d.blocks (ringRequests base size c
    p.curJournalBlockNum p.journalWriter.journalBuffer))) h.pos h.devStart h.devEnd h.devTail hn (by omega)
  have hnext := @ring_advance base size c h.pos p.curJournalBlockNum hn
  let d' := ((d.withBlocks (Updates.applyAll d.blocks (ringRequests base size c p.curJournalBlockNum
    p.journalWriter.journalBuffer))).moveTail (Ring.slot base size (c + p.curJournalBlockNum))).keepHead
      d.metaJournalHeadLpa
  refine ⟨p.advance (Ring.slot base size (c + p.curJournalBlockNum))
    (p.curAvailLpa - p.curJournalBlockNum),d',?_,?_,rfl,?_⟩
  · rw [writeJournalToSsd,journalProcessorWriteJournalToSsd,if_pos hroom,h.tail,hwrite,hnext]
    simp only [Except.toOption,Option.bind_eq_bind,Option.bind_some,htail,h.fin,h.start]
    rfl
  · refine { h with
      polled_le := h.polled_le
      consumed_le := by have := h.consumed_le; omega
      room := by omega
      head := h.head
      tail := rfl
      avail := ?_
      devHead := h.devHead
      devTail := rfl }
    simp only [JournalProcessor.advance]
    omega
  · rw [h.tail,← hbuf]
    exact hreq

end RingState

def writesBlockNum (ws : List JournalWrite) : Nat := (ws.map JournalWrite.blockNum).sum

@[simp] theorem writesBlockNum_nil : writesBlockNum [] = 0 := rfl

@[simp] theorem writesBlockNum_cons (w : JournalWrite) (ws : List JournalWrite) :
    writesBlockNum (w :: ws) = w.blockNum + writesBlockNum ws := List.sum_cons

@[simp] theorem writesBlockNum_append (ws vs : List JournalWrite) :
    writesBlockNum (ws ++ vs) = writesBlockNum ws + writesBlockNum vs := by
  rw [writesBlockNum,List.map_append,List.sum_append]
  rfl

def JournalWrite.Image (kh : Khash) (base size c : Nat) (w : JournalWrite) : Prop :=
  ∃ tx buf, Encodes kh w.journal tx ∧ TxImage buf tx ∧ tx.blockNum < size ∧
    w.requests = ringRequests base size c tx.blockNum buf

def Placed (kh : Khash) (base size : Nat) : Nat → List JournalWrite → Prop
  | _, [] => True
  | c, w :: ws => w.Image kh base size c ∧ Placed kh base size (c + w.blockNum) ws

def recordsFrom (base size : Nat) : Nat → List JournalWrite → List TransactionJournalRecord
  | _, [] => []
  | c, w :: ws =>
    ringRecord base size w.journal.txId c (c + w.blockNum) :: recordsFrom base size (c + w.blockNum) ws

section Placed
variable {kh : Khash} {base size : Nat}

theorem ringRequests_length (c n : Nat) (buf : Nat → Block) :
    (ringRequests base size c n buf).length = n := by
  rw [ringRequests,List.length_map,List.length_range]

theorem JournalWrite.Image.blockNum {c : Nat} {w : JournalWrite} (h : w.Image kh base size c) :
    0 < w.blockNum ∧ w.blockNum < size ∧ w.blockNum = journalBlockNum kh w.journal := by
  obtain ⟨tx,buf,⟨_,v,v',hcol⟩,_,hlt,hreq⟩ := h
  have hn : w.blockNum = tx.blockNum := by rw [JournalWrite.blockNum,hreq,ringRequests_length]
  rw [hn,journalBlockNum_eq hcol]
  exact ⟨tx.blockNum_pos,hlt,rfl⟩

theorem placed_append {c : Nat} {ws : List JournalWrite} {w : JournalWrite} :
    Placed kh base size c (ws ++ [w]) ↔
      Placed kh base size c ws ∧ w.Image kh base size (c + writesBlockNum ws) := by
  induction ws generalizing c with
  | nil => simp [Placed]
  | cons v ws ih => rw [List.cons_append,Placed,Placed,ih,writesBlockNum_cons,Nat.add_assoc,and_assoc]

theorem placed_drop {c : Nat} {ws vs : List JournalWrite} (h : Placed kh base size c (ws ++ vs)) :
    Placed kh base size (c + writesBlockNum ws) vs := by
  induction ws generalizing c with
  | nil => exact h
  | cons w ws ih =>
    rw [writesBlockNum_cons,← Nat.add_assoc]
    exact ih h.2

theorem recordsFrom_append (c : Nat) (ws : List JournalWrite) (w : JournalWrite) :
    recordsFrom base size c (ws ++ [w]) = recordsFrom base size c ws ++
      [ringRecord base size w.journal.txId (c + writesBlockNum ws) (c + writesBlockNum ws + w.blockNum)] := by
  induction ws generalizing c with
  | nil => rfl
  | cons v ws ih => rw [List.cons_append,recordsFrom,ih,recordsFrom,writesBlockNum_cons,
      List.cons_append,Nat.add_assoc c]

theorem processTxRecord_sound (hs : 0 < size) {h t c : Nat} {ws : List JournalWrite}
    (hp : Placed kh base size c ws) (hc : c ≤ h) (ht : t = c + writesBlockNum ws) (hht : t < h + size) :
    ∃ done rest, ws = done ++ rest ∧
      journalProcessorProcessTxRecord (Ring.slot base size h) (Ring.slot base size t)
        (recordsFrom base size c ws) =
        (done.map (·.journal.txId),recordsFrom base size (c + writesBlockNum done) rest) ∧
      c + writesBlockNum done ≤ h := by
  induction ws generalizing c with
  | nil => exact ⟨[],[],rfl,rfl,hc⟩
  | cons w ws ih =>
    obtain ⟨hpos,hlt,_⟩ := hp.1.blockNum
    rw [writesBlockNum_cons] at ht
    rw [recordsFrom,journalProcessorProcessTxRecord]
    by_cases ha : transactionJournalRecordIsApplied
        (ringRecord base size w.journal.txId c (c + w.blockNum)) (Ring.slot base size h)
        (Ring.slot base size t) = true
    · have hle := applied_sound hs (by omega) hc (by omega) hht ha
      obtain ⟨done,rest,rfl,he,hdone⟩ := ih hp.2 hle (by omega)
      refine ⟨w :: done,rest,rfl,?_,?_⟩
      · rw [if_pos ha,he,writesBlockNum_cons,Nat.add_assoc]
        rfl
      · rw [writesBlockNum_cons]
        omega
    · exact ⟨[],w :: ws,rfl,by rw [if_neg ha]; rfl,hc⟩

end Placed

structure Buffered (kh : Khash) (p : JournalProcessor) (j : JournalContainer) (tx : Tx) : Prop where
  encodes : Encodes kh j tx
  image : TxImage p.journalWriter.journalBuffer tx
  blockNum : p.curJournalBlockNum = tx.blockNum
  tailIdx : 1 + p.journalWriter.bufferTailIdx = tx.blockNum

namespace JournalProcessThread

def todo (th : JournalProcessThread) : List JournalContainer :=
  th.curJournal.toList ++ th.pendingJournalList

structure Ok (kh : Khash) (base size polled consumed written : Nat) (th : JournalProcessThread)
    (d : CommDev) : Prop where
  ring : RingState base size polled consumed written th.proc d
  buffered : ∀ j, th.curJournal = some j → th.curProcState = .writtenInBuffer →
    ∃ tx, Buffered kh th.proc j tx

section Pending
variable {kh : Khash} {base size a b c : Nat} {th : JournalProcessThread} {d : CommDev}

theorem popPending_ok (h : th.Ok kh base size a b c d) {j : JournalContainer}
    {th₁ : JournalProcessThread} (hp : th.popPending = some (j,th₁)) :
    th₁.Ok kh base size a b c d ∧ th₁.curJournal = some j ∧ th₁.todo = th.todo ∧
      th₁.txRecords = th.txRecords := by
  unfold popPending at hp
  split at hp
  · rename_i hcur
    cases hp
    exact ⟨h,hcur,rfl,rfl⟩
  · rename_i hcur hpend
    cases hp
    refine ⟨⟨h.ring,fun j _ hs => by cases hs⟩,rfl,?_,rfl⟩
    rw [todo,todo,hcur,hpend]
    rfl
  · cases hp

theorem popPending_none (hp : th.popPending = none) : th.todo = [] := by
  unfold popPending at hp
  split at hp
  · cases hp
  · cases hp
  · rename_i hcur hpend
    rw [todo,hcur,hpend]
    rfl

theorem writeJournalToBuffer_ok (h : th.Ok kh base size a b c d) {j : JournalContainer}
    (hcur : th.curJournal = some j) : ∃ th₁ tx, th.writeJournalToBuffer kh j = some th₁ ∧
      th₁.Ok kh base size a b c d ∧ Buffered kh th₁.proc j tx ∧ th₁.curJournal = some j ∧
      th₁.todo = th.todo ∧ th₁.txRecords = th.txRecords := by
  unfold writeJournalToBuffer
  cases hst : th.curProcState with
  | newlyFetched =>
    obtain ⟨w',tx,hcol,hidx,harea,him,hcar⟩ := collect_spec kh th.proc.journalWriter j
    have hbuf : Buffered kh (th.proc.load w' tx.blockNum) j tx := ⟨⟨hcar,_,_,hcol⟩,him,rfl,hidx⟩
    refine ⟨{ th with proc := th.proc.load w' tx.blockNum,curProcState := .writtenInBuffer },tx,?_,⟨?_,?_⟩,
      hbuf,hcur,rfl,rfl⟩
    · rw [journalProcessorWriteJournalToBuffer,hcol]
      rfl
    · exact h.ring.load (harea.1.trans h.ring.writerStart) (harea.2.trans h.ring.writerEnd) _
    · intro j' hj' _
      cases hcur.symm.trans hj'
      exact ⟨tx,hbuf⟩
  | writtenInBuffer =>
    obtain ⟨tx,hbuf⟩ := h.buffered j hcur hst
    exact ⟨th,tx,rfl,h,hbuf,hcur,rfl,rfl⟩

inductive PendingOutcome (kh : Khash) (base size a b c : Nat) (th : JournalProcessThread) (d : CommDev) :
    JournalProcessThread × CommDev × List JournalWrite → Prop
  | idle (hnone : th.todo = []) : PendingOutcome kh base size a b c th d (th,d,[])
  | full {th₁ : JournalProcessThread} {j : JournalContainer} (hok : th₁.Ok kh base size a b c d)
      (htodo : th₁.todo = th.todo) (hrec : th₁.txRecords = th.txRecords) (hcur : th.todo.head? = some j)
      (hfull : th.proc.curAvailLpa < journalBlockNum kh j) : PendingOutcome kh base size a b c th d (th₁,d,[])
  | wrote {th₁ : JournalProcessThread} {d₁ : CommDev} {w : JournalWrite}
      (hok : th₁.Ok kh base size a b (c + w.blockNum) d₁)
      (himage : w.Image kh base size c) (htodo : th.todo = w.journal :: th₁.todo)
      (hrec : th₁.txRecords = th.txRecords ++ [ringRecord base size w.journal.txId c (c + w.blockNum)])
      (hblocks : d₁.blocks = Updates.applyAll d.blocks w.requests)
      (hroom : w.blockNum ≤ th.proc.curAvailLpa) :
      PendingOutcome kh base size a b c th d (th₁,d₁,[w])

theorem processPendingJournal_spec (h : th.Ok kh base size a b c d) :
    ∃ r, th.processPendingJournal kh d = some r ∧ PendingOutcome kh base size a b c th d r := by
  unfold processPendingJournal
  cases hp : th.popPending with
  | none => exact ⟨_,rfl,.idle (popPending_none hp)⟩
  | some jt =>
    obtain ⟨j,th₁⟩ := jt
    obtain ⟨h₁,hcur₁,htodo₁,hrec₁⟩ := popPending_ok h hp
    obtain ⟨th₂,tx,hw,h₂,hbuf,hcur₂,htodo₂,hrec₂⟩ := writeJournalToBuffer_ok h₁ hcur₁
    have havail : th₂.proc.curAvailLpa = th.proc.curAvailLpa := by rw [h₂.ring.avail,h.ring.avail]
    simp only [hw,Option.bind_some]
    by_cases hroom : th₂.proc.curJournalBlockNum ≤ th₂.proc.curAvailLpa
    · obtain ⟨p',d',he,hring,hblocks,hreq⟩ :=
        h₂.ring.write_room (hbuf.blockNum.trans hbuf.tailIdx.symm) hroom
      have hreqs : (th₂.writeOf j).requests =
          ringRequests base size c tx.blockNum th₂.proc.journalWriter.journalBuffer := by
        rw [writeOf,hreq,hbuf.blockNum]
      have hlen : (th₂.writeOf j).blockNum = th₂.proc.curJournalBlockNum := by
        rw [JournalWrite.blockNum,hreqs,ringRequests_length,hbuf.blockNum]
      have hpos := h₂.ring.pos
      have hav : th₂.proc.curAvailLpa < size := by
        rw [h₂.ring.avail]
        omega
      rw [he]
      refine ⟨_,rfl,.wrote (w := th₂.writeOf j) ⟨?_,?_⟩ ?_ ?_ ?_ ?_ ?_⟩
      · rw [hlen]
        exact hring
      · intro j' hj'
        cases hj'
      · refine ⟨tx,_,hbuf.encodes,hbuf.image,?_,hreqs⟩
        rw [← hbuf.blockNum]
        omega
      · rw [← htodo₁,← htodo₂,todo,hcur₂]
        rfl
      · simp only [written,generateTxRecord,hrec₂,hrec₁,hlen]
        rw [h₂.ring.tail,hring.tail]
        rfl
      · rw [hblocks,hreqs,hbuf.blockNum]
      · rw [hlen,← havail]
        exact hroom
    · obtain ⟨d',he⟩ := RingState.write_full (d := d) (Nat.not_le.mp hroom)
      rw [he]
      refine ⟨_,rfl,.full h₂ (htodo₂.trans htodo₁) (hrec₂.trans hrec₁) (j := j) ?_ ?_⟩
      · rw [← htodo₁,← htodo₂,todo,hcur₂]
        rfl
      · obtain ⟨_,_,_,hcol⟩ := hbuf.encodes
        rw [journalBlockNum_eq hcol,← hbuf.blockNum,← havail]
        exact Nat.not_le.mp hroom

end Pending

end JournalProcessThread

end Rtfs
