import Rtfs.Comm.Replay
import Rtfs.Journal.Processor

namespace Rtfs

structure Sys where
  proc : JournalProcessor
  dev : CommDev

def syncDevJournalPosFromSuper (d : CommDev) (superBlock : Block) : CommDev :=
  let journalSize := journalSizeOf superBlock
  if journalSize = 0 then d
  else { d with
    metaJournalStartLpa := journalStartLpaOf superBlock
    metaJournalEndLpa := journalStartLpaOf superBlock + journalSize
    metaJournalHeadLpa := journalStartLpaOf superBlock +
      (RtfsSuperBlock.metaJournalStartBlkoff superBlock).toNat % journalSize
    metaJournalTailLpa := journalStartLpaOf superBlock +
      (RtfsSuperBlock.metaJournalEndBlkoff superBlock).toNat % journalSize }

def fileSystemManagerSetup (mem : Nat → Block) (d : CommDev) : Sys :=
  let superBlock := d.blocks 0
  let start := journalStartLpaOf superBlock
  let fin := start + journalSizeOf superBlock
  let dev := syncDevJournalPosFromSuper d superBlock
  let fifo := if fin ≤ dev.metaJournalTailLpa then start else dev.metaJournalTailLpa
  ⟨journalProcessorInit mem start fin fifo,dev⟩

def commitJournal (kh : Khash) (s : Sys) (j : JournalContainer) : Option Sys :=
  match journalProcessorProcessPendingJournal kh s.proc s.dev j with
  | some (true,p,d) => some ⟨p,d⟩
  | _ => none

def commitAll (kh : Khash) (s : Sys) (js : List JournalContainer) : Option Sys :=
  js.foldlM (commitJournal kh) s

structure Sys.At (s : Sys) (base size t : Nat) : Prop where
  pos : 0 < size
  held : ∀ lpa, base ≤ lpa → lpa < base + size → s.dev.Holds lpa
  start : s.proc.startLpa = base
  fin : s.proc.endLpa = base + size
  writerStart : s.proc.journalWriter.startLpa = base
  writerEnd : s.proc.journalWriter.endLpa = base + size
  head : s.proc.headLpa = Ring.slot base size t
  tail : s.proc.tailLpa = Ring.slot base size t
  avail : s.proc.curAvailLpa = size - 1
  total : s.proc.totalAvailLpa = size - 1
  devStart : s.dev.metaJournalStartLpa = base
  devEnd : s.dev.metaJournalEndLpa = base + size
  devTail : s.dev.metaJournalTailLpa = Ring.slot base size t

structure CommDev.Wrote (d d' : CommDev) (base size t : Nat) (tx : Tx) : Prop where
  image : TxImage (fun i => ringBlock d' base size (t + i)) tx
  outside : ∀ lpa, (∀ i < tx.blockNum, lpa ≠ Ring.slot base size (t + i)) →
    d'.blocks lpa = d.blocks lpa
  blockCount : d'.blockCount = d.blockCount

section Step
variable {base size t : Nat}

theorem ring_advance (hs : 0 < size) {n : Nat} (hn : n < size) :
    Ring.slot base size (t + n) =
      if base + size ≤ Ring.slot base size t + n then Ring.slot base size t + n - (base + size) + base
      else Ring.slot base size t + n := by
  have hlt := Nat.mod_lt t hs
  unfold Ring.slot
  rw [← Nat.mod_add_mod]
  by_cases h : size ≤ t % size + n
  · rw [if_pos (by omega),Nat.mod_eq_sub_mod h,Nat.mod_eq_of_lt (by omega)]
    omega
  · rw [if_neg (by omega),Nat.mod_eq_of_lt (by omega)]
    omega

theorem updateTail_ok {d : CommDev} (hs : 0 < size) (h1 : d.metaJournalStartLpa = base)
    (h2 : d.metaJournalEndLpa = base + size) (h3 : d.metaJournalTailLpa = Ring.slot base size t)
    {n : Nat} (hn : n < size) (hpos : 0 < n) :
    commSubmitSyncUpdateMetajournalTailRequest d (Ring.slot base size t) n =
      .ok (d.moveTail (Ring.slot base size (t + n))) := by
  have hlt := Nat.mod_lt t hs
  have hge : base ≤ Ring.slot base size t := Ring.base_le_slot t
  have hlt' : Ring.slot base size t < base + size := Ring.slot_lt hs t
  have hnew : base + (if size ≤ t % size + n then t % size + n - size else t % size + n) =
      Ring.slot base size (t + n) := by
    rw [ring_advance hs hn]
    unfold Ring.slot
    split <;> split <;> omega
  unfold commSubmitSyncUpdateMetajournalTailRequest
  rw [if_neg (by omega),h1,h2,h3,if_neg (by omega),if_neg (by omega),if_neg (by omega)]
  simp only [Nat.add_sub_cancel_left,Ring.slot_sub,Nat.mod_eq_of_lt hn,hnew]

theorem newAvail_eq (hs : 0 < size) {n : Nat} (hn : n < size) :
    (if Ring.slot base size t ≤ Ring.slot base size (t + n) then
      Ring.slot base size (t + n) - Ring.slot base size t
    else Ring.slot base size (t + n) + (base + size) - base - Ring.slot base size t) = n := by
  have hge : base ≤ Ring.slot base size t := Ring.base_le_slot t
  have hlt : Ring.slot base size t < base + size := Ring.slot_lt hs t
  rw [ring_advance hs hn]
  split <;> split <;> omega

theorem toSsd_written {p : JournalProcessor} {d d₁ : CommDev} (hs : 0 < size)
    (hstart : p.startLpa = base) (hfin : p.endLpa = base + size)
    (htail : p.tailLpa = Ring.slot base size t) (havail : p.curAvailLpa = size - 1)
    (hn : p.curJournalBlockNum < size) (hpos : 0 < p.curJournalBlockNum)
    (hwrite : journalWriterWriteToSsd p.journalWriter d (Ring.slot base size t) = .ok d₁)
    (h1 : d₁.metaJournalStartLpa = base) (h2 : d₁.metaJournalEndLpa = base + size)
    (h3 : d₁.metaJournalTailLpa = Ring.slot base size t) :
    journalProcessorWriteJournalToSsd p d = some (true,
      p.advance (Ring.slot base size (t + p.curJournalBlockNum)) (size - 1 - p.curJournalBlockNum),
      d₁.moveTail (Ring.slot base size (t + p.curJournalBlockNum))) := by
  unfold journalProcessorWriteJournalToSsd
  rw [if_pos (by omega),htail,hwrite,hfin,hstart,havail]
  simp only [Except.toOption,Option.bind_eq_bind,Option.bind_some,updateTail_ok hs h1 h2 h3 hn hpos,
    ring_advance hs hn]
  rfl

theorem cplt_synced {p : JournalProcessor} {d : CommDev} (hs : 0 < size)
    (hstart : p.startLpa = base) (hfin : p.endLpa = base + size)
    (hhead : p.headLpa = Ring.slot base size t) {n : Nat} (hn : n < size) (hpos : 0 < n)
    (havail : p.curAvailLpa = size - 1 - n) (htotal : p.totalAvailLpa = size - 1)
    (hd : d.metaJournalHeadLpa = Ring.slot base size (t + n)) :
    journalProcessorProcessCpltJournal p d = p.sync (Ring.slot base size (t + n)) (size - 1) := by
  rw [journalProcessorProcessCpltJournal,if_neg (by omega)]
  simp only [journalProcessorSyncWithSsdJournalPos]
  rw [hd,hhead,hfin,hstart,newAvail_eq hs hn,havail,Nat.sub_add_cancel (by omega)]

theorem commitJournal_spec {s : Sys} (hs : s.At base size t) (kh : Khash) (j : JournalContainer) :
    ∃ tx : Tx, tx.Carries (superJournalOutputVector kh j.superBlockJournal)
        (natJournalOutputVector j.natJournal) (sitJournalOutputVector j.sitJournal) ∧
      (∃ w', journalWriterCollectPendingJournalToWriteBuffer kh s.proc.journalWriter j =
        some (w',tx.blockNum)) ∧
      (tx.blockNum < size → ∃ s', commitJournal kh s j = some s' ∧
        s'.At base size (t + tx.blockNum) ∧ s.dev.Wrote s'.dev base size t tx) ∧
      (size ≤ tx.blockNum → commitJournal kh s j = none) := by
  obtain ⟨w',tx,hcol,htail,harea,him,hcar⟩ := collect_spec kh s.proc.journalWriter j
  have hpos : 0 < tx.blockNum := by
    unfold Tx.blockNum
    omega
  refine ⟨tx,hcar,⟨w',hcol⟩,fun hn => ?_,fun hn => ?_⟩
  · have hwrite := writeToSsd_spec hs.pos hs.held (harea.1.trans hs.writerStart)
      (harea.2.trans hs.writerEnd) t
    rw [htail] at hwrite
    have hssd := toSsd_written (p := s.proc.load w' tx.blockNum) hs.pos hs.start hs.fin hs.tail
      hs.avail hn hpos hwrite hs.devStart hs.devEnd hs.devTail
    have hcplt := cplt_synced (p := (s.proc.load w' tx.blockNum).advance
        (Ring.slot base size (t + tx.blockNum)) (size - 1 - tx.blockNum))
      (d := (s.dev.withBlocks (Updates.applyAll s.dev.blocks
        (ringRequests base size t tx.blockNum w'.journalBuffer))).moveTail
        (Ring.slot base size (t + tx.blockNum)))
      hs.pos hs.start hs.fin hs.head hn hpos rfl hs.total rfl
    have hcommit : commitJournal kh s j = some ⟨((s.proc.load w' tx.blockNum).advance
          (Ring.slot base size (t + tx.blockNum)) (size - 1 - tx.blockNum)).sync
          (Ring.slot base size (t + tx.blockNum)) (size - 1),
        (s.dev.withBlocks (Updates.applyAll s.dev.blocks
          (ringRequests base size t tx.blockNum w'.journalBuffer))).moveTail
          (Ring.slot base size (t + tx.blockNum))⟩ := by
      rw [commitJournal,journalProcessorProcessPendingJournal,journalProcessorWriteJournalToBuffer,hcol]
      simp only [Option.map_some,Option.bind_eq_bind,Option.bind_some]
      rw [hssd]
      simp only [Option.bind_some]
      change some (Sys.mk (journalProcessorProcessCpltJournal _ _) _) = _
      rw [← hcplt]
      rfl
    refine ⟨_,hcommit,?_,?_⟩
    · exact ⟨hs.pos,hs.held,hs.start,hs.fin,harea.1.trans hs.writerStart,
        harea.2.trans hs.writerEnd,rfl,rfl,rfl,hs.total,hs.devStart,hs.devEnd,rfl⟩
    · exact ⟨written_image s.dev.blocks t (le_of_lt hn) him,
        fun lpa hl => ringRequests_outside s.dev.blocks t tx.blockNum w'.journalBuffer hl,rfl⟩
  · have hssd : journalProcessorWriteJournalToSsd (s.proc.load w' tx.blockNum) s.dev =
        some (false,s.proc.load w' tx.blockNum,s.dev) := by
      apply if_neg
      change ¬ tx.blockNum ≤ s.proc.curAvailLpa
      have h1 := hs.avail
      have h2 := hs.pos
      omega
    rw [commitJournal,journalProcessorProcessPendingJournal,journalProcessorWriteJournalToBuffer,hcol]
    simp only [Option.map_some,Option.bind_eq_bind,Option.bind_some]
    rw [hssd]
    rfl

end Step

def Encodes (kh : Khash) (j : JournalContainer) (tx : Tx) : Prop :=
  tx.Carries (superJournalOutputVector kh j.superBlockJournal)
    (natJournalOutputVector j.natJournal) (sitJournalOutputVector j.sitJournal) ∧
  ∃ w w', journalWriterCollectPendingJournalToWriteBuffer kh w j = some (w',tx.blockNum)

section Run
variable {base size : Nat}

structure RanTo (kh : Khash) (s s' : Sys) (base size t : Nat) (js : List JournalContainer)
    (txs : List Tx) : Prop where
  encodes : List.Forall₂ (Encodes kh) js txs
  short : ∀ tx ∈ txs, tx.blockNum < size
  at' : s'.At base size (t + txBlocks txs)
  tiled : txBlocks txs ≤ size → Tiled (ringBlock s'.dev base size) t txs
  kept : ∀ i, txBlocks txs ≤ i → i < size →
    ringBlock s'.dev base size (t + i) = ringBlock s.dev base size (t + i)
  outside : ∀ lpa, lpa < base ∨ base + size ≤ lpa → s'.dev.blocks lpa = s.dev.blocks lpa
  blockCount : s'.dev.blockCount = s.dev.blockCount

theorem Wrote.kept {d d' : CommDev} {t : Nat} {tx : Tx} (h : d.Wrote d' base size t tx) {i : Nat}
    (hk : tx.blockNum ≤ i) (hi : i < size) :
    ringBlock d' base size (t + i) = ringBlock d base size (t + i) := by
  apply h.outside
  intro k hkn he
  exact Ring.slot_inj (show t + k < t + i by omega) (by omega) he.symm

theorem Wrote.outside_ring {d d' : CommDev} {t : Nat} {tx : Tx} (hs : 0 < size)
    (h : d.Wrote d' base size t tx) {lpa : Nat} (hl : lpa < base ∨ base + size ≤ lpa) :
    d'.blocks lpa = d.blocks lpa := by
  apply h.outside
  intro k _ he
  have h1 : base ≤ Ring.slot base size (t + k) := Ring.base_le_slot _
  have h2 : Ring.slot base size (t + k) < base + size := Ring.slot_lt hs _
  omega

theorem commitAll_ran {kh : Khash} {s s' : Sys} {js : List JournalContainer} {t : Nat}
    (hs : s.At base size t) (h : commitAll kh s js = some s') :
    ∃ txs, RanTo kh s s' base size t js txs := by
  induction js generalizing s t with
  | nil =>
    cases h
    exact ⟨[],.nil,by simp,hs,fun _ => trivial,fun _ _ _ => rfl,fun _ _ => rfl,rfl⟩
  | cons j js ih =>
    rw [commitAll,List.foldlM_cons] at h
    obtain ⟨s₁,h₁,h₂⟩ := Option.bind_eq_some_iff.mp h
    obtain ⟨tx,hcar,⟨w',hcol⟩,hok,hno⟩ := commitJournal_spec hs kh j
    have hn : tx.blockNum < size := by
      by_contra hge
      rw [hno (Nat.not_lt.mp hge)] at h₁
      cases h₁
    obtain ⟨s₁',he,hs₁,hw⟩ := hok hn
    rw [h₁] at he
    cases he
    obtain ⟨txs,hr⟩ := ih hs₁ h₂
    refine ⟨tx :: txs,.cons ⟨hcar,_,w',hcol⟩ hr.encodes,?_,?_,?_,?_,?_,?_⟩
    · intro q hq
      rcases List.mem_cons.mp hq with rfl | hq
      · exact hn
      · exact hr.short q hq
    · rw [txBlocks_cons,← Nat.add_assoc]
      exact hr.at'
    · intro hle
      rw [txBlocks_cons] at hle
      refine ⟨hw.image.congr (fun i hi => ?_),hr.tiled (by omega)⟩
      have hk := hr.kept (size - tx.blockNum + i) (by omega) (by omega)
      have hpos : t + tx.blockNum + (size - tx.blockNum + i) = t + i + size := by omega
      rw [hpos] at hk
      unfold ringBlock at hk ⊢
      rw [Ring.slot_add_size] at hk
      exact hk
    · intro i hi hlt
      rw [txBlocks_cons] at hi
      have hk := hr.kept (i - tx.blockNum) (by omega) (by omega)
      rw [show t + tx.blockNum + (i - tx.blockNum) = t + i by omega] at hk
      rw [hk,Wrote.kept hw (by omega) hlt]
    · intro lpa hl
      rw [hr.outside lpa hl,Wrote.outside_ring hs.pos hw hl]
    · rw [hr.blockCount,hw.blockCount]

end Run

end Rtfs
