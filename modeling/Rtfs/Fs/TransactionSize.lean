import Rtfs.Fs.Lifecycle
import Rtfs.Fs.SegmentFill
import Rtfs.Fs.TransactionRun

namespace Rtfs

open RtfsSuperBlock

section Fit
variable {kh : Khash} {mem : Nat → Block} {d : CommDev} {startLpa endLpa pos : Nat} {m : FsMeta}

theorem transactions_fit_iff (hd : d.EmptyRing startLpa endLpa pos) {es : List TransactionEvent}
    {s : TransactionRun}
    (hs : (TransactionRun.start m (JournalRun.start mem d startLpa endLpa pos)).run kh es = some s) :
    let fit := (TransactionRun.start m (JournalRun.start mem d startLpa endLpa pos)).SubmitsFit kh
      (endLpa - startLpa - 1) es
    (fit ↔ ∀ j ∈ s.log.journal.committed, journalBlockNum kh j ≤ s.log.journal.thread.proc.totalAvailLpa) ∧
    (fit ↔ ∀ j ∈ s.log.journal.committed, s.log.journal.CanWrite kh j) ∧
    (fit ↔ s.log.journal.CanExit kh) := by
  intro fit
  obtain ⟨a,hok⟩ := transaction_run_ok (start_ok hd) hs
  have hlt := hd.pos_lt
  have hle := hd.start_le
  have hlen (j : JournalContainer) :
      journalBlockNum kh j ≤ endLpa - startLpa - 1 ↔ journalBlockNum kh j < endLpa - startLpa := by omega
  have hfit : fit ↔ ∀ j ∈ s.log.journal.committed, journalBlockNum kh j ≤ endLpa - startLpa - 1 := by
    simp only [blockNum_fits]
    rw [submitsFit_iff hs]
    exact (and_iff_right (fun j hj => absurd hj List.not_mem_nil)).symm
  have hshort := hfit
  simp only [hlen] at hshort
  rw [hok.thread.ring.total]
  exact ⟨hfit,hshort.trans (fit_iff_writes hok),hshort.trans (fit_iff_exits hok)⟩

end Fit

section Cycle
variable {kh : Khash} {base size t : Nat} {s : TransactionRun}

variable {m : FsMeta} {l : RegistryRun} {q q' : JournalRun}

theorem thread_lift (hsig : l.signalled.length = q.completed.length) (hs : q.step kh .thread = some q') :
    TransactionRun.step kh ⟨m,{ l with journal := q }⟩ (.journal .thread) =
      some ⟨m,{ l with journal := q' }⟩ := by
  rw [TransactionRun.step,RegistryRun.stepJournal,if_pos hsig,hs]
  rfl

theorem consume_lift {n : Nat} (hs : q.step kh (.consume n) = some q') :
    TransactionRun.step kh ⟨m,{ l with journal := q }⟩ (.journal (.consume n)) =
      some ⟨m,{ l with journal := q' }⟩ := by
  rw [TransactionRun.step]
  simp only [RegistryRun.stepJournal,hs]
  rfl

structure Calm (kh : Khash) (base size t : Nat) (s : TransactionRun) : Prop where
  settled : s.log.journal.Settled kh base size t
  rest : s.log.journal.rest = []
  records : s.log.journal.thread.txRecords = []
  signalled : s.log.signalled.length = s.log.journal.completed.length
  running : s.log.journal.stopped = false

def commitEvents (n : Nat) : List TransactionEvent :=
  [.submit,.journal .thread,.journal .thread,.journal (.consume n),.journal .thread]

def TransactionRun.nextContainer (s : TransactionRun) : JournalContainer :=
  { s.fs.curJournal with txId := s.log.txIdToAlloc }

theorem calm_submit (h : Calm kh base size t s) (hne : s.fs.curJournal.isEmpty = false) :
    ∃ q, s.step kh .submit = some ⟨{ s.fs with curJournal := JournalContainer.init },
        { s.log with journal := q,txIdToAlloc := s.log.txIdToAlloc + 1 }⟩ ∧
      q.Settled kh base size t ∧ q.rest = [s.nextContainer] ∧ q.thread.txRecords = [] ∧
      q.completed = s.log.journal.completed ∧
      q.committed = s.log.journal.committed ++ [s.nextContainer] ∧ q.stopped = s.log.journal.stopped := by
  have hq : s.log.journal.step kh (.commit s.nextContainer) = some { s.log.journal with
      env := s.log.journal.env.commitJournal s.nextContainer
      committed := s.log.journal.committed ++ [s.nextContainer] } := by
    exact if_neg (by rw [h.running]; exact Bool.false_ne_true)
  have hok := (step_keeps (e := .commit s.nextContainer) h.settled.ok (fun he => nomatch he) hq).1
  refine ⟨{ s.log.journal with
    env := s.log.journal.env.commitJournal s.nextContainer
    committed := s.log.journal.committed ++ [s.nextContainer] },?_,⟨hok,h.settled.caught,h.settled.pc⟩,?_,
    h.records,rfl,rfl,rfl⟩
  · rw [TransactionRun.step,TransactionRun.submit,if_neg (by rw [hne]; exact Bool.false_ne_true),
      RegistryRun.submit]
    change ((s.log.journal.step kh (.commit s.nextContainer)).map _).map _ = _
    rw [hq]
    rfl
  · obtain ⟨htodo,hqueue⟩ := List.append_eq_nil_iff.mp h.rest
    rw [JournalRun.rest,htodo,JournalProcessEnv.commitJournal,hqueue]
    rfl

theorem calm_commit (h : Calm kh base size t s) (hne : s.fs.curJournal.isEmpty = false)
    (hsize : 0 < size) (hfit : s.fs.curJournal.Fits (size - 1)) : ∃ n q,
      s.run kh (commitEvents n) = some ⟨{ s.fs with curJournal := JournalContainer.init },
        { s.log with journal := q,txIdToAlloc := s.log.txIdToAlloc + 1 }⟩ ∧
      q.Settled kh base size t ∧ q.completed = s.log.journal.completed ++ [s.log.txIdToAlloc] ∧
      q.committed = s.log.journal.committed ++ [s.nextContainer] ∧ q.stopped = false := by
  obtain ⟨q,hsub,hset,hrest,hrec,hcmp,hcom,hstop⟩ := calm_submit h hne
  have hshort : ∀ j ∈ q.rest, journalBlockNum kh j < size := by
    intro j hj
    rw [hrest] at hj
    have hle := (blockNum_fits kh j (size - 1)).mpr (List.mem_singleton.mp hj ▸ hfit)
    omega
  obtain ⟨q₁,q₂,q₃,q₄,w,h₁,h₂,h₃,h₄,⟨hc₁,hc₂,hc₃⟩,hset₄,_,hcons,hdone⟩ :=
    round_writes hset (by rw [hrest]; exact List.cons_ne_nil _ _) hshort
  rw [hrest] at hcons
  have hw := (List.cons.inj hcons).1
  have hcom₄ : q₄.committed = q.committed := (thread_fields h₄).1.trans
    ((consume_fields h₃).1.trans ((thread_fields h₂).1.trans (thread_fields h₁).1))
  have hstop₄ : q₄.stopped = q.stopped := (thread_fields h₄).2.1.trans
    ((consume_fields h₃).2.1.trans ((thread_fields h₂).2.1.trans (thread_fields h₁).2.1))
  refine ⟨w.blockNum,q₄,?_,hset₄,by rw [(hdone hrec).1,hcmp,← hw]; rfl,hcom₄.trans hcom,
    hstop₄.trans (hstop.trans h.running)⟩
  have hlift {q q' : JournalRun} (hc : q.completed = s.log.journal.completed)
      (hs : q.step kh .thread = some q') := thread_lift
    (m := { s.fs with curJournal := JournalContainer.init })
    (l := { s.log with journal := q,txIdToAlloc := s.log.txIdToAlloc + 1 })
    (h.signalled.trans (congrArg List.length hc.symm)) hs
  rw [commitEvents,transaction_run_cons hsub,transaction_run_cons (hlift hcmp h₁),
    transaction_run_cons (hlift (hc₁.trans hcmp) h₂),transaction_run_cons (consume_lift h₃),
    transaction_run_cons (hlift (hc₃.trans hcmp) h₄)]
  rfl

end Cycle

section Fill
variable {kh : Khash} {layout : RtfsMkfsLayout} {s : TransactionRun} {lpas : List UInt32}

theorem fill_run (ha : layout.Areas) (hN : layout.segmentCount.toNat < 8388608) (n : Nat)
    (h : Held layout s.fs lpas) (hready : s.fs.field currentDataSegmentBlkoffOff = 0 ∨
      s.fs.field currentDataSegmentBlkoffOff = 512)
    (hn : n ≤ (s.fs.field freeSegmentCountOff).toNat) : ∃ m' lpas',
      s.run kh (List.replicate n (.alloc .data 512)) = some (s.onFs m') ∧ Held layout m' lpas' ∧
      lpas'.length = lpas.length + 512 * n ∧ s.fs.entryNum + n ≤ m'.entryNum ∧
      m'.entryNum ≤ s.fs.entryNum + 6 * n := by
  induction n generalizing s lpas with
  | zero => exact ⟨s.fs,lpas,rfl,h,rfl,le_rfl,le_rfl⟩
  | succ n ih =>
    have hfree : s.fs.field freeSegmentCountOff ≠ 0 := by
      intro hz
      rw [hz] at hn
      exact Nat.not_succ_le_zero n hn
    obtain ⟨lpa,m₁,halloc,h₁,hfull,hcount,hlow,hup⟩ :=
      @alloc_segment layout s.fs lpas .data h ha hN (hready.imp_right (fun hf => ⟨hf,hfree⟩))
    have hstep : s.step kh (.alloc .data 512) = some (s.onFs m₁) := by
      rw [TransactionRun.step,halloc]
      rfl
    obtain ⟨m₂,lpas',hrun,h₂,hlen,hlow₂,hup₂⟩ := ih (s := s.onFs m₁) h₁ (.inr hfull)
      (show n ≤ (m₁.field freeSegmentCountOff).toNat by omega)
    have hrange : (lpaRange lpa 512).length = 512 := by
      rw [lpaRange,List.length_map,List.length_range]
      rfl
    rw [List.length_append,hrange] at hlen
    change m₁.entryNum + n ≤ _ at hlow₂
    change _ ≤ m₁.entryNum + 6 * n at hup₂
    refine ⟨m₂,lpas',?_,h₂,by omega,by omega,by omega⟩
    rw [List.replicate_succ,transaction_run_cons hstep]
    exact hrun

end Fill

section Drain
variable {kh : Khash} {layout : RtfsMkfsLayout} {base size t : Nat} {s : TransactionRun} {lpas : List UInt32}

-- the blocks of a deleted file come back in one drain, once its transaction is on the device
def deleteEvents (n txId : Nat) (lpas : List UInt32) : List TransactionEvent :=
  commitEvents n ++ ([.register ⟨txId,lpas,[],[]⟩,.hook,.drain] ++ [.submit])

theorem held_ne (ha : layout.Areas) {m : FsMeta} (h : Held layout m lpas) : ∀ x ∈ lpas, x ≠ invalidLpa := by
  rintro x hx rfl
  have hmain := (h.inv.main invalidLpa hx).1
  have hpos := ha.mainPos
  change layout.mainStartSegment.toNat ≤ 0 at hmain
  omega

theorem drain_blocks {m : FsMeta} (h0 : m.field segment0BlkaddrOff = 0) (hnd : lpas.Nodup)
    (hz : ∀ x ∈ lpas, x ≠ invalidLpa) (hv : ∀ x ∈ lpas, lpaBit m x = true) (id : Nat) : ∃ m' es,
    CowReclaimRecord.drain m ⟨id,lpas,[],[]⟩ = some m' ∧ es.length = lpas.length ∧
    m'.curJournal = { m.curJournal with sitJournal := m.curJournal.sitJournal ++ es } := by
  obtain ⟨m',hm',_,_⟩ := invalidateAll_ok h0 hnd hz hv
  obtain ⟨es,hj,hlen⟩ := invalidateAll_journal hm'
  rw [List.filter_eq_self.mpr (fun x hx => decide_eq_true (hz x hx))] at hlen
  refine ⟨m',es,?_,hlen,hj⟩
  rw [CowReclaimRecord.drain,hm']
  rfl

variable {m m' : FsMeta} {l : RegistryRun} {r : CowReclaimRecord}

theorem register_only (hreg : l.registry = cowReclaimRegistryInit) (hr : r.isEmpty = false)
    (hmem : r.txId ∈ l.journal.committed.map (·.txId)) : ∃ l',
    TransactionRun.step kh ⟨m,l⟩ (.register r) = some ⟨m,l'⟩ ∧ l'.registry = ⟨[r],[]⟩ ∧
      l'.journal = l.journal ∧ l'.signalled = l.signalled ∧ l'.txIdToAlloc = l.txIdToAlloc := by
  rw [TransactionRun.step,RegistryRun.register,if_pos hmem,cowReclaimRegistryRegister,hr,hreg]
  exact ⟨_,rfl,rfl,rfl,rfl,rfl⟩

theorem hook_only (hreg : l.registry = ⟨[r],[]⟩)
    (hsig : l.journal.completed[l.signalled.length]? = some r.txId) : ∃ l',
    TransactionRun.step kh ⟨m,l⟩ .hook = some ⟨m,l'⟩ ∧ l'.registry = ⟨[],[r]⟩ ∧
      l'.journal = l.journal ∧ l'.txIdToAlloc = l.txIdToAlloc := by
  rw [TransactionRun.step,RegistryRun.hook,hsig,hreg]
  refine ⟨_,rfl,?_,rfl,rfl⟩
  simp [cowReclaimRegistryOnTxComplete]

theorem drain_only (hreg : l.registry = ⟨[],[r]⟩) (hdrain : r.drain m = some m') : ∃ l',
    TransactionRun.step kh ⟨m,l⟩ .drain = some ⟨m',l'⟩ ∧ l'.journal = l.journal ∧
      l'.txIdToAlloc = l.txIdToAlloc := by
  have hall : cowReclaimRegistryDrainCompleted l.registry m = some (⟨[],[]⟩,m') := by
    rw [hreg,cowReclaimRegistryDrainCompleted]
    simp [hdrain]
  rw [TransactionRun.step,TransactionRun.drain,RegistryRun.drain,hall]
  exact ⟨_,rfl,rfl,rfl⟩

theorem give_back (hreg : l.registry = cowReclaimRegistryInit) (hr : r.isEmpty = false)
    (hmem : r.txId ∈ l.journal.committed.map (·.txId))
    (hsig : l.journal.completed[l.signalled.length]? = some r.txId) (hdrain : r.drain m = some m') :
    ∃ l', TransactionRun.run kh ⟨m,l⟩ [.register r,.hook,.drain] = some ⟨m',l'⟩ ∧
      l'.journal = l.journal ∧ l'.txIdToAlloc = l.txIdToAlloc := by
  obtain ⟨l₁,h₁,hreg₁,hj₁,hs₁,ht₁⟩ := @register_only kh m l r hreg hr hmem
  obtain ⟨l₂,h₂,hreg₂,hj₂,ht₂⟩ := @hook_only kh m l₁ r hreg₁ (by rw [hj₁,hs₁]; exact hsig)
  obtain ⟨l₃,h₃,hj₃,ht₃⟩ := @drain_only kh m m' l₂ r hreg₂ hdrain
  refine ⟨l₃,?_,hj₃.trans (hj₂.trans hj₁),ht₃.trans (ht₂.trans ht₁)⟩
  rw [transaction_run_cons h₁,transaction_run_cons h₂,transaction_run_cons h₃]
  rfl

theorem calm_delete (ha : layout.Areas) (h : Calm kh base size t s)
    (hreg : s.log.registry = cowReclaimRegistryInit) (hne : s.fs.curJournal.isEmpty = false)
    (hsize : 0 < size) (hfit : s.fs.curJournal.Fits (size - 1)) (hheld : Held layout s.fs lpas)
    (hlpas : lpas ≠ []) : ∃ n s' j,
      s.run kh (deleteEvents n s.log.txIdToAlloc lpas) = some s' ∧ j ∈ s'.log.journal.committed ∧
      j.superBlockJournal = [] ∧ j.natJournal = [] ∧ j.sitJournal.length = lpas.length := by
  obtain ⟨n,q,hrun,hset,hcmp,hcom,hstop⟩ := calm_commit h hne hsize hfit
  obtain ⟨m',es,hdrain,hlen,hj⟩ := @drain_blocks lpas
    { s.fs with curJournal := JournalContainer.init } hheld.inv.seg0 hheld.inv.nodup (held_ne ha hheld)
    hheld.valid s.log.txIdToAlloc
  have hr : CowReclaimRecord.isEmpty ⟨s.log.txIdToAlloc,lpas,[],[]⟩ = false := by
    cases lpas with
    | nil => exact absurd rfl hlpas
    | cons x xs => rfl
  have hmem : s.log.txIdToAlloc ∈ q.committed.map (·.txId) := by
    rw [hcom]
    exact List.mem_map_of_mem (List.mem_append_right _ (List.mem_singleton_self s.nextContainer))
  have hsig : q.completed[s.log.signalled.length]? = some s.log.txIdToAlloc := by
    rw [hcmp,h.signalled,List.getElem?_append_right le_rfl,Nat.sub_self]
    rfl
  obtain ⟨l,hback,hjour,_⟩ := @give_back kh { s.fs with curJournal := JournalContainer.init } m'
    { s.log with journal := q,txIdToAlloc := s.log.txIdToAlloc + 1 } ⟨s.log.txIdToAlloc,lpas,[],[]⟩
    hreg hr hmem hsig hdrain
  have hes : ¬ m'.curJournal.isEmpty = true := by
    rw [hj]
    cases es with
    | nil => exact absurd (List.eq_nil_of_length_eq_zero hlen.symm) hlpas
    | cons e es => exact Bool.false_ne_true
  obtain ⟨s',hsub,hcom'⟩ : ∃ s', TransactionRun.step kh ⟨m',l⟩ .submit = some s' ∧
      s'.log.journal.committed = l.journal.committed ++ [{ m'.curJournal with txId := l.txIdToAlloc }] := by
    rw [TransactionRun.step,TransactionRun.submit,if_neg hes,RegistryRun.submit,JournalRun.step,
      if_neg (by rw [hjour,hstop]; exact Bool.false_ne_true)]
    exact ⟨_,rfl,rfl⟩
  refine ⟨n,s',{ m'.curJournal with txId := l.txIdToAlloc },?_,?_,?_⟩
  · rw [deleteEvents,transaction_run_append hrun,transaction_run_append hback,transaction_run_cons hsub]
    rfl
  · rw [hcom']
    exact List.mem_append_right _ (List.mem_singleton_self _)
  · rw [hj]
    exact ⟨rfl,rfl,hlen⟩

end Drain

section Format
variable {d d₀ : CommDev} {options : RtfsMkfsOptions} {layout : RtfsMkfsLayout}

theorem setup_ring {L : Layout} {p : Nat} (hL : L.Ok d) (hs : ScanFrom L (d.blocks 0) p)
    (hsame : RtfsSuperBlock.metaJournalStartBlkoff (d.blocks 0) =
      RtfsSuperBlock.metaJournalEndBlkoff (d.blocks 0)) (mem : Nat → Block) :
    (fileSystemManagerSetup mem d).dev.EmptyRing L.metaJournalBlkaddr (L.metaJournalBlkaddr + L.journalSize)
      (journalSlot L p) := by
  obtain ⟨hat,_,_⟩ := setup_at hL hs mem
  have hhead : (fileSystemManagerSetup mem d).dev.metaJournalHeadLpa =
      (fileSystemManagerSetup mem d).dev.metaJournalTailLpa := by
    have hsize : journalSizeOf (d.blocks 0) = L.journalSize := by
      rw [← hs.1]
      rfl
    unfold fileSystemManagerSetup syncDevJournalPosFromSuper
    simp only [hsize,if_neg (Nat.ne_of_gt hat.pos),hsame]
  exact ⟨Ring.base_le_slot p,Ring.slot_lt hat.pos p,fun lpa h1 h2 => hat.held lpa h1 h2,hat.devStart,hat.devEnd,
    hhead.trans hat.devTail,hat.devTail⟩

theorem format_ring (h : rtfsMkfsFormat options d = .ok (layout,d₀))
    (hd : ∀ lpa < options.lpaCount, d.Holds lpa)
    (hmj : options.metaJournalSegmentCount.toNat < 4294967295) (mem : Nat → Block) :
    let L := layoutOf (d₀.blocks 0)
    (fileSystemManagerSetup mem d₀).dev.EmptyRing L.metaJournalBlkaddr (L.metaJournalBlkaddr + L.journalSize)
      L.metaJournalBlkaddr := by
  intro L
  have hclean := format_clean h hd hmj
  have hsuper : d₀.blocks 0 = initialSuper (effectiveOptions options) layout := by
    obtain ⟨f,hf,hform,_⟩ := format_spec hd hmj (format_layout h)
    rw [h] at hf
    cases hf
    exact hform.super
  have hring := setup_ring hclean.layout hclean.scan
    (by rw [hsuper,startBlkoff_initialSuper,endBlkoff_initialSuper]) mem
  have hslot : journalSlot L 0 = L.metaJournalBlkaddr := by
    rw [journalSlot,Ring.slot,Nat.zero_mod,Nat.add_zero]
  rwa [hslot] at hring

end Format

section Small

def smallRing : CommDev := (fileSystemManagerSetup (fun _ => Buf.zero) smallDisk).dev

theorem smallRing_empty : smallRing.EmptyRing 512 1024 512 := by
  obtain ⟨_,hfmt,hl⟩ := smallDisk_clean
  have hring := format_ring hfmt (smallDev_holds _) (by decide) (fun _ => Buf.zero)
  simp only [hl] at hring
  exact hring

def smallStart : TransactionRun :=
  TransactionRun.start (loadMeta smallDisk) (JournalRun.start (fun _ => Buf.zero) smallRing 512 1024 512)

theorem smallStart_calm : Calm inOrderKhash 512 (1024 - 512) (512 - 512) smallStart where
  settled := ⟨start_ok smallRing_empty,rfl,rfl⟩
  rest := rfl
  records := rfl
  signalled := rfl
  running := rfl

theorem smallStart_held : Held smallLayout smallStart.fs [] :=
  ⟨image_lpaInv loadMeta_small (calculateLayout_areas loadMeta_small.calculated (by decide)) (by decide),
    fun _ hx => nomatch hx⟩

-- a file of 56 whole segments is written in one transaction and given back after it
def fileEvents (n : Nat) (lpas : List UInt32) : List TransactionEvent :=
  List.replicate 56 (.alloc .data 512) ++ deleteEvents n 1 lpas

theorem entryNum_empty {m : FsMeta} (h : 0 < m.entryNum) : m.curJournal.isEmpty = false := by
  unfold FsMeta.entryNum at h
  by_contra he
  simp only [JournalContainer.isEmpty,Bool.not_eq_false,Bool.and_eq_true,List.isEmpty_iff] at he
  rw [he.1.1,he.1.2,he.2] at h
  exact absurd h (Nat.lt_irrefl 0)

theorem file_deleted : ∃ n lpas s j, lpas.length = 28672 ∧
    smallStart.run inOrderKhash (fileEvents n lpas) = some s ∧ j ∈ s.log.journal.committed ∧
    j.superBlockJournal = [] ∧ j.natJournal = [] ∧ j.sitJournal.length = 28672 := by
  have ha := calculateLayout_areas loadMeta_small.calculated (by decide)
  have hfree : (smallStart.fs.field freeSegmentCountOff).toNat = 57 := (image_firstFree loadMeta_small ha).2
  have hopen : smallStart.fs.field currentDataSegmentBlkoffOff = 0 := image_field loadMeta_small (by decide) rfl
  obtain ⟨m,lpas,hrun,hheld,hlen,hlow,hup⟩ := @fill_run inOrderKhash smallLayout smallStart [] ha (by decide) 56
    smallStart_held (.inl hopen) (by omega)
  change lpas.length = 28672 at hlen
  change 0 + 56 ≤ m.entryNum at hlow
  change m.entryNum ≤ 0 + 6 * 56 at hup
  have hcalm : Calm inOrderKhash 512 (1024 - 512) (512 - 512) (smallStart.onFs m) := by
    obtain ⟨h1,h2,h3,h4,h5⟩ := smallStart_calm
    exact ⟨h1,h2,h3,h4,h5⟩
  have hfit : m.curJournal.Fits (1024 - 512 - 1) := fits_of_few (by unfold FsMeta.entryNum at hup; omega)
  have hne : m.curJournal.isEmpty = false := entryNum_empty (by omega)
  obtain ⟨n,s,j,hdel,hj,hsup,hnat,hsit⟩ := calm_delete ha hcalm rfl hne (by decide) hfit hheld
    (List.ne_nil_of_length_pos (by omega))
  refine ⟨n,lpas,s,j,hlen,?_,hj,hsup,hnat,hsit.trans hlen⟩
  rw [fileEvents,transaction_run_append hrun]
  exact hdel

theorem sit_blocks {j : JournalContainer} (hsup : j.superBlockJournal = []) (hnat : j.natJournal = [])
    (hsit : j.sitJournal.length = 28672) : journalBlockNum inOrderKhash j = 512 := by
  rw [journalBlockNum_pack,superOutput_length,hsup,hnat,hsit]
  decide

theorem transactions_fit_iff_small : ∃ n lpas s,
    smallStart.run inOrderKhash (fileEvents n lpas) = some s ∧
    let fit := smallStart.SubmitsFit inOrderKhash (1024 - 512 - 1) (fileEvents n lpas)
    (fit ↔ ∀ j ∈ s.log.journal.committed,
      journalBlockNum inOrderKhash j ≤ s.log.journal.thread.proc.totalAvailLpa) ∧
    (fit ↔ ∀ j ∈ s.log.journal.committed, s.log.journal.CanWrite inOrderKhash j) ∧
    (fit ↔ s.log.journal.CanExit inOrderKhash) := by
  obtain ⟨n,lpas,s,j,_,hrun,_⟩ := file_deleted
  exact ⟨n,lpas,s,hrun,transactions_fit_iff smallRing_empty hrun⟩

theorem oversized_transaction : ∃ n lpas s j, lpas.length = 28672 ∧
    smallStart.run inOrderKhash (fileEvents n lpas) = some s ∧ j ∈ s.log.journal.committed ∧
    s.log.journal.thread.proc.totalAvailLpa = 511 ∧ journalBlockNum inOrderKhash j = 512 ∧
    ∀ es s', s.log.journal.run inOrderKhash es = some s' →
      j ∉ s'.writes.map (·.journal) ∧ s'.pc ≠ .exited := by
  obtain ⟨n,lpas,s,j,hlen,hrun,hj,hsup,hnat,hsit⟩ := file_deleted
  obtain ⟨a,hok⟩ := transaction_run_ok (start_ok smallRing_empty) hrun
  have hblocks := sit_blocks hsup hnat hsit
  refine ⟨n,lpas,s,j,hlen,hrun,hj,hok.thread.ring.total,hblocks,fun es s' hs' => ?_⟩
  obtain ⟨a',hok'⟩ := run_ok hok hs'
  exact ⟨oversized_unwritten hok' hblocks.ge,
    oversized_stays hok' ((run_committed hs').subset hj) hblocks.ge⟩

end Small

end Rtfs
