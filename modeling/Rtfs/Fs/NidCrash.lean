import Rtfs.Fs.NidAlloc
import Rtfs.Fs.Remount

namespace Rtfs

open RtfsSuperBlock

def concatJournals (js : List JournalContainer) : JournalContainer where
  superBlockJournal := js.flatMap JournalContainer.superBlockJournal
  natJournal := js.flatMap JournalContainer.natJournal
  sitJournal := js.flatMap JournalContainer.sitJournal
  txId := 0

section Concat
variable {js : List JournalContainer} {j : JournalContainer}

theorem concat_appendSuper (e : SuperBlockJournalEntry) :
    concatJournals (js ++ [j.appendSuperBlockJournalEntry e]) =
      (concatJournals (js ++ [j])).appendSuperBlockJournalEntry e := by
  simp [concatJournals,JournalContainer.appendSuperBlockJournalEntry]

theorem concat_appendNat (e : NatJournalEntry) :
    concatJournals (js ++ [j.appendNatJournalEntry e]) =
      (concatJournals (js ++ [j])).appendNatJournalEntry e := by
  simp [concatJournals,JournalContainer.appendNatJournalEntry]

theorem concat_init : concatJournals (js ++ [JournalContainer.init]) = concatJournals js := by
  simp [concatJournals,JournalContainer.init]

theorem loggable_of_concat {L : Layout} {d : CommDev} (h : (concatJournals js).Loggable L d) :
    ∀ j ∈ js, j.Loggable L d := by
  intro j hj
  exact ⟨fun e he => h.super e (List.mem_flatMap.mpr ⟨j,hj,he⟩),
    fun e he => h.nats e (List.mem_flatMap.mpr ⟨j,hj,he⟩),
    fun e he => h.sits e (List.mem_flatMap.mpr ⟨j,hj,he⟩)⟩

theorem JournalContainer.Loggable.appendSuper {L : Layout} {d : CommDev} (h : j.Loggable L d)
    {e : SuperBlockJournalEntry} (he : e.Ok ∧ 4 ∣ e.off.toNat) :
    (j.appendSuperBlockJournalEntry e).Loggable L d := by
  refine ⟨fun x hx => ?_,h.nats,h.sits⟩
  rcases List.mem_append.mp hx with hx | hx
  · exact h.super x hx
  · rw [List.mem_singleton.mp hx]
    exact he

theorem JournalContainer.Loggable.appendNat {L : Layout} {d : CommDev} (h : j.Loggable L d)
    {e : NatJournalEntry} (he : e.Ok L d) : (j.appendNatJournalEntry e).Loggable L d := by
  refine ⟨h.super,fun x hx => ?_,h.sits⟩
  rcases List.mem_append.mp hx with hx | hx
  · exact h.nats x hx
  · rw [List.mem_singleton.mp hx]
    exact he

end Concat

structure NidPoint extends NidState where
  freed : Set UInt32

structure NidHistory where
  now : NidPoint
  committed : List JournalContainer
  saved : NidPoint

structure OtherUpdate (L : Layout) (m m' : FsMeta) : Prop where
  nat : m'.nat = m.nat
  next : m'.field nextFreeNidOff = m.field nextFreeNidOff
  area : m'.field segmentCountNatOff = m.field segmentCountNatOff
  journal : ∃ ss cs, m'.curJournal = ⟨m.curJournal.superBlockJournal ++ ss,m.curJournal.natJournal,
      m.curJournal.sitJournal ++ cs,m.curJournal.txId⟩ ∧
    (∀ e ∈ ss, e.Ok ∧ 4 ∣ e.off.toNat ∧ e.off ≠ UInt32.ofNat nextFreeNidOff) ∧ ∀ e ∈ cs, e.Ok L

inductive NidHistoryStep (L : Layout) (d : CommDev) : NidHistory → NidHistory → Prop
  | alloc {s : NidHistory} {ino nid : UInt32} {isInode : Bool} {m : FsMeta}
      (h : superManagerAllocNid s.now.fs ino isInode = some (nid,m)) :
      NidHistoryStep L d s { s with now := if nid = invalidNid then
        ⟨⟨m,s.now.allocated⟩,s.now.freed⟩ else ⟨⟨m,insert nid s.now.allocated⟩,s.now.freed \ {nid}⟩ }
  | setLpa {s : NidHistory} {nid lpa : UInt32} {m : FsMeta} (hnid : nid ∈ s.now.allocated)
      (hlpa : d.Holds lpa.toNat) (h : natSetLpaOfNid s.now.fs nid lpa = some m) :
      NidHistoryStep L d s { s with now := ⟨⟨m,s.now.allocated⟩,s.now.freed⟩ }
  | free {s : NidHistory} {nid : UInt32} {m : FsMeta} (hnid : nid ∈ s.now.allocated)
      (h : superManagerFreeNid s.now.fs nid = some m) :
      NidHistoryStep L d s { s with now := ⟨⟨m,s.now.allocated \ {nid}⟩,insert nid s.now.freed⟩ }
  | other {s : NidHistory} {m : FsMeta} (h : OtherUpdate L s.now.fs m) :
      NidHistoryStep L d s { s with now := ⟨⟨m,s.now.allocated⟩,s.now.freed⟩ }
  | commit {s : NidHistory} (h : s.now.fs.curJournal.isEmpty = false) :
      NidHistoryStep L d s
        ⟨⟨⟨{ s.now.fs with curJournal := JournalContainer.init },s.now.allocated⟩,s.now.freed⟩,
          s.committed ++ [s.now.fs.curJournal],s.now⟩

def journaledNext (d : CommDev) (j : JournalContainer) : UInt32 :=
  ((lastEntry SuperBlockJournalEntry.off (UInt32.ofNat nextFreeNidOff) j.superBlockJournal).map
    SuperBlockJournalEntry.newVal).getD (u32At (d.blocks 0) nextFreeNidOff)

structure Journaled (L : Layout) (d : CommDev) (layout : RtfsMkfsLayout) (j : JournalContainer)
    (s : NidPoint) : Prop where
  inv : NidInv layout s.toNidState
  freed : ∀ l, Threaded (nidNext s.fs) invalidNid (s.fs.field nextFreeNidOff) l →
    ∀ nid ∈ s.freed, nid ∈ l
  kept : ∀ nid ∉ s.allocated, nid ∉ s.freed → s.fs.nat nid = (loadMeta d).nat nid ∧
    ∀ e ∈ j.natJournal, e.nid ≠ nid
  next : s.fs.field nextFreeNidOff = journaledNext d j
  loggable : j.Loggable L d

section Step
variable {L : Layout} {d : CommDev} {layout : RtfsMkfsLayout} {j : JournalContainer} {s : NidPoint}

theorem journaledNext_append (v : UInt32) :
    journaledNext d (j.appendSuperBlockJournalEntry ⟨UInt32.ofNat nextFreeNidOff,v⟩) = v := by
  unfold journaledNext JournalContainer.appendSuperBlockJournalEntry
  simp only
  rw [lastEntry_append]
  rfl

theorem nextFree_loggable (v : UInt32) :
    (⟨UInt32.ofNat nextFreeNidOff,v⟩ : SuperBlockJournalEntry).Ok ∧
      4 ∣ (UInt32.ofNat nextFreeNidOff).toNat := by
  have hend : (UInt32.ofNat nextFreeNidOff).toNat + 4 ≤ 4096 := by decide
  have hout : OutsideLayout (UInt32.ofNat nextFreeNidOff).toNat := by decide
  exact ⟨⟨hend,hout⟩,by decide⟩

theorem allocNid_journal {m m' : FsMeta} {ino nid : UInt32} {isInode : Bool}
    (h : superManagerAllocNid m ino isInode = some (nid,m')) (hn : nid ≠ invalidNid) :
    m'.curJournal = m.curJournal.appendSuperBlockJournalEntry
      ⟨UInt32.ofNat nextFreeNidOff,m'.field nextFreeNidOff⟩ := by
  unfold superManagerAllocNid at h
  simp only at h
  split at h
  · cases h
    exact absurd rfl hn
  · split at h
    · cases h
    · split at h
      · cases h
        exact absurd rfl hn
      · cases h
        rfl

theorem freeNid_journal {m m' : FsMeta} {nid : UInt32} (h : superManagerFreeNid m nid = some m') :
    m'.curJournal = m.curJournal.appendSuperBlockJournalEntry
      ⟨UInt32.ofNat nextFreeNidOff,m'.field nextFreeNidOff⟩ := by
  unfold superManagerFreeNid at h
  split at h
  · cases h
  · cases h
    rfl

theorem setLpa_journal {m m' : FsMeta} {nid lpa : UInt32} (h : natSetLpaOfNid m nid lpa = some m') :
    m'.curJournal = m.curJournal.appendNatJournalEntry ⟨nid,⟨(m.nat nid).ino,lpa⟩⟩ := by
  unfold natSetLpaOfNid at h
  split at h
  · cases h
  · cases h
    unfold FsMeta.journalNat FsMeta.setNat
    simp only [Function.update_self]

theorem Journaled.allocNid (h : Journaled L d layout j s) (ha : layout.Areas) {ino nid : UInt32}
    {isInode : Bool} {m : FsMeta} (hop : superManagerAllocNid s.fs ino isInode = some (nid,m))
    (hn : nid ≠ invalidNid) :
    Journaled L d layout
      (j.appendSuperBlockJournalEntry ⟨UInt32.ofNat nextFreeNidOff,m.field nextFreeNidOff⟩)
      ⟨⟨m,insert nid s.allocated⟩,s.freed \ {nid}⟩ := by
  rcases allocNid_cases h.inv ha ino isInode with hfail | ⟨n,l,e,m',hl,hok,hnext,harea,hnat⟩
  · rw [hop] at hfail
    cases hfail
    exact absurd rfl hn
  · rw [hop] at hok
    cases hok
    have hnotin : nid ∉ l := (List.nodup_cons.mp hl.threaded.nodup).1
    refine ⟨allocNid_inv h.inv hl hnext harea hnat,fun l' hl' x hx => ?_,fun x hx hf => ?_,
      (journaledNext_append _).symm,h.loggable.appendSuper (nextFree_loggable _)⟩
    · have hthr : Threaded (nidNext m) invalidNid (m.field nextFreeNidOff) l := by
        rw [hnext]
        exact threaded_off_list hnat hnotin hl.threaded.2.2
      have hmem : x ∈ nid :: l := h.freed _ hl.threaded x hx.1
      rw [Threaded.unique hl' hthr]
      exact List.mem_of_ne_of_mem hx.2 hmem
    · have hne : x ≠ nid := fun he => hx (Or.inl he)
      have hxf : x ∉ s.freed := fun hin => hf ⟨hin,hne⟩
      obtain ⟨hsame,hlog⟩ := h.kept x (fun hin => hx (Or.inr hin)) hxf
      refine ⟨?_,hlog⟩
      change m.nat x = _
      rw [hnat,Function.update_of_ne hne,hsame]

theorem Journaled.setLpa (h : Journaled L d layout j s) (ha : layout.Areas)
    (hseg : layout.natSegmentCount.toNat = L.segmentCountNat) {nid lpa : UInt32} {m : FsMeta}
    (hnid : nid ∈ s.allocated) (hlpa : d.Holds lpa.toNat)
    (hop : natSetLpaOfNid s.fs nid lpa = some m) :
    Journaled L d layout (j.appendNatJournalEntry ⟨nid,⟨(s.fs.nat nid).ino,lpa⟩⟩)
      ⟨⟨m,s.allocated⟩,s.freed⟩ := by
  obtain ⟨m',e,hok,hfield,hnat⟩ := setLpa_spec h.inv ha hnid lpa
  rw [hop] at hok
  cases hok
  obtain ⟨l,hl⟩ := h.inv.list
  have hnotin : nid ∉ l := fun hin => hl.notAllocated nid hin hnid
  have hthr : Threaded (nidNext m) invalidNid (m.field nextFreeNidOff) l := by
    rw [hfield]
    exact threaded_off_list hnat hnotin hl.threaded
  refine ⟨nidStep_inv ha h.inv (NidStep.setLpa hnid hop),fun l' hl' x hx => ?_,fun x hx hf => ?_,
    (hfield _).trans h.next,h.loggable.appendNat ⟨?_,hlpa⟩⟩
  · rw [Threaded.unique hl' hthr]
    exact h.freed l hl.threaded x hx
  · have hne : nid ≠ x := fun he => hx (he ▸ hnid)
    obtain ⟨hsame,hlog⟩ := h.kept x hx hf
    refine ⟨?_,fun e he => ?_⟩
    · change m.nat x = _
      rw [hnat,Function.update_of_ne hne.symm,hsame]
    · rcases List.mem_append.mp he with he | he
      · exact hlog e he
      · rw [List.mem_singleton.mp he]
        exact hne
  · have hb := h.inv.bound nid hnid
    have hc := ha.natCovers
    change nid.toNat / 512 < L.segmentCountNat * 512
    rw [← hseg]
    omega

theorem Journaled.freeNid (h : Journaled L d layout j s) (ha : layout.Areas) {nid : UInt32} {m : FsMeta}
    (hnid : nid ∈ s.allocated) (hop : superManagerFreeNid s.fs nid = some m) :
    Journaled L d layout
      (j.appendSuperBlockJournalEntry ⟨UInt32.ofNat nextFreeNidOff,m.field nextFreeNidOff⟩)
      ⟨⟨m,s.allocated \ {nid}⟩,insert nid s.freed⟩ := by
  obtain ⟨m',hok,hnext,harea,hnat⟩ := freeNid_spec h.inv ha hnid
  rw [hop] at hok
  cases hok
  obtain ⟨l,hl⟩ := h.inv.list
  have hnotin : nid ∉ l := fun hin => hl.notAllocated nid hin hnid
  have hthr : Threaded (nidNext m) invalidNid (m.field nextFreeNidOff) (nid :: l) := by
    rw [hnext]
    refine (threaded_off_list hnat hnotin hl.threaded).cons (h.inv.nonzero nid hnid) ?_
    unfold nidNext
    rw [hnat,Function.update_self]
  refine ⟨freeNid_inv h.inv hnid hnext harea hnat,fun l' hl' x hx => ?_,fun x hx hf => ?_,
    (journaledNext_append _).symm,h.loggable.appendSuper (nextFree_loggable _)⟩
  · rw [Threaded.unique hl' hthr]
    rcases hx with rfl | hx
    · exact List.mem_cons_self
    · exact List.mem_cons_of_mem _ (h.freed l hl.threaded x hx)
  · have hne : x ≠ nid := fun he => hf (Or.inl he)
    obtain ⟨hsame,hlog⟩ := h.kept x (fun hin => hx ⟨hin,hne⟩) (fun hin => hf (Or.inr hin))
    refine ⟨?_,hlog⟩
    change m.nat x = _
    rw [hnat,Function.update_of_ne hne,hsame]

theorem Journaled.other (h : Journaled L d layout j s) {m : FsMeta} {ss : List SuperBlockJournalEntry}
    {cs : List SitJournalEntry} (hnat : m.nat = s.fs.nat)
    (hnext : m.field nextFreeNidOff = s.fs.field nextFreeNidOff)
    (harea : m.field segmentCountNatOff = s.fs.field segmentCountNatOff)
    (hss : ∀ e ∈ ss, e.Ok ∧ 4 ∣ e.off.toNat ∧ e.off ≠ UInt32.ofNat nextFreeNidOff)
    (hcs : ∀ e ∈ cs, e.Ok L) :
    Journaled L d layout ⟨j.superBlockJournal ++ ss,j.natJournal,j.sitJournal ++ cs,j.txId⟩
      ⟨⟨m,s.allocated⟩,s.freed⟩ := by
  have hlink : nidNext m = nidNext s.fs := by
    unfold nidNext
    rw [hnat]
  obtain ⟨⟨l,hl⟩,hz,hb,harea'⟩ := h.inv
  refine ⟨⟨⟨l,?_,hl.bound,?_,hl.notAllocated⟩,hz,hb,harea.trans harea'⟩,fun l' hl' => ?_,fun x hx hf => ?_,
    ?_,?_⟩
  · change Threaded (nidNext m) invalidNid (m.field nextFreeNidOff) l
    rw [hlink,hnext]
    exact hl.threaded
  · intro x hx
    change (m.nat x).ino = _
    rw [hnat]
    exact hl.ino x hx
  · change Threaded (nidNext m) invalidNid (m.field nextFreeNidOff) l' at hl'
    rw [hlink,hnext] at hl'
    exact h.freed l' hl'
  · obtain ⟨hsame,hlog⟩ := h.kept x hx hf
    exact ⟨(congrFun hnat x).trans hsame,hlog⟩
  · change m.field nextFreeNidOff = _
    have hno : lastEntry SuperBlockJournalEntry.off (UInt32.ofNat nextFreeNidOff) ss = none := by
      apply lastEntry_eq_none
      intro hk
      obtain ⟨e,he,hoff⟩ := List.mem_map.mp hk
      exact (hss e he).2.2 hoff
    rw [hnext,h.next,journaledNext,journaledNext,lastEntry_append,hno,Option.none_or]
  · refine ⟨fun e he => ?_,h.loggable.nats,fun e he => ?_⟩
    · rcases List.mem_append.mp he with he | he
      · exact h.loggable.super e he
      · exact ⟨(hss e he).1,(hss e he).2.1⟩
    · rcases List.mem_append.mp he with he | he
      · exact h.loggable.sits e he
      · exact hcs e he

end Step

structure HistoryInv (L : Layout) (d : CommDev) (layout : RtfsMkfsLayout) (h : NidHistory) : Prop where
  now : Journaled L d layout (concatJournals (h.committed ++ [h.now.fs.curJournal])) h.now
  saved : Journaled L d layout (concatJournals h.committed) h.saved

section Run
variable {L : Layout} {d : CommDev} {layout : RtfsMkfsLayout}

def NidHistory.mounted (d : CommDev) (allocated : Set UInt32) : NidHistory :=
  ⟨⟨⟨loadMeta d,allocated⟩,∅⟩,[],⟨⟨loadMeta d,allocated⟩,∅⟩⟩

theorem mounted_inv {A : Set UInt32} (h : NidInv layout ⟨loadMeta d,A⟩) :
    HistoryInv L d layout (.mounted d A) := by
  have hj : Journaled L d layout (concatJournals []) ⟨⟨loadMeta d,A⟩,∅⟩ :=
    ⟨h,fun _ _ _ hx => absurd hx (Set.notMem_empty _),
      fun _ _ _ => ⟨rfl,fun _ he => absurd he List.not_mem_nil⟩,rfl,
      ⟨fun _ he => absurd he List.not_mem_nil,fun _ he => absurd he List.not_mem_nil,
        fun _ he => absurd he List.not_mem_nil⟩⟩
  exact ⟨hj,hj⟩

theorem historyStep_inv (ha : layout.Areas) (hseg : layout.natSegmentCount.toNat = L.segmentCountNat)
    {s s' : NidHistory} (h : HistoryInv L d layout s) (hs : NidHistoryStep L d s s') :
    HistoryInv L d layout s' := by
  cases hs with
  | @alloc ino nid isInode m hop =>
    by_cases hn : nid = invalidNid
    · simp only [if_pos hn]
      rcases allocNid_cases h.now.inv ha ino isInode with hfail | ⟨n,l,_,_,hl,hok,_⟩
      · rw [hop] at hfail
        cases hfail
        exact h
      · rw [hop] at hok
        cases hok
        exact absurd hn (hl.threaded.ne_stop nid List.mem_cons_self)
    · simp only [if_neg hn]
      refine ⟨?_,h.saved⟩
      rw [allocNid_journal hop hn,concat_appendSuper]
      exact h.now.allocNid ha hop hn
  | @setLpa nid lpa m hnid hlpa hop =>
    refine ⟨?_,h.saved⟩
    rw [setLpa_journal hop,concat_appendNat]
    exact h.now.setLpa ha hseg hnid hlpa hop
  | @free nid m hnid hop =>
    refine ⟨?_,h.saved⟩
    rw [freeNid_journal hop,concat_appendSuper]
    exact h.now.freeNid ha hnid hop
  | @other m hop =>
    obtain ⟨ss,cs,hj,hss,hcs⟩ := hop.journal
    refine ⟨?_,h.saved⟩
    have hcat : concatJournals (s.committed ++ [m.curJournal]) =
        ⟨(concatJournals (s.committed ++ [s.now.fs.curJournal])).superBlockJournal ++ ss,
          (concatJournals (s.committed ++ [s.now.fs.curJournal])).natJournal,
          (concatJournals (s.committed ++ [s.now.fs.curJournal])).sitJournal ++ cs,
          (concatJournals (s.committed ++ [s.now.fs.curJournal])).txId⟩ := by
      simp [hj,concatJournals]
    rw [hcat]
    exact h.now.other hop.nat hop.next hop.area hss hcs
  | commit hne =>
    refine ⟨?_,h.now⟩
    rw [concat_init]
    obtain ⟨l,hl⟩ := h.now.inv.list
    exact ⟨⟨⟨l,hl.threaded,hl.bound,hl.ino,hl.notAllocated⟩,h.now.inv.nonzero,h.now.inv.bound,h.now.inv.area⟩,h.now.freed,h.now.kept,
      h.now.next,h.now.loggable⟩

theorem historyRun_inv (ha : layout.Areas) (hseg : layout.natSegmentCount.toNat = L.segmentCountNat)
    {s s' : NidHistory} (h : HistoryInv L d layout s)
    (hr : Relation.ReflTransGen (NidHistoryStep L d) s s') : HistoryInv L d layout s' := by
  induction hr with
  | refl => exact h
  | tail _ hs ih => exact historyStep_inv ha hseg ih hs

end Run

section Recovered
variable {L : Layout} {d : CommDev} {layout : RtfsMkfsLayout}

theorem NidFreeList.inRange {s : NidState} {l : List UInt32} (hl : NidFreeList layout s l)
    (ha : layout.Areas) (hseg : layout.natSegmentCount.toNat = L.segmentCountNat) {nid : UInt32}
    (hn : nid ∈ l) : NidInRange L nid := by
  have hb := hl.bound nid hn
  have hc := ha.natCovers
  change nid.toNat / 512 < L.segmentCountNat * 512
  rw [← hseg]
  omega

end Recovered

theorem free_nid_list_recovered (L : Layout) (kh : Khash) (d : CommDev) (hL : L.Ok d) (p : Nat)
    (hs : ScanFrom L (d.blocks 0) p) (layout : RtfsMkfsLayout) (ha : layout.Areas) (A : Set UInt32)
    (hA : NidInv layout ⟨loadMeta d,A⟩) (h : NidHistory)
    (hrun : Relation.ReflTransGen (NidHistoryStep L d) (.mounted d A) h) (mem : Nat → Block) (s : Sys)
    (hcommit : commitAll kh (fileSystemManagerSetup mem d) h.committed = some s) (dc : CommDev)
    (hd : CrashImage L s.dev dc) (hfit : historyBlockNum kh h.committed ≤ L.journalSize)
    (hend : historyBlockNum kh h.committed = L.journalSize ∨
      (headerAt (journalBlock d L (p + historyBlockNum kh h.committed)) 0).len = 0)
    (hcond : ∀ nid ∈ h.saved.freed, (∀ j ∈ h.committed, ∀ e ∈ j.natJournal, e.nid ≠ nid) ∧
      ((loadMeta d).nat nid).blockAddr = (h.saved.fs.nat nid).blockAddr)
    (fuel : Nat) (hf : h.committed.length < fuel) :
    ∃ d', commSubmitFsRecoverFromDbRequest fuel dc = some (d',none) ∧
      ∃ l, Threaded (fun nid => ((loadMeta d').nat nid).blockAddr) invalidNid
          ((loadMeta d').field nextFreeNidOff) l ∧ l.Nodup ∧
        (∀ nid ∈ l, nid ∉ h.saved.allocated) ∧ ∀ nid ∈ h.saved.freed, nid ∈ l := by
  have hseg : layout.natSegmentCount.toNat = L.segmentCountNat := by
    rw [← hA.area,← hs.1]
    rfl
  have hsaved := (historyRun_inv ha hseg (mounted_inv hA) hrun).saved
  have hlog := loggable_of_concat hsaved.loggable
  obtain ⟨d',hrec,hd',_⟩ := history_remounted hL hs hlog hcommit hd hfit hend hf
  obtain ⟨_,hran,_⟩ := ranOnDisk hL hs hcommit hd
  have hLc : L.Ok dc := hL.congr hran.blockCount
  refine ⟨d',hrec,?_⟩
  obtain ⟨l,hl⟩ := hsaved.inv.list
  have hm : layoutOf (h.committed.foldl (applyContainer L kh) ⟨d.blocks 0,d.blocks⟩).superBlock = L :=
    (layoutOf_history hlog _).trans hs.1
  have hnext : (loadMeta d').field nextFreeNidOff = h.saved.fs.field nextFreeNidOff := by
    rw [hd'.loadMeta_field (Or.inr (by decide)),hsaved.next]
    exact superField_history hL hlog ⟨d.blocks 0,d.blocks⟩ (UInt32.ofNat nextFreeNidOff) (by decide)
  have hlink : ∀ nid ∈ l, ((loadMeta d').nat nid).blockAddr = nidNext h.saved.fs nid := by
    intro nid hnid
    have hin := hl.inRange ha hseg hnid
    have hkept (hlogged : ∀ j ∈ h.committed, ∀ e ∈ j.natJournal, e.nid ≠ nid) :
        (loadMeta d').nat nid = (loadMeta d).nat nid := by
      rw [hd'.loadMeta_nat hLc hm hin,natOf_history_kept hL hlog _ hlogged,
        Rtfs.loadMeta_nat hL hs.1 hin]
    by_cases hfreed : nid ∈ h.saved.freed
    · obtain ⟨hlogged,hsame⟩ := hcond nid hfreed
      rw [hkept hlogged,hsame]
      rfl
    · obtain ⟨hsame,hlogged⟩ := hsaved.kept nid (hl.notAllocated nid hnid) hfreed
      rw [hkept (fun j hj e he => hlogged e (List.mem_flatMap.mpr ⟨j,hj,he⟩)),← hsame]
      rfl
  refine ⟨l,?_,hl.threaded.nodup,hl.notAllocated,hsaved.freed l hl.threaded⟩
  rw [hnext]
  exact hl.threaded.congr hlink

structure Shows (m : FsMeta) (next : UInt32) (nat : UInt32 → RtfsNatEntry) (j : JournalContainer) :
    Prop where
  next : m.field nextFreeNidOff = next
  area : m.field segmentCountNatOff = 1
  nat : m.nat = nat
  journal : m.curJournal = j

section Shows
variable {m : FsMeta} {next nid : UInt32} {f : UInt32 → RtfsNatEntry} {j : JournalContainer}

theorem Shows.holdsNid (h : Shows m next f j) (hn : nid.toNat < 262144) : natHoldsNid m nid := by
  unfold natHoldsNid
  rw [h.area,UInt32.lt_iff_toNat_lt,UInt32.toNat_div]
  change nid.toNat / 512 < 512
  omega

theorem Shows.alloc (h : Shows m nid f j) (hz : nid ≠ invalidNid) (hn : nid.toNat < 262144)
    (hnext : (f nid).blockAddr = next) (hne : next ≠ invalidLpa) :
    ∃ m', superManagerAllocNid m 0 true = some (nid,m') ∧
      Shows m' next (Function.update f nid ⟨nid,invalidLpa⟩)
        (j.appendSuperBlockJournalEntry ⟨UInt32.ofNat nextFreeNidOff,next⟩) := by
  unfold superManagerAllocNid
  simp only [h.next,h.nat,hnext]
  rw [if_neg hz,if_neg (not_not.mpr (h.holdsNid hn)),if_neg hne]
  have hfield : (m.setField nextFreeNidOff next).field nextFreeNidOff = next := by
    rw [FsMeta.field_setField _ _ (by decide) (by decide) (by decide),if_pos rfl]
  refine ⟨_,rfl,hfield,?_,?_,?_⟩
  · simp only [FsMeta.field_journalField,FsMeta.field_setNat]
    rw [FsMeta.field_setField _ _ (by decide) (by decide) (by decide),if_neg (by decide),h.area]
  · simp only [FsMeta.nat_journalField,FsMeta.setNat,FsMeta.nat_setField,h.nat,if_true]
  · change m.curJournal.appendSuperBlockJournalEntry ⟨_,(m.setField nextFreeNidOff next).field _⟩ = _
    rw [hfield,h.journal]

theorem Shows.setLpa (h : Shows m next f j) (hn : nid.toNat < 262144) (lpa : UInt32) :
    ∃ m', natSetLpaOfNid m nid lpa = some m' ∧
      Shows m' next (Function.update f nid ⟨(f nid).ino,lpa⟩)
        (j.appendNatJournalEntry ⟨nid,⟨(f nid).ino,lpa⟩⟩) := by
  unfold natSetLpaOfNid
  rw [if_neg (not_not.mpr (h.holdsNid hn)),h.nat]
  refine ⟨_,rfl,h.next,h.area,?_,?_⟩
  · rw [FsMeta.nat_journalNat,FsMeta.setNat,h.nat]
  · unfold FsMeta.journalNat FsMeta.setNat
    simp only [Function.update_self,h.journal]

theorem Shows.free (h : Shows m next f j) (hn : nid.toNat < 262144) :
    ∃ m', superManagerFreeNid m nid = some m' ∧
      Shows m' nid (Function.update f nid ⟨invalidNid,next⟩)
        (j.appendSuperBlockJournalEntry ⟨UInt32.ofNat nextFreeNidOff,nid⟩) := by
  unfold superManagerFreeNid
  rw [if_neg (not_not.mpr (h.holdsNid hn)),h.next]
  have hfield (m' : FsMeta) : (m'.setField nextFreeNidOff nid).field nextFreeNidOff = nid := by
    rw [FsMeta.field_setField _ _ (by decide) (by decide) (by decide),if_pos rfl]
  refine ⟨_,rfl,hfield _,?_,?_,?_⟩
  · rw [FsMeta.field_journalField,FsMeta.field_setField _ _ (by decide) (by decide) (by decide),
      if_neg (by decide),FsMeta.field_setNat,h.area]
  · rw [FsMeta.nat_journalField,FsMeta.nat_setField,FsMeta.setNat,h.nat]
  · change m.curJournal.appendSuperBlockJournalEntry ⟨_,FsMeta.field _ _⟩ = _
    rw [hfield,h.journal]

theorem Shows.commit (h : Shows m next f j) :
    Shows { m with curJournal := JournalContainer.init } next f JournalContainer.init :=
  ⟨h.next,h.area,h.nat,rfl⟩

end Shows

section Small

def nodesCreated : JournalContainer :=
  ⟨[⟨128,3⟩,⟨128,4⟩],[⟨2,⟨2,2561⟩⟩,⟨3,⟨3,2562⟩⟩],[],0⟩

def nodesFreed : JournalContainer := ⟨[⟨128,2⟩,⟨128,3⟩],[],[],0⟩

theorem small_nat {i : Nat} (hi : i < 32768) (hne : i ≠ 1) :
    (loadMeta smallDisk).nat (UInt32.ofNat i) = initialNatEntry smallLayout i := by
  have he := image_nat loadMeta_small (calculateLayout_areas loadMeta_small.calculated (by decide))
    (by decide) (i := i) hi
  rw [he,if_neg]
  exact hne

theorem small_shows : Shows (loadMeta smallDisk) 2 (loadMeta smallDisk).nat JournalContainer.init := by
  refine ⟨?_,?_,rfl,rfl⟩
  · rw [FsMeta.field,loadMeta_small.super]
    exact u32At_initialSuper _ _ (by decide) rfl
  · rw [FsMeta.field,loadMeta_small.super]
    exact u32At_initialSuper _ _ (by decide) rfl

theorem small_nidInv : NidInv smallLayout ⟨loadMeta smallDisk,{1}⟩ :=
  image_nidInv loadMeta_small (calculateLayout_areas loadMeta_small.calculated (by decide)) (by decide)
    (by decide)

structure Reaches (next : UInt32) (f : UInt32 → RtfsNatEntry) (j : JournalContainer)
    (A F : Set UInt32) (js : List JournalContainer) (h : NidHistory) : Prop where
  run : Relation.ReflTransGen (NidHistoryStep smallAreas smallDisk) (.mounted smallDisk {1}) h
  shows' : Shows h.now.fs next f j
  allocated : h.now.allocated = A
  freed : h.now.freed = F
  committed : h.committed = js

theorem small_reaches : Reaches 2 (loadMeta smallDisk).nat JournalContainer.init {1} ∅ []
    (.mounted smallDisk {1}) := ⟨.refl,small_shows,rfl,rfl,rfl⟩

section Reaches
variable {next nid : UInt32} {f : UInt32 → RtfsNatEntry} {j : JournalContainer} {A F : Set UInt32}
variable {js : List JournalContainer} {s : NidHistory}

theorem Reaches.alloc (h : Reaches nid f j A F js s) (next : UInt32) (hz : nid ≠ invalidNid) (hn : nid.toNat < 262144)
    (hnext : (f nid).blockAddr = next) (hne : next ≠ invalidLpa) :
    ∃ s', Reaches next (Function.update f nid ⟨nid,invalidLpa⟩)
      (j.appendSuperBlockJournalEntry ⟨UInt32.ofNat nextFreeNidOff,next⟩) (insert nid A) (F \ {nid}) js
      s' := by
  obtain ⟨m,hop,hm⟩ := h.shows'.alloc hz hn hnext hne
  have hstep := NidHistoryStep.alloc (L := smallAreas) (d := smallDisk) hop
  rw [if_neg hz] at hstep
  refine ⟨_,h.run.tail hstep,hm,?_,?_,h.committed⟩
  · simp only [h.allocated]
  · simp only [h.freed]

theorem Reaches.setLpa (h : Reaches next f j A F js s) (nid lpa : UInt32) (hA : nid ∈ A)
    (hn : nid.toNat < 262144) (hl : lpa.toNat < 32768) :
    ∃ s', Reaches next (Function.update f nid ⟨(f nid).ino,lpa⟩)
      (j.appendNatJournalEntry ⟨nid,⟨(f nid).ino,lpa⟩⟩) A F js s' := by
  obtain ⟨m,hop,hm⟩ := h.shows'.setLpa hn lpa
  refine ⟨_,h.run.tail (.setLpa ?_ (smallDisk_ok.1.held _ hl) hop),hm,h.allocated,h.freed,h.committed⟩
  rw [h.allocated]
  exact hA

theorem Reaches.free (h : Reaches next f j A F js s) (nid : UInt32) (hA : nid ∈ A) (hn : nid.toNat < 262144) :
    ∃ s', Reaches nid (Function.update f nid ⟨invalidNid,next⟩)
      (j.appendSuperBlockJournalEntry ⟨UInt32.ofNat nextFreeNidOff,nid⟩) (A \ {nid}) (insert nid F) js
      s' := by
  obtain ⟨m,hop,hm⟩ := h.shows'.free hn
  refine ⟨_,h.run.tail (.free ?_ hop),hm,?_,?_,h.committed⟩
  · rw [h.allocated]
    exact hA
  · simp only [h.allocated]
  · simp only [h.freed]

theorem Reaches.commit (h : Reaches next f j A F js s) (hj : j.isEmpty = false) :
    ∃ s', Reaches next f JournalContainer.init A F (js ++ [j]) s' ∧ s'.saved = s.now := by
  refine ⟨_,⟨h.run.tail (.commit ?_),h.shows'.commit,h.allocated,h.freed,?_⟩,rfl⟩
  · rw [h.shows'.journal]
    exact hj
  · simp only [h.committed,h.shows'.journal]

end Reaches

theorem small_two : (loadMeta smallDisk).nat 2 = ⟨0,3⟩ := small_nat (i := 2) (by decide) (by decide)

theorem small_three : (loadMeta smallDisk).nat 3 = ⟨0,4⟩ := small_nat (i := 3) (by decide) (by decide)

theorem small_freed : ∃ h : NidHistory,
    Relation.ReflTransGen (NidHistoryStep smallAreas smallDisk) (.mounted smallDisk {1}) h ∧
    h.committed = [nodesCreated,nodesFreed] ∧ 2 ∈ h.saved.freed := by
  obtain ⟨s₁,r₁⟩ := small_reaches.alloc 3 (by decide) (by decide) (by rw [small_two])
    (by decide)
  obtain ⟨s₂,r₂⟩ := r₁.setLpa 2 2561 (Or.inl rfl) (by decide) (by decide)
  obtain ⟨s₃,r₃⟩ := r₂.alloc 4 (by decide) (by decide) (by
    rw [Function.update_of_ne (by decide),Function.update_of_ne (by decide),small_three]) (by decide)
  obtain ⟨s₄,r₄⟩ := r₃.setLpa 3 2562 (Or.inl rfl) (by decide) (by decide)
  obtain ⟨s₅,r₅,_⟩ := r₄.commit rfl
  obtain ⟨s₆,r₆⟩ := r₅.free 2 (Or.inr (Or.inl rfl)) (by decide)
  obtain ⟨s₇,r₇⟩ := r₆.free 3 ⟨Or.inl rfl,by decide⟩ (by decide)
  obtain ⟨s₈,r₈,hsaved⟩ := r₇.commit rfl
  refine ⟨s₈,r₈.run,?_,?_⟩
  · rw [r₈.committed]
    simp only [Function.update_self,JournalContainer.appendNatJournalEntry,
      JournalContainer.appendSuperBlockJournalEntry,JournalContainer.init]
    rfl
  · rw [hsaved,r₇.freed]
    exact Or.inr (Or.inl rfl)

def creationUndone : JournalContainer :=
  ⟨[⟨128,3⟩,⟨128,4⟩,⟨128,3⟩],[⟨2,⟨2,2561⟩⟩],[],0⟩

theorem small_undone : ∃ h : NidHistory,
    Relation.ReflTransGen (NidHistoryStep smallAreas smallDisk) (.mounted smallDisk {1}) h ∧
    h.committed = [creationUndone] ∧ (∀ nid, nid ∈ h.saved.freed ↔ nid = 3) ∧
    h.saved.fs.nat 3 = ⟨0,4⟩ := by
  obtain ⟨s₁,r₁⟩ := small_reaches.alloc 3 (by decide) (by decide) (by rw [small_two]) (by decide)
  obtain ⟨s₂,r₂⟩ := r₁.setLpa 2 2561 (Or.inl rfl) (by decide) (by decide)
  obtain ⟨s₃,r₃⟩ := r₂.alloc 4 (by decide) (by decide) (by
    rw [Function.update_of_ne (by decide),Function.update_of_ne (by decide),small_three]) (by decide)
  obtain ⟨s₄,r₄⟩ := r₃.free 3 (Or.inl rfl) (by decide)
  obtain ⟨s₅,r₅,hsaved⟩ := r₄.commit rfl
  refine ⟨s₅,r₅.run,?_,fun nid => ?_,?_⟩
  · rw [r₅.committed]
    simp only [Function.update_self,JournalContainer.appendNatJournalEntry,
      JournalContainer.appendSuperBlockJournalEntry,JournalContainer.init]
    rfl
  · rw [hsaved,r₄.freed]
    simp
  · rw [hsaved,r₄.shows'.nat,Function.update_self]
    rfl

theorem free_nid_list_recovered_small : ∃ (h : NidHistory) (s : Sys) (d' : CommDev),
    Relation.ReflTransGen (NidHistoryStep smallAreas smallDisk) (.mounted smallDisk {1}) h ∧
    commitAll inOrderKhash (fileSystemManagerSetup (fun _ => Buf.zero) smallDisk) h.committed = some s ∧
    commSubmitFsRecoverFromDbRequest 2 s.dev = some (d',none) ∧ 3 ∈ h.saved.freed ∧
    ∃ l, Threaded (fun nid => ((loadMeta d').nat nid).blockAddr) invalidNid
        ((loadMeta d').field nextFreeNidOff) l ∧ l.Nodup ∧
      (∀ nid ∈ l, nid ∉ h.saved.allocated) ∧ ∀ nid ∈ h.saved.freed, nid ∈ l := by
  obtain ⟨h,hrun,hjs,hfreed,hthree⟩ := small_undone
  obtain ⟨hL,hs,hz,_⟩ := smallDisk_ok
  have hone : ∀ j ∈ h.committed, journalBlockNum inOrderKhash j = 1 := by
    rw [hjs]
    intro j hj
    rw [List.mem_singleton.mp hj]
    exact blockNum_one (by decide +kernel)
  have hnum : historyBlockNum inOrderKhash h.committed = 1 := by
    rw [historyBlockNum_one hone,hjs]
    rfl
  obtain ⟨s,hcommit⟩ := commitAll_some (setup_at hL hs fun _ => Buf.zero).1
    (fun j hj => (hone j hj).trans_lt (show 1 < smallAreas.journalSize by decide))
  obtain ⟨d',hrec,hlist⟩ := free_nid_list_recovered smallAreas inOrderKhash smallDisk hL 0 hs smallLayout
    (calculateLayout_areas loadMeta_small.calculated (by decide)) {1} small_nidInv h hrun
    (fun _ => Buf.zero) s hcommit s.dev (CrashImage.refl _ _) (by rw [hnum]; decide)
    (Or.inr (by rw [hz]; rfl)) (fun nid hnid => by
      rw [(hfreed nid).mp hnid,hjs]
      exact ⟨by decide,by rw [small_three,hthree]⟩) 2 (by rw [hjs]; decide)
  exact ⟨h,s,d',hrun,hcommit,hrec,(hfreed 3).mpr rfl,hlist⟩

theorem nodes_blockNum : ∀ j ∈ [nodesCreated,nodesFreed], journalBlockNum inOrderKhash j = 1 := by
  intro j hj
  apply blockNum_one
  rcases List.mem_cons.mp hj with rfl | hj
  · decide +kernel
  · rw [List.mem_singleton.mp hj]
    decide +kernel

theorem nodes_loggable {h : NidHistory}
    (hrun : Relation.ReflTransGen (NidHistoryStep smallAreas smallDisk) (.mounted smallDisk {1}) h) :
    ∀ j ∈ h.committed, j.Loggable smallAreas smallDisk :=
  loggable_of_concat (historyRun_inv (calculateLayout_areas loadMeta_small.calculated (by decide)) rfl
    (mounted_inv small_nidInv) hrun).saved.loggable

theorem nidOrEnd_small {i : Nat} (hi : i < 32768) : (nidOrEnd smallLayout i).toNat = i :=
  nidOrEnd_toNat (by decide) hi

theorem freed_recovered (hlog : ∀ j ∈ [nodesCreated,nodesFreed], j.Loggable smallAreas smallDisk) :
    ∃ s d', commitAll inOrderKhash (fileSystemManagerSetup (fun _ => Buf.zero) smallDisk)
        [nodesCreated,nodesFreed] = some s ∧
      commSubmitFsRecoverFromDbRequest 3 s.dev = some (d',none) ∧
      (loadMeta d').field nextFreeNidOff = 3 ∧ (loadMeta d').nat 3 = ⟨3,2562⟩ ∧
      ∀ i, 2562 ≤ i → i < 32768 →
        (loadMeta d').nat (nidOrEnd smallLayout i) = ⟨0,nidOrEnd smallLayout (i + 1)⟩ := by
  obtain ⟨hL,hs,_,_⟩ := smallDisk_ok
  obtain ⟨s,d',hcommit,hrec,hd',hLs⟩ := small_history_remounted nodes_blockNum (by decide) hlog
  have hm := hs.1
  rw [← layoutOf_history hlog ⟨smallDisk.blocks 0,smallDisk.blocks⟩] at hm
  refine ⟨s,d',hcommit,hrec,?_,?_,fun i hlo hi => ?_⟩
  · rw [hd'.loadMeta_field (Or.inr (by decide))]
    refine (superField_history hL hlog ⟨smallDisk.blocks 0,smallDisk.blocks⟩
      (UInt32.ofNat nextFreeNidOff) (by decide)).trans ?_
    decide +kernel
  · have hout : lastEntry NatJournalEntry.nid 3 (natJournalOutputVector nodesCreated.natJournal) =
        some ⟨3,⟨3,2562⟩⟩ := by decide +kernel
    rw [hd'.loadMeta_nat hLs hm (by unfold NidInRange; decide),List.foldl_cons,
      natOf_history_kept hL (fun j hj => hlog j (List.mem_cons_of_mem _ hj)) _ (by decide),
      (applyContainer_replayed hL _ (hlog _ List.mem_cons_self) _).nats,hout]
    rfl
  · have hto := nidOrEnd_small hi
    have hin : NidInRange smallAreas (nidOrEnd smallLayout i) := by
      unfold NidInRange
      rw [hto]
      exact Nat.div_lt_of_lt_mul (lt_of_lt_of_le hi (by decide))
    have hout : ∀ j ∈ [nodesCreated,nodesFreed], ∀ e ∈ j.natJournal, e.nid ≠ nidOrEnd smallLayout i := by
      have hsmall : ∀ j ∈ [nodesCreated,nodesFreed], ∀ e ∈ j.natJournal, e.nid.toNat ≤ 3 := by decide
      intro j hj e he heq
      have hle := hsmall j hj e he
      rw [heq] at hle
      omega
    rw [hd'.loadMeta_nat hLs hm hin,natOf_history_kept hL hlog _ hout,← loadMeta_nat hL hs.1 hin]
    have heq : nidOrEnd smallLayout i = UInt32.ofNat i := if_pos hi
    rw [heq,small_nat hi (by omega)]
    rfl

theorem freed_nid_lost : ∃ (h : NidHistory) (s : Sys) (d' : CommDev),
    NidInv smallLayout ⟨loadMeta smallDisk,{1}⟩ ∧
    Relation.ReflTransGen (NidHistoryStep smallAreas smallDisk) (.mounted smallDisk {1}) h ∧
    commitAll inOrderKhash (fileSystemManagerSetup (fun _ => Buf.zero) smallDisk) h.committed = some s ∧
    commSubmitFsRecoverFromDbRequest 3 s.dev = some (d',none) ∧
    ¬ ∃ l, Threaded (fun nid => ((loadMeta d').nat nid).blockAddr) invalidNid
          ((loadMeta d').field nextFreeNidOff) l ∧ l.Nodup ∧
        (∀ nid ∈ l, nid ∉ h.saved.allocated) ∧ ∀ nid ∈ h.saved.freed, nid ∈ l := by
  obtain ⟨h,hrun,hjs,hfreed⟩ := small_freed
  have hlog := nodes_loggable hrun
  rw [hjs] at hlog
  obtain ⟨s,d',hcommit,hrec,hnext,hthree,hrest⟩ := freed_recovered hlog
  refine ⟨h,s,d',small_nidInv,hrun,by rw [hjs]; exact hcommit,hrec,?_⟩
  rintro ⟨l,hl,_,_,hall⟩
  have hchain : Threaded (fun nid => ((loadMeta d').nat nid).blockAddr) invalidNid
      (nidOrEnd smallLayout 2562) ((List.range' 2562 (32768 - 2562)).map (nidOrEnd smallLayout)) := by
    refine threaded_of_range (nidOrEnd smallLayout) (if_neg (lt_irrefl _)) (by decide)
      (fun i _ hi hz => ?_) (fun i hlo hi => ?_)
    · have hto := nidOrEnd_small hi
      have h0 : (invalidNid : UInt32).toNat = 0 := rfl
      rw [hz] at hto
      omega
    · rw [hrest i hlo hi]
  have hfull := hchain.cons (x := 3) (by decide) (by rw [hthree]; rfl)
  -- nid 2 was freed first; the NAT entry recovered for nid 3 leads past it
  have hmem := hall 2 hfreed
  rw [hnext] at hl
  rw [hl.unique hfull] at hmem
  rcases List.mem_cons.mp hmem with he | hin
  · exact absurd he (by decide)
  · obtain ⟨i,hi,heq⟩ := List.mem_map.mp hin
    rw [List.mem_range'_1] at hi
    have hto := nidOrEnd_small (show i < 32768 by omega)
    rw [heq] at hto
    have h2 : (2 : UInt32).toNat = 2 := rfl
    omega

end Small

end Rtfs
