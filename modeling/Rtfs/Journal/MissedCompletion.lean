import Rtfs.Journal.BlockCount
import Rtfs.Journal.JournalSafety

namespace Rtfs

-- the positions at a poll do not tell that the head has passed the end of the first record:
-- the tail has come round into the part of it that an earlier poll saw consumed
def TransactionJournalRecord.hidden (r : TransactionJournalRecord) (oldHead newHead tail : Nat) : Prop :=
  if r.startLpa < r.endLpa then newHead < oldHead ∧ r.startLpa ≤ tail
  else oldHead < r.endLpa ∧ tail < oldHead ∧ (newHead < oldHead ∨ r.endLpa ≤ newHead)

def JournalRun.hidden (s : JournalRun) : Prop :=
  ∃ r ∈ s.thread.txRecords.head?,
    r.hidden s.thread.proc.headLpa s.dev.metaJournalHeadLpa s.thread.proc.tailLpa

def JournalRun.CompletedTo (s : JournalRun) (n : Nat) : Prop :=
  ∀ c ≤ s.writes.length, writesBlockNum (s.writes.take c) ≤ n → c ≤ s.completed.length

def JournalRun.AllCompleted (s : JournalRun) : Prop := s.CompletedTo s.consumed

def JournalRun.NothingHidden (kh : Khash) (s : JournalRun) (es : List JournalEvent) : Prop :=
  ∀ pre p, pre ++ [.thread] <+: es → s.run kh pre = some p → p.pc = .cplt → ¬ p.hidden

def JournalRun.NothingMissed (kh : Khash) (s : JournalRun) (es : List JournalEvent) : Prop :=
  (∀ pre p p', pre ++ [.thread] <+: es → s.run kh pre = some p → p.pc = .cplt →
    p.step kh .thread = some p' → p'.AllCompleted) ∧
  ∀ pre p, pre <+: es → s.run kh pre = some p →
    p.thread.proc.curAvailLpa = p.thread.proc.totalAvailLpa → p.thread.txRecords = []

section Applied
variable {size s p h e t : Nat}

theorem hidden_iff (r : TransactionJournalRecord) : r.hidden p h t ↔
    r.startLpa < r.endLpa ∧ h < p ∧ r.startLpa ≤ t ∨
      r.endLpa ≤ r.startLpa ∧ p < r.endLpa ∧ t < p ∧ (h < p ∨ r.endLpa ≤ h) := by
  unfold TransactionJournalRecord.hidden
  split_ifs <;> omega

theorem applied_front (base id : Nat) (hs : 0 < size) (hsp : s ≤ p) (hpe : p < e) (hlen : e < s + size) (hph : p ≤ h)
    (hht : h ≤ t) (het : e ≤ t) (htp : t < p + size) :
    e ≤ h ∧ ¬ transactionJournalRecordIsApplied (ringRecord base size id s e) (Ring.slot base size h)
      (Ring.slot base size t) = true ↔
    (ringRecord base size id s e).hidden (Ring.slot base size p) (Ring.slot base size h)
      (Ring.slot base size t) := by
  have bs := Ring.slot_bounds base hs s
  have bp := Ring.slot_bounds base hs p
  have be := Ring.slot_bounds base hs e
  have bh := Ring.slot_bounds base hs h
  have bt := Ring.slot_bounds base hs t
  have hp := Ring.slot_near base hs hsp (by omega)
  have he := Ring.slot_near base hs (show p ≤ e by omega) (by omega)
  have hh := Ring.slot_near base hs hph (by omega)
  have ht := Ring.slot_near base hs (show p ≤ t by omega) htp
  rw [isApplied_iff,hidden_iff]
  simp only [ringRecord]
  rcases Nat.lt_or_ge (Ring.slot base size s) (Ring.slot base size e) with hw | hw
  · simp only [hw,Nat.not_le.mpr hw,true_and,false_and,or_false]
    rcases hh with ch | ch <;> omega
  · simp only [Nat.not_lt.mpr hw,hw,true_and,false_and,false_or]
    rcases ht with ct | ct <;> omega

theorem applied_later (base id : Nat) (hs : 0 < size) (hps : p ≤ s) (hse : s < e) (hlen : e < s + size) (heh : e ≤ h)
    (hht : h ≤ t) (htp : t < p + size) :
    transactionJournalRecordIsApplied (ringRecord base size id s e) (Ring.slot base size h)
      (Ring.slot base size t) = true := by
  have bs := Ring.slot_bounds base hs s
  have be := Ring.slot_bounds base hs e
  have bh := Ring.slot_bounds base hs h
  have bt := Ring.slot_bounds base hs t
  rw [isApplied_iff]
  simp only [ringRecord]
  rcases Ring.slot_near base hs (le_of_lt hse) (by omega) with ce | ce <;>
  rcases Ring.slot_near base hs (show s ≤ h by omega) (by omega) with ch | ch <;>
  rcases Ring.slot_near base hs (show s ≤ t by omega) (by omega) with ct | ct <;> omega

end Applied

section Records
variable {kh : Khash} {base size p h t c : Nat} {ws : List JournalWrite}

def StopsAfter (h c : Nat) (done rest : List JournalWrite) : Prop :=
  ∀ w ws, rest = w :: ws → h < c + writesBlockNum done + w.blockNum

theorem processTxRecord_later (hs : 0 < size) (hp : Placed kh base size c ws) (hpc : p ≤ c) (hch : c ≤ h)
    (ht : t = c + writesBlockNum ws) (hht : h ≤ t) (htp : t < p + size) :
    ∃ done rest, ws = done ++ rest ∧
      journalProcessorProcessTxRecord (Ring.slot base size h) (Ring.slot base size t)
        (recordsFrom base size c ws) =
        (done.map (·.journal.txId),recordsFrom base size (c + writesBlockNum done) rest) ∧
      StopsAfter h c done rest := by
  induction ws generalizing c with
  | nil => exact ⟨[],[],rfl,rfl,fun _ _ he => nomatch he⟩
  | cons w ws ih =>
    obtain ⟨hpos,hlt,_⟩ := hp.1.blockNum
    rw [writesBlockNum_cons] at ht
    rw [recordsFrom,journalProcessorProcessTxRecord]
    by_cases hle : c + w.blockNum ≤ h
    · have ha := applied_later base w.journal.txId hs hpc
        (show c < c + w.blockNum by omega) (by omega) hle hht htp
      obtain ⟨done,rest,rfl,he,hstop⟩ := ih hp.2 (by omega) hle (by omega)
      refine ⟨w :: done,rest,rfl,?_,fun v vs hv => ?_⟩
      · rw [if_pos ha,he,writesBlockNum_cons,Nat.add_assoc]
        rfl
      · have hstop := hstop v vs hv
        rw [writesBlockNum_cons]
        omega
    · have hna : ¬ transactionJournalRecordIsApplied (ringRecord base size w.journal.txId c
          (c + w.blockNum)) (Ring.slot base size h) (Ring.slot base size t) = true :=
        fun ha => hle (applied_sound hs (by omega) hch (by omega) (by omega) ha)
      refine ⟨[],w :: ws,rfl,by rw [if_neg hna]; rfl,fun v vs hv => ?_⟩
      cases hv
      exact Nat.not_le.mp hle

theorem processTxRecord_front {w : JournalWrite} (hs : 0 < size) (hp : Placed kh base size c (w :: ws))
    (hcp : c ≤ p) (hpw : p < c + w.blockNum) (hph : p ≤ h) (ht : t = c + writesBlockNum (w :: ws))
    (hht : h ≤ t) (htp : t < p + size) :
    let hides := (ringRecord base size w.journal.txId c (c + w.blockNum)).hidden (Ring.slot base size p)
      (Ring.slot base size h) (Ring.slot base size t)
    let r := journalProcessorProcessTxRecord (Ring.slot base size h) (Ring.slot base size t)
      (recordsFrom base size c (w :: ws))
    (hides → r = ([],recordsFrom base size c (w :: ws)) ∧ c + w.blockNum ≤ h) ∧
    (¬ hides → ∃ done rest, w :: ws = done ++ rest ∧
      r = (done.map (·.journal.txId),recordsFrom base size (c + writesBlockNum done) rest) ∧
      StopsAfter h c done rest) := by
  intro hides r
  obtain ⟨hpos,hlt,_⟩ := hp.1.blockNum
  rw [writesBlockNum_cons] at ht
  have hfront := applied_front base w.journal.txId hs hcp hpw (by omega) hph hht (by omega) htp
  refine ⟨fun hh => ?_,fun hh => ?_⟩
  · obtain ⟨hle,hna⟩ := hfront.mpr hh
    exact ⟨by simp only [r,recordsFrom,journalProcessorProcessTxRecord,if_neg hna],hle⟩
  · by_cases hle : c + w.blockNum ≤ h
    · have ha : transactionJournalRecordIsApplied (ringRecord base size w.journal.txId c (c + w.blockNum))
          (Ring.slot base size h) (Ring.slot base size t) = true := by
        by_contra hna
        exact hh (hfront.mp ⟨hle,hna⟩)
      obtain ⟨done,rest,rfl,he,hstop⟩ := processTxRecord_later hs hp.2 (le_of_lt hpw) hle (by omega) hht htp
      refine ⟨w :: done,rest,rfl,?_,fun v vs hv => ?_⟩
      · simp only [r,recordsFrom,journalProcessorProcessTxRecord,if_pos ha,he,writesBlockNum_cons,
          List.map_cons,Nat.add_assoc]
        rfl
      · have hstop := hstop v vs hv
        rw [writesBlockNum_cons]
        omega
    · have hna : ¬ transactionJournalRecordIsApplied (ringRecord base size w.journal.txId c
          (c + w.blockNum)) (Ring.slot base size h) (Ring.slot base size t) = true :=
        fun ha => hle (applied_sound hs (by omega) (by omega) (by omega) (by omega) ha)
      refine ⟨[],w :: ws,rfl,?_,fun v vs hv => ?_⟩
      · simp only [r,recordsFrom,journalProcessorProcessTxRecord,if_neg hna]
        rfl
      · cases hv
        exact Nat.not_le.mp hle

end Records

section Poll
variable {kh : Khash} {base size t a : Nat} {s s' : JournalRun}

theorem completedTo_iff {n : Nat} {done rest : List JournalWrite} (hw : s.writes = done ++ rest)
    (hc : s.completed = done.map (·.journal.txId)) : s.CompletedTo n ↔ StopsAfter n 0 done rest := by
  have hlen : s.completed.length = done.length := by rw [hc,List.length_map]
  unfold JournalRun.CompletedTo StopsAfter
  rw [hw,hlen,Nat.zero_add]
  constructor
  · rintro h w ws rfl
    by_contra hle
    have hn := h (done.length + 1) (by simp) (by
      rw [List.take_length_add_append]
      simpa using Nat.not_lt.mp hle)
    omega
  · intro h c hle hcn
    by_contra hlt
    obtain ⟨k,rfl⟩ := Nat.exists_eq_add_of_lt (Nat.not_le.mp hlt)
    rw [Nat.add_assoc,List.take_length_add_append,writesBlockNum_append] at hcn
    cases rest with
    | nil =>
      simp at hle
    | cons w ws =>
      have hn := h w ws rfl
      rw [List.take_succ_cons,writesBlockNum_cons] at hcn
      omega

theorem JournalRun.Ok.base_le (h : s.Ok kh base size t a) : t ≤ a := by
  obtain ⟨done,_,_,_,_,hle⟩ := h.split
  omega

theorem poll_fields (h : s.Ok kh base size t a) (hpc : s.pc = .cplt) (hs : s.stepThread kh = some s') :
    ∃ rs : List Nat × List TransactionJournalRecord, s'.writes = s.writes ∧ s'.consumed = s.consumed ∧
      s'.completed = s.completed ++ rs.1 ∧ (rs = ([],s.thread.txRecords) ∧ a = t + s.consumed ∨
        a < t + s.consumed ∧
        rs = journalProcessorProcessTxRecord (Ring.slot base size (t + s.consumed))
          (Ring.slot base size (t + writesBlockNum s.writes)) s.thread.txRecords) := by
  obtain ⟨p,rs,he,_,_,_,hrs⟩ := processCpltJournal_spec h
  rw [JournalRun.stepThread,hpc,he] at hs
  cases hs
  exact ⟨rs,rfl,rfl,rfl,hrs⟩

theorem hidden_front (h : s.Ok kh base size t a) {c : Nat} {w : JournalWrite} {ws : List JournalWrite}
    (hrecs : s.thread.txRecords = recordsFrom base size c (w :: ws)) :
    s.hidden ↔ (ringRecord base size w.journal.txId c (c + w.blockNum)).hidden (Ring.slot base size a)
      (Ring.slot base size (t + s.consumed)) (Ring.slot base size (t + writesBlockNum s.writes)) := by
  rw [JournalRun.hidden,hrecs,h.thread.ring.head,h.thread.ring.devHead,h.thread.ring.tail]
  simp [recordsFrom]

theorem poll_completed (h : s.Ok kh base size t a) (hc : s.CompletedTo (a - t))
    (hpc : s.pc = .cplt) (hs : s.stepThread kh = some s') : s'.AllCompleted ↔ ¬ s.hidden := by
  obtain ⟨done,rest,hw,hcm,hrecs,hle⟩ := h.split
  have hstop := (completedTo_iff hw hcm).mp hc
  have hat := h.base_le
  obtain ⟨rs,hw',hcons,hcm',hrs⟩ := poll_fields h hpc hs
  have hring := h.thread.ring
  have h1 := hring.polled_le
  have h2 := hring.consumed_le
  have h3 := hring.room
  have hplaced := h.placed
  rw [hw] at hplaced
  have hplaced := placed_drop hplaced
  rw [hcm] at hcm'
  unfold JournalRun.AllCompleted
  cases rest with
  | nil =>
    have hnone : rs.1 = [] := by
      rcases hrs with ⟨rfl,_⟩ | ⟨_,rfl⟩
      · rfl
      · rw [hrecs]
        rfl
    rw [hnone,List.append_nil] at hcm'
    rw [completedTo_iff (hw'.trans hw) hcm',JournalRun.hidden,hrecs]
    exact iff_of_true (fun _ _ he => nomatch he) (fun ⟨_,he,_⟩ => nomatch he)
  | cons w ws =>
    have hfront := hstop w ws rfl
    rw [hidden_front h hrecs]
    rcases hrs with ⟨rfl,ha⟩ | ⟨ha,rfl⟩
    · rw [List.append_nil] at hcm'
      rw [completedTo_iff (hw'.trans hw) hcm',hcons]
      refine iff_of_true (fun v vs hv => ?_) (fun hh => ?_)
      · have hv := hstop v vs hv
        omega
      · obtain ⟨_,hlt,_⟩ := hplaced.1.blockNum
        have htotal : t + writesBlockNum s.writes = t + writesBlockNum done + (w.blockNum + writesBlockNum ws) := by
          rw [hw,writesBlockNum_append,writesBlockNum_cons,Nat.add_assoc]
        have hend := ((applied_front base w.journal.txId hring.pos hle (by omega) (by omega) h1 h2
          (by omega) h3).mpr hh).1
        omega
    · obtain ⟨hhid,hseen⟩ := processTxRecord_front hring.pos hplaced hle
        (show a < t + writesBlockNum done + w.blockNum by omega) h1
        (show t + writesBlockNum s.writes = _ by rw [hw,writesBlockNum_append,Nat.add_assoc]) h2 h3
      rw [← hrecs] at hhid hseen
      by_cases hh : (ringRecord base size w.journal.txId (t + writesBlockNum done)
          (t + writesBlockNum done + w.blockNum)).hidden (Ring.slot base size a)
          (Ring.slot base size (t + s.consumed)) (Ring.slot base size (t + writesBlockNum s.writes))
      · obtain ⟨hr,hend⟩ := hhid hh
        rw [hr,List.append_nil] at hcm'
        rw [completedTo_iff (hw'.trans hw) hcm',hcons]
        refine iff_of_false (fun hall => ?_) (not_not_intro hh)
        have hlt := hall w ws rfl
        omega
      · obtain ⟨done',rest',hsplit,hr,hlast⟩ := hseen hh
        rw [hr,← List.map_append] at hcm'
        have hall : s'.writes = (done ++ done') ++ rest' := by rw [hw',hw,hsplit,List.append_assoc]
        rw [completedTo_iff hall hcm',hcons]
        refine iff_of_true (fun v vs hv => ?_) hh
        have hlt := hlast v vs hv
        rw [writesBlockNum_append]
        omega

theorem completedTo_keeps (h : s.Ok kh base size t a) (h' : s'.Ok kh base size t a)
    (hc : s.CompletedTo (a - t)) (hcm : s'.completed = s.completed) (hw : s.writes <+: s'.writes) :
    s'.CompletedTo (a - t) := by
  obtain ⟨ex,hex⟩ := hw
  have hall : a ≤ t + writesBlockNum s.writes := h.thread.ring.polled_le.trans h.thread.ring.consumed_le
  have hplaced := h'.placed
  rw [← hex] at hplaced
  have hplaced := placed_drop hplaced
  intro c hle hcn
  rw [hcm]
  rw [← hex] at hle hcn
  by_cases hold : c ≤ s.writes.length
  · rw [List.take_append_of_le_length hold] at hcn
    exact hc c hold hcn
  · obtain ⟨k,rfl⟩ := Nat.exists_eq_add_of_lt (Nat.not_le.mp hold)
    rw [Nat.add_assoc,List.take_length_add_append,writesBlockNum_append] at hcn
    cases ex with
    | nil => simp at hle
    | cons v vs =>
      have hpos := hplaced.1.blockNum.1
      rw [List.take_succ_cons,writesBlockNum_cons] at hcn
      omega

end Poll

section Run
variable {kh : Khash} {mem : Nat → Block} {d : CommDev} {startLpa endLpa pos : Nat} {es : List JournalEvent}

theorem run_append (s : JournalRun) (pre : List JournalEvent) (e : JournalEvent) :
    s.run kh (pre ++ [e]) = (s.run kh pre).bind (fun p => p.step kh e) := by
  rw [JournalRun.run,List.foldlM_append]
  simp [JournalRun.run]

theorem run_prompt (hd : d.EmptyRing startLpa endLpa pos)
    (hpoll : ∀ pre p p' a, pre ++ [.thread] <+: es →
      (JournalRun.start mem d startLpa endLpa pos).run kh pre = some p → p.pc = .cplt →
      p.Ok kh startLpa (endLpa - startLpa) (pos - startLpa) a → p.CompletedTo (a - (pos - startLpa)) →
      p.step kh .thread = some p' → p'.AllCompleted) (pre : List JournalEvent) (hpre : pre <+: es)
    {p : JournalRun} (hp : (JournalRun.start mem d startLpa endLpa pos).run kh pre = some p) :
    ∃ a, p.Ok kh startLpa (endLpa - startLpa) (pos - startLpa) a ∧ p.CompletedTo (a - (pos - startLpa)) := by
  induction pre using List.reverseRecOn generalizing p with
  | nil =>
    cases hp
    exact ⟨_,start_ok hd,fun c hc _ => hc⟩
  | append_singleton pre e ih =>
    rw [run_append] at hp
    obtain ⟨q,hq,he⟩ := Option.bind_eq_some_iff.mp hp
    obtain ⟨a,hok,hc⟩ := ih ((List.prefix_append _ _).trans hpre) hq
    by_cases hcplt : e = .thread ∧ q.pc = .cplt
    · obtain ⟨rfl,hpc⟩ := hcplt
      have hall := hpoll pre q p a hpre hq hpc hok hc he
      obtain ⟨_,_,hcons,_⟩ := poll_fields hok hpc he
      refine ⟨_,step_cplt hok hpc he,?_⟩
      rw [Nat.add_sub_cancel_left,← hcons]
      exact hall
    · obtain ⟨hok',hcm,hw⟩ := step_keeps hok (fun h1 h2 => hcplt ⟨h1,h2⟩) he
      exact ⟨a,hok',completedTo_keeps hok hok' hc hcm hw⟩

theorem records_empty {base size t a : Nat} {s : JournalRun} (h : s.Ok kh base size t a)
    (hc : s.CompletedTo (a - t)) (hav : s.thread.proc.curAvailLpa = s.thread.proc.totalAvailLpa) :
    s.thread.txRecords = [] := by
  obtain ⟨done,rest,hw,hcm,hrecs,hle⟩ := h.split
  have hring := h.thread.ring
  have h1 := hring.avail
  have h2 := hring.total
  have h3 := hring.room
  have hlen := hc s.writes.length le_rfl (by rw [List.take_length]; omega)
  have hnil : rest = [] := by
    apply List.eq_nil_of_length_eq_zero
    rw [hw,hcm,List.length_append,List.length_map] at hlen
    omega
  rw [hrecs,hnil]
  rfl

theorem completions_seen_iff (hd : d.EmptyRing startLpa endLpa pos) (es : List JournalEvent) :
    (JournalRun.start mem d startLpa endLpa pos).NothingHidden kh es ↔
      (JournalRun.start mem d startLpa endLpa pos).NothingMissed kh es := by
  constructor
  · intro hseen
    have hpoll : ∀ pre p p' a, pre ++ [.thread] <+: es →
        (JournalRun.start mem d startLpa endLpa pos).run kh pre = some p → p.pc = .cplt →
        p.Ok kh startLpa (endLpa - startLpa) (pos - startLpa) a →
        p.CompletedTo (a - (pos - startLpa)) → p.step kh .thread = some p' → p'.AllCompleted :=
      fun pre p p' a hpre hp hpc hok hc hs =>
        (poll_completed hok hc hpc hs).mpr (hseen pre p hpre hp hpc)
    refine ⟨fun pre p p' hpre hp hpc hs => ?_,fun pre p hpre hp hav => ?_⟩
    · obtain ⟨a,hok,hc⟩ := run_prompt hd hpoll pre ((List.prefix_append _ _).trans hpre) hp
      exact hpoll pre p p' a hpre hp hpc hok hc hs
    · obtain ⟨a,hok,hc⟩ := run_prompt hd hpoll pre hpre hp
      exact records_empty hok hc hav
  · rintro ⟨hall,-⟩ pre p hpre hp hpc
    obtain ⟨a,hok,hc⟩ := run_prompt hd (fun pre p p' _ hpre hp hpc _ _ hs => hall pre p p' hpre hp hpc hs) pre
      ((List.prefix_append _ _).trans hpre) hp
    obtain ⟨p',hs⟩ : ∃ p', p.step kh .thread = some p' := by
      rw [JournalRun.step,JournalRun.stepThread,hpc]
      exact ⟨_,rfl⟩
    exact (poll_completed hok hc hpc hs).mp (hall pre p p' hpre hp hpc hs)

end Run

section Late

theorem completions_seen_late : ringStart.NothingHidden inOrderKhash (lateRun ++ [.thread]) ↔
    ringStart.NothingMissed inOrderKhash (lateRun ++ [.thread]) :=
  completions_seen_iff ringDisk_ring (lateRun ++ [.thread])

theorem completion_missed : ¬ ringStart.NothingMissed inOrderKhash (lateRun ++ [.thread]) ∧
    ∃ q, ringStart.run inOrderKhash (lateRun ++ [.thread,.stop,.thread]) = some q ∧ q.pc = .exited ∧
      q.writes.map JournalWrite.blockNum = [2,2] ∧ q.consumed = 4 ∧ q.completed = [] := by
  have hlast : (ringStart.run inOrderKhash (lateRun ++ [.thread])).map (fun s =>
      (s.thread.proc.curAvailLpa,s.thread.proc.totalAvailLpa,s.thread.txRecords.length)) =
      some (3,3,2) := by decide +kernel
  have hexit : (ringStart.run inOrderKhash (lateRun ++ [.thread,.stop,.thread])).map
      (fun s => (s.pc,s.writes.map JournalWrite.blockNum,s.consumed,s.completed)) =
      some (.exited,[2,2],4,[]) := by decide +kernel
  obtain ⟨p,hp,hv⟩ := Option.map_eq_some_iff.mp hlast
  obtain ⟨q,hq,hqv⟩ := Option.map_eq_some_iff.mp hexit
  simp only [Prod.mk.injEq] at hv hqv
  refine ⟨fun h => ?_,q,hq,hqv⟩
  have hnil := h.2 _ p List.prefix_rfl hp (hv.1.trans hv.2.1.symm)
  have hlen := hv.2.2
  rw [hnil] at hlen
  cases hlen

end Late

end Rtfs
