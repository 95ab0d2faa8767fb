import Rtfs.Journal.JournalSafety

namespace Rtfs

def JournalEvent.quiet : JournalEvent → Bool
  | .commit _ => false
  | _ => true

namespace JournalRun

def Leads (kh : Khash) (s s' : JournalRun) : Prop :=
  ∃ es : List JournalEvent, (∀ e ∈ es, e.quiet = true) ∧ s.run kh es = some s'

def CanWrite (kh : Khash) (s : JournalRun) (j : JournalContainer) : Prop :=
  ∃ s', Leads kh s s' ∧ j ∈ s'.writes.map (·.journal)

def CanExit (kh : Khash) (s : JournalRun) : Prop := ∃ s', Leads kh s s' ∧ s'.pc = .exited

end JournalRun

section Leads
variable {kh : Khash} {s s₁ s₂ : JournalRun}

theorem JournalRun.Leads.refl : JournalRun.Leads kh s s := ⟨[],(fun _ he => nomatch he),rfl⟩

theorem JournalRun.Leads.trans (h : JournalRun.Leads kh s s₁) (h' : JournalRun.Leads kh s₁ s₂) :
    JournalRun.Leads kh s s₂ := by
  obtain ⟨es,hq,hr⟩ := h
  obtain ⟨es',hq',hr'⟩ := h'
  refine ⟨es ++ es',fun e he => (List.mem_append.mp he).elim (hq e) (hq' e),?_⟩
  rw [JournalRun.run,List.foldlM_append]
  exact (congrArg (fun r => r.bind (JournalRun.run · kh es')) hr).trans hr'

theorem JournalRun.Leads.step {e : JournalEvent} (hq : e.quiet = true) (hs : s.step kh e = some s₁) :
    JournalRun.Leads kh s s₁ := by
  refine ⟨[e],fun _ he => List.mem_singleton.mp he ▸ hq,?_⟩
  rw [JournalRun.run,List.foldlM_cons,hs]
  rfl

theorem quiet_committed {e : JournalEvent} (hq : e.quiet = true) (hs : s.step kh e = some s₁) :
    s₁.committed = s.committed := by
  cases e with
  | commit j => cases hq
  | stop =>
    cases hs
    rfl
  | consume n => exact (consume_fields hs).1
  | thread => exact (thread_fields hs).1

theorem run_committed {es : List JournalEvent} (hs : s.run kh es = some s₁) : s.committed <+: s₁.committed := by
  induction es generalizing s with
  | nil =>
    cases hs
    exact List.prefix_rfl
  | cons e es ih =>
    rw [JournalRun.run,List.foldlM_cons] at hs
    obtain ⟨s₂,h₂,hs⟩ := Option.bind_eq_some_iff.mp hs
    refine List.IsPrefix.trans ?_ (ih hs)
    cases e with
    | commit j =>
      simp only [JournalRun.step] at h₂
      split at h₂
      · cases h₂
      · cases h₂
        exact List.prefix_append _ _
    | _ => exact (quiet_committed rfl h₂).symm ▸ List.prefix_rfl

theorem JournalRun.Leads.committed (h : JournalRun.Leads kh s s₁) : s₁.committed = s.committed := by
  obtain ⟨es,hq,hr⟩ := h
  induction es generalizing s with
  | nil =>
    cases hr
    rfl
  | cons e es ih =>
    rw [JournalRun.run,List.foldlM_cons] at hr
    obtain ⟨s₂,h₂,hr⟩ := Option.bind_eq_some_iff.mp hr
    exact (ih (fun e he => hq e (List.mem_cons_of_mem _ he)) hr).trans
      (quiet_committed (hq e List.mem_cons_self) h₂)

end Leads

structure JournalRun.Settled (kh : Khash) (base size t : Nat) (s : JournalRun) : Prop where
  ok : s.Ok kh base size t (t + writesBlockNum s.writes)
  caught : s.consumed = writesBlockNum s.writes
  pc : s.pc = .fetch

section Steps
variable {kh : Khash} {base size t a : Nat} {s : JournalRun}

def JournalRun.rest (s : JournalRun) : List JournalContainer := s.thread.todo ++ s.env.commitQueue

theorem consume_all (h : s.Ok kh base size t a) : ∃ s',
    s.step kh (.consume (writesBlockNum s.writes - s.consumed)) = some s' ∧
    s'.Ok kh base size t a ∧ s'.consumed = writesBlockNum s.writes ∧ s'.writes = s.writes ∧ s'.pc = s.pc ∧
    s'.rest = s.rest ∧ s'.completed = s.completed ∧ s'.thread = s.thread := by
  have hr := h.thread.ring
  have h1 := hr.polled_le
  have h2 := hr.consumed_le
  have h3 := hr.room
  have hle : writesBlockNum s.writes - s.consumed ≤ ringBlocks s.dev.metaJournalStartLpa
      s.dev.metaJournalEndLpa s.dev.metaJournalHeadLpa s.dev.metaJournalTailLpa := by
    rw [hr.devStart,hr.devEnd,hr.devHead,hr.devTail,ringBlocks_slot hr.pos h2 (by omega)]
    omega
  have hs : s.step kh (.consume (writesBlockNum s.writes - s.consumed)) = some { s with
      dev := s.dev.keepHead ((Ring.next s.dev.metaJournalStartLpa (s.dev.metaJournalEndLpa -
        s.dev.metaJournalStartLpa))^[writesBlockNum s.writes - s.consumed] s.dev.metaJournalHeadLpa)
      consumed := s.consumed + (writesBlockNum s.writes - s.consumed) } := if_pos hle
  refine ⟨_,hs,(step_keeps (e := .consume _) h (fun he => nomatch he) hs).1,?_,rfl,rfl,rfl,rfl,rfl⟩
  change s.consumed + (writesBlockNum s.writes - s.consumed) = _
  omega

theorem one_record (id : Nat) {c : Nat} : journalProcessorProcessTxRecord
    (Ring.slot base size c) (Ring.slot base size c) [ringRecord base size id a c] = ([id],[]) := by
  have ha : transactionJournalRecordIsApplied (ringRecord base size id a c) (Ring.slot base size c)
      (Ring.slot base size c) = true := by
    rw [isApplied_iff]
    simp only [ringRecord]
    omega
  rw [journalProcessorProcessTxRecord,if_pos ha]
  rfl

theorem poll (h : s.Ok kh base size t a) (hpc : s.pc = .cplt) : ∃ s', s.step kh .thread = some s' ∧
    s'.Ok kh base size t (t + s.consumed) ∧ s'.consumed = s.consumed ∧ s'.writes = s.writes ∧
    s'.pc = .fetch ∧ s'.rest = s.rest ∧
    ∀ id, a < t + s.consumed → s.consumed = writesBlockNum s.writes →
      s.thread.txRecords = [ringRecord base size id a (t + s.consumed)] →
      s'.completed = s.completed ++ [id] ∧ s'.thread.txRecords = [] := by
  obtain ⟨p,rs,he,_,_,_,hrs⟩ := processCpltJournal_spec h
  have hs : s.step kh .thread = some { s with
      thread := { s.thread with proc := p,txRecords := rs.2 }
      pc := .fetch
      completed := s.completed ++ rs.1 } := by
    rw [JournalRun.step,JournalRun.stepThread,hpc]
    simp only [he]
  refine ⟨_,hs,step_cplt h hpc hs,rfl,rfl,rfl,rfl,fun id hlt hall hone => ?_⟩
  rcases hrs with ⟨_,ha⟩ | ⟨_,hrs⟩
  · omega
  · rw [← hall,hone,one_record] at hrs
    rw [hrs]
    exact ⟨rfl,rfl⟩

theorem settle_cplt (h : s.Ok kh base size t a) (hpc : s.pc = .cplt) :
    ∃ s', JournalRun.Leads kh s s' ∧ s'.Settled kh base size t := by
  obtain ⟨s₁,hs₁,h₁,hall,hw₁,hpc₁,_⟩ := consume_all h
  obtain ⟨s₂,hs₂,h₂,hc₂,hw₂,hpc₂,_⟩ := poll h₁ (hpc₁.trans hpc)
  refine ⟨s₂,(JournalRun.Leads.step rfl hs₁).trans (JournalRun.Leads.step rfl hs₂),?_,?_,hpc₂⟩
  · rw [hw₂,hw₁,← hall]
    exact h₂
  · rw [hc₂,hall,hw₂,hw₁]

theorem settle_pending (h : s.Ok kh base size t a) (hpc : s.pc = .pending) :
    ∃ s', JournalRun.Leads kh s s' ∧ s'.Settled kh base size t := by
  obtain ⟨r,hr,hout⟩ := JournalProcessThread.processPendingJournal_spec h.thread
  have hs : s.step kh .thread = some { s with
      thread := r.1,dev := r.2.1,pc := .cplt,writes := s.writes ++ r.2.2 } := by
    rw [JournalRun.step,JournalRun.stepThread,hpc,hr]
    rfl
  obtain ⟨s',hl,hset⟩ := settle_cplt (step_pending h hout) rfl
  exact ⟨s',(JournalRun.Leads.step rfl hs).trans hl,hset⟩

theorem fetch_asked (hpc : s.pc = .fetch) (hask : s.env.exitReq = true) :
    ∃ s', s.step kh .thread = some s' ∧ (s'.pc = .exited ∨ s'.pc = .pending) := by
  rw [JournalRun.step,JournalRun.stepThread]
  simp only [hpc]
  cases hf : s.thread.fetchNewJournal s.env with
  | fetched env th => exact ⟨_,rfl,.inr rfl⟩
  | interrupted env => exact ⟨_,rfl,.inl rfl⟩
  | wait =>
    unfold JournalProcessThread.fetchNewJournal at hf
    split_ifs at hf <;> cases hf

theorem settle_fetch (h : s.Ok kh base size t a) (hpc : s.pc = .fetch) :
    ∃ s', JournalRun.Leads kh s s' ∧ (s'.pc = .exited ∨ s'.Settled kh base size t) := by
  have hstop : s.step kh .stop = some { s with env := s.env.stopProcessThread,stopped := true } := rfl
  have h₁ := (step_keeps (e := .stop) h (fun he => nomatch he) hstop).1
  obtain ⟨s₂,hs₂,hpc₂⟩ :=
    @fetch_asked kh { s with env := s.env.stopProcessThread,stopped := true } hpc rfl
  have hlead := (JournalRun.Leads.step rfl hstop).trans (JournalRun.Leads.step rfl hs₂)
  rcases hpc₂ with hpc₂ | hpc₂
  · exact ⟨s₂,hlead,.inl hpc₂⟩
  · have h₂ := (step_keeps h₁ (fun _ hx => ThreadPc.noConfusion (hpc.symm.trans hx)) hs₂).1
    obtain ⟨s',hl,hset⟩ := settle_pending h₂ hpc₂
    exact ⟨s',hlead.trans hl,.inr hset⟩

theorem settle (h : s.Ok kh base size t a) :
    ∃ s', JournalRun.Leads kh s s' ∧ (s'.pc = .exited ∨ s'.Settled kh base size t) := by
  cases hpc : s.pc with
  | fetch => exact settle_fetch h hpc
  | pending =>
    obtain ⟨s',hl,hset⟩ := settle_pending h hpc
    exact ⟨s',hl,.inr hset⟩
  | cplt =>
    obtain ⟨s',hl,hset⟩ := settle_cplt h hpc
    exact ⟨s',hl,.inr hset⟩
  | exited => exact ⟨s,JournalRun.Leads.refl,.inl hpc⟩

end Steps

section Rounds
variable {kh : Khash} {base size t : Nat} {s : JournalRun}

theorem JournalRun.Settled.avail (h : s.Settled kh base size t) :
    s.thread.proc.curAvailLpa = size - 1 ∧ s.thread.proc.totalAvailLpa = size - 1 := by
  have hav := h.ok.thread.ring.avail
  rw [Nat.sub_self,Nat.sub_zero] at hav
  exact ⟨hav,h.ok.thread.ring.total⟩

theorem fetch_idle (h : s.Settled kh base size t) (hask : s.env.exitReq = true) (hrest : s.rest = []) :
    ∃ s', s.step kh .thread = some s' ∧ s'.pc = .exited := by
  obtain ⟨htodo,hqueue⟩ := List.append_eq_nil_iff.mp hrest
  obtain ⟨hcur,hpend⟩ := List.append_eq_nil_iff.mp htodo
  obtain ⟨hav,htot⟩ := h.avail
  have hidle : ¬ s.thread.isWorking = true := by
    rw [JournalProcessThread.isWorking,hav,htot,hpend,Option.toList_eq_nil_iff.mp hcur]
    simp
  have hf : s.thread.fetchNewJournal s.env = .interrupted { s.env with exitReq := false } := by
    rw [JournalProcessThread.fetchNewJournal,if_neg hidle,if_pos (by rw [hqueue]; rfl),if_pos hask]
  rw [JournalRun.step,JournalRun.stepThread]
  simp only [h.pc,hf]
  exact ⟨_,rfl,rfl⟩

theorem fetch_some (h : s.Settled kh base size t) (hrest : s.rest ≠ []) : ∃ env th,
    s.thread.fetchNewJournal s.env = .fetched env th ∧ th.todo ≠ [] ∧ th.todo ++ env.commitQueue = s.rest := by
  obtain ⟨hav,htot⟩ := h.avail
  have hconcat : ∃ env th, s.thread.concat s.env = .fetched env th ∧ th.todo ≠ [] ∧
      th.todo ++ env.commitQueue = s.rest := by
    have htodo : JournalProcessThread.todo { s.thread with
        pendingJournalList := s.thread.pendingJournalList ++ s.env.commitQueue } = s.rest := by
      rw [JournalRun.rest,JournalProcessThread.todo,JournalProcessThread.todo,List.append_assoc]
    exact ⟨_,_,rfl,htodo ▸ hrest,by rw [htodo,List.append_nil]⟩
  unfold JournalProcessThread.fetchNewJournal
  by_cases hq : s.env.commitQueue.isEmpty = true
  · have hnil := List.isEmpty_iff.mp hq
    rw [JournalRun.rest,hnil,List.append_nil] at hrest
    have hwork : s.thread.isWorking = true := by
      by_contra hidle
      exact hrest (todo_of_idle hidle)
    rw [if_pos hwork,if_pos hq]
    exact ⟨_,_,rfl,hrest,rfl⟩
  · rw [if_neg hq,if_neg hq,ite_self]
    exact hconcat

theorem fetch_step (h : s.Settled kh base size t) (hrest : s.rest ≠ []) : ∃ s',
    s.step kh .thread = some s' ∧ s'.Ok kh base size t (t + writesBlockNum s.writes) ∧ s'.pc = .pending ∧
    s'.thread.todo ≠ [] ∧ s'.rest = s.rest ∧ s'.writes = s.writes ∧ s'.consumed = s.consumed ∧
    s'.completed = s.completed ∧ s'.thread.txRecords = s.thread.txRecords := by
  obtain ⟨env,th,hf,hne,htodo⟩ := fetch_some h hrest
  have hrec : th.txRecords = s.thread.txRecords := by
    have hspec := @fetchNewJournal_spec s.thread s.env
    rw [hf] at hspec
    cases hspec with
    | fetched _ _ _ _ hrec _ => exact hrec
  have hs : s.step kh .thread = some { s with env := env,thread := th,pc := .pending } := by
    rw [JournalRun.step,JournalRun.stepThread]
    simp only [h.pc,hf]
    rfl
  have hok := (step_keeps h.ok (fun _ hx => ThreadPc.noConfusion (h.pc.symm.trans hx)) hs).1
  exact ⟨_,hs,hok,rfl,hne,htodo,rfl,rfl,rfl,hrec⟩

theorem write_step {a : Nat} (h : s.Ok kh base size t a) (ha : a = t + writesBlockNum s.writes)
    (hpc : s.pc = .pending) (hne : s.thread.todo ≠ [])
    (hfit : ∀ j ∈ s.rest, journalBlockNum kh j < size) : ∃ s' w, s.step kh .thread = some s' ∧
      s'.Ok kh base size t a ∧ s'.pc = .cplt ∧ s'.writes = s.writes ++ [w] ∧ s.rest = w.journal :: s'.rest ∧
      s'.consumed = s.consumed ∧ s'.completed = s.completed ∧ 0 < w.blockNum ∧
      s'.thread.txRecords = s.thread.txRecords ++ [ringRecord base size w.journal.txId a (a + w.blockNum)] := by
  obtain ⟨r,hr,hout⟩ := JournalProcessThread.processPendingJournal_spec h.thread
  have hav := h.thread.ring.avail
  rw [← ha,Nat.sub_self,Nat.sub_zero] at hav
  have hs : s.step kh .thread = some { s with
      thread := r.1,dev := r.2.1,pc := .cplt,writes := s.writes ++ r.2.2 } := by
    rw [JournalRun.step,JournalRun.stepThread,hpc,hr]
    rfl
  have hok := step_pending h hout
  cases hout with
  | idle hnone => exact absurd hnone hne
  | @full th₁ j hok' htodo hrec hcur hfull =>
    have hj := hfit j (List.mem_append_left _ (List.mem_of_head? hcur))
    omega
  | @wrote th₁ d₁ w hok' himage htodo hrec hblocks hroom =>
    refine ⟨_,w,hs,hok,rfl,rfl,?_,rfl,rfl,himage.blockNum.1,ha ▸ hrec⟩
    rw [JournalRun.rest,htodo]
    rfl

theorem round_writes (h : s.Settled kh base size t) (hrest : s.rest ≠ [])
    (hfit : ∀ j ∈ s.rest, journalBlockNum kh j < size) : ∃ s₁ s₂ s₃ s' w,
      s.step kh .thread = some s₁ ∧ s₁.step kh .thread = some s₂ ∧
      s₂.step kh (.consume w.blockNum) = some s₃ ∧ s₃.step kh .thread = some s' ∧
      (s₁.completed = s.completed ∧ s₂.completed = s.completed ∧ s₃.completed = s.completed) ∧
      s'.Settled kh base size t ∧ s'.writes = s.writes ++ [w] ∧ s.rest = w.journal :: s'.rest ∧
      (s.thread.txRecords = [] → s'.completed = s.completed ++ [w.journal.txId] ∧
        s'.thread.txRecords = []) := by
  obtain ⟨s₁,hs₁,h₁,hpc₁,hne₁,hrest₁,hw₁,hcon₁,hcmp₁,hrec₁⟩ := fetch_step h hrest
  obtain ⟨s₂,w,hs₂,h₂,hpc₂,hw₂,hrest₂,hcon₂,hcmp₂,hpos,hrec₂⟩ :=
    write_step h₁ (by rw [hw₁]) hpc₁ hne₁ (hrest₁ ▸ hfit)
  obtain ⟨s₃,hs₃,h₃,hcon₃,hw₃,hpc₃,hrest₃,hcmp₃,hth₃⟩ := consume_all h₂
  obtain ⟨s₄,hs₄,h₄,hcon₄,hw₄,hpc₄,hrest₄,hdone⟩ := poll h₃ (hpc₃.trans hpc₂)
  have hnum : writesBlockNum s₂.writes = writesBlockNum s.writes + w.blockNum := by
    rw [hw₂,hw₁,writesBlockNum_append,writesBlockNum_cons,writesBlockNum_nil,Nat.add_zero]
  have hsame₂ : s₂.completed = s.completed := hcmp₂.trans hcmp₁
  have hsame₃ : s₃.completed = s.completed := hcmp₃.trans hsame₂
  rw [hcon₂,hcon₁,h.caught,hnum,Nat.add_sub_cancel_left] at hs₃
  refine ⟨s₁,s₂,s₃,s₄,w,hs₁,hs₂,hs₃,hs₄,⟨hcmp₁,hsame₂,hsame₃⟩,⟨?_,?_,hpc₄⟩,?_,?_,fun hnil => ?_⟩
  · rw [hw₄,hw₃,← hcon₃]
    exact h₄
  · rw [hcon₄,hcon₃,hw₄,hw₃]
  · rw [hw₄,hw₃,hw₂,hw₁]
  · rw [hrest₄,hrest₃,← hrest₂,hrest₁]
  · rw [← hsame₃]
    refine hdone _ ?_ (hcon₃.trans (by rw [hw₃])) ?_
    · rw [hcon₃,hnum]
      omega
    · rw [hth₃,hrec₂,hrec₁,hnil,hcon₃,hnum,Nat.add_assoc]
      rfl

theorem settled_exits (h : s.Settled kh base size t) (hfit : ∀ j ∈ s.rest, journalBlockNum kh j < size) :
    JournalRun.CanExit kh s := by
  generalize hn : s.rest.length = n
  induction n generalizing s with
  | zero =>
    have hstop : s.step kh .stop = some { s with env := s.env.stopProcessThread,stopped := true } := rfl
    have hset : JournalRun.Settled kh base size t
        { s with env := s.env.stopProcessThread,stopped := true } :=
      ⟨(step_keeps (e := .stop) h.ok (fun he => nomatch he) hstop).1,h.caught,h.pc⟩
    obtain ⟨s',hs',hpc⟩ := fetch_idle hset rfl (List.eq_nil_of_length_eq_zero hn)
    exact ⟨s',(JournalRun.Leads.step rfl hstop).trans (JournalRun.Leads.step rfl hs'),hpc⟩
  | succ n ih =>
    have hrest : s.rest ≠ [] := List.ne_nil_of_length_eq_add_one hn
    obtain ⟨s₁,s₂,s₃,s₄,w,hs₁,hs₂,hs₃,hs₄,_,hset,_,hcons,_⟩ := round_writes h hrest hfit
    rw [hcons,List.length_cons] at hn
    obtain ⟨s',hl,hpc⟩ := ih hset (fun j hj => hfit j (hcons ▸ List.mem_cons_of_mem _ hj)) (by omega)
    have hround := ((JournalRun.Leads.step rfl hs₁).trans (JournalRun.Leads.step rfl hs₂)).trans
      ((JournalRun.Leads.step rfl hs₃).trans (JournalRun.Leads.step rfl hs₄))
    exact ⟨s',hround.trans hl,hpc⟩

end Rounds

section Refused
variable {kh : Khash} {base size t a : Nat} {s s' : JournalRun} {j : JournalContainer}

theorem rest_committed (h : s.Ok kh base size t a) {j : JournalContainer} (hj : j ∈ s.rest) :
    j ∈ s.committed := by
  rw [← h.order]
  exact List.mem_append_right _ hj

theorem exits_of_fit (h : s.Ok kh base size t a) (hfit : ∀ j ∈ s.committed, journalBlockNum kh j < size) :
    JournalRun.CanExit kh s := by
  obtain ⟨s₁,hl,hpc | hset⟩ := settle h
  · exact ⟨s₁,hl,hpc⟩
  · obtain ⟨s₂,hl₂,hpc⟩ := settled_exits hset
      (fun j hj => hfit j (hl.committed ▸ rest_committed hset.ok hj))
    exact ⟨s₂,hl.trans hl₂,hpc⟩

theorem oversized_unwritten (h : s.Ok kh base size t a) (hbig : size ≤ journalBlockNum kh j) :
    j ∉ s.writes.map (·.journal) := by
  intro hj
  obtain ⟨w,hw,rfl⟩ := List.mem_map.mp hj
  obtain ⟨c,him⟩ := h.placed.image hw
  obtain ⟨_,hlt,hn⟩ := him.blockNum
  omega

theorem oversized_stays (h : s.Ok kh base size t a) (hj : j ∈ s.committed)
    (hbig : size ≤ journalBlockNum kh j) : s.pc ≠ .exited := by
  intro hx
  have hall := (written_in_order h).2 hx
  exact oversized_unwritten h hbig (hall ▸ hj)

theorem JournalRun.Leads.ok (hl : JournalRun.Leads kh s s') (h : s.Ok kh base size t a) :
    ∃ a', s'.Ok kh base size t a' := by
  obtain ⟨es,_,hr⟩ := hl
  exact run_ok h hr

theorem fit_iff_exits (h : s.Ok kh base size t a) :
    (∀ j ∈ s.committed, journalBlockNum kh j < size) ↔ JournalRun.CanExit kh s := by
  refine ⟨exits_of_fit h,fun hexit j hj => ?_⟩
  obtain ⟨s',hl,hpc⟩ := hexit
  obtain ⟨a',hok⟩ := hl.ok h
  by_contra hbig
  exact oversized_stays hok (hl.committed ▸ hj) (Nat.not_lt.mp hbig) hpc

theorem fit_iff_writes (h : s.Ok kh base size t a) :
    (∀ j ∈ s.committed, journalBlockNum kh j < size) ↔ ∀ j ∈ s.committed, JournalRun.CanWrite kh s j := by
  refine ⟨fun hfit j hj => ?_,fun hwrite j hj => ?_⟩
  · obtain ⟨s',hl,hpc⟩ := exits_of_fit h hfit
    obtain ⟨a',hok⟩ := hl.ok h
    exact ⟨s',hl,(written_in_order hok).2 hpc ▸ hl.committed ▸ hj⟩
  · obtain ⟨s',hl,hw⟩ := hwrite j hj
    obtain ⟨a',hok⟩ := hl.ok h
    by_contra hbig
    exact oversized_unwritten hok (Nat.not_lt.mp hbig) hw

end Refused

end Rtfs
