import Rtfs.Journal.BlockCount
import Rtfs.Journal.RingRun
import Rtfs.Journal.RoundTrip

namespace Rtfs

structure CommDev.EmptyRing (d : CommDev) (startLpa endLpa pos : Nat) : Prop where
  start_le : startLpa ≤ pos
  pos_lt : pos < endLpa
  held : ∀ lpa, startLpa ≤ lpa → lpa < endLpa → d.Holds lpa
  devStart : d.metaJournalStartLpa = startLpa
  devEnd : d.metaJournalEndLpa = endLpa
  devHead : d.metaJournalHeadLpa = pos
  devTail : d.metaJournalTailLpa = pos

structure JournalRun.Ok (kh : Khash) (base size t polled : Nat) (s : JournalRun) : Prop where
  thread : s.thread.Ok kh base size polled (t + s.consumed) (t + writesBlockNum s.writes) s.dev
  placed : Placed kh base size t s.writes
  order : s.writes.map (·.journal) ++ (s.thread.todo ++ s.env.commitQueue) = s.committed
  split : ∃ done rest, s.writes = done ++ rest ∧ s.completed = done.map (·.journal.txId) ∧
    s.thread.txRecords = recordsFrom base size (t + writesBlockNum done) rest ∧
    t + writesBlockNum done ≤ polled
  exitReq : s.env.exitReq = true → s.stopped = true
  exited : s.pc = .exited → s.stopped = true ∧ s.thread.todo ++ s.env.commitQueue = []

section Fetch
variable {th : JournalProcessThread} {env : JournalProcessEnv}

theorem todo_of_idle (h : ¬ th.isWorking = true) : th.todo = [] := by
  unfold JournalProcessThread.isWorking at h
  simp only [Bool.not_eq_true,Bool.not_eq_false',Bool.and_eq_true,decide_eq_true_eq,
    List.isEmpty_iff,Option.isNone_iff_eq_none] at h
  rw [JournalProcessThread.todo,h.2,h.1.2]
  rfl

inductive FetchOutcome (env : JournalProcessEnv) (th : JournalProcessThread) : FetchResult → Prop
  | fetched {env₁ : JournalProcessEnv} {th₁ : JournalProcessThread}
      (htodo : th₁.todo ++ env₁.commitQueue = th.todo ++ env.commitQueue) (hproc : th₁.proc = th.proc)
      (hcur : th₁.curJournal = th.curJournal) (hstate : th₁.curProcState = th.curProcState)
      (hrec : th₁.txRecords = th.txRecords) (hexit : env₁.exitReq = env.exitReq) :
      FetchOutcome env th (.fetched env₁ th₁)
  | wait : FetchOutcome env th .wait
  | interrupted {env₁ : JournalProcessEnv} (hreq : env.exitReq = true)
      (hempty : th.todo ++ env.commitQueue = []) (hexit : env₁.exitReq = false)
      (hqueue : env₁.commitQueue = env.commitQueue) : FetchOutcome env th (.interrupted env₁)

theorem concat_spec : FetchOutcome env th (th.concat env) := by
  refine .fetched ?_ rfl rfl rfl rfl rfl
  simp only [JournalProcessThread.todo,List.append_nil,List.append_assoc]

theorem fetchNewJournal_spec : FetchOutcome env th (th.fetchNewJournal env) := by
  unfold JournalProcessThread.fetchNewJournal
  by_cases hw : th.isWorking = true
  · rw [if_pos hw]
    split
    · exact .fetched rfl rfl rfl rfl rfl rfl
    · exact concat_spec
  · rw [if_neg hw]
    by_cases hq : env.commitQueue.isEmpty = true
    · rw [if_pos hq]
      by_cases hx : env.exitReq = true
      · rw [if_pos hx]
        refine .interrupted hx ?_ rfl rfl
        rw [todo_of_idle hw,List.isEmpty_iff.mp hq]
        rfl
      · rw [if_neg hx]
        exact .wait
    · rw [if_neg hq]
      exact concat_spec

end Fetch

section Steps
variable {kh : Khash} {base size t a : Nat} {s s' : JournalRun}

theorem step_fetch (h : s.Ok kh base size t a) {r : FetchResult} (hr : FetchOutcome s.env s.thread r)
    (hs : s.afterFetch r = some s') : s'.Ok kh base size t a := by
  cases hr with
  | fetched htodo hproc hcur hstate hrec hexit =>
    cases hs
    refine ⟨⟨?_,?_⟩,h.placed,?_,?_,fun hx => h.exitReq (hexit ▸ hx),fun hx => by cases hx⟩
    · rw [hproc]
      exact h.thread.ring
    · intro j hj hst
      rw [hproc]
      exact h.thread.buffered j (hcur ▸ hj) (hstate ▸ hst)
    · rw [htodo]
      exact h.order
    · rw [hrec]
      exact h.split
  | wait => cases hs
  | interrupted hreq hempty hexit hqueue =>
    cases hs
    refine ⟨h.thread,h.placed,?_,h.split,fun hx => ?_,fun _ => ⟨h.exitReq hreq,?_⟩⟩
    · rw [hqueue]
      exact h.order
    · rw [hexit] at hx
      cases hx
    · rw [hqueue]
      exact hempty

theorem step_pending (h : s.Ok kh base size t a) {r : JournalProcessThread × CommDev × List JournalWrite}
    (hr : s.thread.PendingOutcome kh base size a (t + s.consumed) (t + writesBlockNum s.writes) s.dev r) :
    JournalRun.Ok kh base size t a
      { s with thread := r.1,dev := r.2.1,pc := .cplt,writes := s.writes ++ r.2.2 } := by
  obtain ⟨done,rest,hw,hc,hrecs,hle⟩ := h.split
  cases hr with
  | idle _ =>
    simp only [List.append_nil]
    exact ⟨h.thread,h.placed,h.order,h.split,h.exitReq,fun hx => by cases hx⟩
  | full hok htodo hrec =>
    simp only [List.append_nil]
    refine ⟨hok,h.placed,?_,⟨done,rest,hw,hc,hrec.trans hrecs,hle⟩,h.exitReq,fun hx => by cases hx⟩
    rw [htodo]
    exact h.order
  | @wrote th₁ d₁ w hok himage htodo hrec _ _ =>
    refine ⟨?_,placed_append.mpr ⟨h.placed,himage⟩,?_,⟨done,rest ++ [w],?_,hc,?_,hle⟩,h.exitReq,
      fun hx => by cases hx⟩
    · rw [writesBlockNum_append,writesBlockNum_cons,writesBlockNum_nil,Nat.add_zero,← Nat.add_assoc]
      exact hok
    · rw [← h.order,htodo,List.map_append,List.append_assoc]
      rfl
    · rw [hw,List.append_assoc]
    · rw [hrec,hrecs,recordsFrom_append,hw,writesBlockNum_append]
      simp only [Nat.add_assoc]

theorem processCpltJournal_spec (h : s.Ok kh base size t a) :
    ∃ p rs, s.thread.processCpltJournal s.dev = ({ s.thread with proc := p,txRecords := rs.2 },rs.1) ∧
      RingState base size (t + s.consumed) (t + s.consumed) (t + writesBlockNum s.writes) p s.dev ∧
      p.journalWriter = s.thread.proc.journalWriter ∧ p.curJournalBlockNum = s.thread.proc.curJournalBlockNum ∧
      (rs = ([],s.thread.txRecords) ∧ a = t + s.consumed ∨ a < t + s.consumed ∧
        rs = journalProcessorProcessTxRecord (Ring.slot base size (t + s.consumed))
          (Ring.slot base size (t + writesBlockNum s.writes)) s.thread.txRecords) := by
  have hr := h.thread.ring
  have h1 := hr.polled_le
  have h2 := hr.consumed_le
  have h3 := hr.room
  have h4 := hr.avail
  have h5 := hr.total
  have hsync := hr.sync
  have h6 := hsync.avail
  unfold JournalProcessThread.processCpltJournal
  by_cases hav : s.thread.proc.curAvailLpa = s.thread.proc.totalAvailLpa
  · have ha : a = t + s.consumed := by omega
    rw [if_pos hav]
    exact ⟨_,([],s.thread.txRecords),rfl,ha ▸ hr,rfl,rfl,.inl ⟨rfl,ha⟩⟩
  · rw [if_neg hav]
    by_cases hnew : (journalProcessorSyncWithSsdJournalPos s.thread.proc s.dev).curAvailLpa =
        s.thread.proc.curAvailLpa
    · simp only [if_pos hnew]
      exact ⟨_,([],s.thread.txRecords),rfl,hsync,rfl,rfl,.inl ⟨rfl,by omega⟩⟩
    · simp only [if_neg hnew,hsync.head,hsync.tail]
      exact ⟨_,_,rfl,hsync,rfl,rfl,.inr ⟨by omega,rfl⟩⟩

theorem step_cplt (h : s.Ok kh base size t a) (hpc : s.pc = .cplt) (hs : s.stepThread kh = some s') :
    s'.Ok kh base size t (t + s.consumed) := by
  obtain ⟨p,rs,he,hring,hwriter,hnum,hrs⟩ := processCpltJournal_spec h
  obtain ⟨done,rest,hw,hc,hrecs,hle⟩ := h.split
  rw [JournalRun.stepThread,hpc,he] at hs
  cases hs
  have hbuf : ∀ j, s.thread.curJournal = some j → s.thread.curProcState = .writtenInBuffer →
      ∃ tx, Buffered kh p j tx := by
    intro j hj hst
    obtain ⟨tx,hb⟩ := h.thread.buffered j hj hst
    exact ⟨tx,hb.encodes,hwriter ▸ hb.image,hnum.trans hb.blockNum,hwriter ▸ hb.tailIdx⟩
  have hsplit : ∃ done rest, s.writes = done ++ rest ∧ s.completed ++ rs.1 = done.map (·.journal.txId) ∧
      rs.2 = recordsFrom base size (t + writesBlockNum done) rest ∧
      t + writesBlockNum done ≤ t + s.consumed := by
    rcases hrs with ⟨rfl,ha⟩ | ⟨ha,rfl⟩
    · exact ⟨done,rest,hw,by rw [List.append_nil]; exact hc,hrecs,by omega⟩
    · have hplaced := h.placed
      rw [hw] at hplaced
      have hroom := h.thread.ring.room
      obtain ⟨done',rest',rfl,hproc,hle'⟩ := processTxRecord_sound (h := t + s.consumed)
        (t := t + writesBlockNum s.writes) hring.pos (placed_drop hplaced) (by omega)
        (by rw [hw,writesBlockNum_append,Nat.add_assoc]) (by omega)
      rw [hrecs,hproc]
      refine ⟨done ++ done',rest',by rw [hw,List.append_assoc],?_,?_,?_⟩
      · rw [hc,List.map_append]
      · rw [writesBlockNum_append,Nat.add_assoc]
      · rw [writesBlockNum_append,← Nat.add_assoc]
        exact hle'
  exact ⟨⟨hring,hbuf⟩,h.placed,h.order,hsplit,h.exitReq,fun hx => by cases hx⟩

theorem step_keeps (h : s.Ok kh base size t a) {e : JournalEvent} (he : e = .thread → s.pc ≠ .cplt)
    (hs : s.step kh e = some s') :
    s'.Ok kh base size t a ∧ s'.completed = s.completed ∧ s.writes <+: s'.writes := by
  cases e with
  | commit j =>
    simp only [JournalRun.step] at hs
    by_cases hst : s.stopped = true
    · rw [if_pos hst] at hs
      cases hs
    · rw [if_neg hst] at hs
      cases hs
      refine ⟨⟨h.thread,h.placed,?_,h.split,h.exitReq,fun hx => absurd (h.exited hx).1 hst⟩,rfl,
        List.prefix_rfl⟩
      rw [← h.order]
      simp only [JournalProcessEnv.commitJournal,List.append_assoc]
  | stop =>
    cases hs
    exact ⟨⟨h.thread,h.placed,h.order,h.split,fun _ => rfl,fun hx => ⟨rfl,(h.exited hx).2⟩⟩,rfl,
      List.prefix_rfl⟩
  | consume n =>
    simp only [JournalRun.step,JournalRun.consume] at hs
    split at hs
    · rename_i hn
      cases hs
      have hring := h.thread.ring.consume hn
      rw [Nat.add_assoc] at hring
      exact ⟨⟨⟨hring,h.thread.buffered⟩,h.placed,h.order,h.split,h.exitReq,h.exited⟩,rfl,List.prefix_rfl⟩
    · cases hs
  | thread =>
    rw [JournalRun.step] at hs
    cases hpc : s.pc with
    | fetch =>
      rw [JournalRun.stepThread,hpc] at hs
      refine ⟨step_fetch h fetchNewJournal_spec hs,?_⟩
      simp only [JournalRun.afterFetch] at hs
      split at hs
      · cases hs
        exact ⟨rfl,List.prefix_rfl⟩
      · cases hs
      · cases hs
        exact ⟨rfl,List.prefix_rfl⟩
    | pending =>
      obtain ⟨r,hr,hout⟩ := JournalProcessThread.processPendingJournal_spec h.thread
      rw [JournalRun.stepThread,hpc] at hs
      simp only [hr,Option.map_some,Option.some.injEq] at hs
      exact hs ▸ ⟨step_pending h hout,rfl,List.prefix_append _ _⟩
    | cplt => exact absurd hpc (he rfl)
    | exited =>
      rw [JournalRun.stepThread,hpc] at hs
      cases hs

theorem step_ok (h : s.Ok kh base size t a) {e : JournalEvent} (hs : s.step kh e = some s') :
    ∃ a', s'.Ok kh base size t a' := by
  by_cases hpoll : e = .thread ∧ s.pc = .cplt
  · obtain ⟨rfl,hpc⟩ := hpoll
    exact ⟨_,step_cplt h hpc hs⟩
  · exact ⟨a,(step_keeps h (fun he hpc => hpoll ⟨he,hpc⟩) hs).1⟩

theorem run_ok {es : List JournalEvent} (h : s.Ok kh base size t a) (hs : s.run kh es = some s') :
    ∃ a', s'.Ok kh base size t a' := by
  induction es generalizing s a with
  | nil =>
    cases hs
    exact ⟨a,h⟩
  | cons e es ih =>
    rw [JournalRun.run,List.foldlM_cons] at hs
    obtain ⟨s₁,h₁,h₂⟩ := Option.bind_eq_some_iff.mp hs
    obtain ⟨a₁,hok⟩ := step_ok h h₁
    exact ih hok h₂

theorem thread_fields (hs : s.stepThread kh = some s') :
    s'.committed = s.committed ∧ s'.stopped = s.stopped ∧ s.completed <+: s'.completed := by
  unfold JournalRun.stepThread at hs
  split at hs
  · unfold JournalRun.afterFetch at hs
    split at hs
    · cases hs
      exact ⟨rfl,rfl,List.prefix_rfl⟩
    · cases hs
    · cases hs
      exact ⟨rfl,rfl,List.prefix_rfl⟩
  · obtain ⟨r,_,rfl⟩ := Option.map_eq_some_iff.mp hs
    exact ⟨rfl,rfl,List.prefix_rfl⟩
  · cases hs
    exact ⟨rfl,rfl,List.prefix_append _ _⟩
  · cases hs

theorem consume_fields {n : Nat} (hs : s.step kh (.consume n) = some s') :
    s'.committed = s.committed ∧ s'.stopped = s.stopped ∧ s'.completed = s.completed := by
  simp only [JournalRun.step,JournalRun.consume] at hs
  split at hs
  · cases hs
    exact ⟨rfl,rfl,rfl⟩
  · cases hs

def JournalRun.Wrote (s s' : JournalRun) (ws : List JournalWrite) : Prop :=
  s'.writes = s.writes ++ ws ∧ s'.dev.blocks = Updates.applyAll s.dev.blocks (ws.flatMap (·.requests))

theorem JournalRun.wrote_none (hw : s'.writes = s.writes) (hb : s'.dev.blocks = s.dev.blocks) :
    s.Wrote s' [] := ⟨by rw [List.append_nil]; exact hw,hb⟩

theorem JournalRun.Wrote.trans {s'' : JournalRun} {ws vs : List JournalWrite} (h : s.Wrote s' ws)
    (h' : s'.Wrote s'' vs) : s.Wrote s'' (ws ++ vs) := by
  refine ⟨by rw [h'.1,h.1,List.append_assoc],?_⟩
  rw [h'.2,h.2,List.flatMap_append,Updates.applyAll_append]

theorem pending_wrote {r : JournalProcessThread × CommDev × List JournalWrite} {b c : Nat}
    (hr : s.thread.PendingOutcome kh base size a b c s.dev r) :
    s.Wrote { s with thread := r.1,dev := r.2.1,pc := .cplt,writes := s.writes ++ r.2.2 } r.2.2 := by
  refine ⟨rfl,?_⟩
  cases hr with
  | idle _ => rfl
  | full _ _ _ _ _ => rfl
  | wrote _ _ _ _ hblocks _ =>
    rw [List.flatMap_singleton]
    exact hblocks

theorem step_wrote (h : s.Ok kh base size t a) {e : JournalEvent} (hs : s.step kh e = some s') :
    ∃ ws, s.Wrote s' ws := by
  cases e with
  | commit j =>
    simp only [JournalRun.step] at hs
    split at hs
    · cases hs
    · cases hs
      exact ⟨[],JournalRun.wrote_none rfl rfl⟩
  | stop =>
    cases hs
    exact ⟨[],JournalRun.wrote_none rfl rfl⟩
  | consume n =>
    simp only [JournalRun.step,JournalRun.consume] at hs
    split at hs
    · cases hs
      exact ⟨[],JournalRun.wrote_none rfl rfl⟩
    · cases hs
  | thread =>
    rw [JournalRun.step] at hs
    cases hpc : s.pc with
    | fetch =>
      simp only [JournalRun.stepThread,hpc,JournalRun.afterFetch] at hs
      split at hs
      · cases hs
        exact ⟨[],JournalRun.wrote_none rfl rfl⟩
      · cases hs
      · cases hs
        exact ⟨[],JournalRun.wrote_none rfl rfl⟩
    | pending =>
      obtain ⟨r,hr,hout⟩ := JournalProcessThread.processPendingJournal_spec h.thread
      rw [JournalRun.stepThread,hpc] at hs
      simp only [hr,Option.map_some,Option.some.injEq] at hs
      exact ⟨r.2.2,hs ▸ pending_wrote hout⟩
    | cplt =>
      simp only [JournalRun.stepThread,hpc] at hs
      cases hs
      exact ⟨[],JournalRun.wrote_none rfl rfl⟩
    | exited =>
      rw [JournalRun.stepThread,hpc] at hs
      cases hs

theorem run_wrote {es : List JournalEvent} (h : s.Ok kh base size t a) (hs : s.run kh es = some s') :
    ∃ ws, s.Wrote s' ws := by
  induction es generalizing s a with
  | nil =>
    cases hs
    exact ⟨[],JournalRun.wrote_none rfl rfl⟩
  | cons e es ih =>
    rw [JournalRun.run,List.foldlM_cons] at hs
    obtain ⟨s₁,h₁,h₂⟩ := Option.bind_eq_some_iff.mp hs
    obtain ⟨a₁,hok⟩ := step_ok h h₁
    obtain ⟨ws,hws⟩ := step_wrote h h₁
    obtain ⟨vs,hvs⟩ := ih hok h₂
    exact ⟨ws ++ vs,hws.trans hvs⟩

end Steps

section Start
variable {kh : Khash} {mem : Nat → Block} {d : CommDev} {startLpa endLpa pos : Nat}

theorem CommDev.EmptyRing.slot (hd : d.EmptyRing startLpa endLpa pos) :
    Ring.slot startLpa (endLpa - startLpa) (pos - startLpa) = pos := by
  have h1 := hd.start_le
  have h2 := hd.pos_lt
  rw [Ring.slot,Nat.mod_eq_of_lt (by omega)]
  omega

theorem CommDev.EmptyRing.fin (hd : d.EmptyRing startLpa endLpa pos) :
    startLpa + (endLpa - startLpa) = endLpa := by
  have h1 := hd.start_le
  have h2 := hd.pos_lt
  omega

theorem start_ok (hd : d.EmptyRing startLpa endLpa pos) :
    (JournalRun.start mem d startLpa endLpa pos).Ok kh startLpa (endLpa - startLpa)
      (pos - startLpa) (pos - startLpa) := by
  have h1 := hd.start_le
  have h2 := hd.pos_lt
  have hpos := hd.slot
  refine ⟨⟨?_,fun j hj => nomatch hj⟩,trivial,rfl,⟨[],[],rfl,rfl,rfl,le_rfl⟩,(fun hx => nomatch hx),
    fun hx => nomatch hx⟩
  exact {
    pos := by omega
    held := fun lpa hl hl' => hd.held lpa hl (by omega)
    start := rfl
    fin := show endLpa = _ by omega
    writerStart := rfl
    writerEnd := show endLpa = _ by omega
    total := rfl
    devStart := hd.devStart
    devEnd := hd.devEnd.trans (by omega)
    polled_le := le_rfl
    consumed_le := le_rfl
    room := by simp only [JournalRun.start,writesBlockNum_nil]; omega
    head := hpos.symm
    tail := hpos.symm
    avail := show endLpa - startLpa - 1 = endLpa - startLpa - 1 - (_ + 0 - _) by omega
    devHead := hd.devHead.trans hpos.symm
    devTail := hd.devTail.trans hpos.symm }

theorem start_run (hd : d.EmptyRing startLpa endLpa pos) {es : List JournalEvent} {s : JournalRun}
    (hs : (JournalRun.start mem d startLpa endLpa pos).run kh es = some s) :
    ∃ a, s.Ok kh startLpa (endLpa - startLpa) (pos - startLpa) a := run_ok (start_ok hd) hs

theorem start_wrote (hd : d.EmptyRing startLpa endLpa pos) {es : List JournalEvent} {s : JournalRun}
    (hs : (JournalRun.start mem d startLpa endLpa pos).run kh es = some s) :
    s.dev.blocks = Updates.applyAll d.blocks (s.writes.flatMap (·.requests)) := by
  obtain ⟨ws,hw,hb⟩ := run_wrote (start_ok hd) hs
  rw [hb,hw]
  rfl

end Start

section Safety
variable {kh : Khash} {base size t a : Nat} {s : JournalRun}

theorem Placed.image {c : Nat} {ws : List JournalWrite} (h : Placed kh base size c ws) {w : JournalWrite}
    (hw : w ∈ ws) : ∃ c', w.Image kh base size c' := by
  induction ws generalizing c with
  | nil => cases hw
  | cons v ws ih =>
    rcases List.mem_cons.mp hw with rfl | hw
    · exact ⟨c,h.1⟩
    · exact ih h.2 hw

def JournalWrite.block (w : JournalWrite) (i : Nat) : Block :=
  ((w.requests[i]?).map Prod.snd).getD Buf.zero

theorem JournalWrite.Image.carries {c : Nat} {w : JournalWrite} (h : w.Image kh base size c) :
    ∃ tx, Encodes kh w.journal tx ∧ w.blockNum = tx.blockNum ∧ TxImage w.block tx := by
  obtain ⟨tx,buf,henc,him,_,hreq⟩ := h
  refine ⟨tx,henc,by rw [JournalWrite.blockNum,hreq,ringRequests_length],him.congr (fun i hi => ?_)⟩
  rw [JournalWrite.block,hreq,ringRequests,List.getElem?_map,List.getElem?_range hi]
  rfl

theorem written_in_order (h : s.Ok kh base size t a) :
    s.writes.map (·.journal) <+: s.committed ∧
      (s.pc = .exited → s.writes.map (·.journal) = s.committed) := by
  refine ⟨⟨_,h.order⟩,fun hx => ?_⟩
  rw [← h.order,(h.exited hx).2,List.append_nil]

theorem completed_in_order (h : s.Ok kh base size t a) :
    ∃ done, done <+: s.writes ∧ s.completed = done.map (·.journal.txId) ∧
      writesBlockNum done ≤ s.consumed := by
  obtain ⟨done,rest,hw,hc,_,hle⟩ := h.split
  have hpoll := h.thread.ring.polled_le
  exact ⟨done,⟨rest,hw.symm⟩,hc,by omega⟩

theorem completed_once (h : s.Ok kh base size t a) (hnd : (s.committed.map (·.txId)).Nodup) :
    s.completed.Nodup := by
  obtain ⟨done,hpre,hc,_⟩ := completed_in_order h
  have hsub := (hpre.map (·.journal)).trans (written_in_order h).1
  rw [hc]
  have hmap : done.map (·.journal.txId) = (done.map (·.journal)).map (·.txId) := by
    rw [List.map_map]
    rfl
  rw [hmap]
  exact hnd.sublist (hsub.map (·.txId)).sublist

theorem avail_exact (h : s.Ok kh base size t a) : s.thread.proc.curAvailLpa +
    ringBlocks base (base + size) s.thread.proc.headLpa s.thread.proc.tailLpa = size - 1 := by
  have hr := h.thread.ring
  have hb := hr.blocks_between
  have h1 := hr.room
  have h2 := hr.avail
  rw [hr.start,hr.fin] at hb
  rw [hb,h2]
  omega

theorem head_consumed (h : s.Ok kh base size t a) :
    s.dev.metaJournalHeadLpa = (Ring.next base size)^[s.consumed] (Ring.slot base size t) := by
  rw [Ring.next_iterate h.thread.ring.pos]
  exact h.thread.ring.devHead

end Safety

section Small

def ringDisk : CommDev := ⟨64,by decide,fun _ => Buf.zero,4,8,4,4,[]⟩

theorem ringDisk_ring : ringDisk.EmptyRing 4 8 4 := by
  refine ⟨le_rfl,by decide,fun lpa _ hl => ?_,rfl,rfl,rfl,rfl⟩
  unfold CommDev.Holds lbaPerLpa ringDisk
  simp only
  omega

def ringStart : JournalRun := JournalRun.start (fun _ => Buf.zero) ringDisk 4 8 4

-- two transactions of two blocks in a ring of four: the head stops after one block, the second
-- transaction brings the tail round to where the first one starts, then the device catches up
def lateRun : List JournalEvent :=
  [.commit (sitUpdates 57 1),.thread,.thread,.consume 1,.thread,.commit (sitUpdates 57 2),.thread,.thread,
    .consume 3]

end Small

section Run
variable {kh : Khash} {mem : Nat → Block} {d : CommDev} {startLpa endLpa pos : Nat}

theorem journal_run_safe (hd : d.EmptyRing startLpa endLpa pos) {es : List JournalEvent} {s : JournalRun}
    (hs : (JournalRun.start mem d startLpa endLpa pos).run kh es = some s) :
    (s.writes.map (·.journal) <+: s.committed ∧
      (s.pc = .exited → s.writes.map (·.journal) = s.committed)) ∧
    (∀ w ∈ s.writes, ∃ tx, Encodes kh w.journal tx ∧ w.blockNum = tx.blockNum ∧ TxImage w.block tx) ∧
    s.dev.blocks = Updates.applyAll d.blocks (s.writes.flatMap (·.requests)) ∧
    (∃ done, done <+: s.writes ∧ s.completed = done.map (·.journal.txId) ∧
      writesBlockNum done ≤ s.consumed) ∧
    ((s.committed.map (·.txId)).Nodup → s.completed.Nodup) ∧
    s.dev.metaJournalHeadLpa = (Ring.next startLpa (endLpa - startLpa))^[s.consumed] pos ∧
    s.thread.proc.curAvailLpa + ringBlocks startLpa endLpa s.thread.proc.headLpa s.thread.proc.tailLpa =
      endLpa - startLpa - 1 := by
  obtain ⟨a,h⟩ := start_run hd hs
  refine ⟨written_in_order h,fun w hw => ?_,start_wrote hd hs,completed_in_order h,completed_once h,?_,?_⟩
  · obtain ⟨c,him⟩ := h.placed.image hw
    exact him.carries
  · rw [head_consumed h,hd.slot]
  · have hav := avail_exact h
    rwa [hd.fin] at hav

theorem journal_run_safe_late : ∃ s, ringStart.run inOrderKhash lateRun = some s ∧
    (s.writes.map (·.journal) <+: s.committed ∧
      (s.pc = .exited → s.writes.map (·.journal) = s.committed)) ∧
    (∀ w ∈ s.writes, ∃ tx, Encodes inOrderKhash w.journal tx ∧ w.blockNum = tx.blockNum ∧
      TxImage w.block tx) ∧
    s.dev.blocks = Updates.applyAll ringDisk.blocks (s.writes.flatMap (·.requests)) ∧
    (∃ done, done <+: s.writes ∧ s.completed = done.map (·.journal.txId) ∧
      writesBlockNum done ≤ s.consumed) ∧
    ((s.committed.map (·.txId)).Nodup → s.completed.Nodup) ∧
    s.dev.metaJournalHeadLpa = (Ring.next 4 4)^[s.consumed] 4 ∧
    s.thread.proc.curAvailLpa + ringBlocks 4 8 s.thread.proc.headLpa s.thread.proc.tailLpa = 3 := by
  have hsome : (ringStart.run inOrderKhash lateRun).isSome = true := by decide +kernel
  obtain ⟨s,hs⟩ := Option.isSome_iff_exists.mp hsome
  exact ⟨s,hs,journal_run_safe ringDisk_ring hs⟩

theorem next_journal_eq {lpa : Nat} (hd : d.EmptyRing startLpa endLpa pos) :
    commRecoveryNextJournalLpa lpa startLpa endLpa = Ring.next startLpa (endLpa - startLpa) lpa := by
  rw [commRecoveryNextJournalLpa,Ring.next,hd.fin]

theorem recovery_iterate (hd : d.EmptyRing startLpa endLpa pos) (i n : Nat) :
    (fun lpa => commRecoveryNextJournalLpa lpa startLpa endLpa)^[n]
      (Ring.slot startLpa (endLpa - startLpa) i) = Ring.slot startLpa (endLpa - startLpa) (i + n) := by
  have h1 := hd.start_le
  have h2 := hd.pos_lt
  rw [← Ring.next_iterate (by omega)]
  congr 1
  funext lpa
  exact next_journal_eq hd

end Run

structure JournalRun.WroteRing (startLpa endLpa : Nat) (s s' : JournalRun) (w : JournalWrite) : Prop where
  writes : s'.writes = s.writes ++ [w]
  positions : w.requests.map Prod.fst = (List.range w.blockNum).map
    (fun i => (fun lpa => commRecoveryNextJournalLpa lpa startLpa endLpa)^[i] s.thread.proc.tailLpa)
  procTail : s'.thread.proc.tailLpa =
    (fun lpa => commRecoveryNextJournalLpa lpa startLpa endLpa)^[w.blockNum] s.thread.proc.tailLpa
  devTail : s'.dev.metaJournalTailLpa = s'.thread.proc.tailLpa
  blocks : s'.dev.blocks = Updates.applyAll s.dev.blocks w.requests
  kept : ∀ head, head = s.thread.proc.headLpa ∨ head = s.dev.metaJournalHeadLpa →
    ∀ i < ringBlocks startLpa endLpa head s.thread.proc.tailLpa,
      (fun lpa => commRecoveryNextJournalLpa lpa startLpa endLpa)^[i] head ∉ w.requests.map Prod.fst ∧
      s'.dev.blocks ((fun lpa => commRecoveryNextJournalLpa lpa startLpa endLpa)^[i] head) =
        s.dev.blocks ((fun lpa => commRecoveryNextJournalLpa lpa startLpa endLpa)^[i] head)

section Views
variable {kh : Khash} {base size a b c : Nat} {th : JournalProcessThread} {d : CommDev}

theorem image_positions {w : JournalWrite} (h : w.Image kh base size c) :
    w.requests.map Prod.fst = (List.range w.blockNum).map (fun i => Ring.slot base size (c + i)) := by
  obtain ⟨tx,buf,_,_,_,hreq⟩ := h
  rw [JournalWrite.blockNum,hreq,ringRequests_length,ringRequests,List.map_map]
  rfl

theorem write_above (h : th.Ok kh base size a b c d) {w : JournalWrite} (hw : w.Image kh base size c)
    (hroom : w.blockNum ≤ th.proc.curAvailLpa) {i : Nat} (hai : a ≤ i) (hic : i < c) :
    Ring.slot base size i ∉ w.requests.map Prod.fst := by
  have hav := h.ring.avail
  have hlt := h.ring.room
  rw [image_positions hw]
  intro hm
  obtain ⟨j,hj,he⟩ := List.mem_map.mp hm
  have hj' := List.mem_range.mp hj
  exact Ring.slot_inj (show i < c + j by omega) (by omega) he.symm

end Views

section Run
variable {kh : Khash} {mem : Nat → Block} {d : CommDev} {startLpa endLpa pos : Nat}

theorem journal_views_agree (hd : d.EmptyRing startLpa endLpa pos) {es : List JournalEvent}
    {s : JournalRun} (hs : (JournalRun.start mem d startLpa endLpa pos).run kh es = some s) :
    (s.thread.proc.tailLpa = s.dev.metaJournalTailLpa ∧ s.thread.proc.tailLpa =
      (fun lpa => commRecoveryNextJournalLpa lpa startLpa endLpa)^[writesBlockNum s.writes] pos) ∧
    (s.pc = .pending → ∃ s', s.step kh .thread = some s' ∧
      (s'.writes = s.writes ∨ ∃ w, JournalRun.WroteRing startLpa endLpa s s' w)) := by
  obtain ⟨a,h⟩ := start_run hd hs
  have hr := h.thread.ring
  have hab := hr.polled_le
  have hbc := hr.consumed_le
  have hroom := hr.room
  refine ⟨⟨hr.tail.trans hr.devTail.symm,?_⟩,fun hpc => ?_⟩
  · rw [hr.tail,← recovery_iterate hd,hd.slot]
  · obtain ⟨r,hr',hout⟩ := JournalProcessThread.processPendingJournal_spec h.thread
    refine ⟨_,by rw [JournalRun.step,JournalRun.stepThread,hpc,hr']; rfl,?_⟩
    cases hout with
    | idle _ => exact .inl (List.append_nil _)
    | full _ _ _ _ _ => exact .inl (List.append_nil _)
    | @wrote th₁ d₁ w hok himage _ _ hblocks hfit =>
      refine .inr ⟨w,rfl,?_,?_,hok.ring.devTail.trans hok.ring.tail.symm,hblocks,
        fun head hhead i hi => ?_⟩
      · rw [image_positions himage,hr.tail]
        simp only [recovery_iterate hd]
      · rw [hr.tail]
        simp only [recovery_iterate hd]
        exact hok.ring.tail
      · obtain ⟨k,hk,hak,hkc⟩ : ∃ k, head = Ring.slot startLpa (endLpa - startLpa) k ∧ a ≤ k ∧
            k ≤ pos - startLpa + writesBlockNum s.writes := by
          rcases hhead with rfl | rfl
          · exact ⟨a,hr.head,le_rfl,by omega⟩
          · exact ⟨_,hr.devHead,hab,hbc⟩
        rw [hk,hr.tail] at hi
        nth_rewrite 1 [← hd.fin] at hi
        rw [ringBlocks_slot hr.pos hkc (by omega)] at hi
        have hnot := write_above h.thread himage hfit (show a ≤ k + i by omega) (by omega)
        simp only [hk,recovery_iterate hd]
        refine ⟨hnot,?_⟩
        rw [hblocks]
        exact Updates.applyAll_of_notMem hnot

theorem journal_views_agree_late : ∃ s, ringStart.run inOrderKhash (lateRun.take 7) = some s ∧
    (s.thread.proc.tailLpa = s.dev.metaJournalTailLpa ∧ s.thread.proc.tailLpa =
      (fun lpa => commRecoveryNextJournalLpa lpa 4 8)^[writesBlockNum s.writes] 4) ∧
    ∃ s', s.step inOrderKhash .thread = some s' ∧
      (s'.writes = s.writes ∨ ∃ w, JournalRun.WroteRing 4 8 s s' w) := by
  have hpc : (ringStart.run inOrderKhash (lateRun.take 7)).map (·.pc) = some .pending := by decide +kernel
  obtain ⟨s,hs,hpc⟩ := Option.map_eq_some_iff.mp hpc
  obtain ⟨htail,hstep⟩ := journal_views_agree ringDisk_ring hs
  exact ⟨s,hs,htail,hstep hpc⟩

end Run

end Rtfs
