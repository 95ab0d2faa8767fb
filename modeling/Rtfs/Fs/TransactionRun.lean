import Rtfs.Fs.CachedMeta
import Rtfs.Fs.RegistryRun
import Rtfs.Journal.BlockCount
import Rtfs.Journal.Progress

namespace Rtfs

structure TransactionRun where
  fs : FsMeta
  log : RegistryRun

inductive TransactionEvent
  | change (op : MetaOp)
  | alloc (ctx : LpaArea) (requestedCount : UInt32)
  | register (r : CowReclaimRecord)
  | registerCompleted (r : CowReclaimRecord)
  | drain
  | submit
  | hook
  | journal (e : JournalEvent)

namespace TransactionRun

def start (m : FsMeta) (q : JournalRun) : TransactionRun := ⟨m,RegistryRun.start q⟩

variable (kh : Khash) (s : TransactionRun)

def onFs (m : FsMeta) : TransactionRun := { s with fs := m }

def onLog (q : RegistryRun) : TransactionRun := { s with log := q }

def drain : Option TransactionRun :=
  (cowReclaimRegistryDrainCompleted s.log.registry s.fs).bind (fun r =>
    (s.log.drain s.fs).map (fun q => ⟨r.2,q⟩))

def submit : Option TransactionRun :=
  if s.fs.curJournal.isEmpty then some s
  else (s.log.submit kh s.fs.curJournal).map
    (fun q => ⟨{ s.fs with curJournal := JournalContainer.init },q⟩)

def step : TransactionEvent → Option TransactionRun
  | .change op => (metaStep s.fs op).map (fun r => s.onFs r.2)
  | .alloc ctx requestedCount =>
    (superManagerAllocLpaRangeInner s.fs ctx requestedCount).map (fun r => s.onFs r.2.2)
  | .register r => (s.log.register r).map s.onLog
  | .registerCompleted r =>
    some (s.onLog { s.log with registry := cowReclaimRegistryRegisterCompleted s.log.registry r })
  | .drain => s.drain
  | .submit => s.submit kh
  | .hook => s.log.hook.map s.onLog
  | .journal e => (s.log.stepJournal kh e).map s.onLog

def run (es : List TransactionEvent) : Option TransactionRun := es.foldlM (fun s e => s.step kh e) s

def submitted : TransactionEvent → List JournalContainer
  | .submit => if s.fs.curJournal.isEmpty then [] else [{ s.fs.curJournal with txId := s.log.txIdToAlloc }]
  | _ => []

end TransactionRun

def TransactionRun.SubmitsFit (kh : Khash) (total : Nat) (s : TransactionRun) (es : List TransactionEvent) :
    Prop :=
  ∀ pre p, pre ++ [.submit] <+: es → s.run kh pre = some p → p.fs.curJournal.isEmpty = false →
    p.fs.curJournal.Fits total

section Steps
variable {kh : Khash} {total : Nat} {s s' : TransactionRun}

theorem step_log {e : TransactionEvent} (hs : s.step kh e = some s') :
    (s'.log.journal = s.log.journal ∨ ∃ e', s.log.journal.step kh e' = some s'.log.journal) ∧
      s'.log.journal.committed = s.log.journal.committed ++ s.submitted e := by
  cases e with
  | change op =>
    obtain ⟨r,_,rfl⟩ := Option.map_eq_some_iff.mp hs
    exact ⟨.inl rfl,(List.append_nil _).symm⟩
  | alloc ctx n =>
    obtain ⟨r,_,rfl⟩ := Option.map_eq_some_iff.mp hs
    exact ⟨.inl rfl,(List.append_nil _).symm⟩
  | register r =>
    obtain ⟨q,hq,rfl⟩ := Option.map_eq_some_iff.mp hs
    have hj : q.journal = s.log.journal := by
      rcases (register_fields hq).2 with ⟨_,rfl⟩ | ⟨_,rfl⟩ <;> rfl
    exact ⟨.inl hj,(congrArg _ hj).trans (List.append_nil _).symm⟩
  | registerCompleted r =>
    cases hs
    exact ⟨.inl rfl,(List.append_nil _).symm⟩
  | drain =>
    obtain ⟨r,_,hs⟩ := Option.bind_eq_some_iff.mp hs
    obtain ⟨q,hq,rfl⟩ := Option.map_eq_some_iff.mp hs
    rw [drain_fields hq]
    exact ⟨.inl rfl,(List.append_nil _).symm⟩
  | submit =>
    simp only [TransactionRun.step,TransactionRun.submit] at hs
    split at hs
    · rename_i he
      cases hs
      rw [TransactionRun.submitted,if_pos he]
      exact ⟨.inl rfl,(List.append_nil _).symm⟩
    · rename_i he
      obtain ⟨q,hq,rfl⟩ := Option.map_eq_some_iff.mp hs
      obtain ⟨q',hq',rfl⟩ := Option.map_eq_some_iff.mp hq
      rw [TransactionRun.submitted,if_neg he]
      exact ⟨.inr ⟨_,hq'⟩,(commit_fields hq').1⟩
  | hook =>
    obtain ⟨q,hq,rfl⟩ := Option.map_eq_some_iff.mp hs
    obtain ⟨id,_,rfl⟩ := hook_fields hq
    exact ⟨.inl rfl,(List.append_nil _).symm⟩
  | journal e =>
    obtain ⟨q,hq,rfl⟩ := Option.map_eq_some_iff.mp hs
    obtain ⟨q',rfl,hstep,hcom,_⟩ := stepJournal_fields hq
    exact ⟨.inr ⟨e,hstep⟩,hcom.trans (List.append_nil _).symm⟩

theorem transaction_run_cons {e : TransactionEvent} {es : List TransactionEvent} (hs : s.step kh e = some s') :
    s.run kh (e :: es) = s'.run kh es := by
  rw [TransactionRun.run,List.foldlM_cons,hs]
  rfl

theorem transaction_run_append {pre es : List TransactionEvent} (hs : s.run kh pre = some s') :
    s.run kh (pre ++ es) = s'.run kh es := by
  rw [TransactionRun.run,List.foldlM_append]
  exact congrArg (fun r => r.bind (TransactionRun.run kh · es)) hs

theorem transaction_run_ok {base size t a : Nat} (h : s.log.journal.Ok kh base size t a)
    {es : List TransactionEvent} (hs : s.run kh es = some s') :
    ∃ a', s'.log.journal.Ok kh base size t a' := by
  induction es generalizing s a with
  | nil =>
    cases hs
    exact ⟨a,h⟩
  | cons e es ih =>
    rw [TransactionRun.run,List.foldlM_cons] at hs
    obtain ⟨s₁,h₁,h₂⟩ := Option.bind_eq_some_iff.mp hs
    rcases (step_log h₁).1 with hj | ⟨e',hj⟩
    · exact ih (hj ▸ h) h₂
    · obtain ⟨a₁,hok⟩ := step_ok h hj
      exact ih hok h₂

theorem submitsFit_cons {e : TransactionEvent} {es : List TransactionEvent} (hs : s.step kh e = some s') :
    s.SubmitsFit kh total (e :: es) ↔
      (∀ j ∈ s.submitted e, j.Fits total) ∧ s'.SubmitsFit kh total es := by
  constructor
  · intro h
    refine ⟨fun j hj => ?_,fun pre p hpre hp => ?_⟩
    · cases e with
      | submit =>
        by_cases he : s.fs.curJournal.isEmpty = true
        · rw [TransactionRun.submitted,if_pos he] at hj
          cases hj
        · rw [TransactionRun.submitted,if_neg he] at hj
          rw [List.mem_singleton.mp hj]
          exact h [] s ⟨es,rfl⟩ rfl (Bool.eq_false_of_not_eq_true he)
      | _ => cases hj
    · refine h (e :: pre) p (List.cons_prefix_cons.mpr ⟨rfl,hpre⟩) ?_
      rw [transaction_run_cons hs]
      exact hp
  · rintro ⟨hfirst,hrest⟩ pre p hpre hp hne
    cases pre with
    | nil =>
      cases hp
      obtain ⟨rfl,_⟩ := List.cons_prefix_cons.mp hpre
      refine hfirst { s.fs.curJournal with txId := s.log.txIdToAlloc } ?_
      rw [TransactionRun.submitted,if_neg (by rw [hne]; exact Bool.false_ne_true)]
      exact List.mem_singleton_self _
    | cons e' pre =>
      obtain ⟨rfl,hpre'⟩ := List.cons_prefix_cons.mp hpre
      rw [transaction_run_cons hs] at hp
      exact hrest pre p hpre' hp hne

theorem submitsFit_iff {es : List TransactionEvent} (hs : s.run kh es = some s') :
    (∀ j ∈ s'.log.journal.committed, j.Fits total) ↔
      (∀ j ∈ s.log.journal.committed, j.Fits total) ∧ s.SubmitsFit kh total es := by
  induction es generalizing s with
  | nil =>
    cases hs
    refine ⟨fun h => ⟨h,fun pre p hpre => ?_⟩,fun h => h.1⟩
    exact absurd (List.prefix_nil.mp hpre) (List.append_ne_nil_of_right_ne_nil _ (List.cons_ne_nil _ _))
  | cons e es ih =>
    rw [TransactionRun.run,List.foldlM_cons] at hs
    obtain ⟨s₁,h₁,h₂⟩ := Option.bind_eq_some_iff.mp hs
    rw [ih h₂,submitsFit_cons h₁,(step_log h₁).2,List.forall_mem_append,and_assoc]

end Steps

end Rtfs
