import Rtfs.Fs.CowReclaimRegistry
import Rtfs.Journal.JournalSafety

namespace Rtfs

structure RegistryRun where
  journal : JournalRun
  txIdToAlloc : Nat
  registry : CowReclaimRegistry
  signalled : List Nat
  registered : List CowReclaimRecord
  drained : List CowReclaimRecord

inductive RegistryEvent
  | submit (j : JournalContainer)
  | register (r : CowReclaimRecord)
  | journal (e : JournalEvent)
  | hook
  | drain (m : FsMeta)

namespace RegistryRun

def start (s : JournalRun) : RegistryRun := ⟨s,1,cowReclaimRegistryInit,[],[],[]⟩

variable (kh : Khash) (s : RegistryRun)

def submit (j : JournalContainer) : Option RegistryRun :=
  (s.journal.step kh (.commit { j with txId := s.txIdToAlloc })).map
    (fun q => { s with journal := q,txIdToAlloc := s.txIdToAlloc + 1 })

-- a committer registers under the id that an earlier submit gave it
def register (r : CowReclaimRecord) : Option RegistryRun :=
  if r.txId ∈ s.journal.committed.map (·.txId) then some { s with
    registry := cowReclaimRegistryRegister s.registry r
    registered := if r.isEmpty then s.registered else s.registered ++ [r] }
  else none

-- the thread goes on only when the hook was called for all that its last poll completed
def stepJournal : JournalEvent → Option RegistryRun
  | .commit _ => none
  | .thread =>
    if s.signalled.length = s.journal.completed.length then
      (s.journal.step kh .thread).map (fun q => { s with journal := q })
    else none
  | e => (s.journal.step kh e).map (fun q => { s with journal := q })

def hook : Option RegistryRun :=
  (s.journal.completed[s.signalled.length]?).map (fun id => { s with
    registry := cowReclaimRegistryOnTxComplete s.registry id
    signalled := s.signalled ++ [id] })

def drain (m : FsMeta) : Option RegistryRun :=
  (cowReclaimRegistryDrainCompleted s.registry m).map (fun r => { s with
    registry := r.1
    drained := s.drained ++ s.registry.completed })

def step : RegistryEvent → Option RegistryRun
  | .submit j => s.submit kh j
  | .register r => s.register r
  | .journal e => s.stepJournal kh e
  | .hook => s.hook
  | .drain m => s.drain m

def run (es : List RegistryEvent) : Option RegistryRun := es.foldlM (fun s e => s.step kh e) s

def InTime (es : List RegistryEvent) : Prop :=
  ∀ pre p r, pre ++ [.register r] <+: es → s.run kh pre = some p → r.isEmpty = false → r.txId ∉ p.signalled

def Quiet : Prop := s.signalled = s.journal.committed.map (·.txId)

structure Ok (base size t : Nat) : Prop where
  journal : ∃ a, s.journal.Ok kh base size t a
  ids : s.journal.committed.map (·.txId) = List.range' 1 s.journal.committed.length
  next : s.txIdToAlloc = 1 + s.journal.committed.length
  signalled : s.signalled <+: s.journal.completed
  kept : ∀ r ∈ s.registered, r ∈ s.registry.pending ∨ r ∈ s.registry.completed ∨ r ∈ s.drained
  submitted : ∀ r ∈ s.registry.pending, r.txId ∈ s.journal.committed.map (·.txId)

end RegistryRun

section Steps
variable {kh : Khash} {base size t : Nat} {s s' : RegistryRun}

theorem signalled_nodup (h : s.Ok kh base size t) : s.journal.completed.Nodup := by
  obtain ⟨a,hok⟩ := h.journal
  apply completed_once hok
  rw [h.ids]
  exact List.nodup_range'

theorem commit_fields {q q' : JournalRun} {j : JournalContainer} (hs : q.step kh (.commit j) = some q') :
    q'.committed = q.committed ++ [j] ∧ q'.completed = q.completed := by
  simp only [JournalRun.step] at hs
  split at hs
  · cases hs
  · cases hs
    exact ⟨rfl,rfl⟩

theorem stepJournal_fields {e : JournalEvent} (hs : s.stepJournal kh e = some s') :
    ∃ q, s' = { s with journal := q } ∧ s.journal.step kh e = some q ∧
      q.committed = s.journal.committed ∧ s.journal.completed <+: q.completed := by
  cases e with
  | commit j => cases hs
  | stop =>
    cases hs
    exact ⟨_,rfl,rfl,rfl,List.prefix_rfl⟩
  | consume n =>
    obtain ⟨q,hq,rfl⟩ := Option.map_eq_some_iff.mp hs
    obtain ⟨hcom,_,hcmp⟩ := consume_fields hq
    exact ⟨q,rfl,hq,hcom,hcmp ▸ List.prefix_rfl⟩
  | thread =>
    simp only [RegistryRun.stepJournal] at hs
    split at hs
    · obtain ⟨q,hq,rfl⟩ := Option.map_eq_some_iff.mp hs
      obtain ⟨hcom,_,hcmp⟩ := thread_fields hq
      exact ⟨q,rfl,hq,hcom,hcmp⟩
    · cases hs

theorem hook_fields (hs : s.hook = some s') : ∃ id, s.journal.completed[s.signalled.length]? = some id ∧
    s' = { s with
      registry := cowReclaimRegistryOnTxComplete s.registry id
      signalled := s.signalled ++ [id] } := by
  obtain ⟨id,hid,rfl⟩ := Option.map_eq_some_iff.mp hs
  exact ⟨id,hid,rfl⟩

theorem drain_fields {m : FsMeta} (hs : s.drain m = some s') : s' = { s with
    registry := { s.registry with completed := [] }
    drained := s.drained ++ s.registry.completed } := by
  obtain ⟨r,hr,rfl⟩ := Option.map_eq_some_iff.mp hs
  obtain ⟨m',_,rfl⟩ := Option.map_eq_some_iff.mp hr
  rfl

theorem register_fields {r : CowReclaimRecord} (hs : s.register r = some s') :
    r.txId ∈ s.journal.committed.map (·.txId) ∧ (r.isEmpty = true ∧ s' = s ∨ r.isEmpty = false ∧ s' = { s with
      registry := { s.registry with pending := s.registry.pending ++ [r] }
      registered := s.registered ++ [r] }) := by
  unfold RegistryRun.register cowReclaimRegistryRegister at hs
  split at hs
  · rename_i hmem
    cases hs
    refine ⟨hmem,?_⟩
    cases he : r.isEmpty with
    | true => exact .inl ⟨rfl,rfl⟩
    | false => exact .inr ⟨rfl,rfl⟩
  · cases hs

theorem registry_step_ok (h : s.Ok kh base size t) {e : RegistryEvent} (hs : s.step kh e = some s') :
    s'.Ok kh base size t := by
  obtain ⟨a,hj⟩ := h.journal
  cases e with
  | submit j =>
    obtain ⟨q,hq,rfl⟩ := Option.map_eq_some_iff.mp hs
    obtain ⟨hcm,hcp⟩ := commit_fields hq
    refine ⟨step_ok hj hq,?_,?_,by rw [hcp]; exact h.signalled,h.kept,fun r hr => ?_⟩
    · rw [hcm,List.map_append,h.ids,List.length_append,List.length_singleton,List.range'_1_concat,← h.next]
      rfl
    · rw [hcm,List.length_append,List.length_singleton,← Nat.add_assoc,← h.next]
    · rw [hcm,List.map_append]
      exact List.mem_append_left _ (h.submitted r hr)
  | register r =>
    obtain ⟨hmem,⟨_,rfl⟩ | ⟨_,rfl⟩⟩ := register_fields hs
    · exact h
    · refine ⟨h.journal,h.ids,h.next,h.signalled,fun q hq => ?_,fun q hq => ?_⟩
      · rcases List.mem_append.mp hq with hq | hq
        · exact (h.kept q hq).imp_left (List.mem_append_left _)
        · exact .inl (List.mem_append_right _ hq)
      · rcases List.mem_append.mp hq with hq | hq
        · exact h.submitted q hq
        · rw [List.mem_singleton.mp hq]
          exact hmem
  | journal e =>
    obtain ⟨q,rfl,hq,hcm,hcp⟩ := stepJournal_fields hs
    refine ⟨step_ok hj hq,?_,?_,h.signalled.trans hcp,h.kept,?_⟩
    · rw [hcm]
      exact h.ids
    · rw [hcm]
      exact h.next
    · rw [hcm]
      exact h.submitted
  | hook =>
    obtain ⟨id,hid,rfl⟩ := hook_fields hs
    refine ⟨h.journal,h.ids,h.next,?_,fun r hr => ?_,fun r hr => ?_⟩
    · obtain ⟨rest,hrest⟩ := h.signalled
      rw [← hrest,List.getElem?_append_right le_rfl,Nat.sub_self] at hid
      cases rest with
      | nil => cases hid
      | cons x rest =>
        cases hid
        exact ⟨rest,by rw [← hrest,List.append_assoc]; rfl⟩
    · by_cases hr' : r.txId = id
      · rcases h.kept r hr with hp | hc | hd
        · exact .inr (.inl (List.mem_append_right _ (List.mem_filter.mpr ⟨hp,by simpa using hr'⟩)))
        · exact .inr (.inl (List.mem_append_left _ hc))
        · exact .inr (.inr hd)
      · rcases h.kept r hr with hp | hc | hd
        · exact .inl (List.mem_filter.mpr ⟨hp,by simpa using hr'⟩)
        · exact .inr (.inl (List.mem_append_left _ hc))
        · exact .inr (.inr hd)
    · exact h.submitted r (List.mem_filter.mp hr).1
  | drain m =>
    rw [drain_fields hs]
    refine ⟨h.journal,h.ids,h.next,h.signalled,fun r hr => ?_,h.submitted⟩
    rcases h.kept r hr with hp | hc | hd
    · exact .inl hp
    · exact .inr (.inr (List.mem_append_right _ hc))
    · exact .inr (.inr (List.mem_append_left _ hd))

def RegistryRun.Timely (s : RegistryRun) : Prop := ∀ r ∈ s.registry.pending, r.txId ∉ s.signalled

def RegistryRun.Stranded (s : RegistryRun) : Prop := ∃ r ∈ s.registry.pending, r.txId ∈ s.signalled

theorem step_timely (h : s.Timely) {e : RegistryEvent} (hs : s.step kh e = some s')
    (hin : ∀ r, e = .register r → r.isEmpty = false → r.txId ∉ s.signalled) : s'.Timely := by
  cases e with
  | submit j =>
    obtain ⟨q,_,rfl⟩ := Option.map_eq_some_iff.mp hs
    exact h
  | register r =>
    obtain ⟨_,⟨_,rfl⟩ | ⟨hne,rfl⟩⟩ := register_fields hs
    · exact h
    · intro q hq
      rcases List.mem_append.mp hq with hq | hq
      · exact h q hq
      · rw [List.mem_singleton.mp hq]
        exact hin r rfl hne
  | journal e =>
    obtain ⟨q,rfl,_⟩ := stepJournal_fields hs
    exact h
  | hook =>
    obtain ⟨id,_,rfl⟩ := hook_fields hs
    intro r hr hm
    obtain ⟨hp,hne⟩ := List.mem_filter.mp hr
    rcases List.mem_append.mp hm with hm | hm
    · exact h r hp hm
    · simp [List.mem_singleton.mp hm] at hne
  | drain m =>
    rw [drain_fields hs]
    exact h

theorem hook_fresh (h : s.Ok kh base size t) {id : Nat}
    (hid : s.journal.completed[s.signalled.length]? = some id) : id ∉ s.signalled := by
  obtain ⟨rest,hrest⟩ := h.signalled
  have hnd := signalled_nodup h
  rw [← hrest,List.getElem?_append_right le_rfl,Nat.sub_self] at hid
  rw [← hrest] at hnd
  intro hm
  exact (List.nodup_append.mp hnd).2.2 id hm id (List.mem_of_getElem? hid) rfl

theorem step_stranded (h : s.Ok kh base size t) (hst : s.Stranded) {e : RegistryEvent}
    (hs : s.step kh e = some s') : s'.Stranded := by
  obtain ⟨r,hr,hsig⟩ := hst
  cases e with
  | submit j =>
    obtain ⟨q,_,rfl⟩ := Option.map_eq_some_iff.mp hs
    exact ⟨r,hr,hsig⟩
  | register r' =>
    obtain ⟨_,⟨_,rfl⟩ | ⟨_,rfl⟩⟩ := register_fields hs
    · exact ⟨r,hr,hsig⟩
    · exact ⟨r,List.mem_append_left _ hr,hsig⟩
  | journal e =>
    obtain ⟨q,rfl,_⟩ := stepJournal_fields hs
    exact ⟨r,hr,hsig⟩
  | hook =>
    obtain ⟨id,hid,rfl⟩ := hook_fields hs
    have hne : r.txId ≠ id := by
      rintro rfl
      exact hook_fresh h hid hsig
    exact ⟨r,List.mem_filter.mpr ⟨hr,by simpa using hne⟩,List.mem_append_left _ hsig⟩
  | drain m =>
    rw [drain_fields hs]
    exact ⟨r,hr,hsig⟩

end Steps

section Run
variable {kh : Khash} {base size t : Nat} {s s' : RegistryRun}

theorem registry_run_append (s : RegistryRun) (es es' : List RegistryEvent) :
    s.run kh (es ++ es') = (s.run kh es).bind (fun p => p.run kh es') := by
  rw [RegistryRun.run,List.foldlM_append]
  rfl

theorem run_one (s : RegistryRun) (e : RegistryEvent) : s.run kh [e] = s.step kh e := by
  simp [RegistryRun.run]

theorem registry_run_ok (h : s.Ok kh base size t) {es : List RegistryEvent} (hs : s.run kh es = some s') :
    s'.Ok kh base size t := by
  induction es generalizing s with
  | nil =>
    cases hs
    exact h
  | cons e es ih =>
    rw [RegistryRun.run,List.foldlM_cons] at hs
    obtain ⟨s₁,h₁,h₂⟩ := Option.bind_eq_some_iff.mp hs
    exact ih (registry_step_ok h h₁) h₂

theorem run_stranded (h : s.Ok kh base size t) (hst : s.Stranded) {es : List RegistryEvent}
    (hs : s.run kh es = some s') : s'.Stranded := by
  induction es generalizing s with
  | nil =>
    cases hs
    exact hst
  | cons e es ih =>
    rw [RegistryRun.run,List.foldlM_cons] at hs
    obtain ⟨s₁,h₁,h₂⟩ := Option.bind_eq_some_iff.mp hs
    exact ih (registry_step_ok h h₁) (step_stranded h hst h₁) h₂

theorem run_timely (hst : s.Timely) {es : List RegistryEvent} (hin : s.InTime kh es)
    (hs : s.run kh es = some s') : s'.Timely := by
  induction es using List.reverseRecOn generalizing s' with
  | nil =>
    cases hs
    exact hst
  | append_singleton es e ih =>
    rw [registry_run_append] at hs
    obtain ⟨p,hp,he⟩ := Option.bind_eq_some_iff.mp hs
    rw [run_one] at he
    have htimely := ih (fun pre q r hpre => hin pre q r (hpre.trans (List.prefix_append _ _))) hp
    exact step_timely htimely he (fun r hr hne => hin es p r (hr ▸ List.prefix_rfl) hp hne)

theorem late_stranded (h : s.Ok kh base size t) {es : List RegistryEvent} (hs : s.run kh es = some s')
    (hlate : ¬ s.InTime kh es) : s'.Stranded := by
  unfold RegistryRun.InTime at hlate
  push Not at hlate
  obtain ⟨pre,p,r,⟨rest,rfl⟩,hp,hne,hsig⟩ := hlate
  have hok := registry_run_ok h hp
  rw [List.append_assoc,registry_run_append,hp,Option.bind_some,registry_run_append,run_one] at hs
  obtain ⟨q,hq,hrest⟩ := Option.bind_eq_some_iff.mp hs
  have hokq := registry_step_ok hok hq
  refine run_stranded hokq ?_ hrest
  obtain ⟨_,⟨he,_⟩ | ⟨_,rfl⟩⟩ := register_fields hq
  · rw [hne] at he
    cases he
  · exact ⟨r,List.mem_append_right _ (List.mem_singleton_self r),hsig⟩

variable {mem : Nat → Block} {d : CommDev} {startLpa endLpa pos : Nat}

theorem registry_start_ok (hd : d.EmptyRing startLpa endLpa pos) :
    (RegistryRun.start (JournalRun.start mem d startLpa endLpa pos)).Ok kh startLpa (endLpa - startLpa)
      (pos - startLpa) where
  journal := ⟨_,start_ok hd⟩
  ids := rfl
  next := rfl
  signalled := List.prefix_rfl
  kept := fun _ hr => absurd hr List.not_mem_nil
  submitted := fun _ hr => absurd hr List.not_mem_nil

theorem none_stranded_iff (hd : d.EmptyRing startLpa endLpa pos) {es : List RegistryEvent}
    (hs : (RegistryRun.start (JournalRun.start mem d startLpa endLpa pos)).run kh es = some s)
    (hq : s.Quiet) :
    (s.registry.pending = [] ∧ ∀ r ∈ s.registered, r ∈ s.registry.completed ∨ r ∈ s.drained) ↔
      (RegistryRun.start (JournalRun.start mem d startLpa endLpa pos)).InTime kh es := by
  have hok₀ : (RegistryRun.start (JournalRun.start mem d startLpa endLpa pos)).Ok kh startLpa
      (endLpa - startLpa) (pos - startLpa) := registry_start_ok hd
  have hok := registry_run_ok hok₀ hs
  constructor
  · rintro ⟨hnil,-⟩
    by_contra hlate
    obtain ⟨r,hr,_⟩ := late_stranded hok₀ hs hlate
    rw [hnil] at hr
    cases hr
  · intro hin
    have htimely := run_timely (fun r hr => absurd hr List.not_mem_nil) hin hs
    have hnil : s.registry.pending = [] := by
      apply List.eq_nil_iff_forall_not_mem.mpr
      intro r hr
      apply htimely r hr
      rw [hq]
      exact hok.submitted r hr
    refine ⟨hnil,fun r hr => (hok.kept r hr).resolve_left ?_⟩
    rw [hnil]
    exact List.not_mem_nil

end Run

section Late

def lateRecord : CowReclaimRecord := ⟨1,[600],[],[]⟩

-- the journal thread is done with the transaction before its committer gets to register
def lateRegister : List RegistryEvent :=
  [.submit (sitUpdates 1 0),.journal .thread,.journal .thread,.journal (.consume 1),.journal .thread,.hook,
    .register lateRecord]

theorem late_quiet : ∃ s, (RegistryRun.start ringStart).run inOrderKhash lateRegister = some s ∧ s.Quiet ∧
    s.registry.pending.map (·.txId) = [1] := by
  have hrun : ((RegistryRun.start ringStart).run inOrderKhash lateRegister).map (fun s =>
      (s.signalled,s.journal.committed.map (·.txId),s.registry.pending.map (·.txId))) =
      some ([1],[1],[1]) := by decide +kernel
  obtain ⟨s,hs,hv⟩ := Option.map_eq_some_iff.mp hrun
  simp only [Prod.mk.injEq] at hv
  exact ⟨s,hs,hv.1.trans hv.2.1.symm,hv.2.2⟩

theorem none_stranded_late : ∃ s, (RegistryRun.start ringStart).run inOrderKhash lateRegister = some s ∧
    s.Quiet ∧
    ((s.registry.pending = [] ∧ ∀ r ∈ s.registered, r ∈ s.registry.completed ∨ r ∈ s.drained) ↔
      (RegistryRun.start ringStart).InTime inOrderKhash lateRegister) := by
  obtain ⟨s,hs,hq,_⟩ := late_quiet
  exact ⟨s,hs,hq,none_stranded_iff ringDisk_ring hs hq⟩

theorem record_stranded : ∃ s, (RegistryRun.start ringStart).run inOrderKhash lateRegister = some s ∧
    s.Quiet ∧ s.registry.pending ≠ [] := by
  obtain ⟨s,hs,hq,hp⟩ := late_quiet
  refine ⟨s,hs,hq,fun hnil => ?_⟩
  rw [hnil] at hp
  cases hp

end Late

end Rtfs
