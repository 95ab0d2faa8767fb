import Rtfs.Fs.NodeReclaim

namespace Rtfs

namespace NodeReclaim

open NodeBlockCache RtfsSuperBlock

-- callers lists the handles that are not the registry's own copies
structure ReclaimState (β : Type) where
  reclaiming : Reclaiming β
  registry : CowReclaimRegistry
  callers : List Nat

inductive ReclaimOp
  | register (record : CowReclaimRecord)
  | registerCompleted (dataLpas nodeLpas : List UInt32) (deletedHandles : List (Option Nat))
  | onTxComplete (txId : Nat)
  | drainCompleted
  | destroyHandle (p : Nat)

def ReclaimOp.record : ReclaimOp → Option CowReclaimRecord
  | .register record => some record
  | .registerCompleted dataLpas nodeLpas deletedHandles => some ⟨0,dataLpas,nodeLpas,deletedHandles⟩
  | _ => none

def ReclaimOp.lpas (op : ReclaimOp) : List UInt32 := op.record.elim [] CowReclaimRecord.lpas

def ReclaimOp.handles (op : ReclaimOp) : List Nat := op.record.elim [] CowReclaimRecord.handles

def CowReclaimRecord.isEmpty (r : CowReclaimRecord) : Bool :=
  r.dataLpas.isEmpty && r.nodeLpas.isEmpty && r.deletedHandles.isEmpty

section Model
variable {β : Type}

def copyHandle (s : Reclaiming β) : Option Nat → Reclaiming β
  | none => s
  | some p => handleCopy s p

def cowReclaimRegistryCopyDeletedHandles (s : Reclaiming β) (src : List (Option Nat)) : Reclaiming β :=
  src.foldl copyHandle s

def cowReclaimRegistryRegister (s : ReclaimState β) (record : CowReclaimRecord) : ReclaimState β :=
  if record.isEmpty then s
  else { s with
    reclaiming := cowReclaimRegistryCopyDeletedHandles s.reclaiming record.deletedHandles
    registry := { s.registry with pendingHead := s.registry.pendingHead ++ [record] } }

def cowReclaimRegistryRegisterCompleted (s : ReclaimState β) (record : CowReclaimRecord) : ReclaimState β :=
  if record.isEmpty then s
  else { s with
    reclaiming := cowReclaimRegistryCopyDeletedHandles s.reclaiming record.deletedHandles
    registry := { s.registry with completedHead := s.registry.completedHead ++ [record] } }

def cowReclaimRegistryOnTxComplete (s : ReclaimState β) (txId : Nat) : ReclaimState β :=
  { s with registry :=
    ⟨s.registry.pendingHead.filter (fun r => r.txId ≠ txId),
      s.registry.completedHead ++ s.registry.pendingHead.filter (fun r => r.txId = txId)⟩ }

def cowReclaimRegistryDrainCompleted (s : ReclaimState β) : Option (ReclaimState β) :=
  (s.registry.completedHead.foldlM drainRecord s.reclaiming).map (fun q =>
    { s with reclaiming := q,registry := { s.registry with completedHead := [] } })

def destroyHandle (s : ReclaimState β) (p : Nat) : Option (ReclaimState β) :=
  (handleDestroy s.reclaiming p).map (fun q => { s with reclaiming := q,callers := s.callers.erase p })

def ReclaimState.step (s : ReclaimState β) : ReclaimOp → Option (ReclaimState β)
  | .register record => some (cowReclaimRegistryRegister s record)
  | .registerCompleted dataLpas nodeLpas deletedHandles =>
    some (cowReclaimRegistryRegisterCompleted s ⟨0,dataLpas,nodeLpas,deletedHandles⟩)
  | .onTxComplete txId => some (cowReclaimRegistryOnTxComplete s txId)
  | .drainCompleted => cowReclaimRegistryDrainCompleted s
  | .destroyHandle p => destroyHandle s p

def ReclaimState.run (s : ReclaimState β) (ops : List ReclaimOp) : Option (ReclaimState β) :=
  ops.foldlM ReclaimState.step s

def ReclaimState.start (m : FileSystemManager β) (callers : List Nat) : ReclaimState β :=
  ⟨⟨m,[]⟩,⟨[],[]⟩,callers⟩

def Legal : List Nat → List ReclaimOp → Prop
  | _,[] => True
  | callers,.destroyHandle p :: ops => p ∈ callers ∧ Legal (callers.erase p) ops
  | callers,op :: ops => (∀ p ∈ op.handles, p ∈ callers) ∧ Legal callers ops

def CowReclaimRegistry.records (registry : CowReclaimRegistry) : List CowReclaimRecord :=
  registry.completedHead ++ registry.pendingHead

def ReclaimState.held (s : ReclaimState β) : List Nat :=
  s.registry.records.flatMap CowReclaimRecord.handles ++ s.callers

end Model

section Trace

def Reclaimable (ops : List ReclaimOp) (r : CowReclaimRecord) : Prop :=
  (∃ l₁ l₂, ops = l₁ ++ .register r :: l₂ ∧ .onTxComplete r.txId ∈ l₂) ∨
  r.txId = 0 ∧ .registerCompleted r.dataLpas r.nodeLpas r.deletedHandles ∈ ops

def Drained (ops : List ReclaimOp) (r : CowReclaimRecord) : Prop :=
  ∃ l₁ l₂, ops = l₁ ++ .drainCompleted :: l₂ ∧ Reclaimable l₁ r

def Registered (ops : List ReclaimOp) (r : CowReclaimRecord) : Prop := ∃ op ∈ ops, op.record = some r

variable {ops : List ReclaimOp} {op : ReclaimOp} {r : CowReclaimRecord}

theorem reclaimable_concat : Reclaimable (ops ++ [op]) r ↔ Reclaimable ops r ∨
    (op = .onTxComplete r.txId ∧ .register r ∈ ops) ∨
    r.txId = 0 ∧ op = .registerCompleted r.dataLpas r.nodeLpas r.deletedHandles := by
  constructor
  · rintro (⟨l₁,l₂,h,hin⟩ | ⟨hz,hin⟩)
    · rcases List.eq_nil_or_concat l₂ with rfl | ⟨l₃,x,rfl⟩
      · cases hin
      · rw [List.concat_eq_append,← List.cons_append,← List.append_assoc] at h
        obtain ⟨rfl,hx⟩ := List.append_inj' h rfl
        obtain rfl := List.head_eq_of_cons_eq hx
        rw [List.concat_eq_append] at hin
        rcases List.mem_append.mp hin with hin | hin
        · exact .inl (.inl ⟨l₁,l₃,rfl,hin⟩)
        · exact .inr (.inl ⟨(List.mem_singleton.mp hin).symm,by simp⟩)
    · rcases List.mem_append.mp hin with hin | hin
      · exact .inl (.inr ⟨hz,hin⟩)
      · exact .inr (.inr ⟨hz,(List.mem_singleton.mp hin).symm⟩)
  · rintro ((⟨l₁,l₂,rfl,hin⟩ | ⟨hz,hin⟩) | ⟨rfl,hin⟩ | ⟨hz,rfl⟩)
    · exact .inl ⟨l₁,l₂ ++ [op],by simp,List.mem_append_left _ hin⟩
    · exact .inr ⟨hz,List.mem_append_left _ hin⟩
    · obtain ⟨l₁,l₂,rfl⟩ := List.append_of_mem hin
      exact .inl ⟨l₁,l₂ ++ [.onTxComplete r.txId],by simp,by simp⟩
    · exact .inr ⟨hz,by simp⟩

theorem drained_concat : Drained (ops ++ [op]) r ↔ Drained ops r ∨ op = .drainCompleted ∧ Reclaimable ops r := by
  constructor
  · rintro ⟨l₁,l₂,h,hr⟩
    rcases split_concat h with ⟨l₃,rfl⟩ | ⟨rfl,hx⟩
    · exact .inl ⟨l₁,l₃,rfl,hr⟩
    · exact .inr ⟨hx,hr⟩
  · rintro (⟨l₁,l₂,rfl,hr⟩ | ⟨rfl,hr⟩)
    · exact ⟨l₁,l₂ ++ [op],by simp,hr⟩
    · exact ⟨ops,[],rfl,hr⟩

theorem Reclaimable.registered (h : Reclaimable ops r) : Registered ops r := by
  rcases h with ⟨l₁,l₂,rfl,_⟩ | ⟨hz,hin⟩
  · exact ⟨.register r,by simp,rfl⟩
  · refine ⟨_,hin,?_⟩
    cases r
    cases hz
    rfl

end Trace

section Steps
variable {β : Type}

def DeletedBy (m : FileSystemManager β) (done : List ReclaimOp) (p : Nat) : Prop :=
  (∃ nid e, m.nodeCache.Has nid p e ∧ e.state = .deleted) ∨ ∃ r, Drained done r ∧ p ∈ r.handles

structure RunInv (m : FileSystemManager β) (targets : Nat → Prop) (listed : List UInt32)
    (done : List ReclaimOp) (s : ReclaimState β) : Prop where
  core : Core m targets listed s.reclaiming (heldBy s.held) (DeletedBy m done)
  lpas : (listedIn s.reclaiming.events ++ s.registry.records.flatMap CowReclaimRecord.lpas).Perm
    (done.flatMap ReclaimOp.lpas)
  pending : ∀ r ∈ s.registry.pendingHead, .register r ∈ done
  completed : ∀ r ∈ s.registry.completedHead, Reclaimable done r
  waiting : ∀ r, .register r ∈ done → r.isEmpty = false → r ∈ s.registry.pendingHead ∨ Reclaimable done r
  ready : ∀ r, Reclaimable done r → r.isEmpty = false → r ∈ s.registry.completedHead ∨ Drained done r
  drained : ∀ r, Drained done r → ∀ x ∈ r.lpas, x ∈ listedIn s.reclaiming.events

variable {m : FileSystemManager β} {targets marked marked' : Nat → Prop} {listed : List UInt32}
  {done : List ReclaimOp} {op : ReclaimOp} {r : CowReclaimRecord} {s : ReclaimState β} {q : Reclaiming β}

theorem Core.congr {ext ext' : Nat → Nat} (h : Core m targets listed q ext marked) (he : ext = ext')
    (hm : ∀ p, marked p ↔ marked' p) : Core m targets listed q ext' marked' := by
  obtain rfl : marked = marked' := funext (fun p => propext (hm p))
  exact he ▸ h

theorem Core.copyHandles {handles : List (Option Nat)} {held : List Nat}
    (h : Core m targets listed q (heldBy held) marked) (hin : ∀ p ∈ handles.filterMap id, p ∈ held) :
    Core m targets listed (cowReclaimRegistryCopyDeletedHandles q handles)
      (heldBy (handles.filterMap id ++ held)) marked ∧
    (cowReclaimRegistryCopyDeletedHandles q handles).events = q.events := by
  unfold cowReclaimRegistryCopyDeletedHandles
  induction handles generalizing q held with
  | nil => exact ⟨h,rfl⟩
  | cons x handles ih =>
    cases x with
    | none => exact ih h hin
    | some p =>
      have hp : heldBy held p ≠ 0 := (List.count_pos_iff.mpr (hin p List.mem_cons_self)).ne'
      obtain ⟨e,hh⟩ := h.counted.held hp
      have hcopy := h.handleCopy hh
      rw [bump_heldBy] at hcopy
      obtain ⟨hcore,hev⟩ := ih hcopy (fun y hy => List.mem_cons_of_mem _ (hin y (List.mem_cons_of_mem _ hy)))
      exact ⟨hcore.congr (heldBy_perm List.perm_middle) (fun _ => .rfl),hev⟩

theorem isEmpty_nothing (h : r.isEmpty = true) : r.lpas = [] ∧ r.handles = [] := by
  unfold CowReclaimRecord.isEmpty at h
  simp only [Bool.and_eq_true,List.isEmpty_iff] at h
  obtain ⟨⟨hd,hn⟩,hh⟩ := h
  unfold CowReclaimRecord.lpas CowReclaimRecord.handles
  rw [hd,hn,hh]
  exact ⟨rfl,rfl⟩

theorem nonempty_of_lpa {x : UInt32} (h : x ∈ r.lpas) : r.isEmpty = false := by
  by_contra hc
  rw [(isEmpty_nothing (Bool.not_eq_false _ ▸ hc)).1] at h
  cases h

theorem nonempty_of_handle {p : Nat} (h : p ∈ r.handles) : r.isEmpty = false := by
  by_contra hc
  rw [(isEmpty_nothing (Bool.not_eq_false _ ▸ hc)).2] at h
  cases h

theorem deletedBy_concat (hne : op ≠ .drainCompleted) (p : Nat) : DeletedBy m (done ++ [op]) p ↔ DeletedBy m done p := by
  unfold DeletedBy
  simp [drained_concat,hne]

theorem flatMap_concat_lpas : (done ++ [op]).flatMap ReclaimOp.lpas = done.flatMap ReclaimOp.lpas ++ op.lpas := by
  simp

theorem drained_quiet (hne : op ≠ .drainCompleted) : Drained (done ++ [op]) r ↔ Drained done r := by
  simp [drained_concat,hne]

theorem mem_register (h : .register r ∈ done ++ [op]) (hne : op ≠ .register r) : .register r ∈ done :=
  (List.mem_append.mp h).resolve_right (fun hx => hne (List.mem_singleton.mp hx).symm)

theorem records_register_lpas (h : (listedIn q.events ++ s.registry.records.flatMap CowReclaimRecord.lpas).Perm
    (done.flatMap ReclaimOp.lpas)) (hop : op.lpas = r.lpas) {records : List CowReclaimRecord}
    (hr : records.Perm (r :: s.registry.records)) :
    (listedIn q.events ++ records.flatMap CowReclaimRecord.lpas).Perm ((done ++ [op]).flatMap ReclaimOp.lpas) := by
  rw [flatMap_concat_lpas,hop]
  refine ((hr.flatMap_right _).append_left _).trans ?_
  rw [List.flatMap_cons]
  exact (List.perm_append_comm_assoc _ _ _).trans (List.perm_append_comm.trans (h.append_right _))

theorem held_register {records : List CowReclaimRecord} (hr : records.Perm (r :: s.registry.records)) :
    heldBy (r.handles ++ s.held) = heldBy (records.flatMap CowReclaimRecord.handles ++ s.callers) := by
  apply heldBy_perm
  unfold ReclaimState.held
  rw [← List.append_assoc]
  exact ((hr.flatMap_right _).append_right _).symm

theorem RunInv.register (h : RunInv m targets listed done s) (hin : ∀ p ∈ r.handles, p ∈ s.callers) :
    RunInv m targets listed (done ++ [.register r]) (cowReclaimRegistryRegister s r) := by
  have hquiet : ReclaimOp.register r ≠ .drainCompleted := nofun
  have hrec (r' : CowReclaimRecord) : Reclaimable (done ++ [.register r]) r' ↔ Reclaimable done r' := by
    simp [reclaimable_concat]
  unfold cowReclaimRegistryRegister
  split
  · rename_i he
    refine ⟨h.core.congr rfl (fun p => (deletedBy_concat hquiet p).symm),?_,fun r' hr' => ?_,fun r' hr' => ?_,
      fun r' hr' hne => ?_,fun r' hr' hne => ?_,fun r' hr' => ?_⟩
    · rw [flatMap_concat_lpas]
      change List.Perm _ (_ ++ r.lpas)
      rw [(isEmpty_nothing he).1,List.append_nil]
      exact h.lpas
    · exact List.mem_append_left _ (h.pending r' hr')
    · exact (hrec r').mpr (h.completed r' hr')
    · rw [hrec]
      rcases List.mem_append.mp hr' with hr' | hr'
      · exact h.waiting r' hr' hne
      · cases List.mem_singleton.mp hr'
        rw [he] at hne
        cases hne
    · rw [drained_quiet hquiet]
      exact h.ready r' ((hrec r').mp hr') hne
    · exact h.drained r' ((drained_quiet hquiet).mp hr')
  · have hperm : (s.registry.completedHead ++ (s.registry.pendingHead ++ [r])).Perm (r :: s.registry.records) := by
      rw [← List.append_assoc]
      exact List.perm_append_singleton _ _
    obtain ⟨hcore,hev⟩ := h.core.copyHandles (fun p hp => List.mem_append_right _ (hin p hp))
    refine ⟨hcore.congr (held_register hperm) (fun p => (deletedBy_concat hquiet p).symm),?_,fun r' hr' => ?_,
      fun r' hr' => ?_,fun r' hr' hne => ?_,fun r' hr' hne => ?_,fun r' hr' => ?_⟩
    · simp only [hev]
      exact records_register_lpas h.lpas rfl hperm
    · rcases List.mem_append.mp hr' with hr' | hr'
      · exact List.mem_append_left _ (h.pending r' hr')
      · rw [List.mem_singleton.mp hr']
        simp
    · exact (hrec r').mpr (h.completed r' hr')
    · rw [hrec]
      rcases List.mem_append.mp hr' with hr' | hr'
      · exact (h.waiting r' hr' hne).imp_left (List.mem_append_left _)
      · cases List.mem_singleton.mp hr'
        exact .inl (by simp)
    · rw [drained_quiet hquiet]
      exact h.ready r' ((hrec r').mp hr') hne
    · simp only [hev]
      exact h.drained r' ((drained_quiet hquiet).mp hr')

theorem RunInv.registerCompleted {data nodes : List UInt32} {handles : List (Option Nat)}
    (h : RunInv m targets listed done s) (hin : ∀ p ∈ handles.filterMap id, p ∈ s.callers) :
    RunInv m targets listed (done ++ [.registerCompleted data nodes handles])
      (cowReclaimRegistryRegisterCompleted s ⟨0,data,nodes,handles⟩) := by
  have hquiet : ReclaimOp.registerCompleted data nodes handles ≠ .drainCompleted := nofun
  have hrec (r' : CowReclaimRecord) : Reclaimable (done ++ [.registerCompleted data nodes handles]) r' ↔
      Reclaimable done r' ∨ r' = ⟨0,data,nodes,handles⟩ := by
    cases r'
    simp [reclaimable_concat,eq_comm]
  unfold cowReclaimRegistryRegisterCompleted
  split
  · rename_i he
    refine ⟨h.core.congr rfl (fun p => (deletedBy_concat hquiet p).symm),?_,fun r' hr' => ?_,fun r' hr' => ?_,
      fun r' hr' hne => ?_,fun r' hr' hne => ?_,fun r' hr' => ?_⟩
    · rw [flatMap_concat_lpas]
      change List.Perm _ (_ ++ CowReclaimRecord.lpas _)
      rw [(isEmpty_nothing he).1,List.append_nil]
      exact h.lpas
    · exact List.mem_append_left _ (h.pending r' hr')
    · exact (hrec r').mpr (.inl (h.completed r' hr'))
    · exact (h.waiting r' (mem_register hr' nofun) hne).imp_right (fun hr => (hrec r').mpr (.inl hr))
    · rw [drained_quiet hquiet]
      rcases (hrec r').mp hr' with hr' | rfl
      · exact h.ready r' hr' hne
      · rw [he] at hne
        cases hne
    · exact h.drained r' ((drained_quiet hquiet).mp hr')
  · have hperm : (s.registry.completedHead ++ [CowReclaimRecord.mk 0 data nodes handles] ++
        s.registry.pendingHead).Perm (⟨0,data,nodes,handles⟩ :: s.registry.records) := by
      rw [List.append_assoc]
      exact List.perm_middle
    obtain ⟨hcore,hev⟩ := h.core.copyHandles (fun p hp => List.mem_append_right _ (hin p hp))
    refine ⟨hcore.congr (held_register hperm) (fun p => (deletedBy_concat hquiet p).symm),?_,fun r' hr' => ?_,
      fun r' hr' => ?_,fun r' hr' hne => ?_,fun r' hr' hne => ?_,fun r' hr' => ?_⟩
    · simp only [hev]
      exact records_register_lpas h.lpas rfl hperm
    · exact List.mem_append_left _ (h.pending r' hr')
    · rw [hrec]
      rcases List.mem_append.mp hr' with hr' | hr'
      · exact .inl (h.completed r' hr')
      · exact .inr (List.mem_singleton.mp hr')
    · exact (h.waiting r' (mem_register hr' nofun) hne).imp_right (fun hr => (hrec r').mpr (.inl hr))
    · rw [drained_quiet hquiet]
      rcases (hrec r').mp hr' with hr' | rfl
      · exact (h.ready r' hr' hne).imp_left (List.mem_append_left _)
      · exact .inl (by simp)
    · simp only [hev]
      exact h.drained r' ((drained_quiet hquiet).mp hr')

theorem RunInv.onTxComplete (h : RunInv m targets listed done s) (txId : Nat) :
    RunInv m targets listed (done ++ [.onTxComplete txId]) (cowReclaimRegistryOnTxComplete s txId) := by
  have hquiet : ReclaimOp.onTxComplete txId ≠ .drainCompleted := nofun
  have hrec (r' : CowReclaimRecord) : Reclaimable (done ++ [.onTxComplete txId]) r' ↔
      Reclaimable done r' ∨ r'.txId = txId ∧ .register r' ∈ done := by
    simp [reclaimable_concat,eq_comm]
  have hperm : (cowReclaimRegistryOnTxComplete s txId).registry.records.Perm s.registry.records := by
    unfold cowReclaimRegistryOnTxComplete CowReclaimRegistry.records
    rw [List.append_assoc]
    have hsplit := List.filter_append_perm (fun r : CowReclaimRecord => decide (r.txId = txId)) s.registry.pendingHead
    simp only [← decide_not] at hsplit
    exact hsplit.append_left _
  refine ⟨h.core.congr (heldBy_perm ((hperm.flatMap_right _).append_right _).symm)
    (fun p => (deletedBy_concat hquiet p).symm),?_,fun r' hr' => ?_,fun r' hr' => ?_,fun r' hr' hne => ?_,
    fun r' hr' hne => ?_,fun r' hr' => ?_⟩
  · rw [flatMap_concat_lpas]
    change List.Perm _ (_ ++ [])
    rw [List.append_nil]
    exact ((hperm.flatMap_right _).append_left _).trans h.lpas
  · exact List.mem_append_left _ (h.pending r' (List.mem_filter.mp hr').1)
  · rw [hrec]
    rcases List.mem_append.mp hr' with hr' | hr'
    · exact .inl (h.completed r' hr')
    · obtain ⟨hr',htx⟩ := List.mem_filter.mp hr'
      exact .inr ⟨of_decide_eq_true htx,h.pending r' hr'⟩
  · rw [hrec]
    have hr := mem_register hr' nofun
    by_cases htx : r'.txId = txId
    · exact .inr (.inr ⟨htx,hr⟩)
    · refine (h.waiting r' hr hne).imp (fun hp => ?_) .inl
      exact List.mem_filter.mpr ⟨hp,decide_eq_true htx⟩
  · rw [drained_quiet hquiet]
    rcases (hrec r').mp hr' with hr' | ⟨htx,hr'⟩
    · exact (h.ready r' hr' hne).imp_left (List.mem_append_left _)
    · rcases h.waiting r' hr' hne with hp | hp
      · exact .inl (List.mem_append_right _ (List.mem_filter.mpr ⟨hp,decide_eq_true htx⟩))
      · exact (h.ready r' hp hne).imp_left (List.mem_append_left _)
  · exact h.drained r' ((drained_quiet hquiet).mp hr')

theorem Registered.handles_mem (h : Registered done r) {p : Nat} (hp : p ∈ r.handles) :
    p ∈ done.flatMap ReclaimOp.handles := by
  obtain ⟨op,hop,ho⟩ := h
  refine List.mem_flatMap.mpr ⟨op,hop,?_⟩
  rw [ReclaimOp.handles,ho]
  exact hp

theorem Registered.lpas_mem (h : Registered done r) {x : UInt32} (hx : x ∈ r.lpas) :
    x ∈ done.flatMap ReclaimOp.lpas := by
  obtain ⟨op,hop,ho⟩ := h
  refine List.mem_flatMap.mpr ⟨op,hop,?_⟩
  rw [ReclaimOp.lpas,ho]
  exact hx

theorem Core.drainRecords (hc : Claimable m targets listed) {records : List CowReclaimRecord} {rest : List Nat}
    (h : Core m targets listed q (heldBy (records.flatMap CowReclaimRecord.handles ++ rest)) marked)
    (hx : ∀ x ∈ records.flatMap CowReclaimRecord.lpas, x ∈ listed)
    (hnd : (listedIn q.events ++ records.flatMap CowReclaimRecord.lpas).Nodup)
    (ht : ∀ p ∈ records.flatMap CowReclaimRecord.handles, targets p) :
    ∃ q', records.foldlM NodeReclaim.drainRecord q = some q' ∧
      Core m targets listed q' (heldBy rest)
        (fun p => marked p ∨ p ∈ records.flatMap CowReclaimRecord.handles) ∧
      listedIn q'.events = listedIn q.events ++ records.flatMap CowReclaimRecord.lpas := by
  induction records generalizing q marked with
  | nil => exact ⟨q,rfl,h.congr rfl (fun p => by simp),(List.append_nil _).symm⟩
  | cons r records ih =>
    rw [List.flatMap_cons,List.append_assoc] at h
    rw [List.flatMap_cons] at hx hnd ht
    rw [← List.append_assoc] at hnd
    obtain ⟨hnd₁,_,_⟩ := List.nodup_append.mp hnd
    obtain ⟨_,hndr,hdis⟩ := List.nodup_append.mp hnd₁
    obtain ⟨q₁,h₁,hcore₁,hl₁⟩ := h.drainRecord hc (fun x hm => hx x (List.mem_append_left _ hm)) hndr
      (fun x hm hin => hdis x hin x hm rfl) (fun p hp => ht p (List.mem_append_left _ hp))
    obtain ⟨q₂,h₂,hcore₂,hl₂⟩ := ih hcore₁ (fun x hm => hx x (List.mem_append_right _ hm)) (hl₁ ▸ hnd)
      (fun p hp => ht p (List.mem_append_right _ hp))
    refine ⟨q₂,?_,hcore₂.congr rfl (fun p => ?_),?_⟩
    · rw [List.foldlM_cons,h₁]
      exact h₂
    · rw [List.flatMap_cons,List.mem_append,or_assoc]
    · rw [hl₂,hl₁,List.flatMap_cons,List.append_assoc]

theorem RunInv.drainCompleted (h : RunInv m targets listed done s) (hc : Claimable m targets listed)
    (hsub : (done.flatMap ReclaimOp.lpas).Sublist listed)
    (ht : ∀ p ∈ done.flatMap ReclaimOp.handles, targets p) :
    ∃ s', cowReclaimRegistryDrainCompleted s = some s' ∧
      RunInv m targets listed (done ++ [.drainCompleted]) s' ∧ s'.callers = s.callers ∧
      s'.registry = ⟨s.registry.pendingHead,[]⟩ := by
  have hnd := h.lpas.nodup_iff.mpr (hsub.nodup hc.listedOnce)
  have hsplit : s.registry.records.flatMap CowReclaimRecord.lpas =
      s.registry.completedHead.flatMap CowReclaimRecord.lpas ++
        s.registry.pendingHead.flatMap CowReclaimRecord.lpas := List.flatMap_append ..
  have hheld : s.held = s.registry.completedHead.flatMap CowReclaimRecord.handles ++
      (s.registry.pendingHead.flatMap CowReclaimRecord.handles ++ s.callers) := by
    unfold ReclaimState.held CowReclaimRegistry.records
    rw [List.flatMap_append,List.append_assoc]
  have hlist : ∀ x ∈ s.registry.completedHead.flatMap CowReclaimRecord.lpas, x ∈ listed := by
    intro x hx
    obtain ⟨r,hr,hx⟩ := List.mem_flatMap.mp hx
    exact hsub.subset ((h.completed r hr).registered.lpas_mem hx)
  rw [hsplit,← List.append_assoc] at hnd
  obtain ⟨q,hq,hcore,hl⟩ := (h.core.congr (congrArg heldBy hheld) (fun _ => .rfl)).drainRecords hc hlist
    (List.nodup_append.mp hnd).1 (fun p hp => by
      obtain ⟨r,hr,hp⟩ := List.mem_flatMap.mp hp
      exact ht p ((h.completed r hr).registered.handles_mem hp))
  have hrec (r' : CowReclaimRecord) : Reclaimable (done ++ [.drainCompleted]) r' ↔ Reclaimable done r' := by
    simp [reclaimable_concat]
  have hdrain (r' : CowReclaimRecord) : Drained (done ++ [.drainCompleted]) r' ↔
      Drained done r' ∨ Reclaimable done r' := by
    simp [drained_concat]
  refine ⟨{ s with reclaiming := q,registry := { s.registry with completedHead := [] } },?_,?_,rfl,rfl⟩
  · rw [cowReclaimRegistryDrainCompleted,hq]
    rfl
  refine ⟨hcore.congr rfl (fun p => ?_),?_,fun r' hr' => ?_,fun r' hr' => ?_,fun r' hr' hne => ?_,
    fun r' hr' hne => ?_,fun r' hr' x hx => ?_⟩
  · simp only [DeletedBy,hdrain,List.mem_flatMap]
    constructor
    · rintro ((hp | ⟨r,hr,hp⟩) | ⟨r,hr,hp⟩)
      · exact .inl hp
      · exact .inr ⟨r,.inl hr,hp⟩
      · exact .inr ⟨r,.inr (h.completed r hr),hp⟩
    · rintro (hp | ⟨r,hr | hr,hp⟩)
      · exact .inl (.inl hp)
      · exact .inl (.inr ⟨r,hr,hp⟩)
      · rcases h.ready r hr (nonempty_of_handle hp) with hr | hr
        · exact .inr ⟨r,hr,hp⟩
        · exact .inl (.inr ⟨r,hr,hp⟩)
  · rw [flatMap_concat_lpas]
    change List.Perm _ (_ ++ [])
    rw [List.append_nil,hl]
    refine List.Perm.trans ?_ h.lpas
    rw [hsplit,← List.append_assoc]
    exact .refl _
  · exact List.mem_append_left _ (h.pending r' hr')
  · cases hr'
  · rw [hrec]
    exact h.waiting r' (mem_register hr' nofun) hne
  · rw [hdrain]
    exact .inr (.inr ((hrec r').mp hr'))
  · simp only [hl]
    have hold (hd : Drained done r') : x ∈ listedIn s.reclaiming.events ++
        s.registry.completedHead.flatMap CowReclaimRecord.lpas :=
      List.mem_append_left _ (h.drained r' hd x hx)
    rcases (hdrain r').mp hr' with hr' | hr'
    · exact hold hr'
    · rcases h.ready r' hr' (nonempty_of_lpa hx) with hr' | hr'
      · exact List.mem_append_right _ (List.mem_flatMap.mpr ⟨r',hr',hx⟩)
      · exact hold hr'

theorem RunInv.destroyHandle (h : RunInv m targets listed done s) (hc : Claimable m targets listed) {p : Nat}
    (hp : p ∈ s.callers) : ∃ s', destroyHandle s p = some s' ∧
      RunInv m targets listed (done ++ [.destroyHandle p]) s' ∧ s'.callers = s.callers.erase p := by
  have hquiet : ReclaimOp.destroyHandle p ≠ .drainCompleted := nofun
  have hrec (r' : CowReclaimRecord) : Reclaimable (done ++ [.destroyHandle p]) r' ↔ Reclaimable done r' := by
    simp [reclaimable_concat]
  have hheld : heldBy s.held =
      bump (heldBy (s.registry.records.flatMap CowReclaimRecord.handles ++ s.callers.erase p)) p := by
    rw [bump_heldBy]
    apply heldBy_perm
    exact ((List.perm_cons_erase hp).append_left _).trans List.perm_middle
  obtain ⟨q,hq,hcore,hl⟩ := (h.core.congr hheld (fun _ => .rfl)).handleDestroy hc
  refine ⟨{ s with reclaiming := q,callers := s.callers.erase p },by rw [NodeReclaim.destroyHandle,hq]; rfl,?_,rfl⟩
  refine ⟨hcore.congr rfl (fun p => (deletedBy_concat hquiet p).symm),?_,fun r' hr' => ?_,fun r' hr' => ?_,
    fun r' hr' hne => ?_,fun r' hr' hne => ?_,fun r' hr' => ?_⟩
  · rw [flatMap_concat_lpas]
    change List.Perm _ (_ ++ [])
    rw [List.append_nil,hl]
    exact h.lpas
  · exact List.mem_append_left _ (h.pending r' hr')
  · exact (hrec r').mpr (h.completed r' hr')
  · rw [hrec]
    exact h.waiting r' (mem_register hr' nofun) hne
  · rw [drained_quiet hquiet]
    exact h.ready r' ((hrec r').mp hr') hne
  · simp only [hl]
    exact h.drained r' ((drained_quiet hquiet).mp hr')

end Steps

section Run
variable {β : Type} {m : FileSystemManager β} {targets : Nat → Prop} {listed : List UInt32}
  {callers : List Nat} {ops done l : List ReclaimOp} {s : ReclaimState β}

theorem RunInv.run (h : RunInv m targets listed done s) (hc : Claimable m targets listed)
    (hl : Legal s.callers l) (hsub : ((done ++ l).flatMap ReclaimOp.lpas).Sublist listed)
    (ht : ∀ p ∈ (done ++ l).flatMap ReclaimOp.handles, targets p) :
    ∃ s', s.run l = some s' ∧ RunInv m targets listed (done ++ l) s' := by
  induction l generalizing done s with
  | nil =>
    rw [List.append_nil]
    exact ⟨s,rfl,h⟩
  | cons op l ih =>
    have hassoc : done ++ op :: l = (done ++ [op]) ++ l := by simp
    rw [hassoc] at hsub ht ⊢
    have hnext {s' : ReclaimState β} (hs : s.step op = some s') (hinv : RunInv m targets listed (done ++ [op]) s')
        (hl' : Legal s'.callers l) : ∃ s', s.run (op :: l) = some s' ∧
          RunInv m targets listed ((done ++ [op]) ++ l) s' := by
      obtain ⟨s'',hr,hinv'⟩ := ih hinv hl' hsub ht
      refine ⟨s'',?_,hinv'⟩
      rw [ReclaimState.run,List.foldlM_cons,hs]
      exact hr
    cases op with
    | register r =>
      refine hnext rfl (h.register hl.1) ?_
      unfold cowReclaimRegistryRegister
      split <;> exact hl.2
    | registerCompleted data nodes handles =>
      refine hnext rfl (h.registerCompleted hl.1) ?_
      unfold cowReclaimRegistryRegisterCompleted
      split <;> exact hl.2
    | onTxComplete txId => exact hnext rfl (h.onTxComplete txId) hl.2
    | drainCompleted =>
      rw [List.append_assoc,List.flatMap_append] at hsub ht
      obtain ⟨s',hs,hinv,hcallers,_⟩ := h.drainCompleted hc ((List.sublist_append_left _ _).trans hsub)
        (fun p hp => ht p (List.mem_append_left _ hp))
      exact hnext hs hinv (hcallers ▸ hl.2)
    | destroyHandle p =>
      obtain ⟨s',hs,hinv,hcallers⟩ := h.destroyHandle hc hl.1
      exact hnext hs hinv (hcallers ▸ hl.2)

def Target (m : FileSystemManager β) (ops : List ReclaimOp) (p : Nat) : Prop :=
  (∃ nid e, m.nodeCache.Has nid p e ∧ e.state = .deleted) ∨ p ∈ ops.flatMap ReclaimOp.handles

structure Given (m : FileSystemManager β) (callers : List Nat) (ops : List ReclaimOp) : Prop where
  counted : m.nodeCache.Counted (heldBy callers)
  alive : ∀ {nid p e}, m.nodeCache.Has nid p e → e.state = .deleted → e.refCount ≠ 0
  claimable : Claimable m (Target m ops) (ops.flatMap ReclaimOp.lpas)
  legal : Legal callers ops

theorem not_drained_nil (r : CowReclaimRecord) : ¬ Drained [] r := by
  rintro ⟨l₁,l₂,h,_⟩
  simp at h

theorem not_reclaimable_nil (r : CowReclaimRecord) : ¬ Reclaimable [] r := by
  rintro (⟨l₁,l₂,h,_⟩ | ⟨_,h⟩)
  · simp at h
  · cases h

theorem Given.start (h : Given m callers ops) : RunInv m (Target m ops) (ops.flatMap ReclaimOp.lpas) []
    (.start m callers) where
  core := {
    counted := h.counted
    seg0 := h.claimable.seg0
    area := fun _ => .rfl
    targets := by
      rintro p (hp | ⟨r,hr,_⟩)
      · exact .inl hp
      · exact absurd hr (not_drained_nil r)
    kept := by
      intro nid p e hh
      refine ⟨e,hh,rfl,rfl,fun hd => .inl ⟨nid,e,hh,hd⟩,?_⟩
      rintro (⟨nid',e',hh',hd⟩ | ⟨r,hr,_⟩)
      · obtain rfl := Option.some.inj (hh.entry.symm.trans hh'.entry)
        exact hd
      · exact absurd hr (not_drained_nil r)
    index := fun _ => rfl
    alive := by
      rintro nid p e hh (⟨nid',e',hh',hd⟩ | ⟨r,hr,_⟩)
      · obtain rfl := Option.some.inj (hh.entry.symm.trans hh'.entry)
        exact h.alive hh hd
      · exact absurd hr (not_drained_nil r)
    bits := fun _ => rfl
    once := .nil
    listed := nofun
    freed := nofun
    order := fun hev => by simp [ReclaimState.start] at hev }
  lpas := .refl _
  pending := nofun
  completed := nofun
  waiting := nofun
  ready := fun r hr => absurd hr (not_reclaimable_nil r)
  drained := fun r hr => absurd hr (not_drained_nil r)

structure Accounted (m : FileSystemManager β) (done : List ReclaimOp) (s : ReclaimState β) : Prop where
  invalidated : ∀ r, Drained done r → ∀ x ∈ r.lpas,
    (s.reclaiming.events.map ReclaimEvent.lpa).count x = 1 ∧ lpaBit s.reclaiming.manager.fs x = false
  notEarly : ∀ r, Registered done r → ¬ Drained done r → ∀ x ∈ r.lpas,
    (s.reclaiming.events.map ReclaimEvent.lpa).count x = 0 ∧ lpaBit s.reclaiming.manager.fs x = true
  uncached : ∀ {nid p e}, m.nodeCache.Has nid p e →
    (s.reclaiming.manager.nodeCache.lookup nid = none ↔ DeletedBy m done p ∧ p ∉ s.held ∧
      s.reclaiming.manager.nodeCache.children nid = 0)
  freed : ∀ {nid p e}, m.nodeCache.Has nid p e → s.reclaiming.manager.nodeCache.lookup nid = none →
    (freedIn s.reclaiming.events).count nid = 1 ∧
    (s.reclaiming.events.map ReclaimEvent.lpa).count e.lpa = 1 ∧
    lpaBit s.reclaiming.manager.fs e.lpa = false ∧
    ∃ l₁ l₂, s.reclaiming.events = l₁ ++ .nodeFreed nid e.lpa :: l₂ ∧
      (nid ≠ invalidNid → ∀ k, m.nodeCache.parentOf k = some nid → k ∈ freedIn l₁)
  notFreed : ∀ {nid p e}, m.nodeCache.Has nid p e → s.reclaiming.manager.nodeCache.lookup nid ≠ none →
    nid ∉ freedIn s.reclaiming.events ∧ (DeletedBy m done p →
      (s.reclaiming.events.map ReclaimEvent.lpa).count e.lpa = 0 ∧ lpaBit s.reclaiming.manager.fs e.lpa = true)
  pending : ∀ r, Registered done r → r.isEmpty = false → ¬ Reclaimable done r → r ∈ s.registry.pendingHead
  drain : ∃ s', cowReclaimRegistryDrainCompleted s = some s' ∧ s'.registry = ⟨s.registry.pendingHead,[]⟩

theorem RunInv.notEarly (h : RunInv m targets listed done s) (hnd : (done.flatMap ReclaimOp.lpas).Nodup)
    {r : CowReclaimRecord} (hr : Registered done r) (hdr : ¬ Drained done r) {x : UInt32} (hx : x ∈ r.lpas) :
    x ∉ listedIn s.reclaiming.events := by
  have hne := nonempty_of_lpa hx
  have hin : r ∈ s.registry.records := by
    have hready (hre : Reclaimable done r) : r ∈ s.registry.records :=
      List.mem_append_left _ ((h.ready r hre hne).resolve_right hdr)
    obtain ⟨op,hop,ho⟩ := hr
    cases op with
    | register r' =>
      cases ho
      rcases h.waiting r hop hne with hp | hre
      · exact List.mem_append_right _ hp
      · exact hready hre
    | registerCompleted data nodes handles =>
      cases ho
      exact hready (.inr ⟨rfl,hop⟩)
    | _ => cases ho
  intro hlog
  exact (List.nodup_append.mp (h.lpas.nodup_iff.mpr hnd)).2.2 x hlog x
    (List.mem_flatMap.mpr ⟨r,hin,hx⟩) rfl

theorem RunInv.freed (h : RunInv m targets listed done s) {nid : UInt32} {p : Nat}
    {e : NodeBlockCacheEntry β} (hh : m.nodeCache.Has nid p e)
    (hnone : s.reclaiming.manager.nodeCache.lookup nid = none) :
    .nodeFreed nid e.lpa ∈ s.reclaiming.events := by
  have hidx := h.core.index nid
  rw [hnone,hh.lookup] at hidx
  have hfreed : nid ∈ freedIn s.reclaiming.events := by
    by_contra hnot
    rw [if_neg hnot] at hidx
    cases hidx
  obtain ⟨lpa,hev⟩ := mem_freedIn.mp hfreed
  obtain ⟨q,eq,hq,_,rfl⟩ := h.core.freed hev
  obtain ⟨rfl,rfl⟩ := hh.eq hq
  exact hev

end Run

section Small

end Small

end NodeReclaim

end Rtfs
