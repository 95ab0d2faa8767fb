import Rtfs.Fs.NodeReclaimRun
import Rtfs.Lib.Outcome

namespace Rtfs

namespace NodeReclaim

open NodeBlockCache RtfsSuperBlock

section Shadow
variable {β : Type} {view : Nat → UInt32 × UInt32} {s s' : Reclaiming β} {p : Nat} {r : CowReclaimRecord}

-- the record as it lists nodes instead of handles, view gives the node of a handle
def CowReclaimRecord.shadow (view : Nat → UInt32 × UInt32) (r : CowReclaimRecord) : Rtfs.CowReclaimRecord :=
  ⟨r.txId,r.dataLpas,r.nodeLpas,r.handles.map view⟩

def CowReclaimRegistry.shadow (view : Nat → UInt32 × UInt32) (registry : CowReclaimRegistry) :
    Rtfs.CowReclaimRegistry :=
  ⟨registry.pendingHead.map (CowReclaimRecord.shadow view),registry.completedHead.map (CowReclaimRecord.shadow view)⟩

theorem shadow_isEmpty (hfull : none ∉ r.deletedHandles) : (r.shadow view).isEmpty = r.isEmpty := by
  have hhandles : (r.handles.map view).isEmpty = r.deletedHandles.isEmpty := by
    unfold CowReclaimRecord.handles
    cases hd : r.deletedHandles with
    | nil => rfl
    | cons h hs =>
      cases h with
      | none => exact absurd (hd ▸ List.mem_cons_self) hfull
      | some p => rfl
  unfold Rtfs.CowReclaimRecord.isEmpty CowReclaimRecord.isEmpty CowReclaimRecord.shadow
  rw [hhandles]

theorem register_shadow (t : ReclaimState β) (hfull : none ∉ r.deletedHandles) :
    (cowReclaimRegistryRegister t r).registry.shadow view =
      Rtfs.cowReclaimRegistryRegister (t.registry.shadow view) (r.shadow view) := by
  unfold cowReclaimRegistryRegister Rtfs.cowReclaimRegistryRegister
  rw [shadow_isEmpty hfull]
  split
  · rfl
  · simp [CowReclaimRegistry.shadow]

theorem registerCompleted_shadow (t : ReclaimState β) (hfull : none ∉ r.deletedHandles) (hid : r.txId = 0) :
    (cowReclaimRegistryRegisterCompleted t r).registry.shadow view =
      Rtfs.cowReclaimRegistryRegisterCompleted (t.registry.shadow view) (r.shadow view) := by
  unfold cowReclaimRegistryRegisterCompleted Rtfs.cowReclaimRegistryRegisterCompleted
  rw [shadow_isEmpty hfull]
  split
  · rfl
  · simp [CowReclaimRegistry.shadow,CowReclaimRecord.shadow,hid]

theorem onTxComplete_shadow (t : ReclaimState β) (txId : Nat) :
    (cowReclaimRegistryOnTxComplete t txId).registry.shadow view =
      Rtfs.cowReclaimRegistryOnTxComplete (t.registry.shadow view) txId := by
  unfold cowReclaimRegistryOnTxComplete Rtfs.cowReclaimRegistryOnTxComplete CowReclaimRegistry.shadow
  simp only [List.filter_map,List.map_append]
  rfl

-- p is the only handle on a node without a parent, which view gives
structure LastHandle (view : Nat → UInt32 × UInt32) (c : NodeBlockCache β) (p : Nat) : Prop where
  entry : ∃ e, c.entry p = some e ∧ e.refCount = 1 ∧ e.parentNid = invalidNid ∧ e.lpa ≠ invalidLpa ∧
    view p = (e.nid,e.lpa)

theorem freeDeletedHandle_shadow (h : LastHandle view s.manager.nodeCache p) :
    (freeDeletedHandle s (some p)).map (fun s' => s'.manager.fs) =
      nodeBlockCacheDeleteNode s.manager.fs (view p) ∧
    ∀ s', freeDeletedHandle s (some p) = some s' → ∀ q ≠ p,
      s'.manager.nodeCache.entry q = s.manager.nodeCache.entry q := by
  obtain ⟨e,he,hone,hparent,hlpa,hview⟩ := h.entry
  have hdel := deleteNode_entry he
  let e' : NodeBlockCacheEntry β := { e with state := .deleted }
  let m := s.manager.onCache ((s.manager.nodeCache.deleteNode p).released p e')
  have hfree : freeDeletedHandle s (some p) =
      (dropDeleted m e').map (fun m => ⟨m,s.events ++ [.nodeFreed e.nid e.lpa]⟩) := by
    change subRefCount (_ + 1) (handleDeleteNode s p) p = _
    rw [subRefCount]
    have hentry : (handleDeleteNode s p).manager.nodeCache.entry p = some e' := (hdel p).trans (if_pos rfl)
    have hlast : ¬ (e'.refCount ≠ 1 ∨ e'.state ≠ .deleted) := by simp [e',hone]
    simp only [hentry]
    rw [if_neg hlast]
    generalize hd : dropDeleted ((handleDeleteNode s p).manager.onCache
      ((handleDeleteNode s p).manager.nodeCache.released p e')) e' = dropped
    rw [show dropDeleted m e' = dropped from hd]
    cases dropped with
    | none => rfl
    | some m' => exact if_pos hparent
  have hdrop : dropDeleted m e' = (nodeBlockCacheDeleteNode s.manager.fs (view p)).map (fun fs =>
      { m with nodeCache := m.nodeCache.without (m.nodeCache.cacheManager.remove e.nid), fs := fs }) := by
    unfold dropDeleted nodeBlockCacheDeleteNode
    rw [hview]
    change (superManagerFreeNid s.manager.fs e.nid).bind (fun fs =>
      (if e.lpa = invalidLpa then some fs else sitInvalidateLpa fs e.lpa).map _) = _
    cases superManagerFreeNid s.manager.fs e.nid with
    | none => rfl
    | some fs => exact congrArg (Option.map _) (if_neg hlpa)
  rw [hfree,hdrop]
  refine ⟨?_,fun s' hs' q hq => ?_⟩
  · cases nodeBlockCacheDeleteNode s.manager.fs (view p) <;> rfl
  · obtain ⟨m',hm',rfl⟩ := Option.map_eq_some_iff.mp hs'
    obtain ⟨fs,-,rfl⟩ := Option.map_eq_some_iff.mp hm'
    change ((s.manager.nodeCache.deleteNode p).released p e').entry q = _
    rw [released_entry ((hdel p).trans (if_pos rfl)),if_neg hq,hdel,if_neg hq]

structure LastHandles (view : Nat → UInt32 × UInt32) (ps : List Nat) (s : Reclaiming β) : Prop where
  distinct : ps.Nodup
  last : ∀ p ∈ ps, LastHandle view s.manager.nodeCache p

theorem LastHandles.kept {ps : List Nat} (h : LastHandles view ps s)
    (hs : s'.manager.nodeCache = s.manager.nodeCache) : LastHandles view ps s' :=
  ⟨h.distinct,fun p hp => by rw [hs]; exact h.last p hp⟩

theorem invalidateAll_shadow {ps : List Nat} (lpas : List UInt32) (h : LastHandles view ps s) :
    (lpas.foldlM invalidateLpa s).map (fun s' => s'.manager.fs) = sitInvalidateLpas s.manager.fs lpas ∧
      ∀ s', lpas.foldlM invalidateLpa s = some s' → LastHandles view ps s' := by
  refine foldlM_simulates (I := fun _ => LastHandles view ps) (fun lpa _ s h => ⟨?_,fun s' hs' => ?_⟩) lpas h
  · unfold invalidateLpa
    rw [Option.map_map]
    exact Option.map_id'
  · obtain ⟨m,-,rfl⟩ := Option.map_eq_some_iff.mp hs'
    exact h.kept rfl

theorem freeRecord_handles (s : Reclaiming β) (r : CowReclaimRecord) :
    cowReclaimRegistryFreeRecord s r = r.handles.foldlM (fun s p => freeDeletedHandle s (some p)) s := by
  unfold cowReclaimRegistryFreeRecord CowReclaimRecord.handles
  induction r.deletedHandles generalizing s with
  | nil => rfl
  | cons h hs ih =>
    cases h with
    | none => exact ih s
    | some p => exact congrArg (Option.bind (freeDeletedHandle s (some p))) (funext ih)

theorem freeRecord_shadow {rest : List Nat} (h : LastHandles view (r.handles ++ rest) s) :
    (cowReclaimRegistryFreeRecord s r).map (fun s' => s'.manager.fs) =
      (r.handles.map view).foldlM nodeBlockCacheDeleteNode s.manager.fs ∧
    ∀ s', cowReclaimRegistryFreeRecord s r = some s' → LastHandles view rest s' := by
  rw [freeRecord_handles,List.foldlM_map]
  refine foldlM_simulates (I := fun ps => LastHandles view (ps ++ rest)) (fun p ps s h => ?_) r.handles h
  obtain ⟨hfs,hkept⟩ := freeDeletedHandle_shadow (h.last p List.mem_cons_self)
  refine ⟨hfs,fun s' hs' => ?_⟩
  obtain ⟨hnot,hdistinct⟩ := List.nodup_cons.mp h.distinct
  refine ⟨hdistinct,fun q hq => ?_⟩
  have hne : q ≠ p := fun he => hnot (he ▸ hq)
  obtain ⟨e,he⟩ := (h.last q (List.mem_cons_of_mem p hq)).entry
  exact ⟨e,(hkept s' hs' q hne).trans he.1,he.2⟩

theorem drainRecord_shadow {rest : List Nat} (h : LastHandles view (r.handles ++ rest) s) :
    (drainRecord s r).map (fun s' => s'.manager.fs) = Rtfs.CowReclaimRecord.drain s.manager.fs (r.shadow view) ∧
      ∀ s', drainRecord s r = some s' → LastHandles view rest s' := by
  obtain ⟨hdata,hrest⟩ := invalidateAll_shadow r.dataLpas h
  unfold drainRecord Rtfs.CowReclaimRecord.drain
  change _ = (sitInvalidateLpas s.manager.fs r.dataLpas).bind _ ∧ _
  rw [← hdata]
  cases hd : r.dataLpas.foldlM invalidateLpa s with
  | none => exact ⟨rfl,nofun⟩
  | some s₁ =>
    have h₁ := hrest s₁ hd
    obtain ⟨hnode,hrest⟩ := invalidateAll_shadow r.nodeLpas h₁
    change ((r.nodeLpas.foldlM invalidateLpa s₁).bind _).map _ =
      (sitInvalidateLpas s₁.manager.fs r.nodeLpas).bind _ ∧ ∀ s', (r.nodeLpas.foldlM invalidateLpa s₁).bind _ = _ → _
    rw [← hnode]
    cases hn : r.nodeLpas.foldlM invalidateLpa s₁ with
    | none => exact ⟨rfl,nofun⟩
    | some s₂ => exact freeRecord_shadow (hrest s₂ hn)

-- the registry that lists nodes gives back the same where every handle of a record is a last one
theorem drainCompleted_shadow {t : ReclaimState β}
    (h : LastHandles view (t.registry.completedHead.flatMap CowReclaimRecord.handles) t.reclaiming) :
    (cowReclaimRegistryDrainCompleted t).map (fun t' => (t'.registry.shadow view,t'.reclaiming.manager.fs)) =
      Rtfs.cowReclaimRegistryDrainCompleted (t.registry.shadow view) t.reclaiming.manager.fs := by
  obtain ⟨hfs,-⟩ := foldlM_simulates (f := drainRecord) (g := fun m r => Rtfs.CowReclaimRecord.drain m (r.shadow view))
    (I := fun rs => LastHandles view (rs.flatMap CowReclaimRecord.handles))
    (fun r rs s h => drainRecord_shadow h) t.registry.completedHead h
  unfold cowReclaimRegistryDrainCompleted Rtfs.cowReclaimRegistryDrainCompleted CowReclaimRegistry.shadow
  simp only [List.foldlM_map]
  rw [← hfs]
  cases t.registry.completedHead.foldlM drainRecord t.reclaiming <;> rfl

end Shadow

end NodeReclaim

end Rtfs
