import Rtfs.Fs.ReclaimPlan
import Rtfs.Inode.FileIndex
import Rtfs.Lib.SlotWalk

namespace Rtfs

-- node answers the lookup of a nid, the other two the realloc of the arrays
structure PlanEnv where
  node : UInt32 → Except Errno Block
  dataRealloc : Nat → Bool
  handleRealloc : Nat → Bool

-- refs counts the handles on the cache entry of a nid, and a copied handle is named by that nid
structure PlanState where
  refs : UInt32 → Nat
  data : GrowArray UInt32
  deleted : GrowArray UInt32

def PlanState.retain (s : PlanState) (nid : UInt32) : PlanState :=
  { s with refs := Function.update s.refs nid (s.refs nid + 1) }

def PlanState.release (s : PlanState) (nid : UInt32) : PlanState :=
  { s with refs := Function.update s.refs nid (s.refs nid - 1) }

abbrev Visit := PlanState → UInt32 → Except Errno Unit × PlanState

def andThen (r : Except Errno Unit × PlanState) (f : PlanState → Except Errno Unit × PlanState) :
    Except Errno Unit × PlanState :=
  match r with
  | (.error e,s) => (.error e,s)
  | (.ok _,s) => f s

def forEach (visit : Visit) : List UInt32 → PlanState → Except Errno Unit × PlanState
  | [], s => (.ok (),s)
  | v :: vs, s => andThen (visit s v) (forEach visit vs)

def skipHole (visit : Visit) : Visit := fun s nid => if nid = invalidNid then (.ok (),s) else visit s nid

def appendData (env : PlanEnv) : Visit := fun s value =>
  match rtfsAppendUniqueUint32 env.dataRealloc s.data value with
  | .error e => (.error e,s)
  | .ok data => (.ok (),{ s with data := data })

def rtfsAppendUniqueDeletedHandleCopy (env : PlanEnv) : Visit := fun s nid =>
  if nid ∈ s.deleted.items then (.ok (),s)
  else
    match s.deleted.push 4 env.handleRealloc nid with
    | none => (.error .enomem,s)
    | some deleted => (.ok (),{ s.retain nid with deleted := deleted })

def nodeSlots (b : Block) : List UInt32 := (List.range 1020).map (nodeSlot b)

-- what the three levels share; the handle on the node is destroyed on every way out
def collectNode (env : PlanEnv) (visit : Visit) : Visit := fun s nid =>
  if nid = invalidNid then (.error .einval,s)
  else
    match env.node nid with
    | .error e => (.error e,s)
    | .ok b =>
      let r := andThen (rtfsAppendUniqueDeletedHandleCopy env (s.retain nid) nid) (forEach visit (nodeSlots b))
      (r.1,r.2.release nid)

def rtfsCollectDirectNodeReclaimPlan (env : PlanEnv) : Visit := collectNode env (appendData env)

def rtfsCollectIndirectNodeReclaimPlan (env : PlanEnv) : Visit :=
  collectNode env (skipHole (rtfsCollectDirectNodeReclaimPlan env))

def rtfsCollectDoubleIndirectNodeReclaimPlan (env : PlanEnv) : Visit :=
  collectNode env (skipHole (rtfsCollectIndirectNodeReclaimPlan env))

def collectFile (env : PlanEnv) (target : Block) (s : PlanState) : Except Errno Unit × PlanState :=
  andThen (forEach (appendData env) ((List.range defAddrsPerInode).map (inodeAddr target)) s) fun s =>
  andThen (forEach (skipHole (rtfsCollectDirectNodeReclaimPlan env))
    [inodeNid target 0,inodeNid target 1] s) fun s =>
  andThen (forEach (skipHole (rtfsCollectIndirectNodeReclaimPlan env))
    [inodeNid target 2,inodeNid target 3] s) fun s =>
  skipHole (rtfsCollectDoubleIndirectNodeReclaimPlan env) s (inodeNid target 4)

def rtfsDestroyHandleArray (handles : List UInt32) (refs : UInt32 → Nat) : UInt32 → Nat :=
  handles.foldl (fun refs nid => Function.update refs nid (refs nid - 1)) refs

-- the data LPAs, the copied handles, and the handles held after the call
def rtfsCollectRegularFileReclaimPlan (env : PlanEnv) (target : Block) (refs : UInt32 → Nat) :
    Except Errno (List UInt32 × List UInt32) × (UInt32 → Nat) :=
  match collectFile env target ⟨refs,.empty,.empty⟩ with
  | (.ok _,s) => (.ok (s.data.items,s.deleted.items),s.refs)
  | (.error e,s) => (.error e,rtfsDestroyHandleArray s.deleted.items s.refs)

section Balance
variable {env : PlanEnv} {s s' s₁ : PlanState} {visit : Visit} {nid : UInt32}

structure Balanced (s s' : PlanState) : Prop where
  kept : s.deleted.items <+: s'.deleted.items
  refs : ∀ x, s'.refs x + s.deleted.items.count x = s.refs x + s'.deleted.items.count x

theorem Balanced.refl (s : PlanState) : Balanced s s := ⟨List.prefix_refl _,fun _ => rfl⟩

theorem Balanced.trans (h : Balanced s s₁) (h' : Balanced s₁ s') : Balanced s s' := by
  refine ⟨h.kept.trans h'.kept,fun x => ?_⟩
  have hx := h.refs x
  have hx' := h'.refs x
  omega

def Balances (visit : Visit) : Prop := ∀ s v, Balanced s (visit s v).2

theorem andThen_balanced {r : Except Errno Unit × PlanState} {f : PlanState → Except Errno Unit × PlanState}
    (hr : Balanced s r.2) (hf : ∀ s, Balanced s (f s).2) : Balanced s (andThen r f).2 := by
  obtain ⟨_ | _,s₁⟩ := r
  · exact hr
  · exact hr.trans (hf s₁)

theorem forEach_balanced (hv : Balances visit) (vs : List UInt32) (s : PlanState) :
    Balanced s (forEach visit vs s).2 := by
  induction vs generalizing s with
  | nil => exact Balanced.refl s
  | cons v vs ih => exact andThen_balanced (hv s v) ih

theorem skipHole_balanced (hv : Balances visit) : Balances (skipHole visit) := by
  intro s v
  unfold skipHole
  split
  · exact Balanced.refl s
  · exact hv s v

theorem appendData_balanced (env : PlanEnv) : Balances (appendData env) := by
  intro s v
  unfold appendData
  split
  · exact Balanced.refl s
  · exact ⟨List.prefix_refl _,fun _ => rfl⟩

theorem appendHandle_balanced (env : PlanEnv) : Balances (rtfsAppendUniqueDeletedHandleCopy env) := by
  intro s v
  unfold rtfsAppendUniqueDeletedHandleCopy
  split
  · exact Balanced.refl s
  · split
    · exact Balanced.refl s
    · rename_i deleted hpush
      have hitems := GrowArray.push_items hpush
      refine ⟨?_,fun x => ?_⟩
      · rw [hitems]
        exact List.prefix_append _ _
      · simp only [hitems,List.count_append,PlanState.retain,Function.update_apply]
        by_cases hx : x = v
        · rw [if_pos hx,hx,List.count_singleton_self]
          omega
        · rw [if_neg hx,List.count_singleton,if_neg (by simpa using fun h => hx h.symm),Nat.add_zero]

theorem retain_refs (s : PlanState) (nid x : UInt32) :
    (s.retain nid).refs x = s.refs x + if x = nid then 1 else 0 := by
  simp only [PlanState.retain,Function.update_apply]
  split
  · rename_i h
    rw [h]
  · rfl

theorem release_refs (s : PlanState) (nid x : UInt32) :
    (s.release nid).refs x = s.refs x - if x = nid then 1 else 0 := by
  simp only [PlanState.release,Function.update_apply]
  split
  · rename_i h
    rw [h]
  · rfl

theorem release_balanced (h : Balanced (s.retain nid) s') : Balanced s (s'.release nid) := by
  refine ⟨h.kept,fun x => ?_⟩
  have hx := h.refs x
  have hle : s.deleted.items.count x ≤ s'.deleted.items.count x := h.kept.sublist.count_le x
  have hret : (s.retain nid).deleted = s.deleted := rfl
  have hrel : (s'.release nid).deleted = s'.deleted := rfl
  rw [retain_refs,hret] at hx
  rw [release_refs,hrel]
  by_cases hn : x = nid
  · rw [if_pos hn] at hx ⊢
    omega
  · rw [if_neg hn] at hx ⊢
    omega

theorem collectNode_balanced (hv : Balances visit) : Balances (collectNode env visit) := by
  intro s v
  unfold collectNode
  split
  · exact Balanced.refl s
  · split
    · exact Balanced.refl s
    · exact release_balanced (andThen_balanced (appendHandle_balanced env _ v) (forEach_balanced hv _))

theorem direct_balanced (env : PlanEnv) : Balances (rtfsCollectDirectNodeReclaimPlan env) :=
  collectNode_balanced (appendData_balanced env)

theorem indirect_balanced (env : PlanEnv) : Balances (rtfsCollectIndirectNodeReclaimPlan env) :=
  collectNode_balanced (skipHole_balanced (direct_balanced env))

theorem doubleIndirect_balanced (env : PlanEnv) : Balances (rtfsCollectDoubleIndirectNodeReclaimPlan env) :=
  collectNode_balanced (skipHole_balanced (indirect_balanced env))

theorem collectFile_balanced (env : PlanEnv) (target : Block) (s : PlanState) :
    Balanced s (collectFile env target s).2 :=
  andThen_balanced (forEach_balanced (appendData_balanced env) _ s) fun s =>
    andThen_balanced (forEach_balanced (skipHole_balanced (direct_balanced env)) _ s) fun s =>
      andThen_balanced (forEach_balanced (skipHole_balanced (indirect_balanced env)) _ s) fun s =>
        skipHole_balanced (doubleIndirect_balanced env) s _

theorem destroy_refs (handles : List UInt32) (refs : UInt32 → Nat) (x : UInt32) :
    rtfsDestroyHandleArray handles refs x = refs x - handles.count x := by
  unfold rtfsDestroyHandleArray
  induction handles generalizing refs with
  | nil => rfl
  | cons nid handles ih =>
    rw [List.foldl_cons,ih,Function.update_apply,List.count_cons]
    by_cases hx : x = nid
    · rw [if_pos hx,hx,beq_self_eq_true,if_pos rfl]
      omega
    · rw [if_neg hx,if_neg (by simpa using fun h => hx h.symm),Nat.add_zero]

end Balance

section Collect
variable {env : PlanEnv} {store : NodeStore} {s s' s₁ : PlanState} {visit : Visit}
  {ns ns' ds ds' : List UInt32} {nodes data : UInt32 → List UInt32}

structure Collected (ns ds : List UInt32) (s s' : PlanState) : Prop where
  deleted : s'.deleted.items = ns.foldl GrowArray.addNew s.deleted.items
  data : s'.data.items = (ds.filter (fun v => decide (Appendable v))).foldl GrowArray.addNew s.data.items

theorem Collected.append (h : Collected ns ds s s₁) (h' : Collected ns' ds' s₁ s') :
    Collected (ns ++ ns') (ds ++ ds') s s' := by
  constructor
  · rw [h'.deleted,h.deleted,List.foldl_append]
  · rw [h'.data,h.data,List.filter_append,List.foldl_append]

def Collects (visit : Visit) (nodes data : UInt32 → List UInt32) : Prop :=
  ∀ s v s', visit s v = (.ok (),s') → Collected (nodes v) (data v) s s'

theorem andThen_ok {r : Except Errno Unit × PlanState} {f : PlanState → Except Errno Unit × PlanState}
    (h : andThen r f = (.ok (),s')) : ∃ s₁, r = (.ok (),s₁) ∧ f s₁ = (.ok (),s') := by
  obtain ⟨_ | _,s₁⟩ := r
  · cases h
  · exact ⟨s₁,rfl,h⟩

theorem forEach_collects (hv : Collects visit nodes data) {vs : List UInt32}
    (h : forEach visit vs s = (.ok (),s')) : Collected (vs.flatMap nodes) (vs.flatMap data) s s' := by
  induction vs generalizing s with
  | nil =>
    cases h
    exact ⟨rfl,rfl⟩
  | cons v vs ih =>
    obtain ⟨s₁,hfirst,hrest⟩ := andThen_ok h
    rw [List.flatMap_cons,List.flatMap_cons]
    exact (hv s v s₁ hfirst).append (ih hrest)

theorem skipHole_collects (hv : Collects visit nodes data) :
    Collects (skipHole visit) (fun v => if v = 0 then [] else nodes v) (fun v => if v = 0 then [] else data v) := by
  intro s v s' h
  unfold skipHole at h
  change Collected (if v = invalidNid then [] else nodes v) (if v = invalidNid then [] else data v) s s'
  by_cases hz : v = invalidNid
  · rw [if_pos hz] at h
    cases h
    rw [if_pos hz,if_pos hz]
    exact ⟨rfl,rfl⟩
  · rw [if_neg hz] at h
    rw [if_neg hz,if_neg hz]
    exact hv s v s' h

theorem appendData_collects (env : PlanEnv) : Collects (appendData env) (fun _ => []) (fun v => [v]) := by
  intro s v s' h
  unfold appendData at h
  cases happ : rtfsAppendUniqueUint32 env.dataRealloc s.data v with
  | error e =>
    rw [happ] at h
    cases h
  | ok array =>
    rw [happ] at h
    cases h
    refine ⟨rfl,(appendUnique_items happ).trans ?_⟩
    change _ = ([v].filter (fun v => decide (Appendable v))).foldl GrowArray.addNew s.data.items
    by_cases hk : Appendable v
    · rw [if_pos hk,List.filter_cons_of_pos (by exact decide_eq_true hk)]
      rfl
    · rw [if_neg hk,List.filter_cons_of_neg (by simpa using hk)]
      rfl

theorem appendHandle_items {nid : UInt32} (h : rtfsAppendUniqueDeletedHandleCopy env s nid = (.ok (),s')) :
    s'.deleted.items = GrowArray.addNew s.deleted.items nid ∧ s'.data = s.data := by
  unfold rtfsAppendUniqueDeletedHandleCopy at h
  unfold GrowArray.addNew
  split at h
  · rename_i hin
    cases h
    exact ⟨(if_pos hin).symm,rfl⟩
  · rename_i hin
    rw [if_neg hin]
    split at h
    · cases h
    · rename_i deleted hpush
      cases h
      exact ⟨GrowArray.push_items hpush,rfl⟩

def PlanEnv.Reads (env : PlanEnv) (store : NodeStore) : Prop := ∀ n b, env.node n = .ok b → store.node n = some b

theorem collectNode_collects {nodes' data' : UInt32 → List UInt32} (hr : env.Reads store)
    (hv : Collects visit nodes data)
    (hn : ∀ n b, store.node n = some b → nodes' n = n :: (nodeSlots b).flatMap nodes)
    (hd : ∀ n b, store.node n = some b → data' n = (nodeSlots b).flatMap data) :
    Collects (collectNode env visit) nodes' data' := by
  intro s v s' h
  unfold collectNode at h
  split at h
  · cases h
  · split at h
    · cases h
    · rename_i b hb
      obtain ⟨hres,rfl⟩ := Prod.mk.inj h
      obtain ⟨s₂,hrun⟩ : ∃ s₂, andThen (rtfsAppendUniqueDeletedHandleCopy env (s.retain v) v)
          (forEach visit (nodeSlots b)) = (.ok (),s₂) := ⟨_,Prod.ext hres rfl⟩
      obtain ⟨s₁,hhandle,hslots⟩ := andThen_ok hrun
      obtain ⟨hitems,hdata⟩ := appendHandle_items hhandle
      have hbelow := forEach_collects hv hslots
      have hret : (s.retain v).deleted = s.deleted ∧ (s.retain v).data = s.data := ⟨rfl,rfl⟩
      rw [hret.1] at hitems
      rw [hrun,hn v b (hr v b hb),hd v b (hr v b hb)]
      constructor
      · change s₂.deleted.items = _
        rw [hbelow.deleted,hitems,List.foldl_cons]
      · change s₂.data.items = _
        rw [hbelow.data,hdata,hret.2]

def planHeap (store : NodeStore) : SlotTree.Heap UInt32 := fun n => (store.node n).map (nodeCells false)

theorem nodeSlots_flatMap (b : Block) (f : UInt32 → List UInt32) :
    (nodeSlots b).flatMap f = (List.range 1020).flatMap (fun j => f (nodeCells false b j)) := by
  unfold nodeSlots
  rw [List.flatMap_map]
  refine List.flatMap_congr (fun j hj => ?_)
  simp only [nodeCells,Bool.false_eq_true,if_false,List.mem_range.mp hj,if_true]

theorem direct_collects (hr : env.Reads store) : Collects (rtfsCollectDirectNodeReclaimPlan env)
    (SlotTree.nodes (planHeap store) 1020 0) (SlotTree.leaves (planHeap store) 1020 0) := by
  refine collectNode_collects hr (appendData_collects env) (fun n b hb => ?_) (fun n b hb => ?_)
  · rw [List.flatMap_eq_nil_iff.mpr (fun _ _ => rfl)]
    rfl
  · rw [nodeSlots_flatMap]
    simp only [SlotTree.leaves,planHeap,hb,Option.map_some]
    exact List.map_eq_flatMap

theorem below_collects {d : Nat} (hr : env.Reads store) (hv : Collects visit
    (SlotTree.nodes (planHeap store) 1020 d) (SlotTree.leaves (planHeap store) 1020 d)) :
    Collects (collectNode env (skipHole visit)) (SlotTree.nodes (planHeap store) 1020 (d + 1))
      (SlotTree.leaves (planHeap store) 1020 (d + 1)) := by
  refine collectNode_collects hr (skipHole_collects hv) (fun n b hb => ?_) (fun n b hb => ?_)
  · rw [nodeSlots_flatMap]
    exact SlotTree.nodes_succ (by rw [planHeap,hb,Option.map_some])
  · rw [nodeSlots_flatMap]
    exact SlotTree.leaves_succ (by rw [planHeap,hb,Option.map_some])

theorem indirect_collects (hr : env.Reads store) : Collects (rtfsCollectIndirectNodeReclaimPlan env)
    (SlotTree.nodes (planHeap store) 1020 1) (SlotTree.leaves (planHeap store) 1020 1) :=
  below_collects hr (direct_collects hr)

theorem doubleIndirect_collects (hr : env.Reads store) : Collects (rtfsCollectDoubleIndirectNodeReclaimPlan env)
    (SlotTree.nodes (planHeap store) 1020 2) (SlotTree.leaves (planHeap store) 1020 2) :=
  below_collects hr (indirect_collects hr)

def rootSlots (target : Block) (f : Nat → UInt32 → List UInt32) : List UInt32 :=
  (List.range defNidsPerInode).flatMap (fun k =>
    if inodeNid target k = 0 then [] else f (nidDepth k) (inodeNid target k))

theorem rootSlots_eq (target : Block) (f : Nat → UInt32 → List UInt32) : rootSlots target f =
    [inodeNid target 0,inodeNid target 1].flatMap (fun v => if v = 0 then [] else f 0 v) ++
    [inodeNid target 2,inodeNid target 3].flatMap (fun v => if v = 0 then [] else f 1 v) ++
    (if inodeNid target 4 = 0 then [] else f 2 (inodeNid target 4)) := by
  have hrange : List.range defNidsPerInode = [0,1,2,3,4] := rfl
  unfold rootSlots
  rw [hrange]
  simp only [List.flatMap_cons,List.flatMap_nil,List.append_nil,List.append_assoc]
  rfl

def fileNodes (store : NodeStore) (target : Block) : List UInt32 :=
  rootSlots target (SlotTree.nodes (planHeap store) 1020)

def fileData (store : NodeStore) (target : Block) : List UInt32 :=
  (List.range defAddrsPerInode).map (inodeAddr target) ++ rootSlots target (SlotTree.leaves (planHeap store) 1020)

theorem collectFile_collects (hr : env.Reads store) {target : Block}
    (h : collectFile env target s = (.ok (),s')) :
    Collected (fileNodes store target) (fileData store target) s s' := by
  obtain ⟨s₁,haddr,h⟩ := andThen_ok h
  obtain ⟨s₂,hdirect,h⟩ := andThen_ok h
  obtain ⟨s₃,hindirect,h⟩ := andThen_ok h
  have hfirst := forEach_collects (appendData_collects env) haddr
  have hall := (((forEach_collects (skipHole_collects (direct_collects hr)) hdirect).append
    (forEach_collects (skipHole_collects (indirect_collects hr)) hindirect)).append
    (skipHole_collects (doubleIndirect_collects hr) _ _ _ h))
  have hfile := hfirst.append hall
  unfold fileNodes fileData
  rw [rootSlots_eq,rootSlots_eq]
  rw [List.flatMap_eq_nil_iff.mpr (fun _ _ => rfl),List.nil_append,List.flatMap_singleton'] at hfile
  exact hfile

end Collect

section Succeed
variable {env : PlanEnv} {store : NodeStore} {visit : Visit} {nodes : UInt32 → List UInt32}

def PlanEnv.Granted (env : PlanEnv) : Prop :=
  (∀ n, env.dataRealloc n = true) ∧ ∀ n, env.handleRealloc n = true

def PlanEnv.Finds (env : PlanEnv) (n : UInt32) : Prop := n ≠ invalidNid ∧ ∃ b, env.node n = .ok b

def Succeeds (env : PlanEnv) (visit : Visit) (nodes : UInt32 → List UInt32) : Prop :=
  ∀ s v, (∀ n ∈ nodes v, env.Finds n) → (visit s v).1 = .ok ()

theorem andThen_succeeds {r : Except Errno Unit × PlanState} {f : PlanState → Except Errno Unit × PlanState}
    (hr : r.1 = .ok ()) (hf : ∀ s, (f s).1 = .ok ()) : (andThen r f).1 = .ok () := by
  obtain ⟨_ | _,s₁⟩ := r
  · cases hr
  · exact hf s₁

theorem forEach_succeeds (hv : Succeeds env visit nodes) {vs : List UInt32}
    (hfind : ∀ n ∈ vs.flatMap nodes, env.Finds n) (s : PlanState) : (forEach visit vs s).1 = .ok () := by
  induction vs generalizing s with
  | nil => rfl
  | cons v vs ih =>
    rw [List.flatMap_cons] at hfind
    exact andThen_succeeds (hv s v (fun n hn => hfind n (List.mem_append_left _ hn)))
      (ih (fun n hn => hfind n (List.mem_append_right _ hn)))

theorem skipHole_succeeds (hv : Succeeds env visit nodes) :
    Succeeds env (skipHole visit) (fun v => if v = 0 then [] else nodes v) := by
  intro s v hfind
  unfold skipHole
  split
  · rfl
  · rename_i hz
    change ∀ n ∈ (if v = invalidNid then [] else nodes v), env.Finds n at hfind
    rw [if_neg hz] at hfind
    exact hv s v hfind

theorem appendData_succeeds (hg : env.Granted) : Succeeds env (appendData env) (fun _ => []) := by
  intro s v _
  obtain ⟨array,happ⟩ := appendUnique_granted hg.1 s.data v
  unfold appendData
  rw [happ]

theorem appendHandle_succeeds (hg : env.Granted) (s : PlanState) (nid : UInt32) :
    (rtfsAppendUniqueDeletedHandleCopy env s nid).1 = .ok () := by
  obtain ⟨array,hpush⟩ := GrowArray.push_granted 4 hg.2 s.deleted nid
  unfold rtfsAppendUniqueDeletedHandleCopy
  split
  · rfl
  · rw [hpush]

theorem collectNode_succeeds {nodes' : UInt32 → List UInt32} (hr : env.Reads store) (hg : env.Granted)
    (hv : Succeeds env visit nodes) (hself : ∀ n, n ∈ nodes' n)
    (hn : ∀ n b, store.node n = some b → nodes' n = n :: (nodeSlots b).flatMap nodes) :
    Succeeds env (collectNode env visit) nodes' := by
  intro s v hfind
  obtain ⟨hz,b,hb⟩ := hfind v (hself v)
  unfold collectNode
  rw [if_neg hz,hb]
  refine andThen_succeeds (appendHandle_succeeds hg _ v) (forEach_succeeds hv (fun n hmem => hfind n ?_))
  rw [hn v b (hr v b hb)]
  exact List.mem_cons_of_mem _ hmem

theorem direct_succeeds (hr : env.Reads store) (hg : env.Granted) :
    Succeeds env (rtfsCollectDirectNodeReclaimPlan env) (SlotTree.nodes (planHeap store) 1020 0) := by
  refine collectNode_succeeds hr hg (appendData_succeeds hg) (SlotTree.self_mem_nodes 0) (fun n b _ => ?_)
  rw [List.flatMap_eq_nil_iff.mpr (fun _ _ => rfl)]
  rfl

theorem below_succeeds {d : Nat} (hr : env.Reads store) (hg : env.Granted)
    (hv : Succeeds env visit (SlotTree.nodes (planHeap store) 1020 d)) :
    Succeeds env (collectNode env (skipHole visit)) (SlotTree.nodes (planHeap store) 1020 (d + 1)) := by
  refine collectNode_succeeds hr hg (skipHole_succeeds hv) (SlotTree.self_mem_nodes (d + 1)) (fun n b hb => ?_)
  rw [nodeSlots_flatMap]
  exact SlotTree.nodes_succ (by rw [planHeap,hb,Option.map_some])

theorem collectFile_succeeds (hr : env.Reads store) (hg : env.Granted) {target : Block}
    (hfind : ∀ n ∈ fileNodes store target, env.Finds n) (s : PlanState) :
    (collectFile env target s).1 = .ok () := by
  have hdirect := direct_succeeds hr hg
  have hindirect : Succeeds env (rtfsCollectIndirectNodeReclaimPlan env)
      (SlotTree.nodes (planHeap store) 1020 1) := below_succeeds hr hg hdirect
  have hdouble : Succeeds env (rtfsCollectDoubleIndirectNodeReclaimPlan env)
      (SlotTree.nodes (planHeap store) 1020 2) := below_succeeds hr hg hindirect
  unfold fileNodes at hfind
  rw [rootSlots_eq] at hfind
  refine andThen_succeeds (forEach_succeeds (appendData_succeeds hg) ?_ s) (fun s => ?_)
  · rw [List.flatMap_eq_nil_iff.mpr (fun _ _ => rfl)]
    exact nofun
  refine andThen_succeeds (forEach_succeeds (skipHole_succeeds hdirect) ?_ s) (fun s => ?_)
  · exact fun n hn => hfind n (List.mem_append_left _ (List.mem_append_left _ hn))
  refine andThen_succeeds (forEach_succeeds (skipHole_succeeds hindirect) ?_ s) (fun s => ?_)
  · exact fun n hn => hfind n (List.mem_append_left _ (List.mem_append_right _ hn))
  exact skipHole_succeeds hdouble s _ (fun n hn => hfind n (List.mem_append_right _ hn))

end Succeed

section Paths

theorem indexPath_below {k : Nat} {q : List Nat} (hk : k < 5) (hlen : q.length ≤ nidDepth k)
    (hall : ∀ j ∈ q, j < 1020) : IndexPath ((932 + k) :: q) := by
  have hsub : 932 + k - defAddrsPerInode = k := Nat.add_sub_cancel_left 932 k
  refine ⟨⟨Nat.le_add_right 932 k,Nat.add_lt_add_left hk 932⟩,?_,hall⟩
  rw [hsub]
  exact hlen

theorem indexPath_cases {p : List Nat} (h : IndexPath p) (hne : p ≠ []) :
    ∃ k q, p = (932 + k) :: q ∧ k < 5 ∧ q.length ≤ nidDepth k ∧ ∀ j ∈ q, j < 1020 := by
  cases p with
  | nil => exact absurd rfl hne
  | cons i q =>
    obtain ⟨⟨hlo,hhi⟩,hlen,hall⟩ := h
    unfold defAddrsPerInode at hlo hhi hlen
    unfold defNidsPerInode at hhi
    exact ⟨i - 932,q,by rw [Nat.add_sub_cancel' hlo],by omega,hlen,hall⟩

theorem blockSlot_shape {b i : Nat} {p : List Nat} (h : blockSlot b = some (p,i)) :
    p = [] ∧ i < 932 ∨
      ∃ k q, p = (932 + k) :: q ∧ k < 5 ∧ q.length = nidDepth k ∧ (∀ j ∈ q, j < 1020) ∧ i < 1020 := by
  obtain ⟨hslot,hi⟩ := blockSlot_slot h
  by_cases hp : p = []
  · rw [if_pos hp] at hi
    exact Or.inl ⟨hp,hi⟩
  · rw [if_neg hp] at hi
    obtain ⟨k,q,rfl,hk,hlen,hall⟩ := indexPath_cases hslot.index hp
    refine Or.inr ⟨k,q,rfl,hk,?_,hall,hi⟩
    by_contra hne
    refine hslot.leaf (indexPath_below (q := q ++ [i]) hk ?_ ?_)
    · rw [List.length_append,List.length_singleton]
      omega
    · intro j hj
      rcases List.mem_append.mp hj with hj | hj
      · exact hall j hj
      · rw [List.mem_singleton.mp hj]
        exact hi

theorem blockSlot_surj {k i : Nat} {q : List Nat} (hk : k < 5) (hlen : q.length = nidDepth k)
    (hall : ∀ j ∈ q, j < 1020) (hi : i < 1020) :
    ∃ b < fileBlockBound, blockSlot b = some ((932 + k) :: q,i) := by
  have hsome {b : Nat} {r : List Nat × Nat} (h : blockSlot b = some r) : b < fileBlockBound :=
    (blockSlot_isSome b).mp (by rw [h]; rfl)
  by_cases h2 : k < 2
  · rw [nidDepth,if_pos h2] at hlen
    rw [List.eq_nil_of_length_eq_zero hlen]
    have hslot : blockSlot (932 + (1020 * k + i)) = some ([932 + k],i) := by
      unfold blockSlot
      rw [if_neg (by omega),Nat.add_sub_cancel_left,if_pos (by omega)]
      have hdiv : (1020 * k + i) / 1020 = k := by omega
      have hmod : (1020 * k + i) % 1020 = i := by omega
      rw [hdiv,hmod]
    exact ⟨_,hsome hslot,hslot⟩
  · by_cases h4 : k < 4
    · rw [nidDepth,if_neg h2,if_pos h4] at hlen
      obtain ⟨j,rfl⟩ := List.length_eq_one_iff.mp hlen
      have hj := hall j List.mem_cons_self
      have hslot : blockSlot (932 + (2040 + (1040400 * (k - 2) + (1020 * j + i)))) = some ([932 + k,j],i) := by
        unfold blockSlot
        rw [if_neg (by omega),Nat.add_sub_cancel_left,if_neg (by omega),Nat.add_sub_cancel_left,if_pos (by omega)]
        have hdiv : (1040400 * (k - 2) + (1020 * j + i)) / 1040400 = k - 2 := by omega
        have hmod : (1040400 * (k - 2) + (1020 * j + i)) % 1040400 = 1020 * j + i := by omega
        have hdiv' : (1020 * j + i) / 1020 = j := by omega
        have hmod' : (1020 * j + i) % 1020 = i := by omega
        have hk2 : 2 + (k - 2) = k := by omega
        rw [hdiv,hmod,hdiv',hmod',hk2]
      exact ⟨_,hsome hslot,hslot⟩
    · have hk4 : k = 4 := by omega
      subst hk4
      have hlen2 : q.length = 2 := hlen
      obtain ⟨j,j',rfl⟩ := List.length_eq_two.mp hlen2
      have hj := hall j List.mem_cons_self
      have hj' := hall j' (List.mem_cons_of_mem _ List.mem_cons_self)
      have hslot : blockSlot (932 + (2040 + (2080800 + (1040400 * j + (1020 * j' + i))))) =
          some ([932 + 4,j,j'],i) := by
        unfold blockSlot
        rw [if_neg (by omega),Nat.add_sub_cancel_left,if_neg (by omega),Nat.add_sub_cancel_left,
          if_neg (by omega),Nat.add_sub_cancel_left,if_pos (by omega)]
        have hdiv : (1040400 * j + (1020 * j' + i)) / 1040400 = j := by omega
        have hmod : (1040400 * j + (1020 * j' + i)) % 1040400 = 1020 * j' + i := by omega
        have hdiv' : (1020 * j' + i) / 1020 = j' := by omega
        have hmod' : (1020 * j' + i) % 1020 = i := by omega
        rw [hdiv,hmod,hdiv',hmod']
      exact ⟨_,hsome hslot,hslot⟩

end Paths

section FileTree
variable {store : NodeStore} {ino n v : UInt32} {target : Block} {k : Nat} {q : List Nat}

theorem rootCell (hb : store.node ino = some target) (hk : k < 5) :
    store.cells ino ino = some (nodeCells true target) ∧ nodeCells true target (932 + k) = inodeNid target k := by
  have hword : 332 + 4 * (932 + k) = 4060 + 4 * k := by omega
  refine ⟨by simp [NodeStore.cells,hb],?_⟩
  simp only [nodeCells,if_true,if_pos (show 932 + k < 937 by omega),inodeNid,hword]

theorem reach_root (hb : store.node ino = some target) (hk : k < 5) (hz : inodeNid target k ≠ 0) :
    SlotTree.reach (store.cells ino) ino [932 + k] = .node (inodeNid target k) := by
  obtain ⟨hc,hv⟩ := rootCell hb hk
  rw [← hv]
  exact SlotTree.reach_child (p := []) rfl hc (by rwa [hv])

theorem cells_below (hn : n ≠ ino) : store.cells ino n = planHeap store n := by
  rw [NodeStore.cells,planHeap,decide_eq_false hn]

theorem reach_below (ht : IndexTree store ino) (hb : store.node ino = some target)
    (hidx : IndexPath ((932 + k) :: q)) (hk : k < 5) (hz : inodeNid target k ≠ 0) :
    SlotTree.reach (store.cells ino) ino ((932 + k) :: q) =
      SlotTree.reach (planHeap store) (inodeNid target k) q := by
  induction q using List.reverseRecOn with
  | nil => exact reach_root hb hk hz
  | append_singleton q j ih =>
    have hpre : IndexPath ((932 + k) :: q) := indexPath_shape.closed _ j hidx
    have hsame := ih hpre
    rw [← List.cons_append,SlotTree.reach_concat,SlotTree.reach_concat,hsame]
    cases hr : SlotTree.reach (planHeap store) (inodeNid target k) q with
    | hole => rfl
    | lost => rfl
    | node m =>
      rw [hr] at hsame
      have hm := child_ne_inode ht.tree (List.cons_ne_nil _ _) hpre hsame
      simp only [SlotTree.step,cells_below hm]

theorem mem_rootSlots {f : Nat → UInt32 → List UInt32} :
    n ∈ rootSlots target f ↔ ∃ k < 5, inodeNid target k ≠ 0 ∧ n ∈ f (nidDepth k) (inodeNid target k) := by
  simp only [rootSlots,List.mem_flatMap,List.mem_range,defNidsPerInode]
  constructor
  · rintro ⟨k,hk,hm⟩
    by_cases hz : inodeNid target k = 0
    · simp [hz] at hm
    · exact ⟨k,hk,hz,by rwa [if_neg hz] at hm⟩
  · rintro ⟨k,hk,hz,hm⟩
    exact ⟨k,hk,by rwa [if_neg hz]⟩

def IndexNodeOf (store : NodeStore) (ino n : UInt32) : Prop :=
  ∃ p, p ≠ [] ∧ IndexPath p ∧ SlotTree.reach (store.cells ino) ino p = .node n

def IndexChild (store : NodeStore) (ino parent n : UInt32) : Prop :=
  ∃ p j, p ≠ [] ∧ IndexPath (p ++ [j]) ∧ SlotTree.reach (store.cells ino) ino p = .node parent ∧
    SlotTree.reach (store.cells ino) ino (p ++ [j]) = .node n

theorem root_ne_zero (hb : store.node ino = some target) (hk : k < 5)
    (hr : SlotTree.reach (store.cells ino) ino ((932 + k) :: q) = .node n) : inodeNid target k ≠ 0 := by
  intro hz
  obtain ⟨hc,hv⟩ := rootCell hb hk
  have hroot : SlotTree.reach (store.cells ino) ino [] = .node ino := rfl
  have hhole := SlotTree.reach_hole_append (SlotTree.reach_hole hroot hc (hv.trans hz)) q
  rw [List.nil_append,List.singleton_append,hr] at hhole
  cases hhole

theorem mem_fileNodes (ht : IndexTree store ino) (hb : store.node ino = some target) :
    n ∈ fileNodes store target ↔ IndexNodeOf store ino n := by
  unfold fileNodes
  rw [mem_rootSlots]
  constructor
  · rintro ⟨k,hk,hz,hm⟩
    obtain ⟨q,hlen,hall,hq⟩ := SlotTree.mem_nodes.mp hm
    have hidx := indexPath_below hk hlen hall
    exact ⟨(932 + k) :: q,List.cons_ne_nil _ _,hidx,(reach_below ht hb hidx hk hz).trans hq⟩
  · rintro ⟨p,hne,hidx,hr⟩
    obtain ⟨k,q,rfl,hk,hlen,hall⟩ := indexPath_cases hidx hne
    have hz := root_ne_zero hb hk hr
    exact ⟨k,hk,hz,SlotTree.mem_nodes.mpr ⟨q,hlen,hall,(reach_below ht hb hidx hk hz).symm.trans hr⟩⟩

theorem nodes_path (ht : IndexTree store ino) (hb : store.node ino = some target) (hk : k < 5)
    (hm : n ∈ if inodeNid target k = 0 then []
      else SlotTree.nodes (planHeap store) 1020 (nidDepth k) (inodeNid target k)) :
    ∃ q, IndexPath ((932 + k) :: q) ∧ SlotTree.reach (store.cells ino) ino ((932 + k) :: q) = .node n := by
  by_cases hz : inodeNid target k = 0
  · simp [hz] at hm
  · rw [if_neg hz] at hm
    obtain ⟨q,hlen,hall,hq⟩ := SlotTree.mem_nodes.mp hm
    have hidx := indexPath_below hk hlen hall
    exact ⟨q,hidx,(reach_below ht hb hidx hk hz).trans hq⟩

theorem fileNodes_nodup (ht : IndexTree store ino) (hb : store.node ino = some target) :
    (fileNodes store target).Nodup := by
  unfold fileNodes rootSlots
  refine List.nodup_flatMap.mpr ⟨fun k hk => ?_,List.nodup_range.imp_of_mem (fun {k k'} hk hk' hne n hn hn' => ?_)⟩
  · have hk5 : k < 5 := List.mem_range.mp hk
    by_cases hz : inodeNid target k = 0
    · rw [if_pos hz]
      exact List.nodup_nil
    · rw [if_neg hz]
      refine SlotTree.nodes_nodup (fun q q' m hlen hlen' hall hall' hq hq' => ?_)
      have hidx := indexPath_below hk5 hlen hall
      have hidx' := indexPath_below hk5 hlen' hall'
      have heq := ht.tree.inj _ _ m hidx hidx' ((reach_below ht hb hidx hk5 hz).trans hq)
        ((reach_below ht hb hidx' hk5 hz).trans hq')
      exact (List.cons.inj heq).2
  · obtain ⟨q,hidx,hq⟩ := nodes_path ht hb (List.mem_range.mp hk) hn
    obtain ⟨q',hidx',hq'⟩ := nodes_path ht hb (List.mem_range.mp hk') hn'
    have heq := (List.cons.inj (ht.tree.inj _ _ n hidx hidx' hq hq')).1
    exact hne (Nat.add_left_cancel heq)

theorem fileNodes_order (ht : IndexTree store ino) (hb : store.node ino = some target) {parent : UInt32}
    (hc : IndexChild store ino parent n) : [parent,n].Sublist (fileNodes store target) := by
  obtain ⟨p,j,hne,hidx,hp,hn⟩ := hc
  obtain ⟨k,q,hpq,hk,hlen,hall⟩ := indexPath_cases (indexPath_shape.closed p j hidx) hne
  subst hpq
  obtain ⟨k',q',heq,-,hlen',hall'⟩ := indexPath_cases hidx (by simp)
  rw [List.cons_append] at heq
  obtain ⟨hkk,rfl⟩ := List.cons.inj heq
  have hkk' : k = k' := Nat.add_left_cancel hkk
  subst hkk'
  have hz := root_ne_zero hb hk hp
  rw [List.length_append,List.length_singleton] at hlen'
  rw [reach_below ht hb (indexPath_shape.closed _ j hidx) hk hz] at hp
  rw [List.cons_append] at hidx hn
  rw [reach_below ht hb hidx hk hz] at hn
  refine (SlotTree.nodes_order hlen' hall' hp hn).trans ?_
  have hpart := SlotTree.sublist_flatMap (f := fun k => if inodeNid target k = 0 then []
    else SlotTree.nodes (planHeap store) 1020 (nidDepth k) (inodeNid target k))
    (List.mem_range.mpr (show k < defNidsPerInode from hk))
  simp only [if_neg hz] at hpart
  exact hpart

theorem mem_fileData (ht : IndexTree store ino) (hb : store.node ino = some target) (hv : v ≠ 0) :
    v ∈ fileData store target ↔ ∃ b, rtfsFileResolveDataLpaByBlockIndex store ino b = .ok v := by
  unfold fileData
  rw [List.mem_append,mem_rootSlots]
  constructor
  · have hindex {b : Nat} {p : List Nat} {i : Nat} (hslot : blockSlot b = some (p,i))
        (hread : SlotTree.read (store.cells ino) ino p i = some v) :
        ∃ b, rtfsFileResolveDataLpaByBlockIndex store ino b = .ok v := by
      have hlt : b < 4294967296 := lt_of_lt_of_le ((blockSlot_isSome b).mp (by rw [hslot]; rfl)) (by decide)
      refine ⟨UInt32.ofNat b,?_⟩
      rw [fileResolve_eq ht,slotAddr,UInt32.toNat_ofNat',Nat.mod_eq_of_lt hlt,hslot]
      simp only [hread]
      rfl
    rintro (haddr | ⟨k,hk,hz,hm⟩)
    · obtain ⟨i,hi,rfl⟩ := List.mem_map.mp haddr
      have hi' : i < 932 := List.mem_range.mp hi
      exact hindex (if_pos hi') (inode_read hb hi')
    · obtain ⟨q,hlen,hall,i,hi,m,c,hq,hc,rfl⟩ := SlotTree.mem_leaves.mp hm
      obtain ⟨b,-,hslot⟩ := blockSlot_surj hk hlen hall hi
      have hidx := indexPath_below hk hlen.le hall
      have hreach := (reach_below ht hb hidx hk hz).trans hq
      have hne := child_ne_inode ht.tree (List.cons_ne_nil _ _) hidx hreach
      refine hindex hslot ?_
      rw [SlotTree.read,hreach,SlotTree.value,cells_below hne,hc,Option.map_some]
  · rintro ⟨b,hres⟩
    rw [fileResolve_eq ht,slotAddr] at hres
    cases hslot : blockSlot b.toNat with
    | none =>
      rw [hslot] at hres
      cases hres
    | some r =>
      obtain ⟨p,i⟩ := r
      rw [hslot] at hres
      have hread : SlotTree.read (store.cells ino) ino p i = some v := by
        simp only at hres
        cases hr : SlotTree.read (store.cells ino) ino p i with
        | none =>
          rw [hr] at hres
          cases hres
        | some u =>
          rw [hr] at hres
          cases hres
          rfl
      rcases blockSlot_shape hslot with ⟨rfl,hi⟩ | ⟨k,q,rfl,hk,hlen,hall,hi⟩
      · rw [inode_read hb hi] at hread
        cases hread
        exact Or.inl (List.mem_map_of_mem (List.mem_range.mpr hi))
      · have hidx := indexPath_below hk hlen.le hall
        rw [SlotTree.read] at hread
        cases hreach : SlotTree.reach (store.cells ino) ino ((932 + k) :: q) with
        | hole =>
          rw [hreach] at hread
          exact absurd (Option.some.inj hread).symm hv
        | lost =>
          rw [hreach] at hread
          cases hread
        | node m =>
          have hz := root_ne_zero hb hk hreach
          have hne := child_ne_inode ht.tree (List.cons_ne_nil _ _) hidx hreach
          rw [hreach,SlotTree.value,cells_below hne] at hread
          obtain ⟨c,hc,hci⟩ := Option.map_eq_some_iff.mp hread
          rw [reach_below ht hb hidx hk hz] at hreach
          exact Or.inr ⟨k,hk,hz,SlotTree.mem_leaves.mpr ⟨q,hlen,hall,i,hi,m,c,hreach,hc,hci⟩⟩

end FileTree

section Plan
variable {env : PlanEnv} {store : NodeStore} {ino : UInt32} {target : Block} {refs refs' : UInt32 → Nat}
  {lpas handles : List UInt32}

structure ExactPlan (store : NodeStore) (ino : UInt32) (keep : UInt32 → Prop) (refs : UInt32 → Nat)
    (lpas handles : List UInt32) (refs' : UInt32 → Nat) : Prop where
  lpasOnce : lpas.Nodup
  memLpas : ∀ v, v ∈ lpas ↔
    v ≠ invalidLpa ∧ keep v ∧ ∃ b, rtfsFileResolveDataLpaByBlockIndex store ino b = .ok v
  handlesOnce : handles.Nodup
  memHandles : ∀ n, n ∈ handles ↔ IndexNodeOf store ino n
  order : ∀ parent n, IndexChild store ino parent n → [parent,n].Sublist handles
  taken : ∀ n, refs' n = refs n + if n ∈ handles then 1 else 0

theorem plan_error {e : Errno} (h : rtfsCollectRegularFileReclaimPlan env target refs = (.error e,refs')) :
    refs' = refs := by
  unfold rtfsCollectRegularFileReclaimPlan at h
  have hbal := collectFile_balanced env target ⟨refs,.empty,.empty⟩
  split at h
  · cases h
  · rename_i s hrun
    cases h
    rw [hrun] at hbal
    funext x
    have hx : s.refs x + 0 = refs x + s.deleted.items.count x := hbal.refs x
    rw [destroy_refs]
    omega

theorem plan_exact (ht : IndexTree store ino) (hb : store.node ino = some target) (hr : env.Reads store)
    (h : rtfsCollectRegularFileReclaimPlan env target refs = (.ok (lpas,handles),refs')) :
    ExactPlan store ino (fun v => v < 0x80000000) refs lpas handles refs' := by
  unfold rtfsCollectRegularFileReclaimPlan at h
  have hbal := collectFile_balanced env target ⟨refs,.empty,.empty⟩
  split at h
  · rename_i s hrun
    cases h
    rw [hrun] at hbal
    have hcol := collectFile_collects hr hrun
    have hdata : s.data.items = ((fileData store target).filter (fun v => decide (Appendable v))).foldl
      GrowArray.addNew [] := hcol.data
    have hdeleted : s.deleted.items = fileNodes store target := by
      have hitems : s.deleted.items = (fileNodes store target).foldl GrowArray.addNew [] := hcol.deleted
      rw [hitems,GrowArray.foldl_addNew_eq (fileNodes_nodup ht hb) (fun _ _ => List.not_mem_nil),List.nil_append]
    have hnodup : s.deleted.items.Nodup := hdeleted ▸ fileNodes_nodup ht hb
    refine ⟨?_,fun v => ?_,hnodup,fun n => ?_,fun parent n hc => ?_,fun n => ?_⟩
    · rw [hdata]
      exact GrowArray.nodup_foldl_addNew List.nodup_nil _
    · rw [hdata,GrowArray.mem_foldl_addNew,or_iff_right List.not_mem_nil,List.mem_filter,decide_eq_true_iff]
      constructor
      · rintro ⟨hm,hz,hlt⟩
        exact ⟨hz,hlt,(mem_fileData ht hb hz).mp hm⟩
      · rintro ⟨hz,hlt,hmap⟩
        exact ⟨(mem_fileData ht hb hz).mpr hmap,hz,hlt⟩
    · rw [hdeleted,mem_fileNodes ht hb]
    · rw [hdeleted]
      exact fileNodes_order ht hb hc
    · have hn : s.refs n + 0 = refs n + s.deleted.items.count n := hbal.refs n
      rw [Nat.add_zero] at hn
      rw [hn,hnodup.count]
  · cases h

theorem plan_succeeds (ht : IndexTree store ino) (hb : store.node ino = some target) (hr : env.Reads store)
    (hg : env.Granted) (hfind : ∀ n, IndexNodeOf store ino n → env.Finds n) (refs : UInt32 → Nat) :
    ∃ lpas handles refs', rtfsCollectRegularFileReclaimPlan env target refs = (.ok (lpas,handles),refs') := by
  have hok := collectFile_succeeds hr hg (fun n hn => hfind n ((mem_fileNodes ht hb).mp hn))
    ⟨refs,.empty,.empty⟩
  unfold rtfsCollectRegularFileReclaimPlan
  split
  · exact ⟨_,_,_,rfl⟩
  · rename_i hrun
    rw [hrun] at hok
    cases hok

theorem reclaimPlan_exact (env : PlanEnv) (store : NodeStore) (ino : UInt32) (target : Block) (refs : UInt32 → Nat)
    (ht : IndexTree store ino) (hb : store.node ino = some target) (hr : env.Reads store) :
    (∀ lpas handles refs', rtfsCollectRegularFileReclaimPlan env target refs = (.ok (lpas,handles),refs') →
      ExactPlan store ino (fun v => v < 0x80000000) refs lpas handles refs') ∧
    (∀ e refs', rtfsCollectRegularFileReclaimPlan env target refs = (.error e,refs') → refs' = refs) ∧
    (env.Granted → (∀ n, IndexNodeOf store ino n → env.Finds n) →
      ∃ lpas handles refs', rtfsCollectRegularFileReclaimPlan env target refs = (.ok (lpas,handles),refs')) :=
  ⟨fun _ _ _ h => plan_exact ht hb hr h,fun _ _ h => plan_error h,
    fun hg hfind => plan_succeeds ht hb hr hg hfind refs⟩

def readAll (store : NodeStore) : PlanEnv := ⟨rtfsFileGetCachedNodeByNid store,fun _ => true,fun _ => true⟩

theorem readAll_reads (store : NodeStore) : (readAll store).Reads store := by
  intro n b h
  simp only [readAll,rtfsFileGetCachedNodeByNid] at h
  split at h
  · cases h
  · rename_i hb
    cases h
    exact hb

theorem readAll_granted (store : NodeStore) : (readAll store).Granted := ⟨fun _ => rfl,fun _ => rfl⟩

-- inode 1, an indirect node 2 below it, a direct node 3 below that, and one block
def sparseFile : NodeStore :=
  ⟨fun n => if n = 1 then some (setInodeNid Buf.zero 2 2) else if n = 2 then some (setNodeSlot Buf.zero 0 3)
    else if n = 3 then some (setNodeSlot Buf.zero 28 77) else none,[]⟩

theorem nodeCells_zero (isInode : Bool) (k : Nat) : nodeCells isInode Buf.zero k = 0 := by
  unfold nodeCells nodeSlot
  split <;> split <;> first | exact u32At_zero _ | rfl

theorem sparseFile_cells :
    sparseFile.cells 1 1 = some (fun i => if i = 934 then 2 else 0) ∧
    sparseFile.cells 1 2 = some (fun i => if i = 0 then 3 else 0) ∧
    sparseFile.cells 1 3 = some (fun i => if i = 28 then 77 else 0) := by
  refine ⟨congrArg some (funext fun i => ?_),congrArg some (funext fun i => ?_),congrArg some (funext fun i => ?_)⟩
  · exact (nodeCells_setWord (i := 934) (by decide) 2 i).trans (by rw [nodeCells_zero])
  · exact (nodeCells_setNodeSlot (by decide) 3 i).trans (by rw [nodeCells_zero])
  · exact (nodeCells_setNodeSlot (by decide) 77 i).trans (by rw [nodeCells_zero])

theorem sparseFile_paths {p : List Nat} {n : UInt32} (hidx : IndexPath p)
    (hr : SlotTree.reach (sparseFile.cells 1) 1 p = .node n) :
    p = [] ∧ n = 1 ∨ p = [934] ∧ n = 2 ∨ p = [934,0] ∧ n = 3 := by
  obtain ⟨h1,h2,-⟩ := sparseFile_cells
  cases p with
  | nil =>
    cases hr
    exact Or.inl ⟨rfl,rfl⟩
  | cons i q =>
    obtain ⟨c,hc,hz,hr⟩ := SlotTree.reach_cons_node hr
    rw [h1] at hc
    cases hc
    by_cases hi : i = 934
    · subst hi
      change SlotTree.reach (sparseFile.cells 1) 2 q = .node n at hr
      cases q with
      | nil =>
        cases hr
        exact Or.inr (Or.inl ⟨rfl,rfl⟩)
      | cons j q =>
        obtain ⟨c,hc,hz,hr⟩ := SlotTree.reach_cons_node hr
        rw [h2] at hc
        cases hc
        by_cases hj : j = 0
        · have hlen : q.length + 1 ≤ 1 := hidx.2.1
          have hq : q = [] := List.eq_nil_of_length_eq_zero (by omega)
          subst hj hq
          cases hr
          exact Or.inr (Or.inr ⟨rfl,rfl⟩)
        · exact absurd (if_neg hj) hz
    · exact absurd (if_neg hi) hz

theorem sparseFile_tree : IndexTree sparseFile 1 := by
  refine ⟨⟨_,rfl⟩,⟨fun p q n hp hq hrp hrq => ?_,(fun n hn => by cases hn),List.nodup_nil,(fun n hn => by cases hn)⟩⟩
  rcases sparseFile_paths hp hrp with ⟨rfl,rfl⟩ | ⟨rfl,rfl⟩ | ⟨rfl,rfl⟩
  all_goals rcases sparseFile_paths hq hrq with ⟨rfl,h⟩ | ⟨rfl,h⟩ | ⟨rfl,h⟩
  all_goals first | rfl | cases h

theorem sparseFile_reach : SlotTree.reach (sparseFile.cells 1) 1 [934] = .node 2 ∧
    SlotTree.reach (sparseFile.cells 1) 1 [934,0] = .node 3 := by
  obtain ⟨h1,h2,-⟩ := sparseFile_cells
  have hroot (q : List Nat) : SlotTree.reach (sparseFile.cells 1) 1 (934 :: q) =
      SlotTree.reach (sparseFile.cells 1) 2 q := SlotTree.reach_cons h1 (by decide)
  constructor
  · exact hroot []
  · rw [hroot]
    exact SlotTree.reach_cons h2 (by decide)

theorem sparseFile_block : rtfsFileResolveDataLpaByBlockIndex sparseFile 1 3000 = .ok 77 := by
  have hslot : blockSlot (3000 : UInt32).toNat = some ([934,0],28) := by decide
  rw [fileResolve_eq sparseFile_tree,slotAddr,hslot]
  simp only [SlotTree.read,sparseFile_reach.2,SlotTree.value,sparseFile_cells.2.2,Option.map_some]
  rfl

theorem sparseFile_finds {n : UInt32} (hn : IndexNodeOf sparseFile 1 n) : (readAll sparseFile).Finds n := by
  obtain ⟨p,hne,hidx,hr⟩ := hn
  rcases sparseFile_paths hidx hr with ⟨rfl,-⟩ | ⟨-,rfl⟩ | ⟨-,rfl⟩
  · exact absurd rfl hne
  · exact ⟨by decide,_,rfl⟩
  · exact ⟨by decide,_,rfl⟩

theorem reclaimPlan_sparse : ∃ lpas handles refs',
    rtfsCollectRegularFileReclaimPlan (readAll sparseFile) (setInodeNid Buf.zero 2 2) (fun _ => 0) =
      (.ok (lpas,handles),refs') ∧ 77 ∈ lpas ∧ [2,3].Sublist handles ∧ refs' 3 = 1 := by
  obtain ⟨hexact,-,hok⟩ := reclaimPlan_exact (readAll sparseFile) sparseFile 1 (setInodeNid Buf.zero 2 2)
    (fun _ => 0) sparseFile_tree rfl (readAll_reads sparseFile)
  obtain ⟨lpas,handles,refs',hrun⟩ := hok (readAll_granted sparseFile) (fun n hn => sparseFile_finds hn)
  have hplan := hexact _ _ _ hrun
  have hchild : IndexChild sparseFile 1 2 3 := ⟨[934],0,List.cons_ne_nil _ _,
    indexPath_below (k := 2) (q := [0]) (by decide) (by decide) (by decide),sparseFile_reach⟩
  have hsub := hplan.order 2 3 hchild
  refine ⟨lpas,handles,refs',hrun,(hplan.memLpas 77).mpr ⟨by decide,by decide,3000,sparseFile_block⟩,hsub,?_⟩
  rw [hplan.taken,if_pos (hsub.subset (by decide))]

-- a block at 2^31 on a file system of 2^31 + 1 blocks
def highFile : NodeStore := ⟨fun n => if n = 1 then some (setInodeAddr Buf.zero 0 0x80000000) else none,[]⟩

theorem highFile_cells :
    highFile.cells 1 1 = some (fun i => if i = 0 then 0x80000000 else 0) :=
  congrArg some (funext fun i => (nodeCells_setWord (i := 0) (by decide) _ i).trans (by rw [nodeCells_zero]))

theorem highFile_tree : IndexTree highFile 1 := by
  refine ⟨⟨_,rfl⟩,SlotTree.tree_of_zero indexPath_shape highFile_cells (fun i hi => ?_) List.nodup_nil nofun⟩
  have hlo : 932 ≤ i := hi.1.1
  exact if_neg (by omega)

theorem highFile_blocks {b v : UInt32} (hv : v ≠ 0)
    (h : rtfsFileResolveDataLpaByBlockIndex highFile 1 b = .ok v) : b = 0 ∧ v = 0x80000000 := by
  rw [fileResolve_eq highFile_tree,slotAddr] at h
  cases hslot : blockSlot b.toNat with
  | none =>
    rw [hslot] at h
    cases h
  | some r =>
    obtain ⟨p,i⟩ := r
    rw [hslot] at h
    simp only at h
    rcases blockSlot_shape hslot with ⟨rfl,hi⟩ | ⟨k,q,rfl,hk,-⟩
    · have hread : SlotTree.read (highFile.cells 1) 1 [] i = some (if i = 0 then 0x80000000 else 0) := by
        simp only [SlotTree.read,SlotTree.reach,List.foldl_nil,SlotTree.value,highFile_cells,Option.map_some]
      rw [hread] at h
      by_cases hz : i = 0
      · rw [if_pos hz] at h
        cases h
        subst hz
        exact ⟨UInt32.toNat_inj.mp (blockSlot_inj hslot rfl),rfl⟩
      · rw [if_neg hz] at h
        cases h
        exact absurd rfl hv
    · have hhole : SlotTree.reach (highFile.cells 1) 1 ((932 + k) :: q) = .hole :=
        SlotTree.reach_hole_append (SlotTree.reach_hole (p := []) rfl highFile_cells (if_neg (by omega))) q
      rw [SlotTree.read,hhole] at h
      cases h
      exact absurd rfl hv

theorem highLpa_dropped : IndexTree highFile 1 ∧
    (∀ b v, rtfsFileResolveDataLpaByBlockIndex highFile 1 b = .ok v → v.toNat < 2147483649) ∧
    (∀ b b' v, v ≠ 0 → rtfsFileResolveDataLpaByBlockIndex highFile 1 b = .ok v →
      rtfsFileResolveDataLpaByBlockIndex highFile 1 b' = .ok v → b = b') ∧
    ∃ lpas handles refs',
      rtfsCollectRegularFileReclaimPlan (readAll highFile) (setInodeAddr Buf.zero 0 0x80000000) (fun _ => 0) =
        (.ok (lpas,handles),refs') ∧
      ¬ ExactPlan highFile 1 (fun _ => True) (fun _ => 0) lpas handles refs' := by
  have hmapped : rtfsFileResolveDataLpaByBlockIndex highFile 1 0 = .ok 0x80000000 := by
    rw [fileResolve_eq highFile_tree,slotAddr]
    have hslot : blockSlot (0 : UInt32).toNat = some ([],0) := rfl
    rw [hslot]
    simp only [SlotTree.read,SlotTree.reach,List.foldl_nil,SlotTree.value,highFile_cells,Option.map_some]
    rfl
  refine ⟨highFile_tree,fun b v h => ?_,fun b b' v hv h h' => ?_,?_⟩
  · by_cases hv : v = 0
    · rw [hv]
      decide
    · rw [(highFile_blocks hv h).2]
      decide
  · rw [(highFile_blocks hv h).1,(highFile_blocks hv h').1]
  · have hnone (n : UInt32) (hn : IndexNodeOf highFile 1 n) : (readAll highFile).Finds n := by
      obtain ⟨p,hne,hidx,hr⟩ := hn
      obtain ⟨k,q,rfl,hk,-⟩ := indexPath_cases hidx hne
      obtain ⟨c,hc,hz,-⟩ := SlotTree.reach_cons_node hr
      rw [highFile_cells] at hc
      cases hc
      exact absurd (if_neg (by omega)) hz
    obtain ⟨lpas,handles,refs',hrun⟩ := plan_succeeds highFile_tree rfl (readAll_reads highFile)
      (readAll_granted highFile) hnone (fun _ => 0)
    refine ⟨lpas,handles,refs',hrun,fun hall => ?_⟩
    have hin := (hall.memLpas 0x80000000).mpr ⟨by decide,trivial,0,hmapped⟩
    have hlow := ((plan_exact highFile_tree rfl (readAll_reads highFile) hrun).memLpas 0x80000000).mp hin
    exact absurd hlow.2.1 (by decide)

end Plan

end Rtfs
