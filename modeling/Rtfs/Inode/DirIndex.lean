import Rtfs.Inode.FileIndex

namespace Rtfs

def rtfsDirResolveDataLpaByBlockIndex (s : NodeStore) (ino blockIndex : UInt32) : Except Errno UInt32 :=
  if ino = invalidNid then .error .einval
  else
    match s.node ino with
    | none => .error .einval
    | some inode =>
      if blockIndex < 932 then .ok (inodeAddr inode blockIndex.toNat)
      else
        let directBlockIndex := blockIndex - 932
        if directBlockIndex < 2 * 1020 then
          let directNodeSlot := directBlockIndex / 1020
          let directNodeOffset := directBlockIndex % 1020
          addrBelow s [] (inodeNid inode directNodeSlot.toNat) directNodeOffset.toNat
        else
          let indirectBlockIndex := directBlockIndex - 2 * 1020
          if indirectBlockIndex < 2 * 1020 * 1020 then
            let indirectNodeSlot := indirectBlockIndex / (1020 * 1020)
            let indirectNodeOffset := indirectBlockIndex % (1020 * 1020)
            let directNodeSlot := indirectNodeOffset / 1020
            let directNodeOffset := indirectNodeOffset % 1020
            addrBelow s [directNodeSlot.toNat] (inodeNid inode (2 + indirectNodeSlot).toNat)
              directNodeOffset.toNat
          else
            let doubleIndirectBlockIndex := indirectBlockIndex - 2 * 1020 * 1020
            if doubleIndirectBlockIndex < 1020 * 1020 * 1020 then
              let firstLevelSlot := doubleIndirectBlockIndex / (1020 * 1020)
              let doubleIndirectOffset := doubleIndirectBlockIndex % (1020 * 1020)
              let secondLevelSlot := doubleIndirectOffset / 1020
              let directNodeOffset := doubleIndirectOffset % 1020
              addrBelow s [firstLevelSlot.toNat,secondLevelSlot.toNat] (inodeNid inode 4)
                directNodeOffset.toNat
            else .error .enosys

-- whether the block that was allocated for the directory is released again
inductive GrowStop
  | rollback
  | noRollback

section Grow
variable (s : NodeStore) (ino : UInt32)

def readSlot (holder : UInt32) (slot : Nat) : Except (GrowStop × NodeStore) UInt32 :=
  match s.node holder with
  | none => .error (.rollback,s)
  | some b => .ok (nidAt ino holder b slot)

def fillSlot (holder : UInt32) (slot : Nat) (noffset : UInt32) (direct : Bool) :
    Except (GrowStop × NodeStore) NodeStore :=
  match s.node holder with
  | none => .error (.rollback,s)
  | some b =>
    if nidAt ino holder b slot ≠ invalidNid then .ok s
    else
      match nodeBlockCacheHelperCreateNodeEntry s ino noffset with
      | none => .error (.rollback,s)
      | some (created,s') =>
        let node := initCreated direct created
        let nid := (NodeBlock.footer node).nid
        .ok ((s'.put nid node).put holder (setNidAt ino holder b slot nid))

def storeAddr (nid : UInt32) (off : Nat) (newLpa : UInt32) : Except (GrowStop × NodeStore) NodeStore :=
  match s.node nid with
  | none => .error (.rollback,s)
  | some b => .ok (s.put nid (setNodeSlot b off newLpa))

def growDirect (directNodeSlot localIndex newLpa : UInt32) : Except (GrowStop × NodeStore) NodeStore := do
  let s ← fillSlot s ino ino directNodeSlot.toNat (932 + directNodeSlot + 1) true
  let directNid ← readSlot s ino ino directNodeSlot.toNat
  storeAddr s directNid localIndex.toNat newLpa

def growIndirect (indirectNodeSlot directNodeSlot localIndex newLpa : UInt32) :
    Except (GrowStop × NodeStore) NodeStore := do
  let s ← fillSlot s ino ino (2 + indirectNodeSlot).toNat (932 + 3 + indirectNodeSlot) false
  let indirectNid ← readSlot s ino ino (2 + indirectNodeSlot).toNat
  let s ← fillSlot s ino indirectNid directNodeSlot.toNat 0 true
  let indirectNid ← readSlot s ino ino (2 + indirectNodeSlot).toNat
  let directNid ← readSlot s ino indirectNid directNodeSlot.toNat
  storeAddr s directNid localIndex.toNat newLpa

-- a first-level node that is not cached ends the call without the rollback
def cachedLevel1 (level1Nid : UInt32) : Except (GrowStop × NodeStore) Unit :=
  match s.node level1Nid with
  | none => .error (.noRollback,s)
  | some _ => .ok ()

def growDoubleIndirect (firstLevelSlot secondLevelSlot localIndex newLpa : UInt32) :
    Except (GrowStop × NodeStore) NodeStore := do
  let s ← fillSlot s ino ino 4 (932 + 5) false
  let dindNid ← readSlot s ino ino 4
  let s ← fillSlot s ino dindNid firstLevelSlot.toNat 0 false
  let dindNid ← readSlot s ino ino 4
  let level1Nid ← readSlot s ino dindNid firstLevelSlot.toNat
  cachedLevel1 s level1Nid
  let s ← fillSlot s ino level1Nid secondLevelSlot.toNat 0 true
  let dindNid ← readSlot s ino ino 4
  let level1Nid ← readSlot s ino dindNid firstLevelSlot.toNat
  let directNid ← readSlot s ino level1Nid secondLevelSlot.toNat
  storeAddr s directNid localIndex.toNat newLpa

def growMapping (inode : Block) (newBlockIndex newLpa : UInt32) :
    Except (GrowStop × NodeStore) NodeStore :=
  if newBlockIndex < 932 then .ok (s.put ino (setInodeAddr inode newBlockIndex.toNat newLpa))
  else if newBlockIndex < 932 + 2 * 1020 then
    growDirect s ino ((newBlockIndex - 932) / 1020) ((newBlockIndex - 932) % 1020) newLpa
  else if newBlockIndex < 932 + 2 * 1020 + 2 * 1020 * 1020 then
    let indirectBlockIndex := newBlockIndex - 932 - 2 * 1020
    let indirectNodeOffset := indirectBlockIndex % (1020 * 1020)
    growIndirect s ino (indirectBlockIndex / (1020 * 1020)) (indirectNodeOffset / 1020)
      (indirectNodeOffset % 1020) newLpa
  else if newBlockIndex < 932 + 2 * 1020 + 2 * 1020 * 1020 + 1020 * 1020 * 1020 then
    let doubleIndirectBlockIndex := newBlockIndex - 932 - 2 * 1020 - 2 * 1020 * 1020
    let doubleIndirectOffset := doubleIndirectBlockIndex % (1020 * 1020)
    growDoubleIndirect s ino (doubleIndirectBlockIndex / (1020 * 1020)) (doubleIndirectOffset / 1020)
      (doubleIndirectOffset % 1020) newLpa
  else .error (.rollback,s)

end Grow

structure RtfsDirInode where
  ino : UInt32
  store : NodeStore
  totalBlockCount : Nat

structure Grown where
  ret : Except Errno Unit
  dir : RtfsDirInode
  invalidated : Bool

def withdrawMapping (s : NodeStore) (ino newBlockIndex : UInt32) : NodeStore :=
  if newBlockIndex < 932 then
    match s.node ino with
    | none => s
    | some inode => s.put ino (setInodeAddr inode newBlockIndex.toNat invalidLpa)
  else s

-- newLpa is what the allocator gave; remembered and backed are the results of
-- rtfsDirInodeRememberLoadedBlock and of rtfsDirInodeAddRegularBacking
def rtfsDirInodeGrowRegularBlock (d : RtfsDirInode) (newLpa : UInt32)
    (remembered backed : Except Errno Unit) : Grown :=
  match d.store.node d.ino with
  | none => ⟨.error .enospc,d,false⟩
  | some inode =>
    let newBlockIndex := UInt32.ofNat d.totalBlockCount
    if newLpa = invalidLpa then ⟨.error .enospc,d,false⟩
    else
      match growMapping d.store d.ino inode newBlockIndex newLpa with
      | .error (.rollback,s) => ⟨.error .enospc,{ d with store := s },true⟩
      | .error (.noRollback,s) => ⟨.error .enospc,{ d with store := s },false⟩
      | .ok s =>
        match remembered.bind (fun _ => backed) with
        | .error e => ⟨.error e,{ d with store := withdrawMapping s d.ino newBlockIndex },true⟩
        | .ok () => ⟨.ok (),⟨d.ino,s,d.totalBlockCount + 1⟩,false⟩

def canRelocateBelow (s : NodeStore) : List Nat → UInt32 → Except Errno Unit
  | [], nid =>
    if nid = invalidNid then .error .enoent
    else
      match s.node nid with
      | none => .error .enoent
      | some _ => .ok ()
  | slot :: slots, nid =>
    if nid = invalidNid then .error .enoent
    else
      match s.node nid with
      | none => .error .enoent
      | some b => canRelocateBelow s slots (nodeSlot b slot)

def rtfsDirInodeCanRelocateOneRegularBlock (s : NodeStore) (ino blockIndex : UInt32) :
    Except Errno Unit :=
  match s.node ino with
  | none => .error .einval
  | some inode =>
    if blockIndex < 932 then .ok ()
    else
      let directBlockIndex := blockIndex - 932
      if directBlockIndex < 2 * 1020 then
        canRelocateBelow s [] (inodeNid inode (directBlockIndex / 1020).toNat)
      else
        let indirectBlockIndex := directBlockIndex - 2 * 1020
        if indirectBlockIndex < 2 * 1020 * 1020 then
          let indirectNodeSlot := indirectBlockIndex / (1020 * 1020)
          let indirectNodeOffset := indirectBlockIndex % (1020 * 1020)
          canRelocateBelow s [(indirectNodeOffset / 1020).toNat]
            (inodeNid inode (2 + indirectNodeSlot).toNat)
        else
          let doubleIndirectBlockIndex := indirectBlockIndex - 2 * 1020 * 1020
          if doubleIndirectBlockIndex < 1020 * 1020 * 1020 then
            let firstLevelSlot := doubleIndirectBlockIndex / (1020 * 1020)
            let doubleIndirectOffset := doubleIndirectBlockIndex % (1020 * 1020)
            canRelocateBelow s [firstLevelSlot.toNat,(doubleIndirectOffset / 1020).toNat]
              (inodeNid inode 4)
          else .error .enosys

def relocateBelow (s : NodeStore) (newLpa : UInt32) : List Nat → UInt32 → Nat → Except Errno NodeStore
  | [], nid, off =>
    if nid = invalidNid then .error .enoent
    else
      match s.node nid with
      | none => .error .enoent
      | some b => .ok (s.put nid (setNodeSlot b off newLpa))
  | slot :: slots, nid, off =>
    if nid = invalidNid then .error .enoent
    else
      match s.node nid with
      | none => .error .enoent
      | some b => relocateBelow s newLpa slots (nodeSlot b slot) off

def rtfsDirInodeRelocateOneRegularBlock (s : NodeStore) (ino blockIndex newLpa : UInt32) :
    Except Errno NodeStore :=
  match s.node ino with
  | none => .error .einval
  | some inode =>
    if blockIndex < 932 then .ok (s.put ino (setInodeAddr inode blockIndex.toNat newLpa))
    else
      let directBlockIndex := blockIndex - 932
      if directBlockIndex < 2 * 1020 then
        let directNodeSlot := directBlockIndex / 1020
        let directNodeOffset := directBlockIndex % 1020
        relocateBelow s newLpa [] (inodeNid inode directNodeSlot.toNat) directNodeOffset.toNat
      else
        let indirectBlockIndex := directBlockIndex - 2 * 1020
        if indirectBlockIndex < 2 * 1020 * 1020 then
          let indirectNodeSlot := indirectBlockIndex / (1020 * 1020)
          let indirectNodeOffset := indirectBlockIndex % (1020 * 1020)
          let directNodeSlot := indirectNodeOffset / 1020
          let directNodeOffset := indirectNodeOffset % 1020
          relocateBelow s newLpa [directNodeSlot.toNat] (inodeNid inode (2 + indirectNodeSlot).toNat)
            directNodeOffset.toNat
        else
          let doubleIndirectBlockIndex := indirectBlockIndex - 2 * 1020 * 1020
          if doubleIndirectBlockIndex < 1020 * 1020 * 1020 then
            let firstLevelSlot := doubleIndirectBlockIndex / (1020 * 1020)
            let doubleIndirectOffset := doubleIndirectBlockIndex % (1020 * 1020)
            let secondLevelSlot := doubleIndirectOffset / 1020
            let directNodeOffset := doubleIndirectOffset % 1020
            relocateBelow s newLpa [firstLevelSlot.toNat,secondLevelSlot.toNat] (inodeNid inode 4)
              directNodeOffset.toNat
          else .error .enosys

theorem dirResolve_eq (s : NodeStore) {ino : UInt32} (hino : ino ≠ invalidNid) (b : UInt32) :
    rtfsDirResolveDataLpaByBlockIndex s ino b = rtfsFileResolveDataLpaByBlockIndex s ino b :=
  if_neg hino

structure Extends (ino : UInt32) (s s' : NodeStore) : Prop where
  tree : IndexTree s' ino
  reached : ∀ q n, IndexPath q → SlotTree.reach (s.cells ino) ino q = .node n →
    SlotTree.reach (s'.cells ino) ino q = .node n
  reads : ∀ q j, SlotTree.Slot IndexPath q j →
    SlotTree.read (s'.cells ino) ino q j = SlotTree.read (s.cells ino) ino q j

structure Stored (ino : UInt32) (p : List Nat) (i : Nat) (v : UInt32) (s s' : NodeStore) : Prop where
  tree : IndexTree s' ino
  new : SlotTree.read (s'.cells ino) ino p i = some v
  others : ∀ q j, SlotTree.Slot IndexPath q j → ¬ (q = p ∧ j = i) →
    SlotTree.read (s'.cells ino) ino q j = SlotTree.read (s.cells ino) ino q j

def GrowSpec (ino : UInt32) (p : List Nat) (i : Nat) (v : UInt32) (s : NodeStore) :
    Except (GrowStop × NodeStore) NodeStore → Prop
  | .error (_,s') => Extends ino s s'
  | .ok s' => Stored ino p i v s s'

section Mapping
variable {s s' : NodeStore} {ino : UInt32} {p : List Nat} {i : Nat} {v : UInt32}

theorem Extends.refl (h : IndexTree s ino) : Extends ino s s :=
  ⟨h,fun _ _ _ hr => hr,fun _ _ _ => rfl⟩

theorem Extends.trans {s'' : NodeStore} (h : Extends ino s s') (h' : Extends ino s' s'') :
    Extends ino s s'' :=
  ⟨h'.tree,fun q n hq hr => h'.reached q n hq (h.reached q n hq hr),
    fun q j hq => (h'.reads q j hq).trans (h.reads q j hq)⟩

theorem Extends.grow (h : Extends ino s s') {r : Except (GrowStop × NodeStore) NodeStore}
    (hr : GrowSpec ino p i v s' r) : GrowSpec ino p i v s r := by
  cases r with
  | error e => exact h.trans hr
  | ok s'' =>
    exact ⟨hr.tree,hr.new,fun q j hq hne => (hr.others q j hq hne).trans (h.reads q j hq)⟩

theorem grow_ok {α : Type} (a : α) (f : α → Except (GrowStop × NodeStore) NodeStore) :
    (Except.ok a >>= f) = f a := rfl

theorem grow_bind {α : Type} {x : Except (GrowStop × NodeStore) α}
    {f : α → Except (GrowStop × NodeStore) NodeStore} (he : ∀ e, x = .error e → Extends ino s e.2)
    (hf : ∀ a, x = .ok a → GrowSpec ino p i v s (f a)) : GrowSpec ino p i v s (x >>= f) := by
  cases x with
  | error e => exact he e rfl
  | ok a => exact hf a rfl

variable {pre : List Nat} {holder : UInt32} {slot : Nat}

theorem fillSlot_spec (h : IndexTree s ino) (noffset : UInt32) (direct : Bool)
    (hn : SlotTree.reach (s.cells ino) ino pre = .node holder)
    (hj : IndexPath (pre ++ [cellIdx ino holder slot])) :
    (∀ e, fillSlot s ino holder slot noffset direct = .error e → Extends ino s e.2) ∧
    ∀ s', fillSlot s ino holder slot noffset direct = .ok s' → Extends ino s s' ∧
      ∃ nid, SlotTree.reach (s'.cells ino) ino (pre ++ [cellIdx ino holder slot]) = .node nid := by
  have hlt := cellIdx_lt h.tree hn hj
  unfold fillSlot
  cases hb : s.node holder with
  | none =>
    refine ⟨fun e he => ?_,fun s' hs => by cases hs⟩
    cases he
    exact .refl h
  | some b =>
    have hc : s.cells ino holder = some (nodeCells (decide (holder = ino)) b) := by
      simp [NodeStore.cells,hb]
    have hv := nidAt_eq (b := b) hlt
    by_cases hz : nidAt ino holder b slot = invalidNid
    · simp only [if_neg (not_not.mpr hz)]
      cases hf : s.fresh with
      | nil =>
        simp only [nodeBlockCacheHelperCreateNodeEntry,hf]
        refine ⟨fun e he => ?_,fun s' hs => by cases hs⟩
        cases he
        exact .refl h
      | cons new fresh =>
        obtain ⟨nid,raw⟩ := new
        have hfn : s.freshNids = nid :: fresh.map Prod.fst := by simp [NodeStore.freshNids,hf]
        have ht := h.tree
        rw [hfn] at ht
        have hunused := ht.unused nid List.mem_cons_self
        have hnh : nid ≠ holder := by
          rintro rfl
          exact hunused pre (SlotTree.index_append indexPath_shape hj) hn
        have hni : nid ≠ ino := by
          rintro rfl
          exact hunused [] trivial rfl
        have hz' : nodeCells (decide (holder = ino)) b (cellIdx ino holder slot) = 0 := hv.symm.trans hz
        simp only [nodeBlockCacheHelperCreateNodeEntry,hf,footer_initCreated,footer_setFooter]
        have hcells := created_cells fresh (NodeBlock.setFooter raw ⟨nid,ino,noffset⟩) hb hnh hni
          (nodeCells_initCreated direct (NodeBlock.setFooter raw ⟨nid,ino,noffset⟩)) hlt
        refine ⟨(fun e he => by cases he),fun s' hs => ?_⟩
        cases hs
        have hreach := SlotTree.link_reach indexPath_shape ht hj hn hc hz'
        refine ⟨⟨⟨?_,?_⟩,fun q n hq hr => ?_,fun q j hq => ?_⟩,nid,?_⟩
        · obtain ⟨inode,hinode⟩ := h.inode
          by_cases hhi : holder = ino
          · subst hhi
            exact ⟨_,Function.update_self _ _ _⟩
          · refine ⟨inode,?_⟩
            simp only [NodeStore.put,Function.update_of_ne (Ne.symm hhi),
              Function.update_of_ne hni.symm,hinode]
        · rw [hcells]
          exact SlotTree.link_tree indexPath_shape ht hj hn hc hz'
        · have hne : q ≠ pre ++ [cellIdx ino holder slot] := by
            rintro rfl
            rw [SlotTree.reach_hole hn hc hz'] at hr
            cases hr
          rw [hcells,hreach q hq,if_neg hne,hr]
        · rw [hcells]
          exact SlotTree.link_read indexPath_shape ht hj hn hc hz' hq
        · rw [hcells,hreach _ hj,if_pos rfl]
    · simp only [if_pos hz]
      refine ⟨(fun e he => by cases he),fun s' hs => ?_⟩
      cases hs
      refine ⟨.refl h,nidAt ino holder b slot,?_⟩
      rw [hv]
      exact SlotTree.reach_child hn hc (by rw [← hv]; exact hz)

theorem readSlot_reached (h : IndexTree s ino) {nid : UInt32}
    (hn : SlotTree.reach (s.cells ino) ino pre = .node holder)
    (hj : IndexPath (pre ++ [cellIdx ino holder slot]))
    (hr : SlotTree.reach (s.cells ino) ino (pre ++ [cellIdx ino holder slot]) = .node nid) :
    readSlot s ino holder slot = .ok nid := by
  have hv {b : Block} := nidAt_eq (b := b) (cellIdx_lt h.tree hn hj)
  rw [SlotTree.reach_concat,hn] at hr
  unfold readSlot
  cases hb : s.node holder with
  | none => simp [SlotTree.step,NodeStore.cells,hb] at hr
  | some b =>
    simp only [SlotTree.step,NodeStore.cells,hb,Option.map_some,← hv] at hr
    split at hr
    · cases hr
    · cases hr
      rfl

theorem stored_of_write (h : IndexTree s ino) {nid : UInt32} {b b' : Block} (hp : SlotTree.Slot IndexPath p i)
    (hr : SlotTree.reach (s.cells ino) ino p = .node nid) (hb : s.node nid = some b)
    (hcells : (s.put nid b').cells ino = SlotTree.write (s.cells ino) nid i v) :
    Stored ino p i v s (s.put nid b') := by
  have hc : s.cells ino nid = some (nodeCells (decide (nid = ino)) b) := by simp [NodeStore.cells,hb]
  have hw {q : List Nat} {j : Nat} (hq : SlotTree.Slot IndexPath q j) :=
    SlotTree.write_read indexPath_shape h.tree hp hr hc v hq
  refine ⟨⟨?_,?_⟩,?_,fun q j hq hne => ?_⟩
  · obtain ⟨inode,hinode⟩ := h.inode
    by_cases hni : nid = ino
    · subst hni
      exact ⟨b',Function.update_self _ _ _⟩
    · exact ⟨inode,by simp only [NodeStore.put,Function.update_of_ne (Ne.symm hni),hinode]⟩
  · rw [hcells]
    exact SlotTree.write_tree indexPath_shape h.tree hp hr v
  · rw [hcells,hw hp,if_pos ⟨rfl,rfl⟩]
  · rw [hcells,hw hq,if_neg hne]

theorem storeAddr_spec (h : IndexTree s ino) {nid : UInt32} (hne : p ≠ [])
    (hp : SlotTree.Slot IndexPath p i) (hi : i < 1020)
    (hr : SlotTree.reach (s.cells ino) ino p = .node nid) :
    GrowSpec ino p i v s (storeAddr s nid i v) := by
  have hni := child_ne_inode h.tree hne hp.index hr
  unfold storeAddr
  cases hb : s.node nid with
  | none => exact .refl h
  | some b =>
    refine stored_of_write h hp hr hb (cells_put hb ?_)
    rw [decide_eq_false hni]
    exact nodeCells_setNodeSlot hi v

theorem cellIdx_inode (ino : UInt32) (k : Nat) : cellIdx ino ino k = 932 + k := if_pos rfl

theorem cellIdx_below {nid : UInt32} (hne : nid ≠ ino) (k : Nat) : cellIdx ino nid k = k := if_neg hne

theorem growDirect_spec (h : IndexTree s ino) {slot local' : UInt32}
    (hp : SlotTree.Slot IndexPath [932 + slot.toNat] local'.toNat) (hl : local'.toNat < 1020) :
    GrowSpec ino [932 + slot.toNat] local'.toNat v s (growDirect s ino slot local' v) := by
  have hroot : SlotTree.reach (s.cells ino) ino [] = .node ino := rfl
  have hj : IndexPath ([] ++ [cellIdx ino ino slot.toNat]) := by
    rw [cellIdx_inode]
    exact hp.index
  unfold growDirect
  obtain ⟨hfail,hok⟩ := fillSlot_spec h (932 + slot + 1) true hroot hj
  refine grow_bind hfail (fun s1 hs1 => ?_)
  obtain ⟨hext,nid,hnid⟩ := hok s1 hs1
  rw [readSlot_reached hext.tree rfl hj hnid,grow_ok]
  rw [cellIdx_inode] at hnid
  exact hext.grow (storeAddr_spec hext.tree (by simp) hp hl hnid)

theorem growIndirect_spec (h : IndexTree s ino) {ind slot local' : UInt32}
    (hp : SlotTree.Slot IndexPath [932 + (2 + ind).toNat,slot.toNat] local'.toNat)
    (hl : local'.toNat < 1020) : GrowSpec ino [932 + (2 + ind).toNat,slot.toNat] local'.toNat v s
      (growIndirect s ino ind slot local' v) := by
  have hroot : SlotTree.reach (s.cells ino) ino [] = .node ino := rfl
  have hj : IndexPath ([] ++ [cellIdx ino ino (2 + ind).toNat]) := by
    rw [cellIdx_inode]
    exact SlotTree.index_append (q := [slot.toNat]) indexPath_shape hp.index
  unfold growIndirect
  obtain ⟨hfail,hok⟩ := fillSlot_spec h (932 + 3 + ind) false hroot hj
  refine grow_bind hfail (fun s1 hs1 => ?_)
  obtain ⟨hext,nid,hnid⟩ := hok s1 hs1
  rw [readSlot_reached hext.tree rfl hj hnid,grow_ok]
  have hne := child_ne_inode hext.tree.tree (by simp) hj hnid
  have hj2 : IndexPath (([] ++ [cellIdx ino ino (2 + ind).toNat]) ++ [cellIdx ino nid slot.toNat]) := by
    rw [cellIdx_inode,cellIdx_below hne]
    exact hp.index
  obtain ⟨hfail2,hok2⟩ := fillSlot_spec hext.tree 0 true hnid hj2
  refine hext.grow (grow_bind hfail2 (fun s2 hs2 => ?_))
  obtain ⟨hext2,nid2,hnid2⟩ := hok2 s2 hs2
  have hnid' := hext2.reached _ _ hj hnid
  rw [readSlot_reached hext2.tree rfl hj hnid',grow_ok]
  rw [readSlot_reached hext2.tree hnid' hj2 hnid2,grow_ok]
  rw [cellIdx_inode,cellIdx_below hne] at hnid2
  exact hext2.grow (storeAddr_spec hext2.tree (by simp) hp hl hnid2)

theorem cachedLevel1_spec (h : IndexTree s ino) (nid : UInt32) :
    ∀ e, cachedLevel1 s nid = .error e → Extends ino s e.2 := by
  intro e he
  unfold cachedLevel1 at he
  cases hb : s.node nid with
  | none =>
    rw [hb] at he
    cases he
    exact .refl h
  | some b =>
    rw [hb] at he
    cases he

theorem growDoubleIndirect_spec (h : IndexTree s ino) {first second local' : UInt32}
    (hp : SlotTree.Slot IndexPath [932 + 4,first.toNat,second.toNat] local'.toNat)
    (hl : local'.toNat < 1020) : GrowSpec ino [932 + 4,first.toNat,second.toNat] local'.toNat v s
      (growDoubleIndirect s ino first second local' v) := by
  have hroot : SlotTree.reach (s.cells ino) ino [] = .node ino := rfl
  have hj : IndexPath ([] ++ [cellIdx ino ino 4]) := by
    rw [cellIdx_inode]
    exact SlotTree.index_append (q := [first.toNat,second.toNat]) indexPath_shape hp.index
  unfold growDoubleIndirect
  obtain ⟨hfail,hok⟩ := fillSlot_spec h (932 + 5) false hroot hj
  refine grow_bind hfail (fun s1 hs1 => ?_)
  obtain ⟨hext,nid,hnid⟩ := hok s1 hs1
  rw [readSlot_reached hext.tree rfl hj hnid,grow_ok]
  have hne := child_ne_inode hext.tree.tree (by simp) hj hnid
  have hj2 : IndexPath (([] ++ [cellIdx ino ino 4]) ++ [cellIdx ino nid first.toNat]) := by
    rw [cellIdx_inode,cellIdx_below hne]
    exact SlotTree.index_append (q := [second.toNat]) indexPath_shape hp.index
  obtain ⟨hfail2,hok2⟩ := fillSlot_spec hext.tree 0 false hnid hj2
  refine hext.grow (grow_bind hfail2 (fun s2 hs2 => ?_))
  obtain ⟨hext2,nid2,hnid2⟩ := hok2 s2 hs2
  have hnid' := hext2.reached _ _ hj hnid
  have hne2 := child_ne_inode hext2.tree.tree (by simp) hj2 hnid2
  rw [readSlot_reached hext2.tree rfl hj hnid',grow_ok]
  rw [readSlot_reached hext2.tree hnid' hj2 hnid2,grow_ok]
  have hj3 : IndexPath ((([] ++ [cellIdx ino ino 4]) ++ [cellIdx ino nid first.toNat]) ++
      [cellIdx ino nid2 second.toNat]) := by
    rw [cellIdx_inode,cellIdx_below hne,cellIdx_below hne2]
    exact hp.index
  refine hext2.grow (grow_bind (cachedLevel1_spec hext2.tree nid2) (fun _ _ => ?_))
  obtain ⟨hfail3,hok3⟩ := fillSlot_spec hext2.tree 0 true hnid2 hj3
  refine grow_bind hfail3 (fun s3 hs3 => ?_)
  obtain ⟨hext3,nid3,hnid3⟩ := hok3 s3 hs3
  have hnid'' := hext3.reached _ _ hj hnid'
  have hnid2' := hext3.reached _ _ hj2 hnid2
  rw [readSlot_reached hext3.tree rfl hj hnid'',grow_ok]
  rw [readSlot_reached hext3.tree hnid'' hj2 hnid2',grow_ok]
  rw [readSlot_reached hext3.tree hnid2' hj3 hnid3,grow_ok]
  rw [cellIdx_inode,cellIdx_below hne,cellIdx_below hne2] at hnid3
  exact hext3.grow (storeAddr_spec hext3.tree (by simp) hp hl hnid3)

end Mapping

theorem lt_add_iff {a c k : UInt32} (hfit : c.toNat + k.toNat < 4294967296) (h : ¬ a < c) :
    a < c + k ↔ a - c < k := by
  have hle : c.toNat ≤ a.toNat := UInt32.not_lt.mp h
  rw [UInt32.lt_iff_toNat_lt,UInt32.lt_iff_toNat_lt,UInt32.toNat_sub_of_le _ _ (UInt32.not_lt.mp h),
    UInt32.toNat_add,Nat.mod_eq_of_lt hfit]
  omega

-- the bounds of the growth code are sums, those of the resolvers are differences
theorem growBounds (b : UInt32) (hb : ¬ b < 932) :
    (b < 932 + 2 * 1020 ↔ b - 932 < 2 * 1020) ∧
    (¬ b - 932 < 2 * 1020 →
      (b < 932 + 2 * 1020 + 2 * 1020 * 1020 ↔ b - 932 - 2 * 1020 < 2 * 1020 * 1020) ∧
      (¬ b - 932 - 2 * 1020 < 2 * 1020 * 1020 →
        (b < 932 + 2 * 1020 + 2 * 1020 * 1020 + 1020 * 1020 * 1020 ↔
          b - 932 - 2 * 1020 - 2 * 1020 * 1020 < 1020 * 1020 * 1020))) := by
  have h1 : b < 932 + 2 * 1020 ↔ b - 932 < 2 * 1020 := lt_add_iff (by decide) hb
  have hsum {x y z : UInt32} : x - (y + z) = x - y - z := by
    apply UInt32.toBitVec_inj.mp
    simp only [UInt32.toBitVec_sub,UInt32.toBitVec_add]
    bv_omega
  refine ⟨h1,fun hd => ?_⟩
  have hd' : ¬ b < 932 + 2 * 1020 := fun h => hd (h1.mp h)
  have h2 : b < 932 + 2 * 1020 + 2 * 1020 * 1020 ↔ b - 932 - 2 * 1020 < 2 * 1020 * 1020 := by
    rw [lt_add_iff (by decide) hd',hsum]
  refine ⟨h2,fun hi => ?_⟩
  have hi' : ¬ b < 932 + 2 * 1020 + 2 * 1020 * 1020 := fun h => hi (h2.mp h)
  rw [lt_add_iff (by decide) hi',hsum,hsum]

section Growth
variable {s s' : NodeStore} {ino : UInt32}

theorem inode_stored (h : IndexTree s ino) {inode : Block} (hb : s.node ino = some inode) {i : Nat}
    (hi : i < 932) (v : UInt32) : Stored ino [] i v s (s.put ino (setInodeAddr inode i v)) := by
  have hp : SlotTree.Slot IndexPath [] i := by
    refine ⟨trivial,fun hp => ?_⟩
    have hlo : 932 ≤ i := hp.1.1
    omega
  refine stored_of_write h hp rfl hb (cells_put hb ?_)
  rw [decide_eq_true rfl]
  exact nodeCells_setWord (hi.trans (by decide)) v

theorem growMapping_spec (h : IndexTree s ino) {inode : Block} (hb : s.node ino = some inode)
    (b v : UInt32) :
    match blockSlot b.toNat with
    | none => growMapping s ino inode b v = .error (.rollback,s)
    | some (p,i) => GrowSpec ino p i v s (growMapping s ino inode b v) := by
  unfold growMapping
  cases blockLevel b with
  | inode hlt hslot =>
    rw [if_pos hlt,hslot]
    exact inode_stored h hb hlt v
  | direct hge hd hslot =>
    obtain ⟨hp,hoff⟩ := blockSlot_slot hslot
    rw [if_neg hge,if_pos ((growBounds b hge).1.mpr hd),hslot]
    exact growDirect_spec h hp (by simpa using hoff)
  | indirect hge hd hi hslot =>
    obtain ⟨hp,hoff⟩ := blockSlot_slot hslot
    obtain ⟨h1,hrest⟩ := growBounds b hge
    rw [if_neg hge,if_neg (mt h1.mp hd),if_pos ((hrest hd).1.mpr hi),hslot]
    exact growIndirect_spec h hp (by simpa using hoff)
  | doubleIndirect hge hd hi hdi hslot =>
    obtain ⟨hp,hoff⟩ := blockSlot_slot hslot
    obtain ⟨h1,hrest⟩ := growBounds b hge
    obtain ⟨h2,hrest⟩ := hrest hd
    rw [if_neg hge,if_neg (mt h1.mp hd),if_neg (mt h2.mp hi),if_pos ((hrest hi).mpr hdi),hslot]
    exact growDoubleIndirect_spec h hp (by simpa using hoff)
  | beyond hge hd hi hdi hslot =>
    obtain ⟨h1,hrest⟩ := growBounds b hge
    obtain ⟨h2,hrest⟩ := hrest hd
    rw [if_neg hge,if_neg (mt h1.mp hd),if_neg (mt h2.mp hi),if_neg (mt (hrest hi).mp hdi),hslot]

theorem Extends.slotAddr (h : Extends ino s s') (b : Nat) : slotAddr s' ino b = slotAddr s ino b := by
  unfold Rtfs.slotAddr
  cases hslot : blockSlot b with
  | none => rfl
  | some r => exact congrArg lookupResult (h.reads r.1 r.2 (blockSlot_slot hslot).1)

theorem Stored.slotAddr {p : List Nat} {i n : Nat} {v : UInt32} (h : Stored ino p i v s s')
    (hn : blockSlot n = some (p,i)) : slotAddr s' ino n = .ok v ∧
      ∀ b, b ≠ n → slotAddr s' ino b = slotAddr s ino b := by
  refine ⟨?_,fun b hne => ?_⟩
  · simp only [Rtfs.slotAddr,hn,h.new,lookupResult]
  · unfold Rtfs.slotAddr
    cases hslot : blockSlot b with
    | none => rfl
    | some r =>
      refine congrArg lookupResult (h.others r.1 r.2 (blockSlot_slot hslot).1 ?_)
      rintro ⟨rfl,rfl⟩
      exact hne (blockSlot_inj hslot hn)

theorem withdraw_slotAddr (h : IndexTree s ino) (n : UInt32) :
    IndexTree (withdrawMapping s ino n) ino ∧
      ∀ b, b ≠ n.toNat → slotAddr (withdrawMapping s ino n) ino b = slotAddr s ino b := by
  obtain ⟨inode,hb⟩ := h.inode
  unfold withdrawMapping
  split
  · rename_i hlt
    simp only [hb]
    have hs := inode_stored h hb hlt invalidLpa
    exact ⟨hs.tree,fun b hne => (hs.slotAddr (if_pos hlt)).2 b hne⟩
  · exact ⟨h,fun _ _ => rfl⟩

end Growth

structure GrowCall where
  newLpa : UInt32
  remembered : Except Errno Unit
  backed : Except Errno Unit

def GrowCall.apply (c : GrowCall) (d : RtfsDirInode) : Grown :=
  rtfsDirInodeGrowRegularBlock d c.newLpa c.remembered c.backed

def growRun : RtfsDirInode → List GrowCall → RtfsDirInode × List UInt32
  | d, [] => (d,[])
  | d, c :: calls =>
    let g := c.apply d
    let r := growRun g.dir calls
    match g.ret with
    | .ok () => (r.1,c.newLpa :: r.2)
    | .error _ => r

structure Mapped (d : RtfsDirInode) (lpas : List UInt32) : Prop where
  tree : IndexTree d.store d.ino
  count : d.totalBlockCount = lpas.length
  bound : lpas.length ≤ fileBlockBound
  valid : ∀ lpa ∈ lpas, lpa ≠ invalidLpa
  addrs : ∀ b lpa, lpas[b]? = some lpa → slotAddr d.store d.ino b = .ok lpa

section Run
variable {d : RtfsDirInode} {lpas : List UInt32}

theorem Mapped.keep (h : Mapped d lpas) {s : NodeStore} (ht : IndexTree s d.ino)
    (hs : ∀ b < lpas.length, slotAddr s d.ino b = slotAddr d.store d.ino b) :
    Mapped { d with store := s } lpas := by
  refine ⟨ht,h.count,h.bound,h.valid,fun b lpa hb => ?_⟩
  have hlt := (List.getElem?_eq_some_iff.mp hb).1
  exact (hs b hlt).trans (h.addrs b lpa hb)

theorem Mapped.grow (h : Mapped d lpas) (c : GrowCall) :
    (c.apply d).dir.ino = d.ino ∧
    match (c.apply d).ret with
    | .ok () => Mapped (c.apply d).dir (lpas ++ [c.newLpa])
    | .error _ => Mapped (c.apply d).dir lpas := by
  obtain ⟨inode,hb⟩ := h.tree.inode
  have hn : (UInt32.ofNat d.totalBlockCount).toNat = lpas.length := by
    have hle := h.bound
    unfold fileBlockBound at hle
    rw [UInt32.toNat_ofNat',h.count]
    omega
  unfold GrowCall.apply rtfsDirInodeGrowRegularBlock
  simp only [hb]
  by_cases hz : c.newLpa = invalidLpa
  · rw [if_pos hz]
    exact ⟨rfl,h⟩
  · rw [if_neg hz]
    have hspec := growMapping_spec h.tree hb (UInt32.ofNat d.totalBlockCount) c.newLpa
    rw [hn] at hspec
    cases hslot : blockSlot lpas.length with
    | none =>
      rw [hslot] at hspec
      simp only [hspec]
      exact ⟨trivial,h⟩
    | some r =>
      obtain ⟨p,i⟩ := r
      simp only [hslot] at hspec
      cases hg : growMapping d.store d.ino inode (UInt32.ofNat d.totalBlockCount) c.newLpa with
      | error e =>
        obtain ⟨stop,s⟩ := e
        rw [hg] at hspec
        have hkeep := h.keep hspec.tree (fun b _ => Extends.slotAddr hspec b)
        cases stop with
        | rollback => exact ⟨rfl,hkeep⟩
        | noRollback => exact ⟨rfl,hkeep⟩
      | ok s =>
        rw [hg] at hspec
        obtain ⟨hnew,hothers⟩ := Stored.slotAddr hspec hslot
        cases hres : c.remembered.bind (fun _ => c.backed) with
        | error e =>
          obtain ⟨ht,hw⟩ := withdraw_slotAddr hspec.tree (UInt32.ofNat d.totalBlockCount)
          refine ⟨rfl,h.keep ht (fun b hlt => ?_)⟩
          rw [hn] at hw
          exact (hw b (Nat.ne_of_lt hlt)).trans (hothers b (Nat.ne_of_lt hlt))
        | ok u =>
          cases u
          refine ⟨rfl,hspec.tree,?_,?_,fun lpa hlpa => ?_,fun b lpa hlpa => ?_⟩
          · simp [h.count]
          · have hlt := (blockSlot_isSome lpas.length).mp (by rw [hslot]; rfl)
            simpa using hlt
          · rcases List.mem_append.mp hlpa with hlpa | hlpa
            · exact h.valid lpa hlpa
            · rwa [List.mem_singleton.mp hlpa]
          · by_cases hb' : b = lpas.length
            · subst hb'
              simp only [List.getElem?_concat_length,Option.some.injEq] at hlpa
              exact hlpa ▸ hnew
            · have hlt : b < lpas.length := by
                have hlt' := (List.getElem?_eq_some_iff.mp hlpa).1
                rw [List.length_append,List.length_singleton] at hlt'
                omega
              rw [List.getElem?_append_left hlt] at hlpa
              exact (hothers b hb').trans (h.addrs b lpa hlpa)

theorem Mapped.run (h : Mapped d lpas) (calls : List GrowCall) :
    (growRun d calls).1.ino = d.ino ∧ Mapped (growRun d calls).1 (lpas ++ (growRun d calls).2) := by
  induction calls generalizing d lpas with
  | nil => exact ⟨rfl,by simpa [growRun] using h⟩
  | cons c calls ih =>
    obtain ⟨hino,hstep⟩ := h.grow c
    simp only [growRun]
    cases hret : (c.apply d).ret with
    | error e =>
      rw [hret] at hstep
      obtain ⟨hino',hrun⟩ := ih hstep
      exact ⟨hino'.trans hino,hrun⟩
    | ok u =>
      cases u
      rw [hret] at hstep
      obtain ⟨hino',hrun⟩ := ih hstep
      exact ⟨hino'.trans hino,by simpa using hrun⟩

end Run

def addrHolder (s : NodeStore) (ino : UInt32) (p : List Nat) : Except Errno (UInt32 × Block) :=
  match SlotTree.reach (s.cells ino) ino p with
  | .node n =>
    match s.node n with
    | none => .error .enoent
    | some b => .ok (n,b)
  | _ => .error .enoent

section Relocate
variable {s : NodeStore} {ino : UInt32}

theorem addrHolder_lost {p : List Nat}
    (h : SlotTree.reach (s.cells ino) ino p = .hole ∨ SlotTree.reach (s.cells ino) ino p = .lost) :
    addrHolder s ino p = .error .enoent := by
  unfold addrHolder
  rcases h with h | h
  · rw [h]
  · rw [h]

theorem below_holder {fresh : List UInt32} (ht : SlotTree.Tree IndexPath (s.cells ino) ino fresh)
    (newLpa : UInt32) (off : Nat) (pre slots : List Nat) {nid : UInt32} (hne : pre ≠ [])
    (hidx : IndexPath (pre ++ slots))
    (hhole : nid = 0 → SlotTree.reach (s.cells ino) ino pre = .hole)
    (hnode : nid ≠ 0 → SlotTree.reach (s.cells ino) ino pre = .node nid) :
    canRelocateBelow s slots nid = (addrHolder s ino (pre ++ slots)).map (fun _ => ()) ∧
    relocateBelow s newLpa slots nid off =
      (addrHolder s ino (pre ++ slots)).map (fun r => s.put r.1 (setNodeSlot r.2 off newLpa)) := by
  induction slots generalizing pre nid with
  | nil =>
    rw [List.append_nil]
    rw [canRelocateBelow,relocateBelow]
    by_cases hz : nid = invalidNid
    · rw [if_pos hz,if_pos hz,addrHolder_lost (.inl (hhole hz))]
      exact ⟨rfl,rfl⟩
    · rw [if_neg hz,if_neg hz,addrHolder,hnode hz]
      cases hb : s.node nid with
      | none => simp [hb,Except.map]
      | some b => simp [hb,Except.map]
  | cons slot slots ih =>
    have hassoc : pre ++ slot :: slots = (pre ++ [slot]) ++ slots := by simp
    have hslot : slot < 1020 := hidx.slot_lt hne
    rw [canRelocateBelow,relocateBelow]
    by_cases hz : nid = invalidNid
    · rw [if_pos hz,if_pos hz,addrHolder_lost (.inl (SlotTree.reach_hole_append (hhole hz) _))]
      exact ⟨rfl,rfl⟩
    · have hino := child_ne_inode ht hne (SlotTree.index_append indexPath_shape hidx) (hnode hz)
      rw [if_neg hz,if_neg hz]
      cases hb : s.node nid with
      | none =>
        have hlost : SlotTree.reach (s.cells ino) ino (pre ++ [slot]) = .lost := by
          simp [SlotTree.reach_concat,hnode hz,SlotTree.step,NodeStore.cells,hb]
        rw [hassoc,addrHolder_lost (.inr (SlotTree.reach_lost_append hlost _))]
        exact ⟨rfl,rfl⟩
      | some b =>
        have hc : s.cells ino nid = some (nodeCells false b) := by
          simp [NodeStore.cells,hb,hino]
        have hv : nodeCells false b slot = nodeSlot b slot := by simp [nodeCells,hslot]
        rw [hassoc] at hidx ⊢
        refine ih (pre ++ [slot]) (by simp) hidx (fun h0 => ?_) (fun h0 => ?_)
        · exact SlotTree.reach_hole (hnode hz) hc (hv.trans h0)
        · rw [← hv]
          exact SlotTree.reach_child (hnode hz) hc (by rwa [hv])

theorem inode_below (h : IndexTree s ino) {b : Block} (hb : s.node ino = some b) (newLpa : UInt32)
    (off : Nat) {k : Nat} {slots : List Nat} (hidx : IndexPath ((932 + k) :: slots)) :
    canRelocateBelow s slots (inodeNid b k) =
      (addrHolder s ino ((932 + k) :: slots)).map (fun _ => ()) ∧
    relocateBelow s newLpa slots (inodeNid b k) off =
      (addrHolder s ino ((932 + k) :: slots)).map (fun r => s.put r.1 (setNodeSlot r.2 off newLpa)) := by
  have hk : 932 + k < 937 := hidx.1.2
  have hc : s.cells ino ino = some (nodeCells true b) := by simp [NodeStore.cells,hb]
  have hv : nodeCells true b (932 + k) = inodeNid b k := by
    have hword : 332 + 4 * (932 + k) = 4060 + 4 * k := by omega
    simp only [nodeCells,if_true,if_pos hk,inodeNid,hword]
  refine below_holder h.tree newLpa off [932 + k] slots (by simp) hidx (fun h0 => ?_) (fun h0 => ?_)
  · exact SlotTree.reach_hole (p := []) rfl hc (hv.trans h0)
  · rw [← hv]
    exact SlotTree.reach_child (p := []) rfl hc (by rwa [hv])

theorem held_relocates (h : IndexTree s ino) {p : List Nat} {off : Nat} {v lpa : UInt32}
    {can : Except Errno Unit} {moved : Except Errno NodeStore} (hne : p ≠ [])
    (hp : SlotTree.Slot IndexPath p off) (hoff : off < 1020)
    (hmoved : can = (addrHolder s ino p).map (fun _ => ()) ∧
      moved = (addrHolder s ino p).map (fun r => s.put r.1 (setNodeSlot r.2 off v)))
    (hread : SlotTree.read (s.cells ino) ino p off = some lpa) (hlpa : lpa ≠ invalidLpa) :
    can = .ok () ∧ ∃ s', moved = .ok s' ∧ Stored ino p off v s s' := by
  unfold SlotTree.read at hread
  cases hr : SlotTree.reach (s.cells ino) ino p with
  | hole =>
    rw [hr] at hread
    exact absurd (Option.some.inj hread).symm hlpa
  | lost =>
    rw [hr] at hread
    cases hread
  | node n =>
    cases hb : s.node n with
    | none => simp [hr,SlotTree.value,NodeStore.cells,hb] at hread
    | some b =>
      have hholder : addrHolder s ino p = .ok (n,b) := by simp only [addrHolder,hr,hb]
      rw [hholder] at hmoved
      refine ⟨hmoved.1,_,hmoved.2,stored_of_write h hp hr hb (cells_put hb ?_)⟩
      rw [decide_eq_false (child_ne_inode h.tree hne hp.index hr)]
      exact nodeCells_setNodeSlot hoff v

theorem relocate_spec (h : IndexTree s ino) {b lpa : UInt32} (v : UInt32)
    (hb : slotAddr s ino b.toNat = .ok lpa) (hlpa : lpa ≠ invalidLpa) :
    rtfsDirInodeCanRelocateOneRegularBlock s ino b = .ok () ∧
    ∃ s', rtfsDirInodeRelocateOneRegularBlock s ino b v = .ok s' ∧ IndexTree s' ino ∧
      slotAddr s' ino b.toNat = .ok v ∧
      ∀ n, n ≠ b.toNat → slotAddr s' ino n = slotAddr s ino n := by
  obtain ⟨inode,hinode⟩ := h.inode
  have hheld {p : List Nat} {i : Nat} (hslot : blockSlot b.toNat = some (p,i)) :
      SlotTree.read (s.cells ino) ino p i = some lpa := by
    rw [slotAddr,hslot] at hb
    cases hread : SlotTree.read (s.cells ino) ino p i with
    | none =>
      simp only [hread,lookupResult] at hb
      cases hb
    | some x =>
      simp only [hread,lookupResult] at hb
      cases hb
      rfl
  have hfrom {p : List Nat} {i : Nat} (hslot : blockSlot b.toNat = some (p,i)) {s' : NodeStore}
      (hs : Stored ino p i v s s') : IndexTree s' ino ∧ slotAddr s' ino b.toNat = .ok v ∧
        ∀ n, n ≠ b.toNat → slotAddr s' ino n = slotAddr s ino n := ⟨hs.tree,hs.slotAddr hslot⟩
  unfold rtfsDirInodeCanRelocateOneRegularBlock rtfsDirInodeRelocateOneRegularBlock
  simp only [hinode]
  cases blockLevel b with
  | inode hlt hslot =>
    rw [if_pos hlt,if_pos hlt]
    exact ⟨rfl,_,rfl,hfrom hslot (inode_stored h hinode hlt v)⟩
  | direct hge hd hslot =>
    obtain ⟨hp,hoff⟩ := blockSlot_slot hslot
    rw [if_neg hge,if_neg hge,if_pos hd,if_pos hd]
    obtain ⟨hcan,s',hs,hst⟩ := held_relocates h (by simp) hp (by simpa using hoff)
      (inode_below h hinode v _ hp.index) (hheld hslot) hlpa
    exact ⟨hcan,s',hs,hfrom hslot hst⟩
  | indirect hge hd hi hslot =>
    obtain ⟨hp,hoff⟩ := blockSlot_slot hslot
    rw [if_neg hge,if_neg hge,if_neg hd,if_neg hd,if_pos hi,if_pos hi]
    obtain ⟨hcan,s',hs,hst⟩ := held_relocates h (by simp) hp (by simpa using hoff)
      (inode_below h hinode v _ hp.index) (hheld hslot) hlpa
    exact ⟨hcan,s',hs,hfrom hslot hst⟩
  | doubleIndirect hge hd hi hdi hslot =>
    obtain ⟨hp,hoff⟩ := blockSlot_slot hslot
    rw [if_neg hge,if_neg hge,if_neg hd,if_neg hd,if_neg hi,if_neg hi,if_pos hdi,if_pos hdi]
    obtain ⟨hcan,s',hs,hst⟩ := held_relocates h (by simp) hp (by simpa using hoff)
      (inode_below h hinode v _ hp.index) (hheld hslot) hlpa
    exact ⟨hcan,s',hs,hfrom hslot hst⟩
  | beyond hge hd hi hdi hslot =>
    rw [slotAddr,hslot] at hb
    cases hb

theorem dirResolve_slotAddr (h : IndexTree s ino) (hino : ino ≠ invalidNid) (b : UInt32) :
    rtfsDirResolveDataLpaByBlockIndex s ino b = slotAddr s ino b.toNat :=
  (dirResolve_eq s hino b).trans (fileResolve_eq h b)

end Relocate

structure RelocatesOnly (s : NodeStore) (ino b v : UInt32) : Prop where
  checked : rtfsDirInodeCanRelocateOneRegularBlock s ino b = .ok ()
  moved : ∃ s', rtfsDirInodeRelocateOneRegularBlock s ino b v = .ok s' ∧
    rtfsDirResolveDataLpaByBlockIndex s' ino b = .ok v ∧
    ∀ b', b' ≠ b → rtfsDirResolveDataLpaByBlockIndex s' ino b' =
      rtfsDirResolveDataLpaByBlockIndex s ino b'

theorem dir_map_agrees (d : RtfsDirInode) (hino : d.ino ≠ invalidNid)
    (htree : IndexTree d.store d.ino) (hempty : d.totalBlockCount = 0) (calls : List GrowCall) :
    (growRun d calls).1.totalBlockCount = (growRun d calls).2.length ∧
    (∀ (b lpa : UInt32), (growRun d calls).2[b.toNat]? = some lpa →
      rtfsDirResolveDataLpaByBlockIndex (growRun d calls).1.store d.ino b = .ok lpa ∧
      ∀ v, RelocatesOnly (growRun d calls).1.store d.ino b v) ∧
    ∀ (s : NodeStore) (ino b : UInt32), ino ≠ invalidNid →
      rtfsDirResolveDataLpaByBlockIndex s ino b = rtfsFileResolveDataLpaByBlockIndex s ino b := by
  have hstart : Mapped d [] :=
    ⟨htree,hempty,Nat.zero_le _,fun _ h => absurd h List.not_mem_nil,fun b lpa h => by simp at h⟩
  obtain ⟨hsame,hrun⟩ := hstart.run calls
  rw [List.nil_append] at hrun
  have ht := hrun.tree
  have haddrs := hrun.addrs
  rw [hsame] at ht haddrs
  refine ⟨hrun.count,fun b lpa hb => ⟨?_,fun v => ?_⟩,fun s ino b hne => dirResolve_eq s hne b⟩
  · rw [dirResolve_slotAddr ht hino]
    exact haddrs _ _ hb
  · obtain ⟨hcan,s',hs,ht',hnew,hothers⟩ := relocate_spec ht v (haddrs _ _ hb)
      (hrun.valid lpa (List.mem_of_getElem? hb))
    refine ⟨hcan,s',hs,?_,fun b' hne => ?_⟩
    · rw [dirResolve_slotAddr ht' hino,hnew]
    · rw [dirResolve_slotAddr ht' hino,dirResolve_slotAddr ht hino]
      exact hothers _ (fun he => hne (UInt32.toNat_inj.mp he))

section Empty

def emptyDir : RtfsDirInode := ⟨1,emptyFile,0⟩

def manyLpas : List UInt32 := (List.range 934).map (fun k => UInt32.ofNat (3072 + k))

def manyBlocks : List GrowCall := manyLpas.map (fun lpa => ⟨lpa,.ok (),.ok ()⟩)

-- the last two blocks lie behind i_addr, in an index node that the run attaches
theorem dir_map_agrees_empty : (growRun emptyDir manyBlocks).2 = manyLpas ∧
    (growRun emptyDir manyBlocks).1.store.freshNids = [3,4] ∧ blockSlot 933 = some ([932],1) ∧
    rtfsDirResolveDataLpaByBlockIndex (growRun emptyDir manyBlocks).1.store 1 933 = .ok 4005 ∧
    RelocatesOnly (growRun emptyDir manyBlocks).1.store 1 933 99 := by
  have hlpas : (growRun emptyDir manyBlocks).2 = manyLpas := by
    decide +kernel
  have hlast : manyLpas[933]? = some 4005 := by
    decide +kernel
  have hlaw := (dir_map_agrees emptyDir (by decide) emptyFile_tree rfl manyBlocks).2.1 933 4005
    (by rw [hlpas]; exact hlast)
  exact ⟨hlpas,by decide +kernel,by decide,hlaw.1,hlaw.2 99⟩

end Empty

end Rtfs
