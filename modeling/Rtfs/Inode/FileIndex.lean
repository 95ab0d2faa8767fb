import Rtfs.Inode.NodeStore

namespace Rtfs

def rtfsFileGetCachedNodeByNid (s : NodeStore) (nid : UInt32) : Except Errno Block :=
  match s.node nid with
  | none => .error .eio
  | some b => .ok b

def addrBelow (s : NodeStore) : List Nat → UInt32 → Nat → Except Errno UInt32
  | [], nid, off =>
    if nid = invalidNid then .ok invalidLpa
    else (rtfsFileGetCachedNodeByNid s nid).map (fun b => nodeSlot b off)
  | slot :: slots, nid, off =>
    if nid = invalidNid then .ok invalidLpa
    else (rtfsFileGetCachedNodeByNid s nid).bind (fun b => addrBelow s slots (nodeSlot b slot) off)

def rtfsFileResolveDataLpaByBlockIndex (s : NodeStore) (ino blockIndex : UInt32) : Except Errno UInt32 :=
  match s.node ino with
  | none => .error .einval
  | some inode =>
    if blockIndex < 932 then .ok (inodeAddr inode blockIndex.toNat)
    else
      let directBlockIndex := blockIndex - 932
      if directBlockIndex < 2 * 1020 then
        let directNodeSlot := directBlockIndex / 1020
        let directNodeOffset := directBlockIndex % 1020
        addrBelow s [] (inodeNid inode directNodeSlot.toNat) directNodeOffset.toNat
      else
        let indirectBlockIndex := directBlockIndex - 2 * 1020
        if indirectBlockIndex < 2 * 1020 * 1020 then
          let indirectNodeSlot := indirectBlockIndex / (1020 * 1020)
          let indirectNodeOffset := indirectBlockIndex % (1020 * 1020)
          let directNodeSlot := indirectNodeOffset / 1020
          let directNodeOffset := indirectNodeOffset % 1020
          addrBelow s [directNodeSlot.toNat] (inodeNid inode (2 + indirectNodeSlot).toNat)
            directNodeOffset.toNat
        else
          let doubleIndirectBlockIndex := indirectBlockIndex - 2 * 1020 * 1020
          if doubleIndirectBlockIndex < 1020 * 1020 * 1020 then
            let firstLevelSlot := doubleIndirectBlockIndex / (1020 * 1020)
            let doubleIndirectOffset := doubleIndirectBlockIndex % (1020 * 1020)
            let secondLevelSlot := doubleIndirectOffset / 1020
            let directNodeOffset := doubleIndirectOffset % 1020
            addrBelow s [firstLevelSlot.toNat,secondLevelSlot.toNat] (inodeNid inode 4)
              directNodeOffset.toNat
          else .error .enosys

def initCreated (direct : Bool) (node : Block) : Block :=
  if direct then rtfsFileInodeInitCreatedDirectNode node else rtfsFileInodeInitCreatedIndirectNode node

-- each slot comes with the offset that a node created for it gets in its footer
def setBelow (ino newLpa : UInt32) (createMissingNodes : Bool) :
    NodeStore → List (Nat × UInt32) → UInt32 → Nat → Except Errno UInt32 × NodeStore
  | s, [], holder, off =>
    match s.node holder with
    | none => (.error .eio,s)
    | some b => (.ok (nodeSlot b off),
        if nodeSlot b off ≠ newLpa then s.put holder (setNodeSlot b off newLpa) else s)
  | s, (slot,noffset) :: slots, holder, off =>
    match s.node holder with
    | none => (.error .eio,s)
    | some b =>
      if nidAt ino holder b slot ≠ invalidNid then
        setBelow ino newLpa createMissingNodes s slots (nidAt ino holder b slot) off
      else if newLpa = invalidLpa then (.ok invalidLpa,s)
      else if createMissingNodes = false then (.error .enoent,s)
      else
        match nodeBlockCacheHelperCreateNodeEntry s ino noffset with
        | none => (.error .enospc,s)
        | some (created,s') =>
          let node := initCreated slots.isEmpty created
          let nid := (NodeBlock.footer node).nid
          setBelow ino newLpa createMissingNodes
            ((s'.put nid node).put holder (setNidAt ino holder b slot nid)) slots nid off

def rtfsFileSetDataLpaByBlockIndex (s : NodeStore) (ino blockIndex newLpa : UInt32)
    (createMissingNodes : Bool) : Except Errno UInt32 × NodeStore :=
  match s.node ino with
  | none => (.error .einval,s)
  | some inode =>
    if blockIndex < 932 then
      let oldLpa := inodeAddr inode blockIndex.toNat
      (.ok oldLpa,if oldLpa ≠ newLpa then s.put ino (setInodeAddr inode blockIndex.toNat newLpa) else s)
    else
      let directBlockIndex := blockIndex - 932
      if directBlockIndex < 2 * 1020 then
        let directNodeSlot := directBlockIndex / 1020
        let directNodeOffset := directBlockIndex % 1020
        setBelow ino newLpa createMissingNodes s [(directNodeSlot.toNat,932 + directNodeSlot + 1)] ino
          directNodeOffset.toNat
      else
        let indirectBlockIndex := directBlockIndex - 2 * 1020
        if indirectBlockIndex < 2 * 1020 * 1020 then
          let indirectNodeSlot := indirectBlockIndex / (1020 * 1020)
          let indirectNodeOffset := indirectBlockIndex % (1020 * 1020)
          let directNodeSlot := indirectNodeOffset / 1020
          let directNodeOffset := indirectNodeOffset % 1020
          setBelow ino newLpa createMissingNodes s
            [((2 + indirectNodeSlot).toNat,932 + 3 + indirectNodeSlot),(directNodeSlot.toNat,0)] ino
            directNodeOffset.toNat
        else
          let doubleIndirectBlockIndex := indirectBlockIndex - 2 * 1020 * 1020
          if doubleIndirectBlockIndex < 1020 * 1020 * 1020 then
            let firstLevelSlot := doubleIndirectBlockIndex / (1020 * 1020)
            let doubleIndirectOffset := doubleIndirectBlockIndex % (1020 * 1020)
            let secondLevelSlot := doubleIndirectOffset / 1020
            let directNodeOffset := doubleIndirectOffset % 1020
            setBelow ino newLpa createMissingNodes s
              [(4,932 + 5),(firstLevelSlot.toNat,0),(secondLevelSlot.toNat,0)] ino
              directNodeOffset.toNat
          else (.error .enosys,s)

-- the path of index slots and the last slot of a block, in unbounded arithmetic
def blockSlot (blockIndex : Nat) : Option (List Nat × Nat) :=
  if blockIndex < 932 then some ([],blockIndex)
  else
    let direct := blockIndex - 932
    if direct < 2040 then some ([932 + direct / 1020],direct % 1020)
    else
      let indirect := direct - 2040
      if indirect < 2080800 then
        some ([932 + (2 + indirect / 1040400),indirect % 1040400 / 1020],indirect % 1040400 % 1020)
      else
        let doubleIndirect := indirect - 2080800
        if doubleIndirect < 1061208000 then
          some ([932 + 4,doubleIndirect / 1040400,doubleIndirect % 1040400 / 1020],
            doubleIndirect % 1040400 % 1020)
        else none

def fileBlockBound : Nat := 932 + 2 * 1020 + 2 * 1020 ^ 2 + 1020 ^ 3

section Slots

theorem blockSlot_isSome (b : Nat) : (blockSlot b).isSome ↔ b < fileBlockBound := by
  unfold blockSlot fileBlockBound
  simp only
  split_ifs <;> simp <;> omega

theorem fullPath_slot {k : Nat} {rest : List Nat} (hk : k < 5) (hlen : rest.length = nidDepth k)
    (hrest : ∀ j ∈ rest, j < 1020) (off : Nat) : SlotTree.Slot IndexPath ((932 + k) :: rest) off := by
  have hsub : 932 + k - defAddrsPerInode = k := Nat.add_sub_cancel_left 932 k
  refine ⟨⟨⟨Nat.le_add_right 932 k,Nat.add_lt_add_left hk 932⟩,?_,hrest⟩,fun h => ?_⟩
  · rw [hsub]
    exact hlen.le
  · have hdeep : (rest ++ [off]).length ≤ nidDepth (932 + k - defAddrsPerInode) := h.2.1
    rw [hsub,List.length_append,hlen,List.length_singleton] at hdeep
    omega

theorem blockSlot_slot {b : Nat} {p : List Nat} {i : Nat} (h : blockSlot b = some (p,i)) :
    SlotTree.Slot IndexPath p i ∧ i < if p = [] then 932 else 1020 := by
  unfold blockSlot at h
  simp only at h
  split_ifs at h with h1 h2 h3 h4
  all_goals
    rw [Option.some.injEq,Prod.mk.injEq] at h
    obtain ⟨rfl,rfl⟩ := h
  · refine ⟨⟨trivial,fun hp => ?_⟩,h1⟩
    have hlo : 932 ≤ b := hp.1.1
    omega
  · have hk : (b - 932) / 1020 < 2 := by omega
    have hoff : (b - 932) % 1020 < 1020 := Nat.mod_lt _ (by decide)
    refine ⟨fullPath_slot (hk.trans (by decide)) ?_ (by simp) _,by simpa using hoff⟩
    rw [nidDepth,if_pos hk]
    rfl
  · have hk : (b - 932 - 2040) / 1040400 < 2 := by omega
    have hoff : (b - 932 - 2040) % 1040400 % 1020 < 1020 := Nat.mod_lt _ (by decide)
    refine ⟨fullPath_slot (by omega) ?_ (fun j hj => ?_) _,by simpa using hoff⟩
    · rw [nidDepth,if_neg (by omega),if_pos (by omega)]
      rfl
    · rw [List.mem_singleton.mp hj]
      omega
  · have hoff : (b - 932 - 2040 - 2080800) % 1040400 % 1020 < 1020 := Nat.mod_lt _ (by decide)
    refine ⟨fullPath_slot (by decide) rfl (fun j hj => ?_) _,by simpa using hoff⟩
    simp only [List.mem_cons,List.not_mem_nil,or_false] at hj
    omega

theorem blockSlot_inj {b b' : Nat} {r : List Nat × Nat} (h : blockSlot b = some r)
    (h' : blockSlot b' = some r) : b = b' := by
  obtain ⟨p,i⟩ := r
  unfold blockSlot at h h'
  simp only at h h'
  split_ifs at h h'
  all_goals
    rw [Option.some.injEq,Prod.mk.injEq] at h h'
    obtain ⟨hp,hi⟩ := h
    obtain ⟨hp',hi'⟩ := h'
    rw [← hp'] at hp
    simp only [List.cons.injEq,List.cons_ne_nil,List.nil_eq,and_true,and_false] at hp
  all_goals omega

end Slots

-- the 32-bit steps of the code give the slots of the unbounded arithmetic
inductive BlockLevel (b : UInt32) : Prop
  | inode (hb : b < 932) (hslot : blockSlot b.toNat = some ([],b.toNat))
  | direct (hb : ¬ b < 932) (hd : b - 932 < 2 * 1020)
      (hslot : blockSlot b.toNat =
        some ([932 + ((b - 932) / 1020).toNat],((b - 932) % 1020).toNat))
  | indirect (hb : ¬ b < 932) (hd : ¬ b - 932 < 2 * 1020)
      (hi : b - 932 - 2 * 1020 < 2 * 1020 * 1020)
      (hslot : blockSlot b.toNat =
        some ([932 + (2 + (b - 932 - 2 * 1020) / (1020 * 1020)).toNat,
          ((b - 932 - 2 * 1020) % (1020 * 1020) / 1020).toNat],
          ((b - 932 - 2 * 1020) % (1020 * 1020) % 1020).toNat))
  | doubleIndirect (hb : ¬ b < 932) (hd : ¬ b - 932 < 2 * 1020)
      (hi : ¬ b - 932 - 2 * 1020 < 2 * 1020 * 1020)
      (hdi : b - 932 - 2 * 1020 - 2 * 1020 * 1020 < 1020 * 1020 * 1020)
      (hslot : blockSlot b.toNat =
        some ([932 + 4,((b - 932 - 2 * 1020 - 2 * 1020 * 1020) / (1020 * 1020)).toNat,
          ((b - 932 - 2 * 1020 - 2 * 1020 * 1020) % (1020 * 1020) / 1020).toNat],
          ((b - 932 - 2 * 1020 - 2 * 1020 * 1020) % (1020 * 1020) % 1020).toNat))
  | beyond (hb : ¬ b < 932) (hd : ¬ b - 932 < 2 * 1020)
      (hi : ¬ b - 932 - 2 * 1020 < 2 * 1020 * 1020)
      (hdi : ¬ b - 932 - 2 * 1020 - 2 * 1020 * 1020 < 1020 * 1020 * 1020)
      (hslot : blockSlot b.toNat = none)

theorem sub_const_toNat {a c : UInt32} {n : Nat} (hc : c.toNat = n) (h : ¬ a < c) :
    (a - c).toNat = a.toNat - n := by
  rw [UInt32.toNat_sub_of_le _ _ (UInt32.not_lt.mp h),hc]

theorem blockLevel (b : UInt32) : BlockLevel b := by
  have h1 : (2 * 1020 : UInt32).toNat = 2040 := by decide
  have h2 : (2 * 1020 * 1020 : UInt32).toNat = 2080800 := by decide
  have h3 : (1020 * 1020 * 1020 : UInt32).toNat = 1061208000 := by decide
  have h4 : (1020 * 1020 : UInt32).toNat = 1040400 := by decide
  have h5 : (1020 : UInt32).toNat = 1020 := by decide
  by_cases hb : b < 932
  · exact .inode hb (if_pos hb)
  · have hdn : (b - 932).toNat = b.toNat - 932 := sub_const_toNat (by decide) hb
    have hbn : ¬ b.toNat < 932 := hb
    by_cases hd : b - 932 < 2 * 1020
    · refine .direct hb hd ?_
      have hd' : b.toNat - 932 < 2040 := by
        rw [← hdn,← h1]
        exact hd
      simp only [blockSlot,if_neg hbn,if_pos hd',UInt32.toNat_div,UInt32.toNat_mod,hdn,h5]
    · have hin : (b - 932 - 2 * 1020).toNat = b.toNat - 932 - 2040 := by
        rw [sub_const_toNat h1 hd,hdn]
      have hd' : ¬ b.toNat - 932 < 2040 := by
        rw [← hdn,← h1]
        exact hd
      by_cases hi : b - 932 - 2 * 1020 < 2 * 1020 * 1020
      · refine .indirect hb hd hi ?_
        have hi' : b.toNat - 932 - 2040 < 2080800 := by
          rw [← hin,← h2]
          exact hi
        have hslot : (2 + (b - 932 - 2 * 1020) / (1020 * 1020) : UInt32).toNat =
            2 + (b.toNat - 932 - 2040) / 1040400 := by
          rw [UInt32.toNat_add,UInt32.toNat_div,hin,h4]
          change (2 + (b.toNat - 932 - 2040) / 1040400) % 4294967296 = _
          omega
        simp only [blockSlot,if_neg hbn,if_neg hd',if_pos hi',hslot,UInt32.toNat_div,
          UInt32.toNat_mod,hin,h4,h5]
      · have hgn : (b - 932 - 2 * 1020 - 2 * 1020 * 1020).toNat = b.toNat - 932 - 2040 - 2080800 := by
          rw [sub_const_toNat h2 hi,hin]
        have hi' : ¬ b.toNat - 932 - 2040 < 2080800 := by
          rw [← hin,← h2]
          exact hi
        by_cases hdi : b - 932 - 2 * 1020 - 2 * 1020 * 1020 < 1020 * 1020 * 1020
        · refine .doubleIndirect hb hd hi hdi ?_
          have hdi' : b.toNat - 932 - 2040 - 2080800 < 1061208000 := by
            rw [← hgn,← h3]
            exact hdi
          simp only [blockSlot,if_neg hbn,if_neg hd',if_neg hi',if_pos hdi',UInt32.toNat_div,
            UInt32.toNat_mod,hgn,h4,h5]
        · refine .beyond hb hd hi hdi ?_
          have hdi' : ¬ b.toNat - 932 - 2040 - 2080800 < 1061208000 := by
            rw [← hgn,← h3]
            exact hdi
          simp only [blockSlot,if_neg hbn,if_neg hd',if_neg hi',if_neg hdi']

def lookupResult : Option UInt32 → Except Errno UInt32
  | none => .error .eio
  | some v => .ok v

def slotAddr (s : NodeStore) (ino : UInt32) (blockIndex : Nat) : Except Errno UInt32 :=
  match blockSlot blockIndex with
  | none => .error .enosys
  | some (p,i) => lookupResult (SlotTree.read (s.cells ino) ino p i)

section Resolve
variable {s : NodeStore} {ino : UInt32}

theorem child_ne_inode {fresh : List UInt32} (ht : SlotTree.Tree IndexPath (s.cells ino) ino fresh)
    {pre : List Nat} {nid : UInt32} (hne : pre ≠ []) (hidx : IndexPath pre)
    (hn : SlotTree.reach (s.cells ino) ino pre = .node nid) : nid ≠ ino := by
  rintro rfl
  exact hne (ht.inj pre [] nid hidx trivial hn rfl)

theorem addrBelow_read {fresh : List UInt32} (ht : SlotTree.Tree IndexPath (s.cells ino) ino fresh)
    (pre slots : List Nat) {nid : UInt32} {off : Nat} (hne : pre ≠ [])
    (hidx : IndexPath (pre ++ slots)) (hoff : off < 1020)
    (hhole : nid = 0 → SlotTree.reach (s.cells ino) ino pre = .hole)
    (hnode : nid ≠ 0 → SlotTree.reach (s.cells ino) ino pre = .node nid) :
    addrBelow s slots nid off =
      lookupResult (SlotTree.read (s.cells ino) ino (pre ++ slots) off) := by
  induction slots generalizing pre nid with
  | nil =>
    rw [List.append_nil] at hidx ⊢
    rw [addrBelow,SlotTree.read]
    by_cases hz : nid = invalidNid
    · rw [if_pos hz,hhole hz]
      rfl
    · have hino := child_ne_inode ht hne hidx (hnode hz)
      rw [if_neg hz,hnode hz]
      simp only [rtfsFileGetCachedNodeByNid,SlotTree.value,NodeStore.cells]
      cases s.node nid with
      | none => rfl
      | some b => simp [nodeCells,hino,hoff,lookupResult,Except.map]
  | cons slot slots ih =>
    have hassoc : pre ++ slot :: slots = (pre ++ [slot]) ++ slots := by simp
    have hslot : slot < 1020 := hidx.slot_lt hne
    rw [addrBelow]
    by_cases hz : nid = invalidNid
    · rw [if_pos hz,SlotTree.read,SlotTree.reach_hole_append (hhole hz)]
      rfl
    · have hpre := SlotTree.index_append indexPath_shape hidx
      have hino := child_ne_inode ht hne hpre (hnode hz)
      rw [if_neg hz]
      cases hb : s.node nid with
      | none =>
        have hlost : SlotTree.reach (s.cells ino) ino (pre ++ [slot]) = .lost := by
          simp [SlotTree.reach_concat,hnode hz,SlotTree.step,NodeStore.cells,hb]
        rw [hassoc,SlotTree.read,SlotTree.reach_lost_append hlost]
        simp only [rtfsFileGetCachedNodeByNid,hb]
        rfl
      | some b =>
        have hc : s.cells ino nid = some (nodeCells false b) := by
          simp [NodeStore.cells,hb,hino]
        have hv : nodeCells false b slot = nodeSlot b slot := by simp [nodeCells,hslot]
        simp only [rtfsFileGetCachedNodeByNid,hb]
        rw [hassoc] at hidx ⊢
        refine ih (pre ++ [slot]) (by simp) hidx (fun h0 => ?_) (fun h0 => ?_)
        · exact SlotTree.reach_hole (hnode hz) hc (hv.trans h0)
        · rw [← hv]
          exact SlotTree.reach_child (hnode hz) hc (by rwa [hv])

theorem inode_read {b : Block} (hb : s.node ino = some b) {i : Nat} (hi : i < 932) :
    SlotTree.read (s.cells ino) ino [] i = some (inodeAddr b i) := by
  have hlt : i < 937 := hi.trans (by decide)
  simp [SlotTree.read,SlotTree.reach,SlotTree.value,NodeStore.cells,hb,nodeCells,inodeAddr,hlt]

theorem inode_addrBelow (h : IndexTree s ino) {b : Block} (hb : s.node ino = some b)
    {k : Nat} {slots : List Nat} {off : Nat} (hidx : IndexPath ((932 + k) :: slots))
    (hoff : off < 1020) : addrBelow s slots (inodeNid b k) off =
      lookupResult (SlotTree.read (s.cells ino) ino ((932 + k) :: slots) off) := by
  have hk : 932 + k < 937 := hidx.1.2
  have hc : s.cells ino ino = some (nodeCells true b) := by simp [NodeStore.cells,hb]
  have hv : nodeCells true b (932 + k) = inodeNid b k := by
    have hword : 332 + 4 * (932 + k) = 4060 + 4 * k := by omega
    simp only [nodeCells,if_true,if_pos hk,inodeNid,hword]
  refine addrBelow_read h.tree [932 + k] slots (by simp) hidx hoff (fun h0 => ?_) (fun h0 => ?_)
  · exact SlotTree.reach_hole (p := []) rfl hc (hv.trans h0)
  · rw [← hv]
    exact SlotTree.reach_child (p := []) rfl hc (by rwa [hv])

theorem fileResolve_eq (h : IndexTree s ino) (b : UInt32) :
    rtfsFileResolveDataLpaByBlockIndex s ino b = slotAddr s ino b.toNat := by
  obtain ⟨inode,hinode⟩ := h.inode
  unfold rtfsFileResolveDataLpaByBlockIndex slotAddr
  simp only [hinode]
  cases blockLevel b with
  | inode hb hslot =>
    rw [if_pos hb,hslot]
    exact (congrArg lookupResult (inode_read hinode hb)).symm
  | direct hb hd hslot =>
    obtain ⟨hp,hoff⟩ := blockSlot_slot hslot
    rw [if_neg hb,if_pos hd,hslot]
    exact inode_addrBelow h hinode hp.index (by simpa using hoff)
  | indirect hb hd hi hslot =>
    obtain ⟨hp,hoff⟩ := blockSlot_slot hslot
    rw [if_neg hb,if_neg hd,if_pos hi,hslot]
    exact inode_addrBelow h hinode hp.index (by simpa using hoff)
  | doubleIndirect hb hd hi hdi hslot =>
    obtain ⟨hp,hoff⟩ := blockSlot_slot hslot
    rw [if_neg hb,if_neg hd,if_neg hi,if_pos hdi,hslot]
    exact inode_addrBelow h hinode hp.index (by simpa using hoff)
  | beyond hb hd hi hdi hslot => rw [if_neg hb,if_neg hd,if_neg hi,if_neg hdi,hslot]

end Resolve

def putErrno : SlotTree.PutError → Errno
  | .lost => .eio
  | .missing => .enoent
  | .full => .enospc

structure SamePut (ino : UInt32) (r : Except Errno UInt32 × NodeStore)
    (t : Except SlotTree.PutError UInt32 × SlotTree.Heap UInt32 × List UInt32) : Prop where
  result : r.1 = t.1.mapError putErrno
  cells : r.2.cells ino = t.2.1
  fresh : r.2.freshNids = t.2.2

def cellPath (ino holder : UInt32) : List (Nat × UInt32) → List Nat
  | [] => []
  | (slot,_) :: slots => cellIdx ino holder slot :: slots.map Prod.fst

section Set
variable {s : NodeStore} {ino : UInt32}

theorem write_same {h : SlotTree.Heap UInt32} {n v : UInt32} {c : Nat → UInt32} {i : Nat}
    (hc : h n = some c) (hv : c i = v) : SlotTree.write h n i v = h := by
  funext n'
  by_cases hn : n' = n
  · subst hn
    rw [SlotTree.write_self,hc,← hv]
    simp
  · exact SlotTree.write_ne h i v hn

theorem cellPath_below {holder : UInt32} (hne : holder ≠ ino) (slots : List (Nat × UInt32)) :
    cellPath ino holder slots = slots.map Prod.fst := by
  cases slots with
  | nil => rfl
  | cons k slots => simp [cellPath,cellIdx,hne]

theorem cellIdx_lt {fresh : List UInt32} (ht : SlotTree.Tree IndexPath (s.cells ino) ino fresh)
    {pre rest : List Nat} {holder : UInt32} {k : Nat}
    (hn : SlotTree.reach (s.cells ino) ino pre = .node holder)
    (hidx : IndexPath (pre ++ cellIdx ino holder k :: rest)) :
    cellIdx ino holder k < if holder = ino then 937 else 1020 := by
  have hpre := SlotTree.index_append indexPath_shape hidx
  by_cases hino : holder = ino
  · have hnil : pre = [] := ht.inj pre [] holder hpre trivial hn (by rw [hino]; rfl)
    rw [hnil] at hidx
    rw [if_pos hino]
    exact hidx.1.2
  · have hne : pre ≠ [] := by
      rintro rfl
      exact hino (SlotTree.Found.node.inj hn).symm
    rw [if_neg hino]
    exact hidx.slot_lt hne

theorem footer_initCreated (direct : Bool) (b : Block) :
    NodeBlock.footer (initCreated direct b) = NodeBlock.footer b := by
  cases direct
  · exact (clearSlots_spec b le_rfl).1
  · exact (clearSlots_spec b le_rfl).1

theorem nodeCells_initCreated (direct : Bool) (b : Block) (k : Nat) :
    nodeCells false (initCreated direct b) k = 0 := by
  cases direct
  · exact nodeCells_clear b k
  · exact nodeCells_clear b k

theorem created_cells (fresh : List (UInt32 × Block)) (first : Block) {holder nid : UInt32}
    {b node : Block} {slot : Nat} (hb : s.node holder = some b) (hne : nid ≠ holder) (hino : nid ≠ ino)
    (hzero : ∀ k, nodeCells false node k = 0)
    (hslot : cellIdx ino holder slot < if holder = ino then 937 else 1020) :
    (((NodeStore.mk (Function.update s.node nid (some first)) fresh).put nid node).put holder
      (setNidAt ino holder b slot nid)).cells ino =
      SlotTree.link (s.cells ino) holder (cellIdx ino holder slot) nid := by
  rw [SlotTree.link,cells_put (b := b) ?_ (nodeCells_setNidAt hslot nid)]
  · congr 1
    funext n
    by_cases hn : n = nid
    · subst hn
      simp only [NodeStore.cells,NodeStore.put,Function.update_self,Option.map_some,
        decide_eq_false hino,Option.some.injEq]
      exact funext hzero
    · simp only [NodeStore.cells,NodeStore.put,Function.update_of_ne hn]
  · simp only [NodeStore.put,Function.update_of_ne hne.symm,hb]

theorem setBelow_put (newLpa : UInt32) (create : Bool)
    (ht : SlotTree.Tree IndexPath (s.cells ino) ino s.freshNids) (pre : List Nat)
    {slots : List (Nat × UInt32)} {holder : UInt32} {off : Nat}
    (hn : SlotTree.reach (s.cells ino) ino pre = .node holder)
    (hidx : IndexPath (pre ++ cellPath ino holder slots)) (hoff : off < 1020)
    (hend : slots = [] → holder ≠ ino) :
    SamePut ino (setBelow ino newLpa create s slots holder off)
      (SlotTree.put (s.cells ino) s.freshNids holder newLpa create (cellPath ino holder slots) off) := by
  induction slots generalizing s pre holder with
  | nil =>
    have hino := hend rfl
    rw [setBelow,cellPath,SlotTree.put]
    cases hb : s.node holder with
    | none =>
      have hc : s.cells ino holder = none := by simp [NodeStore.cells,hb]
      rw [hc]
      exact ⟨rfl,rfl,rfl⟩
    | some b =>
      have hc : s.cells ino holder = some (nodeCells false b) := by simp [NodeStore.cells,hb,hino]
      have hv : nodeCells false b off = nodeSlot b off := by simp [nodeCells,hoff]
      rw [hc]
      simp only [hv]
      by_cases hsame : nodeSlot b off = newLpa
      · rw [if_neg (not_not.mpr hsame)]
        exact ⟨rfl,(write_same hc (hv.trans hsame)).symm,rfl⟩
      · rw [if_pos hsame]
        refine ⟨rfl,cells_put hb ?_,rfl⟩
        rw [decide_eq_false hino]
        exact nodeCells_setNodeSlot hoff newLpa
  | cons entry slots ih =>
    obtain ⟨slot,noffset⟩ := entry
    have hassoc : pre ++ cellPath ino holder ((slot,noffset) :: slots) =
        (pre ++ [cellIdx ino holder slot]) ++ slots.map Prod.fst := by simp [cellPath]
    rw [hassoc] at hidx
    have hj := SlotTree.index_append indexPath_shape hidx
    have hlt := cellIdx_lt ht hn hj
    rw [setBelow,cellPath]
    cases hb : s.node holder with
    | none =>
      have hc : s.cells ino holder = none := by simp [NodeStore.cells,hb]
      simp only [SlotTree.put,hc]
      exact ⟨rfl,rfl,rfl⟩
    | some b =>
      have hc : s.cells ino holder = some (nodeCells (decide (holder = ino)) b) := by
        simp [NodeStore.cells,hb]
      have hv := nidAt_eq (b := b) hlt
      simp only [SlotTree.put,hc,← hv]
      by_cases hz : nidAt ino holder b slot = invalidNid
      · have hz' : nodeCells (decide (holder = ino)) b (cellIdx ino holder slot) = 0 := hv.symm.trans hz
        have hz0 : ¬ nidAt ino holder b slot ≠ 0 := not_not.mpr hz
        rw [if_neg (not_not.mpr hz),if_neg hz0]
        by_cases hlpa : newLpa = invalidLpa
        · have hlpa0 : newLpa = 0 := hlpa
          rw [if_pos hlpa,if_pos hlpa0]
          exact ⟨rfl,rfl,rfl⟩
        · have hlpa0 : ¬ newLpa = 0 := hlpa
          rw [if_neg hlpa,if_neg hlpa0]
          cases create with
          | false => exact ⟨rfl,rfl,rfl⟩
          | true =>
            rw [if_neg (by decide),if_neg (by decide)]
            cases hf : s.fresh with
            | nil =>
              simp only [nodeBlockCacheHelperCreateNodeEntry,NodeStore.freshNids,hf,List.map_nil]
              exact ⟨rfl,rfl,by simp [NodeStore.freshNids,hf]⟩
            | cons new fresh =>
              obtain ⟨nid,raw⟩ := new
              have hfn : s.freshNids = nid :: fresh.map Prod.fst := by simp [NodeStore.freshNids,hf]
              rw [hfn] at ht ⊢
              have hunused := ht.unused nid List.mem_cons_self
              have hnh : nid ≠ holder := by
                rintro rfl
                exact hunused pre (SlotTree.index_append indexPath_shape hj) hn
              have hni : nid ≠ ino := by
                rintro rfl
                exact hunused [] trivial rfl
              simp only [nodeBlockCacheHelperCreateNodeEntry,hf,footer_initCreated,footer_setFooter]
              have hcells := created_cells fresh (NodeBlock.setFooter raw ⟨nid,ino,noffset⟩) hb hnh hni
                (nodeCells_initCreated slots.isEmpty (NodeBlock.setFooter raw ⟨nid,ino,noffset⟩)) hlt
              rw [← hcells,← cellPath_below hni slots]
              refine ih ?_ (pre ++ [cellIdx ino holder slot]) ?_ ?_ (fun _ => hni)
              · rw [hcells]
                exact SlotTree.link_tree indexPath_shape ht hj hn hc hz'
              · rw [hcells,SlotTree.link_reach indexPath_shape ht hj hn hc hz' _ hj,if_pos rfl]
              · rw [cellPath_below hni]
                exact hidx
      · have hchild : SlotTree.reach (s.cells ino) ino (pre ++ [cellIdx ino holder slot]) =
            .node (nidAt ino holder b slot) := by
          rw [hv]
          exact SlotTree.reach_child hn hc (by rw [← hv]; exact hz)
        have hni := child_ne_inode ht (by simp) hj hchild
        have hz0 : nidAt ino holder b slot ≠ 0 := hz
        rw [if_pos hz,if_pos hz0,← cellPath_below hni slots]
        refine ih ht _ hchild ?_ (fun _ => hni)
        rw [cellPath_below hni]
        exact hidx

theorem inodeSet_put (newLpa : UInt32) (create : Bool) {inode : Block}
    (hb : s.node ino = some inode) {i : Nat} (hi : i < 932) :
    SamePut ino (.ok (inodeAddr inode i),
        if inodeAddr inode i ≠ newLpa then s.put ino (setInodeAddr inode i newLpa) else s)
      (SlotTree.put (s.cells ino) s.freshNids ino newLpa create [] i) := by
  have hlt : i < 937 := hi.trans (by decide)
  have hc : s.cells ino ino = some (nodeCells true inode) := by simp [NodeStore.cells,hb]
  have hv : nodeCells true inode i = inodeAddr inode i := by simp [nodeCells,inodeAddr,hlt]
  simp only [SlotTree.put,hc,hv]
  by_cases hsame : inodeAddr inode i = newLpa
  · rw [if_neg (not_not.mpr hsame)]
    exact ⟨rfl,(write_same hc (hv.trans hsame)).symm,rfl⟩
  · rw [if_pos hsame]
    refine ⟨rfl,cells_put hb ?_,rfl⟩
    rw [decide_eq_true rfl]
    exact nodeCells_setWord hlt newLpa

theorem pathSet_put (slots : List (Nat × UInt32)) (h : IndexTree s ino) (newLpa : UInt32)
    (create : Bool) {k off : Nat} {noffset : UInt32}
    (hidx : IndexPath ((932 + k) :: slots.map Prod.fst)) (hoff : off < 1020) :
    SamePut ino (setBelow ino newLpa create s ((k,noffset) :: slots) ino off)
      (SlotTree.put (s.cells ino) s.freshNids ino newLpa create ((932 + k) :: slots.map Prod.fst) off) := by
  have hpath : cellPath ino ino ((k,noffset) :: slots) = (932 + k) :: slots.map Prod.fst := by
    simp [cellPath,cellIdx,defAddrsPerInode]
  rw [← hpath]
  exact setBelow_put newLpa create h.tree [] rfl (by rw [hpath]; exact hidx) hoff (by simp)

theorem fileSet_put (h : IndexTree s ino) (b newLpa : UInt32) (create : Bool) :
    match blockSlot b.toNat with
    | none => rtfsFileSetDataLpaByBlockIndex s ino b newLpa create = (.error .enosys,s)
    | some (p,i) => SamePut ino (rtfsFileSetDataLpaByBlockIndex s ino b newLpa create)
        (SlotTree.put (s.cells ino) s.freshNids ino newLpa create p i) := by
  obtain ⟨inode,hinode⟩ := h.inode
  unfold rtfsFileSetDataLpaByBlockIndex
  simp only [hinode]
  cases blockLevel b with
  | inode hb hslot =>
    rw [if_pos hb,hslot]
    exact inodeSet_put newLpa create hinode hb
  | direct hb hd hslot =>
    obtain ⟨hp,hoff⟩ := blockSlot_slot hslot
    rw [if_neg hb,if_pos hd,hslot]
    exact pathSet_put [] h newLpa create hp.index (by simpa using hoff)
  | indirect hb hd hi hslot =>
    obtain ⟨hp,hoff⟩ := blockSlot_slot hslot
    rw [if_neg hb,if_neg hd,if_pos hi,hslot]
    exact pathSet_put [(_,0)] h newLpa create hp.index (by simpa using hoff)
  | doubleIndirect hb hd hi hdi hslot =>
    obtain ⟨hp,hoff⟩ := blockSlot_slot hslot
    rw [if_neg hb,if_neg hd,if_neg hi,if_pos hdi,hslot]
    exact pathSet_put [(_,0),(_,0)] h newLpa create hp.index (by simpa using hoff)
  | beyond hb hd hi hdi hslot => rw [if_neg hb,if_neg hd,if_neg hi,if_neg hdi,hslot]

end Set

def addrSlot (s : NodeStore) (ino blockIndex : UInt32) : Option (UInt32 × Nat) :=
  match blockSlot blockIndex.toNat with
  | none => none
  | some (p,i) =>
    match SlotTree.reach (s.cells ino) ino p with
    | .node nid => some (nid,i)
    | _ => none

structure SetResolves (ino blockIndex newLpa oldLpa : UInt32) (s s' : NodeStore) : Prop where
  tree : IndexTree s' ino
  old : rtfsFileResolveDataLpaByBlockIndex s ino blockIndex = .ok oldLpa
  new : rtfsFileResolveDataLpaByBlockIndex s' ino blockIndex = .ok newLpa
  others : ∀ b, b ≠ blockIndex →
    rtfsFileResolveDataLpaByBlockIndex s' ino b = rtfsFileResolveDataLpaByBlockIndex s ino b

section Law
variable {s : NodeStore} {ino : UInt32}

theorem SamePut.indexTree {r : Except Errno UInt32 × NodeStore} {p : List Nat} {i : Nat} {v : UInt32}
    {create : Bool} (hr : SamePut ino r (SlotTree.put (s.cells ino) s.freshNids ino v create p i))
    (h : IndexTree s ino) (hp : SlotTree.Slot IndexPath p i) : IndexTree r.2 ino := by
  obtain ⟨b,hb⟩ := h.inode
  refine ⟨?_,?_⟩
  · have hsome : (s.cells ino ino).isSome := by simp [NodeStore.cells,hb]
    have hsome' := SlotTree.put_isSome s.freshNids ino v create p i hsome
    rw [← hr.cells] at hsome'
    simp only [NodeStore.cells,Option.isSome_map] at hsome'
    exact Option.isSome_iff_exists.mp hsome'
  · rw [hr.cells,hr.fresh]
    exact (SlotTree.put_spec indexPath_shape h.tree [] v create hp rfl).tree

theorem set_resolves (h : IndexTree s ino) {b newLpa oldLpa : UInt32} {create : Bool} {s' : NodeStore}
    (hs : rtfsFileSetDataLpaByBlockIndex s ino b newLpa create = (.ok oldLpa,s')) :
    SetResolves ino b newLpa oldLpa s s' := by
  have hput := fileSet_put h b newLpa create
  cases hslot : blockSlot b.toNat with
  | none =>
    rw [hslot] at hput
    rw [hput] at hs
    cases hs
  | some r =>
    obtain ⟨p,i⟩ := r
    simp only [hslot,hs] at hput
    have hp := (blockSlot_slot hslot).1
    have ht := hput.indexTree h hp
    have hspec := SlotTree.put_spec indexPath_shape h.tree [] newLpa create hp rfl
    have hok : (SlotTree.put (s.cells ino) s.freshNids ino newLpa create p i).1 = .ok oldLpa := by
      have hres := hput.result
      cases ho : (SlotTree.put (s.cells ino) s.freshNids ino newLpa create p i).1 with
      | error e =>
        rw [ho] at hres
        cases hres
      | ok o =>
        rw [ho] at hres
        cases hres
        rfl
    obtain ⟨hold,hnew⟩ := hspec.old oldLpa hok
    refine ⟨ht,?_,?_,fun b' hne => ?_⟩
    · rw [fileResolve_eq h,slotAddr,hslot]
      exact congrArg lookupResult hold
    · rw [fileResolve_eq ht,slotAddr,hslot]
      simp only [hput.cells]
      exact congrArg lookupResult hnew
    · rw [fileResolve_eq ht,fileResolve_eq h,slotAddr,slotAddr]
      cases hslot' : blockSlot b'.toNat with
      | none => rfl
      | some r' =>
        obtain ⟨q,j⟩ := r'
        simp only [hput.cells]
        refine congrArg lookupResult (hspec.kept q j (blockSlot_slot hslot').1 ?_)
        rintro ⟨rfl,rfl⟩
        exact hne (UInt32.toNat_inj.mp (blockSlot_inj hslot' hslot))

theorem addrSlot_distinct (h : IndexTree s ino) {b b' : UInt32} {r : UInt32 × Nat}
    (hr : addrSlot s ino b = some r) (hr' : addrSlot s ino b' = some r) : b = b' := by
  unfold addrSlot at hr hr'
  cases hslot : blockSlot b.toNat with
  | none => simp [hslot] at hr
  | some t =>
    cases hslot' : blockSlot b'.toNat with
    | none => simp [hslot'] at hr'
    | some t' =>
      obtain ⟨p,i⟩ := t
      obtain ⟨q,j⟩ := t'
      simp only [hslot] at hr
      simp only [hslot'] at hr'
      cases hp : SlotTree.reach (s.cells ino) ino p with
      | hole => simp [hp] at hr
      | lost => simp [hp] at hr
      | node n =>
        cases hq : SlotTree.reach (s.cells ino) ino q with
        | hole => simp [hq] at hr'
        | lost => simp [hq] at hr'
        | node n' =>
          simp only [hp,Option.some.injEq] at hr
          simp only [hq,Option.some.injEq] at hr'
          rw [← hr,Prod.mk.injEq] at hr'
          obtain ⟨rfl,rfl⟩ := hr'
          have hpq := h.tree.inj p q n' (blockSlot_slot hslot).1.index (blockSlot_slot hslot').1.index hp hq
          subst hpq
          exact UInt32.toNat_inj.mp (blockSlot_inj hslot hslot')

theorem beyond_bound {b : UInt32} (hb : fileBlockBound ≤ b.toNat) : blockSlot b.toNat = none := by
  rw [← Option.not_isSome_iff_eq_none,blockSlot_isSome]
  omega

end Law

theorem file_index_set_resolve (s : NodeStore) (ino : UInt32) (h : IndexTree s ino) :
    (∀ b newLpa oldLpa create s', b.toNat < fileBlockBound →
      rtfsFileSetDataLpaByBlockIndex s ino b newLpa create = (.ok oldLpa,s') →
      SetResolves ino b newLpa oldLpa s s') ∧
    (∀ b b' r, addrSlot s ino b = some r → addrSlot s ino b' = some r → b = b') ∧
    (∀ b, BlockLevel b) ∧
    ∀ b, fileBlockBound ≤ b.toNat → rtfsFileResolveDataLpaByBlockIndex s ino b = .error .enosys ∧
      ∀ newLpa create, rtfsFileSetDataLpaByBlockIndex s ino b newLpa create = (.error .enosys,s) := by
  refine ⟨fun b newLpa oldLpa create s' _ hs => set_resolves h hs,fun b b' r => addrSlot_distinct h,
    blockLevel,fun b hb => ⟨?_,fun newLpa create => ?_⟩⟩
  · rw [fileResolve_eq h,slotAddr,beyond_bound hb]
  · have hput := fileSet_put h b newLpa create
    rw [beyond_bound hb] at hput
    exact hput

section Empty

def emptyFile : NodeStore :=
  ⟨Function.update (fun _ => none) 1 (some Buf.zero),[(2,Buf.zero),(3,Buf.zero),(4,Buf.zero)]⟩

theorem emptyFile_cells : emptyFile.cells 1 1 = some (nodeCells true Buf.zero) := rfl

theorem emptyFile_tree : IndexTree emptyFile 1 := by
  have hroot : emptyFile.node 1 = some Buf.zero := by simp [emptyFile]
  refine ⟨⟨Buf.zero,hroot⟩,SlotTree.tree_of_zero indexPath_shape emptyFile_cells (fun i _ => ?_)
    (by simp [emptyFile,NodeStore.freshNids]) (by simp [emptyFile,NodeStore.freshNids])⟩
  simp only [nodeCells,if_true]
  split
  · exact u32At_zero _
  · rfl

theorem emptyFile_put : (SlotTree.put (emptyFile.cells 1) [2,3,4] 1 77 true [934,0] 28).1 = .ok 0 := by
  have hroot : nodeCells true Buf.zero 934 = 0 := u32At_zero _
  have h2 := SlotTree.link_new (emptyFile.cells 1) 934 (show (2 : UInt32) ≠ 1 by decide)
  have h3 := SlotTree.link_new (SlotTree.link (emptyFile.cells 1) 1 934 2) 0
    (show (3 : UInt32) ≠ 2 by decide)
  simp only [SlotTree.put,emptyFile_cells,hroot,h2,h3]
  rfl

theorem file_index_set_resolve_empty : ∃ s',
    rtfsFileSetDataLpaByBlockIndex emptyFile 1 3000 77 true = (.ok 0,s') ∧
      SetResolves 1 3000 77 0 emptyFile s' := by
  have hput : SamePut 1 (rtfsFileSetDataLpaByBlockIndex emptyFile 1 3000 77 true)
      (SlotTree.put (emptyFile.cells 1) [2,3,4] 1 77 true [934,0] 28) :=
    fileSet_put emptyFile_tree 3000 77 true
  have hok := hput.result
  rw [emptyFile_put] at hok
  have hbound : (3000 : UInt32).toNat < fileBlockBound := by decide
  cases hs : rtfsFileSetDataLpaByBlockIndex emptyFile 1 3000 77 true with
  | mk r s' =>
    rw [hs] at hok
    have hr : r = .ok 0 := by simpa only [Except.mapError] using hok
    subst hr
    exact ⟨s',rfl,(file_index_set_resolve emptyFile 1 emptyFile_tree).1 3000 77 0 true s' hbound hs⟩

end Empty

end Rtfs
