import Mathlib.Data.UInt
import Rtfs.Inode.RtfsNode
import Rtfs.Lib.SlotTree

namespace Rtfs

-- node gives the last content of a nid, fresh the nids and buffers of the next created nodes
structure NodeStore where
  node : UInt32 → Option Block
  fresh : List (UInt32 × Block)

def NodeStore.put (s : NodeStore) (nid : UInt32) (b : Block) : NodeStore :=
  { s with node := Function.update s.node nid (some b) }

def nodeBlockCacheHelperCreateNodeEntry (s : NodeStore) (ino noffset : UInt32) :
    Option (Block × NodeStore) :=
  match s.fresh with
  | [] => none
  | (nid,raw) :: fresh =>
    let b := NodeBlock.setFooter raw ⟨nid,ino,noffset⟩
    some (b,⟨Function.update s.node nid (some b),fresh⟩)

-- the nids of an inode are in i_nid, those of an indirect node in its slots
def nidAt (ino holder : UInt32) (b : Block) (k : Nat) : UInt32 :=
  if holder = ino then inodeNid b k else nodeSlot b k

def setNidAt (ino holder : UInt32) (b : Block) (k : Nat) (nid : UInt32) : Block :=
  if holder = ino then setInodeNid b k nid else setNodeSlot b k nid

def nodeCells (isInode : Bool) (b : Block) (i : Nat) : UInt32 :=
  if isInode then (if i < 937 then u32At b (332 + 4 * i) else 0)
  else if i < 1020 then nodeSlot b i else 0

def cellIdx (ino holder : UInt32) (k : Nat) : Nat := if holder = ino then defAddrsPerInode + k else k

namespace NodeStore

def cells (s : NodeStore) (ino : UInt32) : SlotTree.Heap UInt32 :=
  fun n => (s.node n).map (nodeCells (decide (n = ino)))

def freshNids (s : NodeStore) : List UInt32 := s.fresh.map Prod.fst

end NodeStore

def IndexPath : List Nat → Prop
  | [] => True
  | i :: rest => (defAddrsPerInode ≤ i ∧ i < defAddrsPerInode + defNidsPerInode) ∧
      rest.length ≤ nidDepth (i - defAddrsPerInode) ∧ ∀ k ∈ rest, k < addrsPerBlock

structure IndexTree (s : NodeStore) (ino : UInt32) : Prop where
  inode : ∃ b, s.node ino = some b
  tree : SlotTree.Tree IndexPath (s.cells ino) ino s.freshNids

theorem indexPath_shape : SlotTree.Shape IndexPath := by
  refine ⟨fun p i h => ?_⟩
  cases p with
  | nil => trivial
  | cons k rest =>
    obtain ⟨hk,hlen,hall⟩ := h
    have hlen' : rest.length + 1 ≤ nidDepth (k - defAddrsPerInode) := by
      simpa using hlen
    exact ⟨hk,Nat.le_of_succ_le hlen',fun j hj => hall j (List.mem_append_left _ hj)⟩

theorem IndexPath.slot_lt {pre rest : List Nat} {k : Nat} (h : IndexPath (pre ++ k :: rest))
    (hne : pre ≠ []) : k < addrsPerBlock := by
  cases pre with
  | nil => exact absurd rfl hne
  | cons i pre => exact h.2.2 k (List.mem_append_right _ List.mem_cons_self)

section Cells
variable {s : NodeStore} {ino n : UInt32} {b : Block}

theorem cells_put {b' : Block} {i : Nat} {v : UInt32} (hb : s.node n = some b)
    (hcell : ∀ k, nodeCells (decide (n = ino)) b' k =
      if k = i then v else nodeCells (decide (n = ino)) b k) :
    (s.put n b').cells ino = SlotTree.write (s.cells ino) n i v := by
  funext n'
  by_cases hn : n' = n
  · subst hn
    rw [SlotTree.write_self]
    simp only [NodeStore.cells,NodeStore.put,Function.update_self,hb,Option.map_some,Option.some.injEq]
    funext k
    rw [hcell,Function.update_apply]
  · rw [SlotTree.write_ne _ _ _ hn]
    simp only [NodeStore.cells,NodeStore.put,Function.update_of_ne hn]

theorem nodeCells_setNodeSlot {i : Nat} (hi : i < 1020) (v : UInt32) (k : Nat) :
    nodeCells false (setNodeSlot b i v) k = if k = i then v else nodeCells false b k := by
  simp only [nodeCells,Bool.false_eq_true,if_false]
  rw [nodeSlot_setNodeSlot b hi]
  by_cases hk : k = i
  · simp [hk,hi]
  · simp [hk]

theorem nodeCells_setWord {i : Nat} (hi : i < 937) (v : UInt32) (k : Nat) :
    nodeCells true (setU32 b (332 + 4 * i) v) k = if k = i then v else nodeCells true b k := by
  simp only [nodeCells,if_true]
  rw [u32At_setU32 b v (by omega) (by omega) (by omega)]
  by_cases hk : k = i
  · simp [hk,hi]
  · simp [hk]

theorem nidAt_eq {k : Nat} (hk : cellIdx ino n k < if n = ino then 937 else 1020) :
    nidAt ino n b k = nodeCells (decide (n = ino)) b (cellIdx ino n k) := by
  unfold nidAt nodeCells cellIdx at *
  by_cases hn : n = ino
  · have hoff : 4060 + 4 * k = 332 + 4 * (932 + k) := by omega
    simp only [hn,if_true,decide_true,defAddrsPerInode] at hk ⊢
    rw [if_pos hk,inodeNid,hoff]
  · simp only [if_neg hn,decide_eq_false hn,Bool.false_eq_true,if_false] at hk ⊢
    rw [if_pos hk]

theorem nodeCells_setNidAt {k : Nat} (hk : cellIdx ino n k < if n = ino then 937 else 1020)
    (v : UInt32) (j : Nat) : nodeCells (decide (n = ino)) (setNidAt ino n b k v) j =
      if j = cellIdx ino n k then v else nodeCells (decide (n = ino)) b j := by
  unfold setNidAt cellIdx at *
  by_cases hn : n = ino
  · have hoff : 4060 + 4 * k = 332 + 4 * (932 + k) := by omega
    simp only [hn,if_true,decide_true,defAddrsPerInode] at hk ⊢
    rw [setInodeNid,hoff]
    exact nodeCells_setWord hk v j
  · simp only [if_neg hn,decide_eq_false hn] at hk ⊢
    exact nodeCells_setNodeSlot hk v j

theorem nodeCells_clear (b : Block) (k : Nat) :
    nodeCells false (rtfsFileInodeInitCreatedDirectNode b) k = 0 := by
  simp only [nodeCells,Bool.false_eq_true,if_false]
  split
  · rename_i hk
    exact ((clearSlots_spec b le_rfl).2 k).trans (if_pos hk)
  · rfl

end Cells

end Rtfs
