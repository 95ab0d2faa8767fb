import Rtfs.Fs.IndexTree

namespace Rtfs

structure NodeFooter where
  nid : UInt32
  ino : UInt32
  offset : UInt32
  deriving DecidableEq

-- the node cache looks at nothing of a node but its footer
class NodeBlock (β : Type) where
  footer : β → NodeFooter
  setFooter : β → NodeFooter → β

def footerOff : Nat := 4080

instance : NodeBlock Block where
  footer b := ⟨u32At b footerOff,u32At b (footerOff + 4),u32At b (footerOff + 8)⟩
  setFooter b f := setU32 (setU32 (setU32 b (footerOff + 4) f.ino) footerOff f.nid) (footerOff + 8) f.offset

def setInodeAddr (node : Block) (i : Nat) (v : UInt32) : Block := setU32 node (332 + 4 * i) v

def setInodeNid (node : Block) (i : Nat) (v : UInt32) : Block := setU32 node (4060 + 4 * i) v

def setNodeSlot (node : Block) (i : Nat) (v : UInt32) : Block := setU32 node (4 * i) v

def rtfsFileInodeInitCreatedDirectNode (node : Block) : Block :=
  (List.range addrsPerBlock).foldl (fun b i => setNodeSlot b i invalidLpa) node

def nidsPerBlock : Nat := 1020

def rtfsFileInodeInitCreatedIndirectNode (node : Block) : Block :=
  (List.range nidsPerBlock).foldl (fun b i => setNodeSlot b i invalidNid) node

theorem nodeSlot_setNodeSlot (node : Block) {i k : Nat} (hi : i < addrsPerBlock) (v : UInt32) :
    nodeSlot (setNodeSlot node i v) k = if k = i then v else nodeSlot node k := by
  unfold addrsPerBlock at hi
  unfold nodeSlot setNodeSlot
  rw [u32At_setU32 node v (by omega) (Nat.dvd_mul_right 4 i) (Nat.dvd_mul_right 4 k)]
  simp

theorem footer_setFooter (node : Block) (f : NodeFooter) :
    NodeBlock.footer (NodeBlock.setFooter node f) = f := by
  simp only [NodeBlock.footer,NodeBlock.setFooter,footerOff]
  rw [u32At_setU32_ne _ _ _ _ (by omega),u32At_setU32_self _ _ _ (by omega),
    u32At_setU32_ne _ _ _ _ (by omega),u32At_setU32_ne _ _ _ _ (by omega),
    u32At_setU32_self _ _ _ (by omega),u32At_setU32_self _ _ _ (by omega)]

theorem footer_setNodeSlot (node : Block) {i : Nat} (hi : i < addrsPerBlock) (v : UInt32) :
    NodeBlock.footer (setNodeSlot node i v) = NodeBlock.footer node := by
  unfold addrsPerBlock at hi
  simp only [NodeBlock.footer,setNodeSlot,footerOff]
  rw [u32At_setU32_ne _ _ _ _ (by omega),u32At_setU32_ne _ _ _ _ (by omega),
    u32At_setU32_ne _ _ _ _ (by omega)]

theorem clearSlots_spec (node : Block) {n : Nat} (hn : n ≤ addrsPerBlock) :
    NodeBlock.footer ((List.range n).foldl (fun b i => setNodeSlot b i 0) node) =
      NodeBlock.footer node ∧
    ∀ k, nodeSlot ((List.range n).foldl (fun b i => setNodeSlot b i 0) node) k =
      if k < n then 0 else nodeSlot node k := by
  induction n with
  | zero => exact ⟨rfl,fun k => rfl⟩
  | succ n ih =>
    obtain ⟨hf,hs⟩ := ih (by omega)
    rw [List.range_succ,List.foldl_append]
    refine ⟨(footer_setNodeSlot _ (by omega) 0).trans hf,fun k => ?_⟩
    simp only [List.foldl_cons,List.foldl_nil]
    rw [nodeSlot_setNodeSlot _ (by omega),hs]
    by_cases hk : k = n
    · simp [hk]
    · have hiff : k < n + 1 ↔ k < n := by omega
      simp [hk,hiff]

end Rtfs
