import Rtfs.Journal.ReclaimHistory

namespace Rtfs

def defNidsPerInode : Nat := 5

def addrsPerBlock : Nat := 1020

def inodeNlink (node : Block) : UInt32 := u32At node 8

def inodeNid (node : Block) (i : Nat) : UInt32 := u32At node (4060 + 4 * i)

-- addr of a direct node, nid of an indirect one
def nodeSlot (node : Block) (i : Nat) : UInt32 := u32At node (4 * i)

-- i_nid holds two direct, two indirect and one double-indirect node
def nidDepth (i : Nat) : Nat := if i < 2 then 0 else if i < 4 then 1 else 2

instance (L : Layout) (nid : UInt32) : Decidable (NidInRange L nid) := Nat.decLt _ _

def natView (L : Layout) (f : Nat → Block) (nid : UInt32) : RtfsNatEntry :=
  if NidInRange L nid then natOf L f nid else ⟨invalidNid,invalidLpa⟩

def RtfsNatEntry.block (e : RtfsNatEntry) (f : Nat → Block) : Block := f e.blockAddr.toNat

structure LiveInode (nat : UInt32 → RtfsNatEntry) (f : Nat → Block) (ino : UInt32) : Prop where
  nonzero : ino ≠ invalidNid
  owned : (nat ino).ino = ino
  placed : (nat ino).blockAddr ≠ invalidLpa
  linked : inodeNlink ((nat ino).block f) ≠ 0

structure MapsAddr (f : Nat → Block) (e : RtfsNatEntry) (i : Nat) (x : UInt32) : Prop where
  index : i < defAddrsPerInode
  placed : e.blockAddr ≠ invalidLpa
  regular : ¬ nodeInline (e.block f)
  addr : inodeAddr (e.block f) i = x
  valid : x ≠ invalidLpa

structure PlacedNode (nat : UInt32 → RtfsNatEntry) (nid : UInt32) : Prop where
  nonzero : nid ≠ invalidNid
  allocated : (nat nid).ino ≠ invalidNid
  placed : (nat nid).blockAddr ≠ invalidLpa

inductive IndexNode (nat : UInt32 → RtfsNatEntry) (f : Nat → Block) (ino : UInt32) : Nat → UInt32 → Prop
  | root {i : Nat} {nid : UInt32} (hi : i < defNidsPerInode) (hr : ¬ nodeInline ((nat ino).block f))
      (hslot : inodeNid ((nat ino).block f) i = nid) (hnid : PlacedNode nat nid) :
      IndexNode nat f ino (nidDepth i) nid
  | child {k i : Nat} {parent nid : UInt32} (hp : IndexNode nat f ino (k + 1) parent)
      (hi : i < addrsPerBlock) (hslot : nodeSlot ((nat parent).block f) i = nid)
      (hnid : PlacedNode nat nid) : IndexNode nat f ino k nid

structure NodeMaps (nat : UInt32 → RtfsNatEntry) (f : Nat → Block) (x : UInt32) : Prop where
  valid : x ≠ invalidLpa
  mapped : ∃ ino nid i, LiveInode nat f ino ∧ IndexNode nat f ino 0 nid ∧ i < addrsPerBlock ∧
    nodeSlot ((nat nid).block f) i = x

inductive Referenced (nat : UInt32 → RtfsNatEntry) (f : Nat → Block) (x : UInt32) : Prop
  | inode {ino : UInt32} (h : LiveInode nat f ino) (hx : (nat ino).blockAddr = x)
  | inodeAddr {ino : UInt32} {i : Nat} (h : LiveInode nat f ino) (hx : MapsAddr f (nat ino) i x)
  | node {ino nid : UInt32} {k : Nat} (h : LiveInode nat f ino) (hn : IndexNode nat f ino k nid)
      (hx : (nat nid).blockAddr = x)
  | nodeAddr (h : NodeMaps nat f x)

section Tree
variable {nat : UInt32 → RtfsNatEntry} {f : Nat → Block} {ino nid : UInt32} {k : Nat}

theorem IndexNode.placedNode (h : IndexNode nat f ino k nid) : PlacedNode nat nid := by
  cases h with
  | root _ _ _ hnid => exact hnid
  | child _ _ _ hnid => exact hnid

theorem IndexNode.rooted (h : IndexNode nat f ino k nid) : ¬ nodeInline ((nat ino).block f) ∧
    ∃ i < defNidsPerInode, k ≤ nidDepth i ∧ inodeNid ((nat ino).block f) i ≠ invalidNid := by
  induction h with
  | @root i nid hi hr hslot hnid => exact ⟨hr,i,hi,le_rfl,hslot ▸ hnid.nonzero⟩
  | child _ _ _ _ ih =>
    obtain ⟨hr,i,hi,hk,hz⟩ := ih
    exact ⟨hr,i,hi,Nat.le_of_succ_le hk,hz⟩

theorem natView_eq {L : Layout} (h : NidInRange L nid) : natView L f nid = natOf L f nid := if_pos h

end Tree

end Rtfs
