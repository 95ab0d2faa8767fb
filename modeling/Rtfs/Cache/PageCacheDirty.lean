import Rtfs.Cache.PageCacheRefs

namespace Rtfs

namespace PageCacheRun

open Kbtree (without mem_without without_cut Strict)

namespace PageCache

variable {β : Type} {c c' : PageCache β} {abi : Abi} {ext : Nat → Nat} {nodes : List DirtyPagesNode} {p : Nat}
  {e : PageEntry β} {node : DirtyPagesNode}

def dirtyNodes (c : PageCache β) : List DirtyPagesNode := c.dirtyPages.inorder

structure Inv (abi : Abi) (c : PageCache β) (ext : Nat → Nat) : Prop where
  counted : c.Counted abi.wrap ext c.dirtyNodes
  tree : c.dirtyPages.Valid DirtyPagesNode.rank abi.degree

theorem rank_inj {n n' : DirtyPagesNode} : n.rank = n'.rank ↔ n.blkoff = n'.blkoff := UInt32.toNat_inj

section Marks

theorem Counted.tree (h : c.Counted abi.wrap ext nodes) (t : Kbtree.Tree DirtyPagesNode) :
    ({ c with dirtyPages := t } : PageCache β).Counted abi.wrap ext nodes :=
  have hsub {q : Nat} {x : PageEntry β} (hx : ({ c with dirtyPages := t } : PageCache β).Cached q x) : c.Cached q x :=
    ⟨hx.entry,hx.lookup⟩
  ⟨h.indexed,fun q x hx => h.counted q x (hsub hx),fun q x hx => h.narrow q x (hsub hx),
    fun q x hx => h.pinned q x (hsub hx),fun q hq => (h.held q hq).imp (fun _ hx => ⟨hx.entry,hx.lookup⟩),
    fun q x hx hd => ⟨⟨hx,(h.dirty q x hx hd).1.lookup⟩,(h.dirty q x hx hd).2⟩,h.nodes,h.size⟩

theorem Counted.modify (h : c.Counted abi.wrap ext nodes) (hc : c.Cached p e) (f : PageEntry β → PageEntry β)
    (hb : (f e).blkoff = e.blkoff) (hr : (f e).refCount = e.refCount) (hd : (f e).isDirty = e.isDirty)
    (hready : (f e).isDirty = true → (f e).contentState = .pageReady) :
    (c.modify p f).Counted abi.wrap ext nodes := by
  refine h.changeAt hc (f e) (alike_modify c p f) (entry_modify hc.entry f) hb (fun _ _ => rfl) ?_ ?_ ?_ ?_ hready
  · rw [hr,hd]
    exact h.counted p e hc
  · rw [hr]
    exact h.narrow p e hc
  · rw [hr]
    exact h.pinned_kept hc
  · rw [hd]
    exact h.nodes_kept hc.entry

theorem unmark_spec (h : c.Counted abi.wrap ext nodes) (hn : node ∈ nodes) (t : Kbtree.Tree DirtyPagesNode)
    (f : PageEntry β → PageEntry β)
    (hf : ∀ e, (f e).isDirty = false ∧ (f e).blkoff = e.blkoff ∧ (f e).refCount = e.refCount) :
    ∃ e c', c.entry node.entry = some e ∧ e.isDirty = true ∧ e.blkoff = node.blkoff ∧
      pageCacheSubRefCount abi { c.modify node.entry f with dirtyPages := t } node.entry = .ok c' ∧
      c'.Counted abi.wrap ext (without DirtyPagesNode.rank node.rank nodes) ∧ c'.dirtyPages = t ∧ c.Alike c' ∧
      ∀ q, c'.entry q = if q = node.entry then some { f e with refCount := e.refCount - 1 } else c.entry q := by
  obtain ⟨e,he,hd,hb⟩ := (h.nodes node).mp hn
  obtain ⟨hc,-⟩ := h.dirty _ e he hd
  obtain ⟨hfd,hfb,hfr⟩ := hf e
  have hent := entry_modify he f
  have hmore : more ext node.entry node.entry = ext node.entry + 1 := Function.update_self ..
  have hcount := h.counted _ e hc
  rw [hd,if_pos rfl] at hcount
  have hmid : (c.modify node.entry f).Counted abi.wrap (more ext node.entry)
      (without DirtyPagesNode.rank node.rank nodes) := by
    refine h.changeAt hc (f e) (alike_modify c _ f) hent hfb (fun q hq => Function.update_of_ne hq ..) ?_ ?_ ?_
      (fun n => ?_) (fun hdirty => ?_)
    · rw [hfr,hfd,hmore,hcount]
      rfl
    · rw [hfr]
      exact h.narrow _ e hc
    · rw [hfr]
      exact h.pinned_kept hc
    · rw [mem_without,Ne,rank_inj]
      by_cases hp : n.entry = node.entry
      · rw [if_pos hp,hfd]
        refine iff_of_false (fun hin => ?_) (fun hand => nomatch hand.1)
        exact hin.2 (((h.node_iff he n hp).mp hin.1).2.symm.trans hb)
      · rw [if_neg hp]
        exact ⟨fun hin => hin.1,fun hin => ⟨hin,fun heq => hp (h.node_unique hc hin (heq.trans hb.symm)).1⟩⟩
    · rw [hfd] at hdirty
      cases hdirty
  obtain ⟨x,c',hx,hsub,hc',hs,-,hent'⟩ := subRef_spec (hmid.tree t)
  obtain rfl : x = f e := Option.some.inj (hx.entry.symm.trans ((hent node.entry).trans (if_pos rfl)))
  refine ⟨e,c',he,hd,hb,hsub,hc',hs.tree,⟨hs.alike.lookup,hs.alike.keys,hs.alike.size⟩,
    fun q => ?_⟩
  rw [hent' q]
  by_cases hq : q = node.entry
  · rw [if_pos hq,if_pos hq,hfr]
  · rw [if_neg hq,if_neg hq]
    exact (hent q).trans (if_neg hq)

theorem makeDirty_spec (h : c.Inv abi ext) (hp : ext p ≠ 0)
    (hready : ∀ e, c.entry p = some e → e.contentState = .pageReady)
    (hroom : ∀ e, c.Cached p e → e.refCount + 1 < abi.wrap) :
    ∃ c', pageEntryHandleMakeDirty abi c p = .ok c' ∧ c'.Inv abi ext ∧
      ∃ e e', c.Cached p e ∧ c'.Cached p e' ∧ e'.isDirty = true ∧ e'.blkoff = e.blkoff := by
  obtain ⟨e,hc⟩ := h.counted.held p hp
  have hcount := h.counted.counted p e hc
  unfold pageEntryHandleMakeDirty
  rw [find_ok hc.entry]
  change ∃ c', (if e.isDirty = true then _ else _) = _ ∧ _
  by_cases hd : e.isDirty = true
  · rw [if_pos hd]
    exact ⟨c,rfl,h,e,e,hc,hc,hd,rfl⟩
  · have hclean : e.isDirty = false := by simpa using hd
    rw [hclean,if_neg Bool.false_ne_true] at hcount
    have hne : e.refCount ≠ 0 := by omega
    have hmod : (e.refCount + 1) % abi.wrap = e.refCount + 1 := Nat.mod_eq_of_lt (hroom e hc)
    have hdirty := entry_modify hc.entry (fun e => { e with isDirty := true })
    have hself := (hdirty p).trans (if_pos rfl)
    have hent := entry_modify hself (fun e => { e with refCount := (e.refCount + 1) % abi.wrap })
    simp only [hmod] at hent
    -- no node has the block of a clean page
    have hnew : ∀ n ∈ c.dirtyPages.inorder, n.rank ≠ (⟨e.blkoff,p⟩ : DirtyPagesNode).rank := by
      intro n hn heq
      obtain ⟨-,hnd⟩ := h.counted.node_unique hc hn (rank_inj.mp heq)
      exact hd hnd
    obtain ⟨hvalid,l,r,hl,hr⟩ := h.tree.put abi.two_le hnew
    have hadd : pageCacheAddRefCount abi (c.modify p (fun e => { e with isDirty := true })) p =
        .ok ((c.modify p (fun e => { e with isDirty := true })).modify p
          (fun e => { e with refCount := (e.refCount + 1) % abi.wrap })) := by
      unfold pageCacheAddRefCount
      rw [find_ok hself]
      exact if_neg hne
    have hadd' : pageCacheAddToDirtyPages abi (c.modify p (fun e => { e with isDirty := true })) p = .ok
        { (c.modify p (fun e => { e with isDirty := true })).modify p
          (fun e => { e with refCount := (e.refCount + 1) % abi.wrap }) with
          dirtyPages := Kbtree.kbPutp DirtyPagesNode.rank abi.degree c.dirtyPages ⟨e.blkoff,p⟩ } := by
      unfold pageCacheAddToDirtyPages
      rw [find_ok hself]
      change (if e.refCount = 0 then _ else _) = _
      rw [if_neg hne,hadd]
      rfl
    have hcounted : ((c.modify p (fun e => { e with isDirty := true })).modify p
        (fun e => { e with refCount := (e.refCount + 1) % abi.wrap })).Counted abi.wrap ext
        (Kbtree.kbPutp DirtyPagesNode.rank abi.degree c.dirtyPages ⟨e.blkoff,p⟩).inorder := by
      refine h.counted.changeAt hc { e with isDirty := true, refCount := e.refCount + 1 }
        ((alike_modify c p _).trans (alike_modify _ p _)) (fun q => ?_) rfl (fun _ _ => rfl) ?_ (hroom e hc)
        (fun k => ?_) (fun n => ?_) (fun _ => hready e hc.entry)
      · rw [hent q]
        by_cases hq : q = p
        · rw [if_pos hq,if_pos hq]
        · rw [if_neg hq,if_neg hq,hdirty q,if_neg hq]
      · rw [if_pos rfl]
        dsimp only
        omega
      · by_cases hk : k = e.blkoff
        · subst hk
          rw [if_pos rfl]
          exact iff_of_true ((h.counted.pinned p e hc).mpr hne) (Nat.succ_ne_zero _)
        · rw [if_neg hk]
          rfl
      · have hmem : n ∈ (Kbtree.kbPutp DirtyPagesNode.rank abi.degree c.dirtyPages ⟨e.blkoff,p⟩).inorder ↔
            n = ⟨e.blkoff,p⟩ ∨ n ∈ c.dirtyNodes := by
          unfold dirtyNodes
          rw [hr,hl]
          simp only [List.mem_append,List.mem_cons]
          tauto
        rw [hmem]
        by_cases hn : n.entry = p
        · rw [if_pos hn,h.counted.node_iff hc.entry n hn,hclean]
          constructor
          · rintro (rfl | ⟨hf,-⟩)
            · exact ⟨rfl,rfl⟩
            · cases hf
          · rintro ⟨-,hb⟩
            obtain ⟨nb,np⟩ := n
            exact .inl (by rw [show nb = e.blkoff from hb,show np = p from hn])
        · rw [if_neg hn]
          exact or_iff_right (fun heq => hn (heq ▸ rfl))
    refine ⟨_,(if_neg hd).trans hadd',⟨hcounted.tree _,hvalid⟩,e,
      { e with isDirty := true, refCount := e.refCount + 1 },hc,⟨?_,hc.lookup⟩,rfl,rfl⟩
    exact (hent p).trans (if_pos rfl)

end Marks

section Tail

def dropped (e : PageEntry β) : PageEntry β :=
  { e with isDirty := false, contentState := .pageInvalid, refCount := e.refCount - 1 }

def tailed (k : Nat) (e : PageEntry β) : PageEntry β :=
  if e.isDirty = true ∧ k ≤ e.blkoff.toNat then dropped e else e

def below (k : Nat) (nodes : List DirtyPagesNode) : List DirtyPagesNode := nodes.filter (fun n => decide (n.rank < k))

def firstFrom (k : Nat) (nodes : List DirtyPagesNode) : Option DirtyPagesNode :=
  nodes.find? (fun n => decide (k ≤ n.rank))

variable {k : Nat}

theorem tailed_dropped (e : PageEntry β) : tailed k (dropped e) = dropped e := if_neg (fun h => nomatch h.1)

theorem firstFrom_none (h : firstFrom k nodes = none) : ∀ n ∈ nodes, n.rank < k := by
  intro n hn
  have hno := List.find?_eq_none.mp h n hn
  simpa using hno

theorem firstFrom_some (h : firstFrom k nodes = some node) :
    k ≤ node.rank ∧ ∃ l r, nodes = l ++ node :: r ∧ ∀ n ∈ l, n.rank < k := by
  obtain ⟨hk,l,r,hcut,hl⟩ := List.find?_eq_some_iff_append.mp h
  exact ⟨of_decide_eq_true hk,l,r,hcut,fun n hn => by simpa using hl n hn⟩

theorem firstFrom_append {l r : List DirtyPagesNode} (hl : ∀ n ∈ l, n.rank < k) :
    firstFrom k (l ++ r) = firstFrom k r := by
  unfold firstFrom
  rw [List.find?_append,Kbtree.find_none hl,Option.none_or]

theorem firstFrom_head {r : List DirtyPagesNode} (hr : ∀ n ∈ r, k ≤ n.rank) : firstFrom k r = r.head? := by
  cases r with
  | nil => rfl
  | cons n r => exact Kbtree.find_cons (hr n List.mem_cons_self)

theorem below_all (h : ∀ n ∈ nodes, n.rank < k) : below k nodes = nodes :=
  List.filter_eq_self.mpr (fun n hn => decide_eq_true (h n hn))

theorem below_cut {l r : List DirtyPagesNode} (h : k ≤ node.rank) : below k (l ++ node :: r) = below k (l ++ r) := by
  unfold below
  rw [List.filter_append,List.filter_append,List.filter_cons_of_neg (by simpa using h)]

theorem mem_below : node ∈ below k nodes ↔ node ∈ nodes ∧ node.rank < k := by
  unfold below
  rw [List.mem_filter,decide_eq_true_eq]

theorem Inv.upper (h : c.Inv abi ext) (blkoff : UInt32) : upperNode c blkoff = firstFrom blkoff.toNat c.dirtyNodes :=
  h.tree.upper abi.two_le blkoff.toNat

theorem truncateNode_spec (h : c.Inv abi ext) (hn : node ∈ c.dirtyNodes) :
    ∃ e c', c.entry node.entry = some e ∧ e.isDirty = true ∧ e.blkoff = node.blkoff ∧
      truncateNode abi c node = .ok c' ∧ c'.Inv abi ext ∧
      c'.dirtyNodes = without DirtyPagesNode.rank node.rank c.dirtyNodes ∧ c.Alike c' ∧
      ∀ q, c'.entry q = if q = node.entry then some (dropped e) else c.entry q := by
  obtain ⟨t,hdel,hvalid,hin⟩ := h.tree.del abi.two_le hn (k := node) rfl
  obtain ⟨e,c',he,hd,hb,hsub,hc',ht,ha,hent⟩ := unmark_spec h.counted hn t
    (fun e => { e with isDirty := false, contentState := .pageInvalid }) (fun _ => ⟨rfl,rfl,rfl⟩)
  have hnodes : c'.dirtyNodes = without DirtyPagesNode.rank node.rank c.dirtyNodes := by
    unfold dirtyNodes
    rw [ht]
    exact hin
  refine ⟨e,c',he,hd,hb,?_,⟨hnodes ▸ hc',ht ▸ hvalid⟩,hnodes,ha,hent⟩
  unfold truncateNode
  rw [hdel]
  exact hsub

theorem truncateLoop_spec (n : Nat) (k : Nat) (up : Option DirtyPagesNode) (h : c.Inv abi ext)
    (hup : up = firstFrom k c.dirtyNodes) (hn : c.dirtyNodes.length < n) :
    ∃ c', truncateLoop abi n c up = .ok c' ∧ c'.Inv abi ext ∧ c'.dirtyNodes = below k c.dirtyNodes ∧ c.Alike c' ∧
      ∀ q, c'.entry q = (c.entry q).map (tailed k) := by
  induction n generalizing c up with
  | zero => exact absurd hn (Nat.not_lt_zero _)
  | succ n ih =>
    cases up with
    | none =>
      have hall := firstFrom_none hup.symm
      refine ⟨c,rfl,h,(below_all hall).symm,⟨fun _ => rfl,.refl _,rfl⟩,fun q => ?_⟩
      cases he : c.entry q with
      | none => rfl
      | some e =>
        refine congrArg some (if_neg ?_).symm
        rintro ⟨hd,hk⟩
        have hnode : (⟨e.blkoff,q⟩ : DirtyPagesNode) ∈ c.dirtyNodes := (h.counted.nodes _).mpr ⟨e,he,hd,rfl⟩
        exact absurd (hall _ hnode) (Nat.not_lt.mpr hk)
    | some node =>
      obtain ⟨hk,l,r,hcut,hl⟩ := firstFrom_some hup.symm
      have hmem : node ∈ c.dirtyNodes := by
        rw [hcut]
        exact List.mem_append_right _ List.mem_cons_self
      obtain ⟨e,c₁,he,hd,hb,hstep,h₁,hnodes,ha,hent⟩ := truncateNode_spec h hmem
      have hstrict : Strict DirtyPagesNode.rank (l ++ node :: r) := hcut ▸ h.tree.strict
      obtain ⟨-,hbefore,hafter⟩ := Kbtree.strict_cut.mp hstrict
      have hrest : c₁.dirtyNodes = l ++ r := by
        rw [hnodes,hcut]
        exact without_cut hstrict
      have hup₁ : upperNode c₁ node.blkoff = firstFrom k c₁.dirtyNodes := by
        rw [h₁.upper,hrest,firstFrom_append hl]
        change firstFrom node.rank (l ++ r) = _
        rw [firstFrom_append hbefore,firstFrom_head (fun n hn => (hafter n hn).le),
          firstFrom_head (fun n hn => hk.trans (hafter n hn).le)]
      have hlen : c₁.dirtyNodes.length < n := by
        rw [hcut] at hn
        rw [hrest]
        simp only [List.length_append,List.length_cons] at hn ⊢
        omega
      obtain ⟨c',hloop,h',hnodes',ha',hent'⟩ := ih _ h₁ hup₁ hlen
      refine ⟨c',?_,h',?_,ha.trans ha',fun q => ?_⟩
      · rw [truncateLoop,hstep]
        exact hloop
      · rw [hnodes',hrest,hcut,below_cut hk]
      · rw [hent',hent]
        by_cases hq : q = node.entry
        · rw [if_pos hq,hq,he]
          refine congrArg some ((tailed_dropped e).trans (if_pos ⟨hd,?_⟩).symm)
          rw [hb]
          exact hk
        · rw [if_neg hq]

def firstDropped (c : PageCache β) (maxBlkoff : UInt32) : Nat :=
  if maxBlkoff ∈ c.dirtyNodes.map DirtyPagesNode.blkoff then (1 + maxBlkoff).toNat else maxBlkoff.toNat + 1

theorem truncate_spec (h : c.Inv abi ext) (maxBlkoff : UInt32) :
    ∃ c', pageCacheTruncate abi c maxBlkoff = .ok c' ∧ c'.Inv abi ext ∧
      c'.dirtyNodes = below (c.firstDropped maxBlkoff) c.dirtyNodes ∧ c.Alike c' ∧
      ∀ q, c'.entry q = (c.entry q).map (tailed (c.firstDropped maxBlkoff)) := by
  have hfuel : c.dirtyNodes.length < Kbtree.kbSize c.dirtyPages + 1 := Nat.lt_succ_of_le (Nat.le_of_eq h.tree.ok.size)
  have hup := h.upper maxBlkoff
  unfold pageCacheTruncate
  cases hu : upperNode c maxBlkoff with
  | none =>
    -- no node is at the limit or behind it
    have hall := firstFrom_none (hup.symm.trans hu)
    have hout : maxBlkoff ∉ c.dirtyNodes.map DirtyPagesNode.blkoff := by
      intro hin
      obtain ⟨n,hn,rfl⟩ := List.mem_map.mp hin
      exact absurd (hall n hn) (Nat.lt_irrefl _)
    have hempty : none = firstFrom (c.firstDropped maxBlkoff) c.dirtyNodes := by
      unfold firstDropped
      rw [if_neg hout]
      exact (Kbtree.find_none (fun n hn => Nat.lt_succ_of_lt (hall n hn))).symm
    exact truncateLoop_spec _ _ none h hempty hfuel
  | some upper =>
    obtain ⟨hk,l,r,hcut,hl⟩ := firstFrom_some (hup.symm.trans hu)
    have hmem : upper ∈ c.dirtyNodes := by
      rw [hcut]
      exact List.mem_append_right _ List.mem_cons_self
    have hstrict : Strict DirtyPagesNode.rank (l ++ upper :: r) := hcut ▸ h.tree.strict
    obtain ⟨-,-,hafter⟩ := Kbtree.strict_cut.mp hstrict
    by_cases hle : upper.blkoff ≤ maxBlkoff
    · have heq : upper.blkoff = maxBlkoff := UInt32.le_antisymm hle (UInt32.le_iff_toNat_le.mpr hk)
      have hin : maxBlkoff ∈ c.dirtyNodes.map DirtyPagesNode.blkoff := List.mem_map.mpr ⟨upper,hmem,heq⟩
      rw [firstDropped,if_pos hin]
      simp only [if_pos hle]
      exact truncateLoop_spec _ _ _ h (h.upper _) hfuel
    · have hgt : maxBlkoff.toNat < upper.rank := UInt32.lt_iff_toNat_lt.mp (UInt32.not_le.mp hle)
      have hout : maxBlkoff ∉ c.dirtyNodes.map DirtyPagesNode.blkoff := by
        intro hin
        obtain ⟨n,hn,rfl⟩ := List.mem_map.mp hin
        rw [hcut] at hn
        rcases List.mem_append.mp hn with hn | hn
        · exact absurd (hl n hn) (Nat.lt_irrefl _)
        · rcases List.mem_cons.mp hn with rfl | hn
          · exact absurd hgt (Nat.lt_irrefl _)
          · exact absurd (hgt.trans (hafter n hn)) (Nat.lt_irrefl _)
      have hfirst : some upper = firstFrom (maxBlkoff.toNat + 1) c.dirtyNodes := by
        rw [hcut,firstFrom_append (fun n hn => Nat.lt_succ_of_lt (hl n hn))]
        exact (Kbtree.find_cons hgt).symm
      rw [firstDropped,if_neg hout]
      simp only [if_neg hle]
      exact truncateLoop_spec _ _ _ h hfirst hfuel

theorem firstDropped_of_lt {maxBlkoff : UInt32} (h : maxBlkoff.toNat < 4294967295) :
    c.firstDropped maxBlkoff = maxBlkoff.toNat + 1 := by
  unfold firstDropped
  split
  · rw [UInt32.toNat_add,show (1 : UInt32).toNat = 1 from rfl]
    omega
  · rfl

end Tail

section Clear

def cleaned (e : PageEntry β) : PageEntry β :=
  if e.isDirty = true then { e with isDirty := false, refCount := e.refCount - 1 } else e

theorem clearNodes_spec (h : c.Counted abi.wrap ext nodes) (hs : Strict DirtyPagesNode.rank nodes) :
    ∃ c', clearNodes abi nodes c = .ok c' ∧ c'.Counted abi.wrap ext [] ∧ c.Alike c' ∧
      ∀ q, c'.entry q = (c.entry q).map cleaned := by
  induction nodes generalizing c with
  | nil =>
    refine ⟨c,rfl,h,⟨fun _ => rfl,.refl _,rfl⟩,fun q => ?_⟩
    cases he : c.entry q with
    | none => rfl
    | some e =>
      refine congrArg some (if_neg (fun hd => ?_)).symm
      exact absurd ((h.nodes ⟨e.blkoff,q⟩).mpr ⟨e,he,hd,rfl⟩) List.not_mem_nil
  | cons node rest ih =>
    obtain ⟨e,c₁,he,hd,-,hsub,hc₁,-,ha,hent⟩ := unmark_spec h List.mem_cons_self c.dirtyPages
      (fun e => { e with isDirty := false }) (fun _ => ⟨rfl,rfl,rfl⟩)
    have hrest : without DirtyPagesNode.rank node.rank (node :: rest) = rest := without_cut (l := []) hs
    rw [hrest] at hc₁
    obtain ⟨c',hclear,hc',ha',hent'⟩ := ih hc₁ (List.pairwise_cons.mp hs).2
    have hstep : clearNode abi c node = .ok c₁ := hsub
    refine ⟨c',?_,hc',ha.trans ha',fun q => ?_⟩
    · rw [clearNodes,hstep]
      exact hclear
    · rw [hent',hent]
      by_cases hq : q = node.entry
      · rw [if_pos hq,hq,he]
        exact congrArg some (if_pos hd).symm
      · rw [if_neg hq]

theorem clear_spec (h : c.Inv abi ext) : ∃ c', pageCacheClearDirtyPages abi c = .ok c' ∧ c'.Inv abi ext ∧
    c'.dirtyNodes = [] ∧ c.Alike c' ∧ ∀ q, c'.entry q = (c.entry q).map cleaned := by
  have hall : Kbtree.kbItrTake (Kbtree.kbSize c.dirtyPages) (Kbtree.kbItrFirst c.dirtyPages) = c.dirtyNodes :=
    Kbtree.kbItrTake_first DirtyPagesNode.rank c.dirtyPages h.tree.ok
  obtain ⟨c',hclear,hc',ha,hent⟩ := clearNodes_spec h.counted h.tree.strict
  refine ⟨{ c' with dirtyPages := Kbtree.kbInit },?_,⟨hc'.tree _,Kbtree.kbInit_valid _ _⟩,rfl,
    ⟨ha.lookup,ha.keys,ha.size⟩,hent⟩
  unfold pageCacheClearDirtyPages
  rw [hall,hclear]
  rfl

theorem invalidateEntry_spec {first : Nat} (h : c.Counted abi.wrap ext nodes) (hn : ∀ n ∈ nodes, n.rank < first)
    (k : UInt32) : (invalidateEntry first c k).Counted abi.wrap ext nodes ∧
      (invalidateEntry first c k).dirtyPages = c.dirtyPages := by
  unfold invalidateEntry
  cases hl : c.lookup k with
  | none => exact ⟨h,rfl⟩
  | some p =>
    obtain ⟨e,hc,-⟩ := h.has hl
    simp only [hc.entry]
    split
    · exact ⟨h,rfl⟩
    · rename_i hge
      have hclean : e.isDirty = false := by
        cases hd : e.isDirty with
        | false => rfl
        | true => exact absurd (hn _ ((h.nodes ⟨e.blkoff,p⟩).mpr ⟨e,hc.entry,hd,rfl⟩)) hge
      exact ⟨h.modify hc _ rfl rfl hclean.symm nofun,rfl⟩

theorem invalidateFrom_spec {first : Nat} (h : c.Inv abi ext)
    (hn : first ≤ 4294967295 → ∀ n ∈ c.dirtyNodes, n.rank < first) :
    (invalidateFrom c first).Inv abi ext ∧ (invalidateFrom c first).dirtyNodes = c.dirtyNodes := by
  unfold invalidateFrom
  split
  · exact ⟨h,rfl⟩
  · rename_i hfirst
    have hfold (l : List UInt32) (c₁ : PageCache β) (h₁ : c₁.Counted abi.wrap ext c.dirtyNodes)
        (ht : c₁.dirtyPages = c.dirtyPages) :
        (l.foldl (invalidateEntry first) c₁).Counted abi.wrap ext c.dirtyNodes ∧
          (l.foldl (invalidateEntry first) c₁).dirtyPages = c.dirtyPages := by
      induction l generalizing c₁ with
      | nil => exact ⟨h₁,ht⟩
      | cons k l ih =>
        obtain ⟨h₂,ht₂⟩ := invalidateEntry_spec h₁ (hn (Nat.le_of_not_lt hfirst)) k
        exact ih _ h₂ (ht₂.trans ht)
    obtain ⟨hc,ht⟩ := hfold c.keys c h.counted rfl
    have hnodes : (c.keys.foldl (invalidateEntry first) c).dirtyNodes = c.dirtyNodes := congrArg Kbtree.Tree.inorder ht
    exact ⟨⟨hnodes.symm ▸ hc,ht.symm ▸ h.tree⟩,hnodes⟩

theorem truncated_below (h : c.Inv abi ext) {block : Nat} (hb : block ≤ 4294967295) :
    ∃ c', pageCacheTruncate abi c (UInt32.ofNat block) = .ok c' ∧ c'.Inv abi ext ∧
      (block + 1 ≤ 4294967295 → ∀ n ∈ c'.dirtyNodes, n.rank < block + 1) := by
  obtain ⟨c',he,hi,hnodes,-⟩ := truncate_spec h (UInt32.ofNat block)
  refine ⟨c',he,hi,fun hlt n hn => ?_⟩
  have hval : (UInt32.ofNat block).toNat = block := UInt32.toNat_ofNat_of_lt' (by
    change block < 4294967296
    omega)
  rw [hnodes,firstDropped_of_lt (by rw [hval]; omega),hval] at hn
  exact (mem_below.mp hn).2

theorem invalidateCached_spec (h : c.Inv abi ext) (targetSize : UInt64) :
    ∃ c', rtfsFileInodeInvalidateCachedPagesFrom abi c targetSize = .ok c' ∧ c'.Inv abi ext := by
  have hcleared (first : Nat) : ∃ c', (pageCacheClearDirtyPages abi c).map (fun c => invalidateFrom c first) = .ok c' ∧
      c'.Inv abi ext := by
    obtain ⟨c',he,hi,hnil,-⟩ := clear_spec h
    refine ⟨invalidateFrom c' first,by rw [he]; rfl,(invalidateFrom_spec hi (fun _ n hn => ?_)).1⟩
    rw [hnil] at hn
    exact absurd hn List.not_mem_nil
  have htruncated (block : Nat) (hb : block ≤ 4294967295) : ∃ c', (pageCacheTruncate abi c (UInt32.ofNat block)).map
      (fun c => invalidateFrom c (block + 1)) = .ok c' ∧ c'.Inv abi ext := by
    obtain ⟨c',he,hi,hlow⟩ := truncated_below h hb
    exact ⟨invalidateFrom c' (block + 1),by rw [he]; rfl,(invalidateFrom_spec hi hlow).1⟩
  have huntouched (first : Nat) (hf : 4294967295 < first) :
      ∃ c', (Except.ok c : Except Halt (PageCache β)).map (fun c => invalidateFrom c first) = .ok c' ∧ c'.Inv abi ext :=
    ⟨_,rfl,(invalidateFrom_spec h (fun hle => absurd hf (Nat.not_lt.mpr hle))).1⟩
  unfold rtfsFileInodeInvalidateCachedPagesFrom
  by_cases hz : targetSize = 0
  · rw [if_pos hz]
    exact hcleared 0
  · rw [if_neg hz]
    simp only
    generalize targetSize.toNat / 4096 = block
    by_cases hmod : targetSize.toNat % 4096 = 0
    · rw [if_pos hmod]
      by_cases hblock : block = 0
      · rw [if_pos hblock]
        exact hcleared block
      · rw [if_neg hblock]
        by_cases hle : block - 1 ≤ 4294967295
        · rw [if_pos hle]
          have hstep := htruncated (block - 1) hle
          rw [Nat.sub_add_cancel (Nat.one_le_iff_ne_zero.mpr hblock)] at hstep
          exact hstep
        · rw [if_neg hle]
          exact huntouched block (by omega)
    · rw [if_neg hmod]
      by_cases hle : block ≤ 4294967295
      · rw [if_pos hle]
        exact htruncated block hle
      · rw [if_neg hle]
        exact huntouched (block + 1) (by omega)

end Clear

end PageCache

end PageCacheRun

end Rtfs
