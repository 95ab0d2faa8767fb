import Rtfs.Cache.NodeRefs
import Rtfs.Inode.NodeStore

namespace Rtfs

namespace NodeCreate

open NodeBlockCache

section Recounted
variable {β : Type} {c c' c'' : NodeBlockCache β} {s s' : FileSystemManager β}

-- the entries differ in nothing but their reference counts
def Recounted (c c' : NodeBlockCache β) : Prop :=
  ∀ p e, c.entry p = some e → ∃ n, c'.entry p = some { e with refCount := n }

theorem Recounted.refl (c : NodeBlockCache β) : Recounted c c := fun _ e he => ⟨e.refCount,he⟩

theorem Recounted.trans (h : Recounted c c') (h' : Recounted c' c'') : Recounted c c'' := by
  intro p e he
  obtain ⟨n,he'⟩ := h p e he
  obtain ⟨n',he''⟩ := h' p _ he'
  exact ⟨n',he''⟩

theorem recounted_modify (p : Nat) (f : NodeBlockCacheEntry β → Nat) :
    Recounted c (c.modify p (fun e => { e with refCount := f e })) := by
  intro q e he
  rw [entry_modify,he]
  split
  · exact ⟨f e,rfl⟩
  · exact ⟨e.refCount,rfl⟩

theorem addRefCount_recounted (c : NodeBlockCache β) (p : Nat) : Recounted c (c.addRefCount p) := by
  unfold addRefCount
  split
  · exact .refl c
  · dsimp only
    split
    · exact recounted_modify p (fun e => e.refCount + 1)
    · exact recounted_modify p (fun e => e.refCount + 1)

theorem released_recounted (c : NodeBlockCache β) (p : Nat) (e : NodeBlockCacheEntry β) :
    Recounted c (c.released p e) := by
  unfold released
  dsimp only
  split
  · exact recounted_modify p (fun e => e.refCount - 1)
  · exact recounted_modify p (fun e => e.refCount - 1)

theorem dropDeleted_entries {e : NodeBlockCacheEntry β} (h : dropDeleted s e = some s') :
    Recounted s.nodeCache s'.nodeCache := by
  unfold dropDeleted at h
  obtain ⟨m,_,h⟩ := Option.bind_eq_some_iff.mp h
  obtain ⟨m',_,rfl⟩ := Option.map_eq_some_iff.mp h
  exact .refl s.nodeCache

theorem subRefCountUp_recounted (n : Nat) (p : Nat) (h : subRefCountUp n s p = some s') :
    Recounted s.nodeCache s'.nodeCache := by
  induction n generalizing s p with
  | zero => cases h
  | succ n ih =>
    unfold subRefCountUp at h
    cases he : s.nodeCache.entry p with
    | none => rw [he] at h; cases h
    | some e =>
      rw [he] at h
      have hrel := released_recounted s.nodeCache p e
      dsimp only at h
      split at h
      · cases h
        exact hrel
      · split at h
        · cases h
        · rename_i s₁ hdrop
          have hs₁ : Recounted s.nodeCache s₁.nodeCache := hrel.trans (dropDeleted_entries hdrop)
          split at h
          · cases h
            exact hs₁
          · split at h
            · cases h
            · exact hs₁.trans (ih _ h)

theorem dropParentRef_recounted {parentNid : UInt32} (h : dropParentRef s parentNid = some s') :
    Recounted s.nodeCache s'.nodeCache := by
  unfold dropParentRef at h
  split at h
  · cases h
    exact .refl _
  · split at h
    · cases h
    · exact subRefCountUp_recounted _ _ h

theorem replaceLoop_recounted (n : Nat) (h : replaceLoop n s = some s') :
    Recounted s.nodeCache s'.nodeCache := by
  induction n generalizing s with
  | zero => cases h
  | succ n ih =>
    unfold replaceLoop at h
    split at h
    · cases h
      exact .refl _
    · split at h
      · cases h
      · split at h
        · cases h
        · split at h
          · cases h
          · rename_i m e _ _ s₁ hdrop
            have hs₁ : Recounted s.nodeCache s₁.nodeCache := fun q e he => dropParentRef_recounted hdrop q e he
            split at h
            · cases h
              exact hs₁
            · exact hs₁.trans (ih h)

theorem doReplace_recounted (h : nodeBlockCacheDoReplace s = some s') : Recounted s.nodeCache s'.nodeCache := by
  unfold nodeBlockCacheDoReplace at h
  split at h
  · cases h
    exact .refl _
  · exact replaceLoop_recounted _ h

end Recounted

section Created
variable {β : Type} {s s' : FileSystemManager β} {raw buffer : β} {nid ino noffset parentNid lpa : UInt32}
  {p : Nat}

theorem nodeBlockCacheAdd_entry (h : nodeBlockCacheAdd s buffer nid parentNid lpa = some (p,s')) :
    ∃ n, s'.nodeCache.entry p = some { nodeBlockCacheEntryInit buffer nid parentNid lpa with refCount := n } := by
  unfold nodeBlockCacheAdd addBeforeReplace at h
  obtain ⟨s₁,hadd,heq⟩ := Option.map_eq_some_iff.mp h
  cases heq
  split at hadd
  · cases hadd
  · obtain ⟨s₂,hins,hrep⟩ := Option.bind_eq_some_iff.mp hadd
    obtain ⟨c,hc,hins⟩ := Option.bind_eq_some_iff.mp hins
    obtain ⟨c',hins,rfl⟩ := Option.map_eq_some_iff.mp hins
    have hlen : c.entries.length = s.nodeCache.entries.length := by
      unfold holdParent at hc
      split at hc
      · cases hc
        rfl
      · obtain ⟨q,_,rfl⟩ := Option.map_eq_some_iff.mp hc
        unfold addRefCount
        split
        · rfl
        · dsimp only
          split
          · exact List.length_modify ..
          · exact List.length_modify ..
    unfold insertEntry at hins
    split at hins
    · cases hins
      rw [← hlen]
      obtain ⟨n,hheld⟩ := addRefCount_recounted { c with
        cacheManager := c.cacheManager.add nid c.entries.length (by assumption)
        entries := c.entries ++ [nodeBlockCacheEntryInit buffer nid parentNid lpa]
        curSize := c.curSize + 1 } c.entries.length c.entries.length _ List.getElem?_concat_length
      obtain ⟨n',hkept⟩ := doReplace_recounted hrep _ _ hheld
      exact ⟨n',hkept⟩
    · cases hins

structure Created (s' : FileSystemManager β) (p : Nat) (nid parentNid : UInt32) (b : β) : Prop where
  entry : ∃ e, s'.nodeCache.entry p = some e ∧ e.node = b ∧ e.nid = nid ∧ e.parentNid = parentNid ∧
    e.lpa = invalidLpa ∧ e.state = .dirty
  dirty : p ∈ s'.nodeCache.dirtyList

theorem createEntry_created [NodeBlock β] (h : createEntry s raw nid ino noffset parentNid = some (p,s')) :
    Created s' p nid parentNid (NodeBlock.setFooter raw ⟨nid,ino,noffset⟩) := by
  unfold createEntry at h
  obtain ⟨⟨q,s₁⟩,hadd,h⟩ := Option.bind_eq_some_iff.mp h
  obtain ⟨s₂,hmark,heq⟩ := Option.map_eq_some_iff.mp h
  cases heq
  obtain ⟨n,he⟩ := nodeBlockCacheAdd_entry hadd
  obtain ⟨c,hc,rfl⟩ := Option.map_eq_some_iff.mp hmark
  have hwritten : (writeNode s₁ q (NodeBlock.setFooter raw ⟨nid,ino,noffset⟩)).nodeCache.entry q =
      some { nodeBlockCacheEntryInit (NodeBlock.setFooter raw ⟨nid,ino,noffset⟩) nid parentNid invalidLpa with
        refCount := n } := by
    change (s₁.nodeCache.modify q _).entry q = _
    rw [entry_modify,if_pos rfl,he]
    rfl
  unfold markDirty at hc
  rw [hwritten] at hc
  cases hc
  have hmarked : ((writeNode s₁ q (NodeBlock.setFooter raw ⟨nid,ino,noffset⟩)).nodeCache.modify q
      (fun e => { e with state := .dirty })).entry q =
      some { nodeBlockCacheEntryInit (NodeBlock.setFooter raw ⟨nid,ino,noffset⟩) nid parentNid invalidLpa with
        refCount := n
        state := .dirty } := by
    rw [entry_modify,if_pos rfl,hwritten]
    rfl
  exact ⟨⟨_,hmarked,rfl,rfl,rfl,rfl,rfl⟩,List.mem_append_right _ (List.mem_singleton_self _)⟩

end Created

section Helper
variable {s s' : FileSystemManager Block} {raw : Block} {ino noffset parentNid : UInt32} {p : Nat}

-- the store of the index trees hands out the nid and the block that the node cache creates
theorem createNodeEntry_store (h : s.nodeBlockCacheHelperCreateNodeEntry raw ino noffset parentNid = some (some p,s'))
    (st : NodeStore) (fresh : List (UInt32 × Block)) :
    ∃ nid b, Created s' p nid parentNid b ∧
      nodeBlockCacheHelperCreateNodeEntry { st with fresh := (nid,raw) :: fresh } ino noffset =
        some (b,⟨Function.update st.node nid (some b),fresh⟩) := by
  unfold FileSystemManager.nodeBlockCacheHelperCreateNodeEntry at h
  split at h
  · cases h
  · rename_i newNid m _
    split at h
    · cases h
    · obtain ⟨⟨q,s₁⟩,hcreate,heq⟩ := Option.map_eq_some_iff.mp h
      cases heq
      exact ⟨newNid,_,createEntry_created hcreate,rfl⟩

theorem Created.footer {nid : UInt32} (h : Created s' p nid parentNid (NodeBlock.setFooter raw ⟨nid,ino,noffset⟩))
    (hino : parentNid = invalidNid → ino = nid) : checkFooter nid parentNid (p,s') = some (.ok (p,s')) := by
  obtain ⟨e,he,hnode,_⟩ := h.entry
  unfold checkFooter
  rw [he]
  dsimp only
  rw [hnode,footer_setFooter,if_pos ⟨rfl,hino⟩]

theorem createInodeEntry_created
    (h : nodeBlockCacheHelperCreateInodeEntry s raw = some (some p,s')) :
    ∃ nid, Created s' p nid invalidNid (NodeBlock.setFooter raw ⟨nid,nid,0⟩) ∧
      checkFooter nid invalidNid (p,s') = some (.ok (p,s')) := by
  unfold nodeBlockCacheHelperCreateInodeEntry at h
  split at h
  · cases h
  · rename_i newNid m _
    split at h
    · cases h
    · obtain ⟨⟨q,s₁⟩,hcreate,heq⟩ := Option.map_eq_some_iff.mp h
      cases heq
      have hc := createEntry_created hcreate
      exact ⟨newNid,hc,hc.footer (fun _ => rfl)⟩

end Helper

end NodeCreate

end Rtfs
