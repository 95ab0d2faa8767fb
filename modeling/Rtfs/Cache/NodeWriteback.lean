import Rtfs.Cache.NodeRefs
import Rtfs.Fs.LpaAlloc

namespace Rtfs

namespace NodeWriteback

open NodeBlockCache

section Kept
variable {β : Type} {c c' c'' : NodeBlockCache β} {p : Nat} {f : NodeBlockCacheEntry β → NodeBlockCacheEntry β}

structure Kept (c c' : NodeBlockCache β) : Prop where
  manager : c'.cacheManager = c.cacheManager
  size : c'.curSize = c.curSize
  entry : ∀ q e, c.entry q = some e → ∃ e', c'.entry q = some e' ∧ e'.nid = e.nid ∧
    e'.parentNid = e.parentNid ∧ e'.refCount = e.refCount

theorem Kept.refl (c : NodeBlockCache β) : Kept c c := ⟨rfl,rfl,fun _ e he => ⟨e,he,rfl,rfl,rfl⟩⟩

theorem Kept.trans (h : Kept c c') (h' : Kept c' c'') : Kept c c'' := by
  refine ⟨h'.manager.trans h.manager,h'.size.trans h.size,fun q e he => ?_⟩
  obtain ⟨e',he',hn,hp,hr⟩ := h.entry q e he
  obtain ⟨e'',he'',hn',hp',hr'⟩ := h'.entry q e' he'
  exact ⟨e'',he'',hn'.trans hn,hp'.trans hp,hr'.trans hr⟩

theorem kept_modify (hf : ∀ e, (f e).nid = e.nid ∧ (f e).parentNid = e.parentNid ∧ (f e).refCount = e.refCount) :
    Kept c (c.modify p f) := by
  refine ⟨rfl,rfl,fun q e he => ?_⟩
  rw [entry_modify,he]
  split
  · exact ⟨f e,rfl,hf e⟩
  · exact ⟨e,rfl,rfl,rfl,rfl⟩

theorem Kept.lookup (h : Kept c c') (nid : UInt32) : c'.lookup nid = c.lookup nid := by
  rw [NodeBlockCache.lookup,NodeBlockCache.lookup,h.manager]

theorem Kept.has (h : Kept c c') {nid : UInt32} {e e' : NodeBlockCacheEntry β} (hh : c.Has nid p e)
    (he : c'.entry p = some e') : c'.Has nid p e' := ⟨(h.lookup nid).trans hh.lookup,he⟩

theorem Kept.counted (h : Kept c c') {ext : Nat → Nat} (hc : c.Counted ext) : c'.Counted ext := by
  refine hc.change ⟨h.lookup,?_,h.size⟩ (fun q e hq => ?_) (fun hh hq => ?_) hc.held
  · rw [keys,keys,h.manager]
  · obtain ⟨e',he',hn,hp,_⟩ := h.entry q e hq
    exact ⟨e',he',hn,hp⟩
  · obtain ⟨e',he',_,_,hr⟩ := h.entry _ _ hh.entry
    obtain rfl := Option.some.inj (he'.symm.trans hq)
    rw [hr,pinned,h.manager]
    exact ⟨rfl,hc.pinned hh⟩

end Kept

section Writeback
variable {β : Type} {layout : RtfsMkfsLayout} {used : List UInt32} {s s' : FileSystemManager β}
  {p : Nat} {e : NodeBlockCacheEntry β} {r : Option Errno}

structure Pending (s : FileSystemManager β) (nid : UInt32) (p : Nat) (e : NodeBlockCacheEntry β) : Prop where
  has : s.nodeCache.Has nid p e
  pending : e.pending = true

def NewLpasDistinct (s : FileSystemManager β) : Prop :=
  ∀ nid p e nid' p' e', Pending s nid p e → Pending s nid' p' e' → e.cowNewLpa = e'.cowNewLpa → nid = nid'

-- every relocation that waits has an address of its own, one that the allocator handed out
structure Claimed (used : List UInt32) (s : FileSystemManager β) : Prop where
  used : ∀ nid p e, Pending s nid p e → e.cowNewLpa ∈ used
  distinct : NewLpasDistinct s

def written (e : NodeBlockCacheEntry β) (newLpa : UInt32) : NodeBlockCacheEntry β :=
  { e with cowNewLpa := newLpa,hasPendingCowRelocation := true }

-- used are the addresses that the allocator has handed out
structure Copied (layout : RtfsMkfsLayout) (used : List UInt32) (s : FileSystemManager β) (used' : List UInt32)
    (s' : FileSystemManager β) : Prop where
  lpas : LpaInv layout ⟨s'.fs,used'⟩
  run : Relation.ReflTransGen LpaStep ⟨s.fs,used⟩ ⟨s'.fs,used'⟩
  grows : ∀ lpa ∈ used, lpa ∈ used'
  kept : Kept s.nodeCache s'.nodeCache
  srmap : s'.srmap = s.srmap
  holds : s'.dev.holds = s.dev.holds
  blocks : ∀ lpa ∈ used, s'.dev.blocks lpa = s.dev.blocks lpa
  claimed : ∀ {ext}, s.nodeCache.Counted ext → Claimed used s → Claimed used' s'
  entry : ∀ p e, s.nodeCache.entry p = some e → s'.nodeCache.entry p = some e ∨
    ∃ newLpa ∈ used', newLpa ≠ invalidLpa ∧ newLpa ∉ used ∧ s'.nodeCache.entry p = some (written e newLpa) ∧
      s'.dev.read newLpa = some e.node

def Stored (s' : FileSystemManager β) (p : Nat) (e : NodeBlockCacheEntry β) : Prop :=
  ∃ newLpa, newLpa ≠ invalidLpa ∧ s'.nodeCache.entry p = some (written e newLpa) ∧
    s'.dev.read newLpa = some e.node

theorem Copied.refl (h : LpaInv layout ⟨s.fs,used⟩) : Copied layout used s used s :=
  ⟨h,.refl,fun _ h => h,.refl _,rfl,rfl,fun _ _ => rfl,fun _ hcl => hcl,fun _ _ he => .inl he⟩

theorem Copied.read {used' : List UInt32} (h : Copied layout used s used' s') {lpa : UInt32} (hl : lpa ∈ used) :
    s'.dev.read lpa = s.dev.read lpa := by
  unfold BlockDev.read
  rw [h.holds,h.blocks lpa hl]

theorem Copied.trans {used₁ used₂ : List UInt32} {s₁ s₂ : FileSystemManager β} (h : Copied layout used s used₁ s₁)
    (h' : Copied layout used₁ s₁ used₂ s₂) : Copied layout used s used₂ s₂ := by
  refine ⟨h'.lpas,h.run.trans h'.run,fun lpa hl => h'.grows lpa (h.grows lpa hl),h.kept.trans h'.kept,
    h'.srmap.trans h.srmap,h'.holds.trans h.holds,
    fun lpa hl => (h'.blocks lpa (h.grows lpa hl)).trans (h.blocks lpa hl),
    fun hc hcl => h'.claimed (h.kept.counted hc) (h.claimed hc hcl),fun p e he => ?_⟩
  rcases h.entry p e he with he₁ | ⟨newLpa,hin,hne,hnew,he₁,hread⟩
  · rcases h'.entry p e he₁ with he₂ | ⟨newLpa,hin,hne,hnew,he₂,hread⟩
    · exact .inl he₂
    · exact .inr ⟨newLpa,hin,hne,fun hu => hnew (h.grows _ hu),he₂,hread⟩
  · rcases h'.entry p _ he₁ with he₂ | ⟨newLpa',hin',hne',hnew',he₂,hread'⟩
    · exact .inr ⟨newLpa,h'.grows _ hin,hne,hnew,he₂,(h'.read hin).trans hread⟩
    · exact .inr ⟨newLpa',hin',hne',fun hu => hnew' (h.grows _ hu),he₂,hread'⟩

theorem Copied.stored {used₁ used₂ : List UInt32} {s₁ s₂ : FileSystemManager β}
    (h : Copied layout used₁ s₁ used₂ s₂) {newLpa : UInt32} (hin : newLpa ∈ used₁) (hne : newLpa ≠ invalidLpa)
    (he : s₁.nodeCache.entry p = some (written e newLpa)) (hread : s₁.dev.read newLpa = some e.node) :
    Stored s₂ p e := by
  rcases h.entry p _ he with he₂ | ⟨newLpa',_,hne',_,he₂,hread'⟩
  · exact ⟨newLpa,hne,he₂,(h.read hin).trans hread⟩
  · exact ⟨newLpa',hne',he₂,hread'⟩

theorem Claimed.sameCache (h : Claimed used s) (hs : s'.nodeCache = s.nodeCache) : Claimed used s' := by
  have hback : ∀ {k q e}, Pending s' k q e → Pending s k q e := fun hp => ⟨hs ▸ hp.has,hp.pending⟩
  exact ⟨fun k q e hp => h.used k q e (hback hp),
    fun _ _ _ _ _ _ hp hp' hsame => h.distinct _ _ _ _ _ _ (hback hp) (hback hp') hsame⟩

theorem Claimed.written (h : Claimed used s) {ext : Nat → Nat} (hc : s.nodeCache.Counted ext) {newLpa : UInt32}
    (hnew : newLpa ∉ used) (hs : s'.nodeCache = s.nodeCache.modify p (fun e => written e newLpa))
    (he : s.nodeCache.entry p = some e) : Claimed (used ++ [newLpa]) s' := by
  have hback : ∀ k q e', Pending s' k q e' → s.nodeCache.lookup k = some q ∧
      (q = p ∧ e'.cowNewLpa = newLpa ∨ Pending s k q e') := by
    intro k q e' hp
    have hl := hp.has.lookup
    have hq := hp.has.entry
    rw [hs] at hl hq
    rw [entry_modify] at hq
    refine ⟨hl,?_⟩
    by_cases hqp : q = p
    · subst hqp
      rw [if_pos rfl,he] at hq
      cases hq
      exact .inl ⟨rfl,rfl⟩
    · rw [if_neg hqp] at hq
      exact .inr ⟨⟨hl,hq⟩,hp.pending⟩
  refine ⟨fun k q e' hp => ?_,fun k q e₁ k' q' e₂ hp hp' hsame => ?_⟩
  · rcases (hback k q e' hp).2 with ⟨_,hn⟩ | hold
    · rw [hn]
      exact List.mem_append_right _ (List.mem_singleton_self _)
    · exact List.mem_append_left _ (h.used k q e' hold)
  · obtain ⟨hl,hcase⟩ := hback k q e₁ hp
    obtain ⟨hl',hcase'⟩ := hback k' q' e₂ hp'
    rcases hcase with ⟨rfl,hn⟩ | hold
    · rcases hcase' with ⟨rfl,_⟩ | hold'
      · obtain ⟨e₀,hh⟩ := hc.has hl'
        exact hc.inj hh hl
      · exact absurd (h.used _ _ _ hold') (by rw [← hsame,hn]; exact hnew)
    · rcases hcase' with ⟨rfl,hn⟩ | hold'
      · exact absurd (h.used _ _ _ hold) (by rw [hsame,hn]; exact hnew)
      · exact h.distinct _ _ _ _ _ _ hold hold' hsame

variable (ha : layout.Areas) (hN : layout.segmentCount.toNat < 8388608)
  (hdev : ∀ lpa, layout.InMain (lpa / 512) → s.dev.holds lpa = true)
include ha hN hdev

theorem writebackEntry_copied (h : LpaInv layout ⟨s.fs,used⟩) (he : s.nodeCache.entry p = some e)
    (hw : writebackEntry s p e = some (r,s')) :
    ∃ used', Copied layout used s used' s' ∧ (r = none → ∃ newLpa ∈ used', newLpa ≠ invalidLpa ∧
      s'.nodeCache.entry p = some (written e newLpa) ∧ s'.dev.read newLpa = some e.node) := by
  unfold writebackEntry at hw
  cases halloc : superManagerAllocNodeLpa s.fs with
  | none => rw [halloc] at hw; cases hw
  | some a =>
    obtain ⟨newLpa,m⟩ := a
    rw [halloc] at hw
    dsimp only at hw
    have hstep := LpaStep.allocNode (s := ⟨s.fs,used⟩) halloc
    have hinv := lpaStep_inv ha hN h hstep
    by_cases hinvalid : newLpa = invalidLpa
    · rw [if_pos hinvalid] at hw hstep hinv
      cases hw
      exact ⟨used,⟨hinv,.single hstep,fun _ h => h,.refl _,rfl,rfl,fun _ _ => rfl,
        fun _ hcl => hcl.sameCache rfl,fun _ _ he => .inl he⟩,fun hr => by cases hr⟩
    · rw [if_neg hinvalid] at hw hstep hinv
      cases hw
      have hnew : newLpa ∉ used := fun hu =>
        (List.nodup_append.mp hinv.nodup).2.2 newLpa hu newLpa (List.mem_singleton_self _) rfl
      have hin : newLpa ∈ used ++ [newLpa] := List.mem_append_right _ (List.mem_singleton_self _)
      have hheld : s.dev.holds newLpa = true := hdev newLpa (hinv.main newLpa hin)
      have hentry : (s.nodeCache.modify p (fun e => written e newLpa)).entry p = some (written e newLpa) := by
        rw [entry_modify,if_pos rfl,he,Option.map_some]
      have hread : (s.dev.write newLpa e.node).read newLpa = some e.node := by
        unfold BlockDev.write BlockDev.read
        rw [if_pos hheld]
        dsimp only
        rw [if_pos hheld,Function.update_self]
      refine ⟨used ++ [newLpa],⟨hinv,.single hstep,fun _ hu => List.mem_append_left _ hu,
        kept_modify (fun _ => ⟨rfl,rfl,rfl⟩),rfl,?_,
        fun lpa hu => ?_,fun hc hcl => hcl.written hc hnew rfl he,fun q eq hq => ?_⟩,
        fun _ => ⟨newLpa,hin,hinvalid,hentry,hread⟩⟩
      · unfold BlockDev.write
        rw [if_pos hheld]
      · unfold BlockDev.write
        rw [if_pos hheld]
        exact Function.update_of_ne (ne_of_mem_of_not_mem hu hnew) ..
      · by_cases hqp : q = p
        · subst hqp
          obtain rfl := Option.some.inj (he.symm.trans hq)
          exact .inr ⟨newLpa,hin,hinvalid,hnew,hentry,hread⟩
        · refine .inl ?_
          change (s.nodeCache.modify p (fun e => written e newLpa)).entry q = _
          rw [entry_modify,if_neg hqp,hq]

theorem writebackList_copied (h : LpaInv layout ⟨s.fs,used⟩) (ps : List Nat)
    (hw : writebackList ps s = some (r,s')) :
    ∃ used', Copied layout used s used' s' ∧ (r = none → ∀ p ∈ ps, ∀ e, s.nodeCache.entry p = some e →
      e.state = .dirty → Stored s' p e) := by
  induction ps generalizing s used with
  | nil =>
    cases hw
    exact ⟨used,.refl h,fun _ p hp => absurd hp List.not_mem_nil⟩
  | cons q ps ih =>
    unfold writebackList at hw
    cases hq : s.nodeCache.entry q with
    | none =>
      rw [hq] at hw
      obtain ⟨used',hc,hall⟩ := ih hdev h hw
      refine ⟨used',hc,fun hr p hp e he hd => ?_⟩
      rcases List.mem_cons.mp hp with rfl | hp
      · rw [hq] at he; cases he
      · exact hall hr p hp e he hd
    | some eq =>
      rw [hq] at hw
      dsimp only at hw
      by_cases hd : eq.state = .dirty
      · rw [if_neg (not_not.mpr hd)] at hw
        cases hone : writebackEntry s q eq with
        | none => rw [hone] at hw; cases hw
        | some a =>
          obtain ⟨r₁,s₁⟩ := a
          rw [hone] at hw
          obtain ⟨used₁,hc₁,hnew⟩ := writebackEntry_copied ha hN hdev h hq hone
          cases r₁ with
          | some err =>
            cases hw
            exact ⟨used₁,hc₁,fun hr => by cases hr⟩
          | none =>
            obtain ⟨newLpa,hin,hne,he₁,hread⟩ := hnew rfl
            obtain ⟨used',hc,hall⟩ := ih (fun lpa hl => by rw [hc₁.holds]; exact hdev lpa hl) hc₁.lpas hw
            refine ⟨used',hc₁.trans hc,fun hr p hp e he hd => ?_⟩
            by_cases hpq : p = q
            · subst hpq
              obtain rfl := Option.some.inj (hq.symm.trans he)
              exact hc.stored hin hne he₁ hread
            · have hps := (List.mem_cons.mp hp).resolve_left hpq
              rcases hc₁.entry p e he with hsame | ⟨_,hin',hne',_,he',hread'⟩
              · exact hall hr p hps e hsame hd
              · exact hc.stored hin' hne' he' hread'
      · rw [if_pos hd] at hw
        obtain ⟨used',hc,hall⟩ := ih hdev h hw
        refine ⟨used',hc,fun hr p hp e he hd' => ?_⟩
        rcases List.mem_cons.mp hp with rfl | hp
        · obtain rfl := Option.some.inj (hq.symm.trans he)
          exact absurd hd' hd
        · exact hall hr p hp e he hd'

theorem writeback_stores (h : LpaInv layout ⟨s.fs,used⟩)
    (hw : nodeBlockCacheWritebackDirtyContentCow s = some (r,s')) :
    ∃ used', Copied layout used s used' s' ∧ (r = none → ∀ p ∈ s.nodeCache.dirtyList, ∀ e,
      s.nodeCache.entry p = some e → e.state = .dirty → Stored s' p e) :=
  writebackList_copied ha hN hdev h s.nodeCache.dirtyList hw

end Writeback

section Relocations
variable {β : Type} {s s' : FileSystemManager β} {owners owners' : UInt32 → RtfsSummary} {ext : Nat → Nat}
  {nid : UInt32} {p : Nat} {e : NodeBlockCacheEntry β}

structure Relocated (s' : FileSystemManager β) (owners' : UInt32 → RtfsSummary) (nid : UInt32) (p : Nat)
    (e : NodeBlockCacheEntry β) : Prop where
  entry : s'.nodeCache.entry p = some (applied e)
  nat : natGetLpaOfNid s'.fs nid = some e.cowNewLpa
  owner : (owners' e.cowNewLpa).nid = nid

structure Untouched (s s' : FileSystemManager β) (nid : UInt32) (p : Nat) (e : NodeBlockCacheEntry β) : Prop where
  entry : s'.nodeCache.entry p = some e
  nat : natGetLpaOfNid s'.fs nid = natGetLpaOfNid s.fs nid

structure Moved (s : FileSystemManager β) (owners : UInt32 → RtfsSummary) (s' : FileSystemManager β)
    (owners' : UInt32 → RtfsSummary) : Prop where
  kept : Kept s.nodeCache s'.nodeCache
  dev : s'.dev = s.dev
  shown : s'.srmap.Shows owners'
  entry : ∀ nid p e, s.nodeCache.Has nid p e →
    Untouched s s' nid p e ∨ (e.pending = true ∧ Relocated s' owners' nid p e)
  owner : ∀ lpa, (∀ nid p e, Pending s nid p e → e.cowNewLpa ≠ lpa) → owners' lpa = owners lpa

theorem applied_not_pending (e : NodeBlockCacheEntry β) : (applied e).pending = false := rfl

theorem Moved.refl (h : s.srmap.Shows owners) : Moved s owners s owners :=
  ⟨.refl _,rfl,h,fun _ _ _ hh => .inl ⟨hh.entry,rfl⟩,fun _ _ => rfl⟩

theorem natGet_natSet {m m' : FsMeta} {k newLpa : UInt32} (h : natSetLpaOfNid m nid newLpa = some m') :
    natGetLpaOfNid m' k = if k = nid then some newLpa else natGetLpaOfNid m k := by
  unfold natSetLpaOfNid at h
  split at h
  · cases h
  · rename_i hholds
    cases h
    by_cases hk : k = nid
    · subst hk
      rw [if_pos rfl]
      change (if ¬ natHoldsNid m k then none else some (Function.update m.nat k _ k).blockAddr) = _
      rw [if_neg hholds,Function.update_self]
    · rw [if_neg hk]
      change (if ¬ natHoldsNid m k then none else some (Function.update m.nat nid _ k).blockAddr) = _
      rw [Function.update_of_ne hk]
      rfl

-- one bucket of the index: only the entry that it holds can move
theorem applyBucket_moved (hc : s.nodeCache.Counted ext) (hs : s.srmap.Shows owners)
    (h : applyBucket s nid = some s') : ∃ owners', Moved s owners s' owners' ∧
      (∀ p e, Pending s nid p e → Relocated s' owners' nid p e) ∧
      ∀ k q e, k ≠ nid → s.nodeCache.Has k q e → Untouched s s' k q e := by
  unfold applyBucket at h
  cases hl : s.nodeCache.lookup nid with
  | none =>
    rw [hl] at h
    cases h
    refine ⟨owners,.refl hs,fun p e hp => ?_,fun k q e _ hh => ⟨hh.entry,rfl⟩⟩
    rw [hp.has.lookup] at hl
    cases hl
  | some p =>
    obtain ⟨e,hh⟩ := hc.has hl
    rw [hl,Option.bind_some,hh.entry,Option.map_some] at h
    dsimp only at h
    by_cases hpend : e.pending = true
    · rw [if_pos hpend] at h
      unfold applyEntry at h
      cases hset : natSetLpaOfNid s.fs e.nid e.cowNewLpa with
      | none => rw [hset] at h; cases h
      | some m =>
        rw [hset] at h
        cases h
        rw [hc.nid_eq hh] at hset ⊢
        have hentry : (s.nodeCache.modify p applied).entry p = some (applied e) := by
          rw [entry_modify,if_pos rfl,hh.entry,Option.map_some]
        have hother : ∀ k q e', k ≠ nid → s.nodeCache.Has k q e' →
            (s.nodeCache.modify p applied).entry q = some e' := by
          intro k q e' hk hhk
          have hqp : q ≠ p := fun he => hk (hc.inj hh (he ▸ hhk.lookup))
          rw [entry_modify,if_neg hqp,hhk.entry]
        have hnat : natGetLpaOfNid m nid = some e.cowNewLpa := by rw [natGet_natSet hset,if_pos rfl]
        have howner : (SrmapUtils.SrmapCall.record owners (.node e.cowNewLpa nid) e.cowNewLpa).nid = nid := by
          unfold SrmapUtils.SrmapCall.record
          dsimp only
          rw [Function.update_self]
        have hkept : Kept s.nodeCache (s.nodeCache.modify p applied) := kept_modify (fun _ => ⟨rfl,rfl,rfl⟩)
        have hmine : ∀ q e', s.nodeCache.Has nid q e' → q = p ∧ e' = e := fun q e' hh' => hh'.eq hh
        refine ⟨_,⟨⟨hkept.manager,hkept.size,hkept.entry⟩,rfl,hs.call (.node e.cowNewLpa nid),
          fun k q e' hhk => ?_,fun lpa hlpa => ?_⟩,fun q e' hp' => ?_,fun k q e' hk hhk => ⟨hother k q e' hk hhk,?_⟩⟩
        · by_cases hk : k = nid
          · subst hk
            obtain ⟨rfl,rfl⟩ := hmine q e' hhk
            exact .inr ⟨hpend,hentry,hnat,howner⟩
          · refine .inl ⟨hother k q e' hk hhk,?_⟩
            rw [natGet_natSet hset,if_neg hk]
        · exact Function.update_of_ne (hlpa nid p e ⟨hh,hpend⟩).symm ..
        · obtain ⟨rfl,rfl⟩ := hmine q e' hp'.has
          exact ⟨hentry,hnat,howner⟩
        · rw [natGet_natSet hset,if_neg hk]
    · rw [if_neg hpend] at h
      cases h
      refine ⟨owners,.refl hs,fun q e' hp' => ?_,fun k q e' _ hhk => ⟨hhk.entry,rfl⟩⟩
      obtain ⟨_,rfl⟩ := hp'.has.eq hh
      exact absurd hp'.pending hpend

variable {owners₁ : UInt32 → RtfsSummary} {s₁ : FileSystemManager β}

theorem Moved.pending (h : Moved s owners s₁ owners₁) (hc : s.nodeCache.Counted ext) (hp : Pending s₁ nid p e) :
    Pending s nid p e := by
  obtain ⟨e₀,hh⟩ := hc.has ((h.kept.lookup nid).symm.trans hp.has.lookup)
  rcases h.entry nid p e₀ hh with hu | ⟨_,hr⟩
  · obtain rfl := Option.some.inj (hu.entry.symm.trans hp.has.entry)
    exact ⟨hh,hp.pending⟩
  · obtain rfl := Option.some.inj (hr.entry.symm.trans hp.has.entry)
    exact absurd hp.pending (by rw [applied_not_pending]; decide)

-- a relocated entry stays as it is: it has no second relocation and no other entry has its address
theorem Moved.relocated (h : Moved s₁ owners₁ s' owners') (hr : Relocated s₁ owners₁ nid p e)
    (hh : s₁.nodeCache.Has nid p (applied e)) (hnew : ∀ k q e', Pending s₁ k q e' → e'.cowNewLpa ≠ e.cowNewLpa) :
    Relocated s' owners' nid p e := by
  rcases h.entry nid p _ hh with hu | ⟨hp,_⟩
  · exact ⟨hu.entry,hu.nat.trans hr.nat,by rw [h.owner _ hnew]; exact hr.owner⟩
  · rw [applied_not_pending] at hp
    cases hp

theorem Moved.fresh (h : Moved s owners s₁ owners₁) (hc : s.nodeCache.Counted ext) (hd : NewLpasDistinct s)
    (hp : Pending s nid p e) (hr : Relocated s₁ owners₁ nid p e) :
    ∀ k q e', Pending s₁ k q e' → e'.cowNewLpa ≠ e.cowNewLpa := by
  intro k q e' hp' hsame
  obtain rfl := hd _ _ _ _ _ _ (h.pending hc hp') hp hsame
  obtain ⟨_,rfl⟩ := hp'.has.eq (h.kept.has hp.has hr.entry)
  exact absurd hp'.pending (by rw [applied_not_pending]; decide)

theorem Moved.trans (h : Moved s owners s₁ owners₁) (h' : Moved s₁ owners₁ s' owners')
    (hc : s.nodeCache.Counted ext) (hd : NewLpasDistinct s) : Moved s owners s' owners' := by
  refine ⟨h.kept.trans h'.kept,h'.dev.trans h.dev,h'.shown,fun k q e hh => ?_,fun lpa hlpa => ?_⟩
  · rcases h.entry k q e hh with hu | ⟨hp,hr⟩
    · rcases h'.entry k q e (h.kept.has hh hu.entry) with hu' | ⟨hp',hr'⟩
      · exact .inl ⟨hu'.entry,hu'.nat.trans hu.nat⟩
      · exact .inr ⟨hp',hr'⟩
    · exact .inr ⟨hp,h'.relocated hr (h.kept.has hh hr.entry) (h.fresh hc hd ⟨hh,hp⟩ hr)⟩
  · rw [h'.owner lpa (fun k q e hp => hlpa k q e (h.pending hc hp))]
    exact h.owner lpa hlpa

theorem Moved.distinct (h : Moved s owners s₁ owners₁) (hc : s.nodeCache.Counted ext) (hd : NewLpasDistinct s) :
    NewLpasDistinct s₁ :=
  fun _ _ _ _ _ _ hp hp' hsame => hd _ _ _ _ _ _ (h.pending hc hp) (h.pending hc hp') hsame

theorem buckets_moved (order : List UInt32) (hc : s.nodeCache.Counted ext) (hd : NewLpasDistinct s)
    (hs : s.srmap.Shows owners) (h : order.foldlM applyBucket s = some s') : ∃ owners', Moved s owners s' owners' ∧
      ∀ nid ∈ order, ∀ p e, Pending s nid p e → Relocated s' owners' nid p e := by
  induction order generalizing s owners with
  | nil =>
    cases h
    exact ⟨owners,.refl hs,fun nid hn => absurd hn List.not_mem_nil⟩
  | cons nid order ih =>
    rw [List.foldlM_cons] at h
    obtain ⟨s₁,hone,hrest⟩ := Option.bind_eq_some_iff.mp h
    obtain ⟨owners₁,hm,hmine,hother⟩ := applyBucket_moved hc hs hone
    obtain ⟨owners',hm',hall⟩ := ih (hm.kept.counted hc) (hm.distinct hc hd) hm.shown hrest
    refine ⟨owners',hm.trans hm' hc hd,fun k hk p e hp => ?_⟩
    by_cases hkn : k = nid
    · subst hkn
      have hr := hmine p e hp
      exact hm'.relocated hr (hm.kept.has hp.has hr.entry) (hm.fresh hc hd hp hr)
    · have hu := hother k p e hkn hp.has
      exact hall k ((List.mem_cons.mp hk).resolve_left hkn) p e ⟨hm.kept.has hp.has hu.entry,hp.pending⟩

theorem relocations_applied {order : List UInt32} (hc : s.nodeCache.Counted ext) (hd : NewLpasDistinct s)
    (hs : s.srmap.Shows owners) (h : nodeBlockCacheApplyPendingCowRelocations s order = some s') :
    ∃ owners', Moved s owners s' owners' ∧ s'.nodeCache.Counted ext ∧
      s'.srmap.ownerIn s'.srmap.area = owners' ∧
      ∀ nid ∈ order, ∀ p e, Pending s nid p e → Relocated s' owners' nid p e := by
  unfold nodeBlockCacheApplyPendingCowRelocations at h
  obtain ⟨s₁,hbuckets,heq⟩ := Option.map_eq_some_iff.mp h
  subst heq
  obtain ⟨owners',hm,hall⟩ := buckets_moved order hc hd hs hbuckets
  refine ⟨owners',⟨hm.kept,hm.dev,hm.shown.sync,fun k q e hh => ?_,hm.owner⟩,hm.kept.counted hc,funext (fun lpa => ?_),
    fun nid hn p e hp => ?_⟩
  · rcases hm.entry k q e hh with hu | ⟨hp,hr⟩
    · exact .inl ⟨hu.entry,hu.nat⟩
    · exact .inr ⟨hp,hr.entry,hr.nat,hr.owner⟩
  · rw [← hm.shown.owner lpa]
    change s₁.srmap.ownerIn s₁.srmap.writeDirtySrmapSync.area lpa = _
    rw [hm.shown.synced]
  · have hr := hall nid hn p e hp
    exact ⟨hr.entry,hr.nat,hr.owner⟩

theorem collect_mem {order : List UInt32} (hc : s.nodeCache.Counted ext) (x : NodeBlockCacheCowRelocation) :
    x ∈ nodeBlockCacheCollectPendingCowRelocations s order ↔
      ∃ nid ∈ order, ∃ p e, Pending s nid p e ∧ x = ⟨nid,e.lpa,e.cowNewLpa⟩ := by
  unfold nodeBlockCacheCollectPendingCowRelocations
  rw [List.mem_filterMap]
  constructor
  · rintro ⟨nid,hn,hx⟩
    obtain ⟨p,hl,hx⟩ := Option.bind_eq_some_iff.mp hx
    obtain ⟨e,he,hx⟩ := Option.bind_eq_some_iff.mp hx
    split at hx
    · rename_i hp
      cases hx
      exact ⟨nid,hn,p,e,⟨⟨hl,he⟩,hp⟩,by rw [hc.nid_eq ⟨hl,he⟩]⟩
    · cases hx
  · rintro ⟨nid,hn,p,e,hp,rfl⟩
    refine ⟨nid,hn,?_⟩
    rw [hp.has.lookup,Option.bind_some,hp.has.entry,Option.bind_some,if_pos hp.pending,hc.nid_eq hp.has]

theorem nothing_pending {order : List UInt32} (hc : s.nodeCache.Counted ext) (hd : NewLpasDistinct s)
    (hs : s.srmap.Shows owners) (h : nodeBlockCacheApplyPendingCowRelocations s order = some s') :
    nodeBlockCacheCollectPendingCowRelocations s' order = [] := by
  obtain ⟨owners',hm,hc',_,hall⟩ := relocations_applied hc hd hs h
  refine List.eq_nil_iff_forall_not_mem.mpr (fun x hx => ?_)
  obtain ⟨nid,hn,p,e,hp,_⟩ := (collect_mem hc' x).mp hx
  have hsame := Option.some.inj ((hall nid hn p e (hm.pending hc hp)).entry.symm.trans hp.has.entry)
  have hnot := applied_not_pending e
  rw [hsame,hp.pending] at hnot
  cases hnot

end Relocations

section Whole
variable {β : Type} {layout : RtfsMkfsLayout} {used order : List UInt32} {s s₁ s' : FileSystemManager β}
  {ext : Nat → Nat} {owners : UInt32 → RtfsSummary}

theorem written_pending {newLpa : UInt32} (h : newLpa ≠ invalidLpa) (e : NodeBlockCacheEntry β) :
    (written e newLpa).pending = true := by
  unfold NodeBlockCacheEntry.pending written
  simp [h]

theorem dirty_nodes_relocated (ha : layout.Areas) (hN : layout.segmentCount.toNat < 8388608)
    (hdev : ∀ lpa, layout.InMain (lpa / 512) → s.dev.holds lpa = true) (h : LpaInv layout ⟨s.fs,used⟩)
    (hc : s.nodeCache.Counted ext) (hcl : Claimed used s) (hs : s.srmap.Shows owners)
    (hw : nodeBlockCacheWritebackDirtyContentCow s = some (none,s₁))
    (hr : nodeBlockCacheApplyPendingCowRelocations s₁ order = some s') :
    s'.nodeCache.Counted ext ∧ (∀ lpa ∈ used, s'.dev.read lpa = s.dev.read lpa) ∧
    nodeBlockCacheCollectPendingCowRelocations s' order = [] ∧
    ∀ nid ∈ order, ∀ p ∈ s.nodeCache.dirtyList, ∀ e, s.nodeCache.Has nid p e → e.state = .dirty →
      ∃ newLpa, s'.nodeCache.Has nid p { e with
          lpa := newLpa
          cowNewLpa := invalidLpa
          hasPendingCowRelocation := false
          state := .uptodate } ∧
        natGetLpaOfNid s'.fs nid = some newLpa ∧ s'.dev.read newLpa = some e.node ∧
        (s'.srmap.ownerIn s'.srmap.area newLpa).nid = nid := by
  obtain ⟨used₁,hcopied,hstored⟩ := writeback_stores ha hN hdev h hw
  have hsrmap : s₁.srmap = s.srmap := hcopied.srmap
  have hc₁ := hcopied.kept.counted hc
  have hd₁ := (hcopied.claimed hc hcl).distinct
  have hs₁ : s₁.srmap.Shows owners := hsrmap ▸ hs
  obtain ⟨owners',hm,hc',howners,hall⟩ := relocations_applied hc₁ hd₁ hs₁ hr
  refine ⟨hc',fun lpa hu => ?_,nothing_pending hc₁ hd₁ hs₁ hr,fun nid hn p hp e hh hdirty => ?_⟩
  · rw [hm.dev]
    exact hcopied.read hu
  · obtain ⟨newLpa,hne,hentry,hread⟩ := hstored rfl p hp e hh.entry hdirty
    have hhas := hcopied.kept.has hh hentry
    have hmoved := hall nid hn p _ ⟨hhas,written_pending hne e⟩
    refine ⟨newLpa,?_,hmoved.nat,?_,?_⟩
    · have hfinal := hm.kept.has hhas hmoved.entry
      unfold applied written at hfinal
      rwa [hdirty,if_pos rfl] at hfinal
    · rw [hm.dev]
      exact hread
    · rw [howners]
      exact hmoved.owner

end Whole

end NodeWriteback

end Rtfs
