import Rtfs.Cache.NodeBlockCache

namespace Rtfs

namespace NodeBlockCache
variable {β : Type} (c : NodeBlockCache β)

def keys : List UInt32 := c.cacheManager.replacer.keys

def pinned : List UInt32 := c.cacheManager.replacer.pinned

structure Has (nid : UInt32) (p : Nat) (e : NodeBlockCacheEntry β) : Prop where
  lookup : c.lookup nid = some p
  entry : c.entry p = some e

def parentOf (nid : UInt32) : Option UInt32 :=
  (c.lookup nid).bind (fun p => (c.entry p).map NodeBlockCacheEntry.parentNid)

def children (nid : UInt32) : Nat := c.keys.countP (fun k => nid ≠ invalidNid ∧ c.parentOf k = some nid)

def bump (ext : Nat → Nat) (p : Nat) : Nat → Nat := Function.update ext p (ext p + 1)

-- ext counts the references to an entry that are not those of its cached children
structure Counted (ext : Nat → Nat) : Prop where
  indexed : ∀ {nid p}, c.lookup nid = some p → ∃ e, c.entry p = some e ∧ e.nid = nid
  counted : ∀ {nid p e}, c.Has nid p e → e.refCount = ext p + c.children nid
  pinned : ∀ {nid p e}, c.Has nid p e → (nid ∈ c.pinned ↔ e.refCount ≠ 0)
  parent : ∀ {nid p e}, c.Has nid p e → e.parentNid ≠ invalidNid → c.lookup e.parentNid ≠ none
  held : ∀ {p}, ext p ≠ 0 → ∃ e, c.Has e.nid p e
  size : c.curSize = c.keys.length

structure Alike (c' : NodeBlockCache β) : Prop where
  lookup : ∀ k, c'.lookup k = c.lookup k
  keys : c'.keys.Perm c.keys
  size : c'.curSize = c.curSize

section Basic
variable {c} {c' : NodeBlockCache β} {ext ext' : Nat → Nat} {nid k : UInt32} {p q : Nat}
  {e e' : NodeBlockCacheEntry β}

theorem mem_keys : k ∈ c.keys ↔ c.lookup k ≠ none := (c.cacheManager.sync k).symm

theorem Has.eq (h : c.Has nid p e) (h' : c.Has nid q e') : p = q ∧ e = e' := by
  obtain rfl := Option.some.inj (h.lookup.symm.trans h'.lookup)
  exact ⟨rfl,Option.some.inj (h.entry.symm.trans h'.entry)⟩

theorem Has.parentOf (h : c.Has nid p e) : c.parentOf nid = some e.parentNid := by
  rw [NodeBlockCache.parentOf,h.lookup,Option.bind_some,h.entry]
  rfl

theorem Counted.nid_eq (h : c.Counted ext) (hh : c.Has nid p e) : e.nid = nid := by
  obtain ⟨e',he,hn⟩ := h.indexed hh.lookup
  rw [hh.entry] at he
  cases he
  exact hn

theorem Counted.has (h : c.Counted ext) (hl : c.lookup nid = some p) : ∃ e, c.Has nid p e := by
  obtain ⟨e,he,_⟩ := h.indexed hl
  exact ⟨e,hl,he⟩

theorem Counted.inj (h : c.Counted ext) (hh : c.Has nid p e) (hk : c.lookup k = some p) : k = nid := by
  obtain ⟨e',hh'⟩ := h.has hk
  have he := Option.some.inj (hh.entry.symm.trans hh'.entry)
  subst he
  exact (h.nid_eq hh').symm.trans (h.nid_eq hh)

theorem bump_self : bump ext p p = ext p + 1 := Function.update_self ..

theorem bump_ne (h : q ≠ p) : bump ext p q = ext q := Function.update_of_ne h ..

theorem entry_modify (f : NodeBlockCacheEntry β → NodeBlockCacheEntry β) (p q : Nat) :
    (c.modify p f).entry q = if q = p then (c.entry q).map f else c.entry q := by
  unfold modify entry
  rw [List.getElem?_modify]
  by_cases h : p = q
  · simp [h]
  · simp [h,Ne.symm h]

theorem Alike.refl (c : NodeBlockCache β) : c.Alike c := ⟨fun _ => rfl,.refl _,rfl⟩

theorem Counted.change (h : c.Counted ext) (ha : c.Alike c')
    (he : ∀ q e, c.entry q = some e → ∃ e', c'.entry q = some e' ∧ e'.nid = e.nid ∧ e'.parentNid = e.parentNid)
    (hc : ∀ {nid p e e'}, c.Has nid p e → c'.entry p = some e' →
      e'.refCount + ext p = e.refCount + ext' p ∧ (nid ∈ c'.pinned ↔ e'.refCount ≠ 0))
    (hh : ∀ {p}, ext' p ≠ 0 → ∃ e, c.Has e.nid p e) : c'.Counted ext' := by
  have hback : ∀ {nid p e'}, c'.Has nid p e' → ∃ e, c.Has nid p e ∧ e'.parentNid = e.parentNid := by
    intro nid p e' hh'
    obtain ⟨e,hh⟩ := h.has ((ha.lookup nid).symm.trans hh'.lookup)
    obtain ⟨e'',he'',_,hp⟩ := he p e hh.entry
    obtain rfl := Option.some.inj (hh'.entry.symm.trans he'')
    exact ⟨e,hh,hp⟩
  have hchildren : ∀ nid, c'.children nid = c.children nid := by
    have hpar : ∀ k, c'.parentOf k = c.parentOf k := by
      intro k
      cases hlk : c.lookup k with
      | none => rw [NodeBlockCache.parentOf,NodeBlockCache.parentOf,ha.lookup,hlk]; rfl
      | some p =>
        obtain ⟨e,hhas⟩ := h.has hlk
        obtain ⟨e',he',_,hp⟩ := he p e hhas.entry
        have hhas' : c'.Has k p e' := ⟨(ha.lookup k).trans hlk,he'⟩
        rw [hhas'.parentOf,hhas.parentOf,hp]
    intro nid
    unfold children
    simp only [hpar]
    exact ha.keys.countP_eq _
  refine ⟨fun hlk => ?_,fun hh' => ?_,fun hh' => ?_,fun hh' hpar => ?_,fun hx => ?_,?_⟩
  · obtain ⟨e,hhas⟩ := h.has ((ha.lookup _).symm.trans hlk)
    obtain ⟨e',he',hn,_⟩ := he _ e hhas.entry
    exact ⟨e',he',hn.trans (h.nid_eq hhas)⟩
  · obtain ⟨e,hhas,_⟩ := hback hh'
    have h1 := (hc hhas hh'.entry).1
    have h2 := h.counted hhas
    rw [hchildren]
    omega
  · obtain ⟨e,hhas,_⟩ := hback hh'
    exact (hc hhas hh'.entry).2
  · obtain ⟨e,hhas,hp⟩ := hback hh'
    rw [hp] at hpar ⊢
    rw [ha.lookup]
    exact h.parent hhas hpar
  · obtain ⟨e,hhas⟩ := hh hx
    obtain ⟨e',he',hn,_⟩ := he _ e hhas.entry
    exact ⟨e',hn ▸ ⟨(ha.lookup _).trans hhas.lookup,he'⟩⟩
  · rw [ha.size,h.size]
    exact ha.keys.length_eq.symm

theorem Counted.changeAt (h : c.Counted ext) (ha : c.Alike c') (hh : c.Has nid p e)
    (he : ∀ q, c'.entry q = if q = p then some e' else c.entry q) (hn : e'.nid = e.nid)
    (hp : e'.parentNid = e.parentNid) (hcount : e'.refCount + ext p = e.refCount + ext' p)
    (hext : ∀ q ≠ p, ext' q = ext q) (hself : nid ∈ c'.pinned ↔ e'.refCount ≠ 0)
    (hpin : ∀ k ≠ nid, k ∈ c'.pinned ↔ k ∈ c.pinned) : c'.Counted ext' := by
  refine h.change ha ?_ ?_ ?_
  · intro q eq hq
    rw [he]
    by_cases hqp : q = p
    · subst hqp
      rw [if_pos rfl]
      obtain rfl := Option.some.inj (hh.entry.symm.trans hq)
      exact ⟨e',rfl,hn,hp⟩
    · rw [if_neg hqp]
      exact ⟨eq,hq,rfl,rfl⟩
  · intro k q eq eq' hk hq
    rw [he] at hq
    by_cases hqp : q = p
    · subst hqp
      rw [if_pos rfl] at hq
      cases hq
      have hkn := h.inj hh hk.lookup
      subst hkn
      obtain rfl := (hk.eq hh).2
      exact ⟨hcount,hself⟩
    · rw [if_neg hqp,hk.entry] at hq
      cases hq
      have hkn : k ≠ nid := by
        rintro rfl
        exact hqp (hk.eq hh).1
      rw [hext q hqp,hpin k hkn,h.pinned hk]
      exact ⟨rfl,.rfl⟩
  · intro q hq
    by_cases hqp : q = p
    · subst hqp
      exact ⟨e,(h.nid_eq hh).symm ▸ hh⟩
    · rw [hext q hqp] at hq
      exact h.held hq

theorem modify_entry (h : c.entry p = some e) (f : NodeBlockCacheEntry β → NodeBlockCacheEntry β) (q : Nat) :
    (c.modify p f).entry q = if q = p then some (f e) else c.entry q := by
  rw [entry_modify]
  by_cases hq : q = p
  · simp [hq,h]
  · simp [hq]

theorem addRefCount_entry (h : c.entry p = some e) (q : Nat) : (c.addRefCount p).entry q =
    if q = p then some { e with refCount := e.refCount + 1 } else c.entry q := by
  have hm := modify_entry h (fun e => { e with refCount := e.refCount + 1 }) q
  unfold addRefCount
  rw [h]
  simp only
  split <;> exact hm

theorem addRefCount_alike (c : NodeBlockCache β) (p : Nat) : c.Alike (c.addRefCount p) := by
  unfold addRefCount
  split
  · exact .refl c
  · simp only
    split
    · exact ⟨fun _ => rfl,CacheLruReplacer.pin_keys _,rfl⟩
    · exact ⟨fun _ => rfl,.refl _,rfl⟩

theorem addRefCount_pinned (h : c.Counted ext) (hh : c.Has nid p e) (k : UInt32) :
    k ∈ (c.addRefCount p).pinned ↔ k ∈ c.pinned ∨ k = nid := by
  have hn := h.nid_eq hh
  have hkey : nid ∈ c.keys := mem_keys.mpr (by simp [hh.lookup])
  have hpin := h.pinned hh
  unfold addRefCount
  rw [hh.entry]
  simp only
  split
  · rename_i hz
    have hnot : nid ∉ c.pinned := fun hin => hpin.mp hin (by omega)
    have hlru : nid ∈ c.cacheManager.replacer.lru := by
      rcases List.mem_append.mp hkey with hl | hp
      · exact hl
      · exact absurd hp hnot
    change k ∈ (c.cacheManager.replacer.pin e.nid).pinned ↔ _
    rw [hn,CacheLruReplacer.mem_pin_pinned]
    simp [hlru,pinned]
  · rename_i hz
    refine ⟨Or.inl,fun hk => ?_⟩
    rcases hk with hk | rfl
    · exact hk
    · exact hpin.mpr (by omega)

theorem addRefCount_counted (h : c.Counted ext) (hh : c.Has nid p e) :
    (c.addRefCount p).Counted (bump ext p) := by
  refine h.changeAt (addRefCount_alike c p) hh (addRefCount_entry hh.entry) rfl rfl ?_
    (fun q hq => bump_ne hq) ?_ (fun k hk => ?_)
  · rw [bump_self]
    simp only
    omega
  · rw [addRefCount_pinned h hh]
    simp
  · rw [addRefCount_pinned h hh]
    simp [hk]

theorem released_entry (h : c.entry p = some e) (q : Nat) : (c.released p e).entry q =
    if q = p then some { e with refCount := e.refCount - 1 } else c.entry q := by
  have hm := modify_entry h (fun e => { e with refCount := e.refCount - 1 }) q
  unfold released
  simp only
  split <;> exact hm

theorem released_alike (c : NodeBlockCache β) (p : Nat) (e : NodeBlockCacheEntry β) :
    c.Alike (c.released p e) := by
  unfold released
  simp only
  split
  · exact ⟨fun _ => rfl,.refl _,rfl⟩
  · exact ⟨fun _ => rfl,CacheLruReplacer.unpin_keys _,rfl⟩

theorem released_pinned (h : c.Counted ext) (hh : c.Has nid p e) (k : UInt32) :
    k ∈ (c.released p e).pinned ↔ k ∈ c.pinned ∧ (e.refCount = 1 → k ≠ nid) := by
  unfold released
  simp only
  split
  · rename_i hr
    simp [hr,modify,pinned]
  · rename_i hr
    have hr1 : e.refCount = 1 := not_not.mp hr
    change k ∈ (c.cacheManager.replacer.unpin e.nid).pinned ↔ _
    rw [h.nid_eq hh,CacheLruReplacer.mem_unpin_pinned]
    simp [hr1,pinned]

theorem released_counted (h : c.Counted (bump ext p)) (hh : c.Has nid p e) :
    (c.released p e).Counted ext := by
  have hcount := h.counted hh
  rw [bump_self] at hcount
  refine h.changeAt (released_alike c p e) hh (released_entry hh.entry) rfl rfl ?_
    (fun q hq => (bump_ne hq).symm) ?_ (fun k hk => ?_)
  · rw [bump_self]
    simp only
    omega
  · rw [released_pinned h hh,h.pinned hh]
    simp only
    constructor
    · rintro ⟨h1,h2⟩ h3
      exact h2 (by omega) rfl
    · exact fun h1 => ⟨by omega,fun h2 => absurd h2 (by omega)⟩
  · rw [released_pinned h hh]
    simp [hk]

theorem deleteNode_entry (h : c.entry p = some e) (q : Nat) : (c.deleteNode p).entry q =
    if q = p then some { e with state := .deleted } else c.entry q := by
  have hm := modify_entry h (fun e => { e with state := .deleted }) q
  unfold deleteNode
  rw [h]
  exact hm

theorem deleteNode_cacheManager (c : NodeBlockCache β) (p : Nat) :
    (c.deleteNode p).cacheManager = c.cacheManager ∧ (c.deleteNode p).curSize = c.curSize := by
  unfold deleteNode
  split
  · exact ⟨rfl,rfl⟩
  · exact ⟨rfl,rfl⟩

theorem deleteNode_alike (c : NodeBlockCache β) (p : Nat) : c.Alike (c.deleteNode p) := by
  obtain ⟨hm,hs⟩ := deleteNode_cacheManager c p
  refine ⟨fun k => ?_,?_,hs⟩
  · rw [lookup,hm]
    rfl
  · rw [keys,hm]
    exact .refl _

theorem deleteNode_counted (h : c.Counted ext) (hh : c.Has nid p e) : (c.deleteNode p).Counted ext := by
  have hpin : (c.deleteNode p).pinned = c.pinned := by
    rw [pinned,(deleteNode_cacheManager c p).1]
    rfl
  have hself : nid ∈ c.pinned ↔ e.refCount ≠ 0 := h.pinned hh
  refine h.changeAt (deleteNode_alike c p) hh (deleteNode_entry hh.entry) rfl rfl rfl (fun _ _ => rfl) ?_ ?_
  · rw [hpin]
    exact hself
  · intro k _
    rw [hpin]

-- what an entry leaves behind when it goes: the reference it held on its parent
def orphaned (c : NodeBlockCache β) (ext : Nat → Nat) (parentNid : UInt32) : Nat → Nat :=
  if parentNid = invalidNid then ext
  else
    match c.lookup parentNid with
    | none => ext
    | some q => bump ext q

structure Dropped (c : NodeBlockCache β) (nid : UInt32) (c' : NodeBlockCache β) : Prop where
  lookup : ∀ k, c'.lookup k = if k = nid then none else c.lookup k
  has : ∀ {k q e}, c'.Has k q e ↔ k ≠ nid ∧ c.Has k q e
  keys : c.keys.Perm (nid :: c'.keys)
  pinned : ∀ k ≠ nid, k ∈ c'.pinned ↔ k ∈ c.pinned
  size : c'.curSize = c.curSize - 1

theorem Dropped.parentOf (hd : Dropped c nid c') (hk : k ≠ nid) : c'.parentOf k = c.parentOf k := by
  have hl := hd.lookup k
  rw [if_neg hk] at hl
  cases hlk : c.lookup k with
  | none => rw [NodeBlockCache.parentOf,NodeBlockCache.parentOf,hl,hlk]; rfl
  | some q =>
    rw [hlk] at hl
    cases he : c.entry q with
    | some e =>
      have hhas : c.Has k q e := ⟨hlk,he⟩
      rw [hhas.parentOf,(hd.has.mpr ⟨hk,hhas⟩).parentOf]
    | none =>
      cases he' : c'.entry q with
      | none => rw [NodeBlockCache.parentOf,NodeBlockCache.parentOf,hl,hlk,Option.bind_some,Option.bind_some,he,he']
      | some e' =>
        have hhas := (hd.has.mp ⟨hl,he'⟩).2
        rw [hhas.entry] at he
        cases he

theorem Dropped.children (hd : Dropped c nid c') (h : c.Has nid p e) (k : UInt32) :
    c.children k = c'.children k + if k ≠ invalidNid ∧ e.parentNid = k then 1 else 0 := by
  have hnot : nid ∉ c'.keys := fun hin => mem_keys.mp hin (by rw [hd.lookup,if_pos rfl])
  unfold NodeBlockCache.children
  rw [hd.keys.countP_eq,List.countP_cons]
  congr 1
  · apply List.countP_congr
    intro x hx
    have hne : x ≠ nid := fun he => hnot (he ▸ hx)
    rw [hd.parentOf hne]
  · rw [h.parentOf]
    simp

theorem Counted.drop (h : c.Counted ext) (hh : c.Has nid p e) (hz : e.refCount = 0)
    (hd : Dropped c nid c') : c'.Counted (c'.orphaned ext e.parentNid) ∧
      (e.parentNid ≠ invalidNid → c'.lookup e.parentNid ≠ none) := by
  have hcount := h.counted hh
  have hext : ext p = 0 := by omega
  have hnochild : c.children nid = 0 := by omega
  have horph {x : UInt32} {y : Nat} {ex : NodeBlockCacheEntry β} (hx : c.Has x y ex)
      (hp : ex.parentNid ≠ invalidNid) : ex.parentNid ≠ nid := by
    intro he
    unfold NodeBlockCache.children at hnochild
    rw [List.countP_eq_zero] at hnochild
    refine hnochild x (mem_keys.mpr (by simp [hx.lookup])) ?_
    rw [hx.parentOf,he]
    simp [he ▸ hp]
  have hlook {x : UInt32} {y : Nat} {ex : NodeBlockCacheEntry β} (hx : c.Has x y ex)
      (hp : ex.parentNid ≠ invalidNid) : c'.lookup ex.parentNid ≠ none := by
    rw [hd.lookup,if_neg (horph hx hp)]
    exact h.parent hx hp
  have hval {x : UInt32} {y : Nat} {ex : NodeBlockCacheEntry β} (hx : c'.Has x y ex) :
      c'.orphaned ext e.parentNid y = ext y + if x ≠ invalidNid ∧ e.parentNid = x then 1 else 0 := by
    unfold orphaned
    split
    · rename_i hp
      rw [if_neg (fun hc => hc.1 (hc.2.symm.trans hp))]
      rfl
    · rename_i hp
      cases hq : c'.lookup e.parentNid with
      | none => exact absurd hq (hlook hh hp)
      | some q =>
        simp only
        by_cases hxp : e.parentNid = x
        · subst hxp
          obtain rfl := Option.some.inj (hq.symm.trans hx.lookup)
          rw [bump_self,if_pos ⟨hp,rfl⟩]
        · rw [if_neg (fun hc => hxp hc.2),bump_ne]
          · rfl
          · rintro rfl
            have h1 := (hd.has.mp hx).2
            have h2 := (hd.has.mp ⟨hq,hx.entry⟩).2
            exact hxp (h.inj h1 h2.lookup)
  refine ⟨⟨fun hl => ?_,fun hx => ?_,fun hx => ?_,fun hx hp => ?_,fun hq => ?_,?_⟩,hlook hh⟩
  · rw [hd.lookup] at hl
    split at hl
    · cases hl
    · rename_i hk
      obtain ⟨e',he'⟩ := h.has hl
      exact ⟨e',(hd.has.mpr ⟨hk,he'⟩).entry,h.nid_eq he'⟩
  · rw [hval hx,h.counted (hd.has.mp hx).2,hd.children hh]
    omega
  · obtain ⟨hne,hx'⟩ := hd.has.mp hx
    rw [hd.pinned _ hne]
    exact h.pinned hx'
  · exact hlook (hd.has.mp hx).2 hp
  · rename_i q
    have hold : ext q ≠ 0 → ∃ e, c'.Has e.nid q e := fun hq => by
      obtain ⟨eq,hx⟩ := h.held hq
      refine ⟨eq,hd.has.mpr ⟨?_,hx⟩⟩
      intro he
      rw [he] at hx
      obtain rfl := (hx.eq hh).1
      exact hq hext
    unfold orphaned at hq
    split at hq
    · exact hold hq
    · cases hl : c'.lookup e.parentNid with
      | none =>
        rw [hl] at hq
        exact hold hq
      | some q' =>
        rw [hl] at hq
        simp only at hq
        by_cases hqq : q = q'
        · subst hqq
          have hl' := hl
          rw [hd.lookup] at hl'
          split at hl'
          · cases hl'
          · rename_i hk
            obtain ⟨eq,hx⟩ := h.has hl'
            have hn := h.nid_eq hx
            exact ⟨eq,hn ▸ hd.has.mpr ⟨hk,hx⟩⟩
        · rw [bump_ne hqq] at hq
          exact hold hq
  · rw [hd.size,h.size,hd.keys.length_eq]
    rfl

theorem has_dropped (hl : ∀ k, c'.lookup k = if k = nid then none else c.lookup k)
    (he : ∀ q, c'.entry q = c.entry q) {q : Nat} {e : NodeBlockCacheEntry β} :
    c'.Has k q e ↔ k ≠ nid ∧ c.Has k q e := by
  constructor
  · rintro ⟨h1,h2⟩
    rw [hl] at h1
    rw [he] at h2
    split at h1
    · cases h1
    · rename_i hk
      exact ⟨hk,h1,h2⟩
  · rintro ⟨hk,h1,h2⟩
    exact ⟨by rw [hl,if_neg hk,h1],(he q).trans h2⟩

theorem dropped_replaceOne {m : GenericCacheManager Nat}
    (h : c.cacheManager.replaceOne = some (nid,p,m)) :
    c.lookup nid = some p ∧ Dropped c nid (c.without m) := by
  obtain ⟨hi,hm,hl,hp⟩ := GenericCacheManager.replaceOne_spec h
  have hlook (k : UInt32) : (c.without m).lookup k =
      if k = nid then none else c.lookup k := by
    change m.index k = _
    rw [hm,Function.update_apply]
    rfl
  refine ⟨hi,hlook,has_dropped hlook (fun _ => rfl),?_,fun k _ => ?_,rfl⟩
  · rw [keys,GenericCacheManager.replaceOne_keys h]
    exact .refl _
  · change k ∈ m.replacer.pinned ↔ _
    rw [hp]
    rfl

theorem dropped_remove (h : c.lookup nid = some p) :
    Dropped c nid (c.without (c.cacheManager.remove nid)) := by
  have hkeys (k : UInt32) : k ∈ (c.cacheManager.replacer.remove nid).keys ↔ k ∈ c.keys ∧ k ≠ nid :=
    CacheLruReplacer.mem_remove_keys nid k
  have hlook (k : UInt32) : (c.without (c.cacheManager.remove nid)).lookup k =
      if k = nid then none else c.lookup k := by
    change Function.update c.cacheManager.index nid none k = _
    rw [Function.update_apply]
    rfl
  refine ⟨hlook,has_dropped hlook (fun _ => rfl),?_,fun k hk => ?_,rfl⟩
  · have hin : nid ∈ c.keys := mem_keys.mpr (by simp [h])
    have hnot : nid ∉ (c.cacheManager.replacer.remove nid).keys := fun hc => ((hkeys nid).mp hc).2 rfl
    refine (List.perm_ext_iff_of_nodup c.cacheManager.replacer.keys_nodup
      (List.nodup_cons.mpr ⟨hnot,CacheLruReplacer.keys_nodup⟩)).mpr (fun k => ?_)
    rw [List.mem_cons,hkeys]
    refine ⟨fun hk => ?_,?_⟩
    · by_cases hkn : k = nid
      · exact Or.inl hkn
      · exact Or.inr ⟨hk,hkn⟩
    · rintro (rfl | hk)
      · exact hin
      · exact hk.1
  · change k ∈ c.cacheManager.replacer.pinned.erase nid ↔ _
    exact List.mem_erase_of_ne hk

theorem orphaned_self (parentNid : UInt32) (hp : parentNid ≠ invalidNid) (hl : c.lookup parentNid = some q) :
    c.orphaned ext parentNid = bump ext q := by
  rw [orphaned,if_neg hp,hl]

theorem le_orphaned (c : NodeBlockCache β) (ext : Nat → Nat) (parentNid : UInt32) (q : Nat) :
    ext q ≤ c.orphaned ext parentNid q := by
  unfold orphaned
  split
  · exact le_rfl
  · cases c.lookup parentNid with
    | none => exact le_rfl
    | some y =>
      simp only
      by_cases hq : q = y
      · rw [hq,bump_self]
        exact Nat.le_succ _
      · rw [bump_ne hq]

theorem Has.lt (hh : c.Has nid p e) : p < c.entries.length :=
  (List.getElem?_eq_some_iff.mp hh.entry).1

theorem Counted.insert (h : c.Counted (c.orphaned ext e.parentNid)) (hz : e.refCount = 0)
    (hp : e.parentNid ≠ invalidNid → c.lookup e.parentNid ≠ none) (hn : c.lookup e.nid = none)
    (hd : Dropped c' e.nid c) (hh : c'.Has e.nid c.entries.length e)
    (hpin : e.nid ∉ c'.pinned) (hsize : c'.curSize = c.curSize + 1) : c'.Counted ext := by
  have hext : ext c.entries.length = 0 := by
    by_contra hx
    have hx' : c.orphaned ext e.parentNid c.entries.length ≠ 0 := by
      have := le_orphaned c ext e.parentNid c.entries.length
      omega
    obtain ⟨y,hy⟩ := h.held hx'
    exact Nat.lt_irrefl _ hy.lt
  have hparent {x : UInt32} {y : Nat} {ex : NodeBlockCacheEntry β} (hx : c'.Has x y ex)
      (hpar : ex.parentNid ≠ invalidNid) : c.lookup ex.parentNid ≠ none := by
    by_cases hxn : x = e.nid
    · subst hxn
      obtain rfl := (hx.eq hh).2
      exact hp hpar
    · exact h.parent (hd.has.mpr ⟨hxn,hx⟩) hpar
  have hlook {x : UInt32} (hx : c.lookup x ≠ none) : c'.lookup x = c.lookup x := by
    have hl := hd.lookup x
    split at hl
    · exact absurd hl hx
    · exact hl.symm
  have hchild : c'.children e.nid = 0 := by
    unfold NodeBlockCache.children
    rw [List.countP_eq_zero]
    intro x hx hc
    obtain ⟨hz',hpar⟩ := of_decide_eq_true hc
    rw [NodeBlockCache.parentOf] at hpar
    obtain ⟨y,hy,hpar⟩ := Option.bind_eq_some_iff.mp hpar
    obtain ⟨ex,hex,hpar⟩ := Option.map_eq_some_iff.mp hpar
    exact hparent ⟨hy,hex⟩ (hpar ▸ hz') (hpar ▸ hn)
  refine ⟨fun hl => ?_,fun hx => ?_,fun hx => ?_,fun hx hpar => ?_,fun hx => ?_,?_⟩
  · rename_i x y
    by_cases hxn : x = e.nid
    · subst hxn
      obtain rfl := Option.some.inj (hh.lookup.symm.trans hl)
      exact ⟨e,hh.entry,rfl⟩
    · have hl' := hd.lookup x
      rw [if_neg hxn,hl] at hl'
      obtain ⟨ex,hex⟩ := h.has hl'
      exact ⟨ex,(hd.has.mp hex).2.entry,h.nid_eq hex⟩
  · rename_i x y ex
    by_cases hxn : x = e.nid
    · subst hxn
      obtain ⟨rfl,rfl⟩ := hx.eq hh
      omega
    · have hold := hd.has.mpr ⟨hxn,hx⟩
      rw [h.counted hold,hd.children hh x]
      by_cases hpar : e.parentNid = invalidNid
      · rw [orphaned,if_pos hpar,if_neg (fun hc => hc.1 (hc.2.symm.trans hpar))]
        omega
      · obtain ⟨q,hq⟩ := Option.ne_none_iff_exists'.mp (hp hpar)
        rw [orphaned_self e.parentNid hpar hq]
        by_cases hxp : e.parentNid = x
        · subst hxp
          obtain rfl := Option.some.inj (hq.symm.trans hold.lookup)
          rw [bump_self,if_pos ⟨hpar,rfl⟩]
          omega
        · rw [if_neg (fun hc => hxp hc.2),bump_ne]
          · omega
          · rintro rfl
            exact hxp (h.inj hold hq)
  · rename_i x y ex
    by_cases hxn : x = e.nid
    · subst hxn
      obtain ⟨rfl,rfl⟩ := hx.eq hh
      exact iff_of_false hpin (not_not.mpr hz)
    · rw [← hd.pinned x hxn]
      exact h.pinned (hd.has.mpr ⟨hxn,hx⟩)
  · have hc := hparent hx hpar
    rw [hlook hc]
    exact hc
  · rename_i y
    have hx' : c.orphaned ext e.parentNid y ≠ 0 := by
      have := le_orphaned c ext e.parentNid y
      omega
    obtain ⟨ex,hex⟩ := h.held hx'
    exact ⟨ex,(hd.has.mp hex).2⟩
  · rw [hsize,h.size,hd.keys.length_eq]
    rfl

theorem insertEntry_spec (h : c.Counted (c.orphaned ext e.parentNid)) (hz : e.refCount = 0)
    (hp : e.parentNid ≠ invalidNid → c.lookup e.parentNid ≠ none)
    (hs : insertEntry c e = some c') : ∃ c1, c1.Counted ext ∧ c1.Has e.nid c.entries.length e ∧
      Dropped c1 e.nid c ∧ c1.entries = c.entries ++ [e] ∧ c' = c1.addRefCount c.entries.length := by
  unfold insertEntry at hs
  split at hs
  · rename_i hn
    cases hs
    have hnot : e.nid ∉ c.keys := GenericCacheManager.notMem_of_none hn
    have hlook (k : UInt32) : (c.cacheManager.add e.nid c.entries.length hn).index k =
        if k = e.nid then some c.entries.length else c.lookup k := by
      change Function.update c.cacheManager.index e.nid _ k = _
      rw [Function.update_apply]
      rfl
    have hh : Has { c with
        cacheManager := c.cacheManager.add e.nid c.entries.length hn
        entries := c.entries ++ [e]
        curSize := c.curSize + 1 } e.nid c.entries.length e :=
      ⟨(hlook e.nid).trans (if_pos rfl),List.getElem?_concat_length⟩
    have hd : Dropped { c with
        cacheManager := c.cacheManager.add e.nid c.entries.length hn
        entries := c.entries ++ [e]
        curSize := c.curSize + 1 } e.nid c := by
      refine ⟨fun k => ?_,fun {k q ex} => ⟨?_,?_⟩,CacheLruReplacer.add_keys hnot,fun k _ => .rfl,rfl⟩
      · split
        · rename_i hk
          rw [hk]
          exact hn
        · rename_i hk
          exact ((hlook k).trans (if_neg hk)).symm
      · intro hx
        have hk : k ≠ e.nid := by
          rintro rfl
          exact Option.some_ne_none q (hx.lookup.symm.trans hn)
        exact ⟨hk,(hlook k).trans ((if_neg hk).trans hx.lookup),
          (List.getElem?_append_left hx.lt).trans hx.entry⟩
      · rintro ⟨hk,hx⟩
        have hl : c.lookup k = some q := ((hlook k).trans (if_neg hk)).symm.trans hx.lookup
        obtain ⟨ey,hy⟩ := h.has hl
        exact ⟨hl,(List.getElem?_append_left hy.lt).symm.trans hx.entry⟩
    refine ⟨_,?_,hh,hd,rfl,rfl⟩
    exact h.insert hz hp hn hd hh (fun hin => hnot (List.mem_append_right _ hin)) rfl
  · cases hs

end Basic

end NodeBlockCache

end Rtfs
