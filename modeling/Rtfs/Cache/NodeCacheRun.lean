import Rtfs.Cache.NodeRefs
import Rtfs.Fs.MetaImage
import Rtfs.Lib.Outcome

namespace Rtfs

namespace NodeCacheRun

open NodeBlockCache

-- assertion: one of the node cache fails; release: giving back the nid or the block of a
-- deleted node does not return; running: the recursion or the loop does not end
inductive Halt
  | assertion
  | release
  | running

variable {β : Type}

section Model

-- refCount is a uint32_t
def nodeBlockCacheAddRefCount (c : NodeBlockCache β) (p : Nat) : NodeBlockCache β :=
  match c.entry p with
  | none => c
  | some e =>
    let c' := c.modify p (fun e => { e with refCount := (e.refCount + 1) % 2 ^ 32 })
    if (e.refCount + 1) % 2 ^ 32 = 1 then c'.pin e.nid else c'

def decRefCount (c : NodeBlockCache β) (p : Nat) (e : NodeBlockCacheEntry β) : NodeBlockCache β :=
  let c' := c.modify p (fun e => { e with refCount := (e.refCount + (2 ^ 32 - 1)) % 2 ^ 32 })
  if (e.refCount + (2 ^ 32 - 1)) % 2 ^ 32 ≠ 0 then c' else c'.unpin e.nid

def nodeBlockCacheSubRefCount : Nat → FileSystemManager β → Nat → Except Halt (FileSystemManager β)
  | 0,_,_ => .error .running
  | n + 1,s,p =>
    match s.nodeCache.entry p with
    | none => .error .assertion
    | some e =>
      let s := s.onCache (decRefCount s.nodeCache p e)
      if (e.refCount + (2 ^ 32 - 1)) % 2 ^ 32 ≠ 0 ∨ e.state ≠ .deleted then .ok s
      else
        match dropDeleted s e with
        | none => .error .release
        | some s =>
          if e.parentNid = invalidNid then .ok s
          else
            match s.nodeCache.lookup e.parentNid with
            | none => .error .assertion
            | some q => nodeBlockCacheSubRefCount n s q

def subRefCount (s : FileSystemManager β) (p : Nat) : Except Halt (FileSystemManager β) :=
  nodeBlockCacheSubRefCount (s.nodeCache.keys.length + 1) s p

def subParentRef (s : FileSystemManager β) (parentNid : UInt32) : Except Halt (FileSystemManager β) :=
  if parentNid = invalidNid then .ok s
  else
    match s.nodeCache.lookup parentNid with
    | none => .error .assertion
    | some q => subRefCount s q

def replaceWhile : Nat → FileSystemManager β → Except Halt (FileSystemManager β)
  | 0,_ => .error .running
  | n + 1,s =>
    match s.nodeCache.cacheManager.replaceOne with
    | none => .ok s
    | some (_,p,m) =>
      match s.nodeCache.entry p with
      | none => .error .assertion
      | some e =>
        if e.refCount ≠ 0 then .error .assertion
        else (subParentRef (s.onCache (s.nodeCache.without m)) e.parentNid).bind (fun s =>
          if s.nodeCache.curSize ≤ s.nodeCache.expectSize then .ok s else replaceWhile n s)

def nodeBlockCacheDoReplace (s : FileSystemManager β) : Except Halt (FileSystemManager β) :=
  if s.nodeCache.curSize ≤ s.nodeCache.expectSize then .ok s
  else replaceWhile (s.nodeCache.keys.length + 1) s

def refParent (c : NodeBlockCache β) (parentNid : UInt32) : Except Halt (NodeBlockCache β) :=
  if parentNid = invalidNid then .ok c
  else
    match c.lookup parentNid with
    | none => .error .assertion
    | some q => .ok (nodeBlockCacheAddRefCount c q)

def addToManager (c : NodeBlockCache β) (e : NodeBlockCacheEntry β) : Except Halt (NodeBlockCache β) :=
  if h : c.cacheManager.index e.nid = none then
    .ok (nodeBlockCacheAddRefCount { c with
      cacheManager := c.cacheManager.add e.nid c.entries.length h
      entries := c.entries ++ [e]
      curSize := c.curSize + 1 } c.entries.length)
  else .error .assertion

def nodeBlockCacheAdd (s : FileSystemManager β) (buffer : β) (nid parentNid lpa : UInt32) :
    Except Halt (FileSystemManager β) :=
  if s.nodeCache.lookup nid ≠ none then .error .assertion
  else (refParent s.nodeCache parentNid).bind (fun c =>
    (addToManager c (nodeBlockCacheEntryInit buffer nid parentNid lpa)).bind (fun c =>
      nodeBlockCacheDoReplace (s.onCache c)))

def nodeBlockCacheGet (c : NodeBlockCache β) (nid : UInt32) : Option Nat × NodeBlockCache β :=
  match c.lookup nid with
  | none => (none,c)
  | some p => (some p,nodeBlockCacheAddRefCount { c with cacheManager := c.cacheManager.access nid } p)

end Model

section Ops

-- the live handles and the host versions that no SSD version has matched, by entry
structure Run (β : Type) where
  fs : FileSystemManager β
  handles : Nat → Nat
  hosts : Nat → Nat

inductive CacheOp (β : Type)
  | add (buffer : β) (nid parentNid lpa : UInt32)
  | get (nid : UInt32)
  | copy (p : Nat)
  | destroy (p : Nat)
  | addHostVersion (p : Nat)
  | addSsdVersion (p : Nat)
  | deleteNode (p : Nat)
  | replace

def less (f : Nat → Nat) (p : Nat) : Nat → Nat := Function.update f p (f p - 1)

variable (s : Run β)

def Run.cache : NodeBlockCache β := s.fs.nodeCache

def perform : CacheOp β → Except Halt (Run β)
  | .add buffer nid parentNid lpa => (nodeBlockCacheAdd s.fs buffer nid parentNid lpa).map (fun fs =>
      { s with fs := fs,handles := bump s.handles s.cache.entries.length })
  | .get nid =>
    let fs := s.fs.onCache (nodeBlockCacheGet s.cache nid).2
    match (nodeBlockCacheGet s.cache nid).1 with
    | none => .ok { s with fs := fs }
    | some p => .ok { s with fs := fs,handles := bump s.handles p }
  | .copy p => .ok { s with
      fs := s.fs.onCache (nodeBlockCacheAddRefCount s.cache p)
      handles := bump s.handles p }
  | .destroy p => (subRefCount s.fs p).map (fun fs => { s with fs := fs,handles := less s.handles p })
  | .addHostVersion p => .ok { s with
      fs := s.fs.onCache (nodeBlockCacheAddRefCount s.cache p)
      hosts := bump s.hosts p }
  | .addSsdVersion p => (subRefCount s.fs p).map (fun fs => { s with fs := fs,hosts := less s.hosts p })
  | .deleteNode p => .ok { s with fs := s.fs.nodeBlockCacheEntryHandleDeleteNode p }
  | .replace => (nodeBlockCacheDoReplace s.fs).map (fun fs => { s with fs := fs })

def Legal : CacheOp β → Prop
  | .add _ nid parentNid _ => s.cache.lookup nid = none ∧
      (parentNid = invalidNid ∨ s.cache.lookup parentNid ≠ none)
  | .copy p => s.handles p ≠ 0
  | .destroy p => s.handles p ≠ 0
  | .addHostVersion p => s.handles p ≠ 0
  | .addSsdVersion p => s.hosts p ≠ 0
  | .deleteNode p => s.handles p ≠ 0
  | _ => True

def Run.refs (nid : UInt32) (p : Nat) : Nat := s.handles p + s.cache.children nid + s.hosts p

-- an operation that takes a reference finds fewer than 2^32 - 1 of them
def Room : CacheOp β → Prop
  | .add _ _ parentNid _ => parentNid ≠ invalidNid → ∀ p, s.cache.lookup parentNid = some p →
      s.refs parentNid p < 2 ^ 32 - 1
  | .get nid => ∀ p, s.cache.lookup nid = some p → s.refs nid p < 2 ^ 32 - 1
  | .copy p => ∀ nid, s.cache.lookup nid = some p → s.refs nid p < 2 ^ 32 - 1
  | .addHostVersion p => ∀ nid, s.cache.lookup nid = some p → s.refs nid p < 2 ^ 32 - 1
  | _ => True

inductive Reached (room : Run β → CacheOp β → Prop) : Run β → Prop
  | init (fs : FileSystemManager β) (expectSize : Nat) :
      Reached room ⟨fs.onCache (nodeBlockCacheInit expectSize),fun _ => 0,fun _ => 0⟩
  | step {s s' : Run β} (op : CacheOp β) (h : Reached room s) (legal : Legal s op) (hr : room s op)
      (hs : perform s op = .ok s') : Reached room s'

structure Accounted : Prop where
  counted : ∀ nid p e, s.cache.lookup nid = some p → s.cache.entry p = some e → e.refCount = s.refs nid p
  indexed : ∀ nid p, s.cache.lookup nid = some p → ∃ e, s.cache.entry p = some e ∧ e.nid = nid
  parent : ∀ nid p e, s.cache.lookup nid = some p → s.cache.entry p = some e → e.parentNid ≠ invalidNid →
    s.cache.lookup e.parentNid ≠ none
  evictable : ∀ nid p e, s.cache.lookup nid = some p → s.cache.entry p = some e →
    (nid ∈ s.cache.cacheManager.replacer.lru ↔ e.refCount = 0)
  live : ∀ p, s.handles p + s.hosts p ≠ 0 → ∃ nid, s.cache.lookup nid = some p
  size : s.cache.curSize = s.cache.keys.length
  keys : s.cache.keys.Nodup ∧ ∀ nid, nid ∈ s.cache.keys ↔ s.cache.lookup nid ≠ none

end Ops

section Refs
variable {s s' : FileSystemManager β} {c c' : NodeBlockCache β} {ext : Nat → Nat} {p : Nat} {nid : UInt32}
  {e : NodeBlockCacheEntry β}

def Narrow (c : NodeBlockCache β) : Prop := ∀ p e, c.entry p = some e → e.refCount < 2 ^ 32

theorem modify_congr (he : c.entry p = some e) {f g : NodeBlockCacheEntry β → NodeBlockCacheEntry β}
    (h : f e = g e) : c.modify p f = c.modify p g := by
  unfold NodeBlockCache.modify
  congr 1
  refine List.ext_getElem? (fun j => ?_)
  rw [List.getElem?_modify,List.getElem?_modify]
  by_cases hj : p = j
  · subst hj
    change c.entries[p]? = some e at he
    simp [he,h]
  · simp [hj]

theorem addRef_eq (hlt : ∀ e, c.entry p = some e → e.refCount + 1 < 2 ^ 32) :
    nodeBlockCacheAddRefCount c p = c.addRefCount p := by
  unfold nodeBlockCacheAddRefCount NodeBlockCache.addRefCount
  cases he : c.entry p with
  | none => rfl
  | some e =>
    have hmod : (e.refCount + 1) % 2 ^ 32 = e.refCount + 1 := Nat.mod_eq_of_lt (hlt e he)
    have hsame : c.modify p (fun e => { e with refCount := (e.refCount + 1) % 2 ^ 32 }) =
        c.modify p (fun e => { e with refCount := e.refCount + 1 }) := modify_congr he (by rw [hmod])
    simp only [hmod,hsame]

theorem decRef_pred (hpos : e.refCount ≠ 0) (hlt : e.refCount < 2 ^ 32) :
    (e.refCount + (2 ^ 32 - 1)) % 2 ^ 32 = e.refCount - 1 := by
  omega

theorem decRef_eq (he : c.entry p = some e) (hpos : e.refCount ≠ 0) (hlt : e.refCount < 2 ^ 32) :
    decRefCount c p e = c.released p e := by
  have hpred := decRef_pred hpos hlt
  have hsame : c.modify p (fun e => { e with refCount := (e.refCount + (2 ^ 32 - 1)) % 2 ^ 32 }) =
      c.modify p (fun e => { e with refCount := e.refCount - 1 }) := modify_congr he (by rw [hpred])
  have hiff : e.refCount - 1 ≠ 0 ↔ e.refCount ≠ 1 := by omega
  unfold decRefCount NodeBlockCache.released
  simp only [hsame,hpred,hiff]

theorem narrow_changed (h : Narrow c) {f : Nat} (hf : f < 2 ^ 32) {e' : NodeBlockCacheEntry β} (hr : e'.refCount = f)
    (he : ∀ q, c'.entry q = if q = p then some e' else c.entry q) : Narrow c' := by
  intro q x hx
  rw [he] at hx
  split at hx
  · cases hx
    rw [hr]
    exact hf
  · exact h q x hx

-- what a step that gives references back delivers, unless it stops in the release of a node; x is its result with
-- counters that do not wrap
structure Delivers (s : FileSystemManager β) (ext : Nat → Nat) (r : Except Halt (FileSystemManager β))
    (x : Option (FileSystemManager β)) : Prop where
  unbounded : r.toOption = x
  ends : r = .error .release ∨ ∃ s', r = .ok s' ∧ s'.nodeCache.Counted ext ∧ Narrow s'.nodeCache ∧
    s'.nodeCache.keys.length ≤ s.nodeCache.keys.length

theorem Delivers.release (s : FileSystemManager β) (ext : Nat → Nat) : Delivers s ext (.error .release) none :=
  ⟨rfl,.inl rfl⟩

theorem Delivers.ok {fs : FileSystemManager β} (hc : fs.nodeCache.Counted ext) (hw : Narrow fs.nodeCache)
    (hle : fs.nodeCache.keys.length ≤ s.nodeCache.keys.length) : Delivers s ext (.ok fs) (some fs) :=
  ⟨rfl,.inr ⟨fs,rfl,hc,hw,hle⟩⟩

theorem Delivers.fewer {s₁ : FileSystemManager β} {r : Except Halt (FileSystemManager β)} {x : Option (FileSystemManager β)}
    (h : Delivers s₁ ext r x) (hle : s₁.nodeCache.keys.length ≤ s.nodeCache.keys.length) : Delivers s ext r x := by
  refine ⟨h.unbounded,h.ends.imp_right ?_⟩
  rintro ⟨s',hr,hc,hw,hkeys⟩
  exact ⟨s',hr,hc,hw,hkeys.trans hle⟩

theorem dropDeleted_cache (h : dropDeleted s e = some s') :
    s'.nodeCache = s.nodeCache.without (s.nodeCache.cacheManager.remove e.nid) := by
  obtain ⟨m,_,h⟩ := Option.bind_eq_some_iff.mp h
  obtain ⟨m',_,rfl⟩ := Option.map_eq_some_iff.mp h
  rfl

theorem subRefCount_delivers (n : Nat) (h : s.nodeCache.Counted (bump ext p)) (hw : Narrow s.nodeCache)
    (hn : s.nodeCache.keys.length < n) :
    Delivers s ext (nodeBlockCacheSubRefCount n s p) (subRefCountUp n s p) := by
  induction n generalizing s p ext with
  | zero => exact absurd hn (Nat.not_lt_zero _)
  | succ n ih =>
    obtain ⟨e,hh⟩ := h.held (p := p) (by rw [bump_self]; omega)
    have hcount := h.counted hh
    rw [bump_self] at hcount
    have hlt := hw p e hh.entry
    have hpos : e.refCount ≠ 0 := by omega
    have hone : e.refCount ≠ 1 ↔ e.refCount - 1 ≠ 0 := by omega
    have hrel := released_counted h hh
    have hentry := released_entry hh.entry (c := s.nodeCache)
    have hw' : Narrow (s.nodeCache.released p e) := narrow_changed hw (Nat.lt_of_le_of_lt (Nat.sub_le _ 1) hlt) rfl hentry
    have hkeys := (released_alike s.nodeCache p e).keys.length_eq
    have hent : (s.nodeCache.released p e).Has e.nid p { e with refCount := e.refCount - 1 } :=
      ⟨((released_alike s.nodeCache p e).lookup _).trans hh.lookup,(hentry p).trans (if_pos rfl)⟩
    rw [nodeBlockCacheSubRefCount,subRefCountUp,hh.entry]
    simp only [hone]
    rw [decRef_eq hh.entry hpos hlt,decRef_pred hpos hlt]
    by_cases hlast : e.refCount - 1 ≠ 0 ∨ e.state ≠ .deleted
    · rw [if_pos hlast,if_pos hlast]
      exact .ok hrel hw' (Nat.le_of_eq hkeys)
    · rw [if_neg hlast,if_neg hlast]
      have hz : e.refCount - 1 = 0 := not_not.mp (not_or.mp hlast).1
      cases hd : dropDeleted (s.onCache (s.nodeCache.released p e)) e with
      | none => exact .release s ext
      | some s₁ =>
        have hcache : s₁.nodeCache = (s.nodeCache.released p e).without
            ((s.nodeCache.released p e).cacheManager.remove e.nid) := dropDeleted_cache hd
        obtain ⟨hc,hparent⟩ := hrel.drop hent hz (dropped_remove hent.lookup)
        have hlen := (dropped_remove hent.lookup).keys.length_eq
        rw [← hcache] at hc hparent hlen
        rw [List.length_cons] at hlen
        have hw₁ : Narrow s₁.nodeCache := by
          rw [hcache]
          exact hw'
        simp only
        by_cases hp : e.parentNid = invalidNid
        · rw [if_pos hp,if_pos hp]
          rw [orphaned,if_pos hp] at hc
          exact .ok hc hw₁ (by omega)
        · rw [if_neg hp,if_neg hp]
          obtain ⟨q,hq⟩ := Option.ne_none_iff_exists'.mp (hparent hp)
          simp only [hq]
          exact (ih (s := s₁) (orphaned_self e.parentNid hp hq ▸ hc) hw₁ (by omega)).fewer (by omega)

theorem subParentRef_delivers {parentNid : UInt32} (h : s.nodeCache.Counted (s.nodeCache.orphaned ext parentNid))
    (hp : parentNid ≠ invalidNid → s.nodeCache.lookup parentNid ≠ none) (hw : Narrow s.nodeCache) :
    Delivers s ext (subParentRef s parentNid) (dropParentRef s parentNid) := by
  unfold subParentRef dropParentRef
  by_cases hz : parentNid = invalidNid
  · rw [if_pos hz,if_pos hz]
    rw [orphaned,if_pos hz] at h
    exact .ok h hw le_rfl
  · rw [if_neg hz,if_neg hz]
    obtain ⟨q,hq⟩ := Option.ne_none_iff_exists'.mp (hp hz)
    simp only [hq]
    exact subRefCount_delivers _ (orphaned_self parentNid hz hq ▸ h) hw (Nat.lt_succ_self _)

theorem replaceWhile_delivers (n : Nat) (h : s.nodeCache.Counted ext) (hw : Narrow s.nodeCache)
    (hn : s.nodeCache.keys.length < n) : Delivers s ext (replaceWhile n s) (replaceLoop n s) := by
  induction n generalizing s with
  | zero => exact absurd hn (Nat.not_lt_zero _)
  | succ n ih =>
    rw [replaceWhile,replaceLoop]
    cases hr : s.nodeCache.cacheManager.replaceOne with
    | none => exact .ok h hw le_rfl
    | some r =>
      obtain ⟨nid,p,m⟩ := r
      obtain ⟨hl,hd⟩ := dropped_replaceOne hr
      obtain ⟨e,hh⟩ := h.has hl
      obtain ⟨_,_,hlru,_⟩ := GenericCacheManager.replaceOne_spec hr
      -- the victim comes from the list of the unpinned keys
      have hz : e.refCount = 0 := by
        by_contra hne
        have hpin := (h.pinned hh).mpr hne
        exact (List.nodup_append.mp s.nodeCache.cacheManager.replacer.nodup).2.2 nid
          (hlru ▸ List.mem_cons_self) nid hpin rfl
      obtain ⟨hc,hparent⟩ := h.drop hh hz hd
      have hlen := hd.keys.length_eq
      rw [List.length_cons] at hlen
      simp only [hh.entry]
      rw [if_neg (not_not.mpr hz),if_neg (not_not.mpr hz)]
      have hsub := subParentRef_delivers (s := s.onCache (s.nodeCache.without m)) hc hparent hw
      rw [← hsub.unbounded]
      rcases hsub.ends with hr | ⟨s₁,hr,hc₁,hw₁,hle⟩
      · rw [hr]
        exact .release s ext
      · rw [hr]
        change s₁.nodeCache.keys.length ≤ (s.nodeCache.without m).keys.length at hle
        change Delivers s ext (if s₁.nodeCache.curSize ≤ s₁.nodeCache.expectSize then .ok s₁ else replaceWhile n s₁)
          (if s₁.nodeCache.curSize ≤ s₁.nodeCache.expectSize then some s₁ else replaceLoop n s₁)
        by_cases hfit : s₁.nodeCache.curSize ≤ s₁.nodeCache.expectSize
        · rw [if_pos hfit,if_pos hfit]
          exact .ok hc₁ hw₁ (by omega)
        · rw [if_neg hfit,if_neg hfit]
          exact (ih hc₁ hw₁ (by omega)).fewer (by omega)

theorem doReplace_delivers (h : s.nodeCache.Counted ext) (hw : Narrow s.nodeCache) :
    Delivers s ext (nodeBlockCacheDoReplace s) (Rtfs.nodeBlockCacheDoReplace s) := by
  unfold nodeBlockCacheDoReplace Rtfs.nodeBlockCacheDoReplace
  by_cases hfit : s.nodeCache.curSize ≤ s.nodeCache.expectSize
  · rw [if_pos hfit,if_pos hfit]
    exact .ok h hw le_rfl
  · rw [if_neg hfit,if_neg hfit]
    exact replaceWhile_delivers _ h hw (Nat.lt_succ_self _)

end Refs

section Steps
variable {c c' : NodeBlockCache β} {ext : Nat → Nat} {p : Nat} {nid : UInt32} {e : NodeBlockCacheEntry β}

theorem addRef_counted (h : c.Counted ext) (hw : Narrow c) (hh : c.Has nid p e)
    (hroom : ext p + c.children nid < 2 ^ 32 - 1) : (nodeBlockCacheAddRefCount c p).Counted (bump ext p) ∧
      Narrow (nodeBlockCacheAddRefCount c p) ∧ nodeBlockCacheAddRefCount c p = c.addRefCount p := by
  have hlt : e.refCount + 1 < 2 ^ 32 := by
    have := h.counted hh
    omega
  have heq : nodeBlockCacheAddRefCount c p = c.addRefCount p := by
    refine addRef_eq (fun e' he' => ?_)
    obtain rfl := Option.some.inj (hh.entry.symm.trans he')
    exact hlt
  rw [heq]
  exact ⟨addRefCount_counted h hh,narrow_changed hw hlt rfl (addRefCount_entry hh.entry),rfl⟩

theorem access_counted (h : c.Counted ext) (nid : UInt32) :
    ({ c with cacheManager := c.cacheManager.access nid } : NodeBlockCache β).Counted ext := by
  refine h.change ⟨fun _ => rfl,CacheLruReplacer.access_keys nid,rfl⟩ (fun q e he => ⟨e,he,rfl,rfl⟩) ?_ h.held
  intro k q e e' hk he'
  obtain rfl := Option.some.inj (hk.entry.symm.trans he')
  refine ⟨rfl,?_⟩
  rw [← h.pinned hk]
  exact CacheLruReplacer.mem_access_pinned nid k

theorem access_children (c : NodeBlockCache β) (nid k : UInt32) :
    ({ c with cacheManager := c.cacheManager.access nid } : NodeBlockCache β).children k = c.children k :=
  (CacheLruReplacer.access_keys nid).countP_eq _

theorem refParent_spec {parentNid : UInt32} (h : c.Counted ext) (hw : Narrow c)
    (hp : parentNid = invalidNid ∨ c.lookup parentNid ≠ none)
    (hroom : parentNid ≠ invalidNid → ∀ p, c.lookup parentNid = some p → ext p + c.children parentNid < 2 ^ 32 - 1) :
    ∃ c', refParent c parentNid = .ok c' ∧ holdParent c parentNid = some c' ∧
      c'.Counted (c'.orphaned ext parentNid) ∧ Narrow c' ∧ c.Alike c' ∧ c'.entries.length = c.entries.length := by
  unfold refParent holdParent
  by_cases hz : parentNid = invalidNid
  · rw [if_pos hz,if_pos hz]
    refine ⟨c,rfl,rfl,?_,hw,.refl c,rfl⟩
    rw [orphaned,if_pos hz]
    exact h
  · rw [if_neg hz,if_neg hz]
    obtain ⟨q,hq⟩ := Option.ne_none_iff_exists'.mp (hp.resolve_left hz)
    obtain ⟨e,hh⟩ := h.has hq
    obtain ⟨hc,hw',heq⟩ := addRef_counted h hw hh (hroom hz q hq)
    have ha := addRefCount_alike c q
    rw [← heq] at ha
    have hq' : (nodeBlockCacheAddRefCount c q).lookup parentNid = some q := (ha.lookup parentNid).trans hq
    simp only [hq]
    refine ⟨_,rfl,congrArg some heq.symm,?_,hw',ha,?_⟩
    · rw [orphaned_self parentNid hz hq']
      exact hc
    · rw [heq]
      unfold NodeBlockCache.addRefCount
      rw [hh.entry]
      simp only
      split <;> exact List.length_modify ..

theorem addToManager_spec (h : c.Counted (c.orphaned ext e.parentNid)) (hw : Narrow c) (hz : e.refCount = 0)
    (hp : e.parentNid ≠ invalidNid → c.lookup e.parentNid ≠ none) (hn : c.lookup e.nid = none) :
    ∃ c', addToManager c e = .ok c' ∧ insertEntry c e = some c' ∧ c'.Counted (bump ext c.entries.length) ∧
      Narrow c' := by
  have hn' : c.cacheManager.index e.nid = none := hn
  have hins : insertEntry c e = some (({ c with
      cacheManager := c.cacheManager.add e.nid c.entries.length hn'
      entries := c.entries ++ [e]
      curSize := c.curSize + 1 } : NodeBlockCache β).addRefCount c.entries.length) := by
    unfold insertEntry
    rw [dif_pos hn']
  obtain ⟨c₁,hc₁,hh,-,hentries,heq⟩ := insertEntry_spec h hz hp hins
  have hw₁ : Narrow c₁ := by
    intro q x hx
    unfold NodeBlockCache.entry at hx
    rw [hentries] at hx
    rcases List.mem_append.mp (List.mem_of_getElem? hx) with hmem | hmem
    · obtain ⟨j,hj⟩ := List.mem_iff_getElem?.mp hmem
      exact hw j x hj
    · rw [List.mem_singleton.mp hmem,hz]
      decide
  have hlt : ∀ x, ({ c with
      cacheManager := c.cacheManager.add e.nid c.entries.length hn'
      entries := c.entries ++ [e]
      curSize := c.curSize + 1 } : NodeBlockCache β).entry c.entries.length = some x → x.refCount + 1 < 2 ^ 32 := by
    intro x hx
    have hx' : (c.entries ++ [e])[c.entries.length]? = some x := hx
    rw [List.getElem?_concat_length] at hx'
    cases hx'
    rw [hz]
    decide
  refine ⟨_,?_,hins,heq ▸ addRefCount_counted hc₁ hh,?_⟩
  · unfold addToManager
    rw [dif_pos hn',addRef_eq hlt]
  · rw [heq]
    exact narrow_changed hw₁ (f := e.refCount + 1) (by rw [hz]; decide) rfl (addRefCount_entry hh.entry)

end Steps

section Accounting
variable {s s' : Run β} {op : CacheOp β}

def Run.ext (s : Run β) (p : Nat) : Nat := s.handles p + s.hosts p

structure Inv (s : Run β) : Prop where
  counted : s.cache.Counted s.ext
  narrow : Narrow s.cache

theorem bump_handles (s : Run β) (p : Nat) (fs : FileSystemManager β) :
    bump s.ext p = ({ s with fs := fs,handles := bump s.handles p } : Run β).ext := by
  funext q
  by_cases hq : q = p
  · subst hq
    simp only [Run.ext,bump_self]
    omega
  · simp only [Run.ext,bump_ne hq]

theorem bump_hosts (s : Run β) (p : Nat) (fs : FileSystemManager β) :
    bump s.ext p = ({ s with fs := fs,hosts := bump s.hosts p } : Run β).ext := by
  funext q
  by_cases hq : q = p
  · subst hq
    simp only [Run.ext,bump_self]
    omega
  · simp only [Run.ext,bump_ne hq]

theorem bump_less {f : Nat → Nat} {p : Nat} (h : f p ≠ 0) : bump (less f p) p = f := by
  funext q
  by_cases hq : q = p
  · subst hq
    rw [bump_self,less,Function.update_self]
    omega
  · rw [bump_ne hq,less,Function.update_of_ne hq]

-- an operation from s ends with r, and with x where the counters do not wrap
structure Performs (r : Except Halt (Run β)) (x : Option (FileSystemManager β)) : Prop where
  unbounded : r.toOption.map Run.fs = x
  ends : r = .error .release ∨ ∃ s, r = .ok s ∧ Inv s

theorem Performs.ok (h : Inv s) : Performs (.ok s) (some s.fs) := ⟨rfl,.inr ⟨s,rfl,h⟩⟩

theorem Performs.of_delivers (s' : Run β) {r : Except Halt (FileSystemManager β)} {x : Option (FileSystemManager β)}
    {f : FileSystemManager β → Run β} (h : Delivers s.fs s'.ext r x)
    (hf : ∀ fs, (f fs).fs = fs ∧ (f fs).ext = s'.ext) : Performs (r.map f) x := by
  refine ⟨?_,?_⟩
  · rw [← h.unbounded]
    cases r with
    | error e => rfl
    | ok fs => exact congrArg some (hf fs).1
  · rcases h.ends with rfl | ⟨fs,rfl,hc,hw,-⟩
    · exact .inl rfl
    · obtain ⟨hfs,hext⟩ := hf fs
      refine .inr ⟨f fs,rfl,?_,?_⟩
      · rw [Run.cache,hfs,hext]
        exact hc
      · rw [Run.cache,hfs]
        exact hw

theorem Inv.addRef (h : Inv s) {p : Nat} (hp : s.ext p ≠ 0)
    (hroom : ∀ nid, s.cache.lookup nid = some p → s.refs nid p < 2 ^ 32 - 1) :
    (nodeBlockCacheAddRefCount s.cache p).Counted (bump s.ext p) ∧ Narrow (nodeBlockCacheAddRefCount s.cache p) ∧
      nodeBlockCacheAddRefCount s.cache p = s.cache.addRefCount p := by
  obtain ⟨e,hh⟩ := h.counted.held hp
  have hlt := hroom e.nid hh.lookup
  unfold Run.refs at hlt
  exact addRef_counted h.counted h.narrow hh (by unfold Run.ext; omega)

theorem Inv.get (h : Inv s) {nid : UInt32} (hroom : Room s (.get nid)) :
    Performs (perform s (.get nid)) (some (Rtfs.nodeBlockCacheGet s.fs nid).2) := by
  simp only [perform]
  unfold nodeBlockCacheGet Rtfs.nodeBlockCacheGet NodeBlockCache.get
  cases hl : s.cache.lookup nid with
  | none =>
    have hl' : s.fs.nodeCache.lookup nid = none := hl
    rw [hl']
    exact .ok ⟨h.counted,h.narrow⟩
  | some p =>
    obtain ⟨e,hh⟩ := h.counted.has hl
    have hlt := hroom p hl
    unfold Run.refs at hlt
    have hh' : ({ s.cache with cacheManager := s.cache.cacheManager.access nid } : NodeBlockCache β).Has nid p e :=
      ⟨hh.lookup,hh.entry⟩
    obtain ⟨hc,hw,heq⟩ := addRef_counted (access_counted h.counted nid) h.narrow hh'
      (by rw [access_children]; unfold Run.ext; omega)
    have hl' : s.fs.nodeCache.lookup nid = some p := hl
    have heq' : (({ s.fs.nodeCache with cacheManager := s.fs.nodeCache.cacheManager.access nid } :
        NodeBlockCache β)).addRefCount p = nodeBlockCacheAddRefCount
          { s.cache with cacheManager := s.cache.cacheManager.access nid } p := heq.symm
    simp only [hl',heq']
    exact .ok ⟨bump_handles s p _ ▸ hc,hw⟩

theorem Inv.add (h : Inv s) {buffer : β} {nid parentNid lpa : UInt32} (hl : Legal s (.add buffer nid parentNid lpa))
    (hroom : Room s (.add buffer nid parentNid lpa)) :
    Performs (perform s (.add buffer nid parentNid lpa))
      ((Rtfs.nodeBlockCacheAdd s.fs buffer nid parentNid lpa).map Prod.snd) := by
  obtain ⟨hnew,hparent⟩ := hl
  obtain ⟨c,hc,hheld,hcounted,hw,ha,hlen⟩ := refParent_spec h.counted h.narrow hparent (fun hz p hp => by
    have hlt := hroom hz p hp
    unfold Run.refs at hlt
    change s.handles p + s.hosts p + s.cache.children parentNid < _
    omega)
  have hp' : parentNid ≠ invalidNid → c.lookup parentNid ≠ none := fun hz => by
    rw [ha.lookup]
    exact hparent.resolve_left hz
  obtain ⟨c',hc',hins,hcounted',hw'⟩ := addToManager_spec (e := nodeBlockCacheEntryInit buffer nid parentNid lpa)
    hcounted hw rfl hp' ((ha.lookup nid).trans hnew)
  have hnew' : ¬ s.fs.nodeCache.lookup nid ≠ none := not_not.mpr hnew
  have hadd : nodeBlockCacheAdd s.fs buffer nid parentNid lpa = nodeBlockCacheDoReplace (s.fs.onCache c') := by
    have hc₁ : refParent s.fs.nodeCache parentNid = .ok c := hc
    unfold nodeBlockCacheAdd
    rw [if_neg hnew',hc₁]
    change (addToManager c _).bind _ = _
    rw [hc']
    rfl
  have hbefore : addBeforeReplace s.fs buffer nid parentNid lpa = some (s.fs.onCache c') := by
    have hc₁ : holdParent s.fs.nodeCache parentNid = some c := hheld
    unfold addBeforeReplace
    rw [if_neg hnew',hc₁]
    change (insertEntry c _).map _ = _
    rw [hins]
    rfl
  have hunbounded : (Rtfs.nodeBlockCacheAdd s.fs buffer nid parentNid lpa).map Prod.snd =
      Rtfs.nodeBlockCacheDoReplace (s.fs.onCache c') := by
    unfold Rtfs.nodeBlockCacheAdd
    rw [hbefore,Option.map_map]
    exact Option.map_id'
  simp only [perform,hadd]
  rw [hunbounded]
  have hd := doReplace_delivers (s := s.fs.onCache c') hcounted' hw'
  rw [hlen] at hd
  let s₁ : Run β := { s with handles := bump s.handles s.cache.entries.length,fs := s.fs.onCache c' }
  refine Performs.of_delivers (s := s₁) s₁ ?_ (fun _ => ⟨rfl,rfl⟩)
  exact bump_handles s s.cache.entries.length _ ▸ hd

-- what the operation does to a cache whose counters do not wrap
def unbounded (fs : FileSystemManager β) : CacheOp β → Option (FileSystemManager β)
  | .add buffer nid parentNid lpa => (Rtfs.nodeBlockCacheAdd fs buffer nid parentNid lpa).map Prod.snd
  | .get nid => some (Rtfs.nodeBlockCacheGet fs nid).2
  | .copy p => some (nodeBlockCacheEntryHandleCopy fs p)
  | .destroy p => nodeBlockCacheEntryHandleDestroy fs p
  | .addHostVersion p => some (fs.onCache (fs.nodeCache.addRefCount p))
  | .addSsdVersion p => Rtfs.nodeBlockCacheSubRefCount fs p
  | .deleteNode p => some (fs.nodeBlockCacheEntryHandleDeleteNode p)
  | .replace => Rtfs.nodeBlockCacheDoReplace fs

theorem Inv.perform (h : Inv s) (hl : Legal s op) (hroom : Room s op) :
    Performs (NodeCacheRun.perform s op) (unbounded s.fs op) := by
  cases op with
  | add buffer nid parentNid lpa => exact h.add hl hroom
  | get nid => exact h.get hroom
  | copy p =>
    have hp : s.ext p ≠ 0 := by
      change s.handles p ≠ 0 at hl
      unfold Run.ext
      omega
    obtain ⟨hc,hw,heq⟩ := h.addRef hp hroom
    exact ⟨congrArg (fun c => some (s.fs.onCache c)) heq,.inr ⟨_,rfl,bump_handles s p _ ▸ hc,hw⟩⟩
  | destroy p =>
    let s₁ : Run β := { s with handles := less s.handles p }
    have hext : s.ext = bump s₁.ext p := by
      rw [bump_handles s₁ p s₁.fs]
      change _ = ({ s with handles := bump (less s.handles p) p } : Run β).ext
      rw [bump_less hl]
    exact Performs.of_delivers s₁ (subRefCount_delivers _ (hext ▸ h.counted) h.narrow (Nat.lt_succ_self _))
      (fun _ => ⟨rfl,rfl⟩)
  | addHostVersion p =>
    have hp : s.ext p ≠ 0 := by
      change s.handles p ≠ 0 at hl
      unfold Run.ext
      omega
    obtain ⟨hc,hw,heq⟩ := h.addRef hp hroom
    exact ⟨congrArg (fun c => some (s.fs.onCache c)) heq,.inr ⟨_,rfl,bump_hosts s p _ ▸ hc,hw⟩⟩
  | addSsdVersion p =>
    let s₁ : Run β := { s with hosts := less s.hosts p }
    have hext : s.ext = bump s₁.ext p := by
      rw [bump_hosts s₁ p s₁.fs]
      change _ = ({ s with hosts := bump (less s.hosts p) p } : Run β).ext
      rw [bump_less hl]
    exact Performs.of_delivers s₁ (subRefCount_delivers _ (hext ▸ h.counted) h.narrow (Nat.lt_succ_self _))
      (fun _ => ⟨rfl,rfl⟩)
  | deleteNode p =>
    have hp : s.ext p ≠ 0 := by
      change s.handles p ≠ 0 at hl
      unfold Run.ext
      omega
    obtain ⟨e,hh⟩ := h.counted.held hp
    exact .ok ⟨deleteNode_counted h.counted hh,
      narrow_changed (f := e.refCount) h.narrow (h.narrow p e hh.entry) (by rfl) (deleteNode_entry hh.entry)⟩
  | replace => exact Performs.of_delivers s (doReplace_delivers h.counted h.narrow) (fun _ => ⟨rfl,rfl⟩)

theorem Inv.init (fs : FileSystemManager β) (expectSize : Nat) :
    Inv (⟨fs.onCache (nodeBlockCacheInit expectSize),fun _ => 0,fun _ => 0⟩ : Run β) :=
  ⟨{  indexed := nofun
      counted := fun h => nomatch h.lookup
      pinned := fun h => nomatch h.lookup
      parent := fun h => nomatch h.lookup
      held := fun h => absurd rfl h
      size := rfl },nofun⟩

theorem Reached.inv (h : Reached Room s) : Inv s := by
  induction h with
  | init fs expectSize => exact Inv.init fs expectSize
  | step op _ legal hr hs ih =>
    rcases (ih.perform legal hr).ends with hp | ⟨s',hp,hi⟩
    · exact nomatch hs.symm.trans hp
    · obtain rfl := Except.ok.inj (hs.symm.trans hp)
      exact hi

theorem Inv.accounted (h : Inv s) : Accounted s := by
  refine ⟨fun nid p e hl he => ?_,fun nid p hl => h.counted.indexed hl,fun nid p e hl he => h.counted.parent ⟨hl,he⟩,
    fun nid p e hl he => ?_,fun p hp => ?_,h.counted.size,CacheLruReplacer.keys_nodup,fun nid => mem_keys⟩
  · have hc := h.counted.counted ⟨hl,he⟩
    unfold Run.ext at hc
    unfold Run.refs
    omega
  · have hpin := h.counted.pinned ⟨hl,he⟩
    have hkey : nid ∈ s.cache.keys := mem_keys.mpr (by rw [hl]; exact Option.some_ne_none p)
    constructor
    · intro hmem
      by_contra hne
      exact (List.nodup_append.mp s.cache.cacheManager.replacer.nodup).2.2 nid hmem nid (hpin.mpr hne) rfl
    · exact fun hz => (List.mem_append.mp hkey).resolve_right (fun hp => hpin.mp hp hz)
  · obtain ⟨e,hh⟩ := h.counted.held hp
    exact ⟨e.nid,hh.lookup⟩

theorem reached_unbounded (h : Reached Room s) (hl : Legal s op) (hroom : Room s op) :
    (perform s op).toOption.map Run.fs = unbounded s.fs op := (h.inv.perform hl hroom).unbounded

theorem reached_accounted (h : Reached Room s) : Accounted s ∧ ∀ op, Legal s op → Room s op →
    perform s op ≠ .error .assertion ∧ perform s op ≠ .error .running := by
  refine ⟨h.inv.accounted,fun op hl hr => ?_⟩
  rcases (h.inv.perform hl hr).ends with hp | ⟨s',hp,-⟩
  · rw [hp]
    exact ⟨nofun,nofun⟩
  · rw [hp]
    exact ⟨nofun,nofun⟩

def emptyManager : FileSystemManager Unit where
  nodeCache := nodeBlockCacheInit 10
  fs := ⟨Buf.zero,fun _ => ⟨0,0⟩,fun _ => ⟨512,fun _ => 255⟩,JournalContainer.init⟩
  dev := ⟨fun _ => false,fun _ => ()⟩
  srmap := .init 0 (fun _ _ => ⟨0,0⟩)

def inodeRun : Run Unit where
  fs := emptyManager.onCache
    { expectSize := 10
      curSize := 1
      cacheManager := ((nodeBlockCacheInit 10 : NodeBlockCache Unit).cacheManager.add 5 0 rfl).pin 5
      entries := [⟨(),5,0,0,0,false,1,.uptodate⟩]
      dirtyList := [] }
  handles := bump (fun _ => 0) 0
  hosts := fun _ => 0

theorem inodeRun_reached {room : Run Unit → CacheOp Unit → Prop} (h : ∀ s, room s (.add () 5 0 0)) :
    Reached room inodeRun :=
  .step (.add () 5 0 0) (.init emptyManager 10) ⟨rfl,.inl rfl⟩ (h _) rfl

-- what an operation asks of its callers and of the counters, on the entry at hand
def allowed (s : Run β) : CacheOp β → Bool
  | .add _ nid parentNid _ => (s.cache.lookup nid).isNone && (decide (parentNid = invalidNid) ||
      (s.cache.lookup parentNid).any (fun p => decide (s.refs parentNid p < 2 ^ 32 - 1)))
  | .get nid => (s.cache.lookup nid).all (fun p => decide (s.refs nid p < 2 ^ 32 - 1))
  | .copy p => decide (s.handles p ≠ 0) && (s.cache.entry p).all (fun e => decide (s.refs e.nid p < 2 ^ 32 - 1))
  | .addHostVersion p =>
    decide (s.handles p ≠ 0) && (s.cache.entry p).all (fun e => decide (s.refs e.nid p < 2 ^ 32 - 1))
  | .destroy p => decide (s.handles p ≠ 0)
  | .addSsdVersion p => decide (s.hosts p ≠ 0)
  | .deleteNode p => decide (s.handles p ≠ 0)
  | .replace => true

theorem Inv.room_at (h : Inv s) {p : Nat} (ha : (s.cache.entry p).all (fun e => decide (s.refs e.nid p < 2 ^ 32 - 1)) = true)
    (nid : UInt32) (hl : s.cache.lookup nid = some p) : s.refs nid p < 2 ^ 32 - 1 := by
  obtain ⟨e,he,rfl⟩ := h.counted.indexed hl
  rw [he] at ha
  exact of_decide_eq_true ha

theorem Inv.allowed (h : Inv s) {op : CacheOp β} (ha : allowed s op = true) : Legal s op ∧ Room s op := by
  cases op with
  | add buffer nid parentNid lpa =>
    obtain ⟨hnone,hparent⟩ := Bool.and_eq_true_iff.mp ha
    refine ⟨⟨Option.isNone_iff_eq_none.mp hnone,?_⟩,fun hz p hl => ?_⟩
    · rcases Bool.or_eq_true_iff.mp hparent with hz | hc
      · exact .inl (of_decide_eq_true hz)
      · obtain ⟨p,hp,-⟩ := (Option.any_eq_true _ _).mp hc
        exact .inr (by rw [hp]; exact Option.some_ne_none p)
    · rcases Bool.or_eq_true_iff.mp hparent with hzero | hc
      · exact absurd (of_decide_eq_true hzero) hz
      · rw [hl] at hc
        exact of_decide_eq_true hc
  | get nid =>
    refine ⟨trivial,fun p hl => ?_⟩
    change (s.cache.lookup nid).all (fun p => decide (s.refs nid p < 2 ^ 32 - 1)) = true at ha
    rw [hl] at ha
    exact of_decide_eq_true ha
  | copy p =>
    obtain ⟨hheld,hroom⟩ := Bool.and_eq_true_iff.mp ha
    exact ⟨(of_decide_eq_true hheld : s.handles p ≠ 0),h.room_at hroom⟩
  | addHostVersion p =>
    obtain ⟨hheld,hroom⟩ := Bool.and_eq_true_iff.mp ha
    exact ⟨(of_decide_eq_true hheld : s.handles p ≠ 0),h.room_at hroom⟩
  | destroy p => exact ⟨(of_decide_eq_true ha : s.handles p ≠ 0),trivial⟩
  | addSsdVersion p => exact ⟨(of_decide_eq_true ha : s.hosts p ≠ 0),trivial⟩
  | deleteNode p => exact ⟨(of_decide_eq_true ha : s.handles p ≠ 0),trivial⟩
  | replace => exact ⟨trivial,trivial⟩

def runOps : List (CacheOp β) → Run β → Option (Run β)
  | [],s => some s
  | op :: ops,s => if allowed s op then (perform s op).toOption.bind (runOps ops) else none

theorem runOps_reached {ops : List (CacheOp β)} (hr : Reached Room s) (h : runOps ops s = some s') :
    Reached Room s' := by
  induction ops generalizing s with
  | nil =>
    cases h
    exact hr
  | cons op ops ih =>
    unfold runOps at h
    split at h
    · rename_i ha
      obtain ⟨s₁,hone,hrest⟩ := Option.bind_eq_some_iff.mp h
      obtain ⟨hl,hroom⟩ := hr.inv.allowed ha
      exact ih (hr.step op hl hroom (ok_of_toOption hone)) hrest
    · cases h

def familyStart : Run Unit :=
  ⟨FileSystemManager.onCache { emptyManager with fs := smallMeta } (nodeBlockCacheInit 1),fun _ => 0,fun _ => 0⟩

-- an inode and its node: a host version and its match, an eviction of the node, its reload and its deletion
def familyOps : List (CacheOp Unit) :=
  [.add () 2 0 0,.add () 3 2 0,.addHostVersion 1,.destroy 1,.get 3,.addSsdVersion 1,.destroy 1,.replace,
    .add () 3 2 0,.deleteNode 2,.copy 0,.destroy 2]

theorem inodeRun_accounted : ∃ s, runOps familyOps familyStart = some s ∧ s.cache.keys = [2] ∧
    (s.cache.entry 0).map NodeBlockCacheEntry.refCount = some 2 ∧ s.fs.fs.field RtfsSuperBlock.nextFreeNidOff = 3 ∧
    Accounted s ∧ ∀ op, Legal s op → Room s op → perform s op ≠ .error .assertion ∧ perform s op ≠ .error .running := by
  have hrun : (runOps familyOps familyStart).any (fun s => decide (s.cache.keys = [2] ∧
      (s.cache.entry 0).map NodeBlockCacheEntry.refCount = some 2 ∧
      s.fs.fs.field RtfsSuperBlock.nextFreeNidOff = 3)) = true := by
    decide +kernel
  obtain ⟨s,hs,hends⟩ := (Option.any_eq_true _ _).mp hrun
  obtain ⟨hkeys,hcount,hfree⟩ := of_decide_eq_true hends
  exact ⟨s,hs,hkeys,hcount,hfree,reached_accounted (runOps_reached (.init _ 1) hs)⟩

theorem addRef_lookup (c : NodeBlockCache β) (p : Nat) (k : UInt32) :
    (nodeBlockCacheAddRefCount c p).lookup k = c.lookup k := by
  unfold nodeBlockCacheAddRefCount
  split
  · rfl
  · simp only
    split <;> rfl

theorem addRef_entry {c : NodeBlockCache β} {p : Nat} {e : NodeBlockCacheEntry β} (h : c.entry p = some e) :
    (nodeBlockCacheAddRefCount c p).entry p = some { e with refCount := (e.refCount + 1) % 2 ^ 32 } := by
  have hm := modify_entry h (fun e => { e with refCount := (e.refCount + 1) % 2 ^ 32 }) p
  rw [if_pos rfl] at hm
  unfold nodeBlockCacheAddRefCount
  rw [h]
  simp only
  split <;> exact hm

theorem copies_reached (n : Nat) : ∃ s : Run Unit, Reached (fun _ _ => True) s ∧ s.cache.lookup 5 = some 0 ∧
    (∃ e, s.cache.entry 0 = some e ∧ e.refCount = (n + 1) % 2 ^ 32) ∧ s.handles 0 = n + 1 := by
  induction n with
  | zero => exact ⟨inodeRun,inodeRun_reached (fun _ => trivial),rfl,⟨_,rfl,rfl⟩,rfl⟩
  | succ n ih =>
    obtain ⟨s,hr,hl,⟨e,he,hcount⟩,hh⟩ := ih
    refine ⟨_,hr.step (.copy 0) (show s.handles 0 ≠ 0 by omega) trivial rfl,(addRef_lookup s.cache 0 5).trans hl,
      ⟨_,addRef_entry he,?_⟩,?_⟩
    · simp only [hcount]
      omega
    · change bump s.handles 0 0 = _
      rw [bump_self,hh]

-- 2^32 handles of one entry leave its counter at 0
theorem wrapped_not_accounted : ∃ s : Run Unit, Reached (fun _ _ => True) s ∧ ¬ Accounted s := by
  obtain ⟨s,hr,hl,⟨e,he,hcount⟩,hh⟩ := copies_reached (2 ^ 32 - 1)
  refine ⟨s,hr,fun h => ?_⟩
  have hc := h.counted 5 0 e hl he
  unfold Run.refs at hc
  omega

end Accounting

end NodeCacheRun

end Rtfs
