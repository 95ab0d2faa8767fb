import Rtfs.Cache.NodeRefs
import Rtfs.Fs.CowReclaimRegistry

namespace Rtfs

namespace NodeReclaim

open NodeBlockCache RtfsSuperBlock

-- deletedHandles are handles on node cache entries, none is an empty handle
structure CowReclaimRecord where
  txId : Nat
  dataLpas : List UInt32
  nodeLpas : List UInt32
  deletedHandles : List (Option Nat)

structure CowReclaimRegistry where
  pendingHead : List CowReclaimRecord
  completedHead : List CowReclaimRecord

def CowReclaimRecord.lpas (r : CowReclaimRecord) : List UInt32 := r.dataLpas ++ r.nodeLpas

def CowReclaimRecord.handles (r : CowReclaimRecord) : List Nat := r.deletedHandles.filterMap id

inductive ReclaimEvent
  | lpaInvalidated (lpa : UInt32)
  | nodeFreed (nid lpa : UInt32)
  deriving DecidableEq

namespace ReclaimEvent

def lpa : ReclaimEvent → UInt32
  | .lpaInvalidated lpa => lpa
  | .nodeFreed _ lpa => lpa

def listed? : ReclaimEvent → Option UInt32
  | .lpaInvalidated lpa => some lpa
  | .nodeFreed _ _ => none

def nid? : ReclaimEvent → Option UInt32
  | .lpaInvalidated _ => none
  | .nodeFreed nid _ => some nid

end ReclaimEvent

def listedIn (events : List ReclaimEvent) : List UInt32 := events.filterMap ReclaimEvent.listed?

def freedIn (events : List ReclaimEvent) : List UInt32 := events.filterMap ReclaimEvent.nid?

structure Reclaiming (β : Type) where
  manager : FileSystemManager β
  events : List ReclaimEvent

section Model
variable {β : Type}

def invalidateLpa (s : Reclaiming β) (lpa : UInt32) : Option (Reclaiming β) :=
  (sitInvalidateLpa s.manager.fs lpa).map (fun m =>
    ⟨{ s.manager with fs := m },s.events ++ [.lpaInvalidated lpa]⟩)

-- subRefCountUp with its log
def subRefCount : Nat → Reclaiming β → Nat → Option (Reclaiming β)
  | 0,_,_ => none
  | n + 1,s,p =>
    match s.manager.nodeCache.entry p with
    | none => none
    | some e =>
      let m := s.manager.onCache (s.manager.nodeCache.released p e)
      if e.refCount ≠ 1 ∨ e.state ≠ .deleted then some ⟨m,s.events⟩
      else
        match dropDeleted m e with
        | none => none
        | some m =>
          if e.parentNid = invalidNid then some ⟨m,s.events ++ [.nodeFreed e.nid e.lpa]⟩
          else
            match m.nodeCache.lookup e.parentNid with
            | none => none
            | some q => subRefCount n ⟨m,s.events ++ [.nodeFreed e.nid e.lpa]⟩ q

def handleDestroy (s : Reclaiming β) (p : Nat) : Option (Reclaiming β) :=
  subRefCount (s.manager.nodeCache.keys.length + 1) s p

def handleCopy (s : Reclaiming β) (p : Nat) : Reclaiming β :=
  ⟨nodeBlockCacheEntryHandleCopy s.manager p,s.events⟩

def handleDeleteNode (s : Reclaiming β) (p : Nat) : Reclaiming β :=
  ⟨s.manager.nodeBlockCacheEntryHandleDeleteNode p,s.events⟩

def freeDeletedHandle (s : Reclaiming β) : Option Nat → Option (Reclaiming β)
  | none => some s
  | some p => handleDestroy (handleDeleteNode s p) p

def cowReclaimRegistryFreeRecord (s : Reclaiming β) (record : CowReclaimRecord) : Option (Reclaiming β) :=
  record.deletedHandles.foldlM freeDeletedHandle s

def drainRecord (s : Reclaiming β) (record : CowReclaimRecord) : Option (Reclaiming β) :=
  (record.dataLpas.foldlM invalidateLpa s).bind (fun s =>
    (record.nodeLpas.foldlM invalidateLpa s).bind (fun s => cowReclaimRegistryFreeRecord s record))

theorem subRefCount_manager (n : Nat) (s : Reclaiming β) (p : Nat) :
    (subRefCount n s p).map Reclaiming.manager = subRefCountUp n s.manager p := by
  induction n generalizing s p with
  | zero => rfl
  | succ n ih =>
    rw [subRefCount,subRefCountUp]
    cases s.manager.nodeCache.entry p with
    | none => rfl
    | some e =>
      simp only
      split
      · rfl
      · cases dropDeleted (s.manager.onCache (s.manager.nodeCache.released p e)) e with
        | none => rfl
        | some m =>
          simp only
          split
          · rfl
          · cases m.nodeCache.lookup e.parentNid with
            | none => rfl
            | some q => exact ih ⟨m,_⟩ q

theorem handleDestroy_manager (s : Reclaiming β) (p : Nat) : (handleDestroy s p).map Reclaiming.manager =
    nodeBlockCacheEntryHandleDestroy s.manager p := subRefCount_manager _ s p

end Model

section Invariant
variable {β : Type}

-- what the callers promise: listed LPAs and those of the nodes to delete are in use and all different
structure Claimable (m : FileSystemManager β) (targets : Nat → Prop) (listed : List UInt32) : Prop where
  seg0 : m.fs.field segment0BlkaddrOff = 0
  area : ∀ {nid p e}, m.nodeCache.Has nid p e → natHoldsNid m.fs nid
  listedSet : ∀ x ∈ listed, x ≠ invalidLpa ∧ lpaBit m.fs x = true
  listedOnce : listed.Nodup
  nodeSet : ∀ {nid p e}, m.nodeCache.Has nid p e → targets p →
    e.lpa ≠ invalidLpa ∧ lpaBit m.fs e.lpa = true ∧ e.lpa ∉ listed
  nodeOnce : ∀ {nid p e nid' p' e'}, m.nodeCache.Has nid p e → m.nodeCache.Has nid' p' e' →
    targets p → targets p' → e.lpa = e'.lpa → nid = nid'

structure Core (m : FileSystemManager β) (targets : Nat → Prop) (listed : List UInt32)
    (s : Reclaiming β) (ext : Nat → Nat) (marked : Nat → Prop) : Prop where
  counted : s.manager.nodeCache.Counted ext
  seg0 : s.manager.fs.field segment0BlkaddrOff = 0
  area : ∀ nid, natHoldsNid s.manager.fs nid ↔ natHoldsNid m.fs nid
  targets : ∀ p, marked p → targets p
  kept : ∀ {nid p e}, s.manager.nodeCache.Has nid p e → ∃ e', m.nodeCache.Has nid p e' ∧
    e.parentNid = e'.parentNid ∧ e.lpa = e'.lpa ∧ (e.state = .deleted ↔ marked p)
  index : ∀ nid, s.manager.nodeCache.lookup nid =
    if nid ∈ freedIn s.events then none else m.nodeCache.lookup nid
  alive : ∀ {nid p e}, s.manager.nodeCache.Has nid p e → marked p → e.refCount ≠ 0
  bits : ∀ x, lpaBit s.manager.fs x = if x ∈ s.events.map ReclaimEvent.lpa then false else lpaBit m.fs x
  once : (s.events.map ReclaimEvent.lpa).Nodup
  listed : ∀ x ∈ listedIn s.events, x ∈ listed
  freed : ∀ {nid lpa}, .nodeFreed nid lpa ∈ s.events →
    ∃ p e, m.nodeCache.Has nid p e ∧ marked p ∧ e.lpa = lpa
  order : ∀ {l₁ l₂ nid lpa}, s.events = l₁ ++ .nodeFreed nid lpa :: l₂ → nid ≠ invalidNid →
    ∀ k, m.nodeCache.parentOf k = some nid → k ∈ freedIn l₁

def heldBy (l : List Nat) : Nat → Nat := fun p => l.count p

theorem bump_heldBy (l : List Nat) (p : Nat) : bump (heldBy l) p = heldBy (p :: l) := by
  funext q
  by_cases hq : q = p
  · rw [hq,bump_self,heldBy,heldBy,List.count_cons_self]
  · rw [bump_ne hq,heldBy,heldBy,List.count_cons_of_ne (Ne.symm hq)]

theorem heldBy_perm {l l' : List Nat} (h : l.Perm l') : heldBy l = heldBy l' :=
  funext (fun p => h.count_eq p)

theorem mem_freedIn {events : List ReclaimEvent} {nid : UInt32} :
    nid ∈ freedIn events ↔ ∃ lpa, .nodeFreed nid lpa ∈ events := by
  unfold freedIn
  rw [List.mem_filterMap]
  constructor
  · rintro ⟨e,he,hn⟩
    cases e with
    | lpaInvalidated lpa => cases hn
    | nodeFreed nid' lpa =>
      cases hn
      exact ⟨lpa,he⟩
  · rintro ⟨lpa,h⟩
    exact ⟨_,h,rfl⟩

theorem mem_listedIn {events : List ReclaimEvent} {x : UInt32} :
    x ∈ listedIn events ↔ .lpaInvalidated x ∈ events := by
  unfold listedIn
  rw [List.mem_filterMap]
  constructor
  · rintro ⟨e,he,hn⟩
    cases e with
    | lpaInvalidated lpa =>
      cases hn
      exact he
    | nodeFreed nid' lpa => cases hn
  · exact fun h => ⟨_,h,rfl⟩

theorem freedIn_append (l l' : List ReclaimEvent) : freedIn (l ++ l') = freedIn l ++ freedIn l' :=
  List.filterMap_append ..

theorem listedIn_append (l l' : List ReclaimEvent) : listedIn (l ++ l') = listedIn l ++ listedIn l' :=
  List.filterMap_append ..

theorem freeNid_keeps {m : FsMeta} {nid : UInt32} (h : natHoldsNid m nid) :
    ∃ m', superManagerFreeNid m nid = some m' ∧
      m'.field segment0BlkaddrOff = m.field segment0BlkaddrOff ∧
      (∀ k, natHoldsNid m' k ↔ natHoldsNid m k) ∧ ∀ x, lpaBit m' x = lpaBit m x := by
  unfold superManagerFreeNid
  rw [if_neg (not_not.mpr h)]
  refine ⟨_,rfl,?_,fun k => ?_,fun x => rfl⟩
  · simp only [FsMeta.field_journalField]
    rw [FsMeta.field_setField _ _ (by decide) (by decide) (by decide),if_neg (by decide)]
    rfl
  · unfold natHoldsNid
    simp only [FsMeta.field_journalField]
    rw [FsMeta.field_setField _ _ (by decide) (by decide) (by decide),if_neg (by decide)]
    rfl

variable {m : FileSystemManager β} {targets marked : Nat → Prop} {listed : List UInt32}
  {s : Reclaiming β} {ext : Nat → Nat} {p : Nat} {nid lpa : UInt32} {e : NodeBlockCacheEntry β}

theorem split_concat {α : Type} {l l₁ l₂ : List α} {x y : α} (h : l ++ [x] = l₁ ++ y :: l₂) :
    (∃ l₃, l = l₁ ++ y :: l₃) ∨ l = l₁ ∧ x = y := by
  rcases List.eq_nil_or_concat l₂ with rfl | ⟨l₃,z,rfl⟩
  · obtain ⟨h₁,h₂⟩ := List.append_inj' h rfl
    exact .inr ⟨h₁,List.head_eq_of_cons_eq h₂⟩
  · rw [List.concat_eq_append,← List.cons_append,← List.append_assoc] at h
    exact .inl ⟨l₃,(List.append_inj' h rfl).1⟩

theorem Core.invalidate (h : Core m targets listed s ext marked) (hc : Claimable m targets listed)
    (hx : lpa ∈ listed) (hnot : lpa ∉ s.events.map ReclaimEvent.lpa) :
    ∃ s', invalidateLpa s lpa = some s' ∧ Core m targets listed s' ext marked ∧
      s'.events = s.events ++ [.lpaInvalidated lpa] := by
  obtain ⟨hz,hset⟩ := hc.listedSet lpa hx
  have hbit : lpaBit s.manager.fs lpa = true := by rw [h.bits,if_neg hnot,hset]
  obtain ⟨f,hf,hfield,hmap⟩ := invalidate_ok h.seg0 hz hbit
  have hfreed : freedIn (s.events ++ [.lpaInvalidated lpa]) = freedIn s.events := by
    rw [freedIn_append]
    exact List.append_nil _
  refine ⟨⟨{ s.manager with fs := f },s.events ++ [.lpaInvalidated lpa]⟩,by rw [invalidateLpa,hf]; rfl,?_,rfl⟩
  refine ⟨h.counted,(hfield _).trans h.seg0,fun k => ?_,h.targets,h.kept,?_,h.alive,?_,?_,?_,?_,?_⟩
  · unfold natHoldsNid
    simp only [hfield]
    exact h.area k
  · intro k
    rw [hfreed]
    exact h.index k
  · intro x
    simp only [hmap,h.bits,List.map_append,List.mem_append,List.map_cons,List.map_nil,List.mem_singleton,
      ReclaimEvent.lpa]
    by_cases hxl : x = lpa
    · simp [hxl]
    · simp [hxl]
  · rw [List.map_append]
    refine List.nodup_append.mpr ⟨h.once,List.nodup_singleton _,?_⟩
    intro a ha b hb hab
    rw [List.map_singleton,List.mem_singleton] at hb
    subst hab
    subst hb
    exact hnot ha
  · intro x hxl
    rw [listedIn_append] at hxl
    rcases List.mem_append.mp hxl with hxl | hxl
    · exact h.listed x hxl
    · rw [List.mem_singleton.mp hxl]
      exact hx
  · intro nid lpa' hin
    rcases List.mem_append.mp hin with hin | hin
    · exact h.freed hin
    · cases List.mem_singleton.mp hin
  · intro l₁ l₂ nid lpa' hev hnz k hk
    rcases split_concat hev with ⟨l₃,hl⟩ | ⟨_,hx⟩
    · exact h.order hl hnz k hk
    · cases hx

theorem Core.recache (h : Core m targets listed s ext marked) {c' : NodeBlockCache β} {ext' : Nat → Nat}
    {marked' : Nat → Prop} {e' : NodeBlockCacheEntry β} (hc : c'.Counted ext')
    (ha : s.manager.nodeCache.Alike c') (hh : s.manager.nodeCache.Has nid p e)
    (he : ∀ q, c'.entry q = if q = p then some e' else s.manager.nodeCache.entry q)
    (hp : e'.parentNid = e.parentNid) (hl : e'.lpa = e.lpa) (htarget : ∀ q, marked' q → targets q)
    (hmark : ∀ q ≠ p, marked' q ↔ marked q) (hmono : marked p → marked' p)
    (hstate : e'.state = .deleted ↔ marked' p) (halive : marked' p → e'.refCount ≠ 0) :
    Core m targets listed ⟨s.manager.onCache c',s.events⟩ ext' marked' := by
  have hback {k : UInt32} {q : Nat} {eq : NodeBlockCacheEntry β} (hk : c'.Has k q eq) :
      q = p ∧ k = nid ∧ eq = e' ∨ q ≠ p ∧ s.manager.nodeCache.Has k q eq := by
    have hlook := (ha.lookup k).symm.trans hk.lookup
    have hent := (he q).symm.trans hk.entry
    by_cases hqp : q = p
    · subst hqp
      rw [if_pos rfl] at hent
      exact .inl ⟨rfl,h.counted.inj hh hlook,(Option.some.inj hent).symm⟩
    · rw [if_neg hqp] at hent
      exact .inr ⟨hqp,hlook,hent⟩
  refine ⟨hc,h.seg0,h.area,htarget,?_,fun k => (ha.lookup k).trans (h.index k),?_,h.bits,h.once,h.listed,?_,h.order⟩
  · intro k q eq hk
    rcases hback hk with ⟨rfl,rfl,rfl⟩ | ⟨hqp,hk'⟩
    · obtain ⟨e₀,h₀,hp₀,hl₀,_⟩ := h.kept hh
      exact ⟨e₀,h₀,hp.trans hp₀,hl.trans hl₀,hstate⟩
    · rw [hmark q hqp]
      exact h.kept hk'
  · intro k q eq hk hm
    rcases hback hk with ⟨rfl,rfl,rfl⟩ | ⟨hqp,hk'⟩
    · exact halive hm
    · exact h.alive hk' ((hmark q hqp).mp hm)
  · intro k lpa hin
    obtain ⟨q,eq,hq,hm,hlpa⟩ := h.freed hin
    refine ⟨q,eq,hq,?_,hlpa⟩
    by_cases hqp : q = p
    · subst hqp
      exact hmono hm
    · exact (hmark q hqp).mpr hm

theorem Core.state (h : Core m targets listed s ext marked) (hh : s.manager.nodeCache.Has nid p e) :
    e.state = .deleted ↔ marked p := by
  obtain ⟨_,_,_,_,hs⟩ := h.kept hh
  exact hs

theorem Core.handleCopy (h : Core m targets listed s ext marked) (hh : s.manager.nodeCache.Has nid p e) :
    Core m targets listed (handleCopy s p) (bump ext p) marked := by
  have hstate : e.state = .deleted ↔ marked p := h.state hh
  refine h.recache (addRefCount_counted h.counted hh) (addRefCount_alike _ p) hh (addRefCount_entry hh.entry)
    rfl rfl h.targets (fun _ _ => .rfl) id hstate (fun _ => Nat.succ_ne_zero _)

theorem Core.handleDeleteNode (h : Core m targets listed s ext marked)
    (hh : s.manager.nodeCache.Has nid p e) (hheld : ext p ≠ 0) (ht : targets p) :
    Core m targets listed (handleDeleteNode s p) ext (fun q => marked q ∨ q = p) := by
  refine h.recache (deleteNode_counted h.counted hh) (deleteNode_alike _ p) hh (deleteNode_entry hh.entry)
    rfl rfl ?_ ?_ .inl ?_ ?_
  · rintro q (hq | rfl)
    · exact h.targets q hq
    · exact ht
  · intro q hq
    simp [hq]
  · simp
  · intro _
    have hcount := h.counted.counted hh
    simp only
    omega

theorem Core.released (h : Core m targets listed s (bump ext p) marked)
    (hh : s.manager.nodeCache.Has nid p e) (hlast : e.refCount ≠ 1 ∨ e.state ≠ .deleted) :
    Core m targets listed ⟨s.manager.onCache (s.manager.nodeCache.released p e),s.events⟩ ext marked := by
  have hstate : e.state = .deleted ↔ marked p := h.state hh
  refine h.recache (released_counted h.counted hh) (released_alike _ p e) hh (released_entry hh.entry)
    rfl rfl h.targets (fun _ _ => .rfl) id hstate ?_
  intro hm
  have hz := h.alive hh hm
  have hone := hlast.resolve_right (not_not.mpr (hstate.mpr hm))
  simp only
  omega

theorem Core.lpa_unused (h : Core m targets listed s ext marked) (hc : Claimable m targets listed)
    (hh : s.manager.nodeCache.Has nid p e) (hm : marked p) :
    e.lpa ∉ s.events.map ReclaimEvent.lpa ∧ e.lpa ≠ invalidLpa ∧ lpaBit s.manager.fs e.lpa = true := by
  obtain ⟨e₀,h₀,_,hl₀,_⟩ := h.kept hh
  obtain ⟨hz,hset,hnot⟩ := hc.nodeSet h₀ (h.targets p hm)
  have hfresh : e.lpa ∉ s.events.map ReclaimEvent.lpa := by
    intro hin
    obtain ⟨ev,hev,hlpa⟩ := List.mem_map.mp hin
    cases ev with
    | lpaInvalidated lpa =>
      have hlist := h.listed lpa (mem_listedIn.mpr hev)
      exact hnot (hl₀ ▸ hlpa ▸ hlist)
    | nodeFreed nid' lpa =>
      obtain ⟨q,eq,hq,hmq,heq⟩ := h.freed hev
      have hnid := hc.nodeOnce h₀ hq (h.targets p hm) (h.targets q hmq) (hl₀.symm.trans (hlpa.symm.trans heq.symm))
      subst hnid
      have hidx := h.index nid
      rw [if_pos (mem_freedIn.mpr ⟨lpa,hev⟩),hh.lookup] at hidx
      cases hidx
  refine ⟨hfresh,hl₀ ▸ hz,?_⟩
  rw [h.bits,if_neg hfresh,hl₀]
  exact hset

theorem Core.childless (h : Core m targets listed s ext marked) (hz : s.manager.nodeCache.children nid = 0)
    (hnz : nid ≠ invalidNid) {k : UInt32} (hk : m.nodeCache.parentOf k = some nid) : k ∈ freedIn s.events := by
  by_contra hnot
  have hidx := h.index k
  rw [if_neg hnot] at hidx
  cases hl : m.nodeCache.lookup k with
  | none =>
    rw [NodeBlockCache.parentOf,hl] at hk
    cases hk
  | some q =>
    rw [hl] at hidx
    obtain ⟨ek,hek⟩ := h.counted.has hidx
    obtain ⟨e₀,h₀,hp₀,_⟩ := h.kept hek
    rw [h₀.parentOf,← hp₀] at hk
    have hchild := List.countP_eq_zero.mp hz k (mem_keys.mpr (by simp [hidx]))
    rw [hek.parentOf,hk] at hchild
    simp [hnz] at hchild

theorem Core.drop (h : Core m targets listed s (bump ext p) marked) (hc : Claimable m targets listed)
    (hh : s.manager.nodeCache.Has nid p e) (hr : e.refCount = 1) (hd : e.state = .deleted) :
    ∃ m', dropDeleted (s.manager.onCache (s.manager.nodeCache.released p e)) e = some m' ∧
      Core m targets listed ⟨m',s.events ++ [.nodeFreed e.nid e.lpa]⟩
        (m'.nodeCache.orphaned ext e.parentNid) marked ∧
      (e.parentNid ≠ invalidNid → m'.nodeCache.lookup e.parentNid ≠ none) ∧
      s.manager.nodeCache.keys.length = m'.nodeCache.keys.length + 1 := by
  have hm := (h.state hh).mp hd
  have hnid := h.counted.nid_eq hh
  obtain ⟨hfresh,hz,hset⟩ := h.lpa_unused hc hh hm
  obtain ⟨e₀,h₀,hp₀,hl₀,_⟩ := h.kept hh
  obtain ⟨f₁,hf₁,hseg₁,harea₁,hbits₁⟩ := freeNid_keeps ((h.area nid).mpr (hc.area h₀))
  obtain ⟨f₂,hf₂,hfield₂,hbits₂⟩ := invalidate_ok (hseg₁.trans h.seg0) hz ((hbits₁ _).trans hset)
  have hcount := released_counted h.counted hh
  have halike := released_alike s.manager.nodeCache p e
  have hh' : (s.manager.nodeCache.released p e).Has nid p { e with refCount := e.refCount - 1 } :=
    ⟨(halike.lookup _).trans hh.lookup,(released_entry hh.entry p).trans (if_pos rfl)⟩
  have hz' : e.refCount - 1 = 0 := by omega
  have hdrop := dropped_remove hh'.lookup
  obtain ⟨hcounted,hparent⟩ := hcount.drop hh' hz' hdrop
  have hchildren : s.manager.nodeCache.children nid = 0 := by
    have hcount := h.counted.counted hh
    rw [bump_self] at hcount
    omega
  have hfreed (x : UInt32) : x ∈ freedIn (s.events ++ [.nodeFreed nid e.lpa]) ↔ x ∈ freedIn s.events ∨ x = nid := by
    rw [freedIn_append,List.mem_append]
    exact or_congr_right List.mem_singleton
  have hback {k : UInt32} {q : Nat} {eq : NodeBlockCacheEntry β}
      (hk : ((s.manager.nodeCache.released p e).without
        ((s.manager.nodeCache.released p e).cacheManager.remove nid)).Has k q eq) :
      s.manager.nodeCache.Has k q eq := by
    obtain ⟨hkn,hk⟩ := hdrop.has.mp hk
    have hlook := (halike.lookup k).symm.trans hk.lookup
    have hent := (released_entry hh.entry q).symm.trans hk.entry
    by_cases hqp : q = p
    · exact absurd (h.counted.inj hh (hqp ▸ hlook)) hkn
    · rw [if_neg hqp] at hent
      exact ⟨hlook,hent⟩
  refine ⟨_,by rw [dropDeleted,hnid]; simp only [FileSystemManager.onCache,hf₁,Option.bind_some,if_neg hz,hf₂]; rfl,
    ?_,hparent,?_⟩
  · rw [hnid]
    refine ⟨hcounted,(hfield₂ _).trans (hseg₁.trans h.seg0),fun k => ?_,h.targets,fun hk => h.kept (hback hk),
      fun k => ?_,fun hk hmq => h.alive (hback hk) hmq,fun x => ?_,?_,fun x hx => ?_,fun {k lpa} hin => ?_,
      fun {l₁ l₂ k lpa} hev hnz x hx => ?_⟩
    · unfold natHoldsNid
      simp only [hfield₂]
      exact (harea₁ k).trans (h.area k)
    · rw [if_congr (hfreed k) rfl rfl]
      refine (hdrop.lookup k).trans ?_
      by_cases hkn : k = nid
      · rw [if_pos hkn,if_pos (Or.inr hkn)]
      · rw [if_neg hkn,halike.lookup,h.index]
        simp [hkn]
    · refine (hbits₂ x).trans ?_
      rw [hbits₁,h.bits,List.map_append,List.map_singleton]
      by_cases hx : x = e.lpa
      · simp [hx,ReclaimEvent.lpa]
      · simp [hx,ReclaimEvent.lpa]
    · rw [List.map_append]
      refine List.nodup_append.mpr ⟨h.once,List.nodup_singleton _,?_⟩
      intro a ha b hb hab
      have hb' : b = e.lpa := List.mem_singleton.mp hb
      exact hfresh (hab.trans hb' ▸ ha)
    · rw [listedIn_append] at hx
      rcases List.mem_append.mp hx with hx | hx
      · exact h.listed x hx
      · cases hx
    · rcases List.mem_append.mp hin with hin | hin
      · exact h.freed hin
      · cases List.mem_singleton.mp hin
        exact ⟨p,e₀,h₀,hm,hl₀.symm⟩
    · rcases split_concat hev with ⟨l₃,hl⟩ | ⟨rfl,hlast⟩
      · exact h.order hl hnz x hx
      · cases hlast
        exact h.childless hchildren hnz hx
  · rw [← halike.keys.length_eq,hdrop.keys.length_eq]
    rfl

theorem Core.subRefCount (hc : Claimable m targets listed) {n : Nat}
    (h : Core m targets listed s (bump ext p) marked)
    (hn : s.manager.nodeCache.keys.length < n) :
    ∃ s', subRefCount n s p = some s' ∧ Core m targets listed s' ext marked ∧
      listedIn s'.events = listedIn s.events := by
  induction n generalizing s p with
  | zero => omega
  | succ n ih =>
    obtain ⟨e,hh⟩ := h.counted.held (p := p) (by rw [bump_self]; omega)
    rw [NodeReclaim.subRefCount,hh.entry]
    simp only
    split
    · rename_i hlast
      exact ⟨_,rfl,h.released hh hlast,rfl⟩
    · rename_i hlast
      obtain ⟨hr,hd⟩ := not_or.mp hlast
      obtain ⟨m',hm',hcore,hparent,hkeys⟩ := h.drop hc hh (not_not.mp hr) (not_not.mp hd)
      have hlisted : listedIn (s.events ++ [.nodeFreed e.nid e.lpa]) = listedIn s.events := by
        rw [listedIn_append]
        exact List.append_nil _
      simp only [hm']
      split
      · rename_i hp
        rw [orphaned,if_pos hp] at hcore
        exact ⟨_,rfl,hcore,hlisted⟩
      · rename_i hp
        obtain ⟨q,hq⟩ := Option.ne_none_iff_exists'.mp (hparent hp)
        rw [orphaned_self e.parentNid hp hq] at hcore
        obtain ⟨s',hs',hcore',hl'⟩ := ih hcore (by change m'.nodeCache.keys.length < n; omega)
        refine ⟨s',?_,hcore',hl'.trans hlisted⟩
        simp only [hq]
        exact hs'

theorem Core.handleDestroy (hc : Claimable m targets listed) (h : Core m targets listed s (bump ext p) marked) :
    ∃ s', handleDestroy s p = some s' ∧ Core m targets listed s' ext marked ∧
      listedIn s'.events = listedIn s.events := h.subRefCount hc (Nat.lt_succ_self _)

theorem Core.listed_fresh (h : Core m targets listed s ext marked) (hc : Claimable m targets listed)
    (hx : lpa ∈ listed) (hnot : lpa ∉ listedIn s.events) : lpa ∉ s.events.map ReclaimEvent.lpa := by
  intro hin
  obtain ⟨ev,hev,hlpa⟩ := List.mem_map.mp hin
  cases ev with
  | lpaInvalidated x =>
    obtain rfl : x = lpa := hlpa
    exact hnot (mem_listedIn.mpr hev)
  | nodeFreed nid x =>
    obtain rfl : x = lpa := hlpa
    obtain ⟨q,eq,hq,hm,rfl⟩ := h.freed hev
    exact (hc.nodeSet hq (h.targets q hm)).2.2 hx

theorem Core.invalidateAll (hc : Claimable m targets listed) {lpas : List UInt32}
    (h : Core m targets listed s ext marked) (hx : ∀ x ∈ lpas, x ∈ listed) (hnd : lpas.Nodup)
    (hnot : ∀ x ∈ lpas, x ∉ listedIn s.events) :
    ∃ s', lpas.foldlM NodeReclaim.invalidateLpa s = some s' ∧ Core m targets listed s' ext marked ∧
      listedIn s'.events = listedIn s.events ++ lpas := by
  induction lpas generalizing s with
  | nil => exact ⟨s,rfl,h,(List.append_nil _).symm⟩
  | cons lpa lpas ih =>
    obtain ⟨hlpa,hnd⟩ := List.nodup_cons.mp hnd
    obtain ⟨s₁,h₁,hcore₁,hev₁⟩ := h.invalidate hc (hx lpa List.mem_cons_self)
      (h.listed_fresh hc (hx lpa List.mem_cons_self) (hnot lpa List.mem_cons_self))
    have hlisted₁ : listedIn s₁.events = listedIn s.events ++ [lpa] := by
      rw [hev₁,listedIn_append]
      rfl
    obtain ⟨s₂,h₂,hcore₂,hlisted₂⟩ := ih hcore₁ (fun x hm => hx x (List.mem_cons_of_mem _ hm)) hnd (fun x hm hin => by
      rw [hlisted₁] at hin
      rcases List.mem_append.mp hin with hin | hin
      · exact hnot x (List.mem_cons_of_mem _ hm) hin
      · exact hlpa (List.mem_singleton.mp hin ▸ hm))
    refine ⟨s₂,?_,hcore₂,?_⟩
    · rw [List.foldlM_cons,h₁]
      exact h₂
    · rw [hlisted₂,hlisted₁,List.append_assoc]
      rfl

theorem Core.freeHandles (hc : Claimable m targets listed) {handles : List (Option Nat)} {rest : List Nat}
    (h : Core m targets listed s (heldBy (handles.filterMap id ++ rest)) marked)
    (ht : ∀ p ∈ handles.filterMap id, targets p) :
    ∃ s', handles.foldlM freeDeletedHandle s = some s' ∧
      Core m targets listed s' (heldBy rest) (fun q => marked q ∨ q ∈ handles.filterMap id) ∧
      listedIn s'.events = listedIn s.events := by
  induction handles generalizing s marked with
  | nil =>
    refine ⟨s,rfl,?_,rfl⟩
    simpa using h
  | cons x handles ih =>
    cases x with
    | none =>
      obtain ⟨s',hs',hcore,hl⟩ := ih h ht
      exact ⟨s',hs',hcore,hl⟩
    | some p =>
      have hheld : heldBy ((some p :: handles).filterMap id ++ rest) =
          bump (heldBy (handles.filterMap id ++ rest)) p := (bump_heldBy _ p).symm
      rw [hheld] at h
      have hp : bump (heldBy (handles.filterMap id ++ rest)) p p ≠ 0 := by
        rw [bump_self]
        exact Nat.succ_ne_zero _
      obtain ⟨e,hh⟩ := h.counted.held hp
      obtain ⟨s₁,h₁,hcore₁,hl₁⟩ := (h.handleDeleteNode hh hp (ht p List.mem_cons_self)).handleDestroy hc
      obtain ⟨s₂,h₂,hcore₂,hl₂⟩ := ih hcore₁ (fun q hq => ht q (List.mem_cons_of_mem _ hq))
      refine ⟨s₂,?_,?_,hl₂.trans hl₁⟩
      · rw [List.foldlM_cons]
        change (NodeReclaim.handleDestroy (NodeReclaim.handleDeleteNode s p) p).bind _ = _
        rw [h₁]
        exact h₂
      · have hmem : (fun q => (marked q ∨ q = p) ∨ q ∈ handles.filterMap id) =
            fun q => marked q ∨ q ∈ (some p :: handles).filterMap id := by
          funext q
          simp [or_assoc]
        rw [← hmem]
        exact hcore₂

theorem Core.drainRecord (hc : Claimable m targets listed) {r : CowReclaimRecord} {rest : List Nat}
    (h : Core m targets listed s (heldBy (r.handles ++ rest)) marked) (hx : ∀ x ∈ r.lpas, x ∈ listed)
    (hnd : r.lpas.Nodup) (hnot : ∀ x ∈ r.lpas, x ∉ listedIn s.events) (ht : ∀ p ∈ r.handles, targets p) :
    ∃ s', drainRecord s r = some s' ∧
      Core m targets listed s' (heldBy rest) (fun q => marked q ∨ q ∈ r.handles) ∧
      listedIn s'.events = listedIn s.events ++ r.lpas := by
  obtain ⟨s₁,h₁,hcore₁,hl₁⟩ := h.invalidateAll hc hx hnd hnot
  obtain ⟨s₂,h₂,hcore₂,hl₂⟩ := hcore₁.freeHandles hc ht
  refine ⟨s₂,?_,hcore₂,hl₂.trans hl₁⟩
  unfold CowReclaimRecord.lpas at h₁
  rw [List.foldlM_append] at h₁
  obtain ⟨s₀,h₀,h₁⟩ := Option.bind_eq_some_iff.mp h₁
  unfold NodeReclaim.drainRecord
  rw [h₀,Option.bind_some,h₁]
  exact h₂

end Invariant

end NodeReclaim

end Rtfs
