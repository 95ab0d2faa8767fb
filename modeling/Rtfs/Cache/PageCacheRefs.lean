import Rtfs.Cache.PageCache
import Rtfs.Klib.KbtreeValid

namespace Rtfs

namespace PageCacheRun

variable {β : Type}

namespace PageCache
variable (c : PageCache β)

structure Cached (p : Nat) (e : PageEntry β) : Prop where
  entry : c.entry p = some e
  lookup : c.lookup e.blkoff = some p

def pinned : List UInt32 := c.cacheManager.replacer.pinned

-- ext are the references held outside, nodes those of the dirty set
structure Counted (wrap : Nat) (ext : Nat → Nat) (nodes : List DirtyPagesNode) : Prop where
  indexed : ∀ k p, c.lookup k = some p → ∃ e, c.entry p = some e ∧ e.blkoff = k
  counted : ∀ p e, c.Cached p e → e.refCount = ext p + if e.isDirty then 1 else 0
  narrow : ∀ p e, c.Cached p e → e.refCount < wrap
  pinned : ∀ p e, c.Cached p e → (e.blkoff ∈ c.pinned ↔ e.refCount ≠ 0)
  held : ∀ p, ext p ≠ 0 → ∃ e, c.Cached p e
  dirty : ∀ p e, c.entry p = some e → e.isDirty = true → c.Cached p e ∧ e.contentState = .pageReady
  nodes : ∀ n, n ∈ nodes ↔ ∃ e, c.entry n.entry = some e ∧ e.isDirty = true ∧ e.blkoff = n.blkoff
  size : c.curSize = c.keys.length

structure Alike (c' : PageCache β) : Prop where
  lookup : ∀ k, c'.lookup k = c.lookup k
  keys : c'.keys.Perm c.keys
  size : c'.curSize = c.curSize

section Frame
variable {c} {c' : PageCache β} {wrap : Nat} {ext ext' : Nat → Nat} {nodes nodes' : List DirtyPagesNode} {p q : Nat}
  {e e' : PageEntry β} {k : UInt32}

theorem mem_keys : k ∈ c.keys ↔ c.lookup k ≠ none := (c.cacheManager.sync k).symm

theorem Cached.eq (h : c.Cached p e) (h' : c.Cached p e') : e = e' := Option.some.inj (h.entry.symm.trans h'.entry)

theorem Counted.has (h : c.Counted wrap ext nodes) (hl : c.lookup k = some p) : ∃ e, c.Cached p e ∧ e.blkoff = k := by
  obtain ⟨e,he,rfl⟩ := h.indexed k p hl
  exact ⟨e,⟨he,hl⟩,rfl⟩

theorem Counted.inj (h : c.Counted wrap ext nodes) (hc : c.Cached p e) (hl : c.lookup k = some p) : k = e.blkoff := by
  obtain ⟨x,hx,rfl⟩ := h.has hl
  rw [Cached.eq hx hc]

theorem Counted.uncached (h : c.Counted wrap ext nodes) (hn : ∀ k, c.lookup k ≠ some p) : ext p = 0 := by
  by_contra hne
  obtain ⟨e,he⟩ := h.held p hne
  exact hn _ he.lookup

theorem Counted.node_iff (h : c.Counted wrap ext nodes) (he : c.entry p = some e) (n : DirtyPagesNode)
    (hp : n.entry = p) : n ∈ nodes ↔ e.isDirty = true ∧ e.blkoff = n.blkoff := by
  rw [h.nodes,hp]
  constructor
  · rintro ⟨x,hx,hd,hb⟩
    obtain rfl := Option.some.inj (he.symm.trans hx)
    exact ⟨hd,hb⟩
  · rintro ⟨hd,hb⟩
    exact ⟨e,he,hd,hb⟩

theorem Counted.clean (h : c.Counted wrap ext nodes) (hc : c.Cached p e) (hle : e.refCount ≤ ext p) :
    e.isDirty = false := by
  have hcount := h.counted p e hc
  cases hd : e.isDirty with
  | false => rfl
  | true =>
    rw [hd,if_pos rfl] at hcount
    omega

theorem Counted.nodes_kept (h : c.Counted wrap ext nodes) (he : c.entry p = some e) (n : DirtyPagesNode) :
    n ∈ nodes ↔ if n.entry = p then e.isDirty = true ∧ n.blkoff = e.blkoff else n ∈ nodes := by
  split
  · rename_i hp
    rw [h.node_iff he n hp,eq_comm (a := e.blkoff)]
  · rfl

theorem Counted.pinned_kept (h : c.Counted wrap ext nodes) (hc : c.Cached p e) (k : UInt32) :
    k ∈ c.pinned ↔ if k = e.blkoff then e.refCount ≠ 0 else k ∈ c.pinned := by
  split
  · rename_i hk
    rw [hk]
    exact h.pinned p e hc
  · rfl

theorem Counted.node_unique (h : c.Counted wrap ext nodes) (hc : c.Cached p e) {n : DirtyPagesNode} (hn : n ∈ nodes)
    (hb : n.blkoff = e.blkoff) : n.entry = p ∧ e.isDirty = true := by
  obtain ⟨x,hx,hd,hxb⟩ := (h.nodes n).mp hn
  have hl := (h.dirty _ x hx hd).1.lookup
  rw [hxb,hb] at hl
  have hp : n.entry = p := Option.some.inj (hl.symm.trans hc.lookup)
  rw [hp] at hx
  obtain rfl := Option.some.inj (hx.symm.trans hc.entry)
  exact ⟨hp,hd⟩

theorem Counted.lru (h : c.Counted wrap ext nodes) (hc : c.Cached p e) :
    e.blkoff ∈ c.cacheManager.replacer.lru ↔ e.refCount = 0 := by
  have hpin := h.pinned p e hc
  have hkey : e.blkoff ∈ c.keys := mem_keys.mpr (by rw [hc.lookup]; exact Option.some_ne_none p)
  constructor
  · intro hmem
    by_contra hne
    exact (List.nodup_append.mp c.cacheManager.replacer.nodup).2.2 _ hmem _ (hpin.mpr hne) rfl
  · intro hz
    exact (List.mem_append.mp hkey).resolve_right (fun hp => hpin.mp hp hz)

theorem Counted.changeAt (h : c.Counted wrap ext nodes) (hc : c.Cached p e) (e' : PageEntry β) (ha : c.Alike c')
    (he : ∀ q, c'.entry q = if q = p then some e' else c.entry q) (hb : e'.blkoff = e.blkoff)
    (hext : ∀ q, q ≠ p → ext' q = ext q) (hcount : e'.refCount = ext' p + if e'.isDirty then 1 else 0)
    (hlt : e'.refCount < wrap) (hpin : ∀ k, k ∈ c'.pinned ↔ if k = e.blkoff then e'.refCount ≠ 0 else k ∈ c.pinned)
    (hnodes : ∀ n, n ∈ nodes' ↔ if n.entry = p then e'.isDirty = true ∧ n.blkoff = e.blkoff else n ∈ nodes)
    (hready : e'.isDirty = true → e'.contentState = .pageReady) : c'.Counted wrap ext' nodes' := by
  have hself : c'.Cached p e' := ⟨by rw [he,if_pos rfl],by rw [hb,ha.lookup]; exact hc.lookup⟩
  have hother {q : Nat} {x : PageEntry β} (hq : q ≠ p) : c'.Cached q x ↔ c.Cached q x := by
    constructor
    · intro hx
      have hxe := hx.entry
      rw [he,if_neg hq] at hxe
      exact ⟨hxe,(ha.lookup _).symm.trans hx.lookup⟩
    · intro hx
      exact ⟨by rw [he,if_neg hq]; exact hx.entry,(ha.lookup _).trans hx.lookup⟩
  -- another entry has another block
  have hblk {q : Nat} {x : PageEntry β} (hq : q ≠ p) (hx : c.Cached q x) : x.blkoff ≠ e.blkoff := by
    intro heq
    have hl := hx.lookup
    rw [heq] at hl
    exact hq (Option.some.inj (hl.symm.trans hc.lookup))
  refine ⟨fun k q hl => ?_,fun q x hx => ?_,fun q x hx => ?_,fun q x hx => ?_,fun q hq => ?_,fun q x hx hd => ?_,
    fun n => ?_,?_⟩
  · obtain ⟨x,hx,rfl⟩ := h.indexed k q ((ha.lookup k).symm.trans hl)
    by_cases hq : q = p
    · subst hq
      obtain rfl := Option.some.inj (hx.symm.trans hc.entry)
      exact ⟨e',hself.entry,hb⟩
    · exact ⟨x,by rw [he,if_neg hq]; exact hx,rfl⟩
  · by_cases hq : q = p
    · subst hq
      rw [Cached.eq hx hself]
      exact hcount
    · rw [hext q hq]
      exact h.counted q x ((hother hq).mp hx)
  · by_cases hq : q = p
    · subst hq
      rw [Cached.eq hx hself]
      exact hlt
    · exact h.narrow q x ((hother hq).mp hx)
  · rw [hpin]
    by_cases hq : q = p
    · subst hq
      rw [Cached.eq hx hself,if_pos hb]
    · have hx' := (hother hq).mp hx
      rw [if_neg (hblk hq hx')]
      exact h.pinned q x hx'
  · by_cases hqp : q = p
    · subst hqp
      exact ⟨e',hself⟩
    · rw [hext q hqp] at hq
      obtain ⟨x,hx⟩ := h.held q hq
      exact ⟨x,(hother hqp).mpr hx⟩
  · by_cases hq : q = p
    · subst hq
      have hxe := hx.symm.trans hself.entry
      obtain rfl := Option.some.inj hxe
      exact ⟨hself,hready hd⟩
    · rw [he,if_neg hq] at hx
      obtain ⟨hx',hr⟩ := h.dirty q x hx hd
      exact ⟨(hother hq).mpr hx',hr⟩
  · rw [hnodes,he]
    by_cases hn : n.entry = p
    · rw [if_pos hn,if_pos hn]
      constructor
      · rintro ⟨hd,hnb⟩
        exact ⟨e',rfl,hd,hb.trans hnb.symm⟩
      · rintro ⟨x,hx,hd,hxb⟩
        obtain rfl := Option.some.inj hx
        exact ⟨hd,hxb.symm.trans hb⟩
    · rw [if_neg hn,if_neg hn]
      exact h.nodes n
  · rw [ha.size,h.size]
    exact ha.keys.length_eq.symm

theorem Counted.evict (h : c.Counted wrap ext nodes) (hc : c.Cached p e) (hz : e.refCount = 0)
    (hl : ∀ k, c'.lookup k = if k = e.blkoff then none else c.lookup k) (he : ∀ q, c'.entry q = c.entry q)
    (hkeys : (e.blkoff :: c'.keys).Perm c.keys) (hpin : ∀ k, k ∈ c'.pinned ↔ k ∈ c.pinned)
    (hs : c'.curSize = c.curSize - 1) : c'.Counted wrap ext nodes := by
  have hcount := h.counted p e hc
  have hclean : e.isDirty = false := h.clean hc (by omega)
  have hext : ext p = 0 := by omega
  have hsub {q : Nat} {x : PageEntry β} (hx : c'.Cached q x) : c.Cached q x := by
    have hxl := hx.lookup
    rw [hl] at hxl
    split at hxl
    · cases hxl
    · exact ⟨(he q).symm.trans hx.entry,hxl⟩
  have hkeep {q : Nat} {x : PageEntry β} (hx : c.Cached q x) (hq : q ≠ p) : c'.Cached q x := by
    refine ⟨(he q).trans hx.entry,?_⟩
    rw [hl,if_neg]
    · exact hx.lookup
    · intro heq
      have hxl := hx.lookup
      rw [heq] at hxl
      exact hq (Option.some.inj (hxl.symm.trans hc.lookup))
  refine ⟨fun k q hk => ?_,fun q x hx => h.counted q x (hsub hx),fun q x hx => h.narrow q x (hsub hx),
    fun q x hx => ?_,fun q hq => ?_,fun q x hx hd => ?_,fun n => ?_,?_⟩
  · rw [hl] at hk
    split at hk
    · cases hk
    · rw [he]
      exact h.indexed k q hk
  · rw [hpin]
    exact h.pinned q x (hsub hx)
  · obtain ⟨x,hx⟩ := h.held q hq
    refine ⟨x,hkeep hx ?_⟩
    rintro rfl
    exact hq hext
  · rw [he] at hx
    obtain ⟨hx',hr⟩ := h.dirty q x hx hd
    refine ⟨hkeep hx' ?_,hr⟩
    rintro rfl
    rw [Cached.eq hx' hc,hclean] at hd
    cases hd
  · rw [h.nodes,he]
  · have hlen := hkeys.length_eq
    rw [List.length_cons] at hlen
    rw [hs,h.size]
    omega

theorem Counted.insert (h : c.Counted wrap ext nodes) (hn : ∀ k, c.lookup k ≠ some p) (hk : c.lookup k = none)
    (he : ∀ q, c'.entry q = if q = p then some e' else c.entry q) (hb : e'.blkoff = k) (hz : e'.refCount = 0)
    (hclean : e'.isDirty = false) (hwrap : 0 < wrap) (hl : ∀ j, c'.lookup j = if j = k then some p else c.lookup j)
    (hkeys : c'.keys.Perm (k :: c.keys)) (hpin : ∀ k, k ∈ c'.pinned ↔ k ∈ c.pinned)
    (hs : c'.curSize = c.curSize + 1) : c'.Counted wrap ext nodes := by
  have hext := h.uncached hn
  have hself : c'.Cached p e' := ⟨by rw [he,if_pos rfl],by rw [hl,hb,if_pos rfl]⟩
  have hother {q : Nat} {x : PageEntry β} (hq : q ≠ p) : c'.Cached q x ↔ c.Cached q x := by
    constructor
    · intro hx
      have hxe := hx.entry
      have hxl := hx.lookup
      rw [he,if_neg hq] at hxe
      rw [hl] at hxl
      split at hxl
      · exact absurd (Option.some.inj hxl).symm hq
      · exact ⟨hxe,hxl⟩
    · intro hx
      refine ⟨by rw [he,if_neg hq]; exact hx.entry,?_⟩
      rw [hl,if_neg]
      · exact hx.lookup
      · intro heq
        have hxl := hx.lookup
        rw [heq,hk] at hxl
        cases hxl
  have hnode (n : DirtyPagesNode) (hp : n.entry = p) : n ∉ nodes := by
    intro hin
    obtain ⟨x,hx,hd,-⟩ := (h.nodes n).mp hin
    rw [hp] at hx
    exact hn _ (h.dirty p x hx hd).1.lookup
  refine ⟨fun j q hj => ?_,fun q x hx => ?_,fun q x hx => ?_,fun q x hx => ?_,fun q hq => ?_,fun q x hx hd => ?_,
    fun n => ?_,?_⟩
  · rw [hl] at hj
    split at hj
    · rename_i hjk
      obtain rfl := Option.some.inj hj
      exact ⟨e',hself.entry,hb.trans hjk.symm⟩
    · have hq : q ≠ p := fun hqp => hn j (hqp ▸ hj)
      rw [he,if_neg hq]
      exact h.indexed j q hj
  · by_cases hq : q = p
    · subst hq
      rw [Cached.eq hx hself,hz,hclean,hext]
      rfl
    · exact h.counted q x ((hother hq).mp hx)
  · by_cases hq : q = p
    · subst hq
      rw [Cached.eq hx hself,hz]
      exact hwrap
    · exact h.narrow q x ((hother hq).mp hx)
  · rw [hpin]
    by_cases hq : q = p
    · subst hq
      rw [Cached.eq hx hself,hb,hz]
      refine iff_of_false (fun hin => ?_) (fun hne => hne rfl)
      exact mem_keys.mp (List.mem_append_right _ hin) hk
    · exact h.pinned q x ((hother hq).mp hx)
  · obtain ⟨x,hx⟩ := h.held q hq
    by_cases hqp : q = p
    · rw [hqp] at hq
      exact absurd hext hq
    · exact ⟨x,(hother hqp).mpr hx⟩
  · by_cases hq : q = p
    · subst hq
      obtain rfl := Option.some.inj (hx.symm.trans hself.entry)
      rw [hclean] at hd
      cases hd
    · rw [he,if_neg hq] at hx
      obtain ⟨hx',hr⟩ := h.dirty q x hx hd
      exact ⟨(hother hq).mpr hx',hr⟩
  · rw [he]
    by_cases hq : n.entry = p
    · rw [if_pos hq]
      refine iff_of_false (hnode n hq) ?_
      rintro ⟨x,hx,hd,-⟩
      obtain rfl := Option.some.inj hx
      rw [hclean] at hd
      cases hd
    · rw [if_neg hq]
      exact h.nodes n
  · rw [hs,h.size,hkeys.length_eq,List.length_cons]

end Frame

section Counting
variable {c} {c' : PageCache β} {abi : Abi} {ext : Nat → Nat} {nodes : List DirtyPagesNode} {p : Nat} {e : PageEntry β}
  {k : UInt32}

theorem Abi.wrap_gt (abi : Abi) : 1 < abi.wrap :=
  Nat.lt_of_lt_of_le (by decide : 1 < 2 ^ 32) (Nat.pow_le_pow_right (by decide) abi.wide)

theorem find_ok (he : c.entry p = some e) : c.find p = .ok e := by
  unfold find
  rw [he]

theorem entry_modify (he : c.entry p = some e) (f : PageEntry β → PageEntry β) (q : Nat) :
    (c.modify p f).entry q = if q = p then some (f e) else c.entry q := by
  unfold entry at he ⊢
  change (c.entries.modify p f)[q]? = _
  rw [List.getElem?_modify]
  by_cases hq : q = p
  · subst hq
    simp [he]
  · simp [hq,Ne.symm hq]

theorem alike_modify (c : PageCache β) (p : Nat) (f : PageEntry β → PageEntry β) : c.Alike (c.modify p f) :=
  ⟨fun _ => rfl,.refl _,rfl⟩

theorem Alike.trans {c'' : PageCache β} (h : c.Alike c') (h' : c'.Alike c'') : c.Alike c'' :=
  ⟨fun k => (h'.lookup k).trans (h.lookup k),h'.keys.trans h.keys,h'.size.trans h.size⟩

theorem alike_pin (c : PageCache β) (k : UInt32) : c.Alike (c.pin k) :=
  ⟨fun _ => rfl,CacheLruReplacer.pin_keys k,rfl⟩

theorem alike_unpin (c : PageCache β) (k : UInt32) : c.Alike (c.unpin k) :=
  ⟨fun _ => rfl,CacheLruReplacer.unpin_keys k,rfl⟩

structure Steady (c c' : PageCache β) : Prop where
  tree : c'.dirtyPages = c.dirtyPages
  expect : c'.expectSize = c.expectSize
  alike : c.Alike c'

theorem addRef_spec (h : c.Counted abi.wrap ext nodes) (hc : c.Cached p e) (hroom : e.refCount + 1 < abi.wrap) :
    ∃ c', pageCacheAddRefCount abi c p = .ok c' ∧ c'.Counted abi.wrap (more ext p) nodes ∧ Steady c c' ∧
      ∀ q, c'.entry q = if q = p then some { e with refCount := e.refCount + 1 } else c.entry q := by
  have hcount := h.counted p e hc
  have hnodes := h.nodes_kept hc.entry
  have hmod : (e.refCount + 1) % abi.wrap = e.refCount + 1 := Nat.mod_eq_of_lt hroom
  have hent := entry_modify hc.entry (fun e => { e with refCount := (e.refCount + 1) % abi.wrap })
  simp only [hmod] at hent
  have hmore : more ext p p = ext p + 1 := Function.update_self ..
  have hother (q : Nat) (hq : q ≠ p) : more ext p q = ext q := Function.update_of_ne hq ..
  have hchange (c' : PageCache β) (ha : c.Alike c')
      (he : ∀ q, c'.entry q = if q = p then some { e with refCount := e.refCount + 1 } else c.entry q)
      (hpin : ∀ k, k ∈ c'.pinned ↔ if k = e.blkoff then e.refCount + 1 ≠ 0 else k ∈ c.pinned) :
      c'.Counted abi.wrap (more ext p) nodes :=
    h.changeAt hc _ ha he rfl hother (by rw [hmore]; dsimp only; omega) hroom hpin hnodes
      (fun hd => (h.dirty p e hc.entry hd).2)
  unfold pageCacheAddRefCount
  rw [find_ok hc.entry]
  by_cases hz : e.refCount = 0
  · have hclean : e.isDirty = false := h.clean hc (by omega)
    have ha := (alike_modify c p (fun e => { e with refCount := (e.refCount + 1) % abi.wrap })).trans
      (alike_pin _ e.blkoff)
    refine ⟨_,?_,hchange _ ha hent (fun k => ?_),⟨rfl,rfl,ha⟩,hent⟩
    · change (if e.refCount = 0 then _ else _) = _
      rw [if_pos hz,hclean]
      rfl
    · change k ∈ (c.cacheManager.replacer.pin e.blkoff).pinned ↔ _
      rw [CacheLruReplacer.mem_pin_pinned]
      by_cases hk : k = e.blkoff
      · subst hk
        rw [if_pos rfl]
        exact iff_of_true (.inr ⟨rfl,(h.lru hc).mpr hz⟩) (Nat.succ_ne_zero _)
      · rw [if_neg hk]
        exact ⟨fun hin => hin.resolve_right (fun hand => hk hand.1),.inl⟩
  · have ha := alike_modify c p (fun e => { e with refCount := (e.refCount + 1) % abi.wrap })
    refine ⟨_,?_,hchange _ ha hent (fun k => ?_),⟨rfl,rfl,ha⟩,hent⟩
    · change (if e.refCount = 0 then _ else _) = _
      rw [if_neg hz]
    · by_cases hk : k = e.blkoff
      · subst hk
        rw [if_pos rfl]
        exact iff_of_true ((h.pinned p e hc).mpr hz) (Nat.succ_ne_zero _)
      · rw [if_neg hk]
        rfl

theorem subRef_spec (h : c.Counted abi.wrap (more ext p) nodes) :
    ∃ e c', c.Cached p e ∧ pageCacheSubRefCount abi c p = .ok c' ∧ c'.Counted abi.wrap ext nodes ∧ Steady c c' ∧
      e.refCount ≠ 0 ∧ ∀ q, c'.entry q = if q = p then some { e with refCount := e.refCount - 1 } else c.entry q := by
  have hmore : more ext p p = ext p + 1 := Function.update_self ..
  have hother (q : Nat) (hq : q ≠ p) : more ext p q = ext q := Function.update_of_ne hq ..
  obtain ⟨e,hc⟩ := h.held p (by rw [hmore]; exact Nat.succ_ne_zero _)
  have hcount := h.counted p e hc
  rw [hmore] at hcount
  have hlt := h.narrow p e hc
  have hnodes := h.nodes_kept hc.entry
  have hmod : (e.refCount + (abi.wrap - 1)) % abi.wrap = e.refCount - 1 := by
    have hsum : e.refCount + (abi.wrap - 1) = e.refCount - 1 + abi.wrap := by omega
    rw [hsum,Nat.add_mod_right,Nat.mod_eq_of_lt (by omega)]
  have hent := entry_modify hc.entry (fun e => { e with refCount := (e.refCount + (abi.wrap - 1)) % abi.wrap })
  simp only [hmod] at hent
  have hchange (c' : PageCache β) (ha : c.Alike c')
      (he : ∀ q, c'.entry q = if q = p then some { e with refCount := e.refCount - 1 } else c.entry q)
      (hpin : ∀ k, k ∈ c'.pinned ↔ if k = e.blkoff then e.refCount - 1 ≠ 0 else k ∈ c.pinned) :
      c'.Counted abi.wrap ext nodes :=
    h.changeAt hc _ ha he rfl (fun q hq => (hother q hq).symm) (by dsimp only; omega) (by dsimp only; omega) hpin
      hnodes (fun hd => (h.dirty p e hc.entry hd).2)
  have hne : e.refCount ≠ 0 := by omega
  by_cases hone : e.refCount = 1
  · have hclean : e.isDirty = false := h.clean hc (by omega)
    have ha := (alike_modify c p (fun e => { e with refCount := (e.refCount + (abi.wrap - 1)) % abi.wrap })).trans
      (alike_unpin _ e.blkoff)
    refine ⟨e,_,hc,?_,hchange _ ha hent (fun k => ?_),⟨rfl,rfl,ha⟩,hne,hent⟩
    · unfold pageCacheSubRefCount
      rw [find_ok hc.entry]
      change (if e.refCount = 1 then _ else _) = _
      rw [if_pos hone,hclean]
      rfl
    · change k ∈ (c.cacheManager.replacer.unpin e.blkoff).pinned ↔ _
      rw [CacheLruReplacer.mem_unpin_pinned]
      by_cases hk : k = e.blkoff
      · subst hk
        rw [if_pos rfl]
        exact iff_of_false (fun hin => hin.2 rfl) (by omega)
      · rw [if_neg hk]
        exact ⟨fun hin => hin.1,fun hin => ⟨hin,hk⟩⟩
  · have ha := alike_modify c p (fun e => { e with refCount := (e.refCount + (abi.wrap - 1)) % abi.wrap })
    refine ⟨e,_,hc,?_,hchange _ ha hent (fun k => ?_),⟨rfl,rfl,ha⟩,hne,hent⟩
    · unfold pageCacheSubRefCount
      rw [find_ok hc.entry]
      change (if e.refCount = 1 then _ else _) = _
      rw [if_neg hone]
    · by_cases hk : k = e.blkoff
      · subst hk
        rw [if_pos rfl]
        exact iff_of_true ((h.pinned p e hc).mpr hne) (by omega)
      · rw [if_neg hk]
        rfl

end Counting

section Replace
variable {c} {c' : PageCache β} {abi : Abi} {ext : Nat → Nat} {nodes : List DirtyPagesNode} {p : Nat} {e : PageEntry β}
  {k : UInt32} {m : GenericCacheManager Nat}

structure Trimmed (c c' : PageCache β) : Prop where
  tree : c'.dirtyPages = c.dirtyPages
  expect : c'.expectSize = c.expectSize
  entries : c'.entries = c.entries

theorem victim_spec (h : c.Counted abi.wrap ext nodes) (hr : c.cacheManager.replaceOne = some (k,p,m)) :
    ∃ e, c.Cached p e ∧ e.blkoff = k ∧ e.refCount = 0 ∧ e.isDirty = false ∧
      takeVictim c p m = .ok { c with cacheManager := m } ∧
      ({ c with cacheManager := m, curSize := c.curSize - 1 } : PageCache β).Counted abi.wrap ext nodes ∧
      m.index = Function.update c.cacheManager.index k none ∧ c.keys = k :: m.replacer.keys := by
  obtain ⟨hl,hindex,hlru,hpin⟩ := GenericCacheManager.replaceOne_spec hr
  have hkeys := GenericCacheManager.replaceOne_keys hr
  obtain ⟨e,hc,rfl⟩ := h.has hl
  have hz : e.refCount = 0 := (h.lru hc).mp (hlru ▸ List.mem_cons_self)
  have hclean : e.isDirty = false := h.clean hc (by omega)
  refine ⟨e,hc,rfl,hz,hclean,?_,?_,hindex,hkeys⟩
  · unfold takeVictim
    rw [find_ok hc.entry]
    change (if e.refCount ≠ 0 ∨ e.isDirty = true then _ else _) = _
    rw [if_neg]
    rintro (hne | hd)
    · exact hne hz
    · rw [hclean] at hd
      cases hd
  · refine h.evict hc hz (fun k => ?_) (fun _ => rfl) (List.Perm.of_eq hkeys.symm) (fun k => ?_) rfl
    · change m.index k = _
      rw [hindex,Function.update_apply]
      rfl
    · change k ∈ m.replacer.pinned ↔ _
      rw [hpin]
      rfl

theorem replaceWhile_spec (n : Nat) (h : c.Counted abi.wrap ext nodes) (hn : c.keys.length < n) :
    ∃ c', replaceWhile n c = .ok c' ∧ c'.Counted abi.wrap ext nodes ∧ Trimmed c c' := by
  induction n generalizing c with
  | zero => exact absurd hn (Nat.not_lt_zero _)
  | succ n ih =>
    rw [replaceWhile]
    cases hr : c.cacheManager.replaceOne with
    | none => exact ⟨c,rfl,h,rfl,rfl,rfl⟩
    | some r =>
      obtain ⟨k,p,m⟩ := r
      obtain ⟨e,-,-,-,-,htake,hc,-,hkeys⟩ := victim_spec h hr
      simp only [htake]
      change ∃ c', (if c.curSize - 1 ≤ c.expectSize then _ else _) = _ ∧ _
      by_cases hle : c.curSize - 1 ≤ c.expectSize
      · rw [if_pos hle]
        exact ⟨_,rfl,hc,rfl,rfl,rfl⟩
      · rw [if_neg hle]
        have hlen : m.replacer.keys.length < n := by
          rw [hkeys,List.length_cons] at hn
          omega
        obtain ⟨c',he,hc',ht⟩ := ih hc hlen
        exact ⟨c',he,hc',ht.tree,ht.expect,ht.entries⟩

theorem doReplace_spec (h : c.Counted abi.wrap ext nodes) :
    ∃ c', pageCacheDoReplace c = .ok c' ∧ c'.Counted abi.wrap ext nodes ∧ Trimmed c c' := by
  unfold pageCacheDoReplace
  split
  · exact ⟨c,rfl,h,rfl,rfl,rfl⟩
  · exact replaceWhile_spec _ h (Nat.lt_succ_self _)

structure Got (abi : Abi) (c : PageCache β) (ext : Nat → Nat) (nodes : List DirtyPagesNode) (blkoff : UInt32)
    (r : Nat × PageCache β) : Prop where
  counted : r.2.Counted abi.wrap (more ext r.1) nodes
  tree : r.2.dirtyPages = c.dirtyPages
  block : ∃ e, r.2.Cached r.1 e ∧ e.blkoff = blkoff

theorem got_of_counted {blkoff : UInt32} {r : Nat × PageCache β} (h : r.2.Counted abi.wrap (more ext r.1) nodes)
    (ht : r.2.dirtyPages = c.dirtyPages) (he : ∃ e, r.2.entry r.1 = some e ∧ e.blkoff = blkoff) :
    Got abi c ext nodes blkoff r := by
  refine ⟨h,ht,?_⟩
  obtain ⟨e,he,hb⟩ := he
  have hne : more ext r.1 r.1 ≠ 0 := by
    unfold more
    rw [Function.update_self]
    exact Nat.succ_ne_zero _
  obtain ⟨x,hx⟩ := h.held r.1 hne
  obtain rfl := Option.some.inj (he.symm.trans hx.entry)
  exact ⟨e,hx,hb⟩

theorem get_cached {blkoff : UInt32} (h : c.Counted abi.wrap ext nodes) (hc : c.Cached p e) (hb : e.blkoff = blkoff)
    (hroom : e.refCount + 1 < abi.wrap) (page : β) :
    ∃ r, pageCacheGet abi c blkoff page = .ok r ∧ Got abi c ext nodes blkoff r := by
  subst hb
  have haccess : ({ c with
      cacheManager := c.cacheManager.access e.blkoff } : PageCache β).Counted abi.wrap ext nodes := by
    refine h.changeAt hc e ⟨fun _ => rfl,CacheLruReplacer.access_keys e.blkoff,rfl⟩ (fun q => ?_) rfl
      (fun _ _ => rfl) (h.counted p e hc) (h.narrow p e hc)
      (fun k => (CacheLruReplacer.mem_access_pinned e.blkoff k).trans (h.pinned_kept hc k)) (h.nodes_kept hc.entry)
      (fun hd => (h.dirty p e hc.entry hd).2)
    by_cases hq : q = p
    · subst hq
      rw [if_pos rfl]
      exact hc.entry
    · rw [if_neg hq]
      rfl
  have hcached : ({ c with cacheManager := c.cacheManager.access e.blkoff } : PageCache β).Cached p e :=
    ⟨hc.entry,hc.lookup⟩
  obtain ⟨c',hadd,hcount,hs,hent⟩ := addRef_spec haccess hcached hroom
  refine ⟨(p,c'),?_,got_of_counted hcount hs.tree ⟨_,(hent p).trans (if_pos rfl),rfl⟩⟩
  unfold pageCacheGet
  simp only [hc.lookup,hadd]
  rfl

theorem get_reuse {blkoff : UInt32} (h : c.Counted abi.wrap ext nodes) (hnew : c.lookup blkoff = none)
    (hr : c.cacheManager.replaceOne = some (k,p,m)) :
    ∃ c', pageCacheReuse abi c blkoff p m = .ok c' ∧ Got abi c ext nodes blkoff (p,c') := by
  obtain ⟨e,hc,rfl,hz,hclean,htake,hc₁,hindex,hkeys⟩ := victim_spec h hr
  have hnone : m.index blkoff = none := by
    rw [hindex,Function.update_apply]
    split
    · rfl
    · exact hnew
  -- no block of the smaller index has this entry
  have hfree (j : UInt32) : m.index j ≠ some p := by
    rw [hindex,Function.update_apply]
    split
    · exact nofun
    · rename_i hj
      exact fun hl => hj (h.inj hc hl)
  have hpos : c.curSize = c.curSize - 1 + 1 := by
    have hsize := h.size
    rw [hkeys,List.length_cons] at hsize
    omega
  let reused (e : PageEntry β) : PageEntry β := { e with
    blkoff := blkoff, lpa := invalidLpa, contentState := .pageInvalid }
  let c₂ : PageCache β := { c with
    cacheManager := m.add blkoff p hnone
    entries := c.entries.modify p reused }
  have hadd : addToManager (({ c with cacheManager := m } : PageCache β).modify p reused) blkoff p = .ok c₂ := by
    unfold addToManager
    exact dif_pos hnone
  have hent (q : Nat) : c₂.entry q = if q = p then some (reused e) else c.entry q := entry_modify hc.entry reused q
  have hc₂ : c₂.Counted abi.wrap ext nodes :=
    hc₁.insert hfree hnone hent rfl hz hclean (Nat.lt_of_succ_lt (Abi.wrap_gt abi))
      (fun j => Function.update_apply ..) (CacheLruReplacer.add_keys (GenericCacheManager.notMem_of_none hnone))
      (fun _ => Iff.rfl) hpos
  have hcached : c₂.Cached p (reused e) := ⟨by rw [hent,if_pos rfl],Function.update_self ..⟩
  have hroom : (reused e).refCount + 1 < abi.wrap := by
    change e.refCount + 1 < _
    rw [hz]
    exact Abi.wrap_gt abi
  obtain ⟨c₃,href,hc₃,hs,hent₃⟩ := addRef_spec hc₂ hcached hroom
  obtain ⟨c',hrep,hc',ht⟩ := doReplace_spec hc₃
  refine ⟨c',?_,got_of_counted hc' (ht.tree.trans hs.tree)
    ⟨{ reused e with refCount := (reused e).refCount + 1 },?_,rfl⟩⟩
  · unfold pageCacheReuse
    rw [htake]
    change (addToManager _ _ _).bind _ = _
    rw [hadd]
    change (pageCacheAddRefCount abi c₂ p).bind _ = _
    rw [href]
    exact hrep
  · change c'.entry p = _
    unfold PageCache.entry
    rw [ht.entries]
    exact (hent₃ p).trans (if_pos rfl)

theorem get_new {blkoff : UInt32} (h : c.Counted abi.wrap ext nodes) (hnew : c.lookup blkoff = none) (page : β) :
    ∃ c', pageCacheNew abi c blkoff page = .ok c' ∧ Got abi c ext nodes blkoff (c.entries.length,c') := by
  have hnone : c.cacheManager.index blkoff = none := hnew
  let c₂ : PageCache β := { c with
    cacheManager := c.cacheManager.add blkoff c.entries.length hnone
    entries := c.entries ++ [pageEntryInit page blkoff] }
  let c₃ : PageCache β := { c₂ with curSize := c.curSize + 1 }
  have hent (q : Nat) : c₃.entry q = if q = c.entries.length then some (pageEntryInit page blkoff) else c.entry q := by
    change (c.entries ++ [pageEntryInit page blkoff])[q]? = _
    by_cases hq : q = c.entries.length
    · subst hq
      rw [if_pos rfl,List.getElem?_concat_length]
    · rw [if_neg hq]
      rcases Nat.lt_or_gt_of_ne hq with hlt | hgt
      · exact List.getElem?_append_left hlt
      · rw [List.getElem?_eq_none (by rw [List.length_append]; exact hgt)]
        exact (List.getElem?_eq_none hgt.le).symm
  have hfree (j : UInt32) : c.lookup j ≠ some c.entries.length := by
    intro hl
    obtain ⟨x,hx,-⟩ := h.indexed j _ hl
    exact absurd (List.getElem?_eq_some_iff.mp hx).1 (Nat.lt_irrefl _)
  have hc₃ : c₃.Counted abi.wrap ext nodes :=
    h.insert hfree hnew hent rfl rfl rfl (Nat.lt_of_succ_lt (Abi.wrap_gt abi))
      (fun j => Function.update_apply ..) (CacheLruReplacer.add_keys (GenericCacheManager.notMem_of_none hnone))
      (fun _ => Iff.rfl) rfl
  have hcached : c₃.Cached c.entries.length (pageEntryInit page blkoff) :=
    ⟨by rw [hent,if_pos rfl],Function.update_self ..⟩
  obtain ⟨c',href,hc',hs,hent'⟩ := addRef_spec hc₃ hcached (Abi.wrap_gt abi)
  have hcomm : (pageCacheAddRefCount abi c₂ c.entries.length).map (fun x => { x with curSize := x.curSize + 1 }) =
      pageCacheAddRefCount abi c₃ c.entries.length := by
    unfold pageCacheAddRefCount
    rw [find_ok (c := c₂) hcached.entry,find_ok hcached.entry]
    rfl
  refine ⟨c',?_,got_of_counted hc' hs.tree ⟨_,(hent' _).trans (if_pos rfl),rfl⟩⟩
  unfold pageCacheNew
  have hadd : addToManager ({ c with entries := c.entries ++ [pageEntryInit page blkoff] } : PageCache β) blkoff
      c.entries.length = .ok c₂ := by
    unfold addToManager
    exact dif_pos hnone
  rw [hadd]
  exact hcomm.trans href

theorem get_spec (blkoff : UInt32) (h : c.Counted abi.wrap ext nodes)
    (hroom : ∀ p e, c.Cached p e → e.blkoff = blkoff → e.refCount + 1 < abi.wrap) (page : β) :
    ∃ r, pageCacheGet abi c blkoff page = .ok r ∧ Got abi c ext nodes blkoff r := by
  cases hl : c.lookup blkoff with
  | some p =>
    obtain ⟨e,hc,hb⟩ := h.has hl
    exact get_cached h hc hb (hroom p e hc hb) page
  | none =>
    unfold pageCacheGet
    rw [hl]
    simp only
    cases hv : if c.curSize < c.expectSize then none else c.cacheManager.replaceOne with
    | none =>
      obtain ⟨c',he,hg⟩ := get_new h hl page
      exact ⟨_,by rw [he]; rfl,hg⟩
    | some r =>
      obtain ⟨k,p,m⟩ := r
      have hr : c.cacheManager.replaceOne = some (k,p,m) := by
        split at hv
        · cases hv
        · exact hv
      obtain ⟨c',he,hg⟩ := get_reuse h hl hr
      exact ⟨_,by simp only [he]; rfl,hg⟩

end Replace

end PageCache

end PageCacheRun

end Rtfs
