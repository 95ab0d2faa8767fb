import Rtfs.Cache.PageCacheDirty

namespace Rtfs

namespace PageCacheRun

open PageCache

variable {β : Type} (abi : Abi)

section Runs
variable (s : Run β)

def Legal : PageOp β → Prop
  | .copy p => s.handles p ≠ 0
  | .destroy p => s.handles p ≠ 0
  | .load p _ _ => s.handles p ≠ 0
  | .makeDirty p => s.handles p ≠ 0 ∧ ∀ e, s.cache.entry p = some e → e.contentState = .pageReady
  | _ => True

def Run.refs (p : Nat) (e : PageEntry β) : Nat := s.handles p + if e.isDirty then 1 else 0

-- an operation that takes a reference leaves it one below the end of the counter
def Room : PageOp β → Prop
  | .get blkoff _ => ∀ p e, s.cache.lookup blkoff = some p → s.cache.entry p = some e → s.refs p e < abi.wrap - 1
  | .copy p => ∀ e, s.cache.entry p = some e → s.refs p e < abi.wrap - 1
  | .makeDirty p => ∀ e, s.cache.entry p = some e → s.refs p e < abi.wrap - 1
  | _ => True

inductive Reached (room : Run β → PageOp β → Prop) : Run β → Prop
  | init (expectSize : Nat) : Reached room ⟨pageCacheInit expectSize,fun _ => 0⟩
  | step {s s' : Run β} (op : PageOp β) (h : Reached room s) (legal : Legal s op) (hr : room s op)
      (hs : perform abi s op = .ok s') : Reached room s'

structure DirtySet : Prop where
  node : ∀ p e, s.cache.entry p = some e → (e.isDirty = true ↔
    s.cache.dirtyNodes.filter (fun n => n.blkoff = e.blkoff) = [⟨e.blkoff,p⟩])
  held : ∀ p e, s.cache.entry p = some e → e.isDirty = true → e.contentState = .pageReady ∧ 1 ≤ e.refCount
  victim : ∀ k p m e, s.cache.cacheManager.replaceOne = some (k,p,m) → s.cache.entry p = some e →
    e.isDirty = false ∧ e.refCount = 0
  size : s.cache.curSize = s.cache.keys.length
  keys : s.cache.keys.Nodup ∧ ∀ blkoff, blkoff ∈ s.cache.keys ↔ s.cache.lookup blkoff ≠ none

end Runs

section Invariant
variable {abi} {s s' : Run β} {op : PageOp β}

theorem init_inv (abi : Abi) (expectSize : Nat) : (pageCacheInit expectSize : PageCache β).Inv abi (fun _ => 0) :=
  ⟨{  indexed := nofun
      counted := fun _ _ h => nomatch h.lookup
      narrow := fun _ _ h => nomatch h.lookup
      pinned := fun _ _ h => nomatch h.lookup
      held := fun _ h => absurd rfl h
      dirty := fun _ _ h => nomatch h
      nodes := fun _ => iff_of_false List.not_mem_nil (fun ⟨_,h,_⟩ => nomatch h)
      size := rfl },Kbtree.kbInit_valid _ _⟩

theorem more_fewer {f : Nat → Nat} {p : Nat} (h : f p ≠ 0) : more (fewer f p) p = f := by
  funext q
  unfold more fewer
  by_cases hq : q = p
  · subst hq
    rw [Function.update_self,Function.update_self]
    omega
  · rw [Function.update_of_ne hq,Function.update_of_ne hq]

theorem room_count {c : PageCache β} {ext : Nat → Nat} {p : Nat} {e : PageEntry β} (h : c.Inv abi ext)
    (hc : c.Cached p e) (hroom : (ext p + if e.isDirty then 1 else 0) < abi.wrap - 1) : e.refCount + 1 < abi.wrap := by
  rw [← h.counted.counted p e hc] at hroom
  omega

theorem perform_inv (h : s.cache.Inv abi s.handles) (hl : Legal s op) (hr : Room abi s op) :
    ∃ s', perform abi s op = .ok s' ∧ s'.cache.Inv abi s'.handles := by
  cases op with
  | get blkoff page =>
    obtain ⟨⟨p,c'⟩,he,hg⟩ := get_spec blkoff h.counted
      (fun p e hc hb => room_count h hc (hr p e (hb ▸ hc.lookup) hc.entry)) page
    have hnodes : c'.dirtyNodes = s.cache.dirtyNodes := congrArg Kbtree.Tree.inorder hg.tree
    refine ⟨⟨c',more s.handles p⟩,?_,hnodes.symm ▸ hg.counted,hg.tree.symm ▸ h.tree⟩
    simp only [perform,he]
    rfl
  | copy p =>
    obtain ⟨e,hc⟩ := h.counted.held p hl
    obtain ⟨c',he,hc',hs,-⟩ := addRef_spec h.counted hc (room_count h hc (hr e hc.entry))
    have hnodes : c'.dirtyNodes = s.cache.dirtyNodes := congrArg Kbtree.Tree.inorder hs.tree
    refine ⟨⟨c',more s.handles p⟩,?_,hnodes.symm ▸ hc',hs.tree.symm ▸ h.tree⟩
    simp only [perform,he]
    rfl
  | destroy p =>
    have hc : s.cache.Counted abi.wrap (more (fewer s.handles p) p) s.cache.dirtyNodes :=
      (more_fewer hl).symm ▸ h.counted
    obtain ⟨-,c',-,he,hc',hs,-⟩ := subRef_spec hc
    have hnodes : c'.dirtyNodes = s.cache.dirtyNodes := congrArg Kbtree.Tree.inorder hs.tree
    refine ⟨⟨c',fewer s.handles p⟩,?_,hnodes.symm ▸ hc',hs.tree.symm ▸ h.tree⟩
    simp only [perform,he]
    rfl
  | load p lpa page =>
    obtain ⟨e,hc⟩ := h.counted.held p hl
    exact ⟨_,rfl,h.counted.modify hc _ rfl rfl rfl (fun _ => rfl),h.tree⟩
  | makeDirty p =>
    obtain ⟨c',he,hi,-⟩ := makeDirty_spec h hl.1 hl.2 (fun e hc => room_count h hc (hr e hc.entry))
    refine ⟨⟨c',s.handles⟩,?_,hi⟩
    simp only [perform,he]
    rfl
  | truncate maxBlkoff =>
    obtain ⟨c',he,hi,-⟩ := truncate_spec h maxBlkoff
    refine ⟨⟨c',s.handles⟩,?_,hi⟩
    simp only [perform,he]
    rfl
  | clearDirtyPages =>
    obtain ⟨c',he,hi,-⟩ := clear_spec h
    refine ⟨⟨c',s.handles⟩,?_,hi⟩
    simp only [perform,he]
    rfl
  | invalidateFrom targetSize =>
    obtain ⟨c',he,hi⟩ := invalidateCached_spec h targetSize
    refine ⟨⟨c',s.handles⟩,?_,hi⟩
    simp only [perform,he]
    rfl

theorem Reached.inv (h : Reached abi (Room abi) s) : s.cache.Inv abi s.handles := by
  induction h with
  | init expectSize => exact init_inv abi expectSize
  | step op _ legal hr hs ih =>
    obtain ⟨s',hp,hi⟩ := perform_inv ih legal hr
    obtain rfl := Except.ok.inj (hs.symm.trans hp)
    exact hi

theorem node_alone {c : PageCache β} {ext : Nat → Nat} (h : c.Inv abi ext) {n : DirtyPagesNode}
    (hn : n ∈ c.dirtyNodes) : c.dirtyNodes.filter (fun n' => n'.blkoff = n.blkoff) = [n] := by
  obtain ⟨l,r,hcut⟩ := List.append_of_mem hn
  have hstrict : Kbtree.Strict DirtyPagesNode.rank (l ++ n :: r) := hcut ▸ h.tree.strict
  obtain ⟨-,hl,hr⟩ := Kbtree.strict_cut.mp hstrict
  have hnone (l : List DirtyPagesNode) (hl : ∀ n' ∈ l, n'.rank ≠ n.rank) :
      l.filter (fun n' => n'.blkoff = n.blkoff) = [] :=
    List.filter_eq_nil_iff.mpr (fun n' hn' => by
      rw [decide_eq_true_eq,← rank_inj]
      exact hl n' hn')
  rw [hcut,List.filter_append,hnone l (fun n' hn' => ne_of_lt (hl n' hn')),
    List.filter_cons_of_pos (by simp),hnone r (fun n' hn' => ne_of_gt (hr n' hn'))]
  rfl

theorem inv_dirtySet (h : s.cache.Inv abi s.handles) : DirtySet s := by
  refine ⟨fun p e he => ?_,fun p e he hd => ?_,fun k p m e hr he => ?_,h.counted.size,
    CacheLruReplacer.keys_nodup,fun blkoff => mem_keys⟩
  · constructor
    · exact fun hd => node_alone h ((h.counted.nodes ⟨e.blkoff,p⟩).mpr ⟨e,he,hd,rfl⟩)
    · intro hf
      have hn : (⟨e.blkoff,p⟩ : DirtyPagesNode) ∈ s.cache.dirtyNodes :=
        (List.mem_filter.mp (hf ▸ List.mem_cons_self)).1
      exact ((h.counted.node_iff he _ rfl).mp hn).1
  · obtain ⟨hc,hready⟩ := h.counted.dirty p e he hd
    have hcount := h.counted.counted p e hc
    rw [if_pos hd] at hcount
    exact ⟨hready,by omega⟩
  · obtain ⟨x,hx,-,hz,hclean,-⟩ := victim_spec h.counted hr
    obtain rfl := Option.some.inj (he.symm.trans hx.entry)
    exact ⟨hclean,hz⟩

end Invariant

theorem reached_dirtySet (s : Run β) (h : Reached abi (Room abi) s) :
    DirtySet s ∧ ∀ op, Legal s op → Room abi s op → ∃ s', perform abi s op = .ok s' := by
  refine ⟨inv_dirtySet h.inv,fun op hl hr => ?_⟩
  obtain ⟨s',hp,-⟩ := perform_inv h.inv hl hr
  exact ⟨s',hp⟩

section Marked
variable {abi} {s : Run β}

theorem marked_reached (abi : Abi) (blkoff : UInt32) (page : β) : ∃ s : Run β, ∃ p e, Reached abi (Room abi) s ∧
    s.cache.Cached p e ∧ e.isDirty = true ∧ e.blkoff = blkoff ∧ s.handles p = 1 := by
  have hwrap : 2 ^ 32 ≤ abi.wrap := Nat.pow_le_pow_right (by decide) abi.wide
  have hstart : Reached abi (Room abi) (⟨pageCacheInit 10,fun _ => 0⟩ : Run β) := .init 10
  obtain ⟨⟨p,c₁⟩,hget,hg⟩ := get_spec blkoff hstart.inv.counted (fun _ _ hc => nomatch hc.lookup) page
  have hone : more (fun _ => 0) p p = 1 := Function.update_self ..
  have h₁ : Reached abi (Room abi) (⟨c₁,more (fun _ => 0) p⟩ : Run β) :=
    hstart.step (.get blkoff page) trivial (fun _ _ hl => nomatch hl) (by simp only [perform,hget]; rfl)
  obtain ⟨e,hc,hb⟩ := hg.block
  have hload (x : PageEntry β) (hx : (c₁.modify p (fun e => { e with
      lpa := 0, contentState := .pageReady, page := page })).entry p = some x) : x.contentState = .pageReady ∧
      x.blkoff = blkoff := by
    rw [entry_modify hc.entry,if_pos rfl] at hx
    obtain rfl := Option.some.inj hx
    exact ⟨rfl,hb⟩
  have hheld : more (fun _ => 0) p p ≠ 0 := by
    rw [hone]
    exact Nat.one_ne_zero
  have h₂ : Reached abi (Room abi) (⟨c₁.modify p (fun e => { e with
      lpa := 0, contentState := .pageReady, page := page }),more (fun _ => 0) p⟩ : Run β) :=
    h₁.step (.load p 0 page) hheld trivial rfl
  have hroom (x : PageEntry β) : (more (fun _ => 0) p p + if x.isDirty then 1 else 0) < abi.wrap - 1 := by
    rw [hone]
    split <;> omega
  obtain ⟨c₃,hmark,-,y,x,hy,hx,hd,hxb⟩ := makeDirty_spec h₂.inv hheld (fun x hx => (hload x hx).1)
    (fun x hx => room_count h₂.inv hx (hroom x))
  have h₃ : Reached abi (Room abi) (⟨c₃,more (fun _ => 0) p⟩ : Run β) :=
    h₂.step (.makeDirty p) ⟨hheld,fun x hx => (hload x hx).1⟩ (fun x _ => hroom x) (by simp only [perform,hmark]; rfl)
  exact ⟨_,p,x,h₃,hx,hd,hxb.trans (hload y hy.entry).2,hone⟩

theorem Reached.weaken {room : Run β → PageOp β → Prop} (h : Reached abi room s) : Reached abi (fun _ _ => True) s := by
  induction h with
  | init expectSize => exact .init expectSize
  | step op _ legal _ hs ih => exact ih.step op legal trivial hs

theorem copies_reached {p : Nat} {e : PageEntry β} (h : Reached abi (Room abi) s) (hc : s.cache.Cached p e)
    (hd : e.isDirty = true) (hp : s.handles p = 1) (n : Nat) (hn : n + 2 ≤ abi.wrap) :
    ∃ (s' : Run β) (e' : PageEntry β), Reached abi (fun _ _ => True) s' ∧ s'.cache.entry p = some e' ∧
      e'.isDirty = true ∧ e'.refCount = (n + 2) % abi.wrap ∧ s'.handles p ≠ 0 := by
  induction n with
  | zero =>
    have hcount := h.inv.counted.counted p e hc
    have hlt := h.inv.counted.narrow p e hc
    rw [hp,if_pos hd] at hcount
    exact ⟨s,e,h.weaken,hc.entry,hd,by rw [Nat.mod_eq_of_lt (by omega)]; exact hcount,by omega⟩
  | succ n ih =>
    obtain ⟨s',e',hr,he,hd',hcount,hh⟩ := ih (by omega)
    rw [Nat.mod_eq_of_lt (by omega)] at hcount
    have hne : e'.refCount ≠ 0 := by omega
    have hadd : pageCacheAddRefCount abi s'.cache p =
        .ok (s'.cache.modify p (fun e => { e with refCount := (e.refCount + 1) % abi.wrap })) := by
      unfold pageCacheAddRefCount
      rw [find_ok he]
      exact if_neg hne
    refine ⟨⟨_,more s'.handles p⟩,{ e' with refCount := (e'.refCount + 1) % abi.wrap },
      hr.step (.copy p) hh trivial (by simp only [perform,hadd]; rfl),(entry_modify he _ p).trans (if_pos rfl),
      hd',?_,?_⟩
    · dsimp only
      rw [hcount]
    · change more s'.handles p p ≠ 0
      unfold more
      rw [Function.update_self]
      exact Nat.succ_ne_zero _

-- pointers of eight bytes make the tree's degree 8; the counter is as short as it may be
def fast32Abi : Abi := ⟨32,le_rfl,8,by decide⟩

theorem markedRun_dirtySet : ∃ s : Run Unit, (∃ p e, s.cache.entry p = some e ∧ e.isDirty = true) ∧ DirtySet s ∧
    ∀ op, Legal s op → Room fast32Abi s op → ∃ s', perform fast32Abi s op = .ok s' := by
  obtain ⟨s,p,e,h,hc,hd,-,-⟩ := marked_reached fast32Abi 5 ()
  exact ⟨s,⟨p,e,hc.entry,hd⟩,reached_dirtySet fast32Abi s h⟩

-- 2^32 - 1 handles of a dirty page and the one of its node leave the counter at 0
theorem wrapped_not_dirtySet : ∃ s : Run Unit, Reached fast32Abi (fun _ _ => True) s ∧ ¬ DirtySet s := by
  obtain ⟨s,p,e,h,hc,hd,-,hp⟩ := marked_reached fast32Abi 5 ()
  obtain ⟨s',e',hr,he,hd',hcount,-⟩ := copies_reached h hc hd hp (2 ^ 32 - 2) le_rfl
  refine ⟨s',hr,fun hset => ?_⟩
  have hpos := (hset.held p e' he hd').2
  have hzero : e'.refCount = 0 := hcount
  omega

end Marked

section Tail
variable {abi} {c : PageCache β} {ext : Nat → Nat} {maxBlkoff : UInt32}

def TruncatesTail (abi : Abi) (c : PageCache β) (maxBlkoff : UInt32) : Prop :=
  ∃ c', pageCacheTruncate abi c maxBlkoff = .ok c' ∧
    (∀ n, n ∈ c'.dirtyNodes ↔ n ∈ c.dirtyNodes ∧ n.blkoff ≤ maxBlkoff) ∧
    ∀ p e, c.entry p = some e → ∃ e', c'.entry p = some e' ∧
      if e.isDirty = true ∧ maxBlkoff < e.blkoff then e'.isDirty = false ∧ e'.contentState = .pageInvalid else e' = e

-- 1 + maxBlkoff is 0
theorem truncate_wraps (h : c.Inv abi ext) {n : DirtyPagesNode} (hn : n ∈ c.dirtyNodes) (hb : n.blkoff = 4294967295) :
    ¬ TruncatesTail abi c 4294967295 := by
  rintro ⟨c',he,hnodes,-⟩
  obtain ⟨c'',he',-,hnodes',-⟩ := truncate_spec h 4294967295
  obtain rfl := Except.ok.inj (he.symm.trans he')
  have hin : (4294967295 : UInt32) ∈ c.dirtyNodes.map DirtyPagesNode.blkoff := List.mem_map.mpr ⟨n,hn,hb⟩
  have hcut : c.firstDropped 4294967295 = 0 := by
    unfold firstDropped
    rw [if_pos hin]
    rfl
  rw [hcut] at hnodes'
  have hleft : n ∈ c'.dirtyNodes := (hnodes n).mpr ⟨hn,hb ▸ UInt32.le_refl _⟩
  rw [hnodes'] at hleft
  exact absurd (mem_below.mp hleft).2 (Nat.not_lt_zero _)

theorem truncate_tail (h : c.Inv abi ext) (hcut : c.firstDropped maxBlkoff = maxBlkoff.toNat + 1) :
    TruncatesTail abi c maxBlkoff := by
  obtain ⟨c',he,-,hnodes,-,hent⟩ := truncate_spec h maxBlkoff
  rw [hcut] at hnodes hent
  refine ⟨c',he,fun n => ?_,fun p e hp => ⟨_,by rw [hent,hp]; rfl,?_⟩⟩
  · rw [hnodes,mem_below,UInt32.le_iff_toNat_le]
    exact and_congr_right (fun _ => Nat.lt_succ_iff)
  · have hiff : (e.isDirty = true ∧ maxBlkoff < e.blkoff) ↔ e.isDirty = true ∧ maxBlkoff.toNat + 1 ≤ e.blkoff.toNat :=
      and_congr_right (fun _ => UInt32.lt_iff_toNat_lt)
    unfold tailed
    by_cases hd : e.isDirty = true ∧ maxBlkoff < e.blkoff
    · rw [if_pos hd,if_pos (hiff.mp hd)]
      exact ⟨rfl,rfl⟩
    · rw [if_neg hd,if_neg (fun hd' => hd (hiff.mpr hd'))]

end Tail

theorem truncate_tail_iff (c : PageCache β) (ext : Nat → Nat) (maxBlkoff : UInt32) (h : c.Inv abi ext) :
    TruncatesTail abi c maxBlkoff ↔ ¬ (maxBlkoff = 4294967295 ∧ ∃ n ∈ c.dirtyNodes, n.blkoff = 4294967295) := by
  constructor
  · rintro ht ⟨rfl,n,hn,hb⟩
    exact truncate_wraps h hn hb ht
  · intro hno
    refine truncate_tail h ?_
    by_cases hlast : maxBlkoff = 4294967295
    · subst hlast
      refine if_neg (fun hin => hno ⟨rfl,?_⟩)
      obtain ⟨n,hn,hb⟩ := List.mem_map.mp hin
      exact ⟨n,hn,hb⟩
    · have hlt : maxBlkoff.toNat < 4294967295 := by
        have hne : maxBlkoff.toNat ≠ (4294967295 : UInt32).toNat := fun heq => hlast (UInt32.toNat_inj.mp heq)
        have hval : (4294967295 : UInt32).toNat = 4294967295 := rfl
        have hmax := maxBlkoff.toNat_lt
        omega
      exact firstDropped_of_lt hlt

theorem fifthPage_truncates : ∃ c : PageCache Unit, (∃ n ∈ c.dirtyNodes, n.blkoff = 5) ∧ (TruncatesTail fast32Abi c 3 ↔
    ¬ ((3 : UInt32) = 4294967295 ∧ ∃ n ∈ c.dirtyNodes, n.blkoff = 4294967295)) := by
  obtain ⟨s,p,e,h,hc,hd,hb,-⟩ := marked_reached fast32Abi 5 ()
  exact ⟨s.cache,⟨⟨5,p⟩,(h.inv.counted.nodes _).mpr ⟨e,hc.entry,hd,hb⟩,rfl⟩,
    truncate_tail_iff fast32Abi s.cache s.handles 3 h.inv⟩

-- a limit behind which there is no block drops the last page, which is not saved yet
theorem lastPage_truncates : ∃ s : Run Unit, Reached fast32Abi (Room fast32Abi) s ∧
    (∃ n ∈ s.cache.dirtyNodes, n.blkoff = 4294967295) ∧ ¬ TruncatesTail fast32Abi s.cache 4294967295 := by
  obtain ⟨s,p,e,h,hc,hd,hb,-⟩ := marked_reached fast32Abi 4294967295 ()
  have hn : (⟨4294967295,p⟩ : DirtyPagesNode) ∈ s.cache.dirtyNodes :=
    (h.inv.counted.nodes _).mpr ⟨e,hc.entry,hd,hb⟩
  exact ⟨s,h,⟨_,hn,rfl⟩,truncate_wraps h.inv hn rfl⟩

end PageCacheRun

end Rtfs
