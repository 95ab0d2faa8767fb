import Rtfs.Cache.PageCacheRun
import Rtfs.Inode.FileResize

namespace Rtfs

namespace PageCacheRun

open Rtfs.PageCacheRun.PageCache

variable {abi : Abi} {c c' : PageCache Block} {ext : Nat → Nat} {maxBlkoff blkoff : UInt32}

def toPage (e : PageEntry Block) : Rtfs.PageEntry := ⟨e.lpa,e.contentState,e.page,e.isDirty⟩

def view (c : PageCache Block) : Rtfs.PageCache := fun blkoff =>
  (c.lookup blkoff).bind (fun p => (c.entry p).map toPage)

theorem view_none (h : c.lookup blkoff = none) : view c blkoff = none := by
  unfold view
  rw [h]
  rfl

theorem view_cached {p : Nat} {e : PageEntry Block} (hc : c.Cached p e) : view c e.blkoff = some (toPage e) := by
  unfold view
  rw [hc.lookup,Option.bind_some,hc.entry]
  rfl

theorem view_map (h : c.Inv abi ext) (ha : c.Alike c') {f : PageEntry Block → PageEntry Block}
    (hent : ∀ p e, c.Cached p e → c'.entry p = some (f e)) {g : UInt32 → Rtfs.PageEntry → Rtfs.PageEntry}
    (hfg : ∀ p e, c.Cached p e → toPage (f e) = g e.blkoff (toPage e)) :
    view c' = fun blkoff => (view c blkoff).map (g blkoff) := by
  funext blkoff
  cases hl : c.lookup blkoff with
  | none =>
    rw [view_none hl,view_none ((ha.lookup blkoff).trans hl)]
    rfl
  | some p =>
    obtain ⟨e,hc,rfl⟩ := h.counted.has hl
    have hview : view c' e.blkoff = some (toPage (f e)) := by
      unfold view
      rw [ha.lookup,hl,Option.bind_some,hent p e hc]
      rfl
    rw [hview,view_cached hc,hfg p e hc]
    rfl

theorem dirtyAt_view (h : c.Inv abi ext) :
    dirtyAt (view c) maxBlkoff = true ↔ maxBlkoff ∈ c.dirtyNodes.map DirtyPagesNode.blkoff := by
  rw [List.mem_map]
  constructor
  · intro hd
    cases hl : c.lookup maxBlkoff with
    | none =>
      rw [dirtyAt,view_none hl] at hd
      cases hd
    | some p =>
      obtain ⟨e,hc,rfl⟩ := h.counted.has hl
      rw [dirtyAt,view_cached hc] at hd
      exact ⟨⟨e.blkoff,p⟩,(h.counted.nodes _).mpr ⟨e,hc.entry,hd,rfl⟩,rfl⟩
  · rintro ⟨n,hn,rfl⟩
    obtain ⟨e,he,hd,hb⟩ := (h.counted.nodes n).mp hn
    rw [dirtyAt,← hb,view_cached (h.counted.dirty _ e he hd).1]
    exact hd

theorem truncate_view (h : c.Inv abi ext) (maxBlkoff : UInt32) : ∃ c', pageCacheTruncate abi c maxBlkoff = .ok c' ∧
    c'.Inv abi ext ∧ view c' = Rtfs.pageCacheTruncate (view c) maxBlkoff := by
  obtain ⟨c',he,hi,-,ha,hent⟩ := truncate_spec h maxBlkoff
  refine ⟨c',he,hi,view_map h ha (f := tailed (c.firstDropped maxBlkoff))
    (fun p e hc => by rw [hent,hc.entry]; rfl) (fun p e hc => ?_)⟩
  have hiff : (e.isDirty = true ∧ c.firstDropped maxBlkoff ≤ e.blkoff.toNat) ↔
      firstBlkoff (view c) maxBlkoff ≤ e.blkoff ∧ e.isDirty = true := by
    rw [and_comm]
    refine and_congr_left (fun hd => ?_)
    have hnode : (⟨e.blkoff,p⟩ : DirtyPagesNode) ∈ c.dirtyNodes := (h.counted.nodes _).mpr ⟨e,hc.entry,hd,rfl⟩
    unfold firstDropped firstBlkoff
    by_cases hat : dirtyAt (view c) maxBlkoff = true
    · rw [if_pos hat,if_pos ((dirtyAt_view h).mp hat),UInt32.le_iff_toNat_le]
    · have hout : maxBlkoff ∉ c.dirtyNodes.map DirtyPagesNode.blkoff := fun hin => hat ((dirtyAt_view h).mpr hin)
      -- no dirty page is at the limit
      have hne : e.blkoff ≠ maxBlkoff := fun heq => hout (List.mem_map.mpr ⟨_,hnode,heq⟩)
      rw [if_neg hat,if_neg hout,UInt32.le_iff_toNat_le]
      have hval : e.blkoff.toNat ≠ maxBlkoff.toNat := fun heq => hne (UInt32.toNat_inj.mp heq)
      omega
  unfold tailed toPage
  by_cases hd : e.isDirty = true ∧ c.firstDropped maxBlkoff ≤ e.blkoff.toNat
  · rw [if_pos hd,if_pos (hiff.mp hd)]
    rfl
  · rw [if_neg hd,if_neg (fun hd' => hd (hiff.mpr hd'))]

theorem clear_view (h : c.Inv abi ext) : ∃ c', pageCacheClearDirtyPages abi c = .ok c' ∧ c'.Inv abi ext ∧
    view c' = Rtfs.pageCacheClearDirtyPages (view c) := by
  obtain ⟨c',he,hi,-,ha,hent⟩ := clear_spec h
  refine ⟨c',he,hi,view_map h ha (f := cleaned) (fun p e hc => by rw [hent,hc.entry]; rfl) (fun p e _ => ?_)⟩
  unfold cleaned toPage
  cases hd : e.isDirty with
  | false => exact congrArg _ hd
  | true => rfl

section Invalidate

def invalidated (first : Nat) (e : PageEntry Block) : PageEntry Block :=
  if e.blkoff.toNat < first then e else { e with lpa := invalidLpa, contentState := .pageInvalid, isDirty := false }

theorem invalidated_twice (first : Nat) (e : PageEntry Block) :
    invalidated first (invalidated first e) = invalidated first e := by
  unfold invalidated
  split <;> rfl

theorem invalidateEntry_alike (first : Nat) (c : PageCache Block) (k : UInt32) :
    c.Alike (invalidateEntry first c k) := by
  unfold invalidateEntry
  repeat' split
  all_goals exact ⟨fun _ => rfl,.refl _,rfl⟩

theorem invalidateEntry_entry (first : Nat) (c : PageCache Block) (k : UInt32) (q : Nat) :
    (invalidateEntry first c k).entry q =
      if c.lookup k = some q then (c.entry q).map (invalidated first) else c.entry q := by
  unfold invalidateEntry
  cases hl : c.lookup k with
  | none => rfl
  | some p =>
    cases he : c.entry p with
    | none =>
      simp only [he]
      split
      · rename_i hq
        rw [← Option.some.inj hq,he]
        rfl
      · rfl
    | some e =>
      simp only [he]
      by_cases hlt : e.blkoff.toNat < first
      · have hsame : invalidated first e = e := if_pos hlt
        rw [if_pos hlt]
        split
        · rename_i hq
          rw [← Option.some.inj hq,he,Option.map_some,hsame]
        · rfl
      · have hinv : invalidated first e = { e with
            lpa := invalidLpa, contentState := .pageInvalid, isDirty := false } := if_neg hlt
        rw [if_neg hlt,entry_modify he]
        by_cases hq : q = p
        · rw [if_pos hq,if_pos (congrArg some hq.symm),hq,he,Option.map_some,hinv]
        · rw [if_neg hq,if_neg (fun heq => hq (Option.some.inj heq).symm)]

theorem invalidateEntries_entry (first : Nat) (l : List UInt32) (c : PageCache Block) (q : Nat) :
    (l.foldl (invalidateEntry first) c).entry q =
      if ∃ k ∈ l, c.lookup k = some q then (c.entry q).map (invalidated first) else c.entry q := by
  induction l generalizing c with
  | nil => rw [List.foldl_nil,if_neg (by rintro ⟨k,hk,-⟩; exact List.not_mem_nil hk)]
  | cons k l ih =>
    have hlater : (∃ j ∈ l, (invalidateEntry first c k).lookup j = some q) ↔ ∃ j ∈ l, c.lookup j = some q := by
      simp only [(invalidateEntry_alike first c k).lookup]
    rw [List.foldl_cons,ih,invalidateEntry_entry]
    simp only [hlater,List.exists_mem_cons_iff]
    by_cases hk : c.lookup k = some q
    · have hany : c.lookup k = some q ∨ ∃ j ∈ l, c.lookup j = some q := .inl hk
      have hagain : ((c.entry q).map (invalidated first)).map (invalidated first) =
          (c.entry q).map (invalidated first) := by
        rw [Option.map_map]
        exact congrFun (congrArg Option.map (funext (invalidated_twice first))) _
      rw [if_pos hk,if_pos hany,hagain,ite_self]
    · have hiff : (c.lookup k = some q ∨ ∃ j ∈ l, c.lookup j = some q) ↔ ∃ j ∈ l, c.lookup j = some q := or_iff_right hk
      simp only [hiff,if_neg hk]

theorem invalidateEntries_alike (first : Nat) (l : List UInt32) (c : PageCache Block) :
    c.Alike (l.foldl (invalidateEntry first) c) := by
  induction l generalizing c with
  | nil => exact ⟨fun _ => rfl,.refl _,rfl⟩
  | cons k l ih => exact (invalidateEntry_alike first c k).trans (ih _)

theorem invalidateFrom_view (h : c.Inv abi ext) (first : Nat) : view (invalidateFrom c first) =
    if 4294967295 < first then view c
    else fun blkoff => (view c blkoff).map (fun e =>
      if blkoff.toNat < first then e
      else { e with lpa := invalidLpa, contentState := .pageInvalid, isDirty := false }) := by
  unfold invalidateFrom
  split
  · rfl
  · refine view_map h (invalidateEntries_alike first c.keys c) (f := invalidated first) (fun p e hc => ?_)
      (fun p e _ => ?_)
    · have hkey : e.blkoff ∈ c.keys := mem_keys.mpr (by rw [hc.lookup]; exact Option.some_ne_none p)
      rw [invalidateEntries_entry,if_pos ⟨e.blkoff,hkey,hc.lookup⟩,hc.entry]
      rfl
    · unfold invalidated toPage
      split <;> rfl

end Invalidate

theorem invalidateCached_view (h : c.Inv abi ext) (targetSize : UInt64) :
    ∃ c', rtfsFileInodeInvalidateCachedPagesFrom abi c targetSize = .ok c' ∧
      view c' = Rtfs.rtfsFileInodeInvalidateCachedPagesFrom (view c) targetSize := by
  unfold rtfsFileInodeInvalidateCachedPagesFrom Rtfs.rtfsFileInodeInvalidateCachedPagesFrom
  by_cases hz : targetSize = 0
  · subst hz
    obtain ⟨c',he,hi,hv⟩ := clear_view h
    refine ⟨invalidateFrom c' 0,by rw [if_pos rfl,he]; rfl,?_⟩
    rw [invalidateFrom_view hi,hv]
    rfl
  · have hpos : targetSize.toNat ≠ 0 := fun h0 => hz (UInt64.toNat_inj.mp h0)
    have hdiv := Nat.div_add_mod targetSize.toNat 4096
    rw [if_neg hz]
    simp only [if_neg hz]
    generalize targetSize.toNat / 4096 = block at *
    by_cases hmod : targetSize.toNat % 4096 = 0
    · have hblock : block ≠ 0 := by
        rintro rfl
        omega
      simp only [if_pos hmod,if_neg hblock]
      by_cases hle : block - 1 ≤ 4294967295
      · obtain ⟨c',he,hi,hv⟩ := truncate_view h (UInt32.ofNat (block - 1))
        refine ⟨invalidateFrom c' block,by rw [if_pos hle,he]; rfl,?_⟩
        rw [invalidateFrom_view hi,hv,if_pos hle]
      · refine ⟨invalidateFrom c block,by rw [if_neg hle]; rfl,?_⟩
        rw [invalidateFrom_view h,if_neg hle]
    · simp only [if_neg hmod,Nat.add_sub_cancel]
      by_cases hle : block ≤ 4294967295
      · obtain ⟨c',he,hi,hv⟩ := truncate_view h (UInt32.ofNat block)
        refine ⟨invalidateFrom c' (block + 1),by rw [if_pos hle,he]; rfl,?_⟩
        rw [invalidateFrom_view hi,hv,if_pos hle]
      · refine ⟨invalidateFrom c (block + 1),by rw [if_neg hle]; rfl,?_⟩
        rw [invalidateFrom_view h,if_neg hle]

section Reached

theorem reached_invalidated (abi : Abi) (s : Run Block) (h : Reached abi (Room abi) s) (targetSize : UInt64)
    (ht : targetSize.toNat ≤ maxFileBytes) :
    ∃ c', rtfsFileInodeInvalidateCachedPagesFrom abi s.cache targetSize = .ok c' ∧
      ∀ b : UInt32, Rtfs.pageCacheGet (view c') b =
        if b.toNat < DirEntries.sizeToBlock targetSize then Rtfs.pageCacheGet (view s.cache) b
        else dropPage (Rtfs.pageCacheGet (view s.cache) b) := by
  obtain ⟨c',hc,hview⟩ := invalidateCached_view h.inv targetSize
  refine ⟨c',hc,fun b => ?_⟩
  rw [hview]
  exact invalidated_at (view s.cache) ht b

theorem dirtyPage_invalidated : ∃ s : Run Block, (∃ e, view s.cache 5 = some e ∧ e.isDirty = true) ∧
    ∃ c', rtfsFileInodeInvalidateCachedPagesFrom fast32Abi s.cache 8193 = .ok c' ∧
      ∀ b : UInt32, Rtfs.pageCacheGet (view c') b =
        if b.toNat < DirEntries.sizeToBlock 8193 then Rtfs.pageCacheGet (view s.cache) b
        else dropPage (Rtfs.pageCacheGet (view s.cache) b) := by
  obtain ⟨s,p,e,h,hc,hd,hb,-⟩ := marked_reached fast32Abi 5 (Buf.zero : Block)
  exact ⟨s,⟨toPage e,hb ▸ view_cached hc,hd⟩,reached_invalidated fast32Abi s h 8193 (by decide)⟩

end Reached

end PageCacheRun

end Rtfs
