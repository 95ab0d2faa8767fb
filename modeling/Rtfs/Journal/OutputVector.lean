import Rtfs.Journal.Writer

namespace Rtfs

section Fetch
variable {α : Type} (key : α → UInt32)

def lastEntry (k : UInt32) (es : List α) : Option α :=
  (es.filter (fun e => decide (key e = k))).getLast?

def Points (journal : List α) (d : JournalDedupEntry) : Prop :=
  ∃ e, journal[d.index]? = some e ∧ key e = d.key

variable {key} {journal : List α}

theorem fetch_cons {d : JournalDedupEntry} {e : α} (he : journal[d.index]? = some e)
    (ds : List JournalDedupEntry) :
    fetch journal ((d :: ds).map JournalDedupEntry.index) =
      e :: fetch journal (ds.map JournalDedupEntry.index) := by
  simp [fetch,he]

theorem fetch_filter {ds : List JournalDedupEntry} (h : ∀ d ∈ ds, Points key journal d)
    (k : UInt32) :
    (fetch journal (ds.map JournalDedupEntry.index)).filter (fun e => decide (key e = k)) =
      fetch journal ((ds.filter (fun d => decide (d.key = k))).map JournalDedupEntry.index) := by
  induction ds with
  | nil => rfl
  | cons d ds ih =>
    obtain ⟨e,he,hk⟩ := h d List.mem_cons_self
    have ih' := ih (fun d hd => h d (List.mem_cons_of_mem _ hd))
    rw [fetch_cons he,List.filter_cons,List.filter_cons,hk]
    by_cases hd : d.key = k
    · simp only [hd,decide_true,if_true]
      rw [fetch_cons he,ih']
    · simp only [hd,decide_false,Bool.false_eq_true,if_false]
      exact ih'

theorem fetch_getLast {ds : List JournalDedupEntry} (h : ∀ d ∈ ds, Points key journal d) :
    (fetch journal (ds.map JournalDedupEntry.index)).getLast? =
      ds.getLast?.bind (fun d => journal[d.index]?) := by
  induction ds using List.reverseRecOn with
  | nil => rfl
  | append_singleton ds d _ =>
    obtain ⟨e,he,_⟩ := h d (by simp)
    simp [fetch,he]

theorem lastEntry_isSome {k : UInt32} {es : List α} : (lastEntry key k es).isSome ↔ k ∈ es.map key := by
  rw [lastEntry,List.getLast?_isSome,List.mem_map]
  simp only [ne_eq,List.filter_eq_nil_iff,decide_eq_true_eq,not_forall,not_not,exists_prop]

theorem lastEntry_fetch {ds : List JournalDedupEntry} (h : ∀ d ∈ ds, Points key journal d)
    (k : UInt32) :
    lastEntry key k (fetch journal (ds.map JournalDedupEntry.index)) =
      ((ds.filter (fun d => decide (d.key = k))).getLast?).bind (fun d => journal[d.index]?) := by
  rw [lastEntry,fetch_filter h,fetch_getLast (fun d hd => h d (List.mem_of_mem_filter hd))]

theorem fetch_range (journal : List α) : fetch journal (List.range journal.length) = journal := by
  induction journal using List.reverseRecOn with
  | nil => rfl
  | append_singleton js a ih =>
    have hold : (List.range js.length).filterMap (fun i => (js ++ [a])[i]?) = js := by
      refine Eq.trans (List.filterMap_congr fun i hi => ?_) ih
      exact List.getElem?_append_left (List.mem_range.mp hi)
    rw [List.length_append,List.length_singleton,List.range_succ,fetch,List.filterMap_append,hold]
    simp

theorem indexed_points (key : α → UInt32) (journal : List α) :
    ∀ d ∈ indexed key journal, Points key journal d := by
  intro d hd
  obtain ⟨⟨e,i⟩,hm,rfl⟩ := List.mem_map.mp hd
  exact ⟨e,List.mem_zipIdx_iff_getElem?.mp hm,rfl⟩

theorem indexed_index (key : α → UInt32) (journal : List α) :
    (indexed key journal).map JournalDedupEntry.index = List.range journal.length := by
  have hc : JournalDedupEntry.index ∘ (fun p : α × Nat => ⟨key p.1,p.2⟩) = Prod.snd := rfl
  rw [indexed,List.map_map,hc,List.zipIdx_map_snd,List.range_eq_range']

theorem fetch_indexed (key : α → UInt32) (journal : List α) :
    fetch journal ((indexed key journal).map JournalDedupEntry.index) = journal := by
  rw [indexed_index,fetch_range]

theorem lastEntry_indexed (key : α → UInt32) (journal : List α) (k : UInt32) :
    ((indexed key journal).filter (fun d => decide (d.key = k))).getLast?.bind
      (fun d => journal[d.index]?) = lastEntry key k journal := by
  rw [← lastEntry_fetch (indexed_points key journal),fetch_indexed]

end Fetch

section Tree
variable {α : Type} (key : α → UInt32) (journal : List α)

def lastPlacedEntry (k : UInt32) : Option α :=
  (Kbtree.lastPlaced JournalDedupEntry.rank kbDegree k.toNat Kbtree.kbInit none
    (indexed key journal)).bind (fun d => journal[d.index]?)

theorem kbDegree_two : 2 ≤ kbDegree := by decide

theorem treeOutput_eq : treeOutput key journal =
    fetch journal ((generateTree key journal).inorder.map JournalDedupEntry.index) := by
  have hok := Kbtree.build_ok JournalDedupEntry.rank kbDegree kbDegree_two (indexed key journal)
  have hitr := Kbtree.kbItrTake_first JournalDedupEntry.rank (generateTree key journal) hok
  exact congrArg (fun l => fetch journal (l.map JournalDedupEntry.index)) hitr

theorem generateTree_perm : (generateTree key journal).inorder.Perm (indexed key journal) :=
  Kbtree.build_perm JournalDedupEntry.rank kbDegree kbDegree_two (indexed key journal)

theorem generateTree_points : ∀ d ∈ (generateTree key journal).inorder, Points key journal d :=
  fun d hd => indexed_points key journal d ((generateTree_perm key journal).mem_iff.mp hd)

theorem treeOutput_perm : (treeOutput key journal).Perm journal := by
  rw [treeOutput_eq]
  have hp := ((generateTree_perm key journal).map JournalDedupEntry.index).filterMap
    (fun i => journal[i]?)
  exact hp.trans (List.Perm.of_eq (fetch_indexed key journal))

theorem fetch_sorted {ds : List JournalDedupEntry} (h : ∀ d ∈ ds, Points key journal d)
    (hs : Kbtree.Sorted JournalDedupEntry.rank ds) :
    (fetch journal (ds.map JournalDedupEntry.index)).Pairwise (fun a b => key a ≤ key b) := by
  induction ds with
  | nil => exact List.Pairwise.nil
  | cons d ds ih =>
    obtain ⟨e,he,hk⟩ := h d List.mem_cons_self
    obtain ⟨hd,hds⟩ := List.pairwise_cons.mp hs
    have hrest := fun c hc => h c (List.mem_cons_of_mem _ hc)
    rw [fetch_cons he]
    refine List.pairwise_cons.mpr ⟨?_,ih hrest hds⟩
    intro a ha
    obtain ⟨i,hi,hai⟩ := List.mem_filterMap.mp ha
    obtain ⟨c,hc,rfl⟩ := List.mem_map.mp hi
    obtain ⟨b,hb,hbk⟩ := hrest c hc
    obtain rfl : b = a := Option.some.inj (hb.symm.trans hai)
    rw [hk,hbk]
    exact UInt32.le_iff_toNat_le.mpr (hd c hc)

theorem treeOutput_sorted : (treeOutput key journal).Pairwise (fun a b => key a ≤ key b) := by
  rw [treeOutput_eq]
  exact fetch_sorted key journal (generateTree_points key journal)
    (Kbtree.build_ok JournalDedupEntry.rank kbDegree kbDegree_two (indexed key journal)).sorted

theorem lastEntry_treeOutput (k : UInt32) :
    lastEntry key k (treeOutput key journal) = lastPlacedEntry key journal k := by
  rw [treeOutput_eq,lastEntry_fetch (generateTree_points key journal),lastPlacedEntry,
    ← Kbtree.lastOf_build JournalDedupEntry.rank kbDegree kbDegree_two]
  have hk : (fun d : JournalDedupEntry => decide (d.key = k)) =
      fun d => decide (d.rank = k.toNat) := by
    funext d
    exact decide_eq_decide.mpr UInt32.toNat_inj.symm
  rw [hk]
  rfl

end Tree

section Map

theorem khPut_keys {m : List (UInt32 × Nat)} (hm : (m.map Prod.fst).Nodup) (k : UInt32) (v : Nat) :
    ((khPut m k v).map Prod.fst).Nodup := by
  unfold khPut
  split
  · have hf : Prod.fst ∘ (fun p : UInt32 × Nat => if p.1 = k then (k,v) else p) = Prod.fst := by
      funext p
      simp only [Function.comp_apply]
      split
      · rename_i h
        exact h.symm
      · rfl
    rwa [List.map_map,hf]
  · rename_i hno
    rw [List.map_append,List.nodup_append]
    refine ⟨hm,List.nodup_singleton k,?_⟩
    intro a ha b hb hab
    obtain rfl : b = k := List.mem_singleton.mp hb
    obtain ⟨p,hp,hpk⟩ := List.mem_map.mp ha
    exact hno (List.any_eq_true.mpr ⟨p,hp,decide_eq_true (hpk.trans hab)⟩)

theorem mem_khPut {m : List (UInt32 × Nat)} {k a : UInt32} {v i : Nat} :
    (a,i) ∈ khPut m k v ↔ if a = k then i = v else (a,i) ∈ m := by
  unfold khPut
  by_cases hak : a = k
  · subst hak
    rw [if_pos rfl]
    split
    · rename_i hany
      obtain ⟨p,hp,hpk⟩ := List.any_eq_true.mp hany
      constructor
      · intro h
        obtain ⟨q,hq,he⟩ := List.mem_map.mp h
        split at he
        · exact (Prod.mk.inj he).2.symm
        · rename_i hne
          exact absurd (congrArg Prod.fst he) hne
      · rintro rfl
        exact List.mem_map.mpr ⟨p,hp,if_pos (of_decide_eq_true hpk)⟩
    · rename_i hno
      rw [List.mem_append,List.mem_singleton]
      constructor
      · rintro (h | h)
        · exact absurd (List.any_eq_true.mpr ⟨(a,i),h,decide_eq_true rfl⟩) hno
        · exact (Prod.mk.inj h).2
      · rintro rfl
        exact Or.inr rfl
  · rw [if_neg hak]
    split
    · constructor
      · intro h
        obtain ⟨q,hq,he⟩ := List.mem_map.mp h
        split at he
        · exact absurd (congrArg Prod.fst he).symm hak
        · exact he ▸ hq
      · intro h
        exact List.mem_map.mpr ⟨(a,i),h,if_neg hak⟩
    · rw [List.mem_append,List.mem_singleton]
      constructor
      · rintro (h | h)
        · exact h
        · exact absurd (congrArg Prod.fst h) hak
      · exact Or.inl

theorem putAll_spec (ds : List JournalDedupEntry) :
    ((ds.foldl (fun m d => khPut m d.key d.index) []).map Prod.fst).Nodup ∧
    ∀ k i, (k,i) ∈ ds.foldl (fun m d => khPut m d.key d.index) [] ↔
      ∃ d, (ds.filter (fun d => decide (d.key = k))).getLast? = some d ∧ d.index = i := by
  induction ds using List.reverseRecOn with
  | nil => simp
  | append_singleton ds d ih =>
    obtain ⟨hn,hm⟩ := ih
    rw [List.foldl_append]
    refine ⟨khPut_keys hn d.key d.index,fun k i => ?_⟩
    change (k,i) ∈ khPut _ d.key d.index ↔ _
    rw [mem_khPut,List.filter_append]
    by_cases hk : d.key = k
    · subst hk
      simp [eq_comm]
    · rw [if_neg (Ne.symm hk),hm]
      simp [hk]

variable (kh : Khash) (journal : List SuperBlockJournalEntry)

def superPicks : List JournalDedupEntry :=
  (kh.enum (generateMap SuperBlockJournalEntry.off journal)).map (fun p => ⟨p.1,p.2⟩)

theorem mem_superPicks {d : JournalDedupEntry} : d ∈ superPicks kh journal ↔
    ((indexed SuperBlockJournalEntry.off journal).filter
      (fun c => decide (c.key = d.key))).getLast? = some d := by
  have hspec := (putAll_spec (indexed SuperBlockJournalEntry.off journal)).2 d.key d.index
  have hmem : d ∈ superPicks kh journal ↔
      (d.key,d.index) ∈ generateMap SuperBlockJournalEntry.off journal := by
    rw [← (kh.perm _).mem_iff]
    constructor
    · intro h
      obtain ⟨p,hp,rfl⟩ := List.mem_map.mp h
      exact hp
    · intro h
      exact List.mem_map.mpr ⟨_,h,rfl⟩
  rw [hmem,generateMap,hspec]
  constructor
  · rintro ⟨c,hc,hi⟩
    have hck : c.key = d.key := by
      simpa using (List.mem_filter.mp (List.mem_of_getLast? hc)).2
    obtain ⟨ck,ci⟩ := c
    obtain ⟨dk,di⟩ := d
    simp only at hck hi
    subst hck hi
    exact hc
  · intro h
    exact ⟨d,h,rfl⟩

theorem superPicks_points : ∀ d ∈ superPicks kh journal,
    Points SuperBlockJournalEntry.off journal d := by
  intro d hd
  have hl := (mem_superPicks kh journal).mp hd
  exact indexed_points _ journal d (List.mem_filter.mp (List.mem_of_getLast? hl)).1

theorem superPicks_keys : ((superPicks kh journal).map JournalDedupEntry.key).Nodup := by
  have hn := (putAll_spec (indexed SuperBlockJournalEntry.off journal)).1
  have hp := ((kh.perm (generateMap SuperBlockJournalEntry.off journal)).map Prod.fst).nodup_iff.mpr hn
  rw [superPicks,List.map_map]
  exact hp

theorem superOutput_eq : superJournalOutputVector kh journal =
    fetch journal ((superPicks kh journal).map JournalDedupEntry.index) := by
  rw [superJournalOutputVector,superPicks,List.map_map]
  rfl

theorem filter_key_eq {ds : List JournalDedupEntry} (hn : (ds.map JournalDedupEntry.key).Nodup)
    {d : JournalDedupEntry} (hd : d ∈ ds) :
    ds.filter (fun c => decide (c.key = d.key)) = [d] := by
  induction ds with
  | nil => cases hd
  | cons c ds ih =>
    obtain ⟨hc,hns⟩ := List.nodup_cons.mp hn
    rw [List.filter_cons]
    rcases List.mem_cons.mp hd with rfl | hd
    · have hnone : ds.filter (fun c => decide (c.key = d.key)) = [] := by
        rw [List.filter_eq_nil_iff]
        intro c hcm hck
        exact hc (List.mem_map.mpr ⟨c,hcm,of_decide_eq_true hck⟩)
      simp [hnone]
    · have hne : c.key ≠ d.key := by
        intro he
        exact hc (List.mem_map.mpr ⟨d,hd,he.symm⟩)
      simp only [hne,decide_false,Bool.false_eq_true,if_false]
      exact ih hns hd

theorem lastEntry_superOutput (k : UInt32) :
    lastEntry SuperBlockJournalEntry.off k (superJournalOutputVector kh journal) =
      lastEntry SuperBlockJournalEntry.off k journal := by
  rw [superOutput_eq,lastEntry_fetch (superPicks_points kh journal),
    ← lastEntry_indexed SuperBlockJournalEntry.off journal k]
  cases hl : ((indexed SuperBlockJournalEntry.off journal).filter
      (fun d => decide (d.key = k))).getLast? with
  | none =>
    have hno : (superPicks kh journal).filter (fun d => decide (d.key = k)) = [] := by
      rw [List.filter_eq_nil_iff]
      intro d hd hk
      have hd' := (mem_superPicks kh journal).mp hd
      rw [of_decide_eq_true hk,hl] at hd'
      cases hd'
    rw [hno]
    rfl
  | some d =>
    have hk : d.key = k := by
      simpa using (List.mem_filter.mp (List.mem_of_getLast? hl)).2
    subst hk
    rw [filter_key_eq (superPicks_keys kh journal) ((mem_superPicks kh journal).mpr hl)]
    rfl

theorem fetch_keys {ds : List JournalDedupEntry}
    (h : ∀ d ∈ ds, Points SuperBlockJournalEntry.off journal d) :
    (fetch journal (ds.map JournalDedupEntry.index)).map SuperBlockJournalEntry.off =
      ds.map JournalDedupEntry.key := by
  induction ds with
  | nil => rfl
  | cons d ds ih =>
    obtain ⟨e,he,hk⟩ := h d List.mem_cons_self
    rw [fetch_cons he,List.map_cons,List.map_cons,hk,
      ih (fun c hc => h c (List.mem_cons_of_mem _ hc))]

theorem superOutput_nodup :
    ((superJournalOutputVector kh journal).map SuperBlockJournalEntry.off).Nodup := by
  rw [superOutput_eq,fetch_keys journal (superPicks_points kh journal)]
  exact superPicks_keys kh journal

theorem superOutput_mem {e : SuperBlockJournalEntry}
    (he : e ∈ superJournalOutputVector kh journal) : e ∈ journal := by
  obtain ⟨i,_,hi⟩ := List.mem_filterMap.mp he
  exact List.mem_of_getElem? hi

theorem superOutput_length : (superJournalOutputVector kh journal).length = (journal.map (·.off)).dedup.length := by
  have hperm : ((superJournalOutputVector kh journal).map (·.off)).Perm (journal.map (·.off)).dedup := by
    rw [List.perm_ext_iff_of_nodup (superOutput_nodup kh journal) (List.nodup_dedup _)]
    intro k
    rw [List.mem_dedup,← lastEntry_isSome,← lastEntry_isSome,lastEntry_superOutput]
  rw [← hperm.length_eq,List.length_map]

end Map

end Rtfs
