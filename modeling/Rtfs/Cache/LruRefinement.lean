import Rtfs.Cache.CacheCode

namespace Rtfs

namespace CacheCode
variable {α : Type}

structure Refines (this : GenericCacheManager α) (m : Rtfs.GenericCacheManager α) (s : Lru.State UInt32 α) : Prop where
  holds : Holds this.replacer m.replacer
  index : this.index = m.index
  value : ∀ key, m.index key = (s.slot key).map Lru.Slot.value
  pinned : ∀ key, key ∈ m.replacer.pinned ↔ ∃ x, s.slot key = some x ∧ x.pinned = true
  order : Lru.Ordered s m.replacer.lru

structure Consistent (this : GenericCacheManager α) (s : Lru.State UInt32 α) : Prop where
  value : ∀ key, this.index key = (s.slot key).map Lru.Slot.value
  pinned : ∀ key, this.replacer.table key = (s.slot key).map Lru.Slot.pinned
  keys : ∀ key, this.index key ≠ none ↔ this.replacer.table key ≠ none
  lru : ∀ key, key ∈ this.replacer.lruHead ↔ this.replacer.table key = some false
  pin : ∀ key, key ∈ this.replacer.pinHead ↔ this.replacer.table key = some true
  nodup : this.replacer.lruHead.Nodup ∧ this.replacer.pinHead.Nodup
  size : this.replacer.size = this.replacer.lruHead.length

section Step
variable {this : GenericCacheManager α} {m : Rtfs.GenericCacheManager α} {s : Lru.State UInt32 α} {key : UInt32}

theorem Refines.slot_none (h : Refines this m s) : s.slot key = none ↔ m.index key = none := by
  rw [h.value,Option.map_eq_none_iff]

theorem Refines.mem_keys (h : Refines this m s) : key ∈ m.replacer.keys ↔ ∃ x, s.slot key = some x := by
  rw [← m.sync,Ne,← h.slot_none]
  exact Option.ne_none_iff_exists'

theorem Refines.consistent (h : Refines this m s) : Consistent this s := by
  have hpinned (k : UInt32) : this.replacer.table k = (s.slot k).map Lru.Slot.pinned := by
    cases hx : s.slot k with
    | none =>
      refine h.holds.table_none.mpr (fun hmem => ?_)
      obtain ⟨x,hx'⟩ := h.mem_keys.mp hmem
      exact nomatch hx.symm.trans hx'
    | some x =>
      cases hp : x.pinned with
      | false =>
        rw [Option.map_some,hp]
        exact (h.holds.unpinned k).mpr ((h.order.mem k).mpr ⟨x,hx,hp⟩)
      | true =>
        rw [Option.map_some,hp]
        exact (h.holds.pinned k).mpr ((h.pinned k).mpr ⟨x,hx,hp⟩)
  refine ⟨fun k => h.index ▸ h.value k,hpinned,fun k => ?_,fun k => ?_,fun k => ?_,
    ⟨h.holds.lru_nodup,h.holds.pin_nodup⟩,?_⟩
  · rw [h.index,h.value,hpinned]
    simp
  · rw [h.holds.lru,h.holds.unpinned]
  · rw [h.holds.pin,h.holds.pinned]
  · rw [h.holds.lru,h.holds.size]

theorem Refines.init : Refines (genericCacheManagerInit : GenericCacheManager α) Rtfs.GenericCacheManager.init
    Lru.State.init :=
  ⟨⟨rfl,rfl,fun _ => iff_of_false nofun List.not_mem_nil,fun _ => iff_of_false nofun List.not_mem_nil,rfl⟩,rfl,
    fun _ => rfl,fun _ => iff_of_false List.not_mem_nil (fun ⟨_,h,_⟩ => nomatch h),Lru.Ordered.init⟩

theorem map_put (x : Option (Lru.Slot α)) (k : UInt32) : ((s.put key x).slot k).map Lru.Slot.value =
    Function.update (fun k => (s.slot k).map Lru.Slot.value) key (x.map Lru.Slot.value) k := by
  rw [Lru.Ordered.slot_put,Function.update_apply]
  split <;> rfl

theorem Refines.add (h : Refines this m s) (v : α) (hl : m.index key = none) :
    ∃ this' s', apply this (.add key v) = some (none,this') ∧ Lru.Step s (.add key v) none s' ∧
      Refines this' (m.add key v hl) s' := by
  have hk := Rtfs.GenericCacheManager.notMem_of_none hl
  obtain ⟨r',hadd,hholds⟩ := holds_add h.holds hk
  have hslot := h.slot_none.mpr hl
  have hlru : key ∉ m.replacer.lru := fun hmem => hk (List.mem_append_left _ hmem)
  have huse := h.order.use key (x := ⟨v,false,s.clock⟩) rfl rfl
  rw [List.erase_of_not_mem hlru] at huse
  refine ⟨⟨Function.update this.index key (some v),r'⟩,_,?_,.add v hslot,hholds,?_,fun k => ?_,fun k => ?_,huse⟩
  · simp only [apply,genericCacheManagerAdd,cacheIndexManagerAdd,h.index,hl,hadd]
    rfl
  · exact congrArg (fun f => Function.update f key (some v)) h.index
  · rw [map_put,← funext h.value]
    rfl
  · change k ∈ m.replacer.pinned ↔ _
    rw [h.pinned,Lru.Ordered.slot_put]
    split
    · rename_i hk
      rw [hk,hslot]
      simp
    · rfl

theorem Refines.get (h : Refines this m s) (isAccess : Bool) :
    ∃ out this' m' s', apply this (.get key isAccess) = some (out,this') ∧
      Lru.Step s (.get key isAccess) out s' ∧ Refines this' m' s' := by
  have hvalue : this.index key = (s.slot key).map Lru.Slot.value := h.index ▸ h.value key
  simp only [apply,genericCacheManagerGet]
  by_cases ha : (this.index key).isSome ∧ isAccess = true
  · obtain ⟨hsome,rfl⟩ := ha
    have hmem : key ∈ m.replacer.keys := by
      rw [h.mem_keys]
      rw [hvalue,Option.isSome_map] at hsome
      exact Option.isSome_iff_exists.mp hsome
    obtain ⟨x,hx⟩ := h.mem_keys.mp hmem
    obtain ⟨r',hacc,hholds⟩ := holds_access h.holds hmem
    rw [if_pos ⟨hsome,rfl⟩,hacc]
    refine ⟨_,_,m.access key,s.touch key,rfl,?_,hholds,h.index,fun k => ?_,fun k => ?_,?_⟩
    · rw [hvalue]
      exact .get s key true
    · change m.index k = _
      unfold Lru.State.touch
      rw [map_put,← funext h.value,hx,Function.update_apply]
      split
      · rename_i hk
        rw [hk,h.value,hx,Option.map_some,Option.map_some,Option.map_some]
        split <;> rfl
      · rfl
    · change k ∈ (m.replacer.access key).pinned ↔ _
      unfold Lru.State.touch
      rw [Rtfs.CacheLruReplacer.mem_access_pinned,h.pinned,Lru.Ordered.slot_put,hx]
      split
      · rename_i hk
        rw [hk,hx]
        cases hp : x.pinned <;> simp [hp]
      · rfl
    · change Lru.Ordered _ (m.replacer.access key).lru
      unfold Lru.State.touch
      rw [hx,Option.map_some]
      cases hp : x.pinned with
      | false =>
        have hl : key ∈ m.replacer.lru := (h.order.mem key).mpr ⟨x,hx,hp⟩
        have hnp : key ∉ m.replacer.pinned := h.holds.not_both hl
        rw [(access_lru hnp hl).1]
        exact h.order.use key rfl rfl
      | true =>
        have hmem : key ∈ m.replacer.pinned := (h.pinned key).mpr ⟨x,hx,hp⟩
        have hnl : key ∉ m.replacer.lru := fun hl => h.holds.not_both hl hmem
        rw [(access_pinned hmem).1]
        have hdrop := h.order.drop key (x := some x) (fun y hy => Option.some.inj hy ▸ ⟨hp,?_⟩)
        · rw [List.erase_of_not_mem hnl] at hdrop
          exact hdrop
        · have hpast := h.order.past key (by rw [hx]; exact Option.some_ne_none _)
          unfold Lru.usedAt at hpast
          rw [hx] at hpast
          exact Nat.le_of_lt hpast
  · rw [if_neg ha]
    refine ⟨_,_,m,if isAccess then s.touch key else s.tick,rfl,?_,?_⟩
    · rw [hvalue]
      exact .get s key isAccess
    · cases isAccess with
      | false => exact ⟨h.holds,h.index,h.value,h.pinned,h.order.keep rfl (Nat.le_succ _)⟩
      | true =>
        have hnone : s.slot key = none := by
          rw [hvalue] at ha
          simpa using ha
        have hsame : (s.touch key).slot = s.slot := by
          unfold Lru.State.touch Lru.State.put
          rw [hnone]
          exact Function.update_eq_self_iff.mpr hnone.symm
        refine ⟨h.holds,h.index,?_,?_,h.order.keep hsame (Nat.le_succ _)⟩
        · rw [if_pos rfl,hsame]
          exact h.value
        · rw [if_pos rfl,hsame]
          exact h.pinned

theorem Refines.used_le (h : Refines this m s) {x : Lru.Slot α} (hx : s.slot key = some x) : x.used ≤ s.clock := by
  have hpast := h.order.past key (by rw [hx]; exact Option.some_ne_none _)
  unfold Lru.usedAt at hpast
  rw [hx] at hpast
  exact Nat.le_of_lt hpast

theorem Refines.value_put (h : Refines this m s) {x : Option (Lru.Slot α)}
    (hx : x.map Lru.Slot.value = (s.slot key).map Lru.Slot.value) (k : UInt32) :
    m.index k = ((s.put key x).slot k).map Lru.Slot.value := by
  rw [map_put,hx,← funext h.value,← h.value,Function.update_eq_self]

theorem Refines.pin (h : Refines this m s) (key : UInt32) :
    ∃ this', apply this (.pin key) = some (none,this') ∧ Lru.Step s (.pin key) none (s.pin key) ∧
      Refines this' (m.pin key) (s.pin key) := by
  obtain ⟨r',hpin,hholds⟩ := holds_pin h.holds key
  refine ⟨⟨this.index,r'⟩,?_,.pin s key,hholds,h.index,h.value_put ?_,fun k => ?_,?_⟩
  · simp only [apply,genericCacheManagerPin,hpin]
    rfl
  · cases s.slot key <;> rfl
  · change k ∈ (m.replacer.pin key).pinned ↔ _
    unfold Lru.State.pin
    rw [Rtfs.CacheLruReplacer.mem_pin_pinned,h.pinned,Lru.Ordered.slot_put,h.order.mem]
    by_cases hk : k = key
    · rw [if_pos hk,hk]
      unfold Lru.State.Unpinned
      cases s.slot key with
      | none => simp
      | some x => cases hp : x.pinned <;> simp [hp]
    · rw [if_neg hk]
      simp [hk]
  · change Lru.Ordered _ (m.replacer.pin key).lru
    have hdrop := h.order.drop key (x := (s.slot key).map (fun x => { x with pinned := true }))
      (fun y hy => by
        obtain ⟨x,hx,rfl⟩ := Option.map_eq_some_iff.mp hy
        exact ⟨rfl,h.used_le (x := x) hx⟩)
    unfold Rtfs.CacheLruReplacer.pin
    split
    · exact hdrop
    · rename_i hl
      rwa [List.erase_of_not_mem hl] at hdrop

theorem Refines.unpin (h : Refines this m s) (key : UInt32) :
    ∃ this', apply this (.unpin key) = some (none,this') ∧ Lru.Step s (.unpin key) none (s.unpin key) ∧
      Refines this' (m.unpin key) (s.unpin key) := by
  obtain ⟨r',hunpin,hholds⟩ := holds_unpin h.holds key
  refine ⟨⟨this.index,r'⟩,?_,.unpin s key,hholds,h.index,h.value_put ?_,fun k => ?_,?_⟩
  · simp only [apply,genericCacheManagerUnpin,hunpin]
    rfl
  · cases s.slot key with
    | none => rfl
    | some x => cases hp : x.pinned <;> simp [hp]
  · change k ∈ (m.replacer.unpin key).pinned ↔ _
    unfold Lru.State.unpin
    rw [Rtfs.CacheLruReplacer.mem_unpin_pinned,h.pinned,Lru.Ordered.slot_put]
    by_cases hk : k = key
    · rw [if_pos hk,hk]
      cases s.slot key with
      | none => simp
      | some x => cases hp : x.pinned <;> simp [hp]
    · rw [if_neg hk]
      simp [hk]
  · change Lru.Ordered (s.unpin key) (m.replacer.unpin key).lru
    unfold Rtfs.CacheLruReplacer.unpin Lru.State.unpin
    by_cases hp : key ∈ m.replacer.pinned
    · obtain ⟨x,hx,hpin⟩ := (h.pinned key).mp hp
      have hl : key ∉ m.replacer.lru := fun hl => h.holds.not_both hl hp
      have huse := h.order.use key (x := { x with pinned := false,used := s.clock }) rfl rfl
      rw [List.erase_of_not_mem hl] at huse
      rw [dif_pos hp,hx,Option.map_some,if_pos hpin]
      exact huse
    · rw [dif_neg hp]
      refine h.order.keep ?_ (Nat.le_succ _)
      refine (Function.update_eq_self_iff (f := s.slot)).mpr ?_
      cases hx : s.slot key with
      | none => rfl
      | some x =>
        have hpin : x.pinned ≠ true := fun hpin => hp ((h.pinned key).mpr ⟨x,hx,hpin⟩)
        rw [Option.map_some,if_neg hpin]

theorem Refines.remove (h : Refines this m s) (hl : this.index key ≠ none) :
    ∃ out this', apply this (.remove key) = some (out,this') ∧ ∃ s', Lru.Step s (.remove key) out s' ∧
      Refines this' (m.remove key) s' := by
  have hmem : key ∈ m.replacer.keys := (m.sync key).mp (h.index ▸ hl)
  obtain ⟨x,hx⟩ := h.mem_keys.mp hmem
  obtain ⟨r',hrem,hholds⟩ := holds_remove h.holds hmem
  refine ⟨some x.value,⟨Function.update this.index key none,r'⟩,?_,_,.remove hx,hholds,?_,fun k => ?_,fun k => ?_,?_⟩
  · simp only [apply,genericCacheManagerRemove,cacheIndexManagerRemove,hrem,h.index,h.value,hx]
    rfl
  · exact congrArg (fun f => Function.update f key none) h.index
  · rw [map_put,← funext h.value]
    rfl
  · change k ∈ m.replacer.pinned.erase key ↔ _
    rw [(List.nodup_append.mp m.replacer.nodup).2.1.mem_erase_iff,h.pinned,Lru.Ordered.slot_put]
    by_cases hk : k = key
    · rw [if_pos hk]
      exact iff_of_false (fun hc => hc.1 hk) (fun ⟨_,h,_⟩ => nomatch h)
    · rw [if_neg hk]
      exact and_iff_right hk
  · exact h.order.drop key nofun

theorem Refines.replaceOne (h : Refines this m s) :
    ∃ out this' m' s', apply this .replaceOne = some (out,this') ∧ Lru.Step s .replaceOne out s' ∧
      Refines this' m' s' := by
  simp only [apply,genericCacheManagerReplaceOne]
  cases hl : m.replacer.lru with
  | nil =>
    have hzero : this.replacer.size = 0 := by
      rw [h.holds.size,hl]
      rfl
    have hno : cacheLruReplacerCanReplace this.replacer = false := decide_eq_false (by omega)
    rw [if_pos hno]
    refine ⟨_,_,m,_,rfl,.full (fun k x hx => ?_),h.holds,h.index,h.value,h.pinned,h.order.keep rfl (Nat.le_succ _)⟩
    have hmem := (h.order.mem k).mpr ⟨x,hx⟩
    rw [hl] at hmem
    exact List.not_mem_nil hmem
  | cons key rest =>
    have hpos : 0 < this.replacer.size := by
      rw [h.holds.size,hl]
      exact Nat.succ_pos _
    obtain ⟨x,hx⟩ := (h.order.mem key).mp (hl ▸ List.mem_cons_self)
    obtain ⟨r,hpop⟩ : ∃ r, m.replacer.pop = some (key,r) := by
      cases hpop : m.replacer.pop with
      | none =>
        rw [Rtfs.CacheLruReplacer.pop_none_iff.mp hpop] at hl
        cases hl
      | some p =>
        obtain ⟨key',r⟩ := p
        have hhead := (Rtfs.CacheLruReplacer.pop_lru hpop).1
        rw [hl] at hhead
        obtain ⟨rfl,-⟩ := List.cons.inj hhead
        exact ⟨r,rfl⟩
    obtain ⟨r',hcode,hholds⟩ := holds_pop h.holds hpop
    have hdrop := h.order.drop key (x := none) nofun
    rw [hl,List.erase_cons_head] at hdrop
    have hrest : (m.drop key r hpop).replacer.lru = rest := by
      have hhead := (Rtfs.CacheLruReplacer.pop_lru hpop).1
      rw [hl] at hhead
      exact (List.cons.inj hhead).2.symm
    have hcan : ¬ cacheLruReplacerCanReplace this.replacer = false := by
      rw [Bool.not_eq_false]
      exact decide_eq_true hpos
    rw [if_neg hcan,hcode]
    refine ⟨some x.value,⟨Function.update this.index key none,r'⟩,m.drop key r hpop,_,?_,.evict hx ?_,hholds,?_,
      fun k => ?_,fun k => ?_,hrest ▸ hdrop⟩
    · simp only [cacheIndexManagerRemove,h.index,h.value,Option.map_some,hx.1]
    · exact fun key' x' hx' hne => (hl ▸ h.order).head_oldest hx hx' hne
    · exact congrArg (fun f => Function.update f key none) h.index
    · rw [map_put,← funext h.value]
      rfl
    · change k ∈ r.pinned ↔ _
      rw [(Rtfs.CacheLruReplacer.pop_lru hpop).2,h.pinned,Lru.Ordered.slot_put]
      by_cases hk : k = key
      · rw [if_pos hk,hk,hx.1]
        simp [hx.2]
      · rw [if_neg hk]

theorem Refines.step (h : Refines this m s) {op : Lru.Op UInt32 α} (hl : Legal this op) :
    ∃ out this' m' s', apply this op = some (out,this') ∧ Lru.Step s op out s' ∧ Refines this' m' s' := by
  cases op with
  | add key value =>
    obtain ⟨this',s',ha,hs,hr⟩ := h.add value (h.index ▸ hl : m.index key = none)
    exact ⟨none,this',_,s',ha,hs,hr⟩
  | get key isAccess => exact h.get isAccess
  | pin key =>
    obtain ⟨this',ha,hs,hr⟩ := h.pin key
    exact ⟨none,this',_,_,ha,hs,hr⟩
  | unpin key =>
    obtain ⟨this',ha,hs,hr⟩ := h.unpin key
    exact ⟨none,this',_,_,ha,hs,hr⟩
  | remove key =>
    obtain ⟨out,this',ha,s',hs,hr⟩ := h.remove hl
    exact ⟨out,this',_,s',ha,hs,hr⟩
  | replaceOne => exact h.replaceOne

theorem Refines.run (h : Refines this m s) {ops : List (Lru.Op UInt32 α)} (hl : LegalRun this ops) :
    ∃ outs this' s', CacheCode.run this ops = some (outs,this') ∧ Lru.Run s ops outs s' ∧ Consistent this' s' := by
  induction ops generalizing this m s with
  | nil => exact ⟨[],this,s,rfl,.nil s,h.consistent⟩
  | cons op ops ih =>
    obtain ⟨hop,hrest⟩ := hl
    obtain ⟨out,this₁,m₁,s₁,ha,hs,hr⟩ := h.step hop
    obtain ⟨outs,this',s',hrun,hspec,hc⟩ := ih hr (hrest out this₁ ha)
    refine ⟨out :: outs,this',s',?_,.cons hs hspec,hc⟩
    simp only [CacheCode.run,ha,Option.bind_some,hrun]
    rfl

end Step

theorem run_refines_lru {ops : List (Lru.Op UInt32 α)} (h : LegalRun genericCacheManagerInit ops) :
    ∃ outs this s, run genericCacheManagerInit ops = some (outs,this) ∧ Lru.Run Lru.State.init ops outs s ∧
      Consistent this s := Refines.init.run h

def evictOps : List (Lru.Op UInt32 Nat) :=
  [.add 1 10,.add 2 20,.add 3 30,.get 1 true,.pin 2,.replaceOne,.unpin 2,.replaceOne,.replaceOne]

theorem evictOps_legal : LegalRun genericCacheManagerInit evictOps := by
  refine ⟨rfl,fun _ _ h₁ => ?_⟩
  cases h₁
  refine ⟨rfl,fun _ _ h₂ => ?_⟩
  cases h₂
  refine ⟨rfl,fun _ _ _ => ?_⟩
  exact ⟨trivial,fun _ _ _ => ⟨trivial,fun _ _ _ => ⟨trivial,fun _ _ _ => ⟨trivial,fun _ _ _ =>
    ⟨trivial,fun _ _ _ => ⟨trivial,fun _ _ _ => trivial⟩⟩⟩⟩⟩⟩

-- the pinned key 2 is passed over and comes last, the key that was read again after the one that was not
theorem evict_run_refines_lru : ∃ this s, run genericCacheManagerInit evictOps =
      some ([none,none,none,some 10,none,some 30,none,some 10,some 20],this) ∧
    Lru.Run Lru.State.init evictOps [none,none,none,some 10,none,some 30,none,some 10,some 20] s ∧
      Consistent this s := by
  obtain ⟨outs,this,s,hrun,hspec,hc⟩ := run_refines_lru evictOps_legal
  have houts : (run genericCacheManagerInit evictOps).map Prod.fst =
      some [none,none,none,some 10,none,some 30,none,some 10,some 20] := by
    decide +kernel
  rw [hrun] at houts
  cases houts
  exact ⟨this,s,hrun,hspec,hc⟩

end CacheCode

end Rtfs
