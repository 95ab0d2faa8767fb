import Rtfs.Cache.CacheCalls

namespace Rtfs

def leaks (h : List CacheAccess) (k : UInt32) : Nat :=
  (h.filter (fun a => a.lpa = k ∧ a.use ≠ .released)).length

def lastUse (h : List CacheAccess) (k : UInt32) : Option CacheUse :=
  ((h.filter (fun a => a.lpa = k)).getLast?).map CacheAccess.use

-- a block no call will unpin any more: its counter, 32 bits wide, is not zero, or it has
-- come round to zero without a release
def Stuck (h : List CacheAccess) (k : UInt32) : Prop :=
  lastUse h k = some .kept ∨ leaks h k % 4294967296 ≠ 0

instance (h : List CacheAccess) (k : UInt32) : Decidable (Stuck h k) := instDecidableOr

def stuckBlocks (h : List CacheAccess) : Finset UInt32 :=
  (h.map CacheAccess.lpa).toFinset.filter (Stuck h)

def Fits (size : Nat) (h : List CacheAccess) (k : UInt32) : Prop := (insert k (stuckBlocks h)).card ≤ size

section History
variable (h : List CacheAccess) (k x : UInt32) (use : CacheUse)

theorem leaks_append (a : CacheAccess) : leaks (h ++ [a]) k =
    leaks h k + if a.lpa = k ∧ a.use ≠ .released then 1 else 0 := by
  unfold leaks
  rw [List.filter_append,List.length_append,List.filter_singleton]
  by_cases ha : a.lpa = k ∧ a.use ≠ .released
  · simp [ha]
  · rw [if_neg ha,decide_eq_false ha]
    rfl

theorem lastUse_append_self (a : CacheAccess) : lastUse (h ++ [a]) a.lpa = some a.use := by
  simp [lastUse]

theorem lastUse_append_ne {a : CacheAccess} (hne : a.lpa ≠ k) : lastUse (h ++ [a]) k = lastUse h k := by
  simp [lastUse,hne]

theorem stuck_append_ne {a : CacheAccess} (hne : a.lpa ≠ k) : Stuck (h ++ [a]) k ↔ Stuck h k := by
  unfold Stuck
  rw [lastUse_append_ne h k hne,leaks_append,if_neg (fun hc => hne hc.1),Nat.add_zero]

theorem stuck_kept : Stuck (h ++ [⟨k,.kept⟩]) k := Or.inl (lastUse_append_self h ⟨k,.kept⟩)

theorem stuck_other (hu : use ≠ .kept) :
    Stuck (h ++ [⟨k,use⟩]) k ↔ leaks (h ++ [⟨k,use⟩]) k % 4294967296 ≠ 0 := by
  have hl : lastUse (h ++ [⟨k,use⟩]) k = some use := lastUse_append_self h ⟨k,use⟩
  unfold Stuck
  rw [hl]
  exact or_iff_right (fun he => hu (Option.some.inj he))

variable {h k}

theorem mem_stuckBlocks : k ∈ stuckBlocks h ↔ Stuck h k := by
  unfold stuckBlocks
  rw [Finset.mem_filter,List.mem_toFinset]
  refine and_iff_right_of_imp (fun hs => ?_)
  rcases hs with hs | hs
  · obtain ⟨a,ha,_⟩ := Option.map_eq_some_iff.mp hs
    have hin := List.mem_filter.mp (List.mem_of_getLast? ha)
    exact List.mem_map.mpr ⟨a,hin.1,of_decide_eq_true hin.2⟩
  · have hpos : 0 < (h.filter (fun a => a.lpa = k ∧ a.use ≠ .released)).length := by
      rcases Nat.eq_zero_or_pos (leaks h k) with hz | hp
      · rw [hz] at hs
        exact absurd rfl hs
      · exact hp
    obtain ⟨a,ha⟩ := List.exists_mem_of_length_pos hpos
    have hin := List.mem_filter.mp ha
    exact List.mem_map.mpr ⟨a,hin.1,(of_decide_eq_true hin.2).1⟩

end History

theorem ofNat_eq_zero (n : Nat) : UInt32.ofNat n = 0 ↔ n % 4294967296 = 0 := by
  rw [← UInt32.toNat_inj,UInt32.toNat_ofNat']
  rfl

theorem ofNat_succ (n : Nat) : UInt32.ofNat n + 1 = UInt32.ofNat (n + 1) := (UInt32.ofNat_add n 1).symm

namespace SitNatCache

def pinned (c : SitNatCache) : List UInt32 := c.cacheManager.replacer.pinned

structure PinOk (h : List CacheAccess) (c : SitNatCache) : Prop where
  fits : c.curSize ≤ c.expectSize
  count : ∀ k e, c.entry k = some e → e.refCount = UInt32.ofNat (leaks h k)
  pinned : ∀ k, k ∈ c.pinned ↔ Stuck h k

structure Holding (h : List CacheAccess) (c : SitNatCache) (k : UInt32) (m : Nat) : Prop where
  entry : ∃ b, c.entry k = some ⟨UInt32.ofNat (leaks h k + m),b⟩
  count : ∀ x e, x ≠ k → c.entry x = some e → e.refCount = UInt32.ofNat (leaks h x)
  pinned : ∀ x, x ∈ c.pinned ↔ Stuck h x ∨ (x = k ∧ 0 < m)

section Pins
variable {c : SitNatCache} {h : List CacheAccess} {k : UInt32} {m : Nat}

theorem mem_pinned (x : UInt32) : x ∈ c.pinned ↔ x ∈ c.keys ∧ x ∉ c.lru :=
  CacheLruReplacer.mem_pinned_iff x

theorem PinOk.init (n : Nat) : PinOk [] (SitNatCache.init n) := by
  refine ⟨Nat.zero_le _,fun k e he => (by cases he),fun k => iff_of_false List.not_mem_nil ?_⟩
  rintro (hs | hs)
  · cases hs
  · exact hs rfl

theorem PinOk.card_stuck (hp : PinOk h c) : (stuckBlocks h).card = c.pinned.length := by
  have hn : c.pinned.Nodup := (List.nodup_append.mp c.cacheManager.replacer.nodup).2.1
  have hset : stuckBlocks h = c.pinned.toFinset := by
    ext x
    rw [mem_stuckBlocks,List.mem_toFinset,hp.pinned]
  rw [hset,List.toFinset_card_of_nodup hn]

theorem Holding.another (hh : Holding h c k m) : Holding h (c.addRefcount k) k (m + 1) := by
  obtain ⟨b,he⟩ := hh.entry
  have hent := addRefcount_some he
  refine ⟨⟨b,?_⟩,fun x e hx hxe => ?_,fun x => ?_⟩
  · rw [hent,if_pos rfl]
    simp only
    rw [ofNat_succ,Nat.add_assoc]
  · rw [hent,if_neg hx] at hxe
    exact hh.count x e hx hxe
  · have hkey : k ∈ c.keys := mem_keys_iff.mpr (by rw [he]; exact Option.some_ne_none _)
    unfold addRefcount
    rw [he]
    simp only
    split
    · change x ∈ (c.cacheManager.replacer.pin k).pinned ↔ _
      rw [CacheLruReplacer.mem_pin_pinned]
      change x ∈ c.pinned ∨ x = k ∧ k ∈ c.lru ↔ _
      rw [hh.pinned]
      constructor
      · rintro ((hs | ⟨rfl,_⟩) | ⟨rfl,_⟩)
        · exact Or.inl hs
        · exact Or.inr ⟨rfl,Nat.succ_pos m⟩
        · exact Or.inr ⟨rfl,Nat.succ_pos m⟩
      · rintro (hs | ⟨rfl,_⟩)
        · exact Or.inl (Or.inl hs)
        · by_cases hl : x ∈ c.lru
          · exact Or.inr ⟨rfl,hl⟩
          · exact Or.inl ((hh.pinned x).mp ((mem_pinned x).mpr ⟨hkey,hl⟩))
    · rename_i hne
      change x ∈ c.pinned ↔ _
      rw [hh.pinned]
      refine or_congr_right' (fun hns => and_congr_right (fun hx => iff_of_true ?_ (Nat.succ_pos m)))
      subst hx
      rcases Nat.eq_zero_or_pos m with rfl | hpos
      · exfalso
        apply hne
        have hz : leaks h x % 4294967296 = 0 := by
          by_contra hnz
          exact hns (Or.inr hnz)
        rw [Nat.add_zero,(ofNat_eq_zero _).mpr hz]
        rfl
      · exact hpos

theorem Holding.kept (hh : Holding h c k 1) (hfit : c.curSize ≤ c.expectSize) :
    PinOk (h ++ [⟨k,.kept⟩]) c := by
  obtain ⟨b,he⟩ := hh.entry
  refine ⟨hfit,fun x e hxe => ?_,fun x => ?_⟩
  · rw [leaks_append]
    by_cases hx : x = k
    · subst hx
      cases he.symm.trans hxe
      rw [if_pos ⟨rfl,show CacheUse.kept ≠ .released by decide⟩]
    · rw [if_neg (fun hc => hx hc.1.symm),Nat.add_zero]
      exact hh.count x e hx hxe
  · rw [hh.pinned]
    by_cases hx : x = k
    · subst hx
      exact iff_of_true (Or.inr ⟨rfl,Nat.one_pos⟩) (stuck_kept h x)
    · rw [stuck_append_ne h x (fun hc => hx hc.symm)]
      exact or_iff_left (fun hc => hx hc.1)

theorem Holding.release (hh : Holding h c k (m + 1)) (hfit : c.curSize ≤ c.expectSize) {use : CacheUse}
    (hu : use ≠ .kept) (hm : leaks (h ++ [⟨k,use⟩]) k = leaks h k + m) (fuel : Nat) :
    ∃ c', c.subRefcountRun fuel k = .returned c' ∧ PinOk (h ++ [⟨k,use⟩]) c' ∧
      c'.expectSize = c.expectSize := by
  obtain ⟨b,he⟩ := hh.entry
  have hcount : UInt32.ofNat (leaks h k + (m + 1)) - 1 = UInt32.ofNat (leaks (h ++ [⟨k,use⟩]) k) := by
    rw [hm,← Nat.add_assoc,← ofNat_succ,UInt32.add_sub_cancel]
  have hent (x : UInt32) : (c.modify k (fun e => ⟨e.refCount - 1,e.cache⟩)).entry x =
      if x = k then some ⟨UInt32.ofNat (leaks (h ++ [⟨k,use⟩]) k),b⟩ else c.entry x := by
    rw [entry_modify,he,Option.map_some,hcount]
  have hleaks (x : UInt32) (e : SitNatCacheEntry)
      (hxe : (c.modify k (fun e => ⟨e.refCount - 1,e.cache⟩)).entry x = some e) :
      e.refCount = UInt32.ofNat (leaks (h ++ [⟨k,use⟩]) x) := by
    rw [hent] at hxe
    by_cases hx : x = k
    · subst hx
      rw [if_pos rfl] at hxe
      cases hxe
      rfl
    · rw [if_neg hx] at hxe
      rw [leaks_append,if_neg (fun hc => hx hc.1.symm),Nat.add_zero]
      exact hh.count x e hx hxe
  have hstuck (x : UInt32) (hx : x ≠ k) : x ∈ c.pinned ↔ Stuck (h ++ [⟨k,use⟩]) x := by
    rw [hh.pinned,stuck_append_ne h x (fun hc => hx hc.symm)]
    exact or_iff_left (fun hc => hx hc.1)
  unfold subRefcountRun
  rw [he]
  simp only
  rw [hcount]
  by_cases hz : UInt32.ofNat (leaks (h ++ [⟨k,use⟩]) k) = 0
  · rw [if_pos hz,doReplaceRun,if_pos (by exact hfit)]
    refine ⟨_,rfl,⟨hfit,hleaks,fun x => ?_⟩,rfl⟩
    change x ∈ (c.cacheManager.replacer.unpin k).pinned ↔ _
    rw [CacheLruReplacer.mem_unpin_pinned]
    by_cases hx : x = k
    · subst hx
      refine iff_of_false (fun hc => hc.2 rfl) (fun hs => ?_)
      exact (stuck_other h x use hu).mp hs ((ofNat_eq_zero _).mp hz)
    · rw [and_iff_left hx]
      exact hstuck x hx
  · rw [if_neg hz]
    refine ⟨_,rfl,⟨hfit,hleaks,fun x => ?_⟩,rfl⟩
    change x ∈ c.pinned ↔ _
    by_cases hx : x = k
    · subst hx
      refine iff_of_true ((hh.pinned x).mpr (Or.inr ⟨rfl,Nat.succ_pos m⟩)) ((stuck_other h x use hu).mpr ?_)
      exact fun hc => hz ((ofNat_eq_zero _).mpr hc)
    · exact hstuck x hx

theorem Holding.write (hh : Holding h c k m) (b : Block) : Holding h (c.writeBlock k b) k m := by
  obtain ⟨b₀,he⟩ := hh.entry
  refine ⟨⟨b,?_⟩,fun x e hx hxe => ?_,hh.pinned⟩
  · unfold writeBlock
    rw [entry_modify,if_pos rfl,he]
    rfl
  · unfold writeBlock at hxe
    rw [entry_modify,if_neg hx] at hxe
    exact hh.count x e hx hxe

end Pins

section Get
variable {c : SitNatCache} {h : List CacheAccess} {k : UInt32}

theorem PinOk.not_stuck (hp : PinOk h c) (hn : c.entry k = none) : ¬ Stuck h k := by
  intro hs
  exact GenericCacheManager.notMem_of_none hn ((mem_pinned k).mp ((hp.pinned k).mpr hs)).1

theorem PinOk.hit (hp : PinOk h c) {e : SitNatCacheEntry} (he : c.entry k = some e) :
    Holding h (c.access k) k 0 := by
  refine ⟨⟨e.cache,?_⟩,fun x e _ hxe => hp.count x e hxe,fun x => ?_⟩
  · rw [Nat.add_zero,← hp.count k e he]
    exact he
  · rw [or_iff_left (fun hc => Nat.lt_irrefl 0 hc.2),← hp.pinned]
    exact CacheLruReplacer.mem_access_pinned k x

theorem PinOk.load (hp : PinOk h c) (hn : c.entry k = none) (b : Block) : Holding h (c.add k b hn) k 0 := by
  refine ⟨⟨b,?_⟩,fun x e hx hxe => ?_,fun x => ?_⟩
  · have hz : leaks h k % 4294967296 = 0 := by
      by_contra hnz
      exact hp.not_stuck hn (Or.inr hnz)
    rw [added_entry,if_pos rfl,Nat.add_zero,(ofNat_eq_zero _).mpr hz]
  · rw [added_entry,if_neg hx] at hxe
    exact hp.count x e hxe
  · rw [or_iff_left (fun hc => Nat.lt_irrefl 0 hc.2),← hp.pinned]
    rfl

theorem PinOk.fits_cached (hp : PinOk h c) {e : SitNatCacheEntry} (he : c.entry k = some e) :
    Fits c.expectSize h k := by
  have hsub : insert k (stuckBlocks h) ⊆ c.keys.toFinset := by
    intro x hx
    rw [List.mem_toFinset]
    rcases Finset.mem_insert.mp hx with rfl | hx
    · exact mem_keys_iff.mpr (by rw [he]; exact Option.some_ne_none _)
    · exact ((mem_pinned x).mp ((hp.pinned x).mpr (mem_stuckBlocks.mp hx))).1
  have hle := (Finset.card_le_card hsub).trans (List.toFinset_card_le c.keys)
  rw [← curSize_keys] at hle
  exact hle.trans hp.fits

theorem PinOk.fits_new (hp : PinOk h c) (hn : c.entry k = none) :
    Fits c.expectSize h k ↔ c.pinned.length < c.expectSize := by
  unfold Fits
  rw [Finset.card_insert_of_notMem (fun hs => hp.not_stuck hn (mem_stuckBlocks.mp hs)),hp.card_stuck]
  rfl

theorem curSize_split (c : SitNatCache) : c.curSize = c.lru.length + c.pinned.length := by
  rw [curSize_keys]
  exact List.length_append

structure Got (h : List CacheAccess) (c c' : SitNatCache) (k : UInt32) : Prop where
  holding : Holding h c' k 1
  fits : c'.curSize ≤ c'.expectSize
  expectSize : c'.expectSize = c.expectSize

theorem addRefcount_sizes (c : SitNatCache) (k : UInt32) :
    (c.addRefcount k).expectSize = c.expectSize ∧ (c.addRefcount k).curSize = c.curSize := by
  unfold addRefcount
  split
  · exact ⟨rfl,rfl⟩
  · simp only
    split <;> exact ⟨rfl,rfl⟩

theorem full_get (hp : PinOk h c) (hn : c.entry k = none) (b : Block) (hfull : c.expectSize ≤ c.curSize)
    (fuel : Nat) :
    (Fits c.expectSize h k ∧ ∃ c', ((c.add k b hn).addRefcount k).doReplaceRun (fuel + 1) = .returned c' ∧
      Got h c c' k) ∨
    (¬ Fits c.expectSize h k ∧ ((c.add k b hn).addRefcount k).doReplaceRun (fuel + 1) = .running) := by
  have hsize : c.curSize = c.expectSize := Nat.le_antisymm hp.fits hfull
  have hsplit := curSize_split c
  have hholds : Holding h ((c.add k b hn).addRefcount k) k 1 := (hp.load hn b).another
  have hlru : ((c.add k b hn).addRefcount k).lru = c.lru := addRefcount_add_lru hn
  obtain ⟨hexp,hcur⟩ := addRefcount_sizes (c.add k b hn) k
  have hexp' : ((c.add k b hn).addRefcount k).expectSize = c.expectSize := hexp
  have hcur' : ((c.add k b hn).addRefcount k).curSize = c.curSize + 1 := hcur
  have hover : ((c.add k b hn).addRefcount k).expectSize < ((c.add k b hn).addRefcount k).curSize := by
    omega
  rw [hp.fits_new hn]
  generalize (c.add k b hn).addRefcount k = c₁ at *
  cases hl : c.lru with
  | nil =>
    right
    rw [hl,List.length_nil] at hsplit
    refine ⟨by omega,?_⟩
    rw [doReplaceRun,if_neg (Nat.not_le.mpr hover)]
    exact replaceLoop_forever (GenericCacheManager.replaceOne_nil (hlru.trans hl)) hover _
  | cons v rest =>
    left
    rw [hl,List.length_cons] at hsplit
    refine ⟨by omega,?_⟩
    have hv : v ∈ c.lru := by
      rw [hl]
      exact List.mem_cons_self
    have hvk : v ≠ k := by
      rintro rfl
      exact GenericCacheManager.notMem_of_none hn (mem_keys_of_mem_lru hv)
    have hvs : ¬ Stuck h v := fun hs => ((mem_pinned v).mp ((hp.pinned v).mpr hs)).2 hv
    have hfree : ∀ e, c₁.entry v = some e → e.refCount = 0 := by
      intro e he
      rw [hholds.count v e hvk he,ofNat_eq_zero]
      by_contra hne
      exact hvs (Or.inr hne)
    obtain ⟨c',hc',hidx,hrest,hexp₁,hkeys⟩ := doReplace_evicts hover (hlru.trans hl) hfree
    have hrun : c₁.doReplaceRun (fuel + 1) = .returned c' := by
      have hr := doReplaceRun_result c₁ fuel
      rw [hc'] at hr
      cases ho : c₁.doReplaceRun (fuel + 1) with
      | returned a =>
        rw [ho] at hr
        cases hr
        rfl
      | aborted =>
        rw [ho] at hr
        cases hr
      | running =>
        rw [ho] at hr
        cases hr
    have hent (x : UInt32) : c'.entry x = if x = v then none else c₁.entry x := by
      change c'.cacheManager.index x = _
      rw [hidx,Function.update_apply]
      rfl
    have hlen := congrArg List.length hkeys
    rw [List.length_cons,← curSize_keys,← curSize_keys] at hlen
    obtain ⟨b',hb'⟩ := hholds.entry
    refine ⟨c',hrun,⟨⟨b',?_⟩,fun x e hx hxe => ?_,fun x => ?_⟩,by omega,hexp₁.trans hexp'⟩
    · rw [hent,if_neg hvk.symm]
      exact hb'
    · rw [hent] at hxe
      split at hxe
      · cases hxe
      · exact hholds.count x e hx hxe
    · rw [← hholds.pinned,mem_pinned,mem_pinned,hkeys,hrest,hlru.trans hl,List.mem_cons,List.mem_cons,not_or]
      have hnd : (v :: c'.keys).Nodup := hkeys ▸ c₁.cacheManager.replacer.nodup
      constructor
      · rintro ⟨h1,h2⟩
        exact ⟨Or.inr h1,fun he => (List.nodup_cons.mp hnd).1 (he ▸ h1),h2⟩
      · rintro ⟨rfl | h1,h2,h3⟩
        · exact absurd rfl h2
        · exact ⟨h1,h3⟩

theorem get_outcome (hp : PinOk h c) (fuel : Nat) (d : CommDev) (which : MetaCache) (a : CacheAccess) :
    c.getRun (fuel + 1) d which a = .abort ∨
    ∃ o, c.getRun (fuel + 1) d which a = ⟨[⟨which,a⟩],o⟩ ∧
      ((Fits c.expectSize h a.lpa ∧ ∃ c', o = .returned c' ∧ Got h c c' a.lpa) ∨
        (¬ Fits c.expectSize h a.lpa ∧ o = .running)) := by
  unfold getRun getCacheEntryInner
  split
  · rename_i hg
    exact Or.inl rfl
  · rename_i c₁ hg
    refine Or.inr ⟨_,rfl,?_⟩
    split at hg
    · rename_i e he
      cases hg
      obtain ⟨hexp,hcur⟩ := addRefcount_sizes (c.access a.lpa) a.lpa
      have hfit : ((c.access a.lpa).addRefcount a.lpa).curSize ≤
          ((c.access a.lpa).addRefcount a.lpa).expectSize := by
        rw [hexp,hcur]
        exact hp.fits
      refine Or.inl ⟨hp.fits_cached he,_,?_,(hp.hit he).another,hfit,hexp⟩
      rw [doReplaceRun,if_pos hfit]
    · rename_i hn
      split at hg
      · cases hg
      · rename_i b _
        cases hg
        rcases Nat.lt_or_ge c.curSize c.expectSize with hlt | hfull
        · obtain ⟨hexp,hcur⟩ := addRefcount_sizes (c.add a.lpa b hn) a.lpa
          have hfit : ((c.add a.lpa b hn).addRefcount a.lpa).curSize ≤
              ((c.add a.lpa b hn).addRefcount a.lpa).expectSize := by
            rw [hexp,hcur]
            exact hlt
          have hsplit := curSize_split c
          refine Or.inl ⟨(hp.fits_new hn).mpr (by omega),_,?_,(hp.load hn b).another,hfit,hexp⟩
          rw [doReplaceRun,if_pos hfit]
        · exact full_get hp hn b hfull fuel

end Get

end SitNatCache

end Rtfs
