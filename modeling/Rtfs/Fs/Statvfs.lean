import Rtfs.Fs.NidAlloc

namespace Rtfs

open RtfsSuperBlock

def rtfsStatvfsGetTotalFileSlots (m : FsMeta) : Nat :=
  if m.field segmentCountNatOff = 0 then 0 else (m.field segmentCountNatOff).toNat * 512 * 512 - 1

-- left is what total_slots leaves of free_count; none: the assertion of natGetNidPos fails
def countFreeNids (m : FsMeta) : Nat → UInt32 → Option Nat
  | 0,_ => some 0
  | left + 1,currentNid =>
    if currentNid = invalidNid then some 0
    else if ¬ natHoldsNid m currentNid then none
    else if (m.nat currentNid).ino ≠ invalidNid then some 0
    else
      let nextNid := (m.nat currentNid).blockAddr
      if nextNid = currentNid then some 1 else (countFreeNids m left nextNid).map (· + 1)

def rtfsStatvfsCountFreeNids (m : FsMeta) : Option Nat :=
  countFreeNids m (rtfsStatvfsGetTotalFileSlots m) (m.field nextFreeNidOff)

def allocTimes (args : Nat → UInt32 × Bool) : Nat → FsMeta → Option FsMeta
  | 0,m => some m
  | n + 1,m => (superManagerAllocNid m (args n).1 (args n).2).bind (fun r =>
      if r.1 = invalidNid then none else allocTimes args n r.2)

def FreeCountTruthful (args : Nat → UInt32 × Bool) (m : FsMeta) : Prop :=
  ∃ n m', rtfsStatvfsCountFreeNids m = some n ∧ allocTimes args n m = some m' ∧
    ∀ ino isInode, ∃ m'', superManagerAllocNid m' ino isInode = some (invalidNid,m'')

-- the end of the walk: the end of the list or a nid outside of the NAT
def nidOrStop (m : FsMeta) (nid : UInt32) : UInt32 := if natHoldsNid m nid then nid else invalidNid

structure FreeChain (m : FsMeta) (nid : UInt32) (l : List UInt32) : Prop where
  threaded : Threaded (fun x => nidOrStop m (nidNext m x)) invalidNid (nidOrStop m nid) l
  ino : ∀ x ∈ l, (m.nat x).ino = invalidNid

structure NidChained (s : NidState) : Prop where
  chain : ∃ l, FreeChain s.fs (s.fs.field nextFreeNidOff) l ∧ ∀ x ∈ l, x ∉ s.allocated
  nonzero : ∀ nid ∈ s.allocated, nid ≠ invalidNid

section Chain
variable {m m' : FsMeta} {nid : UInt32} {l : List UInt32}

theorem natHolds_congr (h : m'.field segmentCountNatOff = m.field segmentCountNatOff) (nid : UInt32) :
    natHoldsNid m' nid ↔ natHoldsNid m nid := by
  unfold natHoldsNid
  rw [h]

theorem nidOrStop_congr (h : m'.field segmentCountNatOff = m.field segmentCountNatOff) (nid : UInt32) :
    nidOrStop m' nid = nidOrStop m nid := by
  unfold nidOrStop
  simp only [natHolds_congr h]

theorem nidOrStop_holds (h : natHoldsNid m nid) : nidOrStop m nid = nid := if_pos h

theorem nidOrStop_stop (m : FsMeta) : nidOrStop m invalidNid = invalidNid := ite_self _

theorem FreeChain.of_threaded (h : Threaded (nidNext m) invalidNid nid l) (hheld : ∀ x ∈ l, natHoldsNid m x)
    (hino : ∀ x ∈ l, (m.nat x).ino = invalidNid) : FreeChain m nid l := by
  refine ⟨?_,hino⟩
  clear hino
  induction l generalizing nid with
  | nil =>
    obtain rfl : nid = invalidNid := h
    exact nidOrStop_stop m
  | cons x l ih =>
    obtain ⟨rfl,hne,hrest⟩ := h
    rw [nidOrStop_holds (hheld nid List.mem_cons_self)]
    exact ⟨rfl,hne,ih hrest (fun y hy => hheld y (List.mem_cons_of_mem _ hy))⟩

theorem FreeChain.congr (h : FreeChain m nid l) (hf : m'.field segmentCountNatOff = m.field segmentCountNatOff)
    (hn : ∀ x ∈ l, m'.nat x = m.nat x) : FreeChain m' nid l := by
  refine ⟨?_,fun x hx => by rw [hn x hx]; exact h.ino x hx⟩
  rw [nidOrStop_congr hf]
  refine h.threaded.congr (fun x hx => ?_)
  rw [nidOrStop_congr hf,nidNext,nidNext,hn x hx]

theorem FreeChain.of_holds (h : FreeChain m nid l) (hz : nid ≠ invalidNid) (hh : natHoldsNid m nid) :
    ∃ l', l = nid :: l' ∧ FreeChain m (nidNext m nid) l' ∧ nid ∉ l' ∧ (m.nat nid).ino = invalidNid := by
  have ht := h.threaded
  rw [nidOrStop_holds hh] at ht
  obtain ⟨l',rfl,ht'⟩ := ht.of_ne hz
  exact ⟨l',rfl,⟨ht',fun x hx => h.ino x (List.mem_cons_of_mem _ hx)⟩,(List.nodup_cons.mp ht.nodup).1,
    h.ino nid List.mem_cons_self⟩

theorem FreeChain.mem_holds (h : FreeChain m nid l) : ∀ x ∈ l, natHoldsNid m x ∧ x ≠ invalidNid := by
  have hthread : ∀ {a : UInt32} {l : List UInt32}, Threaded (fun x => nidOrStop m (nidNext m x)) invalidNid a l →
      (∀ x, a = x → x ≠ invalidNid → natHoldsNid m x) → ∀ x ∈ l, natHoldsNid m x := by
    intro a l ht ha
    induction l generalizing a with
    | nil => exact nofun
    | cons y ys ih =>
      obtain ⟨rfl,hne,hrest⟩ := ht
      intro x hx
      rcases List.mem_cons.mp hx with rfl | hx
      · exact ha x rfl hne
      · refine ih hrest (fun z hz hzne => ?_) x hx
        change nidOrStop m _ = z at hz
        unfold nidOrStop at hz
        split at hz
        · exact hz ▸ ‹natHoldsNid m _›
        · exact absurd hz.symm hzne
  intro x hx
  refine ⟨hthread h.threaded (fun z hz hzne => ?_) x hx,h.threaded.ne_stop x hx⟩
  unfold nidOrStop at hz
  split at hz
  · exact hz ▸ ‹natHoldsNid m _›
  · exact absurd hz.symm hzne

theorem alloc_holds (hz : m.field nextFreeNidOff ≠ invalidNid) (hh : natHoldsNid m (m.field nextFreeNidOff))
    (hb : nidNext m (m.field nextFreeNidOff) ≠ invalidNid) (ino : UInt32) (isInode : Bool) :
    ∃ e m', superManagerAllocNid m ino isInode = some (m.field nextFreeNidOff,m') ∧
      m'.field nextFreeNidOff = nidNext m (m.field nextFreeNidOff) ∧
      m'.field segmentCountNatOff = m.field segmentCountNatOff ∧
      m'.nat = Function.update m.nat (m.field nextFreeNidOff) e := by
  have hb' : (m.nat (m.field nextFreeNidOff)).blockAddr ≠ invalidLpa := hb
  unfold superManagerAllocNid
  simp only
  rw [if_neg hz,if_neg (not_not.mpr hh),if_neg hb']
  refine ⟨_,_,rfl,?_,?_,rfl⟩
  · simp only [FsMeta.field_journalField,FsMeta.field_setNat]
    rw [FsMeta.field_setField _ _ (by decide) (by decide) (by decide),if_pos rfl]
    rfl
  · simp only [FsMeta.field_journalField,FsMeta.field_setNat]
    rw [FsMeta.field_setField _ _ (by decide) (by decide) (by decide),if_neg (by decide)]

theorem alloc_last (hz : m.field nextFreeNidOff ≠ invalidNid) (hh : natHoldsNid m (m.field nextFreeNidOff))
    (hb : nidNext m (m.field nextFreeNidOff) = invalidNid) (ino : UInt32) (isInode : Bool) :
    superManagerAllocNid m ino isInode = some (invalidNid,m) := by
  have hb' : (m.nat (m.field nextFreeNidOff)).blockAddr = invalidLpa := hb
  unfold superManagerAllocNid
  simp only
  rw [if_neg hz,if_neg (not_not.mpr hh),if_pos hb']

theorem alloc_outside (hz : m.field nextFreeNidOff ≠ invalidNid) (hh : ¬ natHoldsNid m (m.field nextFreeNidOff))
    (ino : UInt32) (isInode : Bool) : superManagerAllocNid m ino isInode = none := by
  unfold superManagerAllocNid
  simp only
  rw [if_neg hz,if_pos hh]

theorem alloc_empty (hz : m.field nextFreeNidOff = invalidNid) (ino : UInt32) (isInode : Bool) :
    superManagerAllocNid m ino isInode = some (invalidNid,m) := by
  unfold superManagerAllocNid
  simp only
  rw [if_pos hz]

theorem countFreeNids_congr (h : FreeChain m nid l) (hf : m'.field segmentCountNatOff = m.field segmentCountNatOff)
    (hn : ∀ x ∈ l, m'.nat x = m.nat x) (left : Nat) : countFreeNids m' left nid = countFreeNids m left nid := by
  induction left generalizing nid l with
  | zero => rfl
  | succ left ih =>
    rw [countFreeNids,countFreeNids]
    by_cases hz : nid = invalidNid
    · rw [if_pos hz,if_pos hz]
    rw [if_neg hz,if_neg hz]
    by_cases hh : natHoldsNid m nid
    · obtain ⟨l',rfl,hrest,-,-⟩ := h.of_holds hz hh
      rw [if_neg (not_not.mpr ((natHolds_congr hf nid).mpr hh)),if_neg (not_not.mpr hh),hn nid List.mem_cons_self]
      have hih := ih hrest (fun x hx => hn x (List.mem_cons_of_mem _ hx))
      unfold nidNext at hih
      simp only [hih]
    · rw [if_pos (fun hc => hh ((natHolds_congr hf nid).mp hc)),if_pos hh]

theorem count_ne_allocs {args : Nat → UInt32 × Bool} {n left : Nat} (h : FreeChain m (m.field nextFreeNidOff) l)
    (hz : m.field nextFreeNidOff ≠ invalidNid) (hlen : l.length ≤ left)
    (hc : countFreeNids m left (m.field nextFreeNidOff) = some n) (ha : allocTimes args n m = some m')
    (hend : ∀ ino isInode, ∃ m'', superManagerAllocNid m' ino isInode = some (invalidNid,m'')) : False := by
  induction l generalizing m n left with
  | nil =>
    have hout : ¬ natHoldsNid m (m.field nextFreeNidOff) := fun hh => by
      obtain ⟨l',hl,-⟩ := h.of_holds hz hh
      cases hl
    cases left with
    | zero =>
      cases hc
      cases ha
      obtain ⟨m'',hm⟩ := hend 0 true
      rw [alloc_outside hz hout] at hm
      cases hm
    | succ left =>
      rw [countFreeNids,if_neg hz,if_pos hout] at hc
      cases hc
  | cons x l ih =>
    have hxh := h.mem_holds x List.mem_cons_self
    have hx : m.field nextFreeNidOff = x := by
      have ht := h.threaded.1
      unfold nidOrStop at ht
      split at ht
      · exact ht
      · exact absurd ht.symm hxh.2
    have hh : natHoldsNid m (m.field nextFreeNidOff) := hx ▸ hxh.1
    obtain ⟨l',hl,hrest,hnot,hino⟩ := h.of_holds hz hh
    obtain ⟨-,rfl⟩ := List.cons.inj hl
    obtain ⟨left,rfl⟩ : ∃ k, left = k + 1 := ⟨left - 1,by rw [List.length_cons] at hlen; omega⟩
    rw [countFreeNids,if_neg hz,if_neg (not_not.mpr hh),if_neg (not_not.mpr hino)] at hc
    simp only at hc
    split at hc
    · -- the element cannot be its own successor
      rename_i hself
      have hback : nidNext m (m.field nextFreeNidOff) = m.field nextFreeNidOff := hself
      rw [hback] at hrest
      obtain ⟨l'',rfl,-⟩ := hrest.of_holds hz hh
      exact hnot List.mem_cons_self
    · obtain ⟨k,hk,rfl⟩ := Option.map_eq_some_iff.mp hc
      rw [allocTimes] at ha
      by_cases hb : nidNext m (m.field nextFreeNidOff) = invalidNid
      · rw [alloc_last hz hh hb,Option.bind_some,if_pos rfl] at ha
        cases ha
      · obtain ⟨e,m₁,halloc,hnext,harea,hnat⟩ := alloc_holds hz hh hb (args k).1 (args k).2
        rw [halloc,Option.bind_some,if_neg hz] at ha
        have hoff : ∀ y ∈ l, m₁.nat y = m.nat y := entries_off_list hnat hnot
        have hrest₁ : FreeChain m₁ (m₁.field nextFreeNidOff) l := by
          rw [hnext]
          exact hrest.congr harea hoff
        refine ih hrest₁ (by rw [hnext]; exact hb) (Nat.le_of_succ_le_succ hlen) ?_ ha
        rw [hnext,countFreeNids_congr hrest harea hoff]
        exact hk

theorem countFreeNids_threaded (h : Threaded (nidNext m) invalidNid nid l) (hheld : ∀ x ∈ l, natHoldsNid m x)
    (hino : ∀ x ∈ l, (m.nat x).ino = invalidNid) {left : Nat} (hlen : l.length ≤ left) :
    countFreeNids m left nid = some l.length := by
  induction l generalizing nid left with
  | nil =>
    obtain rfl : nid = invalidNid := h
    cases left with
    | zero => rfl
    | succ left => rw [countFreeNids,if_pos rfl]; rfl
  | cons x l ih =>
    have hnot := (List.nodup_cons.mp h.nodup).1
    obtain ⟨rfl,hne,hrest⟩ := h
    obtain ⟨left,rfl⟩ : ∃ k, left = k + 1 := ⟨left - 1,by rw [List.length_cons] at hlen; omega⟩
    rw [countFreeNids,if_neg hne,if_neg (not_not.mpr (hheld nid List.mem_cons_self)),
      if_neg (not_not.mpr (hino nid List.mem_cons_self))]
    simp only
    have hself : (m.nat nid).blockAddr ≠ nid := by
      intro he
      have hstuck : Threaded (nidNext m) invalidNid nid l := (congrArg (Threaded _ _ · l) he).mp hrest
      obtain ⟨l',rfl,-⟩ := hstuck.of_ne hne
      exact hnot List.mem_cons_self
    have hih := ih hrest (fun y hy => hheld y (List.mem_cons_of_mem _ hy))
      (fun y hy => hino y (List.mem_cons_of_mem _ hy)) (Nat.le_of_succ_le_succ hlen)
    unfold nidNext at hih
    rw [if_neg hself,hih]
    rfl

theorem FreeChain.length_le (h : FreeChain m nid l) : l.length ≤ rtfsStatvfsGetTotalFileSlots m := by
  have hheld : ∀ x ∈ l, 0 < x.toNat ∧ x.toNat < (m.field segmentCountNatOff).toNat * 512 * 512 := by
    intro x hx
    obtain ⟨hh,hne⟩ := h.mem_holds x hx
    have hpos : 0 < x.toNat := Nat.pos_of_ne_zero (fun hz => hne (UInt32.toNat_inj.mp hz))
    unfold natHoldsNid at hh
    rw [UInt32.lt_iff_toNat_lt,UInt32.toNat_div,UInt32.toNat_mul] at hh
    change x.toNat / 512 < (m.field segmentCountNatOff).toNat * 512 % 4294967296 at hh
    omega
  have hsub : l.map UInt32.toNat ⊆ List.range' 1 ((m.field segmentCountNatOff).toNat * 512 * 512 - 1) := by
    intro y hy
    obtain ⟨x,hx,rfl⟩ := List.mem_map.mp hy
    have hb := hheld x hx
    rw [List.mem_range'_1]
    omega
  have hnd : (l.map UInt32.toNat).Nodup :=
    h.threaded.nodup.map (fun _ _ he => UInt32.toNat_inj.mp he)
  have hlen := (List.subperm_of_subset hnd hsub).length_le
  rw [List.length_map,List.length_range'] at hlen
  unfold rtfsStatvfsGetTotalFileSlots
  split
  · rename_i hz
    rw [hz] at hlen
    exact hlen
  · exact hlen

end Chain

section Step
variable {s s' : NidState}

theorem setLpa_keeps {m m' : FsMeta} {nid lpa : UInt32} (h : natSetLpaOfNid m nid lpa = some m') :
    (∀ off, m'.field off = m.field off) ∧ ∃ e, m'.nat = Function.update m.nat nid e := by
  unfold natSetLpaOfNid at h
  split at h
  · cases h
  · cases h
    exact ⟨fun _ => rfl,_,rfl⟩

theorem freeNid_fields {m m' : FsMeta} {nid : UInt32} (h : superManagerFreeNid m nid = some m') :
    natHoldsNid m nid ∧ m'.field nextFreeNidOff = nid ∧
      m'.field segmentCountNatOff = m.field segmentCountNatOff ∧
      m'.nat = Function.update m.nat nid ⟨invalidNid,m.field nextFreeNidOff⟩ := by
  unfold superManagerFreeNid at h
  split at h
  · cases h
  · rename_i hh
    cases h
    refine ⟨not_not.mp hh,?_,?_,rfl⟩
    · simp only [FsMeta.field_journalField]
      rw [FsMeta.field_setField _ _ (by decide) (by decide) (by decide),if_pos rfl]
    · simp only [FsMeta.field_journalField]
      rw [FsMeta.field_setField _ _ (by decide) (by decide) (by decide),if_neg (by decide)]
      rfl

theorem NidChained.alloc (h : NidChained s) {ino nid : UInt32} {isInode : Bool} {m : FsMeta}
    (hop : superManagerAllocNid s.fs ino isInode = some (nid,m)) :
    NidChained ⟨m,if nid = invalidNid then s.allocated else insert nid s.allocated⟩ := by
  by_cases hz : s.fs.field nextFreeNidOff = invalidNid
  · rw [alloc_empty hz] at hop
    cases hop
    rw [if_pos rfl]
    exact h
  by_cases hh : natHoldsNid s.fs (s.fs.field nextFreeNidOff)
  · by_cases hb : nidNext s.fs (s.fs.field nextFreeNidOff) = invalidNid
    · rw [alloc_last hz hh hb] at hop
      cases hop
      rw [if_pos rfl]
      exact h
    · obtain ⟨e,m',hok,hnext,harea,hnat⟩ := alloc_holds hz hh hb ino isInode
      rw [hop] at hok
      cases hok
      rw [if_neg hz]
      obtain ⟨l,hl,hout⟩ := h.chain
      obtain ⟨l',rfl,hrest,hnot,-⟩ := hl.of_holds hz hh
      refine ⟨⟨l',?_,?_⟩,?_⟩
      · change FreeChain m (m.field nextFreeNidOff) l'
        rw [hnext]
        exact hrest.congr harea (entries_off_list hnat hnot)
      · rintro x hx (rfl | hin)
        · exact hnot hx
        · exact hout x (List.mem_cons_of_mem _ hx) hin
      · rintro x (rfl | hx)
        · exact hz
        · exact h.nonzero x hx
  · rw [alloc_outside hz hh] at hop
    cases hop

theorem NidChained.free (h : NidChained s) {nid : UInt32} {m : FsMeta} (hnid : nid ∈ s.allocated)
    (hop : superManagerFreeNid s.fs nid = some m) : NidChained ⟨m,s.allocated \ {nid}⟩ := by
  obtain ⟨hh,hnext,harea,hnat⟩ := freeNid_fields hop
  obtain ⟨l,hl,hout⟩ := h.chain
  have hnot : nid ∉ l := fun hin => hout nid hin hnid
  have hself : m.nat nid = ⟨invalidNid,s.fs.field nextFreeNidOff⟩ := by
    rw [hnat,Function.update_self]
  have hrest := hl.congr harea (entries_off_list hnat hnot)
  refine ⟨⟨nid :: l,⟨?_,?_⟩,?_⟩,fun x hx => h.nonzero x hx.1⟩
  · change Threaded _ invalidNid (nidOrStop m (m.field nextFreeNidOff)) _
    rw [hnext,nidOrStop_holds ((natHolds_congr harea nid).mpr hh)]
    refine hrest.threaded.cons (h.nonzero nid hnid) ?_
    simp only [nidNext,hself]
  · rintro x (_ | ⟨_,hx⟩)
    · exact congrArg RtfsNatEntry.ino hself
    · exact hrest.ino x hx
  · rintro x (_ | ⟨_,hx⟩)
    · exact fun hin => hin.2 rfl
    · exact fun hin => hout x hx hin.1

theorem NidChained.step (h : NidChained s) (hs : NidStep s s') : NidChained s' := by
  cases hs with
  | alloc hop => exact h.alloc hop
  | @setLpa nid lpa m hnid hop =>
    obtain ⟨hfield,e,hnat⟩ := setLpa_keeps hop
    obtain ⟨l,hl,hout⟩ := h.chain
    have hnot : nid ∉ l := fun hin => hout nid hin hnid
    refine ⟨⟨l,?_,hout⟩,h.nonzero⟩
    change FreeChain m (m.field nextFreeNidOff) l
    rw [hfield]
    exact hl.congr (hfield _) (entries_off_list hnat hnot)
  | free hnid hop => exact h.free hnid hop

theorem NidChained.run (h : NidChained s) (hr : Relation.ReflTransGen NidStep s s') : NidChained s' := by
  induction hr with
  | refl => exact h
  | tail _ hs ih => exact ih.step hs

end Step

section Image
variable {options : RtfsMkfsOptions} {layout : RtfsMkfsLayout} {m : FsMeta}

theorem image_natHolds (h : MkfsImage options layout m) {nid : UInt32} (hh : natHoldsNid m nid) :
    nid.toNat / 512 < layout.natSegmentCount.toNat * 512 := by
  have harea : m.field segmentCountNatOff = layout.natSegmentCount := by
    rw [FsMeta.field,h.super]
    exact u32At_initialSuper _ _ (by decide) rfl
  unfold natHoldsNid at hh
  rw [harea,UInt32.lt_iff_toNat_lt,UInt32.toNat_div,UInt32.toNat_mul] at hh
  change nid.toNat / 512 < layout.natSegmentCount.toNat * 512 % 4294967296 at hh
  omega

theorem image_chain (h : MkfsImage options layout m) {nid : UInt32}
    (hroot : nid = invalidNid ∨ (effectiveOptions options).rootIno.toNat < nid.toNat) :
    ∃ l, FreeChain m nid l ∧ ∀ x ∈ l, (effectiveOptions options).rootIno.toNat < x.toNat := by
  have hstop : ∀ a, nidOrStop m a = invalidNid → FreeChain m a [] := fun a ha => ⟨ha,nofun⟩
  induction hk : 4294967296 - nid.toNat using Nat.strongRecOn generalizing nid with
  | ind k ih =>
    by_cases hz : nid = invalidNid
    · refine ⟨[],hstop nid ?_,nofun⟩
      rw [hz]
      exact nidOrStop_stop m
    have hlt := hroot.resolve_left hz
    by_cases hh : natHoldsNid m nid
    · have he : m.nat nid = initialNatEntry layout nid.toNat := by
        rw [h.nats nid (image_natHolds h hh)]
        exact (initialNat_entry nid.toNat).trans (if_neg (Nat.ne_of_gt hlt))
      have hsize : nid.toNat < 4294967296 := nid.toNat_lt
      have hnext : nidNext m nid = invalidNid ∨ (nidNext m nid).toNat = nid.toNat + 1 := by
        unfold nidNext
        rw [he]
        unfold initialNatEntry
        simp only
        split
        · by_cases hwrap : nid.toNat + 1 < 4294967296
          · right
            rw [UInt32.toNat_ofNat']
            omega
          · left
            have hfull : nid.toNat + 1 = 4294967296 := by omega
            rw [hfull]
            rfl
        · exact Or.inl rfl
      have hroot' : nidNext m nid = invalidNid ∨
          (effectiveOptions options).rootIno.toNat < (nidNext m nid).toNat :=
        hnext.imp_right (fun hn => by omega)
      have hchain : ∃ l, FreeChain m (nidNext m nid) l ∧
          ∀ x ∈ l, (effectiveOptions options).rootIno.toNat < x.toNat := by
        rcases hnext with hn | hn
        · refine ⟨[],hstop _ ?_,nofun⟩
          rw [hn]
          exact nidOrStop_stop m
        · exact ih (4294967296 - (nidNext m nid).toNat) (by omega) hroot' rfl
      obtain ⟨l,hl,hpast⟩ := hchain
      refine ⟨nid :: l,⟨?_,?_⟩,?_⟩
      · rw [nidOrStop_holds hh]
        exact hl.threaded.cons hz rfl
      · rintro x (_ | ⟨_,hx⟩)
        · rw [he]
          rfl
        · exact hl.ino x hx
      · rintro x (_ | ⟨_,hx⟩)
        · exact hlt
        · exact hpast x hx
    · exact ⟨[],hstop nid (if_neg hh),nofun⟩

theorem image_nextFree (h : MkfsImage options layout m) :
    m.field nextFreeNidOff = (effectiveOptions options).rootIno + 1 := by
  rw [FsMeta.field,h.super]
  exact u32At_initialSuper _ _ (by decide) rfl

theorem image_chained (h : MkfsImage options layout m) :
    NidChained ⟨m,{(effectiveOptions options).rootIno}⟩ := by
  have hfirst := image_nextFree h
  have hpos := effective_root_pos options
  have hroot : m.field nextFreeNidOff = invalidNid ∨
      (effectiveOptions options).rootIno.toNat < (m.field nextFreeNidOff).toNat := by
    rw [hfirst]
    by_cases hz : (effectiveOptions options).rootIno + 1 = invalidNid
    · exact Or.inl hz
    · right
      have hne : ((effectiveOptions options).rootIno + 1).toNat ≠ 0 :=
        fun he => hz (UInt32.toNat_inj.mp he)
      have hlt := (effectiveOptions options).rootIno.toNat_lt
      rw [UInt32.toNat_add] at hne ⊢
      change (_ + 1) % 4294967296 ≠ 0 at hne
      change _ < (_ + 1) % 4294967296
      omega
  obtain ⟨l,hl,hpast⟩ := image_chain h hroot
  refine ⟨⟨l,hl,fun x hx hin => ?_⟩,?_⟩
  · have hlt := hpast x hx
    rw [show x = _ from hin] at hlt
    exact lt_irrefl _ hlt
  · rintro nid rfl hz
    rw [hz] at hpos
    exact absurd hpos (by decide)

end Image

-- the list is non-empty in every reachable state of an image with a free nid, then f_ffree is one too many
theorem freeCount_truthful_iff (options : RtfsMkfsOptions) (layout : RtfsMkfsLayout) (m : FsMeta)
    (h : MkfsImage options layout m) (s : NidState)
    (hrun : Relation.ReflTransGen NidStep ⟨m,{(effectiveOptions options).rootIno}⟩ s)
    (args : Nat → UInt32 × Bool) :
    FreeCountTruthful args s.fs ↔ s.fs.field nextFreeNidOff = invalidNid := by
  obtain ⟨l,hl,-⟩ := ((image_chained h).run hrun).chain
  refine ⟨fun ⟨n,m',hc,ha,hend⟩ => ?_,fun hz => ⟨0,s.fs,?_,rfl,fun ino isInode => ⟨_,alloc_empty hz ino isInode⟩⟩⟩
  · by_contra hz
    exact count_ne_allocs hl hz hl.length_le hc ha hend
  · unfold rtfsStatvfsCountFreeNids
    cases rtfsStatvfsGetTotalFileSlots s.fs with
    | zero => rfl
    | succ left => rw [countFreeNids,if_pos hz]

section Small

def allocated (m : FsMeta) : FsMeta := ((superManagerAllocNid m invalidNid true).map Prod.snd).getD m

def freed (nid : UInt32) (m : FsMeta) : FsMeta := (superManagerFreeNid m nid).getD m

theorem alloc_step {m : FsMeta} {nids : Set UInt32} {nid : UInt32} (hz : nid ≠ invalidNid)
    (h : (superManagerAllocNid m invalidNid true).map Prod.fst = some nid) :
    NidStep ⟨m,nids⟩ ⟨allocated m,insert nid nids⟩ := by
  obtain ⟨⟨x,m'⟩,hcall,rfl⟩ := Option.map_eq_some_iff.mp h
  have hstep : NidStep ⟨m,nids⟩ ⟨m',if x = invalidNid then nids else insert x nids⟩ := .alloc hcall
  rw [if_neg hz] at hstep
  unfold allocated
  rw [hcall]
  exact hstep

theorem free_step {m : FsMeta} {nids : Set UInt32} {nid : UInt32} (hin : nid ∈ nids)
    (h : (superManagerFreeNid m nid).isSome = true) : NidStep ⟨m,nids⟩ ⟨freed nid m,nids \ {nid}⟩ := by
  obtain ⟨m',hcall⟩ := Option.isSome_iff_exists.mp h
  unfold freed
  rw [hcall]
  exact .free hin hcall

def twoAllocated : FsMeta := allocated (allocated smallMeta)

-- two inodes are created and the first one of them is removed
theorem freeCount_truthful_small : ∃ nids,
    Relation.ReflTransGen NidStep ⟨smallMeta,{1}⟩ ⟨freed 2 twoAllocated,nids⟩ ∧
    nidNext (freed 2 twoAllocated) 2 = 4 ∧
    (FreeCountTruthful (fun _ => (0,true)) (freed 2 twoAllocated) ↔
      (freed 2 twoAllocated).field nextFreeNidOff = invalidNid) := by
  have hrun : Relation.ReflTransGen NidStep ⟨smallMeta,{1}⟩
      ⟨freed 2 twoAllocated,insert 3 (insert 2 {1}) \ {2}⟩ := by
    refine .tail (.tail (.tail .refl (alloc_step (by decide) ?_)) (alloc_step (by decide) ?_)) (free_step (by simp) ?_)
    · decide +kernel
    · decide +kernel
    · decide +kernel
  exact ⟨_,hrun,by decide +kernel,freeCount_truthful_iff smallOptions smallLayout _ smallMeta_image _ hrun _⟩

-- 32766 nids are counted as free, 32765 calls succeed
theorem freeCount_small_overcounts :
    rtfsStatvfsCountFreeNids (loadMeta smallDisk) = some 32766 ∧
    ¬ FreeCountTruthful (fun _ => (0,true)) (loadMeta smallDisk) := by
  have hroot : (effectiveOptions smallOptions).rootIno.toNat + 1 < smallLayout.blockCount := by decide
  have ha := calculateLayout_areas loadMeta_small.calculated (by decide)
  have hinv := image_nidInv loadMeta_small ha hroot (by decide)
  have hl := image_freeList loadMeta_small ha hroot (by decide)
  have hheld := fun x hx => hinv.holdsNid ha (hl.bound x hx)
  have hchain := FreeChain.of_threaded hl.threaded hheld hl.ino
  have hne : (loadMeta smallDisk).field nextFreeNidOff ≠ invalidNid := by
    rw [image_nextFree loadMeta_small]
    decide
  refine ⟨?_,fun ⟨n,m',hc,halloc,hend⟩ => count_ne_allocs hchain hne hchain.length_le hc halloc hend⟩
  refine (countFreeNids_threaded hl.threaded hheld hl.ino hchain.length_le).trans ?_
  rw [List.length_map,List.length_range']
  rfl

end Small

end Rtfs
