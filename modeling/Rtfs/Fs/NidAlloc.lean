import Rtfs.Fs.MetaImage
import Rtfs.Lib.FreeList

namespace Rtfs

open RtfsSuperBlock

structure NidState where
  fs : FsMeta
  allocated : Set UInt32

inductive NidStep : NidState → NidState → Prop
  | alloc {s : NidState} {ino nid : UInt32} {isInode : Bool} {m : FsMeta}
      (h : superManagerAllocNid s.fs ino isInode = some (nid,m)) :
      NidStep s ⟨m,if nid = invalidNid then s.allocated else insert nid s.allocated⟩
  | setLpa {s : NidState} {nid lpa : UInt32} {m : FsMeta} (hnid : nid ∈ s.allocated)
      (h : natSetLpaOfNid s.fs nid lpa = some m) : NidStep s ⟨m,s.allocated⟩
  | free {s : NidState} {nid : UInt32} {m : FsMeta} (hnid : nid ∈ s.allocated)
      (h : superManagerFreeNid s.fs nid = some m) : NidStep s ⟨m,s.allocated \ {nid}⟩

def nidNext (m : FsMeta) (nid : UInt32) : UInt32 := (m.nat nid).blockAddr

structure NidFreeList (layout : RtfsMkfsLayout) (s : NidState) (l : List UInt32) : Prop where
  threaded : Threaded (nidNext s.fs) invalidNid (s.fs.field nextFreeNidOff) l
  bound : ∀ nid ∈ l, nid.toNat < layout.blockCount
  ino : ∀ nid ∈ l, (s.fs.nat nid).ino = invalidNid
  notAllocated : ∀ nid ∈ l, nid ∉ s.allocated

structure NidInv (layout : RtfsMkfsLayout) (s : NidState) : Prop where
  list : ∃ l, NidFreeList layout s l
  nonzero : ∀ nid ∈ s.allocated, nid ≠ invalidNid
  bound : ∀ nid ∈ s.allocated, nid.toNat < layout.blockCount
  area : s.fs.field segmentCountNatOff = layout.natSegmentCount

section Step
variable {layout : RtfsMkfsLayout} {s : NidState}

theorem NidInv.holdsNid (h : NidInv layout s) (ha : layout.Areas) {nid : UInt32}
    (hnid : nid.toNat < layout.blockCount) : natHoldsNid s.fs nid := by
  have hc := ha.natCovers
  have hs := ha.natSmall
  unfold natHoldsNid
  rw [h.area,UInt32.lt_iff_toNat_lt,UInt32.toNat_div,UInt32.toNat_mul]
  change nid.toNat / 512 < layout.natSegmentCount.toNat * 512 % 4294967296
  omega

theorem allocNid_cases (h : NidInv layout s) (ha : layout.Areas) (ino : UInt32) (isInode : Bool) :
    superManagerAllocNid s.fs ino isInode = some (invalidNid,s.fs) ∨
    ∃ nid l e m, NidFreeList layout s (nid :: l) ∧
      superManagerAllocNid s.fs ino isInode = some (nid,m) ∧
      m.field nextFreeNidOff = nidNext s.fs nid ∧
      m.field segmentCountNatOff = s.fs.field segmentCountNatOff ∧
      m.nat = Function.update s.fs.nat nid e := by
  obtain ⟨l,hl⟩ := h.list
  unfold superManagerAllocNid
  simp only
  by_cases hz : s.fs.field nextFreeNidOff = invalidNid
  · left
    rw [if_pos hz]
  · obtain ⟨l',rfl,_⟩ := hl.threaded.of_ne hz
    rw [if_neg hz,if_neg (not_not.mpr (h.holdsNid ha (hl.bound _ List.mem_cons_self)))]
    by_cases hb : (s.fs.nat (s.fs.field nextFreeNidOff)).blockAddr = invalidLpa
    · left
      rw [if_pos hb]
    · right
      rw [if_neg hb]
      refine ⟨_,l',_,_,hl,rfl,?_,?_,rfl⟩
      · simp only [FsMeta.field_journalField,FsMeta.field_setNat]
        rw [FsMeta.field_setField _ _ (by decide) (by decide) (by decide),if_pos rfl]
        rfl
      · simp only [FsMeta.field_journalField,FsMeta.field_setNat]
        rw [FsMeta.field_setField _ _ (by decide) (by decide) (by decide),if_neg (by decide)]

theorem setLpa_spec (h : NidInv layout s) (ha : layout.Areas) {nid : UInt32} (hnid : nid ∈ s.allocated)
    (lpa : UInt32) : ∃ m e, natSetLpaOfNid s.fs nid lpa = some m ∧
      (∀ off, m.field off = s.fs.field off) ∧ m.nat = Function.update s.fs.nat nid e := by
  unfold natSetLpaOfNid
  rw [if_neg (not_not.mpr (h.holdsNid ha (h.bound nid hnid)))]
  exact ⟨_,_,rfl,fun _ => rfl,rfl⟩

theorem freeNid_spec (h : NidInv layout s) (ha : layout.Areas) {nid : UInt32}
    (hnid : nid ∈ s.allocated) : ∃ m, superManagerFreeNid s.fs nid = some m ∧
      m.field nextFreeNidOff = nid ∧
      m.field segmentCountNatOff = s.fs.field segmentCountNatOff ∧
      m.nat = Function.update s.fs.nat nid ⟨invalidNid,s.fs.field nextFreeNidOff⟩ := by
  unfold superManagerFreeNid
  rw [if_neg (not_not.mpr (h.holdsNid ha (h.bound nid hnid)))]
  refine ⟨_,rfl,?_,?_,rfl⟩
  · simp only [FsMeta.field_journalField]
    rw [FsMeta.field_setField _ _ (by decide) (by decide) (by decide),if_pos rfl]
  · simp only [FsMeta.field_journalField]
    rw [FsMeta.field_setField _ _ (by decide) (by decide) (by decide),if_neg (by decide)]
    rfl

theorem entries_off_list {m m' : FsMeta} {nid : UInt32} {e : RtfsNatEntry} {l : List UInt32}
    (hnat : m'.nat = Function.update m.nat nid e) (hnid : nid ∉ l) :
    ∀ x ∈ l, m'.nat x = m.nat x := by
  intro x hx
  rw [hnat,Function.update_of_ne]
  rintro rfl
  exact hnid hx

theorem threaded_off_list {m m' : FsMeta} {nid a : UInt32} {e : RtfsNatEntry} {l : List UInt32}
    (hnat : m'.nat = Function.update m.nat nid e) (hnid : nid ∉ l)
    (h : Threaded (nidNext m) invalidNid a l) : Threaded (nidNext m') invalidNid a l := by
  refine h.congr (fun x hx => ?_)
  unfold nidNext
  rw [entries_off_list hnat hnid x hx]

theorem ino_off_list {m m' : FsMeta} {nid : UInt32} {e : RtfsNatEntry} {l : List UInt32}
    (hnat : m'.nat = Function.update m.nat nid e) (hnid : nid ∉ l)
    (h : ∀ x ∈ l, (m.nat x).ino = invalidNid) : ∀ x ∈ l, (m'.nat x).ino = invalidNid := by
  intro x hx
  rw [entries_off_list hnat hnid x hx]
  exact h x hx

theorem allocNid_inv (h : NidInv layout s) {nid : UInt32} {l : List UInt32} {e : RtfsNatEntry}
    {m : FsMeta} (hl : NidFreeList layout s (nid :: l))
    (hnext : m.field nextFreeNidOff = nidNext s.fs nid)
    (harea : m.field segmentCountNatOff = s.fs.field segmentCountNatOff)
    (hnat : m.nat = Function.update s.fs.nat nid e) : NidInv layout ⟨m,insert nid s.allocated⟩ := by
  have hnotin : nid ∉ l := (List.nodup_cons.mp hl.threaded.nodup).1
  refine ⟨⟨l,?_,?_,?_,?_⟩,?_,?_,harea.trans h.area⟩
  · change Threaded (nidNext m) invalidNid (m.field nextFreeNidOff) l
    rw [hnext]
    exact threaded_off_list hnat hnotin hl.threaded.2.2
  · exact fun x hx => hl.bound x (List.mem_cons_of_mem _ hx)
  · exact ino_off_list hnat hnotin (fun x hx => hl.ino x (List.mem_cons_of_mem _ hx))
  · rintro x hx (rfl | hin)
    · exact hnotin hx
    · exact hl.notAllocated x (List.mem_cons_of_mem _ hx) hin
  · rintro x (rfl | hx)
    · exact hl.threaded.ne_stop x List.mem_cons_self
    · exact h.nonzero x hx
  · rintro x (rfl | hx)
    · exact hl.bound x List.mem_cons_self
    · exact h.bound x hx

theorem freeNid_inv (h : NidInv layout s) {nid : UInt32} {m : FsMeta} (hnid : nid ∈ s.allocated)
    (hnext : m.field nextFreeNidOff = nid)
    (harea : m.field segmentCountNatOff = s.fs.field segmentCountNatOff)
    (hnat : m.nat = Function.update s.fs.nat nid ⟨invalidNid,s.fs.field nextFreeNidOff⟩) :
    NidInv layout ⟨m,s.allocated \ {nid}⟩ := by
  obtain ⟨l,hl⟩ := h.list
  have hnotin : nid ∉ l := fun hin => hl.notAllocated nid hin hnid
  have hself : m.nat nid = ⟨invalidNid,s.fs.field nextFreeNidOff⟩ := by
    rw [hnat,Function.update_self]
  refine ⟨⟨nid :: l,?_,?_,?_,?_⟩,fun x hx => h.nonzero x hx.1,fun x hx => h.bound x hx.1,
    harea.trans h.area⟩
  · change Threaded (nidNext m) invalidNid (m.field nextFreeNidOff) (nid :: l)
    rw [hnext]
    refine (threaded_off_list hnat hnotin hl.threaded).cons (h.nonzero nid hnid) ?_
    unfold nidNext
    rw [hself]
  · rintro x (_ | ⟨_,hx⟩)
    · exact h.bound nid hnid
    · exact hl.bound x hx
  · rintro x (_ | ⟨_,hx⟩)
    · exact congrArg RtfsNatEntry.ino hself
    · exact ino_off_list hnat hnotin hl.ino x hx
  · rintro x (_ | ⟨_,hx⟩)
    · exact fun hin => hin.2 rfl
    · exact fun hin => hl.notAllocated x hx hin.1

theorem nidStep_inv (ha : layout.Areas) {s' : NidState} (h : NidInv layout s) (hs : NidStep s s') :
    NidInv layout s' := by
  cases hs with
  | @alloc ino nid isInode m hop =>
    rcases allocNid_cases h ha ino isInode with hfail | ⟨n,l,e,m',hl,hok,hnext,harea,hnat⟩
    · rw [hop] at hfail
      cases hfail
      rw [if_pos rfl]
      exact h
    · rw [hop] at hok
      cases hok
      rw [if_neg (hl.threaded.ne_stop nid List.mem_cons_self)]
      exact allocNid_inv h hl hnext harea hnat
  | @setLpa nid lpa m hnid hop =>
    obtain ⟨m',e,hok,hfield,hnat⟩ := setLpa_spec h ha hnid lpa
    rw [hop] at hok
    cases hok
    obtain ⟨l,hl⟩ := h.list
    have hnotin : nid ∉ l := fun hin => hl.notAllocated nid hin hnid
    refine ⟨⟨l,?_,hl.bound,ino_off_list hnat hnotin hl.ino,hl.notAllocated⟩,h.nonzero,h.bound,
      (hfield _).trans h.area⟩
    change Threaded (nidNext m) invalidNid (m.field nextFreeNidOff) l
    rw [hfield]
    exact threaded_off_list hnat hnotin hl.threaded
  | @free nid m hnid hop =>
    obtain ⟨m',hok,hnext,harea,hnat⟩ := freeNid_spec h ha hnid
    rw [hop] at hok
    cases hok
    exact freeNid_inv h hnid hnext harea hnat

theorem nidRun_inv (ha : layout.Areas) {s' : NidState} (h : NidInv layout s)
    (hr : Relation.ReflTransGen NidStep s s') : NidInv layout s' := by
  induction hr with
  | refl => exact h
  | tail _ hs ih => exact nidStep_inv ha ih hs

end Step

section Image
variable {options : RtfsMkfsOptions} {layout : RtfsMkfsLayout} {m : FsMeta}

theorem effective_root_pos (options : RtfsMkfsOptions) :
    0 < (effectiveOptions options).rootIno.toNat := by
  unfold effectiveOptions
  simp only
  split
  · decide
  · rename_i h
    exact Nat.pos_of_ne_zero (fun he => h (UInt32.toNat_inj.mp he))

theorem image_nat (h : MkfsImage options layout m) (ha : layout.Areas)
    (hb : layout.blockCount ≤ 4294967296) {i : Nat} (hi : i < layout.blockCount) :
    m.nat (UInt32.ofNat i) = if i = (effectiveOptions options).rootIno.toNat then
        ⟨(effectiveOptions options).rootIno,layout.mainStartLpa⟩
      else initialNatEntry layout i := by
  have hto : (UInt32.ofNat i).toNat = i := by
    rw [UInt32.toNat_ofNat']
    omega
  have hc := ha.natCovers
  rw [h.nats _ (by omega),hto]
  exact initialNat_entry i

def nidOrEnd (layout : RtfsMkfsLayout) (i : Nat) : UInt32 :=
  if i < layout.blockCount then UInt32.ofNat i else invalidNid

theorem nidOrEnd_toNat (hb : layout.blockCount ≤ 4294967296) {i : Nat} (hi : i < layout.blockCount) :
    (nidOrEnd layout i).toNat = i := by
  rw [nidOrEnd,if_pos hi,UInt32.toNat_ofNat']
  omega

theorem image_freeList (h : MkfsImage options layout m) (ha : layout.Areas)
    (hroot : (effectiveOptions options).rootIno.toNat + 1 < layout.blockCount)
    (hb : layout.blockCount ≤ 4294967296) :
    NidFreeList layout ⟨m,{(effectiveOptions options).rootIno}⟩
      ((List.range' ((effectiveOptions options).rootIno.toNat + 1)
        (layout.blockCount - ((effectiveOptions options).rootIno.toNat + 1))).map
          (nidOrEnd layout)) := by
  have hnext := succ_toNat hroot hb
  have hpos := effective_root_pos options
  generalize hr : (effectiveOptions options).rootIno = root at *
  have hfield : m.field nextFreeNidOff = nidOrEnd layout (root.toNat + 1) := by
    have hf : m.field nextFreeNidOff = root + 1 := by
      rw [FsMeta.field,h.super,← hr]
      exact u32At_initialSuper _ _ (by decide) rfl
    rw [hf]
    apply UInt32.toNat_inj.mp
    rw [nidOrEnd_toNat hb hroot,hnext]
  have hentry (i : Nat) (hlo : root.toNat + 1 ≤ i) (hi : i < layout.blockCount) :
      m.nat (nidOrEnd layout i) = initialNatEntry layout i := by
    have he := image_nat h ha hb hi
    rw [nidOrEnd,if_pos hi,he,if_neg (by rw [hr]; omega)]
  refine ⟨?_,?_,?_,?_⟩
  · change Threaded (nidNext m) invalidNid (m.field nextFreeNidOff) _
    rw [hfield]
    refine threaded_of_range (nidOrEnd layout) (if_neg (lt_irrefl _)) hroot.le ?_ ?_
    · intro i hlo hi hz
      have hto := nidOrEnd_toNat hb hi
      rw [hz] at hto
      have h0 : (invalidNid : UInt32).toNat = 0 := rfl
      omega
    · intro i hlo hi
      unfold nidNext
      rw [hentry i hlo hi]
      rfl
  all_goals
    intro nid hnid
    obtain ⟨i,hi,rfl⟩ := List.mem_map.mp hnid
    rw [List.mem_range'_1] at hi
  · rw [nidOrEnd_toNat hb (by omega)]
    omega
  · change (m.nat _).ino = _
    rw [hentry i hi.1 (by omega)]
    rfl
  · intro hin
    have heq : nidOrEnd layout i = root := hin
    have hto : (nidOrEnd layout i).toNat = i := nidOrEnd_toNat hb (by omega)
    rw [heq] at hto
    omega

theorem image_nidInv (h : MkfsImage options layout m) (ha : layout.Areas)
    (hroot : (effectiveOptions options).rootIno.toNat + 1 < layout.blockCount)
    (hb : layout.blockCount ≤ 4294967296) :
    NidInv layout ⟨m,{(effectiveOptions options).rootIno}⟩ := by
  refine ⟨⟨_,image_freeList h ha hroot hb⟩,?_,?_,?_⟩
  · rintro nid rfl hz
    have hpos := effective_root_pos options
    rw [hz] at hpos
    exact absurd hpos (by decide)
  · rintro nid rfl
    omega
  · change u32At m.superBlock segmentCountNatOff = _
    rw [h.super]
    exact u32At_initialSuper _ _ (by decide) rfl

end Image

theorem nid_allocator_invariant (options : RtfsMkfsOptions) (layout : RtfsMkfsLayout) (m : FsMeta)
    (h : MkfsImage options layout m)
    (hroot : (effectiveOptions options).rootIno.toNat + 1 < layout.blockCount)
    (hb : layout.blockCount ≤ 4294967296) (s : NidState)
    (hrun : Relation.ReflTransGen NidStep ⟨m,{(effectiveOptions options).rootIno}⟩ s) :
    (∃ l, Threaded (fun nid => (s.fs.nat nid).blockAddr) invalidNid (s.fs.field nextFreeNidOff) l ∧
      l.Nodup ∧ ∀ nid ∈ l, nid.toNat < layout.blockCount ∧ (s.fs.nat nid).ino = invalidNid ∧
        nid ∉ s.allocated) ∧
    (∀ ino isInode, ∃ nid m', superManagerAllocNid s.fs ino isInode = some (nid,m') ∧
      (nid = invalidNid → m' = s.fs) ∧ (nid ≠ invalidNid → nid ∉ s.allocated)) ∧
    ∀ nid ∈ s.allocated, (∀ lpa, ∃ m', natSetLpaOfNid s.fs nid lpa = some m') ∧
      ∃ m', superManagerFreeNid s.fs nid = some m' := by
  have ha := calculateLayout_areas h.calculated (Or.inl hb)
  have hinv := nidRun_inv ha (image_nidInv h ha hroot hb) hrun
  refine ⟨?_,fun ino isInode => ?_,fun nid hnid => ⟨fun lpa => ?_,?_⟩⟩
  · obtain ⟨l,hl⟩ := hinv.list
    exact ⟨l,hl.threaded,hl.threaded.nodup,
      fun nid hnid => ⟨hl.bound nid hnid,hl.ino nid hnid,hl.notAllocated nid hnid⟩⟩
  · rcases allocNid_cases hinv ha ino isInode with hfail | ⟨nid,l,e,m',hl,hok,_⟩
    · exact ⟨_,_,hfail,fun _ => rfl,fun hne => absurd rfl hne⟩
    · refine ⟨nid,m',hok,fun hz => ?_,fun _ => hl.notAllocated nid List.mem_cons_self⟩
      exact absurd hz (hl.threaded.ne_stop nid List.mem_cons_self)
  · obtain ⟨m',_,hok,_⟩ := setLpa_spec hinv ha hnid lpa
    exact ⟨m',hok⟩
  · obtain ⟨m',hok,_⟩ := freeNid_spec hinv ha hnid
    exact ⟨m',hok⟩

section Small

theorem allocNid_small : ∃ m', superManagerAllocNid (loadMeta smallDisk) 0 true = some (2,m') := by
  have hfield : (loadMeta smallDisk).field nextFreeNidOff = 2 := by
    rw [FsMeta.field,loadMeta_small.super]
    exact u32At_initialSuper _ _ (by decide) rfl
  have harea : natHoldsNid (loadMeta smallDisk) 2 := by
    unfold natHoldsNid FsMeta.field
    rw [loadMeta_small.super,u32At_initialSuper _ _ (by decide) rfl]
    decide
  have hentry : (loadMeta smallDisk).nat 2 = ⟨0,3⟩ :=
    image_nat loadMeta_small (calculateLayout_areas loadMeta_small.calculated (by decide)) (by decide)
      (i := 2) (by decide)
  unfold superManagerAllocNid
  rw [hfield]
  simp only
  rw [if_neg (by decide),if_neg (not_not.mpr harea),hentry,if_neg (by decide)]
  exact ⟨_,rfl⟩

theorem nid_allocator_invariant_small : ∃ s : NidState,
    Relation.ReflTransGen NidStep ⟨loadMeta smallDisk,{1}⟩ s ∧ 2 ∈ s.allocated ∧
    ∃ l, Threaded (fun nid => (s.fs.nat nid).blockAddr) invalidNid (s.fs.field nextFreeNidOff) l ∧
      l.Nodup ∧ ∀ nid ∈ l, nid.toNat < 32768 ∧ (s.fs.nat nid).ino = invalidNid ∧
        nid ∉ s.allocated := by
  obtain ⟨m',hm'⟩ := allocNid_small
  have hstep : NidStep ⟨loadMeta smallDisk,{1}⟩ ⟨m',insert 2 {1}⟩ := by
    have ha := NidStep.alloc (s := ⟨loadMeta smallDisk,{1}⟩) hm'
    rwa [if_neg (by decide)] at ha
  have hrun := Relation.ReflTransGen.single hstep
  exact ⟨_,hrun,Set.mem_insert _ _,
    (nid_allocator_invariant smallOptions smallLayout _ loadMeta_small (by decide) (by decide) _ hrun).1⟩

end Small

end Rtfs
