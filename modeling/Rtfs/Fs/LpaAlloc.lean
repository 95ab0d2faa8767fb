import Rtfs.Fs.MetaImage
import Rtfs.Fs.SitRange
import Rtfs.Lib.FreeList

namespace Rtfs

open RtfsSuperBlock

structure LpaState where
  fs : FsMeta
  returned : List UInt32

def lpaRange (lpa : UInt32) (count : UInt32) : List UInt32 :=
  (List.range count.toNat).map (fun i => lpa + UInt32.ofNat i)

def lpaValid (m : FsMeta) (lpa : UInt32) : Prop :=
  (m.sit ((lpa - m.field segment0BlkaddrOff) / 512)).isValid
    ((lpa - m.field segment0BlkaddrOff) % 512).toNat = true

inductive LpaStep : LpaState → LpaState → Prop
  | allocNode {s : LpaState} {lpa : UInt32} {m : FsMeta}
      (h : superManagerAllocNodeLpa s.fs = some (lpa,m)) :
      LpaStep s ⟨m,if lpa = invalidLpa then s.returned else s.returned ++ [lpa]⟩
  | allocData {s : LpaState} {lpa : UInt32} {m : FsMeta}
      (h : superManagerAllocDataLpa s.fs = some (lpa,m)) :
      LpaStep s ⟨m,if lpa = invalidLpa then s.returned else s.returned ++ [lpa]⟩
  | allocDataRange {s : LpaState} {requestedCount lpa count : UInt32} {m : FsMeta}
      (h : superManagerAllocDataLpaRange s.fs requestedCount = some (lpa,count,m)) :
      LpaStep s ⟨m,s.returned ++ lpaRange lpa count⟩
  | invalidate {s : LpaState} {lpa : UInt32} {m : FsMeta} (hvalid : lpaValid s.fs lpa)
      (h : sitInvalidateLpa s.fs lpa = some m) : LpaStep s ⟨m,s.returned⟩

def RtfsMkfsLayout.InMain (layout : RtfsMkfsLayout) (segId : UInt32) : Prop :=
  layout.mainStartSegment.toNat ≤ segId.toNat ∧ segId.toNat < layout.segmentCount.toNat

def segNext (m : FsMeta) (segId : UInt32) : UInt32 := (m.sit segId).nextSeg

structure FreeSegment (layout : RtfsMkfsLayout) (s : LpaState) (segId : UInt32) : Prop where
  main : layout.InMain segId
  notCurrent : ∀ ctx : LpaArea, s.fs.field ctx.segIdOff ≠ segId
  empty : ∀ o < 512, (s.fs.sit segId).isValid o = false
  fresh : ∀ lpa ∈ s.returned, lpa / 512 ≠ segId

structure CurrentSegment (layout : RtfsMkfsLayout) (s : LpaState) (ctx : LpaArea) : Prop where
  main : layout.InMain (s.fs.field ctx.segIdOff)
  blkoff : (s.fs.field ctx.segBlkoffOff).toNat ≤ 512
  empty : ∀ o < 512, (s.fs.field ctx.segBlkoffOff).toNat ≤ o →
    (s.fs.sit (s.fs.field ctx.segIdOff)).isValid o = false
  fresh : ∀ lpa ∈ s.returned, lpa / 512 = s.fs.field ctx.segIdOff →
    lpa.toNat % 512 < (s.fs.field ctx.segBlkoffOff).toNat

structure LpaInv (layout : RtfsMkfsLayout) (s : LpaState) : Prop where
  seg0 : s.fs.field segment0BlkaddrOff = 0
  sitArea : s.fs.field segmentCountSitOff = layout.sitSegmentCount
  chain : ∃ l, Threaded (segNext s.fs) invalidSegid (s.fs.field firstFreeSegmentIdOff) l ∧
    l.length = (s.fs.field freeSegmentCountOff).toNat ∧ ∀ segId ∈ l, FreeSegment layout s segId
  current : ∀ ctx, CurrentSegment layout s ctx
  distinct : Function.Injective (fun ctx : LpaArea => s.fs.field ctx.segIdOff)
  nodup : s.returned.Nodup
  main : ∀ lpa ∈ s.returned, layout.InMain (lpa / 512)

section Fields
variable (m : FsMeta)

theorem segIdOff_ne_blkoffOff (ctx ctx' : LpaArea) : ctx.segIdOff ≠ ctx'.segBlkoffOff := by
  cases ctx <;> cases ctx' <;> decide

theorem segIdOff_inj {ctx ctx' : LpaArea} : ctx.segIdOff = ctx'.segIdOff ↔ ctx = ctx' := by
  cases ctx <;> cases ctx' <;> decide

theorem segBlkoffOff_inj {ctx ctx' : LpaArea} : ctx.segBlkoffOff = ctx'.segBlkoffOff ↔ ctx = ctx' := by
  cases ctx <;> cases ctx' <;> decide

theorem segIdOff_aligned (ctx : LpaArea) : ctx.segIdOff + 4 ≤ 4096 ∧ 4 ∣ ctx.segIdOff := by
  cases ctx <;> decide

theorem segBlkoffOff_aligned (ctx : LpaArea) : ctx.segBlkoffOff + 4 ≤ 4096 ∧ 4 ∣ ctx.segBlkoffOff := by
  cases ctx <;> decide

theorem field_openSegment (ctx : LpaArea) (segId : UInt32) {off : Nat} (h : 4 ∣ off) :
    (openSegment m ctx segId).field off =
      if off = ctx.segBlkoffOff then 0 else if off = ctx.segIdOff then segId else m.field off := by
  obtain ⟨h1,h2⟩ := segIdOff_aligned ctx
  obtain ⟨h3,h4⟩ := segBlkoffOff_aligned ctx
  unfold openSegment
  simp only [FsMeta.field_journalField]
  rw [FsMeta.field_setField _ _ h3 h4 h,FsMeta.field_setField _ _ h1 h2 h]

def takenSegment (m : FsMeta) : FsMeta :=
  let m1 := m.setField firstFreeSegmentIdOff (m.sit (m.field firstFreeSegmentIdOff)).nextSeg
  let m2 := m1.setField freeSegmentCountOff (m1.field freeSegmentCountOff - 1)
  (m2.journalField firstFreeSegmentIdOff).journalField freeSegmentCountOff

theorem field_takenSegment {off : Nat} (h : 4 ∣ off) :
    (takenSegment m).field off =
      if off = freeSegmentCountOff then m.field freeSegmentCountOff - 1
      else if off = firstFreeSegmentIdOff then segNext m (m.field firstFreeSegmentIdOff)
      else m.field off := by
  have hcount : (m.setField firstFreeSegmentIdOff (segNext m (m.field firstFreeSegmentIdOff))).field
      freeSegmentCountOff = m.field freeSegmentCountOff := by
    rw [FsMeta.field_setField _ _ (by decide) (by decide) (by decide),if_neg (by decide)]
  unfold takenSegment
  simp only [FsMeta.field_journalField]
  rw [FsMeta.field_setField _ _ (by decide) (by decide) h,
    FsMeta.field_setField _ _ (by decide) (by decide) h]
  exact congrArg (fun v => if off = freeSegmentCountOff then v - 1
    else if off = firstFreeSegmentIdOff then segNext m (m.field firstFreeSegmentIdOff)
    else m.field off) hcount

theorem takenSegment_segId (c : LpaArea) : (takenSegment m).field c.segIdOff = m.field c.segIdOff := by
  rw [field_takenSegment _ (segIdOff_aligned c).2,if_neg (by cases c <;> decide),
    if_neg (by cases c <;> decide)]

theorem takenSegment_blkoff (c : LpaArea) :
    (takenSegment m).field c.segBlkoffOff = m.field c.segBlkoffOff := by
  rw [field_takenSegment _ (segBlkoffOff_aligned c).2,if_neg (by cases c <;> decide),
    if_neg (by cases c <;> decide)]

end Fields

section NextSegment
variable {layout : RtfsMkfsLayout} {s : LpaState}

theorem LpaInv.holdsSegId (h : LpaInv layout s) (ha : layout.Areas) {segId : UInt32}
    (hseg : layout.InMain segId) : sitHoldsSegId s.fs segId := by
  have hc := ha.sitCovers
  have hs := ha.sitSmall
  have hlt := hseg.2
  unfold sitHoldsSegId
  rw [h.sitArea,UInt32.lt_iff_toNat_lt,UInt32.toNat_div,UInt32.toNat_mul]
  change segId.toNat / 60 < layout.sitSegmentCount.toNat * 512 % 4294967296
  omega

theorem openSegment_inv (h : LpaInv layout s) (ctx : LpaArea) {segId : UInt32} {l : List UInt32}
    (hchain : Threaded (segNext s.fs) invalidSegid (s.fs.field firstFreeSegmentIdOff) (segId :: l))
    (hlen : (segId :: l).length = (s.fs.field freeSegmentCountOff).toNat)
    (hfree : ∀ x ∈ segId :: l, FreeSegment layout s x) :
    LpaInv layout ⟨openSegment (takenSegment s.fs) ctx segId,s.returned⟩ := by
  have hhead : s.fs.field firstFreeSegmentIdOff = segId := hchain.1
  have hnotin : segId ∉ l := (List.nodup_cons.mp hchain.nodup).1
  have hseg := hfree segId List.mem_cons_self
  have hother : ∀ off, 4 ∣ off → off ≠ freeSegmentCountOff → off ≠ firstFreeSegmentIdOff →
      off ≠ ctx.segBlkoffOff → off ≠ ctx.segIdOff →
      (openSegment (takenSegment s.fs) ctx segId).field off = s.fs.field off := by
    intro off ho h1 h2 h3 h4
    rw [field_openSegment _ _ _ ho,if_neg h3,if_neg h4,field_takenSegment _ ho,if_neg h1,if_neg h2]
  have hids (c : LpaArea) : (openSegment (takenSegment s.fs) ctx segId).field c.segIdOff =
      if c = ctx then segId else s.fs.field c.segIdOff := by
    rw [field_openSegment _ _ _ (segIdOff_aligned c).2,if_neg (segIdOff_ne_blkoffOff c ctx),
      takenSegment_segId]
    simp only [segIdOff_inj]
  have hoffs (c : LpaArea) : (openSegment (takenSegment s.fs) ctx segId).field c.segBlkoffOff =
      if c = ctx then 0 else s.fs.field c.segBlkoffOff := by
    rw [field_openSegment _ _ _ (segBlkoffOff_aligned c).2,
      if_neg (segIdOff_ne_blkoffOff ctx c).symm,takenSegment_blkoff]
    simp only [segBlkoffOff_inj]
  have hfirst : (openSegment (takenSegment s.fs) ctx segId).field firstFreeSegmentIdOff =
      segNext s.fs segId := by
    rw [field_openSegment _ _ _ (by decide),if_neg (by cases ctx <;> decide),
      if_neg (by cases ctx <;> decide),field_takenSegment _ (by decide),if_neg (by decide),
      if_pos rfl,hhead]
  have hcount : (openSegment (takenSegment s.fs) ctx segId).field freeSegmentCountOff =
      s.fs.field freeSegmentCountOff - 1 := by
    rw [field_openSegment _ _ _ (by decide),if_neg (by cases ctx <;> decide),
      if_neg (by cases ctx <;> decide),field_takenSegment _ (by decide),if_pos rfl]
  refine ⟨?_,?_,⟨l,?_,?_,fun x hx => ?_⟩,fun c => ?_,fun c c' hcc => ?_,h.nodup,h.main⟩
  · exact (hother _ (by decide) (by decide) (by decide) (by cases ctx <;> decide)
      (by cases ctx <;> decide)).trans h.seg0
  · exact (hother _ (by decide) (by decide) (by decide) (by cases ctx <;> decide)
      (by cases ctx <;> decide)).trans h.sitArea
  · dsimp only
    rw [hfirst]
    exact hchain.2.2
  · dsimp only
    rw [hcount,UInt32.toNat_sub_of_le]
    · rw [List.length_cons] at hlen
      change l.length = (s.fs.field freeSegmentCountOff).toNat - 1
      omega
    · rw [List.length_cons] at hlen
      change 1 ≤ (s.fs.field freeSegmentCountOff).toNat
      omega
  · have hx' := hfree x (List.mem_cons_of_mem _ hx)
    refine ⟨hx'.main,fun c => ?_,hx'.empty,hx'.fresh⟩
    dsimp only
    rw [hids]
    split
    · rintro rfl
      exact hnotin hx
    · exact hx'.notCurrent c
  · by_cases hc : c = ctx
    · have hid := (hids c).trans (if_pos hc)
      have hoff := (hoffs c).trans (if_pos hc)
      refine ⟨?_,?_,?_,?_⟩
      all_goals dsimp only
      all_goals simp only [hid,hoff]
      · exact hseg.main
      · decide
      · exact fun o ho _ => hseg.empty o ho
      · exact fun lpa hl he => absurd he (hseg.fresh lpa hl)
    · have hid := (hids c).trans (if_neg hc)
      have hoff := (hoffs c).trans (if_neg hc)
      obtain ⟨h1,h2,h3,h4⟩ := h.current c
      refine ⟨?_,?_,?_,?_⟩
      all_goals dsimp only
      all_goals simp only [hid,hoff]
      · exact h1
      · exact h2
      · exact h3
      · exact h4
  · have hcc' : (openSegment (takenSegment s.fs) ctx segId).field c.segIdOff =
        (openSegment (takenSegment s.fs) ctx segId).field c'.segIdOff := hcc
    rw [hids,hids] at hcc'
    by_cases h1 : c = ctx
    · by_cases h2 : c' = ctx
      · rw [h1,h2]
      · rw [if_pos h1,if_neg h2] at hcc'
        exact absurd hcc'.symm (hseg.notCurrent c')
    · by_cases h2 : c' = ctx
      · rw [if_neg h1,if_pos h2] at hcc'
        exact absurd hcc' (hseg.notCurrent c)
      · rw [if_neg h1,if_neg h2] at hcc'
        exact h.distinct hcc'

theorem nextSegment_opens (h : LpaInv layout s) (ha : layout.Areas) {ctx : LpaArea}
    (hfull : ¬ s.fs.field ctx.segBlkoffOff < 512) (hfree : s.fs.field freeSegmentCountOff ≠ 0) :
    ∃ segId, nextSegment s.fs ctx = some (true,openSegment (takenSegment s.fs) ctx segId) ∧
      LpaInv layout ⟨openSegment (takenSegment s.fs) ctx segId,s.returned⟩ := by
  obtain ⟨l,hchain,hlen,hall⟩ := h.chain
  cases l with
  | nil => exact absurd (UInt32.toNat_inj.mp hlen.symm) hfree
  | cons segId l =>
    have hhead : s.fs.field firstFreeSegmentIdOff = segId := hchain.1
    have hhold := h.holdsSegId ha (hall segId List.mem_cons_self).main
    refine ⟨segId,?_,openSegment_inv h ctx hchain hlen hall⟩
    unfold nextSegment superManagerAllocSegment
    rw [if_neg hfull,if_neg hfree]
    simp only
    rw [hhead,if_neg (not_not.mpr hhold)]
    simp only
    rw [if_neg hchain.2.1,takenSegment,hhead]

theorem nextSegment_cases (h : LpaInv layout s) (ha : layout.Areas) (ctx : LpaArea) :
    nextSegment s.fs ctx = some (false,s.fs) ∨
    ∃ m, nextSegment s.fs ctx = some (true,m) ∧ LpaInv layout ⟨m,s.returned⟩ ∧
      (m.field ctx.segBlkoffOff).toNat < 512 := by
  by_cases hoff : s.fs.field ctx.segBlkoffOff < 512
  · right
    rw [nextSegment,if_pos hoff]
    exact ⟨s.fs,rfl,h,hoff⟩
  · by_cases hz : s.fs.field freeSegmentCountOff = 0
    · left
      rw [nextSegment,if_neg hoff,superManagerAllocSegment,if_pos hz]
      rfl
    · right
      obtain ⟨segId,hnext,hinv⟩ := nextSegment_opens h ha hoff hz
      refine ⟨_,hnext,hinv,?_⟩
      rw [field_openSegment _ _ _ (segBlkoffOff_aligned ctx).2,if_pos rfl]
      decide

end NextSegment

section TakeBlocks
variable {layout : RtfsMkfsLayout} {s : LpaState}

theorem segLpa_toNat {segId off : UInt32} {i : Nat} (hseg : segId.toNat < 8388608)
    (hi : off.toNat + i < 512) :
    (segId * 512 + off + UInt32.ofNat i).toNat = 512 * segId.toNat + off.toNat + i := by
  rw [UInt32.toNat_add,UInt32.toNat_add,UInt32.toNat_mul,UInt32.toNat_ofNat']
  change ((segId.toNat * 512 % 4294967296 + off.toNat) % 4294967296 + i % 4294967296) %
    4294967296 = _
  omega

theorem lpa_div {lpa segId : UInt32} {o : Nat} (h : lpa.toNat = 512 * segId.toNat + o) (ho : o < 512) :
    lpa / 512 = segId ∧ lpa.toNat % 512 = o := by
  refine ⟨UInt32.toNat_inj.mp ?_,by omega⟩
  rw [UInt32.toNat_div]
  change lpa.toNat / 512 = _
  omega

structure TakenRange (m : FsMeta) (ctx : LpaArea) (lpa count : UInt32) : Prop where
  start : lpa = m.field ctx.segIdOff * 512 + m.field ctx.segBlkoffOff
  pos : 0 < count.toNat
  fits : (m.field ctx.segBlkoffOff).toNat + count.toNat ≤ 512

theorem TakenRange.mem {m : FsMeta} {ctx : LpaArea} {lpa count x : UInt32}
    (h : TakenRange m ctx lpa count) (hseg : (m.field ctx.segIdOff).toNat < 8388608)
    (hx : x ∈ lpaRange lpa count) : x / 512 = m.field ctx.segIdOff ∧
      (m.field ctx.segBlkoffOff).toNat ≤ x.toNat % 512 ∧
      x.toNat % 512 < (m.field ctx.segBlkoffOff).toNat + count.toNat := by
  obtain ⟨i,hi,rfl⟩ := List.mem_map.mp hx
  rw [List.mem_range] at hi
  have hfits := h.fits
  have hto : (lpa + UInt32.ofNat i).toNat = 512 * (m.field ctx.segIdOff).toNat +
      ((m.field ctx.segBlkoffOff).toNat + i) := by
    rw [h.start,segLpa_toNat hseg (by omega),Nat.add_assoc]
  obtain ⟨hdiv,hmod⟩ := lpa_div hto (by omega)
  exact ⟨hdiv,by omega,by omega⟩

theorem lpaRange_nodup {m : FsMeta} {ctx : LpaArea} {lpa count : UInt32}
    (h : TakenRange m ctx lpa count) (hseg : (m.field ctx.segIdOff).toNat < 8388608) :
    (lpaRange lpa count).Nodup := by
  have hfits := h.fits
  refine List.Nodup.map_on (fun i hi k hk he => ?_) List.nodup_range
  rw [List.mem_range] at hi hk
  have he' := congrArg UInt32.toNat he
  rw [h.start,segLpa_toNat hseg (by omega),segLpa_toNat hseg (by omega)] at he'
  omega

def marked (m : FsMeta) (ctx : LpaArea) (count : UInt32) (e : RtfsSitEntry) : FsMeta :=
  let m1 := (m.setField ctx.segBlkoffOff (m.field ctx.segBlkoffOff + count)).journalField ctx.segBlkoffOff
  (m1.setSit (m.field ctx.segIdOff) e).journalSit (m.field ctx.segIdOff)

theorem field_marked (m : FsMeta) (ctx : LpaArea) (count : UInt32) (e : RtfsSitEntry) {off : Nat}
    (h : 4 ∣ off) : (marked m ctx count e).field off =
      if off = ctx.segBlkoffOff then m.field ctx.segBlkoffOff + count else m.field off := by
  obtain ⟨h1,h2⟩ := segBlkoffOff_aligned ctx
  unfold marked
  simp only [FsMeta.field_journalSit,FsMeta.field_setSit,FsMeta.field_journalField]
  exact FsMeta.field_setField _ _ h1 h2 h

theorem sit_marked (m : FsMeta) (ctx : LpaArea) (count : UInt32) (e : RtfsSitEntry) :
    (marked m ctx count e).sit = Function.update m.sit (m.field ctx.segIdOff) e := rfl

theorem marked_inv (h : LpaInv layout s) (hN : layout.segmentCount.toNat < 8388608) {ctx : LpaArea}
    {lpa count : UInt32} {e : RtfsSitEntry} (ht : TakenRange s.fs ctx lpa count)
    (hmap : ∀ o, (s.fs.field ctx.segBlkoffOff).toNat + count.toNat ≤ o →
      e.isValid o = (s.fs.sit (s.fs.field ctx.segIdOff)).isValid o) :
    LpaInv layout ⟨marked s.fs ctx count e,s.returned ++ lpaRange lpa count⟩ := by
  have hfits := ht.fits
  have hseg : (s.fs.field ctx.segIdOff).toNat < 8388608 := lt_trans (h.current ctx).main.2 hN
  have hids (c : LpaArea) : (marked s.fs ctx count e).field c.segIdOff = s.fs.field c.segIdOff := by
    rw [field_marked _ _ _ _ (segIdOff_aligned c).2,if_neg (segIdOff_ne_blkoffOff c ctx)]
  have hkeep (off : Nat) (h4 : 4 ∣ off) (hne : off ≠ ctx.segBlkoffOff) :
      (marked s.fs ctx count e).field off = s.fs.field off := by
    rw [field_marked _ _ _ _ h4,if_neg hne]
  have hsit {x : UInt32} (hx : s.fs.field ctx.segIdOff ≠ x) :
      (marked s.fs ctx count e).sit x = s.fs.sit x := by
    rw [sit_marked,Function.update_of_ne hx.symm]
  have hsum : (s.fs.field ctx.segBlkoffOff + count).toNat =
      (s.fs.field ctx.segBlkoffOff).toNat + count.toNat := by
    rw [UInt32.toNat_add]
    omega
  obtain ⟨l,hchain,hlen,hfree⟩ := h.chain
  refine ⟨?_,?_,⟨l,?_,?_,fun x hx => ?_⟩,fun c => ?_,fun c c' hcc => ?_,?_,fun x hx => ?_⟩
  · exact (hkeep _ (by decide) (by cases ctx <;> decide)).trans h.seg0
  · exact (hkeep _ (by decide) (by cases ctx <;> decide)).trans h.sitArea
  · dsimp only
    rw [hkeep _ (by decide) (by cases ctx <;> decide)]
    refine hchain.congr (fun x hx => ?_)
    unfold segNext
    rw [hsit ((hfree x hx).notCurrent ctx)]
  · dsimp only
    rw [hkeep _ (by decide) (by cases ctx <;> decide)]
    exact hlen
  · obtain ⟨h1,h2,h3,h4⟩ := hfree x hx
    refine ⟨h1,fun c => ?_,?_,fun y hy => ?_⟩
    · dsimp only
      rw [hids]
      exact h2 c
    · dsimp only
      rw [hsit (h2 ctx)]
      exact h3
    · rcases List.mem_append.mp hy with hy | hy
      · exact h4 y hy
      · rw [(ht.mem hseg hy).1]
        exact h2 ctx
  · obtain ⟨h1,h2,h3,h4⟩ := h.current c
    by_cases hc : c = ctx
    · subst hc
      have hoff := (field_marked s.fs c count e (segBlkoffOff_aligned c).2).trans (if_pos rfl)
      refine ⟨?_,?_,?_,?_⟩
      all_goals dsimp only
      all_goals simp only [hids,hoff,hsum]
      · exact h1
      · exact hfits
      · intro o ho hle
        rw [sit_marked,Function.update_self,hmap o hle]
        exact h3 o ho (by omega)
      · intro y hy hdiv
        rcases List.mem_append.mp hy with hy | hy
        · have hlt := h4 y hy hdiv
          omega
        · exact (ht.mem hseg hy).2.2
    · have hoff : (marked s.fs ctx count e).field c.segBlkoffOff = s.fs.field c.segBlkoffOff :=
        hkeep _ (segBlkoffOff_aligned c).2 (fun he => hc (segBlkoffOff_inj.mp he))
      have hother : s.fs.field ctx.segIdOff ≠ s.fs.field c.segIdOff :=
        fun he => hc (h.distinct he).symm
      refine ⟨?_,?_,?_,?_⟩
      all_goals dsimp only
      all_goals simp only [hids,hoff]
      · exact h1
      · exact h2
      · rw [hsit hother]
        exact h3
      · intro y hy hdiv
        rcases List.mem_append.mp hy with hy | hy
        · exact h4 y hy hdiv
        · exact absurd ((ht.mem hseg hy).1.symm.trans hdiv) hother
  · have hcc' : (marked s.fs ctx count e).field c.segIdOff =
        (marked s.fs ctx count e).field c'.segIdOff := hcc
    rw [hids,hids] at hcc'
    exact h.distinct hcc'
  · -- a block handed out before lies below the current offset of its segment
    refine List.Nodup.append h.nodup (lpaRange_nodup ht hseg) (fun x hx hy => ?_)
    obtain ⟨hdiv,hlo,_⟩ := ht.mem hseg hy
    have hlt := (h.current ctx).fresh x hx hdiv
    omega
  · rcases List.mem_append.mp hx with hx | hx
    · exact h.main x hx
    · rw [(ht.mem hseg hx).1]
      exact (h.current ctx).main

theorem allocCount_spec {off requested : UInt32} (hoff : off.toNat < 512) (hr : requested ≠ 0) :
    0 < (if requested < 512 - off then requested else 512 - off).toNat ∧
      off.toNat + (if requested < 512 - off then requested else 512 - off).toNat ≤ 512 ∧
      (if requested < 512 - off then requested else 512 - off).toNat ≤ requested.toNat := by
  have hsub : (512 - off).toNat = 512 - off.toNat := by
    rw [UInt32.toNat_sub_of_le]
    · rfl
    · change off.toNat ≤ 512
      omega
  have hpos : 0 < requested.toNat := Nat.pos_of_ne_zero (fun he => hr (UInt32.toNat_inj.mp he))
  split
  · rename_i hlt
    rw [UInt32.lt_iff_toNat_lt] at hlt
    omega
  · rename_i hge
    rw [UInt32.lt_iff_toNat_lt] at hge
    omega

theorem takeBlocks_marked (h : LpaInv layout s) (ha : layout.Areas)
    (hN : layout.segmentCount.toNat < 8388608) {ctx : LpaArea} {requested : UInt32}
    (hoff : (s.fs.field ctx.segBlkoffOff).toNat < 512) (hr : requested ≠ 0) :
    ∃ lpa count e, takeBlocks s.fs ctx requested = some (lpa,count,marked s.fs ctx count e) ∧
      count = (if requested < 512 - s.fs.field ctx.segBlkoffOff then requested
        else 512 - s.fs.field ctx.segBlkoffOff) ∧
      TakenRange s.fs ctx lpa count ∧ lpa ≠ invalidLpa ∧
      ∀ o, e.isValid o = if (s.fs.field ctx.segBlkoffOff).toNat ≤ o ∧
        o < (s.fs.field ctx.segBlkoffOff).toNat + count.toNat then true
        else (s.fs.sit (s.fs.field ctx.segIdOff)).isValid o := by
  obtain ⟨hpos,hfits,_⟩ := allocCount_spec hoff hr
  have hcur := h.current ctx
  have hseg : (s.fs.field ctx.segIdOff).toNat < 8388608 := lt_trans hcur.main.2 hN
  unfold takeBlocks
  simp only [sitGetFirstLpaOfSegId,h.seg0,UInt32.zero_add]
  generalize (if requested < 512 - s.fs.field ctx.segBlkoffOff then requested
    else 512 - s.fs.field ctx.segBlkoffOff) = count at hpos hfits
  have ht : TakenRange s.fs ctx (s.fs.field ctx.segIdOff * 512 + s.fs.field ctx.segBlkoffOff) count :=
    ⟨rfl,hpos,hfits⟩
  have hto : (s.fs.field ctx.segIdOff * 512 + s.fs.field ctx.segBlkoffOff).toNat =
      512 * (s.fs.field ctx.segIdOff).toNat + (s.fs.field ctx.segBlkoffOff).toNat := by
    have h0 := segLpa_toNat (i := 0) hseg hoff
    rwa [show UInt32.ofNat 0 = 0 from rfl,UInt32.add_zero,Nat.add_zero] at h0
  generalize hlpa : s.fs.field ctx.segIdOff * 512 + s.fs.field ctx.segBlkoffOff = lpa at ht hto
  obtain ⟨hdiv,hmod⟩ := lpa_div hto hoff
  have hne : lpa ≠ invalidLpa := by
    intro hz
    have hz' : lpa.toNat = 0 := by
      rw [hz]
      rfl
    have hm := hcur.main.1
    have hp := ha.mainPos
    omega
  have hcount : count ≠ 0 := by
    rintro rfl
    exact absurd hpos (by decide)
  have hseg0 : ((s.fs.setField ctx.segBlkoffOff (s.fs.field ctx.segBlkoffOff + count)).journalField
      ctx.segBlkoffOff).field segment0BlkaddrOff = 0 := by
    rw [FsMeta.field_journalField,FsMeta.field_setField _ _ (segBlkoffOff_aligned ctx).1
      (segBlkoffOff_aligned ctx).2 (by decide),if_neg (by cases ctx <;> decide)]
    exact h.seg0
  obtain ⟨e,he,_,hmap⟩ := changeSegments_one true
    ((s.fs.setField ctx.segBlkoffOff (s.fs.field ctx.segBlkoffOff + count)).journalField
      ctx.segBlkoffOff) lpa count.toNat hseg0 hpos (by omega) (fun o h1 h2 => by
        rw [hdiv]
        exact hcur.empty o (by omega) (by omega))
  refine ⟨lpa,count,e,?_,rfl,ht,hne,fun o => ?_⟩
  · rw [sitValidateLpaRange,sitChangeLpaStateRange,if_neg (by simp [hne,hcount]),he,hdiv]
    rfl
  · rw [hmap,hmod,hdiv]
    rfl

theorem takeBlocks_spec (h : LpaInv layout s) (ha : layout.Areas)
    (hN : layout.segmentCount.toNat < 8388608) {ctx : LpaArea} {requested : UInt32}
    (hoff : (s.fs.field ctx.segBlkoffOff).toNat < 512) (hr : requested ≠ 0) :
    ∃ lpa count m, takeBlocks s.fs ctx requested = some (lpa,count,m) ∧
      TakenRange s.fs ctx lpa count ∧ count.toNat ≤ requested.toNat ∧ lpa ≠ invalidLpa ∧
      LpaInv layout ⟨m,s.returned ++ lpaRange lpa count⟩ := by
  obtain ⟨lpa,count,e,htake,hcount,ht,hne,hmap⟩ := takeBlocks_marked h ha hN hoff hr
  refine ⟨lpa,count,_,htake,ht,hcount ▸ (allocCount_spec hoff hr).2.2,hne,marked_inv h hN ht (fun o ho => ?_)⟩
  rw [hmap,if_neg (by omega)]

end TakeBlocks

section Alloc
variable {layout : RtfsMkfsLayout} {s : LpaState}

theorem allocLpaRange_cases (h : LpaInv layout s) (ha : layout.Areas)
    (hN : layout.segmentCount.toNat < 8388608) (ctx : LpaArea) (requested : UInt32) :
    superManagerAllocLpaRangeInner s.fs ctx requested = some (invalidLpa,0,s.fs) ∨
    ∃ lpa count m, superManagerAllocLpaRangeInner s.fs ctx requested = some (lpa,count,m) ∧
      lpa ≠ invalidLpa ∧ 0 < count.toNat ∧ count.toNat ≤ requested.toNat ∧
      lpa.toNat % 512 + count.toNat ≤ 512 ∧
      LpaInv layout ⟨m,s.returned ++ lpaRange lpa count⟩ := by
  unfold superManagerAllocLpaRangeInner
  by_cases hr : requested = 0
  · left
    rw [if_pos hr]
  · rw [if_neg hr]
    rcases nextSegment_cases h ha ctx with hfail | ⟨m,hok,hinv,hoff⟩
    · left
      rw [hfail]
    · right
      rw [hok]
      obtain ⟨lpa,count,m',htake,ht,hle,hne,hinv'⟩ := takeBlocks_spec hinv ha hN hoff hr
      have hseg : (m.field ctx.segIdOff).toNat < 8388608 := lt_trans (hinv.current ctx).main.2 hN
      refine ⟨lpa,count,m',htake,hne,ht.pos,hle,?_,hinv'⟩
      have hmod : lpa.toNat % 512 = (m.field ctx.segBlkoffOff).toNat := by
        have h0 := segLpa_toNat (i := 0) hseg hoff
        rw [show UInt32.ofNat 0 = 0 from rfl,UInt32.add_zero,← ht.start] at h0
        omega
      rw [hmod]
      exact ht.fits

theorem invalidate_spec (h : LpaInv layout s) {lpa : UInt32} (hv : lpaValid s.fs lpa) :
    ∃ m, sitInvalidateLpa s.fs lpa = some m ∧ LpaInv layout ⟨m,s.returned⟩ := by
  unfold lpaValid at hv
  rw [h.seg0,UInt32.sub_zero,UInt32.toNat_mod] at hv
  change (s.fs.sit (lpa / 512)).isValid (lpa.toNat % 512) = true at hv
  unfold sitInvalidateLpa sitChangeLpaStateRange
  by_cases hz : lpa = invalidLpa
  · rw [if_pos (Or.inl hz)]
    exact ⟨s.fs,rfl,h⟩
  · rw [if_neg (by simp [hz])]
    obtain ⟨e,he,hnext,hmap⟩ := changeSegments_one false s.fs lpa 1 h.seg0
      Nat.one_pos (by omega) (fun o h1 h2 => by
        obtain rfl : o = lpa.toNat % 512 := by omega
        exact hv)
    refine ⟨_,he,?_⟩
    have hclear : ∀ x o, (s.fs.sit x).isValid o = false →
        (Function.update s.fs.sit (lpa / 512) e x).isValid o = false := by
      intro x o hx
      by_cases hxl : x = lpa / 512
      · subst hxl
        rw [Function.update_self,hmap]
        split
        · rfl
        · exact hx
      · rw [Function.update_of_ne hxl]
        exact hx
    have hsame : ∀ x, (Function.update s.fs.sit (lpa / 512) e x).nextSeg = (s.fs.sit x).nextSeg := by
      intro x
      by_cases hxl : x = lpa / 512
      · subst hxl
        rw [Function.update_self]
        exact hnext
      · rw [Function.update_of_ne hxl]
    obtain ⟨l,hchain,hlen,hfree⟩ := h.chain
    refine ⟨h.seg0,h.sitArea,⟨l,hchain.congr (fun x _ => hsame x),hlen,fun x hx => ?_⟩,fun c => ?_,
      h.distinct,h.nodup,h.main⟩
    · obtain ⟨h1,h2,h3,h4⟩ := hfree x hx
      exact ⟨h1,h2,fun o ho => hclear x o (h3 o ho),h4⟩
    · obtain ⟨h1,h2,h3,h4⟩ := h.current c
      exact ⟨h1,h2,fun o ho hle => hclear _ o (h3 o ho hle),h4⟩

theorem lpaRange_one (lpa : UInt32) {count : UInt32} (h1 : 0 < count.toNat) (h2 : count.toNat ≤ 1) :
    lpaRange lpa count = [lpa] := by
  have hc : count.toNat = 1 := by omega
  unfold lpaRange
  rw [hc]
  simp

theorem lpaStep_inv (ha : layout.Areas) (hN : layout.segmentCount.toNat < 8388608) {s' : LpaState}
    (h : LpaInv layout s) (hs : LpaStep s s') : LpaInv layout s' := by
  have hone (ctx : LpaArea) {lpa : UInt32} {m : FsMeta}
      (hop : (superManagerAllocLpaRangeInner s.fs ctx 1).map (fun r => (r.1,r.2.2)) = some (lpa,m)) :
      LpaInv layout ⟨m,if lpa = invalidLpa then s.returned else s.returned ++ [lpa]⟩ := by
    rcases allocLpaRange_cases h ha hN ctx 1 with hfail | ⟨lpa',count,m',hok,hne,hpos,hle,_,hinv⟩
    · rw [hfail] at hop
      cases hop
      rw [if_pos rfl]
      exact h
    · rw [hok] at hop
      cases hop
      rw [if_neg hne,← lpaRange_one lpa' hpos hle]
      exact hinv
  cases hs with
  | allocNode hop => exact hone .node hop
  | allocData hop => exact hone .data hop
  | @allocDataRange requested lpa count m hop =>
    rcases allocLpaRange_cases h ha hN .data requested with hfail | ⟨lpa',count',m',hok,_,_,_,_,hinv⟩
    · rw [superManagerAllocDataLpaRange,hfail] at hop
      cases hop
      have hnil : lpaRange invalidLpa 0 = [] := rfl
      rw [hnil,List.append_nil]
      exact h
    · rw [superManagerAllocDataLpaRange,hok] at hop
      cases hop
      exact hinv
  | @invalidate lpa m hv hop =>
    obtain ⟨m',hok,hinv⟩ := invalidate_spec h hv
    rw [hop] at hok
    cases hok
    exact hinv

theorem lpaRun_inv (ha : layout.Areas) (hN : layout.segmentCount.toNat < 8388608) {s' : LpaState}
    (h : LpaInv layout s) (hr : Relation.ReflTransGen LpaStep s s') : LpaInv layout s' := by
  induction hr with
  | refl => exact h
  | tail _ hs ih => exact lpaStep_inv ha hN ih hs

end Alloc

section Image
variable {options : RtfsMkfsOptions} {layout : RtfsMkfsLayout} {m : FsMeta}

theorem image_field (h : MkfsImage options layout m) {off : Nat} {v : UInt32} (ha : 4 ∣ off)
    (hv : wordOf off (superWords (effectiveOptions options) layout) = some v) : m.field off = v := by
  rw [FsMeta.field,h.super]
  exact u32At_initialSuper _ _ ha hv

theorem image_sit (h : MkfsImage options layout m) (ha : layout.Areas)
    (hN : layout.segmentCount.toNat ≤ 8388608) {segId : UInt32} (hseg : layout.InMain segId) :
    m.sit segId = if segId = layout.mainStartSegment then
        rtfsMkfsSitSetValid (chainedEntry layout segId.toNat) 0
      else chainedEntry layout segId.toNat := by
  have hc := ha.sitCovers
  have hlt := hseg.2
  rw [h.sits segId (by omega)]
  have he := initialSit_entry hN hseg.2 ha.mainPos hseg.1
  simp only [← UInt32.toNat_inj]
  exact he

theorem chainedEntry_isValid (segId o : Nat) : (chainedEntry layout segId).isValid o = false := by
  unfold chainedEntry
  split
  · exact Bitmap.test_zero o
  · exact Bitmap.test_zero o

theorem chainedEntry_nextSeg (hN : layout.segmentCount.toNat ≤ 8388608) (segId : Nat) :
    (chainedEntry layout segId).nextSeg =
      if segId + 1 < layout.segmentCount.toNat then UInt32.ofNat (segId + 1) else invalidSegid := by
  unfold chainedEntry
  split
  · apply sitSetNextSegment_nextSeg
    rw [UInt32.toNat_ofNat']
    omega
  · decide

theorem image_isValid (h : MkfsImage options layout m) (ha : layout.Areas)
    (hN : layout.segmentCount.toNat ≤ 8388608) {segId : UInt32} (hseg : layout.InMain segId) {o : Nat}
    (ho : segId = layout.mainStartSegment → o ≠ 0) : (m.sit segId).isValid o = false := by
  rw [image_sit h ha hN hseg]
  split
  · rename_i he
    rw [sitSetValid_isValid _ (by decide),chainedEntry_isValid]
    simp [ho he]
  · exact chainedEntry_isValid _ o

def segOrEnd (layout : RtfsMkfsLayout) (i : Nat) : UInt32 :=
  if i < layout.segmentCount.toNat then UInt32.ofNat i else invalidSegid

theorem segOrEnd_toNat {i : Nat} (hi : i < layout.segmentCount.toNat) :
    (segOrEnd layout i).toNat = i := by
  have hlt := layout.segmentCount.toNat_lt
  rw [segOrEnd,if_pos hi,UInt32.toNat_ofNat']
  omega

theorem image_firstFree (h : MkfsImage options layout m) (ha : layout.Areas) :
    m.field firstFreeSegmentIdOff = segOrEnd layout (layout.mainStartSegment.toNat + 2) ∧
      (m.field freeSegmentCountOff).toNat =
        layout.segmentCount.toNat - (layout.mainStartSegment.toNat + 2) := by
  have h1 : m.field firstFreeSegmentIdOff = _ := image_field h (by decide) rfl
  have h2 : m.field freeSegmentCountOff = _ := image_field h (by decide) rfl
  have hms := ha.mainSegments
  have hf := ha.mainFits
  have hlt := layout.segmentCount.toNat_lt
  have h2' : (2 : UInt32).toNat = 2 := rfl
  rw [h1,h2]
  by_cases hmore : 2 < layout.mainSegmentCount
  · have hm : 2 < layout.mainSegmentCount.toNat := hmore
    rw [if_pos hmore,if_pos hmore]
    refine ⟨UInt32.toNat_inj.mp ?_,?_⟩
    · rw [segOrEnd_toNat (by omega),UInt32.toNat_add,h2']
      omega
    · rw [UInt32.toNat_sub_of_le _ _ (UInt32.le_of_lt hmore),h2']
      omega
  · have hm : ¬ 2 < layout.mainSegmentCount.toNat := hmore
    rw [if_neg hmore,if_neg hmore]
    refine ⟨?_,?_⟩
    · rw [segOrEnd,if_neg (by omega)]
    · change 0 = _
      omega

theorem image_freeChain (h : MkfsImage options layout m) (ha : layout.Areas)
    (hN : layout.segmentCount.toNat ≤ 8388608) :
    Threaded (segNext m) invalidSegid (m.field firstFreeSegmentIdOff)
      ((List.range' (layout.mainStartSegment.toNat + 2) (layout.segmentCount.toNat -
        (layout.mainStartSegment.toNat + 2))).map (segOrEnd layout)) := by
  have hf := ha.mainFits
  rw [(image_firstFree h ha).1]
  refine threaded_of_range (segOrEnd layout) (if_neg (lt_irrefl _)) hf ?_ ?_
  · intro i hlo hi hz
    have hto := segOrEnd_toNat hi
    rw [hz] at hto
    have h0 : (invalidSegid : UInt32).toNat = 0 := rfl
    omega
  · intro i hlo hi
    have hto := segOrEnd_toNat hi
    unfold segNext
    rw [image_sit h ha hN ⟨by omega,by omega⟩,if_neg,hto,chainedEntry_nextSeg hN]
    · rfl
    · intro he
      have he' := congrArg UInt32.toNat he
      omega

theorem image_lpaInv (h : MkfsImage options layout m) (ha : layout.Areas)
    (hN : layout.segmentCount.toNat < 8388608) : LpaInv layout ⟨m,[]⟩ := by
  have hf := ha.mainFits
  have hnode : m.field currentNodeSegmentIdOff = layout.mainStartSegment :=
    image_field h (by decide) rfl
  have hnodeOff : m.field currentNodeSegmentBlkoffOff = 1 := image_field h (by decide) rfl
  have hdata : m.field currentDataSegmentIdOff = layout.mainStartSegment + 1 :=
    image_field h (by decide) rfl
  have hdataOff : m.field currentDataSegmentBlkoffOff = 0 := image_field h (by decide) rfl
  have hsucc : (layout.mainStartSegment + 1).toNat = layout.mainStartSegment.toNat + 1 :=
    succ_toNat (n := layout.segmentCount.toNat) (by omega) (by omega)
  have hcount := (image_firstFree h ha).2
  refine ⟨image_field h (by decide) rfl,image_field h (by decide) rfl,
    ⟨(List.range' (layout.mainStartSegment.toNat + 2) (layout.segmentCount.toNat -
      (layout.mainStartSegment.toNat + 2))).map (segOrEnd layout),?_,?_,fun x hx => ?_⟩,
    fun c => ?_,fun c c' hcc => ?_,List.nodup_nil,fun x hx => absurd hx List.not_mem_nil⟩
  · exact image_freeChain h ha hN.le
  · rw [List.length_map,List.length_range']
    exact hcount.symm
  · obtain ⟨i,hi,rfl⟩ := List.mem_map.mp hx
    rw [List.mem_range'_1] at hi
    have hto : (segOrEnd layout i).toNat = i := segOrEnd_toNat (by omega)
    have hmain : layout.InMain (segOrEnd layout i) := ⟨by omega,by omega⟩
    refine ⟨hmain,fun c he => ?_,fun o _ => image_isValid h ha hN.le hmain (fun he => ?_),
      fun y hy => absurd hy List.not_mem_nil⟩
    · have he' := congrArg UInt32.toNat he
      cases c with
      | node =>
        change (m.field currentNodeSegmentIdOff).toNat = _ at he'
        rw [hnode] at he'
        omega
      | data =>
        change (m.field currentDataSegmentIdOff).toNat = _ at he'
        rw [hdata] at he'
        omega
    · have he' := congrArg UInt32.toNat he
      omega
  · cases c with
    | node =>
      have hmain : layout.InMain layout.mainStartSegment := ⟨le_rfl,by omega⟩
      refine ⟨?_,?_,fun o ho hle => ?_,fun y hy => absurd hy List.not_mem_nil⟩
      · change layout.InMain (m.field currentNodeSegmentIdOff)
        rwa [hnode]
      · change (m.field currentNodeSegmentBlkoffOff).toNat ≤ 512
        rw [hnodeOff]
        decide
      · change (m.field currentNodeSegmentBlkoffOff).toNat ≤ o at hle
        rw [hnodeOff] at hle
        change (m.sit (m.field currentNodeSegmentIdOff)).isValid o = false
        rw [hnode]
        exact image_isValid h ha hN.le hmain (fun _ => Nat.ne_of_gt hle)
    | data =>
      have hmain : layout.InMain (layout.mainStartSegment + 1) := ⟨by omega,by omega⟩
      refine ⟨?_,?_,fun o ho hle => ?_,fun y hy => absurd hy List.not_mem_nil⟩
      · change layout.InMain (m.field currentDataSegmentIdOff)
        rwa [hdata]
      · change (m.field currentDataSegmentBlkoffOff).toNat ≤ 512
        rw [hdataOff]
        decide
      · change (m.sit (m.field currentDataSegmentIdOff)).isValid o = false
        rw [hdata]
        refine image_isValid h ha hN.le hmain (fun he => ?_)
        have he' := congrArg UInt32.toNat he
        omega
  · have hne : m.field currentNodeSegmentIdOff ≠ m.field currentDataSegmentIdOff := by
      intro he
      have he' := congrArg UInt32.toNat he
      rw [hnode,hdata] at he'
      omega
    cases c with
    | node =>
      cases c' with
      | node => rfl
      | data => exact absurd hcc hne
    | data =>
      cases c' with
      | node => exact absurd hcc.symm hne
      | data => rfl

end Image

theorem lpa_allocator_safe (options : RtfsMkfsOptions) (layout : RtfsMkfsLayout) (m : FsMeta)
    (h : MkfsImage options layout m) (hN : layout.segmentCount.toNat < 8388608) (s : LpaState)
    (hrun : Relation.ReflTransGen LpaStep ⟨m,[]⟩ s) :
    s.returned.Nodup ∧
    (∀ lpa ∈ s.returned, layout.mainStartLpa.toNat ≤ lpa.toNat ∧ lpa.toNat < layout.blockCount) ∧
    s.fs.field currentNodeSegmentIdOff ≠ s.fs.field currentDataSegmentIdOff ∧
    (∃ l, Threaded (fun segId => (s.fs.sit segId).nextSeg) invalidSegid
        (s.fs.field firstFreeSegmentIdOff) l ∧
      l.Nodup ∧ l.length = (s.fs.field freeSegmentCountOff).toNat ∧
      s.fs.field currentNodeSegmentIdOff ∉ l ∧ s.fs.field currentDataSegmentIdOff ∉ l) ∧
    (∃ lpa m', superManagerAllocNodeLpa s.fs = some (lpa,m') ∧ (lpa = invalidLpa → m' = s.fs)) ∧
    (∃ lpa m', superManagerAllocDataLpa s.fs = some (lpa,m') ∧ (lpa = invalidLpa → m' = s.fs)) ∧
    (∀ requested, ∃ lpa count m',
      superManagerAllocDataLpaRange s.fs requested = some (lpa,count,m') ∧
      (lpa = invalidLpa → m' = s.fs) ∧
      (lpa ≠ invalidLpa → 0 < count.toNat ∧ count.toNat ≤ requested.toNat ∧
        ∀ i < count.toNat, (lpa + UInt32.ofNat i).toNat = lpa.toNat + i ∧
          (lpa + UInt32.ofNat i) / 512 = lpa / 512)) ∧
    ∀ lpa, lpaValid s.fs lpa → ∃ m', sitInvalidateLpa s.fs lpa = some m' := by
  have ha := calculateLayout_areas h.calculated (Or.inr hN)
  have hinv := lpaRun_inv ha hN (image_lpaInv h ha hN) hrun
  have hone (ctx : LpaArea) : ∃ lpa m', (superManagerAllocLpaRangeInner s.fs ctx 1).map
      (fun r => (r.1,r.2.2)) = some (lpa,m') ∧ (lpa = invalidLpa → m' = s.fs) := by
    rcases allocLpaRange_cases hinv ha hN ctx 1 with hfail | ⟨lpa,count,m',hok,hne,_⟩
    · rw [hfail]
      exact ⟨_,_,rfl,fun _ => rfl⟩
    · rw [hok]
      exact ⟨_,_,rfl,fun hz => absurd hz hne⟩
  refine ⟨hinv.nodup,fun lpa hl => ?_,fun he => ?_,?_,hone .node,hone .data,fun requested => ?_,
    fun lpa hv => ?_⟩
  · obtain ⟨h1,h2⟩ := hinv.main lpa hl
    have hdiv : (lpa / 512).toNat = lpa.toNat / 512 := UInt32.toNat_div lpa 512
    have hb := ha.blockCount
    have hf := ha.mainFits
    rw [ha.mainStart,UInt32.toNat_mul]
    change layout.mainStartSegment.toNat * 512 % 4294967296 ≤ _ ∧ _
    omega
  · have hsame : LpaArea.node = LpaArea.data := hinv.distinct he
    cases hsame
  · obtain ⟨l,hchain,hlen,hfree⟩ := hinv.chain
    exact ⟨l,hchain,hchain.nodup,hlen,fun hin => (hfree _ hin).notCurrent .node rfl,
      fun hin => (hfree _ hin).notCurrent .data rfl⟩
  · unfold superManagerAllocDataLpaRange
    rcases allocLpaRange_cases hinv ha hN .data requested with
      hfail | ⟨lpa,count,m',hok,hne,hpos,hle,hfit,_⟩
    · exact ⟨_,_,_,hfail,fun _ => rfl,fun hz => absurd rfl hz⟩
    · refine ⟨lpa,count,m',hok,fun hz => absurd hz hne,fun _ => ⟨hpos,hle,fun i hi => ?_⟩⟩
      have hlt := lpa.toNat_lt
      have hto : (lpa + UInt32.ofNat i).toNat = lpa.toNat + i := by
        rw [UInt32.toNat_add,UInt32.toNat_ofNat']
        omega
      refine ⟨hto,UInt32.toNat_inj.mp ?_⟩
      rw [UInt32.toNat_div,UInt32.toNat_div,hto]
      change (lpa.toNat + i) / 512 = lpa.toNat / 512
      omega
  · obtain ⟨m',hok,_⟩ := invalidate_spec hinv hv
    exact ⟨m',hok⟩

section Small

theorem allocNode_small : ∃ m', superManagerAllocNodeLpa (loadMeta smallDisk) = some (2561,m') := by
  have ha := calculateLayout_areas loadMeta_small.calculated (by decide)
  have hinv := image_lpaInv loadMeta_small ha (by decide)
  have hid : (loadMeta smallDisk).field LpaArea.node.segIdOff = 5 :=
    image_field loadMeta_small (by decide) rfl
  have hoff : (loadMeta smallDisk).field LpaArea.node.segBlkoffOff = 1 :=
    image_field loadMeta_small (by decide) rfl
  have hlt : ((loadMeta smallDisk).field LpaArea.node.segBlkoffOff).toNat < 512 := by
    rw [hoff]
    decide
  obtain ⟨lpa,count,m',htake,ht,_⟩ := takeBlocks_spec hinv ha (by decide) hlt
    (show (1 : UInt32) ≠ 0 by decide)
  have hlpa : lpa = 2561 := by
    have hs := ht.start
    dsimp only at hs
    rw [hid,hoff] at hs
    exact hs
  refine ⟨m',?_⟩
  dsimp only at htake
  unfold superManagerAllocNodeLpa superManagerAllocLpaRangeInner nextSegment
  rw [if_neg (by decide),hoff,if_pos (by decide)]
  simp only
  rw [htake,hlpa]
  rfl

theorem lpa_allocator_safe_small : ∃ s : LpaState,
    Relation.ReflTransGen LpaStep ⟨loadMeta smallDisk,[]⟩ s ∧ s.returned = [2561] ∧
    ∃ l, Threaded (fun segId => (s.fs.sit segId).nextSeg) invalidSegid
        (s.fs.field firstFreeSegmentIdOff) l ∧
      l.Nodup ∧ l.length = (s.fs.field freeSegmentCountOff).toNat ∧
      s.fs.field currentNodeSegmentIdOff ∉ l ∧ s.fs.field currentDataSegmentIdOff ∉ l := by
  obtain ⟨m',hm'⟩ := allocNode_small
  have hstep : LpaStep ⟨loadMeta smallDisk,[]⟩ ⟨m',[2561]⟩ := by
    have ha := LpaStep.allocNode (s := ⟨loadMeta smallDisk,[]⟩) hm'
    rwa [if_neg (by decide)] at ha
  have hrun := Relation.ReflTransGen.single hstep
  exact ⟨_,hrun,rfl,
    (lpa_allocator_safe smallOptions smallLayout _ loadMeta_small (by decide) _ hrun).2.2.2.1⟩

end Small

end Rtfs
