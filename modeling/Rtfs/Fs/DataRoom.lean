import Rtfs.Fs.CowReclaimRegistry
import Rtfs.Fs.LpaAlloc

namespace Rtfs

open RtfsSuperBlock

def dataRoom (m : FsMeta) : Nat :=
  512 - (m.field LpaArea.data.segBlkoffOff).toNat + 512 * (m.field freeSegmentCountOff).toNat

section Range
variable {m : FsMeta} {ctx : LpaArea} {lpa count x : UInt32}

theorem TakenRange.mem_iff (h : TakenRange m ctx lpa count)
    (hseg : (m.field ctx.segIdOff).toNat < 8388608) : x ∈ lpaRange lpa count ↔
      x / 512 = m.field ctx.segIdOff ∧ (m.field ctx.segBlkoffOff).toNat ≤ x.toNat % 512 ∧
        x.toNat % 512 < (m.field ctx.segBlkoffOff).toNat + count.toNat := by
  constructor
  · exact h.mem hseg
  · rintro ⟨hdiv,hlo,hhi⟩
    have hfits := h.fits
    have hto : (x / 512).toNat = x.toNat / 512 := UInt32.toNat_div x 512
    rw [hdiv] at hto
    refine List.mem_map.mpr ⟨x.toNat % 512 - (m.field ctx.segBlkoffOff).toNat,?_,?_⟩
    · rw [List.mem_range]
      omega
    · apply UInt32.toNat_inj.mp
      rw [h.start,segLpa_toNat hseg (by omega)]
      omega

end Range

section Room
variable {layout : RtfsMkfsLayout} {m : FsMeta} {lpas : List UInt32} {requested : UInt32}

structure DataAlloc (layout : RtfsMkfsLayout) (lpas : List UInt32) (m m' : FsMeta)
    (got : List UInt32) : Prop where
  inv : LpaInv layout ⟨m',lpas ++ got⟩
  room : dataRoom m' + got.length = dataRoom m
  fresh : ∀ x ∈ got, lpaBit m x = false
  bits : ∀ x, lpaBit m' x = if x ∈ got then true else lpaBit m x

theorem takeBlocks_room (h : LpaInv layout ⟨m,lpas⟩) (ha : layout.Areas)
    (hN : layout.segmentCount.toNat < 8388608)
    (hoff : (m.field LpaArea.data.segBlkoffOff).toNat < 512) (hr : requested ≠ 0) :
    ∃ lpa count m', takeBlocks m .data requested = some (lpa,count,m') ∧ lpa ≠ invalidLpa ∧
      0 < count.toNat ∧ count.toNat ≤ requested.toNat ∧
      DataAlloc layout lpas m m' (lpaRange lpa count) := by
  obtain ⟨lpa,count,e,htake,hcount,ht,hne,hmap⟩ := takeBlocks_marked h ha hN hoff hr
  have hseg : (m.field LpaArea.data.segIdOff).toNat < 8388608 := lt_trans (h.current .data).main.2 hN
  have hfits := ht.fits
  refine ⟨lpa,count,_,htake,hne,ht.pos,hcount ▸ (allocCount_spec hoff hr).2.2,
    marked_inv h hN ht (fun o ho => by rw [hmap,if_neg (by omega)]),?_,fun x hx => ?_,fun x => ?_⟩
  · have h1 : (marked m .data count e).field LpaArea.data.segBlkoffOff =
        m.field LpaArea.data.segBlkoffOff + count := by
      rw [field_marked _ _ _ _ (by decide),if_pos rfl]
    have h2 : (marked m .data count e).field freeSegmentCountOff = m.field freeSegmentCountOff := by
      rw [field_marked _ _ _ _ (by decide),if_neg (by decide)]
    unfold dataRoom
    rw [h1,h2,UInt32.toNat_add,lpaRange,List.length_map,List.length_range]
    change 512 - ((m.field LpaArea.data.segBlkoffOff).toNat + count.toNat) % 4294967296 + _ + _ = _
    have hf : (m.field LpaArea.data.segBlkoffOff).toNat + count.toNat ≤ 512 := hfits
    omega
  · obtain ⟨hdiv,hlo,hhi⟩ := (ht.mem_iff hseg).mp hx
    rw [lpaBit,hdiv]
    exact (h.current .data).empty _ (by omega) hlo
  · rw [lpaBit,sit_marked]
    by_cases hs : x / 512 = m.field LpaArea.data.segIdOff
    · rw [hs,Function.update_self,hmap,lpaBit,hs]
      by_cases hin : (m.field LpaArea.data.segBlkoffOff).toNat ≤ x.toNat % 512 ∧
          x.toNat % 512 < (m.field LpaArea.data.segBlkoffOff).toNat + count.toNat
      · rw [if_pos hin,if_pos ((ht.mem_iff hseg).mpr ⟨hs,hin⟩)]
      · rw [if_neg hin,if_neg (fun hx => hin ((ht.mem_iff hseg).mp hx).2)]
    · rw [Function.update_of_ne hs,if_neg (fun hx => hs ((ht.mem_iff hseg).mp hx).1)]
      rfl

theorem allocDataLpaRange_room (h : LpaInv layout ⟨m,lpas⟩) (ha : layout.Areas)
    (hN : layout.segmentCount.toNat < 8388608) (hr : requested ≠ 0) :
    dataRoom m = 0 ∧ superManagerAllocDataLpaRange m requested = some (invalidLpa,0,m) ∨
    ∃ lpa count m', superManagerAllocDataLpaRange m requested = some (lpa,count,m') ∧
      lpa ≠ invalidLpa ∧ 0 < count.toNat ∧ count.toNat ≤ requested.toNat ∧
      DataAlloc layout lpas m m' (lpaRange lpa count) := by
  unfold superManagerAllocDataLpaRange superManagerAllocLpaRangeInner
  rw [if_neg hr]
  by_cases hoff : m.field LpaArea.data.segBlkoffOff < 512
  · right
    have hnext : nextSegment m .data = some (true,m) := if_pos hoff
    rw [hnext]
    exact takeBlocks_room h ha hN hoff hr
  · have hoff' : ¬ (m.field LpaArea.data.segBlkoffOff).toNat < 512 := hoff
    by_cases hfree : m.field freeSegmentCountOff = 0
    · left
      have hnext : nextSegment m .data = some (false,m) := by
        rw [nextSegment,if_neg hoff,superManagerAllocSegment,if_pos hfree]
        rfl
      refine ⟨?_,by rw [hnext]⟩
      rw [dataRoom,hfree]
      change 512 - _ + 512 * 0 = 0
      omega
    · right
      obtain ⟨segId,hnext,hinv⟩ := @nextSegment_opens layout ⟨m,lpas⟩ h ha .data hoff hfree
      have hzero : (openSegment (takenSegment m) .data segId).field LpaArea.data.segBlkoffOff = 0 := by
        rw [field_openSegment _ _ _ (by decide),if_pos rfl]
      have hcount : (openSegment (takenSegment m) .data segId).field freeSegmentCountOff =
          m.field freeSegmentCountOff - 1 := by
        rw [field_openSegment _ _ _ (by decide),if_neg (by decide),if_neg (by decide),
          field_takenSegment _ (by decide),if_pos rfl]
      have hpos : 0 < (m.field freeSegmentCountOff).toNat :=
        Nat.pos_of_ne_zero (fun he => hfree (UInt32.toNat_inj.mp he))
      have hone : (1 : UInt32) ≤ m.field freeSegmentCountOff := UInt32.le_iff_toNat_le.mpr hpos
      have hroom : dataRoom (openSegment (takenSegment m) .data segId) = dataRoom m := by
        rw [dataRoom,hzero,hcount,UInt32.toNat_sub_of_le _ _ hone,dataRoom]
        change 512 - 0 + 512 * ((m.field freeSegmentCountOff).toNat - 1) = _
        omega
      rw [hnext]
      obtain ⟨lpa,count,m',htake,hne,hlo,hhi,hinv',hr',hfresh,hbits⟩ :=
        takeBlocks_room hinv ha hN (by rw [hzero]; decide) hr
      exact ⟨lpa,count,m',htake,hne,hlo,hhi,hinv',hr'.trans hroom,hfresh,hbits⟩

theorem DataAlloc.refl (h : LpaInv layout ⟨m,lpas⟩) : DataAlloc layout lpas m m [] := by
  refine ⟨by rwa [List.append_nil],rfl,fun x hx => absurd hx List.not_mem_nil,fun x => ?_⟩
  rw [if_neg List.not_mem_nil]

theorem DataAlloc.trans {m₁ m₂ : FsMeta} {got got' : List UInt32} (h : DataAlloc layout lpas m m₁ got)
    (h' : DataAlloc layout (lpas ++ got) m₁ m₂ got') : DataAlloc layout lpas m m₂ (got ++ got') := by
  refine ⟨List.append_assoc lpas got got' ▸ h'.inv,?_,fun x hx => ?_,fun x => ?_⟩
  · rw [List.length_append,← h.room,← h'.room]
    omega
  · rcases List.mem_append.mp hx with hx | hx
    · exact h.fresh x hx
    · have hclear := h'.fresh x hx
      rw [h.bits] at hclear
      split at hclear
      · cases hclear
      · exact hclear
  · rw [h'.bits,h.bits]
    by_cases hx : x ∈ got
    · simp [hx]
    · simp [hx]

theorem LpaInv.ne_invalid {s : LpaState} (h : LpaInv layout s) (ha : layout.Areas) :
    ∀ x ∈ s.returned, x ≠ invalidLpa := by
  rintro x hx rfl
  have hmain := (h.main invalidLpa hx).1
  have hpos := ha.mainPos
  change layout.mainStartSegment.toNat ≤ 0 at hmain
  omega

theorem DataAlloc.undone {m' : FsMeta} {got : List UInt32} (h : DataAlloc layout [] m m' got)
    (ha : layout.Areas) : ∃ m'', sitInvalidateLpas m' got = some m'' ∧
      ∀ x, lpaBit m'' x = lpaBit m x := by
  have h0 : m'.field segment0BlkaddrOff = 0 := h.inv.seg0
  have hnd : got.Nodup := h.inv.nodup
  have hne : ∀ x ∈ got, x ≠ invalidLpa := h.inv.ne_invalid ha
  obtain ⟨m'',hok,_,hbits⟩ := invalidateAll_ok h0 hnd hne (fun x hx => by rw [h.bits,if_pos hx])
  refine ⟨m'',hok,fun x => ?_⟩
  rw [hbits]
  split
  · rename_i hx
    exact (h.fresh x hx).symm
  · rename_i hx
    rw [h.bits,if_neg hx]

end Room

end Rtfs
