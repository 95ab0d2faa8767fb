import Rtfs.Fs.CowReclaimRegistry
import Rtfs.Fs.LpaAlloc

namespace Rtfs

open RtfsSuperBlock

def FsMeta.entryNum (m : FsMeta) : Nat :=
  m.curJournal.superBlockJournal.length + m.curJournal.natJournal.length + m.curJournal.sitJournal.length

section Entries
variable (m : FsMeta)

@[simp] theorem entryNum_setField (off : Nat) (v : UInt32) : (m.setField off v).entryNum = m.entryNum := rfl

@[simp] theorem entryNum_setSit (segId : UInt32) (e : RtfsSitEntry) :
    (m.setSit segId e).entryNum = m.entryNum := rfl

@[simp] theorem entryNum_journalField (off : Nat) : (m.journalField off).entryNum = m.entryNum + 1 := by
  simp only [FsMeta.entryNum,FsMeta.journalField,JournalContainer.appendSuperBlockJournalEntry,
    List.length_append,List.length_singleton]
  omega

@[simp] theorem entryNum_journalSit (segId : UInt32) : (m.journalSit segId).entryNum = m.entryNum + 1 := by
  simp only [FsMeta.entryNum,FsMeta.journalSit,JournalContainer.appendSitJournalEntry,
    List.length_append,List.length_singleton]
  omega

theorem entryNum_opened (ctx : LpaArea) (segId : UInt32) :
    (openSegment (takenSegment m) ctx segId).entryNum = m.entryNum + 4 := by
  simp [openSegment,takenSegment]

theorem entryNum_marked (ctx : LpaArea) (count : UInt32) (e : RtfsSitEntry) :
    (marked m ctx count e).entryNum = m.entryNum + 2 := by
  simp [marked]

end Entries

structure Held (layout : RtfsMkfsLayout) (m : FsMeta) (lpas : List UInt32) : Prop where
  inv : LpaInv layout ⟨m,lpas⟩
  valid : ∀ lpa ∈ lpas, lpaBit m lpa = true

section Whole
variable {layout : RtfsMkfsLayout} {m : FsMeta} {lpas : List UInt32} {ctx : LpaArea}

theorem start_segment (h : Held layout m lpas) (ha : layout.Areas)
    (hready : m.field ctx.segBlkoffOff = 0 ∨
      m.field ctx.segBlkoffOff = 512 ∧ m.field freeSegmentCountOff ≠ 0) :
    ∃ m', nextSegment m ctx = some (true,m') ∧ Held layout m' lpas ∧ m'.field ctx.segBlkoffOff = 0 ∧
      (m.field freeSegmentCountOff).toNat ≤ (m'.field freeSegmentCountOff).toNat + 1 ∧
      m.entryNum ≤ m'.entryNum ∧ m'.entryNum ≤ m.entryNum + 4 := by
  rcases hready with hzero | ⟨hfull,hfree⟩
  · refine ⟨m,?_,h,hzero,Nat.le_succ _,le_rfl,Nat.le_add_right _ _⟩
    rw [nextSegment,hzero]
    rfl
  · obtain ⟨segId,hnext,hinv⟩ := nextSegment_opens h.inv ha (show ¬ m.field ctx.segBlkoffOff < 512 by
      rw [hfull]
      decide) hfree
    have hcount : (openSegment (takenSegment m) ctx segId).field freeSegmentCountOff =
        m.field freeSegmentCountOff - 1 := by
      rw [field_openSegment _ _ _ (by decide),if_neg (by cases ctx <;> decide),
        if_neg (by cases ctx <;> decide),field_takenSegment _ (by decide),if_pos rfl]
    have hpos : 0 < (m.field freeSegmentCountOff).toNat :=
      Nat.pos_of_ne_zero (fun he => hfree (UInt32.toNat_inj.mp he))
    refine ⟨_,hnext,⟨hinv,h.valid⟩,?_,?_,?_⟩
    · rw [field_openSegment _ _ _ (segBlkoffOff_aligned ctx).2,if_pos rfl]
    · have hone : (1 : UInt32) ≤ m.field freeSegmentCountOff := UInt32.le_iff_toNat_le.mpr hpos
      rw [hcount,UInt32.toNat_sub_of_le _ _ hone]
      exact Nat.le_add_of_sub_le le_rfl
    · rw [entryNum_opened]
      exact ⟨Nat.le_add_right _ _,le_rfl⟩

theorem take_segment (h : Held layout m lpas) (ha : layout.Areas)
    (hN : layout.segmentCount.toNat < 8388608) (hzero : m.field ctx.segBlkoffOff = 0) :
    ∃ lpa m', takeBlocks m ctx 512 = some (lpa,512,m') ∧ Held layout m' (lpas ++ lpaRange lpa 512) ∧
      m'.field ctx.segBlkoffOff = 512 ∧ m'.field freeSegmentCountOff = m.field freeSegmentCountOff ∧
      m'.entryNum = m.entryNum + 2 := by
  obtain ⟨lpa,count,e,htake,hcount,ht,_,hmap⟩ := takeBlocks_marked h.inv ha hN
    (show (m.field ctx.segBlkoffOff).toNat < 512 by rw [hzero]; decide) (show (512 : UInt32) ≠ 0 by decide)
  have hall : count = 512 := by
    rw [hcount]
    simp only [hzero]
    decide
  subst hall
  have hseg : (m.field ctx.segIdOff).toNat < 8388608 := lt_trans (h.inv.current ctx).main.2 hN
  have hinv := marked_inv h.inv hN ht (fun o ho => by rw [hmap,if_neg (by omega)])
  refine ⟨lpa,_,htake,⟨hinv,fun x hx => ?_⟩,?_,?_,entryNum_marked m ctx 512 e⟩
  · rw [lpaBit,sit_marked]
    rcases List.mem_append.mp hx with hx | hx
    · by_cases hs : x / 512 = m.field ctx.segIdOff
      · rw [hs,Function.update_self,hmap,← hs]
        split
        · rfl
        · exact h.valid x hx
      · rw [Function.update_of_ne hs]
        exact h.valid x hx
    · obtain ⟨hdiv,h1,h2⟩ := ht.mem hseg hx
      rw [hdiv,Function.update_self,hmap,if_pos ⟨h1,h2⟩]
  · rw [field_marked _ _ _ _ (segBlkoffOff_aligned ctx).2,if_pos rfl,hzero]
    rfl
  · rw [field_marked _ _ _ _ (by decide),if_neg (by cases ctx <;> decide)]

theorem alloc_segment (h : Held layout m lpas) (ha : layout.Areas)
    (hN : layout.segmentCount.toNat < 8388608) (hready : m.field ctx.segBlkoffOff = 0 ∨
      m.field ctx.segBlkoffOff = 512 ∧ m.field freeSegmentCountOff ≠ 0) :
    ∃ lpa m', superManagerAllocLpaRangeInner m ctx 512 = some (lpa,512,m') ∧
      Held layout m' (lpas ++ lpaRange lpa 512) ∧ m'.field ctx.segBlkoffOff = 512 ∧
      (m.field freeSegmentCountOff).toNat ≤ (m'.field freeSegmentCountOff).toNat + 1 ∧
      m.entryNum < m'.entryNum ∧ m'.entryNum ≤ m.entryNum + 6 := by
  obtain ⟨m₁,hnext,h₁,hzero,hfree₁,hlow₁,hent₁⟩ := start_segment h ha hready
  obtain ⟨lpa,m₂,htake,h₂,hfull,hfree₂,hent₂⟩ := take_segment h₁ ha hN hzero
  refine ⟨lpa,m₂,?_,h₂,hfull,by rw [hfree₂]; exact hfree₁,by omega,by omega⟩
  rw [superManagerAllocLpaRangeInner,if_neg (by decide),hnext]
  exact htake

end Whole

section Invalidate
variable {m m' : FsMeta}

theorem invalidate_journal {lpa : UInt32} (h : sitInvalidateLpa m lpa = some m') :
    ∃ es, m'.curJournal = { m.curJournal with sitJournal := m.curJournal.sitJournal ++ es } ∧
      es.length = if lpa = invalidLpa then 0 else 1 := by
  unfold sitInvalidateLpa sitChangeLpaStateRange at h
  by_cases hz : lpa = invalidLpa
  · rw [if_pos (.inl hz)] at h
    cases h
    exact ⟨[],by rw [List.append_nil],(if_pos hz).symm⟩
  · have hoff := Nat.mod_lt (lpa - m.field segment0BlkaddrOff).toNat (show 0 < 512 by decide)
    have hto : ((lpa - m.field segment0BlkaddrOff) % 512).toNat =
        (lpa - m.field segment0BlkaddrOff).toNat % 512 := UInt32.toNat_mod _ _
    rw [if_neg (by simp [hz]),changeSegments,if_neg (by decide)] at h
    simp only at h
    split at h
    · cases h
    · rename_i e _
      have hone : (1 : UInt32).toNat - min (512 - ((lpa - m.field segment0BlkaddrOff) % 512).toNat)
          (1 : UInt32).toNat = 0 := by
        change 1 - min _ 1 = 0
        omega
      rw [hone,changeSegments,if_pos rfl] at h
      cases h
      exact ⟨[_],rfl,(if_neg hz).symm⟩

-- entries are not merged: every block given back appends one of its own
theorem invalidateAll_journal {lpas : List UInt32} (h : sitInvalidateLpas m lpas = some m') :
    ∃ es, m'.curJournal = { m.curJournal with sitJournal := m.curJournal.sitJournal ++ es } ∧
      es.length = (lpas.filter (· ≠ invalidLpa)).length := by
  induction lpas generalizing m with
  | nil =>
    cases h
    exact ⟨[],by rw [List.append_nil],rfl⟩
  | cons lpa lpas ih =>
    rw [sitInvalidateLpas,List.foldlM_cons] at h
    obtain ⟨m₁,h₁,h₂⟩ := Option.bind_eq_some_iff.mp h
    obtain ⟨es₁,hj₁,hl₁⟩ := invalidate_journal h₁
    obtain ⟨es₂,hj₂,hl₂⟩ := ih h₂
    refine ⟨es₁ ++ es₂,by rw [hj₂,hj₁,List.append_assoc],?_⟩
    rw [List.length_append,hl₁,hl₂,List.filter_cons]
    by_cases hz : lpa = invalidLpa
    · simp [hz]
    · simp [hz]
      omega

end Invalidate

end Rtfs
