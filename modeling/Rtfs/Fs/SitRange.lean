import Rtfs.Fs.SuperManager

namespace Rtfs

open RtfsSuperBlock

namespace RtfsSitEntry

theorem changeBit_nextSeg (valid : Bool) (e : RtfsSitEntry) (off : Nat) :
    (e.changeBit valid off).nextSeg = e.nextSeg := by
  cases valid with
  | true => exact nextSeg_congr e.incVblocks_div
  | false => exact nextSeg_congr e.decVblocks_div

theorem changeBit_isValid (valid : Bool) (e : RtfsSitEntry) {off : Nat} (h : off < 512) (o : Nat) :
    (e.changeBit valid off).isValid o = if o = off then valid else e.isValid o := by
  cases valid with
  | true =>
    have ht : (e.changeBit true off).isValid o = (decide (o = off) || e.isValid o) :=
      Bitmap.test_set e.validMap (by omega) o
    rw [ht]
    by_cases ho : o = off
    · simp [ho]
    · simp [ho]
  | false =>
    have ht : (e.changeBit false off).isValid o = (decide (o ≠ off) && e.isValid o) :=
      Bitmap.test_clear e.validMap (by omega) o
    rw [ht]
    by_cases ho : o = off
    · simp [ho]
    · simp [ho]

theorem changeBits_spec (valid : Bool) (e : RtfsSitEntry) {off n : Nat} (hn : off + n ≤ 512)
    (h : ∀ o, off ≤ o → o < off + n → e.isValid o = !valid) :
    ∃ e', e.changeBits valid off n = some e' ∧ e'.nextSeg = e.nextSeg ∧
      ∀ o, e'.isValid o = if off ≤ o ∧ o < off + n then valid else e.isValid o := by
  induction n generalizing e off with
  | zero => exact ⟨e,rfl,rfl,fun o => (if_neg (by omega)).symm⟩
  | succ n ih =>
    have hbit : ¬ e.isValid off = valid := by
      rw [h off le_rfl (by omega)]
      cases valid <;> decide
    have hafter : ∀ o, off + 1 ≤ o → o < off + 1 + n → (e.changeBit valid off).isValid o = !valid := by
      intro o h1 h2
      rw [changeBit_isValid valid e (by omega),if_neg (by omega)]
      exact h o (by omega) (by omega)
    obtain ⟨e',he',hnext,hmap⟩ := ih (e.changeBit valid off) (by omega) hafter
    refine ⟨e',?_,hnext.trans (e.changeBit_nextSeg valid off),fun o => ?_⟩
    · rw [changeBits,if_neg hbit,he']
    · rw [hmap,changeBit_isValid valid e (by omega)]
      by_cases ho : o = off
      · rw [if_neg (by omega),if_pos ho,if_pos (by omega)]
      · rw [if_neg ho]
        by_cases hin : off + 1 ≤ o ∧ o < off + 1 + n
        · rw [if_pos hin,if_pos (by omega)]
        · rw [if_neg hin,if_neg (by omega)]

end RtfsSitEntry

theorem changeSegments_one (valid : Bool) (m : FsMeta) (lpa : UInt32) (count : Nat)
    (h0 : m.field segment0BlkaddrOff = 0) (hpos : 0 < count) (hfit : lpa.toNat % 512 + count ≤ 512)
    (hbits : ∀ o, lpa.toNat % 512 ≤ o → o < lpa.toNat % 512 + count →
      (m.sit (lpa / 512)).isValid o = !valid) :
    ∃ e, changeSegments valid m lpa count =
        some ((m.setSit (lpa / 512) e).journalSit (lpa / 512)) ∧
      e.nextSeg = (m.sit (lpa / 512)).nextSeg ∧
      ∀ o, e.isValid o = if lpa.toNat % 512 ≤ o ∧ o < lpa.toNat % 512 + count then valid
        else (m.sit (lpa / 512)).isValid o := by
  have hoff : (lpa % 512).toNat = lpa.toNat % 512 := UInt32.toNat_mod lpa 512
  have hmin : min (512 - lpa.toNat % 512) count = count := by omega
  obtain ⟨e,he,hnext,hmap⟩ := (m.sit (lpa / 512)).changeBits_spec valid hfit hbits
  refine ⟨e,?_,hnext,hmap⟩
  rw [changeSegments,if_neg (by omega)]
  simp only [h0,UInt32.sub_zero,hoff,hmin]
  rw [he]
  simp only [Nat.sub_self]
  rw [changeSegments,if_pos rfl]

end Rtfs
