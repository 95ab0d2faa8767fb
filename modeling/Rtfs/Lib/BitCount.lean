import Rtfs.Lib.Bitmap
import Mathlib.Data.Finset.Card

namespace Bitmap

variable {n : Nat}

def support (b : Buf n) : Finset Nat := (Finset.range (8 * n)).filter (fun o => test b o = true)

def count (b : Buf n) : Nat := (support b).card

theorem mem_support (b : Buf n) (o : Nat) : o ∈ support b ↔ o < 8 * n ∧ test b o = true := by
  simp [support]

theorem count_le (b : Buf n) : count b ≤ 8 * n := by
  simpa [count,support] using Finset.card_filter_le (Finset.range (8 * n)) (fun o => test b o = true)

@[simp] theorem count_zero : count (Buf.zero : Buf n) = 0 := by
  simp [count,support]

theorem count_set (b : Buf n) {off : Nat} (hoff : off / 8 < n) (hclear : test b off = false) :
    count (set b off) = count b + 1 := by
  have hins : support (set b off) = insert off (support b) := by
    ext o
    rw [mem_support,Finset.mem_insert,mem_support,test_set b hoff,Bool.or_eq_true,decide_eq_true_iff]
    constructor
    · rintro ⟨hlt,rfl | ht⟩
      · exact .inl rfl
      · exact .inr ⟨hlt,ht⟩
    · rintro (rfl | ⟨hlt,ht⟩)
      · exact ⟨by omega,.inl rfl⟩
      · exact ⟨hlt,.inr ht⟩
  rw [count,hins,Finset.card_insert_of_notMem]
  · rfl
  · simp [mem_support,hclear]

theorem count_clear (b : Buf n) {off : Nat} (hoff : off / 8 < n) (hset : test b off = true) :
    count (clear b off) + 1 = count b := by
  have her : support (clear b off) = (support b).erase off := by
    ext o
    rw [mem_support,Finset.mem_erase,mem_support,test_clear b hoff,Bool.and_eq_true,decide_eq_true_iff]
    tauto
  rw [count,her,Finset.card_erase_add_one]
  · rfl
  · exact (mem_support b off).mpr ⟨by omega,hset⟩

end Bitmap
