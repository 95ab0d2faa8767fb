import Rtfs.Lib.ByteBuf

namespace Bitmap

def mask (i : Nat) : UInt8 := 1 <<< UInt8.ofNat i

variable {n : Nat}

def test (b : Buf n) (off : Nat) : Bool := b.get (off / 8) &&& mask (off % 8) ≠ 0

def modify (b : Buf n) (k : Nat) (f : UInt8 → UInt8) : Buf n := fun i => bif i.val.beq k then f (b i) else b i

def set (b : Buf n) (off : Nat) : Buf n := modify b (off / 8) (· ||| mask (off % 8))

def clear (b : Buf n) (off : Nat) : Buf n := modify b (off / 8) (· &&& ~~~ mask (off % 8))

theorem mask_toBitVec {i : Nat} (hi : i < 8) : (mask i).toBitVec = BitVec.twoPow 8 i := by
  interval_cases i <;> rfl

theorem and_mask_ne_zero (x : UInt8) {i : Nat} (hi : i < 8) :
    decide (x &&& mask i ≠ 0) = x.toBitVec.getLsbD i := by
  have hb : x &&& mask i = 0 ↔ x.toBitVec &&& BitVec.twoPow 8 i = 0#8 := by
    rw [← mask_toBitVec hi,← UInt8.toBitVec_and]
    exact UInt8.toBitVec_inj.symm
  have hne : BitVec.twoPow 8 i ≠ 0#8 := by
    interval_cases i <;> decide
  rw [Bool.eq_iff_iff,decide_eq_true_iff,ne_eq,hb,BitVec.and_twoPow]
  cases x.toBitVec.getLsbD i with
  | true => simpa using hne
  | false => simp

theorem test_eq (b : Buf n) (off : Nat) :
    test b off = (b.get (off / 8)).toBitVec.getLsbD (off % 8) :=
  and_mask_ne_zero _ (Nat.mod_lt _ (by decide))

@[simp] theorem test_zero (off : Nat) : test (Buf.zero : Buf n) off = false := by
  simp [test]

theorem get_modify (b : Buf n) {k : Nat} (hk : k < n) (f : UInt8 → UInt8) (i : Nat) :
    (modify b k f).get i = if i = k then f (b.get i) else b.get i := by
  unfold modify Buf.get
  by_cases hi : i < n
  · simp only [dif_pos hi,Nat.beq_eq,cond_eq_ite]
  · rw [dif_neg hi,if_neg (by omega),dif_neg hi]

theorem test_modify (b : Buf n) {off : Nat} (hoff : off / 8 < n) (f : UInt8 → UInt8) (o : Nat) :
    test (modify b (off / 8) f) o =
      if o / 8 = off / 8 then (f (b.get (o / 8))).toBitVec.getLsbD (o % 8) else test b o := by
  rw [test_eq,get_modify b hoff]
  split
  · rfl
  · rw [test_eq]

theorem test_set (b : Buf n) {off : Nat} (hoff : off / 8 < n) (o : Nat) :
    test (set b off) o = (decide (o = off) || test b o) := by
  rw [set,test_modify b hoff]
  split
  · rename_i hdiv
    rw [UInt8.toBitVec_or,BitVec.getLsbD_or,mask_toBitVec (Nat.mod_lt _ (by decide)),
      BitVec.getLsbD_twoPow,test_eq,Bool.or_comm]
    congr 1
    have hlt := Nat.mod_lt off (show 0 < 8 by decide)
    simp only [hlt,decide_true,Bool.true_and,decide_eq_decide]
    omega
  · rename_i hdiv
    have hne : o ≠ off := by
      rintro rfl
      exact hdiv rfl
    simp [hne]

theorem test_clear (b : Buf n) {off : Nat} (hoff : off / 8 < n) (o : Nat) :
    test (clear b off) o = (decide (o ≠ off) && test b o) := by
  rw [clear,test_modify b hoff]
  split
  · rename_i hdiv
    have hlt := Nat.mod_lt off (show 0 < 8 by decide)
    have hlt' := Nat.mod_lt o (show 0 < 8 by decide)
    rw [UInt8.toBitVec_and,UInt8.toBitVec_not,BitVec.getLsbD_and,BitVec.getLsbD_not,
      mask_toBitVec hlt,BitVec.getLsbD_twoPow,test_eq,Bool.and_comm]
    congr 1
    simp only [hlt,hlt',decide_true,Bool.true_and,← decide_not,decide_eq_decide]
    omega
  · rename_i hdiv
    have hne : o ≠ off := by
      rintro rfl
      exact hdiv rfl
    simp [hne]

end Bitmap
