import Rtfs.Fs.Types

namespace Rtfs

structure ReclaimRecord where
  dataLpas : List UInt32
  nodeLpas : List UInt32
  deriving DecidableEq

structure CommDev where
  blockCount : Nat
  blockCount_le : blockCount ≤ 4294967296
  blocks : Nat → Block
  metaJournalStartLpa : Nat
  metaJournalEndLpa : Nat
  metaJournalHeadLpa : Nat
  metaJournalTailLpa : Nat
  recoveredReclaim : List ReclaimRecord

def lbaPerLpa : Nat := 8

namespace CommDev
variable (d : CommDev)

def withBlocks (f : Nat → Block) : CommDev := { d with blocks := f }

def readLba (lba : Nat) : Except Errno Block :=
  if d.blockCount ≤ lba ∨ d.blockCount < lba + lbaPerLpa then .error .einval
  else .ok (d.blocks (lba / lbaPerLpa))

def writeLba (lba : Nat) (b : Block) : Except Errno CommDev :=
  if d.blockCount ≤ lba ∨ d.blockCount < lba + lbaPerLpa then .error .einval
  else .ok (d.withBlocks (Function.update d.blocks (lba / lbaPerLpa) b))

def Holds (lpa : Nat) : Prop := lpa * lbaPerLpa + lbaPerLpa ≤ d.blockCount

instance (lpa : Nat) : Decidable (d.Holds lpa) := Nat.decLe _ _

variable {d}

@[simp] theorem withBlocks_blocks (f : Nat → Block) : (d.withBlocks f).blocks = f := rfl

@[simp] theorem withBlocks_holds (f : Nat → Block) (lpa : Nat) :
    (d.withBlocks f).Holds lpa ↔ d.Holds lpa := Iff.rfl

theorem Holds.lt {lpa : Nat} (h : d.Holds lpa) : lpa < 536870912 := by
  have hle := d.blockCount_le
  unfold Holds lbaPerLpa at h
  omega

theorem writeLba_ok {lpa : Nat} (h : d.Holds lpa) (b : Block) :
    d.writeLba (lpa * lbaPerLpa) b = .ok (d.withBlocks (Function.update d.blocks lpa b)) := by
  unfold Holds at h
  rw [writeLba,if_neg,lbaPerLpa,Nat.mul_div_cancel _ (by decide)]
  unfold lbaPerLpa at h ⊢
  omega

end CommDev

def lpaToLba (lpa : UInt32) : Nat := (lpa * 8).toNat

def commRecoveryReadLpa (d : CommDev) (lpa : UInt32) : Except Errno Block :=
  d.readLba (lpaToLba lpa)

def commRecoveryWriteLpa (d : CommDev) (lpa : UInt32) (b : Block) : Except Errno CommDev :=
  d.writeLba (lpaToLba lpa) b

theorem lpaToLba_eq {lpa : UInt32} (h : lpa.toNat < 536870912) :
    lpaToLba lpa = lpa.toNat * lbaPerLpa := by
  have h8 : (8 : UInt32).toNat = 8 := rfl
  rw [lpaToLba,UInt32.toNat_mul,h8,Nat.mod_eq_of_lt (by omega)]
  rfl

theorem readLpa_ok {d : CommDev} {lpa : UInt32} (h : d.Holds lpa.toNat) :
    commRecoveryReadLpa d lpa = .ok (d.blocks lpa.toNat) := by
  rw [commRecoveryReadLpa,CommDev.readLba,lpaToLba_eq h.lt,if_neg,lbaPerLpa,
    Nat.mul_div_cancel _ (by decide)]
  unfold CommDev.Holds lbaPerLpa at *
  omega

theorem writeLpa_ok {d : CommDev} {lpa : UInt32} (h : d.Holds lpa.toNat) (b : Block) :
    commRecoveryWriteLpa d lpa b =
      .ok (d.withBlocks (Function.update d.blocks lpa.toNat b)) := by
  rw [commRecoveryWriteLpa,lpaToLba_eq h.lt,CommDev.writeLba_ok h]

end Rtfs
