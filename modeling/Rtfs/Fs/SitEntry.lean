import Rtfs.Fs.Types
import Rtfs.Lib.Bitmap

namespace Rtfs

namespace RtfsSitEntry

def sitVblocks (e : RtfsSitEntry) : UInt32 := e.vblocks &&& 511

def nextSeg (e : RtfsSitEntry) : UInt32 := (e.vblocks &&& ~~~ 511) >>> 9

def setNextSeg (e : RtfsSitEntry) (next : UInt32) : RtfsSitEntry :=
  ⟨e.vblocks ||| next <<< 9,e.validMap⟩

def isValid (e : RtfsSitEntry) (off : Nat) : Bool := Bitmap.test e.validMap off

def zero : RtfsSitEntry := ⟨0,Buf.zero⟩

def incVblocks (e : RtfsSitEntry) : UInt32 := if e.sitVblocks < 511 then e.vblocks + 1 else e.vblocks

def decVblocks (e : RtfsSitEntry) : UInt32 := if 0 < e.sitVblocks then e.vblocks - 1 else e.vblocks

theorem sitVblocks_toNat (e : RtfsSitEntry) : e.sitVblocks.toNat = e.vblocks.toNat % 512 := by
  rw [sitVblocks,UInt32.toNat_and]
  exact Nat.and_two_pow_sub_one_eq_mod e.vblocks.toNat 9

theorem nextSeg_toNat (e : RtfsSitEntry) : e.nextSeg.toNat = e.vblocks.toNat / 512 := by
  have hlt : e.vblocks.toNat < 4294967296 := e.vblocks.toNat_lt
  rw [nextSeg,UInt32.toNat_shiftRight,UInt32.toNat_and]
  change (e.vblocks.toNat &&& 4294966784) >>> 9 = _
  rw [Nat.shiftRight_and_distrib]
  change e.vblocks.toNat >>> 9 &&& (2 ^ 23 - 1) = _
  rw [Nat.and_two_pow_sub_one_eq_mod,Nat.shiftRight_eq_div_pow]
  omega

theorem setNextSeg_toNat (v next : UInt32) (hv : v.toNat < 512) (hn : next.toNat < 8388608) :
    (v ||| next <<< 9).toNat = next.toNat * 512 + v.toNat := by
  rw [UInt32.toNat_or,UInt32.toNat_shiftLeft,Nat.shiftLeft_eq]
  change v.toNat ||| next.toNat * 2 ^ 9 % 2 ^ 32 = _
  rw [Nat.mod_eq_of_lt (by omega),Nat.or_comm,Nat.mul_comm,← Nat.two_pow_add_eq_or_of_lt hv]

theorem incVblocks_div (e : RtfsSitEntry) : e.incVblocks.toNat / 512 = e.vblocks.toNat / 512 := by
  have hlt : e.vblocks.toNat < 4294967296 := e.vblocks.toNat_lt
  have hc := e.sitVblocks_toNat
  unfold incVblocks
  split
  · rename_i h
    have h' : e.sitVblocks.toNat < 511 := h
    rw [UInt32.toNat_add]
    change (e.vblocks.toNat + 1) % 4294967296 / 512 = _
    omega
  · rfl

theorem decVblocks_div (e : RtfsSitEntry) : e.decVblocks.toNat / 512 = e.vblocks.toNat / 512 := by
  have hc := e.sitVblocks_toNat
  unfold decVblocks
  split
  · rename_i h
    have h' : 0 < e.sitVblocks.toNat := h
    have hle : (1 : UInt32) ≤ e.vblocks := by
      change 1 ≤ e.vblocks.toNat
      omega
    rw [UInt32.toNat_sub_of_le _ _ hle]
    change (e.vblocks.toNat - 1) / 512 = _
    omega
  · rfl

theorem nextSeg_congr {e e' : RtfsSitEntry} (h : e'.vblocks.toNat / 512 = e.vblocks.toNat / 512) :
    e'.nextSeg = e.nextSeg := by
  apply UInt32.toNat_inj.mp
  rw [nextSeg_toNat,nextSeg_toNat,h]

end RtfsSitEntry

def rtfsMkfsSitSetValid (e : RtfsSitEntry) (segOff : Nat) : RtfsSitEntry :=
  if e.isValid segOff then e else ⟨e.incVblocks,Bitmap.set e.validMap segOff⟩

def rtfsMkfsSitSetNextSegment (e : RtfsSitEntry) (next : UInt32) : RtfsSitEntry :=
  RtfsSitEntry.setNextSeg ⟨e.vblocks &&& 511,e.validMap⟩ next

theorem sitSetValid_isValid (e : RtfsSitEntry) {segOff : Nat} (h : segOff < 512) (o : Nat) :
    (rtfsMkfsSitSetValid e segOff).isValid o = (decide (o = segOff) || e.isValid o) := by
  unfold rtfsMkfsSitSetValid
  split
  · rename_i hv
    by_cases ho : o = segOff
    · subst ho
      simp [hv]
    · simp [ho]
  · exact Bitmap.test_set e.validMap (by omega) o

theorem sitSetNextSegment_nextSeg (e : RtfsSitEntry) {next : UInt32} (h : next.toNat < 8388608) :
    (rtfsMkfsSitSetNextSegment e next).nextSeg = next := by
  have hv : (e.vblocks &&& (511 : UInt32)).toNat < 512 := by
    have := e.sitVblocks_toNat
    unfold RtfsSitEntry.sitVblocks at this
    omega
  apply UInt32.toNat_inj.mp
  rw [RtfsSitEntry.nextSeg_toNat]
  change ((e.vblocks &&& (511 : UInt32)) ||| next <<< 9).toNat / 512 = _
  rw [RtfsSitEntry.setNextSeg_toNat _ _ hv h]
  omega

end Rtfs
