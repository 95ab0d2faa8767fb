import Rtfs.Lib.Bitmap
import Rtfs.Lib.SlotRuns
import Rtfs.Fs.Types

namespace Rtfs

namespace DirEntries

def getDentrySlots (nameLen : Nat) : Nat := (nameLen + 7) / 8

structure RtfsDirEntry where
  hashCode : UInt32
  ino : UInt32
  nameLen : UInt16
  fileType : UInt8
  deriving DecidableEq

-- the inline area and the dentry block differ in the number of slots only
structure DentryArea (slots : Nat) where
  dentryBitmap : Buf ((slots + 7) / 8)
  dentry : Nat → RtfsDirEntry
  filename : Nat → Buf 8

abbrev RtfsInlineDentry := DentryArea 194

abbrev RtfsDentryBlock := DentryArea 214

structure RtfsMemDirEntry where
  ino : UInt64
  fileType : UInt8
  name : List UInt8
  sourceIsInline : Bool
  sourceBlockIndex : UInt32
  sourceSlotIndex : Nat
  deriving DecidableEq

namespace RtfsMemDirEntry

def slots (e : RtfsMemDirEntry) : Nat := getDentrySlots e.name.length

def run (e : RtfsMemDirEntry) : Nat × Nat := (e.sourceSlotIndex,e.slots)

-- the inode number as the 32 bits of a dentry keep it
def onDisk (e : RtfsMemDirEntry) : RtfsMemDirEntry := { e with ino := e.ino.toUInt32.toUInt64 }

end RtfsMemDirEntry

namespace DentryArea
variable {n : Nat}

def zero : DentryArea n := ⟨Buf.zero,fun _ => ⟨0,0,0,0⟩,fun _ => Buf.zero⟩

def isSet (a : DentryArea n) (i : Nat) : Bool := Bitmap.test a.dentryBitmap i

def slotsAt (a : DentryArea n) (i : Nat) : Nat := getDentrySlots (a.dentry i).nameLen.toNat

def setBits (bitmap : Buf n) (start : Nat) : Nat → Buf n
  | 0 => bitmap
  | count + 1 => Bitmap.set (setBits bitmap start count) (start + count)

def clearBits (bitmap : Buf n) (start : Nat) : Nat → Buf n
  | 0 => bitmap
  | count + 1 => Bitmap.clear (clearBits bitmap start count) (start + count)

def setNames (filename : Nat → Buf 8) (index count : Nat) (piece : Nat → Buf 8) : Nat → Buf 8 :=
  fun k => if index ≤ k ∧ k < index + count then piece (k - index) else filename k

def nameSlot (name : List UInt8) (slot : Nat) : Buf 8 := fun j => (name.drop (8 * slot)).getD j 0

def put (a : DentryArea n) (start : Nat) (name : List UInt8) (ino : UInt64) (fileType : UInt8) :
    DentryArea n where
  dentryBitmap := setBits a.dentryBitmap start (getDentrySlots name.length)
  dentry := Function.update a.dentry start ⟨0,ino.toUInt32,UInt16.ofNat name.length,fileType⟩
  filename := setNames a.filename start (getDentrySlots name.length) (nameSlot name)

def clearRun (a : DentryArea n) (start count : Nat) : DentryArea n where
  dentryBitmap := clearBits a.dentryBitmap start count
  dentry := Function.update a.dentry start ⟨0,0,0,0⟩
  filename := setNames a.filename start count (fun _ => Buf.zero)

def nameAt (a : DentryArea n) (index len : Nat) : List UInt8 :=
  (List.range len).map (fun j => (a.filename (index + j / 8)).get (j % 8))

end DentryArea

def ValidName (name : List UInt8) : Prop :=
  0 < name.length ∧ name.length ≤ rtfsNameLen ∧ 0 ∉ name ∧ name ≠ [46] ∧ name ≠ [46,46]

theorem ValidName.slots_pos {name : List UInt8} (h : ValidName name) : 0 < getDentrySlots name.length := by
  have := h.1
  unfold getDentrySlots
  omega

theorem ValidName.slots_le {name : List UInt8} (h : ValidName name) : getDentrySlots name.length ≤ 32 := by
  have := h.2.1
  unfold getDentrySlots
  unfold rtfsNameLen at this
  omega

namespace DentryArea
variable {n : Nat}

structure Stored (a : DentryArea n) (e : RtfsMemDirEntry) : Prop where
  dentry : ∃ hashCode, a.dentry e.sourceSlotIndex =
    ⟨hashCode,e.ino.toUInt32,UInt16.ofNat e.name.length,e.fileType⟩
  name : a.nameAt e.sourceSlotIndex e.name.length = e.name

structure Holds (a : DentryArea n) (es : List RtfsMemDirEntry) : Prop where
  tiles : SlotRuns.Tiles a.isSet n (es.map RtfsMemDirEntry.run)
  stored : ∀ e ∈ es, a.Stored e

section Bits
variable {a b : DentryArea n}

theorem test_setBits (bitmap : Buf n) {start count : Nat} (h : start + count ≤ 8 * n) (o : Nat) :
    Bitmap.test (setBits bitmap start count) o =
      (decide (start ≤ o ∧ o < start + count) || Bitmap.test bitmap o) := by
  induction count with
  | zero =>
    have hno : ¬ (start ≤ o ∧ o < start + 0) := by omega
    rw [decide_eq_false hno]
    rfl
  | succ count ih =>
    rw [setBits,Bitmap.test_set _ (by omega),ih (by omega)]
    by_cases ho : o = start + count
    · have hin : start ≤ o ∧ o < start + (count + 1) := by omega
      rw [decide_eq_true ho,decide_eq_true hin,Bool.true_or,Bool.true_or]
    · have hiff : (start ≤ o ∧ o < start + (count + 1)) ↔ start ≤ o ∧ o < start + count := by omega
      rw [decide_eq_false ho,Bool.false_or,decide_eq_decide.mpr hiff]

theorem test_clearBits (bitmap : Buf n) {start count : Nat} (h : start + count ≤ 8 * n) (o : Nat) :
    Bitmap.test (clearBits bitmap start count) o =
      (!decide (start ≤ o ∧ o < start + count) && Bitmap.test bitmap o) := by
  induction count with
  | zero =>
    have hno : ¬ (start ≤ o ∧ o < start + 0) := by omega
    rw [decide_eq_false hno]
    rfl
  | succ count ih =>
    rw [clearBits,Bitmap.test_clear _ (by omega),ih (by omega)]
    by_cases ho : o = start + count
    · have hin : start ≤ o ∧ o < start + (count + 1) := by omega
      rw [decide_eq_false (not_not.mpr ho),decide_eq_true hin]
      simp
    · have hiff : (start ≤ o ∧ o < start + (count + 1)) ↔ start ≤ o ∧ o < start + count := by omega
      rw [decide_eq_true ho,Bool.true_and,decide_eq_decide.mpr hiff]

theorem isSet_put (a : DentryArea n) {start : Nat} {name : List UInt8}
    (h : start + getDentrySlots name.length ≤ n) (ino : UInt64) (fileType : UInt8) (o : Nat) :
    (a.put start name ino fileType).isSet o =
      (decide (start ≤ o ∧ o < start + getDentrySlots name.length) || a.isSet o) :=
  test_setBits _ (by omega) o

theorem isSet_clearRun (a : DentryArea n) {start count : Nat} (h : start + count ≤ n) (o : Nat) :
    (a.clearRun start count).isSet o = (!decide (start ≤ o ∧ o < start + count) && a.isSet o) :=
  test_clearBits _ (by omega) o

theorem isSet_zero (i : Nat) : (zero : DentryArea n).isSet i = false := Bitmap.test_zero i

theorem length_nameAt (a : DentryArea n) (index len : Nat) : (a.nameAt index len).length = len := by
  simp [nameAt]

theorem nameAt_congr {index len : Nat}
    (h : ∀ k, index ≤ k → k < index + getDentrySlots len → b.filename k = a.filename k) :
    b.nameAt index len = a.nameAt index len := by
  unfold nameAt
  refine List.map_congr_left (fun j hj => ?_)
  have hlt := List.mem_range.mp hj
  rw [h (index + j / 8) (Nat.le_add_right _ _) (by unfold getDentrySlots; omega)]

theorem nameAt_setNames (filename : Nat → Buf 8) (index : Nat) (name : List UInt8) (bitmap : Buf ((n + 7) / 8))
    (dentry : Nat → RtfsDirEntry) :
    (DentryArea.mk bitmap dentry (setNames filename index (getDentrySlots name.length) (nameSlot name)) :
      DentryArea n).nameAt index name.length = name := by
  refine List.ext_getElem (length_nameAt _ _ _) (fun j hj hj' => ?_)
  have hin : index ≤ index + j / 8 ∧ index + j / 8 < index + getDentrySlots name.length := by
    unfold getDentrySlots
    omega
  have hmod := Nat.mod_lt j (show 0 < 8 by decide)
  simp only [nameAt,List.getElem_map,List.getElem_range,setNames,if_pos hin]
  rw [Nat.add_sub_cancel_left,Buf.get,dif_pos hmod,nameSlot]
  simp only [List.getD_eq_getElem?_getD,List.getElem?_drop,Nat.div_add_mod]
  rw [List.getElem?_eq_getElem hj',Option.getD_some]

theorem stored_of_frame {e : RtfsMemDirEntry} (h : a.Stored e)
    (hd : b.dentry e.sourceSlotIndex = a.dentry e.sourceSlotIndex)
    (hf : ∀ k, e.sourceSlotIndex ≤ k → k < e.sourceSlotIndex + e.slots → b.filename k = a.filename k) :
    b.Stored e :=
  ⟨by rw [hd]; exact h.dentry,(nameAt_congr hf).trans h.name⟩

end Bits

section Holds
variable {a : DentryArea n} {e : RtfsMemDirEntry} {es es' : List RtfsMemDirEntry}

theorem Holds.perm (h : a.Holds es) (hp : es.Perm es') : a.Holds es' where
  tiles :=
    { fits := fun r hr => h.tiles.fits r ((hp.map _).mem_iff.mpr hr)
      apart := (hp.map _).pairwise h.tiles.apart (fun hap => Or.symm hap)
      exact := fun i hi => (h.tiles.exact i hi).trans
        (exists_congr (fun _ => and_congr_left (fun _ => (hp.map _).mem_iff))) }
  stored := fun e he => h.stored e (hp.mem_iff.mpr he)

theorem holds_zero : (zero : DentryArea n).Holds [] where
  tiles :=
    { fits := nofun
      apart := .nil
      exact := fun i _ => by simp [isSet_zero] }
  stored := nofun

theorem Holds.apart_of_free (h : a.Holds es) {r r' : Nat × Nat} (hr : r ∈ es.map RtfsMemDirEntry.run)
    (hpos : 0 < r'.2) (hfit : r'.1 + r'.2 ≤ n) (hfree : ∀ k < r'.2, a.isSet (r'.1 + k) = false) :
    SlotRuns.Apart r' r := by
  obtain ⟨hrpos,hrfit⟩ := h.tiles.fits r hr
  by_contra hnot
  unfold SlotRuns.Apart at hnot
  obtain ⟨h1,h2⟩ := not_or.mp hnot
  have hset (i : Nat) (hlo : r'.1 ≤ i) (hhi : i < r'.1 + r'.2) : ¬ SlotRuns.Covers r i := by
    intro hc
    have hbusy := (h.tiles.exact i (by omega)).mpr ⟨r,hr,hc⟩
    have hclear := hfree (i - r'.1) (by omega)
    rw [Nat.add_sub_cancel' hlo,hbusy] at hclear
    cases hclear
  by_cases hle : r.1 ≤ r'.1
  · exact hset r'.1 le_rfl (by omega) ⟨hle,by omega⟩
  · exact hset r.1 (by omega) (by omega) ⟨le_rfl,by omega⟩

theorem Holds.insert (h : a.Holds es) {b : DentryArea n} (hpos : 0 < e.slots) (hfit : e.sourceSlotIndex + e.slots ≤ n)
    (hfree : ∀ k < e.slots, a.isSet (e.sourceSlotIndex + k) = false)
    (hbits : ∀ o, b.isSet o =
      (decide (e.sourceSlotIndex ≤ o ∧ o < e.sourceSlotIndex + e.slots) || a.isSet o))
    (hdentry : ∀ k ≠ e.sourceSlotIndex, b.dentry k = a.dentry k)
    (hname : ∀ k, ¬ (e.sourceSlotIndex ≤ k ∧ k < e.sourceSlotIndex + e.slots) → b.filename k = a.filename k)
    (hst : b.Stored e) : b.Holds (e :: es) := by
  have hap (e' : RtfsMemDirEntry) (he' : e' ∈ es) : SlotRuns.Apart e.run e'.run :=
    h.apart_of_free (List.mem_map.mpr ⟨e',he',rfl⟩) hpos hfit hfree
  refine ⟨⟨fun r hr => ?_,?_,fun i hi => ?_⟩,fun e' he' => ?_⟩
  · rcases List.mem_cons.mp hr with rfl | hr
    · exact ⟨hpos,hfit⟩
    · exact h.tiles.fits r hr
  · refine List.pairwise_cons.mpr ⟨fun r hr => ?_,h.tiles.apart⟩
    obtain ⟨e',he',rfl⟩ := List.mem_map.mp hr
    exact hap e' he'
  · rw [hbits,Bool.or_eq_true,decide_eq_true_iff,h.tiles.exact i hi,List.map_cons,List.exists_mem_cons_iff]
    rfl
  · rcases List.mem_cons.mp he' with rfl | he'
    · exact hst
    · have hapart := hap e' he'
      have hpos' := (h.tiles.fits e'.run (List.mem_map.mpr ⟨e',he',rfl⟩)).1
      change e.sourceSlotIndex + e.slots ≤ e'.sourceSlotIndex ∨
        e'.sourceSlotIndex + e'.slots ≤ e.sourceSlotIndex at hapart
      change 0 < e'.slots at hpos'
      exact stored_of_frame (h.stored e' he') (hdentry _ (by omega)) (fun k hlo hhi => hname k (by omega))

theorem Holds.put (h : a.Holds es) (hv : ValidName e.name) (hfit : e.sourceSlotIndex + e.slots ≤ n)
    (hfree : ∀ k < e.slots, a.isSet (e.sourceSlotIndex + k) = false) :
    (a.put e.sourceSlotIndex e.name e.ino e.fileType).Holds (e :: es) :=
  h.insert hv.slots_pos hfit hfree (isSet_put a hfit e.ino e.fileType) (fun _ hk => Function.update_of_ne hk _ _)
    (fun _ hk => if_neg hk) ⟨⟨0,Function.update_self ..⟩,nameAt_setNames a.filename _ _ _ _⟩

theorem Holds.clearRun (h : a.Holds (e :: es)) : (a.clearRun e.sourceSlotIndex e.slots).Holds es := by
  obtain ⟨hpos,hfit⟩ := h.tiles.fits e.run (by simp)
  obtain ⟨hap,hrest⟩ := List.pairwise_cons.mp h.tiles.apart
  change 0 < e.slots at hpos
  change e.sourceSlotIndex + e.slots ≤ n at hfit
  refine ⟨⟨fun r hr => h.tiles.fits r (List.mem_cons_of_mem _ hr),hrest,fun i hi => ?_⟩,fun e' he' => ?_⟩
  · rw [isSet_clearRun a hfit,Bool.and_eq_true,Bool.not_eq_true',decide_eq_false_iff_not,h.tiles.exact i hi,
      List.map_cons,List.exists_mem_cons_iff]
    constructor
    · rintro ⟨hout,hc | hc⟩
      · exact absurd hc hout
      · exact hc
    · rintro ⟨r,hr,hc⟩
      refine ⟨fun hin => ?_,.inr ⟨r,hr,hc⟩⟩
      have hapart := hap r hr
      obtain ⟨h1,h2⟩ := hc
      change e.sourceSlotIndex + e.slots ≤ r.1 ∨ r.1 + r.2 ≤ e.sourceSlotIndex at hapart
      omega
  · have hmem : e'.run ∈ es.map RtfsMemDirEntry.run := List.mem_map.mpr ⟨e',he',rfl⟩
    have hapart := hap e'.run hmem
    have hpos' := (h.tiles.fits e'.run (List.mem_cons_of_mem _ hmem)).1
    change e.sourceSlotIndex + e.slots ≤ e'.sourceSlotIndex ∨
      e'.sourceSlotIndex + e'.slots ≤ e.sourceSlotIndex at hapart
    change 0 < e'.slots at hpos'
    refine stored_of_frame (h.stored e' (List.mem_cons_of_mem _ he')) (Function.update_of_ne (by omega) _ _)
      (fun k hlo hhi => ?_)
    change (if e.sourceSlotIndex ≤ k ∧ k < e.sourceSlotIndex + e.slots then _ else _) = _
    rw [if_neg (by omega)]

theorem Holds.slotsAt (h : a.Holds es) (hv : ∀ e ∈ es, ValidName e.name) :
    ∀ r ∈ es.map RtfsMemDirEntry.run, a.slotsAt r.1 = r.2 := by
  intro r hr
  obtain ⟨e,he,rfl⟩ := List.mem_map.mp hr
  obtain ⟨hc,hd⟩ := (h.stored e he).dentry
  have hlen := (hv e he).2.1
  unfold rtfsNameLen at hlen
  change getDentrySlots (a.dentry e.sourceSlotIndex).nameLen.toNat = getDentrySlots e.name.length
  rw [hd,UInt16.toNat_ofNat',Nat.mod_eq_of_lt (by omega)]

theorem Holds.ordered (h : a.Holds es) (hv : ∀ e ∈ es, ValidName e.name) :
    ∃ l : List RtfsMemDirEntry, l.Perm es ∧
      SlotRuns.starts a.isSet a.slotsAt n 0 = l.map RtfsMemDirEntry.sourceSlotIndex ∧
      l.Pairwise (fun e e' => e.sourceSlotIndex + e.slots ≤ e'.sourceSlotIndex) := by
  have hperm : (es.mergeSort (fun e e' => decide (e.sourceSlotIndex ≤ e'.sourceSlotIndex))).Perm es :=
    List.mergeSort_perm _ _
  have hle : (es.mergeSort (fun e e' => decide (e.sourceSlotIndex ≤ e'.sourceSlotIndex))).Pairwise
      (fun e e' => decide (e.sourceSlotIndex ≤ e'.sourceSlotIndex) = true) :=
    List.pairwise_mergeSort (fun a b c hab hbc => by simp at *; omega) (fun a b => by simp; omega) es
  have happ := List.pairwise_map.mp (h.perm hperm.symm).tiles.apart
  have hpos (e : RtfsMemDirEntry) (he : e ∈ es) : 0 < e.slots := (hv e he).slots_pos
  have hend : (es.mergeSort (fun e e' => decide (e.sourceSlotIndex ≤ e'.sourceSlotIndex))).Pairwise
      (fun e e' => e.sourceSlotIndex + e.slots ≤ e'.sourceSlotIndex) := by
    refine (hle.and happ).imp_of_mem (fun he he' hpair => ?_)
    obtain ⟨hle,hap⟩ := hpair
    have h1 := hpos _ (hperm.mem_iff.mp he')
    have h2 := of_decide_eq_true hle
    unfold SlotRuns.Apart RtfsMemDirEntry.run at hap
    simp only at hap
    omega
  refine ⟨_,hperm,?_,hend⟩
  refine List.Perm.eq_of_pairwise (fun a b _ _ hab hba => absurd hba (Nat.lt_asymm hab))
    (SlotRuns.starts_sorted a.isSet a.slotsAt n 0) ?_ ?_
  · refine List.pairwise_map.mpr (hend.imp_of_mem (fun he _ hlt => ?_))
    have h1 := hpos _ (hperm.mem_iff.mp he)
    omega
  · refine (h.tiles.starts_perm (h.slotsAt hv)).trans ?_
    rw [List.map_map]
    exact (hperm.map _).symm

end Holds

end DentryArea

end DirEntries

end Rtfs
