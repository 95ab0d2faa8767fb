import Rtfs.Comm.Reclaim
import Rtfs.Fs.SitRange

namespace Rtfs

open RtfsSuperBlock

structure CowReclaimRecord where
  txId : Nat
  dataLpas : List UInt32
  nodeLpas : List UInt32
  deletedNodes : List (UInt32 × UInt32)

structure CowReclaimRegistry where
  pending : List CowReclaimRecord
  completed : List CowReclaimRecord

def cowReclaimRegistryInit : CowReclaimRegistry := ⟨[],[]⟩

def CowReclaimRecord.isEmpty (r : CowReclaimRecord) : Bool :=
  r.dataLpas.isEmpty && r.nodeLpas.isEmpty && r.deletedNodes.isEmpty

def cowReclaimRegistryRegister (reg : CowReclaimRegistry) (r : CowReclaimRecord) : CowReclaimRegistry :=
  if r.isEmpty then reg else { reg with pending := reg.pending ++ [r] }

def cowReclaimRegistryRegisterCompleted (reg : CowReclaimRegistry) (r : CowReclaimRecord) :
    CowReclaimRegistry :=
  if r.isEmpty then reg else { reg with completed := reg.completed ++ [{ r with txId := 0 }] }

def cowReclaimRegistryOnTxComplete (reg : CowReclaimRegistry) (txId : Nat) : CowReclaimRegistry :=
  ⟨reg.pending.filter (fun r => r.txId ≠ txId),
    reg.completed ++ reg.pending.filter (fun r => r.txId = txId)⟩

-- the last reference to a deleted node gives back its nid and its block
def nodeBlockCacheDeleteNode (m : FsMeta) (node : UInt32 × UInt32) : Option FsMeta :=
  (superManagerFreeNid m node.1).bind (fun m => sitInvalidateLpa m node.2)

def sitInvalidateLpas (m : FsMeta) (lpas : List UInt32) : Option FsMeta := lpas.foldlM sitInvalidateLpa m

def CowReclaimRecord.drain (m : FsMeta) (r : CowReclaimRecord) : Option FsMeta :=
  (sitInvalidateLpas m r.dataLpas).bind (fun m =>
    (sitInvalidateLpas m r.nodeLpas).bind (fun m => r.deletedNodes.foldlM nodeBlockCacheDeleteNode m))

def cowReclaimRegistryDrainCompleted (reg : CowReclaimRegistry) (m : FsMeta) :
    Option (CowReclaimRegistry × FsMeta) :=
  (reg.completed.foldlM CowReclaimRecord.drain m).map (fun m => ({ reg with completed := [] },m))

def importRecoveredReclaims (d : CommDev) (reg : CowReclaimRegistry) : CommDev × CowReclaimRegistry :=
  ({ d with recoveredReclaim := [] },d.recoveredReclaim.foldl (fun reg r =>
    cowReclaimRegistryRegisterCompleted reg ⟨0,r.dataLpas,r.nodeLpas,[]⟩) reg)

def lpaBit (m : FsMeta) (lpa : UInt32) : Bool := (m.sit (lpa / 512)).isValid (lpa.toNat % 512)

section Invalidate
variable {m m' : FsMeta} {lpa : UInt32}

theorem lpa_split {x y : UInt32} (hs : x / 512 = y / 512) (ho : x.toNat % 512 = y.toNat % 512) : x = y := by
  have hd : x.toNat / 512 = y.toNat / 512 := by
    have h1 : (x / 512).toNat = x.toNat / 512 := UInt32.toNat_div x 512
    have h2 : (y / 512).toNat = y.toNat / 512 := UInt32.toNat_div y 512
    rw [← h1,← h2,hs]
  apply UInt32.toNat_inj.mp
  omega

theorem invalidate_ok (h0 : m.field segment0BlkaddrOff = 0) (hz : lpa ≠ invalidLpa)
    (hbit : lpaBit m lpa = true) : ∃ m', sitInvalidateLpa m lpa = some m' ∧
      (∀ off, m'.field off = m.field off) ∧ ∀ x, lpaBit m' x = if x = lpa then false else lpaBit m x := by
  obtain ⟨e,he,_,hmap⟩ := changeSegments_one false m lpa 1 h0 Nat.one_pos (by omega) (fun o h1 h2 => by
    rw [show o = lpa.toNat % 512 by omega]
    exact hbit)
  refine ⟨(m.setSit (lpa / 512) e).journalSit (lpa / 512),?_,fun _ => rfl,fun x => ?_⟩
  · unfold sitInvalidateLpa sitChangeLpaStateRange
    rw [if_neg (by simp [hz])]
    exact he
  · unfold lpaBit
    simp only [FsMeta.sit_journalSit,FsMeta.setSit]
    by_cases hs : x / 512 = lpa / 512
    · rw [hs,Function.update_self,hmap]
      by_cases ho : x.toNat % 512 = lpa.toNat % 512
      · rw [if_pos (by omega),if_pos (lpa_split hs ho)]
      · rw [if_neg (by omega),if_neg (fun he => ho (by rw [he]))]
    · rw [Function.update_of_ne hs,if_neg (fun he => hs (by rw [he]))]

theorem invalidate_clear (h0 : m.field segment0BlkaddrOff = 0) (hz : lpa ≠ invalidLpa)
    (hbit : lpaBit m lpa = false) : sitInvalidateLpa m lpa = none := by
  unfold lpaBit at hbit
  unfold sitInvalidateLpa sitChangeLpaStateRange
  rw [if_neg (by simp [hz])]
  have hoff : (lpa % 512).toNat = lpa.toNat % 512 := UInt32.toNat_mod lpa 512
  have hmin : min (512 - lpa.toNat % 512) 1 = 1 := by omega
  change changeSegments false m lpa 1 = none
  rw [changeSegments,if_neg (by decide)]
  simp only [h0,UInt32.sub_zero,hoff,hmin]
  rw [RtfsSitEntry.changeBits,if_pos hbit]

theorem invalidateAll_ok {lpas : List UInt32} (h0 : m.field segment0BlkaddrOff = 0) (hnd : lpas.Nodup)
    (hz : ∀ x ∈ lpas, x ≠ invalidLpa) (hbit : ∀ x ∈ lpas, lpaBit m x = true) :
    ∃ m', sitInvalidateLpas m lpas = some m' ∧ m'.field segment0BlkaddrOff = 0 ∧
      ∀ x, lpaBit m' x = if x ∈ lpas then false else lpaBit m x := by
  induction lpas generalizing m with
  | nil => exact ⟨m,rfl,h0,fun x => by simp⟩
  | cons lpa lpas ih =>
    obtain ⟨hnot,hnd⟩ := List.nodup_cons.mp hnd
    obtain ⟨m₁,h₁,hfield,hmap₁⟩ := invalidate_ok h0 (hz lpa List.mem_cons_self) (hbit lpa List.mem_cons_self)
    have h0₁ := (hfield segment0BlkaddrOff).trans h0
    obtain ⟨m₂,h₂,h0₂,hmap₂⟩ := ih h0₁ hnd (fun x hx => hz x (List.mem_cons_of_mem _ hx)) (fun x hx => by
      have hne : x ≠ lpa := by
        rintro rfl
        exact hnot hx
      rw [hmap₁,if_neg hne]
      exact hbit x (List.mem_cons_of_mem _ hx))
    refine ⟨m₂,?_,h0₂,fun x => ?_⟩
    · rw [sitInvalidateLpas,List.foldlM_cons,h₁]
      exact h₂
    · rw [hmap₂,hmap₁]
      by_cases hx : x = lpa
      · simp [hx]
      · simp [hx]

theorem invalidateAll_set {lpas : List UInt32} (h0 : m.field segment0BlkaddrOff = 0)
    (hz : ∀ x ∈ lpas, x ≠ invalidLpa) (h : sitInvalidateLpas m lpas = some m') {x : UInt32}
    (hx : x ∈ lpas) : lpaBit m x = true := by
  induction lpas generalizing m with
  | nil => cases hx
  | cons lpa lpas ih =>
    have hlpa := hz lpa List.mem_cons_self
    rw [sitInvalidateLpas,List.foldlM_cons] at h
    have hbit : lpaBit m lpa = true := by
      by_contra hc
      rw [invalidate_clear h0 hlpa (Bool.not_eq_true _ ▸ hc)] at h
      cases h
    obtain ⟨m₁,h₁,hfield,hmap⟩ := invalidate_ok h0 hlpa hbit
    have h0₁ := (hfield segment0BlkaddrOff).trans h0
    rw [h₁] at h
    rcases List.mem_cons.mp hx with rfl | hx
    · exact hbit
    · have hset := ih h0₁ (fun y hy => hz y (List.mem_cons_of_mem _ hy)) h hx
      rw [hmap] at hset
      split at hset
      · cases hset
      · exact hset

end Invalidate

section Drain
variable {m : FsMeta} {recs : List ReclaimRecord}

def importedRecord (r : ReclaimRecord) : CowReclaimRecord := ⟨0,r.dataLpas,r.nodeLpas,[]⟩

theorem registerCompleted_imported (reg : CowReclaimRegistry) (r : ReclaimRecord) :
    cowReclaimRegistryRegisterCompleted reg ⟨0,r.dataLpas,r.nodeLpas,[]⟩ =
      ⟨reg.pending,reg.completed ++ r.toList.map importedRecord⟩ := by
  unfold cowReclaimRegistryRegisterCompleted CowReclaimRecord.isEmpty ReclaimRecord.toList importedRecord
  by_cases hr : r.dataLpas = [] ∧ r.nodeLpas = []
  · simp [hr]
  · simp [hr]

theorem import_completed (d : CommDev) (reg : CowReclaimRegistry) :
    (importRecoveredReclaims d reg).2 = ⟨reg.pending,reg.completed ++
      (d.recoveredReclaim.flatMap ReclaimRecord.toList).map importedRecord⟩ := by
  unfold importRecoveredReclaims
  simp only
  induction d.recoveredReclaim generalizing reg with
  | nil => simp
  | cons r rs ih =>
    rw [List.foldl_cons,ih,registerCompleted_imported,List.flatMap_cons,List.map_append,List.append_assoc]

theorem drain_imported (r : ReclaimRecord) : (importedRecord r).drain m = sitInvalidateLpas m r.lpas := by
  unfold CowReclaimRecord.drain importedRecord sitInvalidateLpas ReclaimRecord.lpas
  rw [List.foldlM_append]
  congr 1
  funext m
  cases List.foldlM sitInvalidateLpa m r.nodeLpas <;> rfl

theorem drain_all (rs : List ReclaimRecord) :
    (rs.map importedRecord).foldlM CowReclaimRecord.drain m =
      sitInvalidateLpas m (rs.flatMap ReclaimRecord.lpas) := by
  induction rs generalizing m with
  | nil => rfl
  | cons r rs ih =>
    rw [List.map_cons,List.foldlM_cons,drain_imported,List.flatMap_cons,sitInvalidateLpas,
      sitInvalidateLpas,List.foldlM_append]
    congr 1
    funext m
    exact ih

theorem toList_lpas (rs : List ReclaimRecord) :
    (rs.flatMap ReclaimRecord.toList).flatMap ReclaimRecord.lpas = rs.flatMap ReclaimRecord.lpas := by
  rw [List.flatMap_assoc]
  simp only [flatMap_toList]

theorem drain_import (d : CommDev) (m : FsMeta) :
    cowReclaimRegistryDrainCompleted (importRecoveredReclaims d cowReclaimRegistryInit).2 m =
      (sitInvalidateLpas m (d.recoveredReclaim.flatMap ReclaimRecord.lpas)).map
        (fun m => (cowReclaimRegistryInit,m)) := by
  rw [cowReclaimRegistryDrainCompleted,import_completed]
  simp only [cowReclaimRegistryInit,List.nil_append]
  rw [drain_all,toList_lpas]

end Drain

end Rtfs
