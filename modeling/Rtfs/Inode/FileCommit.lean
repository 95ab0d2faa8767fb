import Rtfs.Inode.Truncate

namespace Rtfs

open RtfsSuperBlock

def collectOldLpas (maxCount : Nat) : List UInt32 → List UInt32 → Except Errno (List UInt32)
  | outArray, [] => .ok outArray
  | outArray, oldLpa :: oldLpas =>
    if oldLpa = invalidLpa then collectOldLpas maxCount outArray oldLpas
    else if maxCount ≤ outArray.length then .error .enospc
    else collectOldLpas maxCount (outArray ++ [oldLpa]) oldLpas

def rtfsFileInodeCollectPendingDataCowOldLpas (pending : PendingDataRelocations) (truncated : GrowArray UInt32)
    (maxCount : Nat) : Except Errno (List UInt32) :=
  (collectOldLpas maxCount [] (pending.items.map (·.oldLpa))).bind
    (fun outArray => collectOldLpas maxCount outArray truncated.items)

-- the cached page takes the new address; it is ready, as it was written from the cache
def relocatePage (newLpa : UInt32) (e : PageEntry) : PageEntry := { e with lpa := newLpa, contentState := .pageReady }

def applyRelocation (f : RtfsFileInode) (r : RtfsFilePendingDataCowRelocation) :
    Except Errno RtfsFilePendingDataCowRelocation × RtfsFileInode :=
  if r.newLpa = invalidLpa then (.ok r,f)
  else
    match rtfsFileSetDataLpaByBlockIndex f.nodes f.ino r.blockIndex r.newLpa true with
    | (.error e,nodes) => (.error e,{ f with nodes := nodes })
    | (.ok oldLpa,nodes) =>
      (.ok ⟨r.blockIndex,if r.oldLpa = invalidLpa then oldLpa else r.oldLpa,invalidLpa⟩,{ f with
        nodes := nodes
        pageCache := Function.update f.pageCache r.blockIndex ((f.pageCache r.blockIndex).map (relocatePage r.newLpa)) })

def applyRelocations : List RtfsFilePendingDataCowRelocation → RtfsFileInode →
    (Option Errno × List RtfsFilePendingDataCowRelocation) × RtfsFileInode
  | [], f => ((none,[]),f)
  | r :: rs, f =>
    match applyRelocation f r with
    | (.error e,f) => ((some e,r :: rs),f)
    | (.ok r,f) =>
      let rest := applyRelocations rs f
      ((rest.1.1,r :: rest.1.2),rest.2)

def rtfsFileInodeApplyPendingDataRelocations (f : RtfsFileInode) (pending : PendingDataRelocations) :
    (Option Errno × PendingDataRelocations) × RtfsFileInode :=
  if pending.items = [] then ((none,pending),f)
  else
    match applyRelocations pending.items f with
    | ((some e,items),f) => ((some e,{ pending with items := items }),f)
    | ((none,_),f) => ((none,{ pending with items := [] }),{ f with pageCache := pageCacheClearDirtyPages f.pageCache })

-- diskSize: i_size of the inode in the node cache
structure FileState where
  file : RtfsFileInode
  fs : FsMeta
  dev : CommDev
  pending : PendingDataRelocations
  diskSize : UInt64

-- the other fields of the inode are left out
def rtfsFileInodeSyncMetadataToDisk (s : FileState) : FileState :=
  { s with diskSize := s.file.iSize, file := { s.file with isDirty := false } }

def FileState.synced (s : FileState) : FileState := if s.file.isDirty then rtfsFileInodeSyncMetadataToDisk s else s

-- rest: how the part over nodes and journal ends
structure FileCommitEnv where
  writeBack : WriteBackEnv
  malloc : Bool
  rest : Option Errno

def FileState.afterWriteBack (s : FileState) (w : WriteBackState) : FileState :=
  { s with fs := w.fs, dev := w.dev, pending := w.pending }

section Synced
variable (s : FileState)

theorem synced_keeps : s.synced.file.nodes = s.file.nodes ∧ s.synced.file.ino = s.file.ino ∧
    s.synced.file.iSize = s.file.iSize ∧ s.synced.file.pageCache = s.file.pageCache ∧
    s.synced.file.pendingTruncateOldLpas = s.file.pendingTruncateOldLpas ∧ s.synced.fs = s.fs ∧
    s.synced.dev = s.dev ∧ s.synced.pending = s.pending := by
  unfold FileState.synced
  split <;> exact ⟨rfl,rfl,rfl,rfl,rfl,rfl,rfl,rfl⟩

theorem synced_diskSize : s.synced.diskSize = if s.file.isDirty then s.file.iSize else s.diskSize := by
  unfold FileState.synced
  split <;> rfl

theorem synced_clean : s.synced.file.isDirty = false := by
  unfold FileState.synced
  split
  · rfl
  · rename_i hd
    exact Bool.eq_false_iff.mpr hd

end Synced

def commitRelocations (env : FileCommitEnv) (s : FileState) : Except Errno (List UInt32) × FileState :=
  let oldDataCapacity := s.pending.items.length + s.file.pendingTruncateOldLpas.items.length
  if 0 < oldDataCapacity ∧ env.malloc = false then (.error .enomem,s)
  else
    match rtfsFileInodeCollectPendingDataCowOldLpas s.pending s.file.pendingTruncateOldLpas oldDataCapacity with
    | .error e => (.error e,s)
    | .ok oldDataLpas =>
      match rtfsFileInodeApplyPendingDataRelocations s.file s.pending with
      | ((some e,pending),file) => (.error e,{ s with pending := pending, file := file })
      | ((none,pending),file) =>
        let s := FileState.synced { s with pending := pending, file := file }
        match env.rest with
        | some e => (.error e,s)
        | none => (.ok oldDataLpas,{ s with
            pending := { pending with items := [] }
            file := { s.file with
              pendingTruncateOldLpas := { s.file.pendingTruncateOldLpas with items := [] }, isDirty := false } })

-- the result is the list of old addresses that is registered for reclaim
def rtfsFileInodeCommitCowWritebackInternal (env : FileCommitEnv) (dirtyPages : DirtyPages) (s : FileState) :
    Option (Except Errno (List UInt32) × FileState) :=
  (rtfsFileInodeWriteDirtyPagesCow env.writeBack ⟨s.fs,s.dev,dirtyPages,s.pending⟩).map (fun w =>
    match w.1 with
    | some e => (.error e,s.afterWriteBack w.2)
    | none => commitRelocations env (s.afterWriteBack w.2))

section Collect
variable {maxCount : Nat}

theorem collectOldLpas_fits {out lpas : List UInt32} (h : out.length + lpas.length ≤ maxCount) :
    collectOldLpas maxCount out lpas = .ok (out ++ lpas.filter (· ≠ invalidLpa)) := by
  induction lpas generalizing out with
  | nil => exact congrArg Except.ok (List.append_nil out).symm
  | cons lpa lpas ih =>
    rw [List.length_cons] at h
    rw [collectOldLpas]
    by_cases hz : lpa = invalidLpa
    · rw [if_pos hz,ih (by omega),List.filter_cons_of_neg (by simp [hz])]
    · rw [if_neg hz,if_neg (by omega),ih (by rw [List.length_append,List.length_singleton]; omega),
        List.filter_cons_of_pos (by simp [hz]),List.append_assoc]
      rfl

theorem collect_all (pending : PendingDataRelocations) (truncated : GrowArray UInt32) :
    rtfsFileInodeCollectPendingDataCowOldLpas pending truncated (pending.items.length + truncated.items.length) =
      .ok (((pending.items.map (·.oldLpa)) ++ truncated.items).filter (· ≠ invalidLpa)) := by
  have hle := List.length_filter_le (· ≠ invalidLpa) (pending.items.map (·.oldLpa))
  rw [List.length_map] at hle
  unfold rtfsFileInodeCollectPendingDataCowOldLpas
  rw [collectOldLpas_fits (by rw [List.length_nil,List.length_map]; omega),List.nil_append]
  refine (collectOldLpas_fits (by omega)).trans ?_
  rw [List.filter_append]

end Collect

def relocationAt (items : List RtfsFilePendingDataCowRelocation) (b : UInt32) :
    Option RtfsFilePendingDataCowRelocation := items.find? (fun r => r.blockIndex = b)

structure Relocates (items : List RtfsFilePendingDataCowRelocation) (f f' : RtfsFileInode) : Prop where
  tree : IndexTree f'.nodes f'.ino
  only : f'.ino = f.ino ∧ f'.iSize = f.iSize ∧ f'.pendingTruncateOldLpas = f.pendingTruncateOldLpas
  flag : f'.isDirty = f.isDirty
  mapped : ∀ b r, relocationAt items b = some r →
    rtfsFileResolveDataLpaByBlockIndex f'.nodes f'.ino b = .ok r.newLpa ∧
      ∃ old, rtfsFileResolveDataLpaByBlockIndex f.nodes f.ino b = .ok old
  kept : ∀ b, relocationAt items b = none →
    rtfsFileResolveDataLpaByBlockIndex f'.nodes f'.ino b = rtfsFileResolveDataLpaByBlockIndex f.nodes f.ino b
  pages : ∀ b, f'.pageCache b = match relocationAt items b with
    | some r => (f.pageCache b).map (relocatePage r.newLpa)
    | none => f.pageCache b

section Apply
variable {f f' : RtfsFileInode} {r : RtfsFilePendingDataCowRelocation} {items : List RtfsFilePendingDataCowRelocation}

theorem relocationAt_self (r : RtfsFilePendingDataCowRelocation) (items : List RtfsFilePendingDataCowRelocation) :
    relocationAt (r :: items) r.blockIndex = some r := by
  simp [relocationAt]

theorem relocationAt_ne {b : UInt32} (hne : b ≠ r.blockIndex) :
    relocationAt (r :: items) b = relocationAt items b := by
  simp [relocationAt,hne.symm]

theorem relocationAt_absent {b : UInt32} (h : b ∉ items.map (·.blockIndex)) : relocationAt items b = none := by
  rw [relocationAt,List.find?_eq_none]
  intro r hr
  simpa using fun he => h (List.mem_map.mpr ⟨r,hr,he⟩)

theorem applyRelocation_ok (h : IndexTree f.nodes f.ino) (hz : r.newLpa ≠ invalidLpa)
    {r' : RtfsFilePendingDataCowRelocation} (hr : applyRelocation f r = (.ok r',f')) : Relocates [r] f f' := by
  unfold applyRelocation at hr
  rw [if_neg hz] at hr
  rcases hs : rtfsFileSetDataLpaByBlockIndex f.nodes f.ino r.blockIndex r.newLpa true with ⟨old,nodes⟩
  rw [hs] at hr
  cases old with
  | error e => cases hr
  | ok old =>
    have hset := set_resolves h hs
    cases hr
    refine ⟨hset.tree,⟨rfl,rfl,rfl⟩,rfl,fun b x hx => ?_,fun b hb => ?_,fun b => ?_⟩
    · by_cases hb : b = r.blockIndex
      · subst hb
        rw [relocationAt_self] at hx
        cases hx
        exact ⟨hset.new,old,hset.old⟩
      · rw [relocationAt_ne hb] at hx
        cases hx
    · refine hset.others b (fun he => ?_)
      rw [he,relocationAt_self] at hb
      cases hb
    · by_cases hb : b = r.blockIndex
      · subst hb
        rw [relocationAt_self]
        exact Function.update_self _ _ _
      · rw [relocationAt_ne hb]
        exact Function.update_of_ne hb _ _

theorem Relocates.cons {g : RtfsFileInode} (h : Relocates [r] f g) (h' : Relocates items g f')
    (hnew : r.blockIndex ∉ items.map (·.blockIndex)) : Relocates (r :: items) f f' := by
  have hnone := relocationAt_absent hnew
  refine ⟨h'.tree,⟨h'.only.1.trans h.only.1,h'.only.2.1.trans h.only.2.1,h'.only.2.2.trans h.only.2.2⟩,
    h'.flag.trans h.flag,fun b x hx => ?_,fun b hb => ?_,fun b => ?_⟩
  · by_cases hb : b = r.blockIndex
    · subst hb
      rw [relocationAt_self] at hx
      cases hx
      obtain ⟨hmapped,hold⟩ := h.mapped r.blockIndex r (relocationAt_self r [])
      exact ⟨(h'.kept r.blockIndex hnone).trans hmapped,hold⟩
    · rw [relocationAt_ne hb] at hx
      obtain ⟨hmapped,old,hold⟩ := h'.mapped b x hx
      rw [h.kept b (by rw [relocationAt_ne hb]; rfl)] at hold
      exact ⟨hmapped,old,hold⟩
  · have hne : b ≠ r.blockIndex := by
      rintro rfl
      rw [relocationAt_self] at hb
      cases hb
    rw [relocationAt_ne hne] at hb
    rw [h'.kept b hb,h.kept b (by rw [relocationAt_ne hne]; rfl)]
  · rw [h'.pages b,h.pages b]
    by_cases hb : b = r.blockIndex
    · subst hb
      rw [hnone,relocationAt_self,relocationAt_self]
    · rw [relocationAt_ne hb,relocationAt_ne hb]
      rfl

theorem Relocates.nil (h : IndexTree f.nodes f.ino) : Relocates [] f f :=
  ⟨h,⟨rfl,rfl,rfl⟩,rfl,fun _ _ hx => (by cases hx),fun _ _ => rfl,fun _ => rfl⟩

theorem applyRelocations_ok (h : IndexTree f.nodes f.ino) (hz : ∀ r ∈ items, r.newLpa ≠ invalidLpa)
    (hnd : (items.map (·.blockIndex)).Nodup) {items' : List RtfsFilePendingDataCowRelocation}
    (hr : applyRelocations items f = ((none,items'),f')) : Relocates items f f' := by
  induction items generalizing f items' with
  | nil =>
    cases hr
    exact .nil h
  | cons r items ih =>
    obtain ⟨hnew,hnd⟩ := List.nodup_cons.mp hnd
    rw [applyRelocations] at hr
    rcases hone : applyRelocation f r with ⟨x,g⟩
    rw [hone] at hr
    cases x with
    | error e => cases hr
    | ok r' =>
      have hstep := applyRelocation_ok h (hz r List.mem_cons_self) hone
      rcases hrest : applyRelocations items g with ⟨⟨e,done⟩,f''⟩
      simp only [hrest,Prod.mk.injEq] at hr
      obtain ⟨⟨rfl,-⟩,rfl⟩ := hr
      exact hstep.cons (ih hstep.tree (fun x hx => hz x (List.mem_cons_of_mem _ hx)) hnd hrest) hnew

theorem applyPending_spec (h : IndexTree f.nodes f.ino) {pending pending' : PendingDataRelocations} {e : Option Errno}
    (hz : ∀ r ∈ pending.items, r.newLpa ≠ invalidLpa) (hnd : (pending.items.map (·.blockIndex)).Nodup)
    (hr : rtfsFileInodeApplyPendingDataRelocations f pending = ((e,pending'),f')) :
    (e = none → pending'.items = [] ∧ ∃ g, Relocates pending.items f g ∧
      f' = { g with pageCache := if pending.items = [] then g.pageCache else pageCacheClearDirtyPages g.pageCache }) ∧
    (e ≠ none → pending'.items ≠ []) := by
  unfold rtfsFileInodeApplyPendingDataRelocations at hr
  split at hr
  · rename_i hnil
    cases hr
    refine ⟨fun _ => ⟨hnil,f,?_,by rw [if_pos hnil]⟩,fun hne => absurd rfl hne⟩
    rw [hnil]
    exact .nil h
  · rename_i hsome
    rcases hall : applyRelocations pending.items f with ⟨⟨x,done⟩,g⟩
    rw [hall] at hr
    cases x with
    | none =>
      cases hr
      exact ⟨fun _ => ⟨rfl,g,applyRelocations_ok h hz hnd hall,by rw [if_neg hsome]⟩,fun hne => absurd rfl hne⟩
    | some x =>
      cases hr
      refine ⟨fun he => (by cases he),fun _ hnil => ?_⟩
      cases hitems : pending.items with
      | nil => exact hsome hitems
      | cons r items =>
        rw [hitems,applyRelocations] at hall
        rcases hone : applyRelocation f r with ⟨y,g'⟩
        rw [hone] at hall
        have hdone := (Prod.mk.inj (Prod.mk.inj hall).1).2
        cases y with
        | error e' => exact absurd (hdone.trans hnil) (List.cons_ne_nil _ _)
        | ok r' => exact absurd (hdone.trans hnil) (List.cons_ne_nil _ _)

end Apply

section WriteBackEnds
variable {env : WriteBackEnv} {d : CommDev} {layout : RtfsMkfsLayout}

theorem writeBatches_frame (env : WriteBackEnv) {i : Nat} {ops : List RtfsFileDirtyPageWriteOp}
    (held : ∀ x ∈ ops, d.Holds x.newLpa.toNat) : (writeBatches env d i ops).2.blockCount = d.blockCount ∧
      ∀ lpa, (∀ x ∈ ops, x.newLpa.toNat ≠ lpa) → (writeBatches env d i ops).2.blocks lpa = d.blocks lpa := by
  induction hk : ops.length using Nat.strong_induction_on generalizing d i ops with
  | _ k ih =>
    cases ops with
    | nil =>
      rw [writeBatches]
      exact ⟨rfl,fun _ _ => rfl⟩
    | cons op rest =>
      obtain ⟨d₁,hwrite,hcount,-,hsame⟩ := writeBatch_ok held
      have hone := le_batchLength op 1 rest
      have hdrop : ((op :: rest).drop (batchLength op 1 rest)).length = k - batchLength op 1 rest := by
        rw [List.length_drop,hk]
      have hlen : (op :: rest).length = rest.length + 1 := rfl
      rw [writeBatches]
      split
      · exact ⟨rfl,fun _ _ => rfl⟩
      · rw [hwrite]
        obtain ⟨hcount',hsame'⟩ := ih _ (by omega) (d := d₁) (i := i + batchLength op 1 rest)
          (fun x hx => by
            rw [CommDev.Holds,hcount]
            exact held x (List.mem_of_mem_drop hx)) hdrop
        refine ⟨hcount'.trans hcount,fun lpa hlpa => ?_⟩
        rw [hsame' lpa (fun x hx => hlpa x (List.mem_of_mem_drop hx)),
          hsame lpa (fun x hx => hlpa x (List.mem_of_mem_take hx))]

theorem invalidateAll_inv {m m' : FsMeta} {returned lpas : List UInt32} (h : LpaInv layout ⟨m,returned⟩)
    (ha : layout.Areas) (hN : layout.segmentCount.toNat < 8388608) (hnd : lpas.Nodup)
    (hz : ∀ x ∈ lpas, x ≠ invalidLpa) (hbit : ∀ x ∈ lpas, lpaBit m x = true)
    (hr : sitInvalidateLpas m lpas = some m') : LpaInv layout ⟨m',returned⟩ := by
  induction lpas generalizing m with
  | nil =>
    cases hr
    exact h
  | cons lpa lpas ih =>
    obtain ⟨hnew,hnd⟩ := List.nodup_cons.mp hnd
    obtain ⟨m₁,hone,-,hbits⟩ := invalidate_ok h.seg0 (hz lpa List.mem_cons_self) (hbit lpa List.mem_cons_self)
    rw [sitInvalidateLpas,List.foldlM_cons,hone] at hr
    have hvalid : lpaValid m lpa := by
      have hb := hbit lpa List.mem_cons_self
      have h0 : m.field segment0BlkaddrOff = 0 := h.seg0
      unfold lpaBit at hb
      unfold lpaValid
      rw [h0,UInt32.sub_zero,UInt32.toNat_mod]
      exact hb
    refine ih (lpaStep_inv ha hN h (LpaStep.invalidate hvalid hone)) hnd
      (fun x hx => hz x (List.mem_cons_of_mem _ hx)) (fun x hx => ?_) hr
    rw [hbits,if_neg (ne_of_mem_of_not_mem hx hnew)]
    exact hbit x (List.mem_cons_of_mem _ hx)

theorem appendRelocations_items {i : Nat} {p p' : PendingDataRelocations} {ops : List RtfsFileDirtyPageWriteOp}
    (hz : ∀ op ∈ ops, op.newLpa ≠ invalidLpa) (h : appendRelocations env i p ops = (none,p')) :
    p'.items = p.items ++ ops.map relocation := by
  by_cases happ : Appends env i p.items.length p.capacity ops.length
  · obtain ⟨p'',hrun,hitems⟩ := appendRelocations_ok hz happ
    rw [h] at hrun
    cases hrun
    exact hitems
  · obtain ⟨p'',done,hrun,-⟩ := appendRelocations_failed hz happ
    rw [h] at hrun
    cases hrun

structure WriteBackEnds (layout : RtfsMkfsLayout) (w : WriteBackState) (r : Option Errno) (w' : WriteBackState) :
    Prop where
  space : LpaInv layout ⟨w'.fs,[]⟩
  bits : ∀ lpa, lpaBit w.fs lpa = true → lpaBit w'.fs lpa = true
  blockCount : w'.dev.blockCount = w.dev.blockCount
  blocks : ∀ lpa : UInt32, lpaBit w.fs lpa = true → w'.dev.blocks lpa.toNat = w.dev.blocks lpa.toNat
  done : r = none → ∃ lpas, WrittenBack w w' lpas ∧ ∀ lpa ∈ lpas, w.dev.Holds lpa.toNat

theorem cleanup_ends {w : WriteBackState} {m : FsMeta} {got : List UInt32} {ops : List RtfsFileDirtyPageWriteOp}
    (e : Errno) {dev : CommDev} (pending : PendingDataRelocations) (ha : layout.Areas)
    (hN : layout.segmentCount.toNat < 8388608) (hgot : DataAlloc layout [] w.fs m got)
    (hlen : got.length ≤ ops.length) (hnew : ∀ op ∈ ops, op.newLpa = invalidLpa)
    (hcount : dev.blockCount = w.dev.blockCount)
    (hblocks : ∀ lpa : UInt32, lpaBit w.fs lpa = true → dev.blocks lpa.toNat = w.dev.blocks lpa.toNat) :
    ∃ w', cleanupWrites e (withLpas ops got) { w with fs := m, dev := dev, pending := pending } = some (some e,w') ∧
      WriteBackEnds layout w (some e) w' := by
  obtain ⟨m',hundo,hbits⟩ := hgot.undone ha
  refine ⟨{ w with fs := m', dev := dev, pending := pending },?_,?_,fun lpa hl => by rw [hbits,hl],hcount,hblocks,
    fun hr => (by cases hr)⟩
  · rw [cleanupWrites,invalidate_withLpas hnew hlen]
    dsimp only
    rw [hundo]
    rfl
  · have hnd : got.Nodup := hgot.inv.nodup
    have hinv : LpaInv layout ⟨m',[] ++ got⟩ := invalidateAll_inv hgot.inv ha hN hnd (hgot.inv.ne_invalid ha)
      (fun x hx => by rw [hgot.bits,if_pos hx]) hundo
    exact hinv.forget

theorem writeBack_ends (env : WriteBackEnv) (w : WriteBackState) (ha : layout.Areas) (hN : layout.segmentCount.toNat < 8388608)
    (hinv : LpaInv layout ⟨w.fs,[]⟩) (hdev : ∀ lpa < layout.blockCount, w.dev.Holds lpa)
    (hready : ∀ page ∈ w.dirtyPages.dirty, page.2.contentState = .pageReady) :
    ∃ r w', rtfsFileInodeWriteDirtyPagesCow env w = some (r,w') ∧ WriteBackEnds layout w r w' := by
  have hnew := writeOps_unassigned w.dirtyPages.dirty
  have hsame (e : Errno) : WriteBackEnds layout w (some e) w :=
    ⟨hinv,fun _ h => h,rfl,fun _ _ => rfl,fun hr => (by cases hr)⟩
  by_cases hne : w.dirtyPages.nodes.length = 0
  · have hnil : w.dirtyPages.dirty = [] := by
      rw [DirtyPages.dirty,List.length_eq_zero_iff.mp hne]
      rfl
    refine ⟨none,w,if_pos hne,hinv,fun _ h => h,rfl,fun _ _ => rfl,fun _ => ⟨[],⟨by rw [hnil]; rfl,List.nodup_nil,
      fun lpa hl => absurd hl List.not_mem_nil,fun _ => by rw [if_neg List.not_mem_nil],by rw [hnil]; simp,
      by rw [hnil]; simp,rfl⟩,fun lpa hl => absurd hl List.not_mem_nil⟩⟩
  by_cases hops : env.opsAllocated = true
  swap
  · refine ⟨some .enomem,w,?_,hsame _⟩
    rw [rtfsFileInodeWriteDirtyPagesCow,if_neg hne,if_pos (Bool.not_eq_true _ ▸ hops)]
  have hcollect : collectDirtyPages w.dirtyPages.nodes = (w.dirtyPages.dirty.map writeOp,true) := collect_ready hready
  obtain ⟨got,m,hassign,hgot,hle,hall⟩ := assignLpas_spec hinv ha hN (w.dirtyPages.dirty.map writeOp)
    (writeOps_length _)
  by_cases hroom : (w.dirtyPages.dirty.map writeOp).length ≤ dataRoom w.fs
  swap
  · rw [decide_eq_false hroom] at hassign
    obtain ⟨w',hclean,hends⟩ := cleanup_ends (w := w) .enospc w.pending ha hN hgot hle hnew rfl
      (fun _ _ => rfl)
    refine ⟨_,w',?_,hends⟩
    rw [rtfsFileInodeWriteDirtyPagesCow,if_neg hne,if_neg (by rw [hops]; decide),hcollect]
    simp only
    rw [hassign]
    exact hclean
  rw [decide_eq_true hroom] at hassign
  by_cases hbatch : env.batchAllocated = true
  swap
  · obtain ⟨w',hclean,hends⟩ := cleanup_ends (w := w) .enomem w.pending ha hN hgot hle hnew rfl
      (fun _ _ => rfl)
    refine ⟨_,w',?_,hends⟩
    rw [rtfsFileInodeWriteDirtyPagesCow,if_neg hne,if_neg (by rw [hops]; decide),hcollect]
    simp only
    rw [hassign]
    simp only
    rw [if_pos (Bool.not_eq_true _ ▸ hbatch)]
    exact hclean
  have hlen : got.length = w.dirtyPages.dirty.length := (hall hroom).trans (List.length_map _)
  have hlpas := withLpas_newLpa hlen
  have hheld : ∀ lpa ∈ got, w.dev.Holds lpa.toNat := hgot.held ha hdev
  have hopsHeld : ∀ x ∈ withLpas (w.dirtyPages.dirty.map writeOp) got, w.dev.Holds x.newLpa.toNat :=
    fun x hx => hheld _ (hlpas ▸ List.mem_map_of_mem hx)
  have hopsNew : ∀ x ∈ withLpas (w.dirtyPages.dirty.map writeOp) got, x.newLpa ≠ invalidLpa :=
    fun x hx => hgot.inv.ne_invalid ha _ (hlpas ▸ List.mem_map_of_mem hx)
  have hnodup : ((withLpas (w.dirtyPages.dirty.map writeOp) got).map (·.newLpa)).Nodup := by
    rw [hlpas]
    exact hgot.inv.nodup
  obtain ⟨r,d,hwrite,hr,hstored⟩ := @writeBatches_spec env w.dev 0 _ hopsHeld hnodup
  have hframe := writeBatches_frame env (i := 0) hopsHeld
  rw [hwrite] at hframe
  have hblocks : ∀ lpa : UInt32, lpaBit w.fs lpa = true → d.blocks lpa.toNat = w.dev.blocks lpa.toNat := by
    intro lpa hbit
    refine hframe.2 _ (fun x hx he => ?_)
    have hin : x.newLpa ∈ got := hlpas ▸ List.mem_map_of_mem hx
    rw [UInt32.toNat_inj.mp he] at hin
    exact absurd hbit (by rw [hgot.fresh lpa hin]; decide)
  cases r with
  | some e =>
    obtain ⟨w',hclean,hends⟩ := cleanup_ends (w := w) e w.pending ha hN hgot hle hnew hframe.1 hblocks
    refine ⟨_,w',?_,hends⟩
    rw [rtfsFileInodeWriteDirtyPagesCow,if_neg hne,if_neg (by rw [hops]; decide),hcollect]
    simp only
    rw [hassign]
    simp only
    rw [if_neg (by rw [hbatch]; decide),hwrite]
    exact hclean
  | none =>
    rcases happ : appendRelocations env 0 w.pending (withLpas (w.dirtyPages.dirty.map writeOp) got) with ⟨e,p⟩
    cases e with
    | some e =>
      obtain ⟨w',hclean,hends⟩ := cleanup_ends (w := w) e p ha hN hgot hle hnew hframe.1 hblocks
      refine ⟨_,w',?_,hends⟩
      rw [rtfsFileInodeWriteDirtyPagesCow,if_neg hne,if_neg (by rw [hops]; decide),hcollect]
      simp only
      rw [hassign]
      simp only
      rw [if_neg (by rw [hbatch]; decide),hwrite]
      simp only
      rw [happ]
      exact hclean
    | none =>
      refine ⟨none,{ w with fs := m, dev := d, pending := p },?_,hgot.inv.forget,fun lpa hl => ?_,hframe.1,hblocks,
        fun _ => ⟨got,⟨hlen,hgot.inv.nodup,fun lpa hl => ⟨hgot.inv.ne_invalid ha lpa hl,hgot.fresh lpa hl⟩,hgot.bits,
          fun x hx => ?_,?_,rfl⟩,hheld⟩⟩
      · rw [rtfsFileInodeWriteDirtyPagesCow,if_neg hne,if_neg (by rw [hops]; decide),hcollect]
        simp only
        rw [hassign]
        simp only
        rw [if_neg (by rw [hbatch]; decide),hwrite]
        simp only
        rw [happ]
      · rw [hgot.bits]
        split
        · rfl
        · exact hl
      · have hpages := (hstored rfl).1
        rw [withLpas_writeOps hlen] at hpages
        exact hpages _ (List.mem_map_of_mem hx)
      · have hitems := appendRelocations_items hopsNew happ
        rw [hitems,withLpas_writeOps hlen,List.map_map]
        rfl

end WriteBackEnds

end Rtfs
