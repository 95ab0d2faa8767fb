import Rtfs.Fs.DataRoom
import Rtfs.Comm.Device

namespace Rtfs

open RtfsSuperBlock

inductive PageState
  | pageInvalid
  | pageReady
  deriving DecidableEq

structure PageEntry where
  lpa : UInt32
  contentState : PageState
  page : Block
  isDirty : Bool

structure DirtyPagesNode where
  blkoff : UInt32
  entry : Option PageEntry

-- a kbtree is walked in key order and counts its keys in an int
structure DirtyPages where
  nodes : List DirtyPagesNode
  sorted : nodes.Pairwise (fun a b => a.blkoff < b.blkoff)
  count_lt : nodes.length < 2147483648

structure RtfsFilePendingDataCowRelocation where
  blockIndex : UInt32
  oldLpa : UInt32
  newLpa : UInt32

structure PendingDataRelocations where
  items : List RtfsFilePendingDataCowRelocation
  capacity : Nat

structure WriteBackState where
  fs : FsMeta
  dev : CommDev
  dirtyPages : DirtyPages
  pending : PendingDataRelocations

-- a device write goes through when it does for each page it carries
structure WriteBackEnv where
  opsAllocated : Bool
  batchAllocated : Bool
  writes : Nat → Bool
  grows : Nat → Bool

structure RtfsFileDirtyPageWriteOp where
  page : Block
  blockIndex : UInt32
  oldLpa : UInt32
  newLpa : UInt32

def rtfsFileWritebackBatchPages : Nat := 32

def collectDirtyPages : List DirtyPagesNode → List RtfsFileDirtyPageWriteOp × Bool
  | [] => ([],true)
  | node :: nodes =>
    match node.entry with
    | none => collectDirtyPages nodes
    | some pageEntry =>
      if pageEntry.isDirty = false then collectDirtyPages nodes
      else if pageEntry.contentState ≠ .pageReady then ([],false)
      else
        let rest := collectDirtyPages nodes
        (⟨pageEntry.page,node.blkoff,pageEntry.lpa,invalidLpa⟩ :: rest.1,rest.2)

def runLength : List RtfsFileDirtyPageWriteOp → Nat
  | [] => 0
  | [_] => 1
  | op :: next :: ops => if next.blockIndex = op.blockIndex + 1 then runLength (next :: ops) + 1 else 1

theorem runLength_pos (op : RtfsFileDirtyPageWriteOp) (ops : List RtfsFileDirtyPageWriteOp) :
    0 < runLength (op :: ops) := by
  cases ops with
  | nil => exact Nat.one_pos
  | cons next ops =>
    rw [runLength]
    split <;> omega

def allocRun (m : FsMeta) (remainingPages : Nat) : Option (List UInt32 × Bool × FsMeta) :=
  if remainingPages = 0 then some ([],true,m)
  else
    match superManagerAllocDataLpaRange m (UInt32.ofNat remainingPages) with
    | none => none
    | some (firstLpa,allocatedPages,m') =>
      if firstLpa = invalidLpa ∨ allocatedPages.toNat = 0 then some ([],false,m')
      else (allocRun m' (remainingPages - allocatedPages.toNat)).map
        (fun r => (lpaRange firstLpa allocatedPages ++ r.1,r.2))
termination_by remainingPages
decreasing_by omega

def assignLpas (m : FsMeta) (ops : List RtfsFileDirtyPageWriteOp) :
    Option (List UInt32 × Bool × FsMeta) :=
  match ops with
  | [] => some ([],true,m)
  | op :: rest =>
    match allocRun m (runLength (op :: rest)) with
    | none => none
    | some (lpas,false,m') => some (lpas,false,m')
    | some (lpas,true,m') => (assignLpas m' ((op :: rest).drop (runLength (op :: rest)))).map
        (fun r => (lpas ++ r.1,r.2))
termination_by ops.length
decreasing_by
  have := runLength_pos op rest
  simp only [List.length_drop,List.length_cons]
  omega

def withLpas : List RtfsFileDirtyPageWriteOp → List UInt32 → List RtfsFileDirtyPageWriteOp
  | op :: ops,lpa :: lpas => { op with newLpa := lpa } :: withLpas ops lpas
  | ops,_ => ops

def batchLength (first : RtfsFileDirtyPageWriteOp) (batchBlocks : Nat) :
    List RtfsFileDirtyPageWriteOp → Nat
  | [] => batchBlocks
  | op :: ops =>
    if batchBlocks < rtfsFileWritebackBatchPages ∧
        op.blockIndex.toNat = first.blockIndex.toNat + batchBlocks ∧
        op.newLpa.toNat = first.newLpa.toNat + batchBlocks then
      batchLength first (batchBlocks + 1) ops
    else batchBlocks

theorem le_batchLength (first : RtfsFileDirtyPageWriteOp) (n : Nat)
    (ops : List RtfsFileDirtyPageWriteOp) : n ≤ batchLength first n ops := by
  induction ops generalizing n with
  | nil => exact le_rfl
  | cons op ops ih =>
    rw [batchLength]
    split
    · exact Nat.le_of_succ_le (ih (n + 1))
    · exact le_rfl

def CommDev.writeLbas (d : CommDev) (lba : Nat) (bs : List Block) : Except Errno CommDev :=
  if d.blockCount ≤ lba ∨ d.blockCount < lba + bs.length * lbaPerLpa then .error .einval
  else .ok (d.withBlocks (fun lpa => if lba / lbaPerLpa ≤ lpa then
    (bs[lpa - lba / lbaPerLpa]?).getD (d.blocks lpa) else d.blocks lpa))

def writeBatches (env : WriteBackEnv) (d : CommDev) (i : Nat) (ops : List RtfsFileDirtyPageWriteOp) :
    Option Errno × CommDev :=
  match ops with
  | [] => (none,d)
  | op :: rest =>
    let batchBlocks := batchLength op 1 rest
    if (List.range' i batchBlocks).all env.writes = false then (some .eio,d)
    else
      match d.writeLbas (lpaToLba op.newLpa) (((op :: rest).take batchBlocks).map (·.page)) with
      | .error e => (some e,d)
      | .ok d' => writeBatches env d' (i + batchBlocks) ((op :: rest).drop batchBlocks)
termination_by ops.length
decreasing_by
  have := le_batchLength op 1 rest
  simp only [List.length_drop,List.length_cons]
  omega

def rtfsFileInodeAppendPendingDataRelocation (grows : Bool) (p : PendingDataRelocations)
    (blockIndex oldLpa newLpa : UInt32) : Except Errno PendingDataRelocations :=
  let items := p.items ++ [⟨blockIndex,oldLpa,newLpa⟩]
  if newLpa = invalidLpa then .error .einval
  else if p.items.length < p.capacity then .ok ⟨items,p.capacity⟩
  else if grows then .ok ⟨items,if p.capacity = 0 then 8 else p.capacity * 2⟩
  else .error .enomem

def appendRelocations (env : WriteBackEnv) (i : Nat) (p : PendingDataRelocations) :
    List RtfsFileDirtyPageWriteOp → Option Errno × PendingDataRelocations
  | [] => (none,p)
  | op :: ops =>
    match rtfsFileInodeAppendPendingDataRelocation (env.grows i) p op.blockIndex op.oldLpa op.newLpa with
    | .error e => (some e,p)
    | .ok p' => appendRelocations env (i + 1) p' ops

def cleanupWrites (e : Errno) (ops : List RtfsFileDirtyPageWriteOp) (s : WriteBackState) :
    Option (Option Errno × WriteBackState) :=
  (sitInvalidateLpas s.fs (ops.map (·.newLpa))).map (fun m => (some e,{ s with fs := m }))

def rtfsFileInodeWriteDirtyPagesCow (env : WriteBackEnv) (s : WriteBackState) :
    Option (Option Errno × WriteBackState) :=
  if s.dirtyPages.nodes.length = 0 then some (none,s)
  else if env.opsAllocated = false then some (some .enomem,s)
  else
    match collectDirtyPages s.dirtyPages.nodes with
    | (ops,false) => cleanupWrites .einval ops s
    | (ops,true) =>
      match assignLpas s.fs ops with
      | none => none
      | some (lpas,false,m) => cleanupWrites .enospc (withLpas ops lpas) { s with fs := m }
      | some (lpas,true,m) =>
        if env.batchAllocated = false then
          cleanupWrites .enomem (withLpas ops lpas) { s with fs := m }
        else
          match writeBatches env s.dev 0 (withLpas ops lpas) with
          | (some e,d) => cleanupWrites e (withLpas ops lpas) { s with fs := m, dev := d }
          | (none,d) =>
            match appendRelocations env 0 s.pending (withLpas ops lpas) with
            | (some e,p) =>
              cleanupWrites e (withLpas ops lpas) { s with fs := m, dev := d, pending := p }
            | (none,p) => some (none,{ s with fs := m, dev := d, pending := p })

def dirtyPage (node : DirtyPagesNode) : Option (UInt32 × PageEntry) :=
  (node.entry.filter (·.isDirty)).map (fun pageEntry => (node.blkoff,pageEntry))

def DirtyPages.dirty (pages : DirtyPages) : List (UInt32 × PageEntry) := pages.nodes.filterMap dirtyPage

def writeOp (page : UInt32 × PageEntry) : RtfsFileDirtyPageWriteOp :=
  ⟨page.2.page,page.1,page.2.lpa,invalidLpa⟩

section Collect

theorem collect_ready {nodes : List DirtyPagesNode}
    (h : ∀ page ∈ nodes.filterMap dirtyPage, page.2.contentState = .pageReady) :
    collectDirtyPages nodes = ((nodes.filterMap dirtyPage).map writeOp,true) := by
  induction nodes with
  | nil => rfl
  | cons node nodes ih =>
    obtain ⟨blkoff,entry⟩ := node
    cases entry with
    | none => exact ih h
    | some pageEntry =>
      rw [collectDirtyPages]
      simp only
      cases hd : pageEntry.isDirty with
      | false =>
        have hskip : dirtyPage ⟨blkoff,some pageEntry⟩ = none := by simp [dirtyPage,hd]
        rw [List.filterMap_cons_none hskip] at h ⊢
        exact ih h
      | true =>
        have hkeep : dirtyPage ⟨blkoff,some pageEntry⟩ = some (blkoff,pageEntry) := by
          simp [dirtyPage,hd]
        rw [List.filterMap_cons_some hkeep] at h ⊢
        have hready : pageEntry.contentState = .pageReady := h _ List.mem_cons_self
        rw [if_neg (by decide),if_neg (not_not.mpr hready),
          ih (fun page hp => h page (List.mem_cons_of_mem _ hp))]
        rfl

theorem collect_unready {nodes : List DirtyPagesNode}
    (h : ¬ ∀ page ∈ nodes.filterMap dirtyPage, page.2.contentState = .pageReady) :
    ∃ ops, collectDirtyPages nodes = (ops,false) ∧ ∀ op ∈ ops, op.newLpa = invalidLpa := by
  induction nodes with
  | nil => exact absurd (fun page hp => absurd hp List.not_mem_nil) h
  | cons node nodes ih =>
    obtain ⟨blkoff,entry⟩ := node
    cases entry with
    | none => exact ih h
    | some pageEntry =>
      rw [collectDirtyPages]
      simp only
      cases hd : pageEntry.isDirty with
      | false =>
        have hskip : dirtyPage ⟨blkoff,some pageEntry⟩ = none := by simp [dirtyPage,hd]
        rw [List.filterMap_cons_none hskip] at h
        exact ih h
      | true =>
        have hkeep : dirtyPage ⟨blkoff,some pageEntry⟩ = some (blkoff,pageEntry) := by
          simp [dirtyPage,hd]
        rw [List.filterMap_cons_some hkeep] at h
        rw [if_neg (by decide)]
        by_cases hready : pageEntry.contentState = .pageReady
        · rw [if_neg (not_not.mpr hready)]
          obtain ⟨ops,hops,hnew⟩ := ih (fun hall => h (List.forall_mem_cons.mpr ⟨hready,hall⟩))
          rw [hops]
          exact ⟨_,rfl,List.forall_mem_cons.mpr ⟨rfl,hnew⟩⟩
        · rw [if_pos hready]
          exact ⟨[],rfl,fun op hop => absurd hop List.not_mem_nil⟩

end Collect

section Assign
variable {layout : RtfsMkfsLayout} {m : FsMeta} {lpas : List UInt32}

theorem length_lpaRange (lpa count : UInt32) : (lpaRange lpa count).length = count.toNat := by
  simp [lpaRange]

theorem allocRun_spec (h : LpaInv layout ⟨m,lpas⟩) (ha : layout.Areas)
    (hN : layout.segmentCount.toNat < 8388608) {n : Nat} (hn : n < 4294967296) :
    ∃ got m', allocRun m n = some (got,decide (n ≤ dataRoom m),m') ∧
      DataAlloc layout lpas m m' got ∧ got.length ≤ n ∧ (n ≤ dataRoom m → got.length = n) := by
  induction n using Nat.strong_induction_on generalizing m lpas with
  | _ n ih =>
    by_cases hz : n = 0
    · subst hz
      refine ⟨[],m,?_,.refl h,le_rfl,fun _ => rfl⟩
      rw [allocRun,if_pos rfl,decide_eq_true (Nat.zero_le _)]
    · have hto : (UInt32.ofNat n).toNat = n := by
        rw [UInt32.toNat_ofNat']
        omega
      have hr : UInt32.ofNat n ≠ 0 := by
        intro he
        rw [he] at hto
        exact hz hto.symm
      rcases allocDataLpaRange_room h ha hN hr with ⟨hroom,hfail⟩ | ⟨lpa,count,m₁,hok,hne,hpos,hle,hgot⟩
      · refine ⟨[],m,?_,.refl h,Nat.zero_le _,fun hfits => by omega⟩
        rw [allocRun,if_neg hz,hfail]
        simp only
        rw [if_pos (.inl trivial),decide_eq_false (by omega)]
      · obtain ⟨got,m₂,hrun,hgot',hlen,hall⟩ := ih (n - count.toNat) (by omega) hgot.inv (by omega)
        have hroom := hgot.room
        rw [length_lpaRange] at hroom
        refine ⟨lpaRange lpa count ++ got,m₂,?_,hgot.trans hgot',?_,fun hfits => ?_⟩
        · rw [allocRun,if_neg hz,hok]
          simp only
          rw [if_neg (not_or.mpr ⟨hne,by omega⟩),hrun]
          have hsame : (n - count.toNat ≤ dataRoom m₁) = (n ≤ dataRoom m) := by
            rw [eq_iff_iff]
            omega
          simp only [Option.map_some,hsame]
        · rw [List.length_append,length_lpaRange]
          omega
        · rw [List.length_append,length_lpaRange,hall (by omega)]
          omega

theorem runLength_le (ops : List RtfsFileDirtyPageWriteOp) : runLength ops ≤ ops.length := by
  induction ops with
  | nil => exact le_rfl
  | cons op ops ih =>
    cases ops with
    | nil => exact le_rfl
    | cons next ops =>
      rw [runLength]
      split
      · exact Nat.succ_le_succ ih
      · exact Nat.succ_le_succ (Nat.zero_le _)

theorem assignLpas_spec (h : LpaInv layout ⟨m,lpas⟩) (ha : layout.Areas)
    (hN : layout.segmentCount.toNat < 8388608) (ops : List RtfsFileDirtyPageWriteOp)
    (hn : ops.length < 4294967296) :
    ∃ got m', assignLpas m ops = some (got,decide (ops.length ≤ dataRoom m),m') ∧
      DataAlloc layout lpas m m' got ∧ got.length ≤ ops.length ∧
      (ops.length ≤ dataRoom m → got.length = ops.length) := by
  induction hk : ops.length using Nat.strong_induction_on generalizing m lpas ops with
  | _ k ih =>
    cases ops with
    | nil =>
      subst hk
      exact ⟨[],m,by simp [assignLpas],.refl h,le_rfl,fun _ => rfl⟩
    | cons op rest =>
      have hpos := runLength_pos op rest
      have hle := runLength_le (op :: rest)
      obtain ⟨got,m₁,hrun,hgot,hlen,hall⟩ := allocRun_spec h ha hN
        (n := runLength (op :: rest)) (by omega)
      by_cases hfits : runLength (op :: rest) ≤ dataRoom m
      · rw [decide_eq_true hfits] at hrun
        have hlen' := hall hfits
        have hdrop : ((op :: rest).drop (runLength (op :: rest))).length =
            k - runLength (op :: rest) := by rw [List.length_drop,hk]
        obtain ⟨got',m₂,hrest,hgot',hle',hall'⟩ := ih _ (by omega) hgot.inv
          ((op :: rest).drop (runLength (op :: rest))) (by omega) rfl
        have hroom := hgot.room
        rw [hdrop] at hrest hle' hall'
        refine ⟨got ++ got',m₂,?_,hgot.trans hgot',?_,fun hroomy => ?_⟩
        · rw [assignLpas,hrun]
          simp only
          rw [hrest]
          have hsame : (k - runLength (op :: rest) ≤ dataRoom m₁) = (k ≤ dataRoom m) := by
            rw [eq_iff_iff]
            omega
          simp only [Option.map_some,hsame]
        · rw [List.length_append]
          omega
        · rw [List.length_append,hall' (by omega)]
          omega
      · rw [decide_eq_false hfits] at hrun
        refine ⟨got,m₁,?_,hgot,by omega,fun hroomy => by omega⟩
        rw [assignLpas,hrun,decide_eq_false (by omega)]

end Assign

section Batches
variable {env : WriteBackEnv} {d : CommDev}

theorem batch_consecutive (first : RtfsFileDirtyPageWriteOp) (b : Nat)
    (ops : List RtfsFileDirtyPageWriteOp) : batchLength first b ops ≤ b + ops.length ∧
      ∀ op j, ops[j]? = some op → b + j < batchLength first b ops →
        op.newLpa.toNat = first.newLpa.toNat + (b + j) := by
  induction ops generalizing b with
  | nil => exact ⟨le_rfl,fun op j hj _ => by simp at hj⟩
  | cons op ops ih =>
    rw [batchLength]
    split
    · rename_i hnext
      obtain ⟨hle,hall⟩ := ih (b + 1)
      refine ⟨by rw [List.length_cons]; omega,fun op' j hj hlt => ?_⟩
      cases j with
      | zero =>
        cases hj
        exact hnext.2.2
      | succ j =>
        rw [List.getElem?_cons_succ] at hj
        rw [hall op' j hj (by omega)]
        omega
    · exact ⟨Nat.le_add_right _ _,fun op' j _ hlt => by omega⟩

theorem writeLbas_ok {lpa : Nat} {bs : List Block} (hne : bs ≠ []) (h : d.Holds (lpa + (bs.length - 1))) :
    d.writeLbas (lpa * lbaPerLpa) bs = .ok (d.withBlocks (fun x =>
      if lpa ≤ x then (bs[x - lpa]?).getD (d.blocks x) else d.blocks x)) := by
  have hpos := List.length_pos_of_ne_nil hne
  unfold CommDev.Holds lbaPerLpa at h
  rw [CommDev.writeLbas,if_neg (by unfold lbaPerLpa; omega),lbaPerLpa,Nat.mul_div_cancel _ (by decide)]

theorem writeBatch_ok {op : RtfsFileDirtyPageWriteOp} {rest : List RtfsFileDirtyPageWriteOp}
    (held : ∀ x ∈ op :: rest, d.Holds x.newLpa.toNat) : ∃ d',
    d.writeLbas (lpaToLba op.newLpa) (((op :: rest).take (batchLength op 1 rest)).map (·.page)) = .ok d' ∧
      d'.blockCount = d.blockCount ∧
      (∀ x ∈ (op :: rest).take (batchLength op 1 rest), d'.blocks x.newLpa.toNat = x.page) ∧
      ∀ lpa, (∀ x ∈ (op :: rest).take (batchLength op 1 rest), x.newLpa.toNat ≠ lpa) →
        d'.blocks lpa = d.blocks lpa := by
  obtain ⟨hle,hnext⟩ := batch_consecutive op 1 rest
  have hone := le_batchLength op 1 rest
  generalize batchLength op 1 rest = n at *
  have hat : ∀ (x : RtfsFileDirtyPageWriteOp) (j : Nat), ((op :: rest).take n)[j]? = some x →
      x.newLpa.toNat = op.newLpa.toNat + j := by
    intro x j hj
    rw [List.getElem?_take] at hj
    split at hj
    · cases j with
      | zero =>
        cases hj
        rfl
      | succ j =>
        rw [hnext x j hj (by omega),Nat.add_comm 1 j]
    · cases hj
  have hlen : ((op :: rest).take n).length = n := by
    rw [List.length_take,List.length_cons]
    omega
  have hlast : d.Holds (op.newLpa.toNat + ((((op :: rest).take n).map (·.page)).length - 1)) := by
    rw [List.length_map,hlen]
    have hsome : ((op :: rest).take n)[n - 1]? = some ((op :: rest).take n)[n - 1] :=
      List.getElem?_eq_getElem (by omega)
    rw [← hat _ _ hsome]
    exact held _ (List.mem_of_mem_take (List.getElem_mem _))
  have hnil : ((op :: rest).take n).map (·.page) ≠ [] := by
    intro he
    have := congrArg List.length he
    rw [List.length_map,hlen] at this
    exact absurd this (by simp; omega)
  have hlba := lpaToLba_eq (held op List.mem_cons_self).lt
  refine ⟨_,(congrArg (fun lba => d.writeLbas lba _) hlba).trans (writeLbas_ok hnil hlast),rfl,
    fun x hx => ?_,fun lpa hlpa => ?_⟩
  · obtain ⟨j,hj⟩ := List.mem_iff_getElem?.mp hx
    rw [CommDev.withBlocks_blocks,hat x j hj,if_pos (Nat.le_add_right _ _),Nat.add_sub_cancel_left,
      List.getElem?_map,hj]
    rfl
  · rw [CommDev.withBlocks_blocks]
    split
    · rename_i hge
      cases hj : ((op :: rest).take n)[lpa - op.newLpa.toNat]? with
      | none =>
        rw [List.getElem?_map,hj]
        rfl
      | some x =>
        have hx := hat x _ hj
        exact absurd (by omega) (hlpa x (List.mem_of_getElem? hj))
    · rfl

theorem writeBatches_spec {i : Nat} {ops : List RtfsFileDirtyPageWriteOp}
    (held : ∀ x ∈ ops, d.Holds x.newLpa.toNat) (nodup : (ops.map (·.newLpa)).Nodup) :
    ∃ r d', writeBatches env d i ops = (r,d') ∧
      (r = none ↔ ∀ k < ops.length, env.writes (i + k) = true) ∧
      (r = none → (∀ x ∈ ops, d'.blocks x.newLpa.toNat = x.page) ∧
        ∀ lpa, (∀ x ∈ ops, x.newLpa.toNat ≠ lpa) → d'.blocks lpa = d.blocks lpa) := by
  induction hk : ops.length using Nat.strong_induction_on generalizing d i ops with
  | _ k ih =>
    cases ops with
    | nil =>
      subst hk
      refine ⟨none,d,by rw [writeBatches],⟨fun _ j hj => absurd hj (Nat.not_lt_zero j),fun _ => rfl⟩,
        fun _ => ⟨fun x hx => absurd hx List.not_mem_nil,fun _ _ => rfl⟩⟩
    | cons op rest =>
      obtain ⟨d₁,hwrite,hcount,hpages,hsame⟩ := writeBatch_ok held
      have hone := le_batchLength op 1 rest
      have hle := (batch_consecutive op 1 rest).1
      have hlen : (op :: rest).length = rest.length + 1 := rfl
      have hbatch : (List.range' i (batchLength op 1 rest)).all env.writes = true ↔
          ∀ j < batchLength op 1 rest, env.writes (i + j) = true := by
        rw [List.all_eq_true]
        constructor
        · intro h j hj
          exact h _ (List.mem_range'_1.mpr ⟨by omega,by omega⟩)
        · intro h x hx
          rw [List.mem_range'_1] at hx
          have := h (x - i) (by omega)
          rwa [Nat.add_sub_cancel' hx.1] at this
      have hdrop : ((op :: rest).drop (batchLength op 1 rest)).length =
          k - batchLength op 1 rest := by rw [List.length_drop,hk]
      have hsplit := List.take_append_drop (batchLength op 1 rest) (op :: rest)
      have hnd := nodup
      rw [← hsplit,List.map_append,List.nodup_append] at hnd
      have hapart : ∀ x ∈ (op :: rest).take (batchLength op 1 rest),
          ∀ y ∈ (op :: rest).drop (batchLength op 1 rest), y.newLpa.toNat ≠ x.newLpa.toNat := by
        intro x hx y hy he
        exact hnd.2.2 _ (List.mem_map_of_mem hx) _ (List.mem_map_of_mem hy) (UInt32.toNat_inj.mp he).symm
      by_cases hall : (List.range' i (batchLength op 1 rest)).all env.writes = true
      · obtain ⟨r,d₂,hrest,hr,hdone⟩ := ih _ (by omega) (d := d₁) (i := i + batchLength op 1 rest)
          (fun x hx => by
            rw [CommDev.Holds,hcount]
            exact held x (List.mem_of_mem_drop hx)) hnd.2.1 hdrop
        refine ⟨r,d₂,?_,⟨fun he j hj => ?_,fun h => hr.mpr (fun j hj => ?_)⟩,fun he => ⟨fun x hx => ?_,
          fun lpa hlpa => ?_⟩⟩
        · rw [writeBatches,hall,if_neg (by decide),hwrite]
          exact hrest
        · by_cases hfirst : j < batchLength op 1 rest
          · exact hbatch.mp hall j hfirst
          · have := hr.mp he (j - batchLength op 1 rest) (by omega)
            rwa [Nat.add_assoc,Nat.add_sub_cancel' (by omega)] at this
        · rw [Nat.add_assoc]
          exact h _ (by omega)
        · obtain ⟨hpages',hsame'⟩ := hdone he
          rw [← hsplit] at hx
          rcases List.mem_append.mp hx with hx | hx
          · rw [hsame' _ (fun y hy => hapart x hx y hy),hpages x hx]
          · exact hpages' x hx
        · rw [(hdone he).2 lpa (fun x hx => hlpa x (List.mem_of_mem_drop hx)),
            hsame lpa (fun x hx => hlpa x (List.mem_of_mem_take hx))]
      · refine ⟨some .eio,d,?_,⟨nofun,fun h => ?_⟩,nofun⟩
        · rw [writeBatches,if_pos (Bool.not_eq_true _ ▸ hall)]
        · exact absurd (hbatch.mpr (fun j hj => h j (by omega))) hall

end Batches

def relocation (op : RtfsFileDirtyPageWriteOp) : RtfsFilePendingDataCowRelocation :=
  ⟨op.blockIndex,op.oldLpa,op.newLpa⟩

def Appends (env : WriteBackEnv) : Nat → Nat → Nat → Nat → Prop
  | _,_,_,0 => True
  | i,count,capacity,n + 1 =>
    if count < capacity then Appends env (i + 1) (count + 1) capacity n
    else env.grows i = true ∧ Appends env (i + 1) (count + 1) (if capacity = 0 then 8 else capacity * 2) n

section Append
variable {env : WriteBackEnv} {op : RtfsFileDirtyPageWriteOp} {ops : List RtfsFileDirtyPageWriteOp}

theorem append_ok {i : Nat} {p : PendingDataRelocations} (hz : op.newLpa ≠ invalidLpa)
    (h : Appends env i p.items.length p.capacity 1) : ∃ p',
    rtfsFileInodeAppendPendingDataRelocation (env.grows i) p op.blockIndex op.oldLpa op.newLpa = .ok p' ∧
      p'.items = p.items ++ [relocation op] ∧
      ∀ n, Appends env i p.items.length p.capacity (n + 1) ↔
        Appends env (i + 1) p'.items.length p'.capacity n := by
  unfold rtfsFileInodeAppendPendingDataRelocation
  rw [Appends] at h
  simp only [if_neg hz]
  split
  · rename_i hfits
    refine ⟨_,rfl,rfl,fun n => ?_⟩
    rw [Appends,if_pos hfits,List.length_append]
    rfl
  · rename_i hfull
    rw [if_neg hfull] at h
    rw [h.1,if_pos rfl]
    refine ⟨_,rfl,rfl,fun n => ?_⟩
    rw [Appends,if_neg hfull,List.length_append]
    exact and_iff_right h.1

theorem append_full {i : Nat} {p : PendingDataRelocations} (hz : op.newLpa ≠ invalidLpa)
    (h : ¬ Appends env i p.items.length p.capacity 1) :
    rtfsFileInodeAppendPendingDataRelocation (env.grows i) p op.blockIndex op.oldLpa op.newLpa =
      .error .enomem := by
  unfold rtfsFileInodeAppendPendingDataRelocation
  rw [Appends] at h
  simp only [if_neg hz]
  split
  · rename_i hfits
    rw [if_pos hfits] at h
    exact absurd trivial h
  · rename_i hfull
    rw [if_neg hfull] at h
    rw [if_neg (fun hg => h ⟨hg,trivial⟩)]

theorem appends_one {i count capacity n : Nat} (h : Appends env i count capacity (n + 1)) :
    Appends env i count capacity 1 := by
  unfold Appends at h ⊢
  split
  · exact trivial
  · rename_i hfull
    rw [if_neg hfull] at h
    exact ⟨h.1,trivial⟩

theorem appendRelocations_ok {i : Nat} {p : PendingDataRelocations}
    (hz : ∀ op ∈ ops, op.newLpa ≠ invalidLpa)
    (h : Appends env i p.items.length p.capacity ops.length) :
    ∃ p', appendRelocations env i p ops = (none,p') ∧ p'.items = p.items ++ ops.map relocation := by
  induction ops generalizing i p with
  | nil => exact ⟨p,rfl,(List.append_nil _).symm⟩
  | cons op ops ih =>
    obtain ⟨p₁,happ,hitems,hmore⟩ := append_ok (hz op List.mem_cons_self) (appends_one h)
    obtain ⟨p',hrun,hitems'⟩ := ih (fun x hx => hz x (List.mem_cons_of_mem _ hx)) ((hmore _).mp h)
    refine ⟨p',?_,?_⟩
    · rw [appendRelocations,happ]
      exact hrun
    · rw [hitems',hitems,List.append_assoc]
      rfl

theorem appendRelocations_full {i : Nat} {p : PendingDataRelocations} (hne : ops ≠ [])
    (hz : ∀ op ∈ ops, op.newLpa ≠ invalidLpa) (h : ¬ Appends env i p.items.length p.capacity 1) :
    appendRelocations env i p ops = (some .enomem,p) := by
  cases ops with
  | nil => exact absurd rfl hne
  | cons op ops => rw [appendRelocations,append_full (hz op List.mem_cons_self) h]

theorem appendRelocations_failed {i : Nat} {p : PendingDataRelocations}
    (hz : ∀ op ∈ ops, op.newLpa ≠ invalidLpa)
    (h : ¬ Appends env i p.items.length p.capacity ops.length) :
    ∃ p' done, appendRelocations env i p ops = (some .enomem,p') ∧ p'.items = p.items ++ done ∧
      (done ≠ [] ↔ Appends env i p.items.length p.capacity 1) := by
  induction ops generalizing i p with
  | nil => exact absurd trivial h
  | cons op ops ih =>
    by_cases hone : Appends env i p.items.length p.capacity 1
    · obtain ⟨p₁,happ,hitems,hmore⟩ := append_ok (hz op List.mem_cons_self) hone
      obtain ⟨p',done,hrun,hitems',_⟩ := ih (fun x hx => hz x (List.mem_cons_of_mem _ hx))
        (fun hall => h ((hmore _).mpr hall))
      refine ⟨p',relocation op :: done,?_,?_,fun _ => hone,fun _ => List.cons_ne_nil _ _⟩
      · rw [appendRelocations,happ]
        exact hrun
      · rw [hitems',hitems,List.append_assoc]
        rfl
    · exact ⟨p,[],appendRelocations_full (List.cons_ne_nil _ _) hz hone,(List.append_nil _).symm,
        fun h1 => absurd rfl h1,fun h1 => absurd h1 hone⟩

end Append

section Cleanup
variable {ops : List RtfsFileDirtyPageWriteOp} {m : FsMeta}

theorem invalidate_unassigned (h : ∀ op ∈ ops, op.newLpa = invalidLpa) :
    sitInvalidateLpas m (ops.map (·.newLpa)) = some m := by
  induction ops with
  | nil => rfl
  | cons op ops ih =>
    have hskip : sitInvalidateLpa m op.newLpa = some m := by
      rw [h op List.mem_cons_self]
      rfl
    rw [sitInvalidateLpas,List.map_cons,List.foldlM_cons,hskip]
    exact ih (fun x hx => h x (List.mem_cons_of_mem _ hx))

theorem invalidate_withLpas {lpas : List UInt32} (h : ∀ op ∈ ops, op.newLpa = invalidLpa)
    (hlen : lpas.length ≤ ops.length) :
    sitInvalidateLpas m ((withLpas ops lpas).map (·.newLpa)) = sitInvalidateLpas m lpas := by
  induction ops generalizing m lpas with
  | nil =>
    rw [List.length_eq_zero_iff.mp (Nat.le_zero.mp hlen)]
    rfl
  | cons op ops ih =>
    cases lpas with
    | nil => exact invalidate_unassigned h
    | cons lpa lpas =>
      rw [withLpas,List.map_cons,sitInvalidateLpas,List.foldlM_cons,sitInvalidateLpas,List.foldlM_cons]
      cases hlpa : sitInvalidateLpa m lpa with
      | none => rfl
      | some m₁ =>
        exact ih (fun x hx => h x (List.mem_cons_of_mem _ hx)) (Nat.le_of_succ_le_succ hlen)

theorem withLpas_writeOps {pages : List (UInt32 × PageEntry)} {lpas : List UInt32}
    (hlen : lpas.length = pages.length) : withLpas (pages.map writeOp) lpas =
      (pages.zip lpas).map (fun x => ⟨x.1.2.page,x.1.1,x.1.2.lpa,x.2⟩) := by
  induction pages generalizing lpas with
  | nil => rfl
  | cons page pages ih =>
    cases lpas with
    | nil => cases hlen
    | cons lpa lpas =>
      rw [List.map_cons,withLpas,ih (Nat.succ_injective hlen)]
      rfl

end Cleanup

structure RolledBack (s s' : WriteBackState) : Prop where
  bits : ∀ lpa, lpaBit s'.fs lpa = lpaBit s.fs lpa
  pending : s'.pending.items = s.pending.items
  dirty : s'.dirtyPages = s.dirtyPages

structure WrittenBack (s s' : WriteBackState) (lpas : List UInt32) : Prop where
  length : lpas.length = s.dirtyPages.dirty.length
  nodup : lpas.Nodup
  fresh : ∀ lpa ∈ lpas, lpa ≠ invalidLpa ∧ lpaBit s.fs lpa = false
  bits : ∀ lpa, lpaBit s'.fs lpa = if lpa ∈ lpas then true else lpaBit s.fs lpa
  stored : ∀ x ∈ s.dirtyPages.dirty.zip lpas, s'.dev.blocks x.2.toNat = x.1.2.page
  pending : s'.pending.items = s.pending.items ++
    (s.dirtyPages.dirty.zip lpas).map (fun x => ⟨x.1.1,x.1.2.lpa,x.2⟩)
  dirty : s'.dirtyPages = s.dirtyPages

def AllOrNothing (env : WriteBackEnv) (s : WriteBackState) : Prop :=
  ∃ r s', rtfsFileInodeWriteDirtyPagesCow env s = some (r,s') ∧ (r ≠ none → RolledBack s s') ∧
    (r = none → ∃ lpas, WrittenBack s s' lpas)

structure WriteBackReaches (env : WriteBackEnv) (s : WriteBackState) : Prop where
  ops : env.opsAllocated = true
  ready : ∀ page ∈ s.dirtyPages.dirty, page.2.contentState = .pageReady
  room : s.dirtyPages.dirty.length ≤ dataRoom s.fs
  batch : env.batchAllocated = true
  written : ∀ k < s.dirtyPages.dirty.length, env.writes k = true

section WriteBack
variable {env : WriteBackEnv} {s : WriteBackState} {layout : RtfsMkfsLayout} {m : FsMeta}

theorem RolledBack.refl : RolledBack s s := ⟨fun _ => rfl,rfl,rfl⟩

theorem cleanup_undone {got : List UInt32} {ops : List RtfsFileDirtyPageWriteOp} {e : Errno} {d : CommDev}
    (ha : layout.Areas) (hgot : DataAlloc layout [] s.fs m got) (hlen : got.length ≤ ops.length)
    (hnew : ∀ op ∈ ops, op.newLpa = invalidLpa) (p : PendingDataRelocations) : ∃ m',
    cleanupWrites e (withLpas ops got) { s with fs := m, dev := d, pending := p } =
      some (some e,{ s with fs := m', dev := d, pending := p }) ∧
      ∀ lpa, lpaBit m' lpa = lpaBit s.fs lpa := by
  obtain ⟨m',hundo,hbits⟩ := hgot.undone ha
  refine ⟨m',?_,hbits⟩
  rw [cleanupWrites,invalidate_withLpas hnew hlen]
  dsimp only
  rw [hundo]
  rfl

theorem writeOps_unassigned (pages : List (UInt32 × PageEntry)) :
    ∀ op ∈ pages.map writeOp, op.newLpa = invalidLpa := by
  intro op hop
  obtain ⟨page,_,rfl⟩ := List.mem_map.mp hop
  rfl

theorem writeOps_length (pages : DirtyPages) : (pages.dirty.map writeOp).length < 4294967296 := by
  have hle := List.length_filterMap_le dirtyPage pages.nodes
  have hlt := pages.count_lt
  rw [List.length_map]
  unfold DirtyPages.dirty
  omega

theorem DataAlloc.held {got : List UInt32} (h : DataAlloc layout [] s.fs m got) (ha : layout.Areas)
    (hdev : ∀ lpa < layout.blockCount, s.dev.Holds lpa) : ∀ lpa ∈ got, s.dev.Holds lpa.toNat := by
  intro lpa hlpa
  have hmain := (h.inv.main lpa hlpa).2
  have hdiv : (lpa / 512).toNat = lpa.toNat / 512 := UInt32.toNat_div lpa 512
  have hb := ha.blockCount
  exact hdev _ (by omega)

theorem withLpas_newLpa {pages : List (UInt32 × PageEntry)} {got : List UInt32}
    (hlen : got.length = pages.length) : (withLpas (pages.map writeOp) got).map (·.newLpa) = got := by
  rw [withLpas_writeOps hlen,List.map_map]
  exact List.map_snd_zip hlen.le

structure Submitted (env : WriteBackEnv) (layout : RtfsMkfsLayout) (s : WriteBackState)
    (got : List UInt32) (m : FsMeta) (r : Option Errno) (d : CommDev) : Prop where
  alloc : DataAlloc layout [] s.fs m got
  length : got.length = s.dirtyPages.dirty.length
  result : r = none ↔ ∀ k < s.dirtyPages.dirty.length, env.writes k = true
  stored : r = none → ∀ x ∈ s.dirtyPages.dirty.zip got, d.blocks x.2.toNat = x.1.2.page
  call : rtfsFileInodeWriteDirtyPagesCow env s =
    match r with
    | some e => cleanupWrites e (withLpas (s.dirtyPages.dirty.map writeOp) got) { s with fs := m, dev := d }
    | none =>
      match appendRelocations env 0 s.pending (withLpas (s.dirtyPages.dirty.map writeOp) got) with
      | (some e,p) => cleanupWrites e (withLpas (s.dirtyPages.dirty.map writeOp) got)
          { s with fs := m, dev := d, pending := p }
      | (none,p) => some (none,{ s with fs := m, dev := d, pending := p })

theorem writeBack_submitted (hinv : LpaInv layout ⟨s.fs,[]⟩) (ha : layout.Areas)
    (hN : layout.segmentCount.toNat < 8388608) (hdev : ∀ lpa < layout.blockCount, s.dev.Holds lpa)
    (hne : s.dirtyPages.nodes.length ≠ 0) (hops : env.opsAllocated = true)
    (hready : ∀ page ∈ s.dirtyPages.dirty, page.2.contentState = .pageReady)
    (hroom : s.dirtyPages.dirty.length ≤ dataRoom s.fs) (hbatch : env.batchAllocated = true) :
    ∃ got m r d, Submitted env layout s got m r d := by
  obtain ⟨got,m₁,hassign,hgot,_,hall⟩ := assignLpas_spec hinv ha hN
    (s.dirtyPages.dirty.map writeOp) (writeOps_length _)
  rw [List.length_map] at hassign hall
  rw [decide_eq_true hroom] at hassign
  have hlen := hall hroom
  have hlpas := withLpas_newLpa hlen
  have hnodup : ((withLpas (s.dirtyPages.dirty.map writeOp) got).map (·.newLpa)).Nodup := by
    rw [hlpas]
    exact hgot.inv.nodup
  have hheld : ∀ x ∈ withLpas (s.dirtyPages.dirty.map writeOp) got, s.dev.Holds x.newLpa.toNat := by
    intro x hx
    have hin : x.newLpa ∈ got := hlpas ▸ List.mem_map_of_mem hx
    exact hgot.held ha hdev _ hin
  have hwlen : (withLpas (s.dirtyPages.dirty.map writeOp) got).length = s.dirtyPages.dirty.length := by
    rw [← hlen,← congrArg List.length hlpas,List.length_map]
  obtain ⟨r,d,hwrite,hr,hstored⟩ := @writeBatches_spec env s.dev 0 _ hheld hnodup
  rw [hwlen] at hr
  simp only [Nat.zero_add] at hr
  have hcollect : collectDirtyPages s.dirtyPages.nodes = (s.dirtyPages.dirty.map writeOp,true) :=
    collect_ready hready
  refine ⟨got,m₁,r,d,hgot,hlen,hr,fun he x hx => ?_,?_⟩
  · have hpages := (hstored he).1
    rw [withLpas_writeOps hlen] at hpages
    exact hpages _ (List.mem_map_of_mem hx)
  · rw [rtfsFileInodeWriteDirtyPagesCow,if_neg hne,if_neg (by rw [hops]; decide),hcollect]
    simp only
    rw [hassign]
    simp only
    rw [if_neg (by rw [hbatch]; decide),hwrite]
    cases r <;> rfl

theorem stopped_rollsBack (hinv : LpaInv layout ⟨s.fs,[]⟩) (ha : layout.Areas)
    (hN : layout.segmentCount.toNat < 8388608) (hdev : ∀ lpa < layout.blockCount, s.dev.Holds lpa)
    (hne : s.dirtyPages.nodes.length ≠ 0) (hstop : ¬ WriteBackReaches env s) : ∃ e s',
    rtfsFileInodeWriteDirtyPagesCow env s = some (some e,s') ∧ RolledBack s s' := by
  have hnew := writeOps_unassigned s.dirtyPages.dirty
  by_cases hops : env.opsAllocated = true
  swap
  · rw [rtfsFileInodeWriteDirtyPagesCow,if_neg hne,if_pos (Bool.not_eq_true _ ▸ hops)]
    exact ⟨_,s,rfl,.refl⟩
  by_cases hready : ∀ page ∈ s.dirtyPages.dirty, page.2.contentState = .pageReady
  swap
  · obtain ⟨ops,hcollect,hzero⟩ := collect_unready hready
    rw [rtfsFileInodeWriteDirtyPagesCow,if_neg hne,if_neg (by rw [hops]; decide),hcollect]
    simp only
    rw [cleanupWrites,invalidate_unassigned hzero]
    exact ⟨_,_,rfl,.refl⟩
  by_cases hfit : s.dirtyPages.dirty.length ≤ dataRoom s.fs ∧ env.batchAllocated = true
  · obtain ⟨got,m₁,r,d,hsub⟩ := writeBack_submitted hinv ha hN hdev hne hops hready hfit.1 hfit.2
    cases r with
    | none => exact absurd ⟨hops,hready,hfit.1,hfit.2,hsub.result.mp rfl⟩ hstop
    | some e =>
      obtain ⟨m',hclean,hbits⟩ := cleanup_undone (e := e) (d := d) ha hsub.alloc
        (by rw [hsub.length,List.length_map]) hnew s.pending
      exact ⟨_,_,hsub.call.trans hclean,hbits,rfl,rfl⟩
  · obtain ⟨got,m₁,hassign,hgot,hle,_⟩ := assignLpas_spec hinv ha hN
      (s.dirtyPages.dirty.map writeOp) (writeOps_length _)
    have hcollect : collectDirtyPages s.dirtyPages.nodes = (s.dirtyPages.dirty.map writeOp,true) :=
      collect_ready hready
    rw [rtfsFileInodeWriteDirtyPagesCow,if_neg hne,if_neg (by rw [hops]; decide),hcollect]
    simp only
    rw [hassign,List.length_map]
    by_cases hroom : s.dirtyPages.dirty.length ≤ dataRoom s.fs
    · rw [decide_eq_true hroom]
      simp only
      rw [if_pos (Bool.not_eq_true _ ▸ fun hb => hfit ⟨hroom,hb⟩)]
      obtain ⟨m',hclean,hbits⟩ := @cleanup_undone s layout m₁ got _ .enomem s.dev ha hgot hle hnew s.pending
      exact ⟨_,_,hclean,hbits,rfl,rfl⟩
    · rw [decide_eq_false hroom]
      obtain ⟨m',hclean,hbits⟩ := @cleanup_undone s layout m₁ got _ .enospc s.dev ha hgot hle hnew s.pending
      exact ⟨_,_,hclean,hbits,rfl,rfl⟩

theorem Submitted.written {got : List UInt32} {d : CommDev} (h : Submitted env layout s got m none d)
    (ha : layout.Areas)
    (happ : Appends env 0 s.pending.items.length s.pending.capacity s.dirtyPages.dirty.length) :
    ∃ s', rtfsFileInodeWriteDirtyPagesCow env s = some (none,s') ∧ WrittenBack s s' got := by
  have hops := withLpas_writeOps h.length
  have hne : ∀ op ∈ withLpas (s.dirtyPages.dirty.map writeOp) got, op.newLpa ≠ invalidLpa := by
    intro op hop
    exact h.alloc.inv.ne_invalid ha _ (withLpas_newLpa h.length ▸ List.mem_map_of_mem hop)
  have hwlen : (withLpas (s.dirtyPages.dirty.map writeOp) got).length = s.dirtyPages.dirty.length := by
    rw [hops,List.length_map,List.length_zip,h.length,Nat.min_self]
  obtain ⟨p,hrun,hitems⟩ := appendRelocations_ok hne (hwlen.symm ▸ happ)
  have hcall := h.call
  rw [hrun] at hcall
  refine ⟨_,hcall,h.length,h.alloc.inv.nodup,fun lpa hl => ⟨h.alloc.inv.ne_invalid ha lpa hl,
    h.alloc.fresh lpa hl⟩,h.alloc.bits,h.stored rfl,?_,rfl⟩
  rw [hitems,hops,List.map_map]
  rfl

theorem Submitted.failed {got : List UInt32} {d : CommDev} (h : Submitted env layout s got m none d)
    (ha : layout.Areas)
    (happ : ¬ Appends env 0 s.pending.items.length s.pending.capacity s.dirtyPages.dirty.length) :
    ∃ s' done, rtfsFileInodeWriteDirtyPagesCow env s = some (some .enomem,s') ∧
      (∀ lpa, lpaBit s'.fs lpa = lpaBit s.fs lpa) ∧ s'.dirtyPages = s.dirtyPages ∧
      s'.pending.items = s.pending.items ++ done ∧
      (done ≠ [] ↔ Appends env 0 s.pending.items.length s.pending.capacity 1) := by
  have hne : ∀ op ∈ withLpas (s.dirtyPages.dirty.map writeOp) got, op.newLpa ≠ invalidLpa := by
    intro op hop
    exact h.alloc.inv.ne_invalid ha _ (withLpas_newLpa h.length ▸ List.mem_map_of_mem hop)
  have hwlen : (withLpas (s.dirtyPages.dirty.map writeOp) got).length = s.dirtyPages.dirty.length := by
    rw [withLpas_writeOps h.length,List.length_map,List.length_zip,h.length,Nat.min_self]
  obtain ⟨p,done,hrun,hitems,hdone⟩ := appendRelocations_failed hne (hwlen.symm ▸ happ)
  obtain ⟨m',hclean,hbits⟩ := cleanup_undone (e := .enomem) (d := d) ha h.alloc
    (by rw [h.length,List.length_map]) (writeOps_unassigned s.dirtyPages.dirty) p
  have hcall := h.call
  rw [hrun] at hcall
  exact ⟨_,done,hcall.trans hclean,hbits,rfl,hitems,hdone⟩

theorem LpaInv.forget {returned : List UInt32} (h : LpaInv layout ⟨m,returned⟩) : LpaInv layout ⟨m,[]⟩ := by
  obtain ⟨l,hchain,hlen,hfree⟩ := h.chain
  exact ⟨h.seg0,h.sitArea,⟨l,hchain,hlen,fun segId hs => ⟨(hfree segId hs).main,
      (hfree segId hs).notCurrent,(hfree segId hs).empty,fun lpa hl => absurd hl List.not_mem_nil⟩⟩,
    fun ctx => ⟨(h.current ctx).main,(h.current ctx).blkoff,(h.current ctx).empty,
      fun lpa hl => absurd hl List.not_mem_nil⟩,
    h.distinct,List.nodup_nil,fun lpa hl => absurd hl List.not_mem_nil⟩

end WriteBack

theorem image_writable {options : RtfsMkfsOptions} {layout : RtfsMkfsLayout} {image : FsMeta}
    {s : WriteBackState} {returned : List UInt32} (h : MkfsImage options layout image)
    (hrun : Relation.ReflTransGen LpaStep ⟨image,[]⟩ ⟨s.fs,returned⟩)
    (hdev : ∀ lpa < layout.blockCount, s.dev.Holds lpa) :
    layout.Areas ∧ layout.segmentCount.toNat < 8388608 ∧ LpaInv layout ⟨s.fs,[]⟩ := by
  have hsmall : layout.blockCount ≤ 4294967296 := by
    by_contra hc
    exact absurd (hdev 4294967295 (by omega)).lt (by decide)
  have ha := calculateLayout_areas h.calculated (.inl hsmall)
  have hN : layout.segmentCount.toNat < 8388608 := by
    have hb := ha.blockCount
    by_contra hc
    exact absurd (hdev 4294967295 (by omega)).lt (by decide)
  exact ⟨ha,hN,(lpaRun_inv ha hN (image_lpaInv h ha hN) hrun).forget⟩

theorem kept_appended {env : WriteBackEnv} {s : WriteBackState} {layout : RtfsMkfsLayout}
    (hinv : LpaInv layout ⟨s.fs,[]⟩) (ha : layout.Areas) (hN : layout.segmentCount.toNat < 8388608)
    (hdev : ∀ lpa < layout.blockCount, s.dev.Holds lpa) (hreach : WriteBackReaches env s)
    (hone : Appends env 0 s.pending.items.length s.pending.capacity 1)
    (happ : ¬ Appends env 0 s.pending.items.length s.pending.capacity s.dirtyPages.dirty.length) :
    ¬ AllOrNothing env s := by
  rintro ⟨r,s'',hcall',hback,_⟩
  have hne : s.dirtyPages.nodes.length ≠ 0 := by
    intro hz
    apply happ
    rw [DirtyPages.dirty,List.length_eq_zero_iff.mp hz]
    trivial
  obtain ⟨got,m,r,d,hsub⟩ := writeBack_submitted hinv ha hN hdev hne hreach.ops hreach.ready
    hreach.room hreach.batch
  cases hsub.result.mpr hreach.written
  obtain ⟨s',done,hcall,_,_,hitems,hdone⟩ := hsub.failed ha happ
  rw [hcall] at hcall'
  cases hcall'
  have hsame := (hback nofun).pending
  rw [hitems] at hsame
  exact hdone.mpr hone (List.append_right_eq_self.mp hsame)

theorem write_back_all_or_nothing_iff (env : WriteBackEnv) (s : WriteBackState)
    (options : RtfsMkfsOptions) (layout : RtfsMkfsLayout) (image : FsMeta) (returned : List UInt32)
    (h : MkfsImage options layout image)
    (hrun : Relation.ReflTransGen LpaStep ⟨image,[]⟩ ⟨s.fs,returned⟩)
    (hdev : ∀ lpa < layout.blockCount, s.dev.Holds lpa) :
    AllOrNothing env s ↔ (WriteBackReaches env s →
      Appends env 0 s.pending.items.length s.pending.capacity 1 →
      Appends env 0 s.pending.items.length s.pending.capacity s.dirtyPages.dirty.length) := by
  obtain ⟨ha,hN,hinv⟩ := image_writable h hrun hdev
  constructor
  · intro hall hreach hone
    by_contra happ
    exact kept_appended hinv ha hN hdev hreach hone happ hall
  intro himp
  by_cases hne : s.dirtyPages.nodes.length = 0
  · have hcall : rtfsFileInodeWriteDirtyPagesCow env s = some (none,s) := if_pos hne
    have hnil : s.dirtyPages.dirty = [] := by
      rw [DirtyPages.dirty,List.length_eq_zero_iff.mp hne]
      rfl
    refine ⟨none,s,hcall,fun hr => absurd rfl hr,fun _ => ⟨[],by rw [hnil]; rfl,List.nodup_nil,
      fun lpa hl => absurd hl List.not_mem_nil,fun _ => rfl,by simp,by simp,rfl⟩⟩
  by_cases hreach : WriteBackReaches env s
  · obtain ⟨got,m,r,d,hsub⟩ := writeBack_submitted hinv ha hN hdev hne hreach.ops hreach.ready
      hreach.room hreach.batch
    cases hsub.result.mpr hreach.written
    by_cases happ : Appends env 0 s.pending.items.length s.pending.capacity s.dirtyPages.dirty.length
    · obtain ⟨s',hcall,hdone⟩ := hsub.written ha happ
      exact ⟨none,s',hcall,fun hr => absurd rfl hr,fun _ => ⟨got,hdone⟩⟩
    · obtain ⟨s',done,hcall,hbits,hdirty,hitems,hdone⟩ := hsub.failed ha happ
      have hnil : done = [] := by
        by_contra hc
        exact happ (himp hreach (hdone.mp hc))
      exact ⟨_,s',hcall,fun _ => ⟨hbits,by rw [hitems,hnil,List.append_nil],hdirty⟩,nofun⟩
  · obtain ⟨e,s',hcall,hback⟩ := stopped_rollsBack hinv ha hN hdev hne hreach
    exact ⟨some e,s',hcall,fun _ => hback,nofun⟩

section Small

def readyPage (i : Nat) : DirtyPagesNode := ⟨UInt32.ofNat i,some ⟨0,.pageReady,Buf.zero,true⟩⟩

def ninePages : WriteBackState :=
  ⟨loadMeta smallDisk,smallDev (fun _ => Buf.zero),⟨(List.range 9).map readyPage,by decide,by decide⟩,⟨[],0⟩⟩

theorem room_small : 9 ≤ dataRoom (loadMeta smallDisk) := by
  have hoff : (loadMeta smallDisk).field LpaArea.data.segBlkoffOff = 0 :=
    image_field loadMeta_small (by decide) rfl
  rw [dataRoom,hoff]
  change 9 ≤ 512 - 0 + _
  omega

-- nine pages with every call served, and with the fifth write refused
theorem ninePages_all_or_nothing : AllOrNothing ⟨true,true,fun _ => true,fun _ => true⟩ ninePages ∧
    AllOrNothing ⟨true,true,fun k => k != 4,fun _ => true⟩ ninePages ∧
    ∃ e s', rtfsFileInodeWriteDirtyPagesCow ⟨true,true,fun k => k != 4,fun _ => true⟩ ninePages = some (some e,s') ∧
      RolledBack ninePages s' := by
  have hrefused : ¬ WriteBackReaches ⟨true,true,fun k => k != 4,fun _ => true⟩ ninePages := by
    intro hreach
    have hlen : ninePages.dirtyPages.dirty.length = 9 := rfl
    exact absurd (hreach.written 4 (by rw [hlen]; decide)) (by decide)
  obtain ⟨ha,hN,hinv⟩ := @image_writable _ _ _ ninePages [] loadMeta_small .refl (smallDev_holds _)
  refine ⟨?_,?_,stopped_rollsBack hinv ha hN (smallDev_holds _) (by decide) hrefused⟩
  · refine (write_back_all_or_nothing_iff _ ninePages smallOptions smallLayout _ [] loadMeta_small .refl
      (smallDev_holds _)).mpr (fun _ _ => ?_)
    have hlen : ninePages.dirtyPages.dirty.length = 9 := rfl
    rw [hlen]
    simp [Appends,ninePages]
  · exact (write_back_all_or_nothing_iff _ ninePages smallOptions smallLayout _ [] loadMeta_small .refl
      (smallDev_holds _)).mpr (fun hreach => absurd hreach hrefused)

theorem ninePages_kept : ¬ AllOrNothing ⟨true,true,fun _ => true,fun i => i != 8⟩ ninePages := by
  obtain ⟨ha,hN,hinv⟩ := @image_writable _ _ _ ninePages [] loadMeta_small .refl (smallDev_holds _)
  have hreach : WriteBackReaches ⟨true,true,fun _ => true,fun i => i != 8⟩ ninePages := by
    refine ⟨rfl,fun page hp => ?_,room_small,rfl,fun _ _ => rfl⟩
    obtain ⟨node,hnode,hpage⟩ := List.mem_filterMap.mp hp
    obtain ⟨i,_,rfl⟩ := List.mem_map.mp hnode
    cases hpage
    rfl
  refine kept_appended hinv ha hN (smallDev_holds _) hreach ?_ ?_
  · exact ⟨rfl,trivial⟩
  · intro h
    have hlen : ninePages.dirtyPages.dirty.length = 9 := rfl
    rw [hlen] at h
    simp [Appends,ninePages] at h

end Small

end Rtfs
