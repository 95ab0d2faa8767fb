import Rtfs.Inode.DirReparse
import Rtfs.Fs.ReclaimPlan

namespace Rtfs

namespace DirEntries

-- lpas is what superManagerAllocDataLpa answers, one LPA for each dirty block
def rtfsDirInodeWriteDirtyRegularBlocksCow : List UInt32 → List RtfsLoadedDirBlock →
    Except Errno Unit × List RtfsLoadedDirBlock
  | _,[] => (.ok (),[])
  | lpas,b :: bs =>
    if b.isDirty = false then
      let r := rtfsDirInodeWriteDirtyRegularBlocksCow lpas bs
      (r.1,b :: r.2)
    else
      match lpas with
      | [] => (.error .enospc,b :: bs)
      | newLpa :: lpas =>
        if newLpa = invalidLpa then (.error .enospc,b :: bs)
        else
          let r := rtfsDirInodeWriteDirtyRegularBlocksCow lpas bs
          (r.1,{ b with cowNewLpa := newLpa, hasPendingCowRelocation := true } :: r.2)

def rtfsDirInodeWritebackContentCow (lpas : List UInt32) (d : RtfsDirInode) :
    Except Errno Unit × RtfsDirInode :=
  let r := rtfsDirInodeWriteDirtyRegularBlocksCow lpas d.loadedBlocks
  (r.1,{ d with loadedBlocks := r.2 })

def collectPending (maxCount : Nat) : List UInt32 → List RtfsLoadedDirBlock → Except Errno (List UInt32)
  | outArray,[] => .ok outArray
  | outArray,b :: bs =>
    if b.hasPendingCowRelocation = false ∨ b.cowNewLpa = invalidLpa ∨ b.lpa = invalidLpa then
      collectPending maxCount outArray bs
    else if maxCount ≤ outArray.length then .error .enospc
    else collectPending maxCount (outArray ++ [b.lpa]) bs

def rtfsDirInodeCollectPendingDataCowOldLpas (d : RtfsDirInode) (maxCount : Nat) :
    Except Errno (List UInt32) := collectPending maxCount [] d.loadedBlocks

structure ArrayAnswers where
  malloc : Bool
  realloc : Nat → Bool

def ArrayAnswers.granted : ArrayAnswers := ⟨true,fun _ => true⟩

def rtfsCollectDirPendingOldDataLpasAppend (answers : ArrayAnswers) (d : RtfsDirInode) (dst : GrowArray UInt32) :
    Except Errno (GrowArray UInt32) :=
  if d.loadedBlockCount = 0 then .ok dst
  else if answers.malloc = false then .error .enomem
  else (rtfsDirInodeCollectPendingDataCowOldLpas d d.loadedBlockCount).bind (fun scratch =>
    rtfsAppendUniqueLpasToArray answers.realloc scratch dst)

-- rtfsDirInodeCommitCowWritebackWithTxId up to the old LPAs it collects
def singleDirOldDataLpas (malloc : Bool) (lpas : List UInt32) (d : RtfsDirInode) : Except Errno (List UInt32) :=
  match rtfsDirInodeWritebackContentCow lpas d with
  | (.error e,_) => .error e
  | (.ok (),d) =>
    if 0 < d.loadedBlocks.length then
      if malloc = false then .error .enomem
      else rtfsDirInodeCollectPendingDataCowOldLpas d d.loadedBlocks.length
    else .ok []

-- rtfsCommitDirtyDirsAndNodesWithTxId up to the old LPAs it collects
def twoDirOldDataLpas (firstAnswers secondAnswers : ArrayAnswers) (firstLpas secondLpas : List UInt32)
    (firstDir secondDir : RtfsDirInode) : Except Errno (List UInt32) :=
  match rtfsDirInodeWritebackContentCow firstLpas firstDir with
  | (.error e,_) => .error e
  | (.ok (),firstDir) =>
    (rtfsCollectDirPendingOldDataLpasAppend firstAnswers firstDir .empty).bind (fun oldData =>
      match rtfsDirInodeWritebackContentCow secondLpas secondDir with
      | (.error e,_) => .error e
      | (.ok (),secondDir) =>
        (rtfsCollectDirPendingOldDataLpasAppend secondAnswers secondDir oldData).map GrowArray.items)

def dirtyLpas (d : RtfsDirInode) : List UInt32 :=
  (d.loadedBlocks.filter RtfsLoadedDirBlock.isDirty).map RtfsLoadedDirBlock.lpa

def BlockBacked (b : RtfsLoadedDirBlock) : Prop :=
  b.lpa ≠ invalidLpa ∧ (b.hasPendingCowRelocation = true → b.isDirty = true)

def Backed (d : RtfsDirInode) : Prop := ∀ b ∈ d.loadedBlocks, BlockBacked b

def FitsScratch (d : RtfsDirInode) : Prop :=
  (dirtyLpas d).length ≤ d.loadedBlockCount ∧ ∀ lpa ∈ dirtyLpas d, lpa < 0x80000000

def Pending (b : RtfsLoadedDirBlock) : Prop :=
  b.hasPendingCowRelocation = true ∧ b.cowNewLpa ≠ invalidLpa ∧ b.lpa ≠ invalidLpa

instance (b : RtfsLoadedDirBlock) : Decidable (Pending b) :=
  inferInstanceAs (Decidable (b.hasPendingCowRelocation = true ∧ b.cowNewLpa ≠ invalidLpa ∧ b.lpa ≠ invalidLpa))

def pendingLpas (bs : List RtfsLoadedDirBlock) : List UInt32 :=
  (bs.filter (fun b => decide (Pending b))).map RtfsLoadedDirBlock.lpa

section Collect
variable {d d' : RtfsDirInode} {b : RtfsLoadedDirBlock} {bs bs' : List RtfsLoadedDirBlock} {lpas : List UInt32}
  {maxCount : Nat}

theorem pendingLpas_pos (h : Pending b) (bs : List RtfsLoadedDirBlock) :
    pendingLpas (b :: bs) = b.lpa :: pendingLpas bs := by
  unfold pendingLpas
  rw [List.filter_cons_of_pos (by exact decide_eq_true h),List.map_cons]

theorem pendingLpas_neg (h : ¬ Pending b) (bs : List RtfsLoadedDirBlock) :
    pendingLpas (b :: bs) = pendingLpas bs := by
  unfold pendingLpas
  rw [List.filter_cons_of_neg (by simpa using h)]

theorem skipped_iff : (b.hasPendingCowRelocation = false ∨ b.cowNewLpa = invalidLpa ∨ b.lpa = invalidLpa) ↔
    ¬ Pending b := by
  unfold Pending
  rw [not_and_or,not_and_or,not_not,not_not,Bool.not_eq_true]

theorem collectPending_fits {out : List UInt32} (h : out.length + (pendingLpas bs).length ≤ maxCount) :
    collectPending maxCount out bs = .ok (out ++ pendingLpas bs) := by
  induction bs generalizing out with
  | nil =>
    rw [collectPending]
    exact congrArg Except.ok (List.append_nil out).symm
  | cons b bs ih =>
    rw [collectPending]
    by_cases hp : Pending b
    · rw [pendingLpas_pos hp,List.length_cons] at h
      rw [if_neg (fun hs => skipped_iff.mp hs hp),if_neg (by omega),pendingLpas_pos hp,ih,List.append_assoc]
      · rfl
      · rw [List.length_append,List.length_singleton]
        omega
    · rw [pendingLpas_neg hp] at h
      rw [if_pos (skipped_iff.mpr hp),pendingLpas_neg hp,ih h]

theorem collectPending_full {out : List UInt32} (hout : out.length ≤ maxCount)
    (h : maxCount < out.length + (pendingLpas bs).length) :
    collectPending maxCount out bs = .error .enospc := by
  induction bs generalizing out with
  | nil => exact absurd h (Nat.not_lt.mpr hout)
  | cons b bs ih =>
    rw [collectPending]
    by_cases hp : Pending b
    · rw [pendingLpas_pos hp,List.length_cons] at h
      rw [if_neg (fun hs => skipped_iff.mp hs hp)]
      by_cases hfull : maxCount ≤ out.length
      · rw [if_pos hfull]
      · rw [if_neg hfull,ih]
        · rw [List.length_append,List.length_singleton]
          omega
        · rw [List.length_append,List.length_singleton]
          omega
    · rw [pendingLpas_neg hp] at h
      rw [if_pos (skipped_iff.mpr hp),ih hout h]

theorem writeDirty_pending (hb : ∀ b ∈ bs, BlockBacked b)
    (h : rtfsDirInodeWriteDirtyRegularBlocksCow lpas bs = (.ok (),bs')) :
    pendingLpas bs' = (bs.filter RtfsLoadedDirBlock.isDirty).map RtfsLoadedDirBlock.lpa ∧
      bs'.length = bs.length := by
  induction bs generalizing lpas bs' with
  | nil =>
    cases h
    exact ⟨rfl,rfl⟩
  | cons b bs ih =>
    have hrest : ∀ b ∈ bs, BlockBacked b := fun c hc => hb c (List.mem_cons_of_mem _ hc)
    obtain ⟨hlpa,hpend⟩ := hb b List.mem_cons_self
    unfold rtfsDirInodeWriteDirtyRegularBlocksCow at h
    by_cases hd : b.isDirty = false
    · rw [if_pos hd] at h
      obtain ⟨hok,rfl⟩ := Prod.mk.inj h
      obtain ⟨hp,hlen⟩ := ih hrest (Prod.ext hok rfl)
      have hnot : ¬ Pending b := fun hp => by
        rw [hpend hp.1] at hd
        cases hd
      rw [pendingLpas_neg hnot,hp,List.filter_cons_of_neg (by rw [hd]; decide),List.length_cons,hlen]
      exact ⟨rfl,rfl⟩
    · rw [if_neg hd] at h
      cases lpas with
      | nil => cases h
      | cons newLpa lpas =>
        simp only at h
        by_cases hz : newLpa = invalidLpa
        · rw [if_pos hz] at h
          cases h
        · rw [if_neg hz] at h
          obtain ⟨hok,rfl⟩ := Prod.mk.inj h
          obtain ⟨hp,hlen⟩ := ih hrest (Prod.ext hok rfl)
          have hnew : Pending { b with cowNewLpa := newLpa, hasPendingCowRelocation := true } := ⟨rfl,hz,hlpa⟩
          rw [pendingLpas_pos hnew,hp,List.filter_cons_of_pos (by simpa using hd),List.length_cons,hlen]
          exact ⟨rfl,rfl⟩

theorem writeback_pending (hb : Backed d) (h : rtfsDirInodeWritebackContentCow lpas d = (.ok (),d')) :
    pendingLpas d'.loadedBlocks = dirtyLpas d ∧ d'.loadedBlockCount = d.loadedBlockCount ∧
      d'.loadedBlocks.length = d.loadedBlocks.length := by
  obtain ⟨hok,rfl⟩ := Prod.mk.inj h
  obtain ⟨hp,hlen⟩ := writeDirty_pending hb (Prod.ext hok rfl)
  exact ⟨hp,rfl,hlen⟩

theorem dirtyLpas_length (d : RtfsDirInode) : (dirtyLpas d).length ≤ d.loadedBlocks.length := by
  unfold dirtyLpas
  rw [List.length_map]
  exact List.length_filter_le _ _

end Collect

section Commit
variable {d first second : RtfsDirInode} {lpas firstLpas secondLpas : List UInt32}

theorem singleDir_collects (hb : Backed d) (hw : (rtfsDirInodeWritebackContentCow lpas d).1 = .ok ()) :
    singleDirOldDataLpas true lpas d = .ok (dirtyLpas d) := by
  obtain ⟨d',hd'⟩ : ∃ d', rtfsDirInodeWritebackContentCow lpas d = (.ok (),d') := ⟨_,Prod.ext hw rfl⟩
  obtain ⟨hp,-,hlen⟩ := writeback_pending hb hd'
  have hle := dirtyLpas_length d
  unfold singleDirOldDataLpas rtfsDirInodeCollectPendingDataCowOldLpas
  rw [hd']
  simp only
  split
  · rw [if_neg (by decide),collectPending_fits (by rw [hp,hlen,List.length_nil,Nat.zero_add]; exact hle),hp]
    rfl
  · have hnil : dirtyLpas d = [] := List.eq_nil_of_length_eq_zero (by omega)
    rw [hnil]

theorem collectAppend_cases {d' : RtfsDirInode} (hb : Backed d)
    (hw : rtfsDirInodeWritebackContentCow lpas d = (.ok (),d')) (dst : GrowArray UInt32) :
    (d.loadedBlockCount = 0 ∧ rtfsCollectDirPendingOldDataLpasAppend .granted d' dst = .ok dst) ∨
    (d.loadedBlockCount < (dirtyLpas d).length ∧
      rtfsCollectDirPendingOldDataLpasAppend .granted d' dst = .error .enospc) ∨
    ((dirtyLpas d).length ≤ d.loadedBlockCount ∧
      ∃ dst', rtfsCollectDirPendingOldDataLpasAppend .granted d' dst = .ok dst' ∧
        dst'.items = ((dirtyLpas d).filter (fun v => decide (Appendable v))).foldl GrowArray.addNew dst.items) := by
  obtain ⟨hp,hcount,-⟩ := writeback_pending hb hw
  unfold rtfsCollectDirPendingOldDataLpasAppend rtfsDirInodeCollectPendingDataCowOldLpas
  rw [hcount]
  by_cases hz : d.loadedBlockCount = 0
  · exact Or.inl ⟨hz,if_pos hz⟩
  right
  rw [if_neg hz,if_neg (by decide)]
  by_cases hfit : (dirtyLpas d).length ≤ d.loadedBlockCount
  · right
    rw [collectPending_fits (by rw [hp,List.length_nil,Nat.zero_add]; exact hfit),hp]
    obtain ⟨dst',hdst'⟩ := appendLpas_granted (fun _ => rfl) (dirtyLpas d) dst
    exact ⟨hfit,dst',hdst',appendLpas_items hdst'⟩
  · left
    rw [collectPending_full (Nat.zero_le _) (by rw [hp,List.length_nil,Nat.zero_add]; omega)]
    exact ⟨by omega,rfl⟩

structure CollectsOldLpas (r : Except Errno (List UInt32)) (first second : RtfsDirInode) : Prop where
  collected : ∃ lpas, r = .ok lpas ∧ lpas.Nodup ∧ ∀ lpa, lpa ∈ lpas ↔ lpa ∈ dirtyLpas first ∨ lpa ∈ dirtyLpas second

theorem twoDir_eq {firstAnswers secondAnswers : ArrayAnswers} {first' second' : RtfsDirInode}
    (h₁ : rtfsDirInodeWritebackContentCow firstLpas first = (.ok (),first'))
    (h₂ : rtfsDirInodeWritebackContentCow secondLpas second = (.ok (),second')) :
    twoDirOldDataLpas firstAnswers secondAnswers firstLpas secondLpas first second =
      (rtfsCollectDirPendingOldDataLpasAppend firstAnswers first' .empty).bind (fun oldData =>
        (rtfsCollectDirPendingOldDataLpasAppend secondAnswers second' oldData).map GrowArray.items) := by
  unfold twoDirOldDataLpas
  rw [h₁,h₂]

theorem twoDir_collects (hb₁ : Backed first) (hb₂ : Backed second)
    (hw₁ : (rtfsDirInodeWritebackContentCow firstLpas first).1 = .ok ())
    (hw₂ : (rtfsDirInodeWritebackContentCow secondLpas second).1 = .ok ())
    (hf₁ : FitsScratch first) (hf₂ : FitsScratch second) :
    CollectsOldLpas (twoDirOldDataLpas .granted .granted firstLpas secondLpas first second) first second := by
  have hshare {d d' : RtfsDirInode} {lpas : List UInt32} (hb : Backed d) (hf : FitsScratch d)
      (hw : rtfsDirInodeWritebackContentCow lpas d = (.ok (),d')) (dst : GrowArray UInt32) :
      ∃ dst', rtfsCollectDirPendingOldDataLpasAppend .granted d' dst = .ok dst' ∧
        dst'.items = (dirtyLpas d).foldl GrowArray.addNew dst.items := by
    rcases collectAppend_cases hb hw dst with ⟨hz,hok⟩ | ⟨hlt,-⟩ | ⟨-,dst',hok,hitems⟩
    · have hnil : dirtyLpas d = [] := List.eq_nil_of_length_eq_zero (Nat.le_zero.mp (hz ▸ hf.1))
      exact ⟨dst,hok,by rw [hnil]; rfl⟩
    · exact absurd hf.1 (Nat.not_le.mpr hlt)
    · refine ⟨dst',hok,?_⟩
      have hall : (dirtyLpas d).filter (fun v => decide (Appendable v)) = dirtyLpas d := by
        refine List.filter_eq_self.mpr (fun lpa hlpa => decide_eq_true ⟨?_,hf.2 lpa hlpa⟩)
        obtain ⟨b,hin,rfl⟩ := List.mem_map.mp hlpa
        exact (hb b (List.mem_of_mem_filter hin)).1
      rw [hitems,hall]
  obtain ⟨dst₁,hok₁,hitems₁⟩ := hshare hb₁ hf₁ (Prod.ext hw₁ rfl) .empty
  obtain ⟨dst₂,hok₂,hitems₂⟩ := hshare hb₂ hf₂ (Prod.ext hw₂ rfl) dst₁
  refine ⟨⟨dst₂.items,?_,?_,fun lpa => ?_⟩⟩
  · rw [twoDir_eq (Prod.ext hw₁ rfl) (Prod.ext hw₂ rfl),hok₁]
    change (rtfsCollectDirPendingOldDataLpasAppend .granted _ dst₁).map _ = _
    rw [hok₂]
    rfl
  · rw [hitems₂,hitems₁]
    exact GrowArray.nodup_foldl_addNew (GrowArray.nodup_foldl_addNew List.nodup_nil _) _
  · rw [hitems₂,hitems₁,GrowArray.mem_foldl_addNew,GrowArray.mem_foldl_addNew]
    exact or_congr_left (or_iff_right List.not_mem_nil)

structure Shared (d : RtfsDirInode) (dst dst' : List UInt32) : Prop where
  skipped : d.loadedBlockCount = 0 → dst' = dst
  room : d.loadedBlockCount ≠ 0 → (dirtyLpas d).length ≤ d.loadedBlockCount
  source : ∀ lpa ∈ dst', lpa ∈ dst ∨ lpa ∈ dirtyLpas d
  bound : ∀ lpa ∈ dst', lpa ∈ dst ∨ lpa < 0x80000000

theorem collectAppend_shared {d' : RtfsDirInode} {dst dst' : GrowArray UInt32} (hb : Backed d)
    (hw : rtfsDirInodeWritebackContentCow lpas d = (.ok (),d'))
    (h : rtfsCollectDirPendingOldDataLpasAppend .granted d' dst = .ok dst') : Shared d dst.items dst'.items := by
  rcases collectAppend_cases hb hw dst with ⟨hz,hok⟩ | ⟨-,hfull⟩ | ⟨hle,dst₁,hok,hitems⟩
  · rw [hok] at h
    cases h
    exact ⟨fun _ => rfl,fun hne => absurd hz hne,fun lpa => Or.inl,fun lpa => Or.inl⟩
  · rw [hfull] at h
    cases h
  · rw [hok] at h
    cases h
    have hmem (lpa : UInt32) (hlpa : lpa ∈ dst'.items) : lpa ∈ dst.items ∨ lpa ∈ dirtyLpas d ∧ Appendable lpa := by
      rw [hitems,GrowArray.mem_foldl_addNew,List.mem_filter] at hlpa
      exact hlpa.imp_right (fun hf => ⟨hf.1,of_decide_eq_true hf.2⟩)
    refine ⟨fun hz => ?_,fun _ => hle,fun lpa hlpa => (hmem lpa hlpa).imp_right And.left,
      fun lpa hlpa => (hmem lpa hlpa).imp_right (fun h => h.2.2)⟩
    have hnil : dirtyLpas d = [] := List.eq_nil_of_length_eq_zero (Nat.le_zero.mp (hz ▸ hle))
    rw [hitems,hnil]
    rfl

theorem fits_of_collects (hb₁ : Backed first) (hb₂ : Backed second)
    (hw₁ : (rtfsDirInodeWritebackContentCow firstLpas first).1 = .ok ())
    (hw₂ : (rtfsDirInodeWritebackContentCow secondLpas second).1 = .ok ())
    (hapart : (dirtyLpas first).Disjoint (dirtyLpas second))
    (h : CollectsOldLpas (twoDirOldDataLpas .granted .granted firstLpas secondLpas first second) first second) :
    FitsScratch first ∧ FitsScratch second := by
  obtain ⟨lpas,hok,-,hmem⟩ := h.collected
  rw [twoDir_eq (Prod.ext hw₁ rfl) (Prod.ext hw₂ rfl)] at hok
  obtain ⟨dst₁,hok₁,hrest⟩ := Except.bind_ok hok
  obtain ⟨dst₂,hok₂,rfl⟩ := Except.map_ok hrest
  have hs₁ := collectAppend_shared hb₁ (Prod.ext hw₁ rfl) hok₁
  have hs₂ := collectAppend_shared hb₂ (Prod.ext hw₂ rfl) hok₂
  have hbound : ∀ lpa ∈ dst₂.items, lpa < 0x80000000 := fun lpa hlpa =>
    (hs₂.bound lpa hlpa).elim (fun hin => (hs₁.bound lpa hin).elim nofun id) id
  have hlen {d : RtfsDirInode} {dst dst' : List UInt32} (hs : Shared d dst dst')
      (hnone : d.loadedBlockCount = 0 → dirtyLpas d = []) : (dirtyLpas d).length ≤ d.loadedBlockCount := by
    by_cases hz : d.loadedBlockCount = 0
    · rw [hnone hz]
      exact Nat.zero_le _
    · exact hs.room hz
  refine ⟨⟨hlen hs₁ (fun hz => ?_),fun lpa hlpa => hbound lpa ((hmem lpa).mpr (Or.inl hlpa))⟩,
    ⟨hlen hs₂ (fun hz => ?_),fun lpa hlpa => hbound lpa ((hmem lpa).mpr (Or.inr hlpa))⟩⟩
  · -- a skipped first directory leaves its LPAs to the second one, which has others
    refine List.eq_nil_iff_forall_not_mem.mpr (fun lpa hlpa => ?_)
    rcases hs₂.source lpa ((hmem lpa).mpr (Or.inl hlpa)) with hin | hin
    · rw [hs₁.skipped hz] at hin
      exact List.not_mem_nil hin
    · exact hapart hlpa hin
  · refine List.eq_nil_iff_forall_not_mem.mpr (fun lpa hlpa => ?_)
    have hin := (hmem lpa).mpr (Or.inr hlpa)
    rw [hs₂.skipped hz] at hin
    rcases hs₁.source lpa hin with hnil | hin
    · exact List.not_mem_nil hnil
    · exact hapart hin hlpa

end Commit

section Run
variable {d d' : RtfsDirInode} {name : List UInt8} {ino : UInt64} {fileType : UInt8}

def GrantsLpas (growths : List GrowAnswer) : Prop := ∀ a ∈ growths, a.newLpa ≠ some invalidLpa

def DirOp.GrantsLpas : DirOp → Prop
  | .add _ _ _ answers => DirEntries.GrantsLpas answers.growths
  | .remove _ => True

theorem Backed.of_loaded (h : Backed d) (he : d'.loadedBlocks = d.loadedBlocks) : Backed d' := by
  unfold Backed
  rw [he]
  exact h

theorem Backed.modify (h : Backed d) {k : Nat} {f : RtfsLoadedDirBlock → RtfsLoadedDirBlock}
    (he : d'.loadedBlocks = d.loadedBlocks.modify k f) (hf : ∀ b, BlockBacked b → BlockBacked (f b)) : Backed d' := by
  intro b hb
  rw [he] at hb
  obtain ⟨j,y,hy,rfl⟩ := mem_modify hb
  have hback := h y (List.mem_of_getElem? hy)
  split
  · exact hf y hback
  · exact hback

theorem Backed.setBlock (h : Backed d) (k : Nat) (f : RtfsDentryBlock → RtfsDentryBlock) : Backed (setBlock d k f) :=
  h.modify rfl (fun _ hb => hb)

theorem Backed.attach (h : Backed d) {answer : GrowAnswer} (ha : answer.newLpa ≠ some invalidLpa) :
    Backed (attachBlock d answer).2 := by
  unfold attachBlock
  split
  · exact h
  · split
    · exact h
    · rename_i newLpa hlpa
      simp only
      split
      · exact h
      · rename_i grown hrem
        unfold rtfsDirInodeRememberLoadedBlock at hrem
        split at hrem
        · cases hrem
          exact h
        · split at hrem
          · cases hrem
          · cases hrem
            intro b hb
            rcases List.mem_append.mp hb with hb | hb
            · exact h b hb
            · rw [List.mem_singleton] at hb
              subst hb
              refine ⟨fun hz => ha ?_,nofun⟩
              rw [hlpa]
              exact congrArg some hz

theorem Backed.place (h : Backed d) (k start : Nat) (realloc : Bool) :
    Backed (placeRegular d k start name ino fileType realloc).2 := by
  unfold placeRegular
  simp only
  split
  · exact (h.setBlock k _).setBlock k _
  · rename_i added hadd
    have hloaded := (addInternal_loaded hadd).2.2
    exact ((h.setBlock k _).of_loaded hloaded).modify rfl (fun _ hb => ⟨hb.1,fun _ => rfl⟩)

theorem Backed.addInLoaded (h : Backed d) {realloc : Bool} {r : Except Errno Unit × RtfsDirInode}
    (hr : addInLoaded d name ino fileType realloc = some r) : Backed r.2 := by
  unfold Rtfs.DirEntries.addInLoaded at hr
  split at hr
  · cases hr
    exact h
  · split at hr
    · cases hr
      exact h
    · obtain ⟨room,-,rfl⟩ := Option.map_eq_some_iff.mp hr
      exact h.place room.1 room.2 realloc

theorem Backed.addRegular (h : Backed d) (realloc : Bool) {growths : List GrowAnswer} (hg : GrantsLpas growths) :
    Backed (rtfsDirInodeAddRegularBacking d name ino fileType realloc growths).2 := by
  induction growths generalizing d with
  | nil =>
    unfold rtfsDirInodeAddRegularBacking
    cases hr : Rtfs.DirEntries.addInLoaded d name ino fileType realloc with
    | none => exact h
    | some r => exact h.addInLoaded hr
  | cons answer growths ih =>
    unfold rtfsDirInodeAddRegularBacking
    split
    · rename_i r hr
      exact h.addInLoaded hr
    · have hatt := h.attach (hg answer List.mem_cons_self)
      split
      · rename_i hfail
        rw [hfail] at hatt
        exact hatt
      · rename_i d₁ hok
        rw [hok] at hatt
        have hrec := ih hatt (fun a ha => hg a (List.mem_cons_of_mem _ ha))
        split
        · rename_i hfail
          rw [hfail] at hrec
          exact hrec.of_loaded rfl
        · rename_i hdone
          rw [hdone] at hrec
          exact hrec

theorem Backed.convert (h : Backed d) (alloc : Bool) {answer : GrowAnswer}
    (ha : answer.newLpa ≠ some invalidLpa) : Backed (rtfsDirInodeConvertInlineToRegular d alloc answer).2 := by
  unfold rtfsDirInodeConvertInlineToRegular
  split
  · exact h
  · split
    · exact h
    · split
      · exact h
      · split
        · exact h
        · rename_i area _ _ _ c _
          have hcleared : Backed { d with
              isInline := false
              inlineDentry := some DentryArea.zero
              totalBlockCount := 0
              loadedBlockCount := 0
              isFullyLoaded := true } := h
          have hatt := hcleared.attach ha
          split
          · rename_i hfail
            rw [hfail] at hatt
            exact hatt.of_loaded rfl
          · rename_i grown hok
            rw [hok] at hatt
            exact hatt.modify rfl (fun _ hb => ⟨hb.1,fun _ => rfl⟩)

theorem Backed.addEntry (h : Backed d) {answers : AddAnswers} (hg : GrantsLpas answers.growths) :
    Backed (rtfsDirInodeAddEntry d name ino fileType answers).2 := by
  have hinline : Backed (rtfsDirInodeAddInlineBacking d name ino fileType answers).2 := by
    unfold rtfsDirInodeAddInlineBacking
    split
    · exact h
    split
    · exact h
    split
    · exact h
    split
    · exact h
    split
    · -- no free run of slots: the conversion takes the first answer
      have hhead : (answers.growths.headD .fails).newLpa ≠ some invalidLpa := by
        cases hgs : answers.growths with
        | nil =>
          intro hc
          cases hc
        | cons a as => exact hg a (hgs ▸ List.mem_cons_self)
      have hconv := h.convert answers.convertAlloc hhead
      split
      · rename_i hfail
        rw [hfail] at hconv
        exact hconv
      · rename_i hok
        rw [hok] at hconv
        exact hconv.addRegular _ (fun a ha => hg a (List.mem_of_mem_tail ha))
    · simp only
      split
      · exact h.of_loaded rfl
      · rename_i added hadd
        exact h.of_loaded (addInternal_loaded hadd).2.2
  unfold rtfsDirInodeAddEntry
  split
  · exact hinline
  · exact h.addRegular _ hg
  · split
    · exact h.addRegular _ hg
    · split
      · exact h
      · rename_i added hadd
        exact h.of_loaded (addInternal_loaded hadd).2.2

theorem Backed.removeEntry (h : Backed d) (name : List UInt8) : Backed (rtfsDirInodeRemoveEntry d name).2 := by
  unfold rtfsDirInodeRemoveEntry rtfsDirInodeRemoveEntryInternal
  split
  · exact h
  split
  · exact h
  split
  · exact h
  · rename_i removed _
    simp only
    split
    · exact h.of_loaded rfl
    · have hcleared : Backed (rtfsDirInodeClearRegularEntryBacking d removed) := by
        unfold rtfsDirInodeClearRegularEntryBacking
        split
        · exact h
        · exact h.modify rfl (fun _ hb => ⟨hb.1,fun _ => rfl⟩)
      exact hcleared.of_loaded rfl

theorem Backed.run (h : Backed d) {ops : List DirOp} (hops : ∀ op ∈ ops, op.GrantsLpas) : Backed (after d ops) := by
  induction ops generalizing d with
  | nil => exact h
  | cons op ops ih =>
    refine ih ?_ (fun op hop => hops op (List.mem_cons_of_mem _ hop))
    have hop := hops op List.mem_cons_self
    cases op with
    | add name ino fileType answers => exact h.addEntry hop
    | remove name => exact h.removeEntry name

end Run

theorem twoDir_collects_iff (d₁ d₂ : RtfsDirInode) (h₁ : Backed d₁) (h₂ : Backed d₂) (ops₁ ops₂ : List DirOp)
    (hops₁ : ∀ op ∈ ops₁, op.GrantsLpas) (hops₂ : ∀ op ∈ ops₂, op.GrantsLpas) (lpas₁ lpas₂ : List UInt32)
    (hw₁ : (rtfsDirInodeWritebackContentCow lpas₁ (after d₁ ops₁)).1 = .ok ())
    (hw₂ : (rtfsDirInodeWritebackContentCow lpas₂ (after d₂ ops₂)).1 = .ok ())
    (hapart : (dirtyLpas (after d₁ ops₁)).Disjoint (dirtyLpas (after d₂ ops₂))) :
    singleDirOldDataLpas true lpas₁ (after d₁ ops₁) = .ok (dirtyLpas (after d₁ ops₁)) ∧
    singleDirOldDataLpas true lpas₂ (after d₂ ops₂) = .ok (dirtyLpas (after d₂ ops₂)) ∧
    (CollectsOldLpas (twoDirOldDataLpas .granted .granted lpas₁ lpas₂ (after d₁ ops₁) (after d₂ ops₂))
        (after d₁ ops₁) (after d₂ ops₂) ↔
      FitsScratch (after d₁ ops₁) ∧ FitsScratch (after d₂ ops₂)) := by
  have hb₁ := h₁.run hops₁
  have hb₂ := h₂.run hops₂
  refine ⟨singleDir_collects hb₁ hw₁,singleDir_collects hb₂ hw₂,fits_of_collects hb₁ hb₂ hw₁ hw₂ hapart,?_⟩
  rintro ⟨hf₁,hf₂⟩
  exact twoDir_collects hb₁ hb₂ hw₁ hw₂ hf₁ hf₂

section Full

-- seven names that fill all the slots of one dentry block
def fullName (k : Nat) : List UInt8 := UInt8.ofNat (97 + k) :: List.replicate (if k = 6 then 175 else 254) 98

def fullBlock : RtfsDentryBlock :=
  ⟨fun _ => 255,fun i => ⟨0,5,if i = 192 then 176 else 255,1⟩,
    fun slot j => if slot % 32 = 0 ∧ j = 0 then UInt8.ofNat (97 + slot / 32) else 98⟩

def fullDir : RtfsDirInode :=
  { iDentryNum := 7,loadedBlockCount := 1,totalBlockCount := 1,isFullyLoaded := true,backingKind := .blocks
    cached := true,isInline := false,inlineDentry := none
    loadedBlocks := [⟨0,1000,invalidLpa,false,fullBlock,false⟩],capacity := 8
    entries := (List.range 7).map (fun k => ⟨5,1,fullName k,false,0,32 * k⟩),isDirty := false }

theorem fullDir_backed : Backed fullDir := by
  intro b hb
  rw [List.mem_singleton.mp hb]
  exact ⟨by decide,nofun⟩

theorem twoDir_collects_full :
    CollectsOldLpas (twoDirOldDataLpas .granted .granted [3000] [] (after fullDir [.remove (fullName 0)]) created)
      (after fullDir [.remove (fullName 0)]) created := by
  have hdirty : dirtyLpas (after fullDir [.remove (fullName 0)]) = [1000] := by
    decide +kernel
  refine (twoDir_collects_iff fullDir created fullDir_backed nofun [.remove (fullName 0)] []
    (fun op hop => by rw [List.mem_singleton.mp hop]; trivial) nofun [3000] [] (by decide +kernel) rfl
    (fun _ _ h => absurd h List.not_mem_nil)).2.2.mpr ⟨⟨by decide +kernel,?_⟩,⟨by decide,nofun⟩⟩
  intro lpa hlpa
  rw [hdirty] at hlpa
  rw [List.mem_singleton.mp hlpa]
  decide

-- a new name grows a second block, and the removal leaves the first one dirty too
def growThenRemove : List DirOp :=
  [.add [120] 9 1 ⟨true,[⟨some 2000,true⟩],true⟩,.remove (fullName 0)]

theorem growThenRemove_granted : ∀ op ∈ growThenRemove, op.GrantsLpas := by
  intro op hop
  rcases List.mem_cons.mp hop with rfl | hop
  · intro a ha
    rw [List.mem_singleton.mp ha]
    decide
  · rw [List.mem_singleton.mp hop]
    trivial

theorem twoDir_full_fails : Backed fullDir ∧ (∀ op ∈ growThenRemove, op.GrantsLpas) ∧
    (rtfsDirInodeWritebackContentCow [3000,3001] (after fullDir growThenRemove)).1 = .ok () ∧
    singleDirOldDataLpas true [3000,3001] (after fullDir growThenRemove) = .ok [1000,2000] ∧
    twoDirOldDataLpas .granted .granted [3000,3001] [] (after fullDir growThenRemove) created = .error .enospc ∧
    ¬ CollectsOldLpas (twoDirOldDataLpas .granted .granted [3000,3001] [] (after fullDir growThenRemove) created)
      (after fullDir growThenRemove) created := by
  have hfails : twoDirOldDataLpas .granted .granted [3000,3001] [] (after fullDir growThenRemove) created =
      .error .enospc := by
    decide +kernel
  refine ⟨fullDir_backed,growThenRemove_granted,by decide +kernel,by decide +kernel,hfails,fun h => ?_⟩
  obtain ⟨lpas,hok,-⟩ := h.collected
  rw [hfails] at hok
  cases hok

end Full

end DirEntries

end Rtfs
