import Rtfs.Inode.DirIndex
import Rtfs.Inode.DirRepresentation
import Rtfs.Lib.Outcome

namespace Rtfs

namespace DirEntries

-- a directory inode with what the device answers for its blocks
structure DirImage where
  store : NodeStore
  ino : UInt32
  iSize : UInt64
  iDentryNum : UInt32
  isInline : Bool
  inlineDentry : RtfsInlineDentry
  read : UInt32 → Option RtfsDentryBlock

inductive RtfsDirLookupResult
  | self
  | parent
  | entry (e : RtfsMemDirEntry)
  deriving DecidableEq

def rtfsDirInodeLookup (d : RtfsDirInode) (name : List UInt8) : Except Errno RtfsDirLookupResult :=
  if name = [46] then .ok .self
  else if name = [46,46] then .ok .parent
  else
    match rtfsDirInodeFindEntry d name with
    | some e => .ok (.entry e)
    | none => .error .enoent

def sizeToBlock (size : UInt64) : Nat := ((size + 4095) >>> 12).toNat

def rtfsDirInodeSetLoadedBlockCount (d : RtfsDirInode) (loadedBlockCount : Nat) : RtfsDirInode :=
  let count := min loadedBlockCount d.totalBlockCount
  { d with loadedBlockCount := count, isFullyLoaded := decide (d.totalBlockCount ≤ count) }

section Load
variable (img : DirImage)

def rtfsDirInodeBuildMetadata : RtfsDirInode :=
  { iDentryNum := img.iDentryNum,loadedBlockCount := 0,totalBlockCount := sizeToBlock img.iSize
    isFullyLoaded := decide (sizeToBlock img.iSize = 0),backingKind := .empty,cached := true
    isInline := img.isInline,inlineDentry := none,loadedBlocks := [],capacity := 0,entries := [],isDirty := false }

def rtfsDirInodeBuildFromCache : Except Errno RtfsDirInode :=
  let d := rtfsDirInodeBuildMetadata img
  if img.isInline then
    rtfsDirInodeBuildInlineEntries { d with backingKind := .inline, inlineDentry := some img.inlineDentry }
      img.inlineDentry true
  else .ok { d with backingKind := .blocks }

-- one iteration of rtfsDirInodeLoadNextBlocks, the counter moves for a mapped block only
def loadBlock (d : RtfsDirInode) (i : Nat) : Except Errno RtfsDirInode :=
  match rtfsDirResolveDataLpaByBlockIndex img.store img.ino (UInt32.ofNat i) with
  | .error e => .error e
  | .ok lpa =>
    if lpa = invalidLpa then .ok d
    else
      match img.read lpa with
      | none => .error .eio
      | some dentryBlock =>
        (rtfsDirInodeAppendRegularEntries d dentryBlock (UInt32.ofNat i) lpa true true).map
          (fun d => rtfsDirInodeSetLoadedBlockCount d (i + 1))

def rtfsDirInodeLoadNextBlocks (d : RtfsDirInode) (maxBlocks : Nat) : Except Errno RtfsDirInode :=
  if img.isInline then .ok d
  else
    let startBlock := d.loadedBlockCount
    if d.totalBlockCount ≤ startBlock then .ok d
    else (List.range' startBlock (min (startBlock + maxBlocks) d.totalBlockCount - startBlock)).foldlM
      (loadBlock img) d

def onDemandChunkBlocks : Nat := 1

def rtfsDirInodeResolveOnDemand (d : RtfsDirInode) : Except Errno RtfsDirInode :=
  if d.isFullyLoaded then .ok d else rtfsDirInodeLoadNextBlocks img d onDemandChunkBlocks

def rtfsDirInodeResolve : Except Errno RtfsDirInode :=
  (rtfsDirInodeBuildFromCache img).bind (rtfsDirInodeResolveOnDemand img)

-- the loop that rtfsResolveNameInParent and rtfsFsEvalToken share, none: not finished
def lookupLoop (name : List UInt8) : Nat → RtfsDirInode → Option (Except Errno RtfsDirLookupResult)
  | 0,_ => none
  | fuel + 1,d =>
    if rtfsDirInodeLookup d name ≠ .error .enoent ∨ d.isFullyLoaded = true then some (rtfsDirInodeLookup d name)
    else
      match rtfsDirInodeResolveOnDemand img d with
      | .error e => some (.error e)
      | .ok d => lookupLoop name fuel d

def rtfsResolveNameInParent (fuel : Nat) (name : List UInt8) : Option (Except Errno RtfsDirLookupResult) :=
  match rtfsDirInodeResolve img with
  | .error e => some (.error e)
  | .ok d => lookupLoop img name fuel d

end Load

def loadedTo (img : DirImage) (k : Nat) : Except Errno RtfsDirInode :=
  (rtfsDirInodeBuildFromCache img).bind (fun d => (List.range k).foldlM (loadBlock img) d)

def Unmapped (img : DirImage) (i : Nat) : Prop :=
  rtfsDirResolveDataLpaByBlockIndex img.store img.ino (UInt32.ofNat i) = .ok invalidLpa

structure Stalls (img : DirImage) (name : List UInt8) (k : Nat) : Prop where
  inside : k < sizeToBlock img.iSize
  regular : img.isInline = false
  unmapped : Unmapped img k
  mapped : ∀ i < k, ¬ Unmapped img i
  absent : ∃ d, loadedTo img k = .ok d ∧ rtfsDirInodeLookup d name = .error .enoent

inductive Answers (img : DirImage) (name : List UInt8) (r : Except Errno RtfsDirLookupResult) : Prop
  | unbuilt (e : Errno) (hb : rtfsDirInodeBuildFromCache img = .error e) (hr : r = .error e)
  | found (k : Nat) (d : RtfsDirInode) (hd : loadedTo img k = .ok d) (found : RtfsDirLookupResult)
      (hf : rtfsDirInodeLookup d name = .ok found) (hr : r = .ok found)
  | absent (d : RtfsDirInode) (hd : loadedTo img (if img.isInline then 0 else sizeToBlock img.iSize) = .ok d)
      (hn : rtfsDirInodeLookup d name = .error .enoent) (hr : r = .error .enoent)
  | failed (k : Nat) (d : RtfsDirInode) (hd : loadedTo img k = .ok d) (hn : rtfsDirInodeFindEntry d name = none)
      (e : Errno) (hl : loadBlock img d k = .error e) (hr : r = .error e)

section Names
variable {d d' : RtfsDirInode}

structure Appends (d d' : RtfsDirInode) : Prop where
  entries : ∃ es, d'.entries.map RtfsMemDirEntry.name = d.entries.map RtfsMemDirEntry.name ++ es
  total : d'.totalBlockCount = d.totalBlockCount
  count : d'.loadedBlockCount = d.loadedBlockCount

theorem Appends.of_eq (he : d'.entries = d.entries) (ht : d'.totalBlockCount = d.totalBlockCount)
    (hc : d'.loadedBlockCount = d.loadedBlockCount) : Appends d d' :=
  ⟨⟨[],by rw [he,List.append_nil]⟩,ht,hc⟩

theorem Appends.refl (d : RtfsDirInode) : Appends d d := .of_eq rfl rfl rfl

theorem Appends.trans {d'' : RtfsDirInode} (h : Appends d d') (h' : Appends d' d'') : Appends d d'' := by
  obtain ⟨es,hes⟩ := h.entries
  obtain ⟨es',hes'⟩ := h'.entries
  exact ⟨⟨es ++ es',by rw [hes',hes,List.append_assoc]⟩,h'.total.trans h.total,h'.count.trans h.count⟩

theorem setLastSource_names (d : RtfsDirInode) (isInline : Bool) (blockIndex : UInt32) (slotIndex : Nat) :
    (setLastSource d isInline blockIndex slotIndex).entries.map RtfsMemDirEntry.name =
      d.entries.map RtfsMemDirEntry.name := map_modify_same (fun _ => rfl)

theorem buildEntryAt_appends {n : Nat} {skipDots isInline : Bool} {blockIndex : UInt32} {realloc : Bool}
    {area : DentryArea n} {index : Nat}
    (h : buildEntryAt skipDots isInline blockIndex realloc area d index = .ok d') : Appends d d' := by
  unfold buildEntryAt at h
  simp only at h
  split at h
  · cases h
  split at h
  · cases h
  split at h
  · cases h
    exact .refl d
  obtain ⟨added,hadd,rfl⟩ := Except.map_ok h
  unfold rtfsDirInodeAddEntryInternal at hadd
  split at hadd
  · cases hadd
  split at hadd
  · cases hadd
  split at hadd
  · cases hadd
  · cases hadd
    refine ⟨⟨[(area.nameAt index (area.dentry index).nameLen.toNat).takeWhile (· ≠ 0)],?_⟩,rfl,rfl⟩
    rw [setLastSource_names,List.map_append]
    rfl

theorem walk_appends {n : Nat} {skipDots isInline : Bool} {blockIndex : UInt32} {realloc : Bool}
    {area : DentryArea n} (h : SlotRuns.walk area.isSet area.slotsAt n
      (buildEntryAt skipDots isInline blockIndex realloc area) 0 d = .ok d') : Appends d d' := by
  rw [SlotRuns.walk_eq] at h
  generalize SlotRuns.starts area.isSet area.slotsAt n 0 = l at h
  induction l generalizing d with
  | nil =>
    cases h
    exact .refl _
  | cons i l ih =>
    rw [List.foldlM_cons] at h
    obtain ⟨d₁,h₁,h'⟩ := Except.bind_ok h
    exact (buildEntryAt_appends h₁).trans (ih h')

theorem remember_appends {b : RtfsDentryBlock} {blockIndex lpa : UInt32} {malloc : Bool}
    (h : rtfsDirInodeRememberLoadedBlock d b blockIndex lpa malloc = .ok d') : Appends d d' := by
  unfold rtfsDirInodeRememberLoadedBlock at h
  split at h
  · cases h
    exact .refl d
  · split at h
    · cases h
    · cases h
      exact .of_eq rfl rfl rfl

theorem appendRegular_appends {b : RtfsDentryBlock} {blockIndex lpa : UInt32} {malloc realloc : Bool}
    (h : rtfsDirInodeAppendRegularEntries d b blockIndex lpa malloc realloc = .ok d') : Appends d d' := by
  unfold rtfsDirInodeAppendRegularEntries at h
  simp only at h
  obtain ⟨d₁,hrem,h⟩ := Except.bind_ok h
  obtain ⟨d₂,hwalk,rfl⟩ := Except.map_ok h
  have hkind : Appends d (if d.backingKind = .empty then { d with backingKind := .blocks } else d) := by
    split <;> exact .of_eq rfl rfl rfl
  have hcounted : Appends d₁ { d₁ with iDentryNum := 0 } := .of_eq rfl rfl rfl
  have hrest := ((hkind.trans (remember_appends hrem)).trans hcounted).trans (walk_appends hwalk)
  exact ⟨hrest.entries,hrest.total,hrest.count⟩

theorem find_none {name : List UInt8} :
    rtfsDirInodeFindEntry d name = none ↔ name ∉ d.entries.map RtfsMemDirEntry.name := by
  unfold rtfsDirInodeFindEntry
  rw [List.find?_eq_none,List.mem_map]
  constructor
  · rintro h ⟨e,he,hn⟩
    exact h e he (decide_eq_true hn)
  · rintro h e he hn
    exact h ⟨e,he,of_decide_eq_true hn⟩

theorem Appends.find_none {name : List UInt8} (h : Appends d d') (hn : rtfsDirInodeFindEntry d' name = none) :
    rtfsDirInodeFindEntry d name = none := by
  obtain ⟨es,hes⟩ := h.entries
  rw [DirEntries.find_none,hes] at hn
  rw [DirEntries.find_none]
  exact fun hin => hn (List.mem_append_left _ hin)

theorem lookup_enoent {name : List UInt8} : rtfsDirInodeLookup d name = .error .enoent ↔
    name ≠ [46] ∧ name ≠ [46,46] ∧ rtfsDirInodeFindEntry d name = none := by
  unfold rtfsDirInodeLookup
  split
  · rename_i h
    simp [h]
  split
  · rename_i h1 h2
    simp [h2]
  · rename_i h1 h2
    cases hf : rtfsDirInodeFindEntry d name with
    | none => simp [h1,h2]
    | some e => simp

theorem lookup_cases (d : RtfsDirInode) (name : List UInt8) : rtfsDirInodeLookup d name = .error .enoent ∨
    ∃ found, rtfsDirInodeLookup d name = .ok found := by
  unfold rtfsDirInodeLookup
  split
  · exact Or.inr ⟨_,rfl⟩
  split
  · exact Or.inr ⟨_,rfl⟩
  split
  · exact Or.inr ⟨_,rfl⟩
  · exact Or.inl rfl

end Names

section Loop
variable {img : DirImage} {name : List UInt8} {k : Nat} {d d' : RtfsDirInode}

structure LoadedAt (img : DirImage) (k : Nat) (d : RtfsDirInode) : Prop where
  loaded : loadedTo img k = .ok d
  regular : img.isInline = false
  mapped : ∀ i < k, ¬ Unmapped img i
  le : k ≤ sizeToBlock img.iSize
  total : d.totalBlockCount = sizeToBlock img.iSize
  count : d.loadedBlockCount = k
  full : d.isFullyLoaded = decide (sizeToBlock img.iSize ≤ k)

theorem loadBlock_cases (img : DirImage) (d : RtfsDirInode) (i : Nat) : (Unmapped img i ∧ loadBlock img d i = .ok d) ∨
    (¬ Unmapped img i ∧ ((∃ e, loadBlock img d i = .error e) ∨ ∃ d₁ d', Appends d d₁ ∧
      d' = rtfsDirInodeSetLoadedBlockCount d₁ (i + 1) ∧ loadBlock img d i = .ok d')) := by
  unfold Unmapped loadBlock
  cases hres : rtfsDirResolveDataLpaByBlockIndex img.store img.ino (UInt32.ofNat i) with
  | error e => exact Or.inr ⟨nofun,Or.inl ⟨e,rfl⟩⟩
  | ok lpa =>
    by_cases hz : lpa = invalidLpa
    · exact Or.inl ⟨congrArg Except.ok hz,if_pos hz⟩
    · refine Or.inr ⟨fun he => hz (Except.ok.inj he),?_⟩
      simp only
      rw [if_neg hz]
      cases img.read lpa with
      | none => exact Or.inl ⟨_,rfl⟩
      | some b =>
        simp only
        cases happ : rtfsDirInodeAppendRegularEntries d b (UInt32.ofNat i) lpa true true with
        | error e => exact Or.inl ⟨e,rfl⟩
        | ok d₁ => exact Or.inr ⟨d₁,_,appendRegular_appends happ,rfl,rfl⟩

theorem loadedTo_succ (h : loadedTo img k = .ok d) : loadedTo img (k + 1) = loadBlock img d k := by
  unfold loadedTo at h ⊢
  obtain ⟨d₀,hd₀,h⟩ := Except.bind_ok h
  rw [hd₀]
  change (List.range (k + 1)).foldlM (loadBlock img) d₀ = _
  rw [List.range_succ,List.foldlM_append,h]
  change ([k].foldlM (loadBlock img) d) = _
  rw [List.foldlM_cons]
  cases loadBlock img d k <;> rfl

theorem LoadedAt.resolveNext (h : LoadedAt img k d) (hlt : k < sizeToBlock img.iSize) :
    rtfsDirInodeResolveOnDemand img d = loadBlock img d k := by
  unfold rtfsDirInodeResolveOnDemand rtfsDirInodeLoadNextBlocks onDemandChunkBlocks
  rw [h.full,if_neg (by simpa using hlt),if_neg (by rw [h.regular]; decide)]
  simp only
  rw [h.total,h.count,if_neg (Nat.not_le.mpr hlt),Nat.min_eq_left hlt,Nat.sub_eq_of_eq_add' (Nat.succ_eq_add_one k)]
  change ([k].foldlM (loadBlock img) d) = _
  rw [List.foldlM_cons]
  cases loadBlock img d k <;> rfl

theorem LoadedAt.next (h : LoadedAt img k d) (hlt : k < sizeToBlock img.iSize) {d₁ : RtfsDirInode}
    (hm : ¬ Unmapped img k) (ha : Appends d d₁) (hl : loadBlock img d k = .ok (rtfsDirInodeSetLoadedBlockCount d₁ (k + 1))) :
    LoadedAt img (k + 1) (rtfsDirInodeSetLoadedBlockCount d₁ (k + 1)) := by
  have htotal := ha.total.trans h.total
  refine ⟨(loadedTo_succ h.loaded).trans hl,h.regular,fun i hi => ?_,hlt,htotal,?_,?_⟩
  · rcases Nat.lt_succ_iff_lt_or_eq.mp hi with hi | rfl
    · exact h.mapped i hi
    · exact hm
  · change min (k + 1) d₁.totalBlockCount = k + 1
    rw [htotal]
    exact Nat.min_eq_left hlt
  · change decide (d₁.totalBlockCount ≤ min (k + 1) d₁.totalBlockCount) = _
    rw [htotal,Nat.min_eq_left hlt]

-- an unmapped block leaves the object as it is, and the loop comes back to it
theorem loop_stuck (h : LoadedAt img k d) (hlt : k < sizeToBlock img.iSize) (hu : Unmapped img k)
    (hn : rtfsDirInodeLookup d name = .error .enoent) (fuel : Nat) : lookupLoop img name fuel d = none := by
  induction fuel with
  | zero => rfl
  | succ fuel ih =>
    have hload : loadBlock img d k = .ok d := by
      rcases loadBlock_cases img d k with ⟨-,hl⟩ | ⟨hm,-⟩
      · exact hl
      · exact absurd hu hm
    rw [lookupLoop,if_neg (by rw [hn,h.full]; simpa using hlt),h.resolveNext hlt,hload]
    exact ih

theorem loadedTo_prev (h : loadedTo img (k + 1) = .ok d') : ∃ d, loadedTo img k = .ok d ∧ loadBlock img d k = .ok d' := by
  cases hk : loadedTo img k with
  | ok d => exact ⟨d,rfl,(loadedTo_succ hk).symm.trans h⟩
  | error e =>
    unfold loadedTo at h hk
    obtain ⟨d₀,hd₀,h⟩ := Except.bind_ok h
    rw [hd₀] at hk
    change (List.range k).foldlM (loadBlock img) d₀ = .error e at hk
    rw [List.range_succ,List.foldlM_append,hk] at h
    cases h

theorem loadBlock_absent (h : loadBlock img d k = .ok d') (hn : rtfsDirInodeLookup d' name = .error .enoent) :
    rtfsDirInodeLookup d name = .error .enoent := by
  rcases loadBlock_cases img d k with ⟨-,hl⟩ | ⟨-,⟨e,hl⟩ | ⟨d₁,d₂,ha,rfl,hl⟩⟩
  · rw [hl] at h
    cases h
    exact hn
  · rw [hl] at h
    cases h
  · rw [hl] at h
    cases h
    rw [lookup_enoent] at hn ⊢
    exact ⟨hn.1,hn.2.1,ha.find_none hn.2.2⟩

theorem absent_mono {j : Nat} {dj : RtfsDirInode} (hle : k ≤ j) (hj : loadedTo img j = .ok dj)
    (hn : rtfsDirInodeLookup dj name = .error .enoent) :
    ∃ d, loadedTo img k = .ok d ∧ rtfsDirInodeLookup d name = .error .enoent := by
  induction j generalizing dj with
  | zero =>
    obtain rfl := Nat.le_zero.mp hle
    exact ⟨dj,hj,hn⟩
  | succ j ih =>
    rcases Nat.lt_succ_iff_lt_or_eq.mp (Nat.lt_succ_of_le hle) with hlt | rfl
    · obtain ⟨d,hd,hl⟩ := loadedTo_prev hj
      exact ih (Nat.le_of_lt_succ hlt) hd (loadBlock_absent hl hn)
    · exact ⟨dj,hj,hn⟩

theorem LoadedAt.stalls_ge (h : LoadedAt img k d) {j : Nat} (hs : Stalls img name j) : k ≤ j :=
  Nat.le_of_not_lt (fun hlt => h.mapped j hlt hs.unmapped)

theorem LoadedAt.failed_stalls (h : LoadedAt img k d) {e : Errno} (hl : loadBlock img d k = .error e)
    (hmap : ¬ Unmapped img k) : ∀ j, ¬ Stalls img name j := by
  intro j hs
  obtain ⟨dj,hdj,hnj⟩ := hs.absent
  rcases Nat.lt_or_eq_of_le (h.stalls_ge hs) with hlt | rfl
  · obtain ⟨d₂,hd₂,-⟩ := absent_mono hlt hdj hnj
    rw [loadedTo_succ h.loaded,hl] at hd₂
    cases hd₂
  · exact hmap hs.unmapped

theorem loop_spec (h : LoadedAt img k d) : (∃ fuel r, lookupLoop img name fuel d = some r ∧ Answers img name r ∧
      ∀ j, ¬ Stalls img name j) ∨
    ((∃ j, Stalls img name j) ∧ ∀ fuel, lookupLoop img name fuel d = none) := by
  induction hm : sizeToBlock img.iSize - k generalizing k d with
  | zero =>
    have hk : k = sizeToBlock img.iSize := Nat.le_antisymm h.le (Nat.le_of_sub_eq_zero hm)
    have hfull : d.isFullyLoaded = true := by
      rw [h.full,hk]
      exact decide_eq_true (Nat.le_refl _)
    refine Or.inl ⟨1,_,by rw [lookupLoop,if_pos (Or.inr hfull)],?_,fun j hs => ?_⟩
    · rcases lookup_cases d name with hn | ⟨found,hf⟩
      · refine .absent d ?_ hn hn
        rw [h.regular,if_neg (by decide),← hk]
        exact h.loaded
      · exact .found k d h.loaded found hf hf
    · exact Nat.not_lt.mpr (h.stalls_ge hs) (hk ▸ hs.inside)
  | succ m ih =>
    have hlt : k < sizeToBlock img.iSize := by omega
    rcases lookup_cases d name with hn | ⟨found,hf⟩
    · rcases loadBlock_cases img d k with ⟨hu,-⟩ | ⟨hmap,⟨e,hl⟩ | ⟨d₁,d',ha,rfl,hl⟩⟩
      · exact Or.inr ⟨⟨k,hlt,h.regular,hu,h.mapped,d,h.loaded,hn⟩,loop_stuck h hlt hu hn⟩
      · refine Or.inl ⟨1,.error e,?_,.failed k d h.loaded (lookup_enoent.mp hn).2.2 e hl rfl,h.failed_stalls hl hmap⟩
        rw [lookupLoop,if_neg (by rw [hn,h.full]; simpa using hlt),h.resolveNext hlt,hl]
      · have hstep : ∀ fuel, lookupLoop img name (fuel + 1) d =
            lookupLoop img name fuel (rtfsDirInodeSetLoadedBlockCount d₁ (k + 1)) := by
          intro fuel
          rw [lookupLoop,if_neg (by rw [hn,h.full]; simpa using hlt),h.resolveNext hlt,hl]
        rcases ih (h.next hlt hmap ha hl) (by omega) with ⟨fuel,r,hr,hans⟩ | ⟨hs,hnone⟩
        · exact Or.inl ⟨fuel + 1,r,(hstep fuel).trans hr,hans⟩
        · refine Or.inr ⟨hs,fun fuel => ?_⟩
          cases fuel with
          | zero => rfl
          | succ fuel => exact (hstep fuel).trans (hnone fuel)
    · refine Or.inl ⟨1,_,?_,.found k d h.loaded found hf hf,fun j hs => ?_⟩
      · rw [lookupLoop,if_pos (Or.inl (by rw [hf]; exact nofun))]
      · obtain ⟨dj,hdj,hnj⟩ := hs.absent
        obtain ⟨d₂,hd₂,hn₂⟩ := absent_mono (h.stalls_ge hs) hdj hnj
        rw [h.loaded] at hd₂
        cases hd₂
        rw [hf] at hn₂
        cases hn₂

end Loop

def LookupEnds (img : DirImage) (name : List UInt8) : Prop :=
  ∃ fuel r, rtfsResolveNameInParent img fuel name = some r ∧ Answers img name r

section Resolve
variable {img : DirImage} {name : List UInt8}

theorem build_loadedAt {d : RtfsDirInode} (hi : img.isInline = false) (hb : rtfsDirInodeBuildFromCache img = .ok d) :
    LoadedAt img 0 d := by
  have hload : loadedTo img 0 = .ok d := by
    unfold loadedTo
    rw [hb]
    rfl
  unfold rtfsDirInodeBuildFromCache at hb
  simp only at hb
  rw [if_neg (by rw [hi]; decide)] at hb
  cases hb
  refine ⟨hload,hi,nofun,Nat.zero_le _,rfl,rfl,?_⟩
  exact decide_eq_decide.mpr Nat.le_zero.symm

theorem build_empty {d : RtfsDirInode} (hi : img.isInline = false) (hb : rtfsDirInodeBuildFromCache img = .ok d) :
    rtfsDirInodeFindEntry d name = none := by
  unfold rtfsDirInodeBuildFromCache at hb
  simp only at hb
  rw [if_neg (by rw [hi]; decide)] at hb
  cases hb
  rfl

theorem build_inline_full {d : RtfsDirInode} (hi : img.isInline = true)
    (hb : rtfsDirInodeBuildFromCache img = .ok d) : d.isFullyLoaded = true := by
  unfold rtfsDirInodeBuildFromCache at hb
  simp only at hb
  rw [if_pos hi] at hb
  unfold rtfsDirInodeBuildInlineEntries at hb
  obtain ⟨d₁,-,rfl⟩ := Except.map_ok hb
  rfl

theorem resolve_of_load {d d' : RtfsDirInode} (hb : rtfsDirInodeBuildFromCache img = .ok d)
    (hr : rtfsDirInodeResolveOnDemand img d = .ok d') (fuel : Nat) :
    rtfsResolveNameInParent img fuel name = lookupLoop img name fuel d' := by
  have hload : rtfsDirInodeResolve img = .ok d' := by
    unfold rtfsDirInodeResolve
    rw [hb]
    exact hr
  unfold rtfsResolveNameInParent
  rw [hload]

theorem resolve_of_error {d : RtfsDirInode} {e : Errno} (hb : rtfsDirInodeBuildFromCache img = .ok d)
    (hr : rtfsDirInodeResolveOnDemand img d = .error e) (fuel : Nat) :
    rtfsResolveNameInParent img fuel name = some (.error e) := by
  have hload : rtfsDirInodeResolve img = .error e := by
    unfold rtfsDirInodeResolve
    rw [hb]
    exact hr
  unfold rtfsResolveNameInParent
  rw [hload]

theorem resolve_spec (img : DirImage) (name : List UInt8) :
    (∃ fuel r, rtfsResolveNameInParent img fuel name = some r ∧ Answers img name r ∧ ∀ j, ¬ Stalls img name j) ∨
    ((∃ j, Stalls img name j) ∧ ∀ fuel, rtfsResolveNameInParent img fuel name = none) := by
  cases hb : rtfsDirInodeBuildFromCache img with
  | error e =>
    refine Or.inl ⟨0,.error e,?_,.unbuilt e hb rfl,fun j hs => ?_⟩
    · unfold rtfsResolveNameInParent rtfsDirInodeResolve
      rw [hb]
      rfl
    · obtain ⟨d,hd,-⟩ := hs.absent
      unfold loadedTo at hd
      rw [hb] at hd
      cases hd
  | ok d =>
    cases hi : img.isInline with
    | true =>
      have hfull := build_inline_full hi hb
      have hload : loadedTo img 0 = .ok d := by
        unfold loadedTo
        rw [hb]
        rfl
      have hload' : rtfsDirInodeResolveOnDemand img d = .ok d := if_pos hfull
      refine Or.inl ⟨1,rtfsDirInodeLookup d name,?_,?_,fun j hs => ?_⟩
      · rw [resolve_of_load hb hload',lookupLoop,if_pos (Or.inr hfull)]
      · rcases lookup_cases d name with hn | ⟨found,hf⟩
        · exact .absent d (by rw [if_pos hi]; exact hload) hn hn
        · exact .found 0 d hload found hf hf
      · exact absurd hs.regular (by rw [hi]; decide)
    | false =>
      have h := build_loadedAt hi hb
      have hgo {d' : RtfsDirInode} {k : Nat} (hr : rtfsDirInodeResolveOnDemand img d = .ok d') (h' : LoadedAt img k d') :
          (∃ fuel r, rtfsResolveNameInParent img fuel name = some r ∧ Answers img name r ∧ ∀ j, ¬ Stalls img name j) ∨
          ((∃ j, Stalls img name j) ∧ ∀ fuel, rtfsResolveNameInParent img fuel name = none) := by
        simp only [resolve_of_load hb hr]
        exact loop_spec h'
      by_cases hlt : 0 < sizeToBlock img.iSize
      · have hres := h.resolveNext hlt
        rcases loadBlock_cases img d 0 with ⟨-,hl⟩ | ⟨hmap,⟨e,hl⟩ | ⟨d₁,d',ha,rfl,hl⟩⟩
        · exact hgo (hres.trans hl) h
        · refine Or.inl ⟨0,.error e,resolve_of_error hb (hres.trans hl) 0,.failed 0 d h.loaded ?_ e hl rfl,
            h.failed_stalls hl hmap⟩
          exact build_empty hi hb
        · exact hgo (hres.trans hl) (h.next hlt hmap ha hl)
      · have hfull : d.isFullyLoaded = true := by
          rw [h.full]
          exact decide_eq_true (Nat.le_of_not_lt hlt)
        exact hgo (if_pos hfull) h

end Resolve

theorem lookup_ends_iff (img : DirImage) (name : List UInt8) :
    LookupEnds img name ↔ ∀ k, ¬ Stalls img name k := by
  rcases resolve_spec img name with ⟨fuel,r,hr,hans,hs⟩ | ⟨⟨k,hs⟩,hnone⟩
  · exact ⟨fun _ => hs,fun _ => ⟨fuel,r,hr,hans⟩⟩
  · refine ⟨fun ⟨fuel,r,hr,_⟩ => ?_,fun h => absurd hs (h k)⟩
    rw [hnone fuel] at hr
    cases hr

section Hole

def holeDir : DirImage :=
  ⟨⟨fun _ => some Buf.zero,[]⟩,5,4096,0,false,DentryArea.zero,fun _ => none⟩

theorem holeDir_lookup_hangs : ¬ LookupEnds holeDir [97] ∧
    ∀ fuel, rtfsResolveNameInParent holeDir fuel [97] = none := by
  have hs : Stalls holeDir [97] 0 := by
    refine ⟨by decide,rfl,?_,nofun,_,rfl,rfl⟩
    change Except.ok (inodeAddr Buf.zero 0) = _
    exact congrArg Except.ok (u32At_zero _)
  rcases resolve_spec holeDir [97] with ⟨_,_,_,_,hn⟩ | ⟨_,hnone⟩
  · exact absurd hs (hn 0)
  · refine ⟨fun ⟨fuel,r,hr,_⟩ => ?_,hnone⟩
    rw [hnone fuel] at hr
    cases hr

end Hole

end DirEntries

end Rtfs
