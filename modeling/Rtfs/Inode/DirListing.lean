import Rtfs.Inode.DirLookup
import Rtfs.Inode.DirReparse

namespace Rtfs

namespace DirEntries

open DentryArea

section Area
variable {n : Nat} (skipDots : Bool) (area : DentryArea n)

def slotStarts : List Nat := SlotRuns.starts area.isSet area.slotsAt n 0

def diskName (i : Nat) : List UInt8 := area.nameAt i (area.dentry i).nameLen.toNat

def takes (i : Nat) : Bool := !(skipDots && decide (diskName area i = [46] ∨ diskName area i = [46,46]))

def areaNames : List (List UInt8) :=
  ((slotStarts area).filter (takes skipDots area)).map (fun i => (diskName area i).takeWhile (· ≠ 0))

structure SlotOk (i : Nat) : Prop where
  len : ¬ ((area.dentry i).nameLen.toNat = 0 ∨ rtfsNameLen < (area.dentry i).nameLen.toNat)
  fits : ¬ n < i + area.slotsAt i
  name : takes skipDots area i = true → ¬ BadLength ((diskName area i).takeWhile (· ≠ 0))

def AreaOk : Prop := ∀ i ∈ slotStarts area, SlotOk skipDots area i

-- no name has a zero byte on disk, and none is dots where the parser does not step over these
structure CleanArea : Prop where
  plain : ∀ i ∈ slotStarts area, 0 ∉ diskName area i
  undotted : skipDots = false → [46] ∉ areaNames skipDots area ∧ [46,46] ∉ areaNames skipDots area

end Area

def RtfsDirInode.names (d : RtfsDirInode) : List (List UInt8) := d.entries.map RtfsMemDirEntry.name

section Build
variable {n : Nat} {skipDots isInline : Bool} {blockIndex : UInt32} {area : DentryArea n} {d d' : RtfsDirInode}
  {i : Nat}

def SourcedAt (isInline : Bool) (blockIndex : UInt32) (i : Nat) (e : RtfsMemDirEntry) : Prop :=
  e.sourceIsInline = isInline ∧ e.sourceBlockIndex = blockIndex ∧ e.sourceSlotIndex = i

structure Took (area : DentryArea n) (isInline : Bool) (blockIndex : UInt32) (i : Nat) (d d' : RtfsDirInode) :
    Prop where
  entry : ∃ e, d'.entries = d.entries ++ [e] ∧ e.name = (diskName area i).takeWhile (· ≠ 0) ∧
    SourcedAt isInline blockIndex i e
  blocks : d'.loadedBlocks = d.loadedBlocks
  inline : d'.inlineDentry = d.inlineDentry

theorem addInternal_taken (isInline : Bool) (blockIndex : UInt32) {name : List UInt8} (hlen : ¬ BadLength name)
    (hnew : name ∉ d.names) (ino : UInt64) (fileType : UInt8) (i : Nat) :
    ∃ d₁, rtfsDirInodeAddEntryInternal d name ino fileType true = .ok d₁ ∧
      (∃ e, (setLastSource d₁ isInline blockIndex i).entries = d.entries ++ [e] ∧ e.name = name ∧
        SourcedAt isInline blockIndex i e) ∧
      d₁.loadedBlocks = d.loadedBlocks ∧ d₁.inlineDentry = d.inlineDentry := by
  have hfind : (rtfsDirInodeFindEntry d name).isSome = false := by
    rw [Option.isSome_eq_false_iff,Option.isNone_iff_eq_none]
    exact find_none.mpr hnew
  unfold rtfsDirInodeAddEntryInternal
  rw [if_neg hlen,hfind,if_neg (by decide),if_neg (by simp)]
  exact ⟨_,rfl,⟨_,setLastSource_entries rfl isInline blockIndex i,rfl,rfl,rfl,rfl⟩,rfl,rfl⟩

inductive BuildAt (area : DentryArea n) (skipDots isInline : Bool) (blockIndex : UInt32) (d : RtfsDirInode) (i : Nat) :
    Except Errno RtfsDirInode → Prop
  | refused {e : Errno} (h : ¬ SlotOk skipDots area i ∨
      takes skipDots area i = true ∧ (diskName area i).takeWhile (· ≠ 0) ∈ d.names) :
      BuildAt area skipDots isInline blockIndex d i (.error e)
  | skipped (hok : SlotOk skipDots area i) (h : takes skipDots area i = false) :
      BuildAt area skipDots isInline blockIndex d i (.ok d)
  | taken {d' : RtfsDirInode} (hok : SlotOk skipDots area i) (ht : takes skipDots area i = true)
      (hnew : (diskName area i).takeWhile (· ≠ 0) ∉ d.names) (h : Took area isInline blockIndex i d d') :
      BuildAt area skipDots isInline blockIndex d i (.ok d')

theorem buildEntryAt_cases : BuildAt area skipDots isInline blockIndex d i
    (buildEntryAt skipDots isInline blockIndex true area d i) := by
  unfold buildEntryAt
  by_cases hlen : (area.dentry i).nameLen.toNat = 0 ∨ rtfsNameLen < (area.dentry i).nameLen.toNat
  · simp only [if_pos hlen]
    exact .refused (.inl fun h => h.len hlen)
  by_cases hfit : n < i + getDentrySlots (area.dentry i).nameLen.toNat
  · simp only [if_neg hlen,if_pos hfit]
    exact .refused (.inl fun h => h.fits hfit)
  simp only [if_neg hlen,if_neg hfit]
  by_cases hskip : skipDots = true ∧ (diskName area i = [46] ∨ diskName area i = [46,46])
  · have ht : takes skipDots area i = false := by
      unfold takes
      rw [hskip.1,decide_eq_true hskip.2]
      rfl
    have hskip' := hskip
    unfold diskName at hskip'
    rw [if_pos hskip']
    exact .skipped ⟨hlen,hfit,fun h => absurd (ht.symm.trans h) (by decide)⟩ ht
  · have ht : takes skipDots area i = true := by
      unfold takes
      by_cases hs : skipDots = true
      · rw [decide_eq_false (fun h => hskip ⟨hs,h⟩),Bool.and_false]
        rfl
      · rw [Bool.eq_false_iff.mpr hs]
        rfl
    have hskip' := hskip
    unfold diskName at hskip'
    rw [if_neg hskip']
    change BuildAt area skipDots isInline blockIndex d i
      (Except.map _ (rtfsDirInodeAddEntryInternal d ((diskName area i).takeWhile (· ≠ 0)) _ _ true))
    by_cases hbad : BadLength ((diskName area i).takeWhile (· ≠ 0))
    · unfold rtfsDirInodeAddEntryInternal
      rw [if_pos hbad]
      exact .refused (.inl fun h => h.name ht hbad)
    by_cases hnew : (diskName area i).takeWhile (· ≠ 0) ∈ d.names
    · have hfind : (rtfsDirInodeFindEntry d ((diskName area i).takeWhile (· ≠ 0))).isSome = true := by
        rw [Option.isSome_iff_ne_none]
        exact fun hn => find_none.mp hn hnew
      unfold rtfsDirInodeAddEntryInternal
      rw [if_neg hbad,if_pos hfind]
      exact .refused (.inr ⟨ht,hnew⟩)
    · obtain ⟨d₁,hadd,hentry,hblocks,hinline⟩ := addInternal_taken isInline blockIndex hbad hnew
        (area.dentry i).ino.toUInt64 (area.dentry i).fileType i
      rw [hadd]
      exact .taken ⟨hlen,hfit,fun _ => hbad⟩ ht hnew ⟨hentry,hblocks,hinline⟩

end Build

structure Parsed {n : Nat} (skipDots : Bool) (area : DentryArea n) (isInline : Bool) (blockIndex : UInt32)
    (l : List Nat) (d d' : RtfsDirInode) : Prop where
  ok : ∀ i ∈ l, SlotOk skipDots area i
  entries : ∃ es, d'.entries = d.entries ++ es ∧
    es.map RtfsMemDirEntry.name = (l.filter (takes skipDots area)).map (fun i => (diskName area i).takeWhile (· ≠ 0)) ∧
    ∀ e ∈ es, ∃ i ∈ l, takes skipDots area i = true ∧ e.name = (diskName area i).takeWhile (· ≠ 0) ∧
      SourcedAt isInline blockIndex i e
  blocks : d'.loadedBlocks = d.loadedBlocks
  inline : d'.inlineDentry = d.inlineDentry
  nodup : d.names.Nodup → d'.names.Nodup

section Parse
variable {n : Nat} {skipDots isInline : Bool} {blockIndex : UInt32} {area : DentryArea n} {d d' : RtfsDirInode}
  {l : List Nat}

theorem Parsed.names (h : Parsed skipDots area isInline blockIndex l d d') : d'.names =
    d.names ++ (l.filter (takes skipDots area)).map (fun i => (diskName area i).takeWhile (· ≠ 0)) := by
  obtain ⟨es,he,hes,-⟩ := h.entries
  unfold RtfsDirInode.names
  rw [he,List.map_append,hes]

theorem fold_parsed (h : l.foldlM (buildEntryAt skipDots isInline blockIndex true area) d = .ok d') :
    Parsed skipDots area isInline blockIndex l d d' := by
  induction l generalizing d with
  | nil =>
    cases h
    exact ⟨nofun,⟨[],(List.append_nil _).symm,rfl,nofun⟩,rfl,rfl,id⟩
  | cons i l ih =>
    rw [List.foldlM_cons] at h
    obtain ⟨d₁,hstep,h⟩ := Except.bind_ok h
    have hrest := ih h
    obtain ⟨es,he,hes,hfrom⟩ := hrest.entries
    have hcase : BuildAt area skipDots isInline blockIndex d i _ := buildEntryAt_cases
    rw [hstep] at hcase
    cases hcase with
    | skipped hok ht =>
      refine ⟨fun j hj => ?_,⟨es,he,?_,fun e hin => ?_⟩,hrest.blocks,hrest.inline,hrest.nodup⟩
      · rcases List.mem_cons.mp hj with rfl | hj
        · exact hok
        · exact hrest.ok j hj
      · rw [hes,List.filter_cons_of_neg (by simp [ht])]
      · obtain ⟨j,hj,hname⟩ := hfrom e hin
        exact ⟨j,List.mem_cons_of_mem _ hj,hname⟩
    | taken hok ht hnew htook =>
      obtain ⟨x,hx,hxn,hxs⟩ := htook.entry
      refine ⟨fun j hj => ?_,⟨x :: es,?_,?_,fun e hin => ?_⟩,hrest.blocks.trans htook.blocks,
        hrest.inline.trans htook.inline,fun hd => hrest.nodup ?_⟩
      · rcases List.mem_cons.mp hj with rfl | hj
        · exact hok
        · exact hrest.ok j hj
      · rw [he,hx,List.append_assoc]
        rfl
      · rw [List.map_cons,hes,hxn,List.filter_cons_of_pos ht,List.map_cons]
      · rcases List.mem_cons.mp hin with rfl | hin
        · exact ⟨i,List.mem_cons_self,ht,hxn,hxs⟩
        · obtain ⟨j,hj,hname⟩ := hfrom e hin
          exact ⟨j,List.mem_cons_of_mem _ hj,hname⟩
      · unfold RtfsDirInode.names at hd hnew ⊢
        rw [hx,List.map_append,List.map_singleton,hxn]
        exact List.nodup_append.mpr ⟨hd,List.nodup_singleton _,fun a ha b hb => by
          rintro rfl
          exact hnew (List.mem_singleton.mp hb ▸ ha)⟩

theorem fold_exists (isInline : Bool) (blockIndex : UInt32) (d : RtfsDirInode)
    (hok : ∀ i ∈ l, SlotOk skipDots area i)
    (hnew : (d.names ++ (l.filter (takes skipDots area)).map
      (fun i => (diskName area i).takeWhile (· ≠ 0))).Nodup) :
    ∃ d', l.foldlM (buildEntryAt skipDots isInline blockIndex true area) d = .ok d' := by
  induction l generalizing d with
  | nil => exact ⟨d,rfl⟩
  | cons i l ih =>
    rw [List.foldlM_cons]
    have hcase : BuildAt area skipDots isInline blockIndex d i _ := buildEntryAt_cases
    cases hr : buildEntryAt skipDots isInline blockIndex true area d i with
    | error e =>
      rw [hr] at hcase
      cases hcase with
      | refused hbad =>
        rcases hbad with hbad | ⟨ht,hin⟩
        · exact absurd (hok i List.mem_cons_self) hbad
        · rw [List.filter_cons_of_pos ht,List.map_cons] at hnew
          exact absurd rfl ((List.nodup_append.mp hnew).2.2 _ hin _ List.mem_cons_self)
    | ok d₁ =>
      rw [hr] at hcase
      have hok' : ∀ j ∈ l, SlotOk skipDots area j := fun j hj => hok j (List.mem_cons_of_mem _ hj)
      cases hcase with
      | skipped _ ht =>
        rw [List.filter_cons_of_neg (by simp [ht])] at hnew
        exact ih d hok' hnew
      | taken _ ht _ htook =>
        obtain ⟨x,hx,hxn,-⟩ := htook.entry
        refine ih d₁ hok' ?_
        rw [List.filter_cons_of_pos ht,List.map_cons,← List.singleton_append,← List.append_assoc] at hnew
        have hnames : d₁.names = d.names ++ [(diskName area i).takeWhile (· ≠ 0)] := by
          unfold RtfsDirInode.names
          rw [hx,List.map_append,List.map_singleton,hxn]
        rw [hnames]
        exact hnew

end Parse

section Regular
variable {d d' : RtfsDirInode} {b : RtfsDentryBlock} {blockIndex lpa : UInt32}

theorem remember_names (h : rtfsDirInodeRememberLoadedBlock d b blockIndex lpa true = .ok d') :
    d'.entries = d.entries ∧ d'.inlineDentry = d.inlineDentry := by
  unfold rtfsDirInodeRememberLoadedBlock at h
  split at h
  · cases h
    exact ⟨rfl,rfl⟩
  · rw [if_neg (by decide)] at h
    cases h
    exact ⟨rfl,rfl⟩

theorem remember_exists (d : RtfsDirInode) (b : RtfsDentryBlock) (blockIndex lpa : UInt32) :
    ∃ d', rtfsDirInodeRememberLoadedBlock d b blockIndex lpa true = .ok d' := by
  unfold rtfsDirInodeRememberLoadedBlock
  split
  · exact ⟨_,rfl⟩
  · rw [if_neg (by decide)]
    exact ⟨_,rfl⟩

def withKind (d : RtfsDirInode) : RtfsDirInode :=
  if d.backingKind = .empty then { d with backingKind := .blocks } else d

theorem withKind_same (d : RtfsDirInode) : (withKind d).entries = d.entries ∧
    (withKind d).loadedBlocks = d.loadedBlocks := by
  unfold withKind
  split <;> exact ⟨rfl,rfl⟩

theorem appendRegular_parsed (h : rtfsDirInodeAppendRegularEntries d b blockIndex lpa true true = .ok d') :
    ∃ d₁, rtfsDirInodeRememberLoadedBlock (withKind d) b blockIndex lpa true = .ok d₁ ∧
      Parsed true b false blockIndex (slotStarts b) d₁ d' := by
  unfold rtfsDirInodeAppendRegularEntries at h
  obtain ⟨d₁,hrem,h⟩ := Except.bind_ok h
  obtain ⟨d₂,hwalk,rfl⟩ := Except.map_ok h
  rw [SlotRuns.walk_eq] at hwalk
  have hp := fold_parsed hwalk
  exact ⟨d₁,hrem,hp.ok,hp.entries,hp.blocks,hp.inline,hp.nodup⟩

theorem appendRegular_exists (hok : AreaOk true b) (hnew : (d.names ++ areaNames true b).Nodup) :
    ∃ d', rtfsDirInodeAppendRegularEntries d b blockIndex lpa true true = .ok d' := by
  obtain ⟨d₁,hrem⟩ := remember_exists (withKind d) b blockIndex lpa
  have hnames : d₁.names = d.names := by
    unfold RtfsDirInode.names
    rw [(remember_names hrem).1,(withKind_same d).1]
  obtain ⟨d₂,hwalk⟩ := fold_exists false blockIndex { d₁ with iDentryNum := 0 } hok (by
    change (d₁.names ++ _).Nodup
    rw [hnames]
    exact hnew)
  unfold rtfsDirInodeAppendRegularEntries
  change ∃ d', Except.bind (rtfsDirInodeRememberLoadedBlock (withKind d) b blockIndex lpa true) _ = .ok d'
  rw [hrem]
  simp only [SlotRuns.walk_eq]
  change ∃ d', Except.map _ ((slotStarts b).foldlM
    (buildEntryAt true false blockIndex true b) { d₁ with iDentryNum := 0 }) = .ok d'
  rw [hwalk]
  exact ⟨_,rfl⟩

end Regular

def blockArea (img : DirImage) (i : Nat) : Option RtfsDentryBlock :=
  match rtfsDirResolveDataLpaByBlockIndex img.store img.ino (UInt32.ofNat i) with
  | .error _ => none
  | .ok lpa => if lpa = invalidLpa then none else img.read lpa

def blockNames (img : DirImage) (i : Nat) : List (List UInt8) := (blockArea img i).elim [] (areaNames true)

structure BlockOk (img : DirImage) (i : Nat) : Prop where
  found : ∃ lpa, rtfsDirResolveDataLpaByBlockIndex img.store img.ino (UInt32.ofNat i) = .ok lpa ∧
    (lpa ≠ invalidLpa → (img.read lpa).isSome)
  area : ∀ b, blockArea img i = some b → AreaOk true b

def blockCount (img : DirImage) : Nat := if img.isInline then 0 else sizeToBlock img.iSize

def dirNames (img : DirImage) : List (List UInt8) :=
  if img.isInline then areaNames false img.inlineDentry
  else (List.range (sizeToBlock img.iSize)).flatMap (blockNames img)

structure Readable (img : DirImage) : Prop where
  inline : img.isInline = true → AreaOk false img.inlineDentry
  blocks : img.isInline = false → ∀ i < sizeToBlock img.iSize, BlockOk img i
  nodup : (dirNames img).Nodup

section Blocks
variable {img : DirImage} {d d' : RtfsDirInode} {i : Nat} {l : List Nat}

inductive LoadBlock (img : DirImage) (d : RtfsDirInode) (i : Nat) : Except Errno RtfsDirInode → Prop
  | failed {e : Errno} (h : ¬ BlockOk img i ∨ ¬ (d.names ++ blockNames img i).Nodup) :
      LoadBlock img d i (.error e)
  | hole (hok : BlockOk img i) (hu : Unmapped img i) (h : blockArea img i = none) : LoadBlock img d i (.ok d)
  | loaded {b : RtfsDentryBlock} {lpa : UInt32} {d₁ d' : RtfsDirInode} (hok : BlockOk img i)
      (hm : ¬ Unmapped img i) (h : blockArea img i = some b)
      (hrem : rtfsDirInodeRememberLoadedBlock (withKind d) b (UInt32.ofNat i) lpa true = .ok d₁)
      (hp : Parsed true b false (UInt32.ofNat i) (slotStarts b) d₁ d') : LoadBlock img d i (.ok d')

theorem loadBlock_spec (img : DirImage) (d : RtfsDirInode) (i : Nat) : LoadBlock img d i (loadBlock img d i) := by
  have harea : blockArea img i = match rtfsDirResolveDataLpaByBlockIndex img.store img.ino (UInt32.ofNat i) with
    | .error _ => none
    | .ok lpa => if lpa = invalidLpa then none else img.read lpa := rfl
  unfold loadBlock
  cases hres : rtfsDirResolveDataLpaByBlockIndex img.store img.ino (UInt32.ofNat i) with
  | error e =>
    refine .failed (.inl fun h => ?_)
    obtain ⟨lpa,hlpa,-⟩ := h.found
    cases hres.symm.trans hlpa
  | ok lpa =>
    rw [hres] at harea
    simp only at harea ⊢
    by_cases hz : lpa = invalidLpa
    · rw [if_pos hz] at harea ⊢
      exact .hole ⟨⟨lpa,hres,fun h => absurd hz h⟩,fun b hb => by rw [harea] at hb; cases hb⟩
        (hres.trans (congrArg Except.ok hz)) harea
    · rw [if_neg hz] at harea ⊢
      have hm : ¬ Unmapped img i := fun hu => hz (Except.ok.inj (hres.symm.trans hu))
      cases hread : img.read lpa with
      | none =>
        refine .failed (.inl fun h => ?_)
        obtain ⟨lpa',hlpa,hsome⟩ := h.found
        cases hres.symm.trans hlpa
        rw [hread] at hsome
        exact absurd (hsome hz) (by decide)
      | some b =>
        rw [hread] at harea
        have hfound : ∃ lpa, rtfsDirResolveDataLpaByBlockIndex img.store img.ino (UInt32.ofNat i) = .ok lpa ∧
            (lpa ≠ invalidLpa → (img.read lpa).isSome) := ⟨lpa,hres,fun _ => by rw [hread]; rfl⟩
        simp only
        cases happ : rtfsDirInodeAppendRegularEntries d b (UInt32.ofNat i) lpa true true with
        | error e =>
          refine .failed ?_
          by_cases hok : BlockOk img i
          · refine .inr fun hnew => ?_
            unfold blockNames at hnew
            rw [harea] at hnew
            obtain ⟨d',hd'⟩ := appendRegular_exists (hok.area b harea) hnew
            cases happ.symm.trans hd'
          · exact .inl hok
        | ok d₁ =>
          obtain ⟨d₂,hrem,hp⟩ := appendRegular_parsed happ
          refine .loaded ⟨hfound,fun b' hb' => ?_⟩ hm harea hrem ⟨hp.ok,hp.entries,hp.blocks,hp.inline,hp.nodup⟩
          rw [harea] at hb'
          cases hb'
          exact hp.ok

theorem withKind_names (d : RtfsDirInode) : (withKind d).names = d.names :=
  congrArg (List.map RtfsMemDirEntry.name) (withKind_same d).1

theorem loadBlock_names (h : loadBlock img d i = .ok d') : BlockOk img i ∧
    d'.names = d.names ++ blockNames img i ∧ (d.names.Nodup → d'.names.Nodup) := by
  have hspec := loadBlock_spec img d i
  rw [h] at hspec
  unfold blockNames
  cases hspec with
  | hole hok hu ha =>
    rw [ha]
    exact ⟨hok,(List.append_nil _).symm,id⟩
  | @loaded b lpa d₁ _ hok hm ha hrem hp =>
    have hsame : d₁.names = d.names :=
      (congrArg (List.map RtfsMemDirEntry.name) (remember_names hrem).1).trans (withKind_names d)
    rw [ha]
    refine ⟨hok,?_,fun hd => hp.nodup (hsame.symm ▸ hd)⟩
    rw [hp.names,hsame]
    rfl

theorem loadFold_names (h : l.foldlM (loadBlock img) d = .ok d') : (∀ i ∈ l, BlockOk img i) ∧
    d'.names = d.names ++ l.flatMap (blockNames img) ∧ (d.names.Nodup → d'.names.Nodup) := by
  induction l generalizing d with
  | nil =>
    cases h
    exact ⟨nofun,(List.append_nil _).symm,id⟩
  | cons i l ih =>
    rw [List.foldlM_cons] at h
    obtain ⟨d₁,hstep,h⟩ := Except.bind_ok h
    obtain ⟨hok,hnames,hnodup⟩ := loadBlock_names hstep
    obtain ⟨hoks,hnames',hnodup'⟩ := ih h
    refine ⟨fun j hj => ?_,?_,fun hd => hnodup' (hnodup hd)⟩
    · rcases List.mem_cons.mp hj with rfl | hj
      · exact hok
      · exact hoks j hj
    · rw [hnames',hnames,List.append_assoc,List.flatMap_cons]

theorem loadFold_exists (d : RtfsDirInode) (hok : ∀ i ∈ l, BlockOk img i)
    (hnew : (d.names ++ l.flatMap (blockNames img)).Nodup) : ∃ d', l.foldlM (loadBlock img) d = .ok d' := by
  induction l generalizing d with
  | nil => exact ⟨d,rfl⟩
  | cons i l ih =>
    rw [List.flatMap_cons,← List.append_assoc] at hnew
    rw [List.foldlM_cons]
    have hspec := loadBlock_spec img d i
    cases hr : loadBlock img d i with
    | error e =>
      rw [hr] at hspec
      cases hspec with
      | failed hbad =>
        rcases hbad with hbad | hbad
        · exact absurd (hok i List.mem_cons_self) hbad
        · exact absurd (List.nodup_append.mp hnew).1 hbad
    | ok d₁ =>
      refine ih d₁ (fun j hj => hok j (List.mem_cons_of_mem _ hj)) ?_
      rw [(loadBlock_names hr).2.1]
      exact hnew

end Blocks

section Load
variable {img : DirImage} {d : RtfsDirInode}

def inlineStart (img : DirImage) : RtfsDirInode :=
  { rtfsDirInodeBuildMetadata img with backingKind := .inline, inlineDentry := some img.inlineDentry, iDentryNum := 0 }

structure BuiltInline (img : DirImage) (d : RtfsDirInode) : Prop where
  full : d.isFullyLoaded = true
  inline : d.inlineDentry = some img.inlineDentry
  blocks : d.loadedBlocks = []
  parsed : ∃ d₁, Parsed false img.inlineDentry true 0 (slotStarts img.inlineDentry) (inlineStart img) d₁ ∧
    d.entries = d₁.entries

theorem build_inline (hi : img.isInline = true) (h : rtfsDirInodeBuildFromCache img = .ok d) : BuiltInline img d := by
  unfold rtfsDirInodeBuildFromCache rtfsDirInodeBuildInlineEntries at h
  simp only [if_pos hi,SlotRuns.walk_eq] at h
  obtain ⟨d₁,hwalk,rfl⟩ := Except.map_ok h
  have hp := fold_parsed hwalk
  exact ⟨rfl,hp.inline,hp.blocks,d₁,hp,rfl⟩

theorem build_inline_exists (hi : img.isInline = true) (hok : AreaOk false img.inlineDentry)
    (hnew : (areaNames false img.inlineDentry).Nodup) : ∃ d, rtfsDirInodeBuildFromCache img = .ok d := by
  obtain ⟨d₁,hwalk⟩ := fold_exists true 0 (inlineStart img) hok hnew
  unfold rtfsDirInodeBuildFromCache rtfsDirInodeBuildInlineEntries
  simp only [if_pos hi,SlotRuns.walk_eq]
  change ∃ d, Except.map _ ((slotStarts img.inlineDentry).foldlM
    (buildEntryAt false true 0 true img.inlineDentry) (inlineStart img)) = .ok d
  rw [hwalk]
  exact ⟨_,rfl⟩

theorem BuiltInline.names (h : BuiltInline img d) : d.names = areaNames false img.inlineDentry := by
  obtain ⟨d₁,hp,he⟩ := h.parsed
  unfold RtfsDirInode.names
  rw [he]
  exact hp.names

theorem build_regular (hi : img.isInline = false) :
    rtfsDirInodeBuildFromCache img = .ok { rtfsDirInodeBuildMetadata img with backingKind := .blocks } := by
  unfold rtfsDirInodeBuildFromCache
  rw [hi]
  rfl

theorem loadedTo_zero (img : DirImage) : loadedTo img 0 = rtfsDirInodeBuildFromCache img := by
  unfold loadedTo
  cases rtfsDirInodeBuildFromCache img <;> rfl

theorem readable_iff (img : DirImage) : Readable img ↔ ∃ d, loadedTo img (blockCount img) = .ok d := by
  cases hi : img.isInline with
  | true =>
    have hcount : blockCount img = 0 := by rw [blockCount,if_pos hi]
    have hnames : dirNames img = areaNames false img.inlineDentry := by rw [dirNames,if_pos hi]
    rw [hcount,loadedTo_zero]
    constructor
    · exact fun h => build_inline_exists hi (h.inline hi) (hnames ▸ h.nodup)
    · rintro ⟨d,hd⟩
      obtain ⟨d₁,hp,-⟩ := (build_inline hi hd).parsed
      refine ⟨fun _ => hp.ok,fun hf => absurd (hi.symm.trans hf) (by decide),?_⟩
      rw [hnames]
      have hnodup := hp.nodup .nil
      rw [hp.names] at hnodup
      exact hnodup
  | false =>
    have hcount : blockCount img = sizeToBlock img.iSize := by
      rw [blockCount,hi]
      rfl
    have hnames : dirNames img = (List.range (sizeToBlock img.iSize)).flatMap (blockNames img) := by
      rw [dirNames,hi]
      rfl
    rw [hcount]
    unfold loadedTo
    rw [build_regular hi]
    constructor
    · intro h
      exact loadFold_exists _ (fun i hin => h.blocks hi i (List.mem_range.mp hin)) (hnames ▸ h.nodup)
    · rintro ⟨d,hd⟩
      obtain ⟨hok,hd',hnodup⟩ := loadFold_names hd
      refine ⟨fun ht => absurd (hi.symm.trans ht) (by decide),fun _ i hlt => hok i (List.mem_range.mpr hlt),?_⟩
      rw [hnames]
      have hnodup' := hnodup .nil
      rw [hd'] at hnodup'
      exact hnodup'

theorem loadedTo_names (h : loadedTo img (blockCount img) = .ok d) : d.names = dirNames img := by
  cases hi : img.isInline with
  | true =>
    rw [blockCount,if_pos hi,loadedTo_zero] at h
    rw [dirNames,if_pos hi]
    exact (build_inline hi h).names
  | false =>
    rw [blockCount,hi] at h
    rw [dirNames,hi]
    unfold loadedTo at h
    rw [build_regular hi] at h
    exact (loadFold_names h).2.1

theorem loadedTo_prefix {k : Nat} (hi : img.isInline = false) (hk : k ≤ sizeToBlock img.iSize)
    (h : loadedTo img k = .ok d) : ∃ rest, dirNames img = d.names ++ rest := by
  unfold loadedTo at h
  rw [build_regular hi] at h
  have hnames : d.names = (List.range k).flatMap (blockNames img) := (loadFold_names h).2.1
  obtain ⟨m,hm⟩ := Nat.exists_eq_add_of_le hk
  rw [dirNames,hi,hnames,hm,List.range_add,List.flatMap_append]
  exact ⟨_,rfl⟩

end Load

section Clear
variable {n : Nat} {skipDots : Bool} {area : DentryArea n} {s i : Nat}

theorem SlotOk.slots_pos (h : SlotOk skipDots area s) : max 1 (area.slotsAt s) = area.slotsAt s := by
  have hpos := h.len
  unfold DentryArea.slotsAt getDentrySlots
  omega

theorem slotsAt_congr {b : DentryArea n} (h : b.dentry i = area.dentry i) : b.slotsAt i = area.slotsAt i := by
  unfold DentryArea.slotsAt
  rw [h]

theorem clearRun_starts (hs : s ∈ slotStarts area) (hok : SlotOk skipDots area s) :
    slotStarts (area.clearRun s (area.slotsAt s)) = (slotStarts area).filter (fun k => decide (k ≠ s)) := by
  have hfit : s + area.slotsAt s ≤ n := Nat.not_lt.mp hok.fits
  refine SlotRuns.starts_clear hs (fun k hlo hhi => ?_) (fun k hk => ⟨?_,?_⟩)
  · rw [hok.slots_pos] at hhi
    rw [isSet_clearRun area hfit,decide_eq_true ⟨hlo,hhi⟩]
    rfl
  · rw [hok.slots_pos] at hk
    rw [isSet_clearRun area hfit,decide_eq_false (by omega)]
    rfl
  · have hne : k ≠ s := by
      have := hok.slots_pos
      omega
    exact slotsAt_congr (Function.update_of_ne hne _ _)

theorem clearRun_kept (hs : s ∈ slotStarts area) (hi : i ∈ slotStarts area) (hne : i ≠ s)
    (hok : SlotOk skipDots area s) (hoki : SlotOk skipDots area i) :
    (area.clearRun s (area.slotsAt s)).dentry i = area.dentry i ∧
      diskName (area.clearRun s (area.slotsAt s)) i = diskName area i := by
  have hd : (area.clearRun s (area.slotsAt s)).dentry i = area.dentry i := Function.update_of_ne hne _ _
  have hspaced := SlotRuns.starts_spaced area.isSet area.slotsAt n 0
  have hapart : i + area.slotsAt i ≤ s ∨ s + area.slotsAt s ≤ i := by
    have hpos := hok.slots_pos
    have hposi := hoki.slots_pos
    obtain ⟨l₁,l₂,hl⟩ := List.append_of_mem hs
    unfold slotStarts at hl hi
    rw [hl] at hspaced hi
    rcases List.mem_append.mp hi with hi | hi
    · have := (List.pairwise_append.mp hspaced).2.2 i hi s List.mem_cons_self
      omega
    · have hi' := (List.mem_cons.mp hi).resolve_left hne
      have := (List.pairwise_cons.mp (List.pairwise_append.mp hspaced).2.1).1 i hi'
      omega
  refine ⟨hd,?_⟩
  unfold diskName
  rw [hd]
  refine nameAt_congr (fun k hlo hhi => ?_)
  change k < i + area.slotsAt i at hhi
  exact if_neg (by omega)

theorem clearRun_ok (h : AreaOk skipDots area) (hs : s ∈ slotStarts area) :
    AreaOk skipDots (area.clearRun s (area.slotsAt s)) := by
  intro i hi
  rw [clearRun_starts hs (h s hs)] at hi
  obtain ⟨hi,hne⟩ := List.mem_filter.mp hi
  obtain ⟨hd,hn⟩ := clearRun_kept hs hi (of_decide_eq_true hne) (h s hs) (h i hi)
  have hok := h i hi
  refine ⟨?_,?_,?_⟩
  · rw [hd]
    exact hok.len
  · rw [slotsAt_congr hd]
    exact hok.fits
  · unfold takes
    rw [hn]
    exact hok.name

theorem clearRun_names (h : AreaOk skipDots area) (hnodup : (areaNames skipDots area).Nodup)
    (hs : s ∈ slotStarts area) (ht : takes skipDots area s = true) :
    areaNames skipDots (area.clearRun s (area.slotsAt s)) = (areaNames skipDots area).filter
      (fun name => decide (name ≠ (diskName area s).takeWhile (· ≠ 0))) := by
  have hkept {i : Nat} (hi : i ∈ slotStarts area) (hne : i ≠ s) :=
    clearRun_kept hs hi hne (h s hs) (h i hi)
  have hleft : (slotStarts (area.clearRun s (area.slotsAt s))).filter
      (takes skipDots (area.clearRun s (area.slotsAt s))) =
      ((slotStarts area).filter (takes skipDots area)).filter (fun k => decide (k ≠ s)) := by
    rw [clearRun_starts hs (h s hs),List.filter_filter,List.filter_filter]
    refine List.filter_congr (fun i hi => ?_)
    by_cases hne : i = s
    · simp [hne]
    · unfold takes
      rw [(hkept hi hne).2,Bool.and_comm]
  unfold areaNames at hnodup ⊢
  rw [hleft,List.filter_map]
  have hinj := List.inj_on_of_nodup_map hnodup
  have hin : s ∈ (slotStarts area).filter (takes skipDots area) := List.mem_filter.mpr ⟨hs,ht⟩
  have hfilter : ((slotStarts area).filter (takes skipDots area)).filter ((fun name =>
      decide (name ≠ (diskName area s).takeWhile (· ≠ 0))) ∘ fun i => (diskName area i).takeWhile (· ≠ 0)) =
      ((slotStarts area).filter (takes skipDots area)).filter (fun k => decide (k ≠ s)) := by
    refine List.filter_congr (fun i hi => decide_eq_decide.mpr (not_congr ?_))
    exact ⟨fun he => hinj hi hin he,fun he => he ▸ rfl⟩
  rw [hfilter]
  refine List.map_congr_left (fun i hi => ?_)
  obtain ⟨hi,hne⟩ := List.mem_filter.mp hi
  rw [(hkept (List.mem_filter.mp hi).1 (of_decide_eq_true hne)).2]

theorem clearRun_clean (h : AreaOk skipDots area) (hc : CleanArea skipDots area)
    (hnodup : (areaNames skipDots area).Nodup) (hs : s ∈ slotStarts area) (ht : takes skipDots area s = true) :
    CleanArea skipDots (area.clearRun s (area.slotsAt s)) := by
  refine ⟨fun i hi => ?_,?_⟩
  · rw [clearRun_starts hs (h s hs)] at hi
    obtain ⟨hi,hne⟩ := List.mem_filter.mp hi
    rw [(clearRun_kept hs hi (of_decide_eq_true hne) (h s hs) (h i hi)).2]
    exact hc.plain i hi
  · rw [clearRun_names h hnodup hs ht]
    exact fun hs => ⟨fun hin => (hc.undotted hs).1 (List.mem_filter.mp hin).1,
      fun hin => (hc.undotted hs).2 (List.mem_filter.mp hin).1⟩

theorem CleanArea.noDots (hc : CleanArea skipDots area) :
    [46] ∉ areaNames skipDots area ∧ [46,46] ∉ areaNames skipDots area := by
  cases hskip : skipDots with
  | false => exact hskip ▸ hc.undotted hskip
  | true =>
    have htaken {name : List UInt8} (hin : name ∈ areaNames true area) : ¬ (name = [46] ∨ name = [46,46]) := by
      obtain ⟨i,hi,rfl⟩ := List.mem_map.mp hin
      obtain ⟨hi,ht⟩ := List.mem_filter.mp hi
      rw [takeWhile_name (hc.plain i hi)]
      intro hdots
      unfold takes at ht
      rw [decide_eq_true hdots] at ht
      exact absurd ht (by decide)
    exact ⟨fun hin => htaken hin (.inl rfl),fun hin => htaken hin (.inr rfl)⟩

theorem entry_slots (hc : CleanArea skipDots area) (hs : s ∈ slotStarts area) {e : RtfsMemDirEntry}
    (he : e.name = (diskName area s).takeWhile (· ≠ 0)) : e.slots = area.slotsAt s := by
  unfold RtfsMemDirEntry.slots DentryArea.slotsAt
  rw [he,takeWhile_name (hc.plain s hs),diskName,length_nameAt]

end Clear

end DirEntries

end Rtfs
