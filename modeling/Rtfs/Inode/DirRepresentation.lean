import Rtfs.Inode.DirEntries

namespace Rtfs

namespace DirEntries

open DentryArea

abbrev DirKey := List UInt8 × UInt64 × UInt8

def entryKey (e : RtfsMemDirEntry) : DirKey := (e.name,e.ino,e.fileType)

def RtfsDirInode.keys (d : RtfsDirInode) : List DirKey := d.entries.map entryKey

def RtfsDirInode.Present (d : RtfsDirInode) (name : List UInt8) : Prop := name ∈ d.keys.map Prod.fst

def inBlock (blockIndex : UInt32) (e : RtfsMemDirEntry) : Bool := decide (e.sourceBlockIndex = blockIndex)

structure InlineOk (d : RtfsDirInode) : Prop where
  kind : d.backingKind = .inline
  cached : d.cached = true
  blocks : d.loadedBlocks = []
  source : ∀ e ∈ d.entries, e.sourceIsInline = true ∧ e.sourceBlockIndex = 0
  area : ∃ a, d.inlineDentry = some a ∧ a.Holds d.entries

-- a directory without blocks takes them from the regular path, too
def Routed (d : RtfsDirInode) : Prop :=
  d.backingKind = .blocks ∨ d.backingKind = .empty ∧ d.isInline = false

structure BlocksOk (d : RtfsDirInode) : Prop where
  kind : Routed d
  cached : d.cached = true
  indices : (d.loadedBlocks.map RtfsLoadedDirBlock.blockIndex).Nodup
  source : ∀ e ∈ d.entries, e.sourceIsInline = false ∧
    e.sourceBlockIndex ∈ d.loadedBlocks.map RtfsLoadedDirBlock.blockIndex
  blocks : ∀ b ∈ d.loadedBlocks, b.block.Holds (d.entries.filter (inBlock b.blockIndex))

structure DirOk (d : RtfsDirInode) : Prop where
  names : ∀ e ∈ d.entries, ValidName e.name
  distinct : (d.entries.map RtfsMemDirEntry.name).Nodup
  backing : InlineOk d ∨ BlocksOk d

section Basic
variable {d d' : RtfsDirInode} {name : List UInt8} {ino : UInt64} {fileType : UInt8}

theorem keys_names (d : RtfsDirInode) : d.keys.map Prod.fst = d.entries.map RtfsMemDirEntry.name := by
  rw [RtfsDirInode.keys,List.map_map]
  rfl

theorem find_isSome : (rtfsDirInodeFindEntry d name).isSome = true ↔ d.Present name := by
  unfold rtfsDirInodeFindEntry RtfsDirInode.Present
  rw [List.find?_isSome,keys_names,List.mem_map]
  simp

theorem not_badLength (h : ValidName name) : ¬ BadLength name := by
  have h1 := h.1
  have h2 := h.2.1
  unfold BadLength
  omega

structure Grown (d d' : RtfsDirInode) (e : RtfsMemDirEntry) : Prop where
  entries : d'.entries = d.entries ++ [e]
  kind : d'.backingKind = d.backingKind
  cached : d'.cached = d.cached
  isInline : d'.isInline = d.isInline
  inline : d'.inlineDentry = d.inlineDentry
  blocks : d'.loadedBlocks = d.loadedBlocks
  total : d'.totalBlockCount = d.totalBlockCount
  count : d'.iDentryNum = d.iDentryNum + 1

theorem addInternal_cases (d : RtfsDirInode) (hv : ¬ BadLength name) (ino : UInt64) (fileType : UInt8)
    (realloc : Bool) :
    (d.Present name ∧ rtfsDirInodeAddEntryInternal d name ino fileType realloc = .error .eexist) ∨
    (¬ d.Present name ∧ realloc = false ∧
      rtfsDirInodeAddEntryInternal d name ino fileType realloc = .error .enomem) ∨
    (¬ d.Present name ∧ ∃ d', rtfsDirInodeAddEntryInternal d name ino fileType realloc = .ok d' ∧
      Grown d d' ⟨ino,fileType,name,false,0,0⟩) := by
  unfold rtfsDirInodeAddEntryInternal
  rw [if_neg hv]
  by_cases hp : d.Present name
  · exact .inl ⟨hp,if_pos (find_isSome.mpr hp)⟩
  · rw [if_neg (fun hc => hp (find_isSome.mp hc))]
    by_cases hm : d.entries.length = d.capacity ∧ realloc = false
    · exact .inr (.inl ⟨hp,hm.2,if_pos hm⟩)
    · rw [if_neg hm]
      exact .inr (.inr ⟨hp,_,rfl,rfl,rfl,rfl,rfl,rfl,rfl,rfl,rfl⟩)

theorem Routed.congr (h : Routed d) (hk : d'.backingKind = d.backingKind) (hi : d'.isInline = d.isInline) :
    Routed d' := by
  unfold Routed
  rw [hk,hi]
  exact h

theorem modify_concat {α : Type} (l : List α) (x : α) (f : α → α) :
    (l ++ [x]).modify l.length f = l ++ [f x] := by
  induction l with
  | nil => rfl
  | cons y l ih => simpa using ih

theorem setLastSource_entries {es : List RtfsMemDirEntry} {e : RtfsMemDirEntry} (h : d.entries = es ++ [e])
    (isInline : Bool) (blockIndex : UInt32) (slotIndex : Nat) :
    (setLastSource d isInline blockIndex slotIndex).entries = es ++ [{ e with
      sourceIsInline := isInline,sourceBlockIndex := blockIndex,sourceSlotIndex := slotIndex }] := by
  have hlen : d.entries.length - 1 = es.length := by
    rw [h,List.length_append]
    rfl
  unfold setLastSource
  rw [hlen,h]
  exact modify_concat es e _

theorem mem_modify {α : Type} {l : List α} {k : Nat} {f : α → α} {x : α} (h : x ∈ l.modify k f) :
    ∃ j y, l[j]? = some y ∧ x = if j = k then f y else y := by
  obtain ⟨j,hj⟩ := List.mem_iff_getElem?.mp h
  rw [List.getElem?_modify] at hj
  obtain ⟨y,hy,hx⟩ := Option.map_eq_some_iff.mp hj
  refine ⟨j,y,hy,?_⟩
  by_cases hjk : j = k
  · simpa [hjk] using hx.symm
  · simpa [hjk,Ne.symm hjk] using hx.symm

theorem map_modify_same {α β : Type} {l : List α} {k : Nat} {f : α → α} {g : α → β} (h : ∀ x, g (f x) = g x) :
    (l.modify k f).map g = l.map g := by
  refine List.ext_getElem? (fun j => ?_)
  rw [List.getElem?_map,List.getElem?_map,List.getElem?_modify]
  cases l[j]? with
  | none => rfl
  | some x =>
    by_cases hk : k = j
    · simp [hk,h]
    · simp [hk]

theorem blockIndex_inj {l : List RtfsLoadedDirBlock} (h : (l.map RtfsLoadedDirBlock.blockIndex).Nodup) {j k : Nat}
    {b c : RtfsLoadedDirBlock} (hj : l[j]? = some b) (hk : l[k]? = some c) (he : b.blockIndex = c.blockIndex) :
    j = k := by
  have hj' : (l.map RtfsLoadedDirBlock.blockIndex)[j]? = some b.blockIndex := by simp [hj]
  have hk' : (l.map RtfsLoadedDirBlock.blockIndex)[k]? = some b.blockIndex := by simp [hk,he]
  exact (List.getElem?_inj (List.getElem?_eq_some_iff.mp hj').1 h).mp (hj'.trans hk'.symm)

end Basic

section Place
variable {d : RtfsDirInode} {name : List UInt8} {ino : UInt64} {fileType : UInt8}

theorem DirOk.concat_names (h : DirOk d) {e : RtfsMemDirEntry} (hv : ValidName e.name) (hp : ¬ d.Present e.name) :
    (∀ x ∈ d.entries ++ [e], ValidName x.name) ∧ ((d.entries ++ [e]).map RtfsMemDirEntry.name).Nodup := by
  constructor
  · intro x hx
    rcases List.mem_append.mp hx with hx | hx
    · exact h.names x hx
    · rw [List.mem_singleton.mp hx]
      exact hv
  · rw [List.map_append,List.nodup_append]
    refine ⟨h.distinct,List.nodup_singleton _,fun a ha b hb hab => hp ?_⟩
    rw [RtfsDirInode.Present,keys_names]
    rw [List.map_singleton,List.mem_singleton] at hb
    exact hb ▸ hab ▸ ha

theorem filter_concat (es : List RtfsMemDirEntry) (e : RtfsMemDirEntry) (blockIndex : UInt32) :
    (es ++ [e]).filter (inBlock blockIndex) =
      if e.sourceBlockIndex = blockIndex then es.filter (inBlock blockIndex) ++ [e]
      else es.filter (inBlock blockIndex) := by
  rw [List.filter_append]
  by_cases he : e.sourceBlockIndex = blockIndex
  · simp [inBlock,he]
  · simp [inBlock,he]

theorem BlocksOk.place (h : BlocksOk d) {d' : RtfsDirInode} {k : Nat} {b : RtfsLoadedDirBlock}
    {e : RtfsMemDirEntry} {f : RtfsLoadedDirBlock → RtfsLoadedDirBlock} (hb : d.loadedBlocks[k]? = some b)
    (hv : ValidName e.name) (hfit : e.sourceSlotIndex + e.slots ≤ 214)
    (hfree : ∀ i < e.slots, b.block.isSet (e.sourceSlotIndex + i) = false) (hin : e.sourceIsInline = false)
    (hsrc : e.sourceBlockIndex = b.blockIndex)
    (hf : ∀ x, (f x).blockIndex = x.blockIndex ∧ (f x).block = x.block.put e.sourceSlotIndex e.name e.ino e.fileType)
    (hk : d'.backingKind = d.backingKind) (hi : d'.isInline = d.isInline) (hc : d'.cached = d.cached)
    (hl : d'.loadedBlocks = d.loadedBlocks.modify k f) (he : d'.entries = d.entries ++ [e]) : BlocksOk d' := by
  have hidx : d'.loadedBlocks.map RtfsLoadedDirBlock.blockIndex =
      d.loadedBlocks.map RtfsLoadedDirBlock.blockIndex := by
    rw [hl]
    exact map_modify_same (fun x => (hf x).1)
  refine ⟨h.kind.congr hk hi,hc.trans h.cached,hidx ▸ h.indices,fun x hx => ?_,fun x hx => ?_⟩
  · rw [hidx]
    rw [he] at hx
    rcases List.mem_append.mp hx with hx | hx
    · exact h.source x hx
    · obtain rfl := List.mem_singleton.mp hx
      exact ⟨hin,hsrc ▸ List.mem_map.mpr ⟨b,List.mem_of_getElem? hb,rfl⟩⟩
  · rw [hl] at hx
    rw [he,filter_concat]
    obtain ⟨j,y,hy,rfl⟩ := mem_modify hx
    have hold := h.blocks y (List.mem_of_getElem? hy)
    by_cases hjk : j = k
    · subst hjk
      obtain rfl := Option.some.inj (hb.symm.trans hy)
      rw [if_pos rfl,(hf b).1,(hf b).2,if_pos hsrc]
      exact (hold.put hv hfit hfree).perm (List.perm_append_singleton _ _).symm
    · have hne : e.sourceBlockIndex ≠ y.blockIndex := by
        intro heq
        exact hjk (blockIndex_inj h.indices hy hb (heq.symm.trans hsrc))
      rw [if_neg hjk,if_neg hne]
      exact hold

theorem BlocksOk.unplace (h : BlocksOk d) {d' : RtfsDirInode} {k start : Nat} {b : RtfsLoadedDirBlock}
    (hb : d.loadedBlocks[k]? = some b) (hv : ValidName name) (hfit : start + getDentrySlots name.length ≤ 214)
    (hfree : ∀ i < getDentrySlots name.length, b.block.isSet (start + i) = false)
    (hk : d'.backingKind = d.backingKind) (hi : d'.isInline = d.isInline) (hc : d'.cached = d.cached)
    (he : d'.entries = d.entries)
    (hl : d'.loadedBlocks = (setBlock (setBlock d k (fun a => a.put start name ino fileType)) k
      (fun a => a.clearRun start (getDentrySlots name.length))).loadedBlocks) : BlocksOk d' := by
  have hl' : d'.loadedBlocks = d.loadedBlocks.modify k (fun x => { x with
      block := (x.block.put start name ino fileType).clearRun start (getDentrySlots name.length) }) := by
    rw [hl]
    exact List.modify_modify_eq ..
  have hidx : d'.loadedBlocks.map RtfsLoadedDirBlock.blockIndex =
      d.loadedBlocks.map RtfsLoadedDirBlock.blockIndex := by
    rw [hl']
    exact map_modify_same (fun _ => rfl)
  refine ⟨h.kind.congr hk hi,hc.trans h.cached,hidx ▸ h.indices,fun x hx => ?_,fun x hx => ?_⟩
  · rw [hidx]
    exact h.source x (he ▸ hx)
  · rw [hl'] at hx
    rw [he]
    obtain ⟨j,y,hy,rfl⟩ := mem_modify hx
    have hold := h.blocks y (List.mem_of_getElem? hy)
    by_cases hjk : j = k
    · subst hjk
      obtain rfl := Option.some.inj (hb.symm.trans hy)
      rw [if_pos rfl]
      have hput : (b.block.put start name ino fileType).Holds
          (⟨ino,fileType,name,false,0,start⟩ :: d.entries.filter (inBlock b.blockIndex)) :=
        hold.put (e := ⟨ino,fileType,name,false,0,start⟩) hv hfit hfree
      exact hput.clearRun
    · rw [if_neg hjk]
      exact hold

end Place

structure AddOutcome (d : RtfsDirInode) (name : List UInt8) (ino : UInt64) (fileType : UInt8)
    (r : Except Errno Unit × RtfsDirInode) : Prop where
  ok : DirOk r.2
  exist : r.1 = .error .eexist ↔ d.Present name
  failed : ∀ e, r.1 = .error e → r.2.keys = d.keys ∧ r.2.iDentryNum = d.iDentryNum
  added : r.1 = .ok () → r.2.keys = d.keys ++ [(name,ino,fileType)] ∧ r.2.iDentryNum = d.iDentryNum + 1

section Add
variable {d : RtfsDirInode} {name : List UInt8} {ino : UInt64} {fileType : UInt8}

theorem AddOutcome.of_error {d' : RtfsDirInode} {e : Errno} (h : DirOk d') (he : e = .eexist ↔ d.Present name)
    (hk : d'.keys = d.keys) (hn : d'.iDentryNum = d.iDentryNum) :
    AddOutcome d name ino fileType (.error e,d') :=
  ⟨h,by simpa using he,fun _ _ => ⟨hk,hn⟩,nofun⟩

theorem AddOutcome.of_ok {d' : RtfsDirInode} (h : DirOk d') (hp : ¬ d.Present name)
    (hk : d'.keys = d.keys ++ [(name,ino,fileType)]) (hn : d'.iDentryNum = d.iDentryNum + 1) :
    AddOutcome d name ino fileType (.ok (),d') :=
  ⟨h,iff_of_false nofun hp,nofun,fun _ => ⟨hk,hn⟩⟩

theorem findRoom_some {slotCount k start : Nat} (h : findRoom d slotCount = some (k,start)) :
    ∃ b, d.loadedBlocks[k]? = some b ∧ start + slotCount ≤ 214 ∧
      ∀ i < slotCount, b.block.isSet (start + i) = false := by
  unfold findRoom at h
  obtain ⟨⟨b,j⟩,hmem,hfit⟩ := List.exists_of_findSome?_eq_some h
  obtain ⟨s,hs,hpair⟩ := Option.map_eq_some_iff.mp hfit
  cases hpair
  obtain ⟨hle,hfree⟩ := SlotRuns.firstFit_some hs
  exact ⟨b,List.mem_zipIdx_iff_getElem?.mp hmem,hle,hfree⟩

theorem placeRegular_outcome (h : DirOk d) (hb : BlocksOk d) (hv : ValidName name) (hp : ¬ d.Present name)
    {k start : Nat} (hroom : findRoom d (getDentrySlots name.length) = some (k,start)) (realloc : Bool) :
    AddOutcome d name ino fileType (placeRegular d k start name ino fileType realloc) ∧
      (realloc = true → (placeRegular d k start name ino fileType realloc).1 = .ok ()) := by
  obtain ⟨b,hget,hfit,hfree⟩ := findRoom_some hroom
  have hpresent : ¬ (setBlock d k (fun a => a.put start name ino fileType)).Present name := hp
  unfold placeRegular
  rcases addInternal_cases (setBlock d k (fun a => a.put start name ino fileType)) (not_badLength hv) ino fileType realloc with
    ⟨hex,_⟩ | ⟨_,hr,hadd⟩ | ⟨_,d',hadd,hgrown⟩
  · exact absurd hex hpresent
  · simp only [hadd]
    refine ⟨.of_error ⟨h.names,h.distinct,.inr (hb.unplace hget hv hfit hfree rfl rfl rfl rfl rfl)⟩ ?_ rfl rfl,?_⟩
    · exact iff_of_false nofun hp
    · intro htrue
      rw [hr] at htrue
      cases htrue
  · simp only [hadd]
    have hput : d'.loadedBlocks[k]? = some { b with block := b.block.put start name ino fileType } := by
      rw [hgrown.blocks]
      change (d.loadedBlocks.modify k _)[k]? = _
      rw [List.getElem?_modify,hget]
      simp
    have hentries := setLastSource_entries hgrown.entries false b.blockIndex start
    obtain ⟨hnames,hdistinct⟩ := h.concat_names (e := ⟨ino,fileType,name,false,b.blockIndex,start⟩) hv hp
    refine ⟨.of_ok ?_ hp ?_ hgrown.count,fun _ => trivial⟩
    · rw [hput]
      refine ⟨hentries ▸ hnames,hentries ▸ hdistinct,.inr ?_⟩
      refine hb.place (e := ⟨ino,fileType,name,false,b.blockIndex,start⟩) hget hv hfit hfree rfl rfl (f := fun x =>
        { x with block := x.block.put start name ino fileType,isDirty := true }) (fun _ => ⟨rfl,rfl⟩) ?_ ?_ ?_ ?_ ?_
      · exact hgrown.kind
      · exact hgrown.isInline
      · exact hgrown.cached
      · change (d'.loadedBlocks.modify k _) = _
        rw [hgrown.blocks]
        exact List.modify_modify_eq ..
      · exact hentries
    · rw [hput]
      change (setLastSource d' false b.blockIndex start).entries.map entryKey = _
      rw [hentries,List.map_append]
      rfl

theorem addInLoaded_some (h : DirOk d) (hb : BlocksOk d) (hv : ValidName name) {realloc : Bool}
    {r : Except Errno Unit × RtfsDirInode} (hr : addInLoaded d name ino fileType realloc = some r) :
    AddOutcome d name ino fileType r := by
  unfold addInLoaded at hr
  rw [if_neg (not_badLength hv)] at hr
  split at hr
  · rename_i hp
    cases hr
    exact .of_error h (iff_of_true rfl (find_isSome.mp hp)) rfl rfl
  · rename_i hp
    obtain ⟨⟨k,start⟩,hroom,rfl⟩ := Option.map_eq_some_iff.mp hr
    exact (placeRegular_outcome h hb hv (fun hc => hp (find_isSome.mpr hc)) hroom realloc).1

theorem addInLoaded_none (hv : ValidName name) {realloc : Bool}
    (hr : addInLoaded d name ino fileType realloc = none) : ¬ d.Present name := by
  unfold addInLoaded at hr
  rw [if_neg (not_badLength hv)] at hr
  split at hr
  · cases hr
  · rename_i hp
    exact fun hc => hp (find_isSome.mpr hc)

theorem findLoaded_isSome {blockIndex : UInt32} : (findLoadedIndex d blockIndex).isSome = true ↔
    blockIndex ∈ d.loadedBlocks.map RtfsLoadedDirBlock.blockIndex := by
  unfold findLoadedIndex
  rw [List.findIdx?_isSome,List.any_eq_true,List.mem_map]
  simp

structure Kept (d d' : RtfsDirInode) : Prop where
  entries : d'.entries = d.entries
  kind : d'.backingKind = d.backingKind
  cached : d'.cached = d.cached
  isInline : d'.isInline = d.isInline
  inline : d'.inlineDentry = d.inlineDentry
  count : d'.iDentryNum = d.iDentryNum

theorem attachBlock_cases (hc : d.cached = true) (answer : GrowAnswer) : ∃ r d', attachBlock d answer = (r,d') ∧
    Kept d d' ∧ ((∃ e, r = .error e ∧ e ≠ .eexist ∧ d'.loadedBlocks = d.loadedBlocks) ∨
      r = .ok () ∧ d'.loadedBlocks = d.loadedBlocks ∧
        UInt32.ofNat d.totalBlockCount ∈ d.loadedBlocks.map RtfsLoadedDirBlock.blockIndex ∨
      r = .ok () ∧ ∃ lpa, UInt32.ofNat d.totalBlockCount ∉ d.loadedBlocks.map RtfsLoadedDirBlock.blockIndex ∧
        d'.loadedBlocks = d.loadedBlocks ++ [⟨UInt32.ofNat d.totalBlockCount,lpa,invalidLpa,false,zero,false⟩]) := by
  unfold attachBlock
  rw [if_neg (by simp [hc])]
  cases answer.newLpa with
  | none => exact ⟨_,_,rfl,⟨rfl,rfl,rfl,rfl,rfl,rfl⟩,.inl ⟨_,rfl,nofun,rfl⟩⟩
  | some newLpa =>
    simp only [rtfsDirInodeRememberLoadedBlock]
    by_cases hin : (findLoadedIndex { d with totalBlockCount := d.totalBlockCount + 1,isFullyLoaded := false }
        (UInt32.ofNat d.totalBlockCount)).isSome = true
    · rw [if_pos hin]
      exact ⟨_,_,rfl,⟨rfl,rfl,rfl,rfl,rfl,rfl⟩,.inr (.inl ⟨rfl,rfl,findLoaded_isSome.mp hin⟩)⟩
    · rw [if_neg hin]
      cases answer.remembered with
      | false => exact ⟨_,_,rfl,⟨rfl,rfl,rfl,rfl,rfl,rfl⟩,.inl ⟨_,rfl,nofun,rfl⟩⟩
      | true =>
        exact ⟨_,_,rfl,⟨rfl,rfl,rfl,rfl,rfl,rfl⟩,
          .inr (.inr ⟨rfl,newLpa,fun hc => hin (findLoaded_isSome.mpr hc),rfl⟩)⟩

theorem BlocksOk.congr (h : BlocksOk d) {d' : RtfsDirInode} (hk : Kept d d')
    (hl : d'.loadedBlocks = d.loadedBlocks) : BlocksOk d' := by
  refine ⟨h.kind.congr hk.kind hk.isInline,hk.cached.trans h.cached,hl ▸ h.indices,?_,?_⟩
  · rw [hk.entries,hl]
    exact h.source
  · rw [hk.entries,hl]
    exact h.blocks

theorem BlocksOk.remember (h : BlocksOk d) {d' : RtfsDirInode} (hk : Kept d d') {blockIndex lpa : UInt32}
    (hnew : blockIndex ∉ d.loadedBlocks.map RtfsLoadedDirBlock.blockIndex)
    (hl : d'.loadedBlocks = d.loadedBlocks ++ [⟨blockIndex,lpa,invalidLpa,false,zero,false⟩]) : BlocksOk d' := by
  refine ⟨h.kind.congr hk.kind hk.isInline,hk.cached.trans h.cached,?_,fun e he => ?_,fun b hb => ?_⟩
  · rw [hl,List.map_append,List.nodup_append]
    refine ⟨h.indices,List.nodup_singleton _,fun a ha b hb hab => hnew ?_⟩
    have hb' : b = blockIndex := List.mem_singleton.mp hb
    exact hab.trans hb' ▸ ha
  · obtain ⟨hin,hsrc⟩ := h.source e (hk.entries ▸ he)
    refine ⟨hin,?_⟩
    rw [hl,List.map_append]
    exact List.mem_append_left _ hsrc
  · rw [hl] at hb
    rw [hk.entries]
    rcases List.mem_append.mp hb with hb | hb
    · exact h.blocks b hb
    · obtain rfl := List.mem_singleton.mp hb
      have hnone : d.entries.filter (inBlock blockIndex) = [] := by
        rw [List.filter_eq_nil_iff]
        intro e he hc
        exact hnew (of_decide_eq_true hc ▸ (h.source e he).2)
      change zero.Holds (d.entries.filter (inBlock blockIndex))
      rw [hnone]
      exact holds_zero

theorem attachBlock_spec (h : BlocksOk d) (answer : GrowAnswer) : ∃ r d', attachBlock d answer = (r,d') ∧
    BlocksOk d' ∧ Kept d d' ∧ r ≠ .error .eexist := by
  obtain ⟨r,d',ha,hk,⟨e,rfl,hne,hl⟩ | ⟨rfl,hl,_⟩ | ⟨rfl,lpa,hnew,hl⟩⟩ := attachBlock_cases h.cached answer
  · exact ⟨_,d',ha,h.congr hk hl,hk,fun hc => hne (Except.error.inj hc)⟩
  · exact ⟨_,d',ha,h.congr hk hl,hk,nofun⟩
  · exact ⟨_,d',ha,h.remember hk hnew hl,hk,nofun⟩

theorem addRegular_outcome (h : DirOk d) (hb : BlocksOk d) (hv : ValidName name) (realloc : Bool)
    (growths : List GrowAnswer) :
    AddOutcome d name ino fileType (rtfsDirInodeAddRegularBacking d name ino fileType realloc growths) := by
  induction growths generalizing d with
  | nil =>
    unfold rtfsDirInodeAddRegularBacking
    cases hr : addInLoaded d name ino fileType realloc with
    | some r => exact addInLoaded_some h hb hv hr
    | none => exact .of_error h (iff_of_false nofun (addInLoaded_none hv hr)) rfl rfl
  | cons answer growths ih =>
    unfold rtfsDirInodeAddRegularBacking
    cases hr : addInLoaded d name ino fileType realloc with
    | some r => exact addInLoaded_some h hb hv hr
    | none =>
      have hp := addInLoaded_none hv hr
      obtain ⟨ret,d',ha,hb',hkept,hne⟩ := attachBlock_spec hb answer
      have h' : DirOk d' := ⟨hkept.entries ▸ h.names,hkept.entries ▸ h.distinct,.inr hb'⟩
      have hkeys : d'.keys = d.keys := congrArg (List.map entryKey) hkept.entries
      simp only [ha]
      cases ret with
      | error e => exact .of_error h' (iff_of_false (fun he => hne (he ▸ rfl)) hp) hkeys hkept.count
      | ok u =>
        have hout := ih h' hb'
        have hp' : ¬ d'.Present name := by
          rw [RtfsDirInode.Present,hkeys]
          exact hp
        cases hadd : rtfsDirInodeAddRegularBacking d' name ino fileType realloc growths with
        | mk ret' d'' =>
          rw [hadd] at hout
          simp only [hadd]
          cases ret' with
          | error e =>
            obtain ⟨hk,hn⟩ := hout.failed e rfl
            refine .of_error ?_ (iff_of_false (fun he => hp' (hout.exist.mp (he ▸ rfl))) hp)
              (hk.trans hkeys) (hn.trans hkept.count)
            exact ⟨hout.ok.names,hout.ok.distinct,hout.ok.backing.imp
              (fun hi => ⟨hi.kind,hi.cached,hi.blocks,hi.source,hi.area⟩)
              (fun hi => ⟨hi.kind,hi.cached,hi.indices,hi.source,hi.blocks⟩)⟩
          | ok u' =>
            obtain ⟨hk,hn⟩ := hout.added rfl
            exact .of_ok hout.ok hp (hk.trans (by rw [hkeys])) (hn.trans (by rw [hkept.count]))

end Add

section Convert
variable {d : RtfsDirInode} {area : RtfsInlineDentry}

theorem moveEntry_key (slotMap : Nat → Option Nat) (blockIndex : UInt32) (e : RtfsMemDirEntry) :
    entryKey (moveEntry slotMap blockIndex e) = entryKey e := by
  unfold moveEntry
  split
  · rfl
  · split
    · rfl
    · rfl

theorem moveEntry_eq {slotMap : Nat → Option Nat} (blockIndex : UInt32) {e : RtfsMemDirEntry} {slot : Nat}
    (hin : e.sourceIsInline = true) (hlt : e.sourceSlotIndex < 194) (hm : slotMap e.sourceSlotIndex = some slot) :
    moveEntry slotMap blockIndex e = { e with
      sourceIsInline := false,sourceBlockIndex := blockIndex,sourceSlotIndex := slot } := by
  unfold moveEntry
  rw [if_neg (by rw [hin]; simp [hlt]),hm]

theorem copyRun_step {c : Conversion} {e : RtfsMemDirEntry} {q : List RtfsMemDirEntry} (hst : area.Stored e)
    (hv : ValidName e.name) (hfit : e.sourceSlotIndex + e.slots ≤ 194) (hroom : c.regularSlot ≤ e.sourceSlotIndex)
    (hclear : ∀ o, c.regularSlot ≤ o → c.block.isSet o = false) (hq : c.block.Holds q) (blockIndex : UInt32) :
    ∃ c', copyRun area c e.sourceSlotIndex = .ok c' ∧ c'.regularSlot = c.regularSlot + e.slots ∧
      c'.slotMap = Function.update c.slotMap e.sourceSlotIndex (some c.regularSlot) ∧
      (∀ o, c'.regularSlot ≤ o → c'.block.isSet o = false) ∧
      c'.block.Holds ({ e with
        sourceIsInline := false,sourceBlockIndex := blockIndex,sourceSlotIndex := c.regularSlot } :: q) := by
  obtain ⟨hashCode,hd⟩ := hst.dentry
  have hlen : (UInt16.ofNat e.name.length).toNat = e.name.length := by
    have := hv.2.1
    unfold rtfsNameLen at this
    rw [UInt16.toNat_ofNat',Nat.mod_eq_of_lt (by omega)]
  have hslots : getDentrySlots e.name.length = e.slots := rfl
  have hpos : 0 < e.slots := hv.slots_pos
  unfold copyRun
  simp only [hd,hlen,hslots]
  have hlegal : ¬ (e.name.length = 0 ∨ rtfsNameLen < e.name.length) := not_badLength hv
  rw [if_neg hlegal,if_neg (by omega)]
  have hbits (o : Nat) : Bitmap.test (setBits c.block.dentryBitmap c.regularSlot e.slots) o =
      (decide (c.regularSlot ≤ o ∧ o < c.regularSlot + e.slots) || c.block.isSet o) :=
    test_setBits _ (by omega) o
  refine ⟨_,rfl,rfl,rfl,fun o ho => ?_,?_⟩
  · change c.regularSlot + e.slots ≤ o at ho
    refine (hbits o).trans ?_
    rw [hclear o (by omega),Bool.or_false,decide_eq_false_iff_not]
    omega
  · refine hq.insert hpos ?_ (fun k _ => hclear _ (Nat.le_add_right _ _)) hbits
      (fun k hk => Function.update_of_ne hk _ _) (fun k hk => if_neg hk) ⟨⟨hashCode,Function.update_self ..⟩,?_⟩
    · change c.regularSlot + e.slots ≤ 214
      omega
    · refine Eq.trans ?_ hst.name
      unfold nameAt
      refine List.map_congr_left (fun j hj => ?_)
      have hlt := List.mem_range.mp hj
      have hin : c.regularSlot ≤ c.regularSlot + j / 8 ∧ c.regularSlot + j / 8 < c.regularSlot + e.slots := by
        unfold RtfsMemDirEntry.slots getDentrySlots
        simp only at hlt
        omega
      simp only [setNames,if_pos hin,Nat.add_sub_cancel_left]

theorem copyRun_fold {l : List RtfsMemDirEntry} {c : Conversion} {q : List RtfsMemDirEntry} (blockIndex : UInt32)
    (hst : ∀ e ∈ l, area.Stored e ∧ ValidName e.name ∧ e.sourceSlotIndex + e.slots ≤ 194 ∧ e.sourceIsInline = true)
    (hl : l.Pairwise (fun e e' => e.sourceSlotIndex + e.slots ≤ e'.sourceSlotIndex))
    (hroom : ∀ e ∈ l, c.regularSlot ≤ e.sourceSlotIndex)
    (hclear : ∀ o, c.regularSlot ≤ o → c.block.isSet o = false) (hq : c.block.Holds q) :
    ∃ c', (l.map RtfsMemDirEntry.sourceSlotIndex).foldlM (copyRun area) c = .ok c' ∧
      (∀ s, s ∉ l.map RtfsMemDirEntry.sourceSlotIndex → c'.slotMap s = c.slotMap s) ∧
      (∀ e ∈ l, ∃ t, c'.slotMap e.sourceSlotIndex = some t) ∧
      c'.block.Holds (l.map (moveEntry c'.slotMap blockIndex) ++ q) := by
  induction l generalizing c q with
  | nil => exact ⟨c,rfl,fun _ _ => rfl,nofun,hq⟩
  | cons e l ih =>
    obtain ⟨hlt,hl⟩ := List.pairwise_cons.mp hl
    obtain ⟨hs,hv,hfit,hin⟩ := hst e List.mem_cons_self
    obtain ⟨c₁,h₁,hslot₁,hmap₁,hclear₁,hq₁⟩ := copyRun_step hs hv hfit (hroom e List.mem_cons_self) hclear hq blockIndex
    have hroom₁ : ∀ e' ∈ l, c₁.regularSlot ≤ e'.sourceSlotIndex := by
      intro e' he'
      have h1 := hlt e' he'
      have h2 := hroom e List.mem_cons_self
      omega
    obtain ⟨c',h',hother,hdef,hholds⟩ := ih (fun e' he' => hst e' (List.mem_cons_of_mem _ he')) hl hroom₁ hclear₁ hq₁
    have hnot : e.sourceSlotIndex ∉ l.map RtfsMemDirEntry.sourceSlotIndex := by
      intro hmem
      obtain ⟨e',he',heq⟩ := List.mem_map.mp hmem
      have h1 := hlt e' he'
      have h2 : 0 < e.slots := hv.slots_pos
      omega
    have hself : c'.slotMap e.sourceSlotIndex = some c.regularSlot := by
      rw [hother _ hnot,hmap₁,Function.update_self]
    refine ⟨c',?_,fun s hs => ?_,fun e' he' => ?_,?_⟩
    · rw [List.map_cons,List.foldlM_cons,h₁]
      exact h'
    · rw [List.map_cons,List.mem_cons,not_or] at hs
      rw [hother s hs.2,hmap₁,Function.update_of_ne hs.1]
    · rcases List.mem_cons.mp he' with rfl | he'
      · exact ⟨_,hself⟩
      · exact hdef e' he'
    · rw [List.map_cons,moveEntry_eq blockIndex hin (by have := hv.slots_pos; unfold RtfsMemDirEntry.slots at hfit; omega) hself]
      exact hholds.perm List.perm_middle

theorem copyRun_walk (hn : ∀ e ∈ d.entries, ValidName e.name) (hsrc : ∀ e ∈ d.entries, e.sourceIsInline = true)
    (ha : area.Holds d.entries) (blockIndex : UInt32) :
    ∃ c, SlotRuns.walk area.isSet area.slotsAt 194 (copyRun area) 0 ⟨zero,fun _ => none,0⟩ = .ok c ∧
      (∀ e ∈ d.entries, ∃ t, moveEntry c.slotMap blockIndex e = { e with
        sourceIsInline := false,sourceBlockIndex := blockIndex,sourceSlotIndex := t }) ∧
      c.block.Holds (d.entries.map (moveEntry c.slotMap blockIndex)) := by
  obtain ⟨l,hperm,hstarts,hord⟩ := ha.ordered hn
  have hfit (e : RtfsMemDirEntry) (he : e ∈ d.entries) : e.sourceSlotIndex + e.slots ≤ 194 :=
    (ha.tiles.fits e.run (List.mem_map.mpr ⟨e,he,rfl⟩)).2
  obtain ⟨c,hc,-,hdef,hholds⟩ := copyRun_fold (l := l) (c := ⟨zero,fun _ => none,0⟩) (q := []) blockIndex
    (fun e he => ⟨ha.stored e (hperm.mem_iff.mp he),hn e (hperm.mem_iff.mp he),hfit e (hperm.mem_iff.mp he),
      hsrc e (hperm.mem_iff.mp he)⟩) hord (fun _ _ => Nat.zero_le _) (fun o _ => isSet_zero o) holds_zero
  refine ⟨c,?_,fun e he => ?_,?_⟩
  · rw [SlotRuns.walk_eq,hstarts]
    exact hc
  · obtain ⟨t,ht⟩ := hdef e (hperm.mem_iff.mpr he)
    have hpos := (hn e he).slots_pos
    have hle := hfit e he
    unfold RtfsMemDirEntry.slots at hle
    exact ⟨t,moveEntry_eq blockIndex (hsrc e he) (by omega) ht⟩
  · rw [List.append_nil] at hholds
    exact hholds.perm (hperm.map _)

theorem convert_outcome (h : DirOk d) (hi : InlineOk d) (alloc : Bool) (answer : GrowAnswer) :
    ∃ r d', rtfsDirInodeConvertInlineToRegular d alloc answer = (r,d') ∧ DirOk d' ∧ d'.keys = d.keys ∧
      d'.iDentryNum = d.iDentryNum ∧ r ≠ .error .eexist ∧ (r = .ok () → BlocksOk d') := by
  obtain ⟨area,harea,hholds⟩ := hi.area
  obtain ⟨c,hc,hmoved,hblock⟩ := copyRun_walk h.names (fun e he => (hi.source e he).1) hholds 0
  unfold rtfsDirInodeConvertInlineToRegular
  simp only [harea]
  rw [if_neg (by simp [hi.kind,hi.cached])]
  cases alloc with
  | false => exact ⟨_,_,rfl,h,rfl,rfl,nofun,nofun⟩
  | true =>
    simp only [hc]
    rw [if_neg (by decide)]
    obtain ⟨r,d',hat,hk,hcases⟩ := attachBlock_cases
      (d := { d with isInline := false,inlineDentry := some zero,totalBlockCount := 0,loadedBlockCount := 0,isFullyLoaded := true })
      hi.cached answer
    simp only [hat]
    rcases hcases with ⟨e,rfl,hne,hl⟩ | ⟨-,-,hmem⟩ | ⟨rfl,lpa,-,hl⟩
    · refine ⟨_,_,rfl,⟨?_,?_,.inl ⟨hk.kind.trans hi.kind,hk.cached.trans hi.cached,hl.trans hi.blocks,?_,area,rfl,?_⟩⟩,
        congrArg (List.map entryKey) hk.entries,hk.count,fun hc => hne (Except.error.inj hc),nofun⟩
      · exact hk.entries ▸ h.names
      · exact hk.entries ▸ h.distinct
      · exact hk.entries ▸ hi.source
      · exact hk.entries ▸ hholds
    · simp [hi.blocks] at hmem
    · simp only [hi.blocks,List.nil_append] at hl
      have hentries : (installBlock d' c).entries = d.entries.map (moveEntry c.slotMap 0) := by
        simp [installBlock,hl,hk.entries]
      have hloaded : (installBlock d' c).loadedBlocks = [⟨0,lpa,invalidLpa,false,c.block,true⟩] := by
        simp [installBlock,hl]
      have hsource : ∀ e ∈ (installBlock d' c).entries, e.sourceIsInline = false ∧ e.sourceBlockIndex = 0 := by
        rw [hentries]
        intro e he
        obtain ⟨x,hx,rfl⟩ := List.mem_map.mp he
        obtain ⟨t,ht⟩ := hmoved x hx
        rw [ht]
        exact ⟨rfl,rfl⟩
      have hkeys : (installBlock d' c).keys = d.keys := by
        rw [RtfsDirInode.keys,hentries,List.map_map]
        exact List.map_congr_left (fun e _ => moveEntry_key ..)
      have hnames : (installBlock d' c).entries.map RtfsMemDirEntry.name = d.entries.map RtfsMemDirEntry.name := by
        rw [← keys_names,hkeys,keys_names]
      have hb : BlocksOk (installBlock d' c) := by
        refine ⟨.inl rfl,hk.cached.trans hi.cached,?_,fun e he => ?_,fun b hb => ?_⟩
        · rw [hloaded]
          exact List.nodup_singleton _
        · rw [hloaded]
          exact ⟨(hsource e he).1,List.mem_singleton.mpr (hsource e he).2⟩
        · rw [hloaded,List.mem_singleton] at hb
          subst hb
          have hall : (installBlock d' c).entries.filter (inBlock 0) = (installBlock d' c).entries :=
            List.filter_eq_self.mpr (fun e he => decide_eq_true (hsource e he).2)
          change c.block.Holds ((installBlock d' c).entries.filter (inBlock 0))
          rw [hall,hentries]
          exact hblock
      refine ⟨_,_,rfl,⟨fun e he => ?_,hnames ▸ h.distinct,.inr hb⟩,hkeys,hk.count,nofun,fun _ => hb⟩
      rw [hentries] at he
      obtain ⟨x,hx,rfl⟩ := List.mem_map.mp he
      obtain ⟨t,ht⟩ := hmoved x hx
      rw [ht]
      exact h.names x hx

end Convert

section AddEntry
variable {d : RtfsDirInode} {name : List UInt8} {ino : UInt64} {fileType : UInt8}

theorem AddOutcome.of_eq {d' : RtfsDirInode} {r : Except Errno Unit × RtfsDirInode}
    (h : AddOutcome d' name ino fileType r) (hk : d'.keys = d.keys) (hn : d'.iDentryNum = d.iDentryNum) :
    AddOutcome d name ino fileType r where
  ok := h.ok
  exist := by
    rw [h.exist]
    unfold RtfsDirInode.Present
    rw [hk]
  failed := fun e he => ⟨(h.failed e he).1.trans hk,(h.failed e he).2.trans hn⟩
  added := fun he => ⟨(h.added he).1.trans (by rw [hk]),(h.added he).2.trans (by rw [hn])⟩

theorem addInline_outcome (h : DirOk d) (hi : InlineOk d) (hv : ValidName name) (answers : AddAnswers) :
    AddOutcome d name ino fileType (rtfsDirInodeAddInlineBacking d name ino fileType answers) := by
  obtain ⟨area,harea,hholds⟩ := hi.area
  unfold rtfsDirInodeAddInlineBacking
  simp only [harea]
  rw [if_neg (by simp [hi.cached]),if_neg (not_badLength hv)]
  by_cases hp : d.Present name
  · rw [if_pos (find_isSome.mpr hp)]
    exact .of_error h (iff_of_true rfl hp) rfl rfl
  rw [if_neg (fun hc => hp (find_isSome.mp hc))]
  cases hfirst : SlotRuns.firstFit area.isSet 194 (getDentrySlots name.length) 0 with
  | none =>
    obtain ⟨r,d',hconv,hok,hkeys,hnum,hne,hblocks⟩ :=
      convert_outcome h hi answers.convertAlloc (answers.growths.headD .fails)
    simp only [hconv]
    cases r with
    | error e => exact .of_error hok (iff_of_false (fun he => hne (he ▸ rfl)) hp) hkeys hnum
    | ok u => exact (addRegular_outcome hok (hblocks rfl) hv answers.entriesRealloc _).of_eq hkeys hnum
  | some start =>
    obtain ⟨hfit,hfree⟩ := SlotRuns.firstFit_some hfirst
    have hput : (area.put start name ino fileType).Holds (⟨ino,fileType,name,true,0,start⟩ :: d.entries) :=
      hholds.put (e := ⟨ino,fileType,name,true,0,start⟩) hv hfit hfree
    rcases addInternal_cases { d with inlineDentry := some (area.put start name ino fileType) }
      (not_badLength hv) ino fileType answers.entriesRealloc with ⟨hex,_⟩ | ⟨_,_,hadd⟩ | ⟨_,d',hadd,hgrown⟩
    · exact absurd hex hp
    · simp only [hadd]
      exact .of_error ⟨h.names,h.distinct,.inl ⟨hi.kind,hi.cached,hi.blocks,hi.source,_,rfl,hput.clearRun⟩⟩
        (iff_of_false (fun he => by cases he) hp) rfl rfl
    · simp only [hadd]
      have hentries := setLastSource_entries hgrown.entries true 0 start
      obtain ⟨hnames,hdistinct⟩ := h.concat_names (e := ⟨ino,fileType,name,true,0,start⟩) hv hp
      refine .of_ok ⟨hentries ▸ hnames,hentries ▸ hdistinct,.inl ⟨hgrown.kind.trans hi.kind,hgrown.cached.trans hi.cached,
        hgrown.blocks.trans hi.blocks,fun e he => ?_,_,hgrown.inline,?_⟩⟩ hp ?_ hgrown.count
      · rcases List.mem_append.mp (hentries ▸ he) with he | he
        · exact hi.source e he
        · rw [List.mem_singleton.mp he]
          exact ⟨rfl,rfl⟩
      · exact hput.perm ((List.perm_append_singleton _ _).symm.trans (.of_eq hentries.symm))
      · change (setLastSource d' true 0 start).entries.map entryKey = _
        rw [hentries,List.map_append]
        rfl

theorem addEntry_outcome (h : DirOk d) (hv : ValidName name) (answers : AddAnswers) :
    AddOutcome d name ino fileType (rtfsDirInodeAddEntry d name ino fileType answers) := by
  unfold rtfsDirInodeAddEntry
  rcases h.backing with hi | hb
  · rw [hi.kind]
    exact addInline_outcome h hi hv answers
  · rcases hb.kind with hk | ⟨hk,hin⟩
    · rw [hk]
      exact addRegular_outcome h hb hv answers.entriesRealloc answers.growths
    · simp only [hk]
      rw [if_pos ⟨hb.cached,hin⟩]
      exact addRegular_outcome h hb hv answers.entriesRealloc answers.growths

end AddEntry

section Remove
variable {d : RtfsDirInode} {name : List UInt8}

theorem removeAt_perm {es : List RtfsMemDirEntry} {i : Nat} {x : RtfsMemDirEntry} (h : es[i]? = some x) :
    (x :: removeAt es i).Perm es := by
  induction es using List.reverseRecOn with
  | nil => cases h
  | append_singleton l last _ =>
    have hlast : (l ++ [last]).getLast? = some last := List.getLast?_concat
    unfold removeAt
    simp only [hlast]
    obtain ⟨hi,hx⟩ := List.getElem?_eq_some_iff.mp h
    rw [List.length_append,List.length_singleton] at hi
    by_cases hlt : i < l.length
    · rw [List.set_append_left _ _ hlt,List.dropLast_concat]
      rw [List.getElem_append_left hlt] at hx
      have hcut : l = l.take i ++ x :: l.drop (i + 1) := by
        rw [← hx,List.cons_getElem_drop_succ,List.take_append_drop]
      rw [List.set_eq_take_append_cons_drop,if_pos hlt]
      nth_rewrite 3 [hcut]
      refine (List.Perm.cons x List.perm_middle).trans ?_
      refine (List.Perm.swap last x _).trans ?_
      refine List.Perm.trans ?_ (List.perm_append_singleton last _).symm
      exact List.Perm.cons last List.perm_middle.symm
    · obtain rfl : i = l.length := by omega
      rw [List.getElem_append_right le_rfl] at hx
      simp only [Nat.sub_self,List.getElem_cons_zero] at hx
      subst hx
      rw [List.set_append_right _ _ le_rfl,Nat.sub_self,List.set_cons_zero,List.dropLast_concat]
      exact (List.perm_append_singleton _ _).symm

structure RemoveOutcome (d : RtfsDirInode) (name : List UInt8) (r : Except Errno Unit × RtfsDirInode) : Prop where
  ok : DirOk r.2
  absent : r.1 = .error .enoent ↔ ¬ d.Present name
  failed : ∀ e, r.1 = .error e → r.2 = d
  removed : r.1 = .ok () → ∃ ino fileType, ((name,ino,fileType) :: r.2.keys).Perm d.keys ∧
    r.2.iDentryNum = if 0 < d.iDentryNum then d.iDentryNum - 1 else d.iDentryNum

theorem InlineOk.remove (h : InlineOk d) {x : RtfsMemDirEntry} {rest : List RtfsMemDirEntry}
    (hp : (x :: rest).Perm d.entries) {d' : RtfsDirInode} (he : d'.entries = rest)
    (hk : d'.backingKind = d.backingKind) (hc : d'.cached = d.cached) (hl : d'.loadedBlocks = d.loadedBlocks)
    (hi : d'.inlineDentry = d.inlineDentry.map (fun a => a.clearRun x.sourceSlotIndex x.slots)) : InlineOk d' := by
  obtain ⟨area,harea,hholds⟩ := h.area
  refine ⟨hk.trans h.kind,hc.trans h.cached,hl.trans h.blocks,fun e hmem => ?_,_,hi.trans (by rw [harea]; rfl),?_⟩
  · exact h.source e (hp.mem_iff.mp (List.mem_cons_of_mem _ (he ▸ hmem)))
  · rw [he]
    exact (hholds.perm hp.symm).clearRun

theorem BlocksOk.remove (h : BlocksOk d) {x : RtfsMemDirEntry} {rest : List RtfsMemDirEntry}
    (hp : (x :: rest).Perm d.entries) {d' : RtfsDirInode} (he : d'.entries = rest)
    (hk : d'.backingKind = d.backingKind) (hi : d'.isInline = d.isInline) (hc : d'.cached = d.cached)
    (hl : d'.loadedBlocks = (rtfsDirInodeClearRegularEntryBacking d x).loadedBlocks) : BlocksOk d' := by
  have hx : x ∈ d.entries := hp.mem_iff.mp List.mem_cons_self
  obtain ⟨k,hfind⟩ := Option.isSome_iff_exists.mp (findLoaded_isSome.mpr (h.source x hx).2)
  unfold rtfsDirInodeClearRegularEntryBacking at hl
  simp only [hfind] at hl
  obtain ⟨hlt,hat,-⟩ := List.findIdx?_eq_some_iff_getElem.mp hfind
  have hget := List.getElem?_eq_getElem hlt
  have hidx : d'.loadedBlocks.map RtfsLoadedDirBlock.blockIndex =
      d.loadedBlocks.map RtfsLoadedDirBlock.blockIndex := by
    rw [hl]
    exact map_modify_same (fun _ => rfl)
  refine ⟨h.kind.congr hk hi,hc.trans h.cached,hidx ▸ h.indices,fun e hmem => ?_,fun b hb => ?_⟩
  · rw [hidx]
    exact h.source e (hp.mem_iff.mp (List.mem_cons_of_mem _ (he ▸ hmem)))
  · rw [hl] at hb
    rw [he]
    obtain ⟨j,y,hy,rfl⟩ := mem_modify hb
    have hold := (h.blocks y (List.mem_of_getElem? hy)).perm (hp.symm.filter _)
    by_cases hjk : j = k
    · subst hjk
      obtain rfl := Option.some.inj (hget.symm.trans hy)
      rw [if_pos rfl]
      have hin : inBlock d.loadedBlocks[j].blockIndex x = true := decide_eq_true (of_decide_eq_true hat).symm
      rw [List.filter_cons_of_pos hin] at hold
      exact hold.clearRun
    · rw [if_neg hjk]
      rw [List.filter_cons_of_neg] at hold
      · exact hold
      · intro hc
        refine hjk (blockIndex_inj h.indices hy hget ?_)
        exact (of_decide_eq_true hc).symm.trans (of_decide_eq_true hat).symm

theorem removeEntry_outcome (h : DirOk d) (hv : ValidName name) :
    RemoveOutcome d name (rtfsDirInodeRemoveEntry d name) := by
  unfold rtfsDirInodeRemoveEntry rtfsDirInodeRemoveEntryInternal
  rw [if_neg (not_badLength hv)]
  cases hfind : d.entries.findIdx? (fun e => decide (e.name = name)) with
  | none =>
    have habs : ¬ d.Present name := by
      rw [RtfsDirInode.Present,keys_names,List.mem_map]
      rintro ⟨e,he,hname⟩
      have hno := List.findIdx?_eq_none_iff.mp hfind e he
      simp [hname] at hno
    exact ⟨h,iff_of_true rfl habs,fun _ _ => rfl,nofun⟩
  | some i =>
    obtain ⟨hlt,hat,-⟩ := List.findIdx?_eq_some_iff_getElem.mp hfind
    have hget := List.getElem?_eq_getElem hlt
    have hname := of_decide_eq_true hat
    simp only [hget]
    generalize hx : d.entries[i] = x at hget hname ⊢
    have hp := removeAt_perm hget
    have hmem : x ∈ d.entries := List.mem_of_getElem? hget
    have hpresent : d.Present name := by
      rw [RtfsDirInode.Present,keys_names]
      exact List.mem_map.mpr ⟨x,hmem,hname⟩
    have hkeys : ((name,x.ino,x.fileType) :: (removeAt d.entries i).map entryKey).Perm d.keys := by
      have hmap := hp.map entryKey
      rwa [List.map_cons,entryKey,hname] at hmap
    have hnames : ∀ e ∈ removeAt d.entries i, ValidName e.name := fun e he =>
      h.names e (hp.mem_iff.mp (List.mem_cons_of_mem _ he))
    have hdistinct : ((removeAt d.entries i).map RtfsMemDirEntry.name).Nodup :=
      (List.nodup_cons.mp ((hp.map _).nodup_iff.mpr h.distinct)).2
    rcases h.backing with hi | hb
    · rw [if_pos (hi.source x hmem).1]
      refine ⟨⟨hnames,hdistinct,.inl (hi.remove hp rfl rfl rfl rfl rfl)⟩,iff_of_false nofun (not_not.mpr hpresent),nofun,
        fun _ => ⟨x.ino,x.fileType,hkeys,rfl⟩⟩
    · have hregular : ¬ x.sourceIsInline = true := by simp [(hb.source x hmem).1]
      rw [if_neg hregular]
      have hcases : rtfsDirInodeClearRegularEntryBacking d x = { d with
          loadedBlocks := (rtfsDirInodeClearRegularEntryBacking d x).loadedBlocks } := by
        unfold rtfsDirInodeClearRegularEntryBacking
        cases findLoadedIndex d x.sourceBlockIndex <;> rfl
      rw [hcases]
      refine ⟨⟨hnames,hdistinct,.inr (hb.remove hp rfl rfl rfl rfl rfl)⟩,iff_of_false nofun (not_not.mpr hpresent),nofun,
        fun _ => ⟨x.ino,x.fileType,hkeys,rfl⟩⟩

end Remove

end DirEntries

end Rtfs
