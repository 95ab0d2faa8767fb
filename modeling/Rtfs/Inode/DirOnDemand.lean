import Rtfs.Inode.DirContent

namespace Rtfs

namespace DirEntries

open DentryArea

namespace DirContent

structure Holds (c : DirContent) (es : List RtfsMemDirEntry) : Prop where
  names : ∀ e ∈ es, ValidName e.name
  distinct : (es.map RtfsMemDirEntry.name).Nodup
  narrow : ∀ e ∈ es, e.ino.toNat < 2 ^ 32
  size : c.blocks.length ≤ 2 ^ 32
  inline : c.isInline = true → c.blocks = [] ∧ c.inlineDentry.Holds es ∧
    ∀ e ∈ es, e.sourceIsInline = true ∧ e.sourceBlockIndex = 0
  source : c.isInline = false → ∀ e ∈ es, e.sourceIsInline = false ∧ e.sourceBlockIndex.toNat < c.blocks.length
  blocks : c.isInline = false → ∀ (i : Nat) (b : MappedBlock), c.blocks[i]? = some b → b.block.Holds (es.filter (inBlock (UInt32.ofNat i)))

-- the entries in the inline area or in block 0, which is all that an on-demand build loads
def firstEntries (es : List RtfsMemDirEntry) : List RtfsMemDirEntry := es.filter (inBlock 0)

def otherEntries (es : List RtfsMemDirEntry) : List RtfsMemDirEntry := es.filter (fun e => !inBlock 0 e)

section Frame
variable {d d' : RtfsDirInode}

structure SameKind (d d' : RtfsDirInode) : Prop where
  kind : d'.backingKind = d.backingKind
  cached : d'.cached = d.cached
  isInline : d'.isInline = d.isInline

theorem SameKind.trans {d'' : RtfsDirInode} (h : SameKind d d') (h' : SameKind d' d'') : SameKind d d'' :=
  ⟨h'.kind.trans h.kind,h'.cached.trans h.cached,h'.isInline.trans h.isInline⟩

theorem buildEntryAt_kind {n : Nat} {skipDots isInline : Bool} {blockIndex : UInt32} {realloc : Bool}
    {area : DentryArea n} {index : Nat}
    (h : buildEntryAt skipDots isInline blockIndex realloc area d index = .ok d') : SameKind d d' := by
  unfold buildEntryAt at h
  simp only at h
  split at h
  · cases h
  split at h
  · cases h
  split at h
  · cases h
    exact ⟨rfl,rfl,rfl⟩
  obtain ⟨added,hadd,rfl⟩ := Except.map_ok h
  unfold rtfsDirInodeAddEntryInternal at hadd
  split at hadd
  · cases hadd
  split at hadd
  · cases hadd
  split at hadd
  · cases hadd
  · cases hadd
    exact ⟨rfl,rfl,rfl⟩

theorem walk_kind {n : Nat} {skipDots isInline : Bool} {blockIndex : UInt32} {realloc : Bool}
    {area : DentryArea n} (h : SlotRuns.walk area.isSet area.slotsAt n
      (buildEntryAt skipDots isInline blockIndex realloc area) 0 d = .ok d') : SameKind d d' := by
  rw [SlotRuns.walk_eq] at h
  generalize SlotRuns.starts area.isSet area.slotsAt n 0 = l at h
  induction l generalizing d with
  | nil =>
    cases h
    exact ⟨rfl,rfl,rfl⟩
  | cons i l ih =>
    rw [List.foldlM_cons] at h
    obtain ⟨d₁,h₁,h'⟩ := Except.bind_ok h
    exact (buildEntryAt_kind h₁).trans (ih h')

theorem appendRegular_kind {b : RtfsDentryBlock} {blockIndex lpa : UInt32} (hk : d.backingKind = .blocks)
    (h : rtfsDirInodeAppendRegularEntries d b blockIndex lpa true true = .ok d') :
    SameKind d d' ∧ d'.iDentryNum = d.iDentryNum ∧ (blockIndex ∉ d.loadedBlocks.map RtfsLoadedDirBlock.blockIndex →
      d'.loadedBlocks = d.loadedBlocks ++ [⟨blockIndex,lpa,invalidLpa,false,b,false⟩]) := by
  unfold rtfsDirInodeAppendRegularEntries at h
  simp only [hk,if_neg (show ¬ RtfsDirBackingKind.blocks = .empty by decide)] at h
  obtain ⟨d₁,hrem,h⟩ := Except.bind_ok h
  obtain ⟨d₂,hwalk,rfl⟩ := Except.map_ok h
  have hkind := walk_kind hwalk
  have hrem' : SameKind d d₁ ∧ d₁.iDentryNum = d.iDentryNum ∧
      (blockIndex ∉ d.loadedBlocks.map RtfsLoadedDirBlock.blockIndex →
        d₁.loadedBlocks = d.loadedBlocks ++ [⟨blockIndex,lpa,invalidLpa,false,b,false⟩]) := by
    unfold rtfsDirInodeRememberLoadedBlock at hrem
    split at hrem
    · rename_i hin
      cases hrem
      exact ⟨⟨rfl,rfl,rfl⟩,rfl,fun hnew => absurd (findLoaded_isSome.mp hin) hnew⟩
    · rw [if_neg (by decide)] at hrem
      cases hrem
      exact ⟨⟨rfl,rfl,rfl⟩,rfl,fun _ => rfl⟩
  rw [SlotRuns.walk_eq] at hwalk
  have hblocks := (fold_parsed hwalk).blocks
  exact ⟨hrem'.1.trans ⟨hkind.kind,hkind.cached,hkind.isInline⟩,hrem'.2.1,
    fun hnew => hblocks.trans (hrem'.2.2 hnew)⟩

end Frame

section Parts
variable {c : DirContent} {es : List RtfsMemDirEntry} {d : RtfsDirInode} {name : List UInt8}

theorem parts_perm (es : List RtfsMemDirEntry) : (firstEntries es ++ otherEntries es).Perm es :=
  List.filter_append_perm _ _

theorem onDisk_map {l : List RtfsMemDirEntry} (h : ∀ e ∈ l, e.ino.toNat < 2 ^ 32) :
    l.map RtfsMemDirEntry.onDisk = l := by
  have hid : ∀ e ∈ l, e.onDisk = id e := fun e he => onDisk_eq (h e he)
  rw [List.map_congr_left hid,List.map_id]

theorem Holds.inline_first (h : c.Holds es) (hi : c.isInline = true) :
    firstEntries es = es ∧ otherEntries es = [] := by
  have hsrc : ∀ e ∈ es, inBlock 0 e = true := fun e he => decide_eq_true ((h.inline hi).2.2 e he).2
  refine ⟨List.filter_eq_self.mpr hsrc,List.filter_eq_nil_iff.mpr (fun e he => ?_)⟩
  rw [hsrc e he]
  decide

structure LoadedPart (c : DirContent) (es : List RtfsMemDirEntry) (k : Nat) (d : RtfsDirInode) : Prop where
  entries : d.entries.Perm (es.filter (fun e => decide (e.sourceBlockIndex.toNat < k)))
  indices : d.loadedBlocks.map RtfsLoadedDirBlock.blockIndex = (List.range k).map UInt32.ofNat
  kind : d.backingKind = .blocks
  le : k ≤ c.blocks.length
  counted : Counted c d
  count : d.loadedBlockCount = k

theorem filter_below (es : List RtfsMemDirEntry) {k : Nat} (hk : k < 2 ^ 32) :
    (es.filter (fun e => decide (e.sourceBlockIndex.toNat < k)) ++ es.filter (inBlock (UInt32.ofNat k))).Perm
      (es.filter (fun e => decide (e.sourceBlockIndex.toNat < k + 1))) := by
  have hnat : (UInt32.ofNat k).toNat = k := by
    rw [UInt32.toNat_ofNat',Nat.mod_eq_of_lt hk]
  refine List.Perm.trans ?_ (List.filter_append_perm (fun e => decide (e.sourceBlockIndex.toNat < k)) _)
  rw [List.filter_filter,List.filter_filter]
  refine List.Perm.append (.of_eq (List.filter_congr (fun e _ => ?_))) (.of_eq (List.filter_congr (fun e _ => ?_)))
  · rw [← Bool.decide_and,decide_eq_decide]
    omega
  · have hiff : e.sourceBlockIndex = UInt32.ofNat k ↔ e.sourceBlockIndex.toNat = k := by
      rw [← UInt32.toNat_inj,hnat]
    unfold inBlock
    rw [← decide_not,← Bool.decide_and,decide_eq_decide,hiff]
    omega

theorem LoadedPart.absent (h : LoadedPart c es k d) (hd : (es.map RtfsMemDirEntry.name).Nodup)
    {e : RtfsMemDirEntry} (he : e ∈ es) (hk : k ≤ e.sourceBlockIndex.toNat) : ¬ d.Present e.name := by
  unfold RtfsDirInode.Present
  rw [keys_names]
  intro hin
  obtain ⟨x,hx,hname⟩ := List.mem_map.mp hin
  obtain ⟨hxe,hlt⟩ := List.mem_filter.mp (h.entries.mem_iff.mp hx)
  have hxe' : x = e := List.inj_on_of_nodup_map hd hxe he hname
  rw [hxe',decide_eq_true_eq] at hlt
  omega

theorem LoadedPart.next (h : LoadedPart c es k d) (hc : c.Holds es) (hi : c.isInline = false)
    (hlt : k < c.blocks.length) : ∃ d', c.rtfsDirInodeLoadNextBlocks d = .ok d' ∧ LoadedPart c es (k + 1) d' ∧
      SameKind d d' ∧ d'.iDentryNum = d.iDentryNum ∧ ∃ b, c.blocks[k]? = some b ∧
        d'.loadedBlocks = d.loadedBlocks ++ [⟨UInt32.ofNat k,b.lpa,invalidLpa,false,b.block,false⟩] := by
  have hsize := hc.size
  have hkn : k < 2 ^ 32 := by omega
  have hget := List.getElem?_eq_getElem hlt
  generalize c.blocks[k] = b at hget
  have hnat : (UInt32.ofNat k).toNat = k := by
    rw [UInt32.toNat_ofNat',Nat.mod_eq_of_lt hkn]
  have hmem {e : RtfsMemDirEntry} (he : e ∈ es.filter (inBlock (UInt32.ofNat k))) :
      e ∈ es ∧ e.sourceBlockIndex = UInt32.ofNat k :=
    ⟨(List.mem_filter.mp he).1,of_decide_eq_true (List.mem_filter.mp he).2⟩
  have hfresh : UInt32.ofNat k ∉ d.loadedBlocks.map RtfsLoadedDirBlock.blockIndex := by
    rw [h.indices]
    intro hin
    obtain ⟨j,hj,heq⟩ := List.mem_map.mp hin
    have hjk := List.mem_range.mp hj
    have hn := congrArg UInt32.toNat heq
    rw [UInt32.toNat_ofNat',hnat,Nat.mod_eq_of_lt (by omega)] at hn
    omega
  obtain ⟨d₁,l,happ,hp,hentries,hidx⟩ := appendRegular_step (o := d)
    (b := ⟨UInt32.ofNat k,b.lpa,invalidLpa,false,b.block,false⟩) (hc.blocks hi k b hget)
    (fun e he => hc.names e (hmem he).1) (hc.distinct.sublist (List.filter_sublist.map _))
    (fun e he => ⟨(hc.source hi e (hmem he).1).1,(hmem he).2⟩)
    (fun e he => h.absent hc.distinct (hmem he).1 (by rw [(hmem he).2,hnat])) hfresh
  obtain ⟨hkind,hnum,hloaded⟩ := appendRegular_kind h.kind happ
  have hl : l.map RtfsMemDirEntry.onDisk = l := onDisk_map (fun e he => hc.narrow e (hmem (hp.mem_iff.mp he)).1)
  rw [hl] at hentries
  obtain ⟨hcounted,hcount⟩ := h.counted.next (appendRegular_appends happ).total (k := k + 1) hlt
  refine ⟨rtfsDirInodeSetLoadedBlockCount d₁ (k + 1),?_,⟨?_,?_,?_,hlt,hcounted,hcount⟩,
    ⟨hkind.kind,hkind.cached,hkind.isInline⟩,hnum,b,hget,hloaded hfresh⟩
  · unfold rtfsDirInodeLoadNextBlocks
    rw [h.count,hget]
    change (rtfsDirInodeAppendRegularEntries d b.block (UInt32.ofNat k) b.lpa true true).map _ = _
    rw [happ]
    rfl
  · change d₁.entries.Perm _
    rw [hentries]
    exact (h.entries.append hp).trans (filter_below es hkn)
  · change d₁.loadedBlocks.map _ = _
    rw [hidx,h.indices,List.range_succ,List.map_append]
    rfl
  · exact hkind.kind.trans h.kind

theorem start_part (hi : c.isInline = false) :
    c.rtfsDirInodeBuildFromCache = .ok { c.rtfsDirInodeBuildMetadata with backingKind := .blocks } ∧
      LoadedPart c es 0 { c.rtfsDirInodeBuildMetadata with backingKind := .blocks } := by
  have hb : c.rtfsDirInodeBuildFromCache = .ok { c.rtfsDirInodeBuildMetadata with backingKind := .blocks } := by
    unfold rtfsDirInodeBuildFromCache
    rw [hi]
    rfl
  refine ⟨hb,?_,rfl,rfl,Nat.zero_le _,?_,rfl⟩
  · rw [List.filter_eq_nil_iff.mpr (by simp)]
    exact .refl _
  · rcases build_cases hb with ⟨ht,-⟩ | ⟨-,hc⟩
    · exact absurd (hi.symm.trans ht) (by decide)
    · exact hc

end Parts

def answer (es : List RtfsMemDirEntry) (name : List UInt8) : Except Errno RtfsDirLookupResult :=
  match es.find? (fun e => decide (e.name = name)) with
  | some e => .ok (.entry e)
  | none => .error .enoent

section Lookup
variable {c : DirContent} {es l : List RtfsMemDirEntry} {d : RtfsDirInode} {name : List UInt8}

theorem answer_found (hd : (es.map RtfsMemDirEntry.name).Nodup) {e : RtfsMemDirEntry} (he : e ∈ es) :
    answer es e.name = .ok (.entry e) := by
  unfold answer
  cases hf : es.find? (fun x => decide (x.name = e.name)) with
  | none =>
    have hno := List.find?_eq_none.mp hf e he
    simp at hno
  | some x =>
    have hname : x.name = e.name := by simpa using List.find?_some hf
    rw [List.inj_on_of_nodup_map hd (List.mem_of_find?_eq_some hf) he hname]

theorem answer_absent (h : ∀ e ∈ es, e.name ≠ name) : answer es name = .error .enoent := by
  unfold answer
  rw [List.find?_eq_none.mpr (fun e he => by simpa using h e he)]

theorem answer_cases (hd : (es.map RtfsMemDirEntry.name).Nodup) (name : List UInt8) :
    (∃ e ∈ es, e.name = name ∧ answer es name = .ok (.entry e)) ∨
      (∀ e ∈ es, e.name ≠ name) ∧ answer es name = .error .enoent := by
  by_cases h : ∃ e ∈ es, e.name = name
  · obtain ⟨e,he,rfl⟩ := h
    exact .inl ⟨e,he,rfl,answer_found hd he⟩
  · have hall : ∀ e ∈ es, e.name ≠ name := fun e he hn => h ⟨e,he,hn⟩
    exact .inr ⟨hall,answer_absent hall⟩

theorem lookup_part (hdots : name ≠ [46] ∧ name ≠ [46,46]) (hd : (es.map RtfsMemDirEntry.name).Nodup)
    {p : RtfsMemDirEntry → Bool} (hp : d.entries.Perm (es.filter p)) :
    rtfsDirInodeLookup d name = answer es name ∨
      rtfsDirInodeLookup d name = .error .enoent ∧ ∀ e ∈ es, e.name = name → p e = false := by
  have hlookup : rtfsDirInodeLookup d name = answer d.entries name := by
    unfold rtfsDirInodeLookup answer rtfsDirInodeFindEntry
    refine (if_neg hdots.1).trans ((if_neg hdots.2).trans ?_)
    cases d.entries.find? (fun e => decide (e.name = name)) <;> rfl
  have hnodup : (d.entries.map RtfsMemDirEntry.name).Nodup :=
    (hp.map _).nodup_iff.mpr (hd.sublist (List.filter_sublist.map _))
  rw [hlookup]
  rcases answer_cases hnodup name with ⟨e,he,rfl,hfound⟩ | ⟨hno,habs⟩
  · left
    rw [hfound,answer_found hd (List.mem_filter.mp (hp.mem_iff.mp he)).1]
  · right
    refine ⟨habs,fun e he hname => Bool.eq_false_iff.mpr (fun ht => ?_)⟩
    exact hno e (hp.mem_iff.mpr (List.mem_filter.mpr ⟨he,ht⟩)) hname

theorem LoadedPart.lookup (hc : c.Holds es) (hi : c.isInline = false) (hdots : name ≠ [46] ∧ name ≠ [46,46])
    {k left : Nat} (h : LoadedPart c es k d) (hleft : left = c.blocks.length - k) :
    c.lookupLoop name left d = answer es name := by
  have hpart := lookup_part hdots hc.distinct h.entries
  induction left generalizing k d with
  | zero =>
    rw [lookupLoop]
    rcases hpart with hp | ⟨hp,hno⟩
    · exact hp
    · rw [hp,answer_absent (fun e he hname => ?_)]
      have hlt := (hc.source hi e he).2
      have hge := of_decide_eq_false (hno e he hname)
      omega
  | succ left ih =>
    have hlt : k < c.blocks.length := by omega
    have hfull : d.isFullyLoaded = false := by
      rw [h.counted.full,h.count]
      exact decide_eq_false (Nat.not_le.mpr hlt)
    rw [lookupLoop]
    by_cases hfound : rtfsDirInodeLookup d name = .error .enoent
    · rw [if_neg (by simp [hfound,hfull])]
      obtain ⟨d',hnext,hpart',-⟩ := h.next hc hi hlt
      unfold rtfsDirInodeResolveOnDemand
      rw [hfull,if_neg (by decide),hnext]
      exact ih hpart' (by omega) (lookup_part hdots hc.distinct hpart'.entries)
    · rw [if_pos (.inl hfound)]
      exact hpart.resolve_right (fun hp => hfound hp.1)

end Lookup

structure Tracks (c : DirContent) (d : RtfsDirInode) : Prop where
  kind : d.backingKind ≠ .empty
  flag : d.isInline = decide (d.backingKind = .inline)
  inline : d.backingKind = .inline → c.isInline = true ∧ d.totalBlockCount = 0
  le : c.blocks.length ≤ d.totalBlockCount
  inside : ∀ b ∈ d.loadedBlocks, b.blockIndex.toNat < d.totalBlockCount
  part : ∀ b ∈ d.loadedBlocks, b.blockIndex = 0 ∨ c.blocks.length ≤ b.blockIndex.toNat
  idle : ∀ b ∈ d.loadedBlocks, b.hasPendingCowRelocation = false
  clean : ∀ b ∈ d.loadedBlocks, b.isDirty = false →
    ∃ m, c.blocks[b.blockIndex.toNat]? = some m ∧ m.block = b.block
  loads : ∀ i < d.totalBlockCount, i = 0 ∨ c.blocks.length ≤ i →
    UInt32.ofNat i ∈ d.loadedBlocks.map RtfsLoadedDirBlock.blockIndex
  home : ∀ b ∈ d.loadedBlocks, ∀ m, c.blocks[b.blockIndex.toNat]? = some m → b.lpa = m.lpa

structure BuiltOnDemand (c : DirContent) (es : List RtfsMemDirEntry) (d : RtfsDirInode) : Prop where
  ok : DirOk d
  tracks : Tracks c d
  entries : d.entries.Perm (firstEntries es)
  total : d.totalBlockCount = c.blocks.length
  num : d.iDentryNum = c.iDentryNum

section Resolve
variable {c : DirContent} {es : List RtfsMemDirEntry} {d : RtfsDirInode} {name : List UInt8}

theorem Holds.build_inline (h : c.Holds es) (hi : c.isInline = true) :
    ∃ d, c.rtfsDirInodeBuildFromCache = .ok d ∧ d.isFullyLoaded = true ∧ BuiltOnDemand c es d := by
  obtain ⟨hnil,hholds,hsrc⟩ := h.inline hi
  let o : RtfsDirInode := { c.rtfsDirInodeBuildMetadata with
    backingKind := .inline, inlineDentry := some c.inlineDentry, iDentryNum := 0 }
  obtain ⟨o',l,hwalk,hp,hentries,hblocks⟩ := walk_parses (o := o) false hholds h.names h.distinct hsrc
    (fun _ _ => List.not_mem_nil)
  have hl : l.map RtfsMemDirEntry.onDisk = l := onDisk_map (fun e he => h.narrow e (hp.mem_iff.mp he))
  rw [hl] at hentries
  have hperm : o'.entries.Perm es := by
    rw [hentries]
    exact hp
  have hkind := walk_kind hwalk
  have htotal : o'.totalBlockCount = c.blocks.length := (walk_appends hwalk).total
  have hinline : o'.inlineDentry = some c.inlineDentry := by
    rw [SlotRuns.walk_eq] at hwalk
    exact (fold_parsed hwalk).inline
  refine ⟨{ o' with iDentryNum := c.iDentryNum,loadedBlockCount := o'.totalBlockCount,isFullyLoaded := true },
    ?_,rfl,⟨⟨fun e he => h.names e (hperm.mem_iff.mp he),(hperm.map _).nodup_iff.mpr h.distinct,
      .inl ⟨hkind.kind,hkind.cached,hblocks,fun e he => hsrc e (hperm.mem_iff.mp he),c.inlineDentry,hinline,
        hholds.perm hperm.symm⟩⟩,?_,?_,htotal,rfl⟩⟩
  · unfold rtfsDirInodeBuildFromCache rtfsDirInodeBuildInlineEntries
    rw [if_pos hi]
    change Except.map _ (SlotRuns.walk c.inlineDentry.isSet c.inlineDentry.slotsAt 194
      (buildEntryAt false true 0 true c.inlineDentry) 0 o) = _
    rw [hwalk]
    rfl
  · have hk : o'.backingKind = .inline := hkind.kind
    have hb : o'.loadedBlocks = [] := hblocks
    have hlen : c.blocks.length = 0 := by rw [hnil]; rfl
    refine ⟨?_,?_,fun _ => ⟨hi,htotal.trans hlen⟩,htotal.ge,?_,?_,?_,?_,?_,?_⟩
    · change o'.backingKind ≠ .empty
      rw [hk]
      decide
    · change o'.isInline = decide (o'.backingKind = .inline)
      rw [hkind.isInline,hk]
      exact hi
    · change ∀ b ∈ o'.loadedBlocks, _
      rw [hb]
      exact fun b hin => absurd hin List.not_mem_nil
    · change ∀ b ∈ o'.loadedBlocks, _
      rw [hb]
      exact fun b hin => absurd hin List.not_mem_nil
    · change ∀ b ∈ o'.loadedBlocks, _
      rw [hb]
      exact fun b hin => absurd hin List.not_mem_nil
    · change ∀ b ∈ o'.loadedBlocks, _
      rw [hb]
      exact fun b hin => absurd hin List.not_mem_nil
    · intro i hlt
      change i < o'.totalBlockCount at hlt
      omega
    · change ∀ b ∈ o'.loadedBlocks, _
      rw [hb]
      exact fun b hin => absurd hin List.not_mem_nil
  · rw [(h.inline_first hi).1]
    exact hperm

theorem BlocksOk.of_first (h : c.Holds es) (hi : c.isInline = false) {b : MappedBlock} (hb : c.blocks[0]? = some b)
    (hk : d.backingKind = .blocks) (hc : d.cached = true) (hp : d.entries.Perm (firstEntries es))
    (hl : d.loadedBlocks = [⟨0,b.lpa,invalidLpa,false,b.block,false⟩]) : BlocksOk d := by
  have hsrc : ∀ e ∈ d.entries, e.sourceIsInline = false ∧ e.sourceBlockIndex = 0 := fun e he => by
    obtain ⟨hes,hin⟩ := List.mem_filter.mp (hp.mem_iff.mp he)
    exact ⟨(h.source hi e hes).1,of_decide_eq_true hin⟩
  refine ⟨.inl hk,hc,?_,fun e he => ?_,fun x hx => ?_⟩
  · rw [hl]
    exact List.nodup_singleton _
  · rw [hl]
    exact ⟨(hsrc e he).1,List.mem_singleton.mpr (hsrc e he).2⟩
  · rw [hl,List.mem_singleton] at hx
    subst hx
    have hall : d.entries.filter (inBlock 0) = d.entries :=
      List.filter_eq_self.mpr (fun e he => decide_eq_true (hsrc e he).2)
    change b.block.Holds (d.entries.filter (inBlock 0))
    rw [hall]
    exact (h.blocks hi 0 b hb).perm hp.symm

theorem Holds.build_regular (h : c.Holds es) (hi : c.isInline = false) :
    ∃ d, c.rtfsDirInodeResolve = .ok d ∧ BuiltOnDemand c es d ∧ ∃ k, LoadedPart c es k d := by
  obtain ⟨hb,hpart⟩ := @start_part c es hi
  by_cases hlt : 0 < c.blocks.length
  · obtain ⟨d,hnext,hpart',hkind,hnum,b,hget,hloaded⟩ := hpart.next h hi hlt
    have hfirst : d.entries.Perm (firstEntries es) := by
      refine hpart'.entries.trans (.of_eq (List.filter_congr (fun e _ => ?_)))
      unfold inBlock
      rw [decide_eq_decide,← UInt32.toNat_inj]
      exact Nat.lt_one_iff
    have hl : d.loadedBlocks = [⟨0,b.lpa,invalidLpa,false,b.block,false⟩] := hloaded
    have hresolve : c.rtfsDirInodeResolve = .ok d := by
      unfold rtfsDirInodeResolve
      rw [hb]
      change c.rtfsDirInodeResolveOnDemand _ = _
      unfold rtfsDirInodeResolveOnDemand
      rw [if_neg (by rw [hpart.counted.full,decide_eq_true_eq]; exact Nat.not_le.mpr hlt),hnext]
    have hinl : d.isInline = false := hkind.isInline.trans hi
    have hone {x : RtfsLoadedDirBlock} (hx : x ∈ d.loadedBlocks) :
        x = ⟨0,b.lpa,invalidLpa,false,b.block,false⟩ := by
      rw [hl] at hx
      exact List.mem_singleton.mp hx
    refine ⟨d,hresolve,⟨⟨fun e he => ?_,?_,.inr (BlocksOk.of_first h hi hget hpart'.kind hkind.cached hfirst hl)⟩,
      ⟨?_,?_,fun hk => ?_,hpart'.counted.total.ge,fun x hx => ?_,fun x hx => ?_,fun x hx => ?_,fun x hx _ => ?_,
        fun i hlt hor => ?_,fun x hx m hm => ?_⟩,hfirst,hpart'.counted.total,hnum⟩,1,hpart'⟩
    · exact h.names e (List.mem_filter.mp (hfirst.mem_iff.mp he)).1
    · exact (hfirst.map _).nodup_iff.mpr (h.distinct.sublist (List.filter_sublist.map _))
    · rw [hpart'.kind]
      decide
    · rw [hinl,hpart'.kind]
      rfl
    · rw [hpart'.kind] at hk
      cases hk
    · rw [hone hx,hpart'.counted.total]
      exact hlt
    · rw [hone hx]
      exact .inl rfl
    · rw [hone hx]
    · rw [hone hx]
      exact ⟨b,hget,rfl⟩
    · rw [hpart'.counted.total] at hlt
      rw [hl]
      have hz : i = 0 := by omega
      rw [hz]
      exact List.mem_cons_self
    · rw [hone hx] at hm ⊢
      cases hget.symm.trans hm
      rfl
  · have hzero : c.blocks.length = 0 := Nat.eq_zero_of_not_pos hlt
    have hnil : es = [] := List.eq_nil_iff_forall_not_mem.mpr (fun e he => by
      have := (h.source hi e he).2
      omega)
    refine ⟨{ c.rtfsDirInodeBuildMetadata with backingKind := .blocks },?_,
      ⟨⟨fun e he => absurd he List.not_mem_nil,List.nodup_nil,.inr ⟨.inl rfl,rfl,List.nodup_nil,
        fun e he => absurd he List.not_mem_nil,fun b hin => absurd hin List.not_mem_nil⟩⟩,
      ⟨fun hk => (by cases hk),hi,fun hk => (by cases hk),le_rfl,fun b hin => absurd hin List.not_mem_nil,
        fun b hin => absurd hin List.not_mem_nil,fun b hin => absurd hin List.not_mem_nil,
        fun b hin => absurd hin List.not_mem_nil,fun i hlt => ?_,fun b hin => absurd hin List.not_mem_nil⟩,
        ?_,rfl,rfl⟩,0,hpart⟩
    · unfold rtfsDirInodeResolve
      rw [hb]
      change c.rtfsDirInodeResolveOnDemand _ = _
      unfold rtfsDirInodeResolveOnDemand
      rw [if_pos]
      rw [hpart.counted.full,hzero]
      rfl
    · change i < c.blocks.length at hlt
      omega
    · rw [hnil]
      exact .refl _

theorem Holds.resolve (h : c.Holds es) : ∃ d, c.rtfsDirInodeResolve = .ok d ∧ BuiltOnDemand c es d := by
  cases hi : c.isInline with
  | true =>
    obtain ⟨d,hb,hfull,hbuilt⟩ := h.build_inline hi
    refine ⟨d,?_,hbuilt⟩
    unfold rtfsDirInodeResolve
    rw [hb]
    exact if_pos hfull
  | false =>
    obtain ⟨d,hr,hbuilt,-⟩ := h.build_regular hi
    exact ⟨d,hr,hbuilt⟩

theorem Holds.lookup (h : c.Holds es) (hdots : name ≠ [46] ∧ name ≠ [46,46]) :
    c.rtfsResolveNameInParent name = answer es name := by
  unfold DirContent.rtfsResolveNameInParent
  cases hi : c.isInline with
  | true =>
    obtain ⟨d,hb,hfull,hbuilt⟩ := h.build_inline hi
    have hr : c.rtfsDirInodeResolve = .ok d := by
      unfold rtfsDirInodeResolve
      rw [hb]
      exact if_pos hfull
    rw [hr]
    change c.lookupLoop name (d.totalBlockCount - d.loadedBlockCount) d = _
    rw [hbuilt.total,(h.inline hi).1,List.length_nil,Nat.zero_sub,lookupLoop]
    rcases lookup_part hdots h.distinct hbuilt.entries with hp | ⟨hp,hno⟩
    · exact hp
    · rw [hp,answer_absent (fun e he hname => ?_)]
      have hfalse := hno e he hname
      unfold inBlock at hfalse
      rw [((h.inline hi).2.2 e he).2] at hfalse
      cases hfalse
  | false =>
    obtain ⟨d,hr,-,k,hpart⟩ := h.build_regular hi
    rw [hr]
    change c.lookupLoop name (d.totalBlockCount - d.loadedBlockCount) d = _
    exact hpart.lookup h hi hdots (by rw [hpart.counted.total,hpart.count])

end Resolve

end DirContent

end DirEntries

end Rtfs
