import Mathlib.Data.List.TakeWhile
import Mathlib.Data.UInt
import Rtfs.Inode.DirRepresentation

namespace Rtfs

namespace DirEntries

open DentryArea

def reparse (fresh d : RtfsDirInode) : Except Errno RtfsDirInode :=
  match d.backingKind,d.inlineDentry with
  | .inline,some area => rtfsDirInodeBuildInlineEntries fresh area true
  | _,_ => d.loadedBlocks.foldlM (fun o b =>
      rtfsDirInodeAppendRegularEntries o b.block b.blockIndex b.lpa true true) fresh

inductive DirOp
  | add (name : List UInt8) (childIno : UInt64) (childType : UInt8) (answers : AddAnswers)
  | remove (name : List UInt8)

namespace DirOp

def name : DirOp → List UInt8
  | add name _ _ _ => name
  | remove name => name

def apply (d : RtfsDirInode) : DirOp → Except Errno Unit × RtfsDirInode
  | add name childIno childType answers => rtfsDirInodeAddEntry d name childIno childType answers
  | remove name => rtfsDirInodeRemoveEntry d name

def Narrow : DirOp → Prop
  | add _ childIno _ _ => childIno.toNat < 2 ^ 32
  | remove _ => True

end DirOp

def after (d : RtfsDirInode) (ops : List DirOp) : RtfsDirInode := ops.foldl (fun d op => (op.apply d).2) d

structure Represented (d : RtfsDirInode) : Prop where
  ok : DirOk d
  reparsed : ∀ fresh : RtfsDirInode, fresh.entries = [] → fresh.loadedBlocks = [] →
    ∃ o, reparse fresh d = .ok o ∧ o.entries.Perm d.entries
  count : d.iDentryNum.toNat = d.entries.length

structure Answered (d : RtfsDirInode) (op : DirOp) : Prop where
  present : ∀ name ino fileType answers, op = .add name ino fileType answers →
    ((op.apply d).1 = .error .eexist ↔ d.Present name)
  added : ∀ name ino fileType answers, op = .add name ino fileType answers → (op.apply d).1 = .ok () →
    (op.apply d).2.keys.Perm ((name,ino,fileType) :: d.keys)
  absent : ∀ name, op = .remove name → ((op.apply d).1 = .error .enoent ↔ ¬ d.Present name)
  removed : ∀ name, op = .remove name → (op.apply d).1 = .ok () →
    ∃ ino fileType, d.keys.Perm ((name,ino,fileType) :: (op.apply d).2.keys)
  failed : ∀ e, (op.apply d).1 = .error e → (op.apply d).2.keys = d.keys

section Parse
variable {n : Nat} {area : DentryArea n} {o : RtfsDirInode}

theorem takeWhile_name {name : List UInt8} (h : 0 ∉ name) : name.takeWhile (· ≠ 0) = name :=
  List.takeWhile_eq_self_iff.mpr (fun _ hb => decide_eq_true (ne_of_mem_of_not_mem hb h))

theorem buildEntryAt_step {e : RtfsMemDirEntry} (hst : area.Stored e) (hv : ValidName e.name)
    (hfit : e.sourceSlotIndex + e.slots ≤ n) (skipDots : Bool) (hnew : ¬ o.Present e.name) :
    ∃ o', buildEntryAt skipDots e.sourceIsInline e.sourceBlockIndex true area o e.sourceSlotIndex = .ok o' ∧
      o'.entries = o.entries ++ [e.onDisk] ∧ o'.loadedBlocks = o.loadedBlocks := by
  obtain ⟨hashCode,hd⟩ := hst.dentry
  have hlen : (UInt16.ofNat e.name.length).toNat = e.name.length := by
    have := hv.2.1
    unfold rtfsNameLen at this
    rw [UInt16.toNat_ofNat',Nat.mod_eq_of_lt (by omega)]
  have hlegal : ¬ (e.name.length = 0 ∨ rtfsNameLen < e.name.length) := not_badLength hv
  have hroom : ¬ n < e.sourceSlotIndex + getDentrySlots e.name.length := Nat.not_lt.mpr hfit
  have hdots : ¬ (skipDots = true ∧ (e.name = [46] ∨ e.name = [46,46])) := fun hc =>
    hc.2.elim hv.2.2.2.1 hv.2.2.2.2
  unfold buildEntryAt
  simp only [hd,hlen,hst.name,takeWhile_name hv.2.2.1]
  rw [if_neg hlegal,if_neg hroom,if_neg hdots]
  rcases addInternal_cases o (not_badLength hv) e.ino.toUInt32.toUInt64 e.fileType true with
    ⟨hp,_⟩ | ⟨_,hr,_⟩ | ⟨_,o',hadd,hgrown⟩
  · exact absurd hp hnew
  · cases hr
  · refine ⟨setLastSource o' e.sourceIsInline e.sourceBlockIndex e.sourceSlotIndex,?_,?_,hgrown.blocks⟩
    · rw [hadd]
      rfl
    · exact setLastSource_entries hgrown.entries e.sourceIsInline e.sourceBlockIndex e.sourceSlotIndex

theorem present_concat {o' : RtfsDirInode} {es : List RtfsMemDirEntry} (h : o'.entries = o.entries ++ es)
    {name : List UInt8} : o'.Present name ↔ o.Present name ∨ name ∈ es.map RtfsMemDirEntry.name := by
  unfold RtfsDirInode.Present
  rw [keys_names,keys_names,h,List.map_append,List.mem_append]

theorem onDisk_name (e : RtfsMemDirEntry) : e.onDisk.name = e.name := rfl

theorem buildEntryAt_fold {l : List RtfsMemDirEntry} {isInline : Bool} {blockIndex : UInt32} (skipDots : Bool)
    (hl : ∀ e ∈ l, area.Stored e ∧ ValidName e.name ∧ e.sourceSlotIndex + e.slots ≤ n ∧
      e.sourceIsInline = isInline ∧ e.sourceBlockIndex = blockIndex)
    (hd : (l.map RtfsMemDirEntry.name).Nodup) (hnew : ∀ e ∈ l, ¬ o.Present e.name) :
    ∃ o', (l.map RtfsMemDirEntry.sourceSlotIndex).foldlM (buildEntryAt skipDots isInline blockIndex true area) o =
        .ok o' ∧ o'.entries = o.entries ++ l.map RtfsMemDirEntry.onDisk ∧ o'.loadedBlocks = o.loadedBlocks := by
  induction l generalizing o with
  | nil => exact ⟨o,rfl,(List.append_nil _).symm,rfl⟩
  | cons e l ih =>
    obtain ⟨hst,hv,hfit,rfl,rfl⟩ := hl e List.mem_cons_self
    rw [List.map_cons,List.nodup_cons] at hd
    obtain ⟨o₁,h₁,hentries₁,hblocks₁⟩ := buildEntryAt_step hst hv hfit skipDots (hnew e List.mem_cons_self)
    obtain ⟨o',h',hentries',hblocks'⟩ := ih (o := o₁) (fun e' he' => hl e' (List.mem_cons_of_mem _ he')) hd.2
      (fun e' he' hp => by
        rcases (present_concat hentries₁).mp hp with hp | hp
        · exact hnew e' (List.mem_cons_of_mem _ he') hp
        · rw [List.map_singleton,List.mem_singleton,onDisk_name] at hp
          exact hd.1 (List.mem_map.mpr ⟨e',he',hp⟩))
    refine ⟨o',?_,?_,hblocks'.trans hblocks₁⟩
    · rw [List.map_cons,List.foldlM_cons,h₁]
      exact h'
    · rw [hentries',hentries₁,List.append_assoc]
      rfl

theorem walk_parses {es : List RtfsMemDirEntry} {isInline : Bool} {blockIndex : UInt32} (skipDots : Bool)
    (h : area.Holds es) (hv : ∀ e ∈ es, ValidName e.name) (hd : (es.map RtfsMemDirEntry.name).Nodup)
    (hs : ∀ e ∈ es, e.sourceIsInline = isInline ∧ e.sourceBlockIndex = blockIndex)
    (hnew : ∀ e ∈ es, ¬ o.Present e.name) :
    ∃ (o' : RtfsDirInode) (l : List RtfsMemDirEntry), SlotRuns.walk area.isSet area.slotsAt n
        (buildEntryAt skipDots isInline blockIndex true area) 0 o = .ok o' ∧ l.Perm es ∧ o'.entries = o.entries ++ l.map RtfsMemDirEntry.onDisk ∧
      o'.loadedBlocks = o.loadedBlocks := by
  obtain ⟨l,hp,hstarts,-⟩ := h.ordered hv
  obtain ⟨o',hfold,hentries,hblocks⟩ := buildEntryAt_fold (o := o) (l := l) skipDots
    (fun e he => ⟨h.stored e (hp.mem_iff.mp he),hv e (hp.mem_iff.mp he),
      (h.tiles.fits e.run (List.mem_map.mpr ⟨e,hp.mem_iff.mp he,rfl⟩)).2,hs e (hp.mem_iff.mp he)⟩)
    ((hp.map _).nodup_iff.mpr hd) (fun e he => hnew e (hp.mem_iff.mp he))
  refine ⟨o',l,?_,hp,hentries,hblocks⟩
  rw [SlotRuns.walk_eq,hstarts]
  exact hfold

end Parse

section Reparse
variable {d : RtfsDirInode}

theorem filter_inBlocks (es : List RtfsMemDirEntry) {bs : List UInt32} (h : bs.Nodup) :
    (bs.flatMap (fun blockIndex => es.filter (inBlock blockIndex))).Perm
      (es.filter (fun e => decide (e.sourceBlockIndex ∈ bs))) := by
  induction bs with
  | nil => simp
  | cons b bs ih =>
    obtain ⟨hb,hbs⟩ := List.nodup_cons.mp h
    rw [List.flatMap_cons]
    refine List.Perm.trans ?_ (List.filter_append_perm (inBlock b) _)
    rw [List.filter_filter,List.filter_filter]
    refine List.Perm.append (.of_eq (List.filter_congr (fun e _ => ?_)))
      ((ih hbs).trans (.of_eq (List.filter_congr (fun e _ => ?_))))
    · by_cases he : e.sourceBlockIndex = b <;> simp [inBlock,he]
    · by_cases he : e.sourceBlockIndex = b
      · simp [inBlock,he,hb]
      · simp [inBlock,he]

theorem appendRegular_step {o : RtfsDirInode} {b : RtfsLoadedDirBlock} {es : List RtfsMemDirEntry}
    (h : b.block.Holds es) (hv : ∀ e ∈ es, ValidName e.name) (hd : (es.map RtfsMemDirEntry.name).Nodup)
    (hs : ∀ e ∈ es, e.sourceIsInline = false ∧ e.sourceBlockIndex = b.blockIndex)
    (hnew : ∀ e ∈ es, ¬ o.Present e.name)
    (hload : b.blockIndex ∉ o.loadedBlocks.map RtfsLoadedDirBlock.blockIndex) :
    ∃ (o' : RtfsDirInode) (l : List RtfsMemDirEntry), rtfsDirInodeAppendRegularEntries o b.block b.blockIndex b.lpa true true = .ok o' ∧ l.Perm es ∧
      o'.entries = o.entries ++ l.map RtfsMemDirEntry.onDisk ∧
      o'.loadedBlocks.map RtfsLoadedDirBlock.blockIndex =
        o.loadedBlocks.map RtfsLoadedDirBlock.blockIndex ++ [b.blockIndex] := by
  obtain ⟨o₁,ho₁,hentries₁,hblocks₁⟩ : ∃ o₁, (if o.backingKind = .empty then { o with backingKind := .blocks } else o) =
      o₁ ∧ o₁.entries = o.entries ∧ o₁.loadedBlocks = o.loadedBlocks := by
    refine ⟨_,rfl,?_,?_⟩ <;> split <;> rfl
  unfold rtfsDirInodeAppendRegularEntries
  simp only [ho₁,rtfsDirInodeRememberLoadedBlock]
  have habsent : ¬ (findLoadedIndex o₁ b.blockIndex).isSome = true := by
    rw [findLoaded_isSome,hblocks₁]
    exact hload
  rw [if_neg habsent,if_neg (by decide)]
  let o₂ : RtfsDirInode := { o₁ with
    loadedBlocks := o₁.loadedBlocks ++ [⟨b.blockIndex,b.lpa,invalidLpa,false,b.block,false⟩]
    iDentryNum := 0 }
  have hnew₂ : ∀ e ∈ es, ¬ o₂.Present e.name := by
    intro e he
    unfold RtfsDirInode.Present RtfsDirInode.keys
    change ¬ _ ∈ (o₁.entries.map entryKey).map Prod.fst
    rw [hentries₁]
    exact hnew e he
  obtain ⟨o',l,hwalk,hp,hentries,hblocks⟩ := walk_parses (o := o₂) true h hv hd hs hnew₂
  refine ⟨{ o' with iDentryNum := o₁.iDentryNum,isDirty := o₁.isDirty },l,?_,hp,?_,?_⟩
  · change (SlotRuns.walk b.block.isSet b.block.slotsAt 214 (buildEntryAt true false b.blockIndex true b.block) 0 o₂).map _ = _
    rw [hwalk]
    rfl
  · exact hentries.trans (by change o₁.entries ++ _ = _; rw [hentries₁])
  · change o'.loadedBlocks.map _ = _
    rw [hblocks,List.map_append,hblocks₁]
    rfl

theorem appendRegular_fold (h : DirOk d) {bs : List RtfsLoadedDirBlock} {o : RtfsDirInode}
    (hsub : ∀ b ∈ bs, b.block.Holds (d.entries.filter (inBlock b.blockIndex)))
    (hi : ∀ e ∈ d.entries, e.sourceIsInline = false) (hd : (bs.map RtfsLoadedDirBlock.blockIndex).Nodup)
    (hnew : ∀ b ∈ bs, ∀ e ∈ d.entries, inBlock b.blockIndex e = true → ¬ o.Present e.name)
    (hload : ∀ b ∈ bs, b.blockIndex ∉ o.loadedBlocks.map RtfsLoadedDirBlock.blockIndex) :
    ∃ (o' : RtfsDirInode) (l : List RtfsMemDirEntry), bs.foldlM (fun o b =>
        rtfsDirInodeAppendRegularEntries o b.block b.blockIndex b.lpa true true) o = .ok o' ∧ o'.entries = o.entries ++ l.map RtfsMemDirEntry.onDisk ∧
      l.Perm ((bs.map RtfsLoadedDirBlock.blockIndex).flatMap (fun i => d.entries.filter (inBlock i))) := by
  induction bs generalizing o with
  | nil => exact ⟨o,[],rfl,(List.append_nil _).symm,.refl _⟩
  | cons b bs ih =>
    rw [List.map_cons,List.nodup_cons] at hd
    have hmem (e : RtfsMemDirEntry) (he : e ∈ d.entries.filter (inBlock b.blockIndex)) :
        e ∈ d.entries ∧ e.sourceBlockIndex = b.blockIndex :=
      ⟨(List.mem_filter.mp he).1,of_decide_eq_true (List.mem_filter.mp he).2⟩
    obtain ⟨o₁,l₁,h₁,hp₁,hentries₁,hblocks₁⟩ := appendRegular_step (o := o) (hsub b List.mem_cons_self)
      (fun e he => h.names e (hmem e he).1) (h.distinct.sublist (List.filter_sublist.map _))
      (fun e he => ⟨hi e (hmem e he).1,(hmem e he).2⟩)
      (fun e he => hnew b List.mem_cons_self e (hmem e he).1 (List.mem_filter.mp he).2) (hload b List.mem_cons_self)
    have hnew₁ : ∀ b' ∈ bs, ∀ e ∈ d.entries, inBlock b'.blockIndex e = true → ¬ o₁.Present e.name := by
      intro b' hb' e he hin hp
      rcases (present_concat hentries₁).mp hp with hp | hp
      · exact hnew b' (List.mem_cons_of_mem _ hb') e he hin hp
      · rw [List.map_map] at hp
        obtain ⟨x,hx,hname⟩ := List.mem_map.mp hp
        obtain ⟨hxd,hxb⟩ := hmem x (hp₁.mem_iff.mp hx)
        have hxe : x = e := List.inj_on_of_nodup_map h.distinct hxd he hname
        exact hd.1 (List.mem_map.mpr ⟨b',hb',(of_decide_eq_true hin).symm.trans (hxe ▸ hxb)⟩)
    have hload₁ : ∀ b' ∈ bs, b'.blockIndex ∉ o₁.loadedBlocks.map RtfsLoadedDirBlock.blockIndex := by
      intro b' hb'
      rw [hblocks₁,List.mem_append,List.mem_singleton,not_or]
      exact ⟨hload b' (List.mem_cons_of_mem _ hb'),fun heq => hd.1 (List.mem_map.mpr ⟨b',hb',heq⟩)⟩
    obtain ⟨o',l,h',hentries',hp'⟩ := ih (o := o₁) (fun b' hb' => hsub b' (List.mem_cons_of_mem _ hb')) hd.2 hnew₁ hload₁
    refine ⟨o',l₁ ++ l,?_,?_,hp₁.append hp'⟩
    · rw [List.foldlM_cons,h₁]
      exact h'
    · rw [hentries',hentries₁,List.append_assoc,List.map_append]

theorem reparse_onDisk (h : DirOk d) {f : RtfsDirInode} (he : f.entries = []) (hl : f.loadedBlocks = []) :
    ∃ o, reparse f d = .ok o ∧ o.entries.Perm (d.entries.map RtfsMemDirEntry.onDisk) := by
  have hnone (name : List UInt8) : ¬ f.Present name := by
    unfold RtfsDirInode.Present RtfsDirInode.keys
    rw [he]
    exact List.not_mem_nil
  rcases h.backing with hi | hb
  · obtain ⟨area,harea,hholds⟩ := hi.area
    unfold reparse
    simp only [hi.kind,harea]
    obtain ⟨o,l,hwalk,hp,hentries,-⟩ := walk_parses (o := { f with iDentryNum := 0 }) false hholds h.names h.distinct
      hi.source (fun e _ => hnone e.name)
    refine ⟨_,congrArg (Except.map _) hwalk,?_⟩
    change o.entries.Perm _
    rw [hentries]
    change (f.entries ++ _).Perm _
    rw [he]
    exact hp.map _
  · obtain ⟨o,l,hfold,hentries,hp⟩ := appendRegular_fold (o := f) h hb.blocks (fun e he => (hb.source e he).1)
      hb.indices (fun _ _ e _ _ => hnone e.name) (fun b _ => by rw [hl]; exact List.not_mem_nil)
    refine ⟨o,?_,?_⟩
    · unfold reparse
      rcases hb.kind with hk | ⟨hk,-⟩
      · simp only [hk]
        exact hfold
      · simp only [hk]
        exact hfold
    · rw [hentries,he,List.nil_append]
      refine (hp.trans ((filter_inBlocks d.entries hb.indices).trans (.of_eq ?_))).map _
      exact List.filter_eq_self.mpr (fun e he => decide_eq_true (hb.source e he).2)

end Reparse

section Run
variable {d : RtfsDirInode} {op : DirOp} {ops : List DirOp}

def Narrow (d : RtfsDirInode) : Prop := ∀ k ∈ d.keys, k.2.1.toNat < 2 ^ 32

theorem onDisk_eq {e : RtfsMemDirEntry} (h : e.ino.toNat < 2 ^ 32) : e.onDisk = e := by
  have hino : e.ino.toUInt32.toUInt64 = e.ino := by
    rw [← UInt64.toNat_inj,UInt32.toNat_toUInt64,UInt64.toNat_toUInt32,Nat.mod_eq_of_lt h]
  unfold RtfsMemDirEntry.onDisk
  rw [hino]

theorem Represented.of_ok (h : DirOk d) (hn : Narrow d) (hc : d.iDentryNum.toNat = d.entries.length) :
    Represented d := by
  refine ⟨h,fun fresh he hl => ?_,hc⟩
  obtain ⟨o,ho,hp⟩ := reparse_onDisk h he hl
  refine ⟨o,ho,hp.trans (.of_eq ?_)⟩
  have hsame : ∀ e ∈ d.entries, e.onDisk = id e := fun e he =>
    onDisk_eq (hn (entryKey e) (List.mem_map_of_mem he))
  rw [List.map_congr_left hsame,List.map_id]

theorem length_keys (d : RtfsDirInode) : d.keys.length = d.entries.length := List.length_map _

theorem count_added {d' : RtfsDirInode} {k : DirKey} (hc : d.iDentryNum.toNat = d.entries.length)
    (hk : d'.keys = d.keys ++ [k]) (hn : d'.iDentryNum = d.iDentryNum + 1) (hlt : d'.entries.length < 2 ^ 32) :
    d'.iDentryNum.toNat = d'.entries.length := by
  have hlen := congrArg List.length hk
  rw [List.length_append,length_keys,length_keys,List.length_singleton] at hlen
  rw [hn,UInt32.toNat_add,hc,hlen]
  exact Nat.mod_eq_of_lt (hlen ▸ hlt)

theorem count_removed {d' : RtfsDirInode} {k : DirKey} (hc : d.iDentryNum.toNat = d.entries.length)
    (hk : (k :: d'.keys).Perm d.keys)
    (hn : d'.iDentryNum = if 0 < d.iDentryNum then d.iDentryNum - 1 else d.iDentryNum) :
    d'.iDentryNum.toNat = d'.entries.length := by
  have hlen := hk.length_eq
  rw [List.length_cons,length_keys,length_keys] at hlen
  have hpos : 0 < d.iDentryNum := by
    rw [UInt32.lt_iff_toNat_lt,hc,← hlen]
    exact Nat.succ_pos _
  have hle : (1 : UInt32) ≤ d.iDentryNum := by
    rw [UInt32.le_iff_toNat_le,hc,← hlen]
    exact Nat.succ_le_succ (Nat.zero_le _)
  rw [hn,if_pos hpos,UInt32.toNat_sub_of_le _ _ hle,hc,← hlen]
  rfl

theorem Represented.step (h : Represented d) (hw : Narrow d) (hv : ValidName op.name) (hn : op.Narrow)
    (hlt : (op.apply d).2.entries.length < 2 ^ 32) :
    Represented (op.apply d).2 ∧ Narrow (op.apply d).2 := by
  cases op with
  | add name ino fileType answers =>
    have hout : AddOutcome d name ino fileType (rtfsDirInodeAddEntry d name ino fileType answers) :=
      addEntry_outcome h.ok hv answers
    change (rtfsDirInodeAddEntry d name ino fileType answers).2.entries.length < 2 ^ 32 at hlt
    change Represented (rtfsDirInodeAddEntry d name ino fileType answers).2 ∧
      Narrow (rtfsDirInodeAddEntry d name ino fileType answers).2
    cases hr : (rtfsDirInodeAddEntry d name ino fileType answers).1 with
    | error e =>
      obtain ⟨hk,hnum⟩ := hout.failed e hr
      have hlen := congrArg List.length hk
      rw [length_keys,length_keys] at hlen
      have hw' : Narrow (rtfsDirInodeAddEntry d name ino fileType answers).2 := fun k hmem => hw k (hk ▸ hmem)
      exact ⟨.of_ok hout.ok hw' (by rw [hnum,hlen,h.count]),hw'⟩
    | ok u =>
      obtain ⟨hk,hnum⟩ := hout.added hr
      have hw' : Narrow (rtfsDirInodeAddEntry d name ino fileType answers).2 := by
        intro k hmem
        rcases List.mem_append.mp (hk ▸ hmem) with hmem | hmem
        · exact hw k hmem
        · rw [List.mem_singleton.mp hmem]
          exact hn
      exact ⟨.of_ok hout.ok hw' (count_added h.count hk hnum hlt),hw'⟩
  | remove name =>
    have hout : RemoveOutcome d name (rtfsDirInodeRemoveEntry d name) := removeEntry_outcome h.ok hv
    change Represented (rtfsDirInodeRemoveEntry d name).2 ∧ Narrow (rtfsDirInodeRemoveEntry d name).2
    cases hr : (rtfsDirInodeRemoveEntry d name).1 with
    | error e =>
      rw [hout.failed e hr]
      exact ⟨h,hw⟩
    | ok u =>
      obtain ⟨ino,fileType,hk,hnum⟩ := hout.removed hr
      have hw' : Narrow (rtfsDirInodeRemoveEntry d name).2 := fun k hmem =>
        hw k (hk.mem_iff.mp (List.mem_cons_of_mem _ hmem))
      exact ⟨.of_ok hout.ok hw' (count_removed h.count hk hnum),hw'⟩

theorem Represented.run (h : Represented d) (hw : Narrow d) (hops : ∀ op ∈ ops, ValidName op.name ∧ op.Narrow)
    (hfew : ∀ p, p <+: ops → (after d p).entries.length < 2 ^ 32) :
    Represented (after d ops) ∧ Narrow (after d ops) := by
  induction ops generalizing d with
  | nil => exact ⟨h,hw⟩
  | cons op ops ih =>
    obtain ⟨hv,hn⟩ := hops op List.mem_cons_self
    obtain ⟨h₁,hw₁⟩ := h.step hw hv hn (hfew [op] ⟨ops,rfl⟩)
    refine ih h₁ hw₁ (fun op' hop' => hops op' (List.mem_cons_of_mem _ hop')) (fun p hp => ?_)
    exact hfew (op :: p) (List.cons_prefix_cons.mpr ⟨rfl,hp⟩)

theorem DirOk.answered (h : DirOk d) (hv : ValidName op.name) : Answered d op := by
  cases op with
  | add name ino fileType answers =>
    have hout : AddOutcome d name ino fileType (rtfsDirInodeAddEntry d name ino fileType answers) :=
      addEntry_outcome h hv answers
    refine ⟨?_,?_,nofun,nofun,fun e he => (hout.failed e he).1⟩
    · rintro name ino fileType answers ⟨⟩
      exact hout.exist
    · rintro name ino fileType answers ⟨⟩ hr
      exact (hout.added hr).1 ▸ List.perm_append_singleton _ _
  | remove name =>
    have hout : RemoveOutcome d name (rtfsDirInodeRemoveEntry d name) := removeEntry_outcome h hv
    refine ⟨nofun,nofun,?_,?_,fun e he => ?_⟩
    · rintro name ⟨⟩
      exact hout.absent
    · rintro name ⟨⟩ hr
      obtain ⟨ino,fileType,hk,-⟩ := hout.removed hr
      exact ⟨ino,fileType,hk.symm⟩
    · change (rtfsDirInodeRemoveEntry d name).2.keys = _
      rw [hout.failed e he]

def created : RtfsDirInode :=
  { iDentryNum := 0,loadedBlockCount := 0,totalBlockCount := 0,isFullyLoaded := true,backingKind := .inline
    cached := true,isInline := true,inlineDentry := some zero,loadedBlocks := [],capacity := 0,entries := []
    isDirty := false }

theorem created_ok : DirOk created :=
  ⟨nofun,.nil,.inl ⟨rfl,rfl,rfl,nofun,zero,rfl,holds_zero⟩⟩

theorem created_represented : Represented created := .of_ok created_ok nofun rfl

theorem run_represented (h : Represented d) (hw : Narrow d) (hops : ∀ op ∈ ops, ValidName op.name ∧ op.Narrow)
    (hfew : ∀ p, p <+: ops → (after d p).entries.length < 2 ^ 32) :
    Represented (after d ops) ∧ ∀ op : DirOp, ValidName op.name → Answered (after d ops) op := by
  obtain ⟨hrep,-⟩ := h.run hw hops hfew
  exact ⟨hrep,fun op hv => hrep.ok.answered hv⟩

-- names of 32 slots each: six fit inline, the seventh one converts the directory and goes to block 1
def longName (k : Nat) : List UInt8 := List.replicate 255 (UInt8.ofNat (97 + k))

theorem longName_valid : ∀ k < 7, ValidName (longName k) := by
  unfold ValidName
  decide +kernel

def longAnswers (k : Nat) : AddAnswers := ⟨true,if k < 6 then [] else [⟨some 3072,true⟩,⟨some 3073,true⟩],true⟩

def longOps : List DirOp := (List.range 7).map (fun k => .add (longName k) 7 1 (longAnswers k)) ++ [.remove (longName 0)]

theorem longOps_valid : ∀ op ∈ longOps, ValidName op.name ∧ op.Narrow := by
  intro op hop
  rcases List.mem_append.mp hop with hop | hop
  · obtain ⟨k,hk,rfl⟩ := List.mem_map.mp hop
    exact ⟨longName_valid k (List.mem_range.mp hk),show (7 : UInt64).toNat < 2 ^ 32 by decide⟩
  · rw [List.mem_singleton.mp hop]
    exact ⟨longName_valid 0 (by decide),trivial⟩

theorem created_run_represented : (after created longOps).isInline = false ∧
    (after created longOps).loadedBlocks.length = 2 ∧ (after created longOps).entries.length = 6 ∧
    Represented (after created longOps) ∧ ∀ op : DirOp, ValidName op.name → Answered (after created longOps) op := by
  have hevaluated : (longOps.inits.all (fun p => decide ((after created p).entries.length < 2 ^ 32)) &&
      decide ((after created longOps).isInline = false ∧ (after created longOps).loadedBlocks.length = 2 ∧
        (after created longOps).entries.length = 6)) = true := by
    decide +kernel
  obtain ⟨hfew,hends⟩ := Bool.and_eq_true_iff.mp hevaluated
  obtain ⟨hinline,hblocks,hentries⟩ := of_decide_eq_true hends
  refine ⟨hinline,hblocks,hentries,run_represented created_represented nofun longOps_valid (fun p hp => ?_)⟩
  exact of_decide_eq_true (List.all_eq_true.mp hfew p ((List.mem_inits p longOps).mpr hp))

end Run

section Fill
variable {d : RtfsDirInode} {name : List UInt8} {ino : UInt64} {fileType : UInt8}

def entryName (k : Nat) : List UInt8 := (List.range 6).map (fun i => UInt8.ofNat (k / 64 ^ i % 64 + 1))

def fill (n : Nat) : List DirOp :=
  (List.range n).map (fun k => .add (entryName k) 1 1 ⟨true,[⟨some 1,true⟩,⟨some 1,true⟩],true⟩)

theorem entryName_valid (k : Nat) : ValidName (entryName k) := by
  refine ⟨by simp [entryName],by simp [entryName,rtfsNameLen],fun h => ?_,?_,?_⟩
  · obtain ⟨i,-,hz⟩ := List.mem_map.mp h
    have hz' := congrArg UInt8.toNat hz
    rw [UInt8.toNat_ofNat',Nat.mod_eq_of_lt (by omega)] at hz'
    exact Nat.succ_ne_zero _ hz'
  · exact fun h => absurd (congrArg List.length h) (by simp [entryName])
  · exact fun h => absurd (congrArg List.length h) (by simp [entryName])

theorem entryName_inj {k j : Nat} (hk : k < 2 ^ 32) (hj : j < 2 ^ 32) (h : entryName k = entryName j) : k = j := by
  have hdigit (i : Nat) (hi : i < 6) : k / 64 ^ i % 64 = j / 64 ^ i % 64 := by
    have hat := List.map_inj_left.mp h i (List.mem_range.mpr hi)
    have hnat := congrArg UInt8.toNat hat
    have hbyte (x : Nat) : x % 64 + 1 < 2 ^ 8 := by omega
    rw [UInt8.toNat_ofNat',UInt8.toNat_ofNat',Nat.mod_eq_of_lt (hbyte _),Nat.mod_eq_of_lt (hbyte _)] at hnat
    exact Nat.succ.inj hnat
  have h0 := hdigit 0 (by decide)
  have h1 := hdigit 1 (by decide)
  have h2 := hdigit 2 (by decide)
  have h3 := hdigit 3 (by decide)
  have h4 := hdigit 4 (by decide)
  have h5 := hdigit 5 (by decide)
  norm_num at h0 h1 h2 h3 h4 h5
  omega

structure Aligned (d : RtfsDirInode) : Prop where
  total : d.totalBlockCount = d.loadedBlocks.length
  indices : d.loadedBlocks.map RtfsLoadedDirBlock.blockIndex = (List.range d.loadedBlocks.length).map UInt32.ofNat

theorem Aligned.fresh (h : Aligned d) (hlt : d.loadedBlocks.length < 2 ^ 32) :
    UInt32.ofNat d.totalBlockCount ∉ d.loadedBlocks.map RtfsLoadedDirBlock.blockIndex := by
  rw [h.indices,h.total]
  intro hmem
  obtain ⟨j,hj,heq⟩ := List.mem_map.mp hmem
  have hjlt := List.mem_range.mp hj
  have hnat := congrArg UInt32.toNat heq
  rw [UInt32.toNat_ofNat',UInt32.toNat_ofNat',Nat.mod_eq_of_lt (by omega),Nat.mod_eq_of_lt hlt] at hnat
  omega

theorem Aligned.congr (h : Aligned d) {d' : RtfsDirInode} (ht : d'.totalBlockCount = d.totalBlockCount)
    (hi : d'.loadedBlocks.map RtfsLoadedDirBlock.blockIndex = d.loadedBlocks.map RtfsLoadedDirBlock.blockIndex) :
    Aligned d' := by
  have hlen := congrArg List.length hi
  rw [List.length_map,List.length_map] at hlen
  exact ⟨ht.trans (h.total.trans hlen.symm),hi.trans (hlen ▸ h.indices)⟩

theorem addInternal_loaded {realloc : Bool} {d' : RtfsDirInode}
    (h : rtfsDirInodeAddEntryInternal d name ino fileType realloc = .ok d') :
    d'.backingKind = d.backingKind ∧ d'.totalBlockCount = d.totalBlockCount ∧ d'.loadedBlocks = d.loadedBlocks := by
  unfold rtfsDirInodeAddEntryInternal at h
  split at h
  · cases h
  split at h
  · cases h
  split at h
  · cases h
  · cases h
    exact ⟨rfl,rfl,rfl⟩

theorem placeRegular_frame {k start : Nat} {realloc : Bool} {d' : RtfsDirInode}
    (h : placeRegular d k start name ino fileType realloc = (.ok (),d')) :
    d'.backingKind = d.backingKind ∧ d'.totalBlockCount = d.totalBlockCount ∧
      d'.loadedBlocks.map RtfsLoadedDirBlock.blockIndex = d.loadedBlocks.map RtfsLoadedDirBlock.blockIndex := by
  unfold placeRegular at h
  cases hadd : rtfsDirInodeAddEntryInternal (setBlock d k (fun a => a.put start name ino fileType)) name ino fileType
      realloc with
  | error e =>
    simp only [hadd] at h
    cases h
  | ok added =>
    obtain ⟨hkind,htotal,hloaded⟩ := addInternal_loaded hadd
    simp only [hadd] at h
    obtain ⟨-,rfl⟩ := Prod.mk.inj h
    refine ⟨hkind,htotal,?_⟩
    have hmark : (added.loadedBlocks.modify k (fun b => { b with isDirty := true })).map RtfsLoadedDirBlock.blockIndex =
        added.loadedBlocks.map RtfsLoadedDirBlock.blockIndex := map_modify_same (fun _ => rfl)
    refine hmark.trans ?_
    rw [hloaded]
    exact map_modify_same (fun _ => rfl)

theorem DirOk.blocks (h : DirOk d) (hk : Routed d) : BlocksOk d := by
  rcases h.backing with hi | hb
  · rcases hk with hk | ⟨hk,-⟩ <;> exact absurd (hi.kind.symm.trans hk) (by decide)
  · exact hb

structure Spacious (d : RtfsDirInode) : Prop where
  ok : DirOk d
  kind : d.backingKind = .blocks
  aligned : Aligned d

theorem Spacious.place (h : Spacious d) (ino : UInt64) (fileType : UInt8) (hv : ValidName name) (hp : ¬ d.Present name) {k start : Nat}
    (hroom : findRoom d (getDentrySlots name.length) = some (k,start)) :
    ∃ d', addInLoaded d name ino fileType true = some (.ok (),d') ∧ Spacious d' ∧
      d'.loadedBlocks.length = d.loadedBlocks.length := by
  obtain ⟨hout,hok⟩ : AddOutcome d name ino fileType (placeRegular d k start name ino fileType true) ∧ _ :=
    placeRegular_outcome h.ok (h.ok.blocks (.inl h.kind)) hv hp hroom true
  obtain ⟨d',hplace⟩ : ∃ d', placeRegular d k start name ino fileType true = (.ok (),d') := ⟨_,Prod.ext (hok rfl) rfl⟩
  obtain ⟨hk,ht,hi⟩ := placeRegular_frame hplace
  have hlen := congrArg List.length hi
  rw [List.length_map,List.length_map] at hlen
  rw [hplace] at hout
  refine ⟨d',?_,⟨hout.ok,hk.trans h.kind,h.aligned.congr ht hi⟩,hlen⟩
  unfold addInLoaded
  rw [if_neg (not_badLength hv),if_neg (fun hc => hp (find_isSome.mp hc)),hroom,Option.map_some,hplace]

theorem findRoom_zero {slotCount : Nat} (hle : slotCount ≤ 214) {b : RtfsLoadedDirBlock} (hb : b ∈ d.loadedBlocks)
    (hz : b.block = zero) : ∃ room, findRoom d slotCount = some room := by
  refine Option.isSome_iff_exists.mp ?_
  unfold findRoom
  rw [List.findSome?_isSome_iff]
  obtain ⟨k,hk⟩ := List.mem_iff_getElem?.mp hb
  refine ⟨(b,k),List.mem_zipIdx_iff_getElem?.mpr hk,?_⟩
  simp only [hz]
  rw [SlotRuns.firstFit_free (fun i _ => isSet_zero i) hle]
  rfl

def granted : GrowAnswer := ⟨some 1,true⟩

theorem Spacious.addRegular (h : Spacious d) (ino : UInt64) (fileType : UInt8)
    (hlt : d.loadedBlocks.length < 2 ^ 32) (hv : ValidName name) (hp : ¬ d.Present name) (growths : List GrowAnswer) :
    ∃ d', rtfsDirInodeAddRegularBacking d name ino fileType true (granted :: growths) = (.ok (),d') ∧ Spacious d' ∧
      d'.loadedBlocks.length ≤ d.loadedBlocks.length + 1 := by
  have hb := h.ok.blocks (.inl h.kind)
  unfold rtfsDirInodeAddRegularBacking
  cases hroom : findRoom d (getDentrySlots name.length) with
  | some room =>
    obtain ⟨d',hadd,hs,hlen⟩ := h.place ino fileType hv hp hroom
    rw [hadd]
    exact ⟨d',rfl,hs,by omega⟩
  | none =>
    have hnone : addInLoaded d name ino fileType true = none := by
      unfold addInLoaded
      rw [if_neg (not_badLength hv),if_neg (fun hc => hp (find_isSome.mp hc)),hroom]
      rfl
    have hnew := h.aligned.fresh hlt
    have hremember : ¬ (findLoadedIndex { d with totalBlockCount := d.totalBlockCount + 1,isFullyLoaded := false }
        (UInt32.ofNat d.totalBlockCount)).isSome = true := fun hc => hnew (findLoaded_isSome.mp hc)
    let grown : RtfsDirInode := { d with
      totalBlockCount := d.totalBlockCount + 1
      isFullyLoaded := false
      loadedBlocks := d.loadedBlocks ++ [⟨UInt32.ofNat d.totalBlockCount,1,invalidLpa,false,zero,false⟩] }
    have hattach : attachBlock d granted = (.ok (),grown) := by
      unfold attachBlock
      rw [if_neg (by simp [hb.cached])]
      simp only [granted,rtfsDirInodeRememberLoadedBlock]
      rw [if_neg hremember]
      rfl
    have hkept : Kept d grown := ⟨rfl,rfl,rfl,rfl,rfl,rfl⟩
    have hlen : grown.loadedBlocks.length = d.loadedBlocks.length + 1 := List.length_append
    have hgrown : Spacious grown := by
      refine ⟨⟨h.ok.names,h.ok.distinct,.inr (hb.remember hkept hnew rfl)⟩,h.kind,?_,?_⟩
      · rw [hlen]
        exact congrArg (· + 1) h.aligned.total
      · rw [hlen,List.range_succ,List.map_append,List.map_append,h.aligned.indices,← h.aligned.total]
        rfl
    obtain ⟨room,hroom'⟩ := findRoom_zero (d := grown) (hv.slots_le.trans (by decide))
      (List.mem_append_right _ List.mem_cons_self) rfl
    obtain ⟨d',hadd,hs,hlen'⟩ := hgrown.place ino fileType hv hp hroom'
    have hrec : rtfsDirInodeAddRegularBacking grown name ino fileType true growths = (.ok (),d') := by
      cases growths with
      | nil =>
        unfold rtfsDirInodeAddRegularBacking
        rw [hadd]
        rfl
      | cons answer growths =>
        unfold rtfsDirInodeAddRegularBacking
        rw [hadd]
    simp only [hnone,hattach,hrec]
    exact ⟨d',rfl,hs,by omega⟩

theorem convert_spacious (h : DirOk d) (hi : InlineOk d) :
    ∃ d', rtfsDirInodeConvertInlineToRegular d true granted = (.ok (),d') ∧ Spacious d' ∧
      d'.loadedBlocks.length = 1 := by
  obtain ⟨area,harea,hholds⟩ := hi.area
  obtain ⟨c,hc,-,-⟩ := copyRun_walk h.names (fun e he => (hi.source e he).1) hholds 0
  obtain ⟨r,d',hconv,hok,-,-,-,-⟩ := convert_outcome h hi true granted
  have hrun : ∃ d'', rtfsDirInodeConvertInlineToRegular d true granted = (.ok (),d'') ∧ d''.backingKind = .blocks ∧
      d''.totalBlockCount = 1 ∧ d''.loadedBlocks.map RtfsLoadedDirBlock.blockIndex = [0] := by
    unfold rtfsDirInodeConvertInlineToRegular
    simp only [harea]
    rw [if_neg (by simp [hi.kind,hi.cached]),if_neg (by decide)]
    simp only [hc,attachBlock,granted,rtfsDirInodeRememberLoadedBlock,findLoadedIndex,hi.blocks]
    rw [if_neg (by simp [hi.cached])]
    exact ⟨_,rfl,rfl,rfl,rfl⟩
  obtain ⟨d'',hconv'',hkind,htotal,hidx⟩ := hrun
  obtain ⟨-,rfl⟩ := Prod.mk.inj (hconv.symm.trans hconv'')
  have hlen : d'.loadedBlocks.length = 1 := by
    have hlen := congrArg List.length hidx
    rwa [List.length_map] at hlen
  refine ⟨d',hconv'',⟨hok,hkind,htotal.trans hlen.symm,?_⟩,hlen⟩
  rw [hidx,hlen]
  rfl

structure Filling (d : RtfsDirInode) : Prop where
  ok : DirOk d
  backing : InlineOk d ∨ Spacious d ∧ d.loadedBlocks.length ≤ d.entries.length

theorem entries_of_full (hi : InlineOk d) {area : RtfsInlineDentry} (ha : d.inlineDentry = some area)
    (hfull : SlotRuns.firstFit area.isSet 194 1 0 = none) : 0 < d.entries.length := by
  obtain ⟨area',ha',hholds⟩ := hi.area
  obtain rfl := Option.some.inj (ha.symm.trans ha')
  obtain ⟨k,hk,hbusy⟩ := SlotRuns.firstFit_none hfull le_rfl (by decide)
  obtain ⟨r,hr,-⟩ := (hholds.tiles.exact (0 + k) (by omega)).mp hbusy
  obtain ⟨e,he,-⟩ := List.mem_map.mp hr
  exact List.length_pos_of_mem he

theorem Filling.step (h : Filling d) (ino : UInt64) (fileType : UInt8) (hlt : d.entries.length < 2 ^ 32)
    (hv : ValidName name) (hslots : getDentrySlots name.length = 1) (hp : ¬ d.Present name) (growths : List GrowAnswer) :
    ∃ d', rtfsDirInodeAddEntry d name ino fileType ⟨true,granted :: granted :: growths,true⟩ = (.ok (),d') ∧
      Filling d' ∧ d'.keys = d.keys ++ [(name,ino,fileType)] ∧ d'.iDentryNum = d.iDentryNum + 1 := by
  have hout : AddOutcome d name ino fileType (rtfsDirInodeAddEntry d name ino fileType ⟨true,granted :: granted :: growths,true⟩) :=
    addEntry_outcome h.ok hv _
  have hrun : ∃ d', rtfsDirInodeAddEntry d name ino fileType ⟨true,granted :: granted :: growths,true⟩ = (.ok (),d') ∧
      (d'.backingKind = .inline ∨ Spacious d' ∧ d'.loadedBlocks.length ≤ d.entries.length + 1) := by
    unfold rtfsDirInodeAddEntry
    rcases h.backing with hi | ⟨hs,hle⟩
    · obtain ⟨area,harea,-⟩ := hi.area
      simp only [hi.kind]
      unfold rtfsDirInodeAddInlineBacking
      simp only [harea]
      rw [if_neg (by simp [hi.cached]),if_neg (not_badLength hv),if_neg (fun hc => hp (find_isSome.mp hc)),hslots]
      cases hfirst : SlotRuns.firstFit area.isSet 194 1 0 with
      | none =>
        have hpos := entries_of_full hi harea hfirst
        obtain ⟨d₁,hconv,hs₁,hlen₁⟩ := convert_spacious h.ok hi
        obtain ⟨r,d₁',hconv',-,hkeys,-,-,-⟩ := convert_outcome h.ok hi true granted
        obtain ⟨-,rfl⟩ := Prod.mk.inj (hconv.symm.trans hconv')
        have hp₁ : ¬ d₁.Present name := by
          unfold RtfsDirInode.Present
          rw [hkeys]
          exact hp
        obtain ⟨d',hadd,hs',hlen'⟩ := hs₁.addRegular ino fileType (by omega) hv hp₁ growths
        simp only [List.headD_cons,List.tail_cons,hconv,hadd]
        exact ⟨d',rfl,.inr ⟨hs',by omega⟩⟩
      | some start =>
        rcases addInternal_cases { d with inlineDentry := some (area.put start name ino fileType) }
          (not_badLength hv) ino fileType true with ⟨hex,_⟩ | ⟨_,hr,_⟩ | ⟨_,d',hadd,hgrown⟩
        · exact absurd hex hp
        · cases hr
        · simp only [hadd]
          exact ⟨_,rfl,.inl (hgrown.kind.trans hi.kind)⟩
    · simp only [hs.kind]
      obtain ⟨d',hadd,hs',hlen'⟩ := hs.addRegular ino fileType (by omega) hv hp (granted :: growths)
      exact ⟨d',hadd,.inr ⟨hs',by omega⟩⟩
  obtain ⟨d',hadd,hback⟩ := hrun
  rw [hadd] at hout
  obtain ⟨hkeys,hnum⟩ := hout.added rfl
  refine ⟨d',hadd,⟨hout.ok,?_⟩,hkeys,hnum⟩
  have hlen := congrArg List.length hkeys
  rw [List.length_append,length_keys,length_keys] at hlen
  rcases hback with hk | ⟨hs,hle⟩
  · refine .inl (hout.ok.backing.resolve_right (fun hb => ?_))
    rcases hb.kind with hk' | ⟨hk',-⟩ <;> exact absurd (hk.symm.trans hk') (by decide)
  · exact .inr ⟨hs,hlen ▸ hle⟩

theorem fill_spec {n : Nat} (hn : n ≤ 2 ^ 32) : Filling (after created (fill n)) ∧
    (after created (fill n)).keys = (List.range n).map (fun k => (entryName k,1,1)) ∧
    (after created (fill n)).iDentryNum = UInt32.ofNat n := by
  induction n with
  | zero => exact ⟨⟨created_ok,.inl ⟨rfl,rfl,rfl,nofun,zero,rfl,holds_zero⟩⟩,rfl,rfl⟩
  | succ n ih =>
    obtain ⟨hf,hkeys,hnum⟩ := ih (by omega)
    have hlen : (after created (fill n)).entries.length = n := by
      rw [← length_keys,hkeys,List.length_map,List.length_range]
    have hp : ¬ (after created (fill n)).Present (entryName n) := by
      unfold RtfsDirInode.Present
      rw [hkeys,List.map_map]
      intro hmem
      obtain ⟨k,hk,heq⟩ := List.mem_map.mp hmem
      have hlt := List.mem_range.mp hk
      exact absurd (entryName_inj (by omega) (by omega) heq) (by omega)
    obtain ⟨d',hadd,hf',hkeys',hnum'⟩ := hf.step 1 1 (by omega) (entryName_valid n)
      (by simp [entryName,getDentrySlots]) hp []
    have hafter : after created (fill (n + 1)) = d' := by
      unfold fill
      rw [List.range_succ,List.map_append]
      unfold after
      rw [List.foldl_append]
      change (rtfsDirInodeAddEntry (after created (fill n)) (entryName n) 1 1 ⟨true,[granted,granted],true⟩).2 = d'
      rw [hadd]
    refine ⟨hafter ▸ hf',?_,?_⟩
    · rw [hafter,hkeys',hkeys,List.range_succ,List.map_append]
      rfl
    · rw [hafter,hnum',hnum,UInt32.ofNat_add]
      rfl

-- the 64-bit inode number of an entry has 32 bits in a dentry, and the count of the entries has 32 bits
theorem wide_run_not_represented :
    (Represented created ∧ ValidName [97] ∧ ((DirOp.add [97] (2 ^ 32) 1 ⟨true,[],true⟩).apply created).1 = .ok () ∧
      ¬ Represented (after created [.add [97] (2 ^ 32) 1 ⟨true,[],true⟩])) ∧
    (∀ op ∈ fill (2 ^ 32), ValidName op.name ∧ op.Narrow) ∧ ¬ Represented (after created (fill (2 ^ 32))) := by
  refine ⟨⟨created_represented,⟨by decide,by decide,by decide,by decide,by decide⟩,by decide +kernel,fun h => ?_⟩,?_,fun h => ?_⟩
  · obtain ⟨o,ho,hp⟩ := h.reparsed created rfl rfl
    obtain ⟨o',ho',hp'⟩ := reparse_onDisk h.ok (f := created) rfl rfl
    obtain rfl := Except.ok.inj (ho.symm.trans ho')
    have hentries : (after created [.add [97] (2 ^ 32) 1 ⟨true,[],true⟩]).entries = [⟨2 ^ 32,1,[97],true,0,0⟩] := by
      decide +kernel
    rw [hentries] at hp hp'
    exact absurd (List.singleton_perm_singleton.mp (hp.symm.trans hp')) (by decide)
  · intro op hop
    obtain ⟨k,-,rfl⟩ := List.mem_map.mp hop
    exact ⟨entryName_valid k,show (1 : UInt64).toNat < 2 ^ 32 by decide⟩
  · obtain ⟨-,hkeys,hnum⟩ := fill_spec (n := 2 ^ 32) le_rfl
    have hlen := congrArg List.length hkeys
    rw [length_keys,List.length_map,List.length_range] at hlen
    have hc := h.count
    rw [hlen,hnum] at hc
    exact absurd hc (by decide)

end Fill

end DirEntries

end Rtfs
