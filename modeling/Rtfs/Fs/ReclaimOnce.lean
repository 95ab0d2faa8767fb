import Rtfs.Fs.ReclaimComplete
import Rtfs.Lib.Versions

namespace Rtfs

open RtfsSuperBlock

inductive LpaSlot where
  | node (nid : UInt32)
  | inodeAddr (nid : UInt32) (i : Nat)
  | nodeAddr (nid : UInt32) (i : Nat)

inductive Holds (nat : UInt32 → RtfsNatEntry) (f : Nat → Block) : LpaSlot → UInt32 → Prop
  | node {nid x : UInt32} (h : (nat nid).ino ≠ invalidNid) (hx : (nat nid).blockAddr = x)
      (hz : x ≠ invalidLpa) : Holds nat f (.node nid) x
  | inodeAddr {nid x : UInt32} {i : Nat} (hn : nid ≠ invalidNid) (ho : (nat nid).ino = nid)
      (hm : MapsAddr f (nat nid) i x) : Holds nat f (.inodeAddr nid i) x
  | nodeAddr {ino nid x : UInt32} {i : Nat} (hl : LiveInode nat f ino) (hn : IndexNode nat f ino 0 nid)
      (hi : i < addrsPerBlock) (hx : nodeSlot ((nat nid).block f) i = x) (hz : x ≠ invalidLpa) :
      Holds nat f (.nodeAddr nid i) x

section Holds
variable {nat : UInt32 → RtfsNatEntry} {f : Nat → Block} {x : UInt32} {L : Layout}

theorem Referenced.holds (h : Referenced nat f x) : ∃ σ, Holds nat f σ x := by
  have hlive {ino : UInt32} (h : LiveInode nat f ino) : (nat ino).ino ≠ invalidNid := by
    rw [h.owned]
    exact h.nonzero
  cases h with
  | @inode ino h hx => exact ⟨.node ino,.node (hlive h) hx (hx ▸ h.placed)⟩
  | @inodeAddr ino i h hx => exact ⟨.inodeAddr ino i,.inodeAddr h.nonzero h.owned hx⟩
  | @node ino nid k h hn hx =>
    exact ⟨.node nid,.node hn.placedNode.allocated hx (hx ▸ hn.placedNode.placed)⟩
  | nodeAddr h =>
    obtain ⟨hz,ino,nid,i,hl,hn,hi,hx⟩ := h
    exact ⟨.nodeAddr nid i,.nodeAddr hl hn hi hx hz⟩

def versions (nat : UInt32 → RtfsNatEntry) (f : Nat → Block) (es : List NatJournalEntry) (k : Nat) :
    LpaSlot → UInt32 → Prop := Holds (natAfter nat (es.take k)) f

def droppedSlot (isData : Bool) (nid : UInt32) (i : Nat) : LpaSlot :=
  if isData then .inodeAddr nid i else .node nid

theorem DropsAt.slot {es : List NatJournalEntry} {k : Nat} {e : NatJournalEntry} {b : Bool}
    (h : DropsAt L f nat es k e b x) : ∃ i, versions nat f es k (droppedSlot b e.nid i) x ∧
      ¬ versions nat f es (k + 1) (droppedSlot b e.nid i) x := by
  have hnext : natAfter nat (es.take (k + 1)) e.nid = e.newValue := by
    rw [List.take_add_one,h.entry,natAfter_append]
    exact Function.update_self ..
  have hdrop := h.dropped
  cases b with
  | false =>
    change x ∈ droppedNodes L _ _ at hdrop
    unfold droppedNodes at hdrop
    split at hdrop
    · rename_i hd
      obtain rfl := List.mem_singleton.mp hdrop
      refine ⟨0,.node hd.1 rfl hd.2.1,fun hh => ?_⟩
      cases hh with
      | node _ hx =>
        rw [hnext] at hx
        exact hd.2.2.2 hx.symm
    · cases hdrop
  | true =>
    change x ∈ droppedData L f _ _ _ at hdrop
    unfold droppedData at hdrop
    split at hdrop
    · rename_i hd
      obtain ⟨i,hi,rfl⟩ := List.mem_map.mp hdrop
      obtain ⟨hi,hda⟩ := List.mem_filter.mp hi
      obtain ⟨hz,hgone,_⟩ := of_decide_eq_true hda
      have hne : e.nid ≠ invalidNid := hd.2.1 ▸ hd.1.1
      refine ⟨i,.inodeAddr hne hd.2.1 ⟨List.mem_range.mp hi,hd.1.2.1,hd.2.2,rfl,hz⟩,fun hh => hgone ?_⟩
      cases hh with
      | inodeAddr _ _ hm =>
        rw [hnext] at hm
        unfold replacingAddr
        rw [if_pos ⟨hm.placed,hm.regular⟩]
        exact hm.addr.symm
    · cases hdrop

theorem DropsAt.main {es : List NatJournalEntry} {k : Nat} {e : NatJournalEntry} {b : Bool}
    (h : DropsAt L f nat es k e b x) : x ≠ invalidLpa ∧ InMainArea L x := by
  have hdropped := h.dropped
  cases b with
  | false => exact droppedNodes_main hdropped
  | true => exact droppedData_main hdropped

theorem DropsAt.lt {es : List NatJournalEntry} {k : Nat} {e : NatJournalEntry} {b : Bool}
    (h : DropsAt L f nat es k e b x) : k < es.length := (List.getElem?_eq_some_iff.mp h.entry).1

theorem DropsAt.once {es : List NatJournalEntry} (hr : Versions.FreshRun (versions nat f es) es.length)
    {k k' : Nat} {e e' : NatJournalEntry} {b b' : Bool} (h : DropsAt L f nat es k e b x)
    (h' : DropsAt L f nat es k' e' b' x) : k = k' ∧ b = b' := by
  obtain ⟨i,hi,hi'⟩ := h.slot
  obtain ⟨j,hj,hj'⟩ := h'.slot
  obtain ⟨hk,hs⟩ := hr.dropped_once h.lt h'.lt hi hi' hj hj'
  refine ⟨hk,?_⟩
  cases b <;> cases b' <;> simp [droppedSlot] at hs ⊢

theorem DropsAt.unheld {es : List NatJournalEntry} (hr : Versions.FreshRun (versions nat f es) es.length)
    {k : Nat} {e : NatJournalEntry} {b : Bool} (h : DropsAt L f nat es k e b x) (σ : LpaSlot) :
    ¬ Holds (natAfter nat es) f σ x := by
  obtain ⟨i,hi,hi'⟩ := h.slot
  have hend := hr.dropped hi hi' h.lt le_rfl σ
  unfold versions at hend
  rwa [List.take_length] at hend

end Holds

def natOutputs (js : List JournalContainer) : List NatJournalEntry :=
  (js.map (fun j => natJournalOutputVector j.natJournal)).flatten

def imageAt (L : Layout) (kh : Khash) (d : CommDev) (js : List JournalContainer) (k : Nat) : MetaImage :=
  (js.take k).foldl (applyContainer L kh) ⟨d.blocks 0,d.blocks⟩

def sitBit (L : Layout) (f : Nat → Block) (x : UInt32) : Bool := (sitOf L f (x / 512)).isValid (x.toNat % 512)

def heldBy (L : Layout) (d : CommDev) (f : Nat → Block) (js : List JournalContainer) (k : Nat) : Set UInt32 :=
  Versions.seen (versions (natView L d.blocks) f (natOutputs js)) (natOutputs (js.take k)).length

structure CowHistory (L : Layout) (kh : Khash) (d : CommDev) (js : List JournalContainer)
    (f : Nat → Block) : Prop where
  fresh : Versions.FreshRun (versions (natView L d.blocks) f (natOutputs js)) (natOutputs js).length
  mounted : ∀ x ∈ heldBy L d f js 0, InMainArea L x → sitBit L d.blocks x = true
  validated : ∀ k < js.length, ∀ x ∈ heldBy L d f js (k + 1), x ∉ heldBy L d f js k → InMainArea L x →
    sitBit L (imageAt L kh d js (k + 1)).blocks x = true
  kept : ∀ k j, js[k]? = some j → ∀ e ∈ j.sitJournal, ∀ x ∈ heldBy L d f js k, InMainArea L x →
    x / 512 = e.segID → e.newValue.isValid (x.toNat % 512) = true

section Bits
variable {L : Layout} {kh : Khash} {d : CommDev} {js : List JournalContainer} {f : Nat → Block}

theorem imageAt_succ {k : Nat} {j : JournalContainer} (hk : js[k]? = some j) :
    imageAt L kh d js (k + 1) = applyContainer L kh (imageAt L kh d js k) j := by
  have htake : js.take (k + 1) = js.take k ++ [j] := by
    rw [List.take_add_one,hk]
    rfl
  rw [imageAt,htake,List.foldl_append,List.foldl_cons,List.foldl_nil,imageAt]

theorem sitBit_kept (hL : L.Ok d) {j : JournalContainer} (hj : j.Loggable L d) (m : MetaImage) {x : UInt32}
    (hseg : SegInRange L (x / 512)) (hbit : sitBit L m.blocks x = true)
    (hkept : ∀ e ∈ j.sitJournal, x / 512 = e.segID → e.newValue.isValid (x.toNat % 512) = true) :
    sitBit L (applyContainer L kh m j).blocks x = true := by
  unfold sitBit
  rw [(applyContainer_replayed hL kh hj m).sits _ hseg]
  cases hlast : lastEntry SitJournalEntry.segID (x / 512) (sitJournalOutputVector j.sitJournal) with
  | none => exact hbit
  | some e =>
    obtain ⟨hmem,hkey⟩ := List.mem_filter.mp (List.mem_of_getLast? hlast)
    have hin : e ∈ j.sitJournal := (treeOutput_perm SitJournalEntry.segID j.sitJournal).mem_iff.mp hmem
    exact hkept e hin (of_decide_eq_true hkey).symm

theorem CowHistory.bits (hL : L.Ok d) (hseg : ∀ x, InMainArea L x → SegInRange L (x / 512))
    (hj : ∀ j ∈ js, j.Loggable L d) (h : CowHistory L kh d js f) {k : Nat} (hk : k ≤ js.length)
    {x : UInt32} (hx : x ∈ heldBy L d f js k) (hmain : InMainArea L x) :
    sitBit L (imageAt L kh d js k).blocks x = true := by
  induction k with
  | zero => exact h.mounted x hx hmain
  | succ k ih =>
    by_cases hold : x ∈ heldBy L d f js k
    · have hget : js[k]? = some js[k] := List.getElem?_eq_getElem hk
      rw [imageAt_succ hget]
      exact sitBit_kept hL (hj _ (List.getElem_mem hk)) _ (hseg x hmain) (ih (Nat.le_of_succ_le hk) hold)
        (fun e he hs => h.kept k _ hget e he x hold hmain hs)
    · exact h.validated k hk x hx hold hmain

end Bits

def importedLpas (d : CommDev) : List UInt32 :=
  (importRecoveredReclaims d cowReclaimRegistryInit).2.completed.flatMap (fun r => r.dataLpas ++ r.nodeLpas)

theorem importedLpas_eq (d : CommDev) : importedLpas d = d.recoveredReclaim.flatMap ReclaimRecord.lpas := by
  unfold importedLpas
  rw [import_completed,← toList_lpas]
  simp only [cowReclaimRegistryInit,List.nil_append,List.flatMap_map]
  rfl

theorem segment0_history {L : Layout} {kh : Khash} {d : CommDev} (hL : L.Ok d) {js : List JournalContainer}
    (hj : ∀ j ∈ js, j.Loggable L d) (m : MetaImage) :
    u32At (js.foldl (applyContainer L kh) m).superBlock segment0BlkaddrOff =
      u32At m.superBlock segment0BlkaddrOff := by
  have hnone : lastEntry SuperBlockJournalEntry.off (UInt32.ofNat segment0BlkaddrOff)
      (js.flatMap JournalContainer.superBlockJournal) = none := by
    apply lastEntry_eq_none
    intro hm
    obtain ⟨e,he,hoff⟩ := List.mem_map.mp hm
    obtain ⟨j,hjm,he⟩ := List.mem_flatMap.mp he
    have hout := ((hj j hjm).super e he).1.2
    rw [hoff] at hout
    exact absurd hout (by decide)
  have hf : u32At (js.foldl (applyContainer L kh) m).superBlock segment0BlkaddrOff = _ :=
    superField_history hL hj m (UInt32.ofNat segment0BlkaddrOff) (by decide)
  rw [hnone] at hf
  exact hf

theorem recovered_reclaim_once (L : Layout) (kh : Khash) (d : CommDev) (hL : L.Ok d) (p : Nat)
    (hs : ScanFrom L (d.blocks 0) p) (h0 : u32At (d.blocks 0) segment0BlkaddrOff = 0)
    (hseg : ∀ x, InMainArea L x → SegInRange L (x / 512)) (mem : Nat → Block)
    (js : List JournalContainer) (hj : ∀ j ∈ js, j.Loggable L d) (s : Sys)
    (hrun : commitAll kh (fileSystemManagerSetup mem d) js = some s) (dc : CommDev)
    (hd : CrashImage L s.dev dc) (hfit : historyBlockNum kh js ≤ L.journalSize)
    (hend : historyBlockNum kh js = L.journalSize ∨
      (headerAt (journalBlock d L (p + historyBlockNum kh js)) 0).len = 0)
    (haddr : ∀ j ∈ js, ∀ e ∈ j.natJournal,
      e.newValue.blockAddr = invalidLpa ∨ InMainArea L e.newValue.blockAddr)
    (hcow : CowHistory L kh d js dc.blocks) (fuel : Nat) (hf : js.length < fuel) :
    ∃ d' m', commSubmitFsRecoverFromDbRequest fuel dc = some (d',none) ∧
      cowReclaimRegistryDrainCompleted (importRecoveredReclaims d' cowReclaimRegistryInit).2 (loadMeta d') =
        some (cowReclaimRegistryInit,m') ∧ (importedLpas d').Nodup ∧
      ∀ x ∈ importedLpas d', lpaBit (loadMeta d') x = true ∧
        (∀ nid, (natView L d'.blocks nid).ino ≠ invalidNid → (natView L d'.blocks nid).blockAddr ≠ x) ∧
        ¬ Referenced (natView L d'.blocks) dc.blocks x := by
  obtain ⟨d',hrec,hd',hrecs⟩ := history_remounted hL hs hj hrun hd hfit hend hf
  obtain ⟨_,hran,_⟩ := ranOnDisk hL hs hrun hd
  have hm := hs.1
  rw [← layoutOf_history hj ⟨d.blocks 0,d.blocks⟩] at hm
  have hlpas : importedLpas d' = (natHistoryReclaim L dc.blocks (natView L d.blocks)
      (js.map (fun j => natJournalOutputVector j.natJournal))).flatMap ReclaimRecord.lpas := by
    rw [importedLpas_eq,hrecs,historyReclaim_view hL hran.tables hj haddr]
  have hview : natView L d'.blocks = natAfter (natView L d.blocks) (natOutputs js) := by
    rw [hd'.natView_eq,natView_history hL kh hj]
    rfl
  have hdrop : ∀ x ∈ importedLpas d', ∃ k e b,
      DropsAt L dc.blocks (natView L d.blocks) (natOutputs js) k e b x := by
    intro x hx
    rw [hlpas] at hx
    exact (mem_historyReclaim _ x).mp hx
  have hmain : ∀ x ∈ importedLpas d', x ≠ invalidLpa ∧ InMainArea L x := by
    intro x hx
    obtain ⟨k,e,b,h⟩ := hdrop x hx
    exact h.main
  have hbits : ∀ x ∈ importedLpas d', lpaBit (loadMeta d') x = true := by
    intro x hx
    obtain ⟨k,e,b,h⟩ := hdrop x hx
    obtain ⟨i,hi,_⟩ := h.slot
    have hheld : x ∈ heldBy L d dc.blocks js js.length := by
      refine ⟨k,?_,_,hi⟩
      rw [List.take_length]
      exact Nat.le_of_lt h.lt
    have hbit := hcow.bits hL hseg hj le_rfl hheld (hmain x hx).2
    rw [imageAt,List.take_length] at hbit
    unfold lpaBit
    rw [hd'.loadMeta_sit (hL.congr hran.blockCount) hm (hseg x (hmain x hx).2)]
    exact hbit
  have hnodup : (importedLpas d').Nodup := by
    rw [hlpas]
    exact historyReclaim_nodup _ (fun k k' e e' b b' x h h' => DropsAt.once hcow.fresh h h')
  have hfield : (loadMeta d').field segment0BlkaddrOff = 0 := by
    rw [hd'.loadMeta_field (Or.inl (by decide)),segment0_history hL hj]
    exact h0
  obtain ⟨m',hm',_⟩ := invalidateAll_ok hfield hnodup (fun x hx => (hmain x hx).1) hbits
  refine ⟨d',m',hrec,?_,hnodup,fun x hx => ⟨hbits x hx,?_⟩⟩
  · rw [drain_import,← importedLpas_eq,hm']
    rfl
  · obtain ⟨k,e,b,h⟩ := hdrop x hx
    have hfree := h.unheld hcow.fresh
    rw [hview]
    refine ⟨fun nid hino haddr => hfree (.node nid) (.node hino haddr (hmain x hx).1),fun href => ?_⟩
    obtain ⟨σ,hσ⟩ := href.holds
    exact hfree σ hσ

section Small

theorem small_sit_valid (o : Nat) : ((loadMeta smallDisk).sit 5).isValid o = decide (o = 0) := by
  have he : (loadMeta smallDisk).sit 5 = rtfsMkfsSitSetValid (chainedEntry smallLayout 5) 0 := by
    rw [loadMeta_small.sits 5 (by decide)]
    have hentry := @initialSit_entry smallLayout 5 (by decide) (by decide) (by decide) (by decide)
    rwa [if_pos (by decide)] at hentry
  have hzero : (chainedEntry smallLayout 5).isValid o = false := by
    have hz : RtfsSitEntry.zero.isValid o = false := Bitmap.test_zero o
    unfold chainedEntry
    split
    · exact hz
    · exact hz
  rw [he,sitSetValid_isValid _ (by decide),hzero,Bool.or_false]

theorem sitWith_base {offs : List Nat} (h : ∀ o ∈ offs, o < 512) (o : Nat) :
    (sitWith ((loadMeta smallDisk).sit 5) offs).isValid o = (decide (o ∈ offs) || decide (o = 0)) := by
  rw [sitWith_isValid h,small_sit_valid]

def emptyInode : Block := writeWords Buf.zero [(4,1),(8,1),(4080,2),(4084,2)]

theorem emptyInode_word {off : Nat} (ha : 4 ∣ off) (hlo : 8 < off) (hhi : off < 4080) : u32At emptyInode off = 0 := by
  refine u32At_zeroWords ha (by simp) (fun w hw => ?_)
  have hoff : w.1 ≤ 8 ∨ 4080 ≤ w.1 := by
    revert w
    decide
  omega

theorem emptyInode_addr {i : Nat} (hi : i < defAddrsPerInode) : inodeAddr emptyInode i = invalidLpa := by
  unfold defAddrsPerInode at hi
  exact emptyInode_word (by omega) (by omega) (by omega)

theorem emptyInode_nid {i : Nat} (hi : i < defNidsPerInode) : inodeNid emptyInode i = invalidNid := by
  unfold defNidsPerInode at hi
  exact emptyInode_word (by omega) (by omega) (by omega)

def inodeContent (lpa : Nat) : Block := if lpa = 2560 then rootInode smallOptions else emptyInode

structure EmptyInodes (nat : UInt32 → RtfsNatEntry) (f : Nat → Block) : Prop where
  root : nat 1 = ⟨1,2560⟩
  rootBlock : f 2560 = rootInode smallOptions
  empty : ∀ nid, nid ≠ 1 → (nat nid).ino ≠ invalidNid → (nat nid).block f = emptyInode

theorem EmptyInodes.holds_iff {nat : UInt32 → RtfsNatEntry} {f : Nat → Block} (h : EmptyInodes nat f)
    {σ : LpaSlot} {x : UInt32} : Holds nat f σ x ↔ ∃ nid, σ = .node nid ∧
      (nat nid).ino ≠ invalidNid ∧ (nat nid).blockAddr = x ∧ x ≠ invalidLpa := by
  have hroot : nodeInline ((nat 1).block f) = true := by
    rw [h.root]
    change nodeInline (f 2560) = true
    rw [h.rootBlock]
    exact smallRoot_inline
  constructor
  · intro hx
    cases hx with
    | @node nid _ hn hx hz => exact ⟨nid,rfl,hn,hx,hz⟩
    | @inodeAddr nid _ i hn ho hm =>
      by_cases h1 : nid = 1
      · rw [h1] at hm
        exact absurd hroot hm.regular
      · have ha := hm.addr
        rw [h.empty nid h1 (ho.trans_ne hn)] at ha
        exact absurd (ha.symm.trans (emptyInode_addr hm.index)) hm.valid
    | @nodeAddr ino _ _ _ hl hn =>
      obtain ⟨hr,i,hi,_,hz⟩ := hn.rooted
      by_cases h1 : ino = 1
      · rw [h1] at hr
        exact absurd hroot hr
      · rw [h.empty ino h1 (hl.owned.trans_ne hl.nonzero)] at hz
        exact absurd (emptyInode_nid hi) hz
  · rintro ⟨nid,rfl,hn,hx,hz⟩
    exact .node hn hx hz

def inodeMoves : List JournalContainer := [fileTx [⟨2,⟨2,2561⟩⟩] [1],fileTx [⟨2,⟨2,2562⟩⟩] [1,2]]

theorem inodeMoves_loggable : ∀ j ∈ inodeMoves, j.Loggable smallAreas smallDisk := by
  intro j hj
  rcases List.mem_cons.mp hj with rfl | hj
  · exact fileTx_loggable _ (by decide)
  · rw [List.mem_singleton.mp hj]
    exact fileTx_loggable _ (by decide)

theorem inodeMoves_outputs : natOutputs inodeMoves = [⟨2,⟨2,2561⟩⟩,⟨2,⟨2,2562⟩⟩] := by
  change [natJournalOutputVector [⟨2,⟨2,2561⟩⟩],natJournalOutputVector [⟨2,⟨2,2562⟩⟩]].flatten = _
  decide +kernel

section Moves
variable {f : Nat → Block} {σ : LpaSlot} {x : UInt32}

theorem small_moved (hf : ∀ lpa, 2560 ≤ lpa → f lpa = inodeContent lpa)
    {nat : UInt32 → RtfsNatEntry} (hroot : nat 1 = ⟨1,2560⟩) {a : UInt32} (ha : 2560 < a.toNat)
    (h2 : nat 2 = ⟨2,a⟩) (hfree : ∀ nid, nid ≠ 1 → nid ≠ 2 → (nat nid).ino = invalidNid) :
    Holds nat f σ x ↔ σ = .node 1 ∧ x = 2560 ∨ σ = .node 2 ∧ x = a := by
  have hempty : EmptyInodes nat f := by
    refine ⟨hroot,hf 2560 le_rfl,fun nid h1 hn => ?_⟩
    by_cases hnid : nid = 2
    · rw [hnid,h2]
      change f a.toNat = _
      rw [hf _ (le_of_lt ha),inodeContent,if_neg (by omega)]
    · exact absurd (hfree nid h1 hnid) hn
  rw [hempty.holds_iff]
  constructor
  · rintro ⟨nid,rfl,hn,hx,hz⟩
    by_cases h1 : nid = 1
    · rw [h1,hroot] at hx
      exact Or.inl ⟨by rw [h1],hx.symm⟩
    · by_cases hnid : nid = 2
      · rw [hnid,h2] at hx
        exact Or.inr ⟨by rw [hnid],hx.symm⟩
      · exact absurd (hfree nid h1 hnid) hn
  · rintro (⟨rfl,rfl⟩ | ⟨rfl,rfl⟩)
    · exact ⟨1,rfl,by rw [hroot]; decide,by rw [hroot],by decide⟩
    · refine ⟨2,rfl,?_,by rw [h2],?_⟩
      · rw [h2]
        exact (by decide : (2 : UInt32) ≠ 0)
      · rintro rfl
        exact absurd ha (by decide)

theorem small_mounted (hf : ∀ lpa, 2560 ≤ lpa → f lpa = inodeContent lpa) :
    Holds (natView smallAreas smallDisk.blocks) f σ x ↔ σ = .node 1 ∧ x = 2560 := by
  have hempty : EmptyInodes (natView smallAreas smallDisk.blocks) f :=
    ⟨small_view_root,hf 2560 le_rfl,fun nid h1 hn => absurd (small_view_free h1) hn⟩
  rw [hempty.holds_iff]
  constructor
  · rintro ⟨nid,rfl,hn,hx,_⟩
    by_cases h1 : nid = 1
    · rw [h1,small_view_root] at hx
      exact ⟨by rw [h1],hx.symm⟩
    · exact absurd (small_view_free h1) hn
  · rintro ⟨rfl,rfl⟩
    exact ⟨1,rfl,by rw [small_view_root]; decide,by rw [small_view_root],by decide⟩

theorem inodeMoves_version (hf : ∀ lpa, 2560 ≤ lpa → f lpa = inodeContent lpa) {m : Nat} (hm : m ≤ 2) :
    versions (natView smallAreas smallDisk.blocks) f (natOutputs inodeMoves) m σ x ↔
      σ = .node 1 ∧ x = 2560 ∨ 0 < m ∧ σ = .node 2 ∧ x = UInt32.ofNat (2560 + m) := by
  unfold versions
  rw [inodeMoves_outputs]
  have hfree : ∀ (nat : UInt32 → RtfsNatEntry) (e : RtfsNatEntry),
      (∀ nid, nid ≠ 1 → nid ≠ 2 → (nat nid).ino = invalidNid) →
      ∀ nid, nid ≠ 1 → nid ≠ 2 → (Function.update nat 2 e nid).ino = invalidNid := by
    intro nat e h nid h1 h2
    rw [Function.update_of_ne h2]
    exact h nid h1 h2
  have hbase : ∀ nid, nid ≠ 1 → nid ≠ 2 →
      (natView smallAreas smallDisk.blocks nid).ino = invalidNid := fun nid h1 _ => small_view_free h1
  have hmoved : ∀ nat : UInt32 → RtfsNatEntry, nat 1 = ⟨1,2560⟩ →
      (∀ nid, nid ≠ 1 → nid ≠ 2 → (nat nid).ino = invalidNid) → ∀ a : UInt32, 2560 < a.toNat →
      (Holds (Function.update nat 2 ⟨2,a⟩) f σ x ↔ σ = .node 1 ∧ x = 2560 ∨ σ = .node 2 ∧ x = a) := by
    intro nat h1 hn a ha
    refine small_moved hf ?_ ha (Function.update_self ..) (hfree nat _ hn)
    rw [Function.update_of_ne (by decide),h1]
  match m,hm with
  | 0,_ =>
    rw [List.take_zero,natAfter,List.foldl_nil,small_mounted hf]
    simp
  | 1,_ =>
    have hnat : natAfter (natView smallAreas smallDisk.blocks)
        (([⟨2,⟨2,2561⟩⟩,⟨2,⟨2,2562⟩⟩] : List NatJournalEntry).take 1) =
        Function.update (natView smallAreas smallDisk.blocks) 2 ⟨2,2561⟩ := rfl
    rw [hnat,hmoved _ small_view_root hbase 2561 (by decide)]
    simp
  | 2,_ =>
    have hnat : natAfter (natView smallAreas smallDisk.blocks)
        (([⟨2,⟨2,2561⟩⟩,⟨2,⟨2,2562⟩⟩] : List NatJournalEntry).take 2) =
        Function.update (Function.update (natView smallAreas smallDisk.blocks) 2 ⟨2,2561⟩) 2 ⟨2,2562⟩ := rfl
    have hroot : Function.update (natView smallAreas smallDisk.blocks) 2 ⟨2,2561⟩ 1 = ⟨1,2560⟩ := by
      rw [Function.update_of_ne (by decide),small_view_root]
    rw [hnat,hmoved _ hroot (hfree _ _ hbase) 2562 (by decide)]
    simp

theorem inodeMoves_seen (hf : ∀ lpa, 2560 ≤ lpa → f lpa = inodeContent lpa) {m : Nat} (hm : m ≤ 2)
    (hx : x ∈ Versions.seen (versions (natView smallAreas smallDisk.blocks) f (natOutputs inodeMoves)) m) :
    ∃ k ≤ m, x = UInt32.ofNat (2560 + k) := by
  obtain ⟨k,hk,σ,hσ⟩ := hx
  rcases (inodeMoves_version hf (hk.trans hm)).mp hσ with ⟨_,hx⟩ | ⟨_,_,hx⟩
  · exact ⟨0,Nat.zero_le m,hx⟩
  · exact ⟨k,hk,hx⟩

theorem inodeMoves_fresh (hf : ∀ lpa, 2560 ≤ lpa → f lpa = inodeContent lpa) :
    Versions.FreshRun (versions (natView smallAreas smallDisk.blocks) f (natOutputs inodeMoves)) 2 := by
  have hne : ∀ m < 2, UInt32.ofNat (2560 + (m + 1)) ≠ 2560 ∧
      ∀ k ≤ m, UInt32.ofNat (2560 + (m + 1)) ≠ UInt32.ofNat (2560 + k) := by decide
  refine ⟨fun σ τ x hσ hτ => ?_,fun m hm => ⟨fun σ x hσ => ?_,fun σ τ x hσ hτ => ?_⟩⟩
  · rw [inodeMoves_version hf (Nat.zero_le 2)] at hσ hτ
    simp only [lt_irrefl,false_and,or_false] at hσ hτ
    rw [hσ.1,hτ.1]
  · rcases (inodeMoves_version hf hm).mp hσ with hroot | ⟨_,rfl,rfl⟩
    · exact Or.inl ((inodeMoves_version hf (Nat.le_of_lt hm)).mpr (Or.inl hroot))
    · refine Or.inr (fun hseen => ?_)
      obtain ⟨k,hk,he⟩ := inodeMoves_seen hf (Nat.le_of_lt hm) hseen
      exact (hne m hm).2 k hk he
  · rw [inodeMoves_version hf hm] at hσ hτ
    rcases hσ with ⟨rfl,rfl⟩ | ⟨_,rfl,rfl⟩
    · rcases hτ with ⟨rfl,_⟩ | ⟨_,_,he⟩
      · rfl
      · exact absurd he.symm (hne m hm).1
    · rcases hτ with ⟨_,he⟩ | ⟨_,rfl,_⟩
      · exact absurd he (hne m hm).1
      · rfl

theorem inodeMoves_heldBy (hf : ∀ lpa, 2560 ≤ lpa → f lpa = inodeContent lpa) {k : Nat} (hk : k ≤ 2)
    (hx : x ∈ heldBy smallAreas smallDisk f inodeMoves k) : ∃ i ≤ k, x = UInt32.ofNat (2560 + i) := by
  have hlen : (natOutputs (inodeMoves.take k)).length = k := by
    have hperm (ns : List NatJournalEntry) : (natJournalOutputVector ns).length = ns.length :=
      (treeOutput_perm NatJournalEntry.nid ns).length_eq
    interval_cases k <;> simp [natOutputs,inodeMoves,hperm,fileTx]
  rw [heldBy,hlen] at hx
  exact inodeMoves_seen hf hk hx

theorem inodeMoves_cow (kh : Khash) (hf : ∀ lpa, 2560 ≤ lpa → f lpa = inodeContent lpa) :
    CowHistory smallAreas kh smallDisk inodeMoves f := by
  obtain ⟨hL,hs,_⟩ := smallDisk_ok
  have hlen : (natOutputs inodeMoves).length = 2 := by
    rw [inodeMoves_outputs]
    rfl
  have hparts : ∀ i ≤ 2, (UInt32.ofNat (2560 + i)) / 512 = 5 ∧ (UInt32.ofNat (2560 + i)).toNat % 512 = i := by
    decide
  refine ⟨by rw [hlen]; exact inodeMoves_fresh hf,fun x hx _ => ?_,fun k hk x hx hold _ => ?_,
    fun k j hk e he x hx _ _ => ?_⟩
  · obtain ⟨i,hi,rfl⟩ := inodeMoves_heldBy hf (Nat.zero_le 2) hx
    obtain ⟨hseg,hoff⟩ := hparts i (hi.trans (Nat.zero_le 2))
    unfold sitBit
    rw [hseg,hoff,← loadMeta_sit hL hs.1 (by unfold SegInRange; decide),small_sit_valid]
    exact decide_eq_true (Nat.le_zero.mp hi)
  · obtain ⟨i,hi,rfl⟩ := inodeMoves_heldBy hf hk hx
    obtain ⟨hseg,hoff⟩ := hparts i (hi.trans hk)
    have hget : inodeMoves[k]? = some inodeMoves[k] := List.getElem?_eq_getElem hk
    have hlog := inodeMoves_loggable _ (List.getElem_mem hk)
    rw [imageAt_succ hget]
    unfold sitBit
    rw [hseg,hoff]
    match k,hk with
    | 0,_ =>
      change (sitOf smallAreas (applyContainer smallAreas kh _ (fileTx [⟨2,⟨2,2561⟩⟩] [1])).blocks 5).isValid i = _
      rw [fileTx_sit hlog,sitWith_base (by decide)]
      interval_cases i <;> rfl
    | 1,_ =>
      change (sitOf smallAreas (applyContainer smallAreas kh _ (fileTx [⟨2,⟨2,2562⟩⟩] [1,2])).blocks 5).isValid i = _
      rw [fileTx_sit hlog,sitWith_base (by decide)]
      interval_cases i <;> rfl
  · have hlt : k < 2 := (List.getElem?_eq_some_iff.mp hk).1
    obtain ⟨i,hi,rfl⟩ := inodeMoves_heldBy hf (Nat.le_of_lt hlt) hx
    rw [(hparts i (hi.trans (Nat.le_of_lt hlt))).2]
    match k,hlt with
    | 0,_ =>
      cases hk
      rw [List.mem_singleton.mp he]
      obtain rfl := Nat.le_zero.mp hi
      exact sitWith_base (by decide) 0
    | 1,_ =>
      cases hk
      rw [List.mem_singleton.mp he]
      dsimp only
      rw [sitWith_base (by decide)]
      interval_cases i <;> rfl

end Moves

theorem small_segments (x : UInt32) (hx : InMainArea smallAreas x) : SegInRange smallAreas (x / 512) := by
  have hlt : x.toNat < 32768 := hx.2
  have hdiv : (x / 512).toNat = x.toNat / 512 := UInt32.toNat_div x 512
  change (x / 512).toNat / 60 < 1 * 512
  omega

theorem small_segment0 : u32At (smallDisk.blocks 0) segment0BlkaddrOff = 0 := by
  have hf := loadMeta_small.super
  rw [loadMeta_superBlock] at hf
  rw [hf]
  exact u32At_initialSuper _ _ (by decide) rfl

theorem recovered_reclaim_once_small : ∃ s dc d' m',
    commitAll inOrderKhash (fileSystemManagerSetup (fun _ => Buf.zero) smallDisk) inodeMoves = some s ∧
    CrashImage smallAreas s.dev dc ∧ commSubmitFsRecoverFromDbRequest 3 dc = some (d',none) ∧
    cowReclaimRegistryDrainCompleted (importRecoveredReclaims d' cowReclaimRegistryInit).2 (loadMeta d') =
      some (cowReclaimRegistryInit,m') ∧ (importedLpas d').Nodup ∧
    ∀ x ∈ importedLpas d', lpaBit (loadMeta d') x = true ∧
      (∀ nid, (natView smallAreas d'.blocks nid).ino ≠ invalidNid →
        (natView smallAreas d'.blocks nid).blockAddr ≠ x) ∧
      ¬ Referenced (natView smallAreas d'.blocks) dc.blocks x := by
  obtain ⟨hL,hs,hz,_⟩ := smallDisk_ok
  have hone : ∀ j ∈ inodeMoves, journalBlockNum inOrderKhash j = 1 := by
    intro j hj
    rcases List.mem_cons.mp hj with rfl | hj
    · exact fileTx_blockNum _ (by decide) _
    · rw [List.mem_singleton.mp hj]
      exact fileTx_blockNum _ (by decide) _
  have hnum : historyBlockNum inOrderKhash inodeMoves = 2 := historyBlockNum_one hone
  obtain ⟨s,hrun,_⟩ := small_history_crashed inOrderKhash inodeMoves hone (by decide) inodeMoves_loggable
  have hd := s.dev.withMain_crash inodeContent
  have hf : ∀ lpa, 2560 ≤ lpa → (s.dev.withMain inodeContent).blocks lpa = inodeContent lpa :=
    fun _ hl => if_neg (Nat.not_lt.mpr hl)
  obtain ⟨d',m',h⟩ := recovered_reclaim_once smallAreas inOrderKhash smallDisk hL 0 hs small_segment0
    small_segments (fun _ => Buf.zero) inodeMoves inodeMoves_loggable s hrun _ hd
    (by rw [hnum]; decide) (Or.inr (by rw [hz]; rfl)) (by decide) (inodeMoves_cow _ hf) 3 (by decide)
  exact ⟨s,_,d',m',hrun,hd,h⟩

def drainedReplay : List JournalContainer := inodeMoves ++ [fileTx [⟨3,⟨3,2563⟩⟩] [2,3]]

theorem drained_reclaim_replayed : ∃ s dc d',
    (∀ j ∈ drainedReplay, j.Loggable smallAreas smallDisk) ∧
    commitAll inOrderKhash (fileSystemManagerSetup (fun _ => Buf.zero) smallDisk) drainedReplay = some s ∧
    CrashImage smallAreas s.dev dc ∧ commSubmitFsRecoverFromDbRequest 4 dc = some (d',none) ∧
    2561 ∈ importedLpas d' ∧ lpaBit (loadMeta d') 2561 = false ∧
    cowReclaimRegistryDrainCompleted (importRecoveredReclaims d' cowReclaimRegistryInit).2 (loadMeta d') =
      none := by
  obtain ⟨hL,hs,_⟩ := smallDisk_ok
  have hlog : ∀ j ∈ drainedReplay, j.Loggable smallAreas smallDisk := by
    intro j hj
    rcases List.mem_append.mp hj with hj | hj
    · exact inodeMoves_loggable j hj
    · rw [List.mem_singleton.mp hj]
      exact fileTx_loggable _ (by decide)
  have hone : ∀ j ∈ drainedReplay, journalBlockNum inOrderKhash j = 1 := by
    intro j hj
    simp only [drainedReplay,inodeMoves,List.cons_append,List.nil_append,List.mem_cons,List.not_mem_nil,
      or_false] at hj
    rcases hj with rfl | rfl | rfl
    all_goals exact fileTx_blockNum _ (by decide) _
  obtain ⟨s,hrun,hcrash⟩ := small_history_crashed inOrderKhash drainedReplay hone (by decide) hlog
  have hd := CrashImage.refl smallAreas s.dev
  obtain ⟨hLc,d',hrec,hd',hrecs⟩ := hcrash _ hd
  obtain ⟨_,hran,_⟩ := ranOnDisk hL hs hrun hd
  have hmain : ∀ j ∈ drainedReplay, ∀ e ∈ j.natJournal,
      e.newValue.blockAddr = invalidLpa ∨ InMainArea smallAreas e.newValue.blockAddr := by decide
  have hm := hs.1
  rw [← layoutOf_history hlog ⟨smallDisk.blocks 0,smallDisk.blocks⟩] at hm
  have hlpas : importedLpas d' = (natHistoryReclaim smallAreas s.dev.blocks
      (natView smallAreas smallDisk.blocks)
      (drainedReplay.map (fun j => natJournalOutputVector j.natJournal))).flatMap ReclaimRecord.lpas := by
    rw [importedLpas_eq,hrecs,historyReclaim_view hL hran.tables hlog hmain]
  have hin : 2561 ∈ importedLpas d' := by
    have hfirst : natJournalOutputVector [⟨2,⟨2,2561⟩⟩] = [⟨2,⟨2,2561⟩⟩] := by decide +kernel
    have hsecond : natJournalOutputVector [⟨2,⟨2,2562⟩⟩] = [⟨2,⟨2,2562⟩⟩] := by decide +kernel
    have hbefore : natAfter (natView smallAreas smallDisk.blocks) ((drainedReplay.map
        (fun j => natJournalOutputVector j.natJournal)).take 1).flatten =
        Function.update (natView smallAreas smallDisk.blocks) 2 ⟨2,2561⟩ := by
      change natAfter _ (natJournalOutputVector [⟨2,⟨2,2561⟩⟩] ++ []) = _
      rw [hfirst]
      rfl
    rw [hlpas]
    refine mem_history_of_tx (k := 1) rfl ?_
    rw [hbefore]
    change 2561 ∈ (natReclaim _ _ _ (natJournalOutputVector [⟨2,⟨2,2562⟩⟩])).lpas
    rw [hsecond]
    have hold : Function.update (natView smallAreas smallDisk.blocks) 2 ⟨2,2561⟩ 2 = ⟨2,2561⟩ :=
      Function.update_self ..
    have hnew : natAfter (Function.update (natView smallAreas smallDisk.blocks) 2 ⟨2,2561⟩)
        [⟨2,⟨2,2562⟩⟩] 2 = ⟨2,2562⟩ := by
      rw [natAfter_cons,natAfter,List.foldl_nil,Function.update_self]
    exact node_reclaimed (by decide) (by decide) (by decide) (by rw [hold]; decide) (by rw [hold])
      (by rw [hnew]; decide)
  have hbit : lpaBit (loadMeta d') 2561 = false := by
    have hsit : (loadMeta d').sit 5 = sitWith ((loadMeta smallDisk).sit 5) [2,3] := by
      rw [hd'.loadMeta_sit hLc hm (by unfold SegInRange; decide),drainedReplay,List.foldl_append,
        List.foldl_cons,List.foldl_nil]
      exact fileTx_sit (hlog _ (List.mem_append_right _ List.mem_cons_self))
    unfold lpaBit
    change ((loadMeta d').sit 5).isValid 1 = false
    rw [hsit,sitWith_base (by decide)]
    rfl
  have hfield : (loadMeta d').field segment0BlkaddrOff = 0 := by
    rw [hd'.loadMeta_field (Or.inl (by decide)),segment0_history hL hlog]
    exact small_segment0
  have hvalid : ∀ x ∈ importedLpas d', x ≠ invalidLpa := by
    intro x hx
    rw [hlpas] at hx
    obtain ⟨k,e,b,h⟩ := (mem_historyReclaim _ x).mp hx
    exact h.main.1
  refine ⟨s,_,d',hlog,hrun,hd,hrec,hin,hbit,?_⟩
  rw [drain_import,← importedLpas_eq]
  cases hdrain : sitInvalidateLpas (loadMeta d') (importedLpas d') with
  | none => rfl
  | some m' =>
    have hset := invalidateAll_set hfield hvalid hdrain hin
    rw [hbit] at hset
    cases hset

end Small

end Rtfs
