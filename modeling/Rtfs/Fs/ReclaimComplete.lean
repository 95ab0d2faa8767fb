import Rtfs.Fs.CowReclaimRegistry
import Rtfs.Fs.ReclaimLost
import Rtfs.Fs.Remount

namespace Rtfs

theorem imported_mem {d : CommDev} {x : UInt32} :
    (∃ r ∈ (importRecoveredReclaims d cowReclaimRegistryInit).2.completed, x ∈ r.dataLpas ++ r.nodeLpas) ↔
      x ∈ d.recoveredReclaim.flatMap ReclaimRecord.lpas := by
  rw [import_completed,← toList_lpas,List.mem_flatMap]
  constructor
  · rintro ⟨r,hr,hx⟩
    obtain ⟨r',hr',rfl⟩ := List.mem_map.mp hr
    exact ⟨r',hr',hx⟩
  · rintro ⟨r,hr,hx⟩
    exact ⟨importedRecord r,List.mem_map_of_mem hr,hx⟩

theorem Remounted.natView_eq {L : Layout} {d d' : CommDev} {m : MetaImage} {o : Nat}
    (h : Remounted L d d' m o) : natView L d'.blocks = natView L m.blocks := by
  funext nid
  by_cases hn : NidInRange L nid
  · rw [Rtfs.natView_eq hn,Rtfs.natView_eq hn,h.holds.natOf_eq hn]
  · rw [natView,natView,if_neg hn,if_neg hn]

theorem historyReclaim_view {L : Layout} {kh : Khash} {d dc : CommDev} (hL : L.Ok d)
    (ht : SameTables L ⟨d.blocks 0,d.blocks⟩ ⟨dc.blocks 0,dc.blocks⟩) {js : List JournalContainer}
    (hj : ∀ j ∈ js, j.Loggable L d) (haddr : ∀ j ∈ js, ∀ e ∈ j.natJournal,
      e.newValue.blockAddr = invalidLpa ∨ InMainArea L e.newValue.blockAddr) :
    historyReclaim L kh ⟨dc.blocks 0,dc.blocks⟩ js = natHistoryReclaim L dc.blocks (natView L d.blocks)
      (js.map (fun j => natJournalOutputVector j.natJournal)) := by
  have hsame : ∀ nid, NidInRange L nid → natOf L dc.blocks nid = natView L d.blocks nid := by
    intro nid hn
    have hblk := ht.nats (L.natLpa nid) ⟨Nat.le_add_right _ _,Nat.add_lt_add_left hn _⟩
    rw [natView_eq hn,natOf,natOf]
    exact congrArg (fun b => natEntryAt b _) hblk
  have hout : ∀ es ∈ js.map (fun j => natJournalOutputVector j.natJournal), ∀ e ∈ es, NidInRange L e.nid := by
    intro es hes e he
    obtain ⟨j,hjm,rfl⟩ := List.mem_map.mp hes
    exact ((hj j hjm).nats e (natOutput_mem.mp he)).1
  rw [historyReclaim_eq hL kh hj (fun j hjm e he => (haddr j hjm e he).imp_right And.left),
    natHistoryReclaim_agree hout hsame]

theorem recovered_reclaim_complete (L : Layout) (kh : Khash) (d : CommDev) (hL : L.Ok d) (p : Nat)
    (hs : ScanFrom L (d.blocks 0) p) (hin : InMain L (natView L d.blocks)) (mem : Nat → Block)
    (js : List JournalContainer) (hj : ∀ j ∈ js, j.Loggable L d) (s : Sys)
    (hrun : commitAll kh (fileSystemManagerSetup mem d) js = some s) (dc : CommDev)
    (hd : CrashImage L s.dev dc) (hfit : historyBlockNum kh js ≤ L.journalSize)
    (hend : historyBlockNum kh js = L.journalSize ∨
      (headerAt (journalBlock d L (p + historyBlockNum kh js)) 0).len = 0)
    (hes : ∀ k j, js[k]? = some j → OwnedUpdates L (natAt L kh d js k) dc.blocks j.natJournal)
    (hkeep : ∀ k < js.length, KeepsMapped (natAt L kh d js k) (natAt L kh d js (k + 1)) dc.blocks)
    (fuel : Nat) (hf : js.length < fuel) :
    ∃ d', commSubmitFsRecoverFromDbRequest fuel dc = some (d',none) ∧
      ∀ k ≤ js.length, ∀ x, InMainArea L x → Referenced (natAt L kh d js k) dc.blocks x →
        ¬ Referenced (natView L d'.blocks) dc.blocks x → lpaBit (loadMeta d') x = false ∨
          ∃ r ∈ (importRecoveredReclaims d' cowReclaimRegistryInit).2.completed,
            x ∈ r.dataLpas ++ r.nodeLpas := by
  obtain ⟨d',hrec,hd',hrecs⟩ := history_remounted hL hs hj hrun hd hfit hend hf
  obtain ⟨_,hran,_⟩ := ranOnDisk hL hs hrun hd
  have haddr : ∀ j ∈ js, ∀ e ∈ j.natJournal,
      e.newValue.blockAddr = invalidLpa ∨ InMainArea L e.newValue.blockAddr := by
    intro j hjm e he
    obtain ⟨n,hn⟩ := List.getElem?_of_mem hjm
    exact (hes n j hn).addr e he
  refine ⟨d',hrec,fun k hk x hmain hx h' => Or.inr (imported_mem.mpr ?_)⟩
  have hend' : natView L d'.blocks = natAt L kh d js js.length := by
    rw [hd'.natView_eq,natAt,List.take_length]
  rw [hend'] at h'
  rw [hrecs,historyReclaim_view hL hran.tables hj haddr]
  exact lost_reclaimed hL hj hin hes hkeep hk hmain hx h'

section Small

theorem small_view (nid : UInt32) (hn : NidInRange smallAreas nid) :
    natView smallAreas smallDisk.blocks nid =
      if nid.toNat = 1 then ⟨1,2560⟩ else initialNatEntry smallLayout nid.toNat := by
  obtain ⟨hL,hs,_⟩ := smallDisk_ok
  rw [natView_eq hn,← loadMeta_nat hL hs.1 hn,loadMeta_small.nats nid hn]
  exact @initialNat_entry (effectiveOptions smallOptions) smallLayout nid.toNat

theorem small_view_free {nid : UInt32} (h : nid ≠ 1) : (natView smallAreas smallDisk.blocks nid).ino = invalidNid := by
  by_cases hn : NidInRange smallAreas nid
  · rw [small_view nid hn,if_neg (fun he => h (UInt32.toNat_inj.mp (he.trans rfl)))]
    rfl
  · rw [natView,if_neg hn]

theorem small_view_root : natView smallAreas smallDisk.blocks 1 = ⟨1,2560⟩ := by
  rw [small_view 1 (by decide)]
  rfl

theorem small_inMain : InMain smallAreas (natView smallAreas smallDisk.blocks) := by
  intro nid hn _
  by_cases he : nid = 1
  · rw [he,small_view_root]
    decide
  · exact absurd (small_view_free he) hn

def fileInode : Block := writeWords Buf.zero [(4,1),(8,1),(4060,3),(4080,2),(4084,2)]

def directNode (v : UInt32) : Block := writeWords Buf.zero [(0,v),(4080,3),(4084,2)]

theorem fileInode_addr {i : Nat} (hi : i < defAddrsPerInode) : inodeAddr fileInode i = invalidLpa := by
  unfold defAddrsPerInode at hi
  refine u32At_zeroWords (by omega) (by simp) (fun w hw => ?_)
  have hoff : w.1 ≤ 8 ∨ 4060 ≤ w.1 := by
    revert w
    decide
  omega

theorem smallRoot_inline : nodeInline (rootInode smallOptions) = true := by decide +kernel

theorem directNode_slot (v : UInt32) {i : Nat} (hi : i < addrsPerBlock) :
    nodeSlot (directNode v) i = if i = 0 then v else 0 := by
  have hlt : 4 * i < 4080 := by
    unfold addrsPerBlock at hi
    omega
  have hwords : ∀ w ∈ [(0,v),(4080,3),(4084,2)], 4 ∣ w.1 ∧ w.1 + 4 ≤ 4096 := by
    simp
  rw [nodeSlot,directNode,u32At_writeWords _ _ _ (Nat.dvd_mul_right 4 i) hwords,u32At_zero]
  have h1 : 4080 ≠ 4 * i := by omega
  have h2 : 4084 ≠ 4 * i := by omega
  by_cases h0 : i = 0
  · subst h0
    simp [wordOf]
  · have h3 : 0 ≠ 4 * i := by omega
    simp [wordOf,h0,h1,h2,h3]

structure SmallFile (nat : UInt32 → RtfsNatEntry) (f : Nat → Block) (a b v : UInt32) : Prop where
  root : nat 1 = ⟨1,2560⟩
  inode : nat 2 = ⟨2,a⟩
  node : nat 3 = ⟨2,b⟩
  free : ∀ nid, nid ≠ 1 → nid ≠ 2 → nid ≠ 3 → (nat nid).ino = invalidNid
  rootBlock : f 2560 = rootInode smallOptions
  inodeBlock : f a.toNat = fileInode
  nodeBlock : f b.toNat = directNode v
  valid : a ≠ invalidLpa ∧ b ≠ invalidLpa ∧ v ≠ invalidLpa

section SmallFile
variable {nat : UInt32 → RtfsNatEntry} {f : Nat → Block} {a b v ino nid x : UInt32} {k : Nat}

theorem SmallFile.live (h : SmallFile nat f a b v) : LiveInode nat f 1 ∧ LiveInode nat f 2 := by
  refine ⟨⟨by decide,?_,?_,?_⟩,⟨by decide,?_,?_,?_⟩⟩
  · rw [h.root]
  · rw [h.root]
    decide
  · rw [h.root]
    change inodeNlink (f 2560) ≠ 0
    rw [h.rootBlock]
    decide +kernel
  · rw [h.inode]
  · rw [h.inode]
    exact h.valid.1
  · rw [h.inode,RtfsNatEntry.block,h.inodeBlock]
    decide +kernel

theorem SmallFile.live_iff (h : SmallFile nat f a b v) :
    LiveInode nat f ino ↔ ino = 1 ∨ ino = 2 := by
  constructor
  · intro hl
    by_contra hne
    rw [not_or] at hne
    by_cases h3 : ino = 3
    · have ho : (nat 3).ino = 3 := h3 ▸ hl.owned
      rw [h.node] at ho
      exact absurd ho (show (2 : UInt32) ≠ 3 by decide)
    · have ho := hl.owned
      rw [h.free ino hne.1 hne.2 h3] at ho
      exact hl.nonzero ho.symm
  · rintro (rfl | rfl)
    · exact h.live.1
    · exact h.live.2

theorem SmallFile.index_iff (h : SmallFile nat f a b v) (hl : LiveInode nat f ino) :
    IndexNode nat f ino k nid ↔ ino = 2 ∧ k = 0 ∧ nid = 3 := by
  have hslots : ∀ i < defNidsPerInode, inodeNid fileInode i ≠ invalidNid → i = 0 := by decide +kernel
  have hblock : (nat 2).block f = fileInode := by
    rw [h.inode]
    exact h.inodeBlock
  constructor
  · intro hn
    rcases h.live_iff.mp hl with rfl | rfl
    · have hr := hn.rooted.1
      rw [h.root] at hr
      change ¬ nodeInline (f 2560) = true at hr
      rw [h.rootBlock] at hr
      exact absurd smallRoot_inline hr
    · obtain ⟨_,i,hi,hk,hz⟩ := hn.rooted
      rw [hblock] at hz
      rw [hslots i hi hz] at hk
      refine ⟨rfl,Nat.le_zero.mp hk,?_⟩
      cases hn with
      | @root i nid hi hr hslot hnid =>
        rw [hblock] at hslot
        have hi0 := hslots i hi (hslot ▸ hnid.nonzero)
        rw [← hslot,hi0]
        decide +kernel
      | child hp =>
        obtain ⟨_,i,hi,hk,hz⟩ := hp.rooted
        rw [hblock] at hz
        rw [hslots i hi hz] at hk
        exact absurd hk (Nat.not_succ_le_zero _)
  · rintro ⟨rfl,rfl,rfl⟩
    refine .root (i := 0) (by decide) ?_ ?_ ⟨by decide,?_,?_⟩
    · rw [hblock]
      decide +kernel
    · rw [hblock]
      decide +kernel
    · rw [h.node]
      exact (by decide : (2 : UInt32) ≠ 0)
    · rw [h.node]
      exact h.valid.2.1

theorem SmallFile.nodeMaps_iff (h : SmallFile nat f a b v) : NodeMaps nat f x ↔ x = v := by
  have hblock : (nat 3).block f = directNode v := by
    rw [h.node]
    exact h.nodeBlock
  constructor
  · rintro ⟨hz,ino,nid,i,hl,hn,hi,hx⟩
    obtain ⟨_,_,rfl⟩ := (h.index_iff hl).mp hn
    rw [hblock,directNode_slot v hi] at hx
    split at hx
    · exact hx.symm
    · exact absurd hx.symm hz
  · rintro rfl
    refine ⟨h.valid.2.2,2,3,0,h.live.2,(h.index_iff h.live.2).mpr ⟨rfl,rfl,rfl⟩,by decide,?_⟩
    rw [hblock,directNode_slot x (by decide)]
    rfl

theorem SmallFile.not_mapsAddr (h : SmallFile nat f a b v) (hl : LiveInode nat f ino) (i : Nat) :
    ¬ MapsAddr f (nat ino) i x := by
  intro hm
  rcases h.live_iff.mp hl with rfl | rfl
  · have hr := hm.regular
    rw [h.root] at hr
    change ¬ nodeInline (f 2560) = true at hr
    rw [h.rootBlock] at hr
    exact absurd smallRoot_inline hr
  · have ha := hm.addr
    rw [h.inode,RtfsNatEntry.block,h.inodeBlock] at ha
    exact hm.valid (ha.symm.trans (fileInode_addr hm.index))

theorem SmallFile.referenced_iff (h : SmallFile nat f a b v) :
    Referenced nat f x ↔ x = 2560 ∨ x = a ∨ x = b ∨ x = v := by
  constructor
  · intro hx
    cases hx with
    | inode hl hx =>
      rcases h.live_iff.mp hl with rfl | rfl
      · rw [h.root] at hx
        exact Or.inl hx.symm
      · rw [h.inode] at hx
        exact Or.inr (Or.inl hx.symm)
    | inodeAddr hl hx => exact absurd hx (h.not_mapsAddr hl _)
    | node hl hn hx =>
      obtain ⟨_,_,rfl⟩ := (h.index_iff hl).mp hn
      rw [h.node] at hx
      exact Or.inr (Or.inr (Or.inl hx.symm))
    | nodeAddr hx => exact Or.inr (Or.inr (Or.inr (h.nodeMaps_iff.mp hx)))
  · rintro (rfl | rfl | rfl | rfl)
    · exact .inode h.live.1 (by rw [h.root])
    · exact .inode h.live.2 (by rw [h.inode])
    · exact .node h.live.2 ((h.index_iff h.live.2).mpr ⟨rfl,rfl,rfl⟩) (by rw [h.node])
    · exact .nodeAddr (h.nodeMaps_iff.mpr rfl)

end SmallFile

def sitWith (e : RtfsSitEntry) (offs : List Nat) : RtfsSitEntry := offs.foldl (RtfsSitEntry.changeBit true) e

theorem sitWith_isValid {offs : List Nat} (h : ∀ o ∈ offs, o < 512) (e : RtfsSitEntry) (o : Nat) :
    (sitWith e offs).isValid o = (decide (o ∈ offs) || e.isValid o) := by
  induction offs generalizing e with
  | nil => simp [sitWith]
  | cons o' offs ih =>
    change (sitWith (e.changeBit true o') offs).isValid o = _
    rw [ih (fun x hx => h x (List.mem_cons_of_mem _ hx)),
      RtfsSitEntry.changeBit_isValid true e (h o' List.mem_cons_self)]
    by_cases ho : o = o'
    · simp [ho]
    · simp [ho]

def fileTx (ns : List NatJournalEntry) (offs : List Nat) : JournalContainer :=
  ⟨[],ns,[⟨5,sitWith ((loadMeta smallDisk).sit 5) offs⟩],0⟩

def fileCreated : JournalContainer := fileTx [⟨2,⟨2,2561⟩⟩,⟨3,⟨2,2562⟩⟩] [1,2,3]

def inodeRewritten : JournalContainer := fileTx [⟨2,⟨2,2564⟩⟩] [1,2,3,4]

def blockRewritten : JournalContainer := fileTx [⟨2,⟨2,2564⟩⟩,⟨3,⟨2,2565⟩⟩] [1,2,3,4,5,6]

theorem fileTx_blockNum (kh : Khash) {ns : List NatJournalEntry} (h : ns.length ≤ 300) (offs : List Nat) :
    journalBlockNum kh (fileTx ns offs) = 1 := by
  apply blockNum_one
  have h1 : superJournalOutputVector kh (fileTx ns offs).superBlockJournal = [] := superOutput_nil kh
  have h2 : (natJournalOutputVector (fileTx ns offs).natJournal).length = ns.length :=
    (treeOutput_perm NatJournalEntry.nid ns).length_eq
  have h3 : (sitJournalOutputVector (fileTx ns offs).sitJournal).length = 1 :=
    (treeOutput_perm SitJournalEntry.segID _).length_eq
  rw [h1,h2,h3,List.length_nil]
  omega

theorem fileTx_loggable {ns : List NatJournalEntry} (offs : List Nat)
    (h : ∀ e ∈ ns, e.nid.toNat < 32768 ∧ e.newValue.blockAddr.toNat < 32768) :
    (fileTx ns offs).Loggable smallAreas smallDisk := by
  refine ⟨fun e he => absurd he List.not_mem_nil,fun e he => ?_,fun e he => ?_⟩
  · obtain ⟨hn,ha⟩ := h e he
    exact ⟨Nat.div_lt_of_lt_mul (lt_of_lt_of_le hn (by decide)),smallDisk_ok.1.held _ ha⟩
  · rw [List.mem_singleton.mp he]
    exact (by decide : (5 : UInt32).toNat / sitEntryPerBlock < 1 * blockPerSegment)

def fileContent (lpa : Nat) : Block :=
  if lpa = 2560 then rootInode smallOptions
  else if lpa = 2561 ∨ lpa = 2564 then fileInode
  else if lpa = 2562 then directNode 2563
  else if lpa = 2565 then directNode 2566
  else Buf.zero

def CommDev.withMain (d : CommDev) (g : Nat → Block) : CommDev :=
  { d with blocks := fun lpa => if lpa < 2560 then d.blocks lpa else g lpa }

theorem CommDev.withMain_crash (d : CommDev) (g : Nat → Block) : CrashImage smallAreas d (d.withMain g) := by
  refine ⟨rfl,fun lpa hl => if_pos ?_⟩
  have hend : smallAreas.natBlkaddr + smallAreas.segmentCountNat * blockPerSegment ≤ 2560 := by decide
  omega

section Views
variable {nat : UInt32 → RtfsNatEntry} {f : Nat → Block} {a b v : UInt32}

theorem smallFile_placed (hroot : nat 1 = ⟨1,2560⟩)
    (hfree : ∀ nid, nid ≠ 1 → nid ≠ 2 → nid ≠ 3 → (nat nid).ino = invalidNid)
    (hr : f 2560 = rootInode smallOptions) (ha : f a.toNat = fileInode) (hb : f b.toNat = directNode v)
    (hz : a ≠ invalidLpa ∧ b ≠ invalidLpa ∧ v ≠ invalidLpa) :
    SmallFile (Function.update (Function.update nat 2 ⟨2,a⟩) 3 ⟨2,b⟩) f a b v := by
  refine ⟨?_,?_,Function.update_self ..,fun nid h1 h2 h3 => ?_,hr,ha,hb,hz⟩
  · rw [Function.update_of_ne (by decide),Function.update_of_ne (by decide),hroot]
  · rw [Function.update_of_ne (by decide),Function.update_self]
  · rw [Function.update_of_ne h3,Function.update_of_ne h2,hfree nid h1 h2 h3]

theorem SmallFile.moveInode {a' : UInt32} (h : SmallFile nat f a b v) (ha : f a'.toNat = fileInode)
    (hz : a' ≠ invalidLpa) : SmallFile (Function.update nat 2 ⟨2,a'⟩) f a' b v := by
  refine ⟨?_,Function.update_self ..,?_,fun nid h1 h2 h3 => ?_,h.rootBlock,ha,h.nodeBlock,hz,h.valid.2⟩
  · rw [Function.update_of_ne (by decide),h.root]
  · rw [Function.update_of_ne (by decide),h.node]
  · rw [Function.update_of_ne h2,h.free nid h1 h2 h3]

theorem small_natAt_created (kh : Khash) {js : List JournalContainer}
    (hj : ∀ j ∈ fileCreated :: js, j.Loggable smallAreas smallDisk)
    (hf : ∀ lpa, 2560 ≤ lpa → f lpa = fileContent lpa) :
    SmallFile (natAt smallAreas kh smallDisk (fileCreated :: js) 1) f 2561 2562 2563 := by
  have hout : natJournalOutputVector fileCreated.natJournal = [⟨2,⟨2,2561⟩⟩,⟨3,⟨2,2562⟩⟩] := by
    change natJournalOutputVector [⟨2,⟨2,2561⟩⟩,⟨3,⟨2,2562⟩⟩] = _
    decide +kernel
  rw [natAt_succ smallDisk_ok.1 hj (k := 0) rfl,natAt_zero,hout]
  refine smallFile_placed small_view_root (fun nid h1 _ _ => small_view_free h1) ?_ ?_ ?_ (by decide)
  · rw [hf 2560 (by decide)]
    rfl
  · exact hf 2561 (by decide)
  · exact hf 2562 (by decide)

theorem small_natAt_inode (kh : Khash)
    (hj : ∀ j ∈ [fileCreated,inodeRewritten], j.Loggable smallAreas smallDisk)
    (hf : ∀ lpa, 2560 ≤ lpa → f lpa = fileContent lpa) :
    SmallFile (natAt smallAreas kh smallDisk [fileCreated,inodeRewritten] 2) f 2564 2562 2563 := by
  have hout : natJournalOutputVector inodeRewritten.natJournal = [⟨2,⟨2,2564⟩⟩] := by
    change natJournalOutputVector [⟨2,⟨2,2564⟩⟩] = _
    decide +kernel
  rw [natAt_succ smallDisk_ok.1 hj (k := 1) rfl,hout]
  exact (small_natAt_created kh hj hf).moveInode (hf 2564 (by decide)) (by decide)

theorem small_natAt_block (kh : Khash)
    (hj : ∀ j ∈ [fileCreated,blockRewritten], j.Loggable smallAreas smallDisk)
    (hf : ∀ lpa, 2560 ≤ lpa → f lpa = fileContent lpa) :
    SmallFile (natAt smallAreas kh smallDisk [fileCreated,blockRewritten] 2) f 2564 2565 2566 := by
  have hout : natJournalOutputVector blockRewritten.natJournal = [⟨2,⟨2,2564⟩⟩,⟨3,⟨2,2565⟩⟩] := by
    change natJournalOutputVector [⟨2,⟨2,2564⟩⟩,⟨3,⟨2,2565⟩⟩] = _
    decide +kernel
  have hfile := small_natAt_created kh hj hf
  rw [natAt_succ smallDisk_ok.1 hj (k := 1) rfl,hout]
  refine smallFile_placed hfile.root hfile.free hfile.rootBlock ?_ ?_ (by decide)
  · exact hf 2564 (by decide)
  · exact hf 2565 (by decide)

end Views

theorem small_files_loggable (ns : List NatJournalEntry) (offs : List Nat)
    (h : ∀ e ∈ ns, e.nid.toNat < 32768 ∧ e.newValue.blockAddr.toNat < 32768) :
    ∀ j ∈ [fileCreated,fileTx ns offs], j.Loggable smallAreas smallDisk := by
  intro j hj
  rcases List.mem_cons.mp hj with rfl | hj
  · exact fileTx_loggable _ (by decide)
  · rw [List.mem_singleton.mp hj]
    exact fileTx_loggable offs h

theorem small_files_blockNum (kh : Khash) (ns : List NatJournalEntry) (offs : List Nat)
    (h : ns.length ≤ 300) : ∀ j ∈ [fileCreated,fileTx ns offs], journalBlockNum kh j = 1 := by
  intro j hj
  rcases List.mem_cons.mp hj with rfl | hj
  · exact fileTx_blockNum kh (by decide) _
  · rw [List.mem_singleton.mp hj]
    exact fileTx_blockNum kh h offs

theorem withMain_content (d : CommDev) :
    ∀ lpa, 2560 ≤ lpa → (d.withMain fileContent).blocks lpa = fileContent lpa :=
  fun _ hl => if_neg (Nat.not_lt.mpr hl)

theorem fileTx_sit {kh : Khash} {m : MetaImage} {ns : List NatJournalEntry} {offs : List Nat}
    (h : (fileTx ns offs).Loggable smallAreas smallDisk) :
    sitOf smallAreas (applyContainer smallAreas kh m (fileTx ns offs)).blocks 5 =
      sitWith ((loadMeta smallDisk).sit 5) offs := by
  have hout : sitJournalOutputVector (fileTx ns offs).sitJournal =
      [⟨5,sitWith ((loadMeta smallDisk).sit 5) offs⟩] :=
    List.perm_singleton.mp (treeOutput_perm SitJournalEntry.segID _)
  rw [(applyContainer_replayed smallDisk_ok.1 kh h m).sits 5 (by unfold SegInRange; decide),hout]
  rfl

theorem rewritten_not_reclaimed {f : Nat → Block} (hf : ∀ lpa, 2560 ≤ lpa → f lpa = fileContent lpa) :
    2563 ∉ (natHistoryReclaim smallAreas f (natView smallAreas smallDisk.blocks)
      ([fileCreated,blockRewritten].map (fun j => natJournalOutputVector j.natJournal))).flatMap
        ReclaimRecord.lpas := by
  intro hx
  have hroot : f 2560 = rootInode smallOptions := hf 2560 (by decide)
  have hents : ∀ e ∈ fileCreated.natJournal ++ blockRewritten.natJournal, e.newValue.blockAddr ≠ 2563 ∧
      (e.newValue.ino = e.nid → fileContent e.newValue.blockAddr.toNat = fileInode ∧
        2560 ≤ e.newValue.blockAddr.toNat) := by
    intro e he
    simp only [fileCreated,blockRewritten,fileTx,List.cons_append,List.nil_append,List.mem_cons,
      List.not_mem_nil,or_false] at he
    rcases he with rfl | rfl | rfl | rfl
    · exact ⟨by decide,fun _ => ⟨rfl,by decide⟩⟩
    · exact ⟨by decide,fun h => absurd h (show (2 : UInt32) ≠ 3 by decide)⟩
    · exact ⟨by decide,fun _ => ⟨rfl,by decide⟩⟩
    · exact ⟨by decide,fun h => absurd h (show (2 : UInt32) ≠ 3 by decide)⟩
  obtain ⟨nid,v,hv,hino,hx⟩ := reclaimed_owned hx
  rcases hv with rfl | ⟨e,he,rfl,rfl⟩
  · by_cases h1 : nid = 1
    · rw [h1,small_view_root] at hx
      rcases hx with hx | ⟨_,i,hm⟩
      · exact absurd hx (by decide)
      · have hr := hm.regular
        change ¬ nodeInline (f 2560) = true at hr
        rw [hroot] at hr
        exact hr smallRoot_inline
    · exact hino (small_view_free h1)
  · have hmem : e ∈ fileCreated.natJournal ++ blockRewritten.natJournal := by
      simp only [List.map_cons,List.map_nil,List.flatten_cons,List.flatten_nil,List.append_nil,
        List.mem_append,natOutput_mem] at he
      exact List.mem_append.mpr he
    obtain ⟨hne,hown⟩ := hents e hmem
    rcases hx with hx | ⟨ho,i,hm⟩
    · exact hne hx
    · obtain ⟨hfile,hlo⟩ := hown ho
      have ha := hm.addr
      rw [RtfsNatEntry.block,hf _ hlo,hfile,fileInode_addr hm.index] at ha
      exact absurd ha (by decide)

theorem node_block_leaked : ∃ s dc d',
    (∀ j ∈ [fileCreated,blockRewritten], j.Loggable smallAreas smallDisk) ∧
    commitAll inOrderKhash (fileSystemManagerSetup (fun _ => Buf.zero) smallDisk)
      [fileCreated,blockRewritten] = some s ∧ CrashImage smallAreas s.dev dc ∧
    commSubmitFsRecoverFromDbRequest 3 dc = some (d',none) ∧ InMainArea smallAreas 2563 ∧
    Referenced (natAt smallAreas inOrderKhash smallDisk [fileCreated,blockRewritten] 1) dc.blocks 2563 ∧
    ¬ Referenced (natView smallAreas d'.blocks) dc.blocks 2563 ∧ ¬ (lpaBit (loadMeta d') 2563 = false ∨
      ∃ r ∈ (importRecoveredReclaims d' cowReclaimRegistryInit).2.completed,
        2563 ∈ r.dataLpas ++ r.nodeLpas) := by
  obtain ⟨hL,hs,_⟩ := smallDisk_ok
  have hlog : ∀ j ∈ [fileCreated,blockRewritten], j.Loggable smallAreas smallDisk :=
    small_files_loggable _ _ (by decide)
  obtain ⟨s,hrun,hcrash⟩ := small_history_crashed inOrderKhash [fileCreated,blockRewritten]
    (small_files_blockNum _ _ _ (by decide)) (by decide) hlog
  have hd := s.dev.withMain_crash fileContent
  have hf := withMain_content s.dev
  obtain ⟨hLc,d',hrec,hd',hrecs⟩ := hcrash _ hd
  obtain ⟨_,hran,_⟩ := ranOnDisk hL hs hrun hd
  have hview : natView smallAreas d'.blocks =
      natAt smallAreas inOrderKhash smallDisk [fileCreated,blockRewritten] 2 := hd'.natView_eq
  refine ⟨s,_,d',hlog,hrun,hd,hrec,by decide,
    (small_natAt_created _ hlog hf).referenced_iff.mpr (Or.inr (Or.inr (Or.inr rfl))),fun href => ?_,?_⟩
  · rw [hview,(small_natAt_block _ hlog hf).referenced_iff] at href
    exact absurd href (by decide)
  · rintro (hbit | hrec)
    · have hm := hs.1
      rw [← layoutOf_history hlog ⟨smallDisk.blocks 0,smallDisk.blocks⟩] at hm
      have hsit : (loadMeta d').sit 5 = sitWith ((loadMeta smallDisk).sit 5) [1,2,3,4,5,6] := by
        rw [hd'.loadMeta_sit hLc hm (by unfold SegInRange; decide),List.foldl_cons,List.foldl_cons,List.foldl_nil]
        exact fileTx_sit (hlog _ (List.mem_cons_of_mem _ List.mem_cons_self))
      unfold lpaBit at hbit
      change ((loadMeta d').sit 5).isValid 3 = false at hbit
      rw [hsit,sitWith_isValid (by decide)] at hbit
      exact absurd hbit (by simp)
    · rw [imported_mem,hrecs,historyReclaim_view hL hran.tables hlog (by decide)] at hrec
      exact rewritten_not_reclaimed hf hrec

theorem small_root_inline {f : Nat → Block} (hr : f 2560 = rootInode smallOptions) {ino : UInt32}
    (hl : LiveInode (natView smallAreas smallDisk.blocks) f ino) :
    ino = 1 ∧ nodeInline (((natView smallAreas smallDisk.blocks) ino).block f) := by
  by_cases h1 : ino = 1
  · refine ⟨h1,?_⟩
    rw [h1,small_view_root]
    change nodeInline (f 2560) = true
    rw [hr]
    exact smallRoot_inline
  · have ho := hl.owned
    rw [small_view_free h1] at ho
    exact absurd ho.symm hl.nonzero

theorem small_keeps_created {f : Nat → Block} {nat : UInt32 → RtfsNatEntry} {a b v : UInt32}
    (h : SmallFile nat f a b v) : KeepsMapped (natView smallAreas smallDisk.blocks) nat f := by
  refine ⟨?_,fun ino k nid hl hn => ?_,fun ino hl => Or.inl ?_⟩
  · rintro x ⟨_,ino,nid,i,hl,hn,_⟩
    exact absurd (small_root_inline h.rootBlock hl).2 hn.rooted.1
  · exact absurd (small_root_inline h.rootBlock hl).2 hn.rooted.1
  · rw [(small_root_inline h.rootBlock hl).1]
    exact h.live.1

theorem SmallFile.keeps_inode {f : Nat → Block} {nat nat' : UInt32 → RtfsNatEntry} {a a' b v : UInt32}
    (h : SmallFile nat f a b v) (h' : SmallFile nat' f a' b v) : KeepsMapped nat nat' f := by
  refine ⟨fun x hx => .nodeAddr ?_,fun ino k nid hl hn => Or.inl ?_,fun ino hl => Or.inl ?_⟩
  · exact h'.nodeMaps_iff.mpr (h.nodeMaps_iff.mp hx)
  · obtain ⟨_,_,rfl⟩ := (h.index_iff hl).mp hn
    rw [h.node]
    exact h'.referenced_iff.mpr (Or.inr (Or.inr (Or.inl rfl)))
  · exact h'.live_iff.mpr (h.live_iff.mp hl)

theorem recovered_reclaim_complete_small : ∃ s dc d',
    commitAll inOrderKhash (fileSystemManagerSetup (fun _ => Buf.zero) smallDisk)
      [fileCreated,inodeRewritten] = some s ∧ CrashImage smallAreas s.dev dc ∧
    commSubmitFsRecoverFromDbRequest 3 dc = some (d',none) ∧
    Referenced (natAt smallAreas inOrderKhash smallDisk [fileCreated,inodeRewritten] 1) dc.blocks 2561 ∧
    ∀ k ≤ 2, ∀ x, InMainArea smallAreas x →
      Referenced (natAt smallAreas inOrderKhash smallDisk [fileCreated,inodeRewritten] k) dc.blocks x →
      ¬ Referenced (natView smallAreas d'.blocks) dc.blocks x → lpaBit (loadMeta d') x = false ∨
        ∃ r ∈ (importRecoveredReclaims d' cowReclaimRegistryInit).2.completed,
          x ∈ r.dataLpas ++ r.nodeLpas := by
  obtain ⟨hL,hs,hz,_⟩ := smallDisk_ok
  have hlog : ∀ j ∈ [fileCreated,inodeRewritten], j.Loggable smallAreas smallDisk :=
    small_files_loggable _ _ (by decide)
  have hone := small_files_blockNum inOrderKhash [⟨2,⟨2,2564⟩⟩] [1,2,3,4] (by decide)
  obtain ⟨s,hrun,_⟩ := small_history_crashed inOrderKhash [fileCreated,inodeRewritten]
    hone (by decide) hlog
  have hnum : historyBlockNum inOrderKhash [fileCreated,inodeRewritten] = 2 := historyBlockNum_one hone
  have hd := s.dev.withMain_crash fileContent
  have hf := withMain_content s.dev
  have hr : (s.dev.withMain fileContent).blocks 2560 = rootInode smallOptions := hf 2560 (by decide)
  have h1 := small_natAt_created inOrderKhash hlog hf
  have h2 := small_natAt_inode inOrderKhash hlog hf
  have hes : ∀ k j, [fileCreated,inodeRewritten][k]? = some j →
      OwnedUpdates smallAreas (natAt smallAreas inOrderKhash smallDisk [fileCreated,inodeRewritten] k)
        (s.dev.withMain fileContent).blocks j.natJournal := by
    intro k j hk
    match k,hk with
    | 0,hk =>
      cases hk
      refine ⟨by decide,by decide,fun e he hl => ?_⟩
      have hne : ∀ e ∈ fileCreated.natJournal, e.nid ≠ 1 := by decide
      exact absurd (small_root_inline hr hl).1 (hne e he)
    | 1,hk =>
      cases hk
      have hown : ∀ e ∈ inodeRewritten.natJournal, e.newValue.ino = e.nid := by decide
      exact ⟨by decide,by decide,fun e he _ => hown e he⟩
  have hkeep : ∀ k < 2, KeepsMapped
      (natAt smallAreas inOrderKhash smallDisk [fileCreated,inodeRewritten] k)
      (natAt smallAreas inOrderKhash smallDisk [fileCreated,inodeRewritten] (k + 1))
      (s.dev.withMain fileContent).blocks := by
    intro k hk
    interval_cases k
    · exact small_keeps_created h1
    · exact h1.keeps_inode h2
  obtain ⟨d',hrec,hall⟩ := recovered_reclaim_complete smallAreas inOrderKhash smallDisk hL 0 hs
    small_inMain (fun _ => Buf.zero) [fileCreated,inodeRewritten] hlog s hrun _ hd
    (by rw [hnum]; decide) (Or.inr (by rw [hz]; rfl)) hes hkeep 3 (by decide)
  exact ⟨s,_,d',hrun,hd,hrec,h1.referenced_iff.mpr (Or.inr (Or.inl rfl)),hall⟩

end Small

end Rtfs
