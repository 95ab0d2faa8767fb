import Rtfs.Comm.Chain

namespace Rtfs

def offsetPatches (off : Nat) : List (Patch Unit) :=
  [⟨(),RtfsSuperBlock.metaJournalStartBlkoffOff,Codec.u16Bytes (UInt16.ofNat off)⟩,
    ⟨(),RtfsSuperBlock.metaJournalEndBlkoffOff,Codec.u16Bytes (UInt16.ofNat off)⟩]

section Super
variable (sb : Block) (off : Nat)

theorem setJournalOffsets_patches :
    (fun _ : Unit => setJournalOffsets sb off) = Patch.putAll (fun _ => sb) (offsetPatches off) := by
  funext u
  simp only [offsetPatches,Patch.putAll,List.foldl_cons,List.foldl_nil,Patch.put]
  rw [show u = () from rfl,Function.update_self,Function.update_self]
  rfl

theorem setJournalOffsets_again :
    setJournalOffsets (setJournalOffsets sb off) off = setJournalOffsets sb off := by
  have h := Patch.putAll_again (fun _ : Unit => sb) (offsetPatches off)
  rw [← setJournalOffsets_patches,← setJournalOffsets_patches] at h
  exact congrFun h ()

variable {L : Layout} (f g : Nat → Block) (rs : List JournalRecord)

theorem replay_offsets_patches :
    (fun _ : Unit => setJournalOffsets (MetaImage.replay L ⟨sb,f⟩ rs).superBlock off) =
      Patch.putAll (fun _ => sb) (superPatches rs ++ offsetPatches off) := by
  rw [setJournalOffsets_patches,(replay_patches L ⟨sb,f⟩ rs).2,Patch.putAll_append]

theorem replay_offsets_again :
    setJournalOffsets (MetaImage.replay L ⟨setJournalOffsets (MetaImage.replay L ⟨sb,f⟩ rs).superBlock off,g⟩
      rs).superBlock off = setJournalOffsets (MetaImage.replay L ⟨sb,f⟩ rs).superBlock off := by
  have h := Patch.putAll_again (fun _ : Unit => sb) (superPatches rs ++ offsetPatches off)
  rw [← replay_offsets_patches (L := L) sb off f rs,← replay_offsets_patches (L := L) _ off g rs] at h
  exact congrFun h ()

theorem replay_magic (hk : ∀ r ∈ rs, r.KeepsLayout) :
    RtfsSuperBlock.magic (MetaImage.replay L ⟨sb,f⟩ rs).superBlock = RtfsSuperBlock.magic sb := by
  have hout := Patch.putAll_outside (fun _ : Unit => sb) (superPatches rs)
  rw [← (replay_patches L ⟨sb,f⟩ rs).2] at hout
  refine congrArg Codec.u32OfBytes (Buf.read_congr (fun i _ hi => hout () i ?_))
  rintro ⟨w,hw,_,hle,_⟩
  obtain ⟨r,hr,hw⟩ := List.mem_flatMap.mp hw
  have hr := hk r hr
  cases r with
  | super es =>
    obtain ⟨e,he,rfl⟩ := List.mem_map.mp hw
    have h4 := (hr e he).1
    have hlt : i < 0 + 4 := hi
    have hge : e.off.toNat ≤ i := hle
    omega
  | nats es => cases hw
  | sits es => cases hw

end Super

section Request
variable {L : Layout} {dev : CommDev}

structure Completed (L : Layout) (fuel : Nat) (dev d' : CommDev) (r : Scan) : Prop where
  magic : RtfsSuperBlock.magic (dev.blocks 0) = rtfsMagicNumber
  loop : recoverLoop L.metaJournalBlkaddr (L.metaJournalBlkaddr + L.journalSize)
    (journalSlot L (RtfsSuperBlock.metaJournalEndBlkoff (dev.blocks 0)).toNat) fuel (clearReclaim dev)
    (dev.blocks 0) (journalSlot L (RtfsSuperBlock.metaJournalEndBlkoff (dev.blocks 0)).toNat) = some (.ok r)
  finish : finishRecovery L.metaJournalBlkaddr L.journalSize r = (d',none)
  writes : recoveryWrites fuel dev = loopWrites L.metaJournalBlkaddr (L.metaJournalBlkaddr + L.journalSize)
    (journalSlot L (RtfsSuperBlock.metaJournalEndBlkoff (dev.blocks 0)).toNat) fuel (clearReclaim dev)
    (dev.blocks 0) (journalSlot L (RtfsSuperBlock.metaJournalEndBlkoff (dev.blocks 0)).toNat) ++
    finishWrites L.metaJournalBlkaddr L.journalSize r

theorem recover_completed (hL : L.Ok dev) (hlay : layoutOf (dev.blocks 0) = L) {fuel : Nat} {d' : CommDev}
    (h : commSubmitFsRecoverFromDbRequest fuel dev = some (d',none)) : ∃ r, Completed L fuel dev d' r := by
  have hz : (clearReclaim dev).Holds (0 : UInt32).toNat := hL.holds_zero
  have hread : commRecoveryReadLpa (clearReclaim dev) 0 = .ok (dev.blocks 0) := readLpa_ok hz
  have hstart : journalStartLpaOf (dev.blocks 0) = L.metaJournalBlkaddr := by
    rw [← hlay]
    rfl
  have hsize : journalSizeOf (dev.blocks 0) = L.journalSize := by
    rw [← hlay]
    rfl
  have hwrites : recoveryWrites fuel dev = recoveryWrites fuel dev := rfl
  rw [commSubmitFsRecoverFromDbRequest,hread] at h
  conv_rhs at hwrites => rw [recoveryWrites,hread]
  simp only [hstart,hsize] at h hwrites
  split at h
  · cases h
  · rename_i hm
    rw [if_neg hm,if_neg (Nat.ne_of_gt hL.journal_pos)] at hwrites
    rw [if_neg (Nat.ne_of_gt hL.journal_pos)] at h
    split at h
    · cases h
    · cases h
    · rename_i r hloop
      rw [hloop] at hwrites
      exact ⟨r,not_not.mp hm,hloop,Option.some.inj h,hwrites⟩

theorem replayed_super {n m c p : Nat} {txs : List (List JournalRecord)} (h : Replays dev L p n txs m c)
    (hL : L.Ok dev) (hk : ∀ i, ∀ r ∈ (parseBlock (journalBlock dev L i) 0).1, r.KeepsLayout)
    (hlay : layoutOf (dev.blocks 0) = L) (hm : RtfsSuperBlock.magic (dev.blocks 0) = rtfsMagicNumber)
    (f : Nat → Block) :
    layoutOf (MetaImage.replay L ⟨dev.blocks 0,f⟩ txs.flatten).superBlock = L ∧
      RtfsSuperBlock.magic (MetaImage.replay L ⟨dev.blocks 0,f⟩ txs.flatten).superBlock =
        rtfsMagicNumber := by
  refine ⟨(replay_frame hL ⟨dev.blocks 0,f⟩ h.records).layout.trans hlay,?_⟩
  rw [replay_magic (dev.blocks 0) f txs.flatten (fun r hr => ?_)]
  · exact hm
  · obtain ⟨i,hi⟩ := h.met hL r hr
    exact hk i r hi

theorem recover_replays {d : CommDev} {p m c fuel : Nat} {txs : List (List JournalRecord)}
    (h : Replays dev L p 0 txs m c) (hL : L.Ok dev) (hb : d.blockCount = dev.blockCount)
    (hj : SameJournal L dev d) (hs : ScanFrom L (d.blocks 0) p) (hf : c ≤ fuel) :
    ∃ d', commSubmitFsRecoverFromDbRequest fuel d = some (d',none) ∧
      d'.blocks = Function.update (MetaImage.replay L ⟨d.blocks 0,d.blocks⟩ txs.flatten).blocks 0
        (setJournalOffsets (MetaImage.replay L ⟨d.blocks 0,d.blocks⟩ txs.flatten).superBlock
          ((p + m) % L.journalSize)) := by
  obtain ⟨d₂,hloop,hd₂,_⟩ := @Replays.run L dev (clearReclaim d) p 0 m c txs h hL (d.blocks 0) fuel hb hj hs.1 hf
  refine ⟨_,recover_of_loop (hL.congr hb) hs hd₂.blockCount hloop,?_⟩
  change Function.update d₂.blocks 0 _ = _
  rw [hd₂.blocks]
  rfl

theorem agree_journal {d : CommDev} {rs : List JournalRecord} (hL : L.Ok dev) (hrs : ∀ r ∈ rs, r.Ok L dev)
    {S : Nat → Nat → Prop} (hS : ∀ k i, S k i → Patch.Covered (areaPatches L rs) k i ∨ k = 0)
    (h : Patch.AgreeOff S d.blocks dev.blocks) : SameJournal L dev d := by
  intro i
  have hlt := hL.slot_lt_sit i
  have hge : L.metaJournalBlkaddr ≤ journalSlot L i := Ring.base_le_slot i
  have hpos := hL.super_journal
  refine h.eq (fun j hs => ?_)
  rcases hS _ _ hs with hc | hc
  · have hin := covered_area hL hrs hc
    exact absurd hin.1 (Nat.not_le.mpr hlt)
  · exact absurd hc (Nat.ne_of_gt (Nat.lt_of_lt_of_le hpos hge))

theorem restart_within {d : CommDev} {p m c fuel : Nat} {txs : List (List JournalRecord)}
    (h : Replays dev L p 0 txs m c) (hL : L.Ok dev) (hs : ScanFrom L (dev.blocks 0) p)
    (hb : d.blockCount = dev.blockCount)
    (ha : Patch.AgreeOff (Patch.Covered (areaPatches L txs.flatten)) d.blocks dev.blocks)
    (hf : L.journalSize ≤ fuel) :
    ∃ d', commSubmitFsRecoverFromDbRequest fuel d = some (d',none) ∧
      d'.blocks = Function.update (MetaImage.replay L ⟨dev.blocks 0,dev.blocks⟩ txs.flatten).blocks 0
        (setJournalOffsets (MetaImage.replay L ⟨dev.blocks 0,dev.blocks⟩ txs.flatten).superBlock
          ((p + m) % L.journalSize)) := by
  have hzero : d.blocks 0 = dev.blocks 0 := by
    refine ha.eq (fun i hc => ?_)
    have hin := covered_area hL h.records hc
    have h1 := hL.super_journal
    have h2 := hL.journal_sit
    omega
  have hc := h.iterations
  obtain ⟨d',hrun,hblocks⟩ := recover_replays h hL hb
    (agree_journal hL h.records (fun k i hc => Or.inl hc) ha) (by rw [hzero]; exact hs)
    (show c ≤ fuel by omega)
  have habs : (MetaImage.replay L ⟨d.blocks 0,d.blocks⟩ txs.flatten).blocks =
      (MetaImage.replay L ⟨dev.blocks 0,dev.blocks⟩ txs.flatten).blocks := replay_absorbs L ha
  refine ⟨d',hrun,?_⟩
  rw [hblocks,habs,hzero,replay_superBlock L d.blocks dev.blocks]

theorem restart_after {d : CommDev} {p m c fuel : Nat} {txs : List (List JournalRecord)}
    (h : Replays dev L p 0 txs m c) (hL : L.Ok dev)
    (hk : ∀ i, ∀ r ∈ (parseBlock (journalBlock dev L i) 0).1, r.KeepsLayout)
    (hs : ScanFrom L (dev.blocks 0) p) (h16 : L.journalSize ≤ 65536)
    (hb : d.blockCount = dev.blockCount)
    (hd : d.blocks = Function.update (MetaImage.replay L ⟨dev.blocks 0,dev.blocks⟩ txs.flatten).blocks 0
      (setJournalOffsets (MetaImage.replay L ⟨dev.blocks 0,dev.blocks⟩ txs.flatten).superBlock
        ((p + m) % L.journalSize)))
    (hf : L.journalSize ≤ fuel) :
    ∃ d', commSubmitFsRecoverFromDbRequest fuel d = some (d',none) ∧ d'.blocks = d.blocks := by
  have hoff : (p + m) % L.journalSize < L.journalSize := Nat.mod_lt _ hL.journal_pos
  obtain ⟨hlay,hmag⟩ := replayed_super h hL hk hs.1 hs.2.1 dev.blocks
  have hscan := scanFrom_setJournalOffsets _ ((p + m) % L.journalSize) hlay hmag
  rw [Nat.mod_eq_of_lt (show (p + m) % L.journalSize < 65536 by omega)] at hscan
  have hzero : d.blocks 0 = setJournalOffsets
      (MetaImage.replay L ⟨dev.blocks 0,dev.blocks⟩ txs.flatten).superBlock ((p + m) % L.journalSize) := by
    rw [hd,Function.update_self]
  have ha : Patch.AgreeOff (fun k i => Patch.Covered (areaPatches L txs.flatten) k i ∨ k = 0)
      d.blocks dev.blocks := by
    intro k i hs
    rw [not_or] at hs
    rw [hd,Function.update_of_ne hs.2,(replay_patches L _ _).1]
    exact Patch.putAll_outside dev.blocks _ k i hs.1
  have hj := agree_journal hL h.records (fun k i hc => hc) ha
  have hslot : ∀ q i, journalSlot L ((q % L.journalSize) + i) = journalSlot L (q + i) :=
    fun q i => Ring.slot_mod_add q i
  rw [← hzero] at hscan
  rcases h.end_idle with rfl | hidle
  · -- a whole lap: the second run starts where the first did and replays it again
    have hagain : Replays dev L ((p + L.journalSize) % L.journalSize) 0 txs L.journalSize c := by
      refine h.slot (fun i => ?_)
      rw [Nat.add_mod_right]
      exact hslot p i
    have hc := h.iterations
    obtain ⟨d',hrun,hblocks⟩ := recover_replays hagain hL hb hj hscan (show c ≤ fuel by omega)
    refine ⟨d',hrun,?_⟩
    rw [Nat.add_mod_right,Nat.mod_mod] at hblocks
    rw [hblocks]
    funext k
    rcases eq_or_ne k 0 with rfl | hne
    · rw [Function.update_self,hzero]
      exact replay_offsets_again (dev.blocks 0) ((p + L.journalSize) % L.journalSize) dev.blocks d.blocks
        txs.flatten
    · rw [Function.update_of_ne hne,hd,Function.update_of_ne hne]
      have hagree := Patch.putAll_agree ha (areaPatches L txs.flatten)
      rw [← (replay_patches L ⟨dev.blocks 0,dev.blocks⟩ _).1,
        ← (replay_patches L ⟨d.blocks 0,d.blocks⟩ _).1,hd] at hagree
      exact hagree.eq (fun i hs => hs.1.elim hs.2 hne)
  · have hidle' : Replays dev L ((p + m) % L.journalSize) 0 [] 0 1 := hidle.slot (hslot (p + m))
    obtain ⟨d',hrun,hblocks⟩ := recover_replays hidle' hL hb hj hscan (show 1 ≤ fuel by omega)
    refine ⟨d',hrun,?_⟩
    rw [Nat.add_zero,Nat.mod_mod] at hblocks
    rw [hblocks]
    change Function.update d.blocks 0 (setJournalOffsets (d.blocks 0) ((p + m) % L.journalSize)) = d.blocks
    rw [hzero,setJournalOffsets_again,← hzero,Function.update_eq_self]

end Request

theorem recovery_restarts (L : Layout) (dev : CommDev) (hlay : layoutOf (dev.blocks 0) = L) (hL : L.Ok dev)
    (h128 : L.segmentCountMetaJournal ≤ 128)
    (hk : ∀ i, ∀ r ∈ (parseBlock (journalBlock dev L i) 0).1, r.KeepsLayout)
    (hh : ∀ i, ∀ r ∈ (parseBlock (journalBlock dev L i) 0).1, r.NamesHeld dev)
    (fuel : Nat) (d' : CommDev) (hrun : commSubmitFsRecoverFromDbRequest fuel dev = some (d',none))
    (n fuel' : Nat) (hf : L.journalSize ≤ fuel') :
    ∃ d'', commSubmitFsRecoverFromDbRequest fuel' (dev.applyWrites ((recoveryWrites fuel dev).take n)) =
      some (d'',none) ∧ d''.blocks = d'.blocks := by
  obtain ⟨r,hc⟩ := recover_completed hL hlay hrun
  have hs : ScanFrom L (dev.blocks 0) (RtfsSuperBlock.metaJournalEndBlkoff (dev.blocks 0)).toNat :=
    ⟨hlay,hc.magic,rfl⟩
  obtain ⟨txs,m,c,h,hcf⟩ := @replays_of_loop L dev (clearReclaim dev) _ 0 hL hk hh (dev.blocks 0) fuel r
    hL.journal_pos (fun i hi => absurd hi (Nat.not_lt_zero i)) rfl (fun _ => rfl) hlay hc.loop
  obtain ⟨d₁,hrun₁,hd₁⟩ := recover_replays h hL rfl (fun _ => rfl) hs hcf
  cases hrun.symm.trans hrun₁
  obtain ⟨_,_,_,hsound⟩ := @Replays.run L dev (clearReclaim dev) _ 0 m c txs h hL (dev.blocks 0) fuel rfl
    (fun _ => rfl) hlay hcf
  rcases Nat.lt_or_ge n (recoveryWrites fuel dev).length with hn | hn
  · rw [hc.writes,List.length_append] at hn
    rw [hc.writes,List.take_append_of_le_length (Nat.le_of_lt_succ hn)]
    obtain ⟨ha,hb⟩ := applyWrites_sound (d := dev) (fun w hw =>
      ⟨(hsound w (List.mem_of_mem_take hw)).held,(hsound w (List.mem_of_mem_take hw)).outside⟩)
    rw [hd₁]
    exact restart_within h hL hs hb ha hf
  · rw [List.take_of_length_le hn]
    have hst := recoveryWrites_apply hrun
    have hcount : d'.blockCount = dev.blockCount := by
      obtain ⟨d₂,hloop,hd₂,_⟩ := @Replays.run L dev (clearReclaim dev) _ 0 m c txs h hL (dev.blocks 0) fuel rfl
        (fun _ => rfl) hlay hcf
      cases hrun.symm.trans (recover_of_loop hL hs hd₂.blockCount hloop)
      exact hd₂.blockCount
    rw [hst.blocks]
    exact restart_after h hL hk hs (by unfold Layout.journalSize blockPerSegment; omega)
      (hst.blockCount.symm.trans hcount) (hst.blocks.symm.trans hd₁) hf

section Fuel

theorem recoverLoop_fuel {start fin scan fuel fuel' : Nat} {d : CommDev} {sb : Block} {lpa : Nat}
    {r : Except (Errno × CommDev) Scan} (h : recoverLoop start fin scan fuel d sb lpa = some r)
    (hle : fuel ≤ fuel') : recoverLoop start fin scan fuel' d sb lpa = some r := by
  induction fuel generalizing fuel' d sb lpa with
  | zero => cases h
  | succ fuel ih =>
    obtain ⟨fuel',rfl⟩ := Nat.exists_eq_add_of_le' (Nat.le_trans (Nat.le_add_left 1 fuel) hle)
    rw [recoverLoop] at h ⊢
    cases hrep : commRecoveryReplayOneTransaction d sb lpa start fin with
    | failed e d' => simpa only [hrep] using h
    | uncommitted => simpa only [hrep] using h
    | committed d' next sb' =>
      simp only [hrep] at h ⊢
      by_cases hn : next = scan
      · simpa only [if_pos hn] using h
      · rw [if_neg hn] at h ⊢
        exact ih h (Nat.le_of_succ_le_succ hle)

theorem recover_fuel {fuel fuel' : Nat} {dev : CommDev} {r : CommDev × Option Errno}
    (h : commSubmitFsRecoverFromDbRequest fuel dev = some r) (hle : fuel ≤ fuel') :
    commSubmitFsRecoverFromDbRequest fuel' dev = some r := by
  rw [commSubmitFsRecoverFromDbRequest] at h ⊢
  cases hread : commRecoveryReadLpa (clearReclaim dev) 0 with
  | error e => simpa only [hread] using h
  | ok sb =>
    simp only [hread] at h ⊢
    split at h
    · rename_i hm
      rw [if_pos hm]
      exact h
    · rename_i hm
      rw [if_neg hm]
      split at h
      · rename_i hs
        rw [if_pos hs]
        exact h
      · rename_i hs
        rw [if_neg hs]
        cases hloop : recoverLoop (journalStartLpaOf sb) (journalStartLpaOf sb + journalSizeOf sb)
            (journalStartLpaOf sb + (RtfsSuperBlock.metaJournalEndBlkoff sb).toNat % journalSizeOf sb)
            fuel (clearReclaim dev) sb
            (journalStartLpaOf sb + (RtfsSuperBlock.metaJournalEndBlkoff sb).toNat % journalSizeOf sb) with
        | none =>
          rw [hloop] at h
          cases h
        | some x =>
          rw [hloop] at h
          rw [recoverLoop_fuel hloop hle]
          exact h

end Fuel

section Small

def lastBlock (rs : List JournalRecord) : Block :=
  Buf.setAs metaJournalEntryCodec (Buf.zero.write 0 (recordsBytes rs)) (recordsLen rs) endHeader

theorem lastBlock_parse {rs : List JournalRecord} (h : recordsLen rs + 4 ≤ 4096) :
    parseBlock (lastBlock rs) 0 = (rs,.ended) := by
  refine parse_last ⟨⟨by omega,?_⟩,h,Buf.getAs_setAs_self metaJournalEntryCodec _ _ _ h⟩
  rw [lastBlock,Buf.setAs,Buf.read_write_disjoint _ _ _ _ _ (Or.inl (by omega)),recordsLen]
  exact Buf.read_write_self _ 0 _ (by rw [Nat.zero_add]; unfold recordsLen at h; omega)

-- the same NAT entry set twice, to a node outside the device and to one inside, or twice inside
def twoMoves (first : UInt32) (lpa : Nat) : Block :=
  if lpa = 512 then lastBlock [.nats [⟨5,⟨5,first⟩⟩]]
  else if lpa = 513 then lastBlock [.nats [⟨5,⟨5,2600⟩⟩]]
  else Buf.zero

theorem oneNat_len (e : NatJournalEntry) : recordsLen [.nats [e]] = 16 := rfl

theorem twoMoves_record {first : UInt32} {i : Nat} {r : JournalRecord}
    (hr : r ∈ (parseBlock (journalBlock (journalDisk (twoMoves first)) smallAreas i) 0).1) :
    r = .nats [⟨5,⟨5,first⟩⟩] ∨ r = .nats [⟨5,⟨5,2600⟩⟩] := by
  rw [journalDisk_block,twoMoves] at hr
  split at hr
  · rw [lastBlock_parse (by rw [oneNat_len]; decide)] at hr
    exact Or.inl (List.mem_singleton.mp hr)
  · split at hr
    · rw [lastBlock_parse (by rw [oneNat_len]; decide)] at hr
      exact Or.inr (List.mem_singleton.mp hr)
    · rw [parse_zero] at hr
      cases hr

theorem twoMoves_keepsLayout (first : UInt32) : ∀ i, ∀ r ∈ (parseBlock (journalBlock
    (journalDisk (twoMoves first)) smallAreas i) 0).1, r.KeepsLayout := by
  intro i r hr
  rcases twoMoves_record hr with rfl | rfl <;> trivial

theorem recovery_restarts_small :
    ∃ d', commSubmitFsRecoverFromDbRequest 3 (journalDisk (twoMoves 2601)) = some (d',none) ∧
      ∃ d'', commSubmitFsRecoverFromDbRequest 512 ((journalDisk (twoMoves 2601)).applyWrites
        ((recoveryWrites 3 (journalDisk (twoMoves 2601))).take 1)) = some (d'',none) ∧
      d''.blocks = d'.blocks := by
  have hrun : (commSubmitFsRecoverFromDbRequest 3 (journalDisk (twoMoves 2601))).map Prod.snd =
      some none := by decide +kernel
  obtain ⟨⟨d',e⟩,hrun,he⟩ := Option.map_eq_some_iff.mp hrun
  obtain rfl : e = none := he
  refine ⟨d',hrun,recovery_restarts smallAreas (journalDisk (twoMoves 2601)) layoutOf_smallSuper (smallAreas_ok _) (by decide)
    (twoMoves_keepsLayout 2601) (fun i r hr => ?_) 3 d' hrun 1 512 (by decide)⟩
  rcases twoMoves_record hr with rfl | rfl
  · exact fun e he => List.mem_singleton.mp he ▸ smallDev_holds _ _ (by decide)
  · exact fun e he => List.mem_singleton.mp he ▸ smallDev_holds _ _ (by decide)

-- with both NAT writes done the first transaction is replayed over the second one's entry,
-- and the node block it names cannot be read
theorem recovery_not_restarted :
    layoutOf ((journalDisk (twoMoves 4294967280)).blocks 0) = smallAreas ∧
    smallAreas.Ok (journalDisk (twoMoves 4294967280)) ∧ smallAreas.segmentCountMetaJournal ≤ 128 ∧
    (∀ i, ∀ r ∈ (parseBlock (journalBlock (journalDisk (twoMoves 4294967280)) smallAreas i) 0).1,
      r.KeepsLayout) ∧
    (∃ d', commSubmitFsRecoverFromDbRequest 3 (journalDisk (twoMoves 4294967280)) = some (d',none)) ∧
    ∀ fuel d'', commSubmitFsRecoverFromDbRequest fuel ((journalDisk (twoMoves 4294967280)).applyWrites
      ((recoveryWrites 3 (journalDisk (twoMoves 4294967280))).take 2)) ≠ some (d'',none) := by
  refine ⟨layoutOf_smallSuper,smallAreas_ok _,by decide,twoMoves_keepsLayout _,?_,fun fuel d'' hrun => ?_⟩
  · have hrun : (commSubmitFsRecoverFromDbRequest 3 (journalDisk (twoMoves 4294967280))).map Prod.snd =
        some none := by decide +kernel
    obtain ⟨⟨d',e⟩,hrun,he⟩ := Option.map_eq_some_iff.mp hrun
    obtain rfl : e = none := he
    exact ⟨d',hrun⟩
  · have hfail : (commSubmitFsRecoverFromDbRequest 3 ((journalDisk (twoMoves 4294967280)).applyWrites
        ((recoveryWrites 3 (journalDisk (twoMoves 4294967280))).take 2))).map Prod.snd =
        some (some .einval) := by decide +kernel
    obtain ⟨⟨d₁,e⟩,hfail,he⟩ := Option.map_eq_some_iff.mp hfail
    obtain rfl : e = some .einval := he
    have h1 := recover_fuel hrun (Nat.le_max_left fuel 3)
    have h2 := recover_fuel hfail (Nat.le_max_right fuel 3)
    cases h1.symm.trans h2

end Small

end Rtfs
