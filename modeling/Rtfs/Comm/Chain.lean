import Rtfs.Comm.Restart

namespace Rtfs

section Parse
variable {L : Layout} {d d' : CommDev}

theorem parseAt_slot {o o' : Nat} (h : journalSlot L o = journalSlot L o') (n : Nat) :
    parseAt d L n o = parseAt d L n o' := by
  unfold parseAt
  rw [h]

theorem parseAt_congr (hL : L.Ok d) (hb : d'.blockCount = d.blockCount) (hj : SameJournal L d d')
    (n o : Nat) : parseAt d' L n o = parseAt d L n o := by
  induction n generalizing o with
  | zero => rfl
  | succ n ih => rw [parseAt_succ (hL.congr hb),parseAt_succ hL,hj o,ih]

theorem parseAt_covers (hL : L.Ok d) {n o k j : Nat} (h : (parseAt d L n o).2 = .ended k) (hj : j ≤ k)
    {r : JournalRecord} (hr : r ∈ (parseBlock (journalBlock d L (o + j)) 0).1) :
    r ∈ (parseAt d L n o).1 := by
  induction n generalizing o k j with
  | zero => cases h
  | succ n ih =>
    rw [parseAt_succ hL] at h ⊢
    cases hend : (parseBlock (journalBlock d L o) 0).2 with
    | stopped =>
      simp only [hend] at h
      cases h
    | ended =>
      simp only [hend] at h ⊢
      cases h
      obtain rfl := Nat.le_zero.mp hj
      exact hr
    | through =>
      simp only [hend] at h ⊢
      cases hp : (parseAt d L n (o + 1)).2 with
      | failed e =>
        rw [hp] at h
        cases h
      | stopped =>
        rw [hp] at h
        cases h
      | ended k' =>
        rw [hp] at h
        cases h
        cases j with
        | zero => exact List.mem_append_left _ hr
        | succ j =>
          rw [show o + (j + 1) = o + 1 + j by omega] at hr
          exact List.mem_append_right _ (ih hp (by omega) hr)

theorem replay_accepted (hL : L.Ok d) {o : Nat} {sb : Block} (hsb : layoutOf sb = L)
    (hk : ∀ r ∈ (parseAt d L L.journalSize o).1, r.KeepsLayout ∧ r.NamesHeld d)
    (hok : ∀ e d', commRecoveryReplayOneTransaction d sb (journalSlot L o) L.metaJournalBlkaddr
      (L.metaJournalBlkaddr + L.journalSize) ≠ .failed e d') :
    ∀ r ∈ (parseAt d L L.journalSize o).1, r.Ok L d := by
  cases hfold : (parseAt d L L.journalSize o).1.foldlM (recoveryHandler d).apply (TxState.init sb) with
  | error e =>
    exfalso
    have hscan := @scanTx_parse d L.metaJournalBlkaddr (L.metaJournalBlkaddr + L.journalSize) _
      (recoveryHandler d) L.journalSize (journalSlot L o) (TxState.init sb)
    change _ = TxOutcome.continue (fun s => (parseAt d L L.journalSize o).2.outcome _ _ _ s)
      (List.foldlM _ _ (parseAt d L L.journalSize o).1) at hscan
    rw [hfold] at hscan
    refine hok e d ?_
    rw [commRecoveryReplayOneTransaction,Nat.add_sub_cancel_left,if_neg (Nat.ne_of_gt hL.journal_pos),hscan]
    rfl
  | ok s =>
    exact (foldlM_accepted (recoveryHandler d).apply (JournalRecord.Ok L d) _
      (fun s hs r hr s' => apply_accepted hs hL (hk r hr).1 (hk r hr).2) (init_tracks sb hsb) hfold).1

end Parse

section Chain

-- the transactions a scan from the n-th block on replays, up to block m, in c iterations
inductive Replays (d : CommDev) (L : Layout) (p : Nat) : Nat → List (List JournalRecord) → Nat → Nat → Prop
  | idle {n : Nat} (hn : n < L.journalSize)
      (hend : ∀ k, (parseAt d L L.journalSize (p + n)).2 ≠ .ended k)
      (hrs : ∀ r ∈ (parseAt d L L.journalSize (p + n)).1, r.Ok L d) : Replays d L p n [] n 1
  | full {n k : Nat} (hn : n < L.journalSize) (hend : (parseAt d L L.journalSize (p + n)).2 = .ended k)
      (hrs : ∀ r ∈ (parseAt d L L.journalSize (p + n)).1, r.Ok L d) (hfull : n + k + 1 = L.journalSize) :
      Replays d L p n [(parseAt d L L.journalSize (p + n)).1] L.journalSize 1
  | next {n k m c : Nat} {txs : List (List JournalRecord)}
      (hend : (parseAt d L L.journalSize (p + n)).2 = .ended k)
      (hrs : ∀ r ∈ (parseAt d L L.journalSize (p + n)).1, r.Ok L d) (hlt : n + k + 1 < L.journalSize)
      (hrest : Replays d L p (n + k + 1) txs m c) :
      Replays d L p n ((parseAt d L L.journalSize (p + n)).1 :: txs) m (c + 1)

variable {L : Layout} {d : CommDev} {p n m c : Nat} {txs : List (List JournalRecord)}

theorem Replays.iterations (h : Replays d L p n txs m c) : c ≤ L.journalSize - n := by
  induction h with
  | idle hn _ _ => omega
  | full hn _ _ _ => omega
  | next _ _ hlt _ ih => omega

theorem Replays.records (h : Replays d L p n txs m c) : ∀ r ∈ txs.flatten, r.Ok L d := by
  induction h with
  | idle _ _ _ => exact fun r hr => absurd hr List.not_mem_nil
  | full _ _ hrs _ =>
    intro r hr
    rw [List.flatten_cons,List.flatten_nil,List.append_nil] at hr
    exact hrs r hr
  | next _ hrs _ _ ih =>
    intro r hr
    rw [List.flatten_cons,List.mem_append] at hr
    exact hr.elim (hrs r) (ih r)

theorem Replays.slot {q : Nat} (hq : ∀ i, journalSlot L (q + i) = journalSlot L (p + i))
    (h : Replays d L p n txs m c) : Replays d L q n txs m c := by
  have hparse (n : Nat) : parseAt d L L.journalSize (p + n) = parseAt d L L.journalSize (q + n) :=
    parseAt_slot (hq n).symm _
  induction h with
  | idle hn hend hrs =>
    rw [hparse] at hend hrs
    exact .idle hn hend hrs
  | full hn hend hrs hfull =>
    rw [hparse] at hend hrs ⊢
    exact .full hn hend hrs hfull
  | next hend hrs hlt _ ih =>
    rw [hparse] at hend hrs ⊢
    exact .next hend hrs hlt ih

theorem Replays.end_idle (h : Replays d L p n txs m c) : m = L.journalSize ∨ Replays d L (p + m) 0 [] 0 1 := by
  induction h with
  | idle hn hend hrs => exact Or.inr (.idle (Nat.lt_of_le_of_lt (Nat.zero_le _) hn) hend hrs)
  | full _ _ _ _ => exact Or.inl rfl
  | next _ _ _ _ ih => exact ih

end Chain

structure SoundWrite (d : CommDev) (S : Nat → Nat → Prop) (w : UInt32 × Block) : Prop where
  held : d.Holds w.1.toNat
  outside : ∀ i, ¬ S w.1.toNat i → w.2.get i = (d.blocks w.1.toNat).get i

section Sound
variable {L : Layout} {d : CommDev} {S : Nat → Nat → Prop}

theorem applyWrites_sound {ws : List (UInt32 × Block)} (hw : ∀ w ∈ ws, SoundWrite d S w) :
    Patch.AgreeOff S (d.applyWrites ws).blocks d.blocks ∧ (d.applyWrites ws).blockCount = d.blockCount := by
  induction ws using List.reverseRecOn with
  | nil => exact ⟨.refl S d.blocks,rfl⟩
  | append_singleton ws w ih =>
    obtain ⟨hagree,hcount⟩ := ih (fun v hv => hw v (List.mem_append_left _ hv))
    obtain ⟨hheld,hout⟩ := hw w (List.mem_append_right _ (List.mem_singleton.mpr rfl))
    rw [applyWrites_append]
    generalize d.applyWrites ws = d₁ at hagree hcount
    have hstep : d₁.applyWrites [w] = d₁.withBlocks (Function.update d₁.blocks w.1.toNat w.2) := by
      rw [CommDev.applyWrites,List.foldl_cons,List.foldl_nil,CommDev.applyWrite,
        writeLpa_ok ((CommDev.holds_congr hcount _).mpr hheld)]
    rw [hstep]
    refine ⟨fun k i hs => ?_,hcount⟩
    rw [CommDev.withBlocks_blocks]
    rcases eq_or_ne k w.1.toNat with rfl | hne
    · rw [Function.update_self]
      exact hout i hs
    · rw [Function.update_of_ne hne]
      exact hagree k i hs

theorem TxState.Tracks.view_mem {s : TxState} (hs : s.Tracks d L) {b : RecoveryBlock} (hb : b ∈ s.blocks) :
    s.view d b.lpa.toNat = b.data := by
  unfold TxState.view
  cases hf : s.blocks.find? (fun c => c.lpa.toNat = b.lpa.toNat) with
  | none => exact absurd (List.find?_eq_none.mp hf b hb) (by simp)
  | some c =>
    have hlpa : c.lpa.toNat = b.lpa.toNat := by simpa using List.find?_some hf
    have hc := List.inj_on_of_nodup_map hs.nodup (List.mem_of_find?_eq_some hf) hb
      (UInt32.toNat_inj.mp hlpa)
    rw [hc]
    rfl

theorem commitWrites_mem {bs : List RecoveryBlock} {w : UInt32 × Block} (hw : w ∈ commitWrites d bs) :
    ∃ b ∈ bs, w = (b.lpa,b.data) := by
  induction bs generalizing d with
  | nil => cases hw
  | cons b bs ih =>
    rw [commitWrites] at hw
    split at hw
    · split at hw
      · cases hw
      · rcases List.mem_cons.mp hw with rfl | hw
        · exact ⟨b,List.mem_cons_self,rfl⟩
        · obtain ⟨c,hc,he⟩ := ih hw
          exact ⟨c,List.mem_cons_of_mem _ hc,he⟩
    · obtain ⟨c,hc,he⟩ := ih hw
      exact ⟨c,List.mem_cons_of_mem _ hc,he⟩

theorem replayWrites_sound (hL : L.Ok d) {o : Nat} (hrs : ∀ r ∈ (parseAt d L L.journalSize o).1, r.Ok L d)
    {sb : Block} (hsb : layoutOf sb = L) :
    ∀ w ∈ replayWrites d sb (journalSlot L o) L.metaJournalBlkaddr (L.metaJournalBlkaddr + L.journalSize),
      (∃ k, (parseAt d L L.journalSize o).2 = .ended k) ∧
      SoundWrite d (Patch.Covered (areaPatches L (parseAt d L L.journalSize o).1)) w := by
  obtain ⟨s,hfold,hs,hi⟩ := replay_spec (init_tracks (d := d) sb hsb) hL hrs
  rw [init_image] at hi
  have hscan := @scanTx_parse d L.metaJournalBlkaddr (L.metaJournalBlkaddr + L.journalSize) _
    (recoveryHandler d) L.journalSize (journalSlot L o) (TxState.init sb)
  change _ = TxOutcome.continue (fun s => (parseAt d L L.journalSize o).2.outcome _ _ _ s)
    (List.foldlM _ _ (parseAt d L L.journalSize o).1) at hscan
  rw [hfold] at hscan
  intro w hw
  rw [replayWrites,Nat.add_sub_cancel_left,if_neg (Nat.ne_of_gt hL.journal_pos),hscan] at hw
  cases hend : (parseAt d L L.journalSize o).2 with
  | failed e =>
    rw [hend] at hw
    cases hw
  | stopped =>
    rw [hend] at hw
    cases hw
  | ended k =>
    rw [hend] at hw
    obtain ⟨b,hb,rfl⟩ := commitWrites_mem hw
    refine ⟨⟨k,rfl⟩,hs.held b hb,fun i hc => ?_⟩
    have hview : s.view d = Patch.putAll d.blocks (areaPatches L (parseAt d L L.journalSize o).1) := by
      rw [← (replay_patches L ⟨sb,d.blocks⟩ _).1,← hi]
      rfl
    rw [← hs.view_mem hb,hview]
    exact Patch.putAll_outside d.blocks _ b.lpa.toNat i hc

theorem SoundWrite.back {d' : CommDev} {S T : Nat → Nat → Prop} {w : UInt32 × Block}
    (h : SoundWrite d' S w) (hb : d'.blockCount = d.blockCount) (hst : ∀ k i, S k i → T k i)
    (ha : Patch.AgreeOff T d'.blocks d.blocks) : SoundWrite d T w :=
  ⟨(CommDev.holds_congr hb _).mp h.held,
    fun i hi => (h.outside i (fun hs => hi (hst _ _ hs))).trans (ha _ i hi)⟩

end Sound

section Run
variable {L : Layout} {d d₁ : CommDev} {p n m c : Nat} {txs : List (List JournalRecord)}

theorem Replays.run (h : Replays d L p n txs m c) (hL : L.Ok d) {sb : Block} {fuel : Nat}
    (hb : d₁.blockCount = d.blockCount) (hj : SameJournal L d d₁) (hsb : layoutOf sb = L) (hf : c ≤ fuel) :
    ∃ d₂, recoverLoop L.metaJournalBlkaddr (L.metaJournalBlkaddr + L.journalSize) (journalSlot L p) fuel d₁
        sb (journalSlot L (p + n)) = some (.ok ⟨d₂,(MetaImage.replay L ⟨sb,d₁.blocks⟩ txs.flatten).superBlock,
          journalSlot L (p + m)⟩) ∧
      Recovered L d₁ d₂ (MetaImage.replay L ⟨sb,d₁.blocks⟩ txs.flatten) ∧
      ∀ w ∈ loopWrites L.metaJournalBlkaddr (L.metaJournalBlkaddr + L.journalSize) (journalSlot L p) fuel d₁
        sb (journalSlot L (p + n)), SoundWrite d₁ (Patch.Covered (areaPatches L txs.flatten)) w := by
  induction h generalizing d₁ sb fuel with
  | @idle n hn hend hrs =>
    obtain ⟨fuel,rfl⟩ := Nat.exists_eq_add_of_le' hf
    have hrs₁ : ∀ r ∈ (parseAt d₁ L L.journalSize (p + n)).1, r.Ok L d₁ := by
      rw [parseAt_congr hL hb hj]
      exact fun r hr => (hrs r hr).congr hb
    have hend₁ : ∀ k, (parseAt d₁ L L.journalSize (p + n)).2 ≠ .ended k := by
      rwa [parseAt_congr hL hb hj]
    have hrep := (replay_parsed (hL.congr hb) hrs₁ hsb).2 hend₁
    refine ⟨d₁,?_,⟨rfl,rfl,List.prefix_refl _⟩,fun w hw => ?_⟩
    · rw [recoverLoop,hrep]
      rfl
    · rw [loopWrites,hrep,List.append_nil] at hw
      obtain ⟨⟨k,hk⟩,_⟩ := replayWrites_sound (hL.congr hb) hrs₁ hsb w hw
      exact absurd hk (hend₁ k)
  | @full n k hn hend hrs hfull =>
    obtain ⟨fuel,rfl⟩ := Nat.exists_eq_add_of_le' hf
    have hpc := parseAt_congr hL hb hj L.journalSize (p + n)
    rw [← hpc] at hend hrs ⊢
    have hrs₁ : ∀ r ∈ (parseAt d₁ L L.journalSize (p + n)).1, r.Ok L d₁ := fun r hr => (hrs r hr).congr hb
    obtain ⟨d₂,hrep,hd₂⟩ := (replay_parsed (hL.congr hb) hrs₁ hsb).1 k hend
    have hslot : journalSlot L (p + n + k + 1) = journalSlot L p := by
      rw [show p + n + k + 1 = p + L.journalSize by omega]
      exact Ring.slot_add_size p
    rw [List.flatten_cons,List.flatten_nil,List.append_nil]
    refine ⟨d₂,?_,hd₂,fun w hw => ?_⟩
    · rw [recoverLoop,hrep]
      simp only
      rw [if_pos hslot,show p + n + k + 1 = p + L.journalSize by omega]
    · rw [loopWrites,hrep] at hw
      simp only at hw
      rw [if_pos hslot,List.append_nil] at hw
      exact (replayWrites_sound (hL.congr hb) hrs₁ hsb w hw).2
  | @next n k m c txs hend hrs hlt hrest ih =>
    obtain ⟨fuel,rfl⟩ := Nat.exists_eq_add_of_le' (Nat.le_trans (Nat.le_add_left 1 c) hf)
    have hpc := parseAt_congr hL hb hj L.journalSize (p + n)
    rw [← hpc] at hend hrs ⊢
    have hL₁ : L.Ok d₁ := hL.congr hb
    have hrs₁ : ∀ r ∈ (parseAt d₁ L L.journalSize (p + n)).1, r.Ok L d₁ := fun r hr => (hrs r hr).congr hb
    obtain ⟨d₂,hrep,hd₂⟩ := (replay_parsed hL₁ hrs₁ hsb).1 k hend
    have hne : journalSlot L (p + n + k + 1) ≠ journalSlot L p := by
      rw [show p + n + k + 1 = p + (n + k + 1) by omega]
      exact fun he => Nat.ne_of_lt hlt ((journalSlot_eq_start (by omega) (by omega)).mp he)
    have hsame : SameJournal L d₁ d₂ := replay_sameJournal hL₁ rfl hrs₁ hd₂.blocks
    obtain ⟨d₃,hloop,hd₃,hws⟩ := @ih d₂ _ fuel (hd₂.blockCount.trans hb) (hj.trans hsame)
      ((replay_frame hL₁ ⟨sb,d₁.blocks⟩ hrs₁).layout.trans hsb) (by omega)
    rw [show p + (n + k + 1) = p + n + k + 1 by omega] at hloop hws
    rw [hd₂.blocks] at hloop hd₃
    rw [List.flatten_cons,MetaImage.replay_append,areaPatches_append]
    refine ⟨d₃,?_,⟨hd₃.blocks,hd₃.blockCount.trans hd₂.blockCount,hd₂.reclaim.trans hd₃.reclaim⟩,
      fun w hw => ?_⟩
    · rw [recoverLoop,hrep]
      simp only
      rw [if_neg hne,hloop]
    · rw [loopWrites,hrep] at hw
      simp only at hw
      rw [if_neg hne] at hw
      rcases List.mem_append.mp hw with hw | hw
      · have hsound := (replayWrites_sound hL₁ hrs₁ hsb w hw).2
        exact hsound.back rfl (fun k i hc => (Patch.covered_append _ _ k i).mpr (Or.inl hc)) (.refl _ _)
      · refine (hws w hw).back hd₂.blockCount
          (fun k i hc => (Patch.covered_append _ _ k i).mpr (Or.inr hc)) ?_
        rw [hd₂.blocks,(replay_patches L _ _).1]
        exact (Patch.putAll_outside _ _).mono (fun k i hc => (Patch.covered_append _ _ k i).mpr (Or.inl hc))

theorem replays_of_loop (hL : L.Ok d) (hk : ∀ i, ∀ r ∈ (parseBlock (journalBlock d L i) 0).1, r.KeepsLayout)
    (hh : ∀ i, ∀ r ∈ (parseBlock (journalBlock d L i) 0).1, r.NamesHeld d) {sb : Block} {fuel : Nat} {r : Scan}
    (hn : n < L.journalSize)
    (hmet : ∀ i < n, blockEnd d L (p + i) ≠ .stopped ∧
      ∀ r ∈ (parseBlock (journalBlock d L (p + i)) 0).1, r.Ok L d)
    (hb : d₁.blockCount = d.blockCount) (hj : SameJournal L d d₁) (hsb : layoutOf sb = L)
    (hloop : recoverLoop L.metaJournalBlkaddr (L.metaJournalBlkaddr + L.journalSize) (journalSlot L p) fuel d₁
      sb (journalSlot L (p + n)) = some (.ok r)) :
    ∃ txs m c, Replays d L p n txs m c ∧ c ≤ fuel := by
  induction fuel generalizing d₁ sb n with
  | zero => cases hloop
  | succ fuel ih =>
    have hL₁ : L.Ok d₁ := hL.congr hb
    have hpc := parseAt_congr hL hb hj L.journalSize (p + n)
    have hrs₁ : ∀ r ∈ (parseAt d₁ L L.journalSize (p + n)).1, r.Ok L d₁ := by
      refine replay_accepted hL₁ hsb (fun r hr => ?_) (fun e d' hfail => ?_)
      · rw [hpc] at hr
        obtain ⟨i,hi⟩ := parseAt_mem hL _ _ hr
        refine ⟨hk i r hi,?_⟩
        have hheld := hh i r hi
        cases r with
        | super es => trivial
        | nats es => exact fun e he => (CommDev.holds_congr hb _).mpr (hheld e he)
        | sits es => trivial
      · rw [recoverLoop,hfail] at hloop
        cases hloop
    have hrs : ∀ r ∈ (parseAt d L L.journalSize (p + n)).1, r.Ok L d := by
      rw [← hpc]
      exact fun r hr => (hrs₁ r hr).congr hb.symm
    by_cases hex : ∃ k, (parseAt d L L.journalSize (p + n)).2 = .ended k
    · obtain ⟨k,hend⟩ := hex
      obtain ⟨_,hthrough,hlast⟩ := (parseAt_ended hL).mp hend
      have hmet' : ∀ i < n + k + 1, blockEnd d L (p + i) ≠ .stopped ∧
          ∀ r ∈ (parseBlock (journalBlock d L (p + i)) 0).1, r.Ok L d := by
        intro i hi
        rcases Nat.lt_or_ge i n with hin | hin
        · exact hmet i hin
        · obtain ⟨j,rfl⟩ := Nat.exists_eq_add_of_le hin
          rw [← Nat.add_assoc]
          refine ⟨?_,fun r hr => hrs r (parseAt_covers hL hend (by omega) hr)⟩
          rcases Nat.lt_or_ge j k with hjk | hjk
          · rw [hthrough j hjk]
            decide
          · rw [show j = k by omega,hlast]
            decide
      rcases Nat.lt_trichotomy (n + k + 1) L.journalSize with hlt | hfull | hover
      · obtain ⟨d₂,hrep,hd₂⟩ := (replay_parsed hL₁ hrs₁ hsb).1 k (by rw [hpc,hend])
        have hne : journalSlot L (p + n + k + 1) ≠ journalSlot L p := by
          rw [show p + n + k + 1 = p + (n + k + 1) by omega]
          exact fun he => Nat.ne_of_lt hlt ((journalSlot_eq_start (by omega) (by omega)).mp he)
        rw [recoverLoop,hrep] at hloop
        simp only at hloop
        rw [if_neg hne,show p + n + k + 1 = p + (n + k + 1) by omega] at hloop
        have hsame : SameJournal L d₁ d₂ := replay_sameJournal hL₁ rfl hrs₁ hd₂.blocks
        obtain ⟨txs,m,c,hrest,hc⟩ := ih hlt hmet' (hd₂.blockCount.trans hb) (hj.trans hsame)
          ((replay_frame hL₁ ⟨sb,d₁.blocks⟩ hrs₁).layout.trans hsb) hloop
        exact ⟨_,m,c + 1,.next hend hrs hlt hrest,Nat.succ_le_succ hc⟩
      · exact ⟨_,_,1,.full hn hend hrs hfull,Nat.succ_le_succ (Nat.zero_le _)⟩
      · -- past the scan start the loop never stops again
        exfalso
        have hall : JournalOk L d := by
          intro i r hr
          obtain ⟨j,hjs,hslot⟩ := @slot_after L.metaJournalBlkaddr L.journalSize hL.journal_pos p i
          refine (hmet' j (by omega)).2 r ?_
          change r ∈ (parseBlock (d.blocks (Ring.slot L.metaJournalBlkaddr L.journalSize (p + j))) 0).1
          rw [hslot]
          exact hr
        have hendless : Endless d L p :=
          endless_of_overrun hL hn (fun i hi => (hmet i hi).1) hend (by omega)
        have hnone := endless_loops (fuel + 1) sb (p + n) hL₁ (hall.congr hb hj) (hendless.congr hj) hsb
        rw [hnone] at hloop
        cases hloop
    · exact ⟨_,_,1,.idle hn (fun k hk => hex ⟨k,hk⟩) hrs,Nat.succ_le_succ (Nat.zero_le _)⟩

theorem Replays.met (h : Replays d L p n txs m c) (hL : L.Ok d) :
    ∀ r ∈ txs.flatten, ∃ i, r ∈ (parseBlock (journalBlock d L i) 0).1 := by
  induction h with
  | idle _ _ _ => exact fun r hr => absurd hr List.not_mem_nil
  | full _ _ _ _ =>
    intro r hr
    rw [List.flatten_cons,List.flatten_nil,List.append_nil] at hr
    exact parseAt_mem hL _ _ hr
  | next _ _ _ _ ih =>
    intro r hr
    rw [List.flatten_cons,List.mem_append] at hr
    exact hr.elim (parseAt_mem hL _ _) (ih r)

end Run

end Rtfs
