import Rtfs.Comm.Scan
import Rtfs.Fs.Layout

namespace Rtfs

structure MetaImage where
  superBlock : Block
  blocks : Nat → Block

namespace MetaImage

def putSuper (m : MetaImage) (e : SuperBlockJournalEntry) : MetaImage :=
  { m with superBlock := setU32 m.superBlock e.off.toNat e.newVal }

variable (L : Layout)

def putNat (m : MetaImage) (e : NatJournalEntry) : MetaImage :=
  ⟨m.superBlock,Function.update m.blocks (L.natLpa e.nid)
    (setNatEntry (m.blocks (L.natLpa e.nid)) (e.nid.toNat % natEntryPerBlock) e.newValue)⟩

def putSit (m : MetaImage) (e : SitJournalEntry) : MetaImage :=
  ⟨m.superBlock,Function.update m.blocks (L.sitLpa e.segID)
    (setSitEntry (m.blocks (L.sitLpa e.segID)) (e.segID.toNat % sitEntryPerBlock) e.newValue)⟩

def apply (m : MetaImage) : JournalRecord → MetaImage
  | .super es => es.foldl putSuper m
  | .nats es => es.foldl (putNat L) m
  | .sits es => es.foldl (putSit L) m

def replay (m : MetaImage) (rs : List JournalRecord) : MetaImage := rs.foldl (apply L) m

theorem replay_append (m : MetaImage) (rs qs : List JournalRecord) :
    replay L m (rs ++ qs) = replay L (replay L m rs) qs := List.foldl_append ..

end MetaImage

def SuperBlockJournalEntry.Ok (e : SuperBlockJournalEntry) : Prop :=
  e.off.toNat + 4 ≤ 4096 ∧ OutsideLayout e.off.toNat

def NatJournalEntry.Ok (L : Layout) (d : CommDev) (e : NatJournalEntry) : Prop :=
  e.nid.toNat / natEntryPerBlock < L.segmentCountNat * blockPerSegment ∧
    d.Holds e.newValue.blockAddr.toNat

def SitJournalEntry.Ok (L : Layout) (e : SitJournalEntry) : Prop :=
  e.segID.toNat / sitEntryPerBlock < L.segmentCountSit * blockPerSegment

def JournalRecord.Ok (L : Layout) (d : CommDev) : JournalRecord → Prop
  | .super es => ∀ e ∈ es, e.Ok
  | .nats es => ∀ e ∈ es, e.Ok L d
  | .sits es => ∀ e ∈ es, e.Ok L

def TxState.view (s : TxState) (d : CommDev) (lpa : Nat) : Block :=
  (s.blocks.find? (fun b => b.lpa.toNat = lpa)).elim (d.blocks lpa) RecoveryBlock.data

def TxState.image (s : TxState) (d : CommDev) : MetaImage := ⟨s.superBlock,s.view d⟩

structure TxState.Tracks (s : TxState) (d : CommDev) (L : Layout) : Prop where
  held : ∀ b ∈ s.blocks, d.Holds b.lpa.toNat
  clean : ∀ b ∈ s.blocks, b.dirty = false → b.data = d.blocks b.lpa.toNat
  nodup : (s.blocks.map RecoveryBlock.lpa).Nodup
  layout : layoutOf s.superBlock = L

section Blocks
variable {d : CommDev} {s : TxState} {L : Layout}

theorem find_lpa (bs : List RecoveryBlock) (lpa : UInt32) :
    bs.find? (fun b => b.lpa.toNat = lpa.toNat) = bs.find? (fun b => b.lpa = lpa) := by
  simp only [UInt32.toNat_inj]

theorem txGetBlock_spec (hs : s.Tracks d L) {lpa : UInt32} (hl : d.Holds lpa.toNat) :
    ∃ b s', txGetBlock d s lpa = .ok (b,s') ∧ s'.Tracks d L ∧ b.data = s.view d lpa.toNat ∧
      s'.view d = s.view d ∧ s'.superBlock = s.superBlock ∧ lpa ∈ s'.blocks.map RecoveryBlock.lpa := by
  unfold txGetBlock
  cases hf : s.blocks.find? (fun b => b.lpa = lpa) with
  | some b =>
    have hb : b.lpa = lpa := by simpa using List.find?_some hf
    refine ⟨b,s,rfl,hs,?_,rfl,rfl,?_⟩
    · rw [TxState.view,find_lpa,hf]
      rfl
    · rw [← hb]
      exact List.mem_map_of_mem (List.mem_of_find?_eq_some hf)
  | none =>
    have hno : ∀ b ∈ s.blocks, b.lpa ≠ lpa := by simpa using hf
    refine ⟨⟨lpa,false,d.blocks lpa.toNat⟩,
      { s with blocks := ⟨lpa,false,d.blocks lpa.toNat⟩ :: s.blocks },?_,?_,?_,?_,rfl,by simp⟩
    · rw [readLpa_ok hl]
      rfl
    · refine ⟨?_,?_,?_,hs.layout⟩
      · intro b hb
        rcases List.mem_cons.mp hb with rfl | hb
        · exact hl
        · exact hs.held b hb
      · intro b hb hd
        rcases List.mem_cons.mp hb with rfl | hb
        · rfl
        · exact hs.clean b hb hd
      · refine List.nodup_cons.mpr ⟨?_,hs.nodup⟩
        intro hm
        obtain ⟨b,hb,he⟩ := List.mem_map.mp hm
        exact hno b hb he
    · rw [TxState.view,find_lpa,hf]
      rfl
    · funext x
      unfold TxState.view
      rw [List.find?_cons]
      by_cases hx : lpa.toNat = x
      · subst hx
        rw [find_lpa,hf]
        simp
      · simp [hx]

theorem txSetBlock_spec (hs : s.Tracks d L) {lpa : UInt32} (data : Block)
    (hm : lpa ∈ s.blocks.map RecoveryBlock.lpa) :
    (txSetBlock s lpa data).Tracks d L ∧
    (txSetBlock s lpa data).view d = Function.update (s.view d) lpa.toNat data := by
  have hlpa (b : RecoveryBlock) : (if b.lpa = lpa then ⟨lpa,true,data⟩ else b : RecoveryBlock).lpa =
      b.lpa := by
    split
    · rename_i h
      exact h.symm
    · rfl
  constructor
  · refine ⟨?_,?_,?_,hs.layout⟩
    · intro b hb
      obtain ⟨c,hc,rfl⟩ := List.mem_map.mp hb
      rw [hlpa]
      exact hs.held c hc
    · intro b hb hd
      obtain ⟨c,hc,rfl⟩ := List.mem_map.mp hb
      rw [hlpa]
      split at hd
      · cases hd
      · rename_i hne
        rw [if_neg hne]
        exact hs.clean c hc hd
    · have he : (txSetBlock s lpa data).blocks.map RecoveryBlock.lpa =
          s.blocks.map RecoveryBlock.lpa := by
        simp only [txSetBlock,List.map_map]
        exact List.map_congr_left (fun b _ => hlpa b)
      rw [he]
      exact hs.nodup
  · funext x
    unfold TxState.view txSetBlock
    rw [List.find?_map]
    have hp : ((fun b : RecoveryBlock => decide (b.lpa.toNat = x)) ∘
        fun b => if b.lpa = lpa then ⟨lpa,true,data⟩ else b) = fun b => decide (b.lpa.toNat = x) := by
      funext b
      simp only [Function.comp_apply,hlpa]
    rw [hp]
    by_cases hx : x = lpa.toNat
    · subst hx
      obtain ⟨c,hc,hcl⟩ := List.mem_map.mp hm
      rw [Function.update_self,find_lpa]
      cases hf : s.blocks.find? (fun b => b.lpa = lpa) with
      | none => exact absurd hcl (by simpa using List.find?_eq_none.mp hf c hc)
      | some b =>
        have hb : b.lpa = lpa := by simpa using List.find?_some hf
        simp [hb]
    · rw [Function.update_of_ne hx]
      cases hf : s.blocks.find? (fun b => b.lpa.toNat = x) with
      | none => rfl
      | some b =>
        have hb : b.lpa.toNat = x := by simpa using List.find?_some hf
        have hne : b.lpa ≠ lpa := by
          intro he
          exact hx (by rw [← hb,he])
        simp [hne]

theorem holds_of_inMainArea (hs : s.Tracks d L) (hL : L.Ok d) {lpa : UInt32}
    (h : inMainArea s.superBlock lpa = true) : d.Holds lpa.toNat := by
  apply hL.held
  rw [← hs.layout]
  exact (of_decide_eq_true h).2

theorem collectInodeDataReclaim_spec {old new : UInt32} (ho : d.Holds old.toNat)
    (hn : d.Holds new.toNat) (hz : old ≠ invalidLpa) :
    ∃ data, commRecoveryCollectInodeDataReclaim d s old new =
      .ok { s with reclaimDataLpas := data } := by
  unfold commRecoveryCollectInodeDataReclaim
  rw [if_neg hz,readLpa_ok ho]
  change ∃ data, (if nodeInline (d.blocks old.toNat) = true then _ else _ : Except Errno TxState) = _
  split
  · exact ⟨s.reclaimDataLpas,rfl⟩
  · rw [readLpa_ok hn]
    by_cases hnz : new ≠ invalidLpa
    · rw [if_pos hnz]
      exact ⟨_,rfl⟩
    · rw [if_neg hnz]
      exact ⟨_,rfl⟩

theorem recordNatReclaim_spec (hs : s.Tracks d L) (hL : L.Ok d) (nid : UInt32)
    (old new : RtfsNatEntry) (hn : d.Holds new.blockAddr.toNat) :
    ∃ data node, commRecoveryRecordNatReclaim d s nid old new =
      .ok { s with reclaimDataLpas := data,reclaimNodeLpas := node } := by
  unfold commRecoveryRecordNatReclaim
  split
  · exact ⟨s.reclaimDataLpas,s.reclaimNodeLpas,rfl⟩
  · rename_i hc
    simp only [not_or,not_not] at hc
    obtain ⟨_,hz,hmain,_⟩ := hc
    split
    · exact ⟨s.reclaimDataLpas,_,rfl⟩
    · obtain ⟨data,hd⟩ := collectInodeDataReclaim_spec
        (s := { s with reclaimNodeLpas := lpaVectorAppendUnique s.reclaimNodeLpas old.blockAddr })
        (holds_of_inMainArea hs hL hmain) hn hz
      exact ⟨data,_,hd⟩

end Blocks

section Entries
variable {d : CommDev} {s : TxState} {L : Layout}

theorem areaLpa_toNat {base idx : UInt32} {i n : Nat} (hi : idx = UInt32.ofNat i)
    (hlt : base.toNat + i < n) (hn : n ≤ 4294967296) : (base + idx).toNat = base.toNat + i := by
  subst hi
  rw [UInt32.toNat_add,UInt32.toNat_ofNat',Nat.mod_eq_of_lt (show i < 2 ^ 32 by omega),
    Nat.mod_eq_of_lt (by omega)]

theorem Layout.Ok.blockCount_le (hL : L.Ok d) : L.blockCount ≤ 4294967296 := by
  by_contra hlt
  have hd := (hL.held (L.blockCount - 1) (by omega)).lt
  omega

theorem Layout.Ok.natLpa_lt (hL : L.Ok d) {e : NatJournalEntry} (he : e.Ok L d) :
    L.natLpa e.nid < L.blockCount := by
  have h1 := hL.nat_main
  have h2 := hL.main_end
  have h3 := he.1
  unfold Layout.natLpa
  omega

theorem Layout.Ok.sitLpa_lt (hL : L.Ok d) {e : SitJournalEntry} (he : e.Ok L) :
    L.sitLpa e.segID < L.blockCount := by
  have h0 := hL.sit_nat
  have h1 := hL.nat_main
  have h2 := hL.main_end
  unfold SitJournalEntry.Ok at he
  unfold Layout.sitLpa
  omega

theorem applySuperEntry_spec (hs : s.Tracks d L) {e : SuperBlockJournalEntry} (he : e.Ok) :
    ∃ s', applySuperEntry s e = .ok s' ∧ s'.Tracks d L ∧ s'.image d = (s.image d).putSuper e := by
  refine ⟨{ s with superBlock := setU32 s.superBlock e.off.toNat e.newVal },?_,?_,rfl⟩
  · rw [applySuperEntry,if_neg (Nat.not_lt.mpr he.1)]
  · refine ⟨hs.held,hs.clean,hs.nodup,?_⟩
    rw [layoutOf_setU32 _ _ he.2]
    exact hs.layout

theorem applyNatEntry_step (hs : s.Tracks d L) {e : NatJournalEntry}
    (hr : e.nid.toNat / natEntryPerBlock < L.segmentCountNat * blockPerSegment)
    (hheld : d.Holds (L.natLpa e.nid)) : ∃ (s₁ : TxState) (old : RtfsNatEntry) (f : TxState → TxState),
      s₁.Tracks d L ∧
      applyNatEntry d s e = (commRecoveryRecordNatReclaim d s₁ e.nid old e.newValue).map f ∧
      ∀ rd rn, (f { s₁ with reclaimDataLpas := rd,reclaimNodeLpas := rn }).Tracks d L ∧
        (f { s₁ with reclaimDataLpas := rd,reclaimNodeLpas := rn }).image d =
          (s.image d).putNat L e := by
  have hnat : L.natBlkaddr = (RtfsSuperBlock.natBlkaddr s.superBlock).toNat := by rw [← hs.layout]; rfl
  have hlpa : (RtfsSuperBlock.natBlkaddr s.superBlock +
      UInt32.ofNat (e.nid.toNat / natEntryPerBlock)).toNat = L.natLpa e.nid := by
    rw [Layout.natLpa,hnat]
    apply areaLpa_toNat rfl _ le_rfl
    rw [← hnat]
    exact lt_trans hheld.lt (by decide)
  obtain ⟨b,s₁,hget,ht₁,hdata,hview₁,hsup₁,hmem⟩ := txGetBlock_spec hs (hlpa ▸ hheld)
  refine ⟨s₁,natEntryAt b.data (e.nid.toNat % natEntryPerBlock),fun s₂ => txSetBlock s₂
    (RtfsSuperBlock.natBlkaddr s.superBlock + UInt32.ofNat (e.nid.toNat / natEntryPerBlock))
    (setNatEntry b.data (e.nid.toNat % natEntryPerBlock) e.newValue),ht₁,?_,fun rd rn => ?_⟩
  · have hseg : L.segmentCountNat = (RtfsSuperBlock.segmentCountNat s.superBlock).toNat := by
      rw [← hs.layout]; rfl
    rw [applyNatEntry,if_neg (by rw [← hseg]; exact Nat.not_le.mpr hr)]
    change (txGetBlock d s _).bind _ = _
    rw [hget]
    change (commRecoveryRecordNatReclaim d s₁ e.nid _ e.newValue).bind _ = _
    cases commRecoveryRecordNatReclaim d s₁ e.nid
      (natEntryAt b.data (e.nid.toNat % natEntryPerBlock)) e.newValue <;> rfl
  · obtain ⟨ht₃,hview₃⟩ := txSetBlock_spec
      (s := { s₁ with reclaimDataLpas := rd,reclaimNodeLpas := rn })
      ⟨ht₁.held,ht₁.clean,ht₁.nodup,ht₁.layout⟩
      (setNatEntry b.data (e.nid.toNat % natEntryPerBlock) e.newValue) hmem
    refine ⟨ht₃,?_⟩
    rw [hlpa] at hdata
    unfold TxState.image MetaImage.putNat
    rw [hview₃,hlpa,hdata]
    change (⟨s₁.superBlock,Function.update (s₁.view d) _ _⟩ : MetaImage) = _
    rw [hview₁,hsup₁]

theorem applyNatEntry_spec (hs : s.Tracks d L) (hL : L.Ok d) {e : NatJournalEntry}
    (he : e.Ok L d) :
    ∃ s', applyNatEntry d s e = .ok s' ∧ s'.Tracks d L ∧ s'.image d = (s.image d).putNat L e := by
  obtain ⟨s₁,old,f,ht₁,happ,hf⟩ := applyNatEntry_step hs he.1 (hL.held _ (hL.natLpa_lt he))
  obtain ⟨rd,rn,hrec⟩ := recordNatReclaim_spec ht₁ hL e.nid old e.newValue he.2
  exact ⟨_,by rw [happ,hrec]; rfl,hf rd rn⟩

theorem applySitEntry_step (hs : s.Tracks d L) {e : SitJournalEntry} (he : e.Ok L)
    (hheld : d.Holds (L.sitLpa e.segID)) :
    ∃ s', applySitEntry d s e = .ok s' ∧ s'.Tracks d L ∧ s'.image d = (s.image d).putSit L e := by
  have hsit : L.sitBlkaddr = (RtfsSuperBlock.sitBlkaddr s.superBlock).toNat := by rw [← hs.layout]; rfl
  have hlpa : (RtfsSuperBlock.sitBlkaddr s.superBlock +
      UInt32.ofNat (e.segID.toNat / sitEntryPerBlock)).toNat = L.sitLpa e.segID := by
    rw [Layout.sitLpa,hsit]
    apply areaLpa_toNat rfl _ le_rfl
    rw [← hsit]
    exact lt_trans hheld.lt (by decide)
  obtain ⟨b,s₁,hget,ht₁,hdata,hview₁,hsup₁,hmem⟩ := txGetBlock_spec hs (hlpa ▸ hheld)
  obtain ⟨ht₃,hview₃⟩ := txSetBlock_spec ht₁
    (setSitEntry b.data (e.segID.toNat % sitEntryPerBlock) e.newValue) hmem
  refine ⟨_,?_,ht₃,?_⟩
  · have hseg : L.segmentCountSit = (RtfsSuperBlock.segmentCountSit s.superBlock).toNat := by
      rw [← hs.layout]; rfl
    rw [applySitEntry,if_neg (by rw [← hseg]; exact Nat.not_le.mpr he)]
    change (txGetBlock d s _).bind _ = _
    rw [hget]
    rfl
  · rw [hlpa] at hdata
    unfold TxState.image MetaImage.putSit
    rw [hview₃,hlpa,hdata,hview₁]
    change (⟨s₁.superBlock,_⟩ : MetaImage) = _
    rw [hsup₁]

theorem applySitEntry_spec (hs : s.Tracks d L) (hL : L.Ok d) {e : SitJournalEntry}
    (he : e.Ok L) :
    ∃ s', applySitEntry d s e = .ok s' ∧ s'.Tracks d L ∧ s'.image d = (s.image d).putSit L e :=
  applySitEntry_step hs he (hL.held _ (hL.sitLpa_lt he))

theorem foldlM_tracks {α : Type} (f : TxState → α → Except Errno TxState)
    (g : MetaImage → α → MetaImage) (es : List α)
    (hstep : ∀ s : TxState, s.Tracks d L → ∀ e ∈ es,
      ∃ s', f s e = .ok s' ∧ s'.Tracks d L ∧ s'.image d = g (s.image d) e)
    (hs : s.Tracks d L) :
    ∃ s', es.foldlM f s = .ok s' ∧ s'.Tracks d L ∧ s'.image d = es.foldl g (s.image d) := by
  induction es generalizing s with
  | nil => exact ⟨s,rfl,hs,rfl⟩
  | cons e es ih =>
    obtain ⟨s₁,h₁,ht₁,hi₁⟩ := hstep s hs e List.mem_cons_self
    obtain ⟨s₂,h₂,ht₂,hi₂⟩ := ih (fun s hs e he => hstep s hs e (List.mem_cons_of_mem _ he)) ht₁
    refine ⟨s₂,?_,ht₂,?_⟩
    · rw [List.foldlM_cons,h₁]
      exact h₂
    · rw [List.foldl_cons,← hi₁,hi₂]

theorem apply_spec (hs : s.Tracks d L) (hL : L.Ok d) {r : JournalRecord} (hr : r.Ok L d) :
    ∃ s', (recoveryHandler d).apply s r = .ok s' ∧ s'.Tracks d L ∧
      s'.image d = (s.image d).apply L r := by
  cases r with
  | super es =>
    exact foldlM_tracks applySuperEntry MetaImage.putSuper es
      (fun s hs e he => applySuperEntry_spec hs (hr e he)) hs
  | nats es =>
    exact foldlM_tracks (applyNatEntry d) (MetaImage.putNat L) es
      (fun s hs e he => applyNatEntry_spec hs hL (hr e he)) hs
  | sits es =>
    exact foldlM_tracks (applySitEntry d) (MetaImage.putSit L) es
      (fun s hs e he => applySitEntry_spec hs hL (hr e he)) hs

theorem replay_spec (hs : s.Tracks d L) (hL : L.Ok d) {rs : List JournalRecord}
    (hr : ∀ r ∈ rs, r.Ok L d) :
    ∃ s', rs.foldlM (recoveryHandler d).apply s = .ok s' ∧ s'.Tracks d L ∧
      s'.image d = (s.image d).replay L rs :=
  foldlM_tracks (recoveryHandler d).apply (MetaImage.apply L) rs
    (fun _ hs r h => apply_spec hs hL (hr r h)) hs

end Entries

section Commit
variable {d : CommDev} {L : Layout}

theorem commitBlocks_spec (bs : List RecoveryBlock) (d : CommDev)
    (held : ∀ b ∈ bs, d.Holds b.lpa.toNat)
    (clean : ∀ b ∈ bs, b.dirty = false → b.data = d.blocks b.lpa.toNat)
    (nodup : (bs.map RecoveryBlock.lpa).Nodup) :
    commitBlocks d bs = (d.withBlocks (fun lpa =>
      (bs.find? (fun b => b.lpa.toNat = lpa)).elim (d.blocks lpa) RecoveryBlock.data),none) := by
  induction bs generalizing d with
  | nil => rfl
  | cons b bs ih =>
    obtain ⟨hnot,hnd⟩ := List.nodup_cons.mp nodup
    have hne : ∀ c ∈ bs, c.lpa.toNat ≠ b.lpa.toNat := by
      intro c hc he
      exact hnot (List.mem_map.mpr ⟨c,hc,UInt32.toNat_inj.mp he⟩)
    have hout : bs.find? (fun c => c.lpa.toNat = b.lpa.toNat) = none := by
      simpa using hne
    have hview (f : Nat → Block) (hf : f = Function.update d.blocks b.lpa.toNat b.data) :
        (fun lpa => (bs.find? (fun c => c.lpa.toNat = lpa)).elim (f lpa) RecoveryBlock.data) =
        fun lpa => ((b :: bs).find? (fun c => c.lpa.toNat = lpa)).elim (d.blocks lpa)
          RecoveryBlock.data := by
      subst hf
      funext lpa
      rw [List.find?_cons]
      by_cases hx : b.lpa.toNat = lpa
      · subst hx
        rw [hout]
        simp
      · simp [hx,Function.update_of_ne (Ne.symm hx)]
    rw [commitBlocks]
    by_cases hd : b.dirty = true
    · rw [if_pos hd,writeLpa_ok (held b List.mem_cons_self)]
      simp only
      rw [ih (d.withBlocks (Function.update d.blocks b.lpa.toNat b.data))
        (fun c hc => held c (List.mem_cons_of_mem _ hc)) _ hnd]
      · exact congrArg (fun f => (d.withBlocks f,none)) (hview _ rfl)
      · intro c hc hcd
        change c.data = Function.update d.blocks b.lpa.toNat b.data c.lpa.toNat
        rw [Function.update_of_ne (hne c hc)]
        exact clean c (List.mem_cons_of_mem _ hc) hcd
    · rw [if_neg hd,ih d (fun c hc => held c (List.mem_cons_of_mem _ hc))
        (fun c hc => clean c (List.mem_cons_of_mem _ hc)) hnd]
      have hsame : d.blocks = Function.update d.blocks b.lpa.toNat b.data := by
        rw [clean b List.mem_cons_self (by simpa using hd),Function.update_eq_self]
      exact congrArg (fun f => (d.withBlocks f,none)) (hview _ hsame)

theorem commitTx_spec {s : TxState} (hs : s.Tracks d L) :
    commRecoveryCommitTx d s = (d.withBlocks (s.view d),none) :=
  commitBlocks_spec s.blocks d hs.held hs.clean hs.nodup

theorem init_tracks (sb : Block) (h : layoutOf sb = L) : (TxState.init sb).Tracks d L :=
  ⟨by simp [TxState.init],by simp [TxState.init],by simp [TxState.init],h⟩

theorem init_image (sb : Block) : (TxState.init sb).image d = ⟨sb,d.blocks⟩ := rfl

theorem ringOk (hL : L.Ok d) : RingOk d L.metaJournalBlkaddr L.journalSize := by
  refine ⟨hL.journal_pos,fun lpa _ hlt => hL.held lpa ?_⟩
  have h1 := hL.journal_sit
  have h2 := hL.sit_nat
  have h3 := hL.nat_main
  have h4 := hL.main_end
  omega

def journalBlock (d : CommDev) (L : Layout) (i : Nat) : Block :=
  ringBlock d L.metaJournalBlkaddr L.journalSize i

def journalSlot (L : Layout) (i : Nat) : Nat := Ring.slot L.metaJournalBlkaddr L.journalSize i

@[simp] theorem appendReclaimRecord_blocks (d : CommDev) (s : TxState) :
    (commRecoveryAppendReclaimRecord d s).blocks = d.blocks := by
  unfold commRecoveryAppendReclaimRecord
  split <;> rfl

@[simp] theorem appendReclaimRecord_blockCount (d : CommDev) (s : TxState) :
    (commRecoveryAppendReclaimRecord d s).blockCount = d.blockCount := by
  unfold commRecoveryAppendReclaimRecord
  split <;> rfl

theorem replayOneTransaction_eq {base size : Nat} (hr : RingOk d base size) (sb : Block) (tx : Tx)
    (o : Nat) (him : TxImage (fun i => ringBlock d base size (o + i)) tx)
    (hn : tx.blockNum ≤ size) {s : TxState}
    (hfold : tx.records.foldlM (recoveryHandler d).apply (TxState.init sb) = .ok s)
    (hs : s.Tracks d L) :
    commRecoveryReplayOneTransaction d sb (Ring.slot base size o) base (base + size) =
      .committed (commRecoveryAppendReclaimRecord (d.withBlocks (s.view d)) s)
        (Ring.slot base size (o + tx.blockNum)) s.superBlock := by
  obtain ⟨full,last⟩ := tx
  have hlen : full.length < size := by
    unfold Tx.blockNum at hn
    simp only at hn
    omega
  have hscan := scanTx_image (recoveryHandler d) hr full last o size him hlen (TxState.init sb)
  change scanTx _ d _ _ _ _ _ =
    TxOutcome.finish _ (List.foldlM _ _ (Tx.records ⟨full,last⟩)) at hscan
  rw [hfold] at hscan
  rw [commRecoveryReplayOneTransaction,Nat.add_sub_cancel_left,
    if_neg (Nat.ne_of_gt hr.pos),hscan]
  simp only [TxOutcome.finish,commitTx_spec hs]
  rw [nextJournalLpa_slot hr (o + full.length)]
  unfold Tx.blockNum
  rw [show o + full.length + 1 = o + (1 + full.length) by omega]

theorem replayOneTransaction_image (hL : L.Ok d) {sb : Block} (hsb : layoutOf sb = L) (tx : Tx)
    (o : Nat) (him : TxImage (fun i => journalBlock d L (o + i)) tx)
    (hn : tx.blockNum ≤ L.journalSize) (hr : ∀ r ∈ tx.records, r.Ok L d) :
    ∃ s, tx.records.foldlM (recoveryHandler d).apply (TxState.init sb) = .ok s ∧
      commRecoveryReplayOneTransaction d sb (journalSlot L o) L.metaJournalBlkaddr
        (L.metaJournalBlkaddr + L.journalSize) =
        .committed (commRecoveryAppendReclaimRecord
            (d.withBlocks (MetaImage.replay L ⟨sb,d.blocks⟩ tx.records).blocks) s)
          (journalSlot L (o + tx.blockNum))
          (MetaImage.replay L ⟨sb,d.blocks⟩ tx.records).superBlock := by
  obtain ⟨s,hfold,hs,hi⟩ := replay_spec (init_tracks (d := d) sb hsb) hL hr
  rw [init_image] at hi
  rw [← hi]
  exact ⟨s,hfold,replayOneTransaction_eq (ringOk hL) sb tx o him hn hfold hs⟩

theorem replayOneTransaction_stopped (hL : L.Ok d) (sb : Block) (o : Nat)
    (hz : (headerAt (journalBlock d L o) 0).len = 0) :
    commRecoveryReplayOneTransaction d sb (journalSlot L o) L.metaJournalBlkaddr
      (L.metaJournalBlkaddr + L.journalSize) = .uncommitted := by
  rw [commRecoveryReplayOneTransaction,Nat.add_sub_cancel_left,
    if_neg (Nat.ne_of_gt hL.journal_pos)]
  have hscan := scanTx_stopped (recoveryHandler d) (ringOk hL) o L.journalSize (TxState.init sb) hz
  change scanTx _ d _ _ _ (journalSlot L o) _ = _ at hscan
  rw [hscan]

end Commit

end Rtfs
