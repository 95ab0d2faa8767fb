import Rtfs.Journal.LastWriter

namespace Rtfs

def appendAllUnique (vec lpas : List UInt32) : List UInt32 := lpas.foldl lpaVectorAppendUnique vec

section Unique
variable {vec lpas : List UInt32}

theorem appendUnique_nodup (h : vec.Nodup) (lpa : UInt32) : (lpaVectorAppendUnique vec lpa).Nodup := by
  unfold lpaVectorAppendUnique
  split
  · exact h
  · rename_i hc
    refine List.Nodup.append h (List.nodup_singleton lpa) ?_
    intro x hx hx'
    rw [List.mem_singleton] at hx'
    subst hx'
    exact hc (Or.inr hx)

theorem mem_appendUnique {lpa x : UInt32} (hz : lpa ≠ invalidLpa) :
    x ∈ lpaVectorAppendUnique vec lpa ↔ x ∈ vec ∨ x = lpa := by
  unfold lpaVectorAppendUnique
  split
  · rename_i hc
    refine (or_iff_left_of_imp ?_).symm
    rintro rfl
    exact hc.resolve_left hz
  · rw [List.mem_append,List.mem_singleton]

theorem appendAll_nodup (h : vec.Nodup) : (appendAllUnique vec lpas).Nodup := by
  induction lpas generalizing vec with
  | nil => exact h
  | cons lpa lpas ih => exact ih (appendUnique_nodup h lpa)

theorem mem_appendAll (hz : ∀ lpa ∈ lpas, lpa ≠ invalidLpa) {x : UInt32} :
    x ∈ appendAllUnique vec lpas ↔ x ∈ vec ∨ x ∈ lpas := by
  induction lpas generalizing vec with
  | nil => simp [appendAllUnique]
  | cons lpa lpas ih =>
    have hrest : x ∈ appendAllUnique (lpaVectorAppendUnique vec lpa) lpas ↔ _ :=
      ih (fun y hy => hz y (List.mem_cons_of_mem _ hy))
    rw [mem_appendUnique (hz lpa List.mem_cons_self)] at hrest
    rw [List.mem_cons,← or_assoc]
    exact hrest

end Unique

def InMainArea (L : Layout) (lpa : UInt32) : Prop :=
  L.mainBlkaddr ≤ lpa.toNat ∧ lpa.toNat < L.blockCount

instance (L : Layout) (lpa : UInt32) : Decidable (InMainArea L lpa) := instDecidableAnd

def replacingAddr (f : Nat → Block) (lpa : UInt32) (i : Nat) : UInt32 :=
  if lpa ≠ invalidLpa ∧ ¬ nodeInline (f lpa.toNat) then inodeAddr (f lpa.toNat) i else invalidLpa

def DropsAddr (L : Layout) (f : Nat → Block) (oldLpa newLpa : UInt32) (i : Nat) : Prop :=
  inodeAddr (f oldLpa.toNat) i ≠ invalidLpa ∧
    inodeAddr (f oldLpa.toNat) i ≠ replacingAddr f newLpa i ∧
    InMainArea L (inodeAddr (f oldLpa.toNat) i)

instance (L : Layout) (f : Nat → Block) (oldLpa newLpa : UInt32) (i : Nat) :
    Decidable (DropsAddr L f oldLpa newLpa i) := instDecidableAnd

def DropsNode (L : Layout) (old new : RtfsNatEntry) : Prop :=
  old.ino ≠ invalidNid ∧ old.blockAddr ≠ invalidLpa ∧ InMainArea L old.blockAddr ∧
    old.blockAddr ≠ new.blockAddr

instance (L : Layout) (old new : RtfsNatEntry) : Decidable (DropsNode L old new) := instDecidableAnd

def droppedNodes (L : Layout) (old new : RtfsNatEntry) : List UInt32 :=
  if DropsNode L old new then [old.blockAddr] else []

def droppedData (L : Layout) (f : Nat → Block) (nid : UInt32) (old new : RtfsNatEntry) : List UInt32 :=
  if DropsNode L old new ∧ old.ino = nid ∧ ¬ nodeInline (f old.blockAddr.toNat) then
    ((List.range defAddrsPerInode).filter (fun i => DropsAddr L f old.blockAddr new.blockAddr i)).map
      (inodeAddr (f old.blockAddr.toNat))
  else []

def ReclaimRecord.drop (r : ReclaimRecord) (L : Layout) (f : Nat → Block) (nid : UInt32)
    (old new : RtfsNatEntry) : ReclaimRecord :=
  ⟨appendAllUnique r.dataLpas (droppedData L f nid old new),
    appendAllUnique r.nodeLpas (droppedNodes L old new)⟩

def TxState.reclaim (s : TxState) : ReclaimRecord := ⟨s.reclaimDataLpas,s.reclaimNodeLpas⟩

section Record
variable {d : CommDev} {s s' : TxState} {L : Layout}

theorem inMainArea_iff (hs : layoutOf s.superBlock = L) (lpa : UInt32) :
    inMainArea s.superBlock lpa = true ↔ InMainArea L lpa := by
  rw [← hs]
  exact decide_eq_true_iff

theorem foldl_dropped (hs : layoutOf s.superBlock = L) (f : Nat → Block) (old new : UInt32)
    (vec : List UInt32) :
    (List.range defAddrsPerInode).foldl (fun vec i =>
      if inodeAddr (f old.toNat) i ≠ invalidLpa ∧
        inodeAddr (f old.toNat) i ≠ replacingAddr f new i ∧
        inMainArea s.superBlock (inodeAddr (f old.toNat) i) then
      lpaVectorAppendUnique vec (inodeAddr (f old.toNat) i) else vec) vec =
    appendAllUnique vec (((List.range defAddrsPerInode).filter (fun i => DropsAddr L f old new i)).map
      (inodeAddr (f old.toNat))) := by
  rw [appendAllUnique,List.foldl_map,List.foldl_filter]
  refine List.foldl_ext _ _ _ (fun vec i _ => ?_)
  simp only [inMainArea_iff hs,decide_eq_true_eq]
  rfl

theorem collectInodeDataReclaim_eq (hs : layoutOf s.superBlock = L) {old new : UInt32}
    (ho : d.Holds old.toNat) (hn : d.Holds new.toNat) (hz : old ≠ invalidLpa) :
    commRecoveryCollectInodeDataReclaim d s old new =
      .ok { s with reclaimDataLpas := if nodeInline (d.blocks old.toNat) then s.reclaimDataLpas else
        appendAllUnique s.reclaimDataLpas (((List.range defAddrsPerInode).filter
          (fun i => DropsAddr L d.blocks old new i)).map (inodeAddr (d.blocks old.toNat))) } := by
  unfold commRecoveryCollectInodeDataReclaim
  rw [if_neg hz,readLpa_ok ho]
  change (if nodeInline (d.blocks old.toNat) = true then _ else _ : Except Errno TxState) = _
  by_cases hi : nodeInline (d.blocks old.toNat) = true
  · rw [if_pos hi]
    simp only [hi,if_true]
    rfl
  · rw [if_neg hi,readLpa_ok hn]
    simp only [hi,Bool.false_eq_true,if_false]
    rw [← foldl_dropped hs]
    unfold replacingAddr
    by_cases hnz : new ≠ invalidLpa
    · rw [if_pos hnz]
      simp only [hnz,not_false_eq_true,true_and,ne_eq]
      rfl
    · rw [if_neg hnz]
      simp only [hnz,false_and,if_false,ne_eq]
      rfl

theorem recordNatReclaim_eq (hs : s.Tracks d L) (hL : L.Ok d) (nid : UInt32)
    (old new : RtfsNatEntry) (hn : d.Holds new.blockAddr.toNat) :
    commRecoveryRecordNatReclaim d s nid old new = .ok { s with
      reclaimDataLpas := (s.reclaim.drop L d.blocks nid old new).dataLpas
      reclaimNodeLpas := (s.reclaim.drop L d.blocks nid old new).nodeLpas } := by
  unfold commRecoveryRecordNatReclaim ReclaimRecord.drop droppedData droppedNodes TxState.reclaim
  by_cases hd : DropsNode L old new
  · have hcond := hd
    obtain ⟨h1,h2,h3,h4⟩ := hcond
    have hmain : inMainArea s.superBlock old.blockAddr = true := (inMainArea_iff hs.layout _).mpr h3
    rw [if_neg (by simp [h1,h2,hmain,h4])]
    have hold : d.Holds old.blockAddr.toNat := hL.held _ h3.2
    by_cases hino : old.ino = nid
    · rw [if_neg (not_not.mpr hino),collectInodeDataReclaim_eq (s := ⟨s.superBlock,s.blocks,
        s.reclaimDataLpas,lpaVectorAppendUnique s.reclaimNodeLpas old.blockAddr⟩) hs.layout hold hn h2]
      by_cases hi : nodeInline (d.blocks old.blockAddr.toNat) = true
      · simp only [hi,if_true,not_true_eq_false,and_false,if_false,hd]
        rfl
      · simp only [hi,hd,hino,Bool.false_eq_true,if_false,not_false_eq_true,and_self,if_true]
        rfl
    · rw [if_pos hino]
      simp only [hino,false_and,and_false,if_false,hd,if_true]
      rfl
  · have hc : old.ino = invalidNid ∨ old.blockAddr = invalidLpa ∨
        ¬ inMainArea s.superBlock old.blockAddr = true ∨ old.blockAddr = new.blockAddr := by
      rw [inMainArea_iff hs.layout]
      unfold DropsNode at hd
      tauto
    rw [if_pos hc]
    simp only [hd,false_and,if_false]
    rfl

theorem txGetBlock_reclaim {lpa : UInt32} {b : RecoveryBlock} (h : txGetBlock d s lpa = .ok (b,s')) :
    s'.reclaim = s.reclaim := by
  unfold txGetBlock at h
  split at h
  · cases h
    rfl
  · cases hr : commRecoveryReadLpa d lpa with
    | error e =>
      rw [hr] at h
      cases h
    | ok data =>
      rw [hr] at h
      cases h
      rfl

theorem applyNatEntry_reclaim (hs : s.Tracks d L) (hL : L.Ok d) {e : NatJournalEntry} (he : e.Ok L d)
    (h : applyNatEntry d s e = .ok s') :
    s'.reclaim = s.reclaim.drop L d.blocks e.nid (natOf L (s.view d) e.nid) e.newValue := by
  have hlpa : (RtfsSuperBlock.natBlkaddr s.superBlock +
      UInt32.ofNat (e.nid.toNat / natEntryPerBlock)).toNat = L.natLpa e.nid := by
    have hnat : L.natBlkaddr = (RtfsSuperBlock.natBlkaddr s.superBlock).toNat := by rw [← hs.layout]; rfl
    rw [Layout.natLpa,hnat]
    apply areaLpa_toNat rfl _ hL.blockCount_le
    rw [← hnat]
    exact hL.natLpa_lt he
  have hseg : L.segmentCountNat = (RtfsSuperBlock.segmentCountNat s.superBlock).toNat := by
    rw [← hs.layout]; rfl
  obtain ⟨b,s₁,hget,ht₁,hdata,_⟩ := txGetBlock_spec hs (hlpa ▸ hL.held _ (hL.natLpa_lt he))
  rw [applyNatEntry,if_neg (by rw [← hseg]; exact Nat.not_le.mpr he.1)] at h
  change (txGetBlock d s _).bind _ = _ at h
  rw [hget] at h
  change (commRecoveryRecordNatReclaim d s₁ e.nid _ e.newValue).bind _ = _ at h
  rw [recordNatReclaim_eq ht₁ hL _ _ _ he.2] at h
  cases h
  rw [hlpa] at hdata
  change ReclaimRecord.drop _ L d.blocks e.nid _ e.newValue = _
  rw [txGetBlock_reclaim hget,hdata]
  rfl

theorem applySuperEntry_reclaim {e : SuperBlockJournalEntry} (h : applySuperEntry s e = .ok s') :
    s'.reclaim = s.reclaim := by
  unfold applySuperEntry at h
  split at h
  · cases h
  · cases h
    rfl

theorem applySitEntry_reclaim {e : SitJournalEntry} (h : applySitEntry d s e = .ok s') :
    s'.reclaim = s.reclaim := by
  unfold applySitEntry at h
  simp only at h
  split at h
  · cases h
  · cases hg : txGetBlock d s (RtfsSuperBlock.sitBlkaddr s.superBlock +
        UInt32.ofNat (e.segID.toNat / sitEntryPerBlock)) with
    | error err =>
      rw [hg] at h
      cases h
    | ok p =>
      rw [hg] at h
      cases h
      have hb : txGetBlock d s (RtfsSuperBlock.sitBlkaddr s.superBlock +
        UInt32.ofNat (e.segID.toNat / sitEntryPerBlock)) = .ok (p.1,p.2) := hg
      have hp : p.2.reclaim = s.reclaim := txGetBlock_reclaim hb
      exact hp

end Record

def natReclaimStep (L : Layout) (f : Nat → Block) (p : (UInt32 → RtfsNatEntry) × ReclaimRecord)
    (e : NatJournalEntry) : (UInt32 → RtfsNatEntry) × ReclaimRecord :=
  (Function.update p.1 e.nid e.newValue,p.2.drop L f e.nid (p.1 e.nid) e.newValue)

def natReclaim (L : Layout) (f : Nat → Block) (nat : UInt32 → RtfsNatEntry)
    (es : List NatJournalEntry) : ReclaimRecord :=
  (es.foldl (natReclaimStep L f) (nat,⟨[],[]⟩)).2

def JournalRecord.natEntries : JournalRecord → List NatJournalEntry
  | .nats es => es
  | _ => []

def TxState.reclaimView (s : TxState) (d : CommDev) (L : Layout) :
    (UInt32 → RtfsNatEntry) × ReclaimRecord := (natOf L (s.view d),s.reclaim)

section Tx
variable {d : CommDev} {s s' : TxState} {L : Layout}

theorem foldlM_view {α β : Type} (f : TxState → α → Except Errno TxState) (v : TxState → β)
    (g : β → α → β) (es : List α)
    (hstep : ∀ s s' : TxState, s.Tracks d L → ∀ e ∈ es, f s e = .ok s' → s'.Tracks d L ∧ v s' = g (v s) e)
    (hs : s.Tracks d L) (h : es.foldlM f s = .ok s') : s'.Tracks d L ∧ v s' = es.foldl g (v s) := by
  induction es generalizing s with
  | nil =>
    cases h
    exact ⟨hs,rfl⟩
  | cons e es ih =>
    rw [List.foldlM_cons] at h
    cases hf : f s e with
    | error err =>
      rw [hf] at h
      cases h
    | ok s₁ =>
      rw [hf] at h
      obtain ⟨ht,hv⟩ := hstep s s₁ hs e List.mem_cons_self hf
      rw [List.foldl_cons,← hv]
      exact ih (fun s s' hs e he => hstep s s' hs e (List.mem_cons_of_mem _ he)) ht h

theorem foldl_const {β α : Type} (b : β) (es : List α) : es.foldl (fun b _ => b) b = b := by
  induction es with
  | nil => rfl
  | cons e es ih => exact ih

theorem superEntry_view (hs : s.Tracks d L) {e : SuperBlockJournalEntry} (he : e.Ok)
    (h : applySuperEntry s e = .ok s') :
    s'.Tracks d L ∧ s'.reclaimView d L = s.reclaimView d L := by
  obtain ⟨s₁,h₁,ht,hi⟩ := applySuperEntry_spec hs he
  rw [h] at h₁
  cases h₁
  have hb : s'.view d = s.view d := congrArg MetaImage.blocks hi
  exact ⟨ht,by rw [TxState.reclaimView,hb,applySuperEntry_reclaim h]; rfl⟩

theorem natEntry_view (hs : s.Tracks d L) (hL : L.Ok d) {e : NatJournalEntry} (he : e.Ok L d)
    (h : applyNatEntry d s e = .ok s') :
    s'.Tracks d L ∧ s'.reclaimView d L = natReclaimStep L d.blocks (s.reclaimView d L) e := by
  obtain ⟨s₁,h₁,ht,hi⟩ := applyNatEntry_spec hs hL he
  rw [h] at h₁
  cases h₁
  have hb : s'.view d = ((s.image d).putNat L e).blocks := congrArg MetaImage.blocks hi
  refine ⟨ht,?_⟩
  rw [TxState.reclaimView,hb,natOf_putNat,applyNatEntry_reclaim hs hL he h]
  rfl

theorem sitEntry_view (hs : s.Tracks d L) (hL : L.Ok d) {e : SitJournalEntry} (he : e.Ok L)
    (h : applySitEntry d s e = .ok s') :
    s'.Tracks d L ∧ s'.reclaimView d L = s.reclaimView d L := by
  obtain ⟨s₁,h₁,ht,hi⟩ := applySitEntry_spec hs hL he
  rw [h] at h₁
  cases h₁
  have hb : s'.view d = ((s.image d).putSit L e).blocks := congrArg MetaImage.blocks hi
  refine ⟨ht,Prod.ext ?_ (applySitEntry_reclaim h)⟩
  funext nid
  change natOf L (s'.view d) nid = _
  rw [hb,natOf_putSit _ (natLpa_ne_sitLpa hL he)]
  rfl

theorem record_view (hL : L.Ok d) {r : JournalRecord} (hr : r.Ok L d) (hs : s.Tracks d L)
    (h : (recoveryHandler d).apply s r = .ok s') :
    s'.Tracks d L ∧ s'.reclaimView d L = r.natEntries.foldl (natReclaimStep L d.blocks) (s.reclaimView d L) := by
  cases r with
  | super es =>
    have hv := foldlM_view applySuperEntry (fun s => s.reclaimView d L) (fun p _ => p) es
      (fun _ _ hs e he h => superEntry_view hs (hr e he) h) hs h
    rwa [foldl_const] at hv
  | nats es =>
    exact foldlM_view (applyNatEntry d) (fun s => s.reclaimView d L) (natReclaimStep L d.blocks) es
      (fun _ _ hs e he h => natEntry_view hs hL (hr e he) h) hs h
  | sits es =>
    have hv := foldlM_view (applySitEntry d) (fun s => s.reclaimView d L) (fun p _ => p) es
      (fun _ _ hs e he h => sitEntry_view hs hL (hr e he) h) hs h
    rwa [foldl_const] at hv

theorem replay_reclaim (hL : L.Ok d) {sb : Block} (hsb : layoutOf sb = L) {rs : List JournalRecord}
    (hr : ∀ r ∈ rs, r.Ok L d)
    (h : rs.foldlM (recoveryHandler d).apply (TxState.init sb) = .ok s) :
    s.reclaim = natReclaim L d.blocks (natOf L d.blocks) (rs.flatMap JournalRecord.natEntries) := by
  obtain ⟨_,hv⟩ := foldlM_view (recoveryHandler d).apply (fun s => s.reclaimView d L)
    (fun p r => r.natEntries.foldl (natReclaimStep L d.blocks) p) rs
    (fun _ _ hs r hm h => record_view hL (hr r hm) hs h) (init_tracks sb hsb) h
  have hsnd := congrArg Prod.snd hv
  rw [natReclaim,List.foldl_flatMap]
  exact hsnd

theorem nats_of_carries {tx : Tx} {ss : List SuperBlockJournalEntry} {ns : List NatJournalEntry}
    {cs : List SitJournalEntry} (h : tx.Carries ss ns cs) : tx.records.flatMap JournalRecord.natEntries = ns := by
  obtain ⟨sc,nc,cc,hr,_,rfl,_⟩ := h
  rw [hr,List.flatMap_append,List.flatMap_append,List.flatMap_map,List.flatMap_map,List.flatMap_map]
  have hs : (sc.flatMap fun a => (JournalRecord.super a).natEntries) = [] := by simp [JournalRecord.natEntries]
  have hc : (cc.flatMap fun a => (JournalRecord.sits a).natEntries) = [] := by simp [JournalRecord.natEntries]
  rw [hs,hc,List.nil_append,List.append_nil]
  exact List.flatMap_id'

end Tx

def ReclaimRecord.lpas (r : ReclaimRecord) : List UInt32 := r.dataLpas ++ r.nodeLpas

def ReclaimRecord.toList (r : ReclaimRecord) : List ReclaimRecord :=
  if r.dataLpas = [] ∧ r.nodeLpas = [] then [] else [r]

theorem flatMap_toList (r : ReclaimRecord) : r.toList.flatMap ReclaimRecord.lpas = r.lpas := by
  unfold ReclaimRecord.toList
  split
  · rename_i h
    simp [ReclaimRecord.lpas,h.1,h.2]
  · exact List.flatMap_singleton ..

theorem appendReclaimRecord_eq (d : CommDev) (s : TxState) :
    (commRecoveryAppendReclaimRecord d s).recoveredReclaim = d.recoveredReclaim ++ s.reclaim.toList := by
  unfold commRecoveryAppendReclaimRecord ReclaimRecord.toList TxState.reclaim
  by_cases hc : s.reclaimDataLpas = [] ∧ s.reclaimNodeLpas = []
  · simp only [hc,and_self,if_true,List.append_nil]
  · simp only [hc,if_false]

end Rtfs
