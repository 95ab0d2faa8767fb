import Rtfs.Comm.RecoveryWrites
import Rtfs.Comm.Termination
import Rtfs.Lib.Patch

namespace Rtfs

def natPatch (L : Layout) (e : NatJournalEntry) : Patch Nat :=
  ⟨L.natLpa e.nid,8 * (e.nid.toNat % natEntryPerBlock),natEntryCodec.encode e.newValue⟩

def sitPatch (L : Layout) (e : SitJournalEntry) : Patch Nat :=
  ⟨L.sitLpa e.segID,68 * (e.segID.toNat % sitEntryPerBlock),sitEntryCodec.encode e.newValue⟩

def superPatch (e : SuperBlockJournalEntry) : Patch Unit := ⟨(),e.off.toNat,Codec.u32Bytes e.newVal⟩

def JournalRecord.patches (L : Layout) : JournalRecord → List (Patch Nat)
  | .super _ => []
  | .nats es => es.map (natPatch L)
  | .sits es => es.map (sitPatch L)

def JournalRecord.superPatches : JournalRecord → List (Patch Unit)
  | .super es => es.map superPatch
  | _ => []

def areaPatches (L : Layout) (rs : List JournalRecord) : List (Patch Nat) := rs.flatMap (JournalRecord.patches L)

def superPatches (rs : List JournalRecord) : List (Patch Unit) := rs.flatMap JournalRecord.superPatches

section Patches
variable (L : Layout)

theorem areaPatches_append (rs qs : List JournalRecord) :
    areaPatches L (rs ++ qs) = areaPatches L rs ++ areaPatches L qs := List.flatMap_append

theorem foldNat_patches (m : MetaImage) (es : List NatJournalEntry) :
    (es.foldl (MetaImage.putNat L) m).blocks = Patch.putAll m.blocks (es.map (natPatch L)) := by
  induction es generalizing m with
  | nil => rfl
  | cons e es ih => exact ih (m.putNat L e)

theorem foldSit_patches (m : MetaImage) (es : List SitJournalEntry) :
    (es.foldl (MetaImage.putSit L) m).blocks = Patch.putAll m.blocks (es.map (sitPatch L)) := by
  induction es generalizing m with
  | nil => rfl
  | cons e es ih => exact ih (m.putSit L e)

theorem putSuper_patches (sb : Block) (e : SuperBlockJournalEntry) :
    (fun _ : Unit => setU32 sb e.off.toNat e.newVal) = Patch.put (fun _ => sb) (superPatch e) := by
  funext u
  rw [Patch.put,show u = (superPatch e).block from rfl,Function.update_self]
  rfl

theorem superAfter_patches (sb : Block) (es : List SuperBlockJournalEntry) :
    (fun _ : Unit => superAfter sb es) = Patch.putAll (fun _ => sb) (es.map superPatch) := by
  induction es generalizing sb with
  | nil => rfl
  | cons e es ih =>
    rw [List.map_cons,Patch.putAll,List.foldl_cons,← putSuper_patches]
    exact ih (setU32 sb e.off.toNat e.newVal)

theorem apply_patches (m : MetaImage) (r : JournalRecord) :
    (m.apply L r).blocks = Patch.putAll m.blocks (r.patches L) ∧
      (fun _ : Unit => (m.apply L r).superBlock) = Patch.putAll (fun _ => m.superBlock) r.superPatches := by
  cases r with
  | super es =>
    change (es.foldl MetaImage.putSuper m).blocks = m.blocks ∧
      (fun _ : Unit => (es.foldl MetaImage.putSuper m).superBlock) = _
    rw [foldSuper_eq]
    exact ⟨rfl,superAfter_patches m.superBlock es⟩
  | nats es =>
    refine ⟨foldNat_patches L m es,?_⟩
    change (fun _ : Unit => (es.foldl (MetaImage.putNat L) m).superBlock) = fun _ => m.superBlock
    rw [foldNat_super]
  | sits es =>
    refine ⟨foldSit_patches L m es,?_⟩
    change (fun _ : Unit => (es.foldl (MetaImage.putSit L) m).superBlock) = fun _ => m.superBlock
    rw [foldSit_super]

theorem replay_patches (m : MetaImage) (rs : List JournalRecord) :
    (m.replay L rs).blocks = Patch.putAll m.blocks (areaPatches L rs) ∧
      (fun _ : Unit => (m.replay L rs).superBlock) =
        Patch.putAll (fun _ => m.superBlock) (superPatches rs) := by
  induction rs generalizing m with
  | nil => exact ⟨rfl,rfl⟩
  | cons r rs ih =>
    obtain ⟨hb,hs⟩ := apply_patches L m r
    obtain ⟨ihb,ihs⟩ := ih (m.apply L r)
    rw [hb,← Patch.putAll_append] at ihb
    rw [hs,← Patch.putAll_append] at ihs
    exact ⟨ihb,ihs⟩

theorem replay_absorbs {m m' : MetaImage} {rs : List JournalRecord}
    (h : Patch.AgreeOff (Patch.Covered (areaPatches L rs)) m'.blocks m.blocks) :
    (m'.replay L rs).blocks = (m.replay L rs).blocks := by
  rw [(replay_patches L m' rs).1,(replay_patches L m rs).1,Patch.putAll_absorb h]

theorem replay_superBlock (f g : Nat → Block) (sb : Block) (rs : List JournalRecord) :
    (MetaImage.replay L ⟨sb,f⟩ rs).superBlock = (MetaImage.replay L ⟨sb,g⟩ rs).superBlock := by
  have hf := (replay_patches L ⟨sb,f⟩ rs).2
  have hg := (replay_patches L ⟨sb,g⟩ rs).2
  exact congrFun (hf.trans hg.symm) ()

variable {L} {d : CommDev}

theorem covered_area (hL : L.Ok d) {rs : List JournalRecord} (hrs : ∀ r ∈ rs, r.Ok L d) {lpa i : Nat}
    (h : Patch.Covered (areaPatches L rs) lpa i) : L.sitBlkaddr ≤ lpa ∧ lpa < L.mainBlkaddr := by
  obtain ⟨w,hw,rfl,_⟩ := h
  obtain ⟨r,hr,hw⟩ := List.mem_flatMap.mp hw
  have hok := hrs r hr
  cases r with
  | super es => cases hw
  | nats es =>
    obtain ⟨e,he,rfl⟩ := List.mem_map.mp hw
    exact hL.natLpa_in (hok e he)
  | sits es =>
    obtain ⟨e,he,rfl⟩ := List.mem_map.mp hw
    exact hL.sitLpa_in (hok e he)

end Patches

def JournalRecord.KeepsLayout : JournalRecord → Prop
  | .super es => ∀ e ∈ es, 4 ≤ e.off.toNat ∧ OutsideLayout e.off.toNat
  | _ => True

def JournalRecord.NamesHeld (d : CommDev) : JournalRecord → Prop
  | .nats es => ∀ e ∈ es, d.Holds e.newValue.blockAddr.toNat
  | _ => True

section Applied
variable {L : Layout} {d : CommDev}

theorem foldlM_accepted {α : Type} (f : TxState → α → Except Errno TxState) (P : α → Prop) (es : List α)
    (hstep : ∀ s : TxState, s.Tracks d L → ∀ e ∈ es, ∀ s', f s e = .ok s' → P e ∧ s'.Tracks d L)
    {s s' : TxState} (hs : s.Tracks d L) (h : es.foldlM f s = .ok s') :
    (∀ e ∈ es, P e) ∧ s'.Tracks d L := by
  induction es generalizing s with
  | nil =>
    cases h
    exact ⟨fun e he => absurd he List.not_mem_nil,hs⟩
  | cons e es ih =>
    rw [List.foldlM_cons] at h
    cases hf : f s e with
    | error err =>
      rw [hf] at h
      cases h
    | ok s₁ =>
      rw [hf] at h
      obtain ⟨hp,hs₁⟩ := hstep s hs e List.mem_cons_self s₁ hf
      obtain ⟨hps,hs'⟩ := ih (fun s hs e he => hstep s hs e (List.mem_cons_of_mem _ he)) hs₁ h
      refine ⟨fun c hc => ?_,hs'⟩
      rcases List.mem_cons.mp hc with rfl | hc
      · exact hp
      · exact hps c hc

theorem applySuperEntry_accepted {s s' : TxState} (hs : s.Tracks d L) {e : SuperBlockJournalEntry}
    (he : OutsideLayout e.off.toNat) (h : applySuperEntry s e = .ok s') : e.Ok ∧ s'.Tracks d L := by
  have hoff : e.off.toNat + 4 ≤ 4096 := by
    by_contra hno
    rw [applySuperEntry,if_pos (by omega)] at h
    cases h
  obtain ⟨s₁,h₁,ht,_⟩ := applySuperEntry_spec hs ⟨hoff,he⟩
  cases h.symm.trans h₁
  exact ⟨⟨hoff,he⟩,ht⟩

theorem applyNatEntry_accepted {s s' : TxState} (hs : s.Tracks d L) (hL : L.Ok d) {e : NatJournalEntry}
    (he : d.Holds e.newValue.blockAddr.toNat) (h : applyNatEntry d s e = .ok s') :
    e.Ok L d ∧ s'.Tracks d L := by
  have hseg : L.segmentCountNat = (RtfsSuperBlock.segmentCountNat s.superBlock).toNat := by
    rw [← hs.layout]
    rfl
  have hin : e.nid.toNat / natEntryPerBlock < L.segmentCountNat * blockPerSegment := by
    by_contra hno
    rw [applyNatEntry,if_pos (by rw [← hseg]; exact Nat.not_lt.mp hno)] at h
    cases h
  obtain ⟨s₁,h₁,ht,_⟩ := applyNatEntry_spec hs hL ⟨hin,he⟩
  cases h.symm.trans h₁
  exact ⟨⟨hin,he⟩,ht⟩

theorem applySitEntry_accepted {s s' : TxState} (hs : s.Tracks d L) (hL : L.Ok d) {e : SitJournalEntry}
    (h : applySitEntry d s e = .ok s') : e.Ok L ∧ s'.Tracks d L := by
  have hseg : L.segmentCountSit = (RtfsSuperBlock.segmentCountSit s.superBlock).toNat := by
    rw [← hs.layout]
    rfl
  have hin : e.segID.toNat / sitEntryPerBlock < L.segmentCountSit * blockPerSegment := by
    by_contra hno
    rw [applySitEntry,if_pos (by rw [← hseg]; exact Nat.not_lt.mp hno)] at h
    cases h
  obtain ⟨s₁,h₁,ht,_⟩ := applySitEntry_spec hs hL hin
  cases h.symm.trans h₁
  exact ⟨hin,ht⟩

theorem apply_accepted {s s' : TxState} (hs : s.Tracks d L) (hL : L.Ok d) {r : JournalRecord}
    (hk : r.KeepsLayout) (hn : r.NamesHeld d) (h : (recoveryHandler d).apply s r = .ok s') :
    r.Ok L d ∧ s'.Tracks d L := by
  cases r with
  | super es =>
    exact foldlM_accepted applySuperEntry SuperBlockJournalEntry.Ok es
      (fun s hs e he s' => applySuperEntry_accepted hs (hk e he).2) hs h
  | nats es =>
    exact foldlM_accepted (applyNatEntry d) (NatJournalEntry.Ok L d) es
      (fun s hs e he s' => applyNatEntry_accepted hs hL (hn e he)) hs h
  | sits es =>
    exact foldlM_accepted (applySitEntry d) (SitJournalEntry.Ok L) es
      (fun s hs e he s' => applySitEntry_accepted hs hL) hs h

end Applied

end Rtfs
