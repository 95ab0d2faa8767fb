import Rtfs.Lib.BitCount
import Rtfs.Fs.LayoutSound
import Rtfs.Fs.LpaAlloc

namespace Rtfs

open RtfsSuperBlock

namespace RtfsSitEntry

def validCount (e : RtfsSitEntry) : Nat := Bitmap.count e.validMap

structure CountAgrees (e : RtfsSitEntry) : Prop where
  empty : e.sitVblocks = 0 ↔ e.validCount = 0
  exact : e.validCount < 511 → e.sitVblocks.toNat = e.validCount

-- a segment that was once full counts one block less than its bitmap
def CountTracks (e : RtfsSitEntry) : Prop :=
  e.sitVblocks.toNat = e.validCount ∨ 511 ≤ e.validCount ∧ e.sitVblocks.toNat + 1 = e.validCount

structure Changed (valid : Bool) (k : Nat) (e e' : RtfsSitEntry) : Prop where
  nextSeg : e'.nextSeg = e.nextSeg
  bits : if valid then e'.validCount = e.validCount + k else e'.validCount + k = e.validCount
  count : e'.sitVblocks.toNat =
    if valid then min (e.sitVblocks.toNat + k) 511 else e.sitVblocks.toNat - k

theorem validCount_le (e : RtfsSitEntry) : e.validCount ≤ 512 := Bitmap.count_le e.validMap

theorem sitVblocks_lt (e : RtfsSitEntry) : e.sitVblocks.toNat < 512 := by
  rw [sitVblocks_toNat]
  exact Nat.mod_lt _ (by decide)

theorem sitVblocks_eq_zero (e : RtfsSitEntry) : e.sitVblocks = 0 ↔ e.sitVblocks.toNat = 0 :=
  UInt32.toNat_inj.symm

theorem CountTracks.agrees {e : RtfsSitEntry} (h : e.CountTracks) : e.CountAgrees := by
  constructor
  · rw [sitVblocks_eq_zero]
    rcases h with h | ⟨hfull,h⟩ <;> omega
  · intro hlt
    rcases h with h | ⟨hfull,h⟩ <;> omega

theorem incVblocks_count (e : RtfsSitEntry) (map : Buf 64) :
    (RtfsSitEntry.mk e.incVblocks map).sitVblocks.toNat = min (e.sitVblocks.toNat + 1) 511 := by
  have hc := e.sitVblocks_toNat
  have hlt := e.sitVblocks_lt
  have hv : e.vblocks.toNat < 4294967296 := e.vblocks.toNat_lt
  rw [sitVblocks_toNat]
  unfold incVblocks
  split
  · rename_i h
    have h' : e.sitVblocks.toNat < 511 := h
    simp only [UInt32.toNat_add]
    change (e.vblocks.toNat + 1) % 4294967296 % 512 = _
    omega
  · rename_i h
    have h' : ¬ e.sitVblocks.toNat < 511 := h
    simp only
    omega

theorem decVblocks_count (e : RtfsSitEntry) (map : Buf 64) :
    (RtfsSitEntry.mk e.decVblocks map).sitVblocks.toNat = e.sitVblocks.toNat - 1 := by
  have hc := e.sitVblocks_toNat
  rw [sitVblocks_toNat]
  unfold decVblocks
  split
  · rename_i h
    have h' : 0 < e.sitVblocks.toNat := h
    have hle : (1 : UInt32) ≤ e.vblocks := by
      change 1 ≤ e.vblocks.toNat
      omega
    simp only [UInt32.toNat_sub_of_le _ _ hle]
    change (e.vblocks.toNat - 1) % 512 = _
    omega
  · rename_i h
    have h' : ¬ 0 < e.sitVblocks.toNat := h
    simp only
    omega

theorem Changed.refl (valid : Bool) (e : RtfsSitEntry) : Changed valid 0 e e := by
  have hlt := e.sitVblocks_lt
  refine ⟨rfl,by simp,?_⟩
  cases valid
  · simp
  · simp only [if_true]
    omega

theorem Changed.trans {valid : Bool} {k l : Nat} {e e' e'' : RtfsSitEntry} (h : Changed valid k e e')
    (h' : Changed valid l e' e'') : Changed valid (k + l) e e'' := by
  have hb := h.bits
  have hb' := h'.bits
  have hc := h.count
  have hc' := h'.count
  refine ⟨h'.nextSeg.trans h.nextSeg,?_,?_⟩
  all_goals
    cases valid
    · simp only [Bool.false_eq_true,if_false] at *
      omega
    · simp only [if_true] at *
      omega

theorem changeBit_changed (valid : Bool) (e : RtfsSitEntry) {off : Nat} (hoff : off < 512)
    (h : e.isValid off = !valid) : Changed valid 1 e (e.changeBit valid off) := by
  refine ⟨e.changeBit_nextSeg valid off,?_,?_⟩
  · cases valid with
    | true => exact Bitmap.count_set e.validMap (by omega) h
    | false => exact Bitmap.count_clear e.validMap (by omega) h
  · cases valid with
    | true => exact e.incVblocks_count _
    | false => exact e.decVblocks_count _

theorem changeBits_changed (valid : Bool) (e : RtfsSitEntry) {e' : RtfsSitEntry} {off n : Nat} (hn : off + n ≤ 512)
    (h : e.changeBits valid off n = some e') : Changed valid n e e' := by
  induction n generalizing e off with
  | zero =>
    cases h
    exact .refl valid _
  | succ n ih =>
    rw [changeBits] at h
    split at h
    · cases h
    · rename_i hbit
      have hopp : e.isValid off = !valid := by
        cases valid <;> simpa using hbit
      have hrest := ih (e.changeBit valid off) (by omega) h
      rw [Nat.add_comm]
      exact (e.changeBit_changed valid (by omega) hopp).trans hrest

theorem Changed.tracks {valid : Bool} {k : Nat} {e e' : RtfsSitEntry} (h : Changed valid k e e')
    (ht : e.CountTracks) (hk : valid = true ∨ k = 0 ∨ e.sitVblocks.toNat = e.validCount ∨
      k = e.validCount ∨ 511 + k ≤ e.validCount) : e'.CountTracks := by
  have hb := h.bits
  have hc := h.count
  have hle := e'.validCount_le
  unfold CountTracks at *
  cases valid with
  | true =>
    simp only [if_true] at hb hc
    omega
  | false =>
    simp only [Bool.false_eq_true,if_false,false_or] at hb hc hk
    omega

theorem Changed.kept {k : Nat} {e e' : RtfsSitEntry} (h : Changed false k e e')
    (ha : e'.CountAgrees) : k = 0 ∨ e.sitVblocks.toNat = e.validCount ∨ k = e.validCount ∨
      511 + k ≤ e.validCount := by
  have hb := h.bits
  have hc := h.count
  have hexact := ha.exact
  simp only [Bool.false_eq_true,if_false] at hb hc
  omega

theorem CountTracks.setValid {e : RtfsSitEntry} (h : e.CountTracks) {off : Nat} (hoff : off < 512) :
    (rtfsMkfsSitSetValid e off).CountTracks := by
  unfold rtfsMkfsSitSetValid
  split
  · exact h
  · rename_i hv
    exact (e.changeBit_changed true hoff (by simpa using hv)).tracks h (.inl rfl)

theorem setNextSegment_count (e : RtfsSitEntry) (next : UInt32) :
    (rtfsMkfsSitSetNextSegment e next).sitVblocks = e.sitVblocks := by
  apply UInt32.toNat_inj.mp
  rw [sitVblocks_toNat]
  change (e.sitVblocks ||| next <<< 9).toNat % 2 ^ 9 = _
  have hshift : (next <<< 9).toNat % 2 ^ 9 = 0 := by
    rw [UInt32.toNat_shiftLeft,Nat.shiftLeft_eq]
    change next.toNat * 2 ^ 9 % 2 ^ 32 % 2 ^ 9 = 0
    omega
  rw [UInt32.toNat_or,Nat.or_mod_two_pow,hshift,Nat.or_zero]
  exact Nat.mod_eq_of_lt e.sitVblocks_lt

theorem CountTracks.setNextSegment {e : RtfsSitEntry} (h : e.CountTracks) (next : UInt32) :
    (rtfsMkfsSitSetNextSegment e next).CountTracks := by
  unfold CountTracks at *
  rw [setNextSegment_count]
  exact h

end RtfsSitEntry

def blocksInSegment (startLpa count segId : Nat) : Nat :=
  min (startLpa + count) (512 * segId + 512) - max startLpa (512 * segId)

theorem sit_changed_self (m : FsMeta) (segId : UInt32) (e : RtfsSitEntry) :
    ((m.setSit segId e).journalSit segId).sit segId = e := Function.update_self _ _ _

theorem sit_changed_ne (m : FsMeta) {segId k : UInt32} (e : RtfsSitEntry) (h : k ≠ segId) :
    ((m.setSit segId e).journalSit segId).sit k = m.sit k := Function.update_of_ne h _ _

theorem changeSegments_changed (valid : Bool) (m : FsMeta) {m' : FsMeta} {lpa : UInt32} {count : Nat}
    (h0 : m.field segment0BlkaddrOff = 0) (hfit : lpa.toNat + count ≤ 4294967296)
    (h : changeSegments valid m lpa count = some m') :
    m'.superBlock = m.superBlock ∧ ∀ segId, RtfsSitEntry.Changed valid
      (blocksInSegment lpa.toNat count segId.toNat) (m.sit segId) (m'.sit segId) := by
  induction count using Nat.strong_induction_on generalizing m lpa with
  | _ count ih =>
    rw [changeSegments] at h
    split at h
    · rename_i hz
      cases h
      refine ⟨rfl,fun segId => ?_⟩
      have hnone : blocksInSegment lpa.toNat count segId.toNat = 0 := by
        unfold blocksInSegment
        omega
      rw [hnone]
      exact .refl valid _
    · rename_i hpos
      have hoff : (lpa % 512).toNat = lpa.toNat % 512 := UInt32.toNat_mod lpa 512
      have hdiv : (lpa / 512).toNat = lpa.toNat / 512 := UInt32.toNat_div lpa 512
      simp only [h0,UInt32.sub_zero,hoff] at h
      cases he : (m.sit (lpa / 512)).changeBits valid (lpa.toNat % 512)
          (min (512 - lpa.toNat % 512) count) with
      | none => simp [he] at h
      | some e =>
        simp only [he] at h
        have hone := (m.sit (lpa / 512)).changeBits_changed valid (by omega) he
        have hnext : count - min (512 - lpa.toNat % 512) count = 0 ∨
            (lpa + UInt32.ofNat (min (512 - lpa.toNat % 512) count)).toNat =
              lpa.toNat + min (512 - lpa.toNat % 512) count := by
          rw [UInt32.toNat_add,UInt32.toNat_ofNat']
          omega
        have hlt := (lpa + UInt32.ofNat (min (512 - lpa.toNat % 512) count)).toNat_lt
        obtain ⟨hsuper,hrest⟩ := ih (count - min (512 - lpa.toNat % 512) count) (by omega)
          ((m.setSit (lpa / 512) e).journalSit (lpa / 512)) h0 (by omega) h
        refine ⟨hsuper,fun segId => ?_⟩
        have htail := hrest segId
        by_cases hseg : segId = lpa / 512
        · subst hseg
          rw [sit_changed_self] at htail
          have hsum : blocksInSegment lpa.toNat count (lpa / 512).toNat =
              min (512 - lpa.toNat % 512) count + blocksInSegment
                (lpa + UInt32.ofNat (min (512 - lpa.toNat % 512) count)).toNat
                (count - min (512 - lpa.toNat % 512) count) (lpa / 512).toNat := by
            unfold blocksInSegment
            rw [hdiv]
            omega
          rw [hsum]
          exact hone.trans htail
        · rw [sit_changed_ne _ _ hseg] at htail
          have hne : segId.toNat ≠ lpa.toNat / 512 := fun hc =>
            hseg (UInt32.toNat_inj.mp (hc.trans hdiv.symm))
          have hsame : blocksInSegment lpa.toNat count segId.toNat = blocksInSegment
              (lpa + UInt32.ofNat (min (512 - lpa.toNat % 512) count)).toNat
              (count - min (512 - lpa.toNat % 512) count) segId.toNat := by
            unfold blocksInSegment
            omega
          rw [hsame]
          exact htail

structure RangeChange where
  startLpa : UInt32
  count : UInt32
  valid : Bool

namespace RangeChange

def apply (c : RangeChange) (m : FsMeta) : Option FsMeta :=
  sitChangeLpaStateRange m c.startLpa c.count c.valid

def InDevice (layout : RtfsMkfsLayout) (c : RangeChange) : Prop :=
  c.startLpa.toNat + c.count.toNat ≤ min layout.blockCount 4294967296

def blocksIn (c : RangeChange) (segId : UInt32) : Nat :=
  if c.startLpa = invalidLpa then 0
  else blocksInSegment c.startLpa.toNat c.count.toNat segId.toNat

def KeepsCount (c : RangeChange) (m : FsMeta) : Prop :=
  c.valid = true ∨ ∀ segId : UInt32, c.blocksIn segId = 0 ∨
    (m.sit segId).sitVblocks.toNat = (m.sit segId).validCount ∨
    c.blocksIn segId = (m.sit segId).validCount ∨ 511 + c.blocksIn segId ≤ (m.sit segId).validCount

theorem apply_segments {c : RangeChange} (hs : c.startLpa ≠ invalidLpa) (hc : c.count ≠ 0) (m : FsMeta) :
    c.apply m = changeSegments c.valid m c.startLpa c.count.toNat := if_neg (not_or.mpr ⟨hs,hc⟩)

theorem apply_changed {layout : RtfsMkfsLayout} {c : RangeChange} {m m' : FsMeta}
    (h0 : m.field segment0BlkaddrOff = 0) (hdev : c.InDevice layout) (h : c.apply m = some m') :
    m'.superBlock = m.superBlock ∧ ∀ segId,
      RtfsSitEntry.Changed c.valid (c.blocksIn segId) (m.sit segId) (m'.sit segId) := by
  unfold InDevice at hdev
  unfold apply sitChangeLpaStateRange at h
  unfold blocksIn
  split at h
  · rename_i hskip
    cases h
    refine ⟨rfl,fun segId => ?_⟩
    split
    · exact .refl _ _
    · rename_i hlpa
      have hz : blocksInSegment c.startLpa.toNat c.count.toNat segId.toNat = 0 := by
        rw [hskip.resolve_left hlpa]
        unfold blocksInSegment
        simp only [UInt32.toNat_zero]
        omega
      rw [hz]
      exact .refl _ _
  · rename_i hgo
    rw [not_or] at hgo
    simp only [if_neg hgo.1]
    exact changeSegments_changed c.valid m h0 (by omega) h

end RangeChange

def RangeRun (layout : RtfsMkfsLayout) : FsMeta → List (RangeChange × FsMeta) → Prop
  | _, [] => True
  | m, (c,m') :: run => c.InDevice layout ∧ c.apply m = some m' ∧ RangeRun layout m' run

def CountsKept : FsMeta → List (RangeChange × FsMeta) → Prop
  | _, [] => True
  | m, (c,m') :: run => c.KeepsCount m ∧ CountsKept m' run

def SitAgrees (layout : RtfsMkfsLayout) (image m : FsMeta) : Prop :=
  ∀ segId : UInt32, segId.toNat < layout.segmentCount.toNat →
    (m.sit segId).CountAgrees ∧ (m.sit segId).nextSeg = (image.sit segId).nextSeg

structure SitTracks (layout : RtfsMkfsLayout) (image m : FsMeta) : Prop where
  segment0 : m.field segment0BlkaddrOff = 0
  counts : ∀ segId : UInt32, segId.toNat < layout.segmentCount.toNat → (m.sit segId).CountTracks
  nextSegs : ∀ segId : UInt32, (m.sit segId).nextSeg = (image.sit segId).nextSeg

section Run
variable {layout : RtfsMkfsLayout} {image m m' : FsMeta}

theorem SitTracks.agrees (h : SitTracks layout image m) : SitAgrees layout image m :=
  fun segId hseg => ⟨(h.counts segId hseg).agrees,h.nextSegs segId⟩

theorem SitTracks.step (h : SitTracks layout image m) {c : RangeChange} (hdev : c.InDevice layout)
    (hs : c.apply m = some m') (hk : c.KeepsCount m) : SitTracks layout image m' := by
  obtain ⟨hsuper,hch⟩ := RangeChange.apply_changed h.segment0 hdev hs
  refine ⟨?_,fun segId hseg => ?_,fun segId => (hch segId).nextSeg.trans (h.nextSegs segId)⟩
  · rw [FsMeta.field,hsuper]
    exact h.segment0
  · refine (hch segId).tracks (h.counts segId hseg) ?_
    rcases hk with hv | hk
    · exact .inl hv
    · exact .inr (hk segId)

theorem SitTracks.keeps (h : SitTracks layout image m) (hblocks : layout.blockCount =
    layout.segmentCount.toNat * 512) {c : RangeChange} (hdev : c.InDevice layout)
    (hs : c.apply m = some m') (ha : SitAgrees layout image m') : c.KeepsCount m := by
  obtain ⟨_,hch⟩ := RangeChange.apply_changed h.segment0 hdev hs
  unfold RangeChange.InDevice at hdev
  cases hv : c.valid with
  | true => exact .inl hv
  | false =>
    refine .inr (fun segId => ?_)
    by_cases hz : c.blocksIn segId = 0
    · exact .inl hz
    · have hin : segId.toNat < layout.segmentCount.toNat := by
        unfold RangeChange.blocksIn blocksInSegment at hz
        split at hz <;> omega
      exact (hv ▸ hch segId).kept (ha segId hin).1

theorem run_agrees_iff (h : SitTracks layout image m) (hblocks : layout.blockCount =
    layout.segmentCount.toNat * 512) {run : List (RangeChange × FsMeta)}
    (hr : RangeRun layout m run) :
    (∀ s ∈ run, SitAgrees layout image s.2) ↔ CountsKept m run := by
  induction run generalizing m with
  | nil => exact ⟨fun _ => trivial,fun _ s hs => absurd hs List.not_mem_nil⟩
  | cons s run ih =>
    obtain ⟨c,m'⟩ := s
    obtain ⟨hdev,hs,hrest⟩ := hr
    constructor
    · intro hall
      have hk := h.keeps hblocks hdev hs (hall _ List.mem_cons_self)
      exact ⟨hk,(ih (h.step hdev hs hk) hrest).mp (fun s hs => hall s (List.mem_cons_of_mem _ hs))⟩
    · rintro ⟨hk,hkept⟩ s hmem
      have hnext := h.step hdev hs hk
      rcases List.mem_cons.mp hmem with rfl | hmem
      · exact hnext.agrees
      · exact (ih hnext hrest).mpr hkept s hmem

end Run

def BlockTracks (b : Block) : Prop := ∀ i, (sitEntryAt b i).CountTracks

theorem modifySit_tracks {b : Block} (h : BlockTracks b) (segId : Nat)
    {f : RtfsSitEntry → RtfsSitEntry} (hf : ∀ e : RtfsSitEntry, e.CountTracks → (f e).CountTracks) :
    BlockTracks (modifySit b segId f) := by
  intro i
  rw [sitEntryAt_modifySit]
  split
  · exact hf _ (h i)
  · exact h i

theorem foldl_tracks {α : Type} (f : Block → α → Block) (xs : List α) {b : Block}
    (hb : BlockTracks b) (hf : ∀ x ∈ xs, ∀ b, BlockTracks b → BlockTracks (f b x)) :
    BlockTracks (xs.foldl f b) := by
  induction xs generalizing b with
  | nil => exact hb
  | cons x xs ih =>
    exact ih (hf x List.mem_cons_self b hb) (fun y hy => hf y (List.mem_cons_of_mem _ hy))

theorem validateSegment_tracks {b : Block} (h : BlockTracks b) (segId : Nat) :
    BlockTracks (validateSegment b segId) :=
  foldl_tracks _ _ h (fun _ hoff _ hb =>
    modifySit_tracks hb segId (fun _ he => he.setValid (List.mem_range.mp hoff)))

theorem initialSitBlock_tracks (layout : RtfsMkfsLayout) (blockIdx : Nat) :
    BlockTracks (initialSitBlock layout blockIdx) := by
  have hzero : BlockTracks Buf.zero := by
    intro i
    rw [sitEntryAt_zero]
    exact .inl Bitmap.count_zero.symm
  have hchained : BlockTracks (chainedSitBlock layout blockIdx) := by
    refine foldl_tracks _ _ hzero (fun segId _ b hb => ?_)
    split
    · exact modifySit_tracks hb segId (fun e he => he.setNextSegment _)
    · exact hb
  have hheaded : BlockTracks (if blockIdx = 0 then
      modifySit (chainedSitBlock layout blockIdx) 0 (fun e => rtfsMkfsSitSetValid e 0)
      else chainedSitBlock layout blockIdx) := by
    split
    · exact modifySit_tracks hchained 0 (fun e he => he.setValid (by decide))
    · exact hchained
  have hfilled := foldl_tracks (fun b segId => if segId / sitEntryPerBlock = blockIdx then
      validateSegment b segId else b) (List.range' 1 (layout.mainStartSegment.toNat - 1)) hheaded
    (fun segId _ b hb => by
      split
      · exact validateSegment_tracks hb segId
      · exact hb)
  unfold initialSitBlock
  simp only
  split
  · exact modifySit_tracks hfilled _ (fun e he => he.setValid (by decide))
  · exact hfilled

theorem image_tracks {options : RtfsMkfsOptions} {layout : RtfsMkfsLayout} {m : FsMeta}
    (h : MkfsImage options layout m) : SitTracks layout m m := by
  refine ⟨?_,fun segId hseg => ?_,fun _ => rfl⟩
  · rw [FsMeta.field,h.super]
    exact u32At_initialSuper _ _ (by decide) rfl
  · have hcovers := (calculateLayout_segments h.calculated).2.2
    rw [h.sits segId (by omega)]
    exact initialSitBlock_tracks layout _ _

theorem sit_counts_agree_iff (options : RtfsMkfsOptions) (layout : RtfsMkfsLayout) (m : FsMeta)
    (h : MkfsImage options layout m) (run : List (RangeChange × FsMeta))
    (hr : RangeRun layout m run) :
    SitAgrees layout m m ∧ ((∀ s ∈ run, SitAgrees layout m s.2) ↔ CountsKept m run) :=
  ⟨(image_tracks h).agrees,
    run_agrees_iff (image_tracks h) (calculateLayout_segments h.calculated).2.1 hr⟩

section Small

def fillSegment : RangeChange := ⟨3072,512,true⟩

def releaseMost : RangeChange := ⟨3072,511,false⟩

theorem fill_release_run {m : FsMeta} (h0 : m.field segment0BlkaddrOff = 0)
    (hclear : ∀ o, (m.sit 6).isValid o = false) :
    ∃ m1 m2, RangeRun smallLayout m [(fillSegment,m1),(releaseMost,m2)] := by
  have h6 : (3072 : UInt32) / 512 = 6 := by decide
  have hstart : (3072 : UInt32).toNat % 512 = 0 := by decide
  obtain ⟨e,hfill,_,hset⟩ := changeSegments_one true m 3072 512 h0 (by decide) (by decide)
    (fun o _ _ => by rw [h6,hclear]; rfl)
  rw [h6] at hfill
  simp only [hstart] at hset
  have hfull : ∀ o, 0 ≤ o → o < 0 + 511 → (((m.setSit 6 e).journalSit 6).sit 6).isValid o = !false := by
    intro o hlo hhi
    rw [sit_changed_self,hset,if_pos (by omega)]
    rfl
  obtain ⟨e',hrelease,_⟩ := changeSegments_one false ((m.setSit 6 e).journalSit 6) 3072 511 h0
    (by decide) (by decide) (by rw [h6,hstart]; exact hfull)
  have happly := fillSegment.apply_segments (by decide) (by decide) m
  have happly' := releaseMost.apply_segments (by decide) (by decide) ((m.setSit 6 e).journalSit 6)
  exact ⟨_,_,by unfold RangeChange.InDevice; decide,happly.trans hfill,
    by unfold RangeChange.InDevice; decide,happly'.trans hrelease,trivial⟩

theorem fill_release_counts {m m1 m2 : FsMeta} (h0 : m.field segment0BlkaddrOff = 0)
    (hr : RangeRun smallLayout m [(fillSegment,m1),(releaseMost,m2)]) :
    (m2.sit 6).sitVblocks = 0 ∧ (m2.sit 6).validCount = 1 := by
  obtain ⟨hsuper,h1⟩ := RangeChange.apply_changed h0 hr.1 hr.2.1
  have h0' : m1.field segment0BlkaddrOff = 0 := by
    rw [FsMeta.field,hsuper]
    exact h0
  obtain ⟨_,h2⟩ := RangeChange.apply_changed h0' hr.2.2.1 hr.2.2.2.1
  have hfilled : fillSegment.blocksIn 6 = 512 := by decide
  have hreleased : releaseMost.blocksIn 6 = 511 := by decide
  have hb1 := (h1 6).bits
  have hc1 := (h1 6).count
  have hb2 := (h2 6).bits
  have hc2 := (h2 6).count
  rw [hfilled] at hb1 hc1
  rw [hreleased] at hb2 hc2
  simp only [fillSegment,releaseMost,if_true,Bool.false_eq_true,if_false] at hb1 hc1 hb2 hc2
  have hle := (m1.sit 6).validCount_le
  rw [RtfsSitEntry.sitVblocks_eq_zero]
  omega

theorem small_segment_clear (o : Nat) : ((loadMeta smallDisk).sit 6).isValid o = false :=
  image_isValid loadMeta_small (calculateLayout_areas loadMeta_small.calculated (by decide))
    (by decide) ⟨by decide,by decide⟩ (fun he => absurd he (by decide))

theorem sit_counts_agree_small : ∃ m1 m2, SitAgrees smallLayout (loadMeta smallDisk)
    (loadMeta smallDisk) ∧
    ((∀ s ∈ [(fillSegment,m1),(releaseMost,m2)], SitAgrees smallLayout (loadMeta smallDisk) s.2) ↔
      CountsKept (loadMeta smallDisk) [(fillSegment,m1),(releaseMost,m2)]) := by
  obtain ⟨m1,m2,hr⟩ := fill_release_run (image_tracks loadMeta_small).segment0 small_segment_clear
  exact ⟨m1,m2,sit_counts_agree_iff smallOptions smallLayout _ loadMeta_small _ hr⟩

-- 512 blocks count as 511, so 511 releases leave a live block behind a zero count
theorem sit_count_zero_with_live_block : ∃ m1 m2, RangeRun smallLayout (loadMeta smallDisk)
    [(fillSegment,m1),(releaseMost,m2)] ∧ (m2.sit 6).sitVblocks = 0 ∧ (m2.sit 6).validCount = 1 ∧
    ¬ SitAgrees smallLayout (loadMeta smallDisk) m2 := by
  obtain ⟨m1,m2,hr⟩ := fill_release_run (image_tracks loadMeta_small).segment0 small_segment_clear
  obtain ⟨hzero,hone⟩ := fill_release_counts (image_tracks loadMeta_small).segment0 hr
  refine ⟨m1,m2,hr,hzero,hone,fun hagree => ?_⟩
  have hempty := (hagree 6 (by decide)).1.empty.mp hzero
  omega

end Small

end Rtfs
