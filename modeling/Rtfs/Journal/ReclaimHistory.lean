import Rtfs.Journal.History

namespace Rtfs

def natAfter (nat : UInt32 → RtfsNatEntry) (es : List NatJournalEntry) : UInt32 → RtfsNatEntry :=
  es.foldl (fun nat e => Function.update nat e.nid e.newValue) nat

def natHistoryReclaim (L : Layout) (f : Nat → Block) (nat : UInt32 → RtfsNatEntry) :
    List (List NatJournalEntry) → List ReclaimRecord
  | [] => []
  | es :: ess => (natReclaim L f nat es).toList ++ natHistoryReclaim L f (natAfter nat es) ess

structure DropsAt (L : Layout) (f : Nat → Block) (nat : UInt32 → RtfsNatEntry)
    (es : List NatJournalEntry) (k : Nat) (e : NatJournalEntry) (isData : Bool) (x : UInt32) : Prop where
  entry : es[k]? = some e
  dropped : x ∈ if isData then droppedData L f e.nid (natAfter nat (es.take k) e.nid) e.newValue
    else droppedNodes L (natAfter nat (es.take k) e.nid) e.newValue

section After
variable {nat : UInt32 → RtfsNatEntry}

theorem natAfter_append (es fs : List NatJournalEntry) :
    natAfter nat (es ++ fs) = natAfter (natAfter nat es) fs := List.foldl_append ..

theorem natAfter_eq (es : List NatJournalEntry) (nid : UInt32) :
    natAfter nat es nid =
      ((lastEntry NatJournalEntry.nid nid es).map NatJournalEntry.newValue).getD (nat nid) := by
  have h : natAfter nat es = Updates.applyAll nat (es.map (fun e => (e.nid,e.newValue))) := by
    unfold natAfter Updates.applyAll
    rw [List.foldl_map]
  rw [h,Updates.applyAll_last,last_map]

end After

section Congr
variable {L : Layout} {f g : Nat → Block}

theorem droppedNodes_main {old new : RtfsNatEntry} {x : UInt32} (hx : x ∈ droppedNodes L old new) :
    x ≠ invalidLpa ∧ InMainArea L x := by
  unfold droppedNodes at hx
  split at hx
  · rename_i hd
    rw [List.mem_singleton.mp hx]
    exact ⟨hd.2.1,hd.2.2.1⟩
  · cases hx

theorem droppedData_main {old new : RtfsNatEntry} {nid x : UInt32}
    (hx : x ∈ droppedData L f nid old new) : x ≠ invalidLpa ∧ InMainArea L x := by
  unfold droppedData at hx
  split at hx
  · obtain ⟨i,hi,rfl⟩ := List.mem_map.mp hx
    obtain ⟨h1,_,h2⟩ := of_decide_eq_true (List.mem_filter.mp hi).2
    exact ⟨h1,h2⟩
  · cases hx

theorem droppedData_congr (h : ∀ lpa, L.mainBlkaddr ≤ lpa → f lpa = g lpa) (nid : UInt32)
    {old new : RtfsNatEntry} (hnew : new.blockAddr = invalidLpa ∨ L.mainBlkaddr ≤ new.blockAddr.toNat) :
    droppedData L f nid old new = droppedData L g nid old new := by
  unfold droppedData
  by_cases hd : DropsNode L old new
  · have hold := h _ hd.2.2.1.1
    have hrep (i : Nat) : replacingAddr f new.blockAddr i = replacingAddr g new.blockAddr i := by
      unfold replacingAddr
      rcases hnew with hz | hm
      · simp only [hz,ne_eq,not_true_eq_false,false_and,if_false]
      · rw [h _ hm]
    unfold DropsAddr
    simp only [hold,hrep]
  · simp only [hd,false_and,if_false]

theorem natReclaim_congr (h : ∀ lpa, L.mainBlkaddr ≤ lpa → f lpa = g lpa) {es : List NatJournalEntry}
    (hes : ∀ e ∈ es, e.newValue.blockAddr = invalidLpa ∨ L.mainBlkaddr ≤ e.newValue.blockAddr.toNat)
    (nat : UInt32 → RtfsNatEntry) : natReclaim L f nat es = natReclaim L g nat es := by
  unfold natReclaim
  congr 1
  refine List.foldl_ext _ _ _ (fun p e he => ?_)
  unfold natReclaimStep ReclaimRecord.drop
  rw [droppedData_congr h _ (hes e he)]

theorem natHistoryReclaim_congr (h : ∀ lpa, L.mainBlkaddr ≤ lpa → f lpa = g lpa)
    {ess : List (List NatJournalEntry)} (hes : ∀ es ∈ ess, ∀ e ∈ es,
      e.newValue.blockAddr = invalidLpa ∨ L.mainBlkaddr ≤ e.newValue.blockAddr.toNat)
    (nat : UInt32 → RtfsNatEntry) : natHistoryReclaim L f nat ess = natHistoryReclaim L g nat ess := by
  induction ess generalizing nat with
  | nil => rfl
  | cons es ess ih =>
    rw [natHistoryReclaim,natHistoryReclaim,natReclaim_congr h (hes es List.mem_cons_self),
      ih (fun es he => hes es (List.mem_cons_of_mem _ he))]

theorem historyReclaim_eq {d : CommDev} (hL : L.Ok d) (kh : Khash) {js : List JournalContainer}
    (hj : ∀ j ∈ js, j.Loggable L d) (hmain : ∀ j ∈ js, ∀ e ∈ j.natJournal,
      e.newValue.blockAddr = invalidLpa ∨ L.mainBlkaddr ≤ e.newValue.blockAddr.toNat) (m : MetaImage) :
    historyReclaim L kh m js = natHistoryReclaim L m.blocks (natOf L m.blocks)
      (js.map (fun j => natJournalOutputVector j.natJournal)) := by
  induction js generalizing m with
  | nil => rfl
  | cons j js ih =>
    have hlog := hj j List.mem_cons_self
    have hout : ∀ e ∈ natJournalOutputVector j.natJournal, e ∈ j.natJournal := fun e he =>
      (treeOutput_perm NatJournalEntry.nid j.natJournal).mem_iff.mp he
    have hframe : ∀ lpa, L.mainBlkaddr ≤ lpa → (applyContainer L kh m j).blocks lpa = m.blocks lpa := by
      intro lpa hl
      have hsup : SameFrame L m ((superJournalOutputVector kh j.superBlockJournal).foldl MetaImage.putSuper m) :=
        foldl_frame MetaImage.putSuper _ (fun m e he =>
          putSuper_frame m (hlog.super e (superOutput_mem kh _ he)).1) m
      have hnat := foldl_frame (MetaImage.putNat L) _ (fun m e he =>
        putNat_frame hL m (hlog.nats e (hout e he)))
        ((superJournalOutputVector kh j.superBlockJournal).foldl MetaImage.putSuper m)
      have hsit := foldl_frame (MetaImage.putSit L) (sitJournalOutputVector j.sitJournal)
        (fun m e he => putSit_frame hL m
          (hlog.sits e ((treeOutput_perm SitJournalEntry.segID j.sitJournal).mem_iff.mp he)))
        ((natJournalOutputVector j.natJournal).foldl (MetaImage.putNat L)
          ((superJournalOutputVector kh j.superBlockJournal).foldl MetaImage.putSuper m))
      exact ((hsup.trans hnat).trans hsit).outside lpa (Or.inr hl)
    have hnat : natOf L (applyContainer L kh m j).blocks =
        natAfter (natOf L m.blocks) (natJournalOutputVector j.natJournal) := by
      funext nid
      rw [(applyContainer_replayed hL kh hlog m).nats nid,natAfter_eq]
    rw [historyReclaim,List.map_cons,natHistoryReclaim,
      ih (fun j h => hj j (List.mem_cons_of_mem _ h)) (fun j h => hmain j (List.mem_cons_of_mem _ h)),
      hnat]
    congr 1
    refine natHistoryReclaim_congr hframe (fun es hes e he => ?_) _
    obtain ⟨j',hj',rfl⟩ := List.mem_map.mp hes
    exact hmain j' (List.mem_cons_of_mem _ hj') e
      ((treeOutput_perm NatJournalEntry.nid j'.natJournal).mem_iff.mp he)

end Congr

section Members
variable {L : Layout} {f : Nat → Block} {nat : UInt32 → RtfsNatEntry}

theorem reclaimStep_fst (es : List NatJournalEntry) (r : ReclaimRecord) :
    (es.foldl (natReclaimStep L f) (nat,r)).1 = natAfter nat es := by
  induction es generalizing nat r with
  | nil => rfl
  | cons e es ih => exact ih _

theorem natReclaim_snoc (es : List NatJournalEntry) (e : NatJournalEntry) :
    natReclaim L f nat (es ++ [e]) =
      (natReclaim L f nat es).drop L f e.nid (natAfter nat es e.nid) e.newValue := by
  unfold natReclaim
  rw [List.foldl_append,List.foldl_cons,List.foldl_nil,natReclaimStep,reclaimStep_fst]

theorem dropsAt_snoc {es : List NatJournalEntry} {e e' : NatJournalEntry} {k : Nat} {b : Bool}
    {x : UInt32} : DropsAt L f nat (es ++ [e]) k e' b x ↔ DropsAt L f nat es k e' b x ∨
      k = es.length ∧ e' = e ∧ x ∈ if b then droppedData L f e.nid (natAfter nat es e.nid) e.newValue
        else droppedNodes L (natAfter nat es e.nid) e.newValue := by
  rcases Nat.lt_trichotomy k es.length with hk | hk | hk
  · constructor
    · rintro ⟨hentry,hdrop⟩
      rw [List.getElem?_append_left hk] at hentry
      rw [List.take_append_of_le_length (le_of_lt hk)] at hdrop
      exact Or.inl ⟨hentry,hdrop⟩
    · rintro (⟨hentry,hdrop⟩ | ⟨rfl,_⟩)
      · refine ⟨by rw [List.getElem?_append_left hk]; exact hentry,?_⟩
        rw [List.take_append_of_le_length (le_of_lt hk)]
        exact hdrop
      · omega
  · subst hk
    constructor
    · rintro ⟨hentry,hdrop⟩
      rw [List.getElem?_concat_length] at hentry
      cases hentry
      rw [List.take_left'] at hdrop
      · exact Or.inr ⟨rfl,rfl,hdrop⟩
      · rfl
    · rintro (⟨hentry,_⟩ | ⟨_,rfl,hdrop⟩)
      · rw [List.getElem?_eq_none_iff.mpr le_rfl] at hentry
        cases hentry
      · refine ⟨List.getElem?_concat_length,?_⟩
        rw [List.take_left']
        · exact hdrop
        · rfl
  · constructor
    · rintro ⟨hentry,_⟩
      rw [List.getElem?_eq_none_iff.mpr (by simp; omega)] at hentry
      cases hentry
    · rintro (⟨hentry,_⟩ | ⟨rfl,_⟩)
      · rw [List.getElem?_eq_none_iff.mpr (by omega)] at hentry
        cases hentry
      · omega

theorem mem_natReclaim (es : List NatJournalEntry) (x : UInt32) :
    (x ∈ (natReclaim L f nat es).dataLpas ↔ ∃ k e, DropsAt L f nat es k e true x) ∧
      (x ∈ (natReclaim L f nat es).nodeLpas ↔ ∃ k e, DropsAt L f nat es k e false x) := by
  induction es using List.reverseRecOn with
  | nil =>
    constructor
    · refine iff_of_false List.not_mem_nil ?_
      rintro ⟨k,e,⟨hentry,_⟩⟩
      cases hentry
    · refine iff_of_false List.not_mem_nil ?_
      rintro ⟨k,e,⟨hentry,_⟩⟩
      cases hentry
  | append_singleton es e ih =>
    rw [natReclaim_snoc]
    unfold ReclaimRecord.drop
    simp only [dropsAt_snoc]
    rw [mem_appendAll (fun y hy => (droppedData_main hy).1),
      mem_appendAll (fun y hy => (droppedNodes_main hy).1),ih.1,ih.2]
    constructor
    · constructor
      · rintro (⟨k,e',h⟩ | h)
        · exact ⟨k,e',Or.inl h⟩
        · exact ⟨_,_,Or.inr ⟨rfl,rfl,h⟩⟩
      · rintro ⟨k,e',h | ⟨_,_,h⟩⟩
        · exact Or.inl ⟨k,e',h⟩
        · exact Or.inr h
    · constructor
      · rintro (⟨k,e',h⟩ | h)
        · exact ⟨k,e',Or.inl h⟩
        · exact ⟨_,_,Or.inr ⟨rfl,rfl,h⟩⟩
      · rintro ⟨k,e',h | ⟨_,_,h⟩⟩
        · exact Or.inl ⟨k,e',h⟩
        · exact Or.inr h

theorem natReclaim_nodup (es : List NatJournalEntry) :
    (natReclaim L f nat es).dataLpas.Nodup ∧ (natReclaim L f nat es).nodeLpas.Nodup := by
  induction es using List.reverseRecOn with
  | nil => exact ⟨List.nodup_nil,List.nodup_nil⟩
  | append_singleton es e ih =>
    rw [natReclaim_snoc]
    exact ⟨appendAll_nodup ih.1,appendAll_nodup ih.2⟩

theorem mem_lpas (es : List NatJournalEntry) (x : UInt32) :
    x ∈ (natReclaim L f nat es).lpas ↔ ∃ k e b, DropsAt L f nat es k e b x := by
  rw [ReclaimRecord.lpas,List.mem_append,(mem_natReclaim es x).1,(mem_natReclaim es x).2]
  constructor
  · rintro (⟨k,e,h⟩ | ⟨k,e,h⟩)
    · exact ⟨k,e,true,h⟩
    · exact ⟨k,e,false,h⟩
  · rintro ⟨k,e,_ | _,h⟩
    · exact Or.inr ⟨k,e,h⟩
    · exact Or.inl ⟨k,e,h⟩

theorem dropsAt_append (es fs : List NatJournalEntry) {k : Nat} {e : NatJournalEntry} {b : Bool}
    {x : UInt32} : DropsAt L f nat (es ++ fs) k e b x ↔
      DropsAt L f nat es k e b x ∨
        es.length ≤ k ∧ DropsAt L f (natAfter nat es) fs (k - es.length) e b x := by
  rcases Nat.lt_or_ge k es.length with hk | hk
  · have htake : (es ++ fs).take k = es.take k := List.take_append_of_le_length (le_of_lt hk)
    constructor
    · rintro ⟨hentry,hdrop⟩
      rw [List.getElem?_append_left hk] at hentry
      rw [htake] at hdrop
      exact Or.inl ⟨hentry,hdrop⟩
    · rintro (⟨hentry,hdrop⟩ | ⟨hle,_⟩)
      · exact ⟨by rw [List.getElem?_append_left hk]; exact hentry,by rw [htake]; exact hdrop⟩
      · omega
  · have htake : natAfter nat ((es ++ fs).take k) = natAfter (natAfter nat es) (fs.take (k - es.length)) := by
      rw [List.take_append,List.take_of_length_le hk,natAfter_append]
    constructor
    · rintro ⟨hentry,hdrop⟩
      rw [List.getElem?_append_right hk] at hentry
      rw [htake] at hdrop
      exact Or.inr ⟨hk,hentry,hdrop⟩
    · rintro (⟨hentry,_⟩ | ⟨_,hentry,hdrop⟩)
      · rw [List.getElem?_eq_none_iff.mpr hk] at hentry
        cases hentry
      · exact ⟨by rw [List.getElem?_append_right hk]; exact hentry,by rw [htake]; exact hdrop⟩

theorem mem_historyReclaim (ess : List (List NatJournalEntry)) (x : UInt32) :
    x ∈ (natHistoryReclaim L f nat ess).flatMap ReclaimRecord.lpas ↔
      ∃ k e b, DropsAt L f nat ess.flatten k e b x := by
  induction ess generalizing nat with
  | nil =>
    refine iff_of_false List.not_mem_nil ?_
    rintro ⟨k,e,b,⟨hentry,_⟩⟩
    cases hentry
  | cons es ess ih =>
    rw [natHistoryReclaim,List.flatMap_append,flatMap_toList,List.mem_append,mem_lpas,ih,
      List.flatten_cons]
    simp only [dropsAt_append]
    constructor
    · rintro (⟨k,e,b,h⟩ | ⟨k,e,b,h⟩)
      · exact ⟨k,e,b,Or.inl h⟩
      · refine ⟨k + es.length,e,b,Or.inr ⟨Nat.le_add_left _ _,?_⟩⟩
        rwa [Nat.add_sub_cancel]
    · rintro ⟨k,e,b,h | ⟨_,h⟩⟩
      · exact Or.inl ⟨k,e,b,h⟩
      · exact Or.inr ⟨_,e,b,h⟩

theorem historyReclaim_nodup (ess : List (List NatJournalEntry))
    (h : ∀ k k' e e' b b' x, DropsAt L f nat ess.flatten k e b x →
      DropsAt L f nat ess.flatten k' e' b' x → k = k' ∧ b = b') :
    ((natHistoryReclaim L f nat ess).flatMap ReclaimRecord.lpas).Nodup := by
  induction ess generalizing nat with
  | nil => exact List.nodup_nil
  | cons es ess ih =>
    rw [List.flatten_cons] at h
    simp only [dropsAt_append] at h
    rw [natHistoryReclaim,List.flatMap_append,flatMap_toList]
    refine List.Nodup.append ?_ (ih (fun k k' e e' b b' x h1 h2 => ?_)) (fun x hx hx' => ?_)
    · have hnd : (natReclaim L f nat es).dataLpas.Nodup ∧ (natReclaim L f nat es).nodeLpas.Nodup :=
        natReclaim_nodup es
      obtain ⟨hdata,hnode⟩ := hnd
      refine List.Nodup.append hdata hnode (fun x hx hx' => ?_)
      obtain ⟨k,e,hk⟩ := (mem_natReclaim es x).1.mp hx
      obtain ⟨k',e',hk'⟩ := (mem_natReclaim es x).2.mp hx'
      exact Bool.noConfusion (h k k' e e' true false x (Or.inl hk) (Or.inl hk')).2
    · obtain ⟨hk,hb⟩ := h (k + es.length) (k' + es.length) e e' b b' x
        (Or.inr ⟨Nat.le_add_left _ _,by rwa [Nat.add_sub_cancel]⟩)
        (Or.inr ⟨Nat.le_add_left _ _,by rwa [Nat.add_sub_cancel]⟩)
      exact ⟨by omega,hb⟩
    · obtain ⟨k,e,b,hk⟩ := (mem_lpas es x).mp hx
      obtain ⟨k',e',b',hk'⟩ := (mem_historyReclaim ess x).mp hx'
      have hlt : k < es.length := (List.getElem?_eq_some_iff.mp hk.entry).1
      have heq := (h k (k' + es.length) e e' b b' x (Or.inl hk)
        (Or.inr ⟨Nat.le_add_left _ _,by rwa [Nat.add_sub_cancel]⟩)).1
      omega

end Members

end Rtfs
