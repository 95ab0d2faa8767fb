import Rtfs.Fs.IndexTree

namespace Rtfs

structure KeepsMapped (nat nat' : UInt32 → RtfsNatEntry) (f : Nat → Block) : Prop where
  data : ∀ x, NodeMaps nat f x → Referenced nat' f x
  nodes : ∀ ino k nid, LiveInode nat f ino → IndexNode nat f ino k nid →
    Referenced nat' f (nat nid).blockAddr ∨ (nat' nid).blockAddr ≠ (nat nid).blockAddr
  inodes : ∀ ino, LiveInode nat f ino → LiveInode nat' f ino ∨
    (nat' ino).blockAddr ≠ (nat ino).blockAddr ∧ ∀ i x, MapsAddr f (nat ino) i x → ¬ MapsAddr f (nat' ino) i x

theorem natOutput_mem {e : NatJournalEntry} {es : List NatJournalEntry} :
    e ∈ natJournalOutputVector es ↔ e ∈ es := (treeOutput_perm NatJournalEntry.nid es).mem_iff

theorem natAfter_cons (nat : UInt32 → RtfsNatEntry) (e : NatJournalEntry) (es : List NatJournalEntry) :
    natAfter nat (e :: es) = natAfter (Function.update nat e.nid e.newValue) es := rfl

section Leaves
variable {L : Layout} {f : Nat → Block} {nat : UInt32 → RtfsNatEntry} {es : List NatJournalEntry}
variable {nid x : UInt32}

theorem natAfter_leaves {P : RtfsNatEntry → Prop} (h : P (nat nid)) (h' : ¬ P (natAfter nat es nid)) :
    ∃ k e, es[k]? = some e ∧ e.nid = nid ∧ P (natAfter nat (es.take k) nid) ∧ ¬ P e.newValue := by
  induction es using List.reverseRecOn with
  | nil => exact absurd h h'
  | append_singleton es e ih =>
    by_cases hp : P (natAfter nat es nid)
    · have hstep : natAfter nat (es ++ [e]) nid = Function.update (natAfter nat es) e.nid e.newValue nid := by
        rw [natAfter_append]
        rfl
      rw [hstep] at h'
      by_cases he : nid = e.nid
      · subst he
        rw [Function.update_self] at h'
        refine ⟨es.length,e,List.getElem?_concat_length,rfl,?_,h'⟩
        rwa [List.take_left' rfl]
      · rw [Function.update_of_ne he] at h'
        exact absurd hp h'
    · obtain ⟨k,e',hk,hnid,hbefore,hafter⟩ := ih hp
      have hlt : k < es.length := (List.getElem?_eq_some_iff.mp hk).1
      refine ⟨k,e',?_,hnid,?_,hafter⟩
      · rwa [List.getElem?_append_left hlt]
      · rwa [List.take_append_of_le_length (le_of_lt hlt)]

theorem node_reclaimed (hmain : InMainArea L x) (hz : x ≠ invalidLpa)
    (hino : ∀ e ∈ es, e.newValue.ino ≠ invalidNid) (hn : (nat nid).ino ≠ invalidNid)
    (hx : (nat nid).blockAddr = x) (h' : (natAfter nat es nid).blockAddr ≠ x) :
    x ∈ (natReclaim L f nat es).lpas := by
  obtain ⟨k,e,hk,rfl,⟨hne,haddr⟩,hlost⟩ := natAfter_leaves
    (P := fun v => v.ino ≠ invalidNid ∧ v.blockAddr = x) ⟨hn,hx⟩ (fun hp => h' hp.2)
  have hnew : x ≠ e.newValue.blockAddr := fun he => hlost ⟨hino e (List.mem_of_getElem? hk),he.symm⟩
  refine (mem_lpas es x).mpr ⟨k,e,false,hk,?_⟩
  have hdrop : DropsNode L (natAfter nat (es.take k) e.nid) e.newValue := by
    refine ⟨hne,?_,?_,?_⟩
    all_goals rw [haddr]
    all_goals assumption
  change x ∈ droppedNodes L _ _
  unfold droppedNodes
  rw [if_pos hdrop,haddr]
  exact List.mem_singleton_self x

theorem addr_reclaimed {i : Nat} (hmain : InMainArea L x) (hnid : nid ≠ invalidNid)
    (howner : ∀ e ∈ es, e.nid = nid → e.newValue.ino = nid)
    (hnew : ∀ e ∈ es, e.newValue.blockAddr = invalidLpa ∨ InMainArea L e.newValue.blockAddr)
    (hn : (nat nid).ino = nid) (hold : InMainArea L (nat nid).blockAddr) (hx : MapsAddr f (nat nid) i x)
    (h' : ¬ MapsAddr f (natAfter nat es nid) i x) : x ∈ (natReclaim L f nat es).lpas := by
  obtain ⟨k,e,hk,rfl,⟨hino,hblk,hmap⟩,hlost⟩ := natAfter_leaves
    (P := fun v => v.ino = nid ∧ InMainArea L v.blockAddr ∧ MapsAddr f v i x) ⟨hn,hold,hx⟩
    (fun hp => h' hp.2.2)
  have he := List.mem_of_getElem? hk
  have hunmapped : ¬ MapsAddr f e.newValue i x := fun hp =>
    hlost ⟨howner e he rfl,(hnew e he).resolve_left hp.placed,hp⟩
  have hmoved : (natAfter nat (es.take k) e.nid).blockAddr ≠ e.newValue.blockAddr := by
    intro heq
    refine hunmapped ⟨hmap.index,heq ▸ hmap.placed,?_,?_,hmap.valid⟩
    · rw [RtfsNatEntry.block,← heq]
      exact hmap.regular
    · rw [RtfsNatEntry.block,← heq]
      exact hmap.addr
  have hgone : x ≠ replacingAddr f e.newValue.blockAddr i := by
    intro heq
    unfold replacingAddr at heq
    split at heq
    · rename_i hc
      exact hunmapped ⟨hmap.index,hc.1,hc.2,heq.symm,hmap.valid⟩
    · exact hmap.valid heq
  have haddr : inodeAddr (f (natAfter nat (es.take k) e.nid).blockAddr.toNat) i = x := hmap.addr
  have hdrop : DropsNode L (natAfter nat (es.take k) e.nid) e.newValue := by
    refine ⟨?_,hmap.placed,hblk,hmoved⟩
    rw [hino]
    exact hnid
  refine (mem_lpas es x).mpr ⟨k,e,true,hk,?_⟩
  change x ∈ droppedData L f _ _ _
  unfold droppedData
  rw [if_pos ⟨hdrop,hino,hmap.regular⟩]
  refine List.mem_map.mpr ⟨i,List.mem_filter.mpr ⟨List.mem_range.mpr hmap.index,?_⟩,haddr⟩
  apply decide_eq_true
  unfold DropsAddr
  rw [haddr]
  exact ⟨hmap.valid,hgone,hmain⟩

structure OwnedUpdates (L : Layout) (nat : UInt32 → RtfsNatEntry) (f : Nat → Block)
    (es : List NatJournalEntry) : Prop where
  ino : ∀ e ∈ es, e.newValue.ino ≠ invalidNid
  addr : ∀ e ∈ es, e.newValue.blockAddr = invalidLpa ∨ InMainArea L e.newValue.blockAddr
  owner : ∀ e ∈ es, LiveInode nat f e.nid → e.newValue.ino = e.nid

def InMain (L : Layout) (nat : UInt32 → RtfsNatEntry) : Prop :=
  ∀ nid, (nat nid).ino ≠ invalidNid → (nat nid).blockAddr ≠ invalidLpa → InMainArea L (nat nid).blockAddr

theorem unreferenced_reclaimed (hes : OwnedUpdates L nat f es) (hin : InMain L nat)
    (hkeep : KeepsMapped nat (natAfter nat es) f) (hmain : InMainArea L x) (hx : Referenced nat f x)
    (h' : ¬ Referenced (natAfter nat es) f x) : x ∈ (natReclaim L f nat es).lpas := by
  have hlive {ino : UInt32} (h : LiveInode nat f ino) : (nat ino).ino ≠ invalidNid := by
    rw [h.owned]
    exact h.nonzero
  cases hx with
  | @inode ino h hx =>
    refine node_reclaimed hmain (hx ▸ h.placed) hes.ino (hlive h) hx (fun hsame => ?_)
    rcases hkeep.inodes ino h with hl | ⟨hmoved,_⟩
    · exact h' (.inode hl hsame)
    · exact hmoved (hsame.trans hx.symm)
  | @inodeAddr ino i h hx =>
    refine addr_reclaimed hmain h.nonzero (fun e he hn => ?_) hes.addr h.owned
      (hin ino (hlive h) h.placed) hx (fun hmap => ?_)
    · have ho := hes.owner e he
      rw [hn] at ho
      exact ho h
    · rcases hkeep.inodes ino h with hl | ⟨_,hgone⟩
      · exact h' (.inodeAddr hl hmap)
      · exact hgone i x hx hmap
  | @node ino nid k h hn hx =>
    refine node_reclaimed hmain (hx ▸ hn.placedNode.placed) hes.ino hn.placedNode.allocated hx
      (fun hsame => ?_)
    rcases hkeep.nodes ino k nid h hn with href | hmoved
    · rw [hx] at href
      exact h' href
    · exact hmoved (hsame.trans hx.symm)
  | nodeAddr h => exact absurd (hkeep.data x h) h'

end Leaves

section Views
variable {L : Layout} {f : Nat → Block} {nat nat' : UInt32 → RtfsNatEntry} {d : CommDev}

theorem natReclaim_agree {es : List NatJournalEntry} (hes : ∀ e ∈ es, NidInRange L e.nid)
    (h : ∀ nid, NidInRange L nid → nat nid = nat' nid) : natReclaim L f nat es = natReclaim L f nat' es := by
  unfold natReclaim
  generalize (⟨[],[]⟩ : ReclaimRecord) = r
  induction es generalizing nat nat' r with
  | nil => rfl
  | cons e es ih =>
    have hin := h e.nid (hes e List.mem_cons_self)
    rw [List.foldl_cons,List.foldl_cons,natReclaimStep,natReclaimStep]
    dsimp only
    rw [hin]
    refine ih (fun e' he => hes e' (List.mem_cons_of_mem _ he)) (fun nid hn => ?_) _
    by_cases he : nid = e.nid
    · rw [he,Function.update_self,Function.update_self]
    · rw [Function.update_of_ne he,Function.update_of_ne he,h nid hn]

theorem natAfter_agree {es : List NatJournalEntry} (h : ∀ nid, NidInRange L nid → nat nid = nat' nid)
    {nid : UInt32} (hn : NidInRange L nid) : natAfter nat es nid = natAfter nat' es nid := by
  rw [natAfter_eq,natAfter_eq,h nid hn]

theorem natHistoryReclaim_agree {ess : List (List NatJournalEntry)}
    (hes : ∀ es ∈ ess, ∀ e ∈ es, NidInRange L e.nid)
    (h : ∀ nid, NidInRange L nid → nat nid = nat' nid) :
    natHistoryReclaim L f nat ess = natHistoryReclaim L f nat' ess := by
  induction ess generalizing nat nat' with
  | nil => rfl
  | cons es ess ih =>
    rw [natHistoryReclaim,natHistoryReclaim,natReclaim_agree (hes es List.mem_cons_self) h,
      ih (fun es he => hes es (List.mem_cons_of_mem _ he)) (fun nid hn => natAfter_agree h hn)]

theorem natAfter_cases (nat : UInt32 → RtfsNatEntry) (es : List NatJournalEntry) (nid : UInt32) :
    natAfter nat es nid = nat nid ∨ ∃ e ∈ es, e.nid = nid ∧ natAfter nat es nid = e.newValue := by
  induction es generalizing nat with
  | nil => exact Or.inl rfl
  | cons e es ih =>
    rw [natAfter_cons]
    rcases ih (Function.update nat e.nid e.newValue) with h | ⟨e',he,hn,h⟩
    · by_cases he : nid = e.nid
      · rw [he,Function.update_self] at h
        exact Or.inr ⟨e,List.mem_cons_self,he.symm,he ▸ h⟩
      · rw [Function.update_of_ne he] at h
        exact Or.inl h
    · exact Or.inr ⟨e',List.mem_cons_of_mem _ he,hn,h⟩

theorem reclaimed_owned {ess : List (List NatJournalEntry)} {x : UInt32}
    (hx : x ∈ (natHistoryReclaim L f nat ess).flatMap ReclaimRecord.lpas) :
    ∃ nid v, (v = nat nid ∨ ∃ e ∈ ess.flatten, e.nid = nid ∧ v = e.newValue) ∧ v.ino ≠ invalidNid ∧
      (v.blockAddr = x ∨ v.ino = nid ∧ ∃ i, MapsAddr f v i x) := by
  obtain ⟨k,e,b,_,hdrop⟩ := (mem_historyReclaim ess x).mp hx
  refine ⟨e.nid,natAfter nat (ess.flatten.take k) e.nid,?_,?_⟩
  · refine (natAfter_cases nat _ e.nid).imp_right ?_
    rintro ⟨e',he,hn,hv⟩
    exact ⟨e',List.mem_of_mem_take he,hn,hv⟩
  · cases b with
    | false =>
      change x ∈ droppedNodes L _ _ at hdrop
      unfold droppedNodes at hdrop
      split at hdrop
      · rename_i hd
        exact ⟨hd.1,Or.inl (List.mem_singleton.mp hdrop).symm⟩
      · cases hdrop
    | true =>
      change x ∈ droppedData L f _ _ _ at hdrop
      unfold droppedData at hdrop
      split at hdrop
      · rename_i hd
        obtain ⟨i,hi,rfl⟩ := List.mem_map.mp hdrop
        obtain ⟨hi,hda⟩ := List.mem_filter.mp hi
        exact ⟨hd.1.1,Or.inr ⟨hd.2.1,i,List.mem_range.mp hi,hd.1.2.1,hd.2.2,rfl,
          (of_decide_eq_true hda).1⟩⟩
      · cases hdrop

theorem mem_history_of_tx {ess : List (List NatJournalEntry)} {k : Nat} {es : List NatJournalEntry}
    {x : UInt32} (hk : ess[k]? = some es)
    (hx : x ∈ (natReclaim L f (natAfter nat (ess.take k).flatten) es).lpas) :
    x ∈ (natHistoryReclaim L f nat ess).flatMap ReclaimRecord.lpas := by
  induction ess generalizing nat k with
  | nil => cases hk
  | cons es' ess ih =>
    rw [natHistoryReclaim,List.flatMap_append,flatMap_toList,List.mem_append]
    cases k with
    | zero =>
      cases hk
      exact Or.inl hx
    | succ k =>
      rw [List.take_succ_cons,List.flatten_cons,natAfter_append] at hx
      exact Or.inr (ih hk hx)

theorem natView_apply (hL : L.Ok d) (kh : Khash) {j : JournalContainer} (hj : j.Loggable L d)
    (m : MetaImage) : natView L (applyContainer L kh m j).blocks =
      natAfter (natView L m.blocks) (natJournalOutputVector j.natJournal) := by
  funext nid
  have hrep := (applyContainer_replayed hL kh hj m).nats nid
  rw [natAfter_eq]
  by_cases hn : NidInRange L nid
  · rw [natView_eq hn,natView_eq hn,hrep]
  · have hnone : lastEntry NatJournalEntry.nid nid (natJournalOutputVector j.natJournal) = none := by
      apply lastEntry_eq_none
      intro hm
      obtain ⟨e,he,rfl⟩ := List.mem_map.mp hm
      exact hn (hj.nats e (natOutput_mem.mp he)).1
    rw [hnone,natView,natView,if_neg hn,if_neg hn]
    rfl

theorem natView_history (hL : L.Ok d) (kh : Khash) {js : List JournalContainer}
    (hj : ∀ j ∈ js, j.Loggable L d) (m : MetaImage) : natView L (js.foldl (applyContainer L kh) m).blocks =
      natAfter (natView L m.blocks) (js.map (fun j => natJournalOutputVector j.natJournal)).flatten := by
  induction js generalizing m with
  | nil => rfl
  | cons j js ih =>
    rw [List.foldl_cons,ih (fun j h => hj j (List.mem_cons_of_mem _ h)),
      natView_apply hL kh (hj j List.mem_cons_self),List.map_cons,List.flatten_cons,natAfter_append]

end Views

def natAt (L : Layout) (kh : Khash) (d : CommDev) (js : List JournalContainer) (k : Nat) :
    UInt32 → RtfsNatEntry :=
  natView L ((js.take k).foldl (applyContainer L kh) ⟨d.blocks 0,d.blocks⟩).blocks

section History
variable {L : Layout} {kh : Khash} {d : CommDev} {js : List JournalContainer} {f : Nat → Block}

theorem natAt_eq (hL : L.Ok d) (hj : ∀ j ∈ js, j.Loggable L d) (k : Nat) : natAt L kh d js k =
    natAfter (natView L d.blocks)
      ((js.map (fun j => natJournalOutputVector j.natJournal)).take k).flatten := by
  rw [natAt,natView_history hL kh (fun j h => hj j (List.mem_of_mem_take h)),List.map_take]

theorem natAt_zero : natAt L kh d js 0 = natView L d.blocks := rfl

theorem natAt_succ (hL : L.Ok d) (hj : ∀ j ∈ js, j.Loggable L d) {k : Nat} {j : JournalContainer}
    (hk : js[k]? = some j) :
    natAt L kh d js (k + 1) = natAfter (natAt L kh d js k) (natJournalOutputVector j.natJournal) := by
  have htake : js.take (k + 1) = js.take k ++ [j] := by
    rw [List.take_add_one,hk]
    rfl
  rw [natAt,natAt,htake,List.foldl_append,List.foldl_cons,List.foldl_nil]
  exact natView_apply hL kh (hj j (List.mem_of_getElem? hk)) _

theorem inMain_after {nat : UInt32 → RtfsNatEntry} {es : List NatJournalEntry} (h : InMain L nat)
    (hes : ∀ e ∈ es, e.newValue.blockAddr = invalidLpa ∨ InMainArea L e.newValue.blockAddr) :
    InMain L (natAfter nat es) := by
  induction es generalizing nat with
  | nil => exact h
  | cons e es ih =>
    rw [natAfter_cons]
    refine ih (fun nid => ?_) (fun e' he => hes e' (List.mem_cons_of_mem _ he))
    by_cases hn : nid = e.nid
    · rw [hn,Function.update_self]
      exact fun _ hz => (hes e List.mem_cons_self).resolve_left hz
    · rw [Function.update_of_ne hn]
      exact h nid

theorem inMain_natAt (hL : L.Ok d) (hj : ∀ j ∈ js, j.Loggable L d) (h : InMain L (natView L d.blocks))
    (hes : ∀ j ∈ js, ∀ e ∈ j.natJournal,
      e.newValue.blockAddr = invalidLpa ∨ InMainArea L e.newValue.blockAddr) (k : Nat) :
    InMain L (natAt L kh d js k) := by
  rw [natAt_eq hL hj]
  refine inMain_after h (fun e he => ?_)
  obtain ⟨es,hes',he⟩ := List.mem_flatten.mp he
  obtain ⟨j,hjm,rfl⟩ := List.mem_map.mp (List.mem_of_mem_take hes')
  exact hes j hjm e (natOutput_mem.mp he)

theorem exists_lost {P : Nat → Prop} {k n : Nat} (hk : k ≤ n) (h : P k) (h' : ¬ P n) :
    ∃ i, i < n ∧ P i ∧ ¬ P (i + 1) := by
  induction n, hk using Nat.le_induction with
  | base => exact absurd h h'
  | succ n _ ih =>
    by_cases hn : P n
    · exact ⟨n,Nat.lt_succ_self n,hn,h'⟩
    · obtain ⟨i,hi,hp⟩ := ih hn
      exact ⟨i,Nat.lt_succ_of_lt hi,hp⟩

theorem lost_reclaimed (hL : L.Ok d) (hj : ∀ j ∈ js, j.Loggable L d)
    (hin : InMain L (natView L d.blocks))
    (hes : ∀ k j, js[k]? = some j → OwnedUpdates L (natAt L kh d js k) f j.natJournal)
    (hkeep : ∀ k < js.length, KeepsMapped (natAt L kh d js k) (natAt L kh d js (k + 1)) f) {k : Nat}
    (hk : k ≤ js.length) {x : UInt32} (hmain : InMainArea L x) (hx : Referenced (natAt L kh d js k) f x)
    (h' : ¬ Referenced (natAt L kh d js js.length) f x) :
    x ∈ (natHistoryReclaim L f (natView L d.blocks)
      (js.map (fun j => natJournalOutputVector j.natJournal))).flatMap ReclaimRecord.lpas := by
  obtain ⟨i,hi,hbefore,hafter⟩ := exists_lost (P := fun k => Referenced (natAt L kh d js k) f x) hk hx h'
  have hget : js[i]? = some js[i] := List.getElem?_eq_getElem hi
  have hown := hes i _ hget
  have hstep := hkeep i hi
  rw [natAt_succ hL hj hget] at hafter hstep
  have hmains : InMain L (natAt L kh d js i) := by
    refine inMain_natAt hL hj hin (fun j hjm e he => ?_) i
    obtain ⟨n,hn⟩ := List.getElem?_of_mem hjm
    exact (hes n j hn).addr e he
  have hrec := unreferenced_reclaimed ⟨fun e he => hown.ino e (natOutput_mem.mp he),
    fun e he => hown.addr e (natOutput_mem.mp he),fun e he => hown.owner e (natOutput_mem.mp he)⟩
    hmains hstep hmain hbefore hafter
  rw [natAt_eq hL hj] at hrec
  refine mem_history_of_tx ?_ hrec
  rw [List.getElem?_map,hget]
  rfl

end History

end Rtfs
