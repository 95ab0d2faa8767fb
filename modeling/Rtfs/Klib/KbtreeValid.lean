import Rtfs.Klib.KbtreeErase

namespace Kbtree
variable {κ ι : Type} {h t : Nat}

section Put

theorem filled_set {x : Node κ (h + 1)} (hx : Filled t (h + 1) x) (i : Nat) {c : Node κ h}
    (hc : t - 1 ≤ size h c ∧ Filled t h c) : Filled t (h + 1) ((x.1,x.2.set i c) : Node κ (h + 1)) := by
  refine ⟨hx.1,by simpa using hx.2.1,fun d hd => ?_⟩
  rcases List.mem_or_eq_of_mem_set hd with hd | rfl
  · exact hx.2.2 d hd
  · exact hc

theorem split_sizes (ht : 2 ≤ t) {y : Node κ h} (hy : Filled t h y) (hfull : size h y = 2 * t - 1) :
    (size h (splitLeft t h y) = t - 1 ∧ Filled t h (splitLeft t h y)) ∧
      size h (splitRight t h y) = t - 1 ∧ Filled t h (splitRight t h y) := by
  cases h with
  | zero =>
    have hfull' : (keys 0 y).length = 2 * t - 1 := hfull
    have hleft : ((keys 0 y).take (t - 1)).length = t - 1 := by
      rw [List.length_take]
      omega
    have hright : ((keys 0 y).drop t).length = t - 1 := by
      rw [List.length_drop]
      omega
    refine ⟨⟨hleft,?_⟩,hright,?_⟩
    · change ((keys 0 y).take (t - 1)).length ≤ _
      omega
    · change ((keys 0 y).drop t).length ≤ _
      omega
  | succ h =>
    have hfull' : y.1.length = 2 * t - 1 := hfull
    obtain ⟨-,hlen,hcs⟩ := hy
    have hleft : (y.1.take (t - 1)).length = t - 1 := by
      rw [List.length_take]
      omega
    have hright : (y.1.drop t).length = t - 1 := by
      rw [List.length_drop]
      omega
    refine ⟨⟨hleft,?_,?_,fun c hc => hcs c (List.mem_of_mem_take hc)⟩,
      hright,?_,?_,fun c hc => hcs c (List.mem_of_mem_drop hc)⟩
    · change (y.1.take (t - 1)).length ≤ _
      omega
    · change (y.2.take t).length = (y.1.take (t - 1)).length + 1
      rw [hleft,List.length_take]
      omega
    · change (y.1.drop t).length ≤ _
      omega
    · change (y.2.drop t).length = (y.1.drop t).length + 1
      rw [hright,List.length_drop]
      omega

theorem kbSplit_filled (ht : 2 ≤ t) {x : Node κ (h + 1)} {i : Nat} {y : Node κ h} (hx : Filled t (h + 1) x)
    (hlt : x.1.length < 2 * t - 1) (hy : x.2[i]? = some y) (hfull : size h y = 2 * t - 1) :
    Filled t (h + 1) (kbSplit t x i y) ∧ (kbSplit t x i y).1.length = x.1.length + 1 ∧
      (kbSplit t x i y).2 = x.2.take i ++ splitLeft t h y :: splitRight t h y :: x.2.drop (i + 1) ∧ i < x.2.length := by
  obtain ⟨m,-,he,-⟩ := kbSplit_spec t ht x i y (hx.shape ht) hy hfull
  obtain ⟨hi,hget⟩ := List.getElem?_eq_some_iff.mp hy
  obtain ⟨hle,hlen,hcs⟩ := hx
  obtain ⟨⟨hls,hlf⟩,hrs,hrf⟩ := split_sizes ht (hcs y (hget ▸ List.getElem_mem hi)).2 hfull
  rw [he]
  have hkeys : (x.1.take i ++ m :: x.1.drop i).length = x.1.length + 1 := by
    simp only [List.length_append,List.length_cons,List.length_take,List.length_drop]
    omega
  refine ⟨⟨?_,?_,fun c hc => ?_⟩,hkeys,rfl,hi⟩
  · dsimp only
    omega
  · dsimp only
    rw [hkeys]
    simp only [List.length_append,List.length_cons,List.length_take,List.length_drop]
    omega
  · simp only [List.mem_append,List.mem_cons] at hc
    rcases hc with hc | rfl | rfl | hc
    · exact hcs c (List.mem_of_mem_take hc)
    · exact ⟨by omega,hlf⟩
    · exact ⟨by omega,hrf⟩
    · exact hcs c (List.mem_of_mem_drop hc)

variable [LinearOrder ι] (key : κ → ι)

theorem route_filled (ht : 2 ≤ t) (k : ι) {x : Node κ (h + 1)} (hx : Filled t (h + 1) x)
    (hlt : x.1.length < 2 * t - 1) :
    Filled t (h + 1) (route key t k x).1 ∧ x.1.length ≤ (route key t k x).1.1.length ∧
      ∀ z, (route key t k x).1.2[(route key t k x).2]? = some z → size h z < 2 * t - 1 := by
  unfold route
  cases hy : x.2[slot key x.1 k]? with
  | none =>
    simp only [hy]
    exact ⟨hx,le_rfl,fun z hz => nomatch hz⟩
  | some y =>
    have hyf := (hx.2.2 y (List.mem_of_getElem? hy)).2
    simp only [hy]
    by_cases hfull : (keys h y).length = 2 * t - 1
    · rw [if_pos hfull]
      obtain ⟨hf,hlen,hcs,hi⟩ := kbSplit_filled ht hx hlt hy hfull
      obtain ⟨⟨hls,-⟩,hrs,-⟩ := split_sizes ht hyf hfull
      refine ⟨hf,by dsimp only; omega,fun z hz => ?_⟩
      have htake : (x.2.take (slot key x.1 k)).length = slot key x.1 k := List.length_take_of_le hi.le
      dsimp only at hz
      rw [hcs] at hz
      split at hz
      · rw [get_cut_succ htake] at hz
        obtain rfl := Option.some.inj hz
        omega
      · rw [get_cut htake] at hz
        obtain rfl := Option.some.inj hz
        omega
    · rw [if_neg hfull]
      refine ⟨hx,le_rfl,fun z hz => ?_⟩
      obtain rfl := Option.some.inj (hy.symm.trans hz)
      exact lt_of_le_of_ne hyf.le hfull

theorem putpAux_filled (ht : 2 ≤ t) (a : κ) (h : Nat) (x : Node κ h) (hx : Filled t h x) (hlt : size h x < 2 * t - 1) :
    Filled t h (putpAux key t a h x) ∧ size h x ≤ size h (putpAux key t a h x) := by
  induction h with
  | zero =>
    have hlen : ((keys 0 x).take (slot key (keys 0 x) (key a)) ++
        a :: (keys 0 x).drop (slot key (keys 0 x) (key a))).length = (keys 0 x).length + 1 := by
      simp only [List.length_append,List.length_cons,List.length_take,List.length_drop]
      omega
    have hput : size 0 (putpAux key t a 0 x) = size 0 x + 1 := hlen
    refine ⟨?_,by omega⟩
    change size 0 (putpAux key t a 0 x) ≤ _
    omega
  | succ h ih =>
    obtain ⟨hf,hle,hz⟩ := route_filled key ht (key a) hx hlt
    unfold putpAux
    simp only
    cases hc : (route key t (key a) x).1.2[(route key t (key a) x).2]? with
    | none => exact ⟨hf,hle⟩
    | some z =>
      obtain ⟨hmin,hzf⟩ := hf.2.2 z (List.mem_of_getElem? hc)
      obtain ⟨hf',hle'⟩ := ih z hzf (hz z hc)
      exact ⟨filled_set hf _ ⟨by omega,hf'⟩,hle⟩

theorem growRoot_filled (ht : 2 ≤ t) {b : Tree κ} (hb : Filled t b.height b.root) :
    Filled t (growRoot t b).height (growRoot t b).root ∧
      size (growRoot t b).height (growRoot t b).root < 2 * t - 1 := by
  unfold growRoot
  by_cases hfull : (keys b.height b.root).length = 2 * t - 1
  · rw [if_pos hfull]
    have hroot : Filled t (b.height + 1) (([],[b.root]) : Node κ (b.height + 1)) := by
      refine ⟨Nat.zero_le _,rfl,fun c hc => ?_⟩
      rw [List.mem_singleton.mp hc]
      exact ⟨by change _ ≤ (keys b.height b.root).length; omega,hb⟩
    obtain ⟨hf,hlen,-⟩ := kbSplit_filled (i := 0) ht hroot (by change 0 < _; omega) rfl hfull
    refine ⟨hf,?_⟩
    change (kbSplit t (([],[b.root]) : Node κ (b.height + 1)) 0 b.root).1.length < _
    rw [hlen]
    change 0 + 1 < _
    omega
  · rw [if_neg hfull]
    exact ⟨hb,lt_of_le_of_ne hb.le hfull⟩

end Put

section Valid
variable [LinearOrder ι] (key : κ → ι)

structure Tree.Valid (t : Nat) (b : Tree κ) : Prop where
  ok : b.Ok key
  filled : Filled t b.height b.root
  strict : Strict key b.inorder

theorem kbInit_valid (t : Nat) : (kbInit : Tree κ).Valid key t := ⟨kbInit_ok key,Nat.zero_le _,List.Pairwise.nil⟩

variable {key} {b : Tree κ} {a k : κ}

theorem Tree.Valid.put (hb : b.Valid key t) (ht : 2 ≤ t) (hnew : ∀ c ∈ b.inorder, key c ≠ key a) :
    (kbPutp key t b a).Valid key t ∧ ∃ l r, b.inorder = l ++ r ∧ (kbPutp key t b a).inorder = l ++ a :: r := by
  obtain ⟨hok,l,r,hl,hr,-⟩ := kbPutp_spec key t ht b a hb.ok
  obtain ⟨hf,hlt⟩ := growRoot_filled ht hb.filled
  refine ⟨⟨hok,(putpAux_filled key ht a _ _ hf hlt).1,?_⟩,l,r,hl,hr⟩
  have hsorted := hok.sorted
  have hstrict := hb.strict
  rw [hr] at hsorted ⊢
  rw [hl] at hstrict hnew
  obtain ⟨-,hcons,hcross⟩ := List.pairwise_append.mp hsorted
  refine strict_cut.mpr ⟨hstrict,fun c hc => ?_,fun c hc => ?_⟩
  · exact lt_of_le_of_ne (hcross c hc a List.mem_cons_self) (hnew c (List.mem_append_left _ hc))
  · exact lt_of_le_of_ne ((List.pairwise_cons.mp hcons).1 c hc) (hnew c (List.mem_append_right _ hc)).symm

theorem without_length {l : List κ} (hs : Strict key l) (ha : a ∈ l) :
    (without key (key a) l).length + 1 = l.length := by
  obtain ⟨l₁,l₂,rfl⟩ := List.append_of_mem ha
  rw [without_cut hs]
  simp only [List.length_append,List.length_cons]
  omega

theorem dropRoot_valid (ht : 2 ≤ t) (hshape : Filled t b.height b.root) (hs : Strict key b.inorder)
    (hn : b.inorder.length = b.nKeys) : (dropRoot b).Valid key t ∧ (dropRoot b).inorder = b.inorder := by
  obtain ⟨h,x,n⟩ := b
  cases h with
  | zero => exact ⟨⟨⟨trivial,hs.sorted,hn,fun h0 => absurd rfl h0⟩,hshape,hs⟩,rfl⟩
  | succ h =>
    obtain ⟨ks,cs⟩ := x
    have hlen : cs.length = ks.length + 1 := hshape.2.1
    cases ks with
    | cons m ks => exact ⟨⟨⟨hshape.shape ht,hs.sorted,hn,fun _ => List.cons_ne_nil _ _⟩,hshape,hs⟩,rfl⟩
    | nil =>
      obtain ⟨c,rest,rfl⟩ := List.exists_cons_of_length_eq_add_one hlen
      obtain rfl : rest = [] := List.length_eq_zero_iff.mp (Nat.succ.inj hlen)
      have hsame : (⟨h + 1,([],[c]),n⟩ : Tree κ).inorder = inorder h c := List.append_nil _
      obtain ⟨hmin,hf⟩ := hshape.2.2 c List.mem_cons_self
      rw [hsame] at hs hn ⊢
      have hne : keys h c ≠ [] := List.ne_nil_of_length_pos (by
        unfold size at hmin
        omega)
      exact ⟨⟨⟨hf.shape ht,hs.sorted,hn,fun _ => hne⟩,hf,hs⟩,rfl⟩

theorem Tree.Valid.size_pos (hb : b.Valid key t) (ha : a ∈ b.inorder) : 0 < size b.height b.root := by
  obtain ⟨h,x,n⟩ := b
  cases h with
  | zero => exact List.length_pos_of_mem ha
  | succ h => exact List.length_pos_of_ne_nil (hb.ok.root (Nat.succ_ne_zero h))

theorem Tree.Valid.del (hb : b.Valid key t) (ht : 2 ≤ t) (ha : a ∈ b.inorder) (hk : key a = key k) :
    ∃ b', kbDelp key t b k = some b' ∧ b'.Valid key t ∧ b'.inorder = without key (key k) b.inorder := by
  obtain ⟨r,hdel,hd⟩ := delpAux_spec ht b.height b.root (.key k) hb.filled (hb.size_pos ha) hb.strict ⟨a,ha,hk⟩
  have hin : Kbtree.inorder b.height r.2 = without key (key k) b.inorder := hd.picked
  have hlen := without_length hb.strict ha
  have hsize := hb.ok.size
  have hs : Strict key (without key (key k) b.inorder) := hb.strict.sublist List.filter_sublist
  have hroot : (⟨b.height,r.2,b.nKeys - 1⟩ : Tree κ).inorder = without key (key k) b.inorder := hin
  have hcount : (⟨b.height,r.2,b.nKeys - 1⟩ : Tree κ).inorder.length = b.nKeys - 1 := by
    rw [hroot,← hk]
    omega
  have hs' : Strict key (⟨b.height,r.2,b.nKeys - 1⟩ : Tree κ).inorder := hroot ▸ hs
  obtain ⟨hv,he⟩ := dropRoot_valid ht hd.filled hs' hcount
  refine ⟨_,?_,hv,he.trans hroot⟩
  unfold kbDelp
  rw [hdel]
  rfl

end Valid

section Interval
variable [LinearOrder ι] {key : κ → ι} {k : ι}

theorem find_none {l : List κ} (hl : ∀ b ∈ l, key b < k) : l.find? (fun b => decide (k ≤ key b)) = none :=
  List.find?_eq_none.mpr (fun b hb => by simpa using hl b hb)

theorem find_cons {l : List κ} {m : κ} (hm : k ≤ key m) : (m :: l).find? (fun b => decide (k ≤ key b)) = some m :=
  List.find?_cons_of_pos (by simpa using hm)

theorem find_after {K : List κ} {cs : List (List κ)} (hl : K.length = cs.length) (hK : ∀ b ∈ K, k < key b) :
    (after K cs).find? (fun b => decide (k ≤ key b)) = K.head? := by
  cases K with
  | nil => rfl
  | cons m K =>
    obtain ⟨c,cs,rfl⟩ := List.exists_cons_of_length_eq_add_one hl.symm
    exact find_cons (hK m List.mem_cons_self).le

theorem narrow_upper {K₁ K₂ : List κ} (lu : Option κ × Option κ) :
    (narrow (K₁ ++ K₂) ((K₁.length : Int) - 1) lu).2 = K₂.head?.or lu.2 := by
  unfold narrow
  cases K₂ with
  | nil => simp
  | cons m K₂ =>
    have hlt : (K₁.length : Int) - 1 < ((K₁ ++ m :: K₂).length : Int) - 1 := by
      simp only [List.length_append,List.length_cons]
      omega
    simp only [if_pos hlt,Int.sub_add_cancel,Int.toNat_natCast,get_cut rfl]
    rfl

theorem intervalpAux_upper (ht : 2 ≤ t) (h : Nat) (x : Node κ h) (lu : Option κ × Option κ) (hx : Filled t h x)
    (hne : 0 < size h x) (hs : Strict key (inorder h x)) :
    (intervalpAux key k h x lu).2 = ((inorder h x).find? (fun b => decide (k ≤ key b))).or lu.2 := by
  induction h generalizing lu with
  | zero =>
    have hs' : Strict key (keys 0 x) := hs
    unfold intervalpAux
    change _ = ((keys 0 x).find? _).or lu.2
    rcases getpAux_cases hs'.sorted hne k with ⟨K₁,a,K₂,hks,hget,ha⟩ | ⟨K₁,K₂,hks,hi,hr,hl,hg⟩
    · rw [hks] at hs'
      have hbelow : ∀ b ∈ K₁, key b < k := fun b hb => ha ▸ (strict_cut.mp hs').2.1 b hb
      simp only [hget]
      rw [if_pos ⟨Int.natCast_nonneg _,trivial⟩,Int.toNat_natCast,hks,get_cut rfl,List.find?_append,find_none hbelow,
        find_cons ha.ge]
      rfl
    · simp only
      rw [if_neg (fun hc => hr hc.2),hi,hks,narrow_upper,List.find?_append,find_none hl,Option.none_or]
      cases K₂ with
      | nil => rfl
      | cons m K₂ =>
        rw [find_cons (hg m List.mem_cons_self).le]
        rfl
  | succ h ih =>
    have hsk : Sorted key x.1 := hs.sorted.sublist (keys_sublist (h + 1) x (hx.shape ht))
    unfold intervalpAux
    rcases getpAux_cases hsk hne k with ⟨K₁,a,K₂,hks,hget,ha⟩ | ⟨K₁,K₂,hks,hi,hr,hl,hg⟩
    · have hlt : K₁.length < x.1.length := by
        rw [hks]
        simp
      obtain ⟨L₁,m,L₂,C₁,y,z,C₂,rfl,hL,hC⟩ := hx.cut hlt
      obtain ⟨rfl,hrest⟩ := List.append_inj hks hL
      obtain ⟨rfl,rfl⟩ := List.cons.inj hrest
      rw [inorder_two hC.symm,← List.append_assoc] at hs ⊢
      have hbelow : ∀ b ∈ before L₁ (C₁.map (inorder h)) ++ inorder h y, key b < k :=
        fun b hb => ha ▸ (strict_cut.mp hs).2.1 b hb
      simp only [hget]
      rw [if_pos ⟨Int.natCast_nonneg _,trivial⟩,Int.toNat_natCast,get_cut rfl,List.find?_append,find_none hbelow,
        find_cons ha.ge]
      rfl
    · obtain ⟨f,rfl,rfl,rfl⟩ := hx.focus hks
      obtain ⟨hmin,hf⟩ := f.filled_child hx
      have hlen := hx.2.1
      have hsame := f.same
      rw [f.inorder_node] at hs ⊢
      simp only [Focus.node,List.length_append,List.length_cons] at hlen
      obtain ⟨hfront,hrest,-⟩ := List.pairwise_append.mp hs.sorted
      have hindex : ((getpAux key f.node.1 k).1 + 1).toNat = f.K₁.length := by
        rw [hi]
        omega
      simp only [hindex,f.get_child]
      rw [if_neg (fun hc => hr hc.2),ih f.child _ hf (by omega) ((hs.sublist (List.sublist_append_right _ _)).sublist
        (List.sublist_append_left _ _)),hi]
      have hnone : f.front.find? (fun b => decide (k ≤ key b)) = none := find_none (before_lt hfront hl)
      have hhead : f.back.find? (fun b => decide (k ≤ key b)) = f.K₂.head? :=
        find_after (by rw [List.length_map]; omega) hg
      rw [show f.node.1 = f.K₁ ++ f.K₂ from rfl,narrow_upper,List.find?_append,List.find?_append,hnone,hhead,
        Option.none_or,Option.or_assoc]

theorem Tree.Valid.upper {b : Tree κ} (hb : b.Valid key t) (ht : 2 ≤ t) (k : ι) :
    (kbIntervalp key b k).2 = b.inorder.find? (fun a => decide (k ≤ key a)) := by
  unfold kbIntervalp
  by_cases hne : 0 < size b.height b.root
  · rw [intervalpAux_upper ht b.height b.root (none,none) hb.filled hne hb.strict,Option.or_none]
    rfl
  · obtain ⟨h,x,n⟩ := b
    cases h with
    | zero =>
      have hnil : keys 0 x = [] := List.length_eq_zero_iff.mp (by
        change ¬ 0 < (keys 0 x).length at hne
        omega)
      have hin : (⟨0,x,n⟩ : Tree κ).inorder = [] := hnil
      rw [hin]
      unfold intervalpAux
      rw [hnil]
      rfl
    | succ h => exact absurd (List.length_pos_of_ne_nil (hb.ok.root (Nat.succ_ne_zero h))) hne

end Interval

end Kbtree
