import Rtfs.Klib.Kbtree

namespace Kbtree
variable {κ ι : Type}

def before : List κ → List (List κ) → List κ
  | k :: ks, c :: cs => c ++ k :: before ks cs
  | _, _ => []

def after : List κ → List (List κ) → List κ
  | k :: ks, c :: cs => k :: (c ++ after ks cs)
  | _, _ => []

def weave (ks : List κ) : List (List κ) → List κ
  | [] => []
  | c :: cs => c ++ after ks cs

def inorder : (h : Nat) → Node κ h → List κ
  | 0, ks => ks
  | h + 1, x => weave x.1 (x.2.map (inorder h))

def Tree.inorder (b : Tree κ) : List κ := Kbtree.inorder b.height b.root

def Shape : (h : Nat) → Node κ h → Prop
  | 0, _ => True
  | h + 1, x => x.2.length = x.1.length + 1 ∧ ∀ c ∈ x.2, keys h c ≠ [] ∧ Shape h c

theorem before_after (ks₁ ks₂ : List κ) (cs₁ cs₂ : List (List κ)) (c : List κ)
    (h : ks₁.length = cs₁.length) :
    weave (ks₁ ++ ks₂) (cs₁ ++ c :: cs₂) = before ks₁ cs₁ ++ (c ++ after ks₂ cs₂) := by
  induction ks₁ generalizing cs₁ with
  | nil =>
    obtain rfl := List.length_eq_zero_iff.mp h.symm
    simp [weave,before]
  | cons k ks ih =>
    cases cs₁ with
    | nil => simp at h
    | cons d ds =>
      have ih' := ih ds (by simpa using h)
      cases ds with
      | nil =>
        obtain rfl : ks = [] := List.length_eq_zero_iff.mp (by simpa using h)
        simp [weave,before,after]
      | cons e es =>
        simp only [List.cons_append,weave,before,after,List.append_assoc] at ih' ⊢
        rw [ih']

theorem weave_cut (ks₁ ks₂ : List κ) (cs₁ cs₂ : List (List κ)) (m : κ)
    (h₁ : cs₁.length = ks₁.length + 1) (h₂ : cs₂ ≠ []) :
    weave (ks₁ ++ m :: ks₂) (cs₁ ++ cs₂) = weave ks₁ cs₁ ++ m :: weave ks₂ cs₂ := by
  obtain ⟨ds,d,rfl⟩ : ∃ ds d, cs₁ = ds ++ [d] :=
    ⟨cs₁.dropLast,cs₁.getLast (by rintro rfl; simp at h₁),(List.dropLast_append_getLast _).symm⟩
  have hl : ks₁.length = ds.length := by simpa using h₁.symm
  obtain ⟨e,es,rfl⟩ := List.exists_cons_of_ne_nil h₂
  have hw := before_after ks₁ [] ds [] d hl
  rw [List.append_nil] at hw
  rw [List.append_assoc,List.singleton_append,before_after ks₁ (m :: ks₂) ds (e :: es) d hl,hw]
  simp [after,weave]

theorem inorder_child {h : Nat} (x : Node κ (h + 1)) (i : Nat) (y : Node κ h)
    (hs : Shape (h + 1) x) (hy : x.2[i]? = some y) :
    inorder (h + 1) x = before (x.1.take i) ((x.2.take i).map (inorder h)) ++
      (inorder h y ++ after (x.1.drop i) ((x.2.drop (i + 1)).map (inorder h))) := by
  obtain ⟨hi,rfl⟩ := List.getElem?_eq_some_iff.mp hy
  have hl : (x.1.take i).length = ((x.2.take i).map (inorder h)).length := by
    have := hs.1
    simp only [List.length_take,List.length_map]
    omega
  have hb := before_after (x.1.take i) (x.1.drop i) ((x.2.take i).map (inorder h))
    ((x.2.drop (i + 1)).map (inorder h)) (inorder h x.2[i]) hl
  rw [List.take_append_drop,← List.map_cons,← List.map_append,← List.drop_eq_getElem_cons hi,
    List.take_append_drop] at hb
  exact hb

theorem inorder_set_child {h : Nat} (ks : List κ) (cs : List (Node κ h)) (i : Nat) (y z : Node κ h)
    (hs : Shape (h + 1) (ks,cs)) (hy : cs[i]? = some y) :
    inorder (h + 1) ((ks,cs.set i z) : Node κ (h + 1)) =
      before (ks.take i) ((cs.take i).map (inorder h)) ++
      (inorder h z ++ after (ks.drop i) ((cs.drop (i + 1)).map (inorder h))) := by
  obtain ⟨hi,rfl⟩ := List.getElem?_eq_some_iff.mp hy
  have hl : (ks.take i).length = ((cs.take i).map (inorder h)).length := by
    have h1 : cs.length = ks.length + 1 := hs.1
    simp only [List.length_take,List.length_map]
    omega
  have hb := before_after (ks.take i) (ks.drop i) ((cs.take i).map (inorder h))
    ((cs.drop (i + 1)).map (inorder h)) (inorder h z) hl
  rw [List.take_append_drop,← List.map_cons,← List.map_append] at hb
  rw [List.set_eq_take_append_cons_drop,if_pos hi]
  exact hb

theorem inorder_split (t : Nat) (ht : 2 ≤ t) (h : Nat) (y : Node κ h) (m : κ) (hs : Shape h y)
    (hm : (keys h y)[t - 1]? = some m) :
    inorder h y = inorder h (splitLeft t h y) ++ m :: inorder h (splitRight t h y) := by
  obtain ⟨hlt,hget⟩ := List.getElem?_eq_some_iff.mp hm
  have hcut : keys h y = (keys h y).take (t - 1) ++ m :: (keys h y).drop t := by
    have hd := List.drop_eq_getElem_cons hlt
    rw [hget,show t - 1 + 1 = t by omega] at hd
    rw [← hd,List.take_append_drop]
  cases h with
  | zero => exact hcut
  | succ h =>
    have hlen : y.2.length = y.1.length + 1 := hs.1
    have hlt' : t - 1 < y.1.length := hlt
    have hcut' : y.1 = y.1.take (t - 1) ++ m :: y.1.drop t := hcut
    have hw := weave_cut (y.1.take (t - 1)) (y.1.drop t) ((y.2.take t).map (inorder h))
      ((y.2.drop t).map (inorder h)) m (by simp; omega)
      (List.ne_nil_of_length_pos (by simp; omega))
    rw [← hcut',← List.map_append,List.take_append_drop] at hw
    exact hw

theorem shape_splitLeft (t : Nat) (ht : 2 ≤ t) (h : Nat) (y : Node κ h) (hs : Shape h y)
    (hl : t ≤ (keys h y).length) : keys h (splitLeft t h y) ≠ [] ∧ Shape h (splitLeft t h y) := by
  cases h with
  | zero =>
    refine ⟨List.ne_nil_of_length_pos ?_,trivial⟩
    change 0 < (List.take (t - 1) (keys 0 y)).length
    rw [List.length_take]
    omega
  | succ h =>
    have hl' : t ≤ y.1.length := hl
    have hlen : y.2.length = y.1.length + 1 := hs.1
    refine ⟨List.ne_nil_of_length_pos ?_,?_,fun c hc => hs.2 c (List.mem_of_mem_take hc)⟩
    · simp only [keys,splitLeft,List.length_take]
      omega
    · simp only [splitLeft,List.length_take]
      omega

theorem shape_splitRight (t : Nat) (h : Nat) (y : Node κ h) (hs : Shape h y)
    (hl : t < (keys h y).length) : keys h (splitRight t h y) ≠ [] ∧ Shape h (splitRight t h y) := by
  cases h with
  | zero =>
    refine ⟨List.ne_nil_of_length_pos ?_,trivial⟩
    change 0 < (List.drop t (keys 0 y)).length
    rw [List.length_drop]
    omega
  | succ h =>
    have hl' : t < y.1.length := hl
    have hlen : y.2.length = y.1.length + 1 := hs.1
    refine ⟨List.ne_nil_of_length_pos ?_,?_,fun c hc => hs.2 c (List.mem_of_mem_drop hc)⟩
    · simp only [keys,splitRight,List.length_drop]
      omega
    · simp only [splitRight,List.length_drop]
      omega

theorem kbSplit_spec (t : Nat) (ht : 2 ≤ t) {h : Nat} (x : Node κ (h + 1)) (i : Nat) (y : Node κ h)
    (hx : Shape (h + 1) x) (hy : x.2[i]? = some y) (hfull : (keys h y).length = 2 * t - 1) :
    ∃ m, (keys h y)[t - 1]? = some m ∧
      kbSplit t x i y = (x.1.take i ++ m :: x.1.drop i,
        x.2.take i ++ splitLeft t h y :: splitRight t h y :: x.2.drop (i + 1)) ∧
      Shape (h + 1) (kbSplit t x i y) ∧ inorder (h + 1) (kbSplit t x i y) = inorder (h + 1) x ∧
      inorder h y = inorder h (splitLeft t h y) ++ m :: inorder h (splitRight t h y) := by
  have hlt : t - 1 < (keys h y).length := by omega
  have hm := List.getElem?_eq_getElem hlt
  have hi := (List.getElem?_eq_some_iff.mp hy).1
  have hlen : x.2.length = x.1.length + 1 := hx.1
  have hys : Shape h y := (hx.2 y (List.mem_of_getElem? hy)).2
  have hsplit := inorder_split t ht h y _ hys hm
  have he : kbSplit t x i y = (x.1.take i ++ (keys h y)[t - 1] :: x.1.drop i,
      x.2.take i ++ splitLeft t h y :: splitRight t h y :: x.2.drop (i + 1)) := by
    simp only [kbSplit,hm]
    rfl
  refine ⟨_,hm,he,?_,?_,hsplit⟩
  · rw [he]
    refine ⟨by simp; omega,fun c hc => ?_⟩
    simp only [List.mem_append,List.mem_cons] at hc
    rcases hc with hc | rfl | rfl | hc
    · exact hx.2 c (List.mem_of_mem_take hc)
    · exact shape_splitLeft t ht h y hys (by omega)
    · exact shape_splitRight t h y hys (by omega)
    · exact hx.2 c (List.mem_of_mem_drop hc)
  · have hl : (x.1.take i).length = ((x.2.take i).map (inorder h)).length := by
      simp only [List.length_take,List.length_map]
      omega
    have hb := before_after (x.1.take i) ((keys h y)[t - 1] :: x.1.drop i)
      ((x.2.take i).map (inorder h))
      ((splitRight t h y :: x.2.drop (i + 1)).map (inorder h)) (inorder h (splitLeft t h y)) hl
    rw [he,inorder_child x i y hx hy,hsplit]
    simp only [List.append_assoc,List.cons_append]
    rw [← List.map_cons,← List.map_append] at hb
    exact hb

theorem keys_sublist_after (ks : List κ) (cs : List (List κ)) (h : ks.length ≤ cs.length) :
    ks.Sublist (after ks cs) := by
  induction ks generalizing cs with
  | nil => exact List.nil_sublist _
  | cons k ks ih =>
    cases cs with
    | nil => simp at h
    | cons c cs =>
      have hs := ih cs (by simpa using h)
      exact (hs.trans (List.sublist_append_right c _)).cons_cons k

theorem keys_sublist (h : Nat) (x : Node κ h) (hs : Shape h x) :
    (keys h x).Sublist (inorder h x) := by
  cases h with
  | zero => exact List.Sublist.refl _
  | succ h =>
    have hlen : x.2.length = x.1.length + 1 := hs.1
    change x.1.Sublist (weave x.1 (x.2.map (inorder h)))
    cases hx : x.2.map (inorder h) with
    | nil =>
      have := congrArg List.length hx
      simp only [List.length_map,List.length_nil] at this
      omega
    | cons c cs =>
      have := congrArg List.length hx
      simp only [List.length_map,List.length_cons] at this
      exact (keys_sublist_after x.1 cs (by omega)).trans (List.sublist_append_right c _)

section Lands
variable [LinearOrder ι] (key : κ → ι) (t : Nat)

def landsLast (k : ι) : (h : Nat) → Node κ h → Bool
  | 0, ks => (List.drop (slot key ks k) ks).head?.all (fun m => decide (k < key m))
  | h + 1, x =>
    let p := route key t k x
    (p.1.1.drop p.2).head?.all (fun m => decide (k < key m)) &&
      match p.1.2[p.2]? with
      | none => true
      | some z => landsLast k h z

theorem before_le {ks : List κ} {cs : List (List κ)} {k : ι} (hs : Sorted key (before ks cs))
    (hk : ∀ b ∈ ks, key b ≤ k) : ∀ b ∈ before ks cs, key b ≤ k := by
  induction ks generalizing cs with
  | nil => simp [before]
  | cons m ks ih =>
    cases cs with
    | nil => simp [before]
    | cons c cs =>
      obtain ⟨_,hms,hc⟩ := List.pairwise_append.mp hs
      intro b hb
      simp only [before,List.mem_append,List.mem_cons] at hb
      rcases hb with hb | rfl | hb
      · exact le_trans (hc b hb m (by simp)) (hk m (by simp))
      · exact hk b (by simp)
      · exact ih (List.pairwise_cons.mp hms).2 (fun d hd => hk d (by simp [hd])) b hb

theorem after_head {ks : List κ} {cs : List (List κ)} (hl : ks.length = cs.length)
    (hs : Sorted key (after ks cs)) {m : κ} (hm : ks.head? = some m) :
    m ∈ after ks cs ∧ ∀ b ∈ after ks cs, key m ≤ key b := by
  obtain ⟨ks,rfl⟩ := List.head?_eq_some_iff.mp hm
  cases cs with
  | nil => simp at hl
  | cons c cs =>
    refine ⟨by simp [after],fun b hb => ?_⟩
    rcases List.mem_cons.mp hb with rfl | hb
    · exact le_rfl
    · exact (List.pairwise_cons.mp hs).1 b hb

theorem le_after {ks : List κ} {cs : List (List κ)} {k : ι} (hl : ks.length = cs.length)
    (hs : Sorted key (after ks cs)) (hk : ∀ b ∈ ks, k ≤ key b) : ∀ b ∈ after ks cs, k ≤ key b := by
  cases hm : ks.head? with
  | none =>
    obtain rfl := List.head?_eq_none_iff.mp hm
    simp [after]
  | some m =>
    intro b hb
    exact le_trans (hk m (List.mem_of_mem_head? hm)) ((after_head key hl hs hm).2 b hb)

theorem lt_after_iff {ks : List κ} {cs : List (List κ)} {k : ι} (hl : ks.length = cs.length)
    (hs : Sorted key (after ks cs)) :
    ks.head?.all (fun m => decide (k < key m)) = true ↔ ∀ b ∈ after ks cs, k < key b := by
  cases hm : ks.head? with
  | none =>
    obtain rfl := List.head?_eq_none_iff.mp hm
    simp [after]
  | some m =>
    obtain ⟨hmem,hle⟩ := after_head key hl hs hm
    simp only [Option.all_some,decide_eq_true_eq]
    exact ⟨fun h b hb => lt_of_lt_of_le h (hle b hb),fun h => h m hmem⟩

theorem cut_behind (p q : List κ) (m : κ) {s : Nat} (h : p.length = s) :
    (p ++ m :: q).take (s + 1) = p ++ [m] ∧ (p ++ m :: q).drop (s + 1) = q := by
  have he : p ++ m :: q = (p ++ [m]) ++ q := by simp
  rw [he]
  exact ⟨List.take_left' (by simp [h]),List.drop_left' (by simp [h])⟩

theorem route_spec (ht : 2 ≤ t) (k : ι) {h : Nat} (x : Node κ (h + 1)) (hx : Shape (h + 1) x)
    (hs : Sorted key (inorder (h + 1) x)) :
    Shape (h + 1) (route key t k x).1 ∧
    inorder (h + 1) (route key t k x).1 = inorder (h + 1) x ∧
    (∃ z, (route key t k x).1.2[(route key t k x).2]? = some z) ∧
    (∀ b ∈ (route key t k x).1.1.take (route key t k x).2, key b ≤ k) ∧
    (∀ b ∈ (route key t k x).1.1.drop (route key t k x).2, k ≤ key b) ∧
    (x.1 ≠ [] → (route key t k x).1.1 ≠ []) := by
  have hks : Sorted key x.1 := hs.sublist (keys_sublist (h + 1) x hx)
  obtain ⟨hle,hb,ha⟩ := slot_spec key x.1 hks k
  have hlen : x.2.length = x.1.length + 1 := hx.1
  have hi : slot key x.1 k < x.2.length := by omega
  have hy : x.2[slot key x.1 k]? = some x.2[slot key x.1 k] := List.getElem?_eq_getElem hi
  by_cases hfull : (keys h x.2[slot key x.1 k]).length = 2 * t - 1
  · obtain ⟨m,hm,he,hsh,hin,hsp⟩ := kbSplit_spec t ht x _ _ hx hy hfull
    have hmid : (kbSplit t x (slot key x.1 k) x.2[slot key x.1 k]).1[slot key x.1 k]? = some m := by
      rw [he]
      simp [hle]
    have hr : route key t k x = (kbSplit t x (slot key x.1 k) x.2[slot key x.1 k],
        if key m < k then slot key x.1 k + 1 else slot key x.1 k) := by
      simp only [route,hy,hfull,if_true,hmid,Option.any_some,decide_eq_true_eq]
    rw [hr]
    have hlt : (x.1.take (slot key x.1 k)).length = slot key x.1 k := by
      simp [hle]
    refine ⟨hsh,hin,?_,?_,?_,?_⟩
    · have hsl : (kbSplit t x (slot key x.1 k) x.2[slot key x.1 k]).2.length = x.2.length + 1 := by
        rw [he]
        simp
        omega
      refine ⟨_,List.getElem?_eq_getElem ?_⟩
      dsimp only
      split <;> omega
    · dsimp only
      rw [he]
      split
      · rename_i hmk
        intro b hbm
        rw [(cut_behind _ _ m hlt).1,List.mem_append,List.mem_singleton] at hbm
        rcases hbm with hbm | rfl
        · exact hb b hbm
        · exact le_of_lt hmk
      · rw [List.take_left' hlt]
        exact hb
    · dsimp only
      rw [he]
      split
      · rw [(cut_behind _ _ m hlt).2]
        exact ha
      · rename_i hmk
        intro b hbm
        rw [List.drop_left' hlt,List.mem_cons] at hbm
        rcases hbm with rfl | hbm
        · exact not_lt.mp hmk
        · exact ha b hbm
    · intro _
      rw [he]
      simp
  · have hr : route key t k x = (x,slot key x.1 k) := by
      simp only [route,hy,hfull,if_false]
    rw [hr]
    exact ⟨hx,rfl,⟨_,hy⟩,hb,ha,id⟩

theorem putpAux_spec (ht : 2 ≤ t) (a : κ) (h : Nat) (x : Node κ h) (hx : Shape h x)
    (hs : Sorted key (inorder h x)) :
    Shape h (putpAux key t a h x) ∧ (keys h x ≠ [] → keys h (putpAux key t a h x) ≠ []) ∧
    ∃ l r, inorder h x = l ++ r ∧ inorder h (putpAux key t a h x) = l ++ a :: r ∧
      (∀ b ∈ l, key b ≤ key a) ∧ (∀ b ∈ r, key a ≤ key b) ∧
      (landsLast key t (key a) h x = true ↔ ∀ b ∈ r, key a < key b) := by
  induction h with
  | zero =>
    obtain ⟨_,hb,ha⟩ := slot_spec key (keys 0 x) hs (key a)
    refine ⟨trivial,fun _ => ?_,(keys 0 x).take (slot key (keys 0 x) (key a)),
      (keys 0 x).drop (slot key (keys 0 x) (key a)),(List.take_append_drop _ _).symm,rfl,hb,ha,?_⟩
    · exact List.append_ne_nil_of_right_ne_nil _ (List.cons_ne_nil _ _)
    · change ((keys 0 x).drop (slot key (keys 0 x) (key a))).head?.all _ = true ↔ _
      have hsd : Sorted key ((keys 0 x).drop (slot key (keys 0 x) (key a))) :=
        List.Pairwise.sublist (List.drop_sublist _ _) hs
      cases hd : (keys 0 x).drop (slot key (keys 0 x) (key a)) with
      | nil => simp
      | cons m r =>
        rw [hd] at hsd
        simp only [List.head?_cons,Option.all_some,decide_eq_true_eq,List.mem_cons,forall_eq_or_imp]
        exact ⟨fun h => ⟨h,fun b hb => lt_of_lt_of_le h ((List.pairwise_cons.mp hsd).1 b hb)⟩,
          fun h => h.1⟩
  | succ h ih =>
    obtain ⟨hsh,hin,⟨z,hz⟩,hb,ha,hne⟩ := route_spec key t ht (key a) x hx hs
    have hput : putpAux key t a (h + 1) x = ((route key t (key a) x).1.1,
        (route key t (key a) x).1.2.set (route key t (key a) x).2 (putpAux key t a h z)) := by
      simp only [putpAux,hz]
      rfl
    have hland : landsLast key t (key a) (h + 1) x =
        (((route key t (key a) x).1.1.drop (route key t (key a) x).2).head?.all
          (fun m => decide (key a < key m)) && landsLast key t (key a) h z) := by
      simp only [landsLast,hz]
    generalize route key t (key a) x = p at *
    obtain ⟨⟨ks,cs⟩,j⟩ := p
    dsimp only at hsh hin hz hb ha hput hland hne
    have hj := (List.getElem?_eq_some_iff.mp hz).1
    have hlen : cs.length = ks.length + 1 := hsh.1
    obtain ⟨hzne,hzs⟩ := hsh.2 z (List.mem_of_getElem? hz)
    have hdec := inorder_child (ks,cs) j z hsh hz
    dsimp only at hdec
    rw [hin] at hdec
    have hsort := hs
    rw [hdec] at hsort
    obtain ⟨hsb,hsza,_⟩ := List.pairwise_append.mp hsort
    obtain ⟨hsz,hsa,_⟩ := List.pairwise_append.mp hsza
    obtain ⟨hzs',hzne',l,r,hl,hr,hbl,har,hlast⟩ := ih z hzs hsz
    have hla : (ks.drop j).length = ((cs.drop (j + 1)).map (inorder h)).length := by
      simp only [List.length_drop,List.length_map]
      omega
    rw [hput]
    refine ⟨⟨by simpa using hlen,fun c hc => ?_⟩,fun h => hne h,
      before (ks.take j) ((cs.take j).map (inorder h)) ++ l,
      r ++ after (ks.drop j) ((cs.drop (j + 1)).map (inorder h)),?_,?_,?_,?_,?_⟩
    · rcases List.mem_or_eq_of_mem_set hc with hc | rfl
      · exact hsh.2 c hc
      · exact ⟨hzne' hzne,hzs'⟩
    · rw [hdec,hl]
      simp
    · rw [inorder_set_child ks cs j z _ hsh hz,hr]
      simp
    · intro b hbm
      rcases List.mem_append.mp hbm with hbm | hbm
      · exact before_le key hsb hb b hbm
      · exact hbl b hbm
    · intro b hbm
      rcases List.mem_append.mp hbm with hbm | hbm
      · exact har b hbm
      · exact le_after key hla hsa ha b hbm
    · rw [hland,Bool.and_eq_true,lt_after_iff key hla hsa,hlast]
      simp only [List.mem_append,or_imp,forall_and]
      exact and_comm

def Tree.landsLast (b : Tree κ) (k : ι) : Bool :=
  Kbtree.landsLast key t k (growRoot t b).height (growRoot t b).root

structure Tree.Ok (b : Tree κ) : Prop where
  shape : Shape b.height b.root
  sorted : Sorted key b.inorder
  size : b.inorder.length = b.nKeys
  root : b.height ≠ 0 → keys b.height b.root ≠ []

theorem kbInit_ok : (kbInit : Tree κ).Ok key :=
  ⟨trivial,List.Pairwise.nil,rfl,fun h => absurd rfl h⟩

theorem growRoot_spec (ht : 2 ≤ t) (b : Tree κ) (hb : b.Ok key) :
    (growRoot t b).Ok key ∧ (growRoot t b).inorder = b.inorder := by
  unfold growRoot
  split
  · rename_i hfull
    have hroot : keys b.height b.root ≠ [] := List.ne_nil_of_length_pos (by omega)
    have hsh : Shape (b.height + 1) (([],[b.root]) : Node κ (b.height + 1)) :=
      ⟨rfl,fun c hc => by rw [List.mem_singleton.mp hc]; exact ⟨hroot,hb.shape⟩⟩
    obtain ⟨m,_,he,hs,hi,_⟩ := kbSplit_spec t ht _ 0 b.root hsh rfl hfull
    have hin : inorder (b.height + 1) (([],[b.root]) : Node κ (b.height + 1)) = b.inorder := by
      simp [inorder,weave,after,Tree.inorder]
    rw [hin] at hi
    refine ⟨⟨hs,by rw [Tree.inorder,hi]; exact hb.sorted,by rw [Tree.inorder,hi]; exact hb.size,
      fun _ => ?_⟩,hi⟩
    change (kbSplit t (([],[b.root]) : Node κ (b.height + 1)) 0 b.root).1 ≠ []
    rw [he]
    simp
  · exact ⟨hb,rfl⟩

theorem kbPutp_spec (ht : 2 ≤ t) (b : Tree κ) (a : κ) (hb : b.Ok key) :
    (kbPutp key t b a).Ok key ∧
    ∃ l r, b.inorder = l ++ r ∧ (kbPutp key t b a).inorder = l ++ a :: r ∧
      (b.landsLast key t (key a) = true ↔ ∀ c ∈ r, key a < key c) := by
  obtain ⟨hg,hin⟩ := growRoot_spec key t ht b hb
  obtain ⟨hs,hne,l,r,hl,hr,hbl,har,hlast⟩ :=
    putpAux_spec key t ht a (growRoot t b).height (growRoot t b).root hg.shape hg.sorted
  have hold : b.inorder = l ++ r := by rw [← hin]; exact hl
  have hnew : (kbPutp key t b a).inorder = l ++ a :: r := hr
  refine ⟨⟨hs,?_,?_,?_⟩,l,r,hold,hnew,hlast⟩
  · rw [hnew]
    have hsort := hb.sorted
    rw [hold] at hsort
    obtain ⟨h1,h2,h3⟩ := List.pairwise_append.mp hsort
    refine List.pairwise_append.mpr ⟨h1,List.pairwise_cons.mpr ⟨har,h2⟩,fun c hc d hd => ?_⟩
    rcases List.mem_cons.mp hd with rfl | hd
    · exact hbl c hc
    · exact h3 c hc d hd
  · have hsz := hb.size
    rw [hold] at hsz
    rw [hnew,show (kbPutp key t b a).nKeys = b.nKeys + 1 from rfl,← hsz]
    simp only [List.length_append,List.length_cons]
    omega
  · intro h
    exact hne (hg.root h)

def build (as : List κ) : Tree κ := as.foldl (kbPutp key t) kbInit

def lastOf (k : ι) (l : List κ) : Option κ := (l.filter (fun a => decide (key a = k))).getLast?

def lastPlaced (k : ι) : Tree κ → Option κ → List κ → Option κ
  | _, w, [] => w
  | b, w, a :: as =>
    lastPlaced k (kbPutp key t b a) (if key a = k ∧ b.landsLast key t k = true then some a else w) as

theorem foldl_ok (ht : 2 ≤ t) (as : List κ) (b : Tree κ) (hb : b.Ok key) :
    (as.foldl (kbPutp key t) b).Ok key := by
  induction as generalizing b with
  | nil => exact hb
  | cons a as ih => exact ih _ (kbPutp_spec key t ht b a hb).1

theorem build_ok (ht : 2 ≤ t) (as : List κ) : (build key t as).Ok key :=
  foldl_ok key t ht as kbInit (kbInit_ok key)

theorem foldl_perm (ht : 2 ≤ t) (as : List κ) (b : Tree κ) (hb : b.Ok key) :
    (as.foldl (kbPutp key t) b).inorder.Perm (as ++ b.inorder) := by
  induction as generalizing b with
  | nil => exact List.Perm.refl _
  | cons a as ih =>
    obtain ⟨hok,l,r,hl,hr,_⟩ := kbPutp_spec key t ht b a hb
    refine (ih _ hok).trans ?_
    rw [hl,hr]
    refine (List.Perm.append_left as List.perm_middle).trans ?_
    exact List.perm_middle

theorem build_perm (ht : 2 ≤ t) (as : List κ) : (build key t as).inorder.Perm as := by
  have hp := foldl_perm key t ht as kbInit (kbInit_ok key)
  rwa [show (kbInit : Tree κ).inorder = [] from rfl,List.append_nil] at hp

theorem lastOf_kbPutp (ht : 2 ≤ t) (b : Tree κ) (a : κ) (k : ι) (hb : b.Ok key) :
    lastOf key k (kbPutp key t b a).inorder =
      if key a = k ∧ b.landsLast key t k = true then some a else lastOf key k b.inorder := by
  obtain ⟨hok,l,r,hl,hr,hlast⟩ := kbPutp_spec key t ht b a hb
  rw [hl,hr]
  unfold lastOf
  by_cases hak : key a = k
  · subst hak
    have hge : ∀ c ∈ r, key a ≤ key c := by
      have hs := hok.sorted
      rw [hr] at hs
      exact (List.pairwise_cons.mp (List.pairwise_append.mp hs).2.1).1
    simp only [List.filter_append,List.filter_cons,decide_true,if_true,true_and]
    by_cases hland : b.landsLast key t (key a) = true
    · have hnone : r.filter (fun c => decide (key c = key a)) = [] := by
        rw [List.filter_eq_nil_iff]
        intro c hc
        simpa using ne_of_gt (hlast.mp hland c hc)
      simp [hland,hnone]
    · have hsome : r.filter (fun c => decide (key c = key a)) ≠ [] := by
        intro hnil
        refine hland (hlast.mpr (fun c hc => lt_of_le_of_ne (hge c hc) (fun he => ?_)))
        have := List.filter_eq_nil_iff.mp hnil c hc
        simp [he] at this
      obtain ⟨d,ds,hd⟩ := List.exists_cons_of_ne_nil hsome
      simp [hland,hd]
  · simp [List.filter_append,hak]

theorem lastOf_foldl (ht : 2 ≤ t) (k : ι) (as : List κ) (b : Tree κ) (hb : b.Ok key) :
    lastOf key k (as.foldl (kbPutp key t) b).inorder =
      lastPlaced key t k b (lastOf key k b.inorder) as := by
  induction as generalizing b with
  | nil => rfl
  | cons a as ih =>
    rw [List.foldl_cons,ih _ (kbPutp_spec key t ht b a hb).1,lastOf_kbPutp key t ht b a k hb]
    rfl

theorem lastOf_build (ht : 2 ≤ t) (k : ι) (as : List κ) :
    lastOf key k (build key t as).inorder = lastPlaced key t k kbInit none as :=
  lastOf_foldl key t ht k as kbInit (kbInit_ok key)

end Lands

end Kbtree
