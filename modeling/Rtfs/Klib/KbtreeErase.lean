import Rtfs.Klib.KbtreeRefill

namespace Kbtree
variable {κ ι : Type} [LinearOrder ι] (key : κ → ι) {h t : Nat}

def Strict (l : List κ) : Prop := l.Pairwise (fun a b => key a < key b)

def without (k : ι) (l : List κ) : List κ := l.filter (fun b => decide (key b ≠ k))

section Strict
variable {key} {l r : List κ} {a : κ} {k : ι}

theorem Strict.sorted (h : Strict key l) : Sorted key l := h.imp le_of_lt

theorem Strict.sublist (h : Strict key l) (hs : r.Sublist l) : Strict key r := List.Pairwise.sublist hs h

theorem strict_cut : Strict key (l ++ a :: r) ↔
    Strict key (l ++ r) ∧ (∀ b ∈ l, key b < key a) ∧ ∀ b ∈ r, key a < key b := by
  unfold Strict
  simp only [List.pairwise_append,List.pairwise_cons,List.mem_cons,forall_eq_or_imp]
  constructor
  · rintro ⟨hl,⟨ha,hr⟩,hlr⟩
    exact ⟨⟨hl,hr,fun b hb => (hlr b hb).2⟩,fun b hb => (hlr b hb).1,ha⟩
  · rintro ⟨⟨hl,hr,hlr⟩,hla,har⟩
    exact ⟨hl,⟨har,hr⟩,fun b hb => ⟨hla b hb,hlr b hb⟩⟩

theorem without_eq (h : ∀ b ∈ l, key b ≠ k) : without key k l = l :=
  List.filter_eq_self.mpr (fun b hb => decide_eq_true (h b hb))

theorem without_append (l r : List κ) : without key k (l ++ r) = without key k l ++ without key k r :=
  List.filter_append l r

theorem mem_without {b : κ} : b ∈ without key k l ↔ b ∈ l ∧ key b ≠ k := by
  unfold without
  rw [List.mem_filter,decide_eq_true_eq]

theorem without_cut (h : Strict key (l ++ a :: r)) : without key (key a) (l ++ a :: r) = l ++ r := by
  obtain ⟨-,hl,hr⟩ := strict_cut.mp h
  have hself : without key (key a) (a :: r) = without key (key a) r := List.filter_cons_of_neg (by simp)
  rw [without_append,hself,without_eq (fun b hb => ne_of_lt (hl b hb)),without_eq (fun b hb => ne_of_gt (hr b hb))]

theorem strict_swap {b : κ} (hab : key b = key a) (h : Strict key (l ++ a :: r)) : Strict key (l ++ b :: r) := by
  rw [strict_cut] at h ⊢
  rw [hab]
  exact h

end Strict

section Search
variable {key} {ks : List κ} {k : ι}

theorem getpAux_cases (hs : Sorted key ks) (hne : 0 < ks.length) (k : ι) :
    (∃ K₁ a K₂, ks = K₁ ++ a :: K₂ ∧ getpAux key ks k = (K₁.length,.eq) ∧ key a = k) ∨
    ∃ K₁ K₂, ks = K₁ ++ K₂ ∧ (getpAux key ks k).1 = (K₁.length : Int) - 1 ∧ (getpAux key ks k).2 ≠ .eq ∧
      (∀ b ∈ K₁, key b < k) ∧ ∀ b ∈ K₂, k < key b := by
  obtain ⟨hle,hbelow,habove⟩ := lowerBound_spec key ks hs k 0 ks.length (Nat.zero_le _) le_rfl
    (fun i _ hi => absurd hi (Nat.not_lt_zero i)) (fun i hi hge => absurd hi (by omega))
  have hnz : ¬ ks.length = 0 := by omega
  unfold getpAux
  simp only [if_neg hnz]
  generalize lowerBound key ks k 0 ks.length = lo at *
  have hlow : ∀ b ∈ ks.take lo, key b < k := by
    intro b hb
    obtain ⟨i,hi,rfl⟩ := List.mem_iff_getElem.mp hb
    simp only [List.length_take,lt_min_iff] at hi
    simpa using hbelow i hi.2 hi.1
  by_cases hlt : lo < ks.length
  · have hcut : ks = ks.take lo ++ ks[lo] :: ks.drop (lo + 1) := by
      rw [← List.drop_eq_getElem_cons hlt,List.take_append_drop]
    have hlen : (ks.take lo).length = lo := List.length_take_of_le hle
    have hge : k ≤ key ks[lo] := habove lo hlt le_rfl
    simp only [List.getElem?_eq_getElem hlt]
    by_cases hk : k < key ks[lo]
    · rw [if_pos hk]
      refine .inr ⟨ks.take lo,ks.drop lo,(List.take_append_drop _ _).symm,by rw [hlen],by simp,hlow,?_⟩
      have hrest : Sorted key (ks[lo] :: ks.drop (lo + 1)) := by
        rw [← List.drop_eq_getElem_cons hlt]
        exact List.Pairwise.sublist (List.drop_sublist _ _) hs
      intro b hb
      rw [List.drop_eq_getElem_cons hlt] at hb
      rcases List.mem_cons.mp hb with rfl | hb
      · exact hk
      · exact lt_of_lt_of_le hk ((List.pairwise_cons.mp hrest).1 b hb)
    · have heq : key ks[lo] = k := le_antisymm (not_lt.mp hk) hge
      rw [if_neg hk]
      refine .inl ⟨ks.take lo,ks[lo],ks.drop (lo + 1),hcut,?_,heq⟩
      rw [hlen,heq,compare_eq_iff_eq.mpr rfl]
  · have hall : lo = ks.length := by omega
    rw [List.getElem?_eq_none (by omega)]
    refine .inr ⟨ks,[],(List.append_nil _).symm,rfl,by simp,?_,fun b hb => absurd hb List.not_mem_nil⟩
    rw [hall,List.take_length] at hlow
    exact hlow

end Search

section Picks
variable {key} {s : Pick κ} {l l' p q B A : List κ} {a : κ}

def Picked (key : κ → ι) (s : Pick κ) (l : List κ) (a : κ) (l' : List κ) : Prop :=
  match s with
  | .key k => l' = without key (key k) l
  | .last => l = l' ++ [a]
  | .first => l = a :: l'

def Pickable (key : κ → ι) (s : Pick κ) (l : List κ) : Prop :=
  match s with
  | .key k => ∃ a ∈ l, key a = key k
  | _ => True

def Beside (key : κ → ι) (s : Pick κ) (B A : List κ) : Prop :=
  match s with
  | .key k => (∀ b ∈ B, key b ≠ key k) ∧ ∀ b ∈ A, key b ≠ key k
  | .last => A = []
  | .first => B = []

omit [LinearOrder ι] in
theorem Beside.narrow (h : Beside key s (B ++ p) (q ++ A)) : Beside key s B A := by
  cases s with
  | key k => exact ⟨fun b hb => h.1 b (List.mem_append_left _ hb),fun b hb => h.2 b (List.mem_append_right _ hb)⟩
  | last => exact (List.append_eq_nil_iff.mp h).2
  | first => exact (List.append_eq_nil_iff.mp h).1

omit [LinearOrder ι] in
theorem Beside.pickable (h : Beside key s B A) (hp : Pickable key s (B ++ (l ++ A))) : Pickable key s l := by
  cases s with
  | key k =>
    obtain ⟨a,ha,hk⟩ := hp
    rcases List.mem_append.mp ha with hB | ha
    · exact absurd hk (h.1 a hB)
    · rcases List.mem_append.mp ha with hl | hA
      · exact ⟨a,hl,hk⟩
      · exact absurd hk (h.2 a hA)
  | last => trivial
  | first => trivial

theorem Beside.picked (h : Beside key s B A) (hp : Picked key s l a l') :
    Picked key s (B ++ (l ++ A)) a (B ++ (l' ++ A)) := by
  cases s with
  | key k =>
    change l' = without key (key k) l at hp
    change _ = without key (key k) (B ++ (l ++ A))
    rw [without_append,without_append,without_eq h.1,without_eq h.2,hp]
  | last =>
    change l = l' ++ [a] at hp
    obtain rfl : A = [] := h
    change B ++ (l ++ []) = (B ++ (l' ++ [])) ++ [a]
    rw [hp]
    simp
  | first =>
    change l = a :: l' at hp
    obtain rfl : B = [] := h
    change [] ++ (l ++ A) = a :: ([] ++ (l' ++ A))
    rw [hp]
    rfl

theorem before_lt {ks : List κ} {cs : List (List κ)} {k : ι} (hs : Sorted key (before ks cs))
    (hk : ∀ b ∈ ks, key b < k) : ∀ b ∈ before ks cs, key b < k := by
  induction ks generalizing cs with
  | nil => exact fun b hb => absurd hb List.not_mem_nil
  | cons m ks ih =>
    cases cs with
    | nil => exact fun b hb => absurd hb List.not_mem_nil
    | cons c cs =>
      obtain ⟨-,hms,hc⟩ := List.pairwise_append.mp hs
      intro b hb
      simp only [before,List.mem_append,List.mem_cons] at hb
      rcases hb with hb | rfl | hb
      · exact lt_of_le_of_lt (hc b hb m List.mem_cons_self) (hk m List.mem_cons_self)
      · exact hk b List.mem_cons_self
      · exact ih (List.pairwise_cons.mp hms).2 (fun d hd => hk d (List.mem_cons_of_mem _ hd)) b hb

theorem lt_after {ks : List κ} {cs : List (List κ)} {k : ι} (hl : ks.length = cs.length)
    (hs : Sorted key (after ks cs)) (hk : ∀ b ∈ ks, k < key b) : ∀ b ∈ after ks cs, k < key b := by
  refine (lt_after_iff key hl hs).mp ?_
  cases ks with
  | nil => rfl
  | cons m ks => exact decide_eq_true (hk m List.mem_cons_self)

end Picks

section Erase
variable {key} {s : Pick κ}

def Sides (key : κ → ι) (s : Pick κ) (K₁ K₂ : List κ) : Prop :=
  match s with
  | .key k => (∀ b ∈ K₁, key b < key k) ∧ ∀ b ∈ K₂, key k < key b
  | .last => K₂ = []
  | .first => K₁ = []

theorem place_cases {ks : List κ} (hs : Sorted key ks) (hne : 0 < ks.length) (s : Pick κ) :
    (∃ k K₁ a K₂, s = .key k ∧ ks = K₁ ++ a :: K₂ ∧ place key ks s = (K₁.length,.eq) ∧ key a = key k) ∨
    ∃ K₁ K₂, ks = K₁ ++ K₂ ∧ (place key ks s).1 = (K₁.length : Int) - 1 ∧ (place key ks s).2 ≠ .eq ∧
      Sides key s K₁ K₂ := by
  cases s with
  | key k =>
    rcases getpAux_cases hs hne (key k) with ⟨K₁,a,K₂,hks,hplace,ha⟩ | ⟨K₁,K₂,hks,hi,hr,hl,hg⟩
    · exact .inl ⟨k,K₁,a,K₂,rfl,hks,hplace,ha⟩
    · exact .inr ⟨K₁,K₂,hks,hi,hr,hl,hg⟩
  | last => exact .inr ⟨ks,[],(List.append_nil _).symm,rfl,nofun,rfl⟩
  | first => exact .inr ⟨[],ks,rfl,rfl,nofun,rfl⟩

theorem beside_of_sides {f : Focus κ h} (hx : Filled t (h + 1) f.node) (hs : Strict key (inorder (h + 1) f.node))
    (hp : Sides key s f.K₁ f.K₂) : Beside key s f.front f.back := by
  cases s with
  | key k =>
    obtain ⟨hfront,hrest,-⟩ := List.pairwise_append.mp (f.inorder_node ▸ hs.sorted)
    have hback := (List.pairwise_append.mp hrest).2.1
    have hlen := hx.2.1
    have hsame := f.same
    simp only [Focus.node,List.length_append,List.length_cons] at hlen
    have hl : f.K₂.length = (f.C₂.map (inorder h)).length := by
      rw [List.length_map]
      omega
    exact ⟨fun b hb => ne_of_lt (before_lt hfront hp.1 b hb),fun b hb => ne_of_gt (lt_after hl hback hp.2 b hb)⟩
  | last =>
    obtain ⟨K₁,C₁,c,K₂,C₂,hl⟩ := f
    obtain rfl : K₂ = [] := hp
    rfl
  | first =>
    obtain ⟨K₁,C₁,c,K₂,C₂,hl⟩ := f
    obtain rfl : K₁ = [] := hp
    rfl

structure Deleted (key : κ → ι) (t : Nat) (s : Pick κ) (x : Node κ h) (r : κ × Node κ h) : Prop where
  picked : Picked key s (inorder h x) r.1 (inorder h r.2)
  filled : Filled t h r.2
  size : size h x ≤ size h r.2 + 1

theorem leaf_deleted {ks l₁ l₂ : List κ} {a : κ} (hks : ks = l₁ ++ a :: l₂) (hx : Filled t 0 (ks : Node κ 0))
    (hp : Picked key s ks a (l₁ ++ l₂)) :
    ks[l₁.length]?.map (fun a => (a,(ks.eraseIdx l₁.length : List κ))) = some (a,l₁ ++ l₂) ∧
      Deleted (h := 0) key t s ks (a,l₁ ++ l₂) := by
  have hlen : ks.length = (l₁ ++ l₂).length + 1 := by
    rw [hks]
    simp only [List.length_append,List.length_cons]
    omega
  have hle : ks.length ≤ 2 * t - 1 := hx
  refine ⟨?_,hp,?_,Nat.le_of_eq hlen⟩
  · rw [hks,get_cut rfl,erase_cut rfl]
    rfl
  · change (l₁ ++ l₂).length ≤ _
    omega

theorem delpAux_leaf (x : Node κ 0) (s : Pick κ) (hx : Filled t 0 x) (hne : 0 < size 0 x)
    (hs : Strict key (inorder 0 x)) (hp : Pickable key s (inorder 0 x)) :
    ∃ r, delpAux key t 0 x s = some r ∧ Deleted key t s x r := by
  change 0 < (keys 0 x).length at hne
  change Strict key (keys 0 x) at hs
  change Pickable key s (keys 0 x) at hp
  unfold delpAux
  rcases place_cases hs.sorted hne s with ⟨k,K₁,a,K₂,rfl,hks,hplace,ha⟩ | ⟨K₁,K₂,hks,hi,-,hsides⟩
  · have hcut : Picked key (.key k) (keys 0 x) a (K₁ ++ K₂) := by
      change K₁ ++ K₂ = without key (key k) (keys 0 x)
      rw [hks,← ha]
      rw [hks] at hs
      exact (without_cut hs).symm
    obtain ⟨he,hd⟩ := leaf_deleted hks hx hcut
    simp only [hplace]
    rw [if_neg (not_lt.mpr (Int.natCast_nonneg _)),Int.toNat_natCast]
    exact ⟨_,he,hd⟩
  · cases s with
    | key k =>
      obtain ⟨a,ha,hk⟩ := hp
      rw [hks] at ha
      rcases List.mem_append.mp ha with ha | ha
      · exact absurd hk (ne_of_lt (hsides.1 a ha))
      · exact absurd hk (ne_of_gt (hsides.2 a ha))
    | last =>
      obtain ⟨ys,a,hya⟩ : ∃ ys a, keys 0 x = ys ++ [a] :=
        ⟨_,_,(List.dropLast_append_getLast (List.ne_nil_of_length_pos hne)).symm⟩
      have hcut : Picked key .last (keys 0 x) a (ys ++ []) := by
        rw [List.append_nil]
        exact hya
      obtain ⟨he,hd⟩ := leaf_deleted hya hx hcut
      have hlen : ((keys 0 x).length : Int) - 1 = ys.length := by
        rw [hya,List.length_append]
        simp
      simp only [place,hlen]
      rw [if_neg (not_lt.mpr (Int.natCast_nonneg _)),Int.toNat_natCast]
      exact ⟨_,he,hd⟩
    | first =>
      obtain ⟨a,zs,hza⟩ := List.exists_cons_of_ne_nil (List.ne_nil_of_length_pos hne)
      have hcut : Picked key .first (keys 0 x) a ([] ++ zs) := hza
      obtain ⟨he,hd⟩ := leaf_deleted hza hx hcut
      exact ⟨_,he,hd⟩

theorem refilled_deleted {f g : Focus κ h} {r : κ × Node κ h} (hr : f.Refilled t g) (hb : Beside key s f.front f.back)
    (hd : Deleted key t s g.child r) : Deleted key t s f.node (r.1,{ g with child := r.2 }.node) := by
  obtain ⟨p,q,hin,hfront,hback⟩ := hr.wider
  rw [hfront,hback] at hb
  have hsame : inorder (h + 1) f.node = g.front ++ (inorder h g.child ++ g.back) := by
    rw [f.inorder_node,hfront,hback,hin]
    simp only [List.append_assoc]
  refine ⟨?_,g.filled_put hr.filled ⟨?_,hd.filled⟩,hr.length⟩
  · rw [hsame,Focus.inorder_node]
    exact hb.narrow.picked hd.picked
  · have henough := hr.enough
    have hsize := hd.size
    omega

theorem delpAux_descend (ht : 2 ≤ t) {f : Focus κ h} (hx : Filled t (h + 1) f.node) (hne : 0 < f.node.1.length)
    (hs : Strict key (inorder (h + 1) f.node)) (hsides : Sides key s f.K₁ f.K₂)
    (hp : Pickable key s (inorder (h + 1) f.node))
    (ih : ∀ x : Node κ h, Filled t h x → 0 < size h x → Strict key (inorder h x) → Pickable key s (inorder h x) →
      ∃ r, delpAux key t h x s = some r ∧ Deleted key t s x r) :
    ∃ r, (refill f.node f.K₁.length t).bind (fun q => q.1.2[q.2]?.bind (fun c =>
      (delpAux key t h c s).map (fun r => (r.1,(q.1.1,q.1.2.set q.2 r.2))))) = some r ∧ Deleted key t s f.node r := by
  obtain ⟨g,hg,hr⟩ := refill_spec ht hx hne
  have hb := beside_of_sides hx hs hsides
  obtain ⟨p,q,hin,hfront,hback⟩ := hr.wider
  have hsame : inorder (h + 1) f.node = g.front ++ (inorder h g.child ++ g.back) := by
    rw [f.inorder_node,hfront,hback,hin]
    simp only [List.append_assoc]
  have hb' := hb
  rw [hfront,hback] at hb'
  rw [hsame] at hs hp
  have hsub : (inorder h g.child).Sublist (g.front ++ (inorder h g.child ++ g.back)) :=
    (List.sublist_append_left _ _).trans (List.sublist_append_right _ _)
  have henough := hr.enough
  obtain ⟨r,hdel,hd⟩ := ih g.child (g.filled_child hr.filled).2 (by omega) (hs.sublist hsub) (hb'.narrow.pickable hp)
  refine ⟨_,?_,refilled_deleted hr hb hd⟩
  simp only [hg,Option.bind_some,g.get_child,hdel,Option.map_some,g.set_child]
  rfl

theorem between_deleted {K₁ K₂ : List κ} {C₁ C₂ : List (Node κ h)} {y z : Node κ h} {a : κ} {k : κ} {x : Node κ (h + 1)}
    (hl : K₁.length = C₁.length)
    (hs : Strict key (inorder (h + 1) ((K₁ ++ a :: K₂,C₁ ++ y :: z :: C₂) : Node κ (h + 1))))
    (hk : key a = key k) (hx : Filled t (h + 1) x) (hsize : (K₁ ++ a :: K₂).length ≤ x.1.length + 1)
    (hin : inorder (h + 1) x = before K₁ (C₁.map (inorder h)) ++
      (inorder h y ++ (inorder h z ++ after K₂ (C₂.map (inorder h)))))
    (b : κ) : Deleted (h := h + 1) key t (.key k) (K₁ ++ a :: K₂,C₁ ++ y :: z :: C₂) (b,x) := by
  refine ⟨?_,hx,hsize⟩
  change inorder (h + 1) x = without key (key k) _
  rw [inorder_two hl,← List.append_assoc] at hs
  rw [inorder_two hl,← hk,← List.append_assoc,without_cut hs,hin,List.append_assoc]

theorem Filled.focus {x : Node κ (h + 1)} (hx : Filled t (h + 1) x) {K₁ K₂ : List κ} (hks : x.1 = K₁ ++ K₂) :
    ∃ f : Focus κ h, x = f.node ∧ f.K₁ = K₁ ∧ f.K₂ = K₂ := by
  obtain ⟨ks,cs⟩ := x
  have hlen := hx.2.1
  dsimp only at hks hlen
  subst hks
  rw [List.length_append] at hlen
  obtain ⟨C₁,c,C₂,rfl,hC⟩ := exists_cut (l := cs) (i := K₁.length) (by omega)
  exact ⟨⟨K₁,C₁,c,K₂,C₂,hC.symm⟩,rfl,rfl,rfl⟩

theorem delpAux_spec (ht : 2 ≤ t) (h : Nat) (x : Node κ h) (s : Pick κ) (hx : Filled t h x) (hne : 0 < size h x)
    (hs : Strict key (inorder h x)) (hp : Pickable key s (inorder h x)) :
    ∃ r, delpAux key t h x s = some r ∧ Deleted key t s x r := by
  induction h generalizing s with
  | zero => exact delpAux_leaf x s hx hne hs hp
  | succ h ih =>
    have hne' : 0 < x.1.length := hne
    have hsk : Sorted key x.1 := hs.sorted.sublist (keys_sublist (h + 1) x (hx.shape ht))
    unfold delpAux
    rcases place_cases hsk hne' s with ⟨k,K₁,a,K₂,rfl,hks,hplace,ha⟩ | ⟨K₁,K₂,hks,hi,hr,hsides⟩
    · have hlt : K₁.length < x.1.length := by
        rw [hks]
        simp
      obtain ⟨L₁,m,L₂,C₁,y,z,C₂,rfl,hL,hC⟩ := hx.cut hlt
      obtain ⟨rfl,hrest⟩ := List.append_inj hks hL
      obtain ⟨rfl,rfl⟩ := List.cons.inj hrest
      obtain ⟨hy,hz⟩ := filled_pair hx
      have hsy : Strict key (inorder h y ++ m :: inorder h z) := by
        rw [inorder_two hC.symm] at hs
        exact hs.sublist ((List.Sublist.append_left ((List.sublist_append_left _ _).cons_cons m) _).trans
          (List.sublist_append_right _ _))
      obtain ⟨hdrop,-,-⟩ := strict_cut.mp hsy
      have hkeys (b : κ) : (L₁ ++ m :: L₂).length ≤ (L₁ ++ b :: L₂).length + 1 := by
        simp
      simp only [hplace,if_true,Int.toNat_natCast,around_cut rfl hC,Option.bind_some]
      rw [if_neg (not_lt.mpr (Int.natCast_nonneg _))]
      by_cases hyt : t ≤ size h y
      · -- the last key before m comes up
        obtain ⟨⟨b,y'⟩,hdel,hd⟩ := ih y .last hy.2 (by omega) (hdrop.sublist (List.sublist_append_left _ _)) trivial
        have hcut : inorder h y = inorder h y' ++ [b] := hd.picked
        have hsize := hd.size
        rw [if_pos hyt,hdel,Option.map_some,setAround_cut rfl hC]
        refine ⟨_,rfl,between_deleted hC.symm hs ha (filled_replace hx b ⟨by omega,hd.filled⟩ hz) (hkeys b) ?_ m⟩
        rw [inorder_two hC.symm,hcut]
        simp
      · rw [if_neg hyt]
        by_cases hzt : t ≤ size h z
        · -- the first key behind m comes up
          obtain ⟨⟨b,z'⟩,hdel,hd⟩ := ih z .first hz.2 (by omega) (hdrop.sublist (List.sublist_append_right _ _)) trivial
          have hcut : inorder h z = b :: inorder h z' := hd.picked
          have hsize := hd.size
          rw [if_pos hzt,hdel,Option.map_some,setAround_cut rfl hC]
          refine ⟨_,rfl,between_deleted hC.symm hs ha (filled_replace hx b hy ⟨by omega,hd.filled⟩) (hkeys b) ?_ m⟩
          rw [inorder_two hC.symm,hcut]
          simp
        · -- the key goes down into the merged child and is taken out there
          have hmerged := merge_inorder (m := k) (hy.2.shape ht) (hz.2.shape ht)
          have hsk' : Strict key (inorder h y ++ k :: inorder h z) := strict_swap ha.symm hsy
          have hsize := merge_size y z k
          obtain ⟨⟨b,c⟩,hdel,hd⟩ := ih (kbMerge h y k z) (.key k) (merge_filled ht hy.2 hz.2 (by omega) (by omega))
            (by omega) (hmerged ▸ hsk') ⟨k,by rw [hmerged]; simp,rfl⟩
          have hcut : inorder h c = inorder h y ++ inorder h z := by
            have hpick : inorder h c = without key (key k) (inorder h (kbMerge h y k z)) := hd.picked
            rw [hpick,hmerged,without_cut hsk']
          have hsize' := hd.size
          rw [if_neg hzt,if_pos ⟨by omega,by omega⟩]
          simp only [hdel,Option.map_some,joinAround_cut rfl hC]
          refine ⟨_,rfl,between_deleted hC.symm hs ha (filled_join hx ⟨by omega,hd.filled⟩) ?_ ?_ b⟩
          · simp only [List.length_append,List.length_cons]
            omega
          · rw [inorder_one hC.symm,hcut]
            simp
    · obtain ⟨f,rfl,rfl,rfl⟩ := hx.focus hks
      have hindex : ((place key f.node.1 s).1 + 1).toNat = f.K₁.length := by
        rw [hi]
        omega
      rw [if_neg hr]
      simp only [hindex]
      exact delpAux_descend ht hx hne' hs hsides hp (fun x hx hne hs hp => ih x s hx hne hs hp)

end Erase

end Kbtree
