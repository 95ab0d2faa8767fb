import Rtfs.Klib.KbtreeDel

namespace Kbtree
variable {κ ι : Type} {h : Nat} {t : Nat}

-- a node below the root has t - 1 keys at least, no node has more than 2 t - 1
def Filled (t : Nat) : (h : Nat) → Node κ h → Prop
  | 0, ks => size 0 ks ≤ 2 * t - 1
  | h + 1, x => x.1.length ≤ 2 * t - 1 ∧ x.2.length = x.1.length + 1 ∧
      ∀ c ∈ x.2, t - 1 ≤ size h c ∧ Filled t h c

theorem Filled.shape (ht : 2 ≤ t) {x : Node κ h} (hx : Filled t h x) : Shape h x := by
  induction h with
  | zero => trivial
  | succ h ih =>
    obtain ⟨-,hlen,hc⟩ := hx
    refine ⟨hlen,fun c hin => ⟨List.ne_nil_of_length_pos ?_,ih (hc c hin).2⟩⟩
    have hsize := (hc c hin).1
    unfold size at hsize
    omega

theorem Filled.le {x : Node κ h} (hx : Filled t h x) : size h x ≤ 2 * t - 1 := by
  cases h with
  | zero => exact hx
  | succ h => exact hx.1

section Lists
variable {α : Type} {l₁ l₂ : List α} {a b c : α} {i : Nat}

theorem exists_cut {l : List α} (h : i < l.length) : ∃ l₁ a l₂, l = l₁ ++ a :: l₂ ∧ l₁.length = i :=
  ⟨l.take i,l[i],l.drop (i + 1),by rw [← List.drop_eq_getElem_cons h,List.take_append_drop],
    List.length_take_of_le h.le⟩

theorem get_cut (h : l₁.length = i) : (l₁ ++ a :: l₂)[i]? = some a := by
  subst h
  rw [List.getElem?_append_right le_rfl,Nat.sub_self]
  rfl

theorem get_cut_succ (h : l₁.length = i) : (l₁ ++ a :: b :: l₂)[i + 1]? = some b := by
  subst h
  rw [List.getElem?_append_right (Nat.le_add_right _ 1),Nat.add_sub_cancel_left]
  rfl

theorem set_cut (h : l₁.length = i) : (l₁ ++ a :: l₂).set i b = l₁ ++ b :: l₂ := by
  subst h
  rw [List.set_append_right _ _ le_rfl,Nat.sub_self]
  rfl

theorem set_cut_succ (h : l₁.length = i) : (l₁ ++ a :: b :: l₂).set (i + 1) c = l₁ ++ a :: c :: l₂ := by
  subst h
  rw [List.set_append_right _ _ (Nat.le_add_right _ 1),Nat.add_sub_cancel_left]
  rfl

theorem erase_cut (h : l₁.length = i) : (l₁ ++ a :: l₂).eraseIdx i = l₁ ++ l₂ := by
  subst h
  rw [List.eraseIdx_append_of_length_le le_rfl,Nat.sub_self]
  rfl

theorem erase_cut_succ (h : l₁.length = i) : (l₁ ++ a :: b :: l₂).eraseIdx (i + 1) = l₁ ++ a :: l₂ := by
  subst h
  rw [List.eraseIdx_append_of_length_le (Nat.le_add_right _ 1),Nat.add_sub_cancel_left]
  rfl

end Lists

section Cuts
variable {K₁ K₂ : List κ} {C₁ C₂ : List (Node κ h)} {y z c : Node κ h} {m a : κ} {i : Nat}

theorem inorder_one (hl : K₁.length = C₁.length) :
    inorder (h + 1) ((K₁ ++ K₂,C₁ ++ c :: C₂) : Node κ (h + 1)) =
      before K₁ (C₁.map (inorder h)) ++ (inorder h c ++ after K₂ (C₂.map (inorder h))) := by
  have hb := before_after K₁ K₂ (C₁.map (inorder h)) (C₂.map (inorder h)) (inorder h c) (by simpa using hl)
  rw [← List.map_cons,← List.map_append] at hb
  exact hb

theorem inorder_two (hl : K₁.length = C₁.length) :
    inorder (h + 1) ((K₁ ++ m :: K₂,C₁ ++ y :: z :: C₂) : Node κ (h + 1)) =
      before K₁ (C₁.map (inorder h)) ++ (inorder h y ++ m :: (inorder h z ++ after K₂ (C₂.map (inorder h)))) :=
  inorder_one hl

theorem before_concat (hl : K₁.length = C₁.length) : before (K₁ ++ [m]) ((C₁ ++ [y]).map (inorder h)) =
    before K₁ (C₁.map (inorder h)) ++ (inorder h y ++ [m]) := by
  induction K₁ generalizing C₁ with
  | nil =>
    obtain rfl := List.length_eq_zero_iff.mp hl.symm
    rfl
  | cons k K₁ ih =>
    cases C₁ with
    | nil => simp at hl
    | cons d C₁ =>
      change inorder h d ++ k :: before (K₁ ++ [m]) ((C₁ ++ [y]).map (inorder h)) = _
      rw [ih (by simpa using hl)]
      simp [before]

theorem Filled.cut {x : Node κ (h + 1)} (hx : Filled t (h + 1) x) (hi : i < x.1.length) :
    ∃ K₁ m K₂ C₁ y z C₂, x = (K₁ ++ m :: K₂,C₁ ++ y :: z :: C₂) ∧ K₁.length = i ∧ C₁.length = i := by
  obtain ⟨ks,cs⟩ := x
  obtain ⟨-,hlen,-⟩ := hx
  obtain ⟨K₁,m,K₂,rfl,hK⟩ := exists_cut hi
  obtain ⟨C₁,y,C,rfl,hC⟩ := exists_cut (l := cs) (i := i) (by dsimp only at hlen hi; omega)
  have hne : C ≠ [] := by
    intro hnil
    subst hnil
    simp at hlen
    omega
  obtain ⟨z,C₂,rfl⟩ := List.exists_cons_of_ne_nil hne
  exact ⟨K₁,m,K₂,C₁,y,z,C₂,rfl,hK,hC⟩

theorem around_cut (hK : K₁.length = i) (hC : C₁.length = i) :
    around ((K₁ ++ m :: K₂,C₁ ++ y :: z :: C₂) : Node κ (h + 1)) i = some (y,m,z) := by
  unfold around
  rw [get_cut hK,get_cut hC,get_cut_succ hC]
  rfl

theorem setAround_cut (hK : K₁.length = i) (hC : C₁.length = i) (p : Node κ h × κ × Node κ h) :
    setAround ((K₁ ++ m :: K₂,C₁ ++ y :: z :: C₂) : Node κ (h + 1)) i p =
      (K₁ ++ p.2.1 :: K₂,C₁ ++ p.1 :: p.2.2 :: C₂) := by
  unfold setAround
  rw [set_cut hK,set_cut hC,set_cut_succ hC]

theorem joinAround_cut (hK : K₁.length = i) (hC : C₁.length = i) (c : Node κ h) :
    joinAround ((K₁ ++ m :: K₂,C₁ ++ y :: z :: C₂) : Node κ (h + 1)) i c = (K₁ ++ K₂,C₁ ++ c :: C₂) := by
  unfold joinAround
  rw [erase_cut hK,erase_cut_succ hC,set_cut hC]

end Cuts

section Moves
variable {y z : Node κ h} {m : κ}

theorem merge_size (y z : Node κ h) (m : κ) : size h (kbMerge h y m z) = size h y + size h z + 1 := by
  cases h with
  | zero =>
    change (keys 0 y ++ m :: keys 0 z).length = (keys 0 y).length + (keys 0 z).length + 1
    rw [List.length_append,List.length_cons]
    omega
  | succ h =>
    change (y.1 ++ m :: z.1).length = y.1.length + z.1.length + 1
    rw [List.length_append,List.length_cons]
    omega

theorem merge_inorder (hy : Shape h y) (hz : Shape h z) :
    inorder h (kbMerge h y m z) = inorder h y ++ m :: inorder h z := by
  cases h with
  | zero => rfl
  | succ h =>
    have hlen : y.2.length = y.1.length + 1 := hy.1
    have hlen' : z.2.length = z.1.length + 1 := hz.1
    have hw := weave_cut y.1 z.1 (y.2.map (inorder h)) (z.2.map (inorder h)) m (by simpa using hlen)
      (List.ne_nil_of_length_pos (by rw [List.length_map]; omega))
    rw [← List.map_append] at hw
    exact hw

theorem merge_filled (ht : 2 ≤ t) (hy : Filled t h y) (hz : Filled t h z) (hys : size h y = t - 1)
    (hzs : size h z = t - 1) : Filled t h (kbMerge h y m z) := by
  have hsize := merge_size y z m
  cases h with
  | zero =>
    change size 0 (kbMerge 0 y m z) ≤ _
    omega
  | succ h =>
    have hlen : y.2.length = y.1.length + 1 := hy.2.1
    have hlen' : z.2.length = z.1.length + 1 := hz.2.1
    refine ⟨?_,?_,fun c hc => ?_⟩
    · change size (h + 1) (kbMerge (h + 1) y m z) ≤ _
      omega
    · simp only [kbMerge,List.length_append,List.length_cons]
      omega
    · rcases List.mem_append.mp hc with hc | hc
      · exact hy.2.2 c hc
      · exact hz.2.2 c hc

theorem shiftRight_spec (hy : Filled t h y) (hz : Filled t h z) (hpos : 0 < size h y) (hlt : size h z < 2 * t - 1) :
    ∃ y' a z' q, shiftRight h y m z = some (y',a,z') ∧ Filled t h y' ∧ Filled t h z' ∧ size h y' + 1 = size h y ∧
      size h z' = size h z + 1 ∧ inorder h z' = q ++ inorder h z ∧ inorder h y ++ [m] = inorder h y' ++ a :: q := by
  cases h with
  | zero =>
    obtain ⟨ys,a,hya⟩ : ∃ ys a, keys 0 y = ys ++ [a] :=
      ⟨_,_,(List.dropLast_append_getLast (List.ne_nil_of_length_pos hpos)).symm⟩
    have hys : inorder 0 y = ys ++ [a] := hya
    have hsize : size 0 y = ys.length + 1 := by
      unfold size
      rw [hya,List.length_append]
      rfl
    have hle : size 0 y ≤ 2 * t - 1 := hy
    refine ⟨(ys : List κ),a,(m :: keys 0 z : List κ),[m],?_,?_,hlt,hsize.symm,rfl,rfl,?_⟩
    · simp only [shiftRight,hya,List.getLast?_concat,List.dropLast_concat,Option.map_some]
    · change ys.length ≤ _
      omega
    · rw [hys]
      simp [inorder]
  | succ h =>
    obtain ⟨ks,cs⟩ := y
    obtain ⟨hle,hlen,hcs⟩ := hy
    obtain ⟨-,hlen',hcs'⟩ := hz
    change 0 < ks.length at hpos
    dsimp only at hle hlen hcs
    obtain ⟨K,a,rfl⟩ : ∃ K a, ks = K ++ [a] :=
      ⟨_,_,(List.dropLast_append_getLast (List.ne_nil_of_length_pos hpos)).symm⟩
    obtain ⟨C,c,rfl⟩ : ∃ C c, cs = C ++ [c] :=
      ⟨_,_,(List.dropLast_append_getLast (List.ne_nil_of_length_pos (by omega))).symm⟩
    simp only [List.length_append,List.length_cons,List.length_nil] at hle hlen
    have hin : inorder (h + 1) ((K ++ [a],C ++ [c]) : Node κ (h + 1)) =
        inorder (h + 1) ((K,C) : Node κ (h + 1)) ++ a :: inorder h c := by
      have hw := weave_cut K [] (C.map (inorder h)) [inorder h c] a (by simp; omega) (List.cons_ne_nil _ _)
      simp only [weave,after,List.append_nil] at hw
      change weave (K ++ [a]) ((C ++ [c]).map (inorder h)) = _
      rw [List.map_append]
      exact hw
    refine ⟨(K,C),a,(m :: z.1,c :: z.2),inorder h c ++ [m],?_,?_,?_,?_,rfl,?_,?_⟩
    · simp only [shiftRight,List.getLast?_concat,List.dropLast_concat,Option.map_some,Option.bind_some]
    · exact ⟨by dsimp only; omega,by dsimp only; omega,fun d hd => hcs d (List.mem_append_left _ hd)⟩
    · refine ⟨hlt,by simp only [List.length_cons]; omega,fun d hd => ?_⟩
      rcases List.mem_cons.mp hd with rfl | hd
      · exact hcs _ (List.mem_append_right _ (List.mem_singleton.mpr rfl))
      · exact hcs' d hd
    · change K.length + 1 = (K ++ [a]).length
      rw [List.length_append]
      rfl
    · obtain ⟨e,es,hes⟩ := List.exists_cons_of_length_eq_add_one hlen'
      simp [inorder,weave,after,hes]
    · rw [hin]
      simp

theorem shiftLeft_spec (hy : Filled t h y) (hz : Filled t h z) (hpos : 0 < size h z) (hlt : size h y < 2 * t - 1) :
    ∃ y' a z' q, shiftLeft h y m z = some (y',a,z') ∧ Filled t h y' ∧ Filled t h z' ∧ size h z' + 1 = size h z ∧
      size h y' = size h y + 1 ∧ inorder h y' = inorder h y ++ q ∧ m :: inorder h z = q ++ a :: inorder h z' := by
  cases h with
  | zero =>
    obtain ⟨a,zs,hza⟩ := List.exists_cons_of_ne_nil (List.ne_nil_of_length_pos hpos)
    have hzs : inorder 0 z = a :: zs := hza
    have hsize : size 0 z = zs.length + 1 := congrArg List.length hza
    have hle : size 0 z ≤ 2 * t - 1 := hz
    have hlen : (keys 0 y ++ [m]).length = (keys 0 y).length + 1 := List.length_append
    refine ⟨(keys 0 y ++ [m] : List κ),a,(zs : List κ),[m],?_,?_,?_,hsize.symm,hlen,rfl,?_⟩
    · simp only [shiftLeft,hza,List.head?_cons,List.tail_cons,Option.map_some]
    · change (keys 0 y ++ [m]).length ≤ _
      rw [hlen]
      exact hlt
    · change zs.length ≤ _
      omega
    · rw [hzs]
      rfl
  | succ h =>
    obtain ⟨ks,cs⟩ := z
    obtain ⟨hle,hlen,hcs⟩ := hz
    obtain ⟨-,hlen',hcs'⟩ := hy
    change 0 < ks.length at hpos
    dsimp only at hle hlen hcs
    obtain ⟨a,K,rfl⟩ := List.exists_cons_of_ne_nil (List.ne_nil_of_length_pos hpos)
    obtain ⟨c,C,rfl⟩ := List.exists_cons_of_length_eq_add_one hlen
    simp only [List.length_cons] at hle hlen
    obtain ⟨e,C,rfl⟩ := List.exists_cons_of_length_eq_add_one (Nat.succ.inj hlen)
    have hw := weave_cut y.1 [] (y.2.map (inorder h)) [inorder h c] m (by simpa using hlen') (List.cons_ne_nil _ _)
    simp only [weave,after,List.append_nil] at hw
    have hsize : (y.1 ++ [m]).length = y.1.length + 1 := List.length_append
    refine ⟨(y.1 ++ [m],y.2 ++ [c]),a,(K,e :: C),m :: inorder h c,?_,?_,?_,rfl,hsize,?_,?_⟩
    · simp only [shiftLeft,List.head?_cons,List.tail_cons,Option.map_some,Option.bind_some]
    · refine ⟨by dsimp only; rw [hsize]; exact hlt,?_,fun d hd => ?_⟩
      · simp only [List.length_append,List.length_cons,List.length_nil]
        omega
      · rcases List.mem_append.mp hd with hd | hd
        · exact hcs' d hd
        · rw [List.mem_singleton.mp hd]
          exact hcs c List.mem_cons_self
    · exact ⟨by dsimp only; omega,Nat.succ.inj hlen,fun d hd => hcs d (List.mem_cons_of_mem _ hd)⟩
    · change weave (y.1 ++ [m]) ((y.2 ++ [c]).map (inorder h)) = _
      rw [List.map_append]
      exact hw
    · simp [inorder,weave,after]

end Moves

structure Focus (κ : Type) (h : Nat) where
  K₁ : List κ
  C₁ : List (Node κ h)
  child : Node κ h
  K₂ : List κ
  C₂ : List (Node κ h)
  same : K₁.length = C₁.length

namespace Focus
variable (f : Focus κ h)

def node : Node κ (h + 1) := (f.K₁ ++ f.K₂,f.C₁ ++ f.child :: f.C₂)

def front : List κ := before f.K₁ (f.C₁.map (inorder h))

def back : List κ := after f.K₂ (f.C₂.map (inorder h))

theorem inorder_node : inorder (h + 1) f.node = f.front ++ (inorder h f.child ++ f.back) := inorder_one f.same

theorem get_child : f.node.2[f.K₁.length]? = some f.child := get_cut f.same.symm

theorem set_child (c : Node κ h) :
    ((f.node.1,f.node.2.set f.K₁.length c) : Node κ (h + 1)) = { f with child := c }.node := by
  unfold node
  rw [set_cut f.same.symm]

theorem childSize_child : childSize f.node f.K₁.length = size h f.child := by
  unfold childSize
  rw [f.get_child]
  rfl

theorem filled_child (hx : Filled t (h + 1) f.node) : t - 1 ≤ size h f.child ∧ Filled t h f.child :=
  hx.2.2 f.child (List.mem_append_right _ List.mem_cons_self)

theorem filled_put (hx : Filled t (h + 1) f.node) {c : Node κ h} (hc : t - 1 ≤ size h c ∧ Filled t h c) :
    Filled t (h + 1) { f with child := c }.node := by
  refine ⟨hx.1,?_,fun d hd => ?_⟩
  · have hlen := hx.2.1
    simp only [node,List.length_append,List.length_cons] at hlen ⊢
    exact hlen
  · rcases List.mem_append.mp hd with hd | hd
    · exact hx.2.2 d (List.mem_append_left _ hd)
    · rcases List.mem_cons.mp hd with rfl | hd
      · exact hc
      · exact hx.2.2 d (List.mem_append_right _ (List.mem_cons_of_mem _ hd))

structure Refilled (t : Nat) (f g : Focus κ h) : Prop where
  filled : Filled t (h + 1) g.node
  enough : t ≤ size h g.child
  length : f.node.1.length ≤ g.node.1.length + 1
  wider : ∃ p q, inorder h g.child = p ++ (inorder h f.child ++ q) ∧ f.front = g.front ++ p ∧ f.back = q ++ g.back

end Focus

section Refill
variable {K K₂ : List κ} {C C₂ : List (Node κ h)} {y z : Node κ h} {m : κ}

theorem filled_pair (hx : Filled t (h + 1) ((K ++ m :: K₂,C ++ y :: z :: C₂) : Node κ (h + 1))) :
    (t - 1 ≤ size h y ∧ Filled t h y) ∧ t - 1 ≤ size h z ∧ Filled t h z :=
  ⟨hx.2.2 y (List.mem_append_right _ List.mem_cons_self),
    hx.2.2 z (List.mem_append_right _ (List.mem_cons_of_mem _ List.mem_cons_self))⟩

theorem filled_replace (hx : Filled t (h + 1) ((K ++ m :: K₂,C ++ y :: z :: C₂) : Node κ (h + 1))) (a : κ)
    {y' z' : Node κ h} (hy : t - 1 ≤ size h y' ∧ Filled t h y') (hz : t - 1 ≤ size h z' ∧ Filled t h z') :
    Filled t (h + 1) ((K ++ a :: K₂,C ++ y' :: z' :: C₂) : Node κ (h + 1)) := by
  obtain ⟨hle,hlen,hcs⟩ := hx
  refine ⟨?_,?_,fun d hd => ?_⟩
  · simpa using hle
  · simpa using hlen
  · rcases List.mem_append.mp hd with hd | hd
    · exact hcs d (List.mem_append_left _ hd)
    · rcases List.mem_cons.mp hd with rfl | hd
      · exact hy
      · rcases List.mem_cons.mp hd with rfl | hd
        · exact hz
        · exact hcs d (List.mem_append_right _ (List.mem_cons_of_mem _ (List.mem_cons_of_mem _ hd)))

theorem filled_join (hx : Filled t (h + 1) ((K ++ m :: K₂,C ++ y :: z :: C₂) : Node κ (h + 1)))
    {c : Node κ h} (hc : t - 1 ≤ size h c ∧ Filled t h c) :
    Filled t (h + 1) ((K ++ K₂,C ++ c :: C₂) : Node κ (h + 1)) := by
  obtain ⟨hle,hlen,hcs⟩ := hx
  simp only [List.length_append,List.length_cons] at hle hlen
  refine ⟨?_,?_,fun d hd => ?_⟩
  · simp only [List.length_append]
    omega
  · simp only [List.length_append,List.length_cons]
    omega
  · rcases List.mem_append.mp hd with hd | hd
    · exact hcs d (List.mem_append_left _ hd)
    · rcases List.mem_cons.mp hd with rfl | hd
      · exact hc
      · exact hcs d (List.mem_append_right _ (List.mem_cons_of_mem _ (List.mem_cons_of_mem _ hd)))

def rightOf (K : List κ) (C : List (Node κ h)) (y : Node κ h) (m : κ) (z : Node κ h) (K₂ : List κ)
    (C₂ : List (Node κ h)) (hl : K.length = C.length) : Focus κ h :=
  ⟨K ++ [m],C ++ [y],z,K₂,C₂,by simp [hl]⟩

def leftOf (K : List κ) (C : List (Node κ h)) (y : Node κ h) (m : κ) (z : Node κ h) (K₂ : List κ)
    (C₂ : List (Node κ h)) (hl : K.length = C.length) : Focus κ h := ⟨K,C,y,m :: K₂,z :: C₂,hl⟩

variable (hl : K.length = C.length)

theorem rightOf_node : (rightOf K C y m z K₂ C₂ hl).node = (K ++ m :: K₂,C ++ y :: z :: C₂) := by
  unfold Focus.node rightOf
  rw [List.append_assoc,List.append_assoc]
  rfl

theorem rightOf_front : (rightOf K C y m z K₂ C₂ hl).front =
    before K (C.map (inorder h)) ++ (inorder h y ++ [m]) := before_concat hl

include hl

theorem refill_fromLeft (ht : 2 ≤ t) (hx : Filled t (h + 1) ((K ++ m :: K₂,C ++ y :: z :: C₂) : Node κ (h + 1)))
    (hy : t ≤ size h y) (hz : size h z = t - 1) :
    ∃ p g, shiftRight h y m z = some p ∧ (rightOf K C y m z K₂ C₂ hl).Refilled t g ∧
      setAround ((K ++ m :: K₂,C ++ y :: z :: C₂) : Node κ (h + 1)) K.length p = g.node ∧
      g.K₁.length = K.length + 1 := by
  obtain ⟨⟨-,hyf⟩,-,hzf⟩ := filled_pair hx
  obtain ⟨y',a,z',q,he,hy',hz',hys,hzs,hin,hcut⟩ := shiftRight_spec (m := m) hyf hzf (by omega) (by omega)
  refine ⟨(y',a,z'),rightOf K C y' a z' K₂ C₂ hl,he,⟨?_,?_,?_,q,[],?_,?_,?_⟩,?_,?_⟩
  · rw [rightOf_node]
    exact filled_replace hx a ⟨by omega,hy'⟩ ⟨by omega,hz'⟩
  · change t ≤ size h z'
    omega
  · rw [rightOf_node,rightOf_node]
    simp
  · change inorder h z' = q ++ (inorder h z ++ [])
    rw [hin,List.append_nil]
  · rw [rightOf_front,rightOf_front,hcut]
    simp
  · rfl
  · rw [rightOf_node,setAround_cut rfl hl.symm]
  · simp [rightOf]

theorem refill_fromRight (ht : 2 ≤ t) (hx : Filled t (h + 1) ((K ++ m :: K₂,C ++ y :: z :: C₂) : Node κ (h + 1)))
    (hy : size h y = t - 1) (hz : t ≤ size h z) :
    ∃ p g, shiftLeft h y m z = some p ∧ (leftOf K C y m z K₂ C₂ hl).Refilled t g ∧
      setAround ((K ++ m :: K₂,C ++ y :: z :: C₂) : Node κ (h + 1)) K.length p = g.node ∧ g.K₁.length = K.length := by
  obtain ⟨⟨-,hyf⟩,-,hzf⟩ := filled_pair hx
  obtain ⟨y',a,z',q,he,hy',hz',hzs,hys,hin,hcut⟩ := shiftLeft_spec (m := m) hyf hzf (by omega) (by omega)
  refine ⟨(y',a,z'),leftOf K C y' a z' K₂ C₂ hl,he,⟨?_,?_,?_,[],q,?_,?_,?_⟩,?_,rfl⟩
  · change Filled t (h + 1) ((K ++ a :: K₂,C ++ y' :: z' :: C₂) : Node κ (h + 1))
    exact filled_replace hx a ⟨by omega,hy'⟩ ⟨by omega,hz'⟩
  · change t ≤ size h y'
    omega
  · change (K ++ m :: K₂).length ≤ (K ++ a :: K₂).length + 1
    simp
  · exact hin
  · exact (List.append_nil _).symm
  · change m :: (inorder h z ++ after K₂ (C₂.map (inorder h))) =
      q ++ a :: (inorder h z' ++ after K₂ (C₂.map (inorder h)))
    have hcut' := congrArg (· ++ after K₂ (C₂.map (inorder h))) hcut
    simpa using hcut'
  · exact setAround_cut rfl hl.symm (y',a,z')

theorem refill_merged (ht : 2 ≤ t) (hx : Filled t (h + 1) ((K ++ m :: K₂,C ++ y :: z :: C₂) : Node κ (h + 1)))
    (hy : size h y = t - 1) (hz : size h z = t - 1) :
    ∃ g : Focus κ h, joinAround ((K ++ m :: K₂,C ++ y :: z :: C₂) : Node κ (h + 1)) K.length (kbMerge h y m z) =
      g.node ∧ g.K₁.length = K.length ∧ (rightOf K C y m z K₂ C₂ hl).Refilled t g ∧
      (leftOf K C y m z K₂ C₂ hl).Refilled t g := by
  obtain ⟨⟨-,hyf⟩,-,hzf⟩ := filled_pair hx
  have hmerge := merge_inorder (m := m) (hyf.shape ht) (hzf.shape ht)
  have hsize := merge_size y z m
  have hfill := filled_join hx ⟨by omega,merge_filled (m := m) ht hyf hzf hy hz⟩
  have hlen : (K ++ m :: K₂).length ≤ (K ++ K₂).length + 1 := by
    simp only [List.length_append,List.length_cons]
    omega
  refine ⟨⟨K,C,kbMerge h y m z,K₂,C₂,hl⟩,joinAround_cut rfl hl.symm _,rfl,
    ⟨hfill,?_,?_,inorder h y ++ [m],[],?_,?_,rfl⟩,⟨hfill,?_,hlen,[],m :: inorder h z,?_,(List.append_nil _).symm,rfl⟩⟩
  · change t ≤ size h (kbMerge h y m z)
    omega
  · rw [rightOf_node]
    exact hlen
  · change inorder h (kbMerge h y m z) = inorder h y ++ [m] ++ (inorder h z ++ [])
    rw [hmerge]
    simp
  · rw [rightOf_front]
    rfl
  · change t ≤ size h (kbMerge h y m z)
    omega
  · exact hmerge

omit hl

theorem childSize_left : childSize ((K ++ m :: K₂,C ++ y :: z :: C₂) : Node κ (h + 1)) C.length = size h y := by
  unfold childSize
  rw [get_cut rfl]
  rfl

theorem childSize_right : childSize ((K ++ m :: K₂,C ++ y :: z :: C₂) : Node κ (h + 1)) (C.length + 1) = size h z := by
  unfold childSize
  rw [get_cut_succ rfl]
  rfl

end Refill

section Descend
variable {f : Focus κ h}

theorem Focus.left_cut (hi : 0 < f.K₁.length) : ∃ K C y m hl, f = rightOf K C y m f.child f.K₂ f.C₂ hl := by
  obtain ⟨K₁,C₁,c,K₂,C₂,hl⟩ := f
  dsimp only at hi ⊢
  obtain ⟨K,m,rfl⟩ : ∃ K m, K₁ = K ++ [m] := ⟨_,_,(List.dropLast_append_getLast (List.ne_nil_of_length_pos hi)).symm⟩
  obtain ⟨C,y,rfl⟩ : ∃ C y, C₁ = C ++ [y] :=
    ⟨_,_,(List.dropLast_append_getLast (List.ne_nil_of_length_pos (hl ▸ hi))).symm⟩
  exact ⟨K,C,y,m,by simpa using hl,rfl⟩

theorem Focus.right_cut (hx : Filled t (h + 1) f.node) (hi : f.K₁.length < f.node.1.length) :
    ∃ m K₂ z C₂, f = leftOf f.K₁ f.C₁ f.child m z K₂ C₂ f.same := by
  obtain ⟨K₁,C₁,c,ks,cs,hl⟩ := f
  have hlen := hx.2.1
  simp only [Focus.node,List.length_append,List.length_cons] at hi hlen
  obtain ⟨m,K₂,rfl⟩ := List.exists_cons_of_ne_nil (List.ne_nil_of_length_pos (l := ks) (by omega))
  obtain ⟨z,C₂,rfl⟩ := List.exists_cons_of_ne_nil (List.ne_nil_of_length_pos (l := cs) (by
    simp only [List.length_cons] at hlen
    omega))
  exact ⟨m,K₂,z,C₂,rfl⟩

theorem refill_left (ht : 2 ≤ t) (hx : Filled t (h + 1) f.node) (hc : size h f.child = t - 1) (hi : 0 < f.K₁.length) :
    t - 1 ≤ childSize f.node (f.K₁.length - 1) ∧
    (t ≤ childSize f.node (f.K₁.length - 1) → ∃ g : Focus κ h, f.Refilled t g ∧
      (around f.node (f.K₁.length - 1)).bind (fun p => (shiftRight h p.1 p.2.1 p.2.2).map
        (fun q => (setAround f.node (f.K₁.length - 1) q,f.K₁.length))) = some (g.node,g.K₁.length)) ∧
    (childSize f.node (f.K₁.length - 1) = t - 1 → ∃ g : Focus κ h, f.Refilled t g ∧
      (around f.node (f.K₁.length - 1)).map (fun p => (joinAround f.node (f.K₁.length - 1) (kbMerge h p.1 p.2.1 p.2.2),
        f.K₁.length - 1)) = some (g.node,g.K₁.length)) := by
  obtain ⟨K,C,y,m,hl,hf⟩ := Focus.left_cut hi
  have hnode : f.node = (K ++ m :: f.K₂,C ++ y :: f.child :: f.C₂) := by
    rw [hf]
    exact rightOf_node hl
  have hindex : f.K₁.length = K.length + 1 := by
    rw [hf]
    simp [rightOf]
  have hsize : childSize f.node (f.K₁.length - 1) = size h y := by
    rw [hnode,hindex,Nat.add_sub_cancel,hl]
    exact childSize_left
  rw [hnode] at hx
  rw [hsize]
  refine ⟨(filled_pair hx).1.1,fun hy => ?_,fun hy => ?_⟩
  · obtain ⟨p,g,hp,hr,hset,hg⟩ := refill_fromLeft hl ht hx hy hc
    rw [← hf] at hr
    refine ⟨g,hr,?_⟩
    rw [hnode,hindex,Nat.add_sub_cancel,around_cut rfl hl.symm,Option.bind_some,hp,Option.map_some,hset,hg]
  · obtain ⟨g,hjoin,hg,hr,-⟩ := refill_merged hl ht hx hy hc
    rw [← hf] at hr
    refine ⟨g,hr,?_⟩
    rw [hnode,hindex,Nat.add_sub_cancel,around_cut rfl hl.symm,Option.map_some,hjoin,hg]

theorem refill_right (ht : 2 ≤ t) (hx : Filled t (h + 1) f.node) (hc : size h f.child = t - 1)
    (hi : f.K₁.length < f.node.1.length) :
    t - 1 ≤ childSize f.node (f.K₁.length + 1) ∧
    (t ≤ childSize f.node (f.K₁.length + 1) → ∃ g : Focus κ h, f.Refilled t g ∧
      (around f.node f.K₁.length).bind (fun p => (shiftLeft h p.1 p.2.1 p.2.2).map
        (fun q => (setAround f.node f.K₁.length q,f.K₁.length))) = some (g.node,g.K₁.length)) ∧
    (childSize f.node (f.K₁.length + 1) = t - 1 → ∃ g : Focus κ h, f.Refilled t g ∧
      (around f.node f.K₁.length).map (fun p => (joinAround f.node f.K₁.length (kbMerge h p.1 p.2.1 p.2.2),
        f.K₁.length)) = some (g.node,g.K₁.length)) := by
  obtain ⟨m,K₂,z,C₂,hf⟩ := Focus.right_cut hx hi
  have hnode : f.node = (f.K₁ ++ m :: K₂,f.C₁ ++ f.child :: z :: C₂) := congrArg Focus.node hf
  have hsize : childSize f.node (f.K₁.length + 1) = size h z := by
    rw [hnode,f.same]
    exact childSize_right
  rw [hnode] at hx
  rw [hsize]
  refine ⟨(filled_pair hx).2.1,fun hz => ?_,fun hz => ?_⟩
  · obtain ⟨p,g,hp,hr,hset,hg⟩ := refill_fromRight f.same ht hx hc hz
    rw [← hf] at hr
    refine ⟨g,hr,?_⟩
    rw [hnode,around_cut rfl f.same.symm,Option.bind_some,hp,Option.map_some,hset,hg]
  · obtain ⟨g,hjoin,hg,-,hr⟩ := refill_merged f.same ht hx hc hz
    rw [← hf] at hr
    refine ⟨g,hr,?_⟩
    rw [hnode,around_cut rfl f.same.symm,Option.map_some,hjoin,hg]

theorem refill_spec (ht : 2 ≤ t) (hx : Filled t (h + 1) f.node) (hne : 0 < f.node.1.length) :
    ∃ g : Focus κ h, refill f.node f.K₁.length t = some (g.node,g.K₁.length) ∧ f.Refilled t g := by
  have hle : f.K₁.length ≤ f.node.1.length := by
    simp [Focus.node]
  unfold refill
  rw [f.childSize_child]
  by_cases hc : size h f.child = t - 1
  · rw [if_neg (not_not.mpr hc)]
    have hleft (hi : 0 < f.K₁.length) := refill_left ht hx hc hi
    have hright (hi : f.K₁.length < f.node.1.length) := refill_right ht hx hc hi
    split
    · rename_i hB
      obtain ⟨g,hr,he⟩ := (hleft hB.1).2.1 hB.2
      exact ⟨g,he,hr⟩
    · rename_i hB
      split
      · rename_i hR
        obtain ⟨g,hr,he⟩ := (hright hR.1).2.1 hR.2
        exact ⟨g,he,hr⟩
      · rename_i hR
        split
        · rename_i hM
          obtain ⟨g,hr,he⟩ := (hleft hM.1).2.2 hM.2
          exact ⟨g,he,hr⟩
        · rename_i hM
          -- a node with a key has a sibling for each child
          have hzero : f.K₁.length = 0 := by
            by_contra hpos
            have hpos : 0 < f.K₁.length := Nat.pos_of_ne_zero hpos
            have hmin := (hleft hpos).1
            omega
          have hi : f.K₁.length < f.node.1.length := by omega
          have hmin := (hright hi).1
          rw [if_pos ⟨hi,by omega⟩]
          obtain ⟨g,hr,he⟩ := (hright hi).2.2 (by omega)
          exact ⟨g,he,hr⟩
  · rw [if_pos hc]
    have hmin := (f.filled_child hx).1
    exact ⟨f,rfl,hx,by omega,Nat.le_succ _,[],[],(List.append_nil _).symm,(List.append_nil _).symm,rfl⟩

end Descend

end Kbtree
