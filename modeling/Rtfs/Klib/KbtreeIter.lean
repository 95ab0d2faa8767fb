import Rtfs.Klib.KbtreeOrder

namespace Kbtree
variable {κ : Type}

structure Pos (κ : Type) where
  h : Nat
  x : Node κ h
  i : Nat

abbrev Itr (κ : Type) := List (Option (Pos κ))

def Pos.n (p : Pos κ) : Nat := (keys p.h p.x).length

def firstDown : (h : Nat) → Node κ h → Itr κ → Itr κ
  | 0, x, s => some ⟨0,x,0⟩ :: s
  | h + 1, x, s =>
    match x.2[0]? with
    | none => some ⟨h + 1,x,0⟩ :: s
    | some c => firstDown h c (some ⟨h + 1,x,0⟩ :: s)

def kbItrFirst (b : Tree κ) : Itr κ := if b.nKeys = 0 then [] else firstDown b.height b.root []

def pushDown : (h : Nat) → Node κ h → Nat → Itr κ → Itr κ
  | 0, x, i, s =>
    if i ≤ (keys 0 x).length then none :: some ⟨0,x,i⟩ :: s else some ⟨0,x,i⟩ :: s
  | h + 1, x, i, s =>
    if i ≤ x.1.length then
      match x.2[i]? with
      | none => none :: some ⟨h + 1,x,i⟩ :: s
      | some c => pushDown h c 0 (some ⟨h + 1,x,i⟩ :: s)
    else some ⟨h + 1,x,i⟩ :: s

def kbItrValid (s : Itr κ) : Prop := s ≠ []

def kbItrKey : Itr κ → Option κ
  | some p :: _ => (keys p.h p.x)[p.i]?
  | _ => none

def nextLoop : Nat → Itr κ → Itr κ
  | 0, _ => []
  | _ + 1, [] => []
  | fuel + 1, top :: s =>
    let s' := match top with
      | none => s
      | some p => (pushDown p.h p.x (p.i + 1) s).tail
    match s' with
    | [] => []
    | none :: _ => nextLoop fuel s'
    | some q :: _ => if q.i < q.n then s' else nextLoop fuel s'

def kbItrNext (s : Itr κ) : Itr κ := nextLoop (s.length + 1) s

def kbItrTake : Nat → Itr κ → List κ
  | 0, _ => []
  | n + 1, s => (kbItrKey s).toList ++ kbItrTake n (kbItrNext s)

def Pos.rest (p : Pos κ) : List κ :=
  match p with
  | ⟨0,x,i⟩ => (keys 0 x).drop i
  | ⟨h + 1,x,i⟩ => after (x.1.drop i) ((x.2.drop (i + 1)).map (inorder h))

def denote : Itr κ → List κ
  | [] => []
  | none :: s => denote s
  | some p :: s => p.rest ++ denote s

inductive Live : Itr κ → Prop
  | nil : Live []
  | cons {p : Pos κ} {s : Itr κ} : Shape p.h p.x → Live s → Live (some p :: s)

def Ready : Itr κ → Prop
  | some p :: _ => p.i < p.n
  | none :: _ => False
  | [] => True

theorem rest_zero_child {h : Nat} (x : Node κ (h + 1)) (c : Node κ h) (i : Nat)
    (hs : Shape (h + 1) x) (hi : i < x.1.length) (hc : x.2[i + 1]? = some c) :
    ∃ k, x.1[i]? = some k ∧
      (⟨h + 1,x,i⟩ : Pos κ).rest = k :: (inorder h c ++ (⟨h + 1,x,i + 1⟩ : Pos κ).rest) := by
  have hlen : x.2.length = x.1.length + 1 := hs.1
  obtain ⟨hlt,rfl⟩ := List.getElem?_eq_some_iff.mp hc
  refine ⟨x.1[i],List.getElem?_eq_getElem hi,?_⟩
  simp only [Pos.rest]
  rw [List.drop_eq_getElem_cons hi,List.drop_eq_getElem_cons hlt]
  rfl

theorem rest_first_child {h : Nat} (x : Node κ (h + 1)) (c : Node κ h)
    (hc : x.2[0]? = some c) :
    inorder (h + 1) x = inorder h c ++ (⟨h + 1,x,0⟩ : Pos κ).rest := by
  obtain ⟨ks,cs⟩ := x
  obtain ⟨ds,rfl⟩ : ∃ ds, cs = c :: ds := by
    cases cs with
    | nil => simp at hc
    | cons d ds => exact ⟨ds,by simpa using hc⟩
  rfl

theorem rest_exhausted (p : Pos κ) (hp : p.n ≤ p.i) : p.rest = [] := by
  obtain ⟨h,x,i⟩ := p
  cases h with
  | zero => exact List.drop_eq_nil_of_le hp
  | succ h =>
    have hd : x.1.drop i = [] := List.drop_eq_nil_of_le hp
    simp [Pos.rest,hd,after]

theorem firstDown_spec (h : Nat) (x : Node κ h) (s : Itr κ) (hs : Shape h x)
    (hne : keys h x ≠ []) (hl : Live s) :
    Live (firstDown h x s) ∧ Ready (firstDown h x s) ∧
      denote (firstDown h x s) = inorder h x ++ denote s := by
  induction h generalizing s with
  | zero =>
    exact ⟨.cons hs hl,List.length_pos_iff.mpr hne,rfl⟩
  | succ h ih =>
    have hlen : x.2.length = x.1.length + 1 := hs.1
    have hc : x.2[0]? = some x.2[0] := List.getElem?_eq_getElem (by omega)
    obtain ⟨hcne,hcs⟩ := hs.2 _ (List.mem_of_getElem? hc)
    obtain ⟨h1,h2,h3⟩ := ih x.2[0] (some ⟨h + 1,x,0⟩ :: s) hcs hcne (.cons hs hl)
    simp only [firstDown,hc]
    refine ⟨h1,h2,?_⟩
    rw [h3,rest_first_child x _ hc,List.append_assoc]
    rfl

theorem pushDown_zero (h : Nat) (x : Node κ h) (s : Itr κ) (hs : Shape h x) (hne : keys h x ≠ [])
    (hl : Live s) :
    Live (pushDown h x 0 s).tail ∧ Ready (pushDown h x 0 s).tail ∧
      (pushDown h x 0 s).tail ≠ [] ∧
      denote (pushDown h x 0 s).tail = inorder h x ++ denote s := by
  induction h generalizing s with
  | zero =>
    have hp : pushDown 0 x 0 s = none :: some ⟨0,x,0⟩ :: s := by simp [pushDown]
    rw [hp]
    exact ⟨.cons hs hl,List.length_pos_iff.mpr hne,by simp,rfl⟩
  | succ h ih =>
    have hlen : x.2.length = x.1.length + 1 := hs.1
    have hc : x.2[0]? = some x.2[0] := List.getElem?_eq_getElem (by omega)
    obtain ⟨hcne,hcs⟩ := hs.2 _ (List.mem_of_getElem? hc)
    obtain ⟨h1,h2,h3,h4⟩ := ih x.2[0] (some ⟨h + 1,x,0⟩ :: s) hcs hcne (.cons hs hl)
    simp only [pushDown,Nat.zero_le,if_true,hc]
    refine ⟨h1,h2,h3,?_⟩
    rw [h4,rest_first_child x _ hc,List.append_assoc]
    rfl

theorem pushDown_exhausted (h : Nat) (x : Node κ h) (i : Nat) (s : Itr κ)
    (hi : (keys h x).length < i) : (pushDown h x i s).tail = s := by
  cases h with
  | zero => simp [pushDown,Nat.not_le.mpr hi]
  | succ h =>
    have hi' : ¬ i ≤ x.1.length := Nat.not_le.mpr hi
    simp [pushDown,hi']

theorem nextLoop_pop (fuel : Nat) (p : Pos κ) (s : Itr κ) (hp : p.n ≤ p.i) (hl : Live s)
    (hf : s.length < fuel) :
    Live (nextLoop fuel (some p :: s)) ∧ Ready (nextLoop fuel (some p :: s)) ∧
      denote (nextLoop fuel (some p :: s)) = denote s := by
  induction s generalizing fuel p with
  | nil =>
    obtain ⟨f,rfl⟩ := Nat.exists_eq_succ_of_ne_zero (by omega : fuel ≠ 0)
    have he : nextLoop (f + 1) [some p] = [] := by
      simp [nextLoop,pushDown_exhausted p.h p.x (p.i + 1) [] (Nat.lt_succ_of_le hp)]
    rw [he]
    exact ⟨.nil,trivial,rfl⟩
  | cons q s ih =>
    obtain ⟨f,rfl⟩ := Nat.exists_eq_succ_of_ne_zero (by omega : fuel ≠ 0)
    cases hl with
    | @cons q s hq hl =>
      have he : nextLoop (f + 1) (some p :: some q :: s) =
          if q.i < q.n then some q :: s else nextLoop f (some q :: s) := by
        simp [nextLoop,pushDown_exhausted p.h p.x (p.i + 1) (some q :: s) (Nat.lt_succ_of_le hp)]
      rw [he]
      split
      · rename_i hlt
        exact ⟨.cons hq hl,hlt,rfl⟩
      · rename_i hge
        have hr := rest_exhausted q (by omega)
        simp only [List.length_cons] at hf
        obtain ⟨h1,h2,h3⟩ := ih f q (by omega) hl (by omega)
        exact ⟨h1,h2,by rw [h3,denote,hr,List.nil_append]⟩

theorem kbItrNext_spec (s : Itr κ) (hl : Live s) (hr : Ready s) :
    kbItrKey s = (denote s).head? ∧ Live (kbItrNext s) ∧ Ready (kbItrNext s) ∧
      denote (kbItrNext s) = (denote s).tail := by
  cases hl with
  | nil => exact ⟨rfl,.nil,trivial,rfl⟩
  | @cons p s hp hl =>
    obtain ⟨h,x,i⟩ := p
    have hi : i < (keys h x).length := hr
    cases h with
    | zero =>
      have hrest : (⟨0,x,i⟩ : Pos κ).rest = (keys 0 x)[i] :: (⟨0,x,i + 1⟩ : Pos κ).rest :=
        List.drop_eq_getElem_cons hi
      have hden : denote (some ⟨0,x,i⟩ :: s) =
          (keys 0 x)[i] :: denote (some ⟨0,x,i + 1⟩ :: s) := by
        rw [denote,hrest]
        rfl
      have hpd : (pushDown 0 x (i + 1) s).tail = some ⟨0,x,i + 1⟩ :: s := by
        have hle : i + 1 ≤ (keys 0 x).length := hi
        simp [pushDown,hle]
      have hnext : kbItrNext (some ⟨0,x,i⟩ :: s) =
          if i + 1 < (keys 0 x).length then some ⟨0,x,i + 1⟩ :: s
          else nextLoop (s.length + 1) (some ⟨0,x,i + 1⟩ :: s) := by
        simp [kbItrNext,nextLoop,hpd,Pos.n]
      rw [hden,hnext]
      refine ⟨by simp [kbItrKey,List.getElem?_eq_getElem hi],?_⟩
      split
      · rename_i hlt
        exact ⟨.cons hp hl,hlt,rfl⟩
      · rename_i hge
        have hex : (⟨0,x,i + 1⟩ : Pos κ).n ≤ i + 1 := Nat.not_lt.mp hge
        obtain ⟨h1,h2,h3⟩ := nextLoop_pop (s.length + 1) ⟨0,x,i + 1⟩ s hex hl (by omega)
        refine ⟨h1,h2,?_⟩
        rw [h3,List.tail_cons,denote,rest_exhausted _ hex,List.nil_append]
    | succ h =>
      have hi' : i < x.1.length := hi
      have hlen : x.2.length = x.1.length + 1 := hp.1
      have hc : x.2[i + 1]? = some x.2[i + 1] := List.getElem?_eq_getElem (by omega)
      obtain ⟨k,hk,hrest⟩ := rest_zero_child x _ i hp hi' hc
      obtain ⟨hcne,hcs⟩ := hp.2 _ (List.mem_of_getElem? hc)
      obtain ⟨h1,h2,h3,h4⟩ := pushDown_zero h x.2[i + 1] (some ⟨h + 1,x,i + 1⟩ :: s) hcs hcne
        (.cons hp hl)
      have hpd : pushDown (h + 1) x (i + 1) s =
          pushDown h x.2[i + 1] 0 (some ⟨h + 1,x,i + 1⟩ :: s) := by
        have hle : i + 1 ≤ x.1.length := hi'
        simp [pushDown,hle,hc]
      have hden : denote (some ⟨h + 1,x,i⟩ :: s) =
          k :: denote (pushDown h x.2[i + 1] 0 (some ⟨h + 1,x,i + 1⟩ :: s)).tail := by
        rw [h4,denote,hrest]
        simp [denote]
      have hnext : kbItrNext (some ⟨h + 1,x,i⟩ :: s) =
          (pushDown h x.2[i + 1] 0 (some ⟨h + 1,x,i + 1⟩ :: s)).tail := by
        obtain ⟨top,s',he⟩ := List.exists_cons_of_ne_nil h3
        rw [he] at h1 h2
        cases h1 with
        | @cons q s' hq hl' =>
          have hq' : q.i < q.n := h2
          simp [kbItrNext,nextLoop,hpd,he,hq']
      rw [hden,hnext]
      exact ⟨hk,h1,h2,rfl⟩

theorem kbItrTake_denote (n : Nat) (s : Itr κ) (hl : Live s) (hr : Ready s)
    (hn : (denote s).length = n) : kbItrTake n s = denote s := by
  induction n generalizing s with
  | zero => simp [kbItrTake,List.length_eq_zero_iff.mp hn]
  | succ n ih =>
    obtain ⟨hk,hl',hr',hd⟩ := kbItrNext_spec s hl hr
    obtain ⟨a,as,has⟩ := List.exists_cons_of_length_eq_add_one hn
    rw [kbItrTake,ih _ hl' hr' (by rw [hd,has]; simpa [has] using hn),hk,hd,has]
    rfl

theorem kbItrNext_iterate (n : Nat) (s : Itr κ) (hl : Live s) (hr : Ready s) :
    Live (kbItrNext^[n] s) ∧ Ready (kbItrNext^[n] s) ∧ denote (kbItrNext^[n] s) = (denote s).drop n := by
  induction n generalizing s with
  | zero => exact ⟨hl,hr,rfl⟩
  | succ n ih =>
    obtain ⟨-,hl',hr',hd⟩ := kbItrNext_spec s hl hr
    obtain ⟨h1,h2,h3⟩ := ih _ hl' hr'
    rw [hd,List.drop_tail] at h3
    exact ⟨h1,h2,h3⟩

theorem kbItrValid_iff (s : Itr κ) (hl : Live s) (hr : Ready s) : kbItrValid s ↔ denote s ≠ [] := by
  cases s with
  | nil => exact iff_of_false (fun h => h rfl) (fun h => h rfl)
  | cons top s =>
    refine iff_of_true (List.cons_ne_nil _ _) (fun hz => ?_)
    have hkey := (kbItrNext_spec _ hl hr).1
    rw [hz] at hkey
    cases top with
    | none => exact hr
    | some p => exact absurd (List.getElem?_eq_none_iff.mp hkey) (Nat.not_le.mpr hr)

section First
variable {ι : Type} [LinearOrder ι] (key : κ → ι) (b : Tree κ)

theorem kbItrFirst_spec (hb : b.Ok key) :
    Live (kbItrFirst b) ∧ Ready (kbItrFirst b) ∧ denote (kbItrFirst b) = b.inorder := by
  unfold kbItrFirst
  split
  · rename_i hn
    exact ⟨.nil,trivial,(List.length_eq_zero_iff.mp (hb.size.trans hn)).symm⟩
  · rename_i hn
    have hne : keys b.height b.root ≠ [] := by
      by_cases hh : b.height = 0
      · intro he
        obtain ⟨height,root,nKeys⟩ := b
        dsimp only at hh
        subst hh
        exact hn (hb.size.symm.trans (congrArg List.length he))
      · exact hb.root hh
    obtain ⟨h1,h2,h3⟩ := firstDown_spec b.height b.root [] hb.shape hne .nil
    rw [denote,List.append_nil] at h3
    exact ⟨h1,h2,h3⟩

theorem kbItrTake_first (hb : b.Ok key) : kbItrTake b.nKeys (kbItrFirst b) = b.inorder := by
  obtain ⟨hl,hr,hd⟩ := kbItrFirst_spec key b hb
  rw [kbItrTake_denote b.nKeys _ hl hr (by rw [hd]; exact hb.size),hd]

theorem kbItrFirst_valid (hb : b.Ok key) (n : Nat) : kbItrValid (kbItrNext^[n] (kbItrFirst b)) ↔ n < b.nKeys := by
  obtain ⟨hl,hr,hd⟩ := kbItrFirst_spec key b hb
  obtain ⟨hl',hr',hd'⟩ := kbItrNext_iterate n _ hl hr
  rw [kbItrValid_iff _ hl' hr',hd',hd,← hb.size,ne_eq,List.drop_eq_nil_iff,Nat.not_le]

end First

end Kbtree
