import Rtfs.Lib.SlotTree

namespace SlotTree

variable {W : Type} [DecidableEq W] [Zero W]

def nodes (h : Heap W) (w : Nat) : Nat → W → List W
  | 0, n => [n]
  | d + 1, n => n :: (match h n with
    | none => []
    | some c => (List.range w).flatMap (fun j => if c j = 0 then [] else nodes h w d (c j)))

def leaves (h : Heap W) (w : Nat) : Nat → W → List W
  | 0, n =>
    match h n with
    | none => []
    | some c => (List.range w).map c
  | d + 1, n =>
    match h n with
    | none => []
    | some c => (List.range w).flatMap (fun j => if c j = 0 then [] else leaves h w d (c j))

section Walk
variable {h : Heap W} {w d : Nat} {n m v : W} {c : Nat → W} {q : List Nat} {j : Nat}

theorem reach_cons (hc : h n = some c) (hj : c j ≠ 0) : reach h n (j :: q) = reach h (c j) q := by
  simp [reach,step,hc,hj]

theorem reach_cons_node (hq : reach h n (j :: q) = .node m) :
    ∃ c, h n = some c ∧ c j ≠ 0 ∧ reach h (c j) q = .node m := by
  cases hc : h n with
  | none =>
    have hone : reach h n [j] = .lost := by simp [reach,step,hc]
    have hlost := reach_lost_append hone q
    rw [List.singleton_append,hq] at hlost
    cases hlost
  | some c =>
    by_cases hj : c j = 0
    · have hroot : reach h n [] = .node n := rfl
      have hhole := reach_hole_append (reach_hole hroot hc hj) q
      rw [List.nil_append,List.singleton_append,hq] at hhole
      cases hhole
    · rw [reach_cons hc hj] at hq
      exact ⟨c,rfl,hj,hq⟩

theorem nodes_succ (hc : h n = some c) : nodes h w (d + 1) n =
    n :: (List.range w).flatMap (fun j => if c j = 0 then [] else nodes h w d (c j)) := by
  rw [nodes,hc]

theorem leaves_succ (hc : h n = some c) : leaves h w (d + 1) n =
    (List.range w).flatMap (fun j => if c j = 0 then [] else leaves h w d (c j)) := by
  rw [leaves,hc]

theorem self_mem_nodes (d : Nat) (n : W) : n ∈ nodes h w d n := by
  cases d <;> exact List.mem_cons_self

theorem mem_below {f : W → List W} : m ∈ (List.range w).flatMap (fun j => if c j = 0 then [] else f (c j)) ↔
    ∃ j < w, c j ≠ 0 ∧ m ∈ f (c j) := by
  simp only [List.mem_flatMap,List.mem_range]
  constructor
  · rintro ⟨j,hj,hm⟩
    by_cases hz : c j = 0
    · simp [hz] at hm
    · exact ⟨j,hj,hz,by rwa [if_neg hz] at hm⟩
  · rintro ⟨j,hj,hz,hm⟩
    exact ⟨j,hj,by rwa [if_neg hz]⟩

theorem mem_nodes : m ∈ nodes h w d n ↔
    ∃ q, q.length ≤ d ∧ (∀ j ∈ q, j < w) ∧ reach h n q = .node m := by
  induction d generalizing n with
  | zero =>
    constructor
    · intro hm
      rw [List.mem_singleton.mp hm]
      exact ⟨[],le_rfl,nofun,rfl⟩
    · rintro ⟨q,hlen,-,hq⟩
      rw [List.eq_nil_of_length_eq_zero (Nat.le_zero.mp hlen)] at hq
      cases hq
      exact List.mem_cons_self
  | succ d ih =>
    constructor
    · intro hm
      rcases List.mem_cons.mp hm with rfl | hm
      · exact ⟨[],Nat.zero_le _,nofun,rfl⟩
      · cases hc : h n with
        | none => simp [hc] at hm
        | some c =>
          rw [hc] at hm
          obtain ⟨j,hj,hz,hm⟩ := mem_below.mp hm
          obtain ⟨q,hlen,hall,hq⟩ := ih.mp hm
          refine ⟨j :: q,Nat.succ_le_succ hlen,?_,(reach_cons hc hz).trans hq⟩
          intro i hi
          rcases List.mem_cons.mp hi with rfl | hi
          · exact hj
          · exact hall i hi
    · rintro ⟨q,hlen,hall,hq⟩
      cases q with
      | nil =>
        cases hq
        exact self_mem_nodes _ _
      | cons j q =>
        obtain ⟨c,hc,hz,hq⟩ := reach_cons_node hq
        rw [nodes_succ hc]
        exact List.mem_cons_of_mem _ (mem_below.mpr ⟨j,hall j List.mem_cons_self,hz,
          ih.mpr ⟨q,Nat.le_of_succ_le_succ hlen,fun i hi => hall i (List.mem_cons_of_mem _ hi),hq⟩⟩)

theorem mem_leaves : v ∈ leaves h w d n ↔
    ∃ q, q.length = d ∧ (∀ j ∈ q, j < w) ∧
      ∃ i < w, ∃ m c, reach h n q = .node m ∧ h m = some c ∧ c i = v := by
  induction d generalizing n with
  | zero =>
    cases hc : h n with
    | none =>
      simp only [leaves,hc,List.not_mem_nil,false_iff]
      rintro ⟨q,hlen,-,i,-,m,c,hq,hm,-⟩
      rw [List.eq_nil_of_length_eq_zero hlen] at hq
      cases hq
      rw [hc] at hm
      cases hm
    | some c =>
      simp only [leaves,hc,List.mem_map,List.mem_range]
      constructor
      · rintro ⟨i,hi,hv⟩
        exact ⟨[],rfl,nofun,i,hi,n,c,rfl,hc,hv⟩
      · rintro ⟨q,hlen,-,i,hi,m,c',hq,hm,hv⟩
        rw [List.eq_nil_of_length_eq_zero hlen] at hq
        cases hq
        rw [hc] at hm
        cases hm
        exact ⟨i,hi,hv⟩
  | succ d ih =>
    constructor
    · intro hv
      cases hc : h n with
      | none => simp [leaves,hc] at hv
      | some c =>
        rw [leaves_succ hc] at hv
        obtain ⟨j,hj,hz,hv⟩ := mem_below.mp hv
        obtain ⟨q,hlen,hall,i,hi,m,c',hq,hrest⟩ := ih.mp hv
        refine ⟨j :: q,congrArg (· + 1) hlen,?_,i,hi,m,c',(reach_cons hc hz).trans hq,hrest⟩
        intro k hk
        rcases List.mem_cons.mp hk with rfl | hk
        · exact hj
        · exact hall k hk
    · rintro ⟨q,hlen,hall,i,hi,m,c',hq,hrest⟩
      cases q with
      | nil => cases hlen
      | cons j q =>
        obtain ⟨c,hc,hz,hq⟩ := reach_cons_node hq
        rw [leaves_succ hc]
        exact mem_below.mpr ⟨j,hall j List.mem_cons_self,hz,
          ih.mpr ⟨q,Nat.succ_inj.mp hlen,fun k hk => hall k (List.mem_cons_of_mem _ hk),i,hi,m,c',hq,hrest⟩⟩

def Apart (h : Heap W) (w d : Nat) (n : W) : Prop :=
  ∀ q q' m, q.length ≤ d → q'.length ≤ d → (∀ j ∈ q, j < w) → (∀ j ∈ q', j < w) →
    reach h n q = .node m → reach h n q' = .node m → q = q'

theorem Apart.child (ha : Apart h w (d + 1) n) (hc : h n = some c) (hj : j < w) (hz : c j ≠ 0) :
    Apart h w d (c j) := by
  intro q q' m hlen hlen' hall hall' hq hq'
  have hpath {p : List Nat} (hp : ∀ i ∈ p, i < w) : ∀ i ∈ j :: p, i < w := by
    intro i hi
    rcases List.mem_cons.mp hi with rfl | hi
    · exact hj
    · exact hp i hi
  have heq := ha (j :: q) (j :: q') m (Nat.succ_le_succ hlen) (Nat.succ_le_succ hlen') (hpath hall) (hpath hall')
    ((reach_cons hc hz).trans hq) ((reach_cons hc hz).trans hq')
  exact (List.cons.inj heq).2

theorem nodes_nodup (ha : Apart h w d n) : (nodes h w d n).Nodup := by
  induction d generalizing n with
  | zero => exact List.nodup_singleton n
  | succ d ih =>
    cases hc : h n with
    | none =>
      simp only [nodes,hc]
      exact List.nodup_singleton n
    | some c =>
      -- a node below child j lies on a path that starts with j
      have hbelow {j : Nat} {m : W} (hj : j < w) (hm : m ∈ (if c j = 0 then [] else nodes h w d (c j))) :
          ∃ q, q.length ≤ d ∧ (∀ i ∈ j :: q, i < w) ∧ reach h n (j :: q) = .node m := by
        by_cases hz : c j = 0
        · simp [hz] at hm
        · rw [if_neg hz] at hm
          obtain ⟨q,hlen,hall,hq⟩ := mem_nodes.mp hm
          refine ⟨q,hlen,?_,(reach_cons hc hz).trans hq⟩
          intro i hi
          rcases List.mem_cons.mp hi with rfl | hi
          · exact hj
          · exact hall i hi
      rw [nodes_succ hc]
      refine List.nodup_cons.mpr ⟨fun hn => ?_,List.nodup_flatMap.mpr ⟨fun j hj => ?_,?_⟩⟩
      · obtain ⟨j,hj,hm⟩ := List.mem_flatMap.mp hn
        obtain ⟨q,hlen,hall,hq⟩ := hbelow (List.mem_range.mp hj) hm
        cases ha (j :: q) [] n (Nat.succ_le_succ hlen) (Nat.zero_le _) hall nofun hq rfl
      · by_cases hz : c j = 0
        · rw [if_pos hz]
          exact List.nodup_nil
        · rw [if_neg hz]
          exact ih (ha.child hc (List.mem_range.mp hj) hz)
      · refine List.nodup_range.imp_of_mem (fun {i j} hi hj hne m hm hm' => hne ?_)
        obtain ⟨q,hlen,hall,hq⟩ := hbelow (List.mem_range.mp hi) hm
        obtain ⟨q',hlen',hall',hq'⟩ := hbelow (List.mem_range.mp hj) hm'
        exact (List.cons.inj (ha (i :: q) (j :: q') m (Nat.succ_le_succ hlen) (Nat.succ_le_succ hlen') hall hall'
          hq hq')).1

theorem sublist_flatMap {α β : Type} {f : α → List β} {l : List α} {x : α} (hx : x ∈ l) :
    (f x).Sublist (l.flatMap f) := by
  rw [List.flatMap_def]
  exact List.sublist_flatten_of_mem (List.mem_map_of_mem hx)

theorem nodes_order {p : W} (hlen : q.length + 1 ≤ d) (hall : ∀ i ∈ q ++ [j], i < w)
    (hp : reach h n q = .node p) (hm : reach h n (q ++ [j]) = .node m) : [p,m].Sublist (nodes h w d n) := by
  induction d generalizing n q with
  | zero => exact absurd hlen (Nat.not_succ_le_zero _)
  | succ d ih =>
    cases q with
    | nil =>
      cases hp
      obtain ⟨c,hc,hz,hm⟩ := reach_cons_node hm
      rw [nodes_succ hc]
      refine List.Sublist.cons_cons _ (List.singleton_sublist.mpr ?_)
      cases hm
      exact mem_below.mpr ⟨j,hall j List.mem_cons_self,hz,self_mem_nodes d (c j)⟩
    | cons i q =>
      obtain ⟨c,hc,hz,hp⟩ := reach_cons_node hp
      rw [List.cons_append,reach_cons hc hz] at hm
      have hsub := ih (Nat.le_of_succ_le_succ hlen) (fun k hk => hall k (List.mem_cons_of_mem _ hk)) hp hm
      rw [nodes_succ hc]
      refine (hsub.trans ?_).trans (List.sublist_cons_self _ _)
      have hpart := sublist_flatMap (f := fun j => if c j = 0 then [] else nodes h w d (c j))
        (List.mem_range.mpr (hall i List.mem_cons_self))
      simp only [if_neg hz] at hpart
      exact hpart

end Walk

end SlotTree
