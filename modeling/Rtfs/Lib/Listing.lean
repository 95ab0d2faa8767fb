import Mathlib.Tactic

-- partial maps and lists of their pairs
namespace Listing

variable {α β : Type} {ps qs : List (α × β)} {m : α → Option β} {a : α} {b : β}

def Enumerates (ps : List (α × β)) (m : α → Option β) : Prop := ∀ a b, m a = some b ↔ (a,b) ∈ ps

theorem Enumerates.nil : Enumerates ([] : List (α × β)) (fun _ => none) :=
  fun _ _ => iff_of_false (by simp) List.not_mem_nil

theorem Enumerates.perm (h : Enumerates ps m) (hp : qs.Perm ps) : Enumerates qs m :=
  fun a b => (h a b).trans hp.mem_iff.symm

theorem Enumerates.none_iff (h : Enumerates ps m) : m a = none ↔ a ∉ ps.map Prod.fst := by
  constructor
  · intro hnone hin
    obtain ⟨⟨_,b⟩,hp,rfl⟩ := List.mem_map.mp hin
    rw [(h _ b).mpr hp] at hnone
    cases hnone
  · intro hnot
    cases hm : m a with
    | none => rfl
    | some b => exact absurd (List.mem_map.mpr ⟨(a,b),(h a b).mp hm,rfl⟩) hnot

theorem Enumerates.empty_iff (h : Enumerates ps m) : ps = [] ↔ ∀ a, m a = none := by
  rw [List.eq_nil_iff_forall_not_mem]
  constructor
  · intro hnil a
    rw [h.none_iff]
    exact fun hin => (List.mem_map.mp hin).elim (fun p hp => hnil p hp.1)
  · intro hnone p hp
    exact h.none_iff.mp (hnone p.1) (List.mem_map_of_mem hp)

def Counts (m : α → Option β) (n : Nat) : Prop := ∃ ps, Enumerates ps m ∧ (ps.map Prod.fst).Nodup ∧ ps.length = n

theorem Counts.nil : Counts (fun _ : α => (none : Option β)) 0 := ⟨[],.nil,List.nodup_nil,rfl⟩

theorem Counts.zero_iff {n : Nat} (h : Counts m n) : n = 0 ↔ ∀ a, m a = none := by
  obtain ⟨ps,hps,-,rfl⟩ := h
  rw [← hps.empty_iff,List.length_eq_zero_iff]

variable [DecidableEq α]

theorem Enumerates.insert (h : Enumerates ps m) (hnew : a ∉ ps.map Prod.fst) :
    Enumerates ((a,b) :: ps) (Function.update m a (some b)) := by
  intro a' b'
  rw [List.mem_cons,Prod.mk.injEq]
  by_cases ha : a' = a
  · subst ha
    rw [Function.update_self,Option.some.injEq]
    exact ⟨fun hb => .inl ⟨rfl,hb.symm⟩,
      fun hor => (hor.resolve_right (fun hin => hnew (List.mem_map_of_mem hin))).2.symm⟩
  · rw [Function.update_of_ne ha,h]
    exact ⟨.inr,fun hor => hor.resolve_left (fun he => ha he.1)⟩

theorem Enumerates.erase (h : Enumerates ((a,b) :: ps) m) (hn : (((a,b) :: ps).map Prod.fst).Nodup) :
    m a = some b ∧ Enumerates ps (Function.update m a none) := by
  refine ⟨(h a b).mpr List.mem_cons_self,fun a' b' => ?_⟩
  have hnew := (List.nodup_cons.mp hn).1
  by_cases ha : a' = a
  · subst ha
    rw [Function.update_self]
    exact iff_of_false (by simp) (fun hin => hnew (List.mem_map.mpr ⟨_,hin,rfl⟩))
  · rw [Function.update_of_ne ha,h,List.mem_cons,Prod.mk.injEq]
    exact ⟨fun hor => hor.resolve_left (fun he => ha he.1),.inr⟩

theorem Counts.insert {n : Nat} (h : Counts m n) (hnew : m a = none) : Counts (Function.update m a (some b)) (n + 1) := by
  obtain ⟨ps,hps,hn,hlen⟩ := h
  have hnot := hps.none_iff.mp hnew
  exact ⟨(a,b) :: ps,hps.insert hnot,List.nodup_cons.mpr ⟨hnot,hn⟩,congrArg Nat.succ hlen⟩

theorem Counts.erase {n : Nat} (h : Counts m n) (hb : m a ≠ none) : Counts (Function.update m a none) (n - 1) := by
  obtain ⟨ps,hps,hn,hlen⟩ := h
  obtain ⟨b,hb⟩ := Option.ne_none_iff_exists'.mp hb
  obtain ⟨pre,post,rfl⟩ := List.append_of_mem ((hps a b).mp hb)
  have hperm : ((a,b) :: (pre ++ post)).Perm (pre ++ (a,b) :: post) := List.perm_middle.symm
  have hn' := (hperm.map Prod.fst).nodup_iff.mpr hn
  refine ⟨pre ++ post,((hps.perm hperm).erase hn').2,(List.nodup_cons.mp hn').2,?_⟩
  rw [← hlen,← hperm.length_eq]
  rfl

theorem displaced_perm {γ : Type} {n : Nat} {ks : List Nat} (hn : ks.Nodup) (hlt : ∀ k ∈ ks, k < n) {f g : Nat → γ}
    (hsame : ∀ i < n, i ∉ ks → f i = g i) :
    ((List.range n).map f ++ ks.map g).Perm ((List.range n).map g ++ ks.map f) := by
  have hin : ks.Perm ((List.range n).filter (fun i => decide (i ∈ ks))) := by
    rw [List.perm_ext_iff_of_nodup hn (List.nodup_range.filter _)]
    intro k
    rw [List.mem_filter,List.mem_range,decide_eq_true_iff]
    exact ⟨fun hk => ⟨hlt k hk,hk⟩,fun hk => hk.2⟩
  have hsplit (h : Nat → γ) : ((List.range n).map h).Perm
      (ks.map h ++ ((List.range n).filter (fun i => !decide (i ∈ ks))).map h) := by
    rw [← List.map_append]
    exact ((List.filter_append_perm (fun i => decide (i ∈ ks)) (List.range n)).symm.trans
      (hin.symm.append_right _)).map h
  have hrest : ((List.range n).filter (fun i => !decide (i ∈ ks))).map f =
      ((List.range n).filter (fun i => !decide (i ∈ ks))).map g :=
    List.map_congr_left (fun i hi => hsame i (List.mem_range.mp (List.mem_filter.mp hi).1)
      (by simpa using (List.mem_filter.mp hi).2))
  refine ((hsplit f).append_right _).trans (List.Perm.trans ?_ ((hsplit g).append_right _).symm)
  rw [hrest,List.append_assoc,List.append_assoc]
  exact (List.perm_append_comm.append_left _).trans
    ((List.perm_append_comm_assoc _ _ _).trans (List.perm_append_comm.append_left _))

end Listing
