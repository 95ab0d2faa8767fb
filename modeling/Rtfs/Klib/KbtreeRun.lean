import Rtfs.Klib.KbtreeIter
import Rtfs.Klib.KbtreeValid
import Rtfs.Lib.Labelled
import Rtfs.Lib.Listing

namespace Kbtree

open Listing

variable {κ ι : Type} [LinearOrder ι] (key : κ → ι) (t : Nat)

def getpLoop (k : ι) : (h : Nat) → Node κ h → Option κ
  | 0, ks =>
    let p := getpAux key (keys 0 ks) k
    if 0 ≤ p.1 ∧ p.2 = .eq then (keys 0 ks)[p.1.toNat]? else none
  | h + 1, x =>
    let p := getpAux key x.1 k
    if 0 ≤ p.1 ∧ p.2 = .eq then x.1[p.1.toNat]?
    else (x.2[(p.1 + 1).toNat]?).bind (fun c => getpLoop k h c)

def kbGetp (b : Tree κ) (k : ι) : Option κ := getpLoop key k b.height b.root

section Get
variable {key t} {k : ι} {l : List κ} {a : κ}

theorem find_key_none (hl : ∀ b ∈ l, key b ≠ k) : l.find? (fun b => decide (key b = k)) = none :=
  List.find?_eq_none.mpr (fun b hb => by simpa using hl b hb)

theorem find_key_cut {l₁ l₂ : List κ} (hl : ∀ b ∈ l₁, key b < k) (ha : key a = k) :
    (l₁ ++ a :: l₂).find? (fun b => decide (key b = k)) = some a := by
  rw [List.find?_append,find_key_none (fun b hb => ne_of_lt (hl b hb)),Option.none_or]
  exact List.find?_cons_of_pos (by simpa using ha)

theorem after_gt {K : List κ} {cs : List (List κ)} (hl : K.length = cs.length) (hs : Sorted key (after K cs))
    (hK : ∀ b ∈ K, k < key b) : ∀ b ∈ after K cs, k < key b := by
  cases hK' : K.head? with
  | none =>
    obtain rfl := List.head?_eq_none_iff.mp hK'
    exact fun b hb => absurd hb List.not_mem_nil
  | some m =>
    obtain ⟨-,hall⟩ := after_head key hl hs hK'
    exact fun b hb => lt_of_lt_of_le (hK m (List.mem_of_mem_head? hK')) (hall b hb)

theorem getpLoop_find (ht : 2 ≤ t) (h : Nat) (x : Node κ h) (hx : Filled t h x) (hne : 0 < size h x)
    (hs : Strict key (inorder h x)) :
    getpLoop key k h x = (inorder h x).find? (fun b => decide (key b = k)) := by
  induction h with
  | zero =>
    have hs' : Strict key (keys 0 x) := hs
    unfold getpLoop
    change _ = (keys 0 x).find? _
    rcases getpAux_cases hs'.sorted hne k with ⟨K₁,a,K₂,hks,hget,ha⟩ | ⟨K₁,K₂,hks,hi,hr,hl,hg⟩
    · rw [hks] at hs'
      have hbelow : ∀ b ∈ K₁, key b < k := fun b hb => ha ▸ (strict_cut.mp hs').2.1 b hb
      simp only [hget]
      rw [if_pos ⟨Int.natCast_nonneg _,trivial⟩,Int.toNat_natCast,hks,get_cut rfl,find_key_cut hbelow ha]
    · simp only
      rw [if_neg (fun hc => hr hc.2),hks]
      refine (find_key_none (fun b hb => ?_)).symm
      rcases List.mem_append.mp hb with hb | hb
      · exact ne_of_lt (hl b hb)
      · exact ne_of_gt (hg b hb)
  | succ h ih =>
    have hsk : Sorted key x.1 := hs.sorted.sublist (keys_sublist (h + 1) x (hx.shape ht))
    unfold getpLoop
    rcases getpAux_cases hsk hne k with ⟨K₁,a,K₂,hks,hget,ha⟩ | ⟨K₁,K₂,hks,hi,hr,hl,hg⟩
    · have hlt : K₁.length < x.1.length := by
        rw [hks]
        simp
      obtain ⟨L₁,m,L₂,C₁,y,z,C₂,rfl,hL,hC⟩ := hx.cut hlt
      obtain ⟨rfl,hrest⟩ := List.append_inj hks hL
      obtain ⟨rfl,rfl⟩ := List.cons.inj hrest
      rw [inorder_two hC.symm,← List.append_assoc] at hs ⊢
      have hbelow : ∀ b ∈ before L₁ (C₁.map (inorder h)) ++ inorder h y, key b < k :=
        fun b hb => ha ▸ (strict_cut.mp hs).2.1 b hb
      simp only [hget]
      rw [if_pos ⟨Int.natCast_nonneg _,trivial⟩,Int.toNat_natCast,get_cut rfl,find_key_cut hbelow ha]
    · obtain ⟨f,rfl,rfl,rfl⟩ := hx.focus hks
      obtain ⟨hmin,hf⟩ := f.filled_child hx
      have hlen := hx.2.1
      have hsame := f.same
      rw [f.inorder_node] at hs ⊢
      simp only [Focus.node,List.length_append,List.length_cons] at hlen
      obtain ⟨hfront,hrest,-⟩ := List.pairwise_append.mp hs.sorted
      obtain ⟨-,hback,-⟩ := List.pairwise_append.mp hrest
      have hindex : ((getpAux key f.node.1 k).1 + 1).toNat = f.K₁.length := by
        rw [hi]
        omega
      have hnone : f.front.find? (fun b => decide (key b = k)) = none :=
        find_key_none (fun b hb => ne_of_lt (before_lt hfront hl b hb))
      have hnone' : f.back.find? (fun b => decide (key b = k)) = none :=
        find_key_none (fun b hb => ne_of_gt (after_gt (by rw [List.length_map]; omega) hback hg b hb))
      simp only [hindex,f.get_child]
      rw [if_neg (fun hc => hr hc.2),Option.bind_some,ih f.child hf (by omega) ((hs.sublist
        (List.sublist_append_right _ _)).sublist (List.sublist_append_left _ _)),List.find?_append,List.find?_append,
        hnone,hnone',Option.none_or,Option.or_none]

theorem Tree.Valid.get {b : Tree κ} (hb : b.Valid key t) (ht : 2 ≤ t) (k : ι) :
    kbGetp key b k = b.inorder.find? (fun a => decide (key a = k)) := by
  unfold kbGetp
  by_cases hne : 0 < size b.height b.root
  · exact getpLoop_find ht b.height b.root hb.filled hne hb.strict
  · obtain ⟨h,x,n⟩ := b
    cases h with
    | zero =>
      have hnil : keys 0 x = [] := List.length_eq_zero_iff.mp (by
        change ¬ 0 < (keys 0 x).length at hne
        omega)
      have hin : (⟨0,x,n⟩ : Tree κ).inorder = [] := hnil
      rw [hin]
      unfold getpLoop
      rw [hnil]
      rfl
    | succ h => exact absurd (List.length_pos_of_ne_nil (hb.ok.root (Nat.succ_ne_zero h))) hne

end Get

inductive TreeEvent (κ : Type)
  | put (a : κ)
  | del (a : κ)

-- callers look a key up before they put or delete it
inductive TreeStep (b : Tree κ) : TreeEvent κ → Tree κ → Prop
  | put {a : κ} (h : kbGetp key b (key a) = none) : TreeStep b (.put a) (kbPutp key t b a)
  | del {a : κ} {b' : Tree κ} (h : kbGetp key b (key a) ≠ none) (hd : kbDelp key t b a = some b') :
      TreeStep b (.del a) b'

inductive MapStep (m : ι → Option κ) : TreeEvent κ → (ι → Option κ) → Prop
  | put {a : κ} (h : m (key a) = none) : MapStep m (.put a) (Function.update m (key a) (some a))
  | del {a : κ} (h : m (key a) ≠ none) : MapStep m (.del a) (Function.update m (key a) none)

def entry (a : κ) : ι × κ := (key a,a)

structure Holds (b : Tree κ) (m : ι → Option κ) : Prop where
  valid : b.Valid key t
  lists : Enumerates (b.inorder.map (entry key)) m

section Run
variable {key t} {b b' : Tree κ} {m : ι → Option κ}

theorem Strict.nodup {l : List κ} (hs : Strict key l) : ((l.map (entry key)).map Prod.fst).Nodup := by
  rw [List.map_map]
  exact List.pairwise_map.mpr (hs.imp (fun hlt => ne_of_lt hlt))

theorem Holds.get (h : Holds key t b m) (ht : 2 ≤ t) (k : ι) : kbGetp key b k = m k := by
  rw [h.valid.get ht k]
  cases hf : b.inorder.find? (fun a => decide (key a = k)) with
  | none =>
    refine (h.lists.none_iff.mpr (fun hin => ?_)).symm
    obtain ⟨p,hp,rfl⟩ := List.mem_map.mp hin
    obtain ⟨a,ha,rfl⟩ := List.mem_map.mp hp
    exact List.find?_eq_none.mp hf a ha (by simp [entry])
  | some a =>
    have hk : key a = k := by simpa using List.find?_some hf
    exact ((h.lists k a).mpr (List.mem_map.mpr ⟨a,List.mem_of_find?_eq_some hf,by rw [entry,hk]⟩)).symm

theorem Holds.put (h : Holds key t b m) (ht : 2 ≤ t) {a : κ} (hnew : m (key a) = none) :
    Holds key t (kbPutp key t b a) (Function.update m (key a) (some a)) := by
  have hout := h.lists.none_iff.mp hnew
  obtain ⟨hv,l,r,hl,hr⟩ := h.valid.put ht (fun c hc he => hout (List.mem_map.mpr
    ⟨entry key c,List.mem_map_of_mem hc,he⟩))
  refine ⟨hv,(h.lists.insert hout).perm ?_⟩
  rw [hr,hl]
  exact List.perm_middle.map (entry key)

theorem Holds.del (h : Holds key t b m) (ht : 2 ≤ t) {a : κ} (hin : m (key a) ≠ none) :
    ∃ b', kbDelp key t b a = some b' ∧ Holds key t b' (Function.update m (key a) none) := by
  obtain ⟨c,hc⟩ := Option.ne_none_iff_exists'.mp hin
  obtain ⟨x,hx,he⟩ := List.mem_map.mp ((h.lists _ _).mp hc)
  obtain ⟨hk,-⟩ := Prod.mk.inj he
  obtain ⟨l,r,hcut⟩ := List.append_of_mem hx
  obtain ⟨b',hd,hv,hleft⟩ := h.valid.del ht hx hk
  have hs := h.valid.strict
  have hlists := h.lists
  rw [hcut] at hs hlists hleft
  rw [← hk,without_cut hs] at hleft
  have hp : ((x :: (l ++ r)).map (entry key)).Perm ((l ++ x :: r).map (entry key)) := (List.perm_middle.map _).symm
  have herased := (hlists.perm hp).erase ((hp.map Prod.fst).nodup_iff.mpr hs.nodup)
  refine ⟨b',hd,hv,?_⟩
  rw [hleft,← hk]
  exact herased.2

theorem TreeStep.holds (ht : 2 ≤ t) {ev : TreeEvent κ} (hs : TreeStep key t b ev b') (h : Holds key t b m) :
    ∃ m', MapStep key m ev m' ∧ Holds key t b' m' := by
  cases hs with
  | put hnone =>
    rw [h.get ht] at hnone
    exact ⟨_,.put hnone,h.put ht hnone⟩
  | del hsome hd =>
    rw [h.get ht] at hsome
    obtain ⟨b₁,hd₁,hholds⟩ := h.del ht hsome
    rw [hd] at hd₁
    cases hd₁
    exact ⟨_,.del hsome,hholds⟩

end Run

theorem tree_refines_map (ht : 2 ≤ t) (events : List (TreeEvent κ)) (b : Tree κ)
    (hrun : Labelled.Run (TreeStep key t) kbInit events b) :
    ∃ m, Labelled.Run (MapStep key) (fun _ => none) events m ∧ (∀ k, kbGetp key b k = m k) ∧
      (∀ a, m (key a) ≠ none → ∃ b', kbDelp key t b a = some b') ∧
      ∃ l, kbItrTake b.nKeys (kbItrFirst b) = l ∧ Strict key l ∧ (∀ k a, m k = some a ↔ a ∈ l ∧ key a = k) ∧
        (∀ n, kbItrValid (kbItrNext^[n] (kbItrFirst b)) ↔ n < l.length) ∧
        ∀ k, (kbIntervalp key b k).2 = l.find? (fun a => decide (k ≤ key a)) := by
  obtain ⟨m,hspec,h⟩ := hrun.simulates (R := Holds key t) (fun _ _ _ _ h hs => hs.holds ht h)
    ⟨kbInit_valid key t,.nil⟩
  refine ⟨m,hspec,h.get ht,fun a ha => ?_,b.inorder,kbItrTake_first key b h.valid.ok,h.valid.strict,fun k a => ?_,
    fun n => ?_,h.valid.upper ht⟩
  · obtain ⟨b',hd,-⟩ := h.del ht ha
    exact ⟨b',hd⟩
  · rw [h.lists]
    constructor
    · intro hin
      obtain ⟨c,hc,he⟩ := List.mem_map.mp hin
      obtain ⟨hk,rfl⟩ := Prod.mk.inj he
      exact ⟨hc,hk⟩
    · rintro ⟨ha,rfl⟩
      exact List.mem_map_of_mem ha
  · rw [kbItrFirst_valid key b h.valid.ok,h.valid.ok.size]

section Sample

def fiveKeys : Tree Nat := [3,1,5,2,4].foldl (kbPutp id 2) kbInit

def cutKeys (a : Nat) (b : Tree Nat) : Tree Nat := (kbDelp id 2 b a).getD b

def twoKeys : Tree Nat := cutKeys 1 (cutKeys 5 (cutKeys 3 fiveKeys))

theorem cutKeys_step {a : Nat} {b : Tree Nat} (h : kbGetp id b a ≠ none) (hd : (kbDelp id 2 b a).isSome = true) :
    TreeStep id 2 b (.del a) (cutKeys a b) := by
  obtain ⟨b',hb'⟩ := Option.isSome_iff_exists.mp hd
  unfold cutKeys
  rw [hb']
  exact .del h hb'

def fiveEvents : List (TreeEvent Nat) := [.put 3,.put 1,.put 5,.put 2,.put 4,.del 3,.del 5,.del 1]

-- the fourth key splits the root, the last deletion merges its two children
theorem tree_five_keys : fiveKeys.height = 1 ∧ twoKeys.height = 0 ∧ ∃ m : Nat → Option Nat,
    Labelled.Run (MapStep id) (fun _ => none) fiveEvents m ∧ (∀ k, kbGetp id twoKeys k = m k) ∧
      (∀ a, m (id a) ≠ none → ∃ b', kbDelp id 2 twoKeys a = some b') ∧
      ∃ l, kbItrTake twoKeys.nKeys (kbItrFirst twoKeys) = l ∧ Strict id l ∧ (∀ k a, m k = some a ↔ a ∈ l ∧ id a = k) ∧
        (∀ n, kbItrValid (kbItrNext^[n] (kbItrFirst twoKeys)) ↔ n < l.length) ∧
        ∀ k, (kbIntervalp id twoKeys k).2 = l.find? (fun a => decide (k ≤ id a)) := by
  have hrun : Labelled.Run (TreeStep id 2) kbInit fiveEvents twoKeys :=
    .cons (.put (by decide +kernel)) (.cons (.put (by decide +kernel)) (.cons (.put (by decide +kernel))
      (.cons (.put (by decide +kernel)) (.cons (.put (by decide +kernel))
        (.cons (cutKeys_step (by decide +kernel) (by decide +kernel))
          (.cons (cutKeys_step (by decide +kernel) (by decide +kernel))
            (.cons (cutKeys_step (by decide +kernel) (by decide +kernel)) .nil)))))))
  exact ⟨by decide +kernel,by decide +kernel,tree_refines_map id 2 le_rfl fiveEvents _ hrun⟩

end Sample

end Kbtree
